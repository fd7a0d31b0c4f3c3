import Lcm.Conc.Twin
import Lcm.Db.Twin
import Lcm.Service.Rules

/-!
# Two runs of service programs

`Svc.Couple` compares two programs that run alone, each on its own database, while the world makes
the same choices for both. The rules follow the programs step by step, down to the transactions
(`Db.Tx.Twin`).
-/

namespace Lcm

open Conc Db

/-- What the audit log gets to see of a step. -/
def Ev.audited : Ev → Option AuditEvent
  | .audit e => some e
  | _ => none

/-- The audit log gets to see the same. -/
def Ev.SameAudit (a b : Ev) : Prop := a.audited = b.audited

namespace Svc

variable {α β γ δ : Type} {e : Nat → Env} {n : Nat} {s s' : Database}
  {R Pre Mid Post : Database → Database → Prop} {V : α → β → Prop} {W : γ → δ → Prop}
  {ev : Except Err α → Ev} {r' : Except Err β} {r : Except Err α}

/-- Run alone from databases that `Pre` relates, the programs end with databases that `Post`
relates, and with the same error or with values that `V` relates. -/
def Couple (e : Nat → Env) (Pre Post : Database → Database → Prop) (V : α → β → Prop) (m : Svc α)
    (m' : Svc β) (n : Nat) : Prop :=
  ∀ s s', Pre s s' →
    m.run.Twin e Ev.SameAudit (fun _ t t' r r' => Post t t' ∧ Alike V r r') m'.run n s s'

theorem couple_pure {a : α} {b : β} (h : V a b) : Couple e R R V (pure a) (pure b) n :=
  fun _ _ hR => ⟨hR, h⟩

theorem couple_fail (err : Err) : Couple e R R V (fail err) (fail err) n :=
  fun _ _ hR => ⟨hR, rfl⟩

theorem couple_ofExcept (h : Alike V r r') :
    Couple e R R V (ofExcept r) (ofExcept r') n := fun _ _ hR => ⟨hR, h⟩

theorem couple_ask {f : Env → α} {f' : Env → β} {ev : α → Ev} {ev' : β → Ev}
    (h : V (f (e n)) (f' (e n))) (hev : (ev (f (e n))).SameAudit (ev' (f' (e n)))) :
    Couple e R R V (ask f ev) (ask f' ev') n := fun _ _ hR => ⟨hev, hR, h⟩

theorem couple_now : Couple e R R Eq now now n := couple_ask rfl rfl

theorem couple_newID : Couple e R R Eq newID newID n := couple_ask rfl rfl

theorem couple_emit (ev : AuditEvent) : Couple e R R Eq (emit ev) (emit ev) n := couple_ask rfl rfl

theorem couple_askExcept {f : Env → Except Err α} {f' : Env → Except Err β}
    (h : Alike V (f (e n)) (f' (e n))) : Couple e R R V (askExcept f) (askExcept f') n :=
  fun _ _ hR => ⟨rfl, hR, h⟩

theorem transact_twin {m : Sql α} {m' : Sql β} (hm : Tx.Twin R V m m') (i : Env) (hR : R s s') :
    Alike V (transact m i s).1 (transact m' i s').1 ∧ R (transact m i s).2 (transact m' i s').2 := by
  unfold transact
  split
  · exact hm.atomic i hR
  · exact ⟨rfl, hR⟩
  · exact ⟨rfl, hR⟩

theorem couple_repo {ev' : Except Err β → Ev} {m : Sql α} {m' : Sql β}
    (hev : ∀ r r', (ev r).SameAudit (ev' r')) (hm : Tx.Twin R V m m') :
    Couple e R R V (repo ev m) (repo ev' m') n := by
  intro s s' hR
  obtain ⟨hr, hR'⟩ := transact_twin hm (e n) hR
  exact ⟨hev _ _, hR', hr⟩

theorem couple_fetch {m : Sql α} {m' : Sql β} (hm : Tx.Twin R V m m') :
    Couple e R R V (fetch m) (fetch m') n := couple_repo (fun _ _ => rfl) hm

variable {m : Svc α} {m' : Svc β} {f : α → Svc γ} {f' : β → Svc δ}

theorem Couple.attempt (hm : Couple e Pre Post V m m' n) :
    Couple e Pre Post (Alike V) m.attempt m'.attempt n := by
  intro s s' hR
  refine Prog.Twin.bind (Prog.Twin.mono ?_ (hm s s' hR))
  exact fun _ _ _ _ _ h => h

theorem Couple.bind (hm : Couple e Pre Mid V m m' n) (herr : ∀ s s', Mid s s' → Post s s')
    (hf : ∀ k a b, V a b → Couple e Mid Post W (f a) (f' b) k) :
    Couple e Pre Post W (m >>= f) (m' >>= f') n := by
  intro s s' hR
  refine Prog.Twin.bind (Prog.Twin.mono ?_ (hm s s' hR))
  rintro k t t' r r' ⟨hmid, hr⟩
  match r, r', hr with
  | .ok a, .ok b, hr => exact hf k a b hr t t' hmid
  | .error _, .error _, hr => exact ⟨herr t t' hmid, hr⟩

theorem Couple.seq (hm : Couple e R R V m m' n)
    (hf : ∀ k a b, V a b → Couple e R R W (f a) (f' b) k) :
    Couple e R R W (m >>= f) (m' >>= f') n := hm.bind (fun _ _ h => h) hf

theorem couple_ofExcept_seq (hr : Alike V r r')
    (hf : ∀ a b, r = .ok a → V a b → Couple e R R W (f a) (f' b) n) :
    Couple e R R W (ofExcept r >>= f) (ofExcept r' >>= f') n := by
  match r, r', hr with
  | .ok a, .ok b, hr => exact hf a b rfl hr
  | .error err, .error _, rfl => exact couple_fail err

theorem couple_ite {c c' : Prop} [Decidable c] [Decidable c'] {m2 : Svc α} {m2' : Svc β}
    (hc : c ↔ c') (ht : c → Couple e Pre Post V m m' n) (hf : ¬c → Couple e Pre Post V m2 m2' n) :
    Couple e Pre Post V (if c then m else m2) (if c' then m' else m2') n := by
  by_cases h : c
  · rw [if_pos h, if_pos (hc.1 h)]
    exact ht h
  · rw [if_neg h, if_neg fun h' => h (hc.2 h')]
    exact hf h

theorem Couple.weaken {V' : α → β → Prop} {Pre' Post' : Database → Database → Prop}
    (hpre : ∀ s s', Pre' s s' → Pre s s') (hpost : ∀ s s', Post s s' → Post' s s')
    (hV : ∀ a b, V a b → V' a b) (h : Couple e Pre Post V m m' n) :
    Couple e Pre' Post' V' m m' n := by
  intro s s' hR
  refine Prog.Twin.mono ?_ (h s s' (hpre s s' hR))
  exact fun _ _ _ _ _ h => ⟨hpost _ _ h.1, h.2.mono hV⟩

theorem Couple.frame {q : Ev → Prop} (hm : Only q m) (hm' : Only q m') (h : Couple e R R V m m' n)
    (s s' : Database) :
    Couple e (fun t t' => R t t' ∧ t = s ∧ t' = s') (fun t t' => R t t' ∧ t = s ∧ t' = s') V m m'
      n := by
  rintro t t' ⟨hR, rfl, rfl⟩
  refine Prog.Twin.mono ?_ (Prog.Twin.of_quiet hm hm' (h t t' hR))
  rintro k u u' r r' ⟨hu, hu', hpost, hr⟩
  exact ⟨⟨hpost, hu, hu'⟩, hr⟩

/-! ## One program on two databases -/

/-- The program finds and does the same on related databases. -/
def Blind (R : Database → Database → Prop) (m : Svc α) : Prop := ∀ e n, Couple e R R Eq m m n

theorem blind_pure (a : α) : Blind R (pure a : Svc α) := fun _ _ => couple_pure rfl

theorem blind_fail (err : Err) : Blind R (fail err : Svc α) := fun _ _ => couple_fail err

theorem blind_ofExcept (r : Except Err α) : Blind R (ofExcept r) := fun _ _ =>
  couple_ofExcept (alike_eq_iff.2 rfl)

theorem blind_ask (f : Env → α) (ev : α → Ev) : Blind R (ask f ev) := fun _ _ => couple_ask rfl rfl

theorem blind_fetch {m : Sql α} (hm : Tx.Blind R m) : Blind R (fetch m) := fun _ _ => couple_fetch hm

theorem Blind.attempt (hm : Blind R m) : Blind R m.attempt := fun e n =>
  Couple.weaken (fun _ _ h => h) (fun _ _ h => h) (fun _ _ h => alike_eq_iff.1 h) (hm e n).attempt

theorem Blind.bind (hm : Blind R m) (hf : ∀ a, Blind R (f a)) : Blind R (m >>= f) := by
  intro e n
  refine (hm e n).seq ?_
  rintro k a _ rfl
  exact hf a e k

theorem blind_ite {c : Prop} [Decidable c] {m' : Svc α} (hm : Blind R m) (hm' : Blind R m') :
    Blind R (if c then m else m') := by
  split
  · exact hm
  · exact hm'

/-! ## Whole calls -/

theorem Couple.exec (h : Couple e Pre Post V m m' 0) (hR : Pre s s') :
    Post (m.run.exec e 0 s []).1 (m'.run.exec e 0 s' []).1 ∧
      (m.run.exec e 0 s []).2.1.filterMap Ev.audited =
        (m'.run.exec e 0 s' []).2.1.filterMap Ev.audited ∧
      Alike V (outcome m e s) (outcome m' e s') := by
  obtain ⟨hevs, k, hpost, hr⟩ := (h s s' hR).exec .nil
  refine ⟨hpost, ?_, hr⟩
  generalize (m.run.exec e 0 s []).2.1 = evs at hevs ⊢
  generalize (m'.run.exec e 0 s' []).2.1 = evs' at hevs ⊢
  induction hevs with
  | nil => rfl
  | cons hev _ ih =>
    have hsame : Ev.audited _ = Ev.audited _ := hev
    rw [List.filterMap_cons, List.filterMap_cons, hsame, ih]

end Svc

end Lcm
