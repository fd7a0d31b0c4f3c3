import Lcm.Conc.Trail
import Lcm.Service.Rules

/-!
# Service programs along a run

`Svc.Along`: every step of the call, wherever in a given run it is made, is as it has to be, and
what the call returns without an error is so too. The rules follow the shape of the program, as
those of `wp` and `Ends` do. `Saw` says that an earlier step of the call has met a store of which
something holds: what a call has read is a fact about such a store.
-/

namespace Lcm.Svc

open Conc Db

variable {α β : Type} {may : Nat → Env → Database → Prop}
  {ok : Trail Ev → Nat → Env → Database → Ev → Database → Prop} {h h' : Trail Ev} {n : Nat}

/-- From the trail `h` and from place `n` on, every step of the call is as `ok` says, if it is
made where it `may` be, and the call returns a value only with `Q`. -/
def Along (may : Nat → Env → Database → Prop)
    (ok : Trail Ev → Nat → Env → Database → Ev → Database → Prop) (m : Svc α)
    (Q : Trail Ev → Nat → α → Prop) (h : Trail Ev) (n : Nat) : Prop :=
  m.run.Along may ok (fun h n r => ∀ a, r = .ok a → Q h n a) h n

/-- The step of the call at place `k` has met a store of which `φ` holds, under the world's
choice there. -/
def Saw (may : Nat → Env → Database → Prop) (h : Trail Ev) (k : Nat)
    (φ : Env → Database → Prop) : Prop :=
  ∃ ev e s, (k, ev) ∈ h ∧ may k e s ∧ φ e s

theorem Saw.mono {k : Nat} {φ ψ : Env → Database → Prop} (hφ : ∀ e s, φ e s → ψ e s)
    (hs : Saw may h k φ) : Saw may h k ψ := by
  obtain ⟨ev, e, s, hmem, hmay, hseen⟩ := hs
  exact ⟨ev, e, s, hmem, hmay, hφ e s hseen⟩

theorem Saw.later {k : Nat} {φ : Env → Database → Prop} (hs : Saw may h k φ) (hh : h <+: h') :
    Saw may h' k φ := by
  obtain ⟨ev, e, s, hmem, hmay, hseen⟩ := hs
  exact ⟨ev, e, s, hh.subset hmem, hmay, hseen⟩

variable {Q : Trail Ev → Nat → α → Prop}

theorem along_pure {a : α} (ha : Q h n a) : Along may ok (pure a) Q h n := by
  rintro b ⟨⟩
  exact ha

theorem along_fail (e : Err) : Along may ok (fail e) Q h n := by
  rintro b ⟨⟩

variable {m : Svc α} {f : α → Svc β} {ev : Except Err α → Ev} {tx : Sql α}
  {R : Trail Ev → Nat → α → Prop}

theorem Along.mono (hQR : ∀ h n a, Q h n a → R h n a) (hm : Along may ok m Q h n) :
    Along may ok m R h n :=
  Prog.Along.mono (fun h n _ hr a ha => hQR h n a (hr a ha)) hm

theorem along_bind {Q : Trail Ev → Nat → β → Prop} (hm : Along may ok m R h n)
    (hf : ∀ h' n' a, h <+: h' → n ≤ n' → R h' n' a → Along may ok (f a) Q h' n') :
    Along may ok (m >>= f) Q h n := by
  refine (Prog.along_bind m.run _ _).2 (Prog.Along.mono ?_ (Prog.Along.grow hm))
  rintro h' n' r ⟨hh, hn, hr⟩
  cases r with
  | ok a => exact hf h' n' a hh hn (hr a rfl)
  | error e => exact along_fail e

theorem along_ofExcept_bind {r : Except Err α} {Q : Trail Ev → Nat → β → Prop}
    (hf : ∀ a, r = .ok a → Along may ok (f a) Q h n) : Along may ok (ofExcept r >>= f) Q h n := by
  cases r with
  | ok a => exact hf a rfl
  | error e => exact along_fail e

theorem along_attempt {Q : Trail Ev → Nat → Except Err α → Prop}
    (hm : Along may ok m (fun h n a => Q h n (.ok a)) h n)
    (herr : ∀ h' n' e, h <+: h' → n ≤ n' → Q h' n' (.error e)) :
    Along may ok (attempt m) Q h n := by
  refine (Prog.along_bind m.run _ _).2 (Prog.Along.mono ?_ (Prog.Along.grow hm))
  rintro h' n' r ⟨hh, hn, hr⟩ x ⟨⟩
  cases r with
  | ok a => exact hr a rfl
  | error e => exact herr h' n' e hh hn

theorem along_ite {c : Prop} [Decidable c] {m' : Svc α} (hm : c → Along may ok m Q h n)
    (hm' : ¬c → Along may ok m' Q h n) : Along may ok (if c then m else m') Q h n := by
  split
  · next hc => exact hm hc
  · next hc => exact hm' hc

theorem along_ask {f : Env → α} {ev : α → Ev}
    (hstep : ∀ m e s, n ≤ m → may m e s → ok h m e s (ev (f e)) s ∧
      Q (h ++ [(m, ev (f e))]) (m + 1) (f e)) : Along may ok (ask f ev) Q h n := by
  intro m e s hm hmay
  obtain ⟨hok, hQ⟩ := hstep m e s hm hmay
  exact ⟨hok, along_pure hQ⟩

theorem along_repo
    (hstep : ∀ m e s, n ≤ m → may m e s → ok h m e s (ev (transact tx e s).1) (transact tx e s).2 ∧ ∀ a, (transact tx e s).1 = .ok a → Q (h ++ [(m, ev (.ok a))]) (m + 1) a)
    : Along may ok (repo ev tx) Q h n := by
  intro m e s hm hmay
  obtain ⟨hok, hQ⟩ := hstep m e s hm hmay
  refine ⟨hok, ?_⟩
  intro a (ha : (transact tx e s).1 = .ok a)
  show Q (h ++ [(m, ev (transact tx e s).1)]) (m + 1) a
  rw [ha]
  exact hQ a ha

theorem along_read (htx : tx.ReadOnly)
    (hok : ∀ m e s, n ≤ m → may m e s → ok h m e s (ev (transact tx e s).1) s) :
    Along may ok (repo ev tx) (fun h' n' a => ∃ k, n ≤ k ∧ k < n' ∧ (k, ev (.ok a)) ∈ h' ∧
      Saw may h' k fun e s => (transact tx e s).1 = .ok a) h n := by
  refine along_repo fun m e s hm hmay => ⟨?_, fun a ha => ?_⟩
  · rw [transact_readOnly htx]
    exact hok m e s hm hmay
  · exact ⟨m, hm, Nat.lt_succ_self m, by simp, ev (.ok a), e, s, by simp, hmay, ha⟩

section Only

variable {q : Ev → Prop} {R : α → Prop}

theorem along_only (hok : ∀ h m e s ev, q ev → may m e s → ok h m e s ev s) (hm : Only q m)
    (hR : Yields R m) : Along may ok m (fun h' _ a => (∀ x ∈ h', x ∈ h ∨ q x.2) ∧ R a) h n := by
  refine Prog.Along.mono ?_ (Prog.Quiet.along hm hok hR)
  rintro h' n' r ⟨hnew, hr⟩ a ha
  exact ⟨hnew, hr a ha⟩

theorem along_only_bind (hok : ∀ h m e s ev, q ev → may m e s → ok h m e s ev s) (hm : Only q m)
    {Q : Trail Ev → Nat → β → Prop}
    (hf : ∀ h' n' a, h <+: h' → n ≤ n' → (∀ x ∈ h', x ∈ h ∨ q x.2) → Along may ok (f a) Q h' n') :
    Along may ok (m >>= f) Q h n :=
  along_bind (along_only hok hm (yields_any m)) fun h' n' a hh hn hnew =>
    hf h' n' a hh hn hnew.1

end Only

end Lcm.Svc
