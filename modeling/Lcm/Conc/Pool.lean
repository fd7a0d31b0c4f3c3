import Lcm.Conc.Prog
import Mathlib.Algebra.GroupWithZero.Nat

/-!
# Thread pools

Any number of calls run against one store. A schedule is a list of acts: a call arrives, or
one thread makes its next step under a choice of the environment. `Config.apply` is the
executable step and `Config.exec` a whole run.

The rules:

* `Spec.tracked_apply`: if every body keeps to its monitor alone, then in every run every
  thread keeps to its monitor from the ghost state its own history leads to.
* `Spec.move_apply`: what one act can do, told by the monitors (`Spec.Move`).
* `Spec.inv_exec`: an invariant of the acts that meet a condition holds at the end of every
  run whose acts all meet it.
* `Spec.modular_exec`: the same for an invariant of the store together with one assertion
  per thread.
* `Spec.records_exec`: the same for an invariant of the store and all the records.
-/

namespace Conc

open List

variable {ι σ ε κ ρ γ : Type}

/-- What is on record about a thread: its call, the store when the call began, and the events
it has emitted, oldest first. -/
structure Record (σ ε κ : Type) where
  call : κ
  born : σ
  hist : List ε

/-- A thread: its record and what is left of its program. -/
structure Thread (ι σ ε κ ρ : Type) extends Record σ ε κ where
  prog : Prog ι σ ε κ ρ

/-- A store and the threads that share it. A thread that has returned stays in the list. -/
structure Config (ι σ ε κ ρ : Type) where
  store : σ
  threads : List (Thread ι σ ε κ ρ)

/-- One act of a schedule: a call arrives, or thread `i` makes its next step under `e`. -/
inductive Act (ι κ : Type) where
  | spawn (c : κ)
  | run (i : Nat) (e : ι)

/-- The call that arrives, if one does, is one of `ops`. -/
def Act.Calls (ops : κ → Prop) : Act ι κ → Prop
  | spawn c => ops c
  | run _ _ => True

instance (ops : κ → Prop) [DecidablePred ops] : DecidablePred (Act.Calls ops : Act ι κ → Prop)
  | .spawn c => inferInstanceAs (Decidable (ops c))
  | .run _ _ => inferInstanceAs (Decidable True)

variable {a : Act ι κ} {cfg : Config ι σ ε κ ρ} {i : Nat} {t : Thread ι σ ε κ ρ}
  {as : List (Act ι κ)} {cond : Config ι σ ε κ ρ → Act ι κ → Prop} {τ : Type} {l : List τ}

theorem Act.Calls.mono {ops ops' : κ → Prop} (h : ∀ c, ops c → ops' c) (ha : a.Calls ops) :
    a.Calls ops' := by
  cases a with
  | spawn c => exact h c ha
  | run i e => trivial

/-- The record after one more event. -/
def Record.push (t : Record σ ε κ) (ev : ε) : Record σ ε κ := { t with hist := t.hist ++ [ev] }

@[simp] theorem Record.push_call (t : Record σ ε κ) (ev : ε) : (t.push ev).call = t.call := rfl

@[simp] theorem Record.push_hist (t : Record σ ε κ) (ev : ε) :
    (t.push ev).hist = t.hist ++ [ev] := rfl

namespace Config

/-- The record of a call that begins in store `s`. -/
def fresh (c : κ) (s : σ) : Record σ ε κ := ⟨c, s, []⟩

@[simp] theorem fresh_call (c : κ) (s : σ) : (fresh c s : Record σ ε κ).call = c := rfl

@[simp] theorem fresh_hist (c : κ) (s : σ) : (fresh c s : Record σ ε κ).hist = [] := rfl

/-- No call has arrived yet. -/
def init (s : σ) : Config ι σ ε κ ρ := ⟨s, []⟩

/-- The event thread `i` emits when it makes its next step under `e`. -/
def emits (cfg : Config ι σ ε κ ρ) (i : Nat) (e : ι) : Option ε :=
  match cfg.threads[i]? with
  | some ⟨_, .step act _⟩ => some (act e cfg.store).2
  | _ => none

variable (body : κ → Prog ι σ ε κ ρ) {cond' : Config ι σ ε κ ρ → Act ι κ → Prop}

/-- One act. -/
def apply (cfg : Config ι σ ε κ ρ) : Act ι κ → Config ι σ ε κ ρ
  | .spawn c => { cfg with threads := cfg.threads ++ [⟨fresh c cfg.store, body c⟩] }
  | .run i e =>
    match cfg.threads[i]? with
    | none => cfg
    | some ⟨_, .ret _⟩ => cfg
    | some ⟨t, .step act next⟩ =>
      { store := (act e cfg.store).1
        threads := cfg.threads.set i ⟨t.push (act e cfg.store).2, next e cfg.store⟩ }
    | some ⟨t, .fork c next⟩ =>
      { cfg with
        threads := cfg.threads.set i ⟨t, next⟩ ++ [⟨fresh c cfg.store, body c⟩] }

/-- A whole schedule. -/
def exec (cfg : Config ι σ ε κ ρ) (as : List (Act ι κ)) : Config ι σ ε κ ρ :=
  as.foldl (apply body) cfg

@[simp] theorem exec_nil (cfg : Config ι σ ε κ ρ) : cfg.exec body [] = cfg := rfl

@[simp] theorem exec_cons (cfg : Config ι σ ε κ ρ) (a : Act ι κ) (as : List (Act ι κ)) :
    cfg.exec body (a :: as) = (cfg.apply body a).exec body as := rfl

theorem exec_append (cfg : Config ι σ ε κ ρ) (as bs : List (Act ι κ)) :
    cfg.exec body (as ++ bs) = (cfg.exec body as).exec body bs := by
  simp [exec, foldl_append]

def records (cfg : Config ι σ ε κ ρ) : List (Record σ ε κ) := cfg.threads.map Thread.toRecord

theorem records_getElem? (h : cfg.threads[i]? = some t) : cfg.records[i]? = some t.toRecord := by
  simp [records, h]

theorem thread_of_record {u : Record σ ε κ} (h : cfg.records[i]? = some u) :
    ∃ t, cfg.threads[i]? = some t ∧ t.toRecord = u := by
  simpa [records] using h

/-- Every act of the schedule meets the condition in the configuration it is made in. -/
def Meets (cond : Config ι σ ε κ ρ → Act ι κ → Prop) : Config ι σ ε κ ρ → List (Act ι κ) → Prop
  | _, [] => True
  | cfg, a :: as => cond cfg a ∧ Meets cond (cfg.apply body a) as

theorem meets_append {bs : List (Act ι κ)} :
    cfg.Meets body cond (as ++ bs) ↔
      cfg.Meets body cond as ∧ (cfg.exec body as).Meets body cond bs := by
  induction as generalizing cfg with
  | nil => simp [Meets]
  | cons a as ih => simp [Meets, ih, and_assoc]

theorem Meets.mono (h : ∀ cfg a, cond cfg a → cond' cfg a) (hm : cfg.Meets body cond as) :
    cfg.Meets body cond' as := by
  induction as generalizing cfg with
  | nil => trivial
  | cons a as ih => exact ⟨h cfg a hm.1, ih hm.2⟩

theorem meets_all (h : ∀ cfg a, cond cfg a) : cfg.Meets body cond as := by
  induction as generalizing cfg with
  | nil => trivial
  | cons a as ih => exact ⟨h cfg a, ih⟩

theorem meets_and (h : cfg.Meets body cond as) (h' : cfg.Meets body cond' as) :
    cfg.Meets body (fun cfg a => cond cfg a ∧ cond' cfg a) as := by
  induction as generalizing cfg with
  | nil => trivial
  | cons a as ih => exact ⟨⟨h.1, h'.1⟩, ih h.2 h'.2⟩

instance decidableMeets (cond : Config ι σ ε κ ρ → Act ι κ → Prop)
    [∀ cfg a, Decidable (cond cfg a)] :
    (cfg : Config ι σ ε κ ρ) → (as : List (Act ι κ)) → Decidable (cfg.Meets body cond as)
  | _, [] => .isTrue trivial
  | cfg, a :: as =>
    @instDecidableAnd _ _ _ (decidableMeets cond (cfg.apply body a) as)

end Config

/-! ## Specifications of calls -/

/-- One monitor for each call, where it starts, and what the call returns with. `ops` are the
calls the specification is about. -/
structure Spec (γ ι σ ε κ ρ : Type) where
  ops : κ → Prop
  mon : κ → Monitor γ ι σ ε κ
  start : κ → γ
  post : κ → γ → ρ → Prop

namespace Spec

variable (S : Spec γ ι σ ε κ ρ)

/-- The ghost state a record has led to. -/
def ghost (t : Record σ ε κ) : γ := t.hist.foldl (S.mon t.call).next (S.start t.call)

/-- Every call of the specification, run by itself against a store that others may change,
keeps to its monitor, and starts only calls of the specification. -/
structure Sound (body : κ → Prog ι σ ε κ ρ) : Prop where
  wp_body : ∀ c, S.ops c → (S.mon c).wp (body c) (S.post c) (S.start c)
  ops_of_starts : ∀ c g c', S.ops c → (S.mon c).starts g c' → S.ops c'

/-- Every thread is a call of the specification and keeps to its monitor from here on. -/
def Tracked (cfg : Config ι σ ε κ ρ) : Prop :=
  ∀ t ∈ cfg.threads, S.ops t.call ∧
    (S.mon t.call).wp t.prog (S.post t.call) (S.ghost t.toRecord)

/-- What an act can do to a tracked configuration. -/
inductive Move (cfg : Config ι σ ε κ ρ) : Act ι κ → Config ι σ ε κ ρ → Prop where
  /-- nothing -/
  | idle (a : Act ι κ) : Move cfg a cfg
  /-- a call arrives -/
  | spawn (c : κ) (p : Prog ι σ ε κ ρ) (hc : S.ops c) :
      Move cfg (.spawn c)
        { cfg with threads := cfg.threads ++ [⟨Config.fresh c cfg.store, p⟩] }
  /-- thread `i` starts another call -/
  | fork (i : Nat) (e : ι) (t : Thread ι σ ε κ ρ) (c : κ) (p q : Prog ι σ ε κ ρ)
      (ht : cfg.threads[i]? = some t) (hrun : t.prog.result? = none)
      (hc : (S.mon t.call).starts (S.ghost t.toRecord) c) :
      Move cfg (.run i e)
        { cfg with
          threads := cfg.threads.set i ⟨t.toRecord, p⟩ ++ [⟨Config.fresh c cfg.store, q⟩] }
  /-- thread `i` makes a step its monitor allows -/
  | step (i : Nat) (e : ι) (t : Thread ι σ ε κ ρ) (ev : ε) (s' : σ) (p : Prog ι σ ε κ ρ)
      (ht : cfg.threads[i]? = some t) (hrun : t.prog.result? = none)
      (hev : cfg.emits i e = some ev)
      (hok : (S.mon t.call).ok (S.ghost t.toRecord) e cfg.store ev s') :
      Move cfg (.run i e)
        { store := s', threads := cfg.threads.set i ⟨t.toRecord.push ev, p⟩ }

variable {S} {body : κ → Prog ι σ ε κ ρ}

theorem move_apply (hT : S.Tracked cfg) (ha : a.Calls S.ops) : S.Move cfg a (cfg.apply body a) := by
  cases a with
  | spawn c => exact .spawn c _ ha
  | run i e =>
    simp only [Config.apply]
    split
    · exact .idle _
    · exact .idle _
    · next t act next ht =>
      have hwp := (hT _ (mem_of_getElem? ht)).2
      exact .step i e ⟨t, .step act next⟩ _ _ _ ht rfl (by simp [Config.emits, ht])
        (hwp e cfg.store).1
    rename_i t c next ht
    have hwp := (hT _ (mem_of_getElem? ht)).2
    exact .fork i e ⟨t, .fork c next⟩ c _ _ ht rfl hwp.1

theorem tracked_apply (hS : S.Sound body) (hT : S.Tracked cfg) (ha : a.Calls S.ops) :
    S.Tracked (cfg.apply body a) := by
  have hnew : ∀ c s, S.ops c → S.ops (⟨Config.fresh c s, body c⟩ : Thread ι σ ε κ ρ).call ∧
      (S.mon c).wp (body c) (S.post c) (S.ghost (Config.fresh c s : Record σ ε κ)) := by
    intro c s hc
    exact ⟨hc, hS.wp_body c hc⟩
  cases a with
  | spawn c =>
    intro t ht
    rcases mem_append.1 ht with ht | ht
    · exact hT t ht
    · obtain rfl := mem_singleton.1 ht
      exact hnew c cfg.store ha
  | run i e =>
    simp only [Config.apply]
    split
    · exact hT
    · exact hT
    · next t act next ht =>
      obtain ⟨hop, hwp⟩ := hT _ (mem_of_getElem? ht)
      intro u hu
      rcases mem_or_eq_of_mem_set hu with hu | rfl
      · exact hT u hu
      · refine ⟨hop, ?_⟩
        simpa [ghost, Record.push, foldl_append] using (hwp e cfg.store).2
    rename_i t c next ht
    obtain ⟨hop, hwp⟩ := hT _ (mem_of_getElem? ht)
    intro u hu
    rcases mem_append.1 hu with hu | hu
    · rcases mem_or_eq_of_mem_set hu with hu | rfl
      · exact hT u hu
      · exact ⟨hop, hwp.2⟩
    · obtain rfl := mem_singleton.1 hu
      exact hnew c cfg.store (hS.ops_of_starts _ _ _ hop hwp.1)

theorem tracked_init (s : σ) : S.Tracked (Config.init s : Config ι σ ε κ ρ) := by
  intro t ht
  cases ht

theorem Tracked.post_of_result (hT : S.Tracked cfg) (ht : t ∈ cfg.threads) {r : ρ}
    (hr : t.prog.result? = some r) : S.post t.call (S.ghost t.toRecord) r := by
  have hwp := (hT t ht).2
  rw [Prog.eq_ret_of_result? hr] at hwp
  exact hwp

theorem inv_exec (hS : S.Sound body) {I : Config ι σ ε κ ρ → Prop}
    (hstep : ∀ cfg a cfg', S.Tracked cfg → I cfg → cond cfg a → S.Move cfg a cfg' → I cfg')
    (hT : S.Tracked cfg) (hI : I cfg) (hc : ∀ a ∈ as, a.Calls S.ops) (hm : cfg.Meets body cond as) :
    S.Tracked (cfg.exec body as) ∧ I (cfg.exec body as) := by
  induction as generalizing cfg with
  | nil => exact ⟨hT, hI⟩
  | cons a as ih =>
    have ha := hc a mem_cons_self
    have hI' : I (cfg.apply body a) := hstep _ _ _ hT hI hm.1 (move_apply hT ha)
    exact ih (tracked_apply hS hT ha) hI' (fun b hb => hc b (mem_cons_of_mem a hb)) hm.2

theorem tracked_exec (hS : S.Sound body) (hT : S.Tracked cfg) (hc : ∀ a ∈ as, a.Calls S.ops) :
    S.Tracked (cfg.exec body as) := by
  induction as generalizing cfg with
  | nil => exact hT
  | cons a as ih =>
    exact ih (tracked_apply hS hT (hc a mem_cons_self)) fun b hb =>
      hc b (mem_cons_of_mem a hb)

/-- The thread-modular rule: an invariant `I` of the store and an assertion `L` of each
thread's record. A step has to keep the invariant, its own thread's assertion and, against
interference, everybody else's. -/
theorem modular_exec (hS : S.Sound body) {I : σ → Prop} {L : Record σ ε κ → σ → Prop}
    (hspawn : ∀ cfg c, cond cfg (.spawn c) → S.ops c → I cfg.store → (∀ u ∈ cfg.threads, L u.toRecord cfg.store) → L (Config.fresh c cfg.store) cfg.store)
    (hfork : ∀ cfg i e t c, cond cfg (.run i e) → cfg.threads[i]? = some t → S.ops t.call → (S.mon t.call).starts (S.ghost t.toRecord) c → I cfg.store → L t.toRecord cfg.store → L (Config.fresh c cfg.store) cfg.store)
    (hstep : ∀ cfg i e t ev s', cond cfg (.run i e) → cfg.threads[i]? = some t → S.ops t.call → cfg.emits i e = some ev → (S.mon t.call).ok (S.ghost t.toRecord) e cfg.store ev s' → I cfg.store → (∀ u ∈ cfg.threads, L u.toRecord cfg.store) → I s' ∧ L (t.toRecord.push ev) s' ∧ ∀ u ∈ cfg.threads, L u.toRecord s')
    (hT : S.Tracked cfg) (hI : I cfg.store) (hL : ∀ u ∈ cfg.threads, L u.toRecord cfg.store)
    (hc : ∀ a ∈ as, a.Calls S.ops) (hm : cfg.Meets body cond as) :
    I (cfg.exec body as).store ∧
      ∀ u ∈ (cfg.exec body as).threads, L u.toRecord (cfg.exec body as).store := by
  refine (inv_exec hS (I := fun cfg => I cfg.store ∧
    ∀ u ∈ cfg.threads, L u.toRecord cfg.store) ?_ hT ⟨hI, hL⟩ hc hm).2
  intro cfg a cfg' hT ⟨hI, hL⟩ hc hmove
  cases hmove with
  | idle => exact ⟨hI, hL⟩
  | spawn c p hop =>
    refine ⟨hI, fun u hu => ?_⟩
    rcases mem_append.1 hu with hu | hu
    · exact hL u hu
    · obtain rfl := mem_singleton.1 hu
      exact hspawn cfg c hc hop hI hL
  | fork i e t c p q ht _ hst =>
    have hLt := hL t (mem_of_getElem? ht)
    refine ⟨hI, fun u hu => ?_⟩
    rcases mem_append.1 hu with hu | hu
    · rcases mem_or_eq_of_mem_set hu with hu | rfl
      · exact hL u hu
      · exact hLt
    · obtain rfl := mem_singleton.1 hu
      exact hfork cfg i e t c hc ht (hT t (mem_of_getElem? ht)).1 hst hI hLt
  | step i e t ev s' p ht _ hev hok =>
    obtain ⟨hI', hown, hothers⟩ :=
      hstep cfg i e t ev s' hc ht (hT t (mem_of_getElem? ht)).1 hev hok hI hL
    refine ⟨hI', fun u hu => ?_⟩
    rcases mem_or_eq_of_mem_set hu with hu | rfl
    · exact hothers u hu
    · exact hown

/-- The rule for invariants of the store and all the records, by the places of the threads: a
new call is added at the end, a step rewrites one place. -/
theorem records_exec (hS : S.Sound body) {I : List (Record σ ε κ) → σ → Prop}
    (hnew : ∀ us c s, I us s → I (us ++ [Config.fresh c s]) s)
    (hstep : ∀ cfg i e t ev s', cond cfg (.run i e) → cfg.threads[i]? = some t → S.ops t.call → cfg.emits i e = some ev → (S.mon t.call).ok (S.ghost t.toRecord) e cfg.store ev s' → I cfg.records cfg.store → I (cfg.records.set i (t.toRecord.push ev)) s')
    (hT : S.Tracked cfg) (hI : I cfg.records cfg.store) (hc : ∀ a ∈ as, a.Calls S.ops)
    (hm : cfg.Meets body cond as) : I (cfg.exec body as).records (cfg.exec body as).store := by
  refine (inv_exec hS (I := fun cfg => I cfg.records cfg.store) ?_ hT hI hc hm).2
  intro cfg a cfg' hT hI hc hmove
  cases hmove with
  | idle => exact hI
  | spawn c p hop => simpa [Config.records] using hnew _ c _ hI
  | fork i e t c p q ht _ hst =>
    have hself : (cfg.threads.map Thread.toRecord).set i t.toRecord = cfg.records := by
      obtain ⟨hi, rfl⟩ := List.getElem?_eq_some_iff.1 ht
      rw [← map_set, set_getElem_self]
      rfl
    have h := hnew _ c _ hI
    rw [← hself] at h
    simpa [Config.records, map_set] using h
  | step i e t ev s' p ht _ hev hok =>
    have h := hstep cfg i e t ev s' hc ht (hT t (mem_of_getElem? ht)).1 hev hok hI
    simpa [Config.records, map_set] using h

end Spec

/-! ## Adding and replacing one thread -/

theorem getElem?_append_cases {j : Nat} {x y : τ} (h : (l ++ [x])[j]? = some y) :
    l[j]? = some y ∨ y = x := by
  rw [getElem?_append] at h
  split at h
  · exact .inl h
  · exact .inr (mem_singleton.1 (mem_of_getElem? h))

theorem getElem?_set_cases {j : Nat} {x y : τ} (h : (l.set i x)[j]? = some y) :
    (j = i ∧ y = x) ∨ (j ≠ i ∧ l[j]? = some y) := by
  by_cases hij : i = j
  · subst hij
    rw [getElem?_set_self'] at h
    obtain ⟨_, -, rfl⟩ := Option.map_eq_some_iff.1 h
    exact .inl ⟨rfl, rfl⟩
  · rw [getElem?_set_ne hij] at h
    exact .inr ⟨fun he => hij he.symm, h⟩

theorem sum_map_set (f : τ → Nat) {t : τ} (h : l[i]? = some t) (t' : τ) :
    ((l.set i t').map f).sum + f t = (l.map f).sum + f t' := by
  induction l generalizing i with
  | nil => simp at h
  | cons x l ih =>
    cases i with
    | zero =>
      obtain rfl : x = t := by simpa using h
      simp only [set_cons_zero, map_cons, sum_cons]
      omega
    | succ i =>
      have := ih (by simpa using h)
      simp only [set_cons_succ, map_cons, sum_cons]
      omega

end Conc
