import Lcm.Service.Base
import Lcm.Store.Rules

/-!
# Rules for service programs

`wp_bind`, `wp_repo` and the rest turn a statement about a service program into one about its
repository calls, one after the other. Programs that only look (`Svc.Only`) are built from
the `only_*` rules and skipped with `wp_only_bind`.
-/

namespace Lcm

open Conc Db Prog

variable {e : Env} {s s' : Database} {I : Database → Prop}

namespace Svc

variable {α β γ : Type} {M : Monitor γ Env Database Ev Call}

/-! ## Transactions as steps -/

theorem transact_readOnly {m : Sql α} (hm : m.ReadOnly) (e : Env) (s : Database) :
    (transact m e s).2 = s := by
  unfold transact
  split
  · exact (Tx.Keeps.atomic (fun _ => rfl) hm e s).symm
  · rfl
  · rfl

theorem transact_error {m : Sql α} {err : Err} (h : (transact m e s).1 = .error err) :
    (transact m e s).2 = s := by
  unfold transact at h ⊢
  split
  · next hf =>
    rw [hf] at h
    exact Tx.atomic_error h
  · rfl
  · rfl

variable {a : α} {r : Except Err α} {Q : γ → Except Err α → Prop} {g : γ} {m : Svc α} {ev : α → Ev}
  {f : α → Svc β}

theorem transact_ok {m : Sql α} (h : (transact m e s).1 = .ok a) :
    ∃ ss, m e ⟨s, false, 0⟩ = (.ok a, ss) ∧ (transact m e s).2 = ss.db := by
  unfold transact at h ⊢
  split
  · next hf =>
    rw [hf] at h
    obtain ⟨ss, hm, -, hdb⟩ := Tx.atomic_ok.1 (Prod.ext h rfl)
    exact ⟨ss, hm, hdb.symm⟩
  · next hf => simp [hf] at h
  · next hf => simp [hf] at h

theorem transact_holds {m : Sql α} {Q : α → Prop} (hm : Tx.Holds I Q m) (hI : I s) :
    I (transact m e s).2 ∧ ∀ a, (transact m e s).1 = .ok a → Q a := by
  unfold transact
  split
  · exact hm.atomic hI
  · exact ⟨hI, fun _ h => by cases h⟩
  · exact ⟨hI, fun _ h => by cases h⟩

theorem transact_inv {m : Sql α} (hm : Tx.Holds I (fun _ => True) m) (hI : I s) :
    I (transact m e s).2 := (transact_holds hm hI).1

theorem inv_of_transact {m : Sql α} (hm : Tx.Holds I (fun _ => True) m)
    (htx : transact m e s = (r, s')) (hI : I s) : I s' := by
  have hinv := transact_inv (e := e) hm hI
  rw [htx] at hinv
  exact hinv

theorem ok_of_transact {m : Sql α} (htx : transact m e s = (.ok a, s')) :
    ∃ ss, m e ⟨s, false, 0⟩ = (.ok a, ss) ∧ s' = ss.db := by
  have hok := transact_ok (congrArg Prod.fst htx)
  rw [htx] at hok
  exact hok

theorem eq_of_transact_error {m : Sql α} {err : Err} (htx : transact m e s = (.error err, s')) :
    s' = s := by
  have hsame := transact_error (congrArg Prod.fst htx)
  rw [htx] at hsame
  exact hsame

theorem transact_query_ok {f : Database → Except Err α} (h : (transact (Tx.query f) e s).1 = .ok a)
    : f s = .ok a := by
  obtain ⟨ss, hm, -⟩ := transact_ok h
  exact (Tx.query_ok.1 hm).2.1

/-! ## Weakest preconditions -/

@[simp] theorem wp_ofExcept (r : Except Err α) (Q : γ → Except Err α → Prop) (g : γ) :
    M.wp (ofExcept r).run Q g ↔ Q g r := Iff.rfl

/-- What is left to show after a call: its continuation on success, the postcondition on an
error. -/
def After (M : Monitor γ Env Database Ev Call) (f : α → Svc β) (Q : γ → Except Err β → Prop)
    (g : γ) : Except Err α → Prop
  | .ok a => M.wp (f a).run Q g
  | .error e => Q g (.error e)

@[simp] theorem after_ok (f : α → Svc β) (Q : γ → Except Err β → Prop) (g : γ) (a : α) :
    After M f Q g (.ok a) ↔ M.wp (f a).run Q g := Iff.rfl

theorem wp_bind (m : Svc α) (f : α → Svc β) (Q : γ → Except Err β → Prop) (g : γ) :
    M.wp (m >>= f).run Q g ↔ M.wp m.run (After M f Q) g := by
  refine (Monitor.wp_bind m.run _ Q g).trans ?_
  constructor
  · refine Monitor.wp_mono ?_
    intro g r h
    cases r with
    | ok a | error e => exact h
  refine Monitor.wp_mono ?_
  intro g r h
  cases r with
  | ok a | error e => exact h

@[simp] theorem wp_attempt (m : Svc α) (Q : γ → Except Err (Except Err α) → Prop) (g : γ) :
    M.wp (attempt m).run Q g ↔ M.wp m.run (fun g r => Q g (.ok r)) g :=
  Monitor.wp_bind m.run _ Q g

theorem wp_repo (ev : Except Err α → Ev) (m : Sql α) (Q : γ → Except Err α → Prop) (g : γ) :
    M.wp (repo ev m).run Q g ↔
      ∀ e s, M.ok g e s (ev (transact m e s).1) (transact m e s).2 ∧
        Q (M.next g (ev (transact m e s).1)) (transact m e s).1 := Iff.rfl

theorem wp_repo_cases {ev : Except Err α → Ev} {m : Sql α}
    (hstep : ∀ e s, M.ok g e s (ev (transact m e s).1) (transact m e s).2)
    (herr : ∀ e, Q (M.next g (ev (.error e))) (.error e))
    (hok : ∀ a, Q (M.next g (ev (.ok a))) (.ok a)) : M.wp (repo ev m).run Q g := by
  intro e s
  refine ⟨hstep e s, ?_⟩
  show Q (M.next g (ev (transact m e s).1)) (transact m e s).1
  cases (transact m e s).1 with
  | ok a => exact hok a
  | error err => exact herr err

theorem wp_ask (f : Env → α) (ev : α → Ev) (Q : γ → Except Err α → Prop) (g : γ) :
    M.wp (ask f ev).run Q g ↔
      ∀ e s, M.ok g e s (ev (f e)) s ∧ Q (M.next g (ev (f e))) (.ok (f e)) := Iff.rfl

/-! ## Calls that run alone -/

section Alone

variable (e : Nat → Env) (n : Nat) (s : Database) (h : List Ev)

/-- What the call returns when nothing else runs; its `n`-th step takes the choice `e n`. -/
def outcome (m : Svc α) (e : Nat → Env) (s : Database) : Except Err α := (m.run.exec e 0 s []).2.2

theorem exec_fetch_bind {m : Sql α} (hm : m.ReadOnly) (f : α → Svc β) :
    (fetch m >>= f).run.exec e n s h =
      match (transact m (e n) s).1 with
      | .ok a => (f a).run.exec e (n + 1) s (h ++ [.read])
      | .error err => (s, h ++ [.read], .error err) := by
  have hs := transact_readOnly hm (e n) s
  show (bind (ret (transact m (e n) s).1) _).exec e (n + 1) (transact m (e n) s).2 _ = _
  rw [hs]
  cases (transact m (e n) s).1 <;> rfl

theorem exec_repo_bind (ev : Except Err α → Ev) (m : Sql α) (f : α → Svc β) :
    (repo ev m >>= f).run.exec e n s h =
      match (transact m (e n) s).1 with
      | .ok a => (f a).run.exec e (n + 1) (transact m (e n) s).2 (h ++ [ev (.ok a)])
      | .error err => ((transact m (e n) s).2, h ++ [ev (.error err)], .error err) := by
  show (bind (ret (transact m (e n) s).1) _).exec e (n + 1) (transact m (e n) s).2
    (h ++ [ev (transact m (e n) s).1]) = _
  cases (transact m (e n) s).1 <;> rfl

theorem exec_bind_pure (m : Svc α) (f : α → β) :
    (m >>= fun a => pure (f a)).run.exec e n s h =
      ((m.run.exec e n s h).1, (m.run.exec e n s h).2.1, (m.run.exec e n s h).2.2.map f) := by
  obtain ⟨k, hk⟩ := exec_bind e m.run (fun
    | .ok a => (pure (f a) : Svc β).run
    | .error err => ret (.error err)) n s h
  refine hk.trans ?_
  cases (m.run.exec e n s h).2.2 <;> rfl

theorem exec_now_bind (f : Time → Svc β) :
    (now >>= f).run.exec e n s h = (f (e n).clock).run.exec e (n + 1) s (h ++ [.look]) := rfl

theorem exec_ofExcept_bind (r : Except Err α) (f : α → Svc β) :
    (ofExcept r >>= f).run.exec e n s h =
      match r with
      | .ok a => (f a).run.exec e n s h
      | .error err => (s, h, .error err) := by
  cases r <;> rfl

theorem exec_bind_ok (hm : (m.run.exec e n s h).2.2 = .ok a) (f : α → Svc β) :
    ∃ k, (m >>= f).run.exec e n s h =
      (f a).run.exec e k (m.run.exec e n s h).1 (m.run.exec e n s h).2.1 := by
  obtain ⟨k, hk⟩ := exec_bind e m.run (fun
    | .ok a => (f a).run
    | .error err => ret (.error err)) n s h
  rw [hm] at hk
  exact ⟨k, hk⟩

end Alone

/-- Run alone on `s`, the call leaves it as it is, and what it returns satisfies `Q`. -/
def Finds (s : Database) (Q : α → Prop) (m : Svc α) : Prop :=
  ∀ e n h, (m.run.exec e n s h).1 = s ∧ ∀ a, (m.run.exec e n s h).2.2 = .ok a → Q a

section Finds

variable {s : Database} {Q : α → Prop} {Q' : β → Prop}

theorem finds_pure (ha : Q a) : Finds s Q (pure a) := by
  intro e n h
  refine ⟨rfl, ?_⟩
  rintro _ ⟨⟩
  exact ha

theorem finds_ofExcept (hr : ∀ a, r = .ok a → Q a) : Finds s Q (ofExcept r) :=
  fun _ _ _ => ⟨rfl, hr⟩

theorem finds_ask {f : Env → α} (hf : ∀ e, Q (f e)) : Finds s Q (ask f ev) := by
  intro e n h
  refine ⟨rfl, ?_⟩
  rintro _ ⟨⟩
  exact hf (e n)

theorem finds_fetch {m : Sql α} (hm : m.ReadOnly)
    (hq : ∀ e a, (transact m e s).1 = .ok a → Q a) : Finds s Q (fetch m) :=
  fun e n _ => ⟨transact_readOnly hm (e n) s, hq (e n)⟩

theorem finds_bind (hm : Finds s Q m) (hf : ∀ a, Q a → Finds s Q' (f a)) :
    Finds s Q' (m >>= f) := by
  intro e n h
  obtain ⟨hs, hq⟩ := hm e n h
  obtain ⟨k, hk⟩ := exec_bind e m.run (fun
    | .ok a => (f a).run
    | .error err => ret (.error err)) n s h
  rw [show (m >>= f).run.exec e n s h = _ from hk, hs]
  cases hr : (m.run.exec e n s h).2.2 with
  | ok a => exact hf a (hq a hr) e k _
  | error err =>
    refine ⟨rfl, ?_⟩
    rintro _ ⟨⟩

end Finds

/-! ## Programs that only look -/

/-- The program emits only events of `q` and changes nothing. -/
def Only (q : Ev → Prop) (m : Svc α) : Prop := m.run.Quiet q

/-- The program emits only quiet events and changes nothing. -/
abbrev Quiet (m : Svc α) : Prop := Only Ev.Quiet m

variable {q : Ev → Prop}

theorem only_pure (a : α) : Only q (pure a : Svc α) := trivial

theorem only_fail (e : Err) : Only q (fail e : Svc α) := trivial

theorem only_ofExcept (r : Except Err α) : Only q (ofExcept r) := trivial

theorem only_bind (hm : Only q m) (hf : ∀ a, Only q (f a)) : Only q (m >>= f) := by
  refine Quiet.bind hm ?_
  intro r
  cases r with
  | ok a => exact hf a
  | error e => exact trivial

theorem only_attempt (hm : Only q m) : Only q (attempt m) :=
  Quiet.bind hm fun _ => trivial

theorem only_ask {f : Env → α} (h : ∀ a, q (ev a)) : Only q (ask f ev) :=
  fun e _ => ⟨rfl, h (f e), trivial⟩

theorem only_ite {c : Prop} [Decidable c] {n : Svc α} (hm : Only q m) (hn : Only q n) :
    Only q (if c then m else n) := by
  split
  · exact hm
  · exact hn

theorem Only.mono {q' : Ev → Prop} (h : ∀ e, q e → q' e) (hm : Only q m) :
    Only q' m := Quiet.mono h hm

theorem quiet_askExcept (f : Env → Except Err α) : Quiet (askExcept f) :=
  fun _ _ => ⟨rfl, trivial, trivial⟩

theorem quiet_look (f : Env → α) : Quiet (ask f fun _ => .look) := only_ask fun _ => trivial

theorem signs_ask (f : Env → α) (leaf parent : X509) :
    Only Ev.Signs (ask f fun _ => .sign leaf parent) := only_ask fun _ => trivial

theorem quiet_now : Quiet now := quiet_look _

theorem looks_newID : Only Ev.Looks newID := only_ask fun _ => trivial

theorem quiet_emit (ev : AuditEvent) : Quiet (emit ev) := only_ask fun _ => trivial

theorem quiet_fetch {m : Sql α} (hm : m.ReadOnly) : Quiet (fetch m) :=
  fun e s => ⟨transact_readOnly hm e s, trivial, trivial⟩

theorem quiet_readIssuer {m : Sql Issuer} (hm : m.ReadOnly) : Quiet (repo .readIssuer m) :=
  fun e s => ⟨transact_readOnly hm e s, trivial, trivial⟩

/-- Every value the program may return without an error satisfies `R`. -/
def Yields (R : α → Prop) (m : Svc α) : Prop := m.run.Yields fun r => ∀ a, r = .ok a → R a

variable {R : α → Prop} {R' : β → Prop}

theorem yields_pure (h : R a) : Yields R (pure a : Svc α) := by
  rintro b ⟨⟩
  exact h

theorem yields_fail (e : Err) : Yields R (fail e : Svc α) := by
  rintro b ⟨⟩

theorem yields_ofExcept (h : ∀ a, r = .ok a → R a) : Yields R (ofExcept r) := h

theorem yields_askExcept {f : Env → Except Err α} (h : ∀ e a, f e = .ok a → R a) :
    Yields R (askExcept f) := fun e _ a ha => h e a ha

theorem yields_any (m : Svc α) : Yields (fun _ => True) m :=
  Yields.mono (fun _ _ _ _ => trivial) (yields_true m.run)

theorem yields_bind (hm : Yields R m) (hf : ∀ a, R a → Yields R' (f a)) : Yields R' (m >>= f) := by
  refine Yields.bind hm ?_
  intro r hr
  cases r with
  | ok a => exact hf a (hr a rfl)
  | error e => exact yields_fail e

theorem yields_bind_any (hf : ∀ a, Yields R' (f a)) :
    Yields R' (m >>= f) := yields_bind (yields_any m) fun a _ => hf a

/-- The program returns no error, and only values that satisfy `R`. -/
def Returns (R : α → Prop) (m : Svc α) : Prop := m.run.Yields fun r => ∃ a, r = .ok a ∧ R a

theorem returns_pure (h : R a) : Returns R (pure a : Svc α) := ⟨a, rfl, h⟩

theorem returns_ask {f : Env → α} (h : ∀ e, R (f e)) : Returns R (ask f ev) :=
  fun e _ => ⟨f e, rfl, h e⟩

theorem returns_attempt (m : Svc α) : Returns (fun _ => True) (attempt m) :=
  Yields.bind (yields_true m.run) fun r _ => ⟨r, rfl, trivial⟩

theorem returns_bind (hm : Returns R m) (hf : ∀ a, R a → Returns R' (f a)) :
    Returns R' (m >>= f) := by
  refine Yields.bind hm ?_
  rintro r ⟨a, rfl, ha⟩
  exact hf a ha

section

variable (hM : M.Ignores q) (hm : Only q m)
include hM hm

theorem wp_only_yields (hR : Yields R m)
    (herr : ∀ e, Q g (.error e)) (hok : ∀ a, R a → Q g (.ok a)) : M.wp m.run Q g := by
  refine Monitor.wp_of_quiet hM hm hR ?_
  intro r hr
  cases r with
  | ok a => exact hok a (hr a rfl)
  | error e => exact herr e

theorem wp_only (hQ : ∀ r, Q g r) : M.wp m.run Q g :=
  wp_only_yields hM hm (yields_any m) (fun e => hQ (.error e)) fun a _ => hQ (.ok a)

theorem wp_only_bind {Q : γ → Except Err β → Prop}
    (herr : ∀ e, Q g (.error e)) (hok : ∀ a, M.wp (f a).run Q g) : M.wp (m >>= f).run Q g := by
  rw [wp_bind]
  exact wp_only_yields hM hm (yields_any m) herr fun a _ => hok a

theorem wp_returns (hr : Returns R m)
    (hok : ∀ a, R a → Q g (.ok a)) : M.wp m.run Q g := by
  refine Monitor.wp_of_quiet hM hm hr ?_
  rintro r ⟨a, rfl, ha⟩
  exact hok a ha

theorem wp_returns_bind (hr : Returns R m)
    {Q : γ → Except Err β → Prop} (hok : ∀ a, R a → M.wp (f a).run Q g) :
    M.wp (m >>= f).run Q g := by
  rw [wp_bind]
  exact wp_returns hM hm hr hok

theorem wp_only_bind_yields (hR : Yields R m)
    {Q : γ → Except Err β → Prop} (herr : ∀ e, Q g (.error e)) (hok : ∀ a, R a → M.wp (f a).run Q g)
    : M.wp (m >>= f).run Q g := by
  rw [wp_bind]
  exact wp_only_yields hM hm hR herr hok

end

theorem wp_ofExcept_bind {r : Except Err α} {Q : γ → Except Err β → Prop}
    (herr : ∀ e, Q g (.error e)) (hok : ∀ a, r = .ok a → M.wp (f a).run Q g) :
    M.wp (ofExcept r >>= f).run Q g := by
  rw [wp_bind, wp_ofExcept]
  cases r with
  | error e => exact herr e
  | ok a => exact hok a rfl

theorem wp_emit_bind (hM : M.Ignores Ev.Quiet) {ev : AuditEvent} {f : Unit → Svc β}
    {Q : γ → Except Err β → Prop} (hok : M.wp (f ()).run Q g) : M.wp (emit ev >>= f).run Q g :=
  wp_returns_bind hM (quiet_emit ev) (returns_ask (R := fun _ => True) fun _ => trivial)
    fun _ _ => hok

/-! ## A moment of the world -/

/-- What the call returns that runs alone while the world stands still. -/
def observe (e : Env) (s : Database) (m : Svc α) : Except Err α := outcome m (fun _ => e) s

section Observe

variable {e : Env} {s : Database}

@[simp] theorem observe_pure (a : α) : observe e s (pure a) = .ok a := rfl

@[simp] theorem observe_fail (err : Err) : observe e s (fail err : Svc α) = .error err := rfl

@[simp] theorem observe_now : observe e s now = .ok e.clock := rfl

@[simp] theorem observe_fetch (m : Sql α) : observe e s (fetch m) = (transact m e s).1 := rfl

@[simp] theorem observe_attempt (m : Svc α) :
    observe e s (attempt m) = .ok (observe e s m) := by
  obtain ⟨k, hk⟩ := exec_bind (fun _ => e) m.run
    (fun r => ret (.ok r : Except Err (Except Err α))) 0 s []
  exact congrArg (fun x => x.2.2) hk

theorem observe_bind (hm : Only q m) (f : α → Svc β) :
    observe e s (m >>= f) = observe e s m >>= fun a => observe e s (f a) := by
  obtain ⟨k, hk⟩ := exec_bind (fun _ => e) m.run (fun
    | .ok a => (f a).run
    | .error err => ret (.error err)) 0 s []
  refine (congrArg (fun x => x.2.2) hk).trans ?_
  rw [Quiet.exec_store hm]
  unfold observe outcome
  cases (m.run.exec (fun _ => e) 0 s []).2.2 with
  | ok a => exact (exec_still e (f a).run k 0 s _ []).2
  | error err => rfl

theorem transact_eq_atomic (hfault : e.fault = .ok) (m : Sql α) :
    transact m e s = m.atomic e s := by
  unfold transact
  rw [hfault]

theorem transact_query (hfault : e.fault = .ok) (f : Database → Except Err α) :
    transact (Tx.query f) e s = (f s, s) := by
  rw [transact_eq_atomic hfault, Tx.atomic_query]

theorem observe_query (hfault : e.fault = .ok) (q : Database → Except Err α) (f : α → Svc β) :
    observe e s (fetch (Tx.query q) >>= f) = q s >>= fun a => observe e s (f a) := by
  rw [observe_bind (quiet_fetch (Sql.readOnly_query q)), observe_fetch, transact_query hfault]

end Observe

/-! ## What holds when a call has run alone -/

section Ends

variable {e : Nat → Env} {n : Nat} {s : Database}

/-- Run alone, the call ends with `Q` of the number of steps taken, the database and what it
returns; its `n`-th step takes the choice `e n`. -/
def Ends (e : Nat → Env) (Q : Nat → Database → Except Err α → Prop) (m : Svc α) (n : Nat)
    (s : Database) : Prop := m.run.Ends e Q n s

variable {Q : Nat → Database → Except Err α → Prop}

theorem Ends.exec (h : Ends e Q m n s) (evs : List Ev) :
    ∃ k, Q k (m.run.exec e n s evs).1 (m.run.exec e n s evs).2.2 := Prog.Ends.exec h evs

theorem Ends.mono {Q' : Nat → Database → Except Err α → Prop} (hQ : ∀ n s r, Q n s r → Q' n s r)
    (h : Ends e Q m n s) : Ends e Q' m n s :=
  Prog.Ends.mono hQ h

@[simp] theorem ends_pure (a : α) : Ends e Q (pure a) n s ↔ Q n s (.ok a) := Iff.rfl

@[simp] theorem ends_ask (f : Env → α) (ev : α → Ev) :
    Ends e Q (ask f ev) n s ↔ Q (n + 1) s (.ok (f (e n))) := Iff.rfl

theorem ends_repo (ev : Except Err α → Ev) (m : Sql α) :
    Ends e Q (repo ev m) n s ↔ Q (n + 1) (transact m (e n) s).2 (transact m (e n) s).1 := Iff.rfl

theorem ends_fetch {m : Sql α} (hm : m.ReadOnly) :
    Ends e Q (fetch m) n s ↔ Q (n + 1) s (transact m (e n) s).1 := by
  refine (ends_repo _ m).trans ?_
  rw [transact_readOnly hm]

theorem ends_read {m : Sql α} (hm : m.ReadOnly) (ev : Except Err α → Ev) :
    Ends e Q (repo ev m) n s ↔ Q (n + 1) s (transact m (e n) s).1 := by
  rw [ends_repo, transact_readOnly hm]

@[simp] theorem ends_attempt (m : Svc α) (Q : Nat → Database → Except Err (Except Err α) → Prop) :
    Ends e Q (attempt m) n s ↔ Ends e (fun n s r => Q n s (.ok r)) m n s :=
  ends_bind m.run _ Q

theorem ends_bind (m : Svc α) (f : α → Svc β) (Q : Nat → Database → Except Err β → Prop) :
    Ends e Q (m >>= f) n s ↔ Ends e (fun n s r => match r with
      | .ok a => Ends e Q (f a) n s
      | .error err => Q n s (.error err)) m n s := by
  have hcases : ∀ (n : Nat) (s : Database) (r : Except Err α),
      Prog.Ends e Q (match r with
        | .ok a => f a
        | .error err => Prog.ret (.error err)) n s ↔
      (match r with
        | .ok a => Ends e Q (f a) n s
        | .error err => Q n s (.error err)) := by
    intro n s r
    cases r with
    | ok a | error err => exact Iff.rfl
  refine (Prog.ends_bind m.run _ Q).trans ?_
  constructor
  · exact Prog.Ends.mono fun n s r => (hcases n s r).1
  · exact Prog.Ends.mono fun n s r => (hcases n s r).2

theorem ends_ite {c : Prop} [Decidable c] {m' : Svc α} (hm : c → Ends e Q m n s)
    (hm' : ¬c → Ends e Q m' n s) : Ends e Q (if c then m else m') n s := by
  split
  · next h => exact hm h
  · next h => exact hm' h

theorem ends_ask_bind (f : Env → α) (ev : α → Ev) (g : α → Svc β)
    (Q : Nat → Database → Except Err β → Prop) :
    Ends e Q (ask f ev >>= g) n s ↔ Ends e Q (g (f (e n))) (n + 1) s := ends_bind _ _ _

theorem ends_only (hm : Only q m) (hR : Yields R m) (herr : ∀ k err, Q k s (.error err))
    (hok : ∀ k a, R a → Q k s (.ok a)) : Ends e Q m n s := by
  refine Quiet.ends hm hR ?_
  intro k r hr
  cases r with
  | ok a => exact hok k a (hr a rfl)
  | error err => exact herr k err

theorem ends_still (hm : Only q m) (h : ∀ k r, Q k s r) : Ends e Q m n s :=
  ends_only hm (yields_any _) (fun k _ => h k _) fun k _ _ => h k _

theorem ends_only_bind (hm : Only q m) (hR : Yields R m) {Q : Nat → Database → Except Err β → Prop}
    (herr : ∀ k err, Q k s (.error err)) (hok : ∀ k a, R a → Ends e Q (f a) k s) :
    Ends e Q (m >>= f) n s := by
  rw [ends_bind]
  exact ends_only hm hR herr hok

end Ends

end Svc

end Lcm
