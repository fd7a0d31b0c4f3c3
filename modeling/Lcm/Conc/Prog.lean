import Mathlib.Logic.Basic
import Mathlib.Tactic.Common

/-!
# Programs over a shared store

A program is a resumption tree. Between two of its steps any other program may run, so each
step is one atomic action on the shared store, and what the program does next depends on
what that action saw.

* `Prog`: the programs, with `bind` and its laws.
* `Monitor` and `Monitor.wp`: what a program may do, told along the events it emits. A
  monitor carries a ghost state; `wp` says that every step is allowed from the ghost state
  reached so far, whatever store the step finds.
* `Prog.Quiet`: programs that only look. They need no proof of their own under any monitor
  that ignores their events (`Monitor.wp_of_quiet`).
* `Prog.exec`: the program run alone, and `Prog.Ends`: what holds when it has run so.
* `Prog.starts`: the calls the program starts, whatever its steps find.
-/

namespace Conc

/-- A program over a store `σ`. A step takes a choice of the environment `ι` (clock, random
numbers, failures), acts on the store and emits an event `ε`; a fork starts another call,
named by `κ`, and goes on. -/
inductive Prog (ι σ ε κ α : Type) : Type where
  | ret (a : α)
  | step (act : ι → σ → σ × ε) (next : ι → σ → Prog ι σ ε κ α)
  | fork (c : κ) (next : Prog ι σ ε κ α)

namespace Prog

variable {ι σ ε κ α β γ : Type}

/-- Sequencing: the second program starts from the first one's result. -/
def bind : Prog ι σ ε κ α → (α → Prog ι σ ε κ β) → Prog ι σ ε κ β
  | ret a, f => f a
  | step act next, f => step act fun i s => (next i s).bind f
  | fork c next, f => fork c (next.bind f)

@[simp] theorem ret_bind (a : α) (f : α → Prog ι σ ε κ β) : (ret a).bind f = f a := rfl

@[simp] theorem step_bind (act : ι → σ → σ × ε) (next : ι → σ → Prog ι σ ε κ α)
    (f : α → Prog ι σ ε κ β) :
    (step act next).bind f = step act fun i s => (next i s).bind f := rfl

/-- The program has returned. -/
def result? : Prog ι σ ε κ α → Option α
  | ret a => some a
  | _ => none

variable {p : Prog ι σ ε κ α} {f : α → Prog ι σ ε κ β} {q : ε → Prop} {R : α → Prop}
  {Q : Nat → σ → α → Prop}

theorem eq_ret_of_result? {a : α} (h : p.result? = some a) : p = ret a := by
  cases p with
  | ret b => simpa [result?] using h
  | step act next | fork c next => simp [result?] at h

/-! ## Programs that only look -/

/-- Every step of the program leaves the store as it is and emits an event of `q`, and the
program starts no call. -/
def Quiet (q : ε → Prop) : Prog ι σ ε κ α → Prop
  | ret _ => True
  | step act next => ∀ i s, (act i s).1 = s ∧ q (act i s).2 ∧ (next i s).Quiet q
  | fork _ _ => False

theorem Quiet.bind (hp : p.Quiet q) (hf : ∀ a, (f a).Quiet q) : (p.bind f).Quiet q := by
  induction p with
  | ret a => exact hf a
  | step act next ih =>
    intro i s
    obtain ⟨hs, hq, hn⟩ := hp i s
    exact ⟨hs, hq, ih i s hn⟩
  | fork c next ih => exact hp.elim

/-- Every value the program may return satisfies `R`. -/
def Yields (R : α → Prop) : Prog ι σ ε κ α → Prop
  | ret a => R a
  | step _ next => ∀ i s, (next i s).Yields R
  | fork _ next => next.Yields R

theorem Yields.bind {R' : β → Prop} (hp : p.Yields R) (hf : ∀ a, R a → (f a).Yields R') :
    (p.bind f).Yields R' := by
  induction p with
  | ret a => exact hf a hp
  | step act next ih => exact fun i s => ih i s (hp i s)
  | fork c next ih => exact ih hp

theorem Yields.mono {R' : α → Prop} (h : ∀ a, R a → R' a) (hp : p.Yields R) : p.Yields R' := by
  induction p with
  | ret a => exact h a hp
  | step act next ih => exact fun i s => ih i s (hp i s)
  | fork c next ih => exact ih hp

theorem yields_true (p : Prog ι σ ε κ α) : p.Yields fun _ => True := by
  induction p with
  | ret a => trivial
  | step act next ih => exact fun i s => ih i s
  | fork c next ih => exact ih

theorem Quiet.mono {q' : ε → Prop} (h : ∀ e, q e → q' e) (hp : p.Quiet q) : p.Quiet q' := by
  induction p with
  | ret a => trivial
  | step act next ih =>
    intro i s
    obtain ⟨hs, hq, hn⟩ := hp i s
    exact ⟨hs, h _ hq, ih i s hn⟩
  | fork c next ih => exact hp.elim

/-! ## The program run alone -/

/-- Run the program with nothing else running: the `n`-th step takes the choice `e n`, and a
started call is not run. The result is the store, the events in order and the value. -/
def exec (e : Nat → ι) : Prog ι σ ε κ α → Nat → σ → List ε → σ × List ε × α
  | ret a, _, s, h => (s, h, a)
  | step act next, n, s, h =>
    (next (e n) s).exec e (n + 1) (act (e n) s).1 (h ++ [(act (e n) s).2])
  | fork _ next, n, s, h => next.exec e n s h

/-- The calls the program starts, in order, when its `n`-th step finds the choice and the store of
`w n`. Whatever else runs in between is in `w`. -/
def starts (w : Nat → ι × σ) : Prog ι σ ε κ α → Nat → List κ
  | ret _, _ => []
  | step _ next, n => (next (w n).1 (w n).2).starts w (n + 1)
  | fork c next, n => c :: next.starts w n

theorem starts_bind_of_nil {w : Nat → ι × σ} (hf : ∀ a n, (f a).starts w n = [])
    (p : Prog ι σ ε κ α) (n : Nat) : (p.bind f).starts w n = p.starts w n := by
  induction p generalizing n with
  | ret a => exact hf a n
  | step act next ih => exact ih _ _ (n + 1)
  | fork c next ih => exact congrArg (c :: ·) (ih n)

theorem exec_bind (e : Nat → ι) (p : Prog ι σ ε κ α) (f : α → Prog ι σ ε κ β) (n : Nat) (s : σ)
    (h : List ε) : ∃ m, (p.bind f).exec e n s h =
      (f (p.exec e n s h).2.2).exec e m (p.exec e n s h).1 (p.exec e n s h).2.1 := by
  induction p generalizing n s h with
  | ret a => exact ⟨n, rfl⟩
  | step act next ih => exact ih (e n) s (n + 1) _ _
  | fork c next ih => exact ih n s h

/-- In a world that does not change, neither the number of choices taken nor the events so far
matter. -/
theorem exec_still (i : ι) (p : Prog ι σ ε κ α) (n m : Nat) (s : σ) (h h' : List ε) :
    (p.exec (fun _ => i) n s h).1 = (p.exec (fun _ => i) m s h').1 ∧
      (p.exec (fun _ => i) n s h).2.2 = (p.exec (fun _ => i) m s h').2.2 := by
  induction p generalizing n m s h h' with
  | ret a => exact ⟨rfl, rfl⟩
  | step act next ih => exact ih i s (n + 1) (m + 1) _ _ _
  | fork c next ih => exact ih n m s h h'

theorem Quiet.exec_store (hp : p.Quiet q) (e : Nat → ι) (n : Nat) (s : σ) (h : List ε) :
    (p.exec e n s h).1 = s := by
  induction p generalizing n h with
  | ret a => rfl
  | step act next ih =>
    obtain ⟨hs, -, hn⟩ := hp (e n) s
    show ((next (e n) s).exec e (n + 1) (act (e n) s).1 _).1 = s
    rw [hs]
    exact ih (e n) s hn (n + 1) _
  | fork c next ih => exact hp.elim

/-- Run alone from the `n`-th choice on, the program ends with `Q` of the number of choices
taken, the store and the value. -/
def Ends (e : Nat → ι) (Q : Nat → σ → α → Prop) : Prog ι σ ε κ α → Nat → σ → Prop
  | ret a, n, s => Q n s a
  | step act next, n, s => (next (e n) s).Ends e Q (n + 1) (act (e n) s).1
  | fork _ next, n, s => next.Ends e Q n s

section Ends

variable {e : Nat → ι} {n : Nat} {s : σ}

theorem ends_bind (p : Prog ι σ ε κ α) (f : α → Prog ι σ ε κ β) (Q : Nat → σ → β → Prop) :
    (p.bind f).Ends e Q n s ↔ p.Ends e (fun n s a => (f a).Ends e Q n s) n s := by
  induction p generalizing n s with
  | ret a => rfl
  | step act next ih => exact ih (e n) s
  | fork c next ih => exact ih

theorem Ends.mono {R : Nat → σ → α → Prop} (hQR : ∀ n s a, Q n s a → R n s a) (h : p.Ends e Q n s) :
    p.Ends e R n s := by
  induction p generalizing n s with
  | ret a => exact hQR n s a h
  | step act next ih => exact ih (e n) s h
  | fork c next ih => exact ih h

theorem Ends.exec (h : p.Ends e Q n s) (evs : List ε) :
    ∃ m, Q m (p.exec e n s evs).1 (p.exec e n s evs).2.2 := by
  induction p generalizing n s evs with
  | ret a => exact ⟨n, h⟩
  | step act next ih => exact ih (e n) s h _
  | fork c next ih => exact ih h evs

theorem Quiet.ends (hp : p.Quiet q) (hR : p.Yields R) (hQ : ∀ m a, R a → Q m s a) :
    p.Ends e Q n s := by
  induction p generalizing n with
  | ret a => exact hQ n a hR
  | step act next ih =>
    obtain ⟨hs, -, hn⟩ := hp (e n) s
    show (next (e n) s).Ends e Q (n + 1) (act (e n) s).1
    rw [hs]
    exact ih (e n) s hn (hR (e n) s)
  | fork c next ih => exact hp.elim

end Ends

end Prog

/-! ## Monitors -/

/-- A monitor follows the events of one program with a ghost state `γ`. `ok g i s e s'` says
that from ghost state `g` and under the choice `i` the event `e` may take the store from `s`
to `s'`; `starts g c` that the call `c` may be started. -/
structure Monitor (γ ι σ ε κ : Type) where
  next : γ → ε → γ
  ok : γ → ι → σ → ε → σ → Prop
  starts : γ → κ → Prop

namespace Monitor

variable {ι σ ε κ α β γ : Type} (M : Monitor γ ι σ ε κ)

/-- The program keeps to the monitor from ghost state `g`, and returns only with `Q`. The
store is arbitrary at every step: other programs may have run in between. -/
def wp : Prog ι σ ε κ α → (γ → α → Prop) → γ → Prop
  | .ret a, Q, g => Q g a
  | .step act next, Q, g =>
    ∀ i s, M.ok g i s (act i s).2 (act i s).1 ∧ wp (next i s) Q (M.next g (act i s).2)
  | .fork c next, Q, g => M.starts g c ∧ wp next Q g

variable {M}

@[simp] theorem wp_bind (p : Prog ι σ ε κ α) (f : α → Prog ι σ ε κ β) (Q : γ → β → Prop)
    (g : γ) : M.wp (p.bind f) Q g ↔ M.wp p (fun g a => M.wp (f a) Q g) g := by
  induction p generalizing g with
  | ret a => rfl
  | step act next ih =>
    constructor
    · intro h i s
      exact ⟨(h i s).1, (ih i s _).1 (h i s).2⟩
    · intro h i s
      exact ⟨(h i s).1, (ih i s _).2 (h i s).2⟩
  | fork c next ih => exact and_congr_right fun _ => ih g

variable {Q : γ → α → Prop} {p : Prog ι σ ε κ α}

theorem wp_mono {R : γ → α → Prop} {g : γ} (hQR : ∀ g a, Q g a → R g a) (h : M.wp p Q g) :
    M.wp p R g := by
  induction p generalizing g with
  | ret a => exact hQR g a h
  | step act next ih => exact fun i s => ⟨(h i s).1, ih i s (h i s).2⟩
  | fork c next ih => exact ⟨h.1, ih h.2⟩

/-- The monitor does not look at the events of `q`, as long as the store stays as it is. -/
structure Ignores (M : Monitor γ ι σ ε κ) (q : ε → Prop) : Prop where
  next_eq : ∀ g e, q e → M.next g e = g
  ok_self : ∀ g i s e, q e → M.ok g i s e s

/-- A quiet program keeps to every monitor that ignores its events, and leaves the ghost
state as it was. -/
theorem wp_of_quiet {q : ε → Prop} (hM : M.Ignores q) (hp : p.Quiet q) {R : α → Prop}
    (hR : p.Yields R) {g : γ} (hQ : ∀ a, R a → Q g a) : M.wp p Q g := by
  induction p with
  | ret a => exact hQ a hR
  | step act next ih =>
    intro i s
    obtain ⟨hs, hq, hn⟩ := hp i s
    rw [hs, hM.next_eq g _ hq]
    exact ⟨hM.ok_self g i s _ hq, ih i s hn (hR i s)⟩
  | fork c next ih => exact hp.elim

/-- What `wp` says of the program run alone: if `J` relates the events so far and the store at
the start and every allowed step under the choices `e` keeps it, it holds at the end, together
with `Q`. -/
theorem exec_of_wp {J : List ε → σ → Prop} {e : Nat → ι} {g0 : γ}
    (hJ : ∀ h s ev s', J h s → M.ok (h.foldl M.next g0) (e h.length) s ev s' → J (h ++ [ev]) s')
    (s : σ) (h : List ε) (hp : M.wp p Q (h.foldl M.next g0)) (hs : J h s) :
    let r := p.exec e h.length s h
    J r.2.1 r.1 ∧ Q (r.2.1.foldl M.next g0) r.2.2 := by
  induction p generalizing s h with
  | ret a => exact ⟨hs, hp⟩
  | step act next ih =>
    obtain ⟨hok, hn⟩ := hp (e h.length) s
    have hnext := ih (e h.length) s (act (e h.length) s).1 (h ++ [(act (e h.length) s).2])
      (by simpa [List.foldl_append] using hn) (hJ h s _ _ hs hok)
    rwa [List.length_append, List.length_singleton] at hnext
  | fork c next ih => exact ih s h hp.2 hs

end Monitor

end Conc
