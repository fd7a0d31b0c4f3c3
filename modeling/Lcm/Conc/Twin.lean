import Lcm.Conc.Prog
import Mathlib.Data.List.Forall2

/-!
# Two runs side by side

`Prog.Twin` compares two programs that run alone under the same choices of the environment, each
on a store of its own. They take the same kind of step at the same time: `E` relates the events of
their steps, and `Q` what they have made of the stores and what they return.
-/

namespace Conc.Prog

variable {ι σ ε κ α β γ δ : Type}

/-- Both programs end, after the same number of steps, with `Q`. -/
def Twin (e : Nat → ι) (E : ε → ε → Prop) (Q : Nat → σ → σ → α → β → Prop) :
    Prog ι σ ε κ α → Prog ι σ ε κ β → Nat → σ → σ → Prop
  | ret a, ret b, n, s, s' => Q n s s' a b
  | step act next, step act' next', n, s, s' =>
    E (act (e n) s).2 (act' (e n) s').2 ∧
      (next (e n) s).Twin e E Q (next' (e n) s') (n + 1) (act (e n) s).1 (act' (e n) s').1
  | fork c next, fork c' next', n, s, s' => c = c' ∧ next.Twin e E Q next' n s s'
  | _, _, _, _, _ => False

variable {e : Nat → ι} {E : ε → ε → Prop} {n : Nat} {s s' : σ}

variable {Q : Nat → σ → σ → α → β → Prop} {p : Prog ι σ ε κ α} {p' : Prog ι σ ε κ β}

theorem Twin.mono {Q' : Nat → σ → σ → α → β → Prop}
    (hQ : ∀ n s s' a b, Q n s s' a b → Q' n s s' a b) (h : p.Twin e E Q p' n s s') :
    p.Twin e E Q' p' n s s' := by
  induction p generalizing p' n s s' with
  | ret a =>
    match p', h with
    | .ret b, h => exact hQ n s s' a b h
  | step act next ih =>
    match p', h with
    | .step _ _, h => exact ⟨h.1, ih (e n) s h.2⟩
  | fork c next ih =>
    match p', h with
    | .fork _ _, h => exact ⟨h.1, ih h.2⟩

theorem Twin.bind {Q : Nat → σ → σ → γ → δ → Prop} {f : α → Prog ι σ ε κ γ}
    {f' : β → Prog ι σ ε κ δ}
    (h : p.Twin e E (fun n s s' a b => (f a).Twin e E Q (f' b) n s s') p' n s s') :
    (p.bind f).Twin e E Q (p'.bind f') n s s' := by
  induction p generalizing p' n s s' with
  | ret a =>
    match p', h with
    | .ret b, h => exact h
  | step act next ih =>
    match p', h with
    | .step _ _, h => exact ⟨h.1, ih (e n) s h.2⟩
  | fork c next ih =>
    match p', h with
    | .fork _ _, h => exact ⟨h.1, ih h.2⟩

theorem Twin.exec (h : p.Twin e E Q p' n s s') {evs evs' : List ε} (hevs : List.Forall₂ E evs evs')
    : List.Forall₂ E (p.exec e n s evs).2.1 (p'.exec e n s' evs').2.1 ∧
      ∃ k, Q k (p.exec e n s evs).1 (p'.exec e n s' evs').1 (p.exec e n s evs).2.2
        (p'.exec e n s' evs').2.2 := by
  induction p generalizing p' n s s' evs evs' with
  | ret a =>
    match p', h with
    | .ret b, h => exact ⟨hevs, n, h⟩
  | step act next ih =>
    match p', h with
    | .step _ _, h => exact ih (e n) s h.2 (List.rel_append hevs (.cons h.1 .nil))
  | fork c next ih =>
    match p', h with
    | .fork _ _, h => exact ih h.2 hevs

theorem Twin.of_quiet {q : ε → Prop} (hp : p.Quiet q) (hp' : p'.Quiet q)
    (h : p.Twin e E Q p' n s s') :
    p.Twin e E (fun n t t' a b => t = s ∧ t' = s' ∧ Q n t t' a b) p' n s s' := by
  induction p generalizing p' n with
  | ret a =>
    match p', h with
    | .ret b, h => exact ⟨rfl, rfl, h⟩
  | step act next ih =>
    cases p' with
    | ret b => exact h.elim
    | step act' next' =>
      obtain ⟨hs, -, hn⟩ := hp (e n) s
      obtain ⟨hs', -, hn'⟩ := hp' (e n) s'
      unfold Twin at h ⊢
      rw [hs, hs'] at h ⊢
      exact ⟨h.1, ih (e n) s hn hn' h.2⟩
    | fork c' next' => exact h.elim
  | fork c next ih => exact hp.elim

end Conc.Prog
