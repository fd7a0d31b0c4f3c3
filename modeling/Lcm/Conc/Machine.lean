import Mathlib.Logic.Basic

/-!
# Machines

A state and a step for each action; the actions come one after the other, in any order, and
each is made on the state the ones before have left. `run_inv` is the rule of invariants for
runs whose actions all meet a condition.
-/

namespace Conc.Machine

variable {σ α : Type} (step : σ → α → σ)

/-- The state after all the actions. -/
def run (s : σ) (as : List α) : σ := as.foldl step s

@[simp] theorem run_nil (s : σ) : run step s [] = s := rfl

@[simp] theorem run_cons (s : σ) (a : α) (as : List α) :
    run step s (a :: as) = run step (step s a) as := rfl

/-- Every action meets the condition in the state it is made in. -/
def Meets (cond : σ → α → Prop) : σ → List α → Prop
  | _, [] => True
  | s, a :: as => cond s a ∧ Meets cond (step s a) as

instance decidableMeets (cond : σ → α → Prop) [∀ s a, Decidable (cond s a)] :
    (s : σ) → (as : List α) → Decidable (Meets step cond s as)
  | _, [] => .isTrue trivial
  | s, a :: as => @instDecidableAnd _ _ _ (decidableMeets cond (step s a) as)

variable {step}

variable {as : List α} {cond : σ → α → Prop}

theorem meets_of_forall (h : ∀ a ∈ as, ∀ s, cond s a) (s : σ) : Meets step cond s as := by
  induction as generalizing s with
  | nil => trivial
  | cons a as ih =>
    refine ⟨h a List.mem_cons_self s, ih (fun b hb => ?_) _⟩
    exact h b (List.mem_cons_of_mem a hb)

theorem Meets.and {cond' : σ → α → Prop} {s : σ} (h : Meets step cond s as)
    (h' : Meets step cond' s as) : Meets step (fun s a => cond s a ∧ cond' s a) s as := by
  induction as generalizing s with
  | nil => trivial
  | cons a as ih => exact ⟨⟨h.1, h'.1⟩, ih h.2 h'.2⟩

theorem run_inv {I : σ → Prop} (hstep : ∀ s a, cond s a → I s → I (step s a)) {s : σ} (hI : I s)
    (hcond : Meets step cond s as) : I (run step s as) := by
  induction as generalizing s with
  | nil => exact hI
  | cons a as ih => exact ih (hstep s a hcond.1 hI) hcond.2

end Conc.Machine
