import Lcm.Db.Order
import Lcm.Db.Table
import Lcm.Db.Tx
import Lcm.Db.Window
import Mathlib.Data.List.Forall2

/-!
# Two databases side by side

The same transaction, or two that differ in what they write, on two related databases.

* `Alike`: two results, both errors of one kind or both values that are related.
* `Tx.Twin`: the code keeps the relation of the databases and returns related values.
* `Table.Twin`: tables whose rows are related one by one; what the statements make of them.
-/

namespace Db

open List

variable {ι σ err α β γ δ : Type}

/-- The same error, or related values. -/
def Alike (V : α → β → Prop) : Except err α → Except err β → Prop
  | .ok a, .ok b => V a b
  | .error e, .error e' => e = e'
  | _, _ => False

theorem Alike.refl {V : α → α → Prop} (hV : ∀ a, V a a) (r : Except err α) : Alike V r r := by
  cases r with
  | ok a => exact hV a
  | error e => exact rfl

variable {r : Except err α} {m : Tx ι σ err α} {m' : Tx ι σ err β} {r' : Except err β}

theorem Alike.mono {V W : α → β → Prop} (h : ∀ a b, V a b → W a b) (hr : Alike V r r') :
    Alike W r r' := by
  cases r <;> cases r' <;> first | exact hr | exact h _ _ hr

theorem alike_eq_iff {r' : Except err α} : Alike Eq r r' ↔ r = r' := by
  cases r <;> cases r' <;> simp [Alike]

/-! ## Transactions -/

/-- The sessions have related databases, and have come as far. -/
structure Session.Twin (R : σ → σ → Prop) (ss ss' : Session σ) : Prop where
  db : R ss.db ss'.db
  aborted : ss.aborted = ss'.aborted
  draws : ss.draws = ss'.draws

/-- Two statements do the same, up to the relations. -/
def Outcome.Twin (R : σ → σ → Prop) (V : α → β → Prop) :
    Outcome σ err α → Outcome σ err β → Prop
  | .done db a, .done db' b => R db db' ∧ V a b
  | .missed e, .missed e' => e = e'
  | .violated e, .violated e' => e = e'
  | _, _ => False

namespace Tx

variable {R : σ → σ → Prop} {V : α → β → Prop} {W : γ → δ → Prop} {f : α → Tx ι σ err γ}

/-- The code keeps the relation of the databases and returns related values. -/
def Twin (R : σ → σ → Prop) (V : α → β → Prop) (m : Tx ι σ err α) (m' : Tx ι σ err β) : Prop :=
  ∀ i ss ss', Session.Twin R ss ss' →
    Alike V (m i ss).1 (m' i ss').1 ∧ Session.Twin R (m i ss).2 (m' i ss').2

theorem twin_pure {a : α} {b : β} (h : V a b) :
    Twin R V (pure a : Tx ι σ err α) (pure b) := fun _ _ _ hss => ⟨h, hss⟩

theorem twin_fail (e : err) : Twin R V (fail e : Tx ι σ err α) (fail e) :=
  fun _ _ _ hss => ⟨rfl, hss⟩

theorem twin_ask {f : ι → α} {f' : ι → β} (h : ∀ i, V (f i) (f' i)) :
    Twin R V (ask f : Tx ι σ err α) (ask f') := fun i _ _ hss => ⟨h i, hss⟩

theorem twin_draw (f : ι → Nat → α) : Twin R Eq (draw f : Tx ι σ err α) (draw f) := by
  intro i ss ss' hss
  refine ⟨?_, hss.db, hss.aborted, congrArg (· + 1) hss.draws⟩
  show f i ss.draws = f i ss'.draws
  rw [hss.draws]

theorem Twin.bind {f' : β → Tx ι σ err δ} (hm : Twin R V m m')
    (hf : ∀ a b, V a b → Twin R W (f a) (f' b)) : Twin R W (m >>= f) (m' >>= f') := by
  intro i ss ss' hss
  obtain ⟨hr, hss1⟩ := hm i ss ss' hss
  change Alike W (Tx.bind m f i ss).1 (Tx.bind m' f' i ss').1 ∧
    Session.Twin R (Tx.bind m f i ss).2 (Tx.bind m' f' i ss').2
  unfold Tx.bind
  generalize m i ss = p at hr hss1 ⊢
  generalize m' i ss' = p' at hr hss1 ⊢
  obtain ⟨r, ss1⟩ := p
  obtain ⟨r', ss1'⟩ := p'
  match r, r', hr with
  | .ok a, .ok b, hr => exact hf a b hr i ss1 ss1' hss1
  | .error _, .error _, hr => exact ⟨hr, hss1⟩

theorem Twin.attempt (hm : Twin R V m m') :
    Twin R (Alike V) m.attempt m'.attempt := fun i ss ss' hss => hm i ss ss' hss

theorem Twin.mono {V' : α → β → Prop} (hV : ∀ a b, V a b → V' a b) (hm : Twin R V m m') :
    Twin R V' m m' := fun i ss ss' hss =>
  ⟨(hm i ss ss' hss).1.mono hV, (hm i ss ss' hss).2⟩

theorem twin_stmt [SqlError err] {f : σ → Outcome σ err α} {f' : σ → Outcome σ err β}
    (hf : ∀ db db', R db db' → Outcome.Twin R V (f db) (f' db')) :
    Twin R V (stmt f : Tx ι σ err α) (stmt f') := by
  intro i ss ss' hss
  have h := hf ss.db ss'.db hss.db
  unfold stmt
  rw [← hss.aborted]
  split
  · exact ⟨rfl, hss⟩
  generalize f ss.db = o at h ⊢
  generalize f' ss'.db = o' at h ⊢
  match o, o', h with
  | .done _ _, .done _ _, h => exact ⟨h.2, h.1, rfl, hss.draws⟩
  | .missed _, .missed _, h => exact ⟨h, hss⟩
  | .violated _, .violated _, h => exact ⟨h, hss.db, rfl, hss.draws⟩

theorem twin_query [SqlError err] {f : σ → Except err α} {f' : σ → Except err β}
    (hf : ∀ db db', R db db' → Alike V (f db) (f' db')) :
    Twin R V (query f : Tx ι σ err α) (query f') := by
  refine twin_stmt fun db db' hdb => ?_
  have h := hf db db' hdb
  generalize f db = r at h ⊢
  generalize f' db' = r' at h ⊢
  match r, r', h with
  | .ok _, .ok _, h => exact ⟨hdb, h⟩
  | .error _, .error _, h => exact h

/-- The code finds and does the same on related databases. -/
def Blind (R : σ → σ → Prop) (m : Tx ι σ err α) : Prop := Twin R Eq m m

theorem blind_pure (a : α) : Blind R (pure a : Tx ι σ err α) := twin_pure rfl

theorem blind_fail (e : err) : Blind R (fail e : Tx ι σ err α) := twin_fail e

theorem blind_ofExcept (r : Except err α) : Blind R (ofExcept r : Tx ι σ err α) :=
  fun _ _ _ hss => ⟨alike_eq_iff.2 rfl, hss⟩

theorem blind_ask (f : ι → α) : Blind R (ask f : Tx ι σ err α) := twin_ask fun _ => rfl

theorem blind_draw (f : ι → Nat → α) : Blind R (draw f : Tx ι σ err α) := twin_draw f

theorem Blind.bind (hm : Blind R m) (hf : ∀ a, Blind R (f a)) : Blind R (m >>= f) := by
  refine Twin.bind hm ?_
  rintro a _ rfl
  exact hf a

theorem Blind.attempt (hm : Blind R m) : Blind R m.attempt :=
  Twin.mono (fun _ _ h => alike_eq_iff.1 h) (Twin.attempt hm)

theorem blind_query [SqlError err] {f : σ → Except err α}
    (hf : ∀ db db', R db db' → f db = f db') : Blind R (query f : Tx ι σ err α) :=
  twin_query fun db db' hdb => alike_eq_iff.2 (hf db db' hdb)

theorem Twin.atomic [SqlError err] (hm : Twin R V m m') (i : ι) {s s' : σ} (hs : R s s') :
    Alike V (m.atomic i s).1 (m'.atomic i s').1 ∧ R (m.atomic i s).2 (m'.atomic i s').2 := by
  obtain ⟨hr, hss⟩ := hm i ⟨s, false, 0⟩ ⟨s', false, 0⟩ ⟨hs, rfl, rfl⟩
  unfold Tx.atomic
  generalize m i ⟨s, false, 0⟩ = p at hr hss ⊢
  generalize m' i ⟨s', false, 0⟩ = p' at hr hss ⊢
  obtain ⟨r, ss⟩ := p
  obtain ⟨r', ss'⟩ := p'
  match r, r', hr with
  | .ok _, .ok _, hr =>
    have hab : ss.aborted = ss'.aborted := hss.aborted
    dsimp only
    rw [← hab]
    split
    · exact ⟨rfl, hs⟩
    · exact ⟨hr, hss.db⟩
  | .error _, .error _, hr => exact ⟨hr, hs⟩

end Tx

/-! ## Tables -/

section Lists

variable {ρ τ : Type} {A : ρ → ρ → Prop} {l l' : List ρ}

variable {p p' : ρ → Bool}

theorem forall₂_filter (hp : ∀ x y, A x y → p x = p' y) (h : List.Forall₂ A l l') :
    List.Forall₂ A (l.filter p) (l'.filter p') := by
  induction h with
  | nil => exact .nil
  | cons hxy _ ih =>
    rw [filter_cons, filter_cons, hp _ _ hxy]
    split
    · exact .cons hxy ih
    · exact ih

theorem forall₂_find? (hp : ∀ x y, A x y → p x = p' y) (h : List.Forall₂ A l l') :
    Option.Rel A (l.find? p) (l'.find? p') := by
  induction h with
  | nil => exact .none
  | cons hxy _ ih =>
    rw [find?_cons, find?_cons, hp _ _ hxy]
    split
    · exact .some hxy
    · exact ih

theorem forall₂_any (hp : ∀ x y, A x y → p x = p' y) (h : List.Forall₂ A l l') :
    l.any p = l'.any p' := by
  induction h with
  | nil => rfl
  | cons hxy _ ih => rw [any_cons, any_cons, hp _ _ hxy, ih]

theorem forall₂_getLast? (h : List.Forall₂ A l l') : Option.Rel A l.getLast? l'.getLast? := by
  rw [getLast?_eq_head?_reverse, getLast?_eq_head?_reverse]
  have hrev := rel_reverse h
  generalize l.reverse = r at hrev ⊢
  generalize l'.reverse = r' at hrev ⊢
  cases hrev with
  | nil => exact .none
  | cons hxy _ => exact .some hxy

theorem forall₂_insertionSort {less : ρ → ρ → Bool}
    (hless : ∀ x y, A x y → ∀ x' y', A x' y' → less x x' = less y y')
    (h : List.Forall₂ A l l') :
    List.Forall₂ A (l.insertionSort fun a b => less b a = false)
      (l'.insertionSort fun a b => less b a = false) := by
  have hinsert : ∀ x y, A x y → ∀ k k', List.Forall₂ A k k' →
      List.Forall₂ A (k.orderedInsert (fun a b => less b a = false) x)
        (k'.orderedInsert (fun a b => less b a = false) y) := by
    intro x y hxy k k' hk
    induction hk with
    | nil => exact .cons hxy .nil
    | cons hab hrest ih =>
      rw [orderedInsert_cons, orderedInsert_cons, hless _ _ hab _ _ hxy]
      split
      · exact .cons hxy (.cons hab hrest)
      · exact .cons hab ih
  induction h with
  | nil => exact .nil
  | cons hxy _ ih =>
    exact hinsert _ _ hxy _ _ ih

theorem forall₂_page (Q : ListQuery) (spec : ListSpec) (req : PageRequest)
    {key : String → ρ → SortKey} {id : ρ → Nat} (hkey : ∀ f x y, A x y → key f x = key f y)
    (hid : ∀ x y, A x y → id x = id y) (h : List.Forall₂ A l l') :
    List.Forall₂ A (Q.page spec req key id l).1 (Q.page spec req key id l').1 ∧
      (Q.page spec req key id l).2 = (Q.page spec req key id l').2 := by
  unfold ListQuery.page
  rw [← h.length_eq]
  refine ⟨?_, rfl⟩
  refine forall₂_take _ (forall₂_drop _ (forall₂_insertionSort ?_ h))
  intro x y hxy x' y' hxy'
  simp only [funext fun f => hkey f x y hxy, funext fun f => hkey f x' y' hxy', hid x y hxy,
    hid x' y' hxy']

theorem forall₂_map_eq {f : ρ → τ} (hf : ∀ x y, A x y → f x = f y) (h : List.Forall₂ A l l') :
    l.map f = l'.map f := by
  induction h with
  | nil => rfl
  | cons hxy _ ih => rw [map_cons, map_cons, hf _ _ hxy, ih]

end Lists

namespace Table

variable {ρ κ : Type} {key : ρ → κ} {A : ρ → ρ → Prop} {t t' : Table key}

/-- The rows of the tables are related one by one. -/
def Twin (A : ρ → ρ → Prop) (t t' : Table key) : Prop := List.Forall₂ A t.rows t'.rows

theorem Twin.refl (hA : ∀ r, A r r) (t : Table key) : Twin A t t :=
  forall₂_same.2 fun r _ => hA r

theorem eq_of_twin (h : Twin Eq t t') : t = t' := by
  obtain ⟨rows, hrows⟩ := t
  obtain ⟨rows', hrows'⟩ := t'
  obtain rfl : rows = rows' := forall₂_eq_eq_eq ▸ h
  rfl

theorem Twin.map {f f' : ρ → ρ} {hf : ∀ r, key (f r) = key r} {hf' : ∀ r, key (f' r) = key r}
    (hA : ∀ x y, A x y → A (f x) (f' y)) (h : Twin A t t') : Twin A (t.map f hf) (t'.map f' hf') :=
  forall₂_map_left_iff.2 (forall₂_map_right_iff.2 (h.imp fun x y hxy => hA x y hxy))

variable [DecidableEq κ]

theorem Twin.get? (hkey : ∀ x y, A x y → key x = key y) (h : Twin A t t') (k : κ) :
    Option.Rel A (t.get? k) (t'.get? k) :=
  forall₂_find? (fun x y hxy => by rw [hkey x y hxy]) h

theorem Twin.update {f f' : ρ → ρ} {hf : ∀ r, key (f r) = key r} {hf' : ∀ r, key (f' r) = key r}
    (hkey : ∀ x y, A x y → key x = key y) {k : κ}
    (hA : ∀ x y, A x y → key x = k → A (f x) (f' y)) (h : Twin A t t') :
    Twin A (t.update k f hf) (t'.update k f' hf') := by
  refine Twin.map (fun x y hxy => ?_) h
  rw [← hkey x y hxy]
  split
  · next hk => exact hA x y hxy hk
  · exact hxy

theorem Twin.insert? (hkey : ∀ x y, A x y → key x = key y) (h : Twin A t t') {r r' : ρ}
    (hr : A r r') : Option.Rel (Twin A) (t.insert? r) (t'.insert? r') := by
  have hkeys : t.rows.map key = t'.rows.map key := forall₂_map_eq hkey h
  unfold Table.insert?
  by_cases hin : key r ∈ t.rows.map key
  · rw [dif_pos hin, dif_pos (by rw [← hkeys, ← hkey r r' hr]; exact hin)]
    exact .none
  · rw [dif_neg hin, dif_neg (by rw [← hkeys, ← hkey r r' hr]; exact hin)]
    exact .some (rel_append h (.cons hr .nil))

end Table

end Db
