import Mathlib.Data.List.Sort

/-!
# ORDER BY

A query that sorts by one column leaves the order of equal rows to the database. `orderBy`
takes that order as an argument, so a statement for every `tie` covers whatever the database
does.
-/

namespace Db

open List

variable {ρ : Type}

/-- The order of a query by `key`, equal keys by `tie`. -/
def Before (key : ρ → Int) (tie : ρ → Nat) (a b : ρ) : Prop :=
  key a < key b ∨ (key a = key b ∧ tie a ≤ tie b)

instance (key : ρ → Int) (tie : ρ → Nat) : DecidableRel (Before key tie) :=
  fun _ _ => inferInstanceAs (Decidable (_ ∨ _))

/-- The rows sorted by `key`, equal keys by `tie`. -/
def orderBy (key : ρ → Int) (tie : ρ → Nat) (l : List ρ) : List ρ :=
  l.insertionSort (Before key tie)

theorem orderBy_perm (key : ρ → Int) (tie : ρ → Nat) (l : List ρ) :
    (orderBy key tie l).Perm l := perm_insertionSort _ l

@[simp] theorem mem_orderBy {key : ρ → Int} {tie : ρ → Nat} {l : List ρ} {r : ρ} :
    r ∈ orderBy key tie l ↔ r ∈ l := (orderBy_perm key tie l).mem_iff

theorem orderBy_pairwise (key : ρ → Int) (tie : ρ → Nat) (l : List ρ) :
    (orderBy key tie l).Pairwise (Before key tie) := by
  have : Std.Total (Before key tie) := ⟨fun a b => by unfold Before; omega⟩
  have : IsTrans ρ (Before key tie) := ⟨fun a b c => by unfold Before; omega⟩
  exact pairwise_insertionSort (Before key tie) l

theorem orderBy_sorted (key : ρ → Int) (tie : ρ → Nat) (l : List ρ) :
    (orderBy key tie l).Pairwise fun a b => key a ≤ key b := by
  refine (orderBy_pairwise key tie l).imp ?_
  intro a b h
  unfold Before at h
  omega

theorem mem_take_append {r : ρ} {before after : List ρ} {n : Nat} (h : before.length < n) :
    r ∈ (before ++ r :: after).take n := by
  rw [take_append, mem_append]
  right
  obtain ⟨k, hk⟩ : ∃ k, n - before.length = k + 1 := ⟨n - before.length - 1, by omega⟩
  rw [hk, take_succ_cons]
  exact mem_cons_self

section Take

variable {key : ρ → Int} {tie : ρ → Nat} {l : List ρ} {r : ρ} {n : Nat}

/-- A row is among the first `n`, however equal rows are ordered, when at most `n` rows have no
greater key. -/
theorem mem_take_orderBy (hr : r ∈ l)
    (hle : (l.filter fun x => decide (key x ≤ key r)).length ≤ n) :
    r ∈ (orderBy key tie l).take n := by
  have hperm := orderBy_perm key tie l
  have hsorted := orderBy_sorted key tie l
  generalize orderBy key tie l = sorted at hperm hsorted ⊢
  obtain ⟨before, after, rfl⟩ := append_of_mem (hperm.mem_iff.2 hr)
  -- the rows before it are among those with no greater key, and so is the row itself
  have hbefore : before.filter (fun x => decide (key x ≤ key r)) = before := by
    refine filter_eq_self.2 fun a ha => decide_eq_true ?_
    exact (pairwise_append.1 hsorted).2.2 a ha r mem_cons_self
  rw [← (hperm.filter _).length_eq, filter_append, hbefore, length_append,
    filter_cons_of_pos (by simp), length_cons] at hle
  exact mem_take_append (by omega)

theorem notMem_take_orderBy (hr : r ∈ l) (hlast : ∀ x ∈ l, x ≠ r → tie x < tie r)
    (hnodup : l.Nodup) (hlt : n < (l.filter fun x => decide (key x ≤ key r)).length) :
    r ∉ (orderBy key tie l).take n := by
  have hperm := orderBy_perm key tie l
  have hsorted := orderBy_pairwise key tie l
  generalize orderBy key tie l = sorted at hperm hsorted ⊢
  obtain ⟨before, after, rfl⟩ := append_of_mem (hperm.mem_iff.2 hr)
  have hnodup' := hperm.nodup_iff.2 hnodup
  rw [nodup_append, nodup_cons] at hnodup'
  obtain ⟨-, ⟨hnot, -⟩, hdisjoint⟩ := hnodup'
  -- every row behind it has a greater key
  have hafter : after.filter (fun x => decide (key x ≤ key r)) = [] := by
    refine filter_eq_nil_iff.2 fun b hb => ?_
    have hrb := (pairwise_cons.1 (pairwise_append.1 hsorted).2.1).1 b hb
    have hb' : b ∈ l := hperm.mem_iff.1 (by simp [hb])
    have htie := hlast b hb' (by rintro rfl; exact hnot hb)
    unfold Before at hrb
    simp only [decide_eq_true_eq]
    omega
  have hcount : (l.filter fun x => decide (key x ≤ key r)).length ≤ before.length + 1 := by
    rw [← (hperm.filter _).length_eq, filter_append, length_append,
      filter_cons_of_pos (by simp), length_cons, hafter]
    exact Nat.add_le_add_right (length_filter_le _ _) 1
  rw [take_append_of_le_length (by omega)]
  intro hmem
  exact hdisjoint r (mem_of_mem_take hmem) r mem_cons_self rfl

end Take

/-! ## Orders without equal rows -/

/-- A comparison that can be sorted by. -/
structure Sortable (less : ρ → ρ → Bool) : Prop where
  asymm : ∀ a b, less a b = true → less b a = false
  trans : ∀ a b c, less b a = false → less c b = false → less c a = false

variable {less : ρ → ρ → Bool} {l : List ρ}

/-- Only a row itself is neither less nor greater. -/
def Apart (less : ρ → ρ → Bool) (l : List ρ) : Prop :=
  ∀ a ∈ l, ∀ b ∈ l, less a b = false → less b a = false → a = b

/-- The rows sorted by the comparison. -/
abbrev sorted (less : ρ → ρ → Bool) (l : List ρ) : List ρ :=
  l.insertionSort fun a b => less b a = false

theorem sorted_perm (less : ρ → ρ → Bool) (l : List ρ) : (sorted less l).Perm l :=
  perm_insertionSort _ l

/-- So many rows of the list are less. -/
def rank (less : ρ → ρ → Bool) (l : List ρ) (x : ρ) : Nat := (l.filter (less · x)).length

variable {x y : ρ} {i : Nat}

namespace Sortable

section

variable (h : Sortable less)
include h

theorem irrefl (x : ρ) : less x x = false := by
  cases hx : less x x with
  | false => rfl
  | true => exact hx.symm.trans (h.asymm x x hx)

theorem pairwise (l : List ρ) :
    (sorted less l).Pairwise fun a b => less b a = false := by
  have : Std.Total fun a b => less b a = false := ⟨fun a b => by
    cases hab : less a b with
    | false => exact .inr rfl
    | true => exact .inl (h.asymm a b hab)⟩
  have : IsTrans ρ fun a b => less b a = false := ⟨fun a b c hab hbc => h.trans a b c hab hbc⟩
  exact pairwise_insertionSort _ l

theorem rank_eq_length (hapart : Apart less l) {before after : List ρ}
    (hs : sorted less l = before ++ x :: after) (hnot : x ∉ before) :
    rank less l x = before.length := by
  have hperm := sorted_perm less l
  have hsorted := h.pairwise l
  rw [hs] at hperm hsorted
  rw [pairwise_append] at hsorted
  rw [rank, (hperm.symm.filter _).length_eq, filter_append, filter_cons, h.irrefl]
  have hbefore : before.filter (less · x) = before := by
    refine filter_eq_self.2 fun a ha => ?_
    have hxa := hsorted.2.2 a ha x mem_cons_self
    cases hax : less a x with
    | true => rfl
    | false =>
      have heq := hapart a (hperm.mem_iff.1 (by simp [ha])) x (hperm.mem_iff.1 (by simp)) hax hxa
      exact absurd (heq ▸ ha) hnot
  have hafter : after.filter (less · x) = [] := by
    refine filter_eq_nil_iff.2 fun b hb => ?_
    rw [(pairwise_cons.1 hsorted.2.1).1 b hb]
    exact Bool.false_ne_true
  rw [hbefore, hafter]
  simp

theorem mem_take_iff (hapart : Apart less l) {n : Nat} :
    x ∈ (sorted less l).take n ↔ x ∈ l ∧ rank less l x < n := by
  have hperm := sorted_perm less l
  constructor
  · intro hx
    have hmem : x ∈ sorted less l := mem_of_mem_take hx
    obtain ⟨before, after, hs, hnot⟩ := eq_append_cons_of_mem hmem
    refine ⟨hperm.mem_iff.1 hmem, ?_⟩
    rw [h.rank_eq_length hapart hs hnot]
    by_contra hle
    rw [hs, take_append_of_le_length (Nat.not_lt.1 hle)] at hx
    exact hnot (mem_of_mem_take hx)
  rintro ⟨hx, hlt⟩
  obtain ⟨before, after, hs, hnot⟩ := eq_append_cons_of_mem (hperm.mem_iff.2 hx)
  rw [h.rank_eq_length hapart hs hnot] at hlt
  rw [hs]
  exact mem_take_append hlt

theorem rank_le (hxy : less x y = false) : rank less l y ≤ rank less l x := by
  refine (monotone_filter_right l fun a hay => ?_).length_le
  cases hax : less a x with
  | true => rfl
  | false => exact (h.trans y x a hxy hax).symm.trans hay

theorem rank_lt (hx : x ∈ l) (hxy : less x y = true) :
    rank less l x < rank less l y := by
  have hyx : less y x = false := h.asymm x y hxy
  refine lt_of_le_of_ne (h.rank_le hyx) fun heq => ?_
  -- with equal ranks the rows less than either are the same, and `x` is one of them
  have hsub : (l.filter (less · x)).Sublist (l.filter (less · y)) := by
    refine monotone_filter_right l fun a hax => ?_
    cases hay : less a y with
    | true => rfl
    | false => exact (h.trans y a x hay (h.asymm a x hax)).symm.trans hxy
  have hmem : x ∈ l.filter (less · x) := by
    rw [hsub.eq_of_length heq]
    exact mem_filter.2 ⟨hx, hxy⟩
  exact Bool.false_ne_true ((h.irrefl x).symm.trans (mem_filter.1 hmem).2)

theorem getElem?_eq_some_iff (hapart : Apart less l) (hnodup : l.Nodup) :
    (sorted less l)[i]? = some x ↔ x ∈ l ∧ rank less l x = i := by
  have hperm := sorted_perm less l
  constructor
  · intro hx
    obtain ⟨hlt, hi⟩ := List.getElem?_eq_some_iff.1 hx
    have hs : sorted less l = (sorted less l).take i ++ x :: (sorted less l).drop (i + 1) := by
      rw [← hi, getElem_cons_drop, take_append_drop]
    have hnd := hperm.nodup_iff.2 hnodup
    rw [hs, nodup_append] at hnd
    have hnot : x ∉ (sorted less l).take i := fun hx => hnd.2.2 x hx x mem_cons_self rfl
    refine ⟨hperm.mem_iff.1 (mem_of_getElem? hx), ?_⟩
    rw [h.rank_eq_length hapart hs hnot, length_take, Nat.min_eq_left (Nat.le_of_lt hlt)]
  · rintro ⟨hx, rfl⟩
    obtain ⟨before, after, hs, hnot⟩ := eq_append_cons_of_mem (hperm.mem_iff.2 hx)
    rw [h.rank_eq_length hapart hs hnot, hs]
    simp

theorem mem_take_succ_iff (hapart : Apart less l) (hx : x ∈ l)
    (hrank : rank less l x = i) :
    y ∈ (sorted less l).take (i + 1) ↔ y ∈ l ∧ less x y = false := by
  rw [h.mem_take_iff hapart]
  refine and_congr_right fun _ => ?_
  constructor
  · intro hle
    cases hxy : less x y with
    | false => rfl
    | true =>
      have hlt := h.rank_lt hx hxy
      omega
  intro hxy
  have hle : rank less l y ≤ rank less l x := h.rank_le hxy
  omega

theorem take_succ_of_short (hapart : Apart less l) (hnodup : l.Nodup)
    (hshort : ∀ x ∈ l, rank less l x ≠ i) :
    (sorted less l).take (i + 1) = sorted less l := by
  refine take_of_length_le ?_
  cases hi : (sorted less l)[i]? with
  | some x =>
    obtain ⟨hx, hrank⟩ := (h.getElem?_eq_some_iff hapart hnodup).1 hi
    exact absurd hrank (hshort x hx)
  | none => exact Nat.le_succ_of_le (List.getElem?_eq_none_iff.1 hi)

theorem eq_of_perm (hapart : Apart less l) {k k' : List ρ}
    (hk : k.Sublist (sorted less l)) {l' : List ρ} (hk' : k'.Sublist (sorted less l'))
    (hperm : k.Perm k') : k = k' := by
  refine hperm.eq_of_pairwise ?_ ((h.pairwise l).sublist hk) ((h.pairwise l').sublist hk')
  have hin : ∀ c ∈ k, c ∈ l := fun c hc => (sorted_perm less l).mem_iff.1 (hk.subset hc)
  intro a b ha hb hab hba
  exact hapart a (hin a ha) b (hin b (hperm.mem_iff.2 hb)) hba hab

/-- Two lists that show the same rows have the same page when it ends at the same place: at rows
behind which the same rows come, or nowhere. -/
theorem filter_take_eq {l' : List ρ} (hapart : Apart less l)
    (hapart' : Apart less l') (hnodup : l.Nodup) (hnodup' : l'.Nodup) {shown shown' : ρ → Bool}
    (hshown : ∀ x, x ∈ l ∧ shown x = true ↔ x ∈ l' ∧ shown' x = true)
    (hcut : (∃ x x', (x ∈ l ∧ rank less l x = i) ∧ (x' ∈ l' ∧ rank less l' x' = i) ∧
      ∀ y, less x y = less x' y) ∨
      (∀ x ∈ l, rank less l x ≠ i) ∧ ∀ x ∈ l', rank less l' x ≠ i) :
    ((sorted less l).take (i + 1)).filter shown = ((sorted less l').take (i + 1)).filter shown' := by
  have hmem : ∀ y, y ∈ ((sorted less l).take (i + 1)).filter shown ↔
      y ∈ ((sorted less l').take (i + 1)).filter shown' := by
    intro y
    rw [mem_filter, mem_filter]
    rcases hcut with ⟨x, x', ⟨hx, hr⟩, ⟨hx', hr'⟩, hsame⟩ | ⟨hshort, hshort'⟩
    · rw [h.mem_take_succ_iff hapart hx hr, h.mem_take_succ_iff hapart' hx' hr', hsame y,
        and_right_comm, and_right_comm (b := less x' y = false), hshown y]
    · rw [h.take_succ_of_short hapart hnodup hshort, h.take_succ_of_short hapart' hnodup' hshort',
        mem_insertionSort, mem_insertionSort, hshown y]
  have hsub : ∀ (k : List ρ) (p : ρ → Bool),
      (((sorted less k).take (i + 1)).filter p).Sublist (sorted less k) := fun k p =>
    filter_sublist.trans (take_sublist _ _)
  have hnd : ∀ k : List ρ, k.Nodup → (sorted less k).Nodup := fun k hk =>
    (sorted_perm less k).nodup_iff.2 hk
  refine h.eq_of_perm hapart (hsub l shown) (hsub l' shown') ?_
  exact (perm_ext_iff_of_nodup ((hnd l hnodup).sublist (hsub l shown))
    ((hnd l' hnodup').sublist (hsub l' shown'))).2 hmem

theorem insertionSort_filter (hapart : Apart less l) (p : ρ → Bool) :
    (l.filter p).insertionSort (fun a b => less b a = false) = (sorted less l).filter p :=
  (h.eq_of_perm hapart filter_sublist (List.Sublist.refl _)
    (((sorted_perm less l).filter p).trans (sorted_perm less _).symm)).symm

theorem filter_less_eq_drop (hapart : Apart less l) (hnodup : l.Nodup)
    (hx : (sorted less l)[i]? = some x) :
    (sorted less l).filter (less x ·) =
      (sorted less l).drop (i + 1) := by
  have hsorted := h.pairwise l
  have hnodup' := (sorted_perm less l).nodup_iff.2 hnodup
  have hmem : ∀ y ∈ sorted less l, y ∈ l := fun y hy => (mem_insertionSort _).1 hy
  generalize sorted less l = sorted at *
  obtain ⟨hlt, rfl⟩ := List.getElem?_eq_some_iff.1 hx
  have hsplit : sorted = sorted.take i ++ sorted[i] :: sorted.drop (i + 1) := by
    rw [getElem_cons_drop, take_append_drop]
  rw [hsplit, pairwise_append] at hsorted
  rw [hsplit, nodup_append] at hnodup'
  have hbefore : (sorted.take i).filter (less sorted[i] ·) = [] := by
    refine filter_eq_nil_iff.2 fun a ha => ?_
    rw [hsorted.2.2 a ha sorted[i] mem_cons_self]
    exact Bool.false_ne_true
  have hafter : (sorted.drop (i + 1)).filter (less sorted[i] ·) = sorted.drop (i + 1) := by
    refine filter_eq_self.2 fun b hb => ?_
    have hbx := (pairwise_cons.1 hsorted.2.1).1 b hb
    cases hxb : less sorted[i] b with
    | true => rfl
    | false =>
      have heq := hapart _ (hmem _ (getElem_mem hlt)) b (hmem b (mem_of_mem_drop hb))
        hxb hbx
      exact absurd (heq ▸ hb) (nodup_cons.1 hnodup'.2.1).1
  calc sorted.filter (less sorted[i] ·)
      = (sorted.take i ++ sorted[i] :: sorted.drop (i + 1)).filter (less sorted[i] ·) := by
        rw [← hsplit]
    _ = sorted.drop (i + 1) := by
        rw [filter_append, filter_cons, hbefore, h.irrefl, hafter]
        simp

end

end Sortable

/-! ## Newest first -/

/-- `ORDER BY created_at DESC, id DESC`. -/
def NewestFirst (created : ρ → Int) (id : ρ → Nat) (a b : ρ) : Bool :=
  decide (created b < created a) || (created a == created b && decide (id b < id a))

section NewestFirst

variable {created : ρ → Int} {id : ρ → Nat} {a b : ρ}

theorem newestFirst_iff : NewestFirst created id a b = true ↔
    created b < created a ∨ (created a = created b ∧ id b < id a) := by
  simp [NewestFirst]

theorem newestFirst_eq_false_iff : NewestFirst created id a b = false ↔
    created a < created b ∨ (created a = created b ∧ id a ≤ id b) := by
  have hlex : ∀ (x y : Int) (i j : Nat),
      ¬ (y < x ∨ (x = y ∧ j < i)) ↔ x < y ∨ (x = y ∧ i ≤ j) := fun x y i j => by omega
  rw [← Bool.not_eq_true, newestFirst_iff]
  exact hlex (created a) (created b) (id a) (id b)

theorem sortable_newestFirst (created : ρ → Int) (id : ρ → Nat) :
    Sortable (NewestFirst created id) := by
  constructor
  · intro a b hab
    rw [newestFirst_iff] at hab
    rw [newestFirst_eq_false_iff]
    exact hab.imp_right fun h => ⟨h.1.symm, Nat.le_of_lt h.2⟩
  intro a b c hba hcb
  have hlex : ∀ (x y z : Int) (i j k : Nat), y < x ∨ (y = x ∧ j ≤ i) → z < y ∨ (z = y ∧ k ≤ j) →
      z < x ∨ (z = x ∧ k ≤ i) := fun x y z i j k h h' => by omega
  rw [newestFirst_eq_false_iff] at hba hcb ⊢
  exact hlex (created a) (created b) (created c) (id a) (id b) (id c) hba hcb

theorem id_eq_of_not_newer (created : ρ → Int) (id : ρ → Nat)
    (hab : NewestFirst created id a b = false) (hba : NewestFirst created id b a = false) :
    id a = id b := by
  have hlex : ∀ (x y : Int) (i j : Nat), x < y ∨ (x = y ∧ i ≤ j) → y < x ∨ (y = x ∧ j ≤ i) →
      i = j := fun x y i j h h' => by omega
  rw [newestFirst_eq_false_iff] at hab hba
  exact hlex (created a) (created b) (id a) (id b) hab hba

end NewestFirst

end Db
