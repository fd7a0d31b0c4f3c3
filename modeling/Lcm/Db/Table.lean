import Mathlib.Data.List.Nodup
import Mathlib.Data.Set.Defs

/-!
# Tables with a primary key

A table is a list of rows in which no two rows have the same key. Uniqueness is a field of
the type, so every table a program builds has it; inserting a duplicate key has no result.
-/

namespace Db

open List

/-- Rows of type `ρ`, no two with the same `key`, in the order they were inserted. -/
structure Table {ρ κ : Type} (key : ρ → κ) where
  rows : List ρ
  nodup : (rows.map key).Nodup

namespace Table

variable {ρ κ : Type} {key : ρ → κ} {f : ρ → ρ}

@[ext] theorem ext {t u : Table key} (h : t.rows = u.rows) : t = u := by
  cases t
  cases u
  cases h
  rfl

/-- The table with no row. -/
def empty : Table key := ⟨[], nodup_nil⟩

theorem map_key_of_update {l : List ρ} (hf : ∀ r, key (f r) = key r) :
    (l.map f).map key = l.map key := by
  simp [map_map, Function.comp_def, hf]

/-- Rewrite every row with `f`, which may not touch the key. -/
def map (t : Table key) (f : ρ → ρ) (hf : ∀ r, key (f r) = key r) : Table key :=
  ⟨t.rows.map f, by rw [map_key_of_update hf]; exact t.nodup⟩

@[simp] theorem rows_map (t : Table key) (f : ρ → ρ) (hf : ∀ r, key (f r) = key r) :
    (t.map f hf).rows = t.rows.map f := rfl

/-- Keep the rows that satisfy `p`. -/
def filter (t : Table key) (p : ρ → Bool) : Table key :=
  ⟨t.rows.filter p, t.nodup.sublist (filter_sublist.map key)⟩

@[simp] theorem rows_filter (t : Table key) (p : ρ → Bool) :
    (t.filter p).rows = t.rows.filter p := rfl

variable {r : ρ} {t t' : Table key} {k : κ}

theorem eq_of_key_eq {r' : ρ} (hr : r ∈ t.rows) (hr' : r' ∈ t.rows) (h : key r = key r') : r = r' :=
  inj_on_of_nodup_map t.nodup hr hr' h

/-- The keys, in the order the rows were inserted. -/
def keys (t : Table key) : List κ := t.rows.map key

theorem mem_keys : k ∈ t.keys ↔ ∃ r ∈ t.rows, key r = k := mem_map

@[simp] theorem keys_map (t : Table key) (f : ρ → ρ) (hf : ∀ r, key (f r) = key r) :
    (t.map f hf).keys = t.keys := map_key_of_update hf

variable [DecidableEq κ]

/-- The row with the given key. -/
def get? (t : Table key) (k : κ) : Option ρ := t.rows.find? fun r => key r == k

/-- Add a row; a row with the same key is a violation. -/
def insert? (t : Table key) (r : ρ) : Option (Table key) :=
  if h : key r ∈ t.rows.map key then none
  else some ⟨t.rows ++ [r], by
    rw [map_append, nodup_append]
    refine ⟨t.nodup, by simp, ?_⟩
    intro a ha b hb hab
    obtain rfl : b = key r := by simpa using hb
    exact h (hab ▸ ha)⟩

/-- Rewrite the row with the given key. -/
def update (t : Table key) (k : κ) (f : ρ → ρ) (hf : ∀ r, key (f r) = key r) : Table key :=
  t.map (fun r => if key r = k then f r else r) (by
    intro r
    split
    · exact hf r
    · rfl)

@[simp] theorem rows_update (t : Table key) (k : κ) (f : ρ → ρ)
    (hf : ∀ r, key (f r) = key r) :
    (t.update k f hf).rows = t.rows.map fun r => if key r = k then f r else r := rfl

@[simp] theorem keys_update (t : Table key) (k : κ) (f : ρ → ρ) (hf : ∀ r, key (f r) = key r) :
    (t.update k f hf).keys = t.keys := keys_map t _ _

/-! ## Lookup -/

theorem get?_mem (h : t.get? k = some r) : r ∈ t.rows :=
  mem_of_find?_eq_some h

theorem get?_key (h : t.get? k = some r) : key r = k := by
  simpa using find?_some h

theorem get?_of_mem (hr : r ∈ t.rows) : t.get? (key r) = some r := by
  cases hf : t.get? (key r) with
  | none =>
    have := find?_eq_none.1 hf r hr
    simp at this
  | some r' =>
    rw [eq_of_key_eq (get?_mem hf) hr (get?_key hf)]

theorem get?_eq_some_iff : t.get? k = some r ↔ r ∈ t.rows ∧ key r = k := by
  constructor
  · intro h
    exact ⟨get?_mem h, get?_key h⟩
  · rintro ⟨hr, rfl⟩
    exact get?_of_mem hr

theorem get?_eq_none_iff : t.get? k = none ↔ ∀ r ∈ t.rows, key r ≠ k := by
  simp [get?, find?_eq_none]

/-! ## What the updates do to a lookup -/

theorem insert?_eq_some (h : t.insert? r = some t') :
    t.get? (key r) = none ∧ t'.rows = t.rows ++ [r] := by
  unfold insert? at h
  split at h
  · cases h
  rename_i hk
  cases h
  refine ⟨get?_eq_none_iff.2 ?_, rfl⟩
  intro r' hr' he
  exact hk (he ▸ mem_map_of_mem hr')

theorem keys_insert (h : t.insert? r = some t') : t'.keys = t.keys ++ [key r] := by
  unfold keys
  rw [(insert?_eq_some h).2, map_append]
  rfl

theorem get?_insert (h : t.insert? r = some t') (k : κ) :
    t'.get? k = if key r = k then some r else t.get? k := by
  obtain ⟨hnone, hrows⟩ := insert?_eq_some h
  unfold get? at hnone ⊢
  rw [hrows, find?_append]
  split
  · next hk =>
    subst hk
    simp [hnone]
  · next hk => simp [hk]

@[simp] theorem get?_map (t : Table key) (f : ρ → ρ) (hf : ∀ r, key (f r) = key r) (k : κ) :
    (t.map f hf).get? k = (t.get? k).map f := by
  simp only [get?, rows_map, find?_map]
  congr 2
  funext r
  simp [hf]

theorem get?_update (t : Table key) (k : κ) (f : ρ → ρ) (hf : ∀ r, key (f r) = key r)
    (k' : κ) :
    (t.update k f hf).get? k' = if k' = k then (t.get? k').map f else t.get? k' := by
  rw [update, get?_map]
  cases hg : t.get? k' with
  | none => simp
  | some r =>
    have := get?_key hg
    subst this
    by_cases hk : key r = k <;> simp [hk]

theorem get?_update_self {t : Table key} {k : κ} {r : ρ} (h : t.get? k = some r)
    (hf : ∀ r, key (f r) = key r) : (t.update k f hf).get? k = some (f r) := by
  rw [get?_update, if_pos rfl, h]
  rfl

/-! ## Unique indexes -/

/-- No two rows clash: the table meets a unique index. -/
def Distinct (clash : ρ → ρ → Prop) (t : Table key) : Prop :=
  ∀ a ∈ t.rows, ∀ b ∈ t.rows, clash a b → a = b

namespace Distinct

variable {clash : ρ → ρ → Prop} {t t' : Table key}

theorem insert (h : Distinct clash t) (hsymm : ∀ a b, clash a b → clash b a)
    (hr : ∀ o ∈ t.rows, clash o r → key o = key r) (hins : t.insert? r = some t') :
    Distinct clash t' := by
  obtain ⟨hfresh, hrows⟩ := insert?_eq_some hins
  have hold : ∀ o ∈ t.rows, ¬ clash o r := fun o ho hc =>
    get?_eq_none_iff.1 hfresh o ho (hr o ho hc)
  intro a ha b hb hab
  rw [hrows, mem_append, mem_singleton] at ha hb
  rcases ha with ha | rfl <;> rcases hb with hb | rfl
  · exact h a ha b hb hab
  · exact absurd hab (hold a ha)
  · exact absurd (hsymm _ _ hab) (hold b hb)
  · rfl

theorem update (h : Distinct clash t) (hsymm : ∀ a b, clash a b → clash b a) {old : ρ}
    (hget : t.get? k = some old) (f : ρ → ρ) (hf : ∀ r, key (f r) = key r)
    (hr : ∀ o ∈ t.rows, clash o (f old) → key o = k) : Distinct clash (t.update k f hf) := by
  -- every row is one that was there, or the row that has been written
  have hrow : ∀ x ∈ (t.update k f hf).rows, (x ∈ t.rows ∧ key x ≠ k) ∨ x = f old := by
    intro x hx
    obtain ⟨o, ho, rfl⟩ := mem_map.1 hx
    split
    · next hk =>
      obtain rfl := eq_of_key_eq ho (get?_mem hget) (hk.trans (get?_key hget).symm)
      exact .inr rfl
    · next hk => exact .inl ⟨ho, hk⟩
  intro a ha b hb hab
  rcases hrow a ha with ⟨ha, hka⟩ | rfl <;> rcases hrow b hb with ⟨hb, hkb⟩ | rfl
  · exact h a ha b hb hab
  · exact absurd (hr a ha hab) hka
  · exact absurd (hr b hb (hsymm _ _ hab)) hkb
  · rfl

omit [DecidableEq κ] in
theorem map (h : Distinct clash t) (f : ρ → ρ) (hf : ∀ r, key (f r) = key r)
    (hr : ∀ a b, clash (f a) (f b) → clash a b) : Distinct clash (t.map f hf) := by
  intro x hx y hy hxy
  obtain ⟨a, ha, rfl⟩ := mem_map.1 hx
  obtain ⟨b, hb, rfl⟩ := mem_map.1 hy
  rw [h a ha b hb (hr a b hxy)]

omit [DecidableEq κ] in
theorem filter (h : Distinct clash t) (p : ρ → Bool) : Distinct clash (t.filter p) :=
  fun a ha b hb => h a (mem_filter.1 ha).1 b (mem_filter.1 hb).1

end Distinct

end Table

/-! ## Tables that have grown -/

/-- `t'` has the rows of `t`, each rewritten by `f`, and new rows behind them. -/
def Table.Grown {ρ κ : Type} {key : ρ → κ} (f : ρ → ρ) (t t' : Table key) : Prop :=
  ∃ new, t'.rows = t.rows.map f ++ new

namespace Table.Grown

variable {ρ κ : Type} {key : ρ → κ} {t t' t'' : Table key} {f f' : ρ → ρ}

theorem refl (t : Table key) : Grown (fun r => r) t t := ⟨[], by simp⟩

theorem congr (h : Grown f t t') (hf : ∀ r ∈ t.rows, f r = f' r) : Grown f' t t' := by
  obtain ⟨new, hnew⟩ := h
  exact ⟨new, by rw [hnew, map_congr_left hf]⟩

theorem key_ne (hkey : ∀ r, key (f r) = key r) {new : List ρ} (hnew : t'.rows = t.rows.map f ++ new)
    {r n : ρ} (hr : r ∈ t.rows) (hn : n ∈ new) : key r ≠ key n := by
  have hnodup := t'.nodup
  rw [hnew, map_append, nodup_append] at hnodup
  refine hnodup.2.2 (key r) ?_ (key n) (mem_map_of_mem hn)
  rw [map_map]
  exact mem_map.2 ⟨r, hr, hkey r⟩

theorem isPrefix_iff (h : Grown f t t') : t.rows <+: t'.rows ↔ ∀ r ∈ t.rows, f r = r := by
  obtain ⟨new, hnew⟩ := h
  rw [hnew]
  constructor
  · intro hpre
    have hshort : t.rows <+: t.rows.map f :=
      prefix_of_prefix_length_le hpre (prefix_append _ _) (by simp)
    have hmap : t.rows.map f = t.rows.map id := by
      rw [map_id]
      exact (hshort.eq_of_length (by simp)).symm
    exact map_inj_left.1 hmap
  intro hall
  rw [map_congr_left hall, map_id']
  exact prefix_append _ _

variable [DecidableEq κ]

theorem insert (h : Grown f t t') {r : ρ} (hins : t'.insert? r = some t'') : Grown f t t'' := by
  obtain ⟨new, hnew⟩ := h
  refine ⟨new ++ [r], ?_⟩
  rw [(insert?_eq_some hins).2, hnew, append_assoc]

theorem update (h : Grown f t t') (k : κ) (g : ρ → ρ) (hg : ∀ r, key (g r) = key r) :
    Grown (fun r => if key (f r) = k then g (f r) else f r) t (t'.update k g hg) := by
  obtain ⟨new, hnew⟩ := h
  refine ⟨new.map fun r => if key r = k then g r else r, ?_⟩
  rw [rows_update, hnew, map_append, map_map]
  rfl

end Table.Grown

/-! ## Tables that are filled from a list -/

/-- Each of the first has a counterpart among the second, and the other way round. -/
def Matched {α β : Type} (R : α → β → Prop) (A : Set α) (B : Set β) : Prop :=
  (∀ a ∈ A, ∃ b ∈ B, R a b) ∧ ∀ b ∈ B, ∃ a ∈ A, R a b

theorem matched_of_forall₂ {α β : Type} {R : α → β → Prop} {l : List α} {l' : List β}
    (h : Forall₂ R l l') : Matched R {a | a ∈ l} {b | b ∈ l'} := by
  induction h with
  | nil => exact ⟨fun _ ha => (nomatch ha), fun _ hb => nomatch hb⟩
  | @cons a b l l' hab _ ih =>
    constructor
    · intro x hx
      rcases mem_cons.1 hx with rfl | hx
      · exact ⟨b, mem_cons_self, hab⟩
      · obtain ⟨y, hy, hxy⟩ := ih.1 x hx
        exact ⟨y, mem_cons_of_mem b hy, hxy⟩
    · intro y hy
      rcases mem_cons.1 hy with rfl | hy
      · exact ⟨a, mem_cons_self, hab⟩
      · obtain ⟨x, hx, hxy⟩ := ih.2 y hy
        exact ⟨x, mem_cons_of_mem a hx, hxy⟩

theorem Matched.comp {α β γ : Type} {R : α → β → Prop} {S : β → γ → Prop} {A : Set α} {B : Set β}
    {C : Set γ} (h : Matched R A B) (h' : Matched S B C) :
    Matched (fun a c => ∃ b, R a b ∧ S b c) A C := by
  constructor
  · intro a ha
    obtain ⟨b, hb, hab⟩ := h.1 a ha
    obtain ⟨c, hc, hbc⟩ := h'.1 b hb
    exact ⟨c, hc, b, hab, hbc⟩
  · intro c hc
    obtain ⟨b, hb, hbc⟩ := h'.2 c hc
    obtain ⟨a, ha, hab⟩ := h.2 b hb
    exact ⟨a, ha, b, hab, hbc⟩

theorem Matched.imp {α β : Type} {R S : α → β → Prop} {A : Set α} {B : Set β}
    (h : Matched R A B) (himp : ∀ a ∈ A, ∀ b ∈ B, R a b → S a b) : Matched S A B :=
  ⟨fun a ha => (h.1 a ha).imp fun b hb => ⟨hb.1, himp a ha b hb.1 hb.2⟩,
    fun b hb => (h.2 b hb).imp fun a ha => ⟨ha.1, himp a ha.1 b hb ha.2⟩⟩

theorem pairwise_of_forall₂ {α β : Type} {R : α → β → Prop} {S : α → α → Prop} {S' : β → β → Prop}
    {l : List α} {l' : List β} (h : Forall₂ R l l') (hl : l.Pairwise S)
    (himp : ∀ a b a' b', R a a' → R b b' → S a b → S' a' b') : l'.Pairwise S' := by
  induction h with
  | nil => exact .nil
  | @cons a a' l l' ha hrest ih =>
    obtain ⟨hall, hl⟩ := pairwise_cons.1 hl
    refine .cons (fun b' hb' => ?_) (ih hl)
    obtain ⟨b, hb, hbb'⟩ := (matched_of_forall₂ hrest).2 b' hb'
    exact himp a b a' b' ha hbb' (hall b hb)

/-- The rows `new` stand behind those of `t`, one for each item, in their order, and under keys
that were drawn as one of the first `draws`. -/
structure Table.Filled {α ρ κ : Type} {key : ρ → κ} (draw : Nat → κ) (R : α → ρ → Prop)
    (t : Table key) (items : List α) (new : List ρ) (t' : Table key) (draws : Nat) : Prop where
  rows : t'.rows = t.rows ++ new
  made : Forall₂ R items new
  drawn : ∀ r ∈ new, ∃ k < draws, key r = draw k

namespace Table.Filled

variable {α ρ κ : Type} {key : ρ → κ} {draw : Nat → κ} {R : α → ρ → Prop} {t t' : Table key}
  {items : List α} {new : List ρ} {n n' : Nat}

theorem nil (t : Table key) (n : Nat) : Filled draw R t [] [] t n :=
  ⟨(append_nil _).symm, .nil, fun _ hr => nomatch hr⟩

theorem insert [DecidableEq κ] (h : Filled draw R t items new t' n)
    (hinj : Function.Injective draw) (hfree : ∀ r ∈ t.rows, ∀ k, key r ≠ draw k) {a : α} {r : ρ}
    (hr : R a r) (hkey : key r = draw n) (hn : n < n') :
    ∃ t'', t'.insert? r = some t'' ∧ Filled draw R t (items ++ [a]) (new ++ [r]) t'' n' := by
  have hnew : key r ∉ t'.rows.map key := by
    rw [hkey, h.rows, mem_map]
    rintro ⟨o, ho, hok⟩
    rcases mem_append.1 ho with ho | ho
    · exact hfree o ho n hok
    · obtain ⟨k, hk, hdrawn⟩ := h.drawn o ho
      exact absurd (hinj (hdrawn.symm.trans hok)) (Nat.ne_of_lt hk)
  refine ⟨_, dif_neg hnew, ?_, rel_append h.made (.cons hr .nil), ?_⟩
  · show t'.rows ++ [r] = _
    rw [h.rows, append_assoc]
  intro o ho
  rcases mem_append.1 ho with ho | ho
  · obtain ⟨k, hk, hdrawn⟩ := h.drawn o ho
    exact ⟨k, Nat.lt_trans hk hn, hdrawn⟩
  · obtain rfl := mem_singleton.1 ho
    exact ⟨n, hn, hkey⟩

end Table.Filled

end Db
