import Lcm.Db.Window

/-!
# Pages of two tables

Someone who looks at the pages of a list sees of each row what is shown of it. Two tables look the
same to them when the rows they get to see look the same, whatever else the tables hold.

* `page_map_eq`: tables whose rows look the same have the same pages.
* `pages_eq_iff`: when part of the rows is known to be the same in both tables, all pages are the
  same just when the other rows that are shown look the same.
-/

namespace Db

open List ListQuery

variable {ρ τ υ Φ : Type} {Q : ListQuery} {r : PageRequest}

/-! ## Tables whose rows look the same -/

section Pages

variable {spec : ListSpec} {id : ρ → Nat} {rows rows' : List ρ} {key key' : String → ρ → SortKey}
  {shown shown' : ρ → τ}

theorem ordered_map_eq (hQ : Q.Lawful) {row row' : ρ → SortRow}
    (hnodup : (rows.map fun x => (row x).id).Nodup)
    (hnodup' : (rows'.map fun x => (row' x).id).Nodup)
    (hrow : ∀ x ∈ rows, ∀ y ∈ rows', shown x = shown' y → row x = row' y)
    (hsame : ∀ v, v ∈ rows.map shown ↔ v ∈ rows'.map shown') :
    (Q.ordered spec r row rows).map shown = (Q.ordered spec r row' rows').map shown' := by
  -- both are sorted by the values and ids that go with what is shown
  let pair : ρ → SortRow × τ := fun x => (row x, shown x)
  let pair' : ρ → SortRow × τ := fun x => (row' x, shown' x)
  have hmem : ∀ v, v ∈ rows.map pair ↔ v ∈ rows'.map pair' := by
    intro v
    simp only [mem_map]
    constructor
    · rintro ⟨x, hx, rfl⟩
      obtain ⟨y, hy, hxy⟩ := mem_map.1 ((hsame _).1 (mem_map_of_mem hx))
      exact ⟨y, hy, Prod.ext (hrow x hx y hy hxy.symm).symm hxy⟩
    rintro ⟨y, hy, rfl⟩
    obtain ⟨x, hx, hxy⟩ := mem_map.1 ((hsame _).2 (mem_map_of_mem hy))
    exact ⟨x, hx, Prod.ext (hrow x hx y hy hxy) hxy⟩
  have hrows : ((Q.ordered spec r row rows).map pair).Perm (rows.map pair) :=
    (sorted_perm _ rows).map pair
  have hrows' : ((Q.ordered spec r row' rows').map pair').Perm (rows'.map pair') :=
    (sorted_perm _ rows').map pair'
  have hperm : (rows.map pair).Perm (rows'.map pair') := by
    refine (perm_ext_iff_of_nodup (Nodup.of_map (fun v => v.1.id) ?_)
      (Nodup.of_map (fun v => v.1.id) ?_)).2 hmem
    · rw [map_map]
      exact hnodup
    · rw [map_map]
      exact hnodup'
  let after : SortRow × τ → SortRow × τ → Prop := fun v w => Q.before r spec w.1 v.1 = false
  have hanti : ∀ v w, v ∈ (Q.ordered spec r row rows).map pair →
      w ∈ (Q.ordered spec r row' rows').map pair' → after v w → after w v → v = w := by
    intro v w hv hw hvw hwv
    obtain ⟨x, hx, rfl⟩ := mem_map.1 (hrows.mem_iff.1 hv)
    obtain ⟨y, hy, rfl⟩ := mem_map.1 ((hmem w).2 (hrows'.mem_iff.1 hw))
    rw [inj_on_of_nodup_map hnodup hx hy (hQ.tie r spec _ _ hwv hvw)]
  have hsorted : ∀ (row : ρ → SortRow) (rows : List ρ),
      (Q.ordered spec r row rows).Pairwise fun x y => Q.before r spec (row y) (row x) = false := by
    intro row rows
    have hsortable : Sortable fun x y => Q.before r spec (row x) (row y) :=
      ⟨fun x y => (hQ.sortable r spec).asymm _ _, fun x y z => (hQ.sortable r spec).trans _ _ _⟩
    exact hsortable.pairwise rows
  have heq := ((hrows.trans hperm).trans hrows'.symm).eq_of_pairwise hanti
    (pairwise_map.2 (hsorted row rows)) (pairwise_map.2 (hsorted row' rows'))
  have hshown := congrArg (List.map Prod.snd) heq
  simpa [pair, pair', Function.comp_def] using hshown

theorem page_map_eq (hQ : Q.Lawful) (hnodup : (rows.map id).Nodup) (hnodup' : (rows'.map id).Nodup)
    (hkey : ∀ f, ∀ x ∈ rows, ∀ y ∈ rows', shown x = shown' y → key f x = key' f y ∧ id x = id y)
    (hsame : ∀ v, v ∈ rows.map shown ↔ v ∈ rows'.map shown') (r : PageRequest) :
    (Q.page spec r key id rows).1.map shown = (Q.page spec r key' id rows').1.map shown' ∧
      (Q.page spec r key id rows).2 = (Q.page spec r key' id rows').2 := by
  have hordered : ∀ r, (Q.ordered spec r (fun x => ⟨fun f => key f x, id x⟩) rows).map shown =
      (Q.ordered spec r (fun x => ⟨fun f => key' f x, id x⟩) rows').map shown' := fun r =>
    ordered_map_eq hQ hnodup hnodup' (fun x hx y hy hxy => by
      rw [funext fun f => (hkey f x hx y hy hxy).1, (hkey "" x hx y hy hxy).2]) hsame
  have hlen : rows.length = rows'.length := by
    have h := congrArg List.length (hordered r)
    simpa only [length_map, length_ordered] using h
  unfold ListQuery.page
  rw [hlen]
  refine ⟨?_, rfl⟩
  dsimp only
  rw [map_take, map_drop, hordered, ← map_drop, ← map_take]

theorem mem_of_pages_eq (hQ : Q.Lawful) (hspec : (spec.fields.lookup spec.default).isSome)
    {view view' : ρ → υ}
    (h : ∀ r, (Q.page spec r key id rows).1.map view = (Q.page spec r key' id rows').1.map view')
    {x : ρ} (hx : x ∈ rows) : ∃ y ∈ rows', view' y = view x := by
  obtain ⟨p, -, hmem⟩ := hQ.exists_mem_page (hQ.valid spec hspec) hx
  have hview := mem_map_of_mem (f := view) hmem
  rw [h] at hview
  obtain ⟨y, hy, heq⟩ := mem_map.1 hview
  exact ⟨y, mem_of_mem_page hy, heq⟩

end Pages

/-! ## What is known to be the same, and what is not -/

/-- The rows of two tables that have a property look the same. -/
def SameShown (rows rows' : List ρ) (p p' : ρ → Prop) (shown shown' : ρ → τ) : Prop :=
  ∀ v, (∃ x ∈ rows, p x ∧ shown x = v) ↔ ∃ x ∈ rows', p' x ∧ shown' x = v

/-- A table as its pages show it: of the rows a filter admits, some are `known` and some are
`beyond` them. -/
structure Showing (ρ τ Φ : Type) where
  rows : List ρ
  key : String → ρ → SortKey
  admits : Φ → ρ → Bool
  shown : ρ → τ
  known : ρ → Prop
  beyond : ρ → Prop

namespace Showing

variable {spec : ListSpec} {id : ρ → Nat}

/-- One page, of whose rows `out` is returned. -/
def page (S : Showing ρ τ Φ) (Q : ListQuery) (spec : ListSpec) (id : ρ → Nat)
    (out : τ → υ) (φ : Φ) (r : PageRequest) : List υ × Nat × PageRequest :=
  let page := Q.page spec r S.key id (S.rows.filter (S.admits φ))
  (page.1.map fun x => out (S.shown x), page.2)

/-- A filter looks at what is shown, which tells the id. -/
structure Lawful (S : Showing ρ τ Φ) (id : ρ → Nat) (ident : τ → Nat) (fits : Φ → τ → Prop) :
    Prop where
  nodup : (S.rows.map id).Nodup
  ident : ∀ x, ident (S.shown x) = id x
  admits : ∀ φ, ∀ x ∈ S.rows, S.admits φ x = true ↔ fits φ (S.shown x) ∧ (S.known x ∨ S.beyond x)
  apart : ∀ x ∈ S.rows, S.known x → ¬ S.beyond x

/-- The tables have the known rows in common, and show them in the same way. -/
structure SameKnown (S S' : Showing ρ τ Φ) : Prop where
  rows : ∀ x, (x ∈ S.rows ∧ S.known x) ↔ (x ∈ S'.rows ∧ S'.known x)
  shown : ∀ x ∈ S.rows, S.known x → S.shown x = S'.shown x

variable {S S' : Showing ρ τ Φ} {ident : τ → Nat} {fits : Φ → τ → Prop} {out : τ → υ}

theorem SameKnown.symm (h : SameKnown S S') : SameKnown S' S where
  rows x := (h.rows x).symm
  shown x hx hknown := by
    obtain ⟨hx', hknown'⟩ := (h.rows x).2 ⟨hx, hknown⟩
    exact (h.shown x hx' hknown').symm

theorem mem_shown (hS : S.Lawful id ident fits) (hS' : S'.Lawful id ident fits)
    (hknown : SameKnown S S')
    (hbeyond : ∀ x ∈ S.rows, S.beyond x → ∃ y ∈ S'.rows, S'.beyond y ∧ S'.shown y = S.shown x)
    {φ : Φ} {v : τ} (hv : v ∈ (S.rows.filter (S.admits φ)).map S.shown) :
    v ∈ (S'.rows.filter (S'.admits φ)).map S'.shown := by
  obtain ⟨x, hx, rfl⟩ := mem_map.1 hv
  obtain ⟨hrow, hadmits⟩ := mem_filter.1 hx
  obtain ⟨hfits, hx'⟩ := (hS.admits φ x hrow).1 hadmits
  rcases hx' with hk | hb
  · obtain ⟨hrow', hk'⟩ := (hknown.rows x).1 ⟨hrow, hk⟩
    have heq := hknown.shown x hrow hk
    refine mem_map.2 ⟨x, mem_filter.2 ⟨hrow', ?_⟩, heq.symm⟩
    exact (hS'.admits φ x hrow').2 ⟨heq ▸ hfits, .inl hk'⟩
  obtain ⟨y, hy, hb', heq⟩ := hbeyond x hrow hb
  refine mem_map.2 ⟨y, mem_filter.2 ⟨hy, ?_⟩, heq⟩
  exact (hS'.admits φ y hy).2 ⟨heq.symm ▸ hfits, .inr hb'⟩

theorem beyond_of_pages_eq (hS : S.Lawful id ident fits) (hS' : S'.Lawful id ident fits)
    (hknown : SameKnown S S') (hQ : Q.Lawful) (hspec : (spec.fields.lookup spec.default).isSome)
    (hout : ∀ v, ∃ φ, fits φ v ∧ ∀ w, fits φ w → out w = out v → w = v)
    (h : ∀ φ r, S.page Q spec id out φ r = S'.page Q spec id out φ r) {x : ρ}
    (hx : x ∈ S.rows) (hb : S.beyond x) : ∃ y ∈ S'.rows, S'.beyond y ∧ S'.shown y = S.shown x := by
  obtain ⟨φ, hfits, honly⟩ := hout (S.shown x)
  have hadmits : x ∈ S.rows.filter (S.admits φ) :=
    mem_filter.2 ⟨hx, (hS.admits φ x hx).2 ⟨hfits, .inr hb⟩⟩
  obtain ⟨y, hy, heq⟩ : ∃ y ∈ S'.rows.filter (S'.admits φ), out (S'.shown y) = out (S.shown x) :=
    mem_of_pages_eq hQ hspec (fun r => congrArg Prod.fst (h φ r)) hadmits
  obtain ⟨hrow, hadm⟩ := mem_filter.1 hy
  obtain ⟨hfits', hy'⟩ := (hS'.admits φ y hrow).1 hadm
  have hshown := honly _ hfits' heq
  refine ⟨y, hrow, ?_, hshown⟩
  -- a known row with the id would be this one
  rcases hy' with hk | hb'
  · obtain ⟨hrow', hk'⟩ := (hknown.rows y).2 ⟨hrow, hk⟩
    have hid : id y = id x := by rw [← hS'.ident, hshown, hS.ident]
    rw [inj_on_of_nodup_map hS.nodup hrow' hx hid] at hk'
    exact absurd hb (hS.apart x hx hk')
  · exact hb'

/-- With the known rows in common, all pages of two tables are the same just when the other rows
that are shown look the same. -/
theorem pages_eq_iff (spec : ListSpec) (out : τ → υ) (hQ : Q.Lawful)
    (hS : S.Lawful id ident fits) (hS' : S'.Lawful id ident fits) (hknown : SameKnown S S')
    (hspec : (spec.fields.lookup spec.default).isSome)
    (hkey : ∀ f, ∀ x ∈ S.rows, S.known x ∨ S.beyond x → ∀ y ∈ S'.rows, S'.known y ∨ S'.beyond y →
      S.shown x = S'.shown y → S.key f x = S'.key f y)
    (hout : ∀ v, ∃ φ, fits φ v ∧ ∀ w, fits φ w → out w = out v → w = v) :
    (∀ φ r, S.page Q spec id out φ r = S'.page Q spec id out φ r) ↔
      SameShown S.rows S'.rows S.beyond S'.beyond S.shown S'.shown := by
  constructor
  · intro h v
    constructor
    · rintro ⟨x, hx, hb, rfl⟩
      exact beyond_of_pages_eq hS hS' hknown hQ hspec hout h hx hb
    · rintro ⟨x, hx, hb, rfl⟩
      exact beyond_of_pages_eq hS' hS hknown.symm hQ hspec hout (fun φ r => (h φ r).symm) hx hb
  intro hbeyond φ r
  have hsame : ∀ v, v ∈ (S.rows.filter (S.admits φ)).map S.shown ↔
      v ∈ (S'.rows.filter (S'.admits φ)).map S'.shown := fun v =>
    ⟨mem_shown hS hS' hknown fun x hx hb => (hbeyond _).1 ⟨x, hx, hb, rfl⟩,
      mem_shown hS' hS hknown.symm fun x hx hb => (hbeyond _).2 ⟨x, hx, hb, rfl⟩⟩
  have hkeys : ∀ f, ∀ x ∈ S.rows.filter (S.admits φ), ∀ y ∈ S'.rows.filter (S'.admits φ),
      S.shown x = S'.shown y → S.key f x = S'.key f y ∧ id x = id y := by
    intro f x hx y hy heq
    obtain ⟨hx, hxa⟩ := mem_filter.1 hx
    obtain ⟨hy, hya⟩ := mem_filter.1 hy
    refine ⟨hkey f x hx ((hS.admits φ x hx).1 hxa).2 y hy ((hS'.admits φ y hy).1 hya).2 heq, ?_⟩
    rw [← hS.ident, heq, hS'.ident]
  have hnodup := hS.nodup.sublist (filter_sublist (p := S.admits φ) |>.map id)
  have hnodup' := hS'.nodup.sublist (filter_sublist (p := S'.admits φ) |>.map id)
  obtain ⟨hitems, hrest⟩ : _ ∧ _ := page_map_eq hQ hnodup hnodup' hkeys
    hsame r
  have hviews := congrArg (List.map out) hitems
  rw [map_map, map_map] at hviews
  exact Prod.ext hviews hrest

end Showing

end Db
