import Lcm.Db.Order
import Mathlib.Algebra.Order.Group.Nat
import Mathlib.Data.List.Perm.Subperm

/-!
# Paging by a cursor

A listing is read in pages: each query returns the first `limit` rows, in the order of a key,
of those past a cursor, and the cursor moves to the key of the last row seen. Rows that share
the key of the last row of a page but did not fit on it are then skipped.

* `collect`: the loop that reads the pages, until one is shorter than it asks for.
* `Aligned`: rows with equal keys lie on one page.
* `collect_aligned` and `aligned_of_collect`: the loop returns every row if and only if the
  rows are aligned.
-/

namespace Db

open List

variable {ρ : Type} (key : ρ → Int) (limit : Nat) (l : List ρ)

/-- One page: the first `limit` rows in the order of the key, equal keys by `tie`. -/
def page (key : ρ → Int) (tie : ρ → Nat) (limit : Nat) (l : List ρ) : List ρ :=
  (orderBy key tie l).take limit

/-- The rows past the cursor. -/
def past (key : ρ → Int) (c : Int) (l : List ρ) : List ρ := l.filter fun r => c < key r

/-- How many rows come at or before `c`. -/
def upTo (key : ρ → Int) (l : List ρ) (c : Int) : Nat := l.countP fun r => key r ≤ c

/-- How many rows come before `c`. -/
def before (key : ρ → Int) (l : List ρ) (c : Int) : Nat := l.countP fun r => key r < c

/-- Read page after page past the cursor, until a page has none or fewer than `limit` rows;
`query i` is the `i`-th query. No result when `fuel` pages were not enough. -/
def collect (query : Nat → Int → List ρ) : Nat → Nat → Int → Option (List ρ)
  | 0, _, _ => none
  | fuel + 1, i, c =>
    match (query i c).getLast? with
    | none => some []
    | some x =>
      if (query i c).length < limit then some (query i c)
      else (collect query fuel (i + 1) (key x)).map fun rows => query i c ++ rows

theorem collect_succ (query : Nat → Int → List ρ) (fuel i : Nat) (c : Int) :
    collect key limit query (fuel + 1) i c =
      match (query i c).getLast? with
      | none => some []
      | some x =>
        if (query i c).length < limit then some (query i c)
        else (collect key limit query fuel (i + 1) (key x)).map fun rows => query i c ++ rows := rfl

/-- Rows with equal keys lie on one page: the first and the last of them have their places in
the order on the same page. -/
def Aligned (l : List ρ) : Prop :=
  ∀ r ∈ l, before key l (key r) / limit = (upTo key l (key r) - 1) / limit

instance (l : List ρ) : Decidable (Aligned key limit l) := inferInstanceAs (Decidable (∀ _ ∈ _, _))

variable {limit}

/-! ## Counting -/

variable {r : ρ} {c d : Int} {out : List ρ}

theorem before_lt_upTo {l : List ρ} (h : r ∈ l) : before key l (key r) < upTo key l (key r) := by
  induction l with
  | nil => cases h
  | cons x l ih =>
    have hle : before key l (key r) ≤ upTo key l (key r) :=
      countP_mono_left fun y _ hy => by
        simp only [decide_eq_true_eq] at hy ⊢
        omega
    simp only [before, upTo, countP_cons, decide_eq_true_eq] at ih hle ⊢
    rcases mem_cons.1 h with rfl | h
    · simp only [lt_irrefl, if_false, le_refl, if_true]
      omega
    · have := ih h
      split <;> split <;> omega

theorem upTo_le_length (c : Int) : upTo key l c ≤ l.length := countP_le_length

theorem upTo_mono (h : c ≤ d) : upTo key l c ≤ upTo key l d :=
  countP_mono_left fun r _ hr => by
    simp only [decide_eq_true_eq] at hr ⊢
    omega

theorem upTo_le_before (h : c < d) : upTo key l c ≤ before key l d :=
  countP_mono_left fun r _ hr => by
    simp only [decide_eq_true_eq] at hr ⊢
    omega

theorem countP_eq_add {p : ρ → Bool} (h : ∀ r, key r ≤ c → p r = true) :
    l.countP p = upTo key l c + (past key c l).countP p := by
  induction l with
  | nil => rfl
  | cons r l ih =>
    simp only [upTo, past, countP_cons, filter_cons, decide_eq_true_eq] at ih ⊢
    by_cases hr : c < key r
    · have hnot : ¬ key r ≤ c := by omega
      simp only [hr, if_true, countP_cons, hnot, if_false]
      omega
    have hle : key r ≤ c := by omega
    simp only [hr, if_false, hle, if_true, h r hle]
    omega

theorem upTo_eq_add (h : c ≤ d) :
    upTo key l d = upTo key l c + upTo key (past key c l) d :=
  countP_eq_add key l fun _ hr => decide_eq_true (le_trans hr h)

theorem before_eq_add (h : c < d) :
    before key l d = upTo key l c + before key (past key c l) d :=
  countP_eq_add key l fun _ hr => decide_eq_true (lt_of_le_of_lt hr h)

theorem length_eq_upTo_add (c : Int) :
    l.length = upTo key l c + (past key c l).length := by
  simpa using countP_eq_add key (c := c) (p := fun _ => true) l fun _ _ => rfl

theorem past_past (h : c ≤ d) : past key d (past key c l) = past key d l := by
  unfold past
  rw [filter_filter]
  refine filter_congr fun r _ => ?_
  rw [Bool.eq_iff_iff]
  simp only [Bool.and_eq_true, decide_eq_true_eq]
  omega

variable {key} {query : Nat → Int → List ρ}

theorem aligned_iff (hlimit : 0 < limit) {l : List ρ} : Aligned key limit l ↔
    ∀ r ∈ l, ∀ k, ¬ (before key l (key r) < limit * k ∧ limit * k < upTo key l (key r)) := by
  refine forall₂_congr fun r hr => ?_
  have hlt := before_lt_upTo key hr
  generalize before key l (key r) = a at hlt ⊢
  generalize upTo key l (key r) = b at hlt ⊢
  constructor
  · rintro heq k ⟨ha, hb⟩
    have h1 : a / limit < k := (Nat.div_lt_iff_lt_mul hlimit).2 (by rwa [Nat.mul_comm] at ha)
    have h2 : k ≤ (b - 1) / limit := (Nat.le_div_iff_mul_le hlimit).2 (by
      rw [Nat.mul_comm]
      omega)
    omega
  intro h
  by_contra hne
  have hle : a / limit ≤ (b - 1) / limit := Nat.div_le_div_right (by omega)
  refine h ((b - 1) / limit) ⟨?_, ?_⟩
  · have hdiv : a / limit < (b - 1) / limit := by omega
    have hmul := (Nat.div_lt_iff_lt_mul hlimit).1 hdiv
    rwa [Nat.mul_comm] at hmul
  · have hmul := Nat.mul_div_le (b - 1) limit
    omega

/-! ## One page -/

section Page

variable {tie : ρ → Nat} {l : List ρ}

theorem length_page_le : (page key tie limit l).length ≤ limit := by
  unfold page
  rw [length_take]
  omega

theorem page_perm_of_short (h : (page key tie limit l).length < limit) :
    (page key tie limit l).Perm l := by
  have hlen : (orderBy key tie l).length ≤ limit := by
    unfold page at h
    rw [length_take] at h
    omega
  unfold page
  rw [take_of_length_le hlen]
  exact orderBy_perm key tie l

/-- A full page holds rows up to the key of its last row `x`: all those before it, and some of
those with its key. -/
theorem page_split {x : ρ} (h : (page key tie limit l).getLast? = some x) :
    (∃ rest, (l.filter fun r => key r ≤ key x).Perm (page key tie limit l ++ rest)) ∧
      before key l (key x) < (page key tie limit l).length := by
  have hperm := orderBy_perm key tie l
  have hsorted := orderBy_sorted key tie l
  have hsplit : orderBy key tie l = page key tie limit l ++ (orderBy key tie l).drop limit :=
    (take_append_drop limit _).symm
  generalize page key tie limit l = p at h hsplit ⊢
  generalize (orderBy key tie l).drop limit = rest at hsplit
  obtain ⟨init, rfl⟩ := getLast?_eq_some_iff.1 h
  rw [hsplit] at hperm hsorted
  rw [pairwise_append] at hsorted
  obtain ⟨hinit, -, hrest⟩ := hsorted
  rw [pairwise_append] at hinit
  have hfirst : ∀ r ∈ init, key r ≤ key x := fun r hr => hinit.2.2 r hr x (by simp)
  have hlast : ∀ r ∈ rest, key x ≤ key r := fun r hr => hrest x (by simp) r hr
  refine ⟨⟨rest.filter fun r => key r ≤ key x, ?_⟩, ?_⟩
  · have hall : (init ++ [x]).filter (fun r => decide (key r ≤ key x)) = init ++ [x] := by
      refine filter_eq_self.2 fun r hr => ?_
      rcases mem_append.1 hr with hr | hr
      · simpa using hfirst r hr
      · obtain rfl := mem_singleton.1 hr
        simp
    have hfilter := hperm.symm.filter fun r => decide (key r ≤ key x)
    rwa [filter_append, hall] at hfilter
  have hzero : rest.countP (fun r => decide (key r < key x)) = 0 := by
    refine countP_eq_zero.2 fun r hr => ?_
    have := hlast r hr
    simpa using this
  have hcount : before key l (key x) = init.countP fun r => decide (key r < key x) := by
    unfold before
    rw [← hperm.countP_eq, countP_append, countP_append, hzero]
    simp
  have hle : init.countP (fun r => decide (key r < key x)) ≤ init.length :=
    countP_le_length
  simp only [length_append, length_cons, length_nil]
  omega

theorem exists_mem_page_le (hlimit : 0 < limit) (hr : r ∈ l) :
    ∃ x ∈ page key tie limit l, key x ≤ key r := by
  have hsorted := orderBy_sorted key tie l
  have hmem : r ∈ orderBy key tie l := mem_orderBy.2 hr
  unfold page
  cases hl : orderBy key tie l with
  | nil =>
    rw [hl] at hmem
    cases hmem
  | cons x rest =>
    rw [hl] at hmem hsorted
    refine ⟨x, ?_, ?_⟩
    · obtain ⟨n, rfl⟩ : ∃ n, limit = n + 1 := ⟨limit - 1, by omega⟩
      simp
    rcases mem_cons.1 hmem with rfl | hmem
    · exact le_refl _
    · exact (pairwise_cons.1 hsorted).1 r hmem

end Page

/-! ## The loop -/

theorem mem_of_mem_collect {fuel i : Nat} (h : collect key limit query fuel i c = some out)
    (hr : r ∈ out) : ∃ j d, r ∈ query j d := by
  induction fuel generalizing i c out with
  | zero => cases h
  | succ fuel ih =>
    rw [collect_succ] at h
    split at h
    · cases h
      cases hr
    split at h
    · cases h
      exact ⟨i, c, hr⟩
    obtain ⟨rest, hrest, rfl⟩ := Option.map_eq_some_iff.1 h
    rcases mem_append.1 hr with hr | hr
    · exact ⟨i, c, hr⟩
    · exact ih hrest hr

theorem query_subset_collect {fuel i : Nat} (h : collect key limit query fuel i c = some out) :
    query i c ⊆ out := by
  cases fuel with
  | zero => cases h
  | succ fuel =>
    rw [collect_succ] at h
    split at h
    · next hlast =>
      rw [getLast?_eq_none_iff.1 hlast]
      exact nil_subset _
    split at h
    · cases h
      exact List.Subset.refl _
    · obtain ⟨rest, -, rfl⟩ := Option.map_eq_some_iff.1 h
      exact subset_append_left _ _

theorem collect_map {ν : Type} (f : ρ → ν) (stamp : ν → Int) (query : Nat → Int → List ρ)
    (fuel i : Nat) (c : Int) :
    collect stamp limit (fun i c => (query i c).map f) fuel i c =
      (collect (fun r => stamp (f r)) limit query fuel i c).map (List.map f) := by
  induction fuel generalizing i c with
  | zero => rfl
  | succ fuel ih =>
    rw [collect_succ, collect_succ, getLast?_map]
    cases (query i c).getLast? with
    | none => rfl
    | some x =>
      simp only [Option.map_some, length_map, ih]
      split
      · rfl
      · simp [Function.comp_def]

theorem collect_eq_none {inv : Int → Prop}
    (h : ∀ i c, inv c → query i c ≠ [] ∧ ∀ r ∈ query i c, inv (key r)) (fuel i : Nat) (hc : inv c) :
    collect key 0 query fuel i c = none := by
  induction fuel generalizing i c with
  | zero => rfl
  | succ fuel ih =>
    obtain ⟨hne, hinv⟩ := h i c hc
    rw [collect_succ]
    cases hlast : (query i c).getLast? with
    | none => exact absurd (getLast?_eq_none_iff.1 hlast) hne
    | some x => simp [ih (i + 1) (hinv x (mem_of_getLast? hlast))]

/-- From a good cursor every query returns a page of `rows`; the key of a row is a good cursor. -/
structure Listing (key : ρ → Int) (limit : Nat) (rows : List ρ) (query : Nat → Int → List ρ)
    (good : Int → Prop) : Prop where
  limit_pos : 0 < limit
  query_eq : ∀ i c, good c → ∃ tie, query i c = page key tie limit (past key c rows)
  good_key : ∀ r ∈ rows, good (key r)

namespace Listing

variable {rows : List ρ} {query : Nat → Int → List ρ} {good : Int → Prop} {stop : Nat}

theorem past_perm (key : ρ → Int) (rows : List ρ) (h : c ≤ d) :
    (past key c rows).Perm (((past key c rows).filter fun r => key r ≤ d) ++ past key d rows) := by
  have hsplit := filter_append_perm (fun r => decide (key r ≤ d)) (past key c rows)
  have hpast : (past key c rows).filter (fun r => !decide (key r ≤ d)) = past key d rows := by
    rw [← past_past key rows h, past]
    refine filter_congr fun r _ => ?_
    rw [Bool.eq_iff_iff]
    simp
  rw [hpast] at hsplit
  exact hsplit.symm

variable (h : Listing key limit rows query good) (hc : good c)

include h hc

theorem query_eq_nil {i : Nat} {x : ρ} (hshort : (query i c).length < limit)
    (hlast : (query i c).getLast? = some x) (j : Nat) : query j (key x) = [] := by
  obtain ⟨tie, hq⟩ := h.query_eq i c hc
  rw [hq] at hshort hlast
  have hperm := page_perm_of_short hshort
  obtain ⟨hx, hcx⟩ := mem_filter.1 (hperm.mem_iff.1 (mem_of_getLast? hlast))
  have hcx : c < key x := by simpa using hcx
  obtain ⟨⟨rest, hrest⟩, -⟩ := page_split hlast
  have hsplit := ((past_perm key rows hcx.le).trans (hrest.append_right _)).length_eq
  simp only [length_append, hperm.length_eq] at hsplit
  have hnil : past key (key x) rows = [] := List.length_eq_zero_iff.1 (by omega)
  obtain ⟨tie', hq'⟩ := h.query_eq j (key x) (h.good_key x hx)
  rw [hq', hnil]
  exact take_nil

variable (hstop : stop ≤ limit)

include hstop

/-- What one turn of the loop can do: the rows are used up, the page is the last one, or it is
full and the loop goes on from its last row. -/
theorem turn (fuel i : Nat) :
    (past key c rows = [] ∧ collect key stop query (fuel + 1) i c = some []) ∨
    (past key c rows ≠ [] ∧ ∃ p, p.Perm (past key c rows) ∧ p.length < limit ∧
      (0 < fuel → collect key stop query (fuel + 1) i c = some p) ∧
      ∀ out, collect key stop query (fuel + 1) i c = some out → out = p) ∨
    ∃ p x rest, x ∈ rows ∧ p.length = limit ∧
      (past key c rows).Perm (p ++ (rest ++ past key (key x) rows)) ∧
      upTo key rows (key x) = upTo key rows c + limit + rest.length ∧
      before key rows (key x) < upTo key rows c + limit ∧
      collect key stop query (fuel + 1) i c =
        (collect key stop query fuel (i + 1) (key x)).map fun rows => p ++ rows := by
  have hnext := fun x => h.query_eq_nil hc (i := i) (x := x)
  obtain ⟨tie, hq⟩ := h.query_eq i c hc
  have hpos := h.limit_pos
  rw [collect_succ, hq]
  rw [hq] at hnext
  cases hlast : (page key tie limit (past key c rows)).getLast? with
  | none =>
    -- an empty page
    have hnil := getLast?_eq_none_iff.1 hlast
    have hshort : (page key tie limit (past key c rows)).length < limit := by
      rw [hnil]
      exact hpos
    have hperm := page_perm_of_short hshort
    rw [hnil] at hperm
    exact .inl ⟨hperm.nil_eq.symm, rfl⟩
  | some x =>
    have hx := mem_of_getLast? hlast
    have hmem : x ∈ past key c rows :=
      (orderBy_perm key tie _).mem_iff.1 (mem_of_mem_take hx)
    by_cases hshort : (page key tie limit (past key c rows)).length < limit
    · refine .inr (.inl ⟨ne_nil_of_mem hmem, _, page_perm_of_short hshort, hshort, ?_⟩)
      by_cases hend : (page key tie limit (past key c rows)).length < stop
      · simp [hend]
      · -- one more query, which finds nothing
        cases fuel with
        | zero => simp [hend, collect]
        | succ fuel => simp [hend, collect_succ, hnext x hshort hlast]
    have hend : ¬ (page key tie limit (past key c rows)).length < stop :=
      fun hlt => hshort (lt_of_lt_of_le hlt hstop)
    have hlen : (page key tie limit (past key c rows)).length = limit :=
      le_antisymm length_page_le (Nat.le_of_not_lt hshort)
    obtain ⟨⟨rest, hrest⟩, hbefore⟩ := page_split hlast
    obtain ⟨hx, hcx⟩ := mem_filter.1 hmem
    have hcx : c < key x := by simpa using hcx
    refine .inr (.inr ⟨_, x, rest, hx, hlen, ?_, ?_, ?_, ?_⟩)
    · rw [← append_assoc]
      exact (past_perm key rows hcx.le).trans (hrest.append_right _)
    · have hcount := hrest.length_eq
      rw [length_append, hlen] at hcount
      rw [upTo_eq_add key rows hcx.le, Nat.add_assoc, ← hcount, upTo, upTo,
        countP_eq_length_filter (l := past key c rows)]
    · rw [before_eq_add key rows hcx]
      omega
    · simp [hend]

theorem collect_aligned (hal : Aligned key limit rows) (fuel i : Nat) {k : Nat}
    (hfull : upTo key rows c = limit * k)
    (hfuel : (past key c rows).length < fuel) :
    ∃ out, collect key stop query fuel i c = some out ∧ out.Perm (past key c rows) := by
  induction fuel generalizing i c k with
  | zero => omega
  | succ fuel ih =>
    rcases h.turn hc hstop fuel i with ⟨hnil, heq⟩ | ⟨hne, p, hperm, -, heq, -⟩ |
      ⟨p, x, rest, hx, hlen, hperm, hup, hbefore, heq⟩
    · exact ⟨[], heq, by rw [hnil]⟩
    · have hpos := length_pos_iff.2 hne
      exact ⟨p, heq (by omega), hperm⟩
    · -- a row left out would share its key with the last row of a full page
      have hmul : limit * (k + 1) = limit * k + limit := Nat.mul_succ limit k
      obtain rfl : rest = [] := by
        by_contra hne
        have hpos := length_pos_iff.2 hne
        exact (aligned_iff h.limit_pos).1 hal x hx (k + 1) ⟨by omega, by omega⟩
      rw [length_nil] at hup
      have hless : (past key (key x) rows).length < fuel := by
        have hlength := hperm.length_eq
        rw [length_append, nil_append, hlen] at hlength
        have := h.limit_pos
        omega
      obtain ⟨out, hout, hrest⟩ := ih (h.good_key x hx) (i + 1) (k := k + 1) (by omega) hless
      refine ⟨p ++ out, by rw [heq, hout]; rfl, ?_⟩
      exact (hrest.append_left p).trans hperm.symm

theorem length_collect_le (fuel i : Nat)
    (hout : collect key stop query fuel i c = some out) :
    out.length ≤ (past key c rows).length := by
  induction fuel generalizing i c out with
  | zero => cases hout
  | succ fuel ih =>
    rcases h.turn hc hstop fuel i with ⟨hnil, heq⟩ | ⟨-, p, hperm, -, -, heq⟩ |
      ⟨p, x, rest, hx, hlen, hperm, -, -, heq⟩
    · rw [heq] at hout
      cases hout
      exact Nat.zero_le _
    · rw [heq out hout]
      exact hperm.length_eq.le
    rw [heq] at hout
    obtain ⟨out', hout', rfl⟩ := Option.map_eq_some_iff.1 hout
    have hrec := ih (h.good_key x hx) (i + 1) hout'
    have hlength := hperm.length_eq
    simp only [length_append] at hlength ⊢
    omega

/-- If the loop returns as many rows as there are, no page boundary from here on parts rows
with one key. -/
theorem aligned_of_collect (fuel i : Nat) {k : Nat} (hfull : upTo key rows c = limit * k)
    (hout : collect key stop query fuel i c = some out)
    (hlength : (past key c rows).length ≤ out.length) (r : ρ) {m : Nat} (hm : k < m) :
    ¬ (before key rows (key r) < limit * m ∧ limit * m < upTo key rows (key r)) := by
  rintro ⟨hbefore, hafter⟩
  induction fuel generalizing i c k out with
  | zero => cases hout
  | succ fuel ih =>
    have htotal := length_eq_upTo_add key rows c
    have hle := upTo_le_length key rows (key r)
    have hmul : limit * (k + 1) ≤ limit * m := Nat.mul_le_mul_left limit hm
    rw [Nat.mul_succ] at hmul
    rcases h.turn hc hstop fuel i with ⟨hnil, heq⟩ | ⟨-, p, hperm, hshort, -⟩ |
      ⟨p, x, rest, hx, hlen, hperm, hup, -, heq⟩
    · rw [hnil, length_nil] at htotal
      omega
    · have hlen := hperm.length_eq
      omega
    rw [heq] at hout
    obtain ⟨out', hout', rfl⟩ := Option.map_eq_some_iff.1 hout
    have hrec := h.length_collect_le (h.good_key x hx) hstop fuel (i + 1) hout'
    have hsplit := hperm.length_eq
    simp only [length_append] at hlength hsplit
    have hnext : upTo key rows (key x) = limit * (k + 1) := by
      rw [Nat.mul_succ]
      omega
    by_cases hlast : m = k + 1
    · -- this boundary: the page ends with the last row of its key
      subst hlast
      by_cases hr : key r ≤ key x
      · have := upTo_mono key rows hr
        omega
      · have := upTo_le_before key rows (Int.not_le.1 hr)
        omega
    · exact ih (h.good_key x hx) (i + 1) hnext hout' (by omega) (by omega)

/-- From a cursor before all rows the loop returns as many rows as there are only if they are
aligned. -/
theorem aligned_of_all (hall : ∀ r ∈ rows, c < key r) {fuel i : Nat}
    (hout : collect key stop query fuel i c = some out) (hlength : rows.length ≤ out.length) :
    Aligned key limit rows := by
  rw [aligned_iff h.limit_pos]
  intro r _ k
  cases k with
  | zero => simp
  | succ k =>
    refine h.aligned_of_collect hc hstop fuel i (k := 0) ?_ hout ?_ r (Nat.succ_pos k)
    · exact countP_eq_zero.2 fun r hr => by simpa using hall r hr
    · exact (length_filter_le _ _).trans hlength

theorem all_of_aligned (hall : ∀ r ∈ rows, c < key r) (hal : Aligned key limit rows) (i : Nat) :
    ∃ out, collect key stop query (rows.length + 1) i c = some out ∧ out.Perm rows := by
  have hpast : past key c rows = rows := filter_eq_self.2 fun r hr => by simpa using hall r hr
  have hcollect := h.collect_aligned hc hstop hal (rows.length + 1) i (k := 0)
  rw [hpast] at hcollect
  refine hcollect ?_ (Nat.lt_succ_self _)
  exact countP_eq_zero.2 fun r hr => by simpa using hall r hr

end Listing

end Db
