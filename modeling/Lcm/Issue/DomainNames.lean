import Lcm.System
import Mathlib.Data.Finset.Card

/-!
# The names of an order

What `validateACMEDomains` accepts, in terms of the names of its list.

* `DomainName`: the grammar of a name. `Covers`: a wildcard stands for the first label of a name.
* `validateACMEDomains_exact`: a list is accepted just when its names are such names and none covers
  another. The order of the list does not matter, and what is accepted is accepted again as it is.
-/

namespace Lcm.Issue

open List

/-- One to 63 bytes: letters, digits and inner hyphens. -/
def Label (l : List Char) : Prop :=
  l ≠ [] ∧ (String.ofList l).utf8ByteSize ≤ 63 ∧ (∀ c ∈ l, labelChar c = true) ∧
    l.head? ≠ some '-' ∧ l.getLast? ≠ some '-'

/-- Two or more labels between dots, after a wildcard or not. -/
def DomainName (d : String) : Prop :=
  d.utf8ByteSize ≤ 253 ∧ ∃ base, (d.toList = base ∨ d.toList = '*' :: '.' :: base) ∧
    2 ≤ (base.splitOn '.').length ∧ ∀ l ∈ base.splitOn '.', Label l

/-- The wildcard stands for the first label of a name that is none itself. -/
def Covers (wildcard d : String) : Prop :=
  hasPrefix d "*." = false ∧ ∃ label parent, '.' ∉ label ∧ d.toList = label ++ '.' :: parent ∧
    wildcard = "*." ++ String.ofList parent

/-- One to `maxDomains` names of the grammar, none covered by another. -/
def Acceptable (names : Finset String) : Prop :=
  1 ≤ names.card ∧ names.card ≤ maxDomains ∧ (∀ d ∈ names, DomainName d) ∧
    ∀ w ∈ names, ∀ d ∈ names, ¬Covers w d

/-- Lower case names without spaces are left as they are. -/
def KeepsNames (P : Platform) : Prop :=
  ∀ d : String, (∀ c ∈ d.toList, labelChar c = true ∨ c = '.' ∨ c = '*') →
    P.toLower d = d ∧ P.trimSpace d = d

variable (P : Platform)

/-- A name trimmed, in lower case, without one dot at the end. -/
def normalName (d : String) : String := trimDot (P.toLower (P.trimSpace d))

def namesOf (ds : List String) : Finset String := (ds.map (normalName P)).toFinset.erase ""

variable {P} {l s parent : List Char} {d : String} {names ds out : List String}

/-! ## Names -/

theorem labelProblem_eq_empty_iff : labelProblem l = "" ↔ Label l := by
  unfold labelProblem Label
  split
  · next h => simp [h]
  split
  · next h => simp [h, labelChar]
  split
  · exact iff_of_false (by decide) (by omega)
  split
  · exact iff_of_false (by decide) (by tauto)
  cases hbad : l.find? fun c => !labelChar c with
  | none =>
    have hchars : ∀ c ∈ l, labelChar c = true := by simpa using hbad
    exact iff_of_true rfl ⟨‹_›, by omega, hchars, by tauto⟩
  | some c =>
    refine iff_of_false (by dsimp only; split <;> decide) fun hl => ?_
    have hc := find?_some hbad
    rw [hl.2.2.1 c (mem_of_find?_eq_some hbad)] at hc
    cases hc

theorem splitDots_eq (s : List Char) : splitDots s = s.splitOn '.' := by
  induction s with
  | nil => rfl
  | cons c s ih =>
    rw [splitDots, List.splitOn, splitOnP_cons_eq_if_modifyHead, ← List.splitOn, ← ih]
    by_cases hc : c = '.'
    · simp [hc]
    rw [if_neg hc, if_neg (by simpa using hc)]
    cases hw : splitDots s with
    | nil => exact absurd (ih.symm.trans hw) (splitOn_ne_nil _ _)
    | cons w ws => rfl

/-- Every character of a text is a dot or in one of its parts, and behind a dot at the end comes an
empty part. -/
theorem splitDots_parts (s : List Char) : (∀ c ∈ s, c = '.' ∨ ∃ l ∈ splitDots s, c ∈ l) ∧
    (s.getLast? = some '.' → [] ∈ (splitDots s).tail) := by
  induction s with
  | nil => simp
  | cons c s ih =>
    have hlast : (c :: s).getLast? = some '.' → s = [] ∧ c = '.' ∨ s.getLast? = some '.' := by
      cases s <;> simp [getLast?_cons_cons]
    rw [splitDots]
    split
    · next hc =>
      refine ⟨by grind, fun h => ?_⟩
      rcases hlast h with ⟨rfl, -⟩ | h
      · exact mem_singleton_self []
      · exact mem_of_mem_tail (ih.2 h)
    · next hc =>
      cases hw : splitDots s with
      | nil => exact absurd ((splitDots_eq s).symm.trans hw) (splitOn_ne_nil _ _)
      | cons w ws =>
        rw [hw] at ih
        refine ⟨?_, fun h => ih.2 ((hlast h).resolve_left fun h => hc h.2)⟩
        simp only [mem_cons, forall_eq_or_imp, exists_eq_or_imp] at ih ⊢
        refine ⟨.inr (.inl (.inl trivial)), fun x hx => ?_⟩
        have := ih.1 x hx
        tauto

theorem trimWildcard_cases (s : List Char) :
    s = trimWildcard s ∨ s = '*' :: '.' :: trimWildcard s := by
  unfold trimWildcard
  split
  · exact .inr rfl
  · exact .inl rfl

theorem domainProblem_eq_empty_iff : domainProblem d = "" ↔ DomainName d := by
  have hbase : DomainName d ↔ d.utf8ByteSize ≤ 253 ∧
      2 ≤ (splitDots (trimWildcard d.toList)).length ∧
        ∀ l ∈ splitDots (trimWildcard d.toList), Label l := by
    simp only [DomainName, ← splitDots_eq]
    constructor
    · rintro ⟨hsize, base, hbase, hlen, hlabels⟩
      have htrim : trimWildcard d.toList = base := by
        rcases hbase with h | h
        · rw [h]
          refine ((trimWildcard_cases base).resolve_right fun hs => ?_).symm
          -- the star would be a label
          rw [hs] at hlabels
          exact absurd ((hlabels ['*'] (by simp [splitDots])).2.2.1 '*' (by simp)) (by decide)
        · rw [h]
          rfl
      rw [htrim]
      exact ⟨hsize, hlen, hlabels⟩
    · rintro ⟨hsize, hrest⟩
      exact ⟨hsize, _, trimWildcard_cases d.toList, hrest⟩
  rw [hbase]
  unfold domainProblem
  generalize splitDots (trimWildcard d.toList) = ls
  split
  · exact iff_of_false (by decide) (by omega)
  dsimp only
  split
  · exact iff_of_false (by decide) (by omega)
  cases hm : (ls.map labelProblem).find? fun m => m ≠ "" with
  | none =>
    have hall : ∀ l ∈ ls, Label l := by simpa [labelProblem_eq_empty_iff] using hm
    exact iff_of_true rfl ⟨by omega, by omega, hall⟩
  | some m =>
    have hne : m ≠ "" := by simpa using find?_some hm
    refine iff_of_false hne fun h => hne ?_
    obtain ⟨l, hl, rfl⟩ := mem_map.1 (mem_of_find?_eq_some hm)
    exact labelProblem_eq_empty_iff.2 (h.2.2 l hl)

theorem DomainName.normal (hP : KeepsNames P) (h : DomainName d) :
    P.toLower (P.trimSpace d) = d ∧ trimDot d = d := by
  obtain ⟨-, base, hbase, hlen, hlabels⟩ := h
  rw [← splitDots_eq] at hlen hlabels
  obtain ⟨hchars, hlast⟩ := splitDots_parts base
  constructor
  · have hkeeps := hP d fun c hc => ?_
    · rw [hkeeps.2, hkeeps.1]
    have hc : c ∈ base ∨ c = '.' ∨ c = '*' := by
      rcases hbase with h | h <;> rw [h] at hc <;> grind
    rcases hc with hc | hc
    · rcases hchars c hc with hdot | ⟨l, hl, hcl⟩
      · exact .inr (.inl hdot)
      · exact .inl ((hlabels l hl).2.2.1 c hcl)
    · exact .inr hc
  · unfold trimDot
    split
    · next hrev =>
      have hdot : d.toList.getLast? = some '.' := by rw [getLast?_eq_head?_reverse, hrev]; rfl
      refine absurd rfl (hlabels [] (mem_of_mem_tail (hlast ?_))).1
      cases base with
      | nil => simp [splitDots] at hlen
      | cons c base => rcases hbase with h | h <;> simpa [h] using hdot
    · rfl

/-! ## Wildcards -/

theorem afterDot_append (h : '.' ∉ l) : afterDot (l ++ '.' :: parent) = some parent := by
  induction l with
  | nil => rfl
  | cons c l ih =>
    rw [mem_cons, not_or] at h
    rw [cons_append, afterDot, if_neg (Ne.symm h.1), ih h.2]

theorem exists_of_afterDot (h : afterDot s = some parent) :
    ∃ label, '.' ∉ label ∧ s = label ++ '.' :: parent := by
  induction s with
  | nil => cases h
  | cons c s ih =>
    rw [afterDot] at h
    split at h
    · next hc =>
      cases h
      exact ⟨[], not_mem_nil, by rw [hc]; rfl⟩
    · next hc =>
      obtain ⟨label, hdot, rfl⟩ := ih h
      exact ⟨c :: label, by simp [hdot, Ne.symm hc], rfl⟩

theorem coveredBy_isSome_iff : (coveredBy names d).isSome ↔ ∃ w ∈ names, Covers w d := by
  have hcovers : ∀ w, Covers w d ↔ hasPrefix d "*." = false ∧
      ∃ parent, afterDot d.toList = some parent ∧ w = "*." ++ String.ofList parent := by
    refine fun w => and_congr_right fun _ => ⟨?_, ?_⟩
    · rintro ⟨label, parent, hdot, hd, hw⟩
      exact ⟨parent, by rw [hd, afterDot_append hdot], hw⟩
    · rintro ⟨parent, hparent, hw⟩
      obtain ⟨label, hdot, hd⟩ := exists_of_afterDot hparent
      exact ⟨label, parent, hdot, hd, hw⟩
  simp only [hcovers, coveredBy]
  cases afterDot d.toList <;> simp [and_comm]

/-! ## Lists -/

theorem distinctNames_concat (d : String) : distinctNames (names ++ [d]) =
    if d ≠ "" ∧ d ∉ distinctNames names then distinctNames names ++ [d]
    else distinctNames names :=
  foldl_append

theorem distinctNames_spec (names : List String) : (distinctNames names).Nodup ∧
    ∀ d, d ∈ distinctNames names ↔ d ≠ "" ∧ d ∈ names := by
  induction names using reverseRecOn with
  | nil => simp [distinctNames]
  | append_singleton names d ih =>
    rw [distinctNames_concat]
    split
    · next hd =>
      refine ⟨nodup_append.2 ⟨ih.1, by simp, by grind⟩, fun x => ?_⟩
      rw [mem_append, mem_append, ih.2]
      grind
    · next hd =>
      refine ⟨ih.1, fun x => ?_⟩
      rw [mem_append, ih.2]
      grind

theorem distinctNames_eq_self (hnodup : names.Nodup) (hempty : "" ∉ names) :
    distinctNames names = names := by
  induction names using reverseRecOn with
  | nil => rfl
  | append_singleton names d ih =>
    rw [nodup_append] at hnodup
    rw [mem_append, not_or] at hempty
    rw [distinctNames_concat, ih hnodup.1 hempty.1, if_pos]
    grind

theorem toFinset_distinctNames (ds : List String) :
    (distinctNames (ds.map (normalName P))).toFinset = namesOf P ds := by
  ext d
  simp [namesOf, (distinctNames_spec _).2]

theorem validateACMEDomains_ok_iff : validateACMEDomains P ds = .ok out ↔
    distinctNames (ds.map (normalName P)) = out ∧ Acceptable (namesOf P ds) := by
  unfold Acceptable
  rw [← toFinset_distinctNames, toFinset_card_of_nodup (distinctNames_spec _).1]
  unfold validateACMEDomains
  rw [show (ds.map fun d => trimDot (P.toLower (P.trimSpace d))) = ds.map (normalName P) from rfl]
  generalize distinctNames _ = names
  have hbad : (∀ d ∈ names.toFinset, DomainName d) ↔
      names.find? (fun d => domainProblem d ≠ "") = none := by simp [domainProblem_eq_empty_iff]
  have hcov : (∀ w ∈ names.toFinset, ∀ d ∈ names.toFinset, ¬Covers w d) ↔
      names.find? (fun d => (coveredBy names d).isSome) = none := by
    simp only [find?_eq_none, coveredBy_isSome_iff, not_exists, not_and, mem_toFinset]
    exact ⟨fun h d hd w hw => h w hw d hd, fun h w hw d hd => h d hd w hw⟩
  rw [hbad, hcov]
  dsimp only
  generalize names.find? (fun d => domainProblem d ≠ "") = bad
  generalize names.find? (fun d => (coveredBy names d).isSome) = covered
  split
  · simp; omega
  split
  · simp; omega
  cases bad with
  | some d => simp
  | none =>
    cases covered with
    | some d => simp
    | none => simp; omega

/-- A list is accepted just when its names are acceptable. That does not depend on its order, and
what is accepted stays as it is when it is validated again and when the certificate is renewed. -/
theorem validateACMEDomains_exact (hP : KeepsNames P) (ds : List String) :
    ((∃ out, validateACMEDomains P ds = .ok out) ↔ Acceptable (namesOf P ds)) ∧
    (∀ ds', ds.Perm ds' → ((∃ out, validateACMEDomains P ds = .ok out) ↔
      ∃ out, validateACMEDomains P ds' = .ok out)) ∧
    ∀ out, validateACMEDomains P ds = .ok out → out.toFinset = namesOf P ds ∧
      validateACMEDomains P out = .ok out ∧ normaliseDomains P out = out := by
  simp only [validateACMEDomains_ok_iff, exists_eq_left']
  refine ⟨trivial, fun ds' hperm => ?_, ?_⟩
  · have hsame : namesOf P ds = namesOf P ds' := by
      ext d
      simp [namesOf, hperm.mem_iff]
    rw [hsame]
  rintro _ ⟨rfl, hacc⟩
  have hset := toFinset_distinctNames (P := P) ds
  have hnodup := (distinctNames_spec (ds.map (normalName P))).1
  generalize distinctNames _ = out at hset hnodup
  have hout : ∀ d ∈ out, d ∈ namesOf P ds := fun d hd => hset ▸ mem_toFinset.2 hd
  have hself := distinctNames_eq_self hnodup fun h => by simpa [namesOf] using hout "" h
  have hnormal : ∀ d ∈ out, P.toLower (P.trimSpace d) = d ∧ trimDot d = d :=
    fun d hd => (hacc.2.2.1 d (hout d hd)).normal hP
  have hagain : distinctNames (out.map (normalName P)) = out := by
    rw [map_congr_left (g := id) fun d hd => ?_, map_id, hself]
    rw [normalName, (hnormal d hd).1, (hnormal d hd).2, id]
  refine ⟨hset, ⟨hagain, ?_⟩, ?_⟩
  · rwa [← toFinset_distinctNames, hagain, hset]
  · unfold normaliseDomains
    rw [map_congr_left (g := id) fun d hd => (hnormal d hd).1, map_id, hself]

/-- A wildcard and a name it does not cover, which is given twice and once with a dot at the end. -/
theorem validateACMEDomains_exact_two : KeepsNames Sample.platform ∧
    Acceptable (namesOf Sample.platform ["*.a.b", "a.b.", "a.b"]) := by
  have hP : KeepsNames Sample.platform := fun _ _ => ⟨rfl, rfl⟩
  exact ⟨hP, (validateACMEDomains_exact hP _).1.1 ⟨["*.a.b", "a.b"], by decide⟩⟩

end Lcm.Issue
