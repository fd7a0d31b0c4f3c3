import Mathlib.Data.List.Infix
import Lcm.Net.Text
import Lcm.Platform

/-!
# The details of an audit event

An event carries a map of details, and what is recorded of it is JSON without credentials: the
guard drops the fields whose names speak of one, at every depth, and cuts long texts. It knows a
nested value by its Go type, and goes into a `map[string]any` and a `[]any` only. What lies in a
map or slice of any other type is recorded as it is.
-/

namespace Lcm.Audit

open List

/-- The Go types of maps: `map[string]any`, `map[string]string` and `sealed.Settings`. -/
inductive MapType where
  | any | strings | settings

/-- The Go types of slices: `[]any`, `[]string` and `[]map[string]any`. -/
inductive SliceType where
  | any | strings | maps

/-- A value of the details: a `scalar` comes with its JSON, if it has one (a `NaN` has none). -/
inductive Detail where
  | str (x : String)
  | scalar (json : Option String)
  | map (type : MapType) (m : List (String × Detail))
  | slice (type : SliceType) (xs : List Detail)

/-- A JSON value: `raw` is a number, a truth value or `null`. -/
inductive Json where
  | raw (text : String)
  | str (x : String)
  | arr (xs : List Json)
  | obj (fields : List (String × Json))

/-! ## The guard -/

def forbidden : List String := ["key", "secret", "token", "password", "private", "csr"]

def forbiddenKey (P : Platform) (k : String) : Bool :=
  forbidden.any fun f => decide (f.toList <:+: (P.toLower k).toList)

/-- The first `n` bytes of a text. JSON has U+FFFD for each byte of a character that was cut. -/
def firstBytes : Nat → List Char → List Char
  | _, [] => []
  | n, c :: cs =>
    if c.utf8Size ≤ n then c :: firstBytes (n - c.utf8Size) cs else List.replicate n '\uFFFD'

/-- A text of at most 256 bytes, or its first 256. -/
def truncate (x : String) : String :=
  if (Net.encode x).length > 256 then String.ofList (firstBytes 256 x.toList) else x

variable {m : List (String × Detail)}

theorem Detail.sizeOf_field_lt {type : MapType} {kv : String × Detail} (h : kv ∈ m) :
    sizeOf kv.2 < sizeOf (Detail.map type m) := by
  obtain ⟨k, v⟩ := kv
  have hlt := sizeOf_lt_of_mem h
  simp only [Prod.mk.sizeOf_spec] at hlt
  simp only [Detail.map.sizeOf_spec]
  omega

theorem Detail.sizeOf_item_lt {type : SliceType} {xs : List Detail} {v : Detail} (h : v ∈ xs) :
    sizeOf v < sizeOf (Detail.slice type xs) := by
  have hlt := sizeOf_lt_of_mem h
  simp only [Detail.slice.sizeOf_spec]
  omega

def guardValue (P : Platform) : Detail → Detail
  | .str x => .str (truncate x)
  | .map .any m => .map .any (m.filterMap fun kv =>
      if forbiddenKey P kv.1 then none else some (kv.1, guardValue P kv.2))
  | .slice .any xs => .slice .any (xs.map (guardValue P))
  | v => v
decreasing_by
  · exact Detail.sizeOf_field_lt ‹_›
  · exact Detail.sizeOf_item_lt ‹_›

/-- What is asked of the names, the texts and the scalars of a value. -/
structure Tests where
  key : String → Bool
  text : String → Bool
  scalar : Option String → Bool

/-- Every name, text and scalar of the value passes. -/
def Detail.every (t : Tests) : Detail → Bool
  | .str x => t.text x
  | .scalar json => t.scalar json
  | .map _ m => (m.map fun kv => t.key kv.1 && kv.2.every t).and
  | .slice _ xs => (xs.map (Detail.every t)).and
decreasing_by
  · exact Detail.sizeOf_field_lt ‹_›
  · exact Detail.sizeOf_item_lt ‹_›

/-- Every scalar has a JSON form. -/
def encodes : Tests := ⟨fun _ => true, fun _ => true, Option.isSome⟩

def Detail.json : Detail → Json
  | .str x => .str x
  | .scalar json => .raw (json.getD "null")
  | .map _ m => .obj (m.map fun kv => (kv.1, kv.2.json))
  | .slice _ xs => .arr (xs.map Detail.json)
decreasing_by
  · exact Detail.sizeOf_field_lt ‹_›
  · exact Detail.sizeOf_item_lt ‹_›

def marshal (v : Detail) : Option Json := if v.every encodes then some v.json else none

/-- `guardDetails`: the loop over the fields is the one `guardValue` has for a map. -/
def guardDetails (P : Platform) (m : List (String × Detail)) : Json :=
  (marshal (guardValue P (.map .any m))).getD (.obj [])

/-! ## What is recorded -/

/-- The name has one of the words in it, in any case. -/
def Speaks (P : Platform) (k : String) : Prop :=
  ∃ w ∈ ["key", "secret", "token", "password", "private", "csr"],
    w.toList <:+: (P.toLower k).toList

/-- At every depth no name speaks of a credential and no text is over 256 characters long. -/
inductive Json.Scrubbed (P : Platform) : Json → Prop where
  | raw (text : String) : Scrubbed P (.raw text)
  | str {x : String} (short : x.length ≤ 256) : Scrubbed P (.str x)
  | arr {xs : List Json} (items : ∀ x ∈ xs, x.Scrubbed P) : Scrubbed P (.arr xs)
  | obj {fields : List (String × Json)} (names : ∀ kv ∈ fields, ¬ Speaks P kv.1)
      (values : ∀ kv ∈ fields, kv.2.Scrubbed P) : Scrubbed P (.obj fields)

/-- What the guard keeps of the value passes: it leaves names out and cuts texts, but only in a
`map[string]any` and a `[]any`. -/
def Detail.kept (P : Platform) (t : Tests) : Detail → Bool
  | .str _ => true
  | .map .any m => (m.map fun kv => forbiddenKey P kv.1 || kv.2.kept P t).and
  | .slice .any xs => (xs.map (Detail.kept P t)).and
  | v => v.every t
decreasing_by
  · exact Detail.sizeOf_field_lt ‹_›
  · exact Detail.sizeOf_item_lt ‹_›

/-- No name speaks of a credential and no text is long. -/
def harmless (P : Platform) : Tests :=
  ⟨fun k => !forbiddenKey P k, fun x => x.length ≤ 256, fun _ => true⟩

variable {P : Platform} {t : Tests}

theorem length_firstBytes (n : Nat) (cs : List Char) : (firstBytes n cs).length ≤ n := by
  fun_induction firstBytes n cs with
  | case1 n => exact Nat.zero_le n
  | case2 n c cs hfits ih =>
    have hpos := c.utf8Size_pos
    simp only [length_cons]
    omega
  | case3 n c cs hcut => exact Nat.le_of_eq length_replicate

theorem length_le_length_encode (x : String) : x.length ≤ (Net.encode x).length := by
  rw [← String.length_toList, Net.encode]
  induction x.toList with
  | nil => exact Nat.le_refl 0
  | cons c cs ih =>
    have hpos := length_pos_iff.2 (String.utf8EncodeChar_ne_nil (c := c))
    simp only [flatMap_cons, length_append, length_cons]
    omega

theorem length_truncate (x : String) : (truncate x).length ≤ 256 := by
  unfold truncate
  split
  · rw [String.length_ofList]
    exact length_firstBytes 256 x.toList
  · have := length_le_length_encode x
    omega

theorem forbiddenKey_iff {k : String} : forbiddenKey P k = true ↔ Speaks P k := by
  simp only [forbiddenKey, forbidden, Speaks, any_eq_true, decide_eq_true_eq]

@[simp] theorem every_map {type : MapType} : (Detail.map type m).every t = true ↔
      ∀ kv ∈ m, t.key kv.1 = true ∧ kv.2.every t = true := by
  simp [Detail.every, List.and]

@[simp] theorem every_slice {type : SliceType} {xs : List Detail} :
    (Detail.slice type xs).every t = true ↔ ∀ v ∈ xs, v.every t = true := by
  simp [Detail.every, List.and]

@[simp] theorem kept_map : (Detail.map .any m).kept P t = true ↔
      ∀ kv ∈ m, forbiddenKey P kv.1 = true ∨ kv.2.kept P t = true := by
  simp [Detail.kept, List.and]

theorem every_guardValue (hkey : ∀ k, forbiddenKey P k ≠ true → t.key k = true)
    (htext : ∀ x, t.text (truncate x) = true) (v : Detail) :
    (guardValue P v).every t = v.kept P t := by
  fun_induction guardValue P v with
  | case1 x => simp only [Detail.every, Detail.kept, htext]
  | case2 m ih =>
    rw [Bool.eq_iff_iff, every_map, kept_map]
    constructor
    · intro h kv hkv
      by_cases hf : forbiddenKey P kv.1 = true
      · exact .inl hf
      · have hout := h (kv.1, guardValue P kv.2) (mem_filterMap.2 ⟨kv, hkv, if_neg hf⟩)
        exact .inr (ih kv hkv ▸ hout.2)
    intro h out hout
    obtain ⟨kv, hkv, hsome⟩ := mem_filterMap.1 hout
    split at hsome
    · cases hsome
    rename_i hf
    cases hsome
    exact ⟨hkey _ hf, (ih kv hkv).trans ((h kv hkv).resolve_left hf)⟩
  | case3 xs ih =>
    rw [Detail.every, Detail.kept, map_map]
    exact congrArg List.and (map_congr_left ih)
  | case4 v hstr hmap hslice => rw [Detail.kept] <;> assumption

theorem scrubbed_json_iff (v : Detail) :
    v.json.Scrubbed P ↔ v.every (harmless P) = true := by
  fun_induction Detail.json v with
  | case1 x =>
    rw [Detail.every]
    exact ⟨fun | .str h => decide_eq_true h, fun h => .str (of_decide_eq_true h)⟩
  | case2 json => exact ⟨fun _ => by rw [Detail.every]; rfl, fun _ => .raw _⟩
  | case3 type m ih =>
    have hname : ∀ k, (harmless P).key k = true ↔ ¬ Speaks P k := fun k => by
      simp [harmless, ← forbiddenKey_iff]
    rw [every_map]
    constructor
    · rintro (_ | _ | _ | ⟨names, values⟩) kv hkv
      exact ⟨(hname _).2 (names _ (mem_map_of_mem hkv)),
        (ih kv hkv).1 (values _ (mem_map_of_mem hkv))⟩
    intro h
    refine .obj (forall_mem_map.2 fun kv hkv => ?_) (forall_mem_map.2 fun kv hkv => ?_)
    · exact (hname _).1 (h kv hkv).1
    · exact (ih kv hkv).2 (h kv hkv).2
  | case4 type xs ih =>
    rw [every_slice]
    constructor
    · rintro (_ | _ | items | _) v hv
      exact (ih v hv).1 (items _ (mem_map_of_mem hv))
    · exact fun h => .arr (forall_mem_map.2 fun v hv => (ih v hv).2 (h v hv))

end Lcm.Audit
