import Mathlib.Data.List.Basic

/-!
# Distinguished names on the screen

`certinfo` prints a name with Go's `pkix.RDNSequence.String`; `parseDN` of the user interface takes
the text apart again for display. Texts are lists of characters: the interface compares its code
units with ASCII only, so the halves of a surrogate pair pass as one.

* `parseDN_printed`: of a name whose types Go prints by name, the interface shows the types and the
  values as they are.
-/

namespace Lcm.Names

open List

/-! ## The printer -/

/-- `pkix.AttributeTypeAndValue`, with the object identifier and a text. -/
structure AttributeTypeAndValue where
  type : List Nat
  value : List Char

def attributeTypeNames : List (List Nat × List Char) :=
  [([2, 5, 4, 6], "C".toList), ([2, 5, 4, 10], "O".toList), ([2, 5, 4, 11], "OU".toList),
    ([2, 5, 4, 3], "CN".toList), ([2, 5, 4, 5], "SERIALNUMBER".toList), ([2, 5, 4, 7], "L".toList),
    ([2, 5, 4, 8], "ST".toList), ([2, 5, 4, 9], "STREET".toList),
    ([2, 5, 4, 17], "POSTALCODE".toList)]

/-- A value with its escapes. A space is escaped at both ends, a `#` in front. -/
def escape : Bool → List Char → List Char
  | _, [] => []
  | first, c :: rest =>
    if c ∈ [',', '+', '"', '\\', '<', '>', ';'] ∨ c = ' ' ∧ (first ∨ rest = []) ∨ c = '#' ∧ first
    then '\\' :: c :: escape false rest
    else c :: escape false rest

/-- One attribute. `marshal` is the DER of the value in hexadecimal, which stands for the values of
other types. -/
def attributeText (marshal : List Char → Option (List Char)) (tv : AttributeTypeAndValue) :
    List Char :=
  let oid := ['.'].intercalate (tv.type.map fun n => n.repr.toList)
  match attributeTypeNames.lookup tv.type, marshal tv.value with
  | some name, _ => name ++ '=' :: escape true tv.value
  | none, some der => oid ++ "=#".toList ++ der
  | none, none => oid ++ '=' :: escape true tv.value

/-- `RDNSequence.String`: the last relative name first. -/
def rdnSequenceText (marshal : List Char → Option (List Char))
    (r : List (List AttributeTypeAndValue)) : List Char :=
  [','].intercalate (r.reverse.map fun rdn => ['+'].intercalate (rdn.map (attributeText marshal)))

/-! ## The parser -/

structure DNPart where
  type : List Char
  label : List Char
  value : List Char

def attrs : List (List Char × List Char) :=
  [("CN", "Common name"), ("O", "Organization"), ("OU", "Organizational unit"), ("L", "Locality"),
    ("ST", "State / province"), ("C", "Country"), ("STREET", "Street"),
    ("POSTALCODE", "Postal code"), ("SERIALNUMBER", "Serial number"), ("DC", "Domain component"),
    ("UID", "User ID"), ("1.2.840.113549.1.9.1", "Email")].map fun x => (x.1.toList, x.2.toList)

/-- The white space and line ends of `String.prototype.trim`. -/
def isSpace (c : Char) : Bool :=
  (9 ≤ c.toNat && c.toNat ≤ 13) || (0x2000 ≤ c.toNat && c.toNat ≤ 0x200A) ||
    [0x20, 0xA0, 0x1680, 0x2028, 0x2029, 0x202F, 0x205F, 0x3000, 0xFEFF].contains c.toNat

def trim (s : List Char) : List Char := ((s.dropWhile isSpace).reverse.dropWhile isSpace).reverse

/-- The value of a hexadecimal digit. -/
def hexDigit? (c : Char) : Option Nat :=
  if '0' ≤ c ∧ c ≤ '9' then some (c.toNat - 48)
  else if 'a' ≤ c ∧ c ≤ 'f' then some (c.toNat - 87)
  else if 'A' ≤ c ∧ c ≤ 'F' then some (c.toNat - 55)
  else none

section Model

variable (toUpperCase : List Char → List Char)

/-- `push`: the text up to the first `=`, if there is any, is the type. -/
def push (cur : List Char) : List DNPart :=
  match cur.takeWhile (· != '='), cur.dropWhile (· != '=') with
  | t :: ts, _ :: value =>
    let type := trim (t :: ts)
    let label := (attrs.lookup (toUpperCase type)).or (attrs.lookup type)
    [⟨type, label.getD type, value⟩]
  | _, _ => []

/-- The loop of `parseDN`: the parts that are still to come, with `cur` read so far. -/
def scan : List Char → List Char → List DNPart
  | cur, [] => push toUpperCase cur
  | cur, '\\' :: a :: b :: rest =>
    match hexDigit? a, hexDigit? b with
    | some x, some y => scan (cur ++ [Char.ofNat (16 * x + y)]) rest
    | _, _ => scan (cur ++ [a]) (b :: rest)
  | cur, ['\\', a] => scan (cur ++ [a]) []
  | cur, c :: rest =>
    if c = ',' ∨ c = '+' then push toUpperCase cur ++ scan [] rest else scan (cur ++ [c]) rest

def parseDN (dn : List Char) : List DNPart := scan toUpperCase [] dn

end Model

/-! ## The round trip -/

variable {up : List Char → List Char} {cur t v : List Char} {c : Char} {k : List DNPart}

theorem scan_separator (hc : c = ',' ∨ c = '+') (cur t : List Char) :
    scan up cur (c :: t) = push up cur ++ scan up [] t := by
  rcases hc with rfl | rfl <;> simp [scan]

theorem scan_plain (h : c ∉ [',', '+', '\\']) (cur t : List Char) :
    scan up cur (c :: t) = scan up (cur ++ [c]) t := by
  simp only [mem_cons, not_mem_nil, or_false, not_or] at h
  obtain ⟨hcomma, hplus, hback⟩ := h
  rw [scan]
  · exact if_neg (not_or.2 ⟨hcomma, hplus⟩)
  · exact fun _ _ _ hc => absurd hc hback
  · exact fun _ hc => absurd hc hback

theorem scan_escaped (h : hexDigit? c = none) (cur t : List Char) :
    scan up cur ('\\' :: c :: t) = scan up (cur ++ [c]) t := by
  cases t with
  | nil => simp [scan]
  | cons b t => rw [scan, h]

theorem scan_name {name : List Char} (h : ∀ c ∈ name, c ∉ [',', '+', '\\']) (cur t : List Char) :
    scan up cur (name ++ t) = scan up (cur ++ name) t := by
  induction name generalizing cur with
  | nil => rw [nil_append, append_nil]
  | cons c name ih =>
    rw [cons_append, scan_plain (h c mem_cons_self),
      ih fun x hx => h x (mem_cons_of_mem _ hx), append_assoc, singleton_append]

theorem scan_escape (first : Bool) (cur v t : List Char) :
    scan up cur (escape first v ++ t) = scan up (cur ++ v) t := by
  induction v generalizing first cur with
  | nil => rw [escape, nil_append, append_nil]
  | cons c v ih =>
    rw [escape]
    split
    · next hesc =>
      -- no character that is escaped is a hexadecimal digit
      have hhex : hexDigit? c = none := by
        simp only [mem_cons, not_mem_nil, or_false] at hesc
        rcases hesc with (rfl | rfl | rfl | rfl | rfl | rfl | rfl) | ⟨rfl, -⟩ | ⟨rfl, -⟩ <;> rfl
      rw [cons_append, cons_append, scan_escaped hhex, ih, append_assoc,
        singleton_append]
    rename_i hplain
    have hc : c ∉ [',', '+', '\\'] := by
      intro hc
      refine hplain (.inl ?_)
      simp only [mem_cons, not_mem_nil, or_false] at hc ⊢
      tauto
    rw [cons_append, scan_plain hc, ih, append_assoc, singleton_append]

/-- A name holds nothing that the parser looks for, and no space. -/
def isPlain (name : List Char) : Bool :=
  name.all (fun c => !([',', '+', '\\', '='].contains c)) && name != [] && trim name == name

theorem name_plain {type : List Nat} {name : List Char}
    (h : attributeTypeNames.lookup type = some name) :
    (∀ c ∈ name, c ∉ [',', '+', '\\', '=']) ∧ name ≠ [] ∧ trim name = name := by
  have hall : (attributeTypeNames.map Prod.snd).all isPlain = true := by decide
  obtain ⟨l₁, l₂, hl, -⟩ := lookup_eq_some_iff.1 h
  have hname := all_eq_true.1 hall name (by simp [hl])
  simp only [isPlain, Bool.and_eq_true, all_eq_true, bne_iff_ne, beq_iff_eq] at hname
  obtain ⟨⟨hplain, hne⟩, htrim⟩ := hname
  refine ⟨fun c hc hmem => ?_, hne, htrim⟩
  simpa [hmem] using hplain c hc

theorem push_attribute {type : List Nat} {name : List Char}
    (h : attributeTypeNames.lookup type = some name) (v : List Char) :
    (push up (name ++ '=' :: v)).map (fun p => (p.type, p.value)) = [(name, v)] := by
  obtain ⟨hplain, hne, htrim⟩ := name_plain h
  have hsign : ∀ c ∈ name, (c != '=') = true := by
    intro c hc
    have := hplain c hc
    simp_all
  obtain ⟨c, cs, rfl⟩ := exists_cons_of_ne_nil hne
  rw [push, takeWhile_append_of_pos hsign, dropWhile_append_of_pos hsign]
  simp [htrim]

/-- The parser comes to the end of a part: what it has read is pushed, and `k` are the parts to
come. -/
def Ends (up : List Char → List Char) (t : List Char) (k : List DNPart) : Prop :=
  ∀ cur, scan up cur t = push up cur ++ k

theorem scan_joined {α : Type} {sep : Char} (hsep : sep = ',' ∨ sep = '+') {f : α → List Char}
    {g : α → List DNPart} {items : List α}
    (h : ∀ a ∈ items, ∀ t k, Ends up t k → scan up [] (f a ++ t) = g a ++ k) (hend : Ends up t k) :
    scan up [] ([sep].intercalate (items.map f) ++ t) = items.flatMap g ++ k := by
  induction items with
  | nil => exact hend []
  | cons a items ih =>
    have hfirst := h a mem_cons_self
    cases items with
    | nil =>
      rw [map_singleton, intercalate_singleton, flatMap_singleton]
      exact hfirst t k hend
    | cons b items =>
      have hrest := ih fun x hx => h x (mem_cons_of_mem _ hx)
      have hsep' : Ends up (sep :: ([sep].intercalate ((b :: items).map f) ++ t))
          ((b :: items).flatMap g ++ k) := by
        intro cur
        rw [scan_separator hsep, hrest]
      rw [map_cons, map_cons, intercalate_cons_cons, ← map_cons]
      simpa using hfirst _ _ hsep'

def typeName (tv : AttributeTypeAndValue) : List Char :=
  (attributeTypeNames.lookup tv.type).getD []

/-- The types and values of a name whose types have names come back in the printed order. -/
theorem parseDN_printed (toUpperCase : List Char → List Char)
    (marshal : List Char → Option (List Char)) (r : List (List AttributeTypeAndValue))
    (hr : ∀ rdn ∈ r, ∀ tv ∈ rdn, (attributeTypeNames.lookup tv.type).isSome = true) :
    (parseDN toUpperCase (rdnSequenceText marshal r)).map (fun p => (p.type, p.value)) =
      r.reverse.flatten.map fun tv => (typeName tv, tv.value) := by
  have hname : ∀ rdn ∈ r.reverse, ∀ tv ∈ rdn,
      attributeTypeNames.lookup tv.type = some (typeName tv) := by
    intro rdn hrdn tv htv
    obtain ⟨name, h⟩ := Option.isSome_iff_exists.1 (hr rdn (mem_reverse.1 hrdn) tv htv)
    rw [typeName, h, Option.getD_some]
  have hparts : parseDN toUpperCase (rdnSequenceText marshal r) = r.reverse.flatMap fun rdn =>
      rdn.flatMap fun tv => push toUpperCase (typeName tv ++ '=' :: tv.value) := by
    rw [parseDN, ← append_nil (rdnSequenceText _ _), rdnSequenceText, scan_joined (.inl rfl)
      (k := []) ?_ (fun cur => by rw [scan, append_nil]), append_nil]
    intro rdn hrdn t k hend
    refine scan_joined (.inr rfl) (fun tv htv t k hend => ?_) hend
    have htext : attributeText marshal tv = typeName tv ++ '=' :: escape true tv.value := by
      rw [attributeText, hname rdn hrdn tv htv]
    have hsafe : ∀ c ∈ typeName tv, c ∉ [',', '+', '\\'] := fun c hc hmem =>
      (name_plain (hname rdn hrdn tv htv)).1 c hc (mem_append_left ['='] hmem)
    rw [htext, append_assoc, scan_name hsafe, nil_append,
      cons_append, scan_plain (by decide), scan_escape, hend, append_assoc,
      singleton_append]
  rw [hparts, map_flatMap, map_flatten]
  refine congrArg flatten (map_congr_left fun rdn hrdn => ?_)
  rw [map_flatMap, map_eq_flatMap]
  exact flatMap_congr fun tv htv => push_attribute (hname rdn hrdn tv htv) tv.value

/-- A name with separators, signs and hexadecimal digits in its values. -/
theorem parseDN_printed_hex :
    (parseDN id (rdnSequenceText (fun _ => none)
      [[⟨[2, 5, 4, 10], "#41+".toList⟩],
        [⟨[2, 5, 4, 3], " a=\\41,".toList⟩, ⟨[2, 5, 4, 7], []⟩]])).map
        (fun p => (p.type, p.value)) =
      [("CN".toList, " a=\\41,".toList), ("L".toList, []), ("O".toList, "#41+".toList)] :=
  parseDN_printed id _ _ (by decide)

end Lcm.Names
