import Lcm.Issue.Issuers
import Lcm.Net.Url

/-!
# The depth of a document

`DecodeBounded` of `backup.go` refuses a document that nests too deep before it decodes anything.
`depth` goes over the bytes once and tells strings from the rest by quotes and backslashes alone.

* `Json`: the texts of JSON, with how deep their arrays and objects nest.
* `depth_exact`: of a JSON text `depth` returns this number, whatever its strings hold.
* `deep_too_large`: a document may be deep and refused for its size.
-/

namespace Lcm.Transfer

open Net List

/-! ## The scan -/

def quote : UInt8 := 0x22

def backslash : UInt8 := 0x5c

def opens (b : UInt8) : Bool := b == 0x7b || b == byte '['

def closes (b : UInt8) : Bool := b == 0x7d || b == byte ']'

/-- The variables of `depth`. -/
structure Scan where
  d : Int
  max : Int
  inStr : Bool
  esc : Bool

def Scan.next (s : Scan) (b : UInt8) : Scan :=
  if s.esc then { s with esc := false }
  else if s.inStr && b == backslash then { s with esc := true }
  else if b == quote then { s with inStr := !s.inStr }
  else if s.inStr then s
  else if opens b then { s with d := s.d + 1, max := if s.d + 1 > s.max then s.d + 1 else s.max }
  else if closes b then { s with d := s.d - 1 }
  else s

def depth (raw : Bytes) : Int := (raw.foldl Scan.next ⟨0, 0, false, false⟩).max

def maxBytes : Nat := 16 * 2 ^ 20

def maxDepth : Nat := 12

def maxItems : Nat := 250000

/-- Why a document is refused. -/
inductive Refusal where
  | tooLarge
  | nesting
  | notJSON
  | schema (line : String)
  | fields (text : String)
  | items
  | trustDomain (index : Nat)

def Refusal.text : Refusal → String
  | tooLarge => "transfer: document too large"
  | nesting => "transfer: invalid document: nesting too deep"
  | notJSON => "transfer: invalid document: not JSON"
  | schema text | fields text => "transfer: invalid document: " ++ text
  | items => "transfer: invalid document: more than 250000 items"
  | trustDomain i => "transfer: invalid document: issuers[" ++ toString i ++ "].trust_domain"

/-- `encoding/json`, and the schema of a backup with the first line of its error. -/
structure Decoder where
  unmarshals : Bytes → Bool
  schemaError : Bytes → Option String
  decode : Bytes → Except String Document

def decodeBounded (D : Decoder) (raw : Bytes) : Except Refusal Document :=
  if raw.length > maxBytes then .error .tooLarge
  else if depth raw > maxDepth then .error .nesting
  else if !D.unmarshals raw then .error .notJSON
  else match D.schemaError raw, D.decode raw with
    | some line, _ => .error (.schema line)
    | none, .error text => .error (.fields text)
    | none, .ok doc =>
      if doc.issuers.length + doc.certificates.length + doc.permissions.length +
          doc.secrets.length > maxItems then .error .items
      else match doc.issuers.findIdx? fun di =>
          !Issue.validIssuerTrustDomain di.type di.trustDomain with
        | some i => .error (.trustDomain i)
        | none => .ok doc

/-! ## The texts of JSON -/

def Spaces (s : Bytes) : Prop := ∀ b ∈ s, b ∈ [0x20, 0x09, 0x0a, 0x0d]

def Digits (s : Bytes) : Prop := s ≠ [] ∧ ∀ b ∈ s, isDigit b = true

/-- Nothing, or one of the signs and digits. -/
def Tail (signs : List String) (s : Bytes) : Prop :=
  s = [] ∨ ∃ sign ∈ signs, ∃ ds, Digits ds ∧ s = ascii sign ++ ds

/-- An integer without leading zeros, a fraction and an exponent. -/
def Number (s : Bytes) : Prop :=
  ∃ sign ∈ ["", "-"], ∃ int frac exp, s = ascii sign ++ int ++ frac ++ exp ∧
    (int = ascii "0" ∨ Digits int ∧ int.head? ≠ some (byte '0')) ∧ Tail ["."] frac ∧
    Tail ["e", "E", "e+", "E+", "e-", "E-"] exp

/-- What stands between the quotes of a string. -/
inductive Chars : Bytes → Prop where
  | nil : Chars []
  | plain (hb : 0x20 ≤ b) (hquote : b ≠ quote) (hback : b ≠ backslash) (h : Chars s) :
      Chars (b :: s)
  | escape (hb : b ∈ quote :: backslash :: ascii "/bfnrt") (h : Chars s) :
      Chars (backslash :: b :: s)
  | unicode (hlen : 4 ≤ s.length) (hhex : ∀ d ∈ s.take 4, isHex d = true)
      (h : Chars s) : Chars (backslash :: byte 'u' :: s)

/-- A value, or what stands between the brackets of one that is not empty. -/
inductive Part where
  | value
  | elements
  | members

def Part.brackets? : Part → Option (UInt8 × UInt8)
  | value => none
  | elements => some (byte '[', byte ']')
  | members => some (0x7b, 0x7d)

/-- The texts of JSON, with their depth. -/
inductive Json : Part → Bytes → Nat → Prop where
  | literal (h : s ∈ [ascii "true", ascii "false", ascii "null"]) : Json .value s 0
  | number (h : Number s) : Json .value s 0
  | string (h : Chars s) : Json .value (quote :: s ++ [quote]) 0
  | empty {p : Part} (hp : p.brackets? = some (o, c)) (hw : Spaces w) : Json .value (o :: w ++ [c]) 1
  | nested {p : Part} (hp : p.brackets? = some (o, c)) (h : Json p s n) :
      Json .value (o :: s ++ [c]) (n + 1)
  | spaced (hw : Spaces w) (hv : Spaces v) (h : Json .value s n) :
      Json .value (w ++ s ++ v) n
  | element (h : Json .value s n) : Json .elements s n
  | member (hw : Spaces w) (hv : Spaces v) (hk : Chars k)
      (h : Json .value s n) : Json .members (w ++ (quote :: k ++ [quote]) ++ v ++ byte ':' :: s) n
  | more (hp : p ≠ .value) (h : Json p s n) (h' : Json p t m) :
      Json p (s ++ byte ',' :: t) (max n m)

/-! ## The scan of a JSON text -/

variable {s t : Bytes} {n : Nat} {p : Part} {o c : UInt8}

/-- The scan goes over the text and has measured its depth. -/
def Measures (s : Bytes) (n : Nat) : Prop :=
  ∀ d m : Int, d ≤ m → s.foldl Scan.next ⟨d, m, false, false⟩ = ⟨d, max m (d + n), false, false⟩

/-- The byte means nothing to the scan outside of a string. -/
def neutral (b : UInt8) : Bool := b != quote && !opens b && !closes b

theorem measures_neutral (h : s.all neutral = true) : Measures s 0 := by
  intro d m hd
  induction s with
  | nil => simp [max_eq_left hd]
  | cons b s ih =>
    obtain ⟨hb, hs⟩ := Bool.and_eq_true_iff.1 h
    simp only [neutral, Bool.and_eq_true, bne_iff_ne, Bool.not_eq_true'] at hb
    have hnext : Scan.next ⟨d, m, false, false⟩ b = ⟨d, m, false, false⟩ := by
      simp [Scan.next, hb]
    rw [foldl_cons, hnext]
    exact ih hs

theorem measures_spaces (h : Spaces s) : Measures s 0 := by
  have hall : ([0x20, 0x09, 0x0a, 0x0d] : Bytes).all neutral = true := by decide
  exact measures_neutral (all_eq_true.2 fun b hb => all_eq_true.1 hall b (h b hb))

theorem Measures.append {k : Nat} (hs : Measures s n) (ht : Measures t k) :
    Measures (s ++ t) (max n k) := by
  intro d m hd
  rw [foldl_append, hs d m hd, ht d _ (by omega)]
  congr 1
  omega

set_option maxRecDepth 100000 in
theorem measures_digits (h : Digits s) : Measures s 0 := by
  have hdigit : ∀ b, isDigit b = true → neutral b = true := forall_byte (by decide)
  exact measures_neutral (all_eq_true.2 fun b hb => hdigit b (h.2 b hb))

theorem measures_tail {signs : List String} (h : Tail signs s)
    (hsigns : (signs.all fun sign => (ascii sign).all neutral) = true) : Measures s 0 := by
  rcases h with rfl | ⟨sign, hsign, ds, hds, rfl⟩
  · exact measures_neutral rfl
  · exact (measures_neutral (all_eq_true.1 hsigns sign hsign)).append (measures_digits hds)

theorem measures_number (h : Number s) : Measures s 0 := by
  obtain ⟨sign, hsign, int, frac, exp, rfl, hint, hfrac, hexp⟩ := h
  have hsigns : (["", "-"].all fun sign => (ascii sign).all neutral) = true := by decide
  have hmint : Measures int 0 := by
    rcases hint with rfl | ⟨hds, -⟩
    · exact measures_neutral (by decide)
    · exact measures_digits hds
  exact (((measures_neutral (all_eq_true.1 hsigns sign hsign)).append hmint).append
    (measures_tail hfrac (by decide))).append (measures_tail hexp (by decide))

theorem scan_chars (h : Chars s) (d m : Int) :
    s.foldl Scan.next ⟨d, m, true, false⟩ = ⟨d, m, true, false⟩ := by
  induction h with
  | nil => rfl
  | plain _ hquote hback _ ih =>
    rw [foldl_cons]
    simpa [Scan.next, hquote, hback] using ih
  | escape _ _ ih | unicode _ _ _ ih => exact ih

theorem measures_string (h : Chars s) : Measures (quote :: s ++ [quote]) 0 := by
  intro d m hd
  rw [foldl_append]
  show foldl Scan.next (foldl Scan.next ⟨d, m, true, false⟩ s) [quote] = _
  rw [scan_chars h, Nat.cast_zero, add_zero, max_eq_left hd]
  rfl

theorem measures_nested (hp : p.brackets? = some (o, c)) (h : Measures s n) :
    Measures (o :: s ++ [c]) (n + 1) := by
  intro d m hd
  have hopen : Scan.next ⟨d, m, false, false⟩ o =
      ⟨d + 1, if d + 1 > m then d + 1 else m, false, false⟩ := by
    cases p <;> cases hp <;> rfl
  have hclose : ∀ m : Int, Scan.next ⟨d + 1, m, false, false⟩ c = ⟨d + 1 - 1, m, false, false⟩ := by
    cases p <;> cases hp <;> exact fun _ => rfl
  simp only [foldl_append, foldl_cons, foldl_nil, hopen]
  rw [h _ _ (by omega), hclose]
  simp only [Scan.mk.injEq, and_true]
  omega

theorem measures_json (h : Json p s n) : Measures s n := by
  induction h with
  | literal h =>
    have hall : ([ascii "true", ascii "false", ascii "null"].all fun s => s.all neutral) = true := by
      decide
    exact measures_neutral (all_eq_true.1 hall _ h)
  | number h => exact measures_number h
  | string h => exact measures_string h
  | empty hp hw => exact measures_nested hp (measures_spaces hw)
  | nested hp _ ih => exact measures_nested hp ih
  | spaced hw hw' _ ih => simpa using ((measures_spaces hw).append ih).append (measures_spaces hw')
  | element _ ih => exact ih
  | member hw hw' hk _ ih =>
    have hcolon : Measures [byte ':'] 0 := measures_neutral (by decide)
    simpa using (((measures_spaces hw).append (measures_string hk)).append
      (measures_spaces hw')).append (hcolon.append ih)
  | more _ _ _ ih ih' =>
    have hcomma : Measures [byte ','] 0 := measures_neutral (by decide)
    simpa using ih.append (hcomma.append ih')

/-- Of a JSON text `depth` returns the depth, and a document is refused for its nesting just when
it is not too large and its depth is over the limit. -/
theorem depth_exact (h : Json .value s n) (D : Decoder) :
    depth s = n ∧ (decodeBounded D s = .error .nesting ↔ s.length ≤ maxBytes ∧ maxDepth < n) := by
  have hdepth : depth s = n := by
    unfold depth
    rw [measures_json h 0 0 (Int.le_refl 0)]
    simp
  refine ⟨hdepth, ?_⟩
  unfold decodeBounded
  rw [hdepth]
  split
  · simp; omega
  split
  · simp; omega
  refine iff_of_false (fun hrefused => ?_) (by omega)
  split at hrefused
  · cases hrefused
  split at hrefused
  · cases hrefused
  · cases hrefused
  split at hrefused
  · cases hrefused
  · split at hrefused <;> cases hrefused

theorem json_of_depth (n : Nat) : ∃ s, Json .value s n := by
  induction n with
  | zero => exact ⟨ascii "null", .literal (by simp)⟩
  | succ n ih =>
    obtain ⟨s, h⟩ := ih
    exact ⟨_, Json.nested (p := .elements) rfl (.element h)⟩

/-- Of a document over both limits only the size is reported. -/
theorem deep_too_large : ∃ s n, Json .value s n ∧ maxDepth < n ∧
    ∀ D, decodeBounded D s ≠ .error .nesting := by
  obtain ⟨s, h⟩ := json_of_depth 13
  have hspaces : Spaces (replicate (maxBytes + 1) 0x20) := by
    intro b hb
    simp [(mem_replicate.1 hb).2]
  refine ⟨_, 13, .spaced hspaces (v := []) (by simp [Spaces]) h, by decide, fun D => ?_⟩
  unfold decodeBounded
  rw [if_pos (by simp; omega)]
  nofun

/-- An escaped quote and a bracket in a string, before an empty array. -/
theorem depth_exact_string : depth (ascii "[\"\\\"[\", []]") = 2 := by
  have hstring : Json .value (ascii "\"\\\"[\"") 0 :=
    .string (.escape (by decide) (.plain (by decide) (by decide) (by decide) .nil))
  have harray : Json .value (ascii " []") 1 :=
    .spaced (w := ascii " ") (v := []) (by simp [Spaces, ascii, byte]) (by simp [Spaces])
      (.empty (p := .elements) (w := []) rfl (by simp [Spaces]))
  have helements := Json.more (by simp) (.element hstring) (.element harray)
  exact (depth_exact (.nested rfl helements) ⟨fun _ => true, fun _ => none, fun _ => .error ""⟩).1

end Lcm.Transfer
