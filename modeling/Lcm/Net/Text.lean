import Lcm.Net.Url

/-!
# Texts and bytes

A text and its bytes in UTF-8. A class of bytes that holds none outside of ASCII can be asked of
the characters of the text as well.
-/

namespace Lcm.Net

open List

/-- The bytes of a text. -/
def encode (s : String) : Bytes := s.toList.flatMap String.utf8EncodeChar

/-- The text with these bytes, if they are UTF-8. -/
def decode (b : Bytes) : Option String := String.fromUTF8? b.toByteArray

variable {s : String} {b : Bytes}

theorem toByteArray_encode (s : String) : (encode s).toByteArray = s.toByteArray :=
  String.utf8Encode_toList

theorem decode_eq_some_iff : decode b = some s ↔ b = encode s := by
  unfold decode String.fromUTF8?
  constructor
  · intro h
    split at h
    · have hbytes : b.toByteArray = s.toByteArray := by
        rw [← Option.some.inj h]
        rfl
      rw [← toByteArray_encode] at hbytes
      exact toByteArray_inj.1 hbytes
    · cases h
  rintro rfl
  rw [dif_pos (by rw [toByteArray_encode]; exact s.isValidUTF8)]
  refine congrArg some (String.toByteArray_inj.1 ?_)
  exact toByteArray_encode s

@[simp] theorem decode_encode (s : String) : decode (encode s) = some s :=
  decode_eq_some_iff.2 rfl

theorem encode_inj {t : String} (h : encode s = encode t) : s = t :=
  Option.some.inj ((decode_encode s).symm.trans (h ▸ decode_encode t))

@[simp] theorem encode_empty : encode "" = [] := rfl

theorem encode_eq_nil_iff : encode s = [] ↔ s = "" :=
  ⟨fun h => encode_inj (h.trans encode_empty.symm), fun h => h ▸ encode_empty⟩

theorem length_encode (s : String) : (encode s).length = s.utf8ByteSize := by
  rw [← String.size_toByteArray, ← toByteArray_encode, size_toByteArray]

theorem encode_append (s t : String) : encode (s ++ t) = encode s ++ encode t := by
  simp [encode]

theorem encode_ofList_cons (c : Char) (cs : List Char) :
    encode (String.ofList (c :: cs)) = String.utf8EncodeChar c ++ encode (String.ofList cs) := by
  simp [encode]

/-! ## Classes of bytes -/

theorem utf8EncodeChar_ascii {c : Char} (h : c.toNat ≤ 127) :
    String.utf8EncodeChar c = [UInt8.ofNat c.toNat] := by
  exact if_pos h

theorem exists_text_of_ascii {b : Bytes} (h : ∀ c ∈ b, c < 0x80) : ∃ t, b = encode t := by
  induction b with
  | nil => exact ⟨"", rfl⟩
  | cons c b ih =>
    obtain ⟨t, rfl⟩ := ih fun x hx => h x (mem_cons_of_mem c hx)
    have hc : c.toNat < 128 := h c mem_cons_self
    have hvalid : c.toNat.isValidChar := .inl (by omega)
    have hchar : (Char.ofNat c.toNat).toNat = c.toNat := by
      rw [Char.ofNat, dif_pos hvalid]
      rfl
    refine ⟨String.ofList (Char.ofNat c.toNat :: t.toList), ?_⟩
    rw [encode_ofList_cons, utf8EncodeChar_ascii (by omega), hchar, String.ofList_toList]
    simp

theorem le_of_mem_utf8EncodeChar {c : Char} (h : 127 < c.toNat) {x : UInt8}
    (hx : x ∈ String.utf8EncodeChar c) : 0x80 ≤ x := by
  have hbyte : ∀ n, 128 ≤ n → n < 256 → 0x80 ≤ UInt8.ofNat n := fun n hle hlt => by
    rw [UInt8.le_iff_toNat_le, UInt8.toNat_ofNat', Nat.mod_eq_of_lt hlt]
    exact hle
  have hv : ¬ c.val.toNat ≤ 127 := Nat.not_le.2 h
  simp only [String.utf8EncodeChar, if_neg hv] at hx
  -- a leading byte begins with ones, and those after it with a one
  split at hx
  · simp only [mem_cons, not_mem_nil, or_false] at hx
    obtain rfl | rfl := hx <;> exact hbyte _ (by omega) (by omega)
  split at hx
  · simp only [mem_cons, not_mem_nil, or_false] at hx
    obtain rfl | rfl | rfl := hx <;> exact hbyte _ (by omega) (by omega)
  · simp only [mem_cons, not_mem_nil, or_false] at hx
    obtain rfl | rfl | rfl | rfl := hx <;> exact hbyte _ (by omega) (by omega)

section Classes

variable {p : UInt8 → Bool} {q : Char → Bool}

/-- The byte class `p` and the character class `q` are the same one, and part of ASCII. -/
structure SameClass (p : UInt8 → Bool) (q : Char → Bool) : Prop where
  ascii : ∀ c : Char, c.toNat ≤ 127 → p (UInt8.ofNat c.toNat) = q c
  byte : ∀ x : UInt8, 0x80 ≤ x → p x = false
  char : ∀ c : Char, 127 < c.toNat → q c = false

theorem SameClass.any_char (h : SameClass p q) (c : Char) :
    (String.utf8EncodeChar c).any p = q c := by
  by_cases hc : c.toNat ≤ 127
  · rw [utf8EncodeChar_ascii hc, any_cons, h.ascii c hc]
    exact Bool.or_false _
  rw [h.char c (Nat.not_le.1 hc), any_eq_false]
  intro x hx
  rw [h.byte x (le_of_mem_utf8EncodeChar (Nat.not_le.1 hc) hx)]
  exact Bool.false_ne_true

theorem SameClass.all_char (h : SameClass p q) (c : Char) :
    (String.utf8EncodeChar c).all p = q c := by
  by_cases hc : c.toNat ≤ 127
  · rw [utf8EncodeChar_ascii hc, all_cons, h.ascii c hc]
    exact Bool.and_true _
  obtain ⟨x, xs, hxs⟩ := exists_cons_of_ne_nil (String.utf8EncodeChar_ne_nil (c := c))
  have hx : p x = false :=
    h.byte x (le_of_mem_utf8EncodeChar (Nat.not_le.1 hc) (hxs ▸ mem_cons_self))
  rw [h.char c (Nat.not_le.1 hc), hxs, all_cons, hx]
  rfl

theorem SameClass.any_encode (h : SameClass p q) (s : String) :
    (encode s).any p = s.toList.any q := by
  unfold encode
  rw [any_flatMap]
  exact congrArg (s.toList.any ·) (funext h.any_char)

theorem SameClass.all_encode (h : SameClass p q) (s : String) :
    (encode s).all p = s.toList.all q := by
  unfold encode
  rw [all_flatMap]
  exact congrArg (s.toList.all ·) (funext h.all_char)

end Classes

end Lcm.Net
