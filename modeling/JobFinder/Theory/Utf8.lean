/-
# Theory.Utf8 -- texts and their UTF-8 bytes

A text is a list of characters, and its UTF-8 encoding the concatenation of the
encodings of these.  `decode` is its partial inverse (`decode_eq_some`): it fails on
bytes that encode no text.

A character below 0x80 is encoded by the one byte of its number.  Any other is encoded
by at least two bytes, none of them below 0x80; so a text is ASCII exactly if its bytes
are (`ascii_encode`).
-/
import Mathlib.Data.List.Basic

namespace JobFinder.Theory.Utf8

set_option autoImplicit false

/-- The UTF-8 encoding of a text. -/
def encode (cs : List Char) : List UInt8 := cs.flatMap String.utf8EncodeChar

/-- The text whose UTF-8 encoding the bytes are, if there is one. -/
def decode (bs : List UInt8) : Option (List Char) := bs.toByteArray.utf8Decode?.map Array.toList

@[simp] theorem encode_nil : encode [] = [] := rfl

@[simp] theorem encode_cons (c : Char) (cs : List Char) :
    encode (c :: cs) = String.utf8EncodeChar c ++ encode cs := rfl

theorem decode_encode (cs : List Char) : decode (encode cs) = some cs := by
  have decoded : cs.utf8Encode.utf8Decode? = some cs.toArray := List.utf8Decode?_utf8Encode
  rw [decode]
  exact congrArg (Option.map Array.toList) decoded

/-- Bytes decode to a text exactly if they are its encoding. -/
theorem decode_eq_some {bs : List UInt8} {cs : List Char} : decode bs = some cs ↔ encode cs = bs := by
  constructor
  · intro decoded
    obtain ⟨found, valid, rfl⟩ := Option.map_eq_some_iff.mp decoded
    have isSome : bs.toByteArray.utf8Decode?.isSome := by rw [valid]; rfl
    obtain ⟨cs', same⟩ := ByteArray.isSome_utf8Decode?_iff.mp isSome
    have encoded : encode cs' = bs := (List.toByteArray_inj.mp same).symm
    subst encoded
    have again := decode_encode cs'
    rw [decode, valid] at again
    rw [Option.some.inj again]
  · rintro rfl
    exact decode_encode cs

/-- A character below 0x80 is its own byte. -/
theorem utf8EncodeChar_of_lt {c : Char} (ascii : c.toNat < 0x80) :
    String.utf8EncodeChar c = [UInt8.ofNat c.toNat] := by
  have small : c.val.toNat ≤ 0x7f := Nat.le_of_lt_succ ascii
  unfold String.utf8EncodeChar
  simp only [small, if_true]
  rfl

/-- Any other character is encoded by at least two bytes, none of them below 0x80. -/
theorem utf8EncodeChar_of_le {c : Char} (wide : 0x80 ≤ c.toNat) :
    2 ≤ (String.utf8EncodeChar c).length ∧ ∀ b ∈ String.utf8EncodeChar c, 0x80 ≤ b.toNat := by
  have large : ¬ c.val.toNat ≤ 0x7f := Nat.not_le_of_gt wide
  unfold String.utf8EncodeChar
  simp only [large, if_false]
  split_ifs <;> simp <;> omega

theorem length_utf8EncodeChar_pos (c : Char) : 1 ≤ (String.utf8EncodeChar c).length := by
  rw [String.length_utf8EncodeChar]
  exact c.utf8Size_pos

/-- A text is ASCII exactly if its bytes are. -/
theorem ascii_encode {cs : List Char} :
    (∀ b ∈ encode cs, b.toNat < 0x80) ↔ ∀ c ∈ cs, c.toNat < 0x80 := by
  unfold encode
  rw [List.forall_mem_flatMap]
  refine forall₂_congr fun c _ => ?_
  by_cases ascii : c.toNat < 0x80
  · rw [utf8EncodeChar_of_lt ascii]
    simp [ascii, Nat.mod_eq_of_lt (Nat.lt_trans ascii (by decide : 0x80 < 256))]
  · obtain ⟨length, large⟩ := utf8EncodeChar_of_le (Nat.le_of_not_lt ascii)
    refine iff_of_false (fun small => ?_) ascii
    obtain ⟨b, member⟩ := List.exists_mem_of_length_pos (by omega : 0 < (String.utf8EncodeChar c).length)
    exact absurd (small b member) (Nat.not_lt_of_le (large b member))

end JobFinder.Theory.Utf8
