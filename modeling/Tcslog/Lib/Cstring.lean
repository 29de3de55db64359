import Mathlib.Data.List.TakeWhile

/-!
# Strings that a NUL ends

A string of C is known by a pointer to its first byte and goes as far as the NUL
behind it.  Texts of plain characters, and of such put together with others, are
valid UTF-8.
-/

namespace Tcslog.Lib.Cstring

variable {bytes text rest : List UInt8}

/-- The string that begins where these bytes do: all up to the first NUL. -/
def upToNul (bytes : List UInt8) : List UInt8 :=
  bytes.takeWhile (· ≠ 0)

/-- No byte is a NUL. -/
def NulFree (text : List UInt8) : Prop :=
  ∀ byte ∈ text, byte ≠ 0

/-- A NUL ends a string that has none. -/
@[simp]
theorem upToNul_append (free : NulFree text) : upToNul (text ++ 0 :: rest) = text := by
  rw [upToNul, List.takeWhile_append_of_pos fun byte mem => by simpa using free byte mem,
    List.takeWhile_cons_of_neg (by simp), List.append_nil]

/-- Whether a text is valid UTF-8. -/
def isText (text : List UInt8) : Bool :=
  text.toByteArray.validateUTF8

theorem isText_iff : isText text = true ↔ text.toByteArray.IsValidUTF8 :=
  ByteArray.validateUTF8_eq_true_iff

theorem isText_append (isFront : isText text = true) (isBack : isText rest = true) :
    isText (text ++ rest) = true := by
  rw [isText_iff, List.toByteArray_append] at *
  exact isFront.append isBack

/-- A plain character: one byte in UTF-8, and no NUL. -/
def Plain (byte : UInt8) : Prop :=
  0 < byte ∧ byte < 0x80

instance (byte : UInt8) : Decidable (Plain byte) :=
  inferInstanceAs (Decidable (_ ∧ _))

theorem nulFree_of_plain (plain : ∀ byte ∈ text, Plain byte) : NulFree text :=
  fun byte mem isNul => absurd (plain byte mem).1 (by rw [isNul]; decide)

/-- One plain character is valid UTF-8. -/
theorem isText_singleton {byte : UInt8} (plain : Plain byte) : isText [byte] = true := by
  have small : byte.toNat < 128 := UInt8.lt_iff_toNat_lt.mp plain.2
  have value : byte.toUInt32.toNat = byte.toNat := UInt8.toNat_toUInt32 byte
  let c : Char := ⟨byte.toUInt32, .inl (by rw [value]; omega)⟩
  have encoded : String.utf8EncodeChar c = [byte] := by
    simp only [String.utf8EncodeChar, c, value]
    rw [if_pos (by omega), UInt8.ofNat_toNat]
  rw [isText_iff, ← encoded]
  exact Char.isValidUTF8_toByteArray_utf8EncodeChar

theorem isText_of_plain (plain : ∀ byte ∈ text, Plain byte) : isText text = true := by
  induction text with
  | nil => rfl
  | cons byte text ih =>
      obtain ⟨first, others⟩ := List.forall_mem_cons.mp plain
      rw [← List.singleton_append]
      exact isText_append (isText_singleton first) (ih others)

/-! ## Characters -/

/-- A plain character, as `Plain` is of its byte. -/
def PlainChar (c : Char) : Prop :=
  0 < c.toNat ∧ c.toNat < 128

instance (c : Char) : Decidable (PlainChar c) :=
  inferInstanceAs (Decidable (_ ∧ _))

/-- The bytes of a text in UTF-8. -/
def utf8 (text : List Char) : List UInt8 :=
  text.flatMap String.utf8EncodeChar

/-- A text of plain characters has one byte for each. -/
theorem utf8_of_plain {text : List Char} (plain : ∀ c ∈ text, PlainChar c) :
    utf8 text = text.map (UInt8.ofNat ·.toNat) ∧ ∀ byte ∈ utf8 text, Plain byte := by
  induction text with
  | nil => exact ⟨rfl, fun _ mem => absurd mem List.not_mem_nil⟩
  | cons c text ih =>
      obtain ⟨⟨positive, small⟩, others⟩ := List.forall_mem_cons.mp plain
      obtain ⟨isMap, plains⟩ := ih others
      have encoded : utf8 (c :: text) = UInt8.ofNat c.toNat :: utf8 text := by
        have isPlain : c.val.toNat ≤ 127 := Nat.le_of_lt_succ small
        rw [utf8, List.flatMap_cons, String.utf8EncodeChar, if_pos isPlain]
        rfl
      have value : (UInt8.ofNat c.toNat).toNat = c.toNat := UInt8.toNat_ofNat_of_lt' (small.trans (by decide))
      rw [encoded, isMap, List.map_cons, ← isMap]
      exact ⟨rfl, List.forall_mem_cons.mpr
        ⟨⟨UInt8.lt_iff_toNat_lt.mpr (by rwa [value]), UInt8.lt_iff_toNat_lt.mpr (by rwa [value])⟩, plains⟩⟩

end Tcslog.Lib.Cstring
