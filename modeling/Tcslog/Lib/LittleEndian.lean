import Mathlib.Data.List.Basic
import Mathlib.Tactic.Ring

/-!
# Little-endian numbers in byte strings

Numbers of a fixed width are stored least significant byte first.  The codec
is stated for natural numbers and any width; a fixed-width integer is stored
through its value.
-/

namespace Tcslog.Lib.LittleEndian

/-- The `width` low bytes of a number, least significant first. -/
def toLE : Nat → Nat → List UInt8
  | 0, _ => []
  | width + 1, value => UInt8.ofNat value :: toLE width (value / 256)

/-- The number a byte string spells, least significant byte first. -/
def ofLE : List UInt8 → Nat
  | [] => 0
  | byte :: bytes => byte.toNat + 256 * ofLE bytes

@[simp]
theorem length_toLE (width value : Nat) : (toLE width value).length = width := by
  induction width generalizing value with
  | zero => rfl
  | succ width ih => simp [toLE, ih]

/-- Decoding returns the stored number when the width holds it. -/
theorem ofLE_toLE {width value : Nat} (fits : value < 256 ^ width) :
    ofLE (toLE width value) = value := by
  induction width generalizing value with
  | zero =>
      have : value = 0 := by simpa using fits
      simp [toLE, ofLE, this]
  | succ width ih =>
      have rest : value / 256 < 256 ^ width := by
        rw [Nat.pow_succ] at fits
        omega
      simp only [toLE, ofLE, ih rest, UInt8.toNat_ofNat']
      omega

theorem ofLE_lt (bytes : List UInt8) : ofLE bytes < 256 ^ bytes.length := by
  induction bytes with
  | nil => simp [ofLE]
  | cons byte bytes ih =>
      have := byte.toNat_lt
      simp only [ofLE, List.length_cons, Nat.pow_succ]
      omega

/-- Storing a decoded number gives back the bytes. -/
theorem toLE_ofLE (bytes : List UInt8) : toLE bytes.length (ofLE bytes) = bytes := by
  induction bytes with
  | nil => rfl
  | cons byte bytes ih =>
      have small := byte.toNat_lt
      have low : UInt8.ofNat (byte.toNat + 256 * ofLE bytes) = byte := by
        apply UInt8.toNat_inj.mp
        simp only [UInt8.toNat_ofNat']
        omega
      have high : (byte.toNat + 256 * ofLE bytes) / 256 = ofLE bytes := by omega
      simp only [List.length_cons, toLE, ofLE, low, high, ih]

end Tcslog.Lib.LittleEndian
