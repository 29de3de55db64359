import Mathlib.Data.List.Lex
import Mathlib.Tactic.Ring

/-!
# Texts of fixed-width fields

Texts whose fields have fixed widths compare field by field.  Among the fields
are decimal numbers, padded with zeros.
-/

namespace Tcslog.Lib.Text

section Order

variable {α : Type*} [LT α] [Std.Irrefl (α := α) (· < ·)]

/-- The first place in which two texts of one length differ decides their order. -/
theorem append_lt_append {text text' rest rest' : List α} (length : text.length = text'.length)
    (less : text < text') : text ++ rest < text' ++ rest' := by
  induction text generalizing text' with
  | nil =>
      obtain rfl := List.length_eq_zero_iff.mp length.symm
      exact absurd less (List.lt_irrefl [])
  | cons char text ih =>
      cases text' with
      | nil => contradiction
      | cons char' text' =>
          rw [List.cons_append, List.cons_append, List.cons_lt_cons_iff]
          rcases List.cons_lt_cons_iff.mp less with first | ⟨rfl, rest⟩
          · exact .inl first
          · exact .inr ⟨rfl, ih (Nat.succ.inj length) rest⟩

end Order

/-- Of two numbers the smaller has the smaller quotient, or the smaller remainder. -/
theorem div_lt_or_mod_lt {m n : Nat} (b : Nat) (less : m < n) :
    m / b < n / b ∨ m / b = n / b ∧ m % b < n % b := by
  rcases Nat.lt_or_eq_of_le (Nat.div_le_div_right (c := b) less.le) with quotient | same
  · exact .inl quotient
  · have m_eq := Nat.div_add_mod m b
    have n_eq := Nat.div_add_mod n b
    rw [same] at m_eq
    exact .inr ⟨same, by omega⟩

/-! ## Decimal numbers -/

/-- The `width` low decimal digits of a number. -/
def decimal : Nat → Nat → List Char
  | 0, _ => []
  | width + 1, n => decimal width (n / 10) ++ [Nat.digitChar (n % 10)]

/-- A number in decimal digits, padded with zeros to at least `width` places. -/
def padded (width n : Nat) : List Char :=
  (Nat.toDigits 10 n).leftpad width '0'

@[simp]
theorem length_decimal (width n : Nat) : (decimal width n).length = width := by
  induction width generalizing n with
  | zero => rfl
  | succ width ih => simp [decimal, ih]

theorem decimal_zero (width : Nat) : decimal width 0 = List.replicate width '0' := by
  induction width with
  | zero => rfl
  | succ width ih =>
      rw [decimal, Nat.zero_div, ih, List.replicate_succ']
      rfl

/-- A number that the width holds is padded to exactly that width. -/
theorem padded_eq_decimal {width n : Nat} (fits : n < 10 ^ (width + 1)) :
    padded (width + 1) n = decimal (width + 1) n := by
  induction width generalizing n with
  | zero =>
      rw [padded, Nat.toDigits_of_lt_base (by omega), decimal, Nat.mod_eq_of_lt (by omega)]
      rfl
  | succ width ih =>
      rw [decimal]
      by_cases small : n < 10
      · rw [Nat.div_eq_of_lt small, decimal_zero, Nat.mod_eq_of_lt small, padded,
          Nat.toDigits_of_lt_base small]
        rfl
      · have quotient : n / 10 < 10 ^ (width + 1) := by
          rw [Nat.pow_succ] at fits
          omega
        rw [← ih quotient, padded, padded, Nat.toDigits_of_base_le (by omega) (by omega)]
        simp [List.leftpad]

theorem digitChar_lt {m n : Nat} (less : m < n) (small : n < 10) :
    Nat.digitChar m < Nat.digitChar n := by
  have all : ∀ b : Fin 10, ∀ a : Fin 10, a < b → Nat.digitChar a < Nat.digitChar b := by decide
  exact all ⟨n, small⟩ ⟨m, less.trans small⟩ less

/-- Numbers of one width are ordered as their digits. -/
theorem decimal_lt {width m n : Nat} (less : m < n) (fits : n < 10 ^ width) :
    decimal width m < decimal width n := by
  induction width generalizing m n with
  | zero =>
      rw [Nat.pow_zero] at fits
      omega
  | succ width ih =>
      rw [decimal, decimal]
      rcases div_lt_or_mod_lt 10 less with quotient | ⟨same, remainder⟩
      · apply append_lt_append (by simp)
        apply ih quotient
        rw [Nat.pow_succ] at fits
        omega
      · rw [same]
        apply List.append_left_lt
        rw [List.cons_lt_cons_iff]
        exact .inl (digitChar_lt remainder (Nat.mod_lt _ (by omega)))

/-! ## Numbers by places -/

/-- Two numbers whose texts, of one length, compare as the numbers do. -/
structure Compares (m n : Nat) (text text' : List Char) : Prop where
  lt : m < n → text < text'
  eq : m = n → text = text'
  length : text.length = text'.length

/-- Numbers compare as their texts still do with a further place, of the base `b`. -/
theorem Compares.place {m n r s b width : Nat} {text text' : List Char}
    (texts : Compares m n text text') (separator : Char) (fits : b ≤ 10 ^ width) (r_lt : r < b)
    (s_lt : s < b) :
    Compares (m * b + r) (n * b + s) (text ++ separator :: decimal width r)
      (text' ++ separator :: decimal width s) where
  lt less := by
    rcases Nat.lt_trichotomy m n with first | rfl | more
    · exact append_lt_append texts.length (texts.lt first)
    · rw [texts.eq rfl]
      apply List.append_left_lt
      rw [List.cons_lt_cons_self]
      exact decimal_lt (Nat.lt_of_add_lt_add_left less) (s_lt.trans_le fits)
    · have := Nat.mul_le_mul_right b (Nat.succ_le_of_lt more)
      rw [Nat.succ_mul] at this
      omega
  eq same := by
    have first : m = n := by
      rcases Nat.lt_trichotomy m n with less | same | more
      · have := Nat.mul_le_mul_right b (Nat.succ_le_of_lt less)
        rw [Nat.succ_mul] at this
        omega
      · exact same
      · have := Nat.mul_le_mul_right b (Nat.succ_le_of_lt more)
        rw [Nat.succ_mul] at this
        omega
    rw [first] at same
    rw [texts.eq first, Nat.add_left_cancel same]
  length := by simp [texts.length]

end Tcslog.Lib.Text
