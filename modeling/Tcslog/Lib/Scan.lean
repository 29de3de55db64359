import Mathlib.Data.List.DropRight
import Mathlib.Data.List.Infix

/-!
# Taking texts apart

A text is split where a separator first stands, spaces are taken off its ends, and
decimal digits are read as a number.  Each of these undoes putting the parts
together, and says what the text was where it gave a result.
-/

namespace Tcslog.Lib.Scan

/-! ## Separators -/

section Split

variable {α : Type*} [DecidableEq α] {sep text front back : List α} {c : α}

/-- Split a text where a separator first stands. -/
def splitOnce (sep : List α) : List α → Option (List α × List α)
  | [] => if sep = [] then some ([], []) else none
  | c :: cs =>
      if sep.isPrefixOf (c :: cs) then some ([], (c :: cs).drop sep.length)
      else (splitOnce sep cs).map fun parts => (c :: parts.1, parts.2)

theorem splitOnce_of_prefix (back : List α) : splitOnce (c :: sep) (c :: sep ++ back) = some ([], back) := by
  have isPrefix : (c :: sep).isPrefixOf (c :: sep ++ back) = true :=
    List.isPrefixOf_iff_prefix.mpr (List.prefix_append _ _)
  have dropped : (c :: sep ++ back).drop (c :: sep).length = back := List.drop_left
  rw [List.cons_append] at isPrefix dropped ⊢
  rw [splitOnce, if_pos isPrefix, dropped]

theorem splitOnce_cons {d : α} (other : d ≠ c) (text : List α) :
    splitOnce (c :: sep) (d :: text) = (splitOnce (c :: sep) text).map fun parts => (d :: parts.1, parts.2) := by
  have notPrefix : ¬ (c :: sep).isPrefixOf (d :: text) = true := by
    rw [List.isPrefixOf_iff_prefix, List.cons_prefix_cons]
    exact fun both => other both.1.symm
  rw [splitOnce, if_neg notPrefix]

/-- What is before a separator is split from what is behind it, if the first letter
of the separator does not stand before. -/
theorem splitOnce_append (apart : c ∉ front) (back : List α) :
    splitOnce (c :: sep) (front ++ (c :: sep) ++ back) = some (front, back) := by
  induction front with
  | nil => exact splitOnce_of_prefix back
  | cons d front ih =>
      obtain ⟨other, apart⟩ := List.ne_and_not_mem_of_not_mem_cons apart
      rw [List.cons_append, List.cons_append, splitOnce_cons (Ne.symm other), ih apart]
      rfl

theorem splitOnce_of_not_mem (absent : c ∉ text) : splitOnce (c :: sep) text = none := by
  induction text with
  | nil => rfl
  | cons d text ih =>
      obtain ⟨other, absent⟩ := List.ne_and_not_mem_of_not_mem_cons absent
      rw [splitOnce_cons (Ne.symm other), ih absent]
      rfl

/-- Whether a separator stands in a text. -/
def contains (sep text : List α) : Bool :=
  (splitOnce sep text).isSome

/-- The parts with the separator between them are the text. -/
theorem eq_of_splitOnce (split : splitOnce sep text = some (front, back)) : text = front ++ sep ++ back := by
  induction text generalizing front with
  | nil =>
      rw [splitOnce] at split
      split at split
      next none =>
        obtain ⟨rfl, rfl⟩ := Prod.mk.inj (Option.some.inj split)
        rw [none]
        rfl
      next => contradiction
  | cons d text ih =>
      rw [splitOnce] at split
      split at split
      next isPrefix =>
        obtain ⟨rest, same⟩ := List.isPrefixOf_iff_prefix.mp isPrefix
        obtain ⟨rfl, rfl⟩ := Prod.mk.inj (Option.some.inj split)
        rw [← same, List.drop_left, List.nil_append]
      next =>
        obtain ⟨parts, inner, same⟩ := Option.map_eq_some_iff.mp split
        obtain ⟨rfl, rfl⟩ := Prod.mk.inj same
        rw [ih inner]
        rfl

end Split

/-! ## Spaces -/

section Trim

variable {α : Type*} {isSpace : α → Bool} {text front back : List α}

/-- A text without the spaces at its ends. -/
def trim (isSpace : α → Bool) (text : List α) : List α :=
  (text.dropWhile isSpace).rdropWhile isSpace

theorem dropWhile_append_of_all (all : ∀ c ∈ front, isSpace c = true) (text : List α) :
    (front ++ text).dropWhile isSpace = text.dropWhile isSpace := by
  induction front with
  | nil => rfl
  | cons c front ih =>
      rw [List.cons_append, List.dropWhile_cons_of_pos (all c List.mem_cons_self)]
      exact ih fun d mem => all d (List.mem_cons_of_mem _ mem)

theorem rdropWhile_append_of_all (all : ∀ c ∈ back, isSpace c = true) (text : List α) :
    (text ++ back).rdropWhile isSpace = text.rdropWhile isSpace := by
  rw [List.rdropWhile, List.rdropWhile, List.reverse_append]
  congr 1
  apply dropWhile_append_of_all
  simpa using all

/-- Spaces come off both ends of a text that has none. -/
theorem trim_append (before : ∀ c ∈ front, isSpace c = true) (behind : ∀ c ∈ back, isSpace c = true)
    (inside : ∀ c ∈ text, isSpace c = false) : trim isSpace (front ++ text ++ back) = text := by
  have atEnd : text.rdropWhile isSpace = text := by
    rw [List.rdropWhile_eq_self_iff]
    intro some
    rw [inside _ (List.getLast_mem some)]
    exact Bool.false_ne_true
  rw [trim, List.append_assoc, dropWhile_append_of_all before]
  cases text with
  | nil =>
      rw [List.nil_append, List.dropWhile_eq_nil_iff.mpr behind]
      rfl
  | cons c text =>
      rw [List.cons_append, List.dropWhile_cons_of_neg (by simp [inside c List.mem_cons_self]),
        ← List.cons_append, rdropWhile_append_of_all behind, atEnd]

/-- A text is what is left of it between spaces. -/
theorem exists_of_trim (isSpace : α → Bool) (text : List α) : ∃ front back,
    text = front ++ trim isSpace text ++ back ∧ (∀ c ∈ front, isSpace c = true) ∧
      ∀ c ∈ back, isSpace c = true := by
  have ends (text : List α) : text = text.rdropWhile isSpace ++ text.rtakeWhile isSpace := by
    rw [List.rdropWhile, List.rtakeWhile, ← List.reverse_append, List.takeWhile_append_dropWhile,
      List.reverse_reverse]
  refine ⟨text.takeWhile isSpace, (text.dropWhile isSpace).rtakeWhile isSpace, ?_, ?_, ?_⟩
  · rw [List.append_assoc, trim, ← ends, List.takeWhile_append_dropWhile]
  · intro c mem
    exact List.mem_takeWhile_imp mem
  · intro c mem
    exact List.mem_rtakeWhile_imp mem

end Trim

/-! ## Numbers -/

/-- A text without a plus sign before it. -/
def unsigned : List Char → List Char
  | '+' :: rest => rest
  | text => text

/-- The number that decimal digits stand for, a plus sign before them or not, if it is
no more than `max`. -/
def parseUnsigned (max : Nat) (text : List Char) : Option Nat :=
  let digits := unsigned text
  if digits ≠ [] ∧ digits.all Char.isDigit then
    if Nat.ofDigitChars 10 digits 0 ≤ max then some (Nat.ofDigitChars 10 digits 0) else none
  else none

theorem isDigit_toDigits {n : Nat} {c : Char} (mem : c ∈ Nat.toDigits 10 n) : c.isDigit = true :=
  Nat.isDigit_of_mem_toDigits (by decide) (by decide) mem

/-- The text is decimal digits that stand for the number, with a plus sign before them
or not. -/
def Numeral (text : List Char) (n : Nat) : Prop :=
  unsigned text ≠ [] ∧ (∀ c ∈ unsigned text, c.isDigit = true) ∧ Nat.ofDigitChars 10 (unsigned text) 0 = n

theorem parseUnsigned_eq_some_iff {max n : Nat} {text : List Char} :
    parseUnsigned max text = some n ↔ Numeral text n ∧ n ≤ max := by
  simp only [parseUnsigned, Numeral, List.all_eq_true]
  constructor
  · intro parsed
    split at parsed
    next digits =>
      split at parsed
      next fits =>
        obtain rfl := Option.some.inj parsed
        exact ⟨⟨digits.1, digits.2, rfl⟩, fits⟩
      next => contradiction
    next => contradiction
  · rintro ⟨⟨some, digits, rfl⟩, fits⟩
    rw [if_pos ⟨some, digits⟩, if_pos fits]

/-- A number reads back from its digits. -/
theorem numeral_toDigits (n : Nat) : Numeral (Nat.toDigits 10 n) n := by
  have noSign : unsigned (Nat.toDigits 10 n) = Nat.toDigits 10 n := by
    cases digits : Nat.toDigits 10 n with
    | nil => rfl
    | cons c cs =>
        have isDigit : c.isDigit = true := isDigit_toDigits (n := n) (digits ▸ List.mem_cons_self)
        rw [unsigned]
        intro rest same
        rw [(List.cons.inj same).1] at isDigit
        contradiction
  rw [Numeral, noSign]
  exact ⟨Nat.toDigits_ne_nil, fun c mem => isDigit_toDigits mem, Nat.ofDigitChars_ten_toDigits⟩

/-- A numeral is digits, but for a plus sign before it. -/
theorem Numeral.isDigit {text : List Char} {n : Nat} (numeral : Numeral text n) :
    ∀ c ∈ text, c = '+' ∨ c.isDigit = true := by
  intro c mem
  have digits := numeral.2.1
  unfold unsigned at digits
  split at digits
  next rest =>
    rcases List.mem_cons.mp mem with rfl | later
    · exact .inl rfl
    · exact .inr (digits c later)
  next => exact .inr (digits c mem)

theorem Numeral.ne_nil {text : List Char} {n : Nat} (numeral : Numeral text n) : text ≠ [] := by
  rintro rfl
  exact numeral.1 rfl

end Tcslog.Lib.Scan
