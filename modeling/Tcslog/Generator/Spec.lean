import Tcslog.Format
import Tcslog.Lib.Scan

/-!
# The record formats of the generator

A caller of the generator names a record format and the lengths of payloads in one
text.  A text is accepted if and only if it is one of three kinds with a length, or
a range of lengths, behind a colon; what a specification is displayed as is accepted
as that specification.
-/

namespace Tcslog.Generator

open Lib.Scan

/-- A record format and the lengths of the payloads to produce. -/
inductive RecordFormatSpec
  | fixed (n : RecSize)
  | variableSimple (min max : RecSize)
  | variableTsRc (min max : RecSize)
  deriving DecidableEq, Repr

/-- A piece of an error message; how a text is quoted is left to what renders it. -/
inductive Piece
  | text (s : String)
  | chars (cs : List Char)
  | quoted (cs : List Char)
  deriving DecidableEq, Repr

/-- Why a format text was refused. -/
abbrev RecordFormatSpecError := List Piece

namespace RecordFormatSpec

/-- The record format that is stored. -/
def format : RecordFormatSpec → Format
  | fixed n => .fixed n
  | variableSimple .. => .variableSimple
  | variableTsRc .. => .variableTsRc

/-- The least payload length. -/
def minSize : RecordFormatSpec → RecSize
  | fixed n => n
  | variableSimple min _ | variableTsRc min _ => min

/-- The greatest payload length. -/
def maxSize : RecordFormatSpec → RecSize
  | fixed n => n
  | variableSimple _ max | variableTsRc _ max => max

/-- A fixed length is at least one, and the least length no more than the
greatest. -/
def Valid : RecordFormatSpec → Prop
  | fixed n => n ≠ 0
  | variableSimple min max | variableTsRc min max => min ≤ max

instance (spec : RecordFormatSpec) : Decidable spec.Valid :=
  match spec with
  | fixed n => inferInstanceAs (Decidable (n ≠ 0))
  | variableSimple min max | variableTsRc min max => inferInstanceAs (Decidable (min ≤ max))

end RecordFormatSpec

/-! ## Lengths -/

/-- The spaces of Unicode. -/
def isWhiteSpace (c : Char) : Bool :=
  let n := c.toNat
  (9 ≤ n ∧ n ≤ 13) ∨ (0x2000 ≤ n ∧ n ≤ 0x200a) ∨
    n ∈ [0x20, 0x85, 0xa0, 0x1680, 0x2028, 0x2029, 0x202f, 0x205f, 0x3000]

def lengthMissing (kind : List Char) : RecordFormatSpecError :=
  [.text "invalid --format value: ", .chars kind, .text " length is missing"]

def lengthInvalid (trimmed kind : List Char) : RecordFormatSpecError :=
  [.text "invalid --format value: ", .quoted trimmed, .text " is not a valid ", .chars kind,
    .text " length (expected a non-negative integer up to ", .chars (Nat.toDigits 10 u32Max), .text ")"]

def rangeReversed (kind : List Char) (min max : RecSize) : RecordFormatSpecError :=
  [.text "invalid --format value: ", .chars kind, .text " min (", .chars (Nat.toDigits 10 min.toNat),
    .text ") must be less than or equal to max (", .chars (Nat.toDigits 10 max.toNat), .text ")"]

/-- Parse one payload length. -/
def parseLen (s kind : List Char) : Except RecordFormatSpecError RecSize :=
  let trimmed := trim isWhiteSpace s
  if trimmed = [] then .error (lengthMissing kind)
  else
    match parseUnsigned u32Max trimmed with
    | some n => .ok (UInt32.ofNat n)
    | none => .error (lengthInvalid trimmed kind)

/-- Parse one payload length, or a least and a greatest. -/
def parseRange (spec kind : List Char) : Except RecordFormatSpecError (RecSize × RecSize) :=
  match splitOnce "..".toList spec with
  | some (minText, maxText) => do
      let min ← parseLen minText kind
      let max ← parseLen maxText kind
      if max < min then throw (rangeReversed kind min max)
      return (min, max)
  | none => do
      let n ← parseLen spec kind
      return (n, n)

/-! ## Specifications -/

def kindMissing (s : List Char) : RecordFormatSpecError :=
  [.text "invalid --format value ", .quoted s,
    .text ": expected 'KIND:LEN' or 'KIND:MIN..MAX' where KIND is one of 'fixed', ",
    .text "'variable-simple', 'variable-tsrc'"]

def kindUnknown (s other : List Char) : RecordFormatSpecError :=
  [.text "invalid --format value ", .quoted s, .text ": unknown kind ", .quoted other,
    .text "; expected 'fixed', 'variable-simple', or 'variable-tsrc'"]

def fixedZero : RecordFormatSpecError :=
  [.text "invalid --format value: 'fixed' length must be at least 1"]

def fixedRange : RecordFormatSpecError :=
  [.text "invalid --format value: 'fixed' takes a single length, not a range"]

namespace RecordFormatSpec

/-- Parse a format text. -/
def fromStr (s : List Char) : Except RecordFormatSpecError RecordFormatSpec :=
  match splitOnce ":".toList s with
  | none => .error (kindMissing s)
  | some (kind, spec) =>
      if kind = "fixed".toList then do
        let n ← parseLen spec kind
        if n = 0 then throw fixedZero
        if contains "..".toList spec then throw fixedRange
        return fixed n
      else if kind = "variable-simple".toList then
        (parseRange spec kind).map fun range => variableSimple range.1 range.2
      else if kind = "variable-tsrc".toList then
        (parseRange spec kind).map fun range => variableTsRc range.1 range.2
      else .error (kindUnknown s kind)

/-- The lengths of a specification that may have a range of them. -/
def displayRange (min max : RecSize) : List Char :=
  if min = max then Nat.toDigits 10 min.toNat
  else Nat.toDigits 10 min.toNat ++ "..".toList ++ Nat.toDigits 10 max.toNat

/-- What a specification is displayed as. -/
def display : RecordFormatSpec → List Char
  | fixed n => "fixed:".toList ++ Nat.toDigits 10 n.toNat
  | variableSimple min max => "variable-simple:".toList ++ displayRange min max
  | variableTsRc min max => "variable-tsrc:".toList ++ displayRange min max

end RecordFormatSpec

/-! ## What is accepted -/

/-- The text stands for the length, with spaces around it or not. -/
def Length (text : List Char) (n : RecSize) : Prop :=
  ∃ front numeral back, text = front ++ numeral ++ back ∧ (∀ c ∈ front, isWhiteSpace c = true) ∧
    (∀ c ∈ back, isWhiteSpace c = true) ∧ Numeral numeral n.toNat

/-- The text stands for a length, or for two with dots between them of which the second
is no less. -/
inductive Lengths : List Char → RecSize → RecSize → Prop
  | one {text : List Char} {n : RecSize} (length : Length text n) : Lengths text n n
  | range {minText maxText : List Char} {min max : RecSize} (least : Length minText min)
      (greatest : Length maxText max) (le : min ≤ max) :
      Lengths (minText ++ "..".toList ++ maxText) min max

/-- The text stands for the specification. -/
inductive Writes : List Char → RecordFormatSpec → Prop
  | fixed {text : List Char} {n : RecSize} (length : Length text n) (some : n ≠ 0) :
      Writes ("fixed:".toList ++ text) (.fixed n)
  | variableSimple {text : List Char} {min max : RecSize} (lengths : Lengths text min max) :
      Writes ("variable-simple:".toList ++ text) (.variableSimple min max)
  | variableTsRc {text : List Char} {min max : RecSize} (lengths : Lengths text min max) :
      Writes ("variable-tsrc:".toList ++ text) (.variableTsRc min max)

section Lengths

variable {text kind : List Char} {n min max : RecSize}

/-- No letter of a numeral is a space. -/
theorem isWhiteSpace_of_numeral {c : Char} (letter : c = '+' ∨ c.isDigit = true) : isWhiteSpace c = false := by
  rcases letter with rfl | digit
  · decide
  · have bounds : 48 ≤ c.toNat ∧ c.toNat ≤ 57 := by
      rw [Char.isDigit, Bool.and_eq_true, decide_eq_true_eq, decide_eq_true_eq] at digit
      exact ⟨digit.1, digit.2⟩
    rw [isWhiteSpace, decide_eq_false_iff_not]
    rintro (low | wide | mem)
    · omega
    · omega
    · simp only [List.mem_cons, List.not_mem_nil, or_false] at mem
      omega

/-- A length is a text with nothing but a numeral between spaces. -/
theorem parseLen_eq_ok_iff : parseLen text kind = .ok n ↔ Length text n := by
  simp only [parseLen]
  constructor
  · intro parsed
    split at parsed
    next => contradiction
    next =>
      split at parsed
      next m isNumber =>
        obtain ⟨numeral, fits⟩ := parseUnsigned_eq_some_iff.mp isNumber
        obtain ⟨front, back, split, before, behind⟩ := exists_of_trim isWhiteSpace text
        refine ⟨front, _, back, split, before, behind, ?_⟩
        rw [← Except.ok.inj parsed, UInt32.toNat_ofNat_of_lt' (Nat.lt_succ_of_le fits)]
        exact numeral
      next => contradiction
  · rintro ⟨front, numeral, back, rfl, before, behind, isNumeral⟩
    have fits : n.toNat ≤ u32Max := Nat.le_of_lt_succ n.toNat_lt
    rw [trim_append before behind fun c mem => isWhiteSpace_of_numeral (isNumeral.isDigit c mem),
      if_neg isNumeral.ne_nil, parseUnsigned_eq_some_iff.mpr ⟨isNumeral, fits⟩]
    simp

/-- No dot and no colon is in a length. -/
theorem Length.not_mem (length : Length text n) {c : Char} (notSpace : isWhiteSpace c = false)
    (notDigit : c.isDigit = false) (notSign : c ≠ '+') : c ∉ text := by
  obtain ⟨front, numeral, back, rfl, before, behind, isNumeral⟩ := length
  intro mem
  rcases List.mem_append.mp mem with inFront | inBack
  · rcases List.mem_append.mp inFront with inFront | inside
    · rw [before c inFront] at notSpace
      contradiction
    · rcases isNumeral.isDigit c inside with isSign | isDigit
      · exact notSign isSign
      · rw [isDigit] at notDigit
        contradiction
  · rw [behind c inBack] at notSpace
    contradiction

theorem Length.splitOnce_eq_none (length : Length text n) : splitOnce "..".toList text = none :=
  splitOnce_of_not_mem (length.not_mem (by decide) (by decide) (by decide))

/-- What stands for lengths is parsed as them, and nothing else is. -/
theorem parseRange_eq_ok_iff : parseRange text kind = .ok (min, max) ↔ Lengths text min max := by
  constructor
  · intro parsed
    rw [parseRange] at parsed
    split at parsed
    next minText maxText split =>
      rw [eq_of_splitOnce split]
      cases least : parseLen minText kind with
      | error e => simp [least, bind, Except.bind] at parsed
      | ok m =>
          cases greatest : parseLen maxText kind with
          | error e => simp [least, greatest, bind, Except.bind] at parsed
          | ok m' =>
              simp only [least, greatest, bind, Except.bind] at parsed
              split at parsed
              next => simp [throw, throwThe, MonadExceptOf.throw] at parsed
              next ordered =>
                obtain ⟨rfl, rfl⟩ := Prod.mk.inj (Except.ok.inj parsed)
                exact .range (parseLen_eq_ok_iff.mp least) (parseLen_eq_ok_iff.mp greatest)
                  (UInt32.not_lt.mp ordered)
    next =>
      cases length : parseLen text kind with
      | error e => simp [length, bind, Except.bind] at parsed
      | ok m =>
          simp only [length, bind, Except.bind] at parsed
          obtain ⟨rfl, rfl⟩ := Prod.mk.inj (Except.ok.inj parsed)
          exact .one (parseLen_eq_ok_iff.mp length)
  · intro lengths
    cases lengths with
    | one length =>
        rw [parseRange, length.splitOnce_eq_none]
        simp only [parseLen_eq_ok_iff.mpr length, bind, Except.bind]
        rfl
    | @range minText maxText _ _ least greatest le =>
        have split : splitOnce "..".toList (minText ++ "..".toList ++ maxText) = some (minText, maxText) :=
          splitOnce_append (least.not_mem (by decide) (by decide) (by decide)) maxText
        rw [parseRange, split]
        simp only [parseLen_eq_ok_iff.mpr least, parseLen_eq_ok_iff.mpr greatest, bind, Except.bind]
        rw [if_neg (UInt32.not_lt.mpr le)]
        rfl

end Lengths

namespace RecordFormatSpec

variable {text s : List Char} {spec : RecordFormatSpec} {n min max : RecSize}

/-! Behind each kind and its colon the rest of a text is parsed. -/

/-- A kind has no colon in it. -/
theorem split_kind (kind : List Char) (plain : ':' ∉ kind) (text : List Char) :
    splitOnce ":".toList (kind ++ ":".toList ++ text) = some (kind, text) :=
  splitOnce_append plain text

theorem fromStr_fixed (text : List Char) : fromStr ("fixed:".toList ++ text) =
    (parseLen text "fixed".toList).bind fun n =>
      if n = 0 then .error fixedZero
      else if contains "..".toList text then .error fixedRange
      else .ok (fixed n) := by
  have split : splitOnce ":".toList ("fixed:".toList ++ text) = some ("fixed".toList, text) :=
    split_kind "fixed".toList (by decide) text
  rw [fromStr, split]
  simp only [if_true, bind, pure, Except.pure, throw, throwThe, MonadExceptOf.throw]
  rfl

theorem fromStr_variableSimple (text : List Char) : fromStr ("variable-simple:".toList ++ text) =
    (parseRange text "variable-simple".toList).map fun range => variableSimple range.1 range.2 := by
  have split : splitOnce ":".toList ("variable-simple:".toList ++ text) = some ("variable-simple".toList, text) :=
    split_kind "variable-simple".toList (by decide) text
  rw [fromStr, split]
  exact if_neg (by decide)

theorem fromStr_variableTsRc (text : List Char) : fromStr ("variable-tsrc:".toList ++ text) =
    (parseRange text "variable-tsrc".toList).map fun range => variableTsRc range.1 range.2 := by
  have split : splitOnce ":".toList ("variable-tsrc:".toList ++ text) = some ("variable-tsrc".toList, text) :=
    split_kind "variable-tsrc".toList (by decide) text
  rw [fromStr, split]
  exact (if_neg (by decide)).trans (if_neg (by decide))

/-- A text is refused that has none of the kinds before a colon. -/
theorem kind_of_fromStr (notRefused : ∀ kind, fromStr s ≠ .error (kindUnknown s kind))
    (hasKind : fromStr s ≠ .error (kindMissing s)) : ∃ text,
      s = "fixed:".toList ++ text ∨ s = "variable-simple:".toList ++ text ∨
        s = "variable-tsrc:".toList ++ text := by
  cases split : splitOnce ":".toList s with
  | none =>
      rw [fromStr, split] at hasKind
      contradiction
  | some parts =>
      obtain ⟨kind, text⟩ := parts
      have isText := eq_of_splitOnce split
      refine ⟨text, ?_⟩
      by_cases isFixed : kind = "fixed".toList
      · rw [isFixed] at isText
        exact .inl isText
      by_cases isSimple : kind = "variable-simple".toList
      · rw [isSimple] at isText
        exact .inr (.inl isText)
      by_cases isTsRc : kind = "variable-tsrc".toList
      · rw [isTsRc] at isText
        exact .inr (.inr isText)
      have refused := notRefused kind
      rw [fromStr, split] at refused
      simp only [if_neg isFixed, if_neg isSimple, if_neg isTsRc] at refused
      contradiction

/-- A length that a fixed specification is given is never a range: that refusal is
out of reach. -/
theorem fromStr_fixed_of_length {text : List Char} (length : Length text n) :
    fromStr ("fixed:".toList ++ text) = if n = 0 then .error fixedZero else .ok (fixed n) := by
  have noRange : contains "..".toList text = false := by
    rw [contains, length.splitOnce_eq_none]
    rfl
  rw [fromStr_fixed, parseLen_eq_ok_iff.mpr length, noRange]
  rfl

theorem map_parseRange_eq_ok_iff {kind : List Char} {mk : RecSize → RecSize → RecordFormatSpec} :
    ((parseRange text kind).map fun range => mk range.1 range.2) = .ok spec ↔
      ∃ min max, Lengths text min max ∧ mk min max = spec := by
  constructor
  · intro parsed
    cases isRange : parseRange text kind with
    | error e =>
        rw [isRange] at parsed
        contradiction
    | ok range =>
        rw [isRange] at parsed
        exact ⟨range.1, range.2, parseRange_eq_ok_iff.mp isRange, Except.ok.inj parsed⟩
  · rintro ⟨min, max, lengths, rfl⟩
    rw [parseRange_eq_ok_iff.mpr lengths]
    rfl

theorem fromStr_eq_ok_iff : fromStr s = .ok spec ↔ Writes s spec := by
  constructor
  · intro parsed
    obtain ⟨text, rfl | rfl | rfl⟩ := kind_of_fromStr (s := s) (by rw [parsed]; simp) (by rw [parsed]; simp)
    · cases length : parseLen text "fixed".toList with
      | error e =>
          rw [fromStr_fixed, length] at parsed
          contradiction
      | ok n =>
          rw [fromStr_fixed_of_length (parseLen_eq_ok_iff.mp length)] at parsed
          split at parsed
          next => contradiction
          next some =>
            obtain rfl := Except.ok.inj parsed
            exact .fixed (parseLen_eq_ok_iff.mp length) some
    · rw [fromStr_variableSimple] at parsed
      obtain ⟨min, max, lengths, rfl⟩ := map_parseRange_eq_ok_iff.mp parsed
      exact .variableSimple lengths
    · rw [fromStr_variableTsRc] at parsed
      obtain ⟨min, max, lengths, rfl⟩ := map_parseRange_eq_ok_iff.mp parsed
      exact .variableTsRc lengths
  · intro writes
    cases writes with
    | fixed length some => rw [fromStr_fixed_of_length length, if_neg some]
    | variableSimple lengths =>
        rw [fromStr_variableSimple]
        exact map_parseRange_eq_ok_iff.mpr ⟨_, _, lengths, rfl⟩
    | variableTsRc lengths =>
        rw [fromStr_variableTsRc]
        exact map_parseRange_eq_ok_iff.mpr ⟨_, _, lengths, rfl⟩

/-- The refusal of a range behind a fixed length is not what this comes to. -/
def Avoids {α : Type} (x : Except RecordFormatSpecError α) : Prop :=
  x ≠ .error fixedRange

theorem Avoids.bind {α β : Type} {x : Except RecordFormatSpecError α} {f : α → Except RecordFormatSpecError β}
    (avoids : Avoids x) (more : ∀ a, Avoids (f a)) : Avoids (x.bind f) := by
  cases x with
  | error e =>
      intro refused
      obtain rfl := Except.error.inj refused
      exact avoids rfl
  | ok a => exact more a

theorem avoids_parseLen (text kind : List Char) : Avoids (parseLen text kind) := by
  intro refused
  simp only [parseLen] at refused
  split at refused
  next => simp [lengthMissing, fixedRange] at refused
  next =>
    split at refused
    next => contradiction
    next => simp [lengthInvalid, fixedRange] at refused

theorem avoids_parseRange (text kind : List Char) : Avoids (parseRange text kind) := by
  have reversed (min max : RecSize) :
      Avoids (if max < min then .error (rangeReversed kind min max) else .ok (min, max)) := by
    intro refused
    split at refused
    next => simp [rangeReversed, fixedRange] at refused
    next => contradiction
  rw [parseRange]
  split
  next minText maxText split =>
    exact (avoids_parseLen minText kind).bind fun min =>
      (avoids_parseLen maxText kind).bind fun max => reversed min max
  next => exact (avoids_parseLen text kind).bind fun n => by simp [Avoids, pure, Except.pure]

/-- A text is accepted as a specification if and only if it stands for it, and no text
is refused for a range behind a fixed length: the length is refused before. -/
theorem fromStr_accepts (s : List Char) (spec : RecordFormatSpec) :
    (fromStr s = .ok spec ↔ Writes s spec) ∧ fromStr s ≠ .error fixedRange := by
  refine ⟨fromStr_eq_ok_iff, fun refused => ?_⟩
  have mapped {text kind : List Char} {mk : RecSize → RecSize → RecordFormatSpec} :
      Avoids ((parseRange text kind).map fun range => mk range.1 range.2) :=
    (avoids_parseRange text kind).bind fun range => by simp [Avoids]
  obtain ⟨text, rfl | rfl | rfl⟩ := kind_of_fromStr (s := s)
    (by simp [refused, fixedRange, kindUnknown]) (by simp [refused, fixedRange, kindMissing])
  · cases length : parseLen text "fixed".toList with
    | error e =>
        rw [fromStr_fixed, length] at refused
        obtain rfl := Except.error.inj refused
        exact avoids_parseLen text _ length
    | ok n =>
        rw [fromStr_fixed_of_length (parseLen_eq_ok_iff.mp length)] at refused
        split at refused
        next => simp [fixedZero, fixedRange] at refused
        next => contradiction
  · rw [fromStr_variableSimple] at refused
    exact mapped refused
  · rw [fromStr_variableTsRc] at refused
    exact mapped refused

theorem length_toDigits (n : RecSize) : Length (Nat.toDigits 10 n.toNat) n :=
  ⟨[], _, [], (List.append_nil _).symm, by simp, by simp, numeral_toDigits _⟩

theorem lengths_displayRange (le : min ≤ max) : Lengths (displayRange min max) min max := by
  rw [displayRange]
  split
  next same => exact same ▸ .one (length_toDigits min)
  next => exact .range (length_toDigits min) (length_toDigits max) le

theorem writes_display (valid : spec.Valid) : Writes spec.display spec := by
  cases spec with
  | fixed n => exact .fixed (length_toDigits n) valid
  | variableSimple min max => exact .variableSimple (lengths_displayRange valid)
  | variableTsRc min max => exact .variableTsRc (lengths_displayRange valid)

theorem Lengths.le (lengths : Lengths text min max) : min ≤ max := by
  cases lengths with
  | one _ => exact UInt32.le_refl _
  | range _ _ le => exact le

theorem valid_of_writes (writes : Writes s spec) : spec.Valid := by
  cases writes with
  | fixed _ some => exact some
  | variableSimple lengths => exact Lengths.le lengths
  | variableTsRc lengths => exact Lengths.le lengths

/-- The specifications that are accepted are those that are well formed, and what one
is displayed as is accepted as it. -/
theorem fromStr_display (spec : RecordFormatSpec) :
    ((∃ s, fromStr s = .ok spec) ↔ spec.Valid) ∧ (fromStr spec.display = .ok spec ↔ spec.Valid) := by
  have shown (valid : spec.Valid) : fromStr spec.display = .ok spec :=
    fromStr_eq_ok_iff.mpr (writes_display valid)
  have accepted {s : List Char} (parsed : fromStr s = .ok spec) : spec.Valid :=
    valid_of_writes (fromStr_eq_ok_iff.mp parsed)
  exact ⟨⟨fun ⟨_, parsed⟩ => accepted parsed, fun valid => ⟨_, shown valid⟩⟩, accepted, shown⟩

end RecordFormatSpec

end Tcslog.Generator
