import Tcslog.Format
import Mathlib.Tactic.IntervalCases

/-!
# Segment file names

A segment file is named by its identifier, rendered as sixteen hexadecimal
digits in four dashed groups, between the log's name prefix and suffix.
Strings are their UTF-8 octets.  The rendering is exactly what the parser
accepts, so a directory entry names at most one identifier of a log.
-/

namespace Tcslog

/-- One lower-case hexadecimal digit. -/
def hexDigit (n : Nat) : UInt8 :=
  if n < 10 then 0x30 + UInt8.ofNat n else 0x61 + UInt8.ofNat (n - 10)

/-- A sixteen-bit group as four hexadecimal digits. -/
def hexGroup (n : Nat) : Bytes :=
  [hexDigit (n / 4096 % 16), hexDigit (n / 256 % 16), hexDigit (n / 16 % 16), hexDigit (n % 16)]

/-- The value of one lower-case hexadecimal digit. -/
def hexValue (byte : UInt8) : Option Nat :=
  if 0x30 ≤ byte ∧ byte ≤ 0x39 then some (byte - 0x30).toNat
  else if 0x61 ≤ byte ∧ byte ≤ 0x66 then some ((byte - 0x61).toNat + 10)
  else none

def dash : UInt8 := 0x2d

namespace SegId

/-- Number of octets in the string form. -/
def strLen : Nat := 19

/-- Render an identifier as four dash-separated groups of hexadecimal digits. -/
def display (id : SegId) : Bytes :=
  hexGroup (id.toNat / 2 ^ 48 % 2 ^ 16) ++ dash :: hexGroup (id.toNat / 2 ^ 32 % 2 ^ 16) ++
    dash :: hexGroup (id.toNat / 2 ^ 16 % 2 ^ 16) ++ dash :: hexGroup (id.toNat % 2 ^ 16)

/-- The digits of a name from position `i` on, after those before it gave `value`. -/
def parseFrom : Nat → Nat → Bytes → Except LogError SegId
  | _, value, [] => .ok (UInt64.ofNat value)
  | i, value, byte :: bytes =>
      -- Dashes fall after each group of four digits.
      if i % 5 = 4 then
        if byte = dash then parseFrom (i + 1) value bytes else .error .invalidPathname
      else
        match hexValue byte with
        | some digit => parseFrom (i + 1) (value <<< 4 % 2 ^ 64 ||| digit) bytes
        | none => .error .invalidPathname

/-- Parse the dashed hexadecimal form that appears in a segment file name. -/
def parse (text : Bytes) : Except LogError SegId :=
  if text.length ≠ strLen then .error .invalidPathname else parseFrom 0 0 text

end SegId

/-- The name of a segment file. -/
def buildName (namePrefix : Bytes) (id : SegId) (nameSuffix : Bytes) : Bytes :=
  namePrefix ++ SegId.display id ++ nameSuffix

/-- Remove a given front from a name. -/
def stripPrefix (name front : Bytes) : Option Bytes :=
  if front.isPrefixOf name then some (name.drop front.length) else none

/-- Remove a given end from a name. -/
def stripSuffix (name back : Bytes) : Option Bytes :=
  if back.isSuffixOf name then some (name.take (name.length - back.length)) else none

/-- The identifier in a file name, if the name belongs to this log. -/
def idFromName (name namePrefix nameSuffix : Bytes) : Option SegId := do
  if name.length ≠ namePrefix.length + SegId.strLen + nameSuffix.length then failure
  let body ← stripPrefix name namePrefix
  let body ← stripSuffix body nameSuffix
  (SegId.parse body).toOption

/-! ## Digits -/

theorem hexValue_hexDigit {n : Nat} (small : n < 16) : hexValue (hexDigit n) = some n := by
  interval_cases n <;> rfl

theorem exists_of_hexValue {byte : UInt8} {n : Nat} (value : hexValue byte = some n) :
    n < 16 ∧ byte = hexDigit n := by
  have all : ∀ b : Fin 256, ∀ n, hexValue (UInt8.ofFin b) = some n →
      n < 16 ∧ UInt8.ofFin b = hexDigit n := by
    decide +kernel
  exact all byte.toFin n value

/-- Four digits are the group of the number they spell. -/
theorem hexGroup_of_digits {a b c d : Nat} (ha : a < 16) (hb : b < 16) (hc : c < 16) (hd : d < 16) :
    hexGroup (a * 4096 + b * 256 + c * 16 + d) = [hexDigit a, hexDigit b, hexDigit c, hexDigit d] := by
  have first : (a * 4096 + b * 256 + c * 16 + d) / 4096 % 16 = a := by omega
  have second : (a * 4096 + b * 256 + c * 16 + d) / 256 % 16 = b := by omega
  have third : (a * 4096 + b * 256 + c * 16 + d) / 16 % 16 = c := by omega
  have fourth : (a * 4096 + b * 256 + c * 16 + d) % 16 = d := by omega
  rw [hexGroup, first, second, third, fourth]

namespace SegId

@[simp]
theorem length_display (id : SegId) : (display id).length = strLen :=
  rfl

/-! ## The parser accepts exactly what is rendered -/

theorem shift_or {value digit : Nat} (small : value < 2 ^ 60) (isDigit : digit < 16) :
    value <<< 4 % 2 ^ 64 ||| digit = value * 16 + digit := by
  have shifted : value <<< 4 = value * 16 := by rw [Nat.shiftLeft_eq]
  have fits : value <<< 4 % 2 ^ 64 = value <<< 4 := Nat.mod_eq_of_lt (by rw [shifted]; omega)
  rw [fits, ← Nat.shiftLeft_add_eq_or_of_lt (b := digit) (i := 4) (by omega), shifted]

/-- Reading one group of digits appends it to the value. -/
theorem parseFrom_hexGroup {i value group : Nat} (rest : Bytes) (atGroup : i % 5 = 0)
    (small : value < 2 ^ 48) (isGroup : group < 2 ^ 16) :
    parseFrom i value (hexGroup group ++ rest) =
      parseFrom (i + 4) (value * 2 ^ 16 + group) rest := by
  have digits (n : Nat) : hexValue (hexDigit (n % 16)) = some (n % 16) :=
    hexValue_hexDigit (Nat.mod_lt _ (by omega))
  simp only [hexGroup, List.cons_append, List.nil_append, parseFrom]
  rw [if_neg (by omega), digits]
  simp only []
  rw [if_neg (by omega), digits]
  simp only []
  rw [if_neg (by omega), digits]
  simp only []
  rw [if_neg (by omega), digits]
  simp only []
  simp (disch := omega) only [shift_or]
  congr 1
  omega

theorem parseFrom_dash {i value : Nat} (rest : Bytes) (atDash : i % 5 = 4) :
    parseFrom i value (dash :: rest) = parseFrom (i + 1) value rest := by
  simp [parseFrom, atDash]

/-- A successful parse read one whole group of digits. -/
theorem exists_hexGroup_of_parseFrom {i value : Nat} {b₀ b₁ b₂ b₃ : UInt8} {rest : Bytes}
    {id : SegId} (atGroup : i % 5 = 0) (small : value < 2 ^ 48)
    (parsed : parseFrom i value (b₀ :: b₁ :: b₂ :: b₃ :: rest) = .ok id) :
    ∃ group, group < 2 ^ 16 ∧ [b₀, b₁, b₂, b₃] = hexGroup group ∧
      parseFrom (i + 4) (value * 2 ^ 16 + group) rest = .ok id := by
  have original := parsed
  simp only [parseFrom] at parsed
  rw [if_neg (by omega)] at parsed
  split at parsed
  next d₀ v₀ =>
    rw [if_neg (by omega)] at parsed
    split at parsed
    next d₁ v₁ =>
      rw [if_neg (by omega)] at parsed
      split at parsed
      next d₂ v₂ =>
        rw [if_neg (by omega)] at parsed
        split at parsed
        next d₃ v₃ =>
          obtain ⟨h₀, rfl⟩ := exists_of_hexValue v₀
          obtain ⟨h₁, rfl⟩ := exists_of_hexValue v₁
          obtain ⟨h₂, rfl⟩ := exists_of_hexValue v₂
          obtain ⟨h₃, rfl⟩ := exists_of_hexValue v₃
          have group := hexGroup_of_digits h₀ h₁ h₂ h₃
          have isGroup : d₀ * 4096 + d₁ * 256 + d₂ * 16 + d₃ < 2 ^ 16 := by omega
          refine ⟨_, isGroup, group.symm, ?_⟩
          rw [← parseFrom_hexGroup rest atGroup small isGroup, group]
          exact original
        next => contradiction
      next => contradiction
    next => contradiction
  next => contradiction

theorem eq_dash_of_parseFrom {i value : Nat} {byte : UInt8} {rest : Bytes} {id : SegId}
    (atDash : i % 5 = 4) (parsed : parseFrom i value (byte :: rest) = .ok id) :
    byte = dash ∧ parseFrom (i + 1) value rest = .ok id := by
  simp only [parseFrom, atDash, if_true] at parsed
  split at parsed
  next isDash => exact ⟨isDash, parsed⟩
  next => contradiction

theorem parse_display (id : SegId) : parse (display id) = .ok id := by
  have small := id.toNat_lt
  have whole : (((0 * 2 ^ 16 + id.toNat / 2 ^ 48 % 2 ^ 16) * 2 ^ 16 +
      id.toNat / 2 ^ 32 % 2 ^ 16) * 2 ^ 16 + id.toNat / 2 ^ 16 % 2 ^ 16) * 2 ^ 16 +
        id.toNat % 2 ^ 16 = id.toNat := by omega
  have last (value : Nat) (fits : value < 2 ^ 48) :
      parseFrom 15 value (hexGroup (id.toNat % 2 ^ 16)) =
        .ok (UInt64.ofNat (value * 2 ^ 16 + id.toNat % 2 ^ 16)) := by
    rw [← List.append_nil (hexGroup _), parseFrom_hexGroup _ (by rfl) fits (by omega), parseFrom]
  rw [parse, if_neg (by simp), display]
  simp only [List.append_assoc, List.cons_append]
  rw [parseFrom_hexGroup _ (by rfl) (by omega) (by omega), parseFrom_dash _ (by rfl),
    parseFrom_hexGroup _ (by rfl) (by omega) (by omega), parseFrom_dash _ (by rfl),
    parseFrom_hexGroup _ (by rfl) (by omega) (by omega), parseFrom_dash _ (by rfl),
    last _ (by omega), whole, UInt64.ofNat_toNat]

/-- Only the rendering of an identifier parses to it. -/
theorem eq_display_of_parse {text : Bytes} {id : SegId} (parsed : parse text = .ok id) :
    text = display id := by
  rw [parse] at parsed
  split at parsed
  · contradiction
  next len =>
    rw [not_not] at len
    match text, len with
    | [a₀, a₁, a₂, a₃, s₀, b₀, b₁, b₂, b₃, s₁, c₀, c₁, c₂, c₃, s₂, d₀, d₁, d₂, d₃], _ =>
        obtain ⟨a, ha, ga, after₁⟩ := exists_hexGroup_of_parseFrom (by rfl) (by omega) parsed
        obtain ⟨dash₀, after₂⟩ := eq_dash_of_parseFrom (by rfl) after₁
        obtain ⟨b, hb, gb, after₃⟩ := exists_hexGroup_of_parseFrom (by rfl) (by omega) after₂
        obtain ⟨dash₁, after₄⟩ := eq_dash_of_parseFrom (by rfl) after₃
        obtain ⟨c, hc, gc, after₅⟩ := exists_hexGroup_of_parseFrom (by rfl) (by omega) after₄
        obtain ⟨dash₂, after₆⟩ := eq_dash_of_parseFrom (by rfl) after₅
        obtain ⟨d, hd, gd, parsed⟩ := exists_hexGroup_of_parseFrom (by rfl) (by omega) after₆
        have value : id = UInt64.ofNat ((((0 * 2 ^ 16 + a) * 2 ^ 16 + b) * 2 ^ 16 + c) * 2 ^ 16 + d) :=
          (Except.ok.inj parsed).symm
        have toNat : id.toNat = ((a * 2 ^ 16 + b) * 2 ^ 16 + c) * 2 ^ 16 + d := by
          rw [value, UInt64.toNat_ofNat']
          omega
        have first : id.toNat / 2 ^ 48 % 2 ^ 16 = a := by omega
        have second : id.toNat / 2 ^ 32 % 2 ^ 16 = b := by omega
        have third : id.toNat / 2 ^ 16 % 2 ^ 16 = c := by omega
        have fourth : id.toNat % 2 ^ 16 = d := by omega
        rw [display, first, second, third, fourth, ← ga, ← gb, ← gc, ← gd, dash₀, dash₁, dash₂]
        rfl

theorem parse_eq_ok_iff {text : Bytes} {id : SegId} : parse text = .ok id ↔ text = display id :=
  ⟨eq_display_of_parse, fun same => same ▸ parse_display id⟩

theorem display_injective {id id' : SegId} (same : display id = display id') : id = id' := by
  have parsed := parse_display id
  rw [same, parse_display] at parsed
  exact (Except.ok.inj parsed).symm

end SegId

/-! ## File names -/

theorem stripPrefix_eq_some_iff {name front body : Bytes} :
    stripPrefix name front = some body ↔ name = front ++ body := by
  rw [stripPrefix]
  constructor
  · intro stripped
    split at stripped
    next isFront =>
      obtain ⟨rest, rfl⟩ := List.isPrefixOf_iff_prefix.mp isFront
      rw [List.drop_left] at stripped
      rw [Option.some.inj stripped]
    next => contradiction
  · rintro rfl
    simp

theorem stripSuffix_eq_some_iff {name back body : Bytes} :
    stripSuffix name back = some body ↔ name = body ++ back := by
  rw [stripSuffix]
  constructor
  · intro stripped
    split at stripped
    next isBack =>
      obtain ⟨rest, rfl⟩ := List.isSuffixOf_iff_suffix.mp isBack
      have taken : (rest ++ back).take ((rest ++ back).length - back.length) = rest := by simp
      rw [taken] at stripped
      rw [Option.some.inj stripped]
    next => contradiction
  · rintro rfl
    simp

/-- A directory entry names an identifier of a log exactly when it is the name
the log gives to that identifier. -/
theorem idFromName_eq_some_iff {name namePrefix nameSuffix : Bytes} {id : SegId} :
    idFromName name namePrefix nameSuffix = some id ↔ name = buildName namePrefix id nameSuffix := by
  constructor
  · intro found
    rw [idFromName] at found
    split at found
    · contradiction
    · simp only [Option.bind_eq_bind, Option.bind_eq_some_iff] at found
      obtain ⟨afterPrefix, front, body, back, parsed⟩ := found
      rw [stripPrefix_eq_some_iff] at front
      rw [stripSuffix_eq_some_iff] at back
      have isDisplay : body = SegId.display id := by
        cases outcome : SegId.parse body with
        | ok id' =>
            rw [outcome] at parsed
            obtain rfl : id' = id := Option.some.inj parsed
            exact SegId.eq_display_of_parse outcome
        | error e =>
            rw [outcome] at parsed
            contradiction
      rw [front, back, isDisplay, buildName, List.append_assoc]
  · rintro rfl
    have body : stripPrefix (buildName namePrefix id nameSuffix) namePrefix =
        some (SegId.display id ++ nameSuffix) :=
      stripPrefix_eq_some_iff.mpr (by rw [buildName, List.append_assoc])
    have text : stripSuffix (SegId.display id ++ nameSuffix) nameSuffix = some (SegId.display id) :=
      stripSuffix_eq_some_iff.mpr rfl
    have len : (buildName namePrefix id nameSuffix).length =
        namePrefix.length + SegId.strLen + nameSuffix.length := by
      simp [buildName, Nat.add_assoc]
    simp [idFromName, len, body, text, SegId.parse_display, Except.toOption]

theorem buildName_injective {namePrefix nameSuffix : Bytes} {id id' : SegId}
    (same : buildName namePrefix id nameSuffix = buildName namePrefix id' nameSuffix) : id = id' := by
  simp only [buildName, List.append_cancel_right_eq, List.append_cancel_left_eq] at same
  exact SegId.display_injective same

end Tcslog
