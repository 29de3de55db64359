import Tcslog.Storage

/-!
# Names that two logs share

A name that two logs both claim is read by one with an identifier that starts
later than the other's.  What lies between the two starts is the end of one
prefix, what lies between the two ends is the start of one suffix, and both
have the form of pieces of an identifier.
-/

namespace Tcslog

namespace SegId

/-- The byte may stand at place `i` of the text of an identifier. -/
def Place (i : Nat) (byte : UInt8) : Prop :=
  if i % 5 = 4 then byte = dash else (hexValue byte).isSome = true

instance (i : Nat) (byte : UInt8) : Decidable (Place i byte) :=
  inferInstanceAs (Decidable (if i % 5 = 4 then byte = dash else (hexValue byte).isSome = true))

/-- The text may stand from place `i` on in the text of an identifier. -/
def Fits : Nat → Bytes → Prop
  | _, [] => True
  | i, byte :: bytes => Place i byte ∧ Fits (i + 1) bytes

instance decidableFits : (i : Nat) → (text : Bytes) → Decidable (Fits i text)
  | _, [] => isTrue trivial
  | i, byte :: bytes =>
      have := decidableFits (i + 1) bytes
      inferInstanceAs (Decidable (Place i byte ∧ Fits (i + 1) bytes))

variable {i : Nat} {text text' : Bytes}

theorem fits_append : Fits i (text ++ text') ↔ Fits i text ∧ Fits (i + text.length) text' := by
  induction text generalizing i with
  | nil => simp [Fits]
  | cons byte text ih =>
      rw [List.cons_append, Fits, Fits, ih, and_assoc, List.length_cons, Nat.add_right_comm,
        Nat.add_assoc]

theorem Fits.place (fits : Fits i text) {j : Nat} (inside : j < text.length) :
    Place (i + j) text[j] := by
  induction text generalizing i j with
  | nil => contradiction
  | cons byte text ih =>
      cases j with
      | zero => exact fits.1
      | succ j =>
          have later := ih fits.2 (Nat.lt_of_succ_lt_succ inside)
          rwa [Nat.add_right_comm, Nat.add_assoc] at later

/-- The parser reads on exactly as long as each byte is one for its place. -/
theorem exists_parseFrom_iff (value : Nat) : (∃ id, parseFrom i value text = .ok id) ↔ Fits i text := by
  induction text generalizing i value with
  | nil => exact ⟨fun _ => trivial, fun _ => ⟨_, rfl⟩⟩
  | cons byte text ih =>
      rw [parseFrom, Fits, Place]
      split
      case isTrue atDash =>
        split
        case isTrue isDash => rw [ih, and_iff_right isDash]
        case isFalse other => simp [other]
      case isFalse atDigit =>
        cases hexValue byte with
        | some digit => simp [ih]
        | none => simp

theorem exists_display_iff : (∃ id, text = display id) ↔ text.length = strLen ∧ Fits 0 text := by
  rw [← exists_parseFrom_iff 0]
  constructor
  · rintro ⟨id, rfl⟩
    have parsed := parse_display id
    rw [parse, if_neg (by simp)] at parsed
    exact ⟨length_display id, id, parsed⟩
  · rintro ⟨length, id, parsed⟩
    refine ⟨id, parse_eq_ok_iff.mp ?_⟩
    rw [parse, if_neg (by simp [length]), parsed]

theorem fits_display (id : SegId) : Fits 0 (display id) :=
  (exists_display_iff.mp ⟨id, rfl⟩).2

/-- A text that fits an identifier is ASCII. -/
theorem charCount_of_fits (fits : Fits i text) : charCount text = text.length := by
  induction text generalizing i with
  | nil => rfl
  | cons byte text ih =>
      have ascii : ¬ (0x80 ≤ byte ∧ byte < 0xc0) := by
        have place := fits.1
        rw [Place] at place
        split at place
        · rw [place]
          decide
        · intro continues
          have high : 0x80 ≤ byte.toNat := UInt8.le_iff_toNat_le.mp continues.1
          rw [hexValue, if_neg, if_neg] at place
          · contradiction
          · intro letter
            have : byte.toNat ≤ 0x66 := UInt8.le_iff_toNat_le.mp letter.2
            omega
          · intro digit
            have : byte.toNat ≤ 0x39 := UInt8.le_iff_toNat_le.mp digit.2
            omega
      have counted := ih fits.2
      rw [charCount] at counted ⊢
      rw [List.countP_cons, counted, if_pos (decide_eq_true ascii), List.length_cons]

/-- A text that fits two places of an identifier, and reaches its end from the later one, is moved
by whole groups, or is shorter than a group. -/
theorem shift_of_fits {n : Nat} (fits : Fits 0 text) (moved : Fits n text)
    (reaches : n + text.length = strLen) (pos : 0 < n) (small : n ≤ 16) :
    n = 5 ∨ n = 10 ∨ n = 15 ∨ n = 16 := by
  rw [strLen] at reaches
  by_cases late : 15 ≤ n
  · omega
  · have inside : 4 < text.length := by omega
    have isDash := fits.place inside
    have other := moved.place inside
    rw [Place, if_pos (by rfl)] at isDash
    rw [isDash, Place] at other
    split at other
    · omega
    · contradiction

end SegId

variable {namePrefix nameSuffix namePrefix' nameSuffix' : Bytes}

theorem charCount_append (text text' : Bytes) :
    charCount (text ++ text') = charCount text + charCount text' :=
  List.countP_append

/-- The second log's prefix goes on, and the first log's suffix starts earlier, by a piece of an
identifier: one, two or three groups with their dashes, or all but three digits. -/
def Overlaps (namePrefix nameSuffix namePrefix' nameSuffix' : Bytes) : Prop :=
  ∃ front back, namePrefix' = namePrefix ++ front ∧ nameSuffix = back ++ nameSuffix' ∧
    back.length = front.length ∧
    (front.length = 5 ∨ front.length = 10 ∨ front.length = 15 ∨ front.length = 16) ∧
    SegId.Fits 0 front ∧ SegId.Fits (SegId.strLen - front.length) back

/-- Overlapping logs share a name, whose middle can be all zeros. -/
theorem Overlaps.exists_name (overlaps : Overlaps namePrefix nameSuffix namePrefix' nameSuffix') :
    ∃ id id', buildName namePrefix id nameSuffix = buildName namePrefix' id' nameSuffix' := by
  obtain ⟨front, back, rfl, rfl, length, places, fits, fits'⟩ := overlaps
  let middle := (SegId.display 0).take (SegId.strLen - front.length)
  have middle_length : middle.length = SegId.strLen - front.length := by
    simp [middle]
  have middle_fits : SegId.Fits 0 middle ∧ SegId.Fits front.length middle := by
    simp only [middle]
    rcases places with places | places | places | places <;> rw [places] <;> decide
  have front_le : front.length ≤ SegId.strLen := by
    rw [SegId.strLen]
    omega
  have first : ∃ id, front ++ middle = SegId.display id := by
    rw [SegId.exists_display_iff, SegId.fits_append, Nat.zero_add, List.length_append, middle_length]
    exact ⟨by omega, fits, middle_fits.2⟩
  have second : ∃ id, middle ++ back = SegId.display id := by
    rw [SegId.exists_display_iff, SegId.fits_append, Nat.zero_add, List.length_append, middle_length]
    exact ⟨by omega, middle_fits.1, fits'⟩
  obtain ⟨id, first⟩ := first
  obtain ⟨id', second⟩ := second
  refine ⟨id, id', ?_⟩
  simp only [buildName, ← first, ← second, List.append_assoc]

/-- Of two logs that share a name, with the shorter prefix first, the prefixes and suffixes
overlap. -/
theorem overlaps_of_name {id id' : SegId}
    (same : buildName namePrefix id nameSuffix = buildName namePrefix' id' nameSuffix')
    (short : charCount namePrefix' ≤ prefixSuffixMaxChars)
    (distinct : ¬ (namePrefix = namePrefix' ∧ nameSuffix = nameSuffix'))
    (le : namePrefix.length ≤ namePrefix'.length) :
    Overlaps namePrefix nameSuffix namePrefix' nameSuffix' := by
  have length := congrArg List.length same
  simp only [buildName, List.length_append, SegId.length_display] at length
  simp only [buildName, List.append_assoc] at same
  obtain ⟨front, rfl, middle⟩ | ⟨front, rfl, -⟩ := List.append_eq_append_iff.mp same
  · rw [← List.append_assoc] at middle
    obtain ⟨back, pieces, rfl⟩ | ⟨back, pieces, rfl⟩ := List.append_eq_append_iff.mp middle
    · simp only [List.length_append] at length
      have lengths : back.length = front.length := by omega
      have pos : 0 < front.length := by
        apply List.length_pos_iff.mpr
        rintro rfl
        obtain rfl := List.eq_nil_of_length_eq_zero lengths
        exact distinct ⟨(List.append_nil _).symm, rfl⟩
      rw [charCount_append, prefixSuffixMaxChars] at short
      obtain ⟨rest, rfl, -⟩ | ⟨rest, first, second⟩ := List.append_eq_append_iff.mp pieces.symm
      · -- a prefix cannot take in a whole identifier
        rw [charCount_append, SegId.charCount_of_fits (SegId.fits_display id), SegId.length_display,
          SegId.strLen] at short
        omega
      · have fits := SegId.fits_display id
        have fits' := SegId.fits_display id'
        have rest_length := congrArg List.length first
        rw [SegId.length_display, List.length_append] at rest_length
        rw [first, SegId.fits_append, Nat.zero_add] at fits
        rw [second, SegId.fits_append, Nat.zero_add] at fits'
        rw [SegId.charCount_of_fits fits.1] at short
        refine ⟨front, back, rfl, rfl, lengths, ?_, fits.1, ?_⟩
        · exact SegId.shift_of_fits fits'.1 fits.2 rest_length.symm pos (by omega)
        · rw [rest_length, Nat.add_sub_cancel_left]
          exact fits'.2
    · simp only [List.length_append] at length
      have empty : front = [] := List.eq_nil_of_length_eq_zero (by omega)
      have empty' : back = [] := List.eq_nil_of_length_eq_zero (by omega)
      subst empty empty'
      exact absurd ⟨(List.append_nil _).symm, rfl⟩ distinct
  · rw [List.length_append] at le
    obtain rfl : front = [] := List.eq_nil_of_length_eq_zero (by omega)
    rw [List.append_nil, List.append_cancel_left_eq] at same
    have suffixes := List.append_inj_right same (by simp)
    exact absurd ⟨List.append_nil _, suffixes⟩ distinct

/-- Two logs of accepted names share a file name exactly when they overlap. -/
theorem exists_name_iff (accepted : charCount namePrefix ≤ prefixSuffixMaxChars)
    (accepted' : charCount namePrefix' ≤ prefixSuffixMaxChars)
    (distinct : ¬ (namePrefix = namePrefix' ∧ nameSuffix = nameSuffix')) :
    (∃ id id', buildName namePrefix id nameSuffix = buildName namePrefix' id' nameSuffix') ↔
      Overlaps namePrefix nameSuffix namePrefix' nameSuffix' ∨
        Overlaps namePrefix' nameSuffix' namePrefix nameSuffix := by
  constructor
  · rintro ⟨id, id', same⟩
    rcases Nat.le_total namePrefix.length namePrefix'.length with le | le
    · exact .inl (overlaps_of_name same accepted' distinct le)
    · refine .inr (overlaps_of_name same.symm accepted (fun same => distinct ?_) le)
      exact ⟨same.1.symm, same.2.symm⟩
  · rintro (overlaps | overlaps)
    · exact overlaps.exists_name
    · obtain ⟨id, id', same⟩ := overlaps.exists_name
      exact ⟨id', id, same.symm⟩

end Tcslog
