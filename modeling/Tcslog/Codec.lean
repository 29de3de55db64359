import Tcslog.Header

/-!
# The header codec

Which bytes decode to a segment file header, what those that do not are
reported as, and what a decoded header is encoded as again.
-/

namespace Tcslog

open Lib.LittleEndian

namespace SegmentHeader

/-! ## What is accepted -/

/-- A version of major number 01, minor number 0 or 1 and any patch digit. -/
def readableVersion : Bytes → Bool
  | [d₀, d₁, d₂, d₃] =>
      d₀ = 0x30 ∧ d₁ = 0x31 ∧ (d₂ = 0x30 ∨ d₂ = 0x31) ∧ 0x30 ≤ d₃ ∧ d₃ ≤ 0x39
  | _ => false

/-- The first thing wrong with what should be a header, as it is reported. -/
def fault (bytes : Bytes) : Option LogError :=
  if bytes.length < 53 then some .invalidHeader
  else if ¬ typeMagic <+: bytes then some .invalidHeader
  else if ¬ readableVersion (takeAt bytes 8 4) then some .versionMismatch
  else if bytes.getD 40 0 ∉ [0, 1, 2] then some .invalidHeader
  else if bytes.getD 40 0 = 0 ∧ takeAt bytes 41 4 = [0, 0, 0, 0] then some .invalidHeader
  else none

theorem isAsciiDigit_iff {byte : UInt8} :
    isAsciiDigit byte = true ↔ 48 ≤ byte.toNat ∧ byte.toNat ≤ 57 := by
  simp only [isAsciiDigit, decide_eq_true_eq, UInt8.le_iff_toNat_le]
  exact Iff.rfl

theorem readableVersion_iff {d₀ d₁ d₂ d₃ : UInt8} : readableVersion [d₀, d₁, d₂, d₃] = true ↔
    d₀.toNat = 48 ∧ d₁.toNat = 49 ∧ (d₂.toNat = 48 ∨ d₂.toNat = 49) ∧ isAsciiDigit d₃ = true := by
  have same (byte other : UInt8) : byte = other ↔ byte.toNat = other.toNat := UInt8.toNat_inj.symm
  simp only [readableVersion, decide_eq_true_eq, same, isAsciiDigit_iff, UInt8.le_iff_toNat_le]
  exact Iff.rfl

/-- The version check on four digits. -/
theorem checkVersion_of_digits {d₀ d₁ d₂ d₃ : UInt8} (h₀ : isAsciiDigit d₀ = true)
    (h₁ : isAsciiDigit d₁ = true) (h₂ : isAsciiDigit d₂ = true) (h₃ : isAsciiDigit d₃ = true) :
    checkVersion [d₀, d₁, d₂, d₃] =
      if (d₀.toNat - 48) * 10 + (d₁.toNat - 48) = 1 ∧ d₂.toNat - 48 ≤ 1 then .ok (d₂.toNat - 48)
      else .error .versionMismatch := by
  have value {byte : UInt8} (isDigit : isAsciiDigit byte = true) :
      (byte - 0x30).toNat = byte.toNat - 48 :=
    UInt8.toNat_sub_of_le _ _ (UInt8.le_iff_toNat_le.mpr (isAsciiDigit_iff.mp isDigit).1)
  simp only [checkVersion, List.any_cons, List.any_nil, h₀, h₁, h₂, h₃, Bool.not_true, Bool.or_false,
    Bool.false_eq_true, if_false, value]
  rfl

theorem checkVersion_of_readable {d₀ d₁ d₂ d₃ : UInt8}
    (readable : readableVersion [d₀, d₁, d₂, d₃] = true) :
    checkVersion [d₀, d₁, d₂, d₃] = .ok (d₂.toNat - 48) := by
  obtain ⟨major, major', minor, patch⟩ := readableVersion_iff.mp readable
  rw [checkVersion_of_digits (isAsciiDigit_iff.mpr (by omega)) (isAsciiDigit_iff.mpr (by omega))
    (isAsciiDigit_iff.mpr (by omega)) patch, if_pos (by omega)]

theorem checkVersion_of_unreadable {field : Bytes} (unreadable : ¬ readableVersion field = true) :
    checkVersion field = .error .versionMismatch := by
  unfold checkVersion
  split
  next d₀ d₁ d₂ d₃ =>
    by_cases notDigits : ([d₀, d₁, d₂, d₃].any fun byte => !isAsciiDigit byte) = true
    · rw [if_pos notDigits]
    · have digits : isAsciiDigit d₀ = true ∧ isAsciiDigit d₁ = true ∧ isAsciiDigit d₂ = true ∧
          isAsciiDigit d₃ = true := by
        simpa using notDigits
      obtain ⟨h₀, h₁, h₂, h₃⟩ := digits
      have checked := checkVersion_of_digits h₀ h₁ h₂ h₃
      rw [if_neg] at checked
      · exact checked
      · rintro ⟨major, minor⟩
        rw [isAsciiDigit_iff] at h₀ h₁ h₂
        exact unreadable (readableVersion_iff.mpr ⟨by omega, by omega, by omega, h₃⟩)
  · rfl

/-- A readable version is that of the header it is read into, but for its patch
digit. -/
theorem exists_of_readableVersion {field : Bytes} (readable : readableVersion field = true) :
    ∃ minor ≤ Tcslog.versionMinor, checkVersion field = .ok minor ∧
      field.take 3 = (versionBytes minor).take 3 := by
  match field, readable with
  | [d₀, d₁, d₂, d₃], readable =>
      obtain ⟨major, major', minor, _⟩ := readableVersion_iff.mp readable
      refine ⟨_, ?_, checkVersion_of_readable readable, ?_⟩
      · simp only [Tcslog.versionMinor]
        omega
      · have is₀ : d₀ = 0x30 := UInt8.toNat_inj.mp major
        have is₁ : d₁ = 0x31 := UInt8.toNat_inj.mp major'
        rcases minor with minor | minor
        · have is₂ : d₂ = 0x30 := UInt8.toNat_inj.mp minor
          subst is₀ is₁ is₂
          rfl
        · have is₂ : d₂ = 0x31 := UInt8.toNat_inj.mp minor
          subst is₀ is₁ is₂
          rfl

/-! ## What decodes -/

theorem length_takeAt {bytes : Bytes} {off n : Nat} (within : off + n ≤ bytes.length) :
    (takeAt bytes off n).length = n := by
  rw [takeAt, List.length_take, List.length_drop]
  omega

/-- Four bytes that are not all zero are a number that is not zero. -/
theorem arg_pos_iff {arg : Bytes} (length : arg.length = 4) :
    0 < UInt32.ofNat (ofLE arg) ↔ arg ≠ [0, 0, 0, 0] := by
  have small : ofLE arg < 2 ^ 32 := by
    have := ofLE_lt arg
    rwa [length] at this
  have value : (UInt32.ofNat (ofLE arg)).toNat = ofLE arg := by
    rw [UInt32.toNat_ofNat', Nat.mod_eq_of_lt small]
  rw [UInt32.lt_iff_toNat_lt, value]
  constructor
  · rintro positive rfl
    exact absurd positive (by decide)
  · intro some
    refine Nat.pos_of_ne_zero fun zero => some ?_
    rw [← toLE_ofLE arg, zero, length]
    rfl

/-- The magic at the front of a file. -/
theorem takeAt_eq_typeMagic_iff {bytes : Bytes} : takeAt bytes offType 8 = typeMagic ↔ typeMagic <+: bytes := by
  rw [takeAt, offType, List.drop_zero, List.prefix_iff_eq_take]
  exact eq_comm

theorem fromTag_eq {tag : UInt8} {arg : RecSize} (known : tag ∈ [0, 1, 2]) (sized : tag = 0 → 0 < arg) :
    ∃ format, Format.fromTag tag arg = .ok format := by
  simp only [List.mem_cons, List.not_mem_nil, or_false] at known
  rcases known with rfl | rfl | rfl
  · exact ⟨.fixed arg, if_pos ⟨rfl, sized rfl⟩⟩
  · exact ⟨.variableSimple, rfl⟩
  · exact ⟨.variableTsRc, rfl⟩

theorem fromTag_of_unknown {tag : UInt8} {arg : RecSize} (unknown : tag ∉ [0, 1, 2]) :
    Format.fromTag tag arg = .error .invalidHeader := by
  simp only [List.mem_cons, List.not_mem_nil, or_false, not_or] at unknown
  obtain ⟨notFixed, notSimple, notTsRc⟩ := unknown
  rw [Format.fromTag, if_neg fun fixed => notFixed fixed.1]
  exact (if_neg notSimple).trans (if_neg notTsRc)

theorem fromTag_of_unsized {arg : RecSize} (unsized : ¬ 0 < arg) :
    Format.fromTag 0 arg = .error .invalidHeader := by
  rw [Format.fromTag, if_neg fun fixed => unsized fixed.2]
  rfl

/-- What a header decodes to once its parts do. -/
theorem fromBytes_of_parts {bytes : Bytes} {minor : Nat} (long : ¬ bytes.length < 53)
    (magic : typeMagic <+: bytes) (version : checkVersion (takeAt bytes 8 4) = .ok minor) :
    fromBytes bytes = do
      let format ← Format.fromTag (bytes.getD 40 0) (UInt32.ofNat (ofLE (takeAt bytes 41 4)))
      return {
        segmentId := UInt64.ofNat (ofLE (takeAt bytes 12 8))
        sessionId := UInt64.ofNat (ofLE (takeAt bytes 20 8))
        maxSize := UInt32.ofNat (ofLE (takeAt bytes 28 4))
        remaining := UInt64.ofNat (ofLE (takeAt bytes 32 8))
        format := format
        sequence := UInt64.ofNat (ofLE (takeAt bytes 45 8))
        versionMinor := minor } := by
  have type : ¬ takeAt bytes offType 8 ≠ typeMagic := not_not.mpr (takeAt_eq_typeMagic_iff.mpr magic)
  have version' : checkVersion (takeAt bytes offVersion 4) = .ok minor := version
  have long' : ¬ bytes.length < segmentFileHeaderLen := long
  simp only [fromBytes, if_neg long', if_neg type, version']
  rfl

theorem error_of_fault {bytes : Bytes} {e : LogError} (faulty : fault bytes = some e) :
    fromBytes bytes = .error e := by
  rw [fault] at faulty
  split at faulty
  next short =>
    obtain rfl := Option.some.inj faulty
    exact if_pos short
  next long =>
    have long' : ¬ bytes.length < segmentFileHeaderLen := long
    split at faulty
    next noMagic =>
      obtain rfl := Option.some.inj faulty
      have type : takeAt bytes offType 8 ≠ typeMagic := fun magic => noMagic (takeAt_eq_typeMagic_iff.mp magic)
      simp only [fromBytes, if_neg long', if_pos type]
      rfl
    next magic =>
      rw [not_not] at magic
      split at faulty
      next unreadable =>
        obtain rfl := Option.some.inj faulty
        have type : ¬ takeAt bytes offType 8 ≠ typeMagic :=
          not_not.mpr (takeAt_eq_typeMagic_iff.mpr magic)
        have version : checkVersion (takeAt bytes offVersion 4) = .error .versionMismatch :=
          checkVersion_of_unreadable unreadable
        simp only [fromBytes, if_neg long', if_neg type, version]
        rfl
      next readable =>
        rw [not_not] at readable
        obtain ⟨minor, _, version, _⟩ := exists_of_readableVersion readable
        rw [fromBytes_of_parts long magic version]
        split at faulty
        next unknown =>
          obtain rfl := Option.some.inj faulty
          rw [fromTag_of_unknown unknown]
          rfl
        next known =>
          split at faulty
          next unsized =>
            obtain rfl := Option.some.inj faulty
            obtain ⟨fixed, zero⟩ := unsized
            rw [fixed, fromTag_of_unsized]
            · rfl
            · rw [zero]
              decide
          · contradiction

/-- Bytes with nothing wrong. -/
theorem of_fault_eq_none {bytes : Bytes} (sound : fault bytes = none) :
    ¬ bytes.length < 53 ∧ typeMagic <+: bytes ∧ readableVersion (takeAt bytes 8 4) = true ∧
      bytes.getD 40 0 ∈ [0, 1, 2] ∧
      (bytes.getD 40 0 = 0 → 0 < UInt32.ofNat (ofLE (takeAt bytes 41 4))) := by
  rw [fault] at sound
  split at sound
  · contradiction
  next long =>
    split at sound
    · contradiction
    next magic =>
      split at sound
      · contradiction
      next readable =>
        split at sound
        · contradiction
        next known =>
          split at sound
          · contradiction
          next sized =>
            rw [not_not] at magic readable known
            have length : (takeAt bytes 41 4).length = 4 := length_takeAt (by omega)
            exact ⟨long, magic, readable, known,
              fun fixed => (arg_pos_iff length).mpr fun zero => sized ⟨fixed, zero⟩⟩

theorem ok_of_fault {bytes : Bytes} (sound : fault bytes = none) :
    ∃ header, fromBytes bytes = .ok header := by
  obtain ⟨long, magic, readable, known, sized⟩ := of_fault_eq_none sound
  obtain ⟨minor, _, version, _⟩ := exists_of_readableVersion readable
  obtain ⟨format, decoded⟩ := fromTag_eq known sized
  rw [fromBytes_of_parts long magic version, decoded]
  exact ⟨_, rfl⟩

/-! ## What a decoded header is encoded as -/

theorem takeAt_append_takeAt (bytes : Bytes) (off m n : Nat) :
    takeAt bytes off m ++ takeAt bytes (off + m) n = takeAt bytes off (m + n) := by
  rw [takeAt, takeAt, takeAt, List.take_add, List.drop_drop]

theorem takeAt_one {bytes : Bytes} {off : Nat} (within : off < bytes.length) :
    takeAt bytes off 1 = [bytes.getD off 0] := by
  rw [takeAt, List.drop_eq_getElem_cons within, List.take_succ_cons, List.take_zero,
    List.getD_eq_getElem?_getD, List.getElem?_eq_getElem within, Option.getD_some]

/-- The front of a file, cut at the patch digit and the format argument. -/
theorem front_eq (bytes : Bytes) : bytes.take 53 =
    takeAt bytes 0 11 ++ (takeAt bytes 11 1 ++ (takeAt bytes 12 29 ++
      (takeAt bytes 41 4 ++ takeAt bytes 45 8))) := by
  rw [takeAt_append_takeAt bytes 41 4 8, takeAt_append_takeAt bytes 12 29 12,
    takeAt_append_takeAt bytes 11 1 41, takeAt_append_takeAt bytes 0 11 42, takeAt, List.drop_zero]

theorem toLE_u64 {field : Bytes} (length : field.length = 8) :
    toLE 8 (UInt64.ofNat (ofLE field)).toNat = field := by
  have small := ofLE_lt field
  rw [length] at small
  have value : (UInt64.ofNat (ofLE field)).toNat = ofLE field := by
    rw [UInt64.toNat_ofNat', Nat.mod_eq_of_lt (show ofLE field < 2 ^ 64 by omega)]
  rw [value, ← length, toLE_ofLE]

theorem toLE_u32 {field : Bytes} (length : field.length = 4) :
    toLE 4 (UInt32.ofNat (ofLE field)).toNat = field := by
  have small := ofLE_lt field
  rw [length] at small
  have value : (UInt32.ofNat (ofLE field)).toNat = ofLE field := by
    rw [UInt32.toNat_ofNat', Nat.mod_eq_of_lt (show ofLE field < 2 ^ 32 by omega)]
  rw [value, ← length, toLE_ofLE]

/-- A decoded format has the tag it was decoded from, and the argument if it has
any. -/
theorem tag_of_fromTag {tag : UInt8} {arg : RecSize} {format : Format}
    (decoded : Format.fromTag tag arg = .ok format) :
    format.tag = tag ∧ ((∃ n, format = .fixed n) → format.fixedLen = arg) := by
  rw [Format.fromTag] at decoded
  split at decoded
  next fixed =>
    obtain rfl := Except.ok.inj decoded
    exact ⟨fixed.1.symm, fun _ => rfl⟩
  · split at decoded
    next simple =>
      obtain rfl := Except.ok.inj decoded
      exact ⟨simple.symm, by simp⟩
    · split at decoded
      next tsRc =>
        obtain rfl := Except.ok.inj decoded
        exact ⟨tsRc.symm, by simp⟩
      · contradiction

/-- A decoded header is encoded as it was, but for the patch digit and an
argument that its format does not have. -/
theorem toBytes_of_fromBytes {bytes : Bytes} {header : SegmentHeader}
    (decoded : fromBytes bytes = .ok header) :
    53 ≤ bytes.length ∧ header.toBytes = takeAt bytes 0 11 ++ ([0x30] ++ (takeAt bytes 12 29 ++
      (toLE 4 header.format.fixedLen.toNat ++ takeAt bytes 45 8))) ∧
      ((∃ n, header.format = .fixed n) → toLE 4 header.format.fixedLen.toNat = takeAt bytes 41 4) := by
  cases faulty : fault bytes with
  | some e =>
      rw [error_of_fault faulty] at decoded
      contradiction
  | none =>
      obtain ⟨long, magic, readable, known, sized⟩ := of_fault_eq_none faulty
      obtain ⟨minor, _, version, digits⟩ := exists_of_readableVersion readable
      obtain ⟨format, isFormat⟩ := fromTag_eq known sized
      rw [fromBytes_of_parts long magic version, isFormat] at decoded
      obtain rfl := Except.ok.inj decoded
      obtain ⟨tag, arg⟩ := tag_of_fromTag isFormat
      have type : typeMagic = takeAt bytes 0 8 := (takeAt_eq_typeMagic_iff.mpr magic).symm
      have versionParts : versionBytes minor = takeAt bytes 8 3 ++ [0x30] := by
        have digits' : (versionBytes minor).take 3 = takeAt bytes 8 3 := by
          rw [← digits, takeAt, takeAt, List.take_take]
          rfl
        rw [← digits']
        rfl
      refine ⟨Nat.not_lt.mp long, ?_, fun fixed => ?_⟩
      · have within : 40 < bytes.length := by omega
        rw [toBytes_eq_fields, fields]
        simp only [tag, type, versionParts]
        rw [toLE_u64 (length_takeAt (by omega)), toLE_u64 (length_takeAt (by omega)),
          toLE_u32 (length_takeAt (by omega)), toLE_u64 (length_takeAt (by omega)),
          toLE_u64 (length_takeAt (by omega)), ← takeAt_one within,
          ← takeAt_append_takeAt bytes 0 8 3, ← takeAt_append_takeAt bytes 12 8 21,
          ← takeAt_append_takeAt bytes 20 8 13, ← takeAt_append_takeAt bytes 28 4 9,
          ← takeAt_append_takeAt bytes 32 8 1]
        simp only [List.append_assoc]
      · simp only [arg fixed]
        exact toLE_u32 (length_takeAt (by omega))

/-- Lists whose fronts and backs agree at an index. -/
theorem getElem?_append_congr {front front' back back' : Bytes} {i : Nat}
    (same : front.length = front'.length) (within : i < front.length → front[i]? = front'[i]?)
    (after : front.length ≤ i → back[i - front.length]? = back'[i - front.length]?) :
    (front ++ back)[i]? = (front' ++ back')[i]? := by
  rcases Nat.lt_or_ge i front.length with inside | past
  · rw [List.getElem?_append_left inside, List.getElem?_append_left (same ▸ inside), within inside]
  · rw [List.getElem?_append_right past, List.getElem?_append_right (same ▸ past), after past, same]

/-- Lists that differ in two places agree everywhere else. -/
theorem getElem?_eq_outside {front x x' middle y y' back : Bytes} {i : Nat}
    (same : x.length = x'.length) (same' : y.length = y'.length)
    (outside : i < front.length ∨ front.length + x.length ≤ i)
    (outside' : i < front.length + x.length + middle.length ∨
      front.length + x.length + middle.length + y.length ≤ i ∨ y = y') :
    (front ++ (x ++ (middle ++ (y ++ back))))[i]? =
      (front ++ (x' ++ (middle ++ (y' ++ back))))[i]? := by
  refine getElem?_append_congr rfl (fun _ => rfl) fun past => ?_
  refine getElem?_append_congr same (fun inside => by omega) fun past' => ?_
  refine getElem?_append_congr rfl (fun _ => rfl) fun past'' => ?_
  refine getElem?_append_congr same' (fun inside => ?_) fun _ => rfl
  rcases outside' with before | after | rfl
  · omega
  · omega
  · rfl

/-- The header codec: bytes decode to a header exactly when nothing is wrong with
them, and else fail with the first thing that is; a header decodes from its
encoding; and a decoded header is encoded as the bytes it was decoded from, but
for the patch digit and an argument its format does not have. -/
theorem header_codec :
    (∀ bytes, (∃ header, fromBytes bytes = .ok header) ↔ fault bytes = none) ∧
    (∀ bytes e, fromBytes bytes = .error e ↔ fault bytes = some e) ∧
    (∀ header : SegmentHeader, header.versionMinor ≤ 1 → header.format ≠ .fixed 0 →
      fromBytes header.toBytes = .ok header) ∧
    (∀ bytes header, fromBytes bytes = .ok header → header.toBytes.length = 53 ∧
      ∀ i < 53, i ≠ 11 → ((∀ n, header.format ≠ .fixed n) → i < 41 ∨ 45 ≤ i) →
        header.toBytes[i]? = bytes[i]?) := by
  refine ⟨fun bytes => ?_, fun bytes e => ?_, fun header readable valid => fromBytes_toBytes readable valid,
    fun bytes header decoded => ⟨length_toBytes header, fun i less notPatch notArg => ?_⟩⟩
  · cases faulty : fault bytes with
    | none => simpa using ok_of_fault faulty
    | some e => simp [error_of_fault faulty]
  · cases faulty : fault bytes with
    | none =>
        obtain ⟨header, decoded⟩ := ok_of_fault faulty
        simp [decoded]
    | some e' => simp [error_of_fault faulty]
  · obtain ⟨long, encoded, arg⟩ := toBytes_of_fromBytes decoded
    have front : bytes[i]? = (bytes.take 53)[i]? := by rw [List.getElem?_take_of_lt less]
    have lengths : (takeAt bytes 0 11).length = 11 ∧ (takeAt bytes 11 1).length = 1 ∧
        (takeAt bytes 12 29).length = 29 ∧ (takeAt bytes 41 4).length = 4 :=
      ⟨length_takeAt (by omega), length_takeAt (by omega), length_takeAt (by omega),
        length_takeAt (by omega)⟩
    obtain ⟨length₀, length₁, length₂, length₃⟩ := lengths
    rw [front, encoded, front_eq]
    refine getElem?_eq_outside length₁.symm (by rw [length_toLE, length₃]) (by simp; omega) ?_
    simp only [length₀, List.length_singleton, length₂, length_toLE]
    by_cases fixed : ∃ n, header.format = .fixed n
    · exact .inr (.inr (arg fixed))
    · rw [not_exists] at fixed
      exact (notArg fixed).imp (by omega) fun after => .inl (by omega)

end SegmentHeader

end Tcslog
