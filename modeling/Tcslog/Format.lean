import Tcslog.Lib.LittleEndian

/-!
# Record layouts, metadata and errors

The vocabulary shared by the writer and the reader: identifiers, the three
data record layouts with their data headers, the metadata a record carries,
and the error type every fallible operation returns.
-/

namespace Tcslog

/-- A sequence of octets: file contents, payloads and file names. -/
abbrev Bytes := List UInt8

/-- Identifier of one segment file, in nanoseconds since the UNIX epoch. -/
abbrev SegId := UInt64

/-- Zero-based position of a segment file within its session. -/
abbrev SeqId := UInt64

/-- The size of a record's payload as stored on disk. -/
abbrev RecSize := UInt32

/-- Nanoseconds since the UNIX epoch. -/
abbrev Timestamp := UInt64

/-- Position of a record within its session, counted from one. -/
abbrev RecordCount := UInt64

def u32Max : Nat := 2 ^ 32 - 1

def u64Max : Nat := 2 ^ 64 - 1

/-- The largest record count a data header holds. -/
def recordCountMax : Nat := 2 ^ 48 - 1

/-- The value for the segment file after this one, saturating. -/
def SeqId.next (sequence : SeqId) : SeqId :=
  UInt64.ofNat (min (sequence.toNat + 1) u64Max)

theorem SeqId.toNat_next {sequence : SeqId} (room : sequence.toNat < u64Max) :
    (SeqId.next sequence).toNat = sequence.toNat + 1 := by
  unfold u64Max at room
  rw [SeqId.next, u64Max, Nat.min_eq_left (by omega), UInt64.toNat_ofNat']
  omega

/-- Only the first segment file of a session has the sequence zero. -/
theorem SeqId.next_ne_zero (sequence : SeqId) : SeqId.next sequence ≠ 0 := by
  intro zero
  have small : min (sequence.toNat + 1) u64Max < 2 ^ 64 := by
    unfold u64Max
    omega
  have value := congrArg UInt64.toNat zero
  rw [SeqId.next, UInt64.toNat_ofNat', Nat.mod_eq_of_lt small] at value
  unfold u64Max at value
  simp at value

/-- Everything that can go wrong reading or writing a log. -/
inductive LogError
  | clockError
  | eof
  | fixedLenMismatch
  | invalidHeader
  | invalidPathname
  | ioError
  | nameTooLong
  | noSegmentFiles
  | pathDelimiterNotAllowed
  | payloadTooLarge
  | readOverflow (n : Nat)
  | readTruncated (lost n : Nat)
  | segSizeTooSmall
  | sessionEnd
  | timerResolutionZero
  | timestampOverflow
  | versionMismatch
  deriving DecidableEq, Repr

/-- How data records are laid out in a segment file's data section. -/
inductive Format
  | fixed (n : RecSize)
  | variableSimple
  | variableTsRc
  deriving DecidableEq, Repr

namespace Format

def tagFixed : UInt8 := 0
def tagVariableSimple : UInt8 := 1
def tagVariableTsRc : UInt8 := 2

def variableSimpleHeaderLen : Nat := 4
def variableTsRcHeaderLen : Nat := 4 + 8 + 6
def variableTsRcHeaderLen10 : Nat := 4 + 8 + 4

/-- The byte stored in the segment file header's data format field. -/
def tag : Format → UInt8
  | fixed _ => tagFixed
  | variableSimple => tagVariableSimple
  | variableTsRc => tagVariableTsRc

/-- The `n` of `fixed n`, and zero for the variable formats. -/
def fixedLen : Format → RecSize
  | fixed n => n
  | variableSimple => 0
  | variableTsRc => 0

/-- The size of one data header in the format version this build writes. -/
def dataHeaderLen : Format → Nat
  | fixed _ => 0
  | variableSimple => variableSimpleHeaderLen
  | variableTsRc => variableTsRcHeaderLen

/-- The size of one data header in a file of a given minor version. -/
def dataHeaderLenIn (format : Format) (minor : Nat) : Nat :=
  match format with
  | variableTsRc => if minor = 0 then variableTsRcHeaderLen10 else variableTsRcHeaderLen
  | format => format.dataHeaderLen

/-- Rebuild a format from the two header fields that store it. -/
def fromTag (tag : UInt8) (arg : RecSize) : Except LogError Format :=
  if tag = tagFixed ∧ 0 < arg then .ok (fixed arg)
  else if tag = tagVariableSimple then .ok variableSimple
  else if tag = tagVariableTsRc then .ok variableTsRc
  else .error .invalidHeader

theorem fromTag_tag {format : Format} (valid : format ≠ fixed 0) :
    fromTag format.tag format.fixedLen = .ok format := by
  cases format with
  | fixed n =>
      have positive : 0 < n := by
        refine UInt32.pos_iff_ne_zero.mpr fun zero => valid ?_
        rw [zero]
      simp [fromTag, tag, fixedLen, positive]
  | variableSimple => rfl
  | variableTsRc => rfl

/-- A format that is read has room for data. -/
theorem fixed_pos_of_fromTag {tag : UInt8} {arg n : RecSize} (decoded : fromTag tag arg = .ok (fixed n)) :
    0 < n.toNat := by
  rw [fromTag] at decoded
  split at decoded
  next fits =>
    simp only [Except.ok.injEq, fixed.injEq] at decoded
    exact decoded ▸ UInt32.lt_iff_toNat_lt.mp fits.2
  · split at decoded
    · simp at decoded
    · split at decoded <;> simp at decoded

@[simp]
theorem dataHeaderLenIn_one (format : Format) : format.dataHeaderLenIn 1 = format.dataHeaderLen := by
  cases format <;> rfl

theorem dataHeaderLenIn_variableTsRc_pos (minor : Nat) : 0 < dataHeaderLenIn variableTsRc minor := by
  rw [dataHeaderLenIn]
  split <;> decide

theorem dataHeaderLen_le (format : Format) : format.dataHeaderLen ≤ 18 := by
  cases format <;> simp [dataHeaderLen, variableSimpleHeaderLen, variableTsRcHeaderLen]

theorem dataHeaderLenIn_le (format : Format) (minor : Nat) : format.dataHeaderLenIn minor ≤ 18 := by
  cases format with
  | variableTsRc =>
      rw [dataHeaderLenIn]
      split <;> decide
  | fixed n => exact (fixed n).dataHeaderLen_le
  | variableSimple => exact variableSimple.dataHeaderLen_le

end Format

/-- The metadata one data record carries. -/
inductive Meta
  | fixed
  | variableSimple
  | variableTsRc (ts : Timestamp) (rc : RecordCount)
  deriving DecidableEq, Repr

/-- One record: its payload and the metadata minted for it. -/
structure Record where
  payload : Bytes
  metadata : Meta
  deriving DecidableEq, Repr

open Lib.LittleEndian

/-- The data header of a record of `payloadLen` bytes carrying `metadata`. -/
def Meta.dataHeader (payloadLen : Nat) : Meta → Bytes
  | .fixed => []
  | .variableSimple => toLE 4 payloadLen
  | .variableTsRc ts rc => toLE 4 payloadLen ++ toLE 8 ts.toNat ++ toLE 6 rc.toNat

namespace Record

/-- A record as it stands in a data section: data header, then payload. -/
def encode (record : Record) : Bytes :=
  record.metadata.dataHeader record.payload.length ++ record.payload

/-- The records a log of a given format may hold. -/
def Fits (format : Format) (record : Record) : Prop :=
  match format, record.metadata with
  | .fixed n, .fixed => record.payload.length = n.toNat ∧ 0 < n
  | .variableSimple, .variableSimple => 4 + record.payload.length ≤ u32Max
  | .variableTsRc, .variableTsRc _ rc =>
      18 + record.payload.length ≤ u32Max ∧ rc.toNat ≤ recordCountMax
  | _, _ => False

@[simp]
theorem fits_fixed {n : UInt32} {payload : Bytes} {metadata : Meta} :
    Fits (.fixed n) ⟨payload, metadata⟩ ↔
      metadata = .fixed ∧ payload.length = n.toNat ∧ 0 < n := by
  cases metadata with
  | fixed => exact ⟨fun fits => ⟨rfl, fits⟩, fun ⟨_, fits⟩ => fits⟩
  | _ => exact ⟨fun fits => fits.elim, fun ⟨same, _⟩ => by cases same⟩

@[simp]
theorem fits_variableSimple {payload : Bytes} {metadata : Meta} :
    Fits .variableSimple ⟨payload, metadata⟩ ↔
      metadata = .variableSimple ∧ 4 + payload.length ≤ u32Max := by
  cases metadata with
  | variableSimple => exact ⟨fun fits => ⟨rfl, fits⟩, fun ⟨_, fits⟩ => fits⟩
  | _ => exact ⟨fun fits => fits.elim, fun ⟨same, _⟩ => by cases same⟩

@[simp]
theorem fits_variableTsRc {payload : Bytes} {metadata : Meta} :
    Fits .variableTsRc ⟨payload, metadata⟩ ↔
      ∃ ts rc, metadata = .variableTsRc ts rc ∧ 18 + payload.length ≤ u32Max ∧
        rc.toNat ≤ recordCountMax := by
  cases metadata with
  | variableTsRc ts rc =>
      refine ⟨fun fits => ⟨ts, rc, rfl, fits⟩, ?_⟩
      rintro ⟨_, _, ⟨⟩, fits⟩
      exact fits
  | _ => exact ⟨fun fits => fits.elim, fun ⟨_, _, same, _⟩ => by cases same⟩

theorem Fits.length_dataHeader {format : Format} {record : Record} (fits : record.Fits format) :
    (record.metadata.dataHeader record.payload.length).length = format.dataHeaderLen := by
  rcases record with ⟨payload, metadata⟩
  cases format with
  | fixed n =>
      obtain ⟨rfl, _⟩ := fits_fixed.mp fits
      rfl
  | variableSimple =>
      obtain ⟨rfl, _⟩ := fits_variableSimple.mp fits
      exact length_toLE 4 _
  | variableTsRc =>
      obtain ⟨ts, rc, rfl, _⟩ := fits_variableTsRc.mp fits
      simp [Meta.dataHeader, Format.dataHeaderLen, Format.variableTsRcHeaderLen]

theorem Fits.length_encode {format : Format} {record : Record} (fits : record.Fits format) :
    record.encode.length = format.dataHeaderLen + record.payload.length := by
  rw [encode, List.length_append, fits.length_dataHeader]

/-- No record is empty on disk: a record without a data header has a payload. -/
theorem Fits.encode_ne_nil {format : Format} {record : Record} (fits : record.Fits format) :
    record.encode ≠ [] := by
  apply List.ne_nil_of_length_pos
  rw [fits.length_encode]
  rcases record with ⟨payload, metadata⟩
  cases format with
  | fixed n =>
      obtain ⟨_, length, some⟩ := fits_fixed.mp fits
      have positive := UInt32.lt_iff_toNat_lt.mp some
      rw [UInt32.toNat_zero, ← length] at positive
      exact Nat.add_pos_right _ positive
  | variableSimple => simp [Format.dataHeaderLen, Format.variableSimpleHeaderLen]
  | variableTsRc => simp [Format.dataHeaderLen, Format.variableTsRcHeaderLen]

theorem Fits.length_encode_lt {format : Format} {record : Record} (fits : record.Fits format) :
    record.encode.length < 2 ^ 32 := by
  rw [fits.length_encode]
  rcases record with ⟨payload, metadata⟩
  cases format with
  | fixed n =>
      obtain ⟨_, length, _⟩ := fits_fixed.mp fits
      have := n.toNat_lt
      simp only [Format.dataHeaderLen]
      omega
  | variableSimple =>
      obtain ⟨_, le⟩ := fits_variableSimple.mp fits
      simp only [Format.dataHeaderLen, Format.variableSimpleHeaderLen, u32Max] at le ⊢
      omega
  | variableTsRc =>
      obtain ⟨_, _, _, le, _⟩ := fits_variableTsRc.mp fits
      simp only [Format.dataHeaderLen, Format.variableTsRcHeaderLen, u32Max] at le ⊢
      omega

end Record

end Tcslog
