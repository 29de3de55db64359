import Tcslog.Format
import Mathlib.Tactic.IntervalCases

/-!
# The segment file header

The fixed-size header that opens every segment file, with its on-disk
encoding.  Fields are packed at fixed offsets and every number is stored
little-endian.
-/

namespace Tcslog

open Lib.LittleEndian

/-- Length of a segment file header, the same for every format. -/
def segmentFileHeaderLen : Nat := 53

def versionMajor : Nat := 1
def versionMinor : Nat := 1
def versionPatch : Nat := 0

/-- The ASCII string `tcslogsf`. -/
def typeMagic : Bytes := [0x74, 0x63, 0x73, 0x6c, 0x6f, 0x67, 0x73, 0x66]

def offType : Nat := 0
def offVersion : Nat := 8
def offSegmentId : Nat := 12
def offSessionId : Nat := 20
def offMaxSize : Nat := 28
def offRemaining : Nat := 32
def offFormatTag : Nat := 40
def offFormatArg : Nat := 41
def offSequence : Nat := 45

/-- The header that opens every segment file. -/
structure SegmentHeader where
  segmentId : SegId
  sessionId : SegId
  maxSize : UInt32
  remaining : UInt64
  format : Format
  sequence : SeqId
  versionMinor : Nat
  deriving DecidableEq, Repr

/-- Overwrite the bytes of `out` from `off` on. -/
def copyAt (out : Bytes) (off : Nat) (bytes : Bytes) : Bytes :=
  out.take off ++ bytes ++ out.drop (off + bytes.length)

/-- Copy `n` bytes out of a header buffer. -/
def takeAt (bytes : Bytes) (off n : Nat) : Bytes :=
  (bytes.drop off).take n

/-- The four version characters of a file this build writes. -/
def versionBytes (minor : Nat) : Bytes :=
  [0x30 + UInt8.ofNat (versionMajor / 10), 0x30 + UInt8.ofNat (versionMajor % 10),
    0x30 + UInt8.ofNat (minor % 10), 0x30 + UInt8.ofNat (versionPatch % 10)]

def isAsciiDigit (byte : UInt8) : Bool :=
  0x30 ≤ byte ∧ byte ≤ 0x39

/-- Decide whether a stored version field names a format this build reads, and
return its minor number. -/
def checkVersion (field : Bytes) : Except LogError Nat :=
  match field with
  | [d₀, d₁, d₂, d₃] =>
      if ([d₀, d₁, d₂, d₃].any fun byte => !isAsciiDigit byte) then .error .versionMismatch
      else
        let digit (byte : UInt8) : Nat := (byte - 0x30).toNat
        let major := digit d₀ * 10 + digit d₁
        let minor := digit d₂
        if major = versionMajor ∧ minor ≤ versionMinor then .ok minor
        else .error .versionMismatch
  | _ => .error .versionMismatch

namespace SegmentHeader

/-- The bytes of a file of at most `maxSize` that hold data records. -/
def dataSectionLen (maxSize : UInt32) : Nat :=
  maxSize.toNat - segmentFileHeaderLen

/-- The data section length implied by a header's max size field. -/
def dataLen (header : SegmentHeader) : Nat :=
  dataSectionLen header.maxSize

/-- Encode a header in its on-disk form. -/
def toBytes (header : SegmentHeader) : Bytes :=
  let out : Bytes := List.replicate segmentFileHeaderLen 0
  let out := copyAt out offType typeMagic
  let out := copyAt out offVersion (versionBytes header.versionMinor)
  let out := copyAt out offSegmentId (toLE 8 header.segmentId.toNat)
  let out := copyAt out offSessionId (toLE 8 header.sessionId.toNat)
  let out := copyAt out offMaxSize (toLE 4 header.maxSize.toNat)
  let out := copyAt out offRemaining (toLE 8 header.remaining.toNat)
  let out := copyAt out offFormatTag [header.format.tag]
  let out := copyAt out offFormatArg (toLE 4 header.format.fixedLen.toNat)
  copyAt out offSequence (toLE 8 header.sequence.toNat)

/-- Decode a header from its on-disk form. -/
def fromBytes (bytes : Bytes) : Except LogError SegmentHeader := do
  if bytes.length < segmentFileHeaderLen then throw .invalidHeader
  if takeAt bytes offType 8 ≠ typeMagic then throw .invalidHeader
  let minor ← checkVersion (takeAt bytes offVersion 4)
  let tag := bytes.getD offFormatTag 0
  let arg := UInt32.ofNat (ofLE (takeAt bytes offFormatArg 4))
  let format ← Format.fromTag tag arg
  return {
    segmentId := UInt64.ofNat (ofLE (takeAt bytes offSegmentId 8))
    sessionId := UInt64.ofNat (ofLE (takeAt bytes offSessionId 8))
    maxSize := UInt32.ofNat (ofLE (takeAt bytes offMaxSize 4))
    remaining := UInt64.ofNat (ofLE (takeAt bytes offRemaining 8))
    format := format
    sequence := UInt64.ofNat (ofLE (takeAt bytes offSequence 8))
    versionMinor := minor }

end SegmentHeader

/-! ## The encoding is the fields end to end -/

theorem copyAt_replicate (front bytes : Bytes) {off m : Nat} (atEnd : front.length = off) :
    copyAt (front ++ List.replicate m 0) off bytes =
      (front ++ bytes) ++ List.replicate (m - bytes.length) 0 := by
  subst atEnd
  rw [copyAt, List.take_left, ← List.drop_drop, List.drop_left, List.drop_replicate]

theorem takeAt_append_right {front rest : Bytes} {off n : Nat} (atEnd : front.length ≤ off) :
    takeAt (front ++ rest) off n = takeAt rest (off - front.length) n := by
  rw [takeAt, takeAt, List.drop_append, List.drop_eq_nil_of_le atEnd, List.nil_append]

theorem takeAt_zero_append {field rest : Bytes} {n : Nat} (len : field.length = n) :
    takeAt (field ++ rest) 0 n = field := by
  subst len
  simp [takeAt]

/-- A length, a timestamp and a count that stand one after the other are decoded as
they were stored. -/
theorem decode_stamped {len width : Nat} {rc : UInt64} (ts : UInt64) (lenFits : len < 256 ^ 4)
    (countFits : rc.toNat < 256 ^ width) :
    let head := toLE 4 len ++ toLE 8 ts.toNat ++ toLE width rc.toNat
    ofLE (takeAt head 0 4) = len ∧ UInt64.ofNat (ofLE (takeAt head 4 8)) = ts ∧
      UInt64.ofNat (ofLE (head.drop 12)) = rc := by
  intro head
  have length : takeAt head 0 4 = toLE 4 len := by
    simp only [head]
    rw [List.append_assoc, takeAt_zero_append (by simp)]
  have stamp : takeAt head 4 8 = toLE 8 ts.toNat := by
    simp only [head]
    rw [List.append_assoc, takeAt_append_right (by simp), length_toLE, Nat.sub_self,
      takeAt_zero_append (by simp)]
  have count : head.drop 12 = toLE width rc.toNat := List.drop_left' (by simp)
  rw [length, stamp, count, ofLE_toLE lenFits, ofLE_toLE (by exact ts.toNat_lt), ofLE_toLE countFits,
    UInt64.ofNat_toNat, UInt64.ofNat_toNat]
  exact ⟨rfl, rfl, rfl⟩

/-- Versions this build reads back are the ones it writes. -/
theorem checkVersion_versionBytes {minor : Nat} (readable : minor ≤ versionMinor) :
    checkVersion (versionBytes minor) = .ok minor := by
  unfold versionMinor at readable
  interval_cases minor <;> rfl

namespace SegmentHeader

/-- The header fields in the order of their offsets. -/
def fields (header : SegmentHeader) : Bytes :=
  typeMagic ++ (versionBytes header.versionMinor ++ (toLE 8 header.segmentId.toNat ++
    (toLE 8 header.sessionId.toNat ++ (toLE 4 header.maxSize.toNat ++
    (toLE 8 header.remaining.toNat ++ ([header.format.tag] ++
    (toLE 4 header.format.fixedLen.toNat ++ toLE 8 header.sequence.toNat)))))))

theorem toBytes_eq_fields (header : SegmentHeader) : header.toBytes = header.fields := by
  have start : (List.replicate segmentFileHeaderLen 0 : Bytes) = [] ++ List.replicate 53 0 := rfl
  simp only [toBytes, start]
  rw [copyAt_replicate _ _ (by simp [offType]),
    copyAt_replicate _ _ (by simp [typeMagic, offVersion]),
    copyAt_replicate _ _ (by simp [typeMagic, versionBytes, offSegmentId]),
    copyAt_replicate _ _ (by simp [typeMagic, versionBytes, offSessionId]),
    copyAt_replicate _ _ (by simp [typeMagic, versionBytes, offMaxSize]),
    copyAt_replicate _ _ (by simp [typeMagic, versionBytes, offRemaining]),
    copyAt_replicate _ _ (by simp [typeMagic, versionBytes, offFormatTag]),
    copyAt_replicate _ _ (by simp [typeMagic, versionBytes, offFormatArg]),
    copyAt_replicate _ _ (by simp [typeMagic, versionBytes, offSequence])]
  simp [fields, typeMagic, versionBytes]

@[simp]
theorem length_toBytes (header : SegmentHeader) :
    header.toBytes.length = segmentFileHeaderLen := by
  simp [toBytes_eq_fields, fields, typeMagic, versionBytes, segmentFileHeaderLen]

theorem length_versionBytes (minor : Nat) : (versionBytes minor).length = 4 :=
  rfl

/-- Whatever follows a header, decoding returns the header that was encoded. -/
theorem fromBytes_toBytes_append {header : SegmentHeader} (rest : Bytes)
    (readable : header.versionMinor ≤ Tcslog.versionMinor) (valid : header.format ≠ .fixed 0) :
    fromBytes (header.toBytes ++ rest) = .ok header := by
  have magicLen : typeMagic.length = 8 := rfl
  have versionLen := length_versionBytes header.versionMinor
  have longEnough : ¬ (header.toBytes ++ rest).length < segmentFileHeaderLen := by simp
  have u64 (value : UInt64) : UInt64.ofNat (ofLE (toLE 8 value.toNat)) = value := by
    rw [ofLE_toLE (by exact value.toNat_lt), UInt64.ofNat_toNat]
  have u32 (value : UInt32) : UInt32.ofNat (ofLE (toLE 4 value.toNat)) = value := by
    rw [ofLE_toLE (by exact value.toNat_lt), UInt32.ofNat_toNat]
  have tagAt : (header.toBytes ++ rest).getD offFormatTag 0 = header.format.tag := by
    rw [toBytes_eq_fields, fields]
    simp [List.getD_eq_getElem?_getD, List.getElem?_append, magicLen, versionLen, offFormatTag]
  simp only [fromBytes, longEnough, if_false, tagAt]
  simp only [toBytes_eq_fields, fields, List.append_assoc]
  simp only [takeAt_append_right, takeAt_zero_append, magicLen, versionLen, length_toLE,
    List.length_singleton, offType, offVersion, offSegmentId, offSessionId, offMaxSize,
    offRemaining, offFormatArg, offSequence, Nat.reduceLeDiff, Nat.reduceSub, le_refl, Nat.sub_self,
    u32, u64, checkVersion_versionBytes readable, Format.fromTag_tag valid, ne_eq,
    not_true_eq_false, if_false]
  rfl

theorem fromBytes_toBytes {header : SegmentHeader}
    (readable : header.versionMinor ≤ Tcslog.versionMinor) (valid : header.format ≠ .fixed 0) :
    fromBytes header.toBytes = .ok header := by
  simpa using fromBytes_toBytes_append [] readable valid

/-- The format of a header that decodes is one of a tag and an argument. -/
theorem format_of_fromBytes {bytes : Bytes} {header : SegmentHeader}
    (decoded : fromBytes bytes = .ok header) : ∃ tag arg, Format.fromTag tag arg = .ok header.format := by
  simp only [fromBytes] at decoded
  split at decoded
  · contradiction
  split at decoded
  · contradiction
  cases version : checkVersion (takeAt bytes offVersion 4) with
  | error e =>
      rw [version] at decoded
      contradiction
  | ok minor =>
      rw [version] at decoded
      cases format : Format.fromTag (bytes.getD offFormatTag 0)
          (UInt32.ofNat (ofLE (takeAt bytes offFormatArg 4))) with
      | error e =>
          simp only [bind, Except.bind, format] at decoded
          contradiction
      | ok found =>
          simp only [bind, Except.bind, format] at decoded
          exact ⟨_, _, format.trans (Except.ok.inj decoded ▸ rfl)⟩

end SegmentHeader

end Tcslog
