import Tcslog.Header
import Tcslog.Lib.Spanned

/-!
# A session in files of either minor version

A tape is the records of one session, encoded with the data header of the
session's minor version, laid end to end and cut into files of one size.  The
data section may be as small as one byte, so that a data header runs over any
number of files, and the last file may end inside a record.
-/

namespace Tcslog

open Lib.LittleEndian Lib.Spanned

/-! ## Records in either minor version -/

/-- Bytes a data header gives the record count in a file of a given minor
version. -/
def recordCountLenIn (minor : Nat) : Nat :=
  if minor = 0 then 4 else 6

/-- The data header of a record in a file of a given minor version. -/
def Meta.dataHeaderIn (minor payloadLen : Nat) : Meta → Bytes
  | .fixed => []
  | .variableSimple => toLE 4 payloadLen
  | .variableTsRc ts rc =>
      toLE 4 payloadLen ++ toLE 8 ts.toNat ++ toLE (recordCountLenIn minor) rc.toNat

namespace Record

/-- A record as it stands in a data section of a given minor version. -/
def encodeIn (minor : Nat) (record : Record) : Bytes :=
  record.metadata.dataHeaderIn minor record.payload.length ++ record.payload

/-- The records that files of a given format and minor version may hold. -/
def FitsIn (format : Format) (minor : Nat) (record : Record) : Prop :=
  match format, record.metadata with
  | .fixed n, .fixed => record.payload.length = n.toNat
  | .variableSimple, .variableSimple => record.payload.length ≤ u32Max
  | .variableTsRc, .variableTsRc _ rc =>
      record.payload.length ≤ u32Max ∧ rc.toNat < 256 ^ recordCountLenIn minor
  | _, _ => False

section FitsIn

variable {format : Format} {minor : Nat} {record : Record} {payload : Bytes} {metadata : Meta}

@[simp]
theorem fitsIn_fixed {n : UInt32} :
    FitsIn (.fixed n) minor ⟨payload, metadata⟩ ↔ metadata = .fixed ∧ payload.length = n.toNat := by
  cases metadata with
  | fixed => exact ⟨fun fits => ⟨rfl, fits⟩, fun ⟨_, fits⟩ => fits⟩
  | _ => exact ⟨fun fits => fits.elim, fun ⟨same, _⟩ => by cases same⟩

@[simp]
theorem fitsIn_variableSimple : FitsIn .variableSimple minor ⟨payload, metadata⟩ ↔
    metadata = .variableSimple ∧ payload.length ≤ u32Max := by
  cases metadata with
  | variableSimple => exact ⟨fun fits => ⟨rfl, fits⟩, fun ⟨_, fits⟩ => fits⟩
  | _ => exact ⟨fun fits => fits.elim, fun ⟨same, _⟩ => by cases same⟩

@[simp]
theorem fitsIn_variableTsRc : FitsIn .variableTsRc minor ⟨payload, metadata⟩ ↔
    ∃ ts rc, metadata = .variableTsRc ts rc ∧ payload.length ≤ u32Max ∧
      rc.toNat < 256 ^ recordCountLenIn minor := by
  cases metadata with
  | variableTsRc ts rc =>
      refine ⟨fun fits => ⟨ts, rc, rfl, fits⟩, ?_⟩
      rintro ⟨_, _, ⟨⟩, fits⟩
      exact fits
  | _ => exact ⟨fun fits => fits.elim, fun ⟨_, _, same, _⟩ => by cases same⟩

/-- What a writer of this build stores is in the newest minor version. -/
theorem encodeIn_versionMinor (record : Record) : record.encodeIn versionMinor = record.encode := by
  rcases record with ⟨payload, metadata⟩
  cases metadata <;> rfl

theorem Fits.fitsIn (fits : record.Fits format) : record.FitsIn format versionMinor := by
  rcases record with ⟨payload, metadata⟩
  cases format with
  | fixed n =>
      obtain ⟨isFixed, length, _⟩ := fits_fixed.mp fits
      exact fitsIn_fixed.mpr ⟨isFixed, length⟩
  | variableSimple =>
      obtain ⟨isSimple, le⟩ := fits_variableSimple.mp fits
      exact fitsIn_variableSimple.mpr ⟨isSimple, by omega⟩
  | variableTsRc =>
      obtain ⟨ts, rc, isTsRc, le, countLe⟩ := fits_variableTsRc.mp fits
      refine fitsIn_variableTsRc.mpr ⟨ts, rc, isTsRc, by omega, ?_⟩
      rw [recordCountMax] at countLe
      change rc.toNat < 256 ^ 6
      omega

theorem FitsIn.length_dataHeaderIn (fits : record.FitsIn format minor) :
    (record.metadata.dataHeaderIn minor record.payload.length).length =
      format.dataHeaderLenIn minor := by
  rcases record with ⟨payload, metadata⟩
  cases format with
  | fixed n =>
      obtain ⟨rfl, _⟩ := fitsIn_fixed.mp fits
      rfl
  | variableSimple =>
      obtain ⟨rfl, _⟩ := fitsIn_variableSimple.mp fits
      exact length_toLE 4 _
  | variableTsRc =>
      obtain ⟨ts, rc, rfl, _⟩ := fitsIn_variableTsRc.mp fits
      simp only [Meta.dataHeaderIn, List.length_append, length_toLE, recordCountLenIn,
        Format.dataHeaderLenIn, Format.variableTsRcHeaderLen10, Format.variableTsRcHeaderLen]
      split <;> rfl

theorem FitsIn.length_encodeIn (fits : record.FitsIn format minor) :
    (record.encodeIn minor).length = format.dataHeaderLenIn minor + record.payload.length := by
  rw [encodeIn, List.length_append, fits.length_dataHeaderIn]

theorem FitsIn.payload_le (fits : record.FitsIn format minor) : record.payload.length ≤ u32Max := by
  rcases record with ⟨payload, metadata⟩
  cases format with
  | fixed n =>
      obtain ⟨_, length⟩ := fitsIn_fixed.mp fits
      have small : n.toNat ≤ u32Max := Nat.le_pred_of_lt n.toNat_lt
      exact length.le.trans small
  | variableSimple => exact (fitsIn_variableSimple.mp fits).2
  | variableTsRc =>
      obtain ⟨_, _, _, le, _⟩ := fitsIn_variableTsRc.mp fits
      exact le

/-- Every record takes room on disk: one without a data header has a payload. -/
theorem FitsIn.encodeIn_ne_nil (fits : record.FitsIn format minor) (valid : format ≠ .fixed 0) :
    record.encodeIn minor ≠ [] := by
  apply List.ne_nil_of_length_pos
  rw [fits.length_encodeIn]
  rcases record with ⟨payload, metadata⟩
  cases format with
  | fixed n =>
      obtain ⟨_, length⟩ := fitsIn_fixed.mp fits
      have positive : n.toNat ≠ 0 := by
        intro zero
        apply valid
        rw [UInt32.toNat_inj.mp (show n.toNat = (0 : UInt32).toNat from zero)]
      exact Nat.add_pos_right _ (by simp only; omega)
  | variableSimple => exact Nat.add_pos_left (Nat.zero_lt_succ 3) _
  | variableTsRc => exact Nat.add_pos_left (Format.dataHeaderLenIn_variableTsRc_pos minor) _

/-- A `VariableSimple` data header is its payload length. -/
theorem FitsIn.decode_variableSimple (fits : record.FitsIn .variableSimple minor) :
    record.metadata = .variableSimple ∧
      ofLE (record.metadata.dataHeaderIn minor record.payload.length) = record.payload.length := by
  rcases record with ⟨payload, metadata⟩
  obtain ⟨rfl, le⟩ := fitsIn_variableSimple.mp fits
  rw [u32Max] at le
  exact ⟨rfl, ofLE_toLE (show payload.length < 256 ^ 4 by omega)⟩

/-- A `VariableTsRc` data header is its payload length, timestamp and count. -/
theorem FitsIn.decode_variableTsRc (fits : record.FitsIn .variableTsRc minor) :
    let head := record.metadata.dataHeaderIn minor record.payload.length
    ofLE (takeAt head 0 4) = record.payload.length ∧
      record.metadata = .variableTsRc (UInt64.ofNat (ofLE (takeAt head 4 8)))
        (UInt64.ofNat (ofLE (head.drop 12))) := by
  rcases record with ⟨payload, metadata⟩
  obtain ⟨ts, rc, rfl, le, countFits⟩ := fitsIn_variableTsRc.mp fits
  rw [u32Max] at le
  obtain ⟨length, stamp, count⟩ :=
    decode_stamped ts (show payload.length < 256 ^ 4 by omega) countFits
  simp only [Meta.dataHeaderIn, length, stamp, count, and_self]

end FitsIn

end Record

/-! ## Tapes -/

/-- The records of one session in files of one size. -/
structure Tape where
  sessionId : SegId
  maxSize : UInt32
  format : Format
  minor : Nat
  ids : List SegId
  records : List Record
  /-- How many bytes of the records are in the files. -/
  stored : Nat
  room : segmentFileHeaderLen < maxSize.toNat
  readable : minor ≤ versionMinor
  formatValid : format ≠ .fixed 0
  nonempty : ids ≠ []
  ascending : ids.Pairwise (· < ·)
  fits : ∀ record ∈ records, record.FitsIn format minor
  filled : (ids.length - 1) * SegmentHeader.dataSectionLen maxSize ≤ stored
  storedFits : stored ≤ ids.length * SegmentHeader.dataSectionLen maxSize
  storedLe : stored ≤ (records.map (Record.encodeIn minor)).flatten.length
  /-- Only a first file is opened before there is something to store in it. -/
  tight : 1 < ids.length → (ids.length - 1) * SegmentHeader.dataSectionLen maxSize <
    (records.map (Record.encodeIn minor)).flatten.length

namespace Tape

variable (T : Tape)

/-- Bytes of data section a file of the tape may hold. -/
def dataSection : Nat :=
  SegmentHeader.dataSectionLen T.maxSize

/-- Bytes of the data header of each record. -/
def headerLen : Nat :=
  T.format.dataHeaderLenIn T.minor

/-- The records as they stand on the tape. -/
def blocks : List Bytes :=
  T.records.map (Record.encodeIn T.minor)

/-- Where record `i` begins. -/
def start (i : Nat) : Nat :=
  offset T.blocks i

/-- The header of file `j`. -/
def header (j : Nat) (id : SegId) : SegmentHeader where
  segmentId := id
  sessionId := T.sessionId
  maxSize := T.maxSize
  remaining := UInt64.ofNat (owed T.blocks (j * T.dataSection))
  format := T.format
  sequence := UInt64.ofNat j
  versionMinor := T.minor

/-- The data section of file `j`. -/
def data (j : Nat) : Bytes :=
  page T.dataSection (T.blocks.flatten.take T.stored) j

/-- File `j`. -/
def file (j : Nat) (id : SegId) : Bytes :=
  (T.header j id).toBytes ++ T.data j

/-- All records are in the files. -/
def Full : Prop :=
  T.stored = T.blocks.flatten.length

theorem dataSection_add : T.dataSection + segmentFileHeaderLen = T.maxSize.toNat :=
  Nat.sub_add_cancel T.room.le

theorem dataSection_pos : 0 < T.dataSection :=
  Nat.sub_pos_of_lt T.room

theorem ids_length_pos : 0 < T.ids.length :=
  List.length_pos_of_ne_nil T.nonempty

theorem length_data (j : Nat) :
    (T.data j).length = min T.dataSection (T.stored - j * T.dataSection) := by
  rw [data, length_page, List.length_take]
  have le : T.stored ≤ T.blocks.flatten.length := T.storedLe
  rw [Nat.min_eq_left le]

theorem length_data_le (j : Nat) : (T.data j).length ≤ T.dataSection :=
  page_length_le _ _ _

theorem page_start_le {j : Nat} (within : j < T.ids.length) : j * T.dataSection ≤ T.stored :=
  (Nat.mul_le_mul_right _ (by omega)).trans T.filled

/-- A file that is not the last is full. -/
theorem length_data_of_lt {j : Nat} (more : j + 1 < T.ids.length) :
    (T.data j).length = T.dataSection := by
  have next := T.page_start_le more
  rw [Nat.succ_mul] at next
  rw [length_data]
  omega

/-- The last file ends where the tape does. -/
theorem length_data_last {j : Nat} (last : j + 1 = T.ids.length) :
    j * T.dataSection + (T.data j).length = T.stored := by
  have within := T.page_start_le (j := j) (by omega)
  have fits : T.stored ≤ T.ids.length * T.dataSection := T.storedFits
  rw [← last, Nat.succ_mul] at fits
  rw [length_data]
  omega

@[simp]
theorem length_file (j : Nat) (id : SegId) :
    (T.file j id).length = segmentFileHeaderLen + (T.data j).length := by
  simp [file]

/-- There are no more files than there are identifiers. -/
theorem ids_length_le : T.ids.length ≤ 2 ^ 64 := by
  have distinct : (T.ids.map UInt64.toNat).Nodup := by
    refine List.pairwise_map.mpr (T.ascending.imp fun {a b} less same => ?_)
    exact absurd (UInt64.toNat_inj.mp same) (UInt64.ne_of_lt less)
  have bounded : T.ids.map UInt64.toNat ⊆ List.range (2 ^ 64) := by
    intro n mem
    obtain ⟨id, _, rfl⟩ := List.mem_map.mp mem
    exact List.mem_range.mpr id.toNat_lt
  simpa only [List.length_map, List.length_range] using (List.subperm_of_subset distinct bounded).length_le

variable {T}

/-! ## Records on the tape -/

theorem blocks_nonempty : ∀ block ∈ T.blocks, block ≠ [] := by
  intro block mem
  obtain ⟨record, memRecord, rfl⟩ := List.mem_map.mp mem
  exact (T.fits record memRecord).encodeIn_ne_nil T.formatValid

@[simp]
theorem length_blocks : T.blocks.length = T.records.length :=
  List.length_map _

section Records

variable {i j x n : Nat} {record : Record}

theorem fits_of_getElem? (recordAt : T.records[i]? = some record) : record.FitsIn T.format T.minor :=
  T.fits record (List.mem_of_getElem? recordAt)

theorem blocks_getElem? (recordAt : T.records[i]? = some record) :
    T.blocks[i]? = some (record.encodeIn T.minor) := by
  rw [blocks, List.getElem?_map, recordAt]
  rfl

theorem start_succ (recordAt : T.records[i]? = some record) :
    T.start (i + 1) = T.start i + (T.headerLen + record.payload.length) := by
  rw [headerLen, ← (fits_of_getElem? recordAt).length_encodeIn]
  exact offset_succ (blocks_getElem? recordAt)

@[simp]
theorem start_zero : T.start 0 = 0 :=
  offset_zero _

theorem start_mono {k : Nat} (le : i ≤ k) : T.start i ≤ T.start k :=
  offset_mono _ le

theorem start_lt (within : i < T.records.length) : T.start i < T.start (i + 1) :=
  offset_lt_offset_succ blocks_nonempty (by simpa using within)

theorem start_of_length_le (past : T.records.length ≤ i) : T.start i = T.blocks.flatten.length :=
  offset_of_length_le (by simpa using past)

/-- Where no record is left there are no bytes either. -/
theorem start_succ_of_length_le (past : T.records.length ≤ i) : T.start (i + 1) = T.start i := by
  rw [start_of_length_le past, start_of_length_le (past.trans (Nat.le_succ i))]

theorem owed_lt (p : Nat) (within : p ≤ T.blocks.flatten.length) : owed T.blocks p < 2 ^ 64 := by
  rcases Nat.eq_zero_or_pos (owed T.blocks p) with none | owes
  · omega
  obtain ⟨i, less, after, before⟩ := exists_inside_of_owed_pos within owes
  rw [length_blocks] at less
  have recordAt := List.getElem?_eq_getElem less
  have payloadLe := (fits_of_getElem? recordAt).payload_le
  have headerLe : T.headerLen ≤ 18 := Format.dataHeaderLenIn_le _ _
  have next := start_succ recordAt
  rw [owed_of_inside _ after before]
  unfold start u32Max at *
  omega

/-- The bytes of a record are those of the tape from its start on. -/
theorem take_drop_start (recordAt : T.records[i]? = some record)
    (within : x + n ≤ (record.encodeIn T.minor).length) :
    (T.blocks.flatten.drop (T.start i + x)).take n = ((record.encodeIn T.minor).drop x).take n := by
  have block := take_drop_offset (blocks_getElem? recordAt)
  conv_rhs => rw [← block]
  rw [List.drop_take, List.take_take, List.drop_drop, Nat.min_eq_left (by omega)]
  rfl

/-! ## What a file shows -/

@[simp]
theorem header_sequence {id : SegId} (within : j < T.ids.length) : (T.header j id).sequence.toNat = j := by
  have := T.ids_length_le
  simp only [header, UInt64.toNat_ofNat']
  omega

/-- The file after the one that ends inside a record owes the rest of it. -/
theorem header_remaining {id : SegId} (within : j < T.ids.length)
    (place : j * T.dataSection = T.start i + x) (inside : T.start i + x < T.start (i + 1) ∨ x = 0) :
    (T.header j id).remaining.toNat = if x = 0 then 0 else T.start (i + 1) - (T.start i + x) := by
  have le : T.stored ≤ T.blocks.flatten.length := T.storedLe
  have small := T.owed_lt (j * T.dataSection) ((T.page_start_le within).trans le)
  have isOwed : (T.header j id).remaining.toNat = owed T.blocks (j * T.dataSection) := by
    simp only [header, UInt64.toNat_ofNat']
    omega
  rw [isOwed, place]
  by_cases atStart : x = 0
  · rw [if_pos atStart, atStart, Nat.add_zero]
    exact owed_offset blocks_nonempty i
  · rw [if_neg atStart]
    exact owed_of_inside _ (Nat.lt_add_of_pos_right (Nat.pos_of_ne_zero atStart))
      (inside.resolve_right atStart)

theorem fromBytes_file (j : Nat) (id : SegId) (c : Nat) :
    SegmentHeader.fromBytes (((T.file j id).take (segmentFileHeaderLen + c)).take
      segmentFileHeaderLen) = .ok (T.header j id) := by
  have front : ((T.file j id).take (segmentFileHeaderLen + c)).take segmentFileHeaderLen =
      (T.header j id).toBytes := by
    rw [List.take_take, Nat.min_eq_left (by omega), file,
      List.take_append_of_le_length (by simp), List.take_of_length_le (by simp)]
  rw [front]
  exact SegmentHeader.fromBytes_toBytes T.readable T.formatValid

/-- Reading a file's data section is reading the tape. -/
theorem take_drop_file (id : SegId) {c pos : Nat} (within : pos + n ≤ c)
    (shown : c ≤ (T.data j).length) :
    (((T.file j id).take (segmentFileHeaderLen + c)).drop (segmentFileHeaderLen + pos)).take n =
      (T.blocks.flatten.drop (j * T.dataSection + pos)).take n := by
  have len := T.length_data j
  have room := T.length_data_le j
  rw [file, data, take_drop_headed (T.blocks.flatten.take T.stored) (SegmentHeader.length_toBytes _)
    within (within.trans (shown.trans room)), List.drop_take, List.take_take,
    Nat.min_eq_left (by omega)]

end Records

end Tape

end Tcslog
