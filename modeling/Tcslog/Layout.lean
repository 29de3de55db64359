import Tcslog.Header
import Tcslog.Lib.Spanned

/-!
# The log on disk

A strand is a run of segment files of one session written without
interruption: its records, encoded and laid end to end, are one tape, and file
`j` holds page `j` of what was stored of that tape, after a header that names
the file, its place in the session and what the page's first byte still owes
to the record in progress.

A log is a list of strands in the order of their files.  A session written
without an error is one strand; a writer that gave up a file after an error
continues the session in another strand, and leaves a file short behind it.
-/

namespace Tcslog

open Lib.Spanned

/-- A run of files of one session, written without interruption. -/
structure Strand where
  sessionId : SegId
  segSizeMax : UInt32
  format : Format
  /-- The sequence of the strand's first file. -/
  firstSequence : Nat
  ids : List SegId
  records : List Record
  /-- How many bytes of the records were stored. -/
  stored : Nat
  roomy : format.dataHeaderLen < SegmentHeader.dataSectionLen segSizeMax
  formatValid : format ≠ .fixed 0
  nonempty : ids ≠ []
  ascending : ids.Pairwise (· < ·)
  opened : ∀ id ∈ ids, sessionId ≤ id
  fits : ∀ record ∈ records, record.Fits format
  sequencesFit : firstSequence + ids.length < 2 ^ 64
  filled : (ids.length - 1) * SegmentHeader.dataSectionLen segSizeMax ≤ stored
  storedFits : stored ≤ ids.length * SegmentHeader.dataSectionLen segSizeMax
  storedLe : stored ≤ (records.map Record.encode).flatten.length

namespace Strand

variable (σ : Strand)

/-- Bytes of data section a file of the strand may hold. -/
def dataSection : Nat :=
  SegmentHeader.dataSectionLen σ.segSizeMax

/-- The records as they stand on the tape. -/
def blocks : List Bytes :=
  σ.records.map Record.encode

/-- Where record `i` begins on the tape. -/
def start (i : Nat) : Nat :=
  offset σ.blocks i

/-- The bytes that were stored. -/
def tape : Bytes :=
  σ.blocks.flatten.take σ.stored

/-- The header of file `j`. -/
def header (j : Nat) (id : SegId) : SegmentHeader where
  segmentId := id
  sessionId := σ.sessionId
  maxSize := σ.segSizeMax
  remaining := UInt64.ofNat (owed σ.blocks (j * σ.dataSection))
  format := σ.format
  sequence := UInt64.ofNat (σ.firstSequence + j)
  versionMinor := versionMinor

/-- The data section of file `j`. -/
def data (j : Nat) : Bytes :=
  page σ.dataSection σ.tape j

/-- File `j`. -/
def file (j : Nat) (id : SegId) : Bytes :=
  (σ.header j id).toBytes ++ σ.data j

theorem dataSection_pos : 0 < σ.dataSection :=
  (Nat.zero_le _).trans_lt σ.roomy

theorem dataSection_add : σ.dataSection + segmentFileHeaderLen = σ.segSizeMax.toNat := by
  have := σ.dataSection_pos
  unfold dataSection SegmentHeader.dataSectionLen at *
  omega

theorem dataSection_lt : σ.dataSection < 2 ^ 32 := by
  have := σ.dataSection_add
  have := σ.segSizeMax.toNat_lt
  omega

@[simp]
theorem length_tape : σ.tape.length = σ.stored := by
  rw [tape, List.length_take]
  exact Nat.min_eq_left σ.storedLe

theorem length_data (j : Nat) :
    (σ.data j).length = min σ.dataSection (σ.stored - j * σ.dataSection) := by
  rw [data, length_page, length_tape]

theorem length_data_le (j : Nat) : (σ.data j).length ≤ σ.dataSection :=
  page_length_le _ _ _

/-- A file that is not the last of its strand is full. -/
theorem length_data_of_lt {j : Nat} (more : j + 1 < σ.ids.length) :
    (σ.data j).length = σ.dataSection := by
  have filled := σ.filled
  have next : (j + 1) * σ.dataSection ≤ (σ.ids.length - 1) * σ.dataSection :=
    Nat.mul_le_mul_right _ (by omega)
  rw [length_data]
  unfold dataSection at *
  rw [Nat.succ_mul] at next
  omega

theorem page_start_le {j : Nat} (within : j < σ.ids.length) : j * σ.dataSection ≤ σ.stored :=
  (Nat.mul_le_mul_right _ (by omega)).trans σ.filled

theorem page_start_le_flatten {j : Nat} (within : j < σ.ids.length) :
    j * σ.dataSection ≤ σ.blocks.flatten.length :=
  (σ.page_start_le within).trans σ.storedLe

/-! ## Records on the tape -/

variable {σ}

theorem blocks_nonempty : ∀ block ∈ σ.blocks, block ≠ [] := by
  intro block mem
  obtain ⟨record, memRecord, rfl⟩ := List.mem_map.mp mem
  exact (σ.fits record memRecord).encode_ne_nil

@[simp]
theorem length_blocks : σ.blocks.length = σ.records.length :=
  List.length_map _

theorem blocks_getElem? {i : Nat} {record : Record} (recordAt : σ.records[i]? = some record) :
    σ.blocks[i]? = some record.encode := by
  rw [blocks, List.getElem?_map, recordAt]
  rfl

theorem fits_of_getElem? {i : Nat} {record : Record} (recordAt : σ.records[i]? = some record) :
    record.Fits σ.format :=
  σ.fits record (List.mem_of_getElem? recordAt)

theorem start_succ {i : Nat} {record : Record} (recordAt : σ.records[i]? = some record) :
    σ.start (i + 1) = σ.start i + record.encode.length :=
  offset_succ (blocks_getElem? recordAt)

@[simp]
theorem start_zero : σ.start 0 = 0 :=
  offset_zero _

theorem start_mono {i i' : Nat} (le : i ≤ i') : σ.start i ≤ σ.start i' :=
  offset_mono _ le

theorem start_lt {i i' : Nat} (lt : i < i') (within : i' ≤ σ.records.length) :
    σ.start i < σ.start i' :=
  offset_lt blocks_nonempty lt (by simpa using within)

theorem start_of_length_le {i : Nat} (past : σ.records.length ≤ i) :
    σ.start i = σ.blocks.flatten.length :=
  offset_of_length_le (by simpa using past)

theorem start_length : σ.start σ.records.length = σ.blocks.flatten.length := by
  rw [start, ← length_blocks, offset_length]

theorem owed_lt (p : Nat) (within : p ≤ σ.blocks.flatten.length) : owed σ.blocks p < 2 ^ 32 := by
  rcases Nat.eq_zero_or_pos (owed σ.blocks p) with none | owes
  · omega
  obtain ⟨i, less, after, before⟩ := exists_inside_of_owed_pos within owes
  rw [length_blocks] at less
  have recordAt := List.getElem?_eq_getElem less
  have len := (fits_of_getElem? recordAt).length_encode_lt
  have next := start_succ recordAt
  rw [owed_of_inside _ after before]
  unfold start at next
  omega

/-- Inside a record, a position owes the rest of the record. -/
theorem owed_of_start {i x : Nat} (inside : σ.start i + x < σ.start (i + 1)) (begun : 0 < x) :
    owed σ.blocks (σ.start i + x) = σ.start (i + 1) - (σ.start i + x) :=
  owed_of_inside _ (Nat.lt_add_of_pos_right begun) inside

@[simp]
theorem owed_start (i : Nat) : owed σ.blocks (σ.start i) = 0 :=
  owed_offset blocks_nonempty i

/-- A record is at least its data header. -/
theorem start_add_dataHeaderLen_le {i : Nat} (within : i < σ.records.length) :
    σ.start i + σ.format.dataHeaderLen ≤ σ.start (i + 1) := by
  have recordAt := List.getElem?_eq_getElem within
  rw [start_succ recordAt, (fits_of_getElem? recordAt).length_encode]
  omega

/-- The bytes of a record are those of the tape from its start on. -/
theorem take_drop_start {i x n : Nat} {record : Record} (recordAt : σ.records[i]? = some record)
    (within : x + n ≤ record.encode.length) :
    (σ.blocks.flatten.drop (σ.start i + x)).take n = (record.encode.drop x).take n := by
  have block := take_drop_offset (blocks_getElem? recordAt)
  conv_rhs => rw [← block]
  rw [List.drop_take, List.take_take, List.drop_drop, Nat.min_eq_left (by omega)]
  rfl

/-! ## What a file shows -/

@[simp]
theorem header_remaining {j : Nat} {id : SegId} (within : j < σ.ids.length) :
    (σ.header j id).remaining.toNat = owed σ.blocks (j * σ.dataSection) := by
  have small := owed_lt _ (σ.page_start_le_flatten within)
  simp only [header, UInt64.toNat_ofNat']
  omega

@[simp]
theorem header_sequence {j : Nat} {id : SegId} (within : j < σ.ids.length) :
    (σ.header j id).sequence.toNat = σ.firstSequence + j := by
  have := σ.sequencesFit
  simp only [header, UInt64.toNat_ofNat']
  omega

theorem fromBytes_file (j : Nat) (id : SegId) (c : Nat) :
    SegmentHeader.fromBytes (((σ.file j id).take (segmentFileHeaderLen + c)).take
      segmentFileHeaderLen) = .ok (σ.header j id) := by
  have front : ((σ.file j id).take (segmentFileHeaderLen + c)).take segmentFileHeaderLen =
      (σ.header j id).toBytes := by
    rw [List.take_take, Nat.min_eq_left (by omega), file,
      List.take_append_of_le_length (by simp), List.take_of_length_le (by simp)]
  rw [front]
  exact SegmentHeader.fromBytes_toBytes (Nat.le_refl _) σ.formatValid

@[simp]
theorem length_file (j : Nat) (id : SegId) :
    (σ.file j id).length = segmentFileHeaderLen + (σ.data j).length := by
  simp [file]

theorem length_take_file {j : Nat} (id : SegId) {c : Nat} (within : c ≤ (σ.data j).length) :
    ((σ.file j id).take (segmentFileHeaderLen + c)).length = segmentFileHeaderLen + c := by
  simp
  omega

/-- Reading a file's data section is reading the tape. -/
theorem take_drop_file {j : Nat} (id : SegId) {c pos n : Nat} (within : pos + n ≤ c)
    (shown : c ≤ (σ.data j).length) :
    (((σ.file j id).take (segmentFileHeaderLen + c)).drop (segmentFileHeaderLen + pos)).take n =
      (σ.blocks.flatten.drop (j * σ.dataSection + pos)).take n := by
  have len := σ.length_data j
  have room := σ.length_data_le j
  rw [file, data, take_drop_headed σ.tape (SegmentHeader.length_toBytes _) within
    (within.trans (shown.trans room)), tape, List.drop_take, List.take_take, Nat.min_eq_left (by omega)]

end Strand

/-! ## Strands in order -/

/-- Strand `σ` lies before strand `τ` in a log: its files have the smaller
identifiers, and `τ` belongs to a later session or continues the session after
a file `σ` left short. -/
structure Strand.Before (σ τ : Strand) : Prop where
  ids : ∀ a ∈ σ.ids, ∀ b ∈ τ.ids, a < b
  session : σ.sessionId < τ.sessionId ∨
    σ.sessionId = τ.sessionId ∧ σ.firstSequence + σ.ids.length ≤ τ.firstSequence ∧
      σ.stored < σ.ids.length * σ.dataSection

/-- The strands of a log, oldest first. -/
structure Log where
  strands : List Strand
  ordered : strands.Pairwise Strand.Before

namespace Log

variable {L : Log}

/-- File `j` of strand `k` is `σ`'s, and `id` names it. -/
structure FileAt (L : Log) (k j : Nat) (σ : Strand) (id : SegId) : Prop where
  strandAt : L.strands[k]? = some σ
  idAt : σ.ids[j]? = some id

theorem FileAt.lt {k j : Nat} {σ : Strand} {id : SegId} (fileAt : L.FileAt k j σ id) :
    j < σ.ids.length :=
  (List.getElem?_eq_some_iff.mp fileAt.idAt).1

theorem before {k k' : Nat} {σ τ : Strand} (strandAt : L.strands[k]? = some σ)
    (strandAt' : L.strands[k']? = some τ) (lt : k < k') : σ.Before τ := by
  obtain ⟨_, rfl⟩ := List.getElem?_eq_some_iff.mp strandAt
  obtain ⟨_, rfl⟩ := List.getElem?_eq_some_iff.mp strandAt'
  exact List.pairwise_iff_getElem.mp L.ordered k k' _ _ lt

/-- Identifiers order the files of a log by strand, then within the strand. -/
theorem FileAt.id_lt_iff {k j k' j' : Nat} {σ τ : Strand} {id id' : SegId}
    (fileAt : L.FileAt k j σ id) (fileAt' : L.FileAt k' j' τ id') :
    id < id' ↔ k < k' ∨ k = k' ∧ j < j' := by
  have within {k j j' : Nat} {σ τ : Strand} {id id' : SegId} (at₁ : L.FileAt k j σ id)
      (at₂ : L.FileAt k j' τ id') (lt : j < j') : id < id' := by
    obtain rfl : σ = τ := Option.some.inj (at₁.strandAt.symm.trans at₂.strandAt)
    obtain ⟨_, rfl⟩ := List.getElem?_eq_some_iff.mp at₁.idAt
    obtain ⟨_, rfl⟩ := List.getElem?_eq_some_iff.mp at₂.idAt
    exact List.pairwise_iff_getElem.mp σ.ascending j j' _ _ lt
  have across {k j k' j' : Nat} {σ τ : Strand} {id id' : SegId} (at₁ : L.FileAt k j σ id)
      (at₂ : L.FileAt k' j' τ id') (lt : k < k') : id < id' :=
    (before at₁.strandAt at₂.strandAt lt).ids _ (List.mem_of_getElem? at₁.idAt) _
      (List.mem_of_getElem? at₂.idAt)
  constructor
  · intro lt
    rcases Nat.lt_trichotomy k k' with less | rfl | more
    · exact .inl less
    · rcases Nat.lt_trichotomy j j' with less | rfl | more
      · exact .inr ⟨rfl, less⟩
      · have same : some id = some id' := by
          rw [← fileAt.idAt, ← fileAt'.idAt,
            Option.some.inj (fileAt.strandAt.symm.trans fileAt'.strandAt)]
        rw [Option.some.inj same] at lt
        exact absurd lt (UInt64.lt_irrefl _)
      · exact absurd lt (UInt64.lt_asymm (within fileAt' fileAt more))
    · exact absurd lt (UInt64.lt_asymm (across fileAt' fileAt more))
  · rintro (less | ⟨rfl, less⟩)
    · exact across fileAt fileAt' less
    · exact within fileAt fileAt' less

/-- An identifier names at most one file of a log. -/
theorem FileAt.unique {k j k' j' : Nat} {σ τ : Strand} {id : SegId}
    (fileAt : L.FileAt k j σ id) (fileAt' : L.FileAt k' j' τ id) : k = k' ∧ j = j' ∧ σ = τ := by
  have notLt := (fileAt.id_lt_iff fileAt').not.mp (UInt64.lt_irrefl _)
  have notGt := (fileAt'.id_lt_iff fileAt).not.mp (UInt64.lt_irrefl _)
  obtain rfl : k = k' := by omega
  obtain rfl : j = j' := by omega
  exact ⟨rfl, rfl, Option.some.inj (fileAt.strandAt.symm.trans fileAt'.strandAt)⟩

/-- In one session, the file whose sequence follows that of a full file is the
next file of the same strand. -/
theorem FileAt.next_of_sequence {k j k' j' : Nat} {σ τ : Strand} {id id' : SegId}
    (fileAt : L.FileAt k j σ id) (fileAt' : L.FileAt k' j' τ id')
    (sameSession : τ.sessionId = σ.sessionId)
    (follows : τ.firstSequence + j' = σ.firstSequence + j + 1)
    (full : (σ.data j).length = σ.dataSection) : k' = k ∧ j' = j + 1 := by
  have within := fileAt.lt
  have within' := fileAt'.lt
  rcases Nat.lt_trichotomy k k' with less | rfl | more
  · rcases (before fileAt.strandAt fileAt'.strandAt less).session with lt | ⟨_, next, short⟩
    · exact absurd (sameSession ▸ lt) (UInt64.lt_irrefl _)
    · -- The earlier strand would end with this file, which it left short.
      have last : σ.ids.length = j + 1 := by omega
      rw [last, Nat.succ_mul] at short
      rw [σ.length_data] at full
      have := σ.dataSection_pos
      omega
  · obtain rfl : σ = τ := Option.some.inj (fileAt.strandAt.symm.trans fileAt'.strandAt)
    exact ⟨rfl, by omega⟩
  · rcases (before fileAt'.strandAt fileAt.strandAt more).session with lt | ⟨_, next, _⟩
    · exact absurd (sameSession ▸ lt) (UInt64.lt_irrefl _)
    · omega

/-- In one session, a file that is not the first of its strand and whose
sequence is one past the next of a full file lies two files on. -/
theorem FileAt.next_but_one {k j k' j' : Nat} {σ τ : Strand} {id id' : SegId}
    (fileAt : L.FileAt k j σ id) (fileAt' : L.FileAt k' j' τ id')
    (sameSession : τ.sessionId = σ.sessionId)
    (follows : τ.firstSequence + j' = σ.firstSequence + j + 2) (notFirst : 0 < j')
    (full : (σ.data j).length = σ.dataSection) : k' = k ∧ j' = j + 2 := by
  have within := fileAt.lt
  have previous : ∃ id, τ.ids[j' - 1]? = some id :=
    ⟨_, List.getElem?_eq_getElem (Nat.lt_of_le_of_lt (Nat.sub_le _ _) fileAt'.lt)⟩
  obtain ⟨id₀, idAt⟩ := previous
  have next := fileAt.next_of_sequence ⟨fileAt'.strandAt, idAt⟩ sameSession (by omega) full
  exact ⟨next.1, by omega⟩

end Log

end Tcslog
