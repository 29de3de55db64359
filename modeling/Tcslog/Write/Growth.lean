import Tcslog.Layout

/-!
# How a strand grows

A writer begins a strand with one file, and then adds records to it, stores
their bytes and adds files.  Each leaves every file but the last as it was.
-/

namespace Tcslog

open Lib.Spanned

namespace Strand

variable (σ : Strand)

/-- A strand of one file without records. -/
def fresh (id sessionId : SegId) (segSizeMax : UInt32) (format : Format) (firstSequence : Nat)
    (roomy : format.dataHeaderLen < SegmentHeader.dataSectionLen segSizeMax)
    (formatValid : format ≠ .fixed 0) (opened : sessionId ≤ id)
    (sequencesFit : firstSequence + 1 < 2 ^ 64) : Strand where
  sessionId := sessionId
  segSizeMax := segSizeMax
  format := format
  firstSequence := firstSequence
  ids := [id]
  records := []
  stored := 0
  roomy := roomy
  formatValid := formatValid
  nonempty := by simp
  ascending := by simp
  opened := by simpa using opened
  fits := by simp
  sequencesFit := sequencesFit
  filled := by simp
  storedFits := Nat.zero_le _
  storedLe := by simp

/-- The strand with one record more, none of it stored yet. -/
def addRecord (record : Record) (fits : record.Fits σ.format) : Strand :=
  { σ with
    records := σ.records ++ [record]
    fits := by
      intro other mem
      rcases List.mem_append.mp mem with before | last
      · exact σ.fits other before
      · rwa [List.mem_singleton.mp last]
    storedLe := by
      have := σ.storedLe
      simp only [List.map_append, List.flatten_append, List.length_append]
      omega }

/-- The strand with `n` bytes more stored. -/
def addBytes (n : Nat) (room : σ.stored + n ≤ σ.ids.length * σ.dataSection)
    (le : σ.stored + n ≤ σ.blocks.flatten.length) : Strand :=
  { σ with
    stored := σ.stored + n
    filled := σ.filled.trans (Nat.le_add_right _ _)
    storedFits := room
    storedLe := le }

/-- The strand, its files being full, with one file more. -/
def addFile (id : SegId) (after : ∀ a ∈ σ.ids, a < id) (opened : σ.sessionId ≤ id)
    (full : σ.stored = σ.ids.length * σ.dataSection)
    (sequencesFit : σ.firstSequence + (σ.ids.length + 1) < 2 ^ 64) : Strand :=
  { σ with
    ids := σ.ids ++ [id]
    nonempty := by simp
    ascending := by
      refine List.pairwise_append.mpr ⟨σ.ascending, by simp, ?_⟩
      simpa using after
    opened := by
      intro a mem
      rcases List.mem_append.mp mem with before | last
      · exact σ.opened a before
      · rwa [List.mem_singleton.mp last]
    sequencesFit := by rwa [List.length_append]
    filled := by
      rw [List.length_append, List.length_singleton, Nat.add_sub_cancel]
      exact full.ge
    storedFits := by
      have := σ.storedFits
      rw [List.length_append, List.length_singleton, Nat.succ_mul]
      exact this.trans (Nat.le_add_right _ _) }

variable {σ}

section Fresh

variable {id sessionId : SegId} {segSizeMax : UInt32} {format : Format} {firstSequence : Nat}
  {roomy : format.dataHeaderLen < SegmentHeader.dataSectionLen segSizeMax}
  {formatValid : format ≠ .fixed 0} {opened : sessionId ≤ id}
  {sequencesFit : firstSequence + 1 < 2 ^ 64}

theorem file_fresh :
    (fresh id sessionId segSizeMax format firstSequence roomy formatValid opened sequencesFit).file
      0 id = SegmentHeader.toBytes ⟨id, sessionId, segSizeMax, 0, format,
        UInt64.ofNat firstSequence, versionMinor⟩ := by
  simp [file, header, data, page, tape, fresh]

end Fresh

theorem file_congr {τ : Strand} {j : Nat} (id : SegId) (sessionId : τ.sessionId = σ.sessionId)
    (segSizeMax : τ.segSizeMax = σ.segSizeMax) (format : τ.format = σ.format)
    (firstSequence : τ.firstSequence = σ.firstSequence)
    (owes : owed τ.blocks (j * σ.dataSection) = owed σ.blocks (j * σ.dataSection))
    (data : τ.data j = σ.data j) : τ.file j id = σ.file j id := by
  have dataSection : τ.dataSection = σ.dataSection := by
    rw [Strand.dataSection, segSizeMax, Strand.dataSection]
  rw [file, file, data, header, header, sessionId, segSizeMax, format, firstSequence, dataSection,
    owes]

theorem blocks_addRecord (record : Record) (fits : record.Fits σ.format) :
    (σ.addRecord record fits).blocks = σ.blocks ++ [record.encode] := by
  simp [blocks, addRecord]

/-- Beginning a record changes no file. -/
theorem file_addRecord {record : Record} {fits : record.Fits σ.format} {j : Nat} {id : SegId}
    (within : j < σ.ids.length) : (σ.addRecord record fits).file j id = σ.file j id := by
  refine file_congr id rfl rfl rfl rfl ?_ ?_
  · rw [blocks_addRecord, owed_append _ _ (σ.page_start_le_flatten within)]
  · have storedLe : σ.stored ≤ σ.blocks.flatten.length := σ.storedLe
    have sameTape : (σ.addRecord record fits).tape = σ.tape := by
      rw [tape, tape, blocks_addRecord, List.flatten_append]
      exact List.take_append_of_le_length storedLe
    rw [data, data, sameTape]
    rfl

section AddBytes

variable {n : Nat} {room : σ.stored + n ≤ σ.ids.length * σ.dataSection}
  {le : σ.stored + n ≤ σ.blocks.flatten.length}

theorem tape_addBytes :
    (σ.addBytes n room le).tape = σ.tape ++ (σ.blocks.flatten.drop σ.stored).take n := by
  rw [tape, tape, ← List.take_add]
  rfl

theorem data_addBytes_of_lt {j : Nat} (more : j + 1 < σ.ids.length) :
    (σ.addBytes n room le).data j = σ.data j := by
  have filled := σ.filled
  have next : (j + 1) * σ.dataSection ≤ (σ.ids.length - 1) * σ.dataSection :=
    Nat.mul_le_mul_right _ (by omega)
  rw [Nat.succ_mul] at next
  rw [data, data, tape_addBytes]
  refine page_append_of_full _ _ ?_
  rw [σ.length_tape]
  unfold dataSection at next ⊢
  exact next.trans filled

theorem data_addBytes_last {j : Nat} (last : j + 1 = σ.ids.length) :
    (σ.addBytes n room le).data j = σ.data j ++ (σ.blocks.flatten.drop σ.stored).take n := by
  rw [data, data, tape_addBytes]
  refine page_append _ _ ?_ ?_
  · rw [σ.length_tape]
    exact σ.page_start_le (by omega)
  · have room := room
    rw [← last, Nat.succ_mul] at room
    rw [σ.length_tape, List.length_take, List.length_drop]
    change σ.stored + _ ≤ j * σ.dataSection + σ.dataSection
    omega

/-- Storing bytes changes no file but the last. -/
theorem file_addBytes_of_lt {j : Nat} {id : SegId} (more : j + 1 < σ.ids.length) :
    (σ.addBytes n room le).file j id = σ.file j id :=
  file_congr id rfl rfl rfl rfl rfl (data_addBytes_of_lt more)

/-- Storing bytes appends them to the last file. -/
theorem file_addBytes_last {j : Nat} {id : SegId} (last : j + 1 = σ.ids.length) :
    (σ.addBytes n room le).file j id =
      σ.file j id ++ (σ.blocks.flatten.drop σ.stored).take n := by
  rw [file, file, data_addBytes_last last, List.append_assoc]
  rfl

end AddBytes

section AddFile

variable {id : SegId} {after : ∀ a ∈ σ.ids, a < id} {opened : σ.sessionId ≤ id}
  {full : σ.stored = σ.ids.length * σ.dataSection}
  {sequencesFit : σ.firstSequence + (σ.ids.length + 1) < 2 ^ 64}

theorem file_addFile {j : Nat} {id' : SegId} :
    (σ.addFile id after opened full sequencesFit).file j id' = σ.file j id' :=
  rfl

/-- A new file is its header: it owes what is left of the record in progress. -/
theorem file_addFile_last :
    (σ.addFile id after opened full sequencesFit).file σ.ids.length id =
      SegmentHeader.toBytes ⟨id, σ.sessionId, σ.segSizeMax,
        UInt64.ofNat (owed σ.blocks σ.stored), σ.format,
        UInt64.ofNat (σ.firstSequence + σ.ids.length), versionMinor⟩ := by
  have empty : σ.data σ.ids.length = [] := by
    refine List.eq_nil_of_length_eq_zero ?_
    rw [σ.length_data, full]
    omega
  rw [file_addFile, file, empty, List.append_nil, full]
  rfl

end AddFile

end Strand

end Tcslog
