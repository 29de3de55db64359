import Tcslog.Write.Growth
import Tcslog.Write.Writer
import Mathlib.Logic.Function.Basic

/-!
# The files of a log in a directory

A writer changes its log in four ways: it begins a strand, adds a file to the
last one, begins a record in it and stores bytes of it.  Files that were created
but never got a whole header are no part of the log.
-/

namespace Tcslog

open Lib.Spanned

/-- The files of a log are there, and besides them at most files that never got
a whole header. -/
structure OnDisk (files : SegId → Option Bytes) (L : Log) : Prop where
  shown : ∀ {k j σ id}, L.FileAt k j σ id → files id = some (σ.file j id)
  others : ∀ {id content}, files id = some content →
    (∃ k j σ, L.FileAt k j σ id) ∨ content.length < segmentFileHeaderLen

/-- Every file there is of the log. -/
def NoStray (files : SegId → Option Bytes) (L : Log) : Prop :=
  ∀ id, (files id).isSome → ∃ k j σ, L.FileAt k j σ id

theorem Dir.files_insert {dir : Dir} {namePrefix nameSuffix : Bytes} {id : SegId} {content : Bytes} :
    Dir.files (dir.insert (buildName namePrefix id nameSuffix) content) namePrefix nameSuffix =
      Function.update (dir.files namePrefix nameSuffix) id (some content) := by
  funext id'
  by_cases same : id' = id
  · rw [same, Function.update_self, Dir.files, AList.lookup_insert]
  · rw [Function.update_of_ne same, Dir.files, Dir.files, AList.lookup_insert_ne]
    exact fun names => same (buildName_injective names)

theorem Dir.files_appendTo {dir : Dir} {namePrefix nameSuffix : Bytes} {id : SegId}
    {content bytes : Bytes} (present : dir.files namePrefix nameSuffix id = some content) :
    Dir.files (appendTo (buildName namePrefix id nameSuffix) bytes dir) namePrefix nameSuffix =
      Function.update (dir.files namePrefix nameSuffix) id (some (content ++ bytes)) := by
  rw [appendTo, show dir.lookup (buildName namePrefix id nameSuffix) = some content from present]
  exact files_insert

/-! ## The last strand -/

namespace Log

/-- The log with a strand more. -/
def push (L : Log) (σ : Strand) (before : ∀ τ ∈ L.strands, τ.Before σ) : Log where
  strands := L.strands ++ [σ]
  ordered := by
    refine List.pairwise_append.mpr ⟨L.ordered, by simp, ?_⟩
    simpa using before

/-- The log's last strand is `σ`, the others being `front`. -/
def EndsWith (L : Log) (front : List Strand) (σ : Strand) : Prop :=
  L.strands = front ++ [σ]

variable {L : Log} {front : List Strand} {σ : Strand}

theorem EndsWith.before (ends : L.EndsWith front σ) : ∀ τ ∈ front, τ.Before σ := by
  have ordered := L.ordered
  rw [ends] at ordered
  exact fun τ mem => (List.pairwise_append.mp ordered).2.2 τ mem σ (by simp)

/-- The log with another last strand. -/
def revise (L : Log) (front : List Strand) (σ τ : Strand) (ends : L.EndsWith front σ)
    (before : ∀ ρ ∈ front, ρ.Before τ) : Log where
  strands := front ++ [τ]
  ordered := by
    have ordered := L.ordered
    rw [ends] at ordered
    refine List.pairwise_append.mpr ⟨(List.pairwise_append.mp ordered).1, by simp, ?_⟩
    simpa using before

theorem EndsWith.fileAt_iff (ends : L.EndsWith front σ) {k j : Nat} {τ : Strand} {id : SegId} :
    L.FileAt k j τ id ↔ front[k]? = some τ ∧ τ.ids[j]? = some id ∨
      k = front.length ∧ τ = σ ∧ σ.ids[j]? = some id := by
  constructor
  · rintro ⟨strandAt, idAt⟩
    rw [ends, List.getElem?_append] at strandAt
    split at strandAt
    · exact .inl ⟨strandAt, idAt⟩
    next past =>
      obtain ⟨zero, rfl⟩ : k - front.length = 0 ∧ σ = τ := by
        have small := (List.getElem?_eq_some_iff.mp strandAt).1
        have zero : k - front.length = 0 := by simpa using small
        rw [zero] at strandAt
        exact ⟨zero, by simpa using strandAt⟩
      exact .inr ⟨by omega, rfl, idAt⟩
  · rintro (⟨strandAt, idAt⟩ | ⟨rfl, rfl, idAt⟩)
    · have less := (List.getElem?_eq_some_iff.mp strandAt).1
      exact ⟨by rw [ends, List.getElem?_append_left less, strandAt], idAt⟩
    · exact ⟨by rw [ends]; simp, idAt⟩

theorem EndsWith.fileAt_last (ends : L.EndsWith front σ) {j : Nat} {id : SegId}
    (idAt : σ.ids[j]? = some id) : L.FileAt front.length j σ id :=
  ends.fileAt_iff.mpr (.inr ⟨rfl, rfl, idAt⟩)

theorem endsWith_push {before : ∀ τ ∈ L.strands, τ.Before σ} :
    (L.push σ before).EndsWith L.strands σ :=
  rfl

theorem endsWith_revise {τ : Strand} {ends : L.EndsWith front σ}
    {before : ∀ ρ ∈ front, ρ.Before τ} : (L.revise front σ τ ends before).EndsWith front τ :=
  rfl

end Log

/-! ## Changes on disk -/

namespace OnDisk

variable {files : SegId → Option Bytes} {L L' : Log} {front : List Strand} {σ τ : Strand}

/-- A file that never got a whole header. -/
theorem stray (disk : OnDisk files L) {id : SegId} {content : Bytes}
    (free : ∀ k j σ, ¬ L.FileAt k j σ id) (short : content.length < segmentFileHeaderLen) :
    OnDisk (Function.update files id (some content)) L := by
  refine ⟨fun {k j σ id'} fileAt => ?_, fun {id' content'} present => ?_⟩
  · have differs : id' ≠ id := fun same => free k j σ (same ▸ fileAt)
    rw [Function.update_of_ne differs]
    exact disk.shown fileAt
  · by_cases same : id' = id
    · rw [same, Function.update_self] at present
      exact .inr (Option.some.inj present ▸ short)
    · rw [Function.update_of_ne same] at present
      exact disk.others present

/-- A new strand with its one file. -/
theorem push (disk : OnDisk files L) {id : SegId} {before : ∀ τ ∈ L.strands, τ.Before σ}
    (ids : σ.ids = [id]) : OnDisk (Function.update files id (some (σ.file 0 id))) (L.push σ before) := by
  have ends : (L.push σ before).EndsWith L.strands σ := Log.endsWith_push
  refine ⟨fun {k j τ id'} fileAt => ?_, fun {id' content} present => ?_⟩
  · rcases ends.fileAt_iff.mp fileAt with ⟨strandAt, idAt⟩ | ⟨_, rfl, idAt⟩
    · have differs : id' ≠ id := by
        have less := (before τ (List.mem_of_getElem? strandAt)).ids id' (List.mem_of_getElem? idAt) id
          (by simp [ids])
        exact fun same => UInt64.lt_irrefl _ (same ▸ less)
      rw [Function.update_of_ne differs]
      exact disk.shown ⟨strandAt, idAt⟩
    · rw [ids] at idAt
      obtain ⟨rfl, rfl⟩ : j = 0 ∧ id = id' := by
        have := (List.getElem?_eq_some_iff.mp idAt).1
        have zero : j = 0 := by simpa using this
        rw [zero] at idAt
        exact ⟨zero, by simpa using idAt⟩
      rw [Function.update_self]
  · by_cases same : id' = id
    · exact .inl ⟨_, 0, σ, ends.fileAt_last (by simp [ids, same])⟩
    · rw [Function.update_of_ne same] at present
      refine (disk.others present).imp_left ?_
      rintro ⟨k, j, ρ, fileAt⟩
      exact ⟨k, j, ρ, ends.fileAt_iff.mpr (.inl ⟨fileAt.strandAt, fileAt.idAt⟩)⟩

/-- The last strand changed, and with it at most its last file. -/
theorem revise (id : SegId) {content : Bytes} (disk : OnDisk files L) (ends : L.EndsWith front σ)
    (before : ∀ ρ ∈ front, ρ.Before τ) (ids : ∃ more, τ.ids = σ.ids ++ more)
    (last : τ.ids.getLast? = some id) (added : ∀ a ∈ τ.ids, a ∉ σ.ids → a = id)
    (kept : ∀ j a, j + 1 < τ.ids.length → τ.ids[j]? = some a → τ.file j a = σ.file j a)
    (shown : τ.file (τ.ids.length - 1) id = content) :
    OnDisk (Function.update files id (some content)) (L.revise front σ τ ends before) := by
  have ends' : (L.revise front σ τ ends before).EndsWith front τ := Log.endsWith_revise
  have lastAt : τ.ids[τ.ids.length - 1]? = some id := by rwa [← List.getLast?_eq_getElem?]
  refine ⟨fun {k j ρ id'} fileAt => ?_, fun {id' content'} present => ?_⟩
  · rcases ends'.fileAt_iff.mp fileAt with ⟨strandAt, idAt⟩ | ⟨isLast, rfl, idAt⟩
    · have differs : id' ≠ id := by
        have less := (before ρ (List.mem_of_getElem? strandAt)).ids id' (List.mem_of_getElem? idAt) id
          (List.mem_of_getLast? last)
        exact fun same => UInt64.lt_irrefl _ (same ▸ less)
      rw [Function.update_of_ne differs]
      exact disk.shown (ends.fileAt_iff.mpr (.inl ⟨strandAt, idAt⟩))
    · have within := (List.getElem?_eq_some_iff.mp idAt).1
      by_cases atEnd : j + 1 < ρ.ids.length
      · have differs : id' ≠ id := by
          rintro rfl
          have same := (fileAt.unique (ends'.fileAt_last lastAt)).2.1
          omega
        have old : σ.ids[j]? = some id' := by
          obtain ⟨more, split⟩ := ids
          have mem : id' ∈ σ.ids := by
            by_contra absent
            exact differs (added id' (List.mem_of_getElem? idAt) absent)
          obtain ⟨j', idAt'⟩ := List.getElem?_of_mem mem
          have inNew : ρ.ids[j']? = some id' := by
            rw [split, List.getElem?_append_left (List.getElem?_eq_some_iff.mp idAt').1, idAt']
          have same := (fileAt.unique (isLast ▸ ends'.fileAt_last inNew)).2.1
          rw [same, idAt']
        rw [Function.update_of_ne differs, kept j id' atEnd idAt]
        exact disk.shown (isLast ▸ ends.fileAt_last old)
      · obtain rfl : j = ρ.ids.length - 1 := by omega
        obtain rfl := Option.some.inj (lastAt.symm.trans idAt)
        rw [Function.update_self, shown]
  · by_cases same : id' = id
    · exact .inl ⟨_, _, τ, ends'.fileAt_last (same ▸ lastAt)⟩
    · rw [Function.update_of_ne same] at present
      refine (disk.others present).imp_left ?_
      rintro ⟨k, j, ρ, fileAt⟩
      rcases ends.fileAt_iff.mp fileAt with ⟨strandAt, idAt⟩ | ⟨isLast, rfl, idAt⟩
      · exact ⟨k, j, ρ, ends'.fileAt_iff.mpr (.inl ⟨strandAt, idAt⟩)⟩
      · obtain ⟨more, split⟩ := ids
        refine ⟨k, j, τ, ends'.fileAt_iff.mpr (.inr ⟨isLast, rfl, ?_⟩)⟩
        rw [split, List.getElem?_append_left (List.getElem?_eq_some_iff.mp idAt).1, idAt]

/-- A new record of the last strand, none of it stored yet. -/
theorem addRecord (disk : OnDisk files L) (ends : L.EndsWith front σ) {record : Record}
    {fits : record.Fits σ.format} {before : ∀ ρ ∈ front, ρ.Before (σ.addRecord record fits)} :
    OnDisk files (L.revise front σ (σ.addRecord record fits) ends before) := by
  have within : σ.ids.length - 1 < σ.ids.length := by
    have := List.length_pos_of_ne_nil σ.nonempty
    omega
  have lastAt : σ.ids.getLast? = some (σ.ids.getLast σ.nonempty) :=
    List.getLast?_eq_getLast_of_ne_nil σ.nonempty
  have idAt : σ.ids[σ.ids.length - 1]? = some (σ.ids.getLast σ.nonempty) := by
    rw [← List.getLast?_eq_getElem?, lastAt]
  have present := disk.shown (ends.fileAt_last idAt)
  have same : Function.update files (σ.ids.getLast σ.nonempty)
      (some (σ.file (σ.ids.length - 1) (σ.ids.getLast σ.nonempty))) = files := by
    rw [← present, Function.update_eq_self]
  have changed : OnDisk (Function.update files (σ.ids.getLast σ.nonempty)
      (some (σ.file (σ.ids.length - 1) (σ.ids.getLast σ.nonempty)))) _ :=
    disk.revise _ ends before ⟨[], (List.append_nil _).symm⟩ lastAt
      (fun a mem absent => absurd mem absent)
      (fun j a more _ => Strand.file_addRecord (Nat.lt_of_succ_lt more)) (Strand.file_addRecord within)
  rwa [same] at changed

/-- More bytes of the last strand, in its last file. -/
theorem addBytes (disk : OnDisk files L) (ends : L.EndsWith front σ) {id : SegId} {n : Nat}
    (last : σ.ids.getLast? = some id) {room : σ.stored + n ≤ σ.ids.length * σ.dataSection}
    {le : σ.stored + n ≤ σ.blocks.flatten.length}
    {before : ∀ ρ ∈ front, ρ.Before (σ.addBytes n room le)} :
    OnDisk (Function.update files id (some (σ.file (σ.ids.length - 1) id ++
      (σ.blocks.flatten.drop σ.stored).take n)))
      (L.revise front σ (σ.addBytes n room le) ends before) := by
  have isLast : σ.ids.length - 1 + 1 = σ.ids.length :=
    Nat.sub_add_cancel (List.length_pos_of_ne_nil σ.nonempty)
  exact disk.revise _ ends _ ⟨[], (List.append_nil _).symm⟩ last (fun a mem absent => absurd mem absent)
    (fun j a more _ => Strand.file_addBytes_of_lt more) (Strand.file_addBytes_last isLast)

/-- A further file of the last strand. -/
theorem addFile (disk : OnDisk files L) (ends : L.EndsWith front σ) {id : SegId}
    {after : ∀ a ∈ σ.ids, a < id} {opened : σ.sessionId ≤ id}
    {full : σ.stored = σ.ids.length * σ.dataSection}
    {sequencesFit : σ.firstSequence + (σ.ids.length + 1) < 2 ^ 64}
    {before : ∀ ρ ∈ front, ρ.Before (σ.addFile id after opened full sequencesFit)} :
    OnDisk (Function.update files id (some (SegmentHeader.toBytes ⟨id, σ.sessionId, σ.segSizeMax,
        UInt64.ofNat (owed σ.blocks σ.stored), σ.format,
        UInt64.ofNat (σ.firstSequence + σ.ids.length), versionMinor⟩)))
      (L.revise front σ (σ.addFile id after opened full sequencesFit) ends before) := by
  refine disk.revise _ ends _ ⟨[id], rfl⟩ (by simp [Strand.addFile]) (fun a mem absent => ?_)
    (fun j a more _ => rfl) ?_
  · simp only [Strand.addFile, List.mem_append, List.mem_singleton] at mem
    exact mem.resolve_left absent
  · have count : (σ.addFile id after opened full sequencesFit).ids.length - 1 = σ.ids.length := by
      simp [Strand.addFile]
    rw [count]
    exact Strand.file_addFile_last

end OnDisk

end Tcslog
