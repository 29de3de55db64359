import Tcslog.System.Damage
import Tcslog.System.Tapes

/-!
# Reading an intact log

What writers left in a directory, or any tapes that are whole, is read to its
end record by record, with the end of a session reported between two of them.
-/

namespace Tcslog

open Lib.Program Lib.Spanned

/-- The log in a directory is these tapes, one a session. -/
structure Dir.Holds (dir : Dir) (namePrefix nameSuffix : Bytes) (tapes : List Tape) : Prop where
  listed : scanSegmentIds dir namePrefix nameSuffix = tapes.flatMap Tape.ids
  files : ∀ T ∈ tapes, ∀ j id, T.ids[j]? = some id →
    dir.files namePrefix nameSuffix id = some (T.file j id)
  apart : tapes.IsChain fun T U => T.sessionId ≠ U.sessionId

theorem getLast?_of_not_mem_dropLast {α : Type} {l : List α} {a : α} (mem : a ∈ l)
    (isLast : a ∉ l.dropLast) : l.getLast? = some a := by
  have split := List.dropLast_append_getLast (List.ne_nil_of_mem mem)
  rw [← split, List.mem_append, List.mem_singleton] at mem
  rw [List.getLast?_eq_some_getLast (List.ne_nil_of_mem (split ▸ List.mem_append.mpr
    (mem.imp_right List.mem_singleton.mpr)))]
  exact congrArg some (mem.resolve_left isLast).symm

namespace Dir.Holds

variable {dir : Dir} {namePrefix nameSuffix : Bytes} {tapes : List Tape}

/-- The length of the last file. -/
def floor (dir : Dir) (namePrefix nameSuffix : Bytes) (ids : List SegId) : Nat :=
  (ids.getLast?.bind fun id => (dir.files namePrefix nameSuffix id).map List.length).getD 0

/-- Every file is found as it was written. -/
theorem shown (holds : dir.Holds namePrefix nameSuffix tapes) {T : Tape} (mem : T ∈ tapes) {j : Nat}
    {id : SegId} (idAt : T.ids[j]? = some id) : ∃ n ≤ (T.file j id).length,
      dir.files namePrefix nameSuffix id = some ((T.file j id).take n) ∧
        (id ∈ (tapes.flatMap Tape.ids).dropLast → n = (T.file j id).length) ∧
        (id ∉ (tapes.flatMap Tape.ids).dropLast →
          floor dir namePrefix nameSuffix (tapes.flatMap Tape.ids) ≤ n) := by
  have present := holds.files T mem j id idAt
  refine ⟨_, Nat.le_refl _, by rw [List.take_length, present], fun _ => rfl, fun isLast => ?_⟩
  have listed : id ∈ tapes.flatMap Tape.ids := List.mem_flatMap.mpr ⟨T, mem, List.mem_of_getElem? idAt⟩
  rw [floor, getLast?_of_not_mem_dropLast listed isLast, Option.bind_some, present, Option.map_some,
    Option.getD_some]

/-- A reader of a directory that nothing happens to finds the tapes whole. -/
def shelf (holds : dir.Holds namePrefix nameSuffix tapes) (full : ∀ T ∈ tapes, T.Full)
    (overflowChecks : Bool) : Shelf where
  env := .still dir noFault overflowChecks
  namePrefix := namePrefix
  nameSuffix := nameSuffix
  tapes := tapes
  floor := floor dir namePrefix nameSuffix (tapes.flatMap Tape.ids)
  noFault _ := rfl
  sorted := holds.listed ▸ scanSegmentIds_sorted dir namePrefix nameSuffix
  apart := holds.apart
  full T mem := full T (List.dropLast_subset _ mem)
  shows _ mem _ _ idAt _ := holds.shown mem idAt

theorem whole (holds : dir.Holds namePrefix nameSuffix tapes) (full : ∀ T ∈ tapes, T.Full)
    (overflowChecks : Bool) : (holds.shelf full overflowChecks).Whole := by
  refine ⟨full, fun T isLast => ?_⟩
  have mem : T ∈ tapes := List.mem_of_getLast? isLast
  obtain ⟨earlier, split⟩ := List.getLast?_eq_some_iff.mp isLast
  have idAt : T.ids[T.ids.length - 1]? = T.ids.getLast? := List.getLast?_eq_getElem?.symm
  have last : (tapes.flatMap Tape.ids).getLast? = T.ids.getLast? := by
    rw [show tapes = earlier ++ [T] from split, List.flatMap_append, List.flatMap_singleton,
      List.getLast?_append_of_ne_nil _ T.nonempty]
  rw [List.getLast?_eq_some_getLast T.nonempty] at idAt last
  change floor dir namePrefix nameSuffix (tapes.flatMap Tape.ids) = _
  rw [floor, last, Option.bind_some, holds.files T mem _ _ idAt, Option.map_some, Option.getD_some,
    Tape.length_file]

/-- Tapes that are whole are read whole. -/
theorem reads (holds : dir.Holds namePrefix nameSuffix tapes) (full : ∀ T ∈ tapes, T.Full)
    (overflowChecks : Bool) {isDir : Bool} {log : LogRead} {caps : Nat → Nat}
    (isNew : LogRead.new isDir (some dir) namePrefix nameSuffix = .ok log)
    (ample : Shelf.Ample caps tapes) :
    ∃ last, ReadsToEof (.still dir noFault overflowChecks) caps log.begin
      (script (tapes.map Tape.records)) last := by
  obtain ⟨listed, isListed, begins⟩ := LogRead.new_spec isNew
  obtain rfl := Option.some.inj isListed
  have between : (holds.shelf full overflowChecks).Between log.begin tapes :=
    Shelf.between_begin begins holds.listed
  cases tapes with
  | nil =>
      obtain ⟨eof, _⟩ := Shelf.readCall_finished (.still dir noFault overflowChecks) (caps 0)
        ⟨between.pending, between.closed⟩
      exact ⟨_, .nil (Prod.ext eof rfl)⟩
  | cons T rest =>
      obtain ⟨outcomes, last, reads, told⟩ := Shelf.reads_told (.inl ⟨between, rfl⟩) ample
      have isScript := told.eq_script (holds.whole full overflowChecks) List.suffix_rfl
      rw [List.drop_zero] at isScript
      exact ⟨last, isScript ▸ reads⟩

end Dir.Holds

/-- One session in files of any size and of either minor version is read back
record by record. -/
theorem tape_read {dir : Dir} {namePrefix nameSuffix : Bytes} {T : Tape}
    (holds : dir.Holds namePrefix nameSuffix [T]) (full : T.Full) {isDir overflowChecks : Bool}
    {log : LogRead} (isNew : LogRead.new isDir (some dir) namePrefix nameSuffix = .ok log)
    {caps : Nat → Nat} (ample : ∀ n, ∀ record ∈ T.records, record.payload.length ≤ caps n) :
    ∃ last, ReadsToEof (.still dir noFault overflowChecks) caps log.begin
      (T.records.map Record.outcome) last := by
  obtain ⟨last, reads⟩ := holds.reads (List.forall_mem_singleton.mpr full) overflowChecks isNew
    fun n U mem => List.mem_singleton.mp mem ▸ ample n
  rw [List.map_singleton, script_cons, List.map_nil, List.flatten_nil, List.append_nil] at reads
  exact ⟨last, reads⟩

namespace Sample

/-- A record of the older minor version in files of seven bytes, which its data
header fills two of. -/
def tape : Tape where
  sessionId := 10
  maxSize := 60
  format := .variableTsRc
  minor := 0
  ids := [10, 11, 12]
  records := [⟨[1, 2, 3], .variableTsRc 5 1⟩]
  stored := 19
  room := by decide
  readable := by decide
  formatValid := by decide
  nonempty := by decide
  ascending := by decide
  fits := List.forall_mem_singleton.mpr ⟨by decide, by decide⟩
  filled := by decide
  storedFits := by decide
  storedLe := by decide
  tight := by decide

def tapeDir : Dir :=
  (((∅ : Dir).insert (buildName [] 10 []) (tape.file 0 10)).insert (buildName [] 11 [])
    (tape.file 1 11)).insert (buildName [] 12 []) (tape.file 2 12)

theorem tapeDir_holds : tapeDir.Holds [] [] [tape] := by
  refine ⟨by decide +kernel, List.forall_mem_singleton.mpr fun j id idAt => ?_, .singleton _⟩
  have within : j < 3 := (List.getElem?_eq_some_iff.mp idAt).1
  interval_cases j <;> obtain rfl := Option.some.inj idAt <;> decide +kernel

end Sample

theorem tape_read_sample :
    ∃ last, ReadsToEof (.still Sample.tapeDir noFault true) (fun _ => 3) (Sample.reader [10, 11, 12]).begin
      [.record [1, 2, 3] (.variableTsRc 5 1)] last :=
  tape_read Sample.tapeDir_holds (show Sample.tape.stored = Sample.tape.blocks.flatten.length by decide +kernel)
    (show LogRead.new true _ [] [] = .ok (Sample.reader [10, 11, 12]) by decide +kernel)
    (fun _ => List.forall_mem_singleton.mpr (by decide))

/-! ## What writers left -/

theorem Faithful.map_records {L : Log} {journal : Journal} (faithful : Faithful L journal) :
    L.strands.map Strand.records = journal.sessions.map Session.records := by
  rw [← List.forall₂_eq_eq_eq, List.forall₂_map_left_iff, List.forall₂_map_right_iff]
  exact faithful.imp fun _ _ keeps => keeps.records

namespace Trail.Left

variable {namePrefix nameSuffix : Bytes} {trail : Trail} {L : Log}

theorem keeps (left : trail.Left namePrefix nameSuffix L) {σ : Strand} (mem : σ ∈ L.strands) :
    ∃ session, Keeps σ session := by
  obtain ⟨k, strandAt⟩ := List.getElem?_of_mem mem
  obtain ⟨session, _, keeps⟩ := left.faithful.exists_keeps strandAt
  exact ⟨session, keeps⟩

theorem full (left : trail.Left namePrefix nameSuffix L) : ∀ σ ∈ L.strands, σ.Full := by
  intro σ mem
  obtain ⟨_, keeps⟩ := left.keeps mem
  exact keeps.full

/-- Sessions follow one another. -/
theorem sessions_lt (left : trail.Left namePrefix nameSuffix L) :
    (L.strands.map Strand.sessionId).Pairwise (· < ·) := by
  refine List.pairwise_map.mpr (L.ordered.imp_of_mem fun {σ τ} memσ memτ before => ?_)
  refine before.session.resolve_right fun ⟨_, follows, _⟩ => ?_
  obtain ⟨_, keepsσ⟩ := left.keeps memσ
  obtain ⟨_, keepsτ⟩ := left.keeps memτ
  have some := List.length_pos_of_ne_nil σ.nonempty
  rw [keepsσ.first, keepsτ.first] at follows
  omega

/-- The files of the log are those of its strands. -/
theorem listed (left : trail.Left namePrefix nameSuffix L) :
    scanSegmentIds trail.state.dir namePrefix nameSuffix = L.strands.flatMap Strand.ids := by
  have sorted : (L.strands.flatMap Strand.ids).Pairwise (· < ·) :=
    List.pairwise_flatMap.mpr ⟨fun σ _ => σ.ascending, L.ordered.imp fun before => before.ids⟩
  have scanned := scanSegmentIds_sorted trail.state.dir namePrefix nameSuffix
  have distinct {ids : List SegId} (sorted : ids.Pairwise (· < ·)) : ids.Nodup :=
    sorted.imp fun less => UInt64.ne_of_lt less
  have same : (scanSegmentIds trail.state.dir namePrefix nameSuffix).Perm (L.strands.flatMap Strand.ids) := by
    refine (List.perm_ext_iff_of_nodup (distinct scanned) (distinct sorted)).mpr fun id => ?_
    rw [mem_scan, List.mem_flatMap]
    constructor
    · intro present
      obtain ⟨k, j, σ, fileAt⟩ := left.noStray id present
      exact ⟨σ, List.mem_of_getElem? fileAt.strandAt, List.mem_of_getElem? fileAt.idAt⟩
    · rintro ⟨σ, mem, memIds⟩
      obtain ⟨k, strandAt⟩ := List.getElem?_of_mem mem
      obtain ⟨j, idAt⟩ := List.getElem?_of_mem memIds
      rw [left.disk.shown ⟨strandAt, idAt⟩]
      rfl
  exact same.eq_of_pairwise (fun a b _ _ less greater => absurd less (UInt64.lt_asymm greater)) scanned sorted

/-- The tapes of a log that is left are held by its directory. -/
theorem exists_tapes (left : trail.Left namePrefix nameSuffix L) : ∃ tapes,
    trail.state.dir.Holds namePrefix nameSuffix tapes ∧ (∀ T ∈ tapes, T.Full) ∧
      tapes.map Tape.records = trail.journal.sessions.map Session.records := by
  obtain ⟨tapes, cuts, ids⟩ := Cuts.exists_take left.tight (L.strands.flatMap Strand.ids).length
  rw [List.take_length] at ids
  obtain ⟨records, full⟩ := cuts.whole left.full ids
  refine ⟨tapes, ⟨left.listed.trans ids.symm, ?_, ?_⟩, full, records.trans ?_⟩
  · rintro T mem j id idAt
    obtain ⟨σ, memσ, m, some, within, tight, rfl⟩ := cuts.exists_strand T mem
    obtain ⟨k, strandAt⟩ := List.getElem?_of_mem memσ
    obtain ⟨_, keeps⟩ := left.keeps memσ
    have less : j < m := by
      have within' : j < (σ.ids.take m).length := (List.getElem?_eq_some_iff.mp idAt).1
      rw [List.length_take] at within'
      omega
    change (σ.ids.take m)[j]? = Option.some id at idAt
    rw [List.getElem?_take_of_lt less] at idAt
    rw [Strand.file_cut keeps.first less]
    exact left.disk.shown ⟨strandAt, idAt⟩
  · have apart : (tapes.map Tape.sessionId).Pairwise (· < ·) :=
      left.sessions_lt.sublist cuts.sessions_prefix.sublist
    exact ((List.pairwise_map.mp apart).imp fun less => UInt64.ne_of_lt less).isChain
  · exact left.faithful.map_records

/-- A log that is left reads as its sessions, record by record. -/
theorem reads (left : trail.Left namePrefix nameSuffix L) {isDir : Bool} (overflowChecks : Bool)
    {log : LogRead} (isNew : LogRead.new isDir (some trail.state.dir) namePrefix nameSuffix = .ok log)
    {caps : Nat → Nat} (ample : Ample caps trail.journal.records) :
    ∃ last, ReadsToEof (.still trail.state.dir noFault overflowChecks) caps log.begin
      (script (trail.journal.sessions.map Session.records)) last := by
  obtain ⟨tapes, holds, full, records⟩ := left.exists_tapes
  rw [← records]
  refine holds.reads full overflowChecks isNew fun n T mem record memRecord => ample n record ?_
  have memSessions : T.records ∈ trail.journal.sessions.map Session.records :=
    records ▸ List.mem_map_of_mem mem
  obtain ⟨session, memSession, same⟩ := List.mem_map.mp memSessions
  exact List.mem_flatMap.mpr ⟨session, memSession, same ▸ memRecord⟩

end Trail.Left

/-- The intact round trip: what the writers of a log wrote since it was last
cleared is read back, record by record, with one end of a session between two. -/
theorem round_trip {env : WriteEnv} {dir : Dir} {lives : List Life} {namePrefix nameSuffix : Bytes}
    (wrote : Wrote env dir lives namePrefix nameSuffix) {isDir overflowChecks : Bool} {log : LogRead}
    (isNew : LogRead.new isDir (some (Trail.run env dir lives).state.dir) namePrefix nameSuffix = .ok log)
    {caps : Nat → Nat} (ample : Ample caps (Trail.run env dir lives).journal.records) :
    ∃ last, ReadsToEof (.still (Trail.run env dir lives).state.dir noFault overflowChecks) caps log.begin
      (script ((Trail.run env dir lives).journal.sessions.map Session.records)) last := by
  obtain ⟨L, left⟩ := Trail.run_left wrote.leaves wrote.empty wrote.names wrote.clean
  obtain ⟨tapes, holds, full, records⟩ := left.exists_tapes
  rw [← records]
  refine holds.reads full overflowChecks isNew fun n T mem record memRecord => ample n record ?_
  have memSessions : T.records ∈ (Trail.run env dir lives).journal.sessions.map Session.records :=
    records ▸ List.mem_map_of_mem mem
  obtain ⟨session, memSession, same⟩ := List.mem_map.mp memSessions
  exact List.mem_flatMap.mpr ⟨session, memSession, same ▸ memRecord⟩

namespace Sample

/-- Two sessions, the first of them in two files. -/
def sessions : List Life :=
  lives ++ [⟨⟨[], [], 60, .variableSimple, some 1000⟩, [.write [], .flush, .write [4]]⟩]

theorem sessions_wrote : Wrote env ∅ sessions [] [] := by
  refine ⟨fun _ => rfl, fun _ => rfl, by decide, ?_⟩
  unfold Trail.Clean
  decide +kernel

end Sample

theorem round_trip_sample :
    ∃ last, ReadsToEof (.still (Trail.run Sample.env ∅ Sample.sessions).state.dir noFault true) (fun _ => 2)
      (Sample.reader (scanSegmentIds (Trail.run Sample.env ∅ Sample.sessions).state.dir [] [])).begin
      (script [[⟨[1, 2], .variableSimple⟩, ⟨[3], .variableSimple⟩],
        [⟨[], .variableSimple⟩, ⟨[4], .variableSimple⟩]]) last := by
  have sessions : (Trail.run Sample.env ∅ Sample.sessions).journal.sessions.map Session.records =
      [[⟨[1, 2], .variableSimple⟩, ⟨[3], .variableSimple⟩],
        [⟨[], .variableSimple⟩, ⟨[4], .variableSimple⟩]] := by decide +kernel
  rw [← sessions]
  exact round_trip Sample.sessions_wrote
    (show LogRead.new true (some (Trail.run Sample.env ∅ Sample.sessions).state.dir) [] [] = .ok (Sample.reader
      (scanSegmentIds (Trail.run Sample.env ∅ Sample.sessions).state.dir [] [])) by decide +kernel)
    (fun _ => (by decide +kernel : ∀ record ∈ (Trail.run Sample.env ∅ Sample.sessions).journal.records,
      record.payload.length ≤ 2))

end Tcslog
