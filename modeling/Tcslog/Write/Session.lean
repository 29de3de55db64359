import Tcslog.Write.Chronicle

/-!
# Sessions and their files

Beginning a session, rolling to the next file and giving a file up after an
error: each leads from a log to one that grew by a strand or a file, or fails and
leaves the log as it was, with no file open.
-/

namespace Tcslog

open Lib.Program Lib.Spanned WriteState

/-- Two states of one writer: its arguments and its clock are the same. -/
structure SameArgs (s s' : WriteState) : Prop where
  namePrefix : s'.namePrefix = s.namePrefix
  nameSuffix : s'.nameSuffix = s.nameSuffix
  segSizeMax : s'.segSizeMax = s.segSizeMax
  format : s'.format = s.format
  clock : s'.clock = s.clock
  later : s.ops ≤ s'.ops

/-- The writer went on from one log to another. -/
structure Onward (env : WriteEnv) (s : WriteState) (L : Log) (s' : WriteState) (L' : Log) :
    Prop where
  writing : Writing env s' L'
  args : SameArgs s s'
  noStray : NoStray s.files L → NoStray s'.files L'

/-- The writer stopped: it has no file open. -/
structure Stopped (env : WriteEnv) (s : WriteState) (s' : WriteState) (L' : Log) : Prop where
  writing : Writing env s' L'
  args : SameArgs s s'
  current : s'.current = none

namespace SameArgs

variable {s t u : WriteState}

theorem refl (s : WriteState) : SameArgs s s :=
  ⟨rfl, rfl, rfl, rfl, rfl, Nat.le_refl _⟩

theorem trans (first : SameArgs s t) (second : SameArgs t u) : SameArgs s u :=
  ⟨second.namePrefix.trans first.namePrefix, second.nameSuffix.trans first.nameSuffix,
    second.segSizeMax.trans first.segSizeMax, second.format.trans first.format,
    second.clock.trans first.clock, first.later.trans second.later⟩

theorem of_did {dir : Dir} (did : s.Did dir t) : SameArgs s t := by
  refine ⟨?_, ?_, ?_, ?_, ?_, did.later⟩ <;> rw [did.same]

end SameArgs

variable {env : WriteEnv} {s t u : WriteState} {L L' L'' : Log} {cur : Current}
  {front : List Strand} {σ : Strand}

theorem Onward.trans (first : Onward env s L t L') (second : Onward env t L' u L'') :
    Onward env s L u L'' :=
  ⟨second.writing, first.args.trans second.args,
    fun noStray => second.noStray (first.noStray noStray)⟩

theorem Onward.refl (writing : Writing env s L) : Onward env s L s L :=
  ⟨writing, .refl s, fun noStray => noStray⟩

theorem Stopped.after (stopped : Stopped env t u L') (args : SameArgs s t) : Stopped env s u L' :=
  ⟨stopped.writing, args.trans stopped.args, stopped.current⟩

/-! ## New files -/

/-- A new file is named later than every file of the log. -/
theorem FreshName.lt {id a : SegId} (name : FreshName env s id t) (disk : OnDisk s.files L)
    {τ : Strand} (mem : τ ∈ L.strands) (memIds : a ∈ τ.ids) : a < id := by
  obtain ⟨k, strandAt⟩ := List.getElem?_of_mem mem
  obtain ⟨j, idAt⟩ := List.getElem?_of_mem memIds
  refine name.newest a ?_
  rw [disk.shown ⟨strandAt, idAt⟩]
  rfl

theorem FreshName.notInLog {id : SegId} (name : FreshName env s id t) (disk : OnDisk s.files L)
    (k j : Nat) (τ : Strand) : ¬ L.FileAt k j τ id := fun fileAt =>
  UInt64.lt_irrefl _ (name.lt disk (List.mem_of_getElem? fileAt.strandAt)
    (List.mem_of_getElem? fileAt.idAt))

/-- A session is older than every later file. -/
theorem FreshName.session_lt {id : SegId} (name : FreshName env s id t) (disk : OnDisk s.files L)
    {τ : Strand} (mem : τ ∈ L.strands) : τ.sessionId < id := by
  have memHead := List.head_mem τ.nonempty
  exact UInt64.lt_of_le_of_lt (τ.opened _ memHead) (name.lt disk mem memHead)

theorem NotCreated.stopped (notCreated : NotCreated env s t) (writing : Writing env s L)
    (idle : s.current = none) : Stopped env s t L := by
  have same := notCreated.same
  have clock : t.clock = s.clock := by rw [same]
  have current : t.current = none := by rw [same, idle]
  refine ⟨⟨?_, ?_, fun id present => ?_, by simp [current]⟩, ⟨?_, ?_, ?_, ?_, clock,
    notCreated.later⟩, current⟩
  · have able := writing.able
    rw [same]
    exact ⟨able.roomy, able.formatValid, able.clock⟩
  · rcases notCreated.files with files | ⟨id, content, name, short, files⟩
    · exact files ▸ writing.disk
    · exact files ▸ writing.disk.stray (name.notInLog writing.disk) short
  · rw [clock]
    rcases notCreated.files with files | ⟨id', content, name, short, files⟩
    · exact (writing.past id (files ▸ present)).trans (env.reading_mono _ notCreated.later)
    · rw [files] at present
      by_cases same : id = id'
      · exact same ▸ name.past
      · rw [Function.update_of_ne same] at present
        exact (writing.past id present).trans (env.reading_mono _ notCreated.later)
  all_goals rw [same]

/-- A file created for a log that has it as its newest. -/
theorem Created.writing {sessionId : SegId → SegId} {id : SegId}
    (created : Created env s sessionId id t) (writing : Writing env s L)
    (disk : OnDisk t.files L') (pen : Pen t L' ⟨id, 0⟩ front σ)
    (old : ∀ a, (∃ k j τ, L.FileAt k j τ a) → ∃ k j τ, L'.FileAt k j τ a) : Onward env s L t L' := by
  have same := created.same
  have clock : t.clock = s.clock := by rw [same]
  have current : t.current = some ⟨id, 0⟩ := by rw [same]
  refine ⟨⟨?_, disk, fun a present => ?_, fun cur isCurrent => ?_⟩, ⟨?_, ?_, ?_, ?_, clock,
    created.later⟩, fun noStray a present => ?_⟩
  · have able := writing.able
    rw [same]
    exact ⟨able.roomy, able.formatValid, able.clock⟩
  · rw [clock]
    rw [created.files] at present
    by_cases isNew : a = id
    · exact isNew ▸ created.name.past
    · rw [Function.update_of_ne isNew] at present
      exact (writing.past a present).trans (env.reading_mono _ created.later)
  · obtain rfl := Option.some.inj (current.symm.trans isCurrent)
    exact ⟨front, σ, pen⟩
  · rw [same]
  · rw [same]
  · rw [same]
  · rw [same]
  · by_cases isNew : a = id
    · exact ⟨_, _, σ, isNew ▸ pen.fileAt⟩
    · rw [created.files, Function.update_of_ne isNew] at present
      exact old a (noStray a present)

theorem fileAt_push {before : ∀ τ ∈ L.strands, τ.Before σ} (a : SegId)
    (old : ∃ k j τ, L.FileAt k j τ a) : ∃ k j τ, (L.push σ before).FileAt k j τ a := by
  obtain ⟨k, j, τ, fileAt⟩ := old
  exact ⟨k, j, τ, Log.endsWith_push.fileAt_iff.mpr (.inl ⟨fileAt.strandAt, fileAt.idAt⟩)⟩

theorem fileAt_revise {τ : Strand} (ends : L.EndsWith front σ) (before : ∀ ρ ∈ front, ρ.Before τ)
    (ids : σ.ids <+: τ.ids) (a : SegId) (old : ∃ k j τ, L.FileAt k j τ a) :
    ∃ k j ρ, (L.revise front σ τ ends before).FileAt k j ρ a := by
  obtain ⟨k, j, ρ, fileAt⟩ := old
  rcases ends.fileAt_iff.mp fileAt with ⟨strandAt, idAt⟩ | ⟨rfl, rfl, idAt⟩
  · exact ⟨k, j, ρ, Log.endsWith_revise.fileAt_iff.mpr (.inl ⟨strandAt, idAt⟩)⟩
  · refine ⟨_, j, τ, Log.endsWith_revise.fileAt_last ?_⟩
    obtain ⟨more, split⟩ := ids
    rw [← split, List.getElem?_append_left (List.getElem?_eq_some_iff.mp idAt).1, idAt]

/-- A session begins with a file that owes nothing. -/
theorem startSession_spec (writing : Writing env s L) (idle : s.current = none) :
    Meets (startSession env) s
      (fun _ s' => ∃ L' σ cur, Onward env s L s' L' ∧ s'.current = some cur ∧
        Pen s' L' cur L.strands σ ∧ L.Grew true [] L' L.strands σ σ ∧ s'.recordBytesLeft = 0 ∧
        s'.recordCount = 0)
      (fun stop s' => stop ≠ .panic ∧ Stopped env s s' L) := by
  simp only [startSession, meets_bind, meets_modify]
  have writing₀ : Writing env ({ s with recordCount := 0, sequence := 0, recordBytesLeft := 0 } :
      WriteState) L :=
    writing.idle idle rfl rfl rfl rfl (Nat.le_refl _)
  refine (createSegment_spec true writing₀.past).imp ?_ ?_
  · rintro _ t ⟨id, created⟩
    have name := created.name
    have same := created.same
    have able := writing.able
    let σ := Strand.fresh id id s.segSizeMax s.format 0 able.roomy able.formatValid
      (UInt64.le_refl _) (by decide)
    have before : ∀ τ ∈ L.strands, τ.Before σ := by
      intro τ mem
      refine ⟨fun a memIds b memNew => ?_, .inl (name.session_lt writing.disk mem)⟩
      obtain rfl : b = id := by simpa [σ, Strand.fresh] using memNew
      exact name.lt writing.disk mem memIds
    have files : t.files = Function.update s.files id (some (σ.file 0 id)) := by
      refine created.files.trans ?_
      rw [Strand.file_fresh]
      rfl
    have disk : OnDisk t.files (L.push σ before) := files ▸ writing.disk.push rfl
    have started : 0 < id.toNat := able.clock.trans_le name.started
    have pen : Pen t (L.push σ before) ⟨id, 0⟩ L.strands σ := by
      refine ⟨rfl, rfl, ?_, ?_, ?_, ?_, ?_, by simp [σ, Strand.fresh], ?_⟩
      · rw [same]
        rfl
      · rw [same]
        rfl
      · rw [same]
        rfl
      · rw [same]
        rfl
      · rw [same]
        exact started
      · rw [same]
        rfl
    have onward := created.writing writing₀ disk pen fileAt_push
    refine ⟨L.push σ before, σ, ⟨id, 0⟩, ⟨onward.writing, ?_, onward.noStray⟩, by rw [same], pen,
      ⟨rfl, ?_, rfl, .refl σ, rfl⟩, by rw [same], by rw [same]⟩
    · exact ⟨onward.args.namePrefix, onward.args.nameSuffix, onward.args.segSizeMax,
        onward.args.format, onward.args.clock, onward.args.later⟩
    · exact ⟨rfl, rfl, rfl, rfl, fun τ mem => name.session_lt writing.disk mem⟩
  · rintro stop t ⟨noPanic, notCreated⟩
    have stopped := notCreated.stopped writing₀ idle
    exact ⟨noPanic, stopped.writing, ⟨stopped.args.namePrefix, stopped.args.nameSuffix,
      stopped.args.segSizeMax, stopped.args.format, stopped.args.clock, stopped.args.later⟩,
      stopped.current⟩

/-! ## Further files -/

/-- A log that grew and whose last strand goes on has grown. -/
theorem Log.Grew.onto {began : Bool} {more : List Record} {L₀ : Log} {σ₁ τ : Strand}
    (grew : L₀.Grew began more L front σ₁ σ) (ends : L'.EndsWith front τ)
    (continues : Strand.Continues σ τ) (records : τ.records = σ.records) :
    L₀.Grew began more L' front σ₁ τ :=
  ⟨ends, grew.base, grew.full, grew.continues.trans continues, records.trans grew.records⟩

theorem Pen.sequence_lt (pen : Pen s L cur front σ) : s.sequence.toNat < u64Max := by
  have low := pen.low
  have := cur.id.toNat_lt
  unfold u64Max
  omega

/-- The sequence of the file after the open one. -/
theorem Pen.next_sequence (pen : Pen s L cur front σ) :
    s.sequence.next = UInt64.ofNat (σ.firstSequence + σ.ids.length) := by
  have small := pen.sequence_lt
  rw [SeqId.next, Nat.min_eq_left (by omega), pen.sequence]

theorem Pen.mem_last (pen : Pen s L cur front σ) : cur.id ∈ σ.ids :=
  List.mem_of_getLast? pen.last

theorem Pen.mem_strands (pen : Pen s L cur front σ) : σ ∈ L.strands := by
  rw [pen.ends]
  simp

/-- Without the file open the writer is idle in the same log. -/
theorem Writing.close (writing : Writing env s L) (did : ({ s with current := none } :
    WriteState).Did s.dir t) : Writing env t L := by
  refine writing.idle ?_ ?_ ?_ ?_ ?_ did.later
  · rw [did.current]
  · exact did.files_same.trans rfl
  all_goals rw [did.same]

theorem sameArgs_close (did : ({ s with current := none } : WriteState).Did s.dir t) :
    SameArgs s t := by
  refine ⟨?_, ?_, ?_, ?_, ?_, did.later⟩ <;> rw [did.same]

/-- The writer went on from strand `σ`, perhaps in a new file. -/
structure Rolled (env : WriteEnv) (s : WriteState) (L : Log) (front : List Strand) (σ : Strand)
    (s' : WriteState) (L' : Log) (cur' : Current) (σ' : Strand) : Prop where
  onward : Onward env s L s' L'
  current : s'.current = some cur'
  pen : Pen s' L' cur' front σ'
  continues : Strand.Continues σ σ'
  records : σ'.records = σ.records
  stored : σ'.stored = σ.stored
  left : s'.recordBytesLeft = s.recordBytesLeft
  count : s'.recordCount = s.recordCount

/-- Rolling a full file adds a file to the strand, which owes what is left of
the record in progress. -/
theorem roll_spec (leaves : env.Leaves) (writing : Writing env s L) (pen : Pen s L cur front σ)
    (full : cur.dataWritten = σ.dataSection) (owes : owed σ.blocks σ.stored = s.recordBytesLeft) :
    Meets (roll env) s
      (fun _ s' => ∃ L' σ' id, Rolled env s L front σ s' L' ⟨id, 0⟩ σ')
      (fun stop s' => stop ≠ .panic ∧ Stopped env s s' L) := by
  simp only [roll, meets_bind, meets_modify]
  refine (closeAndSend_spec leaves).imp ?_ ?_
  · rintro _ t did
    have closed : t.current = none := by rw [did.current]
    have writing₁ := writing.close did
    have args₁ := sameArgs_close did
    have writing₂ : Writing env { t with sequence := t.sequence.next } L :=
      writing₁.idle closed rfl rfl rfl rfl (Nat.le_refl _)
    have files₂ : ({ t with sequence := t.sequence.next } : WriteState).files = s.files :=
      did.files_same.trans rfl
    refine (createSegment_spec false writing₂.past).imp ?_ ?_
    · rintro _ u ⟨id, created⟩
      have name := created.name
      have mem := pen.mem_strands
      have stored : σ.stored = σ.ids.length * σ.dataSection := by
        have := pen.stored_add
        omega
      have newest : cur.id < id := name.lt writing₂.disk mem pen.mem_last
      have newestNat := UInt64.lt_iff_toNat_lt.mp newest
      have low := pen.low
      have idLt := id.toNat_lt
      have sequence := pen.sequence
      have sequencesFit : σ.firstSequence + (σ.ids.length + 1) < 2 ^ 64 := by omega
      have after : ∀ a ∈ σ.ids, a < id := fun a => name.lt writing₂.disk mem
      have opened : σ.sessionId ≤ id := UInt64.le_of_lt (name.session_lt writing₂.disk mem)
      let σ' := σ.addFile id after opened stored sequencesFit
      have before : ∀ ρ ∈ front, ρ.Before σ' := by
        intro ρ memFront
        have old := pen.ends.before ρ memFront
        refine ⟨fun a memIds b memNew => ?_, old.session⟩
        rcases List.mem_append.mp memNew with memOld | isNew
        · exact old.ids a memIds b memOld
        · rw [List.mem_singleton.mp isNew]
          refine name.lt writing₂.disk ?_ memIds
          rw [pen.ends]
          exact List.mem_append_left _ memFront
      have same : u = { s with
          dir := u.dir, ops := u.ops, events := u.events, timerResolution := u.timerResolution
          sequence := s.sequence.next, current := some ⟨id, 0⟩ } := by
        rw [created.same, did.same]
        rfl
      have files : u.files = Function.update s.files id (some (SegmentHeader.toBytes
          ⟨id, σ.sessionId, σ.segSizeMax, UInt64.ofNat (owed σ.blocks σ.stored), σ.format,
            UInt64.ofNat (σ.firstSequence + σ.ids.length), versionMinor⟩)) := by
        rw [created.files, files₂, owes, pen.sessionId, pen.segSizeMax, pen.format,
          ← pen.next_sequence, did.same]
        rfl
      have disk : OnDisk u.files (L.revise front σ σ' pen.ends before) :=
        files ▸ writing.disk.addFile pen.ends
      have nextSequence : s.sequence.next.toNat = s.sequence.toNat + 1 :=
        SeqId.toNat_next pen.sequence_lt
      have pen' : Pen u (L.revise front σ σ' pen.ends before) ⟨id, 0⟩ front σ' := by
        have sessionId := pen.sessionId
        have segSizeMax := pen.segSizeMax
        have format := pen.format
        have left := pen.left
        refine ⟨rfl, by simp [σ', Strand.addFile], ?_, ?_, ?_, ?_, ?_, ?_, ?_⟩ <;> try rw [same]
        · exact sessionId
        · exact segSizeMax
        · exact format
        · rw [show σ'.firstSequence = σ.firstSequence from rfl,
            show σ'.ids.length = σ.ids.length + 1 by simp [σ', Strand.addFile], nextSequence]
          omega
        · rw [nextSequence]
          exact Nat.lt_of_le_of_lt low newestNat
        · rw [show σ'.ids.length - 1 = σ.ids.length by simp [σ', Strand.addFile]]
          exact stored
        · exact left
      have ids : σ.ids <+: σ'.ids := List.prefix_append _ _
      have onward := created.writing writing₂ disk pen' (fileAt_revise pen.ends before ids)
      refine ⟨_, σ', id, ⟨onward.writing, args₁.trans ?_, fun noStray => onward.noStray ?_⟩,
        by rw [same], pen', ⟨rfl, rfl, rfl, rfl, ids, Nat.le_refl _⟩, rfl, rfl, by rw [same], by rw [same]⟩
      · exact ⟨onward.args.namePrefix, onward.args.nameSuffix, onward.args.segSizeMax,
          onward.args.format, onward.args.clock, onward.args.later⟩
      · rw [files₂]
        exact noStray
    · rintro stop u ⟨noPanic, notCreated⟩
      have stopped := notCreated.stopped writing₂ closed
      exact ⟨noPanic, stopped.writing, args₁.trans ⟨stopped.args.namePrefix, stopped.args.nameSuffix,
        stopped.args.segSizeMax, stopped.args.format, stopped.args.clock, stopped.args.later⟩,
        stopped.current⟩
  · rintro stop t ⟨rfl, did⟩
    exact ⟨by simp, writing.close did, sameArgs_close did, by rw [did.current]⟩

end Tcslog
