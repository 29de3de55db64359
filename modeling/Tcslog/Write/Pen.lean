import Tcslog.Write.Naming

/-!
# Where the writer stands

The writer's files are those of a log, and while it has one open, that is the
last file of the log's last strand: its sequence, the bytes written to it and
the bytes left of the record in progress are those of that strand.
-/

namespace Tcslog

open Lib.Program Lib.Spanned WriteState

/-- What `new` checked of a writer's arguments. -/
structure LogWrite.Able (log : LogWrite) : Prop where
  roomy : log.format.dataHeaderLen < SegmentHeader.dataSectionLen log.segSizeMax
  formatValid : log.format ≠ .fixed 0
  clock : 0 < log.clock.delta

/-- The writer has the last file of the log's last strand open. -/
structure Pen (s : WriteState) (L : Log) (cur : Current) (front : List Strand) (σ : Strand) :
    Prop where
  ends : L.EndsWith front σ
  last : σ.ids.getLast? = some cur.id
  sessionId : σ.sessionId = s.sessionId
  segSizeMax : σ.segSizeMax = s.segSizeMax
  format : σ.format = s.format
  sequence : σ.firstSequence + σ.ids.length = s.sequence.toNat + 1
  low : s.sequence.toNat < cur.id.toNat
  written : σ.stored = (σ.ids.length - 1) * σ.dataSection + cur.dataWritten
  left : σ.stored + s.recordBytesLeft = σ.blocks.flatten.length

/-- The writer's files are those of `L`, and its clock is past them. -/
structure Writing (env : WriteEnv) (s : WriteState) (L : Log) : Prop where
  able : s.toLogWrite.Able
  disk : OnDisk s.files L
  past : s.Past env
  pen : ∀ cur, s.current = some cur → ∃ front σ, Pen s L cur front σ

variable {env : WriteEnv} {s t : WriteState} {L : Log} {cur : Current} {front : List Strand}
  {σ : Strand}

/-! ## The open file -/

theorem Pen.idAt (pen : Pen s L cur front σ) : σ.ids[σ.ids.length - 1]? = some cur.id := by
  rw [← List.getLast?_eq_getElem?, pen.last]

theorem Pen.fileAt (pen : Pen s L cur front σ) :
    L.FileAt front.length (σ.ids.length - 1) σ cur.id :=
  pen.ends.fileAt_last pen.idAt

theorem Pen.isLast (_pen : Pen s L cur front σ) : σ.ids.length - 1 + 1 = σ.ids.length :=
  Nat.sub_add_cancel (List.length_pos_of_ne_nil σ.nonempty)

theorem Pen.dataWritten_le (pen : Pen s L cur front σ) : cur.dataWritten ≤ σ.dataSection := by
  have fits : σ.stored ≤ σ.ids.length * σ.dataSection := σ.storedFits
  have written := pen.written
  rw [← pen.isLast, Nat.succ_mul] at fits
  omega

theorem Pen.dataSection (pen : Pen s L cur front σ) :
    σ.dataSection = SegmentHeader.dataSectionLen s.segSizeMax := by
  rw [Strand.dataSection, pen.segSizeMax]

theorem Pen.stored_add (pen : Pen s L cur front σ) :
    σ.stored + (σ.dataSection - cur.dataWritten) = σ.ids.length * σ.dataSection := by
  have le := pen.dataWritten_le
  have written := pen.written
  have split : σ.ids.length * σ.dataSection = (σ.ids.length - 1) * σ.dataSection + σ.dataSection := by
    rw [← Nat.succ_mul, Nat.succ_eq_add_one, pen.isLast]
  omega

/-- The pen stays where it is while the writer's own fields do. -/
theorem Pen.of_same (pen : Pen s L cur front σ) (sessionId : t.sessionId = s.sessionId)
    (segSizeMax : t.segSizeMax = s.segSizeMax) (format : t.format = s.format)
    (sequence : t.sequence = s.sequence) (left : t.recordBytesLeft = s.recordBytesLeft) :
    Pen t L cur front σ :=
  ⟨pen.ends, pen.last, pen.sessionId.trans sessionId.symm, pen.segSizeMax.trans segSizeMax.symm,
    pen.format.trans format.symm, sequence ▸ pen.sequence, sequence ▸ pen.low, pen.written,
    left ▸ pen.left⟩

theorem Writing.did (writing : Writing env s L) (did : s.Did s.dir t) : Writing env t L := by
  refine ⟨?_, ?_, did.past writing.past, fun cur current => ?_⟩
  · have able := writing.able
    rw [did.same]
    exact ⟨able.roomy, able.formatValid, able.clock⟩
  · rw [did.files_same]
    exact writing.disk
  · obtain ⟨front, σ, pen⟩ := writing.pen cur (did.current ▸ current)
    refine ⟨front, σ, pen.of_same ?_ ?_ ?_ ?_ ?_⟩ <;> rw [did.same]

/-- Without an open file only the files, the arguments and the clock matter. -/
theorem Writing.idle (writing : Writing env s L) (current : t.current = none)
    (files : t.files = s.files) (segSizeMax : t.segSizeMax = s.segSizeMax)
    (format : t.format = s.format) (clock : t.clock = s.clock) (later : s.ops ≤ t.ops) :
    Writing env t L := by
  refine ⟨?_, files ▸ writing.disk, fun id present => ?_, by simp [current]⟩
  · exact ⟨by rw [format, segSizeMax]; exact writing.able.roomy,
      format ▸ writing.able.formatValid, clock ▸ writing.able.clock⟩
  · rw [clock]
    exact (writing.past id (files ▸ present)).trans (env.reading_mono _ later)

/-! ## Creating a segment file -/

/-- The header of a file created now. -/
def WriteState.headerOf (s : WriteState) (id sessionId : SegId) : SegmentHeader :=
  ⟨id, sessionId, s.segSizeMax, UInt64.ofNat s.recordBytesLeft, s.format, s.sequence, versionMinor⟩

/-- The writer opened a new file that holds its header. -/
structure Created (env : WriteEnv) (s : WriteState) (sessionId : SegId → SegId) (id : SegId)
    (s' : WriteState) : Prop where
  name : FreshName env s id s'
  same : s' = { s with
    dir := s'.dir, ops := s'.ops, events := s'.events, timerResolution := s'.timerResolution
    sessionId := sessionId id, current := some ⟨id, 0⟩ }
  later : s.ops ≤ s'.ops
  files : s'.files = Function.update s.files id (some (s.headerOf id (sessionId id)).toBytes)

/-- Creating a file failed, at most leaving one without a whole header. -/
structure NotCreated (env : WriteEnv) (s s' : WriteState) : Prop where
  same : s' = { s with
    dir := s'.dir, ops := s'.ops, events := s'.events, timerResolution := s'.timerResolution
    sessionId := s'.sessionId }
  later : s.ops ≤ s'.ops
  files : s'.files = s.files ∨ ∃ id content, FreshName env s id s' ∧
    content.length < segmentFileHeaderLen ∧ s'.files = Function.update s.files id (some content)

theorem FreshName.later {id : SegId} {u : WriteState} (name : FreshName env s id t)
    (later : t.ops ≤ u.ops) : FreshName env s id u :=
  ⟨name.free, name.newest, name.past.trans (env.reading_mono _ later), name.started⟩

theorem createSegment_spec (opensSession : Bool) (past : s.Past env) :
    Meets (createSegment env opensSession) s
      (fun _ s' => ∃ id,
        Created env s (fun id => if opensSession then id else s.sessionId) id s')
      (fun stop s' => stop ≠ .panic ∧ NotCreated env s s') := by
  simp only [createSegment, meets_bind]
  refine (createUniqueFile_spec env.attempts false past).imp ?_ ?_
  · rintro id t ⟨name, did⟩
    have sessionId : t.sessionId = s.sessionId := by rw [did.same]
    simp only [meets_modify, meets_get]
    have files : ({ t with sessionId := if opensSession then id else t.sessionId } :
        WriteState).files = Function.update s.files id (some []) := by
      refine Eq.trans ?_ Dir.files_insert
      exact did.files_eq
    have present : ({ t with sessionId := if opensSession then id else t.sessionId } :
        WriteState).files id = some [] := by
      rw [files, Function.update_self]
    refine (writeAll_spec present _).imp ?_ (by simp)
    rintro done u ⟨front, did', files', whole⟩
    rw [files, Function.update_idem, List.nil_append] at files'
    have later := did.later.trans did'.later
    simp only [meets_ite, meets_modify, meets_fail]
    refine ⟨fun isDone => ⟨id, name.later did'.later, ?_, later, ?_⟩, fun notDone => ⟨by simp,
      ?_, later, .inr ⟨id, front, name.later did'.later, ?_, files'⟩⟩⟩
    · rw [did'.same, did.same]
    · rw [if_pos isDone] at whole
      rw [whole] at files'
      refine files'.trans ?_
      rw [did.same]
      rfl
    · rw [did'.same, did.same]
    · rw [if_neg notDone] at whole
      obtain ⟨n, rfl, empty | less⟩ := whole
      · simp [empty, segmentFileHeaderLen]
      · rw [SegmentHeader.length_toBytes] at less
        rw [List.length_take, SegmentHeader.length_toBytes]
        omega
  · rintro stop t ⟨noPanic, did⟩
    exact ⟨noPanic, by rw [did.same], did.later, .inl did.files_same⟩

end Tcslog
