import Tcslog.Write.Session

/-!
# Writing the bytes of a record

Each pass of the loop stores the next bytes of the tape in the open file, which
was rolled when it was full.  When a pass fails the record is stored in part, its
strand has ended, and the writer goes on in a new file or has none open.
-/

namespace Tcslog

open Lib.Program Lib.Spanned WriteState

/-- A record in progress does not outlast a call: it is complete or given up. -/
def WriteState.Rested (s : WriteState) : Prop :=
  s.current.isSome → s.recordBytesLeft = 0

/-- A call failed and left a log that lost nothing and holds at most a front of
`msg` more. -/
def WriteFailed (env : WriteEnv) (s : WriteState) (L : Log) (msg : Bytes) (s' : WriteState) : Prop :=
  ∃ L', Writing env s' L' ∧ SameArgs s s' ∧ Log.Lossless msg s.segSizeMax L L' ∧ s'.Rested

variable {env : WriteEnv} {s t : WriteState} {L L₀ L' : Log} {cur : Current} {front : List Strand}
  {σ σ₁ : Strand} {msg : Bytes}

theorem Stopped.failed (stopped : Stopped env s t L')
    (lossless : Log.Lossless msg s.segSizeMax L L') : WriteFailed env s L msg t :=
  ⟨L', stopped.writing, stopped.args, lossless, by simp [Rested, stopped.current]⟩

theorem WriteFailed.after {s₀ : WriteState} (failed : WriteFailed env s L msg t)
    (args : SameArgs s₀ s) (lossless : Log.Lossless msg s₀.segSizeMax L₀ L) :
    WriteFailed env s₀ L₀ msg t := by
  obtain ⟨L', writing, args', lossless', rested⟩ := failed
  rw [args.segSizeMax] at lossless'
  exact ⟨L', writing, args.trans args', lossless.trans lossless', rested⟩

/-- At rest the last strand is stored to its end. -/
theorem Pen.full (pen : Pen s L cur front σ) (rested : s.recordBytesLeft = 0) : σ.Full := by
  have left := pen.left
  rw [rested] at left
  exact left

theorem Pen.owed_rested (pen : Pen s L cur front σ) (rested : s.recordBytesLeft = 0) :
    owed σ.blocks σ.stored = s.recordBytesLeft := by
  rw [rested, show σ.stored = σ.start σ.records.length by
    rw [Strand.start_length]; exact pen.full rested]
  exact Strand.owed_start _

/-- Within the last record the strand owes what is left of it. -/
theorem Pen.owed_inside (pen : Pen s L cur front σ)
    (begun : σ.start (σ.records.length - 1) < σ.stored) (more : 0 < s.recordBytesLeft) :
    owed σ.blocks σ.stored = s.recordBytesLeft := by
  have left := pen.left
  have some : 0 < σ.records.length := by
    refine Nat.pos_of_ne_zero fun none => ?_
    have empty : σ.records = [] := List.eq_nil_of_length_eq_zero none
    rw [Strand.blocks, empty] at left
    simp at left
    omega
  have next : σ.start (σ.records.length - 1 + 1) = σ.blocks.flatten.length := by
    rw [Nat.sub_add_cancel some, Strand.start_length]
  obtain ⟨x, inside⟩ := Nat.exists_eq_add_of_lt begun
  rw [inside, show σ.start (σ.records.length - 1) + x + 1 =
    σ.start (σ.records.length - 1) + (x + 1) by omega, Strand.owed_of_start (by omega) (by omega)]
  omega

/-! ## The room left -/

theorem room_spec (able : s.toLogWrite.Able) (pen : Pen s L cur front σ)
    (current : s.current = some cur) : Meets (room env) s
      (fun n s' => n = σ.dataSection - cur.dataWritten ∧ s' = s) (fun _ _ => False) := by
  have headerFits : segmentFileHeaderLen ≤ s.segSizeMax.toNat := by
    have roomy := able.roomy
    unfold SegmentHeader.dataSectionLen at roomy
    omega
  have isSection : s.segSizeMax.toNat - segmentFileHeaderLen = σ.dataSection := by
    rw [pen.dataSection]
    rfl
  simp only [room, meets_bind, meets_get, current]
  rw [subU32_of_le headerFits, meets_pure, isSection, subU32_of_le pen.dataWritten_le, meets_pure]
  exact ⟨rfl, rfl⟩

/-- Rolling a full file makes room for the next byte. -/
theorem rollIfFull_spec (leaves : env.Leaves) (writing : Writing env s L)
    (current : s.current = some cur) (pen : Pen s L cur front σ)
    (owes : cur.dataWritten = σ.dataSection → owed σ.blocks σ.stored = s.recordBytesLeft) :
    Meets (rollIfFull env) s
      (fun _ s' => ∃ L' cur' σ', Rolled env s L front σ s' L' cur' σ' ∧
        cur'.dataWritten < σ'.dataSection)
      (fun stop s' => stop ≠ .panic ∧ Stopped env s s' L) := by
  simp only [rollIfFull, meets_bind, meets_ite, meets_pure]
  refine (room_spec writing.able pen current).imp ?_ (by simp)
  rintro n _ ⟨rfl, rfl⟩
  have le := pen.dataWritten_le
  refine ⟨fun noRoom => ?_, fun room => ?_⟩
  · have full : cur.dataWritten = σ.dataSection := by omega
    refine (roll_spec leaves writing pen full (owes full)).imp ?_ fun _ _ stopped => stopped
    rintro _ s' ⟨L', σ', id, rolled⟩
    exact ⟨L', ⟨id, 0⟩, σ', rolled, σ'.dataSection_pos⟩
  · exact ⟨L, cur, σ, ⟨.refl writing, current, pen, .refl σ, rfl, rfl, rfl, rfl⟩, by omega⟩

/-! ## Giving up a file -/

/-- After a failed write the session goes on in a strand of its own. -/
theorem abandonAfterError_spec (msg : Bytes) (leaves : env.Leaves)
    (writing : Writing env { s with current := none } L) (ends : L.EndsWith front σ)
    (last : σ.ids.getLast? = some cur.id) (sessionId : σ.sessionId = s.sessionId)
    (sequence : σ.firstSequence + σ.ids.length = s.sequence.toNat + 1)
    (low : s.sequence.toNat < cur.id.toNat) (short : σ.stored < σ.ids.length * σ.dataSection) :
    Meets (abandonAfterError env) s (fun _ s' => WriteFailed env s L msg s')
      (fun stop s' => stop ≠ .panic ∧ WriteFailed env s L msg s') := by
  simp only [abandonAfterError, meets_bind, meets_modify, meets_attempt]
  have closed {t : WriteState} (did : ({ s with recordBytesLeft := 0, current := none } :
      WriteState).Did s.dir t) : Writing env { t with sequence := t.sequence.next } L := by
    refine writing.idle ?_ ?_ ?_ ?_ ?_ did.later
    · exact did.current
    · exact did.files_eq
    all_goals rw [did.same]
  have goesOn {t : WriteState} (did : ({ s with recordBytesLeft := 0, current := none } :
      WriteState).Did s.dir t) :
      Meets (createSegment env false) { t with sequence := t.sequence.next }
        (fun _ s' => WriteFailed env s L msg s')
        (fun stop s' => stop ≠ .panic ∧ WriteFailed env s L msg s') := by
    have writing₂ := closed did
    have args₁ : SameArgs s { t with sequence := t.sequence.next } := by
      refine ⟨?_, ?_, ?_, ?_, ?_, did.later⟩ <;> rw [did.same]
    refine (createSegment_spec false writing₂.past).imp ?_ ?_
    · rintro _ u ⟨id, created⟩
      have name := created.name
      have able := writing₂.able
      have mem : σ ∈ L.strands := by rw [ends]; simp
      have newest : cur.id < id := name.lt writing₂.disk mem (List.mem_of_getLast? last)
      have newestNat := UInt64.lt_iff_toNat_lt.mp newest
      have idLt := id.toNat_lt
      have opened : s.sessionId ≤ id := by
        rw [← sessionId]
        exact UInt64.le_of_lt (name.session_lt writing₂.disk mem)
      have small : s.sequence.toNat < u64Max := by unfold u64Max; omega
      have nextSequence : s.sequence.next.toNat = s.sequence.toNat + 1 := SeqId.toNat_next small
      have same : u = { s with
          dir := u.dir, ops := u.ops, events := u.events, timerResolution := u.timerResolution
          recordBytesLeft := 0, sequence := s.sequence.next, current := some ⟨id, 0⟩ } := by
        rw [created.same, did.same]
        rfl
      let τ := Strand.fresh id s.sessionId t.segSizeMax t.format (s.sequence.toNat + 1) able.roomy
        able.formatValid opened (by omega)
      have sessions : τ.sessionId = σ.sessionId := sessionId.symm
      have before : ∀ ρ ∈ L.strands, ρ.Before τ := by
        intro ρ memOld
        refine ⟨fun a memIds b memNew => ?_, ?_⟩
        · obtain rfl : b = id := by simpa [τ, Strand.fresh] using memNew
          exact name.lt writing₂.disk memOld memIds
        · rw [ends] at memOld
          rcases List.mem_append.mp memOld with inFront | isLast
          · rcases (ends.before ρ inFront).session with less | ⟨same, follows, wasShort⟩
            · exact .inl (sessions ▸ less)
            · refine .inr ⟨sessions ▸ same, follows.trans ?_, wasShort⟩
              change σ.firstSequence ≤ s.sequence.toNat + 1
              omega
          · rw [List.mem_singleton.mp isLast]
            exact .inr ⟨sessions.symm, sequence.le, short⟩
      have files : u.files = Function.update
          ({ t with sequence := t.sequence.next } : WriteState).files id (some (τ.file 0 id)) := by
        refine created.files.trans ?_
        rw [Strand.file_fresh, ← nextSequence, UInt64.ofNat_toNat, did.same]
        rfl
      have disk : OnDisk u.files (L.push τ before) := files ▸ writing₂.disk.push rfl
      have pen : Pen u (L.push τ before) ⟨id, 0⟩ L.strands τ := by
        refine ⟨rfl, rfl, ?_, ?_, ?_, ?_, ?_, by simp [τ, Strand.fresh], ?_⟩
        · rw [same]
          rfl
        · rw [same, show τ.segSizeMax = t.segSizeMax from rfl, did.same]
        · rw [same, show τ.format = t.format from rfl, did.same]
        · rw [same, nextSequence]
          rfl
        · rw [same, nextSequence]
          exact Nat.lt_of_le_of_lt low newestNat
        · rw [same]
          rfl
      have onward := created.writing writing₂ disk pen fileAt_push
      refine ⟨_, onward.writing, args₁.trans onward.args, ?_, fun _ => by rw [same]⟩
      exact Log.lossless_push ends rfl sessions sequence.symm args₁.segSizeMax
    · rintro stop u ⟨noPanic, notCreated⟩
      have stopped := notCreated.stopped writing₂ did.current
      exact ⟨noPanic, (stopped.after args₁).failed (.refl ..)⟩
  refine (closeAndSend_spec leaves).imp (fun _ t did => goesOn did) ?_
  rintro stop t ⟨rfl, did⟩
  exact goesOn did

/-! ## Storing bytes -/

/-- Bytes of the tape at the end of the open file are stored bytes of its
strand. -/
theorem Writing.addBytes {dir : Dir} {n : Nat} (writing : Writing env s L)
    (pen : Pen s L cur front σ) (did : s.Did dir t)
    (room : σ.stored + n ≤ σ.ids.length * σ.dataSection)
    (le : σ.stored + n ≤ σ.blocks.flatten.length)
    (files : t.files = Function.update s.files cur.id
      (some (σ.file (σ.ids.length - 1) cur.id ++ (σ.blocks.flatten.drop σ.stored).take n))) :
    ∃ L' : Log, L'.EndsWith front (σ.addBytes n room le) ∧ OnDisk t.files L' ∧ t.Past env ∧
      (NoStray s.files L → NoStray t.files L') := by
  have before : ∀ ρ ∈ front, ρ.Before (σ.addBytes n room le) := by
    intro ρ mem
    have old := pen.ends.before ρ mem
    exact ⟨old.ids, old.session⟩
  have present : (s.files cur.id).isSome := by
    rw [writing.disk.shown pen.fileAt]
    rfl
  have same {id : SegId} (there : (t.files id).isSome) : (s.files id).isSome := by
    by_cases isLast : id = cur.id
    · exact isLast ▸ present
    · rwa [files, Function.update_of_ne isLast] at there
  refine ⟨L.revise front σ _ pen.ends before, rfl, ?_, fun id there => ?_, fun noStray id there => ?_⟩
  · rw [files]
    exact writing.disk.addBytes pen.ends pen.last
  · rw [did.clock]
    exact (writing.past id (same there)).trans (env.reading_mono _ did.later)
  · exact fileAt_revise pen.ends before List.prefix_rfl id
      (noStray id (same there))

/-- The writer stands in the open file at the end of what is stored of `record`,
with which the log has grown. -/
structure Midway (env : WriteEnv) (L₀ : Log) (began : Bool) (record : Record) (s : WriteState)
    (L : Log) (cur : Current) (front : List Strand) (σ₁ σ : Strand) : Prop where
  writing : Writing env s L
  current : s.current = some cur
  pen : Pen s L cur front σ
  grew : L₀.Grew began [record] L front σ₁ σ
  begun : cur.dataWritten < σ.dataSection ∨ σ.start (σ.records.length - 1) < σ.stored

section Chunk

variable {began : Bool} {record : Record} {data : Bytes}

/-- While bytes of the record are left, a failure loses nothing else. -/
theorem Midway.lossless (mid : Midway env L₀ began record s L cur front σ₁ σ)
    (more : 0 < s.recordBytesLeft) : Log.Lossless record.payload s.segSizeMax L₀ L := by
  have left := mid.pen.left
  refine mid.grew.lossless _ (.inr ⟨fun full => ?_, record, rfl, rfl⟩) mid.pen.segSizeMax
  unfold Strand.Full at full
  omega

theorem Midway.length_le (mid : Midway env L₀ began record s L cur front σ₁ σ)
    (next : (σ.blocks.flatten.drop σ.stored).take data.length = data) :
    data.length ≤ s.recordBytesLeft := by
  have left := mid.pen.left
  have len := congrArg List.length next
  rw [List.length_take, List.length_drop] at len
  omega

/-- Making room in the middle of a record. -/
theorem Midway.rolled (leaves : env.Leaves) (mid : Midway env L₀ began record s L cur front σ₁ σ)
    (more : 0 < s.recordBytesLeft) :
    Meets (rollIfFull env) s
      (fun _ s' => ∃ L' cur' σ', Midway env L₀ began record s' L' cur' front σ₁ σ' ∧
        Rolled env s L front σ s' L' cur' σ' ∧ cur'.dataWritten < σ'.dataSection)
      (fun stop s' => stop ≠ .panic ∧ WriteFailed env s L₀ record.payload s') := by
  refine (rollIfFull_spec leaves mid.writing mid.current mid.pen fun full => ?_).imp ?_ ?_
  · exact mid.pen.owed_inside (mid.begun.resolve_left (by omega)) more
  · rintro _ s' ⟨L', cur', σ', rolled, room⟩
    refine ⟨L', cur', σ', ⟨rolled.onward.writing, rolled.current, rolled.pen, ?_, .inl room⟩, rolled,
      room⟩
    exact mid.grew.onto rolled.pen.ends rolled.continues rolled.records
  · rintro stop s' ⟨noPanic, stopped⟩
    exact ⟨noPanic, stopped.failed (mid.lossless more)⟩

/-- Bytes of the record were stored. -/
theorem Midway.append {dir : Dir} {n : Nat} (mid : Midway env L₀ began record s L cur front σ₁ σ)
    (did : s.Did dir t) (room : n ≤ σ.dataSection - cur.dataWritten) (le : n ≤ s.recordBytesLeft)
    (more : 0 < n) (files : t.files = Function.update s.files cur.id
      (some (σ.file (σ.ids.length - 1) cur.id ++ (σ.blocks.flatten.drop σ.stored).take n)))
    {u : WriteState} (after : u = { t with
      current := some { cur with dataWritten := cur.dataWritten + n }
      recordBytesLeft := t.recordBytesLeft - n }) :
    ∃ L' cur' σ', Midway env L₀ began record u L' cur' front σ₁ σ' ∧ Onward env s L u L' ∧
      σ'.records = σ.records ∧ σ'.stored = σ.stored + n ∧ u.recordBytesLeft = s.recordBytesLeft - n := by
  have pen := mid.pen
  have left := pen.left
  have whole := pen.stored_add
  have roomFor : σ.stored + n ≤ σ.ids.length * σ.dataSection := by omega
  have leFlat : σ.stored + n ≤ σ.blocks.flatten.length := by omega
  obtain ⟨L', ends, disk, past, noStray⟩ := mid.writing.addBytes pen did roomFor leFlat files
  have same : u = { s with
      dir := u.dir, ops := u.ops, events := u.events, timerResolution := u.timerResolution
      current := some { cur with dataWritten := cur.dataWritten + n }
      recordBytesLeft := s.recordBytesLeft - n } := by
    rw [after, did.same]
  have filesEq : u.files = t.files := by rw [after]; rfl
  have current : u.current = some { cur with dataWritten := cur.dataWritten + n } := by rw [after]
  have begun : σ.start (σ.records.length - 1) ≤ σ.stored := by
    refine le_trans (Strand.start_mono ?_) mid.grew.base_stored
    rw [mid.grew.records, List.length_append]
    simp
  have pen' : Pen u L' { cur with dataWritten := cur.dataWritten + n } front
      (σ.addBytes n roomFor leFlat) := by
    refine ⟨ends, pen.last, ?_, ?_, ?_, ?_, ?_, ?_, ?_⟩ <;> try rw [same]
    · exact pen.sessionId
    · exact pen.segSizeMax
    · exact pen.format
    · exact pen.sequence
    · exact pen.low
    · change σ.stored + n = (σ.ids.length - 1) * σ.dataSection + (cur.dataWritten + n)
      rw [pen.written, Nat.add_assoc]
    · change σ.stored + n + (s.recordBytesLeft - n) = σ.blocks.flatten.length
      omega
  have writing : Writing env u L' := by
    refine ⟨?_, filesEq ▸ disk, fun id present => ?_, fun cur' isCurrent => ?_⟩
    · have able := mid.writing.able
      rw [same]
      exact ⟨able.roomy, able.formatValid, able.clock⟩
    · rw [filesEq] at present
      have := past id present
      rw [after]
      exact this
    · obtain rfl := Option.some.inj (current.symm.trans isCurrent)
      exact ⟨front, _, pen'⟩
  have args : SameArgs s u := by
    refine ⟨?_, ?_, ?_, ?_, ?_, ?_⟩ <;> rw [same]
    rw [after]
    exact did.later
  refine ⟨L', _, _, ⟨writing, current, pen', ?_, .inr ?_⟩,
    ⟨writing, args, fun old => filesEq ▸ noStray old⟩, rfl, rfl, by rw [same]⟩
  · exact mid.grew.onto ends ⟨rfl, rfl, rfl, rfl, List.prefix_rfl, Nat.le_add_right _ _⟩ rfl
  · exact Nat.lt_of_le_of_lt begun (Nat.lt_add_of_pos_right more)

/-- Storing failed part way. -/
theorem Midway.abandon {dir : Dir} {n : Nat} (leaves : env.Leaves)
    (mid : Midway env L₀ began record s L cur front σ₁ σ) (did : s.Did dir t)
    (room : n < σ.dataSection - cur.dataWritten) (less : n < s.recordBytesLeft)
    (files : t.files = Function.update s.files cur.id
      (some (σ.file (σ.ids.length - 1) cur.id ++ (σ.blocks.flatten.drop σ.stored).take n))) :
    Meets (abandonAfterError env) t (fun _ s' => WriteFailed env s L₀ record.payload s')
      (fun stop s' => stop ≠ .panic ∧ WriteFailed env s L₀ record.payload s') := by
  have pen := mid.pen
  have left := pen.left
  have whole := pen.stored_add
  have roomFor : σ.stored + n ≤ σ.ids.length * σ.dataSection := by omega
  have leFlat : σ.stored + n ≤ σ.blocks.flatten.length := by omega
  obtain ⟨L', ends, disk, past, noStray⟩ := mid.writing.addBytes pen did roomFor leFlat files
  have grew : L₀.Grew began [record] L' front σ₁ (σ.addBytes n roomFor leFlat) :=
    mid.grew.onto ends ⟨rfl, rfl, rfl, rfl, List.prefix_rfl, Nat.le_add_right _ _⟩ rfl
  have lossless : Log.Lossless record.payload s.segSizeMax L₀ L' := by
    refine grew.lossless _ (.inr ⟨fun full => ?_, record, rfl, rfl⟩) pen.segSizeMax
    change σ.stored + n = σ.blocks.flatten.length at full
    omega
  have writing : Writing env { t with current := none } L' := by
    refine ⟨?_, disk, past, by simp⟩
    have able := mid.writing.able
    rw [did.same]
    exact ⟨able.roomy, able.formatValid, able.clock⟩
  have gaveUp := abandonAfterError_spec record.payload leaves writing ends pen.last
    (by rw [did.same]; exact pen.sessionId) (by rw [did.same]; exact pen.sequence)
    (by rw [did.same]; exact pen.low) (by change σ.stored + n < σ.ids.length * σ.dataSection; omega)
  exact gaveUp.imp (fun _ _ failed => failed.after (.of_did did) lossless)
    fun _ _ ⟨noPanic, failed⟩ => ⟨noPanic, failed.after (.of_did did) lossless⟩

/-- One pass stores some of the data, the file having room for it. -/
theorem writeChunk_spec (leaves : env.Leaves)
    (mid : Midway env L₀ began record s L cur front σ₁ σ) (some : data ≠ [])
    (next : (σ.blocks.flatten.drop σ.stored).take data.length = data) :
    Meets (writeChunk env data) s
      (fun n s' => 0 < n ∧ n ≤ data.length ∧ ∃ L' cur' σ',
        Midway env L₀ began record s' L' cur' front σ₁ σ' ∧ Onward env s L s' L' ∧
        σ'.records = σ.records ∧ σ'.stored = σ.stored + n)
      (fun stop s' => stop ≠ .panic ∧ WriteFailed env s L₀ record.payload s') := by
  have dataPos := List.length_pos_of_ne_nil some
  have fits := mid.length_le next
  simp only [writeChunk, meets_bind]
  refine (mid.rolled leaves (by omega)).imp ?_ fun _ _ failed => failed
  rintro _ t ⟨L₁, cur₁, τ, mid₁, rolled, room⟩
  have args₁ := rolled.onward.args
  have left₁ : t.recordBytesLeft = s.recordBytesLeft := rolled.left
  have front_eq {m : Nat} (le : m ≤ data.length) :
      data.take m = (τ.blocks.flatten.drop τ.stored).take m := by
    have blocks : τ.blocks = σ.blocks := by rw [Strand.blocks, rolled.records, Strand.blocks]
    conv_lhs => rw [← next]
    rw [blocks, rolled.stored, List.take_take, Nat.min_eq_left le]
  refine (room_spec mid₁.writing.able mid₁.pen mid₁.current).imp ?_ (by simp)
  rintro n _ ⟨rfl, rfl⟩
  simp only [meets_get, mid₁.current, meets_bind]
  refine (writeAll_spec (mid₁.writing.disk.shown mid₁.pen.fileAt) _).imp ?_ (by simp)
  rintro done u ⟨bytes, did, files, whole⟩
  simp only [meets_ite, meets_bind, meets_modify, meets_pure]
  refine ⟨fun isDone => ⟨by omega, by omega, ?_⟩, fun notDone => ?_⟩
  · rw [if_pos isDone] at whole
    rw [whole, front_eq (by omega)] at files
    obtain ⟨L₂, cur₂, ρ, mid₂, onward, records, stored, _⟩ :=
      mid₁.append did (by omega) (by omega) (by omega) files rfl
    exact ⟨L₂, cur₂, ρ, mid₂, rolled.onward.trans onward, records.trans rolled.records,
      stored.trans (congrArg (· + _) rolled.stored)⟩
  · rw [if_neg notDone] at whole
    obtain ⟨m, rfl, empty | less⟩ := whole
    · have := congrArg List.length empty
      rw [List.length_take, List.length_nil] at this
      omega
    · rw [List.length_take] at less
      rw [List.take_take, Nat.min_eq_left (by omega), front_eq (by omega)] at files
      refine (mid₁.abandon leaves did (by omega) (by omega) files).imp ?_ ?_
      · exact fun _ _ failed => ⟨by simp, failed.after args₁ (.refl ..)⟩
      · rintro _ _ ⟨noPanic, failed⟩
        exact ⟨noPanic, failed.after args₁ (.refl ..)⟩

/-- The loop stores all the data. -/
theorem writeBytes_spec (leaves : env.Leaves)
    (mid : Midway env L₀ began record s L cur front σ₁ σ)
    (next : (σ.blocks.flatten.drop σ.stored).take data.length = data) :
    Meets (writeBytes env data) s
      (fun _ s' => ∃ L' cur' σ', Midway env L₀ began record s' L' cur' front σ₁ σ' ∧
        Onward env s L s' L' ∧ σ'.records = σ.records ∧ σ'.stored = σ.stored + data.length)
      (fun stop s' => stop ≠ .panic ∧ WriteFailed env s L₀ record.payload s') := by
  induction size : data.length using Nat.strong_induction_on generalizing data s L cur σ with
  | _ size ih =>
      subst size
      rw [writeBytes]
      split
      next none => exact ⟨L, cur, σ, mid, .refl mid.writing, rfl, by simp [none]⟩
      next more =>
        simp only [meets_bind]
        refine (writeChunk_spec leaves mid more next).imp ?_ fun _ _ failed => failed
        rintro n t ⟨some, le, L₁, cur₁, τ, mid₁, onward₁, records₁, stored₁⟩
        rw [dif_neg (Nat.ne_of_gt some)]
        have blocks : τ.blocks = σ.blocks := by rw [Strand.blocks, records₁, Strand.blocks]
        have next₁ : (τ.blocks.flatten.drop τ.stored).take (data.drop n).length = data.drop n := by
          conv_rhs => rw [← next]
          rw [blocks, stored₁, List.length_drop, List.drop_take, List.drop_drop]
        refine (ih (data.drop n).length (by rw [List.length_drop]; omega) mid₁ next₁ rfl).imp ?_ ?_
        · rintro _ u ⟨L₂, cur₂, ρ, mid₂, onward₂, records₂, stored₂⟩
          refine ⟨L₂, cur₂, ρ, mid₂, onward₁.trans onward₂, records₂.trans records₁, ?_⟩
          rw [stored₂, stored₁, List.length_drop]
          omega
        · exact fun _ _ ⟨noPanic, failed⟩ => ⟨noPanic, failed.after onward₁.args (.refl ..)⟩

end Chunk

end Tcslog
