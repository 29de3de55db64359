import Tcslog.Write.Runs

/-!
# What every request of a writer keeps

A relation between two states of a writer that each of its requests keeps, and
the bookkeeping between them, is kept by its calls.  The order in which the
calls make their requests does not matter to such a relation.
-/

namespace Tcslog

open Lib.Program

/-- A relation kept by the requests that storing bytes takes. -/
structure Follows (env : WriteEnv) (R : WriteState → WriteState → Prop) : Prop where
  refl : ∀ s, R s s
  trans : ∀ {s t u}, R s t → R t u → R s u
  createSegment : Preserves R (Tcslog.createSegment env false)
  writeAll : ∀ id bytes, Preserves R (Tcslog.writeAll env id bytes)
  flushFile : ∀ id, Preserves R (Tcslog.flushFile env id)
  send : ∀ id, Preserves R (Tcslog.send env id)
  close : ∀ s : WriteState, R s { s with current := none }
  wrote : ∀ {s : WriteState} {cur : Current}, s.current = some cur → ∀ take,
    (segmentFileHeaderLen + cur.dataWritten ≤ s.segSizeMax.toNat →
      segmentFileHeaderLen + cur.dataWritten + take ≤ s.segSizeMax.toNat) →
    R s { s with current := some { cur with dataWritten := cur.dataWritten + take } }
  book : ∀ (s : WriteState) sequence recordBytesLeft, R s { s with
    sequence := sequence, recordBytesLeft := recordBytesLeft }

/-- A relation kept by every request of an open writer. -/
structure FollowsAll (env : WriteEnv) (R : WriteState → WriteState → Prop) : Prop
    extends Follows env R where
  openSegment : Preserves R (Tcslog.createSegment env true)
  now : Preserves R (Tcslog.now env)
  recordComplete : ∀ id, Preserves R (Tcslog.recordComplete env id)
  removeFile : ∀ id, Preserves R (Tcslog.removeFile env id)
  scan : Preserves R (Tcslog.scan env)
  note : ∀ (s : WriteState) recordCount lastMeta, R s { s with
    recordCount := recordCount, lastMeta := lastMeta }

/-- A relation kept by the requests that storing bytes takes, which append to
the current file only, and create a file, not the first of a session, where
there is none. -/
structure FollowsStores (env : WriteEnv) (R : WriteState → WriteState → Prop) : Prop where
  refl : ∀ s, R s s
  trans : ∀ {s t u}, R s t → R t u → R s u
  createSegment : ∀ {s : WriteState}, s.current = none → s.sequence ≠ 0 →
    Meets (Tcslog.createSegment env false) s (fun _ t => R s t) (fun _ t => R s t)
  writeAll : ∀ {s : WriteState} {cur : Current}, s.current = some cur → ∀ bytes,
    Meets (Tcslog.writeAll env cur.id bytes) s (fun _ t => R s t) (fun _ t => R s t)
  flushFile : ∀ id, Preserves R (Tcslog.flushFile env id)
  send : ∀ id, Preserves R (Tcslog.send env id)
  close : ∀ s : WriteState, R s { s with current := none }
  wrote : ∀ {s : WriteState} {cur : Current}, s.current = some cur → ∀ take,
    (segmentFileHeaderLen + cur.dataWritten ≤ s.segSizeMax.toNat →
      segmentFileHeaderLen + cur.dataWritten + take ≤ s.segSizeMax.toNat) →
    R s { s with current := some { cur with dataWritten := cur.dataWritten + take } }
  book : ∀ (s : WriteState) sequence recordBytesLeft, R s { s with
    sequence := sequence, recordBytesLeft := recordBytesLeft }

/-- A relation kept by every request of an open writer that is never told to
clear its log. -/
structure FollowsWrites (env : WriteEnv) (R : WriteState → WriteState → Prop) : Prop
    extends FollowsStores env R where
  openSegment : ∀ {s : WriteState}, s.current = none →
    Meets (Tcslog.createSegment env true) s (fun _ t => R s t) (fun _ t => R s t)
  now : Preserves R (Tcslog.now env)
  recordComplete : ∀ id, Preserves R (Tcslog.recordComplete env id)
  note : ∀ (s : WriteState) recordCount lastMeta, R s { s with
    recordCount := recordCount, lastMeta := lastMeta }

theorem Follows.toStores {env : WriteEnv} {R : WriteState → WriteState → Prop} (follows : Follows env R) :
    FollowsStores env R :=
  { follows with
    createSegment := fun {s} _ _ => follows.createSegment s
    writeAll := fun {s cur} _ bytes => follows.writeAll cur.id bytes s }

theorem FollowsAll.toWrites {env : WriteEnv} {R : WriteState → WriteState → Prop}
    (follows : FollowsAll env R) : FollowsWrites env R :=
  { follows.toStores with
    openSegment := fun {s} _ => follows.openSegment s
    now := follows.now
    recordComplete := follows.recordComplete
    note := follows.note }

/-- The room in a file that is not overfull. -/
theorem room_left (env : WriteEnv) (s : WriteState) :
    Meets (room env) s
      (fun n s' => s' = s ∧ match s.current with
        | none => n = 0
        | some cur => segmentFileHeaderLen + cur.dataWritten ≤ s.segSizeMax.toNat →
            segmentFileHeaderLen + cur.dataWritten + n = s.segSizeMax.toNat)
      (fun _ s' => s' = s ∧ ∃ cur, s.current = some cur ∧
        s.segSizeMax.toNat < segmentFileHeaderLen + cur.dataWritten) := by
  have subU32 (a b : Nat) (u : WriteState) : Meets (subU32 env.overflowChecks a b) u
      (fun n u' => u' = u ∧ (b ≤ a → b + n = a)) (fun _ u' => u' = u ∧ a < b) := by
    unfold Tcslog.subU32
    split
    next le => exact ⟨rfl, fun _ => Nat.add_sub_of_le le⟩
    next more =>
      split
      · exact ⟨rfl, Nat.lt_of_not_le more⟩
      · exact ⟨rfl, fun le => absurd le more⟩
  rw [room, meets_bind, meets_get]
  cases s.current with
  | none => exact ⟨rfl, rfl⟩
  | some cur =>
      rw [meets_bind]
      refine (subU32 _ _ s).imp ?_ ?_
      · rintro m s ⟨rfl, section_⟩
        refine (subU32 m cur.dataWritten s).imp ?_ ?_
        · rintro n s ⟨rfl, rest⟩
          refine ⟨rfl, fun fits => ?_⟩
          have sum := section_ (by omega)
          have := rest (by omega)
          omega
        · rintro _ s ⟨rfl, less⟩
          refine ⟨rfl, cur, rfl, ?_⟩
          by_cases fits : segmentFileHeaderLen ≤ s.segSizeMax.toNat
          · have := section_ fits
            omega
          · omega
      · rintro _ s ⟨rfl, less⟩
        exact ⟨rfl, cur, rfl, by omega⟩

theorem writeAll_same (env : WriteEnv) (id : SegId) (bytes : Bytes) (s : WriteState) :
    Meets (writeAll env id bytes) s (fun _ t => t.toLogWrite = s.toLogWrite) (fun _ _ => False) := by
  simp only [writeAll, meets_bind, fileName]
  refine tick_spec.imp ?_ (by simp)
  rintro t _ ⟨rfl, rfl⟩
  simp only [meets_get, meets_pure, meets_ite, emit, meets_bind, meets_modify]
  exact ⟨fun _ => trivial, fun _ => trivial⟩

theorem flushFile_same (env : WriteEnv) (id : SegId) :
    Preserves (fun s t => t.toLogWrite = s.toLogWrite) (flushFile env id) := by
  intro s
  simp only [flushFile, meets_bind]
  refine tick_spec.imp ?_ (by simp)
  rintro t _ ⟨rfl, rfl⟩
  simp only [meets_ite, meets_fail, emit, meets_modify]
  exact ⟨fun _ => trivial, fun _ => trivial⟩

theorem send_same (env : WriteEnv) (id : SegId) :
    Preserves (fun s t => t.toLogWrite = s.toLogWrite) (send env id) := by
  intro s
  simp only [send, meets_bind, fileName]
  refine tick_spec.imp ?_ (by simp)
  rintro t _ ⟨rfl, rfl⟩
  simp only [meets_get, meets_pure, meets_ite, meets_fail, emit, meets_modify]
  exact ⟨fun _ => trivial, fun _ => trivial⟩

/-- A file that is closed is not the current one any more, even if it cannot be
handed over. -/
theorem closeAndSend_closes (env : WriteEnv) (s : WriteState) :
    Meets (closeAndSend env) s (fun _ t => t.current = none) (fun _ t => t.current = none) := by
  rw [closeAndSend, meets_bind, meets_get]
  cases closed : s.current with
  | none => exact closed
  | some cur =>
      have both : Preserves (fun s t : WriteState => t.toLogWrite = s.toLogWrite) (do
          flushFile env cur.id
          send env cur.id) :=
        .bind (flushFile_same env _) (fun _ => send_same env _)
          (fun first second => second.trans first) fun first second => second.trans first
      rw [meets_bind, meets_modify]
      exact (both { s with current := none }).imp (fun _ _ same => congrArg LogWrite.current same)
        fun _ _ same => congrArg LogWrite.current same

theorem preserves_attempt {R : WriteState → WriteState → Prop} {α : Type} {x : WriteM α}
    (preserves : Preserves R x) : Preserves R (attempt x) := by
  intro s
  rw [meets_attempt]
  refine (preserves s).imp (fun _ _ step => step) fun stop _ step => ?_
  cases stop <;> exact step

theorem preserves_liftExcept {R : WriteState → WriteState → Prop} (refl : ∀ s, R s s) {α : Type}
    (x : Except LogError α) : Preserves R (liftExcept x) := by
  cases x with
  | ok a => exact .pure refl a
  | error e => exact .throw refl _

theorem preserves_forM {R : WriteState → WriteState → Prop} (refl : ∀ s, R s s)
    (trans : ∀ {s t u}, R s t → R t u → R s u) {action : SegId → WriteM Unit}
    (step : ∀ id, Preserves R (action id)) (ids : List SegId) : Preserves R (ids.forM action) := by
  induction ids with
  | nil => exact .pure refl _
  | cons id ids ih => exact .bind (step id) (fun _ => ih) trans trans

theorem ending_meets {α : Type} {x : WriteM α} {s : WriteState} {post : WriteState → Prop}
    (meets : Meets x s (fun _ t => post t) (fun _ t => post t)) : post (Trail.ending x s).2 := by
  cases ran : x.run s with
  | ok a t =>
      rw [Trail.ending_of_ok ran]
      exact meets.of_ok ran
  | error stop t =>
      rw [Trail.ending_of_error ran]
      exact meets.of_error ran

section FollowsStores

variable {env : WriteEnv} {R : WriteState → WriteState → Prop} (follows : FollowsStores env R)

include follows

theorem FollowsStores.modify {f : WriteState → WriteState}
    (book : ∀ s, f s = { s with
      sequence := (f s).sequence, recordBytesLeft := (f s).recordBytesLeft }) :
    Preserves R (modify f : WriteM PUnit) := by
  apply Leads.modify
  intro s
  rw [book s]
  exact follows.book s _ _

theorem FollowsStores.closeAndSend : Preserves R (Tcslog.closeAndSend env) := by
  apply Leads.bind_get
  intro s
  cases s.current with
  | none => exact follows.refl s
  | some cur =>
      have handOver : Preserves R (do Tcslog.flushFile env cur.id; Tcslog.send env cur.id) :=
        .bind (follows.flushFile _) (fun _ => follows.send _) follows.trans follows.trans
      exact (handOver { s with current := none }).imp
        (fun _ _ step => follows.trans (follows.close s) step)
        fun _ _ step => follows.trans (follows.close s) step

/-- The file after one that was closed. -/
theorem reopen_follows {s : WriteState} (closed : s.current = none) : Meets (do
      modify fun s : WriteState => { s with sequence := SeqId.next s.sequence }
      Tcslog.createSegment env false) s (fun _ t => R s t) (fun _ t => R s t) := by
  rw [meets_bind, meets_modify]
  refine (follows.createSegment (s := { s with sequence := SeqId.next s.sequence }) closed
    (SeqId.next_ne_zero _)).imp ?_ ?_
  · exact fun _ _ step => follows.trans (follows.book s _ s.recordBytesLeft) step
  · exact fun _ _ step => follows.trans (follows.book s _ s.recordBytesLeft) step

theorem FollowsStores.roll : Preserves R (Tcslog.roll env) := by
  intro s
  rw [Tcslog.roll, meets_bind]
  refine ((follows.closeAndSend s).and (closeAndSend_closes env s)).imp ?_ fun _ _ both => both.1
  rintro _ t ⟨step, closed⟩
  exact (reopen_follows follows closed).imp (fun _ _ step' => follows.trans step step')
    fun _ _ step' => follows.trans step step'

theorem FollowsStores.abandonAfterError : Preserves R (Tcslog.abandonAfterError env) := by
  apply Leads.bind (follows.modify fun _ => rfl) (fun _ => ?_) follows.trans follows.trans
  intro s
  have closes : Meets (attempt (Tcslog.closeAndSend env)) s (fun _ t => t.current = none)
      (fun _ _ => True) := by
    rw [meets_attempt]
    refine (closeAndSend_closes env s).imp (fun _ _ closed => closed) fun stop _ closed => ?_
    cases stop with
    | error e => exact closed
    | panic => trivial
    | stuck => trivial
  rw [meets_bind]
  refine ((preserves_attempt follows.closeAndSend s).and closes).imp ?_ fun _ _ both => both.1
  rintro _ t ⟨step, closed⟩
  exact (reopen_follows follows closed).imp (fun _ _ step' => follows.trans step step')
    fun _ _ step' => follows.trans step step'

theorem FollowsStores.room : Preserves R (Tcslog.room env) :=
  fun s => (room_left env s).imp (fun _ _ left => left.1 ▸ follows.refl s)
    fun _ _ failed => failed.1 ▸ follows.refl s

theorem FollowsStores.rollIfFull : Preserves R (Tcslog.rollIfFull env) := by
  apply Leads.bind follows.room (fun _ => ?_) follows.trans follows.trans
  exact .ite follows.roll (.pure follows.refl _)

theorem FollowsStores.writeChunk (data : Bytes) : Preserves R (Tcslog.writeChunk env data) := by
  apply Leads.bind follows.rollIfFull (fun _ => ?_) follows.trans follows.trans
  intro s
  rw [meets_bind]
  refine (room_left env s).imp ?_ fun _ _ failed => failed.1 ▸ follows.refl s
  rintro n s ⟨rfl, left⟩
  rw [meets_bind, meets_get]
  cases current : s.current with
  | none => exact follows.refl s
  | some cur =>
      simp only [current] at left
      rw [meets_bind]
      refine ((follows.writeAll current _).and (writeAll_same ..)).imp (fun done t step => ?_)
        fun _ _ step => step.1
      obtain ⟨step, same⟩ := step
      cases done with
      | true =>
          have stillOpen : t.current = some cur := by rw [same, current]
          refine follows.trans step (follows.trans (follows.wrote stillOpen _ fun fits => ?_)
            (follows.book _ _ _))
          rw [same] at fits ⊢
          have := left fits
          omega
      | false =>
          simp only [Bool.false_eq_true, if_false, meets_bind, meets_fail]
          exact (follows.abandonAfterError t).imp (fun _ _ later => follows.trans step later)
            fun _ _ later => follows.trans step later

theorem FollowsStores.writeBytes (data : Bytes) : Preserves R (Tcslog.writeBytes env data) := by
  induction left : data.length using Nat.strong_induction_on generalizing data with
  | _ left ih =>
      rw [Tcslog.writeBytes]
      split
      · exact .pure follows.refl _
      next more =>
        apply Leads.bind (follows.writeChunk data) (fun take => ?_) follows.trans follows.trans
        split
        · exact .throw follows.refl _
        next progress =>
          have := List.length_pos_of_ne_nil more
          exact ih _ (by rw [List.length_drop]; omega) _ rfl

end FollowsStores

section FollowsWrites

variable {env : WriteEnv} {R : WriteState → WriteState → Prop} (follows : FollowsWrites env R)

include follows

theorem FollowsWrites.startSession {s : WriteState} (closed : s.current = none) :
    Meets (Tcslog.startSession env) s (fun _ t => R s t) (fun _ t => R s t) := by
  have begun : R s { s with recordCount := 0, sequence := 0, recordBytesLeft := 0 } :=
    follows.trans (follows.note s 0 s.lastMeta) (follows.book _ 0 0)
  rw [Tcslog.startSession, meets_bind, meets_modify]
  refine (follows.openSegment (s := { s with
    recordCount := 0, sequence := 0, recordBytesLeft := 0 }) closed).imp ?_ ?_
  · exact fun _ _ step => follows.trans begun step
  · exact fun _ _ step => follows.trans begun step

theorem FollowsWrites.buildDataHeader (len : Nat) : Preserves R (Tcslog.buildDataHeader env len) := by
  apply Leads.ite (.throw follows.refl _)
  apply Leads.bind_get
  intro s
  cases s.format with
  | fixed n => exact follows.refl s
  | variableSimple => exact follows.refl s
  | variableTsRc =>
      refine Leads.bind follows.now (fun _ => ?_) follows.trans follows.trans s
      refine Leads.bind (.modify fun s => follows.note s _ s.lastMeta) (fun _ => ?_) follows.trans
        follows.trans
      exact .bind_get fun s => follows.refl s

theorem FollowsWrites.ensureSession : Preserves R (Tcslog.ensureSession env) := by
  intro s
  rw [Tcslog.ensureSession, meets_bind, meets_get, meets_ite]
  refine ⟨follows.startSession, fun _ => ?_⟩
  rw [meets_ite]
  refine ⟨fun _ => ?_, fun _ => follows.refl s⟩
  rw [meets_bind]
  refine ((follows.closeAndSend s).and (closeAndSend_closes env s)).imp ?_ fun _ _ both => both.1
  rintro _ t ⟨step, closed⟩
  exact (follows.startSession closed).imp (fun _ _ step' => follows.trans step step')
    fun _ _ step' => follows.trans step step'

theorem FollowsWrites.storeRecord (msg : Bytes) : Preserves R (Tcslog.storeRecord env msg) := by
  have append (total : Nat) : Preserves R (Tcslog.appendRecord env msg total) := by
    apply Leads.bind follows.rollIfFull (fun _ => ?_) follows.trans follows.trans
    apply Leads.bind (follows.buildDataHeader _) (fun built => ?_) follows.trans follows.trans
    apply Leads.bind (follows.modify fun _ => rfl) (fun _ => ?_) follows.trans follows.trans
    apply Leads.bind (follows.writeBytes _) (fun _ => ?_) follows.trans follows.trans
    apply Leads.bind (follows.writeBytes _) (fun _ => ?_) follows.trans follows.trans
    exact .modify fun s => follows.note s s.recordCount _
  apply Leads.bind_get
  intro s
  have store (total : Nat) : Preserves R (do
      Tcslog.ensureSession env
      Tcslog.appendRecord env msg total
      return total) := by
    apply Leads.bind follows.ensureSession (fun _ => ?_) follows.trans follows.trans
    exact .bind (append total) (fun _ => .pure follows.refl _) follows.trans follows.trans
  exact Leads.ite (.throw follows.refl _)
    (.ite (.throw follows.refl _) (.ite (.throw follows.refl _) (store _))) s

theorem FollowsWrites.noticeComplete : Preserves R (Tcslog.noticeComplete env) := by
  apply Leads.bind_get
  intro s
  cases s.current with
  | none => exact follows.refl s
  | some cur => exact follows.recordComplete cur.id s

theorem FollowsWrites.write (msg : Bytes) : Preserves R (Tcslog.write env msg) := by
  apply Leads.bind (follows.storeRecord msg) (fun _ => ?_) follows.trans follows.trans
  exact .bind follows.noticeComplete (fun _ => .pure follows.refl _) follows.trans follows.trans

theorem FollowsWrites.flush : Preserves R (Tcslog.flush env) := by
  apply Leads.bind_get
  intro s
  cases s.current with
  | none => exact follows.refl s
  | some cur => exact follows.flushFile cur.id s

theorem FollowsWrites.drop : Preserves R (LogWrite.drop env) := by
  apply Leads.bind_get
  intro s
  cases s.current with
  | none => exact follows.refl s
  | some cur =>
      have handOver : Preserves R (if cur.dataWritten = 0 then pure () else do
          let _ ← attempt (Tcslog.flushFile env cur.id)
          let _ ← attempt (Tcslog.send env cur.id)) := by
        apply Leads.ite (.pure follows.refl _)
        apply Leads.bind (preserves_attempt (follows.flushFile _)) (fun _ => ?_) follows.trans
          follows.trans
        exact .bind (preserves_attempt (follows.send _)) (fun _ => .pure follows.refl _) follows.trans
          follows.trans
      exact (handOver { s with current := none }).imp
        (fun _ _ step => follows.trans (follows.close s) step)
        fun _ _ step => follows.trans (follows.close s) step

/-- Every call but `clear` keeps the relation. -/
theorem FollowsWrites.call (trail : Trail) {c : Call} (keeps : c ≠ .clear) :
    R trail.state (trail.call env c).state := by
  cases c with
  | write msg => exact ending_meets (follows.write msg _)
  | flush => exact ending_meets (follows.flush _)
  | clear => exact absurd rfl keeps

theorem FollowsWrites.calls (trail : Trail) {calls : List Call} (keeps : .clear ∉ calls) :
    R trail.state (calls.foldl (Trail.call env) trail).state := by
  induction calls generalizing trail with
  | nil => exact follows.refl _
  | cons c calls ih =>
      rw [List.mem_cons, not_or] at keeps
      exact follows.trans (follows.call trail (Ne.symm keeps.1)) (ih _ keeps.2)

end FollowsWrites

section FollowsAll

variable {env : WriteEnv} {R : WriteState → WriteState → Prop} (follows : FollowsAll env R)

include follows

theorem FollowsAll.startSession : Preserves R (Tcslog.startSession env) := by
  refine Leads.bind (.modify fun s => ?_) (fun _ => follows.openSegment) follows.trans follows.trans
  exact follows.trans (follows.note s 0 s.lastMeta) (follows.book _ 0 0)

theorem FollowsAll.clear : Preserves R (Tcslog.clear env) := by
  have each : Preserves R (forEachSegmentFile env (Tcslog.removeFile env)) := by
    apply Leads.bind follows.scan (fun ids => ?_) follows.trans follows.trans
    exact .bind (preserves_forM follows.refl follows.trans follows.removeFile ids)
      (fun _ => .pure follows.refl _) follows.trans follows.trans
  refine Leads.bind (.modify fun s => ?_) (fun _ => ?_) follows.trans follows.trans
  · exact follows.trans (follows.close s) (follows.book _ s.sequence 0)
  exact .bind each (fun _ => .pure follows.refl _) follows.trans follows.trans

/-- Every call of an open writer keeps the relation. -/
theorem FollowsAll.call (trail : Trail) (c : Call) : R trail.state (trail.call env c).state := by
  cases c with
  | write msg => exact follows.toWrites.call trail (by simp)
  | flush => exact follows.toWrites.call trail (by simp)
  | clear => exact ending_meets (follows.clear _)

theorem FollowsAll.calls (trail : Trail) (calls : List Call) :
    R trail.state (calls.foldl (Trail.call env) trail).state := by
  induction calls generalizing trail with
  | nil => exact follows.refl _
  | cons c calls ih => exact follows.trans (follows.call trail c) (ih _)

end FollowsAll

/-! ## Opening a writer -/

/-- A writer just opened, before it has created a file. -/
def LogWrite.fresh (env : WriteEnv) (args : NewArgs) (clock : Clock) : LogWrite where
  namePrefix := args.namePrefix
  nameSuffix := args.nameSuffix
  segSizeMax := args.segSizeMax
  format := args.format
  timerResolution := env.timerResolutionNs
  clock := clock
  current := none
  sessionId := 0
  sequence := 0
  recordCount := 0
  recordBytesLeft := 0
  lastMeta :=
    match args.format with
    | .fixed _ => .fixed
    | .variableSimple => .variableSimple
    | .variableTsRc => .variableTsRc 0 0

/-- What `new` does before it creates a file. -/
def LogWrite.prepare (env : WriteEnv) (args : NewArgs) : WriteM Unit := do
  if env.timerResolutionNs = 0 then fail .timerResolutionZero
  else if args.segSizeMax.toNat ≤ segmentFileHeaderLen + args.format.dataHeaderLen then
    fail .segSizeTooSmall
  else if args.format = .fixed 0 then fail .fixedLenMismatch
  else
    let clock ← Clock.new env args.sinceEpoch
    liftExcept (checkLogLocation env.isDir args.namePrefix args.nameSuffix)
    modify fun s => { s with toLogWrite := .fresh env args clock }
    match ← forEachSegmentFile env (send env) with
    | some highest => advancePast env highest
    | none => pure ()

theorem LogWrite.new_eq (env : WriteEnv) (args : NewArgs) :
    LogWrite.new env args = LogWrite.prepare env args >>= fun _ => startSession env := by
  unfold LogWrite.new LogWrite.prepare
  split
  · rfl
  split
  · rfl
  split
  · rfl
  simp only [bind_assoc]
  refine bind_congr fun clock => bind_congr fun _ => ?_
  refine congrArg₂ _ rfl (funext fun _ => bind_congr fun highest => ?_)
  cases highest with
  | some highest => rfl
  | none => simp

/-- A relation kept by the requests `new` makes before it creates a file, and by
what it sets of the writer. -/
theorem prepare_preserves {env : WriteEnv} {R : WriteState → WriteState → Prop} (refl : ∀ s, R s s)
    (trans : ∀ {s t u}, R s t → R t u → R s u) (request : Preserves R tick)
    (reading : Preserves R (now env)) (sending : ∀ id, Preserves R (send env id))
    (scanning : Preserves R (scan env))
    (args : NewArgs)
    (opens : ∀ (s : WriteState) clock, R s { s with toLogWrite := .fresh env args clock })
    (clocks : ∀ (s : WriteState) clock, R s { s with clock := clock }) :
    Preserves R (LogWrite.prepare env args) := by
  have clockNew : Preserves R (Clock.new env args.sinceEpoch) := by
    cases args.sinceEpoch with
    | none => exact .throw refl _
    | some ns => exact .bind request (fun _ => preserves_liftExcept refl _) trans trans
  have each : Preserves R (forEachSegmentFile env (send env)) := by
    apply Leads.bind scanning (fun ids => ?_) trans trans
    exact .bind (preserves_forM refl trans sending ids) (fun _ => .pure refl _) trans trans
  have past (id : SegId) : Preserves R (advancePast env id) := by
    apply Leads.bind (preserves_liftExcept refl _) (fun _ => ?_) trans trans
    apply Leads.bind reading (fun _ => ?_) trans trans
    apply Leads.ite ?_ (.pure refl _)
    apply Leads.bind_get
    intro s
    refine Leads.bind (preserves_liftExcept refl _) (fun _ => ?_) trans trans s
    exact .modify fun t => clocks t _
  apply Leads.ite (.throw refl _)
  apply Leads.ite (.throw refl _)
  apply Leads.ite (.throw refl _)
  apply Leads.bind clockNew (fun clock => ?_) trans trans
  apply Leads.bind (preserves_liftExcept refl _) (fun _ => ?_) trans trans
  refine Leads.bind ?_ (fun _ => ?_) trans trans
  · exact .modify fun s => opens s clock
  apply Leads.bind each (fun highest => ?_) trans trans
  cases highest with
  | some highest => exact past highest
  | none => exact .pure refl _

end Tcslog
