import Tcslog.Write.Runs

/-!
# What a writer answers

Some errors refuse what a call was given.  They come before anything is done: a
writer whose call or opening ended in one is as it was, and so is the log.  A call
that returned is noted as what it was asked to do.
-/

namespace Tcslog

open Lib.Program

/-! ## Refusals -/

/-- Errors that refuse the arguments of a writer's opening or of a call. -/
def LogError.Refuses (e : LogError) : Prop :=
  e = .timerResolutionZero ∨ e = .segSizeTooSmall ∨ e = .fixedLenMismatch ∨ e = .payloadTooLarge

instance (e : LogError) : Decidable e.Refuses :=
  inferInstanceAs (Decidable (_ ∨ _))

section Operations

variable {env : WriteEnv} {α : Type} {e : LogError} {x : WriteM α}

theorem LogError.Refuses.ne {e' : LogError} (refuses : e.Refuses) (other : ¬ e'.Refuses) :
    Stop.error e' ≠ .error e :=
  fun same => other (Stop.error.inj same ▸ refuses)

theorem avoids_fail {e' : LogError} (refuses : e.Refuses) (other : ¬ e'.Refuses) :
    Avoids (.error e) (fail e' : WriteM α) :=
  .throw (refuses.ne other)

theorem avoids_attempt (avoids : Avoids (.error e) x) : Avoids (.error e) (attempt x) := by
  intro s
  rw [meets_attempt]
  refine (avoids s).imp (fun _ _ _ => trivial) fun stop _ other => ?_
  cases stop with
  | error _ => trivial
  | panic => exact other
  | stuck => exact other

/-- A request counts itself and looks at the state. -/
theorem avoids_tick {f : Nat → WriteM α} (rest : ∀ t, Avoids (.error e) (f t)) :
    Avoids (.error e) (tick >>= f) :=
  .bind (.bind_get fun _ => .bind (.set _) fun _ => .pure _) rest

theorem avoids_fileName {id : SegId} {f : Bytes → WriteM α} (rest : ∀ name, Avoids (.error e) (f name)) :
    Avoids (.error e) (fileName id >>= f) :=
  .bind (.bind_get fun _ => .pure _) rest

theorem avoids_emit (event : WriteEvent) (change : Dir → Dir) : Avoids (.error e) (emit event change) :=
  .modify _

theorem avoids_liftExcept {result : Except LogError α} (avoids : result ≠ .error e) :
    Avoids (.error e) (liftExcept result : WriteM α) := by
  cases result with
  | ok a => exact .pure a
  | error e' => exact .throw fun same => avoids (congrArg Except.error (Stop.error.inj same))

variable (env)

theorem avoids_writeAll (id : SegId) (bytes : Bytes) : Avoids (.error e) (writeAll env id bytes) :=
  avoids_tick fun _ => avoids_fileName fun _ => .ite
    (.bind (avoids_emit _ _) fun _ => .pure _) (.bind (avoids_emit _ _) fun _ => .pure _)

theorem avoids_room : Avoids (.error e) (room env) := by
  have avoids_subU32 (a b : Nat) : Avoids (.error e) (subU32 env.overflowChecks a b : WriteM Nat) :=
    .ite (.pure _) (.ite (.throw (by simp)) (.pure _))
  refine .bind_get fun s => ?_
  cases s.current with
  | none => exact .pure _
  | some current => exact .bind (avoids_subU32 _ _) fun _ => avoids_subU32 _ _

variable (refuses : e.Refuses)
include refuses

theorem avoids_stamp (ns : Nat) : Avoids (.error e) (liftExcept (stamp ns) : WriteM Nat) := by
  refine avoids_liftExcept ?_
  rw [stamp]
  split
  · simp
  · exact fun same => absurd refuses (Except.error.inj same ▸ by decide)

theorem avoids_now : Avoids (.error e) (now env) :=
  avoids_tick fun _ => .bind_get fun _ => .ite (avoids_fail refuses (by decide)) (avoids_stamp refuses _)

theorem avoids_advancePast (id : SegId) : Avoids (.error e) (advancePast env id) :=
  .bind (avoids_stamp refuses _) fun _ => .bind (avoids_now env refuses) fun _ => .ite
    (.bind_get fun _ => .bind (avoids_stamp refuses _) fun _ => .modify _) (.pure _)

theorem avoids_createUniqueFile (attempts : Nat) (collidedBefore : Bool) :
    Avoids (.error e) (createUniqueFile env attempts collidedBefore) := by
  induction attempts generalizing collidedBefore with
  | zero => exact .throw (by simp)
  | succ attempts ih =>
      have creates (id : SegId) : Avoids (.error e) (createNew env id) :=
        avoids_tick fun _ => avoids_fileName fun _ => .ite (.pure _)
          (.bind_get fun _ => .ite (.pure _) (.bind (avoids_emit _ _) fun _ => .pure _))
      have notes : Avoids (.error e) (noteCollision collidedBefore) :=
        .bind_get fun _ => .ite (.bind (.set _) fun _ => .bind (avoids_emit _ _) fun _ => avoids_emit _ _)
          (avoids_emit _ _)
      refine .bind (.bind (avoids_now env refuses) fun _ => .pure _) fun id =>
        .bind (creates id) fun creation => ?_
      cases creation with
      | made => exact .pure id
      | alreadyExists => exact .bind notes fun _ => ih true
      | refused => exact avoids_fail refuses (by decide)

theorem avoids_createSegment (opensSession : Bool) : Avoids (.error e) (createSegment env opensSession) :=
  .bind (avoids_createUniqueFile env refuses _ _) fun _ => .bind (.modify _) fun _ => .bind_get fun _ =>
    .bind (avoids_writeAll env _ _) fun _ => .ite (.modify _) (avoids_fail refuses (by decide))

theorem avoids_startSession : Avoids (.error e) (startSession env) :=
  .bind (.modify _) fun _ => avoids_createSegment env refuses true

theorem avoids_send (id : SegId) : Avoids (.error e) (send env id) :=
  avoids_tick fun _ => avoids_fileName fun _ => .ite (avoids_fail refuses (by decide)) (avoids_emit _ _)

theorem avoids_flushFile (id : SegId) : Avoids (.error e) (flushFile env id) :=
  avoids_tick fun _ => .ite (avoids_fail refuses (by decide)) (avoids_emit _ _)

theorem avoids_closeAndSend : Avoids (.error e) (closeAndSend env) := by
  refine .bind_get fun s => ?_
  cases s.current with
  | none => exact .pure _
  | some current =>
      exact .bind (.modify _) fun _ => .bind (avoids_flushFile env refuses _) fun _ => avoids_send env refuses _

theorem avoids_roll : Avoids (.error e) (roll env) :=
  .bind (avoids_closeAndSend env refuses) fun _ => .bind (.modify _) fun _ =>
    avoids_createSegment env refuses false

theorem avoids_abandonAfterError : Avoids (.error e) (abandonAfterError env) :=
  .bind (.modify _) fun _ => .bind (avoids_attempt (avoids_closeAndSend env refuses)) fun _ =>
    .bind (.modify _) fun _ => avoids_createSegment env refuses false

theorem avoids_rollIfFull : Avoids (.error e) (rollIfFull env) :=
  .bind (avoids_room env) fun _ => .ite (avoids_roll env refuses) (.pure _)

theorem avoids_writeChunk (data : Bytes) : Avoids (.error e) (writeChunk env data) := by
  refine .bind (avoids_rollIfFull env refuses) fun _ => .bind (avoids_room env) fun _ => .bind_get fun s => ?_
  cases s.current with
  | none => exact avoids_fail refuses (by decide)
  | some current =>
      exact .bind (avoids_writeAll env _ _) fun _ => .ite (.bind (.modify _) fun _ => .pure _)
        (.bind (avoids_abandonAfterError env refuses) fun _ => avoids_fail refuses (by decide))

theorem avoids_writeBytes (data : Bytes) : Avoids (.error e) (writeBytes env data) := by
  induction size : data.length using Nat.strong_induction_on generalizing data with
  | _ size ih =>
      rw [writeBytes]
      split
      · exact .pure _
      · next more =>
          refine .bind (avoids_writeChunk env refuses _) fun take => ?_
          split
          · exact .throw (by simp)
          · next progress =>
              have length := List.length_pos_of_ne_nil more
              exact ih _ (by omega) (data.drop take) List.length_drop

theorem avoids_ensureSession : Avoids (.error e) (ensureSession env) :=
  .bind_get fun _ => .ite (avoids_startSession env refuses) (.ite
    (.bind (avoids_closeAndSend env refuses) fun _ => avoids_startSession env refuses) (.pure _))

/-- The data header of a payload that is not too large is not refused. -/
theorem avoids_buildDataHeader {payloadLen : Nat} (fits : payloadLen ≤ u32Max) :
    Avoids (.error e) (buildDataHeader env payloadLen) := by
  rw [buildDataHeader, if_neg (Nat.not_lt_of_le fits)]
  refine .bind_get fun s => ?_
  cases s.format with
  | fixed n => exact .pure _
  | variableSimple => exact .pure _
  | variableTsRc =>
      exact .bind (avoids_now env refuses) fun _ => .bind (.modify _) fun _ => .bind_get fun _ => .pure _

theorem avoids_appendRecord {msg : Bytes} (fits : msg.length ≤ u32Max) (total : Nat) :
    Avoids (.error e) (appendRecord env msg total) :=
  .bind (avoids_rollIfFull env refuses) fun _ => .bind (avoids_buildDataHeader env refuses fits) fun _ =>
    .bind (.modify _) fun _ => .bind (avoids_writeBytes env refuses _) fun _ =>
      .bind (avoids_writeBytes env refuses _) fun _ => .modify _

theorem avoids_noticeComplete : Avoids (.error e) (noticeComplete env) := by
  refine .bind_get fun s => ?_
  cases s.current with
  | none => exact .pure _
  | some current =>
      exact avoids_tick fun _ => .ite (avoids_fail refuses (by decide)) (avoids_emit _ _)

theorem avoids_flush : Avoids (.error e) (flush env) := by
  refine .bind_get fun s => ?_
  cases s.current with
  | none => exact .pure _
  | some current => exact avoids_flushFile env refuses _

theorem avoids_forEachSegmentFile {action : SegId → WriteM Unit} (each : ∀ id, Avoids (.error e) (action id)) :
    Avoids (.error e) (forEachSegmentFile env action) := by
  have all (ids : List SegId) : Avoids (.error e) (ids.forM action) := by
    induction ids with
    | nil => exact .pure _
    | cons id ids ih => exact .bind (each id) fun _ => ih
  exact .bind (avoids_tick fun _ => .bind_get fun _ => .ite (avoids_fail refuses (by decide)) (.pure _))
    fun ids => .bind (all ids) fun _ => .pure _

theorem avoids_clear : Avoids (.error e) (clear env) :=
  .bind (.modify _) fun _ => .bind (avoids_forEachSegmentFile env refuses fun _ =>
    avoids_tick fun _ => avoids_fileName fun _ => .bind_get fun _ =>
      .ite (avoids_fail refuses (by decide)) (avoids_emit _ _)) fun _ => .pure _

theorem avoids_clockNew (sinceEpoch : Option Nat) : Avoids (.error e) (Clock.new env sinceEpoch) := by
  cases sinceEpoch with
  | none => exact avoids_fail refuses (by decide)
  | some ns =>
      refine avoids_tick fun t => avoids_liftExcept fun same => ?_
      have raised : e = .timestampOverflow ∨ e = .clockError := by
        simp only [Clock.anchor, stamp] at same
        split at same
        · simp only [bind, Except.bind] at same
          split at same
          · exact .inr (Except.error.inj same).symm
          · simp [pure, Except.pure] at same
        · exact .inl (Except.error.inj same).symm
      rcases raised with rfl | rfl
      · exact absurd refuses (by decide)
      · exact absurd refuses (by decide)

theorem avoids_location {isDir : Bool} {namePrefix nameSuffix : Bytes} :
    Avoids (.error e) (liftExcept (checkLogLocation isDir namePrefix nameSuffix) : WriteM Unit) := by
  refine avoids_liftExcept fun same => ?_
  have raised : e = .pathDelimiterNotAllowed ∨ e = .nameTooLong ∨ e = .invalidPathname := by
    rw [checkLogLocation] at same
    split at same
    · exact .inl (Except.error.inj same).symm
    · split at same
      · exact .inr (.inl (Except.error.inj same).symm)
      · split at same
        · contradiction
        · exact .inr (.inr (Except.error.inj same).symm)
  rcases raised with rfl | rfl | rfl
  · exact absurd refuses (by decide)
  · exact absurd refuses (by decide)
  · exact absurd refuses (by decide)

end Operations

/-! ## Nothing is done -/

section Refused

variable {env : WriteEnv} {s t : WriteState} {e : LogError} {msg : Bytes} {args : NewArgs}

/-- A record that is refused leaves the writer and the log as they were. -/
theorem write_refused (refuses : e.Refuses) (ran : (write env msg).run s = .error (.error e) t) : t = s := by
  have spec : Meets (write env msg) s (fun _ _ => True) (fun stop t => stop = .error e → t = s) := by
    have aside {stop : Stop} {t : WriteState} (other : stop ≠ .error e) : stop = .error e → t = s :=
      fun same => absurd same other
    simp only [write, storeRecord, meets_bind, meets_get, meets_ite, meets_fail, meets_pure]
    refine ⟨fun _ _ => trivial, fun _ => ⟨fun _ _ => trivial, fun fits => ⟨fun _ _ => trivial, fun _ => ?_⟩⟩⟩
    refine (avoids_ensureSession env refuses s).imp (fun _ u _ => ?_) fun _ _ => aside
    refine (avoids_appendRecord env refuses (Nat.le_of_not_lt fits) _ u).imp (fun _ v _ => ?_) fun _ _ => aside
    exact (avoids_noticeComplete env refuses v).imp (fun _ _ _ => trivial) fun _ _ => aside
  exact spec.of_error ran rfl

/-- An opening that is refused has not looked at the directory. -/
theorem new_refused (refuses : e.Refuses) (ran : (LogWrite.new env args).run s = .error (.error e) t) :
    t = s := by
  have spec : Meets (LogWrite.new env args) s (fun _ _ => True) (fun stop t => stop = .error e → t = s) := by
    have aside {stop : Stop} {t : WriteState} (other : stop ≠ .error e) : stop = .error e → t = s :=
      fun same => absurd same other
    simp only [LogWrite.new, meets_ite, meets_fail]
    refine ⟨fun _ _ => trivial, fun _ => ⟨fun _ _ => trivial, fun _ => ⟨fun _ _ => trivial, fun _ => ?_⟩⟩⟩
    refine Meets.imp (?_ : Meets _ s (fun _ _ => True) fun stop _ => stop ≠ .error e) (fun _ _ _ => trivial)
      fun _ _ => aside
    refine Avoids.bind (avoids_clockNew env refuses _) (fun clock => .bind (avoids_location refuses) fun _ =>
      .bind (.modify _) fun _ => .bind (avoids_forEachSegmentFile env refuses (avoids_send env refuses))
        fun highest => ?_) s
    cases highest with
    | none => exact avoids_startSession env refuses
    | some highest => exact .bind (avoids_advancePast env refuses highest) fun _ => avoids_startSession env refuses
  exact spec.of_error ran rfl

end Refused

/-! ## Calls that return -/

/-- The payloads that are kept once a call has returned. -/
def Call.keep (kept : List Bytes) : Call → List Bytes
  | .write msg => kept ++ [msg]
  | .flush => kept
  | .clear => []

namespace Trail

variable {env : WriteEnv} {trail : Trail} {msg : Bytes} {t : WriteState}

theorem run_of_ending {α : Type} {s : WriteState} {x : WriteM α} {a : α} (ends : (ending x s).1 = .ok a) :
    x.run s = .ok a (ending x s).2 := by
  cases ran : x.run s with
  | ok b t =>
      rw [ending_of_ok ran] at ends ⊢
      rw [Except.ok.inj ends]
  | error stop t =>
      rw [ending_of_error ran] at ends
      contradiction

/-- The payloads of the records that were noted. -/
def payloads (trail : Trail) : List Bytes :=
  trail.journal.records.map Record.payload

/-- A call returned, in this state of the writer. -/
structure Returns (trail : Trail) (c : Call) (t : WriteState) (last : Trail) : Prop where
  state : last.state = t
  deeds : last.deeds = trail.deeds ++ [.called c none]
  payloads : last.payloads = c.keep trail.payloads

/-- A call of `write` that returned. -/
theorem call_write_of_returned {total : Nat} (ran : (write env msg).run trail.state = .ok total t) :
    trail.call env (.write msg) = ⟨t, trail.deeds ++ [.called (.write msg) none],
      trail.journal.record t ⟨msg, t.lastMeta⟩ total⟩ := by
  cases stored : (storeRecord env msg).run trail.state with
  | error stop u =>
      rw [write_of_failed stored] at ran
      contradiction
  | ok total' u =>
      simp only [call, ending_of_ok ran, ending_of_ok stored]
      rfl

theorem returns_write {total : Nat} (ran : (write env msg).run trail.state = .ok total t) :
    trail.Returns (.write msg) t (trail.call env (.write msg)) := by
  rw [call_write_of_returned ran]
  refine ⟨rfl, rfl, ?_⟩
  rw [payloads, Journal.records_record, List.map_append]
  rfl

theorem returns_flush (ran : (flush env).run trail.state = .ok () t) :
    trail.Returns .flush t (trail.call env .flush) := by
  have called : trail.call env .flush =
      { trail with state := t, deeds := trail.deeds ++ [.called .flush none] } := by
    simp only [call, ending_of_ok ran]
    rfl
  rw [called]
  exact ⟨rfl, rfl, rfl⟩

theorem returns_clear (ran : (clear env).run trail.state = .ok () t) :
    trail.Returns .clear t (trail.call env .clear) := by
  have called : trail.call env .clear = ⟨t, trail.deeds ++ [.called .clear none], ⟨[], []⟩⟩ := by
    simp only [call, ending_of_ok ran]
    rfl
  rw [called]
  exact ⟨rfl, rfl, rfl⟩

end Trail

end Tcslog
