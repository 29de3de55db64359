import Tcslog.Read.Crossing
import Tcslog.Read.Still

/-!
# The end of the log

Nothing that goes wrong within a record is reported as the end of the log: a
call reports that only when no file is left.
-/

namespace Tcslog

open Lib.Program

/-- The end of the log. -/
abbrev atEnd : Stop :=
  .error .eof

/-- An error that nothing reports but a call that finds no file, or no room for a
record. -/
def LogError.Foreign (e : LogError) : Prop :=
  e = .eof ∨ ∃ n, e = .readOverflow n

section Avoids

variable {e : LogError}

theorem attempt_avoids {α : Type} {x : ReadM α} (avoids : Avoids (.error e) x) :
    ∀ s, Meets (attempt x) s (fun outcome _ => outcome ≠ .error e) (fun stop _ => stop ≠ .error e) := by
  intro s
  rw [meets_attempt]
  refine (avoids s).imp (fun _ _ _ => by simp) fun stop _ other => ?_
  cases stop with
  | error e' => simpa using other
  | panic => exact other
  | stuck => exact other

theorem orLosePosition_avoids {α : Type} {x : ReadM α} (avoids : Avoids (.error e) x) :
    Avoids (.error e) (orLosePosition x) := by
  intro s
  rw [meets_orLosePosition]
  refine (avoids s).imp (fun _ _ _ => trivial) fun stop _ other => ?_
  cases stop <;> exact other

theorem repeatPass_avoids {pass : Nat → ReadM Nat}
    {progress : ∀ {len}, 0 < len → ∀ s, Meets (pass len) s
      (fun n s' => s'.pending.length + (len - n) < s.pending.length + len) (fun _ _ => True)}
    (avoids : ∀ len, Avoids (.error e) (pass len)) (len : Nat) :
    Avoids (.error e) (repeatPass pass progress len) :=
  fun s => (meets_repeatPass (fun _ _ => True) (fun _ _ => avoids _ _) (s := s) trivial)

variable (env : ReadEnv)

theorem perform_avoids (request : ReadRequest) (id : SegId) : Avoids (.error e) (perform env request id) :=
  .bind_get fun _ => .bind (.set _) fun _ => .pure _

theorem subU64_avoids (checks : Bool) (a b : Nat) : Avoids (.error e) (subU64 checks a b : ReadM Nat) :=
  .ite (.pure _) (.ite (.throw (by simp)) (.pure _))

theorem addU64_avoids (checks : Bool) (a b : Nat) : Avoids (.error e) (addU64 checks a b : ReadM Nat) :=
  .ite (.pure _) (.ite (.throw (by simp)) (.pure _))

variable (foreign : e.Foreign)

include foreign

theorem fail_avoids {α : Type} {e' : LogError} (native : ¬ e'.Foreign) :
    Avoids (.error e) (fail e' : ReadM α) := by
  refine .throw fun same => native ?_
  rw [Stop.error.inj same]
  exact foreign

theorem readExact_avoids (segment : Segment) (n : Nat) : Avoids (.error e) (readExact env segment n) := by
  refine .ite (.pure _) (.bind (perform_avoids env _ _) fun content => ?_)
  cases content with
  | none => exact fail_avoids foreign (by simp [LogError.Foreign])
  | some content => exact .ite (fail_avoids foreign (by simp [LogError.Foreign])) (.pure _)

theorem seekForward_avoids (segment : Segment) (n : Nat) : Avoids (.error e) (seekForward env segment n) := by
  refine .bind (perform_avoids env _ _) fun content => ?_
  cases content with
  | none => exact fail_avoids foreign (by simp [LogError.Foreign])
  | some _ => exact .pure _

omit foreign in
theorem openValidated_avoids (id : SegId) : Avoids (.error e) (openValidated env id) := by
  refine .bind (perform_avoids env _ _) fun opened => ?_
  cases opened with
  | none => exact .pure _
  | some _ =>
  refine .bind (perform_avoids env _ _) fun measured => ?_
  cases measured with
  | none => exact .pure _
  | some measured =>
  refine .ite (.pure _) (.bind (perform_avoids env _ _) fun content => ?_)
  cases content with
  | none => exact .pure _
  | some content =>
      dsimp only
      split
      · exact .pure _
      · exact .ite (.pure _) (.ite (.pure _) (.pure _))

theorem openNextOf_avoids (ids : List SegId) : Avoids (.error e) (openNextOf env ids) := by
  induction ids with
  | nil => exact .bind (.modify _) fun _ => .pure _
  | cons id rest ih =>
      refine .bind (.modify _) fun _ => .bind (openValidated_avoids env id) fun found => ?_
      cases found with
      | none => exact ih
      | some segment =>
          exact .bind_get fun s => .ite (.bind (.set _) fun _ => fail_avoids foreign (by simp [LogError.Foreign]))
            (.bind (.set _) fun _ => .pure _)

theorem rejectCurrent_avoids (lost n : Nat) : Avoids (.error e) (rejectCurrent lost n) := by
  refine .bind_get fun s => ?_
  cases s.current with
  | none => exact fail_avoids foreign (by simp [LogError.Foreign])
  | some segment => exact .bind (.set _) fun _ => fail_avoids foreign (by simp [LogError.Foreign])

omit foreign in
theorem checkRemaining_avoids (header : SegmentHeader) : Avoids (.error e) (checkRemaining env header) := by
  refine .bind_get fun s => .ite (.pure _) ?_
  cases s.cursor.total with
  | none => exact .ite (.pure _) (.bind (.set _) fun _ => .pure _)
  | some total => exact .bind (subU64_avoids _ _ _) fun _ => .pure _

omit foreign in
theorem checkSequence_avoids (prevSeq : Option SeqId) (sequence : SeqId) :
    Avoids (.error e) (checkSequence env prevSeq sequence) := by
  cases prevSeq with
  | none => exact .pure _
  | some prev =>
      exact .bind (addU64_avoids _ _ _) fun _ => .ite (.pure _)
        (.ite (.bind (subU64_avoids _ _ _) fun _ => .bind (subU64_avoids _ _ _) fun _ => .pure _)
          (.pure _))

omit foreign in
theorem noteRecovery_avoids (id : SegId) : Avoids (.error e) (noteRecovery env id) := by
  refine .bind_get fun s => ?_
  cases s.cursor.total with
  | none => exact .pure _
  | some total => exact .bind (subU64_avoids _ _ _) fun _ => .set _

theorem checkCrossing_avoids (prevShort : Bool) (prevSeq : Option SeqId) (segment : Segment) :
    Avoids (.error e) (checkCrossing env prevShort prevSeq segment) := by
  have rejects (lost : Nat) : Avoids (.error e) (do rejectCurrent lost (← get).cursor.payloadInBuf) :=
    .bind_get fun s => rejectCurrent_avoids foreign _ _
  refine .bind (checkRemaining_avoids env _) fun denied => ?_
  refine .bind (checkSequence_avoids env _ _) fun sequence => ?_
  exact .ite (.ite (.bind (noteRecovery_avoids env _) fun _ => rejects _) (rejects _)) (.pure _)

theorem cross_avoids : Avoids (.error e) (cross env) := by
  refine .bind_get fun s => .bind (.set _) fun _ => ?_
  intro t
  rw [meets_bind]
  refine (attempt_avoids (.bind_get fun _ => openNextOf_avoids env foreign _) t).imp ?_ fun _ _ other => other
  intro outcome u other
  cases outcome with
  | error e' =>
      have other' : Stop.error e' ≠ .error e := by simpa using other
      exact Avoids.ite (.bind (.modify _) fun _ => fail_avoids foreign (by simp [LogError.Foreign]))
        (.throw other') u
  | ok opened =>
      cases opened with
      | false => exact fail_avoids foreign (by simp [LogError.Foreign]) u
      | true =>
          refine Avoids.bind_get (fun v => ?_) u
          cases v.current with
          | none => exact fail_avoids foreign (by simp [LogError.Foreign])
          | some segment => exact checkCrossing_avoids env foreign _ _ _

theorem crossIfExhausted_avoids : Avoids (.error e) (crossIfExhausted env) :=
  .bind_get fun _ => .ite (cross_avoids env foreign) (.pure _)

theorem fillChunk_avoids (len : Nat) : Avoids (.error e) (fillChunk env len) := by
  refine .bind (crossIfExhausted_avoids env foreign) fun _ => .bind_get fun s => ?_
  cases s.current with
  | none => exact .bind_get fun _ => fail_avoids foreign (by simp [LogError.Foreign])
  | some segment =>
      exact .bind (readExact_avoids env foreign _ _) fun _ => .bind (.modify _) fun _ => .pure _

theorem skipChunk_avoids (count : Nat) : Avoids (.error e) (skipChunk env count) := by
  refine .bind (crossIfExhausted_avoids env foreign) fun _ => .bind_get fun s => ?_
  cases s.current with
  | none => exact .bind_get fun _ => fail_avoids foreign (by simp [LogError.Foreign])
  | some segment =>
      exact .bind (seekForward_avoids env foreign _ _) fun _ => .bind (.modify _) fun _ => .pure _

theorem fillBuf_avoids (len : Nat) : Avoids (.error e) (fillBuf env len) :=
  .bind (.modify _) fun _ => .bind (repeatPass_avoids (fillChunk_avoids env foreign) len) fun _ =>
    .bind_get fun _ => .pure _

theorem readDataHeader_avoids (format : Format) (minor : Nat) :
    Avoids (.error e) (readDataHeader env format minor) := by
  have settles (decoded : Nat) : Avoids (.error e) (settlePayloadLen decoded) :=
    .bind_get fun _ => .ite (.bind (rejectCurrent_avoids foreign 0 0) fun _ => .pure _) (.pure _)
  cases format with
  | fixed n => exact .bind (.modify _) fun _ => .pure _
  | variableSimple =>
      exact .bind (fillBuf_avoids env foreign _) fun _ => .bind (settles _) fun _ =>
        .bind (.modify _) fun _ => .pure _
  | variableTsRc =>
      exact .bind (fillBuf_avoids env foreign _) fun _ => .bind (settles _) fun _ =>
        .bind (.modify _) fun _ => .pure _

theorem header_avoids (start : Start) (segment : Segment) : Avoids (.error e) (header env start segment) := by
  cases start with
  | recovered n => exact .bind (.modify _) fun _ => .pure _
  | fresh => exact orLosePosition_avoids (readDataHeader_avoids env foreign _ _)

omit foreign in
theorem payload_avoids (cap want : Nat) (metadata : Meta) : Avoids atEnd (payload env cap want metadata) := by
  refine .bind (.modify _) fun _ => .bind (orLosePosition_avoids (fillBuf_avoids env (.inl rfl) _)) fun _ => ?_
  refine .ite (fun s => ?_) (.pure _)
  rw [meets_bind]
  refine (attempt_avoids (repeatPass_avoids (skipChunk_avoids env (.inl rfl)) _) s).imp ?_ fun _ _ other => other
  intro outcome t _
  cases outcome with
  | ok _ => exact Avoids.throw (by simp) t
  | error _ => exact Avoids.bind (.modify _) (fun _ => .throw (by simp)) t

end Avoids

/-! ## Records that do not fit -/

section Overflows

variable (env : ReadEnv)

theorem examineNext_avoids (n : Nat) : Avoids (.error (.readOverflow n)) (examineNext env) := by
  have foreign : (LogError.readOverflow n).Foreign := .inr ⟨n, rfl⟩
  have ended {α : Type} : Avoids (.error (.readOverflow n)) (fail .eof : ReadM α) := .throw (by simp)
  refine .bind_get fun _ => .bind (.modify _) fun _ => ?_
  refine .bind (.bind_get fun _ => openNextOf_avoids env foreign _) fun _ => .ite ?_ ended
  refine .bind_get fun t => ?_
  cases t.current with
  | none => exact ended
  | some segment =>
      dsimp only
      split
      · exact .pure _
      · refine .ite (.bind (.modify _) fun _ => .pure _) ?_
        exact .bind (seekForward_avoids env foreign _ _) fun _ => .bind (.modify _) fun _ => .pure _

theorem locate_avoids (n : Nat) : Avoids (.error (.readOverflow n)) (locate env) := by
  have finds : Avoids (.error (.readOverflow n)) (findRecordStart env) := fun s =>
    meets_findRecordStart _ (fun _ => True)
      (fun _ => (examineNext_avoids env n _).imp (fun _ _ _ => ⟨fun _ _ => trivial, fun _ => trivial⟩)
        fun _ _ other => other) trivial
  refine .bind_get fun _ => .ite (.bind (orLosePosition_avoids finds) fun _ => ?_) (.pure _)
  exact .bind (.modify _) fun _ => .bind_get fun _ => .ite (.bind (.set _) fun _ => .throw (by simp)) (.pure _)

theorem payload_overflows {n cap : Nat} (differs : n ≠ cap) (want : Nat) (metadata : Meta) :
    Avoids (.error (.readOverflow n)) (payload env cap want metadata) := by
  have foreign : (LogError.readOverflow n).Foreign := .inr ⟨n, rfl⟩
  refine .bind (.modify _) fun _ => .bind (orLosePosition_avoids (fillBuf_avoids env foreign _)) fun _ => ?_
  by_cases less : cap < want
  · rw [if_pos less, Nat.min_eq_right (Nat.le_of_lt less)]
    have overflows : Avoids (.error (.readOverflow n)) (fail (.readOverflow cap) : ReadM ReadResult) :=
      .throw (by simpa using differs.symm)
    intro s
    rw [meets_bind]
    refine (attempt_avoids (repeatPass_avoids (skipChunk_avoids env foreign) _) s).imp ?_
      fun _ _ other => other
    intro outcome t _
    cases outcome with
    | ok _ => exact overflows t
    | error _ => exact Avoids.bind (.modify _) (fun _ => overflows) t
  · rw [if_neg less]
    exact .pure _

/-- A record that does not fit fills the buffer. -/
theorem read_overflows {n cap : Nat} (differs : n ≠ cap) :
    Avoids (.error (.readOverflow n)) (read env cap) := by
  refine .bind_get fun _ => .ite (.bind (.set _) fun _ => .throw (by simp)) ?_
  refine .bind (.set _) fun _ => .bind (locate_avoids env n) fun start => .bind_get fun t => ?_
  cases t.current with
  | none => exact orLosePosition_avoids (.throw (by simp))
  | some segment =>
      exact .bind (header_avoids env (.inr ⟨n, rfl⟩) _ _) fun _ => payload_overflows env differs _ _

end Overflows

section Still

variable {dir : Dir} {overflowChecks : Bool}

/-- A failure that reports the end of the log, if it does, with no file left. -/
def Finishes (stop : Stop) (s : ReadState) : Prop :=
  stop = atEnd → s.pending = []

theorem ends_of_avoids {α : Type} {x : ReadM α} (avoids : Avoids atEnd x) (s : ReadState) :
    Meets x s (fun _ _ => True) (fun stop s' => Finishes stop s') :=
  (avoids s).imp (fun _ _ _ => trivial) fun _ _ other same => absurd same other

theorem examineNext_ends (s : ReadState) :
    Meets (examineNext (.still dir noFault overflowChecks)) s
      (fun start s' => start.isSome → s'.current.isSome) (fun stop s' => Finishes stop s') := by
  simp only [examineNext, meets_bind, meets_get, meets_modify, meets_ite]
  refine (openNext_still _).imp ?_ ?_
  · intro found t opening
    constructor
    · rintro rfl
      cases opening with
      | @opened _ segment rest first continues result =>
          have current : t.current = some segment := by
            rw [result]
            exact LogRead.adopt_current _ _
          simp only [current]
          split
          · intro _
            simp [current]
          · simp only [meets_ite, meets_bind, meets_modify, meets_pure]
            refine ⟨fun _ impossible => by simp at impossible, fun _ => ?_⟩
            have moves := (seekForward_avoids (.still dir noFault overflowChecks) (.inl rfl) segment
              segment.header.remaining.toNat) t
            exact moves.imp (fun _ _ _ _ => rfl) fun _ _ other same => absurd same other
    · intro notOpen
      obtain rfl : found = false := by simpa using notOpen
      cases opening with
      | ended none result => exact fun _ => by rw [result]
  · rintro stop t ⟨e, rfl, opening⟩
    cases opening with
    | boundary first session differs result => exact fun same => absurd same (by simp)

theorem findRecordStart_ends (s : ReadState) :
    Meets (findRecordStart (.still dir noFault overflowChecks)) s
      (fun _ s' => s'.current.isSome) (fun stop s' => Finishes stop s') := by
  refine meets_findRecordStart _ (fun _ => True) (fun {t} _ => ?_) trivial
  refine (examineNext_ends t).imp (fun found u located => ⟨?_, fun _ => trivial⟩) fun _ _ ends => ends
  rintro start rfl
  exact located rfl

theorem locate_ends {s : ReadState} (open_ : s.resync = false → s.current.isSome) :
    Meets (locate (.still dir noFault overflowChecks)) s (fun _ s' => s'.current.isSome)
      (fun stop s' => Finishes stop s') := by
  simp only [locate, meets_bind, meets_get, meets_ite, meets_pure]
  refine ⟨fun _ => ?_, fun synced => open_ (by simpa using synced)⟩
  rw [meets_orLosePosition]
  refine (findRecordStart_ends s).imp ?_ ?_
  · intro start t located
    simp only [meets_modify, meets_set, meets_fail]
    exact ⟨fun _ same => absurd same (by simp), fun _ => located⟩
  · intro stop t ends
    cases stop <;> exact ends

/-- The end of the log is reported with no file left. -/
theorem read_ends (cap : Nat) (s : ReadState) :
    Meets (read (.still dir noFault overflowChecks) cap) s (fun _ _ => True)
      (fun stop s' => Finishes stop s') := by
  simp only [read, meets_bind, meets_get, meets_ite, meets_set, meets_fail]
  refine ⟨fun finished _ => finished.1, fun _ => ?_⟩
  refine (locate_ends ?_).imp ?_ fun _ _ ends => ends
  · intro synced
    simp only [Bool.or_eq_false_iff] at synced
    simpa using synced.2
  · intro start t located
    obtain ⟨segment, current⟩ := Option.isSome_iff_exists.mp located
    simp only [current, meets_bind]
    refine (header_avoids _ (.inl rfl) start segment t).imp ?_ fun _ _ other same => absurd same other
    exact fun decoded u _ => ends_of_avoids (payload_avoids _ _ _ _) u

theorem pending_of_eof {cap : Nat} {s : ReadState}
    (eof : (readCall (.still dir noFault overflowChecks) cap s).1 = .failed .eof []) :
    (readCall (.still dir noFault overflowChecks) cap s).2.pending = [] := by
  have spec : Meets (read (.still dir noFault overflowChecks) cap) s (fun _ _ => True)
      (fun stop s' => Finishes stop s') := read_ends cap s
  cases ran : (read (.still dir noFault overflowChecks) cap).run s with
  | ok result t =>
      simp only [readCall, ran] at eof
      contradiction
  | error stop t =>
      have ends := spec.of_error ran
      cases stop with
      | error e =>
          simp only [readCall, ran, Outcome.failed.injEq] at eof ⊢
          exact ends (by rw [eof.1])
      | panic =>
          simp only [readCall, ran] at eof
          contradiction
      | stuck =>
          simp only [readCall, ran] at eof
          contradiction

end Still

end Tcslog
