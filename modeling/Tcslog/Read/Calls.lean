import Tcslog.Read.Reader

/-!
# The calls of a reader

The loops over segment files, the decoding of data headers and `read` itself.
Every pass of a loop either uses up a listed file or moves within the open one,
so the loops end whatever the directory holds and whichever requests fail.
-/

namespace Tcslog

open Lib.Program

/-! ## What the requests leave alone -/

/-- Nothing changed but the trace of requests, which grew. -/
structure OnlyAsked (s s' : ReadState) : Prop where
  same : s' = { s with ops := s'.ops }
  asked : s.ops <+: s'.ops

namespace OnlyAsked

theorem refl (s : ReadState) : OnlyAsked s s :=
  ⟨rfl, List.prefix_rfl⟩

theorem trans {s t u : ReadState} (first : OnlyAsked s t) (second : OnlyAsked t u) :
    OnlyAsked s u := by
  refine ⟨?_, first.asked.trans second.asked⟩
  rw [second.same, first.same]

theorem toLogRead_eq {s s' : ReadState} (asked : OnlyAsked s s') : s'.toLogRead = s.toLogRead := by
  rw [asked.same]

end OnlyAsked

/-- The reader's own fields are unchanged. -/
def SameLog (s s' : ReadState) : Prop :=
  s'.toLogRead = s.toLogRead

theorem SameLog.refl (s : ReadState) : SameLog s s :=
  rfl

theorem SameLog.trans {s t u : ReadState} (first : SameLog s t) (second : SameLog t u) :
    SameLog s u :=
  Eq.trans second first

section Frames

variable (env : ReadEnv)

theorem perform_onlyAsked (request : ReadRequest) (id : SegId) :
    Preserves OnlyAsked (perform env request id) := by
  intro s
  simp only [perform, meets_bind, meets_get, meets_set, meets_pure]
  exact ⟨rfl, List.prefix_append _ _⟩

theorem readExact_onlyAsked (segment : Segment) (n : Nat) :
    Preserves OnlyAsked (readExact env segment n) := by
  refine .ite (.pure .refl _) (.bind (perform_onlyAsked env _ _) (fun content => ?_) .trans .trans)
  cases content with
  | none => exact .throw .refl _
  | some content => exact .ite (.throw .refl _) (.pure .refl _)

theorem seekForward_onlyAsked (segment : Segment) (n : Nat) :
    Preserves OnlyAsked (seekForward env segment n) := by
  refine .bind (perform_onlyAsked env _ _) (fun content => ?_) .trans .trans
  cases content with
  | none => exact .throw .refl _
  | some _ => exact .pure .refl _

theorem openValidated_onlyAsked (id : SegId) : Preserves OnlyAsked (openValidated env id) := by
  refine .bind (perform_onlyAsked env _ _) (fun opened => ?_) .trans .trans
  cases opened with
  | none => exact .pure .refl _
  | some _ =>
  refine .bind (perform_onlyAsked env _ _) (fun measured => ?_) .trans .trans
  cases measured with
  | none => exact .pure .refl _
  | some measured =>
  refine .ite (.pure .refl _)
    (.bind (perform_onlyAsked env _ _) (fun content => ?_) .trans .trans)
  cases content with
  | none => exact .pure .refl _
  | some content =>
      dsimp only
      split
      · exact .pure .refl _
      · exact .ite (.pure .refl _) (.ite (.pure .refl _) (.pure .refl _))

@[simp]
theorem LogRead.adopt_pending (log : LogRead) (segment : Segment) :
    (log.adopt segment).pending = log.pending := by
  simp only [LogRead.adopt]
  split <;> split <;> rfl

theorem openNextOf_pending (ids : List SegId) (s : ReadState) :
    Meets (openNextOf env ids) s
      (fun opened s' => opened → s'.pending.length < ids.length) (fun _ _ => True) := by
  induction ids generalizing s with
  | nil => simp [openNextOf]
  | cons id rest ih =>
      simp only [openNextOf, meets_bind, meets_modify]
      refine (openValidated_onlyAsked env id _).imp (fun found t asked => ?_) fun _ _ _ => trivial
      cases found with
      | none =>
          refine (ih t).imp (fun opened u shorter isOpen => ?_) fun _ _ _ => trivial
          exact (shorter isOpen).trans (Nat.lt_succ_self _)
      | some segment =>
          simp only [meets_bind, meets_get, meets_ite, meets_set, meets_fail, meets_pure]
          simp [asked.toLogRead_eq]

theorem openNext_pending (s : ReadState) :
    Meets (openNext env) s
      (fun opened s' => opened → s'.pending.length < s.pending.length) (fun _ _ => True) := by
  simp only [openNext, meets_bind, meets_get]
  exact openNextOf_pending env _ s

theorem subU64_sameLog (checks : Bool) (a b : Nat) : Preserves SameLog (subU64 checks a b) := by
  unfold subU64
  exact .ite (.pure .refl _) (.ite (.throw .refl _) (.pure .refl _))

theorem addU64_sameLog (checks : Bool) (a b : Nat) : Preserves SameLog (addU64 checks a b) := by
  unfold addU64
  exact .ite (.pure .refl _) (.ite (.throw .refl _) (.pure .refl _))

theorem checkRemaining_sameLog (header : SegmentHeader) :
    Preserves SameLog (checkRemaining env header) := by
  refine .bind_get fun s => ?_
  refine meets_ite.mpr ⟨fun _ => SameLog.refl s, fun _ => ?_⟩
  cases s.cursor.total with
  | none => exact meets_ite.mpr ⟨fun _ => SameLog.refl s, fun _ => SameLog.refl s⟩
  | some total =>
      exact Leads.bind (subU64_sameLog _ _ _) (fun _ => .pure .refl _) .trans .trans s

theorem checkSequence_sameLog (prevSeq : Option SeqId) (sequence : SeqId) :
    Preserves SameLog (checkSequence env prevSeq sequence) := by
  cases prevSeq with
  | none => exact .pure .refl _
  | some prev =>
      refine .bind (addU64_sameLog _ _ _) (fun expected => ?_) .trans .trans
      refine .ite (.pure .refl _) (.ite ?_ (.pure .refl _))
      refine .bind (subU64_sameLog _ _ _) (fun ahead => ?_) .trans .trans
      exact .bind (subU64_sameLog _ _ _) (fun lost => .pure .refl _) .trans .trans

/-- Handing back the current file ends in an error. -/
theorem rejectCurrent_fails (lost n : Nat) (s : ReadState) :
    Meets (rejectCurrent lost n) s (fun _ _ => False) (fun _ _ => True) := by
  simp only [rejectCurrent, meets_bind, meets_get]
  cases s.current <;> simp

theorem checkCrossing_sameLog (prevShort : Bool) (prevSeq : Option SeqId) (segment : Segment) :
    Returns SameLog (checkCrossing env prevShort prevSeq segment) := by
  have rejects (R : ReadState → ReadState → Prop) (lost : Nat) :
      Returns R (do rejectCurrent lost (← get).cursor.payloadInBuf) := by
    refine .bind_get fun s => ?_
    exact (rejectCurrent_fails _ _ s).imp (fun _ _ impossible => impossible.elim) fun _ _ _ => trivial
  have weaken {α : Type} {x : ReadM α} (preserves : Preserves SameLog x) : Returns SameLog x :=
    fun s => (preserves s).imp (fun _ _ same => same) fun _ _ _ => trivial
  have ignore {s t u : ReadState} : SameLog s t → True → True := fun _ _ => trivial
  refine .bind (weaken (checkRemaining_sameLog env _)) (fun denied => ?_) .trans (by simp)
  refine .bind (weaken (checkSequence_sameLog env _ _)) (fun sequence => ?_) .trans (by simp)
  refine .ite (.ite (fun s => ?_) (rejects _ _)) (.pure .refl _)
  refine meets_bind.mpr (meets_true.imp (fun _ t _ => ?_) fun _ _ _ => trivial)
  exact (rejects (fun _ _ => False) sequence.2 t).imp (fun _ _ impossible => impossible.elim)
    fun _ _ _ => trivial

/-- A crossing that succeeds used up a listed file. -/
theorem cross_pending (s : ReadState) :
    Meets (cross env) s (fun _ s' => s'.pending.length < s.pending.length) (fun _ _ => True) := by
  simp only [cross, meets_bind, meets_get, meets_set, meets_attempt]
  refine (openNext_pending env _).imp (fun opened t shorter => ?_) fun stop t _ => ?_
  · cases opened with
    | false => simp
    | true =>
        simp only [meets_bind, meets_get]
        cases t.current with
        | none => simp
        | some segment =>
            refine (checkCrossing_sameLog env _ _ segment t).imp (fun _ u same => ?_)
              fun _ _ _ => trivial
            rw [show u.pending = t.pending from congrArg LogRead.pending same]
            exact shorter rfl
  · cases stop with
    | error e => simp [meets_ite]
    | panic => trivial
    | stuck => trivial

theorem crossIfExhausted_pending (s : ReadState) :
    Meets (crossIfExhausted env) s
      (fun _ s' => s'.pending.length < s.pending.length ∨ s' = s ∧ s.exhausted = false)
      (fun _ _ => True) := by
  simp only [crossIfExhausted, meets_bind, meets_get, meets_ite]
  refine ⟨fun _ => (cross_pending env s).imp (fun _ _ shorter => .inl shorter) fun _ _ _ => trivial,
    fun more => ?_⟩
  simpa using more

theorem fillChunk_decreases {len : Nat} (more : 0 < len) (s : ReadState) :
    Meets (fillChunk env len) s
      (fun take s' => s'.pending.length + (len - take) < s.pending.length + len)
      (fun _ _ => True) := by
  simp only [fillChunk, meets_bind]
  refine (crossIfExhausted_pending env s).imp (fun _ t crossed => ?_) fun _ _ _ => trivial
  simp only [meets_get]
  cases isOpen : t.current with
  | none => simp
  | some segment =>
      simp only [meets_bind, meets_modify, meets_pure]
      refine (readExact_onlyAsked env segment _ t).imp (fun bytes u asked => ?_)
        fun _ _ _ => trivial
      rw [show u.pending = t.pending from congrArg LogRead.pending asked.toLogRead_eq]
      rcases crossed with shorter | ⟨rfl, notExhausted⟩
      · omega
      · simp [LogRead.exhausted, isOpen] at notExhausted
        omega

theorem skipChunk_decreases {count : Nat} (more : 0 < count) (s : ReadState) :
    Meets (skipChunk env count) s
      (fun step s' => s'.pending.length + (count - step) < s.pending.length + count)
      (fun _ _ => True) := by
  simp only [skipChunk, meets_bind]
  refine (crossIfExhausted_pending env s).imp (fun _ t crossed => ?_) fun _ _ _ => trivial
  simp only [meets_get]
  cases isOpen : t.current with
  | none => simp
  | some segment =>
      simp only [meets_bind, meets_modify, meets_pure]
      refine (seekForward_onlyAsked env segment _ t).imp (fun moved u asked => ?_)
        fun _ _ _ => trivial
      rw [show u.pending = t.pending from congrArg LogRead.pending asked.toLogRead_eq]
      rcases crossed with shorter | ⟨rfl, notExhausted⟩
      · omega
      · simp [LogRead.exhausted, isOpen] at notExhausted
        omega

end Frames

/-! ## Loops over the segment files of a record -/

section Loops

variable (env : ReadEnv)

/-- Repeat a pass until `len` bytes are dealt with.  Every pass deals with some
of them or uses up a listed file. -/
def repeatPass (pass : Nat → ReadM Nat)
    (progress : ∀ {len}, 0 < len → ∀ s, Meets (pass len) s
      (fun n s' => s'.pending.length + (len - n) < s.pending.length + len) (fun _ _ => True))
    (len : Nat) : ReadM Unit := fun s =>
  if more : 0 < len then
    match ran : (pass len).run s with
    | .ok n s' => repeatPass pass progress (len - n) s'
    | .error stop s' => .error stop s'
  else .ok () s
termination_by s => s.pending.length + len
decreasing_by exact (progress more _).of_ok ran

/-- Read exactly `len` further bytes of the record in progress, crossing into
further segment files as needed. -/
def fill (len : Nat) : ReadM Unit :=
  repeatPass (fillChunk env) (fillChunk_decreases env) len

/-- Advance past `count` bytes of the record in progress, crossing into further
segment files as needed. -/
def skip (count : Nat) : ReadM Unit :=
  repeatPass (skipChunk env) (skipChunk_decreases env) count

section RepeatPass

variable {pass : Nat → ReadM Nat}
  {progress : ∀ {len}, 0 < len → ∀ s, Meets (pass len) s
    (fun n s' => s'.pending.length + (len - n) < s.pending.length + len) (fun _ _ => True)}

theorem run_repeatPass (len : Nat) (s : ReadState) :
    (repeatPass pass progress len).run s =
      if 0 < len then
        match (pass len).run s with
        | .ok n s' => (repeatPass pass progress (len - n)).run s'
        | .error stop s' => .error stop s'
      else .ok () s := by
  rw [EStateM.run, repeatPass]
  split
  · split
    next n s' ran => rw [ran]; rfl
    next stop s' ran => rw [ran]
  · rfl

theorem repeatPass_eq (len : Nat) :
    repeatPass pass progress len =
      if 0 < len then pass len >>= fun n => repeatPass pass progress (len - n) else pure () := by
  funext s
  have unrolled : (repeatPass pass progress len).run s = _ := run_repeatPass len s
  split at unrolled
  next more =>
    rw [if_pos more]
    change (repeatPass pass progress len).run s = (pass len >>= _).run s
    rw [EStateM.run_bind, unrolled]
    cases (pass len).run s <;> rfl
  next done =>
    rw [if_neg done]
    exact unrolled

/-- What every pass preserves holds when nothing is left to deal with. -/
theorem meets_repeatPass (holds : Nat → ReadState → Prop) {failed : Stop → ReadState → Prop}
    (step : ∀ {len s}, 0 < len → holds len s →
      Meets (pass len) s (fun n s' => holds (len - n) s') failed)
    {len : Nat} {s : ReadState} (initial : holds len s) :
    Meets (repeatPass pass progress len) s (fun _ s' => holds 0 s') failed := by
  induction size : s.pending.length + len using Nat.strong_induction_on generalizing len s with
  | _ size ih =>
      rw [Meets, run_repeatPass]
      by_cases more : 0 < len
      · rw [if_pos more]
        have passed := (step more initial).and (progress more s)
        cases ran : (pass len).run s with
        | ok n s' =>
            obtain ⟨next, less⟩ := passed.of_ok ran
            exact ih _ (size ▸ less) next rfl
        | error stop s' => exact (passed.of_error ran).1
      · rw [if_neg more]
        obtain rfl : len = 0 := by omega
        exact initial

/-- Two loops whose passes keep in step. -/
theorem couples_repeatPass {pass' : Nat → ReadM Nat}
    {progress' : ∀ {len}, 0 < len → ∀ s, Meets (pass' len) s
      (fun n s' => s'.pending.length + (len - n) < s.pending.length + len) (fun _ _ => True)}
    (related : Nat → ReadState → ReadState → Prop) {failed : Stop → Stop → ReadState → ReadState → Prop}
    (step : ∀ {len s t}, 0 < len → related len s t → Couples (pass len) (pass' len) s t
      (fun n n' s' t' => n = n' ∧ related (len - n) s' t') failed)
    {len : Nat} {s t : ReadState} (initial : related len s t) :
    Couples (repeatPass pass progress len) (repeatPass pass' progress' len) s t
      (fun _ _ s' t' => related 0 s' t') failed := by
  induction size : s.pending.length + len using Nat.strong_induction_on generalizing len s t with
  | _ size ih =>
      by_cases more : 0 < len
      · rcases (step more initial).cases with
          ⟨n, s', _, t', left, right, rfl, next⟩ | ⟨stop, s', stop', t', left, right, ended⟩
        · have less := (progress more s).of_ok left
          refine (couples_of_run ?_ ?_).mpr (ih _ (size ▸ less) next rfl)
          · rw [run_repeatPass, if_pos more, left]
          · rw [run_repeatPass, if_pos more, right]
        · have left' : (repeatPass pass progress len).run s = .error stop s' := by
            rw [run_repeatPass, if_pos more, left]
          have right' : (repeatPass pass' progress' len).run t = .error stop' t' := by
            rw [run_repeatPass, if_pos more, right]
          exact (couples_of_error left' right').mpr ended
      · obtain rfl : len = 0 := by omega
        refine (couples_of_ok (a := ()) (b := ()) ?_ ?_).mpr initial
        · rw [run_repeatPass, if_neg more]
        · rw [run_repeatPass, if_neg more]

end RepeatPass

/-- One pass of the loop of `findRecordStart`: open a file and see whether it
offers a record boundary. -/
def examineNext : ReadM (Option Start) := do
  -- The hint is good for one attempt.
  let recovery := (← get).recovery
  modify fun s => { s with recovery := none }
  if ← openNext env then
    match (← get).current with
    | none => fail .eof
    | some segment =>
        let header := segment.header
        let remaining := header.remaining.toNat
        match recovery.bind fun known =>
            recoveredPayloadLen known segment.id header.format remaining header.dataLen with
        | some n => pure (some (.recovered n))
        | none =>
            if segment.dataLen ≤ remaining then
              -- Every byte here is the tail of a record whose opening is gone.
              modify fun s => { s with current := none }
              pure none
            else
              let moved ← seekForward env segment remaining
              modify fun s => { s with current := some { moved with pos := remaining } }
              pure (some .fresh)
  else fail .eof

theorem examineNext_decreases (s : ReadState) :
    Meets (examineNext env) s
      (fun start s' => start = none → s'.pending.length < s.pending.length)
      (fun _ _ => True) := by
  simp only [examineNext, meets_bind, meets_get, meets_modify, meets_ite]
  refine (openNext_pending env _).imp (fun opened t shorter => ⟨fun isOpen => ?_, fun _ => ?_⟩)
    fun _ _ _ => trivial
  · cases current : t.current with
    | none => simp
    | some segment =>
        dsimp only
        split
        · simp
        · simp only [meets_ite, meets_bind, meets_modify, meets_pure]
          refine ⟨fun _ _ => shorter isOpen, fun _ => ?_⟩
          exact meets_true.imp (fun _ _ _ => by simp) fun _ _ _ => trivial
  · simp

/-- Find the first byte of the next fresh record. -/
def findRecordStart : ReadM Start := fun s =>
  match ran : (examineNext env).run s with
  | .ok (some start) s' => .ok start s'
  | .ok none s' => findRecordStart s'
  | .error stop s' => .error stop s'
termination_by s => s.pending.length
decreasing_by exact (examineNext_decreases env _).of_ok ran rfl

theorem run_findRecordStart (env : ReadEnv) (s : ReadState) :
    (findRecordStart env).run s =
      match (examineNext env).run s with
      | .ok (some start) s' => .ok start s'
      | .ok none s' => (findRecordStart env).run s'
      | .error stop s' => .error stop s' := by
  rw [EStateM.run, findRecordStart]
  split
  next start s' ran => rw [ran]
  next s' ran => rw [ran]; rfl
  next stop s' ran => rw [ran]

/-- What holds when a pass finds no record boundary holds before the next. -/
theorem meets_findRecordStart (holds : ReadState → Prop) {post : Start → ReadState → Prop}
    {failed : Stop → ReadState → Prop}
    (step : ∀ {s}, holds s → Meets (examineNext env) s
      (fun found s' => (∀ start, found = some start → post start s') ∧ (found = none → holds s'))
      failed)
    {s : ReadState} (initial : holds s) : Meets (findRecordStart env) s post failed := by
  induction size : s.pending.length using Nat.strong_induction_on generalizing s with
  | _ size ih =>
      have spec := (step initial).and (examineNext_decreases env s)
      rw [Meets, run_findRecordStart]
      cases ran : (examineNext env).run s with
      | error stop t => exact (spec.of_error ran).1
      | ok found t =>
          obtain ⟨⟨foundSpec, next⟩, less⟩ := spec.of_ok ran
          cases found with
          | some start => exact foundSpec start rfl
          | none => exact ih _ (size ▸ less rfl) (next rfl) rfl

/-- Fill a destination of `len` bytes and return it. -/
def fillBuf (len : Nat) : ReadM Bytes := do
  modify fun s => { s with dst := [] }
  fill env len
  return (← get).dst

/-- Check a freshly decoded payload length against the one a crossing inside
the data header implied. -/
def settlePayloadLen (decoded : Nat) : ReadM Nat := do
  let s ← get
  if s.cursor.impliedPayload.any (· ≠ decoded) then
    rejectCurrent 0 0
  return decoded

end Loops

/-! ## Reading one record -/

section Read

variable (env : ReadEnv)

open Lib.LittleEndian

def setTotal (total : Nat) : ReadM Unit :=
  modify fun s => { s with cursor := { s.cursor with total := some total } }

/-- Read and decode one record's data header. -/
def readDataHeader (format : Format) (minor : Nat) : ReadM (Nat × Meta) :=
  match format with
  | .fixed n => do
      setTotal n.toNat
      return (n.toNat, .fixed)
  | .variableSimple => do
      let head ← fillBuf env 4
      let n ← settlePayloadLen (ofLE head)
      setTotal (format.dataHeaderLen + n)
      return (n, .variableSimple)
  | .variableTsRc => do
      let len := format.dataHeaderLenIn minor
      let head ← fillBuf env len
      let n ← settlePayloadLen (ofLE (takeAt head 0 4))
      let ts := UInt64.ofNat (ofLE (takeAt head 4 8))
      -- The count fills the rest of the header: four or six bytes.
      let rc := UInt64.ofNat (ofLE (head.drop 12))
      setTotal (len + n)
      return (n, .variableTsRc ts rc)

/-- The number of buffer bytes an error says are valid. -/
def LogError.placed : LogError → Nat
  | .readOverflow n => n
  | .readTruncated _ n => n
  | _ => 0

/-- Give up the read position, so that the next read resynchronizes. -/
def ReadState.losePosition (s : ReadState) : ReadState :=
  { s with resync := true, current := none }

/-- Give up the read position when a step fails. -/
def orLosePosition {α : Type} (x : ReadM α) : ReadM α := do
  match ← attempt x with
  | .ok a => return a
  | .error e =>
      modify ReadState.losePosition
      fail e

theorem meets_orLosePosition {α : Type} {x : ReadM α} {s : ReadState} {post : α → ReadState → Prop}
    {failed : Stop → ReadState → Prop} :
    Meets (orLosePosition x) s post failed ↔
      Meets x s post fun stop s' =>
        match stop with
        | .error e => failed (.error e) s'.losePosition
        | stop => failed stop s' := by
  rw [orLosePosition, meets_bind, meets_attempt]
  exact Iff.rfl

/-- The part of `read` that finds where the next record starts. -/
def locate : ReadM Start := do
  if (← get).resync then
    let start ← orLosePosition (findRecordStart env)
    modify fun s => { s with resync := false }
    let s ← get
    if 0 < s.sessionStartLost then
      set { s with sessionStartLost := 0 }
      fail (.readTruncated s.sessionStartLost 0)
    else return start
  else return .fresh

/-- The payload length and metadata of the record at the read position. -/
def header (start : Start) (segment : Segment) : ReadM (Nat × Meta) :=
  let format := segment.header.format
  match start with
  | .recovered n => do
      -- The data header's bytes were in the missing file.
      modify fun s => { s with
        cursor := { s.cursor with
          consumed := format.dataHeaderLen, total := some (format.dataHeaderLen + n) } }
      return (n, .variableSimple)
  | .fresh => orLosePosition (readDataHeader env format segment.header.versionMinor)

/-- Transfer the payload to a buffer of `cap` bytes, and discard what does not
fit. -/
def payload (cap want : Nat) (metadata : Meta) : ReadM ReadResult := do
  modify fun s => { s with lastMeta := metadata, cursor := { s.cursor with inPayload := true } }
  let take := min want cap
  let _ ← orLosePosition (fillBuf env take)
  if cap < want then
    match ← attempt (skip env (want - cap)) with
    | .ok _ => fail (.readOverflow take)
    | .error _ =>
        modify ReadState.losePosition
        fail (.readOverflow take)
  else return { n := take, metadata }

/-- Read the next record's payload into a buffer of `cap` bytes. -/
def read (cap : Nat) : ReadM ReadResult := do
  let s ← get
  if s.pending = [] ∧ s.exhausted then
    set { s with current := none }
    fail .eof
  else
    set { s with resync := s.resync || s.current.isNone, cursor := {}, dst := [] }
    let start ← locate env
    match (← get).current with
    | none => orLosePosition (fail .eof)
    | some segment =>
        let (want, metadata) ← header env start segment
        payload env cap want metadata

end Read

/-! ## Runs of calls -/

/-- What one call of `read` gave its caller: the result, with the bytes it
says are in the buffer. -/
inductive Outcome
  | record (payload : Bytes) (metadata : Meta)
  | failed (e : LogError) (bytes : Bytes)
  | panicked
  deriving DecidableEq, Repr

/-- One call of `read` as its caller sees it. -/
def readCall (env : ReadEnv) (cap : Nat) (s : ReadState) : Outcome × ReadState :=
  match (read env cap).run s with
  | .ok result s' => (.record (s'.dst.take result.n) result.metadata, s')
  | .error (.error e) s' => (.failed e (s'.dst.take e.placed), s')
  | .error _ s' => (.panicked, s')

/-- `calls` successive calls, the `i`-th with a buffer of `caps i` bytes. -/
def readCalls (env : ReadEnv) (caps : Nat → Nat) : Nat → ReadState → List Outcome × ReadState
  | 0, s => ([], s)
  | calls + 1, s =>
      let (outcome, s') := readCall env (caps 0) s
      let (outcomes, last) := readCalls env (fun i => caps (i + 1)) calls s'
      (outcome :: outcomes, last)

/-- The calls up to the first that reports the end of the log gave these
outcomes before it. -/
structure ReadsToEof (env : ReadEnv) (caps : Nat → Nat) (s : ReadState) (outcomes : List Outcome)
    (last : ReadState) : Prop where
  run : readCalls env caps (outcomes.length + 1) s = (outcomes ++ [.failed .eof []], last)
  first : .failed .eof [] ∉ outcomes

section ReadsToEof

variable {env : ReadEnv} {caps : Nat → Nat} {s s' last : ReadState} {outcome : Outcome}
  {outcomes : List Outcome}

/-- A call that reports the end of the log ends a run. -/
theorem ReadsToEof.nil (call : readCall env (caps 0) s = (.failed .eof [], s')) :
    ReadsToEof env caps s [] s' := by
  refine ⟨?_, by simp⟩
  simp only [List.length_nil, readCalls, call, List.nil_append]

/-- A run goes on after any other call. -/
theorem ReadsToEof.cons (call : readCall env (caps 0) s = (outcome, s'))
    (notEof : outcome ≠ .failed .eof [])
    (reads : ReadsToEof env (fun n => caps (n + 1)) s' outcomes last) :
    ReadsToEof env caps s (outcome :: outcomes) last := by
  refine ⟨?_, ?_⟩
  · rw [List.length_cons, readCalls]
    simp only [call, reads.run, List.cons_append]
  · rw [List.mem_cons, not_or]
    exact ⟨notEof.symm, reads.first⟩

end ReadsToEof

/-- What a caller is given of a record. -/
def Record.outcome (record : Record) : Outcome :=
  .record record.payload record.metadata

/-- Whether an outcome is a record. -/
def Outcome.isRecord : Outcome → Bool
  | .record .. => true
  | _ => false

/-- A reader of a log in a directory that could be listed. -/
structure LogRead.Begins (log : LogRead) (listed : Dir) (front back : Bytes) : Prop where
  namePrefix : log.namePrefix = front
  nameSuffix : log.nameSuffix = back
  pending : log.pending = scanSegmentIds listed front back
  current : log.current = none
  session : log.session = none
  recovery : log.recovery = none
  startLost : log.sessionStartLost = 0

theorem LogRead.new_spec {isDir : Bool} {listing : Option Dir} {namePrefix nameSuffix : Bytes}
    {log : LogRead} (isNew : LogRead.new isDir listing namePrefix nameSuffix = .ok log) :
    ∃ listed, listing = some listed ∧ log.Begins listed namePrefix nameSuffix := by
  unfold LogRead.new at isNew
  cases checked : checkLogLocation isDir namePrefix nameSuffix with
  | error e => simp [checked, bind, Except.bind] at isNew
  | ok _ =>
      cases listing with
      | none => simp [checked, bind, Except.bind, throw, throwThe, MonadExceptOf.throw] at isNew
      | some listed =>
          simp only [checked, bind, Except.bind] at isNew
          split at isNew
          · simp [throw, throwThe, MonadExceptOf.throw] at isNew
          · obtain rfl := Except.ok.inj isNew
            exact ⟨listed, rfl, rfl, rfl, rfl, rfl, rfl, rfl, rfl⟩

/-- A reader about to make its first call. -/
def LogRead.begin (log : LogRead) : ReadState :=
  { log with cursor := {}, dst := [], ops := [] }

end Tcslog
