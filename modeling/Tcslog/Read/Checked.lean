import Tcslog.Read.Placing

/-!
# The reader with every check made

A debug build checks every addition and subtraction, every slice and every
assertion, and panics where one fails.  This is the reader as such a build runs
it.  Each crossing is noted, as the state from which it begins, so that what a
run did can be told from where it crossed.

Up to the first check that fails every build of the reader does the same.
-/

namespace Tcslog

open Lib.Program Lib.LittleEndian

/-- A reader all of whose checks are made, and the states in which it was about
to cross from one file into the next. -/
structure CheckedState extends ReadState where
  crossings : List ReadState

abbrev CheckedM := EStateM Stop CheckedState

/-- A step that has nothing to check. -/
def unchecked {α : Type} (x : ReadM α) : CheckedM α := fun s =>
  match x.run s.toReadState with
  | .ok a t => .ok a { s with toReadState := t }
  | .error stop t => .error stop { s with toReadState := t }

/-- An assertion, or the bounds check of a slice. -/
def check (holds : Bool) : CheckedM Unit :=
  if holds then pure () else throw .panic

/-- Where a crossing begins that adds one to the largest sequence number: the
next usable file continues the session of a file that has it. -/
def ReadState.Trips (dir : Dir) (s : ReadState) : Prop :=
  ∃ prev segment rest, s.prevSeq = some prev ∧ 2 ^ 64 ≤ prev.toNat + 1 ∧
    firstUsable (s.files dir) s.pending = some (segment, rest) ∧
    ∀ sid, s.session = some sid → segment.header.sessionId = sid

namespace Checked

variable (env : ReadEnv)

/-! ## Opening files and crossing into them -/

def openValidated (id : SegId) : CheckedM (Option Segment) := do
  match ← unchecked (perform env .openFile id) with
  | none => pure none
  | some _ =>
      match ← unchecked (perform env .measure id) with
      | none => pure none
      | some measured =>
          if measured.length < segmentFileHeaderLen then pure none
          else
            match ← unchecked (perform env .readHeader id) with
            | none => pure none
            | some content =>
                match SegmentHeader.fromBytes (content.take segmentFileHeaderLen) with
                | .error _ => pure none
                | .ok header =>
                    if header.segmentId ≠ id then pure none
                    else if header.maxSize.toNat < measured.length then pure none
                    else do
                      let dataLen ← subU64 true measured.length segmentFileHeaderLen
                      pure (some { id, header, dataLen, pos := 0, offset := segmentFileHeaderLen })

def openNextOf : List SegId → CheckedM Bool
  | [] => do
      modify fun s => { s with pending := [] }
      pure false
  | id :: rest => do
      modify fun s => { s with pending := rest }
      match ← openValidated env id with
      | none => openNextOf rest
      | some segment =>
          let s ← get
          if s.session.any (· ≠ segment.header.sessionId) then
            set { s with
              pending := id :: rest, session := none, prevSeq := none, recovery := none }
            fail .sessionEnd
          else
            set { s with toLogRead := s.toLogRead.adopt segment }
            pure true

def openNext : CheckedM Bool := do
  openNextOf env (← get).pending

def checkRemaining (header : SegmentHeader) : CheckedM Bool := do
  let s ← get
  let cursor := s.cursor
  let remaining := header.remaining.toNat
  if cursor.consumed = 0 then pure (remaining ≠ 0)
  else
    match cursor.total with
    | some total =>
        let owed ← subU64 true total cursor.consumed
        pure (remaining ≠ owed)
    | none =>
        let rest := header.format.dataHeaderLenIn header.versionMinor - cursor.consumed
        if remaining < rest then pure true
        else
          let implied ← subU64 true remaining rest
          if cursor.impliedPayload.any (· ≠ implied) then pure true
          else
            set { s with cursor := { cursor with impliedPayload := some implied } }
            pure false

def checkSequence (prevSeq : Option SeqId) (sequence : SeqId) : CheckedM (Bool × Nat) := do
  match prevSeq with
  | none => pure (false, 0)
  | some prev =>
      let expected ← addU64 true prev.toNat 1
      if sequence.toNat = expected then pure (false, 0)
      else if expected < sequence.toNat then
        let ahead ← subU64 true sequence.toNat prev.toNat
        let lost ← subU64 true ahead 1
        pure (true, lost)
      else pure (true, 0)

def noteRecovery (id : SegId) : CheckedM Unit := do
  let s ← get
  match s.cursor.total with
  | none => pure ()
  | some total =>
      let owed ← subU64 true total s.cursor.consumed
      set { s with recovery := some ⟨id, owed⟩ }

def checkCrossing (prevShort : Bool) (prevSeq : Option SeqId) (segment : Segment) :
    CheckedM Unit := do
  let denied ← checkRemaining segment.header
  let (outOfOrder, lost) ← checkSequence prevSeq segment.header.sequence
  if denied || prevShort || outOfOrder then
    if lost = 1 ∧ prevShort = false then
      noteRecovery segment.id
      unchecked (rejectCurrent lost (← get).cursor.payloadInBuf)
    else unchecked (rejectCurrent lost (← get).cursor.payloadInBuf)
  else pure ()

def crossOver : CheckedM Unit := do
  let before ← get
  let prevShort := before.current.any fun segment => segment.dataLen < segment.header.dataLen
  set { before with current := none }
  match ← attempt (openNext env) with
  | .error e =>
      if e = .sessionEnd ∧ 0 < before.cursor.consumed then
        modify fun s => { s with session := before.session, prevSeq := before.prevSeq }
        fail (.readTruncated 0 before.cursor.payloadInBuf)
      else fail e
  | .ok false => fail (.readTruncated 0 before.cursor.payloadInBuf)
  | .ok true =>
      match (← get).current with
      | none => fail (.readTruncated 0 before.cursor.payloadInBuf)
      | some segment => checkCrossing prevShort before.prevSeq segment

def cross : CheckedM Unit := do
  modify fun s => { s with crossings := s.crossings ++ [s.toReadState] }
  crossOver env

def crossIfExhausted : CheckedM Unit := do
  if (← get).exhausted then cross env else pure ()

/-- One pass of the loop of `fill`, with `off` bytes of the destination of `len`
bytes filled: how many are filled after it. -/
def fillChunk (len off : Nat) : CheckedM Nat := do
  crossIfExhausted env
  match (← get).current with
  | none => fail (.readTruncated 0 (← get).cursor.payloadInBuf)
  | some segment =>
      let avail ← subU64 true segment.dataLen segment.pos
      let room ← subU64 true len off
      let take := min avail room
      let stop ← addU64 true off take
      check (off ≤ stop ∧ stop ≤ len)
      let bytes ← unchecked (readExact env segment take)
      let pos ← addU64 true segment.pos take
      let s ← get
      let _ ← addU64 true s.cursor.consumed take
      set { s with
        current := some { segment with pos := pos, offset := segment.offset + take }
        cursor := s.cursor.read take
        dst := s.dst ++ bytes }
      addU64 true off take

/-- One pass of the loop of `skip`, with `count` bytes still to be skipped: how
many are still to be skipped after it. -/
def skipChunk (count : Nat) : CheckedM Nat := do
  crossIfExhausted env
  match (← get).current with
  | none => fail (.readTruncated 0 (← get).cursor.payloadInBuf)
  | some segment =>
      let avail ← subU64 true segment.dataLen segment.pos
      let step := min avail count
      let moved ← unchecked (seekForward env segment step)
      let pos ← addU64 true moved.pos step
      let s ← get
      let consumed ← addU64 true s.cursor.consumed step
      set { s with
        current := some { moved with pos := pos }
        cursor := { s.cursor with consumed := consumed } }
      subU64 true count step

/-! ## Reading one record -/

/-- Repeat the pass of `fill` as often as `passes` allow, until `len` bytes of the
destination are filled. -/
def fillFrom (len : Nat) : Nat → Nat → CheckedM Unit
  | 0, off => if off < len then throw .stuck else pure ()
  | passes + 1, off => do
      if off < len then
        let off ← fillChunk env len off
        fillFrom len passes off
      else pure ()

/-- Every pass fills some bytes or uses up a listed file. -/
def fill (len : Nat) : CheckedM Unit := do
  fillFrom env len ((← get).pending.length + len) 0

def skipFrom : Nat → Nat → CheckedM Unit
  | 0, count => if 0 < count then throw .stuck else pure ()
  | passes + 1, count => do
      if 0 < count then
        let count ← skipChunk env count
        skipFrom passes count
      else pure ()

def skip (count : Nat) : CheckedM Unit := do
  skipFrom env ((← get).pending.length + count) count

def fillBuf (len : Nat) : CheckedM Bytes := do
  modify fun s => { s with dst := [] }
  fill env len
  return (← get).dst

def setTotal (total : Nat) : CheckedM Unit :=
  modify fun s => { s with cursor := { s.cursor with total := some total } }

def readDataHeader (format : Format) (minor : Nat) : CheckedM (Nat × Meta) :=
  match format with
  | .fixed n => do
      setTotal n.toNat
      return (n.toNat, .fixed)
  | .variableSimple => do
      let head ← fillBuf env 4
      let n ← unchecked (settlePayloadLen (ofLE head))
      let total ← addU64 true format.dataHeaderLen n
      setTotal total
      return (n, .variableSimple)
  | .variableTsRc => do
      let len := format.dataHeaderLenIn minor
      check (len ≤ 18)
      let head ← fillBuf env len
      check (4 ≤ len)
      let n ← unchecked (settlePayloadLen (ofLE (takeAt head 0 4)))
      check (12 ≤ len)
      let ts := UInt64.ofNat (ofLE (takeAt head 4 8))
      let rest ← subU64 true len 12
      check (rest ≤ 8)
      let rc := UInt64.ofNat (ofLE (head.drop 12))
      let total ← addU64 true len n
      setTotal total
      return (n, .variableTsRc ts rc)

def orLosePosition {α : Type} (x : CheckedM α) : CheckedM α := do
  match ← attempt x with
  | .ok a => return a
  | .error e =>
      modify fun s => { s with toReadState := s.losePosition }
      fail e

def examineNext : CheckedM (Option Start) := do
  let recovery := (← get).recovery
  modify fun s => { s with recovery := none }
  if ← openNext env then
    match (← get).current with
    | none => fail .eof
    | some segment =>
        let header := segment.header
        let remaining := header.remaining.toNat
        match recovery.bind fun known =>
            recoveredPayloadLen known segment.id header.format remaining header.dataLen with
        | some n => pure (some (.recovered n))
        | none =>
            if segment.dataLen ≤ remaining then
              modify fun s => { s with current := none }
              pure none
            else
              let moved ← unchecked (seekForward env segment remaining)
              modify fun s => { s with current := some { moved with pos := remaining } }
              pure (some .fresh)
  else fail .eof

/-- Repeat the pass of `findRecordStart` as often as `passes` allow, until a file
offers a record boundary. -/
def searchFrom : Nat → CheckedM Start
  | 0 => throw .stuck
  | passes + 1 => do
      match ← examineNext env with
      | some start => pure start
      | none => searchFrom passes

/-- A resynchronization must not leave a segment file open. -/
def findRecordStart : CheckedM Start := do
  let s ← get
  check s.current.isNone
  searchFrom env (s.pending.length + 1)

def locate : CheckedM Start := do
  if (← get).resync then
    let start ← orLosePosition (findRecordStart env)
    modify fun s => { s with resync := false }
    let s ← get
    if 0 < s.sessionStartLost then
      set { s with sessionStartLost := 0 }
      fail (.readTruncated s.sessionStartLost 0)
    else return start
  else return .fresh

def header (start : Start) (segment : Segment) : CheckedM (Nat × Meta) :=
  let format := segment.header.format
  match start with
  | .recovered n => do
      let total ← addU64 true format.dataHeaderLen n
      modify fun s => { s with
        cursor := { s.cursor with consumed := format.dataHeaderLen, total := some total } }
      return (n, .variableSimple)
  | .fresh => orLosePosition (readDataHeader env format segment.header.versionMinor)

def payload (cap want : Nat) (metadata : Meta) : CheckedM ReadResult := do
  modify fun s => { s with lastMeta := metadata, cursor := { s.cursor with inPayload := true } }
  let take := min want cap
  check (take ≤ cap)
  let _ ← orLosePosition (fillBuf env take)
  if cap < want then
    let rest ← subU64 true want cap
    match ← attempt (skip env rest) with
    | .ok _ => fail (.readOverflow take)
    | .error _ =>
        modify fun s => { s with toReadState := s.losePosition }
        fail (.readOverflow take)
  else return { n := take, metadata }

def read (cap : Nat) : CheckedM ReadResult := do
  let s ← get
  if s.pending = [] ∧ s.exhausted then
    set { s with current := none }
    fail .eof
  else
    set { s with resync := s.resync || s.current.isNone, cursor := {}, dst := [] }
    let start ← locate env
    match (← get).current with
    | none => orLosePosition (fail .eof)
    | some segment =>
        let (want, metadata) ← header env start segment
        payload env cap want metadata

/-- One call of `read` as its caller sees it. -/
def readCall (cap : Nat) (s : CheckedState) : Outcome × CheckedState :=
  match (read env cap).run s with
  | .ok result s' => (.record (s'.dst.take result.n) result.metadata, s')
  | .error (.error e) s' => (.failed e (s'.dst.take e.placed), s')
  | .error _ s' => (.panicked, s')

/-- Successive calls, of which none is made after one that panicked. -/
def readCalls (caps : Nat → Nat) : Nat → CheckedState → List Outcome × CheckedState
  | 0, s => ([], s)
  | calls + 1, s =>
      let (outcome, s') := readCall env (caps 0) s
      if outcome = .panicked then ([outcome], s')
      else
        let (outcomes, last) := readCalls (fun i => caps (i + 1)) calls s'
        (outcome :: outcomes, last)

end Checked

/-! ## A program and its checks -/

section Guards

variable {dir : Dir} {overflowChecks : Bool} {α β γ δ : Type}

/-- No crossing between the two states trips. -/
def Steady (dir : Dir) (s s' : CheckedState) : Prop :=
  ∃ since, s'.crossings = s.crossings ++ since ∧ ∀ t ∈ since, ¬ t.Trips dir

/-- A crossing between the two states trips. -/
def Tripped (dir : Dir) (s s' : CheckedState) : Prop :=
  ∃ since, s'.crossings = s.crossings ++ since ∧ ∃ t ∈ since, t.Trips dir

theorem Steady.of_eq {s s' : CheckedState} (same : s'.crossings = s.crossings) : Steady dir s s' :=
  ⟨[], by rw [same, List.append_nil], by simp⟩

theorem Steady.trans {s t u : CheckedState} (first : Steady dir s t) (second : Steady dir t u) :
    Steady dir s u := by
  obtain ⟨since, grown, clear⟩ := first
  obtain ⟨since', grown', clear'⟩ := second
  refine ⟨since ++ since', by rw [grown', grown, List.append_assoc], fun v mem => ?_⟩
  exact (List.mem_append.mp mem).elim (clear v) (clear' v)

theorem Steady.tripped {s t u : CheckedState} (first : Steady dir s t) (second : Tripped dir t u) :
    Tripped dir s u := by
  obtain ⟨since, grown, _⟩ := first
  obtain ⟨since', grown', v, mem, trips⟩ := second
  exact ⟨since ++ since', by rw [grown', grown, List.append_assoc], v, List.mem_append_right _ mem, trips⟩

/-- Unless it panics, the checked program does what the program does, and no
crossing of it trips.  If it is `safe` it panics only after a crossing that
trips. -/
def Guards (dir : Dir) (safe : Prop) (related : α → β → Prop) (x : ReadM α) (y : CheckedM β)
    (s : CheckedState) : Prop :=
  Meets y s
    (fun b s' => ∃ a, x.run s.toReadState = .ok a s'.toReadState ∧ related a b ∧ Steady dir s s')
    (fun stop s' => stop = .panic ∧ (safe → Tripped dir s s') ∨
      stop ≠ .panic ∧ x.run s.toReadState = .error stop s'.toReadState ∧ Steady dir s s')

variable {safe safe' : Prop} {related : α → β → Prop} {related' : γ → δ → Prop} {x : ReadM α}
  {y : CheckedM β} {s : CheckedState}

theorem guards_pure {a : α} {b : β} (holds : related a b) :
    Guards dir safe related (pure a) (pure b) s :=
  ⟨a, rfl, holds, .of_eq rfl⟩

theorem guards_fail (e : LogError) : Guards dir safe related (fail e) (fail e) s :=
  .inr ⟨by simp, rfl, .of_eq rfl⟩

theorem guards_bind {f : α → ReadM γ} {g : β → CheckedM δ} (first : Guards dir safe related x y s)
    (rest : ∀ a b s', x.run s.toReadState = .ok a s'.toReadState → related a b →
      Guards dir safe related' (f a) (g b) s') :
    Guards dir safe related' (x >>= f) (y >>= g) s := by
  refine meets_bind.mpr (Meets.imp first ?_ ?_)
  · rintro b t ⟨a, ran, holds, steady⟩
    refine Meets.imp (rest a b t ran holds) ?_ ?_
    · rintro d u ⟨c, ran', holds', steady'⟩
      exact ⟨c, by rw [EStateM.run_bind, ran]; exact ran', holds', steady.trans steady'⟩
    · rintro stop u (⟨rfl, tripped⟩ | ⟨notPanic, ran', steady'⟩)
      · exact .inl ⟨rfl, fun isSafe => steady.tripped (tripped isSafe)⟩
      · exact .inr ⟨notPanic, by rw [EStateM.run_bind, ran]; exact ran', steady.trans steady'⟩
  · rintro stop t (panicked | ⟨notPanic, ran, steady⟩)
    · exact .inl panicked
    · exact .inr ⟨notPanic, by rw [EStateM.run_bind, ran], steady⟩

/-- Programs that first look at their states. -/
theorem guards_bind_get {f : ReadState → ReadM α} {g : CheckedState → CheckedM β}
    (rest : Guards dir safe related (f s.toReadState) (g s) s) :
    Guards dir safe related (get >>= f) (get >>= g) s :=
  rest

/-- Programs that first change their states alike. -/
theorem guards_bind_set {t : CheckedState} {f : PUnit → ReadM α} {g : PUnit → CheckedM β}
    (same : t.crossings = s.crossings) (rest : Guards dir safe related (f ⟨⟩) (g ⟨⟩) t) :
    Guards dir safe related (set t.toReadState >>= f) (set t >>= g) s := by
  refine meets_bind.mpr (meets_set.mpr (Meets.imp rest ?_ ?_))
  · rintro b u ⟨a, ran, holds, steady⟩
    exact ⟨a, ran, holds, (Steady.of_eq same).trans steady⟩
  · rintro stop u (⟨rfl, tripped⟩ | ⟨notPanic, ran, steady⟩)
    · exact .inl ⟨rfl, fun isSafe => (Steady.of_eq same).tripped (tripped isSafe)⟩
    · exact .inr ⟨notPanic, ran, (Steady.of_eq same).trans steady⟩

theorem guards_bind_modify {h : CheckedState → CheckedState} {h' : ReadState → ReadState}
    {f : PUnit → ReadM α} {g : PUnit → CheckedM β} (alike : (h s).toReadState = h' s.toReadState)
    (same : (h s).crossings = s.crossings) (rest : Guards dir safe related (f ⟨⟩) (g ⟨⟩) (h s)) :
    Guards dir safe related (modify h' >>= f) (modify h >>= g) s := by
  have sets : Guards dir safe related (set (h s).toReadState >>= f) (set (h s) >>= g) s :=
    guards_bind_set same rest
  rwa [alike] at sets

theorem guards_ite {c : Prop} [Decidable c] {x' : ReadM α} {y' : CheckedM β}
    (onTrue : c → Guards dir safe related x y s) (onFalse : ¬ c → Guards dir safe related x' y' s) :
    Guards dir safe related (if c then x else x') (if c then y else y') s := by
  by_cases holds : c
  · simpa only [if_pos holds] using onTrue holds
  · simpa only [if_neg holds] using onFalse holds

/-- A check that holds of a safe program. -/
theorem guards_check {holds : Bool} {g : Unit → CheckedM β} (isSafe : safe → holds = true)
    (rest : holds = true → Guards dir safe related x (g ()) s) :
    Guards dir safe related x (check holds >>= g) s := by
  cases holds with
  | true => exact rest rfl
  | false => exact .inl ⟨rfl, fun held => Bool.noConfusion (isSafe held)⟩

/-- A subtraction that a safe program may make. -/
theorem guards_subU64 {a b : Nat} {g : Nat → CheckedM β} (isSafe : safe → b ≤ a)
    (rest : b ≤ a → Guards dir safe related x (g (a - b)) s) :
    Guards dir safe related x (subU64 true a b >>= g) s := by
  by_cases le : b ≤ a
  · rw [subU64_of_le le, pure_bind]
    exact rest le
  · rw [subU64, if_neg le, if_pos rfl]
    exact .inl ⟨rfl, fun held => absurd (isSafe held) le⟩

/-- An addition that a safe program may make. -/
theorem guards_addU64 {a b : Nat} {g : Nat → CheckedM β} (isSafe : safe → a + b < 2 ^ 64)
    (rest : a + b < 2 ^ 64 → Guards dir safe related x (g (a + b)) s) :
    Guards dir safe related x (addU64 true a b >>= g) s := by
  by_cases fits : a + b < 2 ^ 64
  · rw [addU64_of_lt fits, pure_bind]
    exact rest fits
  · rw [addU64, if_neg fits, if_pos rfl]
    exact .inl ⟨rfl, fun held => absurd (isSafe held) fits⟩

theorem guards_unchecked {x : ReadM α}
    (returns : Meets x s.toReadState (fun _ _ => True) fun stop _ => stop ≠ .panic) :
    Guards dir safe Eq x (unchecked x) s := by
  cases ran : x.run s.toReadState with
  | ok a t =>
      have run : (unchecked x).run s = .ok a { s with toReadState := t } := by
        simp only [unchecked, EStateM.run, show x s.toReadState = _ from ran]
      exact (meets_of_ok run).mpr ⟨a, ran, rfl, .of_eq rfl⟩
  | error stop t =>
      have run : (unchecked x).run s = .error stop { s with toReadState := t } := by
        simp only [unchecked, EStateM.run, show x s.toReadState = _ from ran]
      exact (meets_of_error run).mpr (.inr ⟨returns.of_error ran, ran, .of_eq rfl⟩)

theorem guards_attempt (guards : Guards dir safe related x y s) :
    Guards dir safe (fun r r' => (∃ a b, r = .ok a ∧ r' = .ok b ∧ related a b) ∨
      ∃ e, r = .error e ∧ r' = .error e) (attempt x) (attempt y) s := by
  refine meets_attempt.mpr (Meets.imp guards ?_ ?_)
  · rintro b t ⟨a, ran, holds, steady⟩
    exact ⟨.ok a, attempt_of_ok ran, .inl ⟨a, b, rfl, rfl, holds⟩, steady⟩
  · rintro stop t (⟨rfl, tripped⟩ | ⟨notPanic, ran, steady⟩)
    · exact .inl ⟨rfl, tripped⟩
    · cases stop with
      | error e => exact ⟨.error e, attempt_of_error ran, .inr ⟨e, rfl, rfl⟩, steady⟩
      | panic => exact absurd rfl notPanic
      | stuck => exact .inr ⟨notPanic, attempt_of_stop (by simp) ran, steady⟩

end Guards

end Tcslog
