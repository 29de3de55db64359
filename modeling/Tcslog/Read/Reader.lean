import Tcslog.Header
import Tcslog.Storage

/-!
# The log reader

The reader opens the segment files of one log in the order of their
identifiers and hands back one record a call.  A record may run over any number
of files; a crossing from one file to the next is checked against the next
file's header, and after any fault the reader resynchronizes on the next file
that offers a record boundary.

The reader's requests to the file system are numbered in the order they are
made.  An environment says what the directory holds at each request and which
requests fail.
-/

namespace Tcslog

/-- What a reader asks of the file system. -/
inductive ReadRequest
  | openFile
  | measure
  | readHeader
  | readData
  | seek
  deriving DecidableEq, Repr

/-- One request, and the segment file it concerns. -/
structure ReadOp where
  request : ReadRequest
  id : SegId
  deriving DecidableEq, Repr

/-- The surroundings of a reader: the directory as each of its requests finds
it, the requests that fail, and whether the build checks arithmetic.  While a
reader runs files stay in place and may only grow. -/
structure ReadEnv where
  dir : Nat → Dir
  grows : ∀ {t t' name content}, t ≤ t' → (dir t).lookup name = some content →
    ∃ content', (dir t').lookup name = some content' ∧ content <+: content'
  fault : Nat → Bool
  overflowChecks : Bool

/-- What one successful read produced. -/
structure ReadResult where
  n : Nat
  metadata : Meta
  deriving DecidableEq, Repr

/-- The segment file currently open, `offset` being the position of the open
file itself. -/
structure Segment where
  id : SegId
  header : SegmentHeader
  dataLen : Nat
  pos : Nat
  offset : Nat
  deriving DecidableEq, Repr

/-- State of the record being read, carried across the files it may span. -/
structure Cursor where
  consumed : Nat := 0
  total : Option Nat := none
  impliedPayload : Option Nat := none
  payloadInBuf : Nat := 0
  inPayload : Bool := false
  deriving DecidableEq, Repr

/-- Where a resynchronization left the read position. -/
inductive Start
  | fresh
  | recovered (payloadLen : Nat)
  deriving DecidableEq, Repr

/-- What is known about a record interrupted by a gap of exactly one file. -/
structure Recovery where
  segment : SegId
  owed : Nat
  deriving DecidableEq, Repr

/-- A reader. -/
structure LogRead where
  namePrefix : Bytes
  nameSuffix : Bytes
  pending : List SegId
  current : Option Segment
  resync : Bool
  session : Option SegId
  prevSeq : Option SeqId
  sessionStartLost : Nat
  segmentsOpened : Nat
  collectHeaders : Bool
  openedHeaders : List SegmentHeader
  reopened : Option SegId
  recovery : Option Recovery
  lastMeta : Meta
  deriving DecidableEq, Repr

/-- A reader in the middle of a call: the record in progress, the bytes placed
in the destination of the transfer under way, and the requests made so far. -/
structure ReadState extends LogRead where
  cursor : Cursor
  dst : Bytes
  ops : List ReadOp
  deriving DecidableEq, Repr

abbrev ReadM := EStateM Stop ReadState

namespace LogRead

/-- Open an existing log for reading, given what the enumeration of the
directory found. -/
def new (isDir : Bool) (listing : Option Dir) (namePrefix nameSuffix : Bytes) :
    Except LogError LogRead := do
  checkLogLocation isDir namePrefix nameSuffix
  match listing with
  | none => throw .ioError
  | some dir =>
      let ids := scanSegmentIds dir namePrefix nameSuffix
      if ids = [] then throw .noSegmentFiles
      else return {
        namePrefix, nameSuffix, pending := ids, current := none, resync := true, session := none
        prevSeq := none, sessionStartLost := 0, segmentsOpened := 0, collectHeaders := false
        openedHeaders := [], reopened := none, recovery := none, lastMeta := .variableSimple }

/-- Tell whether the current segment file has no more data section left. -/
def exhausted (log : LogRead) : Bool :=
  match log.current with
  | none => true
  | some segment => segment.dataLen ≤ segment.pos

/-- Make a validated segment file current, counting it unless it was handed
back by a rejected crossing. -/
def adopt (log : LogRead) (segment : Segment) : LogRead :=
  let header := segment.header
  let counted : LogRead :=
    if log.reopened = some segment.id then { log with reopened := none }
    else
      { log with
        segmentsOpened := log.segmentsOpened + 1
        openedHeaders :=
          if log.collectHeaders then log.openedHeaders ++ [header] else log.openedHeaders }
  let placed : LogRead :=
    if log.session = none then
      -- Nothing crosses into a session's first surviving file, so its own
      -- sequence is the only evidence of files lost ahead of it.
      { counted with session := some header.sessionId, sessionStartLost := header.sequence.toNat }
    else counted
  { placed with prevSeq := some header.sequence, current := some segment }

end LogRead

/-- Narrow a byte count to the signed offset a seek takes. -/
def asI64 (n : Nat) : Nat :=
  min n (2 ^ 63 - 1)

/-- Decide whether a record whose data header was lost with a single missing
segment file can be placed after all. -/
def recoveredPayloadLen (recovery : Recovery) (id : SegId) (format : Format)
    (remaining dataSection : Nat) : Option Nat :=
  if recovery.segment ≠ id ∨ remaining = 0 then none
  else if format ≠ .variableSimple then none
  else if dataSection < recovery.owed then none
  else if dataSection - recovery.owed ≠ format.dataHeaderLen then none
  else if remaining ≤ u32Max then some remaining
  else none

section Requests

variable (env : ReadEnv)

/-- Make one request about a file: what the file holds, unless the request
fails or there is no such file. -/
def perform (request : ReadRequest) (id : SegId) : ReadM (Option Bytes) := do
  let s ← get
  let t := s.ops.length
  set { s with ops := s.ops ++ [ReadOp.mk request id] }
  pure (if env.fault t then none
    else (env.dir t).lookup (buildName s.namePrefix id s.nameSuffix))

/-- Read exactly `n` bytes of the open file. -/
def readExact (segment : Segment) (n : Nat) : ReadM Bytes :=
  if n = 0 then pure []
  else do
    match ← perform env .readData segment.id with
    | none => fail .ioError
    | some content =>
        let bytes := (content.drop segment.offset).take n
        if bytes.length < n then fail .ioError else pure bytes

/-- Move the open file's position forward by `n` bytes. -/
def seekForward (segment : Segment) (n : Nat) : ReadM Segment := do
  match ← perform env .seek segment.id with
  | none => fail .ioError
  | some _ => pure { segment with offset := segment.offset + asI64 n }

/-- Open one segment file and check everything that must hold before it may be
read. -/
def openValidated (id : SegId) : ReadM (Option Segment) := do
  match ← perform env .openFile id with
  | none => pure none
  | some _ =>
      match ← perform env .measure id with
      | none => pure none
      | some measured =>
          if measured.length < segmentFileHeaderLen then pure none
          else
            match ← perform env .readHeader id with
            | none => pure none
            | some content =>
                match SegmentHeader.fromBytes (content.take segmentFileHeaderLen) with
                | .error _ => pure none
                | .ok header =>
                    if header.segmentId ≠ id then pure none
                    else if header.maxSize.toNat < measured.length then pure none
                    else
                      pure (some {
                        id, header, dataLen := measured.length - segmentFileHeaderLen
                        pos := 0, offset := segmentFileHeaderLen })

/-- Open the next of the listed segment files that can be used. -/
def openNextOf : List SegId → ReadM Bool
  | [] => do
      modify fun s => { s with pending := [] }
      pure false
  | id :: rest => do
      modify fun s => { s with pending := rest }
      match ← openValidated env id with
      | none => openNextOf rest
      | some segment =>
          let s ← get
          if s.session.any (· ≠ segment.header.sessionId) then
            set { s with
              pending := id :: rest, session := none, prevSeq := none, recovery := none }
            fail .sessionEnd
          else
            set { s with toLogRead := s.toLogRead.adopt segment }
            pure true

/-- Open the next segment file that can be used, making it current. -/
def openNext : ReadM Bool := do
  openNextOf env (← get).pending

/-- Give up the current segment file, handing it back to the pending list. -/
def rejectCurrent (lost n : Nat) : ReadM Unit := do
  let s ← get
  match s.current with
  | none => pure ()
  | some segment =>
      set { s with
        pending := segment.id :: s.pending, current := none, reopened := some segment.id }
  fail (.readTruncated lost n)

end Requests

/-! ## Crossing from one segment file into the next -/

section Crossing

variable (env : ReadEnv)

/-- Whether the next file's `remaining` field denies that it continues the
record in progress. -/
def checkRemaining (header : SegmentHeader) : ReadM Bool := do
  let s ← get
  let cursor := s.cursor
  let remaining := header.remaining.toNat
  if cursor.consumed = 0 then pure (remaining ≠ 0)
  else
    match cursor.total with
    | some total =>
        let owed ← subU64 env.overflowChecks total cursor.consumed
        pure (remaining ≠ owed)
    | none =>
        -- Part way through a data header: the field fixes the payload length.
        let rest := header.format.dataHeaderLenIn header.versionMinor - cursor.consumed
        if remaining < rest ∨ cursor.impliedPayload.any (· ≠ remaining - rest) then pure true
        else
          set { s with cursor := { cursor with impliedPayload := some (remaining - rest) } }
          pure false

/-- Whether the next file's sequence denies that it follows the previous one,
and how many files it says are missing. -/
def checkSequence (prevSeq : Option SeqId) (sequence : SeqId) : ReadM (Bool × Nat) := do
  match prevSeq with
  | none => pure (false, 0)
  | some prev =>
      let expected ← addU64 env.overflowChecks prev.toNat 1
      if sequence.toNat = expected then pure (false, 0)
      else if expected < sequence.toNat then
        let ahead ← subU64 env.overflowChecks sequence.toNat prev.toNat
        let lost ← subU64 env.overflowChecks ahead 1
        pure (true, lost)
      else pure (true, 0)

/-- Leave what a recovery needs when exactly one file is missing and the
interrupted record's length is known. -/
def noteRecovery (id : SegId) : ReadM Unit := do
  let s ← get
  match s.cursor.total with
  | none => pure ()
  | some total =>
      let owed ← subU64 env.overflowChecks total s.cursor.consumed
      set { s with recovery := some ⟨id, owed⟩ }

/-- Check that the segment file just opened continues the record in progress. -/
def checkCrossing (prevShort : Bool) (prevSeq : Option SeqId) (segment : Segment) :
    ReadM Unit := do
  let denied ← checkRemaining env segment.header
  let (outOfOrder, lost) ← checkSequence env prevSeq segment.header.sequence
  if denied || prevShort || outOfOrder then
    if lost = 1 ∧ prevShort = false then
      noteRecovery env segment.id
      rejectCurrent lost (← get).cursor.payloadInBuf
    else rejectCurrent lost (← get).cursor.payloadInBuf
  else pure ()

/-- Cross from an exhausted segment file into the next one, checking that the
next one really does continue this record. -/
def cross : ReadM Unit := do
  let before ← get
  -- A file that ran out early and is followed by another of its session was
  -- cut short by an amount nothing records.
  let prevShort := before.current.any fun segment => segment.dataLen < segment.header.dataLen
  set { before with current := none }
  match ← attempt (openNext env) with
  | .error e =>
      if e = .sessionEnd ∧ 0 < before.cursor.consumed then
        -- The boundary is still to be reported once the reader has
        -- resynchronized.
        modify fun s => { s with session := before.session, prevSeq := before.prevSeq }
        fail (.readTruncated 0 before.cursor.payloadInBuf)
      else fail e
  | .ok false => fail (.readTruncated 0 before.cursor.payloadInBuf)
  | .ok true =>
      match (← get).current with
      | none => fail (.readTruncated 0 before.cursor.payloadInBuf)
      | some segment => checkCrossing env prevShort before.prevSeq segment

/-- Cross when the current segment file has no data section left. -/
def crossIfExhausted : ReadM Unit := do
  if (← get).exhausted then cross env else pure ()

/-- Advance a cursor over bytes read from the record. -/
def Cursor.read (cursor : Cursor) (take : Nat) : Cursor :=
  { cursor with
    consumed := cursor.consumed + take
    payloadInBuf :=
      if cursor.inPayload then min (cursor.payloadInBuf + min take u32Max) u32Max
      else cursor.payloadInBuf }

/-- One pass of the loop of `fill`, with `len` bytes of the destination still
to be filled. -/
def fillChunk (len : Nat) : ReadM Nat := do
  crossIfExhausted env
  match (← get).current with
  | none => fail (.readTruncated 0 (← get).cursor.payloadInBuf)
  | some segment =>
      let take := min (segment.dataLen - segment.pos) len
      let bytes ← readExact env segment take
      modify fun s => { s with
        current := some { segment with pos := segment.pos + take, offset := segment.offset + take }
        cursor := s.cursor.read take
        dst := s.dst ++ bytes }
      pure take

/-- One pass of the loop of `skip`, with `count` bytes still to be skipped. -/
def skipChunk (count : Nat) : ReadM Nat := do
  crossIfExhausted env
  match (← get).current with
  | none => fail (.readTruncated 0 (← get).cursor.payloadInBuf)
  | some segment =>
      let step := min (segment.dataLen - segment.pos) count
      let moved ← seekForward env segment step
      modify fun s => { s with
        current := some { moved with pos := moved.pos + step }
        cursor := { s.cursor with consumed := s.cursor.consumed + step } }
      pure step

end Crossing

end Tcslog
