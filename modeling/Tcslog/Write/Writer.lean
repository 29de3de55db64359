import Tcslog.Header
import Tcslog.Storage

/-!
# The log writer

The writer appends records to segment files of one size, rolling to a new file
each time the current one is exactly full, and names files by a clock that
never goes backwards.

Everything a writer asks of its surroundings, the clock and the caller's
callbacks included, is numbered in the order it is asked.  An environment says
which of these requests fail, what the clock reads and what becomes of the
files handed over.
-/

namespace Tcslog

/-- What the caller does with a segment file handed to it. -/
inductive SendAction
  | leave
  | remove
  | moveTo (name : Bytes)
  deriving DecidableEq, Repr

/-- The surroundings of a writer.  `stored` is how much of a failing write
reaches the file, and `attempts` how often the naming of one file is tried. -/
structure WriteEnv where
  isDir : Bool
  fault : Nat → Bool
  stored : Nat → Nat
  instant : Nat → Nat
  instant_mono : Monotone instant
  sends : Nat → SendAction
  timerResolutionNs : Nat
  attempts : Nat
  overflowChecks : Bool

/-- What a writer did, as its surroundings see it. -/
inductive WriteEvent
  | created (id : SegId)
  | appended (id : SegId) (bytes : Bytes)
  | flushed (id : SegId)
  | completed (id : SegId)
  | sent (id : SegId)
  | removed (id : SegId)
  | slept (ns : Nat)
  | adjusted (resolutionNs : Nat)
  deriving DecidableEq, Repr

/-- The segment file being written. -/
structure Current where
  id : SegId
  dataWritten : Nat
  deriving DecidableEq, Repr

/-- The real-time clock's epoch, advanced by the monotonic clock. -/
structure Clock where
  delta : Nat
  mono : Nat
  deriving DecidableEq, Repr

/-- A writer. -/
structure LogWrite where
  namePrefix : Bytes
  nameSuffix : Bytes
  segSizeMax : UInt32
  format : Format
  timerResolution : Nat
  clock : Clock
  current : Option Current
  sessionId : SegId
  sequence : SeqId
  recordCount : Nat
  recordBytesLeft : Nat
  lastMeta : Meta
  deriving DecidableEq, Repr

/-- The arguments of `new`, with the reading of the real-time clock it takes:
none before the UNIX epoch. -/
structure NewArgs where
  namePrefix : Bytes
  nameSuffix : Bytes
  segSizeMax : UInt32
  format : Format
  sinceEpoch : Option Nat
  deriving DecidableEq, Repr

/-- A writer in its surroundings: the directory, the number of requests made so
far and what has been done. -/
structure WriteState extends LogWrite where
  dir : Dir
  ops : Nat
  events : List WriteEvent

abbrev WriteM := EStateM Stop WriteState

/-! ## Requests to the surroundings -/

section Requests

variable (env : WriteEnv)

/-- The number of the request about to be made. -/
def tick : WriteM Nat := do
  let s ← get
  set { s with ops := s.ops + 1 }
  return s.ops

/-- Record what was done and what it made of the directory. -/
def emit (event : WriteEvent) (change : Dir → Dir) : WriteM Unit :=
  modify fun s => { s with dir := change s.dir, events := s.events ++ [event] }

/-- The file name of an identifier in this log. -/
def fileName (id : SegId) : WriteM Bytes := do
  let s ← get
  return buildName s.namePrefix id s.nameSuffix

/-- Append to a file that is there. -/
def appendTo (name bytes : Bytes) (dir : Dir) : Dir :=
  match dir.lookup name with
  | some content => dir.insert name (content ++ bytes)
  | none => dir

/-- What an attempt to create a file came to. -/
inductive Creation
  | made
  | alreadyExists
  | refused
  deriving DecidableEq, Repr

/-- Create a segment file, failing if anything of that name is there already. -/
def createNew (id : SegId) : WriteM Creation := do
  let t ← tick
  let name ← fileName id
  if env.fault t then return .refused
  else if ((← get).dir.lookup name).isSome then return .alreadyExists
  else
    emit (.created id) (·.insert name [])
    return .made

/-- Append to an open segment file; a failing write stores a strict prefix. -/
def writeAll (id : SegId) (bytes : Bytes) : WriteM Bool := do
  let t ← tick
  let name ← fileName id
  if env.fault t then
    let front := bytes.take (min (env.stored t) (bytes.length - 1))
    emit (.appended id front) (appendTo name front)
    return false
  else
    emit (.appended id bytes) (appendTo name bytes)
    return true

/-- Flush an open segment file. -/
def flushFile (id : SegId) : WriteM Unit := do
  let t ← tick
  if env.fault t then fail .ioError else emit (.flushed id) fun dir => dir

/-- Tell the caller that a record is complete. -/
def recordComplete (id : SegId) : WriteM Unit := do
  let t ← tick
  if env.fault t then fail .ioError else emit (.completed id) fun dir => dir

/-- What becomes of a file handed over. -/
def SendAction.apply (action : SendAction) (name : Bytes) (dir : Dir) : Dir :=
  match action with
  | .leave => dir
  | .remove => dir.erase name
  | .moveTo target =>
      match dir.lookup name with
      | some content => (dir.erase name).insert target content
      | none => dir

/-- Transfer ownership of a segment file to the caller. -/
def send (id : SegId) : WriteM Unit := do
  let t ← tick
  let name ← fileName id
  if env.fault t then fail .ioError else emit (.sent id) ((env.sends t).apply name)

/-- Remove a segment file. -/
def removeFile (id : SegId) : WriteM Unit := do
  let t ← tick
  let name ← fileName id
  if env.fault t ∨ ((← get).dir.lookup name).isNone then fail .ioError
  else emit (.removed id) (·.erase name)

/-- List the segment files of the log. -/
def scan : WriteM (List SegId) := do
  let t ← tick
  let s ← get
  if env.fault t then fail .ioError else return scanSegmentIds s.dir s.namePrefix s.nameSuffix

end Requests

/-! ## The clock -/

section Clock

variable (env : WriteEnv)

/-- A count of nanoseconds since the UNIX epoch as a timestamp. -/
def stamp (ns : Nat) : Except LogError Nat :=
  if ns < u64Max then .ok ns else .error .timestampOverflow

/-- Go on with a value, or fail with an error. -/
def liftExcept {α : Type} : Except LogError α → WriteM α
  | .ok a => pure a
  | .error e => fail e

/-- Pair a real-time reading already taken with a monotonic one. -/
def Clock.anchor (sinceEpoch mono : Nat) : Except LogError Clock := do
  let delta ← stamp sinceEpoch
  if delta = 0 then throw .clockError else return { delta, mono }

/-- Pair the real-time clock with the monotonic one. -/
def Clock.new (sinceEpoch : Option Nat) : WriteM Clock := do
  match sinceEpoch with
  | none => fail .clockError
  | some ns =>
      let t ← tick
      liftExcept (Clock.anchor ns (env.instant t))

/-- The current time as nanoseconds since the UNIX epoch. -/
def now : WriteM Nat := do
  let t ← tick
  let clock := (← get).clock
  if env.fault t then fail .timestampOverflow
  else liftExcept (stamp (clock.delta + (env.instant t - clock.mono)))

/-- The current time as a segment identifier. -/
def nowSegId : WriteM SegId := do
  return UInt64.ofNat (← now env)

/-- Shift the epoch forward, if it has to, so that the clock reads past `id`. -/
def advancePast (id : SegId) : WriteM Unit := do
  let _ ← liftExcept (stamp (id.toNat + 1))
  let reading ← now env
  if reading ≤ id.toNat then
    let clock := (← get).clock
    let delta ← liftExcept (stamp (clock.delta + (id.toNat - reading) + 1))
    modify fun s => { s with clock := { clock with delta } }
  else return ()

end Clock

/-! ## Naming and creating segment files -/

section Create

variable (env : WriteEnv)

/-- The resolution to carry forward after a collision. -/
def widened (resolution : Nat) (collidedBefore : Bool) : Nat :=
  if collidedBefore then min (resolution * 2) u64Max else resolution

/-- How long to wait for the clock to leave a colliding reading behind. -/
def napFor (resolution : Nat) : Nat :=
  min (resolution * 2) u64Max

/-- Take account of a collision and wait. -/
def noteCollision (collidedBefore : Bool) : WriteM Unit := do
  let s ← get
  let wider := widened s.timerResolution collidedBefore
  if wider ≠ s.timerResolution then
    set { s with timerResolution := wider }
    emit (.adjusted wider) fun dir => dir
    emit (.slept (napFor wider)) fun dir => dir
  else emit (.slept (napFor wider)) fun dir => dir

/-- Create a segment file whose name no file has, in at most so many attempts. -/
def createUniqueFile : Nat → Bool → WriteM SegId
  | 0, _ => throw .stuck
  | attempts + 1, collidedBefore => do
      let id ← nowSegId env
      match ← createNew env id with
      | .made => return id
      | .alreadyExists =>
          noteCollision collidedBefore
          createUniqueFile attempts true
      | .refused => fail .ioError

/-- Create the next segment file and write its header. -/
def createSegment (opensSession : Bool) : WriteM Unit := do
  let id ← createUniqueFile env env.attempts false
  modify fun s => { s with sessionId := if opensSession then id else s.sessionId }
  let s ← get
  let header : SegmentHeader := {
    segmentId := id
    sessionId := s.sessionId
    maxSize := s.segSizeMax
    remaining := UInt64.ofNat s.recordBytesLeft
    format := s.format
    sequence := s.sequence
    versionMinor := versionMinor }
  if ← writeAll env id header.toBytes then
    modify fun s => { s with current := some { id, dataWritten := 0 } }
  else fail .ioError

/-- Start a session: its first file carries sequence zero. -/
def startSession : WriteM Unit := do
  modify fun s => { s with recordCount := 0, sequence := 0, recordBytesLeft := 0 }
  createSegment env true

/-- Flush and close the current segment file, then hand it over. -/
def closeAndSend : WriteM Unit := do
  match (← get).current with
  | none => return ()
  | some current =>
      modify fun s => { s with current := none }
      flushFile env current.id
      send env current.id

/-- Close the current segment file and create its successor. -/
def roll : WriteM Unit := do
  closeAndSend env
  modify fun s => { s with sequence := SeqId.next s.sequence }
  createSegment env false

/-- Give up the current segment file after a failed write and open a fresh
one. -/
def abandonAfterError : WriteM Unit := do
  modify fun s => { s with recordBytesLeft := 0 }
  -- A close that also fails must not mask the write error.
  let _ ← attempt (closeAndSend env)
  modify fun s => { s with sequence := SeqId.next s.sequence }
  createSegment env false

end Create

/-! ## Writing records -/

section Write

variable (env : WriteEnv)

/-- Bytes still available in the current segment file's data section. -/
def room : WriteM Nat := do
  let s ← get
  match s.current with
  | none => return 0
  | some current =>
      let dataSection ← subU32 env.overflowChecks s.segSizeMax.toNat segmentFileHeaderLen
      subU32 env.overflowChecks dataSection current.dataWritten

/-- Roll the current segment file if it is exactly full. -/
def rollIfFull : WriteM Unit := do
  if (← room env) = 0 then roll env else pure ()

open Lib.LittleEndian

/-- Build the data header for a record of `payloadLen` bytes. -/
def buildDataHeader (payloadLen : Nat) : WriteM (Bytes × Meta) := do
  if u32Max < payloadLen then fail .payloadTooLarge
  else
    match (← get).format with
    | .fixed _ => return ([], .fixed)
    | .variableSimple => return (toLE 4 payloadLen, .variableSimple)
    | .variableTsRc =>
        let ts ← now env
        modify fun s => { s with recordCount := s.recordCount + 1 }
        let rc := (← get).recordCount
        return (toLE 4 payloadLen ++ toLE 8 ts ++ (toLE 8 rc).take 6,
          .variableTsRc (UInt64.ofNat ts) (UInt64.ofNat rc))

/-- One pass of the loop of `writeBytes`: append what the current segment file
has room for. -/
def writeChunk (data : Bytes) : WriteM Nat := do
  rollIfFull env
  let take := min (← room env) data.length
  match (← get).current with
  | none => fail .ioError
  | some current =>
      if ← writeAll env current.id (data.take take) then
        modify fun s => { s with
          current := some { current with dataWritten := current.dataWritten + take }
          recordBytesLeft := s.recordBytesLeft - take }
        return take
      else
        abandonAfterError env
        fail .ioError

/-- Append bytes to the data section, rolling each time the current segment
file is exactly full. -/
def writeBytes (data : Bytes) : WriteM Unit := do
  if _more : data = [] then return ()
  else
    let take ← writeChunk env data
    if _progress : take = 0 then throw .stuck else writeBytes (data.drop take)
termination_by data.length
decreasing_by
  have := List.length_pos_of_ne_nil _more
  rw [List.length_drop]
  omega

/-- Whether a payload has a length the format does not take. -/
def Format.refusesLen (format : Format) (len : Nat) : Bool :=
  match format with
  | .fixed n => len ≠ n.toNat
  | _ => false

/-- Begin a session if there is no open file, or if the session's records can no
longer be counted. -/
def ensureSession : WriteM Unit := do
  let s ← get
  if s.current = none then startSession env
  else if s.format = .variableTsRc ∧ recordCountMax ≤ s.recordCount then
    closeAndSend env
    startSession env
  else pure ()

/-- Append a record of `total` bytes to the open segment file. -/
def appendRecord (msg : Bytes) (total : Nat) : WriteM Unit := do
  -- An exactly full file is rolled before the record begins.
  rollIfFull env
  let (built, metadata) ← buildDataHeader env msg.length
  modify fun s => { s with recordBytesLeft := total }
  writeBytes env built
  writeBytes env msg
  modify fun s => { s with lastMeta := metadata }

/-- The part of `write` that stores the record. -/
def storeRecord (msg : Bytes) : WriteM Nat := do
  let format := (← get).format
  if format.refusesLen msg.length then fail .fixedLenMismatch
  else if u32Max < msg.length then fail .payloadTooLarge
  else
    let total := format.dataHeaderLen + msg.length
    if u32Max < total then fail .payloadTooLarge
    else
      ensureSession env
      appendRecord env msg total
      return total

/-- Tell the caller that the record is complete, if a segment file is open. -/
def noticeComplete : WriteM Unit := do
  match (← get).current with
  | none => return ()
  | some current => recordComplete env current.id

/-- Write a byte array to the log as one data record. -/
def write (msg : Bytes) : WriteM Nat := do
  let total ← storeRecord env msg
  noticeComplete env
  return total

/-- Flush buffered data for the current segment file. -/
def flush : WriteM Unit := do
  match (← get).current with
  | none => return ()
  | some current => flushFile env current.id

/-- Apply an action to every segment file of the log, oldest first. -/
def forEachSegmentFile (action : SegId → WriteM Unit) : WriteM (Option SegId) := do
  let ids ← scan env
  ids.forM action
  return ids.getLast?

/-- Remove every one of this log's segment files. -/
def clear : WriteM Unit := do
  modify fun s => { s with current := none, recordBytesLeft := 0 }
  let _ ← forEachSegmentFile env (removeFile env)

/-- Begin writing a log, in a new session. -/
def LogWrite.new (args : NewArgs) : WriteM Unit := do
  if env.timerResolutionNs = 0 then fail .timerResolutionZero
  else if args.segSizeMax.toNat ≤ segmentFileHeaderLen + args.format.dataHeaderLen then
    fail .segSizeTooSmall
  else if args.format = .fixed 0 then fail .fixedLenMismatch
  else
    let clock ← Clock.new env args.sinceEpoch
    liftExcept (checkLogLocation env.isDir args.namePrefix args.nameSuffix)
    modify fun s => { s with
      namePrefix := args.namePrefix
      nameSuffix := args.nameSuffix
      segSizeMax := args.segSizeMax
      format := args.format
      timerResolution := env.timerResolutionNs
      clock := clock
      current := none
      sessionId := 0
      sequence := 0
      recordCount := 0
      recordBytesLeft := 0
      lastMeta :=
        match args.format with
        | .fixed _ => .fixed
        | .variableSimple => .variableSimple
        | .variableTsRc => .variableTsRc 0 0 }
    match ← forEachSegmentFile env (send env) with
    | some highest => advancePast env highest
    | none => pure ()
    startSession env

/-- Dropping a writer hands its last segment file over if it holds any data;
nothing it meets is reported. -/
def LogWrite.drop : WriteM Unit := do
  match (← get).current with
  | none => return ()
  | some current =>
      modify fun s => { s with current := none }
      if current.dataWritten = 0 then return ()
      else
        let _ ← attempt (flushFile env current.id)
        let _ ← attempt (send env current.id)

end Write

end Tcslog
