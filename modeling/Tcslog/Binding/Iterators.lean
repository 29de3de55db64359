import Tcslog.Read.Ending
import Tcslog.Read.Termination

/-!
# Walking a log from Rust and from Python

The library's iterator and the Python binding's read a log in loops of their
own.  Python's sees only the status that the C library makes of an error, and a
result filled in beside it.
-/

namespace Tcslog.Binding

open Lib.Program

/-! ## The C library -/

/-- What a call reported. -/
inductive TcslogStatus
  | ok
  | eof
  | sessionEnd
  | readTruncated
  | readOverflow
  | clockError
  | fixedLenMismatch
  | invalidHeader
  | invalidPathname
  | ioError
  | noSegmentFiles
  | pathDelimiterNotAllowed
  | payloadTooLarge
  | segSizeTooSmall
  | timerResolutionZero
  | versionMismatch
  | nullArgument
  | notUtf8
  | panic
  | invalidFormat
  | bufferTooSmall
  | nameTooLong
  | timestampOverflow
  deriving DecidableEq, Repr

/-- The value a status crosses into Python as. -/
def TcslogStatus.code : TcslogStatus → Nat
  | .ok => 0
  | .eof => 1
  | .sessionEnd => 2
  | .readTruncated => 3
  | .readOverflow => 4
  | .clockError => 5
  | .fixedLenMismatch => 6
  | .invalidHeader => 7
  | .invalidPathname => 8
  | .ioError => 9
  | .noSegmentFiles => 10
  | .pathDelimiterNotAllowed => 11
  | .payloadTooLarge => 12
  | .segSizeTooSmall => 13
  | .timerResolutionZero => 14
  | .versionMismatch => 15
  | .nullArgument => 16
  | .notUtf8 => 17
  | .panic => 18
  | .invalidFormat => 19
  | .bufferTooSmall => 20
  | .nameTooLong => 21
  | .timestampOverflow => 22

/-- Which metadata a record carried. -/
inductive TcslogMeta
  | fixed
  | variableSimple
  | variableTsRc
  deriving DecidableEq, Repr

/-- What a read produced. -/
structure TcslogReadResult where
  n : Nat
  metadata : TcslogMeta
  timestamp : UInt64
  recordCount : UInt64
  lost : Nat
  deriving DecidableEq, Repr

/-- A result holding nothing, which every call fills from. -/
def TcslogReadResult.empty : TcslogReadResult where
  n := 0
  metadata := .fixed
  timestamp := 0
  recordCount := 0
  lost := 0

/-- The status of an error, and the result with what the error carried. -/
def statusOf (e : LogError) (out : TcslogReadResult) : TcslogStatus × TcslogReadResult :=
  match e with
  | .clockError => (.clockError, out)
  | .eof => (.eof, out)
  | .fixedLenMismatch => (.fixedLenMismatch, out)
  | .invalidHeader => (.invalidHeader, out)
  | .invalidPathname => (.invalidPathname, out)
  | .ioError => (.ioError, out)
  | .nameTooLong => (.nameTooLong, out)
  | .noSegmentFiles => (.noSegmentFiles, out)
  | .pathDelimiterNotAllowed => (.pathDelimiterNotAllowed, out)
  | .payloadTooLarge => (.payloadTooLarge, out)
  | .readOverflow need => (.readOverflow, { out with n := need })
  | .readTruncated lost n => (.readTruncated, { out with lost := lost, n := n })
  | .segSizeTooSmall => (.segSizeTooSmall, out)
  | .sessionEnd => (.sessionEnd, out)
  | .timerResolutionZero => (.timerResolutionZero, out)
  | .timestampOverflow => (.timestampOverflow, out)
  | .versionMismatch => (.versionMismatch, out)

/-- Fill the metadata fields of a read result. -/
def setMeta (out : TcslogReadResult) (metadata : Meta) : TcslogReadResult :=
  match metadata with
  | .fixed => { out with metadata := .fixed }
  | .variableSimple => { out with metadata := .variableSimple }
  | .variableTsRc ts rc =>
      { out with metadata := .variableTsRc, timestamp := ts, recordCount := rc }

/-- Read the next record into a buffer of `cap` bytes.  A panic is caught before
`result` is filled. -/
def tcslogReadRecord (env : ReadEnv) (isNull : Bool) (cap : Nat) (result : TcslogReadResult)
    (s : ReadState) : TcslogStatus × TcslogReadResult × ReadState :=
  if isNull ∧ cap ≠ 0 then (.nullArgument, result, s)
  else
    match (read env cap).run s with
    | .ok r s' => (.ok, setMeta { TcslogReadResult.empty with n := r.n } r.metadata, s')
    | .error (.error e) s' =>
        let (status, out) := statusOf e .empty
        (status, if 0 < out.n then setMeta out s'.lastMeta else out, s')
    | .error _ s' => (.panic, result, s')

/-! ## The Python binding -/

/-- What one successful read produced. -/
structure PyReadResult where
  n : Nat
  metadata : TcslogMeta
  timestamp : UInt64
  recordCount : UInt64
  deriving DecidableEq, Repr

/-- The exception a read raises: one of the two that carry a result, the subclass
of `LogError` for a status, or `LogError` itself for one the module does not know. -/
inductive Raised
  | readOverflow (result : PyReadResult)
  | readTruncated (result : PyReadResult) (lost : Nat)
  | subclass (status : TcslogStatus)
  | unknown (code : Nat)
  deriving DecidableEq, Repr

/-- The statuses that have a subclass raised by the status alone. -/
def errors : List TcslogStatus :=
  [.clockError, .eof, .fixedLenMismatch, .invalidHeader, .invalidPathname, .ioError,
    .noSegmentFiles, .pathDelimiterNotAllowed, .payloadTooLarge, .segSizeTooSmall, .sessionEnd,
    .timerResolutionZero, .versionMismatch, .nullArgument, .notUtf8, .panic, .invalidFormat,
    .bufferTooSmall, .nameTooLong, .timestampOverflow]

/-- The exception for a status the library returned. -/
def raisedBy (code : Nat) : Raised :=
  match errors.find? fun status => status.code = code with
  | some status => .subclass status
  | none => .unknown code

def TcslogReadResult.value (r : TcslogReadResult) : PyReadResult :=
  ⟨r.n, r.metadata, r.timestamp, r.recordCount⟩

/-- A reader of the Python binding, with the result it hands to C for its whole
life. -/
structure PyReader where
  log : ReadState
  result : TcslogReadResult

/-- Read the next record into a buffer of `cap` bytes that is pinned. -/
def PyReader.read (env : ReadEnv) (cap : Nat) (reader : PyReader) :
    Except Raised PyReadResult × PyReader :=
  let (status, r, log) := tcslogReadRecord env (cap = 0) cap reader.result reader.log
  let raised : Except Raised PyReadResult :=
    if status.code = TcslogStatus.ok.code then .ok r.value
    else if status.code = TcslogStatus.readOverflow.code then .error (.readOverflow r.value)
    else if status.code = TcslogStatus.readTruncated.code then
      .error (.readTruncated r.value r.lost)
    else .error (raisedBy status.code)
  (raised, ⟨log, r⟩)

/-! ## The iterators -/

/-- The bytes of the buffer the iterators read into. -/
def iterBufLen : Nat :=
  64 * 1024

/-- The first bytes of the buffer a read was given. -/
def front (s : ReadState) (n : Nat) : Bytes :=
  s.dst.take n

/-- A record as the library's iterator gives it. -/
structure IterRecord where
  metadata : Meta
  payload : Bytes
  truncated : Bool
  deriving DecidableEq, Repr

/-- A record as Python's iterator yields it. -/
structure PyRecord where
  metadata : TcslogMeta
  payload : Bytes
  truncated : Bool
  timestamp : UInt64
  recordCount : UInt64
  deriving DecidableEq, Repr

/-- What one pass of an iterator's loop came to. -/
inductive Pass (ρ : Type)
  | yields (record : ρ)
  | again
  | ends
  | panics
  deriving DecidableEq, Repr

/-- What `LogReadIter::next` does about an error. -/
def LogReadIter.onError (e : LogError) (s : ReadState) : Pass IterRecord :=
  match e with
  | .readOverflow n => if 0 < n then .yields ⟨s.lastMeta, front s n, true⟩ else .ends
  | .readTruncated _ n => if 0 < n then .yields ⟨s.lastMeta, front s n, true⟩ else .again
  | .sessionEnd => .again
  | _ => .ends

/-- One pass of the loop of `LogReadIter::next`. -/
def LogReadIter.pass (env : ReadEnv) (s : ReadState) : Pass IterRecord × ReadState :=
  match (Tcslog.read env iterBufLen).run s with
  | .ok result s' => (.yields ⟨result.metadata, front s' result.n, false⟩, s')
  | .error (.error e) s' => (LogReadIter.onError e s', s')
  | .error _ s' => (.panics, s')

/-- One pass of the loop of `LogRead.iter` in Python. -/
def PyReader.pass (env : ReadEnv) (reader : PyReader) : Pass PyRecord × PyReader :=
  let (outcome, reader) := reader.read env iterBufLen
  let record (r : PyReadResult) (truncated : Bool) : Pass PyRecord :=
    .yields ⟨r.metadata, front reader.log r.n, truncated, r.timestamp, r.recordCount⟩
  (match outcome with
  | .ok r => record r false
  | .error (.readOverflow r) => if r.n = 0 then .again else record r true
  | .error (.readTruncated r _) => if r.n = 0 then .again else record r true
  | .error (.subclass .sessionEnd) => .again
  | .error _ => .ends, reader)

/-- How a walk ended. -/
inductive WalkEnd
  | ended
  | panicked
  deriving DecidableEq, Repr

structure Walk (ρ σ : Type) where
  records : List ρ
  ending : Option WalkEnd
  last : σ

/-- Make one pass after another, whether in one call of an iterator or in the
next, for as long as `passes` allow. -/
def walk {ρ σ : Type} (pass : σ → Pass ρ × σ) : Nat → σ → Walk ρ σ
  | 0, s => ⟨[], none, s⟩
  | passes + 1, s =>
      let s' := (pass s).2
      match (pass s).1 with
      | .yields record =>
          let rest := walk pass passes s'
          { rest with records := record :: rest.records }
      | .again => walk pass passes s'
      | .ends => ⟨[], some .ended, s'⟩
      | .panics => ⟨[], some .panicked, s'⟩

/-- The same record, as Python gives it. -/
def IterRecord.toPy (record : IterRecord) : PyRecord :=
  match record.metadata with
  | .fixed => ⟨.fixed, record.payload, record.truncated, 0, 0⟩
  | .variableSimple => ⟨.variableSimple, record.payload, record.truncated, 0, 0⟩
  | .variableTsRc ts rc => ⟨.variableTsRc, record.payload, record.truncated, ts, rc⟩

/-! ## Both walks agree -/

/-- What Python makes of a pass: a panic is a status, and an iterator ends at it. -/
def Pass.toPy : Pass IterRecord → Pass PyRecord
  | .yields record => .yields record.toPy
  | .again => .again
  | .ends => .ends
  | .panics => .ends

section Passes

variable (env : ReadEnv)

/-- A result filled from a record describes it. -/
theorem value_setMeta (out : TcslogReadResult) (metadata : Meta) (payload : Bytes) (truncated : Bool)
    (timestamp : out.timestamp = 0) (recordCount : out.recordCount = 0) :
    (⟨(setMeta out metadata).value.metadata, payload, truncated, (setMeta out metadata).value.timestamp,
      (setMeta out metadata).value.recordCount⟩ : PyRecord) =
      (⟨metadata, payload, truncated⟩ : IterRecord).toPy := by
  cases metadata with
  | fixed => simp [setMeta, TcslogReadResult.value, IterRecord.toPy, timestamp, recordCount]
  | variableSimple => simp [setMeta, TcslogReadResult.value, IterRecord.toPy, timestamp, recordCount]
  | variableTsRc ts rc => rfl

@[simp]
theorem setMeta_n (out : TcslogReadResult) (metadata : Meta) : (setMeta out metadata).n = out.n := by
  cases metadata <;> rfl

/-- A read returns the status and the result of an error, with the metadata of the
bytes that reached the buffer. -/
theorem tcslogReadRecord_of_error {cap : Nat} (result : TcslogReadResult) {s s' : ReadState} {e : LogError}
    (ran : (Tcslog.read env cap).run s = .error (.error e) s') :
    tcslogReadRecord env (cap = 0) cap result s = ((statusOf e .empty).1,
      if 0 < (statusOf e .empty).2.n then setMeta (statusOf e .empty).2 s'.lastMeta
      else (statusOf e .empty).2, s') := by
  rw [tcslogReadRecord, if_neg (by simp), ran]

theorem pass_of_ok {reader : PyReader} {r : ReadResult} {s' : ReadState}
    (ran : (Tcslog.read env iterBufLen).run reader.log = .ok r s') :
    (reader.pass env).1 = .yields (⟨r.metadata, front s' r.n, false⟩ : IterRecord).toPy ∧
      (reader.pass env).2.log = s' := by
  have whole : tcslogReadRecord env (iterBufLen = 0) iterBufLen reader.result reader.log =
      (.ok, setMeta { TcslogReadResult.empty with n := r.n } r.metadata, s') := by
    rw [tcslogReadRecord, if_neg (by simp), ran]
  rw [PyReader.pass, PyReader.read, whole, ← value_setMeta { TcslogReadResult.empty with n := r.n } _ _ _ rfl rfl]
  simp [TcslogReadResult.value]

/-- A failed read raises the exception for its status. -/
theorem pass_of_error {reader : PyReader} {e : LogError} {s' : ReadState}
    (ran : (Tcslog.read env iterBufLen).run reader.log = .error (.error e) s')
    (placed : e ≠ .readOverflow 0) :
    (reader.pass env).1 = (LogReadIter.onError e s').toPy ∧ (reader.pass env).2.log = s' := by
  rw [PyReader.pass, PyReader.read, tcslogReadRecord_of_error env _ ran]
  cases e with
  | readOverflow n =>
      have some : 0 < n := Nat.pos_of_ne_zero fun none => placed (by rw [none])
      have described := value_setMeta { TcslogReadResult.empty with n := n } s'.lastMeta (front s' n)
        true rfl rfl
      rw [LogReadIter.onError, if_pos some, Pass.toPy, ← described]
      simp [statusOf, TcslogStatus.code, TcslogReadResult.value, some, some.ne']
  | readTruncated lost n =>
      have described := value_setMeta { TcslogReadResult.empty with lost := lost, n := n } s'.lastMeta
        (front s' n) true rfl rfl
      rw [LogReadIter.onError]
      by_cases some : 0 < n
      · rw [if_pos some, Pass.toPy, ← described]
        simp [statusOf, TcslogStatus.code, TcslogReadResult.value, some, some.ne']
      · obtain rfl := Nat.eq_zero_of_not_pos some
        exact ⟨rfl, rfl⟩
  | _ => exact ⟨rfl, rfl⟩

/-- What one read gives Python, by what it gives the library's iterator. -/
theorem pass_agrees (reader : PyReader) :
    (reader.pass env).1 = (LogReadIter.pass env reader.log).1.toPy ∧
      (reader.pass env).2.log = (LogReadIter.pass env reader.log).2 := by
  rw [LogReadIter.pass]
  cases ran : (Tcslog.read env iterBufLen).run reader.log with
  | ok r s' => exact pass_of_ok env ran
  | error stop s' =>
      cases stop with
      | error e =>
          refine pass_of_error env ran fun empty => ?_
          have differs : 0 ≠ iterBufLen := by decide
          exact (read_overflows env differs _).of_error ran (by rw [empty])
      | panic =>
          rw [PyReader.pass, PyReader.read, tcslogReadRecord, if_neg (by simp), ran]
          exact ⟨rfl, rfl⟩
      | stuck =>
          rw [PyReader.pass, PyReader.read, tcslogReadRecord, if_neg (by simp), ran]
          exact ⟨rfl, rfl⟩

end Passes

/-- Both walks give the same records and end at the same point of the log. -/
structure Agree (rust : Walk IterRecord ReadState) (py : Walk PyRecord PyReader) : Prop where
  records : py.records = rust.records.map IterRecord.toPy
  ending : py.ending = rust.ending.map fun _ => .ended
  last : py.last.log = rust.last

section Walks

variable (env : ReadEnv)

theorem walks_agree (passes : Nat) (reader : PyReader) :
    Agree (walk (LogReadIter.pass env) passes reader.log) (walk (PyReader.pass env) passes reader) := by
  induction passes generalizing reader with
  | zero => exact ⟨rfl, rfl, rfl⟩
  | succ passes ih =>
      obtain ⟨pass, last⟩ := pass_agrees env reader
      have rest := ih (reader.pass env).2
      rw [last] at rest
      simp only [walk, pass]
      cases (LogReadIter.pass env reader.log).1 with
      | yields record => exact ⟨congrArg _ rest.records, rest.ending, rest.last⟩
      | again => exact rest
      | ends => exact ⟨rfl, rfl, last⟩
      | panics => exact ⟨rfl, rfl, last⟩

/-- A walk ends where a call reports the end of the log, or before. -/
theorem walk_ends {calls : Nat} {s : ReadState}
    (eof : .failed .eof [] ∈ (readCalls env (fun _ => iterBufLen) calls s).1)
    (noPanic : .panicked ∉ (readCalls env (fun _ => iterBufLen) calls s).1) :
    (walk (LogReadIter.pass env) calls s).ending = some .ended := by
  induction calls generalizing s with
  | zero => simp [readCalls] at eof
  | succ calls ih =>
      simp only [readCalls, List.mem_cons, not_or] at eof noPanic
      simp only [walk, LogReadIter.pass, readCall] at eof noPanic ⊢
      cases ran : (Tcslog.read env iterBufLen).run s with
      | ok r s' =>
          simp only [ran, reduceCtorEq, false_or] at eof noPanic ⊢
          exact ih eof noPanic.2
      | error stop s' =>
          cases stop with
          | panic => simp [ran] at noPanic
          | stuck => simp [ran] at noPanic
          | error e =>
              simp only [ran, Outcome.failed.injEq] at eof noPanic ⊢
              have later (other : e ≠ .eof) :
                  (walk (LogReadIter.pass env) calls s').ending = some .ended :=
                ih (eof.resolve_left fun same => other same.1.symm) noPanic.2
              cases e with
              | eof => rfl
              | sessionEnd => exact later (by simp)
              | readOverflow n =>
                  rw [LogReadIter.onError]
                  by_cases some : 0 < n
                  · rw [if_pos some]
                    exact later (by simp)
                  · rw [if_neg some]
              | readTruncated lost n =>
                  rw [LogReadIter.onError]
                  by_cases some : 0 < n
                  · rw [if_pos some]
                    exact later (by simp)
                  · rw [if_neg some]
                    exact later (by simp)
              | _ => rfl

end Walks

/-- A static directory is walked to its end by both iterators, whatever its files
hold, and in any surroundings each pass of one is a pass of the other. -/
theorem iterators_agree {dir view : Dir} (opens : dir.Opens view) {isDir : Bool}
    {namePrefix nameSuffix : Bytes} {log : LogRead}
    (isNew : LogRead.new isDir (some dir) namePrefix nameSuffix = .ok log) :
    (∃ passes, (walk (LogReadIter.pass (.still view noFault false)) passes log.begin).ending =
        some .ended) ∧
      ∀ env passes, Agree (walk (LogReadIter.pass env) passes log.begin)
        (walk (PyReader.pass env) passes ⟨log.begin, .empty⟩) := by
  refine ⟨?_, fun env passes => walks_agree env passes ⟨log.begin, .empty⟩⟩
  obtain ⟨outcomes, -, noEof, noPanic, runs⟩ := reading_ends opens isNew fun _ => iterBufLen
  have run := runs (outcomes.length + 1)
  rw [List.take_append, List.take_of_length_le (Nat.le_succ _), Nat.add_sub_cancel_left] at run
  refine ⟨outcomes.length + 1, walk_ends _ ?_ ?_⟩
  · rw [run]
    exact List.mem_append_right _ (by simp)
  · rw [run, List.mem_append, not_or]
    exact ⟨noPanic, by simp⟩

/-- A file that holds a record, and one of which nothing can be read. -/
def Sample.readable : Dir :=
  AList.insert (buildName [] 8 []) [1, 2, 3]
    (AList.insert (buildName [] 7 []) ((⟨7, 7, 100, 0, .variableTsRc, 0, 1⟩ : SegmentHeader).toBytes ++
      [2, 0, 0, 0, 9, 0, 0, 0, 0, 0, 0, 0, 1, 0, 0, 0, 0, 0, 8, 9]) ∅)

theorem iterators_agree_sample :
    (walk (LogReadIter.pass (.still Sample.readable noFault false)) 3 (Sample.reader [7, 8]).begin).records =
        [⟨.variableTsRc 9 1, [8, 9], false⟩] ∧
      (∃ passes, (walk (LogReadIter.pass (.still Sample.readable noFault false)) passes
        (Sample.reader [7, 8]).begin).ending = some .ended) ∧
      ∀ env passes, Agree (walk (LogReadIter.pass env) passes (Sample.reader [7, 8]).begin)
        (walk (PyReader.pass env) passes ⟨(Sample.reader [7, 8]).begin, .empty⟩) :=
  ⟨by decide +kernel, iterators_agree (fun present => present)
    (show LogRead.new true (some Sample.readable) [] [] = .ok (Sample.reader [7, 8]) by decide +kernel)⟩

end Tcslog.Binding
