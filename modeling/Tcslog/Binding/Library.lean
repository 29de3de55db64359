import Tcslog.Binding.Texts
import Tcslog.Read.Filled
import Tcslog.System.Clean
import Tcslog.System.RoundTrip
import Tcslog.Write.Answers

/-!
# Logs written and read from C

A program in C opens writers, makes calls of them and closes them, and reads the
log with a reader of its own.  A call that is refused for what it was given does
nothing, and what the calls that were answered Ok wrote is what is read.
-/

namespace Tcslog.Binding

open Lib.Program Lib.Cstring Trail

/-! ## The functions of the library -/

/-- Run an operation for its status: an error is one, and a panic is caught. -/
def guard {α : Type} (x : WriteM α) : WriteM (Except TcslogStatus α) := fun s =>
  match x.run s with
  | .ok a s' => .ok (.ok a) s'
  | .error (.error e) s' => .ok (.error (statusOnly e)) s'
  | .error .panic s' => .ok (.error .panic) s'
  | .error .stuck s' => .error .stuck s'

/-- The format that a tag names. -/
def formatOf (tag fixedLen : UInt32) : Except TcslogStatus Format :=
  if tag = 0 then .ok (.fixed fixedLen)
  else if tag = 1 then .ok .variableSimple
  else if tag = 2 then .ok .variableTsRc
  else .error .invalidFormat

/-- What a writer is opened with, and the reading of the real-time clock it takes. -/
structure OpenArgs where
  dir : Option Bytes
  namePrefix : Option Bytes
  nameSuffix : Option Bytes
  segSizeMax : UInt32
  formatTag : UInt32
  fixedLen : UInt32
  outIsNull : Bool
  sinceEpoch : Option Nat

/-- What the library is given of the arguments: the first that is refused decides. -/
def OpenArgs.parse (args : OpenArgs) : Except TcslogStatus NewArgs := do
  let _ ← asStr args.dir
  let namePrefix ← asStr args.namePrefix
  let nameSuffix ← asStr args.nameSuffix
  let format ← formatOf args.formatTag args.fixedLen
  return { namePrefix, nameSuffix, segSizeMax := args.segSizeMax, format, sinceEpoch := args.sinceEpoch }

section Functions

variable (env : WriteEnv)

/-- Open a writer.  Its handle is null unless this is Ok. -/
def tcslogWriteOpen (args : OpenArgs) : WriteM (Except TcslogStatus Unit) :=
  if args.outIsNull then return .error .nullArgument
  else
    match args.parse with
    | .error status => return .error status
    | .ok newArgs => guard (LogWrite.new env newArgs)

/-- Write one record of `len` bytes, given the bytes from `data` on: none for null. -/
def tcslogWriteRecord (isNull : Bool) (data : Option Bytes) (len : Nat) : WriteM (Except TcslogStatus Nat) :=
  if isNull ∨ data = none ∧ len ≠ 0 then return .error .nullArgument
  else if u32Max < len then return .error .payloadTooLarge
  else guard (write env ((data.getD []).take len))

def tcslogWriteFlush (isNull : Bool) : WriteM (Except TcslogStatus Unit) :=
  if isNull then return .error .nullArgument else guard (flush env)

def tcslogWriteClear (isNull : Bool) : WriteM (Except TcslogStatus Unit) :=
  if isNull then return .error .nullArgument else guard (clear env)

/-- Close a writer.  What dropping it meets is not reported. -/
def tcslogWriteClose (isNull : Bool) : WriteM Unit :=
  if isNull then return ()
  else do
    let _ ← guard (LogWrite.drop env)

end Functions

/-- Open a reader in a directory of which `listed` is what is listed. -/
def tcslogReadOpen (isDir : Bool) (listed : Option Dir) (dir namePrefix nameSuffix : Option Bytes)
    (outIsNull : Bool) : Except TcslogStatus LogRead :=
  if outIsNull then .error .nullArgument
  else do
    let _ ← asStr dir
    let namePrefix ← asStr namePrefix
    let nameSuffix ← asStr nameSuffix
    (LogRead.new isDir listed namePrefix nameSuffix).mapError statusOnly

/-! ## Programs that write -/

/-- A call of an open writer, with what it is given. -/
inductive CCall
  | record (data : Option Bytes) (len : Nat)
  | flush
  | clear
  deriving DecidableEq, Repr

/-- A writer from its opening to its closing, with the calls in between, which are
made of a null handle if it was not opened. -/
structure CLife where
  args : OpenArgs
  calls : List CCall

/-- The status that is returned for a result. -/
def statusIn {α : Type} : Except TcslogStatus α → TcslogStatus
  | .ok _ => .ok
  | .error status => status

section Programs

variable (env : WriteEnv)

/-- Make a call, for its status. -/
def CCall.make (isNull : Bool) : CCall → WriteM TcslogStatus
  | .record data len => statusIn <$> tcslogWriteRecord env isNull data len
  | .flush => statusIn <$> tcslogWriteFlush env isNull
  | .clear => statusIn <$> tcslogWriteClear env isNull

def makeCalls (isNull : Bool) : List CCall → WriteM (List TcslogStatus)
  | [] => return []
  | call :: calls => do
      let status ← call.make env isNull
      let statuses ← makeCalls isNull calls
      return status :: statuses

/-- Open a writer, make its calls and close it.  The first status is the opening's. -/
def CLife.live (life : CLife) : WriteM (List TcslogStatus) := do
  let opened ← statusIn <$> tcslogWriteOpen env life.args
  let isNull : Bool := opened ≠ .ok
  let statuses ← makeCalls env isNull life.calls
  tcslogWriteClose env isNull
  return opened :: statuses

/-- One writer after another. -/
def liveAll : List CLife → WriteM (List (List TcslogStatus))
  | [] => return []
  | life :: lives => do
      let statuses ← life.live env
      let more ← liveAll lives
      return statuses :: more

end Programs

/-! ## Programs that read -/

/-- What a call of the reader gave a program: the status, the result, and the front
of the buffer that the result speaks of. -/
structure Answer where
  status : TcslogStatus
  result : TcslogReadResult
  bytes : Bytes
  deriving DecidableEq, Repr

/-- So many calls, the `i`-th with a buffer of `caps i` bytes.  The result of one is
handed to the next. -/
def readRecords (env : ReadEnv) (caps : Nat → Nat) : Nat → TcslogReadResult → ReadState → List Answer
  | 0, _, _ => []
  | calls + 1, result, s =>
      let (status, out, s') := tcslogReadRecord env false (caps 0) result s
      ⟨status, out, front s' out.n⟩ :: readRecords env (fun i => caps (i + 1)) calls out s'

/-- What a program is given for a record, for an end of a session and for the end of
a log. -/
def answerTo : Outcome → Answer
  | .record payload metadata =>
      ⟨.ok, setMeta { TcslogReadResult.empty with n := payload.length } metadata, payload⟩
  | .failed e bytes => ⟨statusOnly e, (statusOf e .empty).2, bytes⟩
  | .panicked => ⟨.panic, .empty, []⟩

/-! ## What a program stored -/

/-- The statuses of calls that are refused for what they were given. -/
def TcslogStatus.Refuses (status : TcslogStatus) : Prop :=
  status ∈ [TcslogStatus.nullArgument, .notUtf8, .invalidFormat, .timerResolutionZero, .segSizeTooSmall,
    .fixedLenMismatch, .payloadTooLarge]

instance (status : TcslogStatus) : Decidable status.Refuses :=
  inferInstanceAs (Decidable (_ ∈ _))

/-- A call was answered Ok, or was refused. -/
def TcslogStatus.Served (status : TcslogStatus) : Prop :=
  status = .ok ∨ status.Refuses

instance (status : TcslogStatus) : Decidable status.Served :=
  inferInstanceAs (Decidable (_ ∨ _))

/-- The call that is made of the library. -/
def CCall.toCall : CCall → Call
  | .record data len => .write ((data.getD []).take len)
  | .flush => .flush
  | .clear => .clear

/-- What is kept after a call that was answered: calls that were not answered Ok
did nothing. -/
def CCall.keep (kept : List Bytes) (answered : CCall × TcslogStatus) : List Bytes :=
  if answered.2 = .ok then answered.1.toCall.keep kept else kept

/-- What is kept after a writer, whose first answer is its opening's. -/
def CLife.keep (kept : List Bytes) (answered : CLife × List TcslogStatus) : List Bytes :=
  (answered.1.calls.zip answered.2.tail).foldl CCall.keep kept

/-- The payloads that a program stored and did not clear. -/
def stored (lives : List CLife) (answers : List (List TcslogStatus)) : List Bytes :=
  (lives.zip answers).foldl CLife.keep []

/-- The calls of a writer that were answered Ok, as calls of the library. -/
def callsMade (answered : List (CCall × TcslogStatus)) : List Call :=
  (answered.filter fun answer => answer.2 = .ok).map fun answer => answer.1.toCall

/-- The writer of the library that a program had, if it was opened. -/
def CLife.made (answered : CLife × List TcslogStatus) : List Life :=
  match answered.1.args.parse with
  | .error _ => []
  | .ok args =>
      if answered.2.head? = some .ok then [⟨args, callsMade (answered.1.calls.zip answered.2.tail)⟩] else []

/-- The writers of the library that a program had. -/
def livesMade (lives : List CLife) (answers : List (List TcslogStatus)) : List Life :=
  (lives.zip answers).flatMap CLife.made

theorem formatOf_error {tag fixedLen : UInt32} {status : TcslogStatus}
    (refused : formatOf tag fixedLen = .error status) : status = .invalidFormat := by
  rw [formatOf] at refused
  split at refused
  · contradiction
  · split at refused
    · contradiction
    · split at refused
      · contradiction
      · exact (Except.error.inj refused).symm

/-- The strings and formats that are refused. -/
theorem parse_refuses {args : OpenArgs} {status : TcslogStatus} (refused : args.parse = .error status) :
    status.Refuses := by
  have strings {p : Option Bytes} {status : TcslogStatus} (refused : asStr p = .error status) :
      status.Refuses := by
    cases p with
    | none =>
        obtain rfl := Except.error.inj refused
        decide
    | some bytes =>
        rw [asStr] at refused
        split at refused
        · contradiction
        · obtain rfl := Except.error.inj refused
          decide
  rw [OpenArgs.parse] at refused
  cases dir : asStr args.dir with
  | error e =>
      rw [dir] at refused
      obtain rfl := Except.error.inj refused
      exact strings dir
  | ok _ =>
      cases front : asStr args.namePrefix with
      | error e =>
          rw [dir, front] at refused
          obtain rfl := Except.error.inj refused
          exact strings front
      | ok namePrefix =>
          cases back : asStr args.nameSuffix with
          | error e =>
              rw [dir, front, back] at refused
              obtain rfl := Except.error.inj refused
              exact strings back
          | ok nameSuffix =>
              cases named : formatOf args.formatTag args.fixedLen with
              | ok format =>
                  rw [dir, front, back, named] at refused
                  contradiction
              | error e =>
                  rw [dir, front, back, named] at refused
                  obtain rfl := Except.error.inj refused
                  rw [formatOf_error named]
                  decide

section Answers

variable {env : WriteEnv} {s : WriteState} {α : Type} {x : WriteM α} {trail : Trail}

theorem meets_guard {post : Except TcslogStatus α → WriteState → Prop}
    (meets : Meets x s (fun a t => post (.ok a) t) fun stop t =>
      (∀ e, stop = .error e → post (.error (statusOnly e)) t) ∧ (stop = .panic → post (.error .panic) t)) :
    Meets (guard x) s post fun _ _ => True := by
  rw [Meets, EStateM.run, guard]
  cases ran : x.run s with
  | ok a t => exact meets.of_ok ran
  | error stop t =>
      obtain ⟨error, panic⟩ := meets.of_error ran
      cases stop with
      | error e => exact error e rfl
      | panic => exact panic rfl
      | stuck => trivial

theorem statusOnly_ne_ok (e : LogError) : statusOnly e ≠ .ok := by
  cases e <;> exact fun same => TcslogStatus.noConfusion same

/-- The errors that refuse are those whose statuses do. -/
theorem statusOnly_refuses {e : LogError} : (statusOnly e).Refuses ↔ e.Refuses := by
  cases e <;> simp [statusOnly, statusOf, TcslogStatus.Refuses, LogError.Refuses]

/-- What came of a call: it returned, or it was refused and did nothing, or it
failed. -/
inductive Came (post : WriteState → Prop) (s : WriteState) : TcslogStatus → WriteState → Prop
  | returned {t : WriteState} (returns : post t) : Came post s .ok t
  | refused {status : TcslogStatus} (refuses : status.Refuses) : Came post s status s
  | failed {status : TcslogStatus} {t : WriteState} (notOk : status ≠ .ok) (other : ¬ status.Refuses) :
      Came post s status t

theorem meets_came {post : WriteState → Prop} (returns : ∀ a t, x.run s = .ok a t → post t)
    (refused : ∀ e t, e.Refuses → x.run s = .error (.error e) t → t = s) :
    Meets (statusIn <$> guard x) s (fun status t => Came post s status t) fun _ _ => True := by
  rw [meets_map]
  refine meets_guard (meets_run.imp (fun a t ran => .returned (returns a t ran)) fun stop t ran => ⟨?_, ?_⟩)
  · rintro e rfl
    by_cases refuses : e.Refuses
    · obtain rfl := refused e t refuses ran
      exact .refused (statusOnly_refuses.mpr refuses)
    · exact .failed (statusOnly_ne_ok e) (refuses ∘ statusOnly_refuses.mp)
  · rintro rfl
    exact .failed (show TcslogStatus.panic ≠ .ok by decide) (show ¬ TcslogStatus.panic.Refuses by decide)

/-- A status without a call of the library. -/
theorem meets_statusIn {post : WriteState → Prop} {status : TcslogStatus} (refuses : status.Refuses) :
    Meets (statusIn <$> (return .error status : WriteM (Except TcslogStatus α))) s
      (fun status t => Came post s status t) fun _ _ => True :=
  .refused refuses

/-- A call of an open writer. -/
theorem make_came (call : CCall) (trail : Trail) :
    Meets (call.make env false) trail.state
      (fun status t => Came (trail.Returns call.toCall · (trail.call env call.toCall)) trail.state status t)
      fun _ _ => True := by
  cases call with
  | record data len =>
      rw [CCall.make, tcslogWriteRecord]
      split
      · exact meets_statusIn (by decide)
      · split
        · exact meets_statusIn (by decide)
        · exact meets_came (fun total t ran => returns_write ran) fun e t refuses => write_refused refuses
  | flush =>
      exact meets_came (fun _ t ran => returns_flush ran) fun e t refuses ran =>
        absurd rfl ((avoids_flush env refuses _).of_error ran)
  | clear =>
      exact meets_came (fun _ t ran => returns_clear ran) fun e t refuses ran =>
        absurd rfl ((avoids_clear env refuses _).of_error ran)

/-- A call of a null handle does nothing. -/
theorem make_null (call : CCall) :
    Meets (call.make env true) s (fun status t => status = .nullArgument ∧ t = s) fun _ _ => True := by
  cases call with
  | record data len =>
      rw [CCall.make, tcslogWriteRecord, if_pos (.inl rfl)]
      exact ⟨rfl, rfl⟩
  | flush => exact ⟨rfl, rfl⟩
  | clear => exact ⟨rfl, rfl⟩

theorem TcslogStatus.Refuses.ne_ok {status : TcslogStatus} (refuses : status.Refuses) : status ≠ .ok := by
  rintro rfl
  exact absurd refuses (by decide)

/-- The calls of an open writer that were answered Ok are calls of the library that
returned, and the others, if all of them were refused, are none. -/
theorem makeCalls_served (calls : List CCall) (trail : Trail) :
    Meets (makeCalls env false calls) trail.state
      (fun statuses t => (∀ status ∈ statuses, status.Served) →
        let made := (callsMade (calls.zip statuses)).foldl (call env) trail
        made.state = t ∧ (trail.Clean → made.Clean) ∧
          made.payloads = (calls.zip statuses).foldl CCall.keep trail.payloads)
      fun _ _ => True := by
  induction calls generalizing trail with
  | nil => exact fun _ => ⟨rfl, id, rfl⟩
  | cons c calls ih =>
      simp only [makeCalls, meets_bind, meets_pure, List.forall_mem_cons, List.zip_cons_cons, List.foldl_cons]
      refine (make_came c trail).imp (fun status u came => ?_) fun _ _ _ => trivial
      cases came with
      | returned returns =>
          obtain ⟨rfl, deeds, payloads⟩ := returns
          refine (ih (trail.call env c.toCall)).imp (fun statuses t rest served => ?_) fun _ _ _ => trivial
          obtain ⟨state, clean, kept⟩ := rest served.2
          refine ⟨state, fun before => clean ?_, ?_⟩
          · intro deed mem
            rw [deeds] at mem
            rcases List.mem_append.mp mem with mem | mem
            · exact before deed mem
            · obtain rfl := List.mem_singleton.mp mem
              rfl
          · rw [CCall.keep, if_pos rfl, ← payloads]
            exact kept
      | refused refuses =>
          refine (ih trail).imp (fun statuses t rest served => ?_) fun _ _ _ => trivial
          have none (answered : List (CCall × TcslogStatus)) :
              callsMade ((c, status) :: answered) = callsMade answered := by
            rw [callsMade, List.filter_cons_of_neg (by simpa using refuses.ne_ok)]
            rfl
          rw [none, CCall.keep, if_neg refuses.ne_ok]
          exact rest served.2
      | failed notOk other =>
          exact meets_true.imp (fun _ _ _ served => absurd served.1 (not_or.mpr ⟨notOk, other⟩))
            fun _ _ _ => trivial

/-- Calls of a null handle do nothing. -/
theorem makeCalls_null (calls : List CCall) (s : WriteState) (kept : List Bytes) :
    Meets (makeCalls env true calls) s
      (fun statuses t => t = s ∧ (calls.zip statuses).foldl CCall.keep kept = kept) fun _ _ => True := by
  induction calls with
  | nil => exact ⟨rfl, rfl⟩
  | cons c calls ih =>
      simp only [makeCalls, meets_bind, meets_pure, List.zip_cons_cons, List.foldl_cons]
      refine (make_null c).imp (fun status u came => ?_) fun _ _ _ => trivial
      obtain ⟨rfl, rfl⟩ := came
      rw [CCall.keep, if_neg (show TcslogStatus.nullArgument ≠ .ok by decide)]
      exact ih

/-- The opening of a writer. -/
theorem open_came (args : OpenArgs) (s : WriteState) :
    Meets (statusIn <$> tcslogWriteOpen env args) s
      (fun status t => Came (fun t => ∃ newArgs, args.parse = .ok newArgs ∧
        (LogWrite.new env newArgs).run s = .ok () t) s status t) fun _ _ => True := by
  rw [tcslogWriteOpen]
  split
  · exact meets_statusIn (by decide)
  · cases parsed : args.parse with
    | error status => exact meets_statusIn (parse_refuses parsed)
    | ok newArgs =>
        exact meets_came (fun _ t ran => ⟨newArgs, rfl, ran⟩) fun e t refuses => new_refused refuses

theorem close_spec (s : WriteState) :
    Meets (tcslogWriteClose env false) s (fun _ t => t = (ending (LogWrite.drop env) s).2) fun _ _ => True := by
  simp only [tcslogWriteClose, Bool.false_eq_true, if_false, meets_bind, meets_pure]
  refine meets_guard (meets_run.imp (fun a t ran => ?_) fun stop t ran => ⟨fun e _ => ?_, fun _ => ?_⟩)
  · rw [ending_of_ok ran]
  · rw [ending_of_error ran]
  · rw [ending_of_error ran]

/-- A writer whose calls were served did what one of the library does that makes the
calls that were answered Ok, or it was not opened. -/
theorem live_served (life : CLife) (trail : Trail) :
    Meets (life.live env) trail.state
      (fun statuses t => (∀ status ∈ statuses, status.Served) →
        let made := (CLife.made (life, statuses)).foldl (live env) trail
        made.state = t ∧ (trail.Clean → made.Clean) ∧
          made.payloads = CLife.keep trail.payloads (life, statuses))
      fun _ _ => True := by
  simp only [CLife.live, meets_bind, meets_pure, List.forall_mem_cons, CLife.keep, List.tail_cons]
  refine (open_came life.args trail.state).imp (fun opened u came => ?_) fun _ _ _ => trivial
  cases came with
  | returned ran =>
      obtain ⟨newArgs, parsed, ran⟩ := ran
      let begun : Trail := ⟨u, trail.deeds ++ [.opened newArgs none], trail.journal.begin u⟩
      refine (makeCalls_served life.calls begun).imp (fun statuses v made => ?_) fun _ _ _ => trivial
      refine (close_spec v).imp (fun _ t closed served => ?_) fun _ _ _ => trivial
      obtain ⟨rfl, clean, kept⟩ := made served.2
      let calls := callsMade (life.calls.zip statuses)
      have isMade : CLife.made (life, .ok :: statuses) = [⟨newArgs, calls⟩] := by
        rw [CLife.made, parsed]
        rfl
      have opened : (LogWrite.new env (⟨newArgs, calls⟩ : Life).args).run trail.state = .ok () u := ran
      have lived : trail.live env ⟨newArgs, calls⟩ = { calls.foldl (call env) begun with state := t } := by
        rw [live_of_ok opened, closed]
        rfl
      rw [isMade, List.foldl_cons, List.foldl_nil, lived]
      refine ⟨rfl, fun before => clean fun deed mem => ?_, ?_⟩
      · rcases List.mem_append.mp mem with mem | mem
        · exact before deed mem
        · obtain rfl := List.mem_singleton.mp mem
          rfl
      · have same : begun.payloads = trail.payloads := congrArg (·.map Record.payload) Journal.records_begin
        rw [← same]
        exact kept
  | refused refuses =>
      have isNull : decide (opened ≠ .ok) = true := decide_eq_true refuses.ne_ok
      rw [isNull]
      refine (makeCalls_null life.calls trail.state trail.payloads).imp (fun statuses v none => ?_)
        fun _ _ _ => trivial
      obtain ⟨rfl, kept⟩ := none
      have isMade : CLife.made (life, opened :: statuses) = [] := by
        rw [CLife.made]
        split
        · rfl
        · exact if_neg (by simpa using refuses.ne_ok)
      rw [isMade]
      exact fun _ => ⟨rfl, id, kept.symm⟩
  | failed notOk other =>
      exact meets_true.imp (fun _ _ _ => meets_true.imp (fun _ _ _ served =>
        absurd served.1 (not_or.mpr ⟨notOk, other⟩)) fun _ _ _ => trivial) fun _ _ _ => trivial

theorem liveAll_served (lives : List CLife) (trail : Trail) :
    Meets (liveAll env lives) trail.state
      (fun answers t => (∀ statuses ∈ answers, ∀ status ∈ statuses, status.Served) →
        let made := (livesMade lives answers).foldl (live env) trail
        made.state = t ∧ (trail.Clean → made.Clean) ∧
          made.payloads = (lives.zip answers).foldl CLife.keep trail.payloads)
      fun _ _ => True := by
  induction lives generalizing trail with
  | nil => exact fun _ => ⟨rfl, id, rfl⟩
  | cons life lives ih =>
      simp only [liveAll, meets_bind, meets_pure, List.forall_mem_cons, List.zip_cons_cons, List.foldl_cons]
      refine (live_served life trail).imp (fun statuses u first => ?_) fun _ _ _ => trivial
      by_cases here : ∀ status ∈ statuses, status.Served
      · obtain ⟨rfl, clean, kept⟩ := first here
        refine (ih _).imp (fun answers t rest served => ?_) fun _ _ _ => trivial
        obtain ⟨state, cleanOn, keptOn⟩ := rest served.2
        rw [livesMade, List.zip_cons_cons, List.flatMap_cons, List.foldl_append, ← kept]
        exact ⟨state, cleanOn ∘ clean, keptOn⟩
      · exact meets_true.imp (fun _ _ _ served => absurd served.1 here) fun _ _ _ => trivial

/-- The writers of the library are opened with what the program's were. -/
theorem parsed_of_made {lives : List CLife} {answers : List (List TcslogStatus)} {life : Life}
    (made : life ∈ livesMade lives answers) : ∃ clife ∈ lives, clife.args.parse = .ok life.args := by
  obtain ⟨⟨clife, statuses⟩, mem, isMade⟩ := List.mem_flatMap.mp made
  refine ⟨clife, (List.of_mem_zip mem).1, ?_⟩
  rw [CLife.made] at isMade
  split at isMade
  · simp at isMade
  next args parsed =>
    split at isMade
    · obtain rfl := List.mem_singleton.mp isMade
      exact parsed
    · simp at isMade

end Answers

/-! ## What a program reads -/

section Reading

variable {env : ReadEnv} {caps : Nat → Nat} {cap : Nat} {result : TcslogReadResult} {s : ReadState}
  {outcomes : List Outcome} {last : ReadState}

/-- A reader that was opened is one of the library. -/
theorem new_of_readOpen {isDir outIsNull : Bool} {listed : Option Dir} {path namePrefix nameSuffix : Option Bytes}
    {log : LogRead} {p q : Bytes}
    (opened : tcslogReadOpen isDir listed path namePrefix nameSuffix outIsNull = .ok log)
    (isFront : asStr namePrefix = .ok p) (isBack : asStr nameSuffix = .ok q) :
    LogRead.new isDir listed p q = .ok log := by
  rw [tcslogReadOpen] at opened
  split at opened
  · contradiction
  · cases isPath : asStr path with
    | error e =>
        rw [isPath] at opened
        contradiction
    | ok _ =>
        rw [isPath, isFront, isBack] at opened
        change (LogRead.new isDir listed p q).mapError statusOnly = .ok log at opened
        cases made : LogRead.new isDir listed p q with
        | error e =>
            rw [made] at opened
            contradiction
        | ok log' =>
            rw [made] at opened
            exact congrArg Except.ok (Except.ok.inj opened)

/-- A call that reads a record, or that comes to an end, is answered so. -/
theorem answers_call (told : (readCall env cap s).1.isRecord = true ∨
    (readCall env cap s).1 = .failed .sessionEnd [] ∨ (readCall env cap s).1 = .failed .eof [])
    (result : TcslogReadResult) :
    ∃ out, tcslogReadRecord env false cap result s =
        ((answerTo (readCall env cap s).1).status, out, (readCall env cap s).2) ∧
      answerTo (readCall env cap s).1 =
        ⟨(answerTo (readCall env cap s).1).status, out, front (readCall env cap s).2 out.n⟩ := by
  rw [tcslogReadRecord, if_neg (by simp)]
  cases ran : (Tcslog.read env cap).run s with
  | ok r s' =>
      have called : readCall env cap s = (.record (s'.dst.take r.n) r.metadata, s') := by rw [readCall, ran]
      have whole : (s'.dst.take r.n).length = r.n := by
        rw [List.length_take, (read_length env cap s).of_ok ran, Nat.min_self]
      rw [called]
      refine ⟨_, rfl, ?_⟩
      rw [answerTo, whole, setMeta_n]
      rfl
  | error stop s' =>
      cases stop with
      | error e =>
          have called : readCall env cap s = (.failed e (s'.dst.take e.placed), s') := by rw [readCall, ran]
          rw [called] at told ⊢
          rcases told with isRecord | isEnd | isEof
          · contradiction
          · obtain ⟨rfl, _⟩ := Outcome.failed.inj isEnd
            exact ⟨_, rfl, rfl⟩
          · obtain ⟨rfl, _⟩ := Outcome.failed.inj isEof
            exact ⟨_, rfl, rfl⟩
      | panic =>
          have called : readCall env cap s = (.panicked, s') := by rw [readCall, ran]
          simp [called, Outcome.isRecord] at told
      | stuck =>
          have called : readCall env cap s = (.panicked, s') := by rw [readCall, ran]
          simp [called, Outcome.isRecord] at told

/-- Calls that read records or come to ends are answered one by one. -/
theorem answers_calls {calls : Nat} (told : ∀ outcome ∈ (readCalls env caps calls s).1,
    outcome.isRecord = true ∨ outcome = .failed .sessionEnd [] ∨ outcome = .failed .eof []) :
    readRecords env caps calls result s = (readCalls env caps calls s).1.map answerTo := by
  induction calls generalizing caps result s with
  | zero => rfl
  | succ calls ih =>
      simp only [readCalls, List.forall_mem_cons] at told
      obtain ⟨out, answered, isAnswer⟩ := answers_call told.1 result
      simp only [readRecords, readCalls, answered, List.map_cons]
      rw [← isAnswer, ih told.2]

/-- Reading a log to its end, a program is answered what the outcomes are. -/
theorem answers_toEof (reads : ReadsToEof env caps s outcomes last) (clean : Clean outcomes) :
    readRecords env caps (outcomes.length + 1) result s = (outcomes ++ [Outcome.failed .eof []]).map answerTo := by
  have ran : (readCalls env caps (outcomes.length + 1) s).1 = outcomes ++ [Outcome.failed .eof []] :=
    congrArg Prod.fst reads.run
  rw [← ran]
  refine answers_calls fun outcome mem => ?_
  rw [ran] at mem
  rcases List.mem_append.mp mem with before | isLast
  · exact (clean outcome before).imp_right .inl
  · exact .inr (.inr (List.mem_singleton.mp isLast))

end Reading

/-- A program in C whose calls were all answered Ok, or were refused for what they
were given, did what the calls answered Ok do, and left a log that it reads back:
the payloads of the calls that were answered Ok since the last clear, in the order
they were written, with one end of a session between two of its sessions. -/
theorem c_program_read {env : WriteEnv} {dir : Dir} {lives : List CLife} {namePrefix nameSuffix : Bytes}
    {answers : List (List TcslogStatus)} {u : WriteState} (leaves : env.Leaves)
    (empty : ∀ id, dir.files namePrefix nameSuffix id = none)
    (names : ∀ life ∈ lives, ∀ args, life.args.parse = .ok args →
      args.namePrefix = namePrefix ∧ args.nameSuffix = nameSuffix)
    (ran : (liveAll env lives).run (start dir).state = .ok answers u)
    (served : ∀ statuses ∈ answers, ∀ status ∈ statuses, status.Served)
    {isDir overflowChecks : Bool} {path front back : Option Bytes} (isFront : asStr front = .ok namePrefix)
    (isBack : asStr back = .ok nameSuffix) {log : LogRead}
    (opened : tcslogReadOpen isDir (some u.dir) path front back false = .ok log) {caps : Nat → Nat}
    (ample : ∀ n, ∀ payload ∈ stored lives answers, payload.length ≤ caps n) (result : TcslogReadResult) :
    let program := Trail.run env dir (livesMade lives answers)
    let sessions := program.journal.sessions.map Session.records
    program.state = u ∧ sessions.flatten.map Record.payload = stored lives answers ∧
      readRecords (.still u.dir noFault overflowChecks) caps ((script sessions).length + 1) result log.begin =
        (script sessions ++ [Outcome.failed .eof []]).map answerTo := by
  obtain ⟨rfl, clean, isKept⟩ := (liveAll_served lives (start dir)).of_ok ran served
  have kept : (Trail.run env dir (livesMade lives answers)).journal.records.map Record.payload =
      stored lives answers := isKept
  have begins : (start dir).Clean := fun _ mem => absurd mem List.not_mem_nil
  have named : ∀ life ∈ livesMade lives answers,
      life.args.namePrefix = namePrefix ∧ life.args.nameSuffix = nameSuffix := by
    intro life mem
    obtain ⟨clife, memLives, isParsed⟩ := parsed_of_made mem
    exact names clife memLives _ isParsed
  obtain ⟨L, left⟩ := Trail.run_left leaves empty named (clean begins)
  have isNew : LogRead.new isDir (some (Trail.run env dir (livesMade lives answers)).state.dir) namePrefix
      nameSuffix = .ok log :=
    new_of_readOpen opened isFront isBack
  have takes : Ample caps (Trail.run env dir (livesMade lives answers)).journal.records := fun n record mem =>
    ample n _ (kept ▸ List.mem_map_of_mem mem)
  obtain ⟨last, reads⟩ := left.reads overflowChecks isNew takes
  refine ⟨rfl, ?_, answers_toEof reads (clean_script _)⟩
  rw [← List.flatMap_def]
  exact kept

namespace Sample

/-- A writer of records of any length, in files of 60 bytes. -/
def args : OpenArgs where
  dir := some [0x2e, 0]
  namePrefix := some [0]
  nameSuffix := some [0]
  segSizeMax := 60
  formatTag := 1
  fixedLen := 0
  outIsNull := false
  sinceEpoch := some 1000

/-- Writers that are opened and writers that are refused, and calls of both. -/
def program : List CLife :=
  [⟨{ args with namePrefix := none }, [.record (some [1]) 1]⟩,
    ⟨args, [.record (some [9]) 1, .clear, .record (some [1, 2]) 2, .record none 1, .record none 0]⟩,
    ⟨{ args with segSizeMax := 3 }, [.clear]⟩,
    ⟨{ args with formatTag := 0, fixedLen := 3 }, [.record (some [3, 4, 5, 6]) 3, .record (some [1]) 1]⟩]

def answers : List (List TcslogStatus) :=
  [[.nullArgument, .nullArgument], [.ok, .ok, .ok, .ok, .nullArgument, .ok], [.segSizeTooSmall, .nullArgument],
    [.ok, .ok, .fixedLenMismatch]]

/-- What the program left. -/
def left : WriteState :=
  (ending (liveAll Tcslog.Sample.env program) (start ∅).state).2

theorem program_names : ∀ life ∈ program, ∀ args, life.args.parse = .ok args →
    args.namePrefix = [] ∧ args.nameSuffix = [] := by
  have named : ∀ life ∈ program, (life.args.parse.toOption.all fun args =>
      args.namePrefix = [] ∧ args.nameSuffix = []) = true := by decide +kernel
  intro life mem args parsed
  simpa [parsed, Except.toOption] using named life mem

theorem program_ran : (liveAll Tcslog.Sample.env program).run (start ∅).state = .ok answers left :=
  run_of_ending (by decide +kernel)

end Sample

theorem c_program_read_sample :
    let program := Trail.run Tcslog.Sample.env ∅ (livesMade Sample.program Sample.answers)
    let sessions := program.journal.sessions.map Session.records
    sessions.map (·.map Record.payload) = [[[1, 2], []], [[3, 4, 5]]] ∧ program.state = Sample.left ∧
      sessions.flatten.map Record.payload = [[1, 2], [], [3, 4, 5]] ∧
      readRecords (.still Sample.left.dir noFault true) (fun _ => 3) ((script sessions).length + 1) .empty
          (Tcslog.Sample.reader (scanSegmentIds Sample.left.dir [] [])).begin =
        (script sessions ++ [Outcome.failed .eof []]).map answerTo := by
  have isStored : stored Sample.program Sample.answers = [[1, 2], [], [3, 4, 5]] := by decide
  rw [← isStored]
  refine ⟨by decide +kernel, ?_⟩
  exact c_program_read (fun _ => rfl) (fun _ => rfl) Sample.program_names Sample.program_ran (by decide)
    (show asStr (some [0]) = .ok [] by decide +kernel) (show asStr (some [0]) = .ok [] by decide +kernel)
    (show tcslogReadOpen true (some Sample.left.dir) (some [0]) (some [0]) (some [0]) false =
      .ok (Tcslog.Sample.reader (scanSegmentIds Sample.left.dir [] [])) by decide +kernel)
    (fun _ => (by decide : ∀ payload ∈ stored Sample.program Sample.answers, payload.length ≤ 3)) .empty

end Tcslog.Binding
