import Tcslog.Write.Opening

/-!
# The writers of a log, one after another

A log is written by writers that follow one another, each opened on what the
others left.  Along with the directory a trail keeps what each call returned and
a journal of what was written since the log was last cleared.
-/

namespace Tcslog

open Lib.Program Lib.Spanned WriteState

/-- A call to an open writer. -/
inductive Call
  | write (msg : Bytes)
  | flush
  | clear
  deriving DecidableEq, Repr

/-- The opening of a writer or a call to it, and why that returned no value if
it did not. -/
inductive Deed
  | opened (args : NewArgs) (stop : Option Stop)
  | called (call : Call) (stop : Option Stop)
  deriving DecidableEq, Repr

def Deed.stop : Deed → Option Stop
  | opened _ stop => stop
  | called _ stop => stop

/-- A writer from its opening to its end. -/
structure Life where
  args : NewArgs
  calls : List Call

/-- A session as its writer saw it: its records with the metadata reported for
them, and the sum of the values `write` returned. -/
structure Session where
  id : SegId
  segSizeMax : UInt32
  format : Format
  records : List Record
  returned : Nat
  deriving DecidableEq, Repr

/-- What was written since a log was last cleared, and the payloads that were
not stored to their end. -/
structure Journal where
  sessions : List Session
  failed : List Bytes
  deriving DecidableEq, Repr

/-- How far the writers of a log have come. -/
structure Trail where
  state : WriteState
  deeds : List Deed
  journal : Journal

/-- Note the session a writer is in. -/
def Journal.begin (journal : Journal) (s : WriteState) : Journal :=
  { journal with
    sessions := journal.sessions ++ [⟨s.sessionId, s.segSizeMax, s.format, [], 0⟩] }

/-- Note a record of the session a writer is in, which may be new. -/
def Journal.record (journal : Journal) (s : WriteState) (record : Record) (returned : Nat) : Journal :=
  let begun :=
    if journal.sessions.getLast?.any fun session => session.id = s.sessionId then journal
    else journal.begin s
  { begun with
    sessions := begun.sessions.dropLast ++ (begun.sessions.getLast?.map fun session =>
      { session with
        records := session.records ++ [record]
        returned := session.returned + returned }).toList }

/-- The records of a journal, in the order they were written. -/
def Journal.records (journal : Journal) : List Record :=
  journal.sessions.flatMap Session.records

namespace Trail

variable (env : WriteEnv)

/-- How a program ended and the state it left. -/
def ending {α : Type} (x : WriteM α) (s : WriteState) : Except Stop α × WriteState :=
  match x.run s with
  | .ok a s' => (.ok a, s')
  | .error stop s' => (.error stop, s')

def stopOf {α : Type} : Except Stop α → Option Stop
  | .ok _ => none
  | .error stop => some stop

/-- Make a call of an open writer.  A record is noted if all its bytes were
stored, though the caller may have refused the notice of that. -/
def call (trail : Trail) : Call → Trail
  | .write msg =>
      let (result, s') := ending (Tcslog.write env msg) trail.state
      let journal :=
        match (ending (storeRecord env msg) trail.state).1 with
        | .ok _ => trail.journal.record s' ⟨msg, s'.lastMeta⟩ (result.toOption.getD 0)
        | .error _ => { trail.journal with failed := trail.journal.failed ++ [msg] }
      ⟨s', trail.deeds ++ [.called (.write msg) (stopOf result)], journal⟩
  | .flush =>
      let (result, s') := ending (Tcslog.flush env) trail.state
      { trail with state := s', deeds := trail.deeds ++ [.called .flush (stopOf result)] }
  | .clear =>
      let (result, s') := ending (Tcslog.clear env) trail.state
      let journal :=
        match result with
        | .ok _ => ⟨[], []⟩
        | .error _ => trail.journal
      ⟨s', trail.deeds ++ [.called .clear (stopOf result)], journal⟩

/-- Open a writer, make its calls and drop it. -/
def live (trail : Trail) (life : Life) : Trail :=
  let (result, s') := ending (LogWrite.new env life.args) trail.state
  let deeds := trail.deeds ++ [.opened life.args (stopOf result)]
  match result with
  | .error _ => { trail with state := s', deeds := deeds }
  | .ok _ =>
      let last := life.calls.foldl (call env) ⟨s', deeds, trail.journal.begin s'⟩
      { last with state := (ending (LogWrite.drop env) last.state).2 }

/-- A directory and no writer. -/
def start (dir : Dir) : Trail where
  state := {
    namePrefix := [], nameSuffix := [], segSizeMax := 0, format := .variableSimple
    timerResolution := 0, clock := ⟨0, 0⟩, current := none, sessionId := 0, sequence := 0
    recordCount := 0, recordBytesLeft := 0, lastMeta := .variableSimple, dir := dir, ops := 0
    events := [] }
  deeds := []
  journal := ⟨[], []⟩

/-- What the writers of a log left in a directory. -/
def run (dir : Dir) (lives : List Life) : Trail :=
  lives.foldl (live env) (start dir)

end Trail

/-! ## The journal -/

namespace Journal

variable {journal : Journal} {s : WriteState} {record : Record} {returned : Nat}

theorem record_same {older : List Session} {session : Session}
    (last : journal.sessions = older ++ [session]) (same : session.id = s.sessionId) :
    (journal.record s record returned).sessions = older ++ [{ session with
      records := session.records ++ [record], returned := session.returned + returned }] := by
  simp [Journal.record, last, same]

theorem record_new (record : Record) (returned : Nat)
    (differs : ∀ session, journal.sessions.getLast? = some session → session.id ≠ s.sessionId) :
    (journal.record s record returned).sessions =
      journal.sessions ++ [⟨s.sessionId, s.segSizeMax, s.format, [record], returned⟩] := by
  have new : ¬ journal.sessions.getLast?.any fun session => session.id = s.sessionId := by
    cases last : journal.sessions.getLast? with
    | none => simp
    | some session => simpa using differs session last
  simp [Journal.record, new, begin]

@[simp]
theorem failed_record : (journal.record s record returned).failed = journal.failed := by
  unfold Journal.record begin
  split <;> rfl

/-- A record is noted after all that were noted before. -/
theorem records_record : (journal.record s record returned).records = journal.records ++ [record] := by
  by_cases same : ∃ session, journal.sessions.getLast? = some session ∧ session.id = s.sessionId
  · obtain ⟨session, last, same⟩ := same
    obtain ⟨older, split⟩ := List.getLast?_eq_some_iff.mp last
    rw [records, record_same split same, records, split]
    simp
  · have new := record_new record returned fun session last equal =>
      same ⟨session, last, equal⟩
    rw [records, new, records]
    simp

@[simp]
theorem records_begin : (journal.begin s).records = journal.records := by
  simp [records, begin]

end Journal

/-! ## Endings -/

namespace Trail

variable {env : WriteEnv} {s t : WriteState} {α : Type} {x : WriteM α} {trail : Trail}

theorem ending_of_ok {a : α} (ran : x.run s = .ok a t) : ending x s = (.ok a, t) := by
  rw [ending, ran]

theorem ending_of_error {stop : Stop} (ran : x.run s = .error stop t) :
    ending x s = (.error stop, t) := by
  rw [ending, ran]

theorem noticeComplete_spec (env : WriteEnv) (s : WriteState) :
    Meets (noticeComplete env) s (fun _ s' => s.Did s.dir s')
    (fun stop s' => stop = .error .ioError ∧ s.Did s.dir s') := by
  simp only [noticeComplete, meets_bind, meets_get]
  cases s.current with
  | none => exact .refl s
  | some cur => exact recordComplete_spec cur.id

/-- A record that was stored is stored whatever the caller makes of it. -/
theorem write_of_stored {msg : Bytes} {total : Nat}
    (ran : (storeRecord env msg).run s = .ok total t) :
    ∃ u, t.Did t.dir u ∧ ((Tcslog.write env msg).run s = .ok total u ∨
      (Tcslog.write env msg).run s = .error (.error .ioError) u) := by
  have notice := noticeComplete_spec env t
  cases told : (noticeComplete env).run t with
  | ok _ u =>
      refine ⟨u, notice.of_ok told, .inl ?_⟩
      simp only [Tcslog.write, EStateM.run_bind, ran, told]
      rfl
  | error stop u =>
      obtain ⟨rfl, did⟩ := notice.of_error told
      refine ⟨u, did, .inr ?_⟩
      simp only [Tcslog.write, EStateM.run_bind, ran, told]

theorem write_of_failed {msg : Bytes} {stop : Stop}
    (ran : (storeRecord env msg).run s = .error stop t) :
    (Tcslog.write env msg).run s = .error stop t := by
  rw [Tcslog.write, EStateM.run_bind, ran]

theorem live_of_error {life : Life} {stop : Stop}
    (ran : (LogWrite.new env life.args).run trail.state = .error stop t) :
    trail.live env life =
      { trail with state := t, deeds := trail.deeds ++ [.opened life.args (some stop)] } := by
  simp only [live, ending_of_error ran]
  rfl

/-- The trail of a life whose writer was opened, before it is dropped. -/
def openedOn (env : WriteEnv) (trail : Trail) (life : Life) (s : WriteState) : Trail :=
  life.calls.foldl (call env) ⟨s, trail.deeds ++ [.opened life.args none], trail.journal.begin s⟩

theorem live_of_ok {life : Life} {a : Unit}
    (ran : (LogWrite.new env life.args).run trail.state = .ok a t) :
    trail.live env life = { openedOn env trail life t with
      state := (ending (LogWrite.drop env) (openedOn env trail life t).state).2 } := by
  simp only [live, ending_of_ok ran]
  rfl

end Trail

end Tcslog
