import Tcslog.Lib.Noting
import Tcslog.Write.Requests

/-!
# A writer under observation

This is the writer once more, with notes taken of what it does: whenever it names
a file, and whenever it takes a file into use or gives one up, the state it was
in before.  It does what the writer does.
-/

namespace Tcslog

open Lib.Program Lib.Noting

/-- A change of the file a writer writes. -/
inductive Change
  /-- The current file is closed. -/
  | closes
  /-- A new file becomes current. -/
  | adopts
  /-- The first file of a new session is named, but its header is not stored. -/
  | misnames
  deriving DecidableEq

/-- What is noted of a writer, with the state it was in before. -/
inductive Note
  | named (before : WriteState) (id : SegId)
  | changed (before : WriteState) (change : Change)

abbrev ObservedM := EStateM Stop (Noted WriteState Note)

/-- The files named, with the state the writer was in before. -/
def Note.namings (notes : List Note) : List (WriteState × SegId) :=
  notes.filterMap fun
    | .named before id => some (before, id)
    | _ => none

/-- The changes of the file written, with the state the writer was in before. -/
def Note.changes (notes : List Note) : List (WriteState × Change) :=
  notes.filterMap fun
    | .changed before change => some (before, change)
    | _ => none

theorem Note.namings_append (notes more : List Note) :
    Note.namings (notes ++ more) = Note.namings notes ++ Note.namings more :=
  List.filterMap_append

theorem Note.changes_append (notes more : List Note) :
    Note.changes (notes ++ more) = Note.changes notes ++ Note.changes more :=
  List.filterMap_append

/-! ## The writer -/

namespace Observed

variable (env : WriteEnv)

/-- Close the current segment file, if there is one. -/
def close : ObservedM Unit :=
  modify fun s => {
    state := { s.state with current := none }
    notes := s.notes ++ if s.state.current = none then [] else [.changed s.state .closes] }

def createSegment (opensSession : Bool) : ObservedM Unit := do
  let before ← plain get
  let id ← plain (Tcslog.createUniqueFile env env.attempts false)
  note [.named before id]
  plain (modify fun s => { s with sessionId := if opensSession then id else s.sessionId })
  let s ← plain get
  let header : SegmentHeader := {
    segmentId := id
    sessionId := s.sessionId
    maxSize := s.segSizeMax
    remaining := UInt64.ofNat s.recordBytesLeft
    format := s.format
    sequence := s.sequence
    versionMinor := versionMinor }
  if ← plain (Tcslog.writeAll env id header.toBytes) then
    note [.changed before .adopts]
    plain (modify fun s => { s with current := some { id, dataWritten := 0 } })
  else
    note (if opensSession then [.changed before .misnames] else [])
    fail .ioError

def startSession : ObservedM Unit := do
  plain (modify fun s => { s with recordCount := 0, sequence := 0, recordBytesLeft := 0 })
  createSegment env true

def closeAndSend : ObservedM Unit := do
  match (← plain get).current with
  | none => return ()
  | some current =>
      close
      plain (Tcslog.flushFile env current.id)
      plain (Tcslog.send env current.id)

def roll : ObservedM Unit := do
  closeAndSend env
  plain (modify fun s => { s with sequence := SeqId.next s.sequence })
  createSegment env false

def abandonAfterError : ObservedM Unit := do
  plain (modify fun s => { s with recordBytesLeft := 0 })
  let _ ← attempt (closeAndSend env)
  plain (modify fun s => { s with sequence := SeqId.next s.sequence })
  createSegment env false

def rollIfFull : ObservedM Unit := do
  if (← plain (Tcslog.room env)) = 0 then roll env else pure ()

def writeChunk (data : Bytes) : ObservedM Nat := do
  rollIfFull env
  let take := min (← plain (Tcslog.room env)) data.length
  match (← plain get).current with
  | none => fail .ioError
  | some current =>
      if ← plain (Tcslog.writeAll env current.id (data.take take)) then
        plain (modify fun s => { s with
          current := some { current with dataWritten := current.dataWritten + take }
          recordBytesLeft := s.recordBytesLeft - take })
        return take
      else
        abandonAfterError env
        fail .ioError

def writeBytes (data : Bytes) : ObservedM Unit := do
  if _more : data = [] then return ()
  else
    let take ← writeChunk env data
    if _progress : take = 0 then throw .stuck else writeBytes (data.drop take)
termination_by data.length
decreasing_by
  have := List.length_pos_of_ne_nil _more
  rw [List.length_drop]
  omega

def ensureSession : ObservedM Unit := do
  let s ← plain get
  if s.current = none then startSession env
  else if s.format = .variableTsRc ∧ recordCountMax ≤ s.recordCount then
    closeAndSend env
    startSession env
  else pure ()

def appendRecord (msg : Bytes) (total : Nat) : ObservedM Unit := do
  rollIfFull env
  let (built, metadata) ← plain (Tcslog.buildDataHeader env msg.length)
  plain (modify fun s => { s with recordBytesLeft := total })
  writeBytes env built
  writeBytes env msg
  plain (modify fun s => { s with lastMeta := metadata })

def storeRecord (msg : Bytes) : ObservedM Nat := do
  let format := (← plain get).format
  if format.refusesLen msg.length then fail .fixedLenMismatch
  else if u32Max < msg.length then fail .payloadTooLarge
  else
    let total := format.dataHeaderLen + msg.length
    if u32Max < total then fail .payloadTooLarge
    else
      ensureSession env
      appendRecord env msg total
      return total

def write (msg : Bytes) : ObservedM Nat := do
  let total ← storeRecord env msg
  plain (Tcslog.noticeComplete env)
  return total

def clear : ObservedM Unit := do
  close
  plain (modify fun s => { s with recordBytesLeft := 0 })
  let _ ← plain (Tcslog.forEachSegmentFile env (Tcslog.removeFile env))

def new (args : NewArgs) : ObservedM Unit := do
  plain (LogWrite.prepare env args)
  startSession env

def drop : ObservedM Unit := do
  match (← plain get).current with
  | none => return ()
  | some current =>
      close
      if current.dataWritten = 0 then return ()
      else
        let _ ← plain (attempt (Tcslog.flushFile env current.id))
        let _ ← plain (attempt (Tcslog.send env current.id))

/-- Make a call. -/
def call : Call → ObservedM PUnit
  | .write msg => do
      let _ ← write env msg
  | .flush => plain (Tcslog.flush env)
  | .clear => clear env

def calls (s : Noted WriteState Note) (calls : List Call) : Noted WriteState Note :=
  calls.foldl (fun t c => last (call env c) t) s

/-- Open a writer, make its calls and drop it. -/
def live (life : Life) (s : WriteState) : Noted WriteState Note :=
  match (new env life.args).run ⟨s, []⟩ with
  | .error _ t => t
  | .ok _ t => last (drop env) (calls env t life.calls)

/-- The notes of each call. -/
def notesOf : WriteState → List Call → List (List Note)
  | _, [] => []
  | s, c :: calls => (last (call env c) ⟨s, []⟩).notes :: notesOf (last (call env c) ⟨s, []⟩).state calls

end Observed

/-! ## What the notes say -/

/-- How the next segment file is created, with what is noted of it: it is named
and its header stored whole, or one of the two fails. -/
inductive Creates (env : WriteEnv) (opensSession : Bool) (s : WriteState) : List Note → WriteState → Prop
  | unnamed {t : WriteState} {stop : Stop}
      (failed : (createUniqueFile env env.attempts false).run s = .error stop t) :
      Creates env opensSession s [] t
  | stored {t u : WriteState} {id : SegId} {header : SegmentHeader}
      (named : (createUniqueFile env env.attempts false).run s = .ok id t)
      (isHeader : header = t.headerOf id (if opensSession then id else t.sessionId))
      (wrote : (writeAll env id header.toBytes).run
        { t with sessionId := if opensSession then id else t.sessionId } = .ok true u) :
      Creates env opensSession s [.named s id, .changed s .adopts] { u with current := some ⟨id, 0⟩ }
  | refused {t u : WriteState} {id : SegId} {header : SegmentHeader}
      (named : (createUniqueFile env env.attempts false).run s = .ok id t)
      (isHeader : header = t.headerOf id (if opensSession then id else t.sessionId))
      (wrote : (writeAll env id header.toBytes).run
        { t with sessionId := if opensSession then id else t.sessionId } = .ok false u) :
      Creates env opensSession s (.named s id :: if opensSession then [.changed s .misnames] else []) u

/-- What is said of a writer's notes if it holds of each of its steps. -/
structure Attests (env : WriteEnv) (W : WriteState → List Note → WriteState → Prop) : Prop
    extends Composes W where
  /-- A session is opened only by a writer without a file. -/
  creates : ∀ {opensSession s notes t}, (opensSession = true → s.current = none) →
    Creates env opensSession s notes t → W s notes t
  closes : ∀ {s : WriteState}, s.current ≠ none → W s [.changed s .closes] { s with current := none }
  asked : ∀ {s t}, Asked s t → W s [] t
  wrote : ∀ {s : WriteState} {cur : Current}, s.current = some cur → ∀ dataWritten,
    W s [] { s with current := some { cur with dataWritten := dataWritten } }
  book : ∀ (s : WriteState) sequence recordBytesLeft, W s [] { s with
    sequence := sequence, recordBytesLeft := recordBytesLeft }
  note : ∀ (s : WriteState) recordCount lastMeta, W s [] { s with
    recordCount := recordCount, lastMeta := lastMeta }

/-- An error that is caught is told apart from none in the same way. -/
theorem shadows_attempt {W : WriteState → List Note → WriteState → Prop} {α : Type} {noting : ObservedM α}
    {x : WriteM α} {s : WriteState} (shadows : Shadows W noting x s) :
    Shadows W (attempt noting) (attempt x) s := by
  cases ran : x.run s with
  | ok a t =>
      obtain ⟨more, told, runs⟩ := (shadows_of_ok ran).mp shadows
      exact (shadows_of_ok (attempt_of_ok ran)).mpr ⟨more, told, fun notes => attempt_of_ok (runs notes)⟩
  | error stop t =>
      obtain ⟨more, told, runs⟩ := (shadows_of_error ran).mp shadows
      by_cases caught : ∃ e, stop = .error e
      · obtain ⟨e, rfl⟩ := caught
        exact (shadows_of_ok (attempt_of_error ran)).mpr
          ⟨more, told, fun notes => attempt_of_error (runs notes)⟩
      · have uncaught (e : LogError) : stop ≠ .error e := fun same => caught ⟨e, same⟩
        exact (shadows_of_error (attempt_of_stop uncaught ran)).mpr
          ⟨more, told, fun notes => attempt_of_stop uncaught (runs notes)⟩

theorem Trail.snd_ending {α : Type} {x : WriteM α} {s : WriteState} : (ending x s).2 = last x s := by
  rw [ending, last]
  cases x.run s <;> rfl

section Attests

variable {env : WriteEnv} {W : WriteState → List Note → WriteState → Prop} (attests : Attests env W)
  {s t : WriteState}

include attests

theorem Attests.still {t u : WriteState} (first : W s [] t) (second : W t [] u) : W s [] u :=
  attests.trans first second

/-- Requests that change nothing the writer knows. -/
theorem Attests.asks {α : Type} {x : WriteM α} (asked : Preserves Asked x) :
    Preserves (fun s t => W s [] t) x :=
  fun s => (asked s).imp (fun _ _ step => attests.asked step) fun _ _ step => attests.asked step

theorem Attests.silent {α : Type} {x : WriteM α} (asked : Preserves Asked x) (s : WriteState) :
    Shadows W (plain x) x s :=
  .plain (attests.asks asked s)

theorem Attests.books {f : WriteState → WriteState} (s : WriteState)
    (book : f s = { s with
      sequence := (f s).sequence, recordBytesLeft := (f s).recordBytesLeft }) :
    Shadows W (plain (modify f : WriteM PUnit)) (modify f) s := by
  refine .plain (meets_modify.mpr ?_)
  rw [book]
  exact attests.book s _ _

theorem Attests.close (s : WriteState) :
    Shadows W Observed.close (modify fun s => { s with current := none }) s := by
  have told : W s (if s.current = none then [] else [.changed s .closes]) { s with current := none } := by
    split
    next idle =>
        have same : { s with current := none } = s := by rw [← idle]
        rw [same]
        exact attests.refl s
    next isOpen => exact attests.closes isOpen
  exact .modify (fun s : WriteState => { s with current := none })
    (fun s => if s.current = none then [] else [Note.changed s .closes]) told

/-- A file is created, or fails to be, with the notes that say so. -/
theorem Attests.createSegment {opensSession : Bool} (idle : opensSession = true → s.current = none) :
    Shadows W (Observed.createSegment env opensSession) (Tcslog.createSegment env opensSession) s := by
  have looked (notes : List Note) : (plain get : ObservedM WriteState).run ⟨s, notes⟩ = .ok s ⟨s, notes⟩ :=
    plain_of_ok rfl notes
  cases named : (createUniqueFile env env.attempts false).run s with
  | error stop t =>
      refine (shadows_of_error (by rw [Tcslog.createSegment, EStateM.run_bind, named])).mpr
        ⟨[], attests.creates idle (.unnamed named), fun notes => ?_⟩
      rw [Observed.createSegment, EStateM.run_bind, looked]
      simp only []
      rw [EStateM.run_bind, plain_of_error named, List.append_nil]
  | ok id t =>
      let sessionId := if opensSession then id else t.sessionId
      let named' : WriteState := { t with sessionId := sessionId }
      let stores : WriteM Bool := writeAll env id (t.headerOf id sessionId).toBytes
      let adopts : WriteM PUnit := modify fun s => { s with current := some ⟨id, 0⟩ }
      have real : (Tcslog.createSegment env opensSession).run s =
          (stores >>= fun done => if done then adopts else fail .ioError).run named' := by
        rw [Tcslog.createSegment, EStateM.run_bind, named]
        rfl
      have noted (notes : List Note) : (Observed.createSegment env opensSession).run ⟨s, notes⟩ =
          (plain stores >>= fun done =>
            if done then Lib.Noting.note [Note.changed s .adopts] >>= fun _ => plain adopts
            else Lib.Noting.note (if opensSession then [Note.changed s .misnames] else []) >>= fun _ =>
              fail .ioError).run ⟨named', notes ++ [.named s id]⟩ := by
        rw [Observed.createSegment, EStateM.run_bind, looked]
        simp only []
        rw [EStateM.run_bind, plain_of_ok named]
        rfl
      cases wrote : stores.run named' with
      | error stop u => exact ((writeAll_same env id _ named').of_error wrote).elim
      | ok done u =>
          cases done with
          | true =>
              refine (shadows_of_ok (a := ⟨⟩) (t := { u with current := some ⟨id, 0⟩ }) ?_).mpr
                ⟨_, attests.creates idle (.stored named rfl wrote), fun notes => ?_⟩
              · rw [real, EStateM.run_bind, wrote]
                rfl
              · rw [List.append_cons, noted, EStateM.run_bind, plain_of_ok wrote]
                rfl
          | false =>
              refine (shadows_of_error (e := .error .ioError) (t := u) ?_).mpr
                ⟨_, attests.creates idle (.refused named rfl wrote), fun notes => ?_⟩
              · rw [real, EStateM.run_bind, wrote]
                rfl
              · rw [List.append_cons, noted, EStateM.run_bind, plain_of_ok wrote]
                rfl

theorem Attests.startSession (idle : s.current = none) :
    Shadows W (Observed.startSession env) (Tcslog.startSession env) s := by
  refine .bind attests.toComposes (.plain (meets_modify.mpr ?_)) fun _ t ran => ?_
  · have begun := attests.trans (attests.note s 0 s.lastMeta) (attests.book _ 0 0)
    exact begun
  · obtain ⟨-, rfl⟩ := EStateM.Result.ok.inj ran
    exact attests.createSegment fun _ => idle

theorem Attests.closeAndSend : Shadows W (Observed.closeAndSend env) (Tcslog.closeAndSend env) s := by
  refine .bind_get attests.toComposes ?_
  cases s.current with
  | none => exact .pure attests.toComposes _
  | some cur =>
      refine .bind attests.toComposes (attests.close s) fun _ t _ => ?_
      refine .bind attests.toComposes (attests.silent (flushFile_asked env _) t) fun _ u _ => ?_
      exact attests.silent (send_asked env _) u

/-- The next file of a session. -/
theorem Attests.reopen : Shadows W (do
      plain (modify fun s : WriteState => { s with sequence := SeqId.next s.sequence })
      Observed.createSegment env false) (do
      modify fun s : WriteState => { s with sequence := SeqId.next s.sequence }
      Tcslog.createSegment env false) s := by
  refine .bind attests.toComposes (attests.books s rfl) fun _ t ran => ?_
  exact attests.createSegment (by simp)

theorem Attests.roll : Shadows W (Observed.roll env) (Tcslog.roll env) s :=
  .bind attests.toComposes attests.closeAndSend fun _ _ _ => attests.reopen

theorem Attests.abandonAfterError :
    Shadows W (Observed.abandonAfterError env) (Tcslog.abandonAfterError env) s := by
  refine .bind attests.toComposes (attests.books s rfl) fun _ t _ => ?_
  exact .bind attests.toComposes (shadows_attempt attests.closeAndSend) fun _ _ _ => attests.reopen

theorem Attests.room : Shadows W (plain (Tcslog.room env)) (Tcslog.room env) s :=
  .plain ((room_left env s).imp (fun _ _ left => left.1 ▸ attests.refl s) fun _ _ failed =>
    failed.1 ▸ attests.refl s)

theorem Attests.rollIfFull : Shadows W (Observed.rollIfFull env) (Tcslog.rollIfFull env) s :=
  .bind attests.toComposes attests.room fun _ _ _ =>
    .ite (fun _ => attests.roll) fun _ => .pure attests.toComposes _

theorem Attests.writeChunk (data : Bytes) :
    Shadows W (Observed.writeChunk env data) (Tcslog.writeChunk env data) s := by
  refine .bind attests.toComposes attests.rollIfFull fun _ t _ => ?_
  refine .bind attests.toComposes attests.room fun room u _ => ?_
  refine .bind_get attests.toComposes ?_
  cases isOpen : u.current with
  | none => exact .throw attests.toComposes _
  | some cur =>
      refine .bind attests.toComposes (attests.silent (writeAll_asked env _ _) u) fun done v ran => ?_
      refine .ite (fun _ => ?_) fun _ => ?_
      · refine .bind attests.toComposes (.plain (meets_modify.mpr ?_)) fun _ _ _ =>
          .pure attests.toComposes _
        have same := (writeAll_same env _ _ u).of_ok ran
        have stillOpen : v.current = some cur := by rw [same, isOpen]
        have wrote := attests.trans (attests.wrote stillOpen (cur.dataWritten + min room data.length))
          (attests.book _ v.sequence (v.recordBytesLeft - min room data.length))
        exact wrote
      · exact .bind attests.toComposes attests.abandonAfterError fun _ _ _ => .throw attests.toComposes _

theorem Attests.writeBytes (data : Bytes) :
    Shadows W (Observed.writeBytes env data) (Tcslog.writeBytes env data) s := by
  induction left : data.length using Nat.strong_induction_on generalizing data s with
  | _ left ih =>
      rw [Tcslog.writeBytes, Observed.writeBytes]
      split
      · exact .pure attests.toComposes _
      next more =>
        refine .bind attests.toComposes (attests.writeChunk data) fun take t _ => ?_
        split
        · exact .throw attests.toComposes _
        next progress =>
          have := List.length_pos_of_ne_nil more
          exact ih _ (by rw [List.length_drop]; omega) _ rfl

theorem Attests.ensureSession : Shadows W (Observed.ensureSession env) (Tcslog.ensureSession env) s := by
  refine .bind_get attests.toComposes ?_
  refine .ite (fun idle => attests.startSession idle) fun _ => ?_
  refine .ite (fun _ => ?_) fun _ => .pure attests.toComposes _
  exact .bind attests.toComposes attests.closeAndSend fun _ _ ran =>
    attests.startSession ((closeAndSend_closes env s).of_ok ran)

theorem Attests.buildDataHeader (len : Nat) :
    Preserves (fun s t => W s [] t) (Tcslog.buildDataHeader env len) := by
  apply Leads.ite (.throw attests.refl _)
  apply Leads.bind_get
  intro s
  cases s.format with
  | fixed n => exact attests.refl s
  | variableSimple => exact attests.refl s
  | variableTsRc =>
      refine Leads.bind (attests.asks (now_asked env)) (fun _ => ?_) attests.still attests.still s
      refine Leads.bind (.modify fun s => attests.note s _ s.lastMeta) (fun _ => ?_) attests.still
        attests.still
      exact .bind_get fun s => attests.refl s

theorem Attests.appendRecord (msg : Bytes) (total : Nat) :
    Shadows W (Observed.appendRecord env msg total) (Tcslog.appendRecord env msg total) s := by
  refine .bind attests.toComposes attests.rollIfFull fun _ t _ => ?_
  refine .bind attests.toComposes (.plain (attests.buildDataHeader _ t)) fun built u _ => ?_
  refine .bind attests.toComposes (attests.books u rfl) fun _ v _ => ?_
  refine .bind attests.toComposes (attests.writeBytes _) fun _ w _ => ?_
  refine .bind attests.toComposes (attests.writeBytes _) fun _ x _ => ?_
  exact .plain (meets_modify.mpr (attests.note x x.recordCount _))

theorem Attests.storeRecord (msg : Bytes) :
    Shadows W (Observed.storeRecord env msg) (Tcslog.storeRecord env msg) s := by
  refine .bind_get attests.toComposes ?_
  refine .ite (fun _ => .throw attests.toComposes _) fun _ => ?_
  refine .ite (fun _ => .throw attests.toComposes _) fun _ => ?_
  refine .ite (fun _ => .throw attests.toComposes _) fun _ => ?_
  refine .bind attests.toComposes attests.ensureSession fun _ t _ => ?_
  exact .bind attests.toComposes (attests.appendRecord msg _) fun _ _ _ => .pure attests.toComposes _

theorem Attests.write (msg : Bytes) : Shadows W (Observed.write env msg) (Tcslog.write env msg) s := by
  have notices : Preserves (fun s t => W s [] t) (noticeComplete env) := by
    apply Leads.bind_get
    intro s
    cases s.current with
    | none => exact attests.refl s
    | some cur => exact attests.asks (recordComplete_asked env cur.id) s
  refine .bind attests.toComposes (attests.storeRecord msg) fun _ t _ => ?_
  exact .bind attests.toComposes (.plain (notices t)) fun _ _ _ => .pure attests.toComposes _

theorem Attests.flush : Shadows W (plain (Tcslog.flush env)) (Tcslog.flush env) s := by
  have flushes : Preserves (fun s t => W s [] t) (Tcslog.flush env) := by
    apply Leads.bind_get
    intro s
    cases s.current with
    | none => exact attests.refl s
    | some cur => exact attests.asks (flushFile_asked env cur.id) s
  exact .plain (flushes s)

theorem Attests.clear : Shadows W (Observed.clear env) (Tcslog.clear env) s := by
  have clear_eq : Tcslog.clear env = (do
      modify fun s : WriteState => { s with current := none }
      modify fun s : WriteState => { s with recordBytesLeft := 0 }
      let _ ← forEachSegmentFile env (removeFile env)) := rfl
  have each : Preserves (fun s t => W s [] t) (forEachSegmentFile env (removeFile env)) := by
    apply Leads.bind (attests.asks (scan_asked env)) (fun ids => ?_) attests.still attests.still
    have removes := preserves_forM attests.refl attests.still
      (fun id => attests.asks (removeFile_asked env id)) ids
    exact .bind removes (fun _ => .pure attests.refl _) attests.still attests.still
  rw [clear_eq]
  refine .bind attests.toComposes (attests.close s) fun _ t _ => ?_
  refine .bind attests.toComposes (attests.books t rfl) fun _ u _ => ?_
  exact .bind attests.toComposes (.plain (each u)) fun _ _ _ => .pure attests.toComposes _

theorem Attests.drop : Shadows W (Observed.drop env) (LogWrite.drop env) s := by
  refine .bind_get attests.toComposes ?_
  cases s.current with
  | none => exact .pure attests.toComposes _
  | some cur =>
      refine .bind attests.toComposes (attests.close s) fun _ t _ => ?_
      refine .ite (fun _ => .pure attests.toComposes _) fun _ => ?_
      have tries {α : Type} {x : WriteM α} (asked : Preserves Asked x) :
          Preserves (fun s t => W s [] t) (attempt x) :=
        preserves_attempt (attests.asks asked)
      refine .bind attests.toComposes (.plain (tries (flushFile_asked env _) t)) fun _ u _ => ?_
      exact .bind attests.toComposes (.plain (tries (send_asked env _) u)) fun _ _ _ =>
        .pure attests.toComposes _

/-- A call does what it does unobserved. -/
theorem Attests.call (trail : Trail) (c : Call) (notes : List Note) :
    ∃ more, W trail.state more (trail.call env c).state ∧
      last (Observed.call env c) ⟨trail.state, notes⟩ = ⟨(trail.call env c).state, notes ++ more⟩ := by
  cases c with
  | write msg =>
      have same : (trail.call env (.write msg)).state = last (Tcslog.write env msg) trail.state :=
        Trail.snd_ending
      rw [same, Observed.call, last_bind_pure]
      exact (attests.write msg).last notes
  | flush =>
      have same : (trail.call env .flush).state = last (Tcslog.flush env) trail.state := Trail.snd_ending
      rw [same]
      exact attests.flush.last notes
  | clear =>
      have same : (trail.call env .clear).state = last (Tcslog.clear env) trail.state := Trail.snd_ending
      rw [same]
      exact attests.clear.last notes

theorem Attests.calls (trail : Trail) (calls : List Call) (notes : List Note) :
    ∃ more, W trail.state more (calls.foldl (Trail.call env) trail).state ∧
      Observed.calls env ⟨trail.state, notes⟩ calls =
        ⟨(calls.foldl (Trail.call env) trail).state, notes ++ more⟩ := by
  induction calls generalizing trail notes with
  | nil => exact ⟨[], attests.refl _, by rw [List.append_nil]; rfl⟩
  | cons c calls ih =>
      obtain ⟨more, told, called⟩ := attests.call trail c notes
      obtain ⟨more', told', rest⟩ := ih (trail.call env c) (notes ++ more)
      refine ⟨more ++ more', attests.trans told told', ?_⟩
      rw [← List.append_assoc, List.foldl_cons, ← rest, ← called]
      rfl

/-- So does a writer's whole life, if its opening says nothing that is not
said of the rest. -/
theorem Attests.live (life : Life) (trail : Trail)
    (prepares : Meets (LogWrite.prepare env life.args) trail.state
      (fun _ t => W trail.state [] t ∧ t.current = none) (fun _ t => W trail.state [] t)) :
    W trail.state (Observed.live env life trail.state).notes (Observed.live env life trail.state).state ∧
      (Observed.live env life trail.state).state = (trail.live env life).state := by
  have opens : Shadows W (Observed.new env life.args) (LogWrite.new env life.args) trail.state := by
    rw [LogWrite.new_eq]
    refine .bind attests.toComposes (.plain ?_) fun _ t ran => attests.startSession (prepares.of_ok ran).2
    exact prepares.imp (fun _ _ both => both.1) fun _ _ told => told
  cases ran : (LogWrite.new env life.args).run trail.state with
  | error stop t =>
      obtain ⟨more, told, runs⟩ := (shadows_of_error ran).mp opens
      rw [Trail.live_of_error ran, Observed.live, runs []]
      exact ⟨told, rfl⟩
  | ok a t =>
      obtain ⟨more, told, runs⟩ := (shadows_of_ok ran).mp opens
      rw [Trail.live_of_ok ran, Observed.live, runs []]
      obtain ⟨more', told', called⟩ := attests.calls
        ⟨t, trail.deeds ++ [.opened life.args none], trail.journal.begin t⟩ life.calls ([] ++ more)
      obtain ⟨more'', told'', dropped⟩ := attests.drop.last ([] ++ more ++ more')
      dsimp only at called ⊢
      rw [called, dropped, Trail.snd_ending]
      exact ⟨attests.trans (attests.trans told told') told'', rfl⟩

end Attests

end Tcslog
