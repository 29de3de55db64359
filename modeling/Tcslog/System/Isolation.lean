import Tcslog.Overlap
import Tcslog.Read.Crossing
import Tcslog.Read.Upholding
import Tcslog.Write.Identifiers

/-!
# Two logs in one directory

The writers and readers of two logs take turns in one directory.  Each touches
only files of its own names, so that the logs are kept apart exactly when no
name is claimed by both.
-/

namespace Tcslog

open Lib.Program

/-! ## A writer touches its own files only -/

/-- The writer kept its names, and every file that is not of its log and that the caller moves
nothing to. -/
structure Own (env : WriteEnv) (s s' : WriteState) : Prop where
  namePrefix : s'.namePrefix = s.namePrefix
  nameSuffix : s'.nameSuffix = s.nameSuffix
  others : ∀ name, (∀ id, name ≠ buildName s.namePrefix id s.nameSuffix) →
    (∀ t, env.sends t ≠ .moveTo name) → s'.dir.lookup name = s.dir.lookup name

namespace Own

variable {env : WriteEnv} {s t u : WriteState}

theorem refl (s : WriteState) : Own env s s :=
  ⟨rfl, rfl, fun _ _ _ => rfl⟩

theorem trans (first : Own env s t) (second : Own env t u) : Own env s u where
  namePrefix := second.namePrefix.trans first.namePrefix
  nameSuffix := second.nameSuffix.trans first.nameSuffix
  others name notOwn notMoved := by
    rw [← first.others name notOwn notMoved]
    apply second.others name _ notMoved
    rwa [first.namePrefix, first.nameSuffix]

/-- A step that leaves the directory and the names as they are. -/
theorem of_same (dir : t.dir = s.dir) (namePrefix : t.namePrefix = s.namePrefix)
    (nameSuffix : t.nameSuffix = s.nameSuffix) : Own env s t :=
  ⟨namePrefix, nameSuffix, fun _ _ _ => by rw [dir]⟩

/-- A step that changes one file of the log. -/
theorem of_change {id : SegId} {dir : Dir} (namePrefix : t.namePrefix = s.namePrefix)
    (nameSuffix : t.nameSuffix = s.nameSuffix) (changed : t.dir = dir)
    (only : ∀ name, name ≠ buildName s.namePrefix id s.nameSuffix →
      (∀ t, env.sends t ≠ .moveTo name) → dir.lookup name = s.dir.lookup name) : Own env s t :=
  ⟨namePrefix, nameSuffix, fun name notOwn notMoved => changed ▸ only name (notOwn id) notMoved⟩

end Own

section Requests

variable (env : WriteEnv)

theorem tick_own : Preserves (Own env) tick := by
  intro s
  exact tick_spec.imp (fun _ _ step => step.2 ▸ .of_same rfl rfl rfl) fun _ _ step => step.elim

theorem emit_own (event : WriteEvent) : Preserves (Own env) (emit event fun dir => dir) :=
  .modify fun _ => .of_same rfl rfl rfl

theorem createNew_own (id : SegId) : Preserves (Own env) (createNew env id) := by
  intro s
  simp only [createNew, fileName, meets_bind, meets_get, meets_pure]
  refine tick_spec.imp ?_ fun _ _ step => step.elim
  rintro t _ ⟨rfl, rfl⟩
  simp only [meets_ite, meets_pure, meets_bind, emit, meets_modify]
  refine ⟨fun _ => .of_same rfl rfl rfl, fun _ => ⟨fun _ => .of_same rfl rfl rfl, fun _ => ?_⟩⟩
  exact .of_change rfl rfl rfl fun name other _ => AList.lookup_insert_ne other

theorem lookup_appendTo_ne {name other : Bytes} (ne : other ≠ name) (bytes : Bytes) (dir : Dir) :
    (appendTo name bytes dir).lookup other = dir.lookup other := by
  rw [appendTo]
  cases dir.lookup name with
  | none => rfl
  | some content => exact AList.lookup_insert_ne ne

theorem writeAll_own (id : SegId) (bytes : Bytes) : Preserves (Own env) (writeAll env id bytes) := by
  intro s
  simp only [writeAll, fileName, meets_bind, meets_get, meets_pure]
  refine tick_spec.imp ?_ fun _ _ step => step.elim
  rintro t _ ⟨rfl, rfl⟩
  simp only [meets_ite, meets_pure, meets_bind, emit, meets_modify]
  constructor
  · intro _
    exact .of_change rfl rfl rfl fun name other _ => lookup_appendTo_ne other _ _
  · intro _
    exact .of_change rfl rfl rfl fun name other _ => lookup_appendTo_ne other _ _

theorem flushFile_own (id : SegId) : Preserves (Own env) (flushFile env id) :=
  .bind (tick_own env) (fun _ => .ite (.throw .refl _) (emit_own env _)) .trans .trans

theorem recordComplete_own (id : SegId) : Preserves (Own env) (recordComplete env id) :=
  .bind (tick_own env) (fun _ => .ite (.throw .refl _) (emit_own env _)) .trans .trans

theorem lookup_apply_ne {name other : Bytes} {action : SendAction} (ne : other ≠ name)
    (notTarget : action ≠ .moveTo other) (dir : Dir) :
    (action.apply name dir).lookup other = dir.lookup other := by
  cases action with
  | leave => rfl
  | remove => exact AList.lookup_erase_ne ne
  | moveTo target =>
      have ne' : other ≠ target := by
        rintro rfl
        exact notTarget rfl
      rw [SendAction.apply]
      cases dir.lookup name with
      | none => rfl
      | some content =>
          dsimp only
          rw [AList.lookup_insert_ne ne', AList.lookup_erase_ne ne]

theorem send_own (id : SegId) : Preserves (Own env) (send env id) := by
  intro s
  simp only [send, fileName, meets_bind, meets_get, meets_pure]
  refine tick_spec.imp ?_ fun _ _ step => step.elim
  rintro t _ ⟨rfl, rfl⟩
  simp only [meets_ite, meets_fail, emit, meets_modify]
  refine ⟨fun _ => .of_same rfl rfl rfl, fun _ => ?_⟩
  exact .of_change rfl rfl rfl fun name other notMoved => lookup_apply_ne other (notMoved _) _

theorem removeFile_own (id : SegId) : Preserves (Own env) (removeFile env id) := by
  intro s
  simp only [removeFile, fileName, meets_bind, meets_get, meets_pure]
  refine tick_spec.imp ?_ fun _ _ step => step.elim
  rintro t _ ⟨rfl, rfl⟩
  simp only [meets_ite, meets_fail, emit, meets_modify]
  refine ⟨fun _ => .of_same rfl rfl rfl, fun _ => ?_⟩
  exact .of_change rfl rfl rfl fun name other _ => AList.lookup_erase_ne other

theorem scan_own : Preserves (Own env) (scan env) := by
  apply Leads.bind (tick_own env) (fun t => ?_) Own.trans Own.trans
  apply Leads.bind_get
  intro s
  rw [meets_ite]
  exact ⟨fun _ => .refl s, fun _ => .refl s⟩

theorem now_own : Preserves (Own env) (now env) := by
  apply Leads.bind (tick_own env) (fun t => ?_) Own.trans Own.trans
  apply Leads.bind_get
  intro s
  rw [meets_ite]
  exact ⟨fun _ => .refl s, fun _ => preserves_liftExcept .refl _ s⟩

theorem noteCollision_own (collidedBefore : Bool) : Preserves (Own env) (noteCollision collidedBefore) := by
  apply Leads.bind_get
  intro s
  have slept (event : WriteEvent) : Preserves (Own env) (emit event fun dir => dir) := emit_own env event
  rw [meets_ite]
  refine ⟨fun _ => ?_, fun _ => slept _ s⟩
  rw [meets_bind, meets_set]
  have both := Leads.bind (slept (.adjusted (widened s.timerResolution collidedBefore))) (fun _ =>
    slept (.slept (napFor (widened s.timerResolution collidedBefore)))) Own.trans Own.trans
  have noted := both { s with timerResolution := widened s.timerResolution collidedBefore }
  have start : Own env s { s with timerResolution := widened s.timerResolution collidedBefore } :=
    .of_same rfl rfl rfl
  exact noted.imp (fun _ _ step => start.trans step) fun _ _ step => start.trans step

theorem createUniqueFile_own (attempts : Nat) (collidedBefore : Bool) :
    Preserves (Own env) (createUniqueFile env attempts collidedBefore) := by
  induction attempts generalizing collidedBefore with
  | zero => exact .throw .refl _
  | succ attempts ih =>
      have named : Preserves (Own env) (nowSegId env) :=
        .bind (now_own env) (fun _ => .pure .refl _) .trans .trans
      refine .bind named (fun id => .bind (createNew_own env id) (fun creation => ?_) .trans .trans)
        .trans .trans
      cases creation with
      | made => exact .pure .refl _
      | alreadyExists => exact .bind (noteCollision_own env _) (fun _ => ih _) .trans .trans
      | refused => exact .throw .refl _

theorem createSegment_own (opensSession : Bool) : Preserves (Own env) (createSegment env opensSession) := by
  apply Leads.bind (createUniqueFile_own env _ _) (fun id => ?_) Own.trans Own.trans
  refine Leads.bind (R := Own env) (.modify fun _ => .of_same rfl rfl rfl) (fun _ => ?_) Own.trans
    Own.trans
  apply Leads.bind_get
  intro s
  refine Leads.bind (writeAll_own env _ _) (fun wrote => ?_) Own.trans Own.trans s
  exact .ite (.modify fun _ => .of_same rfl rfl rfl) (.throw .refl _)

/-- Every request of a writer touches its own files only. -/
theorem own_follows : FollowsAll env (Own env) where
  refl := .refl
  trans := .trans
  createSegment := createSegment_own env false
  openSegment := createSegment_own env true
  writeAll := writeAll_own env
  flushFile := flushFile_own env
  send := send_own env
  close _ := .of_same rfl rfl rfl
  wrote _ _ _ := .of_same rfl rfl rfl
  book _ _ _ := .of_same rfl rfl rfl
  now := now_own env
  recordComplete := recordComplete_own env
  removeFile := removeFile_own env
  scan := scan_own env
  note _ _ _ := .of_same rfl rfl rfl

end Requests

/-- Opening a writer of a log touches that log's files only. -/
theorem new_own (env : WriteEnv) (args : NewArgs) {s : WriteState}
    (namePrefix : s.namePrefix = args.namePrefix) (nameSuffix : s.nameSuffix = args.nameSuffix) :
    Meets (LogWrite.new env args) s (fun _ t => Own env s t) (fun _ t => Own env s t) := by
  let R (s t : WriteState) : Prop :=
    s.namePrefix = args.namePrefix ∧ s.nameSuffix = args.nameSuffix → Own env s t
  have whole {α : Type} {x : WriteM α} (own : Preserves (Own env) x) : Preserves R x :=
    fun s => (own s).imp (fun _ _ step _ => step) fun _ _ step _ => step
  have trans {s t u : WriteState} (first : R s t) (second : R t u) : R s u := by
    intro named
    have own := first named
    exact own.trans (second ⟨own.namePrefix.trans named.1, own.nameSuffix.trans named.2⟩)
  have prepares : Preserves R (LogWrite.prepare env args) :=
    prepare_preserves (R := R) (fun s _ => .refl s) trans (whole (tick_own env)) (whole (now_own env))
      (fun id => whole (send_own env id)) (whole (scan_own env)) args
      (fun s clock named => .of_same rfl named.1.symm named.2.symm)
      (fun s clock _ => .of_same rfl rfl rfl)
  rw [LogWrite.new_eq]
  have opens := Leads.bind prepares (fun _ => whole (own_follows env).startSession) trans trans s
  exact opens.imp (fun _ _ step => step ⟨namePrefix, nameSuffix⟩)
    fun _ _ step => step ⟨namePrefix, nameSuffix⟩

/-! ## Two logs taking turns -/

/-- The name of a log. -/
structure LogName where
  namePrefix : Bytes
  nameSuffix : Bytes
  deriving DecidableEq, Repr

/-- The log claims a file of this name. -/
def LogName.Claims (log : LogName) (name : Bytes) : Prop :=
  (idFromName name log.namePrefix log.nameSuffix).isSome = true

instance (log : LogName) (name : Bytes) : Decidable (log.Claims name) :=
  inferInstanceAs (Decidable ((idFromName name log.namePrefix log.nameSuffix).isSome = true))

theorem LogName.claims_iff {log : LogName} {name : Bytes} :
    log.Claims name ↔ ∃ id, name = buildName log.namePrefix id log.nameSuffix := by
  rw [Claims, Option.isSome_iff_exists]
  exact exists_congr fun _ => idFromName_eq_some_iff

/-- What becomes of a file. -/
inductive Act
  | created
  | sent
  | removed
  | opened
  deriving DecidableEq, Repr

/-- A file that a writer or a reader of the first or the second log touched. -/
structure Touch where
  second : Bool
  act : Act
  name : Bytes
  deriving DecidableEq, Repr

/-- The file an event of a writer touched. -/
def WriteEvent.touch (second : Bool) (log : LogWrite) : WriteEvent → Option Touch
  | .created id => some ⟨second, .created, buildName log.namePrefix id log.nameSuffix⟩
  | .sent id => some ⟨second, .sent, buildName log.namePrefix id log.nameSuffix⟩
  | .removed id => some ⟨second, .removed, buildName log.namePrefix id log.nameSuffix⟩
  | _ => none

/-- The file a request of a reader opened. -/
def ReadOp.touch (second : Bool) (log : LogRead) (op : ReadOp) : Option Touch :=
  if op.request = .openFile then
    some ⟨second, .opened, buildName log.namePrefix op.id log.nameSuffix⟩
  else none

/-- A turn: a writer is opened, called or dropped, or a reader opened and called. -/
inductive Turn
  | opens (args : NewArgs)
  | calls (call : Call)
  | drops
  | reads (env : ReadEnv) (caps : Nat → Nat) (calls : Nat)

/-- A directory that two logs share, with the writers open on it and the files touched so far. -/
structure Shared where
  dir : Dir
  writers : Bool → Option WriteState
  touches : List Touch

namespace Shared

variable (logs : Bool → LogName) (env : WriteEnv)

/-- The directory after a turn of a writer, which is still open or not. -/
def wrote (shared : Shared) (second isOpen : Bool) (t : WriteState) : Shared where
  dir := t.dir
  writers := Function.update shared.writers second (if isOpen then some t else none)
  touches := shared.touches ++ t.events.filterMap (WriteEvent.touch second t.toLogWrite)

/-- The writer of a log, on the directory as the other log left it. -/
def taking (shared : Shared) (s : WriteState) : Trail where
  state := { s with dir := shared.dir, events := [] }
  deeds := []
  journal := ⟨[], []⟩

/-- A writer not yet open. -/
def blank (shared : Shared) (log : LogName) : WriteState :=
  { (Trail.start shared.dir).state with
    namePrefix := log.namePrefix, nameSuffix := log.nameSuffix }

/-- One turn of a log. -/
def turn (shared : Shared) (second : Bool) : Turn → Shared
  | .opens args =>
      let args := { args with
        namePrefix := (logs second).namePrefix, nameSuffix := (logs second).nameSuffix }
      let (result, t) := Trail.ending (LogWrite.new env args) (shared.blank (logs second))
      shared.wrote second result.isOk t
  | .calls call =>
      match shared.writers second with
      | none => shared
      | some s => shared.wrote second true ((shared.taking s).call env call).state
  | .drops =>
      match shared.writers second with
      | none => shared
      | some s => shared.wrote second false (Trail.ending (LogWrite.drop env) (shared.taking s).state).2
  | .reads readEnv caps calls =>
      match LogRead.new env.isDir (some shared.dir) (logs second).namePrefix
          (logs second).nameSuffix with
      | .error _ => shared
      | .ok log =>
          let t := (readCalls readEnv caps calls log.begin).2
          { shared with
            touches := shared.touches ++ t.ops.filterMap (ReadOp.touch second t.toLogRead) }

/-- Turns of the two logs, each in its own surroundings, from a directory without writers. -/
def run (dir : Dir) (turns : List (Bool × WriteEnv × Turn)) : Shared :=
  turns.foldl (fun shared taken => shared.turn logs taken.2.1 taken.1 taken.2.2)
    ⟨dir, fun _ => none, []⟩

/-- Every writer bears its log's name, and every file touched was one of the log that touched it. -/
structure Apart (shared : Shared) : Prop where
  namePrefix : ∀ second s, shared.writers second = some s →
    s.namePrefix = (logs second).namePrefix
  nameSuffix : ∀ second s, shared.writers second = some s →
    s.nameSuffix = (logs second).nameSuffix
  touches : ∀ touch ∈ shared.touches, (logs touch.second).Claims touch.name

variable {logs} {env} {shared : Shared} {second : Bool}

theorem apart_start (dir : Dir) : Apart logs ⟨dir, fun _ => none, []⟩ where
  namePrefix := fun _ _ isOpen => absurd isOpen (by simp)
  nameSuffix := fun _ _ isOpen => absurd isOpen (by simp)
  touches := fun _ mem => absurd mem (by simp)

/-- What a writer with the names of its log touches is claimed by the log. -/
theorem claims_of_event {log : LogWrite} {name : LogName} (namePrefix : log.namePrefix = name.namePrefix)
    (nameSuffix : log.nameSuffix = name.nameSuffix) {event : WriteEvent} {touch : Touch}
    (touched : event.touch second log = some touch) :
    touch.second = second ∧ name.Claims touch.name := by
  have claims (id : SegId) : name.Claims (buildName log.namePrefix id log.nameSuffix) :=
    LogName.claims_iff.mpr ⟨id, by rw [namePrefix, nameSuffix]⟩
  cases event <;> simp only [WriteEvent.touch, Option.some.injEq, reduceCtorEq] at touched
  all_goals
    subst touched
    exact ⟨rfl, claims _⟩

theorem Apart.wrote (apart : Apart logs shared) (isOpen : Bool) {t : WriteState}
    (namePrefix : t.namePrefix = (logs second).namePrefix)
    (nameSuffix : t.nameSuffix = (logs second).nameSuffix) :
    Apart logs (shared.wrote second isOpen t) := by
  have writer (other : Bool) (s : WriteState)
      (isWriter : (shared.wrote second isOpen t).writers other = some s) :
      other = second ∧ s = t ∨ shared.writers other = some s := by
    by_cases same : other = second
    · subst same
      simp only [Shared.wrote, Function.update_self] at isWriter
      cases isOpen with
      | true => exact .inl ⟨rfl, (Option.some.inj isWriter).symm⟩
      | false => contradiction
    · simp only [Shared.wrote, Function.update_of_ne same] at isWriter
      exact .inr isWriter
  constructor
  · intro other s isWriter
    rcases writer other s isWriter with ⟨rfl, rfl⟩ | before
    · exact namePrefix
    · exact apart.namePrefix other s before
  · intro other s isWriter
    rcases writer other s isWriter with ⟨rfl, rfl⟩ | before
    · exact nameSuffix
    · exact apart.nameSuffix other s before
  · intro touch mem
    rcases List.mem_append.mp mem with before | here
    · exact apart.touches touch before
    · obtain ⟨event, -, touched⟩ := List.mem_filterMap.mp here
      obtain ⟨rfl, claims⟩ := claims_of_event namePrefix nameSuffix touched
      exact claims

/-- A reader keeps the names it was opened with. -/
theorem names_upheld (readEnv : ReadEnv) (log : LogName) : Upholds readEnv fun reader =>
    reader.namePrefix = log.namePrefix ∧ reader.nameSuffix = log.nameSuffix := by
  have opens (ids : List SegId) : Maintains (Upheld fun reader : LogRead =>
      reader.namePrefix = log.namePrefix ∧ reader.nameSuffix = log.nameSuffix)
      (openNextOf readEnv ids) := by
    induction ids with
    | nil => exact .bind (.modify fun _ named => named) fun _ => .pure _
    | cons id rest ih =>
        refine .bind (.modify fun _ named => named) fun _ => .bind ?_ fun found => ?_
        · exact sameLog_holds fun s => (openValidated_onlyAsked readEnv id s).imp
            (fun _ _ asked => asked.toLogRead_eq) fun _ _ asked => asked.toLogRead_eq
        cases found with
        | none => exact ih
        | some segment =>
            refine .bind_get fun s named => meets_ite.mpr ⟨fun _ => named, fun _ => ?_⟩
            constructor
            · exact (LogRead.adopt_namePrefix _ _).trans named.1
            · exact (LogRead.adopt_nameSuffix _ _).trans named.2
  exact {
    openNext := .bind_get fun s named => opens _ s named
    rejected := fun _ named => named
    moved := fun _ named => named
    closed := fun named => named
    noted := fun named => named }

/-- What a reader with the names of its log opens is claimed by the log. -/
theorem claims_of_op {reader : LogRead} {name : LogName}
    (named : reader.namePrefix = name.namePrefix ∧ reader.nameSuffix = name.nameSuffix)
    {op : ReadOp} {touch : Touch} (touched : op.touch second reader = some touch) :
    touch.second = second ∧ name.Claims touch.name := by
  rw [ReadOp.touch] at touched
  split at touched
  · rw [← Option.some.inj touched]
    exact ⟨rfl, LogName.claims_iff.mpr ⟨op.id, by rw [named.1, named.2]⟩⟩
  · contradiction

theorem Apart.turn (apart : Apart logs shared) (turn : Turn) :
    Apart logs (shared.turn logs env second turn) := by
  cases turn with
  | opens args =>
      have own := ending_meets (new_own env { args with
        namePrefix := (logs second).namePrefix, nameSuffix := (logs second).nameSuffix }
        (s := shared.blank (logs second)) rfl rfl)
      exact apart.wrote _ own.namePrefix own.nameSuffix
  | calls call =>
      rw [Shared.turn]
      cases isWriter : shared.writers second with
      | none => exact apart
      | some s =>
          have own := (own_follows env).call (shared.taking s) call
          exact apart.wrote true (own.namePrefix.trans (apart.namePrefix second s isWriter))
            (own.nameSuffix.trans (apart.nameSuffix second s isWriter))
  | drops =>
      rw [Shared.turn]
      cases isWriter : shared.writers second with
      | none => exact apart
      | some s =>
          have own := ending_meets ((own_follows env).toWrites.drop (shared.taking s).state)
          exact apart.wrote false (own.namePrefix.trans (apart.namePrefix second s isWriter))
            (own.nameSuffix.trans (apart.nameSuffix second s isWriter))
  | reads readEnv caps calls =>
      rw [Shared.turn]
      cases isNew : LogRead.new env.isDir (some shared.dir) (logs second).namePrefix
          (logs second).nameSuffix with
      | error e => exact apart
      | ok log =>
          obtain ⟨listed, -, begins⟩ := LogRead.new_spec isNew
          have named : Upheld (fun reader : LogRead => reader.namePrefix = (logs second).namePrefix ∧
              reader.nameSuffix = (logs second).nameSuffix) log.begin :=
            ⟨begins.namePrefix, begins.nameSuffix⟩
          have named' : Upheld _ (readCalls readEnv caps calls log.begin).2 :=
            (names_upheld readEnv (logs second)).readCalls calls named
          refine ⟨apart.namePrefix, apart.nameSuffix, fun touch mem => ?_⟩
          rcases List.mem_append.mp mem with before | here
          · exact apart.touches touch before
          · obtain ⟨op, -, touched⟩ := List.mem_filterMap.mp here
            obtain ⟨rfl, claims⟩ := claims_of_op named' touched
            exact claims

/-- However the logs take turns, each touches only files it claims. -/
theorem run_apart (logs : Bool → LogName) (dir : Dir) (turns : List (Bool × WriteEnv × Turn)) :
    Apart logs (run logs dir turns) := by
  suffices all : ∀ shared : Shared, Apart logs shared → Apart logs (turns.foldl
      (fun shared taken => shared.turn logs taken.2.1 taken.1 taken.2.2) shared) from
    all _ (apart_start dir)
  induction turns with
  | nil => exact fun _ apart => apart
  | cons taken turns ih => exact fun _ apart => ih _ (apart.turn taken.2.2)

/-- A turn of a log leaves files it does not claim as they are, if the caller moves nothing onto
them. -/
theorem Apart.others (apart : Apart logs shared) (turn : Turn) {name : Bytes}
    (notOwn : ¬ (logs second).Claims name) (notMoved : ∀ t, env.sends t ≠ .moveTo name) :
    (shared.turn logs env second turn).dir.lookup name = shared.dir.lookup name := by
  have other {namePrefix nameSuffix : Bytes} (same : namePrefix = (logs second).namePrefix)
      (same' : nameSuffix = (logs second).nameSuffix) (id : SegId) :
      name ≠ buildName namePrefix id nameSuffix := by
    rintro rfl
    exact notOwn (LogName.claims_iff.mpr ⟨id, by rw [same, same']⟩)
  cases turn with
  | opens args =>
      have own := ending_meets (new_own env { args with
        namePrefix := (logs second).namePrefix, nameSuffix := (logs second).nameSuffix }
        (s := shared.blank (logs second)) rfl rfl)
      exact own.others name (other rfl rfl) notMoved
  | calls call =>
      rw [Shared.turn]
      cases isWriter : shared.writers second with
      | none => rfl
      | some s =>
          exact ((own_follows env).call (shared.taking s) call).others name
            (other (apart.namePrefix second s isWriter) (apart.nameSuffix second s isWriter)) notMoved
  | drops =>
      rw [Shared.turn]
      cases isWriter : shared.writers second with
      | none => rfl
      | some s =>
          exact (ending_meets ((own_follows env).toWrites.drop (shared.taking s).state)).others name
            (other (apart.namePrefix second s isWriter) (apart.nameSuffix second s isWriter)) notMoved
  | reads readEnv caps calls =>
      rw [Shared.turn]
      cases LogRead.new env.isDir (some shared.dir) (logs second).namePrefix
          (logs second).nameSuffix with
      | error e => rfl
      | ok log => rfl

end Shared

/-! ## Isolation -/

/-- The two logs are kept apart: no name is claimed by both, neither touches a file that the other
created, and a turn of one changes no file of the other. -/
def Isolated (logs : Bool → LogName) : Prop :=
  (∀ name, ¬ ((logs false).Claims name ∧ (logs true).Claims name)) ∧
  ∀ dir turns,
    (∀ made ∈ (Shared.run logs dir turns).touches, ∀ touch ∈ (Shared.run logs dir turns).touches,
      made.act = .created → touch.second ≠ made.second → touch.name ≠ made.name) ∧
    ∀ env second turn name, (logs !second).Claims name → (∀ t, env.sends t ≠ .moveTo name) →
      ((Shared.run logs dir turns).turn logs env second turn).dir.lookup name =
        (Shared.run logs dir turns).dir.lookup name

theorem isolated_of_disjoint {logs : Bool → LogName}
    (disjoint : ∀ name, ¬ ((logs false).Claims name ∧ (logs true).Claims name)) : Isolated logs := by
  have either {second other : Bool} {name : Bytes} (differ : second ≠ other)
      (claims : (logs second).Claims name) : ¬ (logs other).Claims name := by
    intro claims'
    cases second with
    | false =>
        cases other with
        | false => exact differ rfl
        | true => exact disjoint name ⟨claims, claims'⟩
    | true =>
        cases other with
        | false => exact disjoint name ⟨claims', claims⟩
        | true => exact differ rfl
  refine ⟨disjoint, fun dir turns => ⟨?_, ?_⟩⟩
  · intro made made_mem touch touch_mem _ differ same
    have apart := Shared.run_apart logs dir turns
    have claims := apart.touches touch touch_mem
    rw [same] at claims
    exact either differ claims (apart.touches made made_mem)
  · intro env second turn name claims notMoved
    exact (Shared.run_apart logs dir turns).others turn (either (by simp) claims) notMoved

/-- Two logs of accepted and different names are kept apart exactly when their prefixes and
suffixes do not overlap in pieces of an identifier. -/
theorem isolated_iff {logs : Bool → LogName} (isDir : Bool)
    (accepted : ∀ second,
      checkLogLocation isDir (logs second).namePrefix (logs second).nameSuffix = .ok ())
    (distinct : logs false ≠ logs true) :
    Isolated logs ↔
      ¬ (Overlaps (logs false).namePrefix (logs false).nameSuffix (logs true).namePrefix
          (logs true).nameSuffix ∨
        Overlaps (logs true).namePrefix (logs true).nameSuffix (logs false).namePrefix
          (logs false).nameSuffix) := by
  have short (second : Bool) : charCount (logs second).namePrefix ≤ prefixSuffixMaxChars := by
    have ok := accepted second
    rw [checkLogLocation] at ok
    split at ok
    · contradiction
    · split at ok
      · contradiction
      next fits => exact Nat.le_of_not_lt fun long => fits (.inl long)
  have different : ¬ ((logs false).namePrefix = (logs true).namePrefix ∧
      (logs false).nameSuffix = (logs true).nameSuffix) := by
    rintro ⟨same, same'⟩
    apply distinct
    calc logs false = ⟨(logs false).namePrefix, (logs false).nameSuffix⟩ := rfl
      _ = ⟨(logs true).namePrefix, (logs true).nameSuffix⟩ := by rw [same, same']
      _ = logs true := rfl
  rw [← exists_name_iff (short false) (short true) different]
  constructor
  · rintro isolated ⟨id, id', same⟩
    apply isolated.1 (buildName (logs false).namePrefix id (logs false).nameSuffix)
    exact ⟨LogName.claims_iff.mpr ⟨id, rfl⟩, LogName.claims_iff.mpr ⟨id', same⟩⟩
  · intro none
    apply isolated_of_disjoint
    rintro name ⟨claims, claims'⟩
    obtain ⟨id, rfl⟩ := LogName.claims_iff.mp claims
    obtain ⟨id', same⟩ := LogName.claims_iff.mp claims'
    exact none ⟨id, id', same⟩

namespace Sample

/-- Prefixes and suffixes that do not overlap. -/
def apartLogs (second : Bool) : LogName :=
  if second then ⟨[0x62], []⟩ else ⟨[0x61], []⟩

/-- One group of an identifier with its dash, before all else and after all else. -/
def collidingLogs (second : Bool) : LogName :=
  if second then ⟨[0x61, 0x61, 0x61, 0x61, 0x2d], []⟩ else ⟨[], [0x2d, 0x65, 0x65, 0x65, 0x65]⟩

/-- A writer opened when the clock reads `ns`. -/
def opensAt (ns : Nat) : Turn :=
  .opens ⟨[], [], 60, .variableSimple, some ns⟩

/-- The name that both logs claim. -/
def sharedName : Bytes :=
  SegId.display 0xaaaabbbbccccdddd ++ [0x2d, 0x65, 0x65, 0x65, 0x65]

end Sample

/-- Logs whose prefixes are different single letters are kept apart. -/
theorem isolated_sample : Isolated Sample.apartLogs := by
  refine (isolated_iff true (by decide) (by decide)).mpr ?_
  rintro (⟨front, back, same, -⟩ | ⟨front, back, same, -⟩)
  · simp [Sample.apartLogs] at same
  · simp [Sample.apartLogs] at same

/-- A writer that is opened hands over the file that a writer of the other log created. -/
theorem logs_collide :
    (∀ second, checkLogLocation true (Sample.collidingLogs second).namePrefix
      (Sample.collidingLogs second).nameSuffix = .ok ()) ∧
    Sample.collidingLogs false ≠ Sample.collidingLogs true ∧
    ⟨true, .sent, Sample.sharedName⟩ ∈ (Shared.run Sample.collidingLogs ∅
      [(false, Sample.takingEnv, Sample.opensAt 0xaaaabbbbccccdddd),
        (true, Sample.takingEnv, Sample.opensAt 1000)]).touches ∧
    ⟨false, .created, Sample.sharedName⟩ ∈ (Shared.run Sample.collidingLogs ∅
      [(false, Sample.takingEnv, Sample.opensAt 0xaaaabbbbccccdddd),
        (true, Sample.takingEnv, Sample.opensAt 1000)]).touches ∧
    ¬ Isolated Sample.collidingLogs := by
  refine ⟨by decide, by decide, by decide +kernel, by decide +kernel, fun isolated => ?_⟩
  exact isolated.1 Sample.sharedName (by decide +kernel)

end Tcslog
