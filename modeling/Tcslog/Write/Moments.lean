import Tcslog.Write.HandOver

/-!
# A writer's log from one moment to the next

What a writer did tells what the files of its log hold at every moment, one in
the middle of an append included.  A file is appended to while it is the newest
and a new one comes after all that are there, so what the files show at one
moment is a front of what they show at a later one.
-/

namespace Tcslog

open Lib.Program WriteState

/-! ## Files and events -/

/-- What an event makes of a log's files, those handed over being left in
place. -/
def WriteEvent.change (files : SegId → Option Bytes) : WriteEvent → SegId → Option Bytes
  | created id => Function.update files id (some [])
  | appended id bytes => Function.update files id ((files id).map (· ++ bytes))
  | removed id => Function.update files id none
  | _ => files

/-- The file created last. -/
def WriteEvent.newest (last : Option SegId) : WriteEvent → Option SegId
  | created id => some id
  | _ => last

/-- An event that leaves the order of the files alone, `last` being the file
created last. -/
def WriteEvent.Keeps (files : SegId → Option Bytes) (last : Option SegId) : WriteEvent → Prop
  | created id => ∀ a, (files a).isSome → a < id
  | appended id _ => last = some id
  | removed _ => False
  | _ => True

/-- An event that is about no file's content. -/
def WriteEvent.quiet : WriteEvent → Bool
  | created _ => false
  | appended _ _ => false
  | removed _ => false
  | _ => true

/-- What events make of a log's files. -/
def filesAfter (files : SegId → Option Bytes) (events : List WriteEvent) : SegId → Option Bytes :=
  events.foldl WriteEvent.change files

def newestAfter (last : Option SegId) (events : List WriteEvent) : Option SegId :=
  events.foldl WriteEvent.newest last

/-- Every event leaves the order of the files alone. -/
def InTurn : (SegId → Option Bytes) → Option SegId → List WriteEvent → Prop
  | _, _, [] => True
  | files, last, event :: events =>
      event.Keeps files last ∧ InTurn (event.change files) (event.newest last) events

/-- What had happened at some moment: so many events, and of an append perhaps
only a front of its bytes. -/
inductive Front : List WriteEvent → List WriteEvent → Prop
  | nil (events : List WriteEvent) : Front [] events
  | part {id : SegId} {front bytes : Bytes} (grew : front <+: bytes) (events : List WriteEvent) :
      Front [.appended id front] (.appended id bytes :: events)
  | cons (event : WriteEvent) {seen events : List WriteEvent} (more : Front seen events) :
      Front (event :: seen) (event :: events)

section Events

variable {files : SegId → Option Bytes} {last : Option SegId} {event : WriteEvent}
  {events events' seen : List WriteEvent} {id : SegId} {content : Bytes}

theorem inTurn_append : InTurn files last (events ++ events') ↔
    InTurn files last events ∧ InTurn (filesAfter files events) (newestAfter last events) events' := by
  induction events generalizing files last with
  | nil => exact (true_and _).symm.to_iff
  | cons event events ih =>
      rw [List.cons_append, InTurn, InTurn, ih, and_assoc]
      rfl

theorem filesAfter_append :
    filesAfter files (events ++ events') = filesAfter (filesAfter files events) events' :=
  List.foldl_append

theorem newestAfter_append :
    newestAfter last (events ++ events') = newestAfter (newestAfter last events) events' :=
  List.foldl_append

/-- Events about no file's content change no file. -/
theorem quiet_events (files : SegId → Option Bytes) (last : Option SegId)
    (quiet : ∀ event ∈ events, event.quiet) :
    filesAfter files events = files ∧ newestAfter last events = last ∧ InTurn files last events := by
  induction events with
  | nil => exact ⟨rfl, rfl, trivial⟩
  | cons event events ih =>
      obtain ⟨here, later⟩ := List.forall_mem_cons.mp quiet
      obtain ⟨same, newest, inTurn⟩ := ih later
      cases event with
      | created _ => contradiction
      | appended _ _ => contradiction
      | removed _ => contradiction
      | _ => exact ⟨same, newest, trivial, inTurn⟩

/-- A file there stays, and grows only if it is the one created last. -/
theorem WriteEvent.Keeps.grows (keeps : event.Keeps files last) (present : files id = some content) :
    ∃ more, event.change files id = some (content ++ more) ∧
      (last ≠ some id → more = [] ∧ event.newest last ≠ some id) := by
  cases event with
  | created a =>
      have less : id < a := keeps id (Option.isSome_of_eq_some present)
      have differs : id ≠ a := UInt64.ne_of_lt less
      refine ⟨[], ?_, fun _ => ⟨rfl, fun same => differs (Option.some.inj same).symm⟩⟩
      rw [change, Function.update_of_ne differs, present, List.append_nil]
  | appended a bytes =>
      by_cases same : id = a
      · subst same
        refine ⟨bytes, ?_, fun notLast => absurd keeps notLast⟩
        rw [change, Function.update_self, present, Option.map_some]
      · refine ⟨[], ?_, fun notLast => ⟨rfl, notLast⟩⟩
        rw [change, Function.update_of_ne same, present, List.append_nil]
  | removed _ => exact keeps.elim
  | _ =>
      exact ⟨[], present.trans (congrArg some (List.append_nil content).symm),
        fun notLast => ⟨rfl, notLast⟩⟩

theorem InTurn.grows (inTurn : InTurn files last events) (present : files id = some content) :
    ∃ more, filesAfter files events id = some (content ++ more) ∧ (last ≠ some id → more = []) := by
  induction events generalizing files last content with
  | nil => exact ⟨[], by rw [List.append_nil]; exact present, fun _ => rfl⟩
  | cons event events ih =>
      obtain ⟨keeps, inTurn⟩ := inTurn
      obtain ⟨more, here, same⟩ := keeps.grows present
      obtain ⟨more', there, same'⟩ := ih inTurn here
      refine ⟨more ++ more', by rw [← List.append_assoc]; exact there, fun notLast => ?_⟩
      obtain ⟨none, notLast'⟩ := same notLast
      rw [none, same' notLast', List.append_nil]

/-- A file that comes about comes after those that were there. -/
theorem InTurn.new (inTurn : InTurn files last events) (present : (filesAfter files events id).isSome) :
    (files id).isSome ∨ ∀ a, (files a).isSome → a < id := by
  induction events generalizing files last with
  | nil => exact .inl present
  | cons event events ih =>
      obtain ⟨keeps, inTurn⟩ := inTurn
      rcases ih inTurn present with here | after
      · cases event with
        | created a =>
            by_cases same : id = a
            · exact .inr fun b present => same ▸ keeps b present
            · exact .inl (by rwa [WriteEvent.change, Function.update_of_ne same] at here)
        | appended a bytes =>
            by_cases same : id = a
            · subst same
              exact .inl (by simpa [WriteEvent.change] using here)
            · exact .inl (by rwa [WriteEvent.change, Function.update_of_ne same] at here)
        | removed _ => exact keeps.elim
        | _ => exact .inl here
      · refine .inr fun a present => after a ?_
        obtain ⟨content, isContent⟩ := Option.isSome_iff_exists.mp present
        obtain ⟨more, there, _⟩ := keeps.grows isContent
        exact Option.isSome_of_eq_some there

/-- The file created last comes after the others. -/
theorem InTurn.newest_le (inTurn : InTurn files last events)
    (latest : ∀ l, last = some l → ∀ a, (files a).isSome → a ≤ l) :
    ∀ l, newestAfter last events = some l → ∀ a, (filesAfter files events a).isSome → a ≤ l := by
  induction events generalizing files last with
  | nil => exact latest
  | cons event events ih =>
      obtain ⟨keeps, inTurn⟩ := inTurn
      refine ih inTurn ?_
      cases event with
      | created id =>
          rintro _ ⟨⟩ a present
          by_cases same : a = id
          · exact same ▸ UInt64.le_refl _
          · rw [WriteEvent.change, Function.update_of_ne same] at present
            exact UInt64.le_of_lt (keeps a present)
      | appended id bytes =>
          intro l isLast a present
          refine latest l isLast a ?_
          by_cases same : a = id
          · subst same
            simpa [WriteEvent.change] using present
          · rwa [WriteEvent.change, Function.update_of_ne same] at present
      | removed _ => exact keeps.elim
      | _ => exact latest

theorem Front.refl (events : List WriteEvent) : Front events events := by
  induction events with
  | nil => exact .nil []
  | cons event events ih => exact .cons event ih

theorem Front.trans {later : List WriteEvent} (first : Front seen events) (second : Front events later) :
    Front seen later := by
  induction first generalizing later with
  | nil events => exact .nil later
  | part grew events =>
      cases second with
      | part grew' events' => exact .part (grew.trans grew') events'
      | cons _ more => exact .part grew _
  | @cons event seen events more ih =>
      cases second with
      | part grew events' =>
          cases more
          exact .part grew events'
      | cons _ more' => exact .cons event (ih more')

/-- Between two moments there are events as well, the rest of an append among
them. -/
theorem InTurn.rest (inTurn : InTurn files last events) (front : Front seen events) :
    InTurn files last seen ∧ ∃ rest, InTurn (filesAfter files seen) (newestAfter last seen) rest ∧
      filesAfter files events = filesAfter (filesAfter files seen) rest := by
  induction front generalizing files last with
  | nil events => exact ⟨trivial, events, inTurn, rfl⟩
  | @part id front bytes grew events =>
      obtain ⟨keeps, inTurn⟩ := inTurn
      obtain ⟨back, rfl⟩ := grew
      have twice : WriteEvent.change (WriteEvent.change files (.appended id front)) (.appended id back) =
          WriteEvent.change files (.appended id (front ++ back)) := by
        funext a
        by_cases same : a = id
        · subst same
          simp [WriteEvent.change, Function.comp_def]
        · simp [WriteEvent.change, Function.update_of_ne same]
      refine ⟨⟨keeps, trivial⟩, .appended id back :: events, ⟨keeps, ?_⟩, ?_⟩
      · exact twice ▸ inTurn
      · exact congrArg (fun files => filesAfter files events) twice.symm
  | cons event more ih =>
      obtain ⟨keeps, inTurn⟩ := inTurn
      obtain ⟨seenInTurn, rest, restInTurn, same⟩ := ih inTurn
      exact ⟨⟨keeps, seenInTurn⟩, rest, restInTurn, same⟩

end Events

/-! ## What an open writer does -/

/-- The current file, if there is one, is the one created last. -/
def Held (s : WriteState) (last : Option SegId) : Prop :=
  ∀ cur, s.current = some cur → last = some cur.id

/-- What a writer did from one state to another, its files in turn. -/
structure Went (more : List WriteEvent) (s t : WriteState) : Prop where
  adds : Adds more s t
  namePrefix : t.namePrefix = s.namePrefix
  nameSuffix : t.nameSuffix = s.nameSuffix
  files : t.files = filesAfter s.files more
  inTurn : ∀ {last}, Held s last → InTurn s.files last more ∧ Held t (newestAfter last more)

/-- A writer whose clock is past every file takes its files in turn. -/
def GoesInTurn (env : WriteEnv) (s t : WriteState) : Prop :=
  s.Past env → t.Past env ∧ ∃ more, Went more s t

section Writer

variable {env : WriteEnv} {s t u : WriteState} {more more' : List WriteEvent}

theorem Went.trans (first : Went more s t) (second : Went more' t u) : Went (more ++ more') s u := by
  refine ⟨first.adds.trans second.adds, second.namePrefix.trans first.namePrefix,
    second.nameSuffix.trans first.nameSuffix, ?_, fun held => ?_⟩
  · rw [filesAfter_append, second.files, first.files]
  · obtain ⟨before, between⟩ := first.inTurn held
    obtain ⟨after, held'⟩ := second.inTurn between
    rw [newestAfter_append, inTurn_append]
    rw [first.files] at after
    exact ⟨⟨before, after⟩, held'⟩

theorem Went.of_did (did : s.Did s.dir t) (adds : Adds more s t) (quiet : ∀ event ∈ more, event.quiet) :
    Went more s t := by
  refine ⟨adds, by rw [did.same], by rw [did.same], ?_, fun {last} held => ?_⟩
  · rw [did.files_same, (quiet_events _ none quiet).1]
  · obtain ⟨_, newest, inTurn⟩ := quiet_events s.files last quiet
    refine ⟨inTurn, fun cur current => ?_⟩
    rw [did.current] at current
    rw [newest, held cur current]

theorem GoesInTurn.trans (first : GoesInTurn env s t) (second : GoesInTurn env t u) :
    GoesInTurn env s u := by
  intro past
  obtain ⟨past', more, went⟩ := first past
  obtain ⟨past'', more', went'⟩ := second past'
  exact ⟨past'', more ++ more', went.trans went'⟩

theorem GoesInTurn.of_did (did : s.Did s.dir t) (adds : Adds more s t)
    (quiet : ∀ event ∈ more, event.quiet) : GoesInTurn env s t :=
  fun past => ⟨did.past past, more, .of_did did adds quiet⟩

/-- Nothing is done where only the writer's books change. -/
theorem GoesInTurn.of_same (past : s.Past env → t.Past env) (events : t.events = s.events)
    (namePrefix : t.namePrefix = s.namePrefix) (nameSuffix : t.nameSuffix = s.nameSuffix)
    (files : t.files = s.files) (held : ∀ {last}, Held s last → Held t last) : GoesInTurn env s t :=
  fun past' => ⟨past past', [], .of_eq events, namePrefix, nameSuffix, files, fun here => ⟨trivial, held here⟩⟩

theorem WriteEvent.quiet_of_waits {event : WriteEvent} (waits : event.waits) : event.quiet := by
  cases event <;> first | rfl | exact absurd waits Bool.false_ne_true

theorem Dir.files_append {dir : Dir} {namePrefix nameSuffix : Bytes} (id : SegId) (bytes : Bytes) :
    Dir.files (appendTo (buildName namePrefix id nameSuffix) bytes dir) namePrefix nameSuffix =
      WriteEvent.change (dir.files namePrefix nameSuffix) (.appended id bytes) := by
  cases present : dir.files namePrefix nameSuffix id with
  | some content => rw [Dir.files_appendTo present, WriteEvent.change, present, Option.map_some]
  | none =>
      rw [WriteEvent.change, present, Option.map_none, ← present, Function.update_eq_self, appendTo,
        show dir.lookup (buildName namePrefix id nameSuffix) = none from present]

/-- What appending to a file does. -/
theorem writeAll_changes (env : WriteEnv) (id : SegId) (bytes : Bytes) (s : WriteState) :
    Meets (writeAll env id bytes) s
      (fun _ t => ∃ chunk, Adds [.appended id chunk] s t ∧ s.Did t.dir t ∧
        t.files = WriteEvent.change s.files (.appended id chunk))
      (fun _ _ => False) := by
  simp only [writeAll, meets_bind, fileName]
  refine tick_spec.imp ?_ (by simp)
  rintro t _ ⟨rfl, rfl⟩
  simp only [meets_get, meets_pure, meets_ite, emit, meets_bind, meets_modify]
  exact ⟨fun _ => ⟨_, rfl, did_emit (did_tick s) _, Dir.files_append id _⟩,
    fun _ => ⟨_, rfl, did_emit (did_tick s) _, Dir.files_append id _⟩⟩

theorem meets_of_past {α : Type} {x : WriteM α}
    (meets : s.Past env → Meets x s (fun _ t => t.Past env ∧ ∃ more, Went more s t)
      (fun _ t => t.Past env ∧ ∃ more, Went more s t)) :
    Meets x s (fun _ t => GoesInTurn env s t) (fun _ t => GoesInTurn env s t) := by
  by_cases past : s.Past env
  · exact (meets past).imp (fun _ _ went _ => went) fun _ _ went _ => went
  · exact meets_true.imp (fun _ _ _ past' => absurd past' past) fun _ _ _ past' => absurd past' past

/-- A file created comes after those there, and its header is the first thing
appended to it. -/
theorem createSegment_inTurn (opensSession : Bool) (closed : s.current = none) :
    Meets (createSegment env opensSession) s (fun _ t => GoesInTurn env s t)
      (fun _ t => GoesInTurn env s t) := by
  refine meets_of_past fun past => ?_
  rw [createSegment, meets_bind]
  refine ((createUniqueFile_spec env.attempts false past).and (createUniqueFile_adds env _ _ s)).imp ?_ ?_
  · rintro id t ⟨⟨named, did⟩, more, waits, adds⟩
    have quiet : ∀ event ∈ more, event.quiet := fun event mem => WriteEvent.quiet_of_waits (waits event mem)
    have files : t.files = WriteEvent.change s.files (.created id) := did.files_eq.trans Dir.files_insert
    simp only [meets_bind, meets_modify, meets_get]
    refine (writeAll_changes env id _ _).imp ?_ fun _ _ failed => failed.elim
    rintro done u ⟨chunk, wrote, did', files'⟩
    have filesU : u.files = filesAfter s.files (more ++ [.created id, .appended id chunk]) := by
      rw [filesAfter_append, (quiet_events _ none quiet).1, files']
      exact congrArg (fun files => WriteEvent.change files (.appended id chunk)) files
    have went {v : WriteState} (same : v.toLogWrite = { u.toLogWrite with current := v.current })
        (events : v.events = u.events) (filesV : v.files = u.files)
        (held : ∀ cur, v.current = some cur → cur.id = id) :
        Went (more ++ [.created id, .appended id chunk]) s v := by
      refine ⟨?_, ?_, ?_, filesV.trans filesU, fun {last} _ => ?_⟩
      · rw [Adds, events, wrote]
        change t.events ++ _ = _
        rw [adds, List.append_assoc, List.append_assoc]
        rfl
      · rw [same, did'.same]
        change t.namePrefix = s.namePrefix
        rw [did.same]
      · rw [same, did'.same]
        change t.nameSuffix = s.nameSuffix
        rw [did.same]
      · obtain ⟨same, newest, inTurn⟩ := quiet_events s.files last quiet
        rw [inTurn_append, newestAfter_append, same, newest]
        exact ⟨⟨inTurn, named.newest, rfl, trivial⟩, fun cur current => congrArg some (held cur current).symm⟩
    have pastU : ∀ a, (u.files a).isSome → a.toNat ≤ env.reading u.clock u.ops := by
      intro a present
      have clock : u.clock = s.clock := did'.clock.trans did.clock
      have later : t.ops ≤ u.ops := did'.later
      rw [clock]
      rw [files'] at present
      by_cases same : a = id
      · exact same ▸ named.past.trans (env.reading_mono _ later)
      · rw [WriteEvent.change, Function.update_of_ne same] at present
        change (t.files a).isSome at present
        rw [files, WriteEvent.change, Function.update_of_ne same] at present
        exact (past a present).trans (env.reading_mono _ (did.later.trans later))
    have open_ : u.current = none := did'.current.trans (did.current.trans closed)
    cases done with
    | true =>
        refine ⟨pastU, _, went rfl rfl rfl fun cur current => ?_⟩
        exact congrArg Current.id (Option.some.inj current).symm
    | false =>
        refine ⟨pastU, _, went rfl rfl rfl fun cur current => ?_⟩
        rw [open_] at current
        contradiction
  · rintro _ t ⟨⟨_, did⟩, more, waits, adds⟩
    exact ⟨did.past past, more, .of_did did adds fun event mem => WriteEvent.quiet_of_waits (waits event mem)⟩

/-- Every request of a writer takes its files in turn, but for the removals of
`clear`. -/
theorem inTurn_follows (leaves : env.Leaves) : FollowsWrites env (GoesInTurn env) where
  refl s := .of_did (.refl s) (.refl s) (by simp)
  trans := .trans
  createSegment idle _ := createSegment_inTurn false idle
  openSegment := createSegment_inTurn true
  writeAll := fun {s cur} current bytes => by
    refine (writeAll_changes env cur.id bytes s).imp ?_ fun _ _ failed => failed.elim
    rintro _ t ⟨chunk, adds, did, files⟩ past
    refine ⟨fun a present => ?_, _, adds, by rw [did.same], by rw [did.same], files, fun held => ?_⟩
    · have there : (s.files a).isSome := by
        rw [files] at present
        by_cases same : a = cur.id
        · subst same
          simpa [WriteEvent.change] using present
        · rwa [WriteEvent.change, Function.update_of_ne same] at present
      rw [did.clock]
      exact (past a there).trans (env.reading_mono _ did.later)
    · refine ⟨⟨held cur current, trivial⟩, fun cur' current' => ?_⟩
      rw [did.current] at current'
      exact held cur' current'
  flushFile id s := ((flushFile_spec id).and (flushFile_adds env id s)).imp
    (fun _ _ both => .of_did both.1 both.2 (by simp [WriteEvent.quiet]))
    fun _ _ both => .of_did both.1.2 both.2 (by simp)
  send id s := ((send_spec leaves id).and (send_adds env id s)).imp
    (fun _ _ both => .of_did both.1 both.2 (by simp [WriteEvent.quiet]))
    fun _ _ both => .of_did both.1.2 both.2 (by simp)
  now s := (now_spec.and (now_adds env s)).imp
    (fun _ _ both => .of_did both.1.1 both.2 (by simp)) fun _ _ both => .of_did both.1.2 both.2 (by simp)
  recordComplete id s := ((recordComplete_spec id).and (recordComplete_adds env id s)).imp
    (fun _ _ both => .of_did both.1 both.2 (by simp [WriteEvent.quiet]))
    fun _ _ both => .of_did both.1.2 both.2 (by simp)
  close s := .of_same id rfl rfl rfl rfl fun _ _ none => by contradiction
  wrote := fun {s cur} current take _ => by
    refine .of_same id rfl rfl rfl rfl fun held cur' current' => ?_
    obtain rfl := Option.some.inj current'
    exact held cur current
  book _ _ _ := .of_same id rfl rfl rfl rfl id
  note _ _ _ := .of_same id rfl rfl rfl rfl id

/-! ## The life of a writer -/

/-- Before it creates a file a writer that is opened hands over what is there,
and its clock is past it. -/
theorem prepare_ready (leaves : env.Leaves) (args : NewArgs) (s : WriteState) :
    Meets (LogWrite.prepare env args) s
      (fun _ t => t.Past env ∧ t.current = none ∧ t.namePrefix = args.namePrefix ∧
        t.nameSuffix = args.nameSuffix ∧ t.files = s.dir.files args.namePrefix args.nameSuffix ∧
        ∃ ids : List SegId, Adds (ids.map .sent) s t)
      (fun _ _ => True) := by
  have sameDir : Preserves (fun s t : WriteState => t.dir = s.dir) (LogWrite.prepare env args) :=
    prepare_preserves (R := fun s t => t.dir = s.dir) (fun _ => rfl) (fun first second => second.trans first)
      (fun _ => rfl)
      (fun s => now_spec.imp (fun _ _ did => did.1.dir_eq) fun _ _ failed => failed.2.dir_eq)
      (fun id s => (send_spec leaves id).imp (fun _ _ did => did.dir_eq) fun _ _ failed => failed.2.dir_eq)
      (fun s => scan_spec.imp (fun _ _ did => did.2.dir_eq) fun _ _ failed => failed.2.dir_eq) args
      (fun _ _ => rfl) fun _ _ => rfl
  refine ((sameDir s).and ((prepare_sends args).and (prepare_passes args))).imp ?_ fun _ _ _ => trivial
  rintro _ t ⟨dir, ⟨_, sends⟩, _, _, ⟨clock, fresh⟩, past⟩
  have namePrefix : t.namePrefix = args.namePrefix := by rw [fresh]; rfl
  have nameSuffix : t.nameSuffix = args.nameSuffix := by rw [fresh]; rfl
  have files : t.files = s.dir.files args.namePrefix args.nameSuffix := by
    rw [WriteState.files, namePrefix, nameSuffix, dir]
  refine ⟨fun id present => ?_, by rw [fresh]; rfl, namePrefix, nameSuffix, files, _, sends⟩
  rw [files, ← mem_scan] at present
  exact (past id present).le

/-- From its opening on a writer that is not told to clear its log takes the
files in turn. -/
theorem live_inTurn (leaves : env.Leaves) {life : Life} {trail : Trail} {a : Unit}
    (opened : (LogWrite.new env life.args).run trail.state = .ok a t) (keeps : .clear ∉ life.calls) :
    ∃ more, (trail.live env life).state.events = trail.state.events ++ more ∧
      InTurn (trail.state.dir.files life.args.namePrefix life.args.nameSuffix) none more ∧
      (trail.live env life).state.dir.files life.args.namePrefix life.args.nameSuffix =
        filesAfter (trail.state.dir.files life.args.namePrefix life.args.nameSuffix) more := by
  have follows := inTurn_follows leaves
  have began := opened
  rw [LogWrite.new_eq, EStateM.run_bind] at began
  cases prepared : (LogWrite.prepare env life.args).run trail.state with
  | error stop v =>
      rw [prepared] at began
      contradiction
  | ok _ v =>
      rw [prepared] at began
      obtain ⟨past, closed, namePrefix, nameSuffix, files, sent, sends⟩ :=
        (prepare_ready leaves life.args trail.state).of_ok prepared
      have started : GoesInTurn env v t := (follows.startSession closed).of_ok began
      have called := follows.calls ⟨t, trail.deeds ++ [.opened life.args none], trail.journal.begin t⟩ keeps
      have went := (started.trans called).trans (ending_meets (follows.drop _))
      obtain ⟨_, more, went⟩ := went past
      have quiet : ∀ event ∈ sent.map WriteEvent.sent, event.quiet := by
        intro event mem
        obtain ⟨id, _, rfl⟩ := List.mem_map.mp mem
        rfl
      obtain ⟨same, newest, sentInTurn⟩ := quiet_events
        (trail.state.dir.files life.args.namePrefix life.args.nameSuffix) none quiet
      have held : Held v none := by
        intro cur current
        rw [closed] at current
        contradiction
      obtain ⟨inTurn, _⟩ := went.inTurn held
      rw [Trail.live_of_ok opened]
      refine ⟨sent.map .sent ++ more, ?_, ?_, ?_⟩
      · exact (sends.trans went.adds)
      · rw [inTurn_append, same, newest]
        exact ⟨sentInTurn, files ▸ inTurn⟩
      · rw [filesAfter_append, same, ← files, ← went.files, WriteState.files, went.namePrefix,
          went.nameSuffix, namePrefix, nameSuffix]
        rfl

end Writer

end Tcslog
