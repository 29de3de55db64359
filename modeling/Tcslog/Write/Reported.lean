import Tcslog.Write.HandOver
import Tcslog.Write.Made

/-!
# The identifiers a writer reports

A writer reports the identifiers of the file it writes and of its session.
While it has no file open it reports its session for both, which is the file it
last made current only if that was the first of its session.
-/

namespace Tcslog

open Lib.Program Lib.Noting

/-- The segment ID of the segment file being written. -/
def LogWrite.currentSegmentId (log : LogWrite) : SegId :=
  match log.current with
  | some current => current.id
  | none => log.sessionId

/-- The writer reports the file most recently made current, and the session
stored in its header. -/
def ReportsLast (s : WriteState) : Prop :=
  ∃ header, madeCurrent s.events = some header ∧
    s.currentSegmentId = header.segmentId ∧ s.sessionId = header.sessionId

instance (s : WriteState) : Decidable (ReportsLast s) :=
  decidable_of_iff ((madeCurrent s.events).any fun header =>
      s.currentSegmentId = header.segmentId ∧ s.sessionId = header.sessionId) <| by
    rw [Option.any_eq_true, ReportsLast]
    simp only [decide_eq_true_eq]

/-! ## What a writer does with its files -/

/-- Nothing changed that a writer reports. -/
structure Stays (s t : WriteState) : Prop where
  current : t.current.map Current.id = s.current.map Current.id
  sessionId : t.sessionId = s.sessionId
  made : madeBy t.events = madeBy s.events
  later : s.ops ≤ t.ops
  clock : t.clock = s.clock

/-- A run of a writer, with the state it was in before each change of its file. -/
inductive Does (env : WriteEnv) : WriteState → List (WriteState × Change) → WriteState → Prop
  | refl (s : WriteState) : Does env s [] s
  | stays {s t u : WriteState} {changes : List (WriteState × Change)} (stays : Stays s t)
      (more : Does env t changes u) : Does env s changes u
  | closes {s t u : WriteState} {changes : List (WriteState × Change)} (isOpen : s.current.isSome)
      (stays : Stays { s with current := none } t) (more : Does env t changes u) :
      Does env s ((s, .closes) :: changes) u
  | adopts {s t u : WriteState} {changes : List (WriteState × Change)} {header : SegmentHeader}
      (current : t.current.map Current.id = some header.segmentId)
      (made : madeCurrent t.events = some header) (sessionId : header.sessionId = t.sessionId)
      (past : header.segmentId.toNat ≤ env.reading t.clock t.ops) (more : Does env t changes u) :
      Does env s ((s, .adopts) :: changes) u
  | misnames {s named t u : WriteState} {changes : List (WriteState × Change)} (idle : s.current = none)
      (closed : t.current = none) (made : madeCurrent t.events = madeCurrent s.events)
      (names : Names env s t.sessionId named) (later : s.ops ≤ t.ops) (clock : t.clock = s.clock)
      (more : Does env t changes u) : Does env s ((s, .misnames) :: changes) u

/-- After the change the writer reports the file it last made current: that is
the first of its session if it is closed, and if the file named for a new
session gets no header the name it is given is that of the last file, which was
the first of its session, is gone, and bears the time that the clock still
reads. -/
def Change.Harmless (env : WriteEnv) (change : Change) (before : WriteState) : Prop :=
  match change with
  | .closes => before.current.map Current.id = some before.sessionId
  | .adopts => True
  | .misnames => ∃ header, madeCurrent before.events = some header ∧
      header.sessionId = header.segmentId ∧ before.files header.segmentId = none ∧
      env.reading before.clock before.ops = header.segmentId.toNat

/-- The last change leaves the writer with a file, or does no harm. -/
def EndsWell (env : WriteEnv) (changes : List (WriteState × Change)) : Prop :=
  ∀ last, changes.getLast? = some last → last.2.Harmless env last.1

instance (env : WriteEnv) (change : Change) (before : WriteState) : Decidable (change.Harmless env before) :=
  match change with
  | .closes => inferInstanceAs (Decidable (_ = _))
  | .adopts => inferInstanceAs (Decidable True)
  | .misnames => decidable_of_iff ((madeCurrent before.events).any fun header =>
      header.sessionId = header.segmentId ∧ before.files header.segmentId = none ∧
        env.reading before.clock before.ops = header.segmentId.toNat) <| by
    rw [Option.any_eq_true, Change.Harmless]
    simp only [decide_eq_true_eq]

instance (env : WriteEnv) (changes : List (WriteState × Change)) : Decidable (EndsWell env changes) :=
  decidable_of_iff (changes.getLast?.all fun last => last.2.Harmless env last.1) <| by
    simp [Option.all_eq_true, EndsWell]

/-- The current file is the one last made current, and the clock reads no less
than the name of that. -/
structure Tracks (env : WriteEnv) (s : WriteState) : Prop where
  current : ∀ current, s.current = some current → ∃ header, madeCurrent s.events = some header ∧
    header.segmentId = current.id ∧ header.sessionId = s.sessionId
  past : ∀ header, madeCurrent s.events = some header →
    header.segmentId.toNat ≤ env.reading s.clock s.ops

section Does

variable {env : WriteEnv} {s t u : WriteState} {changes more : List (WriteState × Change)}

theorem Does.trans (first : Does env s changes t) (second : Does env t more u) :
    Does env s (changes ++ more) u := by
  induction first with
  | refl => exact second
  | stays stays _ ih => exact .stays stays (ih second)
  | closes isOpen stays _ ih => exact .closes isOpen stays (ih second)
  | adopts current made sessionId past _ ih => exact .adopts current made sessionId past (ih second)
  | misnames idle closed made names later clock _ ih =>
      exact .misnames idle closed made names later clock (ih second)

theorem Stays.madeCurrent (stays : Stays s t) : madeCurrent t.events = madeCurrent s.events := by
  rw [Tcslog.madeCurrent, stays.made]
  rfl

theorem Stays.closed (stays : Stays s t) (closed : s.current = none) : t.current = none := by
  have same := stays.current
  rw [closed] at same
  exact Option.map_eq_none_iff.mp same

theorem Stays.currentSegmentId (stays : Stays s t) : t.currentSegmentId = s.currentSegmentId := by
  have same := stays.current
  rw [LogWrite.currentSegmentId, LogWrite.currentSegmentId, stays.sessionId]
  cases left : t.current with
  | none =>
      cases right : s.current with
      | none => rfl
      | some _ => simp [left, right] at same
  | some _ =>
      cases right : s.current with
      | none => simp [left, right] at same
      | some _ => simpa [left, right] using same

theorem Stays.reportsLast (stays : Stays s t) : ReportsLast t ↔ ReportsLast s := by
  rw [ReportsLast, ReportsLast, stays.madeCurrent, stays.currentSegmentId, stays.sessionId]

theorem Stays.tracks (stays : Stays s t) (tracks : Tracks env s) : Tracks env t := by
  refine ⟨fun current isOpen => ?_, fun header made => ?_⟩
  · have same := stays.current
    rw [isOpen] at same
    obtain ⟨current', isOpen', id⟩ := Option.map_eq_some_iff.mp same.symm
    obtain ⟨header, made, segmentId, sessionId⟩ := tracks.current current' isOpen'
    exact ⟨header, stays.madeCurrent.trans made, segmentId.trans id, sessionId.trans stays.sessionId.symm⟩
  · rw [stays.clock]
    exact (tracks.past header (stays.madeCurrent ▸ made)).trans (env.reading_mono _ stays.later)

/-- A writer without a file has only the last one to keep track of. -/
theorem Tracks.of_closed (closed : t.current = none) (made : madeCurrent t.events = madeCurrent s.events)
    (later : s.ops ≤ t.ops) (clock : t.clock = s.clock) (tracks : Tracks env s) : Tracks env t := by
  refine ⟨fun current isOpen => ?_, fun header isMade => ?_⟩
  · rw [closed] at isOpen
    contradiction
  · rw [clock]
    exact (tracks.past header (made ▸ isMade)).trans (env.reading_mono _ later)

/-- A writer without a file reports its session for both. -/
theorem reportsLast_of_closed (closed : t.current = none) : ReportsLast t ↔
    ∃ header, madeCurrent t.events = some header ∧ header.segmentId = t.sessionId ∧
      header.sessionId = t.sessionId := by
  have reported : t.currentSegmentId = t.sessionId := by rw [LogWrite.currentSegmentId, closed]
  rw [ReportsLast, reported]
  constructor
  · rintro ⟨header, made, segmentId, sessionId⟩
    exact ⟨header, made, segmentId.symm, sessionId.symm⟩
  · rintro ⟨header, made, segmentId, sessionId⟩
    exact ⟨header, made, segmentId.symm, sessionId.symm⟩

/-- A writer with a file reports the file it last made current. -/
theorem Tracks.reportsLast (tracks : Tracks env s) (isOpen : s.current.isSome) : ReportsLast s := by
  obtain ⟨current, isOpen⟩ := Option.isSome_iff_exists.mp isOpen
  obtain ⟨header, made, segmentId, sessionId⟩ := tracks.current current isOpen
  refine ⟨header, made, ?_, sessionId.symm⟩
  rw [LogWrite.currentSegmentId, isOpen, segmentId]

/-- A name is given again just if its file is gone and the clock still reads
it. -/
theorem Names.again {id used : SegId} (names : Names env s id t)
    (past : used.toNat ≤ env.reading s.clock s.ops) :
    used = id ↔ s.files used = none ∧ env.reading s.clock s.ops = used.toNat := by
  constructor
  · rintro rfl
    obtain ⟨n, later, _, isReading⟩ := names.reading
    exact ⟨names.free, le_antisymm (isReading ▸ env.reading_mono _ later) past⟩
  · rintro ⟨gone, same⟩
    have first := names.first
    rw [same, UInt64.ofNat_toNat] at first
    exact (first gone).symm

theorem endsWell_cons {change : WriteState × Change} :
    EndsWell env (change :: changes) ↔
      if changes = [] then change.2.Harmless env change.1 else EndsWell env changes := by
  cases changes with
  | nil => simp [EndsWell]
  | cons next changes => simp [EndsWell]

/-- After a change the reports depend on it and on the changes that follow. -/
theorem reportsLast_cons {change : Change}
    (here : ReportsLast t ↔ change.Harmless env s)
    (there : ReportsLast u ↔ if changes = [] then ReportsLast t else EndsWell env changes) :
    ReportsLast u ↔ if (s, change) :: changes = [] then ReportsLast s
      else EndsWell env ((s, change) :: changes) := by
  rw [if_neg (List.cons_ne_nil _ _), endsWell_cons, there]
  split
  · exact here
  · rfl

/-- A writer that closed its file reports it just if it was the first of its
session. -/
theorem Stays.reportsLast_closes (stays : Stays { s with current := none } t) (isOpen : s.current.isSome)
    (tracks : Tracks env s) : ReportsLast t ↔ Change.closes.Harmless env s := by
  obtain ⟨current, isOpen⟩ := Option.isSome_iff_exists.mp isOpen
  obtain ⟨header, last, segmentId, session⟩ := tracks.current current isOpen
  have same : Tcslog.madeCurrent t.events = some header := stays.madeCurrent.trans last
  rw [reportsLast_of_closed (stays.closed rfl), same, stays.sessionId, Change.Harmless, isOpen]
  simp only [Option.map_some, Option.some.injEq, exists_eq_left']
  rw [segmentId]
  exact ⟨fun both => both.1, fun first => ⟨first, session⟩⟩

/-- A writer whose new session got no header reports the file it last made
current just if it named the new one the same. -/
theorem Names.reportsLast_misnames (names : Names env s t.sessionId u) (closed : t.current = none)
    (made : madeCurrent t.events = madeCurrent s.events) (tracks : Tracks env s) :
    ReportsLast t ↔ Change.misnames.Harmless env s := by
  rw [reportsLast_of_closed closed, made, Change.Harmless]
  refine exists_congr fun header => and_congr_right fun isMade => ?_
  rw [← names.again (tracks.past header isMade)]
  constructor
  · exact fun ⟨segmentId, sessionId⟩ => ⟨sessionId.trans segmentId.symm, segmentId⟩
  · exact fun ⟨first, segmentId⟩ => ⟨segmentId, first.trans segmentId⟩

/-- Where a run leads, the writer reports the file last made current just if
the run ends well, or changes nothing. -/
theorem Does.reportsLast (does : Does env s changes t) (tracks : Tracks env s) :
    Tracks env t ∧ (ReportsLast t ↔ if changes = [] then ReportsLast s else EndsWell env changes) := by
  induction does with
  | refl s => exact ⟨tracks, (if_pos rfl).symm ▸ Iff.rfl⟩
  | stays stays _ ih =>
      rw [← stays.reportsLast]
      exact ih (stays.tracks tracks)
  | @closes s _ _ _ isOpen stays _ ih =>
      have tracksClosed : Tracks env { s with current := none } :=
        Tracks.of_closed (s := s) rfl rfl (Nat.le_refl _) rfl tracks
      obtain ⟨tracksLast, there⟩ := ih (stays.tracks tracksClosed)
      exact ⟨tracksLast, reportsLast_cons (stays.reportsLast_closes isOpen tracks) there⟩
  | @adopts s v _ changes header current made sessionId past _ ih =>
      have tracksNew : Tracks env v := by
        refine ⟨fun current' isOpen => ?_, fun header' isMade => ?_⟩
        · rw [isOpen] at current
          exact ⟨header, made, (Option.some.inj current).symm, sessionId⟩
        · obtain rfl := Option.some.inj (made.symm.trans isMade)
          exact past
      obtain ⟨tracksLast, there⟩ := ih tracksNew
      refine ⟨tracksLast, reportsLast_cons ?_ there⟩
      refine iff_of_true (tracksNew.reportsLast ?_) trivial
      rw [← Option.isSome_map (f := Current.id), current]
      rfl
  | misnames idle closed made names later clock _ ih =>
      obtain ⟨tracksLast, there⟩ := ih (tracks.of_closed closed made later clock)
      exact ⟨tracksLast, reportsLast_cons (names.reportsLast_misnames closed made tracks) there⟩

end Does

/-! ## The calls of a writer -/

section Calls

variable {env : WriteEnv} {s t u : WriteState}

theorem Stays.does (stays : Stays s t) (format : t.format = s.format) (calm : Calm s) :
    Calm t ∧ Does env s [] t :=
  ⟨⟨stays.made ▸ calm.naming, format ▸ calm.sound⟩, .stays stays (.refl t)⟩

theorem Asked.stays (asked : Asked s t) (calm : Calm s) : Stays s t := by
  have same := asked.same
  refine ⟨?_, ?_, asked.made calm, asked.later, asked.clock⟩
  · rw [same]
  · rw [same]

/-- What a writer notes of the changes of its file is a run of them. -/
theorem attests_does : Attests env fun s notes t =>
    Calm s → Calm t ∧ Does env s (Note.changes notes) t where
  refl s calm := ⟨calm, .refl s⟩
  trans first second calm := by
    obtain ⟨calm, does⟩ := first calm
    obtain ⟨calm, does'⟩ := second calm
    rw [Note.changes_append]
    exact ⟨calm, does.trans does'⟩
  creates := by
    intro opensSession s notes t idle creates calm
    cases creates with
    | unnamed failed =>
        have asked := (createUniqueFile_names env _ _ s).of_error failed
        exact (asked.stays calm).does (by rw [asked.same]) calm
    | @stored t u id header named isHeader wrote =>
        have heads := heads_of_wrote calm named isHeader wrote
        have same := heads.same
        subst isHeader
        have does : Does env s [(s, .adopts)] { u with current := some ⟨id, 0⟩ } :=
          .adopts (t := { u with current := some ⟨id, 0⟩ }) rfl (by rw [madeCurrent, heads.made]; simp)
            (by rw [same]) heads.past (.refl _)
        refine ⟨⟨congrArg Made.naming heads.made, ?_⟩, does⟩
        change u.format ≠ _
        rw [same]
        exact calm.sound
    | @refused _ _ id header ran isHeader wrote =>
        have heads := heads_of_wrote calm ran isHeader wrote
        have same := heads.same
        have made : madeCurrent t.events = madeCurrent s.events := by
          rw [madeCurrent, heads.made]
          rfl
        have calmThen : Calm t := ⟨congrArg Made.naming heads.made, by rw [same]; exact calm.sound⟩
        have clock : t.clock = s.clock := by rw [same]
        have kept := congrArg LogWrite.sessionId ((createUniqueFile_names env _ _ s).of_ok ran).same
        obtain ⟨v, names⟩ := heads.names
        subst isHeader
        cases opensSession with
        | true =>
            have closed : t.current = none := by rw [same]; exact idle rfl
            have sessionId : t.sessionId = id := by rw [same]; rfl
            have names : Names env s t.sessionId v := sessionId ▸ names
            have does : Does env s [(s, .misnames)] t :=
              .misnames (idle rfl) closed made names heads.later clock (.refl t)
            exact ⟨calmThen, does⟩
        | false =>
            have unmade : madeBy t.events = madeBy s.events := by
              rw [heads.made, ← calm.naming]
              rfl
            have sessionId : t.sessionId = s.sessionId := by
              rw [same]
              exact kept
            have does : Does env s [] t :=
              .stays ⟨by rw [same], sessionId, unmade, heads.later, clock⟩ (.refl t)
            exact ⟨calmThen, does⟩
  closes := by
    intro s isOpen calm
    refine ⟨⟨calm.naming, calm.sound⟩, .closes (Option.isSome_iff_ne_none.mpr isOpen) ?_ (.refl _)⟩
    exact ⟨rfl, rfl, rfl, Nat.le_refl _, rfl⟩
  asked asked calm := (asked.stays calm).does (by rw [asked.same]) calm
  wrote isOpen _ := Stays.does ⟨by rw [isOpen]; rfl, rfl, rfl, Nat.le_refl _, rfl⟩ rfl
  book _ _ _ := Stays.does ⟨rfl, rfl, rfl, Nat.le_refl _, rfl⟩ rfl
  note _ _ _ := Stays.does ⟨rfl, rfl, rfl, Nat.le_refl _, rfl⟩ rfl

/-- The writer reports the file last made current after each of its calls just
if every call ends well. -/
theorem calls_reportLast {trail : Trail} (calm : Calm trail.state) (tracks : Tracks env trail.state)
    (reports : ReportsLast trail.state) (calls : List Call) :
    (∀ n, ReportsLast ((calls.take n).foldl (Trail.call env) trail).state) ↔
      ∀ notes ∈ Observed.notesOf env trail.state calls, EndsWell env (Note.changes notes) := by
  induction calls generalizing trail with
  | nil => simp [reports, Observed.notesOf]
  | cons c calls ih =>
      obtain ⟨notes, does, made⟩ := attests_does.call trail c []
      obtain ⟨calmNext, does⟩ := does calm
      obtain ⟨tracksNext, next⟩ := does.reportsLast tracks
      rw [Observed.notesOf, made, List.forall_mem_cons]
      dsimp only
      rw [List.nil_append]
      have first : ReportsLast (trail.call env c).state ↔ EndsWell env (Note.changes notes) := by
        rw [next]
        split
        next unchanged => simp [unchanged, reports, EndsWell]
        next => rfl
      constructor
      · intro every
        have well := every 1
        rw [List.take_one, List.head?_cons] at well
        exact ⟨first.mp well, (ih calmNext tracksNext well).mp fun n => every (n + 1)⟩
      · rintro ⟨well, rest⟩ n
        cases n with
        | zero => exact reports
        | succ n => exact (ih calmNext tracksNext (first.mpr well)).mpr rest n

/-- A writer just opened reports the file it made current. -/
theorem new_reports (args : NewArgs) (dir : Dir) :
    Meets (LogWrite.new env args) (Trail.start dir).state
      (fun _ t => Calm t ∧ Tracks env t ∧ ReportsLast t) (fun _ _ => True) := by
  rw [LogWrite.new_eq, meets_bind]
  refine ((prepare_sends args).and (prepare_passes args)).imp ?_ fun _ _ _ => trivial
  rintro _ t ⟨⟨sound, sends⟩, -, -, ⟨clock, fresh⟩, -⟩
  have closed : t.current = none := by
    rw [fresh]
    rfl
  have none : madeBy t.events = ⟨none, []⟩ := by
    rw [sends, madeBy_append, foldl_note_of_plain rfl]
    · rfl
    · simp [createdIds]
  have calm : Calm t := ⟨congrArg Made.naming none, by rw [fresh]; exact sound⟩
  have tracks : Tracks env t := by
    refine ⟨by simp [closed], fun header made => ?_⟩
    rw [madeCurrent, none] at made
    contradiction
  have starts : Meets (startSession env) t (fun _ u => Calm u ∧ Tracks env u) (fun _ _ => True) := by
    refine (attests_does.startSession closed).meets.imp ?_ fun _ _ _ => trivial
    rintro _ u ⟨notes, told⟩
    obtain ⟨calm, does⟩ := told calm
    exact ⟨calm, (does.reportsLast tracks).1⟩
  have isOpen : Meets (startSession env) t (fun _ u => u.current.isSome) (fun _ _ => True) := by
    rw [startSession, meets_bind, meets_modify]
    refine (createSegment_opens env true _).imp ?_ fun _ _ _ => trivial
    rintro _ u ⟨id, -, opened⟩
    rw [opened]
    rfl
  exact (starts.and isOpen).imp (fun _ _ both => ⟨both.1.1, both.1.2, both.1.2.reportsLast both.2⟩)
    fun _ _ _ => trivial

/-- After every call of a writer it reports the file it last made current, just
if each call ends by making a file current, or does no harm after. -/
theorem reported (env : WriteEnv) (life : Life) (dir : Dir) (s : WriteState)
    (opens : (LogWrite.new env life.args).run (Trail.start dir).state = .ok () s) :
    (∀ n, (Observed.calls env ⟨s, []⟩ (life.calls.take n)).state =
        (Trail.openedOn env (Trail.start dir) ⟨life.args, life.calls.take n⟩ s).state) ∧
      ((∀ n, ReportsLast (Trail.openedOn env (Trail.start dir) ⟨life.args, life.calls.take n⟩ s).state) ↔
        ∀ notes ∈ Observed.notesOf env s life.calls, EndsWell env (Note.changes notes)) := by
  obtain ⟨calm, tracks, reports⟩ := (new_reports life.args dir).of_ok opens
  let opened := Trail.openedOn env (Trail.start dir) ⟨life.args, []⟩ s
  refine ⟨fun n => ?_, calls_reportLast (show Calm opened.state from calm) tracks reports life.calls⟩
  obtain ⟨notes, -, made⟩ := attests_does.calls opened (life.calls.take n) []
  exact congrArg Noted.state made

end Calls

namespace Sample

/-- A clock that ticks with every request, and a caller that takes every file
handed to it. -/
def tickingEnv : WriteEnv :=
  { takingEnv with instant := id, instant_mono := monotone_id }

/-- Two records, each of which fills a file, and the log is cleared. -/
def clearingLife : Life :=
  ⟨fillingLife.args, fillingLife.calls ++ [.clear]⟩

/-- The writer of those records when it is opened. -/
def filling : WriteState :=
  (Trail.ending (LogWrite.new tickingEnv fillingLife.args) (Trail.start ∅).state).2

theorem filling_opens :
    (LogWrite.new tickingEnv fillingLife.args).run (Trail.start ∅).state = .ok () filling := by
  rfl

end Sample

/-- A writer that cleared a session of two files reports the first of them. -/
theorem reports_first_when_cleared :
    let cleared := (Trail.openedOn Sample.tickingEnv (Trail.start ∅) Sample.clearingLife Sample.filling).state
    (LogWrite.new Sample.tickingEnv Sample.clearingLife.args).run (Trail.start ∅).state
        = .ok () Sample.filling ∧
      cleared.currentSegmentId = 1002 ∧
      (madeCurrent cleared.events).map SegmentHeader.segmentId = some 1010 ∧ ¬ ReportsLast cleared := by
  intro cleared
  exact ⟨Sample.filling_opens, by decide +kernel⟩

/-- Before that each of its calls ends by making a file current, and it reports
that. -/
theorem reported_sample :
    let ends := fun notes => EndsWell Sample.tickingEnv (Note.changes notes)
    (∀ notes ∈ Observed.notesOf Sample.tickingEnv Sample.filling Sample.fillingLife.calls, ends notes) ∧
      ∀ n, ReportsLast (Trail.openedOn Sample.tickingEnv (Trail.start ∅)
        ⟨Sample.fillingLife.args, Sample.fillingLife.calls.take n⟩ Sample.filling).state := by
  intro ends
  have well : ∀ notes ∈ Observed.notesOf Sample.tickingEnv Sample.filling Sample.fillingLife.calls,
      EndsWell Sample.tickingEnv (Note.changes notes) := by
    decide +kernel
  exact ⟨well, (reported Sample.tickingEnv Sample.fillingLife ∅ Sample.filling Sample.filling_opens).2.mpr well⟩

end Tcslog
