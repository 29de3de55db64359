import Tcslog.Read.Termination
import Tcslog.Read.Placing
import Tcslog.Read.Panics

/-!
# The course of a reader

The sessions of the listed files that are usable are the course a reader takes.
Every call keeps to it: a call that reports the end of a session takes the
reader from one session to the next, and no other call does, but for a call with
an empty buffer that finds no data of the session left.
-/

namespace Tcslog

open Lib.Program

/-! ## The course of a reader -/

/-- The sessions of the files that are usable, file by file. -/
def sessionsOf (files : SegId → Option Bytes) (ids : List SegId) : List SegId :=
  ids.filterMap fun id => (Segment.ofFile files id).map (·.header.sessionId)

/-- The sessions that begin in these files after the one being read. -/
def due : Option SegId → List SegId → List SegId
  | _, [] => []
  | session, sid :: rest =>
      if session = some sid then due session rest else sid :: due (some sid) rest

/-- The session being read and those to come. -/
def LogRead.course (dir : Dir) (log : LogRead) : List SegId :=
  log.session.toList ++ due log.session (sessionsOf (log.files dir) log.pending)

theorem due_same {sid : SegId} {rest : List SegId} : due (some sid) (sid :: rest) = due (some sid) rest :=
  if_pos rfl

theorem due_other {session : Option SegId} {sid : SegId} {rest : List SegId} (other : session ≠ some sid) :
    due session (sid :: rest) = sid :: due (some sid) rest :=
  if_neg other

theorem sessionsOf_of_none {files : SegId → Option Bytes} {ids : List SegId}
    (none : firstUsable files ids = none) : sessionsOf files ids = [] := by
  refine List.filterMap_eq_nil_iff.mpr fun id mem => ?_
  rw [firstUsable_eq_none.mp none id mem]
  rfl

theorem sessionsOf_of_some {files : SegId → Option Bytes} {ids rest : List SegId} {segment : Segment}
    (first : firstUsable files ids = some (segment, rest)) :
    sessionsOf files ids = segment.header.sessionId :: sessionsOf files rest := by
  obtain ⟨skipped, rfl, unusable, usable⟩ := firstUsable_eq_some first
  have nothing : sessionsOf files skipped = [] :=
    List.filterMap_eq_nil_iff.mpr fun id mem => by rw [unusable id mem]; rfl
  unfold sessionsOf at nothing ⊢
  rw [List.filterMap_append, nothing, List.nil_append, List.filterMap_cons, usable]
  rfl

/-- The reader has this course before it, and the open file is the last one read
of its session. -/
structure Course (dir : Dir) (files : SegId → Option Bytes) (course : List SegId) (s : ReadState) :
    Prop where
  reads : s.files dir = files
  ahead : s.course dir = course
  sited : ∀ segment, s.current = some segment → segment.OpenIn files ∧
    s.session = some segment.header.sessionId ∧ s.prevSeq = some segment.header.sequence

/-- How a program that may meet the end of a session fails: with the end of the
session, or with anything else in the same session. -/
inductive Lands (dir : Dir) (files : SegId → Option Bytes) (course : List SegId) : Stop → ReadState → Prop
  | stays {stop : Stop} {s : ReadState} (notBoundary : stop ≠ .error .sessionEnd)
      (notEnd : stop ≠ .error .eof) (same : Course dir files course s) (within : s.session.isSome) :
      Lands dir files course stop s
  | leaves {s : ReadState} {sid next : SegId} {rest : List SegId} (last : course = sid :: next :: rest)
      (begins : Course dir files (next :: rest) s) (between : s.session = none) (closed : s.current = none) :
      Lands dir files course (.error .sessionEnd) s

section Course

variable {dir : Dir} {files : SegId → Option Bytes} {course : List SegId}
  {s s' : ReadState}

theorem Course.of_toLogRead (on : Course dir files course s) (same : s'.toLogRead = s.toLogRead) :
    Course dir files course s' :=
  ⟨by rw [same]; exact on.reads, by rw [same]; exact on.ahead, by rw [same]; exact on.sited⟩

theorem Course.closed (on : Course dir files course s) : Course dir files course { s with current := none } :=
  ⟨on.reads, on.ahead, fun _ current => by simp at current⟩

theorem Course.losePosition (on : Course dir files course s) : Course dir files course s.losePosition :=
  ⟨on.reads, on.ahead, on.closed.sited⟩

theorem Course.isSome (on : Course dir files course s) {segment : Segment}
    (current : s.current = some segment) : s.session.isSome := by
  rw [(on.sited segment current).2.1]
  rfl

/-- The next file was opened, and nothing of it has been read. -/
structure OpensNext (files : SegId → Option Bytes) (s s' : ReadState) (next : Segment) : Prop where
  first : firstUsable files s.pending = some (next, s'.pending)
  current : s'.current = some next
  start : next.pos = 0
  cursor : s'.cursor = s.cursor
  continues : ∀ sid, s.session = some sid → next.header.sessionId = sid

theorem Course.opened (on : Course dir files course s) (opening : Opening dir s (.ok true) s') :
    Course dir files course s' ∧ ∃ next, OpensNext files s s' next := by
  cases opening with
  | @opened _ segment rest first continues result =>
      obtain ⟨_, _, _, usable⟩ := firstUsable_eq_some first
      obtain ⟨_, _, _, _, _, start, _⟩ := Segment.ofFile_eq_some usable
      have isOpen := Segment.openIn_ofFile usable
      have same : s'.files dir = s.files dir := by
        rw [result]
        simp [LogRead.files]
      have pending : s'.pending = rest := by
        rw [result]
        exact LogRead.adopt_pending _ _
      have session : s'.session = some segment.header.sessionId := by
        rw [result]
        cases at_ : s.session with
        | none => simp [at_]
        | some sid => simp [at_, continues sid at_]
      have current : s'.current = some segment := by
        rw [result]
        exact LogRead.adopt_current _ _
      have ahead : s'.course dir = s.course dir := by
        rw [LogRead.course, LogRead.course, same, pending, session, sessionsOf_of_some first]
        cases at_ : s.session with
        | none => rw [due_other (by simp)]; rfl
        | some sid => rw [continues sid at_, due_same]
      refine ⟨⟨same.trans on.reads, ahead.trans on.ahead, fun segment' at_ => ?_⟩, segment, ?_, current,
        start, by rw [result], continues⟩
      · obtain rfl := Option.some.inj (current.symm.trans at_)
        exact ⟨on.reads ▸ isOpen, session, by rw [result]; rfl⟩
      · rw [pending, ← on.reads]
        exact first

theorem Course.ended (on : Course dir files course s) (opening : Opening dir s (.ok false) s') :
    Course dir files course s' ∧ s'.pending = [] ∧ s'.session = s.session := by
  cases opening with
  | ended none result =>
      refine ⟨⟨by rw [result]; exact on.reads, ?_, ?_⟩, by rw [result], by rw [result]⟩
      · rw [← on.ahead, LogRead.course, LogRead.course, result, sessionsOf_of_none none]
        rfl
      · rw [result]
        exact fun segment current => on.sited segment current

/-- A usable file that is handed back is the first of those listed. -/
theorem sessionsOf_handedBack {ids rest : List SegId} {next : Segment}
    (first : firstUsable files ids = some (next, rest)) :
    sessionsOf files (next.id :: rest) = sessionsOf files ids := by
  obtain ⟨_, _, _, usable⟩ := firstUsable_eq_some first
  rw [sessionsOf_of_some first, sessionsOf, List.filterMap_cons, usable]
  rfl

/-- At the end of a session the next is begun, or the file that begins it handed
back. -/
theorem Course.boundary (on : Course dir files course s) {e : LogError}
    (opening : Opening dir s (.error e) s') (closed : s.current = none) :
    e = .sessionEnd ∧ Lands dir files course (.error .sessionEnd) s' ∧
      Course dir files course { s' with session := s.session, prevSeq := s.prevSeq } ∧
      ∃ next rest, firstUsable files s.pending = some (next, rest) ∧
        s.session ≠ some next.header.sessionId := by
  cases opening with
  | @boundary _ segment rest sid first session differs result =>
      have other : some sid ≠ some segment.header.sessionId := fun same => differs (Option.some.inj same).symm
      have back := sessionsOf_handedBack first
      have noFile (t : ReadState) (same : t.current = s.current) : ∀ segment, t.current = some segment →
          segment.OpenIn files ∧ t.session = some segment.header.sessionId ∧
            t.prevSeq = some segment.header.sequence := by
        intro segment current
        rw [same, closed] at current
        contradiction
      have split : course = sid :: segment.header.sessionId ::
          due (some segment.header.sessionId) (sessionsOf (s.files dir) rest) := by
        rw [← on.ahead, LogRead.course, session, sessionsOf_of_some first, due_other other]
        rfl
      refine ⟨rfl, .leaves split ⟨?_, ?_, noFile s' (by rw [result])⟩ (by rw [result])
        (by rw [result]; exact closed), ⟨?_, ?_, noFile _ (by rw [result])⟩, segment, rest, ?_, ?_⟩
      · rw [result]
        exact on.reads
      · rw [LogRead.course, result]
        change due none (sessionsOf (s.files dir) (segment.id :: rest)) = _
        rw [back, sessionsOf_of_some first, due_other (by simp)]
      · rw [result]
        exact on.reads
      · rw [← on.ahead, LogRead.course, LogRead.course, result]
        change s.session.toList ++ due s.session (sessionsOf (s.files dir) (segment.id :: rest)) = _
        rw [back]
      · rw [← on.reads]
        exact first
      · rw [session]
        exact other

/-- A file of the session being read may be handed back. -/
theorem Course.handBack (on : Course dir files course s) {segment : Segment} (current : s.current = some segment)
    {cursor : Cursor} {recovery : Option Recovery} {reopened : Option SegId} :
    Course dir files course { s with
      cursor := cursor, recovery := recovery, pending := segment.id :: s.pending, current := none
      reopened := reopened } := by
  obtain ⟨isOpen, session, _⟩ := on.sited segment current
  have sessions : sessionsOf files (segment.id :: s.pending) =
      segment.header.sessionId :: sessionsOf files s.pending := by
    obtain ⟨content, present, accepted, length⟩ := isOpen.file
    rw [sessionsOf, List.filterMap_cons, Segment.ofFile, present, Option.bind_some, accepted]
    rfl
  refine ⟨on.reads, ?_, fun _ at_ => by simp at at_⟩
  have reads : s.files dir = files := on.reads
  rw [← on.ahead, LogRead.course, LogRead.course, session]
  change _ ++ due (some _) (sessionsOf (s.files dir) (segment.id :: s.pending)) = _
  rw [reads, sessions, due_same]

/-- The read position moves on within the open file. -/
theorem Course.advance (on : Course dir files course s) {segment : Segment} {n : Nat}
    (current : s.current = some segment) (within : segment.pos + n ≤ segment.dataLen)
    (same : s'.toLogRead = { s.toLogRead with
      current := some { segment with pos := segment.pos + n, offset := segment.offset + n } }) :
    Course dir files course s' := by
  have sited := on.sited segment current
  have moved : ({ segment with pos := segment.pos + n, offset := segment.offset + n } : Segment).OpenIn
      files := by
    refine ⟨sited.1.file, within, ?_⟩
    rw [sited.1.offset, Nat.add_assoc]
  refine ⟨by rw [same]; exact on.reads, by rw [same]; exact on.ahead, fun segment' at_ => ?_⟩
  rw [same] at at_ ⊢
  obtain rfl := Option.some.inj at_
  exact ⟨moved, sited.2⟩

end Course

/-! ## Crossings at the start of a record -/

/-- A reader at the start of a record is let into `next` from the end of
`segment`. -/
structure Segment.Joins (segment next : Segment) : Prop where
  fresh : next.header.remaining.toNat = 0
  whole : segment.header.dataLen ≤ segment.dataLen
  follows : next.header.sequence.toNat = (segment.header.sequence.toNat + 1) % 2 ^ 64

/-- From the end of an open file a reader comes to the end of the session
without meeting any data. -/
inductive Blocked (files : SegId → Option Bytes) : Segment → List SegId → Prop
  | boundary {segment next : Segment} {ids rest : List SegId}
      (first : firstUsable files ids = some (next, rest))
      (differs : next.header.sessionId ≠ segment.header.sessionId) : Blocked files segment ids
  | empty {segment next : Segment} {ids rest : List SegId}
      (first : firstUsable files ids = some (next, rest))
      (same : next.header.sessionId = segment.header.sessionId) (joins : segment.Joins next)
      (noData : next.dataLen = 0) (onward : Blocked files next rest) : Blocked files segment ids

/-- A reader at the start of a record is at the end of the data of its
session. -/
def AtBoundary (files : SegId → Option Bytes) (s : ReadState) : Prop :=
  s.cursor.consumed = 0 ∧
    ∃ segment, s.current = some segment ∧ segment.dataLen ≤ segment.pos ∧ Blocked files segment s.pending

section Crossing

variable {dir : Dir} {files : SegId → Option Bytes} {course : List SegId} {s : ReadState}

theorem addU64_unchecked {σ : Type} (a b : Nat) :
    (addU64 false a b : EStateM Stop σ Nat) = pure ((a + b) % 2 ^ 64) := by
  by_cases fits : a + b < 2 ^ 64
  · rw [addU64_of_lt fits, Nat.mod_eq_of_lt fits]
  · rw [addU64, if_neg fits, if_neg Bool.false_ne_true]

/-- Sequence numbers are checked to follow each other. -/
theorem checkSequence_follows (prev sequence : SeqId) :
    Meets (checkSequence (.still dir noFault false) (some prev) sequence) s
      (fun checked s' => s' = s ∧
        (checked.1 = false ↔ sequence.toNat = (prev.toNat + 1) % 2 ^ 64)) (fun _ _ => False) := by
  simp only [checkSequence, ReadEnv.still, addU64_unchecked, meets_bind, meets_pure, meets_ite]
  refine ⟨fun same => ⟨trivial, iff_of_true trivial same⟩, fun differs => ⟨fun _ => ?_, fun _ => ?_⟩⟩
  · obtain ⟨ahead, wraps⟩ := subU64_wraps (σ := ReadState) sequence.toNat prev.toNat
    obtain ⟨lost, wraps'⟩ := subU64_wraps (σ := ReadState) ahead 1
    simp only [wraps, wraps', meets_pure]
    exact ⟨trivial, iff_of_false (by simp) differs⟩
  · exact ⟨trivial, iff_of_false (by simp) differs⟩

/-- At the start of a record a crossing is allowed if the files join. -/
theorem checkCrossing_joins {segment next opened : Segment} {prevShort : Bool}
    (fresh : s.cursor.consumed = 0) (current : s.current = some opened)
    (short : prevShort = decide (segment.dataLen < segment.header.dataLen)) :
    Meets (checkCrossing (.still dir noFault false) prevShort (some segment.header.sequence) next) s
      (fun _ s' => s' = s ∧ segment.Joins next) (fun _ _ => ¬ segment.Joins next) := by
  simp only [checkCrossing, checkRemaining, meets_bind, meets_get, fresh, if_true, meets_pure]
  refine (checkSequence_follows _ _).imp ?_ fun _ _ impossible => impossible.elim
  rintro ⟨outOfOrder, lost⟩ _ ⟨rfl, follows⟩
  have denied (is : (decide (next.header.remaining.toNat ≠ 0) || prevShort || outOfOrder) = true) :
      ¬ segment.Joins next := by
    rintro ⟨fresh', whole, follows'⟩
    have inOrder : outOfOrder = false := follows.mpr follows'
    simp [inOrder, short, fresh'] at is
    omega
  simp only [meets_ite, meets_bind, meets_get, meets_pure]
  refine ⟨fun is => ⟨fun _ => ?_, fun _ => ?_⟩, fun is => ⟨trivial, ?_⟩⟩
  · refine noteRecovery_noted.imp ?_ fun _ _ impossible => impossible.elim
    rintro _ _ ⟨recovery, rfl⟩
    exact (rejectCurrent_fails _ _ _).imp (fun _ _ impossible => impossible.elim) fun _ _ _ => denied is
  · exact (rejectCurrent_fails _ _ _).imp (fun _ _ impossible => impossible.elim) fun _ _ _ => denied is
  · simp only [Bool.not_eq_true, Bool.or_eq_false_iff] at is
    refine ⟨by simpa using is.1.1, ?_, follows.mp is.2⟩
    have whole := is.1.2
    rw [short] at whole
    simpa using whole

/-- A crossing keeps to the course. -/
theorem cross_course (on : Course dir files course s) {segment : Segment} (current : s.current = some segment) :
    Meets (cross (.still dir noFault false)) s
      (fun _ s' => Course dir files course s' ∧ ∃ next,
        firstUsable files s.pending = some (next, s'.pending) ∧ s'.current = some next ∧ next.pos = 0 ∧
          next.header.sessionId = segment.header.sessionId ∧
          (s.cursor.consumed = 0 → segment.Joins next))
      (fun stop s' => Lands dir files course stop s' ∧
        (stop = .error .sessionEnd → Blocked files segment s.pending)) := by
  obtain ⟨isOpen, session, prevSeq⟩ := on.sited segment current
  have within : s.session.isSome := on.isSome current
  simp only [cross, meets_bind, meets_get, meets_set, meets_attempt]
  refine (openNext_still _).imp ?_ ?_
  · intro opened t opening
    cases opened with
    | false =>
        obtain ⟨onward, _, same⟩ := on.closed.ended opening
        have within' : t.session.isSome := same ▸ within
        exact ⟨.stays (by simp) (by simp) onward within', by simp⟩
    | true =>
        obtain ⟨onward, next, opened⟩ := on.closed.opened opening
        have cursor : t.cursor = s.cursor := opened.cursor
        have within' : t.session.isSome := onward.isSome opened.current
        have short : (s.current.any fun segment => segment.dataLen < segment.header.dataLen) =
            decide (segment.dataLen < segment.header.dataLen) := by
          rw [current]
          rfl
        simp only [meets_bind, meets_get, opened.current]
        refine meets_iff.mpr ⟨fun _ u ran => ?_, fun stop u ran => ?_⟩
        · obtain ⟨after, rfl⟩ := (checkCrossing_still opened.current).of_ok ran
          refine ⟨onward.of_toLogRead rfl, next, opened.first, opened.current, opened.start,
            opened.continues _ session, fun fresh => ?_⟩
          rw [prevSeq] at ran
          exact ((checkCrossing_joins (cursor ▸ fresh) opened.current short).of_ok ran).2
        · obtain ⟨lost, n, rfl, after, recovery, rfl⟩ := (checkCrossing_still opened.current).of_error ran
          exact ⟨.stays (by simp) (by simp) (onward.handBack opened.current) within', by simp⟩
  · rintro stop t ⟨e, rfl, opening⟩
    obtain ⟨rfl, lands, back, next, rest, first, differs⟩ := on.closed.boundary opening rfl
    simp only [meets_ite, meets_bind, meets_modify, meets_fail]
    refine ⟨fun _ => ⟨.stays (by simp) (by simp) back within, by simp⟩, fun _ => ⟨lands, fun _ => ?_⟩⟩
    refine .boundary first fun same => differs ?_
    rw [same]
    exact session

/-- What moving on in a record from `s` comes to: the reader keeps to the course,
and meets the end of the session only where no data of it was left. -/
structure KeepsTo (dir : Dir) (files : SegId → Option Bytes) (course : List SegId) (s s' : ReadState) :
    Prop where
  on : Course dir files course s'
  isOpen : s'.current.isSome
  boundary : AtBoundary files s' → AtBoundary files s

/-- How moving on in a record from `s` fails. -/
def FailsOff (dir : Dir) (files : SegId → Option Bytes) (course : List SegId) (s : ReadState) (stop : Stop)
    (s' : ReadState) : Prop :=
  Lands dir files course stop s' ∧ (stop = .error .sessionEnd → AtBoundary files s)

theorem KeepsTo.trans {s t u : ReadState} (first : KeepsTo dir files course s t)
    (second : KeepsTo dir files course t u) : KeepsTo dir files course s u :=
  ⟨second.on, second.isOpen, fun at_ => first.boundary (second.boundary at_)⟩

theorem KeepsTo.fails {s t u : ReadState} {stop : Stop} (first : KeepsTo dir files course s t)
    (failed : FailsOff dir files course t stop u) : FailsOff dir files course s stop u :=
  ⟨failed.1, fun is => first.boundary (failed.2 is)⟩

theorem crossIfExhausted_course (on : Course dir files course s) (isOpen : s.current.isSome) :
    Meets (crossIfExhausted (.still dir noFault false)) s
      (fun _ s' => KeepsTo dir files course s s' ∧ s'.cursor.consumed = s.cursor.consumed)
      (fun stop s' => FailsOff dir files course s stop s') := by
  obtain ⟨segment, current⟩ := Option.isSome_iff_exists.mp isOpen
  have keeps : Meets (cross (.still dir noFault false)) s (fun _ s' => KeepsPlaced s s')
      (fun stop s' => KeepsPlaced s s' ∧ Breaks s stop) := cross_keeps s
  simp only [crossIfExhausted, meets_bind, meets_get, meets_ite, meets_pure]
  refine ⟨fun exhausted => ?_, fun _ => ⟨⟨on, isOpen, id⟩, trivial⟩⟩
  have ended : segment.dataLen ≤ segment.pos := by simpa [LogRead.exhausted, current] using exhausted
  refine ((cross_course on current).and keeps).imp ?_ ?_
  · rintro _ t ⟨⟨onward, next, first, current', start, same, joins⟩, keeps⟩
    refine ⟨⟨onward, by rw [current']; rfl, ?_⟩, keeps.consumed⟩
    rintro ⟨fresh, found, at_, noData, blocked⟩
    obtain rfl := Option.some.inj (current'.symm.trans at_)
    have fresh' : s.cursor.consumed = 0 := keeps.consumed.symm.trans fresh
    rw [start, Nat.le_zero] at noData
    exact ⟨fresh', segment, current, ended, .empty first same (joins fresh') noData blocked⟩
  · rintro stop t ⟨⟨lands, blocked⟩, _, breaks⟩
    refine ⟨lands, fun is => ?_⟩
    subst is
    cases breaks with
    | boundary fresh => exact ⟨fresh, segment, current, ended, blocked rfl⟩

/-- A pass of a loop over the files of a record. -/
theorem pass_course {len : Nat} {rest : PUnit → ReadM Nat}
    (on : Course dir files course s) (isOpen : s.current.isSome)
    (step : ∀ t segment, t.current = some segment → segment.OpenIn (t.files dir) →
      Meets (rest ⟨⟩) t (fun n s' => n = min (segment.dataLen - segment.pos) len ∧
        s'.toLogRead = { t.toLogRead with
          current := some { segment with pos := segment.pos + n, offset := segment.offset + n } } ∧
        s'.cursor.consumed = t.cursor.consumed + n) (fun _ _ => False)) :
    Meets (crossIfExhausted (.still dir noFault false) >>= rest) s
      (fun n s' => KeepsTo dir files course s s' ∧ n ≤ len ∧ s'.cursor.consumed = s.cursor.consumed + n)
      (fun stop s' => FailsOff dir files course s stop s') := by
  rw [meets_bind]
  refine (crossIfExhausted_course on isOpen).imp ?_ fun _ _ failed => failed
  rintro _ t ⟨keeps, consumed⟩
  obtain ⟨segment, current⟩ := Option.isSome_iff_exists.mp keeps.isOpen
  have sited := keeps.on.sited segment current
  have posLe := sited.1.posLe
  refine (step t segment current (keeps.on.reads ▸ sited.1)).imp ?_ fun _ _ impossible => impossible.elim
  rintro n u ⟨taken, same, advanced⟩
  have within : segment.pos + n ≤ segment.dataLen := by omega
  have current' : u.current = some _ := congrArg LogRead.current same
  refine ⟨keeps.trans ⟨keeps.on.advance current within same, by rw [current']; rfl, ?_⟩, ?_, ?_⟩
  · rintro ⟨fresh, found, at_, noData, blocked⟩
    obtain rfl := Option.some.inj (current'.symm.trans at_)
    obtain rfl : n = 0 := by omega
    have pending : u.pending = t.pending := by rw [same]
    refine ⟨by omega, segment, current, by omega, ?_⟩
    rw [← pending]
    exact blocked
  · omega
  · omega

theorem fillChunk_course (len : Nat) (on : Course dir files course s) (isOpen : s.current.isSome) :
    Meets (fillChunk (.still dir noFault false) len) s
      (fun n s' => KeepsTo dir files course s s' ∧ n ≤ len ∧ s'.cursor.consumed = s.cursor.consumed + n)
      (fun stop s' => FailsOff dir files course s stop s') := by
  refine pass_course on isOpen fun t segment current isOpen => ?_
  have posLe := isOpen.posLe
  simp only [meets_bind, meets_get, current, meets_modify, meets_pure]
  refine (readExact_still isOpen (by omega)).imp ?_ fun _ _ impossible => impossible.elim
  rintro bytes u ⟨asked, _⟩
  rw [asked.same]
  exact ⟨trivial, rfl, rfl⟩

theorem skipChunk_course (count : Nat) (on : Course dir files course s) (isOpen : s.current.isSome) :
    Meets (skipChunk (.still dir noFault false) count) s
      (fun n s' => KeepsTo dir files course s s' ∧ n ≤ count ∧ s'.cursor.consumed = s.cursor.consumed + n)
      (fun stop s' => FailsOff dir files course s stop s') := by
  refine pass_course on isOpen fun t segment current isOpen => ?_
  simp only [meets_bind, meets_get, current, meets_modify, meets_pure]
  refine (seekForward_still isOpen (by omega)).imp ?_ fun _ _ impossible => impossible.elim
  rintro moved u ⟨asked, rfl⟩
  rw [asked.same]
  exact ⟨trivial, rfl, rfl⟩

/-- A loop over the files of a record keeps to the course. -/
theorem repeatPass_course {pass : Nat → ReadM Nat}
    {progress : ∀ {len}, 0 < len → ∀ s, Meets (pass len) s
      (fun n s' => s'.pending.length + (len - n) < s.pending.length + len) (fun _ _ => True)}
    (step : ∀ len {s}, Course dir files course s → s.current.isSome → Meets (pass len) s
      (fun n s' => KeepsTo dir files course s s' ∧ n ≤ len ∧ s'.cursor.consumed = s.cursor.consumed + n)
      (fun stop s' => FailsOff dir files course s stop s'))
    (n : Nat) (on : Course dir files course s) (isOpen : s.current.isSome) :
    Meets (repeatPass pass progress n) s
      (fun _ s' => KeepsTo dir files course s s' ∧ s'.cursor.consumed = s.cursor.consumed + n)
      (fun stop s' => FailsOff dir files course s stop s') := by
  refine (meets_repeatPass (fun len t => KeepsTo dir files course s t ∧
    t.cursor.consumed + len = s.cursor.consumed + n) ?_ ⟨⟨on, isOpen, id⟩, rfl⟩).imp
    (fun _ _ done => done) fun _ _ failed => failed
  rintro len t _ ⟨keeps, consumed⟩
  refine (step len keeps.on keeps.isOpen).imp ?_ fun _ _ failed => keeps.fails failed
  rintro m u ⟨onward, le, consumed'⟩
  exact ⟨keeps.trans onward, by omega⟩

end Crossing

/-! ## One call -/

section Call

variable {dir : Dir} {files : SegId → Option Bytes} {course : List SegId} {s : ReadState}

theorem Lands.losePosition {stop : Stop} (lands : Lands dir files course stop s) :
    Lands dir files course stop s.losePosition := by
  cases lands with
  | stays notBoundary notEnd same within =>
      exact .stays notBoundary notEnd same.losePosition within
  | leaves last begins between closed => exact .leaves last begins.losePosition between rfl

theorem fillBuf_course (len : Nat) (on : Course dir files course s) (isOpen : s.current.isSome) :
    Meets (fillBuf (.still dir noFault false) len) s
      (fun _ s' => KeepsTo dir files course s s' ∧ s'.cursor.consumed = s.cursor.consumed + len)
      (fun stop s' => FailsOff dir files course s stop s') := by
  simp only [fillBuf, fill, meets_bind, meets_modify, meets_get, meets_pure]
  exact (repeatPass_course (fun len _ => fillChunk_course len) len (s := { s with dst := [] })
    (on.of_toLogRead rfl) isOpen).imp
    (fun _ _ filled => ⟨⟨filled.1.on, filled.1.isOpen, filled.1.boundary⟩, filled.2⟩) fun _ _ failed => failed

theorem settlePayloadLen_course (decoded : Nat) (on : Course dir files course s) (isOpen : s.current.isSome) :
    Meets (settlePayloadLen decoded) s (fun _ s' => s' = s)
      (fun stop s' => Lands dir files course stop s' ∧ stop ≠ .error .sessionEnd) := by
  obtain ⟨segment, current⟩ := Option.isSome_iff_exists.mp isOpen
  have within : s.session.isSome := on.isSome current
  simp only [settlePayloadLen, meets_bind, meets_get, meets_ite, meets_pure, implies_true, and_true]
  intro _
  refine (Scene.rejectCurrent_spec 0 0 current).imp (fun _ _ impossible => impossible.elim) ?_
  rintro stop t ⟨rfl, rfl⟩
  exact ⟨.stays (by simp) (by simp) (on.handBack current) within, by simp⟩

/-- Decoding a data header keeps to the course.  Only records of fixed length have
none to read. -/
theorem readDataHeader_course (format : Format) (minor : Nat) (on : Course dir files course s)
    (isOpen : s.current.isSome) :
    Meets (readDataHeader (.still dir noFault false) format minor) s
      (fun _ s' => Course dir files course s' ∧ s'.current.isSome ∧ (0 < s'.cursor.consumed ∨
        (∃ n, format = .fixed n) ∧ s'.toLogRead = s.toLogRead))
      (fun stop s' => FailsOff dir files course s stop s') := by
  have decodes (len : Nat) (positive : 0 < len) (decode : Bytes → Nat) (metadata : Bytes → Meta) (extra : Nat) :
      Meets (do
        let head ← fillBuf (.still dir noFault false) len
        let n ← settlePayloadLen (decode head)
        setTotal (extra + n)
        return (n, metadata head)) s
      (fun _ s' => Course dir files course s' ∧ s'.current.isSome ∧ (0 < s'.cursor.consumed ∨
        (∃ n, format = .fixed n) ∧ s'.toLogRead = s.toLogRead))
      (fun stop s' => FailsOff dir files course s stop s') := by
    simp only [Tcslog.setTotal, meets_bind, meets_modify, meets_pure]
    refine (fillBuf_course len on isOpen).imp ?_ fun _ _ failed => failed
    rintro head t ⟨keeps, consumed⟩
    refine (settlePayloadLen_course _ keeps.on keeps.isOpen).imp ?_ ?_
    · rintro n _ rfl
      exact ⟨keeps.on.of_toLogRead rfl, keeps.isOpen, .inl (by omega)⟩
    · exact fun stop u failed => ⟨failed.1, fun is => absurd is failed.2⟩
  cases format with
  | fixed n =>
      simp only [readDataHeader, Tcslog.setTotal, meets_bind, meets_modify, meets_pure]
      exact ⟨on.of_toLogRead rfl, isOpen, .inr ⟨⟨n, rfl⟩, trivial⟩⟩
  | variableSimple => exact decodes 4 (by decide) _ _ _
  | variableTsRc =>
      exact decodes _ (Format.dataHeaderLenIn_variableTsRc_pos minor) _
        (fun head => .variableTsRc (UInt64.ofNat (Lib.LittleEndian.ofLE (takeAt head 4 8)))
          (UInt64.ofNat (Lib.LittleEndian.ofLE (head.drop 12)))) _

/-- Giving up the read position keeps to the course. -/
theorem orLosePosition_course {α : Type} {x : ReadM α} {post : α → ReadState → Prop} {t : ReadState}
    (spec : Meets x t post (fun stop s' => FailsOff dir files course s stop s')) :
    Meets (orLosePosition x) t post (fun stop s' => FailsOff dir files course s stop s') := by
  refine meets_orLosePosition.mpr (spec.imp (fun _ _ holds => holds) fun stop u failed => ?_)
  cases stop with
  | error e => exact ⟨failed.1.losePosition, failed.2⟩
  | panic => exact failed
  | stuck => exact failed

theorem header_course {start : Start} {segment : Segment} (on : Course dir files course s)
    (current : s.current = some segment)
    (recovers : ∀ n, start = .recovered n → segment.header.format = .variableSimple) :
    Meets (header (.still dir noFault false) start segment) s
      (fun _ s' => Course dir files course s' ∧ s'.current.isSome ∧ (0 < s'.cursor.consumed ∨
        start = .fresh ∧ (∃ n, segment.header.format = .fixed n) ∧ s'.toLogRead = s.toLogRead))
      (fun stop s' => FailsOff dir files course s stop s') := by
  have isOpen : s.current.isSome := by rw [current]; rfl
  cases start with
  | recovered n =>
      simp only [header, recovers n rfl, meets_bind, meets_modify, meets_pure]
      exact ⟨on.of_toLogRead rfl, isOpen, .inl (by decide)⟩
  | fresh =>
      refine orLosePosition_course ((readDataHeader_course _ _ on isOpen).imp ?_ fun _ _ failed => failed)
      exact fun _ t decoded => ⟨decoded.1, decoded.2.1, decoded.2.2.imp_right fun none => ⟨rfl, none⟩⟩

/-- Transferring a payload keeps to the course, but for an empty buffer at the end
of the data of a session. -/
theorem payload_course (cap want : Nat) (metadata : Meta) (on : Course dir files course s)
    (isOpen : s.current.isSome) :
    Meets (payload (.still dir noFault false) cap want metadata) s
      (fun _ s' => Course dir files course s' ∧ s'.session.isSome)
      (fun stop s' => Lands dir files course stop s' ∨
        stop = .error (.readOverflow 0) ∧ cap = 0 ∧ AtBoundary files s) := by
  have start {u : ReadState} (keeps : KeepsTo dir files course { s with
      lastMeta := metadata, cursor := { s.cursor with inPayload := true } } u) :
      KeepsTo dir files course s u := ⟨keeps.on, keeps.isOpen, keeps.boundary⟩
  simp only [payload, meets_bind, meets_modify]
  refine (orLosePosition_course (fillBuf_course (min want cap) (s := { s with
    lastMeta := metadata, cursor := { s.cursor with inPayload := true } })
      ⟨on.reads, on.ahead, on.sited⟩ isOpen)).imp ?_ fun _ _ failed => .inl failed.1
  rintro _ t ⟨keeps, consumed⟩
  obtain ⟨segment, current⟩ := Option.isSome_iff_exists.mp keeps.isOpen
  simp only [meets_ite, meets_bind, meets_attempt, meets_pure]
  refine ⟨fun long => ?_, fun _ => ⟨keeps.on, keeps.on.isSome current⟩⟩
  refine Meets.imp (repeatPass_course (fun len _ => skipChunk_course len) (want - cap) keeps.on keeps.isOpen)
    ?_ ?_
  · rintro _ u ⟨onward, _⟩
    obtain ⟨segment', current'⟩ := Option.isSome_iff_exists.mp onward.isOpen
    exact .inl (.stays (by simp) (by simp) onward.on (onward.on.isSome current'))
  · rintro stop u ⟨lands, boundary⟩
    by_cases ends : stop = .error .sessionEnd
    · subst ends
      have boundary' := boundary rfl
      have fresh : t.cursor.consumed = 0 := boundary'.1
      obtain rfl : cap = 0 := by omega
      exact .inr ⟨by rw [Nat.min_zero], rfl, (start keeps).boundary boundary'⟩
    · cases lands with
      | leaves => contradiction
      | stays notBoundary notEnd same within =>
          cases stop with
          | error e => exact .inl (.stays (by simp) (by simp) same.losePosition within)
          | panic => exact .inl (.stays notBoundary notEnd same within)
          | stuck => exact .inl (.stays notBoundary notEnd same within)

/-- Only records with a length in front are recovered. -/
theorem recoveredPayloadLen_format {recovery : Recovery} {id : SegId} {format : Format}
    {remaining dataSection n : Nat}
    (recovers : recoveredPayloadLen recovery id format remaining dataSection = some n) :
    format = .variableSimple := by
  unfold recoveredPayloadLen at recovers
  split at recovers
  · contradiction
  split at recovers
  · contradiction
  next other => exact not_not.mp other

/-- How a search for a record boundary ends without one: with the log, or off the
course. -/
def Astray (dir : Dir) (files : SegId → Option Bytes) (course : List SegId) (stop : Stop) (s : ReadState) :
    Prop :=
  stop = .error .eof ∧ Course dir files course s ∧ s.pending = [] ∨ Lands dir files course stop s

theorem examineNext_course (on : Course dir files course s) (closed : s.current = none) :
    Meets (examineNext (.still dir noFault false)) s
      (fun found s' => Course dir files course s' ∧ (found = none → s'.current = none) ∧
        ∀ start, found = some start → ∃ segment, s'.current = some segment ∧
          (start = .fresh → segment.pos < segment.dataLen) ∧
          (∀ n, start = .recovered n → segment.header.format = .variableSimple))
      (fun stop s' => Astray dir files course stop s') := by
  have on' : Course dir files course { s with recovery := none } := ⟨on.reads, on.ahead, on.sited⟩
  simp only [examineNext, meets_bind, meets_get, meets_modify, meets_ite]
  refine (openNext_still _).imp ?_ ?_
  · intro found t opening
    refine ⟨fun isOpen => ?_, fun notOpen => ?_⟩
    · subst isOpen
      obtain ⟨onward, next, opened⟩ := on'.opened opening
      have sited := onward.sited next opened.current
      simp only [opened.current]
      split
      next n hint =>
        refine ⟨onward, by simp, ?_⟩
        rintro start is
        obtain rfl := Option.some.inj is
        obtain ⟨known, _, recovers⟩ := Option.bind_eq_some_iff.mp hint
        exact ⟨next, opened.current, by simp, fun _ _ => recoveredPayloadLen_format recovers⟩
      · simp only [meets_ite, meets_bind, meets_modify, meets_pure]
        refine ⟨fun _ => ⟨onward.closed, fun _ => trivial, by simp⟩, fun offers => ?_⟩
        refine (seekForward_still (onward.reads ▸ sited.1) (by omega)).imp ?_ fun _ _ impossible => impossible.elim
        rintro moved u ⟨asked, rfl⟩
        rw [asked.same]
        refine ⟨onward.advance (n := next.header.remaining.toNat) opened.current ?_ ?_, by simp, ?_⟩
        · rw [opened.start]
          omega
        · rw [opened.start, Nat.zero_add]
        · rintro start is
          obtain rfl := Option.some.inj is
          exact ⟨_, rfl, fun _ => Nat.lt_of_not_le offers, by simp⟩
    · obtain rfl : found = false := by simpa using notOpen
      obtain ⟨onward, none, _⟩ := on'.ended opening
      exact .inl ⟨rfl, onward, none⟩
  · rintro stop t ⟨e, rfl, opening⟩
    obtain ⟨rfl, lands, _⟩ := on'.boundary opening closed
    exact .inr lands

theorem findRecordStart_course (on : Course dir files course s) (closed : s.current = none) :
    Meets (findRecordStart (.still dir noFault false)) s
      (fun start s' => Course dir files course s' ∧ s'.cursor = s.cursor ∧
        ∃ segment, s'.current = some segment ∧ (start = .fresh → segment.pos < segment.dataLen) ∧
          (∀ n, start = .recovered n → segment.header.format = .variableSimple))
      (fun stop s' => Astray dir files course stop s') := by
  refine meets_findRecordStart _ (fun t => Course dir files course t ∧ t.current = none ∧ t.cursor = s.cursor)
    ?_ ⟨on, closed, rfl⟩
  rintro t ⟨onward, closed', cursor⟩
  refine ((examineNext_course onward closed').and (examineNext_cursor t)).imp ?_ fun _ _ failed => failed.1
  rintro found u ⟨⟨onward', noFile, located⟩, same⟩
  refine ⟨fun start is => ?_, fun none => ⟨onward', noFile none, same.trans cursor⟩⟩
  exact ⟨onward', same.trans cursor, located start is⟩

/-- A record is found at the read position, or by a search, which ends before the
end of the data of a file. -/
theorem locate_course (on : Course dir files course s) (resyncClosed : ResyncClosed s)
    (isOpen : s.resync = false → s.current.isSome) :
    Meets (locate (.still dir noFault false)) s
      (fun start s' => Course dir files course s' ∧ ∃ segment, s'.current = some segment ∧
        (∀ n, start = .recovered n → segment.header.format = .variableSimple) ∧
        (start = .fresh → segment.dataLen ≤ segment.pos → s' = s ∧ s.resync = false))
      (fun stop s' => Astray dir files course stop s') := by
  simp only [locate, meets_bind, meets_get, meets_ite, meets_orLosePosition, meets_modify, meets_set,
    meets_fail, meets_pure]
  refine ⟨fun resync => ?_, fun synced => ?_⟩
  · refine (findRecordStart_course on (resyncClosed resync)).imp ?_ ?_
    · rintro start t ⟨onward, _, segment, current, more, recovers⟩
      refine ⟨fun _ => .inr (.stays (by simp) (by simp) ⟨onward.reads, onward.ahead, onward.sited⟩ ?_),
        fun _ => ⟨⟨onward.reads, onward.ahead, onward.sited⟩, segment, current, recovers, ?_⟩⟩
      · exact onward.isSome current
      · exact fun fresh ended => absurd (more fresh) (Nat.not_lt.mpr ended)
    · rintro stop t (⟨rfl, onward, none⟩ | lands)
      · exact .inl ⟨rfl, onward.losePosition, none⟩
      · cases stop with
        | error e => exact .inr lands.losePosition
        | panic => exact .inr lands
        | stuck => exact .inr lands
  · have synced' : s.resync = false := by simpa using synced
    obtain ⟨segment, current⟩ := Option.isSome_iff_exists.mp (isOpen synced')
    exact ⟨on, segment, current, by simp, fun _ _ => ⟨trivial, synced'⟩⟩

/-- A reader that is not looking for a record, at the end of the data of its
session, is given an empty buffer for a record of fixed length. -/
structure Blind (files : SegId → Option Bytes) (cap : Nat) (s : ReadState) : Prop where
  cap : cap = 0
  synced : s.resync = false
  ends : ∃ segment, s.current = some segment ∧ (∃ n, segment.header.format = .fixed n) ∧
    segment.dataLen ≤ segment.pos ∧ Blocked files segment s.pending

/-- A call keeps to the course, but for a blind one. -/
theorem read_course (cap : Nat) (on : Course dir files course s) (resyncClosed : ResyncClosed s) :
    Meets (read (.still dir noFault false) cap) s
      (fun _ s' => Course dir files course s' ∧ s'.session.isSome)
      (fun stop s' => Astray dir files course stop s' ∨
        stop = .error (.readOverflow 0) ∧ Blind files cap s) := by
  simp only [read, meets_bind, meets_get, meets_ite, meets_set, meets_fail]
  refine ⟨fun ended => .inl (.inl ⟨rfl, on.closed, ended.1⟩), fun _ => ?_⟩
  set begun : ReadState := { s with resync := s.resync || s.current.isNone, cursor := {}, dst := [] }
  have onBegun : Course dir files course begun := ⟨on.reads, on.ahead, on.sited⟩
  have resyncClosed' : ResyncClosed begun := by
    intro resync
    rcases Bool.or_eq_true_iff.mp resync with already | closed
    · exact resyncClosed already
    · exact Option.isNone_iff_eq_none.mp closed
  have isOpen (synced : begun.resync = false) : begun.current.isSome := by
    have notNone : s.current.isNone = false := (Bool.or_eq_false_iff.mp synced).2
    exact Option.isNone_eq_false_iff.mp notNone
  refine ((locate_course onBegun resyncClosed' isOpen).and (locate_cursor begun)).imp ?_
    fun _ _ failed => .inl failed.1
  rintro start t ⟨⟨onward, segment, current, recovers, ends⟩, cursor⟩
  simp only [current, meets_bind]
  refine (header_course onward current recovers).imp ?_ fun _ _ failed => .inl (.inr failed.1)
  rintro decoded u ⟨onward', isOpen', consumed⟩
  refine (payload_course cap decoded.1 decoded.2 onward' isOpen').imp (fun _ _ done => done) ?_
  rintro stop v (lands | ⟨rfl, rfl, fresh, segment', current', noData, blocked⟩)
  · exact .inl (.inr lands)
  · refine .inr ⟨rfl, ?_⟩
    rcases consumed with begun | ⟨rfl, fixed, same⟩
    · omega
    · rw [same] at current' blocked
      obtain rfl := Option.some.inj (current.symm.trans current')
      obtain ⟨rfl, synced⟩ := ends rfl noData
      exact ⟨rfl, (Bool.or_eq_false_iff.mp synced).1, segment, current, fixed, noData, blocked⟩

end Call

/-! ## Blind calls -/

section Blind

variable {dir : Dir} {files : SegId → Option Bytes} {course : List SegId} {s : ReadState} {segment next : Segment}
  {rest : List SegId}

/-- Opening the next file comes to the first that is usable, or to the end of the
session. -/
theorem openNext_first (on : Course dir files course s) (closed : s.current = none)
    (first : firstUsable files s.pending = some (next, rest)) :
    Meets (openNext (.still dir noFault false)) s
      (fun opened s' => opened = true ∧ Course dir files course s' ∧ OpensNext files s s' next ∧
        s'.pending = rest)
      (fun stop s' => stop = .error .sessionEnd ∧ s'.session = none ∧
        s.session ≠ some next.header.sessionId) := by
  refine (openNext_still _).imp ?_ ?_
  · intro opened t opening
    cases opened with
    | false =>
        cases opening with
        | ended noMore result =>
            rw [on.reads, first] at noMore
            contradiction
    | true =>
        obtain ⟨onward, next', opened⟩ := on.opened opening
        obtain ⟨rfl, pending⟩ := Prod.mk.inj (Option.some.inj (opened.first.symm.trans first))
        exact ⟨rfl, onward, opened, pending⟩
  · rintro stop t ⟨e, rfl, opening⟩
    have between : t.session = none := by
      cases opening with
      | boundary first session differs result => rw [result]
    obtain ⟨rfl, _, _, next', _, first', differs⟩ := on.boundary opening closed
    obtain ⟨rfl, _⟩ := Prod.mk.inj (Option.some.inj (first'.symm.trans first))
    exact ⟨rfl, between, differs⟩

/-- A crossing at the start of a record meets the next session. -/
theorem cross_boundary (on : Course dir files course s) (current : s.current = some segment)
    (fresh : s.cursor.consumed = 0) (first : firstUsable files s.pending = some (next, rest))
    (differs : next.header.sessionId ≠ segment.header.sessionId) :
    Meets (cross (.still dir noFault false)) s (fun _ _ => False)
      (fun stop s' => stop = .error .sessionEnd ∧ s'.session = none) := by
  have session := (on.sited segment current).2.1
  simp only [cross, meets_bind, meets_get, meets_set, meets_attempt]
  refine (openNext_first on.closed rfl first).imp ?_ ?_
  · rintro _ t ⟨rfl, _, opened, _⟩
    exact absurd (opened.continues _ session) differs
  · rintro _ t ⟨rfl, between, _⟩
    simp only [meets_ite, meets_fail, fresh, Nat.lt_irrefl, and_false]
    exact ⟨fun impossible => impossible.elim, fun _ => ⟨trivial, between⟩⟩

/-- A crossing at the start of a record is let into a file that joins. -/
theorem cross_joins (on : Course dir files course s) (current : s.current = some segment)
    (fresh : s.cursor.consumed = 0) (first : firstUsable files s.pending = some (next, rest))
    (same : next.header.sessionId = segment.header.sessionId) (joins : segment.Joins next) :
    Meets (cross (.still dir noFault false)) s
      (fun _ s' => Course dir files course s' ∧ s'.current = some next ∧ next.pos = 0 ∧ s'.pending = rest ∧
        s'.cursor.consumed = 0) (fun _ _ => False) := by
  obtain ⟨_, session, prevSeq⟩ := on.sited segment current
  have short : (s.current.any fun segment => segment.dataLen < segment.header.dataLen) =
      decide (segment.dataLen < segment.header.dataLen) := by
    rw [current]
    rfl
  simp only [cross, meets_bind, meets_get, meets_set, meets_attempt]
  refine (openNext_first on.closed rfl first).imp ?_ ?_
  · rintro _ t ⟨rfl, onward, opened, pending⟩
    have fresh' : t.cursor.consumed = 0 := (congrArg Cursor.consumed opened.cursor).trans fresh
    simp only [meets_bind, meets_get, opened.current, prevSeq]
    refine (checkCrossing_joins fresh' opened.current short).imp ?_ fun _ _ denied => denied joins
    rintro _ _ ⟨rfl, _⟩
    exact ⟨onward, opened.current, opened.start, pending, fresh'⟩
  · rintro _ t ⟨rfl, _, differs⟩
    refine absurd ?_ differs
    rw [same]
    exact session

/-- Skipping from the end of the data of a session meets the next session. -/
theorem skip_blocked {n : Nat} (positive : 0 < n) {ids : List SegId} (blocked : Blocked files segment ids)
    {s : ReadState} (on : Course dir files course s) (current : s.current = some segment)
    (ended : segment.dataLen ≤ segment.pos) (pending : s.pending = ids) (fresh : s.cursor.consumed = 0) :
    Meets (skip (.still dir noFault false) n) s (fun _ _ => False)
      (fun stop s' => stop = .error .sessionEnd ∧ s'.session = none) := by
  induction blocked generalizing s with
  | boundary first differs =>
      rw [skip, repeatPass_eq, if_pos positive]
      simp only [skipChunk, crossIfExhausted, meets_bind, meets_get, LogRead.exhausted, current, ended,
        decide_true, if_true]
      exact (cross_boundary on current fresh (pending ▸ first) differs).imp
        (fun _ _ impossible => impossible.elim) fun _ _ failed => failed
  | @empty segment next ids rest first same joins noData onward ih =>
      rw [skip, repeatPass_eq, if_pos positive]
      simp only [skipChunk, crossIfExhausted, meets_bind, meets_get, LogRead.exhausted, current, ended,
        decide_true, if_true]
      refine (cross_joins on current fresh (pending ▸ first) same joins).imp ?_
        fun _ _ impossible => impossible.elim
      rintro _ t ⟨onward', current', start, pending', fresh'⟩
      have sited := onward'.sited next current'
      have none : min (next.dataLen - next.pos) n = 0 := by omega
      simp only [meets_bind, current', meets_modify, meets_pure, none]
      refine (seekForward_still (onward'.reads ▸ sited.1) (Nat.zero_le _)).imp ?_
        fun _ _ impossible => impossible.elim
      rintro moved u ⟨asked, rfl⟩
      rw [asked.same]
      -- Nothing of the file was skipped, and the next pass is at its end.
      exact ih ⟨onward'.reads, onward'.ahead, fun segment at_ => onward'.sited segment (current'.trans at_)⟩
        rfl (by omega) pending' fresh'

theorem read_blind {cap : Nat} (on : Course dir files course s) (blind : Blind files cap s) :
    Meets (read (.still dir noFault false) cap) s (fun _ _ => False)
      (fun stop s' => stop = .error (.readOverflow 0) ∧ s'.session = none) := by
  obtain ⟨rfl, synced, segment, current, ⟨n, fixed⟩, ended, blocked⟩ := blind
  have positive : 0 < n.toNat := (on.sited segment current).1.fixed_pos fixed
  have listed : s.pending ≠ [] := by
    intro none
    rw [none] at blocked
    cases blocked <;> contradiction
  simp only [read, locate, header, readDataHeader, payload, setTotal, fillBuf, meets_bind, meets_get, meets_ite,
    meets_set, meets_fail, meets_orLosePosition, meets_modify, meets_pure, meets_attempt, current, synced, fixed]
  refine ⟨fun none => absurd none.1 listed, fun _ => ⟨by simp, fun _ => ?_⟩⟩
  rw [Nat.min_zero, fill, repeatPass_eq, if_neg (Nat.lt_irrefl 0), meets_pure]
  refine ⟨fun _ => ?_, fun none => none positive⟩
  refine (skip_blocked (s := { s with
      current := some segment, resync := false, lastMeta := .fixed, dst := []
      cursor := { total := some n.toNat, inPayload := true } }) positive blocked
    ⟨on.reads, on.ahead, fun segment' at_ => on.sited segment' (current.trans at_)⟩ rfl ended rfl rfl).imp
    (fun _ _ impossible => impossible.elim) ?_
  rintro _ t ⟨rfl, between⟩
  exact ⟨rfl, between⟩

end Blind

end Tcslog
