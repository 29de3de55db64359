import Tcslog.Read.Course
import Tcslog.System.Damage

/-!
# Where a session ends

Between two sessions a reader reports the end of the first.  The report is
missed where a call is given no room, the record is of fixed length and the data
of the session is at its end: what the reader meets while it skips the record is
not told.
-/

namespace Tcslog

open Lib.Program

/-! ## Runs of calls -/

/-- One call of a run. -/
structure ReadStep where
  cap : Nat
  before : ReadState
  outcome : Outcome
  after : ReadState

/-- The first calls of a run, one by one. -/
def readSteps (env : ReadEnv) (caps : Nat → Nat) : Nat → ReadState → List ReadStep
  | 0, _ => []
  | calls + 1, s =>
      { cap := caps 0, before := s
        outcome := (readCall env (caps 0) s).1, after := (readCall env (caps 0) s).2 } ::
        readSteps env (fun i => caps (i + 1)) calls (readCall env (caps 0) s).2

/-- The calls belong to these sessions in turn: none reports the end of a session
while it is being read, and one does before the next is. -/
inductive Reported : List SegId → List ReadStep → Prop
  | ended {sessions : List SegId} (few : sessions.length ≤ 1) : Reported sessions []
  | within {sid : SegId} {rest : List SegId} {step : ReadStep} {steps : List ReadStep}
      (other : ∀ bytes, step.outcome ≠ .failed .sessionEnd bytes) (session : step.after.session = some sid)
      (file : ∀ segment, step.after.current = some segment → segment.header.sessionId = sid)
      (further : Reported (sid :: rest) steps) : Reported (sid :: rest) (step :: steps)
  | boundary {sid next : SegId} {rest : List SegId} {step : ReadStep} {steps : List ReadStep}
      (reports : step.outcome = .failed .sessionEnd []) (further : Reported (next :: rest) steps) :
      Reported (sid :: next :: rest) (step :: steps)

/-- One end of a session is reported for each session after the first. -/
theorem Reported.count {sessions : List SegId} {steps : List ReadStep} (reported : Reported sessions steps) :
    (steps.map ReadStep.outcome).count (.failed .sessionEnd []) = sessions.length - 1 := by
  induction reported with
  | ended few => exact (Nat.sub_eq_zero_of_le few).symm
  | within other _ _ _ ih => rw [List.map_cons, List.count_cons_of_ne (other []), ih]
  | boundary reports _ ih => rw [List.map_cons, reports, List.count_cons_self, ih]; rfl

section Runs

variable {dir : Dir} {files : SegId → Option Bytes} {course : List SegId} {s : ReadState}

/-- What one call comes to. -/
inductive CallKeeps (dir : Dir) (files : SegId → Option Bytes) (cap : Nat) (s : ReadState)
    (course : List SegId) : Outcome → ReadState → Prop
  | ended {s' : ReadState} (few : course.length ≤ 1) : CallKeeps dir files cap s course (.failed .eof []) s'
  | within {outcome : Outcome} {s' : ReadState} (other : ∀ bytes, outcome ≠ .failed .sessionEnd bytes)
      (notEnd : ∀ bytes, outcome ≠ .failed .eof bytes) (same : Course dir files course s')
      (session : s'.session.isSome) (clear : ¬ Blind files cap s) : CallKeeps dir files cap s course outcome s'
  | boundary {sid next : SegId} {rest : List SegId} {s' : ReadState} (last : course = sid :: next :: rest)
      (begins : Course dir files (next :: rest) s') (clear : ¬ Blind files cap s) :
      CallKeeps dir files cap s course (.failed .sessionEnd []) s'
  | blind {s' : ReadState} (blind : Blind files cap s) (between : s'.session = none) :
      CallKeeps dir files cap s course (.failed (.readOverflow 0) []) s'

theorem readCall_course (cap : Nat) (on : Course dir files course s) (resyncClosed : ResyncClosed s) :
    CallKeeps dir files cap s course (readCall (.still dir noFault false) cap s).1
      (readCall (.still dir noFault false) cap s).2 := by
  have spec := read_course cap on resyncClosed
  have blindSpec (blind : Blind files cap s) := read_blind on blind
  cases ran : (read (.still dir noFault false) cap).run s with
  | ok result s' =>
      obtain ⟨same, session⟩ := spec.of_ok ran
      have clear (blind : Blind files cap s) : False := (blindSpec blind).of_ok ran
      simp only [readCall, ran]
      exact .within (by simp) (by simp) same session clear
  | error stop s' =>
      by_cases blind : Blind files cap s
      · obtain ⟨rfl, between⟩ := (blindSpec blind).of_error ran
        simp only [readCall, ran]
        exact .blind blind between
      · rcases (spec.of_error ran).resolve_right fun is => blind is.2 with ⟨rfl, same, none⟩ | lands
        · simp only [readCall, ran]
          refine .ended ?_
          rw [← same.ahead, LogRead.course, none]
          cases s'.session <;> simp [sessionsOf, due]
        · cases lands with
          | stays notBoundary notEnd same session =>
              cases stop with
              | error e =>
                  simp only [readCall, ran]
                  exact .within (by simpa using notBoundary) (by simpa using notEnd) same session blind
              | panic =>
                  simp only [readCall, ran]
                  exact .within (by simp) (by simp) same session blind
              | stuck =>
                  simp only [readCall, ran]
                  exact .within (by simp) (by simp) same session blind
          | leaves last begins between closed =>
              simp only [readCall, ran]
              exact .boundary last begins blind

theorem readCall_pauses (cap : Nat) {s : ReadState} (pausing : Pausing dir s) :
    Pausing dir (readCall (.still dir noFault false) cap s).2 := by
  have spec := read_pauses cap pausing
  cases ran : (read (.still dir noFault false) cap).run s with
  | ok result s' =>
      simp only [readCall, ran]
      exact spec.of_ok ran
  | error stop s' =>
      obtain ⟨e, rfl, pausing'⟩ := spec.of_error ran
      simp only [readCall, ran]
      exact pausing'

/-- The session being read is the first of the course. -/
theorem Course.reading (on : Course dir files course s) (session : s.session.isSome) :
    ∃ sid rest, s.session = some sid ∧ course = sid :: rest := by
  obtain ⟨sid, at_⟩ := Option.isSome_iff_exists.mp session
  refine ⟨sid, due s.session (sessionsOf (s.files dir) s.pending), at_, ?_⟩
  rw [← on.ahead, LogRead.course, at_]
  rfl

/-- One call more of a run. -/
theorem reported_cons {cap : Nat} {outcome : Outcome} {s' : ReadState} {steps : List ReadStep} {clear : Prop}
    (kept : CallKeeps dir files cap s course outcome s') (notEnd : outcome ≠ .failed .eof [])
    (further : ∀ {course'}, Course dir files course' s' → (Reported course' steps ↔ clear)) :
    Reported course ({ cap := cap, before := s, outcome := outcome, after := s' } :: steps) ↔
      ¬ Blind files cap s ∧ clear := by
  cases kept with
  | ended few => exact absurd rfl notEnd
  | within other _ same session clears =>
      obtain ⟨sid, rest, session, rfl⟩ := same.reading session
      rw [← further same]
      constructor
      · intro reported
        cases reported with
        | within _ _ _ reported' => exact ⟨clears, reported'⟩
        | boundary reports => exact absurd reports (other [])
      · rintro ⟨_, reported'⟩
        refine .within other session (fun segment current => ?_) reported'
        exact Option.some.inj ((same.sited segment current).2.1.symm.trans session)
  | boundary last begins clears =>
      rw [← further begins]
      subst last
      constructor
      · intro reported
        cases reported with
        | within other => exact absurd rfl (other [])
        | boundary _ reported' => exact ⟨clears, reported'⟩
      · exact fun both => .boundary rfl both.2
  | blind blind between =>
      refine iff_of_false (fun reported => ?_) fun both => both.1 blind
      cases reported with
      | within _ session =>
          have session : s'.session = some _ := session
          rw [between] at session
          contradiction
      | boundary reports => simp at reports

/-- Every boundary of the sessions of a run is reported if no call is blind, and
only then. -/
theorem readSteps_reported (outcomes : List Outcome) (caps : Nat → Nat) (on : Course dir files course s)
    (pausing : Pausing dir s)
    (run : (readCalls (.still dir noFault false) caps (outcomes.length + 1) s).1 = outcomes ++ [.failed .eof []])
    (noEof : .failed .eof [] ∉ outcomes) :
    Reported course (readSteps (.still dir noFault false) caps outcomes.length s) ↔
      ∀ step ∈ readSteps (.still dir noFault false) caps outcomes.length s,
        ¬ Blind files step.cap step.before := by
  have kept := readCall_course (caps 0) on pausing.resyncClosed
  induction outcomes generalizing s course caps with
  | nil =>
      simp only [readCalls, List.length_nil, List.nil_append, List.cons.injEq, and_true] at run
      rw [run] at kept
      have few : course.length ≤ 1 := by
        cases kept with
        | ended few => exact few
        | within _ notEnd => exact absurd rfl (notEnd [])
      exact ⟨fun _ step mem => absurd mem List.not_mem_nil, fun _ => .ended few⟩
  | cons outcome outcomes ih =>
      simp only [readCalls, List.length_cons, List.cons_append, List.cons.injEq] at run
      obtain ⟨here, later⟩ := run
      rw [List.mem_cons, not_or] at noEof
      have pausing' := readCall_pauses (caps 0) pausing
      simp only [List.length_cons, readSteps, List.forall_mem_cons]
      refine reported_cons kept ?_ fun on' =>
        ih (fun i => caps (i + 1)) on' pausing' later noEof.2 (readCall_course _ on' pausing'.resyncClosed)
      rw [here]
      exact fun same => noEof.1 same.symm

/-- In any directory, the calls that lead to the end of the log report the end of
each session that has a usable file, between its calls and those of the next, if
none of them is blind, and only then. -/
theorem boundaries_reported {dir view : Dir} (opens : dir.Opens view) {isDir : Bool}
    {namePrefix nameSuffix : Bytes} {log : LogRead}
    (isNew : LogRead.new isDir (some dir) namePrefix nameSuffix = .ok log) (caps : Nat → Nat) :
    ∃ outcomes last, ReadsToEof (.still view noFault false) caps log.begin outcomes last ∧
      (Reported (due none (sessionsOf (view.files namePrefix nameSuffix)
          (scanSegmentIds dir namePrefix nameSuffix)))
          (readSteps (.still view noFault false) caps outcomes.length log.begin) ↔
        ∀ step ∈ readSteps (.still view noFault false) caps outcomes.length log.begin,
          ¬ Blind (view.files namePrefix nameSuffix) step.cap step.before) := by
  obtain ⟨outcomes, _, noEof, _, runs⟩ := reading_ends opens isNew caps
  obtain ⟨_, listed, begins⟩ := LogRead.new_spec isNew
  obtain rfl := Option.some.inj listed
  have run : (readCalls (.still view noFault false) caps (outcomes.length + 1) log.begin).1 =
      outcomes ++ [.failed .eof []] := by
    rw [runs, List.take_append, List.take_of_length_le (Nat.le_succ _), Nat.add_sub_cancel_left,
      List.take_replicate, Nat.min_eq_left (Nat.le_add_left _ _)]
    rfl
  have reads : log.begin.files view = view.files namePrefix nameSuffix := by
    change view.files log.namePrefix log.nameSuffix = _
    rw [begins.namePrefix, begins.nameSuffix]
  have on : Course view (view.files namePrefix nameSuffix) (due none (sessionsOf
      (view.files namePrefix nameSuffix) (scanSegmentIds dir namePrefix nameSuffix))) log.begin := by
    refine ⟨reads, ?_, fun segment current => absurd (begins.current.symm.trans current) (by simp)⟩
    rw [LogRead.course, reads]
    change log.session.toList ++ due log.session (sessionsOf _ log.pending) = _
    rw [begins.session, begins.pending]
    rfl
  exact ⟨outcomes, _, ⟨Prod.ext run rfl, noEof⟩, readSteps_reported outcomes caps on begins.pausing run noEof⟩

end Runs

namespace Sample

/-- Two sessions, each a record of one byte. -/
def oneByteRecords : List Life :=
  [⟨⟨[], [], 58, .fixed 1, some 1000⟩, [.write [1]]⟩, ⟨⟨[], [], 58, .fixed 1, some 1000⟩, [.write [2]]⟩]

theorem wroteOneByte : Wrote env ∅ oneByteRecords [] [] := by
  refine ⟨fun _ => rfl, fun _ => rfl, by decide, ?_⟩
  unfold Trail.Clean
  decide +kernel

/-- What the writers of the two sessions left. -/
def oneByteLog : Dir :=
  (Trail.run env ∅ oneByteRecords).state.dir

end Sample

theorem boundaries_reported_sample :
    ∃ outcomes last,
      ReadsToEof (.still Sample.oneByteLog noFault false) (fun _ => 1) (Sample.reader [1002, 1004]).begin
        outcomes last ∧
      (Reported (due none (sessionsOf (Sample.oneByteLog.files [] [])
          (scanSegmentIds Sample.oneByteLog [] [])))
          (readSteps (.still Sample.oneByteLog noFault false) (fun _ => 1) outcomes.length
            (Sample.reader [1002, 1004]).begin) ↔
        ∀ step ∈ readSteps (.still Sample.oneByteLog noFault false) (fun _ => 1) outcomes.length
            (Sample.reader [1002, 1004]).begin,
          ¬ Blind (Sample.oneByteLog.files [] []) step.cap step.before) :=
  boundaries_reported (fun present => present)
    (show LogRead.new true (some Sample.oneByteLog) [] [] = .ok (Sample.reader [1002, 1004]) by decide +kernel)
    fun _ => 1

/-- With no room for any record, the end of the first of two sessions is never
reported. -/
theorem boundary_missed :
    Wrote Sample.env ∅ Sample.oneByteRecords [] [] ∧
      LogRead.new true (some Sample.oneByteLog) [] [] = .ok (Sample.reader [1002, 1004]) ∧
      (readCalls (.still Sample.oneByteLog noFault false) (fun _ => 0) 4 (Sample.reader [1002, 1004]).begin).1 =
        [.failed (.readOverflow 0) [], .failed (.readOverflow 0) [], .failed (.readOverflow 0) [],
          .failed .eof []] ∧
      due none (sessionsOf (Sample.oneByteLog.files [] []) (scanSegmentIds Sample.oneByteLog [] [])) =
        [1002, 1004] ∧
      ¬ Reported [1002, 1004] (readSteps (.still Sample.oneByteLog noFault false) (fun _ => 0) 3
        (Sample.reader [1002, 1004]).begin) := by
  refine ⟨Sample.wroteOneByte, ?_, ?_, ?_, fun reported => ?_⟩
  · decide +kernel
  · decide +kernel
  · decide +kernel
  · exact absurd reported.count (by decide +kernel)

end Tcslog
