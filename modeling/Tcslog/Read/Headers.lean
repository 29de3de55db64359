import Tcslog.Read.Ending
import Tcslog.Read.Upholding

/-!
# The headers a reader retains

A reader counts the segment files it opens and, if asked to, retains their
headers.  A file that a rejected crossing handed back is opened again without
being counted again: it is then at the front of the pending files.
-/

namespace Tcslog

open Lib.Program

namespace LogRead

/-- Retain the header of every segment file opened from now on. -/
def collectOpenedHeaders (log : LogRead) (enable : Bool) : LogRead :=
  { log with collectHeaders := enable }

/-- Remove and return the headers retained since the last call. -/
def takeOpenedHeaders (log : LogRead) : List SegmentHeader × LogRead :=
  (log.openedHeaders, { log with openedHeaders := [] })

/-- Move the `n` oldest of the headers retained, or all if there are fewer. -/
def takeOpenedHeadersInto (log : LogRead) (n : Nat) : List SegmentHeader × LogRead :=
  (log.openedHeaders.take n, { log with openedHeaders := log.openedHeaders.drop n })

/-- The pending files that were not counted yet. -/
def uncounted (log : LogRead) : List SegId :=
  if log.reopened.isSome then log.pending.tail else log.pending

end LogRead

/-- The headers of the files that are accepted, in the order of the files. -/
def acceptedHeaders (files : SegId → Option Bytes) (ids : List SegId) : List SegmentHeader :=
  ids.filterMap fun id => (Segment.ofFile files id).map Segment.header

section Accepted

variable {files : SegId → Option Bytes} {segment : Segment} {ids rest : List SegId}

theorem acceptedHeaders_none (none : firstUsable files ids = none) : acceptedHeaders files ids = [] := by
  rw [acceptedHeaders, List.filterMap_eq_nil_iff]
  intro id mem
  rw [firstUsable_eq_none.mp none id mem]
  rfl

theorem acceptedHeaders_some (first : firstUsable files ids = some (segment, rest)) :
    acceptedHeaders files ids = segment.header :: acceptedHeaders files rest := by
  obtain ⟨skipped, rfl, refused, usable⟩ := firstUsable_eq_some first
  have nothing : acceptedHeaders files skipped = [] := by
    rw [acceptedHeaders, List.filterMap_eq_nil_iff]
    intro id mem
    rw [refused id mem]
    rfl
  rw [acceptedHeaders, List.filterMap_append, ← acceptedHeaders, nothing, List.nil_append,
    List.filterMap_cons_some (by rw [usable]; rfl)]
  rfl

theorem mem_acceptedHeaders {header : SegmentHeader} : header ∈ acceptedHeaders files ids ↔
    ∃ id ∈ ids, ∃ segment, Segment.ofFile files id = some segment ∧ segment.header = header := by
  simp only [acceptedHeaders, List.mem_filterMap, Option.map_eq_some_iff]

/-- A file's header bears the identifier of its name. -/
theorem Segment.ofFile_segmentId {id : SegId} (usable : Segment.ofFile files id = some segment) :
    segment.header.segmentId = id := by
  obtain ⟨_, _, accepted, -⟩ := Segment.ofFile_eq_some usable
  exact (validate_eq_some accepted).2.2.1

/-- The headers are in the order of the identifiers, and none is there twice. -/
theorem acceptedHeaders_sorted (sorted : ids.Pairwise (· < ·)) :
    ((acceptedHeaders files ids).map SegmentHeader.segmentId).Pairwise (· < ·) := by
  induction ids with
  | nil => exact List.Pairwise.nil
  | cons id ids ih =>
      have rest := ih sorted.of_cons
      cases usable : Segment.ofFile files id with
      | none =>
          rw [acceptedHeaders, List.filterMap_cons_none (by rw [usable]; rfl)]
          exact rest
      | some segment =>
          rw [acceptedHeaders, List.filterMap_cons_some (by rw [usable]; rfl), List.map_cons]
          refine List.Pairwise.cons ?_ rest
          intro later mem
          obtain ⟨header, accepted, rfl⟩ := List.mem_map.mp mem
          obtain ⟨id', listed, segment', usable', rfl⟩ := mem_acceptedHeaders.mp accepted
          rw [Segment.ofFile_segmentId usable, Segment.ofFile_segmentId usable']
          exact List.rel_of_pairwise_cons sorted listed

/-- A file is accepted if opening it gives a segment file. -/
theorem accepted_iff_opens {dir : Dir} {overflowChecks : Bool} {s : ReadState} {id : SegId} :
    (∃ s', (openValidated (.still dir noFault overflowChecks) id).run s = .ok (some segment) s') ↔
      Segment.ofFile (s.files dir) id = some segment := by
  have opens : Meets (openValidated (.still dir noFault overflowChecks) id) s
      (fun found s' => OnlyAsked s s' ∧ found = Segment.ofFile (s.files dir) id) (fun _ _ => False) :=
    openValidated_still
  constructor
  · rintro ⟨s', ran⟩
    exact (opens.of_ok ran).2.symm
  · intro usable
    cases ran : (openValidated (.still dir noFault overflowChecks) id).run s with
    | ok found s' =>
        rw [(opens.of_ok ran).2, usable]
        exact ⟨s', rfl⟩
    | error e s' => exact (opens.of_error ran).elim

end Accepted

namespace LogRead

variable {log : LogRead} {segment : Segment}

@[simp]
theorem adopt_collectHeaders : (log.adopt segment).collectHeaders = log.collectHeaders := by
  simp only [adopt]
  split <;> split <;> rfl

/-- A file that was not handed back is counted, and its header retained. -/
theorem adopt_new (log : LogRead) (segment : Segment) (new : log.reopened = none)
    (collects : log.collectHeaders = true) :
    (log.adopt segment).openedHeaders = log.openedHeaders ++ [segment.header] ∧
      (log.adopt segment).segmentsOpened = log.segmentsOpened + 1 ∧
      (log.adopt segment).reopened = none := by
  simp only [adopt, new, collects, reduceCtorEq, if_false, if_true]
  split <;> exact ⟨rfl, rfl, rfl⟩

/-- A file that was handed back is not. -/
theorem adopt_again (log : LogRead) (segment : Segment) (again : log.reopened = some segment.id) :
    (log.adopt segment).openedHeaders = log.openedHeaders ∧
      (log.adopt segment).segmentsOpened = log.segmentsOpened ∧
      (log.adopt segment).reopened = none := by
  simp only [adopt, again, if_true]
  split <;> exact ⟨rfl, rfl, rfl⟩

theorem uncounted_of_none (new : log.reopened = none) : log.uncounted = log.pending := by
  rw [uncounted, new]
  rfl

theorem uncounted_of_some {id : SegId} (again : log.reopened = some id) :
    log.uncounted = log.pending.tail := by
  rw [uncounted, again]
  rfl

end LogRead

/-- Of the headers `all`, those before the uncounted files are counted, and retained unless they
were `taken`. -/
structure Accounts (dir : Dir) (files : SegId → Option Bytes) (all taken : List SegmentHeader)
    (log : LogRead) : Prop where
  files_eq : log.files dir = files
  collects : log.collectHeaders = true
  retained : taken ++ log.openedHeaders ++ acceptedHeaders files log.uncounted = all
  counted : log.segmentsOpened + (acceptedHeaders files log.uncounted).length = all.length
  handedBack : ∀ id, log.reopened = some id → log.current = none ∧
    ∃ rest segment, log.pending = id :: rest ∧ Segment.ofFile files id = some segment
  usable : ∀ segment, log.current = some segment → (Segment.ofFile files segment.id).isSome

namespace Accounts

variable {dir : Dir} {files : SegId → Option Bytes} {all taken : List SegmentHeader} {s s' : ReadState}

/-- A file handed back is the first that is usable. -/
theorem first_of_handedBack {log : LogRead} {id : SegId} (accounts : Accounts dir files all taken log)
    (again : log.reopened = some id) : ∃ segment, segment.id = id ∧
      firstUsable files log.pending = some (segment, log.uncounted) := by
  obtain ⟨-, rest, segment, pending, usable⟩ := accounts.handedBack id again
  obtain ⟨-, -, -, -, same, -⟩ := Segment.ofFile_eq_some usable
  refine ⟨segment, same, ?_⟩
  rw [LogRead.uncounted_of_some again, pending, firstUsable, usable]
  rfl

/-- Finding no further usable file, the reader passes by the rest. -/
theorem passedBy (accounts : Accounts dir files all taken s.toLogRead)
    (unusable : firstUsable files s.pending = none) :
    Accounts dir files all taken { s.toLogRead with pending := [] } := by
  have retained := accounts.retained
  have counted := accounts.counted
  have new : s.reopened = none := by
    cases again : s.reopened with
    | none => rfl
    | some id =>
        obtain ⟨segment, -, first⟩ := accounts.first_of_handedBack again
        rw [first] at unusable
        contradiction
  have uncounted : LogRead.uncounted { s.toLogRead with pending := [] } = [] :=
    LogRead.uncounted_of_none new
  rw [LogRead.uncounted_of_none new, acceptedHeaders_none unusable] at retained counted
  refine ⟨accounts.files_eq, accounts.collects, ?_, ?_, fun id again => ?_, accounts.usable⟩
  · rw [uncounted]
    exact retained
  · rw [uncounted]
    exact counted
  · rw [show s.reopened = some id from again] at new
    contradiction

/-- The file adopted is counted, and its header retained, unless it was handed back. -/
theorem adopts {segment : Segment} {rest : List SegId}
    (accounts : Accounts dir files all taken s.toLogRead)
    (first : firstUsable files s.pending = some (segment, rest)) :
    let log := ({ s.toLogRead with pending := rest }).adopt segment
    log.reopened = none ∧ log.segmentsOpened + (acceptedHeaders files rest).length = all.length ∧
      taken ++ log.openedHeaders ++ acceptedHeaders files rest = all := by
  have retained := accounts.retained
  have counted := accounts.counted
  cases again : s.reopened with
  | none =>
      rw [LogRead.uncounted_of_none again, acceptedHeaders_some first] at retained counted
      obtain ⟨headers, opened, none⟩ :=
        LogRead.adopt_new { s.toLogRead with pending := rest } segment again accounts.collects
      refine ⟨none, ?_, ?_⟩
      · rw [opened, ← counted, List.length_cons, Nat.add_assoc, Nat.add_comm 1]
      · rw [headers, ← retained]
        simp
  | some id =>
      obtain ⟨segment', same, first'⟩ := accounts.first_of_handedBack again
      obtain ⟨rfl, rfl⟩ := Prod.mk.inj (Option.some.inj (first.symm.trans first'))
      subst same
      obtain ⟨headers, opened, none⟩ :=
        LogRead.adopt_again { s.toLogRead with pending := s.uncounted } segment again
      refine ⟨none, ?_, ?_⟩
      · rw [opened]
        exact counted
      · rw [headers]
        exact retained

/-- A file adopted is accounted for. -/
theorem adopted {segment : Segment} {rest : List SegId}
    (accounts : Accounts dir files all taken s.toLogRead)
    (first : firstUsable files s.pending = some (segment, rest)) :
    Accounts dir files all taken (({ s.toLogRead with pending := rest }).adopt segment) := by
  obtain ⟨-, -, -, usable⟩ := firstUsable_eq_some first
  obtain ⟨new, opened, headers⟩ := accounts.adopts first
  have uncounted : (({ s.toLogRead with pending := rest }).adopt segment).uncounted = rest :=
    (LogRead.uncounted_of_none new).trans (LogRead.adopt_pending _ _)
  refine ⟨?_, LogRead.adopt_collectHeaders.trans accounts.collects, ?_, ?_, fun id again => ?_,
    fun segment' current => ?_⟩
  · rw [← accounts.files_eq, LogRead.files, LogRead.files, LogRead.adopt_namePrefix,
      LogRead.adopt_nameSuffix]
  · rw [uncounted]
    exact headers
  · rw [uncounted]
    exact opened
  · rw [new] at again
    contradiction
  · simp only [LogRead.adopt_current, Option.some.injEq] at current
    rw [← current, usable]
    rfl

/-- A file of another session is left to be accounted for. -/
theorem handsBack {segment : Segment} {rest : List SegId} {log : LogRead}
    (accounts : Accounts dir files all taken s.toLogRead)
    (first : firstUsable files s.pending = some (segment, rest))
    (result : log = { s.toLogRead with
      pending := segment.id :: rest, session := none, prevSeq := none, recovery := none }) :
    Accounts dir files all taken log := by
  obtain ⟨-, -, -, usable⟩ := firstUsable_eq_some first
  have same : log.reopened = s.reopened := by rw [result]
  have pending : log.pending = segment.id :: rest := by rw [result]
  have uncounted : acceptedHeaders files log.uncounted = acceptedHeaders files s.uncounted := by
    cases again : s.reopened with
    | none =>
        rw [LogRead.uncounted_of_none again, LogRead.uncounted_of_none (same.trans again), pending,
          acceptedHeaders_some first, acceptedHeaders, List.filterMap_cons_some (by rw [usable]; rfl)]
        rfl
    | some id =>
        obtain ⟨segment', -, first'⟩ := accounts.first_of_handedBack again
        obtain ⟨-, rfl⟩ := Prod.mk.inj (Option.some.inj (first.symm.trans first'))
        rw [LogRead.uncounted_of_some (same.trans again), pending, List.tail_cons]
  refine ⟨by rw [result]; exact accounts.files_eq, by rw [result]; exact accounts.collects, ?_, ?_, ?_, ?_⟩
  · rw [uncounted, result]
    exact accounts.retained
  · rw [uncounted, result]
    exact accounts.counted
  · intro id again
    rw [same] at again
    obtain ⟨segment', rfl, first'⟩ := accounts.first_of_handedBack again
    obtain ⟨rfl, -⟩ := Prod.mk.inj (Option.some.inj (first.symm.trans first'))
    refine ⟨by rw [result]; exact (accounts.handedBack _ again).1, rest, segment, pending, usable⟩
  · rw [result]
    exact accounts.usable

/-- Opening the next file accounts for it, and for those passed by. -/
theorem opening {result : Except LogError Bool} (accounts : Accounts dir files all taken s.toLogRead)
    (opening : Opening dir s result s') : Accounts dir files all taken s'.toLogRead := by
  have files_eq : s.files dir = files := accounts.files_eq
  cases opening with
  | ended unusable result =>
      rw [result]
      exact accounts.passedBy (files_eq ▸ unusable)
  | opened first continues result =>
      rw [result]
      exact accounts.adopted (files_eq ▸ first)
  | boundary first session differs result =>
      exact accounts.handsBack (files_eq ▸ first) (by rw [result])

end Accounts

/-- Every change of a reader keeps account of the files. -/
theorem accounts_upheld (dir : Dir) (overflowChecks : Bool) (files : SegId → Option Bytes)
    (all taken : List SegmentHeader) :
    Upholds (.still dir noFault overflowChecks) (Accounts dir files all taken) where
  openNext s accounts := by
    refine (openNext_still s).imp (fun _ _ opening => accounts.opening opening) ?_
    rintro _ _ ⟨e, rfl, opening⟩
    exact accounts.opening opening
  rejected {log segment} current accounts := by
    have new : log.reopened = none := by
      cases again : log.reopened with
      | none => rfl
      | some id =>
          rw [(accounts.handedBack id again).1] at current
          contradiction
    have retained := accounts.retained
    have counted := accounts.counted
    rw [LogRead.uncounted_of_none new] at retained counted
    refine ⟨accounts.files_eq, accounts.collects, retained, counted, ?_, ?_⟩
    · intro id again
      obtain rfl := Option.some.inj again
      obtain ⟨segment', usable⟩ := Option.isSome_iff_exists.mp (accounts.usable segment current)
      exact ⟨rfl, log.pending, segment', rfl, usable⟩
    · intro _ open_
      contradiction
  moved {log segment pos offset} current accounts := by
    refine ⟨accounts.files_eq, accounts.collects, accounts.retained, accounts.counted, ?_, ?_⟩
    · intro id again
      have closed := (accounts.handedBack id again).1
      rw [current] at closed
      contradiction
    · intro segment' moved
      obtain rfl := Option.some.inj moved
      exact accounts.usable segment current
  closed {log} accounts := by
    refine ⟨accounts.files_eq, accounts.collects, accounts.retained, accounts.counted, ?_, ?_⟩
    · exact fun id again => ⟨rfl, (accounts.handedBack id again).2⟩
    · intro _ open_
      contradiction
  noted accounts :=
    ⟨accounts.files_eq, accounts.collects, accounts.retained, accounts.counted, accounts.handedBack,
      accounts.usable⟩

/-! ## Taking the headers -/

/-- A call made of a reader that retains headers. -/
inductive HeaderCall
  | read (cap : Nat)
  | take
  | takeInto (n : Nat)
  deriving DecidableEq, Repr

/-- One call, and the headers it took. -/
def HeaderCall.make (env : ReadEnv) (s : ReadState) : HeaderCall → List SegmentHeader × ReadState
  | .read cap => ([], (readCall env cap s).2)
  | .take =>
      let (headers, log) := s.toLogRead.takeOpenedHeaders
      (headers, { s with toLogRead := log })
  | .takeInto n =>
      let (headers, log) := s.toLogRead.takeOpenedHeadersInto n
      (headers, { s with toLogRead := log })

/-- Calls one after another, and all the headers they took. -/
def headerCalls (env : ReadEnv) : List HeaderCall → ReadState → List SegmentHeader × ReadState
  | [], s => ([], s)
  | call :: calls, s =>
      let (headers, t) := call.make env s
      let (more, last) := headerCalls env calls t
      (headers ++ more, last)

/-- Headers that are taken are accounted for as those retained. -/
theorem Accounts.take {dir : Dir} {files : SegId → Option Bytes} {all taken headers rest : List SegmentHeader}
    {log : LogRead} (accounts : Accounts dir files all taken log)
    (split : log.openedHeaders = headers ++ rest) :
    Accounts dir files all (taken ++ headers) { log with openedHeaders := rest } := by
  refine ⟨accounts.files_eq, accounts.collects, ?_, accounts.counted, accounts.handedBack,
    accounts.usable⟩
  have retained := accounts.retained
  rwa [split, ← List.append_assoc] at retained

section Calls

variable {dir : Dir} (overflowChecks : Bool) {files : SegId → Option Bytes}
  {all taken : List SegmentHeader} {s : ReadState}

theorem Accounts.make (accounts : Accounts dir files all taken s.toLogRead) (call : HeaderCall) :
    Accounts dir files all (taken ++ (call.make (.still dir noFault overflowChecks) s).1)
      (call.make (.still dir noFault overflowChecks) s).2.toLogRead := by
  cases call with
  | read cap =>
      rw [HeaderCall.make, List.append_nil]
      exact (accounts_upheld dir overflowChecks files all taken).readCall cap accounts
  | take => exact accounts.take (List.append_nil _).symm
  | takeInto n => exact accounts.take (List.take_append_drop n _).symm

theorem Accounts.calls (accounts : Accounts dir files all taken s.toLogRead)
    (calls : List HeaderCall) :
    Accounts dir files all (taken ++ (headerCalls (.still dir noFault overflowChecks) calls s).1)
      (headerCalls (.still dir noFault overflowChecks) calls s).2.toLogRead := by
  induction calls generalizing taken s with
  | nil =>
      rw [headerCalls, List.append_nil]
      exact accounts
  | cons call calls ih =>
      rw [headerCalls, ← List.append_assoc]
      exact ih (accounts.make overflowChecks call)

end Calls

/-- A new reader has counted nothing. -/
theorem LogRead.new_counts {isDir : Bool} {listing : Option Dir} {namePrefix nameSuffix : Bytes}
    {log : LogRead} (isNew : LogRead.new isDir listing namePrefix nameSuffix = .ok log) :
    log.reopened = none ∧ log.segmentsOpened = 0 ∧ log.openedHeaders = [] := by
  unfold LogRead.new at isNew
  cases checked : checkLogLocation isDir namePrefix nameSuffix with
  | error e => simp [checked, bind, Except.bind] at isNew
  | ok _ =>
      cases listing with
      | none => simp [checked, bind, Except.bind, throw, throwThe, MonadExceptOf.throw] at isNew
      | some listed =>
          simp only [checked, bind, Except.bind] at isNew
          split at isNew
          · simp [throw, throwThe, MonadExceptOf.throw] at isNew
          · obtain rfl := Except.ok.inj isNew
            exact ⟨rfl, rfl, rfl⟩

/-- At the end of the log nothing is left to be counted. -/
theorem Accounts.finished {dir : Dir} {files : SegId → Option Bytes} {all taken : List SegmentHeader}
    {log : LogRead} (accounts : Accounts dir files all taken log) (finished : log.pending = []) :
    taken ++ log.openedHeaders = all ∧ log.segmentsOpened = all.length := by
  have retained := accounts.retained
  have counted := accounts.counted
  have nothing : acceptedHeaders files log.uncounted = [] := by
    rw [LogRead.uncounted, finished]
    split <;> rfl
  rw [nothing] at retained counted
  exact ⟨(List.append_nil _).symm.trans retained, counted⟩

/-- Whatever a directory holds, a reader that retains headers from the start and comes to the end
of the log has counted every file that is accepted once and retained its header, in the order of the
files; headers taken in between make up the front of the same list. -/
theorem headers_accounted {dir : Dir} {isDir overflowChecks : Bool} {namePrefix nameSuffix : Bytes}
    {log : LogRead} (isNew : LogRead.new isDir (some dir) namePrefix nameSuffix = .ok log)
    (calls : List HeaderCall) (cap : Nat) {taken : List SegmentHeader} {s last : ReadState}
    (called : headerCalls (.still dir noFault overflowChecks) calls
      (log.collectOpenedHeaders true).begin = (taken, s))
    (ended : readCall (.still dir noFault overflowChecks) cap s = (.failed .eof [], last)) :
    let accepted := acceptedHeaders (dir.files namePrefix nameSuffix)
      (scanSegmentIds dir namePrefix nameSuffix)
    taken ++ last.openedHeaders = accepted ∧ last.segmentsOpened = accepted.length ∧
      (accepted.map SegmentHeader.segmentId).Pairwise (· < ·) ∧
      ∀ header, header ∈ accepted ↔ ∃ id segment s',
        (openValidated (.still dir noFault overflowChecks) id).run log.begin = .ok (some segment) s' ∧
          segment.header = header := by
  intro accepted
  obtain ⟨_, listed, begins⟩ := LogRead.new_spec isNew
  obtain rfl := Option.some.inj listed
  obtain ⟨reopened, opened, headers⟩ := LogRead.new_counts isNew
  have files_eq : log.files dir = dir.files namePrefix nameSuffix := by
    rw [LogRead.files, begins.namePrefix, begins.nameSuffix]
  have uncounted : log.uncounted = scanSegmentIds dir namePrefix nameSuffix := by
    rw [LogRead.uncounted_of_none reopened, begins.pending]
  have start : Accounts dir (dir.files namePrefix nameSuffix) accepted []
      (log.collectOpenedHeaders true).begin.toLogRead := by
    refine ⟨files_eq, rfl, ?_, ?_, ?_, ?_⟩
    · change [] ++ log.openedHeaders ++ acceptedHeaders _ log.uncounted = accepted
      rw [headers, uncounted]
      rfl
    · change log.segmentsOpened + (acceptedHeaders _ log.uncounted).length = accepted.length
      rw [opened, uncounted, Nat.zero_add]
    · intro id again
      rw [show (log.collectOpenedHeaders true).begin.reopened = none from reopened] at again
      contradiction
    · intro segment current
      rw [show (log.collectOpenedHeaders true).begin.current = none from begins.current] at current
      contradiction
  have calls := start.calls overflowChecks calls
  rw [called] at calls
  have finish := calls.make overflowChecks (.read cap)
  have pending := pending_of_eof (congrArg Prod.fst ended)
  rw [HeaderCall.make, ended, List.nil_append, List.append_nil] at finish
  rw [ended] at pending
  obtain ⟨headers, opened⟩ := finish.finished pending
  refine ⟨headers, opened, acceptedHeaders_sorted (scanSegmentIds_sorted _ _ _), ?_⟩
  intro header
  rw [mem_acceptedHeaders]
  constructor
  · rintro ⟨id, -, segment, usable, same⟩
    rw [← show log.begin.files dir = _ from files_eq] at usable
    obtain ⟨s', opens⟩ := accepted_iff_opens.mpr usable
    exact ⟨id, segment, s', opens, same⟩
  · rintro ⟨id, segment, s', opens, same⟩
    have usable := accepted_iff_opens.mp ⟨s', opens⟩
    rw [show log.begin.files dir = _ from files_eq] at usable
    obtain ⟨content, present, -⟩ := Segment.ofFile_eq_some usable
    refine ⟨id, ?_, segment, usable, same⟩
    rw [mem_scanSegmentIds, ← AList.lookup_isSome]
    exact Option.isSome_of_eq_some present

/-- The second file is opened twice, and the header of the first taken before the second time. -/
theorem headers_accounted_sample :
    let env := ReadEnv.still Sample.rejected noFault true
    let called := headerCalls env [.read 4, .takeInto 1, .read 4]
      ((Sample.reader [7, 8]).collectOpenedHeaders true).begin
    let last := (readCall env 4 called.2).2
    let accepted := acceptedHeaders (Sample.rejected.files [] []) (scanSegmentIds Sample.rejected [] [])
    called.1 ++ last.openedHeaders = accepted ∧ last.segmentsOpened = accepted.length ∧
      (accepted.map SegmentHeader.segmentId).Pairwise (· < ·) ∧
      ∀ header, header ∈ accepted ↔ ∃ id segment s',
        (openValidated env id).run (Sample.reader [7, 8]).begin = .ok (some segment) s' ∧
          segment.header = header :=
  headers_accounted
    (show LogRead.new true (some Sample.rejected) [] [] = .ok (Sample.reader [7, 8]) by decide +kernel)
    [.read 4, .takeInto 1, .read 4] 4 rfl (Prod.ext (by decide +kernel) rfl)

end Tcslog
