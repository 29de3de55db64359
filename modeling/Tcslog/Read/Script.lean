import Tcslog.Read.Entire
import Tcslog.Read.Footprint
import Tcslog.Read.Outcomes

/-!
# Reading a shelf to its end

Call by call a reader of a shelf hands back the records in the order they were
written and reports each end of a session once, until it has handed back all of
them or comes to what is not seen.
-/

namespace Tcslog

open Lib.Program Lib.Spanned

/-- The records of sessions, with the ends of sessions between them. -/
def script (sessions : List (List Record)) : List Outcome :=
  List.intercalate [.failed .sessionEnd []] (sessions.map (·.map Record.outcome))

theorem script_cons (records : List Record) (more : List (List Record)) :
    script (records :: more) = records.map Record.outcome ++
      (more.map fun later => .failed .sessionEnd [] :: later.map Record.outcome).flatten := by
  induction more generalizing records with
  | nil => simp [script, List.intercalate]
  | cons next more ih =>
      have step : script (records :: next :: more) =
          records.map Record.outcome ++ (.failed .sessionEnd [] :: script (next :: more)) := by
        simp [script, List.intercalate]
      rw [step, ih, List.map_cons, List.flatten_cons, List.cons_append]

namespace Shelf

variable {S : Shelf} {s s' t : ReadState} {T : Tape} {rest : List Tape} {j c pos i : Nat} {id : SegId}

/-- The reader stands where record `i` of a tape begins, having read those
before it. -/
structure AtRest (S : Shelf) (s : ReadState) (T : Tape) (rest : List Tape) (j : Nat) (id : SegId)
    (c pos i : Nat) : Prop extends S.On s T rest j id c pos where
  place : j * T.dataSection + pos = T.start i
  index : i ≤ T.records.length
  begun : 0 < i

/-- The next record is record `i` of a tape. -/
def Facing (S : Shelf) (s : ReadState) (T : Tape) (rest : List Tape) (i : Nat) : Prop :=
  S.Between s (T :: rest) ∧ i = 0 ∨ ∃ j id c pos, S.AtRest s T rest j id c pos i

/-- A reader at the first byte of a record. -/
theorem Mid.ofStart (on : S.On s T rest j id c pos) (place : j * T.dataSection + pos = T.start i)
    (index : i ≤ T.records.length) (fresh : s.cursor = {}) : S.Mid s T rest j id c pos i 0 :=
  ⟨on, place, index, by rw [fresh], Tape.start_mono (Nat.le_succ i), by simp [fresh], by simp [fresh]⟩

/-! ## Finding a record -/

/-- The only file of a tape was opened and no data of it seen. -/
structure Passed (S : Shelf) (s : ReadState) (T : Tape) (rest : List Tape) : Prop where
  place : T :: rest <:+ S.tapes
  named : S.Named s
  pending : s.pending = rest.flatMap Tape.ids
  closed : s.current = none
  session : s.session = some T.sessionId
  alone : T.ids.length = 1
  unseen : rest = [] → S.floor ≤ segmentFileHeaderLen
  empty : rest ≠ [] → T.records = []

/-- What looking for a record at the start of a tape comes to. -/
inductive Located (S : Shelf) (T : Tape) (rest : List Tape) : Except LogError Start → ReadState → Prop
  | fresh {s' : ReadState} {id : SegId} {c : Nat} (shown : 0 < c)
      (on : S.On { s' with resync := false } T rest 0 id c 0) (startLost : s'.sessionStartLost = 0) :
      Located S T rest (.ok .fresh) s'
  | boundary {s' : ReadState} (empty : T.records = []) (more : rest ≠ [])
      (headerRead : ∀ U ∈ rest.head?, S.HeaderRead U.ids s'.ops) (between : S.Between s' rest) :
      Located S T rest (.error .sessionEnd) s'
  | ended {s' : ReadState} (unseen : S.Unseen T rest 0 s'.ops.length) (noMore : s'.pending = []) :
      Located S T rest (.error .eof) s'

/-- A tape of one file shows what the shelf's last file shows. -/
theorem reach_of_alone (alone : T.ids.length = 1) : S.reach T = S.floor - segmentFileHeaderLen := by
  rw [reach, alone, Nat.sub_self, Nat.zero_mul, Nat.zero_add]

theorem unseen_alone {n : Nat} (alone : T.ids.length = 1) (low : S.floor ≤ segmentFileHeaderLen)
    (isLast : rest = []) : S.Unseen T rest 0 n := by
  refine ⟨fun _ index => ?_, fun more => absurd isLast more⟩
  have first := Tape.start_lt index
  rw [reach_of_alone alone]
  omega

/-- The first file of a tape, with those after it. -/
theorem exists_fileAt (place : T :: rest <:+ S.tapes) : ∃ id, S.FileAt T rest 0 id ∧
    (T :: rest).flatMap Tape.ids = id :: after T rest 0 := by
  obtain ⟨id, ids, isIds⟩ := List.exists_cons_of_ne_nil T.nonempty
  refine ⟨id, ⟨place, by rw [isIds]; rfl⟩, ?_⟩
  rw [List.flatMap_cons, after, isIds]
  rfl

/-- Where a first file shows no data, the tape has no other file. -/
theorem On.alone (on : S.On s T rest 0 id 0 0) : T.ids.length = 1 ∧
    (rest = [] → S.floor ≤ segmentFileHeaderLen) ∧ (rest ≠ [] → T.records = []) := by
  have within := on.fileAt.lt
  have alone : T.ids.length = 1 := by
    by_contra notAlone
    have more : 0 + 1 < T.ids.length := by omega
    have listed : after T rest 0 ≠ [] := by
      intro nil
      have := List.drop_eq_nil_iff.mp (List.append_eq_nil_iff.mp nil).1
      omega
    have whole := on.whole listed
    rw [T.length_data_of_lt more] at whole
    have := T.dataSection_pos
    omega
  refine ⟨alone, fun isLast => ?_, fun more => ?_⟩
  · exact on.floor (by rw [after_of_last alone.symm, isLast]; rfl)
  · have listed : after T rest 0 ≠ [] := by
      obtain ⟨U, rest', rfl⟩ := List.exists_cons_of_ne_nil more
      simp [after, U.nonempty]
    have whole := on.whole listed
    have full : T.stored = T.blocks.flatten.length := full_of_next on.fileAt.place more
    have ends := T.length_data_last alone.symm
    by_contra some
    have first := Tape.start_lt (T := T) (List.length_pos_of_ne_nil some)
    have last : T.start (0 + 1) ≤ T.start T.records.length :=
      Tape.start_mono (List.length_pos_of_ne_nil some)
    rw [Tape.start_of_length_le (Nat.le_refl _)] at last
    omega

/-- Seeking no further than the read position leaves it where it is. -/
theorem seekForward_zero (segment : Segment) (fileAt : S.FileAt T rest j segment.id) (named : S.Named s) :
    Meets (seekForward S.env segment 0) s (fun moved s' => OnlyAsked s s' ∧ moved = segment)
      (fun _ _ => False) := by
  obtain ⟨n, _, present, _⟩ := S.shows T fileAt.mem j segment.id fileAt.idAt s.ops.length
  simp only [seekForward, meets_bind]
  refine (perform_spec .seek segment.id named).imp ?_ fun _ _ impossible => impossible
  rintro _ t ⟨asked, rfl, _⟩
  rw [show S.name segment.id = buildName S.namePrefix segment.id S.nameSuffix from rfl, present]
  exact ⟨asked, rfl⟩

/-- A first file is passed over if it shows no data, and else offers the first
record. -/
theorem examine_opened (on : S.On { t with resync := false } T rest 0 id c 0)
    (startLost : t.sessionStartLost = 0) :
    Meets (if c ≤ 0 then do
          modify fun s => { s with current := none }
          pure none
        else do
          let moved ← seekForward S.env (opened T 0 id c) 0
          modify fun s => { s with current := some { moved with pos := 0 } }
          pure (some Start.fresh)) t
      (fun found s' => s'.cursor = t.cursor ∧
        (∀ start, found = some start → S.Located T rest (.ok start) s') ∧
        (found = none → S.Passed s' T rest))
      (fun stop s' => ∃ e, stop = .error e ∧ S.Located T rest (.error e) s') := by
  have named : S.Named t := ⟨on.named.namePrefix, on.named.nameSuffix⟩
  simp only [meets_ite, meets_bind, meets_modify, meets_pure]
  refine ⟨fun noData => ⟨trivial, by simp, fun _ => ?_⟩, fun shown => ?_⟩
  · obtain rfl : c = 0 := by omega
    obtain ⟨alone, unseen, empty⟩ := on.alone
    exact ⟨on.fileAt.place, ⟨on.named.namePrefix, on.named.nameSuffix⟩,
      on.pending.trans (after_of_last alone.symm), rfl, on.session, alone, unseen, empty⟩
  · refine (seekForward_zero (opened T 0 id c) on.fileAt named).imp ?_
      fun _ _ impossible => impossible.elim
    rintro _ u ⟨asked, rfl⟩
    refine ⟨by rw [asked.same], ?_, by simp⟩
    rintro start isStart
    obtain rfl := Option.some.inj isStart
    refine .fresh (Nat.pos_of_ne_zero fun none => shown none.le)
      ⟨on.fileAt, ?_, ?_, ?_, rfl, Nat.zero_le c, ?_, ?_, rfl⟩ ?_
    · rw [asked.same]
      exact ⟨on.named.namePrefix, on.named.nameSuffix⟩
    · rw [asked.same]
      exact on.pending
    · exact on.seen.mono asked.asked.length_le
    · rw [asked.same]
      exact on.session
    · rw [asked.same]
      exact on.prevSeq
    · rw [asked.same]
      exact startLost

/-- Looking for a record at the start of a tape opens its first file. -/
theorem examineNext_between (between : S.Between s (T :: rest)) :
    Meets (examineNext S.env) s
      (fun found s' => s'.cursor = s.cursor ∧
        (∀ start, found = some start → S.Located T rest (.ok start) s') ∧
        (found = none → S.Passed s' T rest))
      (fun stop s' => ∃ e, stop = .error e ∧ S.Located T rest (.error e) s') := by
  obtain ⟨id, fileAt, listed⟩ := exists_fileAt between.place
  have within := fileAt.lt
  have named : S.Named { s with recovery := none } := ⟨between.named.namePrefix, between.named.nameSuffix⟩
  have nothing : (T.header 0 id).remaining.toNat = 0 := by
    rw [T.header_remaining (i := 0) (x := 0) within (by simp) (.inr rfl), if_pos rfl]
  simp only [examineNext, meets_bind, meets_get, meets_modify]
  refine (openNext_spec fileAt named (between.pending.trans listed)).imp ?_ ?_
  · rintro isOpen t ⟨_, opening⟩
    cases opening with
    | refused noMore unseen _ result =>
        refine ⟨_, rfl, .ended (unseen_alone ?_ unseen.le ?_) (by rw [result])⟩
        · have := List.drop_eq_nil_iff.mp (List.append_eq_nil_iff.mp noMore).1
          omega
        · cases rest with
          | nil => rfl
          | cons U rest => simp [after, U.nonempty] at noMore
    | @accepted _ c seen session result =>
        have current : t.current = some (opened T 0 id c) := by
          rw [result]
          exact LogRead.adopt_current _ _
        have cursor : t.cursor = s.cursor := by rw [result]
        have noHint (known : Option Recovery) (format : Format) (dataSection : Nat) :
            (known.bind fun known => recoveredPayloadLen known (opened T 0 id c).id format 0 dataSection) =
              none := by
          cases known with
          | none => rfl
          | some known => exact if_pos (.inr rfl)
        have header : (opened T 0 id c).header = T.header 0 id := rfl
        have dataLen : (opened T 0 id c).dataLen = c := rfl
        simp only [if_true, meets_bind, meets_get, current, header, nothing, noHint, dataLen]
        rw [← cursor]
        refine examine_opened ⟨fileAt, ?_, ?_, seen, current, Nat.zero_le c, ?_, ?_, rfl⟩ ?_
        · rw [result]
          exact ⟨by simpa using between.named.namePrefix, by simpa using between.named.nameSuffix⟩
        · rw [result]
          simp
        · rw [result]
          simp [between.session, opened, Tape.header]
        · rw [result]
          simp [opened]
        · rw [result]
          simp [between.session, opened, Tape.header]
  · rintro stop t ⟨_, rfl, opening⟩
    cases opening with
    | boundary session differs headerRead result => exact absurd between.session session

/-- After a tape that shows no data the next session begins, or nothing more is
seen. -/
theorem examineNext_passed (passed : S.Passed s T rest) :
    Meets (examineNext S.env) s (fun _ _ => False)
      (fun stop s' => ∃ e, stop = .error e ∧ S.Located T rest (.error e) s') := by
  have named : S.Named { s with recovery := none } := ⟨passed.named.namePrefix, passed.named.nameSuffix⟩
  simp only [examineNext, meets_bind, meets_get, meets_modify]
  cases rest with
  | nil =>
      refine (openNext_nil (s := { s with recovery := none }) S.env passed.pending).imp ?_
        fun _ _ impossible => impossible.elim
      rintro _ _ ⟨rfl, rfl⟩
      exact ⟨_, rfl, .ended (unseen_alone passed.alone (passed.unseen rfl) rfl) passed.pending⟩
  | cons U rest =>
      have next : U :: rest <:+ S.tapes := (List.suffix_cons _ _).trans passed.place
      obtain ⟨id, fileAt, listed⟩ := exists_fileAt next
      refine (openNext_spec fileAt named (passed.pending.trans listed)).imp ?_ ?_
      · rintro isOpen t ⟨_, opening⟩
        cases opening with
        | accepted seen session result =>
            have same : some T.sessionId = some U.sessionId := by
              rw [← passed.session]
              exact session.resolve_left (by simp [passed.session])
            exact absurd (Option.some.inj same) (apart_of_next passed.place)
        | refused noMore unseen headless result =>
            refine ⟨_, rfl, .ended ⟨by simp, fun more => ⟨?_, unseen, ⟨id, ?_⟩, ?_⟩⟩ (by rw [result])⟩
            · rw [passed.empty more, List.length_nil]
            · rw [listed, noMore]
            · rw [listed, noMore]
              exact headless
      · rintro stop t ⟨_, rfl, opening⟩
        cases opening with
        | boundary session differs headerRead result =>
            refine ⟨_, rfl, .boundary (passed.empty (by simp)) (by simp) (fileAt.headerRead headerRead)
              ⟨next, ?_, ?_, ?_, ?_⟩⟩
            · rw [result]
              exact ⟨passed.named.namePrefix, passed.named.nameSuffix⟩
            · rw [result]
              exact passed.pending
            · rw [result]
              exact passed.closed
            · rw [result]

theorem findRecordStart_spec (between : S.Between s (T :: rest)) :
    Meets (findRecordStart S.env) s
      (fun start s' => s'.cursor = s.cursor ∧ S.Located T rest (.ok start) s')
      (fun stop s' => ∃ e, stop = .error e ∧ S.Located T rest (.error e) s') := by
  refine meets_findRecordStart _ (fun t => t.cursor = s.cursor ∧
    (S.Between t (T :: rest) ∨ S.Passed t T rest)) ?_ ⟨rfl, .inl between⟩
  rintro t ⟨cursor, between' | passed⟩
  · refine (examineNext_between between').imp ?_ fun _ _ located => located
    rintro found u ⟨same, isFound, noneFound⟩
    exact ⟨fun start is => ⟨same.trans cursor, isFound start is⟩,
      fun none => ⟨same.trans cursor, .inr (noneFound none)⟩⟩
  · exact (examineNext_passed passed).imp (fun _ _ impossible => impossible.elim) fun _ _ located => located

/-! ## One call -/

/-- What a call comes to whose next record is record `i` of a tape. -/
inductive Turn (S : Shelf) (T : Tape) (rest : List Tape) (i : Nat) :
    Except LogError ReadResult → ReadState → Prop
  /-- The record is in the buffer, and the next one is faced. -/
  | record {s' : ReadState} {record : Record} (recordAt : T.records[i]? = some record)
      (dst : s'.dst = record.payload) (onward : S.Facing s' T rest (i + 1)) :
      Turn S T rest i (.ok ⟨record.payload.length, record.metadata⟩) s'
  /-- The record could not be read. -/
  | ended {s' : ReadState} {e : LogError} (wanted : i < T.records.length ∨ rest ≠ [])
      (ended : S.Ended T rest i e s') : Turn S T rest i (.error e) s'
  /-- Nothing more is seen. -/
  | eof {s' : ReadState} (unseen : S.Unseen T rest i s'.ops.length) : Turn S T rest i (.error .eof) s'

/-- A record that was read from its first byte leaves the reader at the next. -/
theorem Mid.facing {record : Record} (recordAt : T.records[i]? = some record)
    (mid : S.Mid s T rest j id c pos i (T.headerLen + record.payload.length)) : S.Facing s T rest (i + 1) := by
  refine .inr ⟨j, id, c, pos, mid.toOn, ?_, (List.getElem?_eq_some_iff.mp recordAt).1, Nat.succ_pos i⟩
  rw [Tape.start_succ recordAt]
  exact mid.place

/-- Where a record is faced its first byte is at the read position. -/
theorem turn_of_mid {cap : Nat} {segment : Segment} (mid : S.Mid s T rest j id c pos i 0)
    (fresh : s.cursor = {}) (takes : Takes T i cap) (more : i < T.records.length ∨ rest ≠ [])
    (current : s.current = some segment) :
    Meets (do
        let (want, metadata) ← header S.env .fresh segment
        payload S.env cap want metadata) s
      (fun result s' => S.Turn T rest i (.ok result) s')
      (fun stop s' => ∃ e, stop = .error e ∧ S.Turn T rest i (.error e) s') := by
  refine (record_spec mid fresh takes more current).imp ?_ ?_
  · rintro _ t ⟨record, recordAt, rfl, dst, _, _, _, _, mid'⟩
    exact .record recordAt dst (mid'.facing recordAt)
  · rintro _ t ⟨e, rfl, ended⟩
    exact ⟨e, rfl, .ended more ended⟩

theorem locate_between (between : S.Between s (T :: rest)) (resync : s.resync = true) (fresh : s.cursor = {}) :
    Meets (locate S.env) s
      (fun start s' => start = .fresh ∧ s'.cursor = {} ∧ ∃ id c, 0 < c ∧ S.On s' T rest 0 id c 0)
      (fun stop s' => ∃ e, stop = .error e ∧ S.Turn T rest 0 (.error e) s') := by
  simp only [locate, meets_bind, meets_get, resync, if_true, meets_orLosePosition, meets_modify]
  refine (findRecordStart_spec between).imp ?_ ?_
  · rintro start t ⟨cursor, located⟩
    cases located with
    | @fresh _ id c shown on startLost =>
        simp only [startLost, Nat.lt_irrefl, if_false, meets_pure] at on ⊢
        exact ⟨trivial, cursor.trans fresh, id, c, shown, on⟩
  · rintro _ t ⟨e, rfl, located⟩
    refine ⟨e, rfl, ?_⟩
    cases located with
    | boundary empty more headerRead between =>
        exact .ended (.inr more)
          (.boundary (by rw [empty, List.length_nil]) more headerRead between.losePosition)
    | ended unseen noMore => exact .eof unseen

/-- At the end of the file a reader with no file left has come to what is not
seen. -/
theorem AtRest.unseen {n : Nat} (atRest : S.AtRest s T rest j id c c i) (noMore : after T rest j = []) :
    S.Unseen T rest i n := by
  have noTape : rest = [] := by
    cases rest with
    | nil => rfl
    | cons U rest => simp [after, U.nonempty] at noMore
  refine ⟨fun _ index => ?_, fun more => absurd noTape more⟩
  have within := atRest.fileAt.lt
  have last : T.ids.length ≤ j + 1 := List.drop_eq_nil_iff.mp (List.append_eq_nil_iff.mp noMore).1
  have count : T.ids.length - 1 = j := by omega
  have shown := atRest.floor noMore
  have place := atRest.place
  have next := Tape.start_lt index
  rw [reach, count]
  omega

/-- Where a tape has records, a buffer that takes them has room. -/
theorem takes_of_ample {cap : Nat} (ample : ∀ record ∈ T.records, record.payload.length ≤ cap)
    (some : 0 < T.records.length) : Takes T i cap := by
  refine ⟨fun record recordAt => ample record (List.mem_of_getElem? recordAt), fun _ noHeader => ?_⟩
  have recordAt := List.getElem?_eq_getElem some
  have first := Tape.start_lt some
  rw [Tape.start_succ recordAt, noHeader] at first
  have fits := ample _ (List.mem_of_getElem? recordAt)
  omega

/-- One call of `read`. -/
theorem read_spec {cap : Nat} (facing : S.Facing s T rest i)
    (ample : ∀ record ∈ T.records, record.payload.length ≤ cap) :
    Meets (read S.env cap) s (fun result s' => S.Turn T rest i (.ok result) s')
      (fun stop s' => ∃ e, stop = .error e ∧ S.Turn T rest i (.error e) s') := by
  simp only [read, meets_bind, meets_get, meets_ite, meets_set, meets_fail]
  rcases facing with ⟨between, rfl⟩ | ⟨j, id, c, pos, atRest⟩
  · have listed : s.pending ≠ [] := by
      rw [between.pending]
      simp [T.nonempty]
    refine ⟨fun none => absurd none.1 listed, fun _ => ?_⟩
    have begun : S.Between { s with resync := s.resync || s.current.isNone, cursor := {}, dst := [] }
        (T :: rest) :=
      ⟨between.place, ⟨between.named.namePrefix, between.named.nameSuffix⟩, between.pending, between.closed,
        between.session⟩
    refine (locate_between begun (by simp [between.closed]) rfl).imp ?_ fun _ _ turn => turn
    rintro _ t ⟨rfl, fresh, id, c, shown, on⟩
    have mid := Mid.ofStart on (i := 0) (by simp) (Nat.zero_le _) fresh
    have some : 0 < T.records.length := by
      refine Nat.pos_of_ne_zero fun none => ?_
      have := (mid.atEnd none.symm).2.1
      omega
    simp only [on.current]
    exact turn_of_mid mid fresh (takes_of_ample ample some) (.inl some) on.current
  · have current : s.current ≠ none := by simp [atRest.current]
    have isSome : s.current.isNone = false := by simp [atRest.current]
    have exhausted : s.exhausted = decide (c ≤ pos) := by simp [LogRead.exhausted, atRest.current, opened]
    refine ⟨fun ended => ⟨_, rfl, .eof ?_⟩, fun notEnded => ?_⟩
    · obtain ⟨noMore, ends⟩ := ended
      have atEnd : pos = c := by
        have := atRest.posLe
        rw [exhausted] at ends
        simpa using Nat.le_antisymm this (of_decide_eq_true ends)
      subst atEnd
      exact atRest.unseen (atRest.pending.symm.trans noMore)
    · obtain ⟨begun, isBegun⟩ : ∃ begun : ReadState, begun =
          { s with resync := s.resync || s.current.isNone, cursor := {}, dst := [] } := ⟨_, rfl⟩
      have fresh : begun.cursor = {} := by rw [isBegun]
      have on : S.On begun T rest j id c pos := by
        subst isBegun
        exact ⟨atRest.fileAt, ⟨atRest.named.namePrefix, atRest.named.nameSuffix⟩, atRest.pending,
          atRest.seen, atRest.current, atRest.posLe, atRest.session, atRest.prevSeq,
          by simp [isSome, atRest.synced]⟩
      have mid := Mid.ofStart on atRest.place atRest.index fresh
      have more : i < T.records.length ∨ rest ≠ [] := by
        by_contra noMore
        rw [not_or, not_not] at noMore
        have index := atRest.index
        obtain ⟨_, atEnd, last⟩ := mid.atEnd (by omega)
        refine notEnded ⟨atRest.pending.trans ?_, ?_⟩
        · rw [after_of_last last, noMore.2]
          rfl
        · rw [exhausted, atEnd]
          simp
      rw [← isBegun]
      simp only [locate, meets_bind, meets_get, on.synced, Bool.false_eq_true, if_false, meets_pure, on.current]
      have some : 0 < T.records.length := Nat.lt_of_lt_of_le atRest.begun atRest.index
      exact meets_bind.mp (turn_of_mid mid fresh (takes_of_ample ample some) more on.current)

/-! ## Calls in a row -/

/-- What calls give of these tapes from record `i` of the first on, the requests
made in the end being `ops`. -/
inductive Told (S : Shelf) (ops : List ReadOp) : Tape → List Tape → Nat → List Outcome → Prop
  | record {T : Tape} {rest : List Tape} {i : Nat} {record : Record} {outcomes : List Outcome}
      (recordAt : T.records[i]? = some record) (more : Told S ops T rest (i + 1) outcomes) :
      Told S ops T rest i (record.outcome :: outcomes)
  | boundary {T U : Tape} {rest : List Tape} {i : Nat} {outcomes : List Outcome}
      (atEnd : i = T.records.length) (headerRead : S.HeaderRead U.ids ops)
      (more : Told S ops U rest 0 outcomes) :
      Told S ops T (U :: rest) i (.failed .sessionEnd [] :: outcomes)
  | cut {T : Tape} {rest : List Tape} {i n : Nat} {bytes : Bytes} (unseen : S.Unseen T rest i ops.length)
      (wanted : i < T.records.length ∨ rest ≠ [])
      (front : n = 0 ∧ bytes = [] ∨ ∃ record, T.records[i]? = some record ∧ n < record.payload.length ∧
        bytes = record.payload.take n) : Told S ops T rest i [.failed (.readTruncated 0 n) bytes]
  | ended {T : Tape} {rest : List Tape} {i : Nat} (unseen : S.Unseen T rest i ops.length) :
      Told S ops T rest i []

/-- Buffers at least as long as every payload of the shelf. -/
def Ample (caps : Nat → Nat) (tapes : List Tape) : Prop :=
  ∀ n, ∀ T ∈ tapes, ∀ record ∈ T.records, record.payload.length ≤ caps n

/-- A reader that has come to what is not seen reports the end of the log, and
asks for nothing. -/
theorem readCall_finished (env : ReadEnv) (cap : Nat) (finished : s.pending = [] ∧ s.current = none) :
    (readCall env cap s).1 = .failed .eof [] ∧ (readCall env cap s).2.ops = s.ops := by
  have spec : Meets (read env cap) s (fun _ _ => False)
      (fun stop s' => stop = .error .eof ∧ s'.ops = s.ops) := by
    simp only [read, meets_bind, meets_get, meets_ite, meets_set, meets_fail]
    refine ⟨fun _ => ⟨trivial, trivial⟩, fun notEnded => absurd ⟨finished.1, ?_⟩ notEnded⟩
    rw [LogRead.exhausted, finished.2]
  cases ran : (read env cap).run s with
  | ok result t => exact (spec.of_ok ran).elim
  | error stop t =>
      obtain ⟨rfl, ops⟩ := spec.of_error ran
      simp only [readCall, ran, LogError.placed, List.take_zero, ops]
      trivial

/-- One call as its caller sees it. -/
theorem readCall_spec {cap : Nat} (facing : S.Facing s T rest i)
    (ample : ∀ record ∈ T.records, record.payload.length ≤ cap) :
    ∃ result, S.Turn T rest i result (readCall S.env cap s).2 ∧
      (readCall S.env cap s).1 = outcomeOf result (readCall S.env cap s).2.dst := by
  have spec := read_spec facing ample
  cases ran : (read S.env cap).run s with
  | ok result t =>
      refine ⟨.ok result, ?_, ?_⟩ <;> simp only [readCall, ran]
      · exact spec.of_ok ran
      · rfl
  | error stop t =>
      obtain ⟨e, rfl, turn⟩ := spec.of_error ran
      refine ⟨.error e, ?_, ?_⟩ <;> simp only [readCall, ran]
      · exact turn
      · rfl

/-- Reading a tape to its end, and then what comes after it. -/
theorem reads_tape {caps : Nat → Nat} (facing : S.Facing s T rest i) (ample : Ample caps (T :: rest))
    (onward : ∀ {s' : ReadState} {caps' : Nat → Nat} {U : Tape} {rest' : List Tape}, rest = U :: rest' →
      S.Between s' (U :: rest') → Ample caps' (U :: rest') →
      ∃ outcomes last, ReadsToEof S.env caps' s' outcomes last ∧
        S.Told last.ops U rest' 0 outcomes) :
    ∃ outcomes last, ReadsToEof S.env caps s outcomes last ∧ S.Told last.ops T rest i outcomes := by
  induction left : T.records.length - i using Nat.strong_induction_on generalizing s i caps with
  | _ left' ih =>
      obtain ⟨result, turn, outcome⟩ := readCall_spec facing (ample 0 T List.mem_cons_self)
      have call : readCall S.env (caps 0) s =
          (outcomeOf result (readCall S.env (caps 0) s).2.dst, (readCall S.env (caps 0) s).2) :=
        Prod.ext outcome rfl
      cases turn with
      | @record _ record recordAt dst onward' =>
          have index := (List.getElem?_eq_some_iff.mp recordAt).1
          obtain ⟨outcomes, last, reads, told⟩ :=
            ih _ (by omega) onward' (fun n => ample (n + 1)) rfl
          rw [dst, outcomeOf, List.take_length] at call
          exact ⟨_, last, reads.cons call (by simp), .record recordAt told⟩
      | eof unseen => exact ⟨[], _, .nil call, .ended unseen⟩
      | ended wanted ended =>
          cases ended with
          | boundary atEnd more headerRead between =>
              obtain ⟨U, rest', rfl⟩ := List.exists_cons_of_ne_nil more
              obtain ⟨outcomes, last, reads, told⟩ := onward rfl between
                fun n V mem => ample (n + 1) V (List.mem_cons_of_mem _ mem)
              exact ⟨_, last, reads.cons call (by simp [outcomeOf]),
                .boundary atEnd ((headerRead U rfl).mono (reads.grew S.env)) told⟩
          | @cut _ n unseen finished front =>
              obtain ⟨eof, ops⟩ := readCall_finished S.env (caps 1) finished
              refine ⟨_, _, ReadsToEof.cons call (by simp [outcomeOf]) (.nil (Prod.ext eof rfl)), ?_⟩
              rw [← ops] at unseen
              refine .cut unseen wanted (front.imp (fun none => ⟨none, ?_⟩) ?_)
              · rw [LogError.placed, none, List.take_zero]
              · rintro ⟨record, recordAt, less, front⟩
                exact ⟨record, recordAt, less, front⟩

/-- Reading the shelf comes to the end of the log, and what the calls give is
told of its tapes. -/
theorem reads_told {caps : Nat → Nat} (facing : S.Facing s T rest i) (ample : Ample caps (T :: rest)) :
    ∃ outcomes last, ReadsToEof S.env caps s outcomes last ∧ S.Told last.ops T rest i outcomes := by
  induction rest generalizing s T i caps with
  | nil => exact reads_tape facing ample fun isNext => by contradiction
  | cons U rest ih =>
      refine reads_tape facing ample fun isNext between ample' => ?_
      obtain ⟨rfl, rfl⟩ := List.cons.inj isNext
      exact ih (.inl ⟨between, rfl⟩) ample'

/-- A new reader is about to begin the first tape of the shelf. -/
theorem between_begin {log : LogRead} {listed : Dir}
    (begins : log.Begins listed S.namePrefix S.nameSuffix)
    (listing : scanSegmentIds listed S.namePrefix S.nameSuffix = S.listing) : S.Between log.begin S.tapes :=
  ⟨List.suffix_rfl, ⟨begins.namePrefix, begins.nameSuffix⟩, begins.pending.trans listing, begins.current,
    begins.session⟩

/-! ## All that was written -/

/-- All that was written is seen from the beginning. -/
structure Whole (S : Shelf) : Prop where
  full : ∀ T ∈ S.tapes, T.Full
  seen : ∀ T ∈ S.tapes.getLast?, S.floor = segmentFileHeaderLen + (T.data (T.ids.length - 1)).length

theorem Whole.not_unseen {n : Nat} (whole : S.Whole) (place : T :: rest <:+ S.tapes)
    (unseen : S.Unseen T rest i n) : rest = [] ∧ T.records.length ≤ i := by
  have low : segmentFileHeaderLen ≤ S.floor := by
    obtain ⟨earlier, split⟩ := place
    have isLast := List.getLast?_eq_some_getLast (l := S.tapes) (by rw [← split]; simp)
    rw [whole.seen _ isLast]
    exact Nat.le_add_right _ _
  have isLast : rest = [] := by
    by_contra more
    have := (unseen.next more).2.1
    omega
  subst isLast
  refine ⟨rfl, Nat.le_of_not_lt fun index => ?_⟩
  obtain ⟨earlier, split⟩ := place
  have full : T.stored = T.blocks.flatten.length := whole.full T (by rw [← split]; simp)
  have seen := whole.seen T (by rw [← split]; simp)
  have ends := T.length_data_last (Nat.sub_add_cancel T.ids_length_pos)
  have beyond := unseen.last rfl index
  have last : T.start (i + 1) ≤ T.start T.records.length := Tape.start_mono index
  rw [Tape.start_of_length_le (Nat.le_refl _)] at last
  rw [reach, seen, Nat.add_sub_cancel_left] at beyond
  omega

/-- Where all is seen, all is told. -/
theorem Told.eq_script {ops : List ReadOp} {outcomes : List Outcome} (whole : S.Whole)
    (place : T :: rest <:+ S.tapes) (told : S.Told ops T rest i outcomes) :
    outcomes = script (T.records.drop i :: rest.map Tape.records) := by
  rw [script_cons]
  induction told with
  | record recordAt more ih =>
      obtain ⟨index, isRecord⟩ := List.getElem?_eq_some_iff.mp recordAt
      rw [ih place, List.drop_eq_getElem_cons index, isRecord, List.map_cons, List.cons_append]
  | @boundary T U rest i outcomes atEnd _ more ih =>
      rw [ih ((List.suffix_cons _ _).trans place), atEnd, List.drop_length, List.map_nil, List.nil_append,
        List.drop_zero, List.map_cons, List.map_cons,
        List.flatten_cons, List.cons_append]
  | cut unseen wanted front =>
      obtain ⟨noTape, past⟩ := whole.not_unseen place unseen
      exact absurd noTape (wanted.resolve_left (Nat.not_lt.mpr past))
  | ended unseen =>
      obtain ⟨rfl, past⟩ := whole.not_unseen place unseen
      rw [List.drop_eq_nil_of_le past]
      rfl

end Shelf

end Tcslog
