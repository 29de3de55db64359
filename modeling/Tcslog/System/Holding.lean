import Tcslog.Read.Advance
import Tcslog.Read.Noted
import Tcslog.System.Damage

/-!
# The file a reader holds open

After a record the file it ended in is open, and after most errors none is.
Where the first files of a session are lost, the file in which its first
record to be read begins is open already when the loss is reported; and where
the rest of a record too long for the buffer is lost, no file is.
-/

namespace Tcslog

open Lib.Program Lib.Spanned

/-- The header of the segment file now open. -/
def LogRead.currentHeader (log : LogRead) : Option SegmentHeader :=
  log.current.map Segment.header

/-- How many files are lost ahead of the first usable file of the session that
is to begin. -/
def LogRead.lostAhead (files : SegId → Option Bytes) (log : LogRead) : Nat :=
  if log.session.isSome then 0
  else match firstUsable files log.pending with
    | some (segment, _) => segment.header.sequence.toNat
    | none => 0

theorem LogRead.lostAhead_of_known {files : SegId → Option Bytes} {log : LogRead}
    (known : log.session.isSome) : log.lostAhead files = 0 :=
  if_pos known

theorem LogRead.lostAhead_of_first {files : SegId → Option Bytes} {log : LogRead} {segment : Segment}
    {rest : List SegId} (none : log.session = none)
    (first : firstUsable files log.pending = some (segment, rest)) :
    log.lostAhead files = segment.header.sequence.toNat := by
  rw [lostAhead, none, first]
  rfl

/-- Record `i` of a strand ends in file `j`. -/
def Strand.EndsIn (σ : Strand) (i j : Nat) : Prop :=
  j * σ.dataSection < σ.start (i + 1) ∧ σ.start (i + 1) ≤ (j + 1) * σ.dataSection

/-- Record `i` of a strand begins in file `j`. -/
def Strand.BeginsIn (σ : Strand) (i j : Nat) : Prop :=
  i < σ.records.length ∧ j * σ.dataSection ≤ σ.start i ∧ σ.start i < (j + 1) * σ.dataSection

/-- What a buffer of `cap` bytes leaves of the payload of record `i` stands in
files that are usable. -/
def RestSurvives (files : SegId → Option Bytes) (σ : Strand) (i cap : Nat) : Prop :=
  ∀ q, σ.start i + σ.format.dataHeaderLen + cap ≤ q → q < σ.start (i + 1) → ∃ id content,
    σ.ids[q / σ.dataSection]? = some id ∧ files id = some content ∧
      (validate id content).isSome ∧ segmentFileHeaderLen + q % σ.dataSection < content.length

/-- The next record is record `i` of strand `k`: the reader stands at its first
byte, in file `j`, and the next call tells of no other record. -/
structure Faces (env : ReadEnv) (L : Log) (s : ReadState) (k i j : Nat) (σ : Strand) : Prop where
  stands : ∃ segment, s.current = some segment ∧ j * σ.dataSection + segment.pos = σ.start i
  next : ∀ cap, 0 < cap → ∃ told, Tells L.recordAt (readCall env cap s).1 told ∧
    ∀ p, told = some p → p = place k i

/-- The file open after a call with a buffer of `cap` bytes that told of the
record at a place of the log, where `ahead` files were lost ahead of the session
that was to begin; `after` is the reader after the call. -/
inductive LeavesOpen (env : ReadEnv) (L : Log) (files : SegId → Option Bytes) (ahead cap : Nat)
    (after : ReadState) : Outcome → Option (ℕ ×ₗ ℕ) → Option SegmentHeader → Prop
  | eof : LeavesOpen env L files ahead cap after (.failed .eof []) none none
  | sessionEnd : LeavesOpen env L files ahead cap after (.failed .sessionEnd []) none none
  | truncated {lost n : Nat} {bytes : Bytes} {told : Option (ℕ ×ₗ ℕ)} (noneAhead : ahead = 0) :
      LeavesOpen env L files ahead cap after (.failed (.readTruncated lost n) bytes) told none
  /-- The file in which the next record begins is open. -/
  | lostAhead {k i j : Nat} {σ : Strand} {id : SegId} (more : 0 < ahead)
      (fileAt : L.FileAt k j σ id) (begins : σ.BeginsIn i j) (faces : Faces env L after k i j σ) :
      LeavesOpen env L files ahead cap after (.failed (.readTruncated ahead 0) []) none
        (some (σ.header j id))
  /-- The file in which the record ended is open. -/
  | whole {payload : Bytes} {metadata : Meta} {k i j : Nat} {σ : Strand} {id : SegId}
      (fileAt : L.FileAt k j σ id) (ends : σ.EndsIn i j) :
      LeavesOpen env L files ahead cap after (.record payload metadata) (some (place k i))
        (some (σ.header j id))
  | overflow {bytes : Bytes} {k i j : Nat} {σ : Strand} {id : SegId}
      (fileAt : L.FileAt k j σ id) (ends : σ.EndsIn i j) (rest : RestSurvives files σ i cap) :
      LeavesOpen env L files ahead cap after (.failed (.readOverflow cap) bytes) (some (place k i))
        (some (σ.header j id))
  /-- What did not fit of the record is not all there. -/
  | cut {bytes : Bytes} {k i : Nat} {σ : Strand} (strandAt : L.strands[k]? = some σ)
      (rest : ¬ RestSurvives files σ i cap) :
      LeavesOpen env L files ahead cap after (.failed (.readOverflow cap) bytes) (some (place k i)) none

namespace Scene

variable {S : Scene} {files : SegId → Option Bytes}

/-- No request fails, and the files stay as they are. -/
structure Still (S : Scene) (files : SegId → Option Bytes) : Prop where
  quiet : ∀ t, S.env.fault t = false
  shown : ∀ t id, (S.env.dir t).lookup (S.name id) = files id
  listed : ∀ {id content}, files id = some content → id ∈ S.listing

section Sights

variable {ops : List ReadOp} {id : SegId} {rest pending : List SegId} {k j c : Nat} {σ : Strand}

/-- What was measured is there. -/
theorem Still.measured (still : S.Still files) (measured : S.Measured ops id k j σ c) :
    files id = some ((σ.file j id).take (segmentFileHeaderLen + c)) := by
  obtain ⟨t, _, _, _, sight⟩ := measured
  rw [← still.shown t]
  exact sight.content

/-- What was missed is not usable. -/
theorem Still.missed (still : S.Still files) (listed : id ∈ S.listing) (missed : S.Missed ops id) :
    Segment.ofFile files id = none := by
  obtain ⟨t, _, _, _, fault | unseen⟩ := missed
  · rw [still.quiet t] at fault
    contradiction
  · cases usable : Segment.ofFile files id with
    | none => rfl
    | some segment =>
        obtain ⟨content, present, accepted, _⟩ := Segment.ofFile_eq_some usable
        rw [← still.shown t] at present
        obtain ⟨k, j, σ, c, sight, _⟩ := sight_of_validate listed present accepted
        exact absurd sight (unseen k j σ c)

theorem Still.ofFile (still : S.Still files) (measured : S.Measured ops id k j σ c) :
    ∃ segment, Segment.ofFile files id = some segment ∧ segment.header = σ.header j id := by
  have valid := validate_file (σ := σ) (j := j) id measured.within
  rw [Segment.ofFile, still.measured measured, Option.bind_some, valid]
  exact ⟨_, rfl, rfl⟩

/-- The file found is the first that is usable. -/
theorem Still.firstUsable (still : S.Still files) (listed : ∀ p ∈ pending, p ∈ S.listing)
    (found : S.Found ops pending id rest k j σ c) :
    ∃ segment, firstUsable files pending = some (segment, rest) ∧ segment.header = σ.header j id := by
  obtain ⟨⟨front, rfl, missed⟩, measured⟩ := found
  obtain ⟨segment, usable, header⟩ := still.ofFile measured
  refine ⟨segment, ?_, header⟩
  induction front with
  | nil => rw [List.nil_append, Tcslog.firstUsable, usable]
  | cons p front ih =>
      rw [List.cons_append, Tcslog.firstUsable,
        still.missed (listed p List.mem_cons_self) (missed p List.mem_cons_self)]
      exact ih (fun q mem => missed q (List.mem_cons_of_mem _ mem))
        fun q mem => listed q (List.mem_cons_of_mem _ mem)

/-- No request about a file that was measured is refused. -/
theorem Still.not_refused (still : S.Still files) {s s' : ReadState} (refused : S.Refused s s' id)
    (measured : S.Measured ops id k j σ c) : False := by
  have found := refused.found
  rw [still.quiet, if_neg Bool.false_ne_true, still.shown, still.measured measured] at found
  contradiction

end Sights

/-! ## Files lost ahead of a session -/

section Ahead

variable {ops : List ReadOp} {search search' : Search} {id : SegId} {rest : List SegId}
  {k j c pos : Nat} {σ : Strand} {s t : ReadState}

/-- Within a session nothing becomes known to be lost ahead of it. -/
theorem PassesOver.startLost (past : S.PassesOver ops search search')
    (known : search.session.isSome) :
    (search'.open rest σ j).startLost = search.startLost := by
  induction past with
  | refl =>
      rw [Search.open, if_neg (Option.isSome_iff_ne_none.mp known)]
  | past _ _ _ ih =>
      refine (ih rfl).trans ?_
      rw [Search.open, if_neg (Option.isSome_iff_ne_none.mp known)]

/-- The first file found of a session says how many are lost ahead of it. -/
theorem PassesOver.startLost_of_none (past : S.PassesOver ops search search')
    (opens : search'.Opens S ops id rest k j σ c) (none : search.session = none) :
    ∃ id₁ rest₁ k₁ j₁ σ₁ c₁, S.Found ops search.pending id₁ rest₁ k₁ j₁ σ₁ c₁ ∧
      (search'.open rest σ j).startLost = σ₁.firstSequence + j₁ := by
  cases past with
  | refl => exact ⟨_, _, _, _, _, _, opens.found, if_pos none⟩
  | past opens₁ _ more =>
      refine ⟨_, _, _, _, _, _, opens₁.found, (more.startLost rfl).trans ?_⟩
      exact if_pos none

/-- What is lost ahead of a session was reported, unless no file of it is left. -/
def Settled (log : LogRead) : Prop :=
  log.session.isSome → log.sessionStartLost = 0 ∨ log.pending = []

theorem OpensAt.lostAhead (still : S.Still files) (suffix : s.pending <:+ S.listing)
    (settled : Settled s.toLogRead) (opensAt : S.OpensAt s t k j σ id c pos) :
    t.sessionStartLost = s.lostAhead files := by
  obtain ⟨search, rest, past, opens, result⟩ := opensAt.opens
  have lost : t.sessionStartLost = (search.open rest σ j).startLost :=
    congrArg Search.startLost result
  rw [lost]
  cases session : s.session with
  | none =>
      obtain ⟨_, _, _, _, _, _, found, isFirst⟩ := past.startLost_of_none opens session
      obtain ⟨segment, first, header⟩ := still.firstUsable (fun _ mem => suffix.mem mem) found
      rw [isFirst, LogRead.lostAhead_of_first session first, header,
        Strand.header_sequence found.measured.fileAt.lt]
  | some sid =>
      have known : s.session.isSome := Option.isSome_of_eq_some session
      rw [past.startLost known, LogRead.lostAhead_of_known known]
      refine (settled known).resolve_right fun noMore => ?_
      have none : search.pending <:+ [] := noMore.symm ▸ (past.suffix : _ <:+ s.pending)
      obtain ⟨⟨front, split, _⟩, _⟩ := opens.found
      rw [List.suffix_nil.mp none] at split
      simp at split

end Ahead

/-! ## A record that is read -/

section Record

variable {ops : List ReadOp} {pending pending' : List SegId} {id : SegId} {k j j' c c' pos i cap : Nat}
  {σ : Strand} {s s' t : ReadState} {result : Except LogError ReadResult}

/-- All files passed on the way were measured. -/
theorem Passes.measured (passes : S.Passes ops k σ pending j c pending' j' c')
    (first : S.Measured ops id k j σ c) {j₁ : Nat} (after : j ≤ j₁) (before : j₁ ≤ j') :
    ∃ id₁ c₁, S.Measured ops id₁ k j₁ σ c₁ ∧ (j₁ < j' → c₁ = σ.dataSection) ∧ (j₁ = j' → c₁ = c') := by
  induction passes generalizing id with
  | refl =>
      obtain rfl : j₁ = _ := Nat.le_antisymm before after
      exact ⟨id, _, first, fun less => absurd less (Nat.lt_irrefl _), fun _ => rfl⟩
  | @next _ _ _ _ j _ j' _ _ full found more ih =>
      obtain ⟨_, _, more, _⟩ := more.passed found.measured
      rcases Nat.eq_or_lt_of_le after with rfl | later
      · exact ⟨id, _, first, fun _ => full, fun same => by omega⟩
      · exact ih found.measured later before

/-- What was read of a record is there. -/
theorem Reached.survives (still : S.Still files) (isOpen : S.Open t k j σ id c pos) {id' : SegId}
    {pos' y : Nat} (reached : S.Reached t k j σ c i s' j' id' c' pos' y) {q : Nat}
    (after : j * σ.dataSection ≤ q) (before : q < σ.start i + y) :
    ∃ id content, σ.ids[q / σ.dataSection]? = some id ∧ files id = some content ∧
      (validate id content).isSome ∧ segmentFileHeaderLen + q % σ.dataSection < content.length := by
  have place := reached.mid.place
  have posLe := reached.mid.posLe
  have whole := reached.mid.measured.within.trans (σ.length_data_le j')
  have positive := σ.dataSection_pos
  have split := Nat.div_add_mod q σ.dataSection
  have less := Nat.mod_lt q positive
  have first : j ≤ q / σ.dataSection := (Nat.le_div_iff_mul_le positive).mpr after
  have last : q / σ.dataSection ≤ j' := by
    refine Nat.le_of_lt_succ ((Nat.div_lt_iff_lt_mul positive).mpr ?_)
    rw [Nat.succ_mul]
    omega
  obtain ⟨id₁, c₁, measured, full, open_⟩ :=
    reached.passes.measured (isOpen.measured.mono reached.carried.asked) first last
  refine ⟨id₁, _, measured.fileAt.idAt, still.measured measured, ?_, ?_⟩
  · rw [validate_file id₁ measured.within]
    rfl
  · rw [Strand.length_take_file _ measured.within]
    rcases Nat.lt_or_eq_of_le last with passed | here
    · rw [full passed]
      omega
    · rw [open_ here]
      rw [here, Nat.mul_comm] at split
      omega

/-- The file a record was read to the end of is the one it ends in. -/
theorem Reached.endsIn {id' : SegId} {pos' y : Nat}
    (reached : S.Reached t k j σ c i s' j' id' c' pos' y) (done : σ.start i + y = σ.start (i + 1))
    (into : ReadInto s') :
    s'.currentHeader = some (σ.header j' id') ∧ σ.EndsIn i j' := by
  have mid := reached.mid
  have whole := mid.posLe.trans (mid.measured.within.trans (σ.length_data_le j'))
  obtain ⟨segment, current, some⟩ := into
  rw [mid.current] at current
  obtain rfl := Option.some.inj current
  refine ⟨?_, ?_, ?_⟩
  · rw [LogRead.currentHeader, mid.current]
    rfl
  · have place := mid.place.trans done
    dsimp only at some
    omega
  · rw [← done, ← mid.place, Nat.succ_mul]
    omega

/-- Of a record that failed, the byte that was wanted is not there. -/
theorem Failed.not_survives (still : S.Still files) {y : Nat} {e : LogError}
    (failed : S.Failed t k j σ c i y e s') (index : i < σ.records.length) :
    σ.start i + y < σ.start (i + 1) ∧ ∀ id content, σ.ids[(σ.start i + y) / σ.dataSection]? = some id →
      files id = some content → (validate id content).isSome →
      ¬ segmentFileHeaderLen + (σ.start i + y) % σ.dataSection < content.length := by
  cases failed with
  | broke reached more broke =>
      have hidden := reached.mid.place ▸ broke.hidden reached.mid.toOpen
      refine ⟨more.resolve_right (Nat.ne_of_lt index), fun id content idAt present usable long => ?_⟩
      refine Scene.not_hidden idAt (still.listed present) (fun t _ _ _ => ?_) hidden
      exact ⟨still.quiet t, content, (still.shown t id).trans present, usable, long⟩
  | denied reached denied => exact (still.not_refused denied.refused denied.mid.measured).elim

theorem Reading.settled (startLost : t.sessionStartLost = 0)
    (reading : S.Reading t k j σ c i cap result s') : Settled s'.toLogRead := by
  have failed {u : ReadState} {y : Nat} {e : LogError} (failed : S.Failed t k j σ c i y e u) :
      u.sessionStartLost = 0 := by
    cases failed with
    | broke reached _ broke =>
        exact broke.carried.sessionStartLost.trans
          (reached.carried.sessionStartLost.trans startLost)
    | denied reached denied =>
        exact (congrArg LogRead.sessionStartLost denied.refused.asked.toLogRead_eq).trans
          (reached.carried.sessionStartLost.trans startLost)
  intro _
  left
  cases reading with
  | whole _ _ _ reached _ => exact reached.carried.sessionStartLost.trans startLost
  | overflow _ _ _ reached _ => exact reached.carried.sessionStartLost.trans startLost
  | cut _ _ _ gone result _ =>
      rw [result]
      exact (failed gone : _)
  | failed gone result _ =>
      rw [result]
      exact (failed gone : _)

/-- No record is empty and without a data header. -/
theorem ne_empty_fixed {record : Record} (fits : record.Fits σ.format) :
    (⟨record.payload.length, record.metadata⟩ : ReadResult) ≠ ⟨0, .fixed⟩ := by
  intro same
  obtain ⟨none, isFixed⟩ := ReadResult.mk.inj same
  apply fits.encode_ne_nil
  rw [Record.encode, isFixed, List.length_eq_zero_iff.mp none]
  rfl

/-- The file open after a record was read, or failed. -/
theorem Reading.leaves (still : S.Still files) (isOpen : S.Open t k j σ id c pos)
    (begun : j * σ.dataSection ≤ σ.start i + σ.format.dataHeaderLen)
    (reading : S.Reading t k j σ c i cap result s')
    (onRecord : ∀ r, result = .ok r → ReadInto s' ∨ r = ⟨0, .fixed⟩)
    (onError : ∀ e, result = .error e → Ending (.error e) s')
    (tells : ∃ told, Tells S.log.recordAt (outcomeOf result s'.dst) told) :
    ∃ told, Tells S.log.recordAt (outcomeOf result s'.dst) told ∧
      LeavesOpen S.env S.log files 0 cap s' (outcomeOf result s'.dst) told s'.currentHeader := by
  have strandAt := isOpen.measured.fileAt.strandAt
  have there : S.log.recordAt (place k i) = σ.records[i]? := Log.recordAt_place strandAt
  have front {record : Record} (recordAt : σ.records[i]? = some record)
      (long : cap < record.payload.length) (dst : s'.dst = record.payload.take cap) :
      outcomeOf (.error (.readOverflow cap)) s'.dst = .failed (.readOverflow cap) (record.payload.take cap) ∧
        Tells S.log.recordAt (.failed (.readOverflow cap) (record.payload.take cap)) (some (place k i)) := by
    refine ⟨?_, .front (there.trans recordAt) (.inl rfl) long⟩
    rw [outcomeOf, dst]
    simp [LogError.placed]
  cases reading with
  | @whole _ record j' id' c' pos' y recordAt fits dst reached done =>
      have into := (onRecord _ rfl).resolve_right (ne_empty_fixed (Strand.fits_of_getElem? recordAt))
      obtain ⟨header, ends⟩ := reached.endsIn done into
      refine ⟨some (place k i), ?_⟩
      rw [outcomeOf, dst, List.take_length, header]
      exact ⟨.whole (there.trans recordAt), .whole reached.mid.measured.fileAt ends⟩
  | @overflow _ record j' id' c' pos' y recordAt long dst reached done =>
      have into : ReadInto s' := by
        refine (onError _ rfl ⟨cap, rfl⟩).resolve_left fun closed => ?_
        rw [reached.mid.current] at closed
        contradiction
      obtain ⟨header, ends⟩ := reached.endsIn done into
      obtain ⟨outcome, tells⟩ := front recordAt long dst
      rw [outcome, header]
      refine ⟨_, tells, .overflow reached.mid.measured.fileAt ends fun q after before => ?_⟩
      exact reached.survives still isOpen (by omega) (done ▸ before)
  | @cut _ u record y e recordAt long dst failed result beyond =>
      obtain ⟨outcome, tells⟩ := front recordAt long dst
      rw [outcome, result]
      refine ⟨_, tells, .cut strandAt fun survives => ?_⟩
      obtain ⟨inRecord, gone⟩ := failed.not_survives still (List.getElem?_eq_some_iff.mp recordAt).1
      obtain ⟨id', content, idAt, present, usable, long⟩ := survives _ (by omega) inRecord
      exact gone id' content idAt present usable long
  | @failed _ u y e failed result front =>
      rcases failed.error with rfl | rfl | ⟨lost, n, rfl⟩
      · cases failed with
        | broke reached more broke =>
            generalize isError : LogError.ioError = e at broke
            cases broke.cause with
            | ended => simp at isError
            | rejected => simp at isError
            | boundary _ _ _ _ _ error =>
                rw [error] at isError
                split at isError <;> simp at isError
        | denied reached denied => exact (still.not_refused denied.refused denied.mid.measured).elim
      · rw [result]
        exact ⟨none, .silent rfl (by simp), .sessionEnd⟩
      · obtain ⟨told, tells⟩ := tells
        refine ⟨told, tells, ?_⟩
        rw [result]
        exact .truncated rfl

end Record

/-! ## One call -/

section Call

variable {s s' : ReadState} {k i cap : Nat} {result : Except LogError ReadResult}

/-- A reader between two records of an open file faces the second. -/
theorem AtRest.faces {j c pos : Nat} {σ : Strand} {id : SegId} (rest : S.AtRest s k j σ id c pos i) :
    Faces S.env S.log s k i j σ := by
  refine ⟨⟨_, rest.current, rest.place⟩, fun cap some => ?_⟩
  have next {result : Except LogError ReadResult} {t : ReadState} (step : S.Step s cap k i result t) :
      ∃ told, Tells S.log.recordAt (outcomeOf result t.dst) told ∧ ∀ p, told = .some p → p = Tcslog.place k i := by
    have isOpen (closed : S.Closed s k i) : False := by
      have none := closed.closed
      rw [rest.current] at none
      contradiction
    cases step with
    | eof noMore exhausted result => exact ⟨none, .silent rfl (by simp), by simp⟩
    | next rest more reading =>
        have strandAt := rest.measured.fileAt.strandAt
        cases result with
        | error e => exact reading.tells strandAt
        | ok r =>
            cases reading with
            | whole recordAt fits dst reached done =>
                refine ⟨.some (Tcslog.place k i), ?_, fun p same => (Option.some.inj same).symm⟩
                rw [outcomeOf, dst, List.take_length]
                exact .whole ((Log.recordAt_place strandAt).trans recordAt)
    | unlocated closed => exact (isOpen closed).elim
    | startLost closed => exact (isOpen closed).elim
    | fresh closed => exact (isOpen closed).elim
    | recovered closed => exact (isOpen closed).elim
  have spec := read_spec (.rest rest) (takes_of_pos some)
  cases ran : (read S.env cap).run s with
  | ok result t =>
      simp only [readCall, ran]
      exact next (spec.of_ok ran)
  | error stop t =>
      obtain ⟨e, rfl, step⟩ := spec.of_error ran
      simp only [readCall, ran]
      exact next step

/-- The file open after a call. -/
theorem Step.leaves (still : S.Still files) (ready : S.Ready s k i) (settled : Settled s.toLogRead)
    (step : S.Step s cap k i result s')
    (onRecord : ∀ r, result = .ok r → ReadInto s' ∨ r = ⟨0, .fixed⟩)
    (onError : ∀ e, result = .error e → Ending (.error e) s') :
    Settled s'.toLogRead ∧ ∃ told, Tells S.log.recordAt (outcomeOf result s'.dst) told ∧
      LeavesOpen S.env S.log files (s.lostAhead files) cap s' (outcomeOf result s'.dst) told
        s'.currentHeader := by
  obtain ⟨_, _, _, told, _, _, dealt⟩ := step.dealt ready
  have tells : ∃ told, Tells S.log.recordAt (outcomeOf result s'.dst) told := ⟨told, dealt.tells⟩
  cases step with
  | eof noMore exhausted result =>
      subst result
      exact ⟨fun _ => .inr noMore, none, .silent rfl (by simp), .eof⟩
  | next rest more reading =>
      have known : s.session.isSome := Option.isSome_of_eq_some rest.session
      rw [LogRead.lostAhead_of_known known]
      exact ⟨reading.settled rest.startLost,
        reading.leaves still rest.toOpen (rest.place ▸ by omega) onRecord onError tells⟩
  | @unlocated _ u e closed located grew named result =>
      subst result
      cases located with
      | ended past missed result recovery =>
          exact ⟨fun _ => .inr (congrArg Search.pending result), none, .silent rfl (by simp), .eof⟩
      | boundary past found differs result recovery =>
          refine ⟨fun known => ?_, none, .silent rfl (by simp), .sessionEnd⟩
          rw [show u.losePosition.session = none from congrArg Search.session result] at known
          contradiction
      | denied past opens refused result recovery =>
          obtain ⟨_, refused⟩ := refused
          exact (still.not_refused refused opens.found.measured).elim
  | @startLost _ t _ j σ id c pos i' closed fresh lost rest pending ops =>
      have ahead := fresh.toOpensAt.lostAhead still closed.suffix settled
      have header : s'.currentHeader = some (σ.header j id) := by
        rw [LogRead.currentHeader, rest.current]
        rfl
      refine ⟨fun _ => .inl rest.startLost, none, .silent rfl (by simp), ?_⟩
      rw [header, ← ahead]
      refine .lostAhead lost rest.measured.fileAt ⟨fresh.index, ?_, ?_⟩ rest.faces
      · rw [← fresh.place]
        exact Nat.le_add_right _ _
      · have within := fresh.isOpen.measured.within.trans (σ.length_data_le j)
        have offers := fresh.offers
        rw [← fresh.place, Nat.succ_mul]
        omega
  | fresh closed fresh none synced reading =>
      rw [← fresh.toOpensAt.lostAhead still closed.suffix settled, none]
      exact ⟨reading.settled none,
        reading.leaves still fresh.isOpen (fresh.place ▸ by omega) onRecord onError tells⟩
  | recovered closed recovered synced reading =>
      rw [← recovered.toOpensAt.lostAhead still closed.suffix settled, recovered.startLost]
      exact ⟨reading.settled recovered.startLost,
        reading.leaves still recovered.isOpen recovered.place.le onRecord onError tells⟩

/-- The file open after a call with a buffer that holds something. -/
theorem readCall_leaves (still : S.Still files) (ready : S.Ready s k i) (settled : Settled s.toLogRead)
    (some : 0 < cap) :
    Settled (readCall S.env cap s).2.toLogRead ∧
      ∃ told, Tells S.log.recordAt (readCall S.env cap s).1 told ∧
        LeavesOpen S.env S.log files (s.lostAhead files) cap (readCall S.env cap s).2
          (readCall S.env cap s).1 told (readCall S.env cap s).2.currentHeader := by
  have spec := (read_spec ready.between (takes_of_pos some)).and (read_into S.env cap s)
  cases ran : (read S.env cap).run s with
  | ok result s' =>
      obtain ⟨step, into⟩ := spec.of_ok ran
      have leaves := step.leaves still ready settled
        (fun r same => Except.ok.inj same ▸ into) (fun _ impossible => by simp at impossible)
      simp only [readCall, ran]
      exact leaves
  | error stop s' =>
      obtain ⟨⟨e, rfl, step⟩, ending⟩ := spec.of_error ran
      have leaves := step.leaves still ready settled
        (fun _ impossible => by simp at impossible) (fun e' same => Except.error.inj same ▸ ending)
      simp only [readCall, ran]
      exact leaves

/-- What one call needs is there for every later one. -/
theorem readCalls_settled {caps : Nat → Nat} (still : S.Still files) (ready : S.Ready s k i)
    (settled : Settled s.toLogRead) (some : ∀ n, 0 < caps n) (calls : Nat) :
    ∃ k' i', S.Ready (readCalls S.env caps calls s).2 k' i' ∧
      Settled (readCalls S.env caps calls s).2.toLogRead := by
  induction calls generalizing s k i caps with
  | zero => exact ⟨k, i, ready, settled⟩
  | succ calls ih =>
      obtain ⟨_, step, _⟩ := readCall_step ready (takes_of_pos (some 0))
      obtain ⟨_, _, _, _, ready', _⟩ := step.dealt ready
      have settled' := (readCall_leaves still ready settled (some 0)).1
      rw [readCalls_succ]
      exact ih ready' settled' fun n => some (n + 1)

end Call

end Scene

section Reading

variable {env : WriteEnv} {dir dir' : Dir} {lives : List Life} {namePrefix nameSuffix : Bytes}

/-- Whatever is taken away from a log, after every call of a reader no file is
open if the call came to the end of the log or of a session, or reports that a
record was cut short; the file a record ended in is open if it was returned,
or was too long for the buffer and is all there. -/
theorem left_open (wrote : Wrote env dir lives namePrefix nameSuffix)
    (damaged : Damaged ((Trail.run env dir lives).files namePrefix nameSuffix)
      (dir'.files namePrefix nameSuffix))
    {isDir overflowChecks : Bool} {log : LogRead}
    (isNew : LogRead.new isDir (some dir') namePrefix nameSuffix = .ok log) :
    ∃ L, OnDisk ((Trail.run env dir lives).files namePrefix nameSuffix) L ∧
      Faithful L (Trail.run env dir lives).journal ∧
      ∀ caps : Nat → Nat, (∀ n, 0 < caps n) → ∀ calls cap, 0 < cap →
        let readEnv := ReadEnv.still dir' noFault overflowChecks
        let s := (readCalls readEnv caps calls log.begin).2
        let call := readCall readEnv cap s
        ∃ told, Tells L.recordAt call.1 told ∧
          LeavesOpen readEnv L (dir'.files namePrefix nameSuffix)
            (s.lostAhead (dir'.files namePrefix nameSuffix)) cap call.2 call.1 told
            call.2.currentHeader := by
  obtain ⟨L, disk, _, faithful⟩ := Trail.run_sound wrote.leaves wrote.empty wrote.names wrote.clean
  obtain ⟨listed, isListed, begins⟩ := LogRead.new_spec isNew
  obtain rfl := Option.some.inj isListed
  have presents : ∀ t, Presents (((ReadEnv.still dir' noFault overflowChecks).dir t).files namePrefix
      nameSuffix) L := fun _ => disk.presents damaged
  have still : (sceneOf L (.still dir' noFault overflowChecks) dir' namePrefix nameSuffix
      presents).Still (dir'.files namePrefix nameSuffix) :=
    ⟨fun _ => rfl, fun _ _ => rfl, fun present =>
      mem_scanSegmentIds.mpr (AList.lookup_isSome.mp (Option.isSome_of_eq_some present))⟩
  have settled : Scene.Settled log.begin.toLogRead := fun _ => .inl begins.startLost
  refine ⟨L, disk, faithful, fun caps some calls cap pos => ?_⟩
  obtain ⟨k, i, ready, settled⟩ :=
    Scene.readCalls_settled still (begins.ready presents) settled some calls
  exact (Scene.readCall_leaves still ready settled pos).2

end Reading

theorem left_open_sample :
    ∃ L, OnDisk ((Trail.run Sample.env ∅ Sample.fillingRecords).files [] []) L ∧
      Faithful L (Trail.run Sample.env ∅ Sample.fillingRecords).journal ∧
      ∀ caps : Nat → Nat, (∀ n, 0 < caps n) → ∀ calls cap, 0 < cap →
        let files := (Sample.fillingWithout 1002).files [] []
        let readEnv := ReadEnv.still (Sample.fillingWithout 1002) noFault true
        let s := (readCalls readEnv caps calls (Sample.reader [1010, 1017]).begin).2
        let call := readCall readEnv cap s
        ∃ told, Tells L.recordAt call.1 told ∧
          LeavesOpen readEnv L files (s.lostAhead files) cap call.2 call.1 told call.2.currentHeader :=
  left_open Sample.wroteFilling (Damaged.erase _ _ _ _)
    (show LogRead.new true (some (Sample.fillingWithout 1002)) [] [] = .ok (Sample.reader [1010, 1017])
      by decide +kernel)

/-- With the first file of a session lost, the second is open after the report of the loss; with the
last lost, no file is open after the report that a record was too long. -/
theorem open_after_loss :
    let lossEnv := ReadEnv.still (Sample.fillingWithout 1002) noFault true
    let cutEnv := ReadEnv.still (Sample.fillingWithout 1017) noFault true
    let reported := readCall lossEnv 1 (Sample.reader [1010, 1017]).begin
    let overflowed := readCall cutEnv 1 (readCall cutEnv 1 (Sample.reader [1002, 1010]).begin).2
    Wrote Sample.env ∅ Sample.fillingRecords [] [] ∧
      (∀ id, Damaged ((Trail.run Sample.env ∅ Sample.fillingRecords).files [] [])
        ((Sample.fillingWithout id).files [] [])) ∧
      LogRead.new true (some (Sample.fillingWithout 1002)) [] [] = .ok (Sample.reader [1010, 1017]) ∧
      reported.1 = .failed (.readTruncated 1 0) [] ∧ reported.2.currentHeader ≠ none ∧
      LogRead.new true (some (Sample.fillingWithout 1017)) [] [] = .ok (Sample.reader [1002, 1010]) ∧
      overflowed.1 = .failed (.readOverflow 1) [4] ∧ overflowed.2.currentHeader = none := by
  refine ⟨Sample.wroteFilling, fun _ => Damaged.erase _ _ _ _, ?_, ?_, ?_, ?_, ?_, ?_⟩
  · decide +kernel
  · decide +kernel
  · decide +kernel
  · decide +kernel
  · decide +kernel
  · decide +kernel

end Tcslog
