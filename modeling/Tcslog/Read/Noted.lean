import Tcslog.Read.Outcomes
import Tcslog.Read.Upholding

/-!
# The metadata a reader notes

A call that places the front of a record in the buffer and fails has noted the
metadata of that record, which the caller may ask for afterwards.
-/

namespace Tcslog

open Lib.Program Lib.Spanned

@[simp]
theorem LogRead.adopt_lastMeta (log : LogRead) (segment : Segment) :
    (log.adopt segment).lastMeta = log.lastMeta := by
  simp only [adopt]
  split <;> split <;> rfl

/-- Within a record the metadata noted stays. -/
theorem lastMeta_upheld (env : ReadEnv) (metadata : Meta) :
    UpholdsWithin env fun log => log.lastMeta = metadata := by
  have opens (ids : List SegId) :
      Maintains (Upheld fun log : LogRead => log.lastMeta = metadata) (openNextOf env ids) := by
    induction ids with
    | nil => exact .bind (.modify fun _ noted => noted) fun _ => .pure _
    | cons id rest ih =>
        refine .bind (.modify fun _ noted => noted) fun _ => .bind ?_ fun found => ?_
        · exact sameLog_holds fun s => (openValidated_onlyAsked env id s).imp
            (fun _ _ asked => asked.toLogRead_eq) fun _ _ asked => asked.toLogRead_eq
        cases found with
        | none => exact ih
        | some segment =>
            refine .bind_get fun s noted => meets_ite.mpr ⟨fun _ => noted, fun _ => ?_⟩
            exact (LogRead.adopt_lastMeta _ _).trans noted
  exact {
    openNext := .bind_get fun s noted => opens _ s noted
    rejected := fun _ noted => noted
    moved := fun _ noted => noted
    closed := fun noted => noted
    noted := fun noted => noted }

/-- However the transfer of a payload ends, its metadata is noted. -/
theorem payload_notes (env : ReadEnv) (cap want : Nat) (metadata : Meta) (s : ReadState) :
    Meets (payload env cap want metadata) s (fun _ s' => s'.lastMeta = metadata)
      fun _ s' => s'.lastMeta = metadata := by
  have within := lastMeta_upheld env metadata
  have loses {α : Type} {x : ReadM α} (keeps : Maintains (Upheld fun log => log.lastMeta = metadata) x) :
      Maintains (Upheld fun log => log.lastMeta = metadata) (orLosePosition x) := by
    refine fun t noted => meets_orLosePosition.mpr ((keeps t noted).imp (fun _ _ noted => noted) ?_)
    intro stop u noted
    cases stop with
    | error e => exact noted
    | panic => exact noted
    | stuck => exact noted
  simp only [payload, meets_bind, meets_modify]
  have started : Upheld (fun log => log.lastMeta = metadata)
      { s with lastMeta := metadata, cursor := { s.cursor with inPayload := true } } := rfl
  refine (loses (within.fillBuf (min want cap)) _ started).imp ?_ fun _ _ noted => noted
  intro _ t noted
  have skips : Maintains (Upheld fun log => log.lastMeta = metadata) (skip env (want - cap)) :=
    repeatPass_holds within.skipChunk _
  refine meets_ite.mpr ⟨fun _ => meets_bind.mpr (meets_attempt.mpr ?_), fun _ => noted⟩
  refine (skips t noted).imp (fun _ _ noted => noted) ?_
  intro stop u noted
  cases stop with
  | error e => exact noted
  | panic => exact noted
  | stuck => exact noted

namespace Scene

variable {S : Scene} {s t s' : ReadState} {k k₀ i i₀ j c pos cap : Nat} {σ : Strand} {id : SegId}
  {result : Except LogError ReadResult}

/-- The metadata noted is the record's. -/
def Notes (σ : Strand) (i : Nat) (s : ReadState) : Prop :=
  ∀ record, σ.records[i]? = some record → s.lastMeta = record.metadata

/-- An error that tells of no record. -/
def Mute (e : LogError) : Prop :=
  e.placed = 0 ∧ ∀ n, e ≠ .readOverflow n

/-- Where the header of a record is known, its metadata is noted. -/
theorem Headed.notes {want : Nat} {metadata : Meta} (headed : S.Headed s k j σ c i want metadata t) :
    Meets (payload S.env cap want metadata) t (fun _ s' => Notes σ i s') fun _ s' => Notes σ i s' :=
  (payload_notes S.env cap want metadata t).imp
    (fun _ _ noted record recordAt => noted.trans (headed.whole record recordAt).2)
    fun _ _ noted record recordAt => noted.trans (headed.whole record recordAt).2

/-- From the beginning of a record, or from its payload when its data header was
lost, a call that tells of the record has noted its metadata. -/
theorem record_notes (cap : Nat) (start : Start) (isOpen : S.Open s k j σ id c pos)
    (index : i ≤ σ.records.length) (fresh : s.cursor = {})
    (place : match start with
      | .fresh => j * σ.dataSection + pos = σ.start i
      | .recovered n => Recovers σ i n ∧
          j * σ.dataSection + pos = σ.start i + σ.format.dataHeaderLen)
    (segment : Segment) (current : s.current = some segment) :
    Meets (do
        let (want, metadata) ← header S.env start segment
        payload S.env cap want metadata) s
      (fun _ s' => Notes σ i s')
      (fun stop s' => Notes σ i s' ∨ ∃ e, stop = .error e ∧ Mute e) := by
  obtain rfl := Option.some.inj (current.symm.trans isOpen.current)
  rw [meets_bind]
  cases start with
  | fresh =>
      have mid : S.Mid s k j σ id c pos i 0 := by
        refine ⟨isOpen, place, index, ⟨⟨by rw [fresh], ?_, by simp [fresh]⟩, by simp [fresh]⟩⟩
        exact Strand.start_mono (Nat.le_succ i)
      simp only [header, meets_orLosePosition]
      refine Meets.imp (readDataHeader_spec mid fresh) (fun decoded t headed => ?_) ?_
      · exact headed.notes.imp (fun _ _ notes => notes) fun _ _ notes => .inl notes
      · rintro stop t ⟨e, y, rfl, less, failed, none⟩
        refine .inr ⟨e, rfl, ?_, failed.ne_overflow⟩
        rcases none.placed_le with none | none <;> omega
  | recovered n =>
      obtain ⟨⟨format, record, recordAt, rfl⟩, _⟩ := place
      have fits := Strand.fits_of_getElem? recordAt
      rw [format] at fits
      have simple : Notes σ i = fun s' => s'.lastMeta = .variableSimple := by
        funext s'
        refine propext ⟨fun notes => ?_, fun noted record' recordAt' => ?_⟩
        · rw [notes record recordAt, (decode_variableSimple fits).1]
        · obtain rfl := Option.some.inj (recordAt.symm.trans recordAt')
          rw [noted, (decode_variableSimple fits).1]
      simp only [header, meets_bind, meets_modify, meets_pure, simple]
      exact (payload_notes S.env cap _ _ _).imp (fun _ _ noted => noted) fun _ _ noted => .inl noted

/-! ## A call -/

/-- A call read a record it had arrived at, and noted its metadata. -/
structure Reads (S : Scene) (s : ReadState) (k₀ i₀ cap : Nat) (e : LogError) (s' : ReadState) (t : ReadState)
    (k j : Nat) (σ : Strand) (id : SegId) (c pos i : Nat) : Prop where
  arrived : S.Arrived s k₀ i₀ t k j σ id c pos i
  synced : t.resync = false
  startLost : t.sessionStartLost = 0
  reading : S.Reading t k j σ c i cap (.error e) s'
  notes : Notes σ i s'

/-- A call that fails is mute, or it read a record. -/
theorem read_notes (ready : S.Ready s k₀ i₀) (takes : S.Takes cap) :
    Meets (read S.env cap) s (fun _ _ => True) fun stop s' => ∃ e, stop = .error e ∧
      (Mute e ∨ ∃ t k j σ id c pos i, S.Reads s k₀ i₀ cap e s' t k j σ id c pos i) := by
  simp only [read, meets_bind, meets_get, meets_ite, meets_set, meets_fail]
  refine ⟨fun _ => ⟨_, rfl, .inl ⟨rfl, by simp⟩⟩, fun _ => ?_⟩
  have room {k j : Nat} {σ : Strand} {id : SegId} (fileAt : S.log.FileAt k j σ id)
      (some : σ.records ≠ []) : 0 < cap ∨ 0 < σ.format.dataHeaderLen :=
    takes σ (List.mem_of_getElem? fileAt.strandAt) some
  have some {i : Nat} {σ : Strand} (index : i < σ.records.length) : σ.records ≠ [] :=
    List.ne_nil_of_length_pos (Nat.lt_of_le_of_lt (Nat.zero_le i) index)
  have carried : Carried s { s with resync := s.resync, cursor := {}, dst := [] } :=
    ⟨List.prefix_rfl, rfl, rfl⟩
  cases ready.between with
  | @rest j σ id c pos rest =>
      have isOpen := rest.toOpen.withCall s.resync {} [] s.sessionStartLost
      have noResync : (s.resync || s.current.isNone) = s.resync := by rw [rest.current]; simp
      simp only [noResync]
      refine Meets.imp (locate_of_synced (s := { s with cursor := {}, dst := [] }) rest.synced) ?_
        (by simp)
      rintro _ _ ⟨rfl, rfl⟩
      simp only [rest.current]
      have spec := record_spec .fresh isOpen rest.index rfl rest.place
        (room rest.measured.fileAt rest.some) _ rest.current
      have notes := record_notes cap .fresh isOpen rest.index rfl rest.place _ rest.current
      refine (spec.and notes).imp (fun _ _ _ => trivial) ?_
      rintro stop s' ⟨⟨e, rfl, reading⟩, noted | ⟨_, same, mute⟩⟩
      · exact ⟨e, rfl, .inr ⟨s, _, _, _, _, _, _, _, rest.arrived ready, rest.synced, rest.startLost,
          reading.startFrom rfl carried, noted⟩⟩
      · exact ⟨_, same, .inl mute⟩
  | closed closed =>
      have resync : (s.resync || s.current.isNone) = true := by simp [closed.closed]
      simp only [resync]
      refine (locate_spec closed.withCall rfl rfl).imp ?_ ?_
      · rintro start t ⟨cursor, synced, noneLost, located⟩
        cases located with
        | @fresh _ k j σ id c pos i fresh =>
            have isOpen := fresh.isOpen
            simp only [isOpen.current]
            have spec := record_spec .fresh isOpen fresh.index.le cursor fresh.place
              (room isOpen.measured.fileAt (some fresh.index)) _ isOpen.current
            have notes := record_notes cap .fresh isOpen fresh.index.le cursor fresh.place _ isOpen.current
            refine (spec.and notes).imp (fun _ _ _ => trivial) ?_
            rintro stop s' ⟨⟨e, rfl, reading⟩, noted | ⟨_, same, mute⟩⟩
            · exact ⟨e, rfl, .inr ⟨t, k, j, σ, id, c, pos, i, fresh.withCall.arrived ready closed.closed, synced,
                noneLost, reading, noted⟩⟩
            · exact ⟨_, same, .inl mute⟩
        | @recovered _ k j σ id c i n recovered =>
            have isOpen := recovered.isOpen
            obtain ⟨record, recordAt, _⟩ := recovered.recovers.recordAt
            have index := (List.getElem?_eq_some_iff.mp recordAt).1
            simp only [isOpen.current]
            have spec := record_spec (.recovered n) isOpen index.le cursor
              ⟨recovered.recovers, recovered.place⟩ (room isOpen.measured.fileAt (some index)) _ isOpen.current
            have notes := record_notes cap (.recovered n) isOpen index.le cursor
              ⟨recovered.recovers, recovered.place⟩ _ isOpen.current
            refine (spec.and notes).imp (fun _ _ _ => trivial) ?_
            rintro stop s' ⟨⟨e, rfl, reading⟩, noted | ⟨_, same, mute⟩⟩
            · exact ⟨e, rfl, .inr ⟨t, k, j, σ, id, c, 0, i, recovered.withCall.arrived ready closed.closed, synced,
                recovered.startLost, reading, noted⟩⟩
            · exact ⟨_, same, .inl mute⟩
      · rintro stop s' (⟨e, t, rfl, located, grew, named, _⟩ | ⟨t, _, _, _, _, _, _, _, _, _, rfl, _⟩)
        · exact ⟨e, rfl, .inl (ready.unlocated closed.closed located.withCall grew named closed.suffix).2⟩
        · exact ⟨_, rfl, .inl ⟨rfl, by simp⟩⟩

/-- A mute error tells of no record. -/
theorem Mute.told_eq_none {ι : Type} {recordAt : ι → Option Record} {e : LogError} {bytes : Bytes}
    {told : Option ι} (mute : Mute e) (tells : Tells recordAt (.failed e bytes) told) : told = none := by
  generalize isOutcome : Outcome.failed e bytes = outcome at tells
  cases tells with
  | whole there => contradiction
  | silent => rfl
  | @front p record e' n there error less =>
      obtain ⟨rfl, _⟩ := Outcome.failed.inj isOutcome
      rcases error with rfl | ⟨some, lost, rfl⟩
      · exact absurd rfl (mute.2 n)
      · exact absurd mute.1 (Nat.ne_of_gt some)

/-- A call that fails at a record tells of that record, or of none. -/
theorem Reading.tells {e : LogError} (strandAt : S.log.strands[k]? = some σ)
    (reading : S.Reading t k j σ c i cap (.error e) s') : ∃ told,
      Tells S.log.recordAt (outcomeOf (.error e) s'.dst) told ∧ ∀ q, told = some q → q = place k i := by
  have there : S.log.recordAt (place k i) = σ.records[i]? := Log.recordAt_place strandAt
  have overflow {record : Record} (recordAt : σ.records[i]? = some record) (long : cap < record.payload.length)
      (dst : s'.dst = record.payload.take cap) : ∃ told,
        Tells S.log.recordAt (outcomeOf (.error (.readOverflow cap)) s'.dst) told ∧
          ∀ q, told = some q → q = place k i := by
    have bytes : outcomeOf (.error (.readOverflow cap)) s'.dst =
        .failed (.readOverflow cap) (record.payload.take cap) := by
      rw [outcomeOf, dst]
      simp [LogError.placed]
    rw [bytes]
    exact ⟨_, .front (there.trans recordAt) (.inl rfl) long, fun q same => (Option.some.inj same).symm⟩
  cases reading with
  | overflow recordAt long dst reached done => exact overflow recordAt long dst
  | cut recordAt long dst failed result beyond => exact overflow recordAt long dst
  | failed failed result front counted =>
      have notOverflow := failed.ne_overflow
      rw [outcomeOf]
      rcases Nat.eq_zero_or_pos e.placed with none | some
      · rw [none, List.take_zero]
        exact ⟨_, .silent none notOverflow, by simp⟩
      · obtain ⟨record, recordAt, bytes, less⟩ := front some
        rw [bytes]
        refine ⟨_, .front (there.trans recordAt) (.inr ⟨some, ?_⟩) less,
          fun q same => (Option.some.inj same).symm⟩
        cases e <;> simp [LogError.placed] at some notOverflow ⊢

/-- A record is read with more requests, and none forgotten. -/
theorem Reading.grew (isOpen : S.Open t k j σ id c pos) (startLost : t.sessionStartLost = 0)
    (reading : S.Reading t k j σ c i cap result s') : t.ops <+: s'.ops := by
  cases reading with
  | whole recordAt fits dst reached done => exact reached.carried.asked
  | overflow recordAt long dst reached done => exact reached.carried.asked
  | cut recordAt long dst failed result beyond =>
      subst result
      exact (failed.gaveUp isOpen startLost).grew
  | failed failed result front counted =>
      subst result
      exact (failed.gaveUp isOpen startLost).grew

/-- A call that fails deals with records, and has noted the metadata of the one it
tells of, if it tells of any. -/
theorem Reads.dealt {e : LogError} (reads : S.Reads s k₀ i₀ cap e s' t k j σ id c pos i) :
    S.Ready s' k (i + 1) ∧ s.ops <+: s'.ops ∧ ∃ told,
      S.Dealt s'.ops (cap < ·.payload.length) (place k₀ i₀) (outcomeOf (.error e) s'.dst) told
        (place k (i + 1)) ∧
      ∀ q record, told = some q → S.log.recordAt q = some record → s'.lastMeta = record.metadata := by
  obtain ⟨arrived, synced, startLost, reading, notes⟩ := reads
  obtain ⟨ready, grew, _, dealt⟩ := reading.dealt arrived synced startLost
  have strandAt := arrived.isOpen.measured.fileAt.strandAt
  obtain ⟨told, tells, isIt⟩ := reading.tells strandAt
  have next : place k i < place k (i + 1) := place_lt_place.mpr (.inr ⟨rfl, Nat.lt_succ_self i⟩)
  refine ⟨ready, grew, told, ⟨tells, dealt.forward, fun q isTold => ?_, fun k' i' isTold => ?_,
    fun q record later before recordAt => ?_, dealt.overflow⟩, fun q record isTold recordAt => ?_⟩
  · rw [isIt q isTold]
    exact ⟨arrived.forward, next⟩
  · have same := isIt _ isTold
    simp only [place, toLex_inj, Prod.mk.injEq] at same
    obtain ⟨rfl, rfl⟩ := same
    exact ⟨id, j, σ, c, arrived.isOpen.measured.mono (reading.grew arrived.isOpen startLost),
      fun _ _ isRecord => by simp [outcomeOf] at isRecord⟩
  · exact (dealt.others q record later before recordAt).imp_right fun rest =>
      rest.imp_right fun given => by simp [outcomeOf] at given
  · rw [isIt q isTold, Log.recordAt_place strandAt] at recordAt
    exact notes record recordAt

/-- A call from a state between two calls. -/
theorem readCall_notes (ready : S.Ready s k i) (takes : S.Takes cap) : ∃ k' i' told,
    S.Ready (readCall S.env cap s).2 k' i' ∧ s.ops <+: (readCall S.env cap s).2.ops ∧
    ((readCall S.env cap s).1 = .failed .eof [] → (readCall S.env cap s).2.pending = [] ∧
      (readCall S.env cap s).2.current = none) ∧
    S.Dealt (readCall S.env cap s).2.ops (cap < ·.payload.length) (place k i) (readCall S.env cap s).1 told
      (place k' i') ∧
    ∀ e bytes q record, (readCall S.env cap s).1 = .failed e bytes → told = some q →
      S.log.recordAt q = some record → (readCall S.env cap s).2.lastMeta = record.metadata := by
  obtain ⟨result, step, isOutcome⟩ := readCall_step ready takes
  have ends (isEof : (readCall S.env cap s).1 = .failed .eof []) :
      (readCall S.env cap s).2.pending = [] ∧ (readCall S.env cap s).2.current = none := by
    rcases step.progress with ⟨_, ended⟩ | ⟨notEof, _⟩
    · exact ended
    · rw [isOutcome] at isEof
      cases result with
      | ok result => contradiction
      | error e => exact absurd (congrArg Except.error (Outcome.failed.inj isEof).1) notEof
  have spec := read_notes (s := s) ready takes
  cases ran : (read S.env cap).run s with
  | ok result' s' =>
      obtain ⟨grew, k', i', told, ready', _, dealt⟩ := step.dealt ready
      rw [← isOutcome] at dealt
      refine ⟨k', i', told, ready', grew, ends, dealt, fun e bytes q record failed => ?_⟩
      simp [readCall, ran] at failed
  | error stop s' =>
      obtain ⟨e, rfl, told⟩ := spec.of_error ran
      have same : readCall S.env cap s = (outcomeOf (.error e) s'.dst, s') := by
        simp only [readCall, ran]
        rfl
      rcases told with mute | ⟨t, k', j, σ, id, c, pos, i', reads⟩
      · obtain ⟨grew, k', i', told, ready', _, dealt⟩ := step.dealt ready
        rw [← isOutcome] at dealt
        refine ⟨k', i', told, ready', grew, ends, dealt, fun _ _ q record _ isTold => ?_⟩
        have tells := dealt.tells
        rw [same] at tells
        have none : told = none := mute.told_eq_none tells
        rw [none] at isTold
        contradiction
      · obtain ⟨ready', grew, told, dealt, notes⟩ := reads.dealt
        rw [same] at ends ⊢
        exact ⟨k', i' + 1, told, ready', grew, ends, dealt, fun _ _ q record _ => notes q record⟩

end Scene

end Tcslog
