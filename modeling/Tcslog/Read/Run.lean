import Tcslog.Read.Account

/-!
# Runs of calls

A call leads from one state between two calls to another and accounts for the
records it deals with, whatever the directory lost and whichever requests fail.
So a whole run accounts for records in order, and it comes to the end of the
log.
-/

namespace Tcslog

open Lib.Program Lib.Spanned

namespace Scene

variable {S : Scene}

/-! ## Arriving at a record -/

/-- The reader has opened file `j` of a strand to deal with record `i` next. -/
structure Arrived (S : Scene) (s : ReadState) (k₀ i₀ : Nat) (t : ReadState) (k j : Nat) (σ : Strand)
    (id : SegId) (c pos i : Nat) : Prop where
  isOpen : S.Open t k j σ id c pos
  grew : s.ops <+: t.ops
  forward : place k₀ i₀ ≤ place k i
  await : S.Await t.ops (id :: t.pending) k i
  lost : ∀ k' i' τ, S.log.strands[k']? = some τ → i' < τ.records.length →
    place k₀ i₀ ≤ place k' i' → place k' i' < place k i → S.Lost t.ops k' τ i'

theorem OpensAt.arrived {s t : ReadState} {k₀ i₀ k j c pos i : Nat} {σ : Strand} {id : SegId}
    (ready : S.Ready s k₀ i₀) (closed : s.current = none) (opensAt : S.OpensAt s t k j σ id c pos)
    (first : ∀ i', i' < i → σ.start i' < j * σ.dataSection)
    (forward : id ∈ s.pending → place k₀ i₀ ≤ place k i) :
    S.Arrived s k₀ i₀ t k j σ id c pos i := by
  obtain ⟨grew, ⟨search, rest, past, opens, result⟩, isOpen⟩ := opensAt
  have pending : t.pending = rest := congrArg Search.pending result
  have forward := forward (past.suffix.mem (opens.found.suffix.mem (by simp)))
  have awaitThere : S.Await t.ops (id :: t.pending) k₀ i₀ := by
    refine ready.await.step grew (le_refl _) fun p mem => ?_
    rw [held_of_closed closed] at mem
    rw [pending]
    rcases past.spent k₀ i₀ p mem with later | spent
    · exact opens.found.spent k₀ i₀ p later
    · exact .inr spent
  have ahead : S.Ahead (id :: t.pending) k i := by
    intro p mem k' j' τ fileAt
    rcases List.mem_cons.mp mem with rfl | later
    · obtain ⟨rfl, rfl, rfl⟩ := fileAt.unique isOpen.measured.fileAt
      exact .inr ⟨rfl, first⟩
    · rcases isOpen.after later fileAt with less | ⟨rfl, less⟩
      · exact .inl less
      · obtain rfl := Option.some.inj (fileAt.strandAt.symm.trans isOpen.measured.fileAt.strandAt)
        refine .inr ⟨rfl, fun i' before => (first i' before).trans_le ?_⟩
        exact Nat.mul_le_mul_right _ less.le
  refine ⟨isOpen, grew, forward, ?_, ?_⟩
  · exact awaitThere.step List.prefix_rfl forward fun p mem => .inl mem
  · intro k' i' τ strandAt index later before
    exact awaitThere.lost ahead strandAt index later before

theorem Fresh.arrived {s t : ReadState} {k₀ i₀ k j c pos i : Nat} {σ : Strand} {id : SegId}
    (ready : S.Ready s k₀ i₀) (closed : s.current = none) (fresh : S.Fresh s t k j σ id c pos i) :
    S.Arrived s k₀ i₀ t k j σ id c pos i := by
  refine fresh.toOpensAt.arrived ready closed fresh.first fun mem => ?_
  rw [place_le_place]
  rcases ready.ahead id mem k j σ fresh.isOpen.measured.fileAt with less | ⟨rfl, before⟩
  · exact .inl less
  · refine .inr ⟨rfl, Nat.le_of_not_lt fun less => ?_⟩
    have := before i less
    have := fresh.place
    omega

theorem Recovered.arrived {s t : ReadState} {k₀ i₀ k j c i n : Nat} {σ : Strand} {id : SegId}
    (ready : S.Ready s k₀ i₀) (closed : s.current = none)
    (recovered : S.Recovered s t k₀ i₀ k j σ id c i n) :
    S.Arrived s k₀ i₀ t k j σ id c 0 i := by
  refine recovered.toOpensAt.arrived ready closed (fun i' less => ?_) fun _ => ?_
  · have := recovered.place
    have := Strand.start_mono (σ := σ) less.le
    have header : σ.format.dataHeaderLen = 4 := by rw [recovered.recovers.format]; rfl
    omega
  · rw [place_le_place]
    exact .inr ⟨recovered.strand.symm, recovered.later⟩

/-- Before a record is read from where the reader stands, it has arrived. -/
theorem AtRest.arrived {s : ReadState} {k j c pos i : Nat} {σ : Strand} {id : SegId}
    (ready : S.Ready s k i) (rest : S.AtRest s k j σ id c pos i) :
    S.Arrived s k i s k j σ id c pos i := by
  refine ⟨rest.toOpen, List.prefix_rfl, le_refl _, rest.held ▸ ready.await, ?_⟩
  exact fun _ _ _ _ _ later before => absurd later (not_le_of_gt before)

/-! ## Dealing with a record -/

theorem Finished.ready {t s' : ReadState} {k i : Nat} {σ : Strand} {id : SegId}
    (finished : S.Finished t k σ id i s') (await : S.Await t.ops (id :: t.pending) k i) :
    S.Ready s' k (i + 1) := by
  obtain ⟨j', id', c', pos', rest, _, spent⟩ := finished.rest
  refine ⟨.rest rest, finished.ahead, rest.held ▸ ?_⟩
  exact await.step finished.grew (place_le_place.mpr (.inr ⟨rfl, Nat.le_succ i⟩)) spent

theorem GaveUp.ready {t s' : ReadState} {k i : Nat} {σ : Strand} {id : SegId}
    (gaveUp : S.GaveUp t k σ id i s') (await : S.Await t.ops (id :: t.pending) k i) :
    S.Ready s'.losePosition k (i + 1) := by
  refine ⟨.closed gaveUp.closed, gaveUp.ahead, ?_⟩
  exact await.step gaveUp.grew (place_le_place.mpr (.inr ⟨rfl, Nat.le_succ i⟩)) gaveUp.spent

/-- How record `i` was dealt with after the records before it were passed
by. -/
theorem Arrived.dealt {s t : ReadState} {k₀ i₀ k j c pos i : Nat} {long : Record → Prop} {σ : Strand} {id : SegId}
    {ops : List ReadOp} {outcome : Outcome} {told : Option (ℕ ×ₗ ℕ)}
    (arrived : S.Arrived s k₀ i₀ t k j σ id c pos i) (grew : t.ops <+: ops)
    (tells : Tells S.log.recordAt outcome told) (isIt : ∀ q, told = some q → q = place k i)
    (stored : ∀ payload metadata, outcome = .record payload metadata → σ.start (i + 1) ≤ σ.stored)
    (dealt : ∀ record, σ.records[i]? = some record →
      S.Lost ops k σ i ∨ long record ∨
        told = some (place k i) ∧ outcome = .record record.payload record.metadata)
    (overflow : ∀ n bytes, outcome = .failed (.readOverflow n) bytes →
      ∃ record, σ.records[i]? = some record ∧ long record) :
    S.Dealt ops long (place k₀ i₀) outcome told (place k (i + 1)) := by
  have strandAt := arrived.isOpen.measured.fileAt.strandAt
  have next : place k i < place k (i + 1) := place_lt_place.mpr (.inr ⟨rfl, Nat.lt_succ_self i⟩)
  refine ⟨tells, arrived.forward.trans next.le, fun q isTold => ?_, fun k' i' isTold => ?_,
    fun q record later before recordAt => ?_, fun n bytes past => ?_⟩
  · rw [isIt q isTold]
    exact ⟨arrived.forward, next⟩
  · have same := isIt _ isTold
    simp only [place, toLex_inj, Prod.mk.injEq] at same
    obtain ⟨rfl, rfl⟩ := same
    exact ⟨id, j, σ, c, arrived.isOpen.measured.mono grew, stored⟩
  · obtain ⟨k', i', rfl⟩ := exists_place q
    obtain ⟨τ, strandAt', recordAt'⟩ := Option.bind_eq_some_iff.mp recordAt
    have index := (List.getElem?_eq_some_iff.mp recordAt').1
    rcases lt_or_ge (place k' i') (place k i) with less | notLess
    · exact .inl ⟨τ, strandAt', (arrived.lost k' i' τ strandAt' index later less).mono grew⟩
    · obtain ⟨rfl, rfl⟩ : k' = k ∧ i' = i := by
        rw [place_le_place] at notLess
        rw [place_lt_place] at before
        omega
      obtain rfl := Option.some.inj (strandAt'.symm.trans strandAt)
      exact (dealt record recordAt').imp_left fun lost => ⟨τ, strandAt, lost⟩
  · obtain ⟨record, recordAt, tooLong⟩ := overflow n bytes past
    exact ⟨place k i, record, (Log.recordAt_place strandAt).trans recordAt, tooLong⟩

/-- A record fails with a truncation, a session's end or a request's error. -/
theorem Failed.error {t s' : ReadState} {k j c i y : Nat} {σ : Strand} {e : LogError}
    (failed : S.Failed t k j σ c i y e s') :
    e = .ioError ∨ e = .sessionEnd ∨ ∃ lost n, e = .readTruncated lost n := by
  cases failed with
  | broke reached more broke =>
      cases broke.cause with
      | ended => simp
      | boundary found differs pending session recovery error =>
          rw [error]
          split <;> simp
      | rejected => simp
  | denied => simp

theorem Failed.ne_eof {t s' : ReadState} {k j c i y : Nat} {σ : Strand} {e : LogError}
    (failed : S.Failed t k j σ c i y e s') : e ≠ .eof := by
  rcases failed.error with rfl | rfl | ⟨lost, n, rfl⟩ <;> simp

theorem Failed.ne_overflow {t s' : ReadState} {k j c i y : Nat} {σ : Strand} {e : LogError}
    (failed : S.Failed t k j σ c i y e s') (n : Nat) : e ≠ .readOverflow n := by
  rcases failed.error with rfl | rfl | ⟨lost, n, rfl⟩ <;> simp

/-- Reading a record, the reader is ready for the next one and has accounted
for this one. -/
theorem Reading.dealt {s t s' : ReadState} {k₀ i₀ k j c pos i cap : Nat} {σ : Strand} {id : SegId}
    {result : Except LogError ReadResult} (arrived : S.Arrived s k₀ i₀ t k j σ id c pos i)
    (synced : t.resync = false) (startLost : t.sessionStartLost = 0)
    (reading : S.Reading t k j σ c i cap result s') :
    S.Ready s' k (i + 1) ∧ s.ops <+: s'.ops ∧
      ∃ told, S.Dealt s'.ops (cap < ·.payload.length) (place k₀ i₀) (outcomeOf result s'.dst) told
        (place k (i + 1)) := by
  have strandAt := arrived.isOpen.measured.fileAt.strandAt
  have there : S.log.recordAt (place k i) = σ.records[i]? := Log.recordAt_place strandAt
  have overflow {record : Record} (recordAt : σ.records[i]? = some record)
      (long : cap < record.payload.length) (dst : s'.dst = record.payload.take cap)
      (grew : t.ops <+: s'.ops) : ∃ told, S.Dealt s'.ops (cap < ·.payload.length) (place k₀ i₀)
        (outcomeOf (.error (.readOverflow cap)) s'.dst) told (place k (i + 1)) := by
    have bytes : outcomeOf (.error (.readOverflow cap)) s'.dst =
        .failed (.readOverflow cap) (record.payload.take cap) := by
      rw [outcomeOf, dst]
      simp [LogError.placed]
    have dealt : ∀ record, σ.records[i]? = some record → cap < record.payload.length := by
      intro record' recordAt'
      rwa [← Option.some.inj (recordAt.symm.trans recordAt')]
    rw [bytes]
    exact ⟨_, arrived.dealt grew (.front (there.trans recordAt) (.inl rfl) long) (by simp) (by simp)
      (fun record recordAt => .inr (.inl (dealt record recordAt)))
      fun _ _ _ => ⟨record, recordAt, long⟩⟩
  cases reading with
  | @whole _ record j' id' c' pos' y recordAt fits dst reached done =>
      have finished := reached.finished arrived.isOpen synced startLost recordAt done
      have bytes : outcomeOf (.ok ⟨record.payload.length, record.metadata⟩) s'.dst =
          .record record.payload record.metadata := by
        rw [outcomeOf, dst, List.take_length]
      refine ⟨finished.ready arrived.await, arrived.grew.trans finished.grew, some (place k i), ?_⟩
      rw [bytes]
      refine arrived.dealt finished.grew (.whole (there.trans recordAt)) (by simp)
        (fun _ _ _ => finished.stored) (fun record' recordAt' => .inr (.inr ⟨rfl, ?_⟩)) (by simp)
      rw [Option.some.inj (recordAt.symm.trans recordAt')]
  | overflow recordAt long dst reached done =>
      have finished := reached.finished arrived.isOpen synced startLost recordAt done
      exact ⟨finished.ready arrived.await, arrived.grew.trans finished.grew,
        overflow recordAt long dst finished.grew⟩
  | cut recordAt long dst failed result =>
      subst result
      have gaveUp := failed.gaveUp arrived.isOpen startLost
      exact ⟨gaveUp.ready arrived.await, arrived.grew.trans gaveUp.grew,
        overflow recordAt long dst gaveUp.grew⟩
  | @failed _ _ y e failed result front =>
      subst result
      have gaveUp := failed.gaveUp arrived.isOpen startLost
      have lost : ∀ record, σ.records[i]? = some record → S.Lost _ k σ i := fun record recordAt =>
        gaveUp.lost (List.getElem?_eq_some_iff.mp recordAt).1
      refine ⟨gaveUp.ready arrived.await, arrived.grew.trans gaveUp.grew, ?_⟩
      rcases Nat.eq_zero_or_pos e.placed with none | some
      · refine ⟨.none, arrived.dealt gaveUp.grew ?_ (by simp) (by simp [outcomeOf])
          (fun record recordAt => .inl (lost record recordAt)) fun n _ past => ?_⟩
        rotate_left
        · simp only [outcomeOf, Outcome.failed.injEq] at past
          exact absurd past.1 (failed.ne_overflow n)
        rw [outcomeOf, none, List.take_zero]
        exact .silent none failed.ne_overflow
      · obtain ⟨record, recordAt, bytes, less⟩ := front some
        refine ⟨.some (place k i), arrived.dealt gaveUp.grew ?_ (by simp) (by simp [outcomeOf])
          (fun record recordAt => .inl (lost record recordAt)) fun n _ past => ?_⟩
        rotate_left
        · simp only [outcomeOf, Outcome.failed.injEq] at past
          exact absurd past.1 (failed.ne_overflow n)
        rw [outcomeOf, bytes]
        refine .front (there.trans recordAt) (.inr ⟨some, ?_⟩) less
        have notOverflow := failed.ne_overflow
        cases e <;> simp [LogError.placed] at some notOverflow ⊢

theorem Reading.ne_eof {t s' : ReadState} {k j c i cap : Nat} {σ : Strand}
    {result : Except LogError ReadResult} (reading : S.Reading t k j σ c i cap result s') :
    result ≠ .error .eof := by
  cases reading with
  | whole => simp
  | overflow => simp
  | cut => simp
  | failed failed result front => simpa using failed.ne_eof

/-- An outcome without bytes, of a call that dealt with no record. -/
theorem dealt_of_silent {ops : List ReadOp} {long : Record → Prop} {k i : Nat} {e : LogError}
    {dst : Bytes} (silent : e.placed = 0) (notOverflow : ∀ n, e ≠ .readOverflow n) :
    S.Dealt ops long (place k i) (outcomeOf (.error e) dst) none (place k i) := by
  refine ⟨?_, le_refl _, by simp, by simp, fun q record later before => ?_, fun n _ past => ?_⟩
  · rw [outcomeOf, silent, List.take_zero]
    exact .silent silent notOverflow
  · exact absurd before (not_lt_of_ge later)
  · simp only [outcomeOf, Outcome.failed.injEq] at past
    exact absurd past.1 (notOverflow n)

/-! ## A call -/

theorem Ready.unlocated {s t : ReadState} {k i : Nat} {e : LogError} (ready : S.Ready s k i)
    (closed : s.current = none) (located : S.Located s k i (.error e) t) (grew : s.ops <+: t.ops)
    (named : S.Named t) (suffix : s.pending <:+ S.listing) :
    S.Ready t.losePosition k i ∧ e.placed = 0 ∧ ∀ n, e ≠ .readOverflow n := by
  have given {rest : List SegId} (pending : t.pending = rest) (sub : rest <:+ s.pending)
      (noHint : t.recovery = none)
      (spent : ∀ p ∈ s.pending, p ∈ rest ∨ S.Spent t.ops k i p) : S.Ready t.losePosition k i := by
    refine ⟨.closed (closed_of_noHint named ?_ noHint), ready.ahead.mono ?_, ?_⟩
    · exact pending ▸ sub.trans suffix
    · intro p mem
      exact sub.mem (pending ▸ mem)
    · refine ready.await.step grew (le_refl _) fun p mem => ?_
      rw [held_of_closed closed] at mem
      rw [held_of_closed (show t.losePosition.current = none from rfl)]
      exact (spent p mem).imp_left fun later => pending ▸ later
  cases located with
  | ended past missed result recovery =>
      refine ⟨given (congrArg Search.pending result) (List.nil_suffix) recovery fun p mem => ?_, rfl,
        by simp⟩
      rcases past.spent k i p mem with later | spent
      · exact .inr ((missed p later).spent _ _)
      · exact .inr spent
  | boundary past found differs result recovery =>
      refine ⟨given (congrArg Search.pending result) (found.suffix.trans past.suffix) recovery
        fun p mem => ?_, rfl,
        by simp⟩
      rcases past.spent k i p mem with later | spent
      · exact found.spent k i p later
      · exact .inr spent
  | denied past opens refused result recovery =>
      obtain ⟨m, refused⟩ := refused
      refine ⟨given (congrArg Search.pending result)
        (((List.suffix_cons _ _).trans opens.found.suffix).trans past.suffix) recovery
        fun p mem => ?_, rfl,
        by simp⟩
      rcases past.spent k i p mem with later | spent
      · rcases opens.found.spent k i p later with still | spent
        · rcases List.mem_cons.mp still with rfl | after
          · exact .inr (refused.missed.spent _ _)
          · exact .inl after
        · exact .inr spent
      · exact .inr spent

/-- One call keeps the reader ready and accounts for the records it passes. -/
theorem Step.dealt {s s' : ReadState} {k i cap : Nat} {result : Except LogError ReadResult}
    (ready : S.Ready s k i) (step : S.Step s cap k i result s') :
    s.ops <+: s'.ops ∧ ∃ k' i' told, S.Ready s' k' i' ∧
      (result = .error .eof → k' = k ∧ i' = i) ∧
      S.Dealt s'.ops (cap < ·.payload.length) (place k i) (outcomeOf result s'.dst) told
        (place k' i') := by
  cases step with
  | eof noMore exhausted result =>
      subst result
      refine ⟨List.prefix_rfl, k, i, none, ⟨?_, ready.ahead, ?_⟩, fun _ => ⟨rfl, rfl⟩,
        dealt_of_silent rfl (by simp)⟩
      · cases ready.between with
        | rest rest =>
            refine .closed ⟨⟨rest.named.namePrefix, rest.named.nameSuffix⟩, ?_, rfl, ?_⟩
            · exact (List.suffix_cons _ _).trans rest.suffix
            · simp [rest.noHint]
        | closed closed =>
            exact .closed ⟨⟨closed.named.namePrefix, closed.named.nameSuffix⟩, closed.suffix, rfl,
              closed.hint⟩
      · refine ready.await.step List.prefix_rfl (le_refl _) fun p mem => .inr ?_
        cases ready.between with
        | rest rest =>
            obtain rfl : p = _ := by simpa [rest.held, noMore] using mem
            refine rest.measured.spent (beyond_of_le ?_)
            simp only [LogRead.exhausted, rest.current, opened_dataLen, decide_eq_true_eq]
              at exhausted
            have := rest.place
            omega
        | closed closed => simp [held_of_closed closed.closed, noMore] at mem
  | next rest more reading =>
      obtain ⟨ready', grew, told, dealt⟩ :=
        reading.dealt (rest.arrived ready) rest.synced rest.startLost
      exact ⟨grew, _, _, told, ready', fun eof => absurd eof reading.ne_eof, dealt⟩
  | unlocated closed located grew named result =>
      subst result
      obtain ⟨ready', silent, notOverflow⟩ := ready.unlocated closed.closed located grew named closed.suffix
      exact ⟨grew, k, i, none, ready', fun _ => ⟨rfl, rfl⟩, dealt_of_silent silent notOverflow⟩
  | @startLost _ t k' j σ id c pos i' closed fresh lost rest pending ops =>
      have arrived := fresh.arrived ready closed.closed
      refine ⟨ops ▸ arrived.grew, k', i', none, ⟨.rest rest, ?_, ?_⟩, by simp, ?_, arrived.forward, by simp,
        by simp, fun q record later before recordAt => .inl ?_, by simp [outcomeOf]⟩
      · intro p mem k₁ j₁ τ fileAt
        rcases rest.after mem fileAt with less | ⟨rfl, less⟩
        · exact .inl less
        · obtain rfl := Option.some.inj (fileAt.strandAt.symm.trans rest.measured.fileAt.strandAt)
          refine .inr ⟨rfl, fun i₁ before => (fresh.first i₁ before).trans_le ?_⟩
          exact Nat.mul_le_mul_right _ less.le
      · rw [rest.held, pending, ops]
        exact arrived.await
      · rw [outcomeOf, show (LogError.readTruncated t.sessionStartLost 0).placed = 0 from rfl,
          List.take_zero]
        exact .silent rfl (by simp)
      · obtain ⟨k₁, i₁, rfl⟩ := exists_place q
        obtain ⟨τ, strandAt, recordAt⟩ := Option.bind_eq_some_iff.mp recordAt
        have index := (List.getElem?_eq_some_iff.mp recordAt).1
        exact ⟨τ, strandAt, ops ▸ arrived.lost k₁ i₁ τ strandAt index later before⟩
  | fresh closed fresh none synced reading =>
      obtain ⟨ready', grew, told, dealt⟩ :=
        reading.dealt (fresh.arrived ready closed.closed) synced none
      exact ⟨grew, _, _, told, ready', fun eof => absurd eof reading.ne_eof, dealt⟩
  | recovered closed recovered synced reading =>
      obtain ⟨ready', grew, told, dealt⟩ :=
        reading.dealt (recovered.arrived ready closed.closed) synced recovered.startLost
      exact ⟨grew, _, _, told, ready', fun eof => absurd eof reading.ne_eof, dealt⟩

/-! ## Coming to the end -/

/-- What is left of the open file. -/
def unread (s : ReadState) : Nat :=
  match s.current with
  | none => 0
  | some segment => segment.dataLen - segment.pos

/-- How far a reader without an open file is from having one. -/
def phase (s : ReadState) : Nat :=
  match s.current with
  | some _ => 0
  | none => if s.session.isSome then 2 else 1

/-- What every call but the last uses up. -/
def size (s : ReadState) : ℕ ×ₗ ℕ ×ₗ ℕ :=
  toLex ((held s).length, toLex (phase s, unread s))

theorem size_lt_size {s s' : ReadState} : size s' < size s ↔ (held s').length < (held s).length ∨
    (held s').length = (held s).length ∧
      (phase s' < phase s ∨ phase s' = phase s ∧ unread s' < unread s) := by
  simp only [size, Prod.Lex.toLex_lt_toLex]

theorem Passes.length_le {ops : List ReadOp} {k j c j' c' : Nat} {σ : Strand}
    {pending pending' : List SegId} (passes : S.Passes ops k σ pending j c pending' j' c') :
    pending'.length < pending.length ∨ pending' = pending ∧ j' = j ∧ c' = c := by
  cases passes with
  | refl => exact .inr ⟨rfl, rfl, rfl⟩
  | next full found more =>
      have := more.suffix.length_le
      have := found.suffix.length_le
      rw [List.length_cons] at this
      exact .inl (by omega)

/-- Reading a record gives up the open file or moves on. -/
theorem Reading.progress {t s' : ReadState} {k j c pos i cap : Nat} {σ : Strand} {id : SegId}
    {result : Except LogError ReadResult} (isOpen : S.Open t k j σ id c pos)
    (startLost : t.sessionStartLost = 0) (reading : S.Reading t k j σ c i cap result s') :
    (held s').length < (held t).length ∨
      (held s').length = (held t).length ∧ s'.current.isSome ∧ i < σ.records.length ∧
        ∃ pos', pos' ≤ c ∧ unread s' = c - pos' ∧ j * σ.dataSection + pos' = σ.start (i + 1) := by
  have moves {j' : Nat} {id' : SegId} {c' pos' y : Nat} {record : Record}
      (recordAt : σ.records[i]? = some record)
      (reached : S.Reached t k j σ c i s' j' id' c' pos' y)
      (done : σ.start i + y = σ.start (i + 1)) : (held s').length < (held t).length ∨
        (held s').length = (held t).length ∧ s'.current.isSome ∧ i < σ.records.length ∧
          ∃ pos', pos' ≤ c ∧ unread s' = c - pos' ∧
            j * σ.dataSection + pos' = σ.start (i + 1) := by
    have mid := reached.mid
    have index := (List.getElem?_eq_some_iff.mp recordAt).1
    rw [mid.held, isOpen.held, List.length_cons, List.length_cons]
    rcases reached.passes.length_le with less | ⟨same, rfl, rfl⟩
    · exact .inl (by omega)
    · refine .inr ⟨by rw [same], by rw [mid.current]; rfl, index, pos', mid.posLe, ?_,
        mid.place.trans done⟩
      simp [unread, mid.current]
  have drops {e : LogError} {y : Nat} {u : ReadState} (failed : S.Failed t k j σ c i y e u) :
      (held u.losePosition).length < (held t).length := by
    have le := (failed.gaveUp isOpen startLost).suffix.length_le
    rw [held_of_closed (show u.losePosition.current = none from rfl), isOpen.held, List.length_cons]
    exact Nat.lt_succ_of_le le
  cases reading with
  | whole recordAt fits dst reached done => exact moves recordAt reached done
  | overflow recordAt long dst reached done => exact moves recordAt reached done
  | cut recordAt long dst failed result => exact .inl (result ▸ drops failed)
  | failed failed result front => exact .inl (result ▸ drops failed)

theorem OpensAt.length_le {s t : ReadState} {k j c pos : Nat} {σ : Strand} {id : SegId}
    (opensAt : S.OpensAt s t k j σ id c pos) : (held t).length ≤ s.pending.length := by
  obtain ⟨_, ⟨search, rest, past, opens, result⟩, isOpen⟩ := opensAt
  rw [isOpen.held, show t.pending = rest from congrArg Search.pending result]
  exact (opens.found.suffix.trans past.suffix).length_le

theorem phase_of_isSome {s : ReadState} (isOpen : s.current.isSome) : phase s = 0 := by
  obtain ⟨segment, current⟩ := Option.isSome_iff_exists.mp isOpen
  rw [phase, current]

theorem phase_pos {s : ReadState} (closed : s.current = none) : 0 < phase s := by
  simp only [phase, closed]
  split <;> omega

/-- Reading after a search leaves less than there was before it. -/
theorem OpensAt.progress {s t s' : ReadState} {k j c pos : Nat} {σ : Strand} {id : SegId}
    (closed : s.current = none) (opensAt : S.OpensAt s t k j σ id c pos)
    (le : (held s').length < (held t).length ∨
      (held s').length = (held t).length ∧ s'.current.isSome) : size s' < size s := by
  have := opensAt.length_le
  have := phase_pos closed
  rw [size_lt_size, held_of_closed closed]
  rcases le with less | ⟨same, isOpen⟩
  · exact .inl (by omega)
  · rw [phase_of_isSome isOpen]
    omega

theorem PassesOver.length_le {ops : List ReadOp} {search search' : Search}
    (past : S.PassesOver ops search search') :
    search'.pending.length < search.pending.length ∨ search' = search := by
  cases past with
  | refl => exact .inr rfl
  | past opens covered more =>
      have := more.suffix.length_le
      have := opens.found.suffix.length_le
      rw [List.length_cons] at this
      exact .inl (Nat.lt_of_le_of_lt (by assumption) this)

/-- Every call but the one that ends the log uses something up. -/
theorem Step.progress {s s' : ReadState} {k i cap : Nat} {result : Except LogError ReadResult}
    (step : S.Step s cap k i result s') :
    result = .error .eof ∧ s'.pending = [] ∧ s'.current = none ∨
      result ≠ .error .eof ∧ size s' < size s := by
  cases step with
  | eof noMore exhausted result =>
      subst result
      exact .inl ⟨rfl, noMore, rfl⟩
  | @next _ j σ id c pos _ rest more reading =>
      have moved := reading.progress rest.toOpen rest.startLost
      refine .inr ⟨reading.ne_eof, size_lt_size.mpr (moved.imp_right ?_)⟩
      rintro ⟨same, isOpen, index, pos', le, left, place'⟩
      have current : s.current.isSome := by rw [rest.current]; rfl
      have before : unread s = c - pos := by simp [unread, rest.current]
      refine ⟨same, .inr ⟨by rw [phase_of_isSome isOpen, phase_of_isSome current], ?_⟩⟩
      have place := rest.place
      have nonempty : σ.start i < σ.start (i + 1) := Strand.start_lt (Nat.lt_succ_self i) index
      omega
  | @unlocated _ t e closed located grew named result =>
      subst result
      cases located with
      | ended past missed result recovery =>
          exact .inl ⟨rfl, congrArg Search.pending result, rfl⟩
      | @boundary _ search id rest k' j σ c past found differs result recovery =>
          have pending : t.losePosition.pending = id :: rest := congrArg Search.pending result
          have le := found.suffix.length_le
          refine .inr ⟨by simp, size_lt_size.mpr ?_⟩
          rw [held_of_closed (show t.losePosition.current = none from rfl),
            held_of_closed closed.closed, pending]
          rcases past.length_le with less | same
          · exact .inl (le.trans_lt less)
          · rw [same] at le differs
            obtain ⟨sid, known, _⟩ := differs
            have known' : s.session = some sid := known
            have session : t.losePosition.session = none := congrArg Search.session result
            rcases Nat.lt_or_eq_of_le le with less | equal
            · exact .inl less
            · refine .inr ⟨equal, .inl ?_⟩
              simp [phase, closed.closed, known', session,
                show t.losePosition.current = none from rfl]
      | @denied _ search id rest k' j σ c past opens refused result recovery =>
          have pending : t.losePosition.pending = rest := congrArg Search.pending result
          have le := (opens.found.suffix.trans past.suffix).length_le
          rw [List.length_cons] at le
          refine .inr ⟨by simp, size_lt_size.mpr (.inl ?_)⟩
          rw [held_of_closed (show t.losePosition.current = none from rfl),
            held_of_closed closed.closed, pending]
          exact le
  | @startLost _ t k' j σ id c pos i' closed fresh lost rest pending ops =>
      refine .inr ⟨by simp, fresh.toOpensAt.progress closed.closed (.inr ⟨?_, ?_⟩)⟩
      · rw [rest.held, fresh.isOpen.held, pending]
      · rw [rest.current]
        rfl
  | fresh closed fresh none synced reading =>
      have moved := reading.progress fresh.isOpen none
      refine .inr ⟨reading.ne_eof, fresh.toOpensAt.progress closed.closed (moved.imp_right ?_)⟩
      exact fun same => ⟨same.1, same.2.1⟩
  | recovered closed recovered synced reading =>
      have moved := reading.progress recovered.isOpen recovered.startLost
      refine .inr ⟨reading.ne_eof, recovered.toOpensAt.progress closed.closed (moved.imp_right ?_)⟩
      exact fun same => ⟨same.1, same.2.1⟩

end Scene

end Tcslog
