import Tcslog.Read.Search

/-!
# One call of a reader

Between calls a reader either stands between two records of an open file or has
no file open.  This module lists what one call can come to from either.
-/

namespace Tcslog

open Lib.Program Lib.Spanned

namespace Scene

variable {S : Scene}

/-- The reader stands between two records. -/
structure AtRest (S : Scene) (s : ReadState) (k j : Nat) (σ : Strand) (id : SegId) (c pos i : Nat) :
    Prop extends S.Open s k j σ id c pos where
  place : j * σ.dataSection + pos = σ.start i
  index : i ≤ σ.records.length
  some : σ.records ≠ []
  synced : s.resync = false
  startLost : s.sessionStartLost = 0

/-- A buffer in which no record is passed by unnoticed: it holds something,
unless there are data headers to read. -/
def Takes (S : Scene) (cap : Nat) : Prop :=
  ∀ σ ∈ S.log.strands, σ.records ≠ [] → 0 < cap ∨ 0 < σ.format.dataHeaderLen

/-- What one call with a buffer of `cap` bytes comes to.  The reader has
dealt with the records before record `i₀` of strand `k₀`. -/
inductive Step (S : Scene) (s : ReadState) (cap k₀ i₀ : Nat) :
    Except LogError ReadResult → ReadState → Prop
  /-- Nothing is left. -/
  | eof {s' : ReadState} (noMore : s.pending = []) (exhausted : s.exhausted = true)
      (result : s' = { s with current := none }) : Step S s cap k₀ i₀ (.error .eof) s'
  /-- The record the reader stands at is read. -/
  | next {s' : ReadState} {j : Nat} {σ : Strand} {id : SegId} {c pos : Nat}
      {outcome : Except LogError ReadResult} (rest : S.AtRest s k₀ j σ id c pos i₀)
      (more : s.pending ≠ [] ∨ pos < c) (reading : S.Reading s k₀ j σ c i₀ cap outcome s') :
      Step S s cap k₀ i₀ outcome s'
  /-- The search for a record boundary fails. -/
  | unlocated {s' t : ReadState} {e : LogError} (closed : S.Closed s k₀ i₀)
      (located : S.Located s k₀ i₀ (.error e) t) (grew : s.ops <+: t.ops) (named : S.Named t)
      (result : s' = t.losePosition) : Step S s cap k₀ i₀ (.error e) s'
  /-- Files lost ahead of a session's first are reported once. -/
  | startLost {s' t : ReadState} {k j : Nat} {σ : Strand} {id : SegId} {c pos i : Nat}
      (closed : S.Closed s k₀ i₀) (fresh : S.Fresh s t k j σ id c pos i)
      (lost : 0 < t.sessionStartLost) (rest : S.AtRest s' k j σ id c pos i)
      (pending : s'.pending = t.pending) (ops : s'.ops = t.ops) :
      Step S s cap k₀ i₀ (.error (.readTruncated t.sessionStartLost 0)) s'
  /-- The first record of the file found is read. -/
  | fresh {s' t : ReadState} {k j : Nat} {σ : Strand} {id : SegId} {c pos i : Nat}
      {outcome : Except LogError ReadResult} (closed : S.Closed s k₀ i₀)
      (fresh : S.Fresh s t k j σ id c pos i) (none : t.sessionStartLost = 0)
      (synced : t.resync = false) (reading : S.Reading t k j σ c i cap outcome s') :
      Step S s cap k₀ i₀ outcome s'
  /-- A record is read whose data header was lost. -/
  | recovered {s' t : ReadState} {k j : Nat} {σ : Strand} {id : SegId} {c i n : Nat}
      {outcome : Except LogError ReadResult} (closed : S.Closed s k₀ i₀)
      (recovered : S.Recovered s t k₀ i₀ k j σ id c i n) (synced : t.resync = false)
      (reading : S.Reading t k j σ c i cap outcome s') : Step S s cap k₀ i₀ outcome s'

/-- Between two calls: the records before record `i` of strand `k` are dealt
with. -/
inductive Between (S : Scene) (s : ReadState) (k i : Nat) : Prop
  | rest {j : Nat} {σ : Strand} {id : SegId} {c pos : Nat} (rest : S.AtRest s k j σ id c pos i)
  | closed (closed : S.Closed s k i)

/-! ## What a call starts with -/

theorem Open.withCall {s : ReadState} {k j c pos : Nat} {σ : Strand} {id : SegId}
    (isOpen : S.Open s k j σ id c pos) (resync : Bool) (cursor : Cursor) (dst : Bytes)
    (sessionStartLost : Nat) : S.Open { s with
      resync := resync, cursor := cursor, dst := dst, sessionStartLost := sessionStartLost }
      k j σ id c pos :=
  ⟨⟨isOpen.named.namePrefix, isOpen.named.nameSuffix⟩, isOpen.suffix, isOpen.measured,
    isOpen.current, isOpen.posLe, isOpen.session, isOpen.prevSeq, isOpen.noHint⟩

theorem Closed.withCall {s : ReadState} {k₀ i₀ : Nat} (closed : S.Closed s k₀ i₀) :
    S.Closed { s with resync := true, cursor := {}, dst := [] } k₀ i₀ :=
  ⟨⟨closed.named.namePrefix, closed.named.nameSuffix⟩, closed.suffix, closed.closed, closed.hint⟩

theorem Fresh.withCall {s t : ReadState} {k j c pos i : Nat} {σ : Strand} {id : SegId}
    {resync : Bool} {cursor : Cursor} {dst : Bytes}
    (fresh : S.Fresh { s with resync := resync, cursor := cursor, dst := dst } t k j σ id c pos i) :
    S.Fresh s t k j σ id c pos i :=
  ⟨⟨fresh.grew, fresh.opens, fresh.isOpen⟩, fresh.place, fresh.owes, fresh.offers, fresh.index, fresh.first,
    fresh.unsettled⟩

theorem Recovered.withCall {s t : ReadState} {k₀ i₀ k j c i n : Nat} {σ : Strand} {id : SegId}
    {resync : Bool} {cursor : Cursor} {dst : Bytes}
    (recovered : S.Recovered { s with resync := resync, cursor := cursor, dst := dst }
      t k₀ i₀ k j σ id c i n) : S.Recovered s t k₀ i₀ k j σ id c i n :=
  ⟨⟨recovered.grew, recovered.opens, recovered.isOpen⟩, recovered.strand, recovered.startLost, recovered.place,
    recovered.later, recovered.recovers, recovered.hinted, recovered.settled⟩

theorem Located.withCall {s t : ReadState} {k₀ i₀ : Nat} {e : LogError} {resync : Bool}
    {cursor : Cursor} {dst : Bytes}
    (located : S.Located { s with resync := resync, cursor := cursor, dst := dst } k₀ i₀
      (.error e) t) : S.Located s k₀ i₀ (.error e) t := by
  cases located with
  | ended past missed result recovery unsettled => exact .ended past missed result recovery unsettled
  | boundary past found differs result recovery unsettled =>
      exact .boundary past found differs result recovery unsettled
  | denied past opens refused result recovery unsettled =>
      exact .denied past opens refused result recovery unsettled

theorem Reading.startFrom {s₀ s s' : ReadState} {k j c i cap : Nat} {σ : Strand}
    {outcome : Except LogError ReadResult} (reading : S.Reading s k j σ c i cap outcome s')
    (pending : s.pending = s₀.pending) (carried : Carried s₀ s) :
    S.Reading s₀ k j σ c i cap outcome s' := by
  cases reading with
  | whole recordAt fits dst reached done =>
      exact .whole recordAt fits dst (reached.startFrom pending carried) done
  | overflow recordAt long dst reached done =>
      exact .overflow recordAt long dst (reached.startFrom pending carried) done
  | cut recordAt long dst failed result beyond =>
      exact .cut recordAt long dst (failed.startFrom pending carried) result beyond
  | failed failed result front counted =>
      exact .failed (failed.startFrom pending carried) result front counted

/-! ## The call -/

/-- A search that found a record boundary left the reader ready to read. -/
theorem locate_spec {s : ReadState} {k₀ i₀ : Nat} (closed : S.Closed s k₀ i₀)
    (resync : s.resync = true) (cursor : s.cursor = {}) :
    Meets (locate S.env) s
      (fun start t => t.cursor = {} ∧ t.resync = false ∧ t.sessionStartLost = 0 ∧
        S.Located s k₀ i₀ (.ok start) t)
      (fun stop s' =>
        (∃ e t, stop = .error e ∧ S.Located s k₀ i₀ (.error e) t ∧ s.ops <+: t.ops ∧ S.Named t ∧
          s' = t.losePosition) ∨
        ∃ t k j σ id c pos i, 0 < t.sessionStartLost ∧ S.Fresh s t k j σ id c pos i ∧
          stop = .error (.readTruncated t.sessionStartLost 0) ∧
          S.AtRest s' k j σ id c pos i ∧ s'.pending = t.pending ∧ s'.ops = t.ops) := by
  simp only [locate, meets_bind, meets_get, resync, meets_orLosePosition, meets_modify, meets_ite]
  refine ⟨fun _ => (findRecordStart_spec closed).imp ?_ ?_, fun impossible => absurd trivial impossible⟩
  · rintro start t ⟨_, _, cursorKept, located⟩
    refine ⟨fun lost => ?_, fun noneLost => ?_⟩
    · simp only [meets_set, meets_fail]
      right
      cases located with
      | recovered recovered =>
          exact absurd recovered.startLost (Nat.pos_iff_ne_zero.mp lost)
      | fresh fresh =>
          refine ⟨t, _, _, _, _, _, _, _, lost, fresh, rfl, ⟨?_, fresh.place, fresh.index.le, ?_, rfl,
            rfl⟩, rfl, rfl⟩
          · exact fresh.isOpen.withCall false t.cursor t.dst 0
          · have := fresh.index
            exact List.ne_nil_of_length_pos (by omega)
    · refine ⟨cursorKept.trans cursor, rfl, by dsimp only at noneLost ⊢; omega, ?_⟩
      cases located with
      | fresh fresh =>
          exact .fresh { fresh with isOpen := fresh.isOpen.withCall false t.cursor t.dst _ }
      | recovered recovered =>
          exact .recovered { recovered with
            isOpen := recovered.isOpen.withCall false t.cursor t.dst _ }
  · rintro stop t ⟨grew, named, e, rfl, located⟩
    exact .inl ⟨e, t, rfl, located, grew, named, rfl⟩

/-- A reader that stands between two records need not search. -/
theorem locate_of_synced {s : ReadState} (synced : s.resync = false) :
    Meets (locate S.env) s (fun start t => start = .fresh ∧ t = s) (fun _ _ => False) := by
  simp only [locate, meets_bind, meets_get, synced, meets_ite, meets_pure]
  exact ⟨fun impossible => absurd impossible Bool.false_ne_true, fun _ => ⟨trivial, trivial⟩⟩

theorem read_spec {s : ReadState} {k₀ i₀ cap : Nat} (between : S.Between s k₀ i₀)
    (takes : S.Takes cap) :
    Meets (read S.env cap) s (fun result s' => S.Step s cap k₀ i₀ (.ok result) s')
      (fun stop s' => ∃ e, stop = .error e ∧ S.Step s cap k₀ i₀ (.error e) s') := by
  simp only [read, meets_bind, meets_get, meets_ite, meets_set, meets_fail]
  refine ⟨fun ended => ⟨_, rfl, .eof ended.1 ended.2 rfl⟩, fun more => ?_⟩
  have room {k j : Nat} {σ : Strand} {id : SegId} (fileAt : S.log.FileAt k j σ id)
      (some : σ.records ≠ []) : 0 < cap ∨ 0 < σ.format.dataHeaderLen :=
    takes σ (List.mem_of_getElem? fileAt.strandAt) some
  have carried : Carried s { s with resync := s.resync, cursor := {}, dst := [] } :=
    ⟨List.prefix_rfl, rfl, rfl⟩
  cases between with
  | @rest j σ id c pos rest =>
      have isOpen := rest.toOpen.withCall s.resync {} [] s.sessionStartLost
      have noResync : (s.resync || s.current.isNone) = s.resync := by rw [rest.current]; simp
      simp only [noResync]
      refine Meets.imp (locate_of_synced (s := { s with cursor := {}, dst := [] }) rest.synced) ?_
        (by simp)
      rintro _ _ ⟨rfl, rfl⟩
      simp only [rest.current]
      have unread : s.pending ≠ [] ∨ pos < c := by
        by_contra none
        rw [not_or, not_not] at none
        exact more ⟨none.1, by simpa [LogRead.exhausted, rest.current] using none.2⟩
      refine Meets.imp (record_spec .fresh isOpen rest.index rfl rest.place
        (room rest.measured.fileAt rest.some) _ rest.current) ?_ ?_
      · intro result s' reading
        exact .next rest unread (reading.startFrom rfl carried)
      · rintro stop s' ⟨e, rfl, reading⟩
        exact ⟨e, rfl, .next rest unread (reading.startFrom rfl carried)⟩
  | closed closed =>
      have resync : (s.resync || s.current.isNone) = true := by simp [closed.closed]
      simp only [resync]
      refine (locate_spec closed.withCall rfl rfl).imp ?_ ?_
      · rintro start t ⟨cursor, synced, noneLost, located⟩
        cases located with
        | @fresh _ k j σ id c pos i fresh =>
            have isOpen := fresh.isOpen
            have some : σ.records ≠ [] := by
              have := fresh.index
              exact List.ne_nil_of_length_pos (by omega)
            simp only [isOpen.current]
            refine Meets.imp (record_spec .fresh isOpen fresh.index.le cursor fresh.place
              (room isOpen.measured.fileAt some) _ isOpen.current) ?_ ?_
            · intro result s' reading
              exact .fresh closed fresh.withCall noneLost synced reading
            · rintro stop s' ⟨e, rfl, reading⟩
              exact ⟨e, rfl, .fresh closed fresh.withCall noneLost synced reading⟩
        | @recovered _ k j σ id c i n recovered =>
            have isOpen := recovered.isOpen
            obtain ⟨record, recordAt, _⟩ := recovered.recovers.recordAt
            have index := (List.getElem?_eq_some_iff.mp recordAt).1
            have some : σ.records ≠ [] := List.ne_nil_of_length_pos (by omega)
            simp only [isOpen.current]
            refine Meets.imp (record_spec (.recovered n) isOpen index.le cursor
              ⟨recovered.recovers, recovered.place⟩ (room isOpen.measured.fileAt some) _
              isOpen.current) ?_ ?_
            · intro result s' reading
              exact .recovered closed recovered.withCall synced reading
            · rintro stop s' ⟨e, rfl, reading⟩
              exact ⟨e, rfl, .recovered closed recovered.withCall synced reading⟩
      · rintro stop s'
          (⟨e, t, rfl, located, grew, named, rfl⟩ | ⟨t, k, j, σ, id, c, pos, i, lost, fresh, rfl, rest⟩)
        · exact ⟨e, rfl, .unlocated closed located.withCall grew named rfl⟩
        · exact ⟨_, rfl, .startLost closed fresh.withCall lost rest.1 rest.2.1 rest.2.2⟩

end Scene

end Tcslog
