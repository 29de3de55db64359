import Tcslog.Read.Await

/-!
# Every call accounts for records in order

A call deals with some records in a row: at most one of them its outcome
identifies, and the others were denied the reader.
-/

namespace Tcslog

open Lib.Program Lib.Spanned

/-- The record at a place of a log. -/
def Log.recordAt (L : Log) (p : ℕ ×ₗ ℕ) : Option Record :=
  L.strands[(ofLex p).1]?.bind fun σ => σ.records[(ofLex p).2]?

theorem Log.recordAt_place {L : Log} {k i : Nat} {σ : Strand} (strandAt : L.strands[k]? = some σ) :
    L.recordAt (place k i) = σ.records[i]? := by
  simp [recordAt, place, strandAt]

theorem exists_place (p : ℕ ×ₗ ℕ) : ∃ k i, p = place k i :=
  ⟨(ofLex p).1, (ofLex p).2, rfl⟩

/-- What an outcome tells of the records at some places: a whole record, a
proper front of a record's payload, or nothing of any record. -/
inductive Tells {ι : Type} (recordAt : ι → Option Record) : Outcome → Option ι → Prop
  | whole {p : ι} {record : Record} (there : recordAt p = some record) :
      Tells recordAt (.record record.payload record.metadata) (some p)
  | front {p : ι} {record : Record} {e : LogError} {n : Nat} (there : recordAt p = some record)
      (error : e = .readOverflow n ∨ 0 < n ∧ ∃ lost, e = .readTruncated lost n)
      (less : n < record.payload.length) :
      Tells recordAt (.failed e (record.payload.take n)) (some p)
  | silent {e : LogError} (noBytes : e.placed = 0) (notOverflow : ∀ n, e ≠ .readOverflow n) :
      Tells recordAt (.failed e []) none

/-- What a caller sees of a call that ended with a result. -/
def outcomeOf (result : Except LogError ReadResult) (dst : Bytes) : Outcome :=
  match result with
  | .ok result => .record (dst.take result.n) result.metadata
  | .error e => .failed e (dst.take e.placed)

namespace Scene

variable {S : Scene}

/-- A record was denied the reader. -/
def LostAt (S : Scene) (ops : List ReadOp) (p : ℕ ×ₗ ℕ) : Prop :=
  ∃ σ, S.log.strands[(ofLex p).1]? = some σ ∧ S.Lost ops (ofLex p).1 σ (ofLex p).2

theorem LostAt.mono {ops ops' : List ReadOp} {p : ℕ ×ₗ ℕ} (lost : S.LostAt ops p)
    (grew : ops <+: ops') : S.LostAt ops' p := by
  obtain ⟨σ, strandAt, lost⟩ := lost
  exact ⟨σ, strandAt, lost.mono grew⟩

/-- An outcome and the records from `p` up to `p'` that it deals with: all but
the one it tells of were denied the reader, or too long for the buffer. -/
structure Dealt (S : Scene) (ops : List ReadOp) (long : Record → Prop) (p : ℕ ×ₗ ℕ) (outcome : Outcome)
    (told : Option (ℕ ×ₗ ℕ)) (p' : ℕ ×ₗ ℕ) : Prop where
  tells : Tells S.log.recordAt outcome told
  forward : p ≤ p'
  within : ∀ q, told = some q → p ≤ q ∧ q < p'
  /-- What is told of was seen, and a whole record had been stored. -/
  seen : ∀ k i, told = some (place k i) → ∃ id j σ c, S.Measured ops id k j σ c ∧
    ∀ payload metadata, outcome = .record payload metadata → σ.start (i + 1) ≤ σ.stored
  others : ∀ q record, p ≤ q → q < p' → S.log.recordAt q = some record →
    S.LostAt ops q ∨ long record ∨
      told = some q ∧ outcome = .record record.payload record.metadata
  overflow : ∀ n bytes, outcome = .failed (.readOverflow n) bytes →
    ∃ q record, S.log.recordAt q = some record ∧ long record

/-- Between two calls, the records before record `i` of strand `k` being dealt
with. -/
structure Ready (S : Scene) (s : ReadState) (k i : Nat) : Prop where
  between : S.Between s k i
  ahead : S.Ahead s.pending k i
  await : S.Await s.ops (held s) k i

/-! ## Files after the open one -/

theorem Open.after {s : ReadState} {k j c pos k' j' : Nat} {σ τ : Strand} {id p : SegId}
    (isOpen : S.Open s k j σ id c pos) (mem : p ∈ s.pending) (fileAt : S.log.FileAt k' j' τ p) :
    k < k' ∨ k = k' ∧ j < j' :=
  (isOpen.measured.fileAt.id_lt_iff fileAt).mp
    (List.rel_of_pairwise_cons (S.sorted.sublist isOpen.suffix.sublist) mem)

/-- The files after the open one lie beyond every record that begins before
the open file's data section may end. -/
theorem Open.ahead {s : ReadState} {k j c pos i : Nat} {σ : Strand} {id : SegId}
    (isOpen : S.Open s k j σ id c pos) (begun : σ.start i < (j + 1) * σ.dataSection) :
    S.Ahead s.pending k (i + 1) := by
  intro p mem k' j' τ fileAt
  rcases isOpen.after mem fileAt with less | ⟨rfl, less⟩
  · exact .inl less
  · obtain rfl := Option.some.inj (fileAt.strandAt.symm.trans isOpen.measured.fileAt.strandAt)
    refine .inr ⟨rfl, fun i' le => ?_⟩
    have earlier := Strand.start_mono (σ := τ) (Nat.le_of_lt_succ le)
    have later : (j + 1) * τ.dataSection ≤ j' * τ.dataSection := Nat.mul_le_mul_right _ less
    omega

/-! ## A record that fails -/

/-- The reader gave up record `i`, and the file it was reading. -/
structure GaveUp (S : Scene) (t : ReadState) (k : Nat) (σ : Strand) (id : SegId) (i : Nat)
    (s' : ReadState) : Prop where
  grew : t.ops <+: s'.ops
  suffix : s'.pending <:+ t.pending
  lost : i < σ.records.length → S.Lost s'.ops k σ i
  spent : ∀ p ∈ id :: t.pending, p ∈ s'.pending ∨ S.Spent s'.ops k (i + 1) p
  ahead : S.Ahead s'.pending k (i + 1)
  closed : S.Closed s'.losePosition k (i + 1)

theorem Found.missed_or {ops : List ReadOp} {pending rest : List SegId} {id : SegId} {k j c : Nat}
    {σ : Strand} (found : S.Found ops pending id rest k j σ c) :
    ∀ p ∈ pending, p ∈ id :: rest ∨ S.Missed ops p := by
  obtain ⟨⟨front, rfl, missed⟩, _⟩ := found
  intro p mem
  rcases List.mem_append.mp mem with before | after
  · exact .inr (missed p before)
  · exact .inl after

/-- What a broken crossing makes of the files left. -/
structure Left (S : Scene) (m : ReadState) (k j : Nat) (σ : Strand) (c : Nat) (s' : ReadState) :
    Prop where
  suffix : s'.pending <:+ m.pending
  missed : ∀ p ∈ m.pending, p ∈ s'.pending ∨ S.Missed s'.ops p
  notNext : c = σ.dataSection → ∀ p ∈ s'.pending, ¬ S.log.FileAt k (j + 1) σ p

/-- The file a crossing meets in vain is not the next one, and no later one is. -/
theorem Found.notNext {m : ReadState} {ops : List ReadOp} {rest : List SegId} {id id' : SegId}
    {k j k' j' c c' pos : Nat} {σ τ : Strand} (isOpen : S.Open m k j σ id c pos)
    (found : S.Found ops m.pending id' rest k' j' τ c') (differs : ¬ (k' = k ∧ j' = j + 1)) :
    ∀ p ∈ id' :: rest, ¬ S.log.FileAt k (j + 1) σ p := by
  have mem : id' ∈ m.pending := found.suffix.mem (by simp)
  have after := isOpen.after mem found.measured.fileAt
  have sorted : (id' :: rest).Pairwise (· < ·) :=
    S.sorted.sublist ((found.suffix.trans ((List.suffix_cons _ _).trans isOpen.suffix)).sublist)
  intro p memRest fileAt
  rcases List.mem_cons.mp memRest with rfl | later
  · obtain ⟨rfl, rfl, _⟩ := fileAt.unique found.measured.fileAt
    exact differs ⟨rfl, rfl⟩
  · have := (found.measured.fileAt.id_lt_iff fileAt).mp (List.rel_of_pairwise_cons sorted later)
    omega

theorem Broke.left {m s' : ReadState} {k j c i y pos : Nat} {σ : Strand} {id : SegId} {e : LogError}
    (isOpen : S.Open m k j σ id c pos) (broke : S.Broke m k j σ c i y e s') :
    S.Left m k j σ c s' := by
  cases broke.cause with
  | ended missed pending session recovery =>
      refine ⟨?_, fun p mem => .inr (missed p mem), ?_⟩ <;> simp [pending]
  | @boundary _ _ id' rest k' j' τ c' found differs pending session recovery error =>
      refine ⟨pending ▸ found.suffix, pending ▸ found.missed_or, fun _ => ?_⟩
      rw [pending]
      refine found.notNext isOpen fun same => differs ?_
      obtain ⟨rfl, _⟩ := same
      rw [Option.some.inj (found.measured.fileAt.strandAt.symm.trans isOpen.measured.fileAt.strandAt)]
  | rejected found same denied pending session recovery =>
      refine ⟨pending ▸ found.suffix, pending ▸ found.missed_or, fun full => ?_⟩
      rw [pending]
      exact found.notNext isOpen fun next => denied ⟨next.1, next.2, full⟩

theorem div_mod_page {σ : Strand} (j : Nat) {x : Nat} (inFile : x < σ.dataSection) :
    (j * σ.dataSection + x) / σ.dataSection = j ∧ (j * σ.dataSection + x) % σ.dataSection = x := by
  rw [Nat.mul_comm, Nat.mul_add_div σ.dataSection_pos, Nat.div_eq_of_lt inFile, Nat.mul_add_mod,
    Nat.mod_eq_of_lt inFile]
  exact ⟨rfl, rfl⟩

/-- What lies beyond where a file was measured is hidden. -/
theorem hidden_of_measured {ops : List ReadOp} {id : SegId} {k j c x : Nat} {σ : Strand}
    (measured : S.Measured ops id k j σ c) (beyond : c ≤ x) (inFile : x < σ.dataSection) :
    S.Hidden ops k σ (j * σ.dataSection + x) := by
  obtain ⟨div, mod⟩ := div_mod_page j inFile
  intro id' idAt
  rw [div] at idAt
  obtain rfl := Option.some.inj (measured.fileAt.idAt.symm.trans idAt)
  rw [div, mod]
  exact .inr (.inr ⟨c, beyond, measured⟩)

/-- What a missed file holds is hidden. -/
theorem hidden_of_missed {ops : List ReadOp} {id : SegId} {k j x : Nat} {σ : Strand}
    (fileAt : S.log.FileAt k j σ id) (missed : S.Missed ops id) (inFile : x < σ.dataSection) :
    S.Hidden ops k σ (j * σ.dataSection + x) := by
  intro id' idAt
  rw [(div_mod_page j inFile).1] at idAt
  obtain rfl := Option.some.inj (fileAt.idAt.symm.trans idAt)
  exact .inr (.inl missed)

theorem Broke.hidden {m s' : ReadState} {k j c i y : Nat} {σ : Strand} {id : SegId} {e : LogError}
    (isOpen : S.Open m k j σ id c c) (broke : S.Broke m k j σ c i y e s') :
    S.Hidden s'.ops k σ (j * σ.dataSection + c) := by
  have left := broke.left isOpen
  have whole := isOpen.measured.within.trans (σ.length_data_le j)
  rcases Nat.lt_or_eq_of_le whole with short | full
  · exact hidden_of_measured (isOpen.measured.mono broke.carried.asked) (Nat.le_refl c) short
  · -- The byte is the first of the next file, which was not found.
    rw [full, ← Nat.succ_mul]
    intro id' idAt
    rw [Nat.mul_div_cancel _ σ.dataSection_pos] at idAt
    have fileAt : S.log.FileAt k (j + 1) σ id' := ⟨isOpen.measured.fileAt.strandAt, idAt⟩
    by_cases listed : id' ∈ S.listing
    · have later : id < id' := (isOpen.measured.fileAt.id_lt_iff fileAt).mpr (.inr ⟨rfl, by omega⟩)
      have mem : id' ∈ m.pending := by
        obtain ⟨front, split⟩ := isOpen.suffix
        have sorted := S.sorted
        rw [← split] at listed sorted
        rcases List.mem_append.mp listed with before | after
        · have := (List.pairwise_append.mp sorted).2.2 id' before id (by simp)
          exact absurd later (UInt64.lt_asymm this)
        · rcases List.mem_cons.mp after with rfl | after
          · exact absurd later (UInt64.lt_irrefl _)
          · exact after
      rcases left.missed id' mem with still | missed
      · exact absurd fileAt (left.notNext full id' still)
      · exact .inr (.inl missed)
    · exact .inl listed

/-- The files passed on the way to where the reader is now hold none of the
records to come. -/
theorem Reached.spent {t m : ReadState} {k j c pos i i₁ j' c' pos' y : Nat} {σ : Strand}
    {id id' : SegId} (isOpen : S.Open t k j σ id c pos)
    (reached : S.Reached t k j σ c i m j' id' c' pos' y)
    (beyond : Beyond σ (j' * σ.dataSection) i₁) :
    ∀ p ∈ id :: t.pending, p ∈ id' :: m.pending ∨ S.Spent m.ops k i₁ p := by
  obtain ⟨id₁, measured, _, passed⟩ :=
    reached.passes.passed (isOpen.measured.mono reached.carried.asked)
  have same : id₁ = id' :=
    Option.some.inj (measured.fileAt.idAt.symm.trans reached.mid.measured.fileAt.idAt)
  subst same
  intro p mem
  rcases passed p mem with still | missed | ⟨j₁, c₁, less, measured₁⟩
  · exact .inl still
  · exact .inr (missed.spent _ _)
  · exact .inr (spent_of_passed measured₁ less beyond)

theorem Reached.suffix {t m : ReadState} {k j c i j' c' pos' y : Nat} {σ : Strand} {id' : SegId}
    (reached : S.Reached t k j σ c i m j' id' c' pos' y) : m.pending <:+ t.pending :=
  reached.passes.suffix

theorem closed_of_noHint {s : ReadState} {k i : Nat} (named : S.Named s)
    (suffix : s.pending <:+ S.listing) (noHint : s.recovery = none) :
    S.Closed s.losePosition k i :=
  ⟨⟨named.namePrefix, named.nameSuffix⟩, suffix, rfl, fun hint told =>
    absurd (noHint.symm.trans told) (by simp)⟩

/-- The records after one that failed begin behind the failure. -/
theorem beyond_of_more {σ : Strand} {i y : Nat}
    (more : σ.start i + y < σ.start (i + 1) ∨ i = σ.records.length) :
    Beyond σ (σ.start i + y) (i + 1) := by
  intro i' later index
  rcases more with more | noMore
  · exact more.le.trans (Strand.start_mono later)
  · omega

/-- A record that failed was denied the reader, and the reader gave up the file
it was reading. -/
theorem Failed.gaveUp {t s' : ReadState} {k j c pos i y : Nat} {σ : Strand} {id : SegId}
    {e : LogError} (isOpen : S.Open t k j σ id c pos) (startLost : t.sessionStartLost = 0)
    (failed : S.Failed t k j σ c i y e s') : S.GaveUp t k σ id i s' := by
  cases failed with
  | @broke m _ _ j' id' c' reached more broke =>
      have mid := reached.mid
      have asked := broke.carried.asked
      have left := broke.left mid.toOpen
      have whole := mid.measured.within.trans (σ.length_data_le j')
      have place := mid.place
      have beyond : Beyond σ (j' * σ.dataSection + c') (i + 1) := place ▸ beyond_of_more more
      refine ⟨reached.carried.asked.trans asked, left.suffix.trans reached.suffix, ?_, ?_, ?_, ?_⟩
      · intro index
        have inRecord := more.resolve_right (Nat.ne_of_lt index)
        exact ⟨_, Nat.le_add_right _ y, inRecord, place ▸ broke.hidden mid.toOpen⟩
      · intro p mem
        rcases reached.spent isOpen (beyond.mono (Nat.le_add_right _ _)) p mem with still | spent
        · rcases List.mem_cons.mp still with rfl | later
          · exact .inr ((mid.measured.mono asked).spent beyond)
          · exact (left.missed p later).imp_right fun missed => missed.spent _ _
        · exact .inr (spent.mono asked)
      · intro p mem k' j'' τ fileAt
        rcases mid.after (left.suffix.mem mem) fileAt with less | ⟨rfl, less⟩
        · exact .inl less
        · obtain rfl := Option.some.inj (fileAt.strandAt.symm.trans mid.measured.fileAt.strandAt)
          refine .inr ⟨rfl, fun i' le => ?_⟩
          have earlier := Strand.start_mono (σ := τ) (Nat.le_of_lt_succ le)
          have positive := τ.dataSection_pos
          rcases Nat.lt_or_eq_of_le whole with short | full
          · have later : (j' + 1) * τ.dataSection ≤ j'' * τ.dataSection :=
              Nat.mul_le_mul_right _ less
            rw [Nat.succ_mul] at later
            omega
          · -- The next file is not among those left.
            have notNext : j'' ≠ j' + 1 := fun next => left.notNext full p mem (next ▸ fileAt)
            have later : (j' + 2) * τ.dataSection ≤ j'' * τ.dataSection :=
              Nat.mul_le_mul_right _ (by omega)
            rw [Nat.add_mul] at later
            omega
      · refine ⟨⟨broke.named.namePrefix, broke.named.nameSuffix⟩,
          left.suffix.trans ((List.suffix_cons _ _).trans mid.suffix), rfl, fun hint told => ?_⟩
        refine ⟨(broke.carried.sessionStartLost.trans reached.carried.sessionStartLost).trans
          startLost, ?_⟩
        cases broke.cause with
        | ended missed pending session recovery => exact absurd (recovery.symm.trans told) (by simp)
        | boundary found differs pending session recovery error =>
            exact absurd (recovery.symm.trans told) (by simp)
        | rejected found same denied pending session recovery =>
            obtain ⟨rfl, hints⟩ := recovery hint told
            exact ⟨_, _, _, found.measured.fileAt, session.trans (same ▸ rfl), hints⟩
  | @denied m _ j' id' c' pos' reached denied =>
      have mid := denied.mid
      have asked := denied.refused.asked
      have same := asked.toLogRead_eq
      have place := mid.place
      have before := denied.before
      have pending : s'.pending = m.pending := congrArg LogRead.pending same
      have beyond : Beyond σ (j' * σ.dataSection + pos') (i + 1) :=
        place ▸ beyond_of_more denied.more
      have begun : σ.start i < (j' + 1) * σ.dataSection := by
        rw [Nat.succ_mul]
        omega
      refine ⟨reached.carried.asked.trans asked.asked, pending ▸ reached.suffix, ?_, ?_, ?_, ?_⟩
      · intro index
        have inRecord := denied.more.resolve_right (Nat.ne_of_lt index)
        refine ⟨_, Nat.le_add_right _ y, inRecord, place ▸ ?_⟩
        exact hidden_of_missed mid.measured.fileAt denied.refused.missed before
      · intro p mem
        rw [pending]
        rcases reached.spent isOpen (beyond.mono (Nat.le_add_right _ _)) p mem with still | spent
        · rcases List.mem_cons.mp still with rfl | later
          · exact .inr (denied.refused.missed.spent _ _)
          · exact .inl later
        · exact .inr (spent.mono asked.asked)
      · rw [pending]
        exact mid.toOpen.ahead begun
      · refine closed_of_noHint ?_ ?_ ?_
        · exact mid.named.of_onlyAsked asked
        · exact pending ▸ (List.suffix_cons _ _).trans mid.suffix
        · exact (congrArg LogRead.recovery same).trans mid.noHint

/-! ## A record that is read -/

/-- The reader stands between records again. -/
structure Finished (S : Scene) (t : ReadState) (k : Nat) (σ : Strand) (id : SegId) (i : Nat)
    (s' : ReadState) : Prop where
  grew : t.ops <+: s'.ops
  suffix : s'.pending <:+ t.pending
  rest : ∃ j' id' c' pos', S.AtRest s' k j' σ id' c' pos' (i + 1) ∧ c' ≤ (σ.data j').length ∧
    ∀ p ∈ id :: t.pending, p ∈ id' :: s'.pending ∨ S.Spent s'.ops k (i + 1) p
  ahead : S.Ahead s'.pending k (i + 1)
  stored : σ.start (i + 1) ≤ σ.stored

theorem Reached.finished {t s' : ReadState} {k j c pos i j' c' pos' y : Nat} {σ : Strand}
    {id id' : SegId} {record : Record} (isOpen : S.Open t k j σ id c pos)
    (synced : t.resync = false) (startLost : t.sessionStartLost = 0)
    (recordAt : σ.records[i]? = some record)
    (reached : S.Reached t k j σ c i s' j' id' c' pos' y)
    (done : σ.start i + y = σ.start (i + 1)) : S.Finished t k σ id i s' := by
  have mid := reached.mid
  have index := (List.getElem?_eq_some_iff.mp recordAt).1
  have place : j' * σ.dataSection + pos' = σ.start (i + 1) := mid.place.trans done
  have posLe := mid.posLe
  have within := mid.measured.within
  have whole := σ.length_data_le j'
  have nonempty : σ.start i < σ.start (i + 1) := Strand.start_lt (Nat.lt_succ_self i) index
  refine ⟨reached.carried.asked, reached.suffix, ⟨j', id', c', pos', ⟨mid.toOpen, place, index,
    List.ne_nil_of_length_pos (by omega), reached.carried.resync.trans synced,
    reached.carried.sessionStartLost.trans startLost⟩, within, ?_⟩, ?_, ?_⟩
  · exact reached.spent isOpen (beyond_of_le (by omega))
  · refine mid.toOpen.ahead ?_
    rw [Nat.succ_mul]
    omega
  · have := σ.page_start_le mid.measured.fileAt.lt
    rw [σ.length_data] at within
    omega

end Scene

end Tcslog
