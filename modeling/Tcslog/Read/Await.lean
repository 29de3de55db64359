import Tcslog.Read.Step
import Mathlib.Data.Prod.Lex

/-!
# What a reader has dealt with, and what is still to come

The records of a log are ordered by strand, then within the strand, and a
reader deals with them in that order.  Of the records from its mark on, each
that was not denied it begins in one of the files it still holds.
-/

namespace Tcslog

open Lib.Program Lib.Spanned

/-- Record `i` of strand `k`, in the order of the log. -/
def place (k i : Nat) : ℕ ×ₗ ℕ :=
  toLex (k, i)

@[simp]
theorem place_le_place {k i k' i' : Nat} :
    place k i ≤ place k' i' ↔ k < k' ∨ k = k' ∧ i ≤ i' :=
  Prod.Lex.toLex_le_toLex

@[simp]
theorem place_lt_place {k i k' i' : Nat} :
    place k i < place k' i' ↔ k < k' ∨ k = k' ∧ i < i' :=
  Prod.Lex.toLex_lt_toLex

namespace Scene

variable {S : Scene}

/-- The files a reader still holds: the open one and those it has yet to
open. -/
def held (s : ReadState) : List SegId :=
  (s.current.map Segment.id).toList ++ s.pending

theorem Open.held {s : ReadState} {k j c pos : Nat} {σ : Strand} {id : SegId}
    (isOpen : S.Open s k j σ id c pos) : held s = id :: s.pending := by
  simp [Scene.held, isOpen.current, opened]

theorem held_of_closed {s : ReadState} (closed : s.current = none) : held s = s.pending := by
  simp [held, closed]

/-- Every record before record `i` of strand `k` begins before these files. -/
def Ahead (S : Scene) (ids : List SegId) (k i : Nat) : Prop :=
  ∀ id ∈ ids, ∀ k' j σ, S.log.FileAt k' j σ id →
    k < k' ∨ k = k' ∧ ∀ i', i' < i → σ.start i' < j * σ.dataSection

/-- No record from record `i` of strand `k` on begins in what the reader saw of
the file. -/
def Spent (S : Scene) (ops : List ReadOp) (k i : Nat) (id : SegId) : Prop :=
  S.Missed ops id ∨ ∃ k' j σ c, S.Measured ops id k' j σ c ∧
    ∀ i', i' < σ.records.length → place k i ≤ place k' i' → j * σ.dataSection ≤ σ.start i' →
      j * σ.dataSection + c ≤ σ.start i'

/-- Of the records from record `i` of strand `k` on, each that was not denied
the reader begins in one of these files. -/
def Await (S : Scene) (ops : List ReadOp) (ids : List SegId) (k i : Nat) : Prop :=
  ∀ k' i' σ, S.log.strands[k']? = some σ → i' < σ.records.length → place k i ≤ place k' i' →
    S.Lost ops k' σ i' ∨ ∃ id ∈ ids, S.log.FileAt k' (σ.start i' / σ.dataSection) σ id

theorem Ahead.mono {ids ids' : List SegId} {k i : Nat} (ahead : S.Ahead ids k i)
    (sub : ∀ id ∈ ids', id ∈ ids) : S.Ahead ids' k i :=
  fun id mem => ahead id (sub id mem)

theorem lost_of_hidden_start {ops : List ReadOp} {k i : Nat} {σ : Strand}
    (index : i < σ.records.length) (hidden : S.Hidden ops k σ (σ.start i)) : S.Lost ops k σ i :=
  ⟨σ.start i, Nat.le_refl _, Strand.start_lt (Nat.lt_succ_self i) index, hidden⟩

/-- A record that begins in a spent file was denied the reader. -/
theorem Spent.lost {ops : List ReadOp} {k i k' i' : Nat} {σ : Strand} {id : SegId}
    (spent : S.Spent ops k i id) (fileAt : S.log.FileAt k' (σ.start i' / σ.dataSection) σ id)
    (index : i' < σ.records.length) (later : place k i ≤ place k' i') : S.Lost ops k' σ i' := by
  refine lost_of_hidden_start index fun id' idAt => ?_
  obtain rfl : id = id' := Option.some.inj (fileAt.idAt.symm.trans idAt)
  rcases spent with missed | ⟨k'', j, τ, c, measured, beyond⟩
  · exact .inr (.inl missed)
  · obtain ⟨rfl, rfl, rfl⟩ := fileAt.unique measured.fileAt
    have split := Nat.div_add_mod (σ.start i') σ.dataSection
    rw [Nat.mul_comm] at split
    have after := beyond i' index later (by omega)
    exact .inr (.inr ⟨c, by omega, measured⟩)

/-- Files may be given up once they are spent. -/
theorem Await.step {ops ops' : List ReadOp} {ids ids' : List SegId} {k i k' i' : Nat}
    (await : S.Await ops ids k i) (grew : ops <+: ops') (forward : place k i ≤ place k' i')
    (spent : ∀ id ∈ ids, id ∈ ids' ∨ S.Spent ops' k' i' id) : S.Await ops' ids' k' i' := by
  intro k'' i'' σ strandAt index later
  rcases await k'' i'' σ strandAt index (forward.trans later) with lost | ⟨id, mem, fileAt⟩
  · exact .inl (lost.mono grew)
  · rcases spent id mem with still | gone
    · exact .inr ⟨id, still, fileAt⟩
    · exact .inl (gone.lost fileAt index later)

/-- A record that is passed by was denied the reader. -/
theorem Await.lost {ops : List ReadOp} {ids : List SegId} {k i k₁ i₁ k' i' : Nat} {σ : Strand}
    (await : S.Await ops ids k i) (ahead : S.Ahead ids k₁ i₁)
    (strandAt : S.log.strands[k']? = some σ) (index : i' < σ.records.length)
    (later : place k i ≤ place k' i') (before : place k' i' < place k₁ i₁) :
    S.Lost ops k' σ i' := by
  refine (await k' i' σ strandAt index later).resolve_right ?_
  rintro ⟨id, mem, fileAt⟩
  have begins := ahead id mem _ _ _ fileAt
  rw [place_lt_place] at before
  rcases begins with less | ⟨rfl, starts⟩
  · omega
  · have := Nat.div_mul_le_self (σ.start i') σ.dataSection
    have := starts i' (by omega)
    omega

/-! ## Giving up files -/

theorem Missed.spent {ops : List ReadOp} {id : SegId} (missed : S.Missed ops id) (k i : Nat) :
    S.Spent ops k i id :=
  .inl missed

/-- The files before the one found were missed. -/
theorem Found.spent {ops : List ReadOp} {pending rest : List SegId} {id : SegId} {k j c : Nat}
    {σ : Strand} (found : S.Found ops pending id rest k j σ c) (k₀ i₀ : Nat) :
    ∀ p ∈ pending, p ∈ id :: rest ∨ S.Spent ops k₀ i₀ p := by
  obtain ⟨⟨front, rfl, missed⟩, _⟩ := found
  intro p mem
  rcases List.mem_append.mp mem with before | after
  · exact .inr ((missed p before).spent _ _)
  · exact .inl after

/-- No record begins in what a file owes. -/
theorem start_of_owed {σ : Strand} {j i : Nat} (within : j < σ.ids.length)
    (after : j * σ.dataSection ≤ σ.start i) :
    j * σ.dataSection + owed σ.blocks (j * σ.dataSection) ≤ σ.start i := by
  obtain ⟨i₁, _, place, first⟩ := exists_offset_eq_add_owed σ.blocks (σ.page_start_le_flatten within)
  have le : i₁ ≤ i := by
    refine Nat.le_of_not_lt fun less => ?_
    have := first i less
    unfold Strand.start at after
    omega
  rw [← place]
  exact Strand.start_mono le

theorem spent_of_covered {ops : List ReadOp} {id : SegId} {k j c : Nat} {σ : Strand}
    (measured : S.Measured ops id k j σ c) (covered : c ≤ owed σ.blocks (j * σ.dataSection))
    (k₀ i₀ : Nat) : S.Spent ops k₀ i₀ id := by
  refine .inr ⟨k, j, σ, c, measured, fun i' _ _ after => ?_⟩
  have := start_of_owed measured.fileAt.lt after
  omega

theorem PassesOver.spent {ops : List ReadOp} {search search' : Search}
    (past : S.PassesOver ops search search') (k₀ i₀ : Nat) :
    ∀ p ∈ search.pending, p ∈ search'.pending ∨ S.Spent ops k₀ i₀ p := by
  induction past with
  | refl => exact fun p mem => .inl mem
  | past opens covered _ ih =>
      intro p mem
      rcases opens.found.spent k₀ i₀ p mem with after | spent
      · rcases List.mem_cons.mp after with rfl | later
        · exact .inr (spent_of_covered opens.found.measured covered k₀ i₀)
        · exact ih p later
      · exact .inr spent

theorem PassesOver.suffix {ops : List ReadOp} {search search' : Search}
    (past : S.PassesOver ops search search') : search'.pending <:+ search.pending := by
  induction past with
  | refl => exact List.suffix_rfl
  | past opens _ _ ih => exact ih.trans ((List.suffix_cons _ _).trans opens.found.suffix)

/-- A file passed on the way was read to its end. -/
theorem Passes.passed {ops : List ReadOp} {k j c j' c' : Nat} {σ : Strand}
    {pending pending' : List SegId} {id : SegId}
    (passes : S.Passes ops k σ pending j c pending' j' c') (measured : S.Measured ops id k j σ c) :
    ∃ id', S.Measured ops id' k j' σ c' ∧ j ≤ j' ∧ ∀ p ∈ id :: pending,
      p ∈ id' :: pending' ∨ S.Missed ops p ∨ ∃ j₁ c₁, j₁ < j' ∧ S.Measured ops p k j₁ σ c₁ := by
  induction passes generalizing id with
  | refl => exact ⟨id, measured, Nat.le_refl _, fun p mem => .inl mem⟩
  | @next pending rest pending' id₁ j c j' c₁ c' full found more ih =>
      obtain ⟨id', measured', le, passed⟩ := ih found.measured
      refine ⟨id', measured', by omega, fun p mem => ?_⟩
      rcases List.mem_cons.mp mem with rfl | mem
      · exact .inr (.inr ⟨j, c, by omega, measured⟩)
      · obtain ⟨⟨front, rfl, missed⟩, _⟩ := found
        rcases List.mem_append.mp mem with before | after
        · exact .inr (.inl (missed p before))
        · exact passed p after

/-- The records of a strand from record `i` on begin at position `q` or
later. -/
def Beyond (σ : Strand) (q i : Nat) : Prop :=
  ∀ i', i ≤ i' → i' < σ.records.length → q ≤ σ.start i'

theorem beyond_of_le {σ : Strand} {q i : Nat} (le : q ≤ σ.start i) : Beyond σ q i :=
  fun _ later _ => le.trans (Strand.start_mono later)

theorem Beyond.mono {σ : Strand} {q q' i : Nat} (beyond : Beyond σ q i) (le : q' ≤ q) :
    Beyond σ q' i :=
  fun i' later index => le.trans (beyond i' later index)

theorem Measured.spent {ops : List ReadOp} {id : SegId} {k j c i : Nat} {σ : Strand}
    (measured : S.Measured ops id k j σ c) (beyond : Beyond σ (j * σ.dataSection + c) i) :
    S.Spent ops k i id := by
  refine .inr ⟨k, j, σ, c, measured, fun i' index later _ => beyond i' ?_ index⟩
  rw [place_le_place] at later
  omega

theorem Spent.mono {ops ops' : List ReadOp} {k i : Nat} {id : SegId} (spent : S.Spent ops k i id)
    (grew : ops <+: ops') : S.Spent ops' k i id := by
  rcases spent with missed | ⟨k', j, σ, c, measured, beyond⟩
  · exact .inl (missed.mono grew)
  · exact .inr ⟨k', j, σ, c, measured.mono grew, beyond⟩

/-- Files passed hold no record from here on. -/
theorem spent_of_passed {ops : List ReadOp} {k j₁ c₁ j' i : Nat} {σ : Strand} {p : SegId}
    (measured : S.Measured ops p k j₁ σ c₁) (passed : j₁ < j')
    (beyond : Beyond σ (j' * σ.dataSection) i) : S.Spent ops k i p := by
  have shown := measured.within.trans (σ.length_data_le j₁)
  have next : (j₁ + 1) * σ.dataSection ≤ j' * σ.dataSection := Nat.mul_le_mul_right _ passed
  rw [Nat.succ_mul] at next
  exact measured.spent (beyond.mono (by omega))

end Scene

end Tcslog
