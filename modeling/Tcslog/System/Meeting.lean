import Tcslog.Read.Outcomes
import Tcslog.Write.Disk

/-!
# A reader meets a log

A reader that lists a directory begins before the first record of the log in
it.  Records are counted from the first of the log, in the order they were
written.
-/

namespace Tcslog

open Lib.Program Lib.Spanned

/-! ## Counting the records of a log -/

namespace Log

/-- All records of a log, in the order they were written. -/
def records (L : Log) : List Record :=
  L.strands.flatMap Strand.records

/-- The number of records before a place, of those `f` picks of each strand. -/
def rankBy (f : Strand → List Record) (L : Log) (p : ℕ ×ₗ ℕ) : Nat :=
  ((L.strands.take (ofLex p).1).flatMap f).length + (ofLex p).2

/-- The number of records before a place. -/
def rank (L : Log) (p : ℕ ×ₗ ℕ) : Nat :=
  L.rankBy Strand.records p

variable {L : Log} {f : Strand → List Record} {k i : Nat} {σ : Strand} {record : Record}

/-- A record of a strand stands behind those of the strands before. -/
theorem getElem?_rankBy (strandAt : L.strands[k]? = some σ) (recordAt : (f σ)[i]? = some record) :
    (L.strands.flatMap f)[L.rankBy f (place k i)]? = some record := by
  suffices ∀ strands : List Strand, strands[k]? = some σ →
      (strands.flatMap f)[((strands.take k).flatMap f).length + i]? = some record from
    this L.strands strandAt
  clear strandAt
  intro strands at_
  induction strands generalizing k with
  | nil => simp at at_
  | cons τ strands ih =>
      cases k with
      | zero =>
          obtain rfl : τ = σ := by simpa using at_
          simp [List.getElem?_append_left (List.getElem?_eq_some_iff.mp recordAt).1, recordAt]
      | succ k =>
          have later := ih (by simpa using at_)
          rw [← later, List.take_succ_cons, List.flatMap_cons, List.flatMap_cons, List.length_append,
            Nat.add_assoc, List.getElem?_append_right (Nat.le_add_right _ _), Nat.add_sub_cancel_left]

theorem rankBy_le_of_lt {k' : Nat} (i' : Nat) (strandAt : L.strands[k]? = some σ) (lt : k < k') :
    L.rankBy f (place k (f σ).length) ≤ L.rankBy f (place k' i') := by
  obtain ⟨less, rfl⟩ := List.getElem?_eq_some_iff.mp strandAt
  have more : (L.strands.take (k + 1)).flatMap f <+: (L.strands.take k').flatMap f := by
    obtain ⟨rest, split⟩ := List.take_prefix_take_left (l := L.strands) lt
    exact ⟨rest.flatMap f, by rw [← split, List.flatMap_append]⟩
  have le := more.length_le
  rw [List.take_succ_eq_append_getElem less, List.flatMap_append, List.flatMap_singleton,
    List.length_append] at le
  simp only [rankBy, place, ofLex_toLex]
  omega

/-- Records that come later in the log have the greater number. -/
theorem rankBy_lt {q : ℕ ×ₗ ℕ} (strandAt : L.strands[k]? = some σ) (index : i < (f σ).length)
    (lt : place k i < q) : L.rankBy f (place k i) < L.rankBy f q := by
  obtain ⟨k', i', rfl⟩ := exists_place q
  rcases place_lt_place.mp lt with less | ⟨rfl, less⟩
  · have := rankBy_le_of_lt (f := f) i' strandAt less
    simp only [rankBy, place, ofLex_toLex] at this ⊢
    omega
  · simp only [rankBy, place, ofLex_toLex]
    omega

/-- Every record that `f` picks has a place. -/
theorem exists_rankBy {n : Nat} (there : (L.strands.flatMap f)[n]? = some record) :
    ∃ k i σ, L.strands[k]? = some σ ∧ (f σ)[i]? = some record ∧ L.rankBy f (place k i) = n := by
  suffices ∀ (strands : List Strand) (n : Nat), (strands.flatMap f)[n]? = some record →
      ∃ k i σ, strands[k]? = some σ ∧ (f σ)[i]? = some record ∧
        ((strands.take k).flatMap f).length + i = n from this L.strands n there
  clear there
  intro strands n at_
  induction strands generalizing n with
  | nil => simp at at_
  | cons σ strands ih =>
      rw [List.flatMap_cons] at at_
      rcases Nat.lt_or_ge n (f σ).length with here | later
      · rw [List.getElem?_append_left here] at at_
        exact ⟨0, n, σ, rfl, at_, by simp⟩
      · rw [List.getElem?_append_right later] at at_
        obtain ⟨k, i, τ, strandAt, recordAt, count⟩ := ih _ at_
        refine ⟨k + 1, i, τ, strandAt, recordAt, ?_⟩
        rw [List.take_succ_cons, List.flatMap_cons, List.length_append]
        omega

theorem records_rank {p : ℕ ×ₗ ℕ} (there : L.recordAt p = some record) :
    L.records[L.rank p]? = some record := by
  obtain ⟨σ, strandAt, recordAt⟩ := Option.bind_eq_some_iff.mp there
  exact getElem?_rankBy strandAt recordAt

theorem rank_lt {p q : ℕ ×ₗ ℕ} (there : L.recordAt p = some record) (lt : p < q) :
    L.rank p < L.rank q := by
  obtain ⟨k, i, rfl⟩ := exists_place p
  obtain ⟨σ, strandAt, recordAt⟩ := Option.bind_eq_some_iff.mp there
  exact rankBy_lt strandAt (List.getElem?_eq_some_iff.mp recordAt).1 lt

end Log

theorem Tells.map {ι κ : Type} {at_ : ι → Option Record} {at' : κ → Option Record} {f : ι → κ}
    {outcome : Outcome} {told : Option ι} (tells : Tells at_ outcome told)
    (moves : ∀ {p record}, at_ p = some record → at' (f p) = some record) :
    Tells at' outcome (told.map f) := by
  cases tells with
  | whole there => exact .whole (moves there)
  | front there error less => exact .front (moves there) error less
  | silent noBytes notOverflow => exact .silent noBytes notOverflow

theorem Tells.there {ι : Type} {at_ : ι → Option Record} {outcome : Outcome} {p : ι}
    (tells : Tells at_ outcome (some p)) : ∃ record, at_ p = some record := by
  cases tells with
  | whole there => exact ⟨_, there⟩
  | front there => exact ⟨_, there⟩

/-! ## The reader's scene -/

/-- The content is the front of the log's file of that name, with all of its
header. -/
def Log.Shows (L : Log) (id : SegId) (content : Bytes) : Prop :=
  ∃ k j σ c, L.FileAt k j σ id ∧ c ≤ (σ.data j).length ∧
    content = (σ.file j id).take (segmentFileHeaderLen + c)

/-- Every file of a log is refused or shows a front of what the log holds. -/
def Presents (files : SegId → Option Bytes) (L : Log) : Prop :=
  ∀ {id content}, files id = some content → validate id content = none ∨ L.Shows id content

/-- The scene of a reader that listed `listed` and then meets a log in the
directory. -/
def sceneOf (L : Log) (env : ReadEnv) (listed : Dir) (namePrefix nameSuffix : Bytes)
    (presents : ∀ t, Presents ((env.dir t).files namePrefix nameSuffix) L) : Scene where
  env := env
  log := L
  namePrefix := namePrefix
  nameSuffix := nameSuffix
  listing := scanSegmentIds listed namePrefix nameSuffix
  sorted := scanSegmentIds_sorted listed namePrefix nameSuffix
  shows _ present := presents _ present

/-- A reader that made no call yet has dealt with no record. -/
theorem LogRead.Begins.ready {L : Log} {env : ReadEnv} {listed : Dir} {namePrefix nameSuffix : Bytes}
    (presents : ∀ t, Presents ((env.dir t).files namePrefix nameSuffix) L) {log : LogRead}
    (begins : log.Begins listed namePrefix nameSuffix) :
    (sceneOf L env listed namePrefix nameSuffix presents).Ready log.begin 0 0 := by
  have closed : log.begin.current = none := begins.current
  have pending : log.begin.pending = scanSegmentIds listed namePrefix nameSuffix := begins.pending
  refine ⟨.closed ⟨⟨begins.namePrefix, begins.nameSuffix⟩, ?_, closed, ?_⟩, ?_, ?_⟩
  · rw [pending]
    exact List.suffix_rfl
  · intro hint hinted
    exact absurd (begins.recovery.symm.trans hinted) (by simp)
  · intro id mem k j σ fileAt
    rcases Nat.eq_zero_or_pos k with rfl | later
    · exact .inr ⟨rfl, fun i less => absurd less (Nat.not_lt_zero i)⟩
    · exact .inl later
  · intro k i σ strandAt index later
    rw [Scene.held_of_closed closed, pending]
    by_cases listedFile : ∃ id ∈ scanSegmentIds listed namePrefix nameSuffix,
        L.FileAt k (σ.start i / σ.dataSection) σ id
    · exact .inr listedFile
    · refine .inl (Scene.lost_of_hidden_start index fun id idAt => .inl fun mem => ?_)
      exact listedFile ⟨id, mem, strandAt, idAt⟩

end Tcslog
