import Tcslog.Read.Script
import Tcslog.Write.Faithful

/-!
# The strands of an intact log as tapes

A session written without an error is one strand, and its files are a tape.  So
are its first files, which are all that a listing made earlier names.
-/

namespace Tcslog

open Lib.Spanned

namespace Strand

variable {σ : Strand} {m j : Nat} {id : SegId}

/-- The first `m` files of a strand. -/
def cut (σ : Strand) (m : Nat) (some : 0 < m) (within : m ≤ σ.ids.length) (tight : σ.Tight) : Tape where
  sessionId := σ.sessionId
  maxSize := σ.segSizeMax
  format := σ.format
  minor := versionMinor
  ids := σ.ids.take m
  records := σ.records
  stored := min σ.stored (m * σ.dataSection)
  room := Nat.lt_of_sub_pos σ.dataSection_pos
  readable := Nat.le_refl _
  formatValid := σ.formatValid
  nonempty := by
    apply List.ne_nil_of_length_pos
    rw [List.length_take]
    exact Nat.lt_min.mpr ⟨some, some.trans_le within⟩
  ascending := σ.ascending.sublist (List.take_sublist _ _)
  fits := fun record mem => (σ.fits record mem).fitsIn
  filled := by
    rw [List.length_take, Nat.min_eq_left within]
    refine Nat.le_min.mpr ⟨?_, Nat.mul_le_mul_right _ (Nat.sub_le _ _)⟩
    exact (Nat.mul_le_mul_right _ (Nat.sub_le_sub_right within 1)).trans σ.filled
  storedFits := by
    rw [List.length_take, Nat.min_eq_left within]
    exact Nat.min_le_right _ _
  storedLe := by
    rw [List.map_congr_left fun record _ => Record.encodeIn_versionMinor record]
    exact (Nat.min_le_left _ _).trans σ.storedLe
  tight := by
    rw [List.length_take, Nat.min_eq_left within,
      List.map_congr_left fun record _ => Record.encodeIn_versionMinor record]
    intro several
    have last := Nat.mul_le_mul_right σ.dataSection (Nat.sub_le_sub_right within 1)
    exact (last.trans_lt (tight (several.trans_le within))).trans_le σ.storedLe

section Cut

variable {some : 0 < m} {within : m ≤ σ.ids.length} {tight : σ.Tight}

theorem blocks_cut : (σ.cut m some within tight).blocks = σ.blocks :=
  List.map_congr_left fun record _ => Record.encodeIn_versionMinor record

theorem dataSection_cut : (σ.cut m some within tight).dataSection = σ.dataSection :=
  rfl

/-- A file holds the same whatever files there are after it. -/
theorem data_cut (less : j < m) : (σ.cut m some within tight).data j = σ.data j := by
  have next : (j + 1) * σ.dataSection ≤ m * σ.dataSection := Nat.mul_le_mul_right _ less
  rw [Nat.succ_mul] at next
  rw [Tape.data, blocks_cut, Strand.data, Strand.tape, dataSection_cut, page, page, List.drop_take,
    List.drop_take, List.take_take, List.take_take]
  congr 1
  change min σ.dataSection (min σ.stored (m * σ.dataSection) - j * σ.dataSection) = _
  omega

theorem file_cut (first : σ.firstSequence = 0) (less : j < m) :
    (σ.cut m some within tight).file j id = σ.file j id := by
  have header : (σ.cut m some within tight).header j id = σ.header j id := by
    rw [Tape.header, Strand.header, blocks_cut, first, Nat.zero_add]
    rfl
  rw [Tape.file, header, data_cut less, Strand.file]

theorem full_cut (full : σ.Full) (all : m = σ.ids.length) : (σ.cut m some within tight).Full := by
  rw [Tape.Full, blocks_cut, ← show σ.stored = σ.blocks.flatten.length from full]
  exact Nat.min_eq_left (all ▸ σ.storedFits)

end Cut

end Strand

/-! ## The first files of a log -/

/-- The tapes are the first files of these strands. -/
inductive Cuts : List Tape → List Strand → Prop
  | nil {strands : List Strand} : Cuts [] strands
  | last {σ : Strand} {m : Nat} {rest : List Strand} (some : 0 < m) (within : m ≤ σ.ids.length)
      (tight : σ.Tight) : Cuts [σ.cut m some within tight] (σ :: rest)
  | cons {σ : Strand} {tapes : List Tape} {rest : List Strand} (tight : σ.Tight) (more : Cuts tapes rest) :
      Cuts (σ.cut σ.ids.length (List.length_pos_of_ne_nil σ.nonempty) (Nat.le_refl _) tight :: tapes)
        (σ :: rest)

namespace Cuts

variable {tapes : List Tape} {strands : List Strand}

/-- So many of the first files can be cut off. -/
theorem exists_take (tight : ∀ σ ∈ strands, σ.Tight) (n : Nat) :
    ∃ tapes, Cuts tapes strands ∧ tapes.flatMap Tape.ids = (strands.flatMap Strand.ids).take n := by
  induction strands generalizing n with
  | nil => exact ⟨[], .nil, by simp⟩
  | cons σ rest ih =>
      by_cases none : n = 0
      · exact ⟨[], .nil, by simp [none]⟩
      · by_cases within : n ≤ σ.ids.length
        · refine ⟨_, .last (Nat.pos_of_ne_zero none) within (tight σ List.mem_cons_self), ?_⟩
          rw [List.flatMap_singleton, List.flatMap_cons, List.take_append_of_le_length within]
          rfl
        · obtain ⟨tapes, cuts, ids⟩ :=
            ih (fun τ mem => tight τ (List.mem_cons_of_mem _ mem)) (n - σ.ids.length)
          refine ⟨_, .cons (tight σ List.mem_cons_self) cuts, ?_⟩
          rw [List.flatMap_cons, ids, List.flatMap_cons, List.take_append,
            List.take_of_length_le (Nat.le_of_not_le within)]
          exact congrArg (· ++ _) List.take_length

/-- Each of the tapes is cut from a strand. -/
theorem exists_strand (cuts : Cuts tapes strands) : ∀ T ∈ tapes, ∃ σ ∈ strands,
    ∃ m some within tight, T = σ.cut m some within tight := by
  induction cuts with
  | nil => simp
  | @last σ m rest some within tight =>
      intro T mem
      exact ⟨σ, List.mem_cons_self, m, some, within, tight, List.mem_singleton.mp mem⟩
  | @cons σ tapes rest tight more ih =>
      intro T mem
      rcases List.mem_cons.mp mem with rfl | later
      · exact ⟨σ, List.mem_cons_self, _, _, _, tight, rfl⟩
      · obtain ⟨τ, memRest, isCut⟩ := ih T later
        exact ⟨τ, List.mem_cons_of_mem _ memRest, isCut⟩

/-- The records are those of the first strands. -/
theorem records_prefix (cuts : Cuts tapes strands) :
    tapes.map Tape.records <+: strands.map Strand.records := by
  induction cuts with
  | nil => exact List.nil_prefix
  | last some within tight => exact (List.prefix_cons_inj _).mpr List.nil_prefix
  | cons tight more ih => exact (List.prefix_cons_inj _).mpr ih

theorem sessions_prefix (cuts : Cuts tapes strands) :
    tapes.map Tape.sessionId <+: strands.map Strand.sessionId := by
  induction cuts with
  | nil => exact List.nil_prefix
  | last some within tight => exact (List.prefix_cons_inj _).mpr List.nil_prefix
  | cons tight more ih => exact (List.prefix_cons_inj _).mpr ih

/-- Only the last tape may be less than its strand. -/
theorem full_dropLast (cuts : Cuts tapes strands) (full : ∀ σ ∈ strands, σ.Full) :
    ∀ T ∈ tapes.dropLast, T.Full := by
  induction cuts with
  | nil => simp
  | last some within tight => simp
  | @cons σ tapes rest tight more ih =>
      intro T mem
      by_cases none : tapes = []
      · simp [none] at mem
      · rw [List.dropLast_cons_of_ne_nil none] at mem
        rcases List.mem_cons.mp mem with rfl | later
        · exact Strand.full_cut (full σ List.mem_cons_self) rfl
        · exact ih (fun τ memRest => full τ (List.mem_cons_of_mem _ memRest)) T later

/-- With all their files the tapes are the strands. -/
theorem whole (cuts : Cuts tapes strands) (full : ∀ σ ∈ strands, σ.Full)
    (all : tapes.flatMap Tape.ids = strands.flatMap Strand.ids) :
    tapes.map Tape.records = strands.map Strand.records ∧ ∀ T ∈ tapes, T.Full := by
  have none {rest : List Strand} (noIds : rest.flatMap Strand.ids = []) : rest = [] := by
    cases rest with
    | nil => rfl
    | cons τ rest => simp [τ.nonempty] at noIds
  induction cuts with
  | nil =>
      rw [none all.symm]
      simp
  | @last σ m rest some within tight =>
      rw [List.flatMap_singleton, List.flatMap_cons] at all
      have len := congrArg List.length all
      rw [List.length_append, show (σ.cut m some within tight).ids = σ.ids.take m from rfl,
        List.length_take] at len
      have noRest : rest = [] := none (List.eq_nil_of_length_eq_zero (by omega))
      rw [noRest]
      refine ⟨rfl, fun T mem => ?_⟩
      rw [List.mem_singleton.mp mem]
      exact Strand.full_cut (full σ List.mem_cons_self) (by omega)
  | @cons σ tapes rest tight more ih =>
      rw [List.flatMap_cons, List.flatMap_cons] at all
      obtain ⟨records, fullRest⟩ := ih (fun τ mem => full τ (List.mem_cons_of_mem _ mem))
        (List.append_inj_right all (congrArg List.length (List.take_length (l := σ.ids))))
      refine ⟨congrArg (σ.records :: ·) records, List.forall_mem_cons.mpr ⟨?_, fullRest⟩⟩
      exact Strand.full_cut (full σ List.mem_cons_self) rfl

end Cuts

end Tcslog
