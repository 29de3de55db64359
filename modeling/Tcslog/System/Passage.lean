import Tcslog.System.Remains
import Mathlib.Data.List.Induction

/-!
# Reading on and passing over

Whether a reader reads in a file or passes it over is settled by the files up to
it: it reads where a record begins in what is left of the file, and where a file
in which it reads goes on there.
-/

namespace Tcslog

/-- The file comes before the other in the log. -/
def Fragment.Before (f g : Fragment) : Prop :=
  f.k < g.k ∨ f.k = g.k ∧ f.j < g.j

namespace Fragment

variable (fs : List Fragment)

/-- A reader reads in the file: a record begins in what is left of it, or a file
in which it reads goes on there. -/
inductive Reads : Fragment → Prop
  | offers {f : Fragment} (mem : f ∈ fs) (offers : f.Offers) : Reads f
  | on {f g : Fragment} (reads : Reads f) (next : [f, g] <:+: fs) (goesOn : f.Precedes g ∨ f.Restores g) :
      Reads g

/-- Of the session the first file is left, or a record begins in one that is. -/
def Begun (k : Nat) : Prop :=
  ∃ g ∈ fs, g.k = k ∧ (g.j = 0 ∨ g.Offers)

end Fragment

namespace Stage

/-- Where the reader is after these files. -/
def after (stage : Stage) (fs : List Fragment) : Stage :=
  fs.foldl (fun stage h => (stage.step h).2) stage

end Stage

/-! ## Behind some of the files -/

namespace Fragment

variable {e f g h : Fragment} {fs : List Fragment}

theorem Before.le (before : f.Before g) : f.k ≤ g.k := by
  rcases before with less | ⟨same, _⟩
  · exact less.le
  · exact same.le

/-- In order, the last file comes behind the others. -/
theorem before_last (sorted : (fs ++ [h]).Pairwise Before) (mem : g ∈ fs) : g.Before h :=
  (List.pairwise_append.mp sorted).2.2 g mem h (List.mem_singleton_self h)

theorem last_not_mem (sorted : (fs ++ [h]).Pairwise Before) : h ∉ fs := by
  intro mem
  have := before_last sorted mem
  rw [Before] at this
  omega

theorem le_last (sorted : (fs ++ [h]).Pairwise Before) (mem : g ∈ fs ++ [h]) : g.k ≤ h.k := by
  rcases List.mem_append.mp mem with inFront | isLast
  · exact (before_last sorted inFront).le
  · exact (List.mem_singleton.mp isLast) ▸ Nat.le_refl _

theorem eq_last (suffix : [e] <:+ fs ++ [f]) : e = f := by
  obtain ⟨front, split⟩ := suffix
  exact List.singleton_inj.mp (List.append_inj' split rfl).2

theorem pair_infix_concat : [f, g] <:+: fs ++ [h] ↔ [f, g] <:+: fs ∨ [f] <:+ fs ∧ g = h := by
  rw [List.infix_concat_iff, List.suffix_concat_iff, or_comm]
  refine or_congr_right ⟨?_, ?_⟩
  · rintro (impossible | ⟨front, split, suffix⟩)
    · contradiction
    · obtain ⟨rfl, same⟩ := List.append_inj' (show [f] ++ [g] = front ++ [h] from split) rfl
      exact ⟨suffix, List.singleton_inj.mp same⟩
  · rintro ⟨suffix, rfl⟩
    exact .inr ⟨[f], rfl, suffix⟩

theorem Reads.mem (reads : Reads fs f) : f ∈ fs := by
  cases reads with
  | offers mem => exact mem
  | on _ next => exact next.subset (by simp)

/-- Whether a reader reads in a file is settled by the files up to it. -/
theorem reads_concat_iff (new : h ∉ fs) : Reads (fs ++ [h]) f ↔
    Reads fs f ∨ f = h ∧ (h.Offers ∨ ∃ e, [e] <:+ fs ∧ Reads fs e ∧ (e.Precedes h ∨ e.Restores h)) := by
  constructor
  · intro reads
    induction reads with
    | @offers f mem offers =>
        rcases List.mem_append.mp mem with inFront | isLast
        · exact .inl (.offers inFront offers)
        · obtain rfl := List.mem_singleton.mp isLast
          exact .inr ⟨rfl, .inl offers⟩
    | @on f g reads next goesOn ih =>
        rcases pair_infix_concat.mp next with inFront | ⟨suffix, rfl⟩
        · have readsThere := ih.resolve_right fun isLast => new (isLast.1 ▸ inFront.subset (by simp))
          exact .inl (.on readsThere inFront goesOn)
        · have readsThere := ih.resolve_right fun isLast => new (isLast.1 ▸ suffix.subset (by simp))
          exact .inr ⟨rfl, .inr ⟨f, suffix, readsThere, goesOn⟩⟩
  · have grow {f : Fragment} (reads : Reads fs f) : Reads (fs ++ [h]) f := by
      induction reads with
      | offers mem offers => exact .offers (List.mem_append_left _ mem) offers
      | on _ next goesOn ih => exact .on ih (pair_infix_concat.mpr (.inl next)) goesOn
    rintro (reads | ⟨rfl, offers | ⟨e, suffix, reads, goesOn⟩⟩)
    · exact grow reads
    · exact .offers (by simp) offers
    · exact .on (grow reads) (pair_infix_concat.mpr (.inr ⟨suffix, rfl⟩)) goesOn

theorem reads_append_iff {rest : List Fragment} (sorted : (fs ++ rest).Pairwise Before) (mem : f ∈ fs) :
    Reads (fs ++ rest) f ↔ Reads fs f := by
  induction rest using List.reverseRecOn with
  | nil => rw [List.append_nil]
  | append_singleton rest h ih =>
      rw [← List.append_assoc] at sorted ⊢
      have new := last_not_mem sorted
      have front := List.mem_append_left rest mem
      rw [reads_concat_iff new, ih (List.pairwise_append.mp sorted).1, or_iff_left]
      rintro ⟨rfl, _⟩
      exact new front

/-- Where a reader reads, a record begins in what is left of the session. -/
theorem Reads.exists_offers (reads : Reads fs f) : ∃ g ∈ fs, g.k = f.k ∧ g.Offers := by
  induction reads with
  | offers mem offers => exact ⟨_, mem, rfl, offers⟩
  | on _ _ goesOn ih =>
      obtain ⟨e, mem, same, offers⟩ := ih
      refine ⟨e, mem, same.trans ?_, offers⟩
      rcases goesOn with precedes | restores
      · exact precedes.1.symm
      · exact restores.2.1.symm

end Fragment

namespace Stage

open Fragment

variable {f h : Fragment} {stage : Stage} {fs : List Fragment}

theorem enter_reading_iff {ahead : Nat} : (h.enter ahead).2 = reading h ↔ h.Offers := by
  by_cases offers : h.Offers
  · simp [enter_of_offers offers, offers]
  · simp [enter_of_covered offers, offers]

/-- A reader reads in a file if a record begins in it, or it goes on there from
the file before. -/
theorem step_reading_iff (between : ∀ f, stage ≠ broken f) : (stage.step h).2 = reading h ↔
    h.Offers ∨ ∃ f, stage = reading f ∧ (f.Precedes h ∨ f.Restores h) := by
  cases stage with
  | start => simpa [step] using enter_reading_iff
  | broken f => exact absurd rfl (between f)
  | seeking f ahead =>
      rw [step]
      split
      · simpa using enter_reading_iff
      · simpa [change, tellFirst] using enter_reading_iff
  | reading f =>
      by_cases precedes : f.Precedes h
      · simp [step, precedes]
      by_cases same : h.k = f.k
      · by_cases restores : f.Restores h
        · simp [step, same, precedes, tellFirst, Fragment.resume, restores]
        · simpa [step, same, precedes, tellFirst, Fragment.resume, restores] using enter_reading_iff
      · have apart : ¬ f.Restores h := fun restores => same restores.2.1
        simpa [step, same, precedes, tellFirst, change, apart] using enter_reading_iff

/-- Files lost ahead of a session are told of where a record of it begins. -/
theorem ahead_of_step {ahead : Nat} (between : ∀ f, stage ≠ broken f)
    (passed : (stage.step h).2 = seeking h ahead) :
    ahead = if stage.fragment.any (·.k = h.k) then stage.ahead else h.j := by
  have enters {n : Nat} (passed : (h.enter n).2 = seeking h ahead) : ahead = n := by
    rcases enter_cases h n with isNext | isNext
    · rw [isNext] at passed
      contradiction
    · rw [isNext] at passed
      exact (Stage.seeking.inj passed).2.symm
  cases stage with
  | start => exact enters passed
  | broken f => exact absurd rfl (between f)
  | seeking f n =>
      by_cases same : h.k = f.k
      · rw [step, if_pos same] at passed
        rw [enters passed, if_pos (by simp [fragment, same])]
        rfl
      · rw [step, if_neg same] at passed
        rw [enters passed, if_neg (by simpa [fragment] using Ne.symm same)]
  | reading f =>
      by_cases precedes : f.Precedes h
      · rw [step, if_pos precedes] at passed
        contradiction
      by_cases same : h.k = f.k
      · rw [step, if_neg precedes, if_pos same, tellFirst, Fragment.resume] at passed
        split at passed
        · contradiction
        · rw [enters passed, if_pos (by simp [fragment, same])]
          rfl
      · rw [step, if_neg precedes, if_neg same] at passed
        rw [enters passed, if_neg (by simpa [fragment] using Ne.symm same)]

theorem after_concat (stage : Stage) (fs : List Fragment) (h : Fragment) :
    stage.after (fs ++ [h]) = ((stage.after fs).step h).2 := by
  rw [after, List.foldl_append]
  rfl

/-- All that is told is told at one of the files or at the end. -/
theorem mem_retell {refused : Bool} {outcome : Outcome} : outcome ∈ stage.retell refused fs ↔
    (∃ front h rest, fs = front ++ h :: rest ∧ outcome ∈ ((stage.after front).step h).1) ∨
      outcome ∈ (stage.after fs).last refused := by
  induction fs generalizing stage with
  | nil => simp [retell, after]
  | cons f fs ih =>
      rw [retell, List.mem_append, ih, ← or_assoc]
      refine or_congr_left ⟨?_, ?_⟩
      · rintro (here | ⟨front, h, rest, rfl, there⟩)
        · exact ⟨[], f, fs, rfl, here⟩
        · exact ⟨f :: front, h, rest, rfl, there⟩
      · rintro ⟨front, h, rest, split, told⟩
        cases front with
        | nil =>
            obtain ⟨rfl, rfl⟩ := List.cons.inj split
            exact .inl told
        | cons e front =>
            obtain ⟨rfl, rfl⟩ := List.cons.inj split
            exact .inr ⟨front, h, rest, rfl, told⟩

/-- What is known of a reader behind these files, the last of which is `f`. -/
structure Behind (fs : List Fragment) (f : Fragment) (stage : Stage) : Prop where
  last : stage = reading f ∨ ∃ ahead, stage = seeking f ahead
  reads : stage = reading f ↔ Reads fs f
  ahead : ∀ ahead, stage = seeking f ahead → (ahead = 0 ↔ Begun fs f.k)

theorem Behind.between (behind : Behind fs f stage) (g : Fragment) : stage ≠ broken g := by
  rcases behind.last with rfl | ⟨ahead, rfl⟩
  · simp
  · simp

theorem Behind.fragment_eq (behind : Behind fs f stage) : stage.fragment = some f := by
  rcases behind.last with rfl | ⟨ahead, rfl⟩
  · rfl
  · rfl

theorem behind_first (h : Fragment) : Behind [h] h (start.after [h]) := by
  have reads : (start.step h).2 = reading h ↔ Reads [h] h := by
    rw [step_reading_iff (by simp), ← List.nil_append [h], reads_concat_iff (by simp)]
    have nothing : ¬ Reads [] h := fun reads => absurd reads.mem (by simp)
    simp [nothing]
  refine ⟨start.step_cases h, reads, fun ahead passed => ?_⟩
  have covered : ¬ h.Offers := fun offers => by
    rw [show start.after [h] = (start.step h).2 from rfl, reads.mpr (.offers (by simp) offers)] at passed
    contradiction
  rw [ahead_of_step (by simp) passed]
  simp [fragment, Begun, covered]

/-- What is known behind some files is known behind one more. -/
theorem Behind.step (behind : Behind fs f stage) (isLast : [f] <:+ fs)
    (sorted : (fs ++ [h]).Pairwise Before) : Behind (fs ++ [h]) h (stage.step h).2 := by
  obtain ⟨front, rfl⟩ := isLast
  have sortedFront := (List.pairwise_append.mp sorted).1
  have new := last_not_mem sorted
  have here : f.Before h := before_last sorted (by simp)
  have reads : (stage.step h).2 = reading h ↔ Reads (front ++ [f] ++ [h]) h := by
    rw [step_reading_iff behind.between, reads_concat_iff new]
    have nothing : ¬ Reads (front ++ [f]) h := fun reads => new reads.mem
    simp only [nothing, true_and, false_or]
    refine or_congr_right ⟨?_, ?_⟩
    · rintro ⟨g, rfl, goesOn⟩
      obtain rfl := Option.some.inj behind.fragment_eq
      exact ⟨g, List.suffix_append _ _, behind.reads.mp rfl, goesOn⟩
    · rintro ⟨e, suffix, readsThere, goesOn⟩
      obtain rfl := eq_last suffix
      exact ⟨e, behind.reads.mpr readsThere, goesOn⟩
  refine ⟨stage.step_cases h, reads, fun ahead passed => ?_⟩
  have covered : ¬ h.Offers := fun offers => by
    rw [reads.mpr (.offers (by simp) offers)] at passed
    contradiction
  rw [ahead_of_step behind.between passed, behind.fragment_eq]
  by_cases same : f.k = h.k
  · have later : f.j < h.j := by
      rw [Before] at here
      omega
    rw [if_pos (by simp [same])]
    have inFront : Begun (front ++ [f] ++ [h]) h.k ↔ Begun (front ++ [f]) f.k := by
      constructor
      · rintro ⟨g, mem, sameK, begun⟩
        rcases List.mem_append.mp mem with inFront | isLast
        · exact ⟨g, inFront, sameK.trans same.symm, begun⟩
        · obtain rfl := List.mem_singleton.mp isLast
          exact absurd (begun.resolve_right covered) (by omega)
      · rintro ⟨g, mem, sameK, begun⟩
        exact ⟨g, List.mem_append_left _ mem, sameK.trans same, begun⟩
    rw [inFront]
    rcases behind.last with rfl | ⟨n, rfl⟩
    · obtain ⟨g, mem, sameK, offers⟩ := (behind.reads.mp rfl).exists_offers
      exact iff_of_true rfl ⟨g, mem, sameK, .inr offers⟩
    · exact behind.ahead n rfl
  · rw [if_neg (by simpa using same)]
    constructor
    · intro isFirst
      exact ⟨h, by simp, rfl, .inl isFirst⟩
    · rintro ⟨g, mem, sameK, begun⟩
      rcases List.mem_append.mp mem with inFront | isLast
      · have le := le_last sortedFront inFront
        have := here.le
        omega
      · obtain rfl := List.mem_singleton.mp isLast
        exact begun.resolve_right covered

theorem behind_after (sorted : (fs ++ [h]).Pairwise Before) : Behind (fs ++ [h]) h (start.after (fs ++ [h])) := by
  induction fs using List.reverseRecOn generalizing h with
  | nil => exact behind_first h
  | append_singleton fs f ih =>
      rw [after_concat]
      exact (ih (sorted.sublist (List.sublist_append_left _ _))).step (List.suffix_append _ _) sorted

theorem begun_concat {k : Nat} (other : h.k ≠ k) : Begun (fs ++ [h]) k ↔ Begun fs k := by
  constructor
  · rintro ⟨g, mem, same, begun⟩
    rcases List.mem_append.mp mem with inFront | isLast
    · exact ⟨g, inFront, same, begun⟩
    · exact absurd ((List.mem_singleton.mp isLast) ▸ same) other
  · rintro ⟨g, mem, same, begun⟩
    exact ⟨g, List.mem_append_left _ mem, same, begun⟩

end Stage

end Tcslog
