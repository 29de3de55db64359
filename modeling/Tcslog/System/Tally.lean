import Tcslog.Read.Headers
import Tcslog.System.Retold
import Mathlib.Algebra.BigOperators.Group.Finset.Basic

/-!
# How many lost files are reported

The headers of the files that are left of a session prove how many of its files
are missing.  A reader tells of those missing in front of a file it comes to
reading on, and of those ahead of a session once a record of it begins; of the
others it says nothing.
-/

namespace Tcslog

/-- How many files an outcome reports lost. -/
def Outcome.lost : Outcome → Nat
  | .failed (.readTruncated lost _) _ => lost
  | _ => 0

/-- How many files are reported lost altogether. -/
def lostIn (outcomes : List Outcome) : Nat :=
  (outcomes.map Outcome.lost).sum

namespace Fragment

variable (fs : List Fragment)

/-- The sessions of which files are left. -/
def sessions : Finset Nat :=
  (fs.map Fragment.k).toFinset

/-- The highest sequence that is left of a session. -/
def highest (k : Nat) : Nat :=
  ((fs.filter (·.k = k)).map Fragment.j).foldr max 0

/-- How many files the headers of those that are left prove to be missing: of
each session one more than its highest sequence, less those that are left. -/
def missing : Nat :=
  ∑ k ∈ sessions fs, (highest fs k + 1) - fs.length

/-- A reader tells of every file missing: each gap comes after a file in which it
reads, and each session is begun. -/
structure Announced : Prop where
  between : ∀ f g, [f, g] <:+: fs → g.k = f.k → f.j + 1 < g.j → Reads fs f
  begun : ∀ f ∈ fs, Begun fs f.k

end Fragment

namespace Stage

/-- How many files are missing in front of a file, given the file before. -/
def gap : Option Fragment → Fragment → Nat
  | some f, h => if h.k = f.k then h.j - (f.j + 1) else h.j
  | none, h => h.j

/-- How many files are missing in front of these files. -/
def gaps (before : Option Fragment) : List Fragment → Nat
  | [] => 0
  | h :: rest => gap before h + gaps (some h) rest

/-- How many lost files are not told of at the next file, nor later. -/
def unsaid : Stage → Fragment → Nat
  | seeking f ahead, h => if h.k = f.k then h.j - (f.j + 1) else ahead
  | _, _ => 0

/-- How many lost files are not told of at these files, nor later. -/
def unsaidIn : Stage → List Fragment → Nat
  | _, [] => 0
  | stage, h :: rest => stage.unsaid h + unsaidIn (stage.step h).2 rest

end Stage

/-! ## The ledger -/

section Ledger

@[simp]
theorem lostIn_nil : lostIn [] = 0 :=
  rfl

@[simp]
theorem lostIn_cons (outcome : Outcome) (outcomes : List Outcome) :
    lostIn (outcome :: outcomes) = outcome.lost + lostIn outcomes :=
  List.sum_cons

@[simp]
theorem lostIn_append (outcomes more : List Outcome) :
    lostIn (outcomes ++ more) = lostIn outcomes + lostIn more := by
  rw [lostIn, List.map_append, List.sum_append]
  rfl

namespace Stage

variable {f h : Fragment} {stage : Stage} {fs : List Fragment} {refused : Bool}

@[simp]
theorem ahead_reading (f : Fragment) : (reading f).ahead = 0 :=
  rfl

@[simp]
theorem ahead_seeking (f : Fragment) (ahead : Nat) : (seeking f ahead).ahead = ahead :=
  rfl

@[simp]
theorem lostIn_tells (f : Fragment) (i : Nat) : lostIn (f.tells i) = 0 := by
  rw [lostIn, Fragment.tells, List.map_map, List.sum_eq_zero]
  intro n mem
  obtain ⟨record, _, rfl⟩ := List.mem_map.mp mem
  rfl

@[simp]
theorem lost_cutShort (f : Fragment) (lost : Nat) : (f.cutShort lost).lost = lost :=
  rfl

/-- Where a file is entered, what was lost ahead is told of or still to be told
of. -/
theorem lostIn_enter (h : Fragment) (ahead : Nat) :
    lostIn (h.enter ahead).1 + (h.enter ahead).2.ahead = ahead := by
  by_cases offers : h.Offers
  · rw [Fragment.enter_of_offers offers, lostIn_append, lostIn_tells]
    rcases Nat.eq_zero_or_pos ahead with rfl | some
    · rfl
    · rw [if_pos some]
      rfl
  · rw [Fragment.enter_of_covered offers]
    exact Nat.zero_add _

theorem lostIn_resume (f h : Fragment) : lostIn (f.resume h).1 + (f.resume h).2.ahead = 0 := by
  rw [Fragment.resume]
  split
  · rw [lostIn_tells]
    rfl
  · exact lostIn_enter h 0

/-- At every file, what is told of and what goes unsaid is what is missing in
front of it. -/
theorem lostIn_step (between : ∀ f, stage ≠ broken f) (h : Fragment) :
    lostIn (stage.step h).1 + stage.unsaid h + (stage.step h).2.ahead =
      gap stage.fragment h + stage.ahead := by
  have changes : lostIn (change h).1 + (change h).2.ahead = h.j :=
    (congrArg (· + _) (Nat.zero_add _)).trans (lostIn_enter h h.j)
  cases stage with
  | start => exact lostIn_enter h h.j
  | broken f => exact absurd rfl (between f)
  | seeking f ahead =>
      have enters := lostIn_enter h ahead
      by_cases same : h.k = f.k
      · simp only [step, unsaid, fragment, gap, ahead_seeking, if_pos same]
        omega
      · simp only [step, unsaid, fragment, gap, ahead_seeking, if_neg same]
        omega
  | reading f =>
      have resumes := lostIn_resume f h
      by_cases precedes : f.Precedes h
      · have next := precedes.2.1
        simp only [step, unsaid, fragment, gap, if_pos precedes, if_pos precedes.1, lostIn_tells,
          ahead_reading]
        omega
      by_cases same : h.k = f.k
      · simp only [step, unsaid, fragment, gap, tellFirst, if_neg precedes, if_pos same, lostIn_append,
          lostIn_cons, lost_cutShort, lostIn_nil, ahead_reading]
        omega
      · have torn : lostIn (if f.Torn then [f.cutShort 0] else []) = 0 := by split <;> rfl
        simp only [step, unsaid, fragment, gap, tellFirst, if_neg precedes, if_neg same, lostIn_append, torn,
          ahead_reading]
        omega

theorem step_ne_broken (stage : Stage) (h g : Fragment) : (stage.step h).2 ≠ broken g := by
  rcases stage.step_cases h with isNext | ⟨ahead, isNext⟩
  · simp [isNext]
  · simp [isNext]

theorem fragment_step (stage : Stage) (h : Fragment) : (stage.step h).2.fragment = some h := by
  rcases stage.step_cases h with isNext | ⟨ahead, isNext⟩
  · rw [isNext, fragment]
  · rw [isNext, fragment]

theorem lostIn_last (stage : Stage) : lostIn (stage.last refused) = 0 := by
  cases stage with
  | reading f => rw [last]; split <;> rfl
  | start | broken f | seeking f ahead => rfl

/-- Of all files, what is told of and what goes unsaid is what is missing. -/
theorem lostIn_retell (between : ∀ f, stage ≠ broken f) (fs : List Fragment) :
    lostIn (stage.retell refused fs) + stage.unsaidIn fs + (stage.after fs).ahead =
      gaps stage.fragment fs + stage.ahead := by
  induction fs generalizing stage with
  | nil =>
      rw [retell, lostIn_last, unsaidIn, gaps]
      rfl
  | cons h rest ih =>
      have here := lostIn_step between h
      have there := ih (step_ne_broken stage h)
      rw [fragment_step] at there
      rw [retell, unsaidIn, gaps, lostIn_append]
      change _ + ((stage.step h).2.after rest).ahead = _
      omega

end Stage

end Ledger

/-! ## The missing files -/

namespace Fragment

variable {f g h : Fragment} {fs rest : List Fragment}

theorem mem_sessions {k : Nat} : k ∈ sessions fs ↔ ∃ f ∈ fs, f.k = k := by
  rw [sessions, List.mem_toFinset, List.mem_map]

theorem sessions_cons (f : Fragment) (fs : List Fragment) : sessions (f :: fs) = insert f.k (sessions fs) := by
  rw [sessions, List.map_cons, List.toFinset_cons, sessions]

theorem highest_cons_of_eq (f : Fragment) (fs : List Fragment) :
    highest (f :: fs) f.k = max f.j (highest fs f.k) := by
  rw [highest, List.filter_cons_of_pos (by simp), List.map_cons, List.foldr_cons, highest]

theorem highest_cons_of_ne {k : Nat} (other : f.k ≠ k) (fs : List Fragment) :
    highest (f :: fs) k = highest fs k := by
  rw [highest, List.filter_cons_of_neg (by simpa using other), highest]

theorem le_highest (mem : f ∈ fs) : f.j ≤ highest fs f.k := by
  induction fs with
  | nil => contradiction
  | cons g fs ih =>
      rcases List.mem_cons.mp mem with rfl | inRest
      · rw [highest_cons_of_eq]
        exact Nat.le_max_left _ _
      · by_cases same : g.k = f.k
        · have le := ih inRest
          rw [← same, highest_cons_of_eq, same]
          exact le.trans (Nat.le_max_right _ _)
        · rw [highest_cons_of_ne same]
          exact ih inRest

theorem highest_of_not_mem {k : Nat} (none : k ∉ sessions fs) : highest fs k = 0 := by
  have empty : fs.filter (·.k = k) = [] := by
    rw [List.filter_eq_nil_iff]
    intro f mem same
    exact none (mem_sessions.mpr ⟨f, mem, of_decide_eq_true same⟩)
  rw [highest, empty]
  rfl

/-- Files that are in order leave gaps where files are missing. -/
theorem sum_highest (sorted : (f :: fs).Pairwise Before) :
    ∑ k ∈ sessions (f :: fs), (highest (f :: fs) k + 1) =
      f.j + Stage.gaps (some f) fs + (f :: fs).length := by
  induction fs generalizing f with
  | nil => simp [sessions, highest, Stage.gaps]
  | cons h rest ih =>
      obtain ⟨first, sorted⟩ := List.pairwise_cons.mp sorted
      have there := ih sorted
      rw [sessions_cons, Stage.gaps, Stage.gap, List.length_cons (a := f)]
      rcases first h List.mem_cons_self with less | ⟨same, less⟩
      · have new : f.k ∉ sessions (h :: rest) := by
          intro mem
          obtain ⟨g, inRest, same⟩ := mem_sessions.mp mem
          have le : h.k ≤ g.k := by
            rcases List.mem_cons.mp inRest with rfl | later
            · exact Nat.le_refl _
            · exact ((List.pairwise_cons.mp sorted).1 g later).le
          omega
        rw [Finset.sum_insert new, highest_cons_of_eq, highest_of_not_mem new, if_neg (Nat.ne_of_gt less)]
        have others : ∑ k ∈ sessions (h :: rest), (highest (f :: h :: rest) k + 1) =
            ∑ k ∈ sessions (h :: rest), (highest (h :: rest) k + 1) := by
          refine Finset.sum_congr rfl fun k mem => ?_
          rw [highest_cons_of_ne fun same => new (same ▸ mem)]
        omega
      · have known : f.k ∈ sessions (h :: rest) := mem_sessions.mpr ⟨h, List.mem_cons_self, same.symm⟩
        rw [Finset.insert_eq_of_mem known, if_pos same.symm]
        have others : ∑ k ∈ sessions (h :: rest), (highest (f :: h :: rest) k + 1) =
            ∑ k ∈ sessions (h :: rest), (highest (h :: rest) k + 1) := by
          refine Finset.sum_congr rfl fun k mem => ?_
          by_cases here : f.k = k
          · have le : h.j ≤ highest (h :: rest) h.k := le_highest List.mem_cons_self
            rw [← here, highest_cons_of_eq, Nat.max_eq_right]
            rw [same]
            omega
          · rw [highest_cons_of_ne here]
        omega

theorem missing_eq_gaps (sorted : fs.Pairwise Before) : missing fs = Stage.gaps none fs := by
  cases fs with
  | nil => rfl
  | cons f fs =>
      rw [missing, sum_highest sorted, Nat.add_sub_cancel]
      rfl

end Fragment

/-! ## What goes unsaid -/

namespace Stage

open Fragment

variable {f h : Fragment} {stage : Stage} {fs : List Fragment}

theorem unsaidIn_concat (stage : Stage) (fs : List Fragment) (h : Fragment) :
    stage.unsaidIn (fs ++ [h]) = stage.unsaidIn fs + (stage.after fs).unsaid h := by
  induction fs generalizing stage with
  | nil => simp [unsaidIn, after]
  | cons f fs ih =>
      rw [List.cons_append, unsaidIn, unsaidIn, ih, Nat.add_assoc]
      rfl

/-- Nothing goes unsaid at the next file if its gap comes after a file in which
the reader reads, or its session does after one that is begun. -/
theorem Behind.unsaid_eq_zero_iff (behind : Behind fs f stage) : stage.unsaid h = 0 ↔
    (h.k = f.k → f.j + 1 < h.j → Reads fs f) ∧ (h.k ≠ f.k → Begun fs f.k) := by
  rcases behind.last with rfl | ⟨ahead, rfl⟩
  · have reads := behind.reads.mp rfl
    obtain ⟨g, mem, same, offers⟩ := reads.exists_offers
    exact iff_of_true rfl ⟨fun _ _ => reads, fun _ => ⟨g, mem, same, .inr offers⟩⟩
  · have notRead : ¬ Reads fs f := fun reads => by simpa using behind.reads.mpr reads
    by_cases same : h.k = f.k
    · simp only [unsaid, same, if_true, notRead, forall_const, imp_false, ne_eq, not_true_eq_false,
        false_implies, and_true]
      omega
    · simpa [unsaid, same] using behind.ahead ahead rfl

/-- Nothing goes unsaid at some files if each gap comes after a file in which the
reader reads, and each session but the last is begun. -/
theorem unsaidIn_eq_zero_iff (sorted : (fs ++ [h]).Pairwise Before) : start.unsaidIn (fs ++ [h]) = 0 ↔
    (∀ e g, [e, g] <:+: fs ++ [h] → g.k = e.k → e.j + 1 < g.j → Reads (fs ++ [h]) e) ∧
      ∀ e ∈ fs ++ [h], e.k ≠ h.k → Begun (fs ++ [h]) e.k := by
  induction fs using List.reverseRecOn generalizing h with
  | nil =>
      refine iff_of_true rfl ⟨fun e g next => ?_, fun e mem other => ?_⟩
      · have := next.length_le
        simp at this
      · exact absurd (congrArg Fragment.k (List.mem_singleton.mp mem)) other
  | append_singleton fs f ih =>
      have sortedFront := (List.pairwise_append.mp sorted).1
      have new := last_not_mem sorted
      have reads {e : Fragment} (mem : e ∈ fs ++ [f]) :
          Reads (fs ++ [f] ++ [h]) e ↔ Reads (fs ++ [f]) e := by
        rw [reads_concat_iff new, or_iff_left]
        rintro ⟨rfl, _⟩
        exact new mem
      have lastLe : f.k ≤ h.k := (before_last sorted (by simp)).le
      rw [unsaidIn_concat, Nat.add_eq_zero_iff, ih sortedFront, (behind_after sortedFront).unsaid_eq_zero_iff]
      constructor
      · rintro ⟨⟨between, others⟩, gap, begun⟩
        refine ⟨fun e g next same missing => ?_, fun e mem other => ?_⟩
        · rcases pair_infix_concat.mp next with inFront | ⟨suffix, rfl⟩
          · exact (reads (inFront.subset (by simp))).mpr (between e g inFront same missing)
          · obtain rfl := eq_last suffix
            exact (reads (by simp)).mpr (gap same missing)
        · have inFront : e ∈ fs ++ [f] := by
            rcases List.mem_append.mp mem with inFront | isLast
            · exact inFront
            · exact absurd (congrArg Fragment.k (List.mem_singleton.mp isLast)) other
          rw [begun_concat other.symm]
          by_cases same : e.k = f.k
          · exact same ▸ begun fun sameLast => other (same.trans sameLast.symm)
          · exact others e inFront same
      · rintro ⟨between, others⟩
        refine ⟨⟨fun e g next same missing => ?_, fun e mem other => ?_⟩, fun same missing => ?_, fun other => ?_⟩
        · exact (reads (next.subset (by simp))).mp
            (between e g (pair_infix_concat.mpr (.inl next)) same missing)
        · have le := le_last sortedFront mem
          have apart : h.k ≠ e.k := by omega
          exact (begun_concat apart).mp (others e (List.mem_append_left _ mem) apart.symm)
        · refine (reads (by simp)).mp (between f h (pair_infix_concat.mpr (.inr ⟨?_, rfl⟩)) same missing)
          exact List.suffix_append _ _
        · exact (begun_concat other).mp (others f (by simp) other.symm)

/-- Nothing goes unsaid if and only if all missing files are announced. -/
theorem announced_iff (sorted : fs.Pairwise Before) :
    start.unsaidIn fs = 0 ∧ (start.after fs).ahead = 0 ↔ Announced fs := by
  rcases List.eq_nil_or_concat fs with rfl | ⟨fs, f, rfl⟩
  · exact iff_of_true ⟨rfl, rfl⟩ ⟨fun _ _ next => by simp at next, by simp⟩
  · rw [List.concat_eq_append] at sorted ⊢
    have behind := behind_after sorted
    have last : (start.after (fs ++ [f])).ahead = 0 ↔ Begun (fs ++ [f]) f.k := by
      rcases behind.last with isReading | ⟨ahead, isSeeking⟩
      · obtain ⟨g, mem, same, offers⟩ := (behind.reads.mp isReading).exists_offers
        rw [isReading]
        exact iff_of_true rfl ⟨g, mem, same, .inr offers⟩
      · rw [isSeeking]
        exact behind.ahead ahead isSeeking
    rw [unsaidIn_eq_zero_iff sorted, last, and_assoc]
    constructor
    · rintro ⟨between, others, begun⟩
      refine ⟨between, fun e mem => ?_⟩
      by_cases same : e.k = f.k
      · exact same ▸ begun
      · exact others e mem same
    · rintro ⟨between, begun⟩
      exact ⟨between, fun e mem _ => begun e mem, begun f (by simp)⟩

end Stage

/-! ## Reading a damaged log -/

/-- Of the missing files as many are told of as there are if they are announced,
and never more. -/
theorem Fragment.lostIn_retell {fragments : List Fragment} (sorted : fragments.Pairwise Fragment.Before)
    (refused : Bool) : lostIn (Stage.start.retell refused fragments) ≤ Fragment.missing fragments ∧
      (lostIn (Stage.start.retell refused fragments) = Fragment.missing fragments ↔
        Fragment.Announced fragments) := by
  have ledger : lostIn (Stage.start.retell refused fragments) + _ + _ = _ :=
    Stage.lostIn_retell (by simp) fragments
  rw [show Stage.gaps Stage.start.fragment fragments = missing fragments from
    (missing_eq_gaps sorted).symm] at ledger
  rw [← Stage.announced_iff sorted]
  change _ = missing fragments + 0 at ledger
  omega

section Reading

variable {env : WriteEnv} {dir dir' : Dir} {lives : List Life} {namePrefix nameSuffix : Bytes}

/-- Reading what is left of a log reports no more files lost than the headers
prove to be missing, and just as many if and only if each gap in a session comes
after a file in which the reader reads and each session is begun. -/
theorem missing_files_reported (wrote : Wrote env dir lives namePrefix nameSuffix)
    (damaged : Damaged ((Trail.run env dir lives).files namePrefix nameSuffix)
      (dir'.files namePrefix nameSuffix))
    {isDir : Bool} (overflowChecks : Bool) {log : LogRead}
    (isNew : LogRead.new isDir (some dir') namePrefix nameSuffix = .ok log) {caps : Nat → Nat}
    (ample : Ample caps (Trail.run env dir lives).journal.records) :
    ∃ L, OnDisk ((Trail.run env dir lives).files namePrefix nameSuffix) L ∧
      Faithful L (Trail.run env dir lives).journal ∧
      ∃ fragments, L.Displayed (dir'.files namePrefix nameSuffix) log.pending fragments ∧
        ∃ outcomes last, ReadsToEof (.still dir' noFault overflowChecks) caps log.begin outcomes last ∧
          lostIn outcomes ≤ Fragment.missing fragments ∧
          (lostIn outcomes = Fragment.missing fragments ↔ Fragment.Announced fragments) := by
  obtain ⟨L, left⟩ := Trail.run_left wrote.leaves wrote.empty wrote.names wrote.clean
  obtain ⟨fragments, displayed, ⟨sorted, _⟩, _, reads⟩ :=
    left.faithful.reads left.disk damaged overflowChecks isNew
  obtain ⟨last, reads⟩ := reads caps (left.faithful.records ▸ ample)
  exact ⟨L, left.disk, left.faithful, fragments, displayed, _, last, reads, Fragment.lostIn_retell sorted _⟩

end Reading

theorem missing_files_reported_sample :
    ∃ L, OnDisk ((Trail.run Sample.env ∅ Sample.fillingRecords).files [] []) L ∧
      Faithful L (Trail.run Sample.env ∅ Sample.fillingRecords).journal ∧
      ∃ fragments, L.Displayed ((Sample.fillingWithout 1002).files [] []) [1010, 1017] fragments ∧
        ∃ outcomes last,
          ReadsToEof (.still (Sample.fillingWithout 1002) noFault true) (fun _ => 4)
            (Sample.reader [1010, 1017]).begin outcomes last ∧
          lostIn outcomes ≤ Fragment.missing fragments ∧
          (lostIn outcomes = Fragment.missing fragments ↔ Fragment.Announced fragments) :=
  missing_files_reported Sample.wroteFilling (Damaged.erase _ _ _ _) true
    (show LogRead.new true (some (Sample.fillingWithout 1002)) [] [] = .ok (Sample.reader [1010, 1017])
      by decide +kernel)
    (fun _ => (by decide +kernel : ∀ record ∈ (Trail.run Sample.env ∅ Sample.fillingRecords).journal.records,
      record.payload.length ≤ 4))

/-- With the file gone in which the only record begins, the file that is left has
sequence 1 and no loss is reported. -/
theorem loss_unreported :
    Wrote Sample.env ∅ Sample.spanningRecord [] [] ∧
      scanSegmentIds (Trail.run Sample.env ∅ Sample.spanningRecord).state.dir [] [] = [1002, 1009] ∧
      Sample.spanning.files [] [] 1002 = none ∧
      Sample.spanning.files [] [] 1009 = (Trail.run Sample.env ∅ Sample.spanningRecord).files [] [] 1009 ∧
      LogRead.new true (some Sample.spanning) [] [] = .ok (Sample.reader [1009]) ∧
      (acceptedHeaders (Sample.spanning.files [] []) [1009]).map SegmentHeader.sequence = [1] ∧
      ∃ last, ReadsToEof (.still Sample.spanning noFault true) (fun _ => 10) (Sample.reader [1009]).begin
        [] last := by
  refine ⟨Sample.wroteSpanning, ?_, ?_, ?_, ?_, ?_, _, ReadsToEof.nil (Prod.ext ?_ rfl)⟩
  · decide +kernel
  · decide +kernel
  · decide +kernel
  · decide +kernel
  · decide +kernel
  · decide +kernel

end Tcslog
