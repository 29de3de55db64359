import Tcslog.Read.Buffers
import Tcslog.System.Passage
import Tcslog.System.Retelling

/-!
# Reading what is left of a log

Of a log from which anything was taken away a reader tells what is told of the
files that are left, as far as its buffers go, and then that the log ends.
-/

namespace Tcslog

/-- What readers with these buffers are told where one with room for any record
is told the outcomes. -/
def clipped (caps : Nat → Nat) (outcomes : List Outcome) : List Outcome :=
  outcomes.mapIdx fun i outcome => outcome.clip (caps i)

theorem Outcome.clip_eq_eof {cap : Nat} {outcome : Outcome} (isEof : outcome.clip cap = .failed .eof []) :
    outcome = .failed .eof [] := by
  cases outcome with
  | record payload metadata =>
      rw [clip] at isEof
      split at isEof <;> simp at isEof
  | failed e bytes =>
      cases e with
      | readTruncated lost n =>
          rw [clip] at isEof
          split at isEof <;> simp at isEof
      | _ => exact isEof
  | panicked => contradiction

/-- Shorter buffers do not change where the log ends. -/
theorem ReadsToEof.clipped {dir : Dir} {overflowChecks : Bool} {caps ample : Nat → Nat} {s last : ReadState}
    {outcomes : List Outcome} (reads : ReadsToEof (.still dir noFault overflowChecks) ample s outcomes last)
    (standing : Standing dir s) (nonempty : ∀ n, 0 < caps n) (enough : ∀ n, u32Max ≤ ample n) :
    ∃ last', ReadsToEof (.still dir noFault overflowChecks) caps s (clipped caps outcomes) last' := by
  have clips : (readCalls (.still dir noFault overflowChecks) caps (outcomes.length + 1) s).1 = _ :=
    (readCalls_clips (outcomes.length + 1) rfl standing nonempty enough).1
  rw [reads.run, List.mapIdx_append, List.mapIdx_cons, List.mapIdx_nil] at clips
  refine ⟨(readCalls (.still dir noFault overflowChecks) caps (outcomes.length + 1) s).2, ?_, fun mem => ?_⟩
  · rw [Tcslog.clipped, List.length_mapIdx]
    exact Prod.ext clips rfl
  · obtain ⟨i, within, isEof⟩ := List.mem_mapIdx.mp mem
    exact reads.first (Outcome.clip_eq_eof isEof ▸ List.getElem_mem within)

/-- A run that tells nothing ends with its first call. -/
theorem ReadsToEof.of_nil {env : ReadEnv} {caps : Nat → Nat} {s last : ReadState}
    (reads : ReadsToEof env caps s [] last) : (readCall env (caps 0) s).1 = .failed .eof [] := by
  have run := reads.run
  rw [List.length_nil, Scene.readCalls_succ] at run
  exact (List.cons.inj (congrArg Prod.fst run)).1

/-- The first call of a run, and the run behind it. -/
theorem ReadsToEof.of_cons {env : ReadEnv} {caps : Nat → Nat} {s last : ReadState} {outcome : Outcome}
    {outcomes : List Outcome} (reads : ReadsToEof env caps s (outcome :: outcomes) last) :
    (readCall env (caps 0) s).1 = outcome ∧
      ReadsToEof env (fun n => caps (n + 1)) (readCall env (caps 0) s).2 outcomes last := by
  obtain ⟨run, notYet⟩ := reads
  rw [List.length_cons, Scene.readCalls_succ] at run
  obtain ⟨first, later⟩ := List.cons.inj (congrArg Prod.fst run)
  exact ⟨first, Prod.ext later (Prod.mk.inj run).2, fun mem => notYet (List.mem_cons_of_mem _ mem)⟩

/-- A run to the end of the log tells one thing. -/
theorem ReadsToEof.unique {env : ReadEnv} {caps : Nat → Nat} {s last last' : ReadState}
    {outcomes outcomes' : List Outcome} (reads : ReadsToEof env caps s outcomes last)
    (reads' : ReadsToEof env caps s outcomes' last') : outcomes' = outcomes := by
  induction outcomes generalizing s caps outcomes' with
  | nil =>
      cases outcomes' with
      | nil => rfl
      | cons outcome' outcomes' =>
          have isEof := reads'.of_cons.1.symm.trans reads.of_nil
          exact absurd (isEof ▸ List.mem_cons_self) reads'.first
  | cons outcome outcomes ih =>
      obtain ⟨call, later⟩ := reads.of_cons
      cases outcomes' with
      | nil =>
          have isEof := call.symm.trans reads'.of_nil
          exact absurd (isEof ▸ List.mem_cons_self) reads.first
      | cons outcome' outcomes' =>
          obtain ⟨call', later'⟩ := reads'.of_cons
          rw [call'.symm.trans call, ih later later']

/-- What is left is in the order of the log. -/
theorem Log.Displayed.sorted {L : Log} {files : SegId → Option Bytes} {ids : List SegId}
    {fragments : List Fragment} (displayed : L.Displayed files ids fragments)
    (ascending : ids.Pairwise (· < ·)) :
    fragments.Pairwise Fragment.Before ∧ ∀ f ∈ fragments, ∃ id ∈ ids, L.Displays files id f := by
  induction displayed with
  | nil => exact ⟨.nil, by simp⟩
  | unusable refused more ih =>
      obtain ⟨sorted, named⟩ := ih ascending.of_cons
      refine ⟨sorted, fun f mem => ?_⟩
      obtain ⟨id, listed, displays⟩ := named f mem
      exact ⟨id, List.mem_cons_of_mem _ listed, displays⟩
  | @usable id ids f rest displays more ih =>
      obtain ⟨first, ascending⟩ := List.pairwise_cons.mp ascending
      obtain ⟨sorted, named⟩ := ih ascending
      refine ⟨List.pairwise_cons.mpr ⟨fun g mem => ?_, sorted⟩, List.forall_mem_cons.mpr
        ⟨⟨id, List.mem_cons_self, displays⟩, fun g mem => ?_⟩⟩
      · obtain ⟨id', listed, displays'⟩ := named g mem
        exact (displays.fileAt.id_lt_iff displays'.fileAt).mp (first id' listed)
      · obtain ⟨id', listed, displays'⟩ := named g mem
        exact ⟨id', List.mem_cons_of_mem _ listed, displays'⟩

/-- Each file a reader is shown is one of a strand of the log. -/
theorem Log.strandAt_of_displays {L : Log} {files : SegId → Option Bytes} {ids : List SegId}
    {fragments : List Fragment} (named : ∀ f ∈ fragments, ∃ id ∈ ids, L.Displays files id f) :
    (∀ f ∈ fragments, L.strands[f.k]? = some f.strand) ∧
      ∀ f ∈ fragments, ∀ g ∈ fragments, f.k = g.k → f.strand = g.strand := by
  have strandAt (f : Fragment) (mem : f ∈ fragments) : L.strands[f.k]? = some f.strand := by
    obtain ⟨id, _, displays⟩ := named f mem
    exact displays.fileAt.strandAt
  refine ⟨strandAt, fun f mem g mem' same => ?_⟩
  have isStrand := strandAt f mem
  rw [same, strandAt g mem'] at isStrand
  exact (Option.some.inj isStrand).symm

/-- Sessions that begin with their first file are told apart. -/
theorem Faithful.plain {S : Scene} {files : SegId → Option Bytes} {journal : Journal}
    (faithful : Faithful S.log journal) (still : S.Still files) : S.Plain files := by
  have keeps {k : Nat} {σ : Strand} (strandAt : S.log.strands[k]? = some σ) :
      σ.firstSequence = 0 ∧ S.log.FileAt k 0 σ σ.sessionId := by
    obtain ⟨session, _, keeps⟩ := faithful.exists_keeps strandAt
    exact ⟨keeps.first, strandAt, List.head?_eq_getElem?.symm.trans keeps.head⟩
  refine ⟨still, fun strandAt => (keeps strandAt).1, fun strandAt strandAt' same => ?_⟩
  have fileAt := (keeps strandAt).2
  rw [same] at fileAt
  exact (fileAt.unique (keeps strandAt').2).1

section Reading

variable {env : WriteEnv} {dir dir' : Dir} {lives : List Life} {namePrefix nameSuffix : Bytes}

/-- What is told of the files that are left is what a reader tells of them, as
far as its buffers go. -/
theorem Faithful.reads {L : Log} {files : SegId → Option Bytes} {journal : Journal}
    (faithful : Faithful L journal) (disk : OnDisk files L)
    (damaged : Damaged files (dir'.files namePrefix nameSuffix)) {isDir : Bool} (overflowChecks : Bool)
    {log : LogRead} (isNew : LogRead.new isDir (some dir') namePrefix nameSuffix = .ok log) :
    ∃ fragments, L.Displayed (dir'.files namePrefix nameSuffix) log.pending fragments ∧
      (fragments.Pairwise Fragment.Before ∧
        ∀ f ∈ fragments, ∃ id ∈ log.pending, L.Displays (dir'.files namePrefix nameSuffix) id f) ∧
      (∀ caps : Nat → Nat, (∀ n, 0 < caps n) → ∃ last,
        ReadsToEof (.still dir' noFault overflowChecks) caps log.begin
          (clipped caps (Stage.start.retell
            (endsRefused (dir'.files namePrefix nameSuffix) log.pending) fragments)) last) ∧
      ∀ caps : Nat → Nat, Ample caps L.records → ∃ last,
        ReadsToEof (.still dir' noFault overflowChecks) caps log.begin
          (Stage.start.retell (endsRefused (dir'.files namePrefix nameSuffix) log.pending) fragments)
          last := by
  obtain ⟨listed, isListed, begins⟩ := LogRead.new_spec isNew
  obtain rfl := Option.some.inj isListed
  have presents : ∀ t, Presents (((ReadEnv.still dir' noFault overflowChecks).dir t).files namePrefix
      nameSuffix) L := fun _ => disk.presents damaged
  let S := sceneOf L (.still dir' noFault overflowChecks) dir' namePrefix nameSuffix presents
  have still : S.Still (dir'.files namePrefix nameSuffix) :=
    ⟨fun _ => rfl, fun _ _ => rfl, fun present =>
      mem_scanSegmentIds.mpr (AList.lookup_isSome.mp (Option.isSome_of_eq_some present))⟩
  have plain : S.Plain (dir'.files namePrefix nameSuffix) := Faithful.plain faithful still
  have listing : S.listing = log.pending := begins.pending.symm
  obtain ⟨fragments, displayed⟩ : ∃ fragments, L.Displayed _ log.pending fragments :=
    still.exists_displayed fun p mem => listing ▸ mem
  have follows : S.Follows (dir'.files namePrefix nameSuffix) (Scene.searchOf log.begin) .start fragments := by
    refine ⟨trivial, begins.session, fun f impossible => ?_, ?_, displayed⟩
    · simp [Stage.fragment] at impossible
    · exact listing ▸ List.suffix_rfl
  have stands := Scene.Stands.seeking begins.current follows
    (Scene.hinted_of_none begins.recovery fun _ restores => restores)
  have ample : Ample (fun _ => u32Max) S.log.records := by
    intro _ record mem
    obtain ⟨σ, _, inStrand⟩ := List.mem_flatMap.mp mem
    have fits := σ.fits record inStrand
    have small := fits.length_encode_lt
    rw [fits.length_encode] at small
    change record.payload.length ≤ 2 ^ 32 - 1
    omega
  refine ⟨fragments, displayed, displayed.sorted (listing ▸ S.sorted), fun caps nonempty => ?_,
    fun caps ample => ?_⟩
  · obtain ⟨last, reads⟩ := Scene.reads_retold plain (begins.ready presents) stands ample
    exact ReadsToEof.clipped (listing ▸ reads) begins.standing nonempty fun _ => Nat.le_refl _
  · exact listing ▸ Scene.reads_retold plain (begins.ready presents) stands ample

/-- Whatever is taken away from a log, a reader tells of the files that are left,
in order, what is told of each after those before it, as far as its buffers
go. -/
theorem damaged_log_retold (wrote : Wrote env dir lives namePrefix nameSuffix)
    (damaged : Damaged ((Trail.run env dir lives).files namePrefix nameSuffix)
      (dir'.files namePrefix nameSuffix))
    {isDir : Bool} (overflowChecks : Bool) {log : LogRead}
    (isNew : LogRead.new isDir (some dir') namePrefix nameSuffix = .ok log) :
    ∃ L, OnDisk ((Trail.run env dir lives).files namePrefix nameSuffix) L ∧
      Faithful L (Trail.run env dir lives).journal ∧
      ∃ fragments, L.Displayed (dir'.files namePrefix nameSuffix) log.pending fragments ∧
        ∀ caps : Nat → Nat, (∀ n, 0 < caps n) → ∃ last,
          ReadsToEof (.still dir' noFault overflowChecks) caps log.begin
            (clipped caps (Stage.start.retell
              (endsRefused (dir'.files namePrefix nameSuffix) log.pending) fragments)) last := by
  obtain ⟨L, left⟩ := Trail.run_left wrote.leaves wrote.empty wrote.names wrote.clean
  obtain ⟨fragments, displayed, _, reads, _⟩ := left.faithful.reads left.disk damaged overflowChecks isNew
  exact ⟨L, left.disk, left.faithful, fragments, displayed, reads⟩

end Reading

theorem damaged_log_retold_sample :
    ∃ L, OnDisk ((Trail.run Sample.env ∅ Sample.fillingRecords).files [] []) L ∧
      Faithful L (Trail.run Sample.env ∅ Sample.fillingRecords).journal ∧
      ∃ fragments, L.Displayed ((Sample.fillingWithout 1002).files [] []) [1010, 1017] fragments ∧
        ∀ caps : Nat → Nat, (∀ n, 0 < caps n) → ∃ last,
          ReadsToEof (.still (Sample.fillingWithout 1002) noFault true) caps (Sample.reader [1010, 1017]).begin
            (clipped caps (Stage.start.retell
              (endsRefused ((Sample.fillingWithout 1002).files [] []) [1010, 1017]) fragments)) last :=
  damaged_log_retold Sample.wroteFilling (Damaged.erase _ _ _ _) true
    (show LogRead.new true (some (Sample.fillingWithout 1002)) [] [] = .ok (Sample.reader [1010, 1017])
      by decide +kernel)

end Tcslog
