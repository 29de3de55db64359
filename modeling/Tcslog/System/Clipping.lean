import Tcslog.System.Tally

/-!
# Losses and buffers

A record that a short buffer cannot hold is reported to be too long, also where
the rest of it is lost: the loss is then not reported.
-/

namespace Tcslog

/-! ## Outcomes that are clipped -/

/-- The outcome reports a loss behind so many bytes of a payload. -/
def Outcome.LosesBehind (cap : Nat) : Outcome → Prop
  | .failed (.readTruncated lost n) _ => 0 < lost ∧ cap ≤ n
  | _ => False

section Clipped

variable {caps : Nat → Nat} {outcomes : List Outcome}

theorem Outcome.lost_clip_of_whole {cap : Nat} {outcome : Outcome} (whole : ¬ outcome.LosesBehind cap) :
    (outcome.clip cap).lost = outcome.lost := by
  cases outcome with
  | record payload metadata => rw [clip]; split <;> rfl
  | failed e bytes =>
      cases e with
      | readTruncated lost n =>
          rw [clip]
          split
          next long =>
            rw [LosesBehind, not_and] at whole
            change 0 = lost
            omega
          next => rfl
      | _ => rfl
  | panicked => rfl

/-- Only a loss behind as many bytes as the buffer holds goes unreported. -/
theorem Outcome.lost_clip_of_loses {cap : Nat} {outcome : Outcome} (loses : outcome.LosesBehind cap) :
    (outcome.clip cap).lost < outcome.lost := by
  cases outcome with
  | record payload metadata => exact loses.elim
  | failed e bytes =>
      cases e with
      | readTruncated lost n =>
          obtain ⟨some, long⟩ := loses
          rw [clip, if_pos long]
          exact some
      | _ => exact loses.elim
  | panicked => exact loses.elim

theorem clipped_cons (caps : Nat → Nat) (outcome : Outcome) (outcomes : List Outcome) :
    clipped caps (outcome :: outcomes) =
      outcome.clip (caps 0) :: clipped (fun n => caps (n + 1)) outcomes :=
  List.mapIdx_cons

/-- Shorter buffers report no more files lost, and as many unless a loss comes
behind as many bytes as a buffer holds. -/
theorem lostIn_clipped (caps : Nat → Nat) (outcomes : List Outcome) :
    lostIn (clipped caps outcomes) ≤ lostIn outcomes ∧
      (lostIn (clipped caps outcomes) = lostIn outcomes ↔
        ∀ (i : Nat) (outcome : Outcome), outcomes[i]? = some outcome → ¬ outcome.LosesBehind (caps i)) := by
  induction outcomes generalizing caps with
  | nil => exact ⟨Nat.le_refl _, iff_of_true rfl (by simp)⟩
  | cons outcome outcomes ih =>
      obtain ⟨le, iff⟩ := ih fun n => caps (n + 1)
      have all : (∀ (i : Nat) (o : Outcome), (outcome :: outcomes)[i]? = some o → ¬ o.LosesBehind (caps i)) ↔
          ¬ outcome.LosesBehind (caps 0) ∧
            ∀ (i : Nat) (o : Outcome), outcomes[i]? = some o → ¬ o.LosesBehind (caps (i + 1)) := by
        constructor
        · intro all
          exact ⟨all 0 outcome rfl, fun i => all (i + 1)⟩
        · rintro ⟨first, others⟩ i o told
          cases i with
          | zero => exact Option.some.inj told ▸ first
          | succ i => exact others i o told
      rw [clipped_cons, lostIn_cons, lostIn_cons, all, ← iff]
      by_cases loses : outcome.LosesBehind (caps 0)
      · have less := Outcome.lost_clip_of_loses loses
        simp only [loses, not_true_eq_false, false_and, iff_false]
        omega
      · have same := Outcome.lost_clip_of_whole loses
        simp only [loses, not_false_eq_true, true_and]
        omega

end Clipped

/-! ## Losses behind the front of a payload -/

namespace Fragment

variable {fs : List Fragment} {f g : Fragment}

/-- Less than a record is placed of a record in progress. -/
theorem placed_lt (f : Fragment) : f.placed < 2 ^ 32 := by
  have place := f.start_done_add
  rw [placed]
  rcases Nat.lt_or_eq_of_le f.done_le with more | atEnd
  · have recordAt := List.getElem?_eq_getElem more
    have small := (Strand.fits_of_getElem? recordAt).length_encode_lt
    have less := f.limit_lt more
    rw [Strand.start_succ recordAt] at less
    omega
  · have within := f.limit_le
    rw [atEnd, Strand.start_length] at place
    omega

/-- A reader meets a gap where some of the payload of the record in progress was
placed. -/
def MidPayload (fs : List Fragment) : Prop :=
  ∃ f g, [f, g] <:+: fs ∧ g.k = f.k ∧ f.j + 1 < g.j ∧ Reads fs f ∧ 0 < f.placed

end Fragment

namespace Stage

open Fragment

variable {fs : List Fragment} {f h : Fragment} {stage : Stage} {outcome : Outcome}

/-- A loss behind the front of a payload is told of where a file in which the
reader reads is followed by a gap. -/
theorem losesBehind_step (mem : outcome ∈ (stage.step h).1) (loses : outcome.LosesBehind 1) :
    ∃ f, stage = reading f ∧ h.k = f.k ∧ f.j + 1 < h.j ∧ 0 < f.placed := by
  have records (record : Record) : ¬ record.outcome.LosesBehind 1 := id
  have ahead (n : Nat) : ¬ (Outcome.failed (.readTruncated n 0) []).LosesBehind 1 := fun loses => by
    simpa using loses.2
  have boundary : ¬ (Outcome.failed .sessionEnd []).LosesBehind 1 := id
  have enters (n : Nat) : outcome ∉ (h.enter n).1 := fun mem =>
    forall_mem_enter (P := fun outcome => ¬ outcome.LosesBehind 1) records ahead h n _ mem loses
  have changes : outcome ∉ (change h).1 := fun mem =>
    forall_mem_change (P := fun outcome => ¬ outcome.LosesBehind 1) records ahead boundary h _ mem loses
  have resumes (f : Fragment) : outcome ∉ (f.resume h).1 := fun mem =>
    forall_mem_resume (P := fun outcome => ¬ outcome.LosesBehind 1) records ahead f h _ mem loses
  cases stage with
  | start => exact absurd mem (enters _)
  | broken f =>
      rw [step] at mem
      split at mem
      · exact absurd mem (resumes f)
      · exact absurd mem changes
  | seeking f n =>
      rw [step] at mem
      split at mem
      · exact absurd mem (enters n)
      · exact absurd mem changes
  | reading f =>
      rw [step] at mem
      split at mem
      · exact absurd loses (forall_mem_tells (P := fun outcome => ¬ outcome.LosesBehind 1) records h _ _ mem)
      split at mem
      next same =>
        refine ⟨f, rfl, same, ?_⟩
        have isCut := (List.mem_cons.mp mem).resolve_right (resumes f)
        rw [isCut] at loses
        obtain ⟨lost, placed⟩ := loses
        exact ⟨by omega, placed⟩
      next =>
        rcases List.mem_append.mp mem with torn | changed
        · rw [List.mem_ite_nil_right, List.mem_singleton] at torn
          rw [torn.2] at loses
          exact absurd loses.1 (Nat.lt_irrefl 0)
        · exact absurd changed changes

/-- A loss is told of behind the front of a payload if and only if a reader meets
a gap there. -/
theorem exists_losesBehind_iff (sorted : fs.Pairwise Before) (refused : Bool) :
    (∃ outcome ∈ start.retell refused fs, outcome.LosesBehind 1) ↔ MidPayload fs := by
  constructor
  · rintro ⟨outcome, mem, loses⟩
    rcases mem_retell.mp mem with ⟨front, h, rest, rfl, told⟩ | atEnd
    · obtain ⟨f, isReading, same, missing, placed⟩ := losesBehind_step told loses
      rcases List.eq_nil_or_concat front with rfl | ⟨front, e, rfl⟩
      · contradiction
      rw [List.concat_eq_append] at isReading sorted ⊢
      have sortedFront := (List.pairwise_append.mp sorted).1
      have behind := behind_after sortedFront
      have isLast := behind.fragment_eq
      rw [isReading] at isLast
      obtain rfl := Option.some.inj isLast
      refine ⟨f, h, ⟨front, rest, by simp⟩, same, missing, ?_, placed⟩
      exact (reads_append_iff sorted (by simp)).mpr (behind.reads.mp isReading)
    · cases stage : start.after fs with
      | reading f =>
          rw [stage, last, List.mem_ite_nil_right, List.mem_singleton] at atEnd
          rw [atEnd.2] at loses
          exact absurd loses.1 (Nat.lt_irrefl 0)
      | start | broken f | seeking f n =>
          rw [stage] at atEnd
          contradiction
  · rintro ⟨f, g, ⟨front, rest, rfl⟩, same, missing, reads, placed⟩
    have split : front ++ [f, g] ++ rest = front ++ [f] ++ g :: rest := by simp
    rw [split] at sorted reads ⊢
    have behind := behind_after (List.pairwise_append.mp sorted).1
    refine ⟨f.cutShort (g.j - (f.j + 1)), mem_retell.mpr (.inl ⟨_, g, rest, rfl, ?_⟩), ?_⟩
    · rw [behind.reads.mpr ((reads_append_iff sorted (by simp)).mp reads), step,
        if_neg fun precedes => by have := precedes.2.1; omega, if_pos same]
      exact List.mem_cons_self
    · exact ⟨by omega, placed⟩

/-- With room for any record no loss goes unreported. -/
theorem not_losesBehind (stage : Stage) (refused : Bool) (fs : List Fragment) :
    ∀ outcome ∈ stage.retell refused fs, ¬ outcome.LosesBehind (2 ^ 32) :=
  forall_mem_retell (P := fun outcome => ¬ outcome.LosesBehind (2 ^ 32)) (fun _ => id)
    (fun f _ loses => absurd loses.2 (Nat.not_le_of_lt f.placed_lt))
    (fun _ loses => absurd loses.2 (by simp)) id refused stage fs

end Stage

/-! ## Reading a damaged log -/

section Reading

variable {env : WriteEnv} {dir dir' : Dir} {lives : List Life} {namePrefix nameSuffix : Bytes}

/-- The buffers have no say in the losses reported if no loss is told of behind
the front of a payload, and only then. -/
theorem lostIn_clipped_eq_iff {outcomes : List Outcome}
    (short : ∀ outcome ∈ outcomes, ¬ outcome.LosesBehind (2 ^ 32)) :
    (∀ caps caps' : Nat → Nat, (∀ n, 0 < caps n) → (∀ n, 0 < caps' n) →
      lostIn (clipped caps outcomes) = lostIn (clipped caps' outcomes)) ↔
        ¬ ∃ outcome ∈ outcomes, outcome.LosesBehind 1 := by
  have weaken {cap cap' : Nat} {outcome : Outcome} (le : cap ≤ cap') (loses : outcome.LosesBehind cap') :
      outcome.LosesBehind cap := by
    cases outcome with
    | failed e bytes =>
        cases e with
        | readTruncated lost n => exact ⟨loses.1, le.trans loses.2⟩
        | _ => exact loses
    | record payload metadata => exact loses
    | panicked => exact loses
  constructor
  · rintro agree ⟨outcome, mem, loses⟩
    obtain ⟨i, told⟩ := List.mem_iff_getElem?.mp mem
    have same := agree (fun _ => 1) (fun _ => 2 ^ 32) (fun _ => Nat.one_pos) fun _ => by decide
    rw [(lostIn_clipped (fun _ => 2 ^ 32) outcomes).2.mpr fun i o told =>
      short o (List.mem_of_getElem? told)] at same
    exact (lostIn_clipped (fun _ => 1) outcomes).2.mp same i outcome told loses
  · intro none caps caps' nonempty nonempty'
    have whole {caps : Nat → Nat} (nonempty : ∀ n, 0 < caps n) :
        lostIn (clipped caps outcomes) = lostIn outcomes :=
      (lostIn_clipped caps outcomes).2.mpr fun i o told loses =>
        none ⟨o, List.mem_of_getElem? told, weaken (nonempty i) loses⟩
    rw [whole nonempty, whole nonempty']

/-- Whatever is taken away from a log, readers with any buffers report as many
files lost as each other if and only if none of them meets a gap where some of the
payload of the record in progress was placed. -/
theorem losses_regardless_of_buffers (wrote : Wrote env dir lives namePrefix nameSuffix)
    (damaged : Damaged ((Trail.run env dir lives).files namePrefix nameSuffix)
      (dir'.files namePrefix nameSuffix))
    {isDir : Bool} (overflowChecks : Bool) {log : LogRead}
    (isNew : LogRead.new isDir (some dir') namePrefix nameSuffix = .ok log) :
    ∃ L, OnDisk ((Trail.run env dir lives).files namePrefix nameSuffix) L ∧
      Faithful L (Trail.run env dir lives).journal ∧
      ∃ fragments, L.Displayed (dir'.files namePrefix nameSuffix) log.pending fragments ∧
        ((∀ caps caps' : Nat → Nat, (∀ n, 0 < caps n) → (∀ n, 0 < caps' n) →
          ∃ outcomes outcomes' last last',
            ReadsToEof (.still dir' noFault overflowChecks) caps log.begin outcomes last ∧
            ReadsToEof (.still dir' noFault overflowChecks) caps' log.begin outcomes' last' ∧
            lostIn outcomes = lostIn outcomes') ↔ ¬ Fragment.MidPayload fragments) := by
  obtain ⟨L, left⟩ := Trail.run_left wrote.leaves wrote.empty wrote.names wrote.clean
  obtain ⟨fragments, displayed, ⟨sorted, _⟩, reads, _⟩ :=
    left.faithful.reads left.disk damaged overflowChecks isNew
  refine ⟨L, left.disk, left.faithful, fragments, displayed, ?_⟩
  rw [← Stage.exists_losesBehind_iff sorted
    (endsRefused (dir'.files namePrefix nameSuffix) log.pending),
    ← lostIn_clipped_eq_iff (Stage.not_losesBehind _ _ _)]
  refine forall₄_congr fun caps caps' nonempty nonempty' => ?_
  obtain ⟨last, reads₁⟩ := reads caps nonempty
  obtain ⟨last', reads₂⟩ := reads caps' nonempty'
  constructor
  · rintro ⟨outcomes, outcomes', _, _, told, told', same⟩
    rwa [reads₁.unique told, reads₂.unique told'] at same
  · exact fun same => ⟨_, _, last, last', reads₁, reads₂, same⟩

end Reading

theorem losses_regardless_of_buffers_sample :
    ∃ L, OnDisk ((Trail.run Sample.env ∅ Sample.fillingRecords).files [] []) L ∧
      Faithful L (Trail.run Sample.env ∅ Sample.fillingRecords).journal ∧
      ∃ fragments, L.Displayed ((Sample.fillingWithout 1010).files [] []) [1002, 1017] fragments ∧
        ((∀ caps caps' : Nat → Nat, (∀ n, 0 < caps n) → (∀ n, 0 < caps' n) →
          ∃ outcomes outcomes' last last',
            ReadsToEof (.still (Sample.fillingWithout 1010) noFault true) caps
              (Sample.reader [1002, 1017]).begin outcomes last ∧
            ReadsToEof (.still (Sample.fillingWithout 1010) noFault true) caps'
              (Sample.reader [1002, 1017]).begin outcomes' last' ∧
            lostIn outcomes = lostIn outcomes') ↔ ¬ Fragment.MidPayload fragments) :=
  losses_regardless_of_buffers Sample.wroteFilling (Damaged.erase _ _ _ _) true
    (show LogRead.new true (some (Sample.fillingWithout 1010)) [] [] = .ok (Sample.reader [1002, 1017])
      by decide +kernel)

/-- With room for either record a reader is told of the file that is lost, with
room for one byte it is not. -/
theorem loss_hidden :
    Wrote Sample.env ∅ Sample.bridgingRecords [] [] ∧
      Damaged ((Trail.run Sample.env ∅ Sample.bridgingRecords).files [] []) (Sample.bridging.files [] []) ∧
      LogRead.new true (some Sample.bridging) [] [] = .ok (Sample.reader [1002, 1017, 1023]) ∧
      ∃ outcomes outcomes' last last',
        ReadsToEof (.still Sample.bridging noFault true) (fun _ => 9)
          (Sample.reader [1002, 1017, 1023]).begin outcomes last ∧
        ReadsToEof (.still Sample.bridging noFault true) (fun _ => 1)
          (Sample.reader [1002, 1017, 1023]).begin outcomes' last' ∧
        lostIn outcomes = 1 ∧ lostIn outcomes' = 0 := by
  refine ⟨Sample.wroteBridging, Damaged.erase _ _ _ _, ?_,
    [.failed (.readTruncated 1 3) [1, 2, 3], .record [7, 8, 9, 10, 11, 12, 13, 14, 15] .variableSimple],
    [.failed (.readOverflow 1) [1], .failed (.readOverflow 1) [7]], _, _,
    ⟨Prod.ext ?_ rfl, ?_⟩, ⟨Prod.ext ?_ rfl, ?_⟩, rfl, rfl⟩
  · decide +kernel
  · decide +kernel
  · decide
  · decide +kernel
  · decide

end Tcslog
