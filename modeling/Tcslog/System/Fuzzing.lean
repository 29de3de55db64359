import Tcslog.System.Restored

/-!
# The checks of the fuzzer

The fuzzer that damages a log reads it back and makes sure of what it is told: each
record returned is one that was written behind the one returned before, what is
left of a record that was cut short is the front of one, and the log ends within a
number of reads.  Where the damage only takes away, none of these checks fails.
-/

namespace Tcslog

/-- The files of a directory whose names begin and end as those of the log do. -/
def segmentFiles (dir : Dir) (namePrefix nameSuffix : Bytes) : List Bytes :=
  dir.keys.filter fun name => namePrefix.isPrefixOf name && nameSuffix.isSuffixOf name

/-- The number of reads within which the log is to end. -/
def readBound (written : List Bytes) (files : Nat) : Nat :=
  4 * (written.length + files) + 16

/-- The first record behind those returned that is what was read. -/
def findWritten (written : List Bytes) (last : Option Nat) (got : Bytes) : Option Nat :=
  let start := last.elim 0 (· + 1)
  (List.range' start (written.length - start)).find? fun i => written[i]? = some got

/-- What is left of a record is the front of one that was written. -/
def checkFront (written : List Bytes) (overwrote : Bool) (n : Nat) (got : Bytes) : Bool :=
  overwrote || n = 0 || written.any fun w => got.isPrefixOf w

/-- The checks of the reads, `last` being the last record returned whole; the log is
to end within so many. -/
def checkReads (env : ReadEnv) (bufLen : Nat) (written : List Bytes) (overwrote : Bool) :
    Nat → Option Nat → ReadState → Bool
  | 0, _, _ => false
  | bound + 1, last, s =>
      let next := checkReads env bufLen written overwrote bound
      let s' := (readCall env bufLen s).2
      match (readCall env bufLen s).1 with
      | .record got _ =>
          if overwrote then next last s'
          else (findWritten written last got).isSome && next (findWritten written last got) s'
      | .failed .eof _ => true
      | .failed (.readOverflow n) got => checkFront written overwrote n got && next last s'
      | .failed (.readTruncated _ n) got => checkFront written overwrote n got && next last s'
      | .failed _ _ => next last s'
      | .panicked => false

/-! ## The records found -/

section Found

variable {written : List Bytes} {last : Option Nat} {got : Bytes} {n : Nat}

/-- A record behind the last returned is found, or one before it that is the
same. -/
theorem findWritten_le (isGot : written[n]? = some got) (later : ∀ l ∈ last, l < n) :
    ∃ i ≤ n, findWritten written last got = some i := by
  have within := (List.getElem?_eq_some_iff.mp isGot).1
  have start : last.elim 0 (· + 1) ≤ n := by
    cases last with
    | none => exact Nat.zero_le _
    | some l => exact later l rfl
  have some : (findWritten written last got).isSome := by
    rw [findWritten, List.find?_isSome]
    refine ⟨n, ?_, decide_eq_true isGot⟩
    rw [List.mem_range'_1]
    omega
  obtain ⟨i, found⟩ := Option.isSome_iff_exists.mp some
  refine ⟨i, ?_, found⟩
  rw [findWritten, List.find?_range'_eq_some] at found
  by_contra past
  have skipped := found.2.2 n start (Nat.lt_of_not_le past)
  simp [isGot] at skipped

end Found

/-! ## The checks of a run -/

section Checks

variable {env : ReadEnv} {bufLen bound : Nat} {records : List Record} {s last : ReadState}
  {outcomes : List Outcome} {tolds : List (Option Nat)}

theorem checkFront_take {record : Record} {n : Nat} (mem : record ∈ records) (m : Nat) :
    checkFront (records.map Record.payload) false n (record.payload.take m) = true := by
  have isFront : (records.map Record.payload).any fun w => (record.payload.take m).isPrefixOf w := by
    rw [List.any_eq_true]
    exact ⟨record.payload, List.mem_map_of_mem mem, List.isPrefixOf_iff_prefix.mpr (List.take_prefix _ _)⟩
  rw [checkFront, isFront, Bool.or_true]

theorem checkFront_zero (written : List Bytes) (overwrote : Bool) (got : Bytes) :
    checkFront written overwrote 0 got = true := by
  simp [checkFront]

/-- Where each call tells of a record behind those told of before, or of none, no
check fails. -/
theorem checkReads_of_tells (reads : ReadsToEof env (fun _ => bufLen) s outcomes last)
    (tells : List.Forall₂ (Tells (records[·]?)) outcomes tolds)
    (increasing : tolds.reduceOption.Pairwise (· < ·)) (returned : Option Nat)
    (later : ∀ l ∈ returned, ∀ n ∈ tolds.reduceOption, l < n) (enough : outcomes.length < bound) :
    checkReads env bufLen (records.map Record.payload) false bound returned s = true := by
  induction tells generalizing s bound returned with
  | nil =>
      obtain ⟨bound, rfl⟩ := Nat.exists_eq_succ_of_ne_zero (Nat.ne_of_gt enough)
      rw [checkReads]
      simp only [reads.of_nil]
  | @cons outcome told outcomes tolds told' tells ih =>
      obtain ⟨bound, rfl⟩ := Nat.exists_eq_succ_of_ne_zero (Nat.ne_of_gt (Nat.zero_lt_of_lt enough))
      obtain ⟨call, behind⟩ := reads.of_cons
      have within : outcomes.length < bound := Nat.lt_of_succ_lt_succ enough
      rw [checkReads]
      simp only [call]
      cases told' with
      | @whole n record there =>
          rw [List.reduceOption_cons_of_some] at increasing later
          obtain ⟨first, increasing⟩ := List.pairwise_cons.mp increasing
          have isGot : (records.map Record.payload)[n]? = some record.payload := by
            rw [List.getElem?_map, there]
            rfl
          obtain ⟨i, le, found⟩ := findWritten_le isGot fun l isLast => later l isLast n List.mem_cons_self
          simp only [found]
          exact ih behind increasing (some i) (fun l isLast m mem => by
            obtain rfl := Option.some.inj isLast
            exact le.trans_lt (first m mem)) within
      | @front n record e m there error less =>
          rw [List.reduceOption_cons_of_some] at increasing later
          have rest := ih behind increasing.of_cons returned
            (fun l isLast m mem => later l isLast m (List.mem_cons_of_mem _ mem)) within
          have isFront := checkFront_take (n := m) (List.mem_of_getElem? there) m
          rcases error with rfl | ⟨_, lost, rfl⟩
          · simp only [isFront, Bool.true_and]
            exact rest
          · simp only [isFront, Bool.true_and]
            exact rest
      | @silent e noBytes notOverflow =>
          rw [List.reduceOption_cons_of_none] at increasing later
          have rest := ih behind increasing returned later within
          cases e with
          | readOverflow n => exact absurd rfl (notOverflow n)
          | readTruncated lost n =>
              obtain rfl : n = 0 := noBytes
              simp only [checkFront_zero, Bool.true_and]
              exact rest
          | eof => rfl
          | _ => exact rest

end Checks

/-! ## How much is told -/

namespace Fragment

theorem length_enter_le (h : Fragment) (ahead : Nat) :
    (h.enter ahead).1.length ≤ (h.tells h.opening).length + 1 := by
  by_cases offers : h.Offers
  · rw [enter_of_offers offers, List.length_append, opening, if_pos offers]
    split
    · rw [List.length_singleton, Nat.add_comm]
    · rw [List.length_nil, Nat.zero_add]
      exact Nat.le_succ _
  · rw [enter_of_covered offers]
    exact Nat.zero_le _

theorem length_resume_le (f h : Fragment) : (f.resume h).1.length ≤ (h.tells (f.resuming h)).length + 1 := by
  rw [Fragment.resume, resuming]
  split
  · exact Nat.le_succ _
  · exact h.length_enter_le 0

end Fragment

namespace Stage

open Fragment

/-- Of one file at most three outcomes are told that are no records. -/
theorem length_step_le (stage : Stage) (h : Fragment) :
    (stage.step h).1.length ≤ (h.tells (stage.begins h)).length + 3 := by
  have changes : (change h).1.length ≤ (h.tells h.opening).length + 2 := by
    have entered := h.length_enter_le h.j
    rw [change, tellFirst, List.length_append, List.length_singleton]
    omega
  have resumes (f : Fragment) := f.length_resume_le h
  cases stage with
  | start =>
      have entered := h.length_enter_le h.j
      exact entered.trans (Nat.add_le_add_left (by decide) _)
  | seeking f ahead =>
      have entered := h.length_enter_le ahead
      change _ ≤ (h.tells h.opening).length + 3
      rw [step]
      split <;> omega
  | broken f =>
      have resumed := resumes f
      rw [step, begins]
      split
      · omega
      next other =>
        rw [resuming_of_other other]
        omega
  | reading f =>
      have resumed := resumes f
      rw [step, begins]
      by_cases precedes : f.Precedes h
      · rw [if_pos precedes, if_pos precedes]
        exact Nat.le_add_right _ _
      rw [if_neg precedes, if_neg precedes]
      split
      · rw [tellFirst, List.length_append, List.length_singleton]
        omega
      next other =>
        rw [resuming_of_other other, tellFirst, List.length_append]
        split
        · rw [List.length_singleton]
          omega
        · rw [List.length_nil]
          omega

/-- Of all files at most three outcomes each are told that are no records, and one
at the end. -/
theorem length_retell_le (stage : Stage) (refused : Bool) (fs : List Fragment) :
    (stage.retell refused fs).length ≤
      ((stage.retell refused fs).filter Outcome.isRecord).length + 3 * fs.length + 1 := by
  induction fs generalizing stage with
  | nil =>
      have ends : (stage.last refused).length ≤ 1 := by
        cases stage with
        | reading f => rw [last]; split <;> simp
        | start | broken f | seeking f n => exact Nat.zero_le _
      rw [retell]
      omega
  | cons h rest ih =>
      have here := stage.length_step_le h
      have there := ih (stage.step h).2
      rw [retell, List.filter_append, filter_step, List.length_append, List.length_append, List.length_cons]
      omega

end Stage

/-! ## Reading a damaged log -/

section Reading

variable {env : WriteEnv} {dir dir' : Dir} {lives : List Life} {namePrefix nameSuffix : Bytes}

/-- What was returned is no more than what was written. -/
theorem Returns.length_le {records : List Record} {outcomes : List Outcome} {whole : List Nat}
    (returns : Returns records outcomes whole) : (outcomes.filter Outcome.isRecord).length ≤ records.length := by
  have within : whole ⊆ List.range records.length := by
    intro n mem
    obtain ⟨record, recordAt⟩ := exists_of_told returns.tells (List.mem_map_of_mem mem)
    exact List.mem_range.mpr (List.getElem?_eq_some_iff.mp recordAt).1
  have distinct : whole.Nodup := returns.increasing.imp Nat.ne_of_lt
  have fewer := (List.subperm_of_subset distinct within).length_le
  rwa [List.length_range, ← List.length_map (f := some), ← returns.tells.length_eq] at fewer

/-- Every file that can be listed is one of those the fuzzer counts. -/
theorem length_scanSegmentIds_le (dir : Dir) (namePrefix nameSuffix : Bytes) :
    (scanSegmentIds dir namePrefix nameSuffix).length ≤ (segmentFiles dir namePrefix nameSuffix).length := by
  have distinct : ((scanSegmentIds dir namePrefix nameSuffix).map fun id =>
      buildName namePrefix id nameSuffix).Nodup :=
    List.Nodup.map (fun _ _ => buildName_injective)
      ((scanSegmentIds_sorted dir namePrefix nameSuffix).imp UInt64.ne_of_lt)
  have within : ((scanSegmentIds dir namePrefix nameSuffix).map fun id =>
      buildName namePrefix id nameSuffix) ⊆ segmentFiles dir namePrefix nameSuffix := by
    intro name mem
    obtain ⟨id, listed, rfl⟩ := List.mem_map.mp mem
    rw [segmentFiles, List.mem_filter]
    refine ⟨AList.mem_keys.mpr (mem_scanSegmentIds.mp listed), ?_⟩
    rw [Bool.and_eq_true, List.isPrefixOf_iff_prefix, List.isSuffixOf_iff_suffix, buildName]
    exact ⟨⟨_, (List.append_assoc _ _ _).symm⟩, List.suffix_append _ _⟩
  have fewer := (List.subperm_of_subset distinct within).length_le
  rwa [List.length_map] at fewer

/-- Fewer files are shown than listed. -/
theorem Log.Displayed.length_le {L : Log} {files : SegId → Option Bytes} {ids : List SegId}
    {fragments : List Fragment} (displayed : L.Displayed files ids fragments) :
    fragments.length ≤ ids.length := by
  induction displayed with
  | nil => exact Nat.le_refl _
  | unusable _ _ ih => exact ih.trans (Nat.le_succ _)
  | usable _ _ ih => exact Nat.succ_le_succ ih

/-- What a reader tells of what is left of a log was written, and in the order it was
written. -/
theorem Faithful.tells {L : Log} {files : SegId → Option Bytes} {journal : Journal}
    (faithful : Faithful L journal) (disk : OnDisk files L)
    (damaged : Damaged files (dir'.files namePrefix nameSuffix)) {isDir overflowChecks : Bool}
    {log : LogRead} (isNew : LogRead.new isDir (some dir') namePrefix nameSuffix = .ok log)
    {caps : Nat → Nat} (nonempty : ∀ n, 0 < caps n) {outcomes : List Outcome} {last : ReadState}
    (reads : ReadsToEof (.still dir' noFault overflowChecks) caps log.begin outcomes last) :
    ∃ tolds : List (Option Nat), List.Forall₂ (Tells (journal.records[·]?)) outcomes tolds ∧
      tolds.reduceOption.Pairwise (· < ·) := by
  obtain ⟨listed, isListed, begins⟩ := LogRead.new_spec isNew
  obtain rfl := Option.some.inj isListed
  have presents : ∀ t, Presents (((ReadEnv.still dir' noFault overflowChecks).dir t).files namePrefix
      nameSuffix) L := fun _ => disk.presents damaged
  obtain ⟨_, _, _, tolds, _, account⟩ := Scene.readCalls_account (begins.ready presents)
    (fun n => takes_of_pos (nonempty n)) (outcomes.length + 1)
  obtain ⟨tells, increasing⟩ : List.Forall₂ (Tells (L.records[·]?))
      (readCalls (.still dir' noFault overflowChecks) caps (outcomes.length + 1) log.begin).1
      (tolds.map (·.map L.rank)) ∧ _ := tells_by_rank account.tells account.increasing
  rw [reads.run] at tells
  rw [← faithful.records]
  refine ⟨(tolds.map (·.map L.rank)).take outcomes.length, ?_, ?_⟩
  · have front := List.forall₂_take outcomes.length tells
    rwa [List.take_left' rfl] at front
  · exact increasing.sublist ((List.take_sublist _ _).filterMap _)

/-- Where damage only takes away, no check of the fuzzer fails, whatever the length of
its buffer. -/
theorem fuzzer_satisfied (wrote : Wrote env dir lives namePrefix nameSuffix)
    (damaged : Damaged ((Trail.run env dir lives).files namePrefix nameSuffix)
      (dir'.files namePrefix nameSuffix))
    {isDir : Bool} (overflowChecks : Bool) {log : LogRead}
    (isNew : LogRead.new isDir (some dir') namePrefix nameSuffix = .ok log) {bufLen : Nat}
    (nonempty : 0 < bufLen) :
    let written := (Trail.run env dir lives).journal.records.map Record.payload
    checkReads (.still dir' noFault overflowChecks) bufLen written false
      (readBound written (segmentFiles dir' namePrefix nameSuffix).length) none log.begin = true := by
  intro written
  obtain ⟨L, left⟩ := Trail.run_left wrote.leaves wrote.empty wrote.names wrote.clean
  obtain ⟨fragments, displayed, ⟨sorted, named⟩, reads, _⟩ :=
    left.faithful.reads left.disk damaged overflowChecks isNew
  obtain ⟨last, reads⟩ := reads (fun _ => bufLen) fun _ => nonempty
  obtain ⟨tolds, tells, increasing⟩ := left.faithful.tells left.disk damaged isNew (fun _ => nonempty) reads
  refine checkReads_of_tells reads tells increasing none (fun l impossible => by simp at impossible) ?_
  obtain ⟨strandAt, same⟩ := Log.strandAt_of_displays named
  have returned := (returns_by_rank (Stage.whole_places strandAt .start
    (endsRefused (dir'.files namePrefix nameSuffix) log.pending))
    (Stage.places_sorted .start sorted same).1).length_le
  have told := Stage.start.length_retell_le (endsRefused (dir'.files namePrefix nameSuffix) log.pending) fragments
  have shown := displayed.length_le
  obtain ⟨listed, isListed, begins⟩ := LogRead.new_spec isNew
  obtain rfl := Option.some.inj isListed
  have counted := length_scanSegmentIds_le dir' namePrefix nameSuffix
  rw [← begins.pending] at counted
  rw [left.faithful.records] at returned
  rw [clipped, List.length_mapIdx, readBound, List.length_map]
  omega

end Reading

theorem fuzzer_satisfied_sample :
    let written := (Trail.run Sample.env ∅ Sample.bridgingRecords).journal.records.map Record.payload
    checkReads (.still Sample.bridging noFault true) 1 written false
      (readBound written (segmentFiles Sample.bridging [] []).length) none
      (Sample.reader [1002, 1017, 1023]).begin = true :=
  fuzzer_satisfied Sample.wroteBridging (Damaged.erase _ _ _ _) true
    (show LogRead.new true (some Sample.bridging) [] [] = .ok (Sample.reader [1002, 1017, 1023])
      by decide +kernel)
    Nat.zero_lt_one

end Tcslog
