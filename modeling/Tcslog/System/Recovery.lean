import Tcslog.System.Sections
import Tcslog.System.Sequence
import Mathlib.Data.List.Sort

/-!
# Reading what writers that met faults left

Whatever requests of its writers fail, what they stored to its end is read back
whole, and of the rest at most fronts are reported, with nothing lost.
-/

namespace Tcslog

open Lib.Program Lib.Spanned

/-! ## Kept records -/

namespace Strand

variable {σ : Strand} {i : Nat} {record : Record}

/-- The kept records are those stored to their end. -/
theorem kept_iff (held : σ.Held) :
    σ.kept[i]? = some record ↔ σ.records[i]? = some record ∧ σ.start (i + 1) ≤ σ.stored := by
  unfold kept
  by_cases full : σ.Full
  · rw [if_pos full]
    refine ⟨fun recordAt => ⟨recordAt, ?_⟩, fun both => both.1⟩
    have last : σ.start (i + 1) ≤ σ.start σ.records.length :=
      start_mono (List.getElem?_eq_some_iff.mp recordAt).1
    rw [start_length] at last
    exact last.trans (le_of_eq full.symm)
  · rw [if_neg full, List.getElem?_dropLast]
    have notLast : i < σ.records.length → σ.start (i + 1) ≤ σ.stored → i < σ.records.length - 1 := by
      intro index stored
      refine Nat.lt_of_not_le fun past => full ?_
      rw [show i + 1 = σ.records.length by omega, start_length] at stored
      exact le_antisymm σ.storedLe stored
    constructor
    · intro recordAt
      split at recordAt
      next less =>
        refine ⟨recordAt, le_trans (start_mono (Nat.succ_le_of_lt less)) held⟩
      next => contradiction
    · rintro ⟨recordAt, stored⟩
      rw [if_pos (notLast (List.getElem?_eq_some_iff.mp recordAt).1 stored), recordAt]

theorem kept_append_torn (σ : Strand) : σ.kept ++ σ.torn = σ.records := by
  unfold kept torn
  split
  · exact List.append_nil _
  · cases isLast : σ.records.getLast? with
    | none => simp [List.getLast?_eq_none_iff.mp isLast]
    | some record => exact List.dropLast_append_getLast? record isLast

/-- The torn records are those not stored to their end. -/
theorem torn_of_not_stored (recordAt : σ.records[i]? = some record) (held : σ.Held)
    (short : σ.stored < σ.start (i + 1)) : record ∈ σ.torn := by
  have index := (List.getElem?_eq_some_iff.mp recordAt).1
  have notFull : ¬ σ.Full := by
    intro full
    have last : σ.start (i + 1) ≤ σ.start σ.records.length := start_mono index
    rw [start_length] at last
    have : σ.stored = σ.blocks.flatten.length := full
    omega
  have isLast : i = σ.records.length - 1 := by
    by_contra notLast
    have before : σ.start (i + 1) ≤ σ.start (σ.records.length - 1) := start_mono (by omega)
    have : σ.start (σ.records.length - 1) ≤ σ.stored := held
    omega
  rw [torn, if_neg notFull, List.getLast?_eq_getElem?, ← isLast, recordAt]
  simp

end Strand

/-! ## The scene -/

/-- A log that nobody damaged, in surroundings that do not fail, is found whole. -/
theorem fronted_of_onDisk {dir : Dir} {L : Log} {namePrefix nameSuffix : Bytes} {overflowChecks : Bool}
    (presents : ∀ t, Presents (((ReadEnv.still dir noFault overflowChecks).dir t).files namePrefix
      nameSuffix) L) (disk : OnDisk (dir.files namePrefix nameSuffix) L) (numbered : L.Numbered) :
    (sceneOf L (.still dir noFault overflowChecks) dir namePrefix nameSuffix presents).Fronted := by
  have isListed {id : SegId} {content : Bytes} (present : dir.files namePrefix nameSuffix id = some content) :
      id ∈ scanSegmentIds dir namePrefix nameSuffix :=
    mem_scanSegmentIds.mpr (AList.lookup_isSome.mp (Option.isSome_of_eq_some present))
  refine ⟨fun _ => rfl, fun id listed _ => AList.lookup_isSome.mpr (mem_scanSegmentIds.mp listed),
    fun {_ _ _ _ id' k' j' τ} _ _ fileAt' _ => ⟨isListed (disk.shown fileAt'), fun t => ?_⟩, numbered⟩
  refine ⟨(τ.data j').length, fileAt', Nat.le_refl _, ?_⟩
  rw [List.take_of_length_le (by simp)]
  exact disk.shown fileAt'

/-- The bytes stored of an undamaged log are not denied a reader. -/
theorem not_lost_of_stored {dir : Dir} {L : Log} {namePrefix nameSuffix : Bytes} {overflowChecks : Bool}
    {presents : ∀ t, Presents (((ReadEnv.still dir noFault overflowChecks).dir t).files namePrefix
      nameSuffix) L} {ops : List ReadOp} {k i : Nat} {σ : Strand}
    (disk : OnDisk (dir.files namePrefix nameSuffix) L) (strandAt : L.strands[k]? = some σ)
    (stored : σ.start (i + 1) ≤ σ.stored) :
    ¬ (sceneOf L (.still dir noFault overflowChecks) dir namePrefix nameSuffix presents).Lost
      ops k σ i := by
  refine Survives.not_lost fun q after before => ?_
  have within : q / σ.dataSection < σ.ids.length :=
    Nat.div_lt_of_lt_mul (Nat.mul_comm σ.dataSection _ ▸
      (before.trans_le stored).trans_le σ.storedFits)
  obtain ⟨content, present, usable, long⟩ := disk.shows_byte strandAt (before.trans_le stored)
    (List.getElem?_eq_getElem within)
  exact ⟨_, content, List.getElem?_eq_getElem within, present, usable, long⟩

namespace Scene

variable {S : Scene} {ops : List ReadOp} {long : Record → Prop} {p p' : ℕ ×ₗ ℕ}
  {outcomes : List Outcome} {tolds : List (Option (ℕ ×ₗ ℕ))}

/-- An outcome that is no record tells of no record, or of the front of one that
was denied the reader or too long. -/
theorem Account.failed (account : S.Account ops long p outcomes tolds p') {e : LogError} {bytes : Bytes}
    (mem : .failed e bytes ∈ outcomes) :
    e.placed = 0 ∧ bytes = [] ∨ ∃ q record, S.log.recordAt q = some record ∧
      (S.LostAt ops q ∨ long record) ∧ e.placed < record.payload.length ∧
      bytes = record.payload.take e.placed := by
  induction account with
  | nil => simp at mem
  | @cons p p' p'' outcome outcomes told tolds dealt _ ih =>
      rcases List.mem_cons.mp mem with here | later
      · obtain ⟨tells, _, within, _, others, _⟩ := dealt
        subst here
        cases tells with
        | silent noBytes => exact .inl ⟨noBytes, rfl⟩
        | @front q record _ n there error less =>
            have placed : e.placed = n := by
              rcases error with rfl | ⟨_, _, rfl⟩ <;> rfl
            obtain ⟨after, before⟩ := within q rfl
            refine .inr ⟨q, record, there, ?_, placed ▸ less, placed ▸ rfl⟩
            rcases others q record after before there with lost | tooLong | ⟨_, impossible⟩
            · exact .inl lost
            · exact .inr tooLong
            · contradiction
      · exact ih later

end Scene

/-- Records found in increasing order, and every one of them, are all of them. -/
theorem outcomes_of_ranks {records : List Record} {outcomes : List Outcome} (ranks : List Nat)
    (matching : List.Forall₂ (fun n outcome => ∃ record, records[n]? = some record ∧
      outcome = record.outcome) ranks outcomes)
    (increasing : ranks.Pairwise (· < ·)) (all : ∀ n, n < records.length → n ∈ ranks) :
    outcomes = records.map Record.outcome := by
  have bounded : ∀ n ∈ ranks, n < records.length := by
    intro n mem
    obtain ⟨m, less, rfl⟩ := List.getElem_of_mem mem
    obtain ⟨len, at_⟩ := List.forall₂_iff_get.mp matching
    obtain ⟨record, recordAt, _⟩ := at_ m less (len ▸ less)
    exact (List.getElem?_eq_some_iff.mp recordAt).1
  have isRange : ranks = List.range records.length := by
    refine increasing.eq_of_mem_iff List.pairwise_lt_range fun n => ?_
    rw [List.mem_range]
    exact ⟨bounded n, all n⟩
  subst isRange
  obtain ⟨len, at_⟩ := List.forall₂_iff_get.mp matching
  rw [List.length_range] at len
  refine List.ext_getElem (by rw [List.length_map, len]) fun n less less' => ?_
  obtain ⟨record, recordAt, isIt⟩ := at_ n (by rw [List.length_range, len]; exact less) less
  simp only [List.get_eq_getElem, List.getElem_range] at recordAt isIt
  rw [isIt, List.getElem_map, (List.getElem?_eq_some_iff.mp recordAt).2]

namespace Scene

variable {S : Scene} {s : ReadState} {caps : Nat → Nat} {ops : List ReadOp} {outcomes : List Outcome}
  {tolds : List (Option (ℕ ×ₗ ℕ))} {p' : ℕ ×ₗ ℕ}

/-- What was stored of a log to the end of a record is never denied the reader. -/
def Seen (S : Scene) : Prop :=
  ∀ {ops k i σ}, S.log.strands[k]? = some σ → σ.start (i + 1) ≤ σ.stored → ¬ S.Lost ops k σ i

/-- A record that was denied the reader is not stored to its end. -/
theorem Seen.torn (seen : S.Seen) (held : ∀ σ ∈ S.log.strands, σ.Held) {p : ℕ ×ₗ ℕ} {record : Record}
    (there : S.log.recordAt p = some record) (lost : S.LostAt ops p) : record ∈ S.log.torn := by
  obtain ⟨k, i, rfl⟩ := exists_place p
  obtain ⟨σ, strandAt, lost⟩ := lost
  replace strandAt : S.log.strands[k]? = some σ := strandAt
  rw [Log.recordAt_place strandAt] at there
  have mem := List.mem_of_getElem? strandAt
  refine List.mem_flatMap.mpr ⟨σ, mem, Strand.torn_of_not_stored there (held σ mem) ?_⟩
  exact Nat.lt_of_not_le fun stored => seen strandAt stored lost

/-- What is returned whole is kept, in the order it was written. -/
theorem Account.whole_kept {long : Record → Prop} {p : ℕ ×ₗ ℕ}
    (account : S.Account ops long p outcomes tolds p') (held : ∀ σ ∈ S.log.strands, σ.Held) :
    ∃ whole : List (ℕ ×ₗ ℕ),
      List.Forall₂ (fun n outcome => ∃ record, S.log.kept[n]? = some record ∧ outcome = record.outcome)
        (whole.map (S.log.rankBy Strand.kept)) (outcomes.filter Outcome.isRecord) ∧
      (whole.map (S.log.rankBy Strand.kept)).Pairwise (· < ·) ∧
      ∀ q record, p ≤ q → q < p' → S.log.recordAt q = some record →
        S.LostAt ops q ∨ long record ∨ q ∈ whole := by
  obtain ⟨whole, sub, matching, stored, returned⟩ := account.whole
  have keptAt {p : ℕ ×ₗ ℕ} (mem : p ∈ whole) :
      ∃ k i σ record, p = place k i ∧ S.log.strands[k]? = some σ ∧ σ.kept[i]? = some record ∧
        S.log.recordAt p = some record := by
    obtain ⟨n, less, isP⟩ := List.getElem_of_mem mem
    obtain ⟨len, at_⟩ := List.forall₂_iff_get.mp matching
    obtain ⟨record, there, _⟩ := at_ n less (len ▸ less)
    rw [List.get_eq_getElem, isP] at there
    obtain ⟨k, i, rfl⟩ := exists_place p
    obtain ⟨id, j, σ, c, measured, stored⟩ := stored k i mem
    have strandAt := measured.fileAt.strandAt
    refine ⟨k, i, σ, record, rfl, strandAt, ?_, there⟩
    rw [Log.recordAt_place strandAt] at there
    exact (Strand.kept_iff (held σ (List.mem_of_getElem? strandAt))).mpr ⟨there, stored⟩
  refine ⟨whole, ?_, ?_, returned⟩
  · rw [List.forall₂_map_left_iff, List.forall₂_iff_get]
    refine ⟨matching.length_eq, fun n less less' => ?_⟩
    obtain ⟨record', there', isIt⟩ := (List.forall₂_iff_get.mp matching).2 n less less'
    obtain ⟨k, i, σ, record, isPlace, strandAt, keptAt, there⟩ := keptAt (List.get_mem whole ⟨n, less⟩)
    obtain rfl := Option.some.inj (there'.symm.trans there)
    rw [isPlace]
    exact ⟨record', Log.getElem?_rankBy strandAt keptAt, isIt⟩
  · refine List.pairwise_map.mpr ((account.increasing.sublist sub).imp_of_mem ?_)
    intro p q mem _ less
    obtain ⟨k, i, σ, record, rfl, strandAt, keptAt, _⟩ := keptAt mem
    exact Log.rankBy_lt strandAt (List.getElem?_eq_some_iff.mp keptAt).1 less

/-- At the end of the log, what was neither denied the reader nor too long was
returned whole. -/
theorem mem_whole_of_seen {long : Record → Prop} {whole : List (ℕ ×ₗ ℕ)}
    (returned : ∀ q record, place 0 0 ≤ q → q < p' → S.log.recordAt q = some record →
      S.LostAt ops q ∨ long record ∨ q ∈ whole)
    (rest : ∀ q record, p' ≤ q → S.log.recordAt q = some record → S.LostAt ops q) {q : ℕ ×ₗ ℕ}
    {record : Record} (there : S.log.recordAt q = some record) (seen : ¬ S.LostAt ops q)
    (fits : ¬ long record) : q ∈ whole := by
  rcases lt_or_ge q p' with before | later
  · have first : place 0 0 ≤ q := by
      obtain ⟨k, i, rfl⟩ := exists_place q
      rw [place_le_place]
      omega
    rcases returned q record first before there with lost | tooLong | mem
    · exact absurd lost seen
    · exact absurd tooLong fits
    · exact mem
  · exact absurd (rest q record later there) seen

/-- Where the records that are kept are those whose bytes are seen, exactly
they are returned. -/
theorem Account.kept (account : S.Account ops (fun record => ∃ n, caps n < record.payload.length)
      (place 0 0) outcomes tolds p')
    (rest : ∀ q record, p' ≤ q → S.log.recordAt q = some record → S.LostAt ops q)
    (seen : S.Seen) (held : ∀ σ ∈ S.log.strands, σ.Held) (ample : Ample caps S.log.records) :
    outcomes.filter Outcome.isRecord = S.log.kept.map Record.outcome := by
  obtain ⟨whole, matching, increasing, returned⟩ := account.whole_kept held
  refine outcomes_of_ranks _ matching increasing fun n less => ?_
  obtain ⟨k, i, σ, strandAt, keptAt, isRank⟩ :=
    Log.exists_rankBy (List.getElem?_eq_getElem less : (S.log.strands.flatMap Strand.kept)[n]? = _)
  obtain ⟨recordAt, stored⟩ :=
    (Strand.kept_iff (held σ (List.mem_of_getElem? strandAt))).mp keptAt
  have there := (Log.recordAt_place strandAt).trans recordAt
  have notLost : ¬ S.LostAt ops (place k i) := by
    rintro ⟨τ, strandAt', lost⟩
    obtain rfl := Option.some.inj (strandAt'.symm.trans strandAt)
    exact seen strandAt stored lost
  exact List.mem_map.mpr ⟨_, mem_whole_of_seen returned rest there notLost (ample.not_long there), isRank⟩

/-- The end of a session, or a record cut short with nothing lost: a front of
one that was not stored to its end. -/
def CutShort (torn : List Bytes) : Outcome → Prop
  | .record _ _ => True
  | .failed .sessionEnd bytes => bytes = []
  | .failed (.readTruncated 0 n) bytes =>
      n = 0 ∧ bytes = [] ∨ ∃ payload ∈ torn, n < payload.length ∧ bytes = payload.take n
  | _ => False

theorem CutShort.mono {torn torn' : List Bytes} {outcome : Outcome} (cut : CutShort torn outcome)
    (sub : ∀ payload ∈ torn, payload ∈ torn') : CutShort torn' outcome := by
  unfold CutShort at cut ⊢
  split at cut
  · trivial
  · exact cut
  · exact cut.imp_right fun ⟨payload, mem, front⟩ => ⟨payload, sub payload mem, front⟩
  · exact cut.elim

/-- Reading a log with no file missing, exactly what is kept is returned, and
nothing else is reported but fronts of what is not. -/
theorem reads_kept (fronted : S.Fronted) (seen : S.Seen) (held : ∀ σ ∈ S.log.strands, σ.Held)
    (ready : S.Ready s 0 0) (sequenced : S.Sequenced s) (ample : Ample caps S.log.records) :
    ∃ outcomes last, ReadsToEof S.env caps s outcomes last ∧
      outcomes.filter Outcome.isRecord = S.log.kept.map Record.outcome ∧
      ∀ outcome ∈ outcomes, CutShort (S.log.torn.map Record.payload) outcome := by
  obtain ⟨outcomes, last, reads, _, k', i', tolds, account, rest⟩ :=
    Scene.reads_to_eof ready ample.takes
  refine ⟨outcomes, last, reads, account.kept rest seen held ample, fun outcome mem => ?_⟩
  have lossless := readCalls_sequenced fronted ready sequenced ample.takes (outcomes.length + 1)
  rw [reads.run] at lossless
  cases outcome with
  | record payload metadata => trivial
  | panicked =>
      obtain ⟨n, less, isIt⟩ := List.getElem_of_mem mem
      obtain ⟨len, at_⟩ := List.forall₂_iff_get.mp account.tells
      have tells := at_ n less (len ▸ less)
      rw [List.get_eq_getElem, isIt] at tells
      cases tells
  | failed e bytes =>
      have noLoss := lossless e bytes (List.mem_append_left _ mem)
      have told := account.failed mem
      have silent (none : e.placed = 0) : bytes = [] := by
        rcases told with ⟨_, rfl⟩ | ⟨_, _, _, _, _, rfl⟩
        · rfl
        · rw [none, List.take_zero]
      cases e with
      | eof => exact absurd (silent rfl ▸ mem) reads.first
      | sessionEnd => exact silent rfl
      | readOverflow n =>
          obtain ⟨q, record, there, tooLong⟩ := account.overflow mem
          exact absurd tooLong (ample.not_long there)
      | readTruncated lost n =>
          cases lost with
          | succ lost => exact noLoss.elim
          | zero =>
              rcases told with nothing | ⟨q, record, there, lost, less, front⟩
              · exact .inl nothing
              · have torn := seen.torn held there (lost.resolve_right (ample.not_long there))
                exact .inr ⟨_, List.mem_map_of_mem torn, less, front⟩
      | _ => exact noLoss.elim

end Scene

section Reading

variable {env : WriteEnv} {dir : Dir} {lives : List Life} {namePrefix nameSuffix : Bytes}

/-- Whatever requests of its writers fail, what they stored of the log to its end
is read back whole, each record once and in order; of records not stored to
their end at most fronts are reported, with nothing lost; and no file is longer
than its writer was told. -/
theorem read_after_faults (leaves : env.Leaves)
    (empty : ∀ id, dir.files namePrefix nameSuffix id = none)
    (names : ∀ life ∈ lives, life.args.namePrefix = namePrefix ∧ life.args.nameSuffix = nameSuffix)
    (cleared : (Trail.run env dir lives).Cleared) :
    (∀ id content, (Trail.run env dir lives).files namePrefix nameSuffix id = some content →
      content.length < segmentFileHeaderLen ∨
        ∃ header, SegmentHeader.fromBytes content = .ok header ∧
          content.length ≤ header.maxSize.toNat ∧
          ∃ life ∈ lives, header.maxSize = life.args.segSizeMax) ∧
    ∀ {isDir overflowChecks : Bool} {log : LogRead} {caps : Nat → Nat},
      LogRead.new isDir (some (Trail.run env dir lives).state.dir) namePrefix nameSuffix = .ok log →
      Ample caps (Trail.run env dir lives).journal.records →
      (∀ n, ∀ msg ∈ (Trail.run env dir lives).journal.failed, msg.length ≤ caps n) →
      ∃ outcomes last,
        ReadsToEof (.still (Trail.run env dir lives).state.dir noFault overflowChecks) caps log.begin
          outcomes last ∧
        outcomes.filter Outcome.isRecord =
          (Trail.run env dir lives).journal.records.map Record.outcome ∧
        ∀ outcome ∈ outcomes,
          Scene.CutShort (Trail.run env dir lives).journal.failed outcome := by
  have robust := Trail.run_robust (fun size => ∃ life ∈ lives, life.args.segSizeMax = size) leaves empty names
    (fun life mem => ⟨life, mem, rfl⟩) cleared
  obtain ⟨L, disk, mended⟩ := robust.mended
  refine ⟨fun id content present => ?_, ?_⟩
  · rcases disk.others present with ⟨k, j, σ, fileAt⟩ | short
    · obtain rfl := Option.some.inj ((disk.shown fileAt).symm.trans present)
      obtain ⟨life, mem, size⟩ := mended.sized σ (List.mem_of_getElem? fileAt.strandAt)
      have room := σ.dataSection_add
      have short := σ.length_data_le j
      refine .inr ⟨σ.header j id, fromBytes_of_file σ j id, ?_, life, mem, size.symm⟩
      rw [σ.length_file]
      exact le_trans (Nat.add_le_add_left short _) (by rw [Nat.add_comm, room]; rfl)
    · exact .inl short
  intro isDir overflowChecks log caps isNew ample ampleFailed
  obtain ⟨listed, isListed, begins⟩ := LogRead.new_spec isNew
  obtain rfl := Option.some.inj isListed
  have presents : ∀ t, Presents (((ReadEnv.still (Trail.run env dir lives).state.dir noFault
      overflowChecks).dir t).files namePrefix nameSuffix) L := fun _ => disk.presents (Damaged.refl _)
  have ampleAll : Ample caps L.records := by
    intro n record mem
    obtain ⟨σ, memStrand, mem⟩ := List.mem_flatMap.mp mem
    rw [← σ.kept_append_torn] at mem
    rcases List.mem_append.mp mem with kept | torn
    · exact ample n record (mended.kept ▸ List.mem_flatMap.mpr ⟨σ, memStrand, kept⟩)
    · exact ampleFailed n _ (mended.torn record (List.mem_flatMap.mpr ⟨σ, memStrand, torn⟩))
  have fronted := fronted_of_onDisk presents disk mended.numbered
  obtain ⟨outcomes, last, reads, kept, others⟩ := Scene.reads_kept fronted
    (fun strandAt stored => not_lost_of_stored disk strandAt stored) mended.held
    (begins.ready presents) (Scene.sequenced_begin fronted begins.pending begins.startLost) ampleAll
  refine ⟨outcomes, last, reads, by rw [kept, ← mended.kept]; rfl, fun outcome mem => ?_⟩
  exact (others outcome mem).mono fun payload torn => by
    obtain ⟨record, mem, rfl⟩ := List.mem_map.mp torn
    exact mended.torn record mem

/-- The surroundings of a writer whose second record fails halfway. -/
def Sample.faultyEnv : WriteEnv :=
  { Sample.env with fault := (· == 9), stored := fun _ => 2 }

theorem read_after_faults_sample :
    (∀ id content, (Trail.run Sample.faultyEnv ∅ Sample.lives).files [] [] id = some content →
      content.length < segmentFileHeaderLen ∨
        ∃ header, SegmentHeader.fromBytes content = .ok header ∧
          content.length ≤ header.maxSize.toNat ∧
          ∃ life ∈ Sample.lives, header.maxSize = life.args.segSizeMax) ∧
    ∀ {isDir overflowChecks : Bool} {log : LogRead} {caps : Nat → Nat},
      LogRead.new isDir (some (Trail.run Sample.faultyEnv ∅ Sample.lives).state.dir) [] [] = .ok log →
      Ample caps (Trail.run Sample.faultyEnv ∅ Sample.lives).journal.records →
      (∀ n, ∀ msg ∈ (Trail.run Sample.faultyEnv ∅ Sample.lives).journal.failed, msg.length ≤ caps n) →
      ∃ outcomes last,
        ReadsToEof (.still (Trail.run Sample.faultyEnv ∅ Sample.lives).state.dir noFault overflowChecks)
          caps log.begin outcomes last ∧
        outcomes.filter Outcome.isRecord =
          (Trail.run Sample.faultyEnv ∅ Sample.lives).journal.records.map Record.outcome ∧
        ∀ outcome ∈ outcomes,
          Scene.CutShort (Trail.run Sample.faultyEnv ∅ Sample.lives).journal.failed outcome :=
  read_after_faults Sample.wrote.leaves Sample.wrote.empty Sample.wrote.names
    (Trail.cleared_iff.mpr (by decide +kernel))

end Reading

end Tcslog
