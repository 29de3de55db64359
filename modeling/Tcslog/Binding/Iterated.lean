import Tcslog.Binding.Iterators
import Tcslog.Read.Noted
import Tcslog.System.Retold

/-!
# Iterating over what is left of a log

The iterators pass over the ends of sessions and over records of which nothing is
left, and mark a record of which only a front is left.
-/

namespace Tcslog

open Binding Lib.Spanned

/-- What an iterator gives of the record at a place: the record, or a front of its
payload, which is marked. -/
inductive Yields {ι : Type} (recordAt : ι → Option Record) : IterRecord → ι → Prop
  | whole {p : ι} {record : Record} (there : recordAt p = some record) :
      Yields recordAt ⟨record.metadata, record.payload, false⟩ p
  | front {p : ι} {record : Record} {n : Nat} (there : recordAt p = some record) (some : 0 < n)
      (less : n < record.payload.length) : Yields recordAt ⟨record.metadata, record.payload.take n, true⟩ p

/-- An outcome that an iterator goes on after. -/
inductive Outcome.Onward : Outcome → Prop
  | record {payload : Bytes} {metadata : Meta} : Onward (.record payload metadata)
  | overflow {n : Nat} {bytes : Bytes} (some : 0 < n) : Onward (.failed (.readOverflow n) bytes)
  | truncated {lost n : Nat} {bytes : Bytes} : Onward (.failed (.readTruncated lost n) bytes)
  | boundary {bytes : Bytes} : Onward (.failed .sessionEnd bytes)

section Tells

variable {ι : Type} {recordAt : ι → Option Record} {told : Option ι}

/-- A record that is returned is one of those there are. -/
theorem Tells.of_record {payload : Bytes} {metadata : Meta}
    (tells : Tells recordAt (.record payload metadata) told) :
    ∃ p record, told = some p ∧ recordAt p = some record ∧ payload = record.payload ∧
      metadata = record.metadata := by
  generalize isOutcome : Outcome.record payload metadata = outcome at tells
  cases tells with
  | @whole p record there =>
      obtain ⟨rfl, rfl⟩ := Outcome.record.inj isOutcome
      exact ⟨p, record, rfl, there, rfl, rfl⟩
  | front there error less => contradiction
  | silent noBytes notOverflow => contradiction

/-- What a call places in the buffer when it fails is a front of a record. -/
theorem Tells.of_failed {e : LogError} {bytes : Bytes} (tells : Tells recordAt (.failed e bytes) told)
    (some : 0 < e.placed) : ∃ p record, told = .some p ∧ recordAt p = .some record ∧
      bytes = record.payload.take e.placed ∧ e.placed < record.payload.length := by
  generalize isOutcome : Outcome.failed e bytes = outcome at tells
  cases tells with
  | whole there => contradiction
  | @front p record e' n there error less =>
      obtain ⟨rfl, rfl⟩ := Outcome.failed.inj isOutcome
      rcases error with rfl | ⟨_, lost, rfl⟩ <;> exact ⟨p, record, rfl, there, rfl, less⟩
  | silent noBytes notOverflow =>
      obtain ⟨rfl, _⟩ := Outcome.failed.inj isOutcome
      exact absurd noBytes (Nat.ne_of_gt some)

end Tells

/-! ## A pass -/

section Pass

variable {env : ReadEnv} {s : ReadState}

/-- A pass makes of an outcome what the iterator makes of it. -/
theorem pass_of_record {payload : Bytes} {metadata : Meta}
    (called : (readCall env iterBufLen s).1 = .record payload metadata) :
    LogReadIter.pass env s = (.yields ⟨metadata, payload, false⟩, (readCall env iterBufLen s).2) := by
  simp only [readCall, LogReadIter.pass] at called ⊢
  cases ran : (read env iterBufLen).run s with
  | ok result s' =>
      simp only [ran, Outcome.record.injEq] at called ⊢
      rw [← called.1, ← called.2]
      rfl
  | error stop s' =>
      rw [ran] at called
      cases stop <;> contradiction

theorem pass_of_failed {e : LogError} {bytes : Bytes} (called : (readCall env iterBufLen s).1 = .failed e bytes) :
    LogReadIter.pass env s = (LogReadIter.onError e (readCall env iterBufLen s).2, (readCall env iterBufLen s).2) ∧
      bytes = front (readCall env iterBufLen s).2 e.placed := by
  simp only [readCall, LogReadIter.pass] at called ⊢
  cases ran : (read env iterBufLen).run s with
  | ok result s' =>
      rw [ran] at called
      contradiction
  | error stop s' =>
      cases stop with
      | panic => simp [ran] at called
      | stuck => simp [ran] at called
      | error e' =>
          simp only [ran, Outcome.failed.injEq] at called ⊢
          rw [← called.1, ← called.2]
          exact ⟨rfl, rfl⟩

end Pass

namespace Scene

variable {S : Scene} {s : ReadState} {k i : Nat}

/-- What a pass that is not the last makes of the records from `p` up to `p'`. -/
inductive Passed (S : Scene) (ops : List ReadOp) (p p' : ℕ ×ₗ ℕ) : Binding.Pass IterRecord → Prop
  | yields {record : IterRecord} {q : ℕ ×ₗ ℕ} (yields : Yields S.log.recordAt record q) (later : p ≤ q)
      (before : q < p')
      (others : ∀ q' record', p ≤ q' → q' < p' → S.log.recordAt q' = some record' →
        S.LostAt ops q' ∨ iterBufLen < record'.payload.length ∨
          q' = q ∧ record = ⟨record'.metadata, record'.payload, false⟩) : Passed S ops p p' (.yields record)
  | again (others : ∀ q' record', p ≤ q' → q' < p' → S.log.recordAt q' = some record' →
        S.LostAt ops q' ∨ iterBufLen < record'.payload.length) : Passed S ops p p' .again

/-- A pass after which the iterator goes on deals with records in a row. -/
theorem pass_dealt (ready : S.Ready s k i) (onward : (readCall S.env iterBufLen s).1.Onward) :
    ∃ k' i', S.Ready (readCall S.env iterBufLen s).2 k' i' ∧ s.ops <+: (readCall S.env iterBufLen s).2.ops ∧
      place k i ≤ place k' i' ∧ (LogReadIter.pass S.env s).2 = (readCall S.env iterBufLen s).2 ∧
      S.Passed (readCall S.env iterBufLen s).2.ops (place k i) (place k' i') (LogReadIter.pass S.env s).1 := by
  obtain ⟨k', i', told, ready', grew, _, dealt, notes⟩ :=
    readCall_notes ready (takes_of_pos (show 0 < iterBufLen by decide))
  refine ⟨k', i', ready', grew, dealt.forward, ?_⟩
  generalize isOutcome : (readCall S.env iterBufLen s).1 = outcome at onward dealt notes
  have others (notRecord : outcome.isRecord = false) (q : ℕ ×ₗ ℕ) (record : Record) (later : place k i ≤ q)
      (before : q < place k' i') (recordAt : S.log.recordAt q = some record) :
      S.LostAt (readCall S.env iterBufLen s).2.ops q ∨ iterBufLen < record.payload.length := by
    refine (dealt.others q record later before recordAt).imp_right fun rest => rest.resolve_right ?_
    rintro ⟨_, rfl⟩
    contradiction
  have marked {e : LogError} {bytes : Bytes} (isFailed : outcome = .failed e bytes) (some : 0 < e.placed) :
      S.Passed (readCall S.env iterBufLen s).2.ops (place k i) (place k' i') (.yields
        ⟨(readCall S.env iterBufLen s).2.lastMeta, front (readCall S.env iterBufLen s).2 e.placed, true⟩) := by
    subst isFailed
    obtain ⟨q, record, isTold, recordAt, bytes, less⟩ := dealt.tells.of_failed some
    obtain ⟨later, before⟩ := dealt.within q isTold
    rw [notes _ _ q record rfl isTold recordAt, ← (pass_of_failed isOutcome).2, bytes]
    exact .yields (.front recordAt some less) later before fun q' record' later before recordAt' =>
      (others rfl q' record' later before recordAt').imp_right .inl
  cases onward with
  | @record payload metadata =>
      rw [pass_of_record isOutcome]
      obtain ⟨q, record, isTold, recordAt, rfl, rfl⟩ := dealt.tells.of_record
      obtain ⟨later, before⟩ := dealt.within q isTold
      refine ⟨rfl, .yields (.whole recordAt) later before fun q' record' later before recordAt' => ?_⟩
      refine (dealt.others q' record' later before recordAt').imp_right fun rest => rest.imp_right ?_
      rintro ⟨isTold', isRecord⟩
      obtain ⟨samePayload, sameMeta⟩ := Outcome.record.inj isRecord
      rw [samePayload, sameMeta]
      exact ⟨Option.some.inj (isTold'.symm.trans isTold), rfl⟩
  | @overflow n bytes some =>
      rw [(pass_of_failed isOutcome).1, LogReadIter.onError, if_pos some]
      exact ⟨rfl, marked rfl some⟩
  | @truncated lost n bytes =>
      rw [(pass_of_failed isOutcome).1, LogReadIter.onError]
      refine ⟨rfl, ?_⟩
      by_cases some : 0 < n
      · rw [if_pos some]
        exact marked rfl some
      · rw [if_neg some]
        exact .again (others rfl)
  | boundary =>
      rw [(pass_of_failed isOutcome).1]
      exact ⟨rfl, .again (others rfl)⟩

/-- A walk that ended gave the records at these places, and all from `p` on that were
not denied the reader or too long. -/
structure Walked (S : Scene) (p : ℕ ×ₗ ℕ) (ops : List ReadOp) (walked : Walk IterRecord ReadState)
    (places : List (ℕ ×ₗ ℕ)) : Prop where
  ended : walked.ending = some .ended
  yields : List.Forall₂ (Yields S.log.recordAt) walked.records places
  increasing : places.Pairwise (· < ·)
  later : ∀ q ∈ places, p ≤ q
  others : ∀ q record, p ≤ q → S.log.recordAt q = some record →
    S.LostAt ops q ∨ iterBufLen < record.payload.length ∨
      (⟨record.metadata, record.payload, false⟩, q) ∈ walked.records.zip places

/-- The last pass of a walk. -/
theorem walk_eof (ready : S.Ready s k i) (isEof : (readCall S.env iterBufLen s).1 = .failed .eof []) :
    s.ops <+: (readCall S.env iterBufLen s).2.ops ∧
      S.Walked (place k i) (readCall S.env iterBufLen s).2.ops (walk (LogReadIter.pass S.env) 1 s) [] := by
  obtain ⟨k', i', told, ready', grew, ends, dealt, _⟩ :=
    readCall_notes ready (takes_of_pos (show 0 < iterBufLen by decide))
  obtain ⟨pending, closed⟩ := ends isEof
  have ended : walk (LogReadIter.pass S.env) 1 s = ⟨[], some .ended, (readCall S.env iterBufLen s).2⟩ := by
    simp only [walk, (pass_of_failed isEof).1]
    rfl
  rw [ended]
  refine ⟨grew, rfl, .nil, .nil, by simp, fun q record later recordAt => ?_⟩
  rcases lt_or_ge q (place k' i') with before | beyond
  · refine (dealt.others q record later before recordAt).imp_right fun rest => .inl (rest.resolve_right ?_)
    rintro ⟨_, isRecord⟩
    rw [isEof] at isRecord
    contradiction
  · exact .inl (ready'.lost pending closed q record beyond recordAt)

/-- A pass before a walk. -/
theorem Walked.cons {p p' : ℕ ×ₗ ℕ} {ops ops' : List ReadOp} {passes : Nat} {places : List (ℕ ×ₗ ℕ)}
    (passed : S.Passed ops p p' (LogReadIter.pass S.env s).1) (forward : p ≤ p') (grew : ops <+: ops')
    (walked : S.Walked p' ops' (walk (LogReadIter.pass S.env) passes (LogReadIter.pass S.env s).2) places) :
    ∃ places', S.Walked p ops' (walk (LogReadIter.pass S.env) (passes + 1) s) places' := by
  rw [walk]
  generalize (LogReadIter.pass S.env s).1 = made at passed ⊢
  -- behind the pass the records before `p'` are dealt with, and those from it on are
  have lostLater {q : ℕ ×ₗ ℕ} (lost : S.LostAt ops q) : S.LostAt ops' q := lost.mono grew
  cases passed with
  | again others =>
      refine ⟨places, walked.ended, walked.yields, walked.increasing,
        fun q mem => forward.trans (walked.later q mem), fun q record later recordAt => ?_⟩
      rcases lt_or_ge q p' with before | beyond
      · exact (others q record later before recordAt).imp lostLater .inl
      · exact walked.others q record beyond recordAt
  | @yields record q yields later before others =>
      refine ⟨q :: places, walked.ended, .cons yields walked.yields, ?_, ?_,
        fun q' record' later' recordAt => ?_⟩
      · exact List.pairwise_cons.mpr ⟨fun q' mem => before.trans_le (walked.later q' mem), walked.increasing⟩
      · exact List.forall_mem_cons.mpr ⟨later, fun q' mem => forward.trans (walked.later q' mem)⟩
      · rcases lt_or_ge q' p' with before' | beyond
        · refine (others q' record' later' before' recordAt).imp lostLater fun rest => rest.imp_right ?_
          rintro ⟨rfl, rfl⟩
          exact List.mem_cons_self
        · refine (walked.others q' record' beyond recordAt).imp_right fun rest => rest.imp_right ?_
          exact fun mem => List.mem_cons_of_mem _ mem

/-- A walk to the end of the log deals with records in a row. -/
theorem walk_dealt {outcomes : List Outcome} {last : ReadState} (ready : S.Ready s k i)
    (reads : ReadsToEof S.env (fun _ => iterBufLen) s outcomes last)
    (onward : ∀ outcome ∈ outcomes, outcome.Onward) : s.ops <+: last.ops ∧ ∃ places,
      S.Walked (place k i) last.ops (walk (LogReadIter.pass S.env) (outcomes.length + 1) s) places := by
  induction outcomes generalizing s k i with
  | nil =>
      have isLast : (readCall S.env iterBufLen s).2 = last := congrArg Prod.snd reads.run
      obtain ⟨grew, walked⟩ := walk_eof ready reads.of_nil
      rw [isLast] at grew walked
      exact ⟨grew, [], walked⟩
  | cons outcome outcomes ih =>
      obtain ⟨called, later⟩ := reads.of_cons
      obtain ⟨first, onward⟩ := List.forall_mem_cons.mp onward
      obtain ⟨k', i', ready', grew, forward, next, passed⟩ := pass_dealt ready (called ▸ first)
      obtain ⟨grew', places, walked⟩ := ih ready' later onward
      rw [← next] at walked
      exact ⟨grew.trans grew', walked.cons passed forward grew'⟩

end Scene

/-! ## What is left of a log -/

section Reading

variable {env : WriteEnv} {dir dir' : Dir} {lives : List Life} {namePrefix nameSuffix : Bytes}

/-- An iterator goes on after all that is told of what is left. -/
theorem onward_clipped {caps : Nat → Nat} (some : ∀ n, 0 < caps n) (refused : Bool) (fragments : List Fragment) :
    ∀ outcome ∈ clipped caps (Stage.start.retell refused fragments), outcome.Onward := by
  intro outcome mem
  obtain ⟨n, within, rfl⟩ := List.mem_mapIdx.mp mem
  have every : ∀ outcome ∈ Stage.start.retell refused fragments, (outcome.clip (caps n)).Onward := by
    have records (record : Record) : (record.outcome.clip (caps n)).Onward := by
      rw [Record.outcome, Outcome.clip]
      split
      · exact .overflow (some n)
      · exact .record
    have truncated (lost m : Nat) (bytes : Bytes) :
        ((Outcome.failed (.readTruncated lost m) bytes).clip (caps n)).Onward := by
      rw [Outcome.clip]
      split
      · exact .overflow (some n)
      · exact .truncated
    exact Stage.forall_mem_retell records (fun _ _ => truncated ..) (fun _ => truncated ..) .boundary _ _ _
  exact every _ (List.getElem_mem within)

/-- A place is told of by number. -/
theorem Yields.by_rank {L : Log} {record : IterRecord} {p : ℕ ×ₗ ℕ} (yields : Yields L.recordAt record p) :
    Yields (L.records[·]?) record (L.rank p) := by
  cases yields with
  | whole there => exact .whole (Log.records_rank there)
  | front there some less => exact .front (Log.records_rank there) some less

/-- There is a record at every place of which something is given. -/
theorem exists_of_yields {ι : Type} {recordAt : ι → Option Record} {records : List IterRecord} {places : List ι}
    (yields : List.Forall₂ (Yields recordAt) records places) {p : ι} (mem : p ∈ places) :
    ∃ record, recordAt p = some record := by
  induction yields with
  | nil => contradiction
  | cons yields _ ih =>
      rcases List.mem_cons.mp mem with rfl | later
      · cases yields with
        | whole there => exact ⟨_, there⟩
        | front there some less => exact ⟨_, there⟩
      · exact ih later

/-- Whatever is taken away from a log, both iterators come to its end.  They give
records in the order they were written, none twice, each with its metadata: the
record, or a front of its payload that is marked.  Every record whose bytes survive
and that their buffers have room for is given whole. -/
theorem iterated_of_damaged (wrote : Wrote env dir lives namePrefix nameSuffix)
    (damaged : Damaged ((Trail.run env dir lives).files namePrefix nameSuffix)
      (dir'.files namePrefix nameSuffix))
    {isDir : Bool} (overflowChecks : Bool) {log : LogRead}
    (isNew : LogRead.new isDir (some dir') namePrefix nameSuffix = .ok log) :
    ∃ L, OnDisk ((Trail.run env dir lives).files namePrefix nameSuffix) L ∧
      Faithful L (Trail.run env dir lives).journal ∧
      ∃ (passes : Nat) (numbers : List Nat),
        let walked := walk (LogReadIter.pass (.still dir' noFault overflowChecks)) passes log.begin
        walked.ending = some .ended ∧
          Agree walked (walk (PyReader.pass (.still dir' noFault overflowChecks)) passes ⟨log.begin, .empty⟩) ∧
          List.Forall₂ (Yields ((Trail.run env dir lives).journal.records[·]?)) walked.records numbers ∧
          numbers.Pairwise (· < ·) ∧
          ∀ k i σ record, L.strands[k]? = some σ → σ.records[i]? = some record →
            Survives (dir'.files namePrefix nameSuffix) σ i → record.payload.length ≤ iterBufLen →
            (⟨record.metadata, record.payload, false⟩, L.rank (place k i)) ∈ walked.records.zip numbers := by
  obtain ⟨L, left⟩ := Trail.run_left wrote.leaves wrote.empty wrote.names wrote.clean
  obtain ⟨fragments, _, _, reads, _⟩ := left.faithful.reads left.disk damaged overflowChecks isNew
  obtain ⟨last, reads⟩ := reads (fun _ => iterBufLen) fun _ => by decide
  obtain ⟨listed, isListed, begins⟩ := LogRead.new_spec isNew
  obtain rfl := Option.some.inj isListed
  have presents : ∀ t, Presents (((ReadEnv.still dir' noFault overflowChecks).dir t).files namePrefix
      nameSuffix) L := fun _ => left.disk.presents damaged
  have onward := onward_clipped (fun _ : Nat => show 0 < iterBufLen by decide)
    (endsRefused (dir'.files namePrefix nameSuffix) log.pending) fragments
  obtain ⟨_, places, walked⟩ := Scene.walk_dealt (begins.ready presents) reads onward
  refine ⟨L, left.disk, left.faithful, _, places.map L.rank, walked.ended, walks_agree _ _ ⟨log.begin, .empty⟩,
    ?_, ?_, ?_⟩
  · rw [← left.faithful.records, List.forall₂_map_right_iff]
    exact walked.yields.imp fun _ _ yields => yields.by_rank
  · refine List.pairwise_map.mpr (walked.increasing.imp_of_mem fun {p q} memP _ less => ?_)
    obtain ⟨record, there⟩ := exists_of_yields walked.yields memP
    exact Log.rank_lt there less
  · intro k i σ record strandAt recordAt survives short
    have there : L.recordAt (place k i) = some record := (Log.recordAt_place strandAt).trans recordAt
    have first : place 0 0 ≤ place k i := place_le_place.mpr (by omega)
    rw [List.zip_map_right]
    rcases walked.others _ record first there with lost | long | mem
    · obtain ⟨τ, strandAt', lost⟩ := lost
      obtain rfl := Option.some.inj (strandAt'.symm.trans strandAt)
      exact absurd lost survives.not_lost
    · exact absurd short (Nat.not_le_of_lt long)
    · exact List.mem_map_of_mem mem

end Reading

theorem iterated_of_damaged_sample :
    ∃ L, OnDisk ((Trail.run Sample.env ∅ Sample.fillingRecords).files [] []) L ∧
      Faithful L (Trail.run Sample.env ∅ Sample.fillingRecords).journal ∧
      ∃ (passes : Nat) (numbers : List Nat),
        let walked := walk (LogReadIter.pass (.still (Sample.fillingWithout 1017) noFault true)) passes
          (Sample.reader [1002, 1010]).begin
        walked.ending = some .ended ∧
          Agree walked (walk (PyReader.pass (.still (Sample.fillingWithout 1017) noFault true)) passes
            ⟨(Sample.reader [1002, 1010]).begin, .empty⟩) ∧
          List.Forall₂ (Yields ((Trail.run Sample.env ∅ Sample.fillingRecords).journal.records[·]?))
            walked.records numbers ∧
          numbers.Pairwise (· < ·) ∧
          ∀ k i σ record, L.strands[k]? = some σ → σ.records[i]? = some record →
            Survives ((Sample.fillingWithout 1017).files [] []) σ i → record.payload.length ≤ iterBufLen →
            (⟨record.metadata, record.payload, false⟩, L.rank (place k i)) ∈ walked.records.zip numbers :=
  iterated_of_damaged Sample.wroteFilling (Damaged.erase _ _ _ _) true
    (show LogRead.new true (some (Sample.fillingWithout 1017)) [] [] = .ok (Sample.reader [1002, 1010])
      by decide +kernel)

end Tcslog
