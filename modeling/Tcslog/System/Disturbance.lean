import Tcslog.Read.Footprint
import Tcslog.System.Damage

/-!
# Reading while requests fail

A request that fails costs at most the records of its file.  The reader reports
the failure, gives the file up and goes on with the next.
-/

namespace Tcslog

open Lib.Program Lib.Spanned

namespace Scene

variable {S : Scene}

/-- The call's last request concerned a file that the reader no longer holds,
and it failed. -/
structure GaveUpFile (S : Scene) (s' : ReadState) : Prop where
  last : ∃ ops op, s'.ops = ops ++ [op] ∧ op.id ∉ held s' ∧ op.id ∈ S.listing ∧
    (S.env.fault ops.length = true ∨ (S.env.dir ops.length).lookup (S.name op.id) = none)

theorem Refused.gaveUp {m t : ReadState} {id : SegId} {rest : List SegId} (refused : S.Refused m t id)
    (pending : t.pending = rest) (suffix : id :: rest <:+ S.listing) :
    S.GaveUpFile t.losePosition := by
  obtain ⟨request, ops⟩ := refused.last
  refine ⟨m.ops, ⟨request, id⟩, ops, ?_, suffix.mem List.mem_cons_self, ?_⟩
  · rw [held_of_closed (show t.losePosition.current = none from rfl)]
    intro mem
    have sorted := S.sorted.sublist suffix.sublist
    have less := List.rel_of_pairwise_cons sorted (show id ∈ rest from pending ▸ mem)
    exact UInt64.lt_irrefl _ less
  · have found := refused.found
    split at found
    next fault => exact .inl fault
    next => exact .inr found.symm

theorem Failed.gaveUpFile {t s' : ReadState} {k j c i y : Nat} {σ : Strand}
    (failed : S.Failed t k j σ c i y .ioError s') : S.GaveUpFile s'.losePosition := by
  generalize isError : LogError.ioError = e at failed
  cases failed with
  | broke reached more broke =>
      obtain ⟨cause, _, _, _, _⟩ := broke
      cases cause with
      | ended => contradiction
      | rejected => contradiction
      | boundary found differs pending session recovery error =>
          rw [error] at isError
          split at isError <;> contradiction
  | denied reached denied =>
      have pending := congrArg LogRead.pending denied.refused.asked.toLogRead_eq
      exact denied.refused.gaveUp pending denied.mid.suffix

theorem Reading.gaveUpFile {t s' : ReadState} {k j c i cap : Nat} {σ : Strand}
    (reading : S.Reading t k j σ c i cap (.error .ioError) s') : S.GaveUpFile s' := by
  generalize isError : Except.error LogError.ioError = result at reading
  cases reading with
  | whole => contradiction
  | overflow => simp at isError
  | cut => simp at isError
  | failed failed result front =>
      obtain rfl := Except.error.inj isError
      exact result ▸ failed.gaveUpFile

/-- A call that reports an error of a request made that request last. -/
theorem Step.gaveUpFile {s s' : ReadState} {cap k i : Nat}
    (step : S.Step s cap k i (.error .ioError) s') : S.GaveUpFile s' := by
  generalize isError : Except.error LogError.ioError = result at step
  cases step with
  | eof => simp at isError
  | next rest more reading => exact (isError ▸ reading).gaveUpFile
  | startLost => simp at isError
  | fresh closed fresh none synced reading => exact (isError ▸ reading).gaveUpFile
  | recovered closed recovered synced reading => exact (isError ▸ reading).gaveUpFile
  | unlocated closed located grew named result =>
      obtain rfl := Except.error.inj isError
      subst result
      generalize isError : Except.error LogError.ioError = outcome at located
      cases located with
      | ended => simp at isError
      | boundary => simp at isError
      | fresh => contradiction
      | recovered => contradiction
      | denied past opens refused result recovery =>
          obtain ⟨m, refused⟩ := refused
          refine refused.gaveUp (congrArg Search.pending result) ?_
          exact opens.found.suffix.trans (past.suffix.trans closed.suffix)

/-- After the error of a request no later call asks about the file again. -/
theorem ioError_gives_up {s : ReadState} {k i cap : Nat} {bytes : Bytes} (ready : S.Ready s k i)
    (takes : S.Takes cap) (error : (readCall S.env cap s).1 = .failed .ioError bytes) :
    ∃ ops op, (readCall S.env cap s).2.ops = ops ++ [op] ∧ op.id ∈ S.listing ∧
      (S.env.fault ops.length = true ∨ (S.env.dir ops.length).lookup (S.name op.id) = none) ∧
      ∀ caps calls, ∀ op' ∈ (readCalls S.env caps calls (readCall S.env cap s).2).2.ops.drop
        (ops.length + 1), op'.id ≠ op.id := by
  obtain ⟨result, step, outcome⟩ := readCall_step ready takes
  rw [error] at outcome
  obtain rfl : result = .error .ioError := by
    cases result with
    | ok result => simp [outcomeOf] at outcome
    | error e =>
        simp only [outcomeOf, Outcome.failed.injEq] at outcome
        rw [← outcome.1]
  obtain ⟨ops, op, isLast, gone, listed, why⟩ := step.gaveUpFile.last
  refine ⟨ops, op, isLast, listed, why, fun caps calls op' mem => ?_⟩
  have start : Confined (· ≠ op.id) (ops ++ [op]) (readCall S.env cap s).2 :=
    ⟨fun id mem same => gone (same ▸ mem), [], by rw [isLast, List.append_nil], by simp⟩
  obtain ⟨more, same, asked⟩ := (readCalls_confined S.env caps calls start).asked
  rw [same, List.drop_left' (by simp)] at mem
  exact asked op' mem

end Scene

/-- Record `i` of a strand lies in files about which no request failed. -/
def Undisturbed (ops : List ReadOp) (fault : Nat → Bool) (σ : Strand) (i : Nat) : Prop :=
  ∀ q, σ.start i ≤ q → q < σ.start (i + 1) → ∃ id, σ.ids[q / σ.dataSection]? = some id ∧
    ∀ t op, ops[t]? = some op → op.id = id → fault t = false

section Reading

variable {env : WriteEnv} {dir : Dir} {lives : List Life} {namePrefix nameSuffix : Bytes}

/-- Whatever requests fail, reading an intact log returns written records in
order, leaves alone each file after an error, comes to the end of the log, and
returns every record of the files about which no request failed. -/
theorem read_disturbed (wrote : Wrote env dir lives namePrefix nameSuffix)
    {isDir overflowChecks : Bool} {log : LogRead}
    (isNew : LogRead.new isDir (some (Trail.run env dir lives).state.dir) namePrefix nameSuffix =
      .ok log) (fault : Nat → Bool) :
    let readEnv := ReadEnv.still (Trail.run env dir lives).state.dir fault overflowChecks
    (∀ caps : Nat → Nat, (∀ n, 0 < caps n) → ∀ calls, ∃ tolds : List (Option Nat),
      List.Forall₂ (Tells ((Trail.run env dir lives).journal.records[·]?))
        (readCalls readEnv caps calls log.begin).1 tolds ∧
      tolds.reduceOption.Pairwise (· < ·)) ∧
    (∀ caps : Nat → Nat, (∀ n, 0 < caps n) → ∀ calls cap bytes, 0 < cap →
      (readCall readEnv cap (readCalls readEnv caps calls log.begin).2).1 = .failed .ioError bytes →
      ∃ ops op, (readCall readEnv cap (readCalls readEnv caps calls log.begin).2).2.ops = ops ++ [op] ∧
        fault ops.length = true ∧
        ∀ caps' calls', ∀ op' ∈ (readCalls readEnv caps' calls'
          (readCall readEnv cap (readCalls readEnv caps calls log.begin).2).2).2.ops.drop
            (ops.length + 1), op'.id ≠ op.id) ∧
    (∀ caps : Nat → Nat, (∀ n, 0 < caps n) →
      ∃ outcomes last, ReadsToEof readEnv caps log.begin outcomes last) ∧
    ∃ L, OnDisk ((Trail.run env dir lives).files namePrefix nameSuffix) L ∧
      Faithful L (Trail.run env dir lives).journal ∧
      ∀ caps : Nat → Nat, Ample caps (Trail.run env dir lives).journal.records →
      ∃ outcomes last whole, ReadsToEof readEnv caps log.begin outcomes last ∧
        Returns (Trail.run env dir lives).journal.records outcomes whole ∧
        ∀ k i σ, L.strands[k]? = some σ → i < σ.records.length →
          Undisturbed last.ops fault σ i → L.rank (place k i) ∈ whole := by
  obtain ⟨L, disk, _, faithful⟩ := Trail.run_sound wrote.leaves wrote.empty wrote.names wrote.clean
  obtain ⟨listed, isListed, begins⟩ := LogRead.new_spec isNew
  obtain rfl := Option.some.inj isListed
  intro readEnv
  have presents : ∀ t, Presents ((readEnv.dir t).files namePrefix nameSuffix) L :=
    fun _ => disk.presents (Damaged.refl _)
  have ready := begins.ready presents
  refine ⟨fun caps some calls => ?_, fun caps some calls cap bytes pos error => ?_,
    fun caps some => ?_, L, disk, faithful, fun caps ample => ?_⟩
  · obtain ⟨_, _, _, tolds, _, account⟩ :=
      Scene.readCalls_account ready (fun n => takes_of_pos (some n)) calls
    rw [← faithful.records]
    exact ⟨_, tells_by_rank account.tells account.increasing⟩
  · obtain ⟨_, k, i, _, ready', _⟩ :=
      Scene.readCalls_account ready (fun n => takes_of_pos (some n)) calls
    obtain ⟨ops, op, isLast, listed, why, later⟩ :=
      Scene.ioError_gives_up ready' (takes_of_pos pos) error
    refine ⟨ops, op, isLast, why.resolve_right fun absent => ?_, later⟩
    have present := AList.lookup_isSome.mpr (mem_scanSegmentIds.mp listed)
    exact Option.isSome_iff_ne_none.mp present absent
  · obtain ⟨outcomes, last, reads, _⟩ :=
      Scene.reads_to_eof ready fun n => takes_of_pos (some n)
    exact ⟨outcomes, last, reads⟩
  · rw [← faithful.records] at ample ⊢
    obtain ⟨outcomes, last, whole, reads, returns, seen⟩ := Scene.returns_to_eof ready ample
    refine ⟨outcomes, last, whole, reads, returns, fun k i σ strandAt index undisturbed => ?_⟩
    refine seen k i σ strandAt index ?_
    rintro ⟨q, after, before, hidden⟩
    obtain ⟨id, idAt, quiet⟩ := undisturbed q after before
    have stored : q < σ.stored := by
      obtain ⟨session, _, keeps⟩ := faithful.exists_keeps strandAt
      have full : σ.stored = σ.blocks.flatten.length := keeps.full
      have last : σ.start (i + 1) ≤ σ.start σ.records.length := Strand.start_mono index
      rw [Strand.start_length] at last
      omega
    obtain ⟨content, present, usable, long⟩ := disk.shows_byte strandAt stored idAt
    refine Scene.not_hidden idAt ?_ ?_ hidden
    · exact mem_scanSegmentIds.mpr (AList.lookup_isSome.mp (Option.isSome_of_eq_some present))
    · exact fun t op opAt about => ⟨quiet t op opAt about, content, present, usable, long⟩

theorem read_disturbed_sample :
    let readEnv := ReadEnv.still (Trail.run Sample.env ∅ Sample.lives).state.dir (· == 3) true
    let begun := (Sample.reader [1002, 1011]).begin
    (∀ caps : Nat → Nat, (∀ n, 0 < caps n) → ∀ calls, ∃ tolds : List (Option Nat),
      List.Forall₂ (Tells ((Trail.run Sample.env ∅ Sample.lives).journal.records[·]?))
        (readCalls readEnv caps calls begun).1 tolds ∧
      tolds.reduceOption.Pairwise (· < ·)) ∧
    (∀ caps : Nat → Nat, (∀ n, 0 < caps n) → ∀ calls cap bytes, 0 < cap →
      (readCall readEnv cap (readCalls readEnv caps calls begun).2).1 = .failed .ioError bytes →
      ∃ ops op, (readCall readEnv cap (readCalls readEnv caps calls begun).2).2.ops = ops ++ [op] ∧
        (ops.length == 3) = true ∧
        ∀ caps' calls', ∀ op' ∈ (readCalls readEnv caps' calls'
          (readCall readEnv cap (readCalls readEnv caps calls begun).2).2).2.ops.drop
            (ops.length + 1), op'.id ≠ op.id) ∧
    (∀ caps : Nat → Nat, (∀ n, 0 < caps n) →
      ∃ outcomes last, ReadsToEof readEnv caps begun outcomes last) ∧
    ∃ L, OnDisk ((Trail.run Sample.env ∅ Sample.lives).files [] []) L ∧
      Faithful L (Trail.run Sample.env ∅ Sample.lives).journal ∧
      ∀ caps : Nat → Nat, Ample caps (Trail.run Sample.env ∅ Sample.lives).journal.records →
      ∃ outcomes last whole, ReadsToEof readEnv caps begun outcomes last ∧
        Returns (Trail.run Sample.env ∅ Sample.lives).journal.records outcomes whole ∧
        ∀ k i σ, L.strands[k]? = some σ → i < σ.records.length →
          Undisturbed last.ops (· == 3) σ i → L.rank (place k i) ∈ whole :=
  read_disturbed Sample.wrote
    (show LogRead.new true _ [] [] = .ok (Sample.reader [1002, 1011]) by decide +kernel) _

end Reading

end Tcslog
