import Tcslog.System.Disturbance
import Tcslog.System.Recovery

/-!
# Reading in adversity

Requests of the writers failed, files were taken away or cut short, before or
after the reader listed them, what is left of them may come to light only while
the reader reads, and requests of the reader fail as well.  What is read was still
written, in order and none twice, whole only where it had been stored to its end,
and nothing that is there to be seen is missed.
-/

namespace Tcslog

open Lib.Program Lib.Spanned

/-- All bytes of record `i` of a strand stand in files that were listed, and that
each request about them finds usable and long enough. -/
def Spared (readEnv : ReadEnv) (namePrefix nameSuffix : Bytes) (listing : List SegId) (ops : List ReadOp)
    (σ : Strand) (i : Nat) : Prop :=
  ∀ q, σ.start i ≤ q → q < σ.start (i + 1) → ∃ id, σ.ids[q / σ.dataSection]? = some id ∧ id ∈ listing ∧
    ∀ t op, ops[t]? = some op → op.id = id → readEnv.fault t = false ∧ ∃ content,
      (readEnv.dir t).files namePrefix nameSuffix id = some content ∧ (validate id content).isSome ∧
        segmentFileHeaderLen + q % σ.dataSection < content.length

/-- Records found in increasing order are returned in order. -/
theorem returns_of_ranks {records : List Record} {outcomes : List Outcome} {ranks : List Nat}
    (matching : List.Forall₂ (fun n outcome => ∃ record, records[n]? = some record ∧
      outcome = record.outcome) ranks (outcomes.filter Outcome.isRecord))
    (increasing : ranks.Pairwise (· < ·)) : Returns records outcomes ranks := by
  refine ⟨?_, increasing⟩
  rw [List.forall₂_map_right_iff]
  refine matching.flip.imp fun outcome n found => ?_
  obtain ⟨record, recordAt, rfl⟩ := found
  exact .whole recordAt

section Reading

variable {env : WriteEnv} {dir : Dir} {lives : List Life} {namePrefix nameSuffix : Bytes} {readEnv : ReadEnv}
  {listed : Dir} {L : Log}

/-- Records that are spared are not denied a reader. -/
theorem Spared.not_lost {presents : ∀ t, Presents ((readEnv.dir t).files namePrefix nameSuffix) L}
    {ops : List ReadOp} {k i : Nat} {σ : Strand}
    (spared : Spared readEnv namePrefix nameSuffix (scanSegmentIds listed namePrefix nameSuffix) ops σ i) :
    ¬ (sceneOf L readEnv listed namePrefix nameSuffix presents).Lost ops k σ i := by
  rintro ⟨q, after, before, hidden⟩
  obtain ⟨id, idAt, isListed, found⟩ := spared q after before
  exact Scene.not_hidden idAt isListed found hidden

/-- Whatever requests of the writers failed, whatever was taken away from what they
left, and whatever requests of the reader fail: calls tell of written records in
order, none twice, and return only what was stored to its end; the end of the log
is reached; and there, every stored record that was spared was returned whole. -/
theorem read_in_adversity (leaves : env.Leaves) (empty : ∀ id, dir.files namePrefix nameSuffix id = none)
    (names : ∀ life ∈ lives, life.args.namePrefix = namePrefix ∧ life.args.nameSuffix = nameSuffix)
    (cleared : (Trail.run env dir lives).Cleared)
    (damaged : ∀ t, Damaged ((Trail.run env dir lives).files namePrefix nameSuffix)
      ((readEnv.dir t).files namePrefix nameSuffix)) {isDir : Bool} {log : LogRead}
    (isNew : LogRead.new isDir (some listed) namePrefix nameSuffix = .ok log) :
    ∃ L, OnDisk ((Trail.run env dir lives).files namePrefix nameSuffix) L ∧
      L.kept = (Trail.run env dir lives).journal.records ∧
      (∀ record ∈ L.torn, record.payload ∈ (Trail.run env dir lives).journal.failed) ∧
      (∀ caps : Nat → Nat, (∀ n, 0 < caps n) → ∀ calls, ∃ (tolds : List (Option Nat)) (whole : List Nat),
        List.Forall₂ (Tells (L.records[·]?)) (readCalls readEnv caps calls log.begin).1 tolds ∧
        tolds.reduceOption.Pairwise (· < ·) ∧
        Returns (Trail.run env dir lives).journal.records (readCalls readEnv caps calls log.begin).1 whole) ∧
      (∀ caps : Nat → Nat, (∀ n, 0 < caps n) →
        ∃ outcomes last, ReadsToEof readEnv caps log.begin outcomes last) ∧
      ∀ caps : Nat → Nat, Ample caps L.records →
        ∃ outcomes last whole, ReadsToEof readEnv caps log.begin outcomes last ∧
          Returns (Trail.run env dir lives).journal.records outcomes whole ∧
          ∀ k i σ, L.strands[k]? = some σ → i < σ.kept.length →
            Spared readEnv namePrefix nameSuffix (scanSegmentIds listed namePrefix nameSuffix) last.ops σ i →
              L.rankBy Strand.kept (place k i) ∈ whole := by
  have robust := Trail.run_robust (fun _ => True) leaves empty names (fun _ _ => trivial) cleared
  obtain ⟨L, disk, mended⟩ := robust.mended
  obtain ⟨_, isListed, begins⟩ := LogRead.new_spec isNew
  obtain rfl := Option.some.inj isListed
  have presents : ∀ t, Presents ((readEnv.dir t).files namePrefix nameSuffix) L :=
    fun t => disk.presents (damaged t)
  have ready := begins.ready presents
  refine ⟨L, disk, mended.kept, mended.torn, fun caps some calls => ?_, fun caps some => ?_,
    fun caps ample => ?_⟩
  · obtain ⟨_, _, _, tolds, _, account⟩ :=
      Scene.readCalls_account ready (fun n => takes_of_pos (some n)) calls
    obtain ⟨tells, increasing⟩ := tells_by_rank account.tells account.increasing
    obtain ⟨whole, matching, ordered, _⟩ := account.whole_kept mended.held
    exact ⟨_, _, tells, increasing, mended.kept ▸ returns_of_ranks matching ordered⟩
  · obtain ⟨outcomes, last, reads, _⟩ :=
      Scene.reads_to_eof ready fun n => takes_of_pos (some n)
    exact ⟨outcomes, last, reads⟩
  · obtain ⟨outcomes, last, reads, _, k', i', tolds, account, rest⟩ :=
      Scene.reads_to_eof ready ample.takes
    obtain ⟨whole, matching, ordered, returned⟩ := account.whole_kept mended.held
    refine ⟨outcomes, last, _, reads, mended.kept ▸ returns_of_ranks matching ordered,
      fun k i σ strandAt index spared => ?_⟩
    have held := mended.held σ (List.mem_of_getElem? strandAt)
    obtain ⟨recordAt, _⟩ := (Strand.kept_iff held).mp (List.getElem?_eq_getElem index)
    have there := (Log.recordAt_place strandAt).trans recordAt
    refine List.mem_map_of_mem (Scene.mem_whole_of_seen returned rest there ?_ (ample.not_long there))
    rintro ⟨τ, strandAt', lost⟩
    obtain rfl := Option.some.inj (strandAt'.symm.trans strandAt)
    exact spared.not_lost lost

end Reading

namespace Sample

/-- Three records, the second of which fails in its last file. -/
def failingRecords : List Life :=
  [⟨⟨[], [], 60, .variableSimple, some 1000⟩, [.write [1, 2, 3], .write [4, 5, 6, 7], .write [8, 9]]⟩]

def failingEnv : WriteEnv :=
  { env with fault := (· == 19), stored := fun _ => 2 }

/-- What was left of them. -/
def failing : Trail :=
  Trail.run failingEnv ∅ failingRecords

/-- A file taken away after the reader listed it, and a request of the reader that
fails. -/
def adverseEnv : ReadEnv :=
  .still (failing.state.dir.erase (buildName [] 1017 [])) (· == 9) true

end Sample

theorem read_in_adversity_sample :
    let begun := (Sample.reader [1002, 1010, 1017, 1020]).begin
    ∃ L, OnDisk (Sample.failing.files [] []) L ∧ L.kept = Sample.failing.journal.records ∧
      (∀ record ∈ L.torn, record.payload ∈ Sample.failing.journal.failed) ∧
      (∀ caps : Nat → Nat, (∀ n, 0 < caps n) → ∀ calls, ∃ (tolds : List (Option Nat)) (whole : List Nat),
        List.Forall₂ (Tells (L.records[·]?)) (readCalls Sample.adverseEnv caps calls begun).1 tolds ∧
        tolds.reduceOption.Pairwise (· < ·) ∧
        Returns Sample.failing.journal.records (readCalls Sample.adverseEnv caps calls begun).1 whole) ∧
      (∀ caps : Nat → Nat, (∀ n, 0 < caps n) →
        ∃ outcomes last, ReadsToEof Sample.adverseEnv caps begun outcomes last) ∧
      ∀ caps : Nat → Nat, Ample caps L.records →
        ∃ outcomes last whole, ReadsToEof Sample.adverseEnv caps begun outcomes last ∧
          Returns Sample.failing.journal.records outcomes whole ∧
          ∀ k i σ, L.strands[k]? = some σ → i < σ.kept.length →
            Spared Sample.adverseEnv [] [] (scanSegmentIds Sample.failing.state.dir [] []) last.ops σ i →
              L.rankBy Strand.kept (place k i) ∈ whole :=
  read_in_adversity (show Sample.failingEnv.Leaves from fun _ => rfl)
    (show ∀ id, Dir.files ∅ [] [] id = none from fun _ => rfl)
    (show ∀ life ∈ Sample.failingRecords, life.args.namePrefix = [] ∧ life.args.nameSuffix = [] by decide)
    (Trail.cleared_iff.mpr (by decide +kernel)) (fun _ => Damaged.erase _ _ _ _)
    (show LogRead.new true (some Sample.failing.state.dir) [] [] = .ok (Sample.reader [1002, 1010, 1017, 1020])
      by decide +kernel)

end Tcslog
