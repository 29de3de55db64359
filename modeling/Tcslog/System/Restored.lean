import Mathlib.Logic.Relation
import Tcslog.System.Returned

/-!
# Records of which the data header is gone

A record none of whose data header is left comes back in one case only: a single
file is gone between two that are left, it held the rest of the record before and
the data header of this one and nothing else, and the payload is whole.  The
record before is reported then with one file lost.
-/

namespace Tcslog

open Lib.Spanned

namespace Fragment

variable (fs : List Fragment)

/-- The record begins in what is left of the file. -/
def Begins (f : Fragment) (i : Nat) : Prop :=
  f.base ≤ f.strand.start i ∧ f.strand.start i < f.limit

/-- The files follow one another from the first to the second. -/
def Runs : Fragment → Fragment → Prop :=
  Relation.ReflTransGen fun f g => [f, g] <:+: fs ∧ f.Precedes g

/-- Between two files that follow each other here one is gone, which held the rest
of a record and the data header of the next. -/
structure Bridges (f g : Fragment) : Prop where
  reads : Reads fs f
  next : [f, g] <:+: fs
  restores : f.Restores g

/-- Of the record all but the data header is left, and what is left tells where it
begins. -/
def Restored (k i : Nat) : Prop :=
  ∃ f g h, Bridges fs f g ∧ Runs fs g h ∧ f.k = k ∧ i = f.done + 1 ∧ i < h.done

variable {fs} {f g h e : Fragment} {k i n : Nat}

theorem Runs.k_eq (runs : Runs fs g h) : h.k = g.k := by
  induction runs with
  | refl => rfl
  | tail _ next ih => exact next.2.1.trans ih

theorem Runs.reaches (runs : Runs fs g h) (reaches : Reaches fs g n) : Reaches fs h n := by
  induction runs with
  | refl => exact reaches
  | tail _ next ih => exact .on ih next.1 next.2

section Same

variable (same : ∀ f ∈ fs, ∀ g ∈ fs, f.k = g.k → f.strand = g.strand)

include same

/-- Behind the record that is restored no other begins before the file it goes on
in. -/
theorem Bridges.base_le (bridges : Bridges fs f g) (later : f.done + 2 ≤ i) : g.base ≤ g.strand.start i := by
  have sameStrand := same g (bridges.next.subset (by simp)) f (bridges.next.subset (by simp)) bridges.restores.2.1
  have less := (bridges.restores.done_lt sameStrand).1
  rw [sameStrand, ← bridges.restores.2.2.2.2.2.1]
  exact (Strand.start_add_dataHeaderLen_le less).trans (Strand.start_mono later)

/-- A record a reader comes to begins in a file that is left, from which it reads
on, or its data header alone is gone. -/
theorem Reaches.begins_or_bridged (reaches : Reaches fs h n) (le : n ≤ i) (before : h.strand.start i < h.limit) :
    (∃ g ∈ fs, g.k = h.k ∧ g.Begins i ∧ Runs fs g h) ∨
      ∃ f g, Bridges fs f g ∧ Runs fs g h ∧ f.k = h.k ∧ i = f.done + 1 := by
  induction reaches with
  | @offers h mem offers =>
      refine .inl ⟨h, mem, rfl, ⟨?_, before⟩, .refl⟩
      have place := h.start_first.1
      have := Strand.start_mono (σ := h.strand) le
      omega
  | @restores f g reads next restores =>
      have bridges : Bridges fs f g := ⟨reads, next, restores⟩
      rcases Nat.eq_or_lt_of_le le with isNext | later
      · exact .inr ⟨f, g, bridges, .refl, restores.2.1.symm, isNext.symm⟩
      · exact .inl ⟨g, next.subset (by simp), rfl, ⟨bridges.base_le same later, before⟩, .refl⟩
  | @on f g n reaches next precedes ih =>
      have isNext : g ∈ fs := next.subset (by simp)
      have sameStrand := same g isNext f (next.subset (by simp)) precedes.1
      rcases Nat.lt_or_ge (g.strand.start i) g.base with earlier | later
      · rw [precedes.base_eq sameStrand, sameStrand] at earlier
        rcases ih le earlier with ⟨e, mem, sameK, begins, runs⟩ | ⟨e, e', bridges, runs, sameK, isNext⟩
        · exact .inl ⟨e, mem, sameK.trans precedes.1.symm, begins, runs.tail ⟨next, precedes⟩⟩
        · exact .inr ⟨e, e', bridges, runs.tail ⟨next, precedes⟩, sameK.trans precedes.1.symm, isNext⟩
      · exact .inl ⟨g, isNext, rfl, ⟨later, before⟩, .refl⟩

/-- The data header of a record that is restored is in no file that is left. -/
theorem Bridges.not_begins (bridges : Bridges fs f g) (sorted : fs.Pairwise Before) (mem : e ∈ fs)
    (sameK : e.k = f.k) : ¬ e.Begins (f.done + 1) := by
  have isFirst : f ∈ fs := bridges.next.subset (by simp)
  have isSecond : g ∈ fs := bridges.next.subset (by simp)
  have sameStrand := same g isSecond f isFirst bridges.restores.2.1
  have sameStrand' := same e mem f isFirst sameK
  have cut := f.limit_lt (Nat.lt_of_succ_lt (bridges.restores.done_lt sameStrand).1)
  have place := bridges.restores.2.2.2.2.2.1
  have header : f.strand.format.dataHeaderLen = 4 := by rw [bridges.restores.1]; rfl
  rintro ⟨begins, shown⟩
  rw [sameStrand'] at begins shown
  obtain ⟨front, rest, split⟩ := bridges.next
  have split : fs = front ++ (f :: g :: rest) := by rw [← split]; simp
  rw [split] at sorted mem
  obtain ⟨_, behind, across⟩ := List.pairwise_append.mp sorted
  rcases List.mem_append.mp mem with inFront | inRest
  · have before : e.j < f.j := by
      have order := across e inFront f List.mem_cons_self
      rw [Before] at order
      omega
    have := limit_le_base sameStrand'.symm before
    have := f.base_le_limit
    omega
  rcases List.mem_cons.mp inRest with rfl | inRest
  · omega
  rcases List.mem_cons.mp inRest with rfl | inRest
  · omega
  · have before : g.j < e.j := by
      have order := (List.pairwise_cons.mp (List.pairwise_cons.mp behind).2).1 e inRest
      have sameK' := bridges.restores.2.1
      rw [Before] at order
      omega
    have := limit_le_base (sameStrand'.trans sameStrand.symm) before
    have := g.base_le_limit
    omega

/-- Exactly the records of which the data header alone is gone come back without
it. -/
theorem restored_iff (sorted : fs.Pairwise Before) :
    place k i ∈ Stage.start.places fs ∧ (∀ f ∈ fs, f.k = k → ¬ f.Begins i) ↔ Restored fs k i := by
  rw [Stage.mem_places_iff sorted same]
  constructor
  · rintro ⟨⟨h, mem, rfl, past, n, le, reaches⟩, noBegin⟩
    have before : h.strand.start i < h.limit := by
      have within := past.trans_le h.done_le
      have next := (le_done_iff (Nat.succ_le_of_lt within)).mp (Nat.succ_le_of_lt past)
      exact (Strand.start_lt (Nat.lt_succ_self i) within).trans_le next
    rcases reaches.begins_or_bridged same le before with ⟨g, mem', sameK, begins, _⟩ | ⟨f, g, bridges, runs, known⟩
    · exact absurd begins (noBegin g mem' sameK)
    · exact ⟨f, g, h, bridges, runs, known.1, known.2, past⟩
  · rintro ⟨f, g, h, bridges, runs, rfl, rfl, past⟩
    have reaches := runs.reaches (.restores bridges.reads bridges.next bridges.restores)
    exact ⟨⟨h, reaches.reads.mem, runs.k_eq.trans bridges.restores.2.1, past, _, Nat.le_refl _, reaches⟩,
      fun e mem sameK => bridges.not_begins same sorted mem sameK⟩

end Same

end Fragment

namespace Stage

open Fragment

variable {stage : Stage} {f g h : Fragment} {fs front rest : List Fragment} {refused : Bool} {i : Nat}

/-- What is told of the files ends with what is told behind some of them. -/
theorem retell_suffix (stage : Stage) (refused : Bool) (front rest : List Fragment) :
    (stage.after front).retell refused rest <:+ stage.retell refused (front ++ rest) := by
  induction front generalizing stage with
  | nil => exact List.suffix_rfl
  | cons h front ih => exact (ih (stage.step h).2).trans (List.suffix_append _ _)

/-- In order, what is next in a run of files is next among all. -/
theorem rest_eq_of_next (sorted : (front ++ f :: rest).Pairwise Before) (next : [f, g] <:+: front ++ f :: rest) :
    ∃ rest', rest = g :: rest' := by
  have distinct : (front ++ f :: rest).Nodup :=
    sorted.imp fun {a b} before same => by
      rw [same, Before] at before
      omega
  obtain ⟨front', rest', split⟩ := next
  have split : front ++ f :: rest = front' ++ f :: g :: rest' := by rw [← split]; simp
  have apart := (List.nodup_cons.mp (List.nodup_middle.mp distinct)).1
  rw [List.append_cons_inj_of_notMem (fun mem => apart (List.mem_append_left _ mem))
    fun mem => apart (List.mem_append_right _ mem)] at split
  exact ⟨rest', split.2.2⟩

variable (refused) in
/-- A record that is whole in a run of files is told of next. -/
theorem retellFrom_of_runs {record : Record} (sorted : fs.Pairwise Before)
    (same : ∀ f ∈ fs, ∀ g ∈ fs, f.k = g.k → f.strand = g.strand) (runs : Fragment.Runs fs g h)
    (split : fs = front ++ g :: rest) (le : i ≤ g.done) (recordAt : g.strand.records[i]? = some record)
    (past : i < h.done) : ∃ outcomes, retellFrom refused g i rest = record.outcome :: outcomes := by
  induction runs using Relation.ReflTransGen.head_induction_on generalizing front rest with
  | refl => exact ⟨_, retellFrom_cons recordAt past⟩
  | @head g g' next runs ih =>
      subst split
      obtain ⟨rest, rfl⟩ := rest_eq_of_next sorted next.1
      have sameStrand := same g' (next.1.subset (by simp)) g (next.1.subset (by simp)) next.2.1
      rw [retellFrom_of_precedes next.2 sameStrand le]
      have split : front ++ g :: g' :: rest = front ++ [g] ++ g' :: rest := by simp
      exact ih split (le.trans (next.2.done_le sameStrand)) (sameStrand ▸ recordAt)

/-- A record that is restored is told of next after the one before it, of which one
file is lost. -/
theorem bridges_told (sorted : fs.Pairwise Before)
    (same : ∀ f ∈ fs, ∀ g ∈ fs, f.k = g.k → f.strand = g.strand) (refused : Bool) (bridges : Bridges fs f g)
    (runs : Fragment.Runs fs g h) (past : f.done + 1 < h.done) :
    ∃ record, f.strand.records[f.done + 1]? = some record ∧
      [f.cutShort 1, record.outcome] <:+: start.retell refused fs := by
  have isFirst : f ∈ fs := bridges.next.subset (by simp)
  have sameStrand := same g (bridges.next.subset (by simp)) f isFirst bridges.restores.2.1
  obtain ⟨less, _, le⟩ := bridges.restores.done_lt sameStrand
  refine ⟨_, List.getElem?_eq_getElem less, ?_⟩
  obtain ⟨front, rest, split⟩ := bridges.next
  have split : fs = front ++ [f] ++ g :: rest := by rw [← split]; simp
  have reads : start.after (front ++ [f]) = reading f := by
    have behind : Behind (front ++ [f]) f (start.after (front ++ [f])) :=
      behind_after (sorted.sublist (split ▸ List.sublist_append_left _ _))
    rw [behind.reads, ← reads_append_iff (split ▸ sorted) (by simp), ← split]
    exact bridges.reads
  have recordAt : g.strand.records[f.done + 1]? = some f.strand.records[f.done + 1] := by
    rw [sameStrand]
    exact List.getElem?_eq_getElem less
  obtain ⟨outcomes, told⟩ := retellFrom_of_runs refused sorted same runs split le recordAt past
  have ends := retell_suffix start refused (front ++ [f]) (g :: rest)
  rw [← split, reads, retell_reading_of_gap bridges.restores.apart bridges.restores.2.1] at ends
  have lost : g.j - (f.j + 1) = 1 := by
    have := bridges.restores.2.2.1
    omega
  have goesOn : (broken f).retell refused (g :: rest) = retellFrom refused g (f.done + 1) rest := by
    rw [retell, step, if_pos bridges.restores.2.1, Fragment.resume, if_pos bridges.restores]
    rfl
  rw [lost, goesOn, told] at ends
  exact List.IsInfix.trans ⟨[], outcomes, rfl⟩ ends.isInfix

theorem restored_told {k : Nat} (sorted : fs.Pairwise Before)
    (same : ∀ f ∈ fs, ∀ g ∈ fs, f.k = g.k → f.strand = g.strand) (refused : Bool)
    (restored : Restored fs k i) : ∃ f ∈ fs, f.k = k ∧ f.done + 1 = i ∧
      ∃ record, f.strand.records[i]? = some record ∧
        [f.cutShort 1, record.outcome] <:+: start.retell refused fs := by
  obtain ⟨f, g, h, bridges, runs, rfl, rfl, past⟩ := restored
  exact ⟨f, bridges.next.subset (by simp), rfl, rfl, bridges_told sorted same refused bridges runs past⟩

end Stage

section Reading

variable {env : WriteEnv} {dir dir' : Dir} {lives : List Life} {namePrefix nameSuffix : Bytes}

/-- Whatever is taken away from a log, the records a reader returns although no file
that is left holds the first byte of their data header are exactly those of which
all is left but the data header and which one file is gone before that held the rest
of the record before and the data header, and nothing else.  The record before is
reported just before with one file lost and the payload up to there. -/
theorem restored_exactly (wrote : Wrote env dir lives namePrefix nameSuffix)
    (damaged : Damaged ((Trail.run env dir lives).files namePrefix nameSuffix)
      (dir'.files namePrefix nameSuffix))
    {isDir : Bool} (overflowChecks : Bool) {log : LogRead}
    (isNew : LogRead.new isDir (some dir') namePrefix nameSuffix = .ok log) :
    ∃ L, OnDisk ((Trail.run env dir lives).files namePrefix nameSuffix) L ∧
      Faithful L (Trail.run env dir lives).journal ∧
      ∃ fragments, L.Displayed (dir'.files namePrefix nameSuffix) log.pending fragments ∧
        ∃ (whole : List (ℕ ×ₗ ℕ)) (outcomes : List Outcome), whole.Pairwise (· < ·) ∧
          List.Forall₂ (Whole L) whole (outcomes.filter Outcome.isRecord) ∧
          (∀ k i, place k i ∈ whole ∧ (∀ f ∈ fragments, f.k = k → ¬ f.Begins i) ↔
            Fragment.Restored fragments k i) ∧
          (∀ k i, Fragment.Restored fragments k i → ∃ f ∈ fragments, f.k = k ∧ f.done + 1 = i ∧
            ∃ record, f.strand.records[i]? = some record ∧ [f.cutShort 1, record.outcome] <:+: outcomes) ∧
          ∀ caps : Nat → Nat, Ample caps L.records → ∃ last,
            ReadsToEof (.still dir' noFault overflowChecks) caps log.begin outcomes last := by
  obtain ⟨L, left⟩ := Trail.run_left wrote.leaves wrote.empty wrote.names wrote.clean
  obtain ⟨fragments, displayed, ⟨sorted, named⟩, _, reads⟩ :=
    left.faithful.reads left.disk damaged overflowChecks isNew
  obtain ⟨strandAt, same⟩ := Log.strandAt_of_displays named
  have increasing : (Stage.start.places fragments).Pairwise (· < ·) := (Stage.places_sorted .start sorted same).1
  exact ⟨L, left.disk, left.faithful, fragments, displayed, Stage.start.places fragments, _, increasing,
    Stage.whole_places strandAt .start _, fun k i => Fragment.restored_iff same sorted,
    fun k i restored => Stage.restored_told sorted same _ restored, reads⟩

end Reading

theorem restored_exactly_sample :
    ∃ L, OnDisk ((Trail.run Sample.env ∅ Sample.bridgingRecords).files [] []) L ∧
      Faithful L (Trail.run Sample.env ∅ Sample.bridgingRecords).journal ∧
      ∃ fragments, L.Displayed (Sample.bridging.files [] []) [1002, 1017, 1023] fragments ∧
        ∃ (whole : List (ℕ ×ₗ ℕ)) (outcomes : List Outcome), whole.Pairwise (· < ·) ∧
          List.Forall₂ (Whole L) whole (outcomes.filter Outcome.isRecord) ∧
          (∀ k i, place k i ∈ whole ∧ (∀ f ∈ fragments, f.k = k → ¬ f.Begins i) ↔
            Fragment.Restored fragments k i) ∧
          (∀ k i, Fragment.Restored fragments k i → ∃ f ∈ fragments, f.k = k ∧ f.done + 1 = i ∧
            ∃ record, f.strand.records[i]? = some record ∧ [f.cutShort 1, record.outcome] <:+: outcomes) ∧
          ∀ caps : Nat → Nat, Ample caps L.records → ∃ last,
            ReadsToEof (.still Sample.bridging noFault true) caps
              (Sample.reader [1002, 1017, 1023]).begin outcomes last :=
  restored_exactly Sample.wroteBridging (Damaged.erase _ _ _ _) true
    (show LogRead.new true (some Sample.bridging) [] [] = .ok (Sample.reader [1002, 1017, 1023])
      by decide +kernel)

/-- The second record comes back whole. -/
example : (readCalls (.still Sample.bridging noFault true) (fun _ => 9) 3
    (Sample.reader [1002, 1017, 1023]).begin).1 =
      [.failed (.readTruncated 1 3) [1, 2, 3],
        .record [7, 8, 9, 10, 11, 12, 13, 14, 15] .variableSimple, .failed .eof []] := by
  decide +kernel

end Tcslog
