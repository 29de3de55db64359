import Mathlib.Data.List.Forall2
import Tcslog.Read.Reach
import Tcslog.System.Retold

/-!
# Which records come back

Of a log from which anything was taken away a reader returns exactly the records
that are whole in files that follow one another, and those of which only the data
header is gone, with a file that held nothing else behind the record before.
-/

namespace Tcslog

open Lib.Spanned

namespace Fragment

variable (fs : List Fragment)

/-- A reader comes to the file with this record, or one before it that began in a
file it read, to be returned next. -/
inductive Reaches : Fragment → Nat → Prop
  | offers {f : Fragment} (mem : f ∈ fs) (offers : f.Offers) : Reaches f f.first
  | restores {f g : Fragment} (reads : Reads fs f) (next : [f, g] <:+: fs) (restores : f.Restores g) :
      Reaches g (f.done + 1)
  | on {f g : Fragment} {i : Nat} (reaches : Reaches f i) (next : [f, g] <:+: fs) (precedes : f.Precedes g) :
      Reaches g i

variable (f h : Fragment)

/-- The first record returned of a file in which reading begins. -/
def opening : Nat :=
  if h.Offers then h.first else h.done

/-- The first record returned of a file behind one in which a record was cut
short. -/
def resuming : Nat :=
  if f.Restores h then f.done + 1 else h.opening

/-- The places of the records from record `i` on that end in the fragment or
before. -/
def places (i : Nat) : List (ℕ ×ₗ ℕ) :=
  (List.range' i (f.done - i)).map (place f.k)

end Fragment

namespace Stage

open Fragment

/-- The first record returned of the next file. -/
def begins : Stage → Fragment → Nat
  | reading f, h => if f.Precedes h then f.done else f.resuming h
  | broken f, h => f.resuming h
  | _, h => h.opening

/-- The places of the records returned of the files that are left. -/
def places : Stage → List Fragment → List (ℕ ×ₗ ℕ)
  | _, [] => []
  | stage, h :: rest => h.places (stage.begins h) ++ places (stage.step h).2 rest

end Stage

namespace Fragment

variable {L : Log} {f g h : Fragment} {fs : List Fragment} {i n : Nat}

/-! ## What is returned of one file -/

theorem filter_enter (h : Fragment) (ahead : Nat) :
    (h.enter ahead).1.filter Outcome.isRecord = h.tells h.opening := by
  by_cases offers : h.Offers
  · have quiet : (if 0 < ahead then [Outcome.failed (.readTruncated ahead 0) []] else []).filter
        Outcome.isRecord = [] := by
      split <;> rfl
    rw [enter_of_offers offers, List.filter_append, quiet, List.nil_append, tells, filter_records, opening,
      if_pos offers, tells]
  · rw [enter_of_covered offers, opening, if_neg offers, tells_done]
    rfl

theorem resuming_of_other (other : h.k ≠ f.k) : f.resuming h = h.opening :=
  if_neg fun restores => other restores.2.1

theorem filter_resume (f h : Fragment) :
    (f.resume h).1.filter Outcome.isRecord = h.tells (f.resuming h) := by
  by_cases restores : f.Restores h
  · rw [Fragment.resume, if_pos restores, resuming, if_pos restores, tells, filter_records]
  · rw [Fragment.resume, if_neg restores, resuming, if_neg restores, filter_enter]

theorem mem_places {k : Nat} : place k i ∈ f.places n ↔ k = f.k ∧ n ≤ i ∧ i < f.done := by
  simp only [places, List.mem_map, List.mem_range'_1]
  constructor
  · rintro ⟨m, ⟨le, less⟩, same⟩
    obtain ⟨rfl, rfl⟩ := Prod.mk.inj (toLex_inj.mp same)
    exact ⟨rfl, le, by omega⟩
  · rintro ⟨rfl, le, less⟩
    exact ⟨i, ⟨le, by omega⟩, rfl⟩

/-- The records returned are those of the log at the places. -/
theorem whole_places (strandAt : L.strands[f.k]? = some f.strand) (i : Nat) :
    List.Forall₂ (Whole L) (f.places i) (f.tells i) := by
  have lengths : (f.places i).length = (f.tells i).length := by
    rw [places, tells, records, List.length_map, List.length_range', List.length_map, List.length_drop,
      List.length_take, Nat.min_eq_left f.done_le]
  refine List.forall₂_iff_get.mpr ⟨lengths, fun n less less' => ?_⟩
  have within : i + n < f.done := by
    rw [places, List.length_map, List.length_range'] at less
    omega
  have index := within.trans_le f.done_le
  refine ⟨f.strand.records[i + n], ?_, ?_⟩
  · have placed : (f.places i).get ⟨n, less⟩ = place f.k (i + n) := by simp [places]
    rw [placed, Log.recordAt_place strandAt]
    exact List.getElem?_eq_getElem index
  · simp [tells, records, Record.outcome]

theorem places_increasing (f : Fragment) (i : Nat) : (f.places i).Pairwise (· < ·) := by
  refine List.pairwise_map.mpr ((List.pairwise_lt_range' (s := i)).imp fun less => ?_)
  exact place_lt_place.mpr (.inr ⟨rfl, less⟩)

/-! ## What a file adds to what is returned -/

section Before

variable (same : h.strand = f.strand) (before : f.j < h.j)

include same before

theorem limit_le_base : f.limit ≤ h.base := by
  have shown := f.shown_le
  calc f.limit ≤ (f.j + 1) * f.strand.dataSection := by rw [limit, base, Nat.succ_mul]; omega
    _ ≤ h.base := by rw [base, same]; exact Nat.mul_le_mul_right _ before

theorem done_le_done : f.done ≤ h.done := by
  rw [done, done, same]
  exact ended_mono _ ((limit_le_base same before).trans h.base_le_limit)

theorem done_le_first : f.done ≤ h.first := by
  rw [done, first, same]
  exact ended_mono _ ((limit_le_base same before).trans (Nat.le_add_right _ _))

theorem done_le_opening : f.done ≤ h.opening := by
  rw [opening]
  split
  · exact done_le_first same before
  · exact done_le_done same before

theorem done_le_resuming : f.done ≤ f.resuming h := by
  rw [resuming]
  split
  · exact Nat.le_succ _
  · exact done_le_opening same before

end Before

theorem Restores.apart (restores : f.Restores h) : ¬ f.Precedes h := by
  intro precedes
  have := restores.2.2.1
  have := precedes.2.1
  omega

/-- A record that is restored begins before the file it goes on in. -/
theorem Restores.done_lt (restores : f.Restores h) (same : h.strand = f.strand) :
    f.done + 1 < f.strand.records.length ∧ f.done + 1 ≤ h.first ∧ f.done + 1 ≤ h.done := by
  obtain ⟨simple, _, _, _, _, place, some⟩ := restores
  have header : f.strand.format.dataHeaderLen = 4 := by rw [simple]; rfl
  have within : h.base ≤ f.strand.start f.strand.records.length := by
    rw [Strand.start_length, ← same]
    exact h.base_le_limit.trans h.limit_le
  have less : f.done + 1 < f.strand.records.length := by
    by_contra past
    have := Strand.start_mono (σ := f.strand) (Nat.le_of_not_lt past)
    omega
  have reached {p : Nat} (le : h.base ≤ p) : f.done + 1 ≤ ended h.strand.blocks p := by
    rw [same, le_ended_iff (by rw [Strand.length_blocks]; exact less.le)]
    change f.strand.start (f.done + 1) ≤ p
    omega
  exact ⟨less, reached (Nat.le_add_right _ _), reached h.base_le_limit⟩

/-- A reader reads in the files it comes to within a record. -/
theorem Reaches.reads (reaches : Reaches fs f n) : Reads fs f := by
  induction reaches with
  | offers mem offers => exact .offers mem offers
  | restores reads next restores => exact .on reads next (.inr restores)
  | on _ next precedes ih => exact .on ih next (.inl precedes)

theorem Reads.exists_reaches (reads : Reads fs f)
    (same : ∀ f ∈ fs, ∀ g ∈ fs, f.k = g.k → f.strand = g.strand) : ∃ n ≤ f.done, Reaches fs f n := by
  induction reads with
  | @offers f mem offers => exact ⟨f.first, offers.first_lt, .offers mem offers⟩
  | @on f g reads next goesOn ih =>
      have isBefore : f ∈ fs := next.subset (by simp)
      have isNext : g ∈ fs := next.subset (by simp)
      rcases goesOn with precedes | restores
      · obtain ⟨n, le, reaches⟩ := ih
        have sameStrand := same g isNext f isBefore precedes.1
        exact ⟨n, le.trans (precedes.done_le sameStrand), .on reaches next precedes⟩
      · have sameStrand := same g isNext f isBefore restores.2.1
        exact ⟨f.done + 1, (restores.done_lt sameStrand).2.2, .restores reads next restores⟩

end Fragment

namespace Stage

open Fragment

variable {L : Log} {stage : Stage} {f g h : Fragment} {fs rest : List Fragment} {k i n : Nat}

/-! ## What is returned of all files -/

theorem filter_step (stage : Stage) (h : Fragment) :
    (stage.step h).1.filter Outcome.isRecord = h.tells (stage.begins h) := by
  have changes : (change h).1.filter Outcome.isRecord = h.tells h.opening :=
    filter_enter h h.j
  cases stage with
  | start => exact filter_enter h h.j
  | seeking f ahead =>
      rw [step]
      split
      · exact filter_enter h ahead
      · exact changes
  | broken f =>
      rw [step, begins]
      split
      · exact filter_resume f h
      next other => rw [changes, resuming_of_other other]
  | reading f =>
      rw [step, begins]
      by_cases precedes : f.Precedes h
      · rw [if_pos precedes, if_pos precedes, Fragment.tells, filter_records]
      rw [if_neg precedes, if_neg precedes]
      split
      · exact filter_resume f h
      next other =>
        rw [resuming_of_other other, tellFirst, List.filter_append, changes]
        split <;> rfl

/-- The records returned of the files are those of the log at the places. -/
theorem whole_places (strandAt : ∀ f ∈ fs, L.strands[f.k]? = some f.strand) (stage : Stage) (refused : Bool) :
    List.Forall₂ (Whole L) (stage.places fs) ((stage.retell refused fs).filter Outcome.isRecord) := by
  induction fs generalizing stage with
  | nil =>
      rw [places, retell]
      cases stage with
      | reading f => rw [last]; split <;> exact .nil
      | start | broken f | seeking f n => exact .nil
  | cons h rest ih =>
      obtain ⟨here, more⟩ := List.forall_mem_cons.mp strandAt
      rw [places, retell, List.filter_append, filter_step]
      exact List.rel_append (Fragment.whole_places here _) (ih more _)

theorem mem_places : place k i ∈ stage.places fs ↔ ∃ front h rest, fs = front ++ h :: rest ∧ h.k = k ∧
    (stage.after front).begins h ≤ i ∧ i < h.done := by
  induction fs generalizing stage with
  | nil => simp [places]
  | cons f fs ih =>
      rw [places, List.mem_append, Fragment.mem_places, ih]
      constructor
      · rintro (⟨same, first, past⟩ | ⟨front, h, rest, rfl, here⟩)
        · exact ⟨[], f, fs, rfl, same.symm, first, past⟩
        · exact ⟨f :: front, h, rest, rfl, here⟩
      · rintro ⟨front, h, rest, split, here⟩
        cases front with
        | nil =>
            obtain ⟨rfl, rfl⟩ := List.cons.inj split
            exact .inl ⟨here.1.symm, here.2⟩
        | cons e front =>
            obtain ⟨rfl, rfl⟩ := List.cons.inj split
            exact .inr ⟨front, h, rest, rfl, here⟩

/-- Of a later file no record is returned that ends before it. -/
theorem done_le_begins (known : stage.fragment = some f) (same : h.strand = f.strand) (before : f.j < h.j) :
    f.done ≤ stage.begins h := by
  cases stage with
  | start => contradiction
  | seeking g n =>
      obtain rfl := Option.some.inj known
      exact done_le_opening same before
  | broken g =>
      obtain rfl := Option.some.inj known
      exact done_le_resuming same before
  | reading g =>
      obtain rfl := Option.some.inj known
      rw [begins]
      split
      · exact Nat.le_refl _
      · exact done_le_resuming same before

/-- Of a file in which a record begins all that begin there are returned. -/
theorem begins_le_first (offers : h.Offers)
    (behind : ∀ f, stage.fragment = some f → f.k = h.k → h.strand = f.strand ∧ f.j < h.j) :
    stage.begins h ≤ h.first := by
  have opens : h.opening = h.first := if_pos offers
  have resumes {f : Fragment} (known : stage.fragment = some f) : f.resuming h ≤ h.first := by
    rw [resuming]
    split
    next restores => exact (restores.done_lt (behind f known restores.2.1.symm).1).2.1
    next => exact opens.le
  cases stage with
  | start => exact opens.le
  | seeking f n => exact opens.le
  | broken f => exact resumes rfl
  | reading f =>
      rw [begins]
      split
      next precedes =>
        obtain ⟨same, before⟩ := behind f rfl precedes.1.symm
        exact done_le_first same before
      next => exact resumes rfl

/-- Records are returned in order and none twice. -/
theorem places_sorted (stage : Stage) (sorted : (stage.fragment.toList ++ fs).Pairwise Before)
    (same : ∀ f ∈ stage.fragment.toList ++ fs, ∀ g ∈ stage.fragment.toList ++ fs,
      f.k = g.k → f.strand = g.strand) :
    (stage.places fs).Pairwise (· < ·) ∧
      ∀ f, stage.fragment = some f → ∀ p ∈ stage.places fs, place f.k f.done ≤ p := by
  induction fs generalizing stage with
  | nil => exact ⟨.nil, by simp [places]⟩
  | cons h rest ih =>
      have next : (stage.step h).2.fragment = some h := by
        rcases stage.step_cases h with reads | ⟨n, seeks⟩
        · rw [reads]; rfl
        · rw [seeks]; rfl
      have within : (h :: rest).Sublist (stage.fragment.toList ++ h :: rest) := List.sublist_append_right _ _
      obtain ⟨increasing, later⟩ := ih (stage.step h).2 (by rw [next]; exact sorted.sublist within)
        (by
          rw [next]
          exact fun f mem g mem' => same f (within.subset mem) g (within.subset mem'))
      have behind := later h next
      rw [places]
      refine ⟨List.pairwise_append.mpr ⟨places_increasing _ _, increasing, fun p mem q mem' => ?_⟩,
        fun f known p mem => ?_⟩
      · obtain ⟨k, i, rfl⟩ := exists_place p
        obtain ⟨rfl, _, past⟩ := Fragment.mem_places.mp mem
        exact (place_lt_place.mpr (.inr ⟨rfl, past⟩)).trans_le (behind q mem')
      · have isIn : f ∈ stage.fragment.toList ++ h :: rest := by simp [known]
        have before : f.Before h := by
          rw [known] at sorted
          exact (List.pairwise_cons.mp sorted).1 h List.mem_cons_self
        rcases before with less | ⟨sameK, before⟩
        · rcases List.mem_append.mp mem with here | there
          · obtain ⟨k, i, rfl⟩ := exists_place p
            obtain ⟨rfl, _⟩ := Fragment.mem_places.mp here
            exact place_le_place.mpr (.inl less)
          · exact (place_le_place.mpr (.inl less)).trans (behind p there)
        · have sameStrand := same h (within.subset List.mem_cons_self) f isIn sameK.symm
          rcases List.mem_append.mp mem with here | there
          · obtain ⟨k, i, rfl⟩ := exists_place p
            obtain ⟨rfl, first, _⟩ := Fragment.mem_places.mp here
            exact place_le_place.mpr (.inr ⟨sameK, (done_le_begins known sameStrand before).trans first⟩)
          · have le : place f.k f.done ≤ place h.k h.done :=
              place_le_place.mpr (.inr ⟨sameK, done_le_done sameStrand before⟩)
            exact le.trans (behind p there)

/-- The records returned are those of the files a reader comes to before they
end. -/
theorem mem_places_iff (sorted : fs.Pairwise Before)
    (same : ∀ f ∈ fs, ∀ g ∈ fs, f.k = g.k → f.strand = g.strand) :
    place k i ∈ start.places fs ↔ ∃ h ∈ fs, h.k = k ∧ i < h.done ∧ ∃ n ≤ i, Reaches fs h n := by
  have reader {front rest : List Fragment} {f h : Fragment} (split : fs = front ++ [f] ++ h :: rest) :
      Behind (front ++ [f]) f (start.after (front ++ [f])) :=
    behind_after (sorted.sublist (split ▸ List.sublist_append_left _ _))
  have reads {front rest : List Fragment} {f h : Fragment} (split : fs = front ++ [f] ++ h :: rest) :
      start.after (front ++ [f]) = reading f ↔ Reads fs f := by
    subst split
    rw [(reader rfl).reads, reads_append_iff sorted (by simp)]
  have adjacent {front rest : List Fragment} {f h : Fragment} (split : fs = front ++ [f] ++ h :: rest) :
      [f, h] <:+: fs := by
    rw [split]
    exact ⟨front, rest, by simp⟩
  constructor
  · intro mem
    obtain ⟨front, h, rest, split, rfl, first, past⟩ := mem_places.mp mem
    have isIn : h ∈ fs := split ▸ by simp
    refine ⟨h, isIn, rfl, past, ?_⟩
    have opens (first : h.opening ≤ i) : ∃ n ≤ i, Reaches fs h n := by
      by_cases offers : h.Offers
      · rw [opening, if_pos offers] at first
        exact ⟨_, first, .offers isIn offers⟩
      · rw [opening, if_neg offers] at first
        exact absurd past (Nat.not_lt_of_le first)
    rcases front.eq_nil_or_concat' with rfl | ⟨front, f, rfl⟩
    · exact opens first
    · rcases (reader split).last with isNext | ⟨ahead, isNext⟩
      · have readsThere := (reads split).mp isNext
        rw [isNext, begins] at first
        split_ifs at first with precedes
        · obtain ⟨n, le, reaches⟩ := readsThere.exists_reaches same
          exact ⟨n, le.trans first, .on reaches (adjacent split) precedes⟩
        · rw [resuming] at first
          split_ifs at first with restores
          · exact ⟨_, first, .restores readsThere (adjacent split) restores⟩
          · exact opens first
      · rw [isNext] at first
        exact opens first
  · rintro ⟨h, mem, rfl, past, n, le, reaches⟩
    induction reaches with
    | @offers h isIn offers =>
        obtain ⟨front, rest, split⟩ := List.append_of_mem isIn
        refine mem_places.mpr ⟨front, h, rest, split, rfl, ?_, past⟩
        refine (begins_le_first offers fun f known sameK => ?_).trans le
        rcases front.eq_nil_or_concat' with rfl | ⟨front, e, rfl⟩
        · contradiction
        · obtain rfl := Option.some.inj ((reader split).fragment_eq.symm.trans known)
          have isBefore : e ∈ fs := split ▸ by simp
          rw [split] at sorted
          have before := (List.pairwise_append.mp sorted).2.2 e (by simp) h (by simp)
          refine ⟨same h isIn e isBefore sameK.symm, ?_⟩
          rw [Before] at before
          omega
    | @restores f g readsThere next restores =>
        obtain ⟨front, rest, split⟩ := next
        have split : fs = front ++ [f] ++ g :: rest := by rw [← split]; simp
        refine mem_places.mpr ⟨front ++ [f], g, rest, split, rfl, ?_, past⟩
        rwa [(reads split).mpr readsThere, begins, if_neg restores.apart, resuming, if_pos restores]
    | @on f g m reaches next precedes ih =>
        obtain ⟨front, rest, split⟩ := next
        have split : fs = front ++ [f] ++ g :: rest := by rw [← split]; simp
        have isIn : f ∈ fs := split ▸ by simp
        rcases Nat.lt_or_ge i f.done with here | later
        · rw [precedes.1]
          exact ih isIn here le
        · refine mem_places.mpr ⟨front ++ [f], g, rest, split, rfl, ?_, past⟩
          rwa [(reads split).mpr reaches.reads, begins, if_pos precedes]

end Stage

section Reading

variable {env : WriteEnv} {dir dir' : Dir} {lives : List Life} {namePrefix nameSuffix : Bytes}

/-- Whatever is taken away from a log, a reader returns the records of the files it
comes to before they end, in order and each once, and no others. -/
theorem returned_where_reached (wrote : Wrote env dir lives namePrefix nameSuffix)
    (damaged : Damaged ((Trail.run env dir lives).files namePrefix nameSuffix)
      (dir'.files namePrefix nameSuffix))
    {isDir : Bool} (overflowChecks : Bool) {log : LogRead}
    (isNew : LogRead.new isDir (some dir') namePrefix nameSuffix = .ok log) :
    ∃ L, OnDisk ((Trail.run env dir lives).files namePrefix nameSuffix) L ∧
      Faithful L (Trail.run env dir lives).journal ∧
      ∃ fragments, L.Displayed (dir'.files namePrefix nameSuffix) log.pending fragments ∧
        ∃ (whole : List (ℕ ×ₗ ℕ)) (outcomes : List Outcome), whole.Pairwise (· < ·) ∧
          (∀ k i, place k i ∈ whole ↔
            ∃ h ∈ fragments, h.k = k ∧ i < h.done ∧ ∃ n ≤ i, Fragment.Reaches fragments h n) ∧
          List.Forall₂ (Whole L) whole (outcomes.filter Outcome.isRecord) ∧
          ∀ caps : Nat → Nat, Ample caps L.records → ∃ last,
            ReadsToEof (.still dir' noFault overflowChecks) caps log.begin outcomes last := by
  obtain ⟨L, left⟩ := Trail.run_left wrote.leaves wrote.empty wrote.names wrote.clean
  obtain ⟨fragments, displayed, ⟨sorted, named⟩, _, reads⟩ :=
    left.faithful.reads left.disk damaged overflowChecks isNew
  obtain ⟨strandAt, same⟩ := Log.strandAt_of_displays named
  have increasing : (Stage.start.places fragments).Pairwise (· < ·) := (Stage.places_sorted .start sorted same).1
  exact ⟨L, left.disk, left.faithful, fragments, displayed, Stage.start.places fragments, _, increasing,
    fun k i => Stage.mem_places_iff sorted same, Stage.whole_places strandAt .start _, reads⟩

end Reading

theorem returned_where_reached_sample :
    ∃ L, OnDisk ((Trail.run Sample.env ∅ Sample.fillingRecords).files [] []) L ∧
      Faithful L (Trail.run Sample.env ∅ Sample.fillingRecords).journal ∧
      ∃ fragments, L.Displayed ((Sample.fillingWithout 1010).files [] []) [1002, 1017] fragments ∧
        ∃ (whole : List (ℕ ×ₗ ℕ)) (outcomes : List Outcome), whole.Pairwise (· < ·) ∧
          (∀ k i, place k i ∈ whole ↔
            ∃ h ∈ fragments, h.k = k ∧ i < h.done ∧ ∃ n ≤ i, Fragment.Reaches fragments h n) ∧
          List.Forall₂ (Whole L) whole (outcomes.filter Outcome.isRecord) ∧
          ∀ caps : Nat → Nat, Ample caps L.records → ∃ last,
            ReadsToEof (.still (Sample.fillingWithout 1010) noFault true) caps
              (Sample.reader [1002, 1017]).begin outcomes last :=
  returned_where_reached Sample.wroteFilling (Damaged.erase _ _ _ _) true
    (show LogRead.new true (some (Sample.fillingWithout 1010)) [] [] = .ok (Sample.reader [1002, 1017])
      by decide +kernel)

end Tcslog
