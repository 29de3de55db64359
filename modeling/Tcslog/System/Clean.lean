import Tcslog.Read.Reach
import Tcslog.System.Silence

/-!
# Reading that reports no loss

Where the last file of each session is untouched, reading that reports no record
cut short and no file lost returned all records of the sessions of which files
are left, unless the first file of such a session is gone or shows no data.
-/

namespace Tcslog

open Lib.Spanned

namespace Fragment

/-- The last file of its session, of which nothing is missing. -/
def Closes (f : Fragment) : Prop :=
  f.j + 1 = f.strand.ids.length ∧ f.shown = (f.strand.data f.j).length

/-- The first file of its session, of which some data is left. -/
def Opens (f : Fragment) : Prop :=
  f.j = 0 ∧ 0 < f.shown

/-- Of each session the first file that is left, behind a file of another. -/
def heads : Option Nat → List Fragment → List Fragment
  | _, [] => []
  | before, h :: rest => if before = some h.k then heads before rest else h :: heads (some h.k) rest

variable {f g h : Fragment}

theorem heads_cons_of_ne {before : Option Nat} (other : before ≠ some h.k) (rest : List Fragment) :
    heads before (h :: rest) = h :: heads (some h.k) rest :=
  if_neg other

theorem heads_cons_of_eq (rest : List Fragment) : heads (some h.k) (h :: rest) = heads (some h.k) rest :=
  if_pos rfl

/-- Where a file closes its session all records are done. -/
theorem Closes.done_eq (closes : f.Closes) (full : f.strand.Full) : f.done = f.strand.records.length := by
  have isLast : f.limit = f.strand.stored := by
    have begins : f.j * f.strand.dataSection ≤ f.strand.stored := f.base_le
    have fits := f.strand.storedFits
    change f.strand.stored ≤ f.strand.ids.length * f.strand.dataSection at fits
    rw [← closes.1, Nat.succ_mul] at fits
    rw [limit, base, closes.2, Strand.length_data]
    omega
  rw [done, isLast, full, ← Strand.start_length, Strand.ended_start (Nat.le_refl _)]

theorem heads_of_other (other : h.k ≠ f.k) (rest : List Fragment) :
    heads (some f.k) (h :: rest) = heads none (h :: rest) := by
  rw [heads_cons_of_ne (by simpa using Ne.symm other), heads_cons_of_ne (by simp)]

/-- The first record begins in the first file of its session. -/
theorem offers_and_first_iff : f.Offers ∧ f.first = 0 ↔ f.Opens := by
  have place := f.start_first.1
  have room := f.strand.dataSection_pos
  constructor
  · rintro ⟨offers, isFirst⟩
    rw [isFirst, Strand.start_zero, base] at place
    obtain ⟨begins, none⟩ := Nat.add_eq_zero_iff.mp place.symm
    have isHead := (Nat.mul_eq_zero.mp begins).resolve_right room.ne'
    rw [Offers, none] at offers
    exact ⟨isHead, offers⟩
  · rintro ⟨isHead, some⟩
    have begins : f.base = 0 := by rw [base, isHead, Nat.zero_mul]
    have none : f.owes = 0 := by rw [owes, begins, owed_zero]
    refine ⟨?_, first_eq (Nat.zero_le _) ?_⟩
    · rwa [Offers, none]
    · rw [begins, none, Strand.start_zero]

end Fragment

namespace Stage

open Fragment

/-- The records of the session in progress that are not told yet, those that a
passed file began among them. -/
def awaits : Stage → List Record
  | reading f => f.strand.records.drop f.done
  | seeking f _ => f.strand.records
  | _ => []

/-- What is to be told of the sessions of which files are left. -/
def due (stage : Stage) (fs : List Fragment) : List Outcome :=
  (stage.awaits ++ (heads (stage.fragment.map Fragment.k) fs).flatMap fun h => h.strand.records).map
    Record.outcome

/-- What is told of records. -/
def returned (refused : Bool) (stage : Stage) (fs : List Fragment) : List Outcome :=
  (stage.retell refused fs).filter Outcome.isRecord

/-- No session is begun behind its first records. -/
def Shown (stage : Stage) (fs : List Fragment) : Prop :=
  (∀ f ahead, stage = seeking f ahead → f.strand.records = []) ∧
    ∀ h ∈ heads (stage.fragment.map Fragment.k) fs, h.strand.records = [] ∨ h.Opens

/-- What is known of the files that are left. -/
structure Left (stage : Stage) (fs : List Fragment) : Prop where
  sorted : (stage.fragment.toList ++ fs).Pairwise Before
  same : ∀ f ∈ stage.fragment.toList ++ fs, ∀ g ∈ stage.fragment.toList ++ fs, f.k = g.k → f.strand = g.strand
  full : ∀ f ∈ stage.fragment.toList ++ fs, f.strand.Full
  closed : ∀ f ∈ stage.fragment.toList ++ fs, ∃ g ∈ stage.fragment.toList ++ fs, g.k = f.k ∧ g.Closes

variable {stage stage' : Stage} {f h : Fragment} {fs rest : List Fragment} {refused : Bool}

theorem Left.step (left : Left stage (h :: rest)) (next : stage'.fragment = some h) : Left stage' rest := by
  have within {g : Fragment} (mem : g ∈ stage'.fragment.toList ++ rest) :
      g ∈ stage.fragment.toList ++ h :: rest := by
    rw [next] at mem
    exact List.mem_append_right _ mem
  refine ⟨?_, fun f mem g mem' => left.same f (within mem) g (within mem'), fun f mem => left.full f (within mem),
    fun f mem => ?_⟩
  · rw [next]
    exact (List.pairwise_append.mp left.sorted).2.1
  · obtain ⟨g, mem', same, closes⟩ := left.closed f (within mem)
    rcases List.mem_append.mp mem' with isLast | inRest
    · -- no file of a session follows the one that closes it
      rw [next] at mem
      have before := (List.pairwise_append.mp left.sorted).2.2 g isLast f mem
      rw [Before] at before
      have := f.isFile
      rw [left.same f (List.mem_append_right _ mem) g mem' same.symm, ← closes.1] at this
      omega
    · rw [next]
      exact ⟨g, inRest, same, closes⟩

/-- Where no file of the session follows it is closed. -/
theorem Left.closes (left : Left (reading f) fs) (noMore : ∀ g ∈ fs, g.k ≠ f.k) : f.Closes := by
  obtain ⟨g, mem, same, closes⟩ := left.closed f (by simp [fragment])
  rcases List.mem_cons.mp mem with rfl | inRest
  · exact closes
  · exact absurd same (noMore g inRest)

theorem Left.noMore (left : Left stage (h :: rest)) (known : stage.fragment = some f) (other : h.k ≠ f.k) :
    ∀ g ∈ h :: rest, g.k ≠ f.k := by
  have sorted := left.sorted
  rw [known] at sorted
  obtain ⟨first, sorted⟩ := List.pairwise_cons.mp sorted
  have less := (first h List.mem_cons_self).le
  intro g mem
  have le : h.k ≤ g.k := by
    rcases List.mem_cons.mp mem with rfl | later
    · exact Nat.le_refl _
    · exact ((List.pairwise_cons.mp sorted).1 g later).le
  omega

variable (rest) in
/-- What is told of a file goes on to what is to be told behind it. -/
theorem tells_append_due {i : Nat} (le : i ≤ f.done) : f.tells i ++ (reading f).due rest =
    (f.strand.records.drop i ++ (heads (some f.k) rest).flatMap fun h => h.strand.records).map
      Record.outcome := by
  have split : f.records i ++ f.strand.records.drop f.done = f.strand.records.drop i := by
    obtain ⟨n, isDone⟩ := Nat.exists_eq_add_of_le le
    rw [Fragment.records, List.drop_take, isDone, Nat.add_sub_cancel_left, ← List.drop_drop,
      List.take_append_drop]
  rw [Fragment.tells, due, ← List.map_append, ← List.append_assoc, ← split]
  rfl

theorem shown_start : start.Shown fs ↔ ∀ h ∈ heads none fs, h.strand.records = [] ∨ h.Opens :=
  and_iff_right fun _ _ impossible => by simp at impossible

theorem shown_reading :
    (reading f).Shown fs ↔ ∀ h ∈ heads (some f.k) fs, h.strand.records = [] ∨ h.Opens :=
  and_iff_right fun _ _ impossible => by simp at impossible

theorem shown_seeking {ahead : Nat} : (seeking f ahead).Shown fs ↔
    f.strand.records = [] ∧ ∀ h ∈ heads (some f.k) fs, h.strand.records = [] ∨ h.Opens := by
  refine and_congr_left fun _ => ⟨fun all => all f ahead rfl, fun here g n same => ?_⟩
  rwa [← (Stage.seeking.inj same).1]

/-- What a reader returns of files is due, and all that is due if and only if the
sessions are shown from their beginning. -/
def ReturnsDue (refused : Bool) (stage : Stage) (fs : List Fragment) : Prop :=
  (stage.returned refused fs).Sublist (stage.due fs) ∧
    (stage.returned refused fs = stage.due fs ↔ stage.Shown fs)

/-- Where a file is entered. -/
theorem returned_enter {ahead : Nat}
    (behind : ∀ stage' : Stage, stage'.fragment = some h → (∀ f, stage' ≠ broken f) →
      Clean (stage'.retell refused rest) → ReturnsDue refused stage' rest)
    (clean : Clean ((h.enter ahead).1 ++ (h.enter ahead).2.retell refused rest)) :
    let told := ((h.enter ahead).1 ++ (h.enter ahead).2.retell refused rest).filter Outcome.isRecord
    let wanted := (h.strand.records ++ (heads (some h.k) rest).flatMap fun h => h.strand.records).map
      Record.outcome
    told.Sublist wanted ∧ (told = wanted ↔ (h.strand.records = [] ∨ h.Opens) ∧
      ∀ g ∈ heads (some h.k) rest, g.strand.records = [] ∨ g.Opens) := by
  intro told wanted
  rw [← offers_and_first_iff]
  by_cases offers : h.Offers
  · rw [enter_of_offers offers] at clean
    have quiet : (if 0 < ahead then [Outcome.failed (.readTruncated ahead 0) []] else []) = [] := by
      refine if_neg fun some => ?_
      rw [if_pos some] at clean
      simpa [Outcome.isRecord] using clean _ List.mem_cons_self
    rw [quiet, List.nil_append] at clean
    obtain ⟨sub, iff⟩ := behind (.reading h) rfl (by simp) (clean_append.mp clean).2
    have isTold : told = h.tells h.first ++ (reading h).returned refused rest := by
      change ((h.enter ahead).1 ++ _).filter Outcome.isRecord = _
      rw [enter_of_offers offers, quiet, List.nil_append, List.filter_append, Fragment.tells, filter_records]
      rfl
    have goesOn := tells_append_due rest offers.first_lt
    have shorter : (h.tells h.first ++ (reading h).due rest).Sublist wanted := by
      rw [goesOn]
      exact ((List.drop_sublist _ _).append_right _).map _
    have within := h.start_first.2
    have lengths : (h.tells h.first).length + ((reading h).due rest).length + h.first = wanted.length := by
      have := congrArg List.length goesOn
      rw [List.length_append, List.length_map, List.length_append, List.length_drop] at this
      rw [List.length_map, List.length_append]
      omega
    refine ⟨isTold ▸ (sub.append_left _).trans shorter, ?_⟩
    rw [isTold, ← shown_reading, ← iff]
    constructor
    · intro all
      have := congrArg List.length all
      rw [List.length_append] at this
      have le := sub.length_le
      exact ⟨.inr ⟨offers, by omega⟩, sub.eq_of_length (by omega)⟩
    · rintro ⟨begun, same⟩
      have isFirst : h.first = 0 := by
        rcases begun with none | ⟨_, isFirst⟩
        · rw [none] at within
          exact Nat.le_zero.mp within
        · exact isFirst
      rw [same, goesOn, isFirst]
      rfl
  · rw [enter_of_covered offers] at clean
    obtain ⟨sub, iff⟩ := behind (.seeking h ahead) rfl (by simp) clean
    have isTold : told = (seeking h ahead).returned refused rest := by
      change ((h.enter ahead).1 ++ _).filter Outcome.isRecord = _
      rw [enter_of_covered offers]
      rfl
    rw [isTold]
    rw [shown_seeking] at iff
    refine ⟨sub, iff.trans (and_congr_left fun _ => ?_)⟩
    exact (or_iff_left fun opens => offers opens.1).symm

theorem filter_last (stage : Stage) (refused : Bool) : (stage.last refused).filter Outcome.isRecord = [] := by
  cases stage with
  | reading f => rw [last]; split <;> rfl
  | start | broken f | seeking f n => rfl

section Behind

variable (behind : ∀ stage' : Stage, stage'.fragment = some h → (∀ f, stage' ≠ broken f) →
  Clean (stage'.retell refused rest) → ReturnsDue refused stage' rest)

include behind

/-- Where no session is in progress. -/
theorem returns_start (clean : Clean (start.retell refused (h :: rest))) :
    ReturnsDue refused start (h :: rest) := by
  obtain ⟨sub, iff⟩ := returned_enter behind clean
  have isDue : start.due (h :: rest) = (h.strand.records ++
      (heads (some h.k) rest).flatMap fun h => h.strand.records).map Record.outcome := by
    rw [due, fragment, Option.map_none, heads_cons_of_ne (by simp)]
    rfl
  rw [ReturnsDue, isDue, shown_start, heads_cons_of_ne (by simp), List.forall_mem_cons]
  exact ⟨sub, iff⟩

/-- Where none of the files met of a session begins a record, and another file of
it is next. -/
theorem returns_seeking_same {ahead : Nat} (left : Left (seeking f ahead) (h :: rest)) (same : h.k = f.k)
    (clean : Clean ((seeking f ahead).retell refused (h :: rest))) :
    ReturnsDue refused (seeking f ahead) (h :: rest) := by
  have sameStrand := left.same h (by simp) f (by simp [fragment]) same
  have later : ¬ h.Opens := fun opens => by
    have before := (List.pairwise_cons.mp left.sorted).1 h List.mem_cons_self
    have isHead := opens.1
    rw [Before] at before
    omega
  rw [retell, Stage.step, if_pos same] at clean
  obtain ⟨sub, iff⟩ := returned_enter behind clean
  have isTold : (seeking f ahead).returned refused (h :: rest) =
      ((h.enter ahead).1 ++ (h.enter ahead).2.retell refused rest).filter Outcome.isRecord := by
    rw [returned, retell, Stage.step, if_pos same]
  rw [or_iff_left later] at iff
  rw [ReturnsDue, isTold, due, shown_seeking, fragment, Option.map_some, ← same, heads_cons_of_eq, awaits,
    ← sameStrand]
  exact ⟨sub, iff⟩

/-- Where none of the files met of a session begins a record, and another session
begins. -/
theorem returns_seeking_other {ahead : Nat} (other : h.k ≠ f.k)
    (clean : Clean ((seeking f ahead).retell refused (h :: rest))) :
    ReturnsDue refused (seeking f ahead) (h :: rest) := by
  have changes : (seeking f ahead).retell refused (h :: rest) =
      .failed .sessionEnd [] :: start.retell refused (h :: rest) :=
    retell_of_other rfl other fun impossible => by simp at impossible
  rw [changes] at clean
  obtain ⟨sub, iff⟩ := returns_start behind (clean_cons.mp clean).2
  have isTold : (seeking f ahead).returned refused (h :: rest) = start.returned refused (h :: rest) := by
    rw [returned, changes]
    rfl
  have isDue : (seeking f ahead).due (h :: rest) =
      f.strand.records.map Record.outcome ++ start.due (h :: rest) := by
    rw [due, fragment, Option.map_some, heads_of_other other, List.map_append]
    rfl
  rw [shown_start] at iff
  rw [ReturnsDue, isTold, isDue, shown_seeking, heads_of_other other, ← iff]
  refine ⟨sub.trans (List.sublist_append_right _ _), ?_⟩
  constructor
  · intro all
    have := congrArg List.length all
    rw [List.length_append, List.length_map] at this
    have le := sub.length_le
    exact ⟨List.eq_nil_of_length_eq_zero (by omega), sub.eq_of_length (by omega)⟩
  · rintro ⟨none, same⟩
    rw [none, same]
    rfl

/-- Where the next file of the session follows. -/
theorem returns_reading_next (left : Left (reading f) (h :: rest)) (precedes : f.Precedes h)
    (clean : Clean ((reading f).retell refused (h :: rest))) :
    ReturnsDue refused (reading f) (h :: rest) := by
  have sameStrand := left.same h (by simp [fragment]) f (by simp [fragment]) precedes.1
  rw [retell, Stage.step, if_pos precedes, clean_append] at clean
  obtain ⟨sub, iff⟩ := behind (.reading h) rfl (by simp) clean.2
  have isDue : (reading f).due (h :: rest) = h.tells f.done ++ (reading h).due rest := by
    rw [tells_append_due rest (precedes.done_le sameStrand), due, fragment, Option.map_some, ← precedes.1,
      heads_cons_of_eq, sameStrand]
    rfl
  have isTold : (reading f).returned refused (h :: rest) =
      h.tells f.done ++ (reading h).returned refused rest := by
    rw [returned, retell, Stage.step, if_pos precedes, List.filter_append, Fragment.tells, filter_records]
    rfl
  rw [ReturnsDue, isDue, isTold, List.append_cancel_left_eq, iff, shown_reading, shown_reading, ← precedes.1,
    heads_cons_of_eq]
  exact ⟨sub.append_left _, Iff.rfl⟩

/-- Where another session begins, the one before it is closed, and no record was
in progress. -/
theorem returns_reading_other (left : Left (reading f) (h :: rest)) (other : h.k ≠ f.k)
    (clean : Clean ((reading f).retell refused (h :: rest))) :
    ReturnsDue refused (reading f) (h :: rest) := by
  have closed := (left.closes (left.noMore rfl other)).done_eq (left.full f (by simp [fragment]))
  have whole : ¬ f.Torn := fun torn => by
    rw [retell_reading_of_torn other torn] at clean
    have cut := clean _ List.mem_cons_self
    simp [Fragment.cutShort, Outcome.isRecord] at cut
  have changes : (reading f).retell refused (h :: rest) =
      .failed .sessionEnd [] :: start.retell refused (h :: rest) :=
    retell_of_other rfl other fun _ => whole
  rw [changes] at clean
  have isTold : (reading f).returned refused (h :: rest) = start.returned refused (h :: rest) := by
    rw [returned, changes]
    rfl
  have isDue : (reading f).due (h :: rest) = start.due (h :: rest) := by
    rw [due, fragment, Option.map_some, heads_of_other other, awaits, closed, List.drop_length]
    rfl
  have isShown : (reading f).Shown (h :: rest) ↔ start.Shown (h :: rest) := by
    rw [shown_reading, shown_start, heads_of_other other]
  rw [ReturnsDue, isTold, isDue, isShown]
  exact returns_start behind (clean_cons.mp clean).2

end Behind

/-- Reading that reports no loss returns the records of the sessions in order,
and all of them if and only if each session is shown from its beginning. -/
theorem returned_of_clean (left : Left stage fs) (between : ∀ f, stage ≠ broken f)
    (clean : Clean (stage.retell refused fs)) : ReturnsDue refused stage fs := by
  induction fs generalizing stage with
  | nil =>
      have nothing : stage.returned refused [] = [] := filter_last stage refused
      rw [ReturnsDue, nothing, due, heads, Shown, heads]
      refine ⟨List.nil_sublist _, ?_⟩
      cases stage with
      | start => simp [awaits]
      | broken f => exact absurd rfl (between f)
      | seeking f ahead => simp [awaits, eq_comm]
      | reading f =>
          have closed := (left.closes (by simp)).done_eq (left.full f (by simp [fragment]))
          simp [awaits, closed]
  | cons h rest ih =>
      have behind (stage' : Stage) (next : stage'.fragment = some h) (between : ∀ f, stage' ≠ broken f)
          (clean : Clean (stage'.retell refused rest)) : ReturnsDue refused stage' rest :=
        ih (left.step next) between clean
      cases stage with
      | start => exact returns_start behind clean
      | broken f => exact absurd rfl (between f)
      | seeking f ahead =>
          by_cases same : h.k = f.k
          · exact returns_seeking_same behind left same clean
          · exact returns_seeking_other behind same clean
      | reading f =>
          by_cases precedes : f.Precedes h
          · exact returns_reading_next behind left precedes clean
          by_cases same : h.k = f.k
          · -- a gap in the session is reported
            rw [retell, Stage.step, if_neg precedes, if_pos same] at clean
            have cut := clean (f.cutShort (h.j - (f.j + 1))) (by simp [tellFirst])
            simp [Fragment.cutShort, Outcome.isRecord] at cut
          · exact returns_reading_other behind left same clean

end Stage

section Reading

variable {env : WriteEnv} {dir dir' : Dir} {lives : List Life} {namePrefix nameSuffix : Bytes}

/-- The files a reader is shown are those of sessions that are stored to the
end. -/
theorem Faithful.left {L : Log} {files : SegId → Option Bytes} {journal : Journal} {ids : List SegId}
    {fragments : List Fragment} (faithful : Faithful L journal)
    (sorted : fragments.Pairwise Fragment.Before) (named : ∀ f ∈ fragments, ∃ id ∈ ids, L.Displays files id f)
    (closed : ∀ f ∈ fragments, ∃ g ∈ fragments, g.k = f.k ∧ g.Closes) : Stage.start.Left fragments := by
  obtain ⟨strandAt, same⟩ := Log.strandAt_of_displays named
  refine ⟨sorted, same, fun f mem => ?_, closed⟩
  obtain ⟨session, _, keeps⟩ := faithful.exists_keeps (strandAt f mem)
  exact keeps.full

/-- Whatever else is taken away from a log, where the last file of each session of
which a file is left is untouched and a reader is told of records and ends of
sessions only, it is told of records of these sessions, in order and none twice,
and of all of them if and only if the first file of each still shows data.  With
room for any record, a reader that is told of nothing else is told of all of them
exactly where a loss is to be told of or no session is begun behind its first
file. -/
theorem clean_reading_complete (wrote : Wrote env dir lives namePrefix nameSuffix)
    (damaged : Damaged ((Trail.run env dir lives).files namePrefix nameSuffix)
      (dir'.files namePrefix nameSuffix))
    {isDir : Bool} (overflowChecks : Bool) {log : LogRead}
    (isNew : LogRead.new isDir (some dir') namePrefix nameSuffix = .ok log) :
    ∃ L, OnDisk ((Trail.run env dir lives).files namePrefix nameSuffix) L ∧
      Faithful L (Trail.run env dir lives).journal ∧
      ∃ fragments, L.Displayed (dir'.files namePrefix nameSuffix) log.pending fragments ∧
        ((∀ f ∈ fragments, ∃ g ∈ fragments, g.k = f.k ∧ g.Closes) →
          ∀ (caps : Nat → Nat) (outcomes : List Outcome) (last : ReadState),
            ReadsToEof (.still dir' noFault overflowChecks) caps log.begin outcomes last →
            let stored := ((Fragment.heads none fragments).flatMap fun h => h.strand.records).map Record.outcome
            let shown := ∀ h ∈ Fragment.heads none fragments, h.strand.records = [] ∨ h.Opens
            ((∀ n, 0 < caps n) ∨ Ample caps (Trail.run env dir lives).journal.records → Clean outcomes →
              (outcomes.filter Outcome.isRecord).Sublist stored ∧
                (outcomes.filter Outcome.isRecord = stored ↔ shown)) ∧
            (Ample caps (Trail.run env dir lives).journal.records →
              ((Clean outcomes → outcomes.filter Outcome.isRecord = stored) ↔
                Fragment.LossTold fragments
                  (endsRefused (dir'.files namePrefix nameSuffix) log.pending) ∨ shown))) := by
  obtain ⟨L, left⟩ := Trail.run_left wrote.leaves wrote.empty wrote.names wrote.clean
  obtain ⟨fragments, displayed, ⟨sorted, named⟩, reads, readsAmple⟩ :=
    left.faithful.reads left.disk damaged overflowChecks isNew
  rw [left.faithful.records] at readsAmple
  refine ⟨L, left.disk, left.faithful, fragments, displayed, ?_⟩
  intro closed caps outcomes last told stored shown
  have isTold (room : (∀ n, 0 < caps n) ∨ Ample caps (Trail.run env dir lives).journal.records)
      (clean : Clean outcomes) : outcomes = Stage.start.retell
        (endsRefused (dir'.files namePrefix nameSuffix) log.pending) fragments := by
    rcases room with nonempty | ample
    · obtain ⟨_, reads⟩ := reads caps nonempty
      have told' := reads.unique told
      exact told'.trans (clipped_of_clean (told' ▸ clean))
    · obtain ⟨_, reads⟩ := readsAmple caps ample
      exact reads.unique told
  have complete (room : (∀ n, 0 < caps n) ∨ Ample caps (Trail.run env dir lives).journal.records)
      (clean : Clean outcomes) : (outcomes.filter Outcome.isRecord).Sublist stored ∧
        (outcomes.filter Outcome.isRecord = stored ↔ shown) := by
    have between (f : Fragment) : Stage.start ≠ Stage.broken f := by simp
    have due := Stage.returned_of_clean (left.faithful.left sorted named closed) between
      (isTold room clean ▸ clean)
    rw [isTold room clean]
    rwa [Stage.ReturnsDue, Stage.shown_start] at due
  refine ⟨complete, fun ample => ?_⟩
  obtain ⟨_, reads⟩ := readsAmple caps ample
  have isClean : Clean outcomes ↔ ¬ Fragment.LossTold fragments
      (endsRefused (dir'.files namePrefix nameSuffix) log.pending) := by
    rw [reads.unique told]
    exact Stage.clean_retell_iff_not_lossTold sorted
  constructor
  · intro all
    by_cases clean : Clean outcomes
    · exact .inr ((complete (.inr ample) clean).2.mp (all clean))
    · exact .inl (Classical.not_not.mp fun none => clean (isClean.mpr none))
  · rintro (lossTold | isShown) clean
    · exact absurd lossTold (isClean.mp clean)
    · exact (complete (.inr ample) clean).2.mpr isShown

end Reading

theorem clean_reading_complete_sample :
    ∃ L, OnDisk ((Trail.run Sample.env ∅ Sample.fillingRecords).files [] []) L ∧
      Faithful L (Trail.run Sample.env ∅ Sample.fillingRecords).journal ∧
      ∃ fragments, L.Displayed ((Trail.run Sample.env ∅ Sample.fillingRecords).files [] [])
          [1002, 1010, 1017] fragments ∧
        ((∀ f ∈ fragments, ∃ g ∈ fragments, g.k = f.k ∧ g.Closes) →
          ∀ (caps : Nat → Nat) (outcomes : List Outcome) (last : ReadState),
            ReadsToEof (.still (Trail.run Sample.env ∅ Sample.fillingRecords).state.dir noFault true) caps
              (Sample.reader [1002, 1010, 1017]).begin outcomes last →
            let stored := ((Fragment.heads none fragments).flatMap fun h => h.strand.records).map Record.outcome
            let shown := ∀ h ∈ Fragment.heads none fragments, h.strand.records = [] ∨ h.Opens
            ((∀ n, 0 < caps n) ∨ Ample caps (Trail.run Sample.env ∅ Sample.fillingRecords).journal.records →
              Clean outcomes →
              (outcomes.filter Outcome.isRecord).Sublist stored ∧
                (outcomes.filter Outcome.isRecord = stored ↔ shown)) ∧
            (Ample caps (Trail.run Sample.env ∅ Sample.fillingRecords).journal.records →
              ((Clean outcomes → outcomes.filter Outcome.isRecord = stored) ↔
                Fragment.LossTold fragments
                  (endsRefused ((Trail.run Sample.env ∅ Sample.fillingRecords).files [] []) [1002, 1010, 1017]) ∨
                  shown))) :=
  clean_reading_complete Sample.wroteFilling (Damaged.refl _) true
    (show LogRead.new true (some (Trail.run Sample.env ∅ Sample.fillingRecords).state.dir) [] [] =
      .ok (Sample.reader [1002, 1010, 1017]) by decide +kernel)

/-- With the file gone in which the only record begins, the last file is untouched,
reading tells of nothing, and the record is missing. -/
theorem record_lost_silently :
    Wrote Sample.env ∅ Sample.spanningRecord [] [] ∧
      scanSegmentIds (Trail.run Sample.env ∅ Sample.spanningRecord).state.dir [] [] = [1002, 1009] ∧
      Damaged ((Trail.run Sample.env ∅ Sample.spanningRecord).files [] []) (Sample.spanning.files [] []) ∧
      Sample.spanning.files [] [] 1009 = (Trail.run Sample.env ∅ Sample.spanningRecord).files [] [] 1009 ∧
      (Trail.run Sample.env ∅ Sample.spanningRecord).journal.records =
        [⟨[1, 2, 3, 4, 5, 6, 7, 8, 9, 10], .variableSimple⟩] ∧
      LogRead.new true (some Sample.spanning) [] [] = .ok (Sample.reader [1009]) ∧
      ∃ outcomes last, ReadsToEof (.still Sample.spanning noFault true) (fun _ => 10)
        (Sample.reader [1009]).begin outcomes last ∧ Clean outcomes ∧
        outcomes.filter Outcome.isRecord = [] := by
  refine ⟨Sample.wroteSpanning, ?_, Damaged.erase _ _ _ _, ?_, ?_, ?_, [], _, ReadsToEof.nil (Prod.ext ?_ rfl),
    List.forall_mem_nil _, rfl⟩
  · decide +kernel
  · decide +kernel
  · decide +kernel
  · decide +kernel
  · decide +kernel

end Tcslog
