import Tcslog.Layout
import Tcslog.Read.Calls

/-!
# What is left of a log

Of a log whose files were deleted, refused or cut short a reader meets one file
after another, and all it knows of the files before is what the last one told
it.  This module says what a reader tells of the files that are left, one by
one and in terms of the log: the records a file completes, the record that is
cut short where a file is not followed by the next, and the files that are
passed over because no record begins in what is left of them.
-/

namespace Tcslog

open Lib.Spanned

/-- What is left of a file: the first `shown` bytes of the data section of file
`j` of strand `k` of a log. -/
structure Fragment where
  k : Nat
  j : Nat
  strand : Strand
  shown : Nat
  isFile : j < strand.ids.length
  within : shown ≤ (strand.data j).length

namespace Fragment

variable (f g h : Fragment)

/-- Where the fragment begins on the tape of its strand. -/
def base : Nat :=
  f.j * f.strand.dataSection

/-- Where the fragment ends on the tape of its strand. -/
def limit : Nat :=
  f.base + f.shown

/-- How much of a record begun in an earlier file comes first. -/
def owes : Nat :=
  owed f.strand.blocks f.base

/-- How many records of the strand end up to the end of the fragment: the
record in progress there. -/
def done : Nat :=
  ended f.strand.blocks f.limit

/-- The first record that begins in the file. -/
def first : Nat :=
  ended f.strand.blocks (f.base + f.owes)

/-- How much of the record in progress comes before the end of the fragment. -/
def partway : Nat :=
  f.limit - f.strand.start f.done

/-- A record begins in what is left of the file. -/
def Offers : Prop :=
  f.owes < f.shown

/-- The fragment ends inside a record. -/
def Torn : Prop :=
  0 < f.partway

/-- The other file follows in the strand, and nothing of this one is missing. -/
def Precedes : Prop :=
  g.k = f.k ∧ g.j = f.j + 1 ∧ f.shown = f.strand.dataSection

/-- One file is missing between two, which held the rest of the record in
progress and the data header of the next record, and nothing else. -/
def Restores : Prop :=
  f.strand.format = .variableSimple ∧ g.k = f.k ∧ g.j = f.j + 2 ∧ f.shown = f.strand.dataSection ∧
    f.strand.format.dataHeaderLen ≤ f.partway ∧
    f.strand.start (f.done + 1) + f.strand.format.dataHeaderLen = g.base ∧ 0 < g.owes

instance : Decidable f.Offers :=
  inferInstanceAs (Decidable (_ < _))

instance : Decidable f.Torn :=
  inferInstanceAs (Decidable (_ < _))

instance : Decidable (f.Precedes g) :=
  inferInstanceAs (Decidable (_ ∧ _ ∧ _))

instance : Decidable (f.Restores g) :=
  inferInstanceAs (Decidable (_ ∧ _ ∧ _ ∧ _ ∧ _ ∧ _ ∧ _))

/-- The records of the strand from record `i` on that end in the fragment or
before. -/
def records (i : Nat) : List Record :=
  (f.strand.records.take f.done).drop i

/-- What is told of the records from record `i` on. -/
def tells (i : Nat) : List Outcome :=
  (f.records i).map Record.outcome

/-- Payload bytes of the record in progress that come before the end of the
fragment. -/
def placed : Nat :=
  f.partway - f.strand.format.dataHeaderLen

/-- The record in progress is told to be cut short. -/
def cutShort (lost : Nat) : Outcome :=
  .failed (.readTruncated lost f.placed) ((f.strand.records[f.done]?.elim [] Record.payload).take f.placed)

end Fragment

/-- Where a reader is between two files. -/
inductive Stage
  /-- No session is known. -/
  | start
  /-- The last file was read to its end. -/
  | reading (f : Fragment)
  /-- The last file was read to its end, and the record in progress there was
  told to be cut short. -/
  | broken (f : Fragment)
  /-- The last file was passed over, and so many files lost ahead of the session
  are still to be told of. -/
  | seeking (f : Fragment) (ahead : Nat)

/-- The first file of a session that is to be told of, or a later one of which
nothing was read: it is read from the first record that begins in it, if one
does. -/
def Fragment.enter (h : Fragment) (ahead : Nat) : List Outcome × Stage :=
  if h.Offers then
    ((if 0 < ahead then [.failed (.readTruncated ahead 0) []] else []) ++ h.tells h.first, .reading h)
  else ([], .seeking h ahead)

/-- A file of the session in which the record in progress was cut short. -/
def Fragment.resume (f h : Fragment) : List Outcome × Stage :=
  if f.Restores h then (h.tells (f.done + 1), .reading h) else h.enter 0

/-- More is told first. -/
def tellFirst (outcomes : List Outcome) (next : List Outcome × Stage) : List Outcome × Stage :=
  (outcomes ++ next.1, next.2)

namespace Stage

/-- A file of another session. -/
def change (h : Fragment) : List Outcome × Stage :=
  tellFirst [.failed .sessionEnd []] (h.enter h.j)

/-- What is told of the next file that is left, the files of a session being
those of one strand. -/
def step : Stage → Fragment → List Outcome × Stage
  | start, h => h.enter h.j
  | reading f, h =>
      if f.Precedes h then (h.tells f.done, .reading h)
      else if h.k = f.k then tellFirst [f.cutShort (h.j - (f.j + 1))] (f.resume h)
      else tellFirst (if f.Torn then [f.cutShort 0] else []) (change h)
  | broken f, h => if h.k = f.k then f.resume h else change h
  | seeking f ahead, h => if h.k = f.k then h.enter ahead else change h

/-- What is told where no usable file is left; unusable ones may be listed
still. -/
def last (refused : Bool) : Stage → List Outcome
  | reading f => if refused ∨ f.Torn ∨ f.shown = 0 then [f.cutShort 0] else []
  | _ => []

/-- What is told of the files that are left. -/
def retell (refused : Bool) : Stage → List Fragment → List Outcome
  | stage, [] => stage.last refused
  | stage, h :: rest => (stage.step h).1 ++ retell refused (stage.step h).2 rest

/-- The last file met. -/
def fragment : Stage → Option Fragment
  | start => none
  | reading f | broken f | seeking f _ => some f

/-- Files lost ahead of the session that are still to be told of. -/
def ahead : Stage → Nat
  | seeking _ ahead => ahead
  | _ => 0

/-- Files lost ahead of the session that are still to be told of if this file is
the next of it. -/
def owing : Stage → Fragment → Nat
  | start, h => h.j
  | seeking _ ahead, _ => ahead
  | _, _ => 0

/-- A record boundary is to be found. -/
def Seeks : Stage → Prop
  | reading _ => False
  | _ => True

/-- The next file begins with the payload of a record that can be restored. -/
def Restores : Stage → Fragment → Prop
  | broken f, h => f.Restores h
  | _, _ => False

/-- A search that comes to the end tells of nothing. -/
theorem Seeks.last_eq {stage : Stage} {refused : Bool} (seeks : stage.Seeks) :
    stage.last refused = [] := by
  cases stage with
  | reading f => exact seeks.elim
  | start | broken f | seeking f ahead => rfl

end Stage

/-! ## Fragments on the tape -/

theorem Strand.ended_start {σ : Strand} {i : Nat} (within : i ≤ σ.records.length) :
    ended σ.blocks (σ.start i) = i :=
  ended_offset blocks_nonempty (by rwa [length_blocks])

/-- A place of the tape is the start of one record at most. -/
theorem Strand.start_injective {σ : Strand} {i i' : Nat} (within : i ≤ σ.records.length)
    (within' : i' ≤ σ.records.length) (same : σ.start i = σ.start i') : i = i' := by
  rw [← ended_start within, same, ended_start within']

namespace Fragment

variable {f g h : Fragment} {i : Nat}

theorem shown_le (f : Fragment) : f.shown ≤ f.strand.dataSection :=
  f.within.trans (f.strand.length_data_le f.j)

theorem base_le (f : Fragment) : f.base ≤ f.strand.stored :=
  f.strand.page_start_le f.isFile

theorem limit_le_stored (f : Fragment) : f.limit ≤ f.strand.stored := by
  have shown := f.within
  have begins : f.j * f.strand.dataSection ≤ f.strand.stored := f.base_le
  rw [Strand.length_data] at shown
  rw [limit, base]
  omega

theorem limit_le (f : Fragment) : f.limit ≤ f.strand.blocks.flatten.length :=
  f.limit_le_stored.trans f.strand.storedLe

theorem base_le_limit (f : Fragment) : f.base ≤ f.limit :=
  Nat.le_add_right _ _

theorem limit_eq (full : f.shown = f.strand.dataSection) : f.limit = (f.j + 1) * f.strand.dataSection := by
  rw [limit, base, full, Nat.succ_mul]

theorem done_le (f : Fragment) : f.done ≤ f.strand.records.length := by
  rw [← Strand.length_blocks]
  exact ended_le _ _

theorem start_done_le (f : Fragment) : f.strand.start f.done ≤ f.limit :=
  offset_ended_le _ _

theorem start_done_add (f : Fragment) : f.strand.start f.done + f.partway = f.limit :=
  Nat.add_sub_cancel' f.start_done_le

theorem le_done_iff (within : i ≤ f.strand.records.length) : i ≤ f.done ↔ f.strand.start i ≤ f.limit :=
  le_ended_iff (by rwa [Strand.length_blocks])

/-- The record after those that end in the fragment or before does not end in
it. -/
theorem limit_lt (more : f.done < f.strand.records.length) : f.limit < f.strand.start (f.done + 1) :=
  lt_offset_ended_succ (by rwa [Strand.length_blocks])

/-- The record in progress at the end of the fragment. -/
theorem done_eq (within : i ≤ f.strand.records.length) (begun : f.strand.start i ≤ f.limit)
    (more : f.limit < f.strand.start (i + 1) ∨ i = f.strand.records.length) : f.done = i := by
  refine Nat.le_antisymm ?_ ((le_done_iff within).mpr begun)
  rcases more with more | atEnd
  · by_contra later
    have := (le_done_iff (f := f) (i := i + 1) (by have := f.done_le; omega)).mp (Nat.lt_of_not_le later)
    omega
  · exact atEnd ▸ f.done_le

/-- The first record that begins in the file begins behind what the file
owes. -/
theorem start_first (f : Fragment) : f.strand.start f.first = f.base + f.owes ∧
    f.first ≤ f.strand.records.length := by
  obtain ⟨i, le, place, _⟩ := exists_offset_eq_add_owed f.strand.blocks (p := f.base)
    (f.base_le_limit.trans f.limit_le)
  have isFirst : f.first = i := by
    rw [first, owes, ← place]
    exact ended_offset Strand.blocks_nonempty le
  rw [isFirst]
  exact ⟨place, by rwa [← Strand.length_blocks]⟩

theorem first_eq (within : i ≤ f.strand.records.length) (place : f.base + f.owes = f.strand.start i) :
    f.first = i := by
  rw [first, place]
  exact Strand.ended_start within

theorem Offers.first_lt (offers : f.Offers) : f.first ≤ f.done := by
  obtain ⟨place, within⟩ := f.start_first
  have less : f.owes < f.shown := offers
  rw [le_done_iff within, place, limit]
  omega

theorem enter_of_offers (offers : h.Offers) (ahead : Nat) :
    h.enter ahead = ((if 0 < ahead then [.failed (.readTruncated ahead 0) []] else []) ++ h.tells h.first,
      .reading h) :=
  if_pos offers

theorem enter_of_covered (covered : ¬ h.Offers) (ahead : Nat) : h.enter ahead = ([], .seeking h ahead) :=
  if_neg covered

/-- A record that has ended is told with those that follow it. -/
theorem tells_cons {record : Record} (recordAt : f.strand.records[i]? = some record)
    (past : i < f.done) : f.tells i = record.outcome :: f.tells (i + 1) := by
  have taken : (f.strand.records.take f.done)[i]? = some record := by
    rw [List.getElem?_take_of_lt past, recordAt]
  obtain ⟨less, rfl⟩ := List.getElem?_eq_some_iff.mp taken
  rw [tells, records, List.drop_eq_getElem_cons less, List.map_cons]
  rfl

theorem tells_done (f : Fragment) : f.tells f.done = [] := by
  rw [tells, records, List.drop_eq_nil_of_le (List.length_take_le _ _), List.map_nil]

section Precedes

variable (precedes : f.Precedes g) (same : g.strand = f.strand)

include precedes same

theorem Precedes.base_eq : g.base = f.limit := by
  rw [limit_eq precedes.2.2, base, precedes.2.1, same]

theorem Precedes.limit_eq : g.limit = f.limit + g.shown := by
  rw [limit, precedes.base_eq same]

theorem Precedes.done_le : f.done ≤ g.done := by
  rw [done, done, same]
  refine ended_mono _ ?_
  rw [precedes.limit_eq same]
  exact Nat.le_add_right _ _

/-- What two files in a row complete, the second completes. -/
theorem Precedes.tells (le : i ≤ f.done) : f.tells i ++ g.tells f.done = g.tells i := by
  have more := precedes.done_le same
  rw [Fragment.tells, Fragment.tells, Fragment.tells, ← List.map_append]
  congr 1
  rw [records, records, records, same]
  obtain ⟨n, isDone⟩ := Nat.exists_eq_add_of_le more
  rw [isDone, List.take_add, List.drop_append_of_le_length, List.drop_append_of_le_length]
  · rw [List.drop_eq_nil_of_le (List.length_take_le _ _), List.nil_append]
  · rwa [List.length_take, Nat.min_eq_left f.done_le]
  · rw [List.length_take, Nat.min_eq_left f.done_le]

end Precedes

end Fragment

/-! ## Reading on -/

namespace Stage

variable {f g h : Fragment} {refused : Bool} {rest : List Fragment} {i : Nat}

/-- What is told from record `i` of a file on that is read. -/
def retellFrom (refused : Bool) (f : Fragment) (i : Nat) (rest : List Fragment) : List Outcome :=
  f.tells i ++ (reading f).retell refused rest

/-- Where the next file follows, telling of the files goes on there. -/
theorem retellFrom_of_precedes (precedes : f.Precedes g) (same : g.strand = f.strand) (le : i ≤ f.done) :
    retellFrom refused f i (g :: rest) = retellFrom refused g i rest := by
  rw [retellFrom, retellFrom, retell, step, if_pos precedes, ← precedes.tells same le, List.append_assoc]

theorem retellFrom_cons {record : Record} (recordAt : f.strand.records[i]? = some record) (past : i < f.done) :
    retellFrom refused f i rest = record.outcome :: retellFrom refused f (i + 1) rest := by
  rw [retellFrom, f.tells_cons recordAt past]
  rfl

theorem enter_cases (h : Fragment) (ahead : Nat) :
    (h.enter ahead).2 = reading h ∨ (h.enter ahead).2 = seeking h ahead := by
  by_cases offers : h.Offers
  · exact .inl (by rw [Fragment.enter_of_offers offers])
  · exact .inr (by rw [Fragment.enter_of_covered offers])

/-- Behind a file a reader reads in it or has passed it over. -/
theorem step_cases (stage : Stage) (h : Fragment) :
    (stage.step h).2 = reading h ∨ ∃ ahead, (stage.step h).2 = seeking h ahead := by
  have enters (n : Nat) : (h.enter n).2 = reading h ∨ ∃ ahead, (h.enter n).2 = seeking h ahead :=
    (enter_cases h n).imp_right fun isNext => ⟨n, isNext⟩
  have resumes (f : Fragment) : (f.resume h).2 = reading h ∨ ∃ ahead, (f.resume h).2 = seeking h ahead := by
    rw [Fragment.resume]
    split
    · exact .inl rfl
    · exact enters 0
  cases stage with
  | start => exact enters h.j
  | broken f =>
      rw [step]
      split
      · exact resumes f
      · exact enters h.j
  | seeking f ahead =>
      rw [step]
      split
      · exact enters ahead
      · exact enters h.j
  | reading f =>
      rw [step]
      split
      · exact .inl rfl
      split
      · exact resumes f
      · exact enters h.j

/-- Where a record boundary is to be found in the session, the next file of it is
entered. -/
theorem step_of_same {stage : Stage} (seeks : stage.Seeks) (same : ∀ f, stage.fragment = some f → h.k = f.k)
    (unsettled : ¬ stage.Restores h) : stage.step h = h.enter (stage.owing h) := by
  cases stage with
  | start => rfl
  | reading f => exact seeks.elim
  | broken f => exact (if_pos (same f rfl)).trans (if_neg (show ¬ f.Restores h from unsettled))
  | seeking f ahead => exact if_pos (same f rfl)

/-- Where the next file does not follow, the record in progress is told to be
cut short. -/
theorem retell_reading_of_gap (gap : ¬ f.Precedes h) (same : h.k = f.k) :
    (reading f).retell refused (h :: rest) =
      f.cutShort (h.j - (f.j + 1)) :: (broken f).retell refused (h :: rest) := by
  rw [retell, retell, step, if_neg gap, if_pos same, step, if_pos same]
  rfl

/-- Where another session begins, that is told. -/
theorem retell_of_other {stage : Stage} (known : stage.fragment = some f) (other : h.k ≠ f.k)
    (whole : stage = reading f → ¬ f.Torn) :
    stage.retell refused (h :: rest) = .failed .sessionEnd [] :: start.retell refused (h :: rest) := by
  have changes : stage.step h = change h := by
    cases stage with
    | start => contradiction
    | reading g =>
        obtain rfl := Option.some.inj known
        rw [step, if_neg fun precedes => other precedes.1, if_neg other, if_neg (whole rfl)]
        rfl
    | broken g =>
        obtain rfl := Option.some.inj known
        exact if_neg other
    | seeking g ahead =>
        obtain rfl := Option.some.inj known
        exact if_neg other
  rw [retell, changes]
  rfl

theorem retell_reading_of_torn (other : h.k ≠ f.k) (torn : f.Torn) :
    (reading f).retell refused (h :: rest) = f.cutShort 0 :: (broken f).retell refused (h :: rest) := by
  rw [retell, retell, step, if_neg fun precedes => other precedes.1, if_neg other, if_pos torn, step,
    if_neg other]
  rfl

section Every

/-! What holds of records, of records cut short, of files lost ahead of a session
and of its end holds of all that is told. -/

variable {P : Outcome → Prop} (records : ∀ record : Record, P record.outcome)
  (cutShort : ∀ (f : Fragment) (lost : Nat), P (f.cutShort lost))
  (ahead : ∀ n, P (.failed (.readTruncated n 0) [])) (boundary : P (.failed .sessionEnd []))

include records

theorem forall_mem_tells (f : Fragment) (i : Nat) : ∀ outcome ∈ f.tells i, P outcome := by
  intro outcome mem
  obtain ⟨record, _, rfl⟩ := List.mem_map.mp mem
  exact records record

include ahead

theorem forall_mem_enter (h : Fragment) (n : Nat) : ∀ outcome ∈ (h.enter n).1, P outcome := by
  by_cases offers : h.Offers
  · rw [Fragment.enter_of_offers offers, List.forall_mem_append]
    refine ⟨fun outcome mem => ?_, forall_mem_tells records h _⟩
    rw [List.mem_ite_nil_right, List.mem_singleton] at mem
    exact mem.2 ▸ ahead n
  · rw [Fragment.enter_of_covered offers]
    exact List.forall_mem_nil _

theorem forall_mem_resume (f h : Fragment) : ∀ outcome ∈ (f.resume h).1, P outcome := by
  rw [Fragment.resume]
  split
  · exact forall_mem_tells records h _
  · exact forall_mem_enter records ahead h 0

include boundary

theorem forall_mem_change (h : Fragment) : ∀ outcome ∈ (change h).1, P outcome :=
  List.forall_mem_cons.mpr ⟨boundary, forall_mem_enter records ahead h h.j⟩

include cutShort

theorem forall_mem_step (stage : Stage) (h : Fragment) : ∀ outcome ∈ (stage.step h).1, P outcome := by
  cases stage with
  | start => exact forall_mem_enter records ahead h h.j
  | broken f =>
      rw [step]
      split
      · exact forall_mem_resume records ahead f h
      · exact forall_mem_change records ahead boundary h
  | seeking f n =>
      rw [step]
      split
      · exact forall_mem_enter records ahead h n
      · exact forall_mem_change records ahead boundary h
  | reading f =>
      rw [step]
      split
      · exact forall_mem_tells records h _
      split
      · exact List.forall_mem_cons.mpr ⟨cutShort f _, forall_mem_resume records ahead f h⟩
      · refine List.forall_mem_append.mpr ⟨fun outcome mem => ?_, forall_mem_change records ahead boundary h⟩
        rw [List.mem_ite_nil_right, List.mem_singleton] at mem
        exact mem.2 ▸ cutShort f 0

theorem forall_mem_retell (refused : Bool) (stage : Stage) (rest : List Fragment) :
    ∀ outcome ∈ stage.retell refused rest, P outcome := by
  induction rest generalizing stage with
  | nil =>
      intro outcome mem
      cases stage with
      | reading f =>
          rw [retell, last, List.mem_ite_nil_right, List.mem_singleton] at mem
          exact mem.2 ▸ cutShort f 0
      | start | broken f | seeking f n => contradiction
  | cons h rest ih =>
      exact List.forall_mem_append.mpr ⟨forall_mem_step records cutShort ahead boundary stage h, ih _⟩

theorem forall_mem_retellFrom (refused : Bool) (f : Fragment) (i : Nat) (rest : List Fragment) :
    ∀ outcome ∈ retellFrom refused f i rest, P outcome :=
  List.forall_mem_append.mpr
    ⟨forall_mem_tells records f i, forall_mem_retell records cutShort ahead boundary refused _ rest⟩

end Every

theorem retellFrom_done (refused : Bool) (f : Fragment) (rest : List Fragment) :
    retellFrom refused f f.done rest = (reading f).retell refused rest := by
  rw [retellFrom, f.tells_done, List.nil_append]

end Stage

end Tcslog
