import Tcslog.System.Clean
import Tcslog.System.Restored

/-!
# A record whose data header is lost

Of a log of which files are gone and the others are whole a record comes back
without its data header where the file that is gone held the rest of the record
before and the data header, and nothing else; and where one file is gone and held
that, the record before is reported cut short and all others come back.
-/

namespace Tcslog

open Lib.Spanned

/-- File `j` holds the rest of record `i`, whose data header lies wholly in the
files before, then the data header of record `i + 1`, of which more is to come,
and nothing else. -/
structure Strand.EndsInHeader (σ : Strand) (j i : Nat) : Prop where
  simple : σ.format = .variableSimple
  isFile : j < σ.ids.length
  begun : σ.start i + σ.format.dataHeaderLen ≤ j * σ.dataSection
  ends : σ.start (i + 1) + σ.format.dataHeaderLen = j * σ.dataSection + (σ.data j).length
  more : ∃ record, σ.records[i + 1]? = some record ∧ record.payload ≠ []

/-- Each file is there as it was, or gone. -/
def Deleted (files files' : SegId → Option Bytes) : Prop :=
  ∀ id, files' id = files id ∨ files' id = none

theorem Deleted.damaged {files files' : SegId → Option Bytes} (deleted : Deleted files files') :
    Damaged files files' := by
  intro id content present
  rcases deleted id with same | gone
  · exact .inr ⟨content, content.length, same ▸ present, List.take_length.symm⟩
  · rw [gone] at present
    contradiction

theorem Deleted.erase (dir : Dir) (name namePrefix nameSuffix : Bytes) :
    Deleted (dir.files namePrefix nameSuffix) (Dir.files (dir.erase name) namePrefix nameSuffix) := by
  intro id
  by_cases same : buildName namePrefix id nameSuffix = name
  · right
    rw [Dir.files, same, AList.lookup_erase]
  · left
    rw [Dir.files, AList.lookup_erase_ne same, Dir.files]

/-! ## Bridges -/

namespace Strand.EndsInHeader

variable {σ : Strand} {j i : Nat} (ends : σ.EndsInHeader j i)

include ends

theorem headerLen : σ.format.dataHeaderLen = 4 := by
  rw [ends.simple]
  rfl

theorem isRecord : i + 1 < σ.records.length :=
  (List.getElem?_eq_some_iff.mp ends.more.choose_spec.1).1

/-- The payload of the record goes on behind the file. -/
theorem end_lt : j * σ.dataSection + (σ.data j).length < σ.start (i + 2) := by
  obtain ⟨record, recordAt, some⟩ := ends.more
  have fits := Strand.fits_of_getElem? recordAt
  have payload := List.length_pos_of_ne_nil some
  rw [← ends.ends, σ.start_succ recordAt, fits.length_encode]
  omega

variable (full : σ.Full)

include full

/-- Another file of the session follows, and the file is filled. -/
theorem isFile_succ : j + 1 < σ.ids.length ∧ (σ.data j).length = σ.dataSection := by
  have past := ends.end_lt
  have within : σ.start (i + 2) ≤ σ.start σ.records.length := σ.start_mono (Nat.succ_le_of_lt ends.isRecord)
  rw [σ.start_length, ← full] at within
  have begins := σ.page_start_le ends.isFile
  have holds := σ.length_data j
  have filled : (σ.data j).length = σ.dataSection := by omega
  have fits := σ.storedFits
  change σ.stored ≤ σ.ids.length * σ.dataSection at fits
  refine ⟨?_, filled⟩
  by_contra isLast
  have le : σ.ids.length * σ.dataSection ≤ (j + 1) * σ.dataSection := Nat.mul_le_mul_right _ (by omega)
  rw [Nat.succ_mul] at le
  omega

/-- Some of the record before is left to the file. -/
theorem goesOn : j * σ.dataSection < σ.start (i + 1) := by
  have room : σ.format.dataHeaderLen < σ.dataSection := σ.roomy
  have := ends.ends
  rw [(ends.isFile_succ full).2] at this
  omega

end Strand.EndsInHeader

namespace Fragment

variable {fs : List Fragment} {e f g h : Fragment} {k i n q : Nat}

/-- The whole of a file. -/
def ofFile (k j : Nat) (σ : Strand) (isFile : j < σ.ids.length) : Fragment :=
  ⟨k, j, σ, (σ.data j).length, isFile, Nat.le_refl _⟩

/-- The files on either side of one that ends in the data header. -/
theorem restores_of_endsInHeader {σ : Strand} {j : Nat} (ends : σ.EndsInHeader (j + 1) i) (full : σ.Full)
    (isFile : j < σ.ids.length) (isNext : j + 2 < σ.ids.length) :
    (ofFile k j σ isFile).done = i ∧ (ofFile k j σ isFile).Restores (ofFile k (j + 2) σ isNext) := by
  have isRecord := ends.isRecord
  have filled := σ.length_data_of_lt (show j + 1 < σ.ids.length by omega)
  have limit : (ofFile k j σ isFile).limit = (j + 1) * σ.dataSection := limit_eq filled
  have isDone : (ofFile k j σ isFile).done = i := by
    refine done_eq (f := ofFile k j σ isFile) (by dsimp only [ofFile]; omega) ?_ (.inl ?_)
    · rw [limit]
      exact (Nat.le_add_right _ _).trans ends.begun
    · rw [limit]
      exact ends.goesOn full
  have base : (ofFile k (j + 2) σ isNext).base = σ.start (i + 1) + σ.format.dataHeaderLen := by
    rw [ends.ends, (ends.isFile_succ full).2, ← Nat.succ_mul]
    rfl
  refine ⟨isDone, ends.simple, rfl, rfl, filled, ?_, ?_, ?_⟩
  · rw [partway, limit, isDone]
    exact Nat.le_sub_of_add_le (Nat.add_comm _ _ ▸ ends.begun)
  · rw [isDone]
    exact base.symm
  · have past := ends.end_lt
    rw [← ends.ends] at past
    have inside := owed_of_inside σ.blocks (p := σ.start (i + 1) + σ.format.dataHeaderLen) (i := i + 1)
      (Nat.lt_add_of_pos_right (by rw [ends.headerLen]; decide)) past
    change owed σ.blocks (ofFile k (j + 2) σ isNext).base > 0
    rw [base, inside]
    exact Nat.sub_pos_of_lt past

/-- Where a record is restored, the file between the two ends in its data
header. -/
theorem Restores.endsInHeader (restores : f.Restores g) (same : g.strand = f.strand) :
    f.strand.EndsInHeader (f.j + 1) f.done := by
  have less := (restores.done_lt same).1
  obtain ⟨simple, _, isNext, filled, begun, place, owes⟩ := restores
  have isFile := g.isFile
  rw [same, isNext] at isFile
  have limit := limit_eq filled
  have along := f.start_done_add
  refine ⟨simple, by omega, by omega, ?_, _, List.getElem?_eq_getElem less, fun empty => ?_⟩
  · rw [place, f.strand.length_data_of_lt isFile, base, same, isNext, ← Nat.succ_mul]
  · -- the next file owes some of the payload
    have recordAt := List.getElem?_eq_getElem less
    have fits := Strand.fits_of_getElem? recordAt
    have next : f.strand.start (f.done + 2) = g.base := by
      rw [f.strand.start_succ recordAt, fits.length_encode, empty]
      exact place
    have none : g.owes = 0 := by
      rw [Fragment.owes, same, ← next]
      exact owed_offset Strand.blocks_nonempty _
    exact owes.ne' none

/-! ## Files that are whole -/

/-- In order, two files between which none is left follow each other. -/
theorem next_of_adjacent (sorted : fs.Pairwise Before) (first : f ∈ fs) (second : g ∈ fs) (before : f.Before g)
    (none : ∀ e ∈ fs, f.Before e → ¬ e.Before g) : [f, g] <:+: fs := by
  have apart {e : Fragment} : ¬ e.Before e := fun before => by
    rw [Before] at before
    omega
  obtain ⟨front, rest, rfl⟩ := List.append_of_mem first
  obtain ⟨_, behind, across⟩ := List.pairwise_append.mp sorted
  obtain ⟨later, sortedRest⟩ := List.pairwise_cons.mp behind
  have inRest : g ∈ rest := by
    rcases List.mem_append.mp second with inFront | here
    · have earlier := across g inFront f List.mem_cons_self
      rw [Before] at before earlier
      omega
    · exact (List.mem_cons.mp here).resolve_left fun same => apart (same ▸ before)
  cases rest with
  | nil => contradiction
  | cons e rest =>
      rcases List.mem_cons.mp inRest with rfl | further
      · exact ⟨front, rest, by simp⟩
      · exact absurd ((List.pairwise_cons.mp sortedRest).1 g further)
          (none e (by simp) (later e List.mem_cons_self))

section Whole

variable {σ : Strand} {j m : Nat} {isFile : j < σ.ids.length}

theorem ofFile_precedes (isNext : j + 1 < σ.ids.length) :
    (ofFile k j σ isFile).Precedes (ofFile k (j + 1) σ isNext) :=
  ⟨rfl, rfl, σ.length_data_of_lt isNext⟩

/-- Where no more of a session than its first file is met, its first record is
next. -/
theorem reaches_first {isFirst : 0 < σ.ids.length} (mem : ofFile k 0 σ isFirst ∈ fs) (full : σ.Full)
    (some : σ.records ≠ []) : Reaches fs (ofFile k 0 σ isFirst) 0 := by
  have opens : (ofFile k 0 σ isFirst).Opens := by
    refine ⟨rfl, ?_⟩
    have begins := σ.start_lt (List.length_pos_of_ne_nil some) (Nat.le_refl _)
    rw [σ.start_zero, σ.start_length, ← full] at begins
    have room := σ.dataSection_pos
    change 0 < (σ.data 0).length
    rw [σ.length_data]
    omega
  obtain ⟨offers, noneBefore⟩ := offers_and_first_iff.mpr opens
  have reaches := Reaches.offers mem offers
  rwa [noneBefore] at reaches

/-- Files of a session that are whole follow one another. -/
theorem runs_onward (sorted : fs.Pairwise Before) (le : j ≤ m) (within : m < σ.ids.length)
    (whole : ∀ j' (isFile' : j' < σ.ids.length), j ≤ j' → j' ≤ m → ofFile k j' σ isFile' ∈ fs) :
    Runs fs (ofFile k j σ isFile) (ofFile k m σ within) := by
  induction m, le using Nat.le_induction with
  | base => exact .refl
  | succ m le ih =>
      have isNext : m < σ.ids.length := Nat.lt_of_succ_lt within
      refine .tail (ih isNext fun j' isFile' ge le => whole j' isFile' ge (Nat.le_succ_of_le le)) ⟨?_,
        ofFile_precedes within⟩
      refine next_of_adjacent sorted (whole m isNext le (Nat.le_succ m))
        (whole (m + 1) within (Nat.le_succ_of_le le) (Nat.le_refl _)) (.inr ⟨rfl, Nat.lt_succ_self m⟩) ?_
      intro e _ after before
      simp only [Before, ofFile] at after before
      omega

/-- The last file of a session that was stored to the end ends every record. -/
theorem done_last (full : σ.Full) (isLast : j + 1 = σ.ids.length) :
    (ofFile k j σ isFile).done = σ.records.length :=
  Closes.done_eq (f := ofFile k j σ isFile) ⟨isLast, rfl⟩ full

end Whole

/-! ## Records of which some bytes are gone -/

/-- Files that follow one another leave nothing between them out. -/
theorem Runs.covers (same : ∀ f ∈ fs, ∀ g ∈ fs, f.k = g.k → f.strand = g.strand) (runs : Runs fs g h)
    (here : g ∈ fs) (behind : g.base ≤ q) (before : q < h.limit) :
    ∃ e ∈ fs, e.k = g.k ∧ e.base ≤ q ∧ q < e.limit := by
  induction runs using Relation.ReflTransGen.head_induction_on with
  | refl => exact ⟨h, here, rfl, behind, before⟩
  | @head g g' next runs ih =>
      have isNext : g' ∈ fs := next.1.subset (by simp)
      have sameStrand := same g' isNext g here next.2.1
      rcases Nat.lt_or_ge q g.limit with inside | past
      · exact ⟨g, here, rfl, behind, inside⟩
      · obtain ⟨e, mem, sameK, inside⟩ := ih isNext (next.2.base_eq sameStrand ▸ past)
        exact ⟨e, mem, sameK.trans next.2.1, inside⟩

/-- No file that is left lies between two that follow each other. -/
theorem not_between (sorted : fs.Pairwise Before) (next : [f, g] <:+: fs) (mem : e ∈ fs) (before : f.Before e) :
    ¬ e.Before g := by
  obtain ⟨front, rest, split⟩ := next
  have split : fs = front ++ f :: g :: rest := by rw [← split]; simp
  rw [split] at sorted mem
  obtain ⟨_, behind, across⟩ := List.pairwise_append.mp sorted
  intro after
  rcases List.mem_append.mp mem with inFront | inRest
  · have earlier := across e inFront f List.mem_cons_self
    rw [Before] at before earlier
    omega
  rcases List.mem_cons.mp inRest with rfl | inRest
  · rw [Before] at before
    omega
  rcases List.mem_cons.mp inRest with rfl | inRest
  · rw [Before] at after
    omega
  · have later := (List.pairwise_cons.mp (List.pairwise_cons.mp behind).2).1 e inRest
    rw [Before] at after later
    omega

variable {L : Log} {files : SegId → Option Bytes} {ids : List SegId}

/-- What is left of a file shows its bytes. -/
theorem shows_of_displays {id : SegId} (displays : L.Displays files id e) (behind : e.base ≤ q)
    (before : q < e.limit) :
    ∃ id content, e.strand.ids[q / e.strand.dataSection]? = some id ∧ files id = some content ∧
      (validate id content).isSome ∧ segmentFileHeaderLen + q % e.strand.dataSection < content.length := by
  have shown := e.shown_le
  rw [limit] at before
  obtain ⟨r, rfl⟩ := Nat.exists_eq_add_of_le behind
  have inside : r < e.strand.dataSection := by omega
  have isPage : (e.base + r) / e.strand.dataSection = e.j ∧ (e.base + r) % e.strand.dataSection = r := by
    rw [base, Nat.mul_comm, Nat.mul_add_div e.strand.dataSection_pos, Nat.div_eq_of_lt inside,
      Nat.mul_add_mod, Nat.mod_eq_of_lt inside]
    exact ⟨rfl, rfl⟩
  refine ⟨id, _, isPage.1 ▸ displays.fileAt.idAt, displays.content, ?_, ?_⟩
  · rw [validate_file id e.within]
    rfl
  · rw [isPage.2, Strand.length_take_file id e.within]
    omega

/-- A record that is returned is left whole, or it is restored. -/
theorem survives_or_restored (sorted : fs.Pairwise Before)
    (named : ∀ f ∈ fs, ∃ id ∈ ids, L.Displays files id f) (returned : place k i ∈ Stage.start.places fs)
    {σ : Strand} (strandAt : L.strands[k]? = some σ) : Survives files σ i ∨ Restored fs k i := by
  obtain ⟨strandOf, same⟩ := Log.strandAt_of_displays named
  obtain ⟨h, mem, rfl, past, n, le, reaches⟩ := (Stage.mem_places_iff sorted same).mp returned
  obtain rfl : h.strand = σ := Option.some.inj ((strandOf h mem).symm.trans strandAt)
  have within := past.trans_le h.done_le
  have ends := (le_done_iff (Nat.succ_le_of_lt within)).mp (Nat.succ_le_of_lt past)
  have before := (Strand.start_lt (Nat.lt_succ_self i) within).trans_le ends
  rcases reaches.begins_or_bridged same le before with
    ⟨g, here, sameK, begins, runs⟩ | ⟨f, g, bridges, runs, known⟩
  · left
    intro q after inside
    have sameStrand := same g here h mem sameK
    rw [Begins, sameStrand] at begins
    obtain ⟨e, mem', sameK', behind, shown⟩ :=
      runs.covers same here (begins.1.trans after) (inside.trans_le ends)
    obtain ⟨id, _, displays⟩ := named e mem'
    rw [← same e mem' h mem (sameK'.trans sameK)]
    exact shows_of_displays displays behind shown
  · exact .inr ⟨f, g, h, bridges, runs, known.1, known.2, past⟩

/-! ## One file gone -/

/-- Of all files of the log one is gone, which ends in the data header of record
`i + 1` of its session. -/
structure LacksHeader (L : Log) (fs : List Fragment) (k j i : Nat) (σ : Strand) : Prop where
  sorted : fs.Pairwise Before
  same : ∀ f ∈ fs, ∀ g ∈ fs, f.k = g.k → f.strand = g.strand
  full : ∀ σ ∈ L.strands, σ.Full
  strandAt : L.strands[k]? = some σ
  ends : σ.EndsInHeader (j + 1) i
  gone : ∀ f ∈ fs, f.k = k → f.j ≠ j + 1
  whole : ∀ {k' j' : Nat} {τ : Strand} (isFile : j' < τ.ids.length), L.strands[k']? = some τ →
    k' ≠ k ∨ j' ≠ j + 1 → ofFile k' j' τ isFile ∈ fs

namespace LacksHeader

variable {σ τ : Strand} {j k' i' : Nat} (lacks : LacksHeader L fs k j i σ)

include lacks

theorem fullAt (strandAt : L.strands[k']? = some τ) : τ.Full :=
  lacks.full τ (List.mem_of_getElem? strandAt)

/-- The files of a session are read from the first on, those behind the one that is
gone left out. -/
theorem reaches {m : Nat} (strandAt : L.strands[k']? = some τ) (isFile : m < τ.ids.length)
    (before : k' ≠ k ∨ m ≤ j) (some : τ.records ≠ []) :
    ofFile k' m τ isFile ∈ fs ∧ Reaches fs (ofFile k' m τ isFile) 0 := by
  have whole (j' : Nat) (isFile' : j' < τ.ids.length) (le : j' ≤ m) : ofFile k' j' τ isFile' ∈ fs :=
    lacks.whole isFile' strandAt (before.imp_right fun _ => by omega)
  have isFirst : 0 < τ.ids.length := Nat.zero_lt_of_lt isFile
  have runs : Runs fs (ofFile k' 0 τ isFirst) (ofFile k' m τ isFile) :=
    runs_onward lacks.sorted (Nat.zero_le m) isFile fun j' isFile' _ le => whole j' isFile' le
  exact ⟨whole m isFile (Nat.le_refl m),
    runs.reaches (reaches_first (whole 0 isFirst (Nat.zero_le m)) (lacks.fullAt strandAt) some)⟩

theorem isNext : j + 2 < σ.ids.length :=
  (lacks.ends.isFile_succ (lacks.fullAt lacks.strandAt)).1

theorem records_ne_nil : σ.records ≠ [] :=
  List.ne_nil_of_length_pos (Nat.zero_lt_of_lt lacks.ends.isRecord)

/-- The files on either side of the one that is gone bridge it. -/
theorem bridges (isFile : j < σ.ids.length) :
    Bridges fs (ofFile k j σ isFile) (ofFile k (j + 2) σ lacks.isNext) := by
  obtain ⟨mem, reaches⟩ := lacks.reaches lacks.strandAt isFile (.inr (Nat.le_refl j)) lacks.records_ne_nil
  refine ⟨reaches.reads, ?_,
    (restores_of_endsInHeader lacks.ends (lacks.fullAt lacks.strandAt) isFile lacks.isNext).2⟩
  refine next_of_adjacent lacks.sorted mem (lacks.whole lacks.isNext lacks.strandAt (.inr (by omega)))
    (.inr ⟨rfl, by dsimp only [ofFile]; omega⟩) fun e here after before => ?_
  simp only [Before, ofFile] at after before
  exact lacks.gone e here (by omega) (by omega)

/-- Behind the file that is gone the session is read on to its end. -/
theorem runs {m : Nat} (le : j + 2 ≤ m) (isFile : m < σ.ids.length) :
    Runs fs (ofFile k (j + 2) σ lacks.isNext) (ofFile k m σ isFile) :=
  runs_onward lacks.sorted le isFile fun _ isFile' ge _ => lacks.whole isFile' lacks.strandAt (.inr (by omega))

/-- Every record but the one that is cut short comes back. -/
theorem returned (strandAt : L.strands[k']? = some τ) (index : i' < τ.records.length)
    (other : k' ≠ k ∨ i' ≠ i) : place k' i' ∈ Stage.start.places fs := by
  have records : τ.records ≠ [] := List.ne_nil_of_length_pos (Nat.zero_lt_of_lt index)
  have isLast : τ.ids.length - 1 < τ.ids.length := Nat.sub_lt (List.length_pos_of_ne_nil τ.nonempty) Nat.one_pos
  have ends : i' < (ofFile k' (τ.ids.length - 1) τ isLast).done := by
    rwa [done_last (lacks.fullAt strandAt) (by omega)]
  rw [Stage.mem_places_iff lacks.sorted lacks.same]
  by_cases elsewhere : k' = k
  · subst elsewhere
    obtain rfl : τ = σ := Option.some.inj (strandAt.symm.trans lacks.strandAt)
    have isFile : j < τ.ids.length := by have := lacks.isNext; omega
    rcases Nat.lt_or_ge i' i with earlier | later
    · -- it ends before the file that is gone
      obtain ⟨mem, reaches⟩ := lacks.reaches strandAt isFile (.inr (Nat.le_refl j)) records
      have isDone := (restores_of_endsInHeader (k := k') lacks.ends (lacks.fullAt strandAt) isFile lacks.isNext).1
      exact ⟨_, mem, rfl, isDone ▸ earlier, 0, Nat.zero_le _, reaches⟩
    · -- it is restored, or comes behind the record that is
      have isDone := (restores_of_endsInHeader (k := k') lacks.ends (lacks.fullAt strandAt) isFile lacks.isNext).1
      have bridges := lacks.bridges isFile
      have le : j + 2 ≤ τ.ids.length - 1 := by have := lacks.isNext; omega
      have reaches := (lacks.runs le isLast).reaches (.restores bridges.reads bridges.next bridges.restores)
      rw [isDone] at reaches
      exact ⟨_, reaches.reads.mem, rfl, ends, i + 1, by omega, reaches⟩
  · obtain ⟨mem, reaches⟩ := lacks.reaches strandAt isLast (.inl elsewhere) records
    exact ⟨_, mem, rfl, ends, 0, Nat.zero_le _, reaches⟩

/-- The record before is reported cut short, and the one that lost its data header
is told next. -/
theorem told (refused : Bool) : ∃ record next, σ.records[i]? = some record ∧ σ.records[i + 1]? = some next ∧
    let placed := (j + 1) * σ.dataSection - (σ.start i + σ.format.dataHeaderLen)
    [.failed (.readTruncated 1 placed) (record.payload.take placed), .record next.payload .variableSimple] <:+:
      Stage.start.retell refused fs := by
  have full := lacks.fullAt lacks.strandAt
  have isFile : j < σ.ids.length := by have := lacks.isNext; omega
  have isLast : σ.ids.length - 1 < σ.ids.length := by omega
  have le : j + 2 ≤ σ.ids.length - 1 := by have := lacks.isNext; omega
  obtain ⟨isDone, restores⟩ := restores_of_endsInHeader (k := k) lacks.ends full isFile lacks.isNext
  have past : (ofFile k j σ isFile).done + 1 < (ofFile k (σ.ids.length - 1) σ isLast).done := by
    rw [isDone, done_last full (by omega)]
    exact lacks.ends.isRecord
  obtain ⟨next, nextAt, told⟩ :=
    Stage.bridges_told lacks.sorted lacks.same refused (lacks.bridges isFile) (lacks.runs le isLast) past
  have index : i < σ.records.length := Nat.lt_of_succ_lt lacks.ends.isRecord
  have limit : (ofFile k j σ isFile).limit = (j + 1) * σ.dataSection := limit_eq restores.2.2.2.1
  have placed : (ofFile k j σ isFile).placed =
      (j + 1) * σ.dataSection - (σ.start i + σ.format.dataHeaderLen) := by
    rw [Fragment.placed, partway, limit, isDone, Nat.sub_sub]
    rfl
  rw [isDone] at nextAt
  refine ⟨σ.records[i], next, List.getElem?_eq_getElem index, nextAt, ?_⟩
  have isSimple : next.metadata = .variableSimple := by
    have fits := Strand.fits_of_getElem? nextAt
    rw [show (ofFile k j σ isFile).strand.format = .variableSimple from lacks.ends.simple] at fits
    exact (Record.fits_variableSimple.mp fits).1
  have recordAt : (ofFile k j σ isFile).strand.records[i]? = some σ.records[i] := List.getElem?_eq_getElem index
  rw [cutShort, placed, isDone, recordAt, Record.outcome, isSimple] at told
  exact told

end LacksHeader

end Fragment

/-! ## Reading a log of which files are gone -/

section Reading

variable {env : WriteEnv} {dir dir' : Dir} {lives : List Life} {namePrefix nameSuffix : Bytes}

/-- A file of the log that is there shows all of it. -/
theorem Log.displays_ofFile {L : Log} {files files' : SegId → Option Bytes} {k j : Nat} {σ : Strand} {id : SegId}
    (disk : OnDisk files L) (fileAt : L.FileAt k j σ id) (kept : files' id = files id) :
    L.Displays files' id (Fragment.ofFile k j σ fileAt.lt) := by
  refine ⟨fileAt, ?_⟩
  rw [kept, disk.shown fileAt]
  change _ = some ((σ.file j id).take (segmentFileHeaderLen + (σ.data j).length))
  rw [← σ.length_file j id, List.take_length]

/-- A file that shows something is among those that are left. -/
theorem Log.Displayed.mem {L : Log} {files : SegId → Option Bytes} {ids : List SegId} {fs : List Fragment}
    {id : SegId} {f : Fragment} (displayed : L.Displayed files ids fs) (listed : id ∈ ids)
    (displays : L.Displays files id f) : f ∈ fs := by
  induction displayed with
  | nil => contradiction
  | unusable refused more ih =>
      rcases List.mem_cons.mp listed with rfl | later
      · exact absurd refused displays.ofFile
      · exact ih later
  | usable here more ih =>
      rcases List.mem_cons.mp listed with rfl | later
      · exact displays.unique here ▸ List.mem_cons_self
      · exact List.mem_cons_of_mem _ (ih later)

/-- Where the file that is gone ends in a data header, what is left lacks just that file. -/
theorem Fragment.lacksHeader_of_gone {L : Log} {files files' : SegId → Option Bytes} {ids : List SegId}
    {fs : List Fragment} {k j i : Nat} {σ : Strand} {gone : SegId} (disk : OnDisk files L)
    (sorted : fs.Pairwise Before) (named : ∀ f ∈ fs, ∃ id ∈ ids, L.Displays files' id f)
    (full : ∀ τ ∈ L.strands, τ.Full)
    (kept : ∀ {k j : Nat} {τ : Strand} {id : SegId} (fileAt : L.FileAt k j τ id),
      (files' id).isSome → ofFile k j τ fileAt.lt ∈ fs)
    (fileAt : L.FileAt k (j + 1) σ gone) (ends : σ.EndsInHeader (j + 1) i) (isGone : files' gone = none)
    (others : ∀ id, id ≠ gone → files' id = files id) : LacksHeader L fs k j i σ := by
  refine ⟨sorted, (Log.strandAt_of_displays named).2, full, fileAt.strandAt, ends, ?_, ?_⟩
  · intro f mem sameK sameJ
    obtain ⟨id, _, displays⟩ := named f mem
    obtain rfl : f.strand = σ :=
      Option.some.inj (displays.fileAt.strandAt.symm.trans (sameK ▸ fileAt.strandAt))
    have isId := displays.fileAt.idAt
    rw [sameJ, fileAt.idAt] at isId
    obtain rfl := Option.some.inj isId
    rw [displays.content] at isGone
    contradiction
  · intro k' j' τ isFile strandAt other
    have fileAt' : L.FileAt k' j' τ τ.ids[j'] := ⟨strandAt, List.getElem?_eq_getElem isFile⟩
    have apart : τ.ids[j'] ≠ gone := fun sameId => by
      obtain ⟨sameK, sameJ, _⟩ := fileAt'.unique (sameId ▸ fileAt)
      omega
    refine kept fileAt' ?_
    rw [others _ apart]
    exact Option.isSome_of_eq_some (disk.shown fileAt')

/-- Where a record is restored the file between the two is gone, and they are not. -/
theorem Fragment.Bridges.gone {L : Log} {files' : SegId → Option Bytes} {ids : List SegId}
    {fs : List Fragment} {f g : Fragment} (bridges : Bridges fs f g) (sorted : fs.Pairwise Before)
    (named : ∀ f ∈ fs, ∃ id ∈ ids, L.Displays files' id f)
    (kept : ∀ {k j : Nat} {τ : Strand} {id : SegId} (fileAt : L.FileAt k j τ id),
      (files' id).isSome → ofFile k j τ fileAt.lt ∈ fs) :
    f.strand.EndsInHeader (f.j + 1) f.done ∧ ∃ gone, f.strand.ids[f.j + 1]? = some gone ∧
      files' gone = none ∧ ∀ id, f.strand.ids[f.j]? = some id ∨ f.strand.ids[f.j + 2]? = some id →
        (files' id).isSome := by
  obtain ⟨strandAt, same⟩ := Log.strandAt_of_displays named
  have isFirst : f ∈ fs := bridges.next.subset (by simp)
  have isSecond : g ∈ fs := bridges.next.subset (by simp)
  have sameStrand := same g isSecond f isFirst bridges.restores.2.1
  have isNext := bridges.restores.2.2.1
  have ends := bridges.restores.endsInHeader sameStrand
  have fileAt : L.FileAt f.k (f.j + 1) f.strand (f.strand.ids.get ⟨f.j + 1, ends.isFile⟩) :=
    ⟨strandAt f isFirst, List.getElem?_eq_getElem ends.isFile⟩
  refine ⟨ends, _, fileAt.idAt, ?_, ?_⟩
  · by_contra present
    have mem := kept fileAt (Option.isSome_iff_ne_none.mpr present)
    refine Fragment.not_between sorted bridges.next mem (.inr ⟨rfl, Nat.lt_succ_self _⟩) (.inr ⟨?_, ?_⟩)
    · exact bridges.restores.2.1.symm
    · rw [isNext]
      exact Nat.lt_succ_self _
  · rintro id (isId | isId)
    · obtain ⟨id', _, displays⟩ := named f isFirst
      obtain rfl := Option.some.inj (displays.fileAt.idAt.symm.trans isId)
      rw [displays.content]
      rfl
    · obtain ⟨id', _, displays⟩ := named g isSecond
      have isId' := displays.fileAt.idAt
      rw [sameStrand, isNext] at isId'
      obtain rfl := Option.some.inj (isId'.symm.trans isId)
      rw [displays.content]
      rfl

/-- Of a log of which files are gone, a record some bytes of which are gone comes
back only if one file is gone right before the rest of it, and that file held the
rest of the record before and the data header, and nothing else.  Where one file is
gone and held that, the record before is reported with one file lost and the payload
up to there, the record is told next, and every other record of the log comes back. -/
theorem lost_header_recovered (wrote : Wrote env dir lives namePrefix nameSuffix)
    (deleted : Deleted ((Trail.run env dir lives).files namePrefix nameSuffix)
      (dir'.files namePrefix nameSuffix))
    {isDir : Bool} (overflowChecks : Bool) {log : LogRead}
    (isNew : LogRead.new isDir (some dir') namePrefix nameSuffix = .ok log) :
    ∃ L, OnDisk ((Trail.run env dir lives).files namePrefix nameSuffix) L ∧
      Faithful L (Trail.run env dir lives).journal ∧
      ∃ (whole : List (ℕ ×ₗ ℕ)) (outcomes : List Outcome), whole.Pairwise (· < ·) ∧
        List.Forall₂ (Whole L) whole (outcomes.filter Outcome.isRecord) ∧
        (∀ k j i σ gone, L.FileAt k j σ gone → σ.EndsInHeader j i →
          dir'.files namePrefix nameSuffix gone = none →
          (∀ id, id ≠ gone → dir'.files namePrefix nameSuffix id =
            (Trail.run env dir lives).files namePrefix nameSuffix id) →
          (∃ record next, σ.records[i]? = some record ∧ σ.records[i + 1]? = some next ∧
            let placed := j * σ.dataSection - (σ.start i + σ.format.dataHeaderLen)
            [.failed (.readTruncated 1 placed) (record.payload.take placed),
              .record next.payload .variableSimple] <:+: outcomes) ∧
          ∀ k' i' τ, L.strands[k']? = some τ → i' < τ.records.length → k' ≠ k ∨ i' ≠ i →
            place k' i' ∈ whole) ∧
        (∀ k i σ, L.strands[k]? = some σ → place k i ∈ whole →
          ¬ Survives (dir'.files namePrefix nameSuffix) σ i → ∃ j i' gone, i = i' + 1 ∧
            σ.EndsInHeader (j + 1) i' ∧ σ.ids[j + 1]? = some gone ∧
            dir'.files namePrefix nameSuffix gone = none ∧
            ∀ id, σ.ids[j]? = some id ∨ σ.ids[j + 2]? = some id →
              (dir'.files namePrefix nameSuffix id).isSome) ∧
        ∀ caps : Nat → Nat, Ample caps (Trail.run env dir lives).journal.records → ∃ last,
          ReadsToEof (.still dir' noFault overflowChecks) caps log.begin outcomes last := by
  obtain ⟨L, left⟩ := Trail.run_left wrote.leaves wrote.empty wrote.names wrote.clean
  obtain ⟨fragments, displayed, ⟨sorted, named⟩, _, reads⟩ :=
    left.faithful.reads left.disk deleted.damaged overflowChecks isNew
  rw [left.faithful.records] at reads
  obtain ⟨_, isListed, begins⟩ := LogRead.new_spec isNew
  obtain rfl := Option.some.inj isListed
  obtain ⟨strandAt, same⟩ := Log.strandAt_of_displays named
  have increasing : (Stage.start.places fragments).Pairwise (· < ·) := (Stage.places_sorted .start sorted same).1
  have listed {id : SegId} (present : (dir'.files namePrefix nameSuffix id).isSome) : id ∈ log.pending := by
    rw [begins.pending]
    exact mem_scanSegmentIds.mpr (AList.lookup_isSome.mp present)
  have kept {k j : Nat} {σ : Strand} {id : SegId} (fileAt : L.FileAt k j σ id)
      (present : (dir'.files namePrefix nameSuffix id).isSome) :
      Fragment.ofFile k j σ fileAt.lt ∈ fragments := by
    exact displayed.mem (listed present) (Log.displays_ofFile left.disk fileAt
      ((deleted id).resolve_right (Option.isSome_iff_ne_none.mp present)))
  refine ⟨L, left.disk, left.faithful, Stage.start.places fragments, _, increasing,
    Stage.whole_places strandAt .start _, ?_, ?_, reads⟩
  · intro k j i σ gone fileAt ends isGone others
    obtain ⟨j, rfl⟩ : ∃ j', j = j' + 1 := by
      refine ⟨j - 1, (Nat.succ_pred_eq_of_pos (Nat.pos_of_ne_zero fun isFirst => ?_)).symm⟩
      have := ends.begun
      rw [isFirst, ends.headerLen, Nat.zero_mul] at this
      omega
    have full : ∀ τ ∈ L.strands, τ.Full := by
      intro τ mem
      obtain ⟨k', inside, rfl⟩ := List.getElem_of_mem mem
      obtain ⟨session, _, keeps⟩ := left.faithful.exists_keeps (List.getElem?_eq_getElem inside)
      exact keeps.full
    have lacks := Fragment.lacksHeader_of_gone left.disk sorted named full kept fileAt ends isGone others
    exact ⟨lacks.told _, fun k' i' τ strandAt' index other => lacks.returned strandAt' index other⟩
  · intro k i σ strandAt' returned notLeft
    obtain ⟨f, g, h, bridges, _, rfl, rfl, _⟩ :=
      (Fragment.survives_or_restored sorted named returned strandAt').resolve_left notLeft
    have isFirst : f ∈ fragments := bridges.next.subset (by simp)
    obtain rfl : f.strand = σ := Option.some.inj ((strandAt f isFirst).symm.trans strandAt')
    obtain ⟨ends, gone, isId, isGone, present⟩ := bridges.gone sorted named kept
    exact ⟨f.j, f.done, gone, rfl, ends, isId, isGone, present⟩

end Reading

theorem lost_header_recovered_sample :
    ∃ L, OnDisk ((Trail.run Sample.env ∅ Sample.bridgingRecords).files [] []) L ∧
      Faithful L (Trail.run Sample.env ∅ Sample.bridgingRecords).journal ∧
      ∃ (whole : List (ℕ ×ₗ ℕ)) (outcomes : List Outcome), whole.Pairwise (· < ·) ∧
        List.Forall₂ (Whole L) whole (outcomes.filter Outcome.isRecord) ∧
        (∀ k j i σ gone, L.FileAt k j σ gone → σ.EndsInHeader j i → Sample.bridging.files [] [] gone = none →
          (∀ id, id ≠ gone → Sample.bridging.files [] [] id =
            (Trail.run Sample.env ∅ Sample.bridgingRecords).files [] [] id) →
          (∃ record next, σ.records[i]? = some record ∧ σ.records[i + 1]? = some next ∧
            let placed := j * σ.dataSection - (σ.start i + σ.format.dataHeaderLen)
            [.failed (.readTruncated 1 placed) (record.payload.take placed),
              .record next.payload .variableSimple] <:+: outcomes) ∧
          ∀ k' i' τ, L.strands[k']? = some τ → i' < τ.records.length → k' ≠ k ∨ i' ≠ i →
            place k' i' ∈ whole) ∧
        (∀ k i σ, L.strands[k]? = some σ → place k i ∈ whole → ¬ Survives (Sample.bridging.files [] []) σ i →
          ∃ j i' gone, i = i' + 1 ∧ σ.EndsInHeader (j + 1) i' ∧ σ.ids[j + 1]? = some gone ∧
            Sample.bridging.files [] [] gone = none ∧
            ∀ id, σ.ids[j]? = some id ∨ σ.ids[j + 2]? = some id → (Sample.bridging.files [] [] id).isSome) ∧
        ∀ caps : Nat → Nat, Ample caps (Trail.run Sample.env ∅ Sample.bridgingRecords).journal.records → ∃ last,
          ReadsToEof (.still Sample.bridging noFault true) caps (Sample.reader [1002, 1017, 1023]).begin
            outcomes last :=
  lost_header_recovered Sample.wroteBridging (Deleted.erase _ _ _ _) true
    (show LogRead.new true (some Sample.bridging) [] [] = .ok (Sample.reader [1002, 1017, 1023])
      by decide +kernel)

end Tcslog
