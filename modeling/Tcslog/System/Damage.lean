import Tcslog.Read.Still
import Tcslog.System.Meeting
import Tcslog.Write.Faithful

/-!
# Reading a damaged log

Damage takes away: files vanish, become unusable, or are cut to a shorter
length.  What is read of a log so damaged was written, in the order it was
written, and every record whose bytes survive is read.
-/

namespace Tcslog

open Lib.Program Lib.Spanned

/-! ## Damage -/

/-- Files were at most deleted, made unusable or cut short. -/
def Damaged (files files' : SegId → Option Bytes) : Prop :=
  ∀ {id content'}, files' id = some content' →
    validate id content' = none ∨ ∃ content n, files id = some content ∧ content' = content.take n

theorem Damaged.refl (files : SegId → Option Bytes) : Damaged files files :=
  fun {_ content} present => .inr ⟨content, content.length, present, (List.take_length).symm⟩

theorem Damaged.erase (dir : Dir) (name namePrefix nameSuffix : Bytes) :
    Damaged (dir.files namePrefix nameSuffix) (Dir.files (dir.erase name) namePrefix nameSuffix) := by
  intro id content present
  refine .inr ⟨content, content.length, ?_, List.take_length.symm⟩
  by_cases same : buildName namePrefix id nameSuffix = name
  · rw [Dir.files, same, AList.lookup_erase] at present
    contradiction
  · rwa [Dir.files, AList.lookup_erase_ne same] at present

/-- A file that never got a whole header is not usable. -/
theorem validate_of_short {id : SegId} {content : Bytes}
    (short : content.length < segmentFileHeaderLen) : validate id content = none :=
  if_pos short

/-- The front of a log's file shows what the log holds, or is not usable. -/
theorem shows_take {L : Log} {k j : Nat} {σ : Strand} {id : SegId} (fileAt : L.FileAt k j σ id)
    (n : Nat) : validate id ((σ.file j id).take n) = none ∨ L.Shows id ((σ.file j id).take n) := by
  rcases Nat.lt_or_ge n segmentFileHeaderLen with short | long
  · exact .inl (validate_of_short (by simp; omega))
  · refine .inr ⟨k, j, σ, min (n - segmentFileHeaderLen) (σ.data j).length, fileAt,
      Nat.min_le_right _ _, ?_⟩
    rw [List.take_eq_take_iff, σ.length_file]
    omega

theorem OnDisk.presents {files files' : SegId → Option Bytes} {L : Log} (disk : OnDisk files L)
    (damaged : Damaged files files') : Presents files' L := by
  intro id content' present
  rcases damaged present with refused | ⟨content, n, before, rfl⟩
  · exact .inl refused
  · rcases disk.others before with ⟨k, j, σ, fileAt⟩ | short
    · obtain rfl := Option.some.inj ((disk.shown fileAt).symm.trans before)
      exact shows_take fileAt n
    · refine .inl (validate_of_short ?_)
      rw [List.length_take]
      omega

/-- An intact log is usable, every byte of it. -/
theorem OnDisk.shows_byte {files : SegId → Option Bytes} {L : Log} (disk : OnDisk files L) {k q : Nat}
    {σ : Strand} {id : SegId} (strandAt : L.strands[k]? = some σ) (stored : q < σ.stored)
    (idAt : σ.ids[q / σ.dataSection]? = some id) :
    ∃ content, files id = some content ∧ (validate id content).isSome ∧
      segmentFileHeaderLen + q % σ.dataSection < content.length := by
  have fileAt : L.FileAt k (q / σ.dataSection) σ id := ⟨strandAt, idAt⟩
  refine ⟨_, disk.shown fileAt, ?_, ?_⟩
  · have whole := validate_file id (Nat.le_refl (σ.data (q / σ.dataSection)).length)
    rw [List.take_of_length_le (by simp)] at whole
    rw [whole]
    rfl
  · have split := Nat.div_add_mod q σ.dataSection
    have less := Nat.mod_lt q σ.dataSection_pos
    rw [Nat.mul_comm] at split
    rw [σ.length_file, σ.length_data]
    omega

/-- All bytes of record `i` of a strand stand in files that are usable. -/
def Survives (files : SegId → Option Bytes) (σ : Strand) (i : Nat) : Prop :=
  ∀ q, σ.start i ≤ q → q < σ.start (i + 1) → ∃ id content,
    σ.ids[q / σ.dataSection]? = some id ∧ files id = some content ∧
      (validate id content).isSome ∧ segmentFileHeaderLen + q % σ.dataSection < content.length

namespace Scene

variable {S : Scene}

/-- A byte is not hidden if every request about its file finds it. -/
theorem not_hidden {ops : List ReadOp} {k q : Nat} {σ : Strand} {id : SegId}
    (idAt : σ.ids[q / σ.dataSection]? = some id) (listed : id ∈ S.listing)
    (found : ∀ t op, ops[t]? = some op → op.id = id → S.env.fault t = false ∧ ∃ content,
      (S.env.dir t).lookup (S.name id) = some content ∧ (validate id content).isSome ∧
        segmentFileHeaderLen + q % σ.dataSection < content.length) :
    ¬ S.Hidden ops k σ q := by
  intro hidden
  rcases hidden id idAt with absent | ⟨t, op, opAt, about, why⟩ | ⟨c, le, t, op, opAt, about, sight⟩
  · exact absent listed
  · obtain ⟨noFault, content, present, usable, _⟩ := found t op opAt about
    rcases why with fault | unseen
    · rw [noFault] at fault
      contradiction
    · obtain ⟨header, accepted⟩ := Option.isSome_iff_exists.mp usable
      obtain ⟨k', j, τ, c, sight, _⟩ := sight_of_validate listed present accepted
      exact unseen k' j τ c sight
  · obtain ⟨_, content, present, _, long⟩ := found t op opAt about
    obtain rfl := Option.some.inj (sight.content.symm.trans present)
    rw [Strand.length_take_file _ sight.within] at long
    omega

end Scene

/-- Records whose bytes survive are not denied a reader that meets no fault. -/
theorem Survives.not_lost {dir : Dir} {L : Log} {namePrefix nameSuffix : Bytes} {overflowChecks : Bool}
    {presents : ∀ t, Presents (((ReadEnv.still dir noFault overflowChecks).dir t).files namePrefix
      nameSuffix) L} {ops : List ReadOp} {k i : Nat} {σ : Strand}
    (survives : Survives (dir.files namePrefix nameSuffix) σ i) :
    ¬ (sceneOf L (.still dir noFault overflowChecks) dir namePrefix nameSuffix presents).Lost
      ops k σ i := by
  rintro ⟨q, after, before, hidden⟩
  obtain ⟨id, content, idAt, present, usable, long⟩ := survives q after before
  refine Scene.not_hidden idAt ?_ ?_ hidden
  · exact mem_scanSegmentIds.mpr (AList.lookup_isSome.mp (Option.isSome_of_eq_some present))
  · exact fun t op _ _ => ⟨rfl, content, present, usable, long⟩

/-! ## What writers left -/

/-- Writers of one log followed one another in a directory that had no file of
the log, files handed over stayed in place, and every call succeeded. -/
structure Wrote (env : WriteEnv) (dir : Dir) (lives : List Life) (namePrefix nameSuffix : Bytes) :
    Prop where
  leaves : env.Leaves
  empty : ∀ id, dir.files namePrefix nameSuffix id = none
  names : ∀ life ∈ lives, life.args.namePrefix = namePrefix ∧ life.args.nameSuffix = nameSuffix
  clean : (Trail.run env dir lives).Clean

namespace Sample

/-- Surroundings that do not fail, in which every request takes a tick. -/
def env : WriteEnv where
  isDir := true
  fault _ := false
  stored _ := 0
  instant t := t
  instant_mono := fun _ _ le => le
  sends _ := .leave
  timerResolutionNs := 1
  attempts := 3
  overflowChecks := true

/-- Two records, the second running over the end of the first file. -/
def lives : List Life :=
  [⟨⟨[], [], 60, .variableSimple, some 1000⟩, [.write [1, 2], .write [3]]⟩]

theorem wrote : Wrote env ∅ lives [] [] := by
  refine ⟨fun _ => rfl, fun _ => rfl, by decide, ?_⟩
  unfold Trail.Clean
  decide +kernel

/-- A record that fills the first file, and one that runs over the end of the second. -/
def fillingRecords : List Life :=
  [⟨⟨[], [], 60, .variableSimple, some 1000⟩, [.write [1, 2, 3], .write [4, 5, 6, 7]]⟩]

theorem wroteFilling : Wrote env ∅ fillingRecords [] [] := by
  refine ⟨fun _ => rfl, fun _ => rfl, by decide, ?_⟩
  unfold Trail.Clean
  decide +kernel

/-- The log without one of its files. -/
def fillingWithout (id : SegId) : Dir :=
  (Trail.run env ∅ fillingRecords).state.dir.erase (buildName [] id [])

/-- A record that begins in the first file and ends in the second. -/
def spanningRecord : List Life :=
  [⟨⟨[], [], 60, .variableSimple, some 1000⟩, [.write [1, 2, 3, 4, 5, 6, 7, 8, 9, 10]]⟩]

theorem wroteSpanning : Wrote env ∅ spanningRecord [] [] := by
  refine ⟨fun _ => rfl, fun _ => rfl, by decide, ?_⟩
  unfold Trail.Clean
  decide +kernel

/-- The log without the file the record begins in. -/
def spanning : Dir :=
  (Trail.run env ∅ spanningRecord).state.dir.erase (buildName [] 1002 [])

/-- Two records that leave the rest of the first and the data header of the second to
the second file. -/
def bridgingRecords : List Life :=
  [⟨⟨[], [], 60, .variableSimple, some 1000⟩,
    [.write [1, 2, 3, 4, 5, 6], .write [7, 8, 9, 10, 11, 12, 13, 14, 15]]⟩]

theorem wroteBridging : Wrote env ∅ bridgingRecords [] [] := by
  refine ⟨fun _ => rfl, fun _ => rfl, by decide, ?_⟩
  unfold Trail.Clean
  decide +kernel

/-- The log without its second file. -/
def bridging : Dir :=
  (Trail.run env ∅ bridgingRecords).state.dir.erase (buildName [] 1009 [])

end Sample

theorem Faithful.records {L : Log} {journal : Journal} (faithful : Faithful L journal) :
    L.records = journal.records := by
  obtain ⟨strands, ordered⟩ := L
  obtain ⟨sessions, failed⟩ := journal
  simp only [Faithful] at faithful
  simp only [Log.records, Journal.records]
  clear ordered
  induction faithful with
  | nil => rfl
  | cons keeps _ ih => rw [List.flatMap_cons, List.flatMap_cons, keeps.records, ih]

/-- A strand of a log is a session of its journal. -/
theorem Faithful.exists_keeps {L : Log} {journal : Journal} (faithful : Faithful L journal) {k : Nat}
    {σ : Strand} (strandAt : L.strands[k]? = some σ) :
    ∃ session, journal.sessions[k]? = some session ∧ Keeps σ session := by
  obtain ⟨less, rfl⟩ := List.getElem?_eq_some_iff.mp strandAt
  obtain ⟨len, at_⟩ := List.forall₂_iff_get.mp faithful
  exact ⟨_, List.getElem?_eq_getElem (len ▸ less), at_ k less (len ▸ less)⟩

section Reading

variable {env : WriteEnv} {dir dir' : Dir} {lives : List Life} {namePrefix nameSuffix : Bytes}

/-- The log's own files, as its writers left them. -/
abbrev Trail.files (trail : Trail) (namePrefix nameSuffix : Bytes) : SegId → Option Bytes :=
  trail.state.dir.files namePrefix nameSuffix

theorem takes_of_pos {S : Scene} {cap : Nat} (some : 0 < cap) : S.Takes cap :=
  fun _ _ _ => .inl some

theorem exists_of_told {ι : Type} {at_ : ι → Option Record} {outcomes : List Outcome}
    {tolds : List (Option ι)} (tells : List.Forall₂ (Tells at_) outcomes tolds) {p : ι}
    (mem : some p ∈ tolds) : ∃ record, at_ p = some record := by
  induction tells with
  | nil => simp at mem
  | cons tells _ ih =>
      rcases List.mem_cons.mp mem with rfl | later
      · exact tells.there
      · exact ih later

/-- What calls tell of the places of a log they tell of its records by
number. -/
theorem tells_by_rank {L : Log} {outcomes : List Outcome} {tolds : List (Option (ℕ ×ₗ ℕ))}
    (tells : List.Forall₂ (Tells L.recordAt) outcomes tolds)
    (increasing : tolds.reduceOption.Pairwise (· < ·)) :
    List.Forall₂ (Tells (L.records[·]?)) outcomes (tolds.map (·.map L.rank)) ∧
      (tolds.map (·.map L.rank)).reduceOption.Pairwise (· < ·) := by
  refine ⟨?_, ?_⟩
  · rw [List.forall₂_map_right_iff]
    exact tells.imp fun _ _ tells => tells.map Log.records_rank
  · rw [List.reduceOption_map]
    refine List.pairwise_map.mpr (increasing.imp_of_mem ?_)
    intro p q memP _ less
    obtain ⟨record, recordAt⟩ := exists_of_told tells (List.reduceOption_mem_iff.mp memP)
    exact Log.rank_lt recordAt less

/-- The outcomes that return a record return these, by number. -/
structure Returns (records : List Record) (outcomes : List Outcome) (whole : List Nat) : Prop where
  tells : List.Forall₂ (Tells (records[·]?)) (outcomes.filter Outcome.isRecord) (whole.map some)
  increasing : whole.Pairwise (· < ·)

theorem returns_by_rank {L : Log} {outcomes : List Outcome} {whole : List (ℕ ×ₗ ℕ)}
    (matching : List.Forall₂ (Whole L) whole (outcomes.filter Outcome.isRecord))
    (increasing : whole.Pairwise (· < ·)) : Returns L.records outcomes (whole.map L.rank) := by
  refine ⟨?_, ?_⟩
  · rw [List.map_map, List.forall₂_map_right_iff]
    refine matching.flip.imp fun outcome p isWhole => ?_
    obtain ⟨record, recordAt, rfl⟩ := isWhole
    exact .whole (Log.records_rank recordAt)
  · refine List.pairwise_map.mpr (increasing.imp_of_mem ?_)
    intro p q memP _ less
    obtain ⟨n, less', isP⟩ := List.getElem_of_mem memP
    obtain ⟨_, at_⟩ := List.forall₂_iff_get.mp matching
    obtain ⟨record, recordAt, _⟩ := at_ n less' (matching.length_eq ▸ less')
    rw [List.get_eq_getElem, isP] at recordAt
    exact Log.rank_lt recordAt less

/-- Buffers at least as long as every payload. -/
def Ample (caps : Nat → Nat) (records : List Record) : Prop :=
  ∀ n, ∀ record ∈ records, record.payload.length ≤ caps n

theorem Ample.takes {S : Scene} {caps : Nat → Nat} (ample : Ample caps S.log.records) (n : Nat) :
    S.Takes (caps n) := by
  intro σ mem some
  obtain ⟨record, memRecord⟩ := List.exists_mem_of_ne_nil _ some
  have fits := σ.fits record memRecord
  have long := ample n record (List.mem_flatMap.mpr ⟨σ, mem, memRecord⟩)
  have nonempty := List.length_pos_of_ne_nil fits.encode_ne_nil
  rw [fits.length_encode] at nonempty
  omega

/-- With ample buffers no record is too long. -/
theorem Ample.not_long {L : Log} {caps : Nat → Nat} (ample : Ample caps L.records) {p : ℕ ×ₗ ℕ}
    {record : Record} (there : L.recordAt p = some record) :
    ¬ ∃ n, caps n < record.payload.length := by
  rintro ⟨n, short⟩
  have := ample n record (List.mem_of_getElem? (Log.records_rank there))
  omega

/-- Reading to the end of the log, every record that was not denied the reader
is returned whole, once and in order. -/
theorem Scene.returns_to_eof {S : Scene} {s : ReadState} {caps : Nat → Nat} (ready : S.Ready s 0 0)
    (ample : Ample caps S.log.records) :
    ∃ outcomes last whole, ReadsToEof S.env caps s outcomes last ∧
      Returns S.log.records outcomes whole ∧
      ∀ k i σ, S.log.strands[k]? = some σ → i < σ.records.length →
        ¬ S.Lost last.ops k σ i → S.log.rank (place k i) ∈ whole := by
  obtain ⟨outcomes, last, reads, _, k', i', tolds, account, rest⟩ :=
    Scene.reads_to_eof ready ample.takes
  obtain ⟨whole, sub, matching, _, returned⟩ := account.whole
  refine ⟨outcomes, last, whole.map S.log.rank, reads,
    returns_by_rank matching (account.increasing.sublist sub), fun k i σ strandAt index seen => ?_⟩
  have recordAt : S.log.recordAt (place k i) = some σ.records[i] := by
    rw [Log.recordAt_place strandAt, List.getElem?_eq_getElem index]
  have notLost : ¬ S.LostAt last.ops (place k i) := by
    rintro ⟨τ, strandAt', lost⟩
    obtain rfl := Option.some.inj (strandAt'.symm.trans strandAt)
    exact seen lost
  rcases lt_or_ge (place k i) (place k' i') with before | later
  · have first : place 0 0 ≤ place k i := by
      rw [place_le_place]
      omega
    rcases returned _ _ first before recordAt with lost | tooLong | mem
    · exact absurd lost notLost
    · exact absurd tooLong (ample.not_long recordAt)
    · exact List.mem_map_of_mem mem
  · exact absurd (rest _ _ later recordAt) notLost

/-- Nothing is invented: whatever is taken away from a log, what is read of it
was written, and in the order it was written. -/
theorem read_of_damaged (wrote : Wrote env dir lives namePrefix nameSuffix)
    (damaged : Damaged ((Trail.run env dir lives).files namePrefix nameSuffix)
      (dir'.files namePrefix nameSuffix))
    {isDir overflowChecks : Bool} {log : LogRead}
    (isNew : LogRead.new isDir (some dir') namePrefix nameSuffix = .ok log) {caps : Nat → Nat}
    (some : ∀ n, 0 < caps n) (calls : Nat) :
    ∃ tolds : List (Option Nat),
      List.Forall₂ (Tells ((Trail.run env dir lives).journal.records[·]?))
        (readCalls (.still dir' noFault overflowChecks) caps calls log.begin).1 tolds ∧
      tolds.reduceOption.Pairwise (· < ·) := by
  obtain ⟨L, disk, _, faithful⟩ := Trail.run_sound wrote.leaves wrote.empty wrote.names wrote.clean
  obtain ⟨listed, isListed, begins⟩ := LogRead.new_spec isNew
  obtain rfl := Option.some.inj isListed
  have presents : ∀ t, Presents (((ReadEnv.still dir' noFault overflowChecks).dir t).files namePrefix
      nameSuffix) L := fun _ => disk.presents damaged
  have ready := begins.ready presents
  obtain ⟨_, _, _, tolds, _, account⟩ := Scene.readCalls_account ready (fun n => takes_of_pos (some n)) calls
  rw [← faithful.records]
  exact ⟨_, tells_by_rank account.tells account.increasing⟩

theorem read_of_damaged_sample :
    ∃ tolds : List (Option Nat),
      List.Forall₂ (Tells ((Trail.run Sample.env ∅ Sample.fillingRecords).journal.records[·]?))
        (readCalls (.still (Sample.fillingWithout 1002) noFault true) (fun _ => 4) 5
          (Sample.reader [1010, 1017]).begin).1 tolds ∧
      tolds.reduceOption.Pairwise (· < ·) :=
  read_of_damaged Sample.wroteFilling (Damaged.erase _ _ _ _)
    (show LogRead.new true (some (Sample.fillingWithout 1002)) [] [] = .ok (Sample.reader [1010, 1017])
      by decide +kernel)
    (fun _ => by decide) 5

/-- Damage is contained: every record whose bytes survive is returned whole,
once and in the order it was written. -/
theorem surviving_returned (wrote : Wrote env dir lives namePrefix nameSuffix)
    (damaged : Damaged ((Trail.run env dir lives).files namePrefix nameSuffix)
      (dir'.files namePrefix nameSuffix))
    {isDir overflowChecks : Bool} {log : LogRead}
    (isNew : LogRead.new isDir (some dir') namePrefix nameSuffix = .ok log) {caps : Nat → Nat}
    (ample : Ample caps (Trail.run env dir lives).journal.records) :
    ∃ L, OnDisk ((Trail.run env dir lives).files namePrefix nameSuffix) L ∧
      Faithful L (Trail.run env dir lives).journal ∧
      ∃ outcomes last whole,
        ReadsToEof (.still dir' noFault overflowChecks) caps log.begin outcomes last ∧
        Returns (Trail.run env dir lives).journal.records outcomes whole ∧
        ∀ k i σ, L.strands[k]? = some σ → i < σ.records.length →
          Survives (dir'.files namePrefix nameSuffix) σ i → L.rank (place k i) ∈ whole := by
  obtain ⟨L, disk, _, faithful⟩ := Trail.run_sound wrote.leaves wrote.empty wrote.names wrote.clean
  obtain ⟨listed, isListed, begins⟩ := LogRead.new_spec isNew
  obtain rfl := Option.some.inj isListed
  have presents : ∀ t, Presents (((ReadEnv.still dir' noFault overflowChecks).dir t).files namePrefix
      nameSuffix) L := fun _ => disk.presents damaged
  rw [← faithful.records] at ample ⊢
  obtain ⟨outcomes, last, whole, reads, returns, seen⟩ :=
    Scene.returns_to_eof (begins.ready presents) ample
  refine ⟨L, disk, faithful, outcomes, last, whole, reads, returns, ?_⟩
  intro k i σ strandAt index survives
  exact seen k i σ strandAt index survives.not_lost

theorem surviving_returned_sample :
    ∃ L, OnDisk ((Trail.run Sample.env ∅ Sample.fillingRecords).files [] []) L ∧
      Faithful L (Trail.run Sample.env ∅ Sample.fillingRecords).journal ∧
      ∃ outcomes last whole,
        ReadsToEof (.still (Sample.fillingWithout 1002) noFault true) (fun _ => 4)
          (Sample.reader [1010, 1017]).begin outcomes last ∧
        Returns (Trail.run Sample.env ∅ Sample.fillingRecords).journal.records outcomes whole ∧
        ∀ k i σ, L.strands[k]? = some σ → i < σ.records.length →
          Survives ((Sample.fillingWithout 1002).files [] []) σ i → L.rank (place k i) ∈ whole :=
  surviving_returned Sample.wroteFilling (Damaged.erase _ _ _ _)
    (show LogRead.new true (some (Sample.fillingWithout 1002)) [] [] = .ok (Sample.reader [1010, 1017])
      by decide +kernel)
    (fun _ => (by decide +kernel : ∀ record ∈ (Trail.run Sample.env ∅ Sample.fillingRecords).journal.records,
      record.payload.length ≤ 4))

end Reading

end Tcslog
