import Tcslog.Read.Reach
import Tcslog.System.RoundTrip
import Tcslog.Write.Moments

/-!
# Reading a log that is still being written

The directory a reader lists, and the one each of its requests finds, show the
log as its writer had left it at some moment, and these moments move on.  What
is listed is then the first files of the log, of which only the last one may
still grow, so the reader finds a shelf.
-/

namespace Tcslog

open Lib.Program Lib.Spanned

/-- A reader works alongside the writer that does `events`, the files of the log
having been `files` before: it listed the directory at one moment, and makes its
requests at later ones. -/
structure Alongside (files : SegId → Option Bytes) (events : List WriteEvent)
    (namePrefix nameSuffix : Bytes) (view : Dir) (readEnv : ReadEnv) (listed : List WriteEvent)
    (moments : Nat → List WriteEvent) : Prop where
  noFault : ∀ t, readEnv.fault t = false
  view : view.files namePrefix nameSuffix = filesAfter files listed
  shows : ∀ t, (readEnv.dir t).files namePrefix nameSuffix = filesAfter files (moments t)
  begins : ∀ t, Front listed (moments t)
  ascends : ∀ {t t'}, t ≤ t' → Front (moments t) (moments t')
  within : ∀ t, Front (moments t) events

/-- The reader read the header of a file and accepted the file. -/
def Accepts (readEnv : ReadEnv) (namePrefix nameSuffix : Bytes) (ops : List ReadOp) (id : SegId) : Prop :=
  ∃ t content header, ops[t]? = some ⟨.readHeader, id⟩ ∧
    (readEnv.dir t).files namePrefix nameSuffix id = some content ∧ validate id content = some header

/-- All bytes of record `i` of a strand stand in the files. -/
def Written (files : SegId → Option Bytes) (σ : Strand) (i : Nat) : Prop :=
  ∀ q, σ.start i ≤ q → q < σ.start (i + 1) → ∃ id content,
    σ.ids[q / σ.dataSection]? = some id ∧ files id = some content ∧
      segmentFileHeaderLen + q % σ.dataSection < content.length

/-- A sorted list whose elements come before all others of a sorted list is its
beginning. -/
theorem prefix_of_lower {ids ids' : List SegId} (sorted : ids.Pairwise (· < ·)) (sorted' : ids'.Pairwise (· < ·))
    (inside : ∀ a ∈ ids, a ∈ ids') (lower : ∀ b ∈ ids', b ∉ ids → ∀ a ∈ ids, a < b) : ids <+: ids' := by
  induction ids' generalizing ids with
  | nil =>
      obtain rfl : ids = [] :=
        List.eq_nil_iff_forall_not_mem.mpr fun a mem => List.not_mem_nil (inside a mem)
      exact List.nil_prefix
  | cons b ids' ih =>
      obtain ⟨first', sortedRest⟩ := List.pairwise_cons.mp sorted'
      cases ids with
      | nil => exact List.nil_prefix
      | cons a ids =>
          obtain ⟨first, sorted⟩ := List.pairwise_cons.mp sorted
          have same : a = b := by
            by_contra differs
            have after : b < a := first' a ((List.mem_cons.mp (inside a List.mem_cons_self)).resolve_left differs)
            by_cases mem : b ∈ a :: ids
            · rcases List.mem_cons.mp mem with rfl | later
              · exact differs rfl
              · exact UInt64.lt_irrefl _ (UInt64.lt_trans after (first b later))
            · exact UInt64.lt_irrefl _
                (UInt64.lt_trans after (lower b List.mem_cons_self mem a List.mem_cons_self))
          subst same
          refine (List.prefix_cons_inj a).mpr
            (ih sorted sortedRest (fun c mem => ?_) fun c mem absent d memD => ?_)
          · rcases List.mem_cons.mp (inside c (List.mem_cons_of_mem _ mem)) with rfl | later
            · exact absurd (first c mem) (UInt64.lt_irrefl c)
            · exact later
          · refine lower c (List.mem_cons_of_mem _ mem) (fun there => ?_) d (List.mem_cons_of_mem _ memD)
            rcases List.mem_cons.mp there with rfl | later
            · exact UInt64.lt_irrefl _ (first' c mem)
            · exact absent later

namespace Cuts

variable {tapes : List Tape} {strands : List Strand} {k : Nat}

/-- Each of the tapes is cut from the strand in its place. -/
theorem strandAt (cuts : Cuts tapes strands) {T : Tape} (tapeAt : tapes[k]? = some T) :
    ∃ σ, strands[k]? = some σ ∧ ∃ m some within tight, T = σ.cut m some within tight := by
  induction cuts generalizing k with
  | nil => simp at tapeAt
  | @last σ m rest some within tight =>
      cases k with
      | zero => exact ⟨σ, rfl, m, some, within, tight, (Option.some.inj tapeAt).symm⟩
      | succ k => simp at tapeAt
  | @cons σ tapes rest tight more ih =>
      cases k with
      | zero => exact ⟨σ, rfl, _, _, _, tight, (Option.some.inj tapeAt).symm⟩
      | succ k => exact ih tapeAt

/-- As far as there are tapes, they have the records of the strands. -/
theorem take_records (cuts : Cuts tapes strands) (le : k ≤ tapes.length) :
    (strands.take k).map Strand.records = (tapes.take k).map Tape.records := by
  obtain ⟨more, split⟩ := cuts.records_prefix
  rw [List.map_take, List.map_take, ← split, List.take_append_of_le_length (by simpa using le)]

end Cuts

namespace Alongside

variable {files : SegId → Option Bytes} {events listed : List WriteEvent} {namePrefix nameSuffix : Bytes}
  {view : Dir} {readEnv : ReadEnv} {moments : Nat → List WriteEvent} {id : SegId} {content : Bytes}

/-- A file that was listed stays there, and grows only if it is the last one. -/
theorem grows (along : Alongside files events namePrefix nameSuffix view readEnv listed moments)
    (inTurn : InTurn files none events) (present : view.files namePrefix nameSuffix id = some content) (t : Nat) :
    ∃ more more', (readEnv.dir t).files namePrefix nameSuffix id = some (content ++ more) ∧
      filesAfter files events id = some (content ++ more ++ more') ∧
      ((∃ a, (view.files namePrefix nameSuffix a).isSome ∧ id < a) → more = [] ∧ more' = []) := by
  have none : ∀ l, (none : Option SegId) = some l → ∀ a, (files a).isSome → a ≤ l := by simp
  obtain ⟨inTurnT, restT, restTurn, final⟩ := inTurn.rest (along.within t)
  obtain ⟨inTurnL, restL, restTurnL, then_⟩ := inTurnT.rest (along.begins t)
  rw [along.view] at present
  obtain ⟨more, here, same⟩ := restTurnL.grows present
  rw [← then_] at here
  obtain ⟨more', there, same'⟩ := restTurn.grows here
  refine ⟨more, more', along.shows t ▸ here, final ▸ there, ?_⟩
  rintro ⟨a, isThere, less⟩
  rw [along.view] at isThere
  have notLast : newestAfter Option.none listed ≠ some id := fun isLast =>
    UInt64.lt_irrefl id (UInt64.lt_of_lt_of_le less (inTurnL.newest_le none id isLast a isThere))
  have notLast' : newestAfter Option.none (moments t) ≠ some id := by
    intro isLast
    obtain ⟨_, isContent⟩ := Option.isSome_iff_exists.mp isThere
    obtain ⟨_, stays, _⟩ := restTurnL.grows isContent
    rw [← then_] at stays
    exact UInt64.lt_irrefl id
      (UInt64.lt_of_lt_of_le less (inTurnT.newest_le none id isLast a (Option.isSome_of_eq_some stays)))
  exact ⟨same notLast, same' notLast'⟩

/-- What is listed is the first files of what there is in the end. -/
theorem listing (along : Alongside files events namePrefix nameSuffix view readEnv listed moments)
    (inTurn : InTurn files none events) {dir : Dir}
    (final : dir.files namePrefix nameSuffix = filesAfter files events) :
    scanSegmentIds view namePrefix nameSuffix <+: scanSegmentIds dir namePrefix nameSuffix := by
  refine prefix_of_lower (scanSegmentIds_sorted _ _ _) (scanSegmentIds_sorted _ _ _) (fun a mem => ?_)
    fun b mem absent a memA => ?_
  · rw [mem_scan] at mem ⊢
    obtain ⟨content, isContent⟩ := Option.isSome_iff_exists.mp mem
    obtain ⟨_, _, _, there, _⟩ := along.grows inTurn isContent 0
    rw [final]
    exact Option.isSome_of_eq_some there
  · rw [mem_scan] at mem absent memA
    obtain ⟨_, rest, restTurn, then_⟩ := inTurn.rest ((along.begins 0).trans (along.within 0))
    rw [final, then_] at mem
    rw [along.view] at absent memA
    exact (restTurn.new mem).resolve_left absent a memA

section Shelf

variable {trail : Trail} {L : Log} {tapes : List Tape}

/-- A listed file is found as far as it was written then, the last one perhaps
further than it was when it was listed. -/
theorem shown (along : Alongside files events namePrefix nameSuffix view readEnv listed moments)
    (inTurn : InTurn files none events) (left : trail.Left namePrefix nameSuffix L)
    (final : trail.state.dir.files namePrefix nameSuffix = filesAfter files events)
    (cuts : Cuts tapes L.strands) (ids : tapes.flatMap Tape.ids = scanSegmentIds view namePrefix nameSuffix)
    {T : Tape} (mem : T ∈ tapes) {j : Nat} (idAt : T.ids[j]? = some id) (t : Nat) :
    ∃ n ≤ (T.file j id).length,
      (readEnv.dir t).files namePrefix nameSuffix id = some ((T.file j id).take n) ∧
        (id ∈ (tapes.flatMap Tape.ids).dropLast → n = (T.file j id).length) ∧
        (id ∉ (tapes.flatMap Tape.ids).dropLast →
          Dir.Holds.floor view namePrefix nameSuffix (tapes.flatMap Tape.ids) ≤ n) := by
  have isListed : id ∈ tapes.flatMap Tape.ids := List.mem_flatMap.mpr ⟨T, mem, List.mem_of_getElem? idAt⟩
  have whole : filesAfter files events id = some (T.file j id) := by
    obtain ⟨σ, memσ, m, some, within, tight, rfl⟩ := cuts.exists_strand T mem
    obtain ⟨k, strandAt⟩ := List.getElem?_of_mem memσ
    obtain ⟨_, keeps⟩ := left.keeps memσ
    have less : j < m := by
      have within' : j < (σ.ids.take m).length := (List.getElem?_eq_some_iff.mp idAt).1
      rw [List.length_take] at within'
      omega
    change (σ.ids.take m)[j]? = Option.some id at idAt
    rw [List.getElem?_take_of_lt less] at idAt
    rw [Strand.file_cut keeps.first less, ← final]
    exact left.disk.shown ⟨strandAt, idAt⟩
  obtain ⟨content, present⟩ := Option.isSome_iff_exists.mp (mem_scan.mp (ids ▸ isListed))
  obtain ⟨more, more', here, there, still⟩ := along.grows inTurn present t
  rw [whole] at there
  have grown : T.file j id = content ++ more ++ more' := Option.some.inj there
  refine ⟨(content ++ more).length, by rw [grown]; simp, ?_, fun notLast => ?_, fun isLast => ?_⟩
  · rw [here, grown, List.take_left]
  · obtain ⟨a, isThere, after⟩ : ∃ a, (view.files namePrefix nameSuffix a).isSome ∧ id < a := by
      have sorted := scanSegmentIds_sorted view namePrefix nameSuffix
      obtain ⟨front, a, split⟩ : ∃ front a, scanSegmentIds view namePrefix nameSuffix = front ++ [a] :=
        ⟨_, _, (List.dropLast_append_getLast (List.ne_nil_of_mem (ids ▸ isListed))).symm⟩
      rw [split] at sorted
      rw [ids, split, List.dropLast_concat] at notLast
      have isLast : a ∈ scanSegmentIds view namePrefix nameSuffix := by simp [split]
      exact ⟨a, mem_scan.mp isLast, (List.pairwise_append.mp sorted).2.2 id notLast a List.mem_cons_self⟩
    obtain ⟨_, none⟩ := still ⟨a, isThere, after⟩
    rw [grown, none, List.append_nil]
  · rw [Dir.Holds.floor, getLast?_of_not_mem_dropLast isListed isLast, Option.bind_some, present,
      Option.map_some, Option.getD_some, List.length_append]
    exact Nat.le_add_right _ _

/-- What the reader finds. -/
def shelf (along : Alongside files events namePrefix nameSuffix view readEnv listed moments)
    (inTurn : InTurn files none events) (left : trail.Left namePrefix nameSuffix L)
    (final : trail.state.dir.files namePrefix nameSuffix = filesAfter files events)
    (cuts : Cuts tapes L.strands) (ids : tapes.flatMap Tape.ids = scanSegmentIds view namePrefix nameSuffix) :
    Shelf where
  env := readEnv
  namePrefix := namePrefix
  nameSuffix := nameSuffix
  tapes := tapes
  floor := Dir.Holds.floor view namePrefix nameSuffix (tapes.flatMap Tape.ids)
  noFault := along.noFault
  sorted := ids ▸ scanSegmentIds_sorted view namePrefix nameSuffix
  apart := by
    have apart : (tapes.map Tape.sessionId).Pairwise (· < ·) :=
      left.sessions_lt.sublist cuts.sessions_prefix.sublist
    exact ((List.pairwise_map.mp apart).imp fun less => UInt64.ne_of_lt less).isChain
  full := cuts.full_dropLast left.full
  shows _ mem _ _ idAt t := along.shown inTurn left final cuts ids mem idAt t

variable {k j i : Nat} {σ : Strand}

/-- A file of a strand that is listed is one of the tape in its place. -/
theorem tapeAt_of_listed (cuts : Cuts tapes L.strands) (fileAt : L.FileAt k j σ id)
    (isListed : id ∈ tapes.flatMap Tape.ids) : ∃ W, tapes[k]? = some W ∧ W.ids[j]? = some id ∧
      ∃ m some within tight, W = σ.cut m some within tight := by
  obtain ⟨W, memW, memIds⟩ := List.mem_flatMap.mp isListed
  obtain ⟨k', tapeAt⟩ := List.getElem?_of_mem memW
  obtain ⟨j', idAt'⟩ := List.getElem?_of_mem memIds
  obtain ⟨τ, strandAt', m, some, within, tight, rfl⟩ := cuts.strandAt tapeAt
  have less : j' < m := by
    have within' : j' < (τ.ids.take m).length := (List.getElem?_eq_some_iff.mp idAt').1
    rw [List.length_take] at within'
    omega
  have idAt : τ.ids[j']? = Option.some id := by rwa [← List.getElem?_take_of_lt less]
  obtain ⟨rfl, rfl, rfl⟩ := fileAt.unique ⟨strandAt', idAt⟩
  exact ⟨_, tapeAt, idAt', m, some, within, tight, rfl⟩

/-- A record whose bytes were all there when the files were listed is there from
the beginning. -/
theorem stored (along : Alongside files events namePrefix nameSuffix view readEnv listed moments)
    (inTurn : InTurn files none events) (left : trail.Left namePrefix nameSuffix L)
    (final : trail.state.dir.files namePrefix nameSuffix = filesAfter files events)
    (cuts : Cuts tapes L.strands) (ids : tapes.flatMap Tape.ids = scanSegmentIds view namePrefix nameSuffix)
    (strandAt : L.strands[k]? = some σ) (index : i < σ.records.length)
    (written : Written (view.files namePrefix nameSuffix) σ i) : ∃ W, tapes[k]? = some W ∧
      W.records = σ.records ∧
      (along.shelf inTurn left final cuts ids).Stored W (tapes.drop (k + 1)) i := by
  have less : σ.start i < σ.start (i + 1) := Strand.start_lt (Nat.lt_succ_self i) index
  obtain ⟨id, content, idAt, present, long⟩ := written (σ.start (i + 1) - 1) (by omega) (by omega)
  have isListed : id ∈ tapes.flatMap Tape.ids := ids ▸ mem_scan.mpr (Option.isSome_of_eq_some present)
  obtain ⟨W, tapeAt, idAt', m, some, within, tight, rfl⟩ := tapeAt_of_listed cuts ⟨strandAt, idAt⟩ isListed
  have fileAt : (along.shelf inTurn left final cuts ids).FileAt (σ.cut m some within tight)
      (tapes.drop (k + 1)) ((σ.start (i + 1) - 1) / σ.dataSection) id := by
    obtain ⟨short, isTape⟩ := List.getElem?_eq_some_iff.mp tapeAt
    refine ⟨⟨tapes.take k, ?_⟩, idAt'⟩
    rw [← isTape, List.cons_getElem_drop_succ, List.take_append_drop]
    rfl
  have split := Nat.div_add_mod (σ.start (i + 1) - 1) σ.dataSection
  have small := Nat.mod_lt (σ.start (i + 1) - 1) σ.dataSection_pos
  rw [Nat.mul_comm] at split
  have start : (σ.cut m some within tight).start (i + 1) = σ.start (i + 1) := by
    rw [Tape.start, Strand.blocks_cut]
    rfl
  refine ⟨_, tapeAt, rfl, _, id, (σ.start (i + 1) - 1) % σ.dataSection + 1, fileAt, ?_, small, fun isLast => ?_⟩
  · rw [start, Strand.dataSection_cut]
    omega
  · have notBefore : id ∉ (tapes.flatMap Tape.ids).dropLast := fun mem =>
      fileAt.mem_dropLast_iff.mp mem isLast
    change segmentFileHeaderLen + _ ≤ Dir.Holds.floor view namePrefix nameSuffix (tapes.flatMap Tape.ids)
    rw [Dir.Holds.floor, getLast?_of_not_mem_dropLast isListed notBefore, Option.bind_some, present,
      Option.map_some, Option.getD_some]
    omega

end Shelf

end Alongside

/-! ## What is told -/

/-- The front of a tape's file is accepted whole header and all. -/
theorem Tape.validate_file (T : Tape) {j c : Nat} (id : SegId) (within : c ≤ (T.data j).length) :
    validate id ((T.file j id).take (segmentFileHeaderLen + c)) = some (T.header j id) := by
  have length : ((T.file j id).take (segmentFileHeaderLen + c)).length = segmentFileHeaderLen + c := by
    rw [List.length_take, T.length_file, Nat.min_eq_left (Nat.add_le_add_left within _)]
  have fits : ¬ (T.header j id).maxSize.toNat < segmentFileHeaderLen + c := by
    have := T.dataSection_add
    have := T.length_data_le j
    change ¬ T.maxSize.toNat < _
    omega
  rw [validate, length, if_neg (Nat.not_lt.mpr (Nat.le_add_right _ _)), T.fromBytes_file]
  simp only [fits, or_false]
  rw [if_neg fun differs => differs rfl]

/-- What a reader that works alongside the writer of a log is told of it: `files` is
what it listed, and it accepted these files. -/
structure ToldLive (L : Log) (files : SegId → Option Bytes) (accepted : SegId → Prop)
    (told cut : List Outcome) : Prop where
  /-- The records are told in order from the first, with one end of a session
  between two sessions. -/
  front : told <+: script (L.strands.map Strand.records)
  /-- After them at most the next record is told to be cut short. -/
  cut : ∃ n, told.filter Outcome.isRecord = (L.records.take n).map Record.outcome ∧
    Shelf.CutShort L.records[n]? cut
  /-- A record whose bytes were there when the files were listed is told. -/
  stored : ∀ k σ i, L.strands[k]? = some σ → i < σ.records.length → Written files σ i →
    script ((L.strands.take k).map Strand.records ++ [σ.records.take (i + 1)]) <+: told
  /-- The end of a session is told exactly if a file of the next was accepted. -/
  boundary : ∀ k σ, L.strands[k + 1]? = some σ →
    (script ((L.strands.take (k + 1)).map Strand.records) ++ [.failed .sessionEnd []] <+: told ↔
      ∃ id ∈ σ.ids, accepted id)

section Live

variable {files : SegId → Option Bytes} {events listed : List WriteEvent} {namePrefix nameSuffix : Bytes}
  {view : Dir} {readEnv : ReadEnv} {moments : Nat → List WriteEvent} {trail : Trail} {L : Log}

/-- The records of the strands that tapes are cut from. -/
theorem Cuts.exists_later {front rest : List Tape} {U : Tape} {strands : List Strand}
    (cuts : Cuts (front ++ U :: rest) strands) :
    ∃ later, strands.map Strand.records = front.map Tape.records ++ U.records :: later := by
  obtain ⟨more, split⟩ := cuts.records_prefix
  refine ⟨rest.map Tape.records ++ more, ?_⟩
  rw [← split, List.map_append, List.map_cons, List.append_assoc, List.cons_append]

/-- The end of a session is told if the next session was reached. -/
theorem Cuts.tells_end_iff {first rest : List Tape} {U : Tape} (cuts : Cuts (first ++ U :: rest) L.strands)
    {k : Nat} {σ : Strand}
    (next : L.strands[k + 1]? = some σ) (i : Nat) :
    script ((L.strands.take (k + 1)).map Strand.records) ++ [.failed .sessionEnd []] <+:
      script (first.map Tape.records ++ [U.records.take i]) ↔ k < first.length := by
  obtain ⟨later, split⟩ := cuts.exists_later
  have count := congrArg List.length split
  rw [List.length_map, List.length_append, List.length_map, List.length_cons] at count
  have within := (List.getElem?_eq_some_iff.mp next).1
  rw [List.map_take, split, script_boundary_iff (by rw [List.length_map]; omega), List.length_map]

namespace Shelf.Reached

variable {S : Shelf} {ops : List ReadOp} {outcomes short : List Outcome} {first rest : List Tape} {U : Tape}
  {i : Nat}

/-- After the records that are told at most the next is told to be cut short. -/
theorem cut_next (reached : S.Reached ops outcomes first U rest i short)
    (cuts : Cuts (first ++ U :: rest) L.strands) : ∃ n,
      (script (first.map Tape.records ++ [U.records.take i])).filter Outcome.isRecord =
        (L.records.take n).map Record.outcome ∧ CutShort L.records[n]? short := by
  obtain ⟨later, split⟩ := cuts.exists_later
  have records : L.records = (first.map Tape.records).flatten ++ (U.records ++ later.flatten) := by
    rw [Log.records, List.flatMap_def, split, List.flatten_append, List.flatten_cons]
  refine ⟨(first.map Tape.records).flatten.length + i, ?_, reached.cut.mono fun record recordAt => ?_⟩
  · rw [filter_script, records, List.take_append, List.take_of_length_le (Nat.le_add_right _ _),
      Nat.add_sub_cancel_left, List.take_append_of_le_length reached.within, List.flatten_append,
      List.flatten_singleton]
  · rw [records, List.getElem?_append_right (Nat.le_add_right _ _), Nat.add_sub_cancel_left,
      List.getElem?_append_left (List.getElem?_eq_some_iff.mp recordAt).1, recordAt]

/-- A record that is there from the beginning lies before the one that was not
reached. -/
theorem before (reached : S.Reached ops outcomes first U rest i short) {tapes : List Tape}
    (split : tapes = first ++ U :: rest) {k n : Nat} {W : Tape} (tapeAt : tapes[k]? = some W)
    (index : n < W.records.length) (stored : S.Stored W (tapes.drop (k + 1)) n) :
    k < first.length ∨ k = first.length ∧ n < i := by
  subst split
  by_contra notBefore
  rw [not_or, Nat.not_lt] at notBefore
  obtain ⟨le, notHere⟩ := notBefore
  obtain ⟨within, isTape⟩ := List.getElem?_eq_some_iff.mp tapeAt
  have onward : W :: (first ++ U :: rest).drop (k + 1) = (U :: rest).drop (k - first.length) := by
    rw [← isTape, List.cons_getElem_drop_succ, List.drop_append, List.drop_eq_nil_of_le le, List.nil_append]
  refine reached.unseen.not_stored (onward ▸ List.drop_suffix _ _) index (fun same => ?_) stored
  have len := congrArg List.length same
  rw [List.length_cons, List.length_drop, List.length_cons, List.length_append, List.length_cons] at len
  rw [List.length_append, List.length_cons] at within
  have here : k = first.length := by omega
  exact Nat.le_of_not_lt fun less => notHere ⟨here, less⟩

/-- Such a record is told. -/
theorem tells (reached : S.Reached ops outcomes first U rest i short) {tapes : List Tape}
    (split : tapes = first ++ U :: rest) (cuts : Cuts tapes L.strands) {k n : Nat} {W : Tape}
    (tapeAt : tapes[k]? = some W) (index : n < W.records.length)
    (stored : S.Stored W (tapes.drop (k + 1)) n) :
    script ((L.strands.take k).map Strand.records ++ [W.records.take (n + 1)]) <+:
      script (first.map Tape.records ++ [U.records.take i]) := by
  rw [cuts.take_records (List.getElem?_eq_some_iff.mp tapeAt).1.le]
  rcases reached.before split tapeAt index stored with less | ⟨rfl, less⟩ <;> subst split
  · rw [List.getElem?_append_left less] at tapeAt
    obtain ⟨_, isTape⟩ := List.getElem?_eq_some_iff.mp tapeAt
    have split : first = first.take k ++ W :: first.drop (k + 1) := by
      rw [← isTape, List.cons_getElem_drop_succ, List.take_append_drop]
    rw [List.take_append_of_le_length less.le]
    conv_rhs => rw [split, List.map_append, List.map_cons, List.append_assoc, List.cons_append]
    exact script_prefix (List.take_prefix _ _)
  · rw [List.getElem?_append_right (Nat.le_refl _), Nat.sub_self, List.getElem?_cons_zero] at tapeAt
    obtain rfl := Option.some.inj tapeAt
    rw [List.take_left]
    exact script_prefix (List.take_prefix_take_left less)

end Shelf.Reached

namespace Alongside

variable {along : Alongside files events namePrefix nameSuffix view readEnv listed moments}
  {inTurn : InTurn files none events} {left : trail.Left namePrefix nameSuffix L}
  {final : trail.state.dir.files namePrefix nameSuffix = filesAfter files events} {tapes : List Tape}
  {cuts : Cuts tapes L.strands} {ids : tapes.flatMap Tape.ids = scanSegmentIds view namePrefix nameSuffix}

/-- A file whose whole header is read is accepted. -/
theorem accepts {T : Tape} (mem : T ∈ tapes) {ops : List ReadOp}
    (headerRead : (along.shelf inTurn left final cuts ids).HeaderRead T.ids ops) :
    ∃ id ∈ T.ids, Accepts readEnv namePrefix nameSuffix ops id := by
  obtain ⟨id, memId, t, content, opAt, present, long⟩ := headerRead
  obtain ⟨j, idAt⟩ := List.getElem?_of_mem memId
  obtain ⟨n, le, shown, _⟩ := along.shown inTurn left final cuts ids mem idAt t
  obtain rfl := Option.some.inj (present.symm.trans shown)
  rw [List.length_take, Nat.min_eq_left le] at long
  obtain ⟨c, rfl⟩ := Nat.exists_eq_add_of_le long
  rw [T.length_file] at le
  exact ⟨id, memId, t, _, _, opAt, shown, T.validate_file id (Nat.add_le_add_iff_left.mp le)⟩

/-- A file of a session is accepted if the session was reached. -/
theorem accepted_iff {ops : List ReadOp} {outcomes short : List Outcome} {first rest : List Tape}
    {U : Tape} {i k : Nat}
    {σ : Strand} (reached : (along.shelf inTurn left final cuts ids).Reached ops outcomes first U rest i short)
    (split : tapes = first ++ U :: rest) (asked : ∀ op ∈ ops, op.id ∈ tapes.flatMap Tape.ids)
    (next : L.strands[k + 1]? = some σ) :
    (∃ id ∈ σ.ids, Accepts readEnv namePrefix nameSuffix ops id) ↔ k < first.length := by
  constructor
  · rintro ⟨id, memId, t, content, header, opAt, present, accepted⟩
    by_contra notReached
    obtain ⟨j, idAt⟩ := List.getElem?_of_mem memId
    obtain ⟨W, tapeAt, idAt', _⟩ :=
      tapeAt_of_listed cuts ⟨next, idAt⟩ (asked _ (List.mem_of_getElem? opAt))
    have memRest : W ∈ rest := by
      rw [split, List.getElem?_append_right (by omega), Nat.sub_add_comm (Nat.le_of_not_lt notReached),
        List.getElem?_cons_succ] at tapeAt
      exact List.mem_of_getElem? tapeAt
    obtain ⟨_, _, _, headless⟩ := reached.unseen.next (List.ne_nil_of_mem memRest)
    have short := headless id (List.mem_flatMap.mpr ⟨W, memRest, List.mem_of_getElem? idAt'⟩) t
      (List.getElem?_eq_some_iff.mp opAt).1 content present
    rw [validate, if_pos short] at accepted
    contradiction
  · intro less
    have within : k + 1 < (first ++ [U]).length := by
      rw [List.length_append, List.length_singleton]
      exact Nat.succ_lt_succ less
    have tapeAt : tapes[k + 1]? = some (first ++ [U])[k + 1] := by
      rw [split, ← List.singleton_append, ← List.append_assoc, List.getElem?_append_left within,
        List.getElem?_eq_getElem within]
    obtain ⟨τ, strandAt, m, some, within, tight, isCut⟩ := cuts.strandAt tapeAt
    obtain rfl := Option.some.inj (strandAt.symm.trans next)
    obtain ⟨id, mem, accepts⟩ := accepts (List.mem_of_getElem? tapeAt)
      (reached.headers _ (List.mem_of_getElem? (show (first ++ [U]).tail[k]? = _ by
        rw [List.getElem?_tail, ← List.getElem?_eq_getElem])))
    rw [isCut] at mem
    exact ⟨id, List.mem_of_mem_take mem, accepts⟩

end Alongside

/-- A reader alongside the writer of a log is told its beginning. -/
theorem Alongside.toldLive
    (along : Alongside files events namePrefix nameSuffix view readEnv listed moments)
    (inTurn : InTurn files none events) (left : trail.Left namePrefix nameSuffix L)
    (final : trail.state.dir.files namePrefix nameSuffix = filesAfter files events) {isDir : Bool} {log : LogRead}
    (isNew : LogRead.new isDir (some view) namePrefix nameSuffix = .ok log) {caps : Nat → Nat}
    (ample : Tcslog.Ample caps L.records) :
    ∃ outcomes last, ReadsToEof readEnv caps log.begin outcomes last ∧ ∃ told cut, outcomes = told ++ cut ∧
      ToldLive L (view.files namePrefix nameSuffix) (Accepts readEnv namePrefix nameSuffix last.ops) told cut := by
  obtain ⟨_, isListed, begins⟩ := LogRead.new_spec isNew
  obtain rfl := Option.some.inj isListed
  obtain ⟨tapes, cuts, ids⟩ := Cuts.exists_take left.tight (scanSegmentIds view namePrefix nameSuffix).length
  rw [← left.listed, ← List.prefix_iff_eq_take.mp (along.listing inTurn final)] at ids
  have between : (along.shelf inTurn left final cuts ids).Between log.begin tapes :=
    Shelf.between_begin begins ids.symm
  cases tapes with
  | nil =>
      obtain ⟨eof, ops⟩ := Shelf.readCall_finished readEnv (caps 0) ⟨between.pending, between.closed⟩
      refine ⟨[], _, .nil (Prod.ext eof rfl), [], [], rfl, List.nil_prefix, ⟨0, rfl, .inl rfl⟩, ?_, ?_⟩
      · intro k σ i strandAt index written
        obtain ⟨W, tapeAt, _⟩ := along.stored inTurn left final cuts ids strandAt index written
        simp at tapeAt
      · intro k σ _
        refine iff_of_false (fun told => ?_) ?_
        · simpa using told.length_le
        · rintro ⟨id, _, t, content, header, opAt, _⟩
          rw [ops] at opAt
          simp [LogRead.begin] at opAt
  | cons T rest =>
      have ample' : Shelf.Ample caps (T :: rest) := by
        intro n U mem record memRecord
        obtain ⟨σ, memσ, m, some, within, tight, rfl⟩ := cuts.exists_strand U mem
        exact ample n record (List.mem_flatMap.mpr ⟨σ, memσ, memRecord⟩)
      obtain ⟨outcomes, last, reads, told⟩ := Shelf.reads_told (.inl ⟨between, rfl⟩) ample'
      change ReadsToEof readEnv caps log.begin outcomes last at reads
      have asked : ∀ op ∈ last.ops, op.id ∈ (T :: rest).flatMap Tape.ids := by
        have start : Confined (· ∈ (T :: rest).flatMap Tape.ids) [] log.begin := by
          refine ⟨fun id mem => ?_, [], rfl, by simp⟩
          rw [Scene.held, between.closed, between.pending] at mem
          exact mem
        obtain ⟨more, same, asked⟩ := (readCalls_confined readEnv caps (outcomes.length + 1) start).asked
        rw [reads.run] at same
        exact same ▸ asked
      obtain ⟨front, U, later, i, cut, split, reached⟩ := told.reached (Nat.zero_le _)
      rw [List.take_zero, List.map_nil, List.nil_append] at reached
      refine ⟨outcomes, last, reads, _, cut, reached.told, ?_⟩
      have cuts' := split ▸ cuts
      refine ⟨?_, reached.cut_next cuts', ?_, ?_⟩
      · obtain ⟨more, records⟩ := cuts'.exists_later
        rw [records]
        exact script_prefix (List.take_prefix _ _)
      · intro k σ n strandAt index written
        obtain ⟨W, tapeAt, same, stored⟩ := along.stored inTurn left final cuts ids strandAt index written
        rw [← same] at index ⊢
        exact reached.tells split cuts tapeAt index stored
      · intro k σ next
        rw [cuts'.tells_end_iff next, accepted_iff reached split asked next]

end Live

/-- A reader that works alongside the last of a log's writers, which meets no
error and is not told to clear the log, is told the beginning of what was
written and no more than that the next record is cut short. -/
theorem read_alongside {env : WriteEnv} {dir : Dir} {lives : List Life} {life : Life}
    {namePrefix nameSuffix : Bytes} (wrote : Wrote env dir (lives ++ [life]) namePrefix nameSuffix)
    (keeps : .clear ∉ life.calls) {events listed : List WriteEvent} {view : Dir} {readEnv : ReadEnv}
    {moments : Nat → List WriteEvent}
    (did : (Trail.run env dir (lives ++ [life])).state.events = (Trail.run env dir lives).state.events ++ events)
    (along : Alongside ((Trail.run env dir lives).state.dir.files namePrefix nameSuffix) events namePrefix
      nameSuffix view readEnv listed moments)
    {isDir : Bool} {log : LogRead} (isNew : LogRead.new isDir (some view) namePrefix nameSuffix = .ok log)
    {caps : Nat → Nat} (ample : Ample caps (Trail.run env dir (lives ++ [life])).journal.records) :
    ∃ L, OnDisk ((Trail.run env dir (lives ++ [life])).state.dir.files namePrefix nameSuffix) L ∧
      Faithful L (Trail.run env dir (lives ++ [life])).journal ∧
      ∃ outcomes last, ReadsToEof readEnv caps log.begin outcomes last ∧
        ∃ told cut, outcomes = told ++ cut ∧
          ToldLive L (view.files namePrefix nameSuffix) (Accepts readEnv namePrefix nameSuffix last.ops)
            told cut := by
  obtain ⟨L, left⟩ := Trail.run_left wrote.leaves wrote.empty wrote.names wrote.clean
  refine ⟨L, left.disk, left.faithful, ?_⟩
  obtain ⟨rfl, rfl⟩ := wrote.names life (by simp)
  have clean := wrote.clean
  have split : Trail.run env dir (lives ++ [life]) = (Trail.run env dir lives).live env life :=
    List.foldl_concat _ _ _ _
  rw [split] at clean did left ample
  rw [← left.faithful.records] at ample
  cases ran : (LogWrite.new env life.args).run (Trail.run env dir lives).state with
  | error stop t =>
      rw [Trail.live_of_error ran] at clean
      have stopped := clean (.opened life.args (some stop)) (by simp)
      simp [Deed.stop] at stopped
  | ok a t =>
      obtain ⟨more, adds, inTurn, final⟩ := live_inTurn wrote.leaves ran keeps
      obtain rfl := List.append_cancel_left (did.symm.trans adds)
      exact along.toldLive inTurn left final isNew ample

namespace Sample

/-- A directory after an event, a file handed over being left in place. -/
def change (namePrefix nameSuffix : Bytes) (dir : Dir) : WriteEvent → Dir
  | .created id => dir.insert (buildName namePrefix id nameSuffix) []
  | .appended id bytes => appendTo (buildName namePrefix id nameSuffix) bytes dir
  | .removed id => dir.erase (buildName namePrefix id nameSuffix)
  | _ => dir

theorem files_foldl_change {namePrefix nameSuffix : Bytes} (dir : Dir) (events : List WriteEvent) :
    (events.foldl (change namePrefix nameSuffix) dir).files namePrefix nameSuffix =
      filesAfter (dir.files namePrefix nameSuffix) events := by
  induction events generalizing dir with
  | nil => rfl
  | cons event events ih =>
      rw [List.foldl_cons, ih, filesAfter, filesAfter, List.foldl_cons]
      congr 1
      cases event with
      | created id => exact Dir.files_insert
      | appended id bytes => exact Dir.files_append id bytes
      | removed id => exact Dir.files_erase
      | _ => rfl

/-- The header of a file of the second session. -/
def header (id : SegId) (remaining : UInt64) (sequence : SeqId) : Bytes :=
  (SegmentHeader.mk id 1013 60 remaining .variableSimple sequence 1).toBytes

/-- What the writer of the second session does. -/
def written : List WriteEvent :=
  [.sent 1002, .sent 1011, .created 1013, .appended 1013 (header 1013 0 0), .appended 1013 [0, 0, 0, 0],
    .completed 1013, .flushed 1013, .appended 1013 [1, 0, 0], .flushed 1013, .sent 1013, .created 1022,
    .appended 1022 (header 1022 2 1), .appended 1022 [0], .appended 1022 [4], .completed 1022, .flushed 1022,
    .sent 1022]

/-- In the middle of the append of a file's header. -/
def listedAt : List WriteEvent :=
  [.sent 1002, .sent 1011, .created 1013, .appended 1013 ((header 1013 0 0).take 20)]

/-- In the middle of the append of a record. -/
def readAt : List WriteEvent :=
  [.sent 1002, .sent 1011, .created 1013, .appended 1013 (header 1013 0 0), .appended 1013 [0, 0, 0, 0],
    .completed 1013, .flushed 1013, .appended 1013 [1, 0]]

def before : Dir :=
  (Trail.run env ∅ lives).state.dir

def listedDir : Dir :=
  listedAt.foldl (change [] []) before

def readDir : Dir :=
  readAt.foldl (change [] []) before

theorem alongside : Alongside (before.files [] []) written [] [] listedDir (.still readDir noFault true) listedAt
    fun _ => readAt where
  noFault _ := rfl
  view := files_foldl_change _ _
  shows _ := files_foldl_change _ _
  begins _ := .cons _ (.cons _ (.cons _ (.part (List.take_prefix _ _) _)))
  ascends _ := .refl _
  within _ := .cons _ (.cons _ (.cons _ (.cons _ (.cons _ (.cons _ (.cons _ (.part ⟨[0], rfl⟩ _)))))))

end Sample

theorem read_alongside_sample :
    ∃ L, OnDisk ((Trail.run Sample.env ∅ Sample.sessions).state.dir.files [] []) L ∧
      Faithful L (Trail.run Sample.env ∅ Sample.sessions).journal ∧
      ∃ outcomes last, ReadsToEof (.still Sample.readDir noFault true) (fun _ => 2)
          (Sample.reader [1002, 1011, 1013]).begin outcomes last ∧
        ∃ told cut, outcomes = told ++ cut ∧ ToldLive L (Sample.listedDir.files [] [])
          (Accepts (.still Sample.readDir noFault true) [] [] last.ops) told cut :=
  read_alongside Sample.sessions_wrote (by decide)
    (show _ = (Trail.run Sample.env ∅ Sample.lives).state.events ++ Sample.written by decide +kernel)
    Sample.alongside (show LogRead.new true _ [] [] = .ok (Sample.reader [1002, 1011, 1013]) by decide +kernel)
    (fun _ => (by decide +kernel : ∀ record ∈ (Trail.run Sample.env ∅ Sample.sessions).journal.records,
      record.payload.length ≤ 2))

end Tcslog
