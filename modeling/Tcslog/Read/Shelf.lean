import Tcslog.Tape
import Tcslog.Read.Crossing

/-!
# Sessions that are found as they were written

A shelf is a row of tapes together with the surroundings of one reader that
listed their files: no request fails, and every file shows what was written to
it, the last one a front of it that may still grow.  This module says what
opening its files comes to.
-/

namespace Tcslog

open Lib.Program

/-- Tapes in a row, and the surroundings in which one reader meets them. -/
structure Shelf where
  env : ReadEnv
  namePrefix : Bytes
  nameSuffix : Bytes
  tapes : List Tape
  /-- So many bytes of the last file are there from the beginning. -/
  floor : Nat
  noFault : ∀ t, env.fault t = false
  sorted : (tapes.flatMap Tape.ids).Pairwise (· < ·)
  apart : tapes.IsChain fun T U => T.sessionId ≠ U.sessionId
  full : ∀ T ∈ tapes.dropLast, T.Full
  shows : ∀ T ∈ tapes, ∀ j id, T.ids[j]? = some id → ∀ t, ∃ n ≤ (T.file j id).length,
    (env.dir t).lookup (buildName namePrefix id nameSuffix) = some ((T.file j id).take n) ∧
      (id ∈ (tapes.flatMap Tape.ids).dropLast → n = (T.file j id).length) ∧
      (id ∉ (tapes.flatMap Tape.ids).dropLast → floor ≤ n)

namespace Shelf

variable (S : Shelf)

/-- The files of the shelf, oldest first. -/
def listing : List SegId :=
  S.tapes.flatMap Tape.ids

def name (id : SegId) : Bytes :=
  buildName S.namePrefix id S.nameSuffix

/-- The files after file `j` of a tape, those of the tapes after it included. -/
def after (T : Tape) (rest : List Tape) (j : Nat) : List SegId :=
  T.ids.drop (j + 1) ++ rest.flatMap Tape.ids

/-- `id` is file `j` of a tape of the shelf, and these are the tapes after it. -/
structure FileAt (T : Tape) (rest : List Tape) (j : Nat) (id : SegId) : Prop where
  place : T :: rest <:+ S.tapes
  idAt : T.ids[j]? = some id

/-- From request `t₀` on the file shows `c` bytes of its data section. -/
structure Seen (t₀ : Nat) (T : Tape) (j : Nat) (id : SegId) (c : Nat) : Prop where
  within : c ≤ (T.data j).length
  whole : id ∈ S.listing.dropLast → c = (T.data j).length
  floor : id ∉ S.listing.dropLast → S.floor ≤ segmentFileHeaderLen + c
  present : ∀ t, t₀ ≤ t → ∃ content, (S.env.dir t).lookup (S.name id) = some content ∧
    (T.file j id).take (segmentFileHeaderLen + c) <+: content

/-- Before request `n` none of these files showed a whole header. -/
def Headless (ids : List SegId) (n : Nat) : Prop :=
  ∀ id ∈ ids, ∀ t < n, ∀ content, (S.env.dir t).lookup (S.name id) = some content →
    content.length < segmentFileHeaderLen

/-- A whole header of one of these files was read. -/
def HeaderRead (ids : List SegId) (ops : List ReadOp) : Prop :=
  ∃ id ∈ ids, ∃ t content, ops[t]? = some ⟨.readHeader, id⟩ ∧
    (S.env.dir t).lookup (S.name id) = some content ∧ segmentFileHeaderLen ≤ content.length

/-- The scene's names are the reader's. -/
structure Named (s : ReadState) : Prop where
  namePrefix : s.namePrefix = S.namePrefix
  nameSuffix : s.nameSuffix = S.nameSuffix

/-- The segment a freshly opened file becomes. -/
def opened (T : Tape) (j : Nat) (id : SegId) (c : Nat) : Segment :=
  ⟨id, T.header j id, c, 0, segmentFileHeaderLen⟩

variable {S} {T : Tape} {rest : List Tape} {j : Nat} {id : SegId} {s s' : ReadState}

theorem Seen.mono {t₀ t₁ c : Nat} (seen : S.Seen t₀ T j id c) (le : t₀ ≤ t₁) : S.Seen t₁ T j id c :=
  ⟨seen.within, seen.whole, seen.floor, fun t later => seen.present t (le.trans later)⟩

theorem HeaderRead.mono {ids : List SegId} {ops ops' : List ReadOp} (headerRead : S.HeaderRead ids ops)
    (grew : ops <+: ops') : S.HeaderRead ids ops' := by
  obtain ⟨id, mem, t, content, opAt, present, long⟩ := headerRead
  obtain ⟨rest, rfl⟩ := grew
  refine ⟨id, mem, t, content, ?_, present, long⟩
  rw [List.getElem?_append_left (List.getElem?_eq_some_iff.mp opAt).1, opAt]

theorem Named.of_onlyAsked (named : S.Named s) (asked : OnlyAsked s s') : S.Named s' := by
  rw [asked.same]
  exact ⟨named.namePrefix, named.nameSuffix⟩

theorem FileAt.mem (fileAt : S.FileAt T rest j id) : T ∈ S.tapes :=
  fileAt.place.mem List.mem_cons_self

theorem FileAt.lt (fileAt : S.FileAt T rest j id) : j < T.ids.length :=
  (List.getElem?_eq_some_iff.mp fileAt.idAt).1

/-- A header read of a file is one of its tape. -/
theorem FileAt.headerRead {ops : List ReadOp} (fileAt : S.FileAt T rest j id)
    (headerRead : S.HeaderRead [id] ops) : ∀ U ∈ (T :: rest).head?, S.HeaderRead U.ids ops := by
  rintro _ ⟨⟩
  obtain ⟨id', mem, read⟩ := headerRead
  rw [List.mem_singleton.mp mem] at read
  exact ⟨id, List.mem_of_getElem? fileAt.idAt, read⟩

/-- A file stands between those before and those after it. -/
theorem FileAt.listing_eq (fileAt : S.FileAt T rest j id) :
    ∃ front, S.listing = front ++ id :: after T rest j := by
  obtain ⟨earlier, split⟩ := fileAt.place
  obtain ⟨within, isId⟩ := List.getElem?_eq_some_iff.mp fileAt.idAt
  refine ⟨earlier.flatMap Tape.ids ++ T.ids.take j, ?_⟩
  have cut : T.ids = T.ids.take j ++ id :: T.ids.drop (j + 1) := by
    rw [← isId, List.cons_getElem_drop_succ, List.take_append_drop]
  rw [listing, ← split, List.flatMap_append, List.flatMap_cons, after]
  conv_lhs => rw [cut]
  simp only [List.append_assoc, List.cons_append]

/-- Exactly the last file of the shelf has none after it. -/
theorem FileAt.mem_dropLast_iff (fileAt : S.FileAt T rest j id) :
    id ∈ S.listing.dropLast ↔ after T rest j ≠ [] := by
  obtain ⟨front, split⟩ := fileAt.listing_eq
  have sorted : S.listing.Pairwise (· < ·) := S.sorted
  rw [split] at sorted ⊢
  constructor
  · intro mem noMore
    rw [noMore, List.dropLast_concat] at mem
    exact UInt64.lt_irrefl _ ((List.pairwise_append.mp sorted).2.2 id mem id (by rw [noMore]; simp))
  · intro more
    rw [List.dropLast_append_of_ne_nil (List.cons_ne_nil _ _), List.dropLast_cons_of_ne_nil more]
    simp

/-- The next file of the same tape comes after the one before it. -/
theorem FileAt.after_eq {id' : SegId} (next : S.FileAt T rest (j + 1) id') :
    after T rest j = id' :: after T rest (j + 1) := by
  obtain ⟨within, isId⟩ := List.getElem?_eq_some_iff.mp next.idAt
  rw [after, after, ← isId, ← List.cons_getElem_drop_succ (h := within), List.cons_append]

/-- After the last file of a tape come those of the next tape. -/
theorem after_of_last (last : j + 1 = T.ids.length) : after T rest j = rest.flatMap Tape.ids := by
  rw [after, List.drop_eq_nil_of_le last.ge, List.nil_append]

/-! ## Single requests -/

theorem perform_spec (request : ReadRequest) (id : SegId) (named : S.Named s) :
    Meets (perform S.env request id) s
      (fun found s' => OnlyAsked s s' ∧ found = (S.env.dir s.ops.length).lookup (S.name id) ∧
        s'.ops = s.ops ++ [⟨request, id⟩])
      (fun _ _ => False) := by
  simp only [perform, meets_bind, meets_get, meets_set, meets_pure]
  refine ⟨⟨rfl, List.prefix_append _ _⟩, ?_, trivial⟩
  rw [S.noFault, if_neg Bool.false_ne_true, name, named.namePrefix, named.nameSuffix]

/-- A front of a file that holds its header is accepted. -/
theorem fromBytes_take {n : Nat} (T : Tape) (j : Nat) (id : SegId) (long : segmentFileHeaderLen ≤ n) :
    SegmentHeader.fromBytes (((T.file j id).take n).take segmentFileHeaderLen) = .ok (T.header j id) := by
  obtain ⟨c, rfl⟩ := Nat.exists_eq_add_of_le long
  exact T.fromBytes_file j id c

/-- A file of the shelf is opened as it is seen, unless its header is not all
there yet. -/
theorem openValidated_spec (fileAt : S.FileAt T rest j id) (named : S.Named s) :
    Meets (openValidated S.env id) s
      (fun found s' => OnlyAsked s s' ∧
        (found = none → after T rest j = [] ∧ S.floor < segmentFileHeaderLen ∧
          S.Headless [id] s'.ops.length) ∧
        ∀ segment, found = some segment →
          ∃ c, S.Seen s'.ops.length T j id c ∧ segment = opened T j id c ∧ S.HeaderRead [id] s'.ops)
      (fun _ _ => False) := by
  have shown (t : Nat) := S.shows T fileAt.mem j id fileAt.idAt t
  have length := T.length_file j id
  have fits : ¬ (T.header j id).maxSize.toNat < (T.file j id).length := by
    have := T.dataSection_add
    have := T.length_data_le j
    change ¬ T.maxSize.toNat < _
    omega
  simp only [openValidated, meets_bind]
  refine (perform_spec .openFile id named).imp ?_ fun _ _ impossible => impossible
  rintro found s₁ ⟨asked₁, rfl, _⟩
  obtain ⟨n₁, _, present₁, _⟩ := shown s.ops.length
  rw [show S.name id = buildName S.namePrefix id S.nameSuffix from rfl, present₁]
  simp only [meets_bind]
  refine (perform_spec .measure id (named.of_onlyAsked asked₁)).imp ?_ fun _ _ impossible => impossible
  rintro measured s₂ ⟨asked₂, rfl, one₂⟩
  obtain ⟨n₂, le₂, present₂, whole, floor⟩ := shown s₁.ops.length
  have measures : ((T.file j id).take n₂).length = n₂ := by rw [List.length_take, Nat.min_eq_left le₂]
  rw [show S.name id = buildName S.namePrefix id S.nameSuffix from rfl, present₂]
  simp only [meets_ite, meets_pure, measures]
  refine ⟨fun short => ⟨asked₁.trans asked₂, fun _ => ?_, by simp⟩, fun long => ?_⟩
  · have notWhole : id ∉ S.listing.dropLast := fun mem => by
      have := whole mem
      omega
    refine ⟨?_, Nat.lt_of_le_of_lt (floor notWhole) short, fun id' mem t before content present => ?_⟩
    · by_contra more
      exact notWhole (fileAt.mem_dropLast_iff.mpr more)
    · obtain rfl := List.mem_singleton.mp mem
      have le : t ≤ s₁.ops.length := by
        rw [one₂, List.length_append] at before
        exact Nat.le_of_lt_succ before
      obtain ⟨later, there, grew⟩ := S.env.grows le present
      obtain rfl := Option.some.inj (present₂.symm.trans there)
      exact Nat.lt_of_le_of_lt (grew.length_le.trans_eq measures) short
  rw [Nat.not_lt] at long
  obtain ⟨c, rfl⟩ := Nat.exists_eq_add_of_le long
  simp only [meets_bind]
  refine (perform_spec .readHeader id ((named.of_onlyAsked asked₁).of_onlyAsked asked₂)).imp ?_
    fun _ _ impossible => impossible
  rintro content s₃ ⟨asked₃, rfl, one₃⟩
  have asked := (asked₁.trans asked₂).trans asked₃
  -- The header is read from what was measured, which only grew.
  obtain ⟨n₃, _, present₃, _⟩ := shown s₂.ops.length
  obtain ⟨content, grown, grew⟩ := S.env.grows asked₂.asked.length_le present₂
  obtain rfl := Option.some.inj (present₃.symm.trans grown)
  have long₃ : segmentFileHeaderLen ≤ n₃ := by
    have := grew.length_le
    rw [measures, List.length_take] at this
    omega
  rw [show S.name id = buildName S.namePrefix id S.nameSuffix from rfl, present₃]
  simp only [fromBytes_take T j id long₃, meets_ite, meets_pure]
  refine ⟨fun differs => absurd rfl differs, fun _ => ⟨fun tooLong => ?_, fun _ => ⟨asked, by simp, ?_⟩⟩⟩
  · exact absurd (tooLong.trans_le le₂) fits
  · rintro segment isSegment
    obtain rfl := Option.some.inj isSegment
    refine ⟨c, ⟨by omega, fun mem => ?_, floor, fun t later => ?_⟩, by simp [opened],
      id, List.mem_singleton_self id, s₂.ops.length, _, by rw [one₃]; simp, present₃, ?_⟩
    · have := whole mem
      omega
    · exact S.env.grows ((asked₂.trans asked₃).asked.length_le.trans later) present₂
    · have := T.length_file j id
      rw [List.length_take]
      omega

/-- What opening the next file of the shelf comes to. -/
inductive Opening (S : Shelf) (s : ReadState) (T : Tape) (rest : List Tape) (j : Nat) (id : SegId) :
    Except LogError Bool → ReadState → Prop
  /-- The file is opened. -/
  | accepted {s' : ReadState} {c : Nat} (seen : S.Seen s'.ops.length T j id c)
      (session : s.session = none ∨ s.session = some T.sessionId)
      (result : s' = { s with
        toLogRead := { s.toLogRead with pending := after T rest j }.adopt (opened T j id c)
        ops := s'.ops }) : Opening S s T rest j id (.ok true) s'
  /-- The file is the last one, and its header is not all there. -/
  | refused {s' : ReadState} (noMore : after T rest j = []) (unseen : S.floor < segmentFileHeaderLen)
      (headless : S.Headless [id] s'.ops.length)
      (result : s' = { s with pending := [], ops := s'.ops }) : Opening S s T rest j id (.ok false) s'
  /-- The file is of another session. -/
  | boundary {s' : ReadState} (session : s.session ≠ none) (differs : s.session ≠ some T.sessionId)
      (headerRead : S.HeaderRead [id] s'.ops)
      (result : s' = { s with session := none, prevSeq := none, recovery := none, ops := s'.ops }) :
      Opening S s T rest j id (.error .sessionEnd) s'

theorem openNext_spec (fileAt : S.FileAt T rest j id) (named : S.Named s)
    (pending : s.pending = id :: after T rest j) :
    Meets (openNext S.env) s (fun isOpen s' => s.ops <+: s'.ops ∧ S.Opening s T rest j id (.ok isOpen) s')
      (fun stop s' => s.ops <+: s'.ops ∧ stop = .error .sessionEnd ∧
        S.Opening s T rest j id (.error .sessionEnd) s') := by
  have named' : S.Named { s with pending := after T rest j } := ⟨named.namePrefix, named.nameSuffix⟩
  simp only [openNext, meets_bind, meets_get, pending, openNextOf, meets_modify]
  refine (openValidated_spec fileAt named').imp ?_ fun _ _ impossible => impossible.elim
  rintro found t ⟨asked, refuses, accepts⟩
  cases found with
  | none =>
      obtain ⟨noMore, unseen, headless⟩ := refuses rfl
      simp only [noMore, openNextOf, meets_bind, meets_modify, meets_pure]
      refine ⟨asked.asked, .refused noMore unseen headless ?_⟩
      rw [asked.same]
  | some segment =>
      obtain ⟨c, seen, rfl, headerRead⟩ := accepts segment rfl
      have session : t.session = s.session := by rw [asked.same]
      simp only [meets_bind, meets_get, meets_ite, meets_set, meets_fail, meets_pure, session]
      refine ⟨fun differs => ⟨asked.asked, trivial, ?_⟩, fun agrees => ⟨asked.asked, ?_⟩⟩
      · cases at_ : s.session with
        | none => simp [at_] at differs
        | some sid =>
            have other : sid ≠ (opened T j id c).header.sessionId := by simpa [at_] using differs
            have other' : some sid ≠ some T.sessionId := fun same => other (Option.some.inj same)
            refine .boundary (by simp [at_]) (at_ ▸ other') headerRead ?_
            rw [asked.same]
            simp [← pending]
      · refine .accepted seen ?_ (by rw [asked.same])
        cases at_ : s.session with
        | none => exact .inl rfl
        | some sid =>
            have same : sid = (opened T j id c).header.sessionId := by simpa [at_] using agrees
            exact .inr (congrArg some same)

/-- Where no file is left none is opened. -/
theorem openNext_nil (env : ReadEnv) (pending : s.pending = []) :
    Meets (openNext env) s (fun isOpen s' => isOpen = false ∧ s' = s) (fun _ _ => False) := by
  simp only [openNext, meets_bind, meets_get, pending, openNextOf, meets_modify, meets_pure]
  refine ⟨trivial, ?_⟩
  rw [← pending]

end Shelf

end Tcslog
