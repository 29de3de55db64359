import Tcslog.Layout
import Tcslog.Read.Calls

/-!
# What a reader may find

A scene is a log together with the surroundings of one reader: the identifiers
it listed, and at every later moment, under each listed name, either nothing,
or something that fails validation, or the front of the log's file of that
name.  The trace of the reader's requests then tells which bytes it was denied:
a byte is hidden when its file was not listed, when a request about the file
failed or found nothing of the log, or when the file was measured before the
byte.
-/

namespace Tcslog

open Lib.Program Lib.Spanned

/-- The header of a file's content that passes every check made on opening. -/
def validate (id : SegId) (content : Bytes) : Option SegmentHeader :=
  if content.length < segmentFileHeaderLen then none
  else
    match SegmentHeader.fromBytes (content.take segmentFileHeaderLen) with
    | .error _ => none
    | .ok header =>
        if header.segmentId ≠ id ∨ header.maxSize.toNat < content.length then none
        else some header

/-- The front of a log's file is accepted whole header and all. -/
theorem validate_file {σ : Strand} {j c : Nat} (id : SegId) (within : c ≤ (σ.data j).length) :
    validate id ((σ.file j id).take (segmentFileHeaderLen + c)) = some (σ.header j id) := by
  have len := Strand.length_take_file id within
  have fits : ¬ (σ.header j id).maxSize.toNat < segmentFileHeaderLen + c := by
    have := σ.dataSection_add
    have := σ.length_data_le j
    simp only [Strand.header]
    omega
  rw [validate, len, if_neg (by omega), Strand.fromBytes_file]
  simp only [fits, or_false]
  rw [if_neg (fun differs => differs rfl)]

/-- A log and the surroundings in which one reader meets it. -/
structure Scene where
  env : ReadEnv
  log : Log
  namePrefix : Bytes
  nameSuffix : Bytes
  listing : List SegId
  sorted : listing.Pairwise (· < ·)
  shows : ∀ {t id content}, id ∈ listing →
    (env.dir t).lookup (buildName namePrefix id nameSuffix) = some content →
    validate id content = none ∨ ∃ k j σ c, log.FileAt k j σ id ∧ c ≤ (σ.data j).length ∧
      content = (σ.file j id).take (segmentFileHeaderLen + c)

namespace Scene

variable (S : Scene)

def name (id : SegId) : Bytes :=
  buildName S.namePrefix id S.nameSuffix

/-- At request `t` the file `id` shows `c` bytes of file `j` of strand `k`. -/
structure Sight (t : Nat) (id : SegId) (k j : Nat) (σ : Strand) (c : Nat) : Prop where
  fileAt : S.log.FileAt k j σ id
  within : c ≤ (σ.data j).length
  content : (S.env.dir t).lookup (S.name id) =
    some ((σ.file j id).take (segmentFileHeaderLen + c))

/-- A request about the file failed, or found nothing of the log there. -/
def Missed (ops : List ReadOp) (id : SegId) : Prop :=
  ∃ t op, ops[t]? = some op ∧ op.id = id ∧
    (S.env.fault t = true ∨ ∀ k j σ c, ¬ S.Sight t id k j σ c)

/-- A request about the file found `c` bytes of file `j` of strand `k`. -/
def Measured (ops : List ReadOp) (id : SegId) (k j : Nat) (σ : Strand) (c : Nat) : Prop :=
  ∃ t op, ops[t]? = some op ∧ op.id = id ∧ S.Sight t id k j σ c

/-- The reader was denied the byte at position `q` of a strand. -/
def Hidden (ops : List ReadOp) (k : Nat) (σ : Strand) (q : Nat) : Prop :=
  ∀ id, σ.ids[q / σ.dataSection]? = some id →
    id ∉ S.listing ∨ S.Missed ops id ∨
      ∃ c, c ≤ q % σ.dataSection ∧ S.Measured ops id k (q / σ.dataSection) σ c

/-- Some byte of record `i` of a strand was denied the reader. -/
def Lost (ops : List ReadOp) (k : Nat) (σ : Strand) (i : Nat) : Prop :=
  ∃ q, σ.start i ≤ q ∧ q < σ.start (i + 1) ∧ S.Hidden ops k σ q

variable {S}

/-- A longer trace has the same evidence and more. -/
theorem getElem?_of_prefix {ops ops' : List ReadOp} (grew : ops <+: ops') {t : Nat} {op : ReadOp}
    (at_ : ops[t]? = some op) : ops'[t]? = some op := by
  obtain ⟨rest, rfl⟩ := grew
  rw [List.getElem?_append_left (List.getElem?_eq_some_iff.mp at_).1, at_]

theorem Missed.mono {ops ops' : List ReadOp} {id : SegId} (missed : S.Missed ops id)
    (grew : ops <+: ops') : S.Missed ops' id := by
  obtain ⟨t, op, opAt, about, why⟩ := missed
  exact ⟨t, op, getElem?_of_prefix grew opAt, about, why⟩

theorem Measured.mono {ops ops' : List ReadOp} {id : SegId} {k j c : Nat} {σ : Strand}
    (measured : S.Measured ops id k j σ c) (grew : ops <+: ops') :
    S.Measured ops' id k j σ c := by
  obtain ⟨t, op, opAt, about, sight⟩ := measured
  exact ⟨t, op, getElem?_of_prefix grew opAt, about, sight⟩

theorem Measured.fileAt {ops : List ReadOp} {id : SegId} {k j c : Nat} {σ : Strand}
    (measured : S.Measured ops id k j σ c) : S.log.FileAt k j σ id := by
  obtain ⟨_, _, _, _, sight⟩ := measured
  exact sight.fileAt

theorem Measured.within {ops : List ReadOp} {id : SegId} {k j c : Nat} {σ : Strand}
    (measured : S.Measured ops id k j σ c) : c ≤ (σ.data j).length := by
  obtain ⟨_, _, _, _, sight⟩ := measured
  exact sight.within

theorem Hidden.mono {ops ops' : List ReadOp} {k : Nat} {σ : Strand} {q : Nat}
    (hidden : S.Hidden ops k σ q) (grew : ops <+: ops') : S.Hidden ops' k σ q := by
  intro id idAt
  rcases hidden id idAt with absent | missed | ⟨c, le, measured⟩
  · exact .inl absent
  · exact .inr (.inl (missed.mono grew))
  · exact .inr (.inr ⟨c, le, measured.mono grew⟩)

theorem Lost.mono {ops ops' : List ReadOp} {k : Nat} {σ : Strand} {i : Nat}
    (lost : S.Lost ops k σ i) (grew : ops <+: ops') : S.Lost ops' k σ i := by
  obtain ⟨q, from_, before, hidden⟩ := lost
  exact ⟨q, from_, before, hidden.mono grew⟩

/-- Whatever a listed file shows and passes validation is the log's. -/
theorem sight_of_validate {t : Nat} {id : SegId} {content : Bytes} {header : SegmentHeader}
    (listed : id ∈ S.listing) (found : (S.env.dir t).lookup (S.name id) = some content)
    (accepted : validate id content = some header) :
    ∃ k j σ c, S.Sight t id k j σ c ∧ header = σ.header j id ∧
      content.length = segmentFileHeaderLen + c := by
  rcases S.shows listed found with refused | ⟨k, j, σ, c, fileAt, within, rfl⟩
  · rw [refused] at accepted
    contradiction
  · rw [validate_file _ within] at accepted
    exact ⟨k, j, σ, c, ⟨fileAt, within, found⟩, (Option.some.inj accepted).symm,
      Strand.length_take_file _ within⟩

/-! ## Single requests -/

/-- The scene's names are the reader's. -/
structure Named (S : Scene) (s : ReadState) : Prop where
  namePrefix : s.namePrefix = S.namePrefix
  nameSuffix : s.nameSuffix = S.nameSuffix

theorem Named.of_onlyAsked {s s' : ReadState} (named : S.Named s) (asked : OnlyAsked s s') :
    S.Named s' := by
  rw [asked.same]
  exact ⟨named.namePrefix, named.nameSuffix⟩

theorem perform_spec (request : ReadRequest) (id : SegId) {s : ReadState} (named : S.Named s) :
    Meets (perform S.env request id) s
      (fun found s' => OnlyAsked s s' ∧ s'.ops = s.ops ++ [⟨request, id⟩] ∧
        found = if S.env.fault s.ops.length then none
          else (S.env.dir s.ops.length).lookup (S.name id))
      (fun _ _ => False) := by
  simp only [perform, meets_bind, meets_get, meets_set, meets_pure]
  refine ⟨⟨rfl, List.prefix_append _ _⟩, trivial, ?_⟩
  rw [name, named.namePrefix, named.nameSuffix]

/-- A request that finds nothing, or nothing valid, misses the file. -/
theorem missed_of_refused {ops : List ReadOp} {request : ReadRequest} {id : SegId}
    (nothing : S.env.fault ops.length = true ∨
      ∀ content, (S.env.dir ops.length).lookup (S.name id) = some content →
        validate id content = none) :
    S.Missed (ops ++ [⟨request, id⟩]) id := by
  refine ⟨ops.length, ⟨request, id⟩, by simp, rfl, nothing.imp_right fun refused => ?_⟩
  intro k j σ c sight
  have none := refused _ sight.content
  rw [validate_file _ sight.within] at none
  contradiction

theorem missed_of_none {ops : List ReadOp} {request : ReadRequest} {id : SegId}
    (found : none = if S.env.fault ops.length then none
      else (S.env.dir ops.length).lookup (S.name id)) :
    S.Missed (ops ++ [⟨request, id⟩]) id := by
  split at found
  next fault => exact missed_of_refused (.inl fault)
  next => exact missed_of_refused (.inr fun content present => by simp [← found] at present)

/-- The request that led from `s` to `s'` found nothing, or failed. -/
structure Refused (S : Scene) (s s' : ReadState) (id : SegId) : Prop where
  asked : OnlyAsked s s'
  last : ∃ request, s'.ops = s.ops ++ [⟨request, id⟩]
  found : none = if S.env.fault s.ops.length then none
    else (S.env.dir s.ops.length).lookup (S.name id)

theorem Refused.missed {s s' : ReadState} {id : SegId} (refused : S.Refused s s' id) :
    S.Missed s'.ops id := by
  obtain ⟨request, ops⟩ := refused.last
  exact ops ▸ missed_of_none refused.found

theorem lookup_of_some {t : Nat} {id : SegId} {content : Bytes}
    (found : some content = if S.env.fault t then none else (S.env.dir t).lookup (S.name id)) :
    (S.env.dir t).lookup (S.name id) = some content := by
  split at found
  · contradiction
  · exact found.symm

/-- Opening a listed file gives the log's file as it was measured, or misses
it. -/
theorem openValidated_spec {id : SegId} (listed : id ∈ S.listing) {s : ReadState}
    (named : S.Named s) :
    Meets (openValidated S.env id) s
      (fun found s' => OnlyAsked s s' ∧
        match found with
        | none => S.Missed s'.ops id
        | some segment => ∃ k j σ c, S.Measured s'.ops id k j σ c ∧
            segment = ⟨id, σ.header j id, c, 0, segmentFileHeaderLen⟩)
      (fun _ _ => False) := by
  simp only [openValidated, meets_bind]
  refine (perform_spec .openFile id named).imp ?_ (by simp)
  rintro opened s₁ ⟨asked₁, ops₁, found₁⟩
  cases opened with
  | none => exact ⟨asked₁, ops₁ ▸ missed_of_none found₁⟩
  | some _ =>
  simp only [meets_bind]
  have named₁ := named.of_onlyAsked asked₁
  refine (perform_spec .measure id named₁).imp ?_ (by simp)
  rintro measured s₂ ⟨asked₂, ops₂, found₂⟩
  cases measured with
  | none => exact ⟨asked₁.trans asked₂, ops₂ ▸ missed_of_none found₂⟩
  | some measured =>
  have present₂ := lookup_of_some found₂
  have missed₂ (refused : validate id measured = none) : S.Missed s₂.ops id := by
    refine ops₂ ▸ missed_of_refused (.inr fun content present => ?_)
    rwa [← Option.some.inj (present₂.symm.trans present)]
  simp only [meets_ite, meets_pure]
  refine ⟨fun short => ⟨asked₁.trans asked₂, missed₂ (if_pos short)⟩, fun long => ?_⟩
  simp only [meets_bind]
  have named₂ := named₁.of_onlyAsked asked₂
  refine (perform_spec .readHeader id named₂).imp ?_ (by simp)
  rintro content s₃ ⟨asked₃, ops₃, found₃⟩
  have asked := (asked₁.trans asked₂).trans asked₃
  cases content with
  | none => exact ⟨asked, ops₃ ▸ missed_of_none found₃⟩
  | some content =>
  have present₃ := lookup_of_some found₃
  have missed₃ (refused : validate id content = none) : S.Missed s₃.ops id := by
    refine ops₃ ▸ missed_of_refused (.inr fun content' present => ?_)
    rwa [← Option.some.inj (present₃.symm.trans present)]
  -- The header read is that of the content measured, which only grew.
  have grew : measured <+: content := by
    obtain ⟨content', present, grew⟩ := S.env.grows asked₂.asked.length_le present₂
    rwa [Option.some.inj (present.symm.trans present₃)] at grew
  have front : content.take segmentFileHeaderLen = measured.take segmentFileHeaderLen := by
    obtain ⟨rest, rfl⟩ := grew
    exact List.take_append_of_le_length (by omega)
  have long₃ : ¬ content.length < segmentFileHeaderLen := by
    have := grew.length_le
    omega
  dsimp only
  split
  next decoded =>
    refine ⟨asked, missed₃ ?_⟩
    rw [validate, if_neg long₃, decoded]
  next header decoded =>
  simp only [meets_ite, meets_pure]
  refine ⟨fun wrongId => ⟨asked, missed₃ ?_⟩, fun rightId => ⟨fun tooLong => ⟨asked, ?_⟩,
    fun fits => ⟨asked, ?_⟩⟩⟩
  · rw [validate, if_neg long₃, decoded]
    exact if_pos (.inl wrongId)
  · refine (missed₂ ?_).mono asked₃.asked
    rw [validate, if_neg long, ← front, decoded]
    exact if_pos (.inr tooLong)
  · have accepted : validate id measured = some header := by
      rw [validate, if_neg long, ← front, decoded]
      exact if_neg (by simp_all)
    obtain ⟨k, j, σ, c, sight, rfl, len⟩ := sight_of_validate listed present₂ accepted
    refine ⟨k, j, σ, c, .mono ?_ asked₃.asked, by simp [len]⟩
    exact ⟨s₁.ops.length, ⟨.measure, id⟩, by simp [ops₂], rfl, sight⟩

end Scene

end Tcslog
