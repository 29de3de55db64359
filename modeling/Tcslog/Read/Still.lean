import Tcslog.Read.Scene

/-!
# Reading a directory that stays as it is

Whatever the files of a directory hold, opening them in the order of their
identifiers comes to the first that is usable.  This module says what opening
comes to in a directory that nobody changes, without any assumption on the
bytes in it.
-/

namespace Tcslog

open Lib.Program

/-! ## Surroundings that stay as they are -/

/-- A directory that nobody changes while it is read. -/
def ReadEnv.still (dir : Dir) (fault : Nat → Bool) (overflowChecks : Bool) : ReadEnv where
  dir _ := dir
  grows := fun {_ _ _ content} _ present => ⟨content, present, List.prefix_rfl⟩
  fault := fault
  overflowChecks := overflowChecks

/-- No request fails. -/
def noFault : Nat → Bool :=
  fun _ => false

/-- The files of the reader's log. -/
def LogRead.files (log : LogRead) (dir : Dir) : SegId → Option Bytes :=
  dir.files log.namePrefix log.nameSuffix

/-- The segment as it is when its file has been opened. -/
def Segment.ofFile (files : SegId → Option Bytes) (id : SegId) : Option Segment :=
  (files id).bind fun content => (validate id content).map fun header =>
    { id, header, dataLen := content.length - segmentFileHeaderLen, pos := 0
      offset := segmentFileHeaderLen }

/-- The first usable file of those listed, and the files after it. -/
def firstUsable (files : SegId → Option Bytes) : List SegId → Option (Segment × List SegId)
  | [] => none
  | id :: rest =>
      match Segment.ofFile files id with
      | some segment => some (segment, rest)
      | none => firstUsable files rest

section Usable

variable {files : SegId → Option Bytes} {id : SegId} {segment : Segment} {header : SegmentHeader}
  {content : Bytes}

/-- What the checks made on opening a file say about it. -/
theorem validate_eq_some (accepted : validate id content = some header) :
    segmentFileHeaderLen ≤ content.length ∧
      SegmentHeader.fromBytes (content.take segmentFileHeaderLen) = .ok header ∧
      header.segmentId = id ∧ content.length ≤ header.maxSize.toNat := by
  rw [validate] at accepted
  split at accepted
  · contradiction
  next long =>
  split at accepted
  · contradiction
  next decoded =>
  split at accepted
  · contradiction
  next passes =>
  rw [not_or, not_not, Nat.not_lt] at passes
  obtain rfl := Option.some.inj accepted
  exact ⟨Nat.le_of_not_lt long, decoded, passes.1, passes.2⟩

theorem Segment.ofFile_eq_some (usable : Segment.ofFile files id = some segment) :
    ∃ content, files id = some content ∧ validate id content = some segment.header ∧
      content.length = segmentFileHeaderLen + segment.dataLen ∧
      segment.id = id ∧ segment.pos = 0 ∧ segment.offset = segmentFileHeaderLen := by
  simp only [Segment.ofFile, Option.bind_eq_some_iff, Option.map_eq_some_iff] at usable
  obtain ⟨content, present, header, accepted, rfl⟩ := usable
  have long := (validate_eq_some accepted).1
  exact ⟨content, present, accepted, by dsimp only; omega, rfl, rfl, rfl⟩

/-- The files passed over are not usable. -/
theorem firstUsable_eq_some {ids rest : List SegId}
    (first : firstUsable files ids = some (segment, rest)) :
    ∃ skipped, ids = skipped ++ segment.id :: rest ∧
      (∀ p ∈ skipped, Segment.ofFile files p = none) ∧
      Segment.ofFile files segment.id = some segment := by
  induction ids with
  | nil => contradiction
  | cons id ids ih =>
      rw [firstUsable] at first
      cases usable : Segment.ofFile files id with
      | some found =>
          rw [usable] at first
          obtain ⟨rfl, rfl⟩ := Prod.mk.inj (Option.some.inj first)
          obtain ⟨_, _, _, _, rfl, _⟩ := Segment.ofFile_eq_some usable
          exact ⟨[], rfl, by simp, usable⟩
      | none =>
          rw [usable] at first
          obtain ⟨skipped, split, refused, usable'⟩ := ih first
          exact ⟨id :: skipped, by rw [split, List.cons_append],
            List.forall_mem_cons.mpr ⟨usable, refused⟩, usable'⟩

theorem firstUsable_eq_none {ids : List SegId} :
    firstUsable files ids = none ↔ ∀ p ∈ ids, Segment.ofFile files p = none := by
  induction ids with
  | nil => simp [firstUsable]
  | cons id ids ih =>
      rw [firstUsable, List.forall_mem_cons]
      cases Segment.ofFile files id <;> simp [ih]

end Usable

/-! ## What opening the next file comes to -/

section Opening

variable {dir : Dir} {overflowChecks : Bool}

theorem perform_still (request : ReadRequest) (id : SegId) (s : ReadState) :
    Meets (perform (.still dir noFault overflowChecks) request id) s
      (fun found s' => OnlyAsked s s' ∧ found = s.files dir id) (fun _ _ => False) := by
  simp only [perform, meets_bind, meets_get, meets_set, meets_pure]
  exact ⟨⟨rfl, List.prefix_append _ _⟩, rfl⟩

/-- A file is usable if its content is valid. -/
theorem openValidated_still {id : SegId} {s : ReadState} :
    Meets (openValidated (.still dir noFault overflowChecks) id) s
      (fun found s' => OnlyAsked s s' ∧ found = Segment.ofFile (s.files dir) id)
      (fun _ _ => False) := by
  simp only [openValidated, meets_bind]
  refine (perform_still .openFile id s).imp ?_ (by simp)
  rintro found s₁ ⟨asked₁, rfl⟩
  rw [Segment.ofFile]
  cases present : s.files dir id with
  | none => exact ⟨asked₁, rfl⟩
  | some content =>
  simp only [meets_bind]
  refine (perform_still .measure id s₁).imp ?_ (by simp)
  rintro measured s₂ ⟨asked₂, rfl⟩
  rw [LogRead.files, asked₁.toLogRead_eq, ← LogRead.files, present, Option.bind_some, validate]
  simp only [meets_ite, meets_pure]
  refine ⟨fun short => ⟨asked₁.trans asked₂, by rw [if_pos short]; rfl⟩, fun long => ?_⟩
  simp only [meets_bind, if_neg long]
  refine (perform_still .readHeader id s₂).imp ?_ (by simp)
  rintro header s₃ ⟨asked₃, rfl⟩
  have asked := (asked₁.trans asked₂).trans asked₃
  rw [LogRead.files, asked₂.toLogRead_eq, asked₁.toLogRead_eq, ← LogRead.files, present]
  dsimp only
  cases SegmentHeader.fromBytes (content.take segmentFileHeaderLen) with
  | error e => exact ⟨asked, rfl⟩
  | ok header =>
      simp only [meets_ite, meets_pure]
      refine ⟨fun wrongId => ⟨asked, ?_⟩, fun rightId => ⟨fun tooLong => ⟨asked, ?_⟩,
        fun fits => ⟨asked, ?_⟩⟩⟩
      · rw [if_pos (.inl wrongId)]
        rfl
      · rw [if_pos (.inr tooLong)]
        rfl
      · rw [if_neg (not_or.mpr ⟨rightId, fits⟩)]
        rfl

/-- What opening the next file comes to, the trace of requests apart. -/
inductive Opening (dir : Dir) (s : ReadState) : Except LogError Bool → ReadState → Prop
  /-- No file is left that is usable. -/
  | ended {s' : ReadState} (none : firstUsable (s.files dir) s.pending = none)
      (result : s' = { s with pending := [], ops := s'.ops }) : Opening dir s (.ok false) s'
  /-- The first usable file is opened. -/
  | opened {s' : ReadState} {segment : Segment} {rest : List SegId}
      (first : firstUsable (s.files dir) s.pending = some (segment, rest))
      (continues : ∀ sid, s.session = some sid → segment.header.sessionId = sid)
      (result : s' = { s with
        toLogRead := { s.toLogRead with pending := rest }.adopt segment, ops := s'.ops }) :
      Opening dir s (.ok true) s'
  /-- The first usable file is of another session. -/
  | boundary {s' : ReadState} {segment : Segment} {rest : List SegId} {sid : SegId}
      (first : firstUsable (s.files dir) s.pending = some (segment, rest))
      (session : s.session = some sid) (differs : segment.header.sessionId ≠ sid)
      (result : s' = { s with
        pending := segment.id :: rest, session := none, prevSeq := none, recovery := none
        ops := s'.ops }) :
      Opening dir s (.error .sessionEnd) s'

theorem Opening.of_skip {s t s' : ReadState} {id : SegId} {rest : List SegId}
    {result : Except LogError Bool} (opening : Opening dir t result s')
    (pending : s.pending = id :: rest) (unusable : Segment.ofFile (s.files dir) id = none)
    (same : t = { s with pending := rest, ops := t.ops }) : Opening dir s result s' := by
  have first : firstUsable (s.files dir) s.pending = firstUsable (t.files dir) t.pending := by
    rw [same, pending, firstUsable, unusable]
    rfl
  have session : t.session = s.session := by rw [same]
  cases opening with
  | ended none result =>
      refine .ended (first.trans none) ?_
      rw [result, same]
  | opened first' continues result =>
      refine .opened (first.trans first') (fun sid at_ => continues sid (session.trans at_)) ?_
      rw [result, same]
  | boundary first' session' differs result =>
      refine .boundary (first.trans first') (session.symm.trans session') differs ?_
      rw [result, same]

theorem openNextOf_still (ids : List SegId) {s : ReadState} (pending : s.pending = ids) :
    Meets (openNextOf (.still dir noFault overflowChecks) ids) s
      (fun opened s' => Opening dir s (.ok opened) s')
      (fun stop s' => ∃ e, stop = .error e ∧ Opening dir s (.error e) s') := by
  induction ids generalizing s with
  | nil =>
      simp only [openNextOf, meets_bind, meets_modify, meets_pure]
      exact .ended (by rw [pending]; rfl) rfl
  | cons id rest ih =>
      simp only [openNextOf, meets_bind, meets_modify]
      refine openValidated_still.imp ?_ (by simp)
      rintro found t ⟨asked, found_eq⟩
      cases found with
      | none =>
          have skip {result : Except LogError Bool} {s' : ReadState}
              (opening : Opening dir t result s') : Opening dir s result s' :=
            opening.of_skip pending found_eq.symm asked.same
          refine (ih (by rw [asked.same])).imp (fun opened s' opening => skip opening) ?_
          rintro stop s' ⟨e, rfl, opening⟩
          exact ⟨e, rfl, skip opening⟩
      | some segment =>
          have first : firstUsable (s.files dir) s.pending = some (segment, rest) := by
            have usable : Segment.ofFile (s.files dir) id = some segment := found_eq.symm
            rw [pending, firstUsable, usable]
          obtain ⟨_, _, _, _, rfl, _⟩ := Segment.ofFile_eq_some found_eq.symm
          have session : t.session = s.session := by rw [asked.same]
          simp only [meets_bind, meets_get, meets_ite, meets_set, meets_fail, meets_pure, session]
          refine ⟨fun differs => ⟨_, rfl, ?_⟩, fun continues => ?_⟩
          · cases at_ : s.session with
            | none => simp [at_] at differs
            | some sid =>
                have differs' : sid ≠ segment.header.sessionId := by simpa [at_] using differs
                exact .boundary first at_ differs'.symm (by rw [asked.same])
          · refine .opened first (fun sid at_ => ?_) (by rw [asked.same])
            have same : sid = segment.header.sessionId := by simpa [at_] using continues
            exact same.symm

theorem openNext_still (s : ReadState) :
    Meets (openNext (.still dir noFault overflowChecks)) s
      (fun opened s' => Opening dir s (.ok opened) s')
      (fun stop s' => ∃ e, stop = .error e ∧ Opening dir s (.error e) s') := by
  simp only [openNext, meets_bind, meets_get]
  exact openNextOf_still _ rfl

end Opening

/-! ## The open file -/

/-- The segment is open at its read position. -/
structure Segment.OpenIn (files : SegId → Option Bytes) (segment : Segment) : Prop where
  file : ∃ content, files segment.id = some content ∧
    validate segment.id content = some segment.header ∧
    content.length = segmentFileHeaderLen + segment.dataLen
  posLe : segment.pos ≤ segment.dataLen
  offset : segment.offset = segmentFileHeaderLen + segment.pos

section OpenFile

variable {files : SegId → Option Bytes} {dir : Dir} {overflowChecks : Bool}

theorem Segment.openIn_ofFile {id : SegId} {segment : Segment}
    (usable : Segment.ofFile files id = some segment) : segment.OpenIn files := by
  obtain ⟨content, present, accepted, length, rfl, pos, offset⟩ := Segment.ofFile_eq_some usable
  exact ⟨⟨content, present, accepted, length⟩, by omega, by rw [offset, pos, Nat.add_zero]⟩

/-- A file that is used is shorter than any seek can go. -/
theorem Segment.OpenIn.dataLen_lt {segment : Segment} (isOpen : segment.OpenIn files) :
    segment.dataLen < 2 ^ 32 := by
  obtain ⟨content, _, accepted, length⟩ := isOpen.file
  have fits := (validate_eq_some accepted).2.2.2
  have := segment.header.maxSize.toNat_lt
  omega

/-- A usable file has room for records of its format. -/
theorem Segment.OpenIn.fixed_pos {segment : Segment} {n : RecSize} (isOpen : segment.OpenIn files)
    (fixed : segment.header.format = .fixed n) : 0 < n.toNat := by
  obtain ⟨content, _, accepted, _⟩ := isOpen.file
  obtain ⟨tag, arg, decoded⟩ := SegmentHeader.format_of_fromBytes (validate_eq_some accepted).2.1
  exact Format.fixed_pos_of_fromTag (fixed ▸ decoded)

/-- The next `n` bytes of an open file. -/
def Segment.bytes (files : SegId → Option Bytes) (segment : Segment) (n : Nat) : Bytes :=
  (((files segment.id).getD []).drop segment.offset).take n

theorem Segment.OpenIn.length_bytes {segment : Segment} {n : Nat} (isOpen : segment.OpenIn files)
    (within : segment.pos + n ≤ segment.dataLen) : (segment.bytes files n).length = n := by
  obtain ⟨content, present, _, length⟩ := isOpen.file
  rw [bytes, present, Option.getD_some, isOpen.offset, List.length_take, List.length_drop]
  omega

/-- An open file gives the bytes asked for. -/
theorem readExact_still {segment : Segment} {n : Nat} {s : ReadState}
    (isOpen : segment.OpenIn (s.files dir)) (within : segment.pos + n ≤ segment.dataLen) :
    Meets (readExact (.still dir noFault overflowChecks) segment n) s
      (fun bytes s' => OnlyAsked s s' ∧ bytes = segment.bytes (s.files dir) n) (fun _ _ => False) := by
  have length := isOpen.length_bytes within
  simp only [readExact, meets_ite, meets_pure, meets_bind]
  refine ⟨fun none => ⟨.refl s, by rw [Segment.bytes, none, List.take_zero]⟩,
    fun _ => (perform_still .readData segment.id s).imp ?_ fun _ _ impossible => impossible⟩
  rintro found t ⟨asked, rfl⟩
  obtain ⟨content, present, _, _⟩ := isOpen.file
  rw [Segment.bytes, present, Option.getD_some] at length
  simp only [present, length, Nat.lt_irrefl, if_false, meets_pure]
  exact ⟨asked, by rw [Segment.bytes, present, Option.getD_some]⟩

/-- Seeking in an open file moves the position as far as it was asked to. -/
theorem seekForward_still {segment : Segment} {n : Nat} {s : ReadState}
    (isOpen : segment.OpenIn (s.files dir)) (within : n ≤ segment.dataLen) :
    Meets (seekForward (.still dir noFault overflowChecks) segment n) s
      (fun moved s' => OnlyAsked s s' ∧ moved = { segment with offset := segment.offset + n })
      (fun _ _ => False) := by
  simp only [seekForward, meets_bind]
  refine (perform_still .seek segment.id s).imp ?_ fun _ _ impossible => impossible
  rintro found t ⟨asked, rfl⟩
  obtain ⟨content, present, _, _⟩ := isOpen.file
  have short := isOpen.dataLen_lt
  have exact_ : asI64 n = n := by
    rw [asI64]
    omega
  simp only [present, meets_pure, exact_]
  exact ⟨asked, trivial⟩

end OpenFile

/-! ## A reader -/

namespace Sample

/-- A reader that listed these files. -/
def reader (pending : List SegId) : LogRead where
  namePrefix := []
  nameSuffix := []
  pending := pending
  current := none
  resync := true
  session := none
  prevSeq := none
  sessionStartLost := 0
  segmentsOpened := 0
  collectHeaders := false
  openedHeaders := []
  reopened := none
  recovery := none
  lastMeta := .variableSimple

/-- A file of records with a length in front. -/
def file (id session : SegId) (remaining : UInt64) (sequence : SeqId) (data : Bytes) : Bytes :=
  let header : SegmentHeader :=
    { segmentId := id, sessionId := session, maxSize := 100, remaining := remaining
      format := .variableSimple, sequence := sequence, versionMinor := 1 }
  header.toBytes ++ data

/-- A record that the second file does not continue. -/
def rejected : Dir :=
  AList.insert (buildName [] 8 []) (file 8 7 0 1 [1, 0, 0, 0, 6])
    (AList.insert (buildName [] 7 []) (file 7 7 0 0 [3, 0, 0, 0, 5]) ∅)

end Sample

end Tcslog
