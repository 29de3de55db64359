import Tcslog.Read.Scene

/-!
# Opening and crossing

What opening the next usable file and crossing into it can do.  A crossing that
is allowed leads from a full file to the next file of the same strand: the
session and the sequence say so, and a file that was cut short is never crossed
from.  Every other crossing ends the record in progress, and names its cause.
-/

namespace Tcslog

open Lib.Program Lib.Spanned

namespace LogRead

variable (log : LogRead) (segment : Segment)

@[simp]
theorem adopt_current : (log.adopt segment).current = some segment := by
  simp [adopt]

@[simp]
theorem adopt_prevSeq : (log.adopt segment).prevSeq = some segment.header.sequence := by
  simp [adopt]

@[simp]
theorem adopt_session :
    (log.adopt segment).session = some (log.session.getD segment.header.sessionId) := by
  simp only [adopt]
  split <;> split <;> simp_all [Option.getD]
  all_goals cases h : log.session <;> simp_all

@[simp]
theorem adopt_sessionStartLost :
    (log.adopt segment).sessionStartLost =
      if log.session = none then segment.header.sequence.toNat else log.sessionStartLost := by
  simp only [adopt]
  split <;> split <;> simp_all

@[simp]
theorem adopt_recovery : (log.adopt segment).recovery = log.recovery := by
  simp only [adopt]
  split <;> split <;> rfl

@[simp]
theorem adopt_resync : (log.adopt segment).resync = log.resync := by
  simp only [adopt]
  split <;> split <;> rfl

@[simp]
theorem adopt_namePrefix : (log.adopt segment).namePrefix = log.namePrefix := by
  simp only [adopt]
  split <;> split <;> rfl

@[simp]
theorem adopt_nameSuffix : (log.adopt segment).nameSuffix = log.nameSuffix := by
  simp only [adopt]
  split <;> split <;> rfl

end LogRead

namespace Scene

variable {S : Scene}

/-- Of the pending files, those before `id` were missed and `id` was opened. -/
structure Found (S : Scene) (ops : List ReadOp) (pending : List SegId) (id : SegId)
    (rest : List SegId) (k j : Nat) (σ : Strand) (c : Nat) : Prop where
  missed : ∃ front, pending = front ++ id :: rest ∧ ∀ p ∈ front, S.Missed ops p
  measured : S.Measured ops id k j σ c

/-- The segment a freshly opened file becomes. -/
def opened (σ : Strand) (j : Nat) (id : SegId) (c : Nat) : Segment :=
  ⟨id, σ.header j id, c, 0, segmentFileHeaderLen⟩

@[simp]
theorem opened_dataLen (σ : Strand) (j : Nat) (id : SegId) (c : Nat) :
    (opened σ j id c).dataLen = c :=
  rfl

/-- How opening the next usable file ends when it ends with a value. -/
inductive Opening (S : Scene) (s : ReadState) : Bool → ReadState → Prop
  | none {s' : ReadState} (missed : ∀ p ∈ s.pending, S.Missed s'.ops p)
      (result : s' = { s with pending := [], ops := s'.ops }) : Opening S s false s'
  | file {s' : ReadState} {id : SegId} {rest : List SegId} {k j : Nat} {σ : Strand} {c : Nat}
      (found : S.Found s'.ops s.pending id rest k j σ c)
      (session : s.session = Option.none ∨ s.session = some σ.sessionId)
      (result : s' = { s with
        toLogRead := { s.toLogRead with pending := rest }.adopt (opened σ j id c)
        ops := s'.ops }) : Opening S s true s'

/-- Opening the next usable file meets a file of another session. -/
structure Boundary (S : Scene) (s : ReadState) (id : SegId) (rest : List SegId) (k j : Nat)
    (σ : Strand) (c : Nat) (s' : ReadState) : Prop where
  found : S.Found s'.ops s.pending id rest k j σ c
  session : ∃ sid, s.session = some sid ∧ sid ≠ σ.sessionId
  result : s' = { s with
    pending := id :: rest, session := none, prevSeq := none, recovery := none, ops := s'.ops }

theorem openNextOf_spec (ids : List SegId) {s : ReadState} (named : S.Named s)
    (pending : s.pending = ids) (listed : ∀ p ∈ ids, p ∈ S.listing) :
    Meets (openNextOf S.env ids) s
      (fun isOpen s' => s.ops <+: s'.ops ∧ S.Opening s isOpen s')
      (fun stop s' => s.ops <+: s'.ops ∧ stop = .error .sessionEnd ∧
        ∃ id rest k j σ c, S.Boundary s id rest k j σ c s') := by
  induction ids generalizing s with
  | nil =>
      simp only [openNextOf, meets_bind, meets_modify, meets_pure]
      exact ⟨List.prefix_rfl, .none (by simp [pending]) rfl⟩
  | cons id rest ih =>
      simp only [openNextOf, meets_bind, meets_modify]
      have named' : S.Named { s with pending := rest } := ⟨named.namePrefix, named.nameSuffix⟩
      refine (openValidated_spec (listed id (by simp)) named').imp ?_ (by simp)
      rintro segment t ⟨asked, outcome⟩
      cases segment with
      | none =>
          have same : t = { s with pending := rest, ops := t.ops } := asked.same
          have missedId : S.Missed t.ops id := outcome
          have rest_ := ih (named'.of_onlyAsked asked) (by rw [same]) fun p mem =>
            listed p (List.mem_cons_of_mem _ mem)
          have cons {front : List SegId} {ops : List ReadOp} (grew : t.ops <+: ops)
              (missed : ∀ p ∈ front, S.Missed ops p) : ∀ p ∈ id :: front, S.Missed ops p := by
            intro p mem
            rcases List.mem_cons.mp mem with rfl | mem
            · exact missedId.mono grew
            · exact missed p mem
          have foundCons {ops : List ReadOp} {id' : SegId} {rest' : List SegId} {k j c : Nat}
              {σ : Strand} (grew : t.ops <+: ops) (found : S.Found ops t.pending id' rest' k j σ c) :
              S.Found ops s.pending id' rest' k j σ c := by
            obtain ⟨⟨front, split, missed⟩, measured⟩ := found
            refine ⟨⟨id :: front, ?_, cons grew missed⟩, measured⟩
            rw [same] at split
            rw [pending, show rest = front ++ id' :: rest' from split]
            rfl
          refine rest_.imp ?_ ?_
          · rintro isOpen s' ⟨grew, opening⟩
            refine ⟨asked.asked.trans grew, ?_⟩
            cases opening with
            | none missed result =>
                refine .none ?_ ?_
                · rw [pending]
                  refine cons grew fun p mem => missed p ?_
                  rw [same]
                  exact mem
                · rw [result, same]
            | file found session result =>
                refine .file (foundCons grew found) ?_ ?_
                · rw [same] at session
                  exact session
                · rw [result, same]
          · rintro stop s' ⟨grew, stopEq, id', rest', k, j, σ, c, boundary⟩
            refine ⟨asked.asked.trans grew, stopEq, id', rest', k, j, σ, c, ?_⟩
            refine ⟨foundCons grew boundary.found, ?_, ?_⟩
            · have session := boundary.session
              rw [same] at session
              exact session
            · rw [boundary.result, same]
      | some segment =>
          obtain ⟨k, j, σ, c, measured, rfl⟩ := outcome
          have same : t = { s with pending := rest, ops := t.ops } := asked.same
          have found : S.Found t.ops s.pending id rest k j σ c :=
            ⟨⟨[], by simp [pending], by simp⟩, measured⟩
          have session : t.session = s.session := by rw [same]
          simp only [meets_bind, meets_get, meets_ite, meets_set, meets_fail, meets_pure]
          refine ⟨fun differs => ⟨asked.asked, trivial, id, rest, k, j, σ, c, ?_⟩, fun agrees =>
            ⟨asked.asked, ?_⟩⟩
          · refine ⟨found, ?_, by rw [same]⟩
            rw [session] at differs
            cases known : s.session with
            | none => simp [known] at differs
            | some sid => exact ⟨sid, rfl, by simpa [known, Strand.header] using differs⟩
          · refine .file found ?_ (by rw [same]; rfl)
            rw [session] at agrees
            cases known : s.session with
            | none => exact .inl rfl
            | some sid => exact .inr (by simpa [known, Strand.header] using agrees)

theorem openNext_spec {s : ReadState} (named : S.Named s)
    (listed : ∀ p ∈ s.pending, p ∈ S.listing) :
    Meets (openNext S.env) s
      (fun isOpen s' => s.ops <+: s'.ops ∧ S.Opening s isOpen s')
      (fun stop s' => s.ops <+: s'.ops ∧ stop = .error .sessionEnd ∧
        ∃ id rest k j σ c, S.Boundary s id rest k j σ c s') := by
  simp only [openNext, meets_bind, meets_get]
  exact openNextOf_spec s.pending named rfl listed

/-! ## A record in progress -/

/-- File `j` of strand `k` is open, was measured at `c` bytes and has been read
up to `pos`. -/
structure Open (S : Scene) (s : ReadState) (k j : Nat) (σ : Strand) (id : SegId) (c pos : Nat) :
    Prop where
  named : S.Named s
  suffix : id :: s.pending <:+ S.listing
  measured : S.Measured s.ops id k j σ c
  current : s.current =
    some { opened σ j id c with pos := pos, offset := segmentFileHeaderLen + pos }
  posLe : pos ≤ c
  session : s.session = some σ.sessionId
  prevSeq : s.prevSeq = some (σ.header j id).sequence
  noHint : s.recovery = none

/-- What a cursor counts of record `i` after `x` of its bytes. -/
structure Counts (cursor : Cursor) (σ : Strand) (i x : Nat) : Prop where
  consumed : cursor.consumed = x
  within : σ.start i + x ≤ σ.start (i + 1)
  total : ∀ total, cursor.total = some total →
    (i < σ.records.length → σ.start i + total = σ.start (i + 1)) ∧ σ.format.dataHeaderLen ≤ x

/-- What a cursor knows of record `i` after `x` of its bytes: whatever a
crossing inside the data header implied of the payload is right. -/
structure Tracks (cursor : Cursor) (σ : Strand) (i x : Nat) : Prop extends
    Counts cursor σ i x where
  implied : cursor.total = none → ∀ payloadLen, cursor.impliedPayload = some payloadLen →
    σ.start i + (σ.format.dataHeaderLen + payloadLen) = σ.start (i + 1)

/-- The reader has read `x` bytes of record `i`, or stands where the records of
the strand end. -/
structure Mid (S : Scene) (s : ReadState) (k j : Nat) (σ : Strand) (id : SegId) (c pos i x : Nat) :
    Prop extends S.Open s k j σ id c pos where
  place : j * σ.dataSection + pos = σ.start i + x
  index : i ≤ σ.records.length
  tracks : Tracks s.cursor σ i x

/-- More of record `i` is wanted after its first `x` bytes, and of its header
while its length is unknown. -/
structure Wants (s : ReadState) (σ : Strand) (i x : Nat) : Prop where
  more : σ.start i + x < σ.start (i + 1) ∨ i = σ.records.length
  header : s.cursor.total = none → x < σ.format.dataHeaderLen

/-- What a hint for recovering record `i` is worth at file `j` of strand `k`. -/
def Hints (k j : Nat) (σ : Strand) (hint : Recovery) (k₀ i₀ : Nat) : Prop :=
  σ.format = .variableSimple → 0 < j → k = k₀ ∧ ∃ i, i₀ ≤ i ∧
    σ.start i + σ.dataSection = j * σ.dataSection + hint.owed

/-- The hint that is left where record `i` is broken off after `x` of its bytes, at
the end of file `j` of which `c` bytes were seen, and `id`, file `j'` of the same
session, is found. -/
def hintAfter (σ : Strand) (j c i x : Nat) (τ : Strand) (j' : Nat) (id : SegId) : Option Recovery :=
  if τ.firstSequence + j' - (σ.firstSequence + j + 1) = 1 ∧ c = σ.dataSection ∧ σ.format.dataHeaderLen ≤ x
  then some ⟨id, σ.start (i + 1) - (σ.start i + x)⟩ else none

/-- How a record in progress ended at the end of file `j`: no file was left,
the next file was of another session, or it does not continue this one. -/
inductive Break (S : Scene) (s : ReadState) (k j : Nat) (σ : Strand) (c i x : Nat) (n : Nat) :
    LogError → ReadState → Prop
  | ended {s' : ReadState} (missed : ∀ p ∈ s.pending, S.Missed s'.ops p)
      (pending : s'.pending = []) (session : s'.session = s.session)
      (recovery : s'.recovery = none) : Break S s k j σ c i x n (.readTruncated 0 n) s'
  | boundary {e : LogError} {s' : ReadState} {id : SegId} {rest : List SegId} {k' j' : Nat} {τ : Strand} {c' : Nat}
      (found : S.Found s'.ops s.pending id rest k' j' τ c') (differs : τ.sessionId ≠ σ.sessionId)
      (pending : s'.pending = id :: rest)
      (session : s'.session = if x = 0 then none else some σ.sessionId)
      (recovery : s'.recovery = none)
      (error : e = if x = 0 then .sessionEnd else .readTruncated 0 n) :
      Break S s k j σ c i x n e s'
  | rejected {s' : ReadState} {id : SegId} {rest : List SegId} {k' j' : Nat} {τ : Strand} {c' : Nat}
      (found : S.Found s'.ops s.pending id rest k' j' τ c') (same : τ.sessionId = σ.sessionId)
      (denied : ¬ (k' = k ∧ j' = j + 1 ∧ c = σ.dataSection))
      (pending : s'.pending = id :: rest) (session : s'.session = some σ.sessionId)
      (recovery : ∀ hint, s'.recovery = some hint →
        hint.segment = id ∧ Hints k' j' τ hint k (i + 1))
      (noted : σ.format = .variableSimple → s'.recovery = hintAfter σ j c i x τ j' id) :
      Break S s k j σ c i x n
        (.readTruncated (τ.firstSequence + j' - (σ.firstSequence + j + 1)) n) s'

/-- What no step of a record changes. -/
structure Carried (s s' : ReadState) : Prop where
  asked : s.ops <+: s'.ops
  sessionStartLost : s'.sessionStartLost = s.sessionStartLost
  resync : s'.resync = s.resync

theorem Carried.refl (s : ReadState) : Carried s s :=
  ⟨List.prefix_rfl, rfl, rfl⟩

theorem Carried.trans {s t u : ReadState} (first : Carried s t) (second : Carried t u) :
    Carried s u :=
  ⟨first.asked.trans second.asked, second.sessionStartLost.trans first.sessionStartLost,
    second.resync.trans first.resync⟩

/-! ## The checks of a crossing -/

/-- Nothing changed but the payload length the cursor was told. -/
def ToldOnly (s s' : ReadState) : Prop :=
  s' = { s with cursor := { s.cursor with impliedPayload := s'.cursor.impliedPayload } }

/-- Checking the `remaining` field of the file that continues the record
passes; checking that of another file changes nothing but what is implied. -/
theorem checkRemaining_spec {s : ReadState} {σ τ : Strand} {i x j' : Nat} {id' : SegId}
    (tracks : Tracks s.cursor σ i x) (wants : Wants s σ i x) (index : i ≤ σ.records.length)
    (within : j' < τ.ids.length) :
    Meets (checkRemaining S.env (τ.header j' id')) s
      (fun denied s' => ToldOnly s s' ∧
        (τ = σ → j' * σ.dataSection = σ.start i + x →
          denied = false ∧ Tracks s'.cursor σ i x))
      (fun _ _ => False) := by
  obtain rfl := tracks.consumed
  have same : ToldOnly s s := rfl
  have notPast (begun : s.cursor.consumed ≠ 0) : i < σ.records.length := by
    refine lt_of_le_of_ne index fun atEnd => ?_
    have here := tracks.within
    rw [σ.start_of_length_le (i := i + 1) (by omega), ← σ.start_of_length_le (i := i) (by omega)]
      at here
    omega
  have inside (begun : s.cursor.consumed ≠ 0) : σ.start i + s.cursor.consumed < σ.start (i + 1) :=
    wants.more.resolve_right fun atEnd => absurd (notPast begun) (by omega)
  have continuing (same : τ = σ) (place : j' * σ.dataSection = σ.start i + s.cursor.consumed)
      (begun : s.cursor.consumed ≠ 0) :
      (τ.header j' id').remaining.toNat = σ.start (i + 1) - (σ.start i + s.cursor.consumed) := by
    subst same
    rw [Strand.header_remaining within, place, Strand.owed_of_start (inside begun) (by omega)]
  simp only [checkRemaining, meets_bind, meets_get, meets_ite, meets_pure]
  refine ⟨fun fresh => ⟨same, fun continues place => ?_⟩, fun begun => ?_⟩
  · subst continues
    have nothing : (τ.header j' id').remaining.toNat = 0 := by
      rw [Strand.header_remaining within, place, fresh, Nat.add_zero, Strand.owed_start]
    exact ⟨by simp [nothing], tracks⟩
  cases known : s.cursor.total with
  | some total =>
      have len := (tracks.total total known).1 (notPast begun)
      have here := tracks.within
      rw [meets_bind, subU64_of_le (by omega), meets_pure, meets_pure]
      refine ⟨same, fun continues place => ⟨?_, tracks⟩⟩
      rw [continuing continues place begun]
      simp
      omega
  | none =>
      have unread := wants.header known
      have headerLen : (τ.header j' id').format.dataHeaderLenIn (τ.header j' id').versionMinor =
          τ.format.dataHeaderLen := Format.dataHeaderLenIn_one _
      simp only [headerLen, meets_ite, meets_pure]
      refine ⟨fun bad => ⟨same, fun continues place => ?_⟩,
        fun _ => ⟨by simp [ToldOnly, known], fun continues place => ⟨rfl, ?_⟩⟩⟩
      · have remaining := continuing continues place begun
        have whole := Strand.start_add_dataHeaderLen_le (notPast begun)
        subst continues
        rw [remaining] at bad
        rcases bad with short | differs
        · omega
        · cases told : s.cursor.impliedPayload with
          | none => simp [told] at differs
          | some payloadLen =>
              have implied := tracks.implied known payloadLen told
              simp [told] at differs
              omega
      · have remaining := continuing continues place begun
        have whole := Strand.start_add_dataHeaderLen_le (notPast begun)
        subst continues
        refine ⟨⟨rfl, tracks.within, by simp⟩, fun _ payloadLen told => ?_⟩
        obtain rfl := Option.some.inj told
        omega

theorem checkSequence_spec {s : ReadState} {σ τ : Strand} {j j' : Nat} {id id' : SegId}
    (within : j < σ.ids.length) (within' : j' < τ.ids.length) :
    Meets (checkSequence S.env (some (σ.header j id).sequence) (τ.header j' id').sequence) s
      (fun verdict s' => s' = s ∧
        verdict.1 = decide (τ.firstSequence + j' ≠ σ.firstSequence + j + 1) ∧
        verdict.2 = τ.firstSequence + j' - (σ.firstSequence + j + 1))
      (fun _ _ => False) := by
  have fits := σ.sequencesFit
  have expected : σ.firstSequence + j + 1 < 2 ^ 64 := by omega
  simp only [checkSequence, addU64_of_lt expected, meets_bind, meets_pure, meets_ite,
    Strand.header_sequence within, Strand.header_sequence within']
  refine ⟨fun equal => ?_, fun differs => ⟨fun less => ?_, fun more => ?_⟩⟩
  · simp [equal]
  · rw [subU64_of_le (by omega), meets_pure, subU64_of_le (by omega)]
    simp [differs]
    omega
  · simp [differs]
    omega

theorem noteRecovery_spec {s : ReadState} {σ : Strand} {i x : Nat} (id : SegId)
    (counts : Counts s.cursor σ i x) (header : s.cursor.total = none → x < σ.format.dataHeaderLen)
    (noHint : s.recovery = none) :
    Meets (noteRecovery S.env id) s
      (fun _ s' => s' = { s with recovery := s'.recovery } ∧
        (∀ hint, s'.recovery = some hint → hint.segment = id ∧
          (σ.format = .variableSimple → σ.start (i + 1) = σ.start i + x + hint.owed)) ∧
        (σ.format = .variableSimple → s'.recovery =
          if σ.format.dataHeaderLen ≤ x then some ⟨id, σ.start (i + 1) - (σ.start i + x)⟩ else none))
      (fun _ _ => False) := by
  simp only [noteRecovery, meets_bind, meets_get]
  cases known : s.cursor.total with
  | none =>
      refine ⟨rfl, fun hint told => by simp [noHint] at told, fun _ => ?_⟩
      rw [if_neg (Nat.not_le.mpr (header known)), noHint]
  | some total =>
      have here := counts.within
      have past := (counts.total total known).2
      have atEnd (past : σ.records.length ≤ i) : x = 0 := by
        rw [σ.start_of_length_le past, σ.start_of_length_le (i := i + 1) (by omega)] at here
        omega
      have enough : x ≤ total := by
        rcases Nat.lt_or_ge i σ.records.length with within | past
        · have := (counts.total total known).1 within
          omega
        · rw [atEnd past]
          omega
      have owed (simple : σ.format = .variableSimple) : σ.start i + total = σ.start (i + 1) := by
        refine (counts.total total known).1 (Nat.lt_of_not_le fun noMore => ?_)
        rw [atEnd noMore, simple] at past
        exact absurd past (by decide)
      simp only [meets_bind, counts.consumed]
      rw [subU64_of_le enough, meets_pure, meets_set]
      refine ⟨rfl, fun hint told => ?_, fun simple => ?_⟩
      · obtain rfl := Option.some.inj told
        refine ⟨rfl, fun simple => ?_⟩
        have := owed simple
        dsimp only
        omega
      · have := owed simple
        rw [if_pos past, show total - x = σ.start (i + 1) - (σ.start i + x) by omega]

theorem rejectCurrent_spec {s : ReadState} {segment : Segment} (lost n : Nat)
    (current : s.current = some segment) :
    Meets (rejectCurrent lost n) s (fun _ _ => False)
      (fun stop s' => stop = .error (.readTruncated lost n) ∧
        s' = { s with
          pending := segment.id :: s.pending, current := none, reopened := some segment.id }) := by
  simp only [rejectCurrent, meets_bind, meets_get, current, meets_set, meets_fail]
  trivial

/-- Checking a crossing lets exactly the next file of the strand through, from
a file that shows all of its data section. -/
theorem checkCrossing_spec {s : ReadState} {k j k' j' : Nat} {σ τ : Strand} {id id' : SegId}
    {c c' i x : Nat} (fileAt : S.log.FileAt k j σ id) (shown : c ≤ (σ.data j).length)
    (fileAt' : S.log.FileAt k' j' τ id') (sameSession : τ.sessionId = σ.sessionId)
    (current : s.current = some (opened τ j' id' c')) (noHint : s.recovery = none)
    (place : j * σ.dataSection + c = σ.start i + x) (index : i ≤ σ.records.length)
    (tracks : Tracks s.cursor σ i x) (wants : Wants s σ i x) :
    Meets (checkCrossing S.env (c < σ.dataSection) (some (σ.header j id).sequence)
        (opened τ j' id' c')) s
      (fun _ s' => k' = k ∧ j' = j + 1 ∧ c = σ.dataSection ∧ ToldOnly s s' ∧
        Tracks s'.cursor σ i x)
      (fun stop s' => ¬ (k' = k ∧ j' = j + 1 ∧ c = σ.dataSection) ∧
        stop = .error (.readTruncated (τ.firstSequence + j' - (σ.firstSequence + j + 1))
          s.cursor.payloadInBuf) ∧
        s' = { s with
          pending := id' :: s.pending, current := none, reopened := some id'
          recovery := s'.recovery, cursor := s'.cursor } ∧
        (∀ hint, s'.recovery = some hint → hint.segment = id' ∧ Hints k' j' τ hint k (i + 1)) ∧
        (σ.format = .variableSimple → s'.recovery = hintAfter σ j c i x τ j' id')) := by
  have whole := σ.length_data_le j
  simp only [checkCrossing, meets_bind]
  refine (checkRemaining_spec tracks wants index fileAt'.lt).imp ?_ (by simp)
  rintro denied t ⟨told, continues⟩
  refine (checkSequence_spec fileAt.lt fileAt'.lt).imp ?_ (by simp)
  rintro ⟨outOfOrder, lost⟩ t' ⟨rfl, rfl, rfl⟩
  have countsTold : Counts t'.cursor σ i x := by
    rw [told]
    exact ⟨tracks.consumed, tracks.within, tracks.total⟩
  have currentTold : t'.current = some (opened τ j' id' c') := by rw [told, current]
  have noHintTold : t'.recovery = none := by rw [told, noHint]
  have placedTold : t'.cursor.payloadInBuf = s.cursor.payloadInBuf := by rw [told]
  have headerTold : t'.cursor.total = none → x < σ.format.dataHeaderLen := by
    rw [told]
    exact wants.header
  have next (same : k' = k ∧ j' = j + 1 ∧ c = σ.dataSection) :
      τ = σ ∧ j' * σ.dataSection = σ.start i + x := by
    obtain ⟨rfl, rfl, rfl⟩ := same
    refine ⟨Option.some.inj (fileAt'.strandAt.symm.trans fileAt.strandAt), ?_⟩
    rw [Nat.succ_mul, place]
  simp only [meets_ite, meets_bind, meets_get, meets_pure]
  refine ⟨fun bad => ?_, fun good => ?_⟩
  · have notNext : ¬ (k' = k ∧ j' = j + 1 ∧ c = σ.dataSection) := by
      intro same
      obtain ⟨rfl, nextPlace⟩ := next same
      obtain ⟨passed, _⟩ := continues rfl nextPlace
      obtain ⟨rfl, rfl, rfl⟩ := same
      simp [passed] at bad
      omega
    refine ⟨fun oneLost => ?_, fun several => ?_⟩
    · obtain ⟨oneLost, notShort⟩ := oneLost
      have full : c = σ.dataSection := by
        have := of_decide_eq_false notShort
        omega
      refine (noteRecovery_spec id' countsTold headerTold noHintTold).imp ?_ (by simp)
      rintro _ u ⟨noted, hints, exactly⟩
      have currentNoted : u.current = some (opened τ j' id' c') := by rw [noted, currentTold]
      refine (rejectCurrent_spec _ _ currentNoted).imp (by simp) ?_
      rintro stop s' ⟨rfl, result⟩
      refine ⟨notNext, ?_, ?_, fun hint hinted => ?_, fun simple => ?_⟩
      · rw [noted, placedTold]
      · rw [result, noted, told]
        rfl
      · have hinted' : u.recovery = some hint := by
          rw [result] at hinted
          exact hinted
        obtain ⟨segment, owes⟩ := hints hint hinted'
        refine ⟨segment, fun simple notFirst => ?_⟩
        obtain ⟨rfl, rfl⟩ := fileAt.next_but_one fileAt' sameSession (by omega) notFirst (by omega)
        obtain rfl := Option.some.inj (fileAt'.strandAt.symm.trans fileAt.strandAt)
        refine ⟨rfl, i + 1, Nat.le_refl _, ?_⟩
        rw [owes simple, ← place, Nat.add_mul, full]
        omega
      · rw [result, hintAfter]
        simp only [oneLost, full, true_and]
        exact exactly simple
    · refine (rejectCurrent_spec _ _ currentTold).imp (by simp) ?_
      rintro stop s' ⟨rfl, result⟩
      refine ⟨notNext, by rw [placedTold], ?_, fun hint hinted => ?_, fun _ => ?_⟩
      · rw [result, told]
        rfl
      · rw [result] at hinted
        simp [noHintTold] at hinted
      · rw [result, hintAfter, if_neg, ← noHintTold]
        rintro ⟨oneLost, rfl, _⟩
        exact several ⟨oneLost, decide_eq_false (Nat.lt_irrefl _)⟩
  · simp only [Bool.or_eq_true, decide_eq_true_eq, not_or, not_not, Bool.not_eq_true] at good
    obtain ⟨⟨passed, notShort⟩, inOrder⟩ := good
    have full : c = σ.dataSection := by omega
    obtain ⟨rfl, rfl⟩ := fileAt.next_of_sequence fileAt' sameSession (by omega) (by omega)
    obtain ⟨rfl, nextPlace⟩ := next ⟨rfl, rfl, full⟩
    exact ⟨rfl, rfl, full, told, (continues rfl nextPlace).2⟩

/-! ## Crossing -/

/-- A crossing that was allowed led to the next file of the strand. -/
structure Crossed (S : Scene) (s : ReadState) (k j : Nat) (σ : Strand) (c i x : Nat)
    (s' : ReadState) (id' : SegId) (c' : Nat) : Prop where
  found : S.Found s'.ops s.pending id' s'.pending k (j + 1) σ c'
  full : c = σ.dataSection
  mid : S.Mid s' k (j + 1) σ id' c' 0 i x
  carried : Carried s s'
  dst : s'.dst = s.dst
  payloadInBuf : s'.cursor.payloadInBuf = s.cursor.payloadInBuf
  inPayload : s'.cursor.inPayload = s.cursor.inPayload
  total : s'.cursor.total = s.cursor.total

/-- A record that ended at a crossing left the reader in its scene. -/
structure Broke (S : Scene) (s : ReadState) (k j : Nat) (σ : Strand) (c i x : Nat)
    (e : LogError) (s' : ReadState) : Prop where
  cause : S.Break s k j σ c i x s.cursor.payloadInBuf e s'
  named : S.Named s'
  carried : Carried s s'
  dst : s'.dst = s.dst
  closed : s'.current = none

theorem Found.suffix {ops : List ReadOp} {pending rest : List SegId} {id : SegId} {k j c : Nat}
    {σ : Strand} (found : S.Found ops pending id rest k j σ c) : id :: rest <:+ pending := by
  obtain ⟨⟨front, rfl, _⟩, _⟩ := found
  exact List.suffix_append _ _

theorem Found.mono {ops ops' : List ReadOp} {pending rest : List SegId} {id : SegId} {k j c : Nat}
    {σ : Strand} (found : S.Found ops pending id rest k j σ c) (grew : ops <+: ops') :
    S.Found ops' pending id rest k j σ c := by
  obtain ⟨⟨front, split, missed⟩, measured⟩ := found
  exact ⟨⟨front, split, fun p mem => (missed p mem).mono grew⟩, measured.mono grew⟩

theorem Open.listed {s : ReadState} {k j c pos : Nat} {σ : Strand} {id : SegId}
    (isOpen : S.Open s k j σ id c pos) : ∀ p ∈ s.pending, p ∈ S.listing :=
  fun _ mem => isOpen.suffix.mem (List.mem_cons_of_mem _ mem)

/-- Across a boundary that is in order the record goes on in the next file. -/
theorem Mid.crossed {s t u : ReadState} {k j c i x c' : Nat} {σ : Strand} {id id' : SegId}
    {rest : List SegId} (mid : S.Mid s k j σ id c c i x) (grew : s.ops <+: t.ops)
    (found : S.Found t.ops s.pending id' rest k (j + 1) σ c') (full : c = σ.dataSection)
    (result : t = { s with
      toLogRead := ({ s.toLogRead with current := none, pending := rest }).adopt (opened σ (j + 1) id' c')
      ops := t.ops })
    (told : ToldOnly t u) (tracks : Tracks u.cursor σ i x) : S.Crossed s k j σ c i x u id' c' := by
  have pending : u.pending = rest := by rw [told, result]; simp
  have ops : u.ops = t.ops := by rw [told]
  have found' : S.Found u.ops s.pending id' u.pending k (j + 1) σ c' := by
    rw [pending, ops]
    exact found
  refine ⟨found', full, ⟨⟨?_, ?_, found'.measured, ?_, Nat.zero_le _, ?_, ?_, ?_⟩,
    ?_, mid.index, tracks⟩, ⟨?_, ?_, ?_⟩, ?_, ?_, ?_, ?_⟩
  · rw [told, result]
    exact ⟨by simpa using mid.named.namePrefix, by simpa using mid.named.nameSuffix⟩
  · exact found'.suffix.trans ((List.suffix_cons _ _).trans mid.suffix)
  · rw [told, result, LogRead.adopt_current]
    rfl
  · rw [told, result]
    simp [mid.session]
  · rw [told, result]
    simp [opened]
  · rw [told, result]
    simp [mid.noHint]
  · rw [Nat.succ_mul, ← mid.place, full]
    rfl
  all_goals rw [told, result]
  · exact grew
  · simp [mid.session]
  · simp

/-- Across any other the record breaks off. -/
theorem Mid.rejected {s t u : ReadState} {k j c i x k' j' c' : Nat} {σ τ : Strand} {id id' : SegId}
    {rest : List SegId} (mid : S.Mid s k j σ id c c i x) (grew : s.ops <+: t.ops)
    (found : S.Found t.ops s.pending id' rest k' j' τ c') (sameSession : τ.sessionId = σ.sessionId)
    (denied : ¬ (k' = k ∧ j' = j + 1 ∧ c = σ.dataSection))
    (result : t = { s with
      toLogRead := ({ s.toLogRead with current := none, pending := rest }).adopt (opened τ j' id' c')
      ops := t.ops })
    (given : u = { t with
      pending := id' :: t.pending, current := none, reopened := some id'
      recovery := u.recovery, cursor := u.cursor })
    (hints : ∀ hint, u.recovery = some hint → hint.segment = id' ∧ Hints k' j' τ hint k (i + 1))
    (noted : σ.format = .variableSimple → u.recovery = hintAfter σ j c i x τ j' id') :
    S.Broke s k j σ c i x (.readTruncated (τ.firstSequence + j' - (σ.firstSequence + j + 1))
      s.cursor.payloadInBuf) u := by
  have ops : u.ops = t.ops := by rw [given]
  refine ⟨.rejected (ops ▸ found) sameSession denied ?_ ?_ hints noted, ?_, ⟨?_, ?_, ?_⟩, ?_, ?_⟩
  · rw [given, result]
    simp
  · rw [given, result]
    simp [mid.session]
  · rw [given, result]
    exact ⟨by simpa using mid.named.namePrefix, by simpa using mid.named.nameSuffix⟩
  · rw [ops]
    exact grew
  · rw [given, result]
    simp [mid.session]
  · rw [given, result]
    simp
  · rw [given, result]
  · rw [given]

theorem cross_spec {s : ReadState} {k j c i x : Nat} {σ : Strand} {id : SegId}
    (mid : S.Mid s k j σ id c c i x) (wants : Wants s σ i x) :
    Meets (cross S.env) s (fun _ s' => ∃ id' c', S.Crossed s k j σ c i x s' id' c')
      (fun stop s' => ∃ e, stop = .error e ∧ S.Broke s k j σ c i x e s') := by
  have prevShort : (s.current.any fun segment => segment.dataLen < segment.header.dataLen) =
      decide (c < σ.dataSection) := by
    rw [mid.current]
    rfl
  have named : S.Named { s with current := none } := ⟨mid.named.namePrefix, mid.named.nameSuffix⟩
  simp only [cross, meets_bind, meets_get, meets_set, meets_attempt, prevShort]
  refine (openNext_spec named mid.listed).imp ?_ ?_
  · rintro isOpen t ⟨grew, opening⟩
    cases opening with
    | none missed result =>
        refine ⟨_, rfl, .ended missed ?_ ?_ ?_, ?_, ⟨grew, ?_, ?_⟩, ?_, ?_⟩ <;> rw [result]
        · exact mid.noHint
        · exact ⟨mid.named.namePrefix, mid.named.nameSuffix⟩
    | @file _ id' rest k' j' τ c' found session result =>
        have sameSession : τ.sessionId = σ.sessionId := by
          rcases session with none | some
          · exact absurd (mid.session.symm.trans none) (by simp)
          · exact (Option.some.inj (mid.session.symm.trans some)).symm
        have current : t.current = some (opened τ j' id' c') := by rw [result]; simp
        have noHint : t.recovery = none := by rw [result]; simp [mid.noHint]
        have cursor : t.cursor = s.cursor := by rw [result]
        simp only [meets_bind, meets_get, current, mid.prevSeq]
        have wants' : Wants t σ i x := ⟨wants.more, by rw [cursor]; exact wants.header⟩
        refine (checkCrossing_spec mid.measured.fileAt mid.measured.within found.measured.fileAt
          sameSession current noHint mid.place mid.index (cursor ▸ mid.tracks) wants').imp ?_ ?_
        · rintro _ u ⟨rfl, rfl, full, told, tracks⟩
          obtain rfl : τ = σ :=
            Option.some.inj (found.measured.fileAt.strandAt.symm.trans mid.measured.fileAt.strandAt)
          exact ⟨id', c', mid.crossed grew found full result told tracks⟩
        · rintro stop u ⟨denied, rfl, given, hints, noted⟩
          rw [cursor]
          exact ⟨_, rfl, mid.rejected grew found sameSession denied result given hints noted⟩
  · rintro stop t ⟨grew, rfl, id', rest, k', j', τ, c', boundary⟩
    obtain ⟨sid, known, differs⟩ := boundary.session
    have differs' : τ.sessionId ≠ σ.sessionId := by
      rw [Option.some.inj (mid.session.symm.trans known)]
      exact differs.symm
    have consumed := mid.tracks.consumed
    simp only [meets_ite, meets_bind, meets_modify, meets_fail, true_and, consumed]
    refine ⟨fun begun => ⟨_, rfl, ?_⟩, fun fresh => ⟨_, rfl, ?_⟩⟩
    · refine ⟨.boundary boundary.found differs' ?_ ?_ ?_ (if_neg (by omega)).symm, ?_, ⟨grew, ?_, ?_⟩,
        ?_, ?_⟩ <;> rw [boundary.result]
      · rw [mid.session, if_neg (by omega)]
      · exact ⟨mid.named.namePrefix, mid.named.nameSuffix⟩
    · refine ⟨.boundary boundary.found differs' ?_ ?_ ?_ (if_pos (by omega)).symm, ?_, ⟨grew, ?_, ?_⟩,
        ?_, ?_⟩ <;> rw [boundary.result]
      · rw [if_pos (by omega)]
      · exact ⟨mid.named.namePrefix, mid.named.nameSuffix⟩

end Scene

end Tcslog
