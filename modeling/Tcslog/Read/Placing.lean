import Tcslog.Read.Standing

/-!
# What a call places in the buffer

Reading moves bytes of the record into the buffer and counts those that are
payload.  Opening files and crossing into them places nothing, and a record that
ends early is reported with the count reached so far.
-/

namespace Tcslog

open Lib.Program

/-- Nothing was placed and no byte of the record read. -/
structure KeepsPlaced (s s' : ReadState) : Prop where
  dst : s'.dst = s.dst
  consumed : s'.cursor.consumed = s.cursor.consumed
  payloadInBuf : s'.cursor.payloadInBuf = s.cursor.payloadInBuf
  inPayload : s'.cursor.inPayload = s.cursor.inPayload

/-- How moving on in a record may fail: a record that was begun ends early, with
the bytes of it that were placed. -/
inductive Breaks (s : ReadState) : Stop → Prop
  | panic : Breaks s .panic
  | truncated (lost : Nat) : Breaks s (.error (.readTruncated lost s.cursor.payloadInBuf))
  | boundary (fresh : s.cursor.consumed = 0) : Breaks s (.error .sessionEnd)

namespace KeepsPlaced

theorem refl (s : ReadState) : KeepsPlaced s s :=
  ⟨rfl, rfl, rfl, rfl⟩

theorem trans {s t u : ReadState} (first : KeepsPlaced s t) (second : KeepsPlaced t u) :
    KeepsPlaced s u :=
  ⟨second.dst.trans first.dst, second.consumed.trans first.consumed,
    second.payloadInBuf.trans first.payloadInBuf, second.inPayload.trans first.inPayload⟩

theorem of_onlyAsked {s s' : ReadState} (asked : OnlyAsked s s') : KeepsPlaced s s' := by
  rw [asked.same]
  exact ⟨rfl, rfl, rfl, rfl⟩

theorem of_opening {dir : Dir} {s s' : ReadState} {result : Except LogError Bool}
    (opening : Opening dir s result s') : KeepsPlaced s s' := by
  cases opening with
  | ended none result =>
      rw [result]
      exact ⟨rfl, rfl, rfl, rfl⟩
  | opened first continues result =>
      rw [result]
      exact ⟨rfl, rfl, rfl, rfl⟩
  | boundary first session differs result =>
      rw [result]
      exact ⟨rfl, rfl, rfl, rfl⟩

/-- What fails after nothing was placed fails as it would have before. -/
theorem breaks {s s' : ReadState} {stop : Stop} (keeps : KeepsPlaced s s') (breaks : Breaks s' stop) :
    Breaks s stop := by
  cases breaks with
  | panic => exact .panic
  | truncated lost => exact keeps.payloadInBuf ▸ .truncated lost
  | boundary fresh => exact .boundary (keeps.consumed ▸ fresh)

end KeepsPlaced

section Keeps

variable {dir : Dir} {overflowChecks : Bool}

/-- Arithmetic fails by panic only. -/
theorem subU64_keeps (a b : Nat) (s : ReadState) :
    Meets (subU64 overflowChecks a b) s (fun _ s' => s' = s) (fun stop s' => stop = .panic ∧ s' = s) := by
  unfold subU64
  simp only [meets_ite, meets_pure, meets_throw, implies_true, and_self]

theorem addU64_keeps (a b : Nat) (s : ReadState) :
    Meets (addU64 overflowChecks a b) s (fun _ s' => s' = s) (fun stop s' => stop = .panic ∧ s' = s) := by
  unfold addU64
  simp only [meets_ite, meets_pure, meets_throw, implies_true, and_self]

theorem checkRemaining_keeps (env : ReadEnv) (header : SegmentHeader) (s : ReadState) :
    Meets (checkRemaining env header) s (fun _ s' => KeepsPlaced s s')
      (fun stop s' => stop = .panic ∧ KeepsPlaced s s') := by
  simp only [checkRemaining, meets_bind, meets_get, meets_ite, meets_pure]
  refine ⟨fun _ => .refl s, fun _ => ?_⟩
  cases total : s.cursor.total with
  | none =>
      simp only [meets_ite, meets_bind, meets_set, meets_pure]
      exact ⟨fun _ => .refl s, fun _ => ⟨rfl, rfl, rfl, rfl⟩⟩
  | some total =>
      simp only [meets_bind]
      refine (subU64_keeps _ _ s).imp ?_ ?_
      · rintro owed _ rfl
        exact .refl _
      · rintro stop _ ⟨rfl, rfl⟩
        exact ⟨rfl, .refl _⟩

theorem checkSequence_keeps (env : ReadEnv) (prevSeq : Option SeqId) (sequence : SeqId)
    (s : ReadState) :
    Meets (checkSequence env prevSeq sequence) s (fun _ s' => s' = s)
      (fun stop s' => stop = .panic ∧ s' = s) := by
  cases prevSeq with
  | none => exact meets_pure.mpr rfl
  | some prev =>
      simp only [checkSequence, meets_bind]
      refine (addU64_keeps _ _ s).imp ?_ fun _ _ failed => failed
      rintro expected _ rfl
      simp only [meets_ite, meets_bind, meets_pure, implies_true, true_and, and_true]
      intro _ _
      refine (subU64_keeps _ _ _).imp ?_ fun _ _ failed => failed
      rintro ahead _ rfl
      exact (subU64_keeps _ _ _).imp (fun _ _ same => same) fun _ _ failed => failed

theorem noteRecovery_keeps (env : ReadEnv) (id : SegId) (s : ReadState) :
    Meets (noteRecovery env id) s (fun _ s' => KeepsPlaced s s')
      (fun stop s' => stop = .panic ∧ KeepsPlaced s s') := by
  simp only [noteRecovery, meets_bind, meets_get]
  cases s.cursor.total with
  | none => exact .refl s
  | some total =>
      simp only [meets_bind]
      refine (subU64_keeps _ _ s).imp ?_ ?_
      · rintro owed _ rfl
        exact ⟨rfl, rfl, rfl, rfl⟩
      · rintro stop _ ⟨rfl, rfl⟩
        exact ⟨rfl, .refl _⟩

/-- A file handed back ends the record with the bytes that were placed. -/
theorem reject_keeps (lost : Nat) (s : ReadState) :
    Meets (do rejectCurrent lost (← get).cursor.payloadInBuf) s (fun _ _ => False)
      (fun stop s' => KeepsPlaced s s' ∧ Breaks s stop) := by
  simp only [rejectCurrent, meets_bind, meets_get]
  cases s.current with
  | none => exact ⟨.refl s, .truncated lost⟩
  | some segment => exact ⟨⟨rfl, rfl, rfl, rfl⟩, .truncated lost⟩

theorem checkCrossing_keeps (env : ReadEnv) (prevShort : Bool) (prevSeq : Option SeqId)
    (segment : Segment) (s : ReadState) :
    Meets (checkCrossing env prevShort prevSeq segment) s (fun _ s' => KeepsPlaced s s')
      (fun stop s' => KeepsPlaced s s' ∧ Breaks s stop) := by
  have rejects (lost : Nat) {t : ReadState} (keeps : KeepsPlaced s t) :
      Meets (do rejectCurrent lost (← get).cursor.payloadInBuf) t (fun _ s' => KeepsPlaced s s')
        (fun stop s' => KeepsPlaced s s' ∧ Breaks s stop) :=
    (reject_keeps lost t).imp (fun _ _ impossible => impossible.elim)
      fun _ _ failed => ⟨keeps.trans failed.1, keeps.breaks failed.2⟩
  simp only [checkCrossing]
  refine meets_bind.mpr ((checkRemaining_keeps env _ s).imp ?_ ?_)
  · intro denied t keeps
    refine meets_bind.mpr ((checkSequence_keeps env _ _ t).imp ?_ ?_)
    · rintro sequence _ rfl
      refine meets_ite.mpr ⟨fun _ => meets_ite.mpr ⟨fun _ => ?_, fun _ => rejects _ keeps⟩, fun _ => keeps⟩
      refine meets_bind.mpr ((noteRecovery_keeps env _ _).imp ?_ ?_)
      · exact fun _ _ noted => rejects _ (keeps.trans noted)
      · rintro stop u ⟨rfl, noted⟩
        exact ⟨keeps.trans noted, .panic⟩
    · rintro stop _ ⟨rfl, rfl⟩
      exact ⟨keeps, .panic⟩
  · rintro stop t ⟨rfl, keeps⟩
    exact ⟨keeps, .panic⟩

/-- A crossing places nothing.  Part way through a record, what it fails with is
an early end of the record. -/
theorem cross_keeps (s : ReadState) :
    Meets (cross (.still dir noFault overflowChecks)) s (fun _ s' => KeepsPlaced s s')
      (fun stop s' => KeepsPlaced s s' ∧ Breaks s stop) := by
  have toStart {t : ReadState} (keeps : KeepsPlaced { s with current := none } t) :
      KeepsPlaced s t := ⟨keeps.dst, keeps.consumed, keeps.payloadInBuf, keeps.inPayload⟩
  simp only [cross, meets_bind, meets_get, meets_set, meets_attempt]
  refine (openNext_still _).imp ?_ ?_
  · intro opened t opening
    have keeps := toStart (.of_opening opening)
    cases opened with
    | false => exact ⟨keeps, .truncated 0⟩
    | true =>
        simp only [meets_bind, meets_get]
        cases t.current with
        | none => exact ⟨keeps, .truncated 0⟩
        | some segment =>
            refine (checkCrossing_keeps _ _ _ segment t).imp (fun _ _ after => keeps.trans after) ?_
            exact fun _ _ failed => ⟨keeps.trans failed.1, keeps.breaks failed.2⟩
  · rintro stop t ⟨e, rfl, opening⟩
    have keeps := toStart (.of_opening opening)
    cases opening with
    | boundary first session differs result =>
        simp only [meets_ite, meets_bind, meets_modify, meets_fail]
        refine ⟨fun _ => ⟨⟨keeps.dst, keeps.consumed, keeps.payloadInBuf, keeps.inPayload⟩, .truncated 0⟩,
          fun fresh => ⟨keeps, .boundary ?_⟩⟩
        rw [not_and, Nat.not_lt, Nat.le_zero] at fresh
        exact fresh trivial

theorem crossIfExhausted_keeps (s : ReadState) :
    Meets (crossIfExhausted (.still dir noFault overflowChecks)) s (fun _ s' => KeepsPlaced s s')
      (fun stop s' => KeepsPlaced s s' ∧ Breaks s stop) := by
  simp only [crossIfExhausted, meets_bind, meets_get, meets_ite, meets_pure]
  exact ⟨fun _ => cross_keeps s, fun _ => .refl s⟩

end Keeps

/-! ## Transfers -/

section Transfer

variable {dir : Dir} {overflowChecks : Bool}

/-- `n` bytes of the record were read and placed. -/
structure Places (n : Nat) (s s' : ReadState) : Prop where
  dst : ∃ bytes, s'.dst = s.dst ++ bytes ∧ bytes.length = n
  consumed : s'.cursor.consumed = s.cursor.consumed + n
  payloadInBuf : s'.cursor.payloadInBuf =
    if s.cursor.inPayload then min (s.cursor.payloadInBuf + n) u32Max else s.cursor.payloadInBuf
  inPayload : s'.cursor.inPayload = s.cursor.inPayload

/-- The payload bytes counted do not exceed what the counter holds. -/
def Counted (s : ReadState) : Prop :=
  s.cursor.payloadInBuf ≤ u32Max

theorem KeepsPlaced.places {s s' : ReadState} (keeps : KeepsPlaced s s') (counted : Counted s) :
    Places 0 s s' := by
  refine ⟨⟨[], by rw [keeps.dst, List.append_nil], rfl⟩, keeps.consumed, ?_, keeps.inPayload⟩
  have := keeps.payloadInBuf
  unfold Counted at counted
  split <;> omega

theorem Places.trans {s t u : ReadState} {m n : Nat} (first : Places m s t) (second : Places n t u) :
    Places (m + n) s u := by
  obtain ⟨bytes, dst, length⟩ := first.dst
  obtain ⟨bytes', dst', length'⟩ := second.dst
  have here := first.payloadInBuf
  have there := second.payloadInBuf
  rw [first.inPayload] at there
  refine ⟨⟨bytes ++ bytes', by rw [dst', dst, List.append_assoc], by simp [length, length']⟩, ?_, ?_,
    second.inPayload.trans first.inPayload⟩
  · rw [second.consumed, first.consumed, Nat.add_assoc]
  · split at here <;> simp_all
    omega

theorem Places.counted {s s' : ReadState} {n : Nat} (places : Places n s s') (counted : Counted s) :
    Counted s' := by
  have := places.payloadInBuf
  unfold Counted at counted ⊢
  split at this <;> omega

/-- What reading does to the cursor. -/
theorem cursor_read_payloadInBuf {cursor : Cursor} {n : Nat} (counted : cursor.payloadInBuf ≤ u32Max) :
    (cursor.read n).payloadInBuf =
      if cursor.inPayload then min (cursor.payloadInBuf + n) u32Max else cursor.payloadInBuf := by
  have bound := counted
  simp only [Cursor.read]
  split
  · omega
  · rfl

theorem fillChunk_places (len : Nat) {s : ReadState} (standing : Standing dir s) (counted : Counted s) :
    Meets (fillChunk (.still dir noFault overflowChecks) len) s
      (fun n s' => n ≤ len ∧ Standing dir s' ∧ Places n s s')
      (fun stop s' => KeepsPlaced s s' ∧ Breaks s stop) := by
  have standing' : Meets (fillChunk (.still dir noFault overflowChecks) len) s
      (fun _ s' => Standing dir s') (fun _ s' => Standing dir s') := fillChunk_standing len s standing
  suffices placed : Meets (fillChunk (.still dir noFault overflowChecks) len) s
      (fun n s' => n ≤ len ∧ Places n s s') (fun stop s' => KeepsPlaced s s' ∧ Breaks s stop) by
    exact (placed.and standing').imp (fun _ _ both => ⟨both.1.1, both.2, both.1.2⟩) fun _ _ both => both.1
  have keeps : Meets (crossIfExhausted (.still dir noFault overflowChecks)) s
      (fun _ s' => KeepsPlaced s s') (fun stop s' => KeepsPlaced s s' ∧ Breaks s stop) :=
    crossIfExhausted_keeps s
  have crossed := keeps.and (crossIfExhausted_standing s standing)
  simp only [fillChunk, meets_bind]
  refine crossed.imp ?_ fun _ _ failed => failed.1
  rintro _ t ⟨keeps, standing''⟩
  simp only [meets_get]
  cases current : t.current with
  | none => exact ⟨keeps, keeps.breaks (.truncated 0)⟩
  | some segment =>
      have isOpen := standing'' segment current
      have posLe := isOpen.posLe
      simp only [meets_bind, meets_modify, meets_pure]
      refine (readExact_still isOpen (by omega)).imp ?_ fun _ _ impossible => impossible.elim
      rintro bytes u ⟨asked, rfl⟩
      refine ⟨Nat.min_le_right _ _, ?_⟩
      have length := isOpen.length_bytes
        (n := min (segment.dataLen - segment.pos) len) (by omega)
      have before := keeps.places counted
      have here : Places (min (segment.dataLen - segment.pos) len) t { u with
          current := some { segment with
            pos := segment.pos + min (segment.dataLen - segment.pos) len
            offset := segment.offset + min (segment.dataLen - segment.pos) len }
          cursor := u.cursor.read (min (segment.dataLen - segment.pos) len)
          dst := u.dst ++ segment.bytes (t.files dir) (min (segment.dataLen - segment.pos) len) } := by
        rw [asked.same]
        exact ⟨⟨_, rfl, length⟩, rfl, cursor_read_payloadInBuf (before.counted counted), rfl⟩
      have both := before.trans here
      rwa [Nat.zero_add] at both

/-- A record that ends early during a transfer of `len` bytes has placed fewer
of them. -/
theorem fill_places (len : Nat) {s : ReadState} (standing : Standing dir s) (counted : Counted s) :
    Meets (fill (.still dir noFault overflowChecks) len) s
      (fun _ s' => Standing dir s' ∧ Places len s s')
      (fun stop s' => ∃ n t, n < len ∧ Places n s t ∧ KeepsPlaced t s' ∧ Breaks t stop) := by
  refine (meets_repeatPass (fun rest t => rest ≤ len ∧ Standing dir t ∧ Places (len - rest) s t)
    ?_ ⟨Nat.le_refl _, standing, ?_⟩).imp ?_ fun _ _ failed => failed
  · rintro rest t positive ⟨le, standing', places⟩
    refine (fillChunk_places rest standing' (places.counted counted)).imp ?_ ?_
    · rintro n u ⟨within, standing'', more⟩
      have sum : len - rest + n = len - (rest - n) := by omega
      exact ⟨by omega, standing'', sum ▸ places.trans more⟩
    · rintro stop u ⟨keeps, breaks⟩
      exact ⟨len - rest, t, by omega, places, keeps, breaks⟩
  · rw [Nat.sub_self]
    exact (KeepsPlaced.refl s).places counted
  · rintro _ t ⟨_, standing', places⟩
    exact ⟨standing', places⟩

end Transfer

/-! ## Before the payload -/

section BeforePayload

open Lib.LittleEndian

variable {dir : Dir} {overflowChecks : Bool}

/-- No payload was placed, and none is being placed. -/
structure Unplaced (s : ReadState) : Prop where
  payloadInBuf : s.cursor.payloadInBuf = 0
  inPayload : s.cursor.inPayload = false

/-- An early end of a record is reported without any bytes. -/
def Bare (stop : Stop) : Prop :=
  ∀ {lost n}, stop = .error (.readTruncated lost n) → n = 0

theorem bare_of_ne {stop : Stop} (notTruncated : ∀ lost n, stop ≠ .error (.readTruncated lost n)) :
    Bare stop :=
  fun same => absurd same (notTruncated _ _)

theorem bare_truncated (lost : Nat) : Bare (.error (.readTruncated lost 0)) := by
  intro _ n same
  cases same
  rfl

namespace Unplaced

variable {s s' : ReadState}

theorem of_keeps (unplaced : Unplaced s) (keeps : KeepsPlaced s s') : Unplaced s' :=
  ⟨keeps.payloadInBuf.trans unplaced.payloadInBuf, keeps.inPayload.trans unplaced.inPayload⟩

theorem of_places {n : Nat} (unplaced : Unplaced s) (places : Places n s s') : Unplaced s' := by
  have payload := places.payloadInBuf
  rw [unplaced.inPayload, if_neg Bool.false_ne_true] at payload
  exact ⟨payload.trans unplaced.payloadInBuf, places.inPayload.trans unplaced.inPayload⟩

theorem counted (unplaced : Unplaced s) : Counted s := by
  rw [Counted, unplaced.payloadInBuf]
  exact Nat.zero_le _

theorem bare {stop : Stop} (unplaced : Unplaced s) (breaks : Breaks s stop) : Bare stop := by
  cases breaks with
  | panic => exact bare_of_ne (by simp)
  | truncated lost =>
      rw [unplaced.payloadInBuf]
      exact bare_truncated lost
  | boundary => exact bare_of_ne (by simp)

end Unplaced

theorem recoveredPayloadLen_le {recovery : Recovery} {id : SegId} {format : Format}
    {remaining dataSection n : Nat}
    (recovers : recoveredPayloadLen recovery id format remaining dataSection = some n) :
    n ≤ u32Max := by
  unfold recoveredPayloadLen at recovers
  split at recovers
  · contradiction
  split at recovers
  · contradiction
  split at recovers
  · contradiction
  split at recovers
  · contradiction
  split at recovers
  next within =>
    obtain rfl := Option.some.inj recovers
    exact within
  · contradiction

/-- What an opening fails with is the end of a session. -/
theorem Opening.bare {s s' : ReadState} {e : LogError} (opening : Opening dir s (.error e) s') :
    Bare (.error e) := by
  cases opening
  exact bare_of_ne (by simp)

/-- Looking for a record boundary places nothing. -/
theorem examineNext_unplaced {s : ReadState} (unplaced : Unplaced s) :
    Meets (examineNext (.still dir noFault overflowChecks)) s
      (fun start s' => Unplaced s' ∧ ∀ n, start = some (.recovered n) → n ≤ u32Max)
      (fun stop s' => Unplaced s' ∧ Bare stop) := by
  have forgotten : Unplaced { s with recovery := none } := ⟨unplaced.payloadInBuf, unplaced.inPayload⟩
  simp only [examineNext, meets_bind, meets_get, meets_modify, meets_ite]
  refine (openNext_still _).imp ?_ ?_
  · intro opened t opening
    have here := forgotten.of_keeps (.of_opening opening)
    refine ⟨fun isOpen => ?_, fun _ => ⟨here, bare_of_ne (by simp)⟩⟩
    subst isOpen
    obtain ⟨segment, current, isOpen, _⟩ := opening.current
    simp only [current]
    split
    next n found =>
      refine ⟨here, fun n' same => ?_⟩
      obtain rfl := Start.recovered.inj (Option.some.inj same)
      obtain ⟨known, _, recovers⟩ := Option.bind_eq_some_iff.mp found
      exact recoveredPayloadLen_le recovers
    · simp only [meets_ite, meets_bind, meets_modify, meets_pure]
      refine ⟨fun _ => ⟨⟨here.payloadInBuf, here.inPayload⟩, by simp⟩, fun offers => ?_⟩
      refine (seekForward_still isOpen (by omega)).imp ?_ fun _ _ impossible => impossible.elim
      rintro moved u ⟨asked, rfl⟩
      have there := here.of_keeps (.of_onlyAsked asked)
      exact ⟨⟨there.payloadInBuf, there.inPayload⟩, by simp⟩
  · rintro stop t ⟨e, rfl, opening⟩
    exact ⟨forgotten.of_keeps (.of_opening opening), opening.bare⟩

theorem findRecordStart_unplaced {s : ReadState} (unplaced : Unplaced s) :
    Meets (findRecordStart (.still dir noFault overflowChecks)) s
      (fun start s' => Unplaced s' ∧ ∀ n, start = .recovered n → n ≤ u32Max)
      (fun stop s' => Unplaced s' ∧ Bare stop) := by
  refine meets_findRecordStart _ Unplaced (fun {s} unplaced => ?_) unplaced
  refine (examineNext_unplaced unplaced).imp ?_ fun _ _ failed => failed
  rintro found t ⟨unplaced', small⟩
  refine ⟨fun start isFound => ⟨unplaced', fun n same => ?_⟩, fun _ => unplaced'⟩
  subst isFound same
  exact small n rfl

theorem Unplaced.after {s : ReadState} (unplaced : Unplaced s) : Unplaced s.losePosition :=
  ⟨unplaced.payloadInBuf, unplaced.inPayload⟩

/-- Giving up the read position when a step fails changes no count. -/
theorem orLosePosition_unplaced {α : Type} {x : ReadM α} {s : ReadState} {post : α → ReadState → Prop}
    (spec : Meets x s post fun stop s' => Unplaced s' ∧ Bare stop) :
    Meets (orLosePosition x) s post fun stop s' => Unplaced s' ∧ Bare stop := by
  refine meets_orLosePosition.mpr (spec.imp (fun _ _ holds => holds) ?_)
  rintro stop t ⟨unplaced, bare⟩
  cases stop with
  | error e => exact ⟨unplaced.after, bare⟩
  | panic => exact ⟨unplaced, bare⟩
  | stuck => exact ⟨unplaced, bare⟩

theorem locate_unplaced {s : ReadState} (unplaced : Unplaced s) :
    Meets (locate (.still dir noFault overflowChecks)) s
      (fun start s' => Unplaced s' ∧ ∀ n, start = .recovered n → n ≤ u32Max)
      (fun stop s' => Unplaced s' ∧ Bare stop) := by
  simp only [locate, meets_bind, meets_get, meets_ite, meets_pure, meets_modify, meets_set, meets_fail]
  refine ⟨fun _ => ?_, fun _ => ⟨unplaced, by simp⟩⟩
  refine (orLosePosition_unplaced (findRecordStart_unplaced unplaced)).imp ?_ fun _ _ failed => failed
  rintro start t ⟨unplaced', small⟩
  exact ⟨fun _ => ⟨⟨unplaced'.payloadInBuf, unplaced'.inPayload⟩, bare_truncated _⟩,
    fun _ => ⟨⟨unplaced'.payloadInBuf, unplaced'.inPayload⟩, small⟩⟩

/-- A data header is read to its end without placing payload. -/
theorem fillBuf_unplaced (len : Nat) {s : ReadState} (standing : Standing dir s)
    (unplaced : Unplaced s) :
    Meets (fillBuf (.still dir noFault overflowChecks) len) s
      (fun head s' => head.length = len ∧ Unplaced s')
      (fun stop s' => Unplaced s' ∧ Bare stop) := by
  have empty : Unplaced { s with dst := [] } := ⟨unplaced.payloadInBuf, unplaced.inPayload⟩
  have standing' : Standing dir { s with dst := [] } := standing
  simp only [fillBuf, meets_bind, meets_modify, meets_get, meets_pure]
  refine (fill_places len standing' empty.counted).imp ?_ ?_
  · rintro _ t ⟨_, places⟩
    obtain ⟨bytes, dst, length⟩ := places.dst
    rw [dst, List.nil_append]
    exact ⟨length, empty.of_places places⟩
  · rintro stop t ⟨n, u, _, places, keeps, breaks⟩
    have there := empty.of_places places
    exact ⟨there.of_keeps keeps, there.bare breaks⟩

theorem settlePayloadLen_unplaced (decoded : Nat) {s : ReadState} (unplaced : Unplaced s) :
    Meets (settlePayloadLen decoded) s (fun n s' => n = decoded ∧ Unplaced s')
      (fun stop s' => Unplaced s' ∧ Bare stop) := by
  simp only [settlePayloadLen, rejectCurrent, meets_bind, meets_get, meets_ite, meets_pure]
  refine ⟨fun _ => ?_, fun _ => ⟨trivial, unplaced⟩⟩
  cases s.current with
  | none => exact ⟨unplaced, bare_truncated 0⟩
  | some segment => exact ⟨⟨unplaced.payloadInBuf, unplaced.inPayload⟩, bare_truncated 0⟩

theorem ofLE_le_u32Max {bytes : Bytes} (short : bytes.length ≤ 4) : ofLE bytes ≤ u32Max := by
  have less := ofLE_lt bytes
  have most : 256 ^ bytes.length ≤ 256 ^ 4 := Nat.pow_le_pow_right (by decide) short
  rw [u32Max]
  omega

theorem readDataHeader_unplaced (format : Format) (minor : Nat) {s : ReadState}
    (standing : Standing dir s) (unplaced : Unplaced s) :
    Meets (readDataHeader (.still dir noFault overflowChecks) format minor) s
      (fun decoded s' => decoded.1 ≤ u32Max ∧ Unplaced s')
      (fun stop s' => Unplaced s' ∧ Bare stop) := by
  cases format with
  | fixed n =>
      simp only [readDataHeader, setTotal, meets_bind, meets_modify, meets_pure]
      have := n.toNat_lt
      refine ⟨?_, unplaced.payloadInBuf, unplaced.inPayload⟩
      rw [u32Max]
      omega
  | variableSimple =>
      simp only [readDataHeader, meets_bind]
      refine (fillBuf_unplaced 4 standing unplaced).imp ?_ fun _ _ failed => failed
      rintro head t ⟨length, unplaced'⟩
      refine (settlePayloadLen_unplaced _ unplaced').imp ?_ fun _ _ failed => failed
      rintro n u ⟨rfl, unplaced''⟩
      simp only [setTotal, meets_modify, meets_pure]
      exact ⟨ofLE_le_u32Max length.le, unplaced''.payloadInBuf, unplaced''.inPayload⟩
  | variableTsRc =>
      simp only [readDataHeader, meets_bind]
      refine (fillBuf_unplaced _ standing unplaced).imp ?_ fun _ _ failed => failed
      rintro head t ⟨_, unplaced'⟩
      refine (settlePayloadLen_unplaced _ unplaced').imp ?_ fun _ _ failed => failed
      rintro n u ⟨rfl, unplaced''⟩
      simp only [setTotal, meets_modify, meets_pure]
      exact ⟨ofLE_le_u32Max (List.length_take_le _ _), unplaced''.payloadInBuf, unplaced''.inPayload⟩

/-- Before the payload of a record no byte of it was placed, and it is no longer
than a record can be. -/
theorem header_unplaced {start : Start} (segment : Segment) {s : ReadState}
    (small : ∀ n, start = .recovered n → n ≤ u32Max) (standing : Standing dir s)
    (unplaced : Unplaced s) :
    Meets (header (.still dir noFault overflowChecks) start segment) s
      (fun decoded s' => decoded.1 ≤ u32Max ∧ Unplaced s')
      (fun stop s' => Unplaced s' ∧ Bare stop) := by
  cases start with
  | recovered n =>
      simp only [header, meets_bind, meets_modify, meets_pure]
      exact ⟨small n rfl, unplaced.payloadInBuf, unplaced.inPayload⟩
  | fresh => exact orLosePosition_unplaced (readDataHeader_unplaced _ _ standing unplaced)

end BeforePayload

end Tcslog
