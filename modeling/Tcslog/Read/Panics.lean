import Tcslog.Read.Checked
import Tcslog.Read.Termination
import Tcslog.Read.Upholding

/-!
# The only check that fails

In a directory that nobody changes no addition or subtraction of the reader
overflows, no slice is out of bounds and no file is open when it resynchronizes,
but for one: a crossing out of a file that has the largest sequence number adds
one to it.
-/

namespace Tcslog

open Lib.Program Lib.LittleEndian

section Crossings

variable {dir : Dir} {s : CheckedState}

theorem perform_guarded (request : ReadRequest) (id : SegId) :
    Guards dir True Eq (perform (.still dir noFault false) request id)
      (unchecked (perform (.still dir noFault false) request id)) s :=
  guards_unchecked ((perform_still request id _).imp (fun _ _ _ => trivial)
    fun _ _ impossible => impossible.elim)

theorem openValidated_guarded (id : SegId) :
    Guards dir True Eq (openValidated (.still dir noFault false) id)
      (Checked.openValidated (.still dir noFault false) id) s := by
  refine guards_bind (perform_guarded .openFile id) ?_
  rintro opened _ t - rfl
  cases opened with
  | none => exact guards_pure rfl
  | some _ =>
  refine guards_bind (perform_guarded .measure id) ?_
  rintro measured _ u - rfl
  cases measured with
  | none => exact guards_pure rfl
  | some measured =>
  refine guards_ite (fun _ => guards_pure rfl) fun long => ?_
  refine guards_bind (perform_guarded .readHeader id) ?_
  rintro content _ v - rfl
  cases content with
  | none => exact guards_pure rfl
  | some content =>
  dsimp only
  cases SegmentHeader.fromBytes (content.take segmentFileHeaderLen) with
  | error e => exact guards_pure rfl
  | ok header =>
      refine guards_ite (fun _ => guards_pure rfl) fun _ => guards_ite (fun _ => guards_pure rfl) fun _ => ?_
      exact guards_subU64 (fun _ => Nat.le_of_not_lt long) fun _ => guards_pure rfl

theorem openNextOf_guarded (ids : List SegId) :
    Guards dir True Eq (openNextOf (.still dir noFault false) ids)
      (Checked.openNextOf (.still dir noFault false) ids) s := by
  induction ids generalizing s with
  | nil => exact guards_bind_modify rfl rfl (guards_pure rfl)
  | cons id rest ih =>
      refine guards_bind_modify rfl rfl (guards_bind (openValidated_guarded id) ?_)
      rintro found _ t - rfl
      cases found with
      | none => exact ih
      | some segment =>
          refine guards_bind_get (guards_ite (fun _ => ?_) fun _ => ?_)
          · exact guards_bind_set rfl (guards_fail _)
          · exact guards_bind_set rfl (guards_pure rfl)

theorem openNext_guarded :
    Guards dir True Eq (openNext (.still dir noFault false)) (Checked.openNext (.still dir noFault false)) s :=
  guards_bind_get (openNextOf_guarded _)

/-- The bytes read of a record are no more than it has. -/
def Cursor.Within (cursor : Cursor) : Prop :=
  ∀ total, cursor.total = some total → cursor.consumed ≤ total

/-- A difference that both programs take. -/
theorem guards_sub {α β : Type} {related : α → β → Prop} {checks : Bool} {a b : Nat}
    {f : Nat → ReadM α} {g : Nat → CheckedM β} (le : b ≤ a)
    (rest : Guards dir True related (f (a - b)) (g (a - b)) s) :
    Guards dir True related (subU64 checks a b >>= f) (subU64 true a b >>= g) s := by
  rw [subU64_of_le le, subU64_of_le le, pure_bind, pure_bind]
  exact rest

theorem checkRemaining_guarded (header : SegmentHeader) (within : s.cursor.Within) :
    Guards dir True Eq (checkRemaining (.still dir noFault false) header) (Checked.checkRemaining header) s := by
  refine guards_bind_get (guards_ite (fun _ => guards_pure rfl) fun _ => ?_)
  cases known : s.cursor.total with
  | some total => exact guards_sub (within total known) (guards_pure rfl)
  | none =>
      dsimp only
      by_cases short : header.remaining.toNat <
          header.format.dataHeaderLenIn header.versionMinor - s.cursor.consumed
      · rw [if_pos (.inl short), if_pos short]
        exact guards_pure rfl
      · rw [if_neg short]
        refine guards_subU64 (fun _ => Nat.le_of_not_lt short) fun _ => ?_
        by_cases differs : s.cursor.impliedPayload.any (· ≠ header.remaining.toNat -
            (header.format.dataHeaderLenIn header.versionMinor - s.cursor.consumed))
        · rw [if_pos (.inr differs), if_pos differs]
          exact guards_pure rfl
        · rw [if_neg (not_or.mpr ⟨short, differs⟩), if_neg differs]
          exact guards_bind_set rfl (guards_pure rfl)

theorem checkSequence_guarded {prevSeq : Option SeqId} (sequence : SeqId)
    (fits : ∀ prev, prevSeq = some prev → prev.toNat + 1 < 2 ^ 64) :
    Guards dir True Eq (checkSequence (.still dir noFault false) prevSeq sequence)
      (Checked.checkSequence prevSeq sequence) s := by
  cases prevSeq with
  | none => exact guards_pure rfl
  | some prev =>
      have fits := fits prev rfl
      rw [checkSequence, Checked.checkSequence, addU64_of_lt fits, addU64_of_lt fits, pure_bind, pure_bind]
      refine guards_ite (fun _ => guards_pure rfl) fun _ => guards_ite (fun ahead => ?_) fun _ => guards_pure rfl
      refine guards_sub (by omega) (guards_sub (by omega) (guards_pure rfl))

theorem noteRecovery_guarded (id : SegId) (within : s.cursor.Within) :
    Guards dir True Eq (noteRecovery (.still dir noFault false) id) (Checked.noteRecovery id) s := by
  refine guards_bind_get ?_
  cases known : s.cursor.total with
  | none => exact guards_pure rfl
  | some total =>
      refine guards_sub (within total known) ?_
      exact ⟨⟨⟩, rfl, rfl, .of_eq rfl⟩

/-- How far the record is read, and its length, are as they were. -/
def SameCount (s s' : ReadState) : Prop :=
  s'.cursor.consumed = s.cursor.consumed ∧ s'.cursor.total = s.cursor.total

theorem SameCount.refl (s : ReadState) : SameCount s s :=
  ⟨rfl, rfl⟩

theorem SameCount.trans {s t u : ReadState} (first : SameCount s t) (second : SameCount t u) : SameCount s u :=
  ⟨second.1.trans first.1, second.2.trans first.2⟩

theorem SameCount.within {s s' : ReadState} (same : SameCount s s') (within : s.cursor.Within) :
    s'.cursor.Within := by
  intro total known
  rw [same.2] at known
  rw [same.1]
  exact within total known

theorem checkRemaining_count (env : ReadEnv) (header : SegmentHeader) :
    Returns SameCount (checkRemaining env header) := by
  refine .bind_get fun s => meets_ite.mpr ⟨fun _ => .refl s, fun _ => ?_⟩
  cases known : s.cursor.total with
  | some total =>
      refine meets_bind.mpr ((subU64_keeps _ _ s).imp ?_ fun _ _ _ => trivial)
      rintro _ _ rfl
      exact .refl _
  | none => exact meets_ite.mpr ⟨fun _ => .refl s, fun _ => ⟨rfl, known.symm⟩⟩

theorem rejectCurrent_guarded (lost : Nat) :
    Guards dir True Eq (do rejectCurrent lost (← get).cursor.payloadInBuf)
      (do unchecked (rejectCurrent lost (← get).cursor.payloadInBuf)) s := by
  refine guards_bind_get (guards_unchecked ?_)
  simp only [rejectCurrent, meets_bind, meets_get]
  cases s.current <;> simp

theorem checkCrossing_guarded (prevShort : Bool) {prevSeq : Option SeqId} (segment : Segment)
    (fits : ∀ prev, prevSeq = some prev → prev.toNat + 1 < 2 ^ 64) (within : s.cursor.Within) :
    Guards dir True Eq (checkCrossing (.still dir noFault false) prevShort prevSeq segment)
      (Checked.checkCrossing prevShort prevSeq segment) s := by
  refine guards_bind (checkRemaining_guarded _ within) ?_
  rintro denied _ t ran rfl
  have within : t.cursor.Within := ((checkRemaining_count _ _).ok ran).within within
  refine guards_bind (checkSequence_guarded _ fits) ?_
  rintro sequence _ u ran rfl
  have same : u.toReadState = t.toReadState := (checkSequence_keeps _ _ _ _).of_ok ran
  refine guards_ite (fun _ => guards_ite (fun _ => ?_) fun _ => rejectCurrent_guarded _) fun _ => guards_pure rfl
  refine guards_bind (noteRecovery_guarded _ (by rw [same]; exact within)) ?_
  rintro _ _ v - rfl
  exact rejectCurrent_guarded _

theorem attempt_openNext_still (s : ReadState) :
    Meets (attempt (openNext (.still dir noFault false))) s (fun result s' => Opening dir s result s')
      (fun _ _ => False) := by
  refine meets_attempt.mpr ((openNext_still s).imp (fun _ _ opening => opening) ?_)
  rintro _ _ ⟨e, rfl, opening⟩
  exact opening

/-- A crossing that does not trip. -/
theorem crossOver_guarded (within : s.cursor.Within) (clear : ¬ s.Trips dir) :
    Guards dir True Eq (cross (.still dir noFault false)) (Checked.crossOver (.still dir noFault false)) s := by
  refine guards_bind_get (guards_bind_set rfl (guards_bind (guards_attempt openNext_guarded) ?_))
  rintro result result' t ran (⟨opened, _, rfl, rfl, rfl⟩ | ⟨e, rfl, rfl⟩)
  · have opening : Opening dir { s.toReadState with current := none } (.ok opened) t.toReadState :=
      (attempt_openNext_still _).of_ok ran
    cases opening with
    | ended none result => exact guards_fail _
    | @opened _ segment rest first continues result =>
        have current : t.current = some segment := by
          rw [result]
          exact LogRead.adopt_current _ _
        have cursor : t.cursor = s.cursor := by rw [result]
        refine guards_bind_get ?_
        simp only [current]
        refine checkCrossing_guarded _ _ (fun prev at_ => ?_) (cursor ▸ within)
        by_contra reached
        exact clear ⟨prev, segment, rest, at_, Nat.le_of_not_lt reached, first, continues⟩
  · exact guards_ite (fun _ => guards_bind_modify rfl rfl (guards_fail _)) fun _ => guards_fail _

/-- Crossings are only added. -/
def Grows (s s' : CheckedState) : Prop :=
  ∃ since, s'.crossings = s.crossings ++ since

theorem Steady.grows {s s' : CheckedState} (steady : Steady dir s s') : Grows s s' :=
  steady.imp fun _ grown => grown.1

theorem Tripped.grows {s s' : CheckedState} (tripped : Tripped dir s s') : Grows s s' :=
  tripped.imp fun _ grown => grown.1

theorem Grows.trans {s t u : CheckedState} (first : Grows s t) (second : Grows t u) : Grows s u := by
  obtain ⟨since, grown⟩ := first
  obtain ⟨since', grown'⟩ := second
  exact ⟨since ++ since', by rw [grown', grown, List.append_assoc]⟩

/-- A crossing that trips panics. -/
theorem crossOver_trips (within : s.cursor.Within) (trips : s.Trips dir) :
    Meets (Checked.crossOver (.still dir noFault false)) s (fun _ _ => False)
      (fun stop s' => stop = .panic ∧ Grows s s') := by
  obtain ⟨prev, segment, rest, at_, largest, first, continues⟩ := trips
  simp only [Checked.crossOver, meets_bind, meets_get, meets_set]
  have opened : Guards dir True _ (attempt (openNext (.still dir noFault false)))
      (attempt (Checked.openNext (.still dir noFault false)))
      { s with toReadState := { s.toReadState with current := none } } := guards_attempt openNext_guarded
  refine Meets.imp opened ?_ ?_
  · rintro result t ⟨result', ran, related, steady⟩
    have opening : Opening dir { s.toReadState with current := none } result' t.toReadState :=
      (attempt_openNext_still _).of_ok ran
    have grows : Grows s t := steady.grows
    cases opening with
    | ended noMore result =>
        have noMore : firstUsable (s.files dir) s.pending = none := noMore
        rw [first] at noMore
        contradiction
    | @boundary _ segment' rest' sid first' session differs result =>
        have first' : firstUsable (s.files dir) s.pending = some (segment', rest') := first'
        rw [first] at first'
        obtain ⟨rfl, rfl⟩ := Prod.mk.inj (Option.some.inj first')
        exact absurd (continues sid session) differs
    | @opened _ segment' rest' first' continues' result =>
        rcases related with ⟨_, _, isOk, rfl, same⟩ | ⟨e, impossible, _⟩
        · obtain rfl : _ = true := (Except.ok.inj isOk).symm
          subst same
          have first' : firstUsable (s.files dir) s.pending = some (segment', rest') := first'
          rw [first] at first'
          obtain ⟨rfl, rfl⟩ := Prod.mk.inj (Option.some.inj first')
          have current : t.current = some segment := by
            rw [result]
            exact LogRead.adopt_current _ _
          have cursor : t.cursor = s.cursor := by rw [result]
          simp only [meets_bind, meets_get, current, Checked.checkCrossing]
          have denies : Guards dir True Eq _ _ t := checkRemaining_guarded segment.header (cursor ▸ within)
          refine Meets.imp denies ?_ ?_
          · rintro denied u ⟨_, _, _, steady⟩
            have overflows : (addU64 true prev.toNat 1 : CheckedM Nat) = throw .panic := by
              rw [addU64, if_neg (Nat.not_lt.mpr largest), if_pos rfl]
            simp only [at_, Checked.checkSequence, overflows, meets_bind, meets_throw]
            exact ⟨trivial, grows.trans steady.grows⟩
          · rintro stop u (⟨rfl, tripped⟩ | ⟨_, ran, _⟩)
            · exact ⟨rfl, grows.trans (tripped trivial).grows⟩
            · exact (checkRemaining_noted.of_error ran).elim
        · contradiction
  · rintro stop t (⟨rfl, tripped⟩ | ⟨notPanic, ran, _⟩)
    · exact ⟨rfl, (tripped trivial).grows⟩
    · exact ((attempt_openNext_still _).of_error ran).elim

theorem cross_guarded (within : s.cursor.Within) :
    Guards dir True Eq (cross (.still dir noFault false)) (Checked.cross (.still dir noFault false)) s := by
  refine meets_bind.mpr (meets_modify.mpr ?_)
  by_cases trips : s.Trips dir
  · refine (crossOver_trips (s := { s with crossings := s.crossings ++ [s.toReadState] }) within trips).imp
      (fun _ _ impossible => impossible.elim) ?_
    rintro stop t ⟨rfl, since, grown⟩
    refine .inl ⟨rfl, fun _ => ⟨s.toReadState :: since, ?_, s.toReadState, List.mem_cons_self, trips⟩⟩
    rw [grown, List.append_assoc, List.singleton_append]
  · have noted {t : CheckedState} :
        Steady dir { s with crossings := s.crossings ++ [s.toReadState] } t → Steady dir s t := by
      rintro ⟨since, grown, clear⟩
      refine ⟨s.toReadState :: since, by rw [grown, List.append_assoc, List.singleton_append], ?_⟩
      exact List.forall_mem_cons.mpr ⟨trips, clear⟩
    have guarded := crossOver_guarded (s := { s with crossings := s.crossings ++ [s.toReadState] })
      within trips
    refine Meets.imp guarded ?_ ?_
    · rintro _ t ⟨a, ran, same, steady⟩
      exact ⟨a, ran, same, noted steady⟩
    · rintro stop t (⟨rfl, tripped⟩ | ⟨notPanic, ran, steady⟩)
      · refine .inl ⟨rfl, fun isSafe => ?_⟩
        obtain ⟨since, grown, tripping⟩ := tripped isSafe
        refine ⟨s.toReadState :: since, by rw [grown, List.append_assoc, List.singleton_append], ?_⟩
        exact tripping.imp fun _ found => ⟨List.mem_cons_of_mem _ found.1, found.2⟩
      · exact .inr ⟨notPanic, ran, noted steady⟩

theorem crossIfExhausted_guarded (within : s.cursor.Within) :
    Guards dir True Eq (crossIfExhausted (.still dir noFault false))
      (Checked.crossIfExhausted (.still dir noFault false)) s :=
  guards_bind_get (guards_ite (fun _ => cross_guarded within) fun _ => guards_pure rfl)

theorem checkCrossing_count (env : ReadEnv) (prevShort : Bool) (prevSeq : Option SeqId)
    (segment : Segment) : Returns SameCount (checkCrossing env prevShort prevSeq segment) := by
  have rejects (lost : Nat) : Returns (fun _ _ => False) (do rejectCurrent lost (← get).cursor.payloadInBuf) :=
    .bind_get fun s => rejectCurrent_fails _ _ s
  have never {lost : Nat} {s t : ReadState} : Meets (do rejectCurrent lost (← get).cursor.payloadInBuf) t
      (fun _ u => SameCount s u) (fun _ _ => True) :=
    (rejects lost t).imp (fun _ _ impossible => impossible.elim) fun _ _ _ => trivial
  intro s
  refine meets_bind.mpr ((checkRemaining_count env _ s).imp ?_ fun _ _ _ => trivial)
  intro denied t same
  refine meets_bind.mpr ((checkSequence_keeps env _ _ t).imp ?_ fun _ _ _ => trivial)
  rintro sequence _ rfl
  refine meets_ite.mpr ⟨fun _ => meets_ite.mpr ⟨fun _ => ?_, fun _ => never⟩, fun _ => same⟩
  exact meets_bind.mpr (meets_true.imp (fun _ _ _ => never) fun _ _ _ => trivial)

theorem cross_count : Returns SameCount (cross (.still dir noFault false)) := by
  intro s
  simp only [cross, meets_bind, meets_get, meets_set]
  refine (attempt_openNext_still _).imp ?_ fun _ _ impossible => impossible.elim
  intro result t opening
  have same : SameCount s t := by
    cases opening with
    | ended none result => rw [result]; exact ⟨rfl, rfl⟩
    | opened first continues result => rw [result]; exact ⟨rfl, rfl⟩
    | boundary first session differs result => rw [result]; exact ⟨rfl, rfl⟩
  cases result with
  | error e => exact meets_ite.mpr ⟨fun _ => trivial, fun _ => trivial⟩
  | ok opened =>
      cases opened with
      | false => trivial
      | true =>
          refine meets_bind.mpr (meets_get.mpr ?_)
          cases t.current with
          | none => trivial
          | some segment =>
              exact (checkCrossing_count _ _ _ _ t).imp (fun _ _ after => same.trans after) fun _ _ _ => trivial

end Crossings

/-! ## Transfers -/

section Transfers

variable {dir : Dir} {s : CheckedState}

/-- The reader stands in a file, and `rest` more bytes of the record may be
read. -/
structure Fits (dir : Dir) (rest : Nat) (s : ReadState) : Prop where
  standing : Standing dir s
  small : s.cursor.consumed + rest < 2 ^ 63
  owed : ∀ total, s.cursor.total = some total → s.cursor.consumed + rest ≤ total

theorem Fits.within {rest : Nat} {s : ReadState} (fits : Fits dir rest s) : s.cursor.Within :=
  fun total known => Nat.le_of_add_right_le (fits.owed total known)

theorem crossIfExhausted_fits {rest : Nat} {s : ReadState} (fits : Fits dir rest s) :
    Meets (crossIfExhausted (.still dir noFault false)) s (fun _ s' => Fits dir rest s') (fun _ _ => True) := by
  have crossed : Meets (crossIfExhausted (.still dir noFault false)) s (fun _ s' => Standing dir s')
      (fun _ s' => Standing dir s') := crossIfExhausted_standing s fits.standing
  have same : Meets (crossIfExhausted (.still dir noFault false)) s (fun _ s' => SameCount s s')
      (fun _ _ => True) :=
    meets_bind.mpr (meets_ite.mpr ⟨fun _ => cross_count s, fun _ => .refl s⟩)
  refine (Meets.and crossed same).imp ?_ fun _ _ _ => trivial
  rintro _ t ⟨standing, consumed, total⟩
  exact ⟨standing, consumed ▸ fits.small, fun known at_ => consumed ▸ fits.owed known (total ▸ at_)⟩

/-- Reading on in the open file. -/
theorem Fits.advance {rest n : Nat} {s s' : ReadState} {segment : Segment} (fits : Fits dir rest s)
    (le : n ≤ rest) (current : s.current = some segment) (within : segment.pos + n ≤ segment.dataLen)
    (same : s'.toLogRead = { s.toLogRead with
      current := some { segment with pos := segment.pos + n, offset := segment.offset + n } })
    (consumed : s'.cursor.consumed = s.cursor.consumed + n) (total : s'.cursor.total = s.cursor.total) :
    Fits dir (rest - n) s' := by
  have sum : s'.cursor.consumed + (rest - n) = s.cursor.consumed + rest := by omega
  exact ⟨fits.standing.advance current within same, sum ▸ fits.small,
    fun known at_ => sum ▸ fits.owed known (total ▸ at_)⟩

theorem Fits.mono {rest less : Nat} {s : ReadState} (fits : Fits dir rest s) (le : less ≤ rest) :
    Fits dir less s :=
  ⟨fits.standing, by have := fits.small; omega, fun total known => by have := fits.owed total known; omega⟩

theorem fillChunk_fits {rest len : Nat} {s : ReadState} (fits : Fits dir rest s) (le : len ≤ rest) :
    Meets (fillChunk (.still dir noFault false) len) s (fun n s' => n ≤ len ∧ Fits dir (rest - n) s')
      (fun _ _ => True) := by
  refine meets_bind.mpr ((crossIfExhausted_fits fits).imp ?_ fun _ _ _ => trivial)
  intro _ t fits
  refine meets_bind.mpr (meets_get.mpr ?_)
  cases current : t.current with
  | none => trivial
  | some segment =>
      have isOpen := fits.standing segment current
      have posLe := isOpen.posLe
      refine meets_bind.mpr ((readExact_still isOpen (by omega)).imp ?_ fun _ _ impossible => impossible.elim)
      rintro bytes u ⟨asked, _⟩
      refine ⟨Nat.min_le_right _ _, fits.advance (by omega) current (by omega) ?_ ?_ ?_⟩ <;>
        rw [asked.same] <;> rfl

theorem skipChunk_fits {rest : Nat} {s : ReadState} (fits : Fits dir rest s) :
    Meets (skipChunk (.still dir noFault false) rest) s (fun n s' => n ≤ rest ∧ Fits dir (rest - n) s')
      (fun _ _ => True) := by
  refine meets_bind.mpr ((crossIfExhausted_fits fits).imp ?_ fun _ _ _ => trivial)
  intro _ t fits
  refine meets_bind.mpr (meets_get.mpr ?_)
  cases current : t.current with
  | none => trivial
  | some segment =>
      have isOpen := fits.standing segment current
      have posLe := isOpen.posLe
      refine meets_bind.mpr ((seekForward_still isOpen (by omega)).imp ?_ fun _ _ impossible => impossible.elim)
      rintro moved u ⟨asked, rfl⟩
      refine ⟨Nat.min_le_right _ _, fits.advance (Nat.min_le_right _ _) current (by omega) ?_ ?_ ?_⟩ <;>
        rw [asked.same]

/-- Both programs change their states alike. -/
theorem guards_modify_set {α β : Type} {related : α → β → Prop} {t : CheckedState} {f : ReadState → ReadState}
    {x : PUnit → ReadM α} {y : PUnit → CheckedM β} (alike : t.toReadState = f s.toReadState)
    (same : t.crossings = s.crossings) (rest : Guards dir True related (x ⟨⟩) (y ⟨⟩) t) :
    Guards dir True related (modify f >>= x) (set t >>= y) s := by
  have both : Guards dir True related (modify f >>= x) (modify (fun _ => t) >>= y) s :=
    guards_bind_modify alike same rest
  exact both

/-- Only the checked program looks at its state. -/
theorem guards_bind_get_right {α β : Type} {related : α → β → Prop} {x : ReadM α}
    {y : CheckedState → CheckedM β} (rest : Guards dir True related x (y s) s) :
    Guards dir True related x (get >>= y) s :=
  rest

theorem fillChunk_guarded {len off : Nat} (fits : Fits dir (len - off) s.toReadState) (small : len < 2 ^ 63)
    (le : off ≤ len) :
    Guards dir True (fun n stop => stop = off + n) (fillChunk (.still dir noFault false) (len - off))
      (Checked.fillChunk (.still dir noFault false) len off) s := by
  refine guards_bind (crossIfExhausted_guarded fits.within) ?_
  rintro _ _ t ran rfl
  have fits := (crossIfExhausted_fits fits).of_ok ran
  refine guards_bind_get ?_
  cases current : t.current with
  | none => exact guards_bind_get (guards_fail _)
  | some segment =>
      have isOpen := fits.standing segment current
      have posLe := isOpen.posLe
      have short := isOpen.dataLen_lt
      have bound := fits.small
      refine guards_subU64 (fun _ => posLe) fun _ => guards_subU64 (fun _ => le) fun _ => ?_
      refine guards_addU64 (fun _ => by omega) fun _ => guards_check (fun _ => ?_) fun _ => ?_
      · exact decide_eq_true (by omega)
      have reads : Meets (readExact (.still dir noFault false) segment
          (min (segment.dataLen - segment.pos) (len - off))) t.toReadState _ _ :=
        readExact_still isOpen (by omega)
      refine guards_bind
        (guards_unchecked (reads.imp (fun _ _ _ => trivial) fun _ _ impossible => impossible.elim)) ?_
      rintro bytes _ u ran rfl
      have asked := (reads.of_ok ran).1
      have consumed : u.cursor.consumed = t.cursor.consumed := by rw [asked.same]
      refine guards_addU64 (fun _ => by omega) fun _ => ?_
      refine guards_addU64 (fun _ => by rw [consumed]; omega) fun _ => ?_
      refine guards_modify_set rfl rfl ?_
      rw [addU64_of_lt (by omega)]
      exact guards_pure rfl

theorem skipChunk_guarded {count : Nat} (fits : Fits dir count s.toReadState) :
    Guards dir True (fun n rest => rest = count - n) (skipChunk (.still dir noFault false) count)
      (Checked.skipChunk (.still dir noFault false) count) s := by
  refine guards_bind (crossIfExhausted_guarded fits.within) ?_
  rintro _ _ t ran rfl
  have fits := (crossIfExhausted_fits fits).of_ok ran
  refine guards_bind_get ?_
  cases current : t.current with
  | none => exact guards_bind_get (guards_fail _)
  | some segment =>
      have isOpen := fits.standing segment current
      have posLe := isOpen.posLe
      have short := isOpen.dataLen_lt
      have bound := fits.small
      refine guards_subU64 (fun _ => posLe) fun _ => ?_
      have moves : Meets (seekForward (.still dir noFault false) segment
          (min (segment.dataLen - segment.pos) count)) t.toReadState _ _ :=
        seekForward_still isOpen (by omega)
      refine guards_bind
        (guards_unchecked (moves.imp (fun _ _ _ => trivial) fun _ _ impossible => impossible.elim)) ?_
      rintro moved _ u ran rfl
      obtain ⟨asked, rfl⟩ := moves.of_ok ran
      have consumed : u.cursor.consumed = t.cursor.consumed := by rw [asked.same]
      refine guards_addU64 (fun _ => by dsimp only; omega) fun _ => ?_
      refine guards_addU64 (fun _ => by rw [consumed]; omega) fun _ => ?_
      refine guards_modify_set rfl rfl ?_
      rw [subU64_of_le (by omega)]
      exact guards_pure rfl

theorem fillFrom_guarded {len off passes : Nat} (fits : Fits dir (len - off) s.toReadState)
    (small : len < 2 ^ 63) (le : off ≤ len) (enough : s.pending.length + (len - off) ≤ passes) :
    Guards dir True Eq (fill (.still dir noFault false) (len - off))
      (Checked.fillFrom (.still dir noFault false) len passes off) s := by
  induction passes generalizing off s with
  | zero =>
      have done : ¬ off < len := by omega
      rw [fill, repeatPass_eq, if_neg (by omega), Checked.fillFrom, if_neg done]
      exact guards_pure rfl
  | succ passes ih =>
      rw [fill, repeatPass_eq, Checked.fillFrom]
      by_cases more : off < len
      · rw [if_pos more, if_pos (by omega)]
        refine guards_bind (fillChunk_guarded fits small le) ?_
        rintro n _ t ran rfl
        obtain ⟨within, fits⟩ := (fillChunk_fits fits (Nat.le_refl _)).of_ok ran
        have less := (fillChunk_decreases _ (by omega) _).of_ok ran
        rw [Nat.sub_sub] at fits less ⊢
        exact ih fits (by omega) (by omega)
      · rw [if_neg more, if_neg (by omega)]
        exact guards_pure rfl

theorem skipFrom_guarded {count passes : Nat} (fits : Fits dir count s.toReadState)
    (enough : s.pending.length + count ≤ passes) :
    Guards dir True Eq (skip (.still dir noFault false) count)
      (Checked.skipFrom (.still dir noFault false) passes count) s := by
  induction passes generalizing count s with
  | zero =>
      have done : ¬ 0 < count := by omega
      rw [skip, repeatPass_eq, if_neg done, Checked.skipFrom, if_neg done]
      exact guards_pure rfl
  | succ passes ih =>
      rw [skip, repeatPass_eq, Checked.skipFrom]
      refine guards_ite (fun more => ?_) fun _ => guards_pure rfl
      refine guards_bind (skipChunk_guarded fits) ?_
      rintro n _ t ran rfl
      have fits := ((skipChunk_fits fits).of_ok ran).2
      have less := (skipChunk_decreases _ more _).of_ok ran
      exact ih fits (by omega)

theorem fillBuf_guarded {len : Nat} (fits : Fits dir len s.toReadState) (small : len < 2 ^ 63) :
    Guards dir True Eq (fillBuf (.still dir noFault false) len)
      (Checked.fillBuf (.still dir noFault false) len) s := by
  have fits' : Fits dir len { s.toReadState with dst := [] } := ⟨fits.standing, fits.small, fits.owed⟩
  have filled : Guards dir True Eq (fill (.still dir noFault false) (len - 0))
      (Checked.fill (.still dir noFault false) len) { s with toReadState := { s.toReadState with dst := [] } } :=
    guards_bind_get_right (fillFrom_guarded fits' small (Nat.zero_le _) (Nat.le_refl _))
  refine guards_bind_modify rfl rfl (guards_bind filled ?_)
  rintro _ _ t - rfl
  exact guards_bind_get (guards_pure rfl)

theorem skip_guarded {count : Nat} (fits : Fits dir count s.toReadState) :
    Guards dir True Eq (skip (.still dir noFault false) count)
      (Checked.skip (.still dir noFault false) count) s :=
  guards_bind_get_right (skipFrom_guarded fits (Nat.le_refl _))

/-- What is left to read of a record after a transfer. -/
theorem fillBuf_fits {rest len : Nat} {s : ReadState} (fits : Fits dir rest s) (le : len ≤ rest) :
    Meets (fillBuf (.still dir noFault false) len) s (fun _ s' => Fits dir (rest - len) s')
      (fun _ _ => True) := by
  have fits' : Fits dir rest { s with dst := [] } := ⟨fits.standing, fits.small, fits.owed⟩
  refine meets_bind.mpr (meets_modify.mpr (meets_bind.mpr ?_))
  refine Meets.imp (meets_repeatPass (fun left t => left ≤ len ∧ Fits dir (rest - (len - left)) t)
    ?_ ?_) ?_ fun _ _ (_ : True) => trivial
  · rintro left t - ⟨within, fits⟩
    refine (fillChunk_fits fits (by omega)).imp ?_ fun _ _ _ => trivial
    rintro n u ⟨some, fits⟩
    have sum : rest - (len - left) - n = rest - (len - (left - n)) := by omega
    exact ⟨by omega, sum ▸ fits⟩
  · exact ⟨Nat.le_refl _, fits'.mono (Nat.sub_le _ _)⟩
  · exact fun _ t filled => filled.2

end Transfers

/-! ## One record -/

section OneRecord

variable {dir : Dir} {s : CheckedState}

theorem orLosePosition_guarded {α : Type} {related : α → α → Prop} {x : ReadM α} {y : CheckedM α}
    (guarded : Guards dir True related x y s) :
    Guards dir True related (orLosePosition x) (Checked.orLosePosition y) s := by
  refine guards_bind (guards_attempt guarded) ?_
  rintro _ _ t - (⟨a, b, rfl, rfl, holds⟩ | ⟨e, rfl, rfl⟩)
  · exact guards_pure holds
  · exact guards_bind_modify rfl rfl (guards_fail e)

/-- Nothing of the record is read, and its length is not known. -/
structure Unread (dir : Dir) (s : ReadState) : Prop extends Unplaced s where
  standing : Standing dir s
  consumed : s.cursor.consumed = 0
  total : s.cursor.total = none

theorem Unread.fits {s : ReadState} {rest : Nat} (unread : Unread dir s) (small : rest < 2 ^ 63) :
    Fits dir rest s :=
  ⟨unread.standing, by rw [unread.consumed, Nat.zero_add]; exact small, by simp [unread.total]⟩

/-- The bytes of a data header. -/
theorem fillBuf_read (len : Nat) {s : ReadState} (unread : Unread dir s) :
    Meets (fillBuf (.still dir noFault false) len) s
      (fun head s' => head.length = len ∧ Standing dir s' ∧ s'.cursor.consumed = len)
      (fun _ _ => True) := by
  have counted : Counted { s with dst := [] } := unread.counted
  simp only [fillBuf, meets_bind, meets_modify, meets_get, meets_pure]
  refine (fill_places (s := { s with dst := [] }) len unread.standing counted).imp ?_ fun _ _ _ => trivial
  rintro _ t ⟨standing, places⟩
  obtain ⟨bytes, dst, length⟩ := places.dst
  refine ⟨by rw [dst, List.nil_append, length], standing, ?_⟩
  rw [places.consumed, unread.consumed, Nat.zero_add]

theorem settlePayloadLen_kept (decoded : Nat) (s : ReadState) :
    Meets (settlePayloadLen decoded) s (fun n s' => n = decoded ∧ s' = s) (fun stop _ => stop ≠ .panic) := by
  simp only [settlePayloadLen, rejectCurrent, meets_bind, meets_get, meets_ite, meets_pure]
  refine ⟨fun _ => ?_, fun _ => ⟨trivial, trivial⟩⟩
  cases s.current <;> simp

theorem settlePayloadLen_guarded (decoded : Nat) :
    Guards dir True Eq (settlePayloadLen decoded) (unchecked (settlePayloadLen decoded)) s :=
  guards_unchecked ((settlePayloadLen_kept decoded _).imp (fun _ _ _ => trivial) fun _ _ notPanic => notPanic)

theorem least_variableTsRc (minor : Nat) : 12 ≤ Format.dataHeaderLenIn .variableTsRc minor := by
  rw [Format.dataHeaderLenIn]
  split <;> decide

theorem readDataHeader_guarded (format : Format) (minor : Nat) (unread : Unread dir s.toReadState) :
    Guards dir True Eq (readDataHeader (.still dir noFault false) format minor)
      (Checked.readDataHeader (.still dir noFault false) format minor) s := by
  cases format with
  | fixed n => exact guards_bind_modify rfl rfl (guards_pure rfl)
  | variableSimple =>
      refine guards_bind (fillBuf_guarded (unread.fits (by norm_num)) (by norm_num)) ?_
      rintro head _ t ran rfl
      have small := ofLE_le_u32Max ((fillBuf_read 4 unread).of_ok ran).1.le
      refine guards_bind (settlePayloadLen_guarded _) ?_
      rintro n _ u ran rfl
      obtain ⟨rfl, _⟩ := (settlePayloadLen_kept _ _).of_ok ran
      rw [u32Max] at small
      refine guards_addU64 (fun _ => ?_) fun _ => guards_bind_modify rfl rfl (guards_pure rfl)
      change 4 + ofLE head < 2 ^ 64
      omega
  | variableTsRc =>
      have least := least_variableTsRc minor
      have most := Format.dataHeaderLenIn_le .variableTsRc minor
      refine guards_check (fun _ => decide_eq_true most) fun _ => ?_
      refine guards_bind (fillBuf_guarded (unread.fits (by omega)) (by omega)) ?_
      rintro head _ t ran rfl
      have small : ofLE (takeAt head 0 4) ≤ u32Max := ofLE_le_u32Max (List.length_take_le _ _)
      refine guards_check (fun _ => decide_eq_true (by omega)) fun _ => ?_
      refine guards_bind (settlePayloadLen_guarded _) ?_
      rintro n _ u ran rfl
      obtain ⟨rfl, _⟩ := (settlePayloadLen_kept _ _).of_ok ran
      rw [u32Max] at small
      refine guards_check (fun _ => decide_eq_true least) fun _ => ?_
      refine guards_subU64 (fun _ => least) fun _ => guards_check (fun _ => decide_eq_true (by omega)) fun _ => ?_
      exact guards_addU64 (fun _ => by omega) fun _ => guards_bind_modify rfl rfl (guards_pure rfl)

/-- Behind the data header the payload is what is left to read. -/
theorem readDataHeader_fits (format : Format) (minor : Nat) {s : ReadState} (unread : Unread dir s) :
    Meets (readDataHeader (.still dir noFault false) format minor) s (fun decoded s' => Fits dir decoded.1 s')
      (fun _ _ => True) := by
  have fits {len n : Nat} {t : ReadState} (standing : Standing dir t) (consumed : t.cursor.consumed = len)
      (small : len + n < 2 ^ 63) :
      Fits dir n { t with cursor := { t.cursor with total := some (len + n) } } := by
    refine ⟨standing, consumed ▸ small, fun total known => ?_⟩
    obtain rfl := Option.some.inj known
    exact Nat.le_of_eq (congrArg (· + n) consumed)
  cases format with
  | fixed n =>
      have small := n.toNat_lt
      have known := fits (n := n.toNat) unread.standing unread.consumed (by omega)
      rw [Nat.zero_add] at known
      exact known
  | variableSimple =>
      refine meets_bind.mpr ((fillBuf_read 4 unread).imp ?_ fun _ _ _ => trivial)
      rintro head t ⟨length, standing, consumed⟩
      have small := ofLE_le_u32Max length.le
      have short := Format.variableSimple.dataHeaderLen_le
      rw [u32Max] at small
      refine meets_bind.mpr ((settlePayloadLen_kept _ t).imp ?_ fun _ _ _ => trivial)
      rintro n _ ⟨rfl, rfl⟩
      exact fits standing consumed (by omega)
  | variableTsRc =>
      have most := Format.dataHeaderLenIn_le .variableTsRc minor
      refine meets_bind.mpr ((fillBuf_read _ unread).imp ?_ fun _ _ _ => trivial)
      rintro head t ⟨length, standing, consumed⟩
      have small : ofLE (takeAt head 0 4) ≤ u32Max := ofLE_le_u32Max (List.length_take_le _ _)
      rw [u32Max] at small
      refine meets_bind.mpr ((settlePayloadLen_kept _ t).imp ?_ fun _ _ _ => trivial)
      rintro n _ ⟨rfl, rfl⟩
      exact fits standing consumed (by omega)

/-- A recovered record has a payload length that fits its field. -/
theorem header_guarded {start : Start} (segment : Segment) (unread : Unread dir s.toReadState)
    (small : ∀ n, start = .recovered n → n ≤ u32Max) :
    Guards dir True Eq (header (.still dir noFault false) start segment)
      (Checked.header (.still dir noFault false) start segment) s := by
  cases start with
  | fresh => exact orLosePosition_guarded (readDataHeader_guarded _ _ unread)
  | recovered n =>
      have fits := small n rfl
      have short := segment.header.format.dataHeaderLen_le
      rw [u32Max] at fits
      exact guards_addU64 (fun _ => by omega) fun _ => guards_bind_modify rfl rfl (guards_pure rfl)

theorem header_fits {start : Start} (segment : Segment) {s : ReadState} (unread : Unread dir s)
    (small : ∀ n, start = .recovered n → n ≤ u32Max) :
    Meets (header (.still dir noFault false) start segment) s (fun decoded s' => Fits dir decoded.1 s')
      (fun _ _ => True) := by
  cases start with
  | fresh => exact meets_orLosePosition.mpr ((readDataHeader_fits _ _ unread).imp (fun _ _ fits => fits)
      fun stop _ _ => by cases stop <;> trivial)
  | recovered n =>
      have fits := small n rfl
      have short := segment.header.format.dataHeaderLen_le
      rw [u32Max] at fits
      refine ⟨unread.standing, by dsimp only; omega, fun total known => ?_⟩
      obtain rfl := Option.some.inj known
      exact Nat.le_refl _

theorem payload_guarded {cap want : Nat} (metadata : Meta) (fits : Fits dir want s.toReadState)
    (small : want ≤ u32Max) :
    Guards dir True Eq (payload (.still dir noFault false) cap want metadata)
      (Checked.payload (.still dir noFault false) cap want metadata) s := by
  rw [u32Max] at small
  refine guards_bind_modify rfl rfl (guards_check (fun _ => decide_eq_true (Nat.min_le_right _ _)) fun _ => ?_)
  set begun : CheckedState := { s with
    toReadState := { s.toReadState with lastMeta := metadata, cursor := { s.cursor with inPayload := true } } }
  have begins : Fits dir want begun.toReadState := ⟨fits.standing, fits.small, fits.owed⟩
  have taken : min want cap ≤ want := Nat.min_le_left _ _
  refine guards_bind (orLosePosition_guarded (fillBuf_guarded (begins.mono taken) (by omega))) ?_
  rintro _ _ t ran rfl
  refine guards_ite (fun more => guards_subU64 (fun _ => more.le) fun _ => ?_) fun _ => guards_pure rfl
  have left : Fits dir (want - cap) t.toReadState := by
    have filled : Meets (orLosePosition (fillBuf (.still dir noFault false) (min want cap))) begun.toReadState
        (fun _ s' => Fits dir (want - min want cap) s') (fun _ _ => True) :=
      meets_orLosePosition.mpr ((fillBuf_fits begins taken).imp (fun _ _ fits => fits)
        fun stop _ _ => by cases stop <;> trivial)
    exact (filled.of_ok ran).mono (by omega)
  refine guards_bind (guards_attempt (skip_guarded left)) ?_
  rintro _ _ u - (⟨a, b, rfl, rfl, rfl⟩ | ⟨e, rfl, rfl⟩)
  · exact guards_fail _
  · exact guards_bind_modify rfl rfl (guards_fail _)

end OneRecord

/-! ## Resynchronization -/

section Resynchronization

variable {dir : Dir} {s : CheckedState}

theorem openNext_cursor (s : ReadState) :
    Meets (openNext (.still dir noFault false)) s (fun _ s' => s'.cursor = s.cursor) (fun _ _ => True) := by
  refine (openNext_still s).imp ?_ fun _ _ _ => trivial
  intro opened t opening
  cases opening with
  | ended none result => rw [result]
  | opened first continues result => rw [result]

/-- Looking for a record boundary reads nothing of a record. -/
theorem examineNext_cursor (s : ReadState) :
    Meets (examineNext (.still dir noFault false)) s (fun _ s' => s'.cursor = s.cursor) (fun _ _ => True) := by
  simp only [examineNext, meets_bind, meets_get, meets_modify, meets_ite]
  refine (openNext_cursor _).imp ?_ fun _ _ _ => trivial
  intro opened t same
  refine ⟨fun _ => ?_, fun _ => trivial⟩
  cases t.current with
  | none => trivial
  | some segment =>
      dsimp only
      split
      · exact same
      · simp only [meets_ite, meets_bind, meets_modify, meets_pure]
        refine ⟨fun _ => same, fun _ => ?_⟩
        refine (seekForward_onlyAsked _ segment _ t).imp ?_ fun _ _ _ => trivial
        intro moved u asked
        rw [asked.same]
        exact same

theorem locate_cursor (s : ReadState) :
    Meets (locate (.still dir noFault false)) s (fun _ s' => s'.cursor = s.cursor) (fun _ _ => True) := by
  have found : Meets (findRecordStart (.still dir noFault false)) s (fun _ s' => s'.cursor = s.cursor)
      (fun _ _ => True) := by
    refine meets_findRecordStart _ (fun t => t.cursor = s.cursor) (fun {t} same => ?_) rfl
    refine (examineNext_cursor t).imp (fun found u same' => ?_) fun _ _ _ => trivial
    exact ⟨fun _ _ => same'.trans same, fun _ => same'.trans same⟩
  simp only [locate, meets_bind, meets_get, meets_ite, meets_pure]
  refine ⟨fun _ => meets_orLosePosition.mpr (found.imp ?_ fun stop _ _ => by cases stop <;> trivial),
    fun _ => trivial⟩
  intro start t same
  simp only [meets_modify, meets_set, meets_fail]
  exact ⟨fun _ => trivial, fun _ => same⟩

theorem examineNext_guarded :
    Guards dir True Eq (examineNext (.still dir noFault false))
      (Checked.examineNext (.still dir noFault false)) s := by
  refine guards_bind_get (guards_bind_modify rfl rfl (guards_bind openNext_guarded ?_))
  rintro opened _ t ran rfl
  refine guards_ite (fun isOpen => guards_bind_get ?_) fun _ => guards_fail _
  subst isOpen
  have opening : Opening dir { s.toReadState with recovery := none } (.ok true) t.toReadState :=
    (openNext_still _).of_ok ran
  obtain ⟨segment, current, isOpen, _, _⟩ := opening.current
  simp only [current]
  cases s.recovery.bind fun known => recoveredPayloadLen known segment.id segment.header.format
      segment.header.remaining.toNat segment.header.dataLen with
  | some n => exact guards_pure rfl
  | none =>
      refine guards_ite (fun _ => guards_bind_modify rfl rfl (guards_pure rfl)) fun offers => ?_
      have moves : Meets (seekForward (.still dir noFault false) segment segment.header.remaining.toNat)
          t.toReadState _ _ := seekForward_still isOpen (by omega)
      refine guards_bind
        (guards_unchecked (moves.imp (fun _ _ _ => trivial) fun _ _ impossible => impossible.elim)) ?_
      rintro moved _ u - rfl
      exact guards_bind_modify rfl rfl (guards_pure rfl)

theorem findRecordStart_eq (env : ReadEnv) :
    findRecordStart env = examineNext env >>= fun found =>
      found.elim (findRecordStart env) pure := by
  funext s
  change (findRecordStart env).run s = (examineNext env >>= _).run s
  rw [run_findRecordStart, EStateM.run_bind]
  cases (examineNext env).run s with
  | error stop t => rfl
  | ok found t => cases found <;> rfl

theorem searchFrom_guarded {passes : Nat} (enough : s.pending.length < passes) :
    Guards dir True Eq (findRecordStart (.still dir noFault false))
      (Checked.searchFrom (.still dir noFault false) passes) s := by
  induction passes generalizing s with
  | zero => exact absurd enough (Nat.not_lt_zero _)
  | succ passes ih =>
      rw [findRecordStart_eq, Checked.searchFrom]
      refine guards_bind examineNext_guarded ?_
      rintro found _ t ran rfl
      cases found with
      | some start => exact guards_pure rfl
      | none =>
          have less := (examineNext_decreases _ _).of_ok ran rfl
          exact ih (by omega)

/-- A resynchronization that finds no file open. -/
theorem findRecordStart_guarded (closed : s.current = none) :
    Guards dir True Eq (findRecordStart (.still dir noFault false))
      (Checked.findRecordStart (.still dir noFault false)) s := by
  refine guards_bind_get_right (guards_check (fun _ => ?_) fun _ => searchFrom_guarded (Nat.lt_succ_self _))
  rw [closed]
  rfl

/-- A reader that has to resynchronize has no file open. -/
def ResyncClosed (s : ReadState) : Prop :=
  s.resync = true → s.current = none

theorem locate_guarded (resyncClosed : ResyncClosed s.toReadState) :
    Guards dir True Eq (locate (.still dir noFault false)) (Checked.locate (.still dir noFault false)) s := by
  refine guards_bind_get (guards_ite (fun resync => ?_) fun _ => guards_pure rfl)
  refine guards_bind (orLosePosition_guarded (findRecordStart_guarded (resyncClosed resync))) ?_
  rintro start _ t - rfl
  refine guards_bind_modify rfl rfl (guards_bind_get (guards_ite (fun _ => ?_) fun _ => guards_pure rfl))
  exact guards_bind_set rfl (guards_fail _)

theorem read_guarded (cap : Nat) (standing : Standing dir s.toReadState)
    (resyncClosed : ResyncClosed s.toReadState) :
    Guards dir True Eq (read (.still dir noFault false) cap) (Checked.read (.still dir noFault false) cap) s := by
  refine guards_bind_get (guards_ite (fun _ => guards_bind_set rfl (guards_fail _))
    fun _ => guards_bind_set rfl ?_)
  set begun : CheckedState := { s with toReadState := { s.toReadState with
    resync := s.resync || s.current.isNone, cursor := {}, dst := [] } }
  have resyncClosed' : ResyncClosed begun.toReadState := by
    intro resync
    rcases Bool.or_eq_true_iff.mp resync with already | closed
    · exact resyncClosed already
    · exact Option.isNone_iff_eq_none.mp closed
  refine guards_bind (locate_guarded resyncClosed') ?_
  rintro start _ t ran rfl
  have unplaced : Unplaced begun.toReadState := ⟨rfl, rfl⟩
  have standing' : Standing dir begun.toReadState := standing
  obtain ⟨unplaced', small⟩ := (locate_unplaced unplaced).of_ok ran
  have cursor : t.cursor = {} := (locate_cursor _).of_ok ran
  have unread : Unread dir t.toReadState :=
    ⟨unplaced', (locate_standing _ standing').of_ok ran, by rw [cursor], by rw [cursor]⟩
  refine guards_bind_get ?_
  cases t.current with
  | none => exact orLosePosition_guarded (guards_fail _)
  | some segment =>
      refine guards_bind (header_guarded segment unread small) ?_
      rintro decoded _ u ran rfl
      have fits := (header_fits segment unread small).of_ok ran
      exact payload_guarded _ fits ((header_unplaced segment small unread.standing unplaced').of_ok ran).1

end Resynchronization

/-! ## Successive calls -/

section Calls

variable {dir : Dir}

/-- Within a record no resynchronization is called for. -/
theorem synced_upheld : UpholdsWithin (.still dir noFault false) (fun log => log.resync = false) where
  openNext := by
    intro s synced
    have keeps {result : Except LogError Bool} {t : ReadState} (opening : Opening dir s result t) :
        t.resync = false := by
      cases opening with
      | ended none result => rw [result]; exact synced
      | opened first continues result => rw [result]; exact (LogRead.adopt_resync _ _).trans synced
      | boundary first session differs result => rw [result]; exact synced
    refine (openNext_still s).imp (fun _ _ opening => keeps opening) ?_
    rintro _ _ ⟨e, rfl, opening⟩
    exact keeps opening
  rejected := fun _ synced => synced
  moved := fun _ synced => synced
  closed := fun synced => synced
  noted := fun synced => synced

theorem ResyncClosed.of_synced {s : ReadState} (synced : s.resync = false) : ResyncClosed s := by
  intro resync
  rw [synced] at resync
  contradiction

/-- After an error that is reported. -/
def Settles (stop : Stop) (s : ReadState) : Prop :=
  ∀ e, stop = .error e → ResyncClosed s

/-- Giving up the read position calls for a resynchronization, with no file
open. -/
theorem orLosePosition_settles {α : Type} {x : ReadM α} {s : ReadState} {post : α → ReadState → Prop}
    (spec : Meets x s post fun _ _ => True) : Meets (orLosePosition x) s post Settles := by
  refine meets_orLosePosition.mpr (spec.imp (fun _ _ holds => holds) fun stop t _ => ?_)
  cases stop with
  | error e => exact fun _ _ _ => rfl
  | panic => exact fun _ impossible => by simp at impossible
  | stuck => exact fun _ impossible => by simp at impossible

theorem locate_settles (s : ReadState) :
    Meets (locate (.still dir noFault false)) s (fun _ s' => s'.resync = false) Settles := by
  simp only [locate, meets_bind, meets_get, meets_ite, meets_pure]
  refine ⟨fun _ => (orLosePosition_settles meets_true).imp ?_ fun _ _ settles => settles, by simp⟩
  intro start t _
  simp only [meets_modify, meets_set, meets_fail]
  exact ⟨fun _ _ _ => .of_synced rfl, fun _ => trivial⟩

theorem header_settles (start : Start) (segment : Segment) {s : ReadState} (synced : s.resync = false) :
    Meets (header (.still dir noFault false) start segment) s (fun _ s' => s'.resync = false) Settles := by
  cases start with
  | recovered n => exact synced
  | fresh =>
      have within : UpholdsWithin (.still dir noFault false) _ := synced_upheld
      have decoded := within.readDataHeader segment.header.format segment.header.versionMinor s synced
      exact orLosePosition_settles (decoded.imp (fun _ _ synced' => synced') fun _ _ _ => trivial)

theorem payload_settles (cap want : Nat) (metadata : Meta) {s : ReadState} (synced : s.resync = false) :
    Meets (payload (.still dir noFault false) cap want metadata) s (fun _ s' => s'.resync = false) Settles := by
  refine meets_bind.mpr (meets_modify.mpr (meets_bind.mpr ?_))
  have within : UpholdsWithin (.still dir noFault false) _ := synced_upheld
  have filled := within.fillBuf (min want cap)
    { s with lastMeta := metadata, cursor := { s.cursor with inPayload := true } } synced
  refine (orLosePosition_settles (filled.imp (fun _ _ synced' => synced') fun _ _ _ => trivial)).imp ?_
    fun _ _ settles => settles
  intro _ t synced'
  refine meets_ite.mpr ⟨fun _ => meets_bind.mpr (meets_attempt.mpr ?_), fun _ => synced'⟩
  have skipped : Maintains (Upheld _) (skip (.still dir noFault false) (want - cap)) :=
    repeatPass_holds within.skipChunk _
  refine (skipped t synced').imp ?_ ?_
  · exact fun _ u synced'' _ _ => .of_synced synced''
  · intro stop u synced''
    cases stop with
    | error e => exact fun _ _ _ => rfl
    | panic => exact fun _ _ => .of_synced synced''
    | stuck => exact fun _ _ => .of_synced synced''

/-- Between two calls a reader that has to resynchronize has no file open. -/
theorem read_settles (cap : Nat) (s : ReadState) :
    Meets (read (.still dir noFault false) cap) s (fun _ s' => ResyncClosed s') Settles := by
  simp only [read, meets_bind, meets_get, meets_ite, meets_set]
  refine ⟨fun _ _ _ _ => rfl, fun _ => (locate_settles _).imp ?_ fun _ _ settles => settles⟩
  intro start t synced
  cases t.current with
  | none => exact orLosePosition_settles trivial
  | some segment =>
      refine meets_bind.mpr ((header_settles start segment synced).imp ?_ fun _ _ settles => settles)
      exact fun decoded u synced' => (payload_settles cap _ _ synced').imp
        (fun _ _ synced'' => .of_synced synced'') fun _ _ settles => settles

/-- Where a reader stands between two calls. -/
structure Pausing (dir : Dir) (s : ReadState) : Prop where
  sound : Sound dir s.toLogRead
  resyncClosed : ResyncClosed s

theorem Drained.pausing {s : ReadState} (drained : Drained s) : Pausing dir s :=
  ⟨fun segment current => by simp [drained.closed] at current, fun _ => drained.closed⟩

theorem Pausing.standing {s : ReadState} (pausing : Pausing dir s) : Standing dir s :=
  fun segment current => (pausing.sound segment current).1

/-- A call ends in a state between two calls, with a result or an error. -/
theorem read_pauses (cap : Nat) {s : ReadState} (pausing : Pausing dir s) :
    Meets (read (.still dir noFault false) cap) s (fun _ s' => Pausing dir s')
      (fun stop s' => ∃ e, stop = .error e ∧ Pausing dir s') := by
  refine ((read_spends cap pausing.sound).and (read_settles cap s)).imp ?_ ?_
  · exact fun _ _ both => ⟨both.1.sound, both.2⟩
  · rintro stop s' ⟨⟨rfl, drained⟩ | ⟨⟨e, rfl, _⟩, spends⟩, settles⟩
    · exact ⟨_, rfl, drained.pausing⟩
    · exact ⟨e, rfl, spends.sound, settles e rfl⟩

/-- A call panics if a crossing of it trips, and else does what the reader
does. -/
theorem readCall_guarded (cap : Nat) {s : CheckedState} (pausing : Pausing dir s.toReadState) :
    (Checked.readCall (.still dir noFault false) cap s).1 = .panicked ∧
        Tripped dir s (Checked.readCall (.still dir noFault false) cap s).2 ∨
      (Checked.readCall (.still dir noFault false) cap s).1 ≠ .panicked ∧
        Steady dir s (Checked.readCall (.still dir noFault false) cap s).2 ∧
        Pausing dir (Checked.readCall (.still dir noFault false) cap s).2.toReadState ∧
        readCall (.still dir noFault false) cap s.toReadState =
          ((Checked.readCall (.still dir noFault false) cap s).1,
            (Checked.readCall (.still dir noFault false) cap s).2.toReadState) := by
  have guarded : Guards dir True Eq _ _ s := read_guarded cap pausing.standing pausing.resyncClosed
  have pauses := read_pauses cap pausing
  cases ran : (Checked.read (.still dir noFault false) cap).run s with
  | ok result s' =>
      obtain ⟨_, ran', rfl, steady⟩ := Meets.of_ok guarded ran
      simp only [Checked.readCall, readCall, ran, ran']
      exact .inr ⟨by simp, steady, pauses.of_ok ran', trivial⟩
  | error stop s' =>
      rcases Meets.of_error guarded ran with ⟨rfl, tripped⟩ | ⟨_, ran', steady⟩
      · simp only [Checked.readCall, ran]
        exact .inl ⟨trivial, tripped trivial⟩
      · obtain ⟨e, rfl, pausing'⟩ := pauses.of_error ran'
        simp only [Checked.readCall, readCall, ran, ran']
        exact .inr ⟨by simp, steady, pausing', trivial⟩

theorem readCalls_guarded (caps : Nat → Nat) (calls : Nat) {s : CheckedState}
    (pausing : Pausing dir s.toReadState) :
    .panicked ∈ (Checked.readCalls (.still dir noFault false) caps calls s).1 ∧
        Tripped dir s (Checked.readCalls (.still dir noFault false) caps calls s).2 ∨
      .panicked ∉ (Checked.readCalls (.still dir noFault false) caps calls s).1 ∧
        Steady dir s (Checked.readCalls (.still dir noFault false) caps calls s).2 ∧
        (Checked.readCalls (.still dir noFault false) caps calls s).1 =
          (readCalls (.still dir noFault false) caps calls s.toReadState).1 := by
  induction calls generalizing s caps with
  | zero => exact .inr ⟨List.not_mem_nil, .of_eq rfl, rfl⟩
  | succ calls ih =>
      rcases readCall_guarded (caps 0) pausing with ⟨panicked, tripped⟩ | ⟨returned, steady, pausing', same⟩
      · left
        simp only [Checked.readCalls, panicked, if_true]
        exact ⟨List.mem_singleton_self _, tripped⟩
      · simp only [Checked.readCalls, readCalls, if_neg returned, same]
        rcases ih (fun i => caps (i + 1)) pausing' with ⟨panicked, tripped⟩ | ⟨returns, steady', outcomes⟩
        · exact .inl ⟨List.mem_cons_of_mem _ panicked, steady.tripped tripped⟩
        · refine .inr ⟨List.not_mem_cons_of_ne_of_not_mem returned.symm returns, steady.trans steady', ?_⟩
          rw [outcomes]

end Calls

/-! ## Any directory -/

/-- A checked reader about to make its first call. -/
def LogRead.beginChecked (log : LogRead) : CheckedState :=
  { log.begin with crossings := [] }

theorem LogRead.Begins.pausing {log : LogRead} {listed view : Dir} {front back : Bytes}
    (begins : log.Begins listed front back) : Pausing view log.begin :=
  ⟨fun segment current => absurd (begins.current.symm.trans current) (by simp), fun _ => begins.current⟩

/-- Whatever the files of a directory hold, every check that a reader makes holds
if no crossing begins in a file with the largest sequence number and ends in the
next file of its session, and only then.  Where every check holds the reader gives
what it gives without them. -/
theorem checks_hold {dir view : Dir} {isDir : Bool} {namePrefix nameSuffix : Bytes} {log : LogRead}
    (isNew : LogRead.new isDir (some dir) namePrefix nameSuffix = .ok log) (caps : Nat → Nat)
    (calls : Nat) :
    (.panicked ∉ (Checked.readCalls (.still view noFault false) caps calls log.beginChecked).1 ↔
      ∀ s ∈ (Checked.readCalls (.still view noFault false) caps calls log.beginChecked).2.crossings,
        ¬ s.Trips view) ∧
      (.panicked ∉ (Checked.readCalls (.still view noFault false) caps calls log.beginChecked).1 →
        (Checked.readCalls (.still view noFault false) caps calls log.beginChecked).1 =
          (readCalls (.still view noFault false) caps calls log.begin).1) := by
  obtain ⟨_, _, begins⟩ := LogRead.new_spec isNew
  rcases readCalls_guarded (s := log.beginChecked) caps calls begins.pausing with
    ⟨panicked, since, grown, s, mem, trips⟩ | ⟨returns, ⟨since, grown, clear⟩, same⟩
  · refine ⟨⟨fun returns => absurd panicked returns, fun clear => absurd trips (clear s ?_)⟩,
      fun returns => absurd panicked returns⟩
    rw [grown]
    exact List.mem_append_right _ mem
  · refine ⟨⟨fun _ s mem => clear s ?_, fun _ => returns⟩, fun _ => same⟩
    rwa [grown, show log.beginChecked.crossings = [] from rfl, List.nil_append] at mem

/-- A file that has the largest sequence number, and the next of its session. -/
def Sample.largest : Dir :=
  (AList.insert (buildName [] 7 []) (file 7 7 0 (UInt64.ofNat (2 ^ 64 - 1)) [1, 0, 0, 0, 42])
    (AList.insert (buildName [] 8 []) (file 8 7 0 0 [1, 0, 0, 0, 43]) ∅))

theorem checks_hold_sample :
    (.panicked ∉ (Checked.readCalls (.still Sample.largest noFault false) (fun _ => 10) 2
        (Sample.reader [7, 8]).beginChecked).1 ↔
      ∀ s ∈ (Checked.readCalls (.still Sample.largest noFault false) (fun _ => 10) 2
        (Sample.reader [7, 8]).beginChecked).2.crossings, ¬ s.Trips Sample.largest) ∧
      (.panicked ∉ (Checked.readCalls (.still Sample.largest noFault false) (fun _ => 10) 2
          (Sample.reader [7, 8]).beginChecked).1 →
        (Checked.readCalls (.still Sample.largest noFault false) (fun _ => 10) 2
            (Sample.reader [7, 8]).beginChecked).1 =
          (readCalls (.still Sample.largest noFault false) (fun _ => 10) 2 (Sample.reader [7, 8]).begin).1) :=
  checks_hold
    (show LogRead.new true (some Sample.largest) [] [] = .ok (Sample.reader [7, 8]) by decide +kernel)
    (fun _ => 10) 2

/-- Crossing out of the file with the largest sequence number overflows. -/
theorem crossing_overflows :
    LogRead.new true (some Sample.largest) [] [] = .ok (Sample.reader [7, 8]) ∧
      .panicked ∈ (Checked.readCalls (.still Sample.largest noFault false) (fun _ => 10) 3
        (Sample.reader [7, 8]).beginChecked).1 := by
  constructor <;> decide +kernel

end Tcslog
