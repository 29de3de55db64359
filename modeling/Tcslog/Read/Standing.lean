import Tcslog.Read.Crossing
import Tcslog.Read.Still

/-!
# Where a reader stands

Whatever a directory holds and however the reader's arithmetic is built, the
file a reader has open is usable and its read position lies within the file.
Every step of a call keeps this, also one that fails.
-/

namespace Tcslog

open Lib.Program

/-- The open file is usable, and the read position within it. -/
def Standing (dir : Dir) (s : ReadState) : Prop :=
  ∀ segment, s.current = some segment → segment.OpenIn (s.files dir)

/-- The file opened is usable, and nothing of it has been read. -/
theorem Opening.current {dir : Dir} {s s' : ReadState} (opening : Opening dir s (.ok true) s') :
    ∃ segment, s'.current = some segment ∧ segment.OpenIn (s'.files dir) ∧ segment.pos = 0 ∧
      s'.files dir = s.files dir := by
  cases opening with
  | @opened _ segment rest first continues result =>
      obtain ⟨_, _, _, usable⟩ := firstUsable_eq_some first
      obtain ⟨_, _, _, _, _, start, _⟩ := Segment.ofFile_eq_some usable
      have files : s'.files dir = s.files dir := by
        rw [result]
        simp [LogRead.files]
      exact ⟨segment, by rw [result]; simp, files ▸ Segment.openIn_ofFile usable, start, files⟩

namespace Standing

variable {dir : Dir} {s s' : ReadState}

theorem of_closed (closed : s.current = none) : Standing dir s := by
  intro segment current
  rw [closed] at current
  contradiction

theorem of_toLogRead (same : s'.toLogRead = s.toLogRead) (standing : Standing dir s) :
    Standing dir s' := by
  intro segment current
  rw [same] at current ⊢
  exact standing segment current

theorem of_opening {result : Except LogError Bool} (opening : Opening dir s result s')
    (standing : Standing dir s) : Standing dir s' := by
  cases opening with
  | ended none result =>
      rw [result]
      exact standing
  | boundary first session differs result =>
      rw [result]
      exact standing
  | opened first continues result =>
      obtain ⟨segment, current, isOpen, _, _⟩ := (Opening.opened first continues result).current
      intro segment' at_
      obtain rfl := Option.some.inj (current.symm.trans at_)
      exact isOpen

/-- The read position moves on within the open file. -/
theorem advance {segment : Segment} {n : Nat} (standing : Standing dir s)
    (current : s.current = some segment) (within : segment.pos + n ≤ segment.dataLen)
    (same : s'.toLogRead = { s.toLogRead with
      current := some { segment with pos := segment.pos + n, offset := segment.offset + n } }) :
    Standing dir s' := by
  have isOpen := standing segment current
  intro segment' at_
  rw [same] at at_ ⊢
  obtain rfl := Option.some.inj at_
  refine ⟨isOpen.file, within, ?_⟩
  rw [isOpen.offset, Nat.add_assoc]

end Standing

section Maintained

variable {dir : Dir} {overflowChecks : Bool}

theorem openNext_standing :
    Maintains (Standing dir) (openNext (.still dir noFault overflowChecks)) := by
  intro s standing
  refine (openNext_still s).imp (fun _ _ opening => standing.of_opening opening) ?_
  rintro _ _ ⟨e, rfl, opening⟩
  exact standing.of_opening opening

theorem rejectCurrent_standing (lost n : Nat) :
    Maintains (Standing dir) (rejectCurrent lost n) := by
  refine .bind_get fun s standing => ?_
  cases current : s.current with
  | none => exact standing
  | some segment => exact Standing.of_closed rfl

theorem sameLog_standing {α : Type} {x : ReadM α} (preserves : Preserves SameLog x) :
    Maintains (Standing dir) x :=
  preserves.maintains fun same standing => standing.of_toLogRead same

theorem noteRecovery_standing (id : SegId) :
    Maintains (Standing dir) (noteRecovery (.still dir noFault overflowChecks) id) := by
  refine .bind_get fun s standing => ?_
  cases s.cursor.total with
  | none => exact standing
  | some total =>
      refine meets_bind.mpr ((sameLog_standing (subU64_sameLog _ _ _) s standing).imp ?_
        fun _ _ standing' => standing')
      exact fun _ _ _ => meets_set.mpr standing

theorem checkCrossing_standing (prevShort : Bool) (prevSeq : Option SeqId) (segment : Segment) :
    Maintains (Standing dir)
      (checkCrossing (.still dir noFault overflowChecks) prevShort prevSeq segment) := by
  have rejects (lost : Nat) :
      Maintains (Standing dir) (do rejectCurrent lost (← get).cursor.payloadInBuf) :=
    .bind_get fun s standing => rejectCurrent_standing _ _ s standing
  refine .bind (sameLog_standing (checkRemaining_sameLog _ _)) fun denied => ?_
  refine .bind (sameLog_standing (checkSequence_sameLog _ _ _)) fun sequence => ?_
  exact .ite (.ite (.bind (noteRecovery_standing _) fun _ => rejects _) (rejects _)) (.pure _)

theorem cross_standing : Maintains (Standing dir) (cross (.still dir noFault overflowChecks)) := by
  refine .bind_get fun s _ => meets_bind.mpr (meets_set.mpr ?_)
  have attempts : Maintains (Standing dir) (attempt (openNext (.still dir noFault overflowChecks))) :=
    maintains_attempt openNext_standing
  have opened := attempts { s with current := none } (.of_closed rfl)
  refine meets_bind.mpr (opened.imp ?_ fun _ _ standing => standing)
  intro outcome t standing
  cases outcome with
  | error e => exact meets_ite.mpr ⟨fun _ => standing, fun _ => standing⟩
  | ok opened =>
      cases opened with
      | false => exact standing
      | true =>
          refine meets_bind.mpr (meets_get.mpr ?_)
          cases current : t.current with
          | none => exact standing
          | some segment => exact checkCrossing_standing _ _ _ t standing

theorem crossIfExhausted_standing :
    Maintains (Standing dir) (crossIfExhausted (.still dir noFault overflowChecks)) :=
  .bind_get fun s standing => meets_ite.mpr ⟨fun _ => cross_standing s standing, fun _ => standing⟩

/-- The segment with its read position moved on by `n`. -/
def Segment.advance (segment : Segment) (n : Nat) : Segment :=
  { segment with pos := segment.pos + n, offset := segment.offset + n }

theorem fillChunk_standing (len : Nat) :
    Maintains (Standing dir) (fillChunk (.still dir noFault overflowChecks) len) := by
  refine .bind crossIfExhausted_standing fun _ => .bind_get fun s standing => ?_
  cases current : s.current with
  | none => exact standing
  | some segment =>
      have isOpen := standing segment current
      have posLe := isOpen.posLe
      refine meets_bind.mpr ((readExact_still isOpen (by omega)).imp ?_
        fun _ _ impossible => impossible.elim)
      rintro bytes t ⟨asked, _⟩
      refine standing.advance current (n := min (segment.dataLen - segment.pos) len) (by omega) ?_
      rw [asked.same]

theorem skipChunk_standing (count : Nat) :
    Maintains (Standing dir) (skipChunk (.still dir noFault overflowChecks) count) := by
  refine .bind crossIfExhausted_standing fun _ => .bind_get fun s standing => ?_
  cases current : s.current with
  | none => exact standing
  | some segment =>
      have isOpen := standing segment current
      have posLe := isOpen.posLe
      refine meets_bind.mpr ((seekForward_still isOpen (by omega)).imp ?_
        fun _ _ impossible => impossible.elim)
      rintro moved t ⟨asked, rfl⟩
      refine standing.advance current (n := min (segment.dataLen - segment.pos) count) (by omega) ?_
      rw [asked.same]

theorem repeatPass_standing {pass : Nat → ReadM Nat}
    {progress : ∀ {len}, 0 < len → ∀ s, Meets (pass len) s
      (fun n s' => s'.pending.length + (len - n) < s.pending.length + len) (fun _ _ => True)}
    (maintains : ∀ len, Maintains (Standing dir) (pass len)) (len : Nat) :
    Maintains (Standing dir) (repeatPass pass progress len) :=
  fun _ standing => meets_repeatPass (fun _ => Standing dir)
    (fun _ standing => maintains _ _ standing) standing

theorem examineNext_standing :
    Maintains (Standing dir) (examineNext (.still dir noFault overflowChecks)) := by
  intro s standing
  have forgotten : Standing dir { s with recovery := none } := standing
  simp only [examineNext, meets_bind, meets_get, meets_modify, meets_ite]
  refine (openNext_still _).imp ?_ ?_
  · intro opened t opening
    refine ⟨fun isOpen => ?_, fun _ => forgotten.of_opening opening⟩
    subst isOpen
    obtain ⟨segment, current, isOpen, start, _⟩ := opening.current
    have standing' := forgotten.of_opening opening
    simp only [current]
    split
    · exact standing'
    · simp only [meets_ite, meets_bind, meets_modify, meets_pure]
      refine ⟨fun _ => .of_closed rfl, fun offers => ?_⟩
      refine (seekForward_still isOpen (by omega)).imp ?_ fun _ _ impossible => impossible.elim
      rintro moved u ⟨asked, rfl⟩
      refine standing'.advance current (n := segment.header.remaining.toNat) (by omega) ?_
      rw [asked.same, start, Nat.zero_add]
  · rintro stop t ⟨e, rfl, opening⟩
    exact forgotten.of_opening opening

theorem findRecordStart_standing :
    Maintains (Standing dir) (findRecordStart (.still dir noFault overflowChecks)) := by
  refine fun s standing => meets_findRecordStart _ (Standing dir) (fun {s} standing => ?_) standing
  exact (examineNext_standing s standing).imp (fun _ _ standing' => ⟨fun _ _ => standing', fun _ => standing'⟩)
    fun _ _ standing' => standing'

theorem fillBuf_standing (len : Nat) :
    Maintains (Standing dir) (fillBuf (.still dir noFault overflowChecks) len) := by
  refine .bind (.modify fun _ standing => standing) fun _ => ?_
  exact .bind (repeatPass_standing fillChunk_standing len) fun _ =>
    .bind_get fun _ standing => standing

theorem settlePayloadLen_standing (decoded : Nat) :
    Maintains (Standing dir) (settlePayloadLen decoded) :=
  .bind_get fun s standing => meets_ite.mpr ⟨fun _ => Maintains.bind (rejectCurrent_standing 0 0)
    (fun _ => .pure _) s standing, fun _ => standing⟩

theorem readDataHeader_standing (format : Format) (minor : Nat) :
    Maintains (Standing dir) (readDataHeader (.still dir noFault overflowChecks) format minor) := by
  have setTotal (total : Nat) : Maintains (Standing dir) (setTotal total) :=
    .modify fun _ standing => standing
  cases format with
  | fixed n => exact .bind (setTotal _) fun _ => .pure _
  | variableSimple =>
      exact .bind (fillBuf_standing _) fun _ => .bind (settlePayloadLen_standing _) fun _ =>
        .bind (setTotal _) fun _ => .pure _
  | variableTsRc =>
      exact .bind (fillBuf_standing _) fun _ => .bind (settlePayloadLen_standing _) fun _ =>
        .bind (setTotal _) fun _ => .pure _

theorem orLosePosition_standing {α : Type} {x : ReadM α} (maintains : Maintains (Standing dir) x) :
    Maintains (Standing dir) (orLosePosition x) := by
  refine .bind (maintains_attempt maintains) fun outcome => ?_
  cases outcome with
  | ok a => exact .pure _
  | error e => exact .bind (.modify fun _ _ => Standing.of_closed rfl) fun _ => .throw _

theorem locate_standing : Maintains (Standing dir) (locate (.still dir noFault overflowChecks)) := by
  refine .bind_get fun s standing => meets_ite.mpr ⟨fun _ => ?_, fun _ => standing⟩
  refine Maintains.bind (orLosePosition_standing findRecordStart_standing) (fun start => ?_) s standing
  refine .bind (.modify fun _ standing => standing) fun _ => .bind_get fun t standing => ?_
  exact meets_ite.mpr ⟨fun _ => standing, fun _ => standing⟩

theorem header_standing (start : Start) (segment : Segment) :
    Maintains (Standing dir) (header (.still dir noFault overflowChecks) start segment) := by
  cases start with
  | recovered n => exact .bind (.modify fun _ standing => standing) fun _ => .pure _
  | fresh => exact orLosePosition_standing (readDataHeader_standing _ _)

theorem payload_standing (cap want : Nat) (metadata : Meta) :
    Maintains (Standing dir) (payload (.still dir noFault overflowChecks) cap want metadata) := by
  refine .bind (.modify fun _ standing => standing) fun _ => ?_
  refine .bind (orLosePosition_standing (fillBuf_standing _)) fun _ => .ite ?_ (.pure _)
  refine .bind (maintains_attempt (repeatPass_standing skipChunk_standing _)) fun outcome => ?_
  cases outcome with
  | ok _ => exact .throw _
  | error e => exact .bind (.modify fun _ _ => Standing.of_closed rfl) fun _ => .throw _

theorem read_standing (cap : Nat) :
    Maintains (Standing dir) (read (.still dir noFault overflowChecks) cap) := by
  refine .bind_get fun s standing => meets_ite.mpr ⟨fun _ => ?_, fun _ => ?_⟩
  · exact Standing.of_closed rfl
  · refine meets_bind.mpr (meets_set.mpr ?_)
    refine Maintains.bind locate_standing (fun start => .bind_get fun t standing => ?_) _ standing
    cases current : t.current with
    | none => exact orLosePosition_standing (.throw _) t standing
    | some segment =>
        exact Maintains.bind (header_standing _ _) (fun decoded => payload_standing _ _ _) t standing

theorem readCall_standing (cap : Nat) {s : ReadState} (standing : Standing dir s) :
    Standing dir (readCall (.still dir noFault overflowChecks) cap s).2 := by
  have spec : Meets (read (.still dir noFault overflowChecks) cap) s (fun _ s' => Standing dir s')
      (fun _ s' => Standing dir s') := read_standing cap s standing
  cases ran : (read (.still dir noFault overflowChecks) cap).run s with
  | ok result s' =>
      simp only [readCall, ran]
      exact spec.of_ok ran
  | error stop s' =>
      have standing' := spec.of_error ran
      cases stop <;> simp only [readCall, ran] <;> exact standing'

end Maintained

end Tcslog
