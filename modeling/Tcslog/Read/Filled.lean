import Tcslog.Read.Calls

/-!
# What is in the buffer of a record that was read

Opening and crossing files does not touch the buffer of the call under way, and a
pass of the loop that fills it adds what it says.  A record that was read is the
whole of what is in the buffer.
-/

namespace Tcslog

open Lib.Program

/-- The buffer of the call under way holds these bytes. -/
def InBuf (bytes : Bytes) (s : ReadState) : Prop :=
  s.dst = bytes

section Crossing

variable (env : ReadEnv) {bytes : Bytes}

theorem inBuf_asked {α : Type} {x : ReadM α} (asks : Preserves OnlyAsked x) : Maintains (InBuf bytes) x :=
  asks.maintains fun asked held => (by rw [asked.same] : _ = _).trans held

theorem inBuf_subU64 (checks : Bool) (a b : Nat) : Maintains (InBuf bytes) (subU64 checks a b) :=
  .ite (.pure _) (.ite (.throw _) (.pure _))

theorem inBuf_addU64 (checks : Bool) (a b : Nat) : Maintains (InBuf bytes) (addU64 checks a b) :=
  .ite (.pure _) (.ite (.throw _) (.pure _))

theorem inBuf_openNextOf (ids : List SegId) : Maintains (InBuf bytes) (openNextOf env ids) := by
  induction ids with
  | nil => exact .bind (.modify fun _ held => held) fun _ => .pure _
  | cons id rest ih =>
      refine .bind (.modify fun _ held => held) fun _ =>
        .bind (inBuf_asked (openValidated_onlyAsked env id)) fun found => ?_
      cases found with
      | none => exact ih
      | some segment => exact .bind_get fun s held => meets_ite.mpr ⟨fun _ => held, fun _ => held⟩

theorem inBuf_rejectCurrent (lost n : Nat) : Maintains (InBuf bytes) (rejectCurrent lost n) := by
  refine .bind_get fun s held => ?_
  cases s.current with
  | none => exact held
  | some segment => exact held

theorem inBuf_checkCrossing (prevShort : Bool) (prevSeq : Option SeqId) (segment : Segment) :
    Maintains (InBuf bytes) (checkCrossing env prevShort prevSeq segment) := by
  have remaining : Maintains (InBuf bytes) (checkRemaining env segment.header) := by
    refine .bind_get fun s held => meets_ite.mpr ⟨fun _ => held, fun _ => ?_⟩
    cases s.cursor.total with
    | none => exact meets_ite.mpr ⟨fun _ => held, fun _ => held⟩
    | some total => exact Maintains.bind (inBuf_subU64 _ _ _) (fun _ => .pure _) s held
  have sequence : Maintains (InBuf bytes) (checkSequence env prevSeq segment.header.sequence) := by
    cases prevSeq with
    | none => exact .pure _
    | some prev =>
        exact .bind (inBuf_addU64 _ _ _) fun _ => .ite (.pure _) (.ite (.bind (inBuf_subU64 _ _ _) fun _ =>
          .bind (inBuf_subU64 _ _ _) fun _ => .pure _) (.pure _))
  have rejects (lost : Nat) :
      Maintains (InBuf bytes) (do rejectCurrent lost (← get).cursor.payloadInBuf) :=
    .bind_get fun s held => inBuf_rejectCurrent _ _ s held
  have notes : Maintains (InBuf bytes) (noteRecovery env segment.id) := by
    refine .bind_get fun s held => ?_
    cases s.cursor.total with
    | none => exact held
    | some total =>
        exact meets_bind.mpr ((inBuf_subU64 _ _ _ s held).imp (fun _ _ _ => held) fun _ _ held' => held')
  exact .bind remaining fun _ => .bind sequence fun _ =>
    .ite (.ite (.bind notes fun _ => rejects _) (rejects _)) (.pure _)

theorem inBuf_crossIfExhausted : Maintains (InBuf bytes) (crossIfExhausted env) := by
  have crosses : Maintains (InBuf bytes) (cross env) := by
    refine .bind_get fun s held => meets_bind.mpr (meets_set.mpr ?_)
    have opens : Maintains (InBuf bytes) (openNext env) := .bind_get fun s held => inBuf_openNextOf env _ s held
    refine meets_bind.mpr ((maintains_attempt opens { s with current := none } held).imp ?_ fun _ _ held' => held')
    intro outcome t held'
    cases outcome with
    | error e => exact meets_ite.mpr ⟨fun _ => held', fun _ => held'⟩
    | ok opened =>
        cases opened with
        | false => exact held'
        | true =>
            refine meets_bind.mpr (meets_get.mpr ?_)
            cases t.current with
            | none => exact held'
            | some segment => exact inBuf_checkCrossing env _ _ _ t held'
  exact .bind_get fun s held => meets_ite.mpr ⟨fun _ => crosses s held, fun _ => held⟩

end Crossing

section Filling

variable (env : ReadEnv)

theorem readExact_length (segment : Segment) (n : Nat) (s : ReadState) :
    Meets (readExact env segment n) s (fun bytes s' => bytes.length = n ∧ s'.dst = s.dst) fun _ _ => True := by
  have same : Meets (readExact env segment n) s (fun _ s' => s'.dst = s.dst) fun _ s' => s'.dst = s.dst :=
    inBuf_asked (readExact_onlyAsked env segment n) s rfl
  have length : Meets (readExact env segment n) s (fun bytes _ => bytes.length = n) fun _ _ => True := by
    rw [readExact]
    refine meets_ite.mpr ⟨fun none => none.symm, fun _ => meets_bind.mpr (meets_true.imp ?_ fun _ _ _ => trivial)⟩
    intro content t _
    cases content with
    | none => trivial
    | some content =>
        refine meets_ite.mpr ⟨fun _ => trivial, fun long => ?_⟩
        exact Nat.le_antisymm (List.length_take_le _ _) (Nat.le_of_not_lt long)
  exact (length.and same).imp (fun _ _ both => both) fun _ _ _ => trivial

/-- A pass of the loop adds as many bytes as it says. -/
theorem fillChunk_adds (len : Nat) (s : ReadState) :
    Meets (fillChunk env len) s (fun n s' => n ≤ len ∧ s'.dst.length = s.dst.length + n) fun _ _ => True := by
  simp only [fillChunk, meets_bind, meets_get]
  refine (inBuf_crossIfExhausted env s rfl).imp (fun _ t held => ?_) fun _ _ _ => trivial
  cases t.current with
  | none => simp
  | some segment =>
      simp only [meets_bind, meets_modify, meets_pure]
      refine (readExact_length env segment _ t).imp (fun bytes u read => ?_) fun _ _ _ => trivial
      refine ⟨Nat.min_le_right _ _, ?_⟩
      rw [List.length_append, read.1, read.2, show t.dst = s.dst from held]

/-- The loop adds all the bytes that it was asked for. -/
theorem fillBuf_length (len : Nat) (s : ReadState) :
    Meets (fillBuf env len) s (fun _ s' => s'.dst.length = len) fun _ _ => True := by
  have fills : Meets (fill env len) { s with dst := [] }
      (fun _ t => 0 ≤ len ∧ t.dst.length + 0 = len) fun _ _ => True := by
    refine meets_repeatPass (fun rest t => rest ≤ len ∧ t.dst.length + rest = len) (fun {rest t} _ holds => ?_)
      ⟨le_rfl, Nat.zero_add len⟩
    obtain ⟨le, sum⟩ := holds
    refine (fillChunk_adds env rest t).imp (fun n u added => ?_) fun _ _ _ => trivial
    omega
  simp only [fillBuf, meets_bind, meets_modify, meets_get, meets_pure]
  exact fills.imp (fun _ _ filled => filled.2) fun _ _ _ => trivial

theorem payload_length (cap want : Nat) (metadata : Meta) (s : ReadState) :
    Meets (payload env cap want metadata) s (fun result s' => s'.dst.length = result.n) fun _ _ => True := by
  have fills (t : ReadState) : Meets (orLosePosition (fillBuf env (min want cap))) t
      (fun _ t' => t'.dst.length = min want cap) fun _ _ => True := by
    refine meets_orLosePosition.mpr ((fillBuf_length env _ t).imp (fun _ _ filled => filled) ?_)
    intro stop _ _
    cases stop with
    | error e => trivial
    | panic => trivial
    | stuck => trivial
  simp only [payload, meets_bind, meets_modify]
  refine (fills _).imp (fun _ t filled => meets_ite.mpr ⟨fun _ => ?_, fun _ => filled⟩) fun _ _ _ => trivial
  -- a record the buffer has no room for is not returned
  refine meets_bind.mpr (meets_true.imp (fun skipped u _ => ?_) fun _ _ _ => trivial)
  cases skipped with
  | ok _ => trivial
  | error e => trivial

/-- A record that was read is the whole of what is in the buffer. -/
theorem read_length (cap : Nat) (s : ReadState) :
    Meets (read env cap) s (fun result s' => s'.dst.length = result.n) fun _ _ => True := by
  simp only [read, meets_bind, meets_get, meets_ite, meets_set, meets_fail]
  refine ⟨fun _ => trivial, fun _ => meets_true.imp (fun start t _ => ?_) fun _ _ _ => trivial⟩
  cases t.current with
  | none => exact meets_orLosePosition.mpr trivial
  | some segment => exact meets_bind.mpr (meets_true.imp (fun decoded u _ => payload_length env cap _ _ u)
      fun _ _ _ => trivial)

end Filling

end Tcslog
