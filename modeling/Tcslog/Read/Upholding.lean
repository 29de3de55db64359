import Tcslog.Read.Calls

/-!
# What a reader upholds

What a call changes of a reader comes down to opening the next file, handing a
file back, moving within the open file, closing it, and fields on the side.  A
property of readers that these keep is kept by every call, in any surroundings.
-/

namespace Tcslog

open Lib.Program

/-- A property of a reader, whatever the call under way has read. -/
def Upheld (I : LogRead → Prop) (s : ReadState) : Prop :=
  I s.toLogRead

/-- A property of readers that each of their changes keeps. -/
structure Upholds (env : ReadEnv) (I : LogRead → Prop) : Prop where
  openNext : Maintains (Upheld I) (Tcslog.openNext env)
  rejected : ∀ {log segment}, log.current = some segment → I log → I { log with
    pending := segment.id :: log.pending, current := none, reopened := some segment.id }
  moved : ∀ {log segment pos offset}, log.current = some segment → I log →
    I { log with current := some { segment with pos := pos, offset := offset } }
  closed : ∀ {log}, I log → I { log with current := none }
  noted : ∀ {log resync session prevSeq sessionStartLost recovery lastMeta}, I log → I { log with
    resync := resync, session := session, prevSeq := prevSeq, sessionStartLost := sessionStartLost
    recovery := recovery, lastMeta := lastMeta }

/-- A property of readers that what happens within a record keeps. -/
structure UpholdsWithin (env : ReadEnv) (I : LogRead → Prop) : Prop where
  openNext : Maintains (Upheld I) (Tcslog.openNext env)
  rejected : ∀ {log segment}, log.current = some segment → I log → I { log with
    pending := segment.id :: log.pending, current := none, reopened := some segment.id }
  moved : ∀ {log segment pos offset}, log.current = some segment → I log →
    I { log with current := some { segment with pos := pos, offset := offset } }
  closed : ∀ {log}, I log → I { log with current := none }
  noted : ∀ {log session prevSeq recovery}, I log → I { log with
    session := session, prevSeq := prevSeq, recovery := recovery }

theorem Upholds.within {env : ReadEnv} {I : LogRead → Prop} (upholds : Upholds env I) :
    UpholdsWithin env I :=
  ⟨upholds.openNext, upholds.rejected, upholds.moved, upholds.closed, upholds.noted⟩

theorem Upheld.of_same {I : LogRead → Prop} {s s' : ReadState} (same : s'.toLogRead = s.toLogRead)
    (holds : Upheld I s) : Upheld I s' := by
  rwa [Upheld, same]

theorem sameLog_holds {I : LogRead → Prop} {α : Type} {x : ReadM α} (preserves : Preserves SameLog x) :
    Maintains (Upheld I) x :=
  preserves.maintains fun same holds => holds.of_same same

theorem readExact_sameLog (env : ReadEnv) (segment : Segment) (n : Nat) :
    Preserves SameLog (readExact env segment n) :=
  fun s => (readExact_onlyAsked env segment n s).imp (fun _ _ asked => asked.toLogRead_eq)
    fun _ _ asked => asked.toLogRead_eq

/-- Moving within a file changes where it stands. -/
theorem seekForward_sameLog (env : ReadEnv) (segment : Segment) (n : Nat) (s : ReadState) :
    Meets (seekForward env segment n) s
      (fun moved s' => SameLog s s' ∧ moved = { segment with offset := segment.offset + asI64 n })
      (fun _ s' => SameLog s s') := by
  rw [seekForward, meets_bind]
  refine (perform_onlyAsked env _ _ s).imp ?_ fun _ _ asked => asked.toLogRead_eq
  intro content t asked
  cases content with
  | none => exact asked.toLogRead_eq
  | some _ => exact ⟨asked.toLogRead_eq, rfl⟩

theorem repeatPass_holds {I : LogRead → Prop} {pass : Nat → ReadM Nat}
    {progress : ∀ {len}, 0 < len → ∀ s, Meets (pass len) s
      (fun n s' => s'.pending.length + (len - n) < s.pending.length + len) (fun _ _ => True)}
    (maintains : ∀ len, Maintains (Upheld I) (pass len)) (len : Nat) :
    Maintains (Upheld I) (repeatPass pass progress len) :=
  fun _ holds => meets_repeatPass (fun _ => Upheld I) (fun _ holds => maintains _ _ holds) holds

section Within

variable {env : ReadEnv} {I : LogRead → Prop} (upholds : UpholdsWithin env I)

include upholds

theorem UpholdsWithin.rejectCurrent (lost n : Nat) : Maintains (Upheld I) (Tcslog.rejectCurrent lost n) := by
  refine .bind_get fun s holds => ?_
  cases current : s.current with
  | none => exact holds
  | some segment => exact upholds.rejected current holds

theorem UpholdsWithin.noteRecovery (id : SegId) : Maintains (Upheld I) (Tcslog.noteRecovery env id) := by
  refine .bind_get fun s holds => ?_
  cases s.cursor.total with
  | none => exact holds
  | some total =>
      refine meets_bind.mpr ((sameLog_holds (subU64_sameLog _ _ _) s holds).imp ?_
        fun _ _ holds' => holds')
      exact fun _ _ _ => meets_set.mpr (upholds.noted holds)

theorem UpholdsWithin.checkCrossing (prevShort : Bool) (prevSeq : Option SeqId) (segment : Segment) :
    Maintains (Upheld I) (Tcslog.checkCrossing env prevShort prevSeq segment) := by
  have rejects (lost : Nat) :
      Maintains (Upheld I) (do Tcslog.rejectCurrent lost (← get).cursor.payloadInBuf) :=
    .bind_get fun s holds => upholds.rejectCurrent _ _ s holds
  refine .bind (sameLog_holds (checkRemaining_sameLog _ _)) fun denied => ?_
  refine .bind (sameLog_holds (checkSequence_sameLog _ _ _)) fun sequence => ?_
  exact .ite (.ite (.bind (upholds.noteRecovery _) fun _ => rejects _) (rejects _)) (.pure _)

theorem UpholdsWithin.cross : Maintains (Upheld I) (Tcslog.cross env) := by
  refine .bind_get fun s holds => meets_bind.mpr (meets_set.mpr ?_)
  have opened := maintains_attempt upholds.openNext { s with current := none } (upholds.closed holds)
  refine meets_bind.mpr (opened.imp ?_ fun _ _ holds' => holds')
  intro outcome t holds'
  cases outcome with
  | error e => exact meets_ite.mpr ⟨fun _ => upholds.noted holds', fun _ => holds'⟩
  | ok opened =>
      cases opened with
      | false => exact holds'
      | true =>
          refine meets_bind.mpr (meets_get.mpr ?_)
          cases t.current with
          | none => exact holds'
          | some segment => exact upholds.checkCrossing _ _ _ t holds'

theorem UpholdsWithin.crossIfExhausted : Maintains (Upheld I) (Tcslog.crossIfExhausted env) :=
  .bind_get fun s holds => meets_ite.mpr ⟨fun _ => upholds.cross s holds, fun _ => holds⟩

/-- The read position moves within the open file. -/
theorem UpholdsWithin.move {s t : ReadState} {segment : Segment} (current : s.current = some segment)
    (holds : Upheld I s) (same : SameLog s t) (pos offset : Nat) :
    I { t.toLogRead with current := some { segment with pos := pos, offset := offset } } := by
  rw [same]
  exact upholds.moved current holds

theorem UpholdsWithin.fillChunk (len : Nat) : Maintains (Upheld I) (Tcslog.fillChunk env len) := by
  refine .bind upholds.crossIfExhausted fun _ => .bind_get fun s holds => ?_
  cases current : s.current with
  | none => exact holds
  | some segment =>
      refine meets_bind.mpr ((readExact_sameLog env segment _ s).imp ?_ fun _ _ same => holds.of_same same)
      exact fun bytes t same => upholds.move current holds same _ _

theorem UpholdsWithin.skipChunk (count : Nat) : Maintains (Upheld I) (Tcslog.skipChunk env count) := by
  refine .bind upholds.crossIfExhausted fun _ => .bind_get fun s holds => ?_
  cases current : s.current with
  | none => exact holds
  | some segment =>
      refine meets_bind.mpr ((seekForward_sameLog env segment _ s).imp ?_ fun _ _ same => holds.of_same same)
      rintro moved t ⟨same, rfl⟩
      exact upholds.move current holds same _ _

theorem UpholdsWithin.fillBuf (len : Nat) : Maintains (Upheld I) (Tcslog.fillBuf env len) := by
  refine .bind (.modify fun _ holds => holds) fun _ => ?_
  exact .bind (repeatPass_holds upholds.fillChunk len) fun _ => .bind_get fun _ holds => holds

theorem UpholdsWithin.settlePayloadLen (decoded : Nat) :
    Maintains (Upheld I) (Tcslog.settlePayloadLen decoded) :=
  .bind_get fun s holds => meets_ite.mpr ⟨fun _ => Maintains.bind (upholds.rejectCurrent 0 0)
    (fun _ => .pure _) s holds, fun _ => holds⟩

theorem UpholdsWithin.readDataHeader (format : Format) (minor : Nat) :
    Maintains (Upheld I) (Tcslog.readDataHeader env format minor) := by
  have setTotal (total : Nat) : Maintains (Upheld I) (setTotal total) := .modify fun _ holds => holds
  cases format with
  | fixed n => exact .bind (setTotal _) fun _ => .pure _
  | variableSimple =>
      exact .bind (upholds.fillBuf _) fun _ => .bind (upholds.settlePayloadLen _) fun _ =>
        .bind (setTotal _) fun _ => .pure _
  | variableTsRc =>
      exact .bind (upholds.fillBuf _) fun _ => .bind (upholds.settlePayloadLen _) fun _ =>
        .bind (setTotal _) fun _ => .pure _

end Within

section Upholds

variable {env : ReadEnv} {I : LogRead → Prop} (upholds : Upholds env I)

include upholds

theorem Upholds.examineNext : Maintains (Upheld I) (Tcslog.examineNext env) := by
  refine .bind_get fun s holds => meets_bind.mpr (meets_modify.mpr ?_)
  have forgotten : Upheld I { s with recovery := none } := upholds.noted holds
  refine meets_bind.mpr ((upholds.openNext _ forgotten).imp ?_ fun _ _ holds' => holds')
  intro opened t holds'
  refine meets_ite.mpr ⟨fun _ => meets_bind.mpr (meets_get.mpr ?_), fun _ => holds'⟩
  cases current : t.current with
  | none => exact holds'
  | some segment =>
      dsimp only
      split
      · exact holds'
      · refine meets_ite.mpr ⟨fun _ => upholds.closed holds', fun _ => ?_⟩
        refine meets_bind.mpr ((seekForward_sameLog env segment _ t).imp ?_
          fun _ _ same => holds'.of_same same)
        rintro moved u ⟨same, rfl⟩
        exact upholds.within.move current holds' same _ _

theorem Upholds.findRecordStart : Maintains (Upheld I) (Tcslog.findRecordStart env) := by
  refine fun s holds => meets_findRecordStart _ (Upheld I) (fun {s} holds => ?_) holds
  exact (upholds.examineNext s holds).imp (fun _ _ holds' => ⟨fun _ _ => holds', fun _ => holds'⟩)
    fun _ _ holds' => holds'

theorem Upholds.losePosition {s : ReadState} (holds : Upheld I s) : Upheld I s.losePosition :=
  upholds.noted (upholds.closed holds)

theorem Upholds.orLosePosition {α : Type} {x : ReadM α} (maintains : Maintains (Upheld I) x) :
    Maintains (Upheld I) (Tcslog.orLosePosition x) := by
  refine .bind (maintains_attempt maintains) fun outcome => ?_
  cases outcome with
  | ok a => exact .pure _
  | error e => exact .bind (.modify fun _ holds => upholds.losePosition holds) fun _ => .throw _

theorem Upholds.locate : Maintains (Upheld I) (Tcslog.locate env) := by
  refine .bind_get fun s holds => meets_ite.mpr ⟨fun _ => ?_, fun _ => holds⟩
  refine Maintains.bind (upholds.orLosePosition upholds.findRecordStart) (fun start => ?_) s holds
  refine .bind (.modify fun _ holds => upholds.noted holds) fun _ => .bind_get fun t holds => ?_
  exact meets_ite.mpr ⟨fun _ => upholds.noted holds, fun _ => holds⟩

theorem Upholds.header (start : Start) (segment : Segment) :
    Maintains (Upheld I) (Tcslog.header env start segment) := by
  cases start with
  | recovered n => exact .bind (.modify fun _ holds => holds) fun _ => .pure _
  | fresh => exact upholds.orLosePosition (upholds.within.readDataHeader _ _)

theorem Upholds.payload (cap want : Nat) (metadata : Meta) :
    Maintains (Upheld I) (Tcslog.payload env cap want metadata) := by
  refine .bind (.modify fun _ holds => upholds.noted holds) fun _ => ?_
  refine .bind (upholds.orLosePosition (upholds.within.fillBuf _)) fun _ => .ite ?_ (.pure _)
  refine .bind (maintains_attempt (repeatPass_holds upholds.within.skipChunk _)) fun outcome => ?_
  cases outcome with
  | ok _ => exact .throw _
  | error e => exact .bind (.modify fun _ holds => upholds.losePosition holds) fun _ => .throw _

/-- A call keeps what the changes it is made of keep. -/
theorem Upholds.read (cap : Nat) : Maintains (Upheld I) (Tcslog.read env cap) := by
  refine .bind_get fun s holds => meets_ite.mpr ⟨fun _ => ?_, fun _ => ?_⟩
  · exact upholds.closed holds
  · refine meets_bind.mpr (meets_set.mpr ?_)
    have started : Upheld I { s with
        resync := s.resync || s.current.isNone, cursor := {}, dst := [] } := upholds.noted holds
    refine Maintains.bind upholds.locate (fun start => .bind_get fun t holds => ?_) _ started
    cases t.current with
    | none => exact upholds.orLosePosition (.throw _) t holds
    | some segment =>
        exact Maintains.bind (upholds.header _ _) (fun decoded => upholds.payload _ _ _) t holds

theorem Upholds.readCall (cap : Nat) {s : ReadState} (holds : Upheld I s) :
    Upheld I (Tcslog.readCall env cap s).2 := by
  have spec := upholds.read cap s holds
  cases ran : (Tcslog.read env cap).run s with
  | ok result s' =>
      simp only [Tcslog.readCall, ran]
      exact spec.of_ok ran
  | error stop s' =>
      have holds' := spec.of_error ran
      cases stop <;> simp only [Tcslog.readCall, ran] <;> exact holds'

theorem Upholds.readCalls {caps : Nat → Nat} (calls : Nat) {s : ReadState} (holds : Upheld I s) :
    Upheld I (Tcslog.readCalls env caps calls s).2 := by
  induction calls generalizing caps s with
  | zero => exact holds
  | succ calls ih => exact ih (upholds.readCall (caps 0) holds)

end Upholds

end Tcslog
