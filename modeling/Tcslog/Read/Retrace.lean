import Tcslog.Lib.Coupling
import Tcslog.Read.Still

/-!
# What a reader does not look at

In a directory that stays as it is, what a reader does depends neither on the
requests it made before nor on what it has placed in the buffer.  Opening files
and crossing into them, two readers that differ in these only do the same; a
whole call does, of two that differ in their traces only.
-/

namespace Tcslog

open Lib.Program

/-- The bytes in the buffer, and the number of them that are payload. -/
def ReadState.placed (s : ReadState) : Bytes × Nat :=
  (s.dst, s.cursor.payloadInBuf)

/-- The state with another trace and other bytes placed. -/
def ReadState.placing (s : ReadState) (ops : List ReadOp) (placed : Bytes × Nat) : ReadState :=
  { s with ops := ops, dst := placed.1, cursor := { s.cursor with payloadInBuf := placed.2 } }

/-- The states differ in their traces and in what was placed, by `φ` only. -/
def Beside (φ : Bytes × Nat → Bytes × Nat → Prop) (s t : ReadState) : Prop :=
  ∃ ops placed, t = s.placing ops placed ∧ φ s.placed placed

/-- Both fail alike, each counting the payload bytes it placed. -/
def FailBeside (φ : Bytes × Nat → Bytes × Nat → Prop) (stop stop' : Stop) (s t : ReadState) : Prop :=
  Beside φ s t ∧ (stop = stop' ∨ ∃ lost, stop = .error (.readTruncated lost s.placed.2) ∧
    stop' = .error (.readTruncated lost t.placed.2))

/-- The program does the same whatever was placed, and keeps what was. -/
abbrev Ignores (φ : Bytes × Nat → Bytes × Nat → Prop) {α : Type} (x : ReadM α) : Prop :=
  Agrees (Beside φ) (FailBeside φ) x x

/-- The states differ in their traces only. -/
def Alike (s t : ReadState) : Prop :=
  ∃ ops, t = { s with ops := ops }

/-- Both fail alike. -/
def FailAlike (stop stop' : Stop) (s t : ReadState) : Prop :=
  stop = stop' ∧ Alike s t

/-- The program does the same whatever the trace. -/
abbrev Retraces {α : Type} (x : ReadM α) : Prop :=
  Agrees Alike FailAlike x x

namespace Alike

theorem refl (s : ReadState) : Alike s s :=
  ⟨s.ops, rfl⟩

theorem trans {s t u : ReadState} (first : Alike s t) (second : Alike t u) : Alike s u := by
  obtain ⟨ops, rfl⟩ := first
  obtain ⟨ops', rfl⟩ := second
  exact ⟨ops', rfl⟩

/-- Differing in the trace only is placing the same. -/
theorem beside {s t : ReadState} (alike : Alike s t) : Beside Eq s t := by
  obtain ⟨ops, rfl⟩ := alike
  exact ⟨ops, s.placed, rfl, rfl⟩

end Alike

theorem Beside.alike {s t : ReadState} (beside : Beside Eq s t) : Alike s t := by
  obtain ⟨ops, _, rfl, rfl⟩ := beside
  exact ⟨ops, rfl⟩

theorem FailBeside.alike {stop stop' : Stop} {s t : ReadState} (failed : FailBeside Eq stop stop' s t) :
    FailAlike stop stop' s t := by
  obtain ⟨beside, same⟩ := failed
  refine ⟨?_, beside.alike⟩
  obtain ⟨ops, _, rfl, rfl⟩ := beside
  rcases same with same | ⟨lost, rfl, rfl⟩
  · exact same
  · rfl

theorem Ignores.retraces {α : Type} {x : ReadM α} (ignores : Ignores Eq x) : Retraces x := by
  intro s t alike
  refine (ignores s t alike.beside).imp ?_ fun _ _ _ _ failed => failed.alike
  exact fun _ _ _ _ agrees => ⟨agrees.1, agrees.2.alike⟩

/-! ## Opening files and crossing into them -/

section Ignores

variable {dir : Dir} {overflowChecks : Bool} {φ : Bytes × Nat → Bytes × Nat → Prop}

theorem OnlyAsked.beside {s s' t t' : ReadState} (asked : OnlyAsked s s') (asked' : OnlyAsked t t')
    (beside : Beside φ s t) : Beside φ s' t' := by
  obtain ⟨ops, placed, rfl, related⟩ := beside
  refine ⟨t'.ops, placed, ?_, ?_⟩
  · rw [asked'.same, asked.same]
    rfl
  · rw [asked.same]
    exact related

theorem Beside.toLogRead_eq {s t : ReadState} (beside : Beside φ s t) : t.toLogRead = s.toLogRead := by
  obtain ⟨ops, placed, rfl, _⟩ := beside
  rfl

/-- A program that first looks at its state. -/
theorem ignores_bind_get {α : Type} {f : ReadState → ReadM α}
    (rest : ∀ s ops placed, φ s.placed placed →
      Couples (f s) (f (s.placing ops placed)) s (s.placing ops placed)
        (fun a b s' t' => a = b ∧ Beside φ s' t') (FailBeside φ)) :
    Ignores φ (get >>= f) := by
  refine Agrees.bind_get ?_
  rintro s _ ⟨ops, placed, rfl, related⟩
  exact rest s ops placed related

theorem ignores_openValidated (id : SegId) :
    Ignores φ (openValidated (.still dir noFault overflowChecks) id) := by
  intro s t beside
  refine couples_of_meets openValidated_still openValidated_still ?_
  rintro found found' s' t' ⟨asked, rfl⟩ ⟨asked', rfl⟩
  refine ⟨by rw [LogRead.files, LogRead.files, beside.toLogRead_eq], ?_⟩
  exact asked.beside asked' beside

theorem ignores_openNextOf (ids : List SegId) :
    Ignores φ (openNextOf (.still dir noFault overflowChecks) ids) := by
  induction ids with
  | nil =>
      refine Agrees.bind (Agrees.modify ?_) fun _ => Agrees.pure _
      rintro s _ ⟨ops, placed, rfl, related⟩
      exact ⟨ops, placed, rfl, related⟩
  | cons id rest ih =>
      refine Agrees.bind (Agrees.modify ?_) fun _ => Agrees.bind (ignores_openValidated id) fun found => ?_
      · rintro s _ ⟨ops, placed, rfl, related⟩
        exact ⟨ops, placed, rfl, related⟩
      · cases found with
        | none => exact ih
        | some segment =>
            refine ignores_bind_get fun s ops placed related => couples_ite (fun _ => ?_) fun _ => ?_
            · refine couples_bind (couples_set.mpr (couples_throw.mpr ⟨?_, .inl rfl⟩))
              exact ⟨ops, placed, rfl, related⟩
            · exact couples_bind (couples_set.mpr (couples_pure.mpr ⟨rfl, ops, placed, rfl, related⟩))

theorem ignores_openNext : Ignores φ (openNext (.still dir noFault overflowChecks)) :=
  ignores_bind_get fun s ops placed related =>
    ignores_openNextOf s.pending s _ ⟨ops, placed, rfl, related⟩

theorem ignores_subU64 (a b : Nat) : Ignores φ (subU64 overflowChecks a b) :=
  Agrees.ite (Agrees.pure _)
    (Agrees.ite (Agrees.throw fun _ _ beside => ⟨beside, .inl rfl⟩) (Agrees.pure _))

theorem ignores_addU64 (a b : Nat) : Ignores φ (addU64 overflowChecks a b) :=
  Agrees.ite (Agrees.pure _)
    (Agrees.ite (Agrees.throw fun _ _ beside => ⟨beside, .inl rfl⟩) (Agrees.pure _))

theorem ignores_checkRemaining (header : SegmentHeader) :
    Ignores φ (checkRemaining (.still dir noFault overflowChecks) header) := by
  refine ignores_bind_get fun s ops placed related => ?_
  have beside : Beside φ s (s.placing ops placed) := ⟨ops, placed, rfl, related⟩
  refine couples_ite (fun _ => couples_pure.mpr ⟨rfl, beside⟩) fun _ => ?_
  dsimp only [ReadState.placing] at beside ⊢
  revert beside
  cases total : s.cursor.total with
  | none =>
      intro beside
      refine couples_ite (fun _ => couples_pure.mpr ⟨rfl, beside⟩) fun _ => ?_
      exact couples_bind (couples_set.mpr (couples_pure.mpr
        ⟨rfl, ops, placed, by simp only [ReadState.placing], related⟩))
  | some total =>
      intro beside
      exact Agrees.bind (ignores_subU64 _ _) (fun _ => Agrees.pure _) s _ beside

theorem ignores_checkSequence (prevSeq : Option SeqId) (sequence : SeqId) :
    Ignores φ (checkSequence (.still dir noFault overflowChecks) prevSeq sequence) := by
  cases prevSeq with
  | none => exact Agrees.pure _
  | some prev =>
      refine Agrees.bind (ignores_addU64 _ _) fun expected => ?_
      refine Agrees.ite (Agrees.pure _) (Agrees.ite ?_ (Agrees.pure _))
      exact Agrees.bind (ignores_subU64 _ _) fun ahead =>
        Agrees.bind (ignores_subU64 _ _) fun lost => Agrees.pure _

theorem ignores_noteRecovery (id : SegId) :
    Ignores φ (noteRecovery (.still dir noFault overflowChecks) id) := by
  refine ignores_bind_get fun s ops placed related => ?_
  have beside : Beside φ s (s.placing ops placed) := ⟨ops, placed, rfl, related⟩
  dsimp only [ReadState.placing] at beside ⊢
  revert beside
  cases total : s.cursor.total with
  | none => exact fun beside => couples_pure.mpr ⟨rfl, beside⟩
  | some total =>
      intro beside
      refine couples_bind ((ignores_subU64 _ _ s _ beside).imp ?_ fun _ _ _ _ failed => failed)
      rintro owed _ s' t' ⟨rfl, _⟩
      exact couples_set.mpr ⟨rfl, ops, placed, by simp only [ReadState.placing, total], related⟩

/-- A file is handed back with the count of the payload bytes placed. -/
theorem ignores_reject (lost : Nat) :
    Ignores φ (do rejectCurrent lost (← get).cursor.payloadInBuf) := by
  refine ignores_bind_get fun s ops placed related => ?_
  refine couples_bind (couples_get.mpr ?_)
  dsimp only [ReadState.placing]
  cases current : s.current with
  | none =>
      exact couples_bind (couples_pure.mpr (couples_throw.mpr
        ⟨⟨ops, placed, rfl, related⟩, .inr ⟨lost, rfl, rfl⟩⟩))
  | some segment =>
      exact couples_bind (couples_set.mpr (couples_throw.mpr
        ⟨⟨ops, placed, rfl, related⟩, .inr ⟨lost, rfl, rfl⟩⟩))

theorem ignores_checkCrossing (prevShort : Bool) (prevSeq : Option SeqId) (segment : Segment) :
    Ignores φ (checkCrossing (.still dir noFault overflowChecks) prevShort prevSeq segment) := by
  refine Agrees.bind (ignores_checkRemaining _) fun denied => ?_
  refine Agrees.bind (ignores_checkSequence _ _) fun sequence => ?_
  refine Agrees.ite (Agrees.ite ?_ (ignores_reject _)) (Agrees.pure _)
  exact Agrees.bind (ignores_noteRecovery _) fun _ => ignores_reject _

theorem ignores_attempt {α : Type} {x : ReadM α} {s t : ReadState} (ignores : Ignores φ x)
    (beside : Beside φ s t) :
    Couples (attempt x) (attempt x) s t
      (fun outcome outcome' s' t' => Beside φ s' t' ∧ (outcome = outcome' ∨
        ∃ lost, outcome = .error (.readTruncated lost s'.placed.2) ∧
          outcome' = .error (.readTruncated lost t'.placed.2)))
      (FailBeside φ) := by
  refine couples_attempt ((ignores s t beside).imp ?_ ?_)
  · rintro a _ s' t' ⟨rfl, beside'⟩
    exact ⟨beside', .inl rfl⟩
  · rintro stop stop' s' t' ⟨beside', same⟩
    rcases same with rfl | ⟨lost, rfl, rfl⟩
    · cases stop with
      | error e => exact .inl ⟨e, e, rfl, rfl, beside', .inl rfl⟩
      | panic => exact .inr ⟨by simp, by simp, beside', .inl rfl⟩
      | stuck => exact .inr ⟨by simp, by simp, beside', .inl rfl⟩
    · exact .inl ⟨_, _, rfl, rfl, beside', .inr ⟨lost, rfl, rfl⟩⟩

/-- A record's end is told with the bytes placed before the crossing. -/
theorem ignores_cross : Ignores φ (cross (.still dir noFault overflowChecks)) := by
  refine ignores_bind_get fun s ops placed related => couples_bind (couples_set.mpr ?_)
  -- Opening a file keeps what was placed on either side.
  have opened := ignores_attempt (φ := fun p q => p = s.placed ∧ q = placed)
    (ignores_openNext : Ignores _ (openNext (.still dir noFault overflowChecks)))
    (s := { s with current := none }) ⟨ops, placed, rfl, rfl, rfl⟩
  refine couples_bind (opened.imp ?_ ?_)
  · rintro outcome outcome' t _ ⟨⟨ops', placed', rfl, kept, rfl⟩, same⟩
    have related' : φ t.placed placed' := kept ▸ related
    have lost : s.cursor.payloadInBuf = t.placed.2 := congrArg Prod.snd kept.symm
    rcases same with rfl | ⟨lost, rfl, rfl⟩
    · cases outcome with
      | error e =>
          refine couples_ite (fun _ => ?_) fun _ => ?_
          · refine couples_bind (couples_modify.mpr (couples_throw.mpr ⟨⟨ops', placed', rfl, related'⟩, ?_⟩))
            exact .inr ⟨0, by rw [lost]; rfl, rfl⟩
          · exact couples_throw.mpr ⟨⟨ops', placed', rfl, related'⟩, .inl rfl⟩
      | ok opened =>
          cases opened with
          | false =>
              refine couples_throw.mpr ⟨⟨ops', placed', rfl, related'⟩, .inr ⟨0, by rw [lost], rfl⟩⟩
          | true =>
              refine couples_bind (couples_get.mpr ?_)
              dsimp only [ReadState.placing]
              cases current : t.current with
              | none =>
                  exact couples_throw.mpr ⟨⟨ops', placed', rfl, related'⟩, .inr ⟨0, by rw [lost], rfl⟩⟩
              | some segment =>
                  exact ignores_checkCrossing _ _ segment t _ ⟨ops', placed', rfl, related'⟩
    · simp only [reduceCtorEq, false_and, if_false]
      exact couples_throw.mpr ⟨⟨ops', placed', rfl, related'⟩, .inr ⟨lost, rfl, rfl⟩⟩
  · rintro stop stop' t _ ⟨⟨ops', placed', rfl, kept, rfl⟩, same⟩
    exact ⟨⟨ops', placed', rfl, kept ▸ related⟩, same⟩

theorem ignores_crossIfExhausted :
    Ignores φ (crossIfExhausted (.still dir noFault overflowChecks)) := by
  refine ignores_bind_get fun s ops placed related => couples_ite (fun _ => ?_) fun _ => ?_
  · exact ignores_cross s _ ⟨ops, placed, rfl, related⟩
  · exact couples_pure.mpr ⟨rfl, ops, placed, rfl, related⟩

end Ignores

/-! ## Reading -/

section Retraces

variable {dir : Dir} {overflowChecks : Bool}

theorem retraces_fail {α : Type} (e : LogError) : Retraces (fail e : ReadM α) :=
  Agrees.throw fun _ _ alike => ⟨rfl, alike⟩

/-- A program that first looks at its state sees the same but for the trace. -/
theorem retraces_bind_get {α : Type} {f : ReadState → ReadM α}
    (rest : ∀ s ops, Couples (f s) (f { s with ops := ops }) s { s with ops := ops }
      (fun a b s' t' => a = b ∧ Alike s' t') FailAlike) :
    Retraces (get >>= f) := by
  refine Agrees.bind_get ?_
  rintro s _ ⟨ops, rfl⟩
  exact rest s ops

theorem retraces_perform (request : ReadRequest) (id : SegId) :
    Retraces (perform (.still dir noFault overflowChecks) request id) := by
  refine retraces_bind_get fun s ops => ?_
  refine couples_bind (couples_set.mpr ?_)
  exact couples_pure.mpr ⟨rfl, _, rfl⟩

theorem retraces_readExact (segment : Segment) (n : Nat) :
    Retraces (readExact (.still dir noFault overflowChecks) segment n) := by
  refine Agrees.ite (Agrees.pure _) (Agrees.bind (retraces_perform _ _) fun found => ?_)
  cases found with
  | none => exact retraces_fail _
  | some content => exact Agrees.ite (retraces_fail _) (Agrees.pure _)

theorem retraces_seekForward (segment : Segment) (n : Nat) :
    Retraces (seekForward (.still dir noFault overflowChecks) segment n) := by
  refine Agrees.bind (retraces_perform _ _) fun found => ?_
  cases found with
  | none => exact retraces_fail _
  | some content => exact Agrees.pure _

theorem retraces_attempt {α : Type} {x : ReadM α} (retraces : Retraces x) : Retraces (attempt x) := by
  intro s t alike
  refine couples_attempt ((retraces s t alike).imp ?_ ?_)
  · rintro a _ s' t' ⟨rfl, alike'⟩
    exact ⟨rfl, alike'⟩
  · rintro stop _ s' t' ⟨rfl, alike'⟩
    cases stop with
    | error e => exact .inl ⟨e, e, rfl, rfl, rfl, alike'⟩
    | panic => exact .inr ⟨by simp, by simp, rfl, alike'⟩
    | stuck => exact .inr ⟨by simp, by simp, rfl, alike'⟩

theorem retraces_rejectCurrent (lost n : Nat) : Retraces (rejectCurrent lost n) := by
  refine retraces_bind_get fun s ops => ?_
  cases current : s.current with
  | none => exact couples_bind (couples_pure.mpr (couples_throw.mpr ⟨rfl, ops, rfl⟩))
  | some segment => exact couples_bind (couples_set.mpr (couples_throw.mpr ⟨rfl, ops, rfl⟩))

theorem retraces_fillChunk (len : Nat) :
    Retraces (fillChunk (.still dir noFault overflowChecks) len) := by
  refine Agrees.bind ignores_crossIfExhausted.retraces fun _ => retraces_bind_get fun s ops => ?_
  cases current : s.current with
  | none => exact couples_bind (couples_get.mpr (couples_throw.mpr ⟨rfl, ops, rfl⟩))
  | some segment =>
      refine couples_bind ((retraces_readExact segment _ s _ ⟨ops, rfl⟩).imp ?_
        fun _ _ _ _ failed => failed)
      rintro bytes _ t _ ⟨rfl, ops', rfl⟩
      exact couples_bind (couples_modify.mpr (couples_pure.mpr ⟨rfl, ops', rfl⟩))

theorem retraces_repeatPass {pass : Nat → ReadM Nat}
    {progress : ∀ {len}, 0 < len → ∀ s, Meets (pass len) s
      (fun n s' => s'.pending.length + (len - n) < s.pending.length + len) (fun _ _ => True)}
    (retraces : ∀ len, Retraces (pass len)) (len : Nat) : Retraces (repeatPass pass progress len) := by
  intro s t alike
  refine (couples_repeatPass (fun _ => Alike) (fun {len s t} _ alike => ?_) alike).imp
    (fun _ _ _ _ alike' => ⟨rfl, alike'⟩) fun _ _ _ _ failed => failed
  exact retraces len s t alike

theorem retraces_fill (len : Nat) : Retraces (fill (.still dir noFault overflowChecks) len) :=
  retraces_repeatPass retraces_fillChunk len

theorem retraces_examineNext : Retraces (examineNext (.still dir noFault overflowChecks)) := by
  refine retraces_bind_get fun s ops => couples_bind (couples_modify.mpr ?_)
  refine couples_bind ((ignores_openNext.retraces _ _ ⟨ops, rfl⟩).imp ?_ fun _ _ _ _ failed => failed)
  rintro opened _ t _ ⟨rfl, ops', rfl⟩
  refine couples_ite (fun _ => couples_bind (couples_get.mpr ?_)) fun _ => couples_throw.mpr ⟨rfl, ops', rfl⟩
  cases current : t.current with
  | none => exact couples_throw.mpr ⟨rfl, ops', rfl⟩
  | some segment =>
      dsimp only
      split
      · exact couples_pure.mpr ⟨rfl, ops', rfl⟩
      · refine couples_ite (fun _ => ?_) fun _ => ?_
        · exact couples_bind (couples_modify.mpr (couples_pure.mpr ⟨rfl, ops', rfl⟩))
        · refine couples_bind ((retraces_seekForward segment _ t _ ⟨ops', rfl⟩).imp ?_
            fun _ _ _ _ failed => failed)
          rintro moved _ u _ ⟨rfl, ops'', rfl⟩
          exact couples_bind (couples_modify.mpr (couples_pure.mpr ⟨rfl, ops'', rfl⟩))

theorem retraces_findRecordStart : Retraces (findRecordStart (.still dir noFault overflowChecks)) := by
  intro s
  induction size : s.pending.length using Nat.strong_induction_on generalizing s with
  | _ size ih =>
      intro t alike
      rcases (retraces_examineNext s t alike).cases with
        ⟨found, s', _, t', left, right, rfl, alike'⟩ | ⟨stop, s', stop', t', left, right, failed⟩
      · cases found with
        | some start =>
            refine (couples_of_ok (a := start) (b := start) ?_ ?_).mpr ⟨rfl, alike'⟩
            · rw [run_findRecordStart, left]
            · rw [run_findRecordStart, right]
        | none =>
            have less := (examineNext_decreases _ s).of_ok left rfl
            refine (couples_of_run ?_ ?_).mpr (ih _ (size ▸ less) s' rfl t' alike')
            · rw [run_findRecordStart, left]
            · rw [run_findRecordStart, right]
      · have left' : (findRecordStart (.still dir noFault overflowChecks)).run s = .error stop s' := by
          rw [run_findRecordStart, left]
        have right' : (findRecordStart (.still dir noFault overflowChecks)).run t = .error stop' t' := by
          rw [run_findRecordStart, right]
        exact (couples_of_error left' right').mpr failed

theorem retraces_fillBuf (len : Nat) : Retraces (fillBuf (.still dir noFault overflowChecks) len) := by
  refine Agrees.bind (Agrees.modify ?_) fun _ => Agrees.bind (retraces_fill len) fun _ => ?_
  · rintro s _ ⟨ops, rfl⟩
    exact ⟨ops, rfl⟩
  · exact retraces_bind_get fun s ops => couples_pure.mpr ⟨rfl, ops, rfl⟩

theorem retraces_settlePayloadLen (decoded : Nat) : Retraces (settlePayloadLen decoded) := by
  refine retraces_bind_get fun s ops => couples_ite (fun _ => ?_) fun _ => couples_pure.mpr ⟨rfl, ops, rfl⟩
  exact Agrees.bind (retraces_rejectCurrent 0 0) (fun _ => Agrees.pure _) s _ ⟨ops, rfl⟩

theorem retraces_setTotal (total : Nat) : Retraces (setTotal total) := by
  refine Agrees.modify ?_
  rintro s _ ⟨ops, rfl⟩
  exact ⟨ops, rfl⟩

theorem retraces_readDataHeader (format : Format) (minor : Nat) :
    Retraces (readDataHeader (.still dir noFault overflowChecks) format minor) := by
  cases format with
  | fixed n => exact Agrees.bind (retraces_setTotal _) fun _ => Agrees.pure _
  | variableSimple =>
      exact Agrees.bind (retraces_fillBuf _) fun _ => Agrees.bind (retraces_settlePayloadLen _) fun _ =>
        Agrees.bind (retraces_setTotal _) fun _ => Agrees.pure _
  | variableTsRc =>
      exact Agrees.bind (retraces_fillBuf _) fun _ => Agrees.bind (retraces_settlePayloadLen _) fun _ =>
        Agrees.bind (retraces_setTotal _) fun _ => Agrees.pure _

theorem retraces_orLosePosition {α : Type} {x : ReadM α} (retraces : Retraces x) :
    Retraces (orLosePosition x) := by
  refine Agrees.bind (retraces_attempt retraces) fun outcome => ?_
  cases outcome with
  | ok a => exact Agrees.pure _
  | error e =>
      refine Agrees.bind (Agrees.modify ?_) fun _ => retraces_fail e
      rintro s _ ⟨ops, rfl⟩
      exact ⟨ops, rfl⟩

theorem retraces_locate : Retraces (locate (.still dir noFault overflowChecks)) := by
  refine retraces_bind_get fun s ops => couples_ite (fun _ => ?_) fun _ => couples_pure.mpr ⟨rfl, ops, rfl⟩
  refine couples_bind ((retraces_orLosePosition retraces_findRecordStart s _ ⟨ops, rfl⟩).imp ?_
    fun _ _ _ _ failed => failed)
  rintro start _ t _ ⟨rfl, ops', rfl⟩
  refine couples_bind (couples_modify.mpr (couples_bind (couples_get.mpr ?_)))
  refine couples_ite (fun _ => ?_) fun _ => couples_pure.mpr ⟨rfl, ops', rfl⟩
  exact couples_bind (couples_set.mpr (couples_throw.mpr ⟨rfl, ops', rfl⟩))

theorem retraces_header (start : Start) (segment : Segment) :
    Retraces (header (.still dir noFault overflowChecks) start segment) := by
  cases start with
  | recovered n =>
      refine Agrees.bind (Agrees.modify ?_) fun _ => Agrees.pure _
      rintro s _ ⟨ops, rfl⟩
      exact ⟨ops, rfl⟩
  | fresh => exact retraces_orLosePosition (retraces_readDataHeader _ _)

end Retraces

end Tcslog
