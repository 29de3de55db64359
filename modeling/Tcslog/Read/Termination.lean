import Tcslog.Read.Crossing
import Tcslog.Read.Still

/-!
# Reading comes to an end

Whatever bytes the files of a directory hold, reading it ends.  A listed file
is worth its length and a little more, and opening it uses up most of what it
is worth.  Bytes read use up the rest, and the boundary of a session uses up
the session.  Handing a file back restores its worth, but the file it was
crossed into from is gone by then.
-/

namespace Tcslog

open Lib.Program

/-! ## What is left to read -/

/-- What a listed file is worth. -/
def worth (files : SegId → Option Bytes) (id : SegId) : Nat :=
  4 + ((files id).getD []).length

/-- What the files listed and the session are worth. -/
def ahead (files : SegId → Option Bytes) (pending : List SegId) (session : Option SegId) : Nat :=
  (pending.map (worth files)).sum + if session.isSome then 1 else 0

namespace LogRead

variable (files : SegId → Option Bytes) (log : LogRead)

/-- What is left to read. -/
def left : Nat :=
  ahead files log.pending log.session +
    log.current.elim 0 fun segment => 1 + (segment.dataLen - segment.pos)

/-- What would be left if the open file were handed back. -/
def handedBack : Nat :=
  ahead files log.pending log.session + log.current.elim 0 fun segment => worth files segment.id

end LogRead

/-- An open file is usable and of the session being read. -/
def Sound (dir : Dir) (log : LogRead) : Prop :=
  ∀ segment, log.current = some segment → segment.OpenIn (log.files dir) ∧ log.session.isSome

/-- What is left to read got less.  What would be left with the open file
handed back is less than there was at first, unless no other file was crossed
into. -/
structure Moves (dir : Dir) (s s' : ReadState) : Prop where
  files : s'.files dir = s.files dir
  sound : Sound dir s'.toLogRead
  left : s'.left (s'.files dir) < s.left (s.files dir)
  handedBack : s'.handedBack (s'.files dir) < s.left (s.files dir) ∨
    s'.handedBack (s'.files dir) = s.handedBack (s.files dir) ∧
      s'.cursor.impliedPayload = s.cursor.impliedPayload

section Measure

variable {dir : Dir} {files : SegId → Option Bytes}

theorem Moves.trans {s t u : ReadState} (first : Moves dir s t) (second : Moves dir t u) :
    Moves dir s u := by
  have files := second.files.trans first.files
  refine ⟨files, second.sound, second.left.trans first.left, ?_⟩
  rcases second.handedBack with less | ⟨same, implied⟩
  · exact .inl (less.trans first.left)
  · rw [same, implied]
    exact first.handedBack

/-- With no file open nothing is there to hand back. -/
theorem LogRead.handedBack_eq_left {log : LogRead} (closed : log.current = none) :
    log.handedBack files = log.left files := by
  simp [LogRead.handedBack, LogRead.left, closed]

/-- Opening a file takes it off the list. -/
theorem firstUsable_worth {ids rest : List SegId} {segment : Segment}
    (first : firstUsable files ids = some (segment, rest)) :
    worth files segment.id + (rest.map (worth files)).sum ≤ (ids.map (worth files)).sum := by
  obtain ⟨skipped, rfl, _, _⟩ := firstUsable_eq_some first
  simp

theorem Segment.OpenIn.worth_eq {segment : Segment} (isOpen : segment.OpenIn files) :
    worth files segment.id = 57 + segment.dataLen := by
  obtain ⟨content, present, _, length⟩ := isOpen.file
  rw [worth, present, Option.getD_some, length, segmentFileHeaderLen]
  omega

end Measure

/-! ## Crossings -/

section Crossing

variable {dir : Dir}

theorem subU64_wraps {σ : Type} (a b : Nat) :
    ∃ n, (subU64 false a b : EStateM Stop σ Nat) = pure n := by
  by_cases le : b ≤ a
  · exact ⟨_, subU64_of_le le⟩
  · exact ⟨_, by rw [subU64, if_neg le, if_neg Bool.false_ne_true]⟩

theorem addU64_wraps {σ : Type} (a b : Nat) :
    ∃ n, (addU64 false a b : EStateM Stop σ Nat) = pure n := by
  by_cases fits : a + b < 2 ^ 64
  · exact ⟨_, addU64_of_lt fits⟩
  · exact ⟨_, by rw [addU64, if_neg fits, if_neg Bool.false_ne_true]⟩

theorem checkRemaining_noted {header : SegmentHeader} {s : ReadState} :
    Meets (checkRemaining (.still dir noFault false) header) s
      (fun _ s' => ∃ cursor, s' = { s with cursor := cursor }) (fun _ _ => False) := by
  have unchanged : ∃ cursor, s = { s with cursor := cursor } := ⟨s.cursor, rfl⟩
  simp only [checkRemaining, meets_bind, meets_get, meets_ite, meets_pure]
  refine ⟨fun _ => unchanged, fun _ => ?_⟩
  cases s.cursor.total with
  | none =>
      simp only [meets_ite, meets_bind, meets_set, meets_pure]
      exact ⟨fun _ => unchanged, fun _ => ⟨_, rfl⟩⟩
  | some total =>
      obtain ⟨owed, wraps⟩ := subU64_wraps (σ := ReadState) total s.cursor.consumed
      simp only [meets_bind, ReadEnv.still, wraps, meets_pure]
      exact unchanged

theorem checkSequence_unchanged {prevSeq : Option SeqId} {sequence : SeqId} {s : ReadState} :
    Meets (checkSequence (.still dir noFault false) prevSeq sequence) s
      (fun _ s' => s' = s) (fun _ _ => False) := by
  cases prevSeq with
  | none => exact meets_pure.mpr rfl
  | some prev =>
      obtain ⟨expected, wraps⟩ := addU64_wraps (σ := ReadState) prev.toNat 1
      obtain ⟨ahead, wraps'⟩ := subU64_wraps (σ := ReadState) sequence.toNat prev.toNat
      obtain ⟨lost, wraps''⟩ := subU64_wraps (σ := ReadState) ahead 1
      simp only [checkSequence, ReadEnv.still, wraps, wraps', wraps'', meets_bind, meets_pure,
        meets_ite, implies_true, and_self]

theorem noteRecovery_noted {id : SegId} {s : ReadState} :
    Meets (noteRecovery (.still dir noFault false) id) s
      (fun _ s' => ∃ recovery, s' = { s with recovery := recovery }) (fun _ _ => False) := by
  simp only [noteRecovery, meets_bind, meets_get]
  cases s.cursor.total with
  | none => exact meets_pure.mpr ⟨s.recovery, rfl⟩
  | some total =>
      obtain ⟨owed, wraps⟩ := subU64_wraps (σ := ReadState) total s.cursor.consumed
      simp only [ReadEnv.still, wraps, meets_bind, meets_pure, meets_set]
      exact ⟨_, rfl⟩

/-- A file that was opened by a crossing and is denied is handed back. -/
theorem checkCrossing_still {prevShort : Bool} {prevSeq : Option SeqId} {segment opened : Segment}
    {s : ReadState} (current : s.current = some opened) :
    Meets (checkCrossing (.still dir noFault false) prevShort prevSeq segment) s
      (fun _ s' => ∃ cursor, s' = { s with cursor := cursor })
      (fun stop s' => ∃ lost n, stop = .error (.readTruncated lost n) ∧ ∃ cursor recovery,
        s' = { s with
          cursor := cursor, recovery := recovery, pending := opened.id :: s.pending, current := none
          reopened := some opened.id }) := by
  simp only [checkCrossing, meets_bind]
  refine checkRemaining_noted.imp ?_ fun _ _ impossible => impossible.elim
  rintro denied _ ⟨cursor, rfl⟩
  refine checkSequence_unchanged.imp ?_ fun _ _ impossible => impossible.elim
  rintro ⟨outOfOrder, lost⟩ _ rfl
  simp only [meets_ite, meets_bind, meets_get, meets_pure]
  refine ⟨fun _ => ⟨fun _ => ?_, fun _ => ?_⟩, fun _ => ⟨_, rfl⟩⟩
  · refine noteRecovery_noted.imp ?_ fun _ _ impossible => impossible.elim
    rintro _ _ ⟨recovery, rfl⟩
    refine Meets.imp (Scene.rejectCurrent_spec _ _ current) (fun _ _ impossible => impossible.elim) ?_
    rintro stop s' ⟨rfl, rfl⟩
    exact ⟨_, _, rfl, _, _, rfl⟩
  · refine Meets.imp (Scene.rejectCurrent_spec _ _ current) (fun _ _ impossible => impossible.elim) ?_
    rintro stop s' ⟨rfl, rfl⟩
    exact ⟨_, _, rfl, _, _, rfl⟩

/-- A file is opened: it is off the list, and its session is being read. -/
structure FileOpened (dir : Dir) (s s' : ReadState) (segment : Segment) : Prop where
  files : s'.files dir = s.files dir
  current : s'.current = some segment
  isOpen : segment.OpenIn (s.files dir)
  start : segment.pos = 0
  session : s'.session.isSome
  ahead : ahead (s.files dir) s'.pending s'.session + worth (s.files dir) segment.id ≤
    ahead (s.files dir) s.pending s.session + if s.session.isSome then 0 else 1
  cursor : s'.cursor = s.cursor

theorem Opening.isOpened {s s' : ReadState} (opening : Opening dir s (.ok true) s') :
    ∃ segment, FileOpened dir s s' segment := by
  cases opening with
  | @opened _ segment rest first continues result =>
      have usable := (firstUsable_eq_some first).choose_spec.2.2
      have files : s'.files dir = s.files dir := by
        rw [result]
        simp [LogRead.files]
      have start := (Segment.ofFile_eq_some usable).choose_spec.2.2.2.2.1
      refine ⟨segment, files, by rw [result]; simp, Segment.openIn_ofFile usable, start,
        by rw [result]; simp, ?_, by rw [result]⟩
      have off := firstUsable_worth first
      rw [result]
      simp only [ahead, LogRead.adopt_pending, LogRead.adopt_session, Option.isSome_some,
        if_true]
      split <;> omega

theorem FileOpened.sound {s s' : ReadState} {segment : Segment} (opened : FileOpened dir s s' segment) :
    Sound dir s'.toLogRead := by
  intro segment' current
  obtain rfl := Option.some.inj (opened.current.symm.trans current)
  exact ⟨opened.files ▸ opened.isOpen, opened.session⟩

/-- What is left with no file open. -/
theorem LogRead.left_of_closed {files : SegId → Option Bytes} {log : LogRead}
    (closed : log.current = none) : log.left files = ahead files log.pending log.session := by
  simp [left, closed]

theorem LogRead.left_of_open {files : SegId → Option Bytes} {log : LogRead} {segment : Segment}
    (current : log.current = some segment) :
    log.left files = ahead files log.pending log.session + (1 + (segment.dataLen - segment.pos)) := by
  simp [left, current]

theorem LogRead.handedBack_of_open {files : SegId → Option Bytes} {log : LogRead} {segment : Segment}
    (current : log.current = some segment) :
    log.handedBack files = ahead files log.pending log.session + worth files segment.id := by
  simp [handedBack, current]

/-- A reader left without a file has moved if less is left. -/
theorem Moves.of_closed {s s' : ReadState} (files : s'.files dir = s.files dir)
    (closed : s'.current = none) (less : ahead (s.files dir) s'.pending s'.session < s.left (s.files dir)) :
    Moves dir s s' := by
  have left : s'.left (s'.files dir) < s.left (s.files dir) := by
    rwa [files, LogRead.left_of_closed closed]
  refine ⟨files, fun segment current => ?_, left, .inl ?_⟩
  · rw [closed] at current
    contradiction
  · rwa [LogRead.handedBack_eq_left closed]

/-- A crossing moves the reader, whether it is allowed or not. -/
theorem cross_moves {s : ReadState} {segment : Segment} (sound : Sound dir s.toLogRead)
    (current : s.current = some segment) :
    Meets (cross (.still dir noFault false)) s
      (fun _ s' => Moves dir s s' ∧ s'.current.isSome)
      (fun stop s' => Moves dir s s' ∧ ∃ e, stop = .error e ∧ e ≠ .eof) := by
  have session := (sound segment current).2
  have before : s.left (s.files dir) = ahead (s.files dir) s.pending s.session +
      (1 + (segment.dataLen - segment.pos)) := LogRead.left_of_open current
  simp only [cross, meets_bind, meets_get, meets_set, meets_attempt]
  refine (openNext_still _).imp ?_ ?_
  · intro opened t opening
    cases opened with
    | false =>
        cases opening with
        | ended none result =>
            refine ⟨.of_closed (by rw [result]; rfl) (by rw [result]) ?_, _, rfl, by simp⟩
            rw [result, before]
            simp only [ahead, List.map_nil, List.sum_nil]
            omega
    | true =>
        obtain ⟨found, opened⟩ := opening.isOpened
        have files : t.files dir = s.files dir := opened.files
        have isOpen : found.OpenIn (s.files dir) := opened.isOpen
        have worthEq := isOpen.worth_eq
        have off : ahead (s.files dir) t.pending t.session + worth (s.files dir) found.id ≤
            ahead (s.files dir) s.pending s.session + if s.session.isSome then 0 else 1 := opened.ahead
        rw [if_pos session] at off
        simp only [meets_bind, meets_get, opened.current]
        refine (checkCrossing_still opened.current).imp ?_ ?_
        · rintro _ _ ⟨cursor, rfl⟩
          refine ⟨⟨files, opened.sound, ?_, .inl ?_⟩, by simp [opened.current]⟩
          · change t.left (t.files dir) < _
            rw [files, LogRead.left_of_open opened.current, before]
            omega
          · change t.handedBack (t.files dir) < _
            rw [files, LogRead.handedBack_of_open opened.current, before]
            omega
        · rintro stop u ⟨lost, n, rfl, cursor, recovery, rfl⟩
          refine ⟨.of_closed files rfl ?_, _, rfl, by simp⟩
          rw [before]
          simp only [ahead, List.map_cons, List.sum_cons] at off ⊢
          omega
  · rintro stop t ⟨e, rfl, opening⟩
    cases opening with
    | @boundary _ found rest sid first at_ differs result =>
        have off : worth (s.files dir) found.id + (rest.map (worth (s.files dir))).sum ≤
          (s.pending.map (worth (s.files dir))).sum := firstUsable_worth first
        simp only [meets_ite, meets_bind, meets_modify, meets_fail]
        refine ⟨fun _ => ⟨.of_closed (by rw [result]; rfl) (by rw [result]) ?_, _, rfl, by simp⟩,
          fun _ => ⟨.of_closed (by rw [result]; rfl) (by rw [result]) ?_, _, rfl, by simp⟩⟩ <;>
        · rw [result, before]
          simp only [ahead, List.map_cons, List.sum_cons, Option.isSome_none, Bool.false_eq_true,
            if_false]
          omega

theorem crossIfExhausted_moves {s : ReadState} {segment : Segment} (sound : Sound dir s.toLogRead)
    (current : s.current = some segment) :
    Meets (crossIfExhausted (.still dir noFault false)) s
      (fun _ s' => s'.current.isSome ∧
        (Moves dir s s' ∨ s' = s ∧ segment.pos < segment.dataLen))
      (fun stop s' => Moves dir s s' ∧ ∃ e, stop = .error e ∧ e ≠ .eof) := by
  simp only [crossIfExhausted, meets_bind, meets_get, meets_ite, meets_pure]
  refine ⟨fun _ => (cross_moves sound current).imp (fun _ _ moved => ⟨moved.2, .inl moved.1⟩)
    fun _ _ failed => failed, fun more => ⟨by simp [current], .inr ⟨trivial, ?_⟩⟩⟩
  simpa [LogRead.exhausted, current] using more

/-- The read position moves on within the open file, after a crossing or without
one. -/
theorem Moves.advance {s t s' : ReadState} {segment : Segment} {n : Nat}
    (crossed : Moves dir s t ∨ t = s ∧ 0 < n) (sound : Sound dir t.toLogRead)
    (current : t.current = some segment) (within : segment.pos + n ≤ segment.dataLen)
    (same : s'.toLogRead = { t.toLogRead with
      current := some { segment with pos := segment.pos + n, offset := segment.offset + n } })
    (implied : s'.cursor.impliedPayload = t.cursor.impliedPayload) : Moves dir s s' := by
  obtain ⟨isOpen, session⟩ := sound segment current
  have current' := congrArg LogRead.current same
  have files : s'.files dir = t.files dir := by
    rw [same]
    rfl
  have sound' : Sound dir s'.toLogRead := by
    intro segment' at_
    obtain rfl := Option.some.inj (current'.symm.trans at_)
    refine ⟨⟨files ▸ isOpen.file, within, ?_⟩, by rw [same]; exact session⟩
    rw [isOpen.offset]
    dsimp only
    omega
  have left : s'.left (s'.files dir) + n = t.left (t.files dir) := by
    rw [files, LogRead.left_of_open current', LogRead.left_of_open current, same]
    dsimp only
    omega
  have handed : s'.handedBack (s'.files dir) = t.handedBack (t.files dir) := by
    rw [files, LogRead.handedBack_of_open current', LogRead.handedBack_of_open current, same]
  rcases crossed with moves | ⟨rfl, moved⟩
  · have less := moves.left
    exact ⟨files.trans moves.files, sound', by omega, by rw [handed, implied]; exact moves.handedBack⟩
  · exact ⟨files, sound', by omega, .inr ⟨handed, implied⟩⟩

/-- A pass of a loop over the files of a record, once it stands in a file with
data. -/
theorem crossIfExhausted_then {s : ReadState} {len : Nat} {α : Type} {rest : PUnit → ReadM α}
    (positive : 0 < len) (sound : Sound dir s.toLogRead) (isOpen : s.current.isSome)
    (step : ∀ t segment, t.current = some segment → segment.OpenIn (t.files dir) →
      Meets (rest ⟨⟩) t (fun _ s' => s'.toLogRead = { t.toLogRead with
          current := some { segment with
            pos := segment.pos + min (segment.dataLen - segment.pos) len
            offset := segment.offset + min (segment.dataLen - segment.pos) len } } ∧
          s'.cursor.impliedPayload = t.cursor.impliedPayload) (fun _ _ => False)) :
    Meets (crossIfExhausted (.still dir noFault false) >>= rest) s
      (fun _ s' => Moves dir s s' ∧ s'.current.isSome)
      (fun stop s' => Moves dir s s' ∧ ∃ e, stop = .error e ∧ e ≠ .eof) := by
  obtain ⟨segment, current⟩ := Option.isSome_iff_exists.mp isOpen
  rw [meets_bind]
  refine (crossIfExhausted_moves sound current).imp ?_ fun _ _ failed => failed
  rintro _ t ⟨isOpen', crossed⟩
  obtain ⟨segment', current'⟩ := Option.isSome_iff_exists.mp isOpen'
  have sound' : Sound dir t.toLogRead := by
    rcases crossed with moves | ⟨rfl, _⟩
    · exact moves.sound
    · exact sound
  have open' := (sound' segment' current').1
  have posLe := open'.posLe
  refine (step t segment' current' open').imp ?_ fun _ _ impossible => impossible.elim
  rintro _ s' ⟨same, implied⟩
  refine ⟨Moves.advance (crossed.imp_right ?_) sound' current' (by omega) same implied,
    by rw [same]; rfl⟩
  rintro ⟨rfl, more⟩
  obtain rfl := Option.some.inj (current.symm.trans current')
  exact ⟨rfl, by omega⟩

theorem fillChunk_moves {len : Nat} {s : ReadState} (positive : 0 < len)
    (sound : Sound dir s.toLogRead) (isOpen : s.current.isSome) :
    Meets (fillChunk (.still dir noFault false) len) s
      (fun _ s' => Moves dir s s' ∧ s'.current.isSome)
      (fun stop s' => Moves dir s s' ∧ ∃ e, stop = .error e ∧ e ≠ .eof) := by
  refine crossIfExhausted_then positive sound isOpen fun t segment current isOpen => ?_
  have posLe := isOpen.posLe
  simp only [meets_bind, meets_get, current, meets_modify, meets_pure]
  refine (readExact_still isOpen (by omega)).imp ?_ fun _ _ impossible => impossible.elim
  rintro bytes u ⟨asked, _⟩
  rw [asked.same]
  exact ⟨rfl, rfl⟩

theorem skipChunk_moves {count : Nat} {s : ReadState} (positive : 0 < count)
    (sound : Sound dir s.toLogRead) (isOpen : s.current.isSome) :
    Meets (skipChunk (.still dir noFault false) count) s
      (fun _ s' => Moves dir s s' ∧ s'.current.isSome)
      (fun stop s' => Moves dir s s' ∧ ∃ e, stop = .error e ∧ e ≠ .eof) := by
  refine crossIfExhausted_then positive sound isOpen fun t segment current isOpen => ?_
  simp only [meets_bind, meets_get, current, meets_modify, meets_pure]
  refine (seekForward_still isOpen (by omega)).imp ?_ fun _ _ impossible => impossible.elim
  rintro moved u ⟨asked, rfl⟩
  rw [asked.same]
  exact ⟨rfl, rfl⟩

end Crossing

/-! ## One call -/

section Call

variable {dir : Dir}

/-- At least `n` less is left to read. -/
structure Spends (dir : Dir) (n : Nat) (s s' : ReadState) : Prop where
  files : s'.files dir = s.files dir
  sound : Sound dir s'.toLogRead
  left : s'.left (s'.files dir) + n ≤ s.left (s.files dir)

theorem Spends.trans {s t u : ReadState} {m n : Nat} (first : Spends dir m s t)
    (second : Spends dir n t u) : Spends dir (m + n) s u := by
  have := first.left
  have := second.left
  exact ⟨second.files.trans first.files, second.sound, by omega⟩

theorem Moves.spends {s s' : ReadState} (moves : Moves dir s s') : Spends dir 1 s s' :=
  ⟨moves.files, moves.sound, moves.left⟩

theorem Spends.of_closed {s s' : ReadState} {n : Nat} (files : s'.files dir = s.files dir)
    (closed : s'.current = none)
    (left : ahead (s.files dir) s'.pending s'.session + n ≤ s.left (s.files dir)) :
    Spends dir n s s' := by
  refine ⟨files, fun segment current => ?_, ?_⟩
  · rw [closed] at current
    contradiction
  · rwa [files, LogRead.left_of_closed closed]

theorem Spends.of_open {s s' : ReadState} {n : Nat} {segment : Segment}
    (files : s'.files dir = s.files dir) (current : s'.current = some segment)
    (isOpen : segment.OpenIn (s.files dir)) (session : s'.session.isSome)
    (left : ahead (s.files dir) s'.pending s'.session + (1 + (segment.dataLen - segment.pos)) + n ≤
      s.left (s.files dir)) : Spends dir n s s' := by
  refine ⟨files, fun segment' at_ => ?_, ?_⟩
  · obtain rfl := Option.some.inj (current.symm.trans at_)
    exact ⟨files ▸ isOpen, session⟩
  · rwa [files, LogRead.left_of_open current]

theorem LogRead.ahead_le_left (files : SegId → Option Bytes) (log : LogRead) :
    ahead files log.pending log.session ≤ log.left files :=
  Nat.le_add_right _ _

theorem Spends.losePosition {s t : ReadState} {n : Nat} (spends : Spends dir n s t) :
    Spends dir n s t.losePosition := by
  have := LogRead.ahead_le_left (s.files dir) t.toLogRead
  have := spends.left
  rw [spends.files] at this
  exact .of_closed spends.files rfl (by dsimp only [ReadState.losePosition]; omega)

/-- A loop over the files of a record moves the reader if there is anything to
do. -/
theorem repeatPass_moves {pass : Nat → ReadM Nat}
    {progress : ∀ {len}, 0 < len → ∀ s, Meets (pass len) s
      (fun n s' => s'.pending.length + (len - n) < s.pending.length + len) (fun _ _ => True)}
    (step : ∀ {len s}, 0 < len → Sound dir s.toLogRead → s.current.isSome →
      Meets (pass len) s (fun _ s' => Moves dir s s' ∧ s'.current.isSome)
        (fun stop s' => Moves dir s s' ∧ ∃ e, stop = .error e ∧ e ≠ .eof))
    (n : Nat) {s : ReadState} (sound : Sound dir s.toLogRead) (isOpen : s.current.isSome) :
    Meets (repeatPass pass progress n) s
      (fun _ s' => s'.current.isSome ∧ (Moves dir s s' ∨ n = 0 ∧ s' = s))
      (fun stop s' => Moves dir s s' ∧ ∃ e, stop = .error e ∧ e ≠ .eof) := by
  refine (meets_repeatPass (fun len t => Sound dir t.toLogRead ∧ t.current.isSome ∧
    (Moves dir s t ∨ len = n ∧ t = s)) ?_ ⟨sound, isOpen, .inr ⟨rfl, rfl⟩⟩).imp ?_ fun _ _ failed => failed
  · rintro len t positive ⟨sound', isOpen', before⟩
    have moves {u : ReadState} (after : Moves dir t u) : Moves dir s u := by
      rcases before with moved | ⟨_, rfl⟩
      · exact moved.trans after
      · exact after
    refine (step positive sound' isOpen').imp ?_ ?_
    · rintro _ u ⟨moved, isOpen''⟩
      exact ⟨moved.sound, isOpen'', .inl (moves moved)⟩
    · rintro stop u ⟨moved, e, rfl, notEof⟩
      exact ⟨moves moved, e, rfl, notEof⟩
  · rintro _ t ⟨_, isOpen', moved | ⟨none, same⟩⟩
    · exact ⟨isOpen', .inl moved⟩
    · exact ⟨isOpen', .inr ⟨none.symm, same⟩⟩

/-- What filling a destination does, but for the destination. -/
theorem fillBuf_moves (len : Nat) {s : ReadState} (sound : Sound dir s.toLogRead)
    (isOpen : s.current.isSome) :
    Meets (fillBuf (.still dir noFault false) len) s
      (fun _ s' => s'.current.isSome ∧ (Moves dir s s' ∨ len = 0 ∧ s'.toLogRead = s.toLogRead))
      (fun stop s' => Moves dir s s' ∧ ∃ e, stop = .error e ∧ e ≠ .eof) := by
  simp only [fillBuf, fill, meets_bind, meets_modify, meets_get, meets_pure]
  have toStart {s' : ReadState} (moves : Moves dir { s with dst := [] } s') : Moves dir s s' :=
    ⟨moves.files, moves.sound, moves.left, moves.handedBack⟩
  refine (repeatPass_moves fillChunk_moves len (s := { s with dst := [] }) sound isOpen).imp ?_ ?_
  · rintro _ s' ⟨isOpen', moves | ⟨none, rfl⟩⟩
    · exact ⟨isOpen', .inl (toStart moves)⟩
    · exact ⟨isOpen', .inr ⟨none, rfl⟩⟩
  · rintro stop s' ⟨moves, e, rfl, notEof⟩
    exact ⟨toStart moves, e, rfl, notEof⟩

/-- A file is handed back after decoding a header only if it was crossed into
within the header. -/
theorem settlePayloadLen_moves (decoded : Nat) {s t : ReadState} (moves : Moves dir s t)
    (fresh : s.cursor.impliedPayload = none) (isOpen : t.current.isSome) :
    Meets (settlePayloadLen decoded) t (fun _ s' => s' = t)
      (fun stop s' => Moves dir s s' ∧ ∃ e, stop = .error e ∧ e ≠ .eof) := by
  obtain ⟨segment, current⟩ := Option.isSome_iff_exists.mp isOpen
  simp only [settlePayloadLen, meets_bind, meets_get, meets_ite, meets_pure, implies_true, and_true]
  intro differs
  refine (Scene.rejectCurrent_spec 0 0 current).imp (fun _ _ impossible => impossible.elim) ?_
  rintro stop u ⟨rfl, rfl⟩
  refine ⟨.of_closed moves.files rfl ?_, _, rfl, by simp⟩
  rcases moves.handedBack with less | ⟨_, implied⟩
  · rw [LogRead.handedBack_of_open current, moves.files] at less
    simp only [ahead, List.map_cons, List.sum_cons] at less ⊢
    omega
  · rw [implied, fresh] at differs
    contradiction

theorem Moves.setTotal {s t : ReadState} (moves : Moves dir s t) (total : Nat) :
    Moves dir s { t with cursor := { t.cursor with total := some total } } :=
  ⟨moves.files, moves.sound, moves.left, moves.handedBack⟩

theorem readDataHeader_moves {format : Format} (minor : Nat) {s : ReadState}
    (sound : Sound dir s.toLogRead) (isOpen : s.current.isSome)
    (fresh : s.cursor.impliedPayload = none) (room : ∀ n, format = .fixed n → 0 < n.toNat) :
    Meets (readDataHeader (.still dir noFault false) format minor) s
      (fun decoded s' => s'.current.isSome ∧
        (Moves dir s s' ∨ 0 < decoded.1 ∧ s'.toLogRead = s.toLogRead))
      (fun stop s' => Moves dir s s' ∧ ∃ e, stop = .error e ∧ e ≠ .eof) := by
  have moved {len : Nat} (positive : 0 < len) {t : ReadState}
      (filled : Moves dir s t ∨ len = 0 ∧ t.toLogRead = s.toLogRead) : Moves dir s t :=
    filled.resolve_right fun none => positive.ne' none.1
  cases format with
  | fixed n =>
      simp only [readDataHeader, Tcslog.setTotal, meets_bind, meets_modify, meets_pure]
      exact ⟨isOpen, .inr ⟨room n rfl, trivial⟩⟩
  | variableSimple =>
      simp only [readDataHeader, Tcslog.setTotal, meets_bind, meets_modify, meets_pure]
      refine (fillBuf_moves 4 sound isOpen).imp ?_ fun _ _ failed => failed
      rintro head t ⟨isOpen', filled⟩
      have moves := moved (by decide) filled
      refine (settlePayloadLen_moves _ moves fresh isOpen').imp ?_ fun _ _ failed => failed
      rintro n _ rfl
      exact ⟨isOpen', .inl (moves.setTotal _)⟩
  | variableTsRc =>
      simp only [readDataHeader, Tcslog.setTotal, meets_bind, meets_modify, meets_pure]
      refine (fillBuf_moves _ sound isOpen).imp ?_ fun _ _ failed => failed
      rintro head t ⟨isOpen', filled⟩
      have moves := moved (Format.dataHeaderLenIn_variableTsRc_pos minor) filled
      refine (settlePayloadLen_moves _ moves fresh isOpen').imp ?_ fun _ _ failed => failed
      rintro n _ rfl
      exact ⟨isOpen', .inl (moves.setTotal _)⟩

/-- A record with a payload moves the reader, whatever the buffer takes of it. -/
theorem payload_spends (cap want : Nat) (metadata : Meta) {s : ReadState}
    (sound : Sound dir s.toLogRead) (isOpen : s.current.isSome) :
    Meets (payload (.still dir noFault false) cap want metadata) s
      (fun _ s' => Spends dir (min want 1) s s')
      (fun stop s' => Spends dir (min want 1) s s' ∧ ∃ e, stop = .error e ∧ e ≠ .eof) := by
  have toStart {n : Nat} {cursor : Cursor} {s' : ReadState}
      (spends : Spends dir n { s with lastMeta := metadata, cursor := cursor } s') :
      Spends dir n s s' := ⟨spends.files, spends.sound, spends.left⟩
  have some {n : Nat} (positive : 0 < n) {t u : ReadState} (spends : Spends dir n t u) :
      Spends dir (min want 1) t u := by
    have := spends.left
    exact ⟨spends.files, spends.sound, by omega⟩
  simp only [payload, meets_bind, meets_modify, meets_orLosePosition]
  refine (fillBuf_moves (min want cap) (s := { s with
    lastMeta := metadata, cursor := { s.cursor with inPayload := true } }) sound isOpen).imp ?_ ?_
  · rintro _ t ⟨isOpen', filled⟩
    have before : Spends dir (min (min want cap) 1) s t := by
      rcases filled with moves | ⟨none, same⟩
      · have := moves.left
        exact toStart ⟨moves.files, moves.sound, by omega⟩
      · refine toStart ⟨by rw [same], by rw [same]; exact sound, ?_⟩
        rw [same, none]
        rfl
    simp only [meets_ite, meets_bind, meets_attempt, meets_pure]
    refine ⟨fun long => ?_, fun whole => ?_⟩
    · have rest : 0 < want - cap := by omega
      refine Meets.imp (repeatPass_moves skipChunk_moves (want - cap) before.sound isOpen') ?_ ?_
      · rintro _ u ⟨_, moves | ⟨none, _⟩⟩
        · exact ⟨some (Nat.succ_pos _) (before.trans moves.spends), _, rfl, by simp⟩
        · exact absurd none rest.ne'
      · rintro stop u ⟨moves, e, rfl, _⟩
        exact ⟨some (Nat.succ_pos _) (before.trans moves.spends.losePosition), _, rfl, by simp⟩
    · rwa [Nat.min_eq_left (Nat.le_of_not_lt whole)] at before
  · rintro stop t ⟨moves, e, rfl, notEof⟩
    exact ⟨toStart (some Nat.one_pos moves.spends.losePosition), e, rfl, notEof⟩

/-- How a search for a record boundary ends without one: nothing is left, or
less than before. -/
def Unlocated (dir : Dir) (s : ReadState) (stop : Stop) (s' : ReadState) : Prop :=
  stop = .error .eof ∧ s'.pending = [] ∨
    (∃ e, stop = .error e ∧ e ≠ .eof) ∧ Spends dir 1 s s'.losePosition

theorem examineNext_spends (s : ReadState) :
    Meets (examineNext (.still dir noFault false)) s
      (fun start s' => Spends dir 1 s s' ∧ s'.cursor = s.cursor ∧ (start.isSome → s'.current.isSome))
      (fun stop s' => Unlocated dir s stop s') := by
  simp only [examineNext, meets_bind, meets_get, meets_modify, meets_ite]
  refine (openNext_still _).imp ?_ ?_
  · intro found t opening
    refine ⟨fun isOpen => ?_, fun notOpen => ?_⟩
    · subst isOpen
      obtain ⟨segment, opened⟩ := opening.isOpened
      have files : t.files dir = s.files dir := opened.files
      have isOpen : segment.OpenIn (s.files dir) := opened.isOpen
      have off : ahead (s.files dir) t.pending t.session + worth (s.files dir) segment.id ≤
        ahead (s.files dir) s.pending s.session + if s.session.isSome then 0 else 1 := opened.ahead
      have least := LogRead.ahead_le_left (s.files dir) s.toLogRead
      have worthEq := isOpen.worth_eq
      have enough : ahead (s.files dir) t.pending t.session + 57 + segment.dataLen ≤
          s.left (s.files dir) + 1 := by
        split at off <;> omega
      have start := opened.start
      simp only [opened.current]
      split
      · exact ⟨.of_open files opened.current isOpen opened.session (by omega), opened.cursor,
          fun _ => by simp [opened.current]⟩
      · simp only [meets_ite, meets_bind, meets_modify, meets_pure]
        refine ⟨fun _ => ⟨.of_closed files rfl (by dsimp only; omega), opened.cursor, by simp⟩,
          fun offers => ?_⟩
        refine (seekForward_still (files ▸ isOpen) (by omega)).imp ?_ fun _ _ impossible => impossible.elim
        rintro moved u ⟨asked, rfl⟩
        rw [asked.same]
        refine ⟨.of_open files rfl ⟨isOpen.file, ?_, ?_⟩ opened.session ?_, opened.cursor, fun _ => rfl⟩
        · dsimp only
          omega
        · rw [isOpen.offset, start]
          rfl
        · dsimp only
          omega
    · obtain rfl : found = false := by simpa using notOpen
      cases opening with
      | ended none result => exact .inl ⟨rfl, by rw [result]⟩
  · rintro stop t ⟨e, rfl, opening⟩
    cases opening with
    | @boundary _ found rest sid first at_ differs result =>
        have off : worth (s.files dir) found.id + (rest.map (worth (s.files dir))).sum ≤
          (s.pending.map (worth (s.files dir))).sum := firstUsable_worth first
        have at' : s.session = some sid := at_
        have least := LogRead.ahead_le_left (s.files dir) s.toLogRead
        refine .inr ⟨⟨_, rfl, by simp⟩, .of_closed (by rw [result]; rfl) rfl ?_⟩
        rw [result]
        simp only [ReadState.losePosition, ahead, List.map_cons, List.sum_cons, at', Option.isSome_some,
          Option.isSome_none,
          Bool.false_eq_true, if_true, if_false] at least ⊢
        omega

theorem findRecordStart_spends (s : ReadState) (sound : Sound dir s.toLogRead) :
    Meets (findRecordStart (.still dir noFault false)) s
      (fun _ s' => Spends dir 1 s s' ∧ s'.cursor = s.cursor ∧ s'.current.isSome)
      (fun stop s' => Unlocated dir s stop s') := by
  refine meets_findRecordStart _ (fun t => Spends dir 0 s t ∧ t.cursor = s.cursor) ?_
    ⟨⟨rfl, sound, Nat.le_refl _⟩, rfl⟩
  rintro t ⟨before, cursor⟩
  have after {u : ReadState} (spends : Spends dir 1 t u) : Spends dir 1 s u := before.trans spends
  refine (examineNext_spends t).imp ?_ ?_
  · rintro found u ⟨spends, cursor', isOpen⟩
    refine ⟨fun start is => ⟨after spends, cursor'.trans cursor, isOpen (by simp [is])⟩,
      fun _ => ⟨⟨(after spends).files, spends.sound, ?_⟩, cursor'.trans cursor⟩⟩
    have := (after spends).left
    omega
  · rintro stop u (ended | ⟨notEof, spends⟩)
    · exact .inl ended
    · exact .inr ⟨notEof, after spends⟩

/-- Nothing is listed and no file is open. -/
structure Drained (s : ReadState) : Prop where
  pending : s.pending = []
  closed : s.current = none

/-- How a call ends without a record. -/
def Ends (dir : Dir) (s : ReadState) (stop : Stop) (s' : ReadState) : Prop :=
  stop = .error .eof ∧ Drained s' ∨ (∃ e, stop = .error e ∧ e ≠ .eof) ∧ Spends dir 1 s s'

theorem Spends.mono {s s' : ReadState} {m n : Nat} (spends : Spends dir m s s') (less : n ≤ m) :
    Spends dir n s s' := by
  have := spends.left
  exact ⟨spends.files, spends.sound, by omega⟩

/-- Reading the record the reader stands at uses something up, unless finding
it did. -/
theorem record_spends (cap : Nat) {s t : ReadState} {start : Start} {segment : Segment}
    (spent : Spends dir 1 s t ∨ start = .fresh ∧ Spends dir 0 s t) (cursor : t.cursor = {})
    (current : t.current = some segment) :
    Meets (header (.still dir noFault false) start segment >>= fun decoded =>
        payload (.still dir noFault false) cap decoded.1 decoded.2) t
      (fun _ s' => Spends dir 1 s s') (fun stop s' => Ends dir s stop s') := by
  have isOpen : t.current.isSome := by simp [current]
  have transfer {want : Nat} {metadata : Meta} {n : Nat} {u : ReadState} (spends : Spends dir n s u)
      (isOpen : u.current.isSome) (enough : 1 ≤ n + min want 1) :
      Meets (payload (.still dir noFault false) cap want metadata) u
        (fun _ s' => Spends dir 1 s s') (fun stop s' => Ends dir s stop s') := by
    refine (payload_spends cap want metadata spends.sound isOpen).imp ?_ ?_
    · exact fun _ _ more => (spends.trans more).mono enough
    · exact fun _ _ failed => .inr ⟨failed.2, (spends.trans failed.1).mono enough⟩
  rw [meets_bind]
  cases start with
  | recovered n =>
      have spent' := spent.resolve_right (by simp)
      simp only [header, meets_bind, meets_modify, meets_pure]
      exact transfer ⟨spent'.files, spent'.sound, spent'.left⟩ isOpen (Nat.le_add_right _ _)
  | fresh =>
      have before : Spends dir 0 s t := by
        rcases spent with spent | ⟨_, spent⟩
        · exact spent.mono (Nat.zero_le _)
        · exact spent
      have room (n : RecSize) (fixed : segment.header.format = .fixed n) : 0 < n.toNat :=
        (before.sound segment current).1.fixed_pos fixed
      simp only [header, meets_orLosePosition]
      refine (readDataHeader_moves segment.header.versionMinor before.sound isOpen (by rw [cursor])
        room).imp ?_ ?_
      · rintro ⟨want, metadata⟩ u ⟨isOpen', moves | ⟨some, same⟩⟩
        · exact transfer (before.trans moves.spends) isOpen' (Nat.le_add_right _ _)
        · refine transfer (n := 0) ⟨?_, ?_, ?_⟩ isOpen' ?_
          · rw [same, before.files]
          · rw [same]
            exact before.sound
          · rw [same]
            exact before.left
          · dsimp only at some
            omega
      · rintro stop u ⟨moves, e, rfl, notEof⟩
        exact .inr ⟨⟨e, rfl, notEof⟩, before.trans moves.spends.losePosition⟩

/-- Every call but one that reports the end of the log leaves less to read. -/
theorem read_spends (cap : Nat) {s : ReadState} (sound : Sound dir s.toLogRead) :
    Meets (read (.still dir noFault false) cap) s (fun _ s' => Spends dir 1 s s')
      (fun stop s' => Ends dir s stop s') := by
  simp only [read, meets_bind, meets_get, meets_ite, meets_set, meets_fail]
  refine ⟨fun ended => .inl ⟨rfl, ended.1, rfl⟩, fun _ => ?_⟩
  have start : Spends dir 0 s { s with
      resync := s.resync || s.current.isNone, cursor := {}, dst := [] } :=
    ⟨rfl, sound, Nat.le_refl _⟩
  simp only [locate, meets_bind, meets_get, meets_ite, meets_orLosePosition, meets_modify, meets_set,
    meets_fail, meets_pure]
  refine ⟨fun _ => ?_, fun synced => ?_⟩
  · refine (findRecordStart_spends _ start.sound).imp ?_ ?_
    · rintro found t ⟨spends, cursor, isOpen⟩
      obtain ⟨segment, current⟩ := Option.isSome_iff_exists.mp isOpen
      have spent : Spends dir 1 s t := start.trans spends
      refine ⟨fun _ => .inr ⟨⟨_, rfl, by simp⟩, spent.files, spent.sound, spent.left⟩, fun _ => ?_⟩
      simp only [current]
      rw [← current]
      exact record_spends cap (.inl ⟨spent.files, spent.sound, spent.left⟩) cursor current
    · rintro stop t (⟨rfl, none⟩ | ⟨⟨e, rfl, notEof⟩, spends⟩)
      · exact .inl ⟨rfl, none, rfl⟩
      · exact .inr ⟨⟨e, rfl, notEof⟩, start.trans spends⟩
  · have isOpen : s.current.isSome := by
      cases current : s.current with
      | none => simp [current] at synced
      | some _ => rfl
    obtain ⟨segment, current⟩ := Option.isSome_iff_exists.mp isOpen
    simp only [current]
    rw [← current]
    exact record_spends cap (.inr ⟨rfl, start⟩) rfl current

end Call

/-! ## Runs of calls -/

section Runs

variable {dir : Dir}

theorem readCall_drained (env : ReadEnv) (cap : Nat) {s : ReadState} (drained : Drained s) :
    (readCall env cap s).1 = .failed .eof [] ∧ Drained (readCall env cap s).2 := by
  have ended : Meets (read env cap) s (fun _ _ => False)
      (fun stop s' => stop = .error .eof ∧ Drained s') := by
    simp only [read, meets_bind, meets_get, meets_ite, meets_set, meets_fail]
    refine ⟨fun _ => ⟨trivial, drained.pending, rfl⟩, fun more => absurd ⟨drained.pending, ?_⟩ more⟩
    rw [LogRead.exhausted, drained.closed]
  cases ran : (read env cap).run s with
  | ok result s' => exact (ended.of_ok ran).elim
  | error stop s' =>
      obtain ⟨rfl, drained'⟩ := ended.of_error ran
      simp only [readCall, ran]
      exact ⟨rfl, drained'⟩

/-- Once the end of the log is reported, it is reported for good. -/
theorem readCalls_drained (env : ReadEnv) (caps : Nat → Nat) (calls : Nat) {s : ReadState}
    (drained : Drained s) : (readCalls env caps calls s).1 = List.replicate calls (.failed .eof []) := by
  induction calls generalizing s caps with
  | zero => rfl
  | succ calls ih =>
      obtain ⟨outcome, drained'⟩ := readCall_drained env (caps 0) drained
      simp only [readCalls, ih _ drained', outcome, List.replicate_succ]

theorem readCall_spends (cap : Nat) {s : ReadState} (sound : Sound dir s.toLogRead) :
    (readCall (.still dir noFault false) cap s).1 = .failed .eof [] ∧
        Drained (readCall (.still dir noFault false) cap s).2 ∨
      (readCall (.still dir noFault false) cap s).1 ≠ .failed .eof [] ∧
        (readCall (.still dir noFault false) cap s).1 ≠ .panicked ∧
        Spends dir 1 s (readCall (.still dir noFault false) cap s).2 := by
  have spec := read_spends cap sound
  cases ran : (read (.still dir noFault false) cap).run s with
  | ok result s' =>
      simp only [readCall, ran]
      exact .inr ⟨by simp, by simp, spec.of_ok ran⟩
  | error stop s' =>
      rcases spec.of_error ran with ⟨rfl, drained⟩ | ⟨⟨e, rfl, notEof⟩, spends⟩
      · simp only [readCall, ran]
        exact .inl ⟨rfl, drained⟩
      · simp only [readCall, ran]
        exact .inr ⟨by simp [notEof], by simp, spends⟩

/-- As many calls as there is left to read reach the end, and no call after them
gives anything else. -/
theorem readCalls_end (caps : Nat → Nat) {s : ReadState} (sound : Sound dir s.toLogRead) :
    ∃ outcomes : List Outcome, outcomes.length ≤ s.left (s.files dir) ∧
      .failed .eof [] ∉ outcomes ∧ .panicked ∉ outcomes ∧
      ∀ calls, (readCalls (.still dir noFault false) caps calls s).1 =
        (outcomes ++ List.replicate calls (Outcome.failed .eof [])).take calls := by
  induction size : s.left (s.files dir) using Nat.strong_induction_on generalizing s caps with
  | _ size ih =>
      rcases readCall_spends (caps 0) sound with ⟨outcome, drained⟩ | ⟨notEof, returns, spends⟩
      · refine ⟨[], Nat.zero_le _, by simp, by simp, fun calls => ?_⟩
        cases calls with
        | zero => rfl
        | succ calls =>
            simp only [readCalls, readCalls_drained _ _ _ drained, outcome]
            rw [← List.replicate_succ, List.nil_append, List.take_replicate, Nat.min_self]
      · have less := spends.left
        obtain ⟨outcomes, few, noEof, noPanic, runs⟩ :=
          ih _ (by omega) (fun i => caps (i + 1)) spends.sound rfl
        refine ⟨(readCall (.still dir noFault false) (caps 0) s).1 :: outcomes, ?_, ?_, ?_,
          fun calls => ?_⟩
        · rw [List.length_cons]
          omega
        · exact List.not_mem_cons_of_ne_of_not_mem notEof.symm noEof
        · exact List.not_mem_cons_of_ne_of_not_mem returns.symm noPanic
        · cases calls with
          | zero => rfl
          | succ calls =>
              simp only [readCalls, runs calls, List.cons_append, List.take_succ_cons]
              congr 1
              simp only [List.take_append, List.take_replicate]
              congr 2
              omega

end Runs

/-! ## Any directory -/

/-- The bytes of all files of a directory. -/
def Dir.bytes (dir : Dir) : Nat :=
  (dir.entries.map fun file => file.2.length).sum

/-- The number of files of a directory. -/
def Dir.count (dir : Dir) : Nat :=
  dir.entries.length

/-- What can be opened of a directory: some of its files, as they are. -/
def Dir.Opens (dir view : Dir) : Prop :=
  ∀ {name content}, view.lookup name = some content → dir.lookup name = some content

theorem sum_filterMap_le {α β : Type} {f : α → Option β} {w : β → Nat} {v : α → Nat} {l : List α}
    (each : ∀ a ∈ l, ∀ b, f a = some b → w b ≤ v a) :
    ((l.filterMap f).map w).sum ≤ (l.map v).sum := by
  induction l with
  | nil => exact Nat.le_refl 0
  | cons a l ih =>
      have rest := ih fun b mem => each b (List.mem_cons_of_mem _ mem)
      rw [List.map_cons, List.sum_cons]
      cases found : f a with
      | none =>
          rw [List.filterMap_cons_none found]
          omega
      | some b =>
          have here := each a List.mem_cons_self b found
          rw [List.filterMap_cons_some found, List.map_cons, List.sum_cons]
          omega

/-- The files listed are worth no more than the files of the directory. -/
theorem ahead_scanSegmentIds_le {dir view : Dir} (opens : dir.Opens view)
    (namePrefix nameSuffix : Bytes) :
    ahead (view.files namePrefix nameSuffix) (scanSegmentIds dir namePrefix nameSuffix) none ≤
      dir.bytes + 4 * dir.count := by
  have perm := List.perm_insertionSort (fun a b : SegId => a ≤ b)
    (dir.keys.filterMap fun name => idFromName name namePrefix nameSuffix)
  have total : dir.bytes + 4 * dir.count = (dir.entries.map fun file => 4 + file.2.length).sum := by
    simp only [Dir.bytes, Dir.count, List.sum_map_add, List.map_const', List.sum_replicate_nat]
    omega
  rw [ahead, scanSegmentIds, (perm.map _).sum_eq, total, AList.keys, List.keys, List.filterMap_map]
  refine sum_filterMap_le fun file mem id found => ?_
  rw [Function.comp_apply, idFromName_eq_some_iff] at found
  have present : dir.lookup file.1 = some file.2 := AList.mem_lookup_iff.mpr mem
  rw [worth, Dir.files, ← found]
  cases shown : view.lookup file.1 with
  | none => simp
  | some content =>
      obtain rfl := Option.some.inj ((opens shown).symm.trans present)
      simp

/-- Reading ends, whatever the files of a directory hold: no call fails to
return, as many calls as this bound allows reach the end, and from then on every
call reports it. -/
theorem reading_ends {dir view : Dir} (opens : dir.Opens view) {isDir : Bool}
    {namePrefix nameSuffix : Bytes} {log : LogRead}
    (isNew : LogRead.new isDir (some dir) namePrefix nameSuffix = .ok log) (caps : Nat → Nat) :
    ∃ outcomes : List Outcome, outcomes.length < dir.bytes + 4 * dir.count + 16 ∧
      .failed .eof [] ∉ outcomes ∧ .panicked ∉ outcomes ∧
      ∀ calls, (readCalls (.still view noFault false) caps calls log.begin).1 =
        (outcomes ++ List.replicate calls (Outcome.failed .eof [])).take calls := by
  obtain ⟨_, listed, begins⟩ := LogRead.new_spec isNew
  obtain rfl := Option.some.inj listed
  have closed : log.begin.current = none := begins.current
  have sound : Sound view log.begin.toLogRead := by
    intro segment current
    rw [closed] at current
    contradiction
  obtain ⟨outcomes, few, noEof, noPanic, runs⟩ := readCalls_end caps sound
  have left : log.begin.left (log.begin.files view) =
      ahead (view.files namePrefix nameSuffix) (scanSegmentIds dir namePrefix nameSuffix) none := by
    rw [LogRead.left_of_closed closed, LogRead.files]
    change ahead (view.files log.namePrefix log.nameSuffix) log.pending log.session = _
    rw [begins.namePrefix, begins.nameSuffix, begins.pending, begins.session]
  have bound := ahead_scanSegmentIds_le opens namePrefix nameSuffix
  exact ⟨outcomes, by omega, noEof, noPanic, runs⟩

theorem reading_ends_sample :
    ∃ outcomes : List Outcome, outcomes.length < Sample.rejected.bytes + 4 * Sample.rejected.count + 16 ∧
      .failed .eof [] ∉ outcomes ∧ .panicked ∉ outcomes ∧
      ∀ calls, (readCalls (.still Sample.rejected noFault false) (fun _ => 3) calls
          (Sample.reader [7, 8]).begin).1 =
        (outcomes ++ List.replicate calls (Outcome.failed .eof [])).take calls :=
  reading_ends (fun present => present)
    (show LogRead.new true (some Sample.rejected) [] [] = .ok (Sample.reader [7, 8]) by decide +kernel)
    fun _ => 3

end Tcslog
