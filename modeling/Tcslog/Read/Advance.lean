import Tcslog.Read.Calls

/-!
# The file a record ends in

A crossing is made for bytes that are then read, so a call that has read a
record to its end leaves the reader behind at least one byte of the open file.
-/

namespace Tcslog

open Lib.Program

/-- Something of the open file was read. -/
def ReadInto (s : ReadState) : Prop :=
  ∃ segment, s.current = some segment ∧ 0 < segment.pos

theorem ReadInto.of_current {s s' : ReadState} (into : ReadInto s) (same : s'.current = s.current) :
    ReadInto s' := by
  obtain ⟨segment, current, some⟩ := into
  exact ⟨segment, same.trans current, some⟩

/-- A call that reports that a record was too long leaves a file open of which it read something, or
none. -/
def Ending (stop : Stop) (s : ReadState) : Prop :=
  (∃ n, stop = .error (.readOverflow n)) → s.current = none ∨ ReadInto s

theorem ending_of_lost {stop : Stop} (s : ReadState) :
    match stop with
    | .error e => Ending (.error e) s.losePosition
    | stop => Ending stop s := by
  cases stop with
  | error e => exact fun _ => .inl rfl
  | panic => simp [Ending]
  | stuck => simp [Ending]

section Loops

variable (env : ReadEnv)

theorem fillChunk_into (len : Nat) (s : ReadState) :
    Meets (fillChunk env len) s (fun n s' => 0 < n → ReadInto s') (fun _ _ => True) := by
  simp only [fillChunk, meets_bind, meets_get]
  refine meets_true.imp (fun _ t _ => ?_) fun _ _ _ => trivial
  cases t.current with
  | none => simp
  | some segment =>
      simp only [meets_bind, meets_modify, meets_pure]
      refine meets_true.imp (fun _ _ _ some => ?_) fun _ _ _ => trivial
      exact ⟨_, rfl, Nat.lt_of_lt_of_le some (Nat.le_add_left _ _)⟩

theorem skipChunk_into (count : Nat) (s : ReadState) :
    Meets (skipChunk env count) s (fun n s' => 0 < n → ReadInto s') (fun _ _ => True) := by
  simp only [skipChunk, meets_bind, meets_get]
  refine meets_true.imp (fun _ t _ => ?_) fun _ _ _ => trivial
  cases t.current with
  | none => simp
  | some segment =>
      simp only [meets_bind, meets_modify, meets_pure]
      refine meets_true.imp (fun _ _ _ some => ?_) fun _ _ _ => trivial
      exact ⟨_, rfl, Nat.lt_of_lt_of_le some (Nat.le_add_left _ _)⟩

/-- The last pass of a loop reads something, whatever those before it did. -/
theorem repeatPass_into {pass : Nat → ReadM Nat}
    {progress : ∀ {len}, 0 < len → ∀ s, Meets (pass len) s
      (fun n s' => s'.pending.length + (len - n) < s.pending.length + len) (fun _ _ => True)}
    (into : ∀ len s, Meets (pass len) s (fun n s' => 0 < n → ReadInto s') (fun _ _ => True))
    (len : Nat) (s : ReadState) :
    Meets (repeatPass pass progress len) s
      (fun _ s' => ReadInto s' ∨ len = 0 ∧ s'.current = s.current) (fun _ _ => True) := by
  have loop : Meets (repeatPass pass progress len) s
      (fun _ t => 0 = 0 → ReadInto t ∨ len = 0 ∧ t.current = s.current) (fun _ _ => True) := by
    refine meets_repeatPass (fun rest t => rest = 0 → ReadInto t ∨ len = 0 ∧ t.current = s.current)
      (fun {rest t} more _ => ?_) fun none => .inr ⟨none, rfl⟩
    refine (into rest t).imp (fun n u reads finished => .inl (reads ?_)) fun _ _ _ => trivial
    omega
  exact loop.imp (fun _ _ ended => ended rfl) fun _ _ _ => trivial

theorem fillBuf_into (len : Nat) (s : ReadState) :
    Meets (fillBuf env len) s (fun _ s' => ReadInto s' ∨ len = 0 ∧ s'.current = s.current)
      (fun _ _ => True) := by
  simp only [fillBuf, meets_bind, meets_modify, meets_get, meets_pure]
  exact repeatPass_into (fillChunk_into env) len _

theorem skip_into (count : Nat) (s : ReadState) :
    Meets (skip env count) s (fun _ s' => ReadInto s' ∨ count = 0 ∧ s'.current = s.current)
      (fun _ _ => True) :=
  repeatPass_into (skipChunk_into env) count s

theorem settlePayloadLen_into (decoded : Nat) {s : ReadState} (into : ReadInto s) :
    Meets (settlePayloadLen decoded) s (fun _ s' => ReadInto s') (fun _ _ => True) := by
  obtain ⟨segment, current, some⟩ := into
  simp only [settlePayloadLen, meets_bind, meets_get, meets_ite, meets_pure]
  refine ⟨fun _ => ?_, fun _ => ⟨segment, current, some⟩⟩
  simp only [rejectCurrent, meets_bind, meets_get, current, meets_set, meets_fail]

end Loops

section Read

variable (env : ReadEnv)

/-- Reading a data header reads something, unless the format has none. -/
theorem readDataHeader_into (format : Format) (minor : Nat) (s : ReadState) :
    Meets (readDataHeader env format minor) s
      (fun decoded s' => ReadInto s' ∨ 0 < decoded.1 ∨ decoded = (0, .fixed)) (fun _ _ => True) := by
  cases format with
  | fixed n =>
      simp only [readDataHeader, setTotal, meets_bind, meets_modify, meets_pure]
      right
      rcases Nat.eq_zero_or_pos n.toNat with zero | some
      · exact .inr (by rw [zero])
      · exact .inl some
  | variableSimple =>
      simp only [readDataHeader, setTotal, meets_bind, meets_modify, meets_pure]
      refine (fillBuf_into env 4 s).imp (fun head t into => ?_) fun _ _ _ => trivial
      have into := into.resolve_right (by simp)
      exact (settlePayloadLen_into _ into).imp
        (fun _ _ into' => .inl (into'.of_current rfl)) fun _ _ _ => trivial
  | variableTsRc =>
      simp only [readDataHeader, setTotal, meets_bind, meets_modify, meets_pure]
      refine (fillBuf_into env _ s).imp (fun head t into => ?_) fun _ _ _ => trivial
      have into := into.resolve_right fun none => by
        have len := none.1
        simp only [Format.dataHeaderLenIn] at len
        split at len <;> contradiction
      exact (settlePayloadLen_into _ into).imp
        (fun _ _ into' => .inl (into'.of_current rfl)) fun _ _ _ => trivial

/-- A payload recovered without its data header is not empty. -/
theorem examineNext_recovered (s : ReadState) :
    Meets (examineNext env) s (fun found _ => ∀ n, found = some (.recovered n) → 0 < n)
      (fun _ _ => True) := by
  simp only [examineNext, meets_bind, meets_get, meets_modify, meets_ite]
  refine meets_true.imp (fun _ t _ => ⟨fun _ => ?_, fun _ => trivial⟩) fun _ _ _ => trivial
  cases t.current with
  | none => simp
  | some segment =>
      dsimp only
      split
      next n recovered =>
        rw [meets_pure]
        rintro n' found
        obtain rfl := Start.recovered.inj (Option.some.inj found)
        obtain ⟨hint, _, recovered⟩ := Option.bind_eq_some_iff.mp recovered
        simp only [recoveredPayloadLen] at recovered
        grind
      next =>
        simp only [meets_ite, meets_bind, meets_modify, meets_pure]
        refine ⟨fun _ => by simp, fun _ => ?_⟩
        exact meets_true.imp (fun _ _ _ => by simp) fun _ _ _ => trivial

theorem locate_recovered (s : ReadState) :
    Meets (locate env) s (fun start _ => ∀ n, start = .recovered n → 0 < n) Ending := by
  have finds (t : ReadState) : Meets (findRecordStart env) t
      (fun start _ => ∀ n, start = .recovered n → 0 < n) (fun _ _ => True) := by
    refine meets_findRecordStart env (fun _ => True) (fun {u} _ => ?_) trivial
    refine (examineNext_recovered env u).imp (fun found _ pos => ⟨?_, fun _ => trivial⟩) fun _ _ _ => trivial
    intro start isFound n isRecovered
    exact pos n (by rw [isFound, isRecovered])
  simp only [locate, meets_bind, meets_get, meets_ite, meets_orLosePosition, meets_modify, meets_set,
    meets_fail, meets_pure]
  refine ⟨fun _ => (finds s).imp (fun start t pos => ⟨fun _ => ?_, fun _ => pos⟩) ?_, by simp⟩
  · simp [Ending]
  · exact fun stop t _ => ending_of_lost t

/-- What is known before a payload of `want` bytes is read. -/
def Entering (want : Nat) (metadata : Meta) (s : ReadState) : Prop :=
  ReadInto s ∨ 0 < want ∨ (want, metadata) = (0, .fixed)

theorem header_into {start : Start} (recovered : ∀ n, start = .recovered n → 0 < n)
    (segment : Segment) (s : ReadState) :
    Meets (header env start segment) s (fun decoded s' => Entering decoded.1 decoded.2 s') Ending := by
  cases start with
  | fresh =>
      simp only [header, meets_orLosePosition]
      exact (readDataHeader_into env _ _ s).imp (fun _ _ into => into) fun _ t _ => ending_of_lost t
  | recovered n =>
      simp only [header, meets_bind, meets_modify, meets_pure]
      exact .inr (.inl (recovered n rfl))

/-- A payload that was read, or of which a part was, ends within the open file. -/
theorem payload_into (cap : Nat) {want : Nat} {metadata : Meta} {s : ReadState}
    (entering : Entering want metadata s) :
    Meets (payload env cap want metadata) s
      (fun result s' => ReadInto s' ∨ result = ⟨0, .fixed⟩) Ending := by
  simp only [payload, meets_bind, meets_modify, meets_orLosePosition]
  refine (fillBuf_into env _ _).imp (fun _ t into => ?_) fun _ t _ => ending_of_lost t
  simp only [meets_ite, meets_bind, meets_attempt, meets_pure]
  refine ⟨fun long => ?_, fun short => ?_⟩
  · refine (skip_into env _ t).imp (fun _ u into' => ?_) fun stop u _ => ?_
    · rw [meets_fail]
      exact fun _ => .inr (into'.resolve_right fun none => by omega)
    · cases stop with
      | error e =>
          simp only [meets_modify, meets_fail]
          exact fun _ => .inl rfl
      | panic => simp [Ending]
      | stuck => simp [Ending]
  · rcases into with into | ⟨none, same⟩
    · exact .inl into
    rcases entering with before | more | nothing
    · exact .inl (before.of_current same)
    · omega
    · obtain ⟨rfl, rfl⟩ := Prod.mk.inj nothing
      right
      rw [Nat.zero_min]

/-- A call that read a record leaves a file open of which it read something. -/
theorem read_into (cap : Nat) (s : ReadState) :
    Meets (read env cap) s (fun result s' => ReadInto s' ∨ result = ⟨0, .fixed⟩) Ending := by
  simp only [read, meets_bind, meets_get, meets_ite, meets_set, meets_fail]
  refine ⟨fun _ => by simp [Ending], fun _ => ?_⟩
  refine (locate_recovered env _).imp (fun start t recovered => ?_) fun _ _ ending => ending
  cases t.current with
  | none =>
      simp only [meets_orLosePosition, meets_fail]
      simp [Ending]
  | some segment =>
      simp only [meets_bind]
      refine (header_into env recovered segment t).imp (fun decoded u entering => ?_)
        fun _ _ ending => ending
      exact payload_into env cap entering

end Read

end Tcslog
