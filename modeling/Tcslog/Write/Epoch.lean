import Tcslog.Write.Opening

/-!
# The epoch of a clock

A clock is anchored once and then read, and its epoch moved past identifiers,
as the monotonic clock advances.  Here its arithmetic is checked in the widths
of the source, and its readings are followed over any run of calls.
-/

namespace Tcslog

open Lib.Program

/-- More nanoseconds than a duration spans, whose seconds are 64 bits wide. -/
def durationLimit : Nat := 2 ^ 64 * 10 ^ 9

section Checked

variable {σ : Type}

/-- Addition of 128-bit numbers, which panics where it would wrap. -/
def addU128 (a b : Nat) : EStateM Stop σ Nat :=
  if a + b < 2 ^ 128 then pure (a + b) else throw .panic

/-- A checked step of the clock that may fail. -/
def orFail {α : Type} : Except LogError α → EStateM Stop σ α
  | .ok a => pure a
  | .error e => fail e

end Checked

namespace Clock

/-- The current time, `elapsed` after the monotonic reading of the clock. -/
def now (elapsed : Nat) : EStateM Stop Clock Nat := do
  let clock ← get
  orFail (stamp (← addU128 clock.delta elapsed))

/-- Shift the epoch forward, if it has to, so that the clock reads past `id`. -/
def advancePast (id : SegId) (elapsed : Nat) : EStateM Stop Clock Unit := do
  let _ ← orFail (stamp (← addU128 id.toNat 1))
  let reading ← now elapsed
  if reading ≤ id.toNat then
    let clock ← get
    let behind ← subU64 true id.toNat reading
    let delta ← orFail (stamp (← addU128 (← addU128 clock.delta behind) 1))
    set { clock with delta }
  else return ()

end Clock

/-- A call of the clock. -/
inductive ClockCall
  | now
  | advancePast (id : SegId)
  deriving DecidableEq, Repr

/-- What a call answers: the reading, if it is one. -/
def ClockCall.make (elapsed : Nat) : ClockCall → EStateM Stop Clock (Option Nat)
  | .now => do return some (← Clock.now elapsed)
  | .advancePast id => do
      Clock.advancePast id elapsed
      return none

/-- A call made of a clock, with what it answered and what became of the clock. -/
structure ClockStep where
  call : ClockCall
  elapsed : Nat
  before : Clock
  answer : Except Stop (Option Nat)
  after : Clock

/-- One call, when the monotonic clock has advanced by `elapsed`. -/
def Clock.step (clock : Clock) (call : ClockCall) (elapsed : Nat) : ClockStep :=
  match (call.make elapsed).run clock with
  | .ok answer after => ⟨call, elapsed, clock, .ok answer, after⟩
  | .error stop after => ⟨call, elapsed, clock, .error stop, after⟩

/-- A run of calls, each with what the monotonic clock has advanced by. -/
def Clock.trace : Clock → List (ClockCall × Nat) → List ClockStep
  | _, [] => []
  | clock, (call, elapsed) :: calls =>
      let made := clock.step call elapsed
      made :: made.after.trace calls

namespace Clock

variable {clock : Clock} {elapsed : Nat}

/-! ## One call -/

theorem meets_addU128 {σ : Type} {a b : Nat} {s : σ} {post : Nat → σ → Prop}
    {failed : Stop → σ → Prop} (fits : a + b < 2 ^ 128) :
    Meets (addU128 a b) s post failed ↔ post (a + b) s := by
  rw [addU128, if_pos fits, meets_pure]

theorem meets_orFail_stamp {σ : Type} {ns : Nat} {s : σ} {post : Nat → σ → Prop}
    {failed : Stop → σ → Prop} (fits : ns < u64Max → post ns s)
    (beyond : u64Max ≤ ns → failed (.error .timestampOverflow) s) :
    Meets (orFail (stamp ns)) s post failed := by
  rw [stamp]
  split
  case isTrue small => exact fits small
  case isFalse large => exact beyond (Nat.le_of_not_lt large)

/-- A reading is the epoch and what has elapsed, as long as a timestamp holds it. -/
theorem now_meets (anchored : clock.delta < u64Max) (within : elapsed < durationLimit) :
    Meets (now elapsed) clock
      (fun reading after => after = clock ∧ reading = clock.delta + elapsed ∧ reading < u64Max)
      (fun stop after => after = clock ∧ stop = .error .timestampOverflow ∧
        u64Max ≤ clock.delta + elapsed) := by
  rw [u64Max] at anchored
  rw [durationLimit] at within
  rw [now, meets_bind, meets_get, meets_bind, meets_addU128 (by omega)]
  exact meets_orFail_stamp (fun small => ⟨rfl, rfl, small⟩) fun large => ⟨rfl, rfl, large⟩

/-- The epoch moves to where the reading is the later of the time and the one after `id`, and the
call fails if either is no timestamp. -/
theorem advancePast_meets (id : SegId) (anchored : clock.delta < u64Max)
    (within : elapsed < durationLimit) :
    Meets (advancePast id elapsed) clock
      (fun _ after => after.mono = clock.mono ∧ id.toNat + 1 < u64Max ∧
        clock.delta + elapsed < u64Max ∧
        after.delta + elapsed = max (clock.delta + elapsed) (id.toNat + 1))
      (fun stop after => after = clock ∧ stop = .error .timestampOverflow ∧
        (u64Max ≤ id.toNat + 1 ∨ u64Max ≤ clock.delta + elapsed)) := by
  have id_lt := id.toNat_lt
  rw [advancePast, meets_bind, meets_addU128 (by omega), meets_bind]
  refine meets_orFail_stamp (fun next => ?_) fun last => ⟨rfl, rfl, .inl last⟩
  rw [meets_bind]
  refine (now_meets anchored within).imp ?_ fun _ _ beyond => ⟨beyond.1, beyond.2.1, .inr beyond.2.2⟩
  rintro reading _ ⟨rfl, rfl, small⟩
  rw [meets_ite]
  refine ⟨fun behind => ?_, fun past => ⟨rfl, next, small, by omega⟩⟩
  rw [u64Max] at small next
  rw [meets_bind, meets_get, meets_bind, subU64, if_pos behind, meets_pure, meets_bind,
    meets_addU128 (by omega), meets_bind, meets_addU128 (by omega), meets_bind]
  refine meets_orFail_stamp (fun _ => ?_) fun large => ?_
  · refine ⟨rfl, next, small, ?_⟩
    dsimp only
    omega
  · -- the shifted epoch is no later than the identifier after `id`
    rw [u64Max] at large
    omega

end Clock

namespace ClockStep

variable {clock : Clock} {elapsed : Nat}

/-- The call asks for what is no timestamp: the time, or the one after an identifier. -/
def Beyond (made : ClockStep) : Prop :=
  u64Max ≤ made.before.delta + made.elapsed ∨
    ∃ id, made.call = .advancePast id ∧ u64Max ≤ id.toNat + 1

/-- A call fails exactly when it asks for what is no timestamp. -/
inductive Sound (made : ClockStep) : Prop
  | beyond (asked : made.Beyond) (answer : made.answer = .error (.error .timestampOverflow))
      (kept : made.after = made.before)
  | read (within : ¬ made.Beyond) (call : made.call = .now)
      (answer : made.answer = .ok (some (made.before.delta + made.elapsed)))
      (kept : made.after = made.before)
  | passed (within : ¬ made.Beyond) (id : SegId) (call : made.call = .advancePast id)
      (answer : made.answer = .ok none)
      (moved : made.after.delta + made.elapsed =
        max (made.before.delta + made.elapsed) (id.toNat + 1))

theorem before_step (clock : Clock) (call : ClockCall) (elapsed : Nat) :
    (clock.step call elapsed).before = clock ∧ (clock.step call elapsed).call = call ∧
      (clock.step call elapsed).elapsed = elapsed := by
  rw [Clock.step]
  cases (call.make elapsed).run clock <;> exact ⟨rfl, rfl, rfl⟩

theorem sound_of_meets {call : ClockCall} (made : Meets (call.make elapsed) clock
    (fun answer after => ClockStep.Sound ⟨call, elapsed, clock, .ok answer, after⟩)
    (fun stop after => ClockStep.Sound ⟨call, elapsed, clock, .error stop, after⟩)) :
    (clock.step call elapsed).Sound := by
  rw [Clock.step]
  cases ran : (call.make elapsed).run clock with
  | ok answer after => exact made.of_ok ran
  | error stop after => exact made.of_error ran

theorem step_sound (anchored : clock.delta < u64Max) (within : elapsed < durationLimit)
    (call : ClockCall) : (clock.step call elapsed).Sound := by
  apply sound_of_meets
  cases call with
  | now =>
      rw [ClockCall.make, meets_bind]
      refine (Clock.now_meets anchored within).imp ?_ ?_
      · rintro reading after ⟨rfl, rfl, small⟩
        refine .read ?_ rfl rfl rfl
        rintro (large | ⟨id, other, -⟩)
        · exact absurd small (Nat.not_lt_of_le large)
        · contradiction
      · rintro stop after ⟨rfl, rfl, large⟩
        exact .beyond (.inl large) rfl rfl
  | advancePast id =>
      rw [ClockCall.make, meets_bind]
      refine (Clock.advancePast_meets id anchored within).imp ?_ ?_
      · rintro - after ⟨-, next, small, moved⟩
        refine .passed ?_ id rfl rfl moved
        rintro (large | ⟨id', same, large⟩)
        · exact absurd small (Nat.not_lt_of_le large)
        · obtain rfl := ClockCall.advancePast.inj same
          exact absurd next (Nat.not_lt_of_le large)
      · rintro stop after ⟨rfl, rfl, large⟩
        exact .beyond (large.symm.imp_right fun large => ⟨id, rfl, large⟩) rfl rfl

variable {made : ClockStep}

theorem Sound.advances (sound : made.Sound) : made.before.delta ≤ made.after.delta := by
  cases sound with
  | beyond _ _ kept => rw [kept]
  | read _ _ _ kept => rw [kept]
  | passed _ _ _ _ moved => omega

theorem Sound.anchored (sound : made.Sound) (anchored : made.before.delta < u64Max) :
    made.after.delta < u64Max := by
  cases sound with
  | beyond _ _ kept => rwa [kept]
  | read _ _ _ kept => rwa [kept]
  | passed within id call _ moved =>
      rw [Beyond, not_or, not_exists] at within
      have next : id.toNat + 1 < u64Max := Nat.lt_of_not_le fun large => within.2 id ⟨call, large⟩
      omega

theorem Sound.reading {reading : Nat} (sound : made.Sound)
    (answer : made.answer = .ok (some reading)) :
    reading = made.before.delta + made.elapsed := by
  cases sound with
  | beyond _ failed _ =>
      rw [failed] at answer
      contradiction
  | read _ _ read _ =>
      rw [read] at answer
      exact (Option.some.inj (Except.ok.inj answer)).symm
  | passed _ _ _ passed _ =>
      rw [passed] at answer
      exact absurd (Except.ok.inj answer) (by simp)

/-- The identifier passed is behind the clock. -/
theorem Sound.passes {id : SegId} (sound : made.Sound) (call : made.call = .advancePast id)
    (answer : made.answer = .ok none) : id.toNat < made.after.delta + made.elapsed := by
  cases sound with
  | beyond _ failed _ =>
      rw [failed] at answer
      contradiction
  | read _ read _ _ =>
      rw [read] at call
      contradiction
  | passed _ id' call' _ moved =>
      rw [call'] at call
      obtain rfl := ClockCall.advancePast.inj call
      omega

/-- A call fails exactly when it asks for what is no timestamp. -/
theorem Sound.fails_iff (sound : made.Sound) : (∃ stop, made.answer = .error stop) ↔ made.Beyond := by
  cases sound with
  | beyond asked answer _ => exact ⟨fun _ => asked, fun _ => ⟨_, answer⟩⟩
  | read within _ answer _ =>
      constructor
      · rintro ⟨stop, failed⟩
        rw [answer] at failed
        contradiction
      · intro asked
        exact absurd asked within
  | passed within _ _ answer _ =>
      constructor
      · rintro ⟨stop, failed⟩
        rw [answer] at failed
        contradiction
      · intro asked
        exact absurd asked within

/-- A call that fails leaves the clock as it was. -/
theorem Sound.failed {stop : Stop} (sound : made.Sound) (answer : made.answer = .error stop) :
    stop = .error .timestampOverflow ∧ made.after = made.before := by
  cases sound with
  | beyond _ failed kept =>
      rw [failed] at answer
      exact ⟨(Except.error.inj answer).symm, kept⟩
  | read _ _ read _ =>
      rw [read] at answer
      contradiction
  | passed _ _ _ passed _ =>
      rw [passed] at answer
      contradiction

end ClockStep

/-! ## Runs of calls -/

namespace Clock

variable {clock : Clock} {calls : List (ClockCall × Nat)}

/-- In a run every call is sound and starts no earlier than the run. -/
theorem trace_sound (anchored : clock.delta < u64Max)
    (within : ∀ call ∈ calls, call.2 < durationLimit) {floor : Nat}
    (after : ∀ call ∈ calls, floor ≤ call.2) :
    ∀ made ∈ clock.trace calls, made.Sound ∧ clock.delta ≤ made.before.delta ∧
      floor ≤ made.elapsed := by
  induction calls generalizing clock with
  | nil => simp [trace]
  | cons call calls ih =>
      obtain ⟨call, elapsed⟩ := call
      have sound := ClockStep.step_sound anchored (within _ List.mem_cons_self) call
      obtain ⟨before, -, reads⟩ := ClockStep.before_step clock call elapsed
      have still : (clock.step call elapsed).after.delta < u64Max := by
        apply sound.anchored
        rwa [before]
      have advances := sound.advances
      rw [before] at advances
      intro made mem
      rw [trace, List.mem_cons] at mem
      rcases mem with rfl | later
      · exact ⟨sound, by rw [before], by rw [reads]; exact after _ List.mem_cons_self⟩
      · obtain ⟨sound', delta, elapsed'⟩ := ih still
          (fun call mem => within call (List.mem_cons_of_mem _ mem))
          (fun call mem => after call (List.mem_cons_of_mem _ mem)) made later
        exact ⟨sound', advances.trans delta, elapsed'⟩

/-- In a run no epoch is behind an earlier one, and no reading behind what was read or passed. -/
theorem trace_ordered (anchored : clock.delta < u64Max)
    (within : ∀ call ∈ calls, call.2 < durationLimit)
    (advancing : calls.Pairwise fun earlier later => earlier.2 ≤ later.2) :
    (clock.trace calls).Pairwise fun earlier later =>
      earlier.after.delta ≤ later.before.delta ∧ earlier.elapsed ≤ later.elapsed := by
  induction calls generalizing clock with
  | nil => exact List.Pairwise.nil
  | cons call calls ih =>
      obtain ⟨call, elapsed⟩ := call
      have sound := ClockStep.step_sound anchored (within _ List.mem_cons_self) call
      obtain ⟨before, -, reads⟩ := ClockStep.before_step clock call elapsed
      have still : (clock.step call elapsed).after.delta < u64Max := by
        apply sound.anchored
        rwa [before]
      have within' (call : ClockCall × Nat) (mem : call ∈ calls) : call.2 < durationLimit :=
        within call (List.mem_cons_of_mem _ mem)
      rw [List.pairwise_cons] at advancing
      rw [trace, List.pairwise_cons]
      refine ⟨fun later mem => ?_, ih still within' advancing.2⟩
      rw [reads]
      exact (trace_sound still within' advancing.1 later mem).2

theorem anchor_lt {sinceEpoch mono : Nat} (anchored : anchor sinceEpoch mono = .ok clock) :
    clock.delta < u64Max := by
  rw [anchor, stamp] at anchored
  split at anchored
  case isTrue small =>
    simp only [bind, Except.bind] at anchored
    split at anchored
    · contradiction
    · rw [← Except.ok.inj anchored]
      exact small
  case isFalse => contradiction

end Clock

/-! ## The clock of a writer -/

section Writer

variable {env : WriteEnv} {s : WriteState} {id : SegId}

theorem liftExcept_eq_orFail {α : Type} (x : Except LogError α) : liftExcept x = orFail x := by
  cases x <;> rfl

theorem advancePast_exact (quiet : env.fault s.ops = false) : Meets (advancePast env id) s
    (fun _ t => t.clock.mono = s.clock.mono ∧
      t.clock.delta + (env.instant s.ops - s.clock.mono) =
        max (env.reading s.clock s.ops) (id.toNat + 1) ∧
      id.toNat + 1 < u64Max ∧ env.reading s.clock s.ops < u64Max)
    (fun stop t => t.clock = s.clock ∧ stop = .error .timestampOverflow ∧
      (u64Max ≤ id.toNat + 1 ∨ u64Max ≤ env.reading s.clock s.ops)) := by
  rw [advancePast, meets_bind, liftExcept_eq_orFail]
  refine Clock.meets_orFail_stamp (fun next => ?_) fun last => ⟨rfl, rfl, .inl last⟩
  rw [meets_bind, now, meets_bind]
  refine tick_spec.imp ?_ (by simp)
  rintro t _ ⟨rfl, rfl⟩
  rw [meets_bind, meets_get, if_neg (by simp [quiet]), liftExcept_eq_orFail]
  refine Clock.meets_orFail_stamp (fun small => ?_) fun large => ⟨rfl, rfl, .inr large⟩
  rw [meets_ite]
  refine ⟨fun behind => ?_, fun past => ?_⟩
  · rw [meets_bind, meets_get, meets_bind, liftExcept_eq_orFail]
    refine Clock.meets_orFail_stamp (fun _ => ⟨rfl, ?_, next, small⟩) fun large => ?_
    · dsimp only [WriteEnv.reading] at *
      omega
    · dsimp only at *
      omega
  · refine ⟨rfl, ?_, next, small⟩
    dsimp only [WriteEnv.reading] at *
    omega

/-- The clock of a writer moves past an identifier as the checked clock does. -/
theorem advancePast_checked (quiet : env.fault s.ops = false) (anchored : s.clock.delta < u64Max)
    (within : env.instant s.ops - s.clock.mono < durationLimit) :
    let checked := (Clock.advancePast id (env.instant s.ops - s.clock.mono)).run s.clock
    Meets (advancePast env id) s (fun _ t => checked = .ok () t.clock)
      (fun stop t => checked = .error stop t.clock) := by
  intro checked
  have meets := Clock.advancePast_meets id anchored within
  refine (advancePast_exact quiet).imp ?_ ?_
  · rintro - t ⟨mono, delta, next, small⟩
    cases ran : (Clock.advancePast id (env.instant s.ops - s.clock.mono)).run s.clock with
    | ok _ after =>
        obtain ⟨mono', -, -, delta'⟩ := meets.of_ok ran
        have same : after = t.clock := by
          have delta_eq : after.delta = t.clock.delta := by
            dsimp only [WriteEnv.reading] at *
            omega
          calc after = ⟨after.delta, after.mono⟩ := rfl
            _ = ⟨t.clock.delta, t.clock.mono⟩ := by rw [delta_eq, mono', mono]
            _ = t.clock := rfl
        rw [← same]
        exact ran
    | error stop after =>
        obtain ⟨-, -, large | large⟩ := meets.of_error ran
        · exact absurd next (Nat.not_lt_of_le large)
        · exact absurd small (Nat.not_lt_of_le large)
  · rintro stop t ⟨clock, rfl, large⟩
    cases ran : (Clock.advancePast id (env.instant s.ops - s.clock.mono)).run s.clock with
    | ok _ after =>
        obtain ⟨-, next, small, -⟩ := meets.of_ok ran
        rcases large with large | large
        · exact absurd next (Nat.not_lt_of_le large)
        · exact absurd small (Nat.not_lt_of_le large)
    | error stop after =>
        obtain ⟨rfl, rfl, -⟩ := meets.of_error ran
        rw [clock]
        exact ran

end Writer

/-- However a clock is anchored, read and moved past identifiers as time goes on, no computation
wraps and the epoch never moves back.  A call fails exactly when the time, or the one after the
identifier, is no timestamp, and then leaves the clock as it was; a reading is past every
identifier passed before it, and not behind any reading before it. -/
theorem clock_advances {sinceEpoch mono : Nat} {clock : Clock} {calls : List (ClockCall × Nat)}
    (anchored : Clock.anchor sinceEpoch mono = .ok clock)
    (within : ∀ call ∈ calls, call.2 < durationLimit)
    (advancing : calls.Pairwise fun earlier later => earlier.2 ≤ later.2) :
    (∀ made ∈ clock.trace calls, made.answer ≠ .error .panic ∧
      made.before.delta ≤ made.after.delta ∧
      ((∃ stop, made.answer = .error stop) ↔ made.Beyond) ∧
      ∀ stop, made.answer = .error stop → made.after = made.before) ∧
    (clock.trace calls).Pairwise fun earlier later =>
      earlier.after.delta ≤ later.before.delta ∧
      ∀ reading, later.answer = .ok (some reading) →
        (∀ id, earlier.call = .advancePast id → earlier.answer = .ok none → id.toNat < reading) ∧
        ∀ read, earlier.answer = .ok (some read) → read ≤ reading := by
  have start := Clock.anchor_lt anchored
  have sound (made : ClockStep) (mem : made ∈ clock.trace calls) : made.Sound :=
    (Clock.trace_sound start within (fun _ _ => Nat.zero_le _) made mem).1
  constructor
  · intro made mem
    refine ⟨fun panicked => ?_, (sound made mem).advances, (sound made mem).fails_iff,
      fun stop answer => ((sound made mem).failed answer).2⟩
    exact absurd ((sound made mem).failed panicked).1 (by simp)
  · refine (Clock.trace_ordered start within advancing).imp_of_mem ?_
    rintro earlier later mem mem' ⟨deltas, times⟩
    refine ⟨deltas, fun reading answer => ?_⟩
    have reads := (sound later mem').reading answer
    constructor
    · intro id call passed
      have passes := (sound earlier mem).passes call passed
      omega
    · intro read answer'
      have reads' := (sound earlier mem).reading answer'
      have advances := (sound earlier mem).advances
      omega

/-- Two readings, before and after the clock is moved past an identifier ahead of it. -/
theorem clock_advances_sample :
    let calls := [(.now, 0), (.advancePast 5000000000, 5), (.now, 7)]
    let clock : Clock := ⟨1000, 0⟩
    (clock.trace calls).map (fun made => made.answer) =
        [.ok (some 1000), .ok none, .ok (some 5000000003)] ∧
      (clock.trace calls).Pairwise fun earlier later =>
        earlier.after.delta ≤ later.before.delta ∧
        ∀ reading, later.answer = .ok (some reading) →
          (∀ id, earlier.call = .advancePast id → earlier.answer = .ok none → id.toNat < reading) ∧
          ∀ read, earlier.answer = .ok (some read) → read ≤ reading := by
  intro calls clock
  have anchored : Clock.anchor 1000 0 = .ok clock := rfl
  refine ⟨by decide +kernel, (clock_advances anchored ?_ ?_).2⟩
  · decide
  · decide

end Tcslog
