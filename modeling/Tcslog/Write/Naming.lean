import Tcslog.Write.Disk

/-!
# The clock names files

While the caller leaves segment files in place, a writer whose clock is past
every file there names each new file later than all of them.
-/

namespace Tcslog

open Lib.Program

/-- What the clock reads when request `t` is made. -/
def WriteEnv.reading (env : WriteEnv) (clock : Clock) (t : Nat) : Nat :=
  clock.delta + (env.instant t - clock.mono)

theorem WriteEnv.reading_mono (env : WriteEnv) (clock : Clock) {t t' : Nat} (le : t ≤ t') :
    env.reading clock t ≤ env.reading clock t' := by
  have := env.instant_mono le
  unfold reading
  omega

/-- The caller leaves every file in place. -/
def WriteEnv.Leaves (env : WriteEnv) : Prop :=
  ∀ t, env.sends t = .leave

namespace WriteState

/-- The segment files of the log. -/
def files (s : WriteState) : SegId → Option Bytes :=
  s.dir.files s.namePrefix s.nameSuffix

/-- The clock reads no less than any file's identifier. -/
def Past (s : WriteState) (env : WriteEnv) : Prop :=
  ∀ id, (s.files id).isSome → id.toNat ≤ env.reading s.clock s.ops

/-- The writer made some requests, which left it the directory `dir`. -/
structure Did (s : WriteState) (dir : Dir) (s' : WriteState) : Prop where
  same : s' = { s with
    dir := dir, ops := s'.ops, events := s'.events, timerResolution := s'.timerResolution }
  later : s.ops ≤ s'.ops

namespace Did

variable {s t u : WriteState} {dir dir' : Dir}

theorem refl (s : WriteState) : s.Did s.dir s :=
  ⟨rfl, Nat.le_refl _⟩

theorem trans (first : s.Did dir t) (second : t.Did dir' u) : s.Did dir' u := by
  refine ⟨?_, first.later.trans second.later⟩
  rw [second.same, first.same]

theorem dir_eq (did : s.Did dir t) : t.dir = dir := by rw [did.same]

theorem clock (did : s.Did dir t) : t.clock = s.clock := by rw [did.same]

theorem current (did : s.Did dir t) : t.current = s.current := by rw [did.same]

theorem files_eq (did : s.Did dir t) : t.files = dir.files s.namePrefix s.nameSuffix := by
  rw [files, did.same]

theorem files_same (did : s.Did s.dir t) : t.files = s.files :=
  did.files_eq

theorem past {env : WriteEnv} (did : s.Did s.dir t) (past : s.Past env) : t.Past env := by
  intro id present
  rw [did.files_same] at present
  rw [did.clock]
  exact (past id present).trans (env.reading_mono _ did.later)

end Did

end WriteState

open WriteState

section Requests

variable {env : WriteEnv} {s : WriteState}

theorem tick_spec : Meets tick s
    (fun t s' => t = s.ops ∧ s' = { s with ops := s.ops + 1 }) (fun _ _ => False) := by
  simp only [tick, meets_bind, meets_get, meets_set, meets_pure]
  exact ⟨trivial, trivial⟩

theorem did_emit {t : WriteState} {dir dir' : Dir} (did : s.Did dir t) (event : WriteEvent) :
    s.Did dir' { t with dir := dir', events := t.events ++ [event] } := by
  refine ⟨?_, did.later⟩
  rw [did.same]

theorem did_tick (s : WriteState) : s.Did s.dir { s with ops := s.ops + 1 } :=
  ⟨rfl, Nat.le_succ _⟩

theorem flushFile_spec (id : SegId) : Meets (flushFile env id) s
    (fun _ s' => s.Did s.dir s') (fun stop s' => stop = .error .ioError ∧ s.Did s.dir s') := by
  simp only [flushFile, meets_bind]
  refine tick_spec.imp ?_ (by simp)
  rintro t _ ⟨rfl, rfl⟩
  simp only [meets_ite, meets_fail, emit, meets_modify]
  exact ⟨fun _ => ⟨trivial, did_tick s⟩, fun _ => did_emit (did_tick s) _⟩

theorem recordComplete_spec (id : SegId) : Meets (recordComplete env id) s
    (fun _ s' => s.Did s.dir s') (fun stop s' => stop = .error .ioError ∧ s.Did s.dir s') := by
  simp only [recordComplete, meets_bind]
  refine tick_spec.imp ?_ (by simp)
  rintro t _ ⟨rfl, rfl⟩
  simp only [meets_ite, meets_fail, emit, meets_modify]
  exact ⟨fun _ => ⟨trivial, did_tick s⟩, fun _ => did_emit (did_tick s) _⟩

theorem send_spec (leaves : env.Leaves) (id : SegId) : Meets (send env id) s
    (fun _ s' => s.Did s.dir s') (fun stop s' => stop = .error .ioError ∧ s.Did s.dir s') := by
  simp only [send, meets_bind, fileName]
  refine tick_spec.imp ?_ (by simp)
  rintro t _ ⟨rfl, rfl⟩
  simp only [meets_get, meets_pure, meets_ite, meets_fail, emit, meets_modify, leaves s.ops,
    SendAction.apply]
  exact ⟨fun _ => ⟨trivial, did_tick s⟩, fun _ => did_emit (did_tick s) _⟩

/-- Closing the current file leaves it in place. -/
theorem closeAndSend_spec (leaves : env.Leaves) : Meets (closeAndSend env) s
    (fun _ s' => ({ s with current := none } : WriteState).Did s.dir s')
    (fun stop s' => stop = .error .ioError ∧ ({ s with current := none } : WriteState).Did s.dir s') := by
  simp only [closeAndSend, meets_bind, meets_get]
  cases current : s.current with
  | none =>
      refine ⟨?_, Nat.le_refl _⟩
      rw [← current]
  | some cur =>
      simp only [meets_bind, meets_modify]
      refine (flushFile_spec cur.id).imp (fun _ t did => ?_) fun _ _ failed => failed
      refine (send_spec leaves cur.id).imp (fun _ u did' => did.trans (did.dir_eq ▸ did')) ?_
      rintro stop u ⟨error, did'⟩
      exact ⟨error, did.trans (did.dir_eq ▸ did')⟩

/-! ## The clock -/

theorem now_spec : Meets (now env) s
    (fun reading s' => s.Did s.dir s' ∧ s.ops < s'.ops ∧ reading = env.reading s.clock s.ops ∧
      reading < u64Max)
    (fun stop s' => (∃ e, stop = .error e) ∧ s.Did s.dir s') := by
  simp only [now, meets_bind]
  refine tick_spec.imp ?_ (by simp)
  rintro t _ ⟨rfl, rfl⟩
  simp only [meets_get, meets_ite, meets_fail]
  refine ⟨fun _ => ⟨⟨_, rfl⟩, did_tick s⟩, fun _ => ?_⟩
  rw [stamp]
  split
  next small => exact ⟨did_tick s, Nat.lt_succ_self _, rfl, small⟩
  next => exact ⟨⟨_, rfl⟩, did_tick s⟩

theorem nowSegId_spec : Meets (nowSegId env) s
    (fun id s' => s.Did s.dir s' ∧ s.ops < s'.ops ∧ id.toNat = env.reading s.clock s.ops)
    (fun stop s' => (∃ e, stop = .error e) ∧ s.Did s.dir s') := by
  simp only [nowSegId, meets_bind]
  refine now_spec.imp ?_ fun _ _ failed => failed
  rintro reading t ⟨did, later, rfl, small⟩
  refine ⟨did, later, ?_⟩
  simp only [UInt64.toNat_ofNat']
  unfold u64Max at small
  omega

/-! ## Creating a file -/

theorem noteCollision_spec (collidedBefore : Bool) : Meets (noteCollision collidedBefore) s
    (fun _ s' => s.Did s.dir s') (fun _ _ => False) := by
  simp only [noteCollision, meets_bind, meets_get, meets_ite, meets_set, emit, meets_modify]
  exact ⟨fun _ => ⟨rfl, Nat.le_refl _⟩, fun _ => ⟨rfl, Nat.le_refl _⟩⟩

theorem createNew_spec (id : SegId) : Meets (createNew env id) s
    (fun creation s' => match creation with
      | .made => s.files id = none ∧
          s.Did (s.dir.insert (buildName s.namePrefix id s.nameSuffix) []) s'
      | .alreadyExists => (s.files id).isSome ∧ s.Did s.dir s'
      | .refused => s.Did s.dir s')
    (fun _ _ => False) := by
  simp only [createNew, meets_bind, fileName]
  refine tick_spec.imp ?_ (by simp)
  rintro t _ ⟨rfl, rfl⟩
  simp only [meets_get, meets_pure, meets_ite, meets_bind, emit, meets_modify]
  refine ⟨fun _ => did_tick s, fun _ => ⟨fun present => ⟨present, did_tick s⟩, fun absent => ?_⟩⟩
  exact ⟨by simpa [files, Dir.files] using absent, did_emit (did_tick s) _⟩

/-- A new file is named later than every file there. -/
structure FreshName (env : WriteEnv) (s : WriteState) (id : SegId) (s' : WriteState) : Prop where
  free : s.files id = none
  newest : ∀ a, (s.files a).isSome → a < id
  past : id.toNat ≤ env.reading s.clock s'.ops
  started : s.clock.delta ≤ id.toNat

theorem createUniqueFile_spec (attempts : Nat) (collidedBefore : Bool) (past : s.Past env) :
    Meets (createUniqueFile env attempts collidedBefore) s
      (fun id s' => FreshName env s id s' ∧
        s.Did (s.dir.insert (buildName s.namePrefix id s.nameSuffix) []) s')
      (fun stop s' => stop ≠ .panic ∧ s.Did s.dir s') := by
  induction attempts generalizing s collidedBefore with
  | zero => exact ⟨by simp, .refl s⟩
  | succ attempts ih =>
      simp only [createUniqueFile, meets_bind]
      refine nowSegId_spec.imp ?_ (by rintro stop _ ⟨⟨e, error⟩, did⟩; exact ⟨by simp [error], did⟩)
      rintro id t ⟨did, later, isReading⟩
      refine (createNew_spec id).imp ?_ (by simp)
      rintro creation u outcome
      cases creation with
      | refused => exact ⟨by simp, did.trans (did.dir_eq ▸ outcome)⟩
      | alreadyExists =>
          simp only [meets_bind]
          have did₁ : s.Did s.dir u := did.trans (did.dir_eq ▸ outcome.2)
          refine (noteCollision_spec collidedBefore).imp (fun _ v did₂ => ?_) (by simp)
          have did₃ : s.Did s.dir v := did₁.trans (did₁.dir_eq ▸ did₂)
          refine (ih true (did₃.past past)).imp ?_
            fun _ w failed => ⟨failed.1, did₃.trans (did₃.dir_eq ▸ failed.2)⟩
          rintro id' w ⟨named, did₄⟩
          have names : buildName v.namePrefix id' v.nameSuffix =
              buildName s.namePrefix id' s.nameSuffix := by rw [did₃.same]
          rw [names, did₃.dir_eq] at did₄
          refine ⟨⟨?_, ?_, ?_, ?_⟩, did₃.trans did₄⟩
          · rw [← did₃.files_same]
            exact named.free
          · rw [← did₃.files_same]
            exact named.newest
          · rw [← did₃.clock]
            exact named.past
          · rw [← did₃.clock]
            exact named.started
      | made =>
          obtain ⟨free, made⟩ := outcome
          have names : buildName t.namePrefix id t.nameSuffix =
              buildName s.namePrefix id s.nameSuffix := by rw [did.same]
          rw [names, did.dir_eq] at made
          rw [did.files_same] at free
          refine ⟨⟨free, fun a present => ?_, ?_, ?_⟩, did.trans made⟩
          · have le : a.toNat ≤ id.toNat := isReading ▸ past a present
            refine UInt64.lt_iff_toNat_lt.mpr (lt_of_le_of_ne le fun same => ?_)
            rw [UInt64.toNat_inj.mp same, free] at present
            contradiction
          · rw [isReading]
            exact env.reading_mono _ (did.later.trans made.later)
          · rw [isReading]
            exact Nat.le_add_right _ _

theorem writeAll_spec {id : SegId} {content : Bytes} (present : s.files id = some content)
    (bytes : Bytes) : Meets (writeAll env id bytes) s
      (fun done s' => ∃ front, s.Did (appendTo (buildName s.namePrefix id s.nameSuffix) front s.dir) s' ∧
        s'.files = Function.update s.files id (some (content ++ front)) ∧
        if done then front = bytes
        else ∃ n, front = bytes.take n ∧ (bytes = [] ∨ n < bytes.length))
      (fun _ _ => False) := by
  simp only [writeAll, meets_bind, fileName]
  refine tick_spec.imp ?_ (by simp)
  rintro t _ ⟨rfl, rfl⟩
  have changed (front : Bytes) : Dir.files (appendTo (buildName s.namePrefix id s.nameSuffix) front
      s.dir) s.namePrefix s.nameSuffix = Function.update s.files id (some (content ++ front)) :=
    Dir.files_appendTo present
  simp only [meets_get, meets_pure, meets_ite, meets_bind, emit, meets_modify]
  refine ⟨fun _ => ⟨_, did_emit (did_tick s) _, changed _, ?_⟩,
    fun _ => ⟨_, did_emit (did_tick s) _, changed _, rfl⟩⟩
  refine ⟨_, rfl, ?_⟩
  rcases Nat.eq_zero_or_pos bytes.length with none | some
  · exact .inl (List.eq_nil_of_length_eq_zero none)
  · exact .inr (by omega)

end Requests

end Tcslog
