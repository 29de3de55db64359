import Tcslog.Write.Steps

/-!
# What the requests of a writer do

Most requests of a writer create no file and change nothing that it knows.  A
file is named by the writer's clock, and a reading that names a file already
there is not used.
-/

namespace Tcslog

open Lib.Program WriteState

/-- The files created, in the order of their creation. -/
def createdIds (events : List WriteEvent) : List SegId :=
  events.filterMap fun
    | .created id => some id
    | _ => none

@[simp]
theorem createdIds_append (events events' : List WriteEvent) :
    createdIds (events ++ events') = createdIds events ++ createdIds events' :=
  List.filterMap_append

/-- Requests that create no file. -/
structure Plain (s s' : WriteState) : Prop where
  later : s.ops ≤ s'.ops
  clock : s'.clock = s.clock
  events : ∃ more, s'.events = s.events ++ more ∧ createdIds more = []

theorem Plain.of_eq {s t : WriteState} (ops : t.ops = s.ops) (clock : t.clock = s.clock)
    (events : t.events = s.events) : Plain s t :=
  ⟨ops.ge, clock, [], by rw [events, List.append_nil], rfl⟩

theorem Plain.refl (s : WriteState) : Plain s s :=
  .of_eq rfl rfl rfl

theorem Plain.trans {s t u : WriteState} (first : Plain s t) (second : Plain t u) : Plain s u := by
  obtain ⟨more, events, none⟩ := first.events
  obtain ⟨more', events', none'⟩ := second.events
  refine ⟨first.later.trans second.later, second.clock.trans first.clock, more ++ more', ?_, ?_⟩
  · rw [events', events, List.append_assoc]
  · rw [createdIds_append, none, none', List.append_nil]

theorem Plain.created {s s' : WriteState} (plain : Plain s s') :
    createdIds s'.events = createdIds s.events := by
  obtain ⟨more, events, none⟩ := plain.events
  rw [events, createdIds_append, none, List.append_nil]

/-- Requests that create no file and change nothing the writer knows but its
estimate of the clock's resolution. -/
structure Asked (s s' : WriteState) : Prop extends Plain s s' where
  same : s'.toLogWrite = { s.toLogWrite with timerResolution := s'.timerResolution }

theorem Asked.refl (s : WriteState) : Asked s s :=
  ⟨.refl s, rfl⟩

theorem Asked.trans {s t u : WriteState} (first : Asked s t) (second : Asked t u) : Asked s u :=
  ⟨first.toPlain.trans second.toPlain, by rw [second.same, first.same]⟩

/-- A file is named by a reading of the clock that names no file there, which is
the first reading if that names none. -/
structure Names (env : WriteEnv) (s : WriteState) (id : SegId) (s' : WriteState) : Prop where
  free : s.files id = none
  reading : ∃ t, s.ops ≤ t ∧ t < s'.ops ∧ id.toNat = env.reading s.clock t
  first : s.files (UInt64.ofNat (env.reading s.clock s.ops)) = none →
    id = UInt64.ofNat (env.reading s.clock s.ops)
  same : s'.toLogWrite = { s.toLogWrite with timerResolution := s'.timerResolution }
  events : ∃ more, s'.events = s.events ++ more ∧ createdIds more = [id]

theorem Names.clock {env : WriteEnv} {s s' : WriteState} {id : SegId} (names : Names env s id s') :
    s'.clock = s.clock := by
  rw [names.same]

theorem Names.created {env : WriteEnv} {s s' : WriteState} {id : SegId}
    (names : Names env s id s') : createdIds s'.events = createdIds s.events ++ [id] := by
  obtain ⟨more, events, one⟩ := names.events
  rw [events, createdIds_append, one]

/-! ## The requests of a writer -/

section Requests

variable (env : WriteEnv)

theorem asked_tick (s : WriteState) : Asked s { s with ops := s.ops + 1 } :=
  ⟨⟨Nat.le_succ _, rfl, [], (List.append_nil _).symm, rfl⟩, rfl⟩

theorem asked_emit {s t : WriteState} (asked : Asked s t) (event : WriteEvent) (dir : Dir)
    (silent : createdIds [event] = []) :
    Asked s { t with dir := dir, events := t.events ++ [event] } :=
  asked.trans ⟨⟨Nat.le_refl _, rfl, [event], rfl, silent⟩, rfl⟩

theorem flushFile_asked (id : SegId) : Preserves Asked (flushFile env id) := by
  intro s
  simp only [flushFile, meets_bind]
  refine tick_spec.imp ?_ (by simp)
  rintro t _ ⟨rfl, rfl⟩
  simp only [meets_ite, meets_fail, emit, meets_modify]
  exact ⟨fun _ => asked_tick s, fun _ => asked_emit (asked_tick s) _ _ rfl⟩

theorem recordComplete_asked (id : SegId) : Preserves Asked (recordComplete env id) := by
  intro s
  simp only [recordComplete, meets_bind]
  refine tick_spec.imp ?_ (by simp)
  rintro t _ ⟨rfl, rfl⟩
  simp only [meets_ite, meets_fail, emit, meets_modify]
  exact ⟨fun _ => asked_tick s, fun _ => asked_emit (asked_tick s) _ _ rfl⟩

theorem send_asked (id : SegId) : Preserves Asked (send env id) := by
  intro s
  simp only [send, meets_bind, fileName]
  refine tick_spec.imp ?_ (by simp)
  rintro t _ ⟨rfl, rfl⟩
  simp only [meets_get, meets_pure, meets_ite, meets_fail, emit, meets_modify]
  exact ⟨fun _ => asked_tick s, fun _ => asked_emit (asked_tick s) _ _ rfl⟩

theorem removeFile_asked (id : SegId) : Preserves Asked (removeFile env id) := by
  intro s
  simp only [removeFile, meets_bind, fileName]
  refine tick_spec.imp ?_ (by simp)
  rintro t _ ⟨rfl, rfl⟩
  simp only [meets_get, meets_pure, meets_ite, meets_fail, emit, meets_modify]
  exact ⟨fun _ => asked_tick s, fun _ => asked_emit (asked_tick s) _ _ rfl⟩

theorem scan_asked : Preserves Asked (scan env) := by
  intro s
  simp only [scan, meets_bind]
  refine tick_spec.imp ?_ (by simp)
  rintro t _ ⟨rfl, rfl⟩
  simp only [meets_get, meets_ite, meets_fail, meets_pure]
  exact ⟨fun _ => asked_tick s, fun _ => asked_tick s⟩

theorem writeAll_asked (id : SegId) (bytes : Bytes) : Preserves Asked (writeAll env id bytes) := by
  intro s
  simp only [writeAll, meets_bind, fileName]
  refine tick_spec.imp ?_ (by simp)
  rintro t _ ⟨rfl, rfl⟩
  simp only [meets_get, meets_pure, meets_ite, emit, meets_bind, meets_modify]
  exact ⟨fun _ => asked_emit (asked_tick s) _ _ rfl, fun _ => asked_emit (asked_tick s) _ _ rfl⟩

theorem now_asked : Preserves Asked (now env) := by
  intro s
  simp only [now, meets_bind]
  refine tick_spec.imp ?_ (by simp)
  rintro t _ ⟨rfl, rfl⟩
  simp only [meets_get, meets_ite, meets_fail]
  refine ⟨fun _ => asked_tick s, fun _ => ?_⟩
  exact meets_liftExcept (fun _ _ => asked_tick s) fun _ _ => asked_tick s

theorem noteCollision_asked (collided : Bool) : Preserves Asked (noteCollision collided) := by
  intro s
  simp only [noteCollision, meets_bind, meets_get, meets_ite, meets_set, emit, meets_modify]
  refine ⟨fun _ => ?_, fun _ => asked_emit (.refl s) _ _ rfl⟩
  exact ⟨⟨Nat.le_refl _, rfl, [_, _], List.append_assoc .., rfl⟩, rfl⟩

theorem nowSegId_asked : Preserves Asked (nowSegId env) :=
  .bind (now_asked env) (fun _ => .pure .refl _) .trans .trans

/-- What an attempt to create a file makes of the files created. -/
theorem createNew_creates (id : SegId) (s : WriteState) : Meets (createNew env id) s
    (fun creation t => s.ops < t.ops ∧ t.toLogWrite = s.toLogWrite ∧
      t.events = s.events ++ if creation = .made then [.created id] else [])
    (fun _ _ => False) := by
  simp only [createNew, meets_bind, fileName]
  refine tick_spec.imp ?_ (by simp)
  rintro t _ ⟨rfl, rfl⟩
  simp only [meets_get, meets_pure, meets_ite, meets_bind, emit, meets_modify]
  refine ⟨fun _ => ?_, fun _ => ⟨fun _ => ?_, fun _ => ?_⟩⟩
  · exact ⟨Nat.lt_succ_self _, trivial, by simp⟩
  · exact ⟨Nat.lt_succ_self _, trivial, by simp⟩
  · exact ⟨Nat.lt_succ_self _, trivial, by simp⟩

theorem createUniqueFile_names (attempts : Nat) (collided : Bool) (s : WriteState) :
    Meets (createUniqueFile env attempts collided) s (fun id t => Names env s id t)
      (fun _ t => Asked s t) := by
  induction attempts generalizing s collided with
  | zero => exact .refl s
  | succ attempts ih =>
      rw [createUniqueFile, meets_bind]
      refine ((nowSegId_spec (s := s)).and (nowSegId_asked env s)).imp ?_ fun _ _ failed => failed.2
      rintro id t ⟨⟨did, later, isReading⟩, asked⟩
      rw [meets_bind]
      refine ((createNew_spec (s := t) id).and (createNew_creates env id t)).imp ?_ (by simp)
      rintro creation u ⟨outcome, after, same, events⟩
      have idEq : UInt64.ofNat (env.reading s.clock s.ops) = id := by
        rw [← isReading, UInt64.ofNat_toNat]
      have waited (more : List WriteEvent) (events : u.events = t.events ++ more)
          (none : createdIds more = []) : Asked s u := by
        refine asked.trans ⟨⟨after.le, by rw [same], more, events, none⟩, ?_⟩
        rw [same]
      cases creation with
      | refused => exact waited [] events rfl
      | made =>
          refine ⟨?_, ⟨s.ops, Nat.le_refl _, later.trans after, isReading⟩, fun _ => idEq.symm,
            by rw [same, asked.same], ?_⟩
          · rw [← did.files_same]
            exact outcome.1
          · obtain ⟨more, earlier, none⟩ := asked.events
            refine ⟨more ++ [.created id], ?_, by rw [createdIds_append, none]; rfl⟩
            rw [events, earlier, if_pos rfl, List.append_assoc]
      | alreadyExists =>
          rw [meets_bind]
          refine ((noteCollision_spec collided).and (noteCollision_asked collided u)).imp ?_ (by simp)
          rintro _ v ⟨did₂, asked₂⟩
          have didU : s.Did s.dir u := did.trans (did.dir_eq ▸ outcome.2)
          have didV : s.Did s.dir v := didU.trans (didU.dir_eq ▸ did₂)
          have askedV : Asked s v := (waited [] events rfl).trans asked₂
          refine (ih true v).imp ?_ fun _ w failed => askedV.trans failed
          intro id' w names
          obtain ⟨n, le, lt, reading⟩ := names.reading
          refine ⟨?_, ⟨n, askedV.later.trans le, lt, ?_⟩, fun free => ?_, ?_, ?_⟩
          · rw [← didV.files_same]
            exact names.free
          · rw [reading, askedV.clock]
          · have present := outcome.1
            rw [did.files_same, ← idEq, free] at present
            contradiction
          · rw [names.same, askedV.same]
          · obtain ⟨more, earlier, none⟩ := askedV.events
            obtain ⟨more', later', one⟩ := names.events
            refine ⟨more ++ more', ?_, by rw [createdIds_append, none, one]; rfl⟩
            rw [later', earlier, List.append_assoc]

/-- A file created becomes the current one, empty, and gives a session it opens
its identifier. -/
theorem createSegment_opens (opensSession : Bool) (s : WriteState) :
    Meets (createSegment env opensSession) s
      (fun _ t => ∃ id : SegId, id.toNat ≤ env.reading s.clock t.ops ∧
        t.toLogWrite = { s.toLogWrite with
          timerResolution := t.timerResolution, current := some ⟨id, 0⟩
          sessionId := if opensSession then id else s.sessionId })
      (fun _ t => t.toLogWrite = { s.toLogWrite with
        timerResolution := t.timerResolution
        sessionId := if opensSession then t.sessionId else s.sessionId }) := by
  rw [createSegment, meets_bind]
  refine (createUniqueFile_names env _ _ s).imp (fun id t names => ?_) fun _ t asked => ?_
  · simp only [meets_bind, meets_modify, meets_get]
    have same := names.same
    refine (writeAll_asked env id _ _).imp (fun done u step => ?_) fun _ u step => ?_
    · obtain ⟨n, later, before, isReading⟩ := names.reading
      have kept := step.same
      cases done with
      | true =>
          refine ⟨id, isReading ▸ env.reading_mono _ (before.le.trans step.later), ?_⟩
          change ({ u.toLogWrite with current := some ⟨id, 0⟩ } : LogWrite) = _
          rw [kept, same]
      | false =>
          change u.toLogWrite = _
          rw [kept, same]
          cases opensSession <;> rfl
    · rw [step.same, same]
      cases opensSession <;> rfl
  · rw [asked.same]
    cases opensSession <;> rfl

end Requests

end Tcslog
