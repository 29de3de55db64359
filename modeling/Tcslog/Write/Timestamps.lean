import Tcslog.Write.Traces

/-!
# One clock for identifiers and timestamps

Files are named and records stamped by readings of one clock, taken in the order
in which files are created and records begun.
-/

namespace Tcslog

open Lib.Program Lib.LittleEndian WriteState

/-- The current file has no more bytes than it may, and was named in the past. -/
structure Orderly (env : WriteEnv) (s : WriteState) : Prop where
  roomy : segmentFileHeaderLen < s.segSizeMax.toNat
  fits : ∀ cur, s.current = some cur → segmentFileHeaderLen + cur.dataWritten ≤ s.segSizeMax.toNat
  dated : ∀ cur, s.current = some cur → cur.id.toNat ≤ env.reading s.clock s.ops

/-- The writer went on, and named no file earlier than its clock read before. -/
structure Timely (env : WriteEnv) (s s' : WriteState) : Prop where
  later : s.ops ≤ s'.ops
  clock : s'.clock = s.clock
  events : ∃ more, s'.events = s.events ++ more ∧
    ∀ id ∈ createdIds more, env.reading s.clock s.ops ≤ id.toNat
  orderly : Orderly env s → Orderly env s'

section Timely

variable {env : WriteEnv} {s t u : WriteState}

/-- Files named later than the clock read at first. -/
theorem later_names {more more' : List WriteEvent} (later : s.ops ≤ t.ops) (clock : t.clock = s.clock)
    (after : ∀ id ∈ createdIds more, env.reading s.clock s.ops ≤ id.toNat)
    (after' : ∀ id ∈ createdIds more', env.reading t.clock t.ops ≤ id.toNat) :
    ∀ id ∈ createdIds (more ++ more'), env.reading s.clock s.ops ≤ id.toNat := by
  intro id mem
  rw [createdIds_append, List.mem_append] at mem
  rcases mem with early | late
  · exact after id early
  · rw [clock] at after'
    exact (env.reading_mono _ later).trans (after' id late)

theorem Timely.trans (first : Timely env s t) (second : Timely env t u) : Timely env s u := by
  obtain ⟨more, events, after⟩ := first.events
  obtain ⟨more', events', after'⟩ := second.events
  exact ⟨first.later.trans second.later, second.clock.trans first.clock,
    ⟨more ++ more', by rw [events', events, List.append_assoc],
      later_names first.later first.clock after after'⟩,
    fun orderly => second.orderly (first.orderly orderly)⟩

theorem Plain.timely (plain : Plain s t) (orderly : Orderly env s → Orderly env t) :
    Timely env s t := by
  obtain ⟨more, events, none⟩ := plain.events
  exact ⟨plain.later, plain.clock, ⟨more, events, by simp [none]⟩, orderly⟩

theorem Asked.timely (asked : Asked s t) : Timely env s t := by
  have same := asked.same
  refine asked.toPlain.timely fun orderly => ⟨?_, fun cur current => ?_, fun cur current => ?_⟩
  · rw [same]
    exact orderly.roomy
  · rw [same] at current ⊢
    exact orderly.fits cur current
  · rw [same] at current
    rw [asked.clock]
    exact (orderly.dated cur current).trans (env.reading_mono _ asked.later)

theorem createSegment_timely (opensSession : Bool) :
    Preserves (Timely env) (createSegment env opensSession) := by
  have timed : Covers env fun s t => s.ops ≤ t.ops ∧ t.clock = s.clock ∧
      ∃ more, t.events = s.events ++ more ∧
        ∀ id ∈ createdIds more, env.reading s.clock s.ops ≤ id.toNat := by
    refine ⟨?_, fun plain => ?_, fun names => ?_⟩
    · rintro s t u ⟨later, clock, more, events, after⟩ ⟨later', clock', more', events', after'⟩
      exact ⟨later.trans later', clock'.trans clock, more ++ more',
        by rw [events', events, List.append_assoc], later_names later clock after after'⟩
    · obtain ⟨more, events, none⟩ := plain.events
      exact ⟨plain.later, plain.clock, more, events, by simp [none]⟩
    · obtain ⟨n, later, before, isReading⟩ := names.reading
      obtain ⟨more, events, one⟩ := names.events
      refine ⟨later.trans before.le, names.clock, more, events, fun id mem => ?_⟩
      rw [one, List.mem_singleton] at mem
      rw [mem, isReading]
      exact env.reading_mono _ later
  intro s
  refine ((timed.createSegment env opensSession s).and (createSegment_opens env opensSession s)).imp ?_ ?_
  · rintro _ t ⟨⟨later, clock, events⟩, id, dated, same⟩
    refine ⟨later, clock, events, fun orderly => ⟨?_, fun cur current => ?_, fun cur current => ?_⟩⟩
    · rw [same]
      exact orderly.roomy
    · rw [same] at current ⊢
      obtain rfl := Option.some.inj current
      exact orderly.roomy.le
    · rw [same] at current
      obtain rfl := Option.some.inj current
      rw [clock]
      exact dated
  · rintro _ t ⟨⟨later, clock, events⟩, same⟩
    refine ⟨later, clock, events, fun orderly => ⟨?_, fun cur current => ?_, fun cur current => ?_⟩⟩
    · rw [same]
      exact orderly.roomy
    · rw [same] at current ⊢
      exact orderly.fits cur current
    · rw [same] at current
      rw [clock]
      exact (orderly.dated cur current).trans (env.reading_mono _ later)

theorem Orderly.timely (orderly : Orderly env s → Orderly env t) (ops : t.ops = s.ops)
    (clock : t.clock = s.clock) (events : t.events = s.events) : Timely env s t :=
  (Plain.of_eq ops clock events).timely orderly

theorem timely_follows (env : WriteEnv) : FollowsAll env (Timely env) := by
  have asks {α : Type} {x : WriteM α} (asked : Preserves Asked x) : Preserves (Timely env) x :=
    fun s => (asked s).imp (fun _ _ step => step.timely) fun _ _ step => step.timely
  exact {
    refl := fun s => (Asked.refl s).timely
    trans := Timely.trans
    createSegment := createSegment_timely false
    openSegment := createSegment_timely true
    writeAll := fun id bytes => asks (writeAll_asked env id bytes)
    flushFile := fun id => asks (flushFile_asked env id)
    send := fun id => asks (send_asked env id)
    close := fun s => Orderly.timely
      (fun orderly => ⟨orderly.roomy, fun _ isOpen => (nomatch isOpen), fun _ isOpen => (nomatch isOpen)⟩)
      rfl rfl rfl
    wrote := fun {s cur} current take fits => by
      refine Orderly.timely (fun orderly => ?_) rfl rfl rfl
      refine ⟨orderly.roomy, fun cur' current' => ?_, fun cur' current' => ?_⟩
      · obtain rfl := Option.some.inj current'
        rw [← Nat.add_assoc]
        exact fits (orderly.fits cur current)
      · obtain rfl := Option.some.inj current'
        exact orderly.dated cur current
    book := fun s _ _ => Orderly.timely
      (fun orderly => ⟨orderly.roomy, orderly.fits, orderly.dated⟩) rfl rfl rfl
    now := asks (now_asked env)
    recordComplete := fun id => asks (recordComplete_asked env id)
    removeFile := fun id => asks (removeFile_asked env id)
    scan := asks (scan_asked env)
    note := fun s _ _ => Orderly.timely
      (fun orderly => ⟨orderly.roomy, orderly.fits, orderly.dated⟩) rfl rfl rfl }

end Timely

/-! ## The file a record begins in -/

section Begins

variable {env : WriteEnv} {s t u : WriteState} {cur : Current}

theorem rollIfFull_room (orderly : Orderly env s) : Meets (rollIfFull env) s
    (fun _ t => ∃ cur, t.current = some cur ∧
      segmentFileHeaderLen + cur.dataWritten < t.segSizeMax.toNat) (fun _ _ => True) := by
  have rolls : Meets (roll env) s (fun _ t => ∃ id, t.current = some ⟨id, 0⟩) (fun _ _ => True) := by
    rw [roll, meets_bind]
    refine meets_true.imp (fun _ t _ => ?_) fun _ _ _ => trivial
    rw [meets_bind, meets_modify]
    refine (createSegment_opens env false _).imp (fun _ u opens => ?_) fun _ _ _ => trivial
    obtain ⟨id, -, same⟩ := opens
    exact ⟨id, by rw [same]⟩
  rw [rollIfFull, meets_bind]
  refine (room_left env s).imp ?_ fun _ _ _ => trivial
  rintro n s ⟨rfl, left⟩
  rw [meets_ite]
  refine ⟨fun _ => ?_, fun some => ?_⟩
  · refine (rolls.and ((timely_follows env).toWrites.roll s)).imp ?_ fun _ _ _ => trivial
    rintro _ t ⟨⟨id, current⟩, timely⟩
    exact ⟨_, current, (timely.orderly orderly).roomy⟩
  · cases current : s.current with
    | none =>
        rw [current] at left
        exact absurd left some
    | some cur =>
        rw [current] at left
        have := left (orderly.fits cur current)
        refine ⟨cur, current, ?_⟩
        omega

/-- The first request of a run appends some first bytes of `data` to the file
`id`. -/
def Appends (R : WriteState → WriteState → Prop) (id : SegId) (data : Bytes) (s t : WriteState) :
    Prop :=
  ∃ chunk u, chunk <+: data ∧ Plain s u ∧ u.events = s.events ++ [.appended id chunk] ∧
    R s u ∧ R u t

theorem Appends.onward {R : WriteState → WriteState → Prop} {id : SegId} {data : Bytes}
    (appends : Appends R id data s t) (follows : Follows env R) (step : R t u) :
    Appends R id data s u := by
  obtain ⟨chunk, w, first, plain, event, before, after⟩ := appends
  exact ⟨chunk, w, first, plain, event, before, follows.trans after step⟩

/-- The first bytes stored go to the current file, as long as it has room. -/
theorem writeBytes_first {R : WriteState → WriteState → Prop} (follows : Follows env R)
    {data : Bytes} (more : data ≠ []) (current : s.current = some cur)
    (space : segmentFileHeaderLen + cur.dataWritten < s.segSizeMax.toNat) :
    Meets (writeBytes env data) s (fun _ t => Appends R cur.id data s t)
      (fun _ t => Appends R cur.id data s t) := by
  have roomThere : Meets (room env) s (fun n t => t = s ∧ n ≠ 0) (fun _ _ => False) := by
    refine (room_left env s).imp ?_ ?_
    · rintro n s ⟨rfl, left⟩
      rw [current] at left
      have := left space.le
      exact ⟨rfl, by omega⟩
    · rintro _ _ ⟨_, cur', current', less⟩
      obtain rfl := Option.some.inj (current.symm.trans current')
      omega
  have chunk : Meets (writeChunk env data) s (fun _ t => Appends R cur.id data s t)
      (fun _ t => Appends R cur.id data s t) := by
    rw [writeChunk, meets_bind, rollIfFull, meets_bind]
    refine roomThere.imp ?_ (by simp)
    rintro n s ⟨rfl, more⟩
    rw [meets_ite]
    refine ⟨fun none => absurd none more, fun _ => ?_⟩
    rw [meets_pure, meets_bind]
    refine ((room_left env s).and roomThere).imp ?_ (by simp)
    rintro n s ⟨⟨-, left⟩, rfl, -⟩
    rw [current] at left
    rw [meets_bind, meets_get, current, meets_bind]
    refine (((writeAll_asked env cur.id _ s).and (writeAll_adds env cur.id _ s)).and
      ((writeAll_same env cur.id _ s).and (follows.writeAll cur.id _ s))).imp ?_ (by simp)
    rintro done u ⟨⟨asked, bytes, first, -, event⟩, same, step⟩
    have appends : Appends R cur.id data s u :=
      ⟨bytes, u, first.trans (List.take_prefix _ _), asked.toPlain, event, step, follows.refl u⟩
    have stillOpen : u.current = some cur := by rw [same, current]
    cases done with
    | true =>
        have wrote := follows.wrote stillOpen (min n data.length) fun fits => by
          rw [same] at fits ⊢
          have := left fits
          omega
        exact appends.onward follows (follows.trans wrote (follows.book _ u.sequence
          (u.recordBytesLeft - min n data.length)))
    | false =>
        simp only [Bool.false_eq_true, if_false, meets_bind, meets_fail]
        exact (follows.toStores.abandonAfterError u).imp (fun _ _ step => appends.onward follows step)
          fun _ _ step => appends.onward follows step
  rw [writeBytes, dif_neg more, meets_bind]
  refine chunk.imp (fun n t appends => ?_) fun _ _ appends => appends
  split
  · exact appends
  · exact (follows.toStores.writeBytes _ t).imp (fun _ v step => appends.onward follows step)
      fun _ v step => appends.onward follows step

theorem storeBytes_first {R : WriteState → WriteState → Prop} (follows : FollowsAll env R)
    (msg : Bytes) (total : Nat) {built : Bytes × Meta} (more : built.1 ≠ [])
    (current : s.current = some cur)
    (space : segmentFileHeaderLen + cur.dataWritten < s.segSizeMax.toNat) :
    Meets (storeBytes env msg total built) s (fun _ t => Appends R cur.id built.1 s t)
      (fun _ t => Appends R cur.id built.1 s t) := by
  have before (t : WriteState)
      (appends : Appends R cur.id built.1 { s with recordBytesLeft := total } t) :
      Appends R cur.id built.1 s t := by
    obtain ⟨chunk, u, first, plain, event, step, after⟩ := appends
    have start : Plain s { s with recordBytesLeft := total } := .of_eq rfl rfl rfl
    exact ⟨chunk, u, first, start.trans plain, event,
      follows.trans (follows.book s s.sequence total) step, after⟩
  rw [storeBytes, meets_bind, meets_modify, meets_bind]
  refine (writeBytes_first follows.toFollows (s := { s with recordBytesLeft := total }) more current
    space).imp (fun _ t appends => ?_) fun _ t appends => before t appends
  rw [meets_bind]
  refine (follows.toWrites.writeBytes msg t).imp (fun _ v step => ?_) fun _ v step =>
    (before t appends).onward follows.toFollows step
  rw [meets_modify]
  exact (before t appends).onward follows.toFollows
    (follows.trans step (follows.note v v.recordCount built.2))

/-- A record's header, with its timestamp, begins in the current file, which was
named no later, while files created from then on were named no earlier. -/
def Placed (e : Entry) (events : List WriteEvent) : Prop :=
  ∃ cur chunk rest, e.state.current = some cur ∧ chunk <+: e.built ∧
    events = e.state.events ++ .appended cur.id chunk :: rest ∧
    cur.id.toNat ≤ e.ts.toNat ∧ ∀ id ∈ createdIds rest, e.ts.toNat ≤ id.toNat

/-- What holds of a record's timestamp once the writer has gone on. -/
structure Stamped (env : WriteEnv) (e : Entry) (s : WriteState) : Prop where
  past : e.ts.toNat ≤ env.reading s.clock s.ops
  header : ∃ count, e.built = toLE 4 e.msg.length ++ toLE 8 e.ts.toNat ++ count
  placed : Placed e s.events

theorem Stamped.later {e : Entry} (stamped : Stamped env e s) (timely : Timely env s t) :
    Stamped env e t := by
  obtain ⟨cur, chunk, rest, current, first, events, dated, after⟩ := stamped.placed
  obtain ⟨more, events', after'⟩ := timely.events
  refine ⟨?_, stamped.header, cur, chunk, rest ++ more, current, first, ?_, dated, fun id mem => ?_⟩
  · rw [timely.clock]
    exact stamped.past.trans (env.reading_mono _ timely.later)
  · rw [events', events, List.append_assoc]
    rfl
  · rw [createdIds_append, List.mem_append] at mem
    rcases mem with early | late
    · exact after id early
    · exact stamped.past.trans (after' id late)

/-- A record begun is stamped no earlier than the clock read before. -/
theorem Began.stamped {msg : Bytes} {v u s' : WriteState} {e : Entry}
    (began : Began env s msg v u e s') (orderly : Orderly env s) :
    Timely env s s' ∧ Stamped env e s' ∧ env.reading s.clock s.ops ≤ e.ts.toNat := by
  have follows := timely_follows env
  have before : Timely env s u :=
    (follows.toWrites.ensureSession.ok began.session).trans (follows.toWrites.rollIfFull.ok began.file)
  obtain ⟨cur, current, space⟩ :=
    (rollIfFull_room ((follows.toWrites.ensureSession.ok began.session).orderly orderly)).of_ok began.file
  have ordered := before.orderly orderly
  have minted := began.minted
  have state := minted.state
  have built : Timely env u e.state := by
    rw [state]
    exact (asked_tick u).timely.trans
      (follows.note { u with ops := u.ops + 1 } (u.recordCount + 1) u.lastMeta)
  have read : e.ts.toNat ≤ env.reading e.state.clock e.state.ops := by
    rw [minted.reading, ← built.clock]
    exact env.reading_mono _ built.later
  have more : (e.built, Meta.variableTsRc e.ts e.rc).1 ≠ [] := by
    apply List.ne_nil_of_length_pos
    rw [minted.header]
    simp
  have currentThere : e.state.current = some cur := by rw [state, current]
  have spaceThere : segmentFileHeaderLen + cur.dataWritten < e.state.segSizeMax.toNat := by
    rw [state]
    exact space
  obtain ⟨result, ending, whole⟩ := began.stores
  obtain ⟨chunk, w, first, plain, event, stored, after⟩ := ending_meets (storeBytes_first follows
    msg (s.format.dataHeaderLen + msg.length) more currentThere spaceThere)
  rw [ending] at after
  have noticed : Timely env e.after s' := by
    rw [began.notices]
    split
    · exact ending_meets (follows.toWrites.noticeComplete e.after)
    · exact follows.refl e.after
  have reads : e.ts.toNat ≤ env.reading w.clock w.ops := by
    rw [plain.clock]
    exact read.trans (env.reading_mono _ plain.later)
  have stamped : Stamped env e w := by
    have header : ∃ count, e.built = toLE 4 e.msg.length ++ toLE 8 e.ts.toNat ++ count :=
      ⟨_, began.message ▸ minted.header⟩
    refine ⟨reads, header, cur, chunk, [], currentThere, first, event, ?_, by simp [createdIds]⟩
    rw [minted.reading]
    exact ordered.dated cur current
  have after := Timely.trans after noticed
  refine ⟨(before.trans built).trans (stored.trans after), stamped.later after, ?_⟩
  rw [minted.reading, before.clock]
  exact env.reading_mono _ before.later

end Begins

/-! ## The clock of a new writer -/

section Opens

variable {env : WriteEnv} {s t : WriteState}

theorem advancePast_passes (id : SegId) : Meets (advancePast env id) s
    (fun _ t => s.ops ≤ t.ops ∧ createdIds t.events = createdIds s.events ∧
      (∃ clock, t.toLogWrite = { s.toLogWrite with
        timerResolution := t.timerResolution, clock := clock }) ∧
      id.toNat < env.reading t.clock t.ops)
    (fun _ t => s.ops ≤ t.ops ∧ createdIds t.events = createdIds s.events) := by
  rw [advancePast, meets_bind]
  refine meets_liftExcept (fun _ _ => ?_) fun _ _ => ⟨Nat.le_refl _, rfl⟩
  rw [meets_bind]
  refine (now_exact env s).imp ?_ (by rintro _ _ rfl; exact ⟨Nat.le_succ _, rfl⟩)
  rintro reading _ ⟨rfl, rfl, small⟩
  have reads : env.reading s.clock s.ops ≤ env.reading s.clock (s.ops + 1) :=
    env.reading_mono _ (Nat.le_succ _)
  rw [meets_ite]
  refine ⟨fun behind => ?_, fun past => ?_⟩
  · rw [meets_bind, meets_get, meets_bind]
    refine meets_liftExcept (fun delta stamped => ?_) fun _ _ => ⟨Nat.le_succ _, rfl⟩
    rw [stamp] at stamped
    split at stamped
    · obtain rfl := Except.ok.inj stamped
      refine ⟨Nat.le_succ _, rfl, ⟨_, rfl⟩, ?_⟩
      change id.toNat < s.clock.delta + (id.toNat - env.reading s.clock s.ops) + 1 +
        (env.instant (s.ops + 1) - s.clock.mono)
      unfold WriteEnv.reading at *
      omega
    · contradiction
  · refine ⟨Nat.le_succ _, rfl, ⟨s.clock, rfl⟩, ?_⟩
    change id.toNat < env.reading s.clock (s.ops + 1)
    omega

/-- Before it creates a file, a writer's clock is past every file there. -/
theorem prepare_passes (args : NewArgs) : Meets (LogWrite.prepare env args) s
    (fun _ t => createdIds t.events = createdIds s.events ∧
      segmentFileHeaderLen + args.format.dataHeaderLen < args.segSizeMax.toNat ∧
      (∃ clock, t.toLogWrite = { LogWrite.fresh env args clock with
        timerResolution := t.timerResolution }) ∧
      ∀ a ∈ scanSegmentIds s.dir args.namePrefix args.nameSuffix,
        a.toNat < env.reading t.clock t.ops)
    (fun _ t => createdIds t.events = createdIds s.events) := by
  have clockNew : Meets (Clock.new env args.sinceEpoch) s
      (fun _ t => t = { s with ops := s.ops + 1 })
      (fun _ t => createdIds t.events = createdIds s.events) := by
    cases args.sinceEpoch with
    | none => exact rfl
    | some ns =>
        rw [Clock.new, meets_bind]
        refine tick_spec.imp ?_ (by simp)
        rintro t _ ⟨rfl, rfl⟩
        exact meets_liftExcept (fun _ _ => rfl) fun _ _ => rfl
  simp only [LogWrite.prepare, meets_ite, meets_fail]
  refine ⟨fun _ => trivial, fun _ => ⟨fun _ => trivial, fun size => ⟨fun _ => trivial, fun _ => ?_⟩⟩⟩
  rw [meets_bind]
  refine clockNew.imp ?_ fun _ _ created => created
  rintro clock _ rfl
  rw [meets_bind]
  refine meets_liftExcept (fun _ _ => ?_) fun _ _ => rfl
  rw [meets_bind, meets_modify, meets_bind, forEachSegmentFile, meets_bind]
  refine (scan_spec.and (scan_asked env _)).imp ?_ fun _ _ failed => failed.2.created
  rintro ids u ⟨⟨isScan, -⟩, asked⟩
  rw [meets_bind]
  refine (preserves_forM .refl .trans (send_asked env) ids u).imp (fun _ v asked' => ?_)
    fun _ _ asked' => (asked.trans asked').created
  have both := asked.trans asked'
  rw [meets_pure]
  cases last : ids.getLast? with
  | none =>
      have none : scanSegmentIds s.dir args.namePrefix args.nameSuffix = [] :=
        isScan.symm.trans (List.getLast?_eq_none_iff.mp last)
      exact ⟨both.created, by omega, ⟨clock, both.same⟩, by simp [none]⟩
  | some highest =>
      refine (advancePast_passes highest).imp ?_ fun _ w failed => failed.2.trans both.created
      rintro _ w ⟨-, created, ⟨clock', same⟩, past⟩
      refine ⟨created.trans both.created, by omega, ⟨clock', ?_⟩, fun a mem => ?_⟩
      · rw [same, both.same]
        rfl
      · have le := UInt64.le_iff_toNat_le.mp (le_getLast (isScan ▸ last) mem)
        exact le.trans_lt past

end Opens

/-! ## A whole run -/

section Keeps

variable {env : WriteEnv} {p : WriteState}

/-- What holds of a diary whose writer was in the state `p` when its clock had
been set. -/
structure Diary.InOrder (env : WriteEnv) (p : WriteState) (diary : Diary) : Prop where
  timely : Timely env p diary.trail.state
  orderly : Orderly env diary.trail.state
  stamped : ∀ e ∈ diary.entries, Stamped env e diary.trail.state
  late : ∀ e ∈ diary.entries, env.reading p.clock p.ops ≤ e.ts.toNat
  ordered : diary.entries.Pairwise fun e e' => e.ts ≤ e'.ts

theorem Diary.InOrder.call {diary : Diary} (inOrder : diary.InOrder env p) (c : Call) :
    (diary.call env c).InOrder env p := by
  rcases Diary.call_cases env diary c with same | ⟨msg, v, u, e, -, one, began⟩
  · have step : Timely env diary.trail.state (diary.call env c).trail.state := by
      rw [Diary.trail_call]
      exact (timely_follows env).call diary.trail c
    refine ⟨inOrder.timely.trans step, step.orderly inOrder.orderly, ?_, ?_, ?_⟩
    · rw [same]
      exact fun e mem => (inOrder.stamped e mem).later step
    · rw [same]
      exact inOrder.late
    · rw [same]
      exact inOrder.ordered
  · obtain ⟨step, stamped, notBefore⟩ := began.stamped inOrder.orderly
    refine ⟨inOrder.timely.trans step, step.orderly inOrder.orderly, ?_, ?_, ?_⟩
    · rw [one]
      intro e' mem
      rcases List.mem_append.mp mem with earlier | last
      · exact (inOrder.stamped e' earlier).later step
      · rwa [List.mem_singleton.mp last]
    · rw [one]
      intro e' mem
      rcases List.mem_append.mp mem with earlier | last
      · exact inOrder.late e' earlier
      · rw [List.mem_singleton.mp last]
        rw [inOrder.timely.clock] at notBefore
        exact (env.reading_mono _ inOrder.timely.later).trans notBefore
    · rw [one, List.pairwise_append]
      refine ⟨inOrder.ordered, List.pairwise_singleton _ _, fun e' mem e'' last => ?_⟩
      rw [List.mem_singleton.mp last]
      exact UInt64.le_iff_toNat_le.mpr ((inOrder.stamped e' mem).past.trans notBefore)

theorem Diary.InOrder.calls {diary : Diary} (inOrder : diary.InOrder env p) (calls : List Call) :
    (calls.foldl (Diary.call env) diary).InOrder env p := by
  induction calls generalizing diary with
  | nil => exact inOrder
  | cons c calls ih => exact ih (inOrder.call c)

end Keeps

/-- Over one writer's run timestamps do not decrease, each lies between the
identifier of the file its record begins in and those of the files created later,
and all of both are past every file that was there when the writer was opened. -/
theorem timestamps_interleave (env : WriteEnv) (dir : Dir) (life : Life) :
    let entries := (Diary.keep env dir life).entries
    let events := (Trail.run env dir [life]).state.events
    (entries.Pairwise fun e e' => e.ts ≤ e'.ts) ∧
      (∀ e ∈ entries, (∃ count, e.built = toLE 4 e.msg.length ++ toLE 8 e.ts.toNat ++ count) ∧
        Placed e events) ∧
      ∀ a ∈ scanSegmentIds dir life.args.namePrefix life.args.nameSuffix,
        (∀ id ∈ createdIds events, a < id) ∧ ∀ e ∈ entries, a < e.ts := by
  have follows := timely_follows env
  change _ ∧ _ ∧ _
  have none : createdIds (Trail.start dir).state.events = [] := rfl
  have opens := LogWrite.new_eq env life.args
  rw [Trail.run, List.foldl_cons, List.foldl_nil]
  cases prepared : (LogWrite.prepare env life.args).run (Trail.start dir).state with
  | error stop p =>
      have created := (prepare_passes life.args).of_error prepared
      have ran : (LogWrite.new env life.args).run (Trail.start dir).state = .error stop p := by
        rw [opens, EStateM.run_bind, prepared]
      rw [Trail.live_of_error ran, Diary.keep_of_error ran]
      refine ⟨.nil, by simp, fun a mem => ⟨?_, by simp⟩⟩
      simp [created, none]
  | ok _ p =>
      obtain ⟨created, size, ⟨clock, fresh⟩, past⟩ := (prepare_passes life.args).of_ok prepared
      have orderly : Orderly env p := by
        refine ⟨?_, fun cur current => ?_, fun cur current => ?_⟩
        · rw [fresh]
          exact (Nat.le_add_right _ _).trans_lt size
        · rw [fresh] at current
          contradiction
        · rw [fresh] at current
          contradiction
      have later {t : WriteState} (timely : Timely env p t) (a : SegId)
          (mem : a ∈ scanSegmentIds dir life.args.namePrefix life.args.nameSuffix) :
          ∀ id ∈ createdIds t.events, a < id := by
        obtain ⟨more, events, after⟩ := timely.events
        intro id mem'
        rw [events, createdIds_append, created, none, List.nil_append] at mem'
        exact UInt64.lt_iff_toNat_lt.mpr ((past a mem).trans_le (after id mem'))
      cases started : (startSession env).run p with
      | error stop t =>
          have ran : (LogWrite.new env life.args).run (Trail.start dir).state = .error stop t := by
            rw [opens, EStateM.run_bind, prepared]
            exact started
          rw [Trail.live_of_error ran, Diary.keep_of_error ran]
          exact ⟨.nil, by simp, fun a mem => ⟨later (follows.startSession.error started) a mem, by simp⟩⟩
      | ok a t =>
          have ran : (LogWrite.new env life.args).run (Trail.start dir).state = .ok a t := by
            rw [opens, EStateM.run_bind, prepared]
            exact started
          have timely := follows.startSession.ok started
          have inOrder : Diary.InOrder env p (life.calls.foldl (Diary.call env)
              ⟨⟨t, [.opened life.args .none], (Trail.start dir).journal.begin t⟩, []⟩) :=
            Diary.InOrder.calls ⟨timely, timely.orderly orderly, by simp, by simp, .nil⟩ life.calls
          rw [← Diary.keep_of_ok ran] at inOrder
          have ends : Timely env (Diary.keep env dir life).trail.state
              ((Trail.start dir).live env life).state := by
            rw [Trail.live_of_ok ran, ← Diary.keep_trail ran]
            exact ending_meets (follows.toWrites.drop _)
          refine ⟨inOrder.ordered, fun e mem => ?_, fun a mem => ?_⟩
          · have stamped := (inOrder.stamped e mem).later ends
            exact ⟨stamped.header, stamped.placed⟩
          · refine ⟨later (inOrder.timely.trans ends) a mem, fun e mem' => ?_⟩
            exact UInt64.lt_iff_toNat_lt.mpr ((past a mem).trans_le (inOrder.late e mem'))

end Tcslog
