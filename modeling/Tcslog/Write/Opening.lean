import Tcslog.Write.Calls

/-!
# Opening, clearing and dropping a writer

Opening a writer sets its clock past every file of the log it finds, whoever
wrote them, and begins a session.  Clearing leaves no file of the log.
-/

namespace Tcslog

open Lib.Program Lib.Spanned WriteState

variable {env : WriteEnv} {s t u : WriteState} {L L' : Log} {cur : Current} {front : List Strand}
  {σ : Strand}

/-- A log without files. -/
def Log.empty : Log where
  strands := []
  ordered := .nil

theorem onDisk_empty {files : SegId → Option Bytes} (none : ∀ id, files id = none) :
    OnDisk files Log.empty ∧ NoStray files Log.empty := by
  refine ⟨⟨fun {k j σ id} fileAt => ?_, fun {id content} present => ?_⟩, fun id present => ?_⟩
  · have := fileAt.strandAt
    simp [Log.empty] at this
  · rw [none id] at present
    contradiction
  · rw [none id] at present
    contradiction

/-! ## Every file of the log -/

theorem scan_spec : Meets (scan env) s
    (fun ids s' => ids = scanSegmentIds s.dir s.namePrefix s.nameSuffix ∧ s.Did s.dir s')
    (fun stop s' => stop = .error .ioError ∧ s.Did s.dir s') := by
  simp only [scan, meets_bind]
  refine tick_spec.imp ?_ (by simp)
  rintro t _ ⟨rfl, rfl⟩
  simp only [meets_get, meets_ite, meets_fail, meets_pure]
  exact ⟨fun _ => ⟨trivial, did_tick s⟩, fun _ => ⟨trivial, did_tick s⟩⟩

theorem mem_scan {dir : Dir} {namePrefix nameSuffix : Bytes} {id : SegId} :
    id ∈ scanSegmentIds dir namePrefix nameSuffix ↔ (dir.files namePrefix nameSuffix id).isSome := by
  rw [mem_scanSegmentIds, Dir.files, AList.lookup_isSome]

theorem meets_forM_cons {α : Type} {action : α → WriteM Unit} {a : α} {as : List α}
    {post : PUnit → WriteState → Prop} {failed : Stop → WriteState → Prop} :
    Meets ((a :: as).forM action) s post failed ↔
      Meets (action a) s (fun _ s' => Meets (as.forM action) s' post failed) failed :=
  meets_bind

/-- Handing every file over leaves them in place. -/
theorem forM_send_spec (leaves : env.Leaves) (ids : List SegId) :
    Meets (ids.forM (send env)) s (fun _ s' => s.Did s.dir s')
      (fun stop s' => stop ≠ .panic ∧ s.Did s.dir s') := by
  induction ids generalizing s with
  | nil => exact .refl s
  | cons id ids ih =>
      rw [meets_forM_cons]
      refine (send_spec leaves id).imp ?_ fun stop t ⟨error, did⟩ => ⟨by simp [error], did⟩
      intro _ t did
      refine (ih (s := t)).imp ?_ ?_
      · exact fun _ u did' => did.trans (did.dir_eq ▸ did')
      · exact fun _ u ⟨noPanic, did'⟩ => ⟨noPanic, did.trans (did.dir_eq ▸ did')⟩

theorem removeFile_spec (id : SegId) : Meets (removeFile env id) s
    (fun _ s' => s.Did (s.dir.erase (buildName s.namePrefix id s.nameSuffix)) s')
    (fun stop s' => stop = .error .ioError ∧ s.Did s.dir s') := by
  simp only [removeFile, meets_bind, fileName]
  refine tick_spec.imp ?_ (by simp)
  rintro t _ ⟨rfl, rfl⟩
  simp only [meets_get, meets_pure, meets_ite, meets_fail, emit, meets_modify]
  exact ⟨fun _ => ⟨trivial, did_tick s⟩, fun _ => did_emit (did_tick s) _⟩

theorem Dir.files_erase {dir : Dir} {namePrefix nameSuffix : Bytes} {id : SegId} :
    Dir.files (dir.erase (buildName namePrefix id nameSuffix)) namePrefix nameSuffix =
      Function.update (dir.files namePrefix nameSuffix) id none := by
  funext id'
  by_cases same : id' = id
  · rw [same, Function.update_self, Dir.files, AList.lookup_erase]
  · rw [Function.update_of_ne same, Dir.files, Dir.files, AList.lookup_erase_ne]
    exact fun names => same (buildName_injective names)

/-- Removing files removes them, and only them. -/
theorem forM_removeFile_spec (ids : List SegId) :
    Meets (ids.forM (removeFile env)) s
      (fun _ s' => s.Did s'.dir s' ∧ ∀ id, s'.files id = if id ∈ ids then none else s.files id)
      (fun stop s' => stop ≠ .panic ∧ s.Did s'.dir s') := by
  induction ids generalizing s with
  | nil => exact ⟨.refl s, fun id => by simp⟩
  | cons id ids ih =>
      rw [meets_forM_cons]
      refine (removeFile_spec id).imp ?_ fun stop t ⟨error, did⟩ => ⟨by simp [error], ?_⟩
      · intro _ t did
        have files : t.files = Function.update s.files id none := did.files_eq.trans Dir.files_erase
        refine (ih (s := t)).imp ?_ fun stop u ⟨noPanic, did'⟩ => ⟨noPanic, did.trans did'⟩
        rintro _ u ⟨did', removed⟩
        refine ⟨did.trans did', fun id' => ?_⟩
        rw [removed, files]
        by_cases same : id' = id
        · simp [same]
        · simp [same]
      · rw [did.dir_eq]
        exact did

/-- After a successful clear there is no file of the log, and none open. -/
theorem clear_spec (env : WriteEnv) (s : WriteState) : Meets (clear env) s
    (fun _ s' => SameArgs s s' ∧ s'.current = none ∧ ∀ id, s'.files id = none)
    (fun stop _ => stop ≠ .panic) := by
  simp only [clear, forEachSegmentFile, meets_bind, meets_modify]
  refine scan_spec.imp ?_ (by rintro stop t ⟨error, _⟩; simp [error])
  rintro ids t ⟨rfl, did⟩
  refine (forM_removeFile_spec _).imp ?_ fun stop u failed => failed.1
  rintro _ u ⟨did', removed⟩
  have both := did.trans did'
  refine ⟨?_, by rw [both.current], fun id => ?_⟩
  · refine ⟨?_, ?_, ?_, ?_, ?_, both.later⟩ <;> rw [both.same]
  · rw [removed]
    split
    · rfl
    next notListed =>
      rw [mem_scan] at notListed
      rw [did.files_same]
      exact Option.not_isSome_iff_eq_none.mp notListed

/-! ## Opening a writer -/

theorem meets_liftExcept {α : Type} {x : Except LogError α} {post : α → WriteState → Prop}
    {failed : Stop → WriteState → Prop} (ok : ∀ a, x = .ok a → post a s)
    (error : ∀ e, x = .error e → failed (.error e) s) : Meets (liftExcept x) s post failed := by
  cases x with
  | ok a => exact ok a rfl
  | error e => exact error e rfl

/-- The clock was set, and nothing else. -/
structure Reset (s s' : WriteState) : Prop where
  same : s' = { s with
    ops := s'.ops, events := s'.events, timerResolution := s'.timerResolution, clock := s'.clock }
  later : s.ops ≤ s'.ops
  delta : s.clock.delta ≤ s'.clock.delta

theorem Reset.of_did (did : s.Did s.dir t) : Reset s t :=
  ⟨by rw [did.same], did.later, by rw [did.same]⟩

/-- A clock set past `id` reads later than it from then on. -/
theorem advancePast_spec (id : SegId) : Meets (advancePast env id) s
    (fun _ s' => Reset s s' ∧ id.toNat ≤ env.reading s'.clock s'.ops)
    (fun stop s' => stop ≠ .panic ∧ s'.dir = s.dir) := by
  simp only [advancePast, meets_bind]
  refine meets_liftExcept (fun _ _ => ?_) fun e _ => ⟨by simp, rfl⟩
  refine now_spec.imp ?_ (by rintro stop t ⟨⟨e, error⟩, did⟩; exact ⟨by simp [error], did.dir_eq⟩)
  rintro reading t ⟨did, later, rfl, small⟩
  have reads := env.reading_mono s.clock did.later
  simp only [meets_ite, meets_bind, meets_get, meets_pure]
  refine ⟨fun behind => ?_, fun past => ⟨.of_did did, ?_⟩⟩
  · refine meets_liftExcept (fun delta stamped => ?_) fun e _ => ⟨by simp, did.dir_eq⟩
    rw [stamp] at stamped
    split at stamped
    · obtain rfl := Except.ok.inj stamped
      simp only [meets_modify]
      refine ⟨⟨?_, did.later, ?_⟩, ?_⟩
      · rw [did.same]
      · rw [did.clock]
        simp only
        omega
      · rw [did.clock]
        unfold WriteEnv.reading at *
        simp only
        omega
    · contradiction
  · rw [did.clock]
    omega

theorem clockNew_spec (sinceEpoch : Option Nat) : Meets (Clock.new env sinceEpoch) s
    (fun clock s' => 0 < clock.delta ∧ s.Did s.dir s') (fun stop s' => stop ≠ .panic ∧ s'.dir = s.dir) := by
  cases sinceEpoch with
  | none => exact ⟨by simp, rfl⟩
  | some ns =>
      simp only [Clock.new, meets_bind]
      refine tick_spec.imp ?_ (by simp)
      rintro t _ ⟨rfl, rfl⟩
      refine meets_liftExcept (fun clock anchored => ⟨?_, did_tick s⟩) fun e _ => ⟨by simp, rfl⟩
      simp only [Clock.anchor, stamp] at anchored
      split at anchored
      · simp only [bind, Except.bind, pure, Except.pure, throw, throwThe, MonadExceptOf.throw] at anchored
        split at anchored
        · contradiction
        next positive =>
          obtain rfl := Except.ok.inj anchored
          exact Nat.pos_of_ne_zero positive
      · contradiction

/-- No listed file is past the last. -/
theorem le_getLast {dir : Dir} {namePrefix nameSuffix : Bytes} {id highest : SegId}
    (last : (scanSegmentIds dir namePrefix nameSuffix).getLast? = some highest)
    (mem : id ∈ scanSegmentIds dir namePrefix nameSuffix) : id ≤ highest := by
  have sorted := scanSegmentIds_sorted dir namePrefix nameSuffix
  obtain ⟨front, split⟩ := List.getLast?_eq_some_iff.mp last
  rw [split] at mem sorted
  rcases List.mem_append.mp mem with before | isLast
  · exact UInt64.le_of_lt ((List.pairwise_append.mp sorted).2.2 id before highest (by simp))
  · rw [List.mem_singleton.mp isLast]
    exact UInt64.le_refl _

/-- A writer has begun a session of the log. -/
structure Opened (env : WriteEnv) (args : NewArgs) (files : SegId → Option Bytes) (L : Log)
    (s' : WriteState) (L' : Log) (σ : Strand) : Prop where
  namePrefix : s'.namePrefix = args.namePrefix
  nameSuffix : s'.nameSuffix = args.nameSuffix
  segSizeMax : s'.segSizeMax = args.segSizeMax
  format : s'.format = args.format
  writing : Writing env s' L'
  noStray : NoStray files L → NoStray s'.files L'
  pen : ∃ cur, s'.current = some cur ∧ Pen s' L' cur L.strands σ
  grew : L.Grew true [] L' L.strands σ σ
  rested : s'.recordBytesLeft = 0

/-- With a clock past every file found, the first session of a writer is begun. -/
theorem startSession_opens {args : NewArgs} {u v : WriteState} (able : u.toLogWrite.Able)
    (idle : u.current = none) (prefixed : u.namePrefix = args.namePrefix)
    (suffixed : u.nameSuffix = args.nameSuffix) (sized : u.segSizeMax = args.segSizeMax)
    (formatted : u.format = args.format) (disk : OnDisk u.files L) (reset : Reset u v)
    (past : v.Past env) :
    Meets (startSession env) v
      (fun _ s' => ∃ L' σ, Opened env args u.files L s' L' σ)
      (fun stop s' => stop ≠ .panic ∧ OnDisk (s'.dir.files args.namePrefix args.nameSuffix) L) := by
  have same := reset.same
  have files : v.files = u.files := by
    rw [same]
    rfl
  have idle' : v.current = none := by rw [same, idle]
  have writing : Writing env v L := by
    refine ⟨?_, ?_, past, by simp [idle']⟩
    · have positive := Nat.lt_of_lt_of_le able.clock reset.delta
      rw [same]
      exact ⟨able.roomy, able.formatValid, positive⟩
    · rw [files]
      exact disk
  have namePrefix : v.namePrefix = args.namePrefix := by rw [same, ← prefixed]
  have nameSuffix : v.nameSuffix = args.nameSuffix := by rw [same, ← suffixed]
  refine (startSession_spec writing idle').imp ?_ ?_
  · rintro _ w ⟨L', σ, cur, onward, current, pen, grew, rested, _⟩
    refine ⟨L', σ, onward.args.namePrefix.trans namePrefix, onward.args.nameSuffix.trans nameSuffix,
      ?_, ?_, onward.writing, ?_, ⟨cur, current, pen⟩, grew, rested⟩
    · rw [onward.args.segSizeMax, same, ← sized]
    · rw [onward.args.format, same, ← formatted]
    · rw [← files]
      exact onward.noStray
  · rintro stop w ⟨noPanic, stopped⟩
    refine ⟨noPanic, ?_⟩
    have disk := stopped.writing.disk
    rwa [WriteState.files, stopped.args.namePrefix, stopped.args.nameSuffix, namePrefix,
      nameSuffix] at disk

/-- Opening a writer begins a session after whatever the log holds, or leaves
that as it was. -/
theorem new_spec (leaves : env.Leaves) {args : NewArgs}
    (disk : OnDisk (s.dir.files args.namePrefix args.nameSuffix) L) :
    Meets (LogWrite.new env args) s
      (fun _ s' => ∃ L' σ,
        Opened env args (s.dir.files args.namePrefix args.nameSuffix) L s' L' σ)
      (fun stop s' => stop ≠ .panic ∧
        OnDisk (s'.dir.files args.namePrefix args.nameSuffix) L) := by
  simp only [LogWrite.new, meets_ite, meets_fail]
  refine ⟨fun _ => ⟨by simp, disk⟩, fun _ => ⟨fun _ => ⟨by simp, disk⟩, fun sizeFits =>
    ⟨fun _ => ⟨by simp, disk⟩, fun formatValid => ?_⟩⟩⟩
  simp only [meets_bind]
  refine (clockNew_spec args.sinceEpoch).imp ?_ fun stop t failed => ⟨failed.1, failed.2 ▸ disk⟩
  rintro clock t ⟨positive, did⟩
  refine meets_liftExcept (fun _ _ => ?_) fun e _ => ⟨by simp, did.dir_eq ▸ disk⟩
  simp only [meets_modify, forEachSegmentFile, meets_bind, meets_pure]
  generalize isU : ({ t with
    namePrefix := args.namePrefix, nameSuffix := args.nameSuffix, segSizeMax := args.segSizeMax
    format := args.format, timerResolution := env.timerResolutionNs, clock := clock
    current := none, sessionId := 0, sequence := 0, recordCount := 0, recordBytesLeft := 0
    lastMeta := _ } : WriteState) = u
  have files : u.files = s.dir.files args.namePrefix args.nameSuffix := by
    rw [← isU, WriteState.files, ← did.dir_eq]
  have able : u.toLogWrite.Able := by
    rw [← isU]
    refine ⟨?_, formatValid, positive⟩
    unfold SegmentHeader.dataSectionLen
    simp only
    omega
  have begins {v : WriteState} (reset : Reset u v) (past : v.Past env) :
      Meets (startSession env) v
        (fun _ s' => ∃ L' σ,
          Opened env args (s.dir.files args.namePrefix args.nameSuffix) L s' L' σ)
        (fun stop s' => stop ≠ .panic ∧
          OnDisk (s'.dir.files args.namePrefix args.nameSuffix) L) := by
    rw [← files] at disk ⊢
    refine startSession_opens able ?_ ?_ ?_ ?_ ?_ disk reset past <;> rw [← isU]
  have failedDisk {v : WriteState} (same : v.dir = u.dir) :
      OnDisk (v.dir.files args.namePrefix args.nameSuffix) L := by
    rw [same]
    have := files
    rw [WriteState.files, ← isU] at this
    rw [← isU]
    exact this ▸ disk
  refine scan_spec.imp ?_ fun stop v failed => ⟨by simp [failed.1], failedDisk failed.2.dir_eq⟩
  rintro ids v ⟨rfl, didScan⟩
  refine (forM_send_spec leaves _).imp ?_
    fun stop w failed => ⟨failed.1, failedDisk (failed.2.dir_eq.trans didScan.dir_eq)⟩
  rintro _ w didSend
  have both := didScan.trans (didScan.dir_eq ▸ didSend)
  have filesW : w.files = u.files := both.files_same
  cases last : (scanSegmentIds u.dir u.namePrefix u.nameSuffix).getLast? with
  | none =>
      refine begins (.of_did both) fun id present => ?_
      rw [filesW, WriteState.files, ← mem_scan, List.getLast?_eq_none_iff.mp last] at present
      simp at present
  | some highest =>
      simp only [meets_bind]
      refine (advancePast_spec highest).imp ?_
        fun stop x failed => ⟨failed.1, failedDisk (failed.2.trans both.dir_eq)⟩
      rintro _ x ⟨reset, reads⟩
      have whole : Reset u x := by
        refine ⟨?_, both.later.trans reset.later, both.clock ▸ reset.delta⟩
        rw [reset.same, both.same]
      refine begins whole fun id present => le_trans ?_ reads
      have filesX : x.files = u.files := by
        rw [whole.same]
        rfl
      rw [filesX, WriteState.files, ← mem_scan] at present
      exact UInt64.le_iff_toNat_le.mp (le_getLast last present)

/-! ## Ending -/

/-- Dropping a writer changes no file. -/
theorem drop_spec (leaves : env.Leaves) : Meets (LogWrite.drop env) s
    (fun _ s' => s'.dir = s.dir) (fun _ _ => False) := by
  simp only [LogWrite.drop, meets_bind, meets_get]
  cases s.current with
  | none => rfl
  | some cur =>
      simp only [meets_bind, meets_modify, meets_ite, meets_pure, meets_attempt]
      have sends {t : WriteState} (same : t.dir = s.dir) : Meets (send env cur.id) t
          (fun _ s' => s'.dir = s.dir) fun stop s' => (∃ e, stop = .error e) ∧ s'.dir = s.dir :=
        (send_spec leaves cur.id).imp (fun _ _ did => did.dir_eq.trans same)
          fun _ _ failed => ⟨⟨_, failed.1⟩, failed.2.dir_eq.trans same⟩
      refine ⟨fun _ => trivial, fun _ => (flushFile_spec cur.id).imp (fun _ t did => ?_) ?_⟩
      · refine (sends did.dir_eq).imp (fun _ _ same => same) ?_
        rintro stop u ⟨⟨e, rfl⟩, same⟩
        exact same
      · rintro stop t ⟨rfl, did⟩
        refine (sends did.dir_eq).imp (fun _ _ same => same) ?_
        rintro stop u ⟨⟨e, rfl⟩, same⟩
        exact same

theorem flush_spec (env : WriteEnv) (s : WriteState) : Meets (flush env) s (fun _ s' => s.Did s.dir s')
    (fun stop s' => stop ≠ .panic ∧ s.Did s.dir s') := by
  simp only [flush, meets_bind, meets_get]
  cases s.current with
  | none => exact .refl s
  | some cur =>
      exact (flushFile_spec cur.id).imp (fun _ _ did => did) fun _ _ failed =>
        ⟨by simp [failed.1], failed.2⟩

end Tcslog
