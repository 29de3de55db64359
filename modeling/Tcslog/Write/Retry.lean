import Tcslog.Write.Identifiers

/-!
# Trying one name after another

The writer names a file in buffers that it uses again and again, and tries to
create it until a name is free.  The attempt itself may be replaced.  The loop
ends if the clock goes on after every nap, since only so many names of the
directory are ahead of it.
-/

namespace Tcslog

open Lib.Program WriteState

/-! ## Paths -/

/-- A component of a path. -/
inductive Component
  | rootDir
  | parentDir
  | normal (name : Bytes)
  deriving DecidableEq, Repr

abbrev PathBuf := List Component

namespace PathBuf

/-- The path of something in a directory, its name being one component. -/
def join (path : PathBuf) (name : Bytes) : PathBuf :=
  path ++ [.normal name]

/-- The last component, if it is a name. -/
def fileName (path : PathBuf) : Option Bytes :=
  match path.getLast? with
  | some (.normal name) => some name
  | _ => none

/-- Replace the last component, or add one if the last is not a name. -/
def setFileName (path : PathBuf) (name : Bytes) : PathBuf :=
  if path.fileName.isSome then join path.dropLast name else path.join name

/-- The name of a path in a directory. -/
def nameIn (dir path : PathBuf) : Option Bytes :=
  if path.dropLast = dir then path.fileName else none

variable (dir : PathBuf) (name name' : Bytes)

@[simp]
theorem setFileName_join : (dir.join name).setFileName name' = dir.join name' := by
  simp [setFileName, join, fileName]

@[simp]
theorem nameIn_join : nameIn dir (dir.join name) = some name := by
  simp [nameIn, join, fileName]

end PathBuf

/-! ## Supplied attempts -/

/-- A request that leaves the writer itself alone, and says no more than which
files it created. -/
structure Aside (s t : WriteState) : Prop where
  same : t.toLogWrite = s.toLogWrite
  later : s.ops ≤ t.ops
  events : ∃ ids : List SegId, t.events = s.events ++ ids.map .created

theorem Aside.refl (s : WriteState) : Aside s s :=
  ⟨rfl, Nat.le_refl _, [], (List.append_nil _).symm⟩

theorem Aside.trans {s t u : WriteState} (first : Aside s t) (second : Aside t u) : Aside s u := by
  obtain ⟨ids, events⟩ := first.events
  obtain ⟨ids', events'⟩ := second.events
  refine ⟨second.same.trans first.same, first.later.trans second.later, ids ++ ids', ?_⟩
  rw [events', events, List.append_assoc, List.map_append]

theorem aside_tick (s : WriteState) : Aside s { s with ops := s.ops + 1 } :=
  ⟨rfl, Nat.le_succ _, [], (List.append_nil _).symm⟩

/-- An attempt to create the file at a path, which has no hold of the writer. -/
structure Attempt where
  run : PathBuf → WriteM Creation
  aside : ∀ path, Preserves Aside (run path)

/-- An attempt that is always refused. -/
def Attempt.refuse : Attempt where
  run _ := pure .refused
  aside _ := .pure .refl _

/-- The buffers a file is named in. -/
structure NameBuffers where
  nameBuf : Bytes
  path : PathBuf
  deriving DecidableEq, Repr

/-- Build a segment file name in a buffer, which is overwritten. -/
def buildNameIn (buf namePrefix : Bytes) (id : SegId) (nameSuffix : Bytes) : Bytes :=
  buf.take 0 ++ namePrefix ++ SegId.display id ++ nameSuffix

theorem buildNameIn_eq (buf namePrefix : Bytes) (id : SegId) (nameSuffix : Bytes) :
    buildNameIn buf namePrefix id nameSuffix = buildName namePrefix id nameSuffix := by
  simp [buildNameIn, buildName]

section Loop

variable (env : WriteEnv)

/-- One pass of the loop of `createUniqueFileWith`: no identifier if there was a
file of that name. -/
def tryCreate (attempt : Attempt) (collidedBefore : Bool) (bufs : NameBuffers) :
    WriteM (NameBuffers × Option SegId) := do
  let id ← nowSegId env
  let s ← get
  let name := buildNameIn bufs.nameBuf s.namePrefix id s.nameSuffix
  let path := bufs.path.setFileName name
  match ← attempt.run path with
  | .made => return (⟨name, path⟩, some id)
  | .alreadyExists =>
      noteCollision collidedBefore
      return (⟨name, path⟩, none)
  | .refused => fail .ioError

/-- The retry loop, the attempt supplied, for as many passes as it is given. -/
def createUniqueFileWith (attempt : Attempt) : Nat → Bool → NameBuffers → WriteM (SegId × PathBuf)
  | 0, _, _ => throw .stuck
  | passes + 1, collidedBefore, bufs => do
      let (bufs, created) ← tryCreate env attempt collidedBefore bufs
      match created with
      | some id => return (id, bufs.path)
      | none => createUniqueFileWith attempt passes true bufs

/-- Create the file at a path anew.  A path of the log's directory with the name
of a segment file is one of the log's; of other paths nothing is known. -/
def createNewAt (logDir : PathBuf) (elsewhere : Attempt) (path : PathBuf) : WriteM Creation := do
  let s ← get
  match (logDir.nameIn path).bind fun name => idFromName name s.namePrefix s.nameSuffix with
  | some id => createNew env id
  | none => elsewhere.run path

theorem createNew_aside (id : SegId) : Preserves Aside (createNew env id) := by
  intro s
  refine (createNew_creates env id s).imp ?_ (by simp)
  rintro creation t ⟨later, same, events⟩
  by_cases made : creation = .made
  · exact ⟨same, later.le, [id], by rw [events, if_pos made]; rfl⟩
  · exact ⟨same, later.le, [], by rw [events, if_neg made]; rfl⟩

/-- The attempt the writer makes. -/
def Attempt.createNew (logDir : PathBuf) (elsewhere : Attempt) : Attempt where
  run := createNewAt env logDir elsewhere
  aside path := by
    refine Leads.bind_get fun s => ?_
    split
    · exact createNew_aside env _ s
    · exact elsewhere.aside path s

end Loop

section Passes

variable {env : WriteEnv} {attempt : Attempt} {s t u : WriteState} {bufs bufs' : NameBuffers}

theorem nowSegId_aside : Meets (nowSegId env) s
    (fun id t => Aside s t ∧ s.ops < t.ops ∧ t.dir = s.dir ∧
      id.toNat = env.reading s.clock s.ops)
    (fun stop t => stop = .error .timestampOverflow ∧ Aside s t ∧ t.dir = s.dir) := by
  simp only [nowSegId, now, meets_bind]
  refine tick_spec.imp ?_ (by simp)
  rintro t _ ⟨rfl, rfl⟩
  simp only [meets_get, meets_ite, meets_fail]
  refine ⟨fun _ => ⟨trivial, aside_tick s, trivial⟩, fun _ => ?_⟩
  unfold stamp
  split
  next small =>
    refine ⟨aside_tick s, Nat.lt_succ_self _, rfl, ?_⟩
    rw [UInt64.toNat_ofNat']
    unfold u64Max at small
    exact Nat.mod_eq_of_lt (by omega)
  next => exact ⟨rfl, aside_tick s, rfl⟩

/-- The writer once it has taken account of a collision and waited. -/
def WriteState.collided (s : WriteState) (collidedBefore : Bool) : WriteState :=
  let wider := widened s.timerResolution collidedBefore
  { s with
    timerResolution := wider
    events := s.events ++
      ((if wider ≠ s.timerResolution then [.adjusted wider] else []) ++ [.slept (napFor wider)]) }

theorem noteCollision_collided (collidedBefore : Bool) : Meets (noteCollision collidedBefore) s
    (fun _ t => t = s.collided collidedBefore) (fun _ _ => False) := by
  simp only [noteCollision, meets_bind, meets_get, meets_ite, meets_set, emit, meets_modify]
  constructor
  · intro wider
    simp [WriteState.collided, wider]
  · intro same
    have same : widened s.timerResolution collidedBefore = s.timerResolution := not_not.mp same
    simp [WriteState.collided, same]

/-- A pass that meets no collision leaves the writer alone. -/
theorem tryCreate_spec (collidedBefore : Bool) : Meets (tryCreate env attempt collidedBefore bufs) s
    (fun created t =>
      (created.2 = none → ∃ u, Aside s u ∧ s.ops < u.ops ∧ t = u.collided collidedBefore) ∧
      (created.2 ≠ none → Aside s t))
    (fun _ t => Aside s t) := by
  simp only [tryCreate, meets_bind]
  refine nowSegId_aside.imp ?_ fun _ _ failed => failed.2.1
  rintro id t ⟨aside, later, -, -⟩
  simp only [meets_get]
  refine (attempt.aside _ t).imp ?_ fun _ _ failed => aside.trans failed
  intro creation u aside'
  cases creation with
  | made => exact ⟨fun none => absurd none (Option.some_ne_none id), fun _ => aside.trans aside'⟩
  | refused => exact aside.trans aside'
  | alreadyExists =>
      simp only [meets_bind]
      refine (noteCollision_collided collidedBefore).imp ?_ (by simp)
      rintro _ v rfl
      exact ⟨fun _ => ⟨u, aside.trans aside', later.trans_le aside'.later, rfl⟩,
        fun some => absurd rfl some⟩

/-- After `k` collisions in a row the loop is here, with these buffers. -/
inductive Collided (env : WriteEnv) (attempt : Attempt) (s : WriteState) (bufs : NameBuffers) :
    Nat → WriteState → NameBuffers → Prop
  | none : Collided env attempt s bufs 0 s bufs
  | again {k : Nat} {t u : WriteState} {bufs' bufs'' : NameBuffers}
      (before : Collided env attempt s bufs k t bufs')
      (ran : (tryCreate env attempt (0 < k) bufs').run t = .ok (bufs'', .none) u) :
      Collided env attempt s bufs (k + 1) u bufs''

/-- Whether and how the loop ended in the pass that followed some collisions. -/
theorem createUniqueFileWith_spec {k : Nat} (passes : Nat)
    (collided : Collided env attempt s bufs k t bufs') :
    Meets (createUniqueFileWith env attempt passes (0 < k) bufs') t
      (fun created v => ∃ j u bufs₁ bufs₂, j < k + passes ∧ Collided env attempt s bufs j u bufs₁ ∧
        (tryCreate env attempt (0 < j) bufs₁).run u = .ok (bufs₂, some created.1) v ∧
        created.2 = bufs₂.path)
      (fun stop v =>
        (stop = .stuck ∧ ∃ bufs₁, Collided env attempt s bufs (k + passes) v bufs₁) ∨
        ∃ j u bufs₁, j < k + passes ∧ Collided env attempt s bufs j u bufs₁ ∧
          (tryCreate env attempt (0 < j) bufs₁).run u = .error stop v) := by
  induction passes generalizing k t bufs' with
  | zero => exact .inl ⟨rfl, bufs', collided⟩
  | succ passes inductionHypothesis =>
      rw [createUniqueFileWith, meets_bind, meets_iff]
      refine ⟨?_, fun stop v ran => .inr ⟨k, t, bufs', by omega, collided, ran⟩⟩
      rintro ⟨bufs₁, created⟩ u ran
      cases created with
      | some id => exact ⟨k, t, bufs', bufs₁, by omega, collided, ran, rfl⟩
      | none =>
          have next := inductionHypothesis (.again collided ran)
          rw [decide_eq_true (Nat.succ_pos k), Nat.add_right_comm] at next
          exact next

theorem Collided.later {k : Nat} (collided : Collided env attempt s bufs k t bufs') :
    s.ops ≤ t.ops ∧ t.clock = s.clock ∧ t.namePrefix = s.namePrefix ∧
      t.nameSuffix = s.nameSuffix := by
  induction collided with
  | none => exact ⟨Nat.le_refl _, rfl, rfl, rfl⟩
  | again before ran inductionHypothesis =>
      obtain ⟨later, clock, namePrefix, nameSuffix⟩ := inductionHypothesis
      obtain ⟨v, aside, -, rfl⟩ := ((tryCreate_spec _).of_ok ran).1 rfl
      have same := aside.same
      refine ⟨later.trans aside.later, ?_, ?_, ?_⟩
      · exact (congrArg LogWrite.clock same).trans clock
      · exact (congrArg LogWrite.namePrefix same).trans namePrefix
      · exact (congrArg LogWrite.nameSuffix same).trans nameSuffix

/-- So many collisions lead to one state. -/
theorem Collided.unique {k : Nat} {bufs'' : NameBuffers} (left : Collided env attempt s bufs k t bufs')
    (right : Collided env attempt s bufs k u bufs'') : t = u ∧ bufs' = bufs'' := by
  induction left generalizing u bufs'' with
  | none => cases right; exact ⟨rfl, rfl⟩
  | again before ran inductionHypothesis =>
      cases right with
      | again before' ran' =>
          obtain ⟨rfl, rfl⟩ := inductionHypothesis before'
          rw [ran] at ran'
          cases ran'
          exact ⟨rfl, rfl⟩

/-- After every nap the clock reads later than before it. -/
def Ticks (env : WriteEnv) (attempt : Attempt) (s : WriteState) (bufs : NameBuffers) : Prop :=
  ∀ k t u bufs₁ bufs₂, Collided env attempt s bufs k t bufs₁ →
    Collided env attempt s bufs (k + 1) u bufs₂ →
      env.reading s.clock t.ops < env.reading s.clock u.ops

/-- A monotonic clock that never reads the same twice ticks. -/
theorem ticks_of_strictMono (strict : StrictMono env.instant)
    (started : s.clock.mono ≤ env.instant s.ops) : Ticks env attempt s bufs := by
  intro k t u bufs₁ bufs₂ before after
  cases after with
  | again before' ran =>
      obtain ⟨rfl, rfl⟩ := before.unique before'
      obtain ⟨v, -, later, rfl⟩ := ((tryCreate_spec _).of_ok ran).1 rfl
      have ticks : env.instant t.ops < env.instant v.ops := strict later
      have running : env.instant s.ops ≤ env.instant t.ops := env.instant_mono before.later.1
      change env.reading s.clock t.ops < env.reading s.clock v.ops
      unfold WriteEnv.reading
      omega

end Passes

/-! ## The writer's own attempt -/

section CreateNew

variable {env : WriteEnv} {logDir : PathBuf} {elsewhere : Attempt} {s t : WriteState}
  {bufs bufs' : NameBuffers}

/-- The buffer holds the path of something in the directory. -/
def NameBuffers.Within (bufs : NameBuffers) (logDir : PathBuf) : Prop :=
  ∃ name, bufs.path = logDir.join name

/-- Whatever was named in the buffers before, the attempt is made at the name of
the clock's reading in the log's directory. -/
theorem tryCreate_createNew (collidedBefore : Bool) (within : bufs.Within logDir) :
    Meets (tryCreate env (.createNew env logDir elsewhere) collidedBefore bufs) s
      (fun created t => created.1.Within logDir ∧
        (created.2 = none → t.dir = s.dir ∧
          ∃ id, (s.files id).isSome ∧ id.toNat = env.reading s.clock s.ops) ∧
        ∀ id, created.2 = some id → s.files id = none ∧
          created.1.path = logDir.join (buildName s.namePrefix id s.nameSuffix) ∧
          t.dir = s.dir.insert (buildName s.namePrefix id s.nameSuffix) [])
      (fun stop t => t.dir = s.dir ∧
        (stop = .error .timestampOverflow ∨ stop = .error .ioError)) := by
  obtain ⟨name, path⟩ := within
  simp only [tryCreate, meets_bind]
  refine nowSegId_aside.imp ?_ fun stop _ failed => ⟨failed.2.2, .inl failed.1⟩
  rintro id t ⟨aside, -, dir, isReading⟩
  simp only [meets_get, path, PathBuf.setFileName_join, buildNameIn_eq]
  change Meets (createNewAt env logDir elsewhere _) t _ _
  simp only [createNewAt, meets_bind, meets_get, PathBuf.nameIn_join, Option.bind_some,
    idFromName_eq_some_iff.mpr rfl]
  have namePrefix : t.namePrefix = s.namePrefix := congrArg LogWrite.namePrefix aside.same
  have nameSuffix : t.nameSuffix = s.nameSuffix := congrArg LogWrite.nameSuffix aside.same
  have files : t.files = s.files := by rw [WriteState.files, WriteState.files, aside.same, dir]
  refine (createNew_spec id).imp ?_ (by simp)
  intro creation u outcome
  cases creation with
  | refused => exact ⟨outcome.dir_eq.trans dir, .inr rfl⟩
  | alreadyExists =>
      simp only [meets_bind]
      refine (noteCollision_collided collidedBefore).imp ?_ (by simp)
      rintro _ v rfl
      refine ⟨⟨_, rfl⟩, fun _ => ⟨outcome.2.dir_eq.trans dir, id, files ▸ outcome.1, isReading⟩, ?_⟩
      exact fun _ some => absurd some.symm (Option.some_ne_none _)
  | made =>
      refine ⟨⟨_, rfl⟩, fun none => absurd none (Option.some_ne_none _), ?_⟩
      intro id' isId
      obtain rfl := Option.some.inj isId
      rw [← namePrefix, ← nameSuffix]
      exact ⟨files ▸ outcome.1, rfl, outcome.2.dir_eq.trans (by rw [dir])⟩

/-- With that attempt the loop is the naming of the writer's files. -/
theorem meets_createUniqueFileWith (elsewhere : Attempt) (passes : Nat) (collidedBefore : Bool)
    (within : bufs.Within logDir) {post : SegId → WriteState → Prop}
    {failed : Stop → WriteState → Prop} :
    Meets (createUniqueFileWith env (.createNew env logDir elsewhere) passes collidedBefore bufs) s
        (fun created t => post created.1 t) failed ↔
      Meets (createUniqueFile env passes collidedBefore) s post failed := by
  induction passes generalizing s collidedBefore bufs with
  | zero => exact Iff.rfl
  | succ passes inductionHypothesis =>
      obtain ⟨name, path⟩ := within
      simp only [createUniqueFileWith, createUniqueFile, tryCreate, meets_bind, meets_get, path,
        PathBuf.setFileName_join, buildNameIn_eq, Attempt.createNew, createNewAt,
        PathBuf.nameIn_join, Option.bind_some, idFromName_eq_some_iff.mpr rfl]
      refine Iff.of_eq (congrArg (fun post => Meets (nowSegId env) s post failed) ?_)
      funext id t
      refine congrArg (fun post => Meets (createNew env id) t post failed) ?_
      funext creation u
      cases creation with
      | made => rfl
      | refused => rfl
      | alreadyExists =>
          simp only [meets_bind, meets_pure]
          refine congrArg (fun post => Meets (noteCollision collidedBefore) u post failed) ?_
          funext _ v
          exact propext (inductionHypothesis true ⟨_, rfl⟩)

/-- The identifiers of the log's files that the clock has not read past. -/
def WriteState.ahead (env : WriteEnv) (s : WriteState) : List SegId :=
  (scanSegmentIds s.dir s.namePrefix s.nameSuffix).filter fun id =>
    env.reading s.clock s.ops ≤ id.toNat

/-- Each collision was with another file ahead of the clock, and changed nothing
in the directory. -/
theorem Collided.passed {k : Nat} (within : bufs.Within logDir)
    (ticks : Ticks env (.createNew env logDir elsewhere) s bufs)
    (collided : Collided env (.createNew env logDir elsewhere) s bufs k t bufs') :
    bufs'.Within logDir ∧ t.dir = s.dir ∧ ∃ ids : List SegId, ids.length = k ∧ ids.Nodup ∧
      ∀ id ∈ ids, (s.files id).isSome ∧ env.reading s.clock s.ops ≤ id.toNat ∧
        id.toNat < env.reading s.clock t.ops := by
  induction collided with
  | none => exact ⟨within, rfl, [], rfl, .nil, by simp⟩
  | @again k t u bufs₁ bufs₂ before ran inductionHypothesis =>
      obtain ⟨within₁, dir, ids, length, nodup, behind⟩ := inductionHypothesis
      obtain ⟨later, clock, namePrefix, nameSuffix⟩ := before.later
      obtain ⟨within₂, taken, -⟩ := (tryCreate_createNew _ within₁).of_ok ran
      obtain ⟨dir', id, present, isReading⟩ := taken rfl
      have reads := ticks k t u bufs₁ bufs₂ before (.again before ran)
      have files : t.files = s.files := by
        rw [WriteState.files, WriteState.files, namePrefix, nameSuffix, dir]
      rw [clock] at isReading
      refine ⟨within₂, dir'.trans dir, id :: ids, by rw [List.length_cons, length], ?_, ?_⟩
      · refine List.nodup_cons.mpr ⟨fun mem => ?_, nodup⟩
        exact absurd (behind id mem).2.2 (isReading ▸ Nat.lt_irrefl _)
      · intro a mem
        rcases List.mem_cons.mp mem with rfl | older
        · exact ⟨files ▸ present, isReading ▸ env.reading_mono _ later, isReading ▸ reads⟩
        · obtain ⟨present, ahead, behind⟩ := behind a older
          exact ⟨present, ahead, behind.trans reads⟩

/-- There are no more collisions than files ahead of the clock. -/
theorem Collided.le_ahead {k : Nat} (within : bufs.Within logDir)
    (ticks : Ticks env (.createNew env logDir elsewhere) s bufs)
    (collided : Collided env (.createNew env logDir elsewhere) s bufs k t bufs') :
    k ≤ (s.ahead env).length := by
  obtain ⟨-, -, ids, rfl, nodup, behind⟩ := collided.passed within ticks
  refine (List.subperm_of_subset nodup fun id mem => ?_).length_le
  obtain ⟨present, ahead, -⟩ := behind id mem
  refine List.mem_filter.mpr ⟨?_, decide_eq_true ahead⟩
  rw [mem_scanSegmentIds, ← AList.lookup_isSome]
  exact present

/-- If the clock goes on after every nap, naming a file takes at most one attempt
more than there are files of the log ahead of the clock, unless it fails before.
The file created is one there was none of, its path is that of its identifier in
the log's directory, and nothing else there changed. -/
theorem createUniqueFile_ends (env : WriteEnv) (logDir : PathBuf) (elsewhere : Attempt)
    (s : WriteState) (bufs : NameBuffers) (attempts : Nat) (within : bufs.Within logDir)
    (ticks : Ticks env (.createNew env logDir elsewhere) s bufs) :
    Meets (createUniqueFileWith env (.createNew env logDir elsewhere) attempts false bufs) s
      (fun created t =>
        (∀ name ∈ s.dir, idFromName name s.namePrefix s.nameSuffix ≠ some created.1) ∧
        created.2 = logDir.join (buildName s.namePrefix created.1 s.nameSuffix) ∧
        t.dir = s.dir.insert (buildName s.namePrefix created.1 s.nameSuffix) [])
      (fun stop t => t.dir = s.dir ∧
        (stop = .error .timestampOverflow ∨ stop = .error .ioError ∨
          stop = .stuck ∧ attempts ≤ (s.ahead env).length)) := by
  have start : Collided env (.createNew env logDir elsewhere) s bufs 0 s bufs := .none
  refine (createUniqueFileWith_spec attempts start).imp ?_ ?_
  · rintro ⟨id, path⟩ t ⟨k, u, bufs₁, bufs₂, -, collided, ran, rfl⟩
    obtain ⟨within₁, dir, -⟩ := collided.passed within ticks
    obtain ⟨-, -, namePrefix, nameSuffix⟩ := collided.later
    obtain ⟨-, -, made⟩ := (tryCreate_createNew _ within₁).of_ok ran
    obtain ⟨free, path, inserted⟩ := made id rfl
    rw [WriteState.files, Dir.files, namePrefix, nameSuffix, dir] at free
    rw [namePrefix, nameSuffix] at path inserted
    refine ⟨fun name mem isId => ?_, path, inserted.trans (by rw [dir])⟩
    rw [idFromName_eq_some_iff.mp isId, ← AList.lookup_isSome, free] at mem
    contradiction
  · rintro stop t (⟨rfl, bufs₁, collided⟩ | ⟨k, u, bufs₁, -, collided, ran⟩)
    · rw [Nat.zero_add] at collided
      obtain ⟨-, dir, -⟩ := collided.passed within ticks
      exact ⟨dir, .inr (.inr ⟨rfl, collided.le_ahead within ticks⟩)⟩
    · obtain ⟨within₁, dir, -⟩ := collided.passed within ticks
      obtain ⟨dir', stopped⟩ := (tryCreate_createNew _ within₁).of_error ran
      exact ⟨dir'.trans dir, stopped.imp id .inl⟩

/-- Two files have the clock's first readings, and the third is free. -/
def Sample.crowded : WriteState :=
  { (Trail.start (AList.insert (buildName [] 100 []) []
      (AList.insert (buildName [] 102 []) [] ∅))).state with
    clock := ⟨100, 0⟩, timerResolution := 5 }

/-- The monotonic clock reads how many requests were made. -/
def Sample.counting : WriteEnv where
  isDir := true
  fault _ := false
  stored _ := 0
  instant t := t
  instant_mono := monotone_id
  sends _ := .leave
  timerResolutionNs := 5
  attempts := 3
  overflowChecks := true

theorem createUniqueFile_ends_sample :
    let attempt := Attempt.createNew Sample.counting [.rootDir] .refuse
    Meets (createUniqueFileWith Sample.counting attempt 3 false
        ⟨[], PathBuf.join [.rootDir] [0]⟩) Sample.crowded
      (fun created t =>
        (∀ name ∈ Sample.crowded.dir, idFromName name [] [] ≠ some created.1) ∧
        created.2 = PathBuf.join [.rootDir] (buildName [] created.1 []) ∧
        t.dir = Sample.crowded.dir.insert (buildName [] created.1 []) [])
      (fun stop t => t.dir = Sample.crowded.dir ∧
        (stop = .error .timestampOverflow ∨ stop = .error .ioError ∨
          stop = .stuck ∧ 3 ≤ (Sample.crowded.ahead Sample.counting).length)) :=
  createUniqueFile_ends Sample.counting [.rootDir] _ Sample.crowded _ 3 ⟨[0], rfl⟩
    (ticks_of_strictMono strictMono_id (Nat.zero_le _))

end CreateNew

end Tcslog
