import Tcslog.Lib.Changes
import Tcslog.Write.Retry

/-!
# Learning the timer resolution

The first collision of a file's name costs a nap, and each one after it doubles
the resolution the next nap is taken from.  What was learned is kept for the
files to come, and the caller is told of every change of it.
-/

namespace Tcslog

open Lib.Program Lib.Changes

/-! ## What the caller is told and how long the writer waits -/

def WriteEvent.report : WriteEvent → Option Nat
  | .adjusted resolutionNs => some resolutionNs
  | _ => none

def WriteEvent.nap : WriteEvent → Option Nat
  | .slept ns => some ns
  | _ => none

/-- The resolutions reported, in order. -/
def reports (events : List WriteEvent) : List Nat :=
  events.filterMap WriteEvent.report

/-- The naps taken, in order. -/
def naps (events : List WriteEvent) : List Nat :=
  events.filterMap WriteEvent.nap

@[simp]
theorem reports_append (events events' : List WriteEvent) :
    reports (events ++ events') = reports events ++ reports events' :=
  List.filterMap_append

@[simp]
theorem naps_append (events events' : List WriteEvent) :
    naps (events ++ events') = naps events ++ naps events' :=
  List.filterMap_append

/-- Nothing changed of the resolution, or was said or waited for about it. -/
structure Unrelated (s t : WriteState) : Prop where
  resolution : t.timerResolution = s.timerResolution
  events : ∃ more, t.events = s.events ++ more ∧ reports more = [] ∧ naps more = []

theorem Unrelated.of_eq {s t : WriteState} (resolution : t.timerResolution = s.timerResolution)
    (events : t.events = s.events) : Unrelated s t :=
  ⟨resolution, [], by rw [events, List.append_nil], rfl, rfl⟩

theorem Unrelated.refl (s : WriteState) : Unrelated s s :=
  .of_eq rfl rfl

theorem Unrelated.trans {s t u : WriteState} (first : Unrelated s t) (second : Unrelated t u) :
    Unrelated s u := by
  obtain ⟨more, events, noReport, noNap⟩ := first.events
  obtain ⟨more', events', noReport', noNap'⟩ := second.events
  refine ⟨second.resolution.trans first.resolution, more ++ more', ?_, ?_, ?_⟩
  · rw [events', events, List.append_assoc]
  · rw [reports_append, noReport, noReport', List.append_nil]
  · rw [naps_append, noNap, noNap', List.append_nil]

theorem Aside.unrelated {s t : WriteState} (aside : Aside s t) : Unrelated s t := by
  obtain ⟨ids, events⟩ := aside.events
  refine ⟨congrArg LogWrite.timerResolution aside.same, _, events, ?_, ?_⟩
  · exact List.filterMap_eq_nil_iff.mpr (by simp [WriteEvent.report])
  · exact List.filterMap_eq_nil_iff.mpr (by simp [WriteEvent.nap])

/-! ## What collisions teach -/

/-- The resolution after so many collisions of one name. -/
def afterCollisions (resolution : Nat) : Nat → Nat
  | 0 => resolution
  | collisions + 1 => min (resolution * 2 ^ collisions) u64Max

/-- The resolutions in force after each of so many collisions of one name. -/
def learned (resolution collisions : Nat) : List Nat :=
  (List.range collisions).map fun i => afterCollisions resolution (i + 1)

/-- The resolutions in force after each collision of one name after another. -/
def learnedOf : Nat → List Nat → List Nat
  | _, [] => []
  | resolution, collisions :: rest =>
      learned resolution collisions ++ learnedOf (afterCollisions resolution collisions) rest

section Learned

variable {resolution : Nat}

theorem widened_afterCollisions (fits : resolution ≤ u64Max) (collisions : Nat) :
    widened (afterCollisions resolution collisions) (0 < collisions) =
      afterCollisions resolution (collisions + 1) := by
  cases collisions with
  | zero => simp [widened, afterCollisions, Nat.min_eq_left fits]
  | succ collisions =>
      have doubled : resolution * 2 ^ (collisions + 1) = resolution * 2 ^ collisions * 2 := by
        rw [Nat.pow_succ, Nat.mul_assoc]
      rw [decide_eq_true (Nat.succ_pos collisions), widened, if_pos rfl, afterCollisions,
        afterCollisions, doubled]
      omega

theorem afterCollisions_le (fits : resolution ≤ u64Max) (collisions : Nat) :
    afterCollisions resolution collisions ≤ u64Max := by
  cases collisions with
  | zero => exact fits
  | succ collisions => exact Nat.min_le_right _ _

/-- The more collisions, the greater the resolution. -/
theorem afterCollisions_mono (fits : resolution ≤ u64Max) {fewer more : Nat} (le : fewer ≤ more) :
    afterCollisions resolution fewer ≤ afterCollisions resolution more := by
  induction le with
  | refl => exact Nat.le_refl _
  | @step more _ inductionHypothesis =>
      refine inductionHypothesis.trans ?_
      have within := afterCollisions_le fits more
      rw [← widened_afterCollisions fits more, widened]
      split
      · omega
      · exact Nat.le_refl _

theorem le_afterCollisions (fits : resolution ≤ u64Max) (collisions : Nat) :
    resolution ≤ afterCollisions resolution collisions :=
  afterCollisions_mono fits (Nat.zero_le collisions)

theorem learned_succ (collisions : Nat) : learned resolution (collisions + 1) =
    learned resolution collisions ++ [afterCollisions resolution (collisions + 1)] := by
  rw [learned, List.range_succ, List.map_append]
  rfl

theorem getLastD_learned (collisions : Nat) :
    (learned resolution collisions).getLastD resolution =
      afterCollisions resolution collisions := by
  cases collisions with
  | zero => rfl
  | succ collisions => rw [learned_succ, List.getLastD_concat]

theorem mem_learned {collisions value : Nat} (fits : resolution ≤ u64Max)
    (mem : value ∈ learned resolution collisions) :
    resolution ≤ value ∧ value ≤ afterCollisions resolution collisions := by
  obtain ⟨i, less, rfl⟩ := List.mem_map.mp mem
  exact ⟨le_afterCollisions fits _, afterCollisions_mono fits (List.mem_range.mp less)⟩

theorem learned_sorted (fits : resolution ≤ u64Max) (collisions : Nat) :
    (learned resolution collisions).Pairwise (· ≤ ·) := by
  refine List.pairwise_map.mpr (List.pairwise_lt_range.imp fun less => ?_)
  exact afterCollisions_mono fits (Nat.succ_le_succ less.le)

/-- The last resolution in force is what all the collisions together lead to. -/
theorem getLastD_learnedOf (resolution : Nat) (collisions : List Nat) :
    (learnedOf resolution collisions).getLastD resolution =
      collisions.foldl afterCollisions resolution := by
  induction collisions generalizing resolution with
  | nil => rfl
  | cons k rest inductionHypothesis =>
      have last := inductionHypothesis (afterCollisions resolution k)
      rw [List.foldl_cons, ← last, learnedOf, List.getLastD_eq_getLast?, List.getLast?_append,
        List.getLastD_eq_getLast?]
      cases (learnedOf (afterCollisions resolution k) rest).getLast? with
      | none => exact List.getLastD_eq_getLast? ▸ getLastD_learned k
      | some value => rfl

/-- What is learned never falls. -/
theorem learnedOf_sorted (fits : resolution ≤ u64Max) (collisions : List Nat) :
    (resolution :: learnedOf resolution collisions).Pairwise (· ≤ ·) := by
  induction collisions generalizing resolution with
  | nil => exact List.pairwise_singleton _ _
  | cons k rest inductionHypothesis =>
      obtain ⟨above, sorted⟩ :=
        List.pairwise_cons.mp (inductionHypothesis (afterCollisions_le fits k))
      refine List.pairwise_cons.mpr ⟨fun value mem => ?_, ?_⟩
      · rcases List.mem_append.mp mem with here | later
        · exact (mem_learned fits here).1
        · exact (le_afterCollisions fits k).trans (above value later)
      · refine List.pairwise_append.mpr ⟨learned_sorted fits k, sorted, ?_⟩
        exact fun here mem later mem' => (mem_learned fits mem).2.trans (above later mem')

end Learned

/-! ## One naming -/

/-- The writer went through `collisions` collisions of one name. -/
structure Learns (s : WriteState) (collisions : Nat) (t : WriteState) : Prop where
  resolution : t.timerResolution = afterCollisions s.timerResolution collisions
  events : ∃ more, t.events = s.events ++ more ∧
    reports more = changes s.timerResolution (learned s.timerResolution collisions) ∧
    naps more = (learned s.timerResolution collisions).map napFor

/-- A naming came from `s` to `t` and met so many collisions on the way, whether
it goes on, has named a file or has failed. -/
inductive NamedAfter (env : WriteEnv) (attempt : Attempt) (bufs : NameBuffers) (s : WriteState) :
    Nat → WriteState → Prop
  | waits {k : Nat} {t : WriteState} {bufs' : NameBuffers}
      (collided : Collided env attempt s bufs k t bufs') : NamedAfter env attempt bufs s k t
  | named {k : Nat} {t u : WriteState} {bufs' bufs'' : NameBuffers} {id : SegId}
      (collided : Collided env attempt s bufs k t bufs')
      (ran : (tryCreate env attempt (0 < k) bufs').run t = .ok (bufs'', some id) u) :
      NamedAfter env attempt bufs s k u
  | failed {k : Nat} {t u : WriteState} {bufs' : NameBuffers} {stop : Stop}
      (collided : Collided env attempt s bufs k t bufs')
      (ran : (tryCreate env attempt (0 < k) bufs').run t = .error stop u) :
      NamedAfter env attempt bufs s k u

section Naming

variable {env : WriteEnv} {attempt : Attempt} {s t u : WriteState} {bufs bufs' : NameBuffers}
  {k : Nat}

theorem createUniqueFileWith_namedAfter (passes : Nat) :
    Meets (createUniqueFileWith env attempt passes false bufs) s
      (fun _ t => ∃ k, NamedAfter env attempt bufs s k t)
      (fun _ t => ∃ k, NamedAfter env attempt bufs s k t) := by
  have start : Collided env attempt s bufs 0 s bufs := .none
  refine (createUniqueFileWith_spec passes start).imp ?_ ?_
  · rintro _ t ⟨k, u, bufs₁, bufs₂, -, collided, ran, -⟩
    exact ⟨k, .named collided ran⟩
  · rintro stop t (⟨-, bufs₁, collided⟩ | ⟨k, u, bufs₁, -, collided, ran⟩)
    · exact ⟨_, .waits collided⟩
    · exact ⟨k, .failed collided ran⟩

theorem Learns.unrelated (learns : Learns s k t) (unrelated : Unrelated t u) : Learns s k u := by
  obtain ⟨more, events, told, waited⟩ := learns.events
  obtain ⟨more', events', noReport, noNap⟩ := unrelated.events
  refine ⟨unrelated.resolution.trans learns.resolution, more ++ more', ?_, ?_, ?_⟩
  · rw [events', events, List.append_assoc]
  · rw [reports_append, noReport, List.append_nil, told]
  · rw [naps_append, noNap, List.append_nil, waited]

/-- One collision more. -/
theorem Learns.collided (fits : s.timerResolution ≤ u64Max) (learns : Learns s k t) :
    Learns s (k + 1) (t.collided (0 < k)) := by
  obtain ⟨more, events, told, waited⟩ := learns.events
  have wider : widened t.timerResolution (0 < k) = afterCollisions s.timerResolution (k + 1) := by
    rw [learns.resolution, widened_afterCollisions fits]
  refine ⟨wider, more ++ ((if afterCollisions s.timerResolution (k + 1) ≠ t.timerResolution then
    [.adjusted (afterCollisions s.timerResolution (k + 1))] else []) ++
      [.slept (napFor (afterCollisions s.timerResolution (k + 1)))]), ?_, ?_, ?_⟩
  · rw [← List.append_assoc, ← events, ← wider]
    rfl
  · rw [reports_append, told, learned_succ, changes_append, getLastD_learned, learns.resolution]
    congr 1
    by_cases same : afterCollisions s.timerResolution (k + 1) = afterCollisions s.timerResolution k
    · rw [if_neg (not_not.mpr same), changes, if_pos same]
      rfl
    · rw [if_pos same, changes, if_neg same]
      rfl
  · rw [naps_append, waited, learned_succ, List.map_append]
    congr 1
    split <;> rfl

theorem Collided.learns (fits : s.timerResolution ≤ u64Max)
    (collided : Collided env attempt s bufs k t bufs') : Learns s k t := by
  induction collided with
  | none => exact ⟨rfl, [], (List.append_nil _).symm, rfl, rfl⟩
  | again before ran inductionHypothesis =>
      obtain ⟨v, aside, -, rfl⟩ := ((tryCreate_spec _).of_ok ran).1 rfl
      exact (inductionHypothesis.unrelated aside.unrelated).collided fits

theorem NamedAfter.learns (fits : s.timerResolution ≤ u64Max)
    (named : NamedAfter env attempt bufs s k t) : Learns s k t := by
  cases named with
  | waits collided => exact collided.learns fits
  | named collided ran =>
      have aside := ((tryCreate_spec _).of_ok ran).2 (Option.some_ne_none _)
      exact (collided.learns fits).unrelated aside.unrelated
  | failed collided ran =>
      have aside := (tryCreate_spec _).of_error ran
      exact (collided.learns fits).unrelated aside.unrelated

end Naming

/-! ## One naming after another -/

/-- A writer came from `s` to `t`, and on the way met so many collisions of each
name it tried to use. -/
inductive Namings (env : WriteEnv) : WriteState → List Nat → WriteState → Prop
  | refl (s : WriteState) : Namings env s [] s
  | other {s t u : WriteState} {collisions : List Nat} (unrelated : Unrelated s t)
      (rest : Namings env t collisions u) : Namings env s collisions u
  | name {s t u : WriteState} {attempt : Attempt} {bufs : NameBuffers} {k : Nat}
      {collisions : List Nat} (named : NamedAfter env attempt bufs s k t)
      (rest : Namings env t collisions u) : Namings env s (k :: collisions) u

/-- The resolution is the one the collisions teach, and the caller was told of
its changes. -/
structure TellsChanges (s : WriteState) (collisions : List Nat) (t : WriteState) : Prop where
  resolution : t.timerResolution = collisions.foldl afterCollisions s.timerResolution
  events : ∃ more, t.events = s.events ++ more ∧
    reports more = changes s.timerResolution (learnedOf s.timerResolution collisions)

section Namings

variable {env : WriteEnv} {s t u : WriteState} {collisions collisions' : List Nat}

theorem Namings.trans (first : Namings env s collisions t) (second : Namings env t collisions' u) :
    Namings env s (collisions ++ collisions') u := by
  induction first with
  | refl => exact second
  | other unrelated _ inductionHypothesis => exact .other unrelated (inductionHypothesis second)
  | name named _ inductionHypothesis => exact .name named (inductionHypothesis second)

theorem Namings.tells (fits : s.timerResolution ≤ u64Max) (namings : Namings env s collisions t) :
    TellsChanges s collisions t := by
  induction namings with
  | refl => exact ⟨rfl, [], (List.append_nil _).symm, rfl⟩
  | other unrelated _ inductionHypothesis =>
      obtain ⟨more, events, noReport, -⟩ := unrelated.events
      have same := unrelated.resolution
      obtain ⟨resolution, more', events', told⟩ := inductionHypothesis (same ▸ fits)
      refine ⟨resolution.trans (by rw [same]), more ++ more', ?_, ?_⟩
      · rw [events', events, List.append_assoc]
      · rw [reports_append, noReport, List.nil_append, told, same]
  | @name s t u attempt bufs k rest named _ inductionHypothesis =>
      obtain ⟨learnt, more, events, told, -⟩ := named.learns fits
      obtain ⟨resolution, more', events', told'⟩ :=
        inductionHypothesis (learnt ▸ afterCollisions_le fits k)
      refine ⟨resolution.trans (by rw [learnt, List.foldl_cons]), more ++ more', ?_, ?_⟩
      · rw [events', events, List.append_assoc]
      · rw [reports_append, told, told', learnt, learnedOf, changes_append, getLastD_learned]

/-- The resolution a writer has never falls, and is the one it reported last. -/
theorem TellsChanges.latest (fits : s.timerResolution ≤ u64Max) (tells : TellsChanges s collisions t) :
    s.timerResolution ≤ t.timerResolution ∧ ∃ more, t.events = s.events ++ more ∧
      (reports more).getLastD s.timerResolution = t.timerResolution ∧
      (s.timerResolution :: reports more).Pairwise (· < ·) := by
  obtain ⟨resolution, more, events, told⟩ := tells
  have last := getLastD_learnedOf s.timerResolution collisions
  have sorted := learnedOf_sorted fits collisions
  refine ⟨?_, more, events, ?_, ?_⟩
  · rw [resolution, ← last]
    rcases List.mem_cons.mp (List.getLastD_mem_cons) with same | mem
    · exact same.ge
    · exact (List.pairwise_cons.mp sorted).1 _ mem
  · rw [told, getLastD_changes, last, resolution]
  · rw [told]
    exact changes_rise sorted

end Namings

/-! ## The requests of a writer -/

section Requests

variable (env : WriteEnv)

theorem tick_unrelated : Preserves Unrelated tick := by
  intro s
  refine tick_spec.imp ?_ (by simp)
  rintro t _ ⟨-, rfl⟩
  exact .of_eq rfl rfl

theorem emit_unrelated {event : WriteEvent} (change : Dir → Dir)
    (silent : event.report = none ∧ event.nap = none) : Preserves Unrelated (emit event change) := by
  apply Leads.modify
  intro s
  refine ⟨rfl, [event], rfl, ?_, ?_⟩
  · rw [reports, List.filterMap_cons_none silent.1]
    rfl
  · rw [naps, List.filterMap_cons_none silent.2]
    rfl

/-- A request that looks at the state before it says what it did. -/
theorem unrelated_of_get {α : Type} {x : WriteState → WriteM α}
    (rest : ∀ s, Preserves Unrelated (x s)) : Preserves Unrelated (get >>= x) :=
  .bind_get fun s => rest s s

theorem fileName_unrelated (id : SegId) : Preserves Unrelated (fileName id) :=
  unrelated_of_get fun _ => .pure .refl _

theorem flushFile_unrelated (id : SegId) : Preserves Unrelated (flushFile env id) :=
  .bind tick_unrelated (fun _ => .ite (.throw .refl _) (emit_unrelated _ ⟨rfl, rfl⟩)) .trans .trans

theorem recordComplete_unrelated (id : SegId) : Preserves Unrelated (recordComplete env id) :=
  .bind tick_unrelated (fun _ => .ite (.throw .refl _) (emit_unrelated _ ⟨rfl, rfl⟩)) .trans .trans

theorem send_unrelated (id : SegId) : Preserves Unrelated (send env id) := by
  apply Leads.bind tick_unrelated (fun _ => ?_) .trans .trans
  apply Leads.bind (fileName_unrelated id) (fun _ => ?_) .trans .trans
  exact .ite (.throw .refl _) (emit_unrelated _ ⟨rfl, rfl⟩)

theorem removeFile_unrelated (id : SegId) : Preserves Unrelated (removeFile env id) := by
  apply Leads.bind tick_unrelated (fun _ => ?_) .trans .trans
  apply Leads.bind (fileName_unrelated id) (fun _ => ?_) .trans .trans
  exact unrelated_of_get fun _ => .ite (.throw .refl _) (emit_unrelated _ ⟨rfl, rfl⟩)

theorem writeAll_unrelated (id : SegId) (bytes : Bytes) :
    Preserves Unrelated (writeAll env id bytes) := by
  apply Leads.bind tick_unrelated (fun _ => ?_) .trans .trans
  apply Leads.bind (fileName_unrelated id) (fun _ => ?_) .trans .trans
  apply Leads.ite
  · exact .bind (emit_unrelated _ ⟨rfl, rfl⟩) (fun _ => .pure .refl _) .trans .trans
  · exact .bind (emit_unrelated _ ⟨rfl, rfl⟩) (fun _ => .pure .refl _) .trans .trans

theorem scan_unrelated : Preserves Unrelated (scan env) := by
  apply Leads.bind tick_unrelated (fun _ => ?_) .trans .trans
  exact unrelated_of_get fun _ => .ite (.throw .refl _) (.pure .refl _)

theorem now_unrelated : Preserves Unrelated (now env) := by
  apply Leads.bind tick_unrelated (fun _ => ?_) .trans .trans
  exact unrelated_of_get fun _ => .ite (.throw .refl _) (preserves_liftExcept .refl _)

/-- A run of the writer's own in which it named files one after another. -/
def NamesFiles (s t : WriteState) : Prop :=
  ∃ collisions, Namings env s collisions t

theorem NamesFiles.trans {s t u : WriteState} (first : NamesFiles env s t)
    (second : NamesFiles env t u) : NamesFiles env s u := by
  obtain ⟨collisions, first⟩ := first
  obtain ⟨collisions', second⟩ := second
  exact ⟨collisions ++ collisions', first.trans second⟩

theorem Unrelated.namesFiles {s t : WriteState} (unrelated : Unrelated s t) : NamesFiles env s t :=
  ⟨[], .other unrelated (.refl t)⟩

theorem namesFiles_of_eq {s t : WriteState} (resolution : t.timerResolution = s.timerResolution)
    (events : t.events = s.events) : NamesFiles env s t :=
  (Unrelated.of_eq resolution events).namesFiles env

theorem namesFiles_of_unrelated {α : Type} {x : WriteM α} (unrelated : Preserves Unrelated x) :
    Preserves (NamesFiles env) x :=
  fun s => (unrelated s).imp (fun _ _ step => step.namesFiles env) fun _ _ step => step.namesFiles env

/-- The writer's own naming is one with the attempt it makes. -/
theorem createUniqueFile_namesFiles (passes : Nat) :
    Preserves (NamesFiles env) (createUniqueFile env passes false) := by
  intro s
  have within : (⟨[], PathBuf.join [] []⟩ : NameBuffers).Within [] := ⟨[], rfl⟩
  refine (meets_createUniqueFileWith .refuse passes false within).mp ?_
  refine (createUniqueFileWith_namedAfter passes).imp ?_ ?_
  · rintro _ t ⟨k, named⟩
    exact ⟨[k], .name named (.refl t)⟩
  · rintro _ t ⟨k, named⟩
    exact ⟨[k], .name named (.refl t)⟩

theorem createSegment_namesFiles (opensSession : Bool) :
    Preserves (NamesFiles env) (createSegment env opensSession) := by
  apply Leads.bind (createUniqueFile_namesFiles env _) (fun id => ?_) (.trans env) (.trans env)
  refine Leads.bind (.modify fun _ => ?_) (fun _ => ?_) (.trans env) (.trans env)
  · exact namesFiles_of_eq env rfl rfl
  apply Leads.bind_get
  intro s
  refine Leads.bind (namesFiles_of_unrelated env (writeAll_unrelated env id _)) (fun done => ?_)
    (.trans env) (.trans env) s
  apply Leads.ite
  · exact .modify fun _ => namesFiles_of_eq env rfl rfl
  · exact .throw (fun _ => namesFiles_of_eq env rfl rfl) _

/-- Whatever a writer is asked, it names files one after another. -/
theorem namesFiles_followsAll : FollowsAll env (NamesFiles env) where
  refl _ := namesFiles_of_eq env rfl rfl
  trans := .trans env
  createSegment := createSegment_namesFiles env false
  writeAll id bytes := namesFiles_of_unrelated env (writeAll_unrelated env id bytes)
  flushFile id := namesFiles_of_unrelated env (flushFile_unrelated env id)
  send id := namesFiles_of_unrelated env (send_unrelated env id)
  close _ := namesFiles_of_eq env rfl rfl
  wrote _ _ _ := namesFiles_of_eq env rfl rfl
  book _ _ _ := namesFiles_of_eq env rfl rfl
  openSegment := createSegment_namesFiles env true
  now := namesFiles_of_unrelated env (now_unrelated env)
  recordComplete id := namesFiles_of_unrelated env (recordComplete_unrelated env id)
  removeFile id := namesFiles_of_unrelated env (removeFile_unrelated env id)
  scan := namesFiles_of_unrelated env (scan_unrelated env)
  note _ _ _ := namesFiles_of_eq env rfl rfl

/-- Until it names its first file a writer has the resolution it was given. -/
theorem prepare_resolution (args : NewArgs) (s : WriteState) : Meets (LogWrite.prepare env args) s
    (fun _ t => Unrelated { s with timerResolution := env.timerResolutionNs } t)
    (fun _ _ => True) := by
  have clockNew : Preserves Unrelated (Clock.new env args.sinceEpoch) := by
    cases args.sinceEpoch with
    | none => exact .throw .refl _
    | some ns => exact .bind tick_unrelated (fun _ => preserves_liftExcept .refl _) .trans .trans
  have past (id : SegId) : Preserves Unrelated (advancePast env id) := by
    apply Leads.bind (preserves_liftExcept .refl _) (fun _ => ?_) .trans .trans
    apply Leads.bind (now_unrelated env) (fun _ => ?_) .trans .trans
    apply Leads.ite ?_ (.pure .refl _)
    apply unrelated_of_get
    intro s
    exact .bind (preserves_liftExcept .refl _) (fun _ => .modify fun _ => .of_eq rfl rfl) .trans .trans
  have each : Preserves Unrelated (forEachSegmentFile env (send env)) := by
    apply Leads.bind (scan_unrelated env) (fun ids => ?_) .trans .trans
    exact .bind (preserves_forM .refl .trans (send_unrelated env) ids) (fun _ => .pure .refl _)
      .trans .trans
  simp only [LogWrite.prepare, meets_ite, meets_fail]
  refine ⟨fun _ => trivial, fun _ => ⟨fun _ => trivial, fun _ => ⟨fun _ => trivial, fun _ => ?_⟩⟩⟩
  rw [meets_bind]
  refine (clockNew s).imp (fun clock t read => ?_) fun _ _ _ => trivial
  rw [meets_bind]
  refine meets_liftExcept (fun _ _ => ?_) fun _ _ => trivial
  rw [meets_bind, meets_modify, meets_bind]
  have set : Unrelated { s with timerResolution := env.timerResolutionNs }
      { t with toLogWrite := .fresh env args clock } := ⟨rfl, read.events⟩
  refine (each _).imp (fun highest u sent => ?_) fun _ _ _ => trivial
  cases highest with
  | none => exact set.trans sent
  | some highest =>
      exact (past highest u).imp (fun _ v passed => set.trans (sent.trans passed))
        fun _ _ _ => trivial

/-- A writer that was opened, and the calls made of it since, named files one
after another from the resolution it was given. -/
theorem calls_namesFiles (args : NewArgs) (s : WriteState) : Meets (LogWrite.new env args) s
    (fun _ t => ∀ (trail : Trail) (calls : List Call), trail.state = t →
      NamesFiles env { s with timerResolution := env.timerResolutionNs }
        (calls.foldl (Trail.call env) trail).state)
    (fun _ _ => True) := by
  rw [LogWrite.new_eq, meets_bind]
  refine (prepare_resolution env args s).imp (fun _ t opened => ?_) fun _ _ _ => trivial
  refine ((namesFiles_followsAll env).startSession t).imp ?_ fun _ _ _ => trivial
  rintro _ u started trail calls rfl
  have called := (namesFiles_followsAll env).calls trail calls
  exact (opened.namesFiles env).trans env (started.trans env called)

end Requests

/-! ## The law of the resolution -/

/-- What naming a file with so many collisions does. -/
structure Widens (s : WriteState) (collisions : Nat) (t : WriteState) : Prop where
  resolution : t.timerResolution =
    if collisions = 0 then s.timerResolution
    else min (s.timerResolution * 2 ^ (collisions - 1)) u64Max
  waits : ∃ more, t.events = s.events ++ more ∧ (naps more).length = collisions ∧
    (naps more).Pairwise (· ≤ ·) ∧ ∀ ns ∈ naps more, min (2 * s.timerResolution) u64Max ≤ ns

theorem Learns.widens {s t : WriteState} {k : Nat} (fits : s.timerResolution ≤ u64Max)
    (learns : Learns s k t) : Widens s k t := by
  obtain ⟨resolution, more, events, -, waited⟩ := learns
  have napFor_mono {less greater : Nat} (le : less ≤ greater) : napFor less ≤ napFor greater := by
    unfold napFor
    omega
  refine ⟨?_, more, events, ?_, ?_, fun ns mem => ?_⟩
  · cases k with
    | zero => exact resolution
    | succ k => exact resolution
  · rw [waited, List.length_map, learned, List.length_map, List.length_range]
  · rw [waited]
    exact List.pairwise_map.mpr ((learned_sorted fits k).imp napFor_mono)
  · rw [waited] at mem
    obtain ⟨value, learnt, rfl⟩ := List.mem_map.mp mem
    rw [Nat.mul_comm]
    exact napFor_mono (mem_learned fits learnt).1

/-- The resolution follows the collisions.  Naming one file, whatever each attempt
says, widens it once for every collision but the first and waits no less each
time.  Over any number of files it never falls and the caller is told of its
changes and of nothing else, so the last one reported is the one in force; and
that is all a writer does about it from its opening on. -/
theorem resolution_follows_collisions (env : WriteEnv) :
    (∀ attempt bufs passes s, s.timerResolution ≤ u64Max →
      Meets (createUniqueFileWith env attempt passes false bufs) s
        (fun _ t => ∃ k, NamedAfter env attempt bufs s k t ∧ Widens s k t)
        (fun _ t => ∃ k, NamedAfter env attempt bufs s k t ∧ Widens s k t)) ∧
    (∀ s collisions t, s.timerResolution ≤ u64Max → Namings env s collisions t →
      s.timerResolution ≤ t.timerResolution ∧
      t.timerResolution = collisions.foldl afterCollisions s.timerResolution ∧
      ∃ more, t.events = s.events ++ more ∧
        reports more = changes s.timerResolution (learnedOf s.timerResolution collisions) ∧
        (reports more).getLastD s.timerResolution = t.timerResolution ∧
        (s.timerResolution :: reports more).Pairwise (· < ·)) ∧
    ∀ args s, Meets (LogWrite.new env args) s
      (fun _ t => ∀ (trail : Trail) (calls : List Call), trail.state = t → ∃ collisions,
        Namings env { s with timerResolution := env.timerResolutionNs } collisions
          (calls.foldl (Trail.call env) trail).state)
      (fun _ _ => True) := by
  refine ⟨fun attempt bufs passes s fits => ?_, fun s collisions t fits namings => ?_, fun args s =>
    calls_namesFiles env args s⟩
  · refine (createUniqueFileWith_namedAfter passes).imp ?_ ?_
    · rintro _ t ⟨k, named⟩
      exact ⟨k, named, (named.learns fits).widens fits⟩
    · rintro _ t ⟨k, named⟩
      exact ⟨k, named, (named.learns fits).widens fits⟩
  · have tells := namings.tells fits
    obtain ⟨grows, more, events, last, rising⟩ := tells.latest fits
    obtain ⟨resolution, more', events', told⟩ := tells
    obtain rfl : more = more' := List.append_cancel_left (events.symm.trans events')
    exact ⟨grows, resolution, more, events, told, last, rising⟩

/-- The first attempts find a file of every name. -/
def Sample.taken : Attempt where
  run _ := do
    let t ← tick
    return if t < 6 then .alreadyExists else .made
  aside _ := by
    refine .bind (fun s => ?_) (fun _ => .pure .refl _) .trans .trans
    exact tick_spec.imp (fun _ _ ticked => ticked.2 ▸ aside_tick s) (by simp)

/-- Three collisions teach four times the resolution. -/
theorem resolution_follows_collisions_sample :
    let last := (Trail.ending (createUniqueFileWith Sample.counting Sample.taken 4 false ⟨[], []⟩)
      Sample.crowded).2
    last.timerResolution = 20 ∧ ∃ k, Widens Sample.crowded k last ∧
      ∃ more, last.events = Sample.crowded.events ++ more ∧
        (reports more).getLastD 5 = last.timerResolution := by
  obtain ⟨naming, run, -⟩ := resolution_follows_collisions Sample.counting
  obtain ⟨k, named, widens⟩ :=
    ending_meets (naming Sample.taken ⟨[], []⟩ 4 Sample.crowded (by decide))
  obtain ⟨-, -, more, events, -, last, -⟩ := run _ [k] _ (by decide) (.name named (.refl _))
  exact ⟨by decide +kernel, k, widens, more, events, last⟩

end Tcslog
