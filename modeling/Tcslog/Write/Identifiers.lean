import Tcslog.Write.Observed

/-!
# Identifiers of one writer

A writer names each file by its clock, and a reading that names a file already
there is not used.  A reading equal to the last one is used again if that file
is gone.
-/

namespace Tcslog

open Lib.Program WriteState

/-- The writer goes on without creating a file; a clock is only set before the
first. -/
structure Quiet (s s' : WriteState) : Prop where
  later : s.ops ≤ s'.ops
  clock : createdIds s.events = [] ∨ s'.clock = s.clock
  created : createdIds s'.events = createdIds s.events

theorem Plain.quiet {s s' : WriteState} (plain : Plain s s') : Quiet s s' :=
  ⟨plain.later, .inr plain.clock, plain.created⟩

/-- A run of a writer, with the state it was in whenever it named a file. -/
inductive Runs (env : WriteEnv) : WriteState → List (WriteState × SegId) → WriteState → Prop
  | refl (s : WriteState) : Runs env s [] s
  | quiet {s t u : WriteState} {namings : List (WriteState × SegId)} (quiet : Quiet s t)
      (runs : Runs env t namings u) : Runs env s namings u
  | name {s t u : WriteState} {id : SegId} {namings : List (WriteState × SegId)}
      (names : Names env s id t) (runs : Runs env t namings u) : Runs env s ((s, id) :: namings) u

/-- Whatever the next file is named, it is not the name of the last one: that
file is still there, or the clock reads later. -/
def Distinct (env : WriteEnv) (s : WriteState) : Prop :=
  ∀ id, (createdIds s.events).getLast? = some id →
    (s.files id).isSome ∨ id.toNat < env.reading s.clock s.ops

instance (env : WriteEnv) (s : WriteState) : Decidable (Distinct env s) :=
  decidable_of_iff ((createdIds s.events).getLast?.all fun id =>
      (s.files id).isSome ∨ id.toNat < env.reading s.clock s.ops) <| by
    simp [Option.all_eq_true, Distinct]

/-- The clock reads no less than any identifier used. -/
def Behind (env : WriteEnv) (s : WriteState) : Prop :=
  ∀ id ∈ createdIds s.events, id.toNat ≤ env.reading s.clock s.ops

section Runs

variable {env : WriteEnv} {s t u : WriteState} {id : SegId} {namings : List (WriteState × SegId)}

theorem Runs.trans {more : List (WriteState × SegId)} (first : Runs env s namings t)
    (second : Runs env t more u) : Runs env s (namings ++ more) u := by
  induction first with
  | refl _ => exact second
  | quiet quiet _ ih => exact .quiet quiet (ih second)
  | name names _ ih => exact .name names (ih second)

theorem Plain.runs (plain : Plain s t) : Runs env s [] t :=
  .quiet plain.quiet (.refl t)

theorem Quiet.behind (quiet : Quiet s t) (behind : Behind env s) : Behind env t := by
  intro id mem
  rw [quiet.created] at mem
  rcases quiet.clock with none | same
  · simp [none] at mem
  · rw [same]
    exact (behind id mem).trans (env.reading_mono _ quiet.later)

theorem Names.behind (names : Names env s id t) (behind : Behind env s) : Behind env t := by
  obtain ⟨n, later, before, isReading⟩ := names.reading
  intro a mem
  rw [names.created, List.mem_append, List.mem_singleton] at mem
  rw [names.clock]
  rcases mem with older | rfl
  · exact (behind a older).trans (env.reading_mono _ (later.trans before.le))
  · exact isReading ▸ env.reading_mono _ before.le

/-- A naming keeps the identifiers in order just if it cannot use the last one
again. -/
theorem Names.increasing (names : Names env s id t) (behind : Behind env s) :
    (createdIds t.events).Pairwise (· < ·) ↔
      (createdIds s.events).Pairwise (· < ·) ∧ Distinct env s := by
  obtain ⟨n, later, _, isReading⟩ := names.reading
  have reads := env.reading_mono s.clock later
  rw [names.created, List.pairwise_append]
  constructor
  · rintro ⟨increasing, -, less⟩
    refine ⟨increasing, fun last isLast => ?_⟩
    by_cases present : (s.files last).isSome
    · exact .inl present
    · have mem := List.mem_of_getLast? isLast
      refine .inr (lt_of_le_of_ne (behind last mem) fun same => ?_)
      have read : UInt64.ofNat (env.reading s.clock s.ops) = last := by
        rw [← same, UInt64.ofNat_toNat]
      have gone : s.files last = none := Option.not_isSome_iff_eq_none.mp present
      have again := names.first (read.symm ▸ gone)
      rw [read] at again
      exact absurd (less last mem id (by simp)) (again ▸ UInt64.lt_irrefl id)
  · rintro ⟨increasing, distinct⟩
    refine ⟨increasing, List.pairwise_singleton _ _, ?_⟩
    intro a mem b isId
    obtain rfl := List.mem_singleton.mp isId
    obtain ⟨front, last, split⟩ : ∃ front last, createdIds s.events = front ++ [last] :=
      ⟨_, _, (List.dropLast_append_getLast (List.ne_nil_of_mem mem)).symm⟩
    have isLast : (createdIds s.events).getLast? = some last := by simp [split]
    have below : last < b := by
      have le := behind last (List.mem_of_getLast? isLast)
      rcases distinct last isLast with present | passed
      · refine UInt64.lt_iff_toNat_lt.mpr (lt_of_le_of_ne ?_ fun same => ?_)
        · exact isReading ▸ le.trans reads
        · rw [UInt64.toNat_inj.mp same, names.free] at present
          contradiction
      · exact UInt64.lt_iff_toNat_lt.mpr (isReading ▸ passed.trans_le reads)
    rw [split, List.pairwise_append] at increasing
    rw [split, List.mem_append, List.mem_singleton] at mem
    rcases mem with older | rfl
    · exact UInt64.lt_trans (increasing.2.2 a older last (by simp)) below
    · exact below

theorem Runs.increasing (runs : Runs env s namings t) (behind : Behind env s) :
    (createdIds t.events).Pairwise (· < ·) ↔
      (createdIds s.events).Pairwise (· < ·) ∧ ∀ naming ∈ namings, Distinct env naming.1 := by
  induction runs with
  | refl s => simp
  | quiet quiet _ ih => rw [ih (quiet.behind behind), quiet.created]
  | name names _ ih =>
      rw [ih (names.behind behind), names.increasing behind, List.forall_mem_cons, and_assoc]

end Runs

/-! ## The calls of a writer -/

section Calls

variable (env : WriteEnv)

/-- A relation that holds of plain requests and of namings. -/
structure Covers (env : WriteEnv) (R : WriteState → WriteState → Prop) : Prop where
  trans : ∀ {s t u}, R s t → R t u → R s u
  plain : ∀ {s t}, Plain s t → R s t
  names : ∀ {s id t}, Names env s id t → R s t

theorem Covers.createSegment {R : WriteState → WriteState → Prop} (covers : Covers env R)
    (opensSession : Bool) : Preserves R (Tcslog.createSegment env opensSession) := by
  intro s
  rw [Tcslog.createSegment, meets_bind]
  refine (createUniqueFile_names env _ _ s).imp (fun id t names => ?_) fun _ _ step => covers.plain step.toPlain
  simp only [meets_bind, meets_modify, meets_get]
  have named {u v : WriteState} (step : Plain u v) (ops : u.ops = t.ops) (clock : u.clock = t.clock)
      (events : u.events = t.events) : R s v :=
    covers.trans (covers.names names) (covers.plain ((Plain.of_eq ops clock events).trans step))
  refine (writeAll_asked env id _ _).imp (fun done u step => ?_) fun _ u step =>
    named step.toPlain rfl rfl rfl
  cases done with
  | true => exact covers.trans (named step.toPlain rfl rfl rfl) (covers.plain (.of_eq rfl rfl rfl))
  | false => exact named step.toPlain rfl rfl rfl

end Calls

section Calls

variable {env : WriteEnv} {s t : WriteState}

/-- What a writer notes of its namings is a run of them. -/
theorem attests_runs : Attests env fun s notes t => Runs env s (Note.namings notes) t where
  refl := .refl
  trans first second := by
    rw [Note.namings_append]
    exact first.trans second
  creates := by
    intro opensSession s notes t _ creates
    have named {t u v : WriteState} {id sessionId : SegId} {header : SegmentHeader} {done : Bool}
        (ran : (createUniqueFile env env.attempts false).run s = .ok id t)
        (wrote : (writeAll env id header.toBytes).run { t with sessionId := sessionId } = .ok done u)
        (rest : Plain u v) : Runs env s [(s, id)] v := by
      have adopted : Plain t { t with sessionId := sessionId } := .of_eq rfl rfl rfl
      have stored := ((writeAll_asked env id _ _).of_ok wrote).toPlain.trans rest
      exact .name ((createUniqueFile_names env _ _ s).of_ok ran) (adopted.trans stored).runs
    cases creates with
    | unnamed failed => exact ((createUniqueFile_names env _ _ s).of_error failed).toPlain.runs
    | stored ran _ wrote => exact named ran wrote (.of_eq rfl rfl rfl)
    | refused ran _ wrote => cases opensSession <;> exact named ran wrote (.refl _)
  closes _ := Plain.runs (.of_eq rfl rfl rfl)
  asked asked := asked.toPlain.runs
  wrote _ _ := Plain.runs (.of_eq rfl rfl rfl)
  book _ _ _ := Plain.runs (.of_eq rfl rfl rfl)
  note _ _ _ := Plain.runs (.of_eq rfl rfl rfl)

/-- Opening a writer sets its clock before it names a file. -/
theorem prepare_quiet (args : NewArgs) (unnamed : createdIds s.events = []) (idle : s.current = none) :
    Meets (LogWrite.prepare env args) s (fun _ t => Runs env s [] t ∧ t.current = none)
      (fun _ t => Runs env s [] t) := by
  have silent {α : Type} {x : WriteM α} (asked : Preserves Asked x) :
      Preserves (fun s t => s.ops ≤ t.ops ∧ createdIds t.events = createdIds s.events ∧
        (s.current = none → t.current = none)) x := by
    intro s
    have kept {t : WriteState} (step : Asked s t) : s.ops ≤ t.ops ∧ createdIds t.events = createdIds s.events ∧
        (s.current = none → t.current = none) :=
      ⟨step.later, step.created, fun idle => by rw [step.same]; exact idle⟩
    exact (asked s).imp (fun _ _ step => kept step) fun _ _ step => kept step
  have prepares := prepare_preserves
    (R := fun s t => s.ops ≤ t.ops ∧ createdIds t.events = createdIds s.events ∧
      (s.current = none → t.current = none))
    (fun _ => ⟨Nat.le_refl _, rfl, id⟩)
    (fun first second => ⟨first.1.trans second.1, second.2.1.trans first.2.1, second.2.2 ∘ first.2.2⟩)
    (fun s => ⟨Nat.le_succ _, rfl, id⟩) (silent (now_asked env)) (fun id => silent (send_asked env id))
    (silent (scan_asked env)) args (fun _ _ => ⟨Nat.le_refl _, rfl, fun _ => rfl⟩)
    (fun _ _ => ⟨Nat.le_refl _, rfl, id⟩)
  have still {t : WriteState} (later : s.ops ≤ t.ops) (created : createdIds t.events = createdIds s.events) :
      Runs env s [] t :=
    .quiet ⟨later, .inl unnamed, created⟩ (.refl t)
  exact (prepares s).imp (fun _ t step => ⟨still step.1 step.2.1, step.2.2 idle⟩) fun _ t step =>
    still step.1 step.2.1

/-- The identifiers of one writer increase just if it names no file while its
last file is gone and the clock has not moved on from its name. -/
theorem ids_increase_iff (env : WriteEnv) (dir : Dir) (life : Life) :
    (Observed.live env life (Trail.start dir).state).state = (Trail.run env dir [life]).state ∧
      ((createdIds (Trail.run env dir [life]).state.events).Pairwise (· < ·) ↔
        ∀ naming ∈ Note.namings (Observed.live env life (Trail.start dir).state).notes,
          Distinct env naming.1) := by
  have start : createdIds (Trail.start dir).state.events = [] := rfl
  obtain ⟨runs, same⟩ := attests_runs.live life (Trail.start dir) (prepare_quiet life.args rfl rfl)
  refine ⟨same, ?_⟩
  rw [same] at runs
  rw [Trail.run, List.foldl_cons, List.foldl_nil, runs.increasing (by simp [Behind, start]), start]
  simp

end Calls

namespace Sample

/-- A clock of one tick, and a caller that removes every file handed to it. -/
def takingEnv : WriteEnv where
  isDir := true
  fault _ := false
  stored _ := 0
  instant _ := 0
  instant_mono := fun _ _ _ => Nat.le_refl _
  sends _ := .remove
  timerResolutionNs := 1
  attempts := 3
  overflowChecks := true

/-- Two records, each of which fills a file. -/
def fillingLife : Life :=
  ⟨⟨[], [], 60, .variableSimple, some 1000⟩,
    [.write [1, 2, 3], .write [4, 5, 6]]⟩

end Sample

/-- The file a full one is rolled to takes its name once the caller has removed
it. -/
theorem ids_reused :
    createdIds (Trail.run Sample.takingEnv ∅ [Sample.fillingLife]).state.events = [1000, 1000] ∧
      ¬ (createdIds (Trail.run Sample.takingEnv ∅ [Sample.fillingLife]).state.events).Pairwise
        (· < ·) := by
  decide +kernel

/-- Where the clock ticks with every request it has moved on before each file
but the first is named, and the same calls use no name twice. -/
theorem ids_increase_sample :
    let env := { Sample.takingEnv with instant := id, instant_mono := monotone_id }
    let namings := Note.namings (Observed.live env Sample.fillingLife (Trail.start ∅).state).notes
    namings.map Prod.snd = [1002, 1010] ∧ (∀ naming ∈ namings, Distinct env naming.1) ∧
      (createdIds (Trail.run env ∅ [Sample.fillingLife]).state.events).Pairwise (· < ·) := by
  intro env namings
  have distinct : ∀ naming ∈ namings, Distinct env naming.1 := by decide +kernel
  exact ⟨by decide +kernel, distinct, (ids_increase_iff env ∅ Sample.fillingLife).2.mpr distinct⟩

end Tcslog
