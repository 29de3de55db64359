import Tcslog.Lib.Program

/-!
# Programs that keep notes

A program can be run by another that does the same and besides notes what
happens on the way, so that a run can be told from its notes.  What the notes of
a part say of it is composed to what those of the whole say.
-/

namespace Tcslog.Lib.Noting

open Tcslog.Lib.Program

universe u

variable {ε σ ν α β : Type u}

/-- A state and the notes taken so far. -/
structure Noted (σ ν : Type u) where
  state : σ
  notes : List ν

/-- A program of which nothing is noted. -/
def plain (x : EStateM ε σ α) : EStateM ε (Noted σ ν) α := fun s =>
  match x.run s.state with
  | .ok a t => .ok a ⟨t, s.notes⟩
  | .error e t => .error e ⟨t, s.notes⟩

def note (added : List ν) : EStateM ε (Noted σ ν) PUnit :=
  modify fun s => ⟨s.state, s.notes ++ added⟩

/-- The state in which a program ends, however it ends. -/
def last (x : EStateM ε σ α) (s : σ) : σ :=
  match x.run s with
  | .ok _ t => t
  | .error _ t => t

/-- What is done with the value changes no state. -/
theorem last_bind_pure (x : EStateM ε σ α) (f : α → β) (s : σ) :
    last (x >>= fun a => pure (f a)) s = last x s := by
  rw [last, last, EStateM.run_bind]
  cases x.run s <;> rfl

/-- From `s` on one program does what the other does, and notes what `W` says of
the two states. -/
def Shadows (W : σ → List ν → σ → Prop) (noting : EStateM ε (Noted σ ν) α) (x : EStateM ε σ α) (s : σ) :
    Prop :=
  match x.run s with
  | .ok a t => ∃ more, W s more t ∧ ∀ notes, noting.run ⟨s, notes⟩ = .ok a ⟨t, notes ++ more⟩
  | .error e t => ∃ more, W s more t ∧ ∀ notes, noting.run ⟨s, notes⟩ = .error e ⟨t, notes ++ more⟩

/-- What is said of notes is said of no notes, and of those of one run and those
of the next in a row. -/
structure Composes (W : σ → List ν → σ → Prop) : Prop where
  refl : ∀ s, W s [] s
  trans : ∀ {s t u more more'}, W s more t → W t more' u → W s (more ++ more') u

section Shadows

variable {W : σ → List ν → σ → Prop} {noting noting' : EStateM ε (Noted σ ν) α} {x y : EStateM ε σ α}
  {s t : σ} {more : List ν}

theorem shadows_of_ok {a : α} (ran : x.run s = .ok a t) : Shadows W noting x s ↔
    ∃ more, W s more t ∧ ∀ notes, noting.run ⟨s, notes⟩ = .ok a ⟨t, notes ++ more⟩ := by
  rw [Shadows, ran]

theorem shadows_of_error {e : ε} (ran : x.run s = .error e t) : Shadows W noting x s ↔
    ∃ more, W s more t ∧ ∀ notes, noting.run ⟨s, notes⟩ = .error e ⟨t, notes ++ more⟩ := by
  rw [Shadows, ran]

/-- However the program ends, some notes say so. -/
theorem Shadows.meets (shadows : Shadows W noting x s) :
    Meets x s (fun _ t => ∃ more, W s more t) (fun _ t => ∃ more, W s more t) := by
  rw [meets_iff]
  constructor
  · intro a t ran
    obtain ⟨more, told, -⟩ := (shadows_of_ok ran).mp shadows
    exact ⟨more, told⟩
  · intro e t ran
    obtain ⟨more, told, -⟩ := (shadows_of_error ran).mp shadows
    exact ⟨more, told⟩

theorem plain_of_ok {a : α} (ran : x.run s = .ok a t) (notes : List ν) :
    (plain x).run ⟨s, notes⟩ = .ok a ⟨t, notes⟩ := by
  change plain x ⟨s, notes⟩ = _
  rw [plain, ran]

theorem plain_of_error {e : ε} (ran : x.run s = .error e t) (notes : List ν) :
    (plain x).run ⟨s, notes⟩ = .error e ⟨t, notes⟩ := by
  change plain x ⟨s, notes⟩ = _
  rw [plain, ran]

/-- Where it ends, the noting program has added notes that say so. -/
theorem Shadows.last (shadows : Shadows W noting x s) (notes : List ν) :
    ∃ more, W s more (last x s) ∧ Noting.last noting ⟨s, notes⟩ = ⟨Noting.last x s, notes ++ more⟩ := by
  cases ran : x.run s with
  | ok a t =>
      obtain ⟨more, told, runs⟩ := (shadows_of_ok ran).mp shadows
      rw [Noting.last, Noting.last, ran, runs]
      exact ⟨more, told, rfl⟩
  | error e t =>
      obtain ⟨more, told, runs⟩ := (shadows_of_error ran).mp shadows
      rw [Noting.last, Noting.last, ran, runs]
      exact ⟨more, told, rfl⟩

theorem Shadows.plain (silent : Meets x s (fun _ t => W s [] t) (fun _ t => W s [] t)) :
    Shadows W (plain x) x s := by
  cases ran : x.run s with
  | ok a t =>
      refine (shadows_of_ok ran).mpr ⟨[], silent.of_ok ran, fun notes => ?_⟩
      rw [plain_of_ok ran, List.append_nil]
  | error e t =>
      refine (shadows_of_error ran).mpr ⟨[], silent.of_error ran, fun notes => ?_⟩
      rw [plain_of_error ran, List.append_nil]

/-- A change that is noted. -/
theorem Shadows.modify (change : σ → σ) (added : σ → List ν) (told : W s (added s) (change s)) :
    Shadows W (ε := ε) (modify fun n => ⟨change n.state, n.notes ++ added n.state⟩) (modify change) s :=
  ⟨added s, told, fun _ => rfl⟩

section Composes

variable (composes : Composes W)

include composes

theorem Shadows.pure (a : α) : Shadows W (ε := ε) (pure a) (pure a) s :=
  ⟨[], composes.refl s, fun notes => by rw [List.append_nil]; rfl⟩

theorem Shadows.throw (e : ε) : Shadows W (throw e : EStateM ε (Noted σ ν) α) (throw e) s :=
  ⟨[], composes.refl s, fun notes => by rw [List.append_nil]; rfl⟩

theorem Shadows.bind {noting : EStateM ε (Noted σ ν) α} {f : α → EStateM ε (Noted σ ν) β}
    {g : α → EStateM ε σ β} (first : Shadows W noting x s)
    (rest : ∀ a t, x.run s = .ok a t → Shadows W (f a) (g a) t) :
    Shadows W (noting >>= f) (x >>= g) s := by
  cases ran : x.run s with
  | error e t =>
      obtain ⟨more, told, runs⟩ := (shadows_of_error ran).mp first
      refine (shadows_of_error (by rw [EStateM.run_bind, ran])).mpr ⟨more, told, fun notes => ?_⟩
      rw [EStateM.run_bind, runs]
  | ok a t =>
      obtain ⟨more, told, runs⟩ := (shadows_of_ok ran).mp first
      have both (notes : List ν) : (noting >>= f).run ⟨s, notes⟩ = (f a).run ⟨t, notes ++ more⟩ := by
        rw [EStateM.run_bind, runs]
      have whole : (x >>= g).run s = (g a).run t := by rw [EStateM.run_bind, ran]
      cases ran' : (g a).run t with
      | ok b u =>
          obtain ⟨more', told', runs'⟩ := (shadows_of_ok ran').mp (rest a t ran)
          refine (shadows_of_ok (whole.trans ran')).mpr ⟨_, composes.trans told told', fun notes => ?_⟩
          rw [both, runs', List.append_assoc]
      | error e u =>
          obtain ⟨more', told', runs'⟩ := (shadows_of_error ran').mp (rest a t ran)
          refine (shadows_of_error (whole.trans ran')).mpr ⟨_, composes.trans told told', fun notes => ?_⟩
          rw [both, runs', List.append_assoc]

/-- Programs that first look at the state. -/
theorem Shadows.bind_get {f : σ → EStateM ε (Noted σ ν) β} {g : σ → EStateM ε σ β}
    (rest : Shadows W (f s) (g s) s) : Shadows W (Noting.plain get >>= f) (get >>= g) s := by
  refine .bind composes (.plain (composes.refl s)) fun a t ran => ?_
  obtain ⟨rfl, rfl⟩ := EStateM.Result.ok.inj ran
  exact rest

end Composes

theorem Shadows.ite {c : Prop} [Decidable c] (onTrue : c → Shadows W noting x s)
    (onFalse : ¬ c → Shadows W noting' y s) :
    Shadows W (if c then noting else noting') (if c then x else y) s := by
  split
  next holds => exact onTrue holds
  next fails => exact onFalse fails

end Shadows

end Tcslog.Lib.Noting
