import Mathlib.Data.List.Basic

/-!
# Stateful programs that may fail

A program reads and changes a state and ends with a value or with a failure,
keeping the state it had reached in both cases.  `Meets` is its weakest
precondition with one postcondition for each way of ending, and `Leads` is the
frame rule: a relation between the first and the last state for each of them.
-/

namespace Tcslog.Lib.Program

universe u

variable {ε σ α β : Type u}

/-- Run from `s`, the program ends in `post`, or fails in `failed`. -/
def Meets (x : EStateM ε σ α) (s : σ) (post : α → σ → Prop) (failed : ε → σ → Prop) : Prop :=
  match x.run s with
  | .ok a s' => post a s'
  | .error e s' => failed e s'

/-- `R` relates the states before and after a program that ends with a value,
and `E` those of one that fails. -/
def Leads (R E : σ → σ → Prop) (x : EStateM ε σ α) : Prop :=
  ∀ s, Meets x s (fun _ s' => R s s') (fun _ s' => E s s')

/-- The relation holds however the program ends. -/
abbrev Preserves (R : σ → σ → Prop) (x : EStateM ε σ α) : Prop :=
  Leads R R x

/-- The relation holds if the program ends with a value. -/
abbrev Returns (R : σ → σ → Prop) (x : EStateM ε σ α) : Prop :=
  Leads R (fun _ _ => True) x

section Meets

variable {x : EStateM ε σ α} {s s' : σ} {post post' : α → σ → Prop} {failed failed' : ε → σ → Prop}

theorem meets_of_ok {a : α} (ran : x.run s = .ok a s') : Meets x s post failed ↔ post a s' := by
  rw [Meets, ran]

theorem meets_of_error {e : ε} (ran : x.run s = .error e s') :
    Meets x s post failed ↔ failed e s' := by
  rw [Meets, ran]

theorem Meets.of_ok {a : α} (meets : Meets x s post failed) (ran : x.run s = .ok a s') :
    post a s' :=
  (meets_of_ok ran).mp meets

theorem Meets.of_error {e : ε} (meets : Meets x s post failed) (ran : x.run s = .error e s') :
    failed e s' :=
  (meets_of_error ran).mp meets

theorem meets_iff : Meets x s post failed ↔
    (∀ a s', x.run s = .ok a s' → post a s') ∧ (∀ e s', x.run s = .error e s' → failed e s') := by
  constructor
  · exact fun meets => ⟨fun _ _ ran => meets.of_ok ran, fun _ _ ran => meets.of_error ran⟩
  · rintro ⟨ok, error⟩
    cases ran : x.run s with
    | ok a s' => exact (meets_of_ok ran).mpr (ok a s' ran)
    | error e s' => exact (meets_of_error ran).mpr (error e s' ran)

/-- Weaker postconditions are met as well. -/
theorem Meets.imp (meets : Meets x s post failed) (onOk : ∀ a s', post a s' → post' a s')
    (onError : ∀ e s', failed e s' → failed' e s') : Meets x s post' failed' := by
  rw [meets_iff] at meets ⊢
  exact ⟨fun a s' ran => onOk a s' (meets.1 a s' ran),
    fun e s' ran => onError e s' (meets.2 e s' ran)⟩

theorem Meets.and (left : Meets x s post failed) (right : Meets x s post' failed') :
    Meets x s (fun a s' => post a s' ∧ post' a s') (fun e s' => failed e s' ∧ failed' e s') := by
  rw [meets_iff] at left right ⊢
  exact ⟨fun a s' ran => ⟨left.1 a s' ran, right.1 a s' ran⟩,
    fun e s' ran => ⟨left.2 e s' ran, right.2 e s' ran⟩⟩

theorem meets_true : Meets x s (fun _ _ => True) (fun _ _ => True) := by
  rw [meets_iff]
  exact ⟨fun _ _ _ => trivial, fun _ _ _ => trivial⟩

/-- A program ends as it ends. -/
theorem meets_run : Meets x s (fun a s' => x.run s = .ok a s') (fun e s' => x.run s = .error e s') := by
  rw [meets_iff]
  exact ⟨fun _ _ ran => ran, fun _ _ ran => ran⟩

@[simp]
theorem meets_pure {a : α} : Meets (pure a : EStateM ε σ α) s post failed ↔ post a s :=
  Iff.rfl

@[simp]
theorem meets_throw {e : ε} : Meets (throw e : EStateM ε σ α) s post failed ↔ failed e s :=
  Iff.rfl

@[simp]
theorem meets_bind {f : α → EStateM ε σ β} {post : β → σ → Prop} :
    Meets (x >>= f) s post failed ↔
      Meets x s (fun a s' => Meets (f a) s' post failed) failed := by
  simp only [Meets, EStateM.run_bind]
  cases x.run s <;> rfl

/-- What is done finally is done however the program ends. -/
@[simp]
theorem meets_finally {y : EStateM ε σ β} :
    Meets (tryFinally x y) s post failed ↔
      Meets x s (fun a s' => Meets y s' (fun _ t => post a t) failed)
        fun e s' => Meets y s' (fun _ t => failed e t) failed := by
  simp only [Meets, EStateM.run, tryFinally, tryFinally', Functor.map, EStateM.map]
  cases x s with
  | ok a s' =>
      dsimp only
      cases y s' <;> rfl
  | error e s' =>
      dsimp only
      cases y s' <;> rfl

@[simp]
theorem meets_map {f : α → β} {post : β → σ → Prop} :
    Meets (f <$> x) s post failed ↔ Meets x s (fun a s' => post (f a) s') failed := by
  rw [← bind_pure_comp, meets_bind]
  exact Iff.rfl

@[simp]
theorem meets_get {post : σ → σ → Prop} :
    Meets (get : EStateM ε σ σ) s post failed ↔ post s s :=
  Iff.rfl

@[simp]
theorem meets_set {post : PUnit → σ → Prop} :
    Meets (set s' : EStateM ε σ PUnit) s post failed ↔ post ⟨⟩ s' :=
  Iff.rfl

@[simp]
theorem meets_modify {f : σ → σ} {post : PUnit → σ → Prop} :
    Meets (modify f : EStateM ε σ PUnit) s post failed ↔ post ⟨⟩ (f s) :=
  Iff.rfl

theorem meets_ite {c : Prop} [Decidable c] {y : EStateM ε σ α} :
    Meets (if c then x else y) s post failed ↔
      (c → Meets x s post failed) ∧ (¬ c → Meets y s post failed) := by
  split <;> simp_all

end Meets

section Leads

variable {R E : σ → σ → Prop} {x : EStateM ε σ α}

theorem Leads.ok {s s' : σ} {a : α} (leads : Leads R E x) (ran : x.run s = .ok a s') : R s s' :=
  (leads s).of_ok ran

theorem Leads.error {s s' : σ} {e : ε} (leads : Leads R E x) (ran : x.run s = .error e s') :
    E s s' :=
  (leads s).of_error ran

theorem Leads.pure (refl : ∀ s, R s s) (a : α) : Leads R E (pure a : EStateM ε σ α) :=
  fun s => meets_pure.mpr (refl s)

theorem Leads.throw (refl : ∀ s, E s s) (e : ε) : Leads R E (throw e : EStateM ε σ α) :=
  fun s => meets_throw.mpr (refl s)

theorem Leads.modify {f : σ → σ} (step : ∀ s, R s (f s)) :
    Leads R E (modify f : EStateM ε σ PUnit) :=
  fun s => meets_modify.mpr (step s)

theorem Leads.bind {f : α → EStateM ε σ β} (first : Leads R E x) (rest : ∀ a, Leads R E (f a))
    (transOk : ∀ {s t u}, R s t → R t u → R s u) (transError : ∀ {s t u}, R s t → E t u → E s u) :
    Leads R E (x >>= f) := by
  intro s
  rw [meets_bind]
  refine (first s).imp (fun a t before => ?_) fun _ _ before => before
  exact (rest a t).imp (fun _ _ after => transOk before after)
    fun _ _ after => transError before after

/-- A program that first looks at its state. -/
theorem Leads.bind_get {f : σ → EStateM ε σ β}
    (rest : ∀ s, Meets (f s) s (fun _ s' => R s s') fun _ s' => E s s') :
    Leads R E ((get : EStateM ε σ σ) >>= f) := by
  intro s
  rw [meets_bind, meets_get]
  exact rest s

theorem Leads.ite {c : Prop} [Decidable c] {y : EStateM ε σ α} (onTrue : Leads R E x)
    (onFalse : Leads R E y) : Leads R E (if c then x else y) := by
  split
  · exact onTrue
  · exact onFalse

end Leads

/-! ## Invariants -/

/-- The invariant holds afterwards if it held before, however the program
ends. -/
def Maintains (I : σ → Prop) (x : EStateM ε σ α) : Prop :=
  ∀ s, I s → Meets x s (fun _ s' => I s') (fun _ s' => I s')

section Maintains

variable {I : σ → Prop} {x : EStateM ε σ α}

theorem Maintains.pure (a : α) : Maintains I (pure a : EStateM ε σ α) :=
  fun _ holds => meets_pure.mpr holds

theorem Maintains.throw (e : ε) : Maintains I (throw e : EStateM ε σ α) :=
  fun _ holds => meets_throw.mpr holds

theorem Maintains.modify {f : σ → σ} (step : ∀ s, I s → I (f s)) :
    Maintains I (modify f : EStateM ε σ PUnit) :=
  fun s holds => meets_modify.mpr (step s holds)

theorem Maintains.bind {f : α → EStateM ε σ β} (first : Maintains I x)
    (rest : ∀ a, Maintains I (f a)) : Maintains I (x >>= f) := by
  intro s holds
  rw [meets_bind]
  exact (first s holds).imp (fun a t holds' => rest a t holds') fun _ _ holds' => holds'

/-- A program that first looks at its state. -/
theorem Maintains.bind_get {f : σ → EStateM ε σ β}
    (rest : ∀ s, I s → Meets (f s) s (fun _ s' => I s') fun _ s' => I s') :
    Maintains I ((get : EStateM ε σ σ) >>= f) := by
  intro s holds
  rw [meets_bind, meets_get]
  exact rest s holds

theorem Maintains.ite {c : Prop} [Decidable c] {y : EStateM ε σ α} (onTrue : Maintains I x)
    (onFalse : Maintains I y) : Maintains I (if c then x else y) := by
  split
  · exact onTrue
  · exact onFalse

theorem Preserves.maintains {R : σ → σ → Prop} (preserves : Preserves R x)
    (carries : ∀ {s s'}, R s s' → I s → I s') : Maintains I x :=
  fun s holds => (preserves s).imp (fun _ _ step => carries step holds)
    fun _ _ step => carries step holds

end Maintains

/-! ## Failures that do not occur -/

/-- The program does not fail with `bad`. -/
def Avoids (bad : ε) (x : EStateM ε σ α) : Prop :=
  ∀ s, Meets x s (fun _ _ => True) (fun e _ => e ≠ bad)

section Avoids

variable {bad : ε} {x : EStateM ε σ α}

theorem Avoids.pure (a : α) : Avoids bad (pure a : EStateM ε σ α) :=
  fun _ => meets_pure.mpr trivial

theorem Avoids.throw {e : ε} (other : e ≠ bad) : Avoids bad (throw e : EStateM ε σ α) :=
  fun _ => meets_throw.mpr other

theorem Avoids.set (s : σ) : Avoids bad (set s : EStateM ε σ PUnit) :=
  fun _ => meets_set.mpr trivial

theorem Avoids.modify (f : σ → σ) : Avoids bad (modify f : EStateM ε σ PUnit) :=
  fun _ => meets_modify.mpr trivial

theorem Avoids.bind {f : α → EStateM ε σ β} (first : Avoids bad x) (rest : ∀ a, Avoids bad (f a)) :
    Avoids bad (x >>= f) := by
  intro s
  rw [meets_bind]
  exact (first s).imp (fun a t _ => rest a t) fun _ _ other => other

/-- A program that first looks at its state. -/
theorem Avoids.bind_get {f : σ → EStateM ε σ β} (rest : ∀ s, Avoids bad (f s)) :
    Avoids bad ((get : EStateM ε σ σ) >>= f) :=
  fun s => meets_bind.mpr (meets_get.mpr (rest s s))

theorem Avoids.ite {c : Prop} [Decidable c] {y : EStateM ε σ α} (onTrue : Avoids bad x)
    (onFalse : Avoids bad y) : Avoids bad (if c then x else y) := by
  split
  · exact onTrue
  · exact onFalse

end Avoids

end Tcslog.Lib.Program
