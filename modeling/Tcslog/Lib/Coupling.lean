import Tcslog.Lib.Program

/-!
# Two programs side by side

`Couples` is the relational counterpart of `Meets`: run from two states, two
programs either both end with values or both fail, and a relation holds between
what they end with.  `Agrees` is the frame of such a pair: from related states
both end with the same value in related states, or fail in related ways.
-/

namespace Tcslog.Lib.Program

universe u

variable {ε ε' σ τ υ α β γ δ : Type u}

/-- Run from `s` and `t`, both programs end with values in `post`, or both fail
in `failed`. -/
def Couples (x : EStateM ε σ α) (y : EStateM ε' τ β) (s : σ) (t : τ)
    (post : α → β → σ → τ → Prop) (failed : ε → ε' → σ → τ → Prop) : Prop :=
  Meets x s (fun a s' => Meets y t (fun b t' => post a b s' t') fun _ _ => False)
    fun e s' => Meets y t (fun _ _ => False) fun e' t' => failed e e' s' t'

/-- From related states both programs end with the same value in related
states, or fail in related ways. -/
def Agrees (R : σ → τ → Prop) (F : ε → ε' → σ → τ → Prop) (x : EStateM ε σ α)
    (y : EStateM ε' τ α) : Prop :=
  ∀ s t, R s t → Couples x y s t (fun a b s' t' => a = b ∧ R s' t') F

section Couples

variable {x : EStateM ε σ α} {y : EStateM ε' τ β} {s s' : σ} {t t' : τ}
  {post post' : α → β → σ → τ → Prop} {failed failed' : ε → ε' → σ → τ → Prop}

/-- Weaker postconditions hold as well. -/
theorem Couples.imp (couples : Couples x y s t post failed)
    (onOk : ∀ a b s' t', post a b s' t' → post' a b s' t')
    (onError : ∀ e e' s' t', failed e e' s' t' → failed' e e' s' t') :
    Couples x y s t post' failed' := by
  refine Meets.imp couples ?_ ?_
  · exact fun a s' right => right.imp (fun b t' => onOk a b s' t') fun _ _ impossible => impossible
  · exact fun e s' right => right.imp (fun _ _ impossible => impossible) fun e' t' => onError e e' s' t'

/-- What one of the programs meets by itself holds as well. -/
theorem Couples.and_meets {left : α → σ → Prop} {leftFailed : ε → σ → Prop}
    (couples : Couples x y s t post failed) (meets : Meets x s left leftFailed) :
    Couples x y s t (fun a b s' t' => post a b s' t' ∧ left a s')
      (fun e e' s' t' => failed e e' s' t' ∧ leftFailed e s') := by
  refine (Meets.and couples meets).imp ?_ ?_
  · exact fun a s' both => both.1.imp (fun b t' related => ⟨related, both.2⟩)
      fun _ _ impossible => impossible
  · exact fun e s' both => both.1.imp (fun _ _ impossible => impossible)
      fun e' t' related => ⟨related, both.2⟩

/-- Programs that end with values in related states. -/
theorem couples_of_meets {left : α → σ → Prop} {right : β → τ → Prop}
    (meets : Meets x s left fun _ _ => False) (meets' : Meets y t right fun _ _ => False)
    (related : ∀ a b s' t', left a s' → right b t' → post a b s' t') :
    Couples x y s t post failed := by
  refine meets.imp (fun a s' left => ?_) fun _ _ impossible => impossible.elim
  exact meets'.imp (fun b t' right => related a b s' t' left right) fun _ _ impossible => impossible

@[simp]
theorem couples_pure {a : α} {b : β} :
    Couples (pure a : EStateM ε σ α) (pure b : EStateM ε' τ β) s t post failed ↔ post a b s t :=
  Iff.rfl

@[simp]
theorem couples_throw {e : ε} {e' : ε'} :
    Couples (throw e : EStateM ε σ α) (throw e' : EStateM ε' τ β) s t post failed ↔
      failed e e' s t :=
  Iff.rfl

@[simp]
theorem couples_get {post : σ → τ → σ → τ → Prop} :
    Couples (get : EStateM ε σ σ) (get : EStateM ε' τ τ) s t post failed ↔ post s t s t :=
  Iff.rfl

@[simp]
theorem couples_set {post : PUnit → PUnit → σ → τ → Prop} :
    Couples (set s' : EStateM ε σ PUnit) (set t' : EStateM ε' τ PUnit) s t post failed ↔
      post ⟨⟩ ⟨⟩ s' t' :=
  Iff.rfl

@[simp]
theorem couples_modify {f : σ → σ} {g : τ → τ} {post : PUnit → PUnit → σ → τ → Prop} :
    Couples (modify f : EStateM ε σ PUnit) (modify g : EStateM ε' τ PUnit) s t post failed ↔
      post ⟨⟩ ⟨⟩ (f s) (g t) :=
  Iff.rfl

theorem couples_bind {f : α → EStateM ε σ γ} {g : β → EStateM ε' τ δ}
    {post : γ → δ → σ → τ → Prop}
    (couples : Couples x y s t (fun a b s' t' => Couples (f a) (g b) s' t' post failed) failed) :
    Couples (x >>= f) (y >>= g) s t post failed := by
  rw [Couples, meets_bind]
  refine Meets.imp couples ?_ ?_
  · intro a s' right
    cases ran : y.run t with
    | ok b t' =>
        have coupled := right.of_ok ran
        refine Meets.imp coupled ?_ ?_
        · exact fun c s'' after => meets_bind.mpr ((meets_of_ok ran).mpr after)
        · exact fun e s'' after => meets_bind.mpr ((meets_of_ok ran).mpr after)
    | error e' t' => exact (right.of_error ran).elim
  · intro e s' right
    rw [meets_bind]
    exact right.imp (fun _ _ impossible => impossible.elim) fun _ _ after => after

theorem couples_ite {c : Prop} [Decidable c] {x' : EStateM ε σ α} {y' : EStateM ε' τ β}
    (onTrue : c → Couples x y s t post failed) (onFalse : ¬ c → Couples x' y' s t post failed) :
    Couples (if c then x else x') (if c then y else y') s t post failed := by
  by_cases holds : c
  · simpa only [if_pos holds] using onTrue holds
  · simpa only [if_neg holds] using onFalse holds

/-- Both programs end with values, or both fail. -/
theorem Couples.cases (couples : Couples x y s t post failed) :
    (∃ a s' b t', x.run s = .ok a s' ∧ y.run t = .ok b t' ∧ post a b s' t') ∨
      ∃ e s' e' t', x.run s = .error e s' ∧ y.run t = .error e' t' ∧ failed e e' s' t' := by
  cases left : x.run s with
  | ok a s' =>
      have right := couples.of_ok left
      cases ran : y.run t with
      | ok b t' => exact .inl ⟨a, s', b, t', rfl, rfl, right.of_ok ran⟩
      | error e' t' => exact (right.of_error ran).elim
  | error e s' =>
      have right := couples.of_error left
      cases ran : y.run t with
      | ok b t' => exact (right.of_ok ran).elim
      | error e' t' => exact .inr ⟨e, s', e', t', rfl, rfl, right.of_error ran⟩

theorem couples_of_ok {a : α} {b : β} (left : x.run s = .ok a s') (right : y.run t = .ok b t') :
    Couples x y s t post failed ↔ post a b s' t' := by
  rw [Couples, meets_of_ok left, meets_of_ok right]

theorem couples_of_error {e : ε} {e' : ε'} (left : x.run s = .error e s')
    (right : y.run t = .error e' t') : Couples x y s t post failed ↔ failed e e' s' t' := by
  rw [Couples, meets_of_error left, meets_of_error right]

/-- Only what the programs end with matters. -/
theorem couples_of_run {x' : EStateM ε σ α} {y' : EStateM ε' τ β} (left : x.run s = x'.run s')
    (right : y.run t = y'.run t') :
    Couples x y s t post failed ↔ Couples x' y' s' t' post failed := by
  simp only [Couples, Meets, left, right]

/-- What a third program does in step with the second it does in step with the
first. -/
theorem Couples.trans {ε'' : Type u} {z : EStateM ε'' υ γ} {u : υ}
    {post' : β → γ → τ → υ → Prop} {failed' : ε' → ε'' → τ → υ → Prop}
    (first : Couples x y s t post failed) (second : Couples y z t u post' failed') :
    Couples x z s u (fun a c s' u' => ∃ b t', post a b s' t' ∧ post' b c t' u')
      (fun e e'' s' u' => ∃ e' t', failed e e' s' t' ∧ failed' e' e'' t' u') := by
  rcases first.cases with ⟨a, s', b, t', left, middle, related⟩ | ⟨e, s', e', t', left, middle, related⟩
  · rcases second.cases with ⟨b', t'', c, u', middle', right, related'⟩ | ⟨_, _, _, _, middle', _, _⟩
    · obtain ⟨rfl, rfl⟩ := EStateM.Result.ok.inj (middle.symm.trans middle')
      exact (couples_of_ok left right).mpr ⟨b, t', related, related'⟩
    · exact absurd (middle.symm.trans middle') (by simp)
  · rcases second.cases with ⟨_, _, _, _, middle', _, _⟩ | ⟨_, _, e'', u', middle', right, related'⟩
    · exact absurd (middle.symm.trans middle') (by simp)
    · obtain ⟨rfl, rfl⟩ := EStateM.Result.error.inj (middle.symm.trans middle')
      exact (couples_of_error left right).mpr ⟨e', t', related, related'⟩

end Couples

section Agrees

variable {R : σ → τ → Prop} {F : ε → ε' → σ → τ → Prop} {x : EStateM ε σ α} {y : EStateM ε' τ α}

theorem Agrees.pure (a : α) : Agrees R F (pure a) (pure a) :=
  fun _ _ related => couples_pure.mpr ⟨rfl, related⟩

theorem Agrees.throw {e : ε} {e' : ε'} (failed : ∀ s t, R s t → F e e' s t) :
    Agrees R F (throw e : EStateM ε σ α) (throw e') :=
  fun s t related => couples_throw.mpr (failed s t related)

theorem Agrees.bind {f : α → EStateM ε σ β} {g : α → EStateM ε' τ β} (first : Agrees R F x y)
    (rest : ∀ a, Agrees R F (f a) (g a)) : Agrees R F (x >>= f) (y >>= g) := by
  intro s t related
  refine couples_bind ((first s t related).imp ?_ fun _ _ _ _ failed => failed)
  rintro a _ s' t' ⟨rfl, related'⟩
  exact rest a s' t' related'

/-- Programs that first look at their states. -/
theorem Agrees.bind_get {f : σ → EStateM ε σ β} {g : τ → EStateM ε' τ β}
    (rest : ∀ s t, R s t → Couples (f s) (g t) s t (fun a b s' t' => a = b ∧ R s' t') F) :
    Agrees R F ((get : EStateM ε σ σ) >>= f) ((get : EStateM ε' τ τ) >>= g) :=
  fun s t related => couples_bind (couples_get.mpr (rest s t related))

theorem Agrees.modify {f : σ → σ} {g : τ → τ} (step : ∀ s t, R s t → R (f s) (g t)) :
    Agrees R F (modify f : EStateM ε σ PUnit) (modify g) :=
  fun s t related => couples_modify.mpr ⟨rfl, step s t related⟩

theorem Agrees.ite {c : Prop} [Decidable c] {x' : EStateM ε σ α} {y' : EStateM ε' τ α}
    (onTrue : Agrees R F x y) (onFalse : Agrees R F x' y') :
    Agrees R F (if c then x else x') (if c then y else y') :=
  fun s t related => couples_ite (fun _ => onTrue s t related) fun _ => onFalse s t related

end Agrees

end Tcslog.Lib.Program
