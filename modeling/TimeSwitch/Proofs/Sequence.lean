/-!
Steps done one after the other, which stop at the first that fails. The lemmas say when all of
them succeed.
-/

namespace TimeSwitch.Sequence

variable {ε σ α β : Type}

theorem ok_bind (a : α) (f : α → Except ε β) : (Except.ok a >>= f) = f a := rfl

theorem error_bind (e : ε) (f : α → Except ε β) : (Except.error e >>= f) = .error e := rfl

theorem bind_eq_ok {x : Except ε α} {f : α → Except ε β} {b : β} :
    x >>= f = .ok b ↔ ∃ a, x = .ok a ∧ f a = .ok b := by
  cases x with
  | error e => simp [error_bind]
  | ok a => simp [ok_bind]

/-- What every step that succeeds keeps, all of them keep. -/
theorem foldlM_keeps {P : σ → Prop} {step : σ → α → Except ε σ}
    (hstep : ∀ {s s' a}, P s → step s a = .ok s' → P s') {as : List α} {s s' : σ} (hs : P s)
    (h : as.foldlM step s = .ok s') : P s' := by
  induction as generalizing s with
  | nil => exact Except.ok.inj h ▸ hs
  | cons a as ih =>
      rw [List.foldlM_cons] at h
      obtain ⟨middle, hfirst, hrest⟩ := bind_eq_ok.1 h
      exact ih (hstep hs hfirst) hrest

/-! ### Steps with a state -/

variable {x : EStateM ε σ α} {s t : σ} {a b : α}

theorem step_bind_eq_ok {f : α → EStateM ε σ β} {b : β} :
    (x >>= f) s = .ok b t ↔ ∃ a middle, x s = .ok a middle ∧ f a middle = .ok b t := by
  simp only [bind, EStateM.bind]
  cases x s with
  | error e s => simp
  | ok a s => simp [and_assoc]

theorem step_pure_eq_ok : (pure a : EStateM ε σ α) s = .ok b t ↔ a = b ∧ s = t := by
  simp [pure, EStateM.pure]

theorem step_throw_eq_ok {e : ε} : (throw e : EStateM ε σ α) s = .ok b t ↔ False := by
  refine ⟨fun h => ?_, False.elim⟩
  cases h

/-- The state after a step, whether it succeeded or not. -/
def stateOf : EStateM.Result ε σ α → σ
  | .ok _ s | .error _ s => s

/-- What came of a step. -/
def outcomeOf : EStateM.Result ε σ α → Except ε α
  | .ok a _ => .ok a
  | .error e _ => .error e

/-! ### Steps seen from elsewhere -/

section View

variable {τ : Type} {view : σ → τ}

/-- The same outcome in another view of the state. -/
def mapState (view : σ → τ) : EStateM.Result ε σ α → EStateM.Result ε τ α
  | .ok a s => .ok a (view s)
  | .error e s => .error e (view s)

@[simp] theorem stateOf_mapState (r : EStateM.Result ε σ α) :
    stateOf (mapState view r) = view (stateOf r) := by
  cases r <;> rfl

@[simp] theorem outcomeOf_mapState (r : EStateM.Result ε σ α) :
    outcomeOf (mapState view r) = outcomeOf r := by
  cases r <;> rfl

/-- What the first step does to a state, the second does to the view of it. -/
def Commutes (view : σ → τ) (x : EStateM ε σ α) (y : EStateM ε τ α) : Prop :=
  ∀ s, y (view s) = mapState view (x s)

theorem commutes_pure (a : α) : Commutes view (pure a : EStateM ε σ α) (pure a) :=
  fun _ => rfl

theorem commutes_bind {x : EStateM ε σ α} {y : EStateM ε τ α} {f : α → EStateM ε σ β}
    {f' : α → EStateM ε τ β} (hfirst : Commutes view x y)
    (hnext : ∀ a, Commutes view (f a) (f' a)) : Commutes view (x >>= f) (y >>= f') := by
  intro s
  simp only [bind, EStateM.bind, hfirst s]
  cases x s with
  | ok a s => exact hnext a s
  | error e s => rfl

theorem commutes_modify {change : σ → σ} {change' : τ → τ}
    (h : ∀ s, change' (view s) = view (change s)) :
    Commutes view (modify change : EStateM ε σ PUnit) (modify change' : EStateM ε τ PUnit) :=
  fun s => congrArg (EStateM.Result.ok PUnit.unit) (h s)

end View

end TimeSwitch.Sequence
