import DriverLearn.ForStd.Run

/-!
# Related computations

Two computations that may fault are related if they fault alike, or succeed with results in
a relation. The rules below carry a relation through sequencing and through runs over the
same events, so that a simulation is proved step by step.
-/

namespace Run

universe u

variable {ε φ : Type*} {α α' β β' : Type u}

/-- Both computations end in the same fault, or both succeed and their results are in `R`. -/
inductive Related (R : α → α' → Prop) : Except φ α → Except φ α' → Prop
  | error (f : φ) : Related R (.error f) (.error f)
  | ok {a : α} {a' : α'} (rel : R a a') : Related R (.ok a) (.ok a')

variable {R : α → α' → Prop} {Q : β → β' → Prop}
variable {x : Except φ α} {x' : Except φ α'}

theorem Related.bind {f : α → Except φ β} {f' : α' → Except φ β'} (h : Related R x x')
    (hf : ∀ a a', R a a' → Related Q (f a) (f' a')) : Related Q (x >>= f) (x' >>= f') := by
  cases h with
  | error f => exact .error f
  | ok rel => exact hf _ _ rel

theorem Related.map {f : α → β} {f' : α' → β'} (h : Related R x x')
    (hf : ∀ a a', R a a' → Q (f a) (f' a')) : Related Q (f <$> x) (f' <$> x') := by
  cases h with
  | error f => exact .error f
  | ok rel => exact .ok (hf _ _ rel)

/-- What is the same on both sides can be computed once. -/
theorem Related.refl_bind {y : Except φ α} {f : α → Except φ β} {f' : α → Except φ β'}
    (hf : ∀ a, Related Q (f a) (f' a)) : Related Q (y >>= f) (y >>= f') := by
  cases y with
  | error f => exact .error f
  | ok a => exact hf a

/-- Computations with equal results are equal. -/
theorem Related.eq {y : Except φ α} (h : Related Eq x y) : x = y := by
  cases h with
  | error f => rfl
  | ok rel => rw [rel]

/-- A relation that every step preserves holds behind two runs over the same events. -/
theorem foldlM_related {σ σ' : Type u} {R : σ → σ' → Prop} {step : σ → ε → Except φ σ}
    {step' : σ' → ε → Except φ σ'}
    (hstep : ∀ s s' e, R s s' → Related R (step s e) (step' s' e)) {s : σ} {s' : σ'}
    (hs : R s s') (es : List ε) : Related R (es.foldlM step s) (es.foldlM step' s') := by
  induction es generalizing s s' with
  | nil => exact .ok hs
  | cons e es ih =>
    rw [List.foldlM_cons, List.foldlM_cons]
    exact (hstep s s' e hs).bind fun _ _ ht => ih ht

/-- The same for total steps, where the first run meets a guard. -/
theorem foldl_related_of_guarded {σ σ' ε : Type*} {R : σ → σ' → Prop} {step : σ → ε → σ}
    {step' : σ' → ε → σ'} {G : σ → ε → Prop}
    (hstep : ∀ s s' e, R s s' → G s e → R (step s e) (step' s' e)) {s : σ} {s' : σ'} {es : List ε}
    (hs : R s s') (hg : Guarded step G s es) : R (es.foldl step s) (es.foldl step' s') := by
  induction es generalizing s s' with
  | nil => exact hs
  | cons e es ih => exact ih (hstep s s' e hs hg.1) hg.2

end Run
