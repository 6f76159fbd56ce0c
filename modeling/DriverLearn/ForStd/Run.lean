import Mathlib.Data.List.Basic
import Mathlib.Tactic.Common

/-!
# Runs of a step function

A system is a step function on states that consumes one event. A run folds it over
a list of events. The rules below turn what one step preserves into what a whole run
preserves: for total steps, for steps that meet a guard, and for steps that can fault.
-/

namespace Run

universe u

variable {σ ε φ : Type*} {α β : Type u}

/-! ### Guarded runs of a total step -/

/-- Every step of the run from `s` over the events meets the guard `G`, which sees
    the state before the step and the event. -/
def Guarded (step : σ → ε → σ) (G : σ → ε → Prop) : σ → List ε → Prop
  | _, [] => True
  | s, e :: es => G s e ∧ Guarded step G (step s e) es

/-- An invariant that guarded steps preserve holds at the end of a guarded run. -/
theorem foldl_of_guarded {step : σ → ε → σ} {G : σ → ε → Prop} {I : σ → Prop}
    (hstep : ∀ s e, I s → G s e → I (step s e)) {s : σ} {es : List ε}
    (hs : I s) (hg : Guarded step G s es) : I (es.foldl step s) := by
  induction es generalizing s with
  | nil => exact hs
  | cons e es ih => exact ih (hstep s e hs hg.1) hg.2

/-- Where the invariant makes the guard hold and is preserved, every run is guarded. -/
theorem guarded_of_inv {step : σ → ε → σ} {G : σ → ε → Prop} {I : σ → Prop}
    (hstep : ∀ s e, I s → G s e ∧ I (step s e)) {s : σ} (hs : I s) (es : List ε) :
    Guarded step G s es := by
  induction es generalizing s with
  | nil => trivial
  | cons e es ih => exact ⟨(hstep s e hs).1, ih (hstep s e hs).2⟩

theorem guarded_append {step : σ → ε → σ} {G : σ → ε → Prop} {s : σ} {es es' : List ε} :
    Guarded step G s (es ++ es') ↔
      Guarded step G s es ∧ Guarded step G (es.foldl step s) es' := by
  induction es generalizing s with
  | nil => simp [Guarded]
  | cons e es ih => simp [Guarded, ih, and_assoc]

theorem Guarded.and {step : σ → ε → σ} {G H : σ → ε → Prop} {s : σ} {es : List ε}
    (hg : Guarded step G s es) (hh : Guarded step H s es) :
    Guarded step (fun s e => G s e ∧ H s e) s es := by
  induction es generalizing s with
  | nil => trivial
  | cons e es ih => exact ⟨⟨hg.1, hh.1⟩, ih hg.2 hh.2⟩

/-- A run is guarded iff the guard holds at each of its events. -/
theorem guarded_iff {step : σ → ε → σ} {G : σ → ε → Prop} {s : σ} {es : List ε} :
    Guarded step G s es ↔
      ∀ pre e post, es = pre ++ e :: post → G (pre.foldl step s) e := by
  constructor
  · rintro h pre e post rfl
    exact (guarded_append.mp h).2.1
  · intro h
    induction es generalizing s with
    | nil => trivial
    | cons e es ih =>
      refine ⟨h [] e es rfl, ih fun pre e' post heq => ?_⟩
      exact h (e :: pre) e' post (by rw [heq]; rfl)

/-- A guard that depends on the event only holds on a run iff it holds of every event. -/
theorem guarded_iff_forall {step : σ → ε → σ} {G : σ → ε → Prop} {Q : ε → Prop}
    (h : ∀ s e, G s e ↔ Q e) {s : σ} {es : List ε} : Guarded step G s es ↔ ∀ e ∈ es, Q e := by
  induction es generalizing s with
  | nil => simp [Guarded]
  | cons e es ih => simp [Guarded, h, ih]

/-- Two guards agree on a run if they agree at every step as long as the invariant holds,
    and guarded steps preserve it. -/
theorem guarded_congr {step : σ → ε → σ} {V G H : σ → ε → Prop} {I : σ → Prop}
    (hstep : ∀ s e, I s → V s e → (G s e ↔ H s e) ∧ (H s e → I (step s e)))
    {s : σ} {es : List ε} (hs : I s) (hv : Guarded step V s es) :
    Guarded step G s es ↔ Guarded step H s es := by
  induction es generalizing s with
  | nil => rfl
  | cons e es ih =>
    obtain ⟨hiff, hinv⟩ := hstep s e hs hv.1
    constructor
    · intro ⟨hg, hrest⟩
      exact ⟨hiff.mp hg, (ih (hinv (hiff.mp hg)) hv.2).mp hrest⟩
    · intro ⟨hh, hrest⟩
      exact ⟨hiff.mpr hh, (ih (hinv hh) hv.2).mpr hrest⟩

/-! ### Runs of a step that can fault -/

/-- A computation in two parts that succeeds has succeeded in both. -/
theorem bind_eq_ok {x : Except φ α} {f : α → Except φ β} {b : β} (h : (x >>= f) = .ok b) :
    ∃ a, x = .ok a ∧ f a = .ok b := by
  cases x with
  | error e => cases h
  | ok a => exact ⟨a, rfl, h⟩

theorem map_eq_ok {x : Except φ α} {f : α → β} {b : β} (h : f <$> x = .ok b) :
    ∃ a, x = .ok a ∧ f a = b := by
  cases x with
  | error e => cases h
  | ok a => exact ⟨a, rfl, Except.ok.inj h⟩

/-- An invariant that successful steps preserve holds after a successful run. -/
theorem foldlM_inv {step : σ → ε → Except φ σ} {I : σ → Prop}
    (hstep : ∀ s e s', I s → step s e = .ok s' → I s') {s s' : σ} {es : List ε}
    (hs : I s) (hrun : es.foldlM step s = .ok s') : I s' := by
  induction es generalizing s with
  | nil =>
    simp only [List.foldlM_nil, pure, Except.pure, Except.ok.injEq] at hrun
    exact hrun ▸ hs
  | cons e es ih =>
    rw [List.foldlM_cons] at hrun
    obtain ⟨t, he, hrest⟩ := bind_eq_ok hrun
    exact ih (hstep s e t hs he) hrest

/-- If the invariant makes every step succeed and is preserved, every run succeeds. -/
theorem foldlM_total {step : σ → ε → Except φ σ} {I : σ → Prop}
    (hstep : ∀ s e, I s → ∃ s', step s e = .ok s' ∧ I s') {s : σ} (es : List ε)
    (hs : I s) : ∃ s', es.foldlM step s = .ok s' ∧ I s' := by
  induction es generalizing s with
  | nil => exact ⟨s, rfl, hs⟩
  | cons e es ih =>
    obtain ⟨t, he, ht⟩ := hstep s e hs
    obtain ⟨s', hrun, hs'⟩ := ih ht
    refine ⟨s', ?_, hs'⟩
    simp only [List.foldlM_cons, bind, Except.bind, he]
    exact hrun

end Run
