import DriverLearn.Native.KeyInput

/-!
# Reports of the input key driver

Behind the last callback the value last reported for a key should be its level. The
callback reports the key `irq_pd` points to, that is, the key of the latest edge. An edge
of a second key that comes while the timer is pending for a first one takes the timer and
the pointer away from it, and the first key is not reported.

## Key results

- `run_tracked`: what was last reported, from the sequence of edges alone
- `reported_iff`: the exact condition over whole runs
-/

namespace KeyInput

open KeyRead (Pin)

/-- The value last reported for a key code. -/
def lastReported (code : KeyCode) (log : List InputEvent) : Option Bool :=
  log.foldl
    (fun acc e =>
      match e with
      | .reportKey c value => if c = code then some value else acc
      | .sync => acc)
    none

/-- The law at the end of a run: if no timer is pending, which takes a callback behind the
    last edge, every key that had an edge was last reported at its level. -/
def Reported (gpio : Pin → Bool) (acts : List Act) : Prop :=
  (run gpio acts).timerPending = false → ∀ i, .edge i ∈ acts →
    lastReported (pinsDesc i).keyVal (run gpio acts).log =
      some (!(run gpio acts).gpio (pinsDesc i).pin)

/-! ### Edges -/

/-- The key of the latest edge, and the number of edges of key `i` since the last callback
    that came while the latest edge was one of key `i`. -/
def track (i : Fin 4) (t : Option (Fin 4) × Option Nat) : Act → Option (Fin 4) × Option Nat
  | .edge j => (some j, if j = i then t.2.map (· + 1) else t.2)
  | .callback => (t.1, if t.1 = some i then some 0 else t.2)

/-- What is known of a key from the acts so far: the last edge, and the value that is due. -/
def tracked (i : Fin 4) (acts : List Act) : Option (Fin 4) × Option Nat :=
  acts.foldl (track i) (none, none)

/-- When a callback comes, every key that had an edge is the one of the latest edge, or was
    served by a callback and has had an even number of edges since. -/
def Served (acts : List Act) : Prop :=
  ∀ i, .edge i ∈ acts →
    (tracked i acts).1 = some i ∨ ∃ n, (tracked i acts).2 = some n ∧ n % 2 = 0

/-- One act more at the end of a run. -/
theorem run_append (gpio : Pin → Bool) (acts : List Act) (a : Act) :
    run gpio (acts ++ [a]) = step (run gpio acts) a := by
  rw [run, List.foldl_append]
  rfl

/-- One act more at the end. -/
theorem tracked_append (i : Fin 4) (acts : List Act) (a : Act) :
    tracked i (acts ++ [a]) = track i (tracked i acts) a := by
  rw [tracked, List.foldl_append]
  rfl

/-- A report at the end is the last one of its code. -/
theorem lastReported_append (code c : KeyCode) (value : Bool) (log : List InputEvent) :
    lastReported code (log ++ [.reportKey c value, .sync]) =
      if c = code then some value else lastReported code log := by
  rw [lastReported, List.foldl_append]
  rfl

/-- The keys have different pins. -/
theorem pin_inj {i j : Fin 4} (h : (pinsDesc i).pin = (pinsDesc j).pin) : i = j := by
  revert i j
  decide

/-- The keys have different codes. -/
theorem keyVal_inj {i j : Fin 4} (h : (pinsDesc i).keyVal = (pinsDesc j).keyVal) : i = j := by
  revert i j
  decide

/-- One more turns odd into even. -/
theorem odd_succ (n : Nat) : ((n + 1) % 2 == 1) = !(n % 2 == 1) := by
  rcases Nat.mod_two_eq_zero_or_one n with h | h <;> simp [Nat.add_mod, h]

/-- The handler points `irq_pd` to the key of the latest edge, and a key was last reported
    at its level, turned round by every edge since. -/
theorem run_tracked (gpio : Pin → Bool) (i : Fin 4) (acts : List Act) :
    (run gpio acts).irqPd = (tracked i acts).1 ∧
    lastReported (pinsDesc i).keyVal (run gpio acts).log =
      (tracked i acts).2.map fun n =>
        xor (!(run gpio acts).gpio (pinsDesc i).pin) (n % 2 == 1) := by
  induction acts using List.reverseRecOn with
  | nil => exact ⟨rfl, rfl⟩
  | append_singleton acts a ih =>
    obtain ⟨hptr, hlast⟩ := ih
    rw [run_append, tracked_append]
    cases a with
    | edge j =>
      refine ⟨rfl, ?_⟩
      rw [show (step (run gpio acts) (.edge j)).log = (run gpio acts).log from rfl, hlast, track]
      by_cases hj : j = i
      · -- the level and the number of edges change together
        rw [hj, if_pos rfl, Option.map_map]
        congr 1
        funext n
        simp [step, keyIrqHandler, odd_succ]
      · have hpin : (pinsDesc i).pin ≠ (pinsDesc j).pin := fun h => hj (pin_inj h).symm
        rw [if_neg hj]
        simp [step, keyIrqHandler, Function.update_of_ne hpin]
    -- the timer of all four keys: only the key of the latest edge is reported
    | callback =>
      rw [track, ← hptr]
      simp only [step, keryTimerFunction]
      cases hk : (run gpio acts).irqPd with
      | none => exact ⟨rfl, hlast⟩
      | some k =>
        refine ⟨rfl, ?_⟩
        rw [lastReported_append]
        by_cases hki : k = i
        · rw [hki, if_pos rfl, if_pos rfl]
          simp
        · rw [if_neg fun h => hki (keyVal_inj h), if_neg fun h => hki (Option.some.inj h)]
          exact hlast

/-! ### Callbacks -/

/-- A callback leaves the timer idle. -/
theorem callback_timerPending (s : Sys) : (step s .callback).timerPending = false := by
  rw [step, keryTimerFunction]
  split <;> rfl

/-- A callback moves no pin. -/
theorem callback_gpio (s : Sys) : (step s .callback).gpio = s.gpio := by
  rw [step, keryTimerFunction]
  split <;> rfl

/-- A callback brings the law about exactly if every other key is served. -/
theorem reported_callback (gpio : Pin → Bool) (acts : List Act) :
    Reported gpio (acts ++ [.callback]) ↔ Served acts := by
  have hmem : ∀ i, .edge i ∈ acts ++ [.callback] ↔ .edge i ∈ acts := by simp
  rw [Reported, Served, run_append, callback_timerPending]
  simp only [forall_const, hmem]
  apply forall₂_congr
  intro i _
  obtain ⟨-, hlast⟩ := run_tracked gpio i (acts ++ [.callback])
  rw [run_append] at hlast
  rw [hlast, callback_gpio, tracked_append, track]
  -- reported now, or last reported some number of edges ago
  by_cases hk : (tracked i acts).1 = some i
  · rw [if_pos hk]
    exact iff_of_true (by simp) (.inl hk)
  · rw [if_neg hk, or_iff_right hk]
    cases (tracked i acts).2 with
    | none => simp
    | some n =>
      rcases Nat.mod_two_eq_zero_or_one n with h | h <;> simp [h]

/-- For all levels at the start and every sequence of edges of the four keys and callbacks:
    the law holds behind every prefix iff at each callback every key is served. -/
theorem reported_iff (gpio : Pin → Bool) (acts : List Act) :
    (∀ pre post, acts = pre ++ post → Reported gpio pre) ↔
      ∀ pre post, acts = pre ++ .callback :: post → Served pre := by
  constructor
  · intro h pre post heq
    rw [← reported_callback gpio]
    exact h (pre ++ [.callback]) post (by rw [heq, List.append_assoc]; rfl)
  · intro h pre post heq
    rcases List.eq_nil_or_concat pre with rfl | ⟨pre', a, rfl⟩
    · exact fun hpending => nomatch hpending
    · rw [List.concat_eq_append] at heq ⊢
      cases a with
      -- behind an edge the timer is pending, and the law asks for nothing
      | edge i =>
        intro hpending
        rw [run_append] at hpending
        cases hpending
      | callback =>
        rw [reported_callback]
        exact h pre' post (by rw [heq, List.append_assoc]; rfl)

/-- The first key goes down, then the second one before the timer fires: only the second
    is reported. -/
theorem reported_fails :
    ¬ ∀ gpio acts, Reported gpio acts := by
  intro h
  have hlaw := h (fun _ => true) [.callback, .edge 0, .edge 1, .callback] rfl 0 (by decide)
  revert hlaw
  decide

end KeyInput
