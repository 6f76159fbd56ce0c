import DriverLearn.Native.KeyLoad

/-!
# What the input key driver gives back

`my_key_init` that fails at any entry of `pins_desc` frees the lines it had requested, each
once and with its own `dev_id`, and deletes the timer; so does `my_key_exit` with all lines.
Both release the input device twice once it has been registered, so that everything is
given back, once, exactly if the device was not registered.

## Key results

- `requestIrqs_obtained`, `freeIrqsBelow_eq`, `freeIrqs_eq`: the loops
- `failed_freed`, `exit_freed`: the lines and the timer
- `unwound_iff`: when everything is given back
-/

namespace KeyInput

open Ledger

variable {n k : Nat} {pins : Nat → PinIrq} {r : Results} {s : Module}

/-! ### The law -/

/-- The input device is allocated and registered. -/
def Results.Registered (r : Results) : Prop :=
  r.inputAllocateDevice = true ∧ r.inputRegisterDevice = 0

/-- The load fails with `k` lines obtained. -/
inductive Results.FailsAt (n : Nat) (r : Results) : Nat → Prop
  | device (h : ¬ r.Registered) : FailsAt n r 0
  | irq {k : Nat} (h : r.Registered) (hk : k < n) (hok : ∀ i < k, r.requestIrq i = 0)
      (hfail : r.requestIrq k ≠ 0) : FailsAt n r k

/-- No call fails. -/
def Results.Complete (n : Nat) (r : Results) : Prop :=
  r.Registered ∧ ∀ i < n, r.requestIrq i = 0

/-- The first `k` lines, each with its own `dev_id`. -/
def lines (pins : Nat → PinIrq) (k : Nat) : List Resource := (List.range k).map (line pins)

/-- The resource is an interrupt line. -/
def Resource.isIrq : Resource → Bool
  | .irq _ _ => true
  | .inputDev => false

/-- The lines freed, in order. -/
def freed (es : List (Entry Resource)) : List Resource :=
  es.filterMap fun
    | .give r => if r.isIrq then some r else none
    | .take _ => none

/-- The first `k` lines were obtained, and have been freed, each once, and the timer is
    idle. -/
structure Freed (pins : Nat → PinIrq) (k : Nat) (s : Module) : Prop where
  freed : (freed s.ledger).Perm (lines pins k)
  balanced : settle 0 (only Resource.isIrq s.ledger) = some 0
  idle : s.timerPending = false

/-- Besides, nothing is held and nothing was given back that was not held. -/
structure GivenBack (pins : Nat → PinIrq) (k : Nat) (s : Module) : Prop extends
    Freed pins k s where
  settled : settle 0 s.ledger = some 0

/-- The law for one load. In front of the unload the timer may have expired, or been set
    again. -/
structure Unwound (n : Nat) (pins : Nat → PinIrq) (r : Results) : Prop where
  failed : ∀ k, r.FailsAt n k →
    (myKeyInit n pins r Module.init).1 ≠ 0 ∧ GivenBack pins k (myKeyInit n pins r Module.init).2
  exit : r.Complete n →
    (myKeyInit n pins r Module.init).1 = 0 ∧
      ∀ timerPending, GivenBack pins n
        (myKeyExit n pins { (myKeyInit n pins r Module.init).2 with timerPending })

/-! ### The loops -/

/-- As long as the lines can be obtained. -/
theorem requestIrqs_obtained (hk : k ≤ n) (hok : ∀ i < k, r.requestIrq i = 0) (s : Module) :
    requestIrqs n pins r 0 s =
      requestIrqs n pins r k { s with ledger := s.ledger ++ (lines pins k).map .take } := by
  induction k with
  | zero => simp [lines]
  | succ k ih =>
    -- one more turn of the loop, which stands at `k`
    have hret := hok k (Nat.lt_succ_self k)
    rw [ih (by omega) fun i hi => hok i (by omega), requestIrqs, if_pos (by omega),
      if_neg (not_not.mpr hret)]
    simp [Module.acquire, lines, List.range_succ]

/-- The lines in front of the one that fails are taken. -/
theorem requestIrqs_failed (hk : k < n) (hok : ∀ i < k, r.requestIrq i = 0)
    (hfail : r.requestIrq k ≠ 0) (s : Module) :
    requestIrqs n pins r 0 s =
      (r.requestIrq k, k, { s with ledger := s.ledger ++ (lines pins k).map .take }) := by
  rw [requestIrqs_obtained (Nat.le_of_lt hk) hok, requestIrqs, if_pos hk, if_pos hfail]

/-- All lines are taken if no request fails. -/
theorem requestIrqs_complete (hok : ∀ i < n, r.requestIrq i = 0) (s : Module) :
    requestIrqs n pins r 0 s =
      (0, n, { s with ledger := s.ledger ++ (lines pins n).map .take }) := by
  rw [requestIrqs_obtained (Nat.le_refl n) hok, requestIrqs, if_neg (Nat.lt_irrefl n)]

/-- The unwinding frees the lines downwards. -/
theorem freeIrqsBelow_eq (pins : Nat → PinIrq) (k : Nat) (s : Module) :
    freeIrqsBelow pins k s =
      { s with ledger := s.ledger ++ (lines pins k).reverse.map .give } := by
  induction k generalizing s with
  | zero => simp [freeIrqsBelow, lines]
  | succ k ih =>
    rw [freeIrqsBelow, ih]
    simp [Module.release, lines, List.range_succ]

/-- The exit frees them upwards: first those below `k`. -/
theorem freeIrqs_below (hk : k ≤ n) (s : Module) :
    freeIrqs n pins 0 s =
      freeIrqs n pins k { s with ledger := s.ledger ++ (lines pins k).map .give } := by
  induction k with
  | zero => simp [lines]
  | succ k ih =>
    rw [ih (by omega), freeIrqs, if_pos (by omega)]
    simp [Module.release, lines, List.range_succ]

/-- The exit frees all lines. -/
theorem freeIrqs_eq (n : Nat) (pins : Nat → PinIrq) (s : Module) :
    freeIrqs n pins 0 s = { s with ledger := s.ledger ++ (lines pins n).map .give } := by
  rw [freeIrqs_below (Nat.le_refl n), freeIrqs, if_neg (Nat.lt_irrefl n)]

/-! ### The ledger behind a registered device -/

/-- The lines are interrupt lines. -/
theorem isIrq_of_mem_lines {res : Resource} (h : res ∈ lines pins k) : res.isIrq = true := by
  obtain ⟨i, -, rfl⟩ := List.mem_map.mp h
  rfl

/-- What two ledgers free. -/
theorem freed_append (es es' : List (Entry Resource)) : freed (es ++ es') = freed es ++ freed es' :=
  List.filterMap_append

/-- Nothing is freed in a list of takes. -/
theorem freed_takes (rs : List Resource) : freed (rs.map .take) = [] := by
  simp [freed, List.filterMap_map]

/-- Lines given back are freed. -/
theorem freed_gives {rs : List Resource} (h : ∀ res ∈ rs, res.isIrq = true) :
    freed (rs.map .give) = rs := by
  rw [freed, List.filterMap_map]
  calc
    rs.filterMap _ = rs.filterMap some :=
      List.filterMap_congr fun res hres => if_pos (h res hres)
    _ = rs := List.filterMap_some

/-- The entries of a load that fails behind the registration, or of one that succeeds and the
    unload: `rs` are freed. -/
def released (pins : Nat → PinIrq) (k : Nat) (rs : List Resource) : List (Entry Resource) :=
  [.take .inputDev] ++ (lines pins k).map .take ++ rs.map .give ++
    [.give .inputDev, .give .inputDev]

/-- Behind the label `err_free_irq` the lines in question are free. -/
theorem released_freed {rs : List Resource} (hperm : rs.Perm (lines pins k)) :
    Freed pins k ⟨false, released pins k rs⟩ := by
  have hlines : ∀ res ∈ lines pins k, res.isIrq = true := fun res => isIrq_of_mem_lines
  have hrs : ∀ res ∈ rs, res.isIrq = true := fun res hres => hlines res (hperm.mem_iff.mp hres)
  constructor
  · -- the device is no line
    have hfreed : freed (released pins k rs) = rs := by
      rw [released, freed_append, freed_append, freed_append, freed_takes, freed_gives hrs]
      simp [freed, Resource.isIrq]
    exact hfreed.symm ▸ hperm
  · have honly : only Resource.isIrq (released pins k rs) =
        (lines pins k).map .take ++ rs.map .give := by
      rw [released, only_append, only_append, only_append, only_takes hlines, only_gives hrs]
      simp [only, Resource.isIrq, Entry.resource]
    rw [honly, settle_append (settle_takes 0 _), settle_gives hperm]
  · rfl

/-- The device is given back twice. -/
theorem released_not_settled {rs : List Resource} (hperm : rs.Perm (lines pins k)) :
    settle 0 (released pins k rs) ≠ some 0 := by
  intro hsettled
  have hcount := settle_count hsettled .inputDev
  have heq := hperm.count_eq .inputDev
  simp [released, heq] at hcount

/-! ### Load and unload -/

/-- A device that is not registered is released at most once, and nothing else is taken. -/
theorem myKeyInit_device (n : Nat) (pins : Nat → PinIrq) (hreg : ¬ r.Registered) :
    (myKeyInit n pins r Module.init).1 ≠ 0 ∧
      GivenBack pins 0 (myKeyInit n pins r Module.init).2 := by
  rw [myKeyInit]
  by_cases halloc : r.inputAllocateDevice
  swap
  · rw [if_pos halloc]
    exact ⟨by decide, ⟨List.Perm.nil, rfl, rfl⟩, rfl⟩
  rw [if_neg (not_not.mpr halloc)]
  by_cases hret : r.inputRegisterDevice = 0
  · exact absurd ⟨halloc, hret⟩ hreg
  · rw [if_pos hret]
    exact ⟨hret, ⟨List.Perm.nil, rfl, rfl⟩, rfl⟩

/-- A load whose request `k` fails. -/
theorem myKeyInit_irq (hreg : r.Registered) (hk : k < n) (hok : ∀ i < k, r.requestIrq i = 0)
    (hfail : r.requestIrq k ≠ 0) :
    myKeyInit n pins r Module.init =
      (r.requestIrq k, ⟨false, released pins k (lines pins k).reverse⟩) := by
  rw [myKeyInit, if_neg (not_not.mpr hreg.1), if_neg (not_not.mpr hreg.2),
    requestIrqs_failed hk hok hfail]
  simp [hfail, errFreeIrq, freeIrqsBelow_eq, delTimer, errFreeInputDev, Module.release,
    Module.acquire, Module.init, addTimer, released]

/-- A load without failures. -/
theorem myKeyInit_complete (h : r.Complete n) :
    myKeyInit n pins r Module.init =
      (0, ⟨true, [.take .inputDev] ++ (lines pins n).map .take⟩) := by
  rw [myKeyInit, if_neg (not_not.mpr h.1.1), if_neg (not_not.mpr h.1.2), requestIrqs_complete h.2]
  simp [Module.acquire, Module.init, addTimer]

/-- The unload behind it. -/
theorem myKeyExit_complete (h : r.Complete n) (timerPending : Bool) :
    myKeyExit n pins { (myKeyInit n pins r Module.init).2 with timerPending } =
      ⟨false, released pins n (lines pins n)⟩ := by
  rw [myKeyInit_complete h, myKeyExit, freeIrqs_eq]
  simp [delTimer, Module.release, released]

/-- At every point of failure the lines obtained are freed. -/
theorem failed_freed (h : r.FailsAt n k) :
    (myKeyInit n pins r Module.init).1 ≠ 0 ∧ Freed pins k (myKeyInit n pins r Module.init).2 := by
  cases h with
  | device hreg =>
    obtain ⟨hret, hback⟩ := myKeyInit_device n pins hreg
    exact ⟨hret, hback.toFreed⟩
  | irq hreg hk hok hfail =>
    rw [myKeyInit_irq hreg hk hok hfail]
    exact ⟨hfail, released_freed (List.reverse_perm _)⟩

/-- It frees every line once. -/
theorem exit_freed (h : r.Complete n) (timerPending : Bool) :
    Freed pins n (myKeyExit n pins { (myKeyInit n pins r Module.init).2 with timerPending }) := by
  rw [myKeyExit_complete h]
  exact released_freed (List.Perm.refl _)

/-- Every load fails somewhere or nowhere. -/
theorem failsAt_or_complete (n : Nat) (r : Results) : (∃ k, r.FailsAt n k) ∨ r.Complete n := by
  by_cases hreg : r.Registered
  swap
  · exact .inl ⟨0, .device hreg⟩
  by_cases hall : ∀ i < n, r.requestIrq i = 0
  · exact .inr ⟨hreg, hall⟩
  · -- the first line that cannot be obtained
    push Not at hall
    obtain ⟨hk, hfail⟩ := Nat.find_spec hall
    refine .inl ⟨Nat.find hall, .irq hreg hk (fun i hi => ?_) hfail⟩
    by_contra hne
    exact Nat.find_min hall hi ⟨by omega, hne⟩

/-- For a table of any length and whatever the calls return: a failed load gives back
    everything, once, and so do a load that succeeds and the unload, iff the device was not
    registered. -/
theorem unwound_iff (n : Nat) (pins : Nat → PinIrq) (r : Results) :
    Unwound n pins r ↔ ¬ r.Registered := by
  constructor
  · intro h hreg
    rcases failsAt_or_complete n r with ⟨k, hfails⟩ | hall
    · have hsettled := (h.failed k hfails).2.settled
      -- `err_free_irq` unregisters the device and falls through to `err_free_input_dev`
      cases hfails with
      | device hnot => exact hnot hreg
      | irq hreg hk hok hfail =>
        rw [myKeyInit_irq hreg hk hok hfail] at hsettled
        exact released_not_settled (List.reverse_perm _) hsettled
    · have hsettled := ((h.exit hall).2 false).settled
      rw [myKeyExit_complete hall] at hsettled
      exact released_not_settled (List.Perm.refl _) hsettled
  · intro hreg
    constructor
    · intro k hfails
      cases hfails with
      | device _ => exact myKeyInit_device n pins hreg
      | irq hreg' => exact absurd hreg' hreg
    · intro hall
      exact absurd hall.1 hreg

/-- `request_irq` returns `-EBUSY` for the third entry. -/
def thirdBusy : Results := ⟨true, 0, fun i => if i = 2 then -16 else 0⟩

/-- The driver is loaded with four keys, and the line of the third is in use. -/
theorem unwound_fails_busy : ¬ ∀ n pins r, Unwound n pins r := by
  intro h
  have hreg : thirdBusy.Registered := ⟨rfl, rfl⟩
  have hok : ∀ i < 2, thirdBusy.requestIrq i = 0 := by decide
  have hfail : thirdBusy.requestIrq 2 ≠ 0 := by decide
  have hfails : thirdBusy.FailsAt 4 2 := .irq hreg (by decide) hok hfail
  have hsettled := ((h 4 (fun i => ⟨⟨.gpf0, .keyL⟩, i⟩) thirdBusy).failed 2 hfails).2.settled
  rw [myKeyInit_irq hreg (by decide) hok hfail] at hsettled
  exact released_not_settled (List.reverse_perm _) hsettled

end KeyInput
