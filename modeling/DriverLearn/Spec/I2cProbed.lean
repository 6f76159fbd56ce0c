import DriverLearn.Native.I2cProbe
import DriverLearn.Spec.I2cStep

/-!
# All or nothing in the probe of the I2C driver

The probe leaves the clock prepared where the clock rate cannot be set, and returns 0 with no
adapter where `platform_get_irq` does; and it disables and unprepares a clock that
`clk_prepare_enable` has not prepared. In all other cases it returns 0 just if the adapter
was added, and has otherwise given back the clock and the notifier.

## Key results

- `probeIrq_cases`, `probe_cases`: how a probe ends
- `allOrNothing_iff`: when it is all or nothing
-/

namespace S3c24xx

open Ledger Word

variable {r : Results} {w : World} {ofNode : Bool} {platdata : Option S3c2410PlatformI2c}

/-! ### The law -/

/-- The adapter was added between the two worlds. -/
def Added (w w' : World) : Prop :=
  balance .adapter w'.ledger = balance .adapter w.ledger + 1

/-- The clock is prepared and enabled, and the notifier is registered, as often as before. -/
def Restored (w w' : World) : Prop :=
  ∀ res ∈ [Resource.clkPrepared, .clkEnabled, .notifier],
    balance res w'.ledger = balance res w.ledger

/-- The law for one call of the probe, with what it returns and leaves. -/
structure AllOrNothing (w : World) (ret : Int) (w' : World) : Prop where
  zero : ret = 0 ↔ Added w w'
  other : ret ≠ 0 → Restored w w'

/-- The clock and the registers are found, and the pins are set. -/
def Results.Mapped (r : Results) (pdata : Option S3c2410PlatformI2c) : Prop :=
  r.clkGet = true ∧ r.ioremapResource = none ∧
    (pdata.any (·.cfgGpio) = true ∨ r.pinctrl = true ∨ r.parseDtGpio = 0)

/-- The probe gets as far as `clk_prepare_enable`. -/
def ReachesClock (ofNode : Bool) (platdata : Option S3c2410PlatformI2c) (r : Results) : Prop :=
  let pdata := if ofNode then none else platdata
  ¬ (¬ ofNode ∧ pdata.isNone) ∧ r.kzallocI2c = true ∧ r.kzallocPdata = true ∧ r.Mapped pdata

/-- No call fails behind the initialisation of the controller. -/
def Results.Served (r : Results) : Prop :=
  (has r.quirks quirkPoll = true ∨ 0 < r.platformGetIrq ∧ r.requestIrq = 0) ∧
    0 ≤ r.registerCpufreq ∧ 0 ≤ r.addNumberedAdapter

/-- The condition on a probe that gets as far as the clock: the clock rate can be set, and
    all else succeeds, or the clock has been prepared and 0 is not an interrupt that is
    needed. -/
def Results.Sound (r : Results) : Prop :=
  r.clockrate = 0 ∧ (r.Served ∨ r.clkPrepareEnable = 0 ∧
    (has r.quirks quirkPoll = true ∨ r.platformGetIrq ≠ 0))

/-! ### How a probe ends -/

/-- The entries of `clk_prepare_enable`. -/
def clockTaken (r : Results) : List (Entry Resource) :=
  if r.clkPrepareEnable = 0 then [.take .clkPrepared, .take .clkEnabled] else []

theorem clkPrepareEnable_eq (r : Results) (w : World) :
    clkPrepareEnable r w = { w with ledger := w.ledger ++ clockTaken r } := by
  rw [clkPrepareEnable, clockTaken]
  split
  · simp [World.acquire]
  · simp

theorem probeAdapter_cases (r : Results) (w : World) :
    (0 ≤ r.registerCpufreq ∧ 0 ≤ r.addNumberedAdapter ∧
      probeAdapter r w = (0, { w with ledger := w.ledger ++ [.take .notifier, .take .adapter] })) ∨
    (¬ (0 ≤ r.registerCpufreq ∧ 0 ≤ r.addNumberedAdapter) ∧ ∃ ret, ret < 0 ∧
      ∃ es ∈ [[], [.take .notifier, .give .notifier]],
        probeAdapter r w =
          (ret, { w with ledger := w.ledger ++ (es ++ [.give .clkPrepared]) })) := by
  rw [probeAdapter]
  by_cases hfreq : r.registerCpufreq < 0
  · rw [if_pos hfreq]
    exact .inr ⟨by omega, _, hfreq, [], by simp, by simp [World.release]⟩
  rw [if_neg hfreq]
  by_cases hadd : r.addNumberedAdapter < 0
  · rw [if_pos hadd]
    exact .inr ⟨by omega, _, hadd, [.take .notifier, .give .notifier], by simp,
      by simp [World.release, World.acquire]⟩
  · rw [if_neg hadd]
    exact .inl ⟨by omega, by omega, by simp [World.acquire]⟩

/-- Behind the initialisation: everything succeeds, or the clock is unprepared, with no
    notifier left. -/
theorem probeIrq_cases (hquirks : w.i2c.quirks = r.quirks) :
    (r.Served ∧
      probeIrq r w = (0, { w with ledger := w.ledger ++ [.take .notifier, .take .adapter] })) ∨
    (¬ r.Served ∧ ∃ ret,
      (ret = 0 ↔ ¬ (has r.quirks quirkPoll = true ∨ r.platformGetIrq ≠ 0)) ∧
      ∃ es ∈ [[], [.take .notifier, .give .notifier]],
        probeIrq r w = (ret, { w with ledger := w.ledger ++ (es ++ [.give .clkPrepared]) })) := by
  have hadapter := probeAdapter_cases r w
  rw [probeIrq, hquirks]
  by_cases hpoll : has r.quirks quirkPoll
  · rw [if_neg (not_not.mpr hpoll)]
    rcases hadapter with ⟨hfreq, hadd, heq⟩ | ⟨hnot, ret, hret, es, hes, heq⟩
    · exact .inl ⟨⟨.inl hpoll, hfreq, hadd⟩, heq⟩
    · exact .inr ⟨fun h => hnot h.2, ret, by simp [hpoll]; omega, es, hes, heq⟩
  rw [if_pos hpoll]
  by_cases hirq : r.platformGetIrq ≤ 0
  · rw [if_pos hirq]
    -- `platform_get_irq` gave 0 or an error, and probe returns what it gave
    refine .inr ⟨fun h => ?_, r.platformGetIrq, by simp [hpoll], [], by simp,
      by simp [World.release]⟩
    have hpos := (h.1.resolve_left hpoll).1
    omega
  rw [if_neg hirq]
  by_cases hreq : r.requestIrq = 0
  swap
  · rw [if_pos hreq]
    refine .inr ⟨fun h => hreq (h.1.resolve_left hpoll).2, r.requestIrq, ?_, [], by simp,
      by simp [World.release]⟩
    simp [hreq]
    omega
  rw [if_neg (not_not.mpr hreq)]
  rcases hadapter with ⟨hfreq, hadd, heq⟩ | ⟨hnot, ret, hret, es, hes, heq⟩
  · exact .inl ⟨⟨.inr ⟨by omega, hreq⟩, hfreq, hadd⟩, heq⟩
  · exact .inr ⟨fun h => hnot h.2, ret, by simp [hpoll]; omega, es, hes, heq⟩

/-- The probe from the clock on ends in front of it, or goes on to the controller. -/
theorem probeClock_cases (pdata : Option S3c2410PlatformI2c) (r : Results) (w : World) :
    (¬ r.Mapped pdata ∧ ∃ ret, ret < 0 ∧ probeClock pdata r w = (ret, w)) ∨
    (r.Mapped pdata ∧ probeClock pdata r w = probeController r w) := by
  rw [probeClock]
  by_cases hclk : r.clkGet
  swap
  · rw [if_pos hclk]
    exact .inl ⟨fun h => hclk h.1, eNoent, by decide, rfl⟩
  rw [if_neg (not_not.mpr hclk)]
  cases hmap : r.ioremapResource with
  | some err =>
    refine .inl ⟨fun h => ?_, err, err.2, rfl⟩
    have hnone := h.2.1
    rw [hmap] at hnone
    cases hnone
  | none =>
    by_cases hgpio : ¬ pdata.any (·.cfgGpio) ∧ ¬ r.pinctrl ∧ r.parseDtGpio ≠ 0
    · refine .inl ⟨fun h => ?_, eInval, by decide, if_pos hgpio⟩
      rcases h.2.2 with hcfg | hpin | hparse
      · exact hgpio.1 hcfg
      · exact hgpio.2.1 hpin
      · exact hgpio.2.2 hparse
    · refine .inr ⟨⟨hclk, hmap, ?_⟩, if_neg hgpio⟩
      by_contra hnot
      push Not at hnot
      exact hgpio hnot

/-- The probe ends in front of the controller, or goes on to it with the quirks of the
    device. -/
theorem probe_cases (ofNode : Bool) (platdata : Option S3c2410PlatformI2c) (r : Results)
    (w : World) :
    (¬ ReachesClock ofNode platdata r ∧ ∃ ret i2c, ret < 0 ∧
      s3c24xxI2cProbe ofNode platdata r w = (ret, { w with i2c })) ∨
    (ReachesClock ofNode platdata r ∧ s3c24xxI2cProbe ofNode platdata r w =
      probeController r { w with i2c := { zeroed w.i2c with quirks := r.quirks } }) := by
  rw [s3c24xxI2cProbe]
  by_cases hdata : ¬ ofNode ∧ (if ofNode then none else platdata).isNone
  · rw [if_pos hdata]
    exact .inl ⟨fun h => h.1 hdata, eInval, w.i2c, by decide, rfl⟩
  rw [if_neg hdata]
  by_cases halloc : r.kzallocI2c
  swap
  · rw [if_pos halloc]
    exact .inl ⟨fun h => halloc h.2.1, eNomem, w.i2c, by decide, rfl⟩
  rw [if_neg (not_not.mpr halloc)]
  by_cases hpdata : r.kzallocPdata
  swap
  · rw [if_pos hpdata]
    exact .inl ⟨fun h => hpdata h.2.2.1, eNomem, zeroed w.i2c, by decide, rfl⟩
  rw [if_neg (not_not.mpr hpdata)]
  rcases probeClock_cases (if ofNode then none else platdata) r
    { w with i2c := { zeroed w.i2c with quirks := r.quirks } } with
    ⟨hnot, ret, hret, heq⟩ | ⟨hmapped, heq⟩
  · exact .inl ⟨fun h => hnot h.2.2.2, ret, _, hret, heq⟩
  · exact .inr ⟨⟨hdata, halloc, hpdata, hmapped⟩, heq⟩

/-! ### All or nothing -/

/-- Between two worlds whose ledgers differ by `es`. -/
theorem allOrNothing_iff_entries {ret : Int} {i2c : S3c24xxI2c} {es : List (Entry Resource)} :
    AllOrNothing w ret { i2c, ledger := w.ledger ++ es } ↔
      (ret = 0 ↔ balance .adapter es = 1) ∧
        (ret ≠ 0 → ∀ res ∈ [Resource.clkPrepared, .clkEnabled, .notifier],
          balance res es = 0) := by
  have hadded : Added w { i2c, ledger := w.ledger ++ es } ↔ balance .adapter es = 1 := by
    rw [Added, balance_append]
    omega
  have hrestored : Restored w { i2c, ledger := w.ledger ++ es } ↔
      ∀ res ∈ [Resource.clkPrepared, .clkEnabled, .notifier], balance res es = 0 := by
    simp only [Restored, balance_append, add_eq_left]
  rw [← hadded, ← hrestored]
  exact ⟨fun h => ⟨h.zero, h.other⟩, fun h => ⟨h.1, h.2⟩⟩

/-- The entries of the probe around the initialisation of the controller. -/
def initTaken (r : Results) : List (Entry Resource) := clockTaken r ++ [.give .clkEnabled]

theorem init_balance (r : Results) :
    balance .clkPrepared (initTaken r) = (if r.clkPrepareEnable = 0 then 1 else 0) ∧
      balance .clkEnabled (initTaken r) = (if r.clkPrepareEnable = 0 then 0 else -1) ∧
      balance .notifier (initTaken r) = 0 ∧ balance .adapter (initTaken r) = 0 := by
  rw [initTaken, clockTaken]
  split <;> decide

/-- The registers behind `s3c24xx_i2c_init`. -/
def initialised (s : S3c24xxI2c) : S3c24xxI2c := { s with iiccon := 0, iicstat := 0 }

theorem probeController_cases (hquirks : w.i2c.quirks = r.quirks) :
    (r.clockrate ≠ 0 ∧
      probeController r w = (eInval, ⟨initialised w.i2c, w.ledger ++ initTaken r⟩)) ∨
    (r.clockrate = 0 ∧ r.Served ∧ probeController r w =
      (0, ⟨initialised w.i2c, w.ledger ++ (initTaken r ++ [.take .notifier, .take .adapter])⟩)) ∨
    (r.clockrate = 0 ∧ ¬ r.Served ∧ ∃ ret,
      (ret = 0 ↔ ¬ (has r.quirks quirkPoll = true ∨ r.platformGetIrq ≠ 0)) ∧
      ∃ es ∈ [[], [.take .notifier, .give .notifier]], probeController r w =
        (ret, ⟨initialised w.i2c,
          w.ledger ++ (initTaken r ++ (es ++ [.give .clkPrepared]))⟩)) := by
  rw [probeController, clkPrepareEnable_eq, s3c24xxI2cInit]
  by_cases hrate : r.clockrate = 0
  swap
  · refine .inl ⟨hrate, ?_⟩
    rw [if_pos hrate]
    simp [World.release, initTaken, initialised, eInval]
  rw [if_neg (not_not.mpr hrate)]
  have hcases := probeIrq_cases (r := r)
    (w := ⟨initialised w.i2c, w.ledger ++ initTaken r⟩) hquirks
  simp only [List.append_assoc] at hcases
  simp only [World.release, ne_eq, not_true_eq_false, if_false, List.append_assoc,
    ← initTaken.eq_1]
  rcases hcases with ⟨hserved, heq⟩ | ⟨hnot, ret, hret, es, hes, heq⟩
  · exact .inr (.inl ⟨hrate, hserved, heq⟩)
  · exact .inr (.inr ⟨hrate, hnot, ret, hret, es, hes, heq⟩)

/-- A probe that ends behind the initialisation has unprepared the clock once. -/
theorem failed_balance {es : List (Entry Resource)}
    (hes : es ∈ [[], [.take .notifier, .give .notifier]]) :
    let total := initTaken r ++ (es ++ [.give .clkPrepared])
    balance .clkPrepared total = (if r.clkPrepareEnable = 0 then 0 else -1) ∧
      balance .clkEnabled total = (if r.clkPrepareEnable = 0 then 0 else -1) ∧
      balance .notifier total = 0 ∧ balance .adapter total = 0 := by
  rw [initTaken, clockTaken]
  revert es
  split <;> decide

theorem probeController_iff (hquirks : w.i2c.quirks = r.quirks) :
    AllOrNothing w (probeController r w).1 (probeController r w).2 ↔ r.Sound := by
  obtain ⟨hprepared, henabled, -, hadapter⟩ := init_balance r
  rcases probeController_cases hquirks with ⟨hrate, heq⟩ | ⟨hrate, hserved, heq⟩ |
    ⟨hrate, hnot, ret, hret, es, hes, heq⟩
  · -- the clock stays prepared, or is disabled without having been enabled
    have hne : eInval ≠ 0 := by decide
    rw [heq, allOrNothing_iff_entries]
    apply iff_of_false
    · intro ⟨_, hother⟩
      have hp := hother hne .clkPrepared (by simp)
      have he := hother hne .clkEnabled (by simp)
      rw [hprepared] at hp
      rw [henabled] at he
      by_cases hprep : r.clkPrepareEnable = 0
      · simp [hprep] at hp
      · simp [hprep] at he
    · intro hsound
      exact hrate hsound.1
  · have hadded : balance .adapter (initTaken r ++ [.take .notifier, .take .adapter]) = 1 := by
      rw [balance_append, hadapter]
      rfl
    rw [heq, allOrNothing_iff_entries]
    exact iff_of_true ⟨iff_of_true rfl hadded, fun hne => absurd rfl hne⟩ ⟨hrate, .inl hserved⟩
  · -- the notifier is gone, and the clock is unprepared
    obtain ⟨tprepared, tenabled, tnotifier, tadapter⟩ := failed_balance (r := r) hes
    rw [heq, allOrNothing_iff_entries, tadapter]
    constructor
    · intro ⟨hzero, hother⟩
      have hne : ret ≠ 0 := fun h => absurd (hzero.mp h) (by decide)
      have hp := hother hne .clkPrepared (by simp)
      rw [tprepared] at hp
      refine ⟨hrate, .inr ⟨?_, not_not.mp (mt hret.mpr hne)⟩⟩
      by_contra hprep
      rw [if_neg hprep] at hp
      exact absurd hp (by decide)
    · rintro ⟨-, hserved | ⟨hprep, hirq⟩⟩
      · exact absurd hserved hnot
      · have hne : ret ≠ 0 := fun h => hret.mp h hirq
        refine ⟨iff_of_false hne (by decide), fun _ => ?_⟩
        simp [tprepared, tenabled, tnotifier, hprep]

/-- For every device and whatever the calls return: the probe is all or nothing iff it ends
    in front of the clock, or is sound. -/
theorem allOrNothing_iff (ofNode : Bool) (platdata : Option S3c2410PlatformI2c) (r : Results)
    (w : World) :
    AllOrNothing w (s3c24xxI2cProbe ofNode platdata r w).1
        (s3c24xxI2cProbe ofNode platdata r w).2 ↔
      (ReachesClock ofNode platdata r → r.Sound) := by
  rcases probe_cases ofNode platdata r w with ⟨hnot, ret, i2c, hret, heq⟩ | ⟨hreaches, heq⟩
  · have hkept : AllOrNothing w ret { w with i2c } := by
      constructor
      · apply iff_of_false (Int.ne_of_lt hret)
        intro hadded
        simp [Added] at hadded
      · intro _ res _
        rfl
    rw [heq]
    exact iff_of_true hkept fun hreaches => absurd hreaches hnot
  · rw [heq]
    have hiff := probeController_iff (r := r)
      (w := { w with i2c := { zeroed w.i2c with quirks := r.quirks } }) rfl
    exact ⟨fun h _ => hiff.mp ⟨h.zero, h.other⟩, fun h =>
      ⟨(hiff.mpr (h hreaches)).zero, (hiff.mpr (h hreaches)).other⟩⟩

/-- Every call succeeds but for the setting of the clock rate. -/
def rateFails : Results where
  kzallocI2c := true
  kzallocPdata := true
  quirks := 0
  clkGet := true
  ioremapResource := none
  pinctrl := true
  parseDtGpio := 0
  clkPrepareEnable := 0
  clockrate := -22
  platformGetIrq := 43
  requestIrq := 0
  registerCpufreq := 0
  addNumberedAdapter := 0

/-- The probe returns `-EINVAL`, and the clock stays prepared. -/
theorem allOrNothing_fails_rate :
    ¬ ∀ ofNode platdata r w, AllOrNothing w (s3c24xxI2cProbe ofNode platdata r w).1
      (s3c24xxI2cProbe ofNode platdata r w).2 := by
  intro h
  have hrestored := (h true none rateFails ⟨atRest 0, []⟩).other (by decide)
  exact absurd (hrestored .clkPrepared (by decide)) (by decide)

end S3c24xx
