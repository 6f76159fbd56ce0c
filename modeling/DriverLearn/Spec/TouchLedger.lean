import DriverLearn.ForStd.Run
import DriverLearn.Native.TouchLoad

/-!
# What the touch screen driver gives back

Every path of `my_ts_init` behind the registration of the input device releases the device
twice, and so does `my_ts_exit`, which leaves the timer and the clock alone as well. So
everything is given back, once, exactly in the runs that unload nothing and in which a load
that fails does so before the device is registered. The interrupt lines and the register
mapping are given back in all runs.

## Key results

- `load_cases`: the ledger behind each outcome of a load
- `returnsAll_iff`: when a run gives back everything
- `lines_returned`: the interrupt lines and the mapping
-/

namespace TouchScreen

open Ledger

variable {s : Module} {r : Results} {op : Op}

/-! ### The law -/

/-- Nothing is held, nothing was given back that was not held, and the timer is idle. -/
structure Clean (s : Module) : Prop where
  settled : settle 0 s.ledger = some 0
  idle : s.ts.timerPending = false

/-- The law for one state. -/
def ReturnsAll (s : Module) : Prop := s.loaded = false → Clean s

/-- The module is loaded only while it is not, and the handlers run only while it is. -/
def Op.Possible (s : Module) : Op → Prop
  | .init _ => s.loaded = false
  | .exit => s.loaded = true
  | .irq _ => s.loaded = true

/-- The input device is allocated and registered. -/
def Results.Registered (r : Results) : Prop :=
  r.inputAllocateDevice = true ∧ r.inputRegisterDevice = 0

/-- No call fails that `my_ts_init` checks. -/
def Results.Complete (r : Results) : Prop :=
  r.Registered ∧ r.clkGet = true ∧ r.ioremap = true ∧ ∀ line, r.requestIrq line = 0

/-- The condition: a load succeeds or ends before the device is registered, and nothing is
    unloaded. -/
def Op.Returns : Op → Prop
  | .init r => r.Registered → r.Complete
  | .exit => False
  | .irq _ => True

/-! ### Outcomes of a load -/

/-- The entries of `clk_prepare_enable`. -/
def clockTaken (r : Results) : List (Entry Resource) :=
  if r.clkPrepareEnable = 0 then [.take .clkPrepared, .take .clkEnabled] else []

theorem clkPrepareEnable_eq (r : Results) (s : Module) :
    clkPrepareEnable r s = { s with ledger := s.ledger ++ clockTaken r } := by
  rw [clkPrepareEnable, clockTaken]
  split
  · simp [Module.acquire]
  · simp

/-- The interrupt lines and the register mapping. -/
def Resource.mapped : Resource → Bool
  | .regs => true
  | .irq _ => true
  | _ => false

/-- What a load that fails behind the registration has done before it releases the device:
    nothing with the device, and the lines and the mapping are settled. -/
structure Unwound (es : List (Entry Resource)) : Prop where
  taken : es.count (.take .inputDev) = 0
  given : es.count (.give .inputDev) = 0
  mapped : settle 0 (only Resource.mapped es) = some 0

/-- The clock goes around what was done while it was held. -/
theorem unwound_clk (r : Results) {es : List (Entry Resource)} (hes : Unwound es) :
    Unwound (.take .clk :: clockTaken r ++ (es ++ [.give .clkEnabled, .give .clk])) := by
  have hmapped : only Resource.mapped
      (.take .clk :: clockTaken r ++ (es ++ [.give .clkEnabled, .give .clk])) =
        only Resource.mapped es := by
    rw [clockTaken]
    split <;> simp [only, Resource.mapped, Entry.resource]
  constructor
  · rw [clockTaken]
    split <;> simp [hes.taken]
  · rw [clockTaken]
    split <;> simp [hes.given]
  · rw [hmapped]
    exact hes.mapped

/-- One of the calls behind the registration fails. -/
theorem initHardware_failed (hreg : r.Registered) (hfail : ¬ r.Complete) (s : Module) :
    ∃ ret ts es, ret ≠ 0 ∧ Unwound es ∧ initHardware r s =
      (ret, { s with ts, ledger := s.ledger ++ (es ++ [.give .inputDev, .give .inputDev]) }) := by
  rw [initHardware, clkPrepareEnable_eq]
  -- one call after the other; the label of a call that fails undoes those before it
  by_cases hclk : r.clkGet
  swap
  · have hes : Unwound [] := ⟨rfl, rfl, rfl⟩
    refine ⟨eBusy, s.ts, _, by decide, hes, ?_⟩
    simp [hclk, errInputUnregister, errFreeInputDev, Module.release]
  rw [if_neg (not_not.mpr hclk)]
  by_cases hmap : r.ioremap
  swap
  · have hes : Unwound [] := ⟨rfl, rfl, rfl⟩
    refine ⟨eNxIo, s.ts, _, by decide, unwound_clk r hes, ?_⟩
    simp [hmap, errFreeClk, errInputUnregister, errFreeInputDev, Module.release, Module.acquire]
  rw [if_neg (not_not.mpr hmap)]
  by_cases htc : r.requestIrq .tc = 0
  swap
  · have hes : Unwound [.take .regs, .give .regs] := ⟨rfl, rfl, rfl⟩
    refine ⟨_, { s.ts with adccon := 1 <<< 14 ||| 49 <<< 6 }, _, htc, unwound_clk r hes, ?_⟩
    simp [htc, errIomap, errFreeClk, errInputUnregister, errFreeInputDev, Module.release,
      Module.acquire]
  rw [if_neg (not_not.mpr htc)]
  by_cases hadc : r.requestIrq .adc = 0
  swap
  · have hes : Unwound [.take .regs, .take (.irq .tc), .give (.irq .tc), .give .regs] :=
      ⟨rfl, rfl, rfl⟩
    refine ⟨_, { s.ts with adccon := 1 <<< 14 ||| 49 <<< 6 }, _, hadc, unwound_clk r hes, ?_⟩
    simp [hadc, errIrqTc, errIomap, errFreeClk, errInputUnregister, errFreeInputDev,
      Module.release, Module.acquire]
  · have hirq : ∀ line, r.requestIrq line = 0 := by
      intro line
      cases line with
      | tc => exact htc
      | adc => exact hadc
    exact absurd ⟨hreg, hclk, hmap, hirq⟩ hfail

/-- A load with every call successful. -/
theorem initHardware_complete (h : r.Complete) (s : Module) :
    initHardware r s =
      (0, { s with
        ts := { s.ts with adccon := 1 <<< 14 ||| 49 <<< 6, timerPending := true, adctsc := 0xd3 }
        ledger := s.ledger ++ (.take .clk :: clockTaken r ++
          [.take .regs, .take (.irq .tc), .take (.irq .adc)]) }) := by
  obtain ⟨-, hclk, hmap, hirq⟩ := h
  rw [initHardware, clkPrepareEnable_eq, if_neg (not_not.mpr hclk), if_neg (not_not.mpr hmap),
    if_neg (not_not.mpr (hirq .tc)), if_neg (not_not.mpr (hirq .adc))]
  simp [Module.acquire, enterWaitPenDownMode]

/-- Behind a load: the device could not be registered and was released, or a later call
    failed, or all succeeded. -/
theorem load_cases (r : Results) (s : Module) :
    (¬ r.Registered ∧ ∃ ledger,
      load r s = { s.fresh with loaded := false, ledger } ∧
      (ledger = s.ledger ∨ ledger = s.ledger ++ [.take .inputDev, .give .inputDev])) ∨
    (r.Registered ∧ ¬ r.Complete ∧ ∃ ts es, Unwound es ∧
      load r s = ⟨ts, false, s.ledger ++ (.take .inputDev :: es ++
        [.give .inputDev, .give .inputDev])⟩) ∨
    (r.Complete ∧
      load r s = ⟨Ts.init, true, s.ledger ++ (.take .inputDev :: .take .clk :: clockTaken r ++
        [.take .regs, .take (.irq .tc), .take (.irq .adc)])⟩) := by
  rw [load, myTsInit]
  by_cases halloc : r.inputAllocateDevice
  swap
  · rw [if_pos halloc]
    exact .inl ⟨fun h => halloc h.1, s.ledger, rfl, .inl rfl⟩
  rw [if_neg (not_not.mpr halloc)]
  by_cases hret : r.inputRegisterDevice = 0
  swap
  · rw [if_pos hret]
    refine .inl ⟨fun h => hret h.2, _, ?_, .inr rfl⟩
    simp [errFreeInputDev, Module.acquire, Module.release, Module.fresh, hret]
  rw [if_neg (not_not.mpr hret)]
  by_cases hall : r.Complete
  · rw [initHardware_complete hall]
    refine .inr (.inr ⟨hall, ?_⟩)
    simp [Module.acquire, Module.fresh, Ts.init]
  -- `err_input_unregister` releases the device and falls through to `err_free_input_dev`
  · obtain ⟨ret, ts, es, hne, hes, heq⟩ :=
      initHardware_failed ⟨halloc, hret⟩ hall (s.fresh.acquire .inputDev)
    rw [heq]
    refine .inr (.inl ⟨⟨halloc, hret⟩, hall, ts, es, hes, ?_⟩)
    simp [Module.acquire, Module.fresh, hne]

/-! ### The interrupt lines and the mapping -/

/-- The lines and the mapping, as held while the module is loaded. -/
def lines (loaded : Bool) : Multiset Resource :=
  if loaded then {.irq .adc, .irq .tc, .regs} else 0

/-- The lines and the mapping are held just while the module is loaded. -/
def LinesReturned (s : Module) : Prop :=
  settle 0 (only Resource.mapped s.ledger) = some (lines s.loaded)

theorem load_lines (h : LinesReturned s) (hloaded : s.loaded = false) (r : Results) :
    LinesReturned (load r s) := by
  rw [LinesReturned, hloaded] at h
  rcases load_cases r s with ⟨-, ledger, heq, rfl | rfl⟩ | ⟨-, -, ts, es, hes, heq⟩ | ⟨-, heq⟩
  · rw [heq]
    exact h
  · rw [heq, LinesReturned, only_append, settle_append h]
    rfl
  · have honly : only Resource.mapped (.take .inputDev :: es ++
        [.give .inputDev, .give .inputDev]) = only Resource.mapped es := by
      simp [only, Resource.mapped, Entry.resource]
    rw [heq, LinesReturned, only_append, settle_append h, honly]
    exact hes.mapped
  · rw [heq, LinesReturned, only_append, settle_append h, clockTaken]
    split <;> rfl

theorem step_lines (s : Module) (op : Op) (h : LinesReturned s) (hposs : op.Possible s) :
    LinesReturned (step s op) := by
  cases op with
  | init r => exact load_lines h hposs r
  | exit =>
    rw [LinesReturned, show s.loaded = true from hposs] at h
    simp only [step, unload, myTsExit, Module.release, List.append_assoc, LinesReturned]
    rw [only_append, settle_append h]
    rfl
  | irq e => exact h

/-- In every run. -/
theorem lines_returned (adccon adctsc : BitVec 32) (ops : List Op)
    (hposs : Run.Guarded step (fun s op => op.Possible s) (Module.init adccon adctsc) ops) :
    LinesReturned (ops.foldl step (Module.init adccon adctsc)) :=
  Run.foldl_of_guarded step_lines rfl hposs

/-! ### Runs -/

/-- While the module is loaded the input device is taken once more than given back. -/
structure LoadInv (s : Module) : Prop where
  unloaded : s.loaded = false → Clean s
  loaded : s.loaded = true →
    s.ledger.count (.take .inputDev) = s.ledger.count (.give .inputDev) + 1

theorem Clean.count_eq (h : Clean s) :
    s.ledger.count (.take .inputDev) = s.ledger.count (.give .inputDev) := by
  simpa using settle_count h.settled .inputDev

theorem Clean.loadInv (h : Clean s) (hloaded : s.loaded = false) : LoadInv s where
  unloaded _ := h
  loaded htrue := absurd (hloaded.symm.trans htrue) Bool.false_ne_true

theorem returnsAll_of_loaded (hloaded : s.loaded = true) : ReturnsAll s := by
  intro hfalse
  rw [hloaded] at hfalse
  cases hfalse

theorem load_inv (h : Clean s) :
    (ReturnsAll (load r s) ↔ (r.Registered → r.Complete)) ∧
      ((r.Registered → r.Complete) → LoadInv (load r s)) := by
  have hbefore := h.count_eq
  rcases load_cases r s with ⟨hreg, ledger, heq, hledger⟩ | ⟨hreg, hall, ts, es, hes, heq⟩ |
    ⟨hall, heq⟩
  · -- nothing is held, and the new timer was not added
    have hclean : Clean (load r s) := by
      rw [heq]
      refine ⟨?_, rfl⟩
      rcases hledger with rfl | rfl
      · exact h.settled
      · exact settle_append h.settled _
    have hloaded : (load r s).loaded = false := by rw [heq]
    exact ⟨iff_of_true (fun _ => hclean) fun h => absurd h hreg, fun _ => hclean.loadInv hloaded⟩
  · -- the device is given back twice
    have hreturns : ¬ ReturnsAll (load r s) := by
      intro hreturns
      rw [heq] at hreturns
      have hafter := (hreturns rfl).count_eq
      simp [hes.taken, hes.given] at hafter
      omega
    exact ⟨iff_of_false hreturns fun h => hall (h hreg), fun h => absurd (h hreg) hall⟩
  · -- the device is held
    have hloaded : (load r s).loaded = true := by rw [heq]
    have hreturns := returnsAll_of_loaded hloaded
    have hheld : (load r s).ledger.count (.take .inputDev) =
        (load r s).ledger.count (.give .inputDev) + 1 := by
      rw [heq, clockTaken]
      split <;> simp [hbefore]
    exact ⟨iff_of_true hreturns fun _ => hall, fun _ => ⟨hreturns, fun _ => hheld⟩⟩

/-- The unload gives the device back twice. -/
theorem not_returnsAll_unload (h : LoadInv s) (hloaded : s.loaded = true) :
    ¬ ReturnsAll (unload s) := by
  intro hreturns
  have hafter := (hreturns rfl).count_eq
  have hbefore := h.loaded hloaded
  simp [unload, myTsExit, Module.release] at hafter
  omega

theorem step_inv (s : Module) (op : Op) (h : LoadInv s) (hposs : op.Possible s) :
    (ReturnsAll (step s op) ↔ op.Returns) ∧ (op.Returns → LoadInv (step s op)) := by
  cases op with
  | init r => exact load_inv (h.unloaded hposs)
  | exit => exact ⟨iff_of_false (not_returnsAll_unload h hposs) id, False.elim⟩
  | irq e =>
    -- the handlers take and give back nothing
    have hreturns : ReturnsAll (step s (.irq e)) := returnsAll_of_loaded hposs
    exact ⟨iff_of_true hreturns trivial, fun _ => ⟨hreturns, fun _ => h.loaded hposs⟩⟩

theorem loadInv_init (adccon adctsc : BitVec 32) : LoadInv (Module.init adccon adctsc) where
  unloaded _ := ⟨rfl, rfl⟩
  loaded := nofun

/-- For every run of loads, unloads and handlers, whatever the calls of each load return:
    everything has been given back, once, whenever the module is not loaded iff nothing is
    unloaded and a load that fails does so before the device is registered. -/
theorem returnsAll_iff (adccon adctsc : BitVec 32) (ops : List Op)
    (hposs : Run.Guarded step (fun s op => op.Possible s) (Module.init adccon adctsc) ops) :
    Run.Guarded step (fun s op => ReturnsAll (step s op)) (Module.init adccon adctsc) ops ↔
      ∀ op ∈ ops, op.Returns := by
  rw [Run.guarded_congr step_inv (loadInv_init adccon adctsc) hposs]
  exact Run.guarded_iff_forall (Q := Op.Returns) fun _ _ => Iff.rfl

/-- A kernel where every call succeeds. -/
def Results.ok : Results := ⟨true, 0, true, 0, true, fun _ => 0⟩

/-- A load whose device cannot be registered, one that succeeds, and a pen interrupt. -/
def loadedRun : List Op :=
  [.init { Results.ok with inputRegisterDevice := -22 }, .init .ok, .irq (.pen 0 0)]

theorem returnsAll_iff_loadedRun :
    Run.Guarded step (fun s op => ReturnsAll (step s op)) (Module.init 0 0) loadedRun ↔
      ∀ op ∈ loadedRun, op.Returns :=
  returnsAll_iff 0 0 loadedRun ⟨rfl, rfl, rfl, trivial⟩

/-- The driver is loaded and unloaded, and no call fails. -/
theorem returnsAll_fails_unloaded :
    ¬ ∀ ops, Run.Guarded step (fun s op => op.Possible s) (Module.init 0 0) ops →
      Run.Guarded step (fun s op => ReturnsAll (step s op)) (Module.init 0 0) ops := by
  intro h
  have hreturns := h [.init .ok, .exit] ⟨rfl, rfl, trivial⟩
  have hclean := hreturns.2.1 rfl
  exact absurd hclean.settled (by decide)

end TouchScreen
