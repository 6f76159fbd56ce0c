import DriverLearn.ForStd.Ledger
import DriverLearn.Native.TouchScreen

/-!
# Loading and unloading the touch screen driver

Model of `my_ts_init` and `my_ts_exit` of `ts_drv.c`. What the functions they call return is
given to each load. Next to the state of the handlers a ledger is kept of what was taken
from the kernel and given back. `input_unregister_device` gives back a registered input
device, and `input_free_device` one that is not registered.

The capability bits of the input device, the messages and `ADCDLY`, which nothing reads, are
left out.
-/

namespace TouchScreen

open Ledger

/-- `-ENXIO` -/
def eNxIo : Int := -6

/-- `-ENOMEM` -/
def eNoMem : Int := -12

/-- `-EBUSY` -/
def eBusy : Int := -16

/-- `IRQ_TC` and `IRQ_ADC` -/
inductive Line where
  | tc
  | adc
  deriving DecidableEq, Repr

/-- What a load takes. -/
inductive Resource where
  | inputDev
  | clk
  | clkPrepared
  | clkEnabled
  | regs
  | irq (line : Line)
  deriving DecidableEq, Repr

/-- What the functions return that `my_ts_init` calls: for the first, `clk_get` and `ioremap`
    whether the pointer is valid, for the others 0 or an error. -/
structure Results where
  inputAllocateDevice : Bool
  inputRegisterDevice : Int
  clkGet : Bool
  clkPrepareEnable : Int
  ioremap : Bool
  requestIrq : Line → Int

/-- The state of the handlers, whether the module is loaded, and the ledger. -/
structure Module where
  ts : Ts
  loaded : Bool
  ledger : List (Entry Resource)

def Module.acquire (s : Module) (r : Resource) : Module :=
  { s with ledger := s.ledger ++ [.take r] }

def Module.release (s : Module) (r : Resource) : Module :=
  { s with ledger := s.ledger ++ [.give r] }

/-! ### my_ts_init -/

/-- The label `err_free_input_dev`, with `input_free_device`. -/
def errFreeInputDev (s : Module) : Module := s.release .inputDev

/-- The label `err_input_unregister`, with `input_unregister_device`. -/
def errInputUnregister (s : Module) : Module := errFreeInputDev (s.release .inputDev)

/-- The label `err_free_clk`, with `clk_disable` and `clk_put`. -/
def errFreeClk (s : Module) : Module :=
  errInputUnregister ((s.release .clkEnabled).release .clk)

/-- The label `err_iomap`. -/
def errIomap (s : Module) : Module := errFreeClk (s.release .regs)

/-- The label `err_irq_tc`. -/
def errIrqTc (s : Module) : Module := errIomap (s.release (.irq .tc))

/-- `clk_prepare_enable`, whose result the driver ignores. -/
def clkPrepareEnable (r : Results) (s : Module) : Module :=
  if r.clkPrepareEnable = 0 then (s.acquire .clkPrepared).acquire .clkEnabled else s

/-- `my_ts_init` from the clock on. -/
def initHardware (r : Results) (s : Module) : Int × Module :=
  if ¬ r.clkGet then
    (eBusy, errInputUnregister s)
  else
    let s := clkPrepareEnable r (s.acquire .clk)
    if ¬ r.ioremap then
      (eNxIo, errFreeClk s)
    else
      let s := s.acquire .regs
      -- the divider is set, and no conversion started
      let s := { s with ts := { s.ts with adccon := 1 <<< 14 ||| 49 <<< 6 } }
      let ret := r.requestIrq .tc
      if ret ≠ 0 then
        (ret, errIomap s)
      else
        let s := s.acquire (.irq .tc)
        let ret := r.requestIrq .adc
        if ret ≠ 0 then
          (ret, errIrqTc s)
        else
          let s := s.acquire (.irq .adc)
          -- `init_timer` and `add_timer`
          let s := { s with ts := { s.ts with timerPending := true } }
          (0, { s with ts := enterWaitPenDownMode s.ts })

def myTsInit (r : Results) (s : Module) : Int × Module :=
  if ¬ r.inputAllocateDevice then
    (eNoMem, s)
  else
    let s := s.acquire .inputDev
    let ret := r.inputRegisterDevice
    if ret ≠ 0 then
      (ret, errFreeInputDev s)
    else
      initHardware r s

/-! ### my_ts_exit -/

def myTsExit (s : Module) : Module :=
  let s := s.release (.irq .adc)
  let s := s.release (.irq .tc)
  let s := s.release .regs
  -- `input_unregister_device` and `input_free_device`; the timer and the clock are left alone
  let s := s.release .inputDev
  s.release .inputDev

/-! ### Runs -/

/-- The registers of the controller and the ledger live on, the static variables are new. -/
def Module.fresh (s : Module) : Module :=
  { s with ts := { s.ts with
      cnt := 0
      x := fun _ => 0
      y := fun _ => 0
      timerPending := false
      log := [] } }

/-- The module is loaded if `my_ts_init` returns 0. -/
def load (r : Results) (s : Module) : Module :=
  let (ret, s) := myTsInit r s.fresh
  { s with loaded := ret = 0 }

def unload (s : Module) : Module := { myTsExit s with loaded := false }

/-- A load, an unload, and a run of a handler. -/
inductive Op where
  | init (r : Results)
  | exit
  | irq (e : Irq)

def step (s : Module) : Op → Module
  | .init r => load r s
  | .exit => unload s
  | .irq e => { s with ts := handle s.ts e }

/-- The module has not been loaded yet, and the registers hold anything. -/
def Module.init (adccon adctsc : BitVec 32) : Module where
  ts := ⟨adccon, adctsc, 0, fun _ => 0, fun _ => 0, false, []⟩
  loaded := false
  ledger := []

end TouchScreen
