import DriverLearn.ForStd.Ledger
import DriverLearn.Native.KeyInput

/-!
# Loading and unloading the input key driver

Model of `my_key_init` and `my_key_exit` of `key_input_drv.c`, for a table `pins_desc` of `n`
entries, as a function of the index. What the functions they call return is given to the
load. Next to whether `key_timer` is pending a ledger is kept of what was taken from the
kernel and given back; an interrupt line is held with its `dev_id`, as an index into
`pins_desc`. `input_unregister_device` gives back a registered input device, and
`input_free_device` one that is not registered.

The capability bits of the input device and the messages are left out.
-/

namespace KeyInput

open Ledger

/-- `-ENOMEM` -/
def eNoMem : Int := -12

/-- `struct pin_desc`, without the name. -/
structure PinIrq extends PinDesc where
  irq : Int

/-- What a load takes. -/
inductive Resource where
  | inputDev
  | irq (line : Int) (devId : Nat)
  deriving DecidableEq, Repr

/-- What the functions return that `my_key_init` calls: whether there was memory, and for the
    others 0 or an error; for `request_irq` by the entry of `pins_desc`. -/
structure Results where
  inputAllocateDevice : Bool
  inputRegisterDevice : Int
  requestIrq : Nat → Int

/-- The resources that the module has taken and given back, and its timer. -/
structure Module where
  timerPending : Bool
  ledger : List (Entry Resource)

/-- The module is not loaded. -/
def Module.init : Module := ⟨false, []⟩

/-- A resource is taken. -/
def Module.acquire (s : Module) (r : Resource) : Module :=
  { s with ledger := s.ledger ++ [.take r] }

/-- A resource is given back. -/
def Module.release (s : Module) (r : Resource) : Module :=
  { s with ledger := s.ledger ++ [.give r] }

/-- `add_timer` -/
def addTimer (s : Module) : Module := { s with timerPending := true }

/-- `del_timer` -/
def delTimer (s : Module) : Module := { s with timerPending := false }

section

variable (n : Nat) (pins : Nat → PinIrq)

/-- The line of an entry, with its `dev_id`. -/
def line (i : Nat) : Resource := .irq (pins i).irq i

/-! ### my_key_init -/

/-- The loop that requests the lines from `i` on: the last result, and where it ends. -/
def requestIrqs (r : Results) (i : Nat) (s : Module) : Int × Nat × Module :=
  if i < n then
    let ret := r.requestIrq i
    if ret ≠ 0 then
      -- `i` stays at the entry that failed
      (ret, i, s)
    else
      requestIrqs r (i + 1) (s.acquire (line pins i))
  else
    (0, i, s)
termination_by n - i

/-- `for(i--; i >= 0; i--) free_irq(pins_desc[i].irq, &pins_desc[i]);` -/
def freeIrqsBelow : Nat → Module → Module
  | 0, s => s
  | i + 1, s => freeIrqsBelow i (s.release (line pins i))

/-- The label `err_free_input_dev`, with `input_free_device`. -/
def errFreeInputDev (s : Module) : Module := s.release .inputDev

/-- The label `err_free_irq`. -/
def errFreeIrq (i : Nat) (s : Module) : Module :=
  let s := freeIrqsBelow pins i s
  let s := delTimer s
  -- `input_unregister_device`
  errFreeInputDev (s.release .inputDev)

/-- `my_key_init` -/
def myKeyInit (r : Results) (s : Module) : Int × Module :=
  if ¬ r.inputAllocateDevice then
    (eNoMem, s)
  else
    let s := s.acquire .inputDev
    let ret := r.inputRegisterDevice
    if ret ≠ 0 then
      (ret, errFreeInputDev s)
    else
      match requestIrqs n pins r 0 (addTimer s) with
      | (ret, i, s) =>
        if ret ≠ 0 then
          (ret, errFreeIrq pins i s)
        else
          (0, s)

/-! ### my_key_exit -/

/-- The loop that frees the lines from `i` on. -/
def freeIrqs (i : Nat) (s : Module) : Module :=
  if i < n then
    freeIrqs (i + 1) (s.release (line pins i))
  else
    s
termination_by n - i

/-- `my_key_exit` -/
def myKeyExit (s : Module) : Module :=
  let s := freeIrqs n pins 0 s
  let s := delTimer s
  -- `input_unregister_device` and `input_free_device`
  let s := s.release .inputDev
  s.release .inputDev

end

end KeyInput
