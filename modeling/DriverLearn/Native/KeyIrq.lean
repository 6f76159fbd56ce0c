import Mathlib.Logic.Function.Basic
import Mathlib.Tactic.Common

/-!
# Key device: open and close

Model of `my_key_open` and `my_key_close`, which stand in the same words in
`key_irq_drv.c`, `key_jiffer_drv.c` and `req_drv.c`. An interrupt line of the kernel
has at most one handler, since the driver does not pass `IRQF_SHARED`.
-/

namespace KeyIrq

/-- The four interrupt lines of `pins_desc`. -/
inductive Line where
  | eint0
  | eint2
  | eint11
  | eint19
  deriving DecidableEq, Repr

/-- The interrupt lines: the `dev_id` of the handler registered on each, as an index into
    `pins_desc`, and the `free_irq` calls that found no such handler. -/
structure IrqCore where
  action : Line → Option Nat
  badFree : List Line

/-- `-EBUSY` -/
def eBusy : Int := -16

/-- `request_irq` for an edge on the line. -/
def requestIrq (line : Line) (devId : Nat) (c : IrqCore) : Int × IrqCore :=
  if (c.action line).isSome then
    (eBusy, c)
  else
    (0, { c with action := Function.update c.action line (some devId) })

/-- `free_irq`, which finds the handler by its `dev_id`. -/
def freeIrq (line : Line) (devId : Nat) (c : IrqCore) : IrqCore :=
  if c.action line = some devId then
    { c with action := Function.update c.action line none }
  else
    { c with badFree := c.badFree ++ [line] }

/-- Every `ret` is overwritten by the next one, and none is looked at. -/
def myKeyOpen (c : IrqCore) : Int × IrqCore :=
  let (_ret, c) := requestIrq .eint0 0 c
  let (_ret, c) := requestIrq .eint2 1 c
  let (_ret, c) := requestIrq .eint11 2 c
  let (_ret, c) := requestIrq .eint19 3 c
  (0, c)

/-- `my_key_close`: the four lines are freed. -/
def myKeyClose (c : IrqCore) : Int × IrqCore :=
  let c := freeIrq .eint0 0 c
  let c := freeIrq .eint2 1 c
  let c := freeIrq .eint11 2 c
  let c := freeIrq .eint19 3 c
  (0, c)

/-! ### Opens and closes by any number of processes -/

/-- The interrupt lines and the processes that hold an open file of the device, once for
    each file. -/
structure Device where
  core : IrqCore
  files : List Nat

/-- The module is loaded and nobody has opened the device. -/
def Device.init : Device := ⟨⟨fun _ => none, []⟩, []⟩

/-- What processes do with the device. -/
inductive Op where
  | open (pid : Nat)
  | close (pid : Nat)
  deriving Repr

/-- One open or close. -/
def step (d : Device) : Op → Device
  | .open pid =>
    let (ret, core) := myKeyOpen d.core
    ⟨core, if ret = 0 then pid :: d.files else d.files⟩
  | .close pid => ⟨(myKeyClose d.core).2, d.files.erase pid⟩

/-- The opens and closes one after the other. -/
def run (d : Device) (ops : List Op) : Device := ops.foldl step d

end KeyIrq
