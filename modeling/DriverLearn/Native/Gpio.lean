import DriverLearn.ForStd.Memory
import DriverLearn.ForStd.Rmw
import DriverLearn.ForStd.Word

/-!
# Shared port registers

What `led_init` and `led_write` (`led/led.c`), `my_key_open` (`key/key_drv.c`) and
`mylcd_init` (`lcd/lcd_2440fb.c`) do to the registers of the ports F and G. Each `*reg &= ~bits`
and `*reg |= bits` reads the register and writes it back, and other processes make accesses of
their own in between.

The registers of the other ports, which only `lcd_2440fb.c` uses, and `GPGDAT`, which is only
read, are left out.
-/

namespace Gpio

open Memory Word Rmw

/-- The registers that the drivers share. -/
inductive GpioReg where
  | gpfcon
  | gpfdat
  | gpgcon
  deriving DecidableEq, Repr

/-- `*reg &= ~bits` or `*reg |= bits` -/
inductive Change where
  | clear (bits : BitVec 32)
  | set (bits : BitVec 32)
  deriving DecidableEq, Repr

/-- A change of a register's value. -/
def Change.apply : Change → BitVec 32 → BitVec 32
  | .clear bits, v => v &&& ~~~bits
  | .set bits, v => v ||| bits

/-! ### The functions of the drivers -/

/-- `led_init`, from `ioremap` on. -/
def ledInit : List (GpioReg × Change) :=
  [(.gpfcon, .clear (0x3#32 <<< 12 ||| 0x3#32 <<< 10 ||| 0x3#32 <<< 8)),
    (.gpfcon, .set (0x1#32 <<< 12 ||| 0x1#32 <<< 10 ||| 0x1#32 <<< 8)),
    (.gpfdat, .set 0x70)]

/-- `val` of `led_write` behind `copy_from_user`, which fills up with zeros what it cannot
    read; `buf` is what can be read. -/
def ledVal (buf : List Byte) (count : Nat) : BitVec 32 :=
  let lenght := if 4 > count then count else 4
  (buf.take lenght).foldr (fun b v => v <<< 8 ||| b.setWidth 32) 0

/-- `led_write`: the first byte of the buffer says whether the LEDs are to be on. -/
def ledWrite (buf : List Byte) (count : Nat) : Int × List (GpioReg × Change) :=
  if ledVal buf count ≠ 0 then
    (toS32 count, [(.gpfdat, .clear (0x07#32 <<< 4))])
  else
    (toS32 count, [(.gpfdat, .set (0x07#32 <<< 4))])

/-- `my_key_open` of `key_drv.c` -/
def myKeyOpen : Int × List (GpioReg × Change) :=
  (0, [(.gpfcon, .clear (0x3#32 <<< 0 ||| 0x3#32 <<< (2 * 2))),
    (.gpgcon, .clear (0x3#32 <<< (2 * 2) ||| 0x3#32 <<< (2 * 11)))])

/-- `mylcd_init`, for the pin `lcd_power`. -/
def mylcdInit : List (GpioReg × Change) := [(.gpgcon, .set (3#32 <<< (4 * 2)))]

/-! ### Runs -/

/-- The functions that change the registers. -/
inductive Op where
  | ledInit
  | ledWrite (buf : List Byte) (count : Nat)
  | myKeyOpen
  | mylcdInit
  deriving DecidableEq, Repr

/-- Their read-modify-write statements, in order. -/
def Op.changes : Op → List (GpioReg × Change)
  | .ledInit => Gpio.ledInit
  | .ledWrite buf count => (Gpio.ledWrite buf count).2
  | .myKeyOpen => Gpio.myKeyOpen.2
  | .mylcdInit => Gpio.mylcdInit

/-- A change that is made for an operation. -/
structure Assign where
  op : Op
  reg : GpioReg
  change : Change
  deriving DecidableEq, Repr

/-- The same with the function each belongs to. -/
def Op.assigns (op : Op) : List Assign := op.changes.map fun c => ⟨op, c.1, c.2⟩

/-- A process begins an operation, or makes the next access of its own. -/
inductive Step where
  | call (pid : Nat) (op : Op)
  | access (pid : Nat)

/-- A step as one of the shared cells. -/
def Step.toRmw : Step → Rmw.Step Assign
  | .call pid op => .call pid op.assigns
  | .access pid => .access pid

/-- The registers, and the processes with the values they have loaded. -/
abbrev Ports := Shared GpioReg (BitVec 32) Assign

/-- The interleaving of the steps, from the given registers. -/
def run (regs : GpioReg → BitVec 32) (steps : List Step) : Ports :=
  (steps.map Step.toRmw).foldl (Rmw.step Assign.reg fun a => a.change.apply) (Shared.init regs)

end Gpio
