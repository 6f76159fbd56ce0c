import DriverLearn.ForStd.Word
import DriverLearn.Native.KeyInput

/-!
# Mouse as keys

Model of `usbmouse_as_key.c`: the completion handler `usbmouse_as_key_irq`, and
`usbmouse_as_key_probe` and `usbmouse_as_key_disconnect`. All that the driver knows of a
mouse is in static variables. The objects of the kernel are numbered from 1 in the order in
which they are allocated, 0 is NULL, and the log records the calls made to the kernel.
Allocations of buffers and URBs, whose results the driver does not look at, succeed. The
contents of the URB and `usb_buf_phys`, which goes along with `usb_buf`, are left out.
-/

namespace UsbmouseKey

open Word
open KeyInput (KeyCode)

/-- What the driver calls of the kernel. -/
inductive KernelCall where
  | allocInput (dev : Nat)
  | registerInput (dev : Nat)
  | unregisterInput (dev : Nat)
  | freeInput (dev : Nat)
  | allocCoherent (len buf : Nat)
  | freeCoherent (len buf : Nat)
  | allocUrb (urb : Nat)
  | submitUrb (urb : Nat)
  | killUrb (urb : Nat)
  | freeUrb (urb : Nat)
  | inputEvent (dev : Nat) (code : KeyCode) (value : Bool)
  | inputSync (dev : Nat)
  deriving DecidableEq, Repr

/-- The static variables, the next object the kernel hands out, and the log. -/
structure Usbmouse where
  ukIdev : Nat
  usbBuf : Nat
  len : Nat
  ukUrb : Nat
  preVal : Byte
  next : Nat
  log : List KernelCall

/-- The module is loaded, and there is no mouse. -/
def Usbmouse.init : Usbmouse := ⟨0, 0, 0, 0, 0, 1, []⟩

/-- `-ENOMEM` -/
def eNomem : Int := -12

/-- A call of the kernel is recorded. -/
def call (c : KernelCall) (s : Usbmouse) : Usbmouse := { s with log := s.log ++ [c] }

/-- A call that hands out an object. -/
def alloc (c : Nat → KernelCall) (s : Usbmouse) : Nat × Usbmouse :=
  (s.next, { call (c s.next) s with next := s.next + 1 })

/-- One `if ((pre_val ^ usb_buf[0]) & mask)` of the handler. -/
def reportButton (mask : Byte) (code : KeyCode) (data0 : Byte) (s : Usbmouse) : Usbmouse :=
  if has (s.preVal ^^^ data0) mask then
    call (.inputEvent s.ukIdev code (has data0 mask)) s
  else
    s

/-- `data0` is `usb_buf[0]`. -/
def usbmouseAsKeyIrq (data0 : Byte) (s : Usbmouse) : Usbmouse :=
  let s := reportButton 0x01 .keyL data0 s
  let s := reportButton 0x02 .keyS data0 s
  let s := reportButton 0x04 .keyEnter data0 s
  let s := if s.preVal ^^^ data0 ≠ 0 then call (.inputSync s.ukIdev) s else s
  let s := { s with preVal := data0 }
  call (.submitUrb s.ukUrb) s

/-- `idevOk` and `registerRet` say how the allocation and the registration of the input
    device go; `wMaxPacketSize` comes from the endpoint. -/
def usbmouseAsKeyProbe (idevOk : Bool) (registerRet : Int) (wMaxPacketSize : Nat)
    (s : Usbmouse) : Int × Usbmouse :=
  let (dev, s) := if idevOk then alloc .allocInput s else (0, s)
  let s := { s with ukIdev := dev }
  if s.ukIdev = 0 then
    (eNomem, s)
  else
    let s := call (.registerInput s.ukIdev) s
    if registerRet ≠ 0 then
      (registerRet, call (.freeInput s.ukIdev) s)
    else
      let s := { s with len := wMaxPacketSize }
      let (buf, s) := alloc (.allocCoherent s.len) s
      let s := { s with usbBuf := buf }
      let (urb, s) := alloc .allocUrb s
      let s := { s with ukUrb := urb }
      (0, call (.submitUrb s.ukUrb) s)

/-- `usbmouse_as_key_disconnect` -/
def usbmouseAsKeyDisconnect (s : Usbmouse) : Usbmouse :=
  let s := call (.killUrb s.ukUrb) s
  let s := call (.freeUrb s.ukUrb) s
  let s := call (.freeCoherent s.len s.usbBuf) s
  let s := call (.unregisterInput s.ukIdev) s
  call (.freeInput s.ukIdev) s

/-! ### One mouse -/

/-- The driver with one mouse: whether it is bound to it, and whether no report has come
    since it was bound. -/
structure Session where
  mouse : Usbmouse
  bound : Bool
  fresh : Bool

/-- No mouse was probed yet. -/
def Session.init : Session := ⟨Usbmouse.init, false, false⟩

/-- What happens to one mouse. -/
inductive Act where
  | probe (idevOk : Bool) (registerRet : Int) (wMaxPacketSize : Nat)
  | report (data0 : Byte)
  | disconnect
  deriving Repr

/-- One act, where the USB core lets it come. -/
def act (s : Session) : Act → Session
  | .probe idevOk registerRet wMaxPacketSize =>
    let (ret, mouse) := usbmouseAsKeyProbe idevOk registerRet wMaxPacketSize s.mouse
    ⟨mouse, decide (ret = 0), true⟩
  | .report data0 => { s with mouse := usbmouseAsKeyIrq data0 s.mouse, fresh := false }
  | .disconnect => { s with mouse := usbmouseAsKeyDisconnect s.mouse, bound := false }

/-- The mouse is probed while it is not bound, and reports and goes while it is. -/
def Act.Possible (s : Session) : Act → Prop
  | .probe _ _ _ => s.bound = false
  | .report _ => s.bound = true
  | .disconnect => s.bound = true

/-! ### Any number of mice -/

/-- What a probe allocated. -/
structure Owned where
  idev : Nat
  len : Nat
  buf : Nat
  urb : Nat
  deriving DecidableEq, Repr

/-- What the static variables point to. -/
def Usbmouse.owned (s : Usbmouse) : Owned := ⟨s.ukIdev, s.len, s.usbBuf, s.ukUrb⟩

/-- The driver with its interfaces: those that are bound, with what the probe of each
    allocated, and the one that was probed last. -/
structure Bus where
  mouse : Usbmouse
  bound : List (Nat × Owned)
  last : Option Nat

/-- No device is there. -/
def Bus.init : Bus := ⟨Usbmouse.init, [], none⟩

/-- A successful probe of an interface, and its disconnect. -/
inductive Op where
  | probe (intf wMaxPacketSize : Nat)
  | disconnect (intf : Nat)
  deriving Repr

/-- One step of the bus. -/
def step (s : Bus) : Op → Bus
  | .probe i wMaxPacketSize =>
    let mouse := (usbmouseAsKeyProbe true 0 wMaxPacketSize s.mouse).2
    ⟨mouse, (i, mouse.owned) :: s.bound, some i⟩
  | .disconnect i =>
    { s with
      mouse := usbmouseAsKeyDisconnect s.mouse
      bound := s.bound.filter fun b => b.1 ≠ i }

/-- An interface is probed while it is not bound, and disconnected while it is. -/
def Op.Possible (s : Bus) : Op → Prop
  | .probe i _ => ∀ o, (i, o) ∉ s.bound
  | .disconnect i => ∃ o, (i, o) ∈ s.bound

/-- The steps one after the other. -/
def run (ops : List Op) : Bus := ops.foldl step Bus.init

end UsbmouseKey
