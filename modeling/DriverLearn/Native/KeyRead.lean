import DriverLearn.ForStd.Word

/-!
# Key device: events, read and poll

Model of what `key_irq_drv.c` and `key_jiffer_drv.c` do with the keys: `buttons_irq` of the
first and `kery_timer_function` of the second write `pins_desc`, and `my_key_read` and
`my_key_poll`, the same in both, bring the keys to the user. `my_key_read` goes statement
by statement, so that an event can come between any two of them. The wait queue and the
signal to `my_key_async_q` are left out.
-/

namespace KeyRead

open Word

/-- The pins of `pins_desc`. -/
inductive Pin where
  | gpf0
  | gpf2
  | gpg3
  | gpg11
  deriving DecidableEq, Repr

/-- What `gpio_get_value` returns for each pin at one moment. -/
abbrev Gpio := Pin → Int

/-- `!gpio_get_value(pin)`: a key is pressed while its pin is low. -/
def pressed (gpio : Gpio) (pin : Pin) : BitVec 32 := if gpio pin = 0 then 1 else 0

/-- `struct pin_desc` -/
structure PinDesc where
  pin : Pin
  keyVal : BitVec 32
  deriving Repr

/-- The keys, with the values they have when nothing is pressed. -/
def pinsDesc : Fin 4 → PinDesc
  | 0 => ⟨.gpf0, 0x00⟩
  | 1 => ⟨.gpf2, 0x00⟩
  | 2 => ⟨.gpg3, 0x00⟩
  | 3 => ⟨.gpg11, 0x00⟩

/-- The static variables of the driver. -/
structure KeyDev where
  pinsDesc : Fin 4 → PinDesc
  evPress : Int

/-- The module is loaded, and no key was touched. -/
def KeyDev.init : KeyDev := ⟨KeyRead.pinsDesc, 0⟩

/-- `pins_desc[i].key_val = !gpio_get_value(pins_desc[i].pin)` -/
def sampleKey (gpio : Gpio) (s : KeyDev) (i : Fin 4) : KeyDev :=
  let d := s.pinsDesc i
  { s with
    pinsDesc := Function.update s.pinsDesc i { d with keyVal := pressed gpio d.pin } }

/-! ### Events -/

/-- `buttons_irq` of `key_irq_drv.c`, with the entry of `pins_desc` it is registered for. -/
def buttonsIrq (gpio : Gpio) (i : Fin 4) (s : KeyDev) : KeyDev :=
  { sampleKey gpio s i with evPress := 1 }

/-- `get_all_key_val`: all four keys are sampled. -/
def getAllKeyVal (gpio : Gpio) (s : KeyDev) : KeyDev :=
  (List.finRange 4).foldl (sampleKey gpio) s

/-- `kery_timer_function` of `key_jiffer_drv.c` -/
def keryTimerFunction (gpio : Gpio) (s : KeyDev) : KeyDev :=
  { getAllKeyVal gpio s with evPress := 1 }

/-- A key event of one of the two drivers. -/
inductive KeyEvent where
  | buttonsIrq (gpio : Gpio) (i : Fin 4)
  | keryTimer (gpio : Gpio)

/-- The handler of an event. -/
def KeyEvent.handle : KeyEvent → KeyDev → KeyDev
  | .buttonsIrq gpio i => KeyRead.buttonsIrq gpio i
  | .keryTimer gpio => keryTimerFunction gpio

/-! ### my_key_poll and my_key_read -/

/-- There is data to read. -/
def pollIn : BitVec 32 := 0x0001
/-- There is normal data to read. -/
def pollRdnorm : BitVec 32 := 0x0040

/-- `my_key_poll`, without the call of `poll_wait` -/
def myKeyPoll (s : KeyDev) : BitVec 32 := if s.evPress ≠ 0 then pollIn ||| pollRdnorm else 0

/-- The value `my_key_read` composes. -/
def composeKeyVal (s : KeyDev) : BitVec 32 :=
  (s.pinsDesc 0).keyVal ||| (s.pinsDesc 1).keyVal <<< 1 |||
    (s.pinsDesc 2).keyVal <<< 2 ||| (s.pinsDesc 3).keyVal <<< 3

/-- Where `my_key_read` is: in no call, or behind one of its statements, with the variables
    that are still to be used. -/
inductive ReadPc where
  | idle
  | composed (keyVal : BitVec 32) (count : Nat)
  | checked (keyVal : BitVec 32)
  | copied (keyVal : BitVec 32) (ret : Nat)
  | cleared
  deriving DecidableEq, Repr

/-- The driver, its reader, and the value the last successful copy left in user space. -/
structure Sys where
  dev : KeyDev
  pc : ReadPc
  delivered : BitVec 32

/-- The device and the process when the module was loaded. -/
def Sys.init : Sys := ⟨KeyDev.init, .idle, 0⟩

/-- One statement of `my_key_read`. `left` is what `copy_to_user` returns, the number of
    bytes that were not copied. -/
def readStatement (left : Nat) (s : Sys) : Sys :=
  match s.pc with
  | .idle => s
  | .composed keyVal count =>
    -- another `count` than `sizeof(key_val)` returns `-EINVAL`
    { s with pc := if count ≠ 4 then .idle else .checked keyVal }
  | .checked keyVal =>
    { s with
      pc := .copied keyVal left
      delivered := if left = 0 then keyVal else s.delivered }
  | .copied _ _ => { s with dev := { s.dev with evPress := 0 }, pc := .cleared }
  | .cleared => { s with pc := .idle }

/-- What the user does: a call of `my_key_read` up to its first statement, the next
    statement of that call, and a call of `my_key_poll`. -/
inductive UserStep where
  | read (count : Nat)
  | next (left : Nat)
  | poll
  deriving Repr

/-- A statement of `my_key_read`. -/
def userStep (s : Sys) : UserStep → Sys
  | .read count =>
    if s.pc = .idle then { s with pc := .composed (composeKeyVal s.dev) count } else s
  | .next left => readStatement left s
  | .poll => s

/-- The steps of the driver and of the process. -/
inductive Step where
  | event (e : KeyEvent)
  | user (u : UserStep)

/-- One step of either. -/
def step (s : Sys) : Step → Sys
  | .event e => { s with dev := e.handle s.dev }
  | .user u => userStep s u

/-- The steps one after the other. -/
def run (s : Sys) (steps : List Step) : Sys := steps.foldl step s

end KeyRead
