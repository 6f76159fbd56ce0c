import DriverLearn.Native.KeyRead

/-!
# Input key driver: edges and timer callbacks

Model of `key_irq_handler` and `kery_timer_function` of `key_input_drv.c`. The four keys
share the pointer `irq_pd` and the timer. The delay of the timer is left out: `mod_timer`
makes it pending, and a callback runs at some time while it is. The log records what is
reported to the input core.
-/

namespace KeyInput

open KeyRead (Pin)

/-- The key codes that the driver reports. -/
inductive KeyCode where
  | keyL
  | keyS
  | keyEnter
  | keyLeftshift
  deriving DecidableEq, Repr

/-- `struct pin_desc`, without what only `request_irq` is given. -/
structure PinDesc where
  pin : Pin
  keyVal : KeyCode
  deriving Repr

/-- The keys with their pins. -/
def pinsDesc : Fin 4 → PinDesc
  | 0 => ⟨.gpf0, .keyL⟩
  | 1 => ⟨.gpf2, .keyS⟩
  | 2 => ⟨.gpg3, .keyEnter⟩
  | 3 => ⟨.gpg11, .keyLeftshift⟩

/-- Calls of `input_report_key` and `input_sync`. -/
inductive InputEvent where
  | reportKey (code : KeyCode) (value : Bool)
  | sync
  deriving DecidableEq, Repr

/-- The static variables, with `irq_pd` as an index into `pins_desc` and `none` for NULL,
    whether `key_timer` is pending, the levels of the pins, and the log. -/
structure Sys where
  irqPd : Option (Fin 4)
  timerPending : Bool
  gpio : Pin → Bool
  log : List InputEvent

/-- The state `my_key_init` leaves: the timer was added. -/
def Sys.init (gpio : Pin → Bool) : Sys where
  irqPd := none
  timerPending := true
  gpio := gpio
  log := []

/-- The handler is given the entry of `pins_desc` its line was requested with. -/
def keyIrqHandler (devId : Fin 4) (s : Sys) : Sys :=
  { s with irqPd := some devId, timerPending := true }

/-- `kery_timer_function` -/
def keryTimerFunction (s : Sys) : Sys :=
  match s.irqPd with
  | none => s
  | some i =>
    let pindesc := pinsDesc i
    let pinval := !s.gpio pindesc.pin
    { s with log := s.log ++ [.reportKey pindesc.keyVal pinval, .sync] }

/-- An edge of a key, with its interrupt, and an expiry of the timer. -/
inductive Act where
  | edge (key : Fin 4)
  | callback
  deriving DecidableEq, Repr

/-- An edge, or the callback of the timer. -/
def step (s : Sys) : Act → Sys
  | .edge i =>
    let pin := (pinsDesc i).pin
    keyIrqHandler i { s with gpio := Function.update s.gpio pin (!s.gpio pin) }
  | .callback => keryTimerFunction { s with timerPending := false }

/-- The acts one after the other, with the pins at the given levels first. -/
def run (gpio : Pin → Bool) (acts : List Act) : Sys := acts.foldl step (Sys.init gpio)

end KeyInput
