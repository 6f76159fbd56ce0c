import DriverLearn.Native.KeyRead

/-!
# Key device: the signal

Model of the way of a key to the screen in `test_key_signal.c`, over `key_irq_drv.c` or
`key_jiffer_drv.c`: an edge latches the interrupt of the pin, the driver samples the keys,
`kill_fasync` makes `SIGIO` pending, and `signal_fun` reads the device and prints what it has
read. All of it goes statement by statement, and the keys are sampled one by one.

A run begins where `open` has returned, which `request_irq` of the four lines may or may not
have granted. Nobody sleeps on `my_key_waitq` here, so that the wake-up does nothing.
-/

namespace KeySignal

open KeyRead

/-- The two drivers with a handler that sends a signal. -/
inductive Driver where
  | keyIrq
  | keyJiffer
  deriving DecidableEq, Repr

/-- Where the handler that samples the keys is: in none, with keys still to be sampled, behind
    `ev_press = 1`, or behind the wake-up. -/
inductive HandlerPc where
  | idle
  | sampling (keys : List (Fin 4))
  | pressed
  | woken
  deriving DecidableEq, Repr

/-- Where the program is: in `main` behind `open`, behind `F_SETOWN` or in its loop, or in
    `signal_fun`, in front of `read`, in it or in front of `printf`. -/
inductive ProgPc where
  | opened
  | owned
  | looping
  | entered
  | reading
  | printing
  deriving DecidableEq, Repr

/-- The pins with their latched interrupts, `key_timer`, the driver, and the program: its
    `key_val` is what the last copy has delivered, and `shown` what it has printed last. -/
structure Sys where
  granted : Fin 4 → Bool
  gpio : Gpio
  latched : Fin 4 → Bool
  timer : Bool
  handler : HandlerPc
  key : KeyRead.Sys
  owner : Bool
  async : Bool
  pending : Bool
  prog : ProgPc
  shown : Option (BitVec 32)

/-- What `open` finds: the lines it is granted, the levels of the pins, the keys that are held
    down as the driver knows, its `ev_press`, and whether `key_timer` is pending. -/
structure Opening where
  granted : Fin 4 → Bool
  gpio : Gpio
  held : Fin 4 → Bool
  evPress : Int
  timer : Bool

/-- The static variables of the driver when the device is opened. -/
def Opening.dev (u : Opening) : KeyDev where
  pinsDesc i := ⟨(pinsDesc i).pin, if u.held i then 1 else 0⟩
  evPress := u.evPress

/-- `open` has returned. -/
def Sys.opened (d : Driver) (u : Opening) : Sys where
  granted := u.granted
  gpio := u.gpio
  latched := fun _ => false
  timer := match d with
    | .keyIrq => false
    | .keyJiffer => u.timer
  handler := .idle
  key := ⟨u.dev, .idle, 0⟩
  owner := false
  async := false
  pending := false
  prog := .opened
  shown := none

/-! ### The drivers -/

/-- `buttons_irq` up to its first statement, in `key_irq_drv.c`; all of it, which is
    `mod_timer`, in `key_jiffer_drv.c`. -/
def buttonsIrq (d : Driver) (i : Fin 4) (s : Sys) : Sys :=
  match d with
  | .keyIrq => { s with handler := .sampling [i] }
  | .keyJiffer => { s with timer := true }

/-- `kery_timer_function` up to its first statement. -/
def keryTimerFunction (s : Sys) : Sys :=
  { s with timer := false, handler := .sampling (List.finRange 4) }

/-- `kill_fasync(&my_key_async_q, SIGIO, POLL_IN)`. A signal that is pending already does not
    become pending twice. -/
def killFasync (s : Sys) : Sys :=
  if s.async ∧ s.owner then { s with pending := true } else s

/-- The next statement of a handler. -/
def handlerStatement (s : Sys) : Sys :=
  match s.handler with
  | .idle => s
  | .sampling (i :: keys) =>
    { s with key := { s.key with dev := sampleKey s.gpio s.key.dev i }, handler := .sampling keys }
  | .sampling [] =>
    { s with key := { s.key with dev := { s.key.dev with evPress := 1 } }, handler := .pressed }
  | .pressed => { s with handler := .woken }
  | .woken => killFasync { s with handler := .idle }

/-- `my_key_fasync`, which enters the file into `my_key_async_q` or takes it out. -/
def myKeyFasync (on : Bool) (s : Sys) : Sys := { s with async := on }

/-! ### The program -/

/-- The next statement of `signal_fun`, or of `main` behind `open`. -/
def progStatement (s : Sys) : Sys :=
  match s.prog with
  | .opened => { s with owner := true, prog := .owned }
  | .owned => { myKeyFasync true s with prog := .looping }
  | .looping => s
  | .entered => { s with key := userStep s.key (.read 4), prog := .reading }
  | .reading =>
    -- the copy goes to a variable of the program and does not fail
    let key := readStatement 0 s.key
    { s with key := key, prog := if key.pc = .idle then .printing else .reading }
  | .printing => { s with shown := some s.key.delivered, prog := .looping }

/-! ### Runs -/

/-- What happens: a pin changes to a level, a latched interrupt or the timer gets its handler,
    the handler goes on, the signal is delivered, the program goes on, or a read of somebody
    else clears `ev_press`. -/
inductive Step where
  | edge (i : Fin 4) (level : Int)
  | irq (i : Fin 4)
  | expire
  | handler
  | deliver
  | prog
  | clear
  deriving DecidableEq, Repr

/-- One step of the pins, the interrupts, the timer or the program. -/
def step (d : Driver) (s : Sys) : Step → Sys
  | .edge i level =>
    let pin := (pinsDesc i).pin
    { s with
      gpio := Function.update s.gpio pin level
      latched := if (s.gpio pin = 0 ↔ level = 0) ∨ ¬ s.granted i then s.latched
        else Function.update s.latched i true }
  -- an interrupt can come in the timer's callback, but not in another interrupt
  | .irq i =>
    if s.latched i ∧ (d = .keyIrq → s.handler = .idle) then
      buttonsIrq d i { s with latched := Function.update s.latched i false }
    else s
  | .expire => if s.timer ∧ s.handler = .idle then keryTimerFunction s else s
  | .handler => handlerStatement s
  -- the signal is blocked as long as `signal_fun` runs
  | .deliver => if s.pending ∧ s.prog = .looping then { s with pending := false, prog := .entered }
    else s
  | .prog => progStatement s
  | .clear => { s with key := { s.key with dev := { s.key.dev with evPress := 0 } } }

/-- A run from the return of `open` on. -/
def run (d : Driver) (u : Opening) (steps : List Step) : Sys :=
  steps.foldl (step d) (Sys.opened d u)

end KeySignal
