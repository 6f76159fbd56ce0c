import DriverLearn.Native.KeyRead

/-!
# Debounced key driver: edges and the timer

Model of `buttons_irq` and the timer of `key_jiffer_drv.c`. Every edge of the four keys
arms `key_timer` anew, and its callback samples all of them. Time is counted in jiffies
since the start and does not wrap.
-/

namespace KeyJiffer

open KeyRead (Gpio UserStep)

/-- The driver with its reader, the time, the pins and the expiry of `key_timer`, `none`
    while it is not pending. -/
structure TimedSys where
  now : Nat
  gpio : Gpio
  expires : Option Nat
  sys : KeyRead.Sys

/-- The state `my_key_init` leaves: `key_timer` was added with `expires` 0. -/
def TimedSys.init (gpio : Gpio) : TimedSys where
  now := 0
  gpio := gpio
  expires := some 0
  sys := KeyRead.Sys.init

/-- `mod_timer(&key_timer, expires)` -/
def modTimer (expires : Nat) (s : TimedSys) : TimedSys := { s with expires := some expires }

/-- `hz` is the constant `HZ`. -/
def buttonsIrq (hz : Nat) (s : TimedSys) : TimedSys := modTimer (s.now + hz / 100 + 1) s

/-- A change of a key to a level, with its interrupt, an expiry of the timer, and what the
    user does. -/
inductive Act where
  | edge (key : Fin 4) (level : Int)
  | callback
  | user (u : UserStep)
  deriving Repr

/-- An act at a time. -/
def step (hz : Nat) (s : TimedSys) (e : Nat × Act) : TimedSys :=
  let s := { s with now := e.1 }
  match e.2 with
  | .edge i level =>
    let gpio := Function.update s.gpio (KeyRead.pinsDesc i).pin level
    buttonsIrq hz { s with gpio := gpio }
  | .callback =>
    { s with
      expires := none
      sys := KeyRead.step s.sys (.event (.keryTimer s.gpio)) }
  | .user u => { s with sys := KeyRead.step s.sys (.user u) }

/-- Time does not go back, and a callback runs at or after the expiry of a pending timer. -/
def Possible (s : TimedSys) (e : Nat × Act) : Prop :=
  s.now ≤ e.1 ∧
    match e.2 with
    | .callback => ∃ expires ∈ s.expires, expires ≤ e.1
    | _ => True

def run (hz : Nat) (gpio : Gpio) (acts : List (Nat × Act)) : TimedSys :=
  acts.foldl (step hz) (TimedSys.init gpio)

end KeyJiffer
