import DriverLearn.Native.KeyRead

/-!
# Key device: waiting for a key

Model of `my_key_poll` with its wait queue, as `poll` calls it. A key event goes statement by
statement: the keys are sampled, `ev_press` is set, and the processes on `my_key_waitq` are
woken. A process in `poll` asks the driver, sleeps if there is nothing to read, and asks again
when it was woken. `my_key_poll` of `req_drv.c` does not put the process on the queue: there
the call of `poll_wait` is commented out.

The signal to `my_key_async_q` is left out.
-/

namespace KeyPoll

open KeyRead

/-- The drivers that have `my_key_poll`. -/
inductive Driver where
  | keyIrq
  | keyJiffer
  | req
  deriving DecidableEq, Repr

/-- Whether `my_key_poll` calls `poll_wait`. -/
def Driver.pollWaits : Driver → Bool
  | .keyIrq => true
  | .keyJiffer => true
  | .req => false

/-- Where a process is in `poll`: outside, in front of `my_key_poll` with a fresh poll table,
    in `my_key_poll` behind `poll_wait`, behind `my_key_poll` with its mask, or asleep. -/
inductive Pc where
  | out
  | entered
  | registered
  | scanned (mask : BitVec 32)
  | asleep
  deriving DecidableEq, Repr

/-- A process. `triggered` is set by a wake-up and cleared before the driver is asked again,
    `timedOut` is set when the timeout of the call has passed, and `result` is what the last
    call returned. -/
structure Proc where
  pc : Pc
  triggered : Bool
  timedOut : Bool
  result : BitVec 32
  deriving DecidableEq, Repr

/-- Where the handler of an event is: in none, behind the sampling of the keys, or behind
    `ev_press = 1`. -/
inductive HandlerPc where
  | idle
  | sampled
  | pressed
  deriving DecidableEq, Repr

structure Sys where
  dev : KeyDev
  handler : HandlerPc
  waitq : List Nat
  procs : Nat → Proc

def Sys.init : Sys := ⟨KeyDev.init, .idle, [], fun _ => ⟨.out, false, false, 0⟩⟩

/-- The first statement of `buttons_irq`, or of `kery_timer_function`. -/
def sampleEvent : KeyEvent → KeyDev → KeyDev
  | .buttonsIrq gpio i, s => sampleKey gpio s i
  | .keryTimer gpio, s => getAllKeyVal gpio s

/-- `wake_up_interruptible(&my_key_waitq)` -/
def wakeUp (s : Sys) : Sys :=
  { s with
    procs := fun pid =>
      if pid ∈ s.waitq then { s.procs pid with triggered := true } else s.procs pid }

/-- The next statement of a handler. -/
def handlerStatement (s : Sys) : Sys :=
  match s.handler with
  | .idle => s
  | .sampled => { s with dev := { s.dev with evPress := 1 }, handler := .pressed }
  | .pressed => { wakeUp s with handler := .idle }

def Sys.setProc (s : Sys) (pid : Nat) (p : Proc) : Sys :=
  { s with procs := Function.update s.procs pid p }

/-- The next statement of a process in `poll`. The poll table goes to `my_key_poll` in the
    first scan only. -/
def pollStatement (d : Driver) (pid : Nat) (s : Sys) : Sys :=
  let p := s.procs pid
  match p.pc with
  | .out => s
  | .entered =>
    { s.setProc pid { p with pc := .registered } with
      waitq := if d.pollWaits then pid :: s.waitq else s.waitq }
  | .registered => s.setProc pid { p with pc := .scanned (myKeyPoll s.dev) }
  | .scanned mask =>
    if mask ≠ 0 ∨ p.timedOut then
      { s.setProc pid { p with pc := .out, result := mask } with
        waitq := s.waitq.filter (· ≠ pid) }
    else if p.triggered then
      s.setProc pid { p with pc := .registered, triggered := false }
    else
      s.setProc pid { p with pc := .asleep }
  | .asleep =>
    if p.triggered then s.setProc pid { p with pc := .registered, triggered := false } else s

/-- What happens: an event starts its handler, the handler goes on, a process calls `poll` or
    goes on in it, the timeout of one that is asleep passes, or `my_key_read` clears
    `ev_press`. -/
inductive Step where
  | event (e : KeyEvent)
  | handler
  | call (pid : Nat)
  | next (pid : Nat)
  | timeout (pid : Nat)
  | clear

def step (d : Driver) (s : Sys) : Step → Sys
  | .event e =>
    if s.handler = .idle then { s with dev := sampleEvent e s.dev, handler := .sampled } else s
  | .handler => handlerStatement s
  | .call pid =>
    let p := s.procs pid
    if p.pc = .out then
      s.setProc pid { p with pc := .entered, triggered := false, timedOut := false }
    else s
  | .next pid => pollStatement d pid s
  | .timeout pid =>
    let p := s.procs pid
    if p.pc = .asleep then
      s.setProc pid { p with pc := .registered, triggered := false, timedOut := true }
    else s
  | .clear => { s with dev := { s.dev with evPress := 0 } }

def run (d : Driver) (s : Sys) (steps : List Step) : Sys := steps.foldl (step d) s

end KeyPoll
