import DriverLearn.ForStd.Loop
import DriverLearn.Native.I2cS3c2440

/-!
# I2C controller: waiting for the idle bus

Model of `s3c24xx_i2c_wait_idle` (`i2c/bus_drv/i2c-s3c2440.c`). The bus and the clock are
given: what IICSTAT reads at each moment, and how long everything takes, in microseconds from
the first `ktime_get`. The readings and the sleeps are written down.
-/

namespace S3c24xx

open Loop Word

/-- `#define S3C2410_IDLE_TIMEOUT 5000` -/
def s3c2410IdleTimeout : Nat := 5000

/-- The bus at each moment, the time in front of a reading with `n` spins left, the time that
    the `k`-th `usleep_range(d, 2 * d)` takes, and the time from the `ktime_get` behind it to
    the reading. -/
structure IdleEnv where
  iicstat : Nat → Reg
  relax : Nat → Nat
  sleep : (k d : Nat) → Nat
  lag : Nat → Nat

/-- The time, the variables of the function but `spins` and `start`, which is 0, the times of
    the readings so far, and the delays asked for. -/
structure Wait where
  clock : Nat
  now : Nat
  iicstat : Reg
  delay : Nat
  readings : List Nat
  sleeps : List Nat

/-- `iicstat & S3C2410_IICSTAT_START` -/
def Wait.busy (w : Wait) : Bool := has w.iicstat iicstatStart

variable (env : IdleEnv)

/-- `iicstat = readl(i2c->regs + S3C2410_IICSTAT)`, after some time. -/
def Wait.read (after : Nat) (w : Wait) : Wait :=
  { w with
    clock := w.clock + after
    iicstat := env.iicstat (w.clock + after)
    readings := w.readings ++ [w.clock + after] }

/-- The loop that spins. -/
def Wait.spin : (spins : Nat) → Wait → Wait
  | 0, w => w
  | spins + 1, w =>
    -- `--spins` is what is left
    if w.busy ∧ spins ≠ 0 then Wait.spin spins (w.read env (env.relax spins)) else w

def nextDelay (delay : Nat) : Nat :=
  if delay < s3c2410IdleTimeout / 10 then delay <<< 1 else delay

/-- The body of the loop that sleeps. -/
def Wait.sleepOnce (w : Wait) : Wait :=
  let now := w.clock + env.sleep w.sleeps.length w.delay
  Wait.read env (env.lag w.sleeps.length)
    { w with
      clock := now
      now := now
      delay := nextDelay w.delay
      sleeps := w.sleeps ++ [w.delay] }

/-- The loop that sleeps; its result says whether the warning is printed. -/
def idleTurn (w : Wait) : Wait ⊕ (Wait × Bool) :=
  if w.busy ∧ w.now < s3c2410IdleTimeout then .inl (w.sleepOnce env) else .inr (w, w.busy)

def s3c24xxI2cWaitIdle (fuel : Nat) : Option (Wait × Bool) :=
  let w : Wait :=
    { clock := 0, now := 0, iicstat := 0, delay := 1, readings := [], sleeps := [] }
  iterate (idleTurn env) fuel ((w.read env (env.relax 3)).spin env 3)

end S3c24xx
