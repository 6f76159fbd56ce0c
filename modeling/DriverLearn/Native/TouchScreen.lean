import DriverLearn.ForStd.Word

/-!
# Touch screen driver

Model of the three handlers of `ts_drv.c`: the pen interrupt, the ADC interrupt and the
timer callback. Each run of a handler sees one content of `ADCDAT0` and `ADCDAT1`. The
static variables of `adc_irq`, the two controller registers the handlers write and
whether `ts_timer` is pending make up the state; the log records the samples stored and
the events reported to the input core.
-/

namespace TouchScreen

open Word

/-- The axes of the input device. -/
inductive AbsCode where
  | absX
  | absY
  | absPressure
  deriving DecidableEq, Repr

/-- What the handlers do: store a sample in the slot `cnt` of `x[]` and `y[]`, report
    `ABS_*` and `BTN_TOUCH` events, and `input_sync`. -/
inductive Event where
  | sample (slot x y : Nat)
  | reportAbs (code : AbsCode) (value : Nat)
  | reportTouch (value : Nat)
  | sync
  deriving DecidableEq, Repr

/-- The variables of `ts_drv.c`, its registers, and what was reported. -/
structure Ts where
  adccon : BitVec 32
  adctsc : BitVec 32
  cnt : Nat
  x : Nat → Nat
  y : Nat → Nat
  timerPending : Bool
  log : List Event

/-- The state `my_ts_init` leaves: ADC clock divider set, waiting for pen down, and
    `ts_timer` added. -/
def Ts.init : Ts where
  adccon := 1 <<< 14 ||| 49 <<< 6
  adctsc := 0xd3
  cnt := 0
  x := fun _ => 0
  y := fun _ => 0
  timerPending := true
  log := []

/-- The minimum and the maximum that `my_ts_init` registers, with `input_set_abs_params`. -/
def absParams : AbsCode → Nat × Nat
  | .absX => (0, 0x3ff)
  | .absY => (0, 0x3ff)
  | .absPressure => (0, 1)

/-- Events are reported. -/
def emit (s : Ts) (es : List Event) : Ts := { s with log := s.log ++ es }

/-- `#define TS_IS_UP(reg)` -/
def tsIsUp (adcdat0 adcdat1 : BitVec 32) : Bool :=
  has adcdat0 (1 <<< 15) && has adcdat1 (1 <<< 15)

/-- `enter_wait_pen_down_mode` -/
def enterWaitPenDownMode (s : Ts) : Ts := { s with adctsc := 0xd3 }

/-- `enter_wait_pen_up_mode` -/
def enterWaitPenUpMode (s : Ts) : Ts := { s with adctsc := 0x1d3 }

/-- `enter_measure_xy_mode` -/
def enterMeasureXyMode (s : Ts) : Ts := { s with adctsc := 1 <<< 2 }

/-- `start_adc` -/
def startAdc (s : Ts) : Ts := { s with adccon := s.adccon ||| 1 }

/-- The three reports every handler makes when it finds the pen up. -/
def penUpReport : List Event := [.reportAbs .absPressure 0, .reportTouch 0, .sync]

/-- The common body of the pen interrupt and the timer callback. -/
def checkPen (adcdat0 adcdat1 : BitVec 32) (s : Ts) : Ts :=
  if tsIsUp adcdat0 adcdat1 then
    enterWaitPenDownMode (emit s penUpReport)
  else
    startAdc (enterMeasureXyMode s)

/-- `pen_down_up_irq` -/
def penDownUpIrqHandler (adcdat0 adcdat1 : BitVec 32) (s : Ts) : Ts :=
  checkPen adcdat0 adcdat1 s

/-- The callback runs on expiry, when the timer is no longer pending. -/
def s3cTsTimerFunction (adcdat0 adcdat1 : BitVec 32) (s : Ts) : Ts :=
  checkPen adcdat0 adcdat1 { s with timerPending := false }

/-- The C value of `a < b`. -/
def cLt (a b : Nat) : BitVec 32 := if a < b then 1 else 0

/-- `adc_irq` -/
def adcIrq (adcdat0 adcdat1 : BitVec 32) (s : Ts) : Ts :=
  -- the source tests `adcdat0 & (1<15)`
  if has adcdat0 (cLt 1 15) && has adcdat1 (1 <<< 15) then
    enterWaitPenUpMode { emit s penUpReport with cnt := 0 }
  else
    let x := (adcdat0 &&& 0x3ff).toNat
    let y := (adcdat1 &&& 0x3ff).toNat
    let s := emit s [.sample s.cnt x y]
    let s := { s with
      x := Function.update s.x s.cnt x
      y := Function.update s.y s.cnt y
      cnt := s.cnt + 1 }
    if s.cnt ≠ 4 then
      startAdc (enterMeasureXyMode s)
    else
      let s := emit s
        [.reportAbs .absX ((s.x 0 + s.x 1 + s.x 2 + s.x 3) / 4),
          .reportAbs .absY ((s.y 0 + s.y 1 + s.y 2 + s.y 3) / 4),
          .reportAbs .absPressure 1, .reportTouch 1, .sync]
      enterWaitPenUpMode { s with timerPending := true, cnt := 0 }

/-! ### Runs -/

/-- One run of a handler, with the contents of `ADCDAT0` and `ADCDAT1` it sees. -/
inductive Irq where
  | pen (adcdat0 adcdat1 : BitVec 32)
  | adc (adcdat0 adcdat1 : BitVec 32)
  | timer (adcdat0 adcdat1 : BitVec 32)
  deriving Repr

/-- The handlers of the two interrupts and of the timer. -/
def handle (s : Ts) : Irq → Ts
  | .pen d0 d1 => penDownUpIrqHandler d0 d1 s
  | .adc d0 d1 => adcIrq d0 d1 s
  | .timer d0 d1 => s3cTsTimerFunction d0 d1 s

/-- The interrupts one after the other. -/
def run (s : Ts) (irqs : List Irq) : Ts := irqs.foldl handle s

end TouchScreen
