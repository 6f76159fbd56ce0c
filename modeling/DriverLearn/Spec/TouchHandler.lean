import DriverLearn.Native.TouchScreen

/-!
# One run of a touch handler

What `adc_irq` and the part that the pen interrupt and the timer callback share leave behind,
for each of their branches.

## Key results

- `checkPen_up` / `checkPen_down`: the pen interrupt and the timer callback
- `adc_discarded` / `adc_stored` / `adc_averaged`: one run of `adc_irq`
-/

namespace TouchScreen

open Word

variable {s : Ts} {d0 d1 : BitVec 32}

/-- The test of `adc_irq` for a released pen. -/
def discards (d0 d1 : BitVec 32) : Bool := has d0 (cLt 1 15) && has d1 (1 <<< 15)

/-- `TS_IS_UP` reads bit 15 of both registers. -/
theorem tsIsUp_eq (d0 d1 : BitVec 32) : tsIsUp d0 d1 = (d0.getLsbD 15 && d1.getLsbD 15) := by
  rw [tsIsUp, show (1 <<< 15 : BitVec 32) = BitVec.twoPow 32 15 from rfl,
    has_twoPow _ (by decide), has_twoPow _ (by decide)]

/-- The pen-up test of `adc_irq` reads bit 0 of the first one. -/
theorem discards_eq (d0 d1 : BitVec 32) :
    discards d0 d1 = (d0.getLsbD 0 && d1.getLsbD 15) := by
  rw [discards, show cLt 1 15 = BitVec.twoPow 32 0 from rfl,
    show (1 <<< 15 : BitVec 32) = BitVec.twoPow 32 15 from rfl,
    has_twoPow _ (by decide), has_twoPow _ (by decide)]

/-- The pen interrupt and the timer callback find the pen up. -/
theorem checkPen_up (h : tsIsUp d0 d1 = true) (s : Ts) :
    checkPen d0 d1 s = { s with adctsc := 0xd3, log := s.log ++ penUpReport } := by
  rw [checkPen, if_pos h]
  rfl

/-- While the pen is down the next conversion is started. -/
theorem checkPen_down (h : tsIsUp d0 d1 = false) (s : Ts) :
    checkPen d0 d1 s = { s with adctsc := 1 <<< 2, adccon := s.adccon ||| 1 } := by
  rw [checkPen, h, if_neg (by decide)]
  rfl

/-- A conversion that is discarded reports the pen up. -/
theorem adc_discarded (h : discards d0 d1 = true) (s : Ts) :
    adcIrq d0 d1 s =
      { s with adctsc := 0x1d3, cnt := 0, log := s.log ++ penUpReport } := by
  rw [adcIrq, ← discards, if_pos h]
  rfl

/-- The event of a stored sample. -/
def sampled (d0 d1 : BitVec 32) (s : Ts) : Event :=
  .sample s.cnt (d0 &&& 0x3ff).toNat (d1 &&& 0x3ff).toNat

/-- The state with the sample stored. -/
def store (d0 d1 : BitVec 32) (s : Ts) : Ts :=
  { s with
    x := Function.update s.x s.cnt (d0 &&& 0x3ff).toNat
    y := Function.update s.y s.cnt (d1 &&& 0x3ff).toNat
    cnt := s.cnt + 1
    log := s.log ++ [sampled d0 d1 s] }

/-- What is reported behind the fourth sample. -/
def average (s : Ts) : List Event :=
  [.reportAbs .absX ((s.x 0 + s.x 1 + s.x 2 + s.x 3) / 4),
    .reportAbs .absY ((s.y 0 + s.y 1 + s.y 2 + s.y 3) / 4),
    .reportAbs .absPressure 1, .reportTouch 1, .sync]

/-- One of the first three conversions is stored, and the next one is started. -/
theorem adc_stored (h : discards d0 d1 = false) (hcnt : s.cnt + 1 ≠ 4) :
    adcIrq d0 d1 s =
      { store d0 d1 s with adctsc := 1 <<< 2, adccon := s.adccon ||| 1 } := by
  rw [adcIrq, ← discards, h, if_neg (by decide)]
  exact if_pos hcnt

/-- The fourth conversion is stored, and the average is reported if the samples are close. -/
theorem adc_averaged (h : discards d0 d1 = false) (hcnt : s.cnt + 1 = 4) :
    adcIrq d0 d1 s =
      { store d0 d1 s with
        adctsc := 0x1d3
        timerPending := true
        cnt := 0
        log := s.log ++ sampled d0 d1 s :: average (store d0 d1 s) } := by
  rw [adcIrq, ← discards, h, if_neg (by decide), List.append_cons]
  exact if_neg (not_not.mpr hcnt)

end TouchScreen
