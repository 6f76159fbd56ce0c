import DriverLearn.ForStd.Run
import DriverLearn.Spec.TouchHandler

/-!
# Pen up and the modes of the touch controller

The pen interrupt and the timer callback find the pen up by bit 15 of both data registers.
`adc_irq` is meant to do the same, but tests bit 0 of `ADCDAT0` for bit 15, and waits for
pen up behind a pen-up report, where the other two wait for pen down. So it decides as they
do exactly if the two bits agree, and arms the controller for what it reported exactly if
it does not discard its conversion.

## Key results

- `decides_iff`: when every handler run decides by `TS_IS_UP`
- `armed_iff`: when every handler run arms the controller for what it reported
-/

namespace TouchScreen

open Word

variable {s : Ts} {d0 d1 : BitVec 32} {e : Irq} {es : List Event}

/-- The events a handler run adds. -/
def newEvents (s : Ts) (e : Irq) : List Event := (handle s e).log.drop s.log.length

/-- What a handler adds to the log. -/
theorem newEvents_eq (h : (handle s e).log = s.log ++ es) : newEvents s e = es := by
  rw [newEvents, h, List.drop_left]

/-! ### Pen up -/

/-- The law for one handler run: pen-up is reported, and nothing else done, just if
    `TS_IS_UP` holds, and a conversion is stored just if it does not. -/
def Decides (s : Ts) : Irq → Prop
  | .adc d0 d1 =>
    (newEvents s (.adc d0 d1) = penUpReport ↔ tsIsUp d0 d1 = true) ∧
      (sampled d0 d1 s ∈ newEvents s (.adc d0 d1) ↔ tsIsUp d0 d1 = false)
  | .pen d0 d1 => newEvents s (.pen d0 d1) = penUpReport ↔ tsIsUp d0 d1 = true
  | .timer d0 d1 => newEvents s (.timer d0 d1) = penUpReport ↔ tsIsUp d0 d1 = true

/-- The bit tested in `ADCDAT0` says what bit 15 says, unless `ADCDAT1` says pen down. -/
def Irq.BitsAgree : Irq → Prop
  | .adc d0 d1 => d1.getLsbD 15 = true → d0.getLsbD 0 = d0.getLsbD 15
  | _ => True

/-- Pen up is reported by the pen interrupt and the timer callback as they find it. -/
theorem newEvents_pen (s : Ts) (d0 d1 : BitVec 32) :
    newEvents s (.pen d0 d1) = if tsIsUp d0 d1 then penUpReport else [] := by
  cases hup : tsIsUp d0 d1 with
  | true => exact newEvents_eq (by rw [handle, penDownUpIrqHandler, checkPen_up hup]; rfl)
  | false =>
    apply newEvents_eq
    rw [handle, penDownUpIrqHandler, checkPen_down hup]
    exact (List.append_nil _).symm

/-- The timer reports the pen up, if it is. -/
theorem newEvents_timer (s : Ts) (d0 d1 : BitVec 32) :
    newEvents s (.timer d0 d1) = if tsIsUp d0 d1 then penUpReport else [] :=
  newEvents_pen { s with timerPending := false } d0 d1

/-- A conversion reports the pen up or brings a sample, and with the fourth one the average. -/
theorem newEvents_adc (s : Ts) (d0 d1 : BitVec 32) :
    newEvents s (.adc d0 d1) =
      if discards d0 d1 then penUpReport
      else sampled d0 d1 s :: if s.cnt + 1 = 4 then average (store d0 d1 s) else [] := by
  cases hup : discards d0 d1 with
  | true => exact newEvents_eq (by rw [handle, adc_discarded hup]; rfl)
  | false =>
    by_cases hcnt : s.cnt + 1 = 4
    · rw [if_pos hcnt]
      exact newEvents_eq (by rw [handle, adc_averaged hup hcnt]; rfl)
    · rw [if_neg hcnt]
      exact newEvents_eq (by rw [handle, adc_stored hup hcnt]; rfl)

/-- A conversion reports the pen up just if it is discarded. -/
theorem adc_penUpReport_iff (s : Ts) (d0 d1 : BitVec 32) :
    newEvents s (.adc d0 d1) = penUpReport ↔ discards d0 d1 = true := by
  rw [newEvents_adc]
  cases discards d0 d1 with
  | true => simp
  | false => simp [sampled, penUpReport]

/-- A conversion is stored just if it is not discarded. -/
theorem adc_sampled_iff (s : Ts) (d0 d1 : BitVec 32) :
    sampled d0 d1 s ∈ newEvents s (.adc d0 d1) ↔ discards d0 d1 = false := by
  rw [newEvents_adc]
  cases discards d0 d1 with
  | true => simp [sampled, penUpReport]
  | false => simp

/-- The decision is right just if bit 0 of ADCDAT0 agrees with what `TS_IS_UP` tells. -/
theorem decides_iff_bitsAgree (s : Ts) (e : Irq) : Decides s e ↔ e.BitsAgree := by
  have hcheck : ∀ up : Bool, (if up then penUpReport else []) = penUpReport ↔ up = true := by
    decide
  cases e with
  | pen d0 d1 => simp only [Decides, newEvents_pen, hcheck, Irq.BitsAgree]
  | timer d0 d1 => simp only [Decides, newEvents_timer, hcheck, Irq.BitsAgree]
  | adc d0 d1 =>
    rw [Decides, adc_penUpReport_iff, adc_sampled_iff, discards_eq, tsIsUp_eq, Irq.BitsAgree]
    cases d0.getLsbD 0 <;> cases d0.getLsbD 15 <;> cases d1.getLsbD 15 <;> decide

/-- For every order of the three handlers and any register contents: all runs decide by
    `TS_IS_UP` iff the bits agree at each run of `adc_irq`. -/
theorem decides_iff (irqs : List Irq) :
    Run.Guarded handle Decides Ts.init irqs ↔ ∀ e ∈ irqs, e.BitsAgree :=
  Run.guarded_iff_forall decides_iff_bitsAgree

/-- A conversion ends with the pen up and bit 0 of `ADCDAT0` clear, and is stored. -/
theorem decides_fails_even : ¬ ∀ irqs, Run.Guarded handle Decides Ts.init irqs := by
  intro h
  have hbits := (Run.guarded_iff_forall decides_iff_bitsAgree).mp
    (h [.pen 0 0, .adc 0x8000 0x8000])
  exact absurd (hbits (.adc 0x8000 0x8000) (by simp) (by decide)) (by decide)

/-! ### Modes -/

/-- The event is a sample. -/
def Event.isSample : Event → Bool
  | .sample _ _ _ => true
  | _ => false

/-- The law for one handler run. Whether it starts a conversion shows in `ADCCON` whatever
    the register held before, for the controller clears the bit. -/
structure Armed (s : Ts) (e : Irq) : Prop where
  up : .reportTouch 0 ∈ newEvents s e → (handle s e).adctsc = 0xd3
  down : .reportTouch 1 ∈ newEvents s e →
    (handle s e).adctsc = 0x1d3 ∧ (handle s e).timerPending = true
  quiet : (∀ ev ∈ newEvents s e, ev.isSample = true) →
    (handle s e).adctsc = 1 <<< 2 ∧ ∀ adccon, has (handle { s with adccon } e).adccon 1 = true

/-- The run does not discard a conversion. -/
def Irq.Kept : Irq → Prop
  | .adc d0 d1 => ¬ (d0.getLsbD 0 = true ∧ d1.getLsbD 15 = true)
  | _ => True

/-- The controller waits for pen down, or for pen up with the timer running, or a conversion
    has been started. -/
def Awaits (s : Ts) : Prop :=
  s.adctsc = 0xd3 ∨ s.adctsc = 0x1d3 ∧ s.timerPending = true ∨
    s.adctsc = 1 <<< 2 ∧ has s.adccon 1 = true

/-- Bit 0 of ADCCON starts a conversion. -/
theorem has_start (x : BitVec 32) : has (x ||| 1) 1 = true := has_set_self x (by decide)

/-- The pen interrupt arms what comes next in either case. -/
theorem pen_armed (s : Ts) (d0 d1 : BitVec 32) : Armed s (.pen d0 d1) := by
  have hnew := newEvents_pen s d0 d1
  cases hup : tsIsUp d0 d1 with
  | true =>
    rw [hup, if_pos rfl] at hnew
    refine ⟨fun _ => ?_, fun hdown => ?_, fun hquiet => ?_⟩
    · rw [handle, penDownUpIrqHandler, checkPen_up hup]
    · rw [hnew] at hdown
      exact absurd hdown (by decide)
    · rw [hnew] at hquiet
      exact absurd (hquiet .sync (by decide)) (by decide)
  | false =>
    rw [hup, if_neg (by decide)] at hnew
    refine ⟨fun hmem => ?_, fun hmem => ?_, fun _ => ⟨?_, fun adccon => ?_⟩⟩
    · rw [hnew] at hmem
      cases hmem
    · rw [hnew] at hmem
      cases hmem
    · rw [handle, penDownUpIrqHandler, checkPen_down hup]
    · rw [handle, penDownUpIrqHandler, checkPen_down hup]
      exact has_start adccon

/-- The callback does what the pen interrupt does. -/
theorem timer_armed (s : Ts) (d0 d1 : BitVec 32) : Armed s (.timer d0 d1) := by
  have h := pen_armed { s with timerPending := false } d0 d1
  exact ⟨h.up, h.down, h.quiet⟩

/-- A conversion arms what comes next just if it is not discarded. -/
theorem adc_armed_iff (s : Ts) (d0 d1 : BitVec 32) :
    Armed s (.adc d0 d1) ↔ discards d0 d1 = false := by
  have hnew := newEvents_adc s d0 d1
  cases hup : discards d0 d1 with
  | true =>
    -- pen up is reported, and pen up is waited for
    rw [hup, if_pos rfl] at hnew
    have hmode : (handle s (.adc d0 d1)).adctsc = 0x1d3 := by rw [handle, adc_discarded hup]
    constructor
    · intro h
      have hdown := h.up (by rw [hnew]; decide)
      rw [hmode] at hdown
      cases hdown
    · nofun
  | false =>
    rw [hup, if_neg (by decide)] at hnew
    refine ⟨fun _ => rfl, fun _ => ?_⟩
    by_cases hcnt : s.cnt + 1 = 4
    · rw [if_pos hcnt] at hnew
      refine ⟨fun hmem => ?_, fun _ => ?_, fun hquiet => ?_⟩
      · rw [hnew] at hmem
        simp [sampled, average] at hmem
      · rw [handle, adc_averaged hup hcnt]
        exact ⟨rfl, rfl⟩
      · rw [hnew] at hquiet
        have hsync := hquiet .sync (by simp [average])
        cases hsync
    · rw [if_neg hcnt] at hnew
      refine ⟨fun hmem => ?_, fun hmem => ?_, fun _ => ⟨?_, fun adccon => ?_⟩⟩
      · rw [hnew] at hmem
        simp [sampled] at hmem
      · rw [hnew] at hmem
        simp [sampled] at hmem
      · rw [handle, adc_stored hup hcnt]
      · have hcnt' : ({ s with adccon := adccon } : Ts).cnt + 1 ≠ 4 := hcnt
        rw [handle, adc_stored hup hcnt']
        exact has_start adccon

/-- An interrupt arms what comes next just if it is kept. -/
theorem armed_iff_kept (s : Ts) (e : Irq) : Armed s e ↔ e.Kept := by
  cases e with
  | pen d0 d1 => exact iff_of_true (pen_armed s d0 d1) trivial
  | timer d0 d1 => exact iff_of_true (timer_armed s d0 d1) trivial
  | adc d0 d1 => rw [adc_armed_iff, discards_eq, Irq.Kept, ← Bool.and_eq_true, Bool.not_eq_true]

/-- Behind the test of the pen something is awaited. -/
theorem checkPen_awaits (d0 d1 : BitVec 32) (s : Ts) : Awaits (checkPen d0 d1 s) := by
  cases hup : tsIsUp d0 d1 with
  | true =>
    rw [checkPen_up hup]
    exact Or.inl rfl
  | false =>
    rw [checkPen_down hup]
    exact Or.inr (Or.inr ⟨rfl, has_start s.adccon⟩)

/-- Behind an interrupt that is kept something is awaited. -/
theorem handle_awaits (s : Ts) (e : Irq) (hkept : e.Kept) : Awaits (handle s e) := by
  cases e with
  | pen d0 d1 => exact checkPen_awaits d0 d1 s
  | timer d0 d1 => exact checkPen_awaits d0 d1 { s with timerPending := false }
  | adc d0 d1 =>
    have hdown : discards d0 d1 = false := by
      rw [discards_eq, ← Bool.not_eq_true, Bool.and_eq_true]
      exact hkept
    rw [handle]
    by_cases hcnt : s.cnt + 1 = 4
    · rw [adc_averaged hdown hcnt]
      exact Or.inr (Or.inl ⟨rfl, rfl⟩)
    · rw [adc_stored hdown hcnt]
      exact Or.inr (Or.inr ⟨rfl, has_start s.adccon⟩)

/-- For every order of the three handlers and any register contents: all runs arm the
    controller for what they report iff no run of `adc_irq` discards its conversion, and
    then the state awaits something that can come. -/
theorem armed_iff (irqs : List Irq) :
    (Run.Guarded handle Armed Ts.init irqs ↔ ∀ e ∈ irqs, e.Kept) ∧
      ((∀ e ∈ irqs, e.Kept) → Awaits (run Ts.init irqs)) := by
  refine ⟨Run.guarded_iff_forall armed_iff_kept, fun hkept => ?_⟩
  have hguarded : Run.Guarded handle (fun _ e => e.Kept) Ts.init irqs :=
    (Run.guarded_iff_forall (Q := Irq.Kept) fun _ _ => Iff.rfl).mpr hkept
  exact Run.foldl_of_guarded (fun s e _ => handle_awaits s e) (Or.inl rfl) hguarded

/-- A conversion ends with the pen up. It is discarded, pen-up is reported, and the
    controller waits for pen up. -/
theorem armed_fails_discarded : ¬ ∀ irqs, Run.Guarded handle Armed Ts.init irqs := by
  intro h
  have hkept := (Run.guarded_iff_forall armed_iff_kept).mp (h [.pen 0 0, .adc 0x8001 0x8000])
  exact hkept (.adc 0x8001 0x8000) (by simp) (by decide)

end TouchScreen
