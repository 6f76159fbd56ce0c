import DriverLearn.ForStd.Run
import DriverLearn.Spec.TouchHandler

/-!
# Touch samples and touches

`adc_irq` averages the four samples of `x[]` and `y[]` into one reported coordinate
pair. A pair is sound when all four were stored after the latest pen-up report. The
pen interrupt and the timer callback report pen-up without resetting `cnt`, so samples
of an earlier touch survive into the next average; runs in which they find the pen up
only between two groups of samples keep the law.

## Key results

- `handle_samplesInv`: one handler run keeps the invariant, under the guard
- `samples_within_touch`: the law over whole guarded runs
- `samples_mix`: the law fails without the guard
-/

namespace TouchScreen

/-! ### The law -/

/-- The sample last stored in `slot`, unless a pen-up has been reported since. -/
def sampleOfTouch (slot : Nat) (log : List Event) : Option (Nat × Nat) :=
  log.foldl
    (fun acc e =>
      match e with
      | .sample k x y => if k = slot then some (x, y) else acc
      | .reportTouch 0 => none
      | _ => acc)
    none

/-- Every reported coordinate pair is the average of four samples, one a slot, that were
    stored after the latest pen-up report before it. -/
def SamplesWithinTouch (log : List Event) : Prop :=
  ∀ pre post X Y, log = pre ++ .reportAbs .absX X :: .reportAbs .absY Y :: post →
    ∃ xs ys : Nat → Nat, (∀ slot < 4, sampleOfTouch slot pre = some (xs slot, ys slot)) ∧
      X = (xs 0 + xs 1 + xs 2 + xs 3) / 4 ∧ Y = (ys 0 + ys 1 + ys 2 + ys 3) / 4

/-! ### How the log grows -/

theorem sampleOfTouch_sample (slot k x y : Nat) (log : List Event) :
    sampleOfTouch slot (log ++ [.sample k x y]) =
      if k = slot then some (x, y) else sampleOfTouch slot log := by
  simp [sampleOfTouch]

/-- Appending events that report no coordinates keeps the law. -/
theorem SamplesWithinTouch.append {log es : List Event} (h : SamplesWithinTouch log)
    (hes : ∀ v, .reportAbs .absX v ∉ es ∧ .reportAbs .absY v ∉ es) :
    SamplesWithinTouch (log ++ es) := by
  intro pre post X Y heq
  rcases List.append_eq_append_iff.mp heq with ⟨l, hpre, hl⟩ | ⟨l, hlog, hl⟩
  · -- the report would start inside `es`
    exact absurd (hl ▸ by simp : .reportAbs .absX X ∈ es) (hes X).1
  · match l, hl with
    | [], hl =>
      rw [List.nil_append] at hl
      exact absurd (hl ▸ by simp : .reportAbs .absX X ∈ es) (hes X).1
    | [_], hl =>
      simp only [List.singleton_append, List.cons.injEq] at hl
      exact absurd (hl.2 ▸ by simp : .reportAbs .absY Y ∈ es) (hes Y).2
    | _ :: _ :: l', hl =>
      simp only [List.cons_append, List.cons.injEq] at hl
      obtain ⟨rfl, rfl, -⟩ := hl
      exact h pre l' X Y hlog

/-- A report of the average of four samples of the current touch keeps the law. -/
theorem SamplesWithinTouch.append_report {log : List Event} (h : SamplesWithinTouch log)
    (x y : Nat → Nat) (hxy : ∀ slot < 4, sampleOfTouch slot log = some (x slot, y slot)) :
    SamplesWithinTouch (log ++
      [.reportAbs .absX ((x 0 + x 1 + x 2 + x 3) / 4),
        .reportAbs .absY ((y 0 + y 1 + y 2 + y 3) / 4),
        .reportAbs .absPressure 1, .reportTouch 1, .sync]) := by
  intro pre post X Y heq
  rcases List.append_eq_append_iff.mp heq with ⟨l, hpre, hl⟩ | ⟨l, hlog, hl⟩
  · -- the split is at the new report, or behind it
    match l, hl with
    | [], hl =>
      simp only [List.nil_append, List.cons.injEq, Event.reportAbs.injEq, true_and] at hl
      obtain ⟨rfl, rfl, -⟩ := hl
      rw [hpre, List.append_nil]
      exact ⟨x, y, hxy, rfl, rfl⟩
    | [_], hl => simp at hl
    | [_, _], hl => simp at hl
    | [_, _, _], hl => simp at hl
    | [_, _, _, _], hl => simp at hl
    | _ :: _ :: _ :: _ :: _ :: l', hl => simp at hl
  · match l, hl with
    | [], hl =>
      simp only [List.nil_append, List.cons.injEq, Event.reportAbs.injEq, true_and] at hl
      obtain ⟨rfl, rfl, -⟩ := hl
      rw [List.append_nil] at hlog
      exact hlog ▸ ⟨x, y, hxy, rfl, rfl⟩
    | [_], hl => simp at hl
    | _ :: _ :: l', hl =>
      simp only [List.cons_append, List.cons.injEq] at hl
      obtain ⟨rfl, rfl, -⟩ := hl
      exact h pre l' X Y hlog

/-! ### The invariant -/

/-- `cnt` counts the samples of the current group, all of the current touch. -/
structure SamplesInv (s : Ts) : Prop where
  cnt_lt : s.cnt < 4
  current : ∀ slot < s.cnt, sampleOfTouch slot s.log = some (s.x slot, s.y slot)
  law : SamplesWithinTouch s.log

/-- The pen interrupt and the timer callback find the pen up only between two groups of
    samples. -/
def UpBetweenGroups (s : Ts) : Irq → Prop
  | .pen d0 d1 => tsIsUp d0 d1 → s.cnt = 0
  | .timer d0 d1 => tsIsUp d0 d1 → s.cnt = 0
  | .adc _ _ => True

theorem samplesInv_init : SamplesInv Ts.init where
  cnt_lt := by decide
  current := by simp [Ts.init]
  law := by intro pre post X Y h; simp [Ts.init] at h

/-- A pen-up report between two groups keeps the invariant. -/
theorem SamplesInv.penUp {s s' : Ts} (h : SamplesInv s) (hlog : s'.log = s.log ++ penUpReport)
    (hcnt : s'.cnt = 0) : SamplesInv s' where
  cnt_lt := by omega
  current := by simp [hcnt]
  law := hlog ▸ h.law.append (by simp [penUpReport])

theorem checkPen_samplesInv {s : Ts} (d0 d1 : BitVec 32) (h : SamplesInv s)
    (hg : tsIsUp d0 d1 → s.cnt = 0) : SamplesInv (checkPen d0 d1 s) := by
  cases hup : tsIsUp d0 d1 with
  | true =>
    rw [checkPen_up hup]
    exact h.penUp rfl (hg hup)
  | false =>
    rw [checkPen_down hup]
    exact ⟨h.cnt_lt, h.current, h.law⟩

/-- The sample goes into the slot `cnt`, behind those of the current touch. -/
theorem SamplesInv.store {s : Ts} (d0 d1 : BitVec 32) (h : SamplesInv s) :
    (∀ slot < s.cnt + 1, sampleOfTouch slot (store d0 d1 s).log =
      some ((store d0 d1 s).x slot, (store d0 d1 s).y slot)) ∧
    SamplesWithinTouch (store d0 d1 s).log := by
  constructor
  · intro slot hslot
    simp only [TouchScreen.store, sampled, sampleOfTouch_sample]
    by_cases hk : s.cnt = slot
    · simp [hk]
    · simp [hk, Function.update_of_ne (Ne.symm hk), h.current slot (by omega)]
  · exact h.law.append (by simp [sampled])

theorem adcIrq_samplesInv {s : Ts} (d0 d1 : BitVec 32) (h : SamplesInv s) :
    SamplesInv (adcIrq d0 d1 s) := by
  have hlt := h.cnt_lt
  obtain ⟨hcur, hlaw⟩ := h.store d0 d1
  cases hdis : discards d0 d1 with
  | true =>
    rw [adc_discarded hdis]
    exact h.penUp rfl rfl
  | false =>
    -- the fourth sample ends the group, and the average is reported
    by_cases hcnt : s.cnt + 1 = 4
    · have hreport := hlaw.append_report _ _ (hcnt ▸ hcur)
      rw [adc_averaged hdis hcnt, List.append_cons]
      exact ⟨Nat.zero_lt_succ 3, fun slot hslot => absurd hslot (Nat.not_lt_zero slot), hreport⟩
    · have hnext : s.cnt + 1 < 4 := by omega
      rw [adc_stored hdis hcnt]
      exact ⟨hnext, hcur, hlaw⟩

/-- One run of a handler keeps the invariant. -/
theorem handle_samplesInv (s : Ts) (e : Irq) (h : SamplesInv s) (hg : UpBetweenGroups s e) :
    SamplesInv (handle s e) := by
  cases e with
  | pen d0 d1 => exact checkPen_samplesInv d0 d1 h hg
  | adc d0 d1 => exact adcIrq_samplesInv d0 d1 h
  -- the callback does what the pen interrupt does
  | timer d0 d1 => exact checkPen_samplesInv d0 d1 ⟨h.cnt_lt, h.current, h.law⟩ hg

/-! ### Whole runs -/

/-- In every run of the three handlers in which the pen interrupt and the timer callback
    find the pen up only between two groups of samples, no reported pair mixes touches. -/
theorem samples_within_touch (irqs : List Irq)
    (hg : Run.Guarded handle UpBetweenGroups Ts.init irqs) :
    SamplesWithinTouch (run Ts.init irqs).log :=
  (Run.foldl_of_guarded handle_samplesInv samplesInv_init hg).law

/-- A run that meets the guard: a touch of four samples, and pen up behind it. -/
theorem samples_within_touch_one_touch :
    SamplesWithinTouch
      (run Ts.init [.pen 0 0, .adc 2 2, .adc 4 4, .adc 6 6, .adc 8 8, .timer 0x8000 0x8000]).log :=
  samples_within_touch _ (by simp [Run.Guarded, UpBetweenGroups, handle, adcIrq]; decide)

/-- The pen interrupt reports pen-up after the first sample of a touch; the next touch
    adds three samples, and the pair reported then averages the four. -/
theorem samples_mix :
    ¬ ∀ irqs, SamplesWithinTouch (run Ts.init irqs).log := by
  intro h
  obtain ⟨xs, ys, hfresh, -, -⟩ := h
    [.pen 0 0, .adc 2 2, .pen 0x8000 0x8000, .pen 0 0, .adc 4 4, .adc 6 6, .adc 8 8]
    ([.sample 0 2 2] ++ penUpReport ++ [.sample 1 4 4, .sample 2 6 6, .sample 3 8 8])
    [.reportAbs .absPressure 1, .reportTouch 1, .sync] 5 5 (by rfl)
  have h0 := hfresh 0 (by decide)
  simp [sampleOfTouch, penUpReport] at h0

end TouchScreen
