import DriverLearn.Spec.TouchPen

/-!
# The sample buffer of the touch screen

`adc_irq` stores its samples in `x[cnt]` and `y[cnt]`, and `cnt` lives on from one interrupt
to the next. Next to a run the samples stored since `cnt` was last 0 are kept. They are the
first `cnt` entries of the two arrays, so that every store is in bounds, and what is reported
behind the fourth is the average of these four.

## Key results

- `sampling_inv`: one handler run keeps the law and the invariant
- `run_cnt_lt`, `buffered`: the bound and the law over whole runs
-/

namespace TouchScreen

/-! ### The law -/

/-- The sample that an event stores. -/
def Event.stored : Event → Option (Nat × Nat)
  | .sample _ x y => some (x, y)
  | _ => none

/-- The coordinate that an event reports. -/
def Event.coordinate : Event → Option (AbsCode × Nat)
  | .reportAbs .absX v => some (.absX, v)
  | .reportAbs .absY v => some (.absY, v)
  | _ => none

/-- The samples a handler run stores. -/
def storedBy (s : Ts) (e : Irq) : List (Nat × Nat) := (newEvents s e).filterMap Event.stored

/-- The coordinates a handler run reports. -/
def reportedBy (s : Ts) (e : Irq) : List (AbsCode × Nat) :=
  (newEvents s e).filterMap Event.coordinate

/-- The driver, and the samples stored since `cnt` was last 0. -/
structure Sampling where
  ts : Ts
  group : List (Nat × Nat)

/-- Nothing has been sampled. -/
def Sampling.init : Sampling := ⟨Ts.init, []⟩

/-- An interrupt, with the samples since the last report or pen-up. -/
def sampling (t : Sampling) (e : Irq) : Sampling where
  ts := handle t.ts e
  group := if (handle t.ts e).cnt = 0 then [] else t.group ++ storedBy t.ts e

/-- `v` lies between the minimum and the maximum of `vs`. -/
def Between (vs : List Nat) (v : Nat) : Prop :=
  ∃ lo hi, vs.min? = some lo ∧ vs.max? = some hi ∧ lo ≤ v ∧ v ≤ hi

/-- `v` lies in the range registered for `code`. -/
def InRange (code : AbsCode) (v : Nat) : Prop := (absParams code).1 ≤ v ∧ v ≤ (absParams code).2

/-- The handler run stores the fourth sample since `cnt` was last 0. -/
def Fourth (t : Sampling) (e : Irq) : Prop :=
  storedBy t.ts e ≠ [] ∧ (t.group ++ storedBy t.ts e).length = 4

/-- The law for one handler run. -/
structure Buffered (t : Sampling) (e : Irq) : Prop where
  cnt_le : t.ts.cnt ≤ 3
  slots : ∀ slot x y, .sample slot x y ∈ newEvents t.ts e → slot ≤ 3
  fourth : Fourth t e →
    ∃ X Y, reportedBy t.ts e = [(.absX, X), (.absY, Y)] ∧
      Between ((t.group ++ storedBy t.ts e).map Prod.fst) X ∧
      Between ((t.group ++ storedBy t.ts e).map Prod.snd) Y ∧
      InRange .absX X ∧ InRange .absY Y
  other : ¬ Fourth t e → reportedBy t.ts e = []

variable {t : Sampling} {d0 d1 : BitVec 32} {vs : List Nat} {v : Nat}

/-- The samples are only recorded. -/
theorem sampling_ts (irqs : List Irq) (t : Sampling) :
    (irqs.foldl sampling t).ts = run t.ts irqs := by
  induction irqs generalizing t with
  | nil => rfl
  | cons e irqs ih => exact ih (sampling t e)

/-! ### Averages -/

/-- An average lies between the least and the greatest value. -/
theorem between_average (h : vs ≠ []) : Between vs (vs.sum / vs.length) := by
  have hmin := List.min?_eq_some_min h
  have hmax := List.max?_eq_some_max h
  exact ⟨vs.min h, vs.max h, hmin, hmax, List.le_sum_div_length_of_min?_eq_some_nat hmin,
    List.sum_div_length_le_max_of_max?_eq_some_nat hmax⟩

/-- A value between those below a bound is below it. -/
theorem Between.le {n : Nat} (h : Between vs v) (hle : ∀ a ∈ vs, a ≤ n) : v ≤ n := by
  obtain ⟨lo, hi, -, hmax, -, hv⟩ := h
  have hhi := hle hi (List.max?_mem hmax)
  omega

/-! ### The invariant -/

/-- The samples stored since `cnt` was last 0 are the first `cnt` entries of the arrays. -/
structure GroupInv (t : Sampling) : Prop where
  cnt_lt : t.ts.cnt < 4
  group_eq : t.group = (List.range t.ts.cnt).map fun i => (t.ts.x i, t.ts.y i)
  bounded : ∀ p ∈ t.group, p.1 ≤ 0x3ff ∧ p.2 ≤ 0x3ff

/-- The invariant holds in the beginning. -/
theorem groupInv_init : GroupInv Sampling.init where
  cnt_lt := by decide
  group_eq := rfl
  bounded := nofun

/-- A handler run that resets `cnt`. -/
theorem groupInv_zero {e : Irq} (hzero : (handle t.ts e).cnt = 0) : GroupInv (sampling t e) := by
  rw [sampling, hzero, if_pos rfl]
  constructor
  · rw [hzero]
    decide
  · rw [hzero]
    rfl
  · nofun

/-- `cnt` counts the samples of the group. -/
theorem GroupInv.length_eq (h : GroupInv t) : t.group.length = t.ts.cnt := by
  rw [h.group_eq, List.length_map, List.length_range]

/-! ### Pen interrupts and timer callbacks -/

/-- The test of the pen leaves the samples. -/
theorem checkPen_frame (d0 d1 : BitVec 32) (s : Ts) :
    (checkPen d0 d1 s).cnt = s.cnt ∧ (checkPen d0 d1 s).x = s.x ∧ (checkPen d0 d1 s).y = s.y := by
  cases hup : tsIsUp d0 d1 with
  | true => simp [checkPen_up hup]
  | false => simp [checkPen_down hup]

/-- A handler run that adds no sample and no coordinates and leaves the buffer alone. -/
theorem GroupInv.quiet {e : Irq} (h : GroupInv t)
    (hframe : (handle t.ts e).cnt = t.ts.cnt ∧ (handle t.ts e).x = t.ts.x ∧
      (handle t.ts e).y = t.ts.y)
    (hnew : newEvents t.ts e = penUpReport ∨ newEvents t.ts e = []) :
    Buffered t e ∧ GroupInv (sampling t e) := by
  obtain ⟨hcnt, hx, hy⟩ := hframe
  have hlt := h.cnt_lt
  have hstored : storedBy t.ts e = [] := by
    rcases hnew with hnew | hnew <;> rw [storedBy, hnew] <;> rfl
  have hreported : reportedBy t.ts e = [] := by
    rcases hnew with hnew | hnew <;> rw [reportedBy, hnew] <;> rfl
  have hgroup : (sampling t e).group = t.group := by
    rw [sampling, hcnt, hstored, List.append_nil]
    split
    · -- `cnt` was 0 before, and the group empty
      rename_i hzero
      rw [h.group_eq, hzero, List.range_zero, List.map_nil]
    · rfl
  constructor
  · constructor
    · omega
    · rcases hnew with hnew | hnew <;> simp [hnew, penUpReport]
    · intro hfourth
      exact absurd hstored hfourth.1
    · intro _
      exact hreported
  · constructor
    · rw [sampling, hcnt]
      exact hlt
    · rw [hgroup, h.group_eq, sampling, hcnt, hx, hy]
    · rw [hgroup]
      exact h.bounded

/-- The pen interrupt keeps the group. -/
theorem pen_inv (h : GroupInv t) (d0 d1 : BitVec 32) :
    Buffered t (.pen d0 d1) ∧ GroupInv (sampling t (.pen d0 d1)) := by
  apply h.quiet
  · exact checkPen_frame d0 d1 t.ts
  · rw [newEvents_pen]
    apply ite_eq_or_eq

/-- The callback does what the pen interrupt does. -/
theorem timer_inv (h : GroupInv t) (d0 d1 : BitVec 32) :
    Buffered t (.timer d0 d1) ∧ GroupInv (sampling t (.timer d0 d1)) := by
  apply h.quiet
  · exact checkPen_frame d0 d1 { t.ts with timerPending := false }
  · rw [newEvents_timer]
    apply ite_eq_or_eq

/-! ### ADC interrupts -/

/-- The sample of a conversion. -/
def converted (d0 d1 : BitVec 32) : Nat × Nat := ((d0 &&& 0x3ff).toNat, (d1 &&& 0x3ff).toNat)

/-- A converted value has ten bits. -/
theorem converted_le (d0 d1 : BitVec 32) :
    (converted d0 d1).1 ≤ 0x3ff ∧ (converted d0 d1).2 ≤ 0x3ff := by
  have hle : ∀ d : BitVec 32, (d &&& 0x3ff).toNat ≤ 0x3ff := by
    intro d
    rw [BitVec.toNat_and]
    exact Nat.and_le_right
  exact ⟨hle d0, hle d1⟩

/-- A conversion stores one sample, unless it is discarded. -/
theorem storedBy_adc (s : Ts) (d0 d1 : BitVec 32) :
    storedBy s (.adc d0 d1) = if discards d0 d1 then [] else [converted d0 d1] := by
  rw [storedBy, newEvents_adc]
  split
  · rfl
  · split <;> rfl

/-- A conversion reports the average with the fourth sample. -/
theorem reportedBy_adc (s : Ts) (d0 d1 : BitVec 32) :
    reportedBy s (.adc d0 d1) =
      if discards d0 d1 then []
      else if s.cnt + 1 = 4 then (average (store d0 d1 s)).filterMap Event.coordinate
      else [] := by
  rw [reportedBy, newEvents_adc]
  split
  · rfl
  · split <;> rfl

/-- The stored sample goes behind the others of its group. -/
theorem GroupInv.group_store (h : GroupInv t) (d0 d1 : BitVec 32) :
    t.group ++ [converted d0 d1] =
      (List.range (t.ts.cnt + 1)).map fun i =>
        ((store d0 d1 t.ts).x i, (store d0 d1 t.ts).y i) := by
  rw [List.range_succ, List.map_append, h.group_eq, List.map_singleton]
  -- the store leaves the entries below `cnt` alone
  congr 1
  · apply List.map_congr_left
    intro i hi
    have hne : i ≠ t.ts.cnt := Nat.ne_of_lt (List.mem_range.mp hi)
    simp only [store, Function.update_of_ne hne]
  · simp only [store, Function.update_self, converted]

/-- The new sample has ten bits as well. -/
theorem GroupInv.bounded_store (h : GroupInv t) (d0 d1 : BitVec 32) :
    ∀ p ∈ t.group ++ [converted d0 d1], p.1 ≤ 0x3ff ∧ p.2 ≤ 0x3ff := by
  intro p hp
  rcases List.mem_append.mp hp with hp | hp
  · exact h.bounded p hp
  · exact List.mem_singleton.mp hp ▸ converted_le d0 d1

/-- The average of four entries of an array in the 10 bits of a conversion. -/
theorem average_between (x : Nat → Nat) (hx : ∀ i < 4, x i ≤ 0x3ff) :
    Between ((List.range 4).map x) ((x 0 + x 1 + x 2 + x 3) / 4) ∧
      (x 0 + x 1 + x 2 + x 3) / 4 ≤ 0x3ff := by
  have hsum : ((List.range 4).map x).sum = x 0 + x 1 + x 2 + x 3 := by
    simp [List.range_succ, Nat.add_assoc]
  have hbetween : Between ((List.range 4).map x) ((x 0 + x 1 + x 2 + x 3) / 4) := by
    have hne : (List.range 4).map x ≠ [] := by simp
    have h := between_average hne
    rwa [hsum, List.length_map, List.length_range] at h
  refine ⟨hbetween, hbetween.le fun a ha => ?_⟩
  obtain ⟨i, hi, rfl⟩ := List.mem_map.mp ha
  exact hx i (List.mem_range.mp hi)

/-- The fourth sample is the one that `cnt` says. -/
theorem fourth_adc_iff (h : GroupInv t) (hdis : discards d0 d1 = false) :
    Fourth t (.adc d0 d1) ↔ t.ts.cnt + 1 = 4 := by
  rw [Fourth, storedBy_adc, hdis, if_neg (by decide), List.length_append, h.length_eq]
  simp

/-- A discarded conversion ends the group. -/
theorem adc_discarded_inv (h : GroupInv t) (hdis : discards d0 d1 = true) :
    Buffered t (.adc d0 d1) ∧ GroupInv (sampling t (.adc d0 d1)) := by
  have hlt := h.cnt_lt
  have hzero : (handle t.ts (.adc d0 d1)).cnt = 0 := by rw [handle, adc_discarded hdis]
  refine ⟨?_, groupInv_zero hzero⟩
  constructor
  · omega
  · simp [newEvents_adc, hdis, penUpReport]
  · intro hfourth
    rw [Fourth, storedBy_adc, hdis] at hfourth
    exact absurd rfl hfourth.1
  · intro _
    rw [reportedBy_adc, hdis, if_pos rfl]

/-- One of the first three samples joins the group. -/
theorem adc_stored_inv (h : GroupInv t) (hdis : discards d0 d1 = false)
    (hcnt : t.ts.cnt + 1 ≠ 4) :
    Buffered t (.adc d0 d1) ∧ GroupInv (sampling t (.adc d0 d1)) := by
  have hlt := h.cnt_lt
  have hts := adc_stored hdis hcnt
  have hgroup : (sampling t (.adc d0 d1)).group = t.group ++ [converted d0 d1] := by
    rw [sampling, handle, hts, storedBy_adc, hdis]
    rfl
  constructor
  · constructor
    · omega
    · simp only [newEvents_adc, hdis, sampled]
      simp [hcnt]
      omega
    · intro hfourth
      exact absurd ((fourth_adc_iff h hdis).mp hfourth) hcnt
    · intro _
      rw [reportedBy_adc, hdis, if_neg (by decide), if_neg hcnt]
  · constructor
    · rw [sampling, handle, hts]
      exact Nat.lt_of_le_of_ne hlt hcnt
    · rw [hgroup, h.group_store d0 d1, sampling, handle, hts]
      rfl
    · rw [hgroup]
      exact h.bounded_store d0 d1

/-- The fourth sample ends the group, and the average is reported. -/
theorem adc_averaged_inv (h : GroupInv t) (hdis : discards d0 d1 = false)
    (hcnt : t.ts.cnt + 1 = 4) :
    Buffered t (.adc d0 d1) ∧ GroupInv (sampling t (.adc d0 d1)) := by
  have hlt := h.cnt_lt
  have hzero : (handle t.ts (.adc d0 d1)).cnt = 0 := by rw [handle, adc_averaged hdis hcnt]
  have hstored : t.group ++ storedBy t.ts (.adc d0 d1) =
      (List.range 4).map fun i => ((store d0 d1 t.ts).x i, (store d0 d1 t.ts).y i) := by
    rw [storedBy_adc, hdis, ← hcnt]
    exact h.group_store d0 d1
  have hle : ∀ i < 4, (store d0 d1 t.ts).x i ≤ 0x3ff ∧ (store d0 d1 t.ts).y i ≤ 0x3ff := by
    intro i hi
    have hb := h.bounded_store d0 d1
    rw [h.group_store, hcnt] at hb
    exact hb _ (List.mem_map_of_mem (List.mem_range.mpr hi))
  -- the next group starts from `cnt = 0`, where the invariant asks for nothing
  refine ⟨?_, groupInv_zero hzero⟩
  constructor
  · omega
  · simp only [newEvents_adc, hdis, sampled, average]
    simp [hcnt]
    omega
  · intro _
    obtain ⟨hx, hxle⟩ := average_between _ fun i hi => (hle i hi).1
    obtain ⟨hy, hyle⟩ := average_between _ fun i hi => (hle i hi).2
    rw [hstored, List.map_map, List.map_map, reportedBy_adc, hdis, if_neg (by decide),
      if_pos hcnt]
    exact ⟨_, _, rfl, hx, hy, ⟨Nat.zero_le _, hxle⟩, Nat.zero_le _, hyle⟩
  · intro hother
    exact absurd ((fourth_adc_iff h hdis).mpr hcnt) hother

/-! ### Whole runs -/

/-- One handler run keeps the law and the invariant. -/
theorem sampling_inv (t : Sampling) (e : Irq) (h : GroupInv t) :
    Buffered t e ∧ GroupInv (sampling t e) := by
  cases e with
  | pen d0 d1 => exact pen_inv h d0 d1
  | timer d0 d1 => exact timer_inv h d0 d1
  | adc d0 d1 =>
    cases hdis : discards d0 d1 with
    | true => exact adc_discarded_inv h hdis
    | false =>
      by_cases hcnt : t.ts.cnt + 1 = 4
      · exact adc_averaged_inv h hdis hcnt
      · exact adc_stored_inv h hdis hcnt

/-- In every state that the handlers reach, whatever they are given. -/
theorem run_cnt_lt (irqs : List Irq) : (run Ts.init irqs).cnt < 4 := by
  have hguarded := Run.guarded_of_inv sampling_inv groupInv_init irqs
  have hinv : GroupInv (irqs.foldl sampling Sampling.init) :=
    Run.foldl_of_guarded (fun t e h _ => (sampling_inv t e h).2) groupInv_init hguarded
  have hts := sampling_ts irqs Sampling.init
  exact (congrArg Ts.cnt hts) ▸ hinv.cnt_lt

/-- For every order of the three handlers and any register contents. -/
theorem buffered (irqs : List Irq) : Run.Guarded sampling Buffered Sampling.init irqs :=
  Run.guarded_of_inv sampling_inv groupInv_init irqs

/-- The pen interrupt does not reset `cnt`: the samples around it make one group. -/
example : reportedBy (run Ts.init [.adc 2 2, .adc 4 4, .pen 0x8000 0x8000, .adc 6 6]) (.adc 8 8) =
    [(.absX, 5), (.absY, 5)] := by decide

end TouchScreen
