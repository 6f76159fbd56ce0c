import DriverLearn.ForStd.Word
import DriverLearn.Native.LcdLoad

/-!
# What the panel shows

The controller reads the pixels of a frame from memory and sends them to the panel. Its
registers say from where, how many and in what form, and so does `fb_info` to those who draw.
The driver makes them agree, but for the addresses: the controller counts within 4 MB.

## Key results

- `shows_iff`: the panel shows the frame buffer iff it lies within 4 MB
-/

namespace Lcd2440fb

/-! ### The controller -/

/-- The bits of a register from `lo` on. -/
def bits (reg : BitVec 32) (lo width : Nat) : Nat := reg.toNat / 2 ^ lo % 2 ^ width

/-- `ENVID` -/
def LcdRegs.enabled (regs : LcdRegs) : Bool := bits regs.lcdcon1 0 1 = 1

/-- A TFT panel with 16 bits a pixel, in halfwords that are swapped once, without a palette
    for the whole frame: `PNRMODE`, `BPPMODE`, `HWSWP`, `BSWP` and `TPALEN`. -/
def LcdRegs.tft16 (regs : LcdRegs) : Bool :=
  bits regs.lcdcon1 5 2 = 3 && bits regs.lcdcon1 1 4 = 12 && bits regs.lcdcon5 0 2 = 1 &&
    bits regs.tpal 24 1 = 0

/-- The address of a pixel: `LCDBANK`, and the count of halfwords from `LCDBASEU` on, over lines
    of `PAGEWIDTH` and `OFFSIZE`. -/
def LcdRegs.scanned (regs : LcdRegs) (x y : Nat) : Nat :=
  let line := bits regs.lcdsaddr3 0 11 + bits regs.lcdsaddr3 11 11
  bits regs.lcdsaddr1 21 9 * 2 ^ 22 + (bits regs.lcdsaddr1 0 21 + y * line + x) % 2 ^ 21 * 2

/-- `HOZVAL` and `LINEVAL` -/
def LcdRegs.covers (regs : LcdRegs) (x y : Nat) : Bool :=
  x ≤ bits regs.lcdcon3 8 11 && y ≤ bits regs.lcdcon2 14 10

/-- The halfword in memory at an address. -/
def halfword (mem : Nat → Byte) (a : Nat) : BitVec 16 := mem (a + 1) ++ mem a

/-- What the panel gets for a pixel. -/
def LcdRegs.pixel (regs : LcdRegs) (mem : Nat → Byte) (x y : Nat) : Option (BitVec 16) :=
  if regs.enabled && regs.tft16 && regs.covers x y then
    some (halfword mem (regs.scanned x y))
  else
    none

/-- The levels of red, green and blue, with `FRM565`. -/
def LcdRegs.levels (regs : LcdRegs) (v : BitVec 16) : Option (Nat × Nat × Nat) :=
  if bits regs.lcdcon5 11 1 = 1 then
    some (v.toNat / 2 ^ 11, v.toNat / 2 ^ 5 % 2 ^ 6, v.toNat % 2 ^ 5)
  else
    none

/-! ### The frame buffer -/

/-- Where a pixel is drawn. -/
def FbInfo.drawn (info : FbInfo) (x y : Nat) : Nat :=
  info.smemStart.toNat + y * info.lineLength + x * info.bitsPerPixel / 8

/-- The level in a bitfield. -/
def FbBitfield.level (bf : FbBitfield) (v : BitVec 16) : Nat :=
  v.toNat / 2 ^ bf.offset.toNat % 2 ^ bf.length.toNat

/-- The panel is lit and shows each pixel of the frame buffer, and nothing else. -/
structure Shows (s : Module) : Prop where
  lit : s.ports.gpbcon &&& 3 = 1 ∧ s.ports.gpbdat &&& 1 = 1
  pixel : ∀ mem x y, s.regs.pixel mem x y =
    if x < s.info.xres ∧ y < s.info.yres then some (halfword mem (s.info.drawn x y)) else none
  levels : ∀ v, s.regs.levels v =
    some (s.info.var.red.level v, s.info.var.green.level v, s.info.var.blue.level v)

/-- The frame buffer begins at an even address below 2 GB, and ends within the 4 MB it begins
    in. -/
def FitsBank (start : BitVec 32) : Prop :=
  start.toNat % 2 = 0 ∧ start.toNat < 2 ^ 31 ∧ start.toNat % 2 ^ 22 + 240 * 320 * 2 ≤ 2 ^ 22

/-! ### The registers behind a load -/

/-- The `fb_info` with a frame buffer. -/
def infoAt (start : BitVec 32) : FbInfo := { fbInfo with smemStart := start }

/-- What a load takes of the clock. -/
def Results.clks (r : Results) : List Resource :=
  if r.clkGet then .clk :: (if r.clkPrepareEnable = 0 then [.clkEnabled] else []) else []

/-- What a load takes up to the clock. -/
def Results.early (r : Results) : List Resource := [.fbInfo, .gpb, .gpc, .gpd, .gpg] ++ r.clks

/-- How a load ends: at the clock or the region of the registers, for want of memory, or with a
    frame buffer. -/
inductive Outcome (r : Results) (s : Module) : Int × Module → Prop
  | refused {ret : Int} (hret : ret ≠ 0) (hfail : r.clkGet = false ∨ r.requestMemRegion = false) :
      Outcome r s (ret, { s with
        info := fbInfo
        ports := setPorts s.ports
        ledger := s.ledger ++ r.early.map .take })
  | noMem (hfail : r.dmaAllocWc = none) :
      Outcome r s (eNoMem, { s with
        info := fbInfo
        ports := setPorts s.ports
        regs := setTiming s.regs
        ledger := s.ledger ++ (r.early ++ [Resource.lcdMem, .lcdRegs]).map .take })
  | complete (start : BitVec 32) (hclk : r.clkGet = true) (hmem : r.requestMemRegion = true)
      (hdma : r.dmaAllocWc = some start) :
      Outcome r s (0, { s with
        info := infoAt start
        ports := { setPorts s.ports with gpbdat := (setPorts s.ports).gpbdat ||| 1 }
        regs := setAddresses (infoAt start) (setTiming s.regs)
        ledger := s.ledger ++ (r.early ++ [Resource.lcdMem, .lcdRegs, .screen start]).map .take })

/-- A load has no other end. -/
theorem mylcdInit_outcome (r : Results) (s : Module) : Outcome r s (mylcdInit r s) := by
  have hbusy : eBusy ≠ 0 := by decide
  have hnxio : eNxIo ≠ 0 := by decide
  unfold mylcdInit initController
  by_cases hclk : r.clkGet = true
  swap
  · rw [if_pos hclk]
    convert Outcome.refused (r := r) (s := s) hbusy (.inl (Bool.eq_false_iff.mpr hclk)) using 2
    simp [Module.acquire, Results.early, Results.clks, hclk]
  rw [if_neg (not_not.mpr hclk)]
  by_cases hmem : r.requestMemRegion = true
  swap
  · rw [if_pos hmem]
    convert Outcome.refused (r := r) (s := s) hnxio (.inr (Bool.eq_false_iff.mpr hmem)) using 2
    by_cases hprepare : r.clkPrepareEnable = 0 <;>
      simp [Module.acquire, Results.early, Results.clks, hclk, hprepare]
  rw [if_neg (not_not.mpr hmem)]
  cases hdma : r.dmaAllocWc with
  | none =>
    convert Outcome.noMem (r := r) (s := s) hdma using 2
    by_cases hprepare : r.clkPrepareEnable = 0 <;>
      simp [Module.acquire, Results.early, Results.clks, hclk, hprepare]
  | some start =>
    convert Outcome.complete (r := r) (s := s) start hclk hmem hdma using 2
    by_cases hprepare : r.clkPrepareEnable = 0 <;>
      simp [Module.acquire, Results.early, Results.clks, hclk, hprepare, infoAt]

section

variable (regs : LcdRegs) (start : BitVec 32)

/-- `LCDBANK` and `LCDBASEU` are bits 30 to 1 of the address. -/
theorem toNat_lcdsaddr1 :
    ((start >>> 1) &&& ~~~(3#32 <<< 30)).toNat = start.toNat / 2 % 2 ^ 30 := by
  rw [show ~~~(3#32 <<< 30) = 0x3fffffff by decide, BitVec.toNat_and,
    BitVec.toNat_ushiftRight, Nat.shiftRight_one]
  exact Nat.and_two_pow_sub_one_eq_mod _ 30

/-- The bank and the offset of a pixel, from the address of the frame buffer. -/
theorem scanned_eq (x y : Nat) :
    (setAddresses (infoAt start) regs).scanned x y =
      start.toNat / 2 % 2 ^ 30 / 2 ^ 21 % 2 ^ 9 * 2 ^ 22 +
        (start.toNat / 2 % 2 ^ 30 % 2 ^ 21 + y * 240 + x) % 2 ^ 21 * 2 := by
  have hsaddr := toNat_lcdsaddr1 start
  have hline :
      bits ((240 * 2 / 2) &&& 0x3ff) 0 11 + bits ((240 * 2 / 2) &&& 0x3ff) 11 11 = 240 := by
    decide
  simp only [LcdRegs.scanned, setAddresses, infoAt, hline]
  rw [bits, bits, hsaddr, Nat.pow_zero, Nat.div_one]

/-- A line is 480 bytes long, and a pixel two. -/
theorem drawn_eq (x y : Nat) :
    (infoAt start).drawn x y = start.toNat + y * 480 + x * 2 := by
  simp only [FbInfo.drawn, infoAt, fbInfo]
  omega

/-- Within 4 MB the controller reads a pixel where it is drawn. -/
theorem scanned_of_fits {start : BitVec 32} (h : FitsBank start) {x y : Nat} (hx : x < 240)
    (hy : y < 320) :
    (setAddresses (infoAt start) regs).scanned x y =
      (infoAt start).drawn x y := by
  obtain ⟨heven, hlow, hend⟩ := h
  rw [scanned_eq, drawn_eq]
  have hhalf : start.toNat / 2 % 2 ^ 30 = start.toNat / 2 := Nat.mod_eq_of_lt (by omega)
  have hbank : start.toNat / 2 / 2 ^ 21 % 2 ^ 9 = start.toNat / 2 / 2 ^ 21 :=
    Nat.mod_eq_of_lt (by omega)
  -- no pixel is counted over the end of the bank
  have hoffset : (start.toNat / 2 % 2 ^ 21 + y * 240 + x) % 2 ^ 21 =
      start.toNat / 2 % 2 ^ 21 + y * 240 + x := Nat.mod_eq_of_lt (by omega)
  rw [hhalf, hbank, hoffset]
  omega

/-- The first and the last pixel come from the frame buffer only if all of it does. -/
theorem fits_of_scanned {start : BitVec 32}
    (hfirst : (setAddresses (infoAt start) regs).scanned 0 0 =
      (infoAt start).drawn 0 0)
    (hlast : (setAddresses (infoAt start) regs).scanned 239 319 =
      (infoAt start).drawn 239 319) : FitsBank start := by
  rw [scanned_eq, drawn_eq] at hfirst hlast
  have hword := start.isLt
  refine ⟨?_, ?_, ?_⟩ <;> omega

end

/-- Some memory tells two addresses apart. -/
theorem halfword_inj {a b : Nat} (h : ∀ mem, halfword mem a = halfword mem b) : a = b := by
  by_contra hne
  have hbit := congrArg (BitVec.getLsbD · 0) (h fun c => if c = a then 1 else 0)
  have hright : (halfword (fun c => if c = a then 1 else 0) b).getLsbD 0 = false := by
    rw [halfword, BitVec.getLsbD_append]
    simp [Ne.symm hne]
  have hleft : (halfword (fun c => if c = a then 1 else 0) a).getLsbD 0 = true := by
    rw [halfword, BitVec.getLsbD_append]
    simp
  exact absurd (hleft.symm.trans (hbit.trans hright)) (by decide)

/-! ### The panel behind a load -/

section

variable (regs : LcdRegs) (info : FbInfo)

/-- The controller is on. -/
theorem set_enabled : (setAddresses info (setTiming regs)).enabled = true := by
  have hcon1 : (setAddresses info (setTiming regs)).lcdcon1 = 1145#32 := by
    simp only [setAddresses, setTiming]
    decide
  rw [LcdRegs.enabled, hcon1]
  decide

/-- The mode is that of the panel. -/
theorem set_tft16 : (setAddresses info (setTiming regs)).tft16 = true := by
  have hcon1 : (setAddresses info (setTiming regs)).lcdcon1 = 1145#32 := by
    simp only [setAddresses, setTiming]
    decide
  have hcon5 : (setAddresses info (setTiming regs)).lcdcon5 = 2825#32 := by
    simp only [setAddresses, setTiming]
    decide
  have htpal : (setAddresses info (setTiming regs)).tpal = 0 := rfl
  rw [LcdRegs.tft16, hcon1, hcon5, htpal]
  decide

/-- The frame has 240 pixels by 320. -/
theorem set_covers (x y : Nat) :
    (setAddresses info (setTiming regs)).covers x y = true ↔ x < 240 ∧ y < 320 := by
  have hwidth : bits (7#32 <<< 19 ||| 239#32 <<< 8 ||| 10#32 <<< 0) 8 11 = 239 := by decide
  have hheight :
      bits (7#32 <<< 24 ||| 319#32 <<< 14 ||| 1#32 <<< 6 ||| 0#32 <<< 0) 14 10 = 319 := by
    decide
  simp only [LcdRegs.covers, setAddresses, setTiming, hwidth, hheight, Bool.and_eq_true,
    decide_eq_true_eq]
  omega

/-- What the panel gets depends on the addresses only. -/
theorem pixel_eq (mem : Nat → Byte) (x y : Nat) :
    (setAddresses info (setTiming regs)).pixel mem x y =
      if x < 240 ∧ y < 320 then
        some (halfword mem ((setAddresses info (setTiming regs)).scanned x y))
      else
        none := by
  rw [LcdRegs.pixel, set_enabled, set_tft16, Bool.true_and, Bool.true_and]
  simp only [set_covers]

/-- The levels are those of the bitfields. -/
theorem levels_eq (v : BitVec 16) :
    (setAddresses info (setTiming regs)).levels v =
      some (mylcdVar.red.level v, mylcdVar.green.level v, mylcdVar.blue.level v) := by
  have hform : bits (setAddresses info (setTiming regs)).lcdcon5 11 1 = 1 := by
    simp only [setAddresses, setTiming]
    decide
  rw [LcdRegs.levels, if_pos hform]
  have hred : v.toNat / 2 ^ 11 % 2 ^ 5 = v.toNat / 2 ^ 11 := Nat.mod_eq_of_lt (by omega)
  have hblue : v.toNat / 2 ^ 0 % 2 ^ 5 = v.toNat % 2 ^ 5 := by rw [Nat.pow_zero, Nat.div_one]
  rw [← hred, ← hblue]
  rfl

/-- The pin of the backlight is an output. -/
theorem backlight_on (v : BitVec 32) : (v &&& ~~~0x3 ||| 1) &&& 3 = 1 := by
  rw [BitVec.and_comm, BitVec.and_or_distrib_left, BitVec.and_comm v, ← BitVec.and_assoc]
  simp

/-- The backlight is on. -/
theorem backlight_lit (v : BitVec 32) : (v ||| 1) &&& 1 = 1 := by
  ext i
  simp only [BitVec.getElem_and, BitVec.getElem_or]
  cases v[i] <;> simp

end

/-- With the registers set for a frame buffer. -/
theorem shows_set {s : Module} {regs : LcdRegs} {ports : PortRegs} {start : BitVec 32}
    (hinfo : s.info = infoAt start)
    (hregs : s.regs = setAddresses (infoAt start) (setTiming regs))
    (hports : s.ports = { setPorts ports with gpbdat := (setPorts ports).gpbdat ||| 1 }) :
    Shows s ↔ FitsBank start := by
  constructor
  · intro hshows
    have hpixel : ∀ x y, x < 240 → y < 320 →
        (setAddresses (infoAt start) (setTiming regs)).scanned x y = (infoAt start).drawn x y := by
      intro x y hx hy
      have hsize : x < (infoAt start).xres ∧ y < (infoAt start).yres := ⟨hx, hy⟩
      -- halfwords that agree in every memory are at one address
      apply halfword_inj
      intro mem
      have hshown := hshows.pixel mem x y
      rw [hregs, hinfo, pixel_eq, if_pos ⟨hx, hy⟩, if_pos hsize] at hshown
      exact Option.some.inj hshown
    -- the first and the last pixel are enough
    exact fits_of_scanned (setTiming regs) (hpixel 0 0 (by decide) (by decide))
      (hpixel 239 319 (by decide) (by decide))
  · intro hfits
    constructor
    · rw [hports]
      exact ⟨backlight_on _, backlight_lit _⟩
    · intro mem x y
      rw [hregs, hinfo, pixel_eq]
      show _ = if x < 240 ∧ y < 320 then _ else none
      by_cases hin : x < 240 ∧ y < 320
      · rw [if_pos hin, if_pos hin, scanned_of_fits (setTiming regs) hfits hin.1 hin.2]
      · rw [if_neg hin, if_neg hin]
    · intro v
      rw [hregs, hinfo, levels_eq]
      rfl

/-- All calls succeed, with a frame buffer near the end of the memory. -/
def inSdram : Results := ⟨true, 0, true, some 0x33c00000⟩

end Lcd2440fb
