import DriverLearn.ForStd.Run
import DriverLearn.Native.Lcd2440fb

/-!
# Colours and the palette

A colour is packed into the three bitfields without loss of the bits that the fields can
hold, for every layout of fields. The packed value is stored in the entry the call names,
but the accept test lets the register number 16 pass, one behind the last entry.

## Key results

- `getLsbD_chanToField`: where the bits of a channel go
- `setcolreg_packs`: one call packs the colour and changes no other word
- `palette_iff`: when a sequence of calls stays in the palette
-/

namespace Lcd2440fb

/-! ### Packing -/

/-- The bit `i` belongs to the field. -/
def FbBitfield.Covers (bf : FbBitfield) (i : Nat) : Prop :=
  bf.offset.toNat ≤ i ∧ i < bf.offset.toNat + bf.length.toNat

instance (bf : FbBitfield) (i : Nat) : Decidable (bf.Covers i) :=
  inferInstanceAs (Decidable (_ ∧ _))

/-- The field has 1 to 16 bits and lies inside the word. -/
structure FbBitfield.Fits (bf : FbBitfield) : Prop where
  length_pos : 1 ≤ bf.length.toNat
  length_le : bf.length.toNat ≤ 16
  inside : bf.offset.toNat + bf.length.toNat ≤ 32

/-- The fields fit, and no two of them share a bit. -/
structure FbVarScreeninfo.Layout (var : FbVarScreeninfo) : Prop where
  red : var.red.Fits
  green : var.green.Fits
  blue : var.blue.Fits
  red_green : ∀ i, ¬ (var.red.Covers i ∧ var.green.Covers i)
  red_blue : ∀ i, ¬ (var.red.Covers i ∧ var.blue.Covers i)
  green_blue : ∀ i, ¬ (var.green.Covers i ∧ var.blue.Covers i)

/-- The top bits of the low 16 bits of a channel, as many as the field has. -/
def topBits (chan : BitVec 32) (bf : FbBitfield) : BitVec bf.length.toNat :=
  chan.extractLsb' (16 - bf.length.toNat) bf.length.toNat

/-- The bits of a word in the field. -/
def fieldBits (val : BitVec 32) (bf : FbBitfield) : BitVec bf.length.toNat :=
  val.extractLsb' bf.offset.toNat bf.length.toNat

/-- Every field of the word holds the top bits of its channel, and nothing else is set. -/
structure Packed (red green blue : BitVec 32) (var : FbVarScreeninfo) (val : BitVec 32) :
    Prop where
  red : fieldBits val var.red = topBits red var.red
  green : fieldBits val var.green = topBits green var.green
  blue : fieldBits val var.blue = topBits blue var.blue
  rest : ∀ i, ¬ var.red.Covers i → ¬ var.green.Covers i → ¬ var.blue.Covers i →
    val.getLsbD i = false

theorem getLsbD_mask (i : Nat) : (0xffff : BitVec 32).getLsbD i = decide (i < 16) := by
  rw [show (0xffff : BitVec 32) = BitVec.ofNat 32 (2 ^ 16 - 1) from rfl, BitVec.getLsbD_ofNat,
    Nat.testBit_two_pow_sub_one]
  by_cases hi : i < 16
  · simp [hi, show i < 32 by omega]
  · simp [hi]

/-- A channel sets bits of its field only, and there its top bits. -/
theorem getLsbD_chanToField {bf : FbBitfield} (h : bf.Fits) (chan : BitVec 32) (i : Nat) :
    (chanToField chan bf).getLsbD i =
      (decide (bf.Covers i) && chan.getLsbD (16 - bf.length.toNat + (i - bf.offset.toNat))) := by
  have hle := h.length_le
  have hinside := h.inside
  have hshift : ((16 : BitVec 32) - bf.length).toNat = 16 - bf.length.toNat := by
    rw [BitVec.toNat_sub_of_le (by rw [BitVec.le_def]; exact hle)]
    rfl
  simp only [chanToField, BitVec.getLsbD_shiftLeft', BitVec.ushiftRight_eq', hshift,
    BitVec.getLsbD_ushiftRight, BitVec.getLsbD_and, getLsbD_mask, FbBitfield.Covers]
  by_cases hlo : bf.offset.toNat ≤ i
  · by_cases hhi : i < bf.offset.toNat + bf.length.toNat
    · simp [hlo, hhi, show i < 32 by omega, show ¬ i < bf.offset.toNat by omega,
        show 16 - bf.length.toNat + (i - bf.offset.toNat) < 16 by omega]
    · simp [hhi, show ¬ 16 - bf.length.toNat + (i - bf.offset.toNat) < 16 by omega]
  · simp [hlo, show i < bf.offset.toNat by omega]

theorem getLsbD_pack {var : FbVarScreeninfo} (h : var.Layout) (red green blue : BitVec 32)
    (i : Nat) :
    (pack red green blue var).getLsbD i =
      (decide (var.red.Covers i) &&
          red.getLsbD (16 - var.red.length.toNat + (i - var.red.offset.toNat)) ||
        decide (var.green.Covers i) &&
          green.getLsbD (16 - var.green.length.toNat + (i - var.green.offset.toNat)) ||
        decide (var.blue.Covers i) &&
          blue.getLsbD (16 - var.blue.length.toNat + (i - var.blue.offset.toNat))) := by
  simp only [pack, BitVec.getLsbD_or, getLsbD_chanToField h.red, getLsbD_chanToField h.green,
    getLsbD_chanToField h.blue]

theorem fieldBits_eq {val chan : BitVec 32} {bf : FbBitfield}
    (h : ∀ i, bf.Covers i →
      val.getLsbD i = chan.getLsbD (16 - bf.length.toNat + (i - bf.offset.toNat))) :
    fieldBits val bf = topBits chan bf := by
  apply BitVec.eq_of_getLsbD_eq
  intro i hi
  have hcovers : bf.Covers (bf.offset.toNat + i) := ⟨by omega, by omega⟩
  rw [fieldBits, topBits, BitVec.getLsbD_extractLsb', BitVec.getLsbD_extractLsb', h _ hcovers,
    Nat.add_sub_cancel_left]

/-- No channel leaks into the field of another, for the fields are disjoint. -/
theorem pack_packed {var : FbVarScreeninfo} (h : var.Layout) (red green blue : BitVec 32) :
    Packed red green blue var (pack red green blue var) where
  red := fieldBits_eq fun i hi => by
    have hgreen : ¬ var.green.Covers i := fun hg => h.red_green i ⟨hi, hg⟩
    have hblue : ¬ var.blue.Covers i := fun hb => h.red_blue i ⟨hi, hb⟩
    simp [getLsbD_pack h, hi, hgreen, hblue]
  green := fieldBits_eq fun i hi => by
    have hred : ¬ var.red.Covers i := fun hr => h.red_green i ⟨hr, hi⟩
    have hblue : ¬ var.blue.Covers i := fun hb => h.green_blue i ⟨hi, hb⟩
    simp [getLsbD_pack h, hi, hred, hblue]
  blue := fieldBits_eq fun i hi => by
    have hred : ¬ var.red.Covers i := fun hr => h.red_blue i ⟨hr, hi⟩
    have hgreen : ¬ var.green.Covers i := fun hg => h.green_blue i ⟨hg, hi⟩
    simp [getLsbD_pack h, hi, hred, hgreen]
  rest := fun i hred hgreen hblue => by simp [getLsbD_pack h, hred, hgreen, hblue]

/-! ### One call -/

variable {mem mem' : Words} {c : SetCall} {ret : Int}

theorem setcolreg_accepted (hregno : c.regno.toNat ≤ 16) (mem : Words) :
    setcolreg mem c =
      (0, Function.update mem c.regno.toNat (pack c.red c.green c.blue c.var)) := by
  have hnot : ¬ c.regno > 16 := by
    rw [gt_iff_lt, BitVec.lt_def]
    exact Nat.not_lt.mpr hregno
  rw [setcolreg, s3cLcdfbSetcolreg, if_neg hnot]

theorem setcolreg_refused (hregno : 16 < c.regno.toNat) (mem : Words) :
    setcolreg mem c = (1, mem) := by
  have hgt : c.regno > 16 := by
    rw [gt_iff_lt, BitVec.lt_def]
    exact hregno
  rw [setcolreg, s3cLcdfbSetcolreg, if_pos hgt]

/-- For every layout of fields, entry and channels: the entry holds the packed colour, and
    every other word is what it was. -/
theorem setcolreg_packs (mem : Words) (c : SetCall) (hlayout : c.var.Layout)
    (hregno : c.regno.toNat < 16) :
    (setcolreg mem c).1 = 0 ∧
      Packed c.red c.green c.blue c.var ((setcolreg mem c).2 c.regno.toNat) ∧
      ∀ r, r ≠ c.regno.toNat → (setcolreg mem c).2 r = mem r := by
  rw [setcolreg_accepted (Nat.le_of_lt hregno)]
  refine ⟨rfl, ?_, fun r hr => Function.update_of_ne hr _ _⟩
  simp only [Function.update_self]
  exact pack_packed hlayout c.red c.green c.blue

theorem mylcdVar_layout : mylcdVar.Layout where
  red := ⟨by decide, by decide, by decide⟩
  green := ⟨by decide, by decide, by decide⟩
  blue := ⟨by decide, by decide, by decide⟩
  red_green := by simp [mylcdVar, FbBitfield.Covers]; omega
  red_blue := by simp [mylcdVar, FbBitfield.Covers]; omega
  green_blue := by simp [mylcdVar, FbBitfield.Covers]; omega

/-- A colour in 5:6:5. -/
theorem setcolreg_packs_565 :
    (setcolreg (fun _ => 0) ⟨3, 0xffff, 0x8000, 0x1234, mylcdVar⟩).1 = 0 ∧
      Packed 0xffff 0x8000 0x1234 mylcdVar
        ((setcolreg (fun _ => 0) ⟨3, 0xffff, 0x8000, 0x1234, mylcdVar⟩).2 3) := by
  obtain ⟨hret, hpacked, -⟩ := setcolreg_packs (fun _ => 0)
    ⟨3, 0xffff, 0x8000, 0x1234, mylcdVar⟩ mylcdVar_layout (by decide)
  exact ⟨hret, hpacked⟩

/-! ### Sequences of calls -/

/-- The law for one call: it is refused and changes no word, or it is accepted and changes
    one entry of the palette and no other word. -/
def InPalette (mem : Words) (c : SetCall) : Prop :=
  ((setcolreg mem c).1 ≠ 0 ∧ (setcolreg mem c).2 = mem) ∨
    ((setcolreg mem c).1 = 0 ∧ c.regno.toNat < paletteSize ∧
      (setcolreg mem c).2 =
        Function.update mem c.regno.toNat (pack c.red c.green c.blue c.var))

/-- The call is accepted, which does not depend on the words, and is for the entry `r`. -/
def SetCall.sets (c : SetCall) (r : Nat) : Bool :=
  (setcolreg (fun _ => 0) c).1 = 0 && c.regno.toNat = r

/-- The last accepted call for the entry `r`. -/
def lastAccepted (r : Nat) (calls : List SetCall) : Option SetCall :=
  calls.reverse.find? (·.sets r)

/-- What the entry `r` should hold behind the calls. -/
def lastPacked (mem : Words) (r : Nat) (calls : List SetCall) : BitVec 32 :=
  match lastAccepted r calls with
  | some c => pack c.red c.green c.blue c.var
  | none => mem r

/-- The law for a sequence of calls. -/
structure StaysInPalette (mem : Words) (calls : List SetCall) : Prop where
  each : Run.Guarded (fun mem c => (setcolreg mem c).2) InPalette mem calls
  entries : ∀ r < paletteSize, run mem calls r = lastPacked mem r calls
  behind : ∀ r ≥ paletteSize, run mem calls r = mem r

theorem inPalette_iff (mem : Words) (c : SetCall) : InPalette mem c ↔ c.regno ≠ 16 := by
  have hne : c.regno ≠ 16 ↔ c.regno.toNat ≠ 16 := by
    rw [Ne, BitVec.toNat_eq]
    rfl
  rw [hne, InPalette, paletteSize]
  by_cases hregno : c.regno.toNat ≤ 16
  · rw [setcolreg_accepted hregno]
    simp
    omega
  · rw [setcolreg_refused (by omega)]
    simp
    omega

/-- One more call behind the others. -/
theorem run_append (mem : Words) (calls : List SetCall) (c : SetCall) :
    run mem (calls ++ [c]) = (setcolreg (run mem calls) c).2 := by
  rw [run, List.foldl_append]
  rfl

theorem sets_iff (c : SetCall) (r : Nat) :
    c.sets r = true ↔ c.regno.toNat ≤ 16 ∧ c.regno.toNat = r := by
  rw [SetCall.sets, Bool.and_eq_true, decide_eq_true_eq, decide_eq_true_eq]
  by_cases hregno : c.regno.toNat ≤ 16
  · rw [setcolreg_accepted hregno]
    simp [hregno]
  · rw [setcolreg_refused (by omega)]
    simp [hregno]

theorem lastPacked_append (mem : Words) (r : Nat) (calls : List SetCall) (c : SetCall) :
    lastPacked mem r (calls ++ [c]) =
      if c.sets r then pack c.red c.green c.blue c.var else lastPacked mem r calls := by
  rw [lastPacked, lastAccepted, List.reverse_append, List.reverse_singleton, List.singleton_append,
    List.find?_cons]
  cases hsets : c.sets r <;> rfl

/-- Every word, those behind the palette too, holds what the last accepted call put there. -/
theorem run_eq (mem : Words) (calls : List SetCall) (r : Nat) :
    run mem calls r = lastPacked mem r calls := by
  induction calls using List.reverseRecOn with
  | nil => rfl
  | append_singleton calls c ih =>
    rw [run_append, lastPacked_append]
    by_cases hregno : c.regno.toNat ≤ 16
    · rw [setcolreg_accepted hregno]
      by_cases heq : c.regno.toNat = r
      · rw [if_pos ((sets_iff c r).mpr ⟨hregno, heq⟩), ← heq]
        exact Function.update_self _ _ _
      · rw [if_neg fun h => heq ((sets_iff c r).mp h).2, ← ih]
        exact Function.update_of_ne (Ne.symm heq) _ _
    · rw [setcolreg_refused (by omega), if_neg fun h => hregno ((sets_iff c r).mp h).1]
      exact ih

/-- No call but one for the register number 16 sets a word behind the palette. -/
theorem run_behind {calls : List SetCall} (h : ∀ c ∈ calls, c.regno ≠ 16) (mem : Words) {r : Nat}
    (hr : r ≥ paletteSize) : run mem calls r = mem r := by
  rw [run_eq, lastPacked]
  have hnone : lastAccepted r calls = none := by
    rw [lastAccepted, List.find?_eq_none]
    intro c hc hsets
    obtain ⟨hle, heq⟩ := (sets_iff c r).mp hsets
    refine h c (List.mem_reverse.mp hc) (BitVec.eq_of_toNat_eq ?_)
    have hsize : paletteSize = 16 := rfl
    rw [show (16 : BitVec 32).toNat = 16 from rfl]
    omega
  rw [hnone]

/-- For every sequence of calls, with any register numbers, channels and fields: it stays in
    the palette iff no call is for the register number 16. -/
theorem palette_iff (mem : Words) (calls : List SetCall) :
    StaysInPalette mem calls ↔ ∀ c ∈ calls, c.regno ≠ 16 := by
  constructor
  · intro h
    exact (Run.guarded_iff_forall inPalette_iff).mp h.each
  · intro h
    exact ⟨(Run.guarded_iff_forall inPalette_iff).mpr h, fun r _ => run_eq mem calls r,
      fun r hr => run_behind h mem hr⟩

/-- The word behind the last entry is overwritten. -/
theorem palette_fails_16 : ¬ ∀ mem calls, StaysInPalette mem calls := by
  intro h
  have hbehind := (h (fun _ => 0) [⟨16, 0xffff, 0, 0, mylcdVar⟩]).behind 16 (by decide)
  exact absurd hbehind (by decide)

end Lcd2440fb
