import Mathlib.Data.BitVec
import Mathlib.Tactic.Common

/-!
# Framebuffer palette

Model of `chan_to_field` and `s3c_lcdfb_setcolreg` of `lcd_2440fb.c`. The palette is memory
of 32-bit words from `pseudo_palette` on: the words with an index below 16 are its entries,
and the others are what lies behind it. The parameter `transp`, which the function does not
read, is left out, and so is all of `fb_info` but the three bitfields of `var`. A shift by
32 or more, which C leaves undefined, gives 0.
-/

namespace Lcd2440fb

/-- `struct fb_bitfield`, without `msb_right`. -/
structure FbBitfield where
  offset : BitVec 32
  length : BitVec 32

/-- The fields of `struct fb_var_screeninfo` that a colour is packed into. -/
structure FbVarScreeninfo where
  red : FbBitfield
  green : FbBitfield
  blue : FbBitfield

/-- The fields `mylcd_init` sets. -/
def mylcdVar : FbVarScreeninfo where
  red := ⟨11, 5⟩
  green := ⟨5, 6⟩
  blue := ⟨0, 5⟩

/-- `pseudo_palette` and the words behind it. -/
abbrev Words := Nat → BitVec 32

/-- `static u32 pseudo_palette[16]` -/
def paletteSize : Nat := 16

def chanToField (chan : BitVec 32) (bf : FbBitfield) : BitVec 32 :=
  let chan := chan &&& 0xffff
  let chan := chan >>> (16 - bf.length)
  chan <<< bf.offset

/-- The value a colour is packed to. -/
def pack (red green blue : BitVec 32) (var : FbVarScreeninfo) : BitVec 32 :=
  let val := chanToField red var.red
  let val := val ||| chanToField green var.green
  val ||| chanToField blue var.blue

/-- The return value and the words behind the call. -/
def s3cLcdfbSetcolreg (regno red green blue : BitVec 32) (var : FbVarScreeninfo)
    (mem : Words) : Int × Words :=
  if regno > 16 then
    (1, mem)
  else
    (0, Function.update mem regno.toNat (pack red green blue var))

/-- The arguments of a call, with the `var` of the `fb_info` it is given. -/
structure SetCall where
  regno : BitVec 32
  red : BitVec 32
  green : BitVec 32
  blue : BitVec 32
  var : FbVarScreeninfo

def setcolreg (mem : Words) (c : SetCall) : Int × Words :=
  s3cLcdfbSetcolreg c.regno c.red c.green c.blue c.var mem

/-- Calls made one after the other. -/
def run (mem : Words) (calls : List SetCall) : Words :=
  calls.foldl (fun mem c => (setcolreg mem c).2) mem

end Lcd2440fb
