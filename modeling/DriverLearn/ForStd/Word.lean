import Mathlib.Data.BitVec
import Mathlib.Tactic.Common

/-!
# C integers of a 32-bit machine

Unsigned words are natural numbers below `2 ^ 32` and signed ones are integers. The
conversions below are the C conversions between them. Device registers are bit
vectors; `Word.has` is the C test `w & m` of a one-bit mask.
-/

/-- The eight bits of a `char`. -/
abbrev Byte := BitVec 8

namespace Word

/-- Conversion of an integer to a 32-bit unsigned type. -/
def toU32 (n : Int) : Nat := (n % 4294967296).toNat

/-- Conversion of a 32-bit unsigned value to the signed type of the same width. -/
def toS32 (n : Nat) : Int := if n < 2147483648 then n else n - 4294967296

/-- An `unsigned int` is below `2 ^ 32`. -/
theorem toU32_lt (n : Int) : toU32 n < 4294967296 := by
  unfold toU32; omega

/-- Small numbers are themselves as `unsigned int`. -/
theorem toU32_of_lt {n : Nat} (h : n < 4294967296) : toU32 n = n := by
  unfold toU32; omega

/-- Small numbers are themselves as `int`. -/
theorem toS32_of_lt {n : Nat} (h : n < 2147483648) : toS32 n = n := by
  simp [toS32, h]

/-- A negative `int` comes back from an `unsigned int`. -/
theorem toS32_toU32_neg {n : Int} (hlo : -2147483648 ≤ n) (hneg : n < 0) :
    toS32 (toU32 n) = n := by
  unfold toS32 toU32
  split <;> omega

/-- Truncating division leaves less than the divisor, on either side of 0. -/
theorem tdiv_mul_close (n : Int) (d : Nat) (hd : 0 < d) :
    n - d < n.tdiv d * d ∧ n.tdiv d * d < n + d := by
  have hdiv := Int.tdiv_mul_add_tmod n d
  have hlt := Int.tmod_lt_of_pos n (show (0 : Int) < d by omega)
  have hgt := Int.lt_tmod_of_pos n (show (0 : Int) < d by omega)
  omega

/-- Truncating division does not pass 0. -/
theorem tdiv_mul_nonneg (n : Int) (d : Nat) (hn : 0 ≤ n) :
    0 ≤ n.tdiv d * d ∧ n.tdiv d * d ≤ n := by
  have hdiv := Int.tdiv_mul_add_tmod n d
  have hmod := Int.tmod_nonneg d hn
  have hquot := Int.mul_nonneg (Int.tdiv_nonneg hn (Int.natCast_nonneg d)) (Int.natCast_nonneg d)
  omega

/-- Division towards 0 goes up for negative numbers. -/
theorem tdiv_mul_nonpos (n : Int) (d : Nat) (hn : n ≤ 0) :
    n ≤ n.tdiv d * d ∧ n.tdiv d * d ≤ 0 := by
  have hneg := tdiv_mul_nonneg (-n) d (by omega)
  rw [Int.neg_tdiv, Int.neg_mul] at hneg
  omega

/-- Division towards 0 of what is smaller than the divisor. -/
theorem tdiv_eq_zero {n : Int} {d : Nat} (hlo : -d < n) (hhi : n < d) : n.tdiv d = 0 := by
  by_cases hn : 0 ≤ n
  · exact Int.tdiv_eq_zero_of_lt hn hhi
  · rw [← Int.neg_eq_zero, ← Int.neg_tdiv]
    exact Int.tdiv_eq_zero_of_lt (by omega) (by omega)

/-! ### Register bits -/

variable {w : Nat}

/-- The C condition `x & m`. -/
def has (x m : BitVec w) : Bool := x &&& m != 0#w

/-- A bit that was cleared is clear. -/
@[simp] theorem has_clear_self (x m : BitVec w) : has (x &&& ~~~m) m = false := by
  simp [has, BitVec.and_assoc]

/-- Clearing the bits `m` leaves a disjoint mask alone. -/
theorem has_clear_of_disjoint (x : BitVec w) {m k : BitVec w} (h : ~~~m &&& k = k) :
    has (x &&& ~~~m) k = has x k := by
  simp [has, BitVec.and_assoc, h]

/-- Setting the bits `m` sets every mask inside `m`. -/
theorem has_set_self (x : BitVec w) {m : BitVec w} (h : m ≠ 0#w) : has (x ||| m) m = true := by
  have hm : (x ||| m) &&& m = m := by
    ext i
    simp
    cases m[i] <;> simp
  simp [has, hm, h]

/-- Setting the bits `m` leaves a disjoint mask alone. -/
theorem has_set_of_disjoint (x : BitVec w) {m k : BitVec w} (h : m &&& k = 0#w) :
    has (x ||| m) k = has x k := by
  have hk : (x ||| m) &&& k = x &&& k := by
    rw [BitVec.and_comm, BitVec.and_or_distrib_left, BitVec.and_comm k m, h, BitVec.or_zero,
      BitVec.and_comm]
  simp [has, hk]

/-- A register of which the bits `k` keep `x` and the others come from `y`. -/
theorem has_merge_kept (x y : BitVec w) {k m : BitVec w} (hk : k &&& m = m)
    (hrest : ~~~k &&& m = 0#w) : has (x &&& k ||| y &&& ~~~k) m = has x m := by
  rw [has, has, BitVec.and_comm _ m, BitVec.and_or_distrib_left, BitVec.and_comm m (x &&& k),
    BitVec.and_comm m (y &&& ~~~k), BitVec.and_assoc, BitVec.and_assoc, hk, hrest,
    BitVec.and_zero, BitVec.or_zero]

/-- A bit taken from the second word. -/
theorem has_merge_new (x y : BitVec w) {k m : BitVec w} (hk : k &&& m = 0#w)
    (hrest : ~~~k &&& m = m) : has (x &&& k ||| y &&& ~~~k) m = has y m := by
  rw [has, has, BitVec.and_comm _ m, BitVec.and_or_distrib_left, BitVec.and_comm m (x &&& k),
    BitVec.and_comm m (y &&& ~~~k), BitVec.and_assoc, BitVec.and_assoc, hk, hrest,
    BitVec.and_zero, BitVec.zero_or]

/-- A mask of one bit. -/
theorem has_twoPow (x : BitVec w) {i : Nat} (hi : i < w) :
    has x (BitVec.twoPow w i) = x.getLsbD i := by
  have hne : BitVec.twoPow w i ≠ 0#w := by
    intro hzero
    have hbit := congrArg (BitVec.getLsbD · i) hzero
    simp [hi] at hbit
  rw [has, BitVec.and_twoPow]
  cases x.getLsbD i <;> simp [hne]

/-- A single bit of an exclusive or. -/
theorem has_xor_twoPow (x y : BitVec w) {i : Nat} (hi : i < w) :
    has (x ^^^ y) (BitVec.twoPow w i) =
      (has x (BitVec.twoPow w i) ^^ has y (BitVec.twoPow w i)) := by
  rw [has_twoPow _ hi, has_twoPow _ hi, has_twoPow _ hi, BitVec.getLsbD_xor]

end Word
