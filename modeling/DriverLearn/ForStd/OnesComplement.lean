import Mathlib.Algebra.Ring.GeomSum
import Mathlib.Data.BitVec
import Mathlib.Data.Nat.ModEq
import Mathlib.Tactic.Common

/-!
# Ones' complement sums

Addition with end-around carry of words of `w` bits. A word stands for the natural numbers
that are congruent to it modulo `2 ^ w - 1`, where the two zeros of ones' complement are
kept apart: the word 0 stands for the number 0 only (`Represents`). What is known of a sum
follows from the number that its terms add up to.

## Key results

- `Represents.unique`: a number is represented by one word
- `sum_represents`: a sum represents the sum of its terms
- `fold_sum_pairUp`: a sum of double words, folded, is the sum of their halves
- `sum_eq_allOnes`: with the complement of its sum a list adds up to all ones
-/

namespace OnesComplement

variable {w : Nat}

/-- Addition with end-around carry. -/
def add (x y : BitVec w) : BitVec w :=
  if x.toNat + y.toNat < 2 ^ w then x + y else x + y + 1#w

/-- The sum of a list of words. -/
def sum (xs : List (BitVec w)) : BitVec w := xs.foldl add 0

/-- Two words each make a double word, the low one first. -/
def pairUp : List (BitVec w) → List (BitVec (w + w))
  | [] | [_] => []
  | lo :: hi :: rest => (hi ++ lo) :: pairUp rest

/-- The sum of the two halves of a double word. -/
def fold (x : BitVec (w + w)) : BitVec w := add (x.setWidth w) ((x >>> w).setWidth w)

/-- The number that the terms add up to. -/
def total (xs : List (BitVec w)) : Nat := (xs.map BitVec.toNat).sum

/-- Nothing adds up to 0. -/
@[simp] theorem total_nil : total ([] : List (BitVec w)) = 0 := rfl

/-- The total with one word more. -/
@[simp] theorem total_cons (x : BitVec w) (xs : List (BitVec w)) :
    total (x :: xs) = x.toNat + total xs := by
  rw [total, List.map_cons, List.sum_cons, total]

/-- The total of two lists. -/
theorem total_append (xs ys : List (BitVec w)) : total (xs ++ ys) = total xs + total ys := by
  rw [total, List.map_append, List.sum_append, total, total]

/-- The word stands for the number. -/
structure Represents (x : BitVec w) (n : Nat) : Prop where
  modEq : x.toNat ≡ n [MOD 2 ^ w - 1]
  zero_iff : x.toNat = 0 ↔ n = 0

/-! ### Words and numbers -/

/-- A word stands for its own value. -/
theorem represents_toNat (x : BitVec w) : Represents x x.toNat := ⟨rfl, Iff.rfl⟩

/-- A word stands for all numbers of a residue class, but for 0. -/
theorem Represents.congr {x : BitVec w} {n m : Nat} (h : Represents x n)
    (hmod : n ≡ m [MOD 2 ^ w - 1]) (hzero : n = 0 ↔ m = 0) : Represents x m :=
  ⟨h.modEq.trans hmod, h.zero_iff.trans hzero⟩

/-- Only one word stands for a number. -/
theorem Represents.unique {x y : BitVec w} {n : Nat} (hx : Represents x n)
    (hy : Represents y n) : x = y := by
  have hmod : x.toNat ≡ y.toNat [MOD 2 ^ w - 1] := hx.modEq.trans hy.modEq.symm
  have hzero : x.toNat = 0 ↔ y.toNat = 0 := hx.zero_iff.trans hy.zero_iff.symm
  have hltx := x.isLt
  have hlty := y.isLt
  apply BitVec.eq_of_toNat_eq
  by_cases h0 : x.toNat = 0
  · rw [h0, hzero.mp h0]
  -- two words from 1 to the modulus that are congruent are equal
  · have h0' : ¬ y.toNat = 0 := fun h => h0 (hzero.mpr h)
    have hpred : x.toNat - 1 ≡ y.toNat - 1 [MOD 2 ^ w - 1] := by
      apply Nat.ModEq.add_right_cancel' 1
      rwa [Nat.sub_add_cancel (by omega), Nat.sub_add_cancel (by omega)]
    have heq := hpred.eq_of_lt_of_lt (by omega) (by omega)
    omega

/-- A carry is worth one, as `2 ^ w` is congruent to one. -/
theorem toNat_add (x y : BitVec w) :
    (add x y).toNat + (if x.toNat + y.toNat < 2 ^ w then 0 else 2 ^ w - 1) =
      x.toNat + y.toNat := by
  have hltx := x.isLt
  have hlty := y.isLt
  rw [add]
  by_cases hlt : x.toNat + y.toNat < 2 ^ w
  · rw [if_pos hlt, if_pos hlt, BitVec.toNat_add, Nat.mod_eq_of_lt hlt, Nat.add_zero]
  · rw [if_neg hlt, if_neg hlt]
    have hwrap : (x + y).toNat = x.toNat + y.toNat - 2 ^ w := by
      rw [BitVec.toNat_add, Nat.mod_eq_sub_mod (by omega), Nat.mod_eq_of_lt (by omega)]
    by_cases hw : w = 0
    · subst hw
      omega
    have hone : 1 < 2 ^ w := Nat.one_lt_two_pow hw
    rw [BitVec.toNat_add, hwrap, BitVec.toNat_one (Nat.pos_of_ne_zero hw),
      Nat.mod_eq_of_lt (by omega)]
    omega

/-- The end-around sum stands for the sum. -/
theorem add_represents {x y : BitVec w} {n m : Nat} (hx : Represents x n)
    (hy : Represents y m) : Represents (add x y) (n + m) := by
  have hadd := toNat_add x y
  have hpos := Nat.two_pow_pos w
  constructor
  · apply Nat.ModEq.trans _ (hx.modEq.add hy.modEq)
    rw [← hadd]
    by_cases hlt : x.toNat + y.toNat < 2 ^ w
    · rw [if_pos hlt, Nat.add_zero]
    · rw [if_neg hlt]
      exact Nat.add_modEq_right.symm
  · have hzx := hx.zero_iff
    have hzy := hy.zero_iff
    by_cases hlt : x.toNat + y.toNat < 2 ^ w
    · rw [if_pos hlt] at hadd
      omega
    · rw [if_neg hlt] at hadd
      omega

/-- So does the sum of many words. -/
theorem foldl_represents {acc : BitVec w} {n : Nat} (h : Represents acc n)
    (xs : List (BitVec w)) :
    Represents (xs.foldl add acc) (n + total xs) := by
  induction xs generalizing acc n with
  | nil => exact h
  | cons x xs ih =>
    rw [List.foldl_cons, total_cons, ← Nat.add_assoc]
    exact ih (add_represents h (represents_toNat x))

/-- A sum represents the sum of its terms. -/
theorem sum_represents (xs : List (BitVec w)) : Represents (sum xs) (total xs) := by
  have h := foldl_represents (represents_toNat (0 : BitVec w)) xs
  rwa [BitVec.ofNat_eq_ofNat, BitVec.toNat_ofNat, Nat.zero_mod, Nat.zero_add] at h

/-! ### Double words -/

/-- Half as many words as there were bytes. -/
theorem length_pairUp (xs : List (BitVec w)) : (pairUp xs).length = xs.length / 2 := by
  fun_induction pairUp xs with
  | case1 => simp
  | case2 x => simp
  | case3 lo hi rest ih => rw [List.length_cons, ih, List.length_cons, List.length_cons]; omega

/-- An even part is paired on its own. -/
theorem pairUp_append (xs ys : List (BitVec w)) (heven : xs.length % 2 = 0) :
    pairUp (xs ++ ys) = pairUp xs ++ pairUp ys := by
  fun_induction pairUp xs with
  | case1 => rfl
  | case2 x => simp at heven
  | case3 lo hi rest ih =>
    rw [List.length_cons, List.length_cons] at heven
    rw [List.cons_append, List.cons_append, List.cons_append, pairUp, ih (by omega)]

/-- A high half counts `2 ^ w` times: once, and a multiple of the modulus. -/
theorem total_pairUp (xs : List (BitVec w)) (heven : xs.length % 2 = 0) :
    ∃ k ≤ total xs, total (pairUp xs) = total xs + k * (2 ^ w - 1) := by
  fun_induction pairUp xs with
  | case1 => exact ⟨0, Nat.le_refl 0, by simp⟩
  | case2 x => simp at heven
  | case3 lo hi rest ih =>
    rw [List.length_cons, List.length_cons] at heven
    obtain ⟨k, hk, hsum⟩ := ih (by omega)
    have hword : (hi ++ lo).toNat = lo.toNat + hi.toNat + hi.toNat * (2 ^ w - 1) := by
      have hpos := Nat.two_pow_pos w
      have hlow := lo.isLt
      rw [BitVec.toNat_append, ← Nat.shiftLeft_add_eq_or_of_lt hlow, Nat.shiftLeft_eq,
        Nat.mul_sub_one]
      have hle : hi.toNat ≤ hi.toNat * 2 ^ w := Nat.le_mul_of_pos_right _ hpos
      omega
    simp only [total_cons]
    refine ⟨hi.toNat + k, by omega, ?_⟩
    rw [hsum, hword, Nat.add_mul]
    omega

/-- Folding the upper half in does not change what a word stands for. -/
theorem fold_represents {x : BitVec (w + w)} {n : Nat} (h : Represents x n) :
    Represents (fold x) n := by
  have hpos := Nat.two_pow_pos w
  have hdvd : 2 ^ w - 1 ∣ 2 ^ (w + w) - 1 :=
    Nat.pow_sub_one_dvd_pow_sub_one 2 (Dvd.intro_left 2 (Nat.two_mul w))
  have hhalves := add_represents (represents_toNat (x.setWidth w))
    (represents_toNat ((x >>> w).setWidth w))
  have hhigh : ((x >>> w).setWidth w).toNat = x.toNat / 2 ^ w := by
    rw [BitVec.toNat_setWidth, BitVec.toNat_ushiftRight, Nat.shiftRight_eq_div_pow]
    apply Nat.mod_eq_of_lt
    apply Nat.div_lt_of_lt_mul
    rw [← Nat.pow_add]
    exact x.isLt
  rw [BitVec.toNat_setWidth, hhigh] at hhalves
  have hsplit := Nat.mod_add_div x.toNat (2 ^ w)
  have hzero := h.zero_iff
  apply hhalves.congr
  · calc x.toNat % 2 ^ w + x.toNat / 2 ^ w
        ≡ x.toNat % 2 ^ w + x.toNat / 2 ^ w + (2 ^ w - 1) * (x.toNat / 2 ^ w)
            [MOD 2 ^ w - 1] := by
          rw [Nat.ModEq, Nat.add_mul_mod_self_left]
      _ = x.toNat := by
          rw [Nat.add_assoc, Nat.sub_one_mul,
            Nat.add_sub_of_le (Nat.le_mul_of_pos_left _ hpos), hsplit]
      _ ≡ n [MOD 2 ^ w - 1] := h.modEq.of_dvd hdvd
  · rw [← hzero, ← hsplit, Nat.add_eq_zero_iff, Nat.add_eq_zero_iff, Nat.mul_eq_zero]
    simp only [hpos.ne', false_or, hsplit]

/-- A sum of double words is the sum of their halves. -/
theorem fold_sum_pairUp (xs : List (BitVec w)) (heven : xs.length % 2 = 0) :
    fold (sum (pairUp xs)) = sum xs := by
  have hwords := fold_represents (sum_represents (pairUp xs))
  obtain ⟨k, hk, hsum⟩ := total_pairUp xs heven
  rw [hsum] at hwords
  apply Represents.unique _ (sum_represents xs)
  apply hwords.congr
  · rw [Nat.ModEq, Nat.add_mul_mod_self_right]
  · constructor
    · omega
    · intro h
      rw [h] at hk
      rw [h, Nat.le_zero.mp hk, Nat.zero_mul]

/-! ### The complement -/

/-- With the complement of its sum a list adds up to all ones. -/
theorem sum_eq_allOnes {xs : List (BitVec w)} {s : BitVec w} {n : Nat} (hw : 0 < w)
    (hs : Represents s n) (htotal : total xs = n + (~~~ s).toNat) :
    sum xs = BitVec.allOnes w := by
  have hone := Nat.one_lt_two_pow hw.ne'
  have hlt := s.isLt
  have hzero := hs.zero_iff
  have hcompl : s.toNat + (~~~ s).toNat = 2 ^ w - 1 := by
    rw [BitVec.toNat_not]
    omega
  apply Represents.unique (sum_represents xs)
  rw [htotal]
  apply (represents_toNat (BitVec.allOnes w)).congr
  · have hmod := hs.modEq.add_right (~~~ s).toNat
    rwa [hcompl, ← BitVec.toNat_allOnes] at hmod
  · rw [BitVec.toNat_allOnes]
    omega

end OnesComplement
