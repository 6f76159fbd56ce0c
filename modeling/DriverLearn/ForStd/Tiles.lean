import Mathlib.Data.List.Basic
import Mathlib.Tactic.Common

/-!
# Ranges in order

A range is a start and a length. `Tiles p n ranges` says that the ranges, in their order,
make up `[p, p + n)`: each starts where the one before ends, and none is empty.
-/

/-- The ranges tile the `n` points from `p` on, from left to right. -/
def Tiles : (p n : Nat) → (ranges : List (Nat × Nat)) → Prop
  | _, n, [] => n = 0
  | p, n, (a, k) :: rest => a = p ∧ 1 ≤ k ∧ k ≤ n ∧ Tiles (p + k) (n - k) rest

namespace Tiles

/-- There are no more ranges than points. -/
theorem length_le {p n : Nat} {ranges : List (Nat × Nat)} (h : Tiles p n ranges) :
    ranges.length ≤ n := by
  induction ranges generalizing p n with
  | nil => simp
  | cons r rest ih =>
    obtain ⟨-, hpos, hle, htail⟩ := h
    have hrest := ih htail
    rw [List.length_cons]
    omega

end Tiles
