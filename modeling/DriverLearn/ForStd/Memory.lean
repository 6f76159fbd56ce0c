import Mathlib.Data.List.Basic
import Mathlib.Tactic.Common

/-!
# Byte-addressed memory

A memory is a total function from addresses to cells. `writeBytes` stores a list of
cells from an address on and `readBytes` reads a range back. The lemmas say how the
two compose: a read of the written range, frames, and writes split at a byte.

Nothing here depends on what a cell is.
-/

namespace Memory

variable {α : Type*}

/-- Store the cells `bs` at the addresses `off, off + 1, ...`. -/
def writeBytes (m : Nat → α) (off : Nat) (bs : List α) : Nat → α :=
  fun a => if off ≤ a then (bs[a - off]?).getD (m a) else m a

/-- The `n` cells from the address `off` on. -/
def readBytes (m : Nat → α) (off n : Nat) : List α :=
  (List.range n).map fun i => m (off + i)

/-- As many elements are read as are asked for. -/
@[simp] theorem length_readBytes (m : Nat → α) (off n : Nat) :
    (readBytes m off n).length = n := by
  simp [readBytes]

/-- Nothing is read of length 0. -/
@[simp] theorem readBytes_zero (m : Nat → α) (off : Nat) : readBytes m off 0 = [] := rfl

/-- The element read at place `i`. -/
theorem getElem?_readBytes (m : Nat → α) (off n i : Nat) (hi : i < n) :
    (readBytes m off n)[i]? = some (m (off + i)) := by
  simp [readBytes, List.getElem?_range hi]

/-! ### Writes and frames -/

/-- Writing nothing changes nothing. -/
@[simp] theorem writeBytes_nil (m : Nat → α) (off : Nat) : writeBytes m off [] = m := by
  funext a
  simp [writeBytes]

/-- A cell inside the written range holds the written value. -/
theorem writeBytes_of_mem (m : Nat → α) (off : Nat) (bs : List α) (i : Nat)
    (hi : i < bs.length) : writeBytes m off bs (off + i) = bs[i] := by
  simp [writeBytes, List.getElem?_eq_getElem hi]

/-- A cell outside the written range keeps its value. -/
theorem writeBytes_frame (m : Nat → α) (off : Nat) (bs : List α) (a : Nat)
    (ha : a < off ∨ off + bs.length ≤ a) : writeBytes m off bs a = m a := by
  unfold writeBytes
  split
  · rw [List.getElem?_eq_none (by omega)]
    rfl
  · rfl

/-- Writing `xs ++ ys` writes `xs`, then `ys` right behind it. -/
theorem writeBytes_append (m : Nat → α) (off : Nat) (xs ys : List α) :
    writeBytes m off (xs ++ ys) = writeBytes (writeBytes m off xs) (off + xs.length) ys := by
  funext a
  simp only [writeBytes]
  by_cases hlt : a < off
  · simp [show ¬ off ≤ a by omega, show ¬ off + xs.length ≤ a by omega]
  · by_cases hin : a - off < xs.length
    · simp [show off ≤ a by omega, show ¬ off + xs.length ≤ a by omega,
        List.getElem?_append_left hin, List.getElem?_eq_getElem hin]
    · have hsub : a - (off + xs.length) = a - off - xs.length := by omega
      have hnone : xs[a - off]? = none := List.getElem?_eq_none (by omega)
      simp [show off ≤ a by omega, show off + xs.length ≤ a by omega,
        List.getElem?_append_right (Nat.le_of_not_lt hin), hsub, hnone]

/-- Writing one cell is a function update. -/
theorem writeBytes_singleton (m : Nat → α) (off : Nat) (b : α) :
    writeBytes m off [b] = Function.update m off b := by
  funext a
  by_cases ha : a = off
  · subst ha
    simp [writeBytes]
  · rw [Function.update_of_ne ha, writeBytes_frame m off [b] a (by simp; omega)]

/-! ### Reads -/

/-- Reading a range that was just written gives the written cells. -/
theorem readBytes_writeBytes (m : Nat → α) (off : Nat) (bs : List α) :
    readBytes (writeBytes m off bs) off bs.length = bs := by
  apply List.ext_getElem (by simp)
  intro i h1 h2
  have hread := getElem?_readBytes (writeBytes m off bs) off bs.length i h2
  rw [writeBytes_of_mem m off bs i h2, List.getElem?_eq_getElem h1] at hread
  exact Option.some.inj hread

/-- The first element apart. -/
theorem readBytes_succ (m : Nat → α) (off n : Nat) :
    readBytes m off (n + 1) = m off :: readBytes m (off + 1) n := by
  simp [readBytes, List.range_succ_eq_map, Function.comp_def, Nat.add_assoc, Nat.add_comm 1]

/-- A read of `n + k` cells is a read of `n` cells followed by one of `k` cells. -/
theorem readBytes_add (m : Nat → α) (off n k : Nat) :
    readBytes m off (n + k) = readBytes m off n ++ readBytes m (off + n) k := by
  simp [readBytes, List.range_add, Nat.add_assoc, Function.comp_def]

/-- What is read depends on the cells of the block only. -/
theorem readBytes_congr {m m' : Nat → α} {off n : Nat}
    (h : ∀ a, off ≤ a → a < off + n → m a = m' a) : readBytes m off n = readBytes m' off n := by
  apply List.map_congr_left
  intro i hi
  exact h (off + i) (Nat.le_add_right off i) (by simpa using hi)

/-- A block away from what was written is the same. -/
theorem readBytes_writeBytes_frame (m : Nat → α) {off n a : Nat} {bs : List α}
    (h : off + n ≤ a ∨ a + bs.length ≤ off) :
    readBytes (writeBytes m a bs) off n = readBytes m off n :=
  readBytes_congr fun x _ _ => writeBytes_frame m a bs x (by omega)

/-- A part of a range that was read. -/
theorem take_drop_readBytes (m : Nat → α) (off : Nat) {n i k : Nat} (h : i + k ≤ n) :
    ((readBytes m off n).drop i).take k = readBytes m (off + i) k := by
  obtain ⟨r, rfl⟩ := Nat.exists_eq_add_of_le h
  rw [Nat.add_assoc, readBytes_add, readBytes_add, List.drop_left' (length_readBytes m off i),
    List.take_left' (length_readBytes m _ k)]

/-! ### Exchanges -/

/-- The ranges of `n` cells from `a` and from `b` on change places. -/
def exchange (m : Nat → α) (a b n : Nat) : Nat → α :=
  writeBytes (writeBytes m a (readBytes m b n)) b (readBytes m a n)

/-- The second block has what was in the first. -/
theorem readBytes_exchange_right (m : Nat → α) (a b n : Nat) :
    readBytes (exchange m a b n) b n = readBytes m a n := by
  have h := readBytes_writeBytes (writeBytes m a (readBytes m b n)) b (readBytes m a n)
  rwa [length_readBytes] at h

/-- The first block has what was in the second, if they do not overlap. -/
theorem readBytes_exchange_left (m : Nat → α) {a b n : Nat} (h : a + n ≤ b) :
    readBytes (exchange m a b n) a n = readBytes m b n := by
  have hleft := readBytes_writeBytes m a (readBytes m b n)
  rw [length_readBytes] at hleft
  rw [← hleft]
  apply readBytes_congr
  intro x _ hx
  rw [exchange, writeBytes_frame _ _ _ _ (.inl (by omega))]

/-- A cell outside both blocks keeps its content. -/
theorem exchange_frame (m : Nat → α) {a b n x : Nat} (ha : x < a ∨ a + n ≤ x)
    (hb : x < b ∨ b + n ≤ x) : exchange m a b n x = m x := by
  rw [exchange, writeBytes_frame, writeBytes_frame]
  · rwa [length_readBytes]
  · rwa [length_readBytes]

/-- A block outside both keeps its content. -/
theorem readBytes_exchange_frame (m : Nat → α) {a b n off k : Nat}
    (ha : off + k ≤ a ∨ a + n ≤ off) (hb : off + k ≤ b ∨ b + n ≤ off) :
    readBytes (exchange m a b n) off k = readBytes m off k :=
  readBytes_congr fun _ _ _ => exchange_frame m (by omega) (by omega)

end Memory
