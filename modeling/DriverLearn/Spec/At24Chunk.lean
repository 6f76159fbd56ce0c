import DriverLearn.Native.At24cxx

/-!
# The chunks of an EEPROM read

The head of the loop body of `at24_read` rounds `addr + page_size` down to a page, in
`int` arithmetic, and clamps the length to the bytes left.

## Key results

- `readChunk_page`: below address `2 ^ 31` a chunk ends with its page
- `readChunk_le`: wherever it starts, a chunk is nonempty and within the bytes left
- `readChunk_inside`, `readChunk_wraps`: the same for every `count`, and where it fails
-/

namespace At24

open Word

/-- Rounding up to the next page boundary passes the address, by at most a page. -/
theorem lt_page_end (a ps : Nat) (hps : 0 < ps) :
    a < (a + ps) / ps * ps ∧ (a + ps) / ps * ps ≤ a + ps := by
  have hdiv := Nat.div_add_mod (a + ps) ps
  have hmod := Nat.mod_lt (a + ps) hps
  rw [Nat.mul_comm] at hdiv
  omega

theorem readChunk_addr (pageSize count p i : Nat) (hrange : p + i < 2147483648) :
    (readChunk pageSize count p i).1 = p + i := by
  change toU32 (p + toS32 i) = p + i
  rw [toS32_of_lt (by omega)]
  exact toU32_of_lt (n := p + i) (by omega)

/-- Below address `2 ^ 31` a chunk ends with the page or with the bytes asked for. -/
theorem readChunk_page (pageSize count p i : Nat) (hrange : p + count + pageSize < 2147483648)
    (hi : i < count) (hps : 0 < pageSize) :
    readChunk pageSize count p i =
      (p + i, min ((p + i + pageSize) / pageSize * pageSize - (p + i)) (count - i)) := by
  apply Prod.ext (readChunk_addr pageSize count p i (by omega))
  have haddr : toU32 (p + toS32 i) = p + i := readChunk_addr pageSize count p i (by omega)
  have hint : toS32 (toU32 (((p + i : Nat) : Int) + pageSize)) =
      ((p + i + pageSize : Nat) : Int) := by
    rw [← Int.natCast_add, toU32_of_lt (by omega), toS32_of_lt (by omega)]
  obtain ⟨hlo, hhi⟩ := lt_page_end (p + i) pageSize hps
  have hlen : toU32 ((toS32 (toU32 (((p + i : Nat) : Int) + pageSize))).tdiv pageSize * pageSize
      - ((p + i : Nat) : Int)) = (p + i + pageSize) / pageSize * pageSize - (p + i) := by
    rw [hint, ← Int.ofNat_tdiv, ← Int.natCast_mul]
    unfold toU32
    omega
  simp only [readChunk, haddr, hlen]
  generalize (p + i + pageSize) / pageSize * pageSize = e at hlo hhi
  unfold toU32
  split <;> omega

/-- Wherever the chunk starts, it is nonempty and stays within the bytes asked for. -/
theorem readChunk_le (pageSize count i : Nat) (fPos : Int) (hps : 0 < pageSize)
    (hps' : pageSize < 65536) (hi : i < count) (hcount : count ≤ 4294836224) :
    1 ≤ (readChunk pageSize count fPos i).2 ∧
      i + (readChunk pageSize count fPos i).2 ≤ count := by
  simp only [readChunk]
  have haddr := toU32_lt (fPos + toS32 i)
  generalize toU32 (fPos + toS32 i) = addr at haddr
  obtain ⟨hlo, hhi⟩ := tdiv_mul_close (toS32 (toU32 ((addr : Int) + pageSize))) pageSize hps
  generalize (toS32 (toU32 ((addr : Int) + pageSize))).tdiv pageSize * pageSize = e at hlo hhi
  -- the sum wraps at `2 ^ 31` or at `2 ^ 32`, and either way `e` is close to it
  have hlen : 1 ≤ toU32 (e - addr) ∧ toU32 (e - addr) < 2 * pageSize := by
    unfold toS32 toU32 at hlo hhi
    unfold toU32
    split at hlo <;> omega
  generalize toU32 (e - addr) = len at hlen
  unfold toU32
  split <;> omega

/-! ### Up to the end of the address space -/

/-- Before the clamp: the chunk is nonempty and ends at `2 ^ 32` at the latest, and there
    only from the last two pages. -/
theorem unclamped_end (pageSize a : Nat) (hps : 0 < pageSize) (hps' : pageSize < 65536)
    (ha : a < 4294967296) {len : Nat}
    (hlen : toU32 ((toS32 (toU32 (a + pageSize))).tdiv pageSize * pageSize - a) = len) :
    1 ≤ len ∧ a + len ≤ 4294967296 ∧ (a + len = 4294967296 ↔ 4294967296 < a + 2 * pageSize) := by
  obtain ⟨hlo, hhi⟩ := tdiv_mul_close (toS32 (toU32 ((a : Int) + pageSize))) pageSize hps
  generalize hn : toS32 (toU32 ((a : Int) + pageSize)) = n at *
  have hn' : (n = (a : Int) + pageSize ∨ n = a + pageSize - 4294967296) ∧
      -2147483648 ≤ n ∧ n < 2147483648 := by
    unfold toS32 toU32 at hn
    split at hn <;> omega
  -- `int` division rounds the two halves of the address space towards 0
  by_cases hsmall : -pageSize < n ∧ n < pageSize
  · rw [tdiv_eq_zero hsmall.1 hsmall.2] at hlen
    unfold toU32 at hlen
    omega
  · by_cases hneg : n < 0
    · obtain ⟨hlo', hhi'⟩ := tdiv_mul_nonpos n pageSize (by omega)
      generalize n.tdiv pageSize * pageSize = e at *
      unfold toU32 at hlen
      omega
    · obtain ⟨hlo', hhi'⟩ := tdiv_mul_nonneg n pageSize (by omega)
      generalize n.tdiv pageSize * pageSize = e at *
      unfold toU32 at hlen
      omega

theorem readChunk_fst (pageSize count p i : Nat) (hrange : p + i < 4294967296) :
    (readChunk pageSize count p i).1 = p + i := by
  change toU32 (p + toS32 i) = p + i
  unfold toU32 toS32
  split <;> omega

theorem readChunk_pos (pageSize count p i : Nat) (hps : 0 < pageSize) (hps' : pageSize < 65536)
    (hi : i < count) (hcount : count < 4294967296) (hrange : p + i < 4294967296) :
    1 ≤ (readChunk pageSize count p i).2 := by
  have haddr : toU32 ((p : Int) + toS32 i) = p + i := readChunk_fst pageSize count p i hrange
  obtain ⟨hpos, -⟩ := unclamped_end pageSize (p + i) hps hps' hrange rfl
  simp only [readChunk, haddr]
  split
  · unfold toU32
    omega
  · exact hpos

/-- A chunk of a range inside the address space stays within the bytes asked for, unless it
    starts on the last two pages and the range at address 0: then the clamp wraps. -/
theorem readChunk_inside (pageSize count p i : Nat) (hps : 0 < pageSize)
    (hps' : pageSize < 65536) (hi : i < count) (hrange : p + count < 4294967296)
    (hwrap : p = 0 → i + 2 * pageSize ≤ 4294967296) :
    1 ≤ (readChunk pageSize count p i).2 ∧
      i + (readChunk pageSize count p i).2 ≤ count := by
  have haddr : toU32 ((p : Int) + toS32 i) = p + i :=
    readChunk_fst pageSize count p i (by omega)
  obtain ⟨hpos, hend, hlast⟩ := unclamped_end pageSize (p + i) hps hps' (by omega) rfl
  simp only [readChunk, haddr]
  generalize toU32 ((toS32 (toU32 (((p + i : Nat) : Int) + pageSize))).tdiv pageSize * pageSize
    - ((p + i : Nat) : Int)) = len at hpos hend hlast
  -- the sum of the clamp does not wrap
  have hsum : toU32 ((len : Int) + i) = len + i := toU32_of_lt (n := len + i) (by omega)
  rw [hsum]
  unfold toU32
  split <;> omega

/-- Where the clamp wraps, the chunk ends with the address space. -/
theorem readChunk_wraps (pageSize count i : Nat) (hps : 0 < pageSize) (hps' : pageSize < 65536)
    (hi : i < 4294967296) (hwrap : 4294967296 < i + 2 * pageSize) :
    i + (readChunk pageSize count 0 i).2 = 4294967296 := by
  have haddr : toU32 ((0 : Int) + toS32 i) = i := by
    have hfst := readChunk_fst pageSize count 0 i (by omega)
    rwa [Nat.zero_add] at hfst
  obtain ⟨-, -, hlast⟩ := unclamped_end pageSize i hps hps' (by omega) rfl
  have hend := hlast.mpr hwrap
  simp only [readChunk, haddr]
  generalize toU32 ((toS32 (toU32 ((i : Int) + pageSize))).tdiv pageSize * pageSize
    - (i : Int)) = len at hend
  have hsum : toU32 ((len : Int) + i) = 0 := by
    unfold toU32
    omega
  rw [hsum, if_neg (by omega)]
  exact hend

end At24
