import DriverLearn.Native.At24Page
import DriverLearn.Spec.At24Session

/-!
# Writing by pages and by bytes

The driver has two ways to write, and the one by pages is switched off. On a chip that stores
a block in the page of its first byte both leave the same, as a chunk never leaves its page,
as long as a page fits an SMBus block: of a longer one only 32 bytes are sent, and the rest is
counted as written.

## Key results

- `storeInPage_placed`: a block within a page
- `writesAgree_iff`: the page sizes for which both ways agree
-/

namespace At24

open History Memory Word

/-! ### Pages -/

/-- The cell behind a cell, in the same page. -/
def nextCell (pageSize : Nat) (c : Byte) : Byte :=
  BitVec.ofNat 8 (c.toNat / pageSize * pageSize + (c.toNat % pageSize + 1) % pageSize)

/-- A block goes to the cells from `c` on, and behind the last cell of the page to its first. -/
def storeInPage (pageSize : Nat) (cells : Byte → Byte) (c : Byte) : List Byte → Byte → Byte
  | [] => cells
  | b :: bs => storeInPage pageSize (Function.update cells c b) (nextCell pageSize c) bs

/-- A machine on which nothing fails, with a chip of such pages. The length of a block is a
    `u8`, and at most 32 bytes are sent. -/
def pageEnv (pageSize : Nat) : At24PageEnv ((Nat → Byte) × (Byte → Byte)) where
  kmalloc s size := (some (List.replicate size 0), s)
  copyFromUser s off tmp len := (0, readBytes s.1 off len ++ tmp.drop len, s)
  writeBlock s _ command len tmp :=
    (0, s.1, storeInPage pageSize s.2 command (tmp.take (min (len % 256) 32)))

/-- The cells after some writes. -/
def written (cells : Byte → Byte) (writes : List (Byte × Byte)) : Byte → Byte :=
  writes.foldl (fun m w => Function.update m w.1 w.2) cells

/-- Pairs behind others are written behind them. -/
theorem written_append (cells : Byte → Byte) (xs ys : List (Byte × Byte)) :
    written cells (xs ++ ys) = written (written cells xs) ys := List.foldl_append

/-- What follows is placed behind what is in front. -/
theorem placed_append (pos : Int) (xs ys : List Byte) :
    placed pos (xs ++ ys) = placed pos xs ++ placed (pos + xs.length) ys := by
  induction xs generalizing pos with
  | nil => simp [placed]
  | cons x xs ih =>
    rw [List.cons_append, placed, placed, ih, List.length_cons, Nat.cast_add, Nat.cast_one,
      Int.add_assoc, Int.add_comm 1]
    rfl

/-- Inside of a page the next cell is the one behind. -/
theorem nextCell_inside {pageSize p : Nat} (hdvd : pageSize ∣ 256)
    (hin : p % pageSize + 1 < pageSize) :
    nextCell pageSize (BitVec.ofInt 8 p) = BitVec.ofInt 8 (p + 1) := by
  have hcell : (BitVec.ofInt 8 p).toNat = p % 256 := by
    rw [BitVec.toNat_ofInt]
    omega
  have hmod : p % 256 % pageSize = p % pageSize := Nat.mod_mod_of_dvd p hdvd
  have hsplit := Nat.div_add_mod' (p % 256) pageSize
  apply BitVec.eq_of_toNat_eq
  rw [nextCell, hcell, hmod, Nat.mod_eq_of_lt hin, BitVec.toNat_ofNat, BitVec.toNat_ofInt]
  rw [hmod] at hsplit
  omega

/-- A block that stays in its page is stored byte by byte. -/
theorem storeInPage_placed {pageSize p : Nat} (hdvd : pageSize ∣ 256) (cells : Byte → Byte)
    (bytes : List Byte) (hin : p % pageSize + bytes.length ≤ pageSize) :
    storeInPage pageSize cells (BitVec.ofInt 8 p) bytes = written cells (placed p bytes) := by
  induction bytes generalizing p cells with
  | nil => rfl
  | cons b bs ih =>
    rw [List.length_cons] at hin
    rw [storeInPage, placed, written, List.foldl_cons, ← written]
    cases bs with
    | nil => rfl
    | cons b' bs =>
      rw [List.length_cons] at hin
      have hnext : (p + 1) % pageSize = p % pageSize + 1 := by
        rw [Nat.add_mod, Nat.mod_eq_of_lt (show 1 < pageSize by omega), Nat.mod_eq_of_lt (by omega)]
      rw [nextCell_inside hdvd (by omega), ← Nat.cast_one, ← Nat.cast_add,
        ih _ (by rw [hnext, List.length_cons]; omega)]

/-! ### Both ways -/

/-- A chunk does not leave its page, nor the bytes left. -/
theorem readChunk_inPage {pageSize count p i : Nat} (hps : 0 < pageSize) (hi : i < count)
    (hrange : p + count + pageSize < 2147483648) :
    ∃ len, readChunk pageSize count p i = (p + i, len) ∧ 1 ≤ len ∧ i + len ≤ count ∧
      (p + i) % pageSize + len ≤ pageSize := by
  refine ⟨_, readChunk_page pageSize count p i hrange hi hps, ?_⟩
  obtain ⟨hlo, hhi⟩ := lt_page_end (p + i) pageSize hps
  have hend : (p + i + pageSize) / pageSize * pageSize =
      (p + i) / pageSize * pageSize + pageSize := by
    rw [Nat.add_div_right _ hps, Nat.succ_mul]
  have hsplit := Nat.div_add_mod' (p + i) pageSize
  omega

/-- The memory accepts a page at the first attempt. -/
theorem at24PageRetry_memory (pageSize addr len : Nat) (tmp : List Byte) (errCount : Nat)
    (s : (Nat → Byte) × (Byte → Byte)) :
    at24PageRetry (pageEnv pageSize) addr len tmp errCount s =
      (0, errCount, s.1, storeInPage pageSize s.2 (BitVec.ofNat 8 addr)
        (tmp.take (min (len % 256) 32))) := by
  rw [at24PageRetry]
  rfl

/-- From the head of the loop on, with the bytes before `i` written. -/
theorem at24PageLoop_memory {pageSize : Nat} (hps : 0 < pageSize) (hle : pageSize ≤ 32)
    (hdvd : pageSize ∣ 256) {count p : Nat} (hrange : p + count + pageSize < 2147483648)
    (u : Nat → Byte) (cells : Byte → Byte) (fuel : Nat) (tmp : List Byte) (i : Nat)
    (hfuel : count - i < fuel) (hi : i ≤ count) :
    at24PageLoop (pageEnv pageSize) pageSize count p fuel tmp i 0
        (u, written cells (placed p (readBytes u 0 i))) =
      some ((count : Int), u, written cells (placed p (readBytes u 0 count))) := by
  induction fuel generalizing i tmp with
  | zero => omega
  | succ fuel ih =>
    rw [at24PageLoop]
    split
    swap
    · rw [show i = count by omega, toS32_of_lt (by omega)]
    next hmore =>
    obtain ⟨len, hchunk, hpos, hleft, hin⟩ := readChunk_inPage hps hmore hrange
    have hlen : min (len % 256) 32 = len := by omega
    have hcopy : (pageEnv pageSize).copyFromUser (u, written cells (placed p (readBytes u 0 i))) i
        tmp len = (0, readBytes u i len ++ tmp.drop len,
          u, written cells (placed p (readBytes u 0 i))) := rfl
    have htake : (readBytes u i len ++ tmp.drop len).take len = readBytes u i len :=
      List.take_left' (length_readBytes _ _ _)
    -- the block extends what is written
    have hstore : storeInPage pageSize (written cells (placed p (readBytes u 0 i)))
        (BitVec.ofNat 8 (p + i)) (readBytes u i len) =
        written cells (placed p (readBytes u 0 (i + len))) := by
      have hblock := storeInPage_placed hdvd (written cells (placed p (readBytes u 0 i)))
        (readBytes u i len) (by rwa [length_readBytes])
      rw [BitVec.ofInt_natCast] at hblock
      rw [hblock, readBytes_add, placed_append, written_append, length_readBytes, Nat.zero_add,
        Nat.cast_add]
    have hnext : toU32 ((i : Int) + (len : Int)) = i + len := toU32_of_lt (n := i + len) (by omega)
    simp only [hchunk, hcopy, ne_eq, not_true_eq_false, ↓reduceIte, at24PageRetry_memory, hlen,
      htake, hstore, lt_self_iff_false, hnext]
    exact ih _ (i + len) (by omega) hleft

/-- For a file with such pages both ways return the same and leave the same, wherever below the
    end of the device a write begins that does not come near `2 ^ 31`. From the end on the way by
    pages returns 0, and the other one stores. -/
def WritesAgree (pageSize : Nat) : Prop :=
  ∀ (at24 : At24Data) (p count fuel : Nat) (u : Nat → Byte) (cells : Byte → Byte),
    at24.chip.pageSize = pageSize → p < at24.chip.byteLen →
    p + count + pageSize < 2147483648 → count < fuel →
    at24WritePages (pageEnv pageSize) at24 p count fuel (u, cells) =
      some (at24Write (machineEnv plainHost cellsWire) p count (u, cells))

/-- A page that one block holds is written as its bytes would be. -/
theorem writesAgree_of_le {pageSize : Nat} (hps : 0 < pageSize) (hdvd : pageSize ∣ 256)
    (hle : pageSize ≤ 32) : WritesAgree pageSize := by
  rintro at24 p count fuel u cells rfl hp hrange hfuel
  have hloop := at24PageLoop_memory hps hle hdvd hrange u cells fuel
    (List.replicate at24.chip.pageSize 0) 0 (by omega) (Nat.zero_le count)
  have hmalloc : (pageEnv at24.chip.pageSize).kmalloc (u, cells) at24.chip.pageSize =
    (some (List.replicate at24.chip.pageSize 0), u, cells) := rfl
  have hwrite := at24Write_memory p count (by omega) u cells
  rw [← written] at hwrite
  rw [hwrite, at24WritePages, if_neg (by omega), hmalloc]
  simp only [readBytes_zero, placed, written, List.foldl_nil] at hloop
  simp only [hloop, written, Option.bind_eq_bind, Option.bind_some]
  by_cases hc : count = 0
  · subst hc
    rfl
  · rw [if_pos (by omega)]
    rfl

/-- 33 bytes, the last of them 1. -/
def lastIsOne (i : Nat) : Byte := if i = 32 then 1 else 0

/-- On a longer page the 33rd byte is counted, but not sent. -/
theorem at24PageLoop_cut {pageSize : Nat} (hdvd : pageSize ∣ 256) (hlong : 32 < pageSize)
    (hmax : pageSize < 65536) :
    at24PageLoop (pageEnv pageSize) pageSize 33 0 34 (List.replicate pageSize 0) 0 0
        (lastIsOne, fun _ => 0) =
      some (33, lastIsOne, written (fun _ => 0) (placed 0 (readBytes lastIsOne 0 32))) := by
  have hchunk : readChunk pageSize 33 0 0 = (0, 33) := by
    have h := readChunk_page pageSize 33 0 0 (by omega) (by omega) (by omega)
    rw [Nat.add_zero, Nat.zero_add, Nat.div_self (by omega), Nat.one_mul] at h
    rw [Nat.cast_zero] at h
    rw [h, Nat.sub_zero, Nat.sub_zero, Nat.min_eq_right (by omega)]
  -- 33 bytes are copied from the user, and the SMBus call takes 32 of them
  have hcopy : (pageEnv pageSize).copyFromUser (lastIsOne, fun _ => 0) 0
      (List.replicate pageSize 0) 33 =
      (0, readBytes lastIsOne 0 33 ++ (List.replicate pageSize 0).drop 33, lastIsOne,
        fun _ => 0) := rfl
  have htake : (readBytes lastIsOne 0 33 ++ (List.replicate pageSize (0 : Byte)).drop 33).take 32 =
      readBytes lastIsOne 0 32 := by
    rw [readBytes_add lastIsOne 0 32 1, List.append_assoc, List.take_left' (length_readBytes _ _ _)]
  have hstore := storeInPage_placed hdvd (fun _ => (0 : Byte)) (p := 0) (readBytes lastIsOne 0 32)
    (by rw [length_readBytes, Nat.zero_mod]; omega)
  rw [BitVec.ofInt_natCast] at hstore
  have hnext : toU32 ((0 : Nat) + (33 : Nat)) = 33 := by decide
  rw [at24PageLoop, if_pos (by decide)]
  simp only [hchunk, hcopy, ne_eq, not_true_eq_false, ↓reduceIte, at24PageRetry_memory,
    show min (33 % 256) 32 = 32 from rfl, htake, hstore, lt_self_iff_false, hnext]
  rw [at24PageLoop, if_neg (by decide)]
  rfl

/-- The block has the first 32 bytes of a longer page only. -/
theorem not_writesAgree {pageSize : Nat} (hdvd : pageSize ∣ 256) (hlong : 32 < pageSize) :
    ¬ WritesAgree pageSize := by
  intro h
  have hmax : pageSize ≤ 256 := Nat.le_of_dvd (by decide) hdvd
  have hagree := h { chip := ⟨256, pageSize, by decide, by omega⟩, numAddresses := 1 } 0 33 34
    lastIsOne (fun _ => 0) rfl (Nat.zero_lt_succ 255) (by omega) (by decide)
  have hwrite := at24Write_memory 0 33 (by decide) lastIsOne fun _ => 0
  rw [← written] at hwrite
  have hmalloc : (pageEnv pageSize).kmalloc (lastIsOne, fun _ => 0) pageSize =
    (some (List.replicate pageSize 0), lastIsOne, fun _ => 0) := rfl
  have hbegin : ¬ (0 : Int) ≥ ((256 : Nat) : Int) := by decide
  rw [Nat.cast_zero, hwrite, at24WritePages, if_neg hbegin] at hagree
  simp only [hmalloc, at24PageLoop_cut hdvd hlong (by omega), Option.bind_eq_bind,
    Option.bind_some, Option.pure_def, Option.some.injEq, Prod.mk.injEq] at hagree
  -- the cells differ in the 33rd
  have hcell := congrFun hagree.2.2.2 32
  exact absurd hcell (by decide)

end At24
