import DriverLearn.ForStd.Memory
import DriverLearn.Spec.At24Chunk

/-!
# EEPROM write and read back

`at24_write` and `at24_read` address every offset through `client[0]` with an 8-bit
command, so an offset from 256 on falls on a cell of the first 256. A range that ends
within the first 256 cells is written and read back faithfully; any other nonempty range
is not, for some buffer.

## Key results

- `at24Write_eeprom`: what a write leaves in the cells, for every range
- `at24Read_eeprom`: a read below cell 256 returns the cells
- `roundTrip_iff`: the exact condition for the round trip with frame
-/

namespace At24

open Memory Word

/-! ### The EEPROM -/

/-- The cells of the EEPROM and the user buffer of the call. -/
structure Eeprom where
  cells : Nat → Byte
  user : Nat → Byte

/-- A chip on which everything succeeds: `client[k]` serves the cells from `256 * k` on,
    the command selects a cell among them, and a block read returns `min len 32`
    consecutive cells. The length is taken as the driver passes it, not narrowed to a `u8` as
    in `cellsWire`. -/
def eepromEnv : At24Env Eeprom where
  kmalloc s size := (some (List.replicate size 0), s)
  readBlock s client command len tmp :=
    let n := min len 32
    (n, readBytes s.cells (256 * client + command.toNat) n ++ tmp.drop n, s)
  writeByteData s client command value :=
    (0, { s with cells := Function.update s.cells (256 * client + command.toNat) value })
  copyToUser s off tmp len := (0, { s with user := writeBytes s.user off (tmp.take len) })
  copyFromUser s off := (0, s.user off, s)

/-- `at24_write` of `b` at `p`, then `at24_read` of as many bytes at `p` into a user buffer
    with any content: both return the length, the bytes read are `b`, and every cell
    outside the range keeps its content. -/
def RoundTrip (at24 : At24Data) (p : Nat) (b : List Byte) (cells : Nat → Byte) : Prop :=
  ∀ ubuf : Nat → Byte,
    let w := at24Write eepromEnv p b.length ⟨cells, writeBytes ubuf 0 b⟩
    w.1 = b.length ∧
      ∃ fuel fPos s,
        at24Read eepromEnv at24 p b.length fuel ⟨w.2.2.cells, ubuf⟩ = some (↑b.length, fPos, s) ∧
        readBytes s.user 0 b.length = b ∧
        ∀ c < at24.chip.byteLen, c < p ∨ p + b.length ≤ c → s.cells c = cells c

/-! ### What a write stores -/

/-- The cells after the bytes have been sent to `client[0]` from the offset `p` on. -/
def aliasStore (cells : Nat → Byte) (p : Nat) : List Byte → Nat → Byte
  | [] => cells
  | b :: bs => aliasStore (Function.update cells (p % 256) b) (p + 1) bs

/-- Below cell 256 no two offsets share a cell. -/
theorem aliasStore_below (cells : Nat → Byte) (p : Nat) (bs : List Byte)
    (h : p + bs.length ≤ 256) : aliasStore cells p bs = writeBytes cells p bs := by
  induction bs generalizing cells p with
  | nil => simp [aliasStore]
  | cons b bs ih =>
    simp only [List.length_cons] at h
    rw [aliasStore, ih _ _ (by omega), Nat.mod_eq_of_lt (by omega), ← writeBytes_singleton]
    exact (writeBytes_append cells p [b] bs).symm

/-- A cell that one of the offsets falls on holds the value of a constant buffer. -/
theorem aliasStore_replicate (cells : Nat → Byte) (p k : Nat) (v : Byte) (c : Nat)
    (h : cells c = v ∨ ∃ j < k, (p + j) % 256 = c) :
    aliasStore cells p (List.replicate k v) c = v := by
  induction k generalizing cells p with
  | zero => simpa [aliasStore] using h
  | succ k ih =>
    rw [List.replicate_succ, aliasStore]
    apply ih
    by_cases hc : c = p % 256
    · left
      simp [hc]
    · rcases h with h | ⟨j, hj, hjc⟩
      · left
        rwa [Function.update_of_ne hc]
      · right
        have hj0 : j ≠ 0 := by rintro rfl; exact hc (by omega)
        exact ⟨j - 1, by omega, by rw [show p + 1 + (j - 1) = p + j by omega, hjc]⟩

/-- The command of the byte at offset `p + i`. -/
theorem command_toNat (p i : Nat) :
    (BitVec.ofInt 8 (p + toS32 i)).toNat = (p + i) % 256 := by
  rw [BitVec.toNat_ofInt]
  unfold toS32
  split <;> omega

theorem at24WriteRetry_eeprom (p i : Nat) (b : Byte) (errCount : Nat) (s : Eeprom) :
    at24WriteRetry eepromEnv p i b errCount s =
      (0, { s with cells := Function.update s.cells ((p + i) % 256) b }) := by
  rw [at24WriteRetry]
  simp only [eepromEnv, command_toNat, lt_self_iff_false, ↓reduceIte, Nat.mul_zero, Nat.zero_add]

/-- The loop of `at24_write` sends the rest of the user buffer. -/
theorem at24WriteLoop_eeprom (count p i : Nat) (s : Eeprom) (hi : i ≤ count) :
    at24WriteLoop eepromEnv count p i s =
      (toS32 count, p + toS32 count,
        { s with cells := aliasStore s.cells (p + i) (readBytes s.user i (count - i)) }) := by
  induction hk : count - i generalizing i s with
  | zero =>
    have hic : i = count := by omega
    rw [at24WriteLoop]
    simp [hic, aliasStore]
  | succ k ih =>
    rw [at24WriteLoop, if_pos (by omega)]
    have hcopy : eepromEnv.copyFromUser s i = (0, s.user i, s) := rfl
    simp only [hcopy, ne_eq, not_true_eq_false, ↓reduceIte, at24WriteRetry_eeprom,
      lt_self_iff_false]
    rw [ih (i + 1) _ (by omega) (by omega), readBytes_succ, aliasStore, Nat.add_assoc]

theorem at24Write_eeprom (p : Nat) (b : List Byte) (cells ubuf : Nat → Byte) :
    at24Write eepromEnv p b.length ⟨cells, writeBytes ubuf 0 b⟩ =
      (toS32 b.length, p + toS32 b.length,
        ⟨aliasStore cells p b, writeBytes ubuf 0 b⟩) := by
  rw [at24Write, at24WriteLoop_eeprom _ _ _ _ (Nat.zero_le _)]
  simp [readBytes_writeBytes]

/-! ### What a read returns -/

/-- A chunk that starts below cell 256 is nonempty and stays within the bytes asked for. -/
theorem readChunk_below (pageSize count p i : Nat) (hps : 0 < pageSize)
    (hps' : pageSize < 65536) (hi : i < count) (hp : p + count ≤ 256) :
    ∃ len, readChunk pageSize count p i = (p + i, len) ∧ 1 ≤ len ∧ i + len ≤ count :=
  ⟨_, Prod.ext (readChunk_addr pageSize count p i (by omega)) rfl,
    readChunk_le pageSize count i p hps hps' hi (by omega)⟩

/-- One SMBus read from `client[0]`. -/
theorem readBlock_eeprom (s : Eeprom) (addr len : Nat) (tmp : List Byte) :
    eepromEnv.readBlock s 0 (BitVec.ofNat 8 addr) len tmp =
      (((min len 32 : Nat) : Int),
        readBytes s.cells (addr % 256) (min len 32) ++ tmp.drop (min len 32), s) := by
  simp [eepromEnv]

theorem copyToUser_eeprom (s : Eeprom) (off len : Nat) (tmp : List Byte) :
    eepromEnv.copyToUser s off tmp len =
      (0, { s with user := writeBytes s.user off (tmp.take len) }) := rfl

/-- From the label `retry` on, with the bytes before `i` delivered: below cell 256 the
    loop delivers the rest. -/
theorem at24ReadLoop_below (pageSize count p : Nat) (hps : 0 < pageSize)
    (hps' : pageSize < 65536) (hp : p + count ≤ 256) (cells ubuf : Nat → Byte)
    (fuel i len : Nat) (tmp : List Byte) (hfuel : count - i ≤ fuel) (hi : i < count)
    (hlen : 1 ≤ len) (hle : i + len ≤ count) :
    at24ReadLoop eepromEnv pageSize count p fuel
        ⟨cells, writeBytes ubuf 0 (readBytes cells p i)⟩ tmp i 0 (p + i) len =
      some (↑count, ⟨cells, writeBytes ubuf 0 (readBytes cells p count)⟩) := by
  -- one turn delivers `min len 32` bytes
  induction fuel generalizing i len tmp with
  | zero => omega
  | succ fuel ih =>
    rw [at24ReadLoop, readBlock_eeprom, Nat.mod_eq_of_lt (show p + i < 256 by omega)]
    generalize hn : min len 32 = n
    have hret : toU32 (n : Int) = n := toU32_of_lt (by omega)
    have hnext : toU32 ((i : Int) + (n : Int)) = i + n := toU32_of_lt (n := i + n) (by omega)
    -- the chunk extends the delivered bytes
    have hdeliver : writeBytes (writeBytes ubuf 0 (readBytes cells p i)) i
        (readBytes cells (p + i) n) = writeBytes ubuf 0 (readBytes cells p (i + n)) := by
      rw [readBytes_add, writeBytes_append, length_readBytes, Nat.zero_add]
    have htake : (readBytes cells (p + i) n ++ tmp.drop n).take n = readBytes cells (p + i) n :=
      List.take_left' (length_readBytes _ _ _)
    simp only [hret, hnext, show ¬ n ≤ 0 by omega, ↓reduceIte, copyToUser_eeprom, htake, hdeliver,
      ne_eq, not_true_eq_false]
    split
    · next hmore =>
      obtain ⟨len', hchunk, hlen', hle'⟩ :=
        readChunk_below pageSize count p (i + n) hps hps' hmore hp
      simp only [hchunk]
      exact ih (i + n) len' _ (by omega) hmore hlen' hle'
    · next hdone =>
      rw [show i + n = count by omega, toS32_of_lt (by omega)]

/-- A read that ends within the first 256 cells returns its cells. -/
theorem at24Read_eeprom (at24 : At24Data) (hps : 0 < at24.chip.pageSize) (p count : Nat)
    (hp : p + count ≤ 256) (hlen : p + count ≤ at24.chip.byteLen) (cells ubuf : Nat → Byte) :
    at24Read eepromEnv at24 p count count ⟨cells, ubuf⟩ =
      some ((count : Int), (p : Int) + count,
        ⟨cells, writeBytes ubuf 0 (readBytes cells p count)⟩) := by
  unfold at24Read
  by_cases hc : count = 0
  · subst hc
    simp [eepromEnv]
  · obtain ⟨len, hchunk, hlen', hle'⟩ :=
      readChunk_below at24.chip.pageSize count p 0 hps at24.chip.pageSize_lt (by omega) hp
    have hloop := at24ReadLoop_below at24.chip.pageSize count p hps at24.chip.pageSize_lt hp
      cells ubuf count 0 len (List.replicate at24.chip.pageSize 0) (by omega) (by omega) hlen' hle'
    simp only [readBytes_zero, writeBytes_nil] at hloop
    have hmalloc : eepromEnv.kmalloc ⟨cells, ubuf⟩ at24.chip.pageSize =
        (some (List.replicate at24.chip.pageSize 0), ⟨cells, ubuf⟩) := rfl
    rw [if_neg (by omega)]
    simp only [hmalloc, show 0 < count by omega, ↓reduceIte, hchunk, hloop]
    simp [show 0 < count by omega]

/-! ### The first byte of a read -/

theorem readChunk_zero (pageSize count : Nat) (hps : 0 < pageSize) (hps' : pageSize < 65536)
    (hc : 0 < count) (hc' : count < 4294967296) :
    ∃ len, readChunk pageSize count 0 0 = (0, len) ∧ 1 ≤ len := by
  have haddr : toU32 (0 + toS32 0) = 0 := by decide
  have hint : toS32 (toU32 (((0 : Nat) : Int) + pageSize)) = pageSize := by
    rw [← Int.natCast_add, toU32_of_lt (by omega), toS32_of_lt (by omega), Nat.zero_add]
  have hpage : (pageSize : Int).tdiv pageSize * pageSize = pageSize := by
    rw [Int.tdiv_self (by omega), Int.one_mul]
  refine ⟨_, by simp only [readChunk, haddr]; rfl, ?_⟩
  simp only [hint, hpage]
  unfold toU32
  split <;> omega

/-- No read changes a cell. -/
theorem at24ReadLoop_cells (pageSize count : Nat) (fPos : Int) (fuel : Nat) (s : Eeprom)
    (tmp : List Byte) (i errCount addr len : Nat) (ret : Int) (s' : Eeprom)
    (hrun : at24ReadLoop eepromEnv pageSize count fPos fuel s tmp i errCount addr len =
      some (ret, s')) : s'.cells = s.cells := by
  induction fuel generalizing s tmp i errCount addr len with
  | zero => simp [at24ReadLoop] at hrun
  | succ fuel ih =>
    simp only [at24ReadLoop, readBlock_eeprom, copyToUser_eeprom, ne_eq, not_true_eq_false,
      ↓reduceIte] at hrun
    split at hrun
    · split at hrun
      · exact ih s _ _ _ _ _ hrun
      · simp only [Option.some.injEq, Prod.mk.injEq] at hrun
        rw [← hrun.2]
    · split at hrun
      · have hcells := ih _ _ _ _ _ _ hrun
        exact hcells
      · simp only [Option.some.injEq, Prod.mk.injEq] at hrun
        rw [← hrun.2]

/-- A read at offset 0 delivers cell 0 first, whatever follows. -/
theorem at24ReadLoop_first (pageSize count : Nat) (hps : 0 < pageSize)
    (hps' : pageSize < 65536) (hc : count < 4294967296) (fuel : Nat) (s : Eeprom)
    (tmp : List Byte) (i errCount addr len : Nat) (ret : Int) (s' : Eeprom)
    (hrun : at24ReadLoop eepromEnv pageSize count 0 fuel s tmp i errCount addr len =
      some (ret, s'))
    (hdone : i ≠ 0 → s.user 0 = s.cells 0) (hfirst : i = 0 → addr % 256 = 0 ∧ 1 ≤ len) :
    s'.user 0 = s.cells 0 := by
  induction fuel generalizing s tmp i errCount addr len with
  | zero => simp [at24ReadLoop] at hrun
  | succ fuel ih =>
    simp only [at24ReadLoop, readBlock_eeprom, copyToUser_eeprom] at hrun
    generalize hn : min len 32 = n at hrun
    have hret : toU32 (n : Int) = n := toU32_of_lt (by omega)
    have htake : (readBytes s.cells (addr % 256) n ++ tmp.drop n).take n =
        readBytes s.cells (addr % 256) n := List.take_left' (length_readBytes _ _ _)
    simp only [hret, htake, ne_eq, not_true_eq_false, ↓reduceIte] at hrun
    by_cases hn0 : n = 0
    · -- a failed call: `i` is not 0, and nothing changes
      have hi0 : i ≠ 0 := by rintro rfl; have := hfirst rfl; omega
      simp only [hn0, le_refl, ↓reduceIte] at hrun
      split at hrun
      · exact ih s _ i _ addr 0 hrun hdone fun h => absurd h hi0
      · simp only [Option.some.injEq, Prod.mk.injEq] at hrun
        exact hrun.2 ▸ hdone hi0
    · simp only [show ¬ n ≤ 0 by omega, ↓reduceIte] at hrun
      have huser : writeBytes s.user i (readBytes s.cells (addr % 256) n) 0 = s.cells 0 := by
        by_cases hi0 : i = 0
        · subst hi0
          have hget := writeBytes_of_mem s.user 0 (readBytes s.cells (addr % 256) n) 0
            (by simp; omega)
          simpa [readBytes, (hfirst rfl).1] using hget
        · rw [writeBytes_frame _ _ _ _ (by omega)]
          exact hdone hi0
      split at hrun
      · next hmore =>
        refine ih ⟨s.cells, writeBytes s.user i (readBytes s.cells (addr % 256) n)⟩ _ _ _ _ _
          hrun (fun _ => huser) fun hz => ?_
        obtain ⟨len', hchunk, hlen'⟩ := readChunk_zero pageSize count hps hps' (by omega) hc
        rw [hz, hchunk]
        exact ⟨rfl, hlen'⟩
      · simp only [Option.some.injEq, Prod.mk.injEq] at hrun
        exact hrun.2 ▸ huser

/-- A call that returns left the cells alone, and has called the loop unless it returned
    at once. -/
theorem at24Read_inv (at24 : At24Data) (p count fuel : Nat) (s s' : Eeprom) (ret fPos : Int)
    (hpos : p + count ≤ at24.chip.byteLen) (hc : 0 < count)
    (hrun : at24Read eepromEnv at24 p count fuel s = some (ret, fPos, s')) :
    ∃ ret', at24ReadLoop eepromEnv at24.chip.pageSize count p fuel s
      (List.replicate at24.chip.pageSize 0) 0 0 (readChunk at24.chip.pageSize count p 0).1
      (readChunk at24.chip.pageSize count p 0).2 = some (ret', s') := by
  unfold at24Read at hrun
  have hmalloc : eepromEnv.kmalloc s at24.chip.pageSize =
      (some (List.replicate at24.chip.pageSize 0), s) := rfl
  rw [if_neg (by omega)] at hrun
  simp only [hmalloc, hc, ↓reduceIte, bind, Option.bind_eq_some_iff] at hrun
  obtain ⟨⟨ret', t⟩, hloop, hret⟩ := hrun
  simp only [pure, Option.some.injEq, Prod.mk.injEq] at hret
  exact ⟨ret', hret.2.2 ▸ hloop⟩

/-! ### The round trip -/

/-- A range that passes cell 256 and does not start at 0 has an offset that falls on a
    cell in front of it. -/
theorem alias_outside (p n : Nat) (hn : 0 < n) (h : 256 < p + n) (hp : 0 < p) :
    ∃ c, c < p ∧ ∃ j < n, (p + j) % 256 = c := by
  by_cases hlow : p < 256
  · exact ⟨0, hp, 256 - p, by omega, by omega⟩
  · exact ⟨p % 256, by omega, 0, hn, rfl⟩

theorem roundTrip_below (at24 : At24Data) (hps : 0 < at24.chip.pageSize) (p : Nat)
    (b : List Byte) (hrange : p + b.length ≤ at24.chip.byteLen) (h : p + b.length ≤ 256)
    (cells : Nat → Byte) : RoundTrip at24 p b cells := by
  intro ubuf
  simp only [at24Write_eeprom, aliasStore_below cells p b h]
  refine ⟨toS32_of_lt (by omega), b.length, _, _,
    at24Read_eeprom at24 hps p b.length h hrange _ ubuf, ?_, ?_⟩
  · rw [readBytes_writeBytes cells p b]
    exact readBytes_writeBytes ubuf 0 b
  · intro c _ hout
    exact writeBytes_frame _ _ _ _ hout

theorem roundTrip_nil (at24 : At24Data) (p : Nat) (cells : Nat → Byte) :
    RoundTrip at24 p [] cells := by
  intro ubuf
  have hwrite := at24Write_eeprom p [] cells ubuf
  simp only [List.length_nil, aliasStore] at hwrite
  simp only [List.length_nil, hwrite]
  have hread : ∃ fPos, at24Read eepromEnv at24 p 0 0 ⟨cells, ubuf⟩ =
      some (0, fPos, ⟨cells, ubuf⟩) := by
    unfold at24Read
    split <;> simp [eepromEnv]
  obtain ⟨fPos, hread⟩ := hread
  exact ⟨rfl, 0, fPos, _, hread, rfl, fun c _ _ => rfl⟩

/-- What a round trip gives when the range is not empty: the read leaves the cells as the
    write left them. -/
theorem RoundTrip.read {at24 : At24Data} {p : Nat} {b : List Byte} {cells : Nat → Byte}
    (h : RoundTrip at24 p b cells) (hrange : p + b.length ≤ at24.chip.byteLen)
    (hb : 0 < b.length) :
    ∃ fuel ret s,
      at24ReadLoop eepromEnv at24.chip.pageSize b.length p fuel
        ⟨aliasStore cells p b, fun _ => 0⟩ (List.replicate at24.chip.pageSize 0) 0 0
        (readChunk at24.chip.pageSize b.length p 0).1
        (readChunk at24.chip.pageSize b.length p 0).2 = some (ret, s) ∧
      s.cells = aliasStore cells p b ∧
      readBytes s.user 0 b.length = b ∧
      ∀ c < at24.chip.byteLen, c < p ∨ p + b.length ≤ c → s.cells c = cells c := by
  obtain ⟨-, fuel, fPos, s, hread, hbytes, hframe⟩ := h fun _ => 0
  rw [at24Write_eeprom] at hread
  obtain ⟨ret, hloop⟩ := at24Read_inv at24 p b.length fuel _ s _ _ hrange hb hread
  exact ⟨fuel, ret, s, hloop, at24ReadLoop_cells _ _ _ _ _ _ _ _ _ _ _ _ hloop, hbytes, hframe⟩

/-- A constant buffer that falls on a cell in front of the range changes it. -/
theorem not_roundTrip_frame (at24 : At24Data) (p n : Nat) (hrange : p + n ≤ at24.chip.byteLen)
    (hn : 0 < n) (cells : Nat → Byte) (c : Nat) (hcp : c < p)
    (hhit : ∃ j < n, (p + j) % 256 = c) (v : Byte) (hv : v ≠ cells c) :
    ¬ RoundTrip at24 p (List.replicate n v) cells := by
  intro hrt
  obtain ⟨_, _, s, _, hcells, _, hframe⟩ := hrt.read (by simpa using hrange) (by simpa using hn)
  have hkept := hframe c (by omega) (Or.inl hcp)
  rw [hcells, aliasStore_replicate cells p n _ c (Or.inr hhit)] at hkept
  exact hv hkept

/-- A range from 0 that passes cell 256: offset 256 overwrites what offset 0 stored. -/
theorem not_roundTrip_zero (at24 : At24Data) (hps : 0 < at24.chip.pageSize) (n : Nat)
    (hrange : n ≤ at24.chip.byteLen) (h : 256 < n) (cells : Nat → Byte) :
    ∃ b : List Byte, b.length = n ∧ ¬ RoundTrip at24 0 b cells := by
  refine ⟨0 :: List.replicate (n - 1) 1, by simp; omega, fun hrt => ?_⟩
  have hlen : (0 :: List.replicate (n - 1) (1 : Byte)).length = n := by simp; omega
  obtain ⟨fuel, ret, s, hloop, -, hbytes, -⟩ := hrt.read (by rw [hlen]; omega) (by rw [hlen]; omega)
  rw [hlen] at hloop hbytes
  have hbound := at24.chip.byteLen_lt
  -- the cell read first holds the byte of offset 256
  have hfirst : s.user 0 = 1 := by
    obtain ⟨len, hchunk, hlen1⟩ :=
      readChunk_zero at24.chip.pageSize n hps at24.chip.pageSize_lt (by omega) (by omega)
    rw [Nat.cast_zero, hchunk] at hloop
    rw [at24ReadLoop_first _ _ hps at24.chip.pageSize_lt (by omega) _ _ _ _ _ _ _ _ _ hloop
      (by simp) (fun _ => ⟨rfl, hlen1⟩)]
    exact aliasStore_replicate _ _ _ _ _ (Or.inr ⟨255, by omega, rfl⟩)
  have hhead := congrArg (·[0]?) hbytes
  simp only [getElem?_readBytes s.user 0 n 0 (by omega), Nat.add_zero, hfirst] at hhead
  simp at hhead

theorem at24ProbeChip_pageSize {platformData : Option At24PlatformData} {driverData : Nat}
    {at24 : At24Data} (h : at24ProbeChip platformData driverData = .ok at24) :
    0 < at24.chip.pageSize := by
  simp only [at24ProbeChip] at h
  split at h
  · cases h
  · next hps =>
    obtain rfl := Except.ok.inj h
    exact Nat.pos_of_ne_zero hps

/-- For every chip `at24_probe` accepts, every range inside it and every content: all
    buffers survive the round trip, and the cells outside the range are kept, iff the range
    is empty or ends within the first 256 cells. -/
theorem roundTrip_iff (platformData : Option At24PlatformData) (driverData : Nat)
    (at24 : At24Data) (hprobe : at24ProbeChip platformData driverData = .ok at24)
    (p n : Nat) (hrange : p + n ≤ at24.chip.byteLen) (cells : Nat → Byte) :
    (∀ b : List Byte, b.length = n → RoundTrip at24 p b cells) ↔ n = 0 ∨ p + n ≤ 256 := by
  have hps := at24ProbeChip_pageSize hprobe
  constructor
  · intro hall
    by_contra hnot
    rw [not_or, Nat.not_le] at hnot
    have hfail : ∃ b : List Byte, b.length = n ∧ ¬ RoundTrip at24 p b cells := by
      -- from offset 0 the first bytes are overwritten; else a cell in front of the range is
      by_cases hp : p = 0
      · subst hp
        exact not_roundTrip_zero at24 hps n (by omega) (by omega) cells
      · obtain ⟨c, hcp, hhit⟩ := alias_outside p n (by omega) hnot.2 (by omega)
        exact ⟨List.replicate n (cells c + 1), List.length_replicate,
          not_roundTrip_frame at24 p n hrange (by omega) cells c hcp hhit _ (by simp)⟩
    obtain ⟨b, hb, hrt⟩ := hfail
    exact hrt (hall b hb)
  · rintro hsmall b rfl
    rcases hsmall with h0 | hle
    · rw [List.eq_nil_of_length_eq_zero h0]
      exact roundTrip_nil at24 p cells
    · exact roundTrip_below at24 hps p b hrange hle cells

/-- A chip of 512 cells in pages of 16. -/
def chip512 : At24PlatformData := ⟨512, 16, by decide, by decide⟩

theorem roundTrip_iff_chip512 :
    (∀ b : List Byte, b.length = 6 → RoundTrip ⟨chip512, 2⟩ 250 b fun _ => 0) ↔
      6 = 0 ∨ 250 + 6 ≤ 256 :=
  roundTrip_iff (some chip512) 0 ⟨chip512, 2⟩ rfl 250 6 (by decide) _

/-- On the chip of 512 cells, a byte written at offset 256 lands in cell 0. -/
theorem roundTrip_fails_at_256 :
    ¬ ∀ (platformData : Option At24PlatformData) (driverData : Nat) (at24 : At24Data),
      at24ProbeChip platformData driverData = .ok at24 →
      ∀ (p : Nat) (b : List Byte) (cells : Nat → Byte), p + b.length ≤ at24.chip.byteLen →
        RoundTrip at24 p b cells := by
  intro h
  exact not_roundTrip_frame ⟨chip512, 2⟩ 256 1 (by decide) (by decide) (fun _ => 0) 0 (by decide)
    ⟨0, by decide, by decide⟩ 1 (by decide)
    (h (some chip512) 0 ⟨chip512, 2⟩ rfl 256 [1] (fun _ => 0) (by decide))

end At24
