import DriverLearn.ForStd.History
import DriverLearn.ForStd.Memory
import DriverLearn.Spec.At24Chunk
import DriverLearn.Spec.At24Sim

/-!
# Sessions with the EEPROM file

Processes open the character device of the EEPROM, read and write it, in any order and on
any number of open files. Every open file has a position, which `at24_read` and
`at24_write` move. What the calls return is told without the drivers: an offset of the file
names the cell with the last eight bits of it, and a read returns what was last written to
the cells it names.

## Key results

- `session_sim`: sessions on devices that behave alike
- `Syscall.run_told`: what a call returns, from the writes in front of it
-/

namespace At24

open History Memory Word

/-! ### The machine -/

/-- The kernel's memory and the buffer of the process: `put` fills the buffer before a write
    and `get` takes what a read has left in it. -/
structure Host (υ : Type) where
  kmalloc : υ → (size : Nat) → Option (List Byte) × υ
  copyToUser : υ → (off : Nat) → (tmp : List Byte) → (len : Nat) → Nat × υ
  copyFromUser : υ → (off : Nat) → Nat × Byte × υ
  put : υ → List Byte → υ
  get : υ → (count : Nat) → List Byte

/-- The two SMBus operations, with `client[0]`, the only one the driver uses. -/
structure Wire (δ : Type) where
  readBlock : δ → (command : Byte) → (len : Nat) → (tmp : List Byte) → Int × List Byte × δ
  writeByteData : δ → (command value : Byte) → Int × δ

variable {υ δ ε : Type}

/-- What the driver calls, on a machine of a host and a device. -/
def machineEnv (host : Host υ) (wire : Wire δ) : At24Env (υ × δ) where
  kmalloc s size :=
    let (tmp, u) := host.kmalloc s.1 size
    (tmp, u, s.2)
  readBlock s _ command len tmp :=
    let (ret, tmp, d) := wire.readBlock s.2 command len tmp
    (ret, tmp, s.1, d)
  writeByteData s _ command value :=
    let (ret, d) := wire.writeByteData s.2 command value
    (ret, s.1, d)
  copyToUser s off tmp len :=
    let (left, u) := host.copyToUser s.1 off tmp len
    (left, u, s.2)
  copyFromUser s off :=
    let (left, value, u) := host.copyFromUser s.1 off
    (left, value, u, s.2)

/-! ### System calls -/

/-- What processes do with the file: a name `fd` stands for an open file, and `pread` and
    `pwrite` bring a position of their own. -/
inductive Syscall where
  | openFile (fd : Nat)
  | read (fd count : Nat)
  | write (fd : Nat) (bytes : List Byte)
  | pread (count pos : Nat)
  | pwrite (bytes : List Byte) (pos : Nat)

/-- `MAX_RW_COUNT`, to which the kernel cuts the length of a read or a write. -/
def maxRwCount : Nat := 0x7ffff000

/-- What a process gets from a call: the return value, and the bytes in its buffer. -/
structure Outcome where
  ret : Int
  bytes : List Byte
  deriving DecidableEq

/-- The positions of the open files, and the machine. -/
structure Files (σ : Type) where
  pos : Nat → Int
  machine : σ

section

variable (host : Host υ) (wire : Wire δ) (at24 : At24Data) (fuel : Nat)

/-- A read at `pos`, with the position behind it. -/
def readAt (count : Nat) (pos : Int) (s : υ × δ) : Option (Outcome × Int × υ × δ) := do
  let (ret, pos, s) ← at24Read (machineEnv host wire) at24 pos (min count maxRwCount) fuel s
  return ({ ret, bytes := host.get s.1 ret.toNat }, pos, s)

/-- A write at `pos`, with the position behind it. -/
def writeAt (bytes : List Byte) (pos : Int) (s : υ × δ) : Outcome × Int × υ × δ :=
  let (ret, pos, s) := at24Write (machineEnv host wire) pos (min bytes.length maxRwCount)
    (host.put s.1 bytes, s.2)
  ({ ret, bytes := [] }, pos, s)

/-- A system call. The kernel keeps the position for the driver, but for `pread` and `pwrite`. -/
def Syscall.run (f : Files (υ × δ)) : Syscall → Option (Outcome × Files (υ × δ))
  | .openFile fd => some ({ ret := 0, bytes := [] }, { f with pos := Function.update f.pos fd 0 })
  | .read fd count => do
    let (out, pos, s) ← readAt host wire at24 fuel count (f.pos fd) f.machine
    return (out, { pos := Function.update f.pos fd pos, machine := s })
  | .write fd bytes =>
    let (out, pos, s) := writeAt host wire bytes (f.pos fd) f.machine
    some (out, { pos := Function.update f.pos fd pos, machine := s })
  | .pread count pos => do
    let (out, _, s) ← readAt host wire at24 fuel count pos f.machine
    return (out, { f with machine := s })
  | .pwrite bytes pos =>
    let (out, _, s) := writeAt host wire bytes pos f.machine
    some (out, { f with machine := s })

/-- What the calls return one after the other, and the machine behind them. -/
def session : List Syscall → Files (υ × δ) → Option (List Outcome × Files (υ × δ))
  | [], f => some ([], f)
  | c :: cs, f => do
    let (out, f) ← c.run host wire at24 fuel f
    let (outs, f) ← session cs f
    return (out :: outs, f)

end

/-! ### Devices that behave alike -/

variable {host : Host υ} {wire : Wire δ} {wire' : Wire ε} {R : δ → ε → Prop}

/-- From related states the operations give the same results and related states. -/
structure Wire.Simulates (R : δ → ε → Prop) (wire : Wire δ) (wire' : Wire ε) : Prop where
  readBlock : ∀ d e command len tmp, R d e →
    SameValues R (wire.readBlock d command len tmp) (wire'.readBlock e command len tmp)
  writeByteData : ∀ d e command value, R d e →
    SameValue R (wire.writeByteData d command value) (wire'.writeByteData e command value)

/-- The same host, and related devices. -/
def OnMachine (R : δ → ε → Prop) (s : υ × δ) (t : υ × ε) : Prop := s.1 = t.1 ∧ R s.2 t.2

/-- The driver's surroundings are related on related devices. -/
theorem Wire.Simulates.env (h : Wire.Simulates R wire wire') (host : Host υ) :
    At24.Simulates (OnMachine R) (machineEnv host wire) (machineEnv host wire') where
  kmalloc := by
    rintro ⟨u, d⟩ ⟨_, e⟩ size ⟨rfl, hd⟩
    exact ⟨rfl, rfl, hd⟩
  readBlock := by
    rintro ⟨u, d⟩ ⟨_, e⟩ command len tmp ⟨rfl, hd⟩
    obtain ⟨hret, htmp, hnext⟩ := h.readBlock d e command len tmp hd
    exact ⟨hret, htmp, rfl, hnext⟩
  writeByteData := by
    rintro ⟨u, d⟩ ⟨_, e⟩ command value ⟨rfl, hd⟩
    obtain ⟨hret, hnext⟩ := h.writeByteData d e command value hd
    exact ⟨hret, rfl, hnext⟩
  copyToUser := by
    rintro ⟨u, d⟩ ⟨_, e⟩ off tmp len ⟨rfl, hd⟩
    exact ⟨rfl, rfl, hd⟩
  copyFromUser := by
    rintro ⟨u, d⟩ ⟨_, e⟩ off ⟨rfl, hd⟩
    exact ⟨rfl, rfl, rfl, hd⟩

/-- The same positions, and related machines. -/
def OnFiles (R : δ → ε → Prop) (f : Files (υ × δ)) (g : Files (υ × ε)) : Prop :=
  f.pos = g.pos ∧ OnMachine R f.machine g.machine

section

variable (h : Wire.Simulates R wire wire') (at24 : At24Data) (fuel : Nat)
include h

/-- A read returns the same on related devices. -/
theorem readAt_sim (count : Nat) (pos : Int) {s : υ × δ} {t : υ × ε} (hst : OnMachine R s t) :
    Option.Rel (SameValues (OnMachine R)) (readAt host wire at24 fuel count pos s)
      (readAt host wire' at24 fuel count pos t) := by
  have hread := (h.env host).at24Read at24 pos (min count maxRwCount) fuel hst
  rw [readAt, readAt]
  generalize at24Read (machineEnv host wire) at24 pos (min count maxRwCount) fuel s = x at hread ⊢
  generalize at24Read (machineEnv host wire') at24 pos (min count maxRwCount) fuel t = y at hread ⊢
  cases hread with
  | none => exact .none
  | @some r r' hr =>
    obtain ⟨ret, pos', s'⟩ := r
    obtain ⟨_, _, t'⟩ := r'
    obtain ⟨rfl, rfl, hst'⟩ := hr
    refine .some ⟨?_, rfl, hst'⟩
    rw [hst'.1]

/-- A write returns the same on related devices. -/
theorem writeAt_sim (bytes : List Byte) (pos : Int) {s : υ × δ} {t : υ × ε}
    (hst : OnMachine R s t) :
    SameValues (OnMachine R) (writeAt host wire bytes pos s) (writeAt host wire' bytes pos t) := by
  have hput : OnMachine R (host.put s.1 bytes, s.2) (host.put t.1 bytes, t.2) :=
    ⟨congrArg (host.put · bytes) hst.1, hst.2⟩
  obtain ⟨hret, hpos, hnext⟩ := (h.env host).at24Write pos (min bytes.length maxRwCount) hput
  exact ⟨congrArg (fun ret => ({ ret, bytes := [] } : Outcome)) hret, hpos, hnext⟩

/-- A system call returns the same on related devices. -/
theorem Syscall.run_sim (c : Syscall) {f : Files (υ × δ)} {g : Files (υ × ε)}
    (hfg : OnFiles R f g) :
    Option.Rel (SameValue (OnFiles R)) (c.run host wire at24 fuel f)
      (c.run host wire' at24 fuel g) := by
  obtain ⟨pos, s⟩ := f
  obtain ⟨_, t⟩ := g
  obtain ⟨rfl, hst⟩ := hfg
  cases c with
  | openFile fd => exact .some ⟨rfl, rfl, hst⟩
  | read fd count =>
    apply SameValue.bind₂ (readAt_sim h at24 fuel count (pos fd) hst)
    intro out pos' s' t' hst'
    exact .some ⟨rfl, rfl, hst'⟩
  | write fd bytes =>
    obtain ⟨hout, hpos, hnext⟩ := writeAt_sim h bytes (pos fd) hst
    exact .some ⟨hout, congrArg (Function.update pos fd) hpos, hnext⟩
  | pread count p =>
    apply SameValue.bind₂ (readAt_sim h at24 fuel count p hst)
    intro out pos' s' t' hst'
    exact .some ⟨rfl, rfl, hst'⟩
  | pwrite bytes p =>
    obtain ⟨hout, -, hnext⟩ := writeAt_sim h bytes p hst
    exact .some ⟨hout, rfl, hnext⟩

/-- A session returns the same on related devices, by induction on its calls. -/
theorem session_sim (calls : List Syscall) {f : Files (υ × δ)} {g : Files (υ × ε)}
    (hfg : OnFiles R f g) :
    Option.Rel (SameValue (OnFiles R)) (session host wire at24 fuel calls f)
      (session host wire' at24 fuel calls g) := by
  induction calls generalizing f g with
  | nil => exact .some ⟨rfl, hfg⟩
  | cons c cs ih =>
    apply SameValue.bind (c.run_sim h at24 fuel hfg)
    intro out f' g' hfg'
    apply SameValue.bind (ih hfg')
    intro outs f'' g'' hfg''
    exact .some ⟨rfl, hfg''⟩

end

/-! ### The cells -/

/-- A chip of 256 cells that takes every operation. At most 32 bytes of a block come, and behind
    the last cell the first one follows. The length of a block is narrowed to the `u8` of the
    I2C core's prototype, which `Serves` and `eepromEnv` leave out: from 256 bytes on, that is
    for pages of more than 255 bytes, the two differ. -/
def cellsWire : Wire (Byte → Byte) where
  readBlock cells command len tmp :=
    let n := min (len % 256) 32
    (n, (List.range n).map (fun i => cells (command + BitVec.ofNat 8 i)) ++ tmp.drop n, cells)
  writeByteData cells command value := (0, Function.update cells command value)

/-- A host on which nothing fails. -/
def plainHost : Host (Nat → Byte) where
  kmalloc u size := (some (List.replicate size 0), u)
  copyToUser u off tmp len := (0, writeBytes u off (tmp.take len))
  copyFromUser u off := (0, u off, u)
  put u bytes := writeBytes u 0 bytes
  get u count := readBytes u 0 count

/-- The cells of `count` offsets from `pos` on. -/
def load (cells : Byte → Byte) (pos : Int) (count : Nat) : List Byte :=
  (List.range count).map fun i : Nat => cells (BitVec.ofInt 8 (pos + i))

/-- The writes of bytes to the offsets from `pos` on. -/
def placed (pos : Int) : List Byte → List (Byte × Byte)
  | [] => []
  | b :: bs => (BitVec.ofInt 8 pos, b) :: placed (pos + 1) bs

/-- As many cells are loaded as are asked for. -/
@[simp] theorem length_load (cells : Byte → Byte) (pos : Int) (count : Nat) :
    (load cells pos count).length = count := by
  simp [load]

/-- A load in two parts. -/
theorem load_add (cells : Byte → Byte) (pos : Int) (n k : Nat) :
    load cells pos (n + k) = load cells pos n ++ load cells (pos + n) k := by
  simp [load, List.range_add, Function.comp_def, Int.add_assoc]

/-- The front of a load. -/
theorem take_load (cells : Byte → Byte) (pos : Int) {n k : Nat} (h : n ≤ k) :
    (load cells pos k).take n = load cells pos n := by
  obtain ⟨j, rfl⟩ := Nat.exists_eq_add_of_le h
  rw [load_add, List.take_left' (length_load _ _ _)]

/-- Bytes are placed in the cells from `pos` on. -/
theorem mem_placed {pos : Int} {bytes : List Byte} {w : Byte × Byte} (h : w ∈ placed pos bytes) :
    ∃ i < bytes.length, w.1 = BitVec.ofInt 8 (pos + i) := by
  induction bytes generalizing pos with
  | nil => exact absurd h List.not_mem_nil
  | cons b bs ih =>
    rw [placed, List.mem_cons] at h
    rcases h with rfl | h
    · exact ⟨0, by simp, by simp⟩
    · obtain ⟨i, hi, hw⟩ := ih h
      refine ⟨i + 1, by simpa using hi, ?_⟩
      rw [hw, Nat.cast_add, Nat.cast_one, Int.add_comm (i : Int) 1, Int.add_assoc]

/-- Offsets closer than 256 name different cells. -/
theorem cell_ne (pos : Int) {i j : Nat} (hij : i ≠ j) (hi : i < 256) (hj : j < 256) :
    BitVec.ofInt 8 (pos + i) ≠ BitVec.ofInt 8 (pos + j) := by
  intro h
  have hcell := congrArg BitVec.toNat h
  rw [BitVec.toNat_ofInt, BitVec.toNat_ofInt] at hcell
  omega

/-- A write of at most 256 bytes is read back from its cells. -/
theorem load_placed (cells : Byte → Byte) (writes : List (Byte × Byte)) (pos : Int)
    (bytes : List Byte) (hfit : bytes.length ≤ 256) :
    load (lastWritten cells (writes ++ placed pos bytes)) pos bytes.length = bytes := by
  induction bytes generalizing writes pos with
  | nil => rfl
  | cons b bs ih =>
    rw [List.length_cons] at hfit
    have hrest := ih (writes ++ [(BitVec.ofInt 8 pos, b)]) (pos + 1) (by omega)
    have hfirst : lastWritten cells (writes ++ [(BitVec.ofInt 8 pos, b)] ++ placed (pos + 1) bs)
        (BitVec.ofInt 8 pos) = b := by
      rw [lastWritten_append_of_untouched, lastWritten_concat, Function.update_self]
      intro w hw
      obtain ⟨i, hi, hcell⟩ := mem_placed hw
      have hne := cell_ne pos (show i + 1 ≠ 0 by omega) (by omega) (by omega)
      rw [hcell, Int.add_assoc, Int.add_comm 1]
      simpa using hne
    have hone : ∀ cells : Byte → Byte, load cells pos 1 = [cells (BitVec.ofInt 8 pos)] := by
      simp [load]
    rw [placed, List.append_cons, List.length_cons, Nat.add_comm, load_add, Nat.cast_one, hrest,
      hone, hfirst]
    rfl

/-- What a block read from an offset on returns. -/
theorem load_eq (cells : Byte → Byte) (pos : Int) (n : Nat) :
    (List.range n).map (fun i => cells (BitVec.ofInt 8 pos + BitVec.ofNat 8 i)) =
      load cells pos n := by
  apply List.map_congr_left
  intro i _
  rw [BitVec.ofInt_add, BitVec.ofInt_natCast]

/-- The last eight bits do not change in an `unsigned int`. -/
theorem ofNat_toU32 (n : Int) : BitVec.ofNat 8 (toU32 n) = BitVec.ofInt 8 n := by
  apply BitVec.eq_of_toNat_eq
  rw [BitVec.toNat_ofNat, BitVec.toNat_ofInt]
  unfold toU32
  omega

/-- With pages of at most 128 bytes a chunk fits a `u8`, wherever it starts. -/
theorem readChunk_short (pageSize count i : Nat) (fPos : Int) (hps : 0 < pageSize)
    (hps' : pageSize ≤ 128) (hi : i < count) (hcount : count ≤ 4294836224) :
    (readChunk pageSize count fPos i).2 < 256 := by
  simp only [readChunk]
  have haddr := toU32_lt (fPos + toS32 i)
  generalize toU32 (fPos + toS32 i) = addr at haddr
  obtain ⟨hlo, hhi⟩ := tdiv_mul_close (toS32 (toU32 ((addr : Int) + pageSize))) pageSize hps
  generalize (toS32 (toU32 ((addr : Int) + pageSize))).tdiv pageSize * pageSize = e at hlo hhi
  have hlen : 1 ≤ toU32 (e - addr) ∧ toU32 (e - addr) < 2 * pageSize := by
    unfold toS32 toU32 at hlo hhi
    unfold toU32
    split at hlo <;> omega
  generalize toU32 (e - addr) = len at hlen
  unfold toU32
  split <;> omega

/-! ### One call -/

/-- A byte is stored with the first attempt. -/
theorem at24WriteRetry_memory (fPos : Int) {i : Nat} (hi : i < 2147483648) (value : Byte)
    (u : Nat → Byte) (cells : Byte → Byte) :
    at24WriteRetry (machineEnv plainHost cellsWire) fPos i value 0 (u, cells) =
      (0, u, Function.update cells (BitVec.ofInt 8 (fPos + i)) value) := by
  rw [at24WriteRetry]
  simp [machineEnv, cellsWire, toS32_of_lt hi]

/-- The loop stores the bytes one after the other, by induction on how many are left. -/
theorem at24WriteLoop_memory (count : Nat) (hcount : count < 2147483648) (fPos : Int) (i : Nat)
    (hi : i ≤ count) (u : Nat → Byte) (cells : Byte → Byte) :
    at24WriteLoop (machineEnv plainHost cellsWire) count fPos i (u, cells) =
      ((count : Int), fPos + count, u,
        (placed (fPos + i) (readBytes u i (count - i))).foldl
          (fun m w => Function.update m w.1 w.2) cells) := by
  induction hk : count - i generalizing i cells with
  | zero =>
    obtain rfl : i = count := by omega
    rw [at24WriteLoop]
    simp [placed, toS32_of_lt hcount]
  | succ k ih =>
    rw [at24WriteLoop, if_pos (by omega)]
    have hcopy : (machineEnv plainHost cellsWire).copyFromUser (u, cells) i =
      (0, u i, u, cells) := rfl
    simp only [hcopy, ne_eq, not_true_eq_false, ↓reduceIte,
      at24WriteRetry_memory fPos (show i < 2147483648 by omega), lt_self_iff_false]
    rw [ih (i + 1) (by omega) _ (by omega), readBytes_succ, placed, List.foldl_cons,
      Nat.cast_add, Nat.cast_one, Int.add_assoc]

/-- From the label `retry` on, with the bytes before `i` delivered. -/
theorem at24ReadLoop_memory (pageSize count : Nat) (hps : 0 < pageSize) (hps' : pageSize ≤ 128)
    (hcount : count < 2147483648) (fPos : Int) (cells : Byte → Byte) (ubuf : Nat → Byte)
    (fuel i : Nat) (tmp : List Byte) (hfuel : count - i ≤ fuel) (hi : i < count) :
    at24ReadLoop (machineEnv plainHost cellsWire) pageSize count fPos fuel
        (writeBytes ubuf 0 (load cells fPos i), cells) tmp i 0
        (readChunk pageSize count fPos i).1 (readChunk pageSize count fPos i).2 =
      some (↑count, writeBytes ubuf 0 (load cells fPos count), cells) := by
  -- one turn delivers `min len 32` bytes
  induction fuel generalizing i tmp with
  | zero => omega
  | succ fuel ih =>
    obtain ⟨hpos, hle⟩ := readChunk_le pageSize count i fPos hps (by omega) hi (by omega)
    have hshort := readChunk_short pageSize count i fPos hps hps' hi (by omega)
    have haddr : (readChunk pageSize count fPos i).1 = toU32 (fPos + i) := by
      rw [← toS32_of_lt (show i < 2147483648 by omega)]
      rfl
    generalize (readChunk pageSize count fPos i).2 = len at hpos hle hshort
    generalize hn : min len 32 = n
    have hread : (machineEnv plainHost cellsWire).readBlock
        (writeBytes ubuf 0 (load cells fPos i), cells) 0 (BitVec.ofNat 8 (toU32 (fPos + i)))
          len tmp =
        ((n : Int), load cells (fPos + i) n ++ tmp.drop n,
          writeBytes ubuf 0 (load cells fPos i), cells) := by
      simp only [machineEnv, cellsWire, ofNat_toU32, load_eq, Nat.mod_eq_of_lt hshort, hn]
    have hret : toU32 (n : Int) = n := toU32_of_lt (by omega)
    have hnext : toU32 ((i : Int) + (n : Int)) = i + n := toU32_of_lt (n := i + n) (by omega)
    have htake : (load cells (fPos + i) n ++ tmp.drop n).take n = load cells (fPos + i) n :=
      List.take_left' (length_load _ _ _)
    -- the chunk extends the delivered bytes
    have hcopy : (machineEnv plainHost cellsWire).copyToUser
        (writeBytes ubuf 0 (load cells fPos i), cells) i (load cells (fPos + i) n ++ tmp.drop n) n =
        (0, writeBytes ubuf 0 (load cells fPos (i + n)), cells) := by
      simp only [machineEnv, plainHost, htake]
      rw [load_add, writeBytes_append, length_load, Nat.zero_add]
    rw [at24ReadLoop, haddr, hread]
    simp only [hret, show ¬ n ≤ 0 by omega, ↓reduceIte, hcopy, ne_eq, not_true_eq_false, hnext]
    split
    · next hmore => exact ih (i + n) _ (by omega) hmore
    · next hdone =>
      rw [show i + n = count by omega, toS32_of_lt hcount]

/-- A write stores all its bytes and returns their number. -/
theorem at24Write_memory (fPos : Int) (count : Nat) (hcount : count < 2147483648) (u : Nat → Byte)
    (cells : Byte → Byte) :
    at24Write (machineEnv plainHost cellsWire) fPos count (u, cells) =
      ((count : Int), fPos + count, u,
        (placed fPos (readBytes u 0 count)).foldl (fun m w => Function.update m w.1 w.2)
          cells) := by
  rw [at24Write, at24WriteLoop_memory count hcount fPos 0 (Nat.zero_le _) u cells]
  simp

/-- A read below the end returns its count, and the cells. With a page of at most 128 bytes no
    length wraps. -/
theorem at24Read_memory (at24 : At24Data) (hps : 0 < at24.chip.pageSize)
    (hps' : at24.chip.pageSize ≤ 128) (fPos : Int) (hpos : fPos < at24.chip.byteLen) (count : Nat)
    (hcount : count < 2147483648) (fuel : Nat) (hfuel : count ≤ fuel) (u : Nat → Byte)
    (cells : Byte → Byte) :
    at24Read (machineEnv plainHost cellsWire) at24 fPos count fuel (u, cells) =
      some ((count : Int), fPos + count, writeBytes u 0 (load cells fPos count), cells) := by
  have hmalloc : (machineEnv plainHost cellsWire).kmalloc (u, cells) at24.chip.pageSize =
      (some (List.replicate at24.chip.pageSize 0), u, cells) := rfl
  rw [at24Read, if_neg (by omega)]
  simp only [hmalloc]
  by_cases hc : count = 0
  · subst hc
    simp [load]
  · have hloop := at24ReadLoop_memory at24.chip.pageSize count hps hps' hcount fPos cells u fuel 0
      (List.replicate at24.chip.pageSize 0) (by omega) (by omega)
    simp only [load, List.range_zero, List.map_nil, writeBytes_nil] at hloop
    rw [if_pos (by omega), hloop]
    simp [load, show 0 < count by omega]

/-- A read from the end on returns 0. -/
theorem at24Read_behind (at24 : At24Data) (fPos : Int) (hpos : at24.chip.byteLen ≤ fPos)
    (count fuel : Nat) (s : (Nat → Byte) × (Byte → Byte)) :
    at24Read (machineEnv plainHost cellsWire) at24 fPos count fuel s = some (0, fPos, s) := by
  rw [at24Read, if_pos hpos]

/-! ### What a session returns -/

/-- The positions of the open files, and all writes so far, each to a cell. -/
structure Story where
  pos : Nat → Int
  writes : List (Byte × Byte)

/-- What a read at `pos` gets, and by how much it moves the position. -/
def readTold (at24 : At24Data) (cells : Byte → Byte) (writes : List (Byte × Byte)) (count : Nat)
    (pos : Int) : Outcome :=
  if at24.chip.byteLen ≤ pos then { ret := 0, bytes := [] }
  else
    { ret := ((min count maxRwCount : Nat) : Int)
      bytes := load (lastWritten cells writes) pos (min count maxRwCount) }

/-- The bytes of a write that are stored. -/
def cut (bytes : List Byte) : List Byte := bytes.take maxRwCount

/-- The outcome of a call behind the story so far, and the story with the call. -/
def Syscall.told (at24 : At24Data) (cells : Byte → Byte) (f : Story) : Syscall → Outcome × Story
  | .openFile fd => ({ ret := 0, bytes := [] }, { f with pos := Function.update f.pos fd 0 })
  | .read fd count =>
    let out := readTold at24 cells f.writes count (f.pos fd)
    (out, { f with pos := Function.update f.pos fd (f.pos fd + out.ret) })
  | .write fd bytes =>
    ({ ret := (cut bytes).length, bytes := [] },
      { pos := Function.update f.pos fd (f.pos fd + (cut bytes).length)
        writes := f.writes ++ placed (f.pos fd) (cut bytes) })
  | .pread count pos => (readTold at24 cells f.writes count pos, f)
  | .pwrite bytes pos =>
    ({ ret := (cut bytes).length, bytes := [] },
      { f with writes := f.writes ++ placed pos (cut bytes) })

/-- The outcomes of the calls one after the other. -/
def story (at24 : At24Data) (cells : Byte → Byte) : List Syscall → Story → List Outcome × Story
  | [], f => ([], f)
  | c :: cs, f =>
    let (out, f) := c.told at24 cells f
    let (outs, f) := story at24 cells cs f
    (out :: outs, f)

/-- The story is that of the machine: the positions are the same, and a cell holds what was
    last written to it. -/
structure Tells (cells : Byte → Byte) (f : Story) (g : Files ((Nat → Byte) × (Byte → Byte))) :
    Prop where
  pos : g.pos = f.pos
  cells : g.machine.2 = lastWritten cells f.writes

section

variable {at24 : At24Data} (hps : 0 < at24.chip.pageSize) (hps' : at24.chip.pageSize ≤ 128)
variable {fuel : Nat} (hfuel : maxRwCount ≤ fuel) (cells : Byte → Byte)

/-- The kernel's bound on a count keeps it an `int`. -/
theorem maxRwCount_lt (count : Nat) : min count maxRwCount < 2147483648 :=
  Nat.lt_of_le_of_lt (Nat.min_le_right _ _) (by decide)

/-- A write does what the story tells. -/
theorem writeAt_told (bytes : List Byte) (pos : Int) (u : Nat → Byte)
    (writes : List (Byte × Byte)) :
    ∃ u', writeAt plainHost cellsWire bytes pos (u, lastWritten cells writes) =
      ({ ret := (cut bytes).length, bytes := [] }, pos + (cut bytes).length, u',
        lastWritten cells (writes ++ placed pos (cut bytes))) := by
  have hbuf : readBytes (writeBytes u 0 bytes) 0 (min bytes.length maxRwCount) = cut bytes := by
    have htake := take_drop_readBytes (writeBytes u 0 bytes) 0
      (show 0 + min bytes.length maxRwCount ≤ bytes.length by omega)
    rw [readBytes_writeBytes, List.drop_zero, Nat.min_comm, ← List.take_eq_take_min] at htake
    rw [Nat.min_comm, cut, htake]
  have hlen : (cut bytes).length = min bytes.length maxRwCount := by
    rw [cut, List.length_take, Nat.min_comm]
  have hput : (plainHost.put u bytes, lastWritten cells writes) =
      (writeBytes u 0 bytes, lastWritten cells writes) := rfl
  refine ⟨writeBytes u 0 bytes, ?_⟩
  rw [writeAt, hput, at24Write_memory pos _ (maxRwCount_lt _), hbuf, foldl_update, hlen]

include hps hps' hfuel in
/-- A read gets what the story tells. -/
theorem readAt_told (count : Nat) (pos : Int) (u : Nat → Byte) (writes : List (Byte × Byte)) :
    ∃ u', readAt plainHost cellsWire at24 fuel count pos (u, lastWritten cells writes) =
      some (readTold at24 cells writes count pos,
        pos + (readTold at24 cells writes count pos).ret, u', lastWritten cells writes) := by
  rw [readAt, readTold]
  by_cases hpos : at24.chip.byteLen ≤ pos
  · refine ⟨u, ?_⟩
    rw [at24Read_behind at24 pos hpos, if_pos hpos]
    simp [plainHost]
  · have hread := at24Read_memory at24 hps hps' pos (by omega) (min count maxRwCount)
      (maxRwCount_lt count) fuel (by omega) u (lastWritten cells writes)
    refine ⟨writeBytes u 0 (load (lastWritten cells writes) pos (min count maxRwCount)), ?_⟩
    rw [hread, if_neg hpos]
    have hget :=
      readBytes_writeBytes u 0 (load (lastWritten cells writes) pos (min count maxRwCount))
    rw [length_load] at hget
    simp only [plainHost, Option.bind_eq_bind, Option.bind_some, Int.toNat_natCast,
      hget]
    rfl

include hps hps' hfuel in
/-- A system call returns what the story tells, and the machine goes on with the story. -/
theorem Syscall.run_told (c : Syscall) {f : Story} {g : Files ((Nat → Byte) × (Byte → Byte))}
    (h : Tells cells f g) :
    ∃ g', c.run plainHost cellsWire at24 fuel g = some ((c.told at24 cells f).1, g') ∧
      Tells cells (c.told at24 cells f).2 g' := by
  obtain ⟨pos, u, mem⟩ := g
  obtain ⟨fpos, writes⟩ := f
  obtain ⟨hpos, hmem⟩ := h
  obtain rfl : pos = fpos := hpos
  obtain rfl : mem = lastWritten cells writes := hmem
  cases c with
  | openFile fd => exact ⟨_, rfl, rfl, rfl⟩
  | read fd count =>
    obtain ⟨u', hread⟩ := readAt_told hps hps' hfuel cells count (pos fd) u writes
    exact ⟨_, by rw [Syscall.run, hread]; rfl, rfl, rfl⟩
  | write fd bytes =>
    obtain ⟨u', hwrite⟩ := writeAt_told cells bytes (pos fd) u writes
    exact ⟨_, by rw [Syscall.run, hwrite]; rfl, rfl, rfl⟩
  | pread count p =>
    obtain ⟨u', hread⟩ := readAt_told hps hps' hfuel cells count p u writes
    exact ⟨_, by rw [Syscall.run, hread]; rfl, rfl, rfl⟩
  | pwrite bytes p =>
    obtain ⟨u', hwrite⟩ := writeAt_told cells bytes p u writes
    exact ⟨_, by rw [Syscall.run, hwrite]; rfl, rfl, rfl⟩

end

end At24
