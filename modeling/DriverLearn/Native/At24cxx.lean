import DriverLearn.ForStd.Word

/-!
# EEPROM driver

Model of `at24cxx_drv.c`: the chip data `at24_probe` accepts, `at24_read` and
`at24_write`. What the driver calls (the SMBus operations, `kmalloc` and the user
copies) is a parameter `At24Env` over a state `σ` of its own. `size_t`, `int` and
`unsigned` have 32 bits, `loff_t` is an integer.
-/

namespace At24

open Word

/-- `-EINVAL` -/
def eInval : Int := -22

/-- `-EFAULT` -/
def eFault : Int := -14

/-- The fields of `struct at24_platform_data` the driver uses, a `u32` and a `u16`. -/
structure At24PlatformData where
  byteLen : Nat
  pageSize : Nat
  byteLen_lt : byteLen < 4294967296
  pageSize_lt : pageSize < 65536

/-- `struct at24_data` -/
structure At24Data where
  chip : At24PlatformData
  numAddresses : Nat

/-- `#define AT24_SIZE_BYTELEN 5` -/
def at24SizeBytelen : Nat := 5

/-- The chip `at24_probe` works with: the platform data if there are any, else what the
    magic of the device id encodes. -/
def probeChip (platformData : Option At24PlatformData) (driverData : Nat) :
    At24PlatformData :=
  match platformData with
  | some pd => pd
  | none =>
    { byteLen := 1 <<< (driverData % 2 ^ at24SizeBytelen)
      pageSize := 8
      byteLen_lt := by
        have hexp : driverData % 2 ^ at24SizeBytelen < 32 := Nat.mod_lt _ (by decide)
        rw [Nat.one_shiftLeft]
        calc 2 ^ (driverData % 2 ^ at24SizeBytelen) ≤ 2 ^ 31 :=
              Nat.pow_le_pow_right (by decide) (by omega)
          _ < 4294967296 := by decide
      pageSize_lt := by decide }

/-- The first part of `at24_probe`: a page size of 0 is rejected. -/
def at24ProbeChip (platformData : Option At24PlatformData) (driverData : Nat) :
    Except Int At24Data :=
  let chip := probeChip platformData driverData
  if chip.pageSize = 0 then
    .error eInval
  else
    .ok { chip, numAddresses := toU32 (chip.byteLen + 255) / 256 }

/-- The functions `at24_read` and `at24_write` call. `readBlock` fills the front of `tmp`
    and `writeByteData` sends one byte, both to `client[k]` and with an 8-bit command;
    `copyToUser` copies `len` bytes of `tmp` to the offset of the user buffer and
    `copyFromUser` one byte from it, and both return the number of bytes not copied. -/
structure At24Env (σ : Type) where
  kmalloc : σ → (size : Nat) → Option (List Byte) × σ
  readBlock : σ → (client : Nat) → (command : Byte) → (len : Nat) → (tmp : List Byte) →
    Int × List Byte × σ
  writeByteData : σ → (client : Nat) → (command value : Byte) → Int × σ
  copyToUser : σ → (off : Nat) → (tmp : List Byte) → (len : Nat) → Nat × σ
  copyFromUser : σ → (off : Nat) → Nat × Byte × σ

section

variable {σ : Type} (env : At24Env σ)

/-! ### at24_read -/

/-- `addr` and `len` at the head of the loop body. -/
def readChunk (pageSize count : Nat) (fPos : Int) (i : Nat) : Nat × Nat :=
  let addr := toU32 (fPos + toS32 i)
  let len := toU32 ((toS32 (toU32 (addr + pageSize))).tdiv pageSize * pageSize - addr)
  let len := if toU32 (len + i) > count then toU32 (count - i) else len
  (addr, len)

/-- The loop of `at24_read` from the label `retry` on, with the value to return. One unit
    of fuel pays for one SMBus call. -/
def at24ReadLoop (pageSize count : Nat) (fPos : Int) :
    (fuel : Nat) → σ → (tmp : List Byte) → (i errCount addr len : Nat) → Option (Int × σ)
  | 0, _, _, _, _, _, _ => none
  | fuel + 1, s, tmp, i, errCount, addr, len =>
    let (r, tmp, s) := env.readBlock s 0 (BitVec.ofNat 8 addr) len tmp
    -- `len` is unsigned, so only a result of 0 counts as a failure
    let len := toU32 r
    if len ≤ 0 then
      if errCount < 5 then
        at24ReadLoop pageSize count fPos fuel s tmp i (errCount + 1) addr len
      else
        some (toS32 i, s)
    else
      let (left, s) := env.copyToUser s i tmp len
      if left ≠ 0 then
        some (eFault, s)
      else
        let i := toU32 (i + len)
        if i < count then
          let (addr, len) := readChunk pageSize count fPos i
          at24ReadLoop pageSize count fPos fuel s tmp i 0 addr len
        else
          some (toS32 i, s)

/-- The return value, the file position behind the call, and the state. -/
def at24Read (at24 : At24Data) (fPos : Int) (count fuel : Nat) (s : σ) :
    Option (Int × Int × σ) :=
  let pageSize := at24.chip.pageSize
  if fPos ≥ at24.chip.byteLen then
    some (0, fPos, s)
  else
    match env.kmalloc s pageSize with
    | (none, s) => some (eFault, fPos, s)
    | (some tmp, s) => do
      let (ret, s) ←
        if 0 < count then
          let (addr, len) := readChunk pageSize count fPos 0
          at24ReadLoop env pageSize count fPos fuel s tmp 0 0 addr len
        else
          some (0, s)
      return (ret, if ret > 0 then fPos + ret else fPos, s)

/-! ### at24_write -/

/-- The label `retry` of `at24_write`: send the byte until it is taken or has failed for
    the sixth time. -/
def at24WriteRetry (fPos : Int) (i : Nat) (tmp : Byte) (errCount : Nat) (s : σ) : Int × σ :=
  let (ret, s) := env.writeByteData s 0 (BitVec.ofInt 8 (fPos + toS32 i)) tmp
  if ret < 0 then
    if errCount < 5 then
      at24WriteRetry fPos i tmp (errCount + 1) s
    else
      (ret, s)
  else
    (ret, s)
termination_by 5 - errCount

/-- The loop of `at24_write`, with the return value and the file position. -/
def at24WriteLoop (count : Nat) (fPos : Int) (i : Nat) (s : σ) : Int × Int × σ :=
  if i < count then
    let (left, tmp, s) := env.copyFromUser s i
    if left ≠ 0 then
      (eFault, fPos, s)
    else
      let (ret, s) := at24WriteRetry env fPos i tmp 0 s
      if ret < 0 then
        (ret, fPos, s)
      else
        at24WriteLoop count fPos (i + 1) s
  else
    (toS32 i, fPos + toS32 i, s)
termination_by count - i

def at24Write (fPos : Int) (count : Nat) (s : σ) : Int × Int × σ :=
  at24WriteLoop env count fPos 0 s

end

end At24
