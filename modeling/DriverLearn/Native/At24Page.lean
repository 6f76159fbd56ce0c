import DriverLearn.Native.At24cxx

/-!
# EEPROM driver: writing by pages

Model of the `at24_write` of `at24cxx_drv.c` that stands under `#if 0`. It sends a page in one
SMBus call, where the one that is compiled sends each byte alone. What it calls is a
parameter, as for the others.
-/

namespace At24

open Word

/-- What the function calls: `copyFromUser` copies `len` bytes from an offset of the user
    buffer to `tmp`, and returns how many were not copied. -/
structure At24PageEnv (σ : Type) where
  kmalloc : σ → (size : Nat) → Option (List Byte) × σ
  copyFromUser : σ → (off : Nat) → (tmp : List Byte) → (len : Nat) → Nat × List Byte × σ
  writeBlock : σ → (client : Nat) → (command : Byte) → (len : Nat) → (tmp : List Byte) → Int × σ

section

variable {σ : Type} (env : At24PageEnv σ)

/-- The label `retry`, with the number of failures, which is not reset behind a success. -/
def at24PageRetry (addr len : Nat) (tmp : List Byte) (errCount : Nat) (s : σ) : Int × Nat × σ :=
  let (ret, s) := env.writeBlock s 0 (BitVec.ofNat 8 addr) len tmp
  if ret < 0 then
    if errCount < 5 then
      at24PageRetry addr len tmp (errCount + 1) s
    else
      (ret, errCount + 1, s)
  else
    (ret, errCount, s)
termination_by 5 - errCount

/-- The loop, with the value to return. One unit of fuel pays for one turn. -/
def at24PageLoop (pageSize count : Nat) (fPos : Int) :
    (fuel : Nat) → (tmp : List Byte) → (i errCount : Nat) → σ → Option (Int × σ)
  | 0, _, _, _, _ => none
  | fuel + 1, tmp, i, errCount, s =>
    if i < count then
      let (addr, len) := readChunk pageSize count fPos i
      let (left, tmp, s) := env.copyFromUser s i tmp len
      if left ≠ 0 then
        some (eFault, s)
      else
        let (ret, errCount, s) := at24PageRetry env addr len tmp errCount s
        if ret < 0 then
          some (ret, s)
        else
          at24PageLoop pageSize count fPos fuel tmp (toU32 (i + len)) errCount s
    else
      some (toS32 i, s)

def at24WritePages (at24 : At24Data) (fPos : Int) (count fuel : Nat) (s : σ) :
    Option (Int × Int × σ) :=
  let pageSize := at24.chip.pageSize
  if fPos ≥ at24.chip.byteLen then
    some (0, fPos, s)
  else
    match env.kmalloc s pageSize with
    | (none, s) => some (eFault, fPos, s)
    | (some tmp, s) => do
      let (ret, s) ← at24PageLoop env pageSize count fPos fuel tmp 0 0 s
      return (ret, if ret > 0 then fPos + ret else fPos, s)

end

end At24
