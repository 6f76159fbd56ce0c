import DriverLearn.ForStd.Word

/-!
# The test program of the EEPROM

Model of `rw_file.c`, in a monad `m` with what the program calls as a parameter `Posix`. A
string is the list of its bytes without the 0 at its end, and a line of output the list of
its parts. `int` and `size_t` have 32 bits.
-/

namespace RwFile

open Word

/-- A part of the output: text of the format, a string, a number (`%d`) or a byte (`%c`). -/
inductive Printed where
  | text (s : String)
  | str (bytes : List Byte)
  | int (n : Int)
  | chr (b : Byte)
  deriving DecidableEq, Repr

/-- What the program calls. `malloc` says whether there was memory, `read` also returns what
    is in the buffer behind it, and `write` gets the bytes of its buffer. -/
structure Posix (m : Type → Type) where
  printf : List Printed → m Unit
  malloc : (size : Nat) → m Bool
  free : m Unit
  openFile : (path : List Byte) → m Int
  read : (fd : Int) → (count : Nat) → m (Int × (Nat → Byte))
  write : (fd : Int) → (bytes : List Byte) → m Int
  close : (fd : Int) → m Unit

/-- `isspace` -/
def isSpace (b : Byte) : Bool := b == 32 || (9 ≤ b && b ≤ 13)

def isDigit (b : Byte) : Bool := 48 ≤ b && b ≤ 57

/-- The digits at the front of a string, as a number. -/
def digits (bytes : List Byte) : Nat :=
  (bytes.takeWhile isDigit).foldl (fun n b => 10 * n + (b.toNat - 48)) 0

/-- `atoi`, which takes what does not fit for the nearest `int`. -/
def atoi (bytes : List Byte) : Int :=
  let n : Int :=
    match bytes.dropWhile isSpace with
    | 45 :: rest => -digits rest
    | 43 :: rest => digits rest
    | rest => digits rest
  max (-2147483648) (min n 2147483647)

/-- The strings `"r"` and `"w"`. -/
def r : List Byte := [114]
def w : List Byte := [119]

section

variable {m : Type → Type} [Monad m] (env : Posix m)

def printUsage (file : List Byte) : m Unit := do
  env.printf [.text "Operation fail:\n"]
  env.printf [.text "Usage:\n"]
  env.printf [.str file, .text " <file_name> <r/w> <num/string>\n"]

/-- The part for `r` behind the `open`: the value of `ret` at the label `file_close`. -/
def readFile (fd len : Int) : m Int := do
  let (ret, buf) ← env.read fd (toU32 len)
  if ret < 0 then
    env.printf [.text "read error\n"]
    return ret
  env.printf [.text "actual read ", .int ret, .text " byte\n"]
  forM (List.range ret.toNat) fun i => env.printf [.chr (buf i), .text ","]
  env.printf [.text "\n"]
  return 0

/-- The part for `w`. -/
def writeFile (fd : Int) (arg : List Byte) : m Int := do
  let len : Int := arg.length + 1
  env.printf [.text "write ", .int len, .text " byte\n"]
  let ret ← env.write fd (arg ++ [0])
  if ret < 0 then
    env.printf [.text "write error\n"]
    return ret
  env.printf [.text "actual write ", .int ret, .text " byte\n"]
  return 0

/-- The open file is read if `reads`, and else written. -/
def transferFile (reads : Bool) (fd : Int) (arg : List Byte) (len : Int) : m Int :=
  if reads then readFile env fd len else writeFile env fd arg

/-- The label `mem_free`: `buf` says whether the pointer is not NULL. -/
def memFree (buf : Bool) (ret : Int) : m Int := do
  if buf then env.free
  return ret

/-- From the `open` on. -/
def useFile (reads buf : Bool) (path arg : List Byte) (len : Int) : m Int := do
  let fd ← env.openFile path
  if fd < 0 then
    env.printf [.text "Can't open ", .str path, .text "\n"]
    memFree env buf (-1)
  else
    let ret ← transferFile env reads fd arg len
    env.close fd
    memFree env buf ret

def main (argv : List (List Byte)) : m Int :=
  match argv with
  | [_, path, mode, arg] =>
    if mode = r then do
      let len := atoi arg
      env.printf [.text "read ", .int len, .text " byte\n"]
      if len = 0 then
        return 0
      else if ← env.malloc (toU32 len) then
        useFile env true true path arg len
      else
        env.printf [.text "alloc memory failed\n"]
        return -1
    else if mode = w then
      useFile env false false path arg 0
    else do
      printUsage env (argv.headD [])
      return -1
  | _ => do
    printUsage env (argv.headD [])
    return -1

end

end RwFile
