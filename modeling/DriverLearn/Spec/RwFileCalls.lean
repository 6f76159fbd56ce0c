import DriverLearn.Native.RwFile

/-!
# What the test program holds

`rw_file` may fail at the `malloc`, at the `open`, at the `read` and at the `write`, and its
labels undo what was done until then. Whatever the calls return, the buffer is there when a
read fills it, with room for what is asked for, the file is used while it is open, and in the
end both are given back.

## Key results

- `main_settles`: every run, with any arguments
-/

namespace RwFile

open Word

/-! ### Runs -/

/-- A call that takes, uses or gives back something, with what it returned. -/
inductive Call where
  | malloc (size : Nat) (ok : Bool)
  | free
  | openFile (fd : Int)
  | read (fd : Int) (count : Nat)
  | write (fd : Int)
  | close (fd : Int)

/-- What the calls return, which may depend on all calls so far. -/
structure Answers where
  malloc : List Call → Bool
  openFile : List Call → Int
  read : List Call → Int × (Nat → Byte)
  write : List Call → Int

/-- The calls of a run, in order. -/
def answered (a : Answers) : Posix (StateM (List Call)) where
  printf _ := return ()
  malloc size := modifyGet fun cs => (a.malloc cs, cs ++ [.malloc size (a.malloc cs)])
  free := modify (· ++ [.free])
  openFile _ := modifyGet fun cs => (a.openFile cs, cs ++ [.openFile (a.openFile cs)])
  read fd count := modifyGet fun cs => (a.read cs, cs ++ [.read fd count])
  write fd _ := modifyGet fun cs => (a.write cs, cs ++ [.write fd])
  close fd := modify (· ++ [.close fd])

/-! ### What is held -/

/-- The size of the buffer and the open file. -/
structure Held where
  buffer : Option Nat
  file : Option Int
  deriving DecidableEq

/-- What a call does to it; `none` where the call uses or gives back what is not held. -/
def Held.after (h : Held) : Call → Option Held
  | .malloc size ok =>
    if h.buffer = none then some (if ok then { h with buffer := some size } else h) else none
  | .free => if h.buffer = none then none else some { h with buffer := none }
  | .openFile fd =>
    if h.file = none then some (if fd < 0 then h else { h with file := some fd }) else none
  | .read fd count =>
    if h.file = some fd ∧ ∃ size ∈ h.buffer, count ≤ size then some h else none
  | .write fd => if h.file = some fd then some h else none
  | .close fd => if h.file = some fd then some { h with file := none } else none

/-- The calls take and use things in a right order, and `h` is held behind them. -/
def Settles (cs : List Call) (h : Held) : Prop := cs.foldlM Held.after ⟨none, none⟩ = some h

/-- One call more at the end. -/
theorem Settles.call {cs : List Call} {h h' : Held} {c : Call} (hcs : Settles cs h)
    (hc : h.after c = some h') : Settles (cs ++ [c]) h' := by
  rw [Settles, List.foldlM_append, hcs]
  simpa using hc

/-! ### The parts of the program -/

variable {a : Answers} {cs : List Call}

/-- Printing takes and uses nothing. -/
@[simp] theorem printf_answered (parts : List Printed) :
    ((answered a).printf parts).run cs = pure ((), cs) := rfl

/-- Neither does printing many lines. -/
theorem forM_answered (f : Nat → List Printed) (is : List Nat) :
    (forM is fun i => (answered a).printf (f i)).run cs = pure ((), cs) := by
  induction is with
  | nil => rfl
  | cons i is ih => simp [ih]

/-- The read of the program is one call. -/
theorem readFile_calls (a : Answers) (cs : List Call) (fd len : Int) :
    ∃ ret, (readFile (answered a) fd len).run cs = pure (ret, cs ++ [.read fd (toU32 len)]) := by
  have hread : ((answered a).read fd (toU32 len)).run cs =
    pure (a.read cs, cs ++ [.read fd (toU32 len)]) := rfl
  by_cases hret : (a.read cs).1 < 0
  · exact ⟨(a.read cs).1, by simp [readFile, hread, hret]⟩
  · exact ⟨0, by simp [readFile, hread, hret, forM_answered]⟩

/-- The write of the program is one call. -/
theorem writeFile_calls (a : Answers) (cs : List Call) (fd : Int) (arg : List Byte) :
    ∃ ret, (writeFile (answered a) fd arg).run cs = pure (ret, cs ++ [.write fd]) := by
  have hwrite : ((answered a).write fd (arg ++ [0#8])).run cs =
      pure (a.write cs, cs ++ [.write fd]) := rfl
  by_cases hret : a.write cs < 0
  · exact ⟨a.write cs, by simp [writeFile, hwrite, hret]⟩
  · exact ⟨0, by simp [writeFile, hwrite, hret]⟩

/-- What is behind the label `mem_free`. -/
theorem memFree_settles {buffer : Option Nat} (hcs : Settles cs ⟨buffer, none⟩) (ret : Int) :
    ∃ cs', (memFree (answered a) buffer.isSome ret).run cs = pure (ret, cs') ∧
      Settles cs' ⟨none, none⟩ := by
  cases buffer with
  | none => exact ⟨cs, rfl, hcs⟩
  | some size => exact ⟨cs ++ [.free], rfl, hcs.call rfl⟩

/-- The transfer uses the file, and for a read the buffer. -/
theorem transferFile_settles {buffer : Option Nat} {reads : Bool} {len : Int}
    (hbuf : reads = true → buffer = some (toU32 len)) {fd : Int}
    (hcs : Settles cs ⟨buffer, some fd⟩) (arg : List Byte) :
    ∃ ret cs', (transferFile (answered a) reads fd arg len).run cs = pure (ret, cs') ∧
      Settles cs' ⟨buffer, some fd⟩ := by
  cases reads with
  | true =>
    obtain ⟨ret, hrun⟩ := readFile_calls a cs fd len
    refine ⟨ret, _, hrun, hcs.call ?_⟩
    simp [Held.after, hbuf rfl]
  | false =>
    obtain ⟨ret, hrun⟩ := writeFile_calls a cs fd arg
    exact ⟨ret, _, hrun, hcs.call (if_pos rfl)⟩

/-- From the open on all that is held is given back. -/
theorem useFile_settles {buffer : Option Nat} {reads : Bool} {len : Int}
    (hbuf : reads = true → buffer = some (toU32 len)) (hcs : Settles cs ⟨buffer, none⟩)
    (path arg : List Byte) :
    ∃ ret cs', (useFile (answered a) reads buffer.isSome path arg len).run cs = pure (ret, cs') ∧
      Settles cs' ⟨none, none⟩ := by
  have hopen : ((answered a).openFile path).run cs =
    pure (a.openFile cs, cs ++ [.openFile (a.openFile cs)]) := rfl
  by_cases hfd : a.openFile cs < 0
  · have hfailed : Settles (cs ++ [.openFile (a.openFile cs)]) ⟨buffer, none⟩ :=
      hcs.call (by simp [Held.after, hfd])
    obtain ⟨cs', hfree, hend⟩ := memFree_settles (a := a) hfailed (-1)
    exact ⟨-1, cs', by simp [useFile, hopen, hfd, hfree], hend⟩
  · have hopened : Settles (cs ++ [.openFile (a.openFile cs)]) ⟨buffer, some (a.openFile cs)⟩ :=
      hcs.call (by simp [Held.after, hfd])
    obtain ⟨ret, cs₁, hbody, hcs₁⟩ := transferFile_settles (a := a) hbuf hopened arg
    have hclosed : Settles (cs₁ ++ [.close (a.openFile cs)]) ⟨buffer, none⟩ :=
      hcs₁.call (if_pos rfl)
    obtain ⟨cs', hfree, hend⟩ := memFree_settles (a := a) hclosed ret
    have hclose : ((answered a).close (a.openFile cs)).run cs₁ =
      pure ((), cs₁ ++ [.close (a.openFile cs)]) := rfl
    exact ⟨ret, cs', by simp [useFile, hopen, hfd, hbody, hclose, hfree], hend⟩

/-- Whatever the calls return, nothing is used that is not held, and nothing is held in the
    end. -/
theorem main_settles (a : Answers) (argv : List (List Byte)) :
    ∃ ret cs, (main (answered a) argv).run [] = pure (ret, cs) ∧ Settles cs ⟨none, none⟩ := by
  have hnil : Settles [] ⟨none, none⟩ := rfl
  unfold main
  split
  · next path mode arg =>
    split
    · -- the file is read
      by_cases hlen : atoi arg = 0
      · exact ⟨0, [], by simp [hlen], hnil⟩
      have hmalloc : ((answered a).malloc (toU32 (atoi arg))).run [] =
        pure (a.malloc [], [.malloc (toU32 (atoi arg)) (a.malloc [])]) := rfl
      cases hok : a.malloc [] with
      | false =>
        have hfailed : Settles [.malloc (toU32 (atoi arg)) false] ⟨none, none⟩ := rfl
        exact ⟨-1, _, by simp [hlen, hmalloc, hok], hfailed⟩
      | true =>
        have htaken :
            Settles [.malloc (toU32 (atoi arg)) true] ⟨some (toU32 (atoi arg)), none⟩ := rfl
        have hbuf : true = true → some (toU32 (atoi arg)) = some (toU32 (atoi arg)) := fun _ => rfl
        obtain ⟨ret, cs, hrun, hend⟩ := useFile_settles (a := a) hbuf htaken path arg
        rw [Option.isSome_some] at hrun
        exact ⟨ret, cs, by simp [hlen, hmalloc, hok, hrun], hend⟩
    · split
      · -- the file is written
        have hbuf : false = true → (none : Option Nat) = some (toU32 0) := nofun
        exact useFile_settles hbuf hnil path arg
      · exact ⟨-1, [], rfl, hnil⟩
  · exact ⟨-1, [], rfl, hnil⟩

end RwFile
