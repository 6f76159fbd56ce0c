import DriverLearn.ForStd.Run
import DriverLearn.Native.KeyIrq

/-!
# Key interrupts over sequences of opens and closes

The key device should hold its four interrupt lines exactly while a file is open. The
second of two opens registers nothing and still succeeds, so the first close takes the
lines away from the file that remains. The law holds over a run iff every close finds
at most one open file.

## Key results

- `myKeyOpen_free` / `myKeyOpen_held` / `myKeyClose_held`: one call in each state
- `linesHeld_iff`: the exact condition over whole runs
-/

namespace KeyIrq

/-- The index into `pins_desc` a line is registered with. -/
def Line.devId : Line → Nat
  | .eint0 => 0
  | .eint2 => 1
  | .eint11 => 2
  | .eint19 => 3

/-- No line has a handler. -/
def IrqCore.Free (c : IrqCore) : Prop := ∀ line, c.action line = none

/-- Every line has the handler of this driver. -/
def IrqCore.Held (c : IrqCore) : Prop := ∀ line, c.action line = some line.devId

/-- The law in one state: while a file is open the handlers of all lines are registered,
    and no close so far freed a line that was not. -/
def LinesHeld (d : Device) : Prop := (d.files ≠ [] → d.core.Held) ∧ d.core.badFree = []

/-- A close needs an open file of the process. -/
def Valid (d : Device) : Op → Prop
  | .open _ => True
  | .close pid => pid ∈ d.files

/-- A close finds at most one open file. -/
def SoleClose (d : Device) : Op → Prop
  | .open _ => True
  | .close _ => d.files.length ≤ 1

/-! ### One call -/

theorem myKeyOpen_ret (c : IrqCore) : (myKeyOpen c).1 = 0 := rfl

theorem myKeyOpen_free {c : IrqCore} (h : c.Free) :
    (myKeyOpen c).2.Held ∧ (myKeyOpen c).2.badFree = c.badFree := by
  have h0 := h .eint0
  have h2 := h .eint2
  have h11 := h .eint11
  have h19 := h .eint19
  constructor
  · rintro (_ | _ | _ | _) <;>
      simp [myKeyOpen, requestIrq, Function.update, Line.devId, h0, h2, h11, h19]
  · simp [myKeyOpen, requestIrq, Function.update, h0, h2, h11, h19]

/-- All four requests fail with `-EBUSY`, and the open succeeds. -/
theorem myKeyOpen_held {c : IrqCore} (h : c.Held) : (myKeyOpen c).2 = c := by
  have h0 := h .eint0
  have h2 := h .eint2
  have h11 := h .eint11
  have h19 := h .eint19
  simp [myKeyOpen, requestIrq, h0, h2, h11, h19]

theorem myKeyClose_held {c : IrqCore} (h : c.Held) :
    (myKeyClose c).2.Free ∧ (myKeyClose c).2.badFree = c.badFree := by
  have h0 := h .eint0
  have h2 := h .eint2
  have h11 := h .eint11
  have h19 := h .eint19
  simp only [Line.devId] at h0 h2 h11 h19
  constructor
  · rintro (_ | _ | _ | _) <;>
      simp [myKeyClose, freeIrq, Function.update, h0, h2, h11, h19]
  · simp [myKeyClose, freeIrq, Function.update, h0, h2, h11, h19]

/-! ### Runs -/

/-- The lines are held while a file is open and free otherwise. -/
structure Exact (d : Device) : Prop where
  held : d.files ≠ [] → d.core.Held
  free : d.files = [] → d.core.Free
  noBadFree : d.core.badFree = []

theorem exact_init : Exact Device.init where
  held := by simp [Device.init]
  free := by simp [Device.init, IrqCore.Free]
  noBadFree := rfl

theorem step_open_exact {d : Device} (pid : Nat) (h : Exact d) : Exact (step d (.open pid)) := by
  by_cases hfiles : d.files = []
  · obtain ⟨hheld, hbad⟩ := myKeyOpen_free (h.free hfiles)
    exact ⟨fun _ => hheld, by simp [step, myKeyOpen_ret], hbad.trans h.noBadFree⟩
  -- a second open: the requests fail, and nothing changes
  · have hsame := myKeyOpen_held (h.held hfiles)
    refine ⟨fun _ => ?_, by simp [step, myKeyOpen_ret], ?_⟩
    · simpa [step, hsame] using h.held hfiles
    · simpa [step, hsame] using h.noBadFree

/-- The last close frees all four lines. -/
theorem step_close_exact {d : Device} {pid : Nat} (h : Exact d) (hpid : pid ∈ d.files)
    (hsole : d.files.length ≤ 1) : Exact (step d (.close pid)) := by
  have hfiles : d.files = [pid] := by
    match hd : d.files with
    | [] => simp [hd] at hpid
    | [q] => simp_all
    | _ :: _ :: _ => simp [hd] at hsole
  obtain ⟨hfree, hbad⟩ := myKeyClose_held (h.held (by simp [hfiles]))
  exact ⟨by simp [step, hfiles], fun _ => hfree, hbad.trans h.noBadFree⟩

theorem step_exact (d : Device) (op : Op) (h : Exact d) (hg : Valid d op ∧ SoleClose d op) :
    Exact (step d op) := by
  cases op with
  | «open» pid => exact step_open_exact pid h
  | close pid => exact step_close_exact h hg.1 hg.2

/-- A close that finds the lines held and two or more files open breaks the law. -/
theorem not_linesHeld_close {d : Device} {pid : Nat} (h : LinesHeld d)
    (htwo : 2 ≤ d.files.length) : ¬ LinesHeld (step d (.close pid)) := by
  intro hafter
  have hheld : d.core.Held := h.1 (by intro h0; simp [h0] at htwo)
  -- a file remains, and needs its handlers
  have hrest : (step d (.close pid)).files ≠ [] := by
    have hlen := List.length_erase (a := pid) (l := d.files)
    intro h0
    simp only [step] at h0
    rw [h0, List.length_nil] at hlen
    split at hlen <;> omega
  have hfree := (myKeyClose_held hheld).1 .eint0
  have hstill := hafter.1 hrest .eint0
  simp [step, hfree] at hstill

/-- For every sequence of opens and closes in which each close matches an open file, the
    law holds in every state reached iff every close finds at most one open file. -/
theorem linesHeld_iff (ops : List Op) (hvalid : Run.Guarded step Valid Device.init ops) :
    (∀ pre post, ops = pre ++ post → LinesHeld (run Device.init pre)) ↔
      Run.Guarded step SoleClose Device.init ops := by
  constructor
  · intro h
    apply Run.guarded_iff.mpr
    intro pre op post heq
    cases op with
    | «open» pid => trivial
    | close pid =>
      by_contra hmany
      have hbefore := h pre (.close pid :: post) heq
      have hafter := h (pre ++ [.close pid]) post (by simp [heq])
      -- a close that is not the last one frees lines that are still in use
      refine @not_linesHeld_close _ pid hbefore ?_ ?_
      · simp only [SoleClose] at hmany
        simp only [run]
        omega
      · simpa [run] using hafter
  · rintro hsole pre post rfl
    have hpre := (Run.guarded_append.mp hvalid).1.and (Run.guarded_append.mp hsole).1
    have hexact := Run.foldl_of_guarded step_exact exact_init hpre
    exact ⟨hexact.held, hexact.noBadFree⟩

/-- One process after the other. -/
theorem linesHeld_iff_sequential :
    (∀ pre post, [.open 1, .close 1, .open 2, .close 2] = pre ++ post →
      LinesHeld (run Device.init pre)) ↔
      Run.Guarded step SoleClose Device.init [.open 1, .close 1, .open 2, .close 2] :=
  linesHeld_iff _ (by simp [Run.Guarded, Valid, step, myKeyOpen_ret, Device.init])

/-- Two processes open the device and the first one closes it: the second still has its
    file, and no handler. -/
theorem linesHeld_fails_two_openers :
    ¬ ∀ ops, Run.Guarded step Valid Device.init ops → LinesHeld (run Device.init ops) := by
  intro h
  have hlaw := h [.open 1, .open 2, .close 1]
    (by simp [Run.Guarded, Valid, step, myKeyOpen_ret, Device.init])
  have hheld := hlaw.1 (by decide) .eint0
  revert hheld
  decide

end KeyIrq
