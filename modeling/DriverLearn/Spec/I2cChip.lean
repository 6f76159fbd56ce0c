import DriverLearn.Spec.I2cBusTrace
import DriverLearn.Spec.I2cRule
import DriverLearn.Spec.I2cSlave

/-!
# An EEPROM on the bus

A 24C02 follows the bus: its own address selects it, the first byte sent then sets its cell
pointer, the bytes behind it are stored, and a byte received comes from the cell under the
pointer. What it acknowledges and returns depends on what it has seen on the bus, and on
nothing else, so a transfer must put the right bytes there at the right moment to move
anything. The two transfers that the EEPROM driver makes are followed to their end.

## Key results

- `drive_step`: one byte of a transfer
- `doxfer_writeByte`: a command and a value store the value in the cell
- `doxfer_readBlock`: a command and a read return the cells from the command on
-/

namespace S3c24xx

open Word

/-! ### The chip -/

/-- What the chip takes the next byte for. -/
inductive Phase where
  | idle
  | selected
  | writing
  | reading
  deriving DecidableEq, Repr

/-- The 256 cells, the cell pointer, and what the chip takes the next byte for. -/
structure Chip where
  cells : Byte → Byte
  pointer : Byte
  phase : Phase

/-- The pointer behind a byte that was stored: it stays in its page of 8 cells. -/
def nextInPage (pointer : Byte) : Byte := (pointer &&& 0xf8) ||| ((pointer + 1) &&& 0x07)

/-- What an event on the bus does to the chip with the address byte `addr`, its last bit 0. -/
def Chip.see (addr : Byte) (c : Chip) : Event → Chip
  | .start _ _ a =>
    if a = addr then { c with phase := .selected }
    else if a = addr ||| 1 then { c with phase := .reading }
    else { c with phase := .idle }
  | .data _ _ byte =>
    match c.phase with
    | .selected => { c with pointer := byte, phase := .writing }
    | .writing =>
      { c with
        cells := Function.update c.cells c.pointer byte
        pointer := nextInPage c.pointer }
    | _ => c
  | .recv _ _ _ => if c.phase = .reading then { c with pointer := c.pointer + 1 } else c
  | .stop => { c with phase := .idle }
  | .byteEnd _ => c

/-- The chip behind everything on the trace. -/
def Chip.behind (addr : Byte) (c : Chip) (trace : List Event) : Chip :=
  trace.foldl (Chip.see addr) c

/-- Events behind others. -/
theorem Chip.behind_append (addr : Byte) (c : Chip) (xs ys : List Event) :
    c.behind addr (xs ++ ys) = (c.behind addr xs).behind addr ys := List.foldl_append

/-- How the chip ends the byte on the bus. A byte that it returns is acknowledged by the
    driver. -/
def Chip.answer (c : Chip) (s : S3c24xxI2c) : ByteEnd :=
  match c.phase with
  | .idle => { iicstat := iicstatLastbit, iicds := s.iicds }
  | .reading =>
    if s.engine = .byte then
      { iicstat := if has s.iiccon iicconAcken then 0 else iicstatLastbit
        iicds := c.cells c.pointer }
    else
      { iicstat := 0, iicds := s.iicds }
  | _ => { iicstat := 0, iicds := s.iicds }

/-- The interrupts of a transfer: one at the end of each byte, until none is on the bus. -/
def drive (hw : S3c24xxI2c → ByteEnd) : (fuel : Nat) → S3c24xxI2c → Except Fault S3c24xxI2c
  | 0, _ => .error .outOfFuel
  | fuel + 1, s =>
    if inFlight s then do
      let s ← s3c24xxI2cIrq s (hw s)
      drive hw fuel s
    else
      .ok s

/-- A transfer with a chip that was `c` when the trace began. -/
def Chip.env (addr : Byte) (c : Chip) (busy : Nat → Reg) (fuel : Nat) : XferEnv where
  busy := busy
  poll _ := none
  wait := drive (fun s => (c.behind addr s.trace).answer s) fuel
  late := .ok

variable {s s' t : S3c24xxI2c} {u v : Slot} {rest : List Slot} {msgs : List I2cMsg}
variable {q : Reg} {hw : S3c24xxI2c → ByteEnd} {fuel : Nat}

/-! ### One byte -/

/-- What the controller has on the bus in each state between two interrupts. -/
def State.engine : State → Engine
  | .start => .addr
  | .read => .byte
  | .write => .byte
  | _ => .idle

/-- No function of the transfer writes the quirks or whether the driver is suspended. -/
structure Awake (q : Reg) (s : S3c24xxI2c) : Prop where
  quirks : s.quirks = q
  suspended : s.suspended = false

/-- Every part of the handler keeps the driver awake. -/
theorem awake_rule (q : Reg) : StepRule (Awake q) (Awake q) (Awake q) where
  idle := fun _ h => h
  done := fun _ h _ => h
  unpolled := fun _ h _ => h
  ended := fun _ h _ => ⟨h.quirks, h.suspended⟩
  stop := fun _ _ _ h _ => ⟨h.quirks, h.suspended⟩
  read := fun _ _ h _ _ => ⟨h.quirks, h.suspended⟩
  write := fun _ h _ => ⟨h.quirks, h.suspended⟩
  next := fun _ h => ⟨h.quirks, h.suspended⟩
  send := fun _ _ h _ _ => ⟨h.quirks, h.suspended⟩
  start := fun _ _ _ h _ _ => ⟨h.quirks, h.suspended⟩
  back := fun _ h => ⟨h.quirks, h.suspended⟩
  store := fun _ _ _ h _ _ => ⟨h.quirks, h.suspended⟩
  disableAck := fun _ h => ⟨h.quirks, h.suspended⟩
  nextRead := fun _ h _ => ⟨h.quirks, h.suspended⟩
  stopRead := fun _ _ _ h _ _ => ⟨h.quirks, h.suspended⟩
  clear := fun _ h => ⟨h.quirks, h.suspended⟩

/-- No interrupt suspends the driver. -/
theorem irq_awake (h : Awake q s) (e : ByteEnd) (hrun : s3c24xxI2cIrq s e = .ok s') :
    Awake q s' := by
  have hend : Awake q (byteEnd e s) := ⟨h.quirks, h.suspended⟩
  simp only [s3c24xxI2cIrq] at hrun
  split at hrun
  · rw [Except.ok.injEq] at hrun
    exact hrun ▸ ⟨h.quirks, h.suspended⟩
  · refine (awake_rule q).nextbyte (fun t t' ht hok => ?_) hend hrun
    rw [launch_ok, Except.ok.injEq] at hok
    exact hok ▸ ht

/-- A transfer that goes on, with its byte on the bus. -/
structure Underway (q : Reg) (msgs : List I2cMsg) (s : S3c24xxI2c) : Prop where
  ptr : PtrInv msgs s
  engine : s.engine = s.state.engine
  awake : Awake q s

/-- A byte is under way in no state but those of a transfer. -/
theorem InFlight.state_ne (h : InFlight s u rest) : s.state ≠ .stop ∧ s.state ≠ .idle := by
  cases h with
  | start _ hstate => simp [hstate]
  | data _ hstate => simp [hstate]
  | recv _ hstate => simp [hstate]

/-- The address byte belongs to `STATE_START`. -/
theorem InFlight.start_state {j : Nat} {m : I2cMsg} (h : InFlight s (.start j m) rest) :
    s.state = .start := by
  cases h with
  | start _ hstate => exact hstate

/-- A byte that is received belongs to `STATE_READ`. -/
theorem InFlight.recv_state {j p : Nat} {m : I2cMsg} (h : InFlight s (.recv j m p) rest) :
    s.state = .read := by
  cases h with
  | recv _ hstate => exact hstate

/-- As long as the transfer lives, a byte is under way. -/
theorem Underway.inFlight (h : Underway q msgs s) (hlive : s.state ≠ .stop) :
    inFlight s = true := by
  have hactive := h.ptr.active
  rw [S3c24xx.inFlight, h.engine]
  cases hstate : s.state with
  | idle => exact absurd hstate hactive
  | stop => exact absurd hstate hlive
  | start => rfl
  | read => rfl
  | write => rfl

/-- An interrupt leaves the next byte on the bus, or nothing. -/
theorem irq_underway (hnum : msgs.length < 2147483648) (hturns : ¬ TurnsAround msgs)
    (h : Underway q msgs s) (hlive : s.state ≠ .stop) (e : ByteEnd) :
    ∃ s', s3c24xxI2cIrq s e = .ok s' ∧ Underway q msgs s' := by
  obtain ⟨s', hrun, hptr⟩ := irq_ptrInv hnum hturns s e h.ptr
  have hidle : s.engine ≠ .idle := by
    intro hidle
    have hflight := h.inFlight hlive
    simp [S3c24xx.inFlight, hidle] at hflight
  have hresumed : resumed s = .byte := if_neg hidle
  refine ⟨s', hrun, hptr, ?_, irq_awake h.awake e hrun⟩
  cases irq_effect hnum h.ptr hlive e hrun with
  | stop evs taken trace state num engine => rw [engine, state]; rfl
  | data k q byte from_state trace state num idx le engine =>
    rw [engine, hresumed, state]
    rfl
  | start k stat addr from_state trace state num idx lt engine => rw [engine, state]; rfl
  | read evs taken trace state num engine => rw [engine, hresumed, state]; rfl

/-- The byte on the bus ends as the hardware has it, and the slot passes. -/
theorem drive_step (hnum : msgs.length < 2147483648) (hturns : ¬ TurnsAround msgs)
    (h : InFlight s u rest) (hway : Underway q msgs s) (hpass : u.passes (hw s) = true)
    (fuel : Nat) :
    ∃ s', drive hw (fuel + 1) s = drive hw fuel s' ∧ Underway q msgs s' ∧
      Settled s s' (u.exit (hw s)) (u.extend (hw s) rest) := by
  have hlive := h.state_ne.1
  obtain ⟨s', hrun, hway'⟩ := irq_underway hnum hturns hway hlive (hw s)
  obtain ⟨t, ht, hstep⟩ := irq_inFlight h (hw s)
  rw [hrun, Except.ok.injEq] at ht
  subst ht
  rw [if_pos hpass] at hstep
  refine ⟨s', ?_, hway', hstep⟩
  rw [drive, hway.inFlight hlive, if_pos rfl, hrun]
  rfl

/-- Behind the STOP the transfer is over. -/
theorem drive_ended {ret : Int} (h : Ended s ret) (hway : Underway q msgs s) (fuel : Nat) :
    drive hw (fuel + 1) s = .ok s := by
  have hidle : inFlight s = false := by
    rw [S3c24xx.inFlight, hway.engine, h.state]
    rfl
  rw [drive, hidle]
  rfl

/-- `message_start` sends the address of the first message. -/
theorem begun_underway (h : Awake q s) (m : I2cMsg) (ms : List I2cMsg) :
    Underway q (m :: ms) (begun m ms s) where
  ptr := begun_ptrInv m ms s
  engine := rfl
  awake := ⟨h.quirks, h.suspended⟩

/-! ### Bytes to and from the chip -/

/-- The chip with the address byte `addr`, `c` when the trace began, as the hardware. -/
abbrev Chip.hardware (addr : Byte) (c : Chip) : S3c24xxI2c → ByteEnd :=
  fun s => (c.behind addr s.trace).answer s

variable {addr : Byte} {c : Chip} {evs : List Event}

/-- What is behind a step is behind its events. -/
theorem behind_after (h : After s t evs) :
    c.behind addr t.trace = (c.behind addr s.trace).behind addr evs := by
  rw [h.trace, Chip.behind_append]

/-- A chip that was addressed acknowledges what it is sent. -/
theorem answer_acks {phase : Phase} (hphase : (c.behind addr s.trace).phase = phase)
    (hactive : phase ≠ .idle) (hsent : phase = .reading → s.engine = .addr) :
    (c.hardware addr s).iicstat = 0 := by
  rw [Chip.hardware, Chip.answer, hphase]
  cases phase with
  | idle => exact absurd rfl hactive
  | selected => rfl
  | writing => rfl
  | reading => simp [hsent rfl]

/-- The pointer moves on by one for every byte that is read. -/
theorem behind_received (k : Chip) (hphase : k.phase = .reading) (j p : Nat) (m : I2cMsg)
    (e : ByteEnd) :
    k.behind addr ((Slot.recv j m p).exit e) = { k with pointer := k.pointer + 1 } := by
  simp [Chip.behind, Slot.exit, Chip.see, hphase]

/-- The pointer behind one byte more. -/
theorem pointer_succ (pointer : Byte) (n : Nat) :
    pointer + 1 + BitVec.ofNat 8 n = pointer + BitVec.ofNat 8 (n + 1) := by
  rw [BitVec.add_assoc, BitVec.add_comm 1, BitVec.ofNat_add]
  rfl

/-- Bytes that are read leave the cells as they are. -/
theorem behind_received_all (k : Chip) (hphase : k.phase = .reading) (j p : Nat) (m : I2cMsg)
    (es : List ByteEnd) :
    k.behind addr (blocks ((List.range' p es.length).map (.recv j m)) es) =
      { k with pointer := k.pointer + BitVec.ofNat 8 es.length } := by
  induction es generalizing k p with
  | nil => simp [blocks, Chip.behind]
  | cons e es ih =>
    have hrest := ih { k with pointer := k.pointer + 1 } hphase (p + 1)
    rw [List.length_cons, List.range'_succ, List.map_cons, blocks, Chip.behind_append,
      Chip.behind_append, show k.behind addr (Slot.recv j m p).enter = k from rfl,
      behind_received k hphase, hrest, pointer_succ]

section Bytes

variable (hnum : msgs.length < 2147483648) (hturns : ¬ TurnsAround msgs)
include hnum hturns

/-- A byte that is sent to the chip. -/
theorem drive_sent {phase : Phase} (h : InFlight s u rest) (hway : Underway q msgs s)
    (hu : u.Sends) (hphase : (c.behind addr s.trace).phase = phase) (hactive : phase ≠ .idle)
    (hsent : phase = .reading → s.engine = .addr) (fuel : Nat) :
    ∃ s', drive (c.hardware addr) (fuel + 1) s = drive (c.hardware addr) fuel s' ∧
      Underway q msgs s' ∧ Settled s s' [.byteEnd false] rest := by
  have hack : has (c.hardware addr s).iicstat iicstatLastbit = false := by
    rw [answer_acks hphase hactive hsent]
    decide
  have hexit : u.exit (c.hardware addr s) = [.byteEnd false] := by
    cases u with
    | recv j m p => exact hu.elim
    | start j m => simp [Slot.exit, hack]
    | data j m p => simp [Slot.exit, hack]
  have hstep := drive_step hnum hturns h hway (hu.passes hack) fuel
  rwa [hexit, hu.fixed] at hstep

/-- A byte that the chip returns: the cell under its pointer. -/
theorem drive_received {j p : Nat} {m : I2cMsg} (h : InFlight s (.recv j m p) rest)
    (hway : Underway q msgs s) (hblock : m.isRecvLen = false)
    (hphase : (c.behind addr s.trace).phase = .reading) (fuel : Nat) :
    ∃ s' e, drive (c.hardware addr) (fuel + 1) s = drive (c.hardware addr) fuel s' ∧
      Underway q msgs s' ∧
      e.iicds = (c.behind addr s.trace).cells (c.behind addr s.trace).pointer ∧
      Settled s s' ((Slot.recv j m p).exit e) rest := by
  have hengine : s.engine = .byte := by
    rw [hway.engine, h.recv_state]
    rfl
  obtain ⟨s', hdrive, hway', hsettled⟩ := drive_step hnum hturns h hway rfl fuel
  rw [recv_fixed j p hblock] at hsettled
  refine ⟨s', _, hdrive, hway', ?_, hsettled⟩
  rw [Chip.hardware, Chip.answer, hphase]
  simp [hengine]

/-- The bytes of a read from byte `p` on: as many cells from the pointer on, then the STOP. -/
theorem drive_received_all {j p n : Nat} {m : I2cMsg}
    (h : InFlight s (.recv j m p) ((List.range' (p + 1) n).map (.recv j m)))
    (hway : Underway q msgs s) (hblock : m.isRecvLen = false)
    (hphase : (c.behind addr s.trace).phase = .reading) (fuel : Nat) :
    ∃ t es, drive (c.hardware addr) (fuel + (n + 1)) s = drive (c.hardware addr) fuel t ∧
      Underway q msgs t ∧ Ended t s.msgs.length ∧ es.length = n + 1 ∧
      (∀ i (hi : i < es.length), es[i].iicds =
        (c.behind addr s.trace).cells ((c.behind addr s.trace).pointer + BitVec.ofNat 8 i)) ∧
      After s t (blocks ((List.range' p (n + 1)).map (.recv j m)) es ++ [.stop]) := by
  induction n generalizing s p with
  | zero =>
    obtain ⟨t, e, hdrive, hway', hbyte, hend, hafter⟩ :=
      drive_received hnum hturns h hway hblock hphase fuel
    refine ⟨t, [e], hdrive, hway', hend, rfl, fun i hi => ?_, ?_⟩
    · obtain rfl : i = 0 := by simpa using hi
      simpa using hbyte
    · simpa [blocks, Slot.enter] using hafter
  | succ n ih =>
    rw [List.range'_succ, List.map_cons] at h
    obtain ⟨t, e, hdrive, hway', hbyte, hflight, hafter⟩ :=
      drive_received hnum hturns h hway hblock hphase (fuel + (n + 1))
    -- the next byte comes from the next cell
    have hchip : c.behind addr t.trace = _ := behind_after hafter
    rw [show (Slot.recv j m (p + 1)).enter = [] from rfl, List.append_nil,
      behind_received _ hphase] at hchip
    obtain ⟨u, es, hdrive', hway'', hend, hlen, hbytes, hafter'⟩ :=
      ih hflight hway' (by rw [hchip]; exact hphase)
    rw [hafter.length_msgs] at hend
    refine ⟨u, e :: es, hdrive.trans hdrive', hway'', hend, by rw [List.length_cons, hlen], ?_, ?_⟩
    · intro i hi
      cases i with
      | zero => simpa using hbyte
      | succ i =>
        have hcell := hbytes i (by simpa using hi)
        rw [hchip] at hcell
        rw [List.getElem_cons_succ, hcell, pointer_succ]
    · have hall := hafter.trans hafter'
      rw [List.range'_succ, List.map_cons, blocks]
      simpa [Slot.enter, List.append_assoc] using hall

end Bytes

/-! ### The two transfers -/

/-- The transfer is over: the driver is between transfers, and `evs` were on the bus. -/
structure Done (q : Reg) (s t : S3c24xxI2c) (evs : List Event) : Prop where
  idle : t.state = .idle
  awake : Awake q t
  trace : t.trace = s.trace ++ evs

/-- `doxfer` leaves the bus as the last interrupt did. -/
theorem leave_done {s₀ : S3c24xxI2c} (hway : Underway q msgs t)
    (htrace : t.trace = s₀.trace ++ evs) :
    Done q s₀ (leave t) evs where
  idle := rfl
  awake := by
    constructor
    · rw [show (leave t).quirks = t.quirks by simp only [leave]; split <;> rfl, hway.awake.quirks]
    · rw [show (leave t).suspended = t.suspended by simp only [leave]; split <;> rfl,
        hway.awake.suspended]
  trace := by rw [leave_trace, htrace]

/-- A transfer whose interrupts bring it to its end. -/
theorem doxfer_driven {m : I2cMsg} {ms : List I2cMsg} {num : Nat} (hawake : Awake q s)
    (hirq : has q quirkPoll = false) {busy : Nat → Reg} (hbus : s3c24xxI2cSetMaster busy = 0)
    (hrun : drive (c.hardware addr) fuel (begun m ms s) = .ok t) (hend : Ended t num) (n : Nat) :
    s3c24xxI2cDoxfer (c.env addr busy fuel) n (m :: ms) s = .ok (num, leave t) := by
  rw [doxfer_wait n (c.env addr busy fuel) hawake.suspended hbus (hawake.quirks ▸ hirq)]
  simp only [Chip.env, hrun, bind, Except.bind, hend.idx]
  rfl

/-- What a write of a command and a value puts on the bus. -/
def writeByteEvents (addr command value : Byte) : List Event :=
  [.start 0 (iicstatTxrxen ||| iicstatMasterTx ||| iicstatStart) addr, .byteEnd false,
    .data 0 0 command, .byteEnd false, .data 0 1 value, .byteEnd false, .stop]

/-- A byte write stores the byte in the cell. -/
theorem behind_writeByte (k : Chip) (command value : Byte) :
    k.behind addr (writeByteEvents addr command value) =
      { cells := Function.update k.cells command value
        pointer := nextInPage command
        phase := .idle } := by
  simp [Chip.behind, writeByteEvents, Chip.see]

/-- A message of two bytes to the chip. -/
structure WritesByte (addr command value : Byte) (w : I2cMsg) : Prop where
  address : w.addrByte = addr
  flags : w.flags = 0
  len : w.len = 2
  command : w.buf 0 = command
  value : w.buf 1 = value

/-- The driver sends a byte write to its end. -/
theorem doxfer_writeByte {command value : Byte} {w : I2cMsg} (hw : WritesByte addr command value w)
    (hawake : Awake q s) (hirq : has q quirkPoll = false) {busy : Nat → Reg}
    (hbus : s3c24xxI2cSetMaster busy = 0) (fuel n : Nat) :
    ∃ t, s3c24xxI2cDoxfer (c.env addr busy (fuel + 4)) n [w] s = .ok (1, t) ∧
      Done q s t (writeByteEvents addr command value) := by
  have hrd : w.isRd = false := by rw [I2cMsg.isRd, hw.flags]; decide
  have hnostart : w.isNostart = false := by rw [I2cMsg.isNostart, hw.flags]; decide
  have hplain : WritesThenRead [w] := ⟨by simp [hrd], trivial⟩
  have hturns : ¬ TurnsAround [w] := not_turnsAround (by simp [hrd])
  have hstat : w.startStat ||| iicstatStart =
      iicstatTxrxen ||| iicstatMasterTx ||| iicstatStart := by
    rw [I2cMsg.startStat, hrd]
    rfl
  have hflight := begun_inFlight s hplain (by simp)
  rw [show bytesFrom 0 w 0 ++ script 1 [] = [.data 0 w 0, .data 0 w 1] by
    simp [bytesFrom, hw.len, hrd, script, List.range']] at hflight
  have htrace : (begun w [] s).trace =
      s.trace ++ [.start 0 (w.startStat ||| iicstatStart) w.addrByte] := rfl
  rw [hstat, hw.address] at htrace
  have hchip : c.behind addr (begun w [] s).trace =
      { c.behind addr s.trace with phase := .selected } := by
    rw [htrace, Chip.behind_append]
    simp [Chip.behind, Chip.see]
  -- the address byte, the command and the value
  obtain ⟨s₁, hdrive₁, hway₁, hflight₁, hafter₁⟩ := drive_sent (by simp) hturns hflight
    (begun_underway hawake w []) trivial (congrArg Chip.phase hchip) (by simp) (by simp) (fuel + 3)
  have hchip₁ : c.behind addr s₁.trace =
      { c.behind addr s.trace with pointer := command, phase := .writing } := by
    rw [behind_after hafter₁, hchip]
    simp [Chip.behind, Chip.see, Slot.enter, hw.command]
  obtain ⟨s₂, hdrive₂, hway₂, hflight₂, hafter₂⟩ := drive_sent (by simp) hturns hflight₁ hway₁
    trivial (congrArg Chip.phase hchip₁) (by simp) (by simp) (fuel + 2)
  have hphase₂ : (c.behind addr s₂.trace).phase = .writing := by
    rw [behind_after hafter₂, hchip₁]
    simp [Chip.behind, Chip.see, Slot.enter]
  obtain ⟨t, hdrive₃, hway₃, hend, hafter₃⟩ := drive_sent (by simp) hturns hflight₂ hway₂
    trivial hphase₂ (by simp) (by simp) (fuel + 1)
  have hrun : drive (c.hardware addr) (fuel + 4) (begun w [] s) = .ok t := by
    rw [hdrive₁, hdrive₂, hdrive₃, drive_ended hend hway₃]
  have hall := (hafter₁.trans (hafter₂.trans hafter₃)).trace
  refine ⟨leave t, ?_, leave_done hway₃ ?_⟩
  · have hone : s₂.msgs.length = 1 := by
      rw [hafter₂.length_msgs, hafter₁.length_msgs]
      rfl
    rw [hone] at hend
    exact doxfer_driven hawake hirq hbus hrun hend n
  · rw [hall, htrace]
    simp [writeByteEvents, Slot.enter, hw.command, hw.value]

/-- What a read of a block puts on the bus, with the ends of the bytes that are read. -/
def readBlockEvents (addr command : Byte) (r : I2cMsg) (es : List ByteEnd) : List Event :=
  [.start 0 (iicstatTxrxen ||| iicstatMasterTx ||| iicstatStart) addr, .byteEnd false,
    .data 0 0 command, .byteEnd false,
    .start 1 (iicstatTxrxen ||| iicstatMasterRx ||| iicstatStart) (addr ||| 1), .byteEnd false] ++
  (blocks ((List.range' 0 es.length).map (.recv 1 r)) es ++ [.stop])

/-- A block read moves the pointer and stores nothing. -/
theorem behind_readBlock (heven : addr ||| 1#8 ≠ addr) (k : Chip) (command : Byte) (r : I2cMsg)
    (es : List ByteEnd) :
    k.behind addr (readBlockEvents addr command r es) =
      { cells := k.cells, pointer := command + BitVec.ofNat 8 es.length, phase := .idle } := by
  rw [readBlockEvents, Chip.behind_append, Chip.behind_append, behind_received_all]
  · simp [Chip.behind, Chip.see, heven]
  · simp [Chip.behind, Chip.see, heven]

/-- A message with a command to the chip, and one to be read from it. -/
structure ReadsBlock (addr command : Byte) (n : Nat) (w r : I2cMsg) : Prop where
  address : w.addrByte = addr
  flags : w.flags = 0
  len : w.len = 1
  command : w.buf 0 = command
  readAddress : r.addrByte = addr ||| 1
  readFlags : r.flags = i2cMRd
  readLen : r.len.toNat = n

/-- The driver receives a block to its end. -/
theorem doxfer_readBlock {command : Byte} {k : Nat} {w r : I2cMsg}
    (hw : ReadsBlock addr command k w r) (heven : addr ||| 1#8 ≠ addr) (hawake : Awake q s)
    (hirq : has q quirkPoll = false) {busy : Nat → Reg} (hbus : s3c24xxI2cSetMaster busy = 0)
    (fuel n : Nat) :
    ∃ t es, s3c24xxI2cDoxfer (c.env addr busy (fuel + k + 4)) n [w, r] s = .ok (2, t) ∧
      Done q s t (readBlockEvents addr command r es) ∧ es.length = k ∧
      (∀ i (hi : i < es.length),
        es[i].iicds = (c.behind addr s.trace).cells (command + BitVec.ofNat 8 i)) ∧
      t.msgs = [w, filled es r] := by
  have hwr : w.isRd = false := by rw [I2cMsg.isRd, hw.flags]; decide
  have hrd : r.isRd = true := by rw [I2cMsg.isRd, hw.readFlags]; decide
  have hnostart : r.isNostart = false := by rw [I2cMsg.isNostart, hw.readFlags]; decide
  have hblock : r.isRecvLen = false := by rw [I2cMsg.isRecvLen, hw.readFlags]; decide
  have hplain : WritesThenRead [w, r] := ⟨by simp [hwr], fun _ => ⟨rfl, hnostart⟩, trivial⟩
  have hturns : ¬ TurnsAround [w, r] := not_turnsAround (by simp [hwr, hnostart])
  have hstat : w.startStat ||| iicstatStart =
      iicstatTxrxen ||| iicstatMasterTx ||| iicstatStart := by
    rw [I2cMsg.startStat, hwr]
    rfl
  have hstat' : r.startStat ||| iicstatStart =
      iicstatTxrxen ||| iicstatMasterRx ||| iicstatStart := by
    rw [I2cMsg.startStat, hrd]
    rfl
  have hflight := begun_inFlight s hplain (by simp)
  rw [show bytesFrom 0 w 0 ++ script 1 [r] = .data 0 w 0 :: .start 1 r :: bytesFrom 1 r 0 by
    simp [bytesFrom, hw.len, hwr, script, opening, hnostart]] at hflight
  have htrace : (begun w [r] s).trace =
      s.trace ++ [.start 0 (w.startStat ||| iicstatStart) w.addrByte] := rfl
  rw [hstat, hw.address] at htrace
  have hchip : c.behind addr (begun w [r] s).trace =
      { c.behind addr s.trace with phase := .selected } := by
    rw [htrace, Chip.behind_append]
    simp [Chip.behind, Chip.see]
  -- the address byte, the command and the second START
  obtain ⟨s₁, hdrive₁, hway₁, hflight₁, hafter₁⟩ := drive_sent (by simp) hturns hflight
    (begun_underway hawake w [r]) trivial (congrArg Chip.phase hchip) (by simp) (by simp)
    (fuel + k + 3)
  have hchip₁ : c.behind addr s₁.trace =
      { c.behind addr s.trace with pointer := command, phase := .writing } := by
    rw [behind_after hafter₁, hchip]
    simp [Chip.behind, Chip.see, Slot.enter, hw.command]
  obtain ⟨s₂, hdrive₂, hway₂, hflight₂, hafter₂⟩ := drive_sent (by simp) hturns hflight₁ hway₁
    trivial (congrArg Chip.phase hchip₁) (by simp) (by simp) (fuel + k + 2)
  have hchip₂ : c.behind addr s₂.trace =
      { c.behind addr s.trace with pointer := command, phase := .reading } := by
    rw [behind_after hafter₂, hchip₁]
    simp [Chip.behind, Chip.see, Slot.enter, hw.readAddress, heven]
  have hengine : s₂.engine = .addr := by
    rw [hway₂.engine, hflight₂.start_state]
    rfl
  obtain ⟨s₃, hdrive₃, hway₃, hsettled⟩ := drive_sent (by simp) hturns hflight₂ hway₂
    trivial (congrArg Chip.phase hchip₂) (by simp) (fun _ => hengine) (fuel + k + 1)
  have hlen : s₂.msgs.length = 2 := by
    rw [hafter₂.length_msgs, hafter₁.length_msgs]
    rfl
  have hsent := hafter₁.trans hafter₂
  by_cases hk : k = 0
  -- nothing to read: the STOP follows the address
  · obtain ⟨hend, hafter₃⟩ : Ended s₃ s₂.msgs.length ∧
        After s₂ s₃ ([.byteEnd false] ++ [.stop]) := by
      rwa [bytesFrom_nil (by rw [hw.readLen, hk])] at hsettled
    rw [hlen] at hend
    have hrun : drive (c.hardware addr) (fuel + k + 4) (begun w [r] s) = .ok s₃ := by
      rw [hdrive₁, hdrive₂, hdrive₃, hk]
      exact drive_ended hend hway₃ fuel
    have hall := hsent.trans hafter₃
    refine ⟨leave s₃, [], doxfer_driven hawake hirq hbus hrun hend n, leave_done hway₃ ?_, hk.symm,
      fun i hi => absurd hi (Nat.not_lt_zero i), ?_⟩
    · rw [hall.trace, htrace]
      simp [readBlockEvents, Slot.enter, hw.command, hw.readAddress, hstat', blocks]
    · rw [leave_msgs, hall.msgs]
      simp [Slot.enter, store, begun, startCondition, s3c24xxI2cEnableAck, s3c24xxI2cEnableIrq,
        emit, filled]
  · obtain ⟨p, rfl⟩ := Nat.exists_eq_succ_of_ne_zero hk
    rw [bytesFrom_cons (by rw [hw.readLen]; omega), hrd, if_pos rfl, bytesFrom, hrd, if_pos rfl,
      hw.readLen, Nat.succ_sub_one] at hsettled
    obtain ⟨hflight₃, hafter₃⟩ := hsettled
    have hchip₃ : c.behind addr s₃.trace =
        { c.behind addr s.trace with pointer := command, phase := .reading } := by
      rw [behind_after hafter₃, hchip₂]
      simp [Chip.behind, Chip.see, Slot.enter]
    obtain ⟨t, es, hdrive₄, hway₄, hend, heslen, hbytes, hafter₄⟩ :=
      drive_received_all (by simp) hturns hflight₃ hway₃ hblock (congrArg Chip.phase hchip₃)
        (fuel + 1)
    rw [hafter₃.length_msgs, hlen] at hend
    have hall := hsent.trans (hafter₃.trans hafter₄)
    have hrun : drive (c.hardware addr) (fuel + p.succ + 4) (begun w [r] s) = .ok t := by
      rw [hdrive₁, hdrive₂, hdrive₃, show fuel + p.succ + 1 = fuel + 1 + (p + 1) by omega,
        hdrive₄, drive_ended hend hway₄]
    refine ⟨leave t, es, doxfer_driven hawake hirq hbus hrun hend n, leave_done hway₄ ?_, heslen,
      fun i hi => ?_, ?_⟩
    · rw [hall.trace, htrace]
      simp [readBlockEvents, Slot.enter, hw.command, hw.readAddress, hstat', heslen]
    · rw [hbytes i hi, hchip₃]
    · have hbuf := foldl_store_recv [w] r r 0 es hblock
      rw [leave_msgs, hall.msgs, ← heslen]
      simp only [Slot.enter, List.foldl_append, List.foldl_cons, List.foldl_nil, store]
      exact hbuf

end S3c24xx
