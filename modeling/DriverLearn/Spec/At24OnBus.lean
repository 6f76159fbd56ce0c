import DriverLearn.Spec.At24Session
import DriverLearn.Spec.I2cChip
import DriverLearn.Spec.I2cHistory

/-!
# The EEPROM file on the bus

Under the EEPROM driver lie the SMBus functions of the I2C core, which turn an operation into
messages, under them `s3c24xx_i2c_xfer` with its retries for a busy bus, and under that the
interrupts of the controller and the chip. A session with the file runs through all of them.
The core is not part of the repository: it is a parameter that makes the messages of the
SMBus protocol.

## Key results

- `Bus.transfer_free`: a transfer on a bus that another master keeps busy for a while
- `busWire_sim`: the SMBus operations over the bus driver are operations on the cells
- `session_onBus`: sessions over the bus, on any host
- `session_lastWritten`: what a session over the bus returns
-/

namespace At24

open History S3c24xx Word

/-! ### The I2C core -/

/-- The two SMBus functions of the I2C core: the messages for `master_xfer`, and what is
    returned when it returns `ret`, with the messages as it leaves them. -/
structure Smbus where
  writeByteMsgs : (addr : BitVec 16) → (command value : Byte) → List I2cMsg
  writeByteRet : (ret : Int) → Int
  readBlockMsgs : (addr : BitVec 16) → (command : Byte) → (len : Nat) → List I2cMsg
  readBlockRet : (len : Nat) → (ret : Int) → List I2cMsg → (tmp : List Byte) → Int × List Byte

/-- The address byte of a slave, for a write. -/
def addrByte (addr : BitVec 16) : Byte := (addr.setWidth 8 &&& 0x7f) <<< 1

/-- How many bytes a block read asks for: the length is a `u8`, and a block has at most 32. -/
def blockLen (len : Nat) : Nat := min (len % 256) 32

/-- The SMBus protocol. A write is one message with the command and the value. A block read is
    a message with the command and one to be read, and its bytes go to the front of `tmp`. -/
structure Smbus.Protocol (smbus : Smbus) : Prop where
  writeByteMsgs : ∀ addr command value, ∃ w, smbus.writeByteMsgs addr command value = [w] ∧
    w.addr = addr ∧ w.flags = 0 ∧ w.len = 2 ∧ w.buf 0 = command ∧ w.buf 1 = value
  writeByteRet : smbus.writeByteRet 1 = 0
  readBlockMsgs : ∀ addr command len, ∃ w r, smbus.readBlockMsgs addr command len = [w, r] ∧
    w.addr = addr ∧ w.flags = 0 ∧ w.len = 1 ∧ w.buf 0 = command ∧
    r.addr = addr ∧ r.flags = i2cMRd ∧ r.len = BitVec.ofNat 16 (blockLen len)
  readBlockRet : ∀ len w r tmp, smbus.readBlockRet len 2 [w, r] tmp =
    ((blockLen len : Int), (List.range (blockLen len)).map r.buf ++ tmp.drop (blockLen len))

/-! ### The device -/

/-- The bus driver, the number of transfers so far, and the fault if one had no meaning. -/
structure Bus where
  adapter : S3c24xxI2c
  transfers : Nat
  fault : Option Fault

/-- The wires: the slave address, the chip when the trace of the bus driver began, the readings
    of IICSTAT while an attempt waits for the bus, and `adap->retries`. -/
structure Line where
  addr : BitVec 16
  chip : Chip
  busy : (transfer retry : Nat) → Nat → Reg
  retries : Int

/-- Enough interrupts for a block of 32 bytes, its command and its addresses. -/
def blockInterrupts : Nat := 40

/-- What happens around a transfer: `clk_enable` succeeds, all interrupts come in the wait, so
    that it does not time out, and none comes behind it. -/
def Line.env (line : Line) (transfer : Nat) : AdapEnv where
  clkEnable := 0
  attempt retry := line.chip.env (addrByte line.addr) (line.busy transfer retry) blockInterrupts
  delay _ s := .ok s

/-- `i2c_transfer`, with the messages as the bus driver leaves them. -/
def Bus.transfer (line : Line) (msgs : List I2cMsg) (b : Bus) : Int × List I2cMsg × Bus :=
  match s3c24xxI2cXfer (line.env b.transfers) 0 line.retries msgs b.adapter with
  | .ok (ret, s, _) => (ret, s.msgs, { b with adapter := s, transfers := b.transfers + 1 })
  | .error f => (eIo, msgs, { b with fault := some f })

/-- The SMBus operations over the bus driver. -/
def busWire (smbus : Smbus) (line : Line) : Wire Bus where
  readBlock b command len tmp :=
    let (ret, msgs, b) := b.transfer line (smbus.readBlockMsgs line.addr command len)
    let (ret, tmp) := smbus.readBlockRet len ret msgs tmp
    (ret, tmp, b)
  writeByteData b command value :=
    let (ret, _, b) := b.transfer line (smbus.writeByteMsgs line.addr command value)
    (smbus.writeByteRet ret, b)

/-- The bus driver is awake and has had no fault, and the chip holds the cells. -/
structure Bus.Holds (q : Reg) (line : Line) (b : Bus) (cells : Byte → Byte) : Prop where
  awake : Awake q b.adapter
  fault : b.fault = none
  cells : (line.chip.behind (addrByte line.addr) b.adapter.trace).cells = cells

/-- In every transfer some attempt finds the bus free. -/
def Line.Frees (line : Line) : Prop :=
  ∀ transfer, ∃ retry : Nat, retry < line.retries ∧
    s3c24xxI2cSetMaster (line.busy transfer retry) = 0

/-! ### A transfer on a busy bus -/

variable {q : Reg} {line : Line} {smbus : Smbus} {cells : Byte → Byte} {b : Bus}

section

variable {msgs : List I2cMsg} {ret : Int} {P : S3c24xxI2c → Prop} (hawake : Awake q b.adapter)
variable (hrun : ∀ busy, s3c24xxI2cSetMaster busy = 0 → ∃ t,
  s3c24xxI2cDoxfer (line.chip.env (addrByte line.addr) busy blockInterrupts) 0 msgs b.adapter =
    .ok (ret, t) ∧ P t)
variable (hret : ret ≠ eAgain)
include hawake hrun hret

/-- Attempts that find the bus busy change nothing, so the transfer is that of the first
    attempt that finds it free. -/
theorem xferFrom_free {transfer k n : Nat} (hkn : k ≤ n) (hn : (n : Int) < line.retries)
    (hfree : s3c24xxI2cSetMaster (line.busy transfer n) = 0) (log : List XferCall) :
    ∃ t log', xferFrom (line.env transfer) 0 line.retries msgs k b.adapter log =
      .ok (ret, t, log') ∧ P t := by
  by_cases hbus : s3c24xxI2cSetMaster (line.busy transfer k) = 0
  · obtain ⟨t, hdone, ht⟩ := hrun _ hbus
    have hattempt : s3c24xxI2cDoxfer ((line.env transfer).attempt k) 0 msgs b.adapter =
      .ok (ret, t) := hdone
    rw [xferFrom, if_pos (by omega), hattempt]
    simp only [hret, ne_eq, not_false_eq_true, if_true]
    exact ⟨t, _, rfl, ht⟩
  · have hbusy : s3c24xxI2cDoxfer ((line.env transfer).attempt k) 0 msgs b.adapter =
      .ok (eAgain, b.adapter) := doxfer_busy hawake.suspended hbus
    have hne : k ≠ n := by
      rintro rfl
      exact hbus hfree
    rw [xferFrom, if_pos (by omega), hbusy]
    simp only [ne_eq, not_true_eq_false, if_false]
    exact xferFrom_free (by omega) hn hfree _
termination_by n - k

/-- A transfer on a bus that becomes free. -/
theorem Bus.transfer_free (hfrees : line.Frees) :
    ∃ t, b.transfer line msgs =
      (ret, t.msgs, { b with adapter := t, transfers := b.transfers + 1 }) ∧ P t := by
  obtain ⟨n, hn, hfree⟩ := hfrees b.transfers
  obtain ⟨t, log, hxfer, ht⟩ := xferFrom_free hawake hrun hret (Nat.zero_le n) hn hfree
    [.clkEnable 0]
  have hall : s3c24xxI2cXfer (line.env b.transfers) 0 line.retries msgs b.adapter =
      .ok (ret, t, log) := hxfer
  exact ⟨t, by rw [Bus.transfer, hall], ht⟩

end

/-! ### The operations -/

/-- The address byte for a write has no read bit. -/
theorem addrByte_even (addr : BitVec 16) : addrByte addr ||| 1#8 ≠ addrByte addr := by
  intro h
  have hbit := congrArg (BitVec.getLsbD · 0) h
  simp [addrByte] at hbit

/-- The address byte of a message to be written. -/
theorem addrByte_write {w : I2cMsg} (hflags : w.flags = 0) : w.addrByte = addrByte w.addr := by
  have hrd : w.isRd = false := by rw [I2cMsg.isRd, hflags]; decide
  have hrev : w.isRevDirAddr = false := by rw [I2cMsg.isRevDirAddr, hflags]; decide
  rw [addrByte_eq, I2cMsg.address, hrd, hrev]
  simp [addrByte]

/-- The address byte of a message to be read. -/
theorem addrByte_read {r : I2cMsg} (hflags : r.flags = i2cMRd) :
    r.addrByte = addrByte r.addr ||| 1 := by
  have hrd : r.isRd = true := by rw [I2cMsg.isRd, hflags]; decide
  have hrev : r.isRevDirAddr = false := by rw [I2cMsg.isRevDirAddr, hflags]; decide
  rw [addrByte_eq, I2cMsg.address, hrd, hrev]
  simp [addrByte]

/-- A block has at most 32 bytes. -/
theorem blockLen_le (len : Nat) : blockLen len ≤ 32 := Nat.min_le_right _ _

section

variable (hirq : has q quirkPoll = false) (hproto : smbus.Protocol) (hfrees : line.Frees)
include hirq hproto hfrees

/-- A write stores its value. -/
theorem busWire_writeByteData (h : b.Holds q line cells) (command value : Byte) :
    ∃ b', (busWire smbus line).writeByteData b command value = (0, b') ∧
      b'.Holds q line (Function.update cells command value) := by
  obtain ⟨w, hmsgs, haddr, hflags, hlen, hcommand, hvalue⟩ :=
    hproto.writeByteMsgs line.addr command value
  have hw : WritesByte (addrByte line.addr) command value w :=
    { address := by rw [addrByte_write hflags, haddr]
      flags := hflags
      len := hlen
      command := hcommand
      value := hvalue }
  obtain ⟨t, htransfer, hdone⟩ := Bus.transfer_free h.awake
    (fun busy hbus => doxfer_writeByte (c := line.chip) hw h.awake hirq hbus 36 0)
    (by decide) hfrees
  refine ⟨{ b with adapter := t, transfers := b.transfers + 1 }, ?_, hdone.awake, h.fault, ?_⟩
  · simp only [busWire, hmsgs, htransfer, hproto.writeByteRet]
  · rw [hdone.trace, Chip.behind_append, behind_writeByte, h.cells]

/-- A block read returns cells, and leaves them as they are. -/
theorem busWire_readBlock (h : b.Holds q line cells) (command : Byte) (len : Nat)
    (tmp : List Byte) :
    ∃ b', (busWire smbus line).readBlock b command len tmp =
        ((blockLen len : Int), (List.range (blockLen len)).map
          (fun i => cells (command + BitVec.ofNat 8 i)) ++ tmp.drop (blockLen len), b') ∧
      b'.Holds q line cells := by
  obtain ⟨w, r, hmsgs, hwaddr, hwflags, hwlen, hcommand, hraddr, hrflags, hrlen⟩ :=
    hproto.readBlockMsgs line.addr command len
  have hle := blockLen_le len
  have hr : ReadsBlock (addrByte line.addr) command (blockLen len) w r :=
    { address := by rw [addrByte_write hwflags, hwaddr]
      flags := hwflags
      len := hwlen
      command := hcommand
      readAddress := by rw [addrByte_read hrflags, hraddr]
      readFlags := hrflags
      readLen := by rw [hrlen, BitVec.toNat_ofNat, Nat.mod_eq_of_lt (by omega)] }
  have hfuel : 36 - blockLen len + blockLen len + 4 = blockInterrupts := by
    rw [blockInterrupts]
    omega
  -- the interrupts that the transfer does not need find it over, and change nothing
  obtain ⟨t, htransfer, es, hdone, hes, hbytes, htmsgs⟩ := Bus.transfer_free h.awake
    (P := fun t => ∃ es, Done q b.adapter t (readBlockEvents (addrByte line.addr) command r es) ∧
      es.length = blockLen len ∧
      (∀ i (hi : i < es.length), es[i].iicds =
        (line.chip.behind (addrByte line.addr) b.adapter.trace).cells
          (command + BitVec.ofNat 8 i)) ∧
      t.msgs = [w, filled es r])
    (fun busy hbus => by
      obtain ⟨t, es, hrun, hrest⟩ := doxfer_readBlock (c := line.chip) hr (addrByte_even _) h.awake
        hirq hbus (36 - blockLen len) 0
      rw [hfuel] at hrun
      exact ⟨t, hrun, es, hrest⟩)
    (show (2 : Int) ≠ eAgain by decide) hfrees
  -- the buffer of the read holds the bytes as the chip put them on the bus
  have hbuf : (List.range (blockLen len)).map (filled es r).buf =
      (List.range (blockLen len)).map fun i => cells (command + BitVec.ofNat 8 i) := by
    apply List.map_congr_left
    intro i hi
    have hi' : i < es.length := by rw [hes]; exact List.mem_range.mp hi
    have hbyte : (filled es r).buf i = es[i].iicds := by
      simp [filled, List.getElem?_eq_getElem hi']
    rw [hbyte, hbytes i hi', h.cells]
  refine ⟨{ b with adapter := t, transfers := b.transfers + 1 }, ?_, hdone.awake, h.fault, ?_⟩
  · simp only [busWire, hmsgs, htransfer, htmsgs, hproto.readBlockRet, hbuf]
  · rw [hdone.trace, Chip.behind_append, behind_readBlock (addrByte_even _), h.cells]

/-- The SMBus operations over the bus driver are operations on the cells. -/
theorem busWire_sim : Wire.Simulates (Bus.Holds q line) (busWire smbus line) cellsWire where
  readBlock := by
    rintro b cells command len tmp h
    obtain ⟨b', hread, hnext⟩ := busWire_readBlock hirq hproto hfrees h command len tmp
    rw [hread]
    exact ⟨rfl, rfl, hnext⟩
  writeByteData := by
    rintro b cells command value h
    obtain ⟨b', hwrite, hnext⟩ := busWire_writeByteData hirq hproto hfrees h command value
    rw [hwrite]
    exact ⟨rfl, hnext⟩

end

/-! ### A 24C02 -/

/-- The core as it makes the messages on an adapter without SMBus operations of its own. -/
def emulated : Smbus where
  writeByteMsgs addr command value := [⟨addr, 0, 2, fun i => if i = 0 then command else value⟩]
  writeByteRet ret := if ret < 0 then ret else 0
  readBlockMsgs addr command len :=
    [⟨addr, 0, 1, fun _ => command⟩, ⟨addr, i2cMRd, BitVec.ofNat 16 (blockLen len), fun _ => 0⟩]
  readBlockRet len ret msgs tmp :=
    if ret < 0 then (ret, tmp)
    else
      (blockLen len, (List.range (blockLen len)).map (msgs[1]?.elim (fun _ => 0) I2cMsg.buf) ++
        tmp.drop (blockLen len))

/-- The emulation makes the messages of the protocol. -/
theorem emulated_protocol : emulated.Protocol where
  writeByteMsgs _ _ _ := ⟨_, rfl, rfl, rfl, rfl, rfl, rfl⟩
  writeByteRet := rfl
  readBlockMsgs _ _ _ := ⟨_, _, rfl, rfl, rfl, rfl, rfl, rfl, rfl, rfl⟩
  readBlockRet _ _ _ _ := rfl

/-- Another master has the bus in the first attempt of every transfer. -/
def contended : Line where
  addr := 0x50
  chip := { cells := fun _ => 0xff, pointer := 0, phase := .idle }
  busy _ retry _ := if retry = 0 then iicstatBusbusy else 0
  retries := 2

/-- The second attempt finds the bus free. -/
theorem contended_frees : contended.Frees := by
  intro transfer
  have hfree : s3c24xxI2cSetMaster (fun _ => 0) = 0 := by decide
  exact ⟨1, by decide, hfree⟩

/-- The chip begins with its own cells. -/
theorem contended_holds :
    (⟨atRest 0, 0, none⟩ : Bus).Holds 0 contended contended.chip.cells :=
  ⟨⟨rfl, rfl⟩, rfl, rfl⟩

/-- A 24C02 that was probed without platform data. -/
def eeprom24c02 : At24Data := { chip := probeChip none 8, numAddresses := 1 }

/-! ### Sessions -/

/-- A session over the bus returns to the processes what it returns on the cells alone, with
    any memory and any copies of the host, and at its end the chip holds the cells that the other
    has. The bus driver works with interrupts, and in every transfer it finds the bus free. -/
theorem session_onBus (hirq : has q quirkPoll = false) (hproto : smbus.Protocol)
    (hfrees : line.Frees) {υ : Type} (host : Host υ) (at24 : At24Data) (fuel : Nat)
    (calls : List Syscall) (pos : Nat → Int) (u : υ) (hb : b.Holds q line cells) :
    Option.Rel (SameValue (OnFiles (Bus.Holds q line)))
      (session host (busWire smbus line) at24 fuel calls ⟨pos, u, b⟩)
      (session host cellsWire at24 fuel calls ⟨pos, u, cells⟩) :=
  session_sim (busWire_sim hirq hproto hfrees) at24 fuel calls ⟨rfl, rfl, hb⟩

/-- There is no memory for a read. -/
def starvedHost : Host (Nat → Byte) := { plainHost with kmalloc := fun u _ => (none, u) }

/-- A write, and a read without memory. -/
theorem session_onBus_starved :
    Option.Rel (SameValue (OnFiles (Bus.Holds 0 contended)))
      (session starvedHost (busWire emulated contended) eeprom24c02 9 [.pwrite [7] 0, .pread 1 0]
        ⟨fun _ => 0, fun _ => 0, ⟨atRest 0, 0, none⟩⟩)
      (session starvedHost cellsWire eeprom24c02 9 [.pwrite [7] 0, .pread 1 0]
        ⟨fun _ => 0, fun _ => 0, contended.chip.cells⟩) :=
  session_onBus (by decide) emulated_protocol contended_frees starvedHost eeprom24c02 9 _ _ _
    contended_holds

/-- The story is that of the machine on the bus. -/
structure Follows (q : Reg) (line : Line) (cells : Byte → Byte) (f : Story)
    (g : Files ((Nat → Byte) × Bus)) : Prop where
  pos : g.pos = f.pos
  holds : g.machine.2.Holds q line (lastWritten cells f.writes)

/-- A call over the bus returns what the story tells. -/
theorem Syscall.run_follows (hirq : has q quirkPoll = false) (hproto : smbus.Protocol)
    (hfrees : line.Frees) {at24 : At24Data} (hps : 0 < at24.chip.pageSize)
    (hps' : at24.chip.pageSize ≤ 128) {fuel : Nat} (hfuel : maxRwCount ≤ fuel) (c : Syscall)
    {f : Story} {g : Files ((Nat → Byte) × Bus)} (h : Follows q line cells f g) :
    ∃ g', c.run plainHost (busWire smbus line) at24 fuel g =
        some ((c.told at24 cells f).1, g') ∧
      Follows q line cells (c.told at24 cells f).2 g' := by
  obtain ⟨pos, u, b⟩ := g
  obtain ⟨k, htold, htells⟩ := c.run_told hps hps' hfuel cells (f := f)
    (g := ⟨pos, u, lastWritten cells f.writes⟩) ⟨h.pos, rfl⟩
  -- the same call over the bus
  have hsim : Option.Rel (SameValue (OnFiles (Bus.Holds q line)))
      (c.run plainHost (busWire smbus line) at24 fuel ⟨pos, u, b⟩)
      (c.run plainHost cellsWire at24 fuel ⟨pos, u, lastWritten cells f.writes⟩) :=
    c.run_sim (busWire_sim hirq hproto hfrees) at24 fuel ⟨rfl, rfl, h.holds⟩
  rw [htold] at hsim
  generalize c.run plainHost (busWire smbus line) at24 fuel ⟨pos, u, b⟩ = x at hsim ⊢
  cases hsim with
  | @some r _ hr =>
    obtain ⟨out, g'⟩ := r
    obtain ⟨rfl, hpos, -, hholds⟩ := hr
    refine ⟨g', rfl, hpos.trans htells.pos, ?_⟩
    rw [← htells.cells]
    exact hholds

end At24
