import DriverLearn.ForStd.Word

/-!
# I2C bus driver

Model of the transfer engine of `i2c-s3c2440.c`: `s3c24xx_i2c_xfer` and everything it
runs, in interrupt mode and in poll mode. Evident misspellings of the file are read as
meant (`msg_idex`, `tmp $= ~S3C2410-S3C2410_IICCON_IRQPEND`, `s3c24xx_i2c-set_master`).

The message array is a list and `i2c->msg` an index into it, `none` for NULL; an access
through a bad pointer is a `Fault`. The state also holds the device registers and a
trace of what the driver does to the bus, which no function reads. Delays, debug output
and the wait queue are left out: the waiter is woken when `msg_num` is 0.
-/

namespace S3c24xx

open Word

/-! ### Constants -/

/-- A device register. -/
abbrev Reg := BitVec 32

def iicconAcken : Reg := 1 <<< 7
def iicconIrqen : Reg := 1 <<< 5
def iicconIrqpend : Reg := 1 <<< 4

def iicstatMasterRx : Reg := 2 <<< 6
def iicstatMasterTx : Reg := 3 <<< 6
def iicstatModemask : Reg := 3 <<< 6
def iicstatStart : Reg := 1 <<< 5
def iicstatBusbusy : Reg := 1 <<< 5
def iicstatTxrxen : Reg := 1 <<< 4
def iicstatLastbit : Reg := 1 <<< 0

def quirkHdmiphy : Reg := 1 <<< 1
def quirkPoll : Reg := 1 <<< 3

/-- Message flags of the I2C core. -/
def i2cMRd : BitVec 16 := 0x0001
def i2cMRecvLen : BitVec 16 := 0x0400
def i2cMIgnoreNak : BitVec 16 := 0x1000
def i2cMRevDirAddr : BitVec 16 := 0x2000
def i2cMNostart : BitVec 16 := 0x4000

def eIo : Int := -5
def eNxio : Int := -6
def eAgain : Int := -11
def eInval : Int := -22
def eTimedout : Int := -110
def eConnrefused : Int := -111
def eRemoteio : Int := -121

/-! ### State -/

/-- `struct i2c_msg`; `buf` is the memory from the buffer pointer on. -/
structure I2cMsg where
  addr : BitVec 16
  flags : BitVec 16
  len : BitVec 16
  buf : Nat → Byte

/-- The message is one to be read. -/
def I2cMsg.isRd (m : I2cMsg) : Bool := has m.flags i2cMRd
/-- The first byte of the read tells how many more there are. -/
def I2cMsg.isRecvLen (m : I2cMsg) : Bool := has m.flags i2cMRecvLen
/-- A refused byte is to be ignored. -/
def I2cMsg.isIgnoreNak (m : I2cMsg) : Bool := has m.flags i2cMIgnoreNak
/-- The read bit of the address byte is to be flipped. -/
def I2cMsg.isRevDirAddr (m : I2cMsg) : Bool := has m.flags i2cMRevDirAddr
/-- The message goes on without a START of its own. -/
def I2cMsg.isNostart (m : I2cMsg) : Bool := has m.flags i2cMNostart

/-- `enum s3c24xx_i2c_state` -/
inductive State where
  | idle
  | start
  | read
  | write
  | stop
  deriving DecidableEq, Repr

/-- What happens at the controller: START is set in IICSTAT for a message with the address
    byte in IICDS, a byte of a message is written to IICDS, a received byte is stored,
    START is cleared (TXRXEN under `QUIRK_HDMIPHY`), and the end of a byte, with LASTBIT. -/
inductive Event where
  | start (msg : Nat) (iicstat : Reg) (addr : Byte)
  | data (msg ptr : Nat) (byte : Byte)
  | recv (msg ptr : Nat) (byte : Byte)
  | stop
  | byteEnd (lastbit : Bool)
  deriving DecidableEq, Repr

/-- What the controller has on the bus: nothing, the address byte behind a START, a byte of
    the message, or a byte that has ended and waits for IRQPEND to be cleared. -/
inductive Engine where
  | idle
  | addr
  | byte
  | held
  deriving DecidableEq, Repr

/-- `struct s3c24xx_i2c`, with the message array, the registers, the controller and the
    trace. `polls` counts the register reads of the polling functions. -/
structure S3c24xxI2c where
  quirks : Reg
  suspended : Bool
  msg : Option Nat
  msgNum : Nat
  msgIdx : Nat
  msgPtr : Nat
  state : State
  msgs : List I2cMsg
  iiccon : Reg
  iicstat : Reg
  iicds : Byte
  engine : Engine
  trace : List Event
  polls : Nat

/-- Accesses that have no meaning in C, and the end of the fuel. -/
inductive Fault where
  | nullMsg
  | pastMsgs
  | outOfFuel
  deriving DecidableEq, Repr

/-- A `*i2c->msg` access. -/
def curMsg (s : S3c24xxI2c) : Except Fault I2cMsg :=
  match s.msg with
  | none => .error .nullMsg
  | some j =>
    match s.msgs[j]? with
    | none => .error .pastMsgs
    | some m => .ok m

/-- An event at the controller. -/
def emit (s : S3c24xxI2c) (e : Event) : S3c24xxI2c := { s with trace := s.trace ++ [e] }

/-! ### Completion, registers, START and STOP -/

/-- `s3c24xx_i2c_master_complete`, without the call of `wake_up` -/
def s3c24xxI2cMasterComplete (s : S3c24xxI2c) (ret : Int) : S3c24xxI2c :=
  { s with
    msgPtr := 0
    msg := none
    msgIdx := if ret ≠ 0 then toU32 ret else s.msgIdx + 1
    msgNum := 0 }

/-- `s3c24xx_i2c_disable_ack` -/
def s3c24xxI2cDisableAck (s : S3c24xxI2c) : S3c24xxI2c :=
  { s with iiccon := s.iiccon &&& ~~~iicconAcken }

/-- `s3c24xx_i2c_enable_ack` -/
def s3c24xxI2cEnableAck (s : S3c24xxI2c) : S3c24xxI2c :=
  { s with iiccon := s.iiccon ||| iicconAcken }

/-- `s3c24xx_i2c_disable_irq` -/
def s3c24xxI2cDisableIrq (s : S3c24xxI2c) : S3c24xxI2c :=
  { s with iiccon := s.iiccon &&& ~~~iicconIrqen }

/-- `s3c24xx_i2c_enable_irq` -/
def s3c24xxI2cEnableIrq (s : S3c24xxI2c) : S3c24xxI2c :=
  { s with iiccon := s.iiccon ||| iicconIrqen }

/-- The address byte `s3c24xx_i2c_message_start` puts in IICDS. -/
def I2cMsg.addrByte (m : I2cMsg) : Byte :=
  let addr : BitVec 32 := (m.addr.setWidth 32 &&& 0x7f) <<< 1
  let addr := if m.isRd then addr ||| 1 else addr
  let addr := if m.isRevDirAddr then addr ^^^ 1 else addr
  addr.setWidth 8

/-- The mode `s3c24xx_i2c_message_start` selects in IICSTAT. -/
def I2cMsg.startStat (m : I2cMsg) : Reg :=
  iicstatTxrxen ||| if m.isRd then iicstatMasterRx else iicstatMasterTx

/-- The register writes of `s3c24xx_i2c_message_start`, for the message with index `j`. -/
def startCondition (j : Nat) (m : I2cMsg) (s : S3c24xxI2c) : S3c24xxI2c :=
  let stat := m.startStat
  let s := s3c24xxI2cEnableAck s
  let iiccon := s.iiccon
  let s := { s with iicstat := stat }
  let s := { s with iicds := m.addrByte }
  let s := { s with iiccon := iiccon }
  let stat := stat ||| iicstatStart
  emit { s with iicstat := stat, engine := .addr } (.start j stat m.addrByte)

/-- `s3c24xx_i2c_message_start(i2c, i2c->msg)`; `poll` is the loop at its end. -/
def s3c24xxI2cMessageStart (poll : S3c24xxI2c → Except Fault S3c24xxI2c) (s : S3c24xxI2c) :
    Except Fault S3c24xxI2c := do
  let m ← curMsg s
  let s := startCondition (s.msg.getD 0) m s
  if has s.quirks quirkPoll then poll s else return s

/-- `s3c24xx_i2c_stop` -/
def s3c24xxI2cStop (s : S3c24xxI2c) (ret : Int) : S3c24xxI2c :=
  let iicstat := s.iicstat
  let iicstat :=
    if has s.quirks quirkHdmiphy then iicstat &&& ~~~iicstatTxrxen
    else iicstat &&& ~~~iicstatStart
  let s := emit { s with iicstat := iicstat, engine := .idle } .stop
  let s := { s with state := .stop }
  s3c24xxI2cDisableIrq (s3c24xxI2cMasterComplete s ret)

/-! ### Where the transfer is -/

/-- `is_lastmsg`: whether the current message is the last one. -/
def isLastmsg (s : S3c24xxI2c) : Bool := s.msgIdx ≥ toU32 (s.msgNum - 1)

/-- `is_msglast`: whether the next byte is the last one of the message. -/
def isMsglast (s : S3c24xxI2c) (m : I2cMsg) : Bool :=
  if m.isRecvLen && m.len == 1 then false
  else s.msgPtr == toU32 (m.len.toNat - 1)

/-- `is_msgend`: whether the message is used up. -/
def isMsgend (s : S3c24xxI2c) (m : I2cMsg) : Bool := s.msgPtr ≥ m.len.toNat

/-- `msg_ptr = 0; msg_idx++; msg++` -/
def nextMsg (s : S3c24xxI2c) : S3c24xxI2c :=
  { s with msgPtr := 0, msgIdx := s.msgIdx + 1, msg := s.msg.map (· + 1) }

/-! ### The state machine -/

/-- The label `retry_write`. Every turn moves to the next message, so the messages from the
    current one on bound the number of turns. -/
def retryWrite (poll : S3c24xxI2c → Except Fault S3c24xxI2c) :
    (fuel : Nat) → S3c24xxI2c → Except Fault S3c24xxI2c
  | 0, s => do
    let _ ← curMsg s
    throw .outOfFuel
  | fuel + 1, s => do
    let m ← curMsg s
    if !isMsgend s m then
      let byte := m.buf s.msgPtr
      let s := emit s (.data (s.msg.getD 0) s.msgPtr byte)
      return { s with msgPtr := s.msgPtr + 1, iicds := byte }
    else if !isLastmsg s then
      let s := nextMsg s
      let m ← curMsg s
      if m.isNostart then
        -- after the STOP the source goes on with `goto retry_write`
        let s := if m.isRd then s3c24xxI2cStop s eInval else s
        retryWrite poll fuel s
      else
        let s ← s3c24xxI2cMessageStart poll s
        return { s with state := .start }
    else
      return s3c24xxI2cStop s 0

/-- `case STATE_WRITE` -/
def stateWrite (poll : S3c24xxI2c → Except Fault S3c24xxI2c) (iicstat : Reg)
    (s : S3c24xxI2c) : Except Fault S3c24xxI2c := do
  let m ← curMsg s
  if !m.isIgnoreNak && has iicstat iicstatLastbit then
    return s3c24xxI2cStop s eConnrefused
  else
    retryWrite poll (s.msgs.length - s.msg.getD 0) s

/-- The label `prepare_read`. -/
def prepareRead (s : S3c24xxI2c) : Except Fault S3c24xxI2c := do
  let m ← curMsg s
  if isMsglast s m then
    return if isLastmsg s then s3c24xxI2cDisableAck s else s
  else if isMsgend s m then
    return if isLastmsg s then s3c24xxI2cStop s 0 else nextMsg s
  else
    return s

/-- `i2c->msg->buf[i2c->msg_ptr++] = byte`, and the length of an SMBus block read. -/
def storeByte (byte : Byte) (m : I2cMsg) (s : S3c24xxI2c) : S3c24xxI2c :=
  let s := emit s (.recv (s.msg.getD 0) s.msgPtr byte)
  let m' := { m with
    buf := Function.update m.buf s.msgPtr byte
    len := if m.isRecvLen && m.len == 1 then m.len + byte.setWidth 16 else m.len }
  { s with msgs := s.msgs.set (s.msg.getD 0) m', msgPtr := s.msgPtr + 1 }

/-- `case STATE_READ` -/
def stateRead (s : S3c24xxI2c) : Except Fault S3c24xxI2c := do
  let m ← curMsg s
  prepareRead (storeByte s.iicds m s)

/-- `case STATE_START` -/
def stateStart (poll : S3c24xxI2c → Except Fault S3c24xxI2c) (iicstat : Reg)
    (s : S3c24xxI2c) : Except Fault S3c24xxI2c := do
  let m ← curMsg s
  if has iicstat iicstatLastbit && !m.isIgnoreNak then
    return s3c24xxI2cStop s eNxio
  else
    let s := { s with state := if m.isRd then .read else .write }
    if isLastmsg s && m.len == 0 then
      return s3c24xxI2cStop s 0
    else if s.state = .read then
      prepareRead s
    else
      stateWrite poll iicstat s

/-- Clear IRQPEND: a byte that has ended gives way to the next one. -/
def clearIrqpend (s : S3c24xxI2c) : S3c24xxI2c :=
  { s with
    iiccon := s.iiccon &&& ~~~iicconIrqpend
    engine := if s.engine = .held then .byte else s.engine }

/-- `i2c_s3c_irq_nextbyte`; its `ret` is 0 on every path. -/
def i2cS3cIrqNextbyte (poll : S3c24xxI2c → Except Fault S3c24xxI2c) (iicstat : Reg)
    (s : S3c24xxI2c) : Except Fault S3c24xxI2c :=
  match s.state with
  | .idle => .ok s
  | .stop => .ok (clearIrqpend (s3c24xxI2cDisableIrq s))
  | .start => clearIrqpend <$> stateStart poll iicstat s
  | .write => clearIrqpend <$> stateWrite poll iicstat s
  | .read => clearIrqpend <$> stateRead s

/-! ### Interrupts -/

/-- What the hardware shows at the end of a byte: the status bits of IICSTAT and the
    content of IICDS. -/
structure ByteEnd where
  iicstat : Reg
  iicds : Byte
  deriving Repr

/-- The end of a byte. The mode and TXRXEN bits of IICSTAT read back as written. -/
def byteEnd (e : ByteEnd) (s : S3c24xxI2c) : S3c24xxI2c :=
  let ctrl := iicstatModemask ||| iicstatTxrxen
  emit
    { s with
      iiccon := s.iiccon ||| iicconIrqpend
      iicstat := s.iicstat &&& ctrl ||| e.iicstat &&& ~~~ctrl
      iicds := e.iicds
      engine := if s.engine = .idle then .idle else .held }
    (.byteEnd (has e.iicstat iicstatLastbit))

/-- One interrupt and its handler. No interrupt is requested under `QUIRK_POLL`, so
    `s3c24xx_i2c_message_start` does not poll here. -/
def s3c24xxI2cIrq (s : S3c24xxI2c) (e : ByteEnd) : Except Fault S3c24xxI2c :=
  let s := byteEnd e s
  let status := s.iicstat
  if s.state = .idle then
    .ok (clearIrqpend s)
  else
    i2cS3cIrqNextbyte .ok status s

/-! ### Polling -/

/-- The hardware at a register read of a polling function: whether a byte has ended since
    the last one, and how. -/
abbrev PollEnv := S3c24xxI2c → Option ByteEnd

/-- One register read of a polling function. The hardware may have ended a byte since the last one.
    -/
def pollRead (env : PollEnv) (s : S3c24xxI2c) : S3c24xxI2c :=
  let s' := { s with polls := s.polls + 1 }
  match env s with
  | none => s'
  | some e => byteEnd e s'

/-- The loop of `is_ack`. -/
def isAckTries (env : PollEnv) : (tries : Nat) → S3c24xxI2c → Bool × S3c24xxI2c
  | 0, s => (false, s)
  | tries + 1, s =>
    let s := pollRead env s
    if has s.iiccon iicconIrqpend then
      let s := pollRead env s
      if !has s.iicstat iicstatLastbit then (true, s)
      else isAckTries env tries s
    else
      isAckTries env tries s

/-- `is_ack` -/
def isAck (env : PollEnv) (s : S3c24xxI2c) : Bool × S3c24xxI2c := isAckTries env 50 s

/-- The `while` loop of `s3c24xx_i2c_message_start`. -/
def pollLoop (env : PollEnv) : (fuel : Nat) → (stat : Reg) → S3c24xxI2c →
    Except Fault S3c24xxI2c
  | 0, _, _ => .error .outOfFuel
  | fuel + 1, stat, s =>
    if s.msgNum ≠ 0 then
      match isAck env s with
      | (false, s) => .ok s
      | (true, s) => do
        let s ← i2cS3cIrqNextbyte (fun s => pollLoop env fuel s.iicstat s) stat s
        let s := pollRead env s
        pollLoop env fuel s.iicstat s
    else
      .ok s

/-! ### s3c24xx_i2c_doxfer -/

/-- `s3c24xx_i2c_set_master`, with the readings of IICSTAT: 400 tries. -/
def s3c24xxI2cSetMaster (iicstat : Nat → Reg) : Int :=
  if (List.range 400).any fun k => !has (iicstat k) iicstatBusbusy then 0 else eTimedout

/-- `s3c24xx_i2c_disable_bus` -/
def s3c24xxI2cDisableBus (s : S3c24xxI2c) : S3c24xxI2c :=
  let s := { s with iicstat := s.iicstat &&& ~~~iicstatTxrxen }
  { s with iiccon := s.iiccon &&& ~~~(iicconIrqen ||| iicconIrqpend ||| iicconAcken) }

/-- What happens around one call of `s3c24xx_i2c_doxfer`: the readings of
    `s3c24xx_i2c_set_master`, the hardware while it polls, what is done until
    `wait_event_timeout` returns, and from there to the end of the wait for the idle bus. -/
structure XferEnv where
  busy : Nat → Reg
  poll : PollEnv
  wait : S3c24xxI2c → Except Fault S3c24xxI2c
  late : S3c24xxI2c → Except Fault S3c24xxI2c

/-- The assignments of `s3c24xx_i2c_doxfer` once the bus is acquired, and the START. -/
def beginXfer (poll : S3c24xxI2c → Except Fault S3c24xxI2c) (msgs : List I2cMsg)
    (s : S3c24xxI2c) : Except Fault S3c24xxI2c :=
  let s := { s with
    msgs := msgs
    msg := some 0
    msgNum := msgs.length
    msgPtr := 0
    msgIdx := 0
    state := .start }
  s3c24xxI2cMessageStart poll (s3c24xxI2cEnableIrq s)

/-- The return value and the state. The wait for the idle bus only reads registers. -/
def s3c24xxI2cDoxfer (env : XferEnv) (fuel : Nat) (msgs : List I2cMsg) (s : S3c24xxI2c) :
    Except Fault (Int × S3c24xxI2c) :=
  if s.suspended then
    .ok (eIo, s)
  else if s3c24xxI2cSetMaster env.busy ≠ 0 then
    .ok (eAgain, s)
  else do
    let s ← beginXfer (fun s => pollLoop env.poll fuel s.iicstat s) msgs s
    if has s.quirks quirkPoll then
      return (toS32 s.msgIdx, { s with state := .idle })
    else
      let s ← env.wait s
      let ret := toS32 s.msgIdx
      let s ← env.late s
      -- under QUIRK_HDMIPHY the bus is taken to be disabled already
      let s := if has s.quirks quirkHdmiphy then s else s3c24xxI2cDisableBus s
      return (ret, { s with state := .idle })

/-! ### s3c24xx_i2c_xfer -/

/-- One call of `s3c24xx_i2c_doxfer`, with the states around it. -/
structure Attempt where
  retry : Nat
  before : S3c24xxI2c
  ret : Int
  after : S3c24xxI2c

/-- The calls `s3c24xx_i2c_xfer` makes. -/
inductive XferCall where
  | clkEnable (ret : Int)
  | doxfer (a : Attempt)
  | clkDisable

/-- What happens around one call of `s3c24xx_i2c_xfer`: the result of `clk_enable`, the
    surroundings of each attempt, and what is done in the delay behind it. -/
structure AdapEnv where
  clkEnable : Int
  attempt : Nat → XferEnv
  delay : Nat → S3c24xxI2c → Except Fault S3c24xxI2c

/-- The `for` loop from `retry` on, with the calls so far. -/
def xferFrom (env : AdapEnv) (fuel : Nat) (retries : Int) (msgs : List I2cMsg) (retry : Nat)
    (s : S3c24xxI2c) (log : List XferCall) : Except Fault (Int × S3c24xxI2c × List XferCall) :=
  if retry < retries then
    match s3c24xxI2cDoxfer (env.attempt retry) fuel msgs s with
    | .error f => .error f
    | .ok (ret, t) =>
      let log := log ++ [.doxfer ⟨retry, s, ret, t⟩]
      if ret ≠ eAgain then
        .ok (ret, t, log ++ [.clkDisable])
      else
        match env.delay retry t with
        | .error f => .error f
        | .ok t => xferFrom env fuel retries msgs (retry + 1) t log
  else
    .ok (eRemoteio, s, log ++ [.clkDisable])
termination_by (retries - retry).toNat

/-- The return value, the state and the calls; `retries` is `adap->retries`. -/
def s3c24xxI2cXfer (env : AdapEnv) (fuel : Nat) (retries : Int) (msgs : List I2cMsg)
    (s : S3c24xxI2c) : Except Fault (Int × S3c24xxI2c × List XferCall) :=
  let ret := env.clkEnable
  if ret ≠ 0 then
    .ok (ret, s, [.clkEnable ret])
  else
    xferFrom env fuel retries msgs 0 s [.clkEnable ret]

end S3c24xx
