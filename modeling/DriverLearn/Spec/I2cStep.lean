import DriverLearn.ForStd.Run
import DriverLearn.Native.I2cS3c2440

/-!
# One byte of an I2C transfer

What `i2c_s3c_irq_nextbyte` does at the end of a byte while `i2c->msg` points to a message.
The loop at `retry_write` is a search in the messages that follow (`turn`), the label
`prepare_read` never faults (`readStep`), and each state of the driver is one of the two
behind a test for a missing acknowledge. Later modules cite these equations and do not
unfold the state machine again.

## Key results

- `retryWrite_eq`: the loop at `retry_write` ends, and does what `turn` says
- `stateStart_eq` / `stateWrite_eq` / `stateRead_eq`: the three states
- `nextbyte_of_start` / `nextbyte_of_write` / `nextbyte_of_read`: one call
- `irq_start` / `irq_write` / `irq_read` / `irq_stop`: one interrupt
-/

namespace S3c24xx

open Word

variable {poll : S3c24xxI2c → Except Fault S3c24xxI2c}
variable {s : S3c24xxI2c} {j : Nat} {m : I2cMsg}

/-! ### The current message -/

/-- `i2c->msg` is `&msgs[msg_idx]`, and `m` is the message there. The number of messages is
    an `int`. -/
structure At (s : S3c24xxI2c) (j : Nat) (m : I2cMsg) : Prop where
  msg : s.msg = some j
  idx : s.msgIdx = j
  num : s.msgNum = s.msgs.length
  get : s.msgs[j]? = some m
  bound : s.msgs.length < 2147483648

/-- The current message is one of the list. -/
theorem At.lt (h : At s j m) : j < s.msgs.length :=
  (List.getElem?_eq_some_iff.mp h.get).1

/-- So `i2c->msg` can be read. -/
theorem At.curMsg (h : At s j m) : curMsg s = .ok m := by
  simp only [S3c24xx.curMsg, h.msg, h.get]

/-- `is_lastmsg` tells whether it is the last one. -/
theorem At.isLastmsg (h : At s j m) : isLastmsg s = decide (j + 1 = s.msgs.length) := by
  have hlt := h.lt
  have hbound := h.bound
  have hpred : toU32 ((s.msgs.length : Int) - 1) = s.msgs.length - 1 := by
    unfold toU32
    omega
  rw [S3c24xx.isLastmsg, h.num, h.idx, hpred]
  exact decide_eq_decide.mpr (by omega)

/-- The current message and those behind it. -/
theorem At.drop (h : At s j m) : s.msgs.drop j = m :: s.msgs.drop (j + 1) := by
  obtain ⟨hlt, hget⟩ := List.getElem?_eq_some_iff.mp h.get
  rw [List.drop_eq_getElem_cons hlt, hget]

/-- Fields that no lemma about the current message looks at. -/
theorem At.of_eq {t : S3c24xxI2c} (h : At s j m) (hmsg : t.msg = s.msg)
    (hidx : t.msgIdx = s.msgIdx) (hnum : t.msgNum = s.msgNum) (hmsgs : t.msgs = s.msgs) :
    At t j m where
  msg := hmsg.trans h.msg
  idx := hidx.trans h.idx
  num := by rw [hnum, hmsgs, h.num]
  get := by rw [hmsgs, h.get]
  bound := by rw [hmsgs]; exact h.bound

/-! ### What a turn of the driver does -/

/-- `i2c->msg` is moved to the start of message `k`. -/
def seek (k : Nat) (s : S3c24xxI2c) : S3c24xxI2c :=
  { s with msgPtr := 0, msgIdx := k, msg := some k }

/-- Byte `q` of message `k` is written to IICDS. -/
def sendByte (k q : Nat) (byte : Byte) (s : S3c24xxI2c) : S3c24xxI2c :=
  { s with
    msgPtr := q + 1
    msgIdx := k
    msg := some k
    iicds := byte
    trace := s.trace ++ [.data k q byte] }

/-- The STOP behind the last message. -/
def finish (s : S3c24xxI2c) : S3c24xxI2c :=
  s3c24xxI2cStop { s with msgIdx := s.msgs.length - 1 } 0

/-- The end of `s3c24xx_i2c_message_start`. -/
def launch (poll : S3c24xxI2c → Except Fault S3c24xxI2c) (s : S3c24xxI2c) :
    Except Fault S3c24xxI2c :=
  if has s.quirks quirkPoll then poll s else .ok s

/-- In interrupt mode nothing follows the START. -/
@[simp] theorem launch_ok (s : S3c24xxI2c) : launch .ok s = .ok s := by
  rw [launch]
  split <;> rfl

/-- Under `QUIRK_POLL` the loop follows the START. -/
theorem launch_of_poll (hquirk : has s.quirks quirkPoll = true) : launch poll s = poll s := by
  rw [launch, if_pos hquirk]

/-- Without the quirk nothing does, whatever `poll` is. -/
theorem launch_of_irq (hquirk : has s.quirks quirkPoll = false) : launch poll s = .ok s := by
  rw [launch, hquirk, if_neg (by decide)]

/-- How the loop at `retry_write` ends. -/
inductive Turn where
  | data (k q : Nat) (byte : Byte)
  | start (k : Nat) (m : I2cMsg)
  | stop
  | fault

/-- The way of the loop through the messages from index `k` on. -/
def nextTurn (k : Nat) : List I2cMsg → Turn
  | [] => .stop
  | m :: ms =>
    if !m.isNostart then .start k m
    else if m.isRd then .fault
    else if m.len.toNat = 0 then nextTurn (k + 1) ms
    else .data k 0 (m.buf 0)

/-- The loop at byte `p` of message `j`. -/
def turn (j p : Nat) (m : I2cMsg) (rest : List I2cMsg) : Turn :=
  if p < m.len.toNat then .data j p (m.buf p) else nextTurn (j + 1) rest

/-- What the driver does at the end of the loop at `retry_write`. -/
def writeStep (poll : S3c24xxI2c → Except Fault S3c24xxI2c) (s : S3c24xxI2c) :
    Turn → Except Fault S3c24xxI2c
  | .data k q byte => .ok (sendByte k q byte s)
  | .start k m => do
    let s ← launch poll (startCondition k m (seek k s))
    return { s with state := .start }
  | .stop => .ok (finish s)
  | .fault => .error .nullMsg

/-- In interrupt mode the START of the next message is all. -/
theorem writeStep_start (s : S3c24xxI2c) (k : Nat) (m : I2cMsg) :
    writeStep .ok s (.start k m) =
      .ok { startCondition k m (seek k s) with state := .start } := by
  rw [writeStep, launch_ok]
  rfl

/-- What `prepare_read` does at message `j`. -/
def readStep (s : S3c24xxI2c) (j : Nat) (m : I2cMsg) : S3c24xxI2c :=
  if isMsglast s m then
    if j + 1 = s.msgs.length then s3c24xxI2cDisableAck s else s
  else if m.len.toNat ≤ s.msgPtr then
    if j + 1 = s.msgs.length then finish s else seek (j + 1) s
  else
    s

/-- An acknowledge is missing and the message does not ignore that. -/
def nak (iicstat : Reg) (m : I2cMsg) : Bool :=
  has iicstat iicstatLastbit && !m.isIgnoreNak

/-! ### The labels -/

/-- `s3c24xx_i2c_message_start` at a known message. -/
theorem messageStart_eq (h : At s j m) :
    s3c24xxI2cMessageStart poll s = launch poll (startCondition j m s) := by
  simp only [s3c24xxI2cMessageStart, h.curMsg, h.msg, bind, Except.bind, pure, Except.pure]
  rfl

/-- The STOP behind the last message. -/
theorem At.finish_eq (h : At s j m) (hlast : j + 1 = s.msgs.length) :
    s3c24xxI2cStop s 0 = finish s := by
  have hidx : s.msgs.length - 1 = s.msgIdx := by rw [h.idx]; omega
  simp only [finish, hidx]

/-- The step to the next message. -/
theorem At.nextMsg_eq (h : At s j m) : nextMsg s = seek (j + 1) s := by
  simp only [nextMsg, seek, h.idx, h.msg, Option.map_some]

/-- The next message becomes the current one. -/
theorem At.seek_next (h : At s j m) {m' : I2cMsg} {rest : List I2cMsg}
    (hdrop : s.msgs.drop (j + 1) = m' :: rest) : At (seek (j + 1) s) (j + 1) m' where
  msg := rfl
  idx := rfl
  num := h.num
  get := by
    have hhead := List.head?_drop (l := s.msgs) (i := j + 1)
    rw [hdrop] at hhead
    exact hhead.symm
  bound := h.bound

/-- The loop leaves no trace of the messages it passes. -/
theorem writeStep_seek (k : Nat) (t : Turn) :
    writeStep poll (seek k s) t = writeStep poll s t := by
  cases t <;> rfl

/-- `goto retry_write` behind the STOP reads through the cleared pointer. -/
theorem retryWrite_nullMsg (h : s.msg = none) (fuel : Nat) :
    retryWrite poll fuel s = .error .nullMsg := by
  cases fuel <;> simp only [retryWrite, curMsg, h, bind, Except.bind]

/-- The loop at `retry_write` ends, given a turn for each message that is left. -/
theorem retryWrite_eq {fuel : Nat} (h : At s j m) (hfuel : s.msgs.length ≤ j + fuel) :
    retryWrite poll fuel s =
      writeStep poll s (turn j s.msgPtr m (s.msgs.drop (j + 1))) := by
  induction fuel generalizing s j m with
  | zero => exact absurd h.lt (by omega)
  | succ fuel ih =>
    simp only [retryWrite, h.curMsg, bind, Except.bind, pure, Except.pure, turn]
    by_cases hend : s.msgPtr < m.len.toNat
    · -- a byte of the current message is left
      have hmsgend : isMsgend s m = false := by simp [isMsgend, hend]
      rw [hmsgend, if_pos hend]
      simp only [writeStep, sendByte, emit, h.msg, h.idx]
      rfl
    · have hmsgend : isMsgend s m = true := by simp [isMsgend]; omega
      rw [hmsgend, if_neg hend]
      simp only [Bool.not_true, Bool.false_eq_true, if_false]
      cases hdrop : s.msgs.drop (j + 1) with
      | nil =>
        have hlast : j + 1 = s.msgs.length := by
          have hlt := h.lt
          rw [List.drop_eq_nil_iff] at hdrop
          omega
        rw [h.isLastmsg, decide_eq_true hlast, h.finish_eq hlast]
        rfl
      | cons m' rest =>
        have hnext := h.seek_next hdrop
        have hlast : ¬ j + 1 = s.msgs.length := by
          have hlt := hnext.lt
          simp only [seek] at hlt
          omega
        rw [h.isLastmsg, decide_eq_false hlast, h.nextMsg_eq]
        simp only [Bool.not_false, if_true, hnext.curMsg, nextTurn]
        cases hnostart : m'.isNostart with
        | false =>
          simp only [Bool.not_false, if_true, Bool.false_eq_true, if_false,
            messageStart_eq hnext, writeStep]
          rfl
        | true =>
          simp only [if_true, Bool.not_true, Bool.false_eq_true, if_false]
          cases hrd : m'.isRd with
          | true =>
            -- the change of direction: STOP, and back to the loop
            rw [if_pos rfl, if_pos rfl]
            exact retryWrite_nullMsg rfl fuel
          | false =>
            simp only [Bool.false_eq_true, if_false]
            have hdrop' : (seek (j + 1) s).msgs.drop (j + 1 + 1) = rest := by
              have htail := congrArg List.tail hdrop
              rwa [List.tail_drop] at htail
            rw [ih hnext (by simp only [seek]; omega), hdrop', writeStep_seek]
            congr 1
            simp only [turn, seek, Nat.pos_iff_ne_zero]
            by_cases hlen : m'.len.toNat = 0 <;> simp [hlen]

/-- `prepare_read` at a known message does not fault. -/
theorem prepareRead_eq (h : At s j m) : prepareRead s = .ok (readStep s j m) := by
  simp only [prepareRead, h.curMsg, bind, Except.bind, pure, Except.pure, readStep, isMsgend,
    h.isLastmsg, decide_eq_true_eq, h.nextMsg_eq]
  by_cases hlast : j + 1 = s.msgs.length
  · simp only [hlast, if_true, h.finish_eq hlast]
    split <;> [rfl; split <;> rfl]
  · simp only [hlast, if_false]
    split <;> [rfl; split <;> rfl]

/-! ### The states -/

/-- WRITE stops with `-ECONNREFUSED` at a refused byte and goes on to the next turn otherwise. -/
theorem stateWrite_eq (h : At s j m) (iicstat : Reg) :
    stateWrite poll iicstat s =
      if nak iicstat m then .ok (s3c24xxI2cStop s eConnrefused)
      else writeStep poll s (turn j s.msgPtr m (s.msgs.drop (j + 1))) := by
  have hfuel : s.msgs.length ≤ j + (s.msgs.length - s.msg.getD 0) := by
    rw [h.msg, Option.getD_some]
    omega
  simp only [stateWrite, h.curMsg, bind, Except.bind, pure, Except.pure,
    retryWrite_eq h hfuel, nak, Bool.and_comm]
  rfl

/-- The early STOP for an empty last message is the one that `prepare_read` and
    `retry_write` come to. -/
theorem stateStart_eq (h : At s j m) (hptr : s.msgPtr < 4294967295) (iicstat : Reg) :
    stateStart poll iicstat s =
      if nak iicstat m then .ok (s3c24xxI2cStop s eNxio)
      else if m.isRd then .ok (readStep { s with state := .read } j m)
      else writeStep poll { s with state := .write } (turn j s.msgPtr m (s.msgs.drop (j + 1))) := by
  simp only [stateStart, h.curMsg, bind, Except.bind, pure, Except.pure]
  rw [show (has iicstat iicstatLastbit && !m.isIgnoreNak) = nak iicstat m from rfl]
  cases hnak : nak iicstat m with
  | true => rfl
  | false =>
    simp only [Bool.false_eq_true, if_false]
    cases hrd : m.isRd with
    -- a read: with length 0 at the end of the list it stops
    | true =>
      have h' : At { s with state := .read } j m := h.of_eq rfl rfl rfl rfl
      simp only [if_true, prepareRead_eq h', h'.isLastmsg, Bool.and_eq_true,
        decide_eq_true_eq, beq_iff_eq]
      split
      · next hempty =>
        obtain ⟨hlast, hlen⟩ := hempty
        have hzero : m.len.toNat = 0 := by rw [hlen]; rfl
        have hmsglast : isMsglast { s with state := .read } m = false := by
          have hne : ¬ s.msgPtr = 4294967295 := by omega
          simpa [isMsglast, hlen, toU32] using hne
        simp only [readStep, hmsglast, hzero, Nat.zero_le, if_true, Bool.false_eq_true,
          if_false, h'.finish_eq hlast]
        rw [if_pos hlast]
      · rfl
    -- a write: the same
    | false =>
      have h' : At { s with state := .write } j m := h.of_eq rfl rfl rfl rfl
      have hstate : ¬ State.write = State.read := by decide
      simp only [Bool.false_eq_true, if_false, hstate, stateWrite_eq h', hnak, h'.isLastmsg,
        Bool.and_eq_true, decide_eq_true_eq, beq_iff_eq]
      split
      · next hempty =>
        obtain ⟨hlast, hlen⟩ := hempty
        have hnil : s.msgs.drop (j + 1) = [] := List.drop_eq_nil_of_le (by rw [hlast])
        rw [h'.finish_eq hlast, hnil, turn, hlen]
        rfl
      · rfl

/-- A byte is stored in the current message; the pointer and the flags stay. -/
def stored (byte : Byte) (p : Nat) (m : I2cMsg) : I2cMsg :=
  { m with
    buf := Function.update m.buf p byte
    len := if m.isRecvLen && m.len == 1 then m.len + byte.setWidth 16 else m.len }

/-- The buffer with the byte in its place. -/
theorem stored_buf (byte : Byte) (p : Nat) (m : I2cMsg) :
    (stored byte p m).buf = Function.update m.buf p byte := rfl

/-- A byte stored changes the message and the pointer, and nothing else but the trace. -/
theorem storeByte_eq (h : At s j m) (byte : Byte) :
    storeByte byte m s =
      { s with
        msgs := s.msgs.set j (stored byte s.msgPtr m)
        msgPtr := s.msgPtr + 1
        trace := s.trace ++ [.recv j s.msgPtr byte] } := by
  simp only [storeByte, emit, h.msg, Option.getD_some, stored]

/-- The current message stays the current one, with the byte in it. -/
theorem At.storeByte (h : At s j m) (byte : Byte) :
    At (storeByte byte m s) j (stored byte s.msgPtr m) := by
  rw [storeByte_eq h]
  exact {
    msg := h.msg
    idx := h.idx
    num := by simp only [List.length_set]; exact h.num
    get := by simp [h.lt]
    bound := by simp only [List.length_set]; exact h.bound }

/-- READ stores the byte in IICDS and goes on to `prepare_read`. -/
theorem stateRead_eq (h : At s j m) :
    stateRead s =
      .ok (readStep (storeByte s.iicds m s) j (stored s.iicds s.msgPtr m)) := by
  simp only [stateRead, h.curMsg, bind, Except.bind]
  exact prepareRead_eq (h.storeByte s.iicds)

/-! ### One call -/

/-- The state machine in START, as long as the pointer does not wrap. -/
theorem nextbyte_of_start (h : At s j m) (hstate : s.state = .start)
    (hptr : s.msgPtr < 4294967295) (iicstat : Reg) :
    i2cS3cIrqNextbyte poll iicstat s = clearIrqpend <$>
      if nak iicstat m then .ok (s3c24xxI2cStop s eNxio)
      else if m.isRd then .ok (readStep { s with state := .read } j m)
      else writeStep poll { s with state := .write }
        (turn j s.msgPtr m (s.msgs.drop (j + 1))) := by
  rw [← stateStart_eq h hptr, i2cS3cIrqNextbyte, hstate]

/-- The state machine in WRITE. -/
theorem nextbyte_of_write (h : At s j m) (hstate : s.state = .write) (iicstat : Reg) :
    i2cS3cIrqNextbyte poll iicstat s = clearIrqpend <$>
      if nak iicstat m then .ok (s3c24xxI2cStop s eConnrefused)
      else writeStep poll s (turn j s.msgPtr m (s.msgs.drop (j + 1))) := by
  rw [← stateWrite_eq h, i2cS3cIrqNextbyte, hstate]

/-- The state machine in READ. -/
theorem nextbyte_of_read (h : At s j m) (hstate : s.state = .read) (iicstat : Reg) :
    i2cS3cIrqNextbyte poll iicstat s = .ok (clearIrqpend
      (readStep (storeByte s.iicds m s) j (stored s.iicds s.msgPtr m))) := by
  rw [i2cS3cIrqNextbyte, hstate]
  simp only
  rw [stateRead_eq h]
  rfl

/-! ### One interrupt -/

/-- The end of a byte changes only registers. -/
theorem At.byteEnd (h : At s j m) (e : ByteEnd) : At (byteEnd e s) j m :=
  h.of_eq rfl rfl rfl rfl

/-- LASTBIT is read from the hardware. -/
theorem has_lastbit_byteEnd (e : ByteEnd) (s : S3c24xxI2c) :
    has (byteEnd e s).iicstat iicstatLastbit = has e.iicstat iicstatLastbit :=
  has_merge_new _ _ (by decide) (by decide)

/-- LASTBIT is taken over from the hardware, so a NAK can be read off it. -/
theorem nak_byteEnd (e : ByteEnd) (s : S3c24xxI2c) (m : I2cMsg) :
    nak (byteEnd e s).iicstat m = nak e.iicstat m := by
  rw [nak, has_lastbit_byteEnd, nak]

/-- Outside `STATE_IDLE` an interrupt is one call, which does not poll. -/
theorem irq_eq (hstate : s.state ≠ .idle) (e : ByteEnd) :
    s3c24xxI2cIrq s e = i2cS3cIrqNextbyte .ok (byteEnd e s).iicstat (byteEnd e s) := by
  rw [s3c24xxI2cIrq, if_neg (show (byteEnd e s).state ≠ .idle from hstate)]

/-- An interrupt in START, the message being at its first byte. -/
theorem irq_start (h : At s j m) (hstate : s.state = .start) (hptr : s.msgPtr = 0)
    (e : ByteEnd) :
    s3c24xxI2cIrq s e = clearIrqpend <$>
      if nak e.iicstat m then .ok (s3c24xxI2cStop (byteEnd e s) eNxio)
      else if m.isRd then .ok (readStep { byteEnd e s with state := .read } j m)
      else writeStep .ok { byteEnd e s with state := .write }
        (turn j 0 m (s.msgs.drop (j + 1))) := by
  have hptr' : (byteEnd e s).msgPtr = 0 := hptr
  rw [irq_eq (by rw [hstate]; decide), nextbyte_of_start (h.byteEnd e) hstate (by omega),
    nak_byteEnd, show turn j (byteEnd e s).msgPtr m = turn j 0 m by rw [hptr']]
  rfl

/-- An interrupt in WRITE. -/
theorem irq_write (h : At s j m) (hstate : s.state = .write) (e : ByteEnd) :
    s3c24xxI2cIrq s e = clearIrqpend <$>
      if nak e.iicstat m then .ok (s3c24xxI2cStop (byteEnd e s) eConnrefused)
      else writeStep .ok (byteEnd e s) (turn j s.msgPtr m (s.msgs.drop (j + 1))) := by
  rw [irq_eq (by rw [hstate]; decide), nextbyte_of_write (h.byteEnd e) hstate, nak_byteEnd]
  rfl

/-- An interrupt in READ. -/
theorem irq_read (h : At s j m) (hstate : s.state = .read) (e : ByteEnd) :
    s3c24xxI2cIrq s e = .ok (clearIrqpend
      (readStep (storeByte e.iicds m (byteEnd e s)) j (stored e.iicds s.msgPtr m))) := by
  rw [irq_eq (by rw [hstate]; decide), nextbyte_of_read (h.byteEnd e) hstate]
  rfl

/-- An interrupt behind the STOP moves no byte. -/
theorem irq_stop (hstate : s.state = .stop) (e : ByteEnd) :
    s3c24xxI2cIrq s e = .ok (clearIrqpend (s3c24xxI2cDisableIrq (byteEnd e s))) := by
  have hstate' : (byteEnd e s).state = .stop := hstate
  rw [irq_eq (by rw [hstate]; decide), i2cS3cIrqNextbyte, hstate']

/-- In IDLE an interrupt is only acknowledged. -/
theorem irq_idle (hstate : s.state = .idle) (e : ByteEnd) :
    s3c24xxI2cIrq s e = .ok (clearIrqpend (byteEnd e s)) := by
  rw [s3c24xxI2cIrq, if_pos (show (byteEnd e s).state = .idle from hstate)]

/-! ### Transfers -/

/-- The driver between transfers, on a controller that does nothing. -/
def atRest (quirks : Reg) : S3c24xxI2c where
  quirks := quirks
  suspended := false
  msg := none
  msgNum := 0
  msgIdx := 0
  msgPtr := 0
  state := .idle
  msgs := []
  iiccon := 0
  iicstat := 0
  iicds := 0
  engine := .idle
  trace := []
  polls := 0

/-- The state behind the first START of a transfer. -/
def begun (m : I2cMsg) (ms : List I2cMsg) (s : S3c24xxI2c) : S3c24xxI2c :=
  startCondition 0 m (s3c24xxI2cEnableIrq
    { s with
      msgs := m :: ms
      msg := some 0
      msgNum := (m :: ms).length
      msgPtr := 0
      msgIdx := 0
      state := .start })

/-- A transfer begins with the START of its first message. -/
theorem beginXfer_eq (ms : List I2cMsg) (s : S3c24xxI2c) :
    beginXfer poll (m :: ms) s = launch poll (begun m ms s) := rfl

/-- A polled transfer goes on with the loop. -/
theorem beginXfer_of_poll (ms : List I2cMsg) (hquirk : has s.quirks quirkPoll = true) :
    beginXfer poll (m :: ms) s = poll (begun m ms s) :=
  (beginXfer_eq ms s).trans (launch_of_poll hquirk)

/-- One driven by interrupts waits behind the START. -/
theorem beginXfer_of_irq (ms : List I2cMsg) (hquirk : has s.quirks quirkPoll = false) :
    beginXfer poll (m :: ms) s = .ok (begun m ms s) :=
  (beginXfer_eq ms s).trans (launch_of_irq hquirk)

/-- An interrupt at the end of an acknowledged byte. -/
def acked : ByteEnd := ⟨0, 0⟩

/-- LASTBIT is clear at the end of an acknowledged byte. -/
theorem lastbit_acked : has acked.iicstat iicstatLastbit = false := by decide

/-- A transfer that is begun and takes the interrupts `irqs`. -/
def transfer (poll : S3c24xxI2c → Except Fault S3c24xxI2c) (msgs : List I2cMsg)
    (s : S3c24xxI2c) (irqs : List ByteEnd) : Except Fault S3c24xxI2c := do
  let s ← beginXfer poll msgs s
  irqs.foldlM s3c24xxI2cIrq s

/-- A transfer driven by interrupts handles them one after the other. -/
theorem transfer_eq {ms : List I2cMsg} (hquirk : has s.quirks quirkPoll = false)
    (irqs : List ByteEnd) :
    transfer poll (m :: ms) s irqs = irqs.foldlM s3c24xxI2cIrq (begun m ms s) := by
  rw [transfer, beginXfer_of_irq ms hquirk]
  rfl

/-- The surroundings of a transfer that takes the interrupts `irqs` until the waiting ends
    and `late` from there until it sets `STATE_IDLE`. -/
def interrupted (busy : Nat → Reg) (penv : PollEnv) (irqs late : List ByteEnd) : XferEnv where
  busy := busy
  poll := penv
  wait := fun s => irqs.foldlM s3c24xxI2cIrq s
  late := fun s => late.foldlM s3c24xxI2cIrq s

/-- The way out of `s3c24xx_i2c_doxfer` in interrupt mode. -/
def leave (s : S3c24xxI2c) : S3c24xxI2c :=
  { (if has s.quirks quirkHdmiphy then s else s3c24xxI2cDisableBus s) with state := .idle }

/-- At its end the driver is in IDLE. -/
theorem leave_state (s : S3c24xxI2c) : (leave s).state = .idle := rfl

/-- Disabling the bus is no event. -/
theorem leave_trace (s : S3c24xxI2c) : (leave s).trace = s.trace := by
  simp only [leave]
  split <;> rfl

/-- Nor does it touch a message. -/
theorem leave_msgs (s : S3c24xxI2c) : (leave s).msgs = s.msgs := by
  simp only [leave]
  split <;> rfl

/-- The state in which `s3c24xx_i2c_doxfer` takes its way out. -/
def atExit (env : XferEnv) (fuel : Nat) (msgs : List I2cMsg) (s : S3c24xxI2c) :
    Except Fault S3c24xxI2c := do
  let s ← beginXfer (fun s => pollLoop env.poll fuel s.iicstat s) msgs s
  if has s.quirks quirkPoll then return s
  else
    let s ← env.wait s
    env.late s

section Doxfer

variable {busy : Nat → Reg} (penv : PollEnv) (irqs late : List ByteEnd) (fuel : Nat)
variable {ms : List I2cMsg} (env : XferEnv)

/-- `s3c24xx_i2c_doxfer` when it polls: it returns what the loop leaves in `msg_idx`. -/
theorem doxfer_poll (hsuspended : s.suspended = false) (hbus : s3c24xxI2cSetMaster env.busy = 0)
    (hquirk : has s.quirks quirkPoll = true) {t : S3c24xxI2c} (ht : t.quirks = s.quirks)
    (hloop : pollLoop env.poll fuel (begun m ms s).iicstat (begun m ms s) = .ok t) :
    s3c24xxI2cDoxfer env fuel (m :: ms) s = .ok (toS32 t.msgIdx, { t with state := .idle }) := by
  rw [s3c24xxI2cDoxfer, hsuspended, if_neg (by decide), if_neg (by simp [hbus]),
    beginXfer_of_poll ms hquirk]
  simp only [hloop, bind, Except.bind, ht, hquirk, if_true]
  rfl

/-- A polled transfer that returns has come out of its loop. -/
theorem pollLoop_of_doxfer (hsuspended : s.suspended = false)
    (hbus : s3c24xxI2cSetMaster env.busy = 0) (hquirk : has s.quirks quirkPoll = true)
    {r : Int × S3c24xxI2c} (hrun : s3c24xxI2cDoxfer env fuel (m :: ms) s = .ok r) :
    ∃ t, pollLoop env.poll fuel (begun m ms s).iicstat (begun m ms s) = .ok t := by
  rw [s3c24xxI2cDoxfer, hsuspended, if_neg (by decide), if_neg (by simp [hbus]),
    beginXfer_of_poll ms hquirk] at hrun
  obtain ⟨t, hloop, -⟩ := Run.bind_eq_ok hrun
  exact ⟨t, hloop⟩

/-- `s3c24xx_i2c_doxfer` when it waits: what comes behind the wait does not change the return value.
    -/
theorem doxfer_wait (hsuspended : s.suspended = false) (hbus : s3c24xxI2cSetMaster env.busy = 0)
    (hquirk : has s.quirks quirkPoll = false) :
    s3c24xxI2cDoxfer env fuel (m :: ms) s = do
      let t ← env.wait (begun m ms s)
      let u ← env.late t
      return (toS32 t.msgIdx, leave u) := by
  rw [s3c24xxI2cDoxfer, hsuspended, if_neg (by decide), if_neg (by simp [hbus]),
    beginXfer_of_irq ms hquirk]
  simp only [bind, Except.bind, show (begun m ms s).quirks = s.quirks from rfl, hquirk,
    Bool.false_eq_true, if_false]
  rfl

/-- The same with the interrupts of the wait and those behind it given. -/
theorem doxfer_irq (m : I2cMsg) (ms : List I2cMsg) (hsuspended : s.suspended = false)
    (hbus : s3c24xxI2cSetMaster busy = 0) (hquirk : has s.quirks quirkPoll = false) :
    s3c24xxI2cDoxfer (interrupted busy penv irqs late) fuel (m :: ms) s = do
      let t ← irqs.foldlM s3c24xxI2cIrq (begun m ms s)
      let u ← late.foldlM s3c24xxI2cIrq t
      return (toS32 t.msgIdx, leave u) :=
  doxfer_wait fuel (interrupted busy penv irqs late) hsuspended hbus hquirk

end Doxfer

/-! ### The messages the loop passes -/

/-- From the messages `rest`, the first with index `k`, the loop comes to message `m` with
    index `k'`, past writes only. -/
def Reaches (k : Nat) (rest : List I2cMsg) (k' : Nat) (m : I2cMsg) : Prop :=
  ∃ pre post, rest = pre ++ m :: post ∧ k' = k + pre.length ∧
    ∀ w ∈ pre, w.isRd = false ∧ w.isNostart = true ∧ w.len.toNat = 0

/-- The first message is reached. -/
theorem Reaches.head (k : Nat) (m : I2cMsg) (rest : List I2cMsg) : Reaches k (m :: rest) k m :=
  ⟨[], rest, rfl, rfl, by simp⟩

/-- What is reached behind an empty write without a START. -/
theorem Reaches.cons {k k' : Nat} {w : I2cMsg} {rest : List I2cMsg}
    (h : Reaches (k + 1) rest k' m)
    (hw : w.isRd = false ∧ w.isNostart = true ∧ w.len.toNat = 0) :
    Reaches k (w :: rest) k' m := by
  obtain ⟨pre, post, rfl, rfl, hpre⟩ := h
  refine ⟨w :: pre, post, rfl, by simp only [List.length_cons]; omega, ?_⟩
  simpa using ⟨hw, hpre⟩

/-- Where the loop ends. -/
theorem nextTurn_reaches (k : Nat) (rest : List I2cMsg) :
    match nextTurn k rest with
    | .data k' q byte => ∃ m, Reaches k rest k' m ∧ m.isRd = false ∧ m.isNostart = true ∧
        0 < m.len.toNat ∧ q = 0 ∧ byte = m.buf 0
    | .start k' m => Reaches k rest k' m ∧ m.isNostart = false
    | .stop => ∀ w ∈ rest, w.isRd = false ∧ w.isNostart = true ∧ w.len.toNat = 0
    | .fault => ∃ k' m, Reaches k rest k' m ∧ m.isRd = true ∧ m.isNostart = true := by
  induction rest generalizing k with
  | nil => simp [nextTurn]
  | cons m rest ih =>
    cases hnostart : m.isNostart with
    | false => simpa [nextTurn, hnostart] using Reaches.head k m rest
    | true =>
      cases hrd : m.isRd with
      | true => simpa [nextTurn, hnostart, hrd] using ⟨k, m, Reaches.head k m rest, hrd, hnostart⟩
      | false =>
        by_cases hlen : m.len.toNat = 0
        · -- an empty message without a START leaves the loop where it was
          have hm := And.intro hrd (And.intro hnostart hlen)
          have heq : nextTurn k (m :: rest) = nextTurn (k + 1) rest := by
            simp [nextTurn, hnostart, hrd, hlen]
          have hrest := ih (k + 1)
          rw [heq]
          cases hturn : nextTurn (k + 1) rest with
          | data k' q byte =>
            rw [hturn] at hrest
            obtain ⟨m', hreach, hm'⟩ := hrest
            exact ⟨m', hreach.cons hm, hm'⟩
          | start k' m' =>
            rw [hturn] at hrest
            exact ⟨hrest.1.cons hm, hrest.2⟩
          | stop =>
            rw [hturn] at hrest
            simpa using ⟨hm, hrest⟩
          | fault =>
            rw [hturn] at hrest
            obtain ⟨k', m', hreach, hm'⟩ := hrest
            exact ⟨k', m', hreach.cons hm, hm'⟩
        · have heq : nextTurn k (m :: rest) = .data k 0 (m.buf 0) := by
            simp [nextTurn, hnostart, hrd, hlen]
          rw [heq]
          exact ⟨m, Reaches.head k m rest, hrd, hnostart, Nat.pos_of_ne_zero hlen, rfl, rfl⟩

end S3c24xx
