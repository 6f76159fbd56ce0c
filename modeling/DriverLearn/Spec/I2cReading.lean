import DriverLearn.Spec.I2cSending

/-!
# The read side behind a slave

A read stores the bytes of the slave one by one. Before the last byte of the last message
the driver clears ACKEN; an interrupt comes for that byte as for any other, but to
`is_ack` it looks refused. Up to there the two ways to drive a transfer go together, state
for state.

## Key results

- `Within.more` / `Within.full`: one byte of a read
- `Reads.interrupts` / `Reads.pollLoop`: bytes under ACKEN, by interrupts and polled
- `Reading.within`: a read up to its last byte
-/

namespace S3c24xx

open Word

variable {v : Slave} {ready : Nat → Bool} {s t sp : S3c24xxI2c} {j n q : Nat} {m : I2cMsg}

/-! ### What a read leaves -/

/-- The length of a read whose first byte is byte `n`: in an SMBus block read that byte says
    how many more there are. -/
def readLen (v : Slave) (n : Nat) (m : I2cMsg) : BitVec 16 :=
  if m.isRecvLen && m.len == 1 then m.len + (v.byte n).setWidth 16 else m.len

/-- The message with its first `q` bytes received, from byte `n` on. -/
def received (v : Slave) (n q : Nat) (m : I2cMsg) : I2cMsg :=
  { m with
    buf := fun i => if i < q then v.byte (n + i) else m.buf i
    len := if q = 0 then m.len else readLen v n m }

/-- Nothing received yet leaves the message. -/
theorem received_zero (v : Slave) (n : Nat) (m : I2cMsg) : received v n 0 m = m := by
  simp [received]

/-- With the first byte the length of a block read is known. -/
theorem received_len (hq : 0 < q) : (received v n q m).len = readLen v n m :=
  if_neg (by omega)

/-- The next byte goes to its place. -/
theorem stored_received (hq : q = 0 ∨ q < (readLen v n m).toNat) :
    stored (v.byte (n + q)) q (received v n q m) = received v n (q + 1) m := by
  have hbuf : Function.update (received v n q m).buf q (v.byte (n + q)) =
      (received v n (q + 1) m).buf := by
    funext i
    rcases Nat.lt_trichotomy i q with hi | hi | hi
    · rw [Function.update_of_ne (by omega)]
      simp only [received, hi, show i < q + 1 by omega, ↓reduceIte]
    · rw [hi, Function.update_self]
      simp [received]
    · rw [Function.update_of_ne (by omega)]
      simp only [received, show ¬ i < q by omega, show ¬ i < q + 1 by omega, ↓reduceIte]
  have hlen : (stored (v.byte (n + q)) q (received v n q m)).len = readLen v n m := by
    rcases hq with hq | hq
    · rw [hq, received_zero]
      rfl
    · by_cases hzero : q = 0
      · rw [hzero, received_zero]
        rfl
      · -- behind its first byte a block read is longer than one byte
        have hone : ((received v n q m).len == 1) = false := by
          rw [received_len (by omega), beq_eq_false_iff_ne]
          intro hone
          rw [hone] at hq
          simp at hq
          omega
        simp only [stored, hone, Bool.and_false, Bool.false_eq_true, if_false]
        exact received_len (by omega)
  rw [show stored (v.byte (n + q)) q (received v n q m) =
    { received v n q m with
      buf := Function.update (received v n q m).buf q (v.byte (n + q))
      len := (stored (v.byte (n + q)) q (received v n q m)).len } from rfl, hbuf, hlen]
  rfl

/-! ### One byte -/

/-- The driver reads message `j`, the next byte of which is on the bus. -/
structure Reading (s : S3c24xxI2c) (j : Nat) (m : I2cMsg) : Prop where
  here : At s j m
  state : s.state = .read
  engine : s.engine = .byte
  mode : has s.iicstat iicstatTransmit = false

/-- What the driver does with a byte that was received. -/
def readByte (j : Nat) (m : I2cMsg) (s : S3c24xxI2c) : S3c24xxI2c :=
  clearIrqpend (readStep (storeByte s.iicds m s) j (stored s.iicds s.msgPtr m))

/-- The state machine in READ stores a byte. -/
theorem nextbyte_read (h : At s j m) (hstate : s.state = .read)
    (poll : S3c24xxI2c → Except Fault S3c24xxI2c) (stat : Reg) :
    i2cS3cIrqNextbyte poll stat s = .ok (readByte j m s) :=
  nextbyte_of_read h hstate stat

/-- The byte to be read is on the bus. -/
theorem Reading.inFlight (h : Reading s j m) : inFlight s = true := by
  rw [S3c24xx.inFlight, h.engine]
  rfl

/-- It comes from the slave. -/
theorem Reading.receiving (h : Reading s j m) : receiving s = true := by
  rw [S3c24xx.receiving, h.engine, h.mode]
  rfl

/-- The byte has come in. -/
theorem Reading.ended (h : Reading s j m) (v : Slave) :
    v.ended s = byteEnd (v.answer s) s ∧ (v.answer s).iicds = v.byte (ends s.trace) := by
  refine ⟨ended_eq v h.inFlight, ?_⟩
  rw [Slave.answer, if_pos h.receiving]

/-- The interrupt for it stores it. -/
theorem Reading.irq (h : Reading s j m) (v : Slave) :
    s3c24xxI2cIrq s (v.answer s) = .ok (readByte j m (v.ended s)) := by
  rw [irq_read h.here h.state, (h.ended v).1]
  rfl

/-- It is acknowledged just if ACKEN is set. -/
theorem Reading.acknowledged (h : Reading s j m) (v : Slave) :
    acknowledged (v.ended s) = has s.iiccon iicconAcken := by
  rw [acknowledged_ended v h.inFlight, if_pos h.receiving]

/-- The transfer is not over. -/
theorem Reading.msgNum_ne (h : Reading s j m) : s.msgNum ≠ 0 := by
  have hlt := h.here.lt
  rw [h.here.num]
  omega

/-- `prepare_read` behind a byte that was stored. -/
theorem readStep_stored (hpos : 0 < s.msgPtr) (hptr : s.msgPtr ≤ 65536) :
    readStep s j m =
      if s.msgPtr + 1 = m.len.toNat then
        if j + 1 = s.msgs.length then s3c24xxI2cDisableAck s else s
      else if m.len.toNat ≤ s.msgPtr then
        if j + 1 = s.msgs.length then finish s else seek (j + 1) s
      else s := by
  have hmsglast : isMsglast s m = decide (s.msgPtr + 1 = m.len.toNat) := by
    have hlen := m.len.isLt
    rw [isMsglast]
    split
    · next hblock =>
      rw [Bool.and_eq_true, beq_iff_eq] at hblock
      rw [hblock.2]
      symm
      rw [decide_eq_false_iff_not]
      simp
      omega
    · rw [beq_eq_decide, decide_eq_decide]
      unfold toU32
      omega
  rw [readStep, hmsglast]
  simp only [decide_eq_true_eq]

/-! ### The bytes of one message -/

/-- The bytes of the slave from byte `n` on, as the bus shows them. -/
def slaveBytes (v : Slave) (n q : Nat) : List BusEvent :=
  (List.range q).map fun i => .byte (v.byte (n + i))

/-- One byte more at the end. -/
theorem slaveBytes_succ (v : Slave) (n q : Nat) :
    slaveBytes v n (q + 1) = slaveBytes v n q ++ [.byte (v.byte (n + q))] := by
  rw [slaveBytes, List.range_succ, List.map_append]
  rfl

/-- From `s`, where the first byte of message `j` is on the bus, `q` bytes were stored. -/
structure Within (v : Slave) (s : S3c24xxI2c) (j : Nat) (m : I2cMsg) (q : Nat)
    (t : S3c24xxI2c) : Prop where
  here : At t j (received v (ends s.trace) q m)
  ptr : t.msgPtr = q
  state : t.state = .read
  mode : has t.iicstat iicstatTransmit = false
  msgs : t.msgs = s.msgs.set j (received v (ends s.trace) q m)
  count : ends t.trace = ends s.trace + q
  shown : bus t.trace = bus s.trace ++ slaveBytes v (ends s.trace) q

/-- The next byte is on the bus. -/
theorem Within.reading (h : Within v s j m q t) (hengine : t.engine = .byte) :
    Reading t j (received v (ends s.trace) q m) := ⟨h.here, h.state, hengine, h.mode⟩

/-- At the first byte nothing was read yet. -/
theorem Reading.within (h : Reading s j m) (hptr : s.msgPtr = 0) : Within v s j m 0 s where
  here := by rw [received_zero]; exact h.here
  ptr := hptr
  state := h.state
  mode := h.mode
  msgs := by
    obtain ⟨hlt, hget⟩ := List.getElem?_eq_some_iff.mp h.here.get
    rw [received_zero, ← hget, List.set_getElem_self]
  count := rfl
  shown := (List.append_nil _).symm

/-- The next byte is stored. -/
theorem Within.stored (h : Within v s j m q t) (hengine : t.engine = .byte)
    (hq : q = 0 ∨ q < (readLen v (ends s.trace) m).toNat) :
    ∃ x, readByte j (received v (ends s.trace) q m) (v.ended t) =
        clearIrqpend (readStep x j (received v (ends s.trace) (q + 1) m)) ∧
      Within v s j m (q + 1) x ∧ x.engine = .held ∧
      has x.iiccon iicconAcken = has t.iiccon iicconAcken := by
  obtain ⟨hended, hbyte⟩ := (h.reading hengine).ended v
  have hptr : (v.ended t).msgPtr = q := by rw [hended]; exact h.ptr
  have hds : (v.ended t).iicds = v.byte (ends s.trace + q) := by
    rw [hended, ← h.count]
    exact hbyte
  -- the register holds the byte that the slave has shifted out
  have hat : At (v.ended t) j (received v (ends s.trace) q m) := by
    rw [hended]
    exact h.here.byteEnd _
  have hx := storeByte_eq hat (v.ended t).iicds
  have hstored := hat.storeByte (v.ended t).iicds
  rw [hptr, hds, stored_received hq] at hstored
  rw [hptr, hds, stored_received hq] at hx
  obtain ⟨hbus, hends⟩ := bus_begun (t := storeByte (v.byte (ends s.trace + q))
    (received v (ends s.trace) q m) (v.ended t)) (h.reading hengine).inFlight (by rw [hx]) rfl
  -- the driver stores it and `ACKEN` stays as it was
  refine ⟨storeByte (v.byte (ends s.trace + q)) (received v (ends s.trace) q m) (v.ended t),
    ?_, ⟨hstored, ?_, ?_, ?_, ?_, ?_, ?_⟩, ?_, ?_⟩
  · rw [readByte, hptr, hds, stored_received hq]
  · rw [hx]
  · rw [hx, hended]
    exact h.state
  · rw [hx, hended]
    exact (has_merge_kept _ _ (by decide) (by decide)).trans h.mode
  · rw [hx, hended, show (byteEnd (v.answer t) t).msgs = t.msgs from rfl, h.msgs, List.set_set]
  · rw [hends, h.count]
    omega
  · rw [hbus, h.shown, slaveBytes_succ, List.append_assoc]
  · rw [hx, hended]
    exact if_neg (by rw [hengine]; decide)
  · rw [hx, hended]
    exact has_set_of_disjoint _ (by decide)

/-- A byte that is not the last one: the next byte follows. Where one byte is left, the last
    message clears ACKEN for it. -/
theorem Within.more (h : Within v s j m q t) (hengine : t.engine = .byte)
    (hq : q + 1 < (readLen v (ends s.trace) m).toNat) :
    ∃ x, readByte j (received v (ends s.trace) q m) (v.ended t) = x ∧
      Within v s j m (q + 1) x ∧ x.engine = .byte ∧
      has x.iiccon iicconAcken = (has t.iiccon iicconAcken &&
        !decide (q + 2 = (readLen v (ends s.trace) m).toNat ∧ j + 1 = s.msgs.length)) := by
  obtain ⟨x, hread, hx, hheld, hacken⟩ := h.stored hengine (.inr (by omega))
  have hmax := (readLen v (ends s.trace) m).isLt
  have hnum : x.msgs.length = s.msgs.length := by rw [hx.msgs, List.length_set]
  refine ⟨_, hread, ?_⟩
  rw [readStep_stored (by rw [hx.ptr]; omega) (by rw [hx.ptr]; omega), hx.ptr,
    received_len (by omega), if_neg (show ¬ (readLen v (ends s.trace) m).toNat ≤ q + 1 by omega),
    hnum, show q + 1 + 1 = q + 2 from rfl]
  -- the other bits and fields stay
  have hkeep : ∀ iiccon, Within v s j m (q + 1) (clearIrqpend { x with iiccon := iiccon }) :=
    fun _ => ⟨hx.here.of_eq rfl rfl rfl rfl, hx.ptr, hx.state, hx.mode, hx.msgs, hx.count, hx.shown⟩
  have hclear : ∀ iiccon : Reg, has (iiccon &&& ~~~iicconIrqpend) iicconAcken =
      has iiccon iicconAcken := fun _ => has_clear_of_disjoint _ (by decide)
  have hbyte : ∀ iiccon, (clearIrqpend { x with iiccon := iiccon }).engine = .byte :=
    fun _ => if_pos hheld
  by_cases hlast : q + 2 = (readLen v (ends s.trace) m).toNat ∧ j + 1 = s.msgs.length
  · rw [if_pos hlast.1, if_pos hlast.2]
    refine ⟨hkeep _, hbyte _, (hclear _).trans ?_⟩
    rw [decide_eq_true hlast, Bool.not_true, Bool.and_false]
    exact has_clear_self _ _
  · have hsame : (if q + 2 = (readLen v (ends s.trace) m).toNat then
        if j + 1 = s.msgs.length then s3c24xxI2cDisableAck x else x else x) = x := by
      split
      · exact if_neg fun hnum => hlast ⟨‹_›, hnum⟩
      · rfl
    rw [hsame]
    refine ⟨hkeep _, hbyte _, (hclear _).trans ?_⟩
    rw [decide_eq_false hlast, hacken, Bool.not_false, Bool.and_true]

/-- The state when the STOP follows the `q` bytes read. -/
structure ReadOut (v : Slave) (s : S3c24xxI2c) (j : Nat) (m : I2cMsg) (q : Nat)
    (t : S3c24xxI2c) : Prop where
  state : t.state = .stop
  num : t.msgNum = 0
  idx : toS32 t.msgIdx = s.msgs.length
  engine : t.engine = .idle
  msgs : t.msgs = s.msgs.set j (received v (ends s.trace) q m)
  count : ends t.trace = ends s.trace + q
  shown : bus t.trace = bus s.trace ++ slaveBytes v (ends s.trace) q ++ [.stop]

/-- The last byte of the last message: the STOP follows. -/
theorem Within.last (h : Within v s j m q t) (hengine : t.engine = .byte)
    (hq : q = 0 ∨ q < (readLen v (ends s.trace) m).toNat)
    (hfull : (readLen v (ends s.trace) m).toNat ≤ q + 1) (hlast : j + 1 = s.msgs.length) :
    ReadOut v s j m (q + 1) (readByte j (received v (ends s.trace) q m) (v.ended t)) := by
  obtain ⟨x, hread, hx, -, -⟩ := h.stored hengine hq
  have hmax := (readLen v (ends s.trace) m).isLt
  have hnum : x.msgs.length = s.msgs.length := by rw [hx.msgs, List.length_set]
  rw [hread, readStep_stored (by rw [hx.ptr]; omega) (by rw [hx.ptr]; omega), hx.ptr,
    received_len (by omega), if_neg (by omega), if_pos hfull, hnum, if_pos hlast]
  obtain ⟨hend, hafter⟩ := finish_settled hx.here
  refine ⟨rfl, rfl, ?_, rfl, hx.msgs, ?_, ?_⟩
  · rw [hend.idx, hnum]
  · rw [hafter.trace, ends_append, hx.count]
    rfl
  · rw [hafter.trace, bus_append, hx.shown]
    rfl

/-- The last byte of another message: the next message is read on, without a START. -/
theorem Within.full (h : Within v s j m q t) (hengine : t.engine = .byte)
    (hq : q = 0 ∨ q < (readLen v (ends s.trace) m).toNat)
    (hfull : (readLen v (ends s.trace) m).toNat ≤ q + 1) {m' : I2cMsg} {rest : List I2cMsg}
    (hdrop : s.msgs.drop (j + 1) = m' :: rest) :
    ∃ x, readByte j (received v (ends s.trace) q m) (v.ended t) = x ∧ Reading x (j + 1) m' ∧
      x.msgPtr = 0 ∧ has x.iiccon iicconAcken = has t.iiccon iicconAcken ∧
      x.msgs.drop (j + 1) = m' :: rest ∧ ends x.trace = ends s.trace + (q + 1) ∧
      bus x.trace = bus s.trace ++ slaveBytes v (ends s.trace) (q + 1) := by
  obtain ⟨x, hread, hx, hheld, hacken⟩ := h.stored hengine hq
  have hmax := (readLen v (ends s.trace) m).isLt
  have hnum : x.msgs.length = s.msgs.length := by rw [hx.msgs, List.length_set]
  have hdrop' : x.msgs.drop (j + 1) = m' :: rest := by
    rw [hx.msgs, List.drop_set_of_lt (by omega), hdrop]
  -- the byte fills its message, and the next message is read on
  have hnext := hx.here.seek_next hdrop'
  have hlast : ¬ j + 1 = s.msgs.length := by
    have hlt := hnext.lt
    rw [show (seek (j + 1) x).msgs = x.msgs from rfl] at hlt
    omega
  refine ⟨_, hread, ?_⟩
  rw [readStep_stored (by rw [hx.ptr]; omega) (by rw [hx.ptr]; omega), hx.ptr,
    received_len (by omega), if_neg (by omega), if_pos hfull, hnum, if_neg hlast]
  refine ⟨⟨hnext.of_eq rfl rfl rfl rfl, hx.state, if_pos hheld, hx.mode⟩, rfl, ?_, hdrop',
    hx.count, hx.shown⟩
  rw [← hacken]
  exact has_clear_of_disjoint _ (by decide)

/-! ### The address byte -/

/-- What the driver does behind the address byte of a read. -/
def beginRead (j : Nat) (m : I2cMsg) (s : S3c24xxI2c) : S3c24xxI2c :=
  clearIrqpend (readStep { s with state := .read } j m)

/-- The state machine in START, behind the address byte of a read. -/
theorem nextbyte_beginRead (h : At s j m) (hstate : s.state = .start) (hptr : s.msgPtr = 0)
    (hrd : m.isRd = true) (poll : S3c24xxI2c → Except Fault S3c24xxI2c) {stat : Reg}
    (hstat : has stat iicstatLastbit = false) :
    i2cS3cIrqNextbyte poll stat s = .ok (beginRead j m s) := by
  have hnak : nak stat m = false := by rw [nak, hstat]; rfl
  rw [nextbyte_of_start h hstate (by omega), hnak, if_neg (by decide), hrd, if_pos rfl]
  rfl

/-- `prepare_read` before the first byte. -/
theorem readStep_first (hptr : s.msgPtr = 0) :
    readStep s j m =
      if m.len.toNat = 1 ∧ m.isRecvLen = false then
        if j + 1 = s.msgs.length then s3c24xxI2cDisableAck s else s
      else if m.len.toNat = 0 then
        if j + 1 = s.msgs.length then finish s else seek (j + 1) s
      else s := by
  have hptr' : (s.msgPtr == toU32 ((m.len.toNat : Int) - 1)) = decide (m.len.toNat = 1) := by
    have hlen := m.len.isLt
    rw [hptr, beq_eq_decide, decide_eq_decide]
    unfold toU32
    omega
  have hmsglast : isMsglast s m = decide (m.len.toNat = 1 ∧ m.isRecvLen = false) := by
    rw [isMsglast, hptr']
    cases m.isRecvLen with
    | true =>
      have hone : ¬ m.len = 1#16 → ¬ m.len.toNat = 1 := fun hne h => hne (BitVec.toNat_inj.mp h)
      simpa using hone
    | false => simp
  rw [readStep, hmsglast, hptr]
  simp only [decide_eq_true_eq, Nat.le_zero]

/-- The address byte of a read is on the bus, and will be acknowledged. -/
structure Addressed (v : Slave) (s : S3c24xxI2c) (j : Nat) (m : I2cMsg) : Prop where
  here : At s j m
  state : s.state = .start
  ptr : s.msgPtr = 0
  wired : Wired s m .addr
  isRd : m.isRd = true
  ack : v.ack (ends s.trace) = true

/-- The address byte ends acknowledged. -/
theorem Addressed.ended (h : Addressed v s j m) :
    v.ended s = byteEnd (v.answer s) s ∧ acknowledged (v.ended s) = true ∧
      has (v.answer s).iicstat iicstatLastbit = false := by
  have hflight := h.wired.inFlight (.inl rfl)
  have hsent : receiving s = false := by rw [S3c24xx.receiving, h.wired.engine]; rfl
  refine ⟨ended_eq v hflight, ?_, ?_⟩
  · rw [acknowledged_ended v hflight, hsent, h.ack]
    rfl
  · rw [Slave.answer, hsent, h.ack]
    exact (show has 0#32 iicstatLastbit = false by decide)

/-- The interrupt for it begins the read. -/
theorem Addressed.irq (h : Addressed v s j m) :
    s3c24xxI2cIrq s (v.answer s) = .ok (beginRead j m (v.ended s)) := by
  obtain ⟨hended, -, hbit⟩ := h.ended
  have hnak : nak (v.answer s).iicstat m = false := by rw [nak, hbit]; rfl
  rw [irq_start h.here h.state h.ptr, hnak, if_neg (by decide), h.isRd, if_pos rfl, hended]
  rfl

/-- The interrupts go on from there. -/
theorem Addressed.interrupts (h : Addressed v s j m) (fuel : Nat) :
    v.interrupts (fuel + 1) s = v.interrupts fuel (beginRead j m (v.ended s)) := by
  rw [Slave.interrupts, if_pos (h.wired.inFlight (.inl rfl)), h.irq]
  rfl

/-- The state in which `prepare_read` looks at the message. -/
theorem Addressed.prepared (h : Addressed v s j m) :
    ∃ t, t = { v.ended s with state := .read } ∧ At t j m ∧ t.msgPtr = 0 ∧ t.msgs = s.msgs ∧
      Wired t m .held ∧ ends t.trace = ends s.trace + 1 ∧ bus t.trace = bus s.trace := by
  obtain ⟨hended, -⟩ := h.ended
  have hheld := h.wired.byteEnd (by decide) (v.answer s)
  refine ⟨_, rfl, ?_⟩
  rw [hended]
  refine ⟨h.here.of_eq rfl rfl rfl rfl, h.ptr, rfl, ⟨hheld.engine, hheld.mode, hheld.acken⟩, ?_, ?_⟩
  · exact ends_append _ _
  · exact (bus_append _ _).trans (List.append_nil _)

/-- An empty read at the end of the list: the STOP follows. -/
theorem Addressed.stop (h : Addressed v s j m) (hlen : m.len.toNat = 0)
    (hlast : j + 1 = s.msgs.length) :
    ∃ x, beginRead j m (v.ended s) = x ∧ Opened x [] ∧ x.msgNum = 0 ∧ x.msgs = s.msgs ∧
      ends x.trace = ends s.trace + 1 ∧ bus x.trace = bus s.trace ++ [.stop] := by
  obtain ⟨t, ht, hat, hptr, hmsgs, -, hends, hbus⟩ := h.prepared
  refine ⟨_, rfl, ?_⟩
  rw [beginRead, ← ht, readStep_first hptr, hlen, if_neg (by simp), if_pos rfl, hmsgs, if_pos hlast]
  obtain ⟨hend, hafter⟩ := finish_settled hat
  refine ⟨.stop rfl hend.idx rfl, rfl, hmsgs, ?_, ?_⟩
  · rw [hafter.trace, ends_append, hends]
    rfl
  · rw [hafter.trace, bus_append, hbus]
    rfl

/-- Behind another empty read the next message is read. -/
theorem Addressed.skip (h : Addressed v s j m) (hlen : m.len.toNat = 0) {m' : I2cMsg}
    {rest : List I2cMsg} (hdrop : s.msgs.drop (j + 1) = m' :: rest) :
    ∃ x, beginRead j m (v.ended s) = x ∧ Reading x (j + 1) m' ∧ x.msgPtr = 0 ∧ x.msgs = s.msgs ∧
      has x.iiccon iicconAcken = true ∧ ends x.trace = ends s.trace + 1 ∧
      bus x.trace = bus s.trace := by
  obtain ⟨t, ht, hat, hptr, hmsgs, hheld, hends, hbus⟩ := h.prepared
  have hnext := hat.seek_next (by rw [hmsgs]; exact hdrop)
  have hlast : ¬ j + 1 = s.msgs.length := by
    intro hlast
    rw [List.drop_eq_nil_of_le (by omega)] at hdrop
    cases hdrop
  refine ⟨_, rfl, ?_⟩
  rw [beginRead, ← ht, readStep_first hptr, hlen, if_neg (by simp), if_pos rfl, hmsgs,
    if_neg hlast]
  have hmode := hheld.mode
  rw [h.isRd] at hmode
  refine ⟨⟨hnext.of_eq rfl rfl rfl rfl, ?_, if_pos hheld.engine, hmode⟩, rfl, hmsgs,
    (has_clear_of_disjoint _ (by decide)).trans hheld.acken, hends, hbus⟩
  rw [ht]
  rfl

/-- The first byte of a read comes, under ACKEN unless it is the last one of the list. -/
theorem Addressed.read (h : Addressed v s j m) (hlen : m.len.toNat ≠ 0) :
    ∃ x, beginRead j m (v.ended s) = x ∧ Reading x j m ∧ x.msgPtr = 0 ∧ x.msgs = s.msgs ∧
      has x.iiccon iicconAcken =
        !decide (m.len.toNat = 1 ∧ m.isRecvLen = false ∧ j + 1 = s.msgs.length) ∧
      ends x.trace = ends s.trace + 1 ∧ bus x.trace = bus s.trace := by
  obtain ⟨t, ht, hat, hptr, hmsgs, hheld, hends, hbus⟩ := h.prepared
  have hmode := hheld.mode
  rw [h.isRd] at hmode
  have hstate : t.state = .read := by rw [ht]
  -- the other bits and fields stay
  have hkeep : ∀ iiccon, Reading (clearIrqpend { t with iiccon := iiccon }) j m :=
    fun _ => ⟨hat.of_eq rfl rfl rfl rfl, hstate, if_pos hheld.engine, hmode⟩
  have hclear : ∀ iiccon : Reg, has (iiccon &&& ~~~iicconIrqpend) iicconAcken =
      has iiccon iicconAcken := fun _ => has_clear_of_disjoint _ (by decide)
  refine ⟨_, rfl, ?_⟩
  rw [beginRead, ← ht, readStep_first hptr, hmsgs, if_neg hlen]
  by_cases hoff : m.len.toNat = 1 ∧ m.isRecvLen = false ∧ j + 1 = s.msgs.length
  · rw [if_pos ⟨hoff.1, hoff.2.1⟩, if_pos hoff.2.2]
    refine ⟨hkeep _, hptr, hmsgs, (hclear _).trans ?_, hends, hbus⟩
    rw [decide_eq_true hoff]
    exact has_clear_self _ _
  · have hsame : (if m.len.toNat = 1 ∧ m.isRecvLen = false then
        if j + 1 = s.msgs.length then s3c24xxI2cDisableAck t else t else t) = t := by
      split
      · next hone => exact if_neg fun hlast => hoff ⟨hone.1, hone.2, hlast⟩
      · rfl
    rw [hsame]
    refine ⟨hkeep _, hptr, hmsgs, (hclear _).trans ?_, hends, hbus⟩
    rw [decide_eq_false hoff]
    exact hheld.acken
/-! ### Reads under ACKEN -/

/-- `n` bytes are read, ACKEN set for each of them. -/
inductive Reads (v : Slave) : Nat → S3c24xxI2c → S3c24xxI2c → Prop where
  | refl (s : S3c24xxI2c) : Reads v 0 s s
  | step {n : Nat} {s t : S3c24xxI2c} {j : Nat} {m : I2cMsg} (reading : Reading s j m)
      (acken : has s.iiccon iicconAcken = true)
      (rest : Reads v n (readByte j m (v.ended s)) t) : Reads v (n + 1) s t

/-- One byte more, under ACKEN. -/
theorem Reads.snoc (h : Reads v n s t) (hreading : Reading t j m)
    (hacken : has t.iiccon iicconAcken = true) :
    Reads v (n + 1) s (readByte j m (v.ended t)) := by
  induction h with
  | refl s => exact .step hreading hacken (.refl _)
  | step reading acken _ ih => exact .step reading acken (ih hreading hacken)

/-- Bytes behind others. -/
theorem Reads.trans {k : Nat} {u : S3c24xxI2c} (h : Reads v n s t) (h' : Reads v k t u) :
    Reads v (n + k) s u := by
  induction h with
  | refl s => rwa [Nat.zero_add]
  | @step n s t j m reading acken _ ih =>
    rw [show n + 1 + k = n + k + 1 by omega]
    exact .step reading acken (ih h')

/-- Interrupts take the bytes. -/
theorem Reads.interrupts (h : Reads v n s t) (fuel : Nat) :
    v.interrupts (n + fuel) s = v.interrupts fuel t := by
  induction h with
  | refl s => rw [Nat.zero_add]
  | @step n s t j m reading acken _ ih =>
    rw [show n + 1 + fuel = n + fuel + 1 by omega, Slave.interrupts, if_pos reading.inFlight,
      reading.irq v]
    exact ih

/-- The same state under other quirks and at another count of register reads. -/
def shadow (quirks : Reg) (polls : Nat) (s : S3c24xxI2c) : S3c24xxI2c :=
  { s with quirks := quirks, polls := polls }

/-- `prepare_read` looks at no quirk but `QUIRK_HDMIPHY`. -/
theorem readStep_shadow {quirks : Reg} (hphy : has quirks quirkHdmiphy = has s.quirks quirkHdmiphy)
    (polls j : Nat) (m : I2cMsg) :
    readStep (shadow quirks polls s) j m = shadow quirks polls (readStep s j m) := by
  have hfinish : finish (shadow quirks polls s) = shadow quirks polls (finish s) := by
    simp only [finish, s3c24xxI2cStop, shadow, hphy]
    split <;> rfl
  rw [readStep, readStep, hfinish,
    show isMsglast (shadow quirks polls s) m = isMsglast s m from rfl,
    show (shadow quirks polls s).msgs = s.msgs from rfl,
    show (shadow quirks polls s).msgPtr = s.msgPtr from rfl]
  split_ifs <;> rfl

/-- Nor does the rest of READ. -/
theorem readByte_shadow {quirks : Reg} (hphy : has quirks quirkHdmiphy = has s.quirks quirkHdmiphy)
    (polls j : Nat) (m : I2cMsg) :
    readByte j m (shadow quirks polls s) = shadow quirks polls (readByte j m s) := by
  rw [readByte, show storeByte (shadow quirks polls s).iicds m (shadow quirks polls s) =
    shadow quirks polls (storeByte s.iicds m s) from rfl,
    readStep_shadow (s := storeByte s.iicds m s) hphy]
  rfl

/-- The end of a byte looks at no quirk. -/
theorem ended_shadow (v : Slave) (quirks : Reg) (polls : Nat) (s : S3c24xxI2c) :
    v.ended (shadow quirks polls s) = shadow quirks polls (v.ended s) := by
  rw [Slave.ended, Slave.ended, show inFlight (shadow quirks polls s) = inFlight s from rfl]
  split <;> rfl

/-- The begin of a read looks at no quirk but `QUIRK_HDMIPHY`. -/
theorem beginRead_shadow {quirks : Reg}
    (hphy : has quirks quirkHdmiphy = has s.quirks quirkHdmiphy) (polls j : Nat) (m : I2cMsg) :
    beginRead j m (shadow quirks polls s) = shadow quirks polls (beginRead j m s) := by
  rw [beginRead, show ({ shadow quirks polls s with state := .read } : S3c24xxI2c) =
    shadow quirks polls { s with state := .read } from rfl,
    readStep_shadow (s := { s with state := .read }) hphy]
  rfl

/-- The begin of a read leaves the quirks. -/
theorem beginRead_quirks (j : Nat) (m : I2cMsg) (s : S3c24xxI2c) :
    (beginRead j m s).quirks = s.quirks := by
  simp only [beginRead, readStep, clearIrqpend]
  split_ifs <;> rfl

/-- A byte read leaves the quirks. -/
theorem readByte_quirks (j : Nat) (m : I2cMsg) (s : S3c24xxI2c) :
    (readByte j m s).quirks = s.quirks := by
  simp only [readByte, readStep, clearIrqpend]
  split_ifs <;> rfl

/-- A byte read does not look at the count of register reads. -/
theorem readByte_polls (j : Nat) (m : I2cMsg) (s : S3c24xxI2c) (n : Nat) :
    readByte j m { s with polls := n } = { readByte j m s with polls := n } := by
  calc readByte j m (shadow s.quirks n s)
      = shadow s.quirks n (readByte j m s) := readByte_shadow rfl n j m
    _ = shadow (readByte j m s).quirks n (readByte j m s) := by rw [readByte_quirks]

/-- The byte on the bus is the same under other quirks. -/
theorem Reading.shadow (h : Reading s j m) (quirks : Reg) (polls : Nat) :
    Reading (shadow quirks polls s) j m :=
  ⟨h.here.of_eq rfl rfl rfl rfl, h.state, h.engine, h.mode⟩

/-- A transfer reads in the same way under other quirks. -/
theorem Reads.shadow (h : Reads v n s t) {quirks : Reg}
    (hphy : has quirks quirkHdmiphy = has s.quirks quirkHdmiphy) (polls : Nat) :
    Reads v n (shadow quirks polls s) (shadow quirks polls t) := by
  induction h with
  | refl s => exact .refl _
  | @step n s t j m reading acken _ ih =>
    refine .step (reading.shadow quirks polls) acken ?_
    rw [ended_shadow, readByte_shadow (by rw [ended_quirks, hphy])]
    exact ih (by rw [readByte_quirks, ended_quirks, hphy])

/-- The polling loop takes the bytes. -/
theorem Reads.pollLoop (h : Reads v n s t) (hsees : Sees v sp s) (htimely : Timely ready sp)
    (fuel : Nat) (stat : Reg) :
    ∃ stat' sp', pollLoop (v.poll ready) (n + fuel) stat sp =
        pollLoop (v.poll ready) fuel stat' sp' ∧ Sees v sp' t ∧ Timely ready sp' := by
  induction h generalizing sp stat with
  | refl s => exact ⟨stat, sp, by rw [Nat.zero_add], hsees, htimely⟩
  | @step n s t j m reading acken _ ih =>
    -- the loop waits for the byte, and the call that takes it leaves IRQPEND clear
    obtain ⟨k, hle, hk⟩ := pollLoop_sees hsees htimely reading.msgNum_ne (n + fuel) stat
    have hat : At { v.ended s with polls := k } j m := by
      rw [(reading.ended v).1]
      exact reading.here.of_eq rfl rfl rfl rfl
    have hstate : (v.ended s).state = .read := by
      rw [(reading.ended v).1]
      exact reading.state
    have hnext := nextbyte_read hat hstate
      (fun s => S3c24xx.pollLoop (v.poll ready) (n + fuel) s.iicstat s) stat
    rw [readByte_polls] at hnext
    have hfresh : Fresh { readByte j m (v.ended s) with polls := k } := fresh_clearIrqpend _
    obtain ⟨stat', sp', hloop, hsp', htimely'⟩ := ih
      (Sees.pollRead v ready (readByte j m (v.ended s)) k)
      (htimely.of_fresh (by rw [pollRead_polls]; exact Nat.le_succ_of_le hle)
        (hfresh.pollRead v ready))
      (S3c24xx.pollRead (v.poll ready) { readByte j m (v.ended s) with polls := k }).iicstat
    refine ⟨stat', sp', ?_, hsp', htimely'⟩
    rw [show n + 1 + fuel = n + fuel + 1 by omega, hk, reading.acknowledged v, acken, if_pos rfl,
      hnext]
    exact hloop

/-! ### Whole messages -/

/-- A read comes to its last byte, and clears ACKEN for it at the end of the list. -/
theorem Reading.upto (h : Reading s j m) (hptr : s.msgPtr = 0)
    (hacken : 0 < q → has s.iiccon iicconAcken = true)
    (hq : q = 0 ∨ q < (readLen v (ends s.trace) m).toNat) :
    ∃ t, Reads v q s t ∧ Within v s j m q t ∧ t.engine = .byte ∧
      has t.iiccon iicconAcken = (has s.iiccon iicconAcken && !decide
        (0 < q ∧ q + 1 = (readLen v (ends s.trace) m).toNat ∧ j + 1 = s.msgs.length)) := by
  induction q with
  | zero => exact ⟨s, .refl s, h.within hptr, h.engine, by simp⟩
  | succ q ih =>
    have hlt : q + 1 < (readLen v (ends s.trace) m).toNat := by omega
    obtain ⟨t, hreads, hwithin, hengine, hbit⟩ := ih (fun _ => hacken (by omega)) (by omega)
    have hon : has t.iiccon iicconAcken = true := by
      rw [hbit, hacken (by omega), decide_eq_false (by omega)]
      rfl
    obtain ⟨x, hx, hnext, hengine', hbit'⟩ := hwithin.more hengine hlt
    refine ⟨x, ?_, hnext, hengine', ?_⟩
    · rw [← hx]
      exact hreads.snoc (hwithin.reading hengine) hon
    · rw [hbit', hon, hacken (by omega)]
      congr 2
      rw [decide_eq_decide]
      omega

/-- A read at the end of the list, driven by interrupts. -/
theorem Reading.readOut (h : Reading s j m) (hptr : s.msgPtr = 0)
    (hacken : 1 < (readLen v (ends s.trace) m).toNat → has s.iiccon iicconAcken = true)
    (hlast : j + 1 = s.msgs.length) :
    ∃ t, (∀ fuel, v.interrupts (max 1 (readLen v (ends s.trace) m).toNat + fuel) s =
        v.interrupts fuel t) ∧
      ReadOut v s j m (max 1 (readLen v (ends s.trace) m).toNat) t := by
  obtain ⟨q, hq⟩ : ∃ q, max 1 (readLen v (ends s.trace) m).toNat = q + 1 :=
    ⟨max 1 (readLen v (ends s.trace) m).toNat - 1, by omega⟩
  obtain ⟨x, hreads, hwithin, hengine, -⟩ :=
    h.upto (v := v) (q := q) hptr (fun _ => hacken (by omega)) (by omega)
  have hreading := hwithin.reading hengine
  rw [hq]
  refine ⟨_, fun fuel => ?_, hwithin.last hengine (by omega) (by omega) hlast⟩
  rw [show q + 1 + fuel = q + (fuel + 1) by omega, hreads.interrupts, Slave.interrupts,
    if_pos hreading.inFlight, hreading.irq v]
  rfl

/-- A read at the end of the list, address byte and all, driven by interrupts. -/
theorem Addressed.readOut (h : Addressed v s j m) (hlast : j + 1 = s.msgs.length) :
    ∃ n t, (∀ fuel, v.interrupts (n + fuel) s = v.interrupts fuel t) ∧ Opened t [] ∧
      t.msgs = s.msgs.set j
        (received v (ends s.trace + 1) (readLen v (ends s.trace + 1) m).toNat m) ∧
      ends t.trace = ends s.trace + 1 + (readLen v (ends s.trace + 1) m).toNat ∧
      bus t.trace = bus s.trace ++
        slaveBytes v (ends s.trace + 1) (readLen v (ends s.trace + 1) m).toNat ++ [.stop] := by
  by_cases hlen : m.len.toNat = 0
  · -- nothing is read
    have hzero : (readLen v (ends s.trace + 1) m).toNat = 0 := by
      have hne : (m.len == 1) = false := by
        rw [beq_eq_false_iff_ne]
        intro hone
        rw [hone] at hlen
        cases hlen
      rw [readLen, hne, Bool.and_false, if_neg (by decide), hlen]
    obtain ⟨x, hx, hopened, -, hmsgs, hends, hbus⟩ := h.stop hlen hlast
    rw [hzero, received_zero]
    refine ⟨1, x, fun fuel => ?_, hopened, ?_, hends, ?_⟩
    · rw [Nat.add_comm, h.interrupts, hx]
    · obtain ⟨hlt, hget⟩ := List.getElem?_eq_some_iff.mp h.here.get
      rw [hmsgs, ← hget, List.set_getElem_self]
    · rw [hbus, slaveBytes, List.range_zero, List.map_nil, List.append_nil]
  · obtain ⟨x, hx, hreading, hptr, hmsgs, hbit, hends, hbus⟩ := h.read hlen
    have hpos : 1 ≤ (readLen v (ends s.trace + 1) m).toNat := by
      rw [readLen]
      split
      · next hblock =>
        rw [Bool.and_eq_true, beq_iff_eq] at hblock
        have hbyte := (v.byte (ends s.trace + 1)).isLt
        rw [hblock.2, BitVec.toNat_add, BitVec.toNat_setWidth]
        simp
        omega
      · omega
    -- ACKEN is off only if no byte follows the first one
    have hacken : 1 < (readLen v (ends x.trace) m).toNat → has x.iiccon iicconAcken = true := by
      intro hmany
      rw [hbit, Bool.not_eq_true', decide_eq_false_iff_not]
      intro hone
      rw [readLen, hone.2.1, Bool.false_and, if_neg (by decide)] at hmany
      omega
    obtain ⟨t, hrun, hout⟩ := hreading.readOut hptr hacken (by rw [hmsgs]; exact hlast)
    rw [hends, Nat.max_eq_right hpos] at hrun hout
    have hlength : t.msgs.length = s.msgs.length := by rw [hout.msgs, List.length_set, hmsgs]
    refine ⟨(readLen v (ends s.trace + 1) m).toNat + 1, t, fun fuel => ?_, ?_, ?_, ?_, ?_⟩
    · rw [show (readLen v (ends s.trace + 1) m).toNat + 1 + fuel =
        (readLen v (ends s.trace + 1) m).toNat + fuel + 1 by omega, h.interrupts, hx, hrun]
    · exact .stop hout.state (by rw [hout.idx, hlength, hmsgs]) hout.engine
    · rw [hout.msgs, hmsgs, hends]
    · rw [hout.count, hends]
    · rw [hout.shown, hbus, hends]

/-- Behind a message that was read, the driver reads the first byte of the next one without a
    look at its length. It never clears ACKEN in the messages `msgs`, read from byte `n` on. -/
def KeepsAcken (v : Slave) (n : Nat) : List I2cMsg → Prop
  | [] => True
  | [m] => (readLen v n m).toNat ≤ 1
  | m :: ms => KeepsAcken v (n + max 1 (readLen v n m).toNat) ms

/-- The bytes of the slave are no STOP. -/
theorem stop_not_mem_slaveBytes (v : Slave) (n q : Nat) : .stop ∉ slaveBytes v n q := by
  simp [slaveBytes]

/-- Messages that keep ACKEN are read to the end; the others come to a byte without it. -/
theorem Reading.reads {ms : List I2cMsg} (h : Reading s j m) (hptr : s.msgPtr = 0)
    (hacken : has s.iiccon iicconAcken = true) (hdrop : s.msgs.drop (j + 1) = ms) :
    (KeepsAcken v (ends s.trace) (m :: ms) →
      ∃ n t, Reads v n s t ∧ t.state = .stop ∧ t.msgNum = 0 ∧ t.engine = .idle) ∧
    (¬ KeepsAcken v (ends s.trace) (m :: ms) → .stop ∉ bus s.trace →
      ∃ n t j' m', Reads v n s t ∧ Reading t j' m' ∧ has t.iiccon iicconAcken = false ∧
        .stop ∉ bus t.trace) := by
  induction ms generalizing s j m with
  -- the last message: with one byte it stops, with more it clears `ACKEN` for the last one
  | nil =>
    have hlast : j + 1 = s.msgs.length := by
      have hlt := h.here.lt
      rw [List.drop_eq_nil_iff] at hdrop
      omega
    constructor
    · intro (hkeeps : (readLen v (ends s.trace) m).toNat ≤ 1)
      have hout := (h.within (v := v) hptr).last h.engine (.inl rfl) hkeeps hlast
      rw [received_zero] at hout
      exact ⟨1, _, .step h hacken (.refl _), hout.state, hout.num, hout.engine⟩
    · intro (hkeeps : ¬ (readLen v (ends s.trace) m).toNat ≤ 1) hstop
      obtain ⟨t, hreads, hwithin, hengine, hbit⟩ := h.upto (v := v)
        (q := (readLen v (ends s.trace) m).toNat - 1) hptr (fun _ => hacken) (by omega)
      refine ⟨_, t, j, _, hreads, hwithin.reading hengine, ?_, ?_⟩
      · rw [hbit, decide_eq_true (by omega)]
        simp
      · rw [hwithin.shown, List.mem_append]
        simp [hstop, stop_not_mem_slaveBytes]
  -- not the last: it is read in full under `ACKEN`, and the next one takes over
  | cons m' ms ih =>
    obtain ⟨q, hq⟩ : ∃ q, max 1 (readLen v (ends s.trace) m).toNat = q + 1 :=
      ⟨max 1 (readLen v (ends s.trace) m).toNat - 1, by omega⟩
    obtain ⟨t, hreads, hwithin, hengine, hbit⟩ :=
      h.upto (v := v) (q := q) hptr (fun _ => hacken) (by omega)
    have hlast : ¬ j + 1 = s.msgs.length := by
      intro hlast
      rw [List.drop_eq_nil_of_le (by omega)] at hdrop
      cases hdrop
    have hon : has t.iiccon iicconAcken = true := by
      rw [hbit, hacken, decide_eq_false (by omega)]
      rfl
    obtain ⟨x, hx, hnext, hptr', hbit', hdrop', hends, hbus⟩ :=
      hwithin.full hengine (by omega) (by omega) hdrop
    rw [hon] at hbit'
    have hall : Reads v (q + 1) s x := hx ▸ hreads.snoc (hwithin.reading hengine) hon
    have htail : x.msgs.drop (j + 1 + 1) = ms := by
      have htail := congrArg List.tail hdrop'
      rwa [List.tail_drop] at htail
    obtain ⟨hkept, hcleared⟩ := ih hnext hptr' hbit' htail
    rw [hends, ← hq] at hkept hcleared
    constructor
    · intro hkeeps
      obtain ⟨n, u, hu, hover⟩ := hkept hkeeps
      exact ⟨_, u, hall.trans hu, hover⟩
    · intro hkeeps hstop
      obtain ⟨n, u, j', m'', hu, hreading, hoff⟩ := hcleared hkeeps (by
        rw [hbus, List.mem_append]
        simp [hstop, stop_not_mem_slaveBytes])
      exact ⟨_, u, j', m'', hall.trans hu, hreading, hoff⟩

/-- The messages, the first of them a read, for which ACKEN is never cleared. -/
def KeepsAckenFrom (v : Slave) (n : Nat) : List I2cMsg → Prop
  | [] => True
  | m :: ms =>
    if m.len.toNat = 0 then KeepsAcken v n ms
    else ¬ (m.len.toNat = 1 ∧ m.isRecvLen = false ∧ ms = []) ∧ KeepsAcken v n (m :: ms)

/-- The same with the address byte in front. -/
theorem Addressed.reads {ms : List I2cMsg} (h : Addressed v s j m)
    (hdrop : s.msgs.drop (j + 1) = ms) :
    (KeepsAckenFrom v (ends s.trace + 1) (m :: ms) →
      ∃ n t, Reads v n (beginRead j m (v.ended s)) t ∧ t.state = .stop ∧ t.msgNum = 0 ∧
        t.engine = .idle) ∧
    (¬ KeepsAckenFrom v (ends s.trace + 1) (m :: ms) → .stop ∉ bus s.trace →
      ∃ n t j' m', Reads v n (beginRead j m (v.ended s)) t ∧ Reading t j' m' ∧
        has t.iiccon iicconAcken = false ∧ .stop ∉ bus t.trace) := by
  have hend : j + 1 = s.msgs.length ↔ ms = [] := by
    have hlt := h.here.lt
    rw [← hdrop, List.drop_eq_nil_iff]
    omega
  rw [KeepsAckenFrom]
  -- an empty read stops at once or passes on to the next message
  by_cases hlen : m.len.toNat = 0
  · rw [if_pos hlen]
    cases ms with
    | nil =>
      obtain ⟨x, hx, hopened, hnum, -⟩ := h.stop hlen (hend.mpr rfl)
      rw [hx]
      refine ⟨fun _ => ⟨0, x, .refl x, ?_, hnum, ?_⟩, fun hkeeps => absurd trivial hkeeps⟩
      · cases hopened with
        | stop state => exact state
      · cases hopened with
        | stop state idx engine => exact engine
    | cons m' ms =>
      obtain ⟨x, hx, hreading, hptr, hmsgs, hacken, hends, hbus⟩ := h.skip hlen hdrop
      rw [hx, ← hends, ← hbus]
      apply hreading.reads hptr hacken
      have htail := congrArg List.tail hdrop
      rw [List.tail_drop] at htail
      rw [hmsgs, htail, List.tail_cons]
  · rw [if_neg hlen]
    obtain ⟨x, hx, hreading, hptr, hmsgs, hacken, hends, hbus⟩ := h.read hlen
    rw [hx, ← hends, ← hbus, ← hend]
    -- a single byte at the end is read without `ACKEN`
    by_cases hone : m.len.toNat = 1 ∧ m.isRecvLen = false ∧ j + 1 = s.msgs.length
    · rw [decide_eq_true hone] at hacken
      exact ⟨fun hkeeps => absurd hone hkeeps.1,
        fun _ hstop => ⟨0, x, j, m, .refl x, hreading, hacken, hstop⟩⟩
    · rw [decide_eq_false hone] at hacken
      have hdrop' : x.msgs.drop (j + 1) = ms := by rw [hmsgs, hdrop]
      obtain ⟨hkept, hcleared⟩ := hreading.reads (v := v) hptr hacken hdrop'
      exact ⟨fun hkeeps => hkept hkeeps.2,
        fun hkeeps => hcleared fun hkept => hkeeps ⟨hone, hkept⟩⟩

end S3c24xx
