import DriverLearn.Spec.I2cSlave

/-!
# The write side behind a slave

Without `I2C_M_NOSTART` the write side goes through the script of the messages, slot by
slot. It does so in the same way when interrupts drive it and when it polls, but for one
thing: the polling loop behind a later START runs while the state is still WRITE. There
the bytes of a read go through the write side too, which writes the buffer to IICDS.

## Key results

- `acknowledged_ended`: what LASTBIT says of a byte
- `pollLoop_sees`: one turn of the polling loop
- `Sending.proceeds`: one byte of the write side, for interrupts and for polling
-/

namespace S3c24xx

open Word

variable {v : Slave} {ready : Nat → Bool} {s t sp : S3c24xxI2c} {j p : Nat} {m : I2cMsg}
variable {engine : Engine}

/-! ### The end of a byte -/

/-- LASTBIT tells of a byte that was received by ACKEN, of one that was sent by the slave. -/
theorem acknowledged_ended (v : Slave) (hflight : inFlight s = true) :
    acknowledged (v.ended s) =
      if receiving s then has s.iiccon iicconAcken else v.ack (ends s.trace) := by
  have hpend : has (byteEnd (v.answer s) s).iiccon iicconIrqpend = true :=
    has_set_self _ (by decide)
  have hbit : ∀ b : Bool, has (if b then 0#32 else iicstatLastbit) iicstatLastbit = !b := by
    decide
  rw [Slave.ended, if_pos hflight, acknowledged, has_lastbit_byteEnd, hpend, Slave.answer]
  cases receiving s <;> simp [hbit]

/-- The end of a byte on the bus. -/
theorem ended_eq (v : Slave) (hflight : inFlight s = true) :
    v.ended s = byteEnd (v.answer s) s := by
  rw [Slave.ended, if_pos hflight]

/-- Nothing ends while no byte is on the bus. -/
theorem ended_of_held (v : Slave) (hheld : inFlight s = false) : v.ended s = s := by
  rw [Slave.ended, hheld]
  rfl

/-- The end of a byte shows nothing new on the bus. -/
theorem bus_ended (v : Slave) (s : S3c24xxI2c) : bus (v.ended s).trace = bus s.trace := by
  rw [Slave.ended]
  split
  · exact (bus_append _ _).trans (List.append_nil _)
  · rfl

/-- The end of a byte counts as one. -/
theorem ends_ended (v : Slave) (hflight : inFlight s = true) :
    ends (v.ended s).trace = ends s.trace + 1 := by
  rw [ended_eq v hflight]
  exact ends_append _ _

/-- At `sp` the polling functions see the end of the byte of `s`. -/
def Sees (v : Slave) (sp s : S3c24xxI2c) : Prop := ∃ n, v.ended sp = { v.ended s with polls := n }

/-- A state sees itself. -/
theorem Sees.refl (v : Slave) (s : S3c24xxI2c) : Sees v s s := ⟨(v.ended s).polls, rfl⟩

/-- A register read does not hide the end of the byte. -/
theorem Sees.pollRead (v : Slave) (ready : Nat → Bool) (s : S3c24xxI2c) (n : Nat) :
    Sees v (pollRead (v.poll ready) { s with polls := n }) s := by
  refine ⟨n + 1, ?_⟩
  cases hready : ready n with
  | false =>
    rw [pollRead_of_waits (s := { s with polls := n }) hready]
    exact ended_polls v s (n + 1)
  | true =>
    rw [pollRead_eq (s := { s with polls := n }) v hready, ended_polls,
      ended_of_held v (not_inFlight_ended v _), ended_polls]

/-- The end of a byte leaves the number of messages. -/
theorem ended_msgNum (v : Slave) (s : S3c24xxI2c) : (v.ended s).msgNum = s.msgNum := by
  rw [Slave.ended]
  split <;> rfl

/-- The end of a byte leaves the quirks. -/
theorem ended_quirks (v : Slave) (s : S3c24xxI2c) : (v.ended s).quirks = s.quirks := by
  rw [Slave.ended]
  split <;> rfl

/-- The end of a byte leaves the messages. -/
theorem ended_msgs (v : Slave) (s : S3c24xxI2c) : (v.ended s).msgs = s.msgs := by
  rw [Slave.ended]
  split <;> rfl

/-- The number of messages can be read off either state. -/
theorem Sees.msgNum (h : Sees v sp s) : sp.msgNum = s.msgNum := by
  obtain ⟨n, hn⟩ := h
  rw [← ended_msgNum v sp, hn, ← ended_msgNum v s]

/-- A bound on the bytes holds from any later read on. -/
theorem LastsFrom.mono {i j n : Nat} (h : LastsFrom i n ready) (hij : i ≤ j) :
    LastsFrom j n ready := fun k hk => h k (hij.trans hk)

/-- A bound on the bytes can be taken larger. -/
theorem LastsFrom.le {i n n' : Nat} (h : LastsFrom i n ready) (hn : n ≤ n') :
    LastsFrom i n' ready := by
  intro j hj
  obtain ⟨k, hk, hready⟩ := h j hj
  exact ⟨k, hk.trans hn, hready⟩

/-- On the bus without delays every bound holds. -/
theorem lasts_atOnce (i n : Nat) : LastsFrom i n atOnce := fun _ _ => ⟨0, Nat.zero_le n, rfl⟩

/-- No byte outlasts the tries of `is_ack`, and where one may outlast the two reads of the first
    try, IRQPEND is not that of an earlier byte. -/
structure Timely (ready : Nat → Bool) (s : S3c24xxI2c) : Prop where
  lasts : ∃ n < 50, LastsFrom s.polls n ready
  fresh : LastsFrom s.polls 1 ready ∨ Fresh s

/-- Later, with a byte that was begun with IRQPEND clear. -/
theorem Timely.of_fresh (h : Timely ready s) (hpolls : s.polls ≤ t.polls) (hfresh : Fresh t) :
    Timely ready t := by
  obtain ⟨n, hn, hlasts⟩ := h.lasts
  exact ⟨⟨n, hn, hlasts.mono hpolls⟩, .inr hfresh⟩

/-- Where no byte outlasts the first try, IRQPEND does not matter. -/
theorem LastsFrom.timely (h : LastsFrom s.polls 1 ready) : Timely ready s :=
  ⟨⟨1, by decide, h⟩, .inl h⟩

/-- On the bus without delays every byte is in time. -/
theorem timely_atOnce (s : S3c24xxI2c) : Timely atOnce s := (lasts_atOnce s.polls 1).timely

/-- What `is_ack` sees in time. -/
theorem Timely.isAck (h : Timely ready s) (v : Slave) : Saw v s (isAck (v.poll ready) s) := by
  rcases h.fresh with hshort | hfresh
  · exact isAck_eq v (hshort s.polls le_rfl) (by decide) (.inl (by decide))
  · obtain ⟨n, hn, hlasts⟩ := h.lasts
    exact isAck_eq v (hlasts s.polls le_rfl) hn (.inr hfresh)

/-- Every register read is counted. -/
theorem pollRead_polls (env : PollEnv) (s : S3c24xxI2c) :
    (pollRead env s).polls = s.polls + 1 := by
  rw [pollRead]
  split <;> rfl

/-- One turn of the polling loop. -/
theorem pollLoop_sees (h : Sees v sp s) (htimely : Timely ready sp) (hnum : s.msgNum ≠ 0)
    (fuel : Nat) (stat : Reg) :
    ∃ n ≥ sp.polls, pollLoop (v.poll ready) (fuel + 1) stat sp =
      if acknowledged (v.ended s) then do
        let s' ← i2cS3cIrqNextbyte (fun s => pollLoop (v.poll ready) fuel s.iicstat s) stat
          { v.ended s with polls := n }
        pollLoop (v.poll ready) fuel (pollRead (v.poll ready) s').iicstat
          (pollRead (v.poll ready) s')
      else .ok { v.ended s with polls := n } := by
  obtain ⟨n, hle, hn⟩ := htimely.isAck v
  obtain ⟨k, hk⟩ := h
  rw [hk] at hn
  refine ⟨n, hle, ?_⟩
  rw [pollLoop, if_pos (by rw [Sees.msgNum ⟨k, hk⟩]; exact hnum), hn]
  rw [show acknowledged { v.ended s with polls := k } = acknowledged (v.ended s) from rfl]
  cases acknowledged (v.ended s) <;> rfl

/-- LASTBIT is clear behind an acknowledged byte. -/
theorem lastbit_of_acknowledged (h : acknowledged s = true) :
    has s.iicstat iicstatLastbit = false := by
  rw [acknowledged, Bool.and_eq_true, Bool.not_eq_true'] at h
  exact h.2

/-- The next turn of the loop looks at the status of the byte that was acknowledged, or of the
    one before. -/
theorem lastbit_pollRead (v : Slave) (ready : Nat → Bool) {s : S3c24xxI2c}
    (hbit : has s.iicstat iicstatLastbit = false) (h : acknowledged (v.ended s) = true) :
    has (pollRead (v.poll ready) s).iicstat iicstatLastbit = false := by
  cases hready : ready s.polls with
  | false =>
    rw [pollRead_of_waits hready]
    exact hbit
  | true =>
    rw [pollRead_eq v hready]
    exact lastbit_of_acknowledged h

/-- Behind the STOP the loop ends. -/
theorem pollLoop_over (v : Slave) (ready : Nat → Bool) (hnum : sp.msgNum = 0) (fuel : Nat)
    (stat : Reg) :
    pollLoop (v.poll ready) (fuel + 1) stat sp = .ok sp := by
  rw [pollLoop, if_neg (not_not.mpr hnum)]

/-! ### The slots of the write side -/

/-- The controller is set up for message `m`. -/
structure Wired (s : S3c24xxI2c) (m : I2cMsg) (engine : Engine) : Prop where
  engine : s.engine = engine
  mode : has s.iicstat iicstatTransmit = !m.isRd
  acken : has s.iiccon iicconAcken = true

/-- A START sets the controller up for its message. -/
theorem wired_startCondition (k : Nat) (m : I2cMsg) (s : S3c24xxI2c) :
    Wired (startCondition k m s) m .addr where
  engine := rfl
  mode := by
    simp only [startCondition, emit, I2cMsg.startStat]
    cases m.isRd <;> rfl
  acken := has_set_self _ (by decide)

/-- Clearing IRQPEND keeps the mode and ACKEN, and lets a held byte go on. -/
theorem Wired.clearIrqpend (h : Wired s m engine) {engine' : Engine}
    (hengine : (if engine = .held then .byte else engine) = engine') :
    Wired (clearIrqpend s) m engine' where
  engine := by rw [← hengine, ← h.engine]; rfl
  mode := h.mode
  acken := (has_clear_of_disjoint _ (by decide)).trans h.acken

/-- What the write side does to begin a slot: it writes a byte to IICDS also if that byte is
    one to receive. -/
def Slot.sent : Slot → Event
  | .start j m => .start j (m.startStat ||| iicstatStart) m.addrByte
  | .data j m p => .data j p (m.buf p)
  | .recv j m p => .data j p (m.buf p)

/-- What the bus shows of that. -/
def Slot.shown : Slot → BusEvent
  | .start _ m => .start m.addrByte
  | .data _ m p => .byte (m.buf p)
  | .recv _ m p => .byte (m.buf p)

/-- What the bus shows when the slots begin. -/
def begins : List Slot → BusEvent
  | [] => .stop
  | u :: _ => u.shown

/-- Byte `p` of message `j`. -/
def byteSlot (j p : Nat) (m : I2cMsg) : Slot := if m.isRd then .recv j m p else .data j m p

/-- A START is no byte of a message. -/
theorem start_ne_byteSlot (k : Nat) (m' : I2cMsg) (j p : Nat) (m : I2cMsg) :
    Slot.start k m' ≠ byteSlot j p m := by
  rw [byteSlot]
  split <;> exact nofun

/-- The write side has the slot in flight and the others before it. The address byte of a
    later message is in flight in WRITE while the driver polls, and in START otherwise. In `late`
    the first byte of the message was written to IICDS before the address byte has ended, and is
    lost. -/
inductive Sending (s : S3c24xxI2c) : Slot → List Slot → Prop where
  | start {j : Nat} {m : I2cMsg} (here : At s j m)
      (state : s.state = .write ∨ s.state = .start ∧ m.isRd = false) (ptr : s.msgPtr = 0)
      (wired : Wired s m .addr) :
      Sending s (.start j m) (bytesFrom j m 0 ++ script (j + 1) (s.msgs.drop (j + 1)))
  | byte {u : Slot} {j p : Nat} {m : I2cMsg} (slot : u = byteSlot j p m) (here : At s j m)
      (state : s.state = .write) (ptr : s.msgPtr = p + 1) (wired : Wired s m .byte) :
      Sending s u (bytesFrom j m (p + 1) ++ script (j + 1) (s.msgs.drop (j + 1)))
  | late {j : Nat} {m : I2cMsg} (here : At s j m) (state : s.state = .write)
      (ptr : s.msgPtr = 1) (wired : Wired s m .addr) :
      Sending s (.start j m) (bytesFrom j m 1 ++ script (j + 1) (s.msgs.drop (j + 1)))

/-- From `s` on the driver has begun one slot, or stopped. -/
structure Did (s t : S3c24xxI2c) (ev : Event) : Prop where
  trace : t.trace = s.trace ++ [ev]
  msgs : t.msgs = s.msgs
  quirks : t.quirks = s.quirks
  polls : t.polls = s.polls

/-- What a call of `i2c_s3c_irq_nextbyte` gives for the slots `rest` to come: the STOP, the
    START of the next message and what `poll` makes of it, or the next byte. -/
inductive Proceeds (poll : S3c24xxI2c → Except Fault S3c24xxI2c) (s : S3c24xxI2c) :
    Except Fault S3c24xxI2c → List Slot → Prop where
  | stop : Proceeds poll s (.ok (clearIrqpend (finish s))) []
  | start {x : S3c24xxI2c} {k : Nat} {m : I2cMsg} {rest : List Slot}
      (sending : Sending x (.start k m) rest) (ptr : x.msgPtr = 0)
      (did : Did s x (Slot.start k m).sent) (lastbit : has x.iicstat iicstatLastbit = false)
      (pending : has x.iiccon iicconIrqpend = has s.iiccon iicconIrqpend) :
      Proceeds poll s ((fun s => clearIrqpend { s with state := .start }) <$> launch poll x)
        (.start k m :: rest)
  | byte {x : S3c24xxI2c} {j p : Nat} {m : I2cMsg} {rest : List Slot}
      (sending : Sending x (byteSlot j p m) rest) (did : Did s x (byteSlot j p m).sent)
      (lastbit : has x.iicstat iicstatLastbit = has s.iicstat iicstatLastbit)
      (pending : has x.iiccon iicconIrqpend = false) :
      Proceeds poll s (.ok x) (byteSlot j p m :: rest)

/-- The bus shows what the driver does to begin a slot. -/
theorem bus_sent (u : Slot) : u.sent.bus = some u.shown := by
  cases u <;> rfl

/-- A byte of a message is written to IICDS, also if it is one to receive. -/
theorem sent_byteSlot (j p : Nat) (m : I2cMsg) : (byteSlot j p m).sent = .data j p (m.buf p) := by
  rw [byteSlot]
  cases m.isRd <;> rfl

variable {poll : S3c24xxI2c → Except Fault S3c24xxI2c}

/-- The write side at the end of the current message: the STOP behind the last one, else the
    next START. -/
theorem writeStep_next (h : At t j m) (hstate : t.state = .write)
    (hnostart : ∀ w ∈ t.msgs, w.isNostart = false) (hp : ¬ p < m.len.toNat) :
    Proceeds poll t (clearIrqpend <$> writeStep poll t (turn j p m (t.msgs.drop (j + 1))))
      (script (j + 1) (t.msgs.drop (j + 1))) := by
  rw [turn, if_neg hp]
  cases hdrop : t.msgs.drop (j + 1) with
  | nil => exact .stop
  -- the START of the next message is set from WRITE, and the state is START behind it
  | cons m' rest =>
    have hnext := h.seek_next hdrop
    have hns : m'.isNostart = false := by
      refine hnostart m' (List.mem_of_mem_drop (i := j + 1) ?_)
      rw [hdrop]
      exact List.mem_cons_self
    have htail : t.msgs.drop (j + 1 + 1) = rest := by
      have htail := congrArg List.tail hdrop
      rwa [List.tail_drop] at htail
    have hturn : nextTurn (j + 1) (m' :: rest) = .start (j + 1) m' := by simp [nextTurn, hns]
    have hopen : opening (j + 1) m' = [.start (j + 1) m'] := by simp [opening, hns]
    rw [hturn, script, hopen, ← htail]
    have hsending : Sending (startCondition (j + 1) m' (seek (j + 1) t)) (.start (j + 1) m') _ :=
      .start (hnext.of_eq rfl rfl rfl rfl) (.inl hstate) rfl (wired_startCondition _ _ _)
    have hlastbit : has (startCondition (j + 1) m' (seek (j + 1) t)).iicstat iicstatLastbit =
        false := by
      simp only [startCondition, emit, I2cMsg.startStat]
      cases m'.isRd <;> decide
    have hpending : has (startCondition (j + 1) m' (seek (j + 1) t)).iiccon iicconIrqpend =
        has t.iiccon iicconIrqpend := has_set_of_disjoint _ (by decide)
    have hproceeds : Proceeds poll t _ _ :=
      .start hsending rfl ⟨rfl, rfl, rfl, rfl⟩ hlastbit hpending
    have hcomp : clearIrqpend <$> writeStep poll t (.start (j + 1) m') =
        (fun s => clearIrqpend { s with state := .start }) <$>
          launch poll (startCondition (j + 1) m' (seek (j + 1) t)) := by
      rw [writeStep]
      cases launch poll (startCondition (j + 1) m' (seek (j + 1) t)) <;> rfl
    rw [hcomp]
    exact hproceeds

/-- The write side at byte `p` of the current message. -/
theorem writeStep_proceeds (h : At t j m) (hstate : t.state = .write) (hwired : Wired t m .held)
    (hnostart : ∀ w ∈ t.msgs, w.isNostart = false) (p : Nat) :
    Proceeds poll t (clearIrqpend <$> writeStep poll t (turn j p m (t.msgs.drop (j + 1))))
      (bytesFrom j m p ++ script (j + 1) (t.msgs.drop (j + 1))) := by
  by_cases hp : p < m.len.toNat
  · rw [turn, if_pos hp, bytesFrom_cons hp]
    refine .byte (x := clearIrqpend (sendByte j p (m.buf p) t))
      (.byte rfl (h.of_eq h.msg.symm h.idx.symm rfl rfl) hstate rfl ?_) ⟨?_, rfl, rfl, rfl⟩ rfl
      (has_clear_self _ _)
    · have hbyte : (clearIrqpend (sendByte j p (m.buf p) t)).engine = .byte := by
        simp [clearIrqpend, sendByte, hwired.engine]
      have hacken := (has_clear_of_disjoint t.iiccon (m := iicconIrqpend)
        (k := iicconAcken) (by decide)).trans hwired.acken
      exact ⟨hbyte, hwired.mode, hacken⟩
    · rw [sent_byteSlot]
      rfl
  · rw [bytesFrom_nil (by omega), List.nil_append]
    exact writeStep_next h hstate hnostart hp

/-! ### One byte -/

variable {u : Slot} {rest : List Slot}

/-- A byte is on the bus unless the engine holds one. -/
theorem Wired.inFlight (h : Wired s m engine)
    (hengine : engine = .addr ∨ engine = .byte) : inFlight s = true := by
  rw [S3c24xx.inFlight, h.engine]
  rcases hengine with rfl | rfl <;> rfl

/-- The end of a byte changes neither the direction nor ACKEN. -/
theorem Wired.byteEnd (h : Wired s m engine) (hidle : engine ≠ .idle)
    (e : ByteEnd) : Wired (byteEnd e s) m .held where
  engine := if_neg (by rw [h.engine]; exact hidle)
  mode := (has_merge_kept _ _ (by decide) (by decide)).trans h.mode
  acken := (has_set_of_disjoint _ (by decide)).trans h.acken

/-- The slot is on the bus. -/
theorem Sending.inFlight (h : Sending s u rest) : inFlight s = true := by
  cases h with
  | start _ _ _ wired => exact wired.inFlight (.inl rfl)
  | byte _ _ _ _ wired => exact wired.inFlight (.inr rfl)
  | late _ _ _ wired => exact wired.inFlight (.inl rfl)

/-- The slot belongs to the current message. -/
theorem Sending.here (h : Sending s u rest) : ∃ j m, At s j m := by
  cases h with
  | start here => exact ⟨_, _, here⟩
  | byte _ here => exact ⟨_, _, here⟩
  | late here => exact ⟨_, _, here⟩

/-- The transfer is not over. -/
theorem Sending.msgNum_ne (h : Sending s u rest) : s.msgNum ≠ 0 := by
  obtain ⟨j, m, here⟩ := h.here
  have hlt := here.lt
  rw [here.num]
  omega

/-- The state of the machine does not matter for what it has begun. -/
theorem Proceeds.of_state {state : State} {r : Except Fault S3c24xxI2c}
    (h : Proceeds poll { s with state := state } r rest) : Proceeds poll s r rest := by
  cases h with
  | stop => exact .stop
  | start sending ptr did lastbit pending =>
    exact .start sending ptr ⟨did.trace, did.msgs, did.quirks, did.polls⟩ lastbit pending
  | byte sending did lastbit pending =>
    exact .byte sending ⟨did.trace, did.msgs, did.quirks, did.polls⟩ lastbit pending

/-- WRITE at byte `p` of the current message proceeds. -/
theorem nextbyte_write (h : At t j m) (hstate : t.state = .write) (hptr : t.msgPtr = p)
    (hwired : Wired t m .held) (hnostart : ∀ w ∈ t.msgs, w.isNostart = false) {stat : Reg}
    (hnak : nak stat m = false) :
    Proceeds poll t (i2cS3cIrqNextbyte poll stat t)
      (bytesFrom j m p ++ script (j + 1) (t.msgs.drop (j + 1))) := by
  rw [nextbyte_of_write h hstate, hnak, if_neg (by decide), hptr]
  exact writeStep_proceeds h hstate hwired hnostart p

/-- START of a message to be written proceeds with its first byte. -/
theorem nextbyte_start (h : At t j m) (hstate : t.state = .start) (hwr : m.isRd = false)
    (hptr : t.msgPtr = 0) (hwired : Wired t m .held)
    (hnostart : ∀ w ∈ t.msgs, w.isNostart = false) {stat : Reg} (hnak : nak stat m = false) :
    Proceeds poll t (i2cS3cIrqNextbyte poll stat t)
      (bytesFrom j m 0 ++ script (j + 1) (t.msgs.drop (j + 1))) := by
  have hwrite : Proceeds poll { t with state := .write } _ _ :=
    writeStep_proceeds (t := { t with state := .write }) (h.of_eq rfl rfl rfl rfl) rfl
      ⟨hwired.engine, hwired.mode, hwired.acken⟩ hnostart 0
  rw [nextbyte_of_start h hstate (by omega), hnak, if_neg (by decide), hwr, if_neg (by decide),
    show turn j t.msgPtr m = turn j 0 m by rw [hptr]]
  exact hwrite.of_state

/-- What the bus shows of a slot that was begun. -/
theorem Did.bus_eq (h : Did s t u.sent) : bus t.trace = bus s.trace ++ [u.shown] := by
  rw [h.trace, bus_append, show bus [u.sent] = [u.shown] from
    List.filterMap_cons_some (bus_sent u)]

/-- What the driver does ends no byte. -/
theorem Did.ends_eq (h : Did s t u.sent) : ends t.trace = ends s.trace := by
  rw [h.trace, ends_append]
  cases u <;> rfl

/-- What the end of a byte and one event behind it add to the trace. -/
theorem bus_begun {ev : Event} {shown : BusEvent} (hflight : S3c24xx.inFlight s = true)
    (htrace : t.trace = (v.ended s).trace ++ [ev]) (hev : ev.bus = some shown) :
    bus t.trace = bus s.trace ++ [shown] ∧ ends t.trace = ends s.trace + 1 := by
  have hbyte : (v.ended s).trace =
      s.trace ++ [.byteEnd (has (v.answer s).iicstat iicstatLastbit)] := by
    rw [ended_eq v hflight]
    rfl
  have hends : ends [ev] = 0 := by
    cases ev with
    | byteEnd lastbit => cases hev
    | _ => rfl
  have hbus : bus [ev] = [shown] := by rw [bus, List.filterMap_cons_some hev, List.filterMap_nil]
  rw [htrace, hbyte, bus_append, bus_append, ends_append, ends_append, hends, hbus]
  exact ⟨by rw [List.append_assoc]; rfl, rfl⟩

/-- At the end of the byte of `s` the slot `u` began. -/
structure Began (s t : S3c24xxI2c) (u : Slot) : Prop where
  quirks : t.quirks = s.quirks
  msgs : t.msgs = s.msgs
  count : ends t.trace = ends s.trace + 1
  shown : bus t.trace = bus s.trace ++ [u.shown]

/-- The next slot begins where the one on the bus has ended. -/
theorem Did.began {n : Nat} (h : Did { v.ended s with polls := n } t u.sent)
    (hflight : S3c24xx.inFlight s = true) : Began s t u := by
  obtain ⟨hshown, hcount⟩ := bus_begun hflight h.trace (bus_sent u)
  exact ⟨h.quirks.trans (ended_quirks v s), h.msgs.trans (ended_msgs v s), hcount, hshown⟩

/-- A byte of the write side that was acknowledged gives way to the next slot. -/
theorem Sending.proceeds (h : Sending s u rest) (hnostart : ∀ w ∈ s.msgs, w.isNostart = false)
    {stat : Reg} (hstat : has stat iicstatLastbit = false) (v : Slave) (n : Nat) :
    Proceeds poll { v.ended s with polls := n }
      (i2cS3cIrqNextbyte poll stat { v.ended s with polls := n }) rest := by
  have hnak : ∀ m, nak stat m = false := fun m => by rw [nak, hstat]; rfl
  rw [ended_eq v h.inFlight]
  cases h with
  | start here state ptr wired =>
    have hheld := wired.byteEnd (by decide) (v.answer s)
    -- while polling, the address byte of a later message ends in WRITE
    rcases state with hstate | ⟨hstate, hwr⟩
    · exact nextbyte_write (t := { byteEnd (v.answer s) s with polls := n })
        (here.of_eq rfl rfl rfl rfl) hstate ptr ⟨hheld.engine, hheld.mode, hheld.acken⟩ hnostart
        (hnak _)
    · exact nextbyte_start (t := { byteEnd (v.answer s) s with polls := n })
        (here.of_eq rfl rfl rfl rfl) hstate hwr ptr ⟨hheld.engine, hheld.mode, hheld.acken⟩
        hnostart (hnak _)
  | byte _ here state ptr wired =>
    have hheld := wired.byteEnd (by decide) (v.answer s)
    exact nextbyte_write (t := { byteEnd (v.answer s) s with polls := n })
      (here.of_eq rfl rfl rfl rfl) state ptr ⟨hheld.engine, hheld.mode, hheld.acken⟩ hnostart
      (hnak _)
  | late here state ptr wired =>
    have hheld := wired.byteEnd (by decide) (v.answer s)
    exact nextbyte_write (t := { byteEnd (v.answer s) s with polls := n })
      (here.of_eq rfl rfl rfl rfl) state ptr ⟨hheld.engine, hheld.mode, hheld.acken⟩ hnostart
      (hnak _)

/-! ### Acknowledges -/

/-- The slave acknowledges the bytes it is sent, the first of them being byte `n`. -/
def Slave.Acks (v : Slave) (n : Nat) : List Slot → Prop
  | [] => True
  | u :: us => (u.Sends → v.ack n = true) ∧ v.Acks (n + 1) us

/-- The acknowledges for two lists of slots, one behind the other. -/
theorem Slave.acks_append (v : Slave) (n : Nat) (us ws : List Slot) :
    v.Acks n (us ++ ws) ↔ v.Acks n us ∧ v.Acks (n + us.length) ws := by
  induction us generalizing n with
  | nil => simp [Slave.Acks]
  | cons u us ih =>
    rw [List.cons_append, Slave.Acks, Slave.Acks, ih, List.length_cons, and_assoc,
      show n + 1 + us.length = n + (us.length + 1) by omega]

/-- Bytes that are received need no acknowledge of the slave. -/
theorem Slave.acks_recv (v : Slave) (n j : Nat) (m : I2cMsg) (ps : List Nat) :
    v.Acks n (ps.map (.recv j m)) := by
  induction ps generalizing n with
  | nil => trivial
  | cons p ps ih => exact ⟨fun hsends => hsends.elim, ih (n + 1)⟩

/-- Where every slot sends, every byte needs its acknowledge. -/
theorem Slave.acks_iff {us : List Slot} (hus : ∀ u ∈ us, u.Sends) (v : Slave) (n : Nat) :
    v.Acks n us ↔ ∀ i < us.length, v.ack (n + i) = true := by
  induction us generalizing n with
  | nil => simp [Slave.Acks]
  | cons u us ih =>
    rw [Slave.Acks, ih (fun w hw => hus w (List.mem_cons_of_mem u hw)), List.length_cons]
    constructor
    · intro h i hi
      cases i with
      | zero => exact h.1 (hus u List.mem_cons_self)
      | succ i =>
        have hack := h.2 i (by omega)
        rwa [show n + 1 + i = n + (i + 1) by omega] at hack
    · intro h
      refine ⟨fun _ => h 0 (by omega), fun i hi => ?_⟩
      have hack := h (i + 1) (by omega)
      rwa [show n + (i + 1) = n + 1 + i by omega] at hack

/-- A byte of the write side is acknowledged by the slave, or by ACKEN if it is received. -/
theorem Sending.acknowledged_iff (h : Sending s u rest) (v : Slave) :
    acknowledged (v.ended s) = true ↔ (u.Sends → v.ack (ends s.trace) = true) := by
  rw [acknowledged_ended v h.inFlight]
  cases h with
  | start here state ptr wired =>
    have hsent : receiving s = false := by rw [receiving, wired.engine]; rfl
    simp [hsent, Slot.Sends]
  | @byte u j p m slot here state ptr wired =>
    have hdir : receiving s = m.isRd := by simp [receiving, wired.engine, wired.mode]
    rw [hdir, slot, byteSlot]
    cases m.isRd with
    | true => simp [wired.acken, Slot.Sends]
    | false => simp [Slot.Sends]
  | late here state ptr wired =>
    have hsent : receiving s = false := by rw [receiving, wired.engine]; rfl
    simp [hsent, Slot.Sends]

/-! ### Interrupts -/

/-- The slots have begun in a transfer driven by interrupts: with the STOP, with a START
    that the driver waits behind, or with a byte. -/
inductive Opened (s : S3c24xxI2c) : List Slot → Prop where
  | stop (state : s.state = .stop) (idx : toS32 s.msgIdx = s.msgs.length)
      (engine : s.engine = .idle) : Opened s []
  | start {k : Nat} {m : I2cMsg} (here : At s k m) (state : s.state = .start)
      (ptr : s.msgPtr = 0) (wired : Wired s m .addr) :
      Opened s (.start k m :: (bytesFrom k m 0 ++ script (k + 1) (s.msgs.drop (k + 1))))
  | byte {j p : Nat} {m : I2cMsg} {rest : List Slot} (sending : Sending s (byteSlot j p m) rest) :
      Opened s (byteSlot j p m :: rest)

/-- An acknowledged byte of the write side, and its interrupt. -/
theorem Sending.irq (h : Sending s u rest) (hnostart : ∀ w ∈ s.msgs, w.isNostart = false)
    (hack : u.Sends → v.ack (ends s.trace) = true) :
    ∃ t, s3c24xxI2cIrq s (v.answer s) = .ok t ∧ Opened t rest ∧ t.msgs = s.msgs ∧
      bus t.trace = bus s.trace ++ [begins rest] ∧ ends t.trace = ends s.trace + 1 := by
  have hended := ended_eq v h.inFlight
  have hacked : acknowledged (v.ended s) = true := (h.acknowledged_iff v).mpr hack
  have hstat : has (v.ended s).iicstat iicstatLastbit = false := lastbit_of_acknowledged hacked
  -- the interrupt goes to the state machine, as something is in flight
  have hrun : s3c24xxI2cIrq s (v.answer s) =
      i2cS3cIrqNextbyte .ok (v.ended s).iicstat { v.ended s with polls := s.polls } := by
    have hidle : ¬ s.state = .idle := by
      cases h with
      | start _ state => rcases state with hst | ⟨hst, -⟩ <;> simp [hst]
      | byte _ _ state => simp [state]
      | late _ state => simp [state]
    rw [hended]
    exact if_neg hidle
  have hproceeds : Proceeds .ok _ _ _ := h.proceeds hnostart hstat v s.polls
  rw [hended] at hproceeds hrun
  rw [hrun]
  have htrace : ∀ (t : S3c24xxI2c) (ev : Event) (shown : BusEvent),
      t.trace = (byteEnd (v.answer s) s).trace ++ [ev] → ev.bus = some shown →
      bus t.trace = bus s.trace ++ [shown] ∧ ends t.trace = ends s.trace + 1 := by
    intro t ev shown ht hev
    rw [← hended] at ht
    exact bus_begun h.inFlight ht hev
  generalize i2cS3cIrqNextbyte _ _ _ = r at hproceeds
  -- what follows the slot: the STOP, a START or a byte
  cases hproceeds with
  | stop =>
    obtain ⟨j, m, here⟩ := h.here
    have hat : At { byteEnd (v.answer s) s with polls := s.polls } j m :=
      here.of_eq rfl rfl rfl rfl
    exact ⟨_, rfl, .stop rfl (finish_settled hat).1.idx rfl, rfl, htrace _ .stop _ rfl rfl⟩
  | @start x k m rest sending hptr did lastbit pending =>
    rw [launch_ok]
    refine ⟨_, rfl, ?_, did.msgs, htrace _ _ _ did.trace (bus_sent _)⟩
    cases sending with
    | byte slot => exact absurd slot (start_ne_byteSlot _ _ _ _ _)
    | late _ _ ptr =>
      rw [hptr] at ptr
      cases ptr
    | start here _ ptr wired =>
      have hstart : Wired { x with state := .start } m .addr :=
        ⟨wired.engine, wired.mode, wired.acken⟩
      exact .start (here.of_eq rfl rfl rfl rfl) rfl ptr (hstart.clearIrqpend rfl)
  | @byte x j p m rest sending did lastbit pending =>
    exact ⟨x, rfl, .byte sending, did.msgs, htrace x _ _ did.trace (bus_sent _)⟩

/-- A slot that the write side has opened is one that it sends. -/
theorem Opened.sending (h : Opened s (u :: rest)) (hu : u.Writes) : Sending s u rest := by
  cases h with
  | start here state ptr wired => exact .start here (.inr ⟨state, hu⟩) ptr wired
  | byte sending => exact sending

/-- The state behind a START in a transfer driven by interrupts. -/
theorem Opened.of_start {us : List Slot} (h : Opened s us) (hus : us = .start j m :: rest) :
    At s j m ∧ s.state = .start ∧ s.msgPtr = 0 ∧ Wired s m .addr := by
  cases h with
  | stop => cases hus
  | start here state ptr wired =>
    rw [List.cons.injEq, Slot.start.injEq] at hus
    obtain ⟨⟨rfl, rfl⟩, -⟩ := hus
    exact ⟨here, state, ptr, wired⟩
  | byte =>
    rw [List.cons.injEq] at hus
    exact absurd hus.1.symm (start_ne_byteSlot _ _ _ _ _)

/-- A transfer driven by interrupts sends the slots `us` and comes to those behind them. -/
theorem Opened.interrupts {us next : List Slot} (h : Opened s (us ++ next))
    (hnostart : ∀ w ∈ s.msgs, w.isNostart = false) (hus : ∀ w ∈ us, w.Writes)
    (hacks : v.Acks (ends s.trace) us) (pre : List BusEvent)
    (hbus : bus s.trace = pre ++ [begins (us ++ next)]) :
    ∃ t, (∀ fuel, v.interrupts (us.length + fuel) s = v.interrupts fuel t) ∧ Opened t next ∧
      t.msgs = s.msgs ∧ bus t.trace = pre ++ us.map Slot.shown ++ [begins next] ∧
      ends t.trace = ends s.trace + us.length := by
  -- one interrupt for each slot
  induction us generalizing s pre with
  | nil =>
    refine ⟨s, fun fuel => ?_, h, rfl, by simpa using hbus, rfl⟩
    rw [List.length_nil, Nat.zero_add]
  | cons u us ih =>
    have hsending := h.sending (hus u List.mem_cons_self)
    obtain ⟨x, hx, hopened, hmsgs, hxbus, hxends⟩ := hsending.irq hnostart hacks.1
    rw [hbus] at hxbus
    obtain ⟨t, ht, hnext, htmsgs, htbus, htends⟩ := ih hopened (by rw [hmsgs]; exact hnostart)
      (fun w hw => hus w (List.mem_cons_of_mem u hw)) (by rw [hxends]; exact hacks.2) _ hxbus
    refine ⟨t, fun fuel => ?_, hnext, htmsgs.trans hmsgs, ?_, ?_⟩
    · rw [List.length_cons, show us.length + 1 + fuel = us.length + fuel + 1 by omega,
        Slave.interrupts, if_pos hsending.inFlight, hx]
      exact ht fuel
    · rw [htbus, List.map_cons, List.append_assoc, List.append_assoc, List.append_assoc]
      rfl
    · rw [htends, hxends, List.length_cons]
      omega

end S3c24xx
