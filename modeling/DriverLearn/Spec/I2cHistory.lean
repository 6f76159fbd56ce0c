import DriverLearn.ForStd.Relate
import DriverLearn.Spec.I2cBusTrace
import DriverLearn.Spec.I2cProbed
import DriverLearn.Spec.I2cXfer

/-!
# Transfers do not remember

A transfer may end in any way: all messages done, a missing acknowledge, a timeout in the
middle of a byte, interrupts that come too late. Whatever it leaves in the driver, the next
one does not see it. In interrupt mode the state machine never looks at IICCON, at what is
counted in `polls` or at the trace, so two controllers that differ there only stay so
(`Alike`), and a START makes two controllers between transfers alike. Every call of
`s3c24xx_i2c_xfer` in the life of an adapter is then the call it would be as the first one.

## Key results

- `irq_alike`: one interrupt
- `doxfer_rested`: one attempt
- `xfer_rested`: one call
- `calls_independent`: all calls behind a successful probe
-/

namespace S3c24xx

open Run Word

variable {q : Reg} {old old' : List Event} {s s' t t' : S3c24xxI2c} {m : I2cMsg} {ms : List I2cMsg}

/-! ### Controllers that differ in what the state machine does not look at -/

/-- The controller without what the state machine does not look at. -/
def bare (s : S3c24xxI2c) : S3c24xxI2c := { s with iiccon := 0, polls := 0, trace := [] }

/-- The controllers are the same but for IICCON, `polls` and what the traces began with. -/
structure Alike (q : Reg) (old old' : List Event) (s s' : S3c24xxI2c) : Prop where
  bare : bare s = bare s'
  quirks : s.quirks = q
  events : ∃ evs, s.trace = old ++ evs ∧ s'.trace = old' ++ evs

/-- What a function reads of a controller is the same on both sides. -/
theorem Alike.eq {α : Type} (h : Alike q old old' s s') {g : S3c24xxI2c → α}
    (hg : ∀ s, g s = g (S3c24xx.bare s)) : g s = g s' := by
  rw [hg s, hg s', h.bare]

/-- The function does not look there either, and leaves the quirks alone. -/
structure Blind (f : S3c24xxI2c → S3c24xxI2c) : Prop where
  bare : ∀ s, bare (f s) = bare (f (bare s))
  events : ∀ s, (f s).trace = s.trace ++ (f (S3c24xx.bare s)).trace
  quirks : ∀ s, (f s).quirks = s.quirks

/-- A blind step leads from alike controllers to alike controllers. -/
theorem Alike.step (h : Alike q old old' s s') {f : S3c24xxI2c → S3c24xxI2c} (hf : Blind f) :
    Alike q old old' (f s) (f s') where
  bare := by rw [hf.bare s, hf.bare s', h.bare]
  quirks := (hf.quirks s).trans h.quirks
  events := by
    obtain ⟨evs, htrace, htrace'⟩ := h.events
    refine ⟨evs ++ (f (S3c24xx.bare s)).trace, ?_, ?_⟩
    · rw [hf.events, htrace, List.append_assoc]
    · rw [hf.events, htrace', List.append_assoc, h.bare]

/-- A function that puts nothing on the trace. -/
theorem blind_of_silent {f : S3c24xxI2c → S3c24xxI2c} (hbare : ∀ s, bare (f s) = bare (f (bare s)))
    (htrace : ∀ s, (f s).trace = s.trace) (hquirks : ∀ s, (f s).quirks = s.quirks) : Blind f where
  bare := hbare
  events s := by
    rw [htrace, htrace]
    exact (List.append_nil _).symm
  quirks := hquirks

/-! ### The elementary steps -/

/-- Clearing IRQPEND is blind. -/
theorem clearIrqpend_blind : Blind clearIrqpend :=
  blind_of_silent (fun _ => rfl) (fun _ => rfl) fun _ => rfl

/-- Clearing ACKEN is blind. -/
theorem disableAck_blind : Blind s3c24xxI2cDisableAck :=
  blind_of_silent (fun _ => rfl) (fun _ => rfl) fun _ => rfl

/-- Clearing IRQEN is blind. -/
theorem disableIrq_blind : Blind s3c24xxI2cDisableIrq :=
  blind_of_silent (fun _ => rfl) (fun _ => rfl) fun _ => rfl

/-- The step to the next message is blind. -/
theorem nextMsg_blind : Blind nextMsg :=
  blind_of_silent (fun _ => rfl) (fun _ => rfl) fun _ => rfl

/-- An assignment to `i2c->state` is blind. -/
theorem setState_blind (state : State) : Blind fun s => { s with state := state } :=
  blind_of_silent (fun _ => rfl) (fun _ => rfl) fun _ => rfl

/-- The STOP is blind: what it adds to the trace does not depend on the trace. -/
theorem stop_blind (ret : Int) : Blind (s3c24xxI2cStop · ret) :=
  ⟨fun _ => rfl, fun _ => rfl, fun _ => rfl⟩

/-- The end of a byte is blind. -/
theorem byteEnd_blind (e : ByteEnd) : Blind (byteEnd e) :=
  ⟨fun _ => rfl, fun _ => rfl, fun _ => rfl⟩

/-- Storing a byte is blind. -/
theorem storeByte_blind (byte : Byte) (m : I2cMsg) : Blind (storeByte byte m) :=
  ⟨fun _ => rfl, fun _ => rfl, fun _ => rfl⟩

/-- The register writes of a START are blind. -/
theorem startCondition_blind (m : I2cMsg) : Blind fun s => startCondition (s.msg.getD 0) m s :=
  ⟨fun _ => rfl, fun _ => rfl, fun _ => rfl⟩

/-- A byte of the current message is written to IICDS. -/
theorem sendByte_blind (m : I2cMsg) : Blind fun s =>
    { emit s (.data (s.msg.getD 0) s.msgPtr (m.buf s.msgPtr)) with
      msgPtr := s.msgPtr + 1
      iicds := m.buf s.msgPtr } :=
  ⟨fun _ => rfl, fun _ => rfl, fun _ => rfl⟩

/-! ### The state machine -/

/-- Alike controllers have the same current message. -/
theorem Alike.curMsg (h : Alike q old old' s s') : curMsg s = curMsg s' := h.eq fun _ => rfl

/-- The START of a message in interrupt mode leads to alike controllers. -/
theorem messageStart_alike (h : Alike q old old' s s') :
    Related (Alike q old old') (s3c24xxI2cMessageStart .ok s) (s3c24xxI2cMessageStart .ok s') := by
  rw [s3c24xxI2cMessageStart, s3c24xxI2cMessageStart, h.curMsg]
  refine Related.refl_bind fun m => ?_
  have hstart := h.step (startCondition_blind m)
  have hok : ∀ s, (if has s.quirks quirkPoll then .ok s else pure s : Except Fault S3c24xxI2c) =
      .ok s := launch_ok
  rw [hok, hok]
  exact .ok hstart

/-- So does the loop at `retry_write`, by induction on its turns. -/
theorem retryWrite_alike (fuel : Nat) (h : Alike q old old' s s') :
    Related (Alike q old old') (retryWrite .ok fuel s) (retryWrite .ok fuel s') := by
  induction fuel generalizing s s' with
  | zero =>
    rw [retryWrite, retryWrite, h.curMsg]
    exact Related.refl_bind fun _ => .error _
  | succ fuel ih =>
    rw [retryWrite, retryWrite, h.curMsg]
    refine Related.refl_bind fun m => ?_
    have hend : isMsgend s m = isMsgend s' m := h.eq (g := (isMsgend · m)) fun _ => rfl
    have hlast : isLastmsg s = isLastmsg s' := h.eq fun _ => rfl
    rw [hend, hlast]
    split
    · exact .ok (h.step (sendByte_blind m))
    · split
      · have hnext := h.step nextMsg_blind
        simp only [hnext.curMsg]
        refine Related.refl_bind fun m' => ?_
        cases m'.isNostart with
        | false =>
          exact (messageStart_alike hnext).bind fun _ _ ht => .ok (ht.step (setState_blind _))
        | true =>
          cases m'.isRd with
          | false => exact ih hnext
          -- the STOP is issued, and the loop is entered again all the same
          | true => exact ih (hnext.step (stop_blind _))
      · exact .ok (h.step (stop_blind 0))

/-- WRITE on alike controllers. -/
theorem stateWrite_alike (iicstat : Reg) (h : Alike q old old' s s') :
    Related (Alike q old old') (stateWrite .ok iicstat s) (stateWrite .ok iicstat s') := by
  rw [stateWrite, stateWrite, h.curMsg]
  refine Related.refl_bind fun m => ?_
  split
  · exact .ok (h.step (stop_blind _))
  · have hfuel : s.msgs.length - s.msg.getD 0 = s'.msgs.length - s'.msg.getD 0 :=
      h.eq (g := fun s => s.msgs.length - s.msg.getD 0) fun _ => rfl
    rw [hfuel]
    exact retryWrite_alike _ h

/-- The label `prepare_read` on alike controllers. -/
theorem prepareRead_alike (h : Alike q old old' s s') :
    Related (Alike q old old') (prepareRead s) (prepareRead s') := by
  rw [prepareRead, prepareRead, h.curMsg]
  refine Related.refl_bind fun m => ?_
  have hmsglast : isMsglast s m = isMsglast s' m := h.eq (g := (isMsglast · m)) fun _ => rfl
  have hend : isMsgend s m = isMsgend s' m := h.eq (g := (isMsgend · m)) fun _ => rfl
  have hlast : isLastmsg s = isLastmsg s' := h.eq fun _ => rfl
  rw [hmsglast, hend, hlast]
  split
  · split
    · exact .ok (h.step disableAck_blind)
    · exact .ok h
  · split
    · split
      · exact .ok (h.step (stop_blind 0))
      · exact .ok (h.step nextMsg_blind)
    · exact .ok h

/-- READ on alike controllers. -/
theorem stateRead_alike (h : Alike q old old' s s') :
    Related (Alike q old old') (stateRead s) (stateRead s') := by
  rw [stateRead, stateRead, h.curMsg]
  refine Related.refl_bind fun m => ?_
  have hbyte : s.iicds = s'.iicds := h.eq fun _ => rfl
  rw [hbyte]
  exact prepareRead_alike (h.step (storeByte_blind _ m))

/-- START on alike controllers. -/
theorem stateStart_alike (iicstat : Reg) (h : Alike q old old' s s') :
    Related (Alike q old old') (stateStart .ok iicstat s) (stateStart .ok iicstat s') := by
  rw [stateStart, stateStart, h.curMsg]
  refine Related.refl_bind fun m => ?_
  split
  · exact .ok (h.step (stop_blind _))
  · cases m.isRd with
    | false =>
      have hnext := h.step (setState_blind .write)
      have hlast := hnext.eq (g := isLastmsg) fun _ => rfl
      simp only [hlast, Bool.false_eq_true, if_false]
      split
      · exact .ok (hnext.step (stop_blind 0))
      · exact stateWrite_alike iicstat hnext
    | true =>
      have hnext := h.step (setState_blind .read)
      have hlast := hnext.eq (g := isLastmsg) fun _ => rfl
      simp only [hlast, if_true]
      split
      · exact .ok (hnext.step (stop_blind 0))
      · exact prepareRead_alike hnext

/-- `i2c_s3c_irq_nextbyte`, state by state. -/
theorem nextbyte_alike (iicstat : Reg) (h : Alike q old old' s s') :
    Related (Alike q old old') (i2cS3cIrqNextbyte .ok iicstat s)
      (i2cS3cIrqNextbyte .ok iicstat s') := by
  have hclear : ∀ u u', Alike q old old' u u' →
      Alike q old old' (clearIrqpend u) (clearIrqpend u') :=
    fun _ _ hu => hu.step clearIrqpend_blind
  have hstate : s.state = s'.state := h.eq fun _ => rfl
  rw [i2cS3cIrqNextbyte, i2cS3cIrqNextbyte, hstate]
  cases s'.state with
  | idle => exact .ok h
  | stop => exact .ok (hclear _ _ (h.step disableIrq_blind))
  | start => exact (stateStart_alike iicstat h).map hclear
  | write => exact (stateWrite_alike iicstat h).map hclear
  | read => exact (stateRead_alike h).map hclear

/-- One interrupt. -/
theorem irq_alike (h : Alike q old old' s s') (e : ByteEnd) :
    Related (Alike q old old') (s3c24xxI2cIrq s e) (s3c24xxI2cIrq s' e) := by
  have hend := h.step (byteEnd_blind e)
  have hstate : (byteEnd e s).state = (byteEnd e s').state := hend.eq fun _ => rfl
  have hstat : (byteEnd e s).iicstat = (byteEnd e s').iicstat := hend.eq fun _ => rfl
  simp only [s3c24xxI2cIrq, hstate, hstat]
  split
  · exact .ok (hend.step clearIrqpend_blind)
  · exact nextbyte_alike _ hend

/-! ### Transfers -/

/-- Two controllers between transfers, which may differ in all that a transfer leaves. -/
structure Rested (q : Reg) (old old' : List Event) (s s' : S3c24xxI2c) : Prop where
  idle : s.state = .idle
  idle' : s'.state = .idle
  quirks : s.quirks = q
  quirks' : s'.quirks = q
  suspended : s.suspended = s'.suspended
  msgs : s.msgs = s'.msgs
  events : ∃ evs, s.trace = old ++ evs ∧ s'.trace = old' ++ evs

/-- The START of a transfer makes the controllers alike. -/
theorem begun_alike (h : Rested q old old' s s') (m : I2cMsg) (ms : List I2cMsg) :
    Alike q old old' (begun m ms s) (begun m ms s') where
  bare := by
    simp only [bare, begun, startCondition, s3c24xxI2cEnableIrq, s3c24xxI2cEnableAck, emit,
      h.quirks, h.quirks', h.suspended]
  quirks := h.quirks
  events := by
    obtain ⟨evs, htrace, htrace'⟩ := h.events
    refine ⟨evs ++ [.start 0 (m.startStat ||| iicstatStart) m.addrByte], ?_, ?_⟩
    · rw [← List.append_assoc, ← htrace]
      rfl
    · rw [← List.append_assoc, ← htrace']
      rfl

/-- Leaving a transfer keeps the quirks. -/
theorem leave_quirks (s : S3c24xxI2c) : (leave s).quirks = s.quirks := by
  simp only [leave]
  split <;> rfl

/-- Leaving a transfer keeps `suspended`. -/
theorem leave_suspended (s : S3c24xxI2c) : (leave s).suspended = s.suspended := by
  simp only [leave]
  split <;> rfl

/-- The way out of a transfer keeps them so. -/
theorem leave_rested (h : Alike q old old' s s') : Rested q old old' (leave s) (leave s') where
  idle := rfl
  idle' := rfl
  quirks := (leave_quirks s).trans h.quirks
  quirks' := by
    rw [leave_quirks, ← h.eq (g := S3c24xxI2c.quirks) fun _ => rfl, h.quirks]
  suspended := by
    rw [leave_suspended, leave_suspended]
    exact h.eq fun _ => rfl
  msgs := by
    rw [leave_msgs, leave_msgs]
    exact h.eq fun _ => rfl
  events := by
    rw [leave_trace, leave_trace]
    exact h.events

/-- An interrupt between transfers. -/
theorem irq_rested (h : Rested q old old' s s') (e : ByteEnd) :
    Related (Rested q old old') (s3c24xxI2cIrq s e) (s3c24xxI2cIrq s' e) := by
  rw [irq_idle h.idle, irq_idle h.idle']
  obtain ⟨evs, htrace, htrace'⟩ := h.events
  refine .ok { h with events := ⟨evs ++ [.byteEnd (has e.iicstat iicstatLastbit)], ?_, ?_⟩ }
  · rw [← List.append_assoc, ← htrace]
    rfl
  · rw [← List.append_assoc, ← htrace']
    rfl

section Doxfer

variable {env : XferEnv} {fuel : Nat} {msgs : List I2cMsg}

/-- A suspended driver returns at once. -/
theorem doxfer_suspended (hflag : s.suspended = true) :
    s3c24xxI2cDoxfer env fuel msgs s = .ok (eIo, s) := by
  rw [s3c24xxI2cDoxfer, if_pos hflag]

/-- One that finds the bus busy returns at once, too. -/
theorem doxfer_busy (hflag : s.suspended = false) (hbus : s3c24xxI2cSetMaster env.busy ≠ 0) :
    s3c24xxI2cDoxfer env fuel msgs s = .ok (eAgain, s) := by
  rw [s3c24xxI2cDoxfer, hflag, if_neg (by decide), if_pos hbus]

/-- Without a message the START reads behind the array. -/
theorem doxfer_nil (hflag : s.suspended = false) (hbus : s3c24xxI2cSetMaster env.busy = 0) :
    s3c24xxI2cDoxfer env fuel [] s = .error .pastMsgs := by
  rw [s3c24xxI2cDoxfer, hflag, if_neg (by decide), if_neg (not_not.mpr hbus)]
  rfl

end Doxfer

/-- The results agree, and both controllers are between transfers again. -/
def Returned (q : Reg) (old old' : List Event) (r r' : Int × S3c24xxI2c) : Prop :=
  r.1 = r'.1 ∧ Rested q old old' r.2 r'.2

/-- `s3c24xx_i2c_doxfer` returns the same from states at rest, whatever their traces. -/
theorem doxfer_rested (hirq : has q quirkPoll = false) (busy : Nat → Reg) (penv : PollEnv)
    (irqs late : List ByteEnd) (fuel : Nat) (msgs : List I2cMsg) (h : Rested q old old' s s') :
    Related (Returned q old old')
      (s3c24xxI2cDoxfer (interrupted busy penv irqs late) fuel msgs s)
      (s3c24xxI2cDoxfer (interrupted busy penv irqs late) fuel msgs s') := by
  cases hflag : s.suspended with
  | true =>
    rw [doxfer_suspended hflag, doxfer_suspended (h.suspended ▸ hflag)]
    exact .ok ⟨rfl, h⟩
  | false =>
    have hflag' : s'.suspended = false := h.suspended ▸ hflag
    by_cases hbus : s3c24xxI2cSetMaster busy = 0
    swap
    · rw [doxfer_busy hflag hbus, doxfer_busy hflag' hbus]
      exact .ok ⟨rfl, h⟩
    cases msgs with
    | nil =>
      rw [doxfer_nil hflag hbus, doxfer_nil hflag' hbus]
      exact .error Fault.pastMsgs
    | cons m ms =>
      rw [doxfer_irq penv irqs late fuel m ms hflag hbus (h.quirks ▸ hirq),
        doxfer_irq penv irqs late fuel m ms hflag' hbus (h.quirks' ▸ hirq)]
      have hirqs := foldlM_related (fun _ _ e ht => irq_alike ht e) (begun_alike h m ms) irqs
      refine hirqs.bind fun t t' ht => ?_
      -- the value returned is read here
      have hidx : t.msgIdx = t'.msgIdx := ht.eq fun _ => rfl
      rw [hidx]
      have hlate := foldlM_related (fun _ _ e hu => irq_alike hu e) ht late
      exact hlate.bind fun u u' hu => .ok ⟨rfl, leave_rested hu⟩

/-- The same for `s3c24xx_i2c_xfer`, whose calls are not compared. -/
def XferReturned (q : Reg) (old old' : List Event) (r r' : Int × S3c24xxI2c × List XferCall) :
    Prop :=
  Returned q old old' (r.1, r.2.1) (r'.1, r'.2.1)

/-- The delay behind an attempt. -/
theorem delay_rested (w : Surroundings) (k : Nat) (h : Rested q old old' s s') :
    Related (Rested q old old') (w.env.delay k s) (w.env.delay k s') :=
  (foldlM_related (fun _ _ e hu => irq_rested hu e) h (w.delay k)).bind
    fun _ _ hu => .ok { hu with suspended := rfl }

/-- The attempts of `s3c24xx_i2c_xfer` from attempt `k` on, by induction on how many are left. -/
theorem xferFrom_rested (hirq : has q quirkPoll = false) (w : Surroundings) (fuel : Nat)
    (retries : Int) (msgs : List I2cMsg) (k : Nat) {s s' : S3c24xxI2c}
    (h : Rested q old old' s s') (log log' : List XferCall) :
    Related (XferReturned q old old') (xferFrom w.env fuel retries msgs k s log)
      (xferFrom w.env fuel retries msgs k s' log') := by
  rw [xferFrom, xferFrom]
  split
  swap
  · exact .ok ⟨rfl, h⟩
  -- the two states differ only in what a transfer sets before it reads it
  have hcall : Related (Returned q old old') (s3c24xxI2cDoxfer (w.env.attempt k) fuel msgs s)
      (s3c24xxI2cDoxfer (w.env.attempt k) fuel msgs s') :=
    doxfer_rested hirq (w.busy k) (w.poll k) (w.irqs k) (w.late k) fuel msgs h
  generalize s3c24xxI2cDoxfer (w.env.attempt k) fuel msgs s = x at hcall ⊢
  generalize s3c24xxI2cDoxfer (w.env.attempt k) fuel msgs s' = x' at hcall ⊢
  cases hcall with
  | error f => exact .error f
  | @ok a a' rel =>
    obtain ⟨ret, t⟩ := a
    obtain ⟨ret', t'⟩ := a'
    obtain ⟨rfl, ht⟩ : ret = ret' ∧ Rested q old old' t t' := rel
    dsimp only
    split
    · exact .ok ⟨rfl, ht⟩
    · have hdelay := delay_rested w k ht
      generalize w.env.delay k t = y at hdelay ⊢
      generalize w.env.delay k t' = y' at hdelay ⊢
      cases hdelay with
      | error f => exact .error f
      | ok hu => exact xferFrom_rested hirq w fuel retries msgs (k + 1) hu _ _
termination_by (retries - k).toNat

/-- `s3c24xx_i2c_xfer` as a whole. -/
theorem xfer_rested (hirq : has q quirkPoll = false) (w : Surroundings) (fuel : Nat)
    (retries : Int) (msgs : List I2cMsg) (h : Rested q old old' s s') :
    Related (XferReturned q old old') (s3c24xxI2cXfer w.env fuel retries msgs s)
      (s3c24xxI2cXfer w.env fuel retries msgs s') := by
  rw [s3c24xxI2cXfer, s3c24xxI2cXfer]
  split
  · exact .ok ⟨rfl, h⟩
  · exact xferFrom_rested hirq w fuel retries msgs 0 h _ _

/-! ### The life of an adapter -/

/-- A call of `s3c24xx_i2c_xfer`: whether the driver is suspended then, what happens around
    it, `adap->retries`, the messages of the caller, and the interrupts behind it up to the
    next call. -/
structure Call where
  suspended : Bool
  around : Surroundings
  retries : Int
  msgs : List I2cMsg
  idle : List ByteEnd

/-- What the caller gets, the return value and the messages with their buffers, and what the
    call puts on the bus. -/
structure Seen where
  ret : Int
  msgs : List I2cMsg
  bus : List Event

/-- The driver in front of a call, with the messages of the call in memory. -/
def Call.entry (c : Call) (s : S3c24xxI2c) : S3c24xxI2c :=
  { s with suspended := c.suspended, msgs := c.msgs }

/-- A call, and what its caller and the bus see of it. -/
def Call.run (fuel : Nat) (c : Call) (s : S3c24xxI2c) : Except Fault (Seen × S3c24xxI2c) := do
  let (ret, t, _) ← s3c24xxI2cXfer c.around.env fuel c.retries c.msgs (c.entry s)
  let t ← c.idle.foldlM s3c24xxI2cIrq t
  return (⟨ret, t.msgs, onBus (t.trace.drop s.trace.length)⟩, t)

/-- What is seen of calls made one after the other. -/
def life (fuel : Nat) : List Call → S3c24xxI2c → Except Fault (List Seen)
  | [], _ => .ok []
  | c :: cs, s => do
    let (seen, s) ← c.run fuel s
    let rest ← life fuel cs s
    return seen :: rest

/-- The controller is between transfers, under the quirks `q`. -/
structure Idle (q : Reg) (s : S3c24xxI2c) : Prop where
  idle : s.state = .idle
  quirks : s.quirks = q

/-- At its start a call finds the two states at rest. -/
theorem Idle.entry (h : Idle q s) (h' : Idle q s') (c : Call) :
    Rested q s.trace s'.trace (c.entry s) (c.entry s') where
  idle := h.idle
  idle' := h'.idle
  quirks := h.quirks
  quirks' := h'.quirks
  suspended := rfl
  msgs := rfl
  events := ⟨[], (List.append_nil _).symm, (List.append_nil _).symm⟩

/-- A call shows the same from any two controllers between transfers. -/
theorem run_related (hirq : has q quirkPoll = false) (h : Idle q s) (h' : Idle q s') (fuel : Nat)
    (c : Call) : Related (fun r r' => r.1 = r'.1 ∧ Idle q r.2) (c.run fuel s) (c.run fuel s') := by
  have hxfer := xfer_rested hirq c.around fuel c.retries c.msgs (h.entry h' c)
  refine hxfer.bind fun r r' hr => ?_
  obtain ⟨hret, hrest⟩ := hr
  have hirqs := foldlM_related (fun _ _ e hu => irq_rested hu e) hrest c.idle
  refine hirqs.bind fun t t' ht => .ok ⟨?_, ht.idle, ht.quirks⟩
  obtain ⟨evs, htrace, htrace'⟩ := ht.events
  dsimp only at hret ⊢
  rw [hret, ht.msgs, htrace, htrace', List.drop_left, List.drop_left]

/-- Every call made after a successful probe, whatever the calls in front of it came to,
    returns, leaves in the buffers and puts on the bus what it would as the first one. -/
theorem life_eq (hirq : has q quirkPoll = false) (fuel : Nat) (calls : List Call)
    (h : Idle q s) :
    life fuel calls s = calls.mapM fun c => Prod.fst <$> c.run fuel (atRest q) := by
  induction calls generalizing s with
  | nil => rfl
  | cons c cs ih =>
    rw [life, List.mapM_cons]
    have hrest : Idle q (atRest q) := ⟨rfl, rfl⟩
    have hrun := run_related hirq h hrest fuel c
    generalize c.run fuel s = x at hrun ⊢
    generalize c.run fuel (atRest q) = x' at hrun ⊢
    cases hrun with
    | error f => rfl
    | @ok a a' rel =>
      obtain ⟨seen, t⟩ := a
      obtain ⟨hseen, ht⟩ := rel
      have hcalls := ih ht
      dsimp only at hcalls
      subst hseen
      simp only [bind, Except.bind, Functor.map, Except.map, hcalls]

/-- A probe that returns 0 leaves the driver between transfers. -/
theorem probe_idle {ofNode : Bool} {platdata : Option S3c2410PlatformI2c} {r : Results}
    {w : World} (hprobe : (s3c24xxI2cProbe ofNode platdata r w).1 = 0) :
    Idle r.quirks (s3c24xxI2cProbe ofNode platdata r w).2.i2c := by
  rcases probe_cases ofNode platdata r w with ⟨-, ret, i2c, hret, heq⟩ | ⟨-, heq⟩
  · rw [heq] at hprobe
    exact absurd hprobe (Int.ne_of_lt hret)
  rw [heq]
  rcases probeController_cases (r := r)
    (w := { w with i2c := { zeroed w.i2c with quirks := r.quirks } }) rfl with
    ⟨-, heq⟩ | ⟨-, -, heq⟩ | ⟨-, -, ret, -, es, -, heq⟩
  all_goals
    rw [heq]
    exact ⟨rfl, rfl⟩

/-- For every probe that returns 0, of a controller in any state, and every sequence of calls
    of `s3c24xx_i2c_xfer` in interrupt mode, each with any messages, surroundings and
    interrupts behind it, each call returns, leaves in the buffers and puts on the bus what it
    would as the first call after a reset: no transfer shows in a later one, however it
    ended. -/
theorem calls_independent (ofNode : Bool) (platdata : Option S3c2410PlatformI2c) (r : Results)
    (w : World) (hprobe : (s3c24xxI2cProbe ofNode platdata r w).1 = 0)
    (hirq : has r.quirks quirkPoll = false) (fuel : Nat) (calls : List Call) :
    life fuel calls (s3c24xxI2cProbe ofNode platdata r w).2.i2c =
      calls.mapM fun c => Prod.fst <$> c.run fuel (atRest r.quirks) :=
  life_eq hirq fuel calls (probe_idle hprobe)

/-- A call that times out behind the address byte. -/
def timedOut : Call where
  suspended := false
  around := { busyOnce with irqs := fun _ => [acked] }
  retries := 2
  msgs := [regNumber]
  idle := [acked]

/-- All calls of the probe succeed. -/
def allServed : Results := { rateFails with clockrate := 0 }

/-- Two calls whose wait times out, with an interrupt behind it. -/
theorem calls_independent_timedOut :
    life 4 [timedOut, timedOut] (s3c24xxI2cProbe true none allServed ⟨atRest 0, []⟩).2.i2c =
      [timedOut, timedOut].mapM fun c => Prod.fst <$> c.run 4 (atRest allServed.quirks) :=
  calls_independent true none allServed ⟨atRest 0, []⟩ (by decide) (by decide) 4
    [timedOut, timedOut]

end S3c24xx
