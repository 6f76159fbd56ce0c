import DriverLearn.Spec.I2cStep

/-!
# The invariant rule of the state machine

A polled transfer runs the state machine through itself: the write side starts the next
message, and the polling loop at the end of that START handles all the bytes behind it.
The rule below does the induction once. It asks what the elementary steps of the machine
do to three predicates, and gives what holds behind a call of `i2c_s3c_irq_nextbyte` and
behind a polling loop, for any message list and however often the loop gives up.

## Key results

- `StepRule.nextbyte`: one call of `i2c_s3c_irq_nextbyte`
- `StepRule.pollLoop`: the loop of `s3c24xx_i2c_message_start`
-/

namespace S3c24xx

open Word

/-- `I` is to hold between two bytes, `P` where a byte has ended and nothing is done about it
    yet, and `M` behind what is done, before IRQPEND is cleared. -/
structure StepRule (I P M : S3c24xxI2c → Prop) : Prop where
  idle : ∀ s, P s → I s
  done : ∀ s, I s → s.msgNum = 0 → P s
  unpolled : ∀ s, I s → has s.quirks quirkPoll = false → P s
  ended : ∀ s, P s → s.state = .stop → M (s3c24xxI2cDisableIrq s)
  stop : ∀ s m ret, P s → curMsg s = .ok m → M (s3c24xxI2cStop s ret)
  read : ∀ s m, P s → curMsg s = .ok m → s.state = .start → M { s with state := .read }
  write : ∀ s, P s → s.state = .start → P { s with state := .write }
  next : ∀ s, P s → P (nextMsg s)
  send : ∀ s m, P s → curMsg s = .ok m → s.state = .write →
    M { emit s (.data (s.msg.getD 0) s.msgPtr (m.buf s.msgPtr)) with
      msgPtr := s.msgPtr + 1
      iicds := m.buf s.msgPtr }
  start : ∀ s m j, P s → curMsg s = .ok m → s.state = .write → I (startCondition j m s)
  back : ∀ s, P s → M { s with state := .start }
  store : ∀ s m byte, P s → curMsg s = .ok m → s.state = .read → M (storeByte byte m s)
  disableAck : ∀ s, M s → M (s3c24xxI2cDisableAck s)
  nextRead : ∀ s, M s → s.state = .read → M (nextMsg s)
  stopRead : ∀ s m ret, M s → curMsg s = .ok m → s.state = .read → M (s3c24xxI2cStop s ret)
  clear : ∀ s, M s → I (clearIrqpend s)

variable {I P M : S3c24xxI2c → Prop} {poll : S3c24xxI2c → Except Fault S3c24xxI2c}
variable {s s' : S3c24xxI2c}

/-! ### The state machine -/

/-- The rule for `s3c24xx_i2c_message_start`: what holds while a byte is on the bus holds at the
    START, and the loop behind it keeps to `hpoll`. -/
theorem StepRule.messageStart (rule : StepRule I P M)
    (hpoll : ∀ t t', I t → launch poll t = .ok t' → P t') (h : P s) {m : I2cMsg}
    (hcur : curMsg s = .ok m) (hstate : s.state = .write)
    (hrun : s3c24xxI2cMessageStart poll s = .ok s') : P s' := by
  rw [s3c24xxI2cMessageStart, hcur] at hrun
  exact hpoll _ _ (rule.start s m (s.msg.getD 0) h hcur hstate) hrun

/-- The rule for the loop at `retry_write`, by induction on its turns. -/
theorem StepRule.retryWrite (rule : StepRule I P M)
    (hpoll : ∀ t t', I t → launch poll t = .ok t' → P t') {fuel : Nat} (h : P s)
    (hstate : s.state = .write) (hrun : retryWrite poll fuel s = .ok s') : M s' := by
  induction fuel generalizing s with
  | zero =>
    obtain ⟨m, -, hfault⟩ := Run.bind_eq_ok hrun
    cases hfault
  | succ fuel ih =>
    obtain ⟨m, hcur, hturn⟩ := Run.bind_eq_ok hrun
    split at hturn
    · exact Except.ok.inj hturn ▸ rule.send s m h hcur hstate
    · split at hturn
      · have hnext := rule.next s h
        obtain ⟨m', hcur', hrest⟩ := Run.bind_eq_ok hturn
        split at hrest
        · split at hrest
          · -- the change of direction goes on through NULL
            rw [retryWrite_nullMsg rfl] at hrest
            cases hrest
          · exact ih hnext hstate hrest
        · obtain ⟨t, hstart, hback⟩ := Run.bind_eq_ok hrest
          have ht := rule.messageStart hpoll hnext hcur' hstate hstart
          exact Except.ok.inj hback ▸ rule.back t ht
      · exact Except.ok.inj hturn ▸ rule.stop s m 0 h hcur

/-- The rule for WRITE. -/
theorem StepRule.stateWrite (rule : StepRule I P M)
    (hpoll : ∀ t t', I t → launch poll t = .ok t' → P t') {iicstat : Reg} (h : P s)
    (hstate : s.state = .write) (hrun : stateWrite poll iicstat s = .ok s') : M s' := by
  obtain ⟨m, hcur, hstep⟩ := Run.bind_eq_ok hrun
  split at hstep
  · exact Except.ok.inj hstep ▸ rule.stop s m _ h hcur
  · exact rule.retryWrite hpoll h hstate hstep

/-- The rule for the label `prepare_read`. -/
theorem StepRule.prepareRead (rule : StepRule I P M) (h : M s) (hstate : s.state = .read)
    (hrun : prepareRead s = .ok s') : M s' := by
  obtain ⟨m, hcur, hstep⟩ := Run.bind_eq_ok hrun
  split at hstep
  · split at hstep
    · exact Except.ok.inj hstep ▸ rule.disableAck s h
    · exact Except.ok.inj hstep ▸ h
  · split at hstep
    · split at hstep
      · exact Except.ok.inj hstep ▸ rule.stopRead s m 0 h hcur hstate
      · exact Except.ok.inj hstep ▸ rule.nextRead s h hstate
    · exact Except.ok.inj hstep ▸ h

/-- The rule for READ. -/
theorem StepRule.stateRead (rule : StepRule I P M) (h : P s) (hstate : s.state = .read)
    (hrun : stateRead s = .ok s') : M s' := by
  obtain ⟨m, hcur, hstep⟩ := Run.bind_eq_ok hrun
  exact rule.prepareRead (rule.store s m s.iicds h hcur hstate) hstate hstep

/-- The rule for START. -/
theorem StepRule.stateStart (rule : StepRule I P M)
    (hpoll : ∀ t t', I t → launch poll t = .ok t' → P t') {iicstat : Reg} (h : P s)
    (hstate : s.state = .start) (hrun : stateStart poll iicstat s = .ok s') : M s' := by
  obtain ⟨m, hcur, hstep⟩ := Run.bind_eq_ok hrun
  -- no acknowledge
  split at hstep
  · exact Except.ok.inj hstep ▸ rule.stop s m _ h hcur
  · cases hrd : m.isRd with
    | true =>
      have hread := rule.read s m h hcur hstate
      simp only [hrd, if_true] at hstep
      -- a read of length 0 at the end of the list stops at once
      split at hstep
      · exact Except.ok.inj hstep ▸ rule.stopRead _ m _ hread hcur rfl
      · exact rule.prepareRead hread rfl hstep
    | false =>
      have hwrite := rule.write s h hstate
      simp only [hrd, Bool.false_eq_true, if_false] at hstep
      -- and so does an empty write
      split at hstep
      · exact Except.ok.inj hstep ▸ rule.stop _ m _ hwrite hcur
      · rw [if_neg (by decide)] at hstep
        exact rule.stateWrite hpoll hwrite rfl hstep

/-- One call of `i2c_s3c_irq_nextbyte`, given what the polling loop in it does. -/
theorem StepRule.nextbyte (rule : StepRule I P M)
    (hpoll : ∀ t t', I t → launch poll t = .ok t' → P t') {iicstat : Reg} (h : P s)
    (hrun : i2cS3cIrqNextbyte poll iicstat s = .ok s') : I s' := by
  have hclear : ∀ r : Except Fault S3c24xxI2c, (∀ t, r = .ok t → M t) →
      clearIrqpend <$> r = .ok s' → I s' := by
    intro r hr hmap
    obtain ⟨t, ht, hclear⟩ := Run.map_eq_ok hmap
    exact hclear ▸ rule.clear t (hr t ht)
  unfold i2cS3cIrqNextbyte at hrun
  split at hrun
  · rw [Except.ok.injEq] at hrun
    exact hrun ▸ rule.idle s h
  · next hstate =>
    rw [Except.ok.injEq] at hrun
    exact hrun ▸ rule.clear _ (rule.ended s h hstate)
  · next hstate => exact hclear _ (fun t => rule.stateStart hpoll h hstate) hrun
  · next hstate => exact hclear _ (fun t => rule.stateWrite hpoll h hstate) hrun
  · next hstate => exact hclear _ (fun t => rule.stateRead h hstate) hrun

/-! ### Polling -/

section Polling

variable {env : PollEnv} (rule : StepRule I P M) (hread : ∀ s, I s → P (pollRead env s))
include rule hread

/-- The rule for the tries of `is_ack`: each of them reads registers only. -/
theorem StepRule.isAckTries (tries : Nat) (h : P s) : P (isAckTries env tries s).2 := by
  have hagain : ∀ t, P t → P (pollRead env t) := fun t ht => hread t (rule.idle t ht)
  induction tries generalizing s with
  | zero => exact h
  | succ tries ih =>
    simp only [S3c24xx.isAckTries]
    split
    · split
      · exact hagain _ (hagain s h)
      · exact ih (hagain _ (hagain s h))
    · exact ih (hagain s h)

/-- The rule for `is_ack`. -/
theorem StepRule.isAck (h : I s) : P (isAck env s).2 := by
  have hfirst := hread s h
  have hagain := hread _ (rule.idle _ hfirst)
  rw [show S3c24xx.isAck env s = S3c24xx.isAckTries env (49 + 1) s from rfl]
  generalize 49 = tries
  simp only [S3c24xx.isAckTries]
  split
  · split
    · exact hagain
    · exact rule.isAckTries hread tries hagain
  · exact rule.isAckTries hread tries hfirst

/-- The rule for the polling loop, by induction on its fuel, which bounds the nested loops too. -/
theorem StepRule.pollLoop {fuel : Nat} {stat : Reg} (h : I s)
    (hrun : pollLoop env fuel stat s = .ok s') : P s' := by
  induction fuel generalizing stat s s' with
  | zero => cases hrun
  | succ fuel ih =>
    simp only [S3c24xx.pollLoop] at hrun
    split at hrun
    · have hack := rule.isAck hread h
      cases hres : S3c24xx.isAck env s with
      | mk acked t =>
        rw [hres] at hrun hack
        cases acked with
        | false =>
          rw [Except.ok.injEq] at hrun
          exact hrun ▸ hack
        | true =>
          -- the loops behind the STARTs of later messages
          have hnested : ∀ t t', I t →
              launch (fun s => S3c24xx.pollLoop env fuel s.iicstat s) t = .ok t' → P t' := by
            intro t t' ht hlaunch
            rw [launch] at hlaunch
            split at hlaunch
            · exact ih ht hlaunch
            · next hquirk =>
              rw [Except.ok.injEq] at hlaunch
              exact hlaunch ▸ rule.unpolled t ht (Bool.eq_false_of_not_eq_true hquirk)
          obtain ⟨u, hnext, hrest⟩ := Run.bind_eq_ok hrun
          have hu := rule.nextbyte hnested hack hnext
          exact ih (rule.idle _ (hread u hu)) hrest
    · next hnum =>
      rw [Except.ok.injEq] at hrun
      exact hrun ▸ rule.done s h (not_not.mp hnum)

end Polling

end S3c24xx
