import DriverLearn.Spec.I2cRule

/-!
# How a transfer leaves the controller

Behind a transfer the controller should neither interrupt nor drive the pins. From the
first START to the STOP both are enabled; the STOP takes the interrupt away, and under
`QUIRK_HDMIPHY` the pins too. What is left is the work of `s3c24xx_i2c_disable_bus`,
which polled transfers and those under `QUIRK_HDMIPHY` skip.

## Key results

- `drive_rule`: what every step of the state machine keeps
- `pollLoop_drive` / `irq_drive`: polling and interrupts
- `quiescent_iff`: the exact condition for every exit
-/

namespace S3c24xx

open Word

/-- The default state described above `s3c24xx_i2c_disable_bus`. -/
structure Quiescent (s : S3c24xxI2c) : Prop where
  idle : s.state = .idle
  irqen : has s.iiccon iicconIrqen = false
  txrxen : has s.iicstat iicstatTxrxen = false

/-- The enable bits during a transfer under the quirks `q`: both are set as long as
    `msg_num` is not 0, and then as the STOP leaves them. -/
structure Drive (q : Reg) (s : S3c24xxI2c) : Prop where
  quirks : s.quirks = q
  live : s.msgNum ≠ 0 → has s.iiccon iicconIrqen = true ∧ has s.iicstat iicstatTxrxen = true
  ended : s.msgNum = 0 → s.msg = none ∧ has s.iiccon iicconIrqen = false ∧
    has s.iicstat iicstatTxrxen = !has q quirkHdmiphy
  stop : s.state = .stop → s.msgNum = 0

variable {q : Reg} {s s' t : S3c24xxI2c} {m : I2cMsg}

/-! ### Steps that leave the enable bits alone -/

/-- Other fields, and other bits of the two registers. -/
theorem Drive.of_eq (h : Drive q s) (hquirks : t.quirks = s.quirks) (hnum : t.msgNum = s.msgNum)
    (hmsg : s.msg = none → t.msg = none)
    (hiiccon : has t.iiccon iicconIrqen = has s.iiccon iicconIrqen)
    (hiicstat : has t.iicstat iicstatTxrxen = has s.iicstat iicstatTxrxen)
    (hstate : t.state = .stop → s.msgNum = 0) : Drive q t where
  quirks := hquirks.trans h.quirks
  live := by rw [hnum, hiiccon, hiicstat]; exact h.live
  ended := by
    rw [hnum, hiiccon, hiicstat]
    exact fun hover => ⟨hmsg (h.ended hover).1, (h.ended hover).2⟩
  stop := by rw [hnum]; exact hstate

/-- A new state other than STOP. -/
theorem Drive.setState (h : Drive q s) {state : State} (hstate : state ≠ .stop) :
    Drive q { s with state := state } :=
  h.of_eq rfl rfl id rfl rfl fun hstop => absurd hstop hstate

/-- Clearing IRQPEND leaves the bits of the invariant. -/
theorem Drive.clearIrqpend (h : Drive q s) : Drive q (clearIrqpend s) :=
  h.of_eq rfl rfl id (has_clear_of_disjoint _ (by decide)) rfl h.stop

/-- Clearing ACKEN leaves the bits of the invariant. -/
theorem Drive.disableAck (h : Drive q s) : Drive q (s3c24xxI2cDisableAck s) :=
  h.of_eq rfl rfl id (has_clear_of_disjoint _ (by decide)) rfl h.stop

/-- The step to the next message leaves the registers alone. -/
theorem Drive.nextMsg (h : Drive q s) : Drive q (nextMsg s) :=
  h.of_eq rfl rfl (fun hmsg => by simp [S3c24xx.nextMsg, hmsg]) rfl rfl h.stop

/-- TXRXEN is a control bit, which the hardware does not change. -/
theorem Drive.byteEnd (h : Drive q s) (e : ByteEnd) : Drive q (byteEnd e s) :=
  h.of_eq rfl rfl id (has_set_of_disjoint _ (by decide))
    (has_merge_kept _ _ (by decide) (by decide)) h.stop

/-- A byte stored leaves the registers alone. -/
theorem Drive.storeByte (h : Drive q s) (byte : Byte) (m : I2cMsg) :
    Drive q (storeByte byte m s) :=
  h.of_eq rfl rfl id rfl rfl h.stop

/-! ### START and STOP -/

/-- A state that still has a message is before the STOP. -/
theorem Drive.msgNum_ne (h : Drive q s) (hcur : curMsg s = .ok m) : s.msgNum ≠ 0 := by
  intro hover
  simp only [curMsg, (h.ended hover).1] at hcur
  cases hcur

/-- Behind the STOP IRQEN may be cleared again. -/
theorem Drive.disableIrq (h : Drive q s) (hover : s.msgNum = 0) :
    Drive q (s3c24xxI2cDisableIrq s) where
  quirks := h.quirks
  live := fun hlive => absurd hover hlive
  ended := fun _ => ⟨(h.ended hover).1, has_clear_self _ _, (h.ended hover).2.2⟩
  stop := h.stop

/-- The STOP clears START and IRQEN, and ends the transfer. -/
theorem Drive.stopped (h : Drive q s) (hlive : s.msgNum ≠ 0) (ret : Int) :
    Drive q (s3c24xxI2cStop s ret) where
  quirks := h.quirks
  live := fun hnum => absurd rfl hnum
  ended := by
    refine fun _ => ⟨rfl, has_clear_self _ _, ?_⟩
    simp only [s3c24xxI2cStop, s3c24xxI2cDisableIrq, s3c24xxI2cMasterComplete, emit, h.quirks]
    split
    · next hphy => rw [has_clear_self, hphy]; rfl
    · next hphy =>
      rw [has_clear_of_disjoint _ (by decide), (h.live hlive).2, Bool.eq_false_iff.mpr hphy]
      rfl
  stop := fun _ => rfl

/-- Every START turns the output on. -/
theorem has_txrxen_startStat (m : I2cMsg) :
    has (m.startStat ||| iicstatStart) iicstatTxrxen = true := by
  rw [has_set_of_disjoint _ (by decide), I2cMsg.startStat, BitVec.or_comm]
  exact has_set_self _ (by decide)

/-- A START in the middle of a transfer. -/
theorem Drive.startCondition (h : Drive q s) (hlive : s.msgNum ≠ 0) (j : Nat) (m : I2cMsg) :
    Drive q (startCondition j m s) where
  quirks := h.quirks
  live := by
    refine fun _ => ⟨?_, has_txrxen_startStat m⟩
    simp only [S3c24xx.startCondition, emit, s3c24xxI2cEnableAck]
    rw [has_set_of_disjoint _ (by decide), (h.live hlive).1]
  ended := fun hover => absurd hover hlive
  stop := h.stop

/-! ### Every step -/

/-- The enable bits stay as they should be through the whole state machine. -/
theorem drive_rule (q : Reg) : StepRule (Drive q) (Drive q) (Drive q) where
  idle := fun _ h => h
  done := fun _ h _ => h
  unpolled := fun _ h _ => h
  ended := fun _ h hstate => h.disableIrq (h.stop hstate)
  stop := fun _ _ ret h hcur => h.stopped (h.msgNum_ne hcur) ret
  read := fun _ _ h _ _ => h.setState (by decide)
  write := fun _ h _ => h.setState (by decide)
  next := fun _ h => h.nextMsg
  send := fun _ _ h _ _ => h.of_eq rfl rfl id rfl rfl h.stop
  start := fun _ m j h hcur _ => h.startCondition (h.msgNum_ne hcur) j m
  back := fun _ h => h.setState (by decide)
  store := fun _ m byte h _ _ => h.storeByte byte m
  disableAck := fun _ h => h.disableAck
  nextRead := fun _ h _ => h.nextMsg
  stopRead := fun _ _ ret h hcur _ => h.stopped (h.msgNum_ne hcur) ret
  clear := fun _ h => h.clearIrqpend

/-- One interrupt keeps the invariant, by the rule for the state machine. -/
theorem irq_drive (s : S3c24xxI2c) (e : ByteEnd) (s' : S3c24xxI2c) (h : Drive q s)
    (hrun : s3c24xxI2cIrq s e = .ok s') : Drive q s' := by
  simp only [s3c24xxI2cIrq] at hrun
  split at hrun
  · rw [Except.ok.injEq] at hrun
    exact hrun ▸ (h.byteEnd e).clearIrqpend
  · refine (drive_rule q).nextbyte (fun t t' ht hok => ?_) (h.byteEnd e) hrun
    rw [launch_ok, Except.ok.injEq] at hok
    exact hok ▸ ht

/-- The end of a byte changes none of its bits. -/
theorem pollRead_drive (env : PollEnv) (s : S3c24xxI2c) (h : Drive q s) :
    Drive q (pollRead env s) := by
  have hcount : Drive q { s with polls := s.polls + 1 } := h.of_eq rfl rfl id rfl rfl h.stop
  rw [pollRead]
  split
  · exact hcount
  · exact hcount.byteEnd _

/-- Neither does the polling loop, nested loops included. -/
theorem pollLoop_drive (env : PollEnv) (fuel : Nat) (stat : Reg) (h : Drive q s)
    (hrun : pollLoop env fuel stat s = .ok s') : Drive q s' :=
  (drive_rule q).pollLoop (pollRead_drive env) h hrun

/-! ### Exits -/

/-- It holds behind the first START. -/
theorem begun_drive (m : I2cMsg) (ms : List I2cMsg) (s : S3c24xxI2c) :
    Drive s.quirks (begun m ms s) where
  quirks := rfl
  live := by
    refine fun _ => ⟨?_, has_txrxen_startStat m⟩
    simp only [begun, startCondition, emit, s3c24xxI2cEnableAck, s3c24xxI2cEnableIrq]
    rw [has_set_of_disjoint _ (by decide)]
    exact has_set_self _ (by decide)
  ended := fun hover => absurd hover (Nat.succ_ne_zero _)
  stop := nofun

section Exit

variable {busy : Nat → Reg} {penv : PollEnv} {irqs late : List ByteEnd} {fuel : Nat}
variable {ms msgs : List I2cMsg} {env : XferEnv}

/-- A polled transfer takes its way out where its loop ends. -/
theorem atExit_poll (hquirk : has s.quirks quirkPoll = true)
    (hexit : atExit env fuel (m :: ms) s = .ok t) :
    pollLoop env.poll fuel (begun m ms s).iicstat (begun m ms s) = .ok t ∧ Drive s.quirks t := by
  rw [atExit, beginXfer_of_poll ms hquirk] at hexit
  obtain ⟨u, hloop, hret⟩ := Run.bind_eq_ok hexit
  have hu := pollLoop_drive env.poll fuel _ (begun_drive m ms s) hloop
  rw [hu.quirks, if_pos hquirk] at hret
  have heq : u = t := Except.ok.inj hret
  exact ⟨heq ▸ hloop, heq ▸ hu⟩

/-- One in interrupt mode takes it behind the late interrupts. -/
theorem atExit_irq (hquirk : has s.quirks quirkPoll = false)
    (hexit : atExit (interrupted busy penv irqs late) fuel (m :: ms) s = .ok t) :
    ∃ u, irqs.foldlM s3c24xxI2cIrq (begun m ms s) = .ok u ∧
      late.foldlM s3c24xxI2cIrq u = .ok t := by
  have hwait : (irqs.foldlM s3c24xxI2cIrq (begun m ms s) >>= fun u =>
      late.foldlM s3c24xxI2cIrq u) = .ok t := by
    rw [atExit, beginXfer_of_irq ms hquirk] at hexit
    simpa only [interrupted, bind, Except.bind, show (begun m ms s).quirks = s.quirks from rfl,
      hquirk, Bool.false_eq_true, if_false] using hexit
  exact Run.bind_eq_ok hwait

/-- The invariant holds where `s3c24xx_i2c_doxfer` comes to its exit, in both modes. -/
theorem atExit_drive (hne : msgs ≠ [])
    (hrun : atExit (interrupted busy penv irqs late) fuel msgs s = .ok t) :
    Drive s.quirks t := by
  obtain ⟨m, ms, rfl⟩ := List.exists_cons_of_ne_nil hne
  cases hpoll : has s.quirks quirkPoll with
  -- polling: the loop keeps the invariant
  | true => exact (atExit_poll hpoll hrun).2
  -- waiting: so does each interrupt, before and behind the timeout
  | false =>
    obtain ⟨u, hwait, hlate⟩ := atExit_irq hpoll hrun
    have hu := Run.foldlM_inv irq_drive (begun_drive m ms s) hwait
    exact Run.foldlM_inv irq_drive hu hlate

end Exit

/-- Without `s3c24xx_i2c_disable_bus` only the STOP has cleared anything. -/
theorem Drive.skip_quiescent_iff (h : Drive q t) :
    Quiescent { t with state := .idle } ↔ has q quirkHdmiphy = true ∧ t.msgNum = 0 := by
  by_cases hnum : t.msgNum = 0
  · obtain ⟨-, hirq, htx⟩ := h.ended hnum
    constructor
    · intro hq
      have hoff := hq.txrxen
      rw [htx] at hoff
      exact ⟨by simpa using hoff, hnum⟩
    · intro hphy
      exact ⟨rfl, hirq, by rw [htx, hphy.1]; rfl⟩
  · obtain ⟨hirq, -⟩ := h.live hnum
    constructor
    · intro hq
      rw [hq.irqen] at hirq
      cases hirq
    · intro hphy
      exact absurd hphy.2 hnum

/-- `s3c24xx_i2c_disable_bus` makes the controller quiet, whatever came before. -/
theorem disableBus_quiescent (t : S3c24xxI2c) :
    Quiescent { s3c24xxI2cDisableBus t with state := .idle } := by
  refine ⟨rfl, ?_, has_clear_self _ _⟩
  simp only [s3c24xxI2cDisableBus, has]
  rw [BitVec.and_assoc, show ~~~(iicconIrqen ||| iicconIrqpend ||| iicconAcken) &&& iicconIrqen
    = 0#32 by decide, BitVec.and_zero]
  rfl

/-- For every quirks value, every list of messages and every run that acquired the bus: the
    exit leaves the controller quiescent iff it goes through `s3c24xx_i2c_disable_bus`, or
    `QUIRK_HDMIPHY` is set and the transfer was ended by the STOP. -/
theorem quiescent_iff (busy : Nat → Reg) (penv : PollEnv) (irqs late : List ByteEnd)
    (fuel : Nat) (msgs : List I2cMsg) (s t : S3c24xxI2c) (hne : msgs ≠ [])
    (hsuspended : s.suspended = false) (hbus : s3c24xxI2cSetMaster busy = 0)
    (hexit : atExit (interrupted busy penv irqs late) fuel msgs s = .ok t) :
    ∃ ret s', s3c24xxI2cDoxfer (interrupted busy penv irqs late) fuel msgs s = .ok (ret, s') ∧
      (Quiescent s' ↔
        has s.quirks quirkPoll = false ∧ has s.quirks quirkHdmiphy = false ∨
        has s.quirks quirkHdmiphy = true ∧ t.msgNum = 0) := by
  have hdrive := atExit_drive hne hexit
  have hskip := hdrive.skip_quiescent_iff
  obtain ⟨m, ms, rfl⟩ := List.exists_cons_of_ne_nil hne
  cases hpoll : has s.quirks quirkPoll with
  -- the polled exit does not come to `s3c24xx_i2c_disable_bus`
  | true =>
    obtain ⟨hloop, -⟩ := atExit_poll hpoll hexit
    have hdoxfer := doxfer_poll fuel (interrupted busy penv irqs late) hsuspended hbus hpoll
      hdrive.quirks hloop
    refine ⟨_, _, hdoxfer, ?_⟩
    rw [hskip]
    simp
  | false =>
    obtain ⟨u, hwait, hlate⟩ := atExit_irq hpoll hexit
    have hdoxfer : s3c24xxI2cDoxfer (interrupted busy penv irqs late) fuel (m :: ms) s
        = .ok (toS32 u.msgIdx, leave t) := by
      rw [doxfer_irq penv irqs late fuel _ _ hsuspended hbus hpoll, hwait]
      simp only [bind, Except.bind, hlate]
      rfl
    refine ⟨_, _, hdoxfer, ?_⟩
    rw [leave, hdrive.quirks]
    -- nor does the other one under `QUIRK_HDMIPHY`; without it the bus is disabled
    cases hphy : has s.quirks quirkHdmiphy with
    | true => simpa [hphy] using hskip
    | false => simpa using disableBus_quiescent t

/-- A controller whose bytes all end acknowledged at the next read. -/
def ackedPolls : PollEnv := fun _ => some ⟨0, 0⟩

/-- A transfer of nothing to a device that does not answer in time. -/
theorem quiescent_iff_timeout :
    ∃ ret s', s3c24xxI2cDoxfer (interrupted (fun _ => 0) ackedPolls [] []) 0
        [⟨0x50, 0, 0, fun _ => 0⟩] (atRest 0) = .ok (ret, s') ∧
      (Quiescent s' ↔
        has 0 quirkPoll = false ∧ has 0 quirkHdmiphy = false ∨
        has 0 quirkHdmiphy = true ∧ (1 : Nat) = 0) :=
  quiescent_iff (fun _ => 0) ackedPolls [] [] 0 [⟨0x50, 0, 0, fun _ => 0⟩] (atRest 0)
    (begun ⟨0x50, 0, 0, fun _ => 0⟩ [] (atRest 0)) (by simp) rfl (by decide) rfl

/-- The exynos5-sata-phy quirks: an empty write is acknowledged and stopped, and TXRXEN
    stays set. -/
theorem quiescent_fails_poll :
    ¬ ∀ (quirks : Reg) (msgs : List I2cMsg) (ret : Int) (s' : S3c24xxI2c), msgs ≠ [] →
      s3c24xxI2cDoxfer (interrupted (fun _ => 0) ackedPolls [] []) 2 msgs (atRest quirks) =
        .ok (ret, s') → Quiescent s' := by
  intro h
  have hrun : ∃ s', s3c24xxI2cDoxfer (interrupted (fun _ => 0) ackedPolls [] []) 2
      [⟨0x50, 0, 0, fun _ => 0⟩] (atRest 0xd) = .ok (1, s') ∧
      has s'.iicstat iicstatTxrxen = true := ⟨_, rfl, rfl⟩
  obtain ⟨s', hok, htx⟩ := hrun
  have hq := (h 0xd _ 1 s' (by simp) hok).txrxen
  rw [hq] at htx
  cases htx

end S3c24xx
