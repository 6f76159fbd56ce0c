import DriverLearn.Spec.I2cRule
import DriverLearn.Spec.I2cSending

/-!
# Polled transfers that lose a byte

When `is_ack` fails, the polling loop gives up in the middle of a transfer. The outermost
loop leaves the bus without a STOP. A loop behind the START of a later message returns
into `i2c_s3c_irq_nextbyte`, which clears IRQPEND: the controller puts a byte on the bus
that the driver knows nothing of, and from then on more bytes have ended than the driver
has moved, whatever it still does.

## Key results

- `slack_rule`: no step of the state machine makes up for a lost byte
- `Sending.stalls`: a refused byte leaves no STOP, or a lost byte
-/

namespace S3c24xx

open Word

variable {v : Slave} {s t sp : S3c24xxI2c} {m : I2cMsg} {u : Slot} {rest : List Slot}

/-! ### A lost byte -/

/-- The controller of a polled transfer is at work until the STOP. -/
structure Working (s : S3c24xxI2c) : Prop where
  poll : has s.quirks quirkPoll = true
  ended : s.msgNum = 0 → s.msg = none ∧ s.engine = .idle
  live : s.msgNum ≠ 0 → s.engine ≠ .idle

/-- The driver has moved fewer bytes than have ended, `coming` more of which are to come. -/
structure Slack (coming : Nat) (s : S3c24xxI2c) : Prop where
  working : Working s
  lost : moved s.trace + reading s + 1 ≤ ends s.trace + coming

/-- The same between two bytes. -/
def SlackFlying (s : S3c24xxI2c) : Prop := Slack (inFlight s).toNat s

/-- The same when a byte has ended. -/
def SlackEnded (s : S3c24xxI2c) : Prop := inFlight s = false ∧ Slack 0 s

/-- The same before IRQPEND is cleared: a byte that is held gives way to another one. -/
def SlackHeld (s : S3c24xxI2c) : Prop :=
  inFlight s = false ∧ Slack (s.engine == .held).toNat s

theorem Working.of_eq (h : Working s) (hquirks : t.quirks = s.quirks) (hnum : t.msgNum = s.msgNum)
    (hmsg : s.msg = none → t.msg = none) (hidle : t.engine = .idle ↔ s.engine = .idle) :
    Working t where
  poll := by rw [hquirks]; exact h.poll
  ended := by
    rw [hnum, hidle]
    exact fun hover => ⟨hmsg (h.ended hover).1, (h.ended hover).2⟩
  live := by
    rw [hnum]
    exact fun hlive hengine => h.live hlive (hidle.mp hengine)

theorem Working.stopped (h : Working s) (ret : Int) : Working (s3c24xxI2cStop s ret) where
  poll := h.poll
  ended := fun _ => ⟨rfl, rfl⟩
  live := fun hnum => absurd rfl hnum

/-- A state that still has a message is before the STOP. -/
theorem Working.msgNum_ne (h : Working s) (hcur : curMsg s = .ok m) : s.msgNum ≠ 0 := by
  intro hover
  simp only [curMsg, (h.ended hover).1] at hcur
  cases hcur

theorem engine_held (h : Working s) (hheld : inFlight s = false) (hnum : s.msgNum ≠ 0) :
    s.engine = .held := by
  have hidle := h.live hnum
  rw [inFlight] at hheld
  cases hengine : s.engine with
  | idle => exact absurd hengine hidle
  | held => rfl
  | addr => rw [hengine] at hheld; cases hheld
  | byte => rw [hengine] at hheld; cases hheld

theorem reading_of_ne (h : s.state ≠ .read) : reading s = 0 := if_neg h

theorem reading_of_read (h : s.state = .read) : reading s = 1 := if_pos h

/-- Other fields. -/
theorem Slack.of_eq {coming coming' : Nat} (h : Slack coming s) (hworking : Working t)
    (htrace : t.trace = s.trace) (hreading : reading t + coming ≤ reading s + coming') :
    Slack coming' t where
  working := hworking
  lost := by
    have hlost := h.lost
    rw [htrace]
    omega

/-- An event that moves a byte takes one of those to come. -/
theorem Slack.moves {coming coming' : Nat} {ev : Event} (h : Slack coming s) (hworking : Working t)
    (htrace : t.trace = s.trace ++ [ev]) (hmoved : moved [ev] = 1) (hends : ends [ev] = 0)
    (hreading : reading t + 1 + coming ≤ reading s + coming') : Slack coming' t where
  working := hworking
  lost := by
    have hlost := h.lost
    rw [htrace, moved_append, ends_append, hmoved, hends]
    omega

/-- The STOP moves no byte. -/
theorem slackHeld_stop {coming : Nat} (h : Slack coming s) (hcoming : coming ≤ reading s)
    (ret : Int) : SlackHeld (s3c24xxI2cStop s ret) := by
  have hlost := h.lost
  refine ⟨rfl, h.working.stopped ret, ?_⟩
  rw [show (s3c24xxI2cStop s ret).trace = s.trace ++ [.stop] from rfl, moved_append, ends_append,
    reading_of_ne (show (s3c24xxI2cStop s ret).state ≠ .read from nofun),
    show moved [.stop] = 0 from rfl, show ends [.stop] = 0 from rfl]
  omega

theorem held_toNat (h : s.engine = .held) : (s.engine == .held).toNat = 1 := by
  rw [h]
  rfl

/-- No step of the state machine makes up for a lost byte. -/
theorem slack_rule : StepRule SlackFlying SlackEnded SlackHeld where
  idle := fun s h => h.2.of_eq h.2.working rfl (by omega)
  done := by
    intro s h hnum
    have hheld : inFlight s = false := by rw [inFlight, (h.working.ended hnum).2]; rfl
    rw [SlackFlying, hheld] at h
    exact ⟨hheld, h⟩
  unpolled := by
    intro s h hquirk
    rw [h.working.poll] at hquirk
    cases hquirk
  ended := by
    intro s h hstate
    have hworking := h.2.working.of_eq (t := s3c24xxI2cDisableIrq s) rfl rfl id Iff.rfl
    exact ⟨h.1, h.2.of_eq hworking rfl (Nat.add_le_add_left (Nat.zero_le _) _)⟩
  stop := fun s m ret h _ => slackHeld_stop h.2 (Nat.zero_le _) ret
  read := by
    intro s m h hcur hstate
    have hheld := engine_held h.2.working h.1 (h.2.working.msgNum_ne hcur)
    refine ⟨h.1, h.2.of_eq (h.2.working.of_eq rfl rfl id Iff.rfl) rfl ?_⟩
    rw [reading_of_read rfl, held_toNat hheld]
    omega
  write := by
    intro s h hstate
    refine ⟨h.1, h.2.of_eq (h.2.working.of_eq rfl rfl id Iff.rfl) rfl ?_⟩
    rw [reading_of_ne (show State.write ≠ .read by decide)]
    omega
  next := by
    intro s h
    have hworking := h.2.working.of_eq (t := nextMsg s) rfl rfl
      (fun hmsg => by simp [nextMsg, hmsg]) Iff.rfl
    exact ⟨h.1, h.2.of_eq hworking rfl (Nat.le_refl _)⟩
  -- a byte sent uses up the slack of the held engine
  send := by
    intro s m h hcur hstate
    have hheld := engine_held h.2.working h.1 (h.2.working.msgNum_ne hcur)
    have hle : reading s + 1 + 0 ≤ reading s + (s.engine == .held).toNat := by rw [held_toNat hheld]
    exact ⟨h.1, h.2.moves (h.2.working.of_eq rfl rfl id Iff.rfl) rfl rfl rfl hle⟩
  -- a START puts a byte on the bus, which makes up for it
  start := by
    intro s m j h hcur hstate
    have hnum := h.2.working.msgNum_ne hcur
    have hworking : Working (startCondition j m s) :=
      ⟨h.2.working.poll, fun hover => absurd hover hnum, fun _ hidle => by cases hidle⟩
    have hle : reading s + 1 + 0 ≤ reading s + (inFlight (startCondition j m s)).toNat :=
      Nat.le_refl _
    exact h.2.moves hworking rfl rfl rfl hle
  back := by
    intro s h
    refine ⟨h.1, h.2.of_eq (h.2.working.of_eq rfl rfl id Iff.rfl) rfl ?_⟩
    rw [reading_of_ne (show State.start ≠ .read by decide)]
    omega
  -- a byte stored counts like a byte sent
  store := by
    intro s m byte h hcur hstate
    have hheld := engine_held h.2.working h.1 (h.2.working.msgNum_ne hcur)
    have hle : reading s + 1 + 0 ≤ reading s + (s.engine == .held).toNat := by rw [held_toNat hheld]
    exact ⟨h.1, h.2.moves (h.2.working.of_eq rfl rfl id Iff.rfl) rfl rfl rfl hle⟩
  disableAck := fun s h =>
    ⟨h.1, h.2.of_eq (h.2.working.of_eq rfl rfl id Iff.rfl) rfl (Nat.le_refl _)⟩
  nextRead := by
    intro s h hstate
    have hworking := h.2.working.of_eq (t := nextMsg s) rfl rfl
      (fun hmsg => by simp [nextMsg, hmsg]) Iff.rfl
    exact ⟨h.1, h.2.of_eq hworking rfl (Nat.le_refl _)⟩
  stopRead := by
    intro s m ret h hcur hstate
    refine slackHeld_stop h.2 ?_ ret
    rw [reading_of_read hstate]
    exact Bool.toNat_le _
  -- clearing the interrupt lets a held engine go on
  clear := by
    intro s h
    have hworking : Working (clearIrqpend s) := by
      refine h.2.working.of_eq rfl rfl id ?_
      simp only [clearIrqpend]
      split
      · next hheld => simp [hheld]
      · rfl
    have hle : (s.engine == .held).toNat ≤ (inFlight (clearIrqpend s)).toNat := by
      simp only [clearIrqpend, inFlight]
      cases s.engine <;> decide
    exact h.2.of_eq hworking rfl (Nat.add_le_add_left hle _)

/-- The end of a byte brings no byte back. -/
theorem slack_pollRead (v : Slave) (s : S3c24xxI2c) (h : SlackFlying s) :
    SlackEnded (pollRead (v.poll atOnce) s) := by
  rw [pollRead_eq v rfl]
  refine ⟨not_inFlight_ended v s, ?_⟩
  cases hflight : inFlight s with
  | false =>
    rw [SlackFlying, hflight] at h
    rw [ended_of_held v hflight]
    exact h.of_eq (h.working.of_eq rfl rfl id Iff.rfl) rfl (Nat.le_refl _)
  | true =>
    have hidle : ¬ s.engine = .idle := by
      intro hidle
      simp [inFlight, hidle] at hflight
    rw [SlackFlying, hflight, Bool.toNat_true] at h
    rw [ended_eq v hflight]
    refine ⟨h.working.of_eq rfl rfl id ?_, ?_⟩
    · simp [byteEnd, emit, hidle]
    · have hlost := h.lost
      rw [show ({ byteEnd (v.answer s) s with polls := s.polls + 1 } : S3c24xxI2c).trace =
        s.trace ++ [.byteEnd (has (v.answer s).iicstat iicstatLastbit)] from rfl, moved_append,
        ends_append, show moved [.byteEnd (has (v.answer s).iicstat iicstatLastbit)] = 0 from rfl,
        show ends [.byteEnd (has (v.answer s).iicstat iicstatLastbit)] = 1 from rfl]
      exact hlost

/-! ### A refused byte -/

/-- The polling loop has given up before the STOP. -/
structure GivenUp (s : S3c24xxI2c) : Prop where
  working : Working s
  held : inFlight s = false
  live : s.msgNum ≠ 0
  state : s.state ≠ .read
  even : moved s.trace = ends s.trace
  stop : .stop ∉ bus s.trace

/-- A nested loop that gave up: the byte behind it is lost. -/
theorem GivenUp.lost (h : GivenUp s) : SlackFlying (clearIrqpend { s with state := .start }) := by
  have hengine := engine_held h.working h.held h.live
  refine ⟨h.working.of_eq rfl rfl id ?_, ?_⟩
  · simp [clearIrqpend, hengine]
  · rw [show reading (clearIrqpend { s with state := .start }) = 0 from rfl]
    rw [show inFlight (clearIrqpend { s with state := .start }) = true by
      simp [inFlight, clearIrqpend, hengine]]
    exact Nat.succ_le_succ (Nat.le_of_eq h.even)

theorem Sending.working (h : Sending s u rest) (hquirk : has s.quirks quirkPoll = true) :
    Working s := by
  refine ⟨hquirk, fun hnum => absurd hnum h.msgNum_ne, fun _ hidle => ?_⟩
  have hflight := h.inFlight
  rw [S3c24xx.inFlight, hidle] at hflight
  cases hflight

/-- A refused byte ends the loop. -/
theorem Sending.givenUp (h : Sending s u rest) (hquirk : has s.quirks quirkPoll = true)
    (heven : moved s.trace = ends s.trace + 1) (hstop : .stop ∉ bus s.trace) (v : Slave) (n : Nat) :
    GivenUp { v.ended s with polls := n } := by
  have hworking := h.working hquirk
  have hidle := hworking.live h.msgNum_ne
  have hstate : s.state ≠ .read := by
    cases h with
    | start _ state => rcases state with hst | ⟨hst, -⟩ <;> simp [hst]
    | byte _ _ state => simp [state]
    | late _ state => simp [state]
  have hheld := not_inFlight_ended v s
  rw [ended_eq v h.inFlight] at hheld ⊢
  have htrace : ({ byteEnd (v.answer s) s with polls := n } : S3c24xxI2c).trace =
      s.trace ++ [.byteEnd (has (v.answer s).iicstat iicstatLastbit)] := rfl
  refine ⟨hworking.of_eq rfl rfl id ?_, hheld, h.msgNum_ne, hstate, ?_, ?_⟩
  · simp [byteEnd, emit, hidle]
  · rw [htrace, moved_append, ends_append, heven]
    rfl
  · rw [htrace, bus_append]
    simpa [bus, Event.bus] using hstop

/-- The counts when the next slot begins. -/
theorem Began.even (h : Began s t u) (heven : moved s.trace = ends s.trace + 1) :
    moved t.trace = ends t.trace + 1 := by
  have hmoved : moved t.trace = moved s.trace + 1 := by
    rw [moved, moved, h.shown, List.countP_append]
    cases u <;> rfl
  rw [hmoved, heven, h.count]

theorem Began.stop (h : Began s t u) (hstop : .stop ∉ bus s.trace) : .stop ∉ bus t.trace := by
  rw [h.shown, List.mem_append]
  cases u <;> simpa [Slot.shown] using hstop

/-- A polled write side with a byte refused never comes out even: the loop gave up without
    a STOP, or a byte was lost. -/
theorem Sending.stalls (h : Sending s u rest) (hnostart : ∀ w ∈ s.msgs, w.isNostart = false)
    (hquirk : has s.quirks quirkPoll = true) (hacks : ¬ v.Acks (ends s.trace) (u :: rest))
    (heven : moved s.trace = ends s.trace + 1) (hstop : .stop ∉ bus s.trace)
    (hsees : Sees v sp s) {stat : Reg}
    (hstat : acknowledged (v.ended s) = true → has stat iicstatLastbit = false)
    {fuel : Nat} (hrun : pollLoop (v.poll atOnce) fuel stat sp = .ok t) :
    GivenUp t ∨ SlackEnded t := by
  -- induction on the fuel of the loop, as it may poll without end
  induction fuel generalizing s u rest sp stat t with
  | zero => cases hrun
  | succ fuel ih =>
    obtain ⟨k, -, hk⟩ := pollLoop_sees hsees (timely_atOnce sp) h.msgNum_ne fuel stat
    rw [hk] at hrun
    cases hack : acknowledged (v.ended s) with
    -- the byte in flight is refused: the loop gives up
    | false =>
      rw [hack, if_neg (by decide), Except.ok.injEq] at hrun
      exact .inl (hrun ▸ h.givenUp hquirk heven hstop v k)
    | true =>
      have hproceeds : Proceeds (fun s => pollLoop (v.poll atOnce) fuel s.iicstat s) _ _ _ :=
        h.proceeds hnostart (hstat hack) v k
      have hrest : ¬ v.Acks (ends s.trace + 1) rest :=
        fun hrest => hacks ⟨(h.acknowledged_iff v).mp hack, hrest⟩
      rw [hack, if_pos rfl] at hrun
      generalize i2cS3cIrqNextbyte _ _ _ = r at hproceeds hrun
      cases hproceeds with
      | stop => exact absurd trivial hrest
      -- the START of the next message nests the loop; it comes back given up or slack
      | @start x k' m' rest sending ptr did lastbit pending =>
        have hbegan := did.began h.inFlight
        have hquirk' : has x.quirks quirkPoll = true := by rw [hbegan.quirks, hquirk]
        rw [launch_of_poll hquirk'] at hrun
        obtain ⟨z, hmap, hloop'⟩ := Run.bind_eq_ok hrun
        obtain ⟨y, hloop, rfl⟩ := Run.map_eq_ok hmap
        have hnested := ih sending (by rw [hbegan.msgs]; exact hnostart) hquirk'
          (by rw [hbegan.count]; exact hrest) (hbegan.even heven) (hbegan.stop hstop)
          (Sees.refl v x) (fun _ => lastbit) hloop
        have hflying : SlackFlying (clearIrqpend { y with state := .start }) := by
          rcases hnested with hgave | hslack
          · exact hgave.lost
          · exact slack_rule.clear _ (slack_rule.back y hslack)
        have hended := slack_pollRead v _ hflying
        exact .inr (slack_rule.pollLoop (slack_pollRead v) (slack_rule.idle _ hended) hloop')
      -- a data byte comes back to the same loop
      | @byte x j' p' m' rest sending did lastbit pending =>
        have hbegan := did.began h.inFlight
        exact ih sending (by rw [hbegan.msgs]; exact hnostart)
          (by rw [hbegan.quirks]; exact hquirk) (by rw [hbegan.count]; exact hrest)
          (hbegan.even heven) (hbegan.stop hstop) (Sees.pollRead v atOnce x x.polls)
          (lastbit_pollRead v atOnce (lastbit.trans (lastbit_of_acknowledged hack))) hrun

end S3c24xx
