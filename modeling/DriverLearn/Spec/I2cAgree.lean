import DriverLearn.Spec.I2cAhead

/-!
# Polled transfers against interrupts

The polled transfer should show the same on the bus, fill the same buffers and return the
same value as the one driven by interrupts. `is_ack` lets a byte through only if LASTBIT
is clear, so the two part where a byte is refused: also at the last byte of a read, for
which the driver clears ACKEN itself. And behind the START of a later message the polling
loop runs before the state is START, so that a later read goes through the write side.

A byte may be on the bus at any number of register reads. `is_ack` tries 50 times, but it waits
only where IRQPEND is clear: behind the START of a later message IRQPEND is still that of the
byte before, so an address byte that outlasts the first try is taken for acknowledged.

## Key results

- `agree_iff_reads`: lists that begin with a read
- `written_of_agree` / `agree_of_written`: lists that begin with a write
- `not_agree_of_stale` / `not_agree_of_next` / `not_agree_of_late`: bytes that last too long
- `agree_iff`: the exact condition for every list
-/

namespace S3c24xx

open Word

variable {v : Slave} {ready : Nat → Bool} {busy : Nat → Reg} {s t : S3c24xxI2c} {m : I2cMsg}
variable {ms msgs : List I2cMsg}

/-! ### The two runs -/

/-- The results of the two runs behind the first START. -/
structure Same (tp ti : S3c24xxI2c) : Prop where
  ret : toS32 tp.msgIdx = toS32 ti.msgIdx
  shown : bus tp.trace = bus ti.trace
  count : ends tp.trace = ends ti.trace
  msgs : tp.msgs = ti.msgs

/-- The other path has the quirk. -/
theorem has_poll_polled (s : S3c24xxI2c) : has (polled s).quirks quirkPoll = true :=
  has_set_self _ (by decide)

/-- A transfer in interrupt mode that comes to its first START, with nothing in the trace. -/
structure Begins (busy : Nat → Reg) (msgs : List I2cMsg) (s : S3c24xxI2c) : Prop where
  num : msgs.length < 2147483648
  nostart : ∀ w ∈ msgs, w.isNostart = false
  suspended : s.suspended = false
  bus : s3c24xxI2cSetMaster busy = 0
  quirk : has s.quirks quirkPoll = false
  trace : s.trace = []

/-- On a free bus the two runs decide. -/
theorem agree_iff_runs (hbegins : Begins busy (m :: ms) s) :
    Agree v ready busy (m :: ms) s ↔ ∃ bound, ∀ fuel ≥ bound, ∃ tp ti,
      pollLoop (v.poll ready) fuel (begun m ms (polled s)).iicstat (begun m ms (polled s)) =
        .ok tp ∧
      v.interrupts fuel (begun m ms s) = .ok ti ∧ Same tp ti := by
  -- `s3c24xx_i2c_doxfer` returns what the run of interrupts leaves in `msg_idx`
  have hwait : ∀ fuel ti, v.interrupts fuel (begun m ms s) = .ok ti →
      s3c24xxI2cDoxfer (v.env ready busy fuel) fuel (m :: ms) s =
        .ok (toS32 ti.msgIdx, leave ti) := by
    intro fuel ti hti
    rw [doxfer_wait fuel (v.env ready busy fuel) hbegins.suspended hbegins.bus hbegins.quirk]
    simp only [Slave.env, hti, bind, Except.bind]
    rfl
  -- and, when it polls, what the loop leaves there
  have hpoll : ∀ fuel tp, pollLoop (v.poll ready) fuel (begun m ms (polled s)).iicstat
      (begun m ms (polled s)) = .ok tp →
      s3c24xxI2cDoxfer (v.env ready busy fuel) fuel (m :: ms) (polled s) =
        .ok (toS32 tp.msgIdx, { tp with state := .idle }) := by
    intro fuel tp htp
    have hdrive := pollLoop_drive (v.poll ready) fuel _ (begun_drive m ms (polled s)) htp
    exact doxfer_poll (s := polled s) fuel (v.env ready busy fuel) hbegins.suspended hbegins.bus
      (has_poll_polled s) hdrive.quirks htp
  -- a run that faults has no return value to agree on
  constructor
  · rintro ⟨bound, hagree⟩
    refine ⟨bound, fun fuel hfuel => ?_⟩
    obtain ⟨ret, sp, si, hsp, hsi, hshown, hcount, hmsgs⟩ := hagree fuel hfuel
    obtain ⟨tp, hloop⟩ := pollLoop_of_doxfer (s := polled s) fuel (v.env ready busy fuel)
      hbegins.suspended hbegins.bus
      (has_poll_polled s) hsp
    have hwaited := hsi
    rw [doxfer_wait fuel (v.env ready busy fuel) hbegins.suspended hbegins.bus hbegins.quirk]
      at hwaited
    obtain ⟨ti, hinterrupts, -⟩ := Run.bind_eq_ok hwaited
    rw [hpoll fuel tp hloop, Except.ok.injEq, Prod.mk.injEq] at hsp
    rw [hwait fuel ti hinterrupts, Except.ok.injEq, Prod.mk.injEq] at hsi
    refine ⟨tp, ti, hloop, hinterrupts, ⟨hsp.1.trans hsi.1.symm, ?_, ?_, ?_⟩⟩
    · rw [← hsp.2, ← hsi.2, leave_trace] at hshown
      exact hshown
    · rw [← hsp.2, ← hsi.2, leave_trace] at hcount
      exact hcount
    · rw [← hsp.2, ← hsi.2, leave_msgs] at hmsgs
      exact hmsgs
  · rintro ⟨bound, hruns⟩
    refine ⟨bound, fun fuel hfuel => ?_⟩
    obtain ⟨tp, ti, htp, hti, hsame⟩ := hruns fuel hfuel
    refine ⟨_, _, leave ti, hpoll fuel tp htp, ?_, ?_, ?_, ?_⟩
    · rw [hsame.ret]
      exact hwait fuel ti hti
    · rw [leave_trace]
      exact hsame.shown
    · rw [leave_trace]
      exact hsame.count
    · rw [leave_msgs]
      exact hsame.msgs

/-- What holds behind a transfer that interrupts drove to its end. -/
structure DrivenOut (msgs : List I2cMsg) (t : S3c24xxI2c) : Prop where
  stop : .stop ∈ bus t.trace
  even : moved t.trace = ends t.trace
  starts_le : ∀ (r : Nat) m, msgs[r]? = some m → m.isRd = true → starts t.trace ≤ r + 1

/-- The interrupts end with the STOP, every byte used, and no START behind a read. -/
theorem interrupts_drivenOut (hbegins : Begins busy (m :: ms) s) {fuel : Nat}
    (hrun : v.interrupts fuel (begun m ms s) = .ok t) : DrivenOut (m :: ms) t := by
  have hturns : ¬ TurnsAround (m :: ms) := by
    intro ⟨r, rm, hturn⟩
    have hno := hturn.nostart
    rw [hbegins.nostart rm (List.mem_of_getElem? hturn.get)] at hno
    cases hno
  obtain ⟨hserved, hstate⟩ :=
    interrupts_served hbegins.num hturns (begun_served m ms hbegins.trace) hrun
  obtain ⟨hheld, hstop⟩ := hserved.ended hstate
  have hcount := hserved.count
  rw [hheld, reading_of_ne (by rw [hstate]; decide)] at hcount
  exact ⟨hstop, hcount, hserved.starts_le⟩

/-- The first event is the START of the first message. -/
theorem begun_trace (m : I2cMsg) (ms : List I2cMsg) (htrace : s.trace = []) :
    (begun m ms s).trace = [.start 0 (m.startStat ||| iicstatStart) m.addrByte] := by
  rw [show (begun m ms s).trace = s.trace ++ _ from rfl, htrace]
  rfl

/-- The first message is the current one. -/
theorem begun_at (hnum : (m :: ms).length < 2147483648) (s : S3c24xxI2c) :
    At (begun m ms s) 0 m := ⟨rfl, rfl, rfl, rfl, hnum⟩

/-- The START of the first message clears LASTBIT. -/
theorem begun_lastbit (m : I2cMsg) (ms : List I2cMsg) (s : S3c24xxI2c) :
    has (begun m ms s).iicstat iicstatLastbit = false := by
  simp only [begun, startCondition, emit, I2cMsg.startStat]
  cases m.isRd <;> decide

/-- When nothing is in flight, no interrupt comes. -/
theorem interrupts_held (hheld : inFlight t = false) (fuel : Nat) :
    v.interrupts (fuel + 1) t = .ok t := by
  rw [Slave.interrupts, hheld]
  rfl

/-! ### Writes and a last read -/

/-- The bytes the slave returns from byte `n` on are in the buffer of the read already, and
    the length of a block read is 0. -/
def Echoes (v : Slave) (n : Nat) (r : I2cMsg) : Prop :=
  readLen v n r = r.len ∧ ∀ p < r.len.toNat, v.byte (n + p) = r.buf p

/-- Writes that are all acknowledged, and possibly a last read that brings nothing new. -/
def Written (v : Slave) (msgs : List I2cMsg) : Prop :=
  ∃ ws rd, msgs = ws ++ Option.toList rd ∧ (∀ w ∈ ws, w.isRd = false) ∧
    (∀ r ∈ rd, r.isRd = true ∧ Echoes v (sendsFrom 0 msgs).length r) ∧
    ∀ i < (sendsFrom 0 msgs).length, v.ack i = true

/-- A list in which only the last message is a read. -/
theorem exists_writes_read {msgs : List I2cMsg}
    (h : ∀ (r : Nat) m, msgs[r]? = some m → m.isRd = true → msgs.length ≤ r + 1) :
    ∃ ws rd, msgs = ws ++ Option.toList rd ∧ (∀ w ∈ ws, w.isRd = false) ∧
      ∀ r ∈ rd, r.isRd = true := by
  have hwrites : ∀ (ms : List I2cMsg) x, msgs = ms ++ [x] → ∀ w ∈ ms, w.isRd = false := by
    intro ms x heq w hw
    obtain ⟨i, hi, hget⟩ := List.mem_iff_getElem.mp hw
    by_contra hrd
    have hlast := h i w (by
      rw [heq, List.getElem?_append_left hi, List.getElem?_eq_getElem hi, hget])
      (Bool.eq_true_of_not_eq_false hrd)
    rw [heq, List.length_append, List.length_singleton] at hlast
    omega
  -- only the last message can be a read
  rcases List.eq_nil_or_concat msgs with hnil | ⟨ms, x, heq⟩
  · exact ⟨[], none, hnil, by simp, by simp⟩
  · rw [List.concat_eq_append] at heq
    have hms := hwrites ms x heq
    cases hrd : x.isRd with
    | true => exact ⟨ms, some x, heq, hms, by simpa using hrd⟩
    | false =>
      refine ⟨ms ++ [x], none, by simpa using heq, fun w hw => ?_, by simp⟩
      rcases List.mem_append.mp hw with hw | hw
      · exact hms w hw
      · rw [List.mem_singleton.mp hw, hrd]

/-- The bytes of a message start nothing. -/
theorem starts_bytes (j : Nat) (w : I2cMsg) :
    (((bytesFrom j w 0).map Slot.shown).countP fun
      | .start _ => true
      | _ => false) = 0 := by
  rw [List.countP_eq_zero]
  intro ev hev
  rw [bytesFrom, List.map_map, List.mem_map] at hev
  obtain ⟨p, -, rfl⟩ := hev
  cases w.isRd <;> simp [Slot.shown]

/-- The STARTs of a script: one for each message. -/
theorem starts_script {msgs : List I2cMsg} (hnostart : ∀ w ∈ msgs, w.isNostart = false) (j : Nat) :
    (((script j msgs).map Slot.shown).countP fun
      | .start _ => true
      | _ => false) = msgs.length := by
  induction msgs generalizing j with
  | nil => rfl
  | cons w ws ih =>
    have hopen : opening j w = [.start j w] := by
      rw [opening, if_pos (.inr (hnostart w List.mem_cons_self))]
    rw [script, hopen, List.map_append, List.map_append, List.countP_append, List.countP_append,
      starts_bytes, ih (fun w' hw' => hnostart w' (List.mem_cons_of_mem w hw'))]
    simp only [List.map_cons, List.map_nil, Slot.shown, List.countP_cons, List.countP_nil,
      List.length_cons]
    simp [Nat.add_comm]

/-! ### Lists that begin with a read -/

/-- The polling loop gives up at a byte that is not acknowledged, and shows no STOP. -/
theorem pollLoop_unacked {sp t : S3c24xxI2c} (hsees : Sees v sp t) (htimely : Timely ready sp)
    (hnum : t.msgNum ≠ 0)
    (hunacked : acknowledged (v.ended t) = false) (hstop : .stop ∉ bus t.trace) (fuel : Nat)
    (stat : Reg) :
    ∃ sp', pollLoop (v.poll ready) (fuel + 1) stat sp = .ok sp' ∧ .stop ∉ bus sp'.trace := by
  obtain ⟨n, -, hn⟩ := pollLoop_sees hsees htimely hnum fuel stat
  rw [hunacked, if_neg (by decide)] at hn
  refine ⟨_, hn, ?_⟩
  rw [show ({ v.ended t with polls := n } : S3c24xxI2c).trace = (v.ended t).trace from rfl,
    bus_ended]
  exact hstop

/-- The polling loop goes with the interrupts, byte by byte, until ACKEN is cleared. -/
theorem agree_iff_reads (hbegins : Begins busy (m :: ms) s)
    (htimely : Timely ready (begun m ms (polled s))) (hrd : m.isRd = true) :
    Agree v ready busy (m :: ms) s ↔ v.ack 0 = true ∧ KeepsAckenFrom v 1 (m :: ms) := by
  have hends : ends (begun m ms s).trace = 0 := by rw [begun_trace m ms hbegins.trace]; rfl
  have hstop : .stop ∉ bus (begun m ms s).trace := by
    rw [begun_trace m ms hbegins.trace]
    simp [bus, Event.bus]
  have hphy : has (s.quirks ||| quirkPoll) quirkHdmiphy = has s.quirks quirkHdmiphy :=
    has_set_of_disjoint _ (by decide)
  have haddressed : v.ack 0 = true → Addressed v (begun m ms s) 0 m := fun hack =>
    ⟨begun_at hbegins.num s, rfl, rfl, wired_startCondition _ _ _, hrd, by rw [hends, hack]⟩
  have hdrop : (begun m ms s).msgs.drop (0 + 1) = ms := rfl
  rw [agree_iff_runs hbegins]
  constructor
  · rintro ⟨bound, hruns⟩
    -- without the STOP the polled run does not agree with the other one
    have hneeds : ∀ fuel ≥ bound, ∀ sp, pollLoop (v.poll ready) fuel (begun m ms (polled s)).iicstat
        (begun m ms (polled s)) = .ok sp → .stop ∈ bus sp.trace := by
      intro fuel hfuel sp hsp
      obtain ⟨tp, ti, htp, hti, hsame⟩ := hruns fuel hfuel
      rw [hsp, Except.ok.injEq] at htp
      rw [htp, hsame.shown]
      exact (interrupts_drivenOut hbegins hti).stop
    have hack : v.ack 0 = true := by
      by_contra hnack
      have hflight : inFlight (begun m ms (polled s)) = true := rfl
      have hended := acknowledged_ended v hflight
      rw [show receiving (begun m ms (polled s)) = false from rfl, if_neg (by decide),
        show ends (begun m ms (polled s)).trace = 0 from hends,
        Bool.eq_false_iff.mpr hnack] at hended
      obtain ⟨sp, hsp, hnone⟩ := pollLoop_unacked (Sees.refl v (begun m ms (polled s)))
        htimely (Nat.succ_ne_zero ms.length) hended hstop bound (begun m ms (polled s)).iicstat
      exact hnone (hneeds (bound + 1) (Nat.le_succ bound) sp hsp)
    refine ⟨hack, ?_⟩
    by_contra hkeeps
    obtain ⟨n, t, j, m', hreads, hreading, hoff, hquiet⟩ :=
      ((haddressed hack).reads hdrop).2 (by rw [hends]; exact hkeeps) hstop
    obtain ⟨stat, sp, hloop, hsees, htimely'⟩ := (haddressed hack).pollLoop hphy s.polls htimely
      (begun_lastbit m ms s) hreads (bound + 1)
    have hshadow := hreading.shadow (s.quirks ||| quirkPoll) s.polls
    have hunacked : acknowledged (v.ended (shadow (s.quirks ||| quirkPoll) s.polls t)) = false :=
      (hshadow.acknowledged v).trans hoff
    obtain ⟨tp, htp, hnone⟩ :=
      pollLoop_unacked hsees htimely' hshadow.msgNum_ne hunacked hquiet bound stat
    exact hnone (hneeds (n + (bound + 1) + 1) (by omega) tp (hloop.trans htp))
  · rintro ⟨hack, hkeeps⟩
    obtain ⟨n, t, hreads, hstate, hover, hidle⟩ :=
      ((haddressed hack).reads hdrop).1 (by rw [hends]; exact hkeeps)
    refine ⟨n + 2, fun fuel hfuel => ?_⟩
    obtain ⟨f, rfl⟩ : ∃ f, fuel = n + (f + 1) + 1 := ⟨fuel - n - 2, by omega⟩
    obtain ⟨stat, sp, hloop, hsees, -⟩ := (haddressed hack).pollLoop hphy s.polls htimely
      (begun_lastbit m ms s) hreads (f + 1)
    obtain ⟨k, hk⟩ := hsees.over (show (shadow (s.quirks ||| quirkPoll) s.polls t).engine = .idle
      from hidle)
    have hheld : inFlight t = false := by rw [inFlight, hidle]; rfl
    have hnum' : sp.msgNum = 0 := by rw [hk]; exact hover
    refine ⟨sp, t, hloop.trans (pollLoop_over v ready hnum' f stat), ?_, ?_⟩
    · rw [(haddressed hack).interrupts, hreads.interrupts, interrupts_held hheld]
    · rw [hk]
      exact ⟨rfl, rfl, rfl, rfl⟩

/-! ### Lists that begin with a write -/

theorem script_eq (m : I2cMsg) (ms : List I2cMsg) :
    script 0 (m :: ms) = .start 0 m :: (bytesFrom 0 m 0 ++ script 1 ms) := by
  rw [script, opening, if_pos (.inl rfl)]
  rfl

/-- On the bus is one address, and no byte has ended. -/
theorem bus_begun_nil (m : I2cMsg) (ms : List I2cMsg) (htrace : s.trace = []) :
    bus (begun m ms s).trace = [.start m.addrByte] ∧ ends (begun m ms s).trace = 0 := by
  rw [begun_trace m ms htrace]
  exact ⟨rfl, rfl⟩

/-- The address byte of a write is under way. -/
theorem begun_sending (hnum : (m :: ms).length < 2147483648) (s : S3c24xxI2c)
    (hwr : m.isRd = false) :
    Sending (begun m ms s) (.start 0 m) (bytesFrom 0 m 0 ++ script 1 ms) :=
  .start (begun_at hnum s) (.inr ⟨rfl, hwr⟩) rfl (wired_startCondition _ _ _)

/-- The polled run comes to its end if every byte sent is acknowledged. -/
theorem polled_written (hbegins : Begins busy (m :: ms) s)
    (hwr : m.isRd = false) (hacks : v.Acks 0 (script 0 (m :: ms)))
    (htimely : Timely ready (begun m ms (polled s)))
    (hintime : InTime ready s.polls (bytesFrom 0 m 0 ++ script 1 ms))
    {fuel : Nat} (hfuel : (script 0 (m :: ms)).length + 1 ≤ fuel) :
    ∃ t, pollLoop (v.poll ready) fuel (begun m ms (polled s)).iicstat (begun m ms (polled s)) =
      .ok t ∧
      toS32 t.msgIdx = (m :: ms).length ∧ t.msgs = m :: ms ∧
      bus t.trace = (script 0 (m :: ms)).map Slot.shown ++ [.stop] ∧
      ends t.trace = (script 0 (m :: ms)).length := by
  obtain ⟨hbegun, hends⟩ := bus_begun_nil (s := polled s) m ms hbegins.trace
  rw [script_eq, List.length_cons] at hfuel
  rw [script_eq] at hacks
  have hsending := begun_sending hbegins.num (polled s) hwr
  obtain ⟨t, hloop, hcomplete⟩ := hsending.complete (v := v) hbegins.nostart
    (has_poll_polled s) (by rw [hends]; exact hacks) (Sees.refl v _) htimely
    hintime (fun _ => begun_lastbit m ms (polled s)) hfuel
  refine ⟨t, hloop, hcomplete.idx, hcomplete.msgs, ?_, ?_⟩
  · rw [hcomplete.shown, hbegun, script_eq]
    rfl
  · rw [hcomplete.count, hends, script_eq, List.length_cons, Nat.zero_add]

/-- The bytes that a last read brings, byte `n` being the first one. -/
def brought (v : Slave) (n : Nat) (r : I2cMsg) : Nat := (readLen v n r).toNat

/-- The run driven by interrupts comes to its end. -/
theorem interrupts_written {ws : List I2cMsg} {rd : Option I2cMsg}
    (hbegins : Begins busy (m :: ms) s) (hmsgs : m :: ms = ws ++ rd.toList)
    (hws : ∀ w ∈ ws, w.isRd = false) (hrd : ∀ r ∈ rd, r.isRd = true)
    (hacks : v.Acks 0 (script 0 (m :: ms))) {n : Nat} (hn : n = (script 0 ws).length + 1) :
    ∃ k t, (∀ fuel, v.interrupts (k + fuel) (begun m ms s) = v.interrupts fuel t) ∧ Opened t [] ∧
      t.msgs = ws ++ (rd.map fun r => received v n (brought v n r) r).toList ∧
      bus t.trace = (script 0 ws).map Slot.shown ++
        (rd.elim [] fun r => .start r.addrByte :: slaveBytes v n (brought v n r)) ++ [.stop] ∧
      ends t.trace = (script 0 ws).length + rd.elim 0 fun r => brought v n r + 1 := by
  obtain ⟨hbegun, hends⟩ := bus_begun_nil (s := s) m ms hbegins.trace
  have hopened : Opened (begun m ms s) (script 0 (m :: ms)) := by
    rw [script_eq]
    exact .start (begun_at hbegins.num s) rfl rfl (wired_startCondition _ _ _)
  have hscript : script 0 (m :: ms) = script 0 ws ++ script ws.length rd.toList := by
    rw [hmsgs, script_append, Nat.zero_add]
  rw [hscript] at hopened hacks
  -- the writes are all acknowledged, and so is the address of the read behind them
  obtain ⟨hsent, hlast⟩ := (v.acks_append 0 _ _).mp hacks
  obtain ⟨t, hrun, hnext, htmsgs, hshown, hcount⟩ := hopened.interrupts (v := v) hbegins.nostart
    (script_writes hws 0) (by rw [hends]; exact hsent) []
    (by rw [hbegun, ← hscript, script_eq]; rfl)
  rw [hends, Nat.zero_add] at hcount
  rw [List.nil_append] at hshown
  have hlist : t.msgs = ws ++ rd.toList := htmsgs.trans hmsgs
  -- without a read the writes are the whole transfer
  cases rd with
  | none =>
    refine ⟨_, t, hrun, hnext, hlist, ?_, ?_⟩
    · rw [hshown]
      simp [begins, script]
    · rw [hcount]
      simp
  | some r =>
    have hopen : script ws.length (some r).toList =
        .start ws.length r :: (bytesFrom ws.length r 0 ++ []) := by
      have hr := hbegins.nostart r (by rw [hmsgs]; simp)
      rw [Option.toList_some, script, opening, if_pos (.inr hr)]
      rfl
    rw [hopen] at hlast hnext hshown
    obtain ⟨hat, hstate, hptr, hwired⟩ := hnext.of_start rfl
    have haddressed : Addressed v t ws.length r := by
      refine ⟨hat, hstate, hptr, hwired, hrd r rfl, ?_⟩
      rw [hcount]
      have hack := hlast.1 trivial
      rwa [Nat.zero_add] at hack
    -- the read is last in the list, so it ends with the STOP
    obtain ⟨k, u, hread, hstop, humsgs, hucount, hushown⟩ := haddressed.readOut (by
      rw [hlist, List.length_append]
      rfl)
    rw [hcount, ← hn] at humsgs hucount hushown
    refine ⟨(script 0 ws).length + k, u, fun fuel => ?_, hstop, ?_, ?_, ?_⟩
    · rw [Nat.add_assoc, hrun, hread]
    · rw [humsgs, hlist, Option.toList_some, List.set_append_right _ _ (Nat.le_refl _)]
      simp [brought]
    · rw [hushown, hshown]
      simp [begins, Slot.shown, brought]
    · rw [hucount, hn]
      simp only [Option.elim_some, brought]
      omega

theorem shown_bytesFrom (hrd : m.isRd = true) (j : Nat) :
    (bytesFrom j m 0).map Slot.shown = (List.range m.len.toNat).map fun p => .byte (m.buf p) := by
  rw [bytesFrom, hrd, if_pos rfl, Nat.sub_zero, ← List.range_eq_range', List.map_map]
  rfl

/-- A read looks the same in both runs if it brings back what was in its buffer. -/
theorem shown_eq_iff {n : Nat} (hrd : m.isRd = true) (j : Nat) :
    ((bytesFrom j m 0).map Slot.shown = slaveBytes v n (brought v n m) ∧
      (bytesFrom j m 0).length = brought v n m ∧ m = received v n (brought v n m) m) ↔
    Echoes v n m := by
  have hlength : (bytesFrom j m 0).length = m.len.toNat := by simp [bytesFrom]
  rw [shown_bytesFrom hrd, hlength, slaveBytes, brought, Echoes]
  constructor
  · rintro ⟨hshown, hlen, -⟩
    rw [← hlen] at hshown
    refine ⟨BitVec.toNat_inj.mp hlen.symm, fun p hp => ?_⟩
    have hbyte := congrArg (·[p]?) hshown
    simp only [List.getElem?_map, List.getElem?_range hp, Option.map_some, Option.some.injEq,
      BusEvent.byte.injEq] at hbyte
    exact hbyte.symm
  · rintro ⟨hlen, hbytes⟩
    rw [hlen]
    refine ⟨List.map_congr_left fun p hp => ?_, rfl, ?_⟩
    · rw [hbytes p (List.mem_range.mp hp)]
    · have hbuf : (fun i => if i < m.len.toNat then v.byte (n + i) else m.buf i) = m.buf := by
        funext i
        split
        · next hi => exact hbytes i hi
        · rfl
      rw [received, hbuf, hlen, ite_self]

/-- Where every byte sent is acknowledged in time, both runs come to their end. -/
theorem runs_written {ws : List I2cMsg} {rd : Option I2cMsg}
    (hbegins : Begins busy (m :: ms) s) (hmsgs : m :: ms = ws ++ rd.toList)
    (hws : ∀ w ∈ ws, w.isRd = false) (hrd : ∀ r ∈ rd, r.isRd = true) (hwr : m.isRd = false)
    (hacks : v.Acks 0 (script 0 (m :: ms))) (htimely : Timely ready (begun m ms (polled s)))
    (hintime : InTime ready s.polls (bytesFrom 0 m 0 ++ script 1 ms)) :
    ∃ bound, ∀ fuel ≥ bound, ∃ tp ti,
      pollLoop (v.poll ready) fuel (begun m ms (polled s)).iicstat (begun m ms (polled s)) =
        .ok tp ∧
      v.interrupts fuel (begun m ms s) = .ok ti ∧
      (Same tp ti ↔ ∀ r ∈ rd, Echoes v (sendsFrom 0 (m :: ms)).length r) := by
  obtain ⟨k, ti, hrun, hstop, himsgs, hishown, hicount⟩ :=
    interrupts_written hbegins hmsgs hws hrd hacks rfl
  have hheld : inFlight ti = false := by
    cases hstop with
    | stop _ _ engine => rw [inFlight, engine]; rfl
  have hidx : toS32 ti.msgIdx = (m :: ms).length := by
    cases hstop with
    | stop _ idx =>
      rw [idx, himsgs, hmsgs]
      cases rd <;> simp
  -- fuel for both runs
  refine ⟨max (k + 1) ((script 0 (m :: ms)).length + 1), fun fuel hfuel => ?_⟩
  obtain ⟨tp, hloop, hpidx, hpmsgs, hpshown, hpcount⟩ :=
    polled_written hbegins hwr hacks htimely hintime
      (le_trans (le_max_right _ _) hfuel)
  obtain ⟨f, rfl⟩ : ∃ f, fuel = k + (f + 1) :=
    ⟨fuel - k - 1, by have hle := le_trans (le_max_left _ _) hfuel; omega⟩
  refine ⟨tp, ti, hloop, by rw [hrun, interrupts_held hheld], ?_⟩
  -- `msg_idx` is the same in any case
  have hsame : Same tp ti ↔ bus tp.trace = bus ti.trace ∧ ends tp.trace = ends ti.trace ∧
      tp.msgs = ti.msgs :=
    ⟨fun h => ⟨h.shown, h.count, h.msgs⟩, fun h => ⟨hpidx.trans hidx.symm, h.1, h.2.1, h.2.2⟩⟩
  rw [hsame, hpshown, hishown, hpcount, hicount, hpmsgs, himsgs, hmsgs, script_append,
    Nat.zero_add]
  -- the writes look the same both ways; what is left is the read
  cases rd with
  | none => simp [script]
  | some r =>
    have hopen : opening ws.length r = [.start ws.length r] := by
      rw [opening, if_pos (.inr (hbegins.nostart r (by rw [hmsgs]; simp)))]
    have hsends : (sendsFrom 0 (ws ++ (some r).toList)).length = (script 0 ws).length + 1 := by
      rw [← enter_script, script_append, List.flatMap_append, List.length_append,
        length_enter fun u hu => (script_writes hws 0 u hu).sends]
      simp [script, enter_bytesFrom, hrd r rfl, hopen, Slot.enter]
    rw [hsends, Option.toList_some, script, hopen]
    have hecho := shown_eq_iff (v := v) (n := (script 0 ws).length + 1) (hrd r rfl) ws.length
    simp only [Option.elim_some, Option.mem_def, Option.some.injEq, forall_eq', ← hecho]
    simp [script, Slot.shown]

/-- Of the bytes of writes and a last read the slave acknowledges those it is sent. -/
theorem acks_script_iff {ws : List I2cMsg} {rd : Option I2cMsg} (hws : ∀ w ∈ ws, w.isRd = false)
    (hrd : ∀ r ∈ rd, r.isRd = true ∧ r.isNostart = false) (v : Slave) :
    v.Acks 0 (script 0 (ws ++ rd.toList)) ↔
      ∀ i < (sendsFrom 0 (ws ++ rd.toList)).length, v.ack i = true := by
  obtain ⟨out, hout, hsends, henter⟩ := script_out ws rd hws hrd
  have hrecv : v.Acks (0 + out.length) (recvSlots ws.length rd) := by
    cases rd with
    | none => trivial
    | some r => exact v.acks_recv _ _ _ _
  rw [← henter, length_enter hsends, hout, v.acks_append, and_iff_left hrecv, v.acks_iff hsends]
  simp only [Nat.zero_add]

/-- A polled run that agrees with the interrupts has every byte acknowledged: without that it
    shows no STOP, or has lost a byte. -/
theorem acks_of_same {tp ti : S3c24xxI2c} (hbegins : Begins busy (m :: ms) s)
    (hwr : m.isRd = false) {fuel : Nat}
    (htp : pollLoop (v.poll atOnce) fuel (begun m ms (polled s)).iicstat (begun m ms (polled s)) =
      .ok tp)
    (hti : v.interrupts fuel (begun m ms s) = .ok ti) (hsame : Same tp ti) :
    v.Acks 0 (script 0 (m :: ms)) := by
  by_contra hacks
  obtain ⟨hbegun, hends⟩ := bus_begun_nil (s := polled s) m ms hbegins.trace
  have hout := interrupts_drivenOut hbegins hti
  rw [script_eq] at hacks
  have heven : moved (begun m ms (polled s)).trace = ends (begun m ms (polled s)).trace + 1 := by
    rw [moved, hbegun, hends]
    rfl
  have hsending := begun_sending hbegins.num (polled s) hwr
  have hstalls := hsending.stalls (v := v) hbegins.nostart (has_poll_polled s)
    (by rw [hends]; exact hacks) heven (by rw [hbegun]; simp) (Sees.refl v _)
    (fun _ => begun_lastbit m ms (polled s)) htp
  -- at the refused byte the loop gives up without the STOP, or leaves a byte without its end
  rcases hstalls with hgave | ⟨-, hslack⟩
  · apply hgave.stop
    rw [hsame.shown]
    exact hout.stop
  · have hlost := hslack.lost
    have hmoved := hout.even
    rw [moved, hsame.shown, ← moved, hmoved, hsame.count] at hlost
    omega

/-- Where the bytes end at once, a list that begins with a write agrees only if every byte sent is
    acknowledged and a last read brings nothing new. -/
theorem written_of_agree (hbegins : Begins busy (m :: ms) s) (hwr : m.isRd = false)
    (h : Agree v atOnce busy (m :: ms) s) : Written v (m :: ms) := by
  have htimely := timely_atOnce (begun m ms (polled s))
  have hintime : InTime atOnce s.polls (bytesFrom 0 m 0 ++ script 1 ms) :=
    ⟨⟨1, by decide, lasts_atOnce _ _⟩, .inl (lasts_atOnce _ _)⟩
  rw [agree_iff_runs hbegins] at h
  obtain ⟨bound, hruns⟩ := h
  obtain ⟨tp, ti, htp, hti, hsame⟩ := hruns bound (Nat.le_refl _)
  have hacks := acks_of_same hbegins hwr htp hti hsame
  -- so the polled run goes through every message, which only writes and a last read allow
  obtain ⟨tp, ti, htp, hti, hsame⟩ :=
    hruns (max bound ((script 0 (m :: ms)).length + 1)) (le_max_left _ _)
  obtain ⟨tp', htp', -, -, hshown, -⟩ :=
    polled_written hbegins hwr hacks htimely hintime (le_max_right bound _)
  rw [htp, Except.ok.injEq] at htp'
  have hstarts : starts ti.trace = (m :: ms).length := by
    rw [starts, ← hsame.shown, htp', hshown, List.countP_append]
    exact starts_script hbegins.nostart 0
  have hplace := (interrupts_drivenOut hbegins hti).starts_le
  rw [hstarts] at hplace
  obtain ⟨ws, rd, hmsgs, hws, hrd⟩ := exists_writes_read hplace
  obtain ⟨bound', hwritten⟩ :=
    runs_written hbegins hmsgs hws hrd hwr hacks htimely hintime
  obtain ⟨tp, ti, htp, hti, hsame⟩ := hruns (max bound bound') (le_max_left _ _)
  obtain ⟨tp', ti', htp', hti', hechoes⟩ := hwritten (max bound bound') (le_max_right _ _)
  rw [htp, Except.ok.injEq] at htp'
  rw [hti, Except.ok.injEq] at hti'
  rw [← htp', ← hti'] at hechoes
  have hread : ∀ r ∈ rd, r.isRd = true ∧ r.isNostart = false := fun r hr =>
    ⟨hrd r hr, hbegins.nostart r (by rw [hmsgs, hr]; simp)⟩
  refine ⟨ws, rd, hmsgs, hws, fun r hr => ⟨hrd r hr, hechoes.mp hsame r hr⟩, ?_⟩
  rw [hmsgs] at hacks ⊢
  exact (acks_script_iff hws hread v).mp hacks

/-- And that is enough wherever the bytes end in time. -/
theorem agree_of_written (hbegins : Begins busy (m :: ms) s) (hwr : m.isRd = false)
    (htimely : Timely ready (begun m ms (polled s)))
    (hintime : InTime ready s.polls (bytesFrom 0 m 0 ++ script 1 ms))
    (h : Written v (m :: ms)) : Agree v ready busy (m :: ms) s := by
  obtain ⟨ws, rd, hmsgs, hws, hrd, hack⟩ := h
  rw [agree_iff_runs hbegins]
  have hread : ∀ r ∈ rd, r.isRd = true ∧ r.isNostart = false := fun r hr =>
    ⟨(hrd r hr).1, hbegins.nostart r (by rw [hmsgs, hr]; simp)⟩
  have hacks : v.Acks 0 (script 0 (m :: ms)) := by
    rw [hmsgs] at hack ⊢
    exact (acks_script_iff hws hread v).mpr hack
  obtain ⟨bound, hwritten⟩ := runs_written hbegins hmsgs hws
    (fun r hr => (hrd r hr).1) hwr hacks htimely hintime
  refine ⟨bound, fun fuel hfuel => ?_⟩
  obtain ⟨tp, ti, htp, hti, hsame⟩ := hwritten fuel hfuel
  exact ⟨tp, ti, htp, hti, hsame.mpr fun r hr => (hrd r hr).2⟩

/-- The lists for which `is_ack` never looks at a refused byte: a first read that is
    acknowledged, and behind it no byte for which ACKEN is cleared, or acknowledged writes
    and possibly a last read that finds its bytes in the buffer already. -/
def NeverRefused (v : Slave) : List I2cMsg → Prop
  | [] => True
  | m :: ms =>
    if m.isRd then v.ack 0 = true ∧ KeepsAckenFrom v 1 (m :: ms) else Written v (m :: ms)

/-! ### Bytes that last longer -/

/-- The bus of a run that comes out even shows the STOP, and every byte moved has ended. -/
theorem Same.even {tp ti : S3c24xxI2c} (h : Same tp ti) (hout : DrivenOut msgs ti) :
    .stop ∈ bus tp.trace ∧ moved tp.trace = ends tp.trace := by
  have heven := hout.even
  rw [moved, h.shown, h.count]
  exact ⟨hout.stop, heven⟩

/-- A polled transfer that gives up without the STOP or stays a byte ahead does not agree. -/
theorem not_agree_of_uneven (hbegins : Begins busy (m :: ms) s) (bound : Nat)
    (huneven : ∀ fuel ≥ bound, ∀ t, pollLoop (v.poll ready) fuel
      (begun m ms (polled s)).iicstat (begun m ms (polled s)) = .ok t →
      .stop ∉ bus t.trace ∨ ends t.trace < moved t.trace) : ¬ Agree v ready busy (m :: ms) s := by
  rw [agree_iff_runs hbegins]
  rintro ⟨bound', hruns⟩
  obtain ⟨tp, ti, htp, hti, hsame⟩ := hruns (max bound bound') (le_max_right _ _)
  obtain ⟨hstop, heven⟩ := hsame.even (interrupts_drivenOut hbegins hti)
  rcases huneven _ (le_max_left _ _) tp htp with hquiet | hahead
  · exact hquiet hstop
  · omega

/-- The slots of a whole transfer, one of them not ended. -/
theorem Complete.uneven {rest : List Slot}
    (h : Complete (begun m ms (polled s)) rest rest.length t) (htrace : s.trace = []) :
    ends t.trace < moved t.trace := by
  obtain ⟨hbegun, hends⟩ := bus_begun_nil (s := polled s) m ms htrace
  have hone : moved (begun m ms (polled s)).trace = 1 := by
    rw [moved, hbegun]
    rfl
  rw [h.count, hends, h.moved_eq, hone]
  omega

/-- A list that the slave acknowledges throughout. -/
theorem Written.acks (h : Written v msgs) (hnostart : ∀ w ∈ msgs, w.isNostart = false) :
    v.Acks 0 (script 0 msgs) ∧ SendsFirst (script 0 msgs) := by
  obtain ⟨ws, rd, rfl, hws, hrd, hack⟩ := h
  have hread : ∀ r ∈ rd, r.isRd = true ∧ r.isNostart = false := fun r hr =>
    ⟨(hrd r hr).1, hnostart r (by rw [hr]; simp)⟩
  refine ⟨(acks_script_iff hws hread v).mpr hack, ?_⟩
  -- the bytes that are received stand at the end
  obtain ⟨out, hout, hsends, -⟩ := script_out ws rd hws hread
  rw [hout, SendsFirst, List.pairwise_append]
  refine ⟨?_, ?_, fun u hu _ _ _ => hsends u hu⟩
  · exact List.pairwise_of_forall_mem_list fun u hu _ _ _ => hsends u hu
  · refine List.pairwise_of_forall_mem_list fun _ _ u hu hsent => ?_
    obtain ⟨r, -, p, rfl⟩ := mem_recvSlots hu
    exact hsent.elim

/-- The START leaves IRQPEND as it is. -/
theorem begun_irqpend (m : I2cMsg) (ms : List I2cMsg) (s : S3c24xxI2c) :
    has (begun m ms s).iiccon iicconIrqpend = has s.iiccon iicconIrqpend :=
  (has_set_of_disjoint _ (by decide)).trans (has_set_of_disjoint _ (by decide))

/-- IRQPEND is set when the transfer begins, and the address byte outlasts the first try. -/
theorem not_agree_of_stale (hbegins : Begins busy (m :: ms) s)
    (hpend : has s.iiccon iicconIrqpend = true) (h : NeverRefused v (m :: ms)) :
    ¬ Agree v (slowAt s.polls) busy (m :: ms) s := by
  obtain ⟨hbegun, hends⟩ := bus_begun_nil (s := polled s) m ms hbegins.trace
  have hbit := begun_lastbit m ms (polled s)
  have hpend' := (begun_irqpend m ms (polled s)).trans hpend
  refine not_agree_of_uneven hbegins ((bytesFrom 0 m 0 ++ script 1 ms).length + 2)
    fun fuel hfuel t ht => ?_
  rw [NeverRefused] at h
  cases hrd : m.isRd with
  | true =>
    -- the first byte is stored before it has come, and the last one never ends
    refine pollLoop_early (begun_at hbegins.num (polled s)) hrd rfl ?_ ?_ ?_ hpend' hbit hbit ht
    · rw [moved, hbegun, hends]
      exact Nat.zero_lt_one
    · exact fun hidle => by cases hidle
    · rw [hbegun]
      simp
  | false =>
    rw [hrd, if_neg (by decide)] at h
    obtain ⟨hacks, hfirst⟩ := h.acks hbegins.nostart
    rw [script_eq] at hacks hfirst
    have hsending := begun_sending hbegins.num (polled s) hrd
    obtain ⟨tp, htp, hcomplete⟩ := hsending.stale rfl hbegins.nostart (has_poll_polled s)
      (by rw [hends]; exact hacks) hfirst hpend' hbit hbit hfuel
    obtain rfl := Except.ok.inj (ht.symm.trans htp)
    exact .inr (hcomplete.uneven hbegins.trace)

/-- Behind the address of a write come its data bytes. -/
theorem start_not_mem_bytesFrom (hwr : m.isRd = false) (k : Nat) (m' : I2cMsg) :
    Slot.start k m' ∉ bytesFrom 0 m 0 := by
  intro hmem
  rw [bytesFrom, hwr] at hmem
  simp at hmem

/-- The address byte of the second message outlasts the first try. -/
theorem not_agree_of_next (hbegins : Begins busy (m :: ms) s) (hwr : m.isRd = false) (hms : ms ≠ [])
    (h : NeverRefused v (m :: ms)) :
    ¬ Agree v (slowAt (s.polls + 2 + 3 * m.len.toNat)) busy (m :: ms) s := by
  obtain ⟨hbegun, hends⟩ := bus_begun_nil (s := polled s) m ms hbegins.trace
  have hbit := begun_lastbit m ms (polled s)
  rw [NeverRefused, hwr, if_neg (by decide)] at h
  obtain ⟨hacks, hfirst⟩ := h.acks hbegins.nostart
  rw [script_eq] at hacks hfirst
  have hsending := begun_sending hbegins.num (polled s) hwr
  obtain ⟨m', ms', rfl⟩ := List.exists_cons_of_ne_nil hms
  have hopen : opening 1 m' = [.start 1 m'] := by
    rw [opening, if_pos (.inr (hbegins.nostart m' (by simp)))]
  rw [script, hopen, List.singleton_append] at hsending hacks hfirst
  refine not_agree_of_uneven hbegins
    ((bytesFrom 0 m 0 ++ .start 1 m' :: (bytesFrom 1 m' 0 ++ script (1 + 1) ms')).length + 2)
    fun fuel hfuel t ht => ?_
  -- the byte of the second START is the slow one
  obtain ⟨tp, htp, hcomplete⟩ := hsending.ahead (start_not_mem_bytesFrom hwr) hbegins.nostart
    (has_poll_polled s) (by rw [hends]; exact hacks)
    (hfirst.tail.sublist (List.sublist_append_right _ _)) (Sees.refl v _)
    (by simp [bytesFrom]; rfl) hbit hfuel
  obtain rfl := Except.ok.inj (ht.symm.trans htp)
  exact .inr (hcomplete.uneven hbegins.trace)

/-- The first byte outlasts the tries. -/
theorem not_agree_of_late (hbegins : Begins busy (m :: ms) s)
    (hpend : has s.iiccon iicconIrqpend = false) (v : Slave) :
    ¬ Agree v (lateAt s.polls) busy (m :: ms) s := by
  obtain ⟨hbegun, -⟩ := bus_begun_nil (s := polled s) m ms hbegins.trace
  -- without a byte that has ended `is_ack` gives up, and no STOP is issued
  refine not_agree_of_uneven hbegins 1 fun fuel hfuel t ht => .inl ?_
  obtain ⟨f, rfl⟩ : ∃ f, fuel = f + 1 := ⟨fuel - 1, by omega⟩
  have hlate : ∀ i < 50, lateAt s.polls ((begun m ms (polled s)).polls + i) = false := by
    intro i hi
    rw [show (begun m ms (polled s)).polls = s.polls from rfl]
    simp [lateAt]
    omega
  rw [pollLoop_late v (Nat.succ_ne_zero ms.length) ((begun_irqpend m ms (polled s)).trans hpend)
    hlate] at ht
  obtain rfl := Except.ok.inj ht
  rw [show ({ begun m ms (polled s) with polls := (begun m ms (polled s)).polls + 50 } :
    S3c24xxI2c).trace = (begun m ms (polled s)).trace from rfl, hbegun]
  simp

/-! ### Every list -/

/-- The lists without a START behind the first one: a read goes on without. -/
def OneStart : List I2cMsg → Prop
  | [] => True
  | m :: ms => m.isRd = true ∨ ms = []

/-- `is_ack` waits for the end of each byte, where no byte is still on the bus at more than `n`
    register reads: it ends before the second read, or it does not outlast the 50 tries and
    IRQPEND is clear while it is on the bus. IRQPEND is that of an earlier byte at a later START,
    and at the first one if it was set before. -/
def WaitsOut (n : Nat) (msgs : List I2cMsg) (s : S3c24xxI2c) : Prop :=
  n < 2 ∨ n < 50 ∧ has s.iiccon iicconIrqpend = false ∧ OneStart msgs

variable {n : Nat}

/-- On a bus with the bound no byte of the transfer is looked for too early. -/
theorem WaitsOut.timely (h : WaitsOut n (m :: ms) s) (hlasts : Lasts n ready) :
    Timely ready (begun m ms (polled s)) := by
  have hfrom : LastsFrom s.polls n ready := LastsFrom.mono hlasts (Nat.zero_le s.polls)
  rcases h with hshort | ⟨hn, hpend, -⟩
  · have hshort' : LastsFrom (begun m ms (polled s)).polls 1 ready :=
      hfrom.le (Nat.le_of_lt_succ hshort)
    exact hshort'.timely
  · exact ⟨⟨n, hn, hfrom⟩, .inr fun _ => (begun_irqpend m ms (polled s)).trans hpend⟩

/-- A single write has no START behind the first one. -/
theorem WaitsOut.inTime (h : WaitsOut n (m :: ms) s) (hlasts : Lasts n ready)
    (hwr : m.isRd = false) :
    InTime ready s.polls (bytesFrom 0 m 0 ++ script 1 ms) := by
  have hfrom : LastsFrom s.polls n ready := LastsFrom.mono hlasts (Nat.zero_le s.polls)
  rcases h with hshort | ⟨hn, -, hone⟩
  · have hshort' := hfrom.le (Nat.le_of_lt_succ hshort)
    exact ⟨⟨1, by decide, hshort'⟩, .inl hshort'⟩
  · obtain rfl : ms = [] := hone.resolve_left (by rw [hwr]; decide)
    refine ⟨⟨n, hn, hfrom⟩, .inr fun k m' hmem => ?_⟩
    rw [script, List.append_nil] at hmem
    exact start_not_mem_bytesFrom hwr k m' hmem

/-- A byte that is refused makes the two runs differ. -/
theorem neverRefused_of_agree (hbegins : Begins busy (m :: ms) s)
    (h : Agree v atOnce busy (m :: ms) s) : NeverRefused v (m :: ms) := by
  rw [NeverRefused]
  cases hrd : m.isRd with
  | true =>
    exact (agree_iff_reads hbegins (timely_atOnce _) hrd).mp h
  | false => exact written_of_agree hbegins hrd h

/-- A byte that `is_ack` does not wait for makes the two runs differ. -/
theorem waitsOut_of_agree (hbegins : Begins busy (m :: ms) s) (hnever : NeverRefused v (m :: ms))
    (h : ∀ ready, Lasts n ready → Agree v ready busy (m :: ms) s) : WaitsOut n (m :: ms) s := by
  by_cases hshort : n < 2
  · exact .inl hshort
  -- the bus may keep one byte of our choice for two reads
  have hslow : ∀ q, Lasts n (slowAt q) := fun q => (lasts_slowAt q).le (by omega)
  have hpend : has s.iiccon iicconIrqpend = false := by
    by_contra hpend
    exact not_agree_of_stale hbegins (Bool.eq_true_of_not_eq_false hpend) hnever (h _ (hslow _))
  refine .inr ⟨?_, hpend, ?_⟩
  · by_contra hlong
    exact not_agree_of_late hbegins hpend v (h _ ((lasts_lateAt _).le (by omega)))
  · by_contra hmany
    rw [OneStart, not_or, Bool.not_eq_true] at hmany
    exact not_agree_of_next hbegins hmany.1 hmany.2 hnever (h _ (hslow _))

/-- A transfer that does not get as far as the first START is the same in both ways. -/
theorem agree_of_refused {s : S3c24xxI2c} (ret : Int)
    (hearly : ∀ env fuel t, t.suspended = s.suspended → env.busy = busy →
      s3c24xxI2cDoxfer env fuel msgs t = .ok (ret, t)) : Agree v ready busy msgs s := by
  refine ⟨0, fun fuel _ => ⟨ret, polled s, s, ?_, ?_, rfl, rfl, rfl⟩⟩
  · exact hearly _ fuel _ rfl rfl
  · exact hearly _ fuel _ rfl rfl

/-- For every slave, every list of messages without `I2C_M_NOSTART` and every bus on which no
    byte is found at more than `n` register reads: the polled transfer and the one driven by
    interrupts agree however long the bytes last iff the transfer ends before the first START,
    or `is_ack` waits for the end of each byte, no byte that it looks at is refused, and no
    later read brings anything new. -/
theorem agree_iff (v : Slave) (busy : Nat → Reg) (n : Nat) (msgs : List I2cMsg) (s : S3c24xxI2c)
    (hne : msgs ≠ []) (hnum : msgs.length < 2147483648)
    (hnostart : ∀ w ∈ msgs, w.isNostart = false) (hquirk : has s.quirks quirkPoll = false)
    (htrace : s.trace = []) :
    (∀ ready, Lasts n ready → Agree v ready busy msgs s) ↔
      s.suspended = true ∨ s3c24xxI2cSetMaster busy ≠ 0 ∨
        (WaitsOut n msgs s ∧ NeverRefused v msgs) := by
  obtain ⟨m, ms, rfl⟩ := List.exists_cons_of_ne_nil hne
  -- both paths return before they differ if the controller is suspended
  by_cases hsuspended : s.suspended = true
  · refine iff_of_true (fun ready _ => agree_of_refused eIo fun env fuel t ht _ => ?_)
      (.inl hsuspended)
    rw [s3c24xxI2cDoxfer, ht, if_pos hsuspended]
  rw [Bool.not_eq_true] at hsuspended
  by_cases hbus : s3c24xxI2cSetMaster busy = 0
  · have hbegins : Begins busy (m :: ms) s := ⟨hnum, hnostart, hsuspended, hbus, hquirk, htrace⟩
    rw [hsuspended, or_iff_right (by decide), or_iff_right (not_not.mpr hbus)]
    constructor
    · intro h
      have hnever := neverRefused_of_agree hbegins (h atOnce (lasts_atOnce 0 n))
      exact ⟨waitsOut_of_agree hbegins hnever h, hnever⟩
    · rintro ⟨hwaits, hnever⟩ ready hlasts
      rw [NeverRefused] at hnever
      cases hrd : m.isRd with
      | true =>
        rw [hrd, if_pos rfl] at hnever
        exact (agree_iff_reads hbegins (hwaits.timely hlasts) hrd).mpr hnever
      | false =>
        rw [hrd, if_neg (by decide)] at hnever
        exact agree_of_written hbegins hrd (hwaits.timely hlasts) (hwaits.inTime hlasts hrd)
          hnever
  -- and so they do if the bus stays busy
  · refine iff_of_true (fun ready _ => agree_of_refused eAgain fun env fuel t ht hbusy => ?_)
      (.inr (.inl hbus))
    rw [s3c24xxI2cDoxfer, ht, hsuspended, if_neg (by decide), hbusy, if_pos hbus]

/-- A slave that acknowledges everything and returns 0x42. -/
def eager : Slave := ⟨fun _ => true, fun _ => 0x42⟩

/-- A write of two bytes to that slave, each of which is on the bus at up to ten reads. -/
theorem agree_iff_write :
    (∀ ready, Lasts 10 ready → Agree eager ready (fun _ => 0) [twoBytes] (atRest 0)) ↔
      (atRest 0).suspended = true ∨ s3c24xxI2cSetMaster (fun _ => 0) ≠ 0 ∨
        (WaitsOut 10 [twoBytes] (atRest 0) ∧ NeverRefused eager [twoBytes]) :=
  agree_iff eager (fun _ => 0) 10 [twoBytes] (atRest 0) (by simp) (by simp) (by decide) (by decide)
    rfl

/-- A read of one byte: `is_ack` waits for an acknowledge that the driver has switched off, also
    where every byte ends at once. -/
theorem agree_fails_read :
    ¬ ∀ (v : Slave) (ready : Nat → Bool) (msgs : List I2cMsg), msgs ≠ [] →
      (∀ w ∈ msgs, w.isNostart = false) → Agree v ready (fun _ => 0) msgs (atRest 0) := by
  intro h
  have hread := h eager atOnce [oneByte] (by simp) (by decide)
  rw [agree_iff_reads ⟨by simp, by decide, rfl, by decide, by decide, rfl⟩ (timely_atOnce _) rfl]
    at hread
  have hkeeps := hread.2
  rw [KeepsAckenFrom, if_neg (by decide)] at hkeeps
  exact hkeeps.1 ⟨by decide, by decide, rfl⟩

end S3c24xx
