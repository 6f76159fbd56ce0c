import DriverLearn.Spec.I2cPointer
import DriverLearn.Spec.I2cReturn

/-!
# A missing acknowledge

A byte the driver has sent ends without acknowledge, and the message does not ignore that:
the transfer is over. The STOP is the first one and the last thing the driver does on the
bus, whatever interrupts follow, and the code that is returned tells the address byte from
a data byte. A transfer that has timed out before keeps the return value it has read.

## Key results

- `run_unstopped`: as long as a transfer runs there was no STOP
- `irq_refused`: the interrupt of the byte without acknowledge
- `doxfer_refused`: the whole call
-/

namespace S3c24xx

open Word

variable {msgs : List I2cMsg} {s t : S3c24xxI2c} {j : Nat} {m : I2cMsg}

/-! ### No STOP so far -/

/-- Behind the events `before`, the driver has issued no STOP unless it is in `STATE_STOP`. -/
def Unstopped (before : List Event) (t : S3c24xxI2c) : Prop :=
  t.state ≠ .stop → ∃ evs, t.trace = before ++ evs ∧ Event.stop ∉ evs

/-- A byte that is taken is no STOP. -/
theorem Taken.stop_not_mem {e : ByteEnd} {evs : List Event} (h : Taken e s evs) :
    Event.stop ∉ evs := by
  cases h <;> simp

/-- One interrupt keeps the trace free of the STOP as long as the state is not STOP. -/
theorem irq_unstopped {before : List Event} (hnum : msgs.length < 2147483648)
    (hinv : PtrInv msgs s) (h : Unstopped before s) {e : ByteEnd}
    (hrun : s3c24xxI2cIrq s e = .ok t) : Unstopped before t := by
  by_cases hstop : s.state = .stop
  · -- the STOP stays
    rw [irq_stop hstop, Except.ok.injEq] at hrun
    intro hstate
    rw [← hrun] at hstate
    exact absurd hstop hstate
  · obtain ⟨evs, htrace, hnot⟩ := h hstop
    have hmore : ∀ new, t.trace = s.trace ++ new → Event.stop ∉ new → Unstopped before t := by
      intro new hnew hnot' _
      refine ⟨evs ++ new, by rw [hnew, htrace, List.append_assoc], ?_⟩
      rw [List.mem_append]
      exact not_or.mpr ⟨hnot, hnot'⟩
    cases irq_effect hnum hinv hstop e hrun with
    | stop evs' taken trace state => exact fun hstate => absurd state hstate
    | data k q byte _ trace =>
      rw [List.append_assoc] at trace
      exact hmore _ trace (by simp)
    | start k stat addr _ trace =>
      rw [List.append_assoc] at trace
      exact hmore _ trace (by simp)
    | read evs' taken trace => exact hmore _ trace taken.stop_not_mem

/-- So do all interrupts of a transfer. -/
theorem run_unstopped (hnum : (m :: msgs).length < 2147483648)
    (hturns : ¬ TurnsAround (m :: msgs)) (s : S3c24xxI2c) (irqs : List ByteEnd)
    (hrun : irqs.foldlM s3c24xxI2cIrq (begun m msgs s) = .ok t) :
    PtrInv (m :: msgs) t ∧ Unstopped s.trace t := by
  have hstep : ∀ u e u', PtrInv (m :: msgs) u ∧ Unstopped s.trace u →
      s3c24xxI2cIrq u e = .ok u' → PtrInv (m :: msgs) u' ∧ Unstopped s.trace u' := by
    rintro u e u' ⟨hinv, hunstopped⟩ hirq
    obtain ⟨v, hv, hinv'⟩ := irq_ptrInv hnum hturns u e hinv
    rw [hirq, Except.ok.injEq] at hv
    exact ⟨hv ▸ hinv', irq_unstopped hnum hinv hunstopped hirq⟩
  apply Run.foldlM_inv hstep ⟨begun_ptrInv m msgs s, ?_⟩ hrun
  exact fun _ => ⟨[.start 0 (m.startStat ||| iicstatStart) m.addrByte], rfl, by simp⟩

/-! ### The byte without acknowledge -/

/-- The error code of a byte refused in this state. -/
def refusal (state : State) : Int := if state = .start then eNxio else eConnrefused

/-- The error for a refused byte is negative. -/
theorem refusal_bounds (state : State) : -2147483648 ≤ refusal state ∧ refusal state < 0 := by
  unfold refusal eNxio eConnrefused
  split <;> decide

/-- From `t` on the driver wrote the STOP to IICSTAT and did nothing else. -/
structure StopWritten (t u : S3c24xxI2c) : Prop where
  trace : u.trace = t.trace ++ [.byteEnd true, .stop]
  iicstat :
    has u.iicstat (if has t.quirks quirkHdmiphy then iicstatTxrxen else iicstatStart) = false
  msgs : u.msgs = t.msgs

/-- The STOP with an error writes the registers as a STOP does. -/
theorem stop_written {e : ByteEnd} (hlast : has e.iicstat iicstatLastbit = true)
    (t : S3c24xxI2c) (ret : Int) :
    StopWritten t (clearIrqpend (s3c24xxI2cStop (byteEnd e t) ret)) where
  trace := by
    change t.trace ++ [.byteEnd (has e.iicstat iicstatLastbit)] ++ [.stop] = _
    rw [hlast, List.append_assoc]
    rfl
  iicstat := by
    change has (if has t.quirks quirkHdmiphy then (byteEnd e t).iicstat &&& ~~~iicstatTxrxen
      else (byteEnd e t).iicstat &&& ~~~iicstatStart) _ = false
    split
    · exact has_clear_self _ _
    · exact has_clear_self _ _
  msgs := rfl

/-- The interrupt of a byte that was sent and not acknowledged. -/
theorem irq_refused (hnum : msgs.length < 2147483648) (hinv : PtrInv msgs t)
    (hstate : t.state = .start ∨ t.state = .write) (hcur : curMsg t = .ok m)
    (hignore : m.isIgnoreNak = false) {e : ByteEnd}
    (hlast : has e.iicstat iicstatLastbit = true) :
    ∃ u, s3c24xxI2cIrq t e = .ok u ∧ StopWritten t u ∧ Ended u (refusal t.state) := by
  obtain ⟨m', hat⟩ := hinv.current hnum (hstate.imp_right Or.inr)
  have hm : m' = m := by
    rw [hat.curMsg, Except.ok.injEq] at hcur
    exact hcur
  subst hm
  have hnak : nak e.iicstat m' = true := by rw [nak, hlast, hignore]; rfl
  obtain ⟨hlo, hneg⟩ := refusal_bounds t.state
  refine ⟨clearIrqpend (s3c24xxI2cStop (byteEnd e t) (refusal t.state)), ?_,
    stop_written hlast t _, (stop_ended (byteEnd e t) _ hlo hneg).1⟩
  cases hstate with
  | inl hstart =>
    rw [irq_start hat hstart (hinv.start hstart).2.1, if_pos hnak, refusal, if_pos hstart]
    rfl
  | inr hwrite =>
    rw [irq_write hat hwrite, if_pos hnak, refusal, if_neg (by rw [hwrite]; decide)]
    rfl

/-! ### The whole call -/

/-- The interrupt `e` in the state `t` ends a transfer begun behind the events `before`:
    there is one STOP, and from there on only the ends of bytes, through the interrupts
    `post` of the call and `after` behind it. The call returns `ret`. -/
def EndsRefused (xfer : Except Fault (Int × S3c24xxI2c)) (before : List Event)
    (t : S3c24xxI2c) (e : ByteEnd) (post after : List ByteEnd) (ret : Int) : Prop :=
  ∃ u w v, s3c24xxI2cIrq t e = .ok u ∧ StopWritten t u ∧
    (∃ evs, t.trace = before ++ evs ∧ Event.stop ∉ evs) ∧
    xfer = .ok (ret, w) ∧ after.foldlM s3c24xxI2cIrq w = .ok v ∧
    v.trace = u.trace ++ spurious (post ++ after) ∧ v.msgs = t.msgs

/-- Interrupts behind the STOP, in two parts. -/
theorem spurious_append (es es' : List ByteEnd) :
    spurious (es ++ es') = spurious es ++ spurious es' :=
  List.map_append

/-- On the way out and behind it nothing but the ends of bytes. -/
theorem leave_after {u w : S3c24xxI2c} {post : List ByteEnd} (h : After u w (spurious post))
    (after : List ByteEnd) :
    ∃ v, after.foldlM s3c24xxI2cIrq (leave w) = .ok v ∧
      v.trace = u.trace ++ spurious (post ++ after) ∧ v.msgs = u.msgs := by
  obtain ⟨v, hv, hafter⟩ := run_idle (leave_state w) after
  refine ⟨v, hv, ?_, ?_⟩
  · rw [hafter.trace, leave_trace, h.trace, spurious_append, List.append_assoc]
  · rw [hafter.msgs, foldl_store_spurious, leave_msgs, h.msgs, foldl_store_spurious]

/-- Where the interrupt `e` comes: before the waiting ends, or behind a timeout. -/
theorem irqs_split {irqs late pre post : List ByteEnd} {e : ByteEnd}
    (h : irqs ++ late = pre ++ e :: post) :
    (∃ mid, irqs = pre ++ e :: mid ∧ post = mid ++ late) ∨
      (∃ mid, pre = irqs ++ mid ∧ late = mid ++ e :: post) := by
  obtain ⟨mid, hpre, hlate⟩ | ⟨mid, hirqs, hpost⟩ := List.append_eq_append_iff.mp h
  · exact Or.inr ⟨mid, hpre, hlate⟩
  · cases mid with
    | nil =>
      rw [List.append_nil] at hirqs
      exact Or.inr ⟨[], by rw [hirqs, List.append_nil], hpost.symm⟩
    | cons e' mid =>
      rw [List.cons_append, List.cons.injEq] at hpost
      obtain ⟨rfl, hpost⟩ := hpost
      exact Or.inl ⟨mid, hirqs, hpost⟩

/-- For every list of messages without a read that continues without START, every transfer
    and every sequence of interrupts, during the wait (`irqs`), behind a timeout (`late`)
    and behind the return (`after`): an interrupt in START or WRITE without an acknowledge
    that the message asks for ends the transfer. The error code is returned unless the
    transfer has timed out before. -/
theorem doxfer_refused (busy : Nat → Reg) (penv : PollEnv) (fuel : Nat) (s : S3c24xxI2c)
    (msgs : List I2cMsg) (irqs late after pre post : List ByteEnd) (e : ByteEnd)
    (hne : msgs ≠ []) (hnum : msgs.length < 2147483648)
    (hplain : ∀ m ∈ msgs, ¬ (m.isRd = true ∧ m.isNostart = true))
    (hquirk : has s.quirks quirkPoll = false) (hsuspended : s.suspended = false)
    (hbus : s3c24xxI2cSetMaster busy = 0) (hirqs : irqs ++ late = pre ++ e :: post)
    (t : S3c24xxI2c) (ht : transfer .ok msgs s pre = .ok t)
    (hstate : t.state = .start ∨ t.state = .write) (m : I2cMsg) (hcur : curMsg t = .ok m)
    (hignore : m.isIgnoreNak = false) (hlast : has e.iicstat iicstatLastbit = true) :
    ∃ ret, EndsRefused (s3c24xxI2cDoxfer (interrupted busy penv irqs late) fuel msgs s) s.trace
        t e post after ret ∧
      (pre.length < irqs.length → ret = refusal t.state) ∧
      (irqs.length ≤ pre.length →
        ∃ t₀, transfer .ok msgs s irqs = .ok t₀ ∧ ret = toS32 t₀.msgIdx) := by
  obtain ⟨m₀, ms, rfl⟩ := List.exists_cons_of_ne_nil hne
  rw [transfer_eq hquirk] at ht
  obtain ⟨hinv, hunstopped⟩ := run_unstopped hnum (not_turnsAround hplain) s pre ht
  have hbefore := hunstopped (by cases hstate with
    | inl h => rw [h]; decide
    | inr h => rw [h]; decide)
  obtain ⟨u, hu, hstop, hended⟩ := irq_refused hnum hinv hstate hcur hignore hlast
  have hdoxfer := doxfer_irq penv irqs late fuel m₀ ms hsuspended hbus hquirk
  obtain ⟨mid, rfl, rfl⟩ | ⟨mid, rfl, rfl⟩ := irqs_split hirqs
  -- the waiting ends behind the STOP
  · obtain ⟨x, hx, hendedx, hafterx⟩ := run_ended hended mid
    obtain ⟨w, hw, -, hafterw⟩ := run_ended hendedx late
    have hrun : (pre ++ e :: mid).foldlM s3c24xxI2cIrq (begun m₀ ms s) = .ok x := by
      rw [List.foldlM_append, ht]
      simp only [bind, Except.bind, List.foldlM_cons, hu]
      exact hx
    have hafter := hafterx.trans hafterw
    rw [← spurious_append] at hafter
    obtain ⟨v, hv, htrace, hmsgs⟩ := leave_after hafter after
    refine ⟨refusal t.state, ⟨u, leave w, v, hu, hstop, hbefore, ?_, hv, htrace, ?_⟩, fun _ => rfl,
      fun hle => ?_⟩
    · rw [hdoxfer, hrun]
      simp only [bind, Except.bind, hw, hendedx.idx]
      rfl
    · rw [hmsgs, hstop.msgs]
    · simp only [List.length_append, List.length_cons] at hle
      omega
  -- the call has timed out, and `late` brings the byte
  · obtain ⟨w, hw, -, hafterw⟩ := run_ended hended post
    rw [List.foldlM_append] at ht
    obtain ⟨x, hrun, hmid⟩ := Run.bind_eq_ok ht
    have hrest : (mid ++ e :: post).foldlM s3c24xxI2cIrq x = .ok w := by
      rw [List.foldlM_append, hmid]
      simp only [bind, Except.bind, List.foldlM_cons, hu]
      exact hw
    obtain ⟨v, hv, htrace, hmsgs⟩ := leave_after hafterw after
    refine ⟨toS32 x.msgIdx, ⟨u, leave w, v, hu, hstop, hbefore, ?_, hv, htrace, ?_⟩,
      fun hlt => ?_, fun _ => ⟨x, by rw [transfer_eq hquirk, hrun], rfl⟩⟩
    · rw [hdoxfer, hrun]
      simp only [bind, Except.bind, hrest]
      rfl
    · rw [hmsgs, hstop.msgs]
    · rw [List.length_append] at hlt
      omega

/-- The end of a byte that is not acknowledged. -/
def refused : ByteEnd := ⟨1, 0⟩

/-- The first data byte of a write of two is refused. -/
theorem doxfer_refused_write :
    ∃ t, transfer .ok [twoBytes] (atRest 0) [acked] = .ok t ∧ ∃ ret,
      EndsRefused (s3c24xxI2cDoxfer (interrupted (fun _ => 0) (fun _ => none)
          [acked, refused, acked] [acked]) 0 [twoBytes] (atRest 0)) [] t refused [acked, acked]
        [acked] ret ∧
      (1 < 3 → ret = refusal t.state) ∧
      (3 ≤ 1 → ∃ t₀, transfer .ok [twoBytes] (atRest 0) [acked, refused, acked] = .ok t₀ ∧
        ret = toS32 t₀.msgIdx) :=
  ⟨_, rfl, doxfer_refused (fun _ => 0) (fun _ => none) 0 (atRest 0) [twoBytes]
    [acked, refused, acked] [acked] [acked] [acked] [acked, acked] refused (by simp) (by decide)
    (by decide) rfl rfl (by decide) rfl _ rfl (Or.inr rfl) twoBytes rfl rfl (by decide)⟩

/-- The address byte is refused right behind the timeout: 0 is returned. -/
theorem doxfer_refused_late :
    ¬ ∀ (irqs late pre post : List ByteEnd) (e : ByteEnd) (t : S3c24xxI2c) (m : I2cMsg),
      irqs ++ late = pre ++ e :: post → transfer .ok [twoBytes] (atRest 0) pre = .ok t →
      t.state = .start ∨ t.state = .write → curMsg t = .ok m → m.isIgnoreNak = false →
      has e.iicstat iicstatLastbit = true →
      EndsRefused (s3c24xxI2cDoxfer (interrupted (fun _ => 0) (fun _ => none) irqs late) 0
        [twoBytes] (atRest 0)) [] t e post [] (refusal t.state) := by
  intro h
  obtain ⟨u, w, v, -, -, -, hrun, -⟩ := h [] [refused] [] [] refused _ twoBytes rfl rfl
    (Or.inl rfl) rfl rfl (by decide)
  have hzero : ∃ w, s3c24xxI2cDoxfer (interrupted (fun _ => 0) (fun _ => none) [] [refused]) 0
      [twoBytes] (atRest 0) = .ok (0, w) := ⟨_, rfl⟩
  obtain ⟨w', hw'⟩ := hzero
  rw [hw', Except.ok.injEq, Prod.mk.injEq] at hrun
  exact absurd hrun.1 (by decide)

end S3c24xx
