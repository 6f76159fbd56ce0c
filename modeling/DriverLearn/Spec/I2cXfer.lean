import DriverLearn.Spec.I2cEnds

/-!
# Retries of a transfer

`s3c24xx_i2c_xfer` tries again when `s3c24xx_i2c_doxfer` returns `-EAGAIN`. That is what a
busy bus gives, before anything is written, and a transfer that has begun never gives it:
its return value is `msg_idx`, which counts messages or holds one of the codes of a missing
acknowledge. So a list is started at most once, and the attempts in front of the one that
starts it leave no trace.

## Key results

- `doxfer_attempted`: one attempt
- `xferFrom_attempts`: the loop
- `xfer_starts_once`: a whole call
-/

namespace S3c24xx

open Word

variable {s t : S3c24xxI2c} {m : I2cMsg} {ms : List I2cMsg}

/-! ### Everything around a call -/

/-- The result of `clk_enable`, and for each attempt the readings of `s3c24xx_i2c_set_master`,
    the hardware it polls and the interrupts until the wait is over, from there to
    `STATE_IDLE`, and in the delay behind it, in which the driver may also be suspended or
    resumed. -/
structure Surroundings where
  clkEnable : Int
  busy : Nat → Nat → Reg
  poll : Nat → PollEnv
  irqs : Nat → List ByteEnd
  late : Nat → List ByteEnd
  delay : Nat → List ByteEnd
  suspended : Nat → Bool

/-- What happens around the transfer, as its model takes it. -/
def Surroundings.env (w : Surroundings) : AdapEnv where
  clkEnable := w.clkEnable
  attempt k := interrupted (w.busy k) (w.poll k) (w.irqs k) (w.late k)
  delay k s := do
    let t ← (w.delay k).foldlM s3c24xxI2cIrq s
    return { t with suspended := w.suspended k }

/-! ### One attempt -/

/-- `msg_idx` never reads as `-EAGAIN`. -/
theorem toS32_msgIdx_ne (h : Live s ∨ Over s) : toS32 s.msgIdx ≠ eAgain := by
  obtain hlive | ⟨-, hidx, hbound⟩ := h
  · obtain ⟨m, hat⟩ := hlive.here
    have hlt := hat.lt
    have hbound := hat.bound
    rw [toS32_of_lt (by omega), eAgain]
    omega
  · obtain hidx | hidx | hidx := hidx
    · unfold toS32 eAgain
      split <;> omega
    · rw [hidx]
      decide
    · rw [hidx]
      decide

/-- What an attempt can come to: nothing is done, or the first START is issued. -/
inductive Attempted (busy : Nat → Reg) (s : S3c24xxI2c) : Int → S3c24xxI2c → Prop
  | suspended (flag : s.suspended = true) : Attempted busy s eIo s
  | busy (flag : s.suspended = false) (bus : s3c24xxI2cSetMaster busy ≠ 0) :
      Attempted busy s eAgain s
  | started {ret : Int} {t : S3c24xxI2c} (flag : s.suspended = false)
      (bus : s3c24xxI2cSetMaster busy = 0) (ret_ne : ret ≠ eAgain)
      (starts : firstStarts t = firstStarts s + 1) (idle : t.state = .idle) :
      Attempted busy s ret t

section

variable (hnum : (m :: ms).length < 2147483648)
variable (hplain : ∀ w ∈ m :: ms, ¬ (w.isRd = true ∧ w.isNostart = true))
variable {fuel : Nat} (hfuel : callBound (m :: ms) < fuel)
include hnum hplain hfuel

/-- A transfer that has begun, in either mode. -/
theorem doxfer_started (busy : Nat → Reg) (penv : PollEnv) (irqs late : List ByteEnd)
    (hflag : s.suspended = false) (hbus : s3c24xxI2cSetMaster busy = 0) :
    ∃ ret t, s3c24xxI2cDoxfer (interrupted busy penv irqs late) fuel (m :: ms) s = .ok (ret, t) ∧
      ret ≠ eAgain ∧ firstStarts t = firstStarts s + 1 ∧ t.state = .idle := by
  have hlive := begun_live hnum hplain s
  have hfirst := firstStarts_begun m ms s
  cases hquirk : has s.quirks quirkPoll with
  | true =>
    have hquirk' : has (begun m ms s).quirks quirkPoll = true := hquirk
    obtain ⟨n, t, hloop⟩ := pollRun_total penv (begun m ms s).iicstat _ (.inl hlive) hquirk'
    obtain ⟨hend, hkeeps, hleft⟩ := hloop.bounded (.inl hlive) hquirk'
    rw [callsLeft_begun hnum s] at hleft
    have hrun := hloop.pollLoop_eq (show n < fuel by omega)
    refine ⟨toS32 t.msgIdx, { t with state := .idle }, ?_, toS32_msgIdx_ne hend, ?_, rfl⟩
    · exact doxfer_poll fuel (interrupted busy penv irqs late) hflag hbus hquirk hkeeps.quirks hrun
    · rw [← hfirst, ← hkeeps.starts]
      rfl
  | false =>
    -- the value returned is read behind the wait, the state is left behind the late interrupts
    obtain ⟨t, hwait, ht, hkeeps, -⟩ := run_going irqs (.inl hlive)
    obtain ⟨u, hlate, -, hkeeps', -⟩ := run_going late ht
    refine ⟨toS32 t.msgIdx, leave u, ?_, toS32_msgIdx_ne (ht.imp_right And.left), ?_,
      leave_state u⟩
    · rw [doxfer_irq penv irqs late fuel m ms hflag hbus hquirk, hwait]
      simp only [bind, Except.bind, hlate]
      rfl
    · rw [firstStarts, leave_trace, ← hfirst, ← hkeeps.starts, ← hkeeps'.starts]
      rfl

/-- An attempt returns, with or without the bus. -/
theorem doxfer_attempted (busy : Nat → Reg) (penv : PollEnv) (irqs late : List ByteEnd)
    (s : S3c24xxI2c) :
    ∃ ret t, s3c24xxI2cDoxfer (interrupted busy penv irqs late) fuel (m :: ms) s = .ok (ret, t) ∧
      Attempted busy s ret t := by
  cases hflag : s.suspended with
  | true => exact ⟨eIo, s, by rw [s3c24xxI2cDoxfer, if_pos hflag], .suspended hflag⟩
  | false =>
    by_cases hbus : s3c24xxI2cSetMaster busy = 0
    · obtain ⟨ret, t, hrun, hret, hstarts, hidle⟩ :=
        doxfer_started hnum hplain hfuel busy penv irqs late hflag hbus
      exact ⟨ret, t, hrun, .started hflag hbus hret hstarts hidle⟩
    · have hbus' : s3c24xxI2cSetMaster (interrupted busy penv irqs late).busy ≠ 0 := hbus
      refine ⟨eAgain, s, ?_, .busy hflag hbus⟩
      rw [s3c24xxI2cDoxfer, hflag, if_neg (by decide), if_pos hbus']

end

/-! ### The loop -/

/-- In `STATE_IDLE` an interrupt is acknowledged and nothing else. -/
theorem delay_idle (irqs : List ByteEnd) (hidle : s.state = .idle) :
    ∃ t, irqs.foldlM s3c24xxI2cIrq s = .ok t ∧ t.state = .idle ∧ firstStarts t = firstStarts s := by
  induction irqs generalizing s with
  | nil => exact ⟨s, rfl, hidle, rfl⟩
  | cons e es ih =>
    have hirq : (clearIrqpend (byteEnd e s)).state = .idle := hidle
    have hstarts : firstStarts (clearIrqpend (byteEnd e s)) = firstStarts s :=
      firstStarts_eq rfl rfl
    obtain ⟨t, hrun, ht, hsame⟩ := ih hirq
    refine ⟨t, ?_, ht, hsame.trans hstarts⟩
    rw [List.foldlM_cons, irq_idle hidle]
    exact hrun

/-- The attempts from number `k` on, in state `s`: the value returned and the state left. -/
inductive Attempts (w : Surroundings) (retries : Int) :
    Nat → S3c24xxI2c → List Attempt → Int → S3c24xxI2c → Prop
  | exhausted {k : Nat} {s : S3c24xxI2c} (count : ¬ k < retries) :
      Attempts w retries k s [] eRemoteio s
  | last {k : Nat} {s t : S3c24xxI2c} {ret : Int} (count : k < retries)
      (call : Attempted (w.busy k) s ret t) (ret_ne : ret ≠ eAgain) :
      Attempts w retries k s [⟨k, s, ret, t⟩] ret t
  | again {k : Nat} {s u t : S3c24xxI2c} {calls : List Attempt} {ret : Int} (count : k < retries)
      (flag : s.suspended = false) (bus : s3c24xxI2cSetMaster (w.busy k) ≠ 0)
      (idle : s.state = .idle → u.state = .idle) (starts : firstStarts u = firstStarts s)
      (rest : Attempts w retries (k + 1) u calls ret t) :
      Attempts w retries k s (⟨k, s, eAgain, s⟩ :: calls) ret t

/-- The attempts from attempt `k` on, by induction on how many are left. -/
theorem xferFrom_attempts (hnum : (m :: ms).length < 2147483648)
    (hplain : ∀ w ∈ m :: ms, ¬ (w.isRd = true ∧ w.isNostart = true)) {fuel : Nat}
    (hfuel : callBound (m :: ms) < fuel) (w : Surroundings) (retries : Int) (k : Nat)
    (s : S3c24xxI2c) (hidle : s.state = .idle) (log : List XferCall) :
    ∃ ret t calls,
      xferFrom w.env fuel retries (m :: ms) k s log =
        .ok (ret, t, log ++ calls.map .doxfer ++ [.clkDisable]) ∧
      Attempts w retries k s calls ret t := by
  rw [xferFrom]
  by_cases hcount : k < retries
  · obtain ⟨ret, t, hcall, hattempted⟩ :=
      doxfer_attempted hnum hplain hfuel (w.busy k) (w.poll k) (w.irqs k) (w.late k) s
    have hcall' : s3c24xxI2cDoxfer (w.env.attempt k) fuel (m :: ms) s = .ok (ret, t) := hcall
    simp only [hcount, if_true, hcall']
    by_cases hagain : ret = eAgain
    · subst hagain
      -- only a busy bus gives this, and the state is the one before
      obtain ⟨hflag, hbus, rfl⟩ : s.suspended = false ∧ s3c24xxI2cSetMaster (w.busy k) ≠ 0 ∧
          t = s := by
        cases hattempted with
        | busy flag bus => exact ⟨flag, bus, rfl⟩
        | started flag bus ret_ne => exact absurd rfl ret_ne
      obtain ⟨u, hdelay, hu, hstarts⟩ := delay_idle (w.delay k) hidle
      have hdelay' : w.env.delay k t = .ok { u with suspended := w.suspended k } := by
        simp only [Surroundings.env, hdelay, bind, Except.bind, pure, Except.pure]
      obtain ⟨ret, t', calls, hrest, hattempts⟩ :=
        xferFrom_attempts hnum hplain hfuel w retries (k + 1) { u with suspended := w.suspended k }
          hu (log ++ [.doxfer ⟨k, t, eAgain, t⟩])
      refine ⟨ret, t', ⟨k, t, eAgain, t⟩ :: calls, ?_, ?_⟩
      · simp only [ne_eq, not_true_eq_false, if_false, hdelay']
        rw [hrest]
        simp only [List.map_cons, List.append_assoc, List.cons_append, List.nil_append]
      · exact .again (u := { u with suspended := w.suspended k }) hcount hflag hbus (fun _ => hu)
          hstarts hattempts
    · refine ⟨ret, t, [⟨k, s, ret, t⟩], ?_, .last hcount hattempted hagain⟩
      simp only [hagain, ne_eq, not_false_eq_true, if_true, List.map_cons, List.map_nil]
  · simp only [hcount, if_false]
    exact ⟨eRemoteio, s, [], by simp, .exhausted hcount⟩
termination_by (retries - k).toNat

/-! ### A whole call -/

/-- The attempt came back from a busy bus. -/
def Attempt.Unacquired (w : Surroundings) (a : Attempt) : Prop :=
  a.before.suspended = false ∧ s3c24xxI2cSetMaster (w.busy a.retry) ≠ 0 ∧ a.ret = eAgain

/-- An attempt of a suspended driver, or on a busy bus, writes nothing. -/
def Attempt.Unwritten (w : Surroundings) (a : Attempt) : Prop :=
  a.before.suspended = true ∨ s3c24xxI2cSetMaster (w.busy a.retry) ≠ 0 → a.after = a.before

/-- At most `adap->retries` attempts, and all but the last one found the bus busy. -/
structure Retried (w : Surroundings) (retries : Int) (calls : List Attempt) : Prop where
  most : calls.length ≤ retries.toNat
  again : calls.Pairwise fun a _ => a.Unacquired w
  unwritten : ∀ a ∈ calls, a.Unwritten w

variable {w : Surroundings} {retries ret : Int} {k : Nat} {calls : List Attempt}

/-- There are no more attempts than retries. -/
theorem Attempts.length_le (h : Attempts w retries k s calls ret t) :
    calls.length ≤ (retries - k).toNat := by
  induction h with
  | exhausted count => exact Nat.zero_le _
  | last count call ret_ne =>
    rw [List.length_singleton]
    omega
  | again count flag bus idle starts rest ih =>
    rw [List.length_cons]
    omega

/-- Only the last attempt gets the bus. -/
theorem Attempts.pairwise (h : Attempts w retries k s calls ret t) :
    calls.Pairwise fun a _ => a.Unacquired w := by
  induction h with
  | exhausted count => exact .nil
  | last count call ret_ne => exact List.pairwise_singleton _ _
  | again count flag bus idle starts rest ih => exact .cons (fun _ _ => ⟨flag, bus, rfl⟩) ih

/-- Where the bus is not acquired no register is written. -/
theorem Attempts.unwritten (h : Attempts w retries k s calls ret t) :
    ∀ a ∈ calls, a.Unwritten w := by
  induction h with
  | exhausted count =>
    intro a ha
    cases ha
  | last count call ret_ne =>
    intro a ha
    rw [List.mem_singleton.mp ha]
    cases call with
    | suspended flag => exact fun _ => rfl
    | busy flag bus => exact fun _ => rfl
    | started flag bus hret starts idle =>
      rintro (hflag | hbus)
      · rw [flag] at hflag
        cases hflag
      · exact absurd bus hbus
  | again count flag bus idle starts rest ih =>
    rintro a (_ | ⟨_, ha⟩)
    · exact fun _ => rfl
    · exact ih a ha

/-- The attempt that begins is the last one. -/
theorem Attempts.starts_le (h : Attempts w retries k s calls ret t) :
    firstStarts t ≤ firstStarts s + 1 := by
  induction h with
  | exhausted count => omega
  | last count call ret_ne =>
    cases call with
    | suspended flag => omega
    | busy flag bus => omega
    | started flag bus hret starts idle => omega
  | again count flag bus idle starts rest ih => omega

/-- The attempts end in IDLE. -/
theorem Attempts.idle (h : Attempts w retries k s calls ret t) (hidle : s.state = .idle) :
    t.state = .idle := by
  induction h with
  | exhausted count => exact hidle
  | last count call ret_ne =>
    cases call with
    | suspended flag => exact hidle
    | busy flag bus => exact hidle
    | started flag bus hret starts idle => exact idle
  | again count flag bus idle starts rest ih => exact ih (idle hidle)

/-- For every list of messages without a read that goes on without START, every number of
    retries, result of `clk_enable` and surroundings, in either mode: the list is started at
    most once, a further attempt is made only behind a busy bus, attempts that do not begin
    write nothing, and `clk_disable` is called once on the way out, if `clk_enable` worked.
    The driver is in `STATE_IDLE` before and behind. -/
theorem xfer_starts_once (hnum : (m :: ms).length < 2147483648)
    (hplain : ∀ w ∈ m :: ms, ¬ (w.isRd = true ∧ w.isNostart = true)) {fuel : Nat}
    (hfuel : callBound (m :: ms) < fuel) (w : Surroundings) (retries : Int) (s : S3c24xxI2c)
    (hidle : s.state = .idle) :
    ∃ ret t calls,
      s3c24xxI2cXfer w.env fuel retries (m :: ms) s =
        .ok (ret, t, .clkEnable w.clkEnable ::
          if w.clkEnable = 0 then calls.map .doxfer ++ [.clkDisable] else []) ∧
      Retried w retries calls ∧ firstStarts t ≤ firstStarts s + 1 ∧ t.state = .idle := by
  rw [s3c24xxI2cXfer]
  by_cases hclk : w.clkEnable = 0
  · obtain ⟨ret, t, calls, hrun, hcalls⟩ :=
      xferFrom_attempts hnum hplain hfuel w retries 0 s hidle [.clkEnable w.clkEnable]
    have hclk' : w.env.clkEnable = 0 := hclk
    refine ⟨ret, t, calls, ?_, ⟨?_, hcalls.pairwise, hcalls.unwritten⟩, hcalls.starts_le,
      hcalls.idle hidle⟩
    · simp only [hclk', ne_eq, not_true_eq_false, if_false]
      rw [← hclk', ← show w.clkEnable = w.env.clkEnable from rfl, hrun, hclk]
      rfl
    · have hlen := hcalls.length_le
      omega
  -- without the clock there is no attempt, and nothing to disable
  · have hclk' : w.env.clkEnable ≠ 0 := hclk
    refine ⟨w.clkEnable, s, [], ?_, ⟨Nat.zero_le _, .nil, by simp⟩, by omega, hidle⟩
    simp only [hclk', ne_eq, not_false_eq_true, if_true, if_neg hclk]
    rfl

/-- The bus is busy at the first attempt; at the second one all bytes are acknowledged. -/
def busyOnce : Surroundings where
  clkEnable := 0
  busy k _ := if k = 0 then iicstatBusbusy else 0
  poll _ _ := none
  irqs _ := [acked, acked]
  late _ := []
  delay _ := []
  suspended _ := false

/-- The bus is busy at the first attempt. -/
theorem xfer_starts_once_busy :
    ∃ ret t calls,
      s3c24xxI2cXfer busyOnce.env 4 2 [regNumber] (atRest 0) =
        .ok (ret, t, .clkEnable 0 :: (calls.map .doxfer ++ [.clkDisable])) ∧
      Retried busyOnce 2 calls ∧ firstStarts t ≤ firstStarts (atRest 0) + 1 ∧ t.state = .idle :=
  xfer_starts_once (by decide) (by decide) (by decide) busyOnce 2 (atRest 0) rfl

end S3c24xx
