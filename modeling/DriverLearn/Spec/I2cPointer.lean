import DriverLearn.Spec.I2cStep

/-!
# The message pointer of a transfer

While a transfer runs `i2c->msg` should be `&msgs[msg_idx]`, and nothing should go through
it once the STOP has cleared it. The driver keeps this for every sequence of interrupts,
unless it comes from writes to a read message with `I2C_M_NOSTART`: there it issues the
STOP and goes back to `retry_write` with the cleared pointer.

## Key results

- `irq_ptrInv`: one interrupt keeps the invariant
- `turnsAround_faults`: the change of direction is reached, and faults
- `msgInv_iff`: the exact condition on the message list
-/

namespace S3c24xx

open Word

/-- The pointer invariant: `i2c->msg` points into the array exactly while the transfer
    runs, and to message `msg_idx`. -/
structure MsgInv (num : Nat) (s : S3c24xxI2c) : Prop where
  length : s.msgs.length = num
  busy : s.state = .start ∨ s.state = .read ∨ s.state = .write →
    s.msg = some s.msgIdx ∧ s.msgIdx < s.msgNum ∧ s.msgNum = num
  stop : s.state = .stop → s.msg = none ∧ s.msgNum = 0

/-- Message `m` with index `r` is the first read message, is not message 0, and is to go
    on without a START. -/
structure TurnsAt (msgs : List I2cMsg) (r : Nat) (m : I2cMsg) : Prop where
  get : msgs[r]? = some m
  pos : 0 < r
  rd : m.isRd = true
  nostart : m.isNostart = true
  writes : ∀ w ∈ msgs.take r, w.isRd = false

def TurnsAround (msgs : List I2cMsg) : Prop := ∃ r m, TurnsAt msgs r m

/-- What carries `MsgInv` from one interrupt to the next: until the first read message is
    reached the array is the caller's and everything so far was a write. -/
structure PtrInv (msgs : List I2cMsg) (s : S3c24xxI2c) : Prop where
  inv : MsgInv msgs.length s
  active : s.state ≠ .idle
  start : s.state = .start → s.msgs = msgs ∧ s.msgPtr = 0 ∧
    ∀ w ∈ msgs.take s.msgIdx, w.isRd = false
  write : s.state = .write → s.msgs = msgs ∧
    ∀ w ∈ msgs.take (s.msgIdx + 1), w.isRd = false

variable {msgs : List I2cMsg} {s : S3c24xxI2c} {j : Nat} {m : I2cMsg}

/-- Without a read that continues without START nothing turns around. -/
theorem not_turnsAround (hplain : ∀ m ∈ msgs, ¬ (m.isRd = true ∧ m.isNostart = true)) :
    ¬ TurnsAround msgs := by
  rintro ⟨r, m, ht⟩
  exact hplain m (List.mem_of_getElem? ht.get) ⟨ht.rd, ht.nostart⟩

/-! ### One interrupt -/

theorem PtrInv.current (h : PtrInv msgs s) (hnum : msgs.length < 2147483648)
    (hstate : s.state = .start ∨ s.state = .read ∨ s.state = .write) :
    ∃ m, At s s.msgIdx m := by
  obtain ⟨hmsg, hidx, hlen⟩ := h.inv.busy hstate
  have hlength := h.inv.length
  have hlt : s.msgIdx < s.msgs.length := by omega
  exact ⟨s.msgs[s.msgIdx], hmsg, rfl, by omega, List.getElem?_eq_getElem hlt, by omega⟩

theorem stop_ptrInv (hlen : s.msgs.length = msgs.length) (ret : Int) :
    PtrInv msgs (clearIrqpend (s3c24xxI2cStop s ret)) where
  inv := ⟨hlen, fun h => by simp [clearIrqpend, s3c24xxI2cStop, s3c24xxI2cDisableIrq,
    s3c24xxI2cMasterComplete] at h, fun _ => ⟨rfl, rfl⟩⟩
  active := nofun
  start := nofun
  write := nofun

/-- The read side only moves within the array, or stops. -/
theorem readStep_ptrInv (h : At s j m) (hstate : s.state = .read)
    (hlen : s.msgs.length = msgs.length) :
    PtrInv msgs (clearIrqpend (readStep s j m)) := by
  -- everything but the STOP stays in READ and points to a message
  have hread : ∀ t : S3c24xxI2c, t.state = .read → t.msgs = s.msgs → t.msgNum = s.msgNum →
      t.msg = some t.msgIdx → t.msgIdx < s.msgs.length → PtrInv msgs (clearIrqpend t) := by
    intro t htstate htmsgs htnum htmsg htidx
    have hnum := h.num
    refine ⟨⟨?_, fun _ => ⟨htmsg, ?_, ?_⟩, fun hstop => ?_⟩, ?_, fun hst => ?_, fun hst => ?_⟩
    · simp only [clearIrqpend, htmsgs, hlen]
    · simp only [clearIrqpend]
      omega
    · simp only [clearIrqpend]
      omega
    all_goals simp [clearIrqpend, htstate] at *
  have hhere : s.msg = some s.msgIdx := by rw [h.msg, h.idx]
  have hlt : s.msgIdx < s.msgs.length := by rw [h.idx]; exact h.lt
  unfold readStep
  split
  · split
    · exact hread _ hstate rfl rfl hhere hlt
    · exact hread _ hstate rfl rfl hhere hlt
  · split
    · split
      · exact stop_ptrInv (s := { s with msgIdx := s.msgs.length - 1 }) hlen 0
      · next hlast =>
        have hj := h.lt
        exact hread (seek (j + 1) s) hstate rfl rfl rfl (by simp only [seek]; omega)
    · exact hread _ hstate rfl rfl hhere hlt

/-- The messages up to the one the loop comes to. -/
theorem Reaches.split {k : Nat} {m' : I2cMsg} (hj : j < msgs.length)
    (hreach : Reaches (j + 1) (msgs.drop (j + 1)) k m') :
    msgs[k]? = some m' ∧ j < k ∧
      ((∀ w ∈ msgs.take (j + 1), w.isRd = false) → ∀ w ∈ msgs.take k, w.isRd = false) := by
  obtain ⟨pre, post, hdrop, rfl, hpre⟩ := hreach
  have hall : msgs = msgs.take (j + 1) ++ (pre ++ m' :: post) := by
    rw [← hdrop, List.take_append_drop]
  have hfirst : (msgs.take (j + 1)).length = j + 1 := by
    rw [List.length_take]
    omega
  refine ⟨?_, by omega, ?_⟩
  · rw [hall, List.getElem?_append_right (by omega), hfirst,
      List.getElem?_append_right (by omega)]
    simp
  · intro hwrites w hw
    rw [hall, List.take_append, List.mem_append] at hw
    rcases hw with hw | hw
    · exact hwrites w (List.mem_of_mem_take hw)
    · rw [hfirst, List.take_append, List.mem_append] at hw
      rcases hw with hw | hw
      · exact (hpre w (List.mem_of_mem_take hw)).1
      · simp at hw

/-- Only writes stand in front of the message behind a write. -/
theorem writes_succ {k : Nat} (hget : msgs[k]? = some m) (hrd : m.isRd = false)
    (hpre : ∀ w ∈ msgs.take k, w.isRd = false) : ∀ w ∈ msgs.take (k + 1), w.isRd = false := by
  intro w hw
  rw [List.take_add_one, hget, Option.toList_some, List.mem_append] at hw
  rcases hw with hw | hw
  · exact hpre w hw
  · rw [List.mem_singleton.mp hw]
    exact hrd

/-- The write side stays in the array, stops, or turns around. -/
theorem writeStep_ptrInv (hturns : ¬ TurnsAround msgs) (h : At s j m) (hmsgs : s.msgs = msgs)
    (hstate : s.state = .write) (hwrites : ∀ w ∈ msgs.take (j + 1), w.isRd = false) :
    ∃ s', writeStep .ok s (turn j s.msgPtr m (s.msgs.drop (j + 1))) = .ok s' ∧
      PtrInv msgs (clearIrqpend s') := by
  have hsend : ∀ k q byte, k < s.msgs.length → (∀ w ∈ msgs.take (k + 1), w.isRd = false) →
      PtrInv msgs (clearIrqpend (sendByte k q byte s)) := by
    intro k q byte hk hpre
    have hnum := h.num
    refine ⟨⟨congrArg List.length hmsgs, fun _ => ⟨rfl, ?_, ?_⟩, fun hstop => ?_⟩, ?_,
      fun hst => ?_, fun _ => ⟨hmsgs, hpre⟩⟩
    · simp only [clearIrqpend, sendByte]
      omega
    · simp only [clearIrqpend, sendByte, hnum, hmsgs]
    all_goals simp [clearIrqpend, sendByte, hstate] at *
  -- the next byte of this message, or what follows it in the list
  unfold turn
  split
  · exact ⟨_, rfl, hsend _ _ _ h.lt hwrites⟩
  · have hreach := nextTurn_reaches (j + 1) (s.msgs.drop (j + 1))
    cases hturn : nextTurn (j + 1) (s.msgs.drop (j + 1)) with
    | data k q byte =>
      rw [hturn] at hreach
      -- a message without a START of its own: the ones it passes are writes
      obtain ⟨m', hreach, hrd, -⟩ := hreach
      obtain ⟨hget, -, hpre⟩ := hreach.split h.lt
      have hlt := (List.getElem?_eq_some_iff.mp hget).1
      rw [hmsgs] at hget hpre
      exact ⟨_, rfl, hsend k q byte hlt (writes_succ hget hrd (hpre hwrites))⟩
    | start k m' =>
      rw [hturn] at hreach
      obtain ⟨hget, -, hpre⟩ := hreach.1.split h.lt
      have hlt := (List.getElem?_eq_some_iff.mp hget).1
      have hnum := h.num
      refine ⟨_, writeStep_start s k m', ?_⟩
      refine ⟨⟨congrArg List.length hmsgs, fun _ => ⟨rfl, ?_, ?_⟩, fun hst => (by cases hst)⟩,
        fun hst => (by cases hst), fun _ => ⟨hmsgs, rfl, ?_⟩, fun hst => (by cases hst)⟩
      · simp only [clearIrqpend, startCondition, emit, seek, s3c24xxI2cEnableAck]
        omega
      · simp only [clearIrqpend, startCondition, emit, seek, s3c24xxI2cEnableAck, hnum, hmsgs]
      · rw [← hmsgs]
        exact hpre (by rwa [hmsgs])
    | stop =>
      exact ⟨_, rfl, stop_ptrInv (s := { s with msgIdx := s.msgs.length - 1 })
        (congrArg List.length hmsgs) 0⟩
    | fault =>
      rw [hturn] at hreach
      -- a read without a START would turn the transfer around
      obtain ⟨r, m', hreach, hrd, hnostart⟩ := hreach
      obtain ⟨hget, hr, hpre⟩ := hreach.split h.lt
      rw [hmsgs] at hget hpre
      exact absurd ⟨r, m', hget, by omega, hrd, hnostart, hpre hwrites⟩ hturns

theorem irq_ptrInv (hnum : msgs.length < 2147483648) (hturns : ¬ TurnsAround msgs)
    (s : S3c24xxI2c) (e : ByteEnd) (h : PtrInv msgs s) :
    ∃ s', s3c24xxI2cIrq s e = .ok s' ∧ PtrInv msgs s' := by
  cases hstate : s.state with
  | idle => exact absurd hstate h.active
  | stop =>
    -- an interrupt behind the STOP only switches the interrupt off
    obtain ⟨hmsg, hnone⟩ := h.inv.stop hstate
    refine ⟨_, irq_stop hstate e, ⟨h.inv.length, fun hst => ?_, fun _ => ⟨hmsg, hnone⟩⟩, ?_,
      fun hst => ?_, fun hst => ?_⟩
    all_goals simp [clearIrqpend, s3c24xxI2cDisableIrq, byteEnd, emit, hstate] at *
  | start =>
    obtain ⟨m, hat⟩ := h.current hnum (.inl hstate)
    obtain ⟨hmsgs, hptr, hwrites⟩ := h.start hstate
    rw [irq_start hat hstate hptr e]
    -- the address byte: refused, a read begins, or a write begins
    split
    · exact ⟨_, rfl, stop_ptrInv (s := byteEnd e s) h.inv.length eNxio⟩
    · split
      · exact ⟨_, rfl, readStep_ptrInv (hat.of_eq rfl rfl rfl rfl) rfl h.inv.length⟩
      · next hrd =>
        have hwrites' := writes_succ (hmsgs ▸ hat.get) (Bool.eq_false_iff.mpr hrd) hwrites
        have hat' : At { byteEnd e s with state := .write } s.msgIdx m := hat.of_eq rfl rfl rfl rfl
        obtain ⟨s', hs', hinv⟩ := writeStep_ptrInv hturns hat' hmsgs rfl hwrites'
        have hptr' : ({ byteEnd e s with state := .write } : S3c24xxI2c).msgPtr = 0 := hptr
        rw [hptr'] at hs'
        exact ⟨clearIrqpend s', by rw [← show (byteEnd e s).msgs = s.msgs from rfl, hs']; rfl, hinv⟩
  | write =>
    obtain ⟨m, hat⟩ := h.current hnum (.inr (.inr hstate))
    obtain ⟨hmsgs, hwrites⟩ := h.write hstate
    rw [irq_write hat hstate e]
    split
    · exact ⟨_, rfl, stop_ptrInv (s := byteEnd e s) h.inv.length eConnrefused⟩
    · obtain ⟨s', hs', hinv⟩ := writeStep_ptrInv hturns (hat.byteEnd e) hmsgs hstate hwrites
      exact ⟨clearIrqpend s', by rw [← show (byteEnd e s).msgs = s.msgs from rfl,
        ← show (byteEnd e s).msgPtr = s.msgPtr from rfl, hs']; rfl, hinv⟩
  | read =>
    obtain ⟨m, hat⟩ := h.current hnum (.inr (.inl hstate))
    rw [irq_read hat hstate e]
    refine ⟨_, rfl, readStep_ptrInv ((hat.byteEnd e).storeByte e.iicds) ?_ ?_⟩
    · rw [storeByte_eq (hat.byteEnd e)]
      exact hstate
    · rw [storeByte_eq (hat.byteEnd e), List.length_set]
      exact h.inv.length

theorem begun_ptrInv (m : I2cMsg) (ms : List I2cMsg) (s : S3c24xxI2c) :
    PtrInv (m :: ms) (begun m ms s) where
  inv := ⟨rfl, fun _ => ⟨rfl, Nat.succ_pos _, rfl⟩, nofun⟩
  active := nofun
  start := fun _ => ⟨rfl, rfl, nofun⟩
  write := nofun

/-! ### What an interrupt shows -/

/-- The events of an interrupt before the driver goes on: the end of the byte, and in READ
    the byte that is stored. -/
inductive Taken (e : ByteEnd) (s : S3c24xxI2c) : List Event → Prop where
  | sent (state : s.state = .start ∨ s.state = .write) :
      Taken e s [.byteEnd (has e.iicstat iicstatLastbit)]
  | stored (state : s.state = .read) (j p : Nat) :
      Taken e s [.byteEnd (has e.iicstat iicstatLastbit), .recv j p e.iicds]

/-- The controller behind an interrupt that lets the next byte begin. -/
def resumed (s : S3c24xxI2c) : Engine := if s.engine = .idle then .idle else .byte

/-- How an interrupt in START, WRITE or READ can go on: with the STOP, with a byte to send,
    with a START, or with a byte to receive. -/
inductive IrqEffect (e : ByteEnd) (s s' : S3c24xxI2c) : Prop where
  | stop (evs : List Event) (taken : Taken e s evs) (trace : s'.trace = s.trace ++ evs ++ [.stop])
      (state : s'.state = .stop) (num : s'.msgNum = 0) (engine : s'.engine = .idle)
  | data (k q : Nat) (byte : Byte) (from_state : s.state = .start ∨ s.state = .write)
      (trace : s'.trace = s.trace ++
        [.byteEnd (has e.iicstat iicstatLastbit)] ++ [.data k q byte])
      (state : s'.state = .write) (num : s'.msgNum = s.msgNum) (idx : s'.msgIdx = k)
      (le : s.msgIdx ≤ k) (engine : s'.engine = resumed s)
  | start (k : Nat) (stat : Reg) (addr : Byte) (from_state : s.state = .start ∨ s.state = .write)
      (trace : s'.trace = s.trace ++
        [.byteEnd (has e.iicstat iicstatLastbit)] ++ [.start k stat addr])
      (state : s'.state = .start) (num : s'.msgNum = s.msgNum) (idx : s'.msgIdx = k)
      (lt : s.msgIdx < k) (engine : s'.engine = .addr)
  | read (evs : List Event) (taken : Taken e s evs) (trace : s'.trace = s.trace ++ evs)
      (state : s'.state = .read) (num : s'.msgNum = s.msgNum) (engine : s'.engine = resumed s)

theorem engine_resumed (e : ByteEnd) (s : S3c24xxI2c) :
    (clearIrqpend (byteEnd e s)).engine = resumed s := by
  simp only [clearIrqpend, byteEnd, emit, resumed]
  by_cases hidle : s.engine = .idle <;> simp [hidle]

/-- The read side goes on with a byte to receive, or stops. -/
theorem readStep_effect {e : ByteEnd} {s t s' : S3c24xxI2c} {evs : List Event}
    (htaken : Taken e s evs) (htrace : t.trace = s.trace ++ evs) (hstate : t.state = .read)
    (hnum : t.msgNum = s.msgNum) (hengine : (clearIrqpend t).engine = resumed s)
    (hs' : s' = clearIrqpend (readStep t j m)) : IrqEffect e s s' := by
  -- whatever the read side does besides stopping leaves state and trace alone
  have hread : ∀ u : S3c24xxI2c, u.trace = t.trace → u.state = t.state → u.msgNum = t.msgNum →
      u.engine = t.engine → s' = clearIrqpend u → IrqEffect e s s' := by
    intro u h1 h2 h3 h4 hu
    refine .read evs htaken ?_ ?_ ?_ ?_
    · rw [hu]; exact h1.trans htrace
    · rw [hu]; exact h2.trans hstate
    · rw [hu]; exact h3.trans hnum
    · rw [hu, ← hengine, clearIrqpend, clearIrqpend, h4]
  have hstop : s' = clearIrqpend (finish t) → IrqEffect e s s' := by
    intro hu
    refine .stop evs htaken ?_ ?_ ?_ ?_
    · rw [hu, ← htrace]; rfl
    all_goals rw [hu]; rfl
  unfold readStep at hs'
  split at hs'
  · split at hs'
    · exact hread (s3c24xxI2cDisableAck t) rfl rfl rfl rfl hs'
    · exact hread t rfl rfl rfl rfl hs'
  · split at hs'
    · split at hs'
      · exact hstop hs'
      · exact hread (seek (j + 1) t) rfl rfl rfl rfl hs'
    · exact hread t rfl rfl rfl rfl hs'

/-- The write side sends a byte or a START, or stops. -/
theorem writeStep_effect {e : ByteEnd} {s s' : S3c24xxI2c} {p : Nat} (hidx : s.msgIdx = j)
    (hstate : s.state = .start ∨ s.state = .write) (hlt : j < msgs.length)
    (hrun : clearIrqpend <$> writeStep .ok { byteEnd e s with state := .write }
      (turn j p m (msgs.drop (j + 1))) = .ok s') : IrqEffect e s s' := by
  -- one data byte of message `k`, which is this one or a later one
  have hdata : ∀ k q byte, j ≤ k → clearIrqpend <$> writeStep .ok
      { byteEnd e s with state := .write } (.data k q byte) = .ok s' → IrqEffect e s s' := by
    intro k q byte hk hrun
    have heq := Except.ok.inj hrun
    have hengine := engine_resumed e s
    refine .data k q byte hstate ?_ ?_ ?_ ?_ (hidx ▸ hk) ?_
    all_goals rw [← heq]
    · rfl
    · rfl
    · rfl
    · rfl
    · exact hengine
  unfold turn at hrun
  split at hrun
  · exact hdata j p _ (Nat.le_refl j) hrun
  · have hreach := nextTurn_reaches (j + 1) (msgs.drop (j + 1))
    cases hturn : nextTurn (j + 1) (msgs.drop (j + 1)) with
    | data k q byte =>
      rw [hturn] at hreach hrun
      obtain ⟨m', hreach, -⟩ := hreach
      exact hdata k q byte (Nat.le_of_lt (hreach.split hlt).2.1) hrun
    | start k m' =>
      rw [hturn] at hreach hrun
      rw [writeStep_start] at hrun
      have heq := Except.ok.inj hrun
      refine .start k (m'.startStat ||| iicstatStart) m'.addrByte hstate ?_ ?_ ?_ ?_
        (hidx ▸ (hreach.1.split hlt).2.1) ?_
      all_goals rw [← heq]; rfl
    | stop =>
      rw [hturn] at hrun
      have heq := Except.ok.inj hrun
      refine .stop _ (.sent hstate) ?_ ?_ ?_ ?_
      all_goals rw [← heq]; rfl
    | fault =>
      rw [hturn] at hrun
      cases hrun

theorem irq_effect (hnum : msgs.length < 2147483648) (h : PtrInv msgs s)
    (hstop : s.state ≠ .stop) (e : ByteEnd) {s' : S3c24xxI2c}
    (hrun : s3c24xxI2cIrq s e = .ok s') : IrqEffect e s s' := by
  -- a byte that is refused stops the transfer in either state of a write
  have hnak : ∀ ret, s.state = .start ∨ s.state = .write →
      s' = clearIrqpend (s3c24xxI2cStop (byteEnd e s) ret) → IrqEffect e s s' := by
    intro ret hstate hs'
    refine .stop _ (.sent hstate) ?_ ?_ ?_ ?_
    all_goals rw [hs']; rfl
  cases hstate : s.state with
  | idle => exact absurd hstate h.active
  | stop => exact absurd hstate hstop
  | start =>
    obtain ⟨m, hat⟩ := h.current hnum (.inl hstate)
    obtain ⟨hmsgs, hptr, -⟩ := h.start hstate
    rw [irq_start hat hstate hptr] at hrun
    split at hrun
    · exact hnak _ (.inl hstate) (Except.ok.inj hrun).symm
    · split at hrun
      · exact readStep_effect (t := { byteEnd e s with state := .read }) (.sent (.inl hstate))
          rfl rfl rfl (engine_resumed e s) (Except.ok.inj hrun).symm
      · rw [hmsgs] at hrun
        exact writeStep_effect rfl (.inl hstate) (hmsgs ▸ hat.lt) hrun
  | write =>
    obtain ⟨m, hat⟩ := h.current hnum (.inr (.inr hstate))
    obtain ⟨hmsgs, -⟩ := h.write hstate
    rw [irq_write hat hstate] at hrun
    split at hrun
    · exact hnak _ (.inr hstate) (Except.ok.inj hrun).symm
    · have heta : byteEnd e s = { byteEnd e s with state := .write } := by
        simp only [byteEnd, emit, hstate]
      rw [hmsgs, heta] at hrun
      exact writeStep_effect rfl (.inr hstate) (hmsgs ▸ hat.lt) hrun
  | read =>
    obtain ⟨m, hat⟩ := h.current hnum (.inr (.inl hstate))
    rw [irq_read hat hstate] at hrun
    refine readStep_effect (t := storeByte e.iicds m (byteEnd e s))
      (.stored hstate s.msgIdx s.msgPtr) ?_ ?_ ?_ ?_ (Except.ok.inj hrun).symm
    all_goals rw [storeByte_eq (hat.byteEnd e)]
    · simp [byteEnd, emit]
    · exact hstate
    · rfl
    · exact engine_resumed e s

/-! ### The change of direction -/

/-- A state in which the driver writes message `j`, all its bytes before `p` sent. -/
structure Writing (msgs : List I2cMsg) (j p : Nat) (s : S3c24xxI2c) : Prop where
  here : ∃ m, At s j m ∧ m.isRd = false
  msgs : s.msgs = msgs
  ptr : s.msgPtr = p
  state : s.state = .write ∨ s.state = .start ∧ p = 0

/-- From a message before the change of direction the loop comes to another one. -/
theorem TurnsAt.before {r k : Nat} {rm mk : I2cMsg} (ht : TurnsAt msgs r rm) (hj : j < r)
    (hreach : Reaches (j + 1) (msgs.drop (j + 1)) k mk)
    (hmk : mk.isRd = false ∨ mk.isNostart = false) :
    msgs[k]? = some mk ∧ j < k ∧ k < r := by
  have hr := (List.getElem?_eq_some_iff.mp ht.get).1
  obtain ⟨hget, hjk, hwrites⟩ := hreach.split (by omega)
  refine ⟨hget, hjk, ?_⟩
  -- a message reached behind `r` would have the read among the writes in front of it
  by_contra hge
  have hne : r ≠ k := by
    intro heq
    rw [← heq, ht.get, Option.some.injEq] at hget
    rw [← hget, ht.rd, ht.nostart] at hmk
    exact absurd hmk (by decide)
  have hmem : rm ∈ msgs.take k := by
    apply List.mem_of_getElem? (i := r)
    rw [List.getElem?_take_of_lt (by omega), ht.get]
  have htake : ∀ w ∈ msgs.take (j + 1), w.isRd = false := by
    intro w hw
    exact ht.writes w (List.take_subset_take_left msgs (by omega) hw)
  have hrd := ht.rd
  rw [hwrites htake rm hmem] at hrd
  cases hrd

/-- One acknowledged byte further on the way to the change of direction: the fault, the
    next byte of the message, or a later message. -/
theorem irq_writing {r p : Nat} {rm : I2cMsg} (ht : TurnsAt msgs r rm) (hj : j < r)
    (h : Writing msgs j p s) :
    s3c24xxI2cIrq s acked = .error .nullMsg ∨
      ∃ s', s3c24xxI2cIrq s acked = .ok s' ∧
        ((∃ m, msgs[j]? = some m ∧ p < m.len.toNat ∧ Writing msgs j (p + 1) s') ∨
          ∃ k q, j < k ∧ k < r ∧ Writing msgs k q s') := by
  obtain ⟨m, hat, hwr⟩ := h.here
  have hack : nak acked.iicstat m = false := by rw [nak, lastbit_acked, Bool.false_and]
  -- in START and in WRITE alike the loop decides
  have hirq : s3c24xxI2cIrq s acked = clearIrqpend <$>
      writeStep .ok { byteEnd acked s with state := .write }
        (turn j p m (msgs.drop (j + 1))) := by
    rcases h.state with hst | ⟨hst, hp⟩
    · have heta : { byteEnd acked s with state := .write } = byteEnd acked s := by
        simp only [byteEnd, emit, hst]
      rw [irq_write hat hst, hack, heta, h.ptr, h.msgs]
      rfl
    · rw [irq_start hat hst (h.ptr.trans hp), hack, hwr, h.msgs, hp]
      rfl
  have hget : msgs[j]? = some m := h.msgs ▸ hat.get
  have hsend : ∀ k q byte mk, msgs[k]? = some mk → mk.isRd = false →
      Writing msgs k (q + 1) (clearIrqpend
        (sendByte k q byte { byteEnd acked s with state := .write })) := by
    intro k q byte mk hmk hmkwr
    rw [← h.msgs] at hmk
    exact ⟨⟨mk, ⟨rfl, rfl, hat.num, hmk, hat.bound⟩, hmkwr⟩, h.msgs, rfl, .inl rfl⟩
  rw [hirq, turn]
  by_cases hp : p < m.len.toNat
  · rw [if_pos hp]
    exact .inr ⟨_, rfl, .inl ⟨m, hget, hp, hsend j p (m.buf p) m hget hwr⟩⟩
  · rw [if_neg hp]
    have hreach := nextTurn_reaches (j + 1) (msgs.drop (j + 1))
    cases hturn : nextTurn (j + 1) (msgs.drop (j + 1)) with
    | fault => exact .inl rfl
    | stop =>
      -- message `r` is still to come
      rw [hturn] at hreach
      have hmem : rm ∈ msgs.drop (j + 1) := by
        apply List.mem_of_getElem? (i := r - (j + 1))
        rw [List.getElem?_drop, show j + 1 + (r - (j + 1)) = r by omega, ht.get]
      have hrd := ht.rd
      rw [(hreach rm hmem).1] at hrd
      cases hrd
    | data k q byte =>
      rw [hturn] at hreach
      obtain ⟨mk, hreach, hmkwr, -⟩ := hreach
      obtain ⟨hmk, hjk, hkr⟩ := ht.before hj hreach (.inl hmkwr)
      exact .inr ⟨_, rfl, .inr ⟨k, q + 1, hjk, hkr, hsend k q byte mk hmk hmkwr⟩⟩
    | start k mk =>
      rw [hturn] at hreach
      obtain ⟨hmk, hjk, hkr⟩ := ht.before hj hreach.1 (.inr hreach.2)
      have hmkwr : mk.isRd = false := by
        refine ht.writes mk (List.mem_of_getElem? (i := k) ?_)
        rw [List.getElem?_take_of_lt hkr, hmk]
      rw [← h.msgs] at hmk
      refine .inr ⟨_, by rw [writeStep_start]; rfl, .inr ⟨k, 0, hjk, hkr, ?_⟩⟩
      exact ⟨⟨mk, ⟨rfl, rfl, hat.num, hmk, hat.bound⟩, hmkwr⟩, h.msgs, rfl, .inr ⟨rfl, rfl⟩⟩

/-- Enough acknowledged bytes lead to the fault. The outer induction is on the messages
    that are left, the inner one on the bytes of the message. -/
theorem turnsAround_faults {r p : Nat} {rm : I2cMsg} (ht : TurnsAt msgs r rm) (hj : j < r)
    (h : Writing msgs j p s) :
    ∃ n, (List.replicate n acked).foldlM s3c24xxI2cIrq s = .error .nullMsg := by
  induction hleft : r - j using Nat.strongRecOn generalizing j p s with
  | ind left ihMsg =>
    obtain ⟨m, hat, -⟩ := h.here
    induction hbytes : m.len.toNat - p using Nat.strongRecOn generalizing p s m with
    | ind bytes ihByte =>
      have hget : msgs[j]? = some m := h.msgs ▸ hat.get
      rcases irq_writing ht hj h with hfault | ⟨s', hirq, hnext⟩
      · exact ⟨1, by simp [List.replicate, hfault, bind, Except.bind]⟩
      · -- one interrupt more than from the state behind it
        have hrest : ∃ n, (List.replicate n acked).foldlM s3c24xxI2cIrq s' = .error .nullMsg := by
          rcases hnext with ⟨m₀, hm₀, hp, hnext⟩ | ⟨k, q, hjk, hkr, hnext⟩
          · rw [hget, Option.some.injEq] at hm₀
            obtain ⟨m', hat', -⟩ := hnext.here
            have hm' : m' = m := by
              have hget' := hat'.get
              rw [hnext.msgs, hget, Option.some.injEq] at hget'
              exact hget'.symm
            exact ihByte (m.len.toNat - (p + 1)) (by rw [← hm₀] at hp; omega) hnext m
              (hm' ▸ hat') rfl
          · exact ihMsg (r - k) (by omega) hkr hnext rfl
        obtain ⟨n, hn⟩ := hrest
        refine ⟨n + 1, ?_⟩
        rw [List.replicate_succ, List.foldlM_cons, hirq]
        exact hn

/-! ### Whole transfers -/

/-- For every transfer without `QUIRK_POLL`: no sequence of interrupts breaks the pointer
    invariant or makes the driver go through a bad pointer, iff the list has no change of
    direction without a START. -/
theorem msgInv_iff (poll : S3c24xxI2c → Except Fault S3c24xxI2c) (msgs : List I2cMsg)
    (s : S3c24xxI2c) (hne : msgs ≠ []) (hnum : msgs.length < 2147483648)
    (hquirk : has s.quirks quirkPoll = false) :
    (∀ irqs, ∃ s', transfer poll msgs s irqs = .ok s' ∧ MsgInv msgs.length s') ↔
      ¬ TurnsAround msgs := by
  obtain ⟨m, ms, rfl⟩ := List.exists_cons_of_ne_nil hne
  constructor
  · rintro h ⟨r, rm, ht⟩
    have hwr : m.isRd = false := by
      refine ht.writes m (List.mem_of_getElem? (i := 0) ?_)
      rw [List.getElem?_take_of_lt ht.pos, List.getElem?_cons_zero]
    have hbegun : Writing (m :: ms) 0 0 (begun m ms s) :=
      ⟨⟨m, ⟨rfl, rfl, rfl, rfl, hnum⟩, hwr⟩, rfl, rfl, .inr ⟨rfl, rfl⟩⟩
    obtain ⟨n, hn⟩ := turnsAround_faults ht ht.pos hbegun
    obtain ⟨s', hok, -⟩ := h (List.replicate n acked)
    rw [transfer_eq hquirk, hn] at hok
    cases hok
  · intro hturns irqs
    obtain ⟨s', hok, hinv⟩ :=
      Run.foldlM_total (irq_ptrInv hnum hturns) irqs (begun_ptrInv m ms s)
    exact ⟨s', by rw [transfer_eq hquirk, hok], hinv.inv⟩

/-- An empty write to `addr`. -/
def emptyWrite (addr : BitVec 16) : I2cMsg := ⟨addr, 0, 0, fun _ => 0⟩

theorem msgInv_iff_two_writes :
    (∀ irqs, ∃ s', transfer .ok [emptyWrite 0x50, emptyWrite 0x51] (atRest 0) irqs = .ok s' ∧
      MsgInv 2 s') ↔ ¬ TurnsAround [emptyWrite 0x50, emptyWrite 0x51] :=
  msgInv_iff .ok _ (atRest 0) (by simp) (by decide) rfl

/-- A write and a read with `I2C_M_NOSTART`: the first acknowledge is followed by the STOP
    and an access through NULL. -/
theorem msgInv_fails_nostart_read :
    ¬ ∀ msgs : List I2cMsg, msgs ≠ [] → msgs.length < 2147483648 → ∀ irqs, ∃ s',
      transfer .ok msgs (atRest 0) irqs = .ok s' ∧ MsgInv msgs.length s' := by
  intro h
  obtain ⟨s', hok, -⟩ := h [emptyWrite 0x50, ⟨0x50, 0x4001, 1, fun _ => 0⟩] (by simp)
    (by decide) [acked]
  have hfault : transfer .ok [emptyWrite 0x50, ⟨0x50, 0x4001, 1, fun _ => 0⟩] (atRest 0) [acked]
      = .error .nullMsg := rfl
  rw [hfault] at hok
  cases hok

end S3c24xx
