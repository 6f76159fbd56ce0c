import DriverLearn.Spec.I2cIsolation

/-!
# A slave on the bus

The hardware behind a transfer that runs to its end: setting START, or clearing IRQPEND,
puts a byte on the bus, and at its end IRQPEND is set. LASTBIT tells whether the byte was
acknowledged: by the slave if it was sent, by ACKEN if it was received. The same slave
serves a transfer driven by interrupts and a polled one, so that the two can be compared
by what they show on the bus.

## Key results

- `isAck_eq`: what `is_ack` sees of a byte
- `irq_served`: one interrupt keeps the count of the bytes
- `interrupts_served`: a transfer driven by interrupts ends with the STOP, every byte used
-/

namespace S3c24xx

open Word

/-! ### The bus -/

/-- What a slave does: which bytes on the bus it acknowledges, and which it returns. -/
structure Slave where
  ack : Nat → Bool
  byte : Nat → Byte

/-- The bytes that have ended. -/
def ends (trace : List Event) : Nat :=
  trace.countP fun
    | .byteEnd _ => true
    | _ => false

/-- The lower mode bit: set for a master that transmits. -/
def iicstatTransmit : Reg := 1 <<< 6

/-- The byte on the bus comes from the slave. -/
def receiving (s : S3c24xxI2c) : Bool := s.engine == .byte && !has s.iicstat iicstatTransmit

/-- How the byte on the bus ends. -/
def Slave.answer (v : Slave) (s : S3c24xxI2c) : ByteEnd :=
  if receiving s then
    { iicstat := if has s.iiccon iicconAcken then 0 else iicstatLastbit
      iicds := v.byte (ends s.trace) }
  else
    { iicstat := if v.ack (ends s.trace) then 0 else iicstatLastbit
      iicds := s.iicds }

/-- A byte is on the bus. -/
def inFlight (s : S3c24xxI2c) : Bool := s.engine == .addr || s.engine == .byte

/-- The bus as the polling functions see it. `ready` says at which of their register reads the
    byte on the bus has ended. -/
def Slave.poll (v : Slave) (ready : Nat → Bool) : PollEnv := fun s =>
  if inFlight s && ready s.polls then some (v.answer s) else none

/-- From read `i` on no byte is still on the bus at more than `n` reads. -/
def LastsFrom (i n : Nat) (ready : Nat → Bool) : Prop := ∀ j ≥ i, ∃ k ≤ n, ready (j + k) = true

/-- No byte is still on the bus at more than `n` register reads. -/
def Lasts (n : Nat) (ready : Nat → Bool) : Prop := LastsFrom 0 n ready

/-- Every byte ends before the next read. -/
def atOnce : Nat → Bool := fun _ => true

/-- The interrupts of a transfer: one for each byte, until no byte is on the bus. -/
def Slave.interrupts (v : Slave) : (fuel : Nat) → S3c24xxI2c → Except Fault S3c24xxI2c
  | 0, _ => .error .outOfFuel
  | fuel + 1, s =>
    if inFlight s then do
      let s ← s3c24xxI2cIrq s (v.answer s)
      v.interrupts fuel s
    else
      .ok s

/-- The surroundings of a transfer with the slave. -/
def Slave.env (v : Slave) (ready : Nat → Bool) (busy : Nat → Reg) (fuel : Nat) : XferEnv where
  busy := busy
  poll := v.poll ready
  wait := v.interrupts fuel
  late := .ok

/-- What the bus shows of a transfer. -/
inductive BusEvent where
  | start (addr : Byte)
  | byte (byte : Byte)
  | stop
  deriving DecidableEq, Repr

def Event.bus : Event → Option BusEvent
  | .start _ _ addr => some (.start addr)
  | .data _ _ byte => some (.byte byte)
  | .recv _ _ byte => some (.byte byte)
  | .stop => some .stop
  | .byteEnd _ => none

/-- What can be seen on the bus of a trace. -/
def bus (trace : List Event) : List BusEvent := trace.filterMap Event.bus

/-- The same driver with `QUIRK_POLL` set. -/
def polled (s : S3c24xxI2c) : S3c24xxI2c := { s with quirks := s.quirks ||| quirkPoll }

/-- The polled transfer and the one driven by interrupts agree: the same STARTs, data bytes
    and STOP, as many bytes on the bus, the same buffers and the same return value. -/
def Agree (v : Slave) (ready : Nat → Bool) (busy : Nat → Reg) (msgs : List I2cMsg)
    (s : S3c24xxI2c) : Prop :=
  ∃ bound, ∀ fuel ≥ bound, ∃ ret sp si,
    s3c24xxI2cDoxfer (v.env ready busy fuel) fuel msgs (polled s) = .ok (ret, sp) ∧
    s3c24xxI2cDoxfer (v.env ready busy fuel) fuel msgs s = .ok (ret, si) ∧
    bus sp.trace = bus si.trace ∧ ends sp.trace = ends si.trace ∧ sp.msgs = si.msgs

/-- The bytes of two parts of a trace. -/
theorem ends_append (xs ys : List Event) : ends (xs ++ ys) = ends xs + ends ys :=
  List.countP_append

/-- The bus of two parts of a trace. -/
theorem bus_append (xs ys : List Event) : bus (xs ++ ys) = bus xs ++ bus ys :=
  List.filterMap_append

/-! ### The end of a byte -/

variable {v : Slave} {ready : Nat → Bool} {s s' : S3c24xxI2c} {j : Nat} {m : I2cMsg}

/-- The state at the end of the byte on the bus. -/
def Slave.ended (v : Slave) (s : S3c24xxI2c) : S3c24xxI2c :=
  if inFlight s then byteEnd (v.answer s) s else s

/-- The byte is no longer under way. -/
theorem not_inFlight_ended (v : Slave) (s : S3c24xxI2c) : inFlight (v.ended s) = false := by
  rw [Slave.ended]
  cases hflight : inFlight s with
  | false => exact hflight
  | true =>
    have hidle : ¬ s.engine = .idle := by
      intro hidle
      simp [inFlight, hidle] at hflight
    simp [inFlight, byteEnd, emit, hidle]

/-- The readings are counted on their own. -/
theorem ended_polls (v : Slave) (s : S3c24xxI2c) (n : Nat) :
    v.ended { s with polls := n } = { v.ended s with polls := n } := by
  rw [Slave.ended, Slave.ended, show inFlight { s with polls := n } = inFlight s from rfl]
  split <;> rfl

/-- A read while no byte is on the bus changes nothing. -/
theorem pollRead_of_held (h : inFlight s = false) :
    pollRead (v.poll ready) s = { s with polls := s.polls + 1 } := by
  rw [pollRead, Slave.poll, h]
  rfl

/-- Neither does one that finds the byte still on the bus. -/
theorem pollRead_of_waits (h : ready s.polls = false) :
    pollRead (v.poll ready) s = { s with polls := s.polls + 1 } := by
  rw [pollRead, Slave.poll, h, Bool.and_false]
  rfl

/-- A read that sees the end of the byte. -/
theorem pollRead_eq (v : Slave) (h : ready s.polls = true) :
    pollRead (v.poll ready) s = { v.ended s with polls := s.polls + 1 } := by
  cases hflight : inFlight s with
  | false => rw [pollRead_of_held hflight, Slave.ended, hflight]; rfl
  | true =>
    rw [pollRead, Slave.poll, hflight, h, Bool.and_self, if_pos rfl, Slave.ended, hflight,
      if_pos rfl]
    rfl

/-- The byte has ended and was acknowledged. -/
def acknowledged (s : S3c24xxI2c) : Bool :=
  has s.iiccon iicconIrqpend && !has s.iicstat iicstatLastbit

/-- IRQPEND is not that of an earlier byte while a byte is on the bus. -/
def Fresh (s : S3c24xxI2c) : Prop := inFlight s = true → has s.iiccon iicconIrqpend = false

/-- Behind a clear no pending interrupt is left over. -/
theorem fresh_clearIrqpend (s : S3c24xxI2c) : Fresh (clearIrqpend s) :=
  fun _ => has_clear_self _ _

/-- A reading leaves no IRQPEND behind to a byte that goes on. -/
theorem Fresh.pollRead (h : Fresh s) (v : Slave) (ready : Nat → Bool) :
    Fresh (pollRead (v.poll ready) s) := by
  cases hready : ready s.polls with
  | false =>
    rw [pollRead_of_waits hready]
    exact h
  | true =>
    rw [pollRead_eq v hready]
    intro hflight
    rw [show inFlight { v.ended s with polls := s.polls + 1 } = inFlight (v.ended s) from rfl,
      not_inFlight_ended] at hflight
    cases hflight

/-- A run of tries that saw the end of the byte of `s`, and whether it was acknowledged. -/
def Saw (v : Slave) (s : S3c24xxI2c) (res : Bool × S3c24xxI2c) : Prop :=
  ∃ n ≥ s.polls, res = (acknowledged (v.ended s), { v.ended s with polls := n })

/-- With the engine held, the first try decides. -/
theorem isAckTries_held (v : Slave) (ready : Nat → Bool) (h : inFlight s = false) (tries : Nat) :
    ∃ n ≥ s.polls,
      isAckTries (v.poll ready) (tries + 1) s = (acknowledged s, { s with polls := n }) := by
  induction tries generalizing s with
  | zero =>
    have h1 : inFlight { s with polls := s.polls + 1 } = false := h
    simp only [isAckTries, pollRead_of_held h, pollRead_of_held h1, acknowledged]
    cases has s.iiccon iicconIrqpend with
    | false => exact ⟨s.polls + 1, by omega, rfl⟩
    | true => cases has s.iicstat iicstatLastbit <;> exact ⟨s.polls + 1 + 1, by omega, rfl⟩
  -- one try reads the register twice, and nothing moves
  | succ tries ih =>
    have h1 : inFlight { s with polls := s.polls + 1 } = false := h
    have h2 : inFlight { s with polls := s.polls + 1 + 1 } = false := h
    obtain ⟨n1, hle1, hn1⟩ := ih h1
    obtain ⟨n2, hle2, hn2⟩ := ih h2
    simp only at hle1 hle2
    rw [isAckTries]
    simp only [pollRead_of_held h, pollRead_of_held h1]
    rw [hn1, hn2]
    simp only [acknowledged]
    cases has s.iiccon iicconIrqpend with
    | false => exact ⟨n1, by omega, rfl⟩
    | true =>
      cases has s.iicstat iicstatLastbit with
      | false => exact ⟨s.polls + 1 + 1, by omega, rfl⟩
      | true => exact ⟨n2, by omega, rfl⟩

/-- The tries of `is_ack` from one on whose first read sees the end of the byte. -/
theorem isAckTries_ended (v : Slave) (h : ready s.polls = true) (tries : Nat) :
    Saw v s (isAckTries (v.poll ready) (tries + 1) s) := by
  have hpolls : (v.ended s).polls = s.polls := by rw [Slave.ended]; split <;> rfl
  have hfirst : pollRead (v.poll ready) s = pollRead (v.poll ready) (v.ended s) := by
    rw [pollRead_eq v h, pollRead_of_held (not_inFlight_ended v s), hpolls]
  rw [isAckTries, hfirst, ← isAckTries]
  obtain ⟨n, hle, hn⟩ := isAckTries_held v ready (not_inFlight_ended v s) tries
  exact ⟨n, hpolls ▸ hle, hn⟩

/-- The tries in which the byte ends, when IRQPEND waits for it. -/
theorem isAckTries_waits (v : Slave) {k : Nat} (hpend : has s.iiccon iicconIrqpend = false)
    (hready : ready (s.polls + k) = true) {tries : Nat} (hk : k < tries) :
    Saw v s (isAckTries (v.poll ready) tries s) := by
  obtain ⟨tries, rfl⟩ : ∃ t, tries = t + 1 := ⟨tries - 1, by omega⟩
  induction k generalizing s tries with
  | zero => exact isAckTries_ended v hready tries
  | succ k ih =>
    cases hnow : ready s.polls with
    | true => exact isAckTries_ended v hnow tries
    | false =>
      obtain ⟨tries, rfl⟩ : ∃ t, tries = t + 1 := ⟨tries - 1, by omega⟩
      obtain ⟨n, hle, hn⟩ := ih (s := { s with polls := s.polls + 1 }) hpend
        (by rw [← hready]; congr 1; simp only; omega) tries (by omega)
      rw [ended_polls] at hn
      refine ⟨n, Nat.le_of_succ_le hle, ?_⟩
      rw [isAckTries, pollRead_of_waits hnow]
      simp only [hpend, Bool.false_eq_true, if_false]
      exact hn

/-- The tries see the end of the byte if it does not outlast them. Where IRQPEND is that of an
    earlier byte, the byte has to end before the second read. -/
theorem isAckTries_eq (v : Slave) {n tries : Nat} (hready : ∃ k ≤ n, ready (s.polls + k) = true)
    (hn : n < tries + 2) (hfresh : n < 2 ∨ Fresh s) :
    Saw v s (isAckTries (v.poll ready) (tries + 2) s) := by
  cases hflight : inFlight s with
  | false =>
    rw [Saw, Slave.ended, hflight]
    exact isAckTries_held v ready hflight (tries + 1)
  | true =>
    obtain ⟨k, hk, hready⟩ := hready
    cases hpend : has s.iiccon iicconIrqpend with
    | false => exact isAckTries_waits v hpend hready (by omega)
    | true =>
      have hshort : n < 2 := by
        rcases hfresh with hshort | hfresh
        · exact hshort
        · rw [hfresh hflight] at hpend
          cases hpend
      cases hnow : ready s.polls with
      | true => exact isAckTries_ended v hnow (tries + 1)
      -- the byte ends before IICSTAT is read
      | false =>
        have hone : k = 1 := by
          rcases Nat.eq_zero_or_pos k with rfl | hpos
          · rw [Nat.add_zero, hnow] at hready
            cases hready
          · omega
        subst hone
        have hheld : inFlight { v.ended s with polls := s.polls + 1 + 1 } = false :=
          not_inFlight_ended v s
        have hpended : has (v.ended s).iiccon iicconIrqpend = true := by
          rw [Slave.ended, if_pos hflight]
          exact has_set_self _ (by decide)
        obtain ⟨i, hle, hi⟩ := isAckTries_held v ready hheld tries
        simp only at hle
        rw [Saw, isAckTries, pollRead_of_waits hnow]
        simp only [hpend, if_true]
        rw [pollRead_eq (s := { s with polls := s.polls + 1 }) v hready, ended_polls]
        simp only [acknowledged, hpended, Bool.true_and]
        cases hbit : has (v.ended s).iicstat iicstatLastbit with
        | false => exact ⟨s.polls + 1 + 1, by omega, rfl⟩
        | true =>
          simp only [acknowledged, hpended, hbit, Bool.not_true, Bool.and_false] at hi
          exact ⟨i, by omega, hi⟩

/-- `is_ack` sees the end of the byte on the bus, and whether it was acknowledged. -/
theorem isAck_eq (v : Slave) {n : Nat} (hready : ∃ k ≤ n, ready (s.polls + k) = true)
    (hn : n < 50) (hfresh : n < 2 ∨ Fresh s) : Saw v s (isAck (v.poll ready) s) := by
  rw [isAck, show 50 = 48 + 2 from rfl]
  exact isAckTries_eq v hready hn hfresh

/-! ### Counting the bytes -/

/-- The STARTs and bytes that the driver moved. -/
def moved (trace : List Event) : Nat :=
  (bus trace).countP fun
    | .stop => false
    | _ => true

/-- The STARTs. -/
def starts (trace : List Event) : Nat :=
  (bus trace).countP fun
    | .start _ => true
    | _ => false

theorem moved_append (xs ys : List Event) : moved (xs ++ ys) = moved xs + moved ys := by
  rw [moved, bus_append, List.countP_append, moved, moved]

theorem starts_append (xs ys : List Event) : starts (xs ++ ys) = starts xs + starts ys := by
  rw [starts, bus_append, List.countP_append, starts, starts]

/-- In READ the byte on the bus is one that no event of the driver has announced. -/
def reading (s : S3c24xxI2c) : Nat := if s.state = .read then 1 else 0

/-- What holds between the interrupts of a transfer: a byte is on the bus until the STOP, and
    every byte that ended was used. The last two fields bound the STARTs by the place of the
    first read. -/
structure Served (msgs : List I2cMsg) (s : S3c24xxI2c) : Prop where
  ptr : PtrInv msgs s
  live : s.state ≠ .stop → inFlight s = true
  ended : s.state = .stop → inFlight s = false ∧ .stop ∈ bus s.trace
  count : moved s.trace + reading s = ends s.trace + (inFlight s).toNat
  starts_le : ∀ (r : Nat) m, msgs[r]? = some m → m.isRd = true → starts s.trace ≤ r + 1
  starts_idx : s.state = .start ∨ s.state = .write → starts s.trace ≤ s.msgIdx + 1

variable {msgs : List I2cMsg} {e : ByteEnd}

theorem taken_counts {evs : List Event} (h : Taken e s evs) :
    ends evs = 1 ∧ moved evs = reading s ∧ starts evs = 0 := by
  cases h with
  | sent hstate =>
    have hread : reading s = 0 := by rcases hstate with hst | hst <;> simp [reading, hst]
    exact ⟨rfl, hread.symm, rfl⟩
  | stored hstate j p =>
    have hread : reading s = 1 := by simp [reading, hstate]
    exact ⟨rfl, hread.symm, rfl⟩

theorem inFlight_resumed (h : inFlight s = true) (hengine : s'.engine = resumed s) :
    inFlight s' = true := by
  have hidle : ¬ s.engine = .idle := by
    intro hidle
    simp [inFlight, hidle] at h
  simp [inFlight, hengine, resumed, hidle]

/-- Only writes stand before a message that the driver is about to write. -/
theorem PtrInv.idx_le (h : PtrInv msgs s) (hstate : s.state = .start ∨ s.state = .write) {r : Nat}
    (hget : msgs[r]? = some m) (hrd : m.isRd = true) : s.msgIdx ≤ r := by
  by_contra hlt
  have hmem : m ∈ msgs.take s.msgIdx := by
    apply List.mem_of_getElem? (i := r)
    rw [List.getElem?_take_of_lt (by omega), hget]
  have hwr : m.isRd = false := by
    rcases hstate with hstate | hstate
    · exact (h.start hstate).2.2 m hmem
    · exact (h.write hstate).2 m (List.take_subset_take_left msgs (Nat.le_succ _) hmem)
  rw [hwr] at hrd
  cases hrd

/-- A transfer that goes on: one byte has ended and another one is on the bus. -/
theorem Served.goesOn {evs : List Event} (h : Served msgs s) (hptr : PtrInv msgs s')
    (hlive : s'.state ≠ .stop) (hflight : inFlight s = true) (hflight' : inFlight s' = true)
    (htrace : s'.trace = s.trace ++ evs) (hends : ends evs = 1)
    (hmoved : moved evs + reading s' = reading s + 1)
    (hle : ∀ (r : Nat) m, msgs[r]? = some m → m.isRd = true → starts s.trace + starts evs ≤ r + 1)
    (hidx : s'.state = .start ∨ s'.state = .write →
      starts s.trace + starts evs ≤ s'.msgIdx + 1) : Served msgs s' where
  ptr := hptr
  live := fun _ => hflight'
  ended := fun hstop => absurd hstop hlive
  count := by
    have hcount := h.count
    rw [hflight, Bool.toNat_true] at hcount
    rw [htrace, moved_append, ends_append, hends, hflight', Bool.toNat_true]
    omega
  starts_le := by
    rw [htrace, starts_append]
    exact hle
  starts_idx := by
    rw [htrace, starts_append]
    exact hidx

/-- Every interrupt leaves the transfer served so far. -/
theorem irq_served (hnum : msgs.length < 2147483648) (hturns : ¬ TurnsAround msgs)
    (h : Served msgs s) (hstop : s.state ≠ .stop) (e : ByteEnd) :
    ∃ s', s3c24xxI2cIrq s e = .ok s' ∧ Served msgs s' := by
  obtain ⟨s', hrun, hptr⟩ := irq_ptrInv hnum hturns s e h.ptr
  refine ⟨s', hrun, ?_⟩
  have hflight := h.live hstop
  -- by what the interrupt shows
  cases irq_effect hnum h.ptr hstop e hrun with
  -- the STOP: nothing is in flight any more, and the counts are even
  | stop evs htaken htrace hstate hnum' hengine =>
    obtain ⟨hends, hmoved, hstarts⟩ := taken_counts htaken
    have hidle : inFlight s' = false := by simp [inFlight, hengine]
    have hcount := h.count
    rw [hflight, Bool.toNat_true] at hcount
    refine ⟨hptr, fun hlive => absurd hstate hlive, fun _ => ⟨hidle, ?_⟩, ?_, ?_, ?_⟩
    · rw [htrace, bus_append]
      exact List.mem_append_right _ List.mem_cons_self
    · rw [htrace, moved_append, moved_append, ends_append, ends_append, hends, hmoved, hidle]
      rw [show reading s' = 0 by simp [reading, hstate], Bool.toNat_false,
        show moved [.stop] = 0 from rfl, show ends [.stop] = 0 from rfl]
      omega
    · intro r m hget hrd
      have hle := h.starts_le r m hget hrd
      rw [htrace, starts_append, starts_append, hstarts, show starts [.stop] = 0 from rfl]
      omega
    · rw [hstate]
      exact nofun
  -- a data byte: one byte has ended and one is begun
  | data k q byte hfrom htrace hstate hnum' hidx hle hengine =>
    have hfirst := h.starts_idx hfrom
    have hread : reading s = 0 := by rcases hfrom with hst | hst <;> simp [reading, hst]
    have hread' : reading s' = 0 := by simp [reading, hstate]
    rw [List.append_assoc] at htrace
    have hnone : starts [.byteEnd (has e.iicstat iicstatLastbit), .data k q byte] = 0 := rfl
    apply h.goesOn hptr (by rw [hstate]; decide) hflight (inFlight_resumed hflight hengine) htrace
    · rfl
    · rw [hread, hread']
      rfl
    · exact h.starts_le
    · intro _
      rw [List.singleton_append, hnone, hidx]
      omega
  -- a START: the same, and one more START for one more message
  | start k stat addr hfrom htrace hstate hnum' hidx hlt hengine =>
    have hflight' : inFlight s' = true := by simp [inFlight, hengine]
    have hfirst := h.starts_idx hfrom
    have hread : reading s = 0 := by rcases hfrom with hst | hst <;> simp [reading, hst]
    have hread' : reading s' = 0 := by simp [reading, hstate]
    rw [List.append_assoc] at htrace
    have hone : starts [.byteEnd (has e.iicstat iicstatLastbit), .start k stat addr] = 1 := rfl
    apply h.goesOn hptr (by rw [hstate]; decide) hflight hflight' htrace
    · rfl
    · rw [hread, hread']
      rfl
    · intro r m hget hrd
      have hle := hptr.idx_le (.inl hstate) hget hrd
      rw [List.singleton_append, hone]
      omega
    · intro _
      rw [List.singleton_append, hone, hidx]
      omega
  -- a byte stored and another one clocked in
  | read evs htaken htrace hstate hnum' hengine =>
    obtain ⟨hends, hmoved, hstarts⟩ := taken_counts htaken
    have hread' : reading s' = 1 := by simp [reading, hstate]
    apply h.goesOn hptr (by rw [hstate]; decide) hflight (inFlight_resumed hflight hengine) htrace
    · exact hends
    · rw [hmoved, hread']
    · rw [hstarts]
      exact h.starts_le
    · rw [hstate]
      nofun

/-- A transfer driven by interrupts that ends has seen the STOP. -/
theorem interrupts_served (hnum : msgs.length < 2147483648) (hturns : ¬ TurnsAround msgs)
    {fuel : Nat} (h : Served msgs s) (hrun : v.interrupts fuel s = .ok s') :
    Served msgs s' ∧ s'.state = .stop := by
  induction fuel generalizing s with
  | zero => cases hrun
  | succ fuel ih =>
    rw [Slave.interrupts] at hrun
    cases hflight : inFlight s with
    | false =>
      rw [hflight, if_neg (by decide), Except.ok.injEq] at hrun
      rw [← hrun]
      refine ⟨h, ?_⟩
      by_contra hstop
      rw [h.live hstop] at hflight
      cases hflight
    | true =>
      have hstop : s.state ≠ .stop := by
        intro hst
        rw [(h.ended hst).1] at hflight
        cases hflight
      obtain ⟨t, ht, hserved⟩ := irq_served hnum hturns h hstop (v.answer s)
      rw [hflight, if_pos rfl, ht] at hrun
      exact ih hserved hrun

/-- Nothing was to be served yet. -/
theorem begun_served (m : I2cMsg) (ms : List I2cMsg) (htrace : s.trace = []) :
    Served (m :: ms) (begun m ms s) := by
  have htr : (begun m ms s).trace = [.start 0 (m.startStat ||| iicstatStart) m.addrByte] := by
    rw [show (begun m ms s).trace = s.trace ++ _ from rfl, htrace]
    rfl
  refine ⟨begun_ptrInv m ms s, fun _ => rfl, nofun, ?_, fun r _ _ _ => ?_, fun _ => ?_⟩
  all_goals rw [htr]
  · rfl
  · exact Nat.le_add_left 1 r
  · exact Nat.le_refl 1

end S3c24xx
