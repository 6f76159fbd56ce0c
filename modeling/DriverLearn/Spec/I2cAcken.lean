import DriverLearn.Spec.I2cPointer
import DriverLearn.Spec.I2cScript

/-!
# The acknowledge of received bytes

The controller acknowledges a received byte while ACKEN is set in IICCON. The driver sets
it with every START and clears it at `prepare_read`, when the byte to come is the last one
of the last message.

## Key results

- `irq_ackInv`: over every interrupt ACKEN is set, unless the last byte of all is awaited
- `irq_receiving`: one byte of the last message
- `run_receiving`, `run_received`: its bytes up to the last one, and with it
-/

namespace S3c24xx

open Word

variable {msgs : List I2cMsg} {s t : S3c24xxI2c} {j p : Nat} {m : I2cMsg}

/-- A byte that comes in is acknowledged. -/
def ackEnabled (s : S3c24xxI2c) : Bool := has s.iiccon iicconAcken

/-- The end of a byte leaves ACKEN. -/
theorem ackEnabled_byteEnd (e : ByteEnd) (s : S3c24xxI2c) :
    ackEnabled (byteEnd e s) = ackEnabled s :=
  has_set_of_disjoint _ (by decide)

/-- Clearing IRQPEND leaves ACKEN. -/
theorem ackEnabled_clearIrqpend (s : S3c24xxI2c) : ackEnabled (clearIrqpend s) = ackEnabled s :=
  has_clear_of_disjoint _ (by decide)

/-- `s3c24xx_i2c_disable_ack` clears it. -/
theorem ackEnabled_disableAck (s : S3c24xxI2c) :
    ackEnabled (s3c24xxI2cDisableAck s) = false :=
  has_clear_self _ _

/-- Every START sets it. -/
theorem ackEnabled_startCondition (j : Nat) (m : I2cMsg) (s : S3c24xxI2c) :
    ackEnabled (startCondition j m s) = true :=
  has_set_self _ (by decide)

/-- The STOP leaves ACKEN. -/
theorem ackEnabled_stop (s : S3c24xxI2c) (ret : Int) :
    ackEnabled (s3c24xxI2cStop s ret) = ackEnabled s :=
  has_clear_of_disjoint _ (by decide)

/-! ### Any transfer -/

/-- The first byte of an SMBus block read is awaited or being stored. -/
def I2cMsg.isBlock (m : I2cMsg) : Bool := m.isRecvLen && m.len == 1

/-- `is_msglast` in a block read is false at the count. -/
theorem isMsglast_eq (s : S3c24xxI2c) (m : I2cMsg) :
    isMsglast s m = (!m.isBlock && s.msgPtr == toU32 (m.len.toNat - 1)) := by
  rw [isMsglast, I2cMsg.isBlock]
  cases m.isRecvLen && m.len == 1 <;> rfl

/-- For the cursors of a message, the last byte is the one with the length behind it. -/
theorem isMsglast_iff (hptr : s.msgPtr ≤ 65536) :
    isMsglast s m = true ↔ m.isBlock = false ∧ s.msgPtr + 1 = m.len.toNat := by
  have hlen : s.msgPtr = toU32 ((m.len.toNat : Int) - 1) ↔ s.msgPtr + 1 = m.len.toNat := by
    have hmax := m.len.isLt
    unfold toU32
    omega
  rw [isMsglast_eq, Bool.and_eq_true, Bool.not_eq_true', beq_iff_eq, hlen]

/-- Only the first byte of a block read changes the length. -/
theorem stored_len (hblock : m.isBlock = false) (byte : Byte) (p : Nat) :
    (stored byte p m).len = m.len := by
  rw [I2cMsg.isBlock] at hblock
  simp only [stored, hblock, Bool.false_eq_true, ↓reduceIte]

/-- A block read whose count has not come yet has length 1. -/
theorem isBlock_len (h : m.isBlock = true) : m.len = 1 := by
  rw [I2cMsg.isBlock, Bool.and_eq_true, beq_iff_eq] at h
  exact h.2

/-- The count is added to the length. -/
theorem stored_block_len (h : m.isBlock = true) (byte : Byte) (p : Nat) :
    (stored byte p m).len.toNat = 1 + byte.toNat := by
  have hsum : (1#16 + byte.setWidth 16).toNat = 1 + byte.toNat := by
    have hbyte := byte.isLt
    rw [BitVec.toNat_add, BitVec.toNat_setWidth]
    simp
    omega
  rw [stored, show (m.isRecvLen && m.len == 1) = true from h, if_pos rfl, isBlock_len h]
  exact hsum

/-- ACKEN is set unless the driver receives, and awaits the last byte of the last message. -/
structure AckInv (s : S3c24xxI2c) : Prop where
  sending : s.state = .start ∨ s.state = .write → ackEnabled s = true
  reading : s.state = .read → ∃ m, At s s.msgIdx m ∧ s.msgPtr ≤ 65535 ∧
    (ackEnabled s = true ∨ s.msgIdx + 1 = s.msgs.length ∧ m.isBlock = false ∧
      s.msgPtr + 1 = m.len.toNat)

/-- Behind the STOP ACKEN does not matter. -/
theorem ackInv_of_stop (h : s.state = .stop) : AckInv s where
  sending hstate := by
    rw [h] at hstate
    simp at hstate
  reading hstate := by
    rw [h] at hstate
    cases hstate

/-- The read side: ACKEN is cleared just where the next byte is the last one of all. -/
theorem readStep_ackInv (h : At s j m) (hstate : s.state = .read) (hptr : s.msgPtr ≤ 65536)
    (hack : ackEnabled s = true ∨ j + 1 = s.msgs.length ∧ m.len.toNat ≤ s.msgPtr) :
    AckInv (clearIrqpend (readStep s j m)) := by
  have hidx := h.idx
  have hread : ∀ u m', u.state = .read → At u u.msgIdx m' → u.msgPtr ≤ 65535 →
      (ackEnabled u = true ∨ u.msgIdx + 1 = u.msgs.length ∧ m'.isBlock = false ∧
        u.msgPtr + 1 = m'.len.toNat) → AckInv (clearIrqpend u) := by
    intro u m' hu hat hle hor
    refine ⟨fun hsend => ?_, fun _ => ⟨m', hat.of_eq rfl rfl rfl rfl, hle, ?_⟩⟩
    · rw [show (clearIrqpend u).state = u.state from rfl, hu] at hsend
      simp at hsend
    · rw [ackEnabled_clearIrqpend]
      exact hor
  have hmax := m.len.isLt
  unfold readStep
  by_cases hmsglast : isMsglast s m = true
  · obtain ⟨hblock, hlast⟩ := (isMsglast_iff hptr).mp hmsglast
    rw [if_pos hmsglast]
    by_cases hend : j + 1 = s.msgs.length
    · rw [if_pos hend]
      exact hread (s3c24xxI2cDisableAck s) m hstate (hidx ▸ h.of_eq rfl rfl rfl rfl)
        (show s.msgPtr ≤ 65535 by omega)
        (Or.inr ⟨show s.msgIdx + 1 = s.msgs.length by omega, hblock, hlast⟩)
    · rw [if_neg hend]
      exact hread s m hstate (hidx ▸ h) (by omega) (hack.imp_right fun hor => absurd hor.1 hend)
  · rw [if_neg hmsglast]
    by_cases hmsgend : m.len.toNat ≤ s.msgPtr
    · rw [if_pos hmsgend]
      by_cases hend : j + 1 = s.msgs.length
      · rw [if_pos hend]
        exact ackInv_of_stop rfl
      · rw [if_neg hend]
        -- the next message, without a START of its own
        have hlt := h.lt
        have hget : s.msgs[j + 1]? = some s.msgs[j + 1] := List.getElem?_eq_getElem (by omega)
        exact hread (seek (j + 1) s) s.msgs[j + 1] hstate ⟨rfl, rfl, h.num, hget, h.bound⟩
          (Nat.zero_le _) (hack.imp_right fun hor => absurd hor.1 hend)
    · rw [if_neg hmsgend]
      exact hread s m hstate (hidx ▸ h) (by omega)
        (hack.imp_right fun hor => absurd hor.2 hmsgend)

/-- The write side leaves ACKEN alone, and a START sets it. -/
theorem writeStep_ackInv {turn : Turn} (hstate : s.state = .write) (hack : ackEnabled s = true)
    (hrun : writeStep .ok s turn = .ok t) : AckInv (clearIrqpend t) := by
  -- WRITE does not come to READ in one step
  have hsend : ∀ u, u.state = .start ∨ u.state = .write → ackEnabled u = true →
      AckInv (clearIrqpend u) := by
    intro u hu huack
    refine ⟨fun _ => by rw [ackEnabled_clearIrqpend, huack], fun hread => ?_⟩
    rw [show (clearIrqpend u).state = u.state from rfl] at hread
    rw [hread] at hu
    simp at hu
  cases turn with
  | data k q byte =>
    rw [writeStep, Except.ok.injEq] at hrun
    rw [← hrun]
    exact hsend _ (Or.inr hstate) hack
  | start k m =>
    rw [writeStep_start, Except.ok.injEq] at hrun
    rw [← hrun]
    exact hsend _ (Or.inl rfl) (ackEnabled_startCondition k m (seek k s))
  | stop =>
    rw [writeStep, Except.ok.injEq] at hrun
    rw [← hrun]
    exact ackInv_of_stop rfl
  | fault =>
    rw [writeStep] at hrun
    cases hrun

/-- One interrupt keeps the invariant, by what it shows. -/
theorem irq_ackInv (hnum : msgs.length < 2147483648) (hinv : PtrInv msgs s) (h : AckInv s)
    {e : ByteEnd} (hrun : s3c24xxI2cIrq s e = .ok t) : AckInv t := by
  cases hstate : s.state with
  | idle => exact absurd hstate hinv.active
  | stop =>
    rw [irq_stop hstate, Except.ok.injEq] at hrun
    rw [← hrun]
    exact ackInv_of_stop hstate
  | start =>
    obtain ⟨m, hat⟩ := hinv.current hnum (.inl hstate)
    have hptr := (hinv.start hstate).2.1
    have hack := h.sending (Or.inl hstate)
    rw [irq_start hat hstate hptr e] at hrun
    obtain ⟨u, hu, rfl⟩ := Run.map_eq_ok hrun
    by_cases hnak : nak e.iicstat m = true
    · rw [if_pos hnak, Except.ok.injEq] at hu
      rw [← hu]
      exact ackInv_of_stop rfl
    · rw [if_neg hnak] at hu
      by_cases hrd : m.isRd = true
      · rw [if_pos hrd, Except.ok.injEq] at hu
        rw [← hu]
        exact readStep_ackInv (hat.of_eq rfl rfl rfl rfl) rfl
          (by rw [show (byteEnd e s).msgPtr = s.msgPtr from rfl, hptr]; omega)
          (Or.inl ((ackEnabled_byteEnd e s).trans hack))
      · rw [if_neg hrd] at hu
        exact writeStep_ackInv (s := { byteEnd e s with state := .write }) rfl
          ((ackEnabled_byteEnd e s).trans hack) hu
  | write =>
    obtain ⟨m, hat⟩ := hinv.current hnum (.inr (.inr hstate))
    have hack := h.sending (Or.inr hstate)
    rw [irq_write hat hstate e] at hrun
    obtain ⟨u, hu, rfl⟩ := Run.map_eq_ok hrun
    by_cases hnak : nak e.iicstat m = true
    · rw [if_pos hnak, Except.ok.injEq] at hu
      rw [← hu]
      exact ackInv_of_stop rfl
    · rw [if_neg hnak] at hu
      exact writeStep_ackInv (s := byteEnd e s) hstate ((ackEnabled_byteEnd e s).trans hack) hu
  | read =>
    obtain ⟨m, hat, hptr, hack⟩ := h.reading hstate
    rw [irq_read hat hstate e, Except.ok.injEq] at hrun
    rw [← hrun]
    have hstore := storeByte_eq (hat.byteEnd e) e.iicds
    apply readStep_ackInv ((hat.byteEnd e).storeByte e.iicds)
    · rw [hstore]
      exact hstate
    · rw [hstore]
      exact Nat.succ_le_succ hptr
    · rw [hstore]
      -- behind the byte that ACKEN was cleared for nothing is left
      apply hack.imp
      · exact (ackEnabled_byteEnd e s).trans
      · rintro ⟨hlast, hblock, hlen⟩
        rw [List.length_set, stored_len hblock]
        exact ⟨hlast, Nat.le_of_eq hlen.symm⟩

/-- It holds behind the first START, and so behind all interrupts. -/
theorem run_ackInv {ms : List I2cMsg} (hnum : (m :: ms).length < 2147483648)
    (hturns : ¬ TurnsAround (m :: ms)) (s : S3c24xxI2c) (irqs : List ByteEnd)
    (hrun : irqs.foldlM s3c24xxI2cIrq (begun m ms s) = .ok t) :
    PtrInv (m :: ms) t ∧ AckInv t := by
  have hstep : ∀ u e u', PtrInv (m :: ms) u ∧ AckInv u → s3c24xxI2cIrq u e = .ok u' →
      PtrInv (m :: ms) u' ∧ AckInv u' := by
    rintro u e u' ⟨hinv, hack⟩ hirq
    obtain ⟨v, hv, hinv'⟩ := irq_ptrInv hnum hturns u e hinv
    rw [hirq, Except.ok.injEq] at hv
    exact ⟨hv ▸ hinv', irq_ackInv hnum hinv hack hirq⟩
  apply Run.foldlM_inv hstep ⟨begun_ptrInv m ms s, ?_⟩ hrun
  exact ⟨fun _ => ackEnabled_startCondition _ _ _, fun hread => (by cases hread)⟩

/-! ### The last message -/

/-- The driver receives the last message, with `p` bytes of it stored, and acknowledges the
    next one unless it is the last. -/
structure Receiving (s : S3c24xxI2c) (j : Nat) (m : I2cMsg) (p : Nat) : Prop where
  here : At s j m
  state : s.state = .read
  ptr : s.msgPtr = p
  last : j + 1 = s.msgs.length
  lt : p < m.len.toNat
  acken : ackEnabled s = true ↔ m.isBlock = true ∨ p + 1 ≠ m.len.toNat

/-- What the driver does on the bus while it stores bytes of message `j` from byte `p` on. -/
def recvEvents (j : Nat) : (p : Nat) → List ByteEnd → List Event
  | _, [] => []
  | p, e :: es => .byteEnd (has e.iicstat iicstatLastbit) :: .recv j p e.iicds ::
      recvEvents j (p + 1) es

/-- The events of bytes received in two parts. -/
theorem recvEvents_append (j p : Nat) (es fs : List ByteEnd) :
    recvEvents j p (es ++ fs) = recvEvents j p es ++ recvEvents j (p + es.length) fs := by
  induction es generalizing p with
  | nil => rfl
  | cons e es ih =>
    rw [List.cons_append, recvEvents, recvEvents, ih, List.length_cons,
      show p + 1 + es.length = p + (es.length + 1) by omega]
    rfl

/-- At `prepare_read`, `p` bytes of the last message stored. -/
theorem readStep_receiving (h : At s j m) (hstate : s.state = .read) (hptr : s.msgPtr = p)
    (hlast : j + 1 = s.msgs.length) (hlt : p < m.len.toNat) (hack : ackEnabled s = true) :
    Receiving (clearIrqpend (readStep s j m)) j m p ∧
      After s (clearIrqpend (readStep s j m)) [] := by
  have hmax := m.len.isLt
  have hmsglast := isMsglast_iff (s := s) (m := m) (by omega)
  -- ACKEN is the only field in which the two branches differ
  have hrest : ∀ u, At u j m → u.state = .read → u.msgPtr = p → u.msgs = s.msgs →
      u.trace = s.trace → (ackEnabled u = true ↔ m.isBlock = true ∨ p + 1 ≠ m.len.toNat) →
      Receiving (clearIrqpend u) j m p ∧ After s (clearIrqpend u) [] := by
    intro u hu hread huptr hmsgs htrace hacken
    refine ⟨⟨hu.of_eq rfl rfl rfl rfl, hread, huptr, ?_, hlt, ?_⟩, ?_, hmsgs⟩
    · rw [show (clearIrqpend u).msgs = u.msgs from rfl, hmsgs]
      exact hlast
    · rw [ackEnabled_clearIrqpend]
      exact hacken
    · rw [show (clearIrqpend u).trace = u.trace from rfl, htrace, List.append_nil]
  unfold readStep
  by_cases hbyte : isMsglast s m = true
  · obtain ⟨hblock, hend⟩ := hmsglast.mp hbyte
    rw [if_pos hbyte, if_pos hlast]
    apply hrest (s3c24xxI2cDisableAck s) (h.of_eq rfl rfl rfl rfl) hstate hptr rfl rfl
    rw [ackEnabled_disableAck, hblock]
    simp only [Bool.false_eq_true, false_or, false_iff]
    omega
  · rw [if_neg hbyte, if_neg (by omega)]
    apply hrest s h hstate hptr rfl rfl
    rw [hmsglast] at hbyte
    simp only [hack, true_iff]
    cases hblock : m.isBlock with
    | true => exact Or.inl rfl
    | false => exact Or.inr fun hend => hbyte ⟨hblock, by omega⟩

/-- With all its bytes stored the last message ends in the STOP. -/
theorem readStep_received (h : At s j m) (hlast : j + 1 = s.msgs.length)
    (hptr : s.msgPtr = m.len.toNat) :
    Ended (clearIrqpend (readStep s j m)) s.msgs.length ∧
      After s (clearIrqpend (readStep s j m)) [.stop] ∧
      ackEnabled (clearIrqpend (readStep s j m)) = ackEnabled s := by
  have hmax := m.len.isLt
  have hmsglast : ¬ isMsglast s m = true := by
    rw [isMsglast_iff (by omega)]
    omega
  have hstep : readStep s j m = finish s := by
    rw [readStep, if_neg hmsglast, if_pos (by omega), if_pos hlast]
  obtain ⟨hend, hafter⟩ := finish_settled h
  rw [hstep]
  refine ⟨hend, hafter, ?_⟩
  rw [ackEnabled_clearIrqpend, finish, ackEnabled_stop]
  rfl

/-- One byte of the last message: it is stored, and the driver awaits the next one or ends
    the transfer. -/
theorem irq_receiving (h : Receiving s j m p) (e : ByteEnd) :
    ∃ s', s3c24xxI2cIrq s e = .ok s' ∧
      (p + 1 < (stored e.iicds p m).len.toNat →
        Receiving s' j (stored e.iicds p m) (p + 1) ∧ After s s' (recvEvents j p [e])) ∧
      (p + 1 = (stored e.iicds p m).len.toNat →
        Ended s' s.msgs.length ∧ After s s' (recvEvents j p [e] ++ [.stop]) ∧
          ackEnabled s' = ackEnabled s) := by
  obtain ⟨hat, hstate, hptr, hlast, hlt, hacken⟩ := h
  have hat' := hat.byteEnd e
  have hstore := storeByte_eq hat' e.iicds
  have hbyte := hat'.storeByte e.iicds
  have hafter := (byteEnd_after e s).trans (storeByte_after hat' e.iicds)
  rw [show (byteEnd e s).msgPtr = s.msgPtr from rfl, hptr] at hafter hbyte hstore
  refine ⟨_, irq_read hat hstate e, ?_, ?_⟩
  · intro hmore
    rw [hptr]
    -- the message was not at its last byte
    have hack : ackEnabled s = true := by
      rw [hacken]
      cases hblock : m.isBlock with
      | true => exact Or.inl rfl
      | false =>
        rw [stored_len hblock] at hmore
        exact Or.inr (by omega)
    obtain ⟨hreceiving, hstep⟩ := readStep_receiving hbyte (by rw [hstore]; exact hstate)
      (by rw [hstore]) (by rw [hstore, List.length_set]; exact hlast) hmore
      (by rw [hstore]; exact (ackEnabled_byteEnd e s).trans hack)
    refine ⟨hreceiving, ?_⟩
    have hall := hafter.trans hstep
    rwa [List.append_nil] at hall
  · intro hend
    rw [hptr]
    obtain ⟨hended, hstep, hack⟩ := readStep_received hbyte
      (by rw [hstore, List.length_set]; exact hlast) (by rw [hstore]; exact hend)
    refine ⟨?_, hafter.trans hstep, ?_⟩
    · rw [hstore, List.length_set] at hended
      rw [hstore]
      exact hended
    · rw [hack, hstore]
      exact ackEnabled_byteEnd e s

/-- The bytes of the last message in front of its last one. -/
theorem run_receiving (hblock : m.isBlock = false) (h : Receiving s j m p) (es : List ByteEnd)
    (hes : p + es.length < m.len.toNat) :
    ∃ s' m', es.foldlM s3c24xxI2cIrq s = .ok s' ∧ Receiving s' j m' (p + es.length) ∧
      m'.isBlock = false ∧ m'.len = m.len ∧ After s s' (recvEvents j p es) := by
  induction es generalizing s m p with
  | nil => exact ⟨s, m, rfl, h, hblock, rfl, by simp [recvEvents], rfl⟩
  | cons e es ih =>
    rw [List.length_cons] at hes
    have hlen := stored_len hblock e.iicds p
    have hblock' : (stored e.iicds p m).isBlock = false := by
      rw [I2cMsg.isBlock, hlen]
      exact hblock
    obtain ⟨t, ht, hmore, -⟩ := irq_receiving h e
    obtain ⟨hreceiving, hafter⟩ := hmore (by rw [hlen]; omega)
    obtain ⟨s', m', hs', hreceiving', hblock'', hlen', hafter'⟩ :=
      ih hblock' hreceiving (by rw [hlen]; omega)
    refine ⟨s', m', ?_, ?_, hblock'', hlen'.trans hlen, hafter.trans hafter'⟩
    · rw [List.foldlM_cons, ht]
      exact hs'
    · rw [List.length_cons, show p + (es.length + 1) = p + 1 + es.length by omega]
      exact hreceiving'

/-- The bytes of the last message with its last one, which is not acknowledged. -/
theorem run_received (hblock : m.isBlock = false) (h : Receiving s j m p) (es : List ByteEnd)
    (hes : p + es.length = m.len.toNat) :
    ∃ s', es.foldlM s3c24xxI2cIrq s = .ok s' ∧ Ended s' s.msgs.length ∧
      ackEnabled s' = false ∧ After s s' (recvEvents j p es ++ [.stop]) := by
  have hlt := h.lt
  -- all bytes but the last leave the message to be received further
  obtain ⟨pre, e, rfl⟩ : ∃ pre e, es = pre ++ [e] := by
    rcases List.eq_nil_or_concat es with rfl | ⟨pre, e, rfl⟩
    · rw [List.length_nil] at hes
      omega
    · exact ⟨pre, e, List.concat_eq_append⟩
  rw [List.length_append, List.length_singleton] at hes
  obtain ⟨t, m', ht, hreceiving, hblock', hlen, hafter⟩ := run_receiving hblock h pre (by omega)
  have hlen' := stored_len hblock' e.iicds (p + pre.length)
  obtain ⟨s', hs', -, hend⟩ := irq_receiving hreceiving e
  obtain ⟨hended, hafter', hack⟩ := hend (by rw [hlen', hlen]; omega)
  refine ⟨s', ?_, ?_, ?_, ?_⟩
  · rw [List.foldlM_append, ht]
    simp only [bind, Except.bind, List.foldlM_cons, hs']
    rfl
  · rw [hafter.length_msgs] at hended
    exact hended
  · rw [hack, Bool.eq_false_iff]
    intro hset
    rw [hreceiving.acken, hblock', hlen] at hset
    simp at hset
    omega
  · have hall := hafter.trans hafter'
    rwa [← List.append_assoc, ← recvEvents_append] at hall

end S3c24xx
