import DriverLearn.Spec.I2cAcken

/-!
# SMBus block reads

The first byte of a block read says how many bytes follow, and the driver adds it to the
length of the message as it is. A count from 1 to 32 is read as it should be. A larger one
runs over the buffer, and with the count 0 the count byte is the last one and has been
acknowledged.

## Key results

- `transfer_awaits`: how a transfer comes to a block read
- `run_count`: the bytes behind a count that is not 0
- `blockRead_iff`: the exact condition on the count byte
-/

namespace S3c24xx

open Word

variable {poll : S3c24xxI2c → Except Fault S3c24xxI2c} {s t : S3c24xxI2c} {j p : Nat} {m : I2cMsg}

/-! ### The count byte -/

/-- The count byte of the last message is awaited. -/
structure Awaits (t : S3c24xxI2c) (j : Nat) (m : I2cMsg) : Prop where
  here : At t j m
  state : t.state = .read
  ptr : t.msgPtr = 0
  last : j + 1 = t.msgs.length
  block : m.isBlock = true
  acken : ackEnabled t = true

/-- Wherever an interrupt-driven transfer comes to a block read, it acknowledges the count
    byte. -/
theorem transfer_awaits {msgs : List I2cMsg} {irqs : List ByteEnd} (hne : msgs ≠ [])
    (hnum : msgs.length < 2147483648) (hturns : ¬ TurnsAround msgs)
    (hquirk : has s.quirks quirkPoll = false) (ht : transfer .ok msgs s irqs = .ok t)
    (hstate : t.state = .read) (hptr : t.msgPtr = 0) (hcur : curMsg t = .ok m)
    (hlast : t.msgIdx + 1 = t.msgs.length) (hblock : m.isBlock = true) :
    Awaits t t.msgIdx m := by
  obtain ⟨m₀, ms, rfl⟩ := List.exists_cons_of_ne_nil hne
  rw [transfer_eq hquirk] at ht
  obtain ⟨-, hack⟩ := run_ackInv hnum hturns s irqs ht
  obtain ⟨m', hat, -, hor⟩ := hack.reading hstate
  have hm : m' = m := by
    rw [hat.curMsg, Except.ok.injEq] at hcur
    exact hcur
  subst hm
  refine ⟨hat, hstate, hptr, hlast, hblock, hor.resolve_right ?_⟩
  rintro ⟨-, hnot, -⟩
  rw [hblock] at hnot
  cases hnot

/-- The count byte is received like any other. -/
theorem Awaits.receiving (h : Awaits t j m) : Receiving t j m 0 where
  here := h.here
  state := h.state
  ptr := h.ptr
  last := h.last
  lt := by rw [isBlock_len h.block]; decide
  acken := by simp [h.acken, h.block]

/-- Behind a count that is not 0 as many bytes are awaited. -/
theorem irq_count (h : Awaits t j m) (e : ByteEnd) (hcount : 1 ≤ e.iicds.toNat) :
    ∃ u m', s3c24xxI2cIrq t e = .ok u ∧ Receiving u j m' 1 ∧ m'.isBlock = false ∧
      m'.len.toNat = 1 + e.iicds.toNat ∧ After t u (recvEvents j 0 [e]) := by
  have hlen := stored_block_len h.block e.iicds 0
  obtain ⟨u, hu, hmore, -⟩ := irq_receiving h.receiving e
  obtain ⟨hreceiving, hafter⟩ := hmore (by omega)
  refine ⟨u, _, hu, hreceiving, ?_, hlen, hafter⟩
  rw [Bool.eq_false_iff]
  intro hblock
  have hone : (stored e.iicds 0 m).len.toNat = 1 := by rw [isBlock_len hblock]; rfl
  omega

/-! ### The bytes behind it -/

/-- The bytes behind a count that is not 0: as many as it says are stored, and the last of
    them is not acknowledged. -/
theorem run_count (h : Awaits t j m) (e : ByteEnd) (hcount : 1 ≤ e.iicds.toNat)
    (rest : List ByteEnd) :
    (rest.length < e.iicds.toNat → ∃ u, (e :: rest).foldlM s3c24xxI2cIrq t = .ok u ∧
      After t u (recvEvents j 0 (e :: rest)) ∧
      (ackEnabled u = true ↔ rest.length + 1 ≠ e.iicds.toNat)) ∧
    (rest.length = e.iicds.toNat → ∃ u ret, (e :: rest).foldlM s3c24xxI2cIrq t = .ok u ∧
      Ended u ret ∧ After t u (recvEvents j 0 (e :: rest) ++ [.stop])) := by
  obtain ⟨x, m', hx, hreceiving, hblock, hlen, hafter⟩ := irq_count h e hcount
  -- the count byte makes the message a read of that many more bytes
  constructor
  · intro hrest
    obtain ⟨u, m'', hu, hreceiving', hblock', hlen', hafter'⟩ :=
      run_receiving hblock hreceiving rest (by omega)
    refine ⟨u, ?_, hafter.trans hafter', ?_⟩
    · rw [List.foldlM_cons, hx]
      exact hu
    · rw [hreceiving'.acken, hblock', hlen', hlen]
      simp only [Bool.false_eq_true, false_or]
      omega
  · intro hrest
    obtain ⟨u, hu, hended, -, hafter'⟩ := run_received hblock hreceiving rest (by omega)
    refine ⟨u, _, ?_, hended, ?_⟩
    · rw [List.foldlM_cons, hx]
      exact hu
    · have hall := hafter.trans hafter'
      rwa [← List.append_assoc] at hall

/-! ### What a block read should do -/

/-- A call of `i2c_s3c_irq_nextbyte` for each byte, from the interrupt handler or from the
    polling loop. -/
def nextbytes (poll : S3c24xxI2c → Except Fault S3c24xxI2c) (es : List ByteEnd)
    (t : S3c24xxI2c) : Except Fault S3c24xxI2c :=
  es.foldlM (fun s e => i2cS3cIrqNextbyte poll s.iicstat (byteEnd e s)) t

/-- The count byte `e` and the bytes `rest` behind it: no byte is stored behind the 33 of the
    buffer, and with a count of at most 32 just the count byte and as many bytes as it says
    are stored, of which the last one is awaited without ACKEN and followed by the STOP. -/
structure BlockRead (poll : S3c24xxI2c → Except Fault S3c24xxI2c) (t : S3c24xxI2c) (j : Nat)
    (e : ByteEnd) (rest : List ByteEnd) : Prop where
  stores : ∃ u evs, nextbytes poll (e :: rest) t = .ok u ∧ u.trace = t.trace ++ evs ∧
    (∀ k p byte, Event.recv k p byte ∈ evs → p < 33) ∧
    (e.iicds.toNat ≤ 32 → evs = recvEvents j 0 ((e :: rest).take (1 + e.iicds.toNat)) ++
      if 1 + e.iicds.toNat ≤ (e :: rest).length then
        .stop :: spurious ((e :: rest).drop (1 + e.iicds.toNat))
      else [])
  acks : e.iicds.toNat ≤ 32 → ∀ i ≤ e.iicds.toNat, i ≤ (e :: rest).length →
    ∃ u, nextbytes poll ((e :: rest).take i) t = .ok u ∧
      (ackEnabled u = true ↔ i ≠ e.iicds.toNat)

/-- While the driver receives, and behind the STOP, it does not matter who calls. -/
theorem nextbytes_eq (es : List ByteEnd)
    (h : (∃ j m p, Receiving s j m p) ∨ s.state = .stop) :
    nextbytes poll es s = es.foldlM s3c24xxI2cIrq s := by
  induction es generalizing s with
  | nil => rfl
  | cons e es ih =>
    have hcall : i2cS3cIrqNextbyte poll s.iicstat (byteEnd e s) = s3c24xxI2cIrq s e := by
      obtain ⟨j, m, p, hreceiving⟩ | hstop := h
      · obtain ⟨hat, hstate⟩ := And.intro (hreceiving.here.byteEnd e) hreceiving.state
        rw [irq_eq (by rw [hstate]; decide), nextbyte_of_read hat hstate,
          nextbyte_of_read hat hstate]
      · have hstop' : (byteEnd e s).state = .stop := hstop
        rw [irq_stop hstop, i2cS3cIrqNextbyte, hstop']
    have hnext : ∃ u, s3c24xxI2cIrq s e = .ok u ∧
        ((∃ j m p, Receiving u j m p) ∨ u.state = .stop) := by
      obtain ⟨j, m, p, hreceiving⟩ | hstop := h
      · obtain ⟨u, hu, hmore, hend⟩ := irq_receiving hreceiving e
        refine ⟨u, hu, ?_⟩
        -- the length only grows
        have hle : m.len.toNat ≤ (stored e.iicds p m).len.toNat := by
          cases hblock : m.isBlock with
          | true => rw [stored_block_len hblock, isBlock_len hblock]; exact Nat.le_add_right 1 _
          | false => rw [stored_len hblock]
        have hlt := hreceiving.lt
        by_cases hlast : p + 1 = (stored e.iicds p m).len.toNat
        · exact Or.inr (hend hlast).1.state
        · exact Or.inl ⟨j, _, p + 1, (hmore (by omega)).1⟩
      · exact ⟨_, irq_stop hstop e, Or.inr hstop⟩
    obtain ⟨u, hu, hstate⟩ := hnext
    have hrest := ih hstate
    rw [nextbytes, List.foldlM_cons, hcall, hu, List.foldlM_cons, hu]
    exact hrest

/-- Calls of the state machine do the same as interrupts. -/
theorem Awaits.nextbytes (h : Awaits t j m) (es : List ByteEnd) :
    nextbytes poll es t = es.foldlM s3c24xxI2cIrq t :=
  nextbytes_eq es (Or.inl ⟨j, m, 0, h.receiving⟩)

/-- Bytes received lie in front of where they end. -/
theorem recv_mem_recvEvents {q : Nat} {es : List ByteEnd} {k : Nat} {byte : Byte}
    (h : Event.recv k p byte ∈ recvEvents j q es) : p < q + es.length := by
  induction es generalizing q with
  | nil => simp [recvEvents] at h
  | cons e es ih =>
    rw [List.length_cons]
    simp only [recvEvents, List.mem_cons, reduceCtorEq, Event.recv.injEq, false_or] at h
    cases h with
    | inl heq => omega
    | inr hmem =>
      have hlt := ih hmem
      omega

/-- Each byte is received. -/
theorem exists_recv {q i : Nat} {es : List ByteEnd} (hi : i < es.length) :
    ∃ byte, Event.recv j (q + i) byte ∈ recvEvents j q es := by
  induction es generalizing q i with
  | nil => simp at hi
  | cons e es ih =>
    cases i with
    | zero => exact ⟨e.iicds, by simp [recvEvents]⟩
    | succ i =>
      obtain ⟨byte, hmem⟩ := ih (q := q + 1) (i := i) (by simpa using hi)
      refine ⟨byte, ?_⟩
      rw [show q + (i + 1) = q + 1 + i by omega]
      simp [recvEvents, hmem]

/-- None is received behind the STOP. -/
theorem not_recv_end {k : Nat} {byte : Byte} (post : List ByteEnd) :
    Event.recv k p byte ∉ Event.stop :: spurious post := by
  simp [spurious]

/-- A count from 1 to 32 is read as it should be. -/
theorem blockRead_of_count (h : Awaits t j m) (e : ByteEnd) (hlo : 1 ≤ e.iicds.toNat)
    (hhi : e.iicds.toNat ≤ 32) (rest : List ByteEnd) : BlockRead poll t j e rest where
  stores := by
    by_cases hrest : rest.length < e.iicds.toNat
    · obtain ⟨u, hu, hafter, -⟩ := (run_count h e hlo rest).1 hrest
      refine ⟨u, _, (h.nextbytes _).trans hu, hafter.trace, ?_, fun _ => ?_⟩
      · intro k p byte hmem
        have hlt := recv_mem_recvEvents hmem
        rw [List.length_cons] at hlt
        omega
      · rw [List.take_of_length_le (by rw [List.length_cons]; omega), if_neg (by
          rw [List.length_cons]
          omega), List.append_nil]
    · -- the bytes of the read, and what comes behind the STOP
      have htake : (rest.take e.iicds.toNat).length = e.iicds.toNat := by
        rw [List.length_take]
        omega
      obtain ⟨u, ret, hu, hended, hafter⟩ := (run_count h e hlo _).2 htake
      obtain ⟨v, hv, -, hafter'⟩ := run_ended hended (rest.drop e.iicds.toNat)
      have hsplit : (e :: rest.take e.iicds.toNat) ++ rest.drop e.iicds.toNat = e :: rest := by
        rw [List.cons_append, List.take_append_drop]
      refine ⟨v, recvEvents j 0 (e :: rest.take e.iicds.toNat) ++
        .stop :: spurious (rest.drop e.iicds.toNat), ?_, ?_, ?_, fun _ => ?_⟩
      · rw [h.nextbytes, ← hsplit, List.foldlM_append, hu]
        exact hv
      · rw [(hafter.trans hafter').trace, List.append_assoc, List.singleton_append]
      · intro k p byte hmem
        rw [List.mem_append] at hmem
        cases hmem with
        | inl hmem =>
          have hlt := recv_mem_recvEvents hmem
          rw [List.length_cons, htake] at hlt
          omega
        | inr hmem => exact absurd hmem (not_recv_end _)
      · rw [if_pos (by rw [List.length_cons]; omega), Nat.add_comm, List.take_succ_cons,
          List.drop_succ_cons]
  acks _ i hi hlen := by
    cases i with
    | zero => exact ⟨t, rfl, by simp only [h.acken, true_iff]; omega⟩
    | succ i =>
      rw [List.length_cons] at hlen
      have htake : (rest.take i).length = i := by
        rw [List.length_take]
        omega
      obtain ⟨u, hu, -, hack⟩ := (run_count h e hlo (rest.take i)).1 (by omega)
      rw [htake] at hack
      exact ⟨u, by rw [h.nextbytes, List.take_succ_cons]; exact hu, hack⟩

/-- With a larger count byte 33 is stored, behind the end of the buffer. -/
theorem not_blockRead_of_large (h : Awaits t j m) (e : ByteEnd) (hcount : 32 < e.iicds.toNat) :
    ¬ BlockRead poll t j e (List.replicate 33 acked) := by
  rintro ⟨⟨u, evs, hu, htrace, hinside, -⟩, -⟩
  rw [h.nextbytes] at hu
  have hstored : ∃ more, evs = recvEvents j 0 (e :: List.replicate 33 acked) ++ more := by
    have hrun := run_count h e (by omega) (List.replicate 33 acked)
    rw [List.length_replicate] at hrun
    by_cases hmore : 33 < e.iicds.toNat
    · obtain ⟨v, hv, hafter, -⟩ := hrun.1 hmore
      rw [hu, Except.ok.injEq] at hv
      rw [← hv] at hafter
      rw [hafter.trace] at htrace
      exact ⟨[], by rw [List.append_nil, (List.append_right_inj t.trace).mp htrace]⟩
    · obtain ⟨v, ret, hv, -, hafter⟩ := hrun.2 (by omega)
      rw [hu, Except.ok.injEq] at hv
      rw [← hv] at hafter
      exact ⟨[.stop], (List.append_right_inj t.trace).mp (htrace.symm.trans hafter.trace)⟩
  obtain ⟨more, rfl⟩ := hstored
  -- byte 33 is stored, one behind the count and its 32 bytes
  have hlen : 33 < (e :: List.replicate 33 acked).length := by simp
  obtain ⟨byte, hmem⟩ : ∃ byte, Event.recv j (0 + 33) byte ∈ _ := exists_recv hlen
  have hlt := hinside j (0 + 33) byte (List.mem_append_left _ hmem)
  omega

/-- With the count 0 the count byte, which is the last one, is acknowledged. -/
theorem not_blockRead_of_zero (h : Awaits t j m) (e : ByteEnd) (hcount : e.iicds.toNat = 0) :
    ¬ BlockRead poll t j e [] := by
  rintro ⟨-, hacks⟩
  obtain ⟨u, hu, hack⟩ := hacks (by omega) 0 (Nat.zero_le _) (Nat.zero_le _)
  obtain rfl : t = u := Except.ok.inj hu
  exact hack.mp h.acken hcount.symm

/-- For every state in which the count byte of the last message is awaited, whoever calls:
    all sequences of bytes are read as they should be iff the count is from 1 to 32. Every
    interrupt-driven transfer comes to its block read in such a state. -/
theorem blockRead_iff (poll : S3c24xxI2c → Except Fault S3c24xxI2c) :
    (∀ t j m e, Awaits t j m →
      ((∀ rest, BlockRead poll t j e rest) ↔ 1 ≤ e.iicds.toNat ∧ e.iicds.toNat ≤ 32)) ∧
    ∀ (msgs : List I2cMsg) (s : S3c24xxI2c) (irqs : List ByteEnd) (t : S3c24xxI2c) (m : I2cMsg),
      msgs ≠ [] → msgs.length < 2147483648 →
      (∀ m ∈ msgs, ¬ (m.isRd = true ∧ m.isNostart = true)) →
      has s.quirks quirkPoll = false → transfer .ok msgs s irqs = .ok t → t.state = .read →
      t.msgPtr = 0 → curMsg t = .ok m → t.msgIdx + 1 = t.msgs.length → m.isRecvLen = true →
      m.len = 1 → Awaits t t.msgIdx m := by
  constructor
  · intro t j m e h
    constructor
    · intro hall
      constructor
      · by_contra hzero
        exact not_blockRead_of_zero h e (by omega) (hall [])
      · by_contra hlarge
        exact not_blockRead_of_large h e (by omega) (hall _)
    · rintro ⟨hlo, hhi⟩ rest
      exact blockRead_of_count h e hlo hhi rest
  · intro msgs s irqs t m hne hnum hplain hquirk ht hstate hptr hcur hlast hrecv hlen
    apply transfer_awaits hne hnum (not_turnsAround hplain) hquirk ht hstate hptr hcur hlast
    rw [I2cMsg.isBlock, hrecv, hlen]
    rfl

/-- A block read from `0x50`. -/
def blockRead : I2cMsg := ⟨0x50, 0x0401, 1, fun _ => 0⟩

/-- A block read behind its address byte. -/
theorem blockRead_awaits :
    ∃ t, transfer .ok [blockRead] (atRest 0) [acked] = .ok t ∧ Awaits t 0 blockRead :=
  ⟨_, rfl, ⟨rfl, rfl, rfl, rfl, by decide⟩, rfl, rfl, rfl, rfl, by decide⟩

/-- A count of 2. -/
theorem blockRead_iff_two :
    ∃ t, (∀ rest, BlockRead .ok t 0 ⟨0, 2⟩ rest) ↔ 1 ≤ (2#8).toNat ∧ (2#8).toNat ≤ 32 := by
  obtain ⟨t, -, hawaits⟩ := blockRead_awaits
  exact ⟨t, (blockRead_iff .ok).1 t 0 blockRead ⟨0, 2⟩ hawaits⟩

/-- A count of 33: the last byte is stored behind the buffer. -/
theorem blockRead_fails_33 :
    ¬ ∀ (t : S3c24xxI2c) (j : Nat) (m : I2cMsg) (e : ByteEnd) (rest : List ByteEnd),
      Awaits t j m → BlockRead .ok t j e rest := by
  intro h
  obtain ⟨t, -, hawaits⟩ := blockRead_awaits
  exact not_blockRead_of_large hawaits ⟨0, 33⟩ (by decide) (h t 0 blockRead ⟨0, 33⟩ _ hawaits)

end S3c24xx
