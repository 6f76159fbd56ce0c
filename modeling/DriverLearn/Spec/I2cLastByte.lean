import DriverLearn.Spec.I2cAcken
import DriverLearn.Spec.I2cReturn

/-!
# The last byte of a read

A read behind any writes, every byte that is sent acknowledged: the driver acknowledges the
bytes of the read up to the last one, refuses that one, so that the slave lets go of the
bus, and issues the STOP right behind it.

## Key results

- `playAll_prefix`: a script whose first slots pass waits in the next one
- `transfer_comes_to_read`: the START of the read
- `lastByte_refused`: ACKEN over the bytes of the read
-/

namespace S3c24xx

open Word

variable {s t : S3c24xxI2c} {ws : List I2cMsg} {r : I2cMsg} {acks : List ByteEnd}

/-- Slots that pass lead to the next one. -/
theorem playAll_prefix {us : List Slot} {es : List ByteEnd} (hfixed : ∀ u ∈ us, u.Fixed)
    (hpass : AllPass us es) (v : Slot) (rest : List Slot) :
    playAll (us ++ v :: rest) es = (blocks us es ++ v.enter, .waiting v rest) := by
  induction us generalizing es with
  | nil =>
    cases es with
    | nil => simp [playAll, play, blocks]
    | cons e es => exact hpass.elim
  | cons u us ih =>
    cases es with
    | nil => exact hpass.elim
    | cons e es =>
      obtain ⟨hu, hus⟩ := hpass
      have hrest := ih (fun w hw => hfixed w (List.mem_cons_of_mem u hw)) hus
      obtain ⟨w, tail, hcons⟩ : ∃ w tail, us ++ v :: rest = w :: tail := by
        cases us with
        | nil => exact ⟨v, rest, rfl⟩
        | cons w us => exact ⟨w, us ++ v :: rest, rfl⟩
      rw [hcons, playAll, Prod.mk.injEq] at hrest
      rw [List.cons_append, playAll, play, hu, if_pos rfl, hfixed u List.mem_cons_self, hcons]
      simp only [hrest.2, blocks, List.append_assoc, ← hrest.1]

/-- Slots that are sent pass if they are all acknowledged. -/
theorem allPass_of_sends {us : List Slot} {es : List ByteEnd} (hsends : ∀ u ∈ us, u.Sends)
    (hlen : es.length = us.length)
    (hacked : ∀ e ∈ es, has e.iicstat iicstatLastbit = false) : AllPass us es := by
  induction us generalizing es with
  | nil =>
    rw [List.length_nil, List.length_eq_zero_iff] at hlen
    rw [hlen]
    trivial
  | cons u us ih =>
    cases es with
    | nil => simp at hlen
    | cons e es =>
      exact ⟨(hsends u List.mem_cons_self).passes (hacked e List.mem_cons_self),
        ih (fun v hv => hsends v (List.mem_cons_of_mem u hv)) (by simpa using hlen)
          fun e' he' => hacked e' (List.mem_cons_of_mem e he')⟩

/-- Writes, and a last read with a START. -/
structure EndsInRead (ws : List I2cMsg) (r : I2cMsg) : Prop where
  writes : ∀ w ∈ ws, w.isRd = false
  rd : r.isRd = true
  start : r.isNostart = false
  num : (ws ++ [r]).length < 2147483648

/-- Such a list is one of writes and a last read. -/
theorem EndsInRead.plain (h : EndsInRead ws r) : WritesThenRead (ws ++ [r]) :=
  have hread : ∀ r' ∈ some r, r'.isRd = true ∧ r'.isNostart = false := by
    intro r' hr'
    obtain rfl := Option.some.inj hr'
    exact ⟨h.rd, h.start⟩
  writesThenRead_append h.writes hread

/-- The direction does not change without a START. -/
theorem EndsInRead.not_turnsAround (h : EndsInRead ws r) : ¬ TurnsAround (ws ++ [r]) := by
  apply S3c24xx.not_turnsAround
  rintro m hmem ⟨hrd, hnostart⟩
  rw [List.mem_append, List.mem_singleton] at hmem
  cases hmem with
  | inl hw =>
    rw [h.writes m hw] at hrd
    cases hrd
  | inr heq =>
    rw [heq, h.start] at hnostart
    cases hnostart

/-- The address bytes and the bytes of the writes acknowledged, the driver issues the START
    of the read, and ACKEN is set. -/
theorem transfer_comes_to_read (h : EndsInRead ws r) (hquirk : has s.quirks quirkPoll = false)
    (hlen : acks.length = (script 0 ws).length)
    (hacked : ∀ e ∈ acks, has e.iicstat iicstatLastbit = false) :
    ∃ t, transfer .ok (ws ++ [r]) s acks = .ok t ∧ At t ws.length r ∧ t.state = .start ∧
      t.msgPtr = 0 ∧ t.msgs.length = ws.length + 1 ∧ ackEnabled t = true ∧
      t.trace = s.trace ++ (blocks (script 0 ws) acks ++
        [.start ws.length (r.startStat ||| iicstatStart) r.addrByte]) := by
  have hopen : opening ws.length r = [.start ws.length r] := by
    rw [opening, if_pos (Or.inr h.start)]
  have hscript : script 0 (ws ++ [r]) =
      script 0 ws ++ .start ws.length r :: (bytesFrom ws.length r 0 ++ []) := by
    rw [script_append, script, Nat.zero_add, hopen]
    rfl
  -- every slot in front of the read sends a byte, and each of them was acknowledged
  have hsends : ∀ u ∈ script 0 ws, u.Sends := fun u hu => (script_writes h.writes 0 u hu).sends
  obtain ⟨m, ms, t, hmsgs, ht, htrace, hstored, hreached⟩ :=
    transfer_plays (by simp) h.plain h.num s acks
  have hlength : t.msgs.length = ws.length + 1 := by
    rw [hstored, length_foldl_store, List.length_append, List.length_singleton]
  have hack : AckInv t :=
    (run_ackInv (hmsgs ▸ h.num) (hmsgs ▸ h.not_turnsAround) s acks ht).2
  rw [hscript, playAll_prefix (fun u hu => (hsends u hu).fixed)
    (allPass_of_sends hsends hlen hacked)] at htrace hreached
  generalize bytesFrom ws.length r 0 ++ [] = rest at hreached
  refine ⟨t, by rw [hmsgs, transfer_eq hquirk, ht], ?_⟩
  cases hreached with
  | start hat hstate hptr hplain =>
    exact ⟨hat, hstate, hptr, hlength, hack.sending (Or.inl hstate), htrace⟩

/-- The address byte of the read is acknowledged: its first byte is awaited. -/
theorem irq_address {j : Nat} (hat : At t j r) (hstate : t.state = .start) (hptr : t.msgPtr = 0)
    (hlast : j + 1 = t.msgs.length) (hack : ackEnabled t = true) (hrd : r.isRd = true)
    (hlen : 1 ≤ r.len.toNat) {a : ByteEnd} (ha : has a.iicstat iicstatLastbit = false) :
    ∃ u, s3c24xxI2cIrq t a = .ok u ∧ Receiving u j r 0 ∧ After t u [.byteEnd false] := by
  have hnak : ¬ nak a.iicstat r = true := by
    rw [nak, ha, Bool.false_and]
    decide
  have hread : At { byteEnd a t with state := .read } j r := hat.of_eq rfl rfl rfl rfl
  obtain ⟨hreceiving, hafter⟩ := readStep_receiving hread rfl hptr hlast hlen
    ((ackEnabled_byteEnd a t).trans hack)
  refine ⟨_, ?_, hreceiving, ?_⟩
  · rw [irq_start hat hstate hptr a, if_neg hnak, if_pos hrd]
    rfl
  · have hfirst : After t { byteEnd a t with state := .read } [.byteEnd false] :=
      ⟨by rw [← ha]; rfl, rfl⟩
    exact hfirst.trans hafter

/-- For every list of writes and a last read of `n` bytes and every transfer in which what
    is sent is acknowledged: ACKEN is set at the START of the read, and with `i` bytes stored
    just if more than one is left. Behind the last byte comes the STOP. -/
theorem lastByte_refused (s : S3c24xxI2c) (ws : List I2cMsg) (r : I2cMsg) (acks : List ByteEnd)
    (a : ByteEnd) (h : EndsInRead ws r) (hblock : r.isRecvLen = false) (hr : 1 ≤ r.len.toNat)
    (hquirk : has s.quirks quirkPoll = false) (hlen : acks.length = (script 0 ws).length)
    (hacked : ∀ e ∈ acks, has e.iicstat iicstatLastbit = false)
    (ha : has a.iicstat iicstatLastbit = false) :
    ∃ t, transfer .ok (ws ++ [r]) s acks = .ok t ∧
      t.trace = s.trace ++ (blocks (script 0 ws) acks ++
        [.start ws.length (r.startStat ||| iicstatStart) r.addrByte]) ∧
      ackEnabled t = true ∧
      (∀ es : List ByteEnd, es.length < r.len.toNat →
        ∃ u, (a :: es).foldlM s3c24xxI2cIrq t = .ok u ∧ u.state = .read ∧
          u.trace = t.trace ++ .byteEnd false :: recvEvents ws.length 0 es ∧
          (ackEnabled u = true ↔ es.length < r.len.toNat - 1)) ∧
      ∀ es post : List ByteEnd, es.length = r.len.toNat →
        ∃ u v, (a :: es).foldlM s3c24xxI2cIrq t = .ok u ∧ ackEnabled u = false ∧
          u.trace = t.trace ++ .byteEnd false :: recvEvents ws.length 0 es ++ [.stop] ∧
          post.foldlM s3c24xxI2cIrq u = .ok v ∧ v.trace = u.trace ++ spurious post := by
  obtain ⟨t, ht, hat, hstate, hptr, hlength, hack, htrace⟩ :=
    transfer_comes_to_read h hquirk hlen hacked
  obtain ⟨x, hx, hreceiving, hafter⟩ :=
    irq_address hat hstate hptr hlength.symm hack h.rd hr ha
  have hfirst : r.isBlock = false := by rw [I2cMsg.isBlock, hblock, Bool.false_and]
  refine ⟨t, ht, htrace, hack, ?_, ?_⟩
  · intro es hes
    obtain ⟨u, m', hu, hreceiving', hblock', hlen', hafter'⟩ :=
      run_receiving hfirst hreceiving es (by omega)
    refine ⟨u, ?_, hreceiving'.state, (hafter.trans hafter').trace, ?_⟩
    · rw [List.foldlM_cons, hx]
      exact hu
    · rw [hreceiving'.acken, hblock', hlen']
      simp only [Bool.false_eq_true, false_or]
      omega
  -- behind the last byte: the STOP, and no further interrupt changes anything
  · intro es post hes
    obtain ⟨u, hu, hended, hack', hafter'⟩ := run_received hfirst hreceiving es (by omega)
    obtain ⟨v, hv, -, hafterv⟩ := run_ended hended post
    refine ⟨u, v, ?_, hack', ?_, hv, hafterv.trace⟩
    · rw [List.foldlM_cons, hx]
      exact hu
    · rw [(hafter.trans hafter').trace]
      simp only [List.cons_append, List.nil_append, List.append_assoc]

/-- A write of two bytes and a read of one. -/
theorem lastByte_refused_two_one :
    ∃ t, transfer .ok ([twoBytes] ++ [oneByte]) (atRest 0) [acked, acked, acked] = .ok t ∧
      t.trace = [] ++ (blocks (script 0 [twoBytes]) [acked, acked, acked] ++
        [.start 1 (oneByte.startStat ||| iicstatStart) oneByte.addrByte]) ∧
      ackEnabled t = true ∧
      (∀ es : List ByteEnd, es.length < 1 →
        ∃ u, (acked :: es).foldlM s3c24xxI2cIrq t = .ok u ∧ u.state = .read ∧
          u.trace = t.trace ++ .byteEnd false :: recvEvents 1 0 es ∧
          (ackEnabled u = true ↔ es.length < 1 - 1)) ∧
      ∀ es post : List ByteEnd, es.length = 1 →
        ∃ u v, (acked :: es).foldlM s3c24xxI2cIrq t = .ok u ∧ ackEnabled u = false ∧
          u.trace = t.trace ++ .byteEnd false :: recvEvents 1 0 es ++ [.stop] ∧
          post.foldlM s3c24xxI2cIrq u = .ok v ∧ v.trace = u.trace ++ spurious post :=
  lastByte_refused (atRest 0) [twoBytes] oneByte [acked, acked, acked] acked
    ⟨by decide, rfl, rfl, by decide⟩ rfl (by decide) rfl rfl (by decide) (by decide)

end S3c24xx
