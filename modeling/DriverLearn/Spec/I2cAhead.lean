import DriverLearn.Spec.I2cPolled

/-!
# Polled transfers that run ahead

Behind the START of a later message IRQPEND is still that of the byte before, and LASTBIT is
clear. If the address byte is on the bus for more than the two reads of the first try, `is_ack`
takes it for acknowledged, and the driver writes the next byte to IICDS, or goes on to the next
START or the STOP, while the address is still being sent. From there on it is one byte ahead of
the bus, and at the STOP one byte more was moved than has ended. The same happens at the first
START if IRQPEND is set when the transfer begins.

## Key results

- `Sending.stale` / `Sending.ahead`: a write side with a START that finds IRQPEND set
- `pollLoop_early`: a read whose address byte was taken for acknowledged too early
- `pollLoop_late`: a byte that outlasts the tries
-/

namespace S3c24xx

open Word

variable {v : Slave} {ready : Nat → Bool} {s t sp : S3c24xxI2c} {j n q : Nat} {m : I2cMsg}
variable {u : Slot} {rest : List Slot}

/-! ### A slow byte -/

/-- Every byte ends at once, but for the one that is on the bus at read `q`: that one is there at
    the next read, too. -/
def slowAt (q : Nat) : Nat → Bool := fun i => !(i == q || i == q + 1)

theorem slowAt_eq {i : Nat} (hq : i ≠ q) (hnext : i ≠ q + 1) : slowAt q i = true := by
  simp [slowAt, hq, hnext]

theorem lasts_slowAt (q : Nat) : Lasts 2 (slowAt q) := by
  intro i _
  by_cases hq : i = q
  · exact ⟨2, le_rfl, slowAt_eq (by omega) (by omega)⟩
  · by_cases hnext : i = q + 1
    · exact ⟨1, by decide, slowAt_eq (by omega) (by omega)⟩
    · exact ⟨0, by decide, slowAt_eq hq hnext⟩

theorem lastsFrom_slowAt (hi : q + 2 ≤ n) : LastsFrom n 1 (slowAt q) :=
  fun _ hj => ⟨0, by decide, slowAt_eq (by omega) (by omega)⟩

/-- `is_ack` takes a byte for acknowledged that is still on the bus. -/
theorem isAck_stale (v : Slave) (hpend : has s.iiccon iicconIrqpend = true)
    (hbit : has s.iicstat iicstatLastbit = false) :
    isAck (v.poll (slowAt s.polls)) s = (true, { s with polls := s.polls + 2 }) := by
  have hfirst : slowAt s.polls s.polls = false := by simp [slowAt]
  have hsecond : slowAt s.polls (s.polls + 1) = false := by simp [slowAt]
  rw [isAck, show 50 = 49 + 1 from rfl, isAckTries, pollRead_of_waits hfirst]
  simp only [hpend, if_true]
  rw [pollRead_of_waits (s := { s with polls := s.polls + 1 }) hsecond]
  simp only [hbit, Bool.not_false, if_true]

/-- `is_ack` reads two registers if the byte has ended and was acknowledged. -/
theorem isAck_now (hnow : ready s.polls = true) (hack : acknowledged (v.ended s) = true) :
    isAck (v.poll ready) s = (true, { v.ended s with polls := s.polls + 2 }) := by
  have hheld : inFlight { v.ended s with polls := s.polls + 1 } = false := not_inFlight_ended v s
  rw [acknowledged, Bool.and_eq_true, Bool.not_eq_true'] at hack
  rw [isAck, show 50 = 49 + 1 from rfl, isAckTries, pollRead_eq v hnow]
  simp only [hack.1, if_true]
  rw [pollRead_of_held hheld]
  simp only [hack.2, Bool.not_false, if_true]

/-- `is_ack` gives up while the byte is still on the bus. -/
theorem isAckTries_late (v : Slave) {tries : Nat} (hpend : has s.iiccon iicconIrqpend = false)
    (hlate : ∀ i < tries, ready (s.polls + i) = false) :
    isAckTries (v.poll ready) tries s = (false, { s with polls := s.polls + tries }) := by
  induction tries generalizing s with
  | zero => rfl
  | succ tries ih =>
    have hrest : ∀ i < tries, ready ({ s with polls := s.polls + 1 }.polls + i) = false := by
      intro i hi
      rw [← hlate (i + 1) (by omega)]
      congr 1
      simp only
      omega
    rw [isAckTries, pollRead_of_waits (hlate 0 (by omega))]
    simp only [hpend, Bool.false_eq_true, if_false]
    rw [ih (s := { s with polls := s.polls + 1 }) hpend hrest]
    simp only [Prod.mk.injEq, true_and]
    congr 1
    omega

/-! ### Acknowledges of one byte earlier -/

/-- No byte that is sent comes behind one that is received. -/
def SendsFirst (us : List Slot) : Prop := us.Pairwise fun w w' => w'.Sends → w.Sends

/-- What is acknowledged where it belongs is acknowledged one byte earlier, too. -/
theorem SendsFirst.acks (h : SendsFirst (u :: rest)) (hacks : v.Acks n (u :: rest)) :
    v.Acks n rest := by
  induction rest generalizing u n with
  | nil => trivial
  | cons w ws ih =>
    obtain ⟨hfirst, hrest⟩ := List.pairwise_cons.mp h
    exact ⟨fun hw => hacks.1 (hfirst w List.mem_cons_self hw), ih hrest hacks.2⟩

theorem SendsFirst.tail (h : SendsFirst (u :: rest)) : SendsFirst rest :=
  (List.pairwise_cons.mp h).2

/-! ### The write side -/

theorem Complete.of_polls {polls : Nat} (h : Complete { s with polls := polls } rest n t) :
    Complete s rest n t :=
  ⟨h.num, h.idx, h.engine, h.quirks, h.msgs, h.count, h.shown⟩

theorem Complete.moved_eq (h : Complete s rest n t) :
    moved t.trace = moved s.trace + rest.length := by
  rw [moved, h.shown, List.countP_append, List.countP_append, moved,
    Nat.add_assoc, Nat.add_left_cancel_iff]
  rw [show List.countP _ [BusEvent.stop] = 0 from rfl, Nat.add_zero,
    ← List.length_map (f := Slot.shown), List.countP_eq_length]
  intro ev hev
  obtain ⟨w, -, rfl⟩ := List.mem_map.mp hev
  cases w <;> rfl

/-- The loop behind a slot that was begun while every byte ends at once. -/
theorem Sending.complete_slowAt {x : S3c24xxI2c} (h : Sending x u rest)
    (hnostart : ∀ w ∈ x.msgs, w.isNostart = false) (hquirk : has x.quirks quirkPoll = true)
    (hacks : v.Acks (ends x.trace) (u :: rest)) (hsees : Sees v sp x)
    (hpolls : q + 2 ≤ sp.polls) {stat : Reg}
    (hstat : acknowledged (v.ended x) = true → has stat iicstatLastbit = false) {fuel : Nat}
    (hfuel : rest.length + 2 ≤ fuel) :
    ∃ t, pollLoop (v.poll (slowAt q)) fuel stat sp = .ok t ∧
      Complete x rest (rest.length + 1) t := by
  have hshort := lastsFrom_slowAt hpolls
  exact h.complete hnostart hquirk hacks hsees hshort.timely ⟨⟨1, by decide, hshort⟩, .inl hshort⟩
    hstat hfuel

/-- What `i2c_s3c_irq_nextbyte` does behind a START that it takes for acknowledged. -/
theorem nextbyte_first (h : At t j m) (hptr : t.msgPtr = 0)
    (hstate : t.state = .write ∨ t.state = .start ∧ m.isRd = false) {stat : Reg}
    (hstat : has stat iicstatLastbit = false)
    (poll : S3c24xxI2c → Except Fault S3c24xxI2c) :
    i2cS3cIrqNextbyte poll stat t = clearIrqpend <$>
      writeStep poll { t with state := .write } (turn j 0 m (t.msgs.drop (j + 1))) := by
  have hnak : nak stat m = false := by rw [nak, hstat]; rfl
  rcases hstate with hstate | ⟨hstate, hwr⟩
  · have hsame : ({ t with state := .write } : S3c24xxI2c) = t := by rw [← hstate]
    rw [hsame, nextbyte_of_write h hstate, hnak, if_neg (by decide), hptr]
  · rw [nextbyte_of_start h hstate (by omega), hnak, if_neg (by decide), hwr, if_neg (by decide),
      hptr]

/-- A turn of the loop that takes the byte on the bus for acknowledged. -/
theorem pollLoop_stale (hnum : s.msgNum ≠ 0) (hpend : has s.iiccon iicconIrqpend = true)
    (hbit : has s.iicstat iicstatLastbit = false) (v : Slave) (fuel : Nat) (stat : Reg) :
    pollLoop (v.poll (slowAt s.polls)) (fuel + 1) stat s = (do
      let s' ← i2cS3cIrqNextbyte
        (fun s' => pollLoop (v.poll (slowAt s.polls)) fuel s'.iicstat s') stat
        { s with polls := s.polls + 2 }
      pollLoop (v.poll (slowAt s.polls)) fuel (pollRead (v.poll (slowAt s.polls)) s').iicstat
        (pollRead (v.poll (slowAt s.polls)) s')) := by
  rw [pollLoop, if_pos hnum, isAck_stale v hpend hbit]

/-- An empty message whose address byte is taken for acknowledged: the next START or the STOP
    comes while that byte is on the bus. -/
theorem Sending.stale_empty (h : Sending s (.start j m) rest) (hptr : s.msgPtr = 0)
    (hlen : m.len.toNat = 0) (hnostart : ∀ w ∈ s.msgs, w.isNostart = false)
    (hquirk : has s.quirks quirkPoll = true) (hacks : v.Acks (ends s.trace) (.start j m :: rest))
    (hfirst : SendsFirst (.start j m :: rest)) (hpend : has s.iiccon iicconIrqpend = true)
    (hbit : has s.iicstat iicstatLastbit = false) {stat : Reg}
    (hstat : has stat iicstatLastbit = false) {fuel : Nat} (hfuel : rest.length + 2 ≤ fuel) :
    ∃ t, pollLoop (v.poll (slowAt s.polls)) fuel stat s = .ok t ∧
      Complete s rest rest.length t := by
  obtain ⟨f, rfl⟩ : ∃ f, fuel = f + 1 := ⟨fuel - 1, by omega⟩
  have hnum := h.msgNum_ne
  cases h with
  | byte slot => exact absurd slot (start_ne_byteSlot _ _ _ _ _)
  | late here state ptr wired =>
    rw [hptr] at ptr
    cases ptr
  | start here state ptr wired =>
    have hat : At { s with polls := s.polls + 2 } j m := here.of_eq rfl rfl rfl rfl
    -- no byte of the message is left: the call goes on to the next START, or to the STOP
    have hnext := nextbyte_first hat ptr state hstat
      (fun s' => pollLoop (v.poll (slowAt s.polls)) f s'.iicstat s')
    have hproceeds : Proceeds (fun s' => pollLoop (v.poll (slowAt s.polls)) f s'.iicstat s')
        { s with polls := s.polls + 2 } _ _ :=
      (writeStep_next (t := { s with polls := s.polls + 2, state := .write })
        (here.of_eq rfl rfl rfl rfl) rfl hnostart (p := 0) (by omega)).of_state
    rw [bytesFrom_nil (by omega), List.nil_append] at hacks hfirst hfuel ⊢
    obtain ⟨t, hloop, hcomplete⟩ := hproceeds.complete hat hquirk hbit
      ⟨⟨1, by decide, lastsFrom_slowAt le_rfl⟩, .inl (lastsFrom_slowAt le_rfl)⟩ (by omega)
      fun x w ws heq hsending hdid sp stat' hsees htimely hpolls hstat' => by
        rw [heq] at hacks hfirst hfuel
        refine hsending.complete_slowAt (by rw [hdid.msgs]; exact hnostart)
          (by rw [hdid.quirks]; exact hquirk) ?_ hsees hpolls hstat' ?_
        · rw [hdid.ends_eq]
          exact hfirst.acks hacks
        · rw [List.length_cons] at hfuel
          omega
    refine ⟨t, ?_, hcomplete.of_polls⟩
    rw [pollLoop_stale hnum hpend hbit, hnext]
    exact hloop

/-- The first byte of a message is written to IICDS, and IRQPEND cleared, while the address byte
    is on the bus. -/
theorem nextbyte_overwrites (h : At t j m) (hptr : t.msgPtr = 0) (hwired : Wired t m .addr)
    (hstate : t.state = .write ∨ t.state = .start ∧ m.isRd = false) (hlen : 0 < m.len.toNat)
    {stat : Reg} (hstat : has stat iicstatLastbit = false)
    (poll : S3c24xxI2c → Except Fault S3c24xxI2c) :
    ∃ x, i2cS3cIrqNextbyte poll stat t = .ok x ∧ Did t x (byteSlot j 0 m).sent ∧
      Sending x (.start j m) (bytesFrom j m 1 ++ script (j + 1) (t.msgs.drop (j + 1))) ∧
      has x.iicstat iicstatLastbit = has t.iicstat iicstatLastbit := by
  have hsent : Wired (sendByte j 0 (m.buf 0) { t with state := .write }) m .addr :=
    ⟨hwired.engine, hwired.mode, hwired.acken⟩
  refine ⟨clearIrqpend (sendByte j 0 (m.buf 0) { t with state := .write }), ?_,
    ⟨?_, rfl, rfl, rfl⟩,
    .late (h.of_eq h.msg.symm h.idx.symm rfl rfl) rfl rfl (hsent.clearIrqpend rfl), rfl⟩
  · rw [nextbyte_first h hptr hstate hstat, turn, if_pos hlen]
    rfl
  · rw [sent_byteSlot]
    rfl

/-- The loop behind that: the next slot is begun when the address byte has ended. -/
theorem Sending.stale_byte (h : Sending s (.start j m) rest) (hptr : s.msgPtr = 0)
    (hlen : 0 < m.len.toNat) (hnostart : ∀ w ∈ s.msgs, w.isNostart = false)
    (hquirk : has s.quirks quirkPoll = true) (hacks : v.Acks (ends s.trace) (.start j m :: rest))
    (hfirst : SendsFirst (.start j m :: rest)) (hpend : has s.iiccon iicconIrqpend = true)
    (hbit : has s.iicstat iicstatLastbit = false) {stat : Reg}
    (hstat : has stat iicstatLastbit = false) {fuel : Nat} (hfuel : rest.length + 2 ≤ fuel) :
    ∃ t, pollLoop (v.poll (slowAt s.polls)) fuel stat s = .ok t ∧
      Complete s rest rest.length t := by
  obtain ⟨f, rfl⟩ : ∃ f, fuel = f + 1 := ⟨fuel - 1, by omega⟩
  have hnum := h.msgNum_ne
  cases h with
  | byte slot => exact absurd slot (start_ne_byteSlot _ _ _ _ _)
  | late here state ptr wired =>
    rw [hptr] at ptr
    cases ptr
  | start here state ptr wired =>
    obtain ⟨x, hx, hdid, hsending, hxbit⟩ := nextbyte_overwrites
      (t := { s with polls := s.polls + 2 }) (here.of_eq rfl rfl rfl rfl) ptr
      ⟨wired.engine, wired.mode, wired.acken⟩ state hlen hstat
      (fun s' => pollLoop (v.poll (slowAt s.polls)) f s'.iicstat s')
    rw [bytesFrom_cons hlen, ← byteSlot, Nat.zero_add, List.cons_append] at hacks hfirst hfuel ⊢
    rw [List.length_cons] at hfuel ⊢
    -- the slots behind the byte that was lost are acknowledged one byte earlier
    have hacks' : v.Acks (ends x.trace) (.start j m ::
        (bytesFrom j m 1 ++ script (j + 1) (s.msgs.drop (j + 1)))) := by
      rw [hdid.ends_eq]
      exact ⟨hacks.1, hfirst.tail.acks hacks.2⟩
    have hlate : s.polls + 2 ≤ (pollRead (v.poll (slowAt s.polls)) x).polls := by
      rw [pollRead_polls, hdid.polls]
      exact Nat.le_add_right _ 1
    have hlength : (bytesFrom j m 1 ++ script (j + 1) (s.msgs.drop (j + 1))).length + 2 ≤ f := by
      omega
    obtain ⟨t, hloop, hcomplete⟩ := hsending.complete_slowAt (by rw [hdid.msgs]; exact hnostart)
      (by rw [hdid.quirks]; exact hquirk) hacks' (Sees.pollRead v (slowAt s.polls) x x.polls)
      hlate (lastbit_pollRead v (slowAt s.polls) (hxbit.trans hbit)) hlength
    refine ⟨t, ?_, (hcomplete.cons hdid).of_polls⟩
    rw [pollLoop_stale hnum hpend hbit, hx]
    exact hloop

/-- A START whose address byte is taken for acknowledged: all slots are gone through, and one byte
    less has ended. -/
theorem Sending.stale (h : Sending s (.start j m) rest) (hptr : s.msgPtr = 0)
    (hnostart : ∀ w ∈ s.msgs, w.isNostart = false) (hquirk : has s.quirks quirkPoll = true)
    (hacks : v.Acks (ends s.trace) (.start j m :: rest)) (hfirst : SendsFirst (.start j m :: rest))
    (hpend : has s.iiccon iicconIrqpend = true) (hbit : has s.iicstat iicstatLastbit = false)
    {stat : Reg} (hstat : has stat iicstatLastbit = false) {fuel : Nat}
    (hfuel : rest.length + 2 ≤ fuel) :
    ∃ t, pollLoop (v.poll (slowAt s.polls)) fuel stat s = .ok t ∧
      Complete s rest rest.length t := by
  rcases Nat.eq_zero_or_pos m.len.toNat with hlen | hlen
  · exact h.stale_empty hptr hlen hnostart hquirk hacks hfirst hpend hbit hstat hfuel
  · exact h.stale_byte hptr hlen hnostart hquirk hacks hfirst hpend hbit hstat hfuel

/-- A turn of the loop that reads the registers twice. -/
theorem pollLoop_now (hsees : Sees v sp s) (hnow : ready sp.polls = true) (hnum : s.msgNum ≠ 0)
    (hack : acknowledged (v.ended s) = true) (fuel : Nat) (stat : Reg) :
    pollLoop (v.poll ready) (fuel + 1) stat sp = (do
      let s' ← i2cS3cIrqNextbyte (fun s' => pollLoop (v.poll ready) fuel s'.iicstat s') stat
        { v.ended s with polls := sp.polls + 2 }
      pollLoop (v.poll ready) fuel (pollRead (v.poll ready) s').iicstat
        (pollRead (v.poll ready) s')) := by
  have hspnum := hsees.msgNum
  obtain ⟨n, hn⟩ := hsees
  have hspack : acknowledged (v.ended sp) = true := by
    rw [hn]
    exact hack
  rw [pollLoop, if_pos (by rw [hspnum]; exact hnum), isAck_now hnow hspack, hn]

variable {poll : S3c24xxI2c → Except Fault S3c24xxI2c} {r : Except Fault S3c24xxI2c}

/-- A call that comes to a START. -/
theorem Proceeds.of_start (h : Proceeds poll s r (.start j m :: rest)) :
    ∃ x, r = (fun s => clearIrqpend { s with state := .start }) <$> launch poll x ∧
      Sending x (.start j m) rest ∧ x.msgPtr = 0 ∧ Did s x (Slot.start j m).sent ∧
      has x.iicstat iicstatLastbit = false ∧
      has x.iiccon iicconIrqpend = has s.iiccon iicconIrqpend := by
  generalize hus : Slot.start j m :: rest = us at h
  cases h with
  | stop => cases hus
  | @start x k m' ws sending ptr did lastbit pending =>
    obtain ⟨hslot, rfl⟩ := List.cons.inj hus
    rw [hslot]
    exact ⟨x, rfl, sending, ptr, did, lastbit, pending⟩
  | byte => exact absurd (List.cons.inj hus).1 (start_ne_byteSlot _ _ _ _ _)

/-- A call that comes to a byte. -/
theorem Proceeds.of_byte (h : Proceeds poll s r (u :: rest)) (hu : ∀ k w, u ≠ .start k w) :
    ∃ x, r = .ok x ∧ Sending x u rest ∧ Did s x u.sent ∧
      has x.iicstat iicstatLastbit = has s.iicstat iicstatLastbit := by
  generalize hus : u :: rest = us at h
  cases h with
  | stop => cases hus
  | start => exact absurd (List.cons.inj hus).1 (hu _ _)
  | @byte x j p m ws sending did lastbit pending =>
    obtain ⟨rfl, rfl⟩ := List.cons.inj hus
    exact ⟨x, rfl, sending, did, lastbit⟩

/-- Behind acknowledged bytes a START is taken for acknowledged as soon as it is set: IRQPEND is
    still that of the byte before. -/
theorem Sending.ahead {bytes ws : List Slot} {k : Nat} {m' : I2cMsg}
    (h : Sending s u (bytes ++ .start k m' :: ws)) (hbytes : ∀ i w, .start i w ∉ bytes)
    (hnostart : ∀ w ∈ s.msgs, w.isNostart = false) (hquirk : has s.quirks quirkPoll = true)
    (hacks : v.Acks (ends s.trace) (u :: (bytes ++ .start k m' :: ws)))
    (hfirst : SendsFirst (.start k m' :: ws)) (hsees : Sees v sp s)
    (hq : q = sp.polls + 2 + 3 * bytes.length) {stat : Reg}
    (hstat : has stat iicstatLastbit = false) {fuel : Nat}
    (hfuel : (bytes ++ .start k m' :: ws).length + 2 ≤ fuel) :
    ∃ t, pollLoop (v.poll (slowAt q)) fuel stat sp = .ok t ∧
      Complete s (bytes ++ .start k m' :: ws) (bytes ++ .start k m' :: ws).length t := by
  -- on the bytes that are sent before the START; the slow byte is the one at the START
  induction bytes generalizing s u sp stat fuel with
  | nil =>
    rw [List.nil_append] at h hacks hfuel ⊢
    rw [List.length_cons] at hfuel ⊢
    obtain ⟨f, rfl⟩ : ∃ f, fuel = f + 1 + 1 := ⟨fuel - 2, by omega⟩
    have hack := (h.acknowledged_iff v).mpr hacks.1
    have hflight := h.inFlight
    have hproceeds : Proceeds
        (fun s' => pollLoop (v.poll (slowAt q)) (f + 1) s'.iicstat s') _ _ _ :=
      h.proceeds hnostart hstat v (sp.polls + 2)
    obtain ⟨x, hr, hsending, hptr, hdid, hlastbit, hpending⟩ := hproceeds.of_start
    have hbegan := hdid.began hflight
    have hxquirk : has x.quirks quirkPoll = true := by rw [hbegan.quirks, hquirk]
    -- IRQPEND and LASTBIT are those of the byte in front: the loop in the START acts on them
    have hpend : has x.iiccon iicconIrqpend = true := by
      rw [hpending, ended_eq v hflight]
      exact has_set_self _ (by decide)
    obtain rfl : q = x.polls := by rw [hq, hdid.polls]; rfl
    have hlength : ws.length + 2 ≤ f + 1 := by omega
    obtain ⟨t, hloop, hcomplete⟩ := hsending.stale hptr (by rw [hbegan.msgs]; exact hnostart)
      hxquirk (by rw [hbegan.count]; exact hacks.2) hfirst hpend hlastbit hlastbit hlength
    -- the loop in the START came to the end of the transfer, so the loop around it stops
    have hover := ((hcomplete.cons hdid).back).pollRead v (slowAt x.polls)
    refine ⟨_, ?_, hover.ended hflight⟩
    rw [pollLoop_now hsees (slowAt_eq (by omega) (by omega)) h.msgNum_ne hack, hr,
      launch_of_poll hxquirk, hloop]
    exact pollLoop_over v (slowAt x.polls) hover.num f _
  | cons w bytes ih =>
    rw [List.cons_append] at h hacks hfuel ⊢
    rw [List.length_cons] at hfuel hq ⊢
    obtain ⟨f, rfl⟩ : ∃ f, fuel = f + 1 := ⟨fuel - 1, by omega⟩
    have hack := (h.acknowledged_iff v).mpr hacks.1
    have hflight := h.inFlight
    have hproceeds : Proceeds (fun s' => pollLoop (v.poll (slowAt q)) f s'.iicstat s') _ _ _ :=
      h.proceeds hnostart hstat v (sp.polls + 2)
    obtain ⟨x, hr, hsending, hdid, hlastbit⟩ := hproceeds.of_byte fun i w' hw =>
      hbytes i w' (hw ▸ List.mem_cons_self)
    have hbegan := hdid.began hflight
    have hxpolls : x.polls = sp.polls + 2 := hdid.polls
    have hlength : (bytes ++ .start k m' :: ws).length + 2 ≤ f := by omega
    obtain ⟨t, hloop, hcomplete⟩ := ih hsending
      (fun i w' hmem => hbytes i w' (List.mem_cons_of_mem w hmem))
      (by rw [hbegan.msgs]; exact hnostart) (by rw [hbegan.quirks]; exact hquirk)
      (by rw [hbegan.count]; exact hacks.2) (Sees.pollRead v (slowAt q) x x.polls)
      (by rw [pollRead_polls]; simp only; omega)
      (lastbit_pollRead v (slowAt q) (hlastbit.trans (lastbit_of_acknowledged hack))
        ((hsending.acknowledged_iff v).mpr (by rw [hbegan.count]; exact hacks.2.1))) hlength
    refine ⟨t, ?_, (hcomplete.cons hdid).ended hflight⟩
    rw [pollLoop_now hsees (slowAt_eq (by omega) (by omega)) h.msgNum_ne hack, hr]
    exact hloop

/-! ### The read side -/

/-- A polled read that has moved a byte more than have ended. -/
structure Early (s : S3c24xxI2c) : Prop where
  count : ends s.trace < moved s.trace
  live : s.msgNum ≠ 0 → s.state = .read ∧ inFlight s = true ∧ .stop ∉ bus s.trace
  done : s.msgNum = 0 → s.engine = .idle

theorem early_stop (hcount : ends s.trace < moved s.trace) (ret : Int) :
    Early (clearIrqpend (s3c24xxI2cStop s ret)) := by
  refine ⟨?_, fun hlive => absurd rfl hlive, fun _ => rfl⟩
  rw [show (clearIrqpend (s3c24xxI2cStop s ret)).trace = s.trace ++ [.stop] from rfl,
    moved_append, ends_append]
  exact hcount

/-- The label `prepare_read` leaves it so, and clearing IRQPEND too. -/
theorem early_prepareRead (hcount : ends s.trace < moved s.trace) (hnum : s.msgNum ≠ 0)
    (hstate : s.state = .read) (hengine : s.engine ≠ .idle) (hstop : .stop ∉ bus s.trace)
    (hrun : prepareRead s = .ok t) : Early (clearIrqpend t) ∧ t.polls = s.polls := by
  -- but for the STOP the branches leave alone what `Early` speaks of
  have hstays : ∀ x, x.trace = s.trace → x.msgNum = s.msgNum → x.state = s.state →
      x.engine = s.engine → Early (clearIrqpend x) := by
    intro x htrace hxnum hxstate hxengine
    have hflight : inFlight (clearIrqpend x) = true := by
      simp only [inFlight, clearIrqpend, hxengine]
      cases hcases : s.engine with
      | idle => exact absurd hcases hengine
      | _ => rfl
    refine ⟨?_, fun _ => ⟨hxstate.trans hstate, hflight, ?_⟩, fun hover => ?_⟩
    · rw [show (clearIrqpend x).trace = s.trace from htrace]
      exact hcount
    · rw [show (clearIrqpend x).trace = s.trace from htrace]
      exact hstop
    · exact absurd (hxnum.symm.trans hover) hnum
  obtain ⟨m, hm, hrest⟩ := Run.bind_eq_ok hrun
  split_ifs at hrest
  all_goals obtain rfl := Except.ok.inj hrest
  · exact ⟨hstays _ rfl rfl rfl rfl, rfl⟩
  · exact ⟨hstays _ rfl rfl rfl rfl, rfl⟩
  · exact ⟨early_stop hcount 0, rfl⟩
  · exact ⟨hstays _ rfl rfl rfl rfl, rfl⟩
  · exact ⟨hstays _ rfl rfl rfl rfl, rfl⟩

/-- The address byte of a first read is taken for acknowledged. -/
theorem early_nextbyte_start (hat : At s j m) (hrd : m.isRd = true) (hstate : s.state = .start)
    (hcount : ends s.trace < moved s.trace) (hengine : s.engine ≠ .idle)
    (hstop : .stop ∉ bus s.trace) {stat : Reg} (hstat : has stat iicstatLastbit = false)
    {poll : S3c24xxI2c → Except Fault S3c24xxI2c}
    (hrun : i2cS3cIrqNextbyte poll stat s = .ok t) : Early t ∧ t.polls = s.polls := by
  have hnum : s.msgNum ≠ 0 := by
    have hlt := hat.lt
    rw [hat.num]
    omega
  rw [i2cS3cIrqNextbyte, hstate] at hrun
  obtain ⟨x, hx, rfl⟩ := Run.map_eq_ok hrun
  obtain ⟨m', hm', hrest⟩ := Run.bind_eq_ok hx
  obtain rfl := Except.ok.inj (hat.curMsg.symm.trans hm')
  simp only [hstat, hrd, Bool.false_and, Bool.false_eq_true, if_false, if_true] at hrest
  split_ifs at hrest
  · obtain rfl := Except.ok.inj hrest
    exact ⟨early_stop (s := { s with state := .read }) hcount 0, rfl⟩
  · exact early_prepareRead (s := { s with state := .read }) hcount hnum rfl hengine hstop hrest

/-- The next byte of the read. -/
theorem early_nextbyte_read (hcount : ends s.trace ≤ moved s.trace) (hnum : s.msgNum ≠ 0)
    (hstate : s.state = .read) (hengine : s.engine ≠ .idle) (hstop : .stop ∉ bus s.trace)
    {stat : Reg} {poll : S3c24xxI2c → Except Fault S3c24xxI2c}
    (hrun : i2cS3cIrqNextbyte poll stat s = .ok t) :
    Early t ∧ Fresh t ∧ t.polls = s.polls := by
  rw [i2cS3cIrqNextbyte, hstate] at hrun
  obtain ⟨x, hx, rfl⟩ := Run.map_eq_ok hrun
  obtain ⟨m, hm, hrest⟩ := Run.bind_eq_ok hx
  have htrace : (storeByte s.iicds m s).trace =
      s.trace ++ [.recv (s.msg.getD 0) s.msgPtr s.iicds] := rfl
  obtain ⟨hearly, hpolls⟩ := early_prepareRead (s := storeByte s.iicds m s)
    (by rw [htrace, moved_append, ends_append]; exact Nat.lt_succ_of_le hcount) hnum hstate hengine
    (by rw [htrace, bus_append]; simpa [bus, Event.bus] using hstop) hrest
  exact ⟨hearly, fresh_clearIrqpend x, hpolls⟩

/-- The loop gives up without the STOP, or stays a byte ahead. -/
theorem Early.pollLoop (h : Early s) (hsees : Sees v sp s) (htimely : Timely ready sp)
    {fuel : Nat} {stat : Reg} (hrun : pollLoop (v.poll ready) fuel stat sp = .ok t) :
    .stop ∉ bus t.trace ∨ ends t.trace < moved t.trace := by
  induction fuel generalizing s sp stat with
  | zero => cases hrun
  | succ fuel ih =>
    by_cases hnum : s.msgNum = 0
    · obtain ⟨n, rfl⟩ := hsees.over (h.done hnum)
      have hover : ({ s with polls := n } : S3c24xxI2c).msgNum = 0 := hnum
      rw [pollLoop_over v ready hover, Except.ok.injEq] at hrun
      rw [← hrun]
      exact .inr h.count
    obtain ⟨hstate, hflight, hstop⟩ := h.live hnum
    have hcount := h.count
    have hended := ended_eq v hflight
    have hidle : ¬ s.engine = .idle := by
      intro hidle
      simp [inFlight, hidle] at hflight
    obtain ⟨k, hle, hk⟩ := pollLoop_sees hsees htimely hnum fuel stat
    rw [hk] at hrun
    cases hack : acknowledged (v.ended s) with
    -- the byte is refused, and the loop gives up
    | false =>
      rw [hack, if_neg (by decide), Except.ok.injEq] at hrun
      left
      rw [← hrun, show ({ v.ended s with polls := k } : S3c24xxI2c).trace = (v.ended s).trace
        from rfl, bus_ended]
      exact hstop
    -- the byte is stored in the place of the one before, and the next one comes in
    | true =>
      rw [hack, if_pos rfl] at hrun
      obtain ⟨x, hx, hloop⟩ := Run.bind_eq_ok hrun
      rw [hended] at hx
      have hends : ends (byteEnd (v.answer s) s).trace ≤ moved (byteEnd (v.answer s) s).trace := by
        rw [← hended, ends_ended v hflight, moved, bus_ended]
        exact hcount
      have hquiet : .stop ∉ bus (byteEnd (v.answer s) s).trace := by
        rw [← hended, bus_ended]
        exact hstop
      obtain ⟨hearly, hfresh, hpolls⟩ := early_nextbyte_read
        (s := { byteEnd (v.answer s) s with polls := k }) hends hnum hstate
        (by simp [byteEnd, emit, hidle]) hquiet hx
      have hlater : sp.polls ≤ (pollRead (v.poll ready) x).polls := by
        rw [pollRead_polls, hpolls]
        exact Nat.le_succ_of_le hle
      exact ih hearly (Sees.pollRead v ready x x.polls)
        (htimely.of_fresh hlater (hfresh.pollRead v ready)) hloop

/-- A read whose address byte is taken for acknowledged gives up without the STOP, or stays a byte
    ahead. -/
theorem pollLoop_early (hat : At s j m) (hrd : m.isRd = true) (hstate : s.state = .start)
    (hcount : ends s.trace < moved s.trace) (hengine : s.engine ≠ .idle)
    (hstop : .stop ∉ bus s.trace) (hpend : has s.iiccon iicconIrqpend = true)
    (hbit : has s.iicstat iicstatLastbit = false) {stat : Reg}
    (hstat : has stat iicstatLastbit = false) {fuel : Nat}
    (hrun : pollLoop (v.poll (slowAt s.polls)) fuel stat s = .ok t) :
    .stop ∉ bus t.trace ∨ ends t.trace < moved t.trace := by
  have hnum : s.msgNum ≠ 0 := by
    have hlt := hat.lt
    rw [hat.num]
    omega
  cases fuel with
  | zero => cases hrun
  | succ fuel =>
    rw [pollLoop_stale hnum hpend hbit] at hrun
    obtain ⟨x, hx, hloop⟩ := Run.bind_eq_ok hrun
    obtain ⟨hearly, hpolls⟩ := early_nextbyte_start
      (s := { s with polls := s.polls + 2 }) (hat.of_eq rfl rfl rfl rfl) hrd hstate hcount hengine
      hstop hstat hx
    -- from here on every byte ends at once, but the read stays one byte ahead
    have hlate : s.polls + 2 ≤ (pollRead (v.poll (slowAt s.polls)) x).polls := by
      rw [pollRead_polls, hpolls]
      exact Nat.le_add_right _ 1
    exact hearly.pollLoop (Sees.pollRead v (slowAt s.polls) x x.polls)
      (lastsFrom_slowAt hlate).timely hloop

/-! ### A byte that lasts too long -/

/-- The loop gives up while the first byte is on the bus. -/
theorem pollLoop_late (v : Slave) (hnum : s.msgNum ≠ 0)
    (hpend : has s.iiccon iicconIrqpend = false)
    (hlate : ∀ i < 50, ready (s.polls + i) = false) (fuel : Nat) (stat : Reg) :
    pollLoop (v.poll ready) (fuel + 1) stat s = .ok { s with polls := s.polls + 50 } := by
  rw [pollLoop, if_pos hnum, isAck, isAckTries_late v hpend hlate]

/-- A bus on which the byte found at read `q` lasts fifty reads. -/
def lateAt (q : Nat) : Nat → Bool := fun i => i < q || q + 50 ≤ i

theorem lasts_lateAt (q : Nat) : Lasts 50 (lateAt q) := by
  intro i _
  by_cases hq : i < q
  · exact ⟨0, by decide, by simp [lateAt, hq]⟩
  · exact ⟨50, le_rfl, by simp [lateAt]; omega⟩

end S3c24xx
