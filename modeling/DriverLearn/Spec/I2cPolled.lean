import DriverLearn.Spec.I2cQuiescent
import DriverLearn.Spec.I2cReading
import DriverLearn.Spec.I2cStalled

/-!
# Polled transfers that lose no byte

As long as every byte is acknowledged, the polling loop does for a transfer what the
interrupts do. Behind the START of a later message the loop runs nested in
`i2c_s3c_irq_nextbyte`, takes all the bytes that are left and comes to the STOP; the loops
around it find `msg_num` 0 and end.

## Key results

- `Sending.complete`: a polled write side whose bytes are all acknowledged
- `Addressed.pollLoop`: a polled read, up to where ACKEN is cleared
-/

namespace S3c24xx

open Word

variable {v : Slave} {ready : Nat → Bool} {s t sp : S3c24xxI2c} {j : Nat} {m : I2cMsg} {u : Slot}
variable {rest : List Slot} {n : Nat}

/-! ### Every byte acknowledged -/

/-- From `s` on a polled transfer went through the slots `rest` to the STOP, and `n` bytes have
    ended. -/
structure Complete (s : S3c24xxI2c) (rest : List Slot) (n : Nat) (t : S3c24xxI2c) : Prop where
  num : t.msgNum = 0
  idx : toS32 t.msgIdx = s.msgs.length
  engine : t.engine = .idle
  quirks : t.quirks = s.quirks
  msgs : t.msgs = s.msgs
  count : ends t.trace = ends s.trace + n
  shown : bus t.trace = bus s.trace ++ rest.map Slot.shown ++ [.stop]

/-- A read of the registers behind the STOP. -/
theorem Complete.pollRead (h : Complete s rest n t) (v : Slave) (ready : Nat → Bool) :
    Complete s rest n (pollRead (v.poll ready) t) := by
  have hheld : inFlight t = false := by rw [inFlight, h.engine]; rfl
  rw [pollRead_of_held hheld]
  exact ⟨h.num, h.idx, h.engine, h.quirks, h.msgs, h.count, h.shown⟩

/-- What the nested loops do behind the STOP. -/
theorem Complete.back (h : Complete s rest n t) :
    Complete s rest n (clearIrqpend { t with state := .start }) where
  num := h.num
  idx := h.idx
  engine := by
    simp only [clearIrqpend, h.engine]
    decide
  quirks := h.quirks
  msgs := h.msgs
  count := h.count
  shown := h.shown

/-- A slot more in front. -/
theorem Complete.cons {x : S3c24xxI2c} (h : Complete x rest n t) (hdid : Did s x u.sent) :
    Complete s (u :: rest) n t where
  num := h.num
  idx := by rw [h.idx, hdid.msgs]
  engine := h.engine
  quirks := h.quirks.trans hdid.quirks
  msgs := h.msgs.trans hdid.msgs
  count := by rw [h.count, hdid.ends_eq]
  shown := by rw [h.shown, hdid.bus_eq, List.map_cons]; simp

/-- The end of a byte more in front. -/
theorem Complete.ended {polls : Nat} (h : Complete { v.ended s with polls := polls } rest n t)
    (hflight : inFlight s = true) : Complete s rest (n + 1) t where
  num := h.num
  idx := h.idx.trans (by rw [← ended_msgs v s])
  engine := h.engine
  quirks := h.quirks.trans (ended_quirks v s)
  msgs := h.msgs.trans (ended_msgs v s)
  count := by
    rw [h.count, show ends ({ v.ended s with polls := polls } : S3c24xxI2c).trace =
      ends s.trace + 1 from ends_ended v hflight]
    omega
  shown := by
    rw [h.shown, show bus ({ v.ended s with polls := polls } : S3c24xxI2c).trace = bus s.trace
      from bus_ended v s]

/-- From read `i` on no byte of the slots outlasts what `is_ack` does for it: its tries, and at a
    START, where IRQPEND is still that of the byte before, its first two reads. -/
structure InTime (ready : Nat → Bool) (i : Nat) (us : List Slot) : Prop where
  lasts : ∃ n < 50, LastsFrom i n ready
  starts : LastsFrom i 1 ready ∨ ∀ k m', .start k m' ∉ us

theorem InTime.tail {i i' : Nat} (h : InTime ready i (u :: rest)) (hle : i ≤ i') :
    InTime ready i' rest := by
  obtain ⟨n, hn, hlasts⟩ := h.lasts
  refine ⟨⟨n, hn, hlasts.mono hle⟩, ?_⟩
  rcases h.starts with hshort | hnone
  · exact .inl (hshort.mono hle)
  · exact .inr fun k m hmem => hnone k m (List.mem_cons_of_mem u hmem)

/-- One call of `i2c_s3c_irq_nextbyte` and the loop behind it, given what the loop makes of the
    slot that the call begins. The loop behind a later START takes all the bytes that are left,
    and the loops around it end. -/
theorem Proceeds.complete {f : Nat} {r : Except Fault S3c24xxI2c}
    (h : Proceeds (fun s => pollLoop (v.poll ready) f s.iicstat s) s r rest)
    (hat : At s j m) (hquirk : has s.quirks quirkPoll = true)
    (hbit : has s.iicstat iicstatLastbit = false) (hintime : InTime ready s.polls rest)
    (hf : f ≠ 0)
    (htail : ∀ x w ws, rest = w :: ws → Sending x w ws → Did s x w.sent → ∀ sp stat,
      Sees v sp x → Timely ready sp → s.polls ≤ sp.polls →
      (acknowledged (v.ended x) = true → has stat iicstatLastbit = false) →
      ∃ t, pollLoop (v.poll ready) f stat sp = .ok t ∧ Complete x ws (ws.length + 1) t) :
    ∃ t, (do
        let s' ← r
        pollLoop (v.poll ready) f (S3c24xx.pollRead (v.poll ready) s').iicstat
          (S3c24xx.pollRead (v.poll ready) s')) = .ok t ∧ Complete s rest rest.length t := by
  obtain ⟨f, rfl⟩ : ∃ f', f = f' + 1 := ⟨f - 1, by omega⟩
  cases h with
  | stop =>
    obtain ⟨hend, hafter⟩ := finish_settled hat
    have hcomplete : Complete s [] 0 (clearIrqpend (finish s)) := by
      refine ⟨rfl, hend.idx, rfl, rfl, rfl, ?_, ?_⟩
      · have htrace : (clearIrqpend (finish s)).trace = s.trace ++ [.stop] := hafter.trace
        rw [htrace, ends_append]
        rfl
      · rw [show (clearIrqpend (finish s)).trace = s.trace ++ [.stop] from hafter.trace, bus_append,
          List.map_nil, List.append_nil]
        rfl
    have hover := hcomplete.pollRead v ready
    exact ⟨_, pollLoop_over v ready hover.num f
      (S3c24xx.pollRead (v.poll ready) (clearIrqpend (finish s))).iicstat, hover⟩
  -- the START of the next message nests the loop, and the outer one finds it over
  | @start x k m' ws sending ptr did lastbit pending =>
    have hshort : LastsFrom x.polls 1 ready := by
      rw [did.polls]
      rcases hintime.starts with hshort | hnone
      · exact hshort
      · exact absurd List.mem_cons_self (hnone k m')
    obtain ⟨t, hloop, hcomplete⟩ := htail x _ ws rfl sending did x x.iicstat (Sees.refl v x)
      hshort.timely (Nat.le_of_eq did.polls.symm) (fun _ => lastbit)
    have hover := ((hcomplete.cons did).back).pollRead v ready
    refine ⟨_, ?_, hover⟩
    rw [launch_of_poll (by rw [did.quirks]; exact hquirk), hloop]
    exact pollLoop_over v ready hover.num f _
  -- a data byte comes back to the same loop
  | @byte x j' p' m' ws sending did lastbit pending =>
    have hfresh : Fresh x := fun _ => pending
    have hle : s.polls ≤ (S3c24xx.pollRead (v.poll ready) x).polls := by
      rw [pollRead_polls, did.polls]
      exact Nat.le_succ _
    obtain ⟨n, hn, hlasts⟩ := hintime.lasts
    obtain ⟨t, hloop, hcomplete⟩ := htail x _ ws rfl sending did _ _
      (Sees.pollRead v ready x x.polls)
      ⟨⟨n, hn, hlasts.mono hle⟩, .inr (hfresh.pollRead v ready)⟩ hle
      (lastbit_pollRead v ready (lastbit.trans hbit))
    exact ⟨t, hloop, hcomplete.cons did⟩

/-- One turn of the loop, given what it makes of the next slot. -/
theorem Sending.complete_of (h : Sending s u rest) (hnostart : ∀ w ∈ s.msgs, w.isNostart = false)
    (hquirk : has s.quirks quirkPoll = true) (hacks : v.Acks (ends s.trace) (u :: rest))
    (hsees : Sees v sp s) (htimely : Timely ready sp) (hintime : InTime ready sp.polls rest)
    {stat : Reg} (hstat : acknowledged (v.ended s) = true → has stat iicstatLastbit = false)
    {fuel : Nat} (hfuel : rest.length + 2 ≤ fuel)
    (htail : ∀ f x w ws, rest = w :: ws → Sending x w ws → x.msgs = s.msgs →
      x.quirks = s.quirks → ends x.trace = ends s.trace + 1 → ∀ sp stat, Sees v sp x →
      Timely ready sp → InTime ready sp.polls ws →
      (acknowledged (v.ended x) = true → has stat iicstatLastbit = false) → ws.length + 2 ≤ f →
      ∃ t, pollLoop (v.poll ready) f stat sp = .ok t ∧ Complete x ws (ws.length + 1) t) :
    ∃ t, pollLoop (v.poll ready) fuel stat sp = .ok t ∧ Complete s rest (rest.length + 1) t := by
  obtain ⟨f, rfl⟩ : ∃ f, fuel = f + 1 := ⟨fuel - 1, by omega⟩
  -- the byte ends at read `k`, before the tries are used up
  obtain ⟨k, hle, hk⟩ := pollLoop_sees hsees htimely h.msgNum_ne f stat
  have hack := (h.acknowledged_iff v).mpr hacks.1
  have hproceeds : Proceeds (fun s => pollLoop (v.poll ready) f s.iicstat s) _ _ _ :=
    h.proceeds hnostart (hstat hack) v k
  obtain ⟨j, m, here⟩ := h.here
  have hat : At { v.ended s with polls := k } j m := by
    rw [ended_eq v h.inFlight]
    exact here.of_eq rfl rfl rfl rfl
  have hintime' : InTime ready k rest := by
    obtain ⟨n, hn, hlasts⟩ := hintime.lasts
    exact ⟨⟨n, hn, hlasts.mono hle⟩, hintime.starts.imp_left fun hshort => hshort.mono hle⟩
  have hpoll : has ({ v.ended s with polls := k } : S3c24xxI2c).quirks quirkPoll = true :=
    (ended_quirks v s).symm ▸ hquirk
  obtain ⟨t, hloop, hcomplete⟩ := hproceeds.complete hat hpoll (lastbit_of_acknowledged hack)
    hintime' (by omega) fun x w ws heq hsending hdid sp' stat' hsees' htimely' hpolls hstat' => by
      subst heq
      have hbegan := hdid.began h.inFlight
      exact htail f x w ws rfl hsending hbegan.msgs hbegan.quirks hbegan.count sp' stat' hsees'
        htimely' (hintime'.tail hpolls) hstat' (by rw [List.length_cons] at hfuel; omega)
  refine ⟨t, ?_, hcomplete.ended h.inFlight⟩
  rw [hk, hack, if_pos rfl]
  exact hloop

/-- A polled write side whose bytes are all acknowledged in time goes through its slots. -/
theorem Sending.complete (h : Sending s u rest) (hnostart : ∀ w ∈ s.msgs, w.isNostart = false)
    (hquirk : has s.quirks quirkPoll = true) (hacks : v.Acks (ends s.trace) (u :: rest))
    (hsees : Sees v sp s) (htimely : Timely ready sp) (hintime : InTime ready sp.polls rest)
    {stat : Reg} (hstat : acknowledged (v.ended s) = true → has stat iicstatLastbit = false)
    {fuel : Nat} (hfuel : rest.length + 2 ≤ fuel) :
    ∃ t, pollLoop (v.poll ready) fuel stat sp = .ok t ∧ Complete s rest (rest.length + 1) t := by
  induction rest generalizing s u sp stat fuel with
  | nil => exact h.complete_of hnostart hquirk hacks hsees htimely hintime hstat hfuel (by simp)
  | cons w ws ih =>
    refine h.complete_of hnostart hquirk hacks hsees htimely hintime hstat hfuel ?_
    intro f x u' ws' heq hsending hmsgs hquirks hcount sp' stat' hsees' htimely' hintime' hstat' hf
    obtain ⟨rfl, rfl⟩ := List.cons.inj heq
    exact ih hsending (by rw [hmsgs]; exact hnostart) (by rw [hquirks]; exact hquirk)
      (by rw [hcount]; exact hacks.2) hsees' htimely' hintime' hstat' hf

/-! ### Polled reads -/

/-- Behind the STOP nothing is left to see. -/
theorem Sees.over (h : Sees v sp s) (hengine : s.engine = .idle) :
    ∃ n, sp = { s with polls := n } := by
  obtain ⟨n, hn⟩ := h
  have hheld : inFlight s = false := by rw [inFlight, hengine]; rfl
  rw [ended_of_held v hheld] at hn
  cases hflight : inFlight sp with
  | false =>
    rw [ended_of_held v hflight] at hn
    exact ⟨n, hn⟩
  | true =>
    have hidle : ¬ sp.engine = .idle := by
      intro hidle
      simp [inFlight, hidle] at hflight
    have hended : (v.ended sp).engine = .held := by
      rw [ended_eq v hflight]
      exact if_neg hidle
    rw [hn] at hended
    cases hengine.symm.trans hended

/-- The polling loop takes the address byte of a read and the bytes behind it. -/
theorem Addressed.pollLoop (h : Addressed v s j m) {quirks : Reg}
    (hphy : has quirks quirkHdmiphy = has s.quirks quirkHdmiphy) (polls : Nat)
    (htimely : Timely ready (shadow quirks polls s)) {stat : Reg}
    (hstat : has stat iicstatLastbit = false) {n : Nat}
    (hreads : Reads v n (beginRead j m (v.ended s)) t) (fuel : Nat) :
    ∃ stat' sp', pollLoop (v.poll ready) (n + fuel + 1) stat (shadow quirks polls s) =
        S3c24xx.pollLoop (v.poll ready) fuel stat' sp' ∧ Sees v sp' (shadow quirks polls t) ∧
      Timely ready sp' := by
  obtain ⟨hended, hack, -⟩ := h.ended
  have hnum : (shadow quirks polls s).msgNum ≠ 0 := by
    have hlt := h.here.lt
    rw [show (shadow quirks polls s).msgNum = s.msgNum from rfl, h.here.num]
    omega
  -- one poll sees the end of the address byte
  obtain ⟨k, hle, hk⟩ :=
    pollLoop_sees (Sees.refl v (shadow quirks polls s)) htimely hnum (n + fuel) stat
  rw [ended_shadow] at hk
  have hat : At (shadow quirks k (v.ended s)) j m := by
    rw [hended]
    exact h.here.of_eq rfl rfl rfl rfl
  have hstate : (shadow quirks k (v.ended s)).state = .start := by
    rw [hended]
    exact h.state
  have hptr : (shadow quirks k (v.ended s)).msgPtr = 0 := by
    rw [hended]
    exact h.ptr
  have hnext := nextbyte_beginRead hat hstate hptr h.isRd
    (fun s => S3c24xx.pollLoop (v.poll ready) (n + fuel) s.iicstat s) hstat
  rw [beginRead_shadow (by rw [ended_quirks, hphy])] at hnext
  have hphy' : has quirks quirkHdmiphy = has (beginRead j m (v.ended s)).quirks quirkHdmiphy := by
    rw [beginRead_quirks, ended_quirks, hphy]
  -- and the loop goes on with the bytes of the read
  have hfresh : Fresh (shadow quirks k (beginRead j m (v.ended s))) := fresh_clearIrqpend _
  obtain ⟨stat', sp', hloop, hsees, htimely'⟩ := (hreads.shadow hphy' polls).pollLoop
    (Sees.pollRead v ready (shadow quirks polls (beginRead j m (v.ended s))) k)
    (htimely.of_fresh (by rw [pollRead_polls]; exact Nat.le_succ_of_le hle)
      (hfresh.pollRead v ready)) fuel
    (pollRead (v.poll ready) (shadow quirks k (beginRead j m (v.ended s)))).iicstat
  refine ⟨stat', sp', ?_, hsees, htimely'⟩
  rw [hk, show acknowledged (shadow quirks polls (v.ended s)) = acknowledged (v.ended s) from rfl,
    hack, if_pos rfl]
  rw [show ({ shadow quirks polls (v.ended s) with polls := k } : S3c24xxI2c) =
    shadow quirks k (v.ended s) from rfl, hnext]
  exact hloop

end S3c24xx
