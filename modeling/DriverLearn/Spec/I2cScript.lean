import DriverLearn.Spec.I2cStep

/-!
# Transfers as scripts

A list of writes that may end in one read is a script of bytes: the address byte behind
each START, the bytes to send, the bytes to receive. A transfer plays the script, one slot
for each interrupt: a slot that passes gives way to the next one, a missing acknowledge or
the end of the script brings the STOP. `play` is this abstract machine, and the driver
does on the bus what `play` says, for every sequence of interrupts.

## Key results

- `irq_inFlight`: one interrupt is one step of `play`
- `run_inFlight`: every run of interrupts is a run of `play`
- `begun_inFlight`: a transfer starts at the head of its script
-/

namespace S3c24xx

open Word

/-! ### Scripts -/

/-- A byte on the bus: the address byte of message `j`, or its byte `p`, sent or received.
    `m` is the message as the caller passed it. -/
inductive Slot where
  | start (j : Nat) (m : I2cMsg)
  | data (j : Nat) (m : I2cMsg) (p : Nat)
  | recv (j : Nat) (m : I2cMsg) (p : Nat)

/-- The message of a slot. -/
def Slot.msgIdx : Slot → Nat
  | .start j _ => j
  | .data j _ _ => j
  | .recv j _ _ => j

/-- The bytes of message `j` from byte `p` on. -/
def bytesFrom (j : Nat) (m : I2cMsg) (p : Nat) : List Slot :=
  (List.range' p (m.len.toNat - p)).map (if m.isRd then .recv j m else .data j m)

/-- The START of message `j`: only a message behind others can do without. -/
def opening (j : Nat) (m : I2cMsg) : List Slot :=
  if j = 0 ∨ m.isNostart = false then [.start j m] else []

/-- The script of the messages from index `j` on. -/
def script (j : Nat) : List I2cMsg → List Slot
  | [] => []
  | m :: ms => opening j m ++ (bytesFrom j m 0 ++ script (j + 1) ms)

/-- Every message is a write, up to a last one that may be a read with a START. -/
def WritesThenRead : List I2cMsg → Prop
  | [] => True
  | m :: ms => (m.isRd = true → ms = [] ∧ m.isNostart = false) ∧ WritesThenRead ms

/-- What the driver does when a slot begins. -/
def Slot.enter : Slot → List Event
  | .start j m => [.start j (m.startStat ||| iicstatStart) m.addrByte]
  | .data j m p => [.data j p (m.buf p)]
  | .recv _ _ _ => []

/-- The end of the byte, and what the driver stores of it. -/
def Slot.exit (e : ByteEnd) : Slot → List Event
  | .recv j _ p => [.byteEnd (has e.iicstat iicstatLastbit), .recv j p e.iicds]
  | _ => [.byteEnd (has e.iicstat iicstatLastbit)]

/-- A byte sent needs its acknowledge, unless the message ignores that. -/
def Slot.passes (e : ByteEnd) : Slot → Bool
  | .start _ m => !nak e.iicstat m
  | .data _ m _ => !nak e.iicstat m
  | .recv _ _ _ => true

/-- The error code for a missing acknowledge. -/
def Slot.refusal : Slot → Int
  | .start _ _ => eNxio
  | _ => eConnrefused

/-- The first byte of an SMBus block read says how many more there are. -/
def Slot.extend (e : ByteEnd) (rest : List Slot) : Slot → List Slot
  | .recv j m 0 =>
    if m.isRecvLen && m.len == 1 then (List.range' 1 e.iicds.toNat).map (.recv j m) ++ rest
    else rest
  | _ => rest

/-! ### The abstract machine -/

/-- How far a transfer has come. -/
inductive Outcome where
  | waiting (u : Slot) (rest : List Slot)
  | finished
  | refused (u : Slot)

/-- Interrupts behind the STOP. -/
def spurious (es : List ByteEnd) : List Event :=
  es.map fun e => .byteEnd (has e.iicstat iicstatLastbit)

/-- The transfer from the slot `u` in flight, with the slots `rest` still to come. -/
def play (u : Slot) (rest : List Slot) : List ByteEnd → List Event × Outcome
  | [] => ([], .waiting u rest)
  | e :: es =>
    if u.passes e then
      match u.extend e rest with
      | [] => (u.exit e ++ .stop :: spurious es, .finished)
      | v :: rest =>
        let (trace, outcome) := play v rest es
        (u.exit e ++ (v.enter ++ trace), outcome)
    else
      (u.exit e ++ .stop :: spurious es, .refused u)

/-! ### The driver's state -/

/-- A received byte goes to the message of its event. -/
def store (msgs : List I2cMsg) : Event → List I2cMsg
  | .recv j p byte => msgs.modify j (stored byte p)
  | _ => msgs

/-- `t` is `s` after the events `evs`, the received bytes stored. -/
structure After (s t : S3c24xxI2c) (evs : List Event) : Prop where
  trace : t.trace = s.trace ++ evs
  msgs : t.msgs = evs.foldl store s.msgs

/-- The driver has the slot in flight and the others before it. In a read the current
    message `m'` is `m` with the bytes received so far. -/
inductive InFlight (s : S3c24xxI2c) : Slot → List Slot → Prop where
  | start {j : Nat} {m : I2cMsg} (here : At s j m) (state : s.state = .start)
      (ptr : s.msgPtr = 0) (plain : WritesThenRead (m :: s.msgs.drop (j + 1))) :
      InFlight s (.start j m) (bytesFrom j m 0 ++ script (j + 1) (s.msgs.drop (j + 1)))
  | data {j p : Nat} {m : I2cMsg} (here : At s j m) (state : s.state = .write)
      (ptr : s.msgPtr = p + 1) (write : m.isRd = false)
      (plain : WritesThenRead (m :: s.msgs.drop (j + 1))) :
      InFlight s (.data j m p) (bytesFrom j m (p + 1) ++ script (j + 1) (s.msgs.drop (j + 1)))
  | recv {j p : Nat} {m m' : I2cMsg} (here : At s j m') (state : s.state = .read)
      (ptr : s.msgPtr = p) (last : j + 1 = s.msgs.length) (flags : m'.flags = m.flags)
      (len : p = 0 → m'.len = m.len) (lt : p < m'.len.toNat) :
      InFlight s (.recv j m p)
        ((List.range' (p + 1) (m'.len.toNat - (p + 1))).map (.recv j m))

/-- The transfer is over, and `ret` is what `msg_idx` says. -/
structure Ended (s : S3c24xxI2c) (ret : Int) : Prop where
  state : s.state = .stop
  idx : toS32 s.msgIdx = ret
  num : s.msgNum = 0

variable {s t t' : S3c24xxI2c} {j p : Nat} {m : I2cMsg} {u : Slot} {rest : List Slot}

theorem After.trans {evs evs' : List Event} (h : After s t evs) (h' : After t t' evs') :
    After s t' (evs ++ evs') where
  trace := by rw [h'.trace, h.trace, List.append_assoc]
  msgs := by rw [h'.msgs, h.msgs, List.foldl_append]

/-- Storing a byte keeps the number of messages. -/
theorem length_foldl_store (evs : List Event) (msgs : List I2cMsg) :
    (evs.foldl store msgs).length = msgs.length := by
  induction evs generalizing msgs with
  | nil => rfl
  | cons e evs ih =>
    rw [List.foldl_cons, ih]
    cases e <;> simp [store]

theorem After.length_msgs {evs : List Event} (h : After s t evs) :
    t.msgs.length = s.msgs.length := by
  rw [h.msgs, length_foldl_store]

theorem WritesThenRead.drop {msgs : List I2cMsg} (h : WritesThenRead msgs) (i : Nat) :
    WritesThenRead (msgs.drop i) := by
  induction i generalizing msgs with
  | zero => exact h
  | succ i ih =>
    cases msgs with
    | nil => trivial
    | cons m ms => exact ih h.2

/-! ### The script and the loop at `retry_write` -/

theorem bytesFrom_cons (h : p < m.len.toNat) :
    bytesFrom j m p = (if m.isRd then .recv j m p else .data j m p) :: bytesFrom j m (p + 1) := by
  obtain ⟨n, hn⟩ : ∃ n, m.len.toNat - p = n + 1 := ⟨m.len.toNat - p - 1, by omega⟩
  rw [bytesFrom, bytesFrom, hn, show m.len.toNat - (p + 1) = n by omega, List.range'_succ,
    List.map_cons]
  cases m.isRd <;> rfl

theorem bytesFrom_nil (h : m.len.toNat ≤ p) : bytesFrom j m p = [] := by
  rw [bytesFrom, show m.len.toNat - p = 0 by omega]
  rfl

/-- `v` and the slots behind it are a script that begins in `msgs` at message `k`. -/
inductive Heads (msgs : List I2cMsg) : Turn → List Slot → Prop where
  | stop : Heads msgs .stop []
  | start {k : Nat} {m : I2cMsg} (get : msgs[k]? = some m)
      (plain : WritesThenRead (m :: msgs.drop (k + 1))) :
      Heads msgs (.start k m)
        (.start k m :: (bytesFrom k m 0 ++ script (k + 1) (msgs.drop (k + 1))))
  | data {k q : Nat} {m : I2cMsg} (get : msgs[k]? = some m) (write : m.isRd = false)
      (plain : WritesThenRead (m :: msgs.drop (k + 1))) :
      Heads msgs (.data k q (m.buf q))
        (.data k m q :: (bytesFrom k m (q + 1) ++ script (k + 1) (msgs.drop (k + 1))))

/-- The loop skips what the script does not contain. -/
theorem nextTurn_heads {msgs : List I2cMsg} {k : Nat} (hk : 0 < k)
    (hplain : WritesThenRead (msgs.drop k)) :
    Heads msgs (nextTurn k (msgs.drop k)) (script k (msgs.drop k)) := by
  induction hleft : msgs.length - k generalizing k with
  | zero =>
    rw [List.drop_eq_nil_of_le (by omega)]
    exact .stop
  | succ left ih =>
    have hlt : k < msgs.length := by omega
    have hget : msgs[k]? = some msgs[k] := List.getElem?_eq_getElem hlt
    have hcons := List.drop_eq_getElem_cons hlt
    rw [hcons] at hplain ⊢
    generalize msgs[k] = m at *
    cases hnostart : m.isNostart with
    -- with a START of its own the message opens
    | false =>
      have hopen : opening k m = [.start k m] := by simp [opening, hnostart]
      have hturn : nextTurn k (m :: msgs.drop (k + 1)) = .start k m := by simp [nextTurn, hnostart]
      rw [hturn, script, hopen]
      exact .start hget hplain
    -- without one it is a write, which goes on with its first byte or is empty
    | true =>
      have hwr : m.isRd = false := by
        by_contra hrd
        rw [(hplain.1 (Bool.eq_true_of_not_eq_false hrd)).2] at hnostart
        cases hnostart
      have hopen : opening k m = [] := by
        rw [opening, if_neg (by rw [hnostart]; simp; omega)]
      rw [script, hopen, List.nil_append]
      by_cases hlen : m.len.toNat = 0
      · have hturn :
            nextTurn k (m :: msgs.drop (k + 1)) = nextTurn (k + 1) (msgs.drop (k + 1)) := by
          simp [nextTurn, hnostart, hwr, hlen]
        rw [hturn, bytesFrom_nil (by omega), List.nil_append]
        exact ih (by omega) hplain.2 (by omega)
      · have hturn : nextTurn k (m :: msgs.drop (k + 1)) = .data k 0 (m.buf 0) := by
          simp [nextTurn, hnostart, hwr, hlen]
        rw [hturn, bytesFrom_cons (by omega), hwr]
        exact .data hget hwr hplain

theorem turn_heads {msgs : List I2cMsg} (hget : msgs[j]? = some m) (hwr : m.isRd = false)
    (hplain : WritesThenRead (m :: msgs.drop (j + 1))) :
    Heads msgs (turn j p m (msgs.drop (j + 1)))
      (bytesFrom j m p ++ script (j + 1) (msgs.drop (j + 1))) := by
  by_cases hp : p < m.len.toNat
  · rw [turn, if_pos hp, bytesFrom_cons hp, hwr]
    exact .data hget hwr hplain
  · rw [turn, if_neg hp, bytesFrom_nil (by omega)]
    exact nextTurn_heads (by omega) hplain.2

/-! ### One interrupt -/

/-- From `s` on the driver did `evs` and went on with the slots `next`, or stopped. -/
def Settled (s s' : S3c24xxI2c) (evs : List Event) : List Slot → Prop
  | [] => Ended s' s.msgs.length ∧ After s s' (evs ++ [.stop])
  | v :: rest => InFlight s' v rest ∧ After s s' (evs ++ v.enter)

theorem After.settled {evs evs' : List Event} {next : List Slot} (h : After s t evs)
    (h' : Settled t t' evs' next) : Settled s t' (evs ++ evs') next := by
  cases next with
  | nil =>
    obtain ⟨hend, hafter⟩ := h'
    rw [h.length_msgs] at hend
    exact ⟨hend, by rw [List.append_assoc]; exact h.trans hafter⟩
  | cons v rest =>
    obtain ⟨hflight, hafter⟩ := h'
    exact ⟨hflight, by rw [List.append_assoc]; exact h.trans hafter⟩

theorem byteEnd_after (e : ByteEnd) (s : S3c24xxI2c) :
    After s (byteEnd e s) [.byteEnd (has e.iicstat iicstatLastbit)] := ⟨rfl, rfl⟩

theorem finish_settled (h : At s j m) : Settled s (clearIrqpend (finish s)) [] [] := by
  have hlt := h.lt
  have hidx : toS32 (s.msgs.length - 1 + 1) = s.msgs.length := by
    rw [Nat.sub_add_cancel (by omega), toS32_of_lt h.bound]
  exact ⟨⟨rfl, hidx, rfl⟩, rfl, rfl⟩

theorem stop_ended (s : S3c24xxI2c) (ret : Int) (hlo : -2147483648 ≤ ret) (hneg : ret < 0) :
    Ended (clearIrqpend (s3c24xxI2cStop s ret)) ret ∧
      After s (clearIrqpend (s3c24xxI2cStop s ret)) [.stop] := by
  refine ⟨⟨rfl, ?_, rfl⟩, rfl, rfl⟩
  simp only [clearIrqpend, s3c24xxI2cStop, s3c24xxI2cDisableIrq, s3c24xxI2cMasterComplete]
  rw [if_pos (by omega), toS32_toU32_neg hlo hneg]

theorem writeStep_settled {turn : Turn} {next : List Slot} (h : At s j m)
    (hstate : s.state = .write) (hheads : Heads s.msgs turn next) :
    ∃ s', writeStep .ok s turn = .ok s' ∧ Settled s (clearIrqpend s') [] next := by
  cases hheads with
  | stop => exact ⟨_, rfl, finish_settled h⟩
  | @start k mk hget hplain =>
    refine ⟨_, writeStep_start s k mk, ?_, rfl, rfl⟩
    exact .start ⟨rfl, rfl, h.num, hget, h.bound⟩ rfl rfl hplain
  | @data k q mk hget hwr hplain =>
    refine ⟨_, rfl, ?_, rfl, rfl⟩
    exact .data ⟨rfl, rfl, h.num, hget, h.bound⟩ hstate rfl hwr hplain

/-- The last message, read up to byte `p`: more bytes are to come, or the STOP. -/
theorem readStep_settled {m' : I2cMsg} (h : At s j m') (hstate : s.state = .read)
    (hptr : s.msgPtr = p) (hlast : j + 1 = s.msgs.length) (hflags : m'.flags = m.flags)
    (hlen : p = 0 → m'.len = m.len) (hp : p ≤ 65536) :
    Settled s (clearIrqpend (readStep s j m')) []
      ((List.range' p (m'.len.toNat - p)).map (.recv j m)) := by
  by_cases hlt : p < m'.len.toNat
  · obtain ⟨n, hn⟩ : ∃ n, m'.len.toNat - p = n + 1 := ⟨m'.len.toNat - p - 1, by omega⟩
    rw [hn, List.range'_succ, List.map_cons, show n = m'.len.toNat - (p + 1) by omega]
    -- the acknowledge bit aside, the driver waits for the byte
    have hwait : ∀ iiccon engine,
        InFlight { s with iiccon := iiccon, engine := engine } (.recv j m p)
          ((List.range' (p + 1) (m'.len.toNat - (p + 1))).map (.recv j m)) :=
      fun _ _ => .recv (h.of_eq rfl rfl rfl rfl) hstate hptr hlast hflags hlen hlt
    have hnil : ∀ t : S3c24xxI2c, t.trace = s.trace → t.msgs = s.msgs →
        After s t ([] ++ (Slot.recv j m p).enter) :=
      fun t htrace hmsgs => ⟨by rw [htrace]; exact (List.append_nil _).symm, hmsgs⟩
    unfold readStep
    rw [if_pos hlast, if_neg (Nat.not_le.mpr (hptr.symm ▸ hlt))]
    split
    · exact ⟨hwait _ _, hnil _ rfl rfl⟩
    · exact ⟨hwait _ _, hnil _ rfl rfl⟩
  · have hmsglast : isMsglast s m' = false := by
      have hne : ¬ p = toU32 ((m'.len.toNat : Int) - 1) := by
        unfold toU32
        omega
      simp [isMsglast, hptr, hne]
    rw [show m'.len.toNat - p = 0 by omega, readStep, hmsglast, if_neg (by decide),
      if_pos (by omega), if_pos hlast]
    exact finish_settled h

theorem extend_start (e : ByteEnd) : Slot.extend e rest (.start j m) = rest := rfl

/-- A block read goes on for as many bytes as its first byte says. -/
theorem extend_recv {m' : I2cMsg} (e : ByteEnd) (hflags : m'.flags = m.flags)
    (hlen : p = 0 → m'.len = m.len) (hlt : p < m'.len.toNat) :
    Slot.extend e ((List.range' (p + 1) (m'.len.toNat - (p + 1))).map (.recv j m)) (.recv j m p) =
      (List.range' (p + 1) ((stored e.iicds p m').len.toNat - (p + 1))).map (.recv j m) := by
  have hrecv : m'.isRecvLen = m.isRecvLen := by rw [I2cMsg.isRecvLen, hflags, I2cMsg.isRecvLen]
  cases p with
  -- the first byte of a block read is its length
  | zero =>
    simp only [Slot.extend, stored, ← hlen rfl, hrecv]
    split
    · next hblock =>
      have hone : m'.len = 1 := by
        rw [Bool.and_eq_true, beq_iff_eq] at hblock
        exact hblock.2
      have hsum : (1#16 + e.iicds.setWidth 16).toNat = e.iicds.toNat + 1 := by
        have hbyte := e.iicds.isLt
        rw [BitVec.toNat_add, BitVec.toNat_setWidth]
        simp
        omega
      rw [hone, show (1 : BitVec 16) = 1#16 from rfl, hsum]
      simp
    · rfl
  -- behind the first byte the length is not 1 any more
  | succ p =>
    have hne : (m'.len == 1) = false := by
      rw [beq_eq_false_iff_ne]
      intro hone
      rw [hone] at hlt
      simp at hlt
    simp only [Slot.extend, stored, hne, Bool.and_false, Bool.false_eq_true, if_false]

theorem storeByte_after (h : At s j m) (byte : Byte) :
    After s (storeByte byte m s) [.recv j s.msgPtr byte] := by
  rw [storeByte_eq h]
  refine ⟨rfl, ?_⟩
  apply List.ext_getElem?
  intro i
  simp only [List.foldl_cons, List.foldl_nil, store, List.getElem?_modify, List.getElem?_set]
  by_cases hi : j = i
  · rw [← hi, h.get, if_pos rfl, if_pos h.lt]
    exact congrArg some (if_pos rfl).symm
  · simp [hi]

/-- One interrupt is one step of `play`. -/
theorem irq_inFlight (h : InFlight s u rest) (e : ByteEnd) :
    ∃ s', s3c24xxI2cIrq s e = .ok s' ∧
      if u.passes e then Settled s s' (u.exit e) (u.extend e rest)
      else Ended s' u.refusal ∧ After s s' (u.exit e ++ [.stop]) := by
  cases h with
  | @start j m hat hstate hptr hplain =>
    rw [irq_start hat hstate hptr e, Slot.passes]
    -- without acknowledge the driver stops with `-ENXIO`
    cases hnak : nak e.iicstat m with
    | true =>
      obtain ⟨hend, hafter⟩ := stop_ended (byteEnd e s) eNxio (by decide) (by decide)
      exact ⟨_, rfl, hend, (byteEnd_after e s).trans hafter⟩
    | false =>
      cases hrd : m.isRd with
      | true =>
        -- a read is the last message
        have hnil := (hplain.1 hrd).1
        have hlast : j + 1 = s.msgs.length := by
          have hlt := hat.lt
          rw [List.drop_eq_nil_iff] at hnil
          omega
        have hread : At { byteEnd e s with state := .read } j m := hat.of_eq rfl rfl rfl rfl
        have hsettled := readStep_settled (m := m) hread rfl hptr hlast rfl (fun _ => rfl)
          (Nat.zero_le _)
        refine ⟨_, rfl, ?_⟩
        have hafter : After s { byteEnd e s with state := .read }
            [.byteEnd (has e.iicstat iicstatLastbit)] := ⟨rfl, rfl⟩
        rw [extend_start, hnil, script, List.append_nil, bytesFrom, hrd]
        exact hafter.settled hsettled
      | false =>
        have hwrite : At { byteEnd e s with state := .write } j m := hat.of_eq rfl rfl rfl rfl
        obtain ⟨s', hs', hsettled⟩ :=
          writeStep_settled hwrite rfl (turn_heads (p := 0) hat.get hrd hplain)
        have hafter : After s { byteEnd e s with state := .write }
            [.byteEnd (has e.iicstat iicstatLastbit)] := ⟨rfl, rfl⟩
        refine ⟨clearIrqpend s', ?_, hafter.settled hsettled⟩
        rw [if_neg (by decide), if_neg (by decide)]
        exact congrArg (clearIrqpend <$> ·) hs'
  | @data j p m hat hstate hptr hwr hplain =>
    rw [irq_write hat hstate e, Slot.passes]
    -- a refused data byte is `-ECONNREFUSED`
    cases hnak : nak e.iicstat m with
    | true =>
      obtain ⟨hend, hafter⟩ := stop_ended (byteEnd e s) eConnrefused (by decide) (by decide)
      exact ⟨_, rfl, hend, (byteEnd_after e s).trans hafter⟩
    | false =>
      obtain ⟨s', hs', hsettled⟩ :=
        writeStep_settled (hat.byteEnd e) hstate (turn_heads (p := p + 1) hat.get hwr hplain)
      rw [hptr]
      refine ⟨clearIrqpend s', ?_, (byteEnd_after e s).settled hsettled⟩
      rw [if_neg (by decide)]
      exact congrArg (clearIrqpend <$> ·) hs'
  | @recv j p m m' hat hstate hptr hlast hflags hlen hlt =>
    rw [irq_read hat hstate e]
    refine ⟨_, rfl, ?_⟩
    -- a received byte is stored first, then the driver looks where it stands
    have hat' := hat.byteEnd e
    have hbyte := (hat'.storeByte e.iicds)
    have hstored := storeByte_after hat' e.iicds
    have hsettled := readStep_settled (m := m) (p := p + 1) hbyte
      (by rw [storeByte_eq hat']; exact hstate)
      (by rw [storeByte_eq hat']; exact congrArg (· + 1) hptr)
      (by rw [storeByte_eq hat', List.length_set]; exact hlast)
      hflags (fun h => absurd h (by omega)) (by have hmax := m'.len.isLt; omega)
    have hafter := (byteEnd_after e s).trans hstored
    have hptr' : (byteEnd e s).msgPtr = p := hptr
    rw [hptr'] at hafter hsettled
    rw [Slot.passes, if_pos rfl, extend_recv e hflags hlen hlt, hptr]
    exact hafter.settled hsettled

/-- Behind the STOP an interrupt changes neither the result nor a buffer. -/
theorem irq_ended {ret : Int} (h : Ended s ret) (e : ByteEnd) :
    ∃ s', s3c24xxI2cIrq s e = .ok s' ∧ Ended s' ret ∧
      After s s' [.byteEnd (has e.iicstat iicstatLastbit)] :=
  ⟨_, irq_stop h.state e, ⟨h.state, h.idx, h.num⟩, rfl, rfl⟩

/-! ### Whole runs -/

theorem run_ended {ret : Int} (h : Ended s ret) (irqs : List ByteEnd) :
    ∃ s', irqs.foldlM s3c24xxI2cIrq s = .ok s' ∧ Ended s' ret ∧ After s s' (spurious irqs) := by
  induction irqs generalizing s with
  | nil => exact ⟨s, rfl, h, by simp [spurious], rfl⟩
  | cons e es ih =>
    obtain ⟨t, ht, hend, hafter⟩ := irq_ended h e
    obtain ⟨s', hs', hend', hafter'⟩ := ih hend
    refine ⟨s', ?_, hend', hafter.trans hafter'⟩
    rw [List.foldlM_cons, ht]
    exact hs'

/-- The state that an outcome of `play` leaves, for `num` messages. -/
def Reached (num : Nat) (s : S3c24xxI2c) : Outcome → Prop
  | .waiting u rest => InFlight s u rest
  | .finished => Ended s num
  | .refused u => Ended s u.refusal

/-- The driver does on the bus what `play` says, for every sequence of interrupts. -/
theorem run_inFlight (h : InFlight s u rest) (irqs : List ByteEnd) :
    ∃ s', irqs.foldlM s3c24xxI2cIrq s = .ok s' ∧ After s s' (play u rest irqs).1 ∧
      Reached s.msgs.length s' (play u rest irqs).2 := by
  induction irqs generalizing s u rest with
  | nil => exact ⟨s, rfl, ⟨by simp [play], rfl⟩, h⟩
  | cons e es ih =>
    obtain ⟨t, ht, hstep⟩ := irq_inFlight h e
    rw [List.foldlM_cons, ht, play]
    cases hpass : u.passes e with
    -- the driver has stopped: what comes now is spurious
    | false =>
      rw [hpass, if_neg (by decide)] at hstep
      obtain ⟨hend, hafter⟩ := hstep
      obtain ⟨s', hs', hend', hafter'⟩ := run_ended hend es
      refine ⟨s', hs', ?_, hend'⟩
      have hall := hafter.trans hafter'
      rwa [List.append_assoc] at hall
    -- the slot has passed; the script may be over with it
    | true =>
      rw [hpass, if_pos rfl] at hstep
      rw [if_pos rfl]
      cases hnext : u.extend e rest with
      | nil =>
        rw [hnext] at hstep
        obtain ⟨hend, hafter⟩ := hstep
        obtain ⟨s', hs', hend', hafter'⟩ := run_ended hend es
        refine ⟨s', hs', ?_, hend'⟩
        have hall := hafter.trans hafter'
        rwa [List.append_assoc] at hall
      | cons v rest' =>
        rw [hnext] at hstep
        obtain ⟨hflight, hafter⟩ := hstep
        obtain ⟨s', hs', hafter', hreached⟩ := ih hflight
        refine ⟨s', hs', ?_, ?_⟩
        · have hall := hafter.trans hafter'
          rwa [List.append_assoc] at hall
        · rwa [hafter.length_msgs] at hreached

/-- A transfer starts at the head of its script. -/
theorem begun_inFlight {ms : List I2cMsg} (s : S3c24xxI2c) (hplain : WritesThenRead (m :: ms))
    (hnum : (m :: ms).length < 2147483648) :
    InFlight (begun m ms s) (.start 0 m) (bytesFrom 0 m 0 ++ script 1 ms) :=
  .start ⟨rfl, rfl, rfl, rfl, hnum⟩ rfl rfl hplain

/-- The transfer of a whole script, the first slot included. -/
def playAll : List Slot → List ByteEnd → List Event × Outcome
  | [], _ => ([], .finished)
  | u :: rest, es => (u.enter ++ (play u rest es).1, (play u rest es).2)

/-- A transfer plays the script of its messages. -/
theorem transfer_plays {msgs : List I2cMsg} (hne : msgs ≠ []) (hplain : WritesThenRead msgs)
    (hnum : msgs.length < 2147483648) (s : S3c24xxI2c) (irqs : List ByteEnd) :
    ∃ m ms s', msgs = m :: ms ∧ irqs.foldlM s3c24xxI2cIrq (begun m ms s) = .ok s' ∧
      s'.trace = s.trace ++ (playAll (script 0 msgs) irqs).1 ∧
      s'.msgs = (playAll (script 0 msgs) irqs).1.foldl store msgs ∧
      Reached msgs.length s' (playAll (script 0 msgs) irqs).2 := by
  obtain ⟨m, ms, rfl⟩ := List.exists_cons_of_ne_nil hne
  obtain ⟨s', hs', hafter, hreached⟩ := run_inFlight (begun_inFlight s hplain hnum) irqs
  refine ⟨m, ms, s', rfl, hs', ?_, hafter.msgs, hreached⟩
  rw [hafter.trace, show (begun m ms s).trace = s.trace ++ (Slot.start 0 m).enter from rfl,
    List.append_assoc]
  rfl

end S3c24xx
