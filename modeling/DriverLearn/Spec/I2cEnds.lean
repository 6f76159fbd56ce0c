import DriverLearn.Spec.I2cAcken

/-!
# The end of a transfer

`i2c_s3c_irq_nextbyte` is a loop inside a state machine, and under `QUIRK_POLL` the state
machine runs inside itself. What bounds all of it is the number of calls the transfer has
left: one for every byte that fits into the messages still to come, and two more for each
message. Every call uses up at least one. A call that starts the next message leaves two
calls fewer to the loop behind that START, so it can pay for `STATE_START`, which it sets
once that loop has returned.

## Key results

- `nextbyte_called`: what one call does to the calls left
- `PollRun.bounded` / `pollRun_total`: the polling loops, nested ones included
- `transfer_ends`: both modes
-/

namespace S3c24xx

open Word

variable {s t u x y : S3c24xxI2c} {j k : Nat} {m : I2cMsg} {stat : Reg}

/-! ### The calls left -/

/-- The bytes a message can take: the length of an SMBus block read may grow to 256. -/
def I2cMsg.room (m : I2cMsg) : Nat := if m.isBlock then 256 else m.len.toNat

/-- The calls that a list of messages allows. -/
def callBound (msgs : List I2cMsg) : Nat := (msgs.map fun m => m.room + 2).sum

/-- The calls that a running transfer has left. -/
def callsLeft (s : S3c24xxI2c) : Nat :=
  if s.msgNum = 0 then 0
  else
    match s.msgs.drop s.msgIdx with
    | [] => 0
    | m :: rest => m.room - s.msgPtr + 1 + (if s.state = .start then 1 else 0) + callBound rest

/-- A message has room for its own bytes. -/
theorem I2cMsg.len_le_room (m : I2cMsg) : m.len.toNat ≤ m.room := by
  rw [I2cMsg.room]
  split
  · next hblock =>
    rw [isBlock_len hblock]
    decide
  · exact Nat.le_refl _

/-- The count byte of a block read only shortens it. -/
theorem room_stored (byte : Byte) (p : Nat) (m : I2cMsg) : (stored byte p m).room ≤ m.room := by
  cases hblock : m.isBlock with
  | true =>
    have hbyte := byte.isLt
    have hcount := stored_block_len hblock byte p
    have hroom : m.room = 256 := by rw [I2cMsg.room, hblock, if_pos rfl]
    rw [hroom, I2cMsg.room]
    split
    · exact Nat.le_refl _
    · omega
  | false =>
    have hlen := stored_len hblock byte p
    have hblock' : (stored byte p m).isBlock = m.isBlock := by
      rw [I2cMsg.isBlock, hlen]
      rfl
    rw [I2cMsg.room, I2cMsg.room, hblock', hlen]

/-- The bound for one message more. -/
@[simp] theorem callBound_cons (m : I2cMsg) (ms : List I2cMsg) :
    callBound (m :: ms) = m.room + 2 + callBound ms := by
  simp [callBound]

/-- The bound for two lists. -/
theorem callBound_append (ms ms' : List I2cMsg) :
    callBound (ms ++ ms') = callBound ms + callBound ms' := by
  simp [callBound]

/-- Behind the STOP no call is left. -/
theorem callsLeft_over (h : s.msgNum = 0) : callsLeft s = 0 := by
  rw [callsLeft, if_pos h]

/-- While a message is current, the transfer is not over. -/
theorem At.num_ne (h : At s j m) : s.msgNum ≠ 0 := by
  have hlt := h.lt
  rw [h.num]
  omega

/-- The calls left for the current message and those behind it. -/
theorem At.callsLeft (h : At s j m) :
    callsLeft s = m.room - s.msgPtr + 1 + (if s.state = .start then 1 else 0) +
      callBound (s.msgs.drop (j + 1)) := by
  rw [S3c24xx.callsLeft, if_neg h.num_ne, h.idx, h.drop]

/-- A later message leaves less room than all that follow the current one. -/
theorem callBound_later {msgs : List I2cMsg} (hget : msgs[k]? = some m) (hjk : j < k) :
    m.room + 2 + callBound (msgs.drop (k + 1)) ≤ callBound (msgs.drop (j + 1)) := by
  obtain ⟨hlt, hm⟩ := List.getElem?_eq_some_iff.mp hget
  have hdrop : msgs.drop k = m :: msgs.drop (k + 1) := by
    rw [List.drop_eq_getElem_cons hlt, hm]
  have hsplit := List.take_append_drop (k - (j + 1)) (msgs.drop (j + 1))
  rw [List.drop_drop, show j + 1 + (k - (j + 1)) = k by omega, hdrop] at hsplit
  rw [← hsplit, callBound_append, callBound_cons]
  omega

/-! ### Running and ended transfers -/

/-- The START of the first message. -/
def Event.isFirst : Event → Bool
  | .start 0 _ _ => true
  | _ => false

/-- The STARTs of first messages, one for each transfer. -/
def firstStarts (s : S3c24xxI2c) : Nat := s.trace.countP Event.isFirst

/-- The transfer runs. -/
structure Live (s : S3c24xxI2c) : Prop where
  here : ∃ m, At s s.msgIdx m
  state : s.state = .start ∨ s.state = .read ∨ s.state = .write
  ptr : s.msgPtr ≤ 65535
  plain : ∀ m ∈ s.msgs, ¬ (m.isRd = true ∧ m.isNostart = true)

/-- The transfer has ended, and `msg_idx` says how. -/
structure Over (s : S3c24xxI2c) : Prop where
  num : s.msgNum = 0
  idx : s.msgIdx ≤ s.msgs.length ∨ s.msgIdx = toU32 eNxio ∨ s.msgIdx = toU32 eConnrefused
  bound : s.msgs.length < 2147483648

/-- What no call touches: the quirks, and the number of first STARTs. -/
structure Keeps (s u : S3c24xxI2c) : Prop where
  quirks : u.quirks = s.quirks
  starts : firstStarts u = firstStarts s

/-- A step that changes nothing keeps these. -/
theorem Keeps.refl (s : S3c24xxI2c) : Keeps s s := ⟨rfl, rfl⟩

/-- What two steps keep. -/
theorem Keeps.trans (h : Keeps s t) (h' : Keeps t u) : Keeps s u :=
  ⟨h'.quirks.trans h.quirks, h'.starts.trans h.starts⟩

/-- A live transfer is not over. -/
theorem Live.msgNum_ne (h : Live s) : s.msgNum ≠ 0 := by
  obtain ⟨m, hat⟩ := h.here
  exact hat.num_ne

/-- A live transfer has a call to come. -/
theorem Live.callsLeft_pos (h : Live s) : 0 < callsLeft s := by
  obtain ⟨m, hat⟩ := h.here
  rw [hat.callsLeft]
  omega

/-- An event that is no first START. -/
theorem firstStarts_eq {ev : Event} (htrace : u.trace = s.trace ++ [ev])
    (hev : ev.isFirst = false) : firstStarts u = firstStarts s := by
  simp [firstStarts, htrace, hev]

/-- Behind a call that started from `s` at most `n` calls are left. -/
structure LeavesAtMost (s : S3c24xxI2c) (n : Nat) (u : S3c24xxI2c) : Prop where
  next : Live u ∨ Over u ∧ u.state = .stop
  left : callsLeft u ≤ n
  keeps : Keeps s u

/-- A weaker bound, from an earlier state. -/
theorem LeavesAtMost.mono {n n' : Nat} (h : LeavesAtMost t n u) (hkeeps : Keeps s t)
    (hle : n ≤ n') : LeavesAtMost s n' u :=
  ⟨h.next, Nat.le_trans h.left hle, hkeeps.trans h.keeps⟩

/-- When a transfer with a current message is live. -/
theorem At.live (h : At s j m)
    (hstate : s.state = .start ∨ s.state = .read ∨ s.state = .write) (hptr : s.msgPtr ≤ 65535)
    (hplain : ∀ m ∈ s.msgs, ¬ (m.isRd = true ∧ m.isNostart = true)) : Live s :=
  ⟨⟨m, by rw [h.idx]; exact h⟩, hstate, hptr, hplain⟩

/-! ### The labels -/

/-- The STOP with an error ends the transfer. -/
theorem stop_leaves (hbound : s.msgs.length < 2147483648) {ret : Int}
    (hret : ret = eNxio ∨ ret = eConnrefused) (n : Nat) :
    LeavesAtMost s n (clearIrqpend (s3c24xxI2cStop s ret)) where
  next := by
    have hne : ret ≠ 0 := by
      obtain rfl | rfl := hret <;> decide
    have hidx : (clearIrqpend (s3c24xxI2cStop s ret)).msgIdx = toU32 ret := if_pos hne
    refine .inr ⟨⟨rfl, .inr ?_, hbound⟩, rfl⟩
    rw [hidx]
    exact hret.imp (congrArg toU32) (congrArg toU32)
  left := by
    rw [callsLeft_over rfl]
    exact Nat.zero_le n
  keeps := ⟨rfl, firstStarts_eq rfl rfl⟩

/-- The STOP behind the last message ends the transfer. -/
theorem finish_leaves (h : At s j m) (n : Nat) : LeavesAtMost s n (clearIrqpend (finish s)) where
  next := by
    have hidx : (clearIrqpend (finish s)).msgIdx = s.msgs.length - 1 + 1 := rfl
    have hlt := h.lt
    exact .inr ⟨⟨rfl, .inl (show _ ≤ s.msgs.length by omega), h.bound⟩, rfl⟩
  left := by
    rw [callsLeft_over rfl]
    exact Nat.zero_le n
  keeps := ⟨rfl, firstStarts_eq rfl rfl⟩

/-- `prepare_read` goes on with this message while a byte of it is missing. -/
theorem readStep_leaves (h : At s j m) (hstate : s.state = .read) (hptr : s.msgPtr ≤ 65536)
    (hplain : ∀ m ∈ s.msgs, ¬ (m.isRd = true ∧ m.isNostart = true)) :
    LeavesAtMost s ((if s.msgPtr < m.len.toNat then m.room - s.msgPtr + 1 else 0) +
      callBound (s.msgs.drop (j + 1))) (clearIrqpend (readStep s j m)) := by
  have hroom := m.len_le_room
  have hlen := m.len.isLt
  -- a state that differs in registers only
  have hhere : ∀ t : S3c24xxI2c, At t j m → t.state = .read → t.msgPtr = s.msgPtr →
      t.msgs = s.msgs → Keeps s t → s.msgPtr < m.len.toNat →
      LeavesAtMost s ((if s.msgPtr < m.len.toNat then m.room - s.msgPtr + 1 else 0) +
        callBound (s.msgs.drop (j + 1))) (clearIrqpend t) := by
    intro t hat htstate htptr htmsgs hkeeps hmore
    have hat' : At (clearIrqpend t) j m := hat.of_eq rfl rfl rfl rfl
    refine ⟨.inl (hat'.live (.inr (.inl htstate)) ?_ ?_), ?_, ⟨hkeeps.quirks, hkeeps.starts⟩⟩
    · rw [show (clearIrqpend t).msgPtr = s.msgPtr from htptr]
      omega
    · rw [show (clearIrqpend t).msgs = s.msgs from htmsgs]
      exact hplain
    · rw [hat'.callsLeft, show (clearIrqpend t).state = .read from htstate,
        show (clearIrqpend t).msgPtr = s.msgPtr from htptr,
        show (clearIrqpend t).msgs = s.msgs from htmsgs, if_neg (by decide), if_pos hmore]
  rw [readStep]
  by_cases hlast : isMsglast s m = true
  · have hmore := ((isMsglast_iff hptr).mp hlast).2
    rw [if_pos hlast]
    by_cases hfinal : j + 1 = s.msgs.length
    · rw [if_pos hfinal]
      exact hhere (s3c24xxI2cDisableAck s) (h.of_eq rfl rfl rfl rfl) hstate rfl rfl ⟨rfl, rfl⟩
        (by omega)
    · rw [if_neg hfinal]
      exact hhere s h hstate rfl rfl (.refl s) (by omega)
  · rw [if_neg hlast]
    by_cases hend : m.len.toNat ≤ s.msgPtr
    · rw [if_pos hend, if_neg (show ¬ s.msgPtr < m.len.toNat by omega), Nat.zero_add]
      by_cases hfinal : j + 1 = s.msgs.length
      · rw [if_pos hfinal]
        exact finish_leaves h _
      -- the next message is read without a START
      · rw [if_neg hfinal]
        have hlt : j + 1 < s.msgs.length := by
          have hj := h.lt
          omega
        have hget : s.msgs[j + 1]? = some s.msgs[j + 1] := List.getElem?_eq_getElem hlt
        have hnext : At (clearIrqpend (seek (j + 1) s)) (j + 1) s.msgs[j + 1] :=
          ⟨rfl, rfl, h.num, hget, h.bound⟩
        refine ⟨.inl (hnext.live (.inr (.inl hstate)) (Nat.zero_le _) hplain), ?_, ⟨rfl, rfl⟩⟩
        have hlater := callBound_later hget (Nat.lt_succ_self j)
        rw [hnext.callsLeft, show (clearIrqpend (seek (j + 1) s)).state = .read from hstate,
          if_neg (by decide), show (clearIrqpend (seek (j + 1) s)).msgPtr = 0 from rfl,
          show (clearIrqpend (seek (j + 1) s)).msgs = s.msgs from rfl]
        omega
    · rw [if_neg hend]
      exact hhere s h hstate rfl rfl (.refl s) (by omega)

/-- The write side stays on this message, or goes to a later one; a START there leaves two
    calls more than its loop has. -/
theorem writeStep_cases (h : At s j m) (hstate : s.state = .write)
    (hplain : ∀ m ∈ s.msgs, ¬ (m.isRd = true ∧ m.isNostart = true)) :
    (∃ w, (∀ poll, writeStep poll s (turn j s.msgPtr m (s.msgs.drop (j + 1))) = .ok w) ∧
      LeavesAtMost s (m.room - s.msgPtr + callBound (s.msgs.drop (j + 1))) (clearIrqpend w)) ∨
    ∃ x, (∀ poll, writeStep poll s (turn j s.msgPtr m (s.msgs.drop (j + 1))) =
        (fun y => { y with state := .start }) <$> launch poll x) ∧
      Live x ∧ x.state = .write ∧ Keeps s x ∧
      callsLeft x + 1 ≤ callBound (s.msgs.drop (j + 1)) := by
  -- byte `q` of message `k` is sent
  have hsend : ∀ k q byte mk n, s.msgs[k]? = some mk → q < mk.len.toNat →
      mk.room - (q + 1) + 1 + callBound (s.msgs.drop (k + 1)) ≤ n →
      LeavesAtMost s n (clearIrqpend (sendByte k q byte s)) := by
    intro k q byte mk n hget hq hn
    have hlen := mk.len.isLt
    have hat : At (clearIrqpend (sendByte k q byte s)) k mk := ⟨rfl, rfl, h.num, hget, h.bound⟩
    refine ⟨.inl (hat.live (.inr (.inr hstate)) ?_ hplain), ?_, ⟨rfl, firstStarts_eq rfl rfl⟩⟩
    · exact show q + 1 ≤ 65535 by omega
    · rw [hat.callsLeft, show (clearIrqpend (sendByte k q byte s)).state = .write from hstate,
        if_neg (by decide)]
      exact hn
  rw [turn]
  by_cases hmore : s.msgPtr < m.len.toNat
  · have hroom := m.len_le_room
    rw [if_pos hmore]
    exact .inl ⟨_, fun poll => rfl, hsend j s.msgPtr (m.buf s.msgPtr) m _ h.get hmore (by omega)⟩
  · rw [if_neg hmore]
    have hreach := nextTurn_reaches (j + 1) (s.msgs.drop (j + 1))
    cases hturn : nextTurn (j + 1) (s.msgs.drop (j + 1)) with
    | data k q byte =>
      rw [hturn] at hreach
      obtain ⟨mk, hreach, -, -, hpos, rfl, -⟩ := hreach
      obtain ⟨hget, hjk, -⟩ := hreach.split h.lt
      have hlater := callBound_later hget hjk
      exact .inl ⟨_, fun poll => rfl, hsend k 0 byte mk _ hget hpos (by omega)⟩
    | start k mk =>
      rw [hturn] at hreach
      obtain ⟨hget, hjk, -⟩ := hreach.1.split h.lt
      have hlater := callBound_later hget hjk
      have hat : At (startCondition k mk (seek k s)) k mk := ⟨rfl, rfl, h.num, hget, h.bound⟩
      have hfirst : ∀ stat addr, (Event.start k stat addr).isFirst = false := by
        intro stat addr
        obtain ⟨k', rfl⟩ : ∃ k', k = k' + 1 := ⟨k - 1, by omega⟩
        rfl
      refine .inr ⟨_, fun poll => ?_, hat.live (.inr (.inr hstate)) (Nat.zero_le _) hplain, hstate,
        ⟨rfl, firstStarts_eq rfl (hfirst _ _)⟩, ?_⟩
      · rw [writeStep]
        cases launch poll (startCondition k mk (seek k s)) <;> rfl
      · rw [hat.callsLeft, show (startCondition k mk (seek k s)).state = .write from hstate,
          if_neg (by decide), show (startCondition k mk (seek k s)).msgPtr = 0 from rfl,
          show (startCondition k mk (seek k s)).msgs = s.msgs from rfl]
        omega
    | stop => exact .inl ⟨_, fun poll => rfl, finish_leaves h _⟩
    | fault =>
      rw [hturn] at hreach
      -- no message asks for this
      obtain ⟨k, mk, hreach, hrd, hnostart⟩ := hreach
      obtain ⟨hget, -, -⟩ := hreach.split h.lt
      exact absurd ⟨hrd, hnostart⟩ (hplain mk (List.mem_of_getElem? hget))

/-! ### One call -/

/-- What follows the START of a later message, with its polling loop. -/
def back (y : S3c24xxI2c) : S3c24xxI2c := clearIrqpend { y with state := .start }

/-- A call that returns by itself, or the one that starts the next message. -/
inductive Called (stat : Reg) (s : S3c24xxI2c) : Prop where
  | done (u : S3c24xxI2c) (n : Nat) (call : ∀ poll, i2cS3cIrqNextbyte poll stat s = .ok u)
      (leaves : LeavesAtMost s n u) (less : n < callsLeft s)
  | start (x : S3c24xxI2c)
      (call : ∀ poll, i2cS3cIrqNextbyte poll stat s = back <$> launch poll x)
      (live : Live x) (sending : x.state = .write) (keeps : Keeps s x)
      (less : callsLeft x + 2 ≤ callsLeft s)

/-- What is done behind a nested loop, in one step. -/
theorem back_eq (r : Except Fault S3c24xxI2c) :
    clearIrqpend <$> (fun y : S3c24xxI2c => { y with state := .start }) <$> r = back <$> r := by
  cases r <;> rfl

/-- In either state of a write. -/
theorem called_of_write {w : S3c24xxI2c} {stat : Reg} (h : At w j m) (hstate : w.state = .write)
    (hplain : ∀ m ∈ w.msgs, ¬ (m.isRd = true ∧ m.isNostart = true)) (hkeeps : Keeps s w)
    (hcall : ∀ poll, i2cS3cIrqNextbyte poll stat s =
      clearIrqpend <$> writeStep poll w (turn j w.msgPtr m (w.msgs.drop (j + 1))))
    (hless : m.room - w.msgPtr + callBound (w.msgs.drop (j + 1)) < callsLeft s) :
    Called stat s := by
  obtain ⟨v, hv, hleaves⟩ | ⟨x, hx, hlive, hxstate, hkeeps', hless'⟩ :=
    writeStep_cases h hstate hplain
  · have hdone : ∀ poll, i2cS3cIrqNextbyte poll stat s = .ok (clearIrqpend v) := by
      intro poll
      rw [hcall, hv]
      rfl
    exact .done _ _ hdone (hleaves.mono hkeeps (Nat.le_refl _)) hless
  · have hstart : ∀ poll, i2cS3cIrqNextbyte poll stat s = back <$> launch poll x := by
      intro poll
      rw [hcall, hx, back_eq]
    exact .start x hstart hlive hxstate (hkeeps.trans hkeeps') (by omega)

/-- The address byte is refused, a read begins, or a write begins. -/
theorem nextbyte_called_start (h : Live s) (hstate : s.state = .start) (stat : Reg) :
    Called stat s := by
  obtain ⟨m, hat⟩ := h.here
  have hptr := h.ptr
  have hpos := h.callsLeft_pos
  have hleft := hat.callsLeft
  rw [hstate, if_pos rfl] at hleft
  by_cases hnak : nak stat m = true
  · have hdone : ∀ poll, i2cS3cIrqNextbyte poll stat s =
        .ok (clearIrqpend (s3c24xxI2cStop s eNxio)) := by
      intro poll
      rw [nextbyte_of_start hat hstate (by omega), if_pos hnak]
      rfl
    exact .done _ 0 hdone (stop_leaves hat.bound (.inl rfl) 0) hpos
  by_cases hrd : m.isRd = true
  · have hat' : At { s with state := .read } s.msgIdx m := hat.of_eq rfl rfl rfl rfl
    have hread := readStep_leaves hat' rfl (show s.msgPtr ≤ 65536 by omega) h.plain
    have hdone : ∀ poll, i2cS3cIrqNextbyte poll stat s =
        .ok (clearIrqpend (readStep { s with state := .read } s.msgIdx m)) := by
      intro poll
      rw [nextbyte_of_start hat hstate (by omega), if_neg hnak, if_pos hrd]
      rfl
    apply Called.done _ _ hdone (hread.mono ⟨rfl, rfl⟩ (Nat.le_refl _))
    simp only
    split <;> omega
  · have hat' : At { s with state := .write } s.msgIdx m := hat.of_eq rfl rfl rfl rfl
    have hkeeps : Keeps s { s with state := .write } := ⟨rfl, rfl⟩
    apply called_of_write hat' rfl h.plain hkeeps
    · intro poll
      rw [nextbyte_of_start hat hstate (by omega), if_neg hnak, if_neg hrd]
    · simp only
      omega

/-- A call in WRITE. -/
theorem nextbyte_called_write (h : Live s) (hstate : s.state = .write) (stat : Reg) :
    Called stat s := by
  obtain ⟨m, hat⟩ := h.here
  have hpos := h.callsLeft_pos
  have hleft := hat.callsLeft
  rw [hstate, if_neg (by decide)] at hleft
  by_cases hnak : nak stat m = true
  · have hdone : ∀ poll, i2cS3cIrqNextbyte poll stat s =
        .ok (clearIrqpend (s3c24xxI2cStop s eConnrefused)) := by
      intro poll
      rw [nextbyte_of_write hat hstate, if_pos hnak]
      rfl
    exact .done _ 0 hdone (stop_leaves hat.bound (.inr rfl) 0) hpos
  · apply called_of_write hat hstate h.plain (.refl s)
    · intro poll
      rw [nextbyte_of_write hat hstate, if_neg hnak]
    · omega

/-- A byte is stored, and the room behind it shrinks or stays. -/
theorem nextbyte_called_read (h : Live s) (hstate : s.state = .read) (stat : Reg) :
    Called stat s := by
  obtain ⟨m, hat⟩ := h.here
  have hptr := h.ptr
  have hleft := hat.callsLeft
  rw [hstate, if_neg (by decide)] at hleft
  have hstored := storeByte_eq hat s.iicds
  have hptr' : (storeByte s.iicds m s).msgPtr = s.msgPtr + 1 := by rw [hstored]
  have hdrop : (storeByte s.iicds m s).msgs.drop (s.msgIdx + 1) = s.msgs.drop (s.msgIdx + 1) := by
    rw [hstored, List.drop_set_of_lt (Nat.lt_succ_self _)]
  have hplain : ∀ w ∈ (storeByte s.iicds m s).msgs, ¬ (w.isRd = true ∧ w.isNostart = true) := by
    intro w hw
    rw [hstored] at hw
    obtain hmem | rfl := List.mem_or_eq_of_mem_set hw
    · exact h.plain w hmem
    · exact h.plain m (List.mem_of_getElem? hat.get)
  have hkeeps : Keeps s (storeByte s.iicds m s) := by
    rw [hstored]
    exact ⟨rfl, firstStarts_eq rfl rfl⟩
  have hread := readStep_leaves (hat.storeByte s.iicds) (by rw [hstored]; exact hstate)
    (by omega) hplain
  rw [hptr', hdrop] at hread
  have hroom := room_stored s.iicds s.msgPtr m
  have hlen := (stored s.iicds s.msgPtr m).len_le_room
  apply Called.done _ _ (fun poll => nextbyte_of_read hat hstate stat)
    (hread.mono hkeeps (Nat.le_refl _))
  split <;> omega

/-- A call of `i2c_s3c_irq_nextbyte` uses up one of the calls left. -/
theorem nextbyte_called (h : Live s) (stat : Reg) : Called stat s := by
  obtain hstate | hstate | hstate := h.state
  · exact nextbyte_called_start h hstate stat
  · exact nextbyte_called_read h hstate stat
  · exact nextbyte_called_write h hstate stat

/-! ### What the hardware does in between -/

/-- Only registers, the trace and the count of readings have changed. -/
structure Quiet (s t : S3c24xxI2c) : Prop where
  msg : t.msg = s.msg
  num : t.msgNum = s.msgNum
  idx : t.msgIdx = s.msgIdx
  ptr : t.msgPtr = s.msgPtr
  state : t.state = s.state
  msgs : t.msgs = s.msgs
  keeps : Keeps s t

/-- Two quiet steps. -/
theorem Quiet.trans (h : Quiet s t) (h' : Quiet t u) : Quiet s u :=
  ⟨h'.msg.trans h.msg, h'.num.trans h.num, h'.idx.trans h.idx, h'.ptr.trans h.ptr,
    h'.state.trans h.state, h'.msgs.trans h.msgs, h.keeps.trans h'.keeps⟩

/-- A quiet step leaves the transfer live. -/
theorem Quiet.live (h : Quiet s t) (hlive : Live s) : Live t where
  here := by
    obtain ⟨m, hat⟩ := hlive.here
    rw [h.idx]
    exact ⟨m, hat.of_eq h.msg h.idx h.num h.msgs⟩
  state := by
    rw [h.state]
    exact hlive.state
  ptr := by
    rw [h.ptr]
    exact hlive.ptr
  plain := by
    rw [h.msgs]
    exact hlive.plain

/-- A quiet step leaves the transfer over. -/
theorem Quiet.over (h : Quiet s t) (hover : Over s) : Over t where
  num := h.num.trans hover.num
  idx := by
    rw [h.idx, h.msgs]
    exact hover.idx
  bound := by
    rw [h.msgs]
    exact hover.bound

/-- A quiet step leaves the calls left. -/
theorem Quiet.callsLeft (h : Quiet s t) : callsLeft t = callsLeft s := by
  rw [S3c24xx.callsLeft, S3c24xx.callsLeft, h.num, h.msgs, h.idx, h.ptr, h.state]

/-- The end of a byte is quiet. -/
theorem byteEnd_quiet (e : ByteEnd) (s : S3c24xxI2c) : Quiet s (byteEnd e s) :=
  ⟨rfl, rfl, rfl, rfl, rfl, rfl, ⟨rfl, firstStarts_eq rfl rfl⟩⟩

/-- A register read is quiet. -/
theorem pollRead_quiet (env : PollEnv) (s : S3c24xxI2c) : Quiet s (pollRead env s) := by
  have hcount : Quiet s { s with polls := s.polls + 1 } :=
    ⟨rfl, rfl, rfl, rfl, rfl, rfl, ⟨rfl, rfl⟩⟩
  rw [pollRead]
  split
  · exact hcount
  · exact hcount.trans (byteEnd_quiet _ _)

/-- The tries of `is_ack` are quiet. -/
theorem isAckTries_quiet (env : PollEnv) (tries : Nat) (s : S3c24xxI2c) :
    Quiet s (isAckTries env tries s).2 := by
  induction tries generalizing s with
  | zero => exact ⟨rfl, rfl, rfl, rfl, rfl, rfl, .refl s⟩
  | succ tries ih =>
    have hread := pollRead_quiet env s
    have hagain := hread.trans (pollRead_quiet env (pollRead env s))
    simp only [isAckTries]
    split
    · split
      · exact hagain
      · exact hagain.trans (ih _)
    · exact hread.trans (ih _)

/-- `is_ack` is quiet. -/
theorem isAck_quiet (env : PollEnv) {acked : Bool} (h : isAck env s = (acked, t)) :
    Quiet s t := by
  have hquiet := isAckTries_quiet env 50 s
  rw [isAck] at h
  rwa [h] at hquiet

/-! ### Interrupts -/

/-- Behind a nested loop that gave up the transfer is live. -/
theorem back_live (h : Live y) : Live (back y) where
  here := by
    obtain ⟨m, hat⟩ := h.here
    exact ⟨m, hat.of_eq rfl rfl rfl rfl⟩
  state := .inl rfl
  ptr := h.ptr
  plain := h.plain

/-- What is done behind a nested loop keeps these. -/
theorem back_keeps (y : S3c24xxI2c) : Keeps y (back y) := ⟨rfl, rfl⟩

/-- Behind a nested loop that came to the STOP the transfer is over. -/
theorem back_over (h : Over y) : Over (back y) := ⟨h.num, h.idx, h.bound⟩

/-- `STATE_START` is worth one call. -/
theorem callsLeft_back (y : S3c24xxI2c) : callsLeft (back y) ≤ callsLeft y + 1 := by
  rw [callsLeft, callsLeft, show (back y).msgNum = y.msgNum from rfl,
    show (back y).msgs = y.msgs from rfl, show (back y).msgIdx = y.msgIdx from rfl,
    show (back y).msgPtr = y.msgPtr from rfl, show (back y).state = .start from rfl]
  by_cases hnum : y.msgNum = 0
  · simp only [hnum, if_true]
    omega
  · simp only [hnum, if_false, if_true]
    cases y.msgs.drop y.msgIdx with
    | nil => exact Nat.zero_le _
    | cons m rest =>
      simp only
      omega

/-- A transfer between two interrupts. -/
def Going (s : S3c24xxI2c) : Prop := Live s ∨ Over s ∧ s.state = .stop

/-- An interrupt of a live transfer uses up one of the calls left. -/
theorem irq_live (h : Live s) (e : ByteEnd) :
    ∃ u, s3c24xxI2cIrq s e = .ok u ∧ Going u ∧ Keeps s u ∧ callsLeft u + 1 ≤ callsLeft s := by
  have hquiet := byteEnd_quiet e s
  have hidle : s.state ≠ .idle := by
    obtain hstate | hstate | hstate := h.state <;> rw [hstate] <;> decide
  rw [irq_eq hidle]
  cases nextbyte_called (hquiet.live h) (byteEnd e s).iicstat with
  | done u n hcall hleaves hless =>
    have hleft := hleaves.left
    rw [hquiet.callsLeft] at hless
    exact ⟨u, hcall _, hleaves.next, hquiet.keeps.trans hleaves.keeps, by omega⟩
  | start x hcall hlive hsending hkeeps hless =>
    have hleft := callsLeft_back x
    rw [hquiet.callsLeft] at hless
    have hdone : i2cS3cIrqNextbyte .ok (byteEnd e s).iicstat (byteEnd e s) = .ok (back x) := by
      rw [hcall, launch_ok]
      rfl
    exact ⟨back x, hdone, .inl (back_live hlive),
      (hquiet.keeps.trans hkeeps).trans (back_keeps x), by omega⟩

/-- An interrupt behind the STOP changes nothing of this. -/
theorem irq_over (h : Over s) (hstate : s.state = .stop) (e : ByteEnd) :
    ∃ u, s3c24xxI2cIrq s e = .ok u ∧ (Over u ∧ u.state = .stop) ∧ Keeps s u := by
  have hover := (byteEnd_quiet e s).over h
  exact ⟨_, irq_stop hstate e, ⟨⟨hover.num, hover.idx, hover.bound⟩, hstate⟩,
    ⟨rfl, firstStarts_eq rfl rfl⟩⟩

/-- While the transfer runs, every interrupt has used up a call. -/
theorem run_going (irqs : List ByteEnd) (h : Going s) :
    ∃ t, irqs.foldlM s3c24xxI2cIrq s = .ok t ∧ Going t ∧ Keeps s t ∧
      (t.msgNum ≠ 0 → irqs.length + callsLeft t ≤ callsLeft s) := by
  induction irqs generalizing s with
  | nil => exact ⟨s, rfl, h, .refl s, fun _ => by simp⟩
  | cons e es ih =>
    obtain hlive | ⟨hover, hstate⟩ := h
    · obtain ⟨u, hirq, hgoing, hkeeps, hless⟩ := irq_live hlive e
      obtain ⟨t, hrun, ht, hkeeps', hleft⟩ := ih hgoing
      refine ⟨t, ?_, ht, hkeeps.trans hkeeps', fun hne => ?_⟩
      · rw [List.foldlM_cons, hirq]
        exact hrun
      · have hrest := hleft hne
        rw [List.length_cons]
        omega
    -- behind the STOP the transfer stays ended
    · obtain ⟨u, hirq, hstopped, hkeeps⟩ := irq_over hover hstate e
      obtain ⟨t, hrun, ht, hkeeps', hleft⟩ := ih (.inr hstopped)
      refine ⟨t, ?_, ht, hkeeps.trans hkeeps', fun hne => ?_⟩
      · rw [List.foldlM_cons, hirq]
        exact hrun
      · have hrest := hleft hne
        rw [callsLeft_over hstopped.1.num] at hrest
        obtain hlive | hover' := ht
        · have hpos := hlive.callsLeft_pos
          omega
        · exact absurd hover'.1.num hne

/-! ### Polling -/

/-- The polling loop that is entered in `s` with `stat` makes `n` calls of
    `i2c_s3c_irq_nextbyte`, with those of the loops inside it, and leaves `s'`. -/
inductive PollRun (env : PollEnv) : Reg → S3c24xxI2c → Nat → S3c24xxI2c → Prop
  | ended {stat : Reg} {s : S3c24xxI2c} (num : s.msgNum = 0) : PollRun env stat s 0 s
  | giveUp {stat : Reg} {s t : S3c24xxI2c} (num : s.msgNum ≠ 0) (ack : isAck env s = (false, t)) :
      PollRun env stat s 0 t
  | call {stat : Reg} {s t u s' : S3c24xxI2c} {n : Nat} (num : s.msgNum ≠ 0)
      (ack : isAck env s = (true, t)) (call : ∀ poll, i2cS3cIrqNextbyte poll stat t = .ok u)
      (rest : PollRun env (pollRead env u).iicstat (pollRead env u) n s') :
      PollRun env stat s (n + 1) s'
  | start {stat : Reg} {s t x y s' : S3c24xxI2c} {k n : Nat} (num : s.msgNum ≠ 0)
      (ack : isAck env s = (true, t))
      (call : ∀ poll, i2cS3cIrqNextbyte poll stat t = back <$> poll x)
      (loop : PollRun env x.iicstat x k y)
      (rest : PollRun env (pollRead env (back y)).iicstat (pollRead env (back y)) n s') :
      PollRun env stat s (k + n + 1) s'

/-- The model's loop takes exactly this way, given fuel for the calls. -/
theorem PollRun.pollLoop_eq {env : PollEnv} {stat : Reg} {n : Nat} (h : PollRun env stat s n t)
    {fuel : Nat} (hfuel : n < fuel) : pollLoop env fuel stat s = .ok t := by
  induction h generalizing fuel with
  | ended num =>
    obtain ⟨fuel, rfl⟩ : ∃ f, fuel = f + 1 := ⟨fuel - 1, by omega⟩
    rw [pollLoop, if_neg (not_not.mpr num)]
  | giveUp num ack =>
    obtain ⟨fuel, rfl⟩ : ∃ f, fuel = f + 1 := ⟨fuel - 1, by omega⟩
    rw [pollLoop, if_pos num, ack]
  | call num ack call rest ih =>
    obtain ⟨fuel, rfl⟩ : ∃ f, fuel = f + 1 := ⟨fuel - 1, by omega⟩
    rw [pollLoop, if_pos num, ack]
    simp only [call, bind, Except.bind]
    exact ih (by omega)
  | start num ack call loop rest ihLoop ihRest =>
    obtain ⟨fuel, rfl⟩ : ∃ f, fuel = f + 1 := ⟨fuel - 1, by omega⟩
    rw [pollLoop, if_pos num, ack]
    simp only [call, ihLoop (show _ < fuel by omega), bind, Except.bind, Functor.map, Except.map]
    exact ihRest (by omega)

/-- Two STARTs that enter whatever loop alike enter it in the same state. -/
theorem start_unique
    (h : ∀ poll : S3c24xxI2c → Except Fault S3c24xxI2c, back <$> poll x = back <$> poll y) :
    x = y := by
  classical
  by_contra hne
  have hpoll := h fun z => if z = x then .error .nullMsg else .error .pastMsgs
  simp only [if_true, Ne.symm hne, if_false] at hpoll
  cases hpoll

/-- A call returns by itself or enters a loop, not both. -/
theorem done_ne_start
    (hdone : ∀ poll : S3c24xxI2c → Except Fault S3c24xxI2c,
      i2cS3cIrqNextbyte poll stat s = .ok u)
    (hstart : ∀ poll, i2cS3cIrqNextbyte poll stat s = back <$> poll x) : False := by
  have hcall := hstart fun _ => .error .nullMsg
  rw [hdone] at hcall
  cases hcall

/-- Each call of the loop, and each one inside it, uses up a call that was left. -/
theorem PollRun.bounded {env : PollEnv} {stat : Reg} {n : Nat} (h : PollRun env stat s n t)
    (hs : Live s ∨ Over s) (hquirk : has s.quirks quirkPoll = true) :
    (Live t ∨ Over t) ∧ Keeps s t ∧ n + callsLeft t ≤ callsLeft s := by
  -- the loop goes on in a running transfer, which `is_ack` leaves as it is
  have hacked : ∀ {env : PollEnv} {s t : S3c24xxI2c} {acked : Bool}, s.msgNum ≠ 0 →
      isAck env s = (acked, t) → Live s ∨ Over s → Live t ∧ Quiet s t := by
    intro env s t acked num ack hs
    have hquiet := isAck_quiet env ack
    obtain hlive | hover := hs
    · exact ⟨hquiet.live hlive, hquiet⟩
    · exact absurd hover.num num
  induction h with
  | ended num => exact ⟨hs, .refl _, by omega⟩
  | giveUp num ack =>
    obtain ⟨hlive, hquiet⟩ := hacked num ack hs
    exact ⟨.inl hlive, hquiet.keeps, by rw [hquiet.callsLeft]; omega⟩
  | @call stat s t u s' n num ack call rest ih =>
    obtain ⟨hlive, hquiet⟩ := hacked num ack hs
    have hquirk' : has t.quirks quirkPoll = true := by rw [hquiet.keeps.quirks, hquirk]
    cases nextbyte_called hlive stat with
    | done u' n' hcall hleaves hless =>
      obtain rfl : u = u' := Except.ok.inj ((call .ok).symm.trans (hcall .ok))
      have hread := pollRead_quiet env u
      have hgoing := hleaves.next.imp hread.live fun hover => hread.over hover.1
      have hkeeps := (hquiet.keeps.trans hleaves.keeps).trans hread.keeps
      obtain ⟨hend, hkeeps', hleft⟩ := ih hgoing (by rw [hkeeps.quirks, hquirk])
      refine ⟨hend, hkeeps.trans hkeeps', ?_⟩
      rw [hread.callsLeft] at hleft
      rw [← hquiet.callsLeft]
      have hleft' := hleaves.left
      omega
    | start x hcall hlive' hsending hkeeps hless =>
      have hloops : has x.quirks quirkPoll = true := by rw [hkeeps.quirks, hquirk']
      exact (done_ne_start call fun poll => by rw [hcall, launch_of_poll hloops]).elim
  | @start stat s t x y s' k n num ack call loop rest ihLoop ihRest =>
    obtain ⟨hlive, hquiet⟩ := hacked num ack hs
    have hquirk' : has t.quirks quirkPoll = true := by rw [hquiet.keeps.quirks, hquirk]
    cases nextbyte_called hlive stat with
    | done u' n' hcall hleaves hless => exact (done_ne_start hcall call).elim
    | start x' hcall hlive' hsending hkeeps hless =>
      have hloops : has x'.quirks quirkPoll = true := by rw [hkeeps.quirks, hquirk']
      obtain rfl : x = x' := start_unique fun poll => by
        rw [← call poll, hcall poll, launch_of_poll hloops]
      obtain ⟨hy, hkeepsLoop, hleftLoop⟩ := ihLoop (.inl hlive') hloops
      -- the loop has returned; STATE_START takes back one of the two calls
      have hback := hy.imp back_live back_over
      have hread := pollRead_quiet env (back y)
      have hkeeps' : Keeps s (pollRead env (back y)) :=
        (((hquiet.keeps.trans hkeeps).trans hkeepsLoop).trans (back_keeps y)).trans hread.keeps
      obtain ⟨hend, hkeepsRest, hleftRest⟩ := ihRest (hback.imp hread.live hread.over)
        (by rw [hkeeps'.quirks, hquirk])
      refine ⟨hend, hkeeps'.trans hkeepsRest, ?_⟩
      rw [hread.callsLeft] at hleftRest
      rw [← hquiet.callsLeft]
      have hstart := callsLeft_back y
      omega

/-- The loop ends. The induction is on the calls left: the loop behind a START has two fewer,
    what follows it at least one. -/
theorem pollRun_total (env : PollEnv) (stat : Reg) (s : S3c24xxI2c) (hs : Live s ∨ Over s)
    (hquirk : has s.quirks quirkPoll = true) : ∃ n t, PollRun env stat s n t := by
  induction hleft : callsLeft s using Nat.strongRecOn generalizing s stat with
  | ind left ih =>
    by_cases hnum : s.msgNum = 0
    · exact ⟨0, s, .ended hnum⟩
    have hrunning : Live s := hs.resolve_right fun hover => hnum hover.num
    cases hack : isAck env s with
    | mk acked t =>
      have hquiet := isAck_quiet env hack
      have hquirk' : has t.quirks quirkPoll = true := by rw [hquiet.keeps.quirks, hquirk]
      cases acked with
      | false => exact ⟨0, t, .giveUp hnum hack⟩
      | true =>
        cases nextbyte_called (hquiet.live hrunning) stat with
        -- no START was set: the loop goes on with fewer calls left
        | done u n hcall hleaves hless =>
          have hread := pollRead_quiet env u
          have hgoing := hleaves.next.imp hread.live fun hover => hread.over hover.1
          have hfewer := hleaves.left
          obtain ⟨k, t', hrest⟩ := ih (callsLeft (pollRead env u))
            (by rw [hread.callsLeft, ← hleft, ← hquiet.callsLeft]; omega) _ _ hgoing
            (by rw [hread.keeps.quirks, hleaves.keeps.quirks, hquirk']) rfl
          exact ⟨_, t', .call hnum hack hcall hrest⟩
        -- a START runs a loop of its own, and then the loop around it goes on
        | start x hcall hlive hsending hkeeps hless =>
          have hloops : has x.quirks quirkPoll = true := by rw [hkeeps.quirks, hquirk']
          rw [hquiet.callsLeft] at hless
          obtain ⟨k, y, hloop⟩ := ih (callsLeft x) (by omega) x.iicstat x (.inl hlive) hloops rfl
          obtain ⟨hy, hkeepsLoop, hleftLoop⟩ := hloop.bounded (.inl hlive) hloops
          have hread := pollRead_quiet env (back y)
          have hstart := callsLeft_back y
          obtain ⟨n, t', hrest⟩ := ih (callsLeft (pollRead env (back y)))
            (by rw [hread.callsLeft]; omega) _ _
            ((hy.imp back_live back_over).imp hread.live hread.over)
            (by rw [hread.keeps.quirks, (back_keeps y).quirks, hkeepsLoop.quirks, hloops]) rfl
          exact ⟨_, t', .start hnum hack (fun poll => by rw [hcall, launch_of_poll hloops]) hloop
            hrest⟩

/-! ### Whole transfers -/

section Transfer

variable {ms : List I2cMsg} (hnum : (m :: ms).length < 2147483648)
variable (hplain : ∀ w ∈ m :: ms, ¬ (w.isRd = true ∧ w.isNostart = true))

include hnum hplain in
/-- A transfer begins live. -/
theorem begun_live (s : S3c24xxI2c) : Live (begun m ms s) :=
  ⟨⟨m, rfl, rfl, rfl, rfl, hnum⟩, .inl rfl, Nat.zero_le _, hplain⟩

include hnum in
/-- It begins with the calls that its messages need at most. -/
theorem callsLeft_begun (s : S3c24xxI2c) :
    callsLeft (begun m ms s) = callBound (m :: ms) := by
  have hat : At (begun m ms s) 0 m := ⟨rfl, rfl, rfl, rfl, hnum⟩
  have hptr : (begun m ms s).msgPtr = 0 := rfl
  have hstate : (begun m ms s).state = .start := rfl
  have hdrop : (begun m ms s).msgs.drop (0 + 1) = ms := rfl
  rw [hat.callsLeft, hptr, hstate, hdrop, if_pos rfl, callBound_cons]
  omega

/-- It begins with the START of its first message. -/
theorem firstStarts_begun (m : I2cMsg) (ms : List I2cMsg) (s : S3c24xxI2c) :
    firstStarts (begun m ms s) = firstStarts s + 1 := by
  have htrace : (begun m ms s).trace =
      s.trace ++ [.start 0 (m.startStat ||| iicstatStart) m.addrByte] := rfl
  simp [firstStarts, htrace, Event.isFirst]

include hnum hplain in
/-- For every list of messages without a read that goes on without START. In interrupt mode
    each interrupt is handled, and fewer than `callBound` of them find the transfer running
    behind them. Under `QUIRK_POLL` the START returns, whatever the hardware shows, and the
    loops in it make at most `callBound` calls. -/
theorem transfer_ends (s : S3c24xxI2c) :
    (has s.quirks quirkPoll = false →
      ∀ (poll : S3c24xxI2c → Except Fault S3c24xxI2c) (irqs : List ByteEnd), ∃ t,
        transfer poll (m :: ms) s irqs = .ok t ∧
        (t.msgNum ≠ 0 → irqs.length < callBound (m :: ms))) ∧
    (has s.quirks quirkPoll = true →
      ∀ env : PollEnv,
        (∃ n t, PollRun env (begun m ms s).iicstat (begun m ms s) n t ∧
          ∀ fuel > n, beginXfer (fun s => pollLoop env fuel s.iicstat s) (m :: ms) s = .ok t) ∧
        ∀ n t, PollRun env (begun m ms s).iicstat (begun m ms s) n t →
          n ≤ callBound (m :: ms)) := by
  have hlive := begun_live hnum hplain s
  have hleft := callsLeft_begun hnum s
  constructor
  · intro hquirk poll irqs
    obtain ⟨t, hrun, hgoing, -, hused⟩ := run_going irqs (.inl hlive)
    refine ⟨t, by rw [transfer_eq hquirk, hrun], fun hne => ?_⟩
    have hbound := hused hne
    obtain ht | hover := hgoing
    · have hpos := ht.callsLeft_pos
      omega
    · exact absurd hover.1.num hne
  · intro hquirk env
    have hquirk' : has (begun m ms s).quirks quirkPoll = true := hquirk
    constructor
    · obtain ⟨n, t, hloop⟩ := pollRun_total env (begun m ms s).iicstat _ (.inl hlive) hquirk'
      refine ⟨n, t, hloop, fun fuel hfuel => ?_⟩
      rw [beginXfer_of_poll ms hquirk, hloop.pollLoop_eq hfuel]
    · intro n t hloop
      obtain ⟨-, -, hbound⟩ := hloop.bounded (.inl hlive) hquirk'
      omega

end Transfer

/-- The number of a register. -/
def regNumber : I2cMsg := ⟨0x50, 0, 1, fun _ => 7⟩

/-- An SMBus block read of it. -/
def regBlock : I2cMsg := ⟨0x50, 0x0401, 1, fun _ => 0⟩

/-- A block read of 255 bytes behind a register number. -/
theorem transfer_ends_regBlock :
    (∀ irqs, ∃ t, transfer .ok [regNumber, regBlock] (atRest 0) irqs = .ok t ∧
      (t.msgNum ≠ 0 → irqs.length < 261)) ∧
    ∀ env n t, PollRun env (begun regNumber [regBlock] (atRest 8)).iicstat
      (begun regNumber [regBlock] (atRest 8)) n t → n ≤ 261 :=
  ⟨(transfer_ends (by decide) (by decide) (atRest 0)).1 rfl .ok,
    fun env => ((transfer_ends (by decide) (by decide) (atRest 8)).2 rfl env).2⟩

end S3c24xx
