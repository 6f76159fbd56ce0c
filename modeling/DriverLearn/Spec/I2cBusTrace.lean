import DriverLearn.Spec.I2cScript

/-!
# The bus trace of a transfer

A list of writes, with or without a last read, on a bus that acknowledges every byte: the
driver puts the STARTs and the bytes of the writes on the bus as the list says, stores the
bytes of the read, and ends with one STOP and the number of messages.

## Key results

- `play_acked`: an acknowledged script is played to its end
- `doxfer_busTrace`: the bus trace, the buffers and the return value
-/

namespace S3c24xx

open Word

/-! ### What the bus should show -/

/-- The address byte: seven address bits and the direction, which `I2C_M_REV_DIR_ADDR`
    turns round. -/
def I2cMsg.address (m : I2cMsg) : Byte :=
  (m.addr.setWidth 8 &&& 0x7f) <<< 1 ||| if m.isRd != m.isRevDirAddr then 1 else 0

/-- What message `j` puts on the bus: a START if it is the first or not flagged
    `I2C_M_NOSTART`, and the bytes of a write. -/
def sends (j : Nat) (m : I2cMsg) : List Event :=
  (if j = 0 ∨ m.isNostart = false then
    [.start j (m.startStat ||| iicstatStart) m.address] else []) ++
  if m.isRd then [] else (List.range m.len.toNat).map fun p => .data j p (m.buf p)

/-- What the messages from index `j` on put on the bus. -/
def sendsFrom (j : Nat) : List I2cMsg → List Event
  | [] => []
  | m :: ms => sends j m ++ sendsFrom (j + 1) ms

/-- The bytes of a read that are stored for message `j`. -/
def receives (j : Nat) (recvd : List ByteEnd) : List Event :=
  recvd.mapIdx fun p e => .recv j p e.iicds

/-- A message with the received bytes at the start of its buffer. -/
def filled (recvd : List ByteEnd) (m : I2cMsg) : I2cMsg :=
  { m with buf := fun i => (recvd[i]?).elim (m.buf i) ByteEnd.iicds }

/-- A trace without the ends of the bytes. -/
def onBus (trace : List Event) : List Event :=
  trace.filter fun
    | .byteEnd _ => false
    | _ => true

/-- The address byte is the address with the read bit. -/
theorem addrByte_eq (m : I2cMsg) : m.addrByte = m.address := by
  have hset : ∀ a : Byte, a <<< 1 ^^^ 1 = a <<< 1 ||| 1 := by
    intro a
    apply BitVec.eq_of_getLsbD_eq
    intro i _
    cases i <;> simp
  have hclear : ∀ a : Byte, (a <<< 1 ||| 1) ^^^ 1 = a <<< 1 := by
    intro a
    apply BitVec.eq_of_getLsbD_eq
    intro i _
    cases i <;> simp
  unfold I2cMsg.addrByte I2cMsg.address
  cases m.isRd <;> cases m.isRevDirAddr <;>
    simp [BitVec.setWidth_xor, BitVec.setWidth_or] <;> first | exact hset _ | exact hclear _

/-! ### Scripts that are played to the end -/

/-- A slot that is not the first byte of a block read. -/
def Slot.Fixed (u : Slot) : Prop := ∀ e rest, u.extend e rest = rest

/-- The trace of slots that pass, each with the end of its byte. -/
def blocks : List Slot → List ByteEnd → List Event
  | u :: us, e :: es => u.enter ++ (u.exit e ++ blocks us es)
  | _, _ => []

/-- What two lists of slots show. -/
theorem blocks_append (us vs : List Slot) (es fs : List ByteEnd) (h : us.length = es.length) :
    blocks (us ++ vs) (es ++ fs) = blocks us es ++ blocks vs fs := by
  induction us generalizing es with
  | nil =>
    rw [List.length_nil, eq_comm, List.length_eq_zero_iff] at h
    rw [h]
    rfl
  | cons u us ih =>
    cases es with
    | nil => simp at h
    | cons e es =>
      simp only [List.cons_append, blocks, ih es (by simpa using h), List.append_assoc]

/-- A script whose bytes all pass is played to its end. -/
theorem play_acked {u : Slot} {rest : List Slot} {es : List ByteEnd}
    (hfixed : ∀ v ∈ u :: rest, v.Fixed) (hlen : (u :: rest).length = es.length)
    (hpass : ∀ p ∈ (u :: rest).zip es, p.1.passes p.2 = true) :
    (play u rest es).2 = .finished ∧
      u.enter ++ (play u rest es).1 = blocks (u :: rest) es ++ [.stop] := by
  induction rest generalizing u es with
  | nil =>
    obtain ⟨e, rfl⟩ := List.length_eq_one_iff.mp hlen.symm
    rw [play, hpass (u, e) (by simp), if_pos rfl, hfixed u (by simp)]
    simp [blocks, spurious]
  | cons v rest ih =>
    cases es with
    | nil => simp at hlen
    | cons e es =>
      rw [play, hpass (u, e) (by simp), if_pos rfl, hfixed u (by simp)]
      obtain ⟨houtcome, htrace⟩ := ih (fun w hw => hfixed w (List.mem_cons_of_mem u hw))
        (by simpa using hlen) (fun p hp => hpass p (by
          rw [List.zip_cons_cons]
          exact List.mem_cons_of_mem _ hp))
      refine ⟨houtcome, ?_⟩
      simp only [htrace]
      rw [blocks]
      simp only [List.append_assoc]

/-- Slots that are all acknowledged are played to the STOP. -/
theorem playAll_acked {us : List Slot} {es : List ByteEnd} (hne : us ≠ [])
    (hfixed : ∀ v ∈ us, v.Fixed) (hlen : us.length = es.length)
    (hpass : ∀ p ∈ us.zip es, p.1.passes p.2 = true) :
    playAll us es = (blocks us es ++ [.stop], .finished) := by
  obtain ⟨u, rest, rfl⟩ := List.exists_cons_of_ne_nil hne
  obtain ⟨houtcome, htrace⟩ := play_acked hfixed hlen hpass
  rw [playAll, houtcome, htrace]

/-! ### The script of the messages -/

/-- The script of two lists, one behind the other. -/
theorem script_append (j : Nat) (xs ys : List I2cMsg) :
    script j (xs ++ ys) = script j xs ++ script (j + xs.length) ys := by
  induction xs generalizing j with
  | nil => rfl
  | cons m ms ih =>
    rw [List.cons_append, script, ih, script, List.length_cons,
      show j + 1 + ms.length = j + (ms.length + 1) by omega]
    simp only [List.append_assoc]

/-- A slot whose byte the driver sends. -/
def Slot.Sends : Slot → Prop
  | .recv _ _ _ => False
  | _ => True

/-- The START of a message is sent. -/
theorem opening_sends (j : Nat) (m : I2cMsg) : ∀ u ∈ opening j m, u.Sends := by
  intro u hu
  rw [opening] at hu
  split at hu
  · rw [List.mem_singleton.mp hu]
    trivial
  · cases hu

/-- A slot of a write. -/
def Slot.Writes : Slot → Prop
  | .start _ m => m.isRd = false
  | .data _ _ _ => True
  | .recv _ _ _ => False

/-- A slot of a write is sent. -/
theorem Slot.Writes.sends {u : Slot} (h : u.Writes) : u.Sends := by
  cases u with
  | recv => exact h
  | _ => trivial

/-- The script of writes has no byte to be received. -/
theorem script_writes {ws : List I2cMsg} (hws : ∀ w ∈ ws, w.isRd = false) (j : Nat) :
    ∀ u ∈ script j ws, u.Writes := by
  induction ws generalizing j with
  | nil => exact fun u hu => nomatch hu
  | cons w ws ih =>
    intro u hu
    have hw := hws w List.mem_cons_self
    rw [script, List.mem_append, List.mem_append] at hu
    rcases hu with hu | hu | hu
    · rw [opening] at hu
      split at hu
      · rw [List.mem_singleton.mp hu]
        exact hw
      · cases hu
    · rw [bytesFrom, hw, List.mem_map] at hu
      obtain ⟨p, -, rfl⟩ := hu
      trivial
    · exact ih (fun w hw => hws w (List.mem_cons_of_mem _ hw)) (j + 1) u hu

/-- Of slots that are sent the bus shows how they begin. -/
theorem onBus_blocks_sends {us : List Slot} {es : List ByteEnd} (hus : ∀ u ∈ us, u.Sends)
    (hlen : us.length = es.length) : onBus (blocks us es) = us.flatMap Slot.enter := by
  induction us generalizing es with
  | nil => rfl
  | cons u us ih =>
    match es, hlen with
    | e :: es, hlen =>
      have hrest := ih (fun v hv => hus v (List.mem_cons_of_mem u hv)) (by simpa using hlen)
      have hu := hus u List.mem_cons_self
      rw [List.flatMap_cons, ← hrest]
      cases u with
      | recv j m p => exact hu.elim
      | start j m => rfl
      | data j m p => rfl

/-- What a message shows in front of its bytes. -/
theorem enter_opening (j : Nat) (m : I2cMsg) :
    (opening j m).flatMap Slot.enter =
      if j = 0 ∨ m.isNostart = false then
        [.start j (m.startStat ||| iicstatStart) m.address] else [] := by
  rw [opening]
  split
  · rw [← addrByte_eq]
    rfl
  · rfl

/-- What a message shows of its bytes when they begin: nothing if it is a read. -/
theorem enter_bytesFrom (j : Nat) (m : I2cMsg) :
    (bytesFrom j m 0).flatMap Slot.enter =
      if m.isRd then [] else (List.range m.len.toNat).map fun p => .data j p (m.buf p) := by
  rw [bytesFrom, Nat.sub_zero, ← List.range_eq_range', List.flatMap_map]
  cases m.isRd with
  | true => exact List.flatMap_eq_nil_iff.mpr fun _ _ => rfl
  | false => exact List.map_eq_flatMap.symm

/-- A script sends what its messages say. -/
theorem enter_script (j : Nat) (msgs : List I2cMsg) :
    (script j msgs).flatMap Slot.enter = sendsFrom j msgs := by
  induction msgs generalizing j with
  | nil => rfl
  | cons m ms ih =>
    rw [script, sendsFrom, sends, List.flatMap_append, List.flatMap_append, enter_opening,
      enter_bytesFrom, ih, List.append_assoc]

/-- Of slots that are received the bus shows the bytes. -/
theorem onBus_blocks_recv (j p : Nat) (m : I2cMsg) (recvd : List ByteEnd) :
    onBus (blocks ((List.range' p recvd.length).map (.recv j m)) recvd) =
      recvd.mapIdx fun i e => .recv j (p + i) e.iicds := by
  induction recvd generalizing p with
  | nil => rfl
  | cons e es ih =>
    have hrest := ih (p + 1)
    simp only [show ∀ i, p + 1 + i = p + (i + 1) by omega] at hrest
    rw [List.mapIdx_cons, ← hrest]
    rfl

/-! ### The buffers -/

/-- Slots that are sent store nothing. -/
theorem foldl_store_sends {us : List Slot} {es : List ByteEnd} (hus : ∀ u ∈ us, u.Sends)
    (hlen : us.length = es.length) (msgs : List I2cMsg) :
    (blocks us es).foldl store msgs = msgs := by
  induction us generalizing es with
  | nil => rfl
  | cons u us ih =>
    match es, hlen with
    | e :: es, hlen =>
      have hrest := ih (fun v hv => hus v (List.mem_cons_of_mem u hv)) (by simpa using hlen)
      have hu := hus u List.mem_cons_self
      cases u with
      | recv j m p => exact hu.elim
      | start j m => exact hrest
      | data j m p => exact hrest

/-- The bytes of a read from byte `p` on. -/
theorem foldl_store_recv (ws : List I2cMsg) (m r : I2cMsg) (p : Nat) (recvd : List ByteEnd)
    (hblock : r.isRecvLen = false) :
    (blocks ((List.range' p recvd.length).map (.recv ws.length m)) recvd).foldl store
        (ws ++ [r]) =
      ws ++ [{ r with buf := fun i =>
        if i < p then r.buf i else (recvd[i - p]?).elim (r.buf i) ByteEnd.iicds }] := by
  induction recvd generalizing p r with
  | nil => simp [blocks]
  | cons e es ih =>
    have hstored : store (ws ++ [r]) (.recv ws.length p e.iicds) =
        ws ++ [stored e.iicds p r] := by
      rw [store, List.modify_eq_take_cons_drop (by simp)]
      simp
    -- the byte at `p` comes from this interrupt, those behind it from the rest
    have hbuf : (fun i => if i < p + 1 then (stored e.iicds p r).buf i
        else (es[i - (p + 1)]?).elim ((stored e.iicds p r).buf i) ByteEnd.iicds) =
        fun i => if i < p then r.buf i
        else ((e :: es)[i - p]?).elim (r.buf i) ByteEnd.iicds := by
      funext i
      rcases Nat.lt_trichotomy i p with hi | hi | hi
      · rw [if_pos (by omega), if_pos hi, stored_buf, Function.update_of_ne (by omega)]
      · rw [if_pos (by omega), if_neg (by omega), hi, stored_buf, Function.update_self,
          Nat.sub_self]
        rfl
      · rw [if_neg (by omega), if_neg (by omega), stored_buf, Function.update_of_ne (by omega),
          show i - p = i - (p + 1) + 1 by omega, List.getElem?_cons_succ]
    have hrest := ih (stored e.iicds p r) (p + 1) hblock
    rw [hbuf] at hrest
    -- the length only changes when the message asks for it
    have hsame : ∀ buf, { stored e.iicds p r with buf := buf } = { r with buf := buf } := by
      intro buf
      simp [stored, hblock]
    rw [hsame] at hrest
    rw [← hrest, ← hstored]
    rfl

/-! ### Whole transfers -/

/-- Writes and a last read are such a list. -/
theorem writesThenRead_append {ws : List I2cMsg} {rd : Option I2cMsg}
    (hws : ∀ w ∈ ws, w.isRd = false)
    (hrd : ∀ r ∈ rd, r.isRd = true ∧ r.isNostart = false) :
    WritesThenRead (ws ++ rd.toList) := by
  induction ws with
  | nil =>
    cases rd with
    | none => trivial
    | some r => exact ⟨fun _ => ⟨rfl, (hrd r rfl).2⟩, trivial⟩
  | cons w ws ih =>
    refine ⟨fun h => ?_, ih fun w hw => hws w (List.mem_cons_of_mem _ hw)⟩
    rw [hws w List.mem_cons_self] at h
    cases h

/-- A slot that is sent passes if it is acknowledged. -/
theorem Slot.Sends.passes {u : Slot} (hu : u.Sends) {e : ByteEnd}
    (he : has e.iicstat iicstatLastbit = false) : u.passes e = true := by
  cases u with
  | recv j m p => exact hu.elim
  | start j m => simp [Slot.passes, nak, he]
  | data j m p => simp [Slot.passes, nak, he]

/-- Its length is fixed. -/
theorem Slot.Sends.fixed {u : Slot} (hu : u.Sends) : u.Fixed := by
  cases u with
  | recv j m p => exact hu.elim
  | start j m => exact fun _ _ => rfl
  | data j m p => exact fun _ _ => rfl

/-- So is that of a byte received outside a block read. -/
theorem recv_fixed (j p : Nat) {m : I2cMsg} (h : m.isRecvLen = false) :
    (Slot.recv j m p).Fixed := by
  intro e rest
  cases p with
  | zero => simp [Slot.extend, h]
  | succ p => rfl

/-- The slots of the last read, if there is one. -/
def recvSlots (j : Nat) (rd : Option I2cMsg) : List Slot :=
  rd.elim [] fun r => (List.range' 0 r.len.toNat).map (.recv j r)

/-- The bytes of the last read. -/
theorem mem_recvSlots {j : Nat} {rd : Option I2cMsg} {u : Slot} (h : u ∈ recvSlots j rd) :
    ∃ r ∈ rd, ∃ p, u = .recv j r p := by
  cases rd with
  | none => cases h
  | some r =>
    obtain ⟨p, -, hu⟩ := List.mem_map.mp h
    exact ⟨r, rfl, p, hu.symm⟩

/-- As many as its length says. -/
theorem length_recvSlots (j : Nat) (rd : Option I2cMsg) :
    (recvSlots j rd).length = rd.elim 0 fun r => r.len.toNat := by
  cases rd <;> simp [recvSlots]

/-- They show what is received. -/
theorem onBus_recvSlots (j : Nat) {rd : Option I2cMsg} {recvd : List ByteEnd}
    (hlen : recvd.length = rd.elim 0 fun r => r.len.toNat) :
    onBus (blocks (recvSlots j rd) recvd) = receives j recvd := by
  cases rd with
  | none =>
    rw [List.length_eq_zero_iff.mp hlen]
    rfl
  | some r =>
    have hbytes := onBus_blocks_recv j 0 r recvd
    simp only [Nat.zero_add, show recvd.length = r.len.toNat from hlen] at hbytes
    exact hbytes

/-- They fill the buffer of the last read. -/
theorem store_recvSlots (ws : List I2cMsg) {rd : Option I2cMsg} {recvd : List ByteEnd}
    (hblock : ∀ r ∈ rd, r.isRecvLen = false)
    (hlen : recvd.length = rd.elim 0 fun r => r.len.toNat) :
    (blocks (recvSlots ws.length rd) recvd).foldl store (ws ++ rd.toList) =
      ws ++ (rd.map (filled recvd)).toList := by
  cases rd with
  | none =>
    rw [List.length_eq_zero_iff.mp hlen]
    rfl
  | some r =>
    have hbuf := foldl_store_recv ws r r 0 recvd (hblock r rfl)
    rw [show recvd.length = r.len.toNat from hlen] at hbuf
    simp only [Nat.not_lt_zero, if_false, Nat.sub_zero] at hbuf
    exact hbuf

/-- What is sent and what is received, in this order. -/
theorem script_out (ws : List I2cMsg) (rd : Option I2cMsg) (hws : ∀ w ∈ ws, w.isRd = false)
    (hrd : ∀ r ∈ rd, r.isRd = true ∧ r.isNostart = false) :
    ∃ out, script 0 (ws ++ rd.toList) =
        out ++ recvSlots ws.length rd ∧
      (∀ u ∈ out, u.Sends) ∧ out.flatMap Slot.enter = sendsFrom 0 (ws ++ rd.toList) := by
  have hsends : ∀ u ∈ script 0 ws, u.Sends := fun u hu => (script_writes hws 0 u hu).sends
  rw [← enter_script]
  cases rd with
  | none => exact ⟨script 0 ws, by simp [recvSlots], hsends, by simp⟩
  | some r =>
    obtain ⟨hr, hstart⟩ := hrd r rfl
    refine ⟨script 0 ws ++ opening ws.length r, ?_, ?_, ?_⟩
    · simp [script_append, script, bytesFrom, hr, recvSlots]
    · intro u hu
      rcases List.mem_append.mp hu with hu | hu
      · exact hsends u hu
      · exact opening_sends _ r u hu
    · simp [script_append, script, enter_bytesFrom, hr]

/-- A slot that is sent shows one event when it begins. -/
theorem length_enter {us : List Slot} (hus : ∀ u ∈ us, u.Sends) :
    (us.flatMap Slot.enter).length = us.length := by
  induction us with
  | nil => rfl
  | cons u us ih =>
    have hrest := ih fun v hv => hus v (List.mem_cons_of_mem u hv)
    have hu := hus u List.mem_cons_self
    rw [List.flatMap_cons, List.length_append, hrest, List.length_cons]
    cases u with
    | recv j m p => exact hu.elim
    | start j m => exact Nat.add_comm _ _
    | data j m p => exact Nat.add_comm _ _

/-- A bus that acknowledges every byte sent plays the whole script. -/
theorem script_played {ws : List I2cMsg} {rd : Option I2cMsg} {out : List Slot}
    {sent recvd : List ByteEnd} (hout : script 0 (ws ++ rd.toList) = out ++ recvSlots ws.length rd)
    (hsends : ∀ u ∈ out, u.Sends) (hblock : ∀ r ∈ rd, r.isRecvLen = false)
    (hne : ws ++ rd.toList ≠ []) (hsent : out.length = sent.length)
    (hrecvd : recvd.length = rd.elim 0 fun r => r.len.toNat)
    (hack : ∀ e ∈ sent, has e.iicstat iicstatLastbit = false) :
    playAll (script 0 (ws ++ rd.toList)) (sent ++ recvd) =
      (blocks out sent ++ blocks (recvSlots ws.length rd) recvd ++ [.stop], .finished) := by
  have hscript : script 0 (ws ++ rd.toList) ≠ [] := by
    obtain ⟨m, ms, hmsgs⟩ := List.exists_cons_of_ne_nil hne
    rw [hmsgs]
    simp [script, opening]
  rw [hout] at hscript ⊢
  rw [← blocks_append _ _ _ _ hsent]
  apply playAll_acked hscript
  · intro v hv
    rcases List.mem_append.mp hv with hv | hv
    · exact (hsends v hv).fixed
    · obtain ⟨r, hr, p, rfl⟩ := mem_recvSlots hv
      exact recv_fixed ws.length p (hblock r hr)
  · rw [List.length_append, List.length_append, hsent, hrecvd, length_recvSlots]
  · intro p hp
    rw [List.zip_append hsent] at hp
    rcases List.mem_append.mp hp with hp | hp
    · obtain ⟨hu, he⟩ := List.of_mem_zip hp
      exact (hsends p.1 hu).passes (hack p.2 he)
    -- what is received needs no acknowledge
    · obtain ⟨r, -, q, hq⟩ := mem_recvSlots (List.of_mem_zip hp).1
      rw [hq]
      rfl

/-- Any writes, the later ones with or without a START of their own, and possibly a last
    read, on a free bus that acknowledges every byte sent: the transfer takes one interrupt
    for each byte, shows the bytes in order between the STARTs and one STOP, fills the
    buffer of the read, and returns the number of messages. -/
theorem doxfer_busTrace (busy : Nat → Reg) (penv : PollEnv) (fuel : Nat) (s : S3c24xxI2c)
    (ws : List I2cMsg) (rd : Option I2cMsg) (sent recvd : List ByteEnd)
    (hws : ∀ w ∈ ws, w.isRd = false)
    (hrd : ∀ r ∈ rd, r.isRd = true ∧ r.isNostart = false ∧ r.isRecvLen = false)
    (hne : ws ++ rd.toList ≠ []) (hnum : (ws ++ rd.toList).length < 2147483648)
    (hquirk : has s.quirks quirkPoll = false) (hsuspended : s.suspended = false)
    (hbus : s3c24xxI2cSetMaster busy = 0)
    (hsent : sent.length = (sendsFrom 0 (ws ++ rd.toList)).length)
    (hrecvd : recvd.length = rd.elim 0 fun r => r.len.toNat)
    (hack : ∀ e ∈ sent, has e.iicstat iicstatLastbit = false) :
    ∃ s' trace,
      s3c24xxI2cDoxfer (interrupted busy penv (sent ++ recvd) []) fuel (ws ++ rd.toList) s =
        .ok ((ws ++ rd.toList).length, s') ∧
      s'.trace = s.trace ++ trace ∧
      onBus trace = sendsFrom 0 (ws ++ rd.toList) ++ receives ws.length recvd ++ [.stop] ∧
      s'.msgs = ws ++ (rd.map (filled recvd)).toList := by
  obtain ⟨out, hout, hsends, henter⟩ := script_out ws rd hws fun r hr =>
    ⟨(hrd r hr).1, (hrd r hr).2.1⟩
  have hplain := writesThenRead_append hws fun r hr => ⟨(hrd r hr).1, (hrd r hr).2.1⟩
  have hblock : ∀ r ∈ rd, r.isRecvLen = false := fun r hr => (hrd r hr).2.2
  have houtlen : out.length = sent.length := by
    rw [hsent, ← henter, length_enter hsends]
  -- the interrupts play the script slot by slot: one for each byte, and the STOP behind the last
  have hplay := script_played hout hsends hblock hne houtlen hrecvd hack
  obtain ⟨m, ms, t, hmsgs, ht, htrace, htmsgs, hreached⟩ :=
    transfer_plays hne hplain hnum s (sent ++ recvd)
  rw [hplay] at htrace htmsgs hreached
  have hdoxfer := doxfer_irq penv (sent ++ recvd) [] fuel m ms hsuspended hbus hquirk
  rw [ht, ← hmsgs] at hdoxfer
  refine ⟨leave t, _, hdoxfer.trans ?_, (leave_trace t).trans htrace, ?_, ?_⟩
  · rw [← hreached.idx]
    rfl
  · have hsend := onBus_blocks_sends hsends houtlen
    have hrecv := onBus_recvSlots ws.length hrecvd
    rw [henter] at hsend
    rw [onBus] at hsend hrecv ⊢
    rw [List.filter_append, List.filter_append, hsend, hrecv]
    rfl
  · have hbuf := store_recvSlots ws hblock hrecvd
    rw [leave_msgs, htmsgs, List.foldl_append, List.foldl_append,
      foldl_store_sends hsends houtlen]
    exact congrArg (List.foldl store · [.stop]) hbuf

/-- A write of two bytes. -/
def twoBytes : I2cMsg := ⟨0x50, 0, 2, fun _ => 7⟩

/-- A read of one byte. -/
def oneByte : I2cMsg := ⟨0x50, 1, 1, fun _ => 0⟩

/-- An interrupt for each of the five bytes of a write and a read. -/
theorem doxfer_busTrace_write_read :
    ∃ s' trace,
      s3c24xxI2cDoxfer
        (interrupted (fun _ => 0) (fun _ => none) (List.replicate 4 acked ++ [⟨1, 0x42⟩]) [])
        0 ([twoBytes] ++ (some oneByte).toList) (atRest 0) = .ok (2, s') ∧
      s'.trace = (atRest 0).trace ++ trace ∧
      onBus trace = sendsFrom 0 ([twoBytes] ++ (some oneByte).toList) ++
        receives 1 [⟨1, 0x42⟩] ++ [.stop] ∧
      s'.msgs = [twoBytes] ++ ((some oneByte).map (filled [⟨1, 0x42⟩])).toList :=
  doxfer_busTrace (fun _ => 0) (fun _ => none) 0 (atRest 0) [twoBytes] (some oneByte)
    (List.replicate 4 acked) [⟨1, 0x42⟩] (by decide)
    (fun r hr => by cases hr; exact ⟨rfl, rfl, rfl⟩) (by simp) (by simp) rfl rfl (by decide)
    rfl rfl (by decide)

end S3c24xx
