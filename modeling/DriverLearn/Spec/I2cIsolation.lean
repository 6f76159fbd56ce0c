import DriverLearn.Spec.I2cPointer
import DriverLearn.Spec.I2cReturn

/-!
# Message isolation

Every message should be opened by its own START before any of its bytes moves, whatever
the mix of reads and writes. The write side of the driver issues that START when it goes
to the next message. The read side only moves the pointers, so that a message behind a
read gets no START and its buffer takes bytes of the device that was read. Isolation
holds exactly for the lists in which no message follows a read.

## Key results

- `play_framed`: in a script that opens its messages every byte moves in its own frame
- `play_finishes`: acknowledged bytes bring a transfer to its end
- `start_behind_writes`: the driver sends a START only behind writes
- `isolated_iff`: the exact condition on the message list
-/

namespace S3c24xx

open Word

/-! ### Isolated transfers -/

/-- Every byte moves behind the START of its message: `latest` is the message of the latest
    START. Each START carries the address and the direction of its message, each byte sent
    is one of its buffer, and bytes are stored for reads only. -/
def Framed (msgs : List I2cMsg) : Option Nat → List Event → Prop
  | _, [] => True
  | _, .start j stat addr :: evs =>
    (∃ m, msgs[j]? = some m ∧ stat = m.startStat ||| iicstatStart ∧ addr = m.address) ∧
      Framed msgs (some j) evs
  | latest, .data j p byte :: evs =>
    (latest = some j ∧ ∃ m, msgs[j]? = some m ∧ m.isRd = false ∧ byte = m.buf p) ∧
      Framed msgs latest evs
  | latest, .recv j _ _ :: evs =>
    (latest = some j ∧ ∃ m, msgs[j]? = some m ∧ m.isRd = true) ∧ Framed msgs latest evs
  | latest, .stop :: evs => Framed msgs latest evs
  | latest, .byteEnd _ :: evs => Framed msgs latest evs

/-- The STARTs and the bytes sent. -/
def outgoing (trace : List Event) : List Event :=
  trace.filter fun
    | .start _ _ _ => true
    | .data _ _ _ => true
    | _ => false

/-- The interrupts of a transfer: `e n` is the `n`-th one. -/
def firstIrqs (e : Nat → ByteEnd) (n : Nat) : List ByteEnd := (List.range n).map e

/-- Every byte that is sent is acknowledged. -/
def Acked (msgs : List I2cMsg) (s : S3c24xxI2c) (e : Nat → ByteEnd) : Prop :=
  ∀ n t, transfer .ok msgs s (firstIrqs e n) = .ok t →
    t.state = .start ∨ t.state = .write → has (e n).iicstat iicstatLastbit = false

/-- A transfer that keeps its messages apart: every byte moves in the frame of its message,
    write buffers stay as they are, and in the end every START and every byte of a write
    was sent, in order. -/
structure Isolated (msgs : List I2cMsg) (s : S3c24xxI2c) (e : Nat → ByteEnd) : Prop where
  safe : ∀ n, ∃ t trace, transfer .ok msgs s (firstIrqs e n) = .ok t ∧
    t.trace = s.trace ++ trace ∧ Framed msgs none trace ∧
    ∀ (j : Nat) m, msgs[j]? = some m → m.isRd = false → t.msgs[j]? = some m
  complete : ∃ n t trace, transfer .ok msgs s (firstIrqs e n) = .ok t ∧
    t.trace = s.trace ++ trace ∧ t.state = .stop ∧ outgoing trace = sendsFrom 0 msgs

/-! ### Frames of a script -/

/-- A script whose slots stand behind the START of their message. -/
def Linked (msgs : List I2cMsg) : Option Nat → List Slot → Prop
  | _, [] => True
  | _, .start j m :: us => msgs[j]? = some m ∧ Linked msgs (some j) us
  | latest, .data j m _ :: us =>
    (latest = some j ∧ msgs[j]? = some m ∧ m.isRd = false) ∧ Linked msgs latest us
  | latest, .recv j m _ :: us =>
    (latest = some j ∧ msgs[j]? = some m ∧ m.isRd = true) ∧ Linked msgs latest us

/-- The latest START once a slot has begun. -/
def Slot.latest (before : Option Nat) : Slot → Option Nat
  | .start j _ => some j
  | _ => before

variable {msgs : List I2cMsg} {latest : Option Nat} {u : Slot} {rest : List Slot}

/-- Bytes received from the message that was started last. -/
theorem linked_append_recv {j : Nat} {m : I2cMsg} (hlatest : latest = some j)
    (hget : msgs[j]? = some m) (hrd : m.isRd = true) (ps : List Nat) {us : List Slot}
    (hus : Linked msgs latest us) : Linked msgs latest (ps.map (.recv j m) ++ us) := by
  induction ps with
  | nil => exact hus
  | cons p ps ih => exact ⟨⟨hlatest, hget, hrd⟩, ih⟩

/-- The bytes of the message that was started last. -/
theorem linked_bytesFrom {j : Nat} {m : I2cMsg} (hlatest : latest = some j)
    (hget : msgs[j]? = some m) {us : List Slot} (hus : Linked msgs latest us) :
    Linked msgs latest (bytesFrom j m 0 ++ us) := by
  rw [bytesFrom]
  cases hrd : m.isRd with
  | true => exact linked_append_recv hlatest hget hrd _ hus
  | false =>
    induction List.range' 0 (m.len.toNat - 0) with
    | nil => exact hus
    | cons p ps ih => exact ⟨⟨hlatest, hget, hrd⟩, ih⟩

/-- Without `I2C_M_NOSTART` every message of a script is opened. -/
theorem linked_script (hnostart : ∀ m ∈ msgs, m.isNostart = false) (j : Nat)
    (latest : Option Nat) : Linked msgs latest (script j (msgs.drop j)) := by
  induction hleft : msgs.length - j generalizing j latest with
  | zero =>
    rw [List.drop_eq_nil_of_le (by omega)]
    trivial
  | succ left ih =>
    have hlt : j < msgs.length := by omega
    have hopen : opening j msgs[j] = [.start j msgs[j]] := by
      rw [opening, if_pos (.inr (hnostart _ (List.getElem_mem hlt)))]
    rw [List.drop_eq_getElem_cons hlt, script, hopen]
    have hget : msgs[j]? = some msgs[j] := List.getElem?_eq_getElem hlt
    exact ⟨hget, linked_bytesFrom rfl hget (ih (j + 1) _ (by omega))⟩

/-- The slots behind `u`, with the bytes that a block read adds. -/
theorem linked_extend (e : ByteEnd) (h : Linked msgs latest (u :: rest)) :
    Linked msgs (u.latest latest) (u.extend e rest) := by
  cases u with
  | start j m => exact h.2
  | data j m p => exact h.2
  | recv j m p =>
    obtain ⟨⟨hlatest, hget, hrd⟩, hrest⟩ := h
    cases p with
    | succ p => exact hrest
    | zero =>
      simp only [Slot.extend]
      split
      · exact linked_append_recv hlatest hget hrd _ hrest
      · exact hrest

/-- A slot that begins follows the START of its message. -/
theorem framed_enter (h : Linked msgs latest (u :: rest)) {evs : List Event}
    (hevs : Framed msgs (u.latest latest) evs) : Framed msgs latest (u.enter ++ evs) := by
  cases u with
  | start j m => exact ⟨⟨m, h.1, rfl, addrByte_eq m⟩, hevs⟩
  | data j m p => exact ⟨⟨h.1.1, m, h.1.2.1, h.1.2.2, rfl⟩, hevs⟩
  | recv j m p => exact hevs

/-- The end of a slot follows the START of its message. -/
theorem framed_exit (h : Linked msgs latest (u :: rest)) (e : ByteEnd) {evs : List Event}
    (hevs : Framed msgs (u.latest latest) evs) :
    Framed msgs (u.latest latest) (u.exit e ++ evs) := by
  cases u with
  | start j m => exact hevs
  | data j m p => exact hevs
  | recv j m p => exact ⟨⟨h.1.1, m, h.1.2.1, h.1.2.2⟩, hevs⟩

/-- Interrupts behind the STOP belong to no message. -/
theorem framed_spurious (latest : Option Nat) (es : List ByteEnd) :
    Framed msgs latest (.stop :: spurious es) := by
  induction es with
  | nil => trivial
  | cons e es ih => exact ih

/-- Every byte of a played script moves in its own frame. -/
theorem play_framed (h : Linked msgs latest (u :: rest)) (es : List ByteEnd) :
    Framed msgs (u.latest latest) (play u rest es).1 := by
  induction es generalizing u rest latest with
  | nil => trivial
  | cons e es ih =>
    rw [play]
    split
    · split
      · exact framed_exit h e (framed_spurious _ es)
      · next v rest' hnext =>
        have hlinked := linked_extend e h
        rw [hnext] at hlinked
        exact framed_exit h e (framed_enter hlinked (ih hlinked))
    · exact framed_exit h e (framed_spurious _ es)

/-- A framed trace stores nothing in a write buffer. -/
theorem framed_store {trace : List Event} (h : Framed msgs latest trace) {j : Nat} {m : I2cMsg}
    (hget : msgs[j]? = some m) (hwr : m.isRd = false) (ms : List I2cMsg) :
    (trace.foldl store ms)[j]? = ms[j]? := by
  induction trace generalizing latest ms with
  | nil => rfl
  | cons ev evs ih =>
    rw [List.foldl_cons]
    cases ev with
    | start j' stat addr => exact ih h.2 ms
    | data j' p byte => exact ih h.2 ms
    | stop => exact ih h ms
    | byteEnd lastbit => exact ih h ms
    | recv j' p byte =>
      obtain ⟨⟨-, m', hget', hrd⟩, hrest⟩ := h
      rw [ih hrest, store, List.getElem?_modify]
      have hne : j' ≠ j := by
        intro heq
        rw [heq, hget, Option.some.injEq] at hget'
        rw [← hget', hwr] at hrd
        cases hrd
      simp [hne]

/-! ### The end of a script -/

/-- A bound on the interrupts that a slot can lead to. -/
def Slot.weight : Slot → Nat
  | .recv _ _ 0 => 256
  | _ => 1

/-- The slots that a block read adds weigh less than its count byte. -/
theorem weight_extend (u : Slot) (rest : List Slot) (e : ByteEnd) :
    ((u.extend e rest).map Slot.weight).sum < ((u :: rest).map Slot.weight).sum := by
  -- bytes behind the first weigh 1 each
  have hone : ∀ (j : Nat) (m : I2cMsg) (n p : Nat), 0 < p →
      (((List.range' p n).map (Slot.recv j m)).map Slot.weight).sum = n := by
    intro j m n
    induction n with
    | zero => intros; rfl
    | succ n ih =>
      intro p hp
      rw [List.range'_succ, List.map_cons, List.map_cons, List.sum_cons, ih (p + 1) (by omega)]
      obtain ⟨q, rfl⟩ : ∃ q, p = q + 1 := ⟨p - 1, by omega⟩
      simp only [Slot.weight]
      omega
  have hpos : 0 < u.weight := by
    cases u with
    | recv j m p => cases p <;> simp [Slot.weight]
    | start j m => simp [Slot.weight]
    | data j m p => simp [Slot.weight]
  have hbyte := e.iicds.isLt
  rw [List.map_cons, List.sum_cons]
  -- only the first byte of a block can add slots, a byte value of them
  unfold Slot.extend
  split
  · split
    · rw [List.map_append, List.sum_append, hone _ _ _ 1 (by omega)]
      simp only [Slot.weight]
      omega
    · omega
  · omega

/-- As long as no byte is refused, the transfer comes to its end. -/
theorem play_finishes (u : Slot) (rest : List Slot) (e : Nat → ByteEnd)
    (hpass : ∀ n v r, (play u rest (firstIrqs e n)).2 = .waiting v r → v.passes (e n) = true) :
    ∃ n, (play u rest (firstIrqs e n)).2 = .finished := by
  -- on the bytes the script still needs, which each acknowledged byte makes fewer
  induction hweight : ((u :: rest).map Slot.weight).sum using Nat.strongRecOn
    generalizing u rest e with
  | ind weight ih =>
    have hu := hpass 0 u rest rfl
    have hcons : ∀ n, firstIrqs e (n + 1) = e 0 :: firstIrqs (fun i => e (i + 1)) n := by
      intro n
      simp [firstIrqs, List.range_succ_eq_map]
    cases hnext : u.extend (e 0) rest with
    | nil => exact ⟨1, by rw [hcons, play, hu, if_pos rfl, hnext]⟩
    | cons v rest' =>
      have hplay : ∀ n, (play u rest (firstIrqs e (n + 1))).2 =
          (play v rest' (firstIrqs (fun i => e (i + 1)) n)).2 := by
        intro n
        rw [hcons, play, hu, if_pos rfl, hnext]
      have hless := weight_extend u rest (e 0)
      rw [hnext, hweight] at hless
      obtain ⟨n, hn⟩ := ih _ hless v rest' (fun i => e (i + 1))
        (fun n w r hw => hpass (n + 1) w r (by rw [hplay, hw])) rfl
      exact ⟨n + 1, by rw [hplay, hn]⟩

/-- What goes out in two traces. -/
theorem outgoing_append (xs ys : List Event) :
    outgoing (xs ++ ys) = outgoing xs ++ outgoing ys := List.filter_append ..

/-- A slot goes out when it begins. -/
theorem outgoing_enter (u : Slot) : outgoing u.enter = u.enter := by
  cases u <;> rfl

/-- Nothing goes out at its end. -/
theorem outgoing_exit (u : Slot) (e : ByteEnd) : outgoing (u.exit e) = [] := by
  cases u <;> rfl

/-- Nothing goes out behind the STOP. -/
theorem outgoing_spurious (es : List ByteEnd) : outgoing (.stop :: spurious es) = [] := by
  apply List.filter_eq_nil_iff.mpr
  intro ev hev
  rcases List.mem_cons.mp hev with rfl | hev
  · exact nofun
  · obtain ⟨e, -, rfl⟩ := List.mem_map.mp hev
    exact nofun

/-- The bytes that a block read adds are received. -/
theorem enter_extend (e : ByteEnd) :
    (u.extend e rest).flatMap Slot.enter = rest.flatMap Slot.enter := by
  unfold Slot.extend
  split
  · split
    · simp [List.flatMap_map, Slot.enter]
    · rfl
  · rfl

/-- What a finished script sent. -/
theorem outgoing_play {es : List ByteEnd} (h : (play u rest es).2 = .finished) :
    outgoing (u.enter ++ (play u rest es).1) = (u :: rest).flatMap Slot.enter := by
  induction es generalizing u rest with
  | nil => cases h
  | cons e es ih =>
    rw [play] at h ⊢
    rw [List.flatMap_cons, ← enter_extend e, outgoing_append, outgoing_enter]
    split at h
    · next hpass =>
      rw [if_pos hpass]
      cases hnext : u.extend e rest with
      | nil => rw [outgoing_append, outgoing_exit, outgoing_spurious]; rfl
      | cons v rest' =>
        simp only [hnext] at h
        simp only
        rw [outgoing_append, outgoing_exit, ih h]
        rfl
    · cases h

/-! ### STARTs -/

variable {s s' : S3c24xxI2c} {j : Nat} {m : I2cMsg}

/-- An interrupt sends a START only if the driver waits behind it then. -/
theorem irq_sends_start (hnum : msgs.length < 2147483648) (h : PtrInv msgs s) (e : ByteEnd)
    (hrun : s3c24xxI2cIrq s e = .ok s') :
    ∃ evs, s'.trace = s.trace ++ evs ∧ ∀ j stat addr, .start j stat addr ∈ evs →
      s'.state = .start ∧ s'.msgIdx = j := by
  by_cases hstop : s.state = .stop
  · rw [irq_stop hstop, Except.ok.injEq] at hrun
    exact ⟨[.byteEnd (has e.iicstat iicstatLastbit)], by rw [← hrun]; rfl, by simp⟩
  -- the byte that ended is no START, and one step of the machine sends at most one
  · have hnone : ∀ evs, Taken e s evs → ∀ j stat addr, .start j stat addr ∉ evs := by
      intro evs htaken
      cases htaken <;> simp
    cases irq_effect hnum h hstop e hrun with
    | stop evs htaken htrace =>
      refine ⟨evs ++ [.stop], by rw [htrace, List.append_assoc], fun j stat addr hmem => ?_⟩
      exact absurd hmem (by simp [hnone evs htaken j stat addr])
    | data k q byte _ htrace =>
      exact ⟨_, htrace.trans (List.append_assoc ..), by simp⟩
    | start k stat addr _ htrace hstate _ hidx =>
      refine ⟨_, htrace.trans (List.append_assoc ..), fun j stat' addr' hmem => ⟨hstate, ?_⟩⟩
      simp only [List.cons_append, List.nil_append, List.mem_cons, reduceCtorEq,
        Event.start.injEq, List.not_mem_nil, or_false, false_or] at hmem
      rw [hidx, hmem.1]
    | read evs htaken htrace =>
      exact ⟨evs, htrace, fun j stat addr hmem => absurd hmem (hnone evs htaken j stat addr)⟩

/-- What the STARTs of a transfer have in common: only writes stand before their message. -/
structure BehindWrites (msgs : List I2cMsg) (before : List Event) (t : S3c24xxI2c) : Prop where
  inv : PtrInv msgs t
  starts : ∃ trace, t.trace = before ++ trace ∧ ∀ j stat addr, .start j stat addr ∈ trace →
    ∀ w ∈ msgs.take j, w.isRd = false

/-- One interrupt starts a message behind writes only. -/
theorem irq_behindWrites {before : List Event} (hnum : msgs.length < 2147483648)
    (hturns : ¬ TurnsAround msgs) (s : S3c24xxI2c) (e : ByteEnd) (h : BehindWrites msgs before s) :
    ∃ s', s3c24xxI2cIrq s e = .ok s' ∧ BehindWrites msgs before s' := by
  obtain ⟨s', hrun, hinv⟩ := irq_ptrInv hnum hturns s e h.inv
  obtain ⟨trace, htrace, hstarts⟩ := h.starts
  obtain ⟨evs, hevs, hsends⟩ := irq_sends_start hnum h.inv e hrun
  refine ⟨s', hrun, hinv, trace ++ evs, by rw [hevs, htrace, List.append_assoc], ?_⟩
  intro j stat addr hmem
  rcases List.mem_append.mp hmem with hmem | hmem
  · exact hstarts j stat addr hmem
  · -- the invariant of the state behind the START
    obtain ⟨hstate, hidx⟩ := hsends j stat addr hmem
    exact hidx ▸ (hinv.start hstate).2.2

/-- Every message that is started stands behind writes. -/
theorem start_behind_writes (hne : msgs ≠ []) (hnum : msgs.length < 2147483648)
    (hturns : ¬ TurnsAround msgs) (hquirk : has s.quirks quirkPoll = false)
    {irqs : List ByteEnd} {t : S3c24xxI2c} (hrun : transfer .ok msgs s irqs = .ok t)
    {trace : List Event} (htrace : t.trace = s.trace ++ trace) {stat : Reg} {addr : Byte}
    (hmem : .start j stat addr ∈ trace) : ∀ w ∈ msgs.take j, w.isRd = false := by
  obtain ⟨m, ms, rfl⟩ := List.exists_cons_of_ne_nil hne
  have hbegun : BehindWrites (m :: ms) s.trace (begun m ms s) := by
    refine ⟨begun_ptrInv m ms s, (Slot.start 0 m).enter, rfl, ?_⟩
    intro j stat addr h
    rw [Slot.enter, List.mem_singleton, Event.start.injEq] at h
    rw [h.1]
    intro w hw
    cases hw
  obtain ⟨t', hrun', hbehind⟩ := Run.foldlM_total (irq_behindWrites hnum hturns) irqs hbegun
  rw [transfer_eq hquirk, hrun', Except.ok.injEq] at hrun
  obtain ⟨trace', htrace', hstarts⟩ := hbehind.starts
  rw [hrun, htrace, List.append_cancel_left_eq] at htrace'
  exact hstarts j stat addr (htrace' ▸ hmem)

/-! ### Whole transfers -/

/-- A list in which no message follows a read. -/
theorem writesThenRead_of_last (hnostart : ∀ m ∈ msgs, m.isNostart = false)
    (hlast : ∀ (j : Nat) m, msgs[j]? = some m → m.isRd = true → j + 1 = msgs.length) :
    WritesThenRead msgs := by
  induction msgs with
  | nil => trivial
  | cons m ms ih =>
    refine ⟨fun hrd => ⟨?_, hnostart m List.mem_cons_self⟩,
      ih (fun w hw => hnostart w (List.mem_cons_of_mem m hw)) fun j w hget hrd => ?_⟩
    · have hlen := hlast 0 m rfl hrd
      rw [List.length_cons] at hlen
      exact List.length_eq_zero_iff.mp (by omega)
    · have hlen := hlast (j + 1) w hget hrd
      rw [List.length_cons] at hlen
      omega

/-- Without `I2C_M_NOSTART` every message has its START. -/
theorem start_mem_sendsFrom (hnostart : ∀ m ∈ msgs, m.isNostart = false) {k : Nat}
    (hget : msgs[k]? = some m) (j : Nat) :
    .start (j + k) (m.startStat ||| iicstatStart) m.address ∈ sendsFrom j msgs := by
  induction msgs generalizing j k with
  | nil => simp at hget
  | cons w ws ih =>
    rw [sendsFrom, List.mem_append]
    cases k with
    | zero =>
      rw [List.getElem?_cons_zero, Option.some.injEq] at hget
      left
      rw [sends, hget, if_pos (.inr (hnostart m (hget ▸ List.mem_cons_self)))]
      exact List.mem_append_left _ List.mem_cons_self
    | succ k =>
      right
      rw [show j + (k + 1) = j + 1 + k by omega]
      exact ih (fun v hv => hnostart v (List.mem_cons_of_mem w hv)) hget (j + 1)

/-- A list in which only the last message may be a read keeps its messages apart. -/
theorem isolated_of_last {e : Nat → ByteEnd} (hne : msgs ≠ []) (hnum : msgs.length < 2147483648)
    (hquirk : has s.quirks quirkPoll = false) (hnostart : ∀ m ∈ msgs, m.isNostart = false)
    (hlast : ∀ (j : Nat) m, msgs[j]? = some m → m.isRd = true → j + 1 = msgs.length)
    (hacked : Acked msgs s e) : Isolated msgs s e := by
  have hplain := writesThenRead_of_last hnostart hlast
  have hlinked := linked_script hnostart 0 none
  obtain ⟨m, ms, rfl⟩ := List.exists_cons_of_ne_nil hne
  have hscript : script 0 (m :: ms) = .start 0 m :: (bytesFrom 0 m 0 ++ script 1 ms) := rfl
  rw [List.drop_zero, hscript] at hlinked
  -- after `n` interrupts
  have hrun : ∀ n, ∃ t, transfer .ok (m :: ms) s (firstIrqs e n) = .ok t ∧
      t.trace = s.trace ++ (playAll (script 0 (m :: ms)) (firstIrqs e n)).1 ∧
      t.msgs = (playAll (script 0 (m :: ms)) (firstIrqs e n)).1.foldl store (m :: ms) ∧
      Reached (m :: ms).length t (playAll (script 0 (m :: ms)) (firstIrqs e n)).2 := by
    intro n
    obtain ⟨m', ms', t, heq, ht, hrest⟩ := transfer_plays hne hplain hnum s (firstIrqs e n)
    rw [List.cons.injEq] at heq
    rw [← heq.1, ← heq.2] at ht
    exact ⟨t, by rw [transfer_eq hquirk, ht], hrest⟩
  constructor
  · intro n
    obtain ⟨t, ht, htrace, hmsgs, -⟩ := hrun n
    have hframed : Framed (m :: ms) none (playAll (script 0 (m :: ms)) (firstIrqs e n)).1 :=
      framed_enter hlinked (play_framed hlinked _)
    refine ⟨t, _, ht, htrace, hframed, fun j w hget hwr => ?_⟩
    rw [hmsgs, framed_store hframed hget hwr, hget]
  · obtain ⟨n, hn⟩ := play_finishes (.start 0 m) (bytesFrom 0 m 0 ++ script 1 ms) e
      (fun n v r hwait => by
        obtain ⟨t, ht, -, -, hreached⟩ := hrun n
        rw [hscript, playAll, hwait] at hreached
        have hack := hacked n t ht
        cases v with
        | start j w =>
          cases hreached with
          | start _ hstate => simp [Slot.passes, nak, hack (.inl hstate)]
        | data j w p =>
          cases hreached with
          | data _ hstate => simp [Slot.passes, nak, hack (.inr hstate)]
        | recv j w p => rfl)
    obtain ⟨t, ht, htrace, -, hreached⟩ := hrun n
    rw [hscript, playAll] at htrace hreached
    rw [hn] at hreached
    refine ⟨n, t, _, ht, htrace, hreached.state, ?_⟩
    rw [outgoing_play hn, ← hscript, enter_script]

/-- For every list without `I2C_M_NOSTART`: every transfer in which the bytes sent are
    acknowledged keeps the messages apart iff no message follows a read. -/
theorem isolated_iff (msgs : List I2cMsg) (s : S3c24xxI2c) (hne : msgs ≠ [])
    (hnum : msgs.length < 2147483648) (hquirk : has s.quirks quirkPoll = false)
    (hnostart : ∀ m ∈ msgs, m.isNostart = false) :
    (∀ e, Acked msgs s e → Isolated msgs s e) ↔
      ∀ (j : Nat) m, msgs[j]? = some m → m.isRd = true → j + 1 = msgs.length := by
  constructor
  · intro h j m hget hrd
    by_contra hlast
    have hlt := (List.getElem?_eq_some_iff.mp hget).1
    obtain ⟨n, t, trace, hrun, htrace, -, hout⟩ :=
      (h (fun _ => acked) fun _ _ _ _ => lastbit_acked).complete
    have hturns : ¬ TurnsAround msgs := by
      intro hturns
      obtain ⟨r, rm, ht⟩ := hturns
      have hno := ht.nostart
      rw [hnostart rm (List.mem_of_getElem? ht.get)] at hno
      cases hno
    -- the message behind the read has a START in the end, so only writes stand before it
    have hnext : msgs[j + 1]? = some msgs[j + 1] := List.getElem?_eq_getElem (by omega)
    have hmem := start_mem_sendsFrom hnostart hnext 0
    rw [← hout, outgoing, List.mem_filter, Nat.zero_add] at hmem
    have hwrites := start_behind_writes hne hnum hturns hquirk hrun htrace hmem.1
    have hread : m ∈ msgs.take (j + 1) := by
      apply List.mem_of_getElem? (i := j)
      rw [List.getElem?_take_of_lt (Nat.lt_succ_self j), hget]
    rw [hwrites m hread] at hrd
    cases hrd
  · intro hlast e hacked
    exact isolated_of_last hne hnum hquirk hnostart hlast hacked

/-- A write and a read. -/
theorem isolated_iff_write_read :
    (∀ e, Acked [twoBytes, oneByte] (atRest 0) e → Isolated [twoBytes, oneByte] (atRest 0) e) ↔
      ∀ (j : Nat) m, [twoBytes, oneByte][j]? = some m → m.isRd = true →
        j + 1 = [twoBytes, oneByte].length :=
  isolated_iff [twoBytes, oneByte] (atRest 0) (by simp) (by simp) rfl (by decide)

/-- A read followed by a write: the write gets no START, and the byte received next is stored
    in its buffer. -/
theorem isolated_fails_read_write :
    ¬ ∀ msgs : List I2cMsg, msgs ≠ [] → msgs.length < 2147483648 →
      (∀ m ∈ msgs, m.isNostart = false) → ∀ e, Acked msgs (atRest 0) e →
        Isolated msgs (atRest 0) e := by
  intro h
  have hisolated := h [oneByte, twoBytes] (by simp) (by simp) (by decide) (fun _ => acked)
    fun _ _ _ _ => lastbit_acked
  obtain ⟨t, trace, hrun, -, -, hbuf⟩ := hisolated.safe 3
  have hstored : ∃ u, transfer .ok [oneByte, twoBytes] (atRest 0) (firstIrqs (fun _ => acked) 3)
      = .ok u ∧ (u.msgs[1]?).map (fun m => m.buf 0) = some 0 := ⟨_, rfl, rfl⟩
  obtain ⟨u, hu, hzero⟩ := hstored
  rw [hrun, Except.ok.injEq] at hu
  rw [← hu, hbuf 1 twoBytes rfl rfl] at hzero
  exact absurd hzero (by decide)

end S3c24xx
