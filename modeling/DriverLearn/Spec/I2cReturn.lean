import DriverLearn.ForStd.List
import DriverLearn.Spec.I2cBusTrace

/-!
# The return value of a transfer

`msg_idx` is the cursor of the driver, the number of messages done and the error code. For
every sequence of interrupts the value that `s3c24xx_i2c_doxfer` takes from it is right:
the number of messages if all of them were completed, a negative code if a missing
acknowledge ended the transfer, and else the number of messages completed so far. What
comes behind the STOP or behind `STATE_IDLE` changes nothing. Between the timeout and
`STATE_IDLE` the interrupt is still enabled and the state machine still runs: an interrupt
there can put another byte on the bus.

## Key results

- `playAll_played`: the shapes a played script can have
- `played_truthful`: what the driver says of a played script
- `doxfer_truthful`: the return value, whatever interrupts come
-/

namespace S3c24xx

open Word

/-! ### Completed messages -/

/-- The byte of the event `ev` was put on the bus and its acknowledge came, or is ignored. -/
def Passed (m : I2cMsg) (ev : Event) (trace : List Event) : Prop :=
  ∃ pre lastbit post, trace = pre ++ ev :: .byteEnd lastbit :: post ∧
    (lastbit = false ∨ m.isIgnoreNak = true)

/-- Message `j` was completed: its address byte, if it gets a START, and every byte of a
    write passed, every byte of a read was stored. -/
structure Completed (j : Nat) (m : I2cMsg) (trace : List Event) : Prop where
  start : j = 0 ∨ m.isNostart = false →
    Passed m (.start j (m.startStat ||| iicstatStart) m.address) trace
  write : m.isRd = false → ∀ p < m.len.toNat, Passed m (.data j p (m.buf p)) trace
  read : m.isRd = true → ∀ p < m.len.toNat, ∃ byte, .recv j p byte ∈ trace

/-- The message of an event. -/
def Event.msg : Event → Option Nat
  | .start j _ _ => some j
  | .data j _ _ => some j
  | .recv j _ _ => some j
  | _ => none

/-- A missing acknowledge that message `j` does not ignore is followed by the STOP. -/
def NakEnded (msgs : List I2cMsg) (trace : List Event) : Prop :=
  ∃ j m ev pre post, msgs[j]? = some m ∧ m.isIgnoreNak = false ∧ Event.msg ev = some j ∧
    trace = pre ++ ev :: .byteEnd true :: .stop :: post

/-- What `s3c24xx_i2c_doxfer` should return for a transfer with this trace. -/
structure Truthful (msgs : List I2cMsg) (trace : List Event) (ret : Int) : Prop where
  all : ret = msgs.length ↔ ∀ j m, msgs[j]? = some m → Completed j m trace
  refused : ret < 0 ↔ NakEnded msgs trace
  part : ret ≠ msgs.length → 0 ≤ ret → ∃ k : Nat, ret = k ∧ k < msgs.length ∧
    (∀ j m, msgs[j]? = some m → j < k → Completed j m trace) ∧
    (∀ m, msgs[k]? = some m → ¬ Completed k m trace) ∧
    ∀ ev ∈ trace, ∀ j, Event.msg ev = some j → j ≤ k

/-! ### The shapes of a played script -/

/-- Each slot passes at its interrupt. -/
def AllPass : List Slot → List ByteEnd → Prop
  | [], [] => True
  | u :: us, e :: es => u.passes e = true ∧ AllPass us es
  | _, _ => False

/-- A played script: waiting for an interrupt, refused, or finished. -/
inductive Played (slots : List Slot) (irqs : List ByteEnd) : List Event × Outcome → Prop where
  | waiting (passed : List Slot) (u : Slot) (rest : List Slot) (split : slots = passed ++ u :: rest)
      (pass : AllPass passed irqs) :
      Played slots irqs (blocks passed irqs ++ u.enter, .waiting u rest)
  | refused (passed : List Slot) (u : Slot) (rest : List Slot) (pre : List ByteEnd) (e : ByteEnd)
      (post : List ByteEnd) (split : slots = passed ++ u :: rest)
      (irqs_eq : irqs = pre ++ e :: post)
      (pass : AllPass passed pre) (fail : u.passes e = false) :
      Played slots irqs
        (blocks passed pre ++ (u.enter ++ (u.exit e ++ .stop :: spurious post)), .refused u)
  | finished (pre post : List ByteEnd) (irqs_eq : irqs = pre ++ post) (pass : AllPass slots pre) :
      Played slots irqs (blocks slots pre ++ .stop :: spurious post, .finished)

/-- One more slot that passes. -/
theorem Played.cons {u : Slot} {slots : List Slot} {e : ByteEnd} {es : List ByteEnd}
    {r : List Event × Outcome} (hpass : u.passes e = true) (h : Played slots es r) :
    Played (u :: slots) (e :: es) (u.enter ++ (u.exit e ++ r.1), r.2) := by
  cases h with
  | waiting passed v rest hsplit hall =>
    have hnext : Played (u :: slots) (e :: es) _ :=
      .waiting (u :: passed) v rest (by rw [hsplit]; rfl) ⟨hpass, hall⟩
    simpa only [blocks, List.append_assoc] using hnext
  | refused passed v rest pre e' post hsplit hirqs hall hfail =>
    have hnext : Played (u :: slots) (e :: es) _ :=
      .refused (u :: passed) v rest (e :: pre) e' post (by rw [hsplit]; rfl)
        (by rw [hirqs]; rfl) ⟨hpass, hall⟩ hfail
    simpa only [blocks, List.append_assoc] using hnext
  | finished pre post hirqs hall =>
    have hnext : Played (u :: slots) (e :: es) _ :=
      .finished (e :: pre) post (by rw [hirqs]; rfl) ⟨hpass, hall⟩
    simpa only [blocks, List.append_assoc] using hnext

theorem playAll_played {slots : List Slot} (hne : slots ≠ []) (hfixed : ∀ v ∈ slots, v.Fixed)
    (irqs : List ByteEnd) : Played slots irqs (playAll slots irqs) := by
  -- on the interrupts: each one passes the first slot, is refused there, or ends the script
  induction irqs generalizing slots with
  | nil =>
    obtain ⟨u, rest, rfl⟩ := List.exists_cons_of_ne_nil hne
    have hwait : Played (u :: rest) [] _ := .waiting [] u rest rfl trivial
    simpa only [playAll, play, blocks, List.append_nil, List.nil_append] using hwait
  | cons e es ih =>
    obtain ⟨u, rest, rfl⟩ := List.exists_cons_of_ne_nil hne
    rw [playAll, play]
    cases hpass : u.passes e with
    | false => exact .refused [] u rest [] e es rfl rfl trivial hpass
    | true =>
      rw [if_pos rfl, hfixed u (by simp)]
      cases rest with
      | nil =>
        have hfin : Played [u] (e :: es) _ := .finished [e] es rfl ⟨hpass, trivial⟩
        simpa only [blocks, List.append_nil, List.append_assoc] using hfin
      | cons v rest =>
        have hrest := ih (List.cons_ne_nil v rest)
          fun w hw => hfixed w (List.mem_cons_of_mem u hw)
        exact hrest.cons hpass

/-! ### Slots and their events -/

/-- The message of a slot as the caller passed it. -/
def Slot.message : Slot → I2cMsg
  | .start _ m => m
  | .data _ m _ => m
  | .recv _ m _ => m

/-- Where a slot stands in its script: the message, and the byte behind the address byte. -/
def Slot.key : Slot → Nat × Nat
  | .start j _ => (j, 0)
  | .data j _ p => (j, p + 1)
  | .recv j _ p => (j, p + 1)

def Event.key : Event → Option (Nat × Nat)
  | .start j _ _ => some (j, 0)
  | .data j p _ => some (j, p + 1)
  | .recv j p _ => some (j, p + 1)
  | _ => none

theorem Event.msg_eq_key (ev : Event) : ev.msg = ev.key.map Prod.fst := by
  cases ev <;> rfl

theorem Slot.key_fst (u : Slot) : u.key.1 = u.msgIdx := by
  cases u <;> rfl

theorem key_enter {u : Slot} {ev : Event} (h : ev ∈ u.enter) : ev.key = some u.key := by
  cases u with
  | start j m => rw [List.mem_singleton.mp h]; rfl
  | data j m p => rw [List.mem_singleton.mp h]; rfl
  | recv j m p => cases h

theorem key_exit {u : Slot} {e : ByteEnd} {ev : Event} (h : ev ∈ u.exit e) :
    ev.key = none ∨ ev.key = some u.key := by
  cases u with
  | start j m => rw [List.mem_singleton.mp h]; exact .inl rfl
  | data j m p => rw [List.mem_singleton.mp h]; exact .inl rfl
  | recv j m p =>
    rcases List.mem_cons.mp h with h | h
    · rw [h]; exact .inl rfl
    · rw [List.mem_singleton.mp h]; exact .inr rfl

/-- Every event of a block belongs to its slot. -/
theorem key_blocks {us : List Slot} {es : List ByteEnd} {ev : Event} (h : ev ∈ blocks us es) :
    ev.key = none ∨ ∃ u ∈ us, ev.key = some u.key := by
  induction us generalizing es with
  | nil => cases h
  | cons u us ih =>
    cases es with
    | nil => cases h
    | cons e es =>
      rw [blocks, List.mem_append, List.mem_append] at h
      rcases h with h | h | h
      · exact .inr ⟨u, List.mem_cons_self, key_enter h⟩
      · exact (key_exit h).imp_right fun hkey => ⟨u, List.mem_cons_self, hkey⟩
      · apply (ih h).imp_right
        intro hv
        obtain ⟨v, hv, hkey⟩ := hv
        exact ⟨v, List.mem_cons_of_mem u hv, hkey⟩

theorem key_spurious {es : List ByteEnd} {ev : Event} (h : ev ∈ .stop :: spurious es) :
    ev.key = none := by
  rcases List.mem_cons.mp h with h | h
  · rw [h]; rfl
  · obtain ⟨e, -, rfl⟩ := List.mem_map.mp h
    rfl

theorem stop_not_mem_blocks (us : List Slot) (es : List ByteEnd) : .stop ∉ blocks us es := by
  induction us generalizing es with
  | nil => exact nofun
  | cons u us ih =>
    cases es with
    | nil => exact nofun
    | cons e es =>
      intro h
      rw [blocks, List.mem_append, List.mem_append] at h
      rcases h with h | h | h
      · cases u <;> simp [Slot.enter] at h
      · cases u <;> simp [Slot.exit] at h
      · exact ih es h

theorem AllPass.length {us : List Slot} {es : List ByteEnd} (h : AllPass us es) :
    us.length = es.length := by
  induction us generalizing es with
  | nil =>
    cases es with
    | nil => rfl
    | cons e es => exact h.elim
  | cons u us ih =>
    cases es with
    | nil => exact h.elim
    | cons e es => rw [List.length_cons, ih h.2, List.length_cons]

/-- The last slot passed too. -/
theorem AllPass.concat {us : List Slot} {es : List ByteEnd} {u : Slot} {e : ByteEnd}
    (h : AllPass (us ++ [u]) (es ++ [e])) : u.passes e = true ∧ us.length = es.length := by
  induction us generalizing es with
  | nil =>
    cases es with
    | nil => exact ⟨h.1, rfl⟩
    | cons e' es => exact absurd h.length (by simp)
  | cons v us ih =>
    cases es with
    | nil => exact absurd h.length (by simp)
    | cons e' es =>
      obtain ⟨hpass, hlen⟩ := ih h.2
      exact ⟨hpass, by rw [List.length_cons, hlen, List.length_cons]⟩

/-- A slot that passed, in the middle of the others. -/
theorem AllPass.split {us : List Slot} {es : List ByteEnd} (h : AllPass us es) {u : Slot}
    (hu : u ∈ us) : ∃ pre e post, u.passes e = true ∧
      blocks us es = pre ++ (u.enter ++ (u.exit e ++ post)) := by
  induction us generalizing es with
  | nil => cases hu
  | cons v us ih =>
    cases es with
    | nil => exact h.elim
    | cons e es =>
      rcases List.mem_cons.mp hu with rfl | hu
      · exact ⟨[], e, blocks us es, h.1, rfl⟩
      · obtain ⟨pre, e', post, hpass, hblocks⟩ := ih h.2 hu
        refine ⟨v.enter ++ (v.exit e ++ pre), e', post, hpass, ?_⟩
        rw [blocks, hblocks]
        simp only [List.append_assoc]

/-! ### The slots of a message -/

/-- The slots of message `m` with index `j`. -/
def Slot.Of (j : Nat) (m : I2cMsg) : Slot → Prop
  | .start j' m' => j' = j ∧ m' = m ∧ (j = 0 ∨ m.isNostart = false)
  | .data j' m' p => j' = j ∧ m' = m ∧ m.isRd = false ∧ p < m.len.toNat
  | .recv j' m' p => j' = j ∧ m' = m ∧ m.isRd = true ∧ p < m.len.toNat

theorem mem_slots {j : Nat} {m : I2cMsg} {u : Slot} :
    u ∈ opening j m ++ bytesFrom j m 0 ↔ u.Of j m := by
  rw [List.mem_append, opening, bytesFrom, Nat.sub_zero]
  cases hrd : m.isRd <;> cases u <;> simp [Slot.Of, hrd] <;> grind

theorem mem_script {j : Nat} {msgs : List I2cMsg} {u : Slot} :
    u ∈ script j msgs ↔ ∃ i m, msgs[i]? = some m ∧ u.Of (j + i) m := by
  induction msgs generalizing j with
  | nil => simp [script]
  | cons m ms ih =>
    rw [script, ← List.append_assoc, List.mem_append, mem_slots, ih]
    constructor
    · intro h
      rcases h with h | ⟨i, m', hget, h⟩
      · exact ⟨0, m, rfl, h⟩
      · exact ⟨i + 1, m', hget, by rwa [show j + (i + 1) = j + 1 + i by omega]⟩
    · intro h
      obtain ⟨i, m', hget, h⟩ := h
      cases i with
      | zero =>
        rw [List.getElem?_cons_zero, Option.some.injEq] at hget
        exact .inl (hget ▸ h)
      | succ i =>
        exact .inr ⟨i, m', hget, by rwa [show j + 1 + i = j + (i + 1) by omega]⟩

theorem Slot.Of.eq {j : Nat} {m : I2cMsg} {u : Slot} (h : u.Of j m) :
    u.msgIdx = j ∧ u.message = m := by
  cases u with
  | start j' m' => exact ⟨h.1, h.2.1⟩
  | data j' m' p => exact ⟨h.1, h.2.1⟩
  | recv j' m' p => exact ⟨h.1, h.2.1⟩

/-- The order of the slots in a script. -/
def Slot.Before (u v : Slot) : Prop :=
  u.key.1 < v.key.1 ∨ u.key.1 = v.key.1 ∧ u.key.2 < v.key.2

theorem script_pairwise (j : Nat) (msgs : List I2cMsg) :
    (script j msgs).Pairwise Slot.Before := by
  induction msgs generalizing j with
  | nil => exact .nil
  | cons m ms ih =>
    rw [script, ← List.append_assoc, List.pairwise_append, List.pairwise_append]
    refine ⟨⟨?_, ?_, ?_⟩, ih (j + 1), ?_⟩
    -- the START of the message, at most one
    · rw [opening]
      split
      · exact List.pairwise_singleton _ _
      · exact .nil
    -- its bytes, by position
    · rw [bytesFrom, List.pairwise_map]
      apply (List.pairwise_lt_range' 1).imp
      intro a b hlt
      cases m.isRd <;> exact .inr ⟨rfl, Nat.succ_lt_succ hlt⟩
    -- the START comes before them
    · intro u hu v hv
      rw [opening] at hu
      split at hu
      · rw [List.mem_singleton.mp hu]
        obtain ⟨p, -, rfl⟩ := List.mem_map.mp hv
        cases m.isRd <;> exact .inr ⟨rfl, Nat.succ_pos p⟩
      · cases hu
    -- all of them come before the later messages
    · intro u hu v hv
      obtain ⟨i, m', -, hv⟩ := mem_script.mp hv
      left
      rw [Slot.key_fst, Slot.key_fst, (mem_slots.mp hu).eq.1, hv.eq.1]
      omega

/-- The slots before `u` in a script are those of the earlier messages and the earlier ones
    of its own. -/
theorem script_split {msgs : List I2cMsg} {passed rest : List Slot} {u : Slot}
    (h : script 0 msgs = passed ++ u :: rest) :
    (∀ v ∈ passed, v.Before u) ∧ ∀ v ∈ rest, u.Before v := by
  have hpair := script_pairwise 0 msgs
  rw [h, List.pairwise_append, List.pairwise_cons] at hpair
  exact ⟨fun v hv => hpair.2.2 v hv u List.mem_cons_self, hpair.2.1.1⟩

/-! ### What a played script says of its messages -/

variable {msgs : List I2cMsg} {passed rest us : List Slot} {pre es : List ByteEnd} {u : Slot}

/-- A message is completed when its slots have passed. -/
theorem completed_of_passed {j : Nat} {m : I2cMsg} (hpass : AllPass us es)
    (hall : ∀ u : Slot, u.Of j m → u ∈ us) (tail : List Event) :
    Completed j m (blocks us es ++ tail) where
  start := by
    intro hstart
    obtain ⟨pre, e, post, hpasses, hblocks⟩ := hpass.split (hall (.start j m) ⟨rfl, rfl, hstart⟩)
    refine ⟨pre, has e.iicstat iicstatLastbit, post ++ tail, ?_, ?_⟩
    · rw [hblocks, ← addrByte_eq]
      simp [Slot.enter, Slot.exit]
    · simpa [Slot.passes, nak] using hpasses
  write := by
    intro hwr p hp
    obtain ⟨pre, e, post, hpasses, hblocks⟩ := hpass.split (hall (.data j m p) ⟨rfl, rfl, hwr, hp⟩)
    refine ⟨pre, has e.iicstat iicstatLastbit, post ++ tail, ?_, ?_⟩
    · rw [hblocks]
      simp [Slot.enter, Slot.exit]
    · simpa [Slot.passes, nak] using hpasses
  read := by
    intro hrd p hp
    obtain ⟨pre, e, post, -, hblocks⟩ := hpass.split (hall (.recv j m p) ⟨rfl, rfl, hrd, hp⟩)
    refine ⟨e.iicds, ?_⟩
    rw [hblocks]
    simp [Slot.exit]

/-- No event of a slot is in the blocks of the slots before it. -/
theorem not_mem_blocks (hbefore : ∀ v ∈ passed, v.Before u) {ev : Event}
    (hev : ev.key = some u.key) : ev ∉ blocks passed pre := by
  intro h
  rcases key_blocks h with hkey | ⟨v, hv, hkey⟩
  · rw [hkey] at hev
    cases hev
  · rw [hkey, Option.some.injEq] at hev
    have hlt := hbefore v hv
    rw [Slot.Before, hev] at hlt
    omega

/-- What is in flight, or was refused, is not completed. -/
theorem not_completed {j : Nat} {m : I2cMsg} (hof : u.Of j m) (hbefore : ∀ v ∈ passed, v.Before u)
    {tail : List Event} (htail : ∀ ev ∈ tail, ev.key = none)
    (hfail : ∀ lastbit post, tail = .byteEnd lastbit :: post →
      lastbit = true ∧ m.isIgnoreNak = false) :
    ¬ Completed j m (blocks passed pre ++ (u.enter ++ tail)) := by
  -- the event of the slot stands behind the blocks, and not before a good acknowledge
  have hsent : ∀ ev, u.enter = [ev] → ¬ Passed m ev (blocks passed pre ++ (u.enter ++ tail)) := by
    intro ev hev hpassed
    obtain ⟨before, lastbit, post, heq, hgood⟩ := hpassed
    have hkey : ev.key = some u.key := key_enter (by rw [hev]; exact List.mem_cons_self)
    rw [hev] at heq
    obtain ⟨before', -, heq⟩ :=
      List.append_eq_append_cons_of_not_mem (not_mem_blocks hbefore hkey) heq
    cases before' with
    | nil =>
      have htl : tail = .byteEnd lastbit :: post := by simpa using heq
      obtain ⟨hbit, hm⟩ := hfail lastbit post htl
      rw [hbit, hm] at hgood
      exact absurd hgood (by decide)
    | cons x before' =>
      have htl : tail = before' ++ ev :: .byteEnd lastbit :: post := by
        rw [List.singleton_append, List.cons_append, List.cons.injEq] at heq
        exact heq.2
      have hnone := htail ev (by rw [htl]; simp)
      rw [hnone] at hkey
      cases hkey
  intro hcompleted
  cases u with
  | start j' m' =>
    obtain ⟨rfl, rfl, hstart⟩ := hof
    apply hsent _ rfl
    rw [addrByte_eq]
    exact hcompleted.start hstart
  | data j' m' p =>
    obtain ⟨rfl, rfl, hwr, hp⟩ := hof
    exact hsent _ rfl (hcompleted.write hwr p hp)
  | recv j' m' p =>
    obtain ⟨rfl, rfl, hrd, hp⟩ := hof
    obtain ⟨byte, hmem⟩ := hcompleted.read hrd p hp
    rcases List.mem_append.mp hmem with hmem | hmem
    · exact not_mem_blocks hbefore rfl hmem
    · cases htail _ hmem

/-- A transfer cut at slot `u`: the messages before are completed, the message of `u` is not,
    and the later ones have not begun. -/
theorem cut_at_slot (hsplit : script 0 msgs = passed ++ u :: rest) (hpass : AllPass passed pre)
    (tail : List Event) (htail : ∀ ev ∈ tail, ev.key = none)
    (hfail : ∀ lastbit post, tail = .byteEnd lastbit :: post →
      lastbit = true ∧ u.message.isIgnoreNak = false) :
    ∃ m, msgs[u.msgIdx]? = some m ∧ u.message = m ∧
      (∀ j m, msgs[j]? = some m → j < u.msgIdx →
        Completed j m (blocks passed pre ++ (u.enter ++ tail))) ∧
      ¬ Completed u.msgIdx m (blocks passed pre ++ (u.enter ++ tail)) ∧
      ∀ ev ∈ blocks passed pre ++ (u.enter ++ tail), ∀ j, Event.msg ev = some j →
        j ≤ u.msgIdx := by
  obtain ⟨hbefore, hafter⟩ := script_split hsplit
  have hu : u ∈ script 0 msgs := by
    rw [hsplit]
    exact List.mem_append_right _ List.mem_cons_self
  obtain ⟨i, m, hget, hof⟩ := mem_script.mp hu
  rw [Nat.zero_add] at hof
  obtain ⟨hidx, hmsg⟩ := hof.eq
  refine ⟨m, by rw [hidx, hget], hmsg, ?_, ?_, ?_⟩
  · intro j mj hgetj hj
    refine completed_of_passed hpass (fun v hv => ?_) _
    have hmem : v ∈ passed ++ u :: rest := by
      rw [← hsplit]
      exact mem_script.mpr ⟨j, mj, hgetj, by rwa [Nat.zero_add]⟩
    have hvidx := hv.eq.1
    -- a slot of an earlier message is not `u`, and not behind it
    rcases List.mem_append.mp hmem with hmem | hmem
    · exact hmem
    · rcases List.mem_cons.mp hmem with rfl | hmem
      · omega
      · have hlater := hafter v hmem
        rw [Slot.Before, Slot.key_fst, Slot.key_fst] at hlater
        omega
  · rw [hidx]
    exact not_completed hof hbefore htail fun lastbit post h => hmsg ▸ hfail lastbit post h
  · intro ev hev j hj
    rw [Event.msg_eq_key] at hj
    rcases List.mem_append.mp hev with hev | hev
    · rcases key_blocks hev with hkey | ⟨v, hv, hkey⟩
      · rw [hkey] at hj
        cases hj
      · have hlt := hbefore v hv
        rw [hkey, Option.map_some, Option.some.injEq] at hj
        rw [Slot.Before, Slot.key_fst, Slot.key_fst] at hlt
        rw [Slot.key_fst] at hj
        omega
    · rcases List.mem_append.mp hev with hev | hev
      · rw [key_enter hev, Option.map_some, Option.some.injEq, Slot.key_fst] at hj
        omega
      · rw [htail ev hev] at hj
        cases hj

/-- The last byte before the STOP of a finished transfer was acknowledged, or its
    acknowledge is ignored. -/
theorem not_nakEnded_finished (hpass : AllPass (script 0 msgs) pre)
    (post : List ByteEnd) :
    ¬ NakEnded msgs (blocks (script 0 msgs) pre ++ .stop :: spurious post) := by
  intro h
  obtain ⟨j, m, ev, before, after, hget, hm, hev, heq⟩ := h
  have hstop : Event.stop ∉ spurious post := by simp [spurious]
  have hcut : blocks (script 0 msgs) pre = before ++ [ev, .byteEnd true] := by
    have hassoc : blocks (script 0 msgs) pre ++ .stop :: spurious post =
        (before ++ [ev, .byteEnd true]) ++ .stop :: after := by simpa using heq
    obtain ⟨us', hus, hys⟩ :=
      List.append_eq_append_cons_of_not_mem (stop_not_mem_blocks _ _) hassoc
    cases us' with
    | nil => simpa using hus.symm
    | cons x us' =>
      rw [List.cons_append, List.cons.injEq] at hys
      exact absurd (by rw [hys.2]; simp) hstop
  -- the slot of that byte
  have hlast : ∃ v ∈ script 0 msgs, ev.key = some v.key ∧ v.message.isIgnoreNak = true := by
    have hlen := hpass.length
    rcases List.eq_nil_or_concat (script 0 msgs) with hnil | ⟨us, v, hus⟩
    · rw [hnil] at hcut
      simp [blocks] at hcut
    · rcases List.eq_nil_or_concat pre with hnil | ⟨es, e, hes⟩
      · rw [hus, hnil] at hlen
        simp at hlen
      · rw [List.concat_eq_append] at hus hes
        rw [hus, hes] at hpass hcut
        obtain ⟨hv, hlen⟩ := hpass.concat
        rw [blocks_append _ _ _ _ hlen] at hcut
        refine ⟨v, by rw [hus]; simp, ?_⟩
        cases v with
        | recv j m p =>
          have htail := List.append_inj_right' hcut rfl
          simp [blocks, Slot.enter, Slot.exit] at htail
        | start j m =>
          have htail := List.append_inj_right' hcut rfl
          simp only [Slot.enter, Slot.exit, blocks, List.append_nil, List.singleton_append,
            List.cons.injEq, Event.byteEnd.injEq, and_true] at htail
          refine ⟨by rw [← htail.1]; rfl, ?_⟩
          simpa [Slot.passes, nak, htail.2, Slot.message] using hv
        | data j m p =>
          have htail := List.append_inj_right' hcut rfl
          simp only [Slot.enter, Slot.exit, blocks, List.append_nil, List.singleton_append,
            List.cons.injEq, Event.byteEnd.injEq, and_true] at htail
          refine ⟨by rw [← htail.1]; rfl, ?_⟩
          simpa [Slot.passes, nak, htail.2, Slot.message] using hv
  obtain ⟨v, hv, hkey, hignore⟩ := hlast
  obtain ⟨i, mi, hgeti, hof⟩ := mem_script.mp hv
  rw [Nat.zero_add] at hof
  rw [Event.msg_eq_key, hkey, Option.map_some, Option.some.injEq, Slot.key_fst, hof.eq.1] at hev
  rw [hev, hget, Option.some.injEq] at hgeti
  rw [hof.eq.2, ← hgeti, hm] at hignore
  cases hignore

/-- The return value for an outcome of `num` messages. -/
def Outcome.ret (num : Nat) : Outcome → Int
  | .waiting u _ => u.msgIdx
  | .finished => num
  | .refused u => u.refusal

theorem Slot.refusal_neg (u : Slot) : u.refusal < 0 := by
  cases u
  · exact (by decide : eNxio < 0)
  · exact (by decide : eConnrefused < 0)
  · exact (by decide : eConnrefused < 0)

/-- Cut off by the timeout: the message of the slot in flight is not complete. -/
theorem waiting_truthful (hsplit : script 0 msgs = passed ++ u :: rest)
    (hpass : AllPass passed es) :
    Truthful msgs (blocks passed es ++ u.enter) ((Outcome.waiting u rest).ret msgs.length) := by
  obtain ⟨m, hget, hmsg, hdone, hnot, hlate⟩ := cut_at_slot hsplit hpass [] (by simp) (by simp)
  rw [List.append_nil] at hdone hnot hlate
  have hlt := (List.getElem?_eq_some_iff.mp hget).1
  have hstop : Event.stop ∉ blocks passed es ++ u.enter := by
    rw [List.mem_append]
    refine not_or.mpr ⟨stop_not_mem_blocks _ _, ?_⟩
    cases u <;> simp [Slot.enter]
  refine ⟨⟨fun hret => ?_, fun hall => absurd (hall _ m hget) hnot⟩, ⟨fun hret => ?_, fun h => ?_⟩,
    fun _ _ => ⟨u.msgIdx, rfl, hlt, hdone, fun m' hm' => ?_, hlate⟩⟩
  · simp only [Outcome.ret] at hret
    omega
  · simp only [Outcome.ret] at hret
    omega
  · obtain ⟨j, m', ev, before, after, -, -, -, heq⟩ := h
    rw [show blocks passed es ++ u.enter = _ from heq] at hstop
    simp at hstop
  · rw [hget, Option.some.injEq] at hm'
    exact hm' ▸ hnot

/-- A slot that does not pass shows its byte without acknowledge. -/
theorem Slot.exit_of_fail {e : ByteEnd} (hfail : u.passes e = false) :
    u.exit e = [.byteEnd true] ∧ u.message.isIgnoreNak = false ∧ ∃ ev, u.enter = [ev] := by
  cases u with
  | start j m =>
    simp only [Slot.passes, nak, Bool.not_eq_eq_eq_not, Bool.not_false, Bool.and_eq_true] at hfail
    have hignore : m.isIgnoreNak = false := by simpa using hfail.2
    exact ⟨by rw [Slot.exit, hfail.1]; simp, hignore, _, rfl⟩
  | data j m p =>
    simp only [Slot.passes, nak, Bool.not_eq_eq_eq_not, Bool.not_false, Bool.and_eq_true] at hfail
    have hignore : m.isIgnoreNak = false := by simpa using hfail.2
    exact ⟨by rw [Slot.exit, hfail.1]; simp, hignore, _, rfl⟩
  | recv j m p => cases hfail

/-- Refused: the message of the slot is not complete, and the byte without acknowledge stands
    in front of the STOP. -/
theorem refused_truthful {e : ByteEnd} {post : List ByteEnd}
    (hsplit : script 0 msgs = passed ++ u :: rest) (hpass : AllPass passed pre)
    (hfail : u.passes e = false) :
    Truthful msgs (blocks passed pre ++ (u.enter ++ (u.exit e ++ .stop :: spurious post)))
      ((Outcome.refused u).ret msgs.length) := by
  obtain ⟨hexit, hignore, ev, henter⟩ := Slot.exit_of_fail hfail
  obtain ⟨m, hget, hmsg, hdone, hnot, hlate⟩ := cut_at_slot hsplit hpass
    (u.exit e ++ .stop :: spurious post)
    (fun ev hev => by
      rw [hexit] at hev
      rcases List.mem_cons.mp hev with hev | hev
      · rw [hev]; rfl
      · exact key_spurious hev)
    (fun lastbit post' heq => by
      rw [hexit, List.singleton_append, List.cons.injEq, Event.byteEnd.injEq] at heq
      exact ⟨heq.1.symm, hignore⟩)
  -- the return value is negative, so the byte without acknowledge has to be shown
  have hneg := u.refusal_neg
  refine ⟨⟨fun hret => ?_, fun hall => absurd (hall _ m hget) hnot⟩, ⟨fun _ => ?_, fun _ => hneg⟩,
    fun _ hpos => ?_⟩
  · simp only [Outcome.ret] at hret
    omega
  · refine ⟨u.msgIdx, m, ev, blocks passed pre, spurious post, hget, ?_, ?_, ?_⟩
    · rw [← hmsg, hignore]
    · rw [Event.msg_eq_key, key_enter (u := u) (by rw [henter]; exact List.mem_cons_self),
        Option.map_some, Slot.key_fst]
    · rw [hexit, henter]
      rfl
  · simp only [Outcome.ret] at hpos
    omega

/-- Played to the end: every message is complete. -/
theorem finished_truthful (hpass : AllPass (script 0 msgs) pre) (post : List ByteEnd) :
    Truthful msgs (blocks (script 0 msgs) pre ++ .stop :: spurious post)
      (Outcome.finished.ret msgs.length) := by
  refine ⟨⟨fun _ j m hget => ?_, fun _ => rfl⟩, ⟨fun hret => ?_, fun h => ?_⟩, fun hne => ?_⟩
  · exact completed_of_passed hpass
      (fun u hu => mem_script.mpr ⟨j, m, hget, by rwa [Nat.zero_add]⟩) _
  · simp only [Outcome.ret] at hret
    omega
  · exact absurd h (not_nakEnded_finished hpass post)
  · exact absurd rfl hne

/-- What the driver says of a played script is the truth. -/
theorem played_truthful {irqs : List ByteEnd} {r : List Event × Outcome}
    (h : Played (script 0 msgs) irqs r) : Truthful msgs r.1 (r.2.ret msgs.length) := by
  cases h with
  | waiting passed u rest hsplit hpass => exact waiting_truthful hsplit hpass
  | refused passed u rest pre e post hsplit hirqs hpass hfail =>
    exact refused_truthful hsplit hpass hfail
  | finished pre post hirqs hpass => exact finished_truthful hpass post

/-! ### Whole transfers -/

theorem script_fixed (hblock : ∀ m ∈ msgs, m.isRd = true → m.isRecvLen = false) :
    ∀ v ∈ script 0 msgs, v.Fixed := by
  intro v hv
  obtain ⟨i, m, hget, hof⟩ := mem_script.mp hv
  cases v with
  | start j m' => exact fun _ _ => rfl
  | data j m' p => exact fun _ _ => rfl
  | recv j m' p =>
    obtain ⟨-, rfl, hrd, -⟩ := hof
    exact recv_fixed j p (hblock m' (List.mem_of_getElem? hget) hrd)

theorem script_ne_nil (hne : msgs ≠ []) : script 0 msgs ≠ [] := by
  obtain ⟨m, ms, rfl⟩ := List.exists_cons_of_ne_nil hne
  simp [script, opening]

/-- The state that an outcome leaves says what the outcome returns. -/
theorem reached_ret {num : Nat} {t : S3c24xxI2c} {o : Outcome} (h : Reached num t o) :
    toS32 t.msgIdx = o.ret num := by
  cases o with
  | waiting u rest =>
    cases h with
    | start hat => rw [hat.idx, toS32_of_lt (by have := hat.lt; have := hat.bound; omega)]; rfl
    | data hat => rw [hat.idx, toS32_of_lt (by have := hat.lt; have := hat.bound; omega)]; rfl
    | recv hat => rw [hat.idx, toS32_of_lt (by have := hat.lt; have := hat.bound; omega)]; rfl
  | finished => exact h.idx
  | refused u => exact h.idx

/-- A transfer that is over stays so, whatever interrupts come. -/
theorem run_over {num : Nat} {t : S3c24xxI2c} {o : Outcome} (h : Reached num t o)
    (hover : t.msgNum = 0) (late : List ByteEnd) :
    ∃ v, late.foldlM s3c24xxI2cIrq t = .ok v ∧ After t v (spurious late) := by
  have hended : ∃ ret, Ended t ret := by
    cases o with
    | waiting u rest =>
      cases h with
      | start hat => exact absurd hat.lt (by rw [← hat.num, hover]; omega)
      | data hat => exact absurd hat.lt (by rw [← hat.num, hover]; omega)
      | recv hat => exact absurd hat.lt (by rw [← hat.num, hover]; omega)
    | finished => exact ⟨_, h⟩
    | refused u => exact ⟨_, h⟩
  obtain ⟨ret, hended⟩ := hended
  obtain ⟨v, hv, -, hafter⟩ := run_ended hended late
  exact ⟨v, hv, hafter⟩

/-- Between transfers an interrupt is only acknowledged. -/
theorem run_idle {t : S3c24xxI2c} (h : t.state = .idle) (irqs : List ByteEnd) :
    ∃ v, irqs.foldlM s3c24xxI2cIrq t = .ok v ∧ After t v (spurious irqs) := by
  induction irqs generalizing t with
  | nil => exact ⟨t, rfl, by simp [spurious], rfl⟩
  | cons e es ih =>
    have hidle : (clearIrqpend (byteEnd e t)).state = .idle := h
    obtain ⟨v, hv, hafter⟩ := ih hidle
    have hfirst : After t (clearIrqpend (byteEnd e t))
        [.byteEnd (has e.iicstat iicstatLastbit)] := ⟨rfl, rfl⟩
    refine ⟨v, ?_, hfirst.trans hafter⟩
    rw [List.foldlM_cons, irq_idle h]
    exact hv

theorem foldl_store_spurious (es : List ByteEnd) (msgs : List I2cMsg) :
    (spurious es).foldl store msgs = msgs := by
  induction es with
  | nil => rfl
  | cons e es ih => exact ih

/-- For every sequence of interrupts, cut off by the timeout at any point, the return value
    tells the truth about the bus, and the interrupts behind the end of the transfer
    change neither it nor a buffer nor what is on the bus: those in `late`, as long as
    none comes between a timeout and `STATE_IDLE`, and any in `after`. -/
theorem doxfer_truthful (busy : Nat → Reg) (penv : PollEnv) (fuel : Nat) (s : S3c24xxI2c)
    (msgs : List I2cMsg) (irqs late after : List ByteEnd) (hne : msgs ≠ [])
    (hnum : msgs.length < 2147483648) (hplain : WritesThenRead msgs)
    (hblock : ∀ m ∈ msgs, m.isRd = true → m.isRecvLen = false)
    (hquirk : has s.quirks quirkPoll = false) (hsuspended : s.suspended = false)
    (hbus : s3c24xxI2cSetMaster busy = 0)
    (hlate : ∀ t, transfer .ok msgs s irqs = .ok t → t.msgNum ≠ 0 → late = []) :
    ∃ t trace ret s' s'',
      transfer .ok msgs s irqs = .ok t ∧ t.trace = s.trace ++ trace ∧
      s3c24xxI2cDoxfer (interrupted busy penv irqs late) fuel msgs s = .ok (ret, s') ∧
      Truthful msgs trace ret ∧
      after.foldlM s3c24xxI2cIrq s' = .ok s'' ∧
      s''.trace = s.trace ++ trace ++ spurious (late ++ after) ∧ s''.msgs = t.msgs := by
  obtain ⟨m, ms, t, hmsgs, ht, htrace, -, hreached⟩ := transfer_plays hne hplain hnum s irqs
  have htransfer : transfer .ok msgs s irqs = .ok t := by
    rw [hmsgs, transfer_eq hquirk, ht]
  have hplayed := playAll_played (script_ne_nil hne) (script_fixed hblock) irqs
  -- behind a transfer that is over late interrupts are spurious; behind a timeout there are none
  obtain ⟨v, hv, hafterv⟩ : ∃ v, late.foldlM s3c24xxI2cIrq t = .ok v ∧
      After t v (spurious late) := by
    by_cases hover : t.msgNum = 0
    · exact run_over hreached hover late
    · rw [hlate t htransfer hover]
      exact ⟨t, rfl, by simp [spurious], rfl⟩
  obtain ⟨w, hw, hafterw⟩ := run_idle (leave_state v) after
  have hdoxfer := doxfer_irq penv irqs late fuel m ms hsuspended hbus hquirk
  rw [ht, ← hmsgs] at hdoxfer
  refine ⟨t, _, toS32 t.msgIdx, leave v, w, htransfer, htrace, hdoxfer.trans ?_, ?_, hw, ?_, ?_⟩
  · simp only [bind, Except.bind, hv]
    rfl
  · rw [reached_ret hreached]
    exact played_truthful hplayed
  · rw [hafterw.trace, leave_trace, hafterv.trace, htrace, spurious, spurious, spurious,
      List.map_append]
    simp only [List.append_assoc]
  · rw [hafterw.msgs, leave_msgs, foldl_store_spurious, hafterv.msgs, foldl_store_spurious]

/-- A write of two bytes that times out behind its first byte, and one more interrupt. -/
theorem doxfer_truthful_timeout :
    ∃ t trace ret s' s'',
      transfer .ok [twoBytes] (atRest 0) [acked, acked] = .ok t ∧
      t.trace = (atRest 0).trace ++ trace ∧
      s3c24xxI2cDoxfer (interrupted (fun _ => 0) (fun _ => none) [acked, acked] []) 0 [twoBytes]
        (atRest 0) = .ok (ret, s') ∧
      Truthful [twoBytes] trace ret ∧
      [acked].foldlM s3c24xxI2cIrq s' = .ok s'' ∧
      s''.trace = (atRest 0).trace ++ trace ++ spurious ([] ++ [acked]) ∧ s''.msgs = t.msgs :=
  doxfer_truthful (fun _ => 0) (fun _ => none) 0 (atRest 0) [twoBytes] [acked, acked] [] [acked]
    (by simp) (by simp) ⟨nofun, trivial⟩ (by decide) rfl rfl (by decide) fun _ _ _ => rfl

/-- The interrupt of the address byte comes right behind the timeout: 0 is returned, and a
    data byte goes on the bus. -/
theorem doxfer_late_data :
    ¬ ∀ irqs late t, transfer .ok [twoBytes] (atRest 0) irqs = .ok t → ∃ ret s',
      s3c24xxI2cDoxfer (interrupted (fun _ => 0) (fun _ => none) irqs late) 0 [twoBytes]
        (atRest 0) = .ok (ret, s') ∧ s'.trace = t.trace ++ spurious late := by
  intro h
  obtain ⟨ret, s', hrun, htrace⟩ := h [] [acked] (begun twoBytes [] (atRest 0)) rfl
  have hlate : ∃ u, s3c24xxI2cDoxfer (interrupted (fun _ => 0) (fun _ => none) [] [acked]) 0
      [twoBytes] (atRest 0) = .ok (0, u) ∧
      u.trace = [.start 0 0xf0 0xa0, .byteEnd false, .data 0 0 7] := ⟨_, rfl, rfl⟩
  obtain ⟨u, hu, hutrace⟩ := hlate
  rw [hu, Except.ok.injEq, Prod.mk.injEq] at hrun
  rw [← hrun.2, hutrace] at htrace
  exact absurd (congrArg List.length htrace) (by decide)

end S3c24xx
