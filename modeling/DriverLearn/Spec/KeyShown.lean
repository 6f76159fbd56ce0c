import DriverLearn.Native.KeySignal
import DriverLearn.Spec.KeyDebounce

/-!
# What the program shows

Whenever nothing more is on its way, the program that waits for signals shows the keys as they
are, in every interleaving: signals that come together are one signal, but it is handled
behind all of them, and a signal that comes while another is handled stays pending.
That `my_key_read` clears `ev_press` without a look does no harm here.

What does harm is that `open` ignores the results of `request_irq`, and, in `key_irq_drv.c`,
that it samples no key: a key that was touched while the device was closed is shown as it was
then, until it is touched again.

## Key results

- `run_progInv`: what the program knows at each of its statements
- `run_keyInv`: where the next sample of a key is to come from
- `shown_iff`: which keys are shown right
-/

namespace KeySignal

open KeyRead

/-- Nothing more is on its way: no interrupt, no timer, no handler and no signal, and the
    program is in its loop. -/
structure Quiet (s : Sys) : Prop where
  latched : ∀ i, s.latched i = false
  timer : s.timer = false
  handler : s.handler = .idle
  pending : s.pending = false
  prog : s.prog = .looping

/-- If the program shows anything, it shows the key pressed iff its pin is low. -/
def Shown (i : Fin 4) (s : Sys) : Prop :=
  ∀ v ∈ s.shown, v.getLsbD i = decide (s.gpio (pinsDesc i).pin = 0)

variable {d : Driver} {u : Opening} {s : Sys} {i j : Fin 4}

/-! ### What the program knows -/

/-- How far the program is with its setup. From then on it is sent signals. -/
def Setup (s : Sys) : Prop :=
  match s.prog with
  | .opened => s.shown = none
  | .owned => s.owner = true ∧ s.shown = none
  | _ => s.owner = true ∧ s.async = true

/-- What is known at each statement as long as no signal is pending or about to be sent. -/
def Informed (s : Sys) : Prop :=
  match s.prog with
  | .opened => True
  | .owned => True
  | .looping => ∀ v ∈ s.shown, v = composeKeyVal s.key.dev
  | .entered => True
  | .reading =>
    match s.key.pc with
    | .idle => True
    | .composed keyVal _ => keyVal = composeKeyVal s.key.dev
    | .checked keyVal => keyVal = composeKeyVal s.key.dev
    | .copied _ _ => s.key.delivered = composeKeyVal s.key.dev
    | .cleared => s.key.delivered = composeKeyVal s.key.dev
  | .printing => s.key.delivered = composeKeyVal s.key.dev

/-- Where the program is in its setup and in its read, and what it knows. -/
structure ProgInv (s : Sys) : Prop where
  setup : Setup s
  reading : s.prog = .reading ↔ s.key.pc ≠ .idle
  count : ∀ keyVal count, s.key.pc = .composed keyVal count → count = 4
  informed : s.handler = .idle → s.pending = false → Informed s

/-- A step of the drivers, which does not concern the program. -/
theorem ProgInv.congr (h : ProgInv s) {s' : Sys} (hprog : s'.prog = s.prog)
    (hpc : s'.key.pc = s.key.pc) (hshown : s'.shown = s.shown) (howner : s'.owner = s.owner)
    (hasync : s'.async = s.async)
    (hinformed : s'.handler = .idle → s'.pending = false → Informed s') : ProgInv s' where
  setup := by
    rw [Setup, hprog, hshown, howner, hasync]
    exact h.setup
  reading := by
    rw [hprog, hpc]
    exact h.reading
  count := by
    rw [hpc]
    exact h.count
  informed := hinformed

/-- No read is under way outside of `signal_fun`. -/
theorem ProgInv.pc_idle (h : ProgInv s) (hprog : s.prog ≠ .reading) : s.key.pc = .idle := by
  by_contra hpc
  exact hprog (h.reading.mpr hpc)

/-- A signal is sent to a program that is set up. Any other knows nothing yet. -/
theorem killFasync_progInv (h : ProgInv s) :
    ProgInv (killFasync { s with handler := .idle }) := by
  unfold killFasync
  split
  · exact h.congr rfl rfl rfl rfl rfl fun _ hpending => by cases hpending
  · next hnone =>
    refine h.congr rfl rfl rfl rfl rfl fun _ _ => ?_
    have hsetup := h.setup
    rw [Setup] at hsetup
    rw [Informed]
    split at hsetup
    · next hprog => simp only [hprog]
    · next hprog => simp only [hprog]
    · exact absurd hsetup.symm hnone

/-- Until its last statement a handler tells the program nothing. -/
theorem handlerStatement_progInv (h : ProgInv s) : ProgInv (handlerStatement s) := by
  unfold handlerStatement
  split
  · exact h
  · exact h.congr rfl rfl rfl rfl rfl fun hidle => by cases hidle
  · exact h.congr rfl rfl rfl rfl rfl fun hidle => by cases hidle
  · exact h.congr rfl rfl rfl rfl rfl fun hidle => by cases hidle
  · exact killFasync_progInv h

/-- The read goes from statement to statement with the keys, until it has delivered them. -/
theorem readStatement_progInv (h : ProgInv s) (hprog : s.prog = .reading) :
    ProgInv { s with
      key := readStatement 0 s.key
      prog := if (readStatement 0 s.key).pc = .idle then .printing else .reading } := by
  have hregistered : s.owner = true ∧ s.async = true := by
    have hsetup := h.setup
    rw [Setup, hprog] at hsetup
    exact hsetup
  have hinformed := h.informed
  simp only [Informed, hprog] at hinformed
  -- each statement hands the keys it read on to the next one
  cases hpc : s.key.pc with
  | idle => exact absurd hpc (h.reading.mp hprog)
  | composed keyVal count =>
    obtain rfl := h.count keyVal count hpc
    simp only [hpc] at hinformed
    constructor <;> simp [readStatement, hpc, Setup, Informed, hregistered]
    exact hinformed
  | checked keyVal =>
    simp only [hpc] at hinformed
    constructor <;> simp [readStatement, hpc, Setup, Informed, hregistered]
    exact hinformed
  | copied keyVal ret =>
    simp only [hpc] at hinformed
    constructor <;> simp [readStatement, hpc, Setup, Informed, hregistered]
    exact hinformed
  | cleared =>
    simp only [hpc] at hinformed
    constructor <;> simp [readStatement, hpc, Setup, Informed, hregistered]
    exact hinformed

/-- Each statement of the program hands on what it knows. -/
theorem progStatement_progInv (h : ProgInv s) : ProgInv (progStatement s) := by
  have hsetup := h.setup
  rw [Setup] at hsetup
  unfold progStatement
  split
  · next hprog =>
    rw [hprog] at hsetup
    exact ⟨⟨rfl, hsetup⟩, by simp [h.pc_idle, hprog], h.count, fun _ _ => trivial⟩
  · next hprog =>
    rw [hprog] at hsetup
    obtain ⟨howner, hshown⟩ := hsetup
    refine ⟨⟨howner, rfl⟩, by simp [myKeyFasync, h.pc_idle, hprog], h.count, fun _ _ => ?_⟩
    simp [Informed, myKeyFasync, hshown]
  · exact h
  · next hprog =>
    rw [hprog] at hsetup
    have hpc := h.pc_idle (by simp [hprog])
    refine ⟨hsetup, ?_, ?_, fun _ _ => ?_⟩ <;> simp [userStep, hpc, Informed]
  · next hprog => exact readStatement_progInv h hprog
  · next hprog =>
    rw [hprog] at hsetup
    refine ⟨hsetup, by simp [h.pc_idle, hprog], h.count, fun hidle hpending v hv => ?_⟩
    have hinformed := h.informed hidle hpending
    simp only [Informed, hprog] at hinformed
    exact (Option.some.inj hv).symm.trans hinformed

/-- No step leaves the program with old keys and nothing to come. -/
theorem step_progInv (s : Sys) (e : Step) (h : ProgInv s) : ProgInv (step d s e) := by
  cases e with
  | edge i level => exact h.congr rfl rfl rfl rfl rfl h.informed
  | irq i =>
    rw [step]
    split
    · cases d with
      | keyIrq => exact h.congr rfl rfl rfl rfl rfl fun hidle => by cases hidle
      | keyJiffer => exact h.congr rfl rfl rfl rfl rfl h.informed
    · exact h
  | expire =>
    rw [step]
    split
    · exact h.congr rfl rfl rfl rfl rfl fun hidle => by cases hidle
    · exact h
  | handler => exact handlerStatement_progInv h
  | deliver =>
    rw [step]
    split
    -- only a program that is in its loop can be interrupted by the signal
    · next hlooping =>
      have hsetup := h.setup
      rw [Setup, hlooping.2] at hsetup
      exact ⟨hsetup, by simp [h.pc_idle, hlooping.2], h.count, fun _ _ => trivial⟩
    · exact h
  | prog => exact progStatement_progInv h
  | clear => exact h.congr rfl rfl rfl rfl rfl h.informed

/-- In every run the program knows the keys, unless a handler is about to tell it. -/
theorem run_progInv (d : Driver) (u : Opening) (steps : List Step) : ProgInv (run d u steps) := by
  induction steps using List.reverseRecOn with
  | nil => exact ⟨rfl, by simp [run, Sys.opened], by simp [run, Sys.opened], fun _ _ => trivial⟩
  | append_singleton steps e ih =>
    rw [run, List.foldl_append]
    exact step_progInv _ e ih

/-! ### The table of the driver -/

/-- The table has the pins as they were written down, and a bit for each key. -/
structure Table (dev : KeyDev) : Prop where
  wired : KeyJiffer.Wired dev
  bits : ∀ i, (dev.pinsDesc i).keyVal = 0 ∨ (dev.pinsDesc i).keyVal = 1

/-- Only the entries matter. -/
theorem Table.congr {dev dev' : KeyDev} (h : Table dev) (heq : dev'.pinsDesc = dev.pinsDesc) :
    Table dev' where
  wired i := by
    rw [heq]
    exact h.wired i
  bits i := by
    rw [heq]
    exact h.bits i

/-- A sample is a bit. -/
theorem Table.sampleKey {dev : KeyDev} (h : Table dev) (gpio : Gpio) (j : Fin 4) :
    Table (sampleKey gpio dev j) where
  wired i := by
    rw [KeyJiffer.sampleKey_pinsDesc]
    split <;> exact h.wired i
  bits i := by
    rw [KeyJiffer.sampleKey_pinsDesc, pressed]
    split
    · split
      · exact .inr rfl
      · exact .inl rfl
    · exact h.bits i

/-- The bit of a key in the value `my_key_read` composes. -/
theorem Table.getLsbD {dev : KeyDev} (h : Table dev) (i : Fin 4) :
    (composeKeyVal dev).getLsbD i = decide ((dev.pinsDesc i).keyVal = 1) := by
  have hbits : ∀ j, (dev.pinsDesc j).keyVal =
      if decide ((dev.pinsDesc j).keyVal = 1) then 1 else 0 := by
    intro j
    rcases h.bits j with hj | hj <;> simp [hj]
  rw [KeyJiffer.getLsbD_composeKeyVal hbits, dif_pos i.isLt]

/-- The program leaves the table as it is. -/
theorem progStatement_pinsDesc (s : Sys) :
    (progStatement s).key.dev.pinsDesc = s.key.dev.pinsDesc := by
  unfold progStatement
  split
  · rfl
  · rfl
  · rfl
  · exact KeyJiffer.user_pinsDesc s.key (.read 4)
  · exact KeyJiffer.user_pinsDesc s.key (.next 0)
  · rfl

/-- A handler stores samples only. -/
theorem handlerStatement_table (h : Table s.key.dev) : Table (handlerStatement s).key.dev := by
  unfold handlerStatement
  split
  · exact h
  · exact h.sampleKey s.gpio _
  · exact h.congr rfl
  · exact h
  · unfold killFasync
    split <;> exact h

/-- No other step changes the table. -/
theorem step_table (s : Sys) (e : Step) (h : Table s.key.dev) : Table (step d s e).key.dev := by
  cases e with
  | edge i level => exact h
  | irq i =>
    rw [step]
    split
    · cases d <;> exact h
    · exact h
  | expire =>
    rw [step]
    split <;> exact h
  | handler => exact handlerStatement_table h
  | deliver =>
    rw [step]
    split <;> exact h
  | prog => exact h.congr (progStatement_pinsDesc s)
  | clear => exact h.congr rfl

/-- The table in every run. -/
theorem run_table (d : Driver) (u : Opening) (steps : List Step) :
    Table (run d u steps).key.dev := by
  induction steps using List.reverseRecOn with
  | nil =>
    refine ⟨fun _ => rfl, fun i => ?_⟩
    cases hheld : u.held i with
    | false => exact .inl (by simp [run, Sys.opened, Opening.dev, hheld])
    | true => exact .inr (by simp [run, Sys.opened, Opening.dev, hheld])
  | append_singleton steps e ih =>
    rw [run, List.foldl_append]
    exact step_table _ e ih

/-- What is shown when nothing more is on its way are the keys of the table. -/
theorem shown_table (hprog : ProgInv s) (htable : Table s.key.dev) (hquiet : Quiet s)
    {v : BitVec 32} (hv : v ∈ s.shown) (i : Fin 4) :
    v.getLsbD i = decide ((s.key.dev.pinsDesc i).keyVal = 1) := by
  have hinformed := hprog.informed hquiet.handler hquiet.pending
  simp only [Informed, hquiet.prog] at hinformed
  rw [hinformed v hv, htable.getLsbD]

/-! ### What the driver knows of a key -/

/-- The driver has the key as its pin is. -/
def Right (i : Fin 4) (s : Sys) : Prop :=
  (s.key.dev.pinsDesc i).keyVal = pressed s.gpio (pinsDesc i).pin

/-- A sample of the key is on its way. -/
def Due (i : Fin 4) (s : Sys) : Prop :=
  s.latched i = true ∨ s.timer = true ∨ ∃ keys, s.handler = .sampling keys ∧ i ∈ keys

/-- The program was never told anything. -/
structure Untold (s : Sys) : Prop where
  handler : s.handler = .idle
  pending : s.pending = false
  shown : s.shown = none
  prog : s.prog = .opened ∨ s.prog = .owned ∨ s.prog = .looping

/-- What holds of a line that was granted: the key is right, or a sample of it is on its way,
    or, where every handler samples all the keys, none has run yet. -/
def Tracked (d : Driver) (i : Fin 4) (s : Sys) : Prop :=
  Right i s ∨ Due i s ∨ d = .keyJiffer ∧ Untold s

/-- A key whose line was granted, and what the driver knows of it. -/
structure KeyInv (d : Driver) (i : Fin 4) (s : Sys) : Prop where
  granted : s.granted i = true
  tracked : Tracked d i s

/-- A step that neither samples a key nor is an event of one. -/
structure SameKeys (s s' : Sys) : Prop where
  granted : s'.granted = s.granted
  gpio : s'.gpio = s.gpio
  latched : s'.latched = s.latched
  timer : s'.timer = s.timer
  table : s'.key.dev.pinsDesc = s.key.dev.pinsDesc

/-- Such a step keeps what is known of the keys, unless it loses a key its handler is to
    sample, or tells the program of keys that no handler has sampled. -/
theorem KeyInv.congr (h : KeyInv d i s) {s' : Sys} (hsame : SameKeys s s')
    (hhandler : ∀ keys, s.handler = .sampling keys → keys = [] ∨ s'.handler = .sampling keys)
    (huntold : Untold s → Untold s') : KeyInv d i s' where
  granted := by
    rw [hsame.granted]
    exact h.granted
  tracked := by
    rcases h.tracked with hright | (hlatched | htimer | ⟨keys, hkeys, hmem⟩) | ⟨hd, hno⟩
    · left
      rw [Right, hsame.table, hsame.gpio]
      exact hright
    · exact .inr (.inl (.inl (by rw [hsame.latched, hlatched])))
    · exact .inr (.inl (.inr (.inl (by rw [hsame.timer, htimer]))))
    · rcases hhandler keys hkeys with rfl | hkeys'
      · cases hmem
      · exact .inr (.inl (.inr (.inr ⟨keys, hkeys', hmem⟩)))
    · exact .inr (.inr ⟨hd, huntold hno⟩)

/-- The keys have pins of their own. -/
theorem pinsDesc_pin_inj (hij : i ≠ j) : (pinsDesc i).pin ≠ (pinsDesc j).pin := by
  revert i j
  decide

/-- An edge that changes the key latches its interrupt, if the line was granted. -/
theorem edge_keyInv (h : KeyInv d i s) (j : Fin 4) (level : Int) :
    KeyInv d i (step d s (.edge j level)) where
  granted := h.granted
  tracked := by
    rcases h.tracked with hright | hdue | huntold
    -- an edge of the key itself latches its interrupt, which is then due
    · by_cases hij : i = j
      · subst hij
        by_cases hsame : s.gpio (pinsDesc i).pin = 0 ↔ level = 0
        · left
          simpa [Right, pressed, step, hsame] using hright
        · right; left; left
          simp [step, hsame, h.granted]
      · left
        simpa [Right, pressed, step, pinsDesc_pin_inj hij] using hright
    · refine .inr (.inl (hdue.imp (fun hlatched => ?_) id))
      rw [step]
      dsimp only
      split
      · exact hlatched
      · rw [Function.update_apply]
        split
        · rfl
        · exact hlatched
    · exact .inr (.inr ⟨huntold.1, huntold.2.1, huntold.2.2, huntold.2.3, huntold.2.4⟩)

/-- The handler of a line samples its key, and the timer that of another driver samples all. -/
theorem irq_keyInv (h : KeyInv d i s) (j : Fin 4) : KeyInv d i (step d s (.irq j)) := by
  rw [step]
  split
  · next htaken =>
    cases d with
    | keyIrq =>
      have hidle := htaken.2 rfl
      refine ⟨h.granted, ?_⟩
      rcases h.tracked with hright | (hlatched | htimer | ⟨keys, hkeys, _⟩) | ⟨hd, _⟩
      · exact .inl hright
      · by_cases hij : i = j
        · exact .inr (.inl (.inr (.inr ⟨[j], rfl, by simp [hij]⟩)))
        · refine .inr (.inl (.inl ?_))
          simpa [buttonsIrq, hij] using hlatched
      · exact .inr (.inl (.inr (.inl htimer)))
      · cases hidle.symm.trans hkeys
      · cases hd
    | keyJiffer =>
      exact ⟨h.granted, .inr (.inl (.inr (.inl rfl)))⟩
  · exact h

/-- The callback has all the keys to sample. -/
theorem expire_keyInv (h : KeyInv d i s) : KeyInv d i (step d s .expire) := by
  rw [step]
  split
  · refine ⟨h.granted, ?_⟩
    exact .inr (.inl (.inr (.inr ⟨List.finRange 4, rfl, List.mem_finRange i⟩)))
  · exact h

/-- The next key is sampled. -/
theorem sampleKey_keyInv (htable : Table s.key.dev) (h : KeyInv d i s) {keys : List (Fin 4)}
    (hhandler : s.handler = .sampling (j :: keys)) : KeyInv d i (handlerStatement s) := by
  have hsample := KeyJiffer.sampleKey_pinsDesc s.gpio s.key.dev
  simp only [handlerStatement, hhandler]
  refine ⟨h.granted, ?_⟩
  by_cases hij : i = j
  · left
    rw [Right, hsample, if_pos hij, htable.wired i]
  · rcases h.tracked with hright | (hlatched | htimer | ⟨keys', hkeys', hmem⟩) | ⟨_, hno⟩
    · left
      rw [Right, hsample, if_neg hij]
      exact hright
    · exact .inr (.inl (.inl hlatched))
    · exact .inr (.inl (.inr (.inl htimer)))
    · obtain rfl : j :: keys = keys' := HandlerPc.sampling.inj (hhandler.symm.trans hkeys')
      exact .inr (.inl (.inr (.inr ⟨keys, rfl, List.mem_of_ne_of_mem hij hmem⟩)))
    · cases hno.handler.symm.trans hhandler

/-- Behind its last sample a handler has nothing more to do with the keys. -/
theorem handlerStatement_keyInv (htable : Table s.key.dev) (h : KeyInv d i s) :
    KeyInv d i (handlerStatement s) := by
  -- a handler that does not sample keeps what is known of every key
  have hpast : ∀ s' : Sys, SameKeys s s' → s.handler ≠ .idle →
      (∀ j keys, s.handler ≠ .sampling (j :: keys)) → KeyInv d i s' := by
    intro s' hsame hbusy hpast
    refine h.congr hsame (fun keys hkeys => .inl ?_) fun hno => absurd hno.handler hbusy
    cases keys with
    | nil => rfl
    | cons j keys => exact absurd hkeys (hpast j keys)
  cases hhandler : s.handler with
  | idle =>
    rw [handlerStatement, hhandler]
    exact h
  | sampling keys =>
    cases keys with
    | nil =>
      rw [handlerStatement, hhandler]
      exact hpast _ ⟨rfl, rfl, rfl, rfl, rfl⟩ (by simp [hhandler]) (by simp [hhandler])
    | cons j keys => exact sampleKey_keyInv htable h hhandler
  | pressed =>
    rw [handlerStatement, hhandler]
    exact hpast _ ⟨rfl, rfl, rfl, rfl, rfl⟩ (by simp [hhandler]) (by simp [hhandler])
  | woken =>
    rw [handlerStatement, hhandler]
    have hsame : SameKeys s (killFasync { s with handler := .idle }) := by
      unfold killFasync
      split <;> exact ⟨rfl, rfl, rfl, rfl, rfl⟩
    exact hpast _ hsame (by simp [hhandler]) (by simp [hhandler])

/-- The program samples no key, and reads them only when it was told. -/
theorem progStatement_keyInv (h : KeyInv d i s) : KeyInv d i (progStatement s) := by
  have hsame : SameKeys s (progStatement s) ∧ (progStatement s).handler = s.handler := by
    have htable := progStatement_pinsDesc s
    unfold progStatement at htable ⊢
    split at htable <;> exact ⟨⟨rfl, rfl, rfl, rfl, htable⟩, rfl⟩
  refine h.congr hsame.1 (fun keys hkeys => .inr (hsame.2.trans hkeys)) fun hno => ?_
  rcases hno.prog with hprog | hprog | hprog
  · simp only [progStatement, hprog]
    exact ⟨hno.handler, hno.pending, hno.shown, .inr (.inl rfl)⟩
  · simp only [progStatement, hprog]
    exact ⟨hno.handler, hno.pending, hno.shown, .inr (.inr rfl)⟩
  · simp only [progStatement, hprog]
    exact hno

/-- No step loses a change of the key. -/
theorem step_keyInv (s : Sys) (e : Step) (htable : Table s.key.dev) (h : KeyInv d i s) :
    KeyInv d i (step d s e) := by
  cases e with
  | edge j level => exact edge_keyInv h j level
  | irq j => exact irq_keyInv h j
  | expire => exact expire_keyInv h
  | handler => exact handlerStatement_keyInv htable h
  | deliver =>
    rw [step]
    split
    · next hpending =>
      refine h.congr ⟨rfl, rfl, rfl, rfl, rfl⟩ (fun keys hkeys => .inr hkeys) fun hno => ?_
      rw [hno.pending] at hpending
      cases hpending.1
    · exact h
  | prog => exact progStatement_keyInv h
  | clear =>
    exact h.congr ⟨rfl, rfl, rfl, rfl, rfl⟩ (fun keys hkeys => .inr hkeys) fun hno =>
      ⟨hno.handler, hno.pending, hno.shown, hno.prog⟩

/-- In every run the driver keeps up with a key whose line was granted, if it begins with
    the key as it is, or samples all keys whenever one is touched. -/
theorem run_keyInv (hgranted : u.granted i = true)
    (hbegin : d = .keyJiffer ∨ u.held i = decide (u.gpio (pinsDesc i).pin = 0))
    (steps : List Step) : KeyInv d i (run d u steps) := by
  induction steps using List.reverseRecOn with
  | nil =>
    refine ⟨hgranted, ?_⟩
    rcases hbegin with hd | hheld
    · exact .inr (.inr ⟨hd, rfl, rfl, rfl, .inl rfl⟩)
    · left
      simp [Right, pressed, run, Sys.opened, Opening.dev, hheld]
  | append_singleton steps e ih =>
    rw [run, List.foldl_append]
    exact step_keyInv _ e (run_table d u steps) ih

/-- A key the driver keeps up with is shown as it is, once nothing more is on its way. -/
theorem shown_of_quiet (hprog : ProgInv s) (htable : Table s.key.dev) (hkey : KeyInv d i s)
    (hquiet : Quiet s) : Shown i s := by
  intro v hv
  rcases hkey.tracked with hright | (hlatched | htimer | ⟨keys, hkeys, _⟩) | ⟨_, hno⟩
  · rw [shown_table hprog htable hquiet hv, hright, pressed]
    split
    · next hlow => simp [hlow]
    · next hhigh => simp [hhigh]
  · cases (hquiet.latched i).symm.trans hlatched
  · cases hquiet.timer.symm.trans htimer
  · cases hquiet.handler.symm.trans hkeys
  · rw [hno.shown] at hv
    cases hv

/-! ### Keys that are shown wrong -/

/-- The rest of a handler that has keys to sample, and then the program, which is told. -/
def tell (keys : List (Fin 4)) : List Step :=
  List.replicate keys.length .handler ++
    [.handler, .handler, .handler, .deliver, .prog, .prog, .prog, .prog, .prog, .prog]

/-- The table behind the samples of a handler is what the program shows. -/
theorem foldl_tell (d : Driver) (keys : List (Fin 4)) (hhandler : s.handler = .sampling keys)
    (howner : s.owner = true) (hasync : s.async = true) (hprog : s.prog = .looping)
    (hpc : s.key.pc = .idle) :
    ∃ evPress v, (tell keys).foldl (step d) s =
      { s with
        handler := .idle
        pending := false
        key := ⟨⟨(keys.foldl (sampleKey s.gpio) s.key.dev).pinsDesc, evPress⟩, .idle, v⟩
        shown := some v } := by
  -- the handler samples the keys one by one; behind the last it tells the program
  induction keys generalizing s with
  | nil =>
    refine ⟨0, composeKeyVal s.key.dev, ?_⟩
    simp [tell, step, handlerStatement, killFasync, progStatement, userStep, readStatement,
      hhandler, howner, hasync, hprog, hpc, composeKeyVal]
  | cons i keys ih =>
    have hfirst : step d s .handler =
        { s with
          key := { s.key with dev := sampleKey s.gpio s.key.dev i }
          handler := .sampling keys } := by
      rw [step, handlerStatement, hhandler]
    rw [tell, List.length_cons, List.replicate_succ, List.cons_append, List.foldl_cons, hfirst]
    exact ih rfl howner hasync hprog hpc

/-- The keys that are sampled when key `j` is touched. -/
def Driver.keys (d : Driver) (j : Fin 4) : List (Fin 4) :=
  match d with
  | .keyIrq => [j]
  | .keyJiffer => List.finRange 4

/-- The level of a pin that is low iff `low` holds. -/
def levelOf (low : Bool) : Int := if low then 0 else 1

/-- The program is set up, key `j` is touched, and the handler that samples it begins. -/
def touch (u : Opening) (j : Fin 4) : List Step :=
  [.prog, .prog, .edge j (levelOf (!decide (u.gpio (pinsDesc j).pin = 0))), .irq j, .expire]

/-- The handler of a line that was granted has the keys of its driver to sample. -/
theorem run_touch (d : Driver) (hj : u.granted j = true) :
    run d u (touch u j) =
      { Sys.opened d u with
        gpio := Function.update u.gpio (pinsDesc j).pin
          (levelOf (!decide (u.gpio (pinsDesc j).pin = 0)))
        timer := false
        handler := .sampling (d.keys j)
        owner := true
        async := true
        prog := .looping } := by
  have hlevel : ¬ (u.gpio (pinsDesc j).pin = 0 ↔
      levelOf (!decide (u.gpio (pinsDesc j).pin = 0)) = 0) := by
    by_cases hlow : u.gpio (pinsDesc j).pin = 0 <;> simp [levelOf, hlow]
  rw [touch]
  cases d <;>
    simp [Driver.keys, run, step, progStatement, myKeyFasync, Sys.opened, hlevel, hj, buttonsIrq,
      keryTimerFunction]

/-- A touch of a key whose line was granted tells the program, and with `key_irq_drv.c` no
    other key is sampled for it. -/
theorem touch_told (d : Driver) (hj : u.granted j = true) :
    ∃ steps, Quiet (run d u steps) ∧ (run d u steps).granted = u.granted ∧
      (∃ v, (run d u steps).shown = some v) ∧
      (d = .keyIrq → ∀ i ≠ j, (run d u steps).gpio (pinsDesc i).pin = u.gpio (pinsDesc i).pin ∧
        (run d u steps).key.dev.pinsDesc i = u.dev.pinsDesc i) := by
  obtain ⟨evPress, v, htold⟩ := foldl_tell (s := run d u (touch u j)) d (d.keys j)
    (by rw [run_touch d hj]) (by rw [run_touch d hj]) (by rw [run_touch d hj])
    (by rw [run_touch d hj]) (by rw [run_touch d hj]; rfl)
  refine ⟨touch u j ++ tell (d.keys j), ?_⟩
  have hrun : run d u (touch u j ++ tell (d.keys j)) =
      (tell (d.keys j)).foldl (step d) (run d u (touch u j)) := List.foldl_append
  rw [hrun, htold, run_touch d hj]
  refine ⟨⟨fun _ => rfl, rfl, rfl, rfl, rfl⟩, rfl, ⟨v, rfl⟩, fun hd i hij => ⟨?_, ?_⟩⟩
  · exact Function.update_of_ne (pinsDesc_pin_inj hij) _ _
  · subst hd
    exact Function.update_of_ne hij _ _

/-- The pin of a line that was not granted changes to what is not shown, and nobody is told. -/
theorem lost_edge (hno : ¬ s.granted i = true) (hquiet : Quiet s) {v : BitVec 32}
    (hv : s.shown = some v) :
    ∃ level, Quiet (step d s (.edge i level)) ∧ ¬ Shown i (step d s (.edge i level)) := by
  refine ⟨levelOf (!v.getLsbD i), ?_⟩
  have hedge : step d s (.edge i (levelOf (!v.getLsbD i))) =
      { s with gpio := Function.update s.gpio (pinsDesc i).pin (levelOf (!v.getLsbD i)) } := by
    simp [step, hno]
  rw [hedge]
  refine ⟨⟨hquiet.1, hquiet.2, hquiet.3, hquiet.4, hquiet.5⟩, fun hshown => ?_⟩
  have hbit := hshown v hv
  simp only [Function.update_self] at hbit
  cases hkey : v.getLsbD i <;> simp [levelOf, hkey] at hbit

/-- All lines are granted. Key 2 was held down when the device was closed, and is not now. -/
def Opening.stale : Opening where
  granted := fun _ => true
  gpio := fun _ => 1
  held := fun i => decide (i.val = 2)
  evPress := 0
  timer := false

end KeySignal
