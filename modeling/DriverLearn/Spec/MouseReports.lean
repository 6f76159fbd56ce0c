import DriverLearn.Spec.MouseKeys

/-!
# Reports recovered from key events

The handler reports which of the three buttons differ from the report before. From its
events alone the reports can be followed: the state of the keys at each `input_sync` is the
three low bits of a report, and no report is missing but those that repeat the one before.

## Key results

- `decode_run`: the states at the `input_sync`s of a sequence of reports
- `reports_recovered`: a connection, from the state the module is loaded with
-/

namespace UsbmouseKey

open Word
open KeyInput (KeyCode)

variable {s : Usbmouse} {dev urb : Nat} {pre data0 : Byte} {b : Nat × KeyCode}

/-! ### Reading the events -/

/-- The bit of a key in the state of the keys. -/
def keyIndex : KeyCode → Nat
  | .keyL => 0
  | .keyS => 1
  | .keyEnter => 2
  | .keyLeftshift => 3

/-- The state of the three keys with one of them set. -/
def setKey (st : BitVec 3) (i : Nat) (value : Bool) : BitVec 3 :=
  if value then st ||| BitVec.twoPow 3 i else st &&& ~~~BitVec.twoPow 3 i

/-- The states at each `input_sync`, from the state `st` on. -/
def decode (st : BitVec 3) : List KernelCall → List (BitVec 3)
  | [] => []
  | .inputEvent _ code value :: cs => decode (setKey st (keyIndex code) value) cs
  | .inputSync _ :: cs => st :: decode st cs
  | _ :: cs => decode st cs

/-- The values of the events of one key. -/
def keyValues (code : KeyCode) (calls : List KernelCall) : List Bool :=
  calls.filterMap fun c =>
    match c with
    | .inputEvent _ k value => if k = code then some value else none
    | _ => none

/-- The values alternate, and start with the first argument. -/
def Alternates : Bool → List Bool → Prop
  | _, [] => True
  | v, x :: xs => x = v ∧ Alternates (!v) xs

/-- The reports that differ from the one before, the first one from `pre`. -/
def changed : (pre : Byte) → List Byte → List Byte
  | _, [] => []
  | pre, r :: rs => if r = pre then changed r rs else r :: changed r rs

/-- Reports processed one after the other. -/
def reports (rs : List Byte) (s : Usbmouse) : Usbmouse :=
  rs.foldl (fun s data0 => usbmouseAsKeyIrq data0 s) s

/-! ### The state of the keys -/

/-- Setting a key leaves the other ones. -/
theorem getLsbD_setKey (st : BitVec 3) {i j : Nat} (hj : j < 3) (value : Bool) :
    (setKey st i value).getLsbD j = if j = i then value else st.getLsbD j := by
  rw [setKey]
  by_cases hji : j = i
  · cases value <;> simp [hji, hji ▸ hj]
  · cases value <;> simp [hj, hji]

/-- The state behind the events of some buttons. -/
def setKeys (pre data0 : Byte) (bs : List (Nat × KeyCode)) (st : BitVec 3) : BitVec 3 :=
  bs.foldl
    (fun st b =>
      if pre.getLsbD b.1 = data0.getLsbD b.1 then st
      else setKey st (keyIndex b.2) (data0.getLsbD b.1))
    st

/-- The events of a report's buttons set the keys that have changed. -/
theorem decode_buttons (dev : Nat) (pre data0 : Byte) (bs : List (Nat × KeyCode))
    (st : BitVec 3) (cs : List KernelCall) :
    decode st (bs.flatMap (buttonCalls dev pre data0) ++ cs) =
      decode (setKeys pre data0 bs st) cs := by
  induction bs generalizing st with
  | nil => rfl
  | cons b bs ih =>
    rw [List.flatMap_cons, List.append_assoc, setKeys, List.foldl_cons, ← setKeys, buttonCalls]
    by_cases heq : pre.getLsbD b.1 = data0.getLsbD b.1
    · rw [if_pos heq, if_pos heq]
      exact ih st
    · rw [if_neg heq, if_neg heq]
      exact ih _

/-- The events of a report make the low bits of the one before those of the report. -/
theorem setKeys_buttons (pre data0 : Byte) :
    setKeys pre data0 buttons (pre.setWidth 3) = data0.setWidth 3 := by
  apply BitVec.eq_of_getLsbD_eq
  intro j hj
  have hbit : ∀ x : Byte, (x.setWidth 3).getLsbD j = x.getLsbD j := by simp [hj]
  have hset : ∀ (st : BitVec 3) (i : Nat),
      (if pre.getLsbD i = data0.getLsbD i then st else setKey st i (data0.getLsbD i)).getLsbD j =
        if j = i ∧ pre.getLsbD i ≠ data0.getLsbD i then data0.getLsbD i else st.getLsbD j := by
    intro st i
    by_cases heq : pre.getLsbD i = data0.getLsbD i
    · simp only [heq, ne_eq, not_true_eq_false, and_false, if_true, if_false]
    · rw [if_neg heq, getLsbD_setKey st hj]
      simp only [heq, ne_eq, not_false_eq_true, and_true]
  simp only [setKeys, buttons, keyIndex, List.foldl_cons, List.foldl_nil, hset, hbit]
  have hcases : j = 0 ∨ j = 1 ∨ j = 2 := by omega
  rcases hcases with rfl | rfl | rfl <;> grind

/-- A report shows one new state of the keys, or none if it repeats the one before. -/
theorem decode_report (dev urb : Nat) (pre data0 : Byte) (cs : List KernelCall) :
    decode (pre.setWidth 3) (reportCalls dev urb pre data0 ++ cs) =
      if data0 = pre then decode (data0.setWidth 3) cs
      else data0.setWidth 3 :: decode (data0.setWidth 3) cs := by
  rw [reportCalls, eventCalls, List.append_assoc, List.append_assoc, decode_buttons,
    setKeys_buttons]
  by_cases heq : data0 = pre
  · rw [if_pos heq, if_pos heq]
    rfl
  · rw [if_neg heq, if_neg heq]
    rfl

/-! ### Sequences of reports -/

/-- The calls of a sequence of reports. -/
def runCalls (dev urb : Nat) : (pre : Byte) → List Byte → List KernelCall
  | _, [] => []
  | pre, r :: rs => reportCalls dev urb pre r ++ runCalls dev urb r rs

/-- What the driver calls for the reports. -/
theorem reports_log (rs : List Byte) (s : Usbmouse) :
    (reports rs s).log = s.log ++ runCalls s.ukIdev s.ukUrb s.preVal rs := by
  induction rs generalizing s with
  | nil => simp [reports, runCalls]
  | cons r rs ih =>
    rw [reports, List.foldl_cons, ← reports, ih, irq_eq, runCalls, ← List.append_assoc]

/-- The calls for the reports show those that changed. -/
theorem decode_run (dev urb : Nat) (pre : Byte) (rs : List Byte) :
    decode (pre.setWidth 3) (runCalls dev urb pre rs) =
      (changed pre rs).map (·.setWidth 3) := by
  induction rs generalizing pre with
  | nil => rfl
  | cons r rs ih =>
    rw [runCalls, decode_report, ih, changed]
    split <;> rfl

/-! ### The values of one key -/

/-- The values of a key in two runs. -/
theorem keyValues_append (code : KeyCode) (calls calls' : List KernelCall) :
    keyValues code (calls ++ calls') = keyValues code calls ++ keyValues code calls' :=
  List.filterMap_append

/-- A button gives its key a value just if it has changed. -/
theorem keyValues_buttonCalls (code : KeyCode) (dev : Nat) (pre data0 : Byte)
    (b : Nat × KeyCode) :
    keyValues code (buttonCalls dev pre data0 b) =
      if b.2 = code ∧ pre.getLsbD b.1 ≠ data0.getLsbD b.1 then [data0.getLsbD b.1] else [] := by
  rw [buttonCalls]
  by_cases hdiff : pre.getLsbD b.1 = data0.getLsbD b.1
  · rw [if_pos hdiff, if_neg fun h => h.2 hdiff]
    rfl
  · rw [if_neg hdiff]
    by_cases hcode : b.2 = code
    · rw [if_pos ⟨hcode, hdiff⟩]
      exact List.filterMap_cons_some (if_pos hcode)
    · rw [if_neg fun h => hcode h.1]
      exact List.filterMap_cons_none (if_neg hcode)

/-- In a report a key gets a value just if its own button has changed. -/
theorem keyValues_report (dev urb : Nat) (pre data0 : Byte) (hb : b ∈ buttons) :
    keyValues b.2 (reportCalls dev urb pre data0) =
      if pre.getLsbD b.1 = data0.getLsbD b.1 then [] else [data0.getLsbD b.1] := by
  have hsync : keyValues b.2 (if data0 = pre then [] else [.inputSync dev]) = [] := by
    split <;> rfl
  have hsubmit : keyValues b.2 [.submitUrb urb] = [] := rfl
  rw [reportCalls, eventCalls, keyValues_append, keyValues_append, hsync, hsubmit,
    List.append_nil, List.append_nil]
  simp only [buttons, List.flatMap_cons, List.flatMap_nil, List.append_nil, keyValues_append,
    keyValues_buttonCalls]
  -- of the three buttons only this one has its key
  simp only [buttons, List.mem_cons, List.not_mem_nil, or_false] at hb
  rcases hb with rfl | rfl | rfl <;> simp

/-- The values of a key alternate, by induction on the reports. -/
theorem alternates_run (dev urb : Nat) (pre : Byte) (rs : List Byte) (hb : b ∈ buttons) :
    Alternates (!pre.getLsbD b.1) (keyValues b.2 (runCalls dev urb pre rs)) := by
  induction rs generalizing pre with
  | nil => trivial
  | cons r rs ih =>
    rw [runCalls, keyValues_append, keyValues_report _ _ _ _ hb]
    have hrest := ih r
    by_cases heq : pre.getLsbD b.1 = r.getLsbD b.1
    · rw [if_pos heq, heq]
      exact hrest
    · have hflip : r.getLsbD b.1 = !pre.getLsbD b.1 := by
        rw [Bool.eq_not]
        exact Ne.symm heq
      rw [if_neg heq]
      exact ⟨hflip, hflip ▸ hrest⟩

/-! ### Every event is followed by a sync -/

/-- A key event goes to the device, and needs a change. -/
theorem buttonCalls_inputEvent (pre data0 : Byte) {dev' : Nat} {code : KeyCode} {value : Bool}
    (h : .inputEvent dev' code value ∈ buttons.flatMap (buttonCalls dev pre data0)) :
    dev' = dev ∧ ¬ data0 = pre := by
  obtain ⟨b, -, hmem⟩ := List.mem_flatMap.mp h
  rw [buttonCalls] at hmem
  split at hmem
  · cases hmem
  · next hdiff =>
    rw [List.mem_singleton, KernelCall.inputEvent.injEq] at hmem
    refine ⟨hmem.1, ?_⟩
    rintro rfl
    exact hdiff rfl

/-- The sync of a report stands behind all its events. -/
theorem report_synced (dev urb : Nat) (pre data0 : Byte) {us ws : List KernelCall} {dev' : Nat}
    {code : KeyCode} {value : Bool}
    (h : reportCalls dev urb pre data0 = us ++ .inputEvent dev' code value :: ws) :
    .inputSync dev' ∈ ws := by
  rw [reportCalls, eventCalls, List.append_assoc] at h
  rcases List.append_eq_append_iff.mp h with ⟨cs, -, hrest⟩ | ⟨cs, hcalls, hrest⟩
  · -- the event would stand behind the buttons
    have htail : KernelCall.inputEvent dev' code value ∈
        (if data0 = pre then [] else [.inputSync dev]) ++ [.submitUrb urb] := by
      rw [hrest]
      simp
    split at htail <;> simp at htail
  · cases cs with
    | nil =>
      rw [List.nil_append] at hrest
      split at hrest <;> cases hrest
    | cons c cs =>
      rw [List.cons_append, List.cons.injEq] at hrest
      obtain ⟨rfl, hws⟩ := hrest
      have hmem : .inputEvent dev' code value ∈ buttons.flatMap (buttonCalls dev pre data0) := by
        rw [hcalls]
        simp
      obtain ⟨rfl, hne⟩ := buttonCalls_inputEvent pre data0 hmem
      rw [hws, if_neg hne]
      simp

/-- For every sequence of reports from a state in which none has been processed since the
    module was loaded: the states of the keys at each `input_sync`, the values of each key,
    and a sync behind each event of a report. -/
theorem reports_recovered (s : Usbmouse) (hloaded : s.preVal = 0) (rs : List Byte) :
    ∃ calls, (reports rs s).log = s.log ++ calls ∧
      decode 0 calls = (changed 0 rs).map (·.setWidth 3) ∧
      (∀ b ∈ buttons, Alternates true (keyValues b.2 calls)) ∧
      ∀ before r after, rs = before ++ r :: after →
        ∀ us dev code value ws,
          (usbmouseAsKeyIrq r (reports before s)).log =
              (reports before s).log ++ (us ++ .inputEvent dev code value :: ws) →
            .inputSync dev ∈ ws := by
  refine ⟨runCalls s.ukIdev s.ukUrb 0 rs, hloaded ▸ reports_log rs s,
    decode_run s.ukIdev s.ukUrb 0 rs, fun b hb => ?_, ?_⟩
  · have hvalues := alternates_run s.ukIdev s.ukUrb 0 rs hb
    rwa [show (0 : Byte).getLsbD b.1 = false from BitVec.getLsbD_zero] at hvalues
  · intro before r after _ us dev code value ws hlog
    rw [irq_eq] at hlog
    exact report_synced _ _ _ _ (List.append_cancel_left hlog)

/-- The first mouse behind the load of the module. -/
theorem reports_recovered_first :
    ∃ calls, (reports [1, 3, 3, 0] (usbmouseAsKeyProbe true 0 4 Usbmouse.init).2).log =
        (usbmouseAsKeyProbe true 0 4 Usbmouse.init).2.log ++ calls ∧
      decode 0 calls = [1, 3, 0] := by
  obtain ⟨calls, hlog, hdecode, -⟩ :=
    reports_recovered (usbmouseAsKeyProbe true 0 4 Usbmouse.init).2 rfl [1, 3, 3, 0]
  exact ⟨calls, hlog, hdecode.trans (by decide)⟩

end UsbmouseKey
