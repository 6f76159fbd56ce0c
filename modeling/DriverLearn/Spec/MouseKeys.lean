import DriverLearn.ForStd.Run
import DriverLearn.Native.UsbmouseKey

/-!
# The keys of a mouse

The handler reports the buttons that differ from the static `pre_val`. As long as the mouse
stays bound this keeps the keys of the input device at the report. `pre_val` outlives a
disconnect, but the next probe registers a new device, with all keys released: a button
that was down in the last report before and is down in the first report behind it shows no
difference, and is not reported.

## Key results

- `irq_eq`, `keyDown_irq`: one report
- `probe_keysInv` / `report_keysInv` / `disconnect_keysInv`: what a session keeps
- `agreed_iff`: the exact condition over whole runs
-/

namespace UsbmouseKey

open Word
open KeyInput (KeyCode)

/-- The state of a key of an input device: `input_event` sets it, and it is released in a
    new device. -/
def keyDown (dev : Nat) (code : KeyCode) (log : List KernelCall) : Bool :=
  log.foldl
    (fun down c =>
      match c with
      | .inputEvent d k value => if d = dev ∧ k = code then value else down
      | _ => down)
    false

/-- The bits of a report and their keys. -/
def buttons : List (Nat × KeyCode) := [(0, .keyL), (1, .keyS), (2, .keyEnter)]

/-- The law for one report: behind it the keys of the device are those of the report. -/
def Agreed (s : Session) : Act → Prop
  | .report data0 => ∀ b ∈ buttons,
      keyDown s.mouse.ukIdev b.2 (act s (.report data0)).mouse.log = data0.getLsbD b.1
  | _ => True

/-- In the first report behind a probe no button is down that was down in the last report
    before. -/
def NoneHeld (s : Session) : Act → Prop
  | .report data0 => s.fresh = true → ∀ b ∈ buttons,
      ¬ (s.mouse.preVal.getLsbD b.1 = true ∧ data0.getLsbD b.1 = true)
  | _ => True

/-! ### Probes -/

/-- A probe without memory for the input device. -/
theorem probe_noMemory (registerRet : Int) (wMaxPacketSize : Nat) (s : Usbmouse) :
    usbmouseAsKeyProbe false registerRet wMaxPacketSize s = (eNomem, { s with ukIdev := 0 }) := rfl

/-- A probe whose input device is not registered. -/
theorem probe_unregistered {registerRet : Int} (hret : registerRet ≠ 0) (wMaxPacketSize : Nat)
    (s : Usbmouse) (hpos : 0 < s.next) :
    usbmouseAsKeyProbe true registerRet wMaxPacketSize s =
      (registerRet, { s with
        ukIdev := s.next
        next := s.next + 1
        log := s.log ++ [.allocInput s.next, .registerInput s.next, .freeInput s.next] }) := by
  have hnull : ¬ s.next = 0 := by omega
  simp [usbmouseAsKeyProbe, alloc, call, hnull, hret]

/-- A successful probe. -/
theorem probe_bound (wMaxPacketSize : Nat) (s : Usbmouse) (hpos : 0 < s.next) :
    usbmouseAsKeyProbe true 0 wMaxPacketSize s =
      (0, { s with
        ukIdev := s.next
        len := wMaxPacketSize
        usbBuf := s.next + 1
        ukUrb := s.next + 2
        next := s.next + 3
        log := s.log ++ [.allocInput s.next, .registerInput s.next,
          .allocCoherent wMaxPacketSize (s.next + 1), .allocUrb (s.next + 2),
          .submitUrb (s.next + 2)] }) := by
  have hnull : ¬ s.next = 0 := by omega
  simp [usbmouseAsKeyProbe, alloc, call, hnull]

/-- What a disconnect calls, with what the static variables point to. -/
def releases (o : Owned) : List KernelCall :=
  [.killUrb o.urb, .freeUrb o.urb, .freeCoherent o.len o.buf, .unregisterInput o.idev,
    .freeInput o.idev]

/-- A disconnect releases what the globals own. -/
theorem disconnect_eq (s : Usbmouse) :
    usbmouseAsKeyDisconnect s = { s with log := s.log ++ releases s.owned } := by
  simp [usbmouseAsKeyDisconnect, call, releases, Usbmouse.owned]

/-! ### One report -/

variable {s : Usbmouse} {dev : Nat} {code : KeyCode}

/-- A call that is no `input_event`. -/
def KernelCall.Quiet : KernelCall → Prop
  | .inputEvent _ _ _ => False
  | _ => True

/-- Calls that report no key leave it. -/
theorem keyDown_quiet (log : List KernelCall) {calls : List KernelCall}
    (hquiet : ∀ c ∈ calls, c.Quiet) :
    keyDown dev code (log ++ calls) = keyDown dev code log := by
  induction calls generalizing log with
  | nil => rw [List.append_nil]
  | cons c calls ih =>
    rw [List.append_cons, ih _ fun c' hc' => hquiet c' (List.mem_cons_of_mem c hc')]
    have hc := hquiet c List.mem_cons_self
    rw [keyDown, List.foldl_append]
    cases c with
    | inputEvent d k value => exact hc.elim
    | _ => rfl

/-- The buttons of a report, before `input_sync` and the end of the handler. -/
def reportButtons (data0 : Byte) (s : Usbmouse) : Usbmouse :=
  reportButton (BitVec.twoPow 8 2) .keyEnter data0
    (reportButton (BitVec.twoPow 8 1) .keyS data0
      (reportButton (BitVec.twoPow 8 0) .keyL data0 s))

/-- The completion handler: the buttons, and the URB once more. -/
theorem usbmouseAsKeyIrq_eq (data0 : Byte) (s : Usbmouse) :
    usbmouseAsKeyIrq data0 s =
      let t := reportButtons data0 s
      let t := if t.preVal ^^^ data0 ≠ 0 then call (.inputSync t.ukIdev) t else t
      call (.submitUrb t.ukUrb) { t with preVal := data0 } := rfl

/-- The event of a button, if it differs. -/
def buttonCalls (dev : Nat) (pre data0 : Byte) (b : Nat × KeyCode) : List KernelCall :=
  if pre.getLsbD b.1 = data0.getLsbD b.1 then []
  else [.inputEvent dev b.2 (data0.getLsbD b.1)]

/-- What a report calls before `usb_submit_urb`. -/
def eventCalls (dev : Nat) (pre data0 : Byte) : List KernelCall :=
  buttons.flatMap (buttonCalls dev pre data0) ++
    if data0 = pre then [] else [.inputSync dev]

/-- What the driver calls for a report. -/
def reportCalls (dev urb : Nat) (pre data0 : Byte) : List KernelCall :=
  eventCalls dev pre data0 ++ [.submitUrb urb]

/-- A button that has changed is reported. -/
theorem reportButton_eq {i : Nat} (hi : i < 8) (code : KeyCode) (data0 : Byte) (s : Usbmouse) :
    reportButton (BitVec.twoPow 8 i) code data0 s =
      { s with log := s.log ++ buttonCalls s.ukIdev s.preVal data0 (i, code) } := by
  rw [reportButton, buttonCalls, has_xor_twoPow _ _ hi, has_twoPow _ hi, has_twoPow _ hi]
  by_cases hdiff : s.preVal.getLsbD i = data0.getLsbD i
  · simp [hdiff]
  · rw [if_pos (by simpa using hdiff), if_neg hdiff]
    rfl

/-- The completion handler takes the report over and calls the kernel. -/
theorem irq_eq (data0 : Byte) (s : Usbmouse) :
    usbmouseAsKeyIrq data0 s =
      { s with
        preVal := data0
        log := s.log ++ reportCalls s.ukIdev s.ukUrb s.preVal data0 } := by
  have hbuttons : reportButtons data0 s =
      { s with log := s.log ++ buttons.flatMap (buttonCalls s.ukIdev s.preVal data0) } := by
    simp [reportButtons, reportButton_eq, buttons]
  rw [usbmouseAsKeyIrq_eq, hbuttons]
  by_cases heq : data0 = s.preVal
  · simp [heq, call, reportCalls, eventCalls]
  · have hne : ¬ s.preVal = data0 := Ne.symm heq
    simp [heq, hne, call, reportCalls, eventCalls]

/-- A key is as its last event says. -/
theorem keyDown_event (log : List KernelCall) (d : Nat) (k : KeyCode) (value : Bool) :
    keyDown dev code (log ++ [.inputEvent d k value]) =
      if d = dev ∧ k = code then value else keyDown dev code log := by
  rw [keyDown, List.foldl_append]
  rfl

/-- A button that has changed sets its key. -/
theorem keyDown_buttonCalls (log : List KernelCall) (d : Nat) (pre data0 : Byte)
    (b : Nat × KeyCode) :
    keyDown dev code (log ++ buttonCalls d pre data0 b) =
      if (d = dev ∧ b.2 = code) ∧ pre.getLsbD b.1 ≠ data0.getLsbD b.1 then data0.getLsbD b.1
      else keyDown dev code log := by
  rw [buttonCalls]
  by_cases hdiff : pre.getLsbD b.1 = data0.getLsbD b.1
  · rw [if_pos hdiff, List.append_nil, if_neg fun h => h.2 hdiff]
  · rw [if_neg hdiff, keyDown_event]
    simp only [ne_eq, hdiff, not_false_eq_true, and_true]

/-- A report sets the keys whose bits differ from `pre_val`, in the current device. -/
theorem keyDown_irq (data0 : Byte) (s : Usbmouse) {b : Nat × KeyCode} (hb : b ∈ buttons) :
    keyDown dev b.2 (usbmouseAsKeyIrq data0 s).log =
      if s.ukIdev = dev ∧ s.preVal.getLsbD b.1 ≠ data0.getLsbD b.1 then data0.getLsbD b.1
      else keyDown dev b.2 s.log := by
  -- `input_sync` and `usb_submit_urb` are no events
  have hquiet : ∀ c ∈ (if data0 = s.preVal then [] else [KernelCall.inputSync s.ukIdev]) ++
      [.submitUrb s.ukUrb], c.Quiet := by
    intro c hc
    rcases List.mem_append.mp hc with hsync | hsubmit
    · split at hsync
      · cases hsync
      · exact List.mem_singleton.mp hsync ▸ trivial
    · exact List.mem_singleton.mp hsubmit ▸ trivial
  rw [irq_eq, reportCalls, eventCalls, List.append_assoc, ← List.append_assoc,
    keyDown_quiet _ hquiet]
  simp only [buttons, List.flatMap_cons, List.flatMap_nil, List.append_nil, ← List.append_assoc,
    keyDown_buttonCalls]
  -- of the three buttons only this one has its key
  simp only [buttons, List.mem_cons, List.not_mem_nil, or_false] at hb
  rcases hb with rfl | rfl | rfl <;> simp

/-! ### Sessions -/

/-- What a probe, a report and a disconnect keep: a device to come has no key down, and the
    current one has those of `pre_val`, or none before its first report. -/
structure KeysInv (s : Session) : Prop where
  next_pos : 0 < s.mouse.next
  unborn : ∀ dev ≥ s.mouse.next, ∀ b ∈ buttons, keyDown dev b.2 s.mouse.log = false
  current : s.bound = true → s.mouse.ukIdev < s.mouse.next ∧ ∀ b ∈ buttons,
    keyDown s.mouse.ukIdev b.2 s.mouse.log =
      if s.fresh then false else s.mouse.preVal.getLsbD b.1

/-- Calls that are no `input_event` keep what is known of the devices to come. -/
theorem KeysInv.unborn_quiet {s : Session} (h : KeysInv s) {t : Usbmouse}
    {calls : List KernelCall} (hquiet : ∀ c ∈ calls, c.Quiet)
    (hlog : t.log = s.mouse.log ++ calls) (hnext : s.mouse.next ≤ t.next) :
    ∀ dev ≥ t.next, ∀ b ∈ buttons, keyDown dev b.2 t.log = false := by
  intro dev hdev b hb
  rw [hlog, keyDown_quiet _ hquiet]
  exact h.unborn dev (hnext.trans hdev) b hb

/-- A probe begins with no key down. -/
theorem probe_keysInv {s : Session} (h : KeysInv s) (idevOk : Bool) (registerRet : Int)
    (wMaxPacketSize : Nat) : KeysInv (act s (.probe idevOk registerRet wMaxPacketSize)) := by
  have hpos := h.next_pos
  simp only [act]
  cases idevOk with
  | false =>
    rw [probe_noMemory]
    exact ⟨hpos, h.unborn, fun hbound => nomatch hbound⟩
  | true =>
    by_cases hret : registerRet = 0
    · -- the device is the next one, and no event has named it
      rw [hret, probe_bound _ _ hpos]
      have hquiet : ∀ c ∈ [KernelCall.allocInput s.mouse.next, .registerInput s.mouse.next,
          .allocCoherent wMaxPacketSize (s.mouse.next + 1), .allocUrb (s.mouse.next + 2),
          .submitUrb (s.mouse.next + 2)], c.Quiet := by simp [KernelCall.Quiet]
      refine ⟨Nat.succ_pos _, h.unborn_quiet hquiet rfl (Nat.le_add_right _ 3), fun _ => ?_⟩
      refine ⟨Nat.lt_add_of_pos_right (by decide), fun b hb => ?_⟩
      exact (keyDown_quiet _ hquiet).trans (h.unborn _ (Nat.le_refl _) b hb)
    · rw [probe_unregistered hret _ _ hpos]
      have hquiet : ∀ c ∈ [KernelCall.allocInput s.mouse.next, .registerInput s.mouse.next,
          .freeInput s.mouse.next], c.Quiet := by simp [KernelCall.Quiet]
      refine ⟨Nat.succ_pos _, h.unborn_quiet hquiet rfl (Nat.le_succ _), fun hbound => ?_⟩
      exact absurd (of_decide_eq_true hbound) hret

/-- A disconnect leaves no device with keys. -/
theorem disconnect_keysInv {s : Session} (h : KeysInv s) : KeysInv (act s .disconnect) := by
  simp only [act, disconnect_eq]
  have hquiet : ∀ c ∈ releases s.mouse.owned, c.Quiet := by simp [releases, KernelCall.Quiet]
  exact ⟨h.next_pos, h.unborn_quiet hquiet rfl (Nat.le_refl _), fun hbound => nomatch hbound⟩

/-- A report leaves the keys right exactly if no button was held over. -/
theorem report_agreed {s : Session} (h : KeysInv s) (hbound : s.bound = true) (data0 : Byte) :
    Agreed s (.report data0) ↔ NoneHeld s (.report data0) := by
  obtain ⟨-, hkeys⟩ := h.current hbound
  have hbutton : ∀ b ∈ buttons,
      keyDown s.mouse.ukIdev b.2 (act s (.report data0)).mouse.log = data0.getLsbD b.1 ↔
        (s.fresh = true →
          ¬ (s.mouse.preVal.getLsbD b.1 = true ∧ data0.getLsbD b.1 = true)) := by
    intro b hb
    simp only [act, keyDown_irq data0 s.mouse hb, hkeys b hb, true_and]
    -- before the first report the key is released, afterwards it is that of `pre_val`
    cases s.fresh <;> cases s.mouse.preVal.getLsbD b.1 <;> cases data0.getLsbD b.1 <;> simp
  rw [Agreed, NoneHeld, forall₂_congr hbutton]
  exact ⟨fun h hfresh b hb => h b hb hfresh, fun h b hb hfresh => h hfresh b hb⟩

/-- A report that agrees with `pre_val` keeps the keys right. -/
theorem report_keysInv {s : Session} (h : KeysInv s) (hbound : s.bound = true) {data0 : Byte}
    (hagreed : Agreed s (.report data0)) : KeysInv (act s (.report data0)) := by
  have hirq := irq_eq data0 s.mouse
  have hdev : (usbmouseAsKeyIrq data0 s.mouse).ukIdev = s.mouse.ukIdev := by rw [hirq]
  have hpre : (usbmouseAsKeyIrq data0 s.mouse).preVal = data0 := by rw [hirq]
  have hnext : (usbmouseAsKeyIrq data0 s.mouse).next = s.mouse.next := by rw [hirq]
  obtain ⟨hlt, -⟩ := h.current hbound
  simp only [act]
  refine ⟨by rw [hnext]; exact h.next_pos, fun dev hge b hb => ?_, fun _ => ⟨?_, fun b hb => ?_⟩⟩
  · -- the events name the current device only
    rw [hnext] at hge
    rw [keyDown_irq data0 s.mouse hb, if_neg (by omega)]
    exact h.unborn dev hge b hb
  · rw [hdev, hnext]
    exact hlt
  · rw [hdev, hpre]
    exact hagreed b hb

/-- For every sequence of probes, failed ones among them, reports and disconnects of one
    mouse: each report leaves the keys of the device at the report iff at each first report
    behind a probe no button is held over from the last report before. -/
theorem agreed_iff (acts : List Act)
    (hposs : Run.Guarded act Act.Possible Session.init acts) :
    Run.Guarded act Agreed Session.init acts ↔ Run.Guarded act NoneHeld Session.init acts := by
  have hinit : KeysInv Session.init :=
    ⟨Nat.one_pos, fun _ _ _ _ => rfl, fun hbound => nomatch hbound⟩
  refine Run.guarded_congr (fun s a h ha => ?_) hinit hposs
  cases a with
  | probe idevOk registerRet wMaxPacketSize =>
    exact ⟨Iff.rfl, fun _ => probe_keysInv h idevOk registerRet wMaxPacketSize⟩
  | report data0 =>
    have hiff := report_agreed h ha data0
    exact ⟨hiff, fun hnone => report_keysInv h ha (hiff.mpr hnone)⟩
  | disconnect => exact ⟨Iff.rfl, fun _ => disconnect_keysInv h⟩

/-- A click of the left button, and the mouse is plugged in again. -/
theorem agreed_iff_click :
    Run.Guarded act Agreed Session.init
        [.probe true 0 4, .report 1, .report 0, .disconnect, .probe true 0 4, .report 1] ↔
      Run.Guarded act NoneHeld Session.init
        [.probe true 0 4, .report 1, .report 0, .disconnect, .probe true 0 4, .report 1] :=
  agreed_iff _ ⟨rfl, rfl, rfl, rfl, rfl, rfl, trivial⟩

/-- The mouse is unplugged with the left button down, and the button is still down in the
    first report of the new device. -/
theorem agreed_fails_held :
    ¬ ∀ acts, Run.Guarded act Act.Possible Session.init acts →
      Run.Guarded act Agreed Session.init acts := by
  intro h
  have hagreed := h [.probe true 0 4, .report 1, .disconnect, .probe true 0 4, .report 1]
    ⟨rfl, rfl, rfl, rfl, rfl, trivial⟩
  have hkey := hagreed.2.2.2.2.1 (0, .keyL) (by decide)
  revert hkey
  decide

end UsbmouseKey
