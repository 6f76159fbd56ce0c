import DriverLearn.Spec.MouseKeys

/-!
# The resources of several mice

A disconnect should release the URB, the buffer and the input device that the probe of its
own interface allocated. It releases those the static variables point to, which are those
of the interface probed last.

## Key results

- `step_ledgerInv`: what is allocated, and what the static variables point to
- `disconnect_owned`: one disconnect
- `owned_iff`: the exact condition over whole runs
-/

namespace UsbmouseKey

/-! ### The law -/

/-- The call that gives back what a call allocated. -/
def KernelCall.release : KernelCall → Option KernelCall
  | .allocInput dev => some (.freeInput dev)
  | .allocCoherent len buf => some (.freeCoherent len buf)
  | .allocUrb urb => some (.freeUrb urb)
  | _ => none

/-- Nothing is left allocated. -/
def AllReleased (log : List KernelCall) : Prop := ∀ c ∈ log, ∀ r ∈ c.release, r ∈ log

/-- The law for one disconnect: it releases exactly what the probe of its interface
    allocated, for the first time, and nothing that another bound interface has. -/
def ReleasesOwn (s : Bus) : Op → Prop
  | .disconnect i => ∃ o, (i, o) ∈ s.bound ∧
      (step s (.disconnect i)).mouse.log = s.mouse.log ++ releases o ∧
      (∀ c ∈ releases o, c ∉ s.mouse.log) ∧
      ∀ b ∈ s.bound, b.1 ≠ i → ∀ c ∈ releases b.2, c ∉ releases o
  | _ => True

/-- No other interface was probed since the one that is disconnected. -/
def LastProbed (s : Bus) : Op → Prop
  | .disconnect i => s.last = some i
  | _ => True

/-! ### Objects -/

/-- Two sets of objects of which none is the same. -/
structure Apart (o o' : Owned) : Prop where
  idev : o.idev ≠ o'.idev
  buf : o.buf ≠ o'.buf
  urb : o.urb ≠ o'.urb

/-- The objects were handed out before number `n`. -/
structure Below (o : Owned) (n : Nat) : Prop where
  idev : o.idev < n
  buf : o.buf < n
  urb : o.urb < n

variable {o o' : Owned}

/-- Two lots of objects are apart both ways. -/
theorem Apart.symm (h : Apart o o') : Apart o' o := ⟨h.idev.symm, h.buf.symm, h.urb.symm⟩

/-- What is released of one is not of the other. -/
theorem Apart.releases (h : Apart o o') : ∀ c ∈ releases o, c ∉ releases o' := by
  simp [UsbmouseKey.releases, h.idev, h.buf, h.urb]

/-- What a probe allocates when `n` is the next object. -/
def fresh (n len : Nat) : Owned := ⟨n, len, n + 1, n + 2⟩

/-- New objects are apart from the old ones. -/
theorem Below.apart {n : Nat} (h : Below o n) (len : Nat) : Apart o (fresh n len) := by
  have hidev := h.idev
  have hbuf := h.buf
  have hurb := h.urb
  refine ⟨?_, ?_, ?_⟩ <;> simp only [fresh] <;> omega

/-- Objects below a number are below a greater one. -/
theorem Below.mono {n n' : Nat} (h : Below o n) (hle : n ≤ n') : Below o n' :=
  ⟨h.idev.trans_le hle, h.buf.trans_le hle, h.urb.trans_le hle⟩

/-- The object a call is about. -/
def KernelCall.object : KernelCall → Nat
  | .allocInput dev | .registerInput dev | .unregisterInput dev | .freeInput dev => dev
  | .allocCoherent _ buf | .freeCoherent _ buf => buf
  | .allocUrb urb | .submitUrb urb | .killUrb urb | .freeUrb urb => urb
  | .inputEvent dev _ _ | .inputSync dev => dev

/-- The objects released are below it. -/
theorem Below.object {n : Nat} (h : Below o n) : ∀ c ∈ releases o, c.object < n := by
  simp [UsbmouseKey.releases, KernelCall.object, h.idev, h.buf, h.urb]

/-! ### What the static variables point to -/

/-- The objects of the bound interfaces are all different, and the static variables point to
    those of the interface probed last. -/
structure IdsInv (s : Bus) : Prop where
  next_pos : 0 < s.mouse.next
  logged : ∀ c ∈ s.mouse.log, c.object < s.mouse.next
  below : ∀ b ∈ s.bound, Below b.2 s.mouse.next
  owned_below : Below s.mouse.owned s.mouse.next
  apart : ∀ b ∈ s.bound, ∀ b' ∈ s.bound, b.1 ≠ b'.1 → Apart b.2 b'.2
  last_self : ∀ b ∈ s.bound, s.last = some b.1 → b.2 = s.mouse.owned
  last_other : ∀ b ∈ s.bound, s.last ≠ some b.1 → Apart b.2 s.mouse.owned

/-- A probe takes new objects. -/
theorem probe_idsInv {s : Bus} (h : IdsInv s) (i wMaxPacketSize : Nat)
    (hnew : ∀ o, (i, o) ∉ s.bound) : IdsInv (step s (.probe i wMaxPacketSize)) := by
  have hpos := h.next_pos
  simp only [step, probe_bound _ _ hpos]
  -- the new objects are beyond all that were handed out
  have howned : ∀ b ∈ s.bound, Apart b.2 (fresh s.mouse.next wMaxPacketSize) :=
    fun b hb => (h.below b hb).apart wMaxPacketSize
  have hbelow : Below (fresh s.mouse.next wMaxPacketSize) (s.mouse.next + 3) :=
    ⟨by simp [fresh], by simp [fresh], by simp [fresh]⟩
  refine ⟨Nat.succ_pos _, ?_, ?_, hbelow, ?_, ?_, ?_⟩
  · intro c hc
    rcases List.mem_append.mp hc with hold | hnew
    · exact (h.logged c hold).trans_le (Nat.le_add_right _ 3)
    · simp only [List.mem_cons, List.not_mem_nil, or_false] at hnew
      rcases hnew with rfl | rfl | rfl | rfl | rfl <;> simp [KernelCall.object]
  · intro b hb
    rcases List.mem_cons.mp hb with rfl | hb
    · exact hbelow
    · exact (h.below b hb).mono (Nat.le_add_right _ 3)
  -- two interfaces: the new one with an old one is the case to check
  · intro b hb b' hb' hne
    rcases List.mem_cons.mp hb with rfl | hb <;> rcases List.mem_cons.mp hb' with rfl | hb'
    · exact absurd rfl hne
    · exact (howned b' hb').symm
    · exact howned b hb
    · exact h.apart b hb b' hb' hne
  -- the static variables now point to the new objects
  · intro b hb hlast
    rcases List.mem_cons.mp hb with rfl | hb
    · rfl
    · have hi : i = b.1 := Option.some.inj hlast
      exact absurd (by rw [hi]; exact hb) (hnew b.2)
  · intro b hb hlast
    rcases List.mem_cons.mp hb with rfl | hb
    · exact absurd rfl hlast
    · exact howned b hb

/-- A disconnect takes none. -/
theorem disconnect_idsInv {s : Bus} (h : IdsInv s) (i : Nat) :
    IdsInv (step s (.disconnect i)) := by
  simp only [step, disconnect_eq]
  have hmem : ∀ b ∈ s.bound.filter (fun b => b.1 ≠ i), b ∈ s.bound :=
    fun b hb => List.mem_of_mem_filter hb
  refine ⟨h.next_pos, ?_, ?_, h.owned_below, ?_, ?_, ?_⟩
  · intro c hc
    rcases List.mem_append.mp hc with hold | hnew
    · exact h.logged c hold
    · exact h.owned_below.object c hnew
  · exact fun b hb => h.below b (hmem b hb)
  · exact fun b hb b' hb' => h.apart b (hmem b hb) b' (hmem b' hb')
  · exact fun b hb => h.last_self b (hmem b hb)
  · exact fun b hb => h.last_other b (hmem b hb)

/-! ### Releases -/

/-- As long as each disconnect released its own: nothing that is bound was released, and
    what is not released is bound. -/
structure LedgerInv (s : Bus) : Prop where
  ids : IdsInv s
  held : ∀ b ∈ s.bound, ∀ c ∈ releases b.2, c ∉ s.mouse.log
  ledger : ∀ c ∈ s.mouse.log, ∀ r ∈ c.release,
    r ∈ s.mouse.log ∨ ∃ b ∈ s.bound, r ∈ releases b.2

/-- Behind a probe its device owns the globals. -/
theorem probe_ledgerInv {s : Bus} (h : LedgerInv s) (i wMaxPacketSize : Nat)
    (hnew : ∀ o, (i, o) ∉ s.bound) : LedgerInv (step s (.probe i wMaxPacketSize)) := by
  have hids := probe_idsInv h.ids i wMaxPacketSize hnew
  simp only [step, probe_bound _ _ h.ids.next_pos] at hids ⊢
  refine ⟨hids, ?_, ?_⟩
  · intro b hb c hc hlog
    rcases List.mem_append.mp hlog with hold | hcalls
    · rcases List.mem_cons.mp hb with rfl | hb
      · -- an object that was not handed out before
        have hlt := h.ids.logged c hold
        simp only [releases, Usbmouse.owned, List.mem_cons, List.not_mem_nil, or_false] at hc
        rcases hc with rfl | rfl | rfl | rfl | rfl <;>
          simp only [KernelCall.object] at hlt <;> omega
      · exact h.held b hb c hc hold
    · simp only [releases, List.mem_cons, List.not_mem_nil, or_false] at hc hcalls
      rcases hc with rfl | rfl | rfl | rfl | rfl <;> simp at hcalls
  · intro c hc r hr
    rcases List.mem_append.mp hc with hold | hcalls
    · rcases h.ledger c hold r hr with hreleased | ⟨b, hb, hrb⟩
      · exact .inl (List.mem_append_left _ hreleased)
      · exact .inr ⟨b, List.mem_cons_of_mem _ hb, hrb⟩
    · refine .inr ⟨_, List.mem_cons_self, ?_⟩
      simp only [List.mem_cons, List.not_mem_nil, or_false] at hcalls
      rcases hcalls with rfl | rfl | rfl | rfl | rfl <;>
        simp_all [KernelCall.release, releases, Usbmouse.owned]

/-- A disconnect that releases its own objects. -/
theorem disconnect_ledgerInv {s : Bus} (h : LedgerInv s) {i : Nat} {o : Owned}
    (hbound : (i, o) ∈ s.bound) (hlast : s.last = some i) :
    LedgerInv (step s (.disconnect i)) := by
  have hids := disconnect_idsInv h.ids i
  have howned : o = s.mouse.owned := h.ids.last_self (i, o) hbound hlast
  simp only [step, disconnect_eq, ← howned] at hids ⊢
  refine ⟨hids, ?_, ?_⟩
  · intro b hb c hc hlog
    rw [List.mem_filter, decide_eq_true_eq] at hb
    rcases List.mem_append.mp hlog with hold | hnew
    · exact h.held b hb.1 c hc hold
    · exact (h.ids.apart b hb.1 (i, o) hbound hb.2).releases c hc hnew
  · intro c hc r hr
    rcases List.mem_append.mp hc with hold | hnew
    · rcases h.ledger c hold r hr with hreleased | ⟨b, hb, hrb⟩
      · exact .inl (List.mem_append_left _ hreleased)
      · by_cases hi : b.1 = i
        · have hsame : b.2 = o := by
            rw [howned]
            exact h.ids.last_self b hb (by rw [hlast, hi])
          exact .inl (List.mem_append_right _ (hsame ▸ hrb))
        · exact .inr ⟨b, List.mem_filter.mpr ⟨hb, decide_eq_true hi⟩, hrb⟩
    · -- a release allocates nothing
      simp only [releases, List.mem_cons, List.not_mem_nil, or_false] at hnew
      rcases hnew with rfl | rfl | rfl | rfl | rfl <;> cases hr

/-- One disconnect releases its own objects exactly if its interface was probed last. -/
theorem disconnect_owned {s : Bus} (h : LedgerInv s) {i : Nat} {o : Owned}
    (hbound : (i, o) ∈ s.bound) :
    ReleasesOwn s (.disconnect i) ↔ LastProbed s (.disconnect i) := by
  rw [ReleasesOwn, LastProbed]
  simp only [step, disconnect_eq, List.append_cancel_left_eq]
  constructor
  · intro ⟨o', hbound', hreleases, _⟩
    by_contra hlast
    have hurb : s.mouse.owned.urb = o'.urb := by
      rw [releases, releases, List.cons.injEq, KernelCall.killUrb.injEq] at hreleases
      exact hreleases.1
    exact (h.ids.last_other (i, o') hbound' hlast).urb hurb.symm
  · intro hlast
    have howned : o = s.mouse.owned := h.ids.last_self (i, o) hbound hlast
    refine ⟨o, hbound, by rw [howned], h.held (i, o) hbound, fun b hb hne => ?_⟩
    exact (h.ids.apart b hb (i, o) hbound hne).releases

/-! ### Runs -/

/-- In the beginning nothing is owned. -/
theorem ledgerInv_init : LedgerInv Bus.init where
  ids := {
    next_pos := Nat.one_pos
    logged := fun _ hc => nomatch hc
    below := fun _ hb => nomatch hb
    owned_below := ⟨Nat.one_pos, Nat.one_pos, Nat.one_pos⟩
    apart := fun _ hb => nomatch hb
    last_self := fun _ hb => nomatch hb
    last_other := fun _ hb => nomatch hb }
  held := fun _ hb => nomatch hb
  ledger := fun _ hc => nomatch hc

/-- A step keeps the ledger, if a disconnect is of the device that was probed last. -/
theorem step_ledgerInv (s : Bus) (op : Op) (h : LedgerInv s) (hposs : op.Possible s)
    (hlast : LastProbed s op) : LedgerInv (step s op) := by
  cases op with
  | probe i wMaxPacketSize => exact probe_ledgerInv h i wMaxPacketSize hposs
  | disconnect i =>
    obtain ⟨o, hbound⟩ := hposs
    exact disconnect_ledgerInv h hbound hlast

/-- For every interleaving of successful probes and disconnects of any number of interfaces:
    every disconnect releases exactly what the probe of its interface allocated, and nothing
    is left allocated when no interface is bound, iff at every disconnect its interface is
    the one that was probed last. -/
theorem owned_iff (ops : List Op)
    (hposs : Run.Guarded step (fun s op => op.Possible s) Bus.init ops) :
    (Run.Guarded step ReleasesOwn Bus.init ops ∧
      ∀ pre post, ops = pre ++ post → (run pre).bound = [] → AllReleased (run pre).mouse.log) ↔
      Run.Guarded step LastProbed Bus.init ops := by
  have hstep : ∀ s op, LedgerInv s → Op.Possible s op →
      (ReleasesOwn s op ↔ LastProbed s op) ∧ (LastProbed s op → LedgerInv (step s op)) := by
    intro s op h hop
    refine ⟨?_, step_ledgerInv s op h hop⟩
    cases op with
    | probe i wMaxPacketSize => exact Iff.rfl
    | disconnect i =>
      obtain ⟨o, hbound⟩ := hop
      exact disconnect_owned h hbound
  have hguards := Run.guarded_congr hstep ledgerInv_init hposs
  -- what is left: with no interface bound, all that was ever taken is given back
  rw [hguards, and_iff_left_iff_imp]
  intro hlast pre post heq hnone c hc r hr
  rw [heq] at hposs hlast
  have hpre := (Run.guarded_append.mp hposs).1.and (Run.guarded_append.mp hlast).1
  have hkept : ∀ s op, LedgerInv s → Op.Possible s op ∧ LastProbed s op →
      LedgerInv (step s op) := fun s op h hg => step_ledgerInv s op h hg.1 hg.2
  have hinv := Run.foldl_of_guarded hkept ledgerInv_init hpre
  rcases hinv.ledger c hc r hr with hreleased | ⟨b, hb, -⟩
  · exact hreleased
  · rw [show (pre.foldl step Bus.init).bound = [] from hnone] at hb
    cases hb

/-- One mouse after the other. -/
theorem owned_iff_sequential :
    (Run.Guarded step ReleasesOwn Bus.init [.probe 1 4, .disconnect 1, .probe 2 8, .disconnect 2] ∧
      ∀ pre post, [.probe 1 4, .disconnect 1, .probe 2 8, .disconnect 2] = pre ++ post →
        (run pre).bound = [] → AllReleased (run pre).mouse.log) ↔
      Run.Guarded step LastProbed Bus.init
        [.probe 1 4, .disconnect 1, .probe 2 8, .disconnect 2] :=
  owned_iff _ (by simp [Run.Guarded, Op.Possible, step, Bus.init])

/-- Two mice are plugged in, and the first one is unplugged: the objects of the second one
    are released. -/
theorem owned_fails_two :
    ¬ ∀ ops, Run.Guarded step (fun s op => op.Possible s) Bus.init ops →
      Run.Guarded step ReleasesOwn Bus.init ops := by
  intro h
  have hown := h [.probe 1 4, .probe 2 4, .disconnect 1]
    (by simp [Run.Guarded, Op.Possible, step, Bus.init])
  obtain ⟨o, hbound, hreleases, -⟩ := hown.2.2.1
  change (1, o) ∈ [(2, ⟨4, 4, 5, 6⟩), (1, ⟨1, 4, 2, 3⟩)] at hbound
  have ho : o = ⟨1, 4, 2, 3⟩ := by simpa using hbound
  rw [ho] at hreleases
  exact absurd hreleases (by decide)

end UsbmouseKey
