import DriverLearn.ForStd.List
import DriverLearn.Native.At24Probe

/-!
# What a probe acquires and releases

A probe that fails has released what it had acquired, whichever call failed, and one that
succeeds holds the memory of `at24`, all dummy clients, the region, the char device and the
device. `at24_remove` releases these but for the memory, which the driver core frees.

## Key results

- `newDummies_holds`, `unregisterDummies_holds`: the two loops
- `probe_settled`: probe and remove
-/

namespace At24

open Ledger Word

variable {σ : Type} {k : At24Kernel σ} {w : World σ} {held : Multiset Resource}
  {client : Nat → Option Client} {n : Nat}

/-- Everything released was held when it was, and `held` is held now. -/
def Holds (w : World σ) (held : Multiset Resource) : Prop := settle 0 w.ledger = some held

/-- A resource taken is held. -/
theorem Holds.acquire (h : Holds w held) (r : Resource) : Holds (w.acquire r) (r ::ₘ held) :=
  settle_take h

/-- A resource that is held can be given back. -/
theorem Holds.release {r : Resource} (h : Holds w (r ::ₘ held)) : Holds (w.release r) held :=
  settle_give h

/-- How the registration of the char device ends: at one of its three calls, or with all
    that they acquire. -/
theorem createCharDev_cases (k : At24Kernel σ) (at24 : At24Data)
    (client : Nat → Option Client) (w : World σ) :
    (∃ err s, err < 0 ∧ createCharDev k at24 client w =
      (.error err, errClients k at24.numAddresses client { w with s })) ∨
    (∃ dev s s', (k.cdevAdd s dev).1 ≠ 0 ∧ createCharDev k at24 client w =
      (.error (k.cdevAdd s dev).1, errCdevAdd k at24.numAddresses client dev
        ({ w with s := s' }.acquire (.region dev)))) ∨
    (∃ dev devP s, isErr devP ∧ createCharDev k at24 client w =
      (.error (ptrErr devP), errDeviceCreate k at24.numAddresses client dev
        (({ w with s }.acquire (.region dev)).acquire .cdev))) ∨
    (∃ dev s, createCharDev k at24 client w =
      (.ok { at24 with client, cdevDev := dev },
        (({ w with s }.acquire (.region dev)).acquire .cdev).acquire (.device dev))) := by
  rcases halloc : k.allocChrdevRegion w.s with ⟨err, dev, s⟩
  rcases hadd : k.cdevAdd s dev with ⟨err', s'⟩
  rcases hcreate : k.deviceCreate s' dev with ⟨devP, s''⟩
  simp only [createCharDev, halloc, World.acquire, hadd, hcreate]
  by_cases herr : err < 0
  · exact .inl ⟨err, s, herr, if_pos herr⟩
  rw [if_neg herr]
  by_cases herr' : err' ≠ 0
  · rw [if_pos herr']
    exact .inr (.inl ⟨dev, s, s', by rwa [hadd], by rw [hadd]⟩)
  rw [if_neg herr']
  by_cases hp : isErr devP
  · exact .inr (.inr (.inl ⟨dev, devP, s'', hp, if_pos hp⟩))
  · exact .inr (.inr (.inr ⟨dev, s'', if_neg hp⟩))

/-! ### Dummy clients -/

/-- The clients in the entries `is`. -/
def dummies (client : Nat → Option Client) (is : List Nat) : Multiset Resource :=
  ((is.filterMap client : List Client) : Multiset Client).map .dummy

/-- An index without a client adds nothing. -/
theorem dummies_cons_none {i : Nat} {is : List Nat} (h : client i = none) :
    dummies client (i :: is) = dummies client is := by
  rw [dummies, List.filterMap_cons_none h, dummies]

/-- An index with a client adds it. -/
theorem dummies_cons_some {i : Nat} {is : List Nat} {c : Client} (h : client i = some c) :
    dummies client (i :: is) = .dummy c ::ₘ dummies client is := by
  rw [dummies, List.filterMap_cons_some h, ← Multiset.cons_coe, Multiset.map_cons, dummies]

/-- A new client in a free place is one more. -/
theorem dummies_update {i : Nat} {is : List Nat} {c : Client} (hnodup : is.Nodup) (hi : i ∈ is)
    (h : client i = none) :
    dummies (Function.update client i (some c)) is = .dummy c ::ₘ dummies client is := by
  have hperm := List.filterMap_update_perm hnodup hi h c
  rw [dummies, Multiset.coe_eq_coe.mpr hperm, ← Multiset.cons_coe, Multiset.map_cons, dummies]

/-- Without clients nothing is held. -/
theorem dummies_eq_zero {is : List Nat} (h : ∀ i ∈ is, client i = none) :
    dummies client is = 0 := by
  rw [dummies, List.filterMap_eq_nil_iff.mpr h, Multiset.coe_nil, Multiset.map_zero]

/-- As many are held as there are indices with a client. -/
theorem card_dummies {is : List Nat} (h : ∀ i ∈ is, (client i).isSome) :
    (dummies client is).card = is.length := by
  rw [dummies, Multiset.card_map, Multiset.coe_card, List.filterMap_length_eq_length.mpr h]

/-- The indices from `i` on, the first one apart. -/
theorem range'_sub {i : Nat} (h : i < n) :
    List.range' i (n - i) = i :: List.range' (i + 1) (n - (i + 1)) := by
  rw [show n - i = n - (i + 1) + 1 by omega, List.range'_succ]

/-- The loop releases the clients that are in the table. -/
theorem unregisterDummies_holds (i : Nat)
    (h : Holds w (dummies client (List.range' i (n - i)) + held)) :
    Holds (unregisterDummies k n client i w) held := by
  fun_induction unregisterDummies k n client i w with
  | case1 i w hi w' hnone ih =>
    rw [range'_sub hi, dummies_cons_none hnone] at h
    exact ih h
  | case2 i w hi w' c hsome w'' ih =>
    rw [range'_sub hi, dummies_cons_some hsome, Multiset.cons_add] at h
    exact ih (Holds.release h)
  | case3 i w hi =>
    rw [Nat.sub_eq_zero_of_le (Nat.le_of_not_lt hi)] at h
    rwa [dummies, List.range'_zero, List.filterMap_nil, Multiset.coe_nil, Multiset.map_zero,
      Multiset.zero_add] at h

/-- Each new client is held, and a failure leaves its entry NULL. -/
theorem newDummies_holds (addr : Nat) {i : Nat} (hi : 1 ≤ i) (hfree : ∀ j ≥ i, client j = none)
    (h : Holds w (dummies client (List.range' 1 (n - 1)) + held)) :
    Holds (newDummies k n addr i client w).2.2
      (dummies (newDummies k n addr i client w).2.1 (List.range' 1 (n - 1)) + held) := by
  fun_induction newDummies k n addr i client w with
  | case1 i client w hlt s w' hnone client' =>
    have hclient : client' = client := by
      rw [← Function.update_eq_self i client, hfree i (Nat.le_refl i)]
    rw [hclient]
    exact h
  | case2 i client w hlt s w' c hsome client' ih =>
    have hmem : i ∈ List.range' 1 (n - 1) := List.mem_range'_1.mpr (by omega)
    apply ih (by omega)
    · intro j hj
      exact (Function.update_of_ne (by omega) _ _).trans (hfree j (by omega))
    · rw [dummies_update List.nodup_range' hmem (hfree i (Nat.le_refl i)), Multiset.cons_add]
      exact Holds.acquire h (.dummy c)
  | case3 i client w hge => exact h

/-- If no call has failed every entry is filled. -/
theorem newDummies_filled {addr i : Nat} (hprev : ∀ j, 1 ≤ j → j < i → (client j).isSome)
    (hok : (newDummies k n addr i client w).1 = true) {j : Nat} (hj : 1 ≤ j) (hjn : j < n) :
    ((newDummies k n addr i client w).2.1 j).isSome := by
  fun_induction newDummies k n addr i client w with
  | case1 => exact absurd hok Bool.false_ne_true
  | case2 i client w hlt s w' c hsome client' ih =>
    refine ih (fun j hj hji => ?_) hok
    by_cases hlast : j = i
    · subst hlast
      exact (congrArg Option.isSome (Function.update_self j (some c) client)).trans rfl
    · exact (congrArg Option.isSome (Function.update_of_ne hlast (some c) client)).trans
        (hprev j hj (by omega))
  | case3 i client w hge => exact hprev j hj (by omega)

/-! ### The labels -/

/-- The label `err_clients` gives back the clients and the memory. -/
theorem errClients_holds (h : Holds w (dummies client (List.range' 1 (n - 1)) + {.memory})) :
    Holds (errClients k n client w) 0 :=
  Holds.release (unregisterDummies_holds 1 h)

/-- The label behind a failed `cdev_add` gives back the region too. -/
theorem errCdevAdd_holds {dev : DevT}
    (h : Holds w (.region dev ::ₘ (dummies client (List.range' 1 (n - 1)) + {.memory}))) :
    Holds (errCdevAdd k n client dev w) 0 :=
  errClients_holds (Holds.release h)

/-- The label behind a failed `device_create` gives back the cdev too. -/
theorem errDeviceCreate_holds {dev : DevT}
    (h : Holds w (.cdev ::ₘ .region dev ::ₘ
      (dummies client (List.range' 1 (n - 1)) + {.memory}))) :
    Holds (errDeviceCreate k n client dev w) 0 :=
  errCdevAdd_holds (Holds.release h)

/-- An error pointer is a negative error. -/
theorem ptrErr_neg {p : BitVec 32} (h : isErr p) : ptrErr p < 0 := by
  have hle : (BitVec.ofInt 32 (-4095)).toNat ≤ p.toNat := BitVec.le_def.mp (of_decide_eq_true h)
  have hlt := p.isLt
  have hnat : (BitVec.ofInt 32 (-4095)).toNat = 4294963201 := rfl
  rw [ptrErr, BitVec.toInt_eq_toNat_cond, if_neg (by omega)]
  omega

/-! ### Probe and remove -/

/-- What the probe that has filled `client` acquired. -/
def acquired (at24 : At24Device) : Multiset Resource :=
  .device at24.cdevDev ::ₘ .cdev ::ₘ .region at24.cdevDev ::ₘ
    (dummies at24.client (List.range' 1 (at24.numAddresses - 1)) + {.memory})

/-- The law behind `at24_probe`, with the chip it works with: it returns a negative error
    with nothing held, or what it holds are the device, the char device, its region, one
    dummy client for each address but the first and the memory; and whatever the kernel has
    become in the meantime, `at24_remove` releases everything but the memory. -/
def Settled (k : At24Kernel σ) (chip : Except Int At24Data) :
    Except Int At24Device × World σ → Prop
  | (.error err, w) => err < 0 ∧ Holds w 0
  | (.ok at24, w) => chip = .ok at24.toAt24Data ∧ Holds w (acquired at24) ∧
      (dummies at24.client (List.range' 1 (at24.numAddresses - 1))).card =
        at24.numAddresses - 1 ∧
      ∀ s, Holds (at24Remove k at24 { w with s }) {.memory}

/-- `at24_remove` gives back all but the memory, which is managed. -/
theorem at24Remove_holds {at24 : At24Device} (h : Holds w (acquired at24)) :
    Holds (at24Remove k at24 w) {.memory} :=
  unregisterDummies_holds 1 (Holds.release (Holds.release (Holds.release h)))

/-- The steps from the region of device numbers on. -/
theorem createCharDev_settled {at24 : At24Data} (hcdev : ∀ s dev, (k.cdevAdd s dev).1 ≤ 0)
    (hcard : (dummies client (List.range' 1 (at24.numAddresses - 1))).card =
      at24.numAddresses - 1)
    (h : Holds w (dummies client (List.range' 1 (at24.numAddresses - 1)) + {.memory})) :
    Settled k (.ok at24) (createCharDev k at24 client w) := by
  rcases createCharDev_cases k at24 client w with ⟨err, s, herr, heq⟩ |
    ⟨dev, s, s', hne, heq⟩ | ⟨dev, devP, s, hp, heq⟩ | ⟨dev, s, heq⟩
  · rw [heq]
    exact ⟨herr, errClients_holds h⟩
  · rw [heq]
    have hle := hcdev s dev
    have hregion := Holds.acquire h (.region dev)
    exact ⟨by omega, errCdevAdd_holds hregion⟩
  · rw [heq]
    have hcdev := Holds.acquire (Holds.acquire h (.region dev)) .cdev
    exact ⟨ptrErr_neg hp, errDeviceCreate_holds hcdev⟩
  · rw [heq]
    have hdevice := ((Holds.acquire h (.region dev)).acquire .cdev).acquire (.device dev)
    exact ⟨rfl, hdevice, hcard, fun s => at24Remove_holds hdevice⟩

/-- The table of the probe in front of the loop: the probed client itself is no dummy. -/
theorem table_free (self : Client) {j : Nat} (hj : 1 ≤ j) :
    Function.update (fun _ => none) 0 (some self) j = none :=
  Function.update_of_ne (Nat.ne_of_gt hj) _ _

/-- The steps from the clients on. -/
theorem createClients_settled {at24 : At24Data} (hcdev : ∀ s dev, (k.cdevAdd s dev).1 ≤ 0)
    (self : Client) (addr : Nat) (h : Holds w {.memory}) :
    Settled k (.ok at24) (createClients k at24 self addr w) := by
  have hempty : dummies (Function.update (fun _ => none) 0 (some self))
      (List.range' 1 (at24.numAddresses - 1)) = 0 :=
    dummies_eq_zero fun i hi => table_free self (List.mem_range'_1.mp hi).1
  have hheld : Holds (w.use 0) (dummies (Function.update (fun _ => none) 0 (some self))
      (List.range' 1 (at24.numAddresses - 1)) + {.memory}) := by
    rw [hempty, Multiset.zero_add]
    exact h
  rw [createClients]
  rcases hdummies : newDummies k at24.numAddresses addr 1
    (Function.update (fun _ => none) 0 (some self)) (w.use 0) with ⟨created, client, w'⟩
  have hnew : Holds w' (dummies client (List.range' 1 (at24.numAddresses - 1)) + {.memory}) := by
    have h := newDummies_holds (k := k) addr (Nat.le_refl 1) (fun j hj => table_free self hj) hheld
    rwa [hdummies] at h
  -- an error gives back the clients made so far, and the memory
  cases created with
  | false => exact ⟨by decide, errClients_holds hnew⟩
  | true =>
    refine createCharDev_settled hcdev ?_ hnew
    rw [card_dummies, List.length_range']
    intro i hi
    have hrange := List.mem_range'_1.mp hi
    have h := newDummies_filled (fun j hj hlt => absurd hlt (Nat.not_lt.mpr hj))
      (congrArg Prod.fst hdummies) hrange.1 (j := i) (by omega)
    rwa [hdummies] at h

/-- Platform data with a page size of 0 are rejected, all others accepted. -/
theorem at24ProbeChip_cases (platformData : Option At24PlatformData) (driverData : Nat) :
    (probeChip platformData driverData).pageSize = 0 ∧
        at24ProbeChip platformData driverData = .error eInval ∨
      (probeChip platformData driverData).pageSize ≠ 0 ∧
        ∃ at24, at24ProbeChip platformData driverData = .ok at24 ∧
          at24.chip = probeChip platformData driverData ∧
          at24.numAddresses = toU32 (at24.chip.byteLen + 255) / 256 := by
  rw [at24ProbeChip]
  by_cases hpage : (probeChip platformData driverData).pageSize = 0
  · exact .inl ⟨hpage, if_pos hpage⟩
  · exact .inr ⟨hpage, _, if_neg hpage, rfl, rfl⟩

/-- Every probe, whatever the kernel functions return: `cdev_add` is documented to return 0
    or a negative error. -/
theorem probe_settled (k : At24Kernel σ) (hcdev : ∀ s dev, (k.cdevAdd s dev).1 ≤ 0)
    (platformData : Option At24PlatformData) (driverData : Nat) (self : Client) (addr : Nat)
    (s : σ) :
    Settled k (at24ProbeChip platformData driverData)
      (at24Probe k platformData driverData self addr (World.init s)) := by
  rw [at24Probe]
  obtain ⟨-, hchip⟩ | ⟨-, at24, hchip, -, -⟩ := at24ProbeChip_cases platformData driverData
  · rw [hchip]
    exact ⟨by decide, settle_nil⟩
  · rw [hchip]
    rcases halloc : k.devmKzalloc s at24.numAddresses with ⟨allocated, s'⟩
    simp only [World.init, halloc]
    cases allocated with
    | false => exact ⟨by decide, settle_nil⟩
    | true => exact createClients_settled hcdev self addr (settle_take settle_nil)

/-- A kernel that has everything but a device: `device_create` returns `-ENOMEM`. -/
def noDeviceKernel : At24Kernel Unit where
  devmKzalloc s _ := (true, s)
  devmKfree s := s
  i2cNewDummy s addr := (some addr, s)
  i2cUnregisterDevice s _ := s
  allocChrdevRegion s := (0, 240, s)
  unregisterChrdevRegion s _ := s
  cdevAdd s _ := (0, s)
  cdevDel s := s
  deviceCreate s _ := (BitVec.ofInt 32 (-12), s)
  deviceDestroy s _ := s

/-- A chip of four pages of 256 bytes. -/
theorem probe_settled_noDevice :
    Settled noDeviceKernel (at24ProbeChip (some ⟨1024, 16, by decide, by decide⟩) 0)
      (at24Probe noDeviceKernel (some ⟨1024, 16, by decide, by decide⟩) 0 7 0x50
        (World.init ())) :=
  probe_settled noDeviceKernel (fun _ _ => Int.le_refl 0) _ 0 7 0x50 ()

end At24
