import DriverLearn.Spec.At24Attempts
import DriverLearn.Spec.At24Ledger
import DriverLearn.Spec.At24Writes

/-!
# The client table of the EEPROM

`at24_probe` allocates one entry for each 256 bytes of the chip, rounded up in 32 bits. A
size of 0 gives no entry at all, but entry 0 is written by the probe and used by every read
and write; and a size within 255 bytes of 2^32 wraps to 0.

## Key results

- `at24Probe_inv`, `unregisterDummies_inv`: the indices of probe and remove
- `read_below`, `write_below`: those of a read and a write
- `table_iff`: the exact condition on the size
-/

namespace At24

open Loop Word

variable {σ : Type}

/-- All indices are inside a table of `n` entries. -/
def Below (n : Nat) (is : List Nat) : Prop := ∀ i ∈ is, i < n

/-- No index is used at all. -/
theorem below_nil (n : Nat) : Below n [] := fun _ h => absurd h List.not_mem_nil

/-- One index more. -/
theorem Below.concat {n i : Nat} {is : List Nat} (h : Below n is) (hi : i < n) :
    Below n (is ++ [i]) := by
  intro j hj
  rcases List.mem_append.mp hj with hold | hnew
  · exact h j hold
  · exact List.mem_singleton.mp hnew ▸ hi

/-! ### Probe and remove -/

section

variable {k : At24Kernel σ} {w : World σ} {client : Nat → Option Client} {n i : Nat}
  {P : List Nat → Prop}

/-- The rule for the table: what a use of an entry below `n` preserves, the loops preserve. -/
theorem unregisterDummies_inv (huse : ∀ is, ∀ i < n, P is → P (is ++ [i])) (h : P w.indices) :
    P (unregisterDummies k n client i w).indices := by
  fun_induction unregisterDummies k n client i w with
  | case1 i w hi w' hnone ih => exact ih (huse _ i hi h)
  | case2 i w hi w' c hsome w'' ih => exact ih (huse _ i hi (huse _ i hi h))
  | case3 i w hi => exact h

/-- The dummy clients use the indices from 1 on. -/
theorem newDummies_inv (huse : ∀ is, ∀ i < n, P is → P (is ++ [i])) {addr : Nat}
    (h : P w.indices) : P (newDummies k n addr i client w).2.2.indices := by
  fun_induction newDummies k n addr i client w with
  | case1 i client w hi s w' hnone client' => exact huse _ i hi (huse _ i hi h)
  | case2 i client w hi s w' c hsome client' ih => exact ih (huse _ i hi (huse _ i hi h))
  | case3 i client w hi => exact h

/-- Behind the loop only the labels use the table, where they go through it once more. -/
theorem createCharDev_inv {at24 : At24Data}
    (huse : ∀ is, ∀ i < at24.numAddresses, P is → P (is ++ [i])) (h : P w.indices) :
    P (createCharDev k at24 client w).2.indices := by
  rcases createCharDev_cases k at24 client w with ⟨err, s, -, heq⟩ |
    ⟨dev, s, s', -, heq⟩ | ⟨dev, devP, s, -, heq⟩ | ⟨dev, s, heq⟩
  · rw [heq]
    exact unregisterDummies_inv huse h
  · rw [heq]
    exact unregisterDummies_inv huse h
  · rw [heq]
    exact unregisterDummies_inv huse h
  · rw [heq]
    exact h

/-- All clients use index 0 and those. -/
theorem createClients_inv {at24 : At24Data} {self : Client} {addr : Nat}
    (huse : ∀ is, ∀ i < at24.numAddresses, P is → P (is ++ [i])) (h : P (w.indices ++ [0])) :
    P (createClients k at24 self addr w).2.indices := by
  rw [createClients]
  rcases hdummies : newDummies k at24.numAddresses addr 1
    (Function.update (fun _ => none) 0 (some self)) (w.use 0) with ⟨created, client, w'⟩
  have hnew : P (created, client, w').2.2.indices := by
    rw [← hdummies]
    exact newDummies_inv huse h
  cases created with
  | false => exact unregisterDummies_inv huse hnew
  | true => exact createCharDev_inv huse hnew

/-- Once there is memory entry 0 is used, whatever the size of the table. -/
theorem at24Probe_inv {platformData : Option At24PlatformData} {driverData : Nat}
    {at24 : At24Data} (hchip : at24ProbeChip platformData driverData = .ok at24)
    (huse : ∀ is, ∀ i < at24.numAddresses, P is → P (is ++ [i])) {s : σ}
    (hnone : (k.devmKzalloc s at24.numAddresses).1 = false → P []) (hzero : P [0])
    (self addr : Nat) :
    P (at24Probe k platformData driverData self addr (World.init s)).2.indices := by
  rcases halloc : k.devmKzalloc s at24.numAddresses with ⟨allocated, s'⟩
  rw [halloc] at hnone
  simp only [at24Probe, hchip, World.init, halloc]
  cases allocated with
  | false => exact hnone rfl
  | true => exact createClients_inv huse hzero

end

/-! ### Reads and writes -/

/-- The same functions, with a record of the entries whose client they were given. -/
def recordClients (env : At24Env σ) : At24Env (σ × List Nat) where
  kmalloc s size := ((env.kmalloc s.1 size).1, (env.kmalloc s.1 size).2, s.2)
  readBlock s client command len tmp :=
    let (r, tmp, t) := env.readBlock s.1 client command len tmp
    (r, tmp, t, s.2 ++ [client])
  writeByteData s client command value :=
    let (r, t) := env.writeByteData s.1 client command value
    (r, t, s.2 ++ [client])
  copyToUser s off tmp len :=
    ((env.copyToUser s.1 off tmp len).1, (env.copyToUser s.1 off tmp len).2, s.2)
  copyFromUser s off :=
    ((env.copyFromUser s.1 off).1, (env.copyFromUser s.1 off).2.1,
      (env.copyFromUser s.1 off).2.2, s.2)

section

variable {n : Nat} {env : At24Env σ} {at24 : At24Data} {pageSize count : Nat} {fPos : Int} {s : σ}
  {x y : Attempt (σ × List Nat)}

/-- An attempt at a read uses one index of the table. -/
theorem after_below (hpos : 0 < n) (h : Below n x.s.2) :
    Below n (x.after (recordClients env)).2 :=
  h.concat hpos

/-- So do the attempts so far and the next one. -/
theorem turn_below (hpos : 0 < n) (h : Below n x.s.2)
    (hturn : turn (recordClients env) pageSize count fPos x = .inl y) : Below n y.s.2 := by
  have hafter : Below n (x.after (recordClients env)).2 := after_below hpos h
  obtain ⟨-, -, rfl⟩ | ⟨-, -, -, rfl⟩ := turn_inl hturn
  · exact hafter
  · exact hafter

/-- A read begins with no index used. -/
theorem start_records (h : start (recordClients env) at24 fPos count (s, []) = some x) :
    x.s.2 = [] := by
  obtain ⟨-, tmp, rfl⟩ := start_behind_kmalloc h
  rfl

/-- A read uses entry 0, however often it calls and whether or not it ends. -/
theorem read_below (hpos : 0 < n) (h : Attempted (recordClients env) at24 fPos count (s, []) x) :
    Below n (x.after (recordClients env)).2 := by
  obtain ⟨x₀, hstart, hreach⟩ := h
  apply after_below hpos
  apply hreach.inv (fun _ _ _ hy hturn => turn_below hpos hy hturn)
  rw [start_records hstart]
  exact below_nil n

/-- A write uses the indices of its bytes' clients. -/
theorem write_below (env : At24Env σ) (fPos : Int) (count : Nat) (s : σ) (hpos : 0 < n) :
    Below n (at24Write (recordClients env) fPos count (s, [])).2.2.2 := by
  have hwrite : ∀ (t : σ × List Nat) command value, Below n t.2 →
      Below n ((recordClients env).writeByteData t 0 command value).2.2 :=
    fun t command value h => h.concat hpos
  exact at24WriteLoop_inv (P := fun t : σ × List Nat => Below n t.2) hwrite (fun t off h => h)
    fPos count 0 (below_nil n)

end

/-! ### The size of the table -/

/-- The law for the table of `at24`, which the probe has accepted: whatever is called in the
    kernel and on the bus, all entries used are inside it, and each offset of the chip has
    a client. -/
structure TableFits (platformData : Option At24PlatformData) (driverData : Nat)
    (at24 : At24Data) : Prop where
  probe : ∀ {σ : Type} (k : At24Kernel σ) (self : Client) (addr : Nat) (s : σ),
    Below at24.numAddresses
      (at24Probe k platformData driverData self addr (World.init s)).2.indices
  remove : ∀ {σ : Type} (k : At24Kernel σ) (client : Nat → Option Client) (cdevDev : DevT)
    (s : σ), Below at24.numAddresses
      (at24Remove k { at24 with client, cdevDev } (World.init s)).indices
  read : ∀ {σ : Type} (env : At24Env σ) (fPos : Int) (count : Nat) (s : σ)
    (x : Attempt (σ × List Nat)), Attempted (recordClients env) at24 fPos count (s, []) x →
      Below at24.numAddresses (x.after (recordClients env)).2
  write : ∀ {σ : Type} (env : At24Env σ) (fPos : Int) (count : Nat) (s : σ),
    Below at24.numAddresses (at24Write (recordClients env) fPos count (s, [])).2.2.2
  covers : at24.chip.byteLen ≤ at24.numAddresses * 256
  client_of : ∀ off < at24.chip.byteLen, off / 256 < at24.numAddresses

variable {platformData : Option At24PlatformData} {driverData : Nat} {at24 : At24Data}

/-- The table covers the device just if the rounding neither wraps nor gives 0. -/
theorem numAddresses_fits {at24 : At24Data}
    (h : at24.numAddresses = toU32 (at24.chip.byteLen + 255) / 256) :
    0 < at24.numAddresses ∧ at24.chip.byteLen ≤ at24.numAddresses * 256 ↔
      1 ≤ at24.chip.byteLen ∧ at24.chip.byteLen ≤ 4294967040 := by
  have hlt := at24.chip.byteLen_lt
  rw [h, toU32]
  omega

/-- A table with an entry that covers the device fits. -/
theorem tableFits_of_pos (hchip : at24ProbeChip platformData driverData = .ok at24)
    (hpos : 0 < at24.numAddresses) (hcovers : at24.chip.byteLen ≤ at24.numAddresses * 256) :
    TableFits platformData driverData at24 where
  probe k self addr s :=
    at24Probe_inv hchip (fun _ _ hi h => h.concat hi) (fun _ => below_nil _)
      (Below.concat (below_nil _) hpos) self addr
  remove k client cdevDev s :=
    unregisterDummies_inv (fun _ _ hi h => Below.concat h hi) (below_nil _)
  read env fPos count s x h := read_below hpos h
  write env fPos count s := write_below env fPos count s hpos
  covers := hcovers
  client_of off hoff := by omega

/-- The probe alone uses entry 0, as soon as there is memory. -/
theorem TableFits.pos (h : TableFits platformData driverData at24)
    (hchip : at24ProbeChip platformData driverData = .ok at24) : 0 < at24.numAddresses := by
  have hused : 0 ∈ (at24Probe noDeviceKernel platformData driverData 0 0
      (World.init ())).2.indices :=
    at24Probe_inv (P := fun is => 0 ∈ is) hchip (fun _ _ _ h => List.mem_append_left _ h)
      (fun h => absurd h Bool.true_eq_false.mp) List.mem_cons_self 0 0
  exact h.probe noDeviceKernel 0 0 () 0 hused

/-- For all platform data and device ids: what the probe accepts fits its table iff the size
    is not 0 and does not wrap when it is rounded up. -/
theorem table_iff (platformData : Option At24PlatformData) (driverData : Nat) :
    (∀ at24, at24ProbeChip platformData driverData = .ok at24 →
        TableFits platformData driverData at24) ↔
      (probeChip platformData driverData).pageSize = 0 ∨
        1 ≤ (probeChip platformData driverData).byteLen ∧
          (probeChip platformData driverData).byteLen ≤ 4294967040 := by
  obtain ⟨hpage, hchip⟩ | ⟨hpage, at24, hchip, hbytes, hnum⟩ :=
    at24ProbeChip_cases platformData driverData
  · simp only [hchip, hpage, reduceCtorEq, false_implies, implies_true, true_or]
  · rw [← hbytes] at hpage ⊢
    rw [← numAddresses_fits hnum]
    constructor
    · intro h
      have hfits := h at24 hchip
      exact .inr ⟨hfits.pos hchip, hfits.covers⟩
    · intro h at24' hchip'
      obtain ⟨hpos, hcovers⟩ := h.resolve_left hpage
      obtain rfl := Except.ok.inj (hchip.symm.trans hchip')
      exact tableFits_of_pos hchip hpos hcovers

/-- Platform data with a size of 0 are accepted, and the probe writes an entry of a table
    that has none. -/
theorem table_fails_empty :
    ¬ ∀ platformData driverData at24, at24ProbeChip platformData driverData = .ok at24 →
      TableFits platformData driverData at24 := by
  intro h
  have hfits := h (some ⟨0, 8, by decide, by decide⟩) 0 ⟨⟨0, 8, by decide, by decide⟩, 0⟩ rfl
  exact absurd (hfits.pos rfl) (Nat.lt_irrefl 0)

end At24
