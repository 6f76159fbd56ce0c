import DriverLearn.Spec.At24RoundTrip

/-!
# What an EEPROM write stores and reports

A `Pattern` says of each byte of a write whether its copy from the user faults and which
of its attempts fail. It decides how many bytes `at24_write` stores, and whether the call
accounts for them and stays inside the device.

## Key results

- `at24Write_stores`: the bytes in front of the first one that does not get through are
  stored, and the call reports all of them or an error
- `accounts_iff`: the exact condition for the account to be right
- `staysInside_iff`: the exact condition for the write to stay inside the device
-/

namespace At24

open Memory Word

/-! ### Patterns of failures -/

/-- What `copy_from_user` leaves of byte `i`, and the result of attempt `a` at storing it. -/
structure Pattern where
  left : Nat → Nat
  result : Nat → Nat → Int

/-- The byte gets through: it is copied, and one of its six attempts succeeds. -/
def Pattern.Delivers (pat : Pattern) (i : Nat) : Prop :=
  pat.left i = 0 ∧ ∃ a < 6, 0 ≤ pat.result i a

instance (pat : Pattern) (i : Nat) : Decidable (pat.Delivers i) :=
  inferInstanceAs (Decidable (pat.left i = 0 ∧ ∃ a < 6, 0 ≤ pat.result i a))

/-- The cells and the number of bytes stored, with the byte copied last and the attempts at
    it so far. -/
structure Session where
  cells : Nat → Byte
  stored : Nat
  off : Nat
  tries : Nat

/-- A call on the buffer `user` with the failures of the pattern. The command selects the
    cell, and a failed attempt stores nothing. -/
def patterned (user : Nat → Byte) (pat : Pattern) : At24Env Session where
  kmalloc s size := (some (List.replicate size 0), s)
  readBlock s _ _ _ tmp := (0, tmp, s)
  writeByteData s _ command value :=
    let r := pat.result s.off s.tries
    if r < 0 then
      (r, { s with tries := s.tries + 1 })
    else
      (r, { s with tries := s.tries + 1, stored := s.stored + 1
                   cells := Function.update s.cells command.toNat value })
  copyToUser s _ _ _ := (0, s)
  copyFromUser s off := (pat.left off, user off, { s with off := off, tries := 0 })

section

variable {user : Nat → Byte} {pat : Pattern} {fPos : Int} {base : Nat}

/-! ### One byte -/

/-- The command of a byte selects its cell modulo 256. -/
theorem command_toNat_of_mod (hbase : fPos % 256 = base % 256) (i : Nat) :
    (BitVec.ofInt 8 (fPos + toS32 i)).toNat = (base + i) % 256 := by
  rw [BitVec.toNat_ofInt]
  unfold toS32
  split <;> omega

/-- An attempt that is left succeeds: the byte is stored once. -/
theorem at24WriteRetry_delivers (user : Nat → Byte) (hbase : fPos % 256 = base % 256)
    (value : Byte) (s : Session) (hok : ∃ a < 6, s.tries ≤ a ∧ 0 ≤ pat.result s.off a) :
    ∃ ret t, at24WriteRetry (patterned user pat) fPos s.off value s.tries s = (ret, t) ∧ 0 ≤ ret ∧
      t.stored = s.stored + 1 ∧
      t.cells = Function.update s.cells ((base + s.off) % 256) value := by
  obtain ⟨a, ha, htries, hresult⟩ := hok
  rw [at24WriteRetry]
  by_cases hneg : pat.result s.off s.tries < 0
  · have hne : s.tries ≠ a := by
      rintro rfl
      omega
    simp only [patterned, hneg, ↓reduceIte, show s.tries < 5 by omega]
    exact at24WriteRetry_delivers user hbase value { s with tries := s.tries + 1 }
      ⟨a, ha, by simp only; omega, hresult⟩
  · simp only [patterned, hneg, ↓reduceIte, command_toNat_of_mod hbase]
    exact ⟨_, _, rfl, Int.not_lt.mp hneg, rfl, rfl⟩
termination_by 6 - s.tries

/-- No attempt that is left succeeds: nothing is stored. -/
theorem at24WriteRetry_fails (user : Nat → Byte) (fPos : Int) (value : Byte) (s : Session)
    (htries : s.tries ≤ 5)
    (hfail : ∀ a < 6, s.tries ≤ a → pat.result s.off a < 0) :
    ∃ ret t, at24WriteRetry (patterned user pat) fPos s.off value s.tries s = (ret, t) ∧ ret < 0 ∧
      t.stored = s.stored ∧ t.cells = s.cells := by
  have hneg := hfail s.tries (by omega) (Nat.le_refl _)
  rw [at24WriteRetry]
  by_cases herr : s.tries < 5
  · simp only [patterned, hneg, ↓reduceIte, herr]
    exact at24WriteRetry_fails user fPos value { s with tries := s.tries + 1 } herr
      fun a ha hle => hfail a ha (by simp only at hle; omega)
  · simp only [patterned, hneg, ↓reduceIte, herr]
    exact ⟨_, _, rfl, hneg, rfl, rfl⟩
termination_by 6 - s.tries

/-! ### The whole buffer -/

/-- From byte `i` on, byte `k` is the first one that does not get through. -/
structure Stops (pat : Pattern) (count i k : Nat) : Prop where
  le : i ≤ k
  le_count : k ≤ count
  delivers : ∀ j, i ≤ j → j < k → pat.Delivers j
  stop : k < count → ¬ pat.Delivers k

/-- From byte `i` on the loop stores the bytes in front of byte `k`, and returns an error
    unless they are all. -/
structure Stores (user : Nat → Byte) (pat : Pattern) (fPos : Int) (base count i k : Nat)
    (s : Session) (b : Int × Int × Session) : Prop where
  stops : Stops pat count i k
  stored : b.2.2.stored = s.stored + (k - i)
  cells : b.2.2.cells = aliasStore s.cells (base + i) (readBytes user i (k - i))
  complete : k = count → b.1 = toS32 count ∧ b.2.1 = fPos + toS32 count
  short : k < count → b.1 < 0 ∧ b.2.1 = fPos

/-- A byte that does not get through ends the write. -/
theorem Stores.nothing {count i : Nat} {s t : Session} {ret : Int} (hi : i < count)
    (hfail : ¬ pat.Delivers i) (hstored : t.stored = s.stored) (hcells : t.cells = s.cells)
    (hret : ret < 0) : Stores user pat fPos base count i i s (ret, fPos, t) where
  stops := ⟨Nat.le_refl i, Nat.le_of_lt hi, fun j hlo hhi => by omega, fun _ => hfail⟩
  stored := by rw [Nat.sub_self]; exact hstored
  cells := by rw [Nat.sub_self]; exact hcells
  complete h := by omega
  short _ := ⟨hret, rfl⟩

/-- A byte that gets through is stored in front of the others. -/
theorem Stores.next {count i k : Nat} {s t : Session} {b : Int × Int × Session}
    (hok : pat.Delivers i) (hstored : t.stored = s.stored + 1)
    (hcells : t.cells = Function.update s.cells ((base + i) % 256) (user i))
    (h : Stores user pat fPos base count (i + 1) k t b) :
    Stores user pat fPos base count i k s b where
  stops := by
    obtain ⟨hle, hcount, hdelivers, hstop⟩ := h.stops
    refine ⟨by omega, hcount, fun j hlo hhi => ?_, hstop⟩
    by_cases hj : j = i
    · exact hj ▸ hok
    · exact hdelivers j (by omega) hhi
  stored := by
    have hle := h.stops.le
    rw [h.stored, hstored]
    omega
  cells := by
    have hle := h.stops.le
    rw [h.cells, hcells, show k - i = k - (i + 1) + 1 by omega, readBytes_succ, aliasStore,
      Nat.add_assoc]
  complete := h.complete
  short := h.short

/-- The loop of `at24_write`, by induction on how many bytes are left. -/
theorem at24WriteLoop_stores (hbase : fPos % 256 = base % 256) {count : Nat} (i : Nat)
    (hi : i ≤ count) (s : Session) :
    ∃ k, Stores user pat fPos base count i k s
      (at24WriteLoop (patterned user pat) count fPos i s) := by
  have hcopy : (patterned user pat).copyFromUser s i =
      (pat.left i, user i, { s with off := i, tries := 0 }) := rfl
  rw [at24WriteLoop]
  by_cases hmore : i < count
  · rw [if_pos hmore]
    by_cases hleft : pat.left i = 0
    · simp only [hcopy, hleft, ne_eq, not_true_eq_false, ↓reduceIte]
      by_cases hok : ∃ a < 6, 0 ≤ pat.result i a
      -- the byte is stored, the loop goes on behind it
      · obtain ⟨a, ha, hresult⟩ := hok
        obtain ⟨r, t, hretry, hr, hstored, hcells⟩ :=
          at24WriteRetry_delivers user hbase (user i)
            { s with off := i, tries := 0 } ⟨a, ha, Nat.zero_le a, hresult⟩
        simp only [hretry, show ¬ r < 0 by omega, ↓reduceIte]
        obtain ⟨k, hrest⟩ := at24WriteLoop_stores hbase (i + 1) hmore t
        exact ⟨k, hrest.next ⟨hleft, a, ha, hresult⟩ hstored hcells⟩
      -- the sixth failure
      · obtain ⟨r, t, hretry, hr, hstored, hcells⟩ :=
          at24WriteRetry_fails user fPos (user i)
            { s with off := i, tries := 0 } (Nat.zero_le 5)
            (fun a ha _ => Int.not_le.mp fun hle => hok ⟨a, ha, hle⟩)
        simp only [hretry, hr, ↓reduceIte]
        exact ⟨i, .nothing hmore (fun h => hok h.2) hstored hcells hr⟩
    · simp only [hcopy, hleft, ne_eq, not_false_eq_true, ↓reduceIte]
      exact ⟨i, .nothing hmore (fun h => hleft h.1) rfl rfl (by decide)⟩
  · rw [if_neg hmore]
    obtain rfl : i = count := by omega
    refine ⟨i, ⟨Nat.le_refl i, hi, by omega, by omega⟩, ?_, ?_, fun _ => ⟨rfl, rfl⟩, by omega⟩
    · rw [Nat.sub_self]
      rfl
    · rw [Nat.sub_self]
      rfl
termination_by count - i

/-- The cells behind a write. -/
theorem Stores.cells_eq {count k : Nat} {cells : Nat → Byte} {b : Int × Int × Session}
    (h : Stores user pat fPos base count 0 k ⟨cells, 0, 0, 0⟩ b) :
    b.2.2.cells = aliasStore cells base (readBytes user 0 k) :=
  h.cells

/-- A position modulo 256, as a natural number. -/
theorem mod_eq_toNat_mod (fPos : Int) : fPos % 256 = ((fPos % 256).toNat : Int) % 256 := by
  omega

/-- The whole call stores the bytes in front of the first one that does not get through. -/
theorem at24Write_stores (user : Nat → Byte) (pat : Pattern) (hbase : fPos % 256 = base % 256)
    (count : Nat) (cells : Nat → Byte) :
    ∃ k, Stores user pat fPos base count 0 k ⟨cells, 0, 0, 0⟩
      (at24Write (patterned user pat) fPos count ⟨cells, 0, 0, 0⟩) :=
  at24WriteLoop_stores hbase 0 (Nat.zero_le _) _

end

/-! ### The account -/

/-- The call accounts for the `k` bytes it has stored: it returns `k` and moves the position
    by `k`, and an error means that nothing was stored and the position is as it was. -/
structure Accounts (fPos : Int) (k : Nat) (ret fPos' : Int) : Prop where
  stored : 1 ≤ k → ret = k ∧ fPos' = fPos + k
  error : ret < 0 → k = 0 ∧ fPos' = fPos

/-- What the call returns accounts for what it has stored. -/
def AccountsFor (user : Nat → Byte) (pat : Pattern) (cells : Nat → Byte) (fPos : Int)
    (count : Nat) : Prop :=
  let w := at24Write (patterned user pat) fPos count ⟨cells, 0, 0, 0⟩
  Accounts fPos w.2.2.stored w.1 w.2.1

section

variable {user : Nat → Byte} {pat : Pattern} {cells : Nat → Byte} {fPos : Int} {count : Nat}

/-- With the first byte stored, the account is right only if all of them are. -/
theorem AccountsFor.delivers (h : AccountsFor user pat cells fPos count)
    (hfirst : pat.Delivers 0) : (∀ i < count, pat.Delivers i) ∧ count < 2147483648 := by
  obtain ⟨k, ⟨⟨-, hle, hdelivers, hstop⟩, hstored, -, hcomplete, hshort⟩⟩ :=
    at24Write_stores user pat (mod_eq_toNat_mod fPos) count cells
  obtain ⟨haccount, -⟩ := h
  simp only [hstored, Nat.zero_add, Nat.sub_zero] at haccount
  by_cases hcount : count = 0
  · exact ⟨fun i hi => by omega, by omega⟩
  have hk : 1 ≤ k := by
    by_contra hk
    obtain rfl : k = 0 := by omega
    exact hstop (by omega) hfirst
  obtain ⟨hret, -⟩ := haccount hk
  by_cases hall : k = count
  · refine ⟨fun i hi => hdelivers i (Nat.zero_le i) (by omega), ?_⟩
    rw [(hcomplete hall).1, hall] at hret
    unfold toS32 at hret
    split at hret <;> omega
  · have hneg := (hshort (by omega)).1
    omega

/-- A write whose first byte does not get through reports the error. -/
theorem accountsFor_of_first (hfirst : ¬ pat.Delivers 0) :
    AccountsFor user pat cells fPos count := by
  obtain ⟨k, ⟨⟨-, hle, hdelivers, -⟩, hstored, -, hcomplete, hshort⟩⟩ :=
    at24Write_stores user pat (mod_eq_toNat_mod fPos) count cells
  have hk : k = 0 := by
    by_contra hk
    exact hfirst (hdelivers 0 (Nat.zero_le 0) (by omega))
  constructor
  · intro hpos
    simp only [hstored] at hpos
    omega
  · intro hneg
    refine ⟨by simp only [hstored]; omega, ?_⟩
    by_cases hzero : k = count
    · rw [(hcomplete hzero).1, ← hzero, hk] at hneg
      exact absurd hneg (by decide)
    · exact (hshort (by omega)).2

/-- A write whose bytes all get through reports their number. -/
theorem accountsFor_of_all (hall : ∀ i < count, pat.Delivers i) (hcount : count < 2147483648) :
    AccountsFor user pat cells fPos count := by
  obtain ⟨k, ⟨⟨-, hle, -, hstop⟩, hstored, -, hcomplete, -⟩⟩ :=
    at24Write_stores user pat (mod_eq_toNat_mod fPos) count cells
  have hk : k = count := by
    by_contra hne
    exact hstop (by omega) (hall k (by omega))
  obtain ⟨hret, hpos⟩ := hcomplete hk
  rw [toS32_of_lt hcount] at hret hpos
  constructor
  · intro _
    simp only [hstored, Nat.zero_add, Nat.sub_zero, hk]
    exact ⟨hret, hpos⟩
  · omega

/-- For every buffer, position, count and pattern: the account is right iff the first byte
    does not get through, or all bytes do and their number is an `int`. -/
theorem accounts_iff (user : Nat → Byte) (pat : Pattern) (cells : Nat → Byte) (fPos : Int)
    (count : Nat) :
    AccountsFor user pat cells fPos count ↔
      ¬ pat.Delivers 0 ∨ (∀ i < count, pat.Delivers i) ∧ count < 2147483648 := by
  constructor
  · intro h
    by_cases hfirst : pat.Delivers 0
    · exact Or.inr (h.delivers hfirst)
    · exact Or.inl hfirst
  · rintro (hfirst | ⟨hall, hcount⟩)
    · exact accountsFor_of_first hfirst
    · exact accountsFor_of_all hall hcount

end

/-- The first byte is stored, the second one fails six times. -/
def failsAtOne : Pattern where
  left _ := 0
  result i _ := if i = 0 then 0 else -5

/-- The second byte faults: the position stays in front of the first. -/
theorem accounts_fails_at_one :
    ¬ ∀ (user : Nat → Byte) (pat : Pattern) (cells : Nat → Byte) (p count : Nat),
      count < 2147483648 → AccountsFor user pat cells p count := by
  intro h
  obtain ⟨hall, -⟩ :=
    (h (fun _ => 7) failsAtOne (fun _ => 0) 0 2 (by decide)).delivers (by decide)
  exact absurd (hall 1 (by decide)) (by decide)

/-! ### The cells -/

/-- The call changes no cell outside the range asked for and the device, and reports no more
    bytes than the device has behind the position. -/
structure Inside (byteLen p count : Nat) (cells : Nat → Byte) (w : Int × Int × Session) :
    Prop where
  frame : ∀ c, ¬ (p ≤ c ∧ c < p + count ∧ c < byteLen) → w.2.2.cells c = cells c
  report : w.1 ≤ max (byteLen - p : Int) 0

/-- A write of this buffer stays inside the device. -/
def StaysInside (user : Nat → Byte) (pat : Pattern) (cells : Nat → Byte) (byteLen p count : Nat) :
    Prop :=
  Inside byteLen p count cells (at24Write (patterned user pat) p count ⟨cells, 0, 0, 0⟩)

/-- A byte behind the end of the device, or one in front of it, lands outside. -/
theorem lands_outside {byteLen p i : Nat} (hlen : byteLen ≤ 256) (hi : byteLen ≤ p + i)
    (hwhole : ¬ (p = 0 ∧ byteLen = 256)) :
    ∃ j ≤ i, ¬ (p ≤ (p + j) % 256 ∧ (p + j) % 256 < byteLen) := by
  by_cases hp : p < byteLen
  · exact ⟨byteLen - p, by omega, by omega⟩
  · exact ⟨0, Nat.zero_le i, by omega⟩

/-- A cell that no byte goes to keeps its content. -/
theorem aliasStore_frame (cells : Nat → Byte) (p : Nat) (bs : List Byte) (c : Nat)
    (h : ∀ j < bs.length, (p + j) % 256 ≠ c) : aliasStore cells p bs c = cells c := by
  induction bs generalizing cells p with
  | nil => rfl
  | cons b bs ih =>
    have hne : c ≠ p % 256 := fun heq => h 0 (by simp) heq.symm
    rw [aliasStore, ih, Function.update_of_ne hne]
    intro j hj
    rw [show p + 1 + j = p + (j + 1) by omega]
    exact h (j + 1) (by simpa using hj)

/-- A buffer with the same byte everywhere. -/
theorem readBytes_const (v : Byte) (i n : Nat) :
    readBytes (fun _ => v) i n = List.replicate n v := by
  simp [readBytes, List.map_const']

section

variable {user : Nat → Byte} {pat : Pattern} {cells : Nat → Byte} {byteLen p count : Nat}

/-- Byte `i` gets through with all bytes in front of it. -/
def Pattern.Reaches (pat : Pattern) (i : Nat) : Prop :=
  ∀ j ≤ i, pat.Delivers j

/-- A byte that gets as far as an attempt is in front of where the write stops. -/
theorem Stops.lt_of_reaches {i k : Nat} (h : Stops pat count 0 k) (hi : i < count)
    (hreaches : pat.Reaches i) : i < k := by
  by_contra hle
  exact h.stop (by omega) (hreaches k (by omega))

/-- The bytes in front of where the write stops get that far. -/
theorem Stops.reaches {k : Nat} (h : Stops pat count 0 k) (hk : 0 < k) :
    pat.Reaches (k - 1) :=
  fun j hj => h.delivers j (Nat.zero_le j) (by omega)

/-- When the last byte stored is in the device, all are, each in its own cell. -/
theorem staysInside_of_below (hlen : byteLen ≤ 256)
    (hbelow : ∀ i < count, pat.Reaches i → p + i < byteLen) :
    StaysInside user pat cells byteLen p count := by
  obtain ⟨k, hstores⟩ :=
    at24Write_stores user pat (rfl : (p : Int) % 256 = p % 256) count cells
  have hstops := hstores.stops
  have hle := hstops.le_count
  -- the last byte stored is in the device, so nothing wrapped
  have hend : k = 0 ∨ p + k ≤ byteLen := by
    by_cases hk : 0 < k
    · have hlast := hbelow (k - 1) (by omega) (hstops.reaches hk)
      omega
    · omega
  constructor
  · intro c hc
    rw [hstores.cells_eq]
    by_cases hk : k = 0
    · rw [hk]
      rfl
    · rw [aliasStore_below _ _ _ (by rw [length_readBytes]; omega)]
      apply writeBytes_frame
      rw [length_readBytes]
      omega
  · by_cases hall : k = count
    · rw [(hstores.complete hall).1]
      unfold toS32
      split <;> omega
    · have hneg := (hstores.short (by omega)).1
      omega

/-- On a chip of 256 cells written from offset 0 on every cell is in the device; what is
    left to go wrong is the number of bytes reported. -/
theorem staysInside_of_whole (hcount : count < 4294967296)
    (hunreported : (∃ i < count, ¬ pat.Delivers i) ∨ 2147483648 ≤ count) :
    StaysInside user pat cells 256 0 count := by
  obtain ⟨k, hstores⟩ :=
    at24Write_stores user pat (rfl : ((0 : Nat) : Int) % 256 = (0 : Nat) % 256) count cells
  have hstops := hstores.stops
  have hle := hstops.le_count
  constructor
  · intro c hc
    rw [hstores.cells_eq]
    apply aliasStore_frame
    intro j hj
    rw [length_readBytes] at hj
    omega
  · by_cases hall : k = count
    · rw [(hstores.complete hall).1]
      have hlarge : 2147483648 ≤ count := by
        obtain ⟨i, hi, hnot⟩ | hlarge := hunreported
        · exact absurd (hstops.delivers i (Nat.zero_le i) (by omega)) hnot
        · exact hlarge
      unfold toS32
      split <;> omega
    · have hneg := (hstores.short (by omega)).1
      omega

/-- A byte that is stored outside changes its cell, for some buffer. -/
theorem not_staysInside_cell {i : Nat} (cells : Nat → Byte) (hlen : byteLen ≤ 256) (hi : i < count)
    (hreaches : pat.Reaches i) (hout : byteLen ≤ p + i)
    (hwhole : ¬ (p = 0 ∧ byteLen = 256)) :
    ∃ user, ¬ StaysInside user pat cells byteLen p count := by
  obtain ⟨j, hj, hland⟩ := lands_outside hlen hout hwhole
  refine ⟨fun _ => cells ((p + j) % 256) + 1, fun h => ?_⟩
  obtain ⟨k, hstores⟩ :=
    at24Write_stores (fun _ => cells ((p + j) % 256) + 1) pat
      (rfl : (p : Int) % 256 = p % 256) count cells
  have hlt := hstores.stops.lt_of_reaches hi hreaches
  have hkept := h.frame ((p + j) % 256) (by omega)
  rw [hstores.cells_eq, readBytes_const,
    aliasStore_replicate _ _ _ _ _ (Or.inr ⟨j, by omega, rfl⟩)] at hkept
  exact absurd hkept (by simp)

/-- A complete write of more bytes than the device has reports more. -/
theorem not_staysInside_report (hout : byteLen < p + count) (hpos : 0 < count)
    (hall : ∀ i < count, pat.Delivers i) (hcount : count < 2147483648) :
    ¬ StaysInside user pat cells byteLen p count := by
  intro h
  obtain ⟨k, ⟨hstops, -, -, hcomplete, -⟩⟩ :=
    at24Write_stores user pat (rfl : (p : Int) % 256 = p % 256) count cells
  have hle := hstops.le_count
  have hk : k = count := by
    by_contra hne
    exact hstops.stop (by omega) (hall k (by omega))
  have hreport := h.report
  rw [(hcomplete hk).1, toS32_of_lt hcount] at hreport
  omega

end

/-- For every chip of at most 256 cells, every position, count, pattern and content: all
    buffers are written inside the device iff no byte behind its end gets through. The
    exception is a chip of 256 cells written from offset 0, where every byte lands inside:
    there the call must not report the bytes that go around. -/
theorem staysInside_iff (at24 : At24Data) (hlen : at24.chip.byteLen ≤ 256) (pat : Pattern)
    (cells : Nat → Byte) (p count : Nat) (hcount : count < 4294967296) :
    (∀ user, StaysInside user pat cells at24.chip.byteLen p count) ↔
      (∀ i < count, pat.Reaches i → p + i < at24.chip.byteLen) ∨
        (p = 0 ∧ at24.chip.byteLen = 256) ∧
          ((∃ i < count, ¬ pat.Delivers i) ∨ 2147483648 ≤ count) := by
  constructor
  · intro hall
    by_contra hnot
    rw [not_or] at hnot
    obtain ⟨hbelow, hwhole⟩ := hnot
    simp only [not_forall, Nat.not_lt] at hbelow
    obtain ⟨i, hi, hreaches, hout⟩ := hbelow
    -- from offset 0 of 256 cells no cell is outside: there it is the report that fails
    by_cases hchip : p = 0 ∧ at24.chip.byteLen = 256
    · simp only [hchip, and_self, true_and, not_or, not_exists, not_and, not_not,
        Nat.not_le] at hwhole
      exact not_staysInside_report (by omega) (by omega) hwhole.1 hwhole.2 (hall fun _ => 0)
    · obtain ⟨user, hfails⟩ := not_staysInside_cell cells hlen hi hreaches hout hchip
      exact hfails (hall user)
  · rintro (hbelow | ⟨⟨hp, hchip⟩, hunreported⟩) user
    · exact staysInside_of_below hlen hbelow
    · rw [hchip, hp]
      exact staysInside_of_whole hcount hunreported

/-- A chip of 256 cells in pages of 32. -/
def chip256 : At24PlatformData := ⟨256, 32, by decide, by decide⟩

/-- Every byte gets through at once. -/
def succeeds : Pattern where
  left _ := 0
  result _ _ := 0

/-- Six bytes at 250 of 256. -/
theorem staysInside_iff_chip256 :
    (∀ user, StaysInside user succeeds (fun _ => 0) 256 250 6) ↔
      (∀ i < 6, succeeds.Reaches i → 250 + i < 256) ∨
        (250 = 0 ∧ 256 = 256) ∧ ((∃ i < 6, ¬ succeeds.Delivers i) ∨ 2147483648 ≤ 6) :=
  staysInside_iff ⟨chip256, 1⟩ (by decide) succeeds (fun _ => 0) 250 6 (by decide)

/-- One byte written at the end of a chip of 256 cells lands in cell 0. -/
theorem staysInside_fails_at_256 :
    ¬ ∀ (at24 : At24Data) (user : Nat → Byte) (pat : Pattern) (cells : Nat → Byte) (p count : Nat),
      at24.chip.byteLen ≤ 256 → count < 4294967296 →
        StaysInside user pat cells at24.chip.byteLen p count := by
  intro h
  have hreaches : succeeds.Reaches 0 := fun _ _ => ⟨rfl, 0, by decide, Int.le_refl 0⟩
  obtain ⟨user, hfails⟩ := not_staysInside_cell (fun _ => 0) (Nat.le_refl 256)
    (show 0 < 1 by decide) hreaches (show 256 ≤ 256 + 0 by decide) (by decide)
  exact hfails (h ⟨chip256, 1⟩ user succeeds (fun _ => 0) 256 1 (by decide) (by decide))

end At24
