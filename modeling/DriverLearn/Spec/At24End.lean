import DriverLearn.Spec.At24Attempts
import DriverLearn.Spec.At24Chunk
import DriverLearn.Spec.At24RoundTrip

/-!
# The end of the device

`at24_read` compares the position with `byte_len` once, in front of the loop, and clamps
the chunks to `count` only. A read stays inside the device iff the range asked for does.

## Key results

- `bounded_of_inside`: a read of a range inside the device stays inside
- `not_bounded`: a read of any other range does not, whatever the SMBus answers
- `bounded_iff`: the exact condition
-/

namespace At24

open Loop Word

variable {σ : Type}

/-- Every call succeeds: an SMBus read that asks for bytes returns one or more of them, and
    copies inside the `count` bytes of the user buffer are complete. -/
structure Answers (env : At24Env σ) (count : Nat) : Prop where
  kmalloc : ∀ s size, ∃ tmp s', env.kmalloc s size = (some tmp, s')
  readBlock : ∀ s client command len tmp, 1 ≤ len →
    1 ≤ (env.readBlock s client command len tmp).1 ∧
      (env.readBlock s client command len tmp).1 ≤ len
  copyToUser : ∀ s off tmp len, off + len ≤ count → (env.copyToUser s off tmp len).1 = 0

/-- The call requests no cell behind the device, and returns no more than the cells from
    `p` on, so that the file position stays in the device. -/
structure Bounded (env : At24Env σ) (at24 : At24Data) (p count : Nat) (s : σ) : Prop where
  requests : ∀ x, Attempted env at24 p count s x → x.addr + x.len ≤ at24.chip.byteLen
  returns : ∃ xs ret fPos' t, Call env at24 p count s xs ret fPos' t ∧
    ret ≤ (at24.chip.byteLen - p : Int) ∧ fPos' ≤ at24.chip.byteLen

/-- The attempt asks for bytes of the range, at their address in the device. -/
structure InRange (count p : Nat) (x : Attempt σ) : Prop where
  addr : x.addr = p + x.i
  pos : 1 ≤ x.len
  le : x.i + x.len ≤ count

section

variable {env : At24Env σ} {at24 : At24Data} {p count : Nat} {s : σ}

/-! ### A range inside the device -/

/-- What an attempt for bytes of the range does: some of them are delivered. -/
theorem Answers.attempt (h : Answers env count) (hcount : count < 4294967296) {x : Attempt σ}
    (hpos : 1 ≤ x.len) (hle : x.i + x.len ≤ count) :
    1 ≤ x.copied env ∧ x.copied env ≤ x.len ∧ (x.copy env).1 = 0 ∧
      x.next env = x.i + x.copied env := by
  obtain ⟨hlo, hhi⟩ := h.readBlock x.s 0 (BitVec.ofNat 8 x.addr) x.len x.tmp hpos
  change 1 ≤ x.result env at hlo
  change x.result env ≤ x.len at hhi
  have hcopied : 1 ≤ x.copied env ∧ x.copied env ≤ x.len := by
    unfold Attempt.copied toU32
    omega
  refine ⟨hcopied.1, hcopied.2, h.copyToUser _ _ _ _ (by omega), ?_⟩
  unfold Attempt.next toU32
  omega

/-- The attempts at a chunk ask for bytes of the range only. -/
theorem chunkAttempt_inRange (hps : 0 < at24.chip.pageSize) (hrange : p + count < 4294967296)
    (hwrap : p = 0 → count + 2 * at24.chip.pageSize ≤ 4294967297) (s : σ) (tmp : List Byte)
    {i : Nat} (hi : i < count) :
    InRange count p (chunkAttempt at24.chip.pageSize count p s tmp i) := by
  have hinside := readChunk_inside at24.chip.pageSize count p i hps at24.chip.pageSize_lt hi
    hrange fun h0 => by have hbound := hwrap h0; omega
  exact ⟨readChunk_fst at24.chip.pageSize count p i (by omega), hinside.1, hinside.2⟩

/-- Behind an attempt for bytes of the range comes another one, nearer to the end. -/
theorem Answers.inRange_turn (h : Answers env count) (hps : 0 < at24.chip.pageSize)
    (hrange : p + count < 4294967296)
    (hwrap : p = 0 → count + 2 * at24.chip.pageSize ≤ 4294967297) {x y : Attempt σ}
    (hx : InRange count p x) (hturn : turn env at24.chip.pageSize count p x = .inl y) :
    InRange count p y ∧ count - y.i < count - x.i := by
  obtain ⟨hpos, hle, -, hnext⟩ := h.attempt (by omega) hx.pos hx.le
  obtain ⟨hfail, -, -⟩ | ⟨-, -, hmore, rfl⟩ := turn_inl hturn
  · omega
  · constructor
    · exact chunkAttempt_inRange hps hrange hwrap _ _ hmore
    · simp only [chunkAttempt]
      omega

/-- The last attempt completes the range. -/
theorem Answers.inRange_end (h : Answers env count) (hcount : count < 4294967296)
    {pageSize : Nat} {x : Attempt σ} {b : Int × σ} (hx : InRange count p x)
    (hturn : turn env pageSize count p x = .inr b) : b.1 = toS32 count := by
  obtain ⟨hpos, hle, hcopy, hnext⟩ := h.attempt hcount hx.pos hx.le
  have hle' := hx.le
  obtain ⟨hzero, -, -⟩ | ⟨-, hfault, -⟩ | ⟨-, -, hdone, rfl⟩ := turn_inr hturn
  · omega
  · exact absurd hcopy hfault
  · rw [show x.next env = count by omega]

/-- Where a buffer can be had, the first attempt is made. -/
theorem start_of_answers (h : Answers env count) (hp : p < at24.chip.byteLen)
    (hcount : 0 < count) (s : σ) :
    ∃ s' tmp, start env at24 p count s =
      some (chunkAttempt at24.chip.pageSize count p s' tmp 0) := by
  obtain ⟨tmp, s', hmalloc⟩ := h.kmalloc s at24.chip.pageSize
  refine ⟨s', tmp, ?_⟩
  rw [start, if_neg (by omega)]
  simp only [hmalloc, hcount, ↓reduceIte]

/-- A read of no bytes returns 0. -/
theorem call_of_count_zero (h : Answers env 0) (hp : p < at24.chip.byteLen) (s : σ) :
    ∃ t, Call env at24 p 0 s [] 0 p t := by
  obtain ⟨tmp, t, hmalloc⟩ := h.kmalloc s at24.chip.pageSize
  refine ⟨t, fun fuel _ => ?_, ?_⟩
  · rw [at24Read, if_neg (by omega)]
    simp [hmalloc]
  · rw [start, if_neg (by omega)]
    simp [hmalloc]

/-- It makes no attempt either. -/
theorem not_attempted_zero (x : Attempt σ) : ¬ Attempted env at24 p 0 s x := by
  rintro ⟨x₀, hstart, -⟩
  obtain ⟨hpos, -⟩ := start_eq hstart
  omega

/-- A read of a range inside the device stays inside. -/
theorem bounded_of_inside (h : Answers env count) (hps : 0 < at24.chip.pageSize)
    (hp : p < at24.chip.byteLen) (hrange : p + count ≤ at24.chip.byteLen)
    (hwrap : p = 0 → count + 2 * at24.chip.pageSize ≤ 4294967297) :
    Bounded env at24 p count s := by
  have hbyteLen := at24.chip.byteLen_lt
  by_cases hcount : count = 0
  · subst hcount
    obtain ⟨t, hcall⟩ := call_of_count_zero h hp s
    exact ⟨fun x hx => absurd hx (not_attempted_zero x), [], 0, p, t, hcall, by omega, by omega⟩
  -- every attempt is inside the range, and each turn of the loop leaves fewer bytes
  obtain ⟨s', tmp, hstart⟩ := start_of_answers h hp (by omega) s
  have hx₀ := chunkAttempt_inRange hps (by omega) hwrap s' tmp (i := 0) (by omega)
  have hstep : ∀ x y : Attempt σ, InRange count p x →
      turn env at24.chip.pageSize count p x = .inl y →
      InRange count p y ∧ count - y.i < count - x.i :=
    fun x y hx hturn => h.inRange_turn hps (by omega) hwrap hx hturn
  constructor
  · rintro x ⟨x₀, hstart', hreach⟩
    rw [hstart, Option.some.injEq] at hstart'
    subst hstart'
    have hx : InRange count p x :=
      hreach.inv (fun y z _ hy hturn => (hstep y z hy hturn).1) hx₀
    have haddr := hx.addr
    have hle := hx.le
    omega
  · obtain ⟨xs, ⟨ret, t⟩, hv⟩ := exists_visits _ hstep _ hx₀
    have hret : ret = toS32 count := hv.result (P := fun b => b.1 = toS32 count)
      (fun x y hx hturn => (hstep x y hx hturn).1)
      (fun x b hx hturn => h.inRange_end (by omega) hx hturn) hx₀
    refine ⟨xs, ret, _, t, call_of_visits hstart hv, ?_⟩
    subst hret
    unfold toS32
    split_ifs <;> omega

/-! ### A range that ends behind the device -/

/-- As long as the requests stay inside the device, a call for a range that ends behind it
    is never done. -/
theorem Answers.more (h : Answers env count) (hps : 0 < at24.chip.pageSize)
    (hcount : count < 4294967296) (hrange : at24.chip.byteLen < p + count) {x : Attempt σ}
    (haddr : x.addr = p + x.i) (hpos : 1 ≤ x.len) (hin : x.addr + x.len ≤ at24.chip.byteLen) :
    ∃ y, turn env at24.chip.pageSize count p x = .inl y ∧ y.addr = p + y.i ∧ 1 ≤ y.len := by
  have hbyteLen := at24.chip.byteLen_lt
  obtain ⟨hcopied, hle, hcopy, hnext⟩ := h.attempt hcount hpos (by omega)
  refine ⟨_, turn_more (by omega) hcopy (by omega), ?_, ?_⟩
  · exact readChunk_fst at24.chip.pageSize count p (x.next env) (by omega)
  · exact readChunk_pos at24.chip.pageSize count p (x.next env) hps at24.chip.pageSize_lt
      (by omega) hcount (by omega)

/-- A read of a range that ends behind the device passes its end, however the SMBus answers. -/
theorem not_bounded (h : Answers env count) (hps : 0 < at24.chip.pageSize)
    (hp : p < at24.chip.byteLen) (hcount : count < 4294967296)
    (hrange : at24.chip.byteLen < p + count) : ¬ Bounded env at24 p count s := by
  rintro ⟨hrequests, xs, ret, fPos', t, hcall, -, -⟩
  have hbyteLen := at24.chip.byteLen_lt
  obtain ⟨s', tmp, hstart⟩ := start_of_answers h hp (by omega) s
  have hmore : ∀ x, Attempted env at24 p count s x ∧ x.addr = p + x.i ∧ 1 ≤ x.len →
      ∃ y, turn env at24.chip.pageSize count p x = .inl y ∧ y.addr = p + y.i ∧ 1 ≤ y.len :=
    fun x hx => h.more hps hcount hrange hx.2.1 hx.2.2 (hrequests x hx.1)
  -- no attempt of the call is its last one
  apply (hcall.visits hstart).result (P := fun _ => False)
    (I := fun x => Attempted env at24 p count s x ∧ x.addr = p + x.i ∧ 1 ≤ x.len)
  · intro x y hx hturn
    obtain ⟨y', hturn', haddr, hpos⟩ := hmore x hx
    rw [hturn, Sum.inl.injEq] at hturn'
    subst hturn'
    obtain ⟨⟨x₀, hstart', hreach⟩, -⟩ := hx
    exact ⟨⟨x₀, hstart', hreach.tail hturn⟩, haddr, hpos⟩
  · intro x b hx hturn
    obtain ⟨y, hturn', -⟩ := hmore x hx
    rw [hturn] at hturn'
    cases hturn'
  · refine ⟨⟨_, hstart, Reaches.refl _⟩, ?_, ?_⟩
    · exact readChunk_fst at24.chip.pageSize count p 0 (by omega)
    · exact readChunk_pos at24.chip.pageSize count p 0 hps at24.chip.pageSize_lt (by omega)
        hcount (by omega)

end

/-! ### The end of the address space -/

/-- The SMBus returns one byte at a time. -/
def oneByOne : At24Env Unit where
  kmalloc s _ := (some [], s)
  readBlock s _ _ _ tmp := (1, tmp, s)
  writeByteData s _ _ _ := (0, s)
  copyToUser s _ _ _ := (0, s)
  copyFromUser s _ := (0, 0, s)

/-- The chip that gives one byte at a time answers every read. -/
theorem oneByOne_answers (count : Nat) : Answers oneByOne count where
  kmalloc s _ := ⟨[], s, rfl⟩
  readBlock _ _ _ _ _ hlen := ⟨Int.le_refl 1, Int.ofNat_le.mpr hlen⟩
  copyToUser _ _ _ _ _ := rfl

/-- It is asked anew for every byte of the range. -/
theorem oneByOne_attempts (at24 : At24Data) {p count : Nat} (hp : p < at24.chip.byteLen)
    (hcount : count < 4294967296) (i : Nat) (hi : i < count) :
    Attempted oneByOne at24 p count ()
      (chunkAttempt at24.chip.pageSize count p () [] i) := by
  induction i with
  | zero =>
    refine ⟨_, ?_, Reaches.refl _⟩
    rw [start, if_neg (by omega)]
    simp [oneByOne, hi]
  | succ i ih =>
    obtain ⟨x₀, hstart, hreach⟩ := ih (by omega)
    refine ⟨x₀, hstart, hreach.tail ?_⟩
    have hcopied : (chunkAttempt at24.chip.pageSize count p () [] i).copied oneByOne = 1 := rfl
    have hnext : (chunkAttempt at24.chip.pageSize count p () [] i).next oneByOne = i + 1 :=
      toU32_of_lt (n := i + 1) (by omega)
    rw [turn_more (by omega) rfl (by omega), hnext]
    rfl

/-- At the end of the address space the clamp wraps, and a read from offset 0 can pass the
    end of the device although the range asked for does not. -/
theorem not_bounded_of_wrap {at24 : At24Data} (hps : 0 < at24.chip.pageSize) {count : Nat}
    (hrange : count ≤ at24.chip.byteLen) (hwrap : 4294967297 < count + 2 * at24.chip.pageSize)
    (hpos : 0 < count) : ¬ Bounded oneByOne at24 0 count () := by
  intro h
  have hbyteLen := at24.chip.byteLen_lt
  have hlast := h.requests _
    (oneByOne_attempts at24 (by omega) (by omega) (count - 1) (by omega))
  have haddr := readChunk_fst at24.chip.pageSize count 0 (count - 1) (by omega)
  have hend := readChunk_wraps at24.chip.pageSize count (count - 1) hps at24.chip.pageSize_lt
    (by omega) (by omega)
  rw [Nat.zero_add] at haddr
  simp only [chunkAttempt, Nat.cast_zero] at hlast haddr
  omega

/-! ### The exact condition -/

/-- For every chip, every start inside it and every count: a read whose SMBus calls and
    copies succeed stays inside the device iff the range asked for does. The exception is a
    count within two pages of `2 ^ 32` from offset 0, where short answers lead out of it. -/
theorem bounded_iff (at24 : At24Data) (hps : 0 < at24.chip.pageSize) (p count : Nat)
    (hp : p < at24.chip.byteLen) (hcount : count < 4294967296) :
    ((p = 0 → count + 2 * at24.chip.pageSize ≤ 4294967297) →
      ∀ (σ : Type) (env : At24Env σ) (s : σ), Answers env count →
        (Bounded env at24 p count s ↔ p + count ≤ at24.chip.byteLen)) ∧
    ((∀ (σ : Type) (env : At24Env σ) (s : σ), Answers env count → Bounded env at24 p count s) ↔
      p + count ≤ at24.chip.byteLen ∧
        (p = 0 → count + 2 * at24.chip.pageSize ≤ 4294967297)) := by
  have hout : at24.chip.byteLen < p + count →
      ∀ (σ : Type) (env : At24Env σ) (s : σ), Answers env count →
        ¬ Bounded env at24 p count s :=
    fun hrange σ env s h => not_bounded h hps hp hcount hrange
  constructor
  · intro hwrap σ env s h
    constructor
    · intro hbounded
      by_contra hrange
      exact hout (by omega) σ env s h hbounded
    · intro hrange
      exact bounded_of_inside h hps hp hrange hwrap
  -- one byte at a time is an answer: from it both conditions follow
  · constructor
    · intro hall
      have hone := hall Unit oneByOne () (oneByOne_answers count)
      have hrange : p + count ≤ at24.chip.byteLen := by
        by_contra hrange
        exact hout (by omega) Unit oneByOne () (oneByOne_answers count) hone
      refine ⟨hrange, fun h0 => ?_⟩
      by_contra hwrap
      subst h0
      have hlt := at24.chip.pageSize_lt
      exact not_bounded_of_wrap hps (by omega) (by omega) (by omega) hone
    · rintro ⟨hrange, hwrap⟩ σ env s h
      exact bounded_of_inside h hps hp hrange hwrap

/-- The chip that gives all it is asked for answers every read. -/
theorem eepromEnv_answers (count : Nat) : Answers eepromEnv count where
  kmalloc s size := ⟨_, _, rfl⟩
  readBlock s client command len tmp hlen := by
    simp only [eepromEnv]
    omega
  copyToUser s off tmp len _ := rfl

/-- A read of 12 bytes from byte 500 of 512 just fits. -/
theorem bounded_iff_chip512 :
    Bounded eepromEnv ⟨chip512, 2⟩ 500 12 ⟨fun _ => 0, fun _ => 0⟩ ↔ 500 + 12 ≤ 512 :=
  (bounded_iff ⟨chip512, 2⟩ (by decide) 500 12 (by decide) (by decide)).1 (by decide) Eeprom
    eepromEnv _ (eepromEnv_answers 12)

/-- The last cell of a chip of 512, read with a count of 2. -/
theorem bounded_fails_at_end :
    ¬ ∀ (σ : Type) (env : At24Env σ) (at24 : At24Data) (p count : Nat) (s : σ),
      0 < at24.chip.pageSize → p < at24.chip.byteLen → count < 4294967296 →
        Answers env count → Bounded env at24 p count s := by
  intro h
  exact not_bounded (eepromEnv_answers 2) (by decide) (by decide) (by decide) (by decide)
    (h Eeprom eepromEnv ⟨chip512, 2⟩ 511 2 ⟨fun _ => 0, fun _ => 0⟩ (by decide) (by decide)
      (by decide) (eepromEnv_answers 2))

end At24
