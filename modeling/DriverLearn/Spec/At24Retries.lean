import DriverLearn.Spec.At24Attempts
import DriverLearn.Spec.At24RoundTrip

/-!
# Retries of an EEPROM read

A call with failed attempts is compared with the same call without them. The failed call
has stored its result in `len`, so each retry asks for 0 bytes and the call returns short;
an errno is not retried at all. No call that meets a failure is transparent.

## Key results

- `turn_flaky`: an attempt that does not fail does what it does without failures
- `visits_all_succeed`: a call that returns `count` has met no failure
- `transparent_iff`: the exact condition
-/

namespace At24

open Loop Word

variable {σ : Type}

/-! ### Calls with failures -/

/-- The SMBus works and the user buffer has `count` bytes: a read returns at least one byte
    and at most what is asked for, and a copy succeeds inside the buffer and fails when it
    is longer than the 3 GiB of the user. -/
structure Works (env : At24Env σ) (count : Nat) : Prop where
  kmalloc : ∀ s size, ∃ tmp s', env.kmalloc s size = (some tmp, s')
  readBlock_le : ∀ s client command len tmp, 0 ≤ (env.readBlock s client command len tmp).1 ∧
    (env.readBlock s client command len tmp).1 ≤ len
  readBlock_pos : ∀ s client command len tmp, 0 < len →
    0 < (env.readBlock s client command len tmp).1
  copies : ∀ s off tmp len, off + len ≤ count → (env.copyToUser s off tmp len).1 = 0
  faults : ∀ s off tmp len, 3221225472 ≤ len → (env.copyToUser s off tmp len).1 ≠ 0

/-- The same functions, but the SMBus read number `k` fails if the pattern has a result
    for it. The second part of the state counts the reads. -/
def flaky (env : At24Env σ) (fails : Nat → Option Int) : At24Env (σ × Nat) where
  kmalloc s size := ((env.kmalloc s.1 size).1, (env.kmalloc s.1 size).2, s.2)
  readBlock s client command len tmp :=
    match fails s.2 with
    | some e => (e, tmp, s.1, s.2 + 1)
    | none =>
      let (r, tmp, t) := env.readBlock s.1 client command len tmp
      (r, tmp, t, s.2 + 1)
  writeByteData s client command value :=
    ((env.writeByteData s.1 client command value).1,
      (env.writeByteData s.1 client command value).2, s.2)
  copyToUser s off tmp len :=
    ((env.copyToUser s.1 off tmp len).1, (env.copyToUser s.1 off tmp len).2, s.2)
  copyFromUser s off :=
    ((env.copyFromUser s.1 off).1, (env.copyFromUser s.1 off).2.1,
      (env.copyFromUser s.1 off).2.2, s.2)

/-- Every failure of the pattern is an errno or 0. -/
def Failures (fails : Nat → Option Int) : Prop :=
  ∀ k e, fails k = some e → -4095 ≤ e ∧ e ≤ 0

/-- The call with failures ends like the call without them, and each retry asks for what the
    attempt in front of it asked for. -/
def Transparent (env : At24Env σ) (fails : Nat → Option Int) (at24 : At24Data) (fPos : Int)
    (count : Nat) (s : σ) : Prop :=
  ∃ xs ys ret fPos' t k,
    Call env at24 fPos count s xs ret fPos' t ∧
    Call (flaky env fails) at24 fPos count (s, 0) ys ret fPos' (t, k) ∧
    ∀ pre x y post, ys = pre ++ x :: y :: post → x.result (flaky env fails) ≤ 0 →
      y.addr = x.addr ∧ y.len = x.len

section

variable {env : At24Env σ} {fails : Nat → Option Int} {at24 : At24Data} {pageSize count : Nat}
  {fPos : Int} {k : Nat}

/-! ### One attempt with and without failures -/

/-- The attempt as the call with failures makes it, with the number of its read. -/
def Attempt.numbered (x : Attempt σ) (k : Nat) : Attempt (σ × Nat) :=
  { s := (x.s, k), tmp := x.tmp, i := x.i, errCount := x.errCount, addr := x.addr, len := x.len }

/-- A call that does not fail is the one of the working chip. -/
theorem call_flaky (x : Attempt σ) (h : fails k = none) :
    (x.numbered k).call (flaky env fails) =
      (x.result env, x.filled env, x.after env, k + 1) := by
  simp only [Attempt.call, Attempt.numbered, flaky, h]
  rfl

/-- So is its result. -/
theorem result_flaky (x : Attempt σ) (h : fails k = none) :
    (x.numbered k).result (flaky env fails) = x.result env := by
  rw [Attempt.result, call_flaky x h]

/-- So is the number of bytes it brings. -/
theorem copied_flaky (x : Attempt σ) (h : fails k = none) :
    (x.numbered k).copied (flaky env fails) = x.copied env := by
  rw [Attempt.copied, result_flaky x h]
  rfl

/-- An attempt that does not fail does what it does without failures. -/
theorem turn_flaky (env : At24Env σ) (pageSize count : Nat) (fPos : Int) (x : Attempt σ)
    (h : fails k = none) :
    turn (flaky env fails) pageSize count fPos (x.numbered k) =
      (turn env pageSize count fPos x).map (Attempt.numbered · (k + 1))
        fun b => (b.1, b.2, k + 1) := by
  have hcopied : (x.numbered k).copied (flaky env fails) = x.copied env := copied_flaky x h
  have hfilled : (x.numbered k).filled (flaky env fails) = x.filled env := by
    rw [Attempt.filled, call_flaky x h]
  have hafter : (x.numbered k).after (flaky env fails) = (x.after env, k + 1) := by
    rw [Attempt.after, call_flaky x h]
  have hcopy : (x.numbered k).copy (flaky env fails) =
      ((x.copy env).1, (x.copy env).2, k + 1) := by
    rw [Attempt.copy, hcopied, hfilled, hafter]
    rfl
  have hnext : (x.numbered k).next (flaky env fails) = x.next env := by
    rw [Attempt.next, hcopied]
    rfl
  have hagain : (x.numbered k).again (flaky env fails) = (x.again env).numbered (k + 1) := by
    rw [Attempt.again, hfilled, hafter]
    rfl
  have herr : (x.numbered k).errCount = x.errCount := rfl
  rw [turn, turn, hcopied, hcopy, hnext, hfilled, hafter, hagain, herr]
  split_ifs <;> rfl

/-- As long as no attempt fails the two calls make the same attempts. -/
theorem visits_flaky {x : Attempt σ} {xs : List (Attempt σ)} {b : Int × σ}
    (hv : Visits (turn env pageSize count fPos) x xs b)
    (hok : ∀ y, Reaches (turn (flaky env fails) pageSize count fPos) (x.numbered k) y →
      fails y.s.2 = none) :
    ∃ ys k', Visits (turn (flaky env fails) pageSize count fPos) (x.numbered k) ys
      (b.1, b.2, k') := by
  induction hv generalizing k with
  | @last x b hturn =>
    have hflaky := turn_flaky env pageSize count fPos x (hok _ (Reaches.refl _))
    rw [hturn] at hflaky
    exact ⟨_, _, .last hflaky⟩
  | @more x y xs b hturn _ ih =>
    have hflaky := turn_flaky env pageSize count fPos x (hok _ (Reaches.refl _))
    rw [hturn] at hflaky
    -- both calls turn to the same next attempt
    obtain ⟨ys, k', hys⟩ := ih fun y hy => hok y (Reaches.head hflaky hy)
    exact ⟨_, k', .more hflaky hys⟩

/-! ### Attempts that ask for bytes -/

/-- The attempt asks for bytes, and for no more than are left. -/
structure Asks (count : Nat) (x : Attempt σ) : Prop where
  pos : 1 ≤ x.len
  le : x.i + x.len ≤ count

/-- Counts are below `3 * 2 ^ 30`, where `-EFAULT` could be one. -/
theorem Works.count_lt (h : Works env count) (s : σ) : count < 3221225472 := by
  by_contra hge
  exact h.faults s 0 [] count (by omega) (h.copies s 0 [] count (by omega))

/-- The first attempt at a chunk asks for at least one byte. -/
theorem chunkAttempt_asks (hps : 0 < at24.chip.pageSize) (hcount : count < 3221225472) (s : σ)
    (tmp : List Byte) (i : Nat) (hi : i < count) :
    Asks count (chunkAttempt at24.chip.pageSize count fPos s tmp i) := by
  obtain ⟨hpos, hle⟩ := readChunk_le at24.chip.pageSize count i fPos hps at24.chip.pageSize_lt hi
    (by omega)
  exact ⟨hpos, hle⟩

/-- What a call that does not fail gives for the bytes asked for. -/
theorem Works.copied_bounds (h : Works env count) {x : Attempt σ} (hlen : x.len < 3221225472) :
    x.copied env ≤ x.len ∧ (1 ≤ x.len → 1 ≤ x.copied env) := by
  have hle : 0 ≤ x.result env ∧ x.result env ≤ x.len := h.readBlock_le ..
  have hpos : 0 < x.len → 0 < x.result env := h.readBlock_pos _ _ _ _ _
  unfold Attempt.copied toU32
  omega

/-- Without failures an attempt that asks for bytes copies some, and the copy succeeds. -/
theorem Works.asks_copies (h : Works env count) {x : Attempt σ} (hx : Asks count x) :
    1 ≤ x.copied env ∧ x.i + x.copied env ≤ count ∧ (x.copy env).1 = 0 ∧
      x.next env = x.i + x.copied env := by
  have hcount := h.count_lt x.s
  have hle := hx.le
  obtain ⟨hbound, hpos⟩ := h.copied_bounds (x := x) (by omega)
  refine ⟨hpos hx.pos, by omega, h.copies _ _ _ _ (by omega), ?_⟩
  unfold Attempt.next toU32
  omega

/-- Every attempt that gets through leaves less to read. -/
theorem Works.asks_turn (h : Works env count) (hps : 0 < at24.chip.pageSize) {x y : Attempt σ}
    (hx : Asks count x) (hturn : turn env at24.chip.pageSize count fPos x = .inl y) :
    Asks count y ∧ count - y.i < count - x.i := by
  obtain ⟨hpos, hle, -, hnext⟩ := h.asks_copies hx
  obtain ⟨hfail, -, -⟩ | ⟨-, -, hmore, rfl⟩ := turn_inl hturn
  · omega
  · refine ⟨chunkAttempt_asks hps (h.count_lt x.s) _ _ _ hmore, ?_⟩
    simp only [chunkAttempt]
    omega

/-- The call without failures delivers everything. -/
theorem visits_works (h : Works env count) (hps : 0 < at24.chip.pageSize) {x : Attempt σ}
    {xs : List (Attempt σ)} {b : Int × σ} (hx : Asks count x)
    (hv : Visits (turn env at24.chip.pageSize count fPos) x xs b) : b.1 = toS32 count := by
  refine hv.result (P := fun b => b.1 = toS32 count)
    (fun x y hx hturn => (h.asks_turn hps hx hturn).1) ?_ hx
  intro x b hx hturn
  obtain ⟨hpos, hle, hcopy, hnext⟩ := h.asks_copies hx
  obtain ⟨hzero, -, -⟩ | ⟨-, hfault, -⟩ | ⟨-, -, hdone, rfl⟩ := turn_inr hturn
  · omega
  · exact absurd hcopy hfault
  · rw [show x.next env = count by omega]

/-! ### What a failure leads to -/

/-- A failed attempt copies nothing, or more than the user can hold. -/
theorem copied_fails (hfails : Failures fails) {x : Attempt (σ × Nat)} {e : Int}
    (h : fails x.s.2 = some e) :
    x.copied (flaky env fails) = 0 ∨ 3221225472 ≤ x.copied (flaky env fails) := by
  have hresult : x.result (flaky env fails) = e := by
    simp only [Attempt.result, Attempt.call, flaky, h]
  obtain ⟨hlo, hhi⟩ := hfails _ _ h
  unfold Attempt.copied toU32
  omega

/-- An attempt that does not fail brings at least one byte, if it asks for one. -/
theorem Works.copied_flaky (hworks : Works env count) {x : Attempt (σ × Nat)}
    (hlen : x.len < 3221225472) (h : fails x.s.2 = none) :
    x.copied (flaky env fails) ≤ x.len ∧ (1 ≤ x.len → 1 ≤ x.copied (flaky env fails)) := by
  have hsame : x.copied (flaky env fails) = ({ x with s := x.s.1 } : Attempt σ).copied env :=
    At24.copied_flaky { x with s := x.s.1 } h
  rw [hsame]
  exact hworks.copied_bounds hlen

/-- A count of more bytes than there can be ends in a fault of the copy. -/
theorem Works.fault_flaky (hworks : Works env count) {x : Attempt (σ × Nat)}
    (hlong : 3221225472 ≤ x.copied (flaky env fails)) : (x.copy (flaky env fails)).1 ≠ 0 :=
  hworks.faults _ _ _ _ hlong

/-- No result but `count` itself reads as `count`. -/
theorem toS32_ne {i : Nat} (hi : i < count) (hcount : count < 4294967296) :
    toS32 i ≠ toS32 count := by
  unfold toS32
  split <;> split <;> omega

/-- `-EFAULT` is no count. -/
theorem eFault_ne (hcount : count < 3221225472) : eFault ≠ toS32 count := by
  unfold eFault toS32
  split <;> omega

/-- An attempt that got nothing, whether the SMBus says 0 or an errno. -/
def Unanswered (env : At24Env σ) (fails : Nat → Option Int) (x : Attempt (σ × Nat)) : Prop :=
  x.copied (flaky env fails) = 0 ∨ 3221225472 ≤ x.copied (flaky env fails)

/-- A read that ends at an attempt without an answer does not return its count. -/
theorem Unanswered.ret_ne (hworks : Works env count) {x : Attempt (σ × Nat)}
    {b : Int × σ × Nat} (h : Unanswered env fails x) (hx : AtRetry count x)
    (hturn : turn (flaky env fails) pageSize count fPos x = .inr b) : b.1 ≠ toS32 count := by
  have hcount := hworks.count_lt x.s.1
  obtain ⟨-, -, rfl⟩ | ⟨-, -, rfl⟩ | ⟨hcopied, hcopy, -, -⟩ := turn_inr hturn
  · exact toS32_ne hx.i_lt (by omega)
  · exact eFault_ne hcount
  · rcases h with hzero | hlong
    · exact absurd hzero hcopied
    · exact absurd hcopy (hworks.fault_flaky hlong)

/-- What follows an unanswered attempt asks for nothing. -/
theorem Unanswered.len_eq (hworks : Works env count) {x y : Attempt (σ × Nat)}
    (h : Unanswered env fails x)
    (hturn : turn (flaky env fails) pageSize count fPos x = .inl y) : y.len = 0 := by
  obtain ⟨-, -, rfl⟩ | ⟨hne, hcopy, -, -⟩ := turn_inl hturn
  · rfl
  · exact absurd hcopy (hworks.fault_flaky (h.resolve_left hne))

/-- An attempt that asks for nothing gets no answer. -/
theorem unanswered_of_len (hworks : Works env count) (hfails : Failures fails)
    {x : Attempt (σ × Nat)} (hlen : x.len = 0) : Unanswered env fails x := by
  cases hk : fails x.s.2 with
  | some e => exact copied_fails hfails hk
  | none =>
    have hbound := hworks.copied_flaky (x := x) (by omega) hk
    exact Or.inl (by omega)

/-- Once `len` is 0 it stays 0, and the call returns short. -/
theorem visits_empty (hworks : Works env count) (hfails : Failures fails)
    {x : Attempt (σ × Nat)} {xs : List (Attempt (σ × Nat))} {b : Int × σ × Nat}
    (hv : Visits (turn (flaky env fails) pageSize count fPos) x xs b) (hx : AtRetry count x)
    (hlen : x.len = 0) : b.1 ≠ toS32 count := by
  refine hv.result (I := fun x => AtRetry count x ∧ x.len = 0)
    (P := fun b => b.1 ≠ toS32 count) ?_ ?_ ⟨hx, hlen⟩
  · intro x y ⟨hx, hlen⟩ hturn
    exact ⟨hx.turn hturn, (unanswered_of_len hworks hfails hlen).len_eq hworks hturn⟩
  · intro x b ⟨hx, hlen⟩ hturn
    exact (unanswered_of_len hworks hfails hlen).ret_ne hworks hx hturn

/-- Behind an attempt that asks for bytes and does not fail comes another chunk. -/
theorem Asks.turn_flaky (hworks : Works env count) (hps : 0 < at24.chip.pageSize)
    {x y : Attempt (σ × Nat)} (hx : Asks count x) (hok : fails x.s.2 = none)
    (hturn : turn (flaky env fails) at24.chip.pageSize count fPos x = .inl y) :
    Asks count y := by
  have hcount := hworks.count_lt x.s.1
  have hle := hx.le
  obtain ⟨-, hpos⟩ := hworks.copied_flaky (by omega) hok
  obtain ⟨hzero, -, -⟩ | ⟨-, -, hmore, rfl⟩ := turn_inl hturn
  · exact absurd (hpos hx.pos) (by omega)
  · exact chunkAttempt_asks hps hcount _ _ _ hmore

/-- A call that returns `count` has met no failure. -/
theorem visits_all_succeed (hworks : Works env count) (hfails : Failures fails)
    (hps : 0 < at24.chip.pageSize) {x : Attempt (σ × Nat)} {xs : List (Attempt (σ × Nat))}
    {b : Int × σ × Nat}
    (hv : Visits (turn (flaky env fails) at24.chip.pageSize count fPos) x xs b)
    (hx : AtRetry count x) (hasks : Asks count x) (hret : b.1 = toS32 count) :
    ∀ y ∈ xs, fails y.s.2 = none := by
  induction hv with
  -- the last attempt: unanswered, the call returns short
  | @last x b hturn =>
    intro y hy
    rw [List.mem_singleton] at hy
    subst hy
    cases hk : fails y.s.2 with
    | none => rfl
    | some e =>
      have hshort : Unanswered env fails y := copied_fails hfails hk
      exact absurd hret (hshort.ret_ne hworks hx hturn)
  -- any other one: unanswered, the rest of the call asks for nothing
  | @more x y xs b hturn hrest ih =>
    have hok : fails x.s.2 = none := by
      cases hk : fails x.s.2 with
      | none => rfl
      | some e =>
        have hshort : Unanswered env fails x := copied_fails hfails hk
        exact absurd hret (visits_empty hworks hfails hrest (hx.turn hturn)
          (hshort.len_eq hworks hturn))
    intro z hz
    rw [List.mem_cons] at hz
    cases hz with
    | inl heq => exact heq ▸ hok
    | inr hmem => exact ih (hx.turn hturn) (hasks.turn_flaky hworks hps hok hturn) hret z hmem

/-! ### Transparent calls -/

/-- A read begins in the same way. -/
theorem start_flaky (s : σ) :
    start (flaky env fails) at24 fPos count (s, k) =
      (start env at24 fPos count s).map (Attempt.numbered · k) := by
  unfold start
  split
  · rfl
  · simp only [flaky]
    cases hmalloc : env.kmalloc s at24.chip.pageSize with
    | mk tmp t =>
      cases tmp with
      | none => rfl
      | some tmp =>
        simp only
        split <;> rfl

/-- Without an attempt the two calls do the same. -/
theorem at24Read_flaky_none {s : σ} (hstart : start env at24 fPos count s = none) (fuel : Nat) :
    at24Read (flaky env fails) at24 fPos count fuel (s, k) =
      (at24Read env at24 fPos count fuel s).map fun b => (b.1, b.2.1, b.2.2, k) := by
  unfold start at hstart
  unfold at24Read
  by_cases hpos : fPos ≥ at24.chip.byteLen
  · rw [if_pos hpos, if_pos hpos]
    rfl
  · rw [if_neg hpos] at hstart
    rw [if_neg hpos, if_neg hpos]
    simp only [flaky]
    rcases hmalloc : env.kmalloc s at24.chip.pageSize with ⟨_ | tmp, t⟩ <;>
      simp only [hmalloc] at hstart
    · rfl
    · by_cases hcount : 0 < count
      · simp only [hcount, ↓reduceIte, reduceCtorEq] at hstart
      · simp [hcount]

/-- The bytes are in the chip: a call that makes an attempt starts by asking for some. -/
theorem start_asks (hworks : Works env count) (hps : 0 < at24.chip.pageSize) {s : σ}
    {x₀ : Attempt σ} (hstart : start env at24 fPos count s = some x₀) : Asks count x₀ := by
  obtain ⟨hpos, s', tmp, rfl⟩ := start_eq hstart
  exact chunkAttempt_asks hps (hworks.count_lt s') s' tmp 0 hpos

/-- As long as no attempt fails, each of them asks for at least one byte. -/
theorem attempted_asks (hworks : Works env count) (hps : 0 < at24.chip.pageSize) {s : σ}
    (hok : ∀ x, Attempted (flaky env fails) at24 fPos count (s, k) x → fails x.s.2 = none)
    {x : Attempt (σ × Nat)} (hx : Attempted (flaky env fails) at24 fPos count (s, k) x) :
    Asks count x := by
  obtain ⟨x₀, hstart, hreach⟩ := hx
  refine hreach.inv (fun y z hy hasks hturn => ?_) ?_
  · exact hasks.turn_flaky hworks hps (hok y ⟨x₀, hstart, hy⟩) hturn
  · obtain ⟨hpos, s', tmp, rfl⟩ := start_eq hstart
    exact chunkAttempt_asks hps (hworks.count_lt s) s' tmp 0 hpos

/-- And gets one. -/
theorem result_pos (hworks : Works env count) {x : Attempt (σ × Nat)} (hx : Asks count x)
    (hok : fails x.s.2 = none) : 0 < x.result (flaky env fails) := by
  have hsame : x.result (flaky env fails) = ({ x with s := x.s.1 } : Attempt σ).result env :=
    result_flaky { x with s := x.s.1 } hok
  rw [hsame]
  exact hworks.readBlock_pos _ _ _ _ _ hx.pos

/-- Without failures a read is as on the working chip. -/
theorem transparent_of_succeed (hworks : Works env count) (hps : 0 < at24.chip.pageSize) (s : σ)
    (hok : ∀ x, Attempted (flaky env fails) at24 fPos count (s, 0) x → fails x.s.2 = none) :
    Transparent env fails at24 fPos count s := by
  cases hstart : start env at24 fPos count s with
  | none =>
    obtain ⟨ret, t, hread⟩ := at24Read_none hstart
    refine ⟨[], [], ret, fPos, t, 0, ⟨fun fuel _ => hread fuel, by rw [hstart]⟩, ⟨?_, ?_⟩, by simp⟩
    · intro fuel _
      rw [at24Read_flaky_none hstart, hread]
      rfl
    · rw [start_flaky, hstart]
      rfl
  | some x₀ =>
    have hasks := start_asks hworks hps hstart
    have hflaky : start (flaky env fails) at24 fPos count (s, 0) = some (x₀.numbered 0) := by
      rw [start_flaky, hstart]
      rfl
    have hends : ∃ xs b, Visits (turn env at24.chip.pageSize count fPos) x₀ xs b :=
      exists_visits _ (fun x y hx hturn => hworks.asks_turn hps hx hturn) x₀ hasks
    obtain ⟨xs, ⟨ret, t⟩, hv⟩ := hends
    obtain ⟨ys, k, hvf⟩ := visits_flaky hv fun y hy => hok y ⟨_, hflaky, hy⟩
    refine ⟨xs, ys, ret, _, t, k, call_of_visits hstart hv, call_of_visits hflaky hvf, ?_⟩
    -- no attempt fails, so there is no retry
    intro pre x y post hys hfail
    have hx : Attempted (flaky env fails) at24 fPos count (s, 0) x :=
      ⟨_, hflaky, hvf.mem_iff.mp (by simp [hys])⟩
    have hpos := result_pos hworks (attempted_asks hworks hps hok hx) (hok x hx)
    omega

/-- A read as on the working chip has had no failure: behind one it asks with the length
    overwritten. -/
theorem succeed_of_transparent (hworks : Works env count) (hfails : Failures fails)
    (hps : 0 < at24.chip.pageSize) {s : σ} (h : Transparent env fails at24 fPos count s)
    {x : Attempt (σ × Nat)} (hx : Attempted (flaky env fails) at24 fPos count (s, 0) x) :
    fails x.s.2 = none := by
  obtain ⟨xs, ys, ret, fPos', t, k, hcall, hflaky, -⟩ := h
  obtain ⟨y₀, hstart', hreach⟩ := hx
  have hy₀ := hstart'
  rw [start_flaky, Option.map_eq_some_iff] at hy₀
  obtain ⟨x₀, hstart, rfl⟩ := hy₀
  have hasks := start_asks hworks hps hstart
  have hret : ret = toS32 count := visits_works hworks hps hasks (hcall.visits hstart)
  have hvf := hflaky.visits hstart'
  exact visits_all_succeed hworks hfails hps hvf (Attempted.atRetry ⟨_, hstart', Reaches.refl _⟩)
    ⟨hasks.pos, hasks.le⟩ hret x (hvf.mem_iff.mpr hreach)

end

/-- On a chip that works otherwise, a call with failures ends like the call without them iff
    none of its attempts fails. -/
theorem transparent_iff (env : At24Env σ) (fails : Nat → Option Int) (count : Nat)
    (hworks : Works env count) (hfails : Failures fails) (at24 : At24Data)
    (hps : 0 < at24.chip.pageSize) (fPos : Int) (s : σ) :
    Transparent env fails at24 fPos count s ↔
      ∀ x, Attempted (flaky env fails) at24 fPos count (s, 0) x → fails x.s.2 = none :=
  ⟨fun h _ hx => succeed_of_transparent hworks hfails hps h hx,
    transparent_of_succeed hworks hps s⟩

/-- The chip of `eepromEnv` with 3 GiB for the user. -/
def userEnv : At24Env Eeprom :=
  { eepromEnv with
    copyToUser := fun s off tmp len =>
      if len < 3221225472 then eepromEnv.copyToUser s off tmp len else (len, s) }

/-- The chip of the example works. -/
theorem userEnv_works {count : Nat} (hcount : count < 3221225472) : Works userEnv count where
  kmalloc s size := ⟨_, _, rfl⟩
  readBlock_le s client command len tmp := by
    simp only [userEnv, eepromEnv]
    omega
  readBlock_pos s client command len tmp hlen := by
    simp only [userEnv, eepromEnv]
    omega
  copies s off tmp len hle := by
    simp only [userEnv, if_pos (show len < 3221225472 by omega)]
    rfl
  faults s off tmp len hlong := by
    simp only [userEnv, if_neg (show ¬ len < 3221225472 by omega)]
    omega

/-- The pattern with one failure: the first read returns 0. -/
def failsOnce (k : Nat) : Option Int := if k = 0 then some 0 else none

/-- Its one failure is an error. -/
theorem failsOnce_failures : Failures failsOnce := by
  intro k e h
  simp only [failsOnce, Option.ite_none_right_eq_some, Option.some.injEq] at h
  omega

/-- A read of 40 bytes at 20, whose third attempt fails. -/
theorem transparent_iff_once :
    Transparent userEnv failsOnce ⟨chip512, 2⟩ 20 40 ⟨fun _ => 0, fun _ => 0⟩ ↔
      ∀ x, Attempted (flaky userEnv failsOnce) ⟨chip512, 2⟩ 20 40
        (⟨fun _ => 0, fun _ => 0⟩, 0) x → failsOnce x.s.2 = none :=
  transparent_iff userEnv failsOnce 40 (userEnv_works (by decide)) failsOnce_failures
    ⟨chip512, 2⟩ (by decide) 20 _

/-- One failed read of one byte: the five retries ask for 0 bytes, and the call returns 0. -/
theorem transparent_fails_once :
    ¬ ∀ (env : At24Env Eeprom) (fails : Nat → Option Int) (at24 : At24Data) (p count : Nat)
      (s : Eeprom), Works env count → Failures fails →
      (∀ k, ∃ j ≤ 5, fails (k + j) = none) → 0 < at24.chip.pageSize →
      p + count ≤ at24.chip.byteLen → Transparent env fails at24 p count s := by
  intro h
  have hworks : Works userEnv 1 := userEnv_works (by decide)
  have htransparent := h userEnv failsOnce ⟨chip512, 2⟩ 0 1 ⟨fun _ => 0, fun _ => 0⟩ hworks
    failsOnce_failures (fun k => ⟨1, by decide, if_neg (by omega)⟩) (by decide) (by decide)
  have hfirst : Attempted (flaky userEnv failsOnce) ⟨chip512, 2⟩ (0 : Nat) 1
      (⟨fun _ => 0, fun _ => 0⟩, 0)
      (chunkAttempt 16 1 0 (⟨fun _ => 0, fun _ => 0⟩, 0) (List.replicate 16 0) 0) :=
    ⟨_, rfl, Reaches.refl _⟩
  have hok := succeed_of_transparent hworks failsOnce_failures (by decide) htransparent hfirst
  exact absurd hok (by simp [failsOnce, chunkAttempt])

end At24
