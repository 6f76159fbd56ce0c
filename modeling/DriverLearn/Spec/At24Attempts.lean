import DriverLearn.ForStd.Loop
import DriverLearn.Native.At24cxx

/-!
# The attempts of an EEPROM read

`at24_read` calls the SMBus function once each time it passes the label `retry`. An
`Attempt` holds its variables there, and `turn` takes one attempt to the next or to the
result of the loop.

## Key results

- `at24ReadLoop_eq`: the loop of `at24_read` iterates `turn`
- `call_of_visits`, `Call.visits`: a call that ends is a list of attempts
-/

namespace At24

open Loop Word

variable {σ : Type} (env : At24Env σ)

/-! ### One attempt -/

/-- The variables of `at24_read` at the label `retry`. -/
structure Attempt (σ : Type) where
  s : σ
  tmp : List Byte
  i : Nat
  errCount : Nat
  addr : Nat
  len : Nat

namespace Attempt

variable (x : Attempt σ)

/-- The SMBus call of an attempt. -/
def call : Int × List Byte × σ :=
  env.readBlock x.s 0 (BitVec.ofNat 8 x.addr) x.len x.tmp

/-- What the block read returns. -/
def result : Int := (x.call env).1

/-- `tmp` behind the call -/
def filled : List Byte := (x.call env).2.1

/-- The state behind the block read. -/
def after : σ := (x.call env).2.2

/-- The length of the copy to the user behind the call, 0 if there is none. -/
def copied : Nat := toU32 (x.result env)

/-- The copy to the user, and the state behind it. -/
def copy : Nat × σ := env.copyToUser (x.after env) x.i (x.filled env) (x.copied env)

/-- The attempt behind `goto retry`: `len` is what the failed call has stored there. -/
def again : Attempt σ :=
  { x with s := x.after env, tmp := x.filled env, errCount := x.errCount + 1, len := 0 }

/-- `i` behind a copy -/
def next : Nat := toU32 (x.i + x.copied env)

end Attempt

/-- The first attempt at the chunk from `i` on. -/
def chunkAttempt (pageSize count : Nat) (fPos : Int) (s : σ) (tmp : List Byte) (i : Nat) :
    Attempt σ :=
  { s, tmp, i, errCount := 0
    addr := (readChunk pageSize count fPos i).1
    len := (readChunk pageSize count fPos i).2 }

/-- From one passage of the label `retry` to the next, or to the end of the loop. -/
def turn (pageSize count : Nat) (fPos : Int) (x : Attempt σ) : Attempt σ ⊕ (Int × σ) :=
  if x.copied env = 0 then
    if x.errCount < 5 then
      .inl (x.again env)
    else
      .inr (toS32 x.i, x.after env)
  else if (x.copy env).1 ≠ 0 then
    .inr (eFault, (x.copy env).2)
  else if x.next env < count then
    .inl (chunkAttempt pageSize count fPos (x.copy env).2 (x.filled env) (x.next env))
  else
    .inr (toS32 (x.next env), (x.copy env).2)

/-- The loop of `at24_read` iterates the turn. -/
theorem at24ReadLoop_eq (pageSize count : Nat) (fPos : Int) (fuel : Nat) (x : Attempt σ) :
    at24ReadLoop env pageSize count fPos fuel x.s x.tmp x.i x.errCount x.addr x.len =
      iterate (turn env pageSize count fPos) fuel x := by
  induction fuel generalizing x with
  | zero => rfl
  | succ fuel ih =>
    rw [at24ReadLoop, iterate, turn]
    simp only [Nat.le_zero]
    change (if x.copied env = 0 then _ else _) = _
    -- the test `len <= 0`
    by_cases hfail : x.copied env = 0
    · rw [if_pos hfail, if_pos hfail]
      -- the test of `err_count`
      by_cases herr : x.errCount < 5
      · rw [if_pos herr, if_pos herr]
        change at24ReadLoop env pageSize count fPos fuel (x.after env) (x.filled env) x.i
          (x.errCount + 1) x.addr (x.copied env) = _
        rw [hfail]
        exact ih (x.again env)
      · rw [if_neg herr, if_neg herr]
        rfl
    · rw [if_neg hfail, if_neg hfail]
      change (if (x.copy env).1 ≠ 0 then _ else _) = _
      -- what `copy_to_user` could not copy
      by_cases hfault : (x.copy env).1 ≠ 0
      · rw [if_pos hfault, if_pos hfault]
        rfl
      · rw [if_neg hfault, if_neg hfault]
        change (if x.next env < count then _ else _) = _
        -- the condition of the loop
        by_cases hmore : x.next env < count
        · rw [if_pos hmore, if_pos hmore]
          exact ih (chunkAttempt pageSize count fPos (x.copy env).2 (x.filled env) (x.next env))
        · rw [if_neg hmore, if_neg hmore]
          rfl

section

variable {env} {pageSize count : Nat} {fPos : Int} {x y : Attempt σ}

/-! ### What a turn can do -/

/-- A failed attempt is repeated, as long as there were fewer than five. -/
theorem turn_again (hfail : x.copied env = 0) (herr : x.errCount < 5) :
    turn env pageSize count fPos x = .inl (x.again env) := by
  rw [turn, if_pos hfail, if_pos herr]

/-- Behind the sixth failure the bytes so far are returned. -/
theorem turn_giveUp (hfail : x.copied env = 0) (herr : 5 ≤ x.errCount) :
    turn env pageSize count fPos x = .inr (toS32 x.i, x.after env) := by
  rw [turn, if_pos hfail, if_neg (by omega)]

/-- A copy that faults ends the read with `-EFAULT`. -/
theorem turn_fault (hcopied : x.copied env ≠ 0) (hfault : (x.copy env).1 ≠ 0) :
    turn env pageSize count fPos x = .inr (eFault, (x.copy env).2) := by
  rw [turn, if_neg hcopied, if_pos hfault]

/-- A chunk that got through gives way to the next one. -/
theorem turn_more (hcopied : x.copied env ≠ 0) (hcopy : (x.copy env).1 = 0)
    (hmore : x.next env < count) :
    turn env pageSize count fPos x =
      .inl (chunkAttempt pageSize count fPos (x.copy env).2 (x.filled env) (x.next env)) := by
  rw [turn, if_neg hcopied, if_neg (by simp [hcopy]), if_pos hmore]

/-- The last chunk ends the read. -/
theorem turn_done (hcopied : x.copied env ≠ 0) (hcopy : (x.copy env).1 = 0)
    (hdone : count ≤ x.next env) :
    turn env pageSize count fPos x = .inr (toS32 (x.next env), (x.copy env).2) := by
  rw [turn, if_neg hcopied, if_neg (by simp [hcopy]), if_neg (by omega)]

/-- A turn that does not end the loop repeats a failed call or starts the next chunk. -/
theorem turn_inl (h : turn env pageSize count fPos x = .inl y) :
    (x.copied env = 0 ∧ x.errCount < 5 ∧ y = x.again env) ∨
      (x.copied env ≠ 0 ∧ (x.copy env).1 = 0 ∧ x.next env < count ∧
        y = chunkAttempt pageSize count fPos (x.copy env).2 (x.filled env) (x.next env)) := by
  by_cases hfail : x.copied env = 0
  · by_cases herr : x.errCount < 5
    · rw [turn_again hfail herr, Sum.inl.injEq] at h
      exact Or.inl ⟨hfail, herr, h.symm⟩
    · rw [turn_giveUp hfail (by omega)] at h
      cases h
  · by_cases hcopy : (x.copy env).1 = 0
    · by_cases hmore : x.next env < count
      · rw [turn_more hfail hcopy hmore, Sum.inl.injEq] at h
        exact Or.inr ⟨hfail, hcopy, hmore, h.symm⟩
      · rw [turn_done hfail hcopy (by omega)] at h
        cases h
    · rw [turn_fault hfail hcopy] at h
      cases h

/-- One that ends it gives up, faults or has read all that is left. -/
theorem turn_inr {b : Int × σ} (h : turn env pageSize count fPos x = .inr b) :
    (x.copied env = 0 ∧ 5 ≤ x.errCount ∧ b = (toS32 x.i, x.after env)) ∨
      (x.copied env ≠ 0 ∧ (x.copy env).1 ≠ 0 ∧ b = (eFault, (x.copy env).2)) ∨
      (x.copied env ≠ 0 ∧ (x.copy env).1 = 0 ∧ count ≤ x.next env ∧
        b = (toS32 (x.next env), (x.copy env).2)) := by
  by_cases hfail : x.copied env = 0
  · by_cases herr : x.errCount < 5
    · rw [turn_again hfail herr] at h
      cases h
    · rw [turn_giveUp hfail (by omega), Sum.inr.injEq] at h
      exact Or.inl ⟨hfail, by omega, h.symm⟩
  · by_cases hcopy : (x.copy env).1 = 0
    · by_cases hmore : x.next env < count
      · rw [turn_more hfail hcopy hmore] at h
        cases h
      · rw [turn_done hfail hcopy (by omega), Sum.inr.injEq] at h
        exact Or.inr (Or.inr ⟨hfail, hcopy, by omega, h.symm⟩)
    · rw [turn_fault hfail hcopy, Sum.inr.injEq] at h
      exact Or.inr (Or.inl ⟨hfail, hcopy, h.symm⟩)

/-- At the label bytes are left to read, and at most five calls of the chunk have failed. -/
structure AtRetry (count : Nat) (x : Attempt σ) : Prop where
  i_lt : x.i < count
  errCount_le : x.errCount ≤ 5

/-- Every attempt but the first one of a chunk is a repetition. -/
theorem AtRetry.turn (hx : AtRetry count x) (h : turn env pageSize count fPos x = .inl y) :
    AtRetry count y := by
  obtain ⟨-, herr, rfl⟩ | ⟨-, -, hmore, rfl⟩ := turn_inl h
  · exact ⟨hx.i_lt, by simp only [Attempt.again]; omega⟩
  · exact ⟨hmore, by simp [chunkAttempt]⟩

end

/-! ### A whole call -/

/-- The first attempt of a call, unless it returns in front of the loop or `count` is 0. -/
def start (at24 : At24Data) (fPos : Int) (count : Nat) (s : σ) : Option (Attempt σ) :=
  if fPos ≥ at24.chip.byteLen then
    none
  else
    match env.kmalloc s at24.chip.pageSize with
    | (none, _) => none
    | (some tmp, s) =>
      if 0 < count then some (chunkAttempt at24.chip.pageSize count fPos s tmp 0) else none

/-- The call makes this attempt. -/
def Attempted (at24 : At24Data) (fPos : Int) (count : Nat) (s : σ) (x : Attempt σ) : Prop :=
  ∃ x₀, start env at24 fPos count s = some x₀ ∧
    Reaches (turn env at24.chip.pageSize count fPos) x₀ x

/-- The call ends: it makes the attempts `xs` in this order and no others, and returns `ret`
    with this file position and state. -/
structure Call (at24 : At24Data) (fPos : Int) (count : Nat) (s : σ) (xs : List (Attempt σ))
    (ret fPos' : Int) (t : σ) : Prop where
  returns : ∀ fuel, xs.length ≤ fuel → at24Read env at24 fPos count fuel s = some (ret, fPos', t)
  attempts : match start env at24 fPos count s with
    | none => xs = []
    | some x₀ => Visits (turn env at24.chip.pageSize count fPos) x₀ xs (ret, t)

section

variable {env} {at24 : At24Data} {fPos : Int} {count : Nat} {s t : σ} {x₀ x : Attempt σ}
  {xs : List (Attempt σ)} {ret fPos' : Int}

/-- The first attempt is at the front of the range, behind the allocation of `tmp`. -/
theorem start_behind_kmalloc (h : start env at24 fPos count s = some x₀) :
    0 < count ∧ ∃ tmp, x₀ = chunkAttempt at24.chip.pageSize count fPos
      (env.kmalloc s at24.chip.pageSize).2 tmp 0 := by
  unfold start at h
  by_cases hpos : fPos ≥ at24.chip.byteLen
  · rw [if_pos hpos] at h
    cases h
  · rw [if_neg hpos] at h
    rcases hmalloc : env.kmalloc s at24.chip.pageSize with ⟨_ | tmp, s'⟩ <;>
      simp only [hmalloc] at h
    · cases h
    · by_cases hcount : 0 < count
      · rw [if_pos hcount] at h
        exact ⟨hcount, tmp, (Option.some.inj h).symm⟩
      · rw [if_neg hcount] at h
        cases h

/-- A read that begins has something to read, and begins with the first chunk. -/
theorem start_eq (h : start env at24 fPos count s = some x₀) :
    0 < count ∧ ∃ s tmp, x₀ = chunkAttempt at24.chip.pageSize count fPos s tmp 0 := by
  obtain ⟨hcount, tmp, hx₀⟩ := start_behind_kmalloc h
  exact ⟨hcount, _, tmp, hx₀⟩

/-- A read that begins iterates the turn, and moves the position by what it returns. -/
theorem at24Read_start (h : start env at24 fPos count s = some x₀) (fuel : Nat) :
    at24Read env at24 fPos count fuel s =
      (iterate (turn env at24.chip.pageSize count fPos) fuel x₀).map
        fun b => (b.1, if b.1 > 0 then fPos + b.1 else fPos, b.2) := by
  unfold start at h
  unfold at24Read
  by_cases hpos : fPos ≥ at24.chip.byteLen
  · rw [if_pos hpos] at h
    cases h
  · rw [if_neg hpos] at h ⊢
    rcases hmalloc : env.kmalloc s at24.chip.pageSize with ⟨_ | tmp, s'⟩ <;>
      simp only [hmalloc] at h
    · cases h
    · by_cases hcount : 0 < count
      · simp only [hcount, ↓reduceIte, Option.some.injEq] at h ⊢
        rw [← h, ← at24ReadLoop_eq]
        simp only [chunkAttempt]
        cases at24ReadLoop env at24.chip.pageSize count fPos fuel s' tmp 0 0
          (readChunk at24.chip.pageSize count fPos 0).1
          (readChunk at24.chip.pageSize count fPos 0).2 <;> rfl
      · simp only [hcount, ↓reduceIte, reduceCtorEq] at h

/-- A call that makes no attempt returns and leaves the file position. -/
theorem at24Read_none (h : start env at24 fPos count s = none) :
    ∃ ret t, ∀ fuel, at24Read env at24 fPos count fuel s = some (ret, fPos, t) := by
  unfold start at h
  unfold at24Read
  by_cases hpos : fPos ≥ at24.chip.byteLen
  · exact ⟨0, s, fun fuel => if_pos hpos⟩
  · rw [if_neg hpos] at h
    simp only [if_neg hpos]
    rcases hmalloc : env.kmalloc s at24.chip.pageSize with ⟨_ | tmp, s'⟩ <;>
      simp only [hmalloc] at h
    · exact ⟨eFault, s', fun fuel => rfl⟩
    · by_cases hcount : 0 < count
      · simp only [hcount, ↓reduceIte, reduceCtorEq] at h
      · exact ⟨0, s', fun fuel => by simp [hcount]⟩

/-- The attempts that a read goes through make up a call. -/
theorem call_of_visits (hstart : start env at24 fPos count s = some x₀)
    (hvisits : Visits (turn env at24.chip.pageSize count fPos) x₀ xs (ret, t)) :
    Call env at24 fPos count s xs ret (if ret > 0 then fPos + ret else fPos) t where
  returns fuel hfuel := by
    rw [at24Read_start hstart, hvisits.iterate_eq fuel hfuel]
    rfl
  attempts := by rw [hstart]; exact hvisits

/-- A read that does not begin is a call without attempts. -/
theorem call_of_none (hstart : start env at24 fPos count s = none) :
    ∃ ret t, Call env at24 fPos count s [] ret fPos t := by
  obtain ⟨ret, t, hread⟩ := at24Read_none hstart
  exact ⟨ret, t, fun fuel _ => hread fuel, by rw [hstart]⟩

/-- The attempts of a call are those that its read goes through. -/
theorem Call.visits (h : Call env at24 fPos count s xs ret fPos' t)
    (hstart : start env at24 fPos count s = some x₀) :
    Visits (turn env at24.chip.pageSize count fPos) x₀ xs (ret, t) := by
  have hattempts := h.attempts
  rwa [hstart] at hattempts

/-- The attempts in the list are the attempts the call makes. -/
theorem Call.mem_iff (h : Call env at24 fPos count s xs ret fPos' t) :
    x ∈ xs ↔ Attempted env at24 fPos count s x := by
  cases hstart : start env at24 fPos count s with
  | none =>
    have hnil := h.attempts
    rw [hstart] at hnil
    simp [hnil, Attempted, hstart]
  | some x₀ =>
    rw [(h.visits hstart).mem_iff]
    simp [Attempted, hstart]

/-- Every attempt of a call counts its failures. -/
theorem Attempted.atRetry (h : Attempted env at24 fPos count s x) : AtRetry count x := by
  obtain ⟨x₀, hstart, hreach⟩ := h
  apply hreach.inv (fun _ _ _ hy hturn => hy.turn hturn)
  obtain ⟨hcount, s', tmp, rfl⟩ := start_eq hstart
  exact ⟨hcount, by simp [chunkAttempt]⟩

end

end At24
