import DriverLearn.Spec.At24RoundTrip

/-!
# The byte writes of an EEPROM write

`at24_write` sends its buffer byte by byte and repeats a byte that fails up to five times.
`recorded` is the environment of the call with a record of the byte writes it issues.

## Key results

- `at24WriteRetry_calls`: the calls for one byte
- `at24WriteLoop_calls`: the calls from a byte on
- `at24Write_sends`: the calls, the bytes stored and the result of a whole write
-/

namespace At24

open Word

variable {σ : Type}

/-- Where the user buffer is in the state: a complete copy delivers its byte, and nothing
    changes it while the call runs. -/
structure Reads (env : At24Env σ) (user : σ → Nat → Byte) (count : Nat) : Prop where
  copyFromUser : ∀ s, ∀ off < count, (env.copyFromUser s off).1 = 0 →
    (env.copyFromUser s off).2.1 = user s off
  behind_copy : ∀ s off, user (env.copyFromUser s off).2.2 = user s
  behind_write : ∀ s client command value,
    user (env.writeByteData s client command value).2 = user s

/-! ### The record of the byte writes -/

/-- A call of `i2c_smbus_write_byte_data` with its result. -/
structure WriteCall where
  client : Nat
  command : Byte
  value : Byte
  result : Int

/-- The same functions, with a record of the byte writes. -/
def recorded (env : At24Env σ) : At24Env (σ × List WriteCall) where
  kmalloc s size := ((env.kmalloc s.1 size).1, (env.kmalloc s.1 size).2, s.2)
  readBlock s client command len tmp :=
    ((env.readBlock s.1 client command len tmp).1, (env.readBlock s.1 client command len tmp).2.1,
      (env.readBlock s.1 client command len tmp).2.2, s.2)
  writeByteData s client command value :=
    let (r, t) := env.writeByteData s.1 client command value
    (r, t, s.2 ++ [⟨client, command, value, r⟩])
  copyToUser s off tmp len :=
    ((env.copyToUser s.1 off tmp len).1, (env.copyToUser s.1 off tmp len).2, s.2)
  copyFromUser s off :=
    ((env.copyFromUser s.1 off).1, (env.copyFromUser s.1 off).2.1,
      (env.copyFromUser s.1 off).2.2, s.2)

/-- The call sends `value` to the cell of byte `i`, by the low 8 bits of its position. -/
structure WriteCall.Sends (fPos : Int) (i : Nat) (value : Byte) (c : WriteCall) : Prop where
  client : c.client = 0
  command : c.command = BitVec.ofInt 8 (fPos + i)
  value : c.value = value

/-- The calls for byte `i` until it gets through: up to `budget` failures and a success. -/
def GetsThrough (fPos : Int) (i : Nat) (value : Byte) (budget : Nat) (calls : List WriteCall) :
    Prop :=
  (∀ c ∈ calls, c.Sends fPos i value) ∧
    ∃ failed last, calls = failed ++ [last] ∧ failed.length ≤ budget ∧
      (∀ c ∈ failed, c.result < 0) ∧ 0 ≤ last.result

/-- The calls for byte `i` that fail every one of the attempts left. -/
def Fails (fPos : Int) (i : Nat) (value : Byte) (attempts : Nat) (calls : List WriteCall) :
    Prop :=
  (∀ c ∈ calls, c.Sends fPos i value) ∧ calls.length = attempts ∧ ∀ c ∈ calls, c.result < 0

/-- The calls for the bytes from `i` on, one list for each byte: all of them get through. -/
def InOrder (fPos : Int) (user : Nat → Byte) : (i : Nat) → List (List WriteCall) → Prop
  | _, [] => True
  | i, calls :: blocks => GetsThrough fPos i (user i) 5 calls ∧ InOrder fPos user (i + 1) blocks

/-- The bytes the chip has taken. -/
def stored (log : List WriteCall) : List Byte :=
  (log.filter fun c => 0 ≤ c.result).map WriteCall.value

/-- What two lists of calls store. -/
theorem stored_append (xs ys : List WriteCall) : stored (xs ++ ys) = stored xs ++ stored ys := by
  simp [stored]

/-- Calls that fail store nothing. -/
theorem stored_of_failed {calls : List WriteCall} (h : ∀ c ∈ calls, c.result < 0) :
    stored calls = [] := by
  rw [stored, List.filter_eq_nil_iff.mpr, List.map_nil]
  intro c hc
  have hneg := h c hc
  simp only [decide_eq_true_eq]
  omega

/-- A byte that gets through is stored once. -/
theorem GetsThrough.stored_eq {fPos : Int} {i budget : Nat} {value : Byte}
    {calls : List WriteCall} (h : GetsThrough fPos i value budget calls) :
    stored calls = [value] := by
  obtain ⟨hsends, failed, last, rfl, -, hfailed, hlast⟩ := h
  rw [stored_append, stored_of_failed hfailed, List.nil_append]
  have hvalue := (hsends last (by simp)).value
  simp [stored, hlast, hvalue]

/-- What gets through is stored: the bytes of the buffer, in their order. -/
theorem InOrder.stored_eq {fPos : Int} {user : Nat → Byte} {i : Nat}
    {blocks : List (List WriteCall)} (h : InOrder fPos user i blocks) :
    stored blocks.flatten = (List.range' i blocks.length).map user := by
  induction blocks generalizing i with
  | nil => rfl
  | cons calls blocks ih =>
    obtain ⟨hcalls, hrest⟩ := h
    rw [List.flatten_cons, stored_append, hcalls.stored_eq, ih hrest, List.length_cons,
      List.range'_succ, List.map_cons]
    rfl

/-! ### One byte -/

section

variable {env : At24Env σ} {fPos : Int}

/-- The `int` index and the integer index select the same cell. -/
theorem ofInt_toS32 (fPos : Int) (i : Nat) :
    BitVec.ofInt 8 (fPos + toS32 i) = BitVec.ofInt 8 (fPos + i) := by
  apply BitVec.eq_of_toNat_eq
  rw [BitVec.toNat_ofInt, BitVec.toNat_ofInt]
  unfold toS32
  split <;> omega

/-- The call of an attempt at byte `i`. -/
def writeCall (env : At24Env σ) (fPos : Int) (i : Nat) (value : Byte) (s : σ) : WriteCall where
  client := 0
  command := BitVec.ofInt 8 (fPos + toS32 i)
  value := value
  result := (env.writeByteData s 0 (BitVec.ofInt 8 (fPos + toS32 i)) value).1

/-- The state behind that call. -/
def behindCall (env : At24Env σ) (fPos : Int) (i : Nat) (value : Byte) (s : σ) : σ :=
  (env.writeByteData s 0 (BitVec.ofInt 8 (fPos + toS32 i)) value).2

/-- The attempts at a byte, the first one apart. -/
theorem at24WriteRetry_eq (env : At24Env σ) (i : Nat) (value : Byte) (errCount : Nat) (s : σ) :
    at24WriteRetry env fPos i value errCount s =
      if (writeCall env fPos i value s).result < 0 ∧ errCount < 5 then
        at24WriteRetry env fPos i value (errCount + 1) (behindCall env fPos i value s)
      else
        ((writeCall env fPos i value s).result, behindCall env fPos i value s) := by
  rw [at24WriteRetry]
  change (if (writeCall env fPos i value s).result < 0 then _ else _) = _
  by_cases hneg : (writeCall env fPos i value s).result < 0
  · by_cases herr : errCount < 5
    · rw [if_pos hneg, if_pos herr, if_pos ⟨hneg, herr⟩]
      rfl
    · rw [if_pos hneg, if_neg herr, if_neg (fun h => herr h.2)]
      rfl
  · rw [if_neg hneg, if_neg (fun h => hneg h.1)]
    rfl

/-- What each of the calls preserves, the calls for one byte preserve. -/
theorem at24WriteRetry_inv {P : σ → Prop}
    (hwrite : ∀ s command value, P s → P (env.writeByteData s 0 command value).2) (fPos : Int)
    (i : Nat) (value : Byte) (errCount : Nat) {s : σ} (h : P s) :
    P (at24WriteRetry env fPos i value errCount s).2 := by
  have hcall : P (behindCall env fPos i value s) := hwrite s _ value h
  rw [at24WriteRetry_eq]
  by_cases hretry : (writeCall env fPos i value s).result < 0 ∧ errCount < 5
  · rw [if_pos hretry]
    exact at24WriteRetry_inv hwrite fPos i value (errCount + 1) hcall
  · rw [if_neg hretry]
    exact hcall
termination_by 5 - errCount

/-- What the calls of the loop keep, the loop keeps. -/
theorem at24WriteLoop_inv {P : σ → Prop}
    (hwrite : ∀ s command value, P s → P (env.writeByteData s 0 command value).2)
    (hcopy : ∀ s off, P s → P (env.copyFromUser s off).2.2) (fPos : Int) (count i : Nat) {s : σ}
    (h : P s) : P (at24WriteLoop env count fPos i s).2.2 := by
  fun_induction at24WriteLoop env count fPos i s with
  | case1 i s hi left tmp s' hcall hleft =>
    have hnext := hcopy s i h
    rwa [hcall] at hnext
  | case2 i s hi left tmp s' hcall hleft ret s'' hretry hret =>
    have hnext := hcopy s i h
    rw [hcall] at hnext
    have hbyte := at24WriteRetry_inv hwrite fPos i tmp 0 hnext
    rwa [hretry] at hbyte
  | case3 i s hi left tmp s' hcall hleft ret s'' hretry hret ih =>
    have hnext := hcopy s i h
    rw [hcall] at hnext
    have hbyte := at24WriteRetry_inv hwrite fPos i tmp 0 hnext
    rw [hretry] at hbyte
    exact ih hbyte
  | case4 i s hi => exact h

/-- A call is recorded with its result. -/
theorem behindCall_recorded (i : Nat) (value : Byte) (s : σ) (log : List WriteCall) :
    behindCall (recorded env) fPos i value (s, log) =
      (behindCall env fPos i value s, log ++ [writeCall env fPos i value s]) :=
  rfl

/-- A call sends the byte to its cell. -/
theorem writeCall_sends (env : At24Env σ) (fPos : Int) (i : Nat) (value : Byte) (s : σ) :
    (writeCall env fPos i value s).Sends fPos i value :=
  ⟨rfl, ofInt_toS32 fPos i, rfl⟩

/-- A failure in front uses up one attempt. -/
theorem GetsThrough.cons {i budget : Nat} {value : Byte} {c : WriteCall} {calls : List WriteCall}
    (hc : c.Sends fPos i value) (hneg : c.result < 0)
    (h : GetsThrough fPos i value budget calls) :
    GetsThrough fPos i value (budget + 1) (c :: calls) := by
  obtain ⟨hsends, failed, last, rfl, hlen, hfailed, hlast⟩ := h
  refine ⟨List.forall_mem_cons.mpr ⟨hc, hsends⟩, c :: failed, last, rfl, ?_, ?_, hlast⟩
  · rw [List.length_cons]
    omega
  · exact List.forall_mem_cons.mpr ⟨hneg, hfailed⟩

/-- One failed attempt more in front. -/
theorem Fails.cons {i attempts : Nat} {value : Byte} {c : WriteCall} {calls : List WriteCall}
    (hc : c.Sends fPos i value) (hneg : c.result < 0) (h : Fails fPos i value attempts calls) :
    Fails fPos i value (attempts + 1) (c :: calls) := by
  obtain ⟨hsends, hlen, hfailed⟩ := h
  exact ⟨List.forall_mem_cons.mpr ⟨hc, hsends⟩, by rw [List.length_cons, hlen],
    List.forall_mem_cons.mpr ⟨hneg, hfailed⟩⟩

/-- The calls for one byte, with the attempts that the failures so far leave. -/
theorem at24WriteRetry_calls (env : At24Env σ) (fPos : Int) (i : Nat) (value : Byte)
    (errCount : Nat) (herr : errCount ≤ 5) (s : σ) (log : List WriteCall) :
    ∃ calls ret t,
      at24WriteRetry (recorded env) fPos i value errCount (s, log) = (ret, t, log ++ calls) ∧
      at24WriteRetry env fPos i value errCount s = (ret, t) ∧
      (0 ≤ ret ∧ GetsThrough fPos i value (5 - errCount) calls ∨
        ret < 0 ∧ Fails fPos i value (6 - errCount) calls) := by
  have hsends := writeCall_sends env fPos i value s
  have hone : ∀ c ∈ [writeCall env fPos i value s], c.Sends fPos i value :=
    fun c hc => List.mem_singleton.mp hc ▸ hsends
  rw [at24WriteRetry_eq, at24WriteRetry_eq env, behindCall_recorded]
  change ∃ calls ret t, (if (writeCall env fPos i value s).result < 0 ∧ errCount < 5 then _
    else _) = _ ∧ _
  by_cases hneg : (writeCall env fPos i value s).result < 0
  · by_cases hlast : errCount < 5
    -- `goto retry`
    · rw [if_pos ⟨hneg, hlast⟩, if_pos ⟨hneg, hlast⟩]
      obtain ⟨calls, ret, t, hrec, henv, hcalls⟩ := at24WriteRetry_calls env fPos i value
        (errCount + 1) hlast (behindCall env fPos i value s) (log ++ [writeCall env fPos i value s])
      refine ⟨writeCall env fPos i value s :: calls, ret, t, ?_, henv, ?_⟩
      · rw [hrec, List.append_assoc, List.singleton_append]
      · apply hcalls.imp
        · rintro ⟨hret, hthrough⟩
          refine ⟨hret, ?_⟩
          rw [show 5 - errCount = 5 - (errCount + 1) + 1 by omega]
          exact hthrough.cons hsends hneg
        · rintro ⟨hret, hfails⟩
          refine ⟨hret, ?_⟩
          rw [show 6 - errCount = 6 - (errCount + 1) + 1 by omega]
          exact hfails.cons hsends hneg
    · rw [if_neg (fun h => hlast h.2), if_neg (fun h => hlast h.2)]
      refine ⟨[writeCall env fPos i value s], _, _, rfl, rfl, Or.inr ⟨hneg, hone, ?_, ?_⟩⟩
      · rw [List.length_singleton]
        omega
      · exact fun c hc => List.mem_singleton.mp hc ▸ hneg
  · rw [if_neg (fun h => hneg h.1), if_neg (fun h => hneg h.1)]
    exact ⟨[writeCall env fPos i value s], _, _, rfl, rfl, Or.inl ⟨Int.not_lt.mp hneg, hone, [], _,
      rfl, Nat.zero_le _, by simp, Int.not_lt.mp hneg⟩⟩
termination_by 5 - errCount

/-- The attempts at a byte leave the buffer of the user. -/
theorem Reads.behind_retry {user : σ → Nat → Byte} {count : Nat} (h : Reads env user count)
    (fPos : Int) (i : Nat) (value : Byte) (errCount : Nat) (s : σ) :
    user (at24WriteRetry env fPos i value errCount s).2 = user s :=
  at24WriteRetry_inv (P := fun t => user t = user s)
    (fun t _ _ ht => (h.behind_write t 0 _ _).trans ht) fPos i value errCount rfl

/-! ### The whole buffer -/

/-- How the loop ends with the bytes before `k` sent: behind the last byte, with a copy that
    faults, or with a byte that fails six times. -/
inductive Ends (env : At24Env σ) (fPos : Int) (user : Nat → Byte) (count : Nat) :
    (k : Nat) → (rest : List WriteCall) → (ret fPos' : Int) → Prop
  | done : Ends env fPos user count count [] (toS32 count) (fPos + toS32 count)
  | fault {k : Nat} (hk : k < count) (s : σ) (h : (env.copyFromUser s k).1 ≠ 0) :
      Ends env fPos user count k [] eFault fPos
  | failed {k : Nat} {rest : List WriteCall} {ret : Int} (hk : k < count)
      (h : Fails fPos k (user k) 6 rest) (hret : ret < 0) :
      Ends env fPos user count k rest ret fPos

/-- Behind the bytes that got through nothing is stored. -/
theorem Ends.stored_eq {user : Nat → Byte} {count k : Nat} {rest : List WriteCall}
    {ret fPos' : Int} (h : Ends env fPos user count k rest ret fPos') : stored rest = [] := by
  cases h with
  | done => rfl
  | fault => rfl
  | failed hk h hret => exact stored_of_failed h.2.2

/-- The calls from byte `i` on. -/
theorem at24WriteLoop_calls {user : σ → Nat → Byte} {count : Nat} (h : Reads env user count)
    (i : Nat) (hi : i ≤ count) (s : σ) (log : List WriteCall) :
    ∃ blocks rest ret fPos' t,
      at24WriteLoop (recorded env) count fPos i (s, log) =
        (ret, fPos', t, log ++ (blocks.flatten ++ rest)) ∧
      at24WriteLoop env count fPos i s = (ret, fPos', t) ∧
      InOrder fPos (user s) i blocks ∧
      Ends env fPos (user s) count (i + blocks.length) rest ret fPos' := by
  rw [at24WriteLoop, at24WriteLoop]
  by_cases hmore : i < count
  · rw [if_pos hmore, if_pos hmore]
    have hcopy : (recorded env).copyFromUser (s, log) i =
        ((env.copyFromUser s i).1, (env.copyFromUser s i).2.1, (env.copyFromUser s i).2.2, log) :=
      rfl
    by_cases hleft : (env.copyFromUser s i).1 = 0
    · have hvalue := h.copyFromUser s i hmore hleft
      obtain ⟨calls, ret, t, hrec, henv, hcalls⟩ := at24WriteRetry_calls env fPos
        i (user s i) 0 (by omega) (env.copyFromUser s i).2.2 log
      have huser : user t = user s := by
        have hretry := h.behind_retry fPos i (user s i) 0 (env.copyFromUser s i).2.2
        rwa [henv, h.behind_copy] at hretry
      simp only [hcopy, hleft, hvalue, hrec, henv, ne_eq, not_true_eq_false, ↓reduceIte]
      obtain ⟨hret, hthrough⟩ | ⟨hret, hfails⟩ := hcalls
      -- the byte is stored, the next one follows
      · simp only [show ¬ ret < 0 by omega, ↓reduceIte]
        obtain ⟨blocks, rest, ret', fPos', t', hrec', henv', hblocks, hends⟩ :=
          at24WriteLoop_calls h (i + 1) hmore t (log ++ calls)
        rw [huser] at hblocks hends
        refine ⟨calls :: blocks, rest, ret', fPos', t', ?_, henv', ⟨hthrough, hblocks⟩, ?_⟩
        · rw [hrec', List.flatten_cons, List.append_assoc, List.append_assoc]
        · rw [List.length_cons, show i + (blocks.length + 1) = i + 1 + blocks.length by omega]
          exact hends
      · simp only [hret, ↓reduceIte]
        exact ⟨[], calls, ret, fPos, t, rfl, rfl, trivial, .failed hmore hfails hret⟩
    · simp only [hcopy, hleft, ne_eq, not_false_eq_true, ↓reduceIte]
      refine ⟨[], [], eFault, fPos, _, ?_, rfl, trivial, .fault hmore s hleft⟩
      simp
  · rw [if_neg hmore, if_neg hmore]
    obtain rfl : i = count := by omega
    refine ⟨[], [], _, _, s, ?_, rfl, trivial, .done⟩
    simp
termination_by count - i

end

/-- For every environment, position, buffer and count: the byte writes go through the bytes
    in order, each at most six times and only behind failures, so that a prefix of the
    buffer is stored. Without a fault and six failures of a byte the whole buffer is, and
    the call returns `count`, which the kernel bounds by `INT_MAX`. -/
theorem at24Write_sends (env : At24Env σ) (user : σ → Nat → Byte) (count : Nat)
    (h : Reads env user count) (fPos : Int) (s : σ) :
    ∃ blocks rest ret fPos' t,
      at24Write (recorded env) fPos count (s, []) = (ret, fPos', t, blocks.flatten ++ rest) ∧
      at24Write env fPos count s = (ret, fPos', t) ∧
      InOrder fPos (user s) 0 blocks ∧
      Ends env fPos (user s) count blocks.length rest ret fPos' ∧
      stored (blocks.flatten ++ rest) = (List.range blocks.length).map (user s) ∧
      ((∀ s, ∀ i < count, (env.copyFromUser s i).1 = 0) →
        (∀ i < count, ¬ Fails fPos i (user s i) 6 rest) →
        blocks.length = count ∧ (count < 2147483648 → ret = count ∧ fPos' = fPos + count)) := by
  obtain ⟨blocks, rest, ret, fPos', t, hrec, henv, hblocks, hends⟩ :=
    at24WriteLoop_calls h 0 (Nat.zero_le _) s []
  rw [Nat.zero_add] at hends
  refine ⟨blocks, rest, ret, fPos', t, hrec, henv, hblocks, hends, ?_, ?_⟩
  · rw [stored_append, hblocks.stored_eq, hends.stored_eq, List.append_nil, List.range_eq_range']
  · intro hcopies hfails
    -- no copy and no byte fails, so the loop came to its end
    cases hends with
    | done =>
      refine ⟨rfl, fun hcount => ?_⟩
      rw [toS32_of_lt hcount]
      exact ⟨rfl, rfl⟩
    | fault hk s h => exact absurd (hcopies s _ hk) h
    | failed hk h hret => exact absurd h (hfails _ hk)

/-- The working chip leaves the buffer of the user. -/
theorem eepromEnv_reads (count : Nat) : Reads eepromEnv Eeprom.user count where
  copyFromUser _ _ _ _ := rfl
  behind_copy _ _ := rfl
  behind_write _ _ _ _ := rfl

/-- A write of three bytes at 254. -/
theorem at24Write_sends_eeprom :
    ∃ blocks rest ret fPos' t,
      at24Write (recorded eepromEnv) 254 3 (⟨fun _ => 0, fun _ => 7⟩, []) =
        (ret, fPos', t, blocks.flatten ++ rest) ∧
      at24Write eepromEnv 254 3 ⟨fun _ => 0, fun _ => 7⟩ = (ret, fPos', t) ∧
      InOrder 254 (fun _ => 7) 0 blocks ∧
      Ends eepromEnv 254 (fun _ => 7) 3 blocks.length rest ret fPos' ∧
      stored (blocks.flatten ++ rest) = (List.range blocks.length).map (fun _ => 7) ∧
      ((∀ s, ∀ i < 3, (eepromEnv.copyFromUser s i).1 = 0) →
        (∀ i < 3, ¬ Fails 254 i 7 6 rest) →
        blocks.length = 3 ∧ ((3 : Nat) < 2147483648 → ret = (3 : Nat) ∧ fPos' = 254 + (3 : Nat))) :=
  at24Write_sends eepromEnv Eeprom.user 3 (eepromEnv_reads 3) 254 ⟨fun _ => 0, fun _ => 7⟩

end At24
