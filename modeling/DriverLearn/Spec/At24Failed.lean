import DriverLearn.Spec.At24Attempts
import DriverLearn.Spec.At24RoundTrip

/-!
# Failed reads of the EEPROM

The result of the SMBus call is signed and `at24_read` stores it in an unsigned `len`, so
a result of 0 is retried, but a negative errno is the length of a copy of nearly 4 GiB.
The property fails on every call that meets an errno.

## Key results

- `counted_iff`: the exact condition on the results of the SMBus call
- `counted_iff_errno`: below address `2 ^ 31` it is that no call returns an errno
-/

namespace At24

open Loop Word

variable {σ : Type} (env : At24Env σ)

/-- The bytes that these attempts copy to the user. -/
def copiedBy (xs : List (Attempt σ)) : Nat := (xs.map (Attempt.copied env)).sum

/-- No failed read counts as data: the call ends, every copy is as long as what the SMBus
    call has put into `tmp` at most, within a page and the bytes left, and if the call
    ends with a failed attempt it returns the number of bytes copied before. -/
def Counted (at24 : At24Data) (fPos : Int) (count : Nat) (s : σ) : Prop :=
  ∃ xs ret fPos' t, Call env at24 fPos count s xs ret fPos' t ∧
    (∀ x ∈ xs, x.copied env ≤ (x.result env).toNat ∧ x.copied env ≤ at24.chip.pageSize ∧
      x.copied env ≤ count - x.i) ∧
    ∀ pre x, xs = pre ++ [x] → x.result env ≤ 0 →
      ret = copiedBy env pre ∧ fPos' = fPos + copiedBy env pre

/-- The result of an attempt that the code handles: no errno, no more bytes than `tmp` holds
    or are left to read, and no sixth failure of a chunk from 2 GiB on. -/
structure Sound (pageSize count : Nat) (x : Attempt σ) : Prop where
  nonneg : 0 ≤ x.result env
  le_pageSize : x.result env ≤ pageSize
  le_count : x.result env ≤ count - x.i
  giveUp : x.result env = 0 → x.errCount = 5 → x.i < 2147483648

/-- The result of the SMBus call is an `s32`. -/
def ResultS32 : Prop :=
  ∀ s client command len tmp, -2147483648 ≤ (env.readBlock s client command len tmp).1 ∧
    (env.readBlock s client command len tmp).1 < 2147483648

section

variable {env} {pageSize count : Nat} {fPos : Int} {x y z : Attempt σ}
  {xs pre : List (Attempt σ)} {ret : Int} {t : σ}

theorem copied_eq (hs32 : ResultS32 env) (h : 0 ≤ x.result env) :
    (x.copied env : Int) = x.result env := by
  have hlt : x.result env < 2147483648 := (hs32 ..).2
  unfold Attempt.copied toU32
  omega

/-- An errno makes a copy of at least 2 GiB. -/
theorem copied_errno (hs32 : ResultS32 env) (h : x.result env < 0) :
    2147483648 ≤ x.copied env := by
  have hge : -2147483648 ≤ x.result env := (hs32 ..).1
  unfold Attempt.copied toU32
  omega

theorem Sound.next_eq (h : Sound env pageSize count x) (hs32 : ResultS32 env)
    (hx : AtRetry count x) (hcount : count < 4294967296) :
    x.next env = x.i + x.copied env ∧ x.i + x.copied env ≤ count := by
  have hcopied := copied_eq hs32 h.nonneg
  have hle := h.le_count
  have hi := hx.i_lt
  unfold Attempt.next toU32
  omega

/-- A turn that goes on adds what it has copied to `i`. -/
theorem Sound.turn_i (h : Sound env pageSize count x) (hs32 : ResultS32 env)
    (hx : AtRetry count x) (hcount : count < 4294967296)
    (hturn : turn env pageSize count fPos x = .inl y) : y.i = x.i + x.copied env := by
  obtain ⟨hfail, -, rfl⟩ | ⟨-, -, -, rfl⟩ := turn_inl hturn
  · rw [hfail]
    rfl
  · exact (h.next_eq hs32 hx hcount).1

/-! ### Sound results are counted -/

/-- With sound results the loop ends: each turn moves `i` or counts a failure. -/
theorem visits_of_sound (hs32 : ResultS32 env) (hcount : count < 4294967296)
    {at24 : At24Data} {s : σ}
    (hsound : ∀ x, Attempted env at24 fPos count s x → Sound env at24.chip.pageSize count x)
    (hx : Attempted env at24 fPos count s x) :
    ∃ xs b, Visits (turn env at24.chip.pageSize count fPos) x xs b := by
  -- six attempts for each byte, less those that have failed
  apply exists_visits (fun x => 6 * (count - x.i) + (5 - x.errCount)) (fun x y hx hturn => ?_) x hx
  have hretry := hx.atRetry
  have hi := hretry.i_lt
  have herr := hretry.errCount_le
  have hadd := (hsound x hx).turn_i hs32 hretry hcount hturn
  obtain ⟨x₀, hstart, hreach⟩ := hx
  refine ⟨⟨x₀, hstart, hreach.tail hturn⟩, ?_⟩
  obtain ⟨-, hlt, rfl⟩ | ⟨hcopied, -, hmore, rfl⟩ := turn_inl hturn
  · simp only [Attempt.again]
    omega
  · simp only [chunkAttempt] at hadd ⊢
    omega

/-- `i` counts the bytes copied. -/
theorem visits_i (hs32 : ResultS32 env) (hcount : count < 4294967296) {b : Int × σ}
    (hv : Visits (turn env pageSize count fPos) x xs b)
    (hall : ∀ y ∈ xs, AtRetry count y ∧ Sound env pageSize count y) (hxs : xs = pre ++ [z]) :
    z.i = x.i + copiedBy env pre := by
  induction hv generalizing pre with
  | last hturn =>
    cases pre with
    | nil =>
      obtain rfl := List.singleton_inj.mp hxs
      rfl
    | cons p pre => simp at hxs
  | more hturn hrest ih =>
    obtain ⟨ys, rfl⟩ := hrest.eq_cons
    cases pre with
    | nil => simp at hxs
    | cons p pre =>
      obtain ⟨rfl, hys⟩ := List.cons.inj hxs
      obtain ⟨hretry, hsound⟩ := hall _ List.mem_cons_self
      have hadd := hsound.turn_i hs32 hretry hcount hturn
      rw [ih (fun y hy => hall y (List.mem_cons_of_mem _ hy)) hys, hadd]
      simp [copiedBy, Nat.add_assoc]

/-- A loop that ends with a failed attempt returns `i`. -/
theorem visits_giveUp (hs32 : ResultS32 env)
    (hv : Visits (turn env pageSize count fPos) x xs (ret, t)) (hxs : xs = pre ++ [z])
    (hz : AtRetry count z) (hsound : Sound env pageSize count z) (hfail : z.result env ≤ 0) :
    ret = z.i := by
  have hcopied := copied_eq hs32 hsound.nonneg
  have hnonneg := hsound.nonneg
  have hle := hz.errCount_le
  obtain ⟨-, herr, hret⟩ | ⟨hne, -, -⟩ | ⟨hne, -, -, -⟩ := turn_inr (hv.turn_last hxs)
  · rw [show ret = toS32 z.i from congrArg Prod.fst hret]
    exact toS32_of_lt (hsound.giveUp (by omega) (by omega))
  · omega
  · omega

theorem counted_of_sound (hs32 : ResultS32 env) (at24 : At24Data) (hcount : count < 4294967296)
    (s : σ) (hsound : ∀ x, Attempted env at24 fPos count s x →
      Sound env at24.chip.pageSize count x) : Counted env at24 fPos count s := by
  cases hstart : start env at24 fPos count s with
  | none =>
    obtain ⟨ret, t, hcall⟩ := call_of_none hstart
    exact ⟨[], ret, fPos, t, hcall, by simp, by simp⟩
  | some x₀ =>
    obtain ⟨xs, ⟨ret, t⟩, hv⟩ :=
      visits_of_sound hs32 hcount hsound ⟨x₀, hstart, Reaches.refl x₀⟩
    have hall : ∀ y ∈ xs, AtRetry count y ∧ Sound env at24.chip.pageSize count y := by
      intro y hy
      have hmade : Attempted env at24 fPos count s y := ⟨x₀, hstart, hv.mem_iff.mp hy⟩
      exact ⟨hmade.atRetry, hsound y hmade⟩
    refine ⟨xs, ret, _, t, call_of_visits hstart hv, ?_, ?_⟩
    -- the copies
    · intro x hx
      have hcopied := copied_eq hs32 (hall x hx).2.nonneg
      have hpage := (hall x hx).2.le_pageSize
      have hleft := (hall x hx).2.le_count
      omega
    -- the value returned when the call gives up
    · intro pre z hxs hfail
      have hz : z ∈ xs := by simp [hxs]
      have hret := visits_giveUp hs32 hv hxs (hall z hz).1 (hall z hz).2 hfail
      have hi := visits_i hs32 hcount hv hall hxs
      obtain ⟨-, s', tmp, rfl⟩ := start_eq hstart
      rw [show (chunkAttempt at24.chip.pageSize count fPos s' tmp 0).i = 0 from rfl,
        Nat.zero_add] at hi
      rw [hret, hi]
      refine ⟨rfl, ?_⟩
      split <;> omega

/-! ### Counted results are sound -/

theorem sound_of_counted (hs32 : ResultS32 env) {at24 : At24Data} (hcount : count < 4294967296)
    {s : σ} (h : Counted env at24 fPos count s) (hx : Attempted env at24 fPos count s x) :
    Sound env at24.chip.pageSize count x := by
  obtain ⟨xs, ret, fPos', t, hcall, hcopies, hlast⟩ := h
  have hmem := hcall.mem_iff.mpr hx
  have hretry := hx.atRetry
  have hi := hretry.i_lt
  obtain ⟨hput, hpage, hleft⟩ := hcopies x hmem
  have hnonneg : 0 ≤ x.result env := by
    by_contra hneg
    have hlong := copied_errno hs32 (x := x) (by omega)
    omega
  have hcopied := copied_eq hs32 hnonneg
  refine ⟨hnonneg, by omega, by omega, ?_⟩
  intro hfail herr
  -- the call gives up here, and what it returns is not negative
  obtain ⟨x₀, hstart, hreach⟩ := hx
  obtain ⟨hret, pre, hpre⟩ :=
    (hcall.visits hstart).eq_append hmem (turn_giveUp (by omega) (by omega))
  have hcounted := (hlast pre x hpre (by omega)).1
  rw [Prod.mk.injEq] at hret
  have hsigned : 0 ≤ toS32 x.i := by omega
  unfold toS32 at hsigned
  split at hsigned <;> omega

/-- Below address `2 ^ 31` no call asks for more than `tmp` holds or is left to read. -/
theorem attempted_len {at24 : At24Data} {p : Nat} {s : σ} (hps : 0 < at24.chip.pageSize)
    (hrange : p + count + at24.chip.pageSize < 2147483648)
    (hx : Attempted env at24 p count s x) :
    x.len ≤ at24.chip.pageSize ∧ x.len ≤ count - x.i := by
  have hchunk : ∀ (s : σ) tmp i, i < count →
      (chunkAttempt at24.chip.pageSize count p s tmp i).len ≤ at24.chip.pageSize ∧
        (chunkAttempt at24.chip.pageSize count p s tmp i).len ≤ count - i := by
    intro s tmp i hi
    have hend := lt_page_end (p + i) at24.chip.pageSize hps
    simp only [chunkAttempt, readChunk_page _ _ _ _ hrange hi hps]
    omega
  obtain ⟨x₀, hstart, hreach⟩ := hx
  refine hreach.inv (I := fun x => x.len ≤ at24.chip.pageSize ∧ x.len ≤ count - x.i)
    (fun y z _ _ hturn => ?_) ?_
  · obtain ⟨-, -, rfl⟩ | ⟨-, -, hmore, rfl⟩ := turn_inl hturn
    · simp [Attempt.again]
    · exact hchunk _ _ _ hmore
  · obtain ⟨hcount, s', tmp, rfl⟩ := start_eq hstart
    exact hchunk s' tmp 0 hcount

end

/-- Whatever an SMBus call returns, no failed read counts as data iff each result is sound:
    there is no errno among them. -/
theorem counted_iff (hs32 : ResultS32 env) (at24 : At24Data) (fPos : Int) (count : Nat)
    (hcount : count < 4294967296) (s : σ) :
    Counted env at24 fPos count s ↔
      ∀ x, Attempted env at24 fPos count s x → Sound env at24.chip.pageSize count x :=
  ⟨fun h _ hx => sound_of_counted hs32 hcount h hx, counted_of_sound hs32 at24 hcount s⟩

/-- `eepromEnv` answers every call. -/
theorem eepromEnv_resultS32 : ResultS32 eepromEnv := by
  intro s client command len tmp
  simp only [eepromEnv]
  omega

theorem counted_iff_eeprom :
    Counted eepromEnv ⟨chip512, 2⟩ 20 40 ⟨fun _ => 0, fun _ => 0⟩ ↔
      ∀ x, Attempted eepromEnv ⟨chip512, 2⟩ 20 40 ⟨fun _ => 0, fun _ => 0⟩ x →
        Sound eepromEnv chip512.pageSize 40 x :=
  counted_iff eepromEnv eepromEnv_resultS32 ⟨chip512, 2⟩ 20 40 (by decide) _

/-- When the call asks below address `2 ^ 31` and gets at most what it asks for, only an
    errno can be counted as data. -/
theorem counted_iff_errno (hs32 : ResultS32 env)
    (hle : ∀ s client command len tmp, (env.readBlock s client command len tmp).1 ≤ len)
    (at24 : At24Data) (hps : 0 < at24.chip.pageSize) (p count : Nat)
    (hrange : p + count + at24.chip.pageSize < 2147483648) (s : σ) :
    Counted env at24 p count s ↔
      ∀ x, Attempted env at24 p count s x → 0 ≤ x.result env := by
  constructor
  · intro h x hx
    exact (sound_of_counted hs32 (by omega) h hx).nonneg
  · intro h
    apply counted_of_sound hs32 at24 (by omega) s
    intro x hx
    have hi := hx.atRetry.i_lt
    have hlen := attempted_len hps hrange hx
    have hres : x.result env ≤ x.len := hle ..
    exact ⟨h x hx, by omega, by omega, fun _ _ => by omega⟩

/-! ### An errno -/

/-- A bus on which every read fails with `-EIO`; the user has less than 2 GiB. -/
def deadEnv : At24Env Unit where
  kmalloc s size := (some (List.replicate size 0), s)
  readBlock s _ _ _ tmp := (-5, tmp, s)
  writeByteData s _ _ _ := (-5, s)
  copyToUser s _ _ len := (if len < 2147483648 then 0 else len, s)
  copyFromUser s _ := (0, 0, s)

/-- One failed read of one byte: the driver copies `2 ^ 32 - 5` bytes. -/
theorem counted_fails_errno :
    ¬ ∀ (env : At24Env Unit) (at24 : At24Data) (p count : Nat),
      (∀ s client command len tmp, -4095 ≤ (env.readBlock s client command len tmp).1 ∧
        (env.readBlock s client command len tmp).1 ≤ len) →
      0 < at24.chip.pageSize → p < at24.chip.byteLen → count < 4294967296 →
        Counted env at24 p count () := by
  intro h
  have hcounted := h deadEnv ⟨chip512, 2⟩ 0 1
    (fun s client command len tmp => by simp only [deadEnv]; omega)
    (by decide) (by decide) (by decide)
  have hs32 : ResultS32 deadEnv := by
    intro s client command len tmp
    simp only [deadEnv]
    omega
  have hfirst : Attempted deadEnv ⟨chip512, 2⟩ 0 1 ()
      (chunkAttempt 16 1 0 () (List.replicate 16 0) 0) := ⟨_, rfl, Reaches.refl _⟩
  have hsound := sound_of_counted hs32 (by decide) hcounted hfirst
  exact absurd hsound.nonneg (by decide)

end At24
