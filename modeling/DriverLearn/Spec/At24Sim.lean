import DriverLearn.Native.At24cxx
import Mathlib.Data.Option.Basic

/-!
# What `at24_read` and `at24_write` see of their surroundings

The two functions know their surroundings by the results of five calls. Surroundings that
give the same results, call by call, are the same to them, whatever is behind the calls: the
return value, the file position and the bytes come out equal. So a property of the functions
that is proved with simple surroundings holds with detailed ones that simulate them.

## Key results

- `Simulates.at24Write`: a write
- `Simulates.at24Read`: a read, with the same fuel
-/

namespace At24

open Word

variable {σ τ : Type} {R : σ → τ → Prop} {env : At24Env σ} {env' : At24Env τ}

/-- The value is the same, and the states are related. -/
def SameValue (R : σ → τ → Prop) {α : Type} (r : α × σ) (r' : α × τ) : Prop :=
  r.1 = r'.1 ∧ R r.2 r'.2

/-- The same for two values. -/
def SameValues (R : σ → τ → Prop) {α β : Type} (r : α × β × σ) (r' : α × β × τ) : Prop :=
  r.1 = r'.1 ∧ SameValue R r.2 r'.2

/-- What follows a partial result sees the same value and related states. -/
theorem SameValue.bind {α β β' : Type} {Q : β → β' → Prop} {x : Option (α × σ)}
    {y : Option (α × τ)} {f : α × σ → Option β} {g : α × τ → Option β'}
    (h : Option.Rel (SameValue R) x y)
    (hfg : ∀ a s t, R s t → Option.Rel Q (f (a, s)) (g (a, t))) :
    Option.Rel Q (x >>= f) (y >>= g) := by
  cases h with
  | none => exact .none
  | @some r r' hr =>
    obtain ⟨a, s⟩ := r
    obtain ⟨a', t⟩ := r'
    obtain ⟨rfl, hst⟩ := hr
    exact hfg a s t hst

/-- The same with two values. -/
theorem SameValue.bind₂ {α γ β β' : Type} {Q : β → β' → Prop} {x : Option (α × γ × σ)}
    {y : Option (α × γ × τ)} {f : α × γ × σ → Option β} {g : α × γ × τ → Option β'}
    (h : Option.Rel (SameValues R) x y)
    (hfg : ∀ a c s t, R s t → Option.Rel Q (f (a, c, s)) (g (a, c, t))) :
    Option.Rel Q (x >>= f) (y >>= g) := by
  cases h with
  | none => exact .none
  | @some r r' hr =>
    obtain ⟨a, c, s⟩ := r
    obtain ⟨a', c', t⟩ := r'
    obtain ⟨rfl, rfl, hst⟩ := hr
    exact hfg a c s t hst

/-- From related states the calls give equal results and related states. The driver only
    uses `client[0]`. -/
structure Simulates (R : σ → τ → Prop) (env : At24Env σ) (env' : At24Env τ) : Prop where
  kmalloc : ∀ s t size, R s t → SameValue R (env.kmalloc s size) (env'.kmalloc t size)
  readBlock : ∀ s t command len tmp, R s t →
    SameValues R (env.readBlock s 0 command len tmp) (env'.readBlock t 0 command len tmp)
  writeByteData : ∀ s t command value, R s t →
    SameValue R (env.writeByteData s 0 command value) (env'.writeByteData t 0 command value)
  copyToUser : ∀ s t off tmp len, R s t →
    SameValue R (env.copyToUser s off tmp len) (env'.copyToUser t off tmp len)
  copyFromUser : ∀ s t off, R s t →
    SameValues R (env.copyFromUser s off) (env'.copyFromUser t off)

/-! ### at24_write -/

/-- The attempts at one byte, by induction on how many are left. -/
theorem Simulates.at24WriteRetry (h : Simulates R env env') (fPos : Int) (i : Nat) (value : Byte)
    (errCount : Nat) {s : σ} {t : τ} (hst : R s t) :
    SameValue R (at24WriteRetry env fPos i value errCount s)
      (at24WriteRetry env' fPos i value errCount t) := by
  rw [At24.at24WriteRetry, At24.at24WriteRetry]
  obtain ⟨hret, hnext⟩ := h.writeByteData s t (BitVec.ofInt 8 (fPos + toS32 i)) value hst
  simp only [hret]
  split
  · split
    · exact h.at24WriteRetry fPos i value (errCount + 1) hnext
    · exact ⟨rfl, hnext⟩
  · exact ⟨rfl, hnext⟩
termination_by 5 - errCount

/-- The loop over the bytes of a write. -/
theorem Simulates.at24WriteLoop (h : Simulates R env env') (count : Nat) (fPos : Int) (i : Nat)
    {s : σ} {t : τ} (hst : R s t) :
    SameValues R (at24WriteLoop env count fPos i s) (at24WriteLoop env' count fPos i t) := by
  rw [At24.at24WriteLoop, At24.at24WriteLoop]
  split
  swap
  · exact ⟨rfl, rfl, hst⟩
  obtain ⟨hleft, hvalue, hnext⟩ := h.copyFromUser s t i hst
  simp only [hleft, hvalue]
  split
  · exact ⟨rfl, rfl, hnext⟩
  obtain ⟨hret, hsent⟩ := h.at24WriteRetry fPos i (env'.copyFromUser t i).2.1 0 hnext
  simp only [hret]
  split
  · exact ⟨rfl, rfl, hsent⟩
  · exact h.at24WriteLoop count fPos (i + 1) hsent
termination_by count - i

/-- `at24_write` returns the same on related machines. -/
theorem Simulates.at24Write (h : Simulates R env env') (fPos : Int) (count : Nat) {s : σ} {t : τ}
    (hst : R s t) : SameValues R (at24Write env fPos count s) (at24Write env' fPos count t) :=
  h.at24WriteLoop count fPos 0 hst

/-! ### at24_read -/

/-- The loop over the chunks of a read, which may run out of fuel on both. -/
theorem Simulates.at24ReadLoop (h : Simulates R env env') (pageSize count : Nat) (fPos : Int)
    (fuel : Nat) {s : σ} {t : τ} (hst : R s t) (tmp : List Byte) (i errCount addr len : Nat) :
    Option.Rel (SameValue R) (at24ReadLoop env pageSize count fPos fuel s tmp i errCount addr len)
      (at24ReadLoop env' pageSize count fPos fuel t tmp i errCount addr len) := by
  induction fuel generalizing s t tmp i errCount addr len with
  | zero => exact .none
  | succ fuel ih =>
    rw [At24.at24ReadLoop, At24.at24ReadLoop]
    obtain ⟨hret, htmp, hread⟩ := h.readBlock s t (BitVec.ofNat 8 addr) len tmp hst
    simp only [hret, htmp]
    split
    -- the attempt failed
    · split
      · exact ih hread _ _ _ _ _
      · exact .some ⟨rfl, hread⟩
    -- bytes have come, and go to the user
    · obtain ⟨hleft, hcopied⟩ := h.copyToUser _ _ i
        (env'.readBlock t 0 (BitVec.ofNat 8 addr) len tmp).2.1
        (toU32 (env'.readBlock t 0 (BitVec.ofNat 8 addr) len tmp).1) hread
      simp only [hleft]
      split
      · exact .some ⟨rfl, hcopied⟩
      · split
        · exact ih hcopied _ _ _ _ _
        · exact .some ⟨rfl, hcopied⟩

/-- `at24_read` returns the same on related machines. -/
theorem Simulates.at24Read (h : Simulates R env env') (at24 : At24Data) (fPos : Int)
    (count fuel : Nat) {s : σ} {t : τ} (hst : R s t) :
    Option.Rel (SameValues R) (at24Read env at24 fPos count fuel s)
      (at24Read env' at24 fPos count fuel t) := by
  rw [At24.at24Read, At24.at24Read]
  dsimp only
  split
  · exact .some ⟨rfl, rfl, hst⟩
  obtain ⟨htmp, hnext⟩ := h.kmalloc s t at24.chip.pageSize hst
  generalize env.kmalloc s at24.chip.pageSize = r at htmp hnext ⊢
  generalize env'.kmalloc t at24.chip.pageSize = r' at htmp hnext ⊢
  obtain ⟨tmp, s'⟩ := r
  obtain ⟨tmp', t'⟩ := r'
  obtain rfl : tmp = tmp' := htmp
  cases tmp with
  | none => exact .some ⟨rfl, rfl, hnext⟩
  | some tmp =>
    dsimp only
    split
    · apply SameValue.bind
      · exact h.at24ReadLoop at24.chip.pageSize count fPos fuel hnext tmp 0 0 _ _
      · intro ret s t hst
        exact .some ⟨rfl, rfl, hst⟩
    · exact .some ⟨rfl, rfl, hnext⟩

end At24
