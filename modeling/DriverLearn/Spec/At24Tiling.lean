import DriverLearn.ForStd.Memory
import DriverLearn.ForStd.Tiles
import DriverLearn.Spec.At24Attempts
import DriverLearn.Spec.At24RoundTrip

/-!
# The chunks of a successful EEPROM read

When every SMBus call answers with part of what it is asked for, the answers tile the
range of the call from left to right, and the user buffer holds them. Each request stays
within a page, whatever the page size and wherever a short answer has left off.

## Key results

- `chunk_page`: a chunk does not cross a page boundary
- `chunk_delivered`: what the loop delivers from a chunk on
- `at24Read_tiled`: the tiling, the contents and the return value of a call
-/

namespace At24

open Loop Memory Word

variable {σ : Type}

/-- Every call succeeds, and reads may be short: `readBlock` puts at least one byte and at
    most what is asked for into the front of `tmp`, and `copyToUser` copies inside the
    `count` bytes of the user buffer, which nothing else changes. What is asked for is the
    length that the driver passes, not narrowed to a `u8` as in `cellsWire`. -/
structure Serves (env : At24Env σ) (user : σ → Nat → Byte) (count : Nat) : Prop where
  kmalloc : ∀ s size, ∃ tmp s', env.kmalloc s size = (some tmp, s') ∧ tmp.length = size
  readBlock : ∀ s client command len tmp, 1 ≤ len → len ≤ tmp.length →
    1 ≤ (env.readBlock s client command len tmp).1 ∧
      (env.readBlock s client command len tmp).1 ≤ len ∧
      (env.readBlock s client command len tmp).2.1.length = tmp.length ∧
      user (env.readBlock s client command len tmp).2.2 = user s
  copyToUser : ∀ s off tmp len, off + len ≤ count → len ≤ tmp.length →
    (env.copyToUser s off tmp len).1 = 0 ∧
      user (env.copyToUser s off tmp len).2 = writeBytes (user s) off (tmp.take len)

/-- The addresses an attempt is answered for: the first one and their number. -/
def Attempt.answered (env : At24Env σ) (x : Attempt σ) : Nat × Nat :=
  (x.addr, (x.result env).toNat)

/-- The request fits into `tmp` and does not cross a page boundary. -/
structure InPage (pageSize : Nat) (x : Attempt σ) : Prop where
  pos : 1 ≤ x.len
  le : x.len ≤ pageSize
  page : x.addr / pageSize = (x.addr + x.len - 1) / pageSize

/-- From `i` on, with `t` the state at the end: the answers tile the rest of the range, the
    requests stay in their pages, and the user buffer holds the bytes of the answers. -/
structure Delivered (env : At24Env σ) (user : σ → Nat → Byte) (pageSize count p i : Nat)
    (xs : List (Attempt σ)) (t : σ) : Prop where
  tiles : Tiles (p + i) (count - i) (xs.map (Attempt.answered env))
  inPage : ∀ x ∈ xs, InPage pageSize x
  bytes : ∀ j, i ≤ j → j < count →
    ∃ x ∈ xs, x.addr ≤ p + j ∧ p + j < x.addr + (x.answered env).2 ∧
      (x.filled env)[p + j - x.addr]? = some (user t j)

section

variable {env : At24Env σ} {user : σ → Nat → Byte} {pageSize count p : Nat}

/-! ### One chunk -/

/-- A range that ends before the next page boundary lies in one page. -/
theorem div_eq_of_lt_page_end (a len ps : Nat) (hps : 0 < ps) (hlen : 1 ≤ len)
    (hend : a + len ≤ (a + ps) / ps * ps) : a / ps = (a + len - 1) / ps := by
  -- the last address is on the page of the first one
  apply Nat.le_antisymm
  · exact Nat.div_le_div_right (by omega)
  · rw [Nat.add_div_right a hps] at hend
    have hlt : (a + len - 1) / ps < a / ps + 1 := by
      rw [Nat.div_lt_iff_lt_mul hps]
      exact Nat.lt_of_lt_of_le (by omega) hend
    omega

theorem chunk_page (hps : 0 < pageSize) (hrange : p + count + pageSize < 2147483648) (s : σ)
    (tmp : List Byte) {i : Nat} (hi : i < count) :
    (chunkAttempt pageSize count p s tmp i).addr = p + i ∧
      i + (chunkAttempt pageSize count p s tmp i).len ≤ count ∧
      InPage pageSize (chunkAttempt pageSize count p s tmp i) := by
  obtain ⟨hlo, hhi⟩ := lt_page_end (p + i) pageSize hps
  have hchunk := readChunk_page pageSize count p i hrange hi hps
  have haddr : (chunkAttempt pageSize count p s tmp i).addr = p + i := by
    simp only [chunkAttempt, hchunk]
  have hlen : (chunkAttempt pageSize count p s tmp i).len =
      min ((p + i + pageSize) / pageSize * pageSize - (p + i)) (count - i) := by
    simp only [chunkAttempt, hchunk]
  refine ⟨haddr, by omega, by omega, by omega, ?_⟩
  rw [haddr]
  exact div_eq_of_lt_page_end (p + i) _ pageSize hps (by omega) (by omega)

/-- What an attempt at a chunk does: it is answered, and the answer is copied. -/
theorem Serves.attempt (h : Serves env user count) {x : Attempt σ} (hpos : 1 ≤ x.len)
    (hle : x.len ≤ x.tmp.length) (hin : x.i + x.len ≤ count) (hcount : count < 2147483648) :
    ∃ r, 1 ≤ r ∧ r ≤ x.len ∧ x.answered env = (x.addr, r) ∧ x.copied env = r ∧
      x.next env = x.i + r ∧ (x.filled env).length = x.tmp.length ∧ (x.copy env).1 = 0 ∧
      user (x.copy env).2 = writeBytes (user x.s) x.i ((x.filled env).take r) := by
  obtain ⟨hlo, hhi, htmp, huser⟩ := h.readBlock x.s 0 (BitVec.ofNat 8 x.addr) x.len x.tmp hpos hle
  change 1 ≤ x.result env at hlo
  change x.result env ≤ x.len at hhi
  change (x.filled env).length = x.tmp.length at htmp
  change user (x.after env) = user x.s at huser
  -- a positive result is the length as it is
  have hcopied : x.copied env = (x.result env).toNat := by
    unfold Attempt.copied toU32
    omega
  have hnext : x.next env = x.i + (x.result env).toNat := by
    rw [Attempt.next, hcopied]
    unfold toU32
    omega
  obtain ⟨hcopy, hwrite⟩ := h.copyToUser (x.after env) x.i (x.filled env)
    (x.result env).toNat (by omega) (by omega)
  rw [← hcopied] at hcopy hwrite
  refine ⟨(x.result env).toNat, by omega, by omega, rfl, hcopied, hnext, htmp, hcopy, ?_⟩
  rw [← hcopied, ← huser]
  exact hwrite

/-! ### From a chunk to the end -/

theorem Delivered.nil (t : σ) : Delivered env user pageSize count p count [] t where
  tiles := by simp [Tiles]
  inPage := by simp
  bytes j hlo hhi := by omega

/-- An answer for `r` bytes goes in front of what is delivered from `i + r` on. -/
theorem Delivered.cons {x : Attempt σ} {xs : List (Attempt σ)} {t : σ} {i r : Nat}
    (haddr : x.addr = p + i) (hans : x.answered env = (x.addr, r)) (hr : 1 ≤ r)
    (hle : i + r ≤ count) (hpage : InPage pageSize x)
    (hbytes : ∀ j, i ≤ j → j < i + r → (x.filled env)[j - i]? = some (user t j))
    (hrest : Delivered env user pageSize count p (i + r) xs t) :
    Delivered env user pageSize count p i (x :: xs) t where
  tiles := by
    rw [List.map_cons, hans]
    refine ⟨haddr, hr, by omega, ?_⟩
    rw [Nat.add_assoc, Nat.sub_sub]
    exact hrest.tiles
  inPage y hy := by
    rw [List.mem_cons] at hy
    cases hy with
    | inl heq => exact heq ▸ hpage
    | inr hmem => exact hrest.inPage y hmem
  bytes j hlo hhi := by
    -- the byte was brought by this attempt, or by a later one
    by_cases hj : j < i + r
    · refine ⟨x, List.mem_cons_self, by omega, by rw [hans]; simp only; omega, ?_⟩
      rw [haddr, Nat.add_sub_add_left]
      exact hbytes j hlo hj
    · obtain ⟨y, hy, hcover⟩ := hrest.bytes j (by omega) hhi
      exact ⟨y, List.mem_cons_of_mem _ hy, hcover⟩

/-- From a chunk on the loop delivers the rest, and leaves what has been delivered. -/
theorem chunk_delivered (h : Serves env user count) (hps : 0 < pageSize)
    (hrange : p + count + pageSize < 2147483648) (s : σ) (tmp : List Byte) (i : Nat)
    (hi : i < count) (htmp : tmp.length = pageSize) :
    ∃ xs t, Visits (turn env pageSize count p) (chunkAttempt pageSize count p s tmp i) xs
        (count, t) ∧
      Delivered env user pageSize count p i xs t ∧ ∀ j < i, user t j = user s j := by
  induction hk : count - i using Nat.strongRecOn generalizing i s tmp with
  | ind k ih =>
    subst hk
    obtain ⟨haddr, hin, hpage⟩ := chunk_page hps hrange s tmp hi
    generalize hx : chunkAttempt pageSize count p s tmp i = x at haddr hin hpage
    have hxi : x.i = i := by rw [← hx]; rfl
    have hxs : x.s = s := by rw [← hx]; rfl
    have hxtmp : x.tmp.length = pageSize := by rw [← hx]; exact htmp
    have hpagele := hpage.le
    obtain ⟨r, hr, hrlen, hans, hcopied, hnext, hfilled, hcopy, huser⟩ :=
      h.attempt hpage.pos (by omega) (by omega) (by omega)
    rw [hxi] at hnext huser
    rw [hxs] at huser
    -- the copy puts the answer into the user buffer and leaves what is in front of it
    have hbytes : ∀ j, i ≤ j → j < i + r → (x.filled env)[j - i]? =
        some (user (x.copy env).2 j) := by
      intro j hlo hhi
      have htake : ((x.filled env).take r).length = r := by
        rw [List.length_take]
        omega
      have hget := writeBytes_of_mem (user s) i ((x.filled env).take r) (j - i) (by omega)
      rw [Nat.add_sub_cancel' hlo, List.getElem_take] at hget
      rw [huser, hget, List.getElem?_eq_getElem]
    have hframe : ∀ j < i, user (x.copy env).2 j = user s j := by
      intro j hj
      rw [huser]
      exact writeBytes_frame _ _ _ _ (Or.inl hj)
    by_cases hmore : i + r < count
    · have hturn : turn env pageSize count p x =
          .inl (chunkAttempt pageSize count p (x.copy env).2 (x.filled env) (i + r)) := by
        rw [turn_more (by omega) hcopy (by omega), hnext]
      obtain ⟨xs, t, hv, hrest, hkeep⟩ := ih (count - (i + r)) (by omega) (x.copy env).2
        (x.filled env) (i + r) hmore (by omega) rfl
      refine ⟨x :: xs, t, .more hturn hv,
        Delivered.cons haddr hans hr (by omega) hpage ?_ hrest, ?_⟩
      · intro j hlo hhi
        rw [hkeep j hhi]
        exact hbytes j hlo hhi
      · intro j hj
        rw [hkeep j (by omega)]
        exact hframe j hj
    · have hdone : i + r = count := by omega
      have hturn : turn env pageSize count p x = .inr ((count : Int), (x.copy env).2) := by
        rw [turn_done (by omega) hcopy (by omega), hnext, hdone, toS32_of_lt (by omega)]
      refine ⟨[x], (x.copy env).2, .last hturn,
        Delivered.cons haddr hans hr (by omega) hpage hbytes ?_, hframe⟩
      rw [hdone]
      exact Delivered.nil _

end

/-- A read whose SMBus calls all succeed, with full or short answers, makes at most `count`
    of them, returns `count` with the file position behind the range, and has delivered the
    range from its front on. -/
theorem at24Read_tiled (env : At24Env σ) (user : σ → Nat → Byte) (count : Nat)
    (hserves : Serves env user count) (at24 : At24Data) (hps : 0 < at24.chip.pageSize) (p : Nat)
    (hp : p < at24.chip.byteLen) (hrange : p + count + at24.chip.pageSize < 2147483648) (s : σ) :
    ∃ xs t, Call env at24 p count s xs count (p + count) t ∧ xs.length ≤ count ∧
      Delivered env user at24.chip.pageSize count p 0 xs t := by
  obtain ⟨tmp, s', hmalloc, htmp⟩ := hserves.kmalloc s at24.chip.pageSize
  have hpos : ¬ (p : Int) ≥ at24.chip.byteLen := by omega
  by_cases hcount : count = 0
  · subst hcount
    refine ⟨[], s', ⟨fun fuel _ => ?_, ?_⟩, Nat.le_refl 0, Delivered.nil s'⟩
    · simp only [at24Read, if_neg hpos, hmalloc]
      simp
    · simp [start, hmalloc]
  · obtain ⟨xs, t, hv, hd, -⟩ := chunk_delivered hserves hps hrange s' tmp 0 (by omega) htmp
    have hstart : start env at24 p count s =
        some (chunkAttempt at24.chip.pageSize count p s' tmp 0) := by
      simp only [start, if_neg hpos, hmalloc, if_pos (show 0 < count by omega)]
    -- the range stays below `2 ^ 31`, so the result is the count
    have hcall := call_of_visits hstart hv
    rw [if_pos (by omega)] at hcall
    have hlength := hd.tiles.length_le
    rw [List.length_map] at hlength
    exact ⟨xs, t, hcall, hlength, hd⟩

theorem eepromEnv_serves (count : Nat) : Serves eepromEnv Eeprom.user count where
  kmalloc s size := ⟨_, _, rfl, List.length_replicate⟩
  readBlock s client command len tmp hpos hle := by
    simp only [eepromEnv, List.length_append, length_readBytes, List.length_drop, and_true]
    omega
  copyToUser s off tmp len _ _ := ⟨rfl, rfl⟩

/-- 40 bytes from offset 20 on, in pages of 16: the first chunk has 12 bytes. -/
theorem at24Read_tiled_chip512 :
    ∃ xs t, Call eepromEnv ⟨chip512, 2⟩ (20 : Nat) 40 ⟨fun _ => 0, fun _ => 0⟩ xs (40 : Nat)
        ((20 : Nat) + (40 : Nat)) t ∧ xs.length ≤ 40 ∧
      Delivered eepromEnv Eeprom.user chip512.pageSize 40 20 0 xs t :=
  at24Read_tiled eepromEnv Eeprom.user 40 (eepromEnv_serves 40) ⟨chip512, 2⟩ (by decide) 20
    (by decide) (by decide) _

end At24
