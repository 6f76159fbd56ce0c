import DriverLearn.Spec.RamblockErrors

/-!
# The bounds check of the RAM disk

The offset of a segment and the end that is compared with `RAMBLOCK_SIZE` are computed in
32 bits. The check lets a segment pass whose end, in exact integers, lies behind a positive
multiple of 2^32 by no more than the size of the disk, and such a segment is copied.

## Key results

- `shift_narrowed`: the offset of a sector of 32 or 64 bits
- `turnExact_iff`: one turn of the loop
- `copiesExact_iff`: a whole call
-/

namespace Ramblock

open Loop Word

/-- In a `sector_t` that is not narrower than `unsigned long` the shift may wrap as well, but
    what the offset gets of it is the same. -/
theorem shift_narrowed {w : Nat} (hw : 32 ≤ w) (sector : BitVec w) :
    ((sector <<< 9).setWidth 32).toNat = toU32 (sector.toNat <<< 9 : Nat) := by
  have hdvd : 2 ^ 32 ∣ 2 ^ w := Nat.pow_dvd_pow 2 hw
  rw [BitVec.toNat_setWidth, BitVec.toNat_shiftLeft, Nat.mod_mod_of_dvd _ hdvd, toU32]
  omega

/-- The turn copies only inside the disk, and at the offset of its segment. -/
def TurnExact (x : Request × Ramdisk) : Prop :=
  ∀ es, (afterTurn x).log = x.2.log ++ es → ∀ dir offset len, .memcpy dir offset len ∈ es →
    x.1.cur.Inside ∧ offset = x.1.cur.start

/-- The loop of a call takes turns that are all exact. -/
def CopiesExact (d : Ramdisk) : Prop :=
  ∀ r d', blkFetchRequest d = (some r, d') →
    ∃ xs, Visits turn (r, d') xs (doRamblockRequest d) ∧ ∀ x ∈ xs, TurnExact x

/-- The end of the segment. -/
def Segment.stop (s : Segment) : Nat := s.start + s.buffer.length

/-- The segment does not end within `RAMBLOCK_SIZE` above a positive multiple of 2^32. -/
def Segment.EndsApart (s : Segment) : Prop :=
  ∀ k ≥ 1, ¬ (k * 4294967296 ≤ s.stop ∧ s.stop ≤ k * 4294967296 + ramblockSize)

/-- The check compares the end of the segment modulo 2^32. -/
theorem check_eq (req : Request) :
    toU32 (blkRqCurBytes req + toU32 (blkRqPos req <<< 9 : Nat) : Nat) =
      req.cur.stop % 4294967296 := by
  simp only [toU32, blkRqCurBytes, blkRqPos, Segment.stop, Segment.start, Nat.shiftLeft_eq]
  omega

/-- The events of a turn: the copy, unless the check has refused it, and the completion. -/
theorem afterTurn_log (x : Request × Ramdisk) :
    (afterTurn x).log = x.2.log ++
      ((if x.1.cur.stop % 4294967296 > ramblockSize then []
        else [.memcpy x.1.cur.dir (toU32 (blkRqPos x.1 <<< 9 : Nat)) x.1.cur.buffer.length]) ++
        [.endRequest (transferCur x.1 x.2).1.cur 0]) := by
  rw [(afterTurn_eq x).1, ← List.append_assoc]
  congr 1
  simp only [transferCur, check_eq]
  split
  · simp
  · cases hdir : rqDataDir x.1 <;> simp [blkRqCurBytes, ← hdir, rqDataDir]

theorem turnExact_iff (x : Request × Ramdisk) : TurnExact x ↔ x.1.cur.EndsApart := by
  have hlog := afterTurn_log x
  have hsize : ramblockSize = 1048576 := rfl
  constructor
  · rintro h k hk ⟨hlo, hhi⟩
    -- the end is accepted, though it is not inside the disk
    have haccepted : ¬ x.1.cur.stop % 4294967296 > ramblockSize := by omega
    rw [if_neg haccepted] at hlog
    obtain ⟨hinside, -⟩ := h _ hlog _ _ _ List.mem_cons_self
    have hstop : x.1.cur.stop ≤ ramblockSize := hinside
    omega
  · intro h es hes dir offset len hmem
    rw [hlog, List.append_cancel_left_eq] at hes
    subst hes
    split at hmem
    · simp at hmem
    · next haccepted =>
      simp only [List.cons_append, List.nil_append, List.mem_cons, Event.memcpy.injEq,
        List.not_mem_nil, or_false, reduceCtorEq] at hmem
      obtain ⟨-, hoffset, -⟩ := hmem
      -- an accepted end is itself at most the size, so nothing has wrapped
      have hstop : x.1.cur.stop ≤ ramblockSize := by
        by_contra hbig
        exact h (x.1.cur.stop / 4294967296) (by omega) (by omega)
      refine ⟨hstop, ?_⟩
      rw [hoffset, toU32]
      simp only [blkRqPos, Segment.stop, Segment.start, Nat.shiftLeft_eq] at hstop ⊢
      omega

/-- For every queue of requests with any sectors and lengths: the copies of a call are exact
    iff no segment ends within `RAMBLOCK_SIZE` above a positive multiple of 2^32. -/
theorem copiesExact_iff (d : Ramdisk) :
    CopiesExact d ↔ ∀ s ∈ d.queue.flatMap Request.segments, s.EndsApart :=
  turns_iff turnExact_iff d

/-- A byte at sector 2^23 is copied to the front of the disk. -/
theorem copiesExact_fails_wrap : ¬ ∀ d : Ramdisk, CopiesExact d := by
  intro h
  have happart := (turns_iff turnExact_iff _).mp
    (h ⟨[⟨⟨8388608, .write, [1]⟩, []⟩], fun _ => 0, []⟩)
    ⟨8388608, .write, [1]⟩ (by simp [Request.segments])
  exact happart 1 (by decide) (by decide)

end Ramblock
