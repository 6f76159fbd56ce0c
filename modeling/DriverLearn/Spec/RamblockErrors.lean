import DriverLearn.ForStd.Loop
import DriverLearn.Spec.RamblockStore

/-!
# What a completed segment says

A segment that is completed without an error should have been copied, and one outside the
disk should be completed with an error. The branch for a bad access prints a message and
joins the other one at `done`, where every segment is completed with 0. So the completions
of a call are right exactly when it is not asked for a segment outside the disk.

## Key results

- `serve_visits`: one turn of the loop for each segment, in queue order
- `turnOk_iff`: one turn
- `truthful_iff`: a whole call
-/

namespace Ramblock

open Loop Memory

/-! ### The turns of the loop -/

/-- One turn of `while (req)` with the request in service: the next request in service, or
    the state in which the loop ends. -/
def turn (x : Request × Ramdisk) : (Request × Ramdisk) ⊕ Ramdisk :=
  match blkEndRequestCur (transferCur x.1 x.2).1 0 (transferCur x.1 x.2).2 with
  | (some r, d) => .inl (r, d)
  | (none, d) =>
    match blkFetchRequest d with
    | (some r, d) => .inl (r, d)
    | (none, d) => .inr d

/-- The state behind the turn. -/
def afterTurn (x : Request × Ramdisk) : Ramdisk :=
  match turn x with
  | .inl y => y.2
  | .inr d => d

/-- The turn completes its segment, with the buffer that `seg` shows, and with `error`. -/
def Completes (x : Request × Ramdisk) (seg : Segment) (error : Int) : Prop :=
  (afterTurn x).log.getLast? = some (.endRequest seg error)

/-- All bytes of the segment `s` are copied between its buffer, which becomes that of `seg`,
    and the disk, which becomes `after`, at the offset of the segment. -/
def Moved (s : Segment) (before : Nat → Byte) (seg : Segment) (after : Nat → Byte) : Prop :=
  match s.dir with
  | .read => seg.buffer = readBytes before s.start s.buffer.length ∧ after = before
  | .write => seg.buffer = s.buffer ∧ after = writeBytes before s.start s.buffer

/-- No error means that the segment was copied, and a segment outside the disk gets an error
    and changes neither buffer. -/
structure TurnOk (x : Request × Ramdisk) : Prop where
  success : ∀ seg, Completes x seg 0 → Moved x.1.cur x.2.ramblockBuf seg (afterTurn x).ramblockBuf
  failure : ¬ x.1.cur.Inside → ∃ seg error, Completes x seg error ∧ error ≠ 0 ∧
    seg.buffer = x.1.cur.buffer ∧ (afterTurn x).ramblockBuf = x.2.ramblockBuf

/-- The loop of a call takes turns that are all right. -/
def Truthful (d : Ramdisk) : Prop :=
  ∀ r d', blkFetchRequest d = (some r, d') →
    ∃ xs, Visits turn (r, d') xs (doRamblockRequest d) ∧ ∀ x ∈ xs, TurnOk x

/-! ### One turn -/

/-- Fetching the next request touches neither the log nor the disk. -/
theorem afterTurn_eq (x : Request × Ramdisk) :
    (afterTurn x).log =
        (transferCur x.1 x.2).2.log ++ [.endRequest (transferCur x.1 x.2).1.cur 0] ∧
      (afterTurn x).ramblockBuf = (transferCur x.1 x.2).2.ramblockBuf := by
  simp only [afterTurn, turn, blkEndRequestCur, blkFetchRequest, transferCur_rest,
    transferCur_queue]
  cases x.1.rest with
  | cons s ss => exact ⟨rfl, rfl⟩
  | nil =>
    cases x.2.queue with
    | nil => exact ⟨rfl, rfl⟩
    | cons r q => exact ⟨rfl, rfl⟩

/-- Every completion is one without an error. -/
theorem completes_iff (x : Request × Ramdisk) (seg : Segment) (error : Int) :
    Completes x seg error ↔ seg = (transferCur x.1 x.2).1.cur ∧ error = 0 := by
  rw [Completes, (afterTurn_eq x).1, List.getLast?_append]
  simp [eq_comm]

theorem turnOk_iff (x : Request × Ramdisk) : TurnOk x ↔ x.1.cur.Inside := by
  constructor
  · intro h
    by_contra houtside
    obtain ⟨seg, error, hcompletes, hne, -⟩ := h.failure houtside
    exact hne ((completes_iff x seg error).mp hcompletes).2
  · intro hinside
    refine ⟨fun seg hcompletes => ?_, fun houtside => absurd hinside houtside⟩
    obtain ⟨rfl, -⟩ := (completes_iff x seg 0).mp hcompletes
    rw [(afterTurn_eq x).2, transferCur_inside x.1 x.2 hinside, lastWritten_singleton, Moved]
    cases hdir : x.1.cur.dir with
    | read => simp [Segment.served, hdir]
    | write => simp [Segment.served, hdir]

/-! ### A whole call -/

/-- The segments of the request in service and of the queue behind it. -/
def toServe (x : Request × Ramdisk) : List Segment :=
  x.1.segments ++ x.2.queue.flatMap Request.segments

theorem serve_turn (x : Request × Ramdisk) :
    serve (some x.1) x.2 =
      match turn x with
      | .inl y => serve (some y.1) y.2
      | .inr d => d := by
  rw [serve_some, turn]
  simp only [blkEndRequestCur, blkFetchRequest, transferCur_rest, transferCur_queue]
  cases x.1.rest with
  | cons s ss => rfl
  | nil =>
    cases x.2.queue with
    | nil => simp [serve]
    | cons r q => rfl

/-- A turn serves the first of the segments. -/
theorem turn_toServe (x : Request × Ramdisk) :
    match turn x with
    | .inl y => toServe x = x.1.cur :: toServe y
    | .inr _ => toServe x = [x.1.cur] := by
  simp only [turn, blkEndRequestCur, blkFetchRequest, transferCur_rest, transferCur_queue]
  cases hrest : x.1.rest with
  | cons s ss => simp [toServe, Request.segments, hrest]
  | nil =>
    cases hqueue : x.2.queue with
    | nil => simp [toServe, Request.segments, hrest, hqueue]
    | cons r q => simp [toServe, Request.segments, hrest, hqueue]

/-- The loop takes one turn for each segment, in order, and ends as `serve` does. -/
theorem visits_toServe {x : Request × Ramdisk} {xs : List (Request × Ramdisk)} {d : Ramdisk}
    (h : Visits turn x xs d) : d = serve (some x.1) x.2 ∧ xs.map (·.1.cur) = toServe x := by
  induction h with
  | @last x d hturn =>
    have hserve := serve_turn x
    have hsegs := turn_toServe x
    rw [hturn] at hserve hsegs
    exact ⟨hserve.symm, hsegs.symm⟩
  | @more x y xs d hturn rest ih =>
    obtain ⟨hd, hmap⟩ := ih
    have hserve := serve_turn x
    have hsegs := turn_toServe x
    rw [hturn] at hserve hsegs
    exact ⟨hd.trans hserve.symm, by rw [List.map_cons, hmap, hsegs]⟩

theorem serve_visits (x : Request × Ramdisk) : ∃ xs, Visits turn x xs (serve (some x.1) x.2) := by
  have hless : ∀ x y, True → turn x = .inl y → True ∧ (toServe y).length < (toServe x).length := by
    intro x y _ hturn
    have hsegs := turn_toServe x
    rw [hturn] at hsegs
    simp [hsegs]
  obtain ⟨xs, d, hvisits⟩ := exists_visits (fun x => (toServe x).length) hless x trivial
  exact ⟨xs, (visits_toServe hvisits).1 ▸ hvisits⟩

/-- A call fetches the first request and serves all segments of the queue. -/
theorem fetch_toServe {d d' : Ramdisk} {r : Request} (h : blkFetchRequest d = (some r, d')) :
    doRamblockRequest d = serve (some r) d' ∧
      toServe (r, d') = d.queue.flatMap Request.segments := by
  refine ⟨by rw [doRamblockRequest, h], ?_⟩
  rw [blkFetchRequest] at h
  cases hqueue : d.queue with
  | nil => simp [hqueue] at h
  | cons r' q =>
    simp only [hqueue, Prod.mk.injEq, Option.some.injEq] at h
    obtain ⟨rfl, rfl⟩ := h
    simp [toServe]

/-- What holds of a turn just by its segment holds of all turns of a call iff it does by
    every segment of the queue. -/
theorem turns_iff {P : Request × Ramdisk → Prop} {Q : Segment → Prop}
    (hturn : ∀ x, P x ↔ Q x.1.cur) (d : Ramdisk) :
    (∀ r d', blkFetchRequest d = (some r, d') →
      ∃ xs, Visits turn (r, d') xs (doRamblockRequest d) ∧ ∀ x ∈ xs, P x) ↔
      ∀ s ∈ d.queue.flatMap Request.segments, Q s := by
  constructor
  · intro h s hs
    cases hfetch : blkFetchRequest d with
    | mk fetched d' =>
      cases fetched with
      | none =>
        -- nothing is queued
        rw [blkFetchRequest] at hfetch
        cases hqueue : d.queue with
        | nil => simp [hqueue] at hs
        | cons r q => simp [hqueue] at hfetch
      | some r =>
        obtain ⟨xs, hvisits, hall⟩ := h r d' hfetch
        rw [← (fetch_toServe hfetch).2, ← (visits_toServe hvisits).2] at hs
        obtain ⟨x, hx, rfl⟩ := List.mem_map.mp hs
        exact (hturn x).mp (hall x hx)
  · intro h r d' hfetch
    obtain ⟨hrun, hsegs⟩ := fetch_toServe hfetch
    obtain ⟨xs, hvisits⟩ := serve_visits (r, d')
    have hmap := (visits_toServe hvisits).2
    refine ⟨xs, hrun ▸ hvisits, fun x hx => (hturn x).mpr (h _ ?_)⟩
    rw [← hsegs, ← hmap]
    exact List.mem_map_of_mem hx

/-- For every queue of requests: the completions of a call are right iff every segment lies
    inside the disk. -/
theorem truthful_iff (d : Ramdisk) :
    Truthful d ↔ ∀ s ∈ d.queue.flatMap Request.segments, s.Inside :=
  turns_iff turnOk_iff d

/-- A byte written behind the end of the disk is reported as written. -/
theorem truthful_fails_outside : ¬ ∀ d : Ramdisk, Truthful d := by
  intro h
  have hinside := (turns_iff turnOk_iff _).mp (h ⟨[⟨⟨2048, .write, [1]⟩, []⟩], fun _ => 0, []⟩)
    ⟨2048, .write, [1]⟩ (by simp [Request.segments])
  simp [Segment.Inside, Segment.start, ramblockSize] at hinside

end Ramblock
