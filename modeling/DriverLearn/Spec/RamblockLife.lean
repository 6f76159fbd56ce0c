import DriverLearn.ForStd.Relate
import DriverLearn.Native.RamblockLoad
import DriverLearn.Spec.RamblockStore

/-!
# The life of the RAM disk

Seen from outside the module is a disk that is there or not, and while it is there it holds
what was written since it was loaded, on zeros. A load that fails at any call leaves nothing
behind, and an unload gives everything back, so this goes on for ever.

## Key results

- `ramblockInit_failed` / `ramblockInit_complete`: what a load does
- `life_refines`: every run of loads, requests and unloads
-/

namespace Ramblock

open Ledger Memory Word

/-! ### The abstract disk -/

/-- All calls of the load succeed. -/
def Results.complete (r : Results) : Bool :=
  0 < r.registerBlkdev && r.allocDisk && r.blkInitQueue && r.kzalloc

/-- The segments served since the disk was loaded, if it is. -/
abbrev Story := Option (List Segment)

def Story.next (a : Story) : Op → Story
  | .load r => if r.complete then some [] else none
  | .request reqs => a.map (· ++ reqs.flatMap Request.segments)
  | .unload => none

def told (ops : List Op) : Story := ops.foldl Story.next none

/-- What is held while the module is loaded. -/
def heldLoaded (major : Int) : Multiset Resource :=
  [Resource.added, .buf, .queue, .disk, .blkdev major]

/-- Nothing is held, and there is no disk. -/
structure Absent (s : Module) : Prop where
  disk : s.disk = none
  settled : settle 0 s.ledger = some 0

/-- The disk has served the segments, each read with the bytes last written. -/
structure Present (segs : List Segment) (s : Module) : Prop where
  disk : s.disk = some ⟨ramblockSize / 512, [], lastWritten (fun _ => 0) segs,
    servedLog (fun _ => 0) [] segs⟩
  settled : settle 0 s.ledger = some (heldLoaded s.major)

/-- The module is as the story has it. -/
def Tells (s : Module) : Story → Prop
  | none => s.loaded = false ∧ Absent s
  | some segs => s.loaded = true ∧ Present segs s

/-! ### One step -/

variable {s : Module} {a : Story}

/-- A load that fails gives back what it took, in reverse order. -/
theorem ramblockInit_failed (h : Absent s) {r : Results} (hreg : r.registerBlkdev ≠ 0)
    (hfail : r.complete = false) : (ramblockInit r s).1 ≠ 0 ∧ Absent (ramblockInit r s).2 := by
  obtain ⟨hdisk, hsettled⟩ := h
  have hnomem : eNoMem ≠ 0 := by decide
  unfold ramblockInit
  -- each error exit gives back what was taken, in reverse order
  by_cases hmajor : r.registerBlkdev ≤ 0
  · rw [if_pos hmajor]
    exact ⟨hreg, hdisk, hsettled⟩
  rw [if_neg hmajor]
  by_cases halloc : r.allocDisk = true
  swap
  · rw [if_pos halloc]
    exact ⟨hnomem, hdisk, settle_give (settle_take hsettled)⟩
  rw [if_neg (not_not.mpr halloc)]
  by_cases hqueue : r.blkInitQueue = true
  swap
  · rw [if_pos hqueue]
    exact ⟨hnomem, hdisk, settle_give (settle_give (settle_take (settle_take hsettled)))⟩
  rw [if_neg (not_not.mpr hqueue)]
  by_cases hbuf : r.kzalloc = true
  swap
  · rw [if_pos hbuf]
    exact ⟨hnomem, hdisk, settle_give (settle_give (settle_give
      (settle_take (settle_take (settle_take hsettled)))))⟩
  · simp [Results.complete, halloc, hqueue, hbuf, Int.lt_of_not_ge hmajor] at hfail

/-- A load that succeeds adds a disk of zeros. -/
theorem ramblockInit_complete (h : Absent s) {r : Results} (hall : r.complete = true) :
    (ramblockInit r s).1 = 0 ∧ Present [] (ramblockInit r s).2 := by
  simp only [Results.complete, Bool.and_eq_true, decide_eq_true_eq] at hall
  obtain ⟨⟨⟨hmajor, halloc⟩, hqueue⟩, hbuf⟩ := hall
  unfold ramblockInit
  rw [if_neg (Int.not_le.mpr hmajor), if_neg (not_not.mpr halloc), if_neg (not_not.mpr hqueue),
    if_neg (not_not.mpr hbuf)]
  exact ⟨rfl, rfl,
    settle_take (settle_take (settle_take (settle_take (settle_take h.settled))))⟩

theorem ramblockExit_absent {segs : List Segment} (h : Present segs s) :
    Absent (ramblockExit s) := by
  have hperm : [Resource.added, .queue, .disk, .blkdev s.major, .buf].Perm
      [.added, .buf, .queue, .disk, .blkdev s.major] :=
    (List.perm_append_singleton Resource.buf [.queue, .disk, .blkdev s.major]).cons .added
  have hgiven := settle_gives hperm 0
  rw [Multiset.add_zero, ← heldLoaded, ← settle_append h.settled] at hgiven
  refine ⟨rfl, hgiven ▸ ?_⟩
  simp [ramblockExit, Module.release]

/-- What is requested within the capacity is served. -/
theorem request_present {segs : List Segment} (h : Present segs s) {reqs : List Request}
    (hposs : (Op.request reqs).Possible s) :
    Present (segs ++ reqs.flatMap Request.segments) (step s (.request reqs)) := by
  obtain ⟨d, hd, hcapacity⟩ := hposs
  obtain rfl := Option.some.inj (h.disk.symm.trans hd)
  have hsize : ramblockSize / 512 * 512 = ramblockSize := by decide
  have hinside : ∀ seg ∈ reqs.flatMap Request.segments, seg.Inside := by
    intro seg hseg
    obtain ⟨req, hreq, hin⟩ := List.mem_flatMap.mp hseg
    rw [Segment.Inside, Segment.start, ← hsize]
    exact hcapacity req hreq seg hin
  refine ⟨?_, h.settled⟩
  rw [step, h.disk]
  simp only [Option.map_some, Gendisk.request, List.nil_append, Option.some.injEq]
  rw [doRamblockRequest_spec _ hinside, Ramdisk.afterServing, lastWritten_append,
    servedLog_append, List.nil_append, ← List.append_nil segs, servedLog_shift]
  simp

theorem step_tells (h : Tells s a) {op : Op} (hposs : op.Possible s) :
    Tells (step s op) (a.next op) := by
  cases a with
  | none =>
    obtain ⟨hloaded, h⟩ := h
    cases op with
    -- a load that fails takes back what it did: there is no disk, as before
    | load r =>
      cases hall : r.complete with
      | false =>
        obtain ⟨hret, hend⟩ := ramblockInit_failed h hposs.2 hall
        rw [Story.next, hall]
        exact ⟨decide_eq_false hret, hend.disk, hend.settled⟩
      | true =>
        obtain ⟨hret, hend⟩ := ramblockInit_complete h hall
        rw [Story.next, hall]
        exact ⟨decide_eq_true hret, hend.disk, hend.settled⟩
    | request reqs =>
      obtain ⟨d, hd, -⟩ := hposs
      rw [h.disk] at hd
      cases hd
    | unload =>
      rw [Op.Possible, hloaded] at hposs
      cases hposs
  | some segs =>
    obtain ⟨hloaded, h⟩ := h
    cases op with
    | load r =>
      rw [Op.Possible, hloaded] at hposs
      cases hposs.1
    | request reqs => exact ⟨hloaded, request_present h hposs⟩
    | unload =>
      have hend := ramblockExit_absent h
      exact ⟨rfl, hend.disk, hend.settled⟩

/-- The geometry names every sector of the disk. -/
theorem ramblockGetgeo_covers {segs : List Segment} (h : Present segs s) :
    s.disk.map Gendisk.capacity =
      some (ramblockGetgeo.heads * ramblockGetgeo.cylinders * ramblockGetgeo.sectors) := by
  rw [h.disk]
  rfl

/-! ### Runs -/

/-- In every run of loads, requests and unloads the module is the disk of the story: a load that
    fails and an unload leave nothing behind, and behind a load that succeeds each request is
    served, with what was written since the load. -/
theorem life_refines {ops : List Op}
    (h : Run.Guarded step (fun s op => op.Possible s) Module.init ops) :
    Tells (ops.foldl step Module.init) (told ops) := by
  have hstart : Tells Module.init none := ⟨rfl, rfl, rfl⟩
  have hstep : ∀ s a op, Tells s a → op.Possible s → Tells (step s op) (a.next op) :=
    fun _ _ _ htells hposs => step_tells htells hposs
  exact Run.foldl_related_of_guarded hstep hstart h

/-- The buffer cannot be had, then it can; bytes are written and read, and the disk is loaded
    anew and read. -/
def reloaded : List Op :=
  [.load ⟨254, true, true, false⟩, .load ⟨254, true, true, true⟩,
    .request [⟨⟨2047, .write, [1, 2, 3]⟩, [⟨2047, .read, [0, 0]⟩]⟩], .unload,
    .load ⟨253, true, true, true⟩, .request [⟨⟨2047, .read, [9]⟩, []⟩]]

theorem life_refines_reloaded :
    Tells (reloaded.foldl step Module.init) (some [⟨2047, .read, [9]⟩]) := by
  have hposs : Run.Guarded step (fun s op => op.Possible s) Module.init reloaded := by
    refine ⟨⟨rfl, by decide⟩, ⟨rfl, by decide⟩, ⟨_, rfl, ?_⟩, rfl, ⟨rfl, by decide⟩,
      ⟨_, rfl, ?_⟩, trivial⟩
    · simp [Request.segments, ramblockSize]
    · simp [Request.segments, ramblockSize]
  exact life_refines hposs

end Ramblock
