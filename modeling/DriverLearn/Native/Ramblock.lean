import DriverLearn.ForStd.Memory
import DriverLearn.ForStd.Word

/-!
# RAM block device

Model of `do_ramblock_request` (`ram_block/ramblock.c`), the request function of the
RAM disk. The block layer is modelled by the three calls the driver makes of it:
`blk_fetch_request` dequeues the next request, the accessors read the current segment
of a request, and `__blk_end_request_cur` completes that segment and moves on to the
next one. `unsigned long` has 32 bits.
-/

namespace Ramblock

open Memory Word

/-- `#define RAMBLOCK_SIZE (0x400*0x400)` -/
def ramblockSize : Nat := 0x400 * 0x400

/-- The direction of a segment. -/
inductive Dir where
  | read
  | write
  deriving DecidableEq, Repr

/-- One segment of a request: its start sector, its direction and the memory behind
    `bio_data`, whose length is `blk_rq_cur_bytes`. -/
structure Segment where
  sector : Nat
  dir : Dir
  buffer : List Byte
  deriving Repr

/-- A request in service: the current segment and the ones behind it. The queue sets no
    flush capability, so the block core hands out requests with data only. -/
structure Request where
  cur : Segment
  rest : List Segment
  deriving Repr

/-- All segments of a request. -/
def Request.segments (r : Request) : List Segment := r.cur :: r.rest

/-- What the driver does to the outside: a `memcpy` between a segment buffer and
    `ramblock_buf`, and the completion of a segment, which shows its buffer then. -/
inductive Event where
  | memcpy (dir : Dir) (offset len : Nat)
  | endRequest (seg : Segment) (error : Int)
  deriving Repr

/-- The request queue, `ramblock_buf` and the events so far. -/
structure Ramdisk where
  queue : List Request
  ramblockBuf : Nat → Byte
  log : List Event

/-! ### The block layer -/

/-- `blk_rq_pos` -/
def blkRqPos (req : Request) : Nat := req.cur.sector

/-- `blk_rq_cur_bytes` -/
def blkRqCurBytes (req : Request) : Nat := req.cur.buffer.length

/-- `rq_data_dir` -/
def rqDataDir (req : Request) : Dir := req.cur.dir

/-- Dequeue the next request, or return NULL. -/
def blkFetchRequest (d : Ramdisk) : Option Request × Ramdisk :=
  match d.queue with
  | [] => (none, d)
  | r :: q => (some r, { d with queue := q })

/-- Complete the current segment with `error`. The request is returned iff a segment
    remains, and is then positioned on it. -/
def blkEndRequestCur (req : Request) (error : Int) (d : Ramdisk) : Option Request × Ramdisk :=
  let d := { d with log := d.log ++ [.endRequest req.cur error] }
  match req.rest with
  | [] => (none, d)
  | s :: ss => (some ⟨s, ss⟩, d)

/-! ### The request function -/

/-- The body of the loop of `do_ramblock_request` up to the label `done`. -/
def transferCur (req : Request) (d : Ramdisk) : Request × Ramdisk :=
  let offset := toU32 (blkRqPos req <<< 9 : Nat)
  let len := blkRqCurBytes req
  if toU32 (len + offset : Nat) > ramblockSize then
    (req, d)
  else
    let d' := { d with log := d.log ++ [.memcpy (rqDataDir req) offset len] }
    match rqDataDir req with
    | .read =>
      ({ req with cur := { req.cur with buffer := readBytes d.ramblockBuf offset len } }, d')
    | .write =>
      (req, { d' with ramblockBuf := writeBytes d.ramblockBuf offset req.cur.buffer })

/-- Segments left in the request in service and in the queue. -/
def pending (req : Option Request) (d : Ramdisk) : Nat :=
  (req.map fun r => r.rest.length + 1).getD 0 + (d.queue.map fun r => r.rest.length + 1).sum

/-- A transfer leaves the segments behind the current one. -/
@[simp] theorem transferCur_rest (req : Request) (d : Ramdisk) :
    (transferCur req d).1.rest = req.rest := by
  simp only [transferCur]
  split
  · rfl
  · cases rqDataDir req <;> rfl

/-- A transfer leaves the other requests. -/
@[simp] theorem transferCur_queue (req : Request) (d : Ramdisk) :
    (transferCur req d).2.queue = d.queue := by
  simp only [transferCur]
  split
  · rfl
  · cases rqDataDir req <;> rfl

/-- The `while (req)` loop of `do_ramblock_request`. -/
def serve (req : Option Request) (d : Ramdisk) : Ramdisk :=
  match req with
  | none => d
  | some r =>
    match _hend : blkEndRequestCur (transferCur r d).1 0 (transferCur r d).2 with
    | (some r', d') => serve (some r') d'
    | (none, d') => serve (blkFetchRequest d').1 (blkFetchRequest d').2
termination_by pending req d
decreasing_by
  · simp only [blkEndRequestCur, transferCur_rest] at _hend
    cases hrest : r.rest with
    | nil => simp [hrest] at _hend
    | cons s ss =>
      simp only [hrest, Prod.mk.injEq, Option.some.injEq] at _hend
      obtain ⟨rfl, rfl⟩ := _hend
      simp [pending, hrest]
  · simp only [blkEndRequestCur, transferCur_rest] at _hend
    cases hrest : r.rest with
    | cons s ss => simp [hrest] at _hend
    | nil =>
      simp only [hrest, Prod.mk.injEq, true_and] at _hend
      subst _hend
      cases hq : d.queue with
      | nil => simp [pending, blkFetchRequest, hq, hrest]
      | cons r' q => simp [pending, blkFetchRequest, hq, hrest]

/-- `do_ramblock_request` -/
def doRamblockRequest (d : Ramdisk) : Ramdisk :=
  serve (blkFetchRequest d).1 (blkFetchRequest d).2

end Ramblock
