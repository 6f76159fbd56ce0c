import DriverLearn.Native.Ramblock

/-!
# The RAM disk refines a byte array

The abstract disk is the initial content together with the list of segments served so
far: a byte is what the last write segment that covers it put there. The request
function serves the segments of every request in queue order, each once, and what it
leaves in a read segment is the content of the abstract disk at that point.

## Key results

- `serve_spec`: one run of the `while (req)` loop
- `doRamblockRequest_refines_store`: any sequence of calls
-/

namespace Ramblock

open Memory Word

/-! ### The abstract disk -/

/-- First byte of a segment. -/
def Segment.start (s : Segment) : Nat := s.sector * 512

/-- The segment lies inside the disk. -/
def Segment.Inside (s : Segment) : Prop := s.start + s.buffer.length ≤ ramblockSize

/-- The segment is a write that covers the byte `a`. -/
def Segment.writes (s : Segment) (a : Nat) : Bool :=
  s.dir = .write && s.start ≤ a && a < s.start + s.buffer.length

/-- The byte `a` after the segments `earlier`: what the last write that covers it stored,
    or the initial byte if there is none. -/
def lastWritten (init : Nat → Byte) (earlier : List Segment) (a : Nat) : Byte :=
  match earlier.reverse.find? (·.writes a) with
  | some s => (s.buffer[a - s.start]?).getD (init a)
  | none => init a

/-- A segment as it is completed: the buffer of a read holds the bytes of the disk. -/
def Segment.served (init : Nat → Byte) (earlier : List Segment) (s : Segment) : Segment :=
  match s.dir with
  | .read => { s with buffer := readBytes (lastWritten init earlier) s.start s.buffer.length }
  | .write => s

/-- The events of serving the segments in order, each with one copy and one completion. -/
def servedLog (init : Nat → Byte) : List Segment → List Segment → List Event
  | _, [] => []
  | earlier, s :: rest =>
    .memcpy s.dir s.start s.buffer.length :: .endRequest (s.served init earlier) 0 ::
      servedLog init (earlier ++ [s]) rest

@[simp] theorem lastWritten_nil (init : Nat → Byte) : lastWritten init [] = init := rfl

theorem lastWritten_append (init : Nat → Byte) (xs ys : List Segment) :
    lastWritten init (xs ++ ys) = lastWritten (lastWritten init xs) ys := by
  funext a
  simp only [lastWritten, List.reverse_append, List.find?_append]
  cases hy : ys.reverse.find? (·.writes a) with
  | none => simp
  | some s =>
    -- the write found covers `a`, so neither side falls back to the initial byte
    have hw : s.writes a := by simpa using List.find?_some hy
    simp only [Segment.writes, Bool.and_eq_true, decide_eq_true_eq] at hw
    have hlt : a - s.start < s.buffer.length := by omega
    simp [List.getElem?_eq_getElem hlt]

/-- One segment changes the abstract disk as a write of its buffer, or not at all. -/
theorem lastWritten_singleton (init : Nat → Byte) (s : Segment) :
    lastWritten init [s] =
      match s.dir with
      | .read => init
      | .write => writeBytes init s.start s.buffer := by
  funext a
  cases hdir : s.dir with
  | read => simp [lastWritten, Segment.writes, hdir]
  | write =>
    by_cases hin : s.start ≤ a ∧ a < s.start + s.buffer.length
    · simp [lastWritten, Segment.writes, hdir, hin.1, hin.2, writeBytes]
    · have hw : s.writes a = false := by
        simp only [Segment.writes, hdir]
        simp
        omega
      have hframe : writeBytes init s.start s.buffer a = init a :=
        writeBytes_frame _ _ _ _ (by omega)
      simp [lastWritten, hw, hframe]

theorem servedLog_shift (init : Nat → Byte) (xs earlier rest : List Segment) :
    servedLog init (xs ++ earlier) rest = servedLog (lastWritten init xs) earlier rest := by
  induction rest generalizing earlier with
  | nil => rfl
  | cons s rest ih =>
    simp only [servedLog, List.append_assoc, ih, Segment.served, lastWritten_append]

theorem servedLog_append (init : Nat → Byte) (earlier xs ys : List Segment) :
    servedLog init earlier (xs ++ ys) =
      servedLog init earlier xs ++ servedLog init (earlier ++ xs) ys := by
  induction xs generalizing earlier with
  | nil => simp [servedLog]
  | cons s xs ih => simp [servedLog, ih]

/-! ### One segment -/

/-- For a segment inside the disk the 32-bit offset is exact and the range check passes,
    so the body of the loop makes one copy. -/
theorem transferCur_inside (req : Request) (d : Ramdisk) (h : req.cur.Inside) :
    transferCur req d =
      ({ req with cur := req.cur.served d.ramblockBuf [] },
       { d with
          ramblockBuf := lastWritten d.ramblockBuf [req.cur]
          log := d.log ++ [.memcpy req.cur.dir req.cur.start req.cur.buffer.length] }) := by
  have hsize : req.cur.start + req.cur.buffer.length ≤ 1048576 := h
  have hoff : toU32 ((blkRqPos req <<< 9 : Nat) : Int) = req.cur.start := by
    rw [show blkRqPos req <<< 9 = req.cur.start by
      simp [blkRqPos, Segment.start, Nat.shiftLeft_eq]]
    exact toU32_of_lt (by omega)
  have hcheck : ¬ toU32 ((blkRqCurBytes req + req.cur.start : Nat) : Int) > ramblockSize := by
    rw [toU32_of_lt (by simp only [blkRqCurBytes]; omega)]
    simp only [blkRqCurBytes, ramblockSize]
    omega
  simp only [transferCur, hoff, if_neg hcheck, lastWritten_singleton]
  cases hdir : req.cur.dir <;>
    simp [rqDataDir, hdir, Segment.served, blkRqCurBytes]

/-! ### The loop -/

/-- The state after the segments have been served in order. -/
def Ramdisk.afterServing (d : Ramdisk) (segs : List Segment) : Ramdisk :=
  { queue := []
    ramblockBuf := lastWritten d.ramblockBuf segs
    log := d.log ++ servedLog d.ramblockBuf [] segs }

/-- Serving a list serves its first segment, then the rest. -/
theorem Ramdisk.afterServing_cons (d : Ramdisk) (s : Segment) (segs : List Segment)
    (queue : List Request) :
    d.afterServing (s :: segs) =
      Ramdisk.afterServing
        { queue := queue
          ramblockBuf := lastWritten d.ramblockBuf [s]
          log := d.log ++ [.memcpy s.dir s.start s.buffer.length] ++
            [.endRequest (s.served d.ramblockBuf []) 0] } segs := by
  have hbuf := lastWritten_append d.ramblockBuf [s] segs
  have hlog := servedLog_shift d.ramblockBuf [s] [] segs
  simp only [List.singleton_append, List.append_nil] at hbuf hlog
  simp [Ramdisk.afterServing, servedLog, hbuf, hlog]

/-- One turn of the loop. -/
theorem serve_some (r : Request) (d : Ramdisk) :
    serve (some r) d =
      match blkEndRequestCur (transferCur r d).1 0 (transferCur r d).2 with
      | (some r', d') => serve (some r') d'
      | (none, d') => serve (blkFetchRequest d').1 (blkFetchRequest d').2 := by
  rw [serve]
  split <;> simp_all

/-- The loop serves the request at hand and the queue behind it in order, and leaves the
    queue empty. -/
theorem serve_spec (r : Request) (d : Ramdisk)
    (h : ∀ s ∈ r.segments ++ d.queue.flatMap Request.segments, s.Inside) :
    serve (some r) d =
      d.afterServing (r.segments ++ d.queue.flatMap Request.segments) := by
  induction hn : pending (some r) d using Nat.strongRecOn generalizing r d with
  | ind n ih =>
    obtain ⟨cur, rest⟩ := r
    obtain ⟨queue, buf, log⟩ := d
    have hcur : cur.Inside := h cur (by simp [Request.segments])
    rw [serve_some, transferCur_inside ⟨cur, rest⟩ _ hcur]
    -- the next segment of the request, or the next request of the queue
    cases rest with
    | cons s ss =>
      simp only [blkEndRequestCur]
      rw [ih _ (by simp [← hn, pending]) ⟨s, ss⟩ _ ?_ rfl]
      · exact (Ramdisk.afterServing_cons ⟨queue, buf, log⟩ cur _ queue).symm
      · exact fun s' hs' => h s' (List.mem_cons_of_mem _ hs')
    | nil =>
      simp only [blkEndRequestCur]
      cases queue with
      | nil =>
        simp [blkFetchRequest, serve, Ramdisk.afterServing, Request.segments, servedLog]
      | cons r' q =>
        simp only [blkFetchRequest]
        rw [ih _ (by simp [← hn, pending]) r' _ ?_ rfl]
        · exact (Ramdisk.afterServing_cons ⟨r' :: q, buf, log⟩ cur _ q).symm
        · exact fun s' hs' => h s' (List.mem_cons_of_mem _ hs')

/-! ### Sequences of calls -/

/-- The block layer queues the requests of each call, then calls the request function. -/
def runCalls (d : Ramdisk) (calls : List (List Request)) : Ramdisk :=
  calls.foldl (fun d q => doRamblockRequest { d with queue := d.queue ++ q }) d

theorem doRamblockRequest_spec (d : Ramdisk)
    (h : ∀ s ∈ d.queue.flatMap Request.segments, s.Inside) :
    doRamblockRequest d = d.afterServing (d.queue.flatMap Request.segments) := by
  obtain ⟨queue, buf, log⟩ := d
  cases queue with
  | nil => simp [doRamblockRequest, blkFetchRequest, serve, Ramdisk.afterServing, servedLog]
  | cons r q => exact serve_spec r ⟨q, buf, log⟩ h

/-- Over any sequence of calls whose segments lie inside the disk: every call ends with
    the queue empty, each segment is copied and completed exactly once and in queue
    order, a read segment receives the bytes last written by an earlier segment or call,
    and each byte of `ramblock_buf` is the last one written to it, or the initial one. -/
theorem doRamblockRequest_refines_store (init : Nat → Byte) (calls : List (List Request))
    (h : ∀ q ∈ calls, ∀ r ∈ q, ∀ s ∈ r.segments, s.Inside) :
    runCalls ⟨[], init, []⟩ calls =
      { queue := []
        ramblockBuf := lastWritten init (calls.flatten.flatMap Request.segments)
        log := servedLog init [] (calls.flatten.flatMap Request.segments) } := by
  induction calls using List.reverseRecOn with
  | nil => simp [runCalls, servedLog]
  | append_singleton calls q ih =>
    have hcalls := ih fun q' hq' => h q' (by simp [hq'])
    have hq : ∀ s ∈ q.flatMap Request.segments, s.Inside := by
      intro s hs
      obtain ⟨r, hr, hsr⟩ := List.mem_flatMap.mp hs
      exact h q (by simp) r hr s hsr
    simp only [runCalls] at hcalls
    simp only [runCalls, List.foldl_append, List.foldl_cons, List.foldl_nil, hcalls,
      List.nil_append]
    rw [doRamblockRequest_spec _ hq]
    simp only [Ramdisk.afterServing, List.flatten_append, List.flatMap_append,
      lastWritten_append, servedLog_append, List.nil_append,
      List.flatten_cons, List.flatten_nil, List.append_nil]
    -- the segments of this call, on top of those of the calls before
    rw [← servedLog_shift, List.append_nil]

/-- A request that writes two bytes and reads three back, and a read in a later call. -/
theorem doRamblockRequest_refines_store_calls :
    (runCalls ⟨[], fun _ => 0, []⟩
      [[⟨⟨1, .write, [7, 8]⟩, [⟨1, .read, [0, 0, 0]⟩]⟩], [⟨⟨1, .read, [0]⟩, []⟩]]).log =
      [.memcpy .write 512 2, .endRequest ⟨1, .write, [7, 8]⟩ 0,
        .memcpy .read 512 3, .endRequest ⟨1, .read, [7, 8, 0]⟩ 0,
        .memcpy .read 512 1, .endRequest ⟨1, .read, [7]⟩ 0] := by
  rw [doRamblockRequest_refines_store _ _
    (by simp [Request.segments, Segment.Inside, Segment.start, ramblockSize])]
  rfl

end Ramblock
