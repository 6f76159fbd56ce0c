import DriverLearn.ForStd.Ledger
import DriverLearn.Native.Ramblock

/-!
# Loading and unloading the RAM block device

Model of `ramblock_init`, `ramblock_exit` and `ramblock_getgeo` (`ram_block/ramblock.c`). What
the functions they call return is given to each load, and a ledger is kept of what was taken
from the kernel and given back. The disk takes requests from `add_disk` to `del_gendisk`.

The name of the disk, its minors and the messages are left out.
-/

namespace Ramblock

open Ledger

/-- `-ENOMEM` -/
def eNoMem : Int := -12

/-- What a load takes; `added` is the disk that takes requests. -/
inductive Resource where
  | blkdev (major : Int)
  | disk
  | queue
  | buf
  | added
  deriving DecidableEq, Repr

/-- What the functions return that `ramblock_init` calls: the major number or an error, and for
    the others whether there was memory. -/
structure Results where
  registerBlkdev : Int
  allocDisk : Bool
  blkInitQueue : Bool
  kzalloc : Bool

/-- A disk that takes requests, with its capacity in sectors. -/
structure Gendisk where
  capacity : Nat
  ramdisk : Ramdisk

/-- The module: whether it is loaded, `major`, the disk between `add_disk` and `del_gendisk`,
    and the ledger. -/
structure Module where
  loaded : Bool
  major : Int
  disk : Option Gendisk
  ledger : List (Entry Resource)

/-- The module is not loaded. -/
def Module.init : Module := ⟨false, 0, none, []⟩

/-- A resource is taken. -/
def Module.acquire (s : Module) (r : Resource) : Module :=
  { s with ledger := s.ledger ++ [.take r] }

/-- A resource is given back. -/
def Module.release (s : Module) (r : Resource) : Module :=
  { s with ledger := s.ledger ++ [.give r] }

/-! ### ramblock_init and ramblock_exit -/

/-- The label `out_disk`, with `unregister_blkdev`. -/
def outDisk (s : Module) : Module := s.release (.blkdev s.major)

/-- The label `out_queue`, with `put_disk`. -/
def outQueue (s : Module) : Module := outDisk (s.release .disk)

/-- The label `out_buf`, with `blk_cleanup_queue`. -/
def outBuf (s : Module) : Module := outQueue (s.release .queue)

/-- `ramblock_init` -/
def ramblockInit (r : Results) (s : Module) : Int × Module :=
  let s := { s with major := r.registerBlkdev }
  if s.major ≤ 0 then
    (s.major, s)
  else
    let s := s.acquire (.blkdev s.major)
    if ¬ r.allocDisk then
      (eNoMem, outDisk s)
    else
      let s := s.acquire .disk
      if ¬ r.blkInitQueue then
        (eNoMem, outQueue s)
      else
        let s := s.acquire .queue
        if ¬ r.kzalloc then
          (eNoMem, outBuf s)
        else
          let s := s.acquire .buf
          -- `add_disk`, of the capacity set before and over a buffer of zeros
          let disk := ⟨ramblockSize / 512, [], fun _ => 0, []⟩
          (0, { s.acquire .added with disk := some disk })

/-- `ramblock_exit` -/
def ramblockExit (s : Module) : Module :=
  -- `del_gendisk`
  let s := { s.release .added with disk := none }
  let s := s.release .queue
  let s := s.release .disk
  let s := s.release (.blkdev s.major)
  s.release .buf

/-- `struct hd_geometry` -/
structure HdGeometry where
  heads : Nat
  cylinders : Nat
  sectors : Nat

/-- `ramblock_getgeo` -/
def ramblockGetgeo : HdGeometry := ⟨2, 32, ramblockSize / 2 / 32 / 512⟩

/-! ### Runs -/

/-- A load, an unload or a call of the request function. -/
inductive Op where
  | load (r : Results)
  | request (reqs : List Request)
  | unload

/-- The block layer queues requests and calls the request function. -/
def Gendisk.request (reqs : List Request) (d : Gendisk) : Gendisk :=
  { d with ramdisk := doRamblockRequest { d.ramdisk with queue := d.ramdisk.queue ++ reqs } }

/-- A module is loaded if its load returns 0. -/
def step (s : Module) : Op → Module
  | .load r =>
    match ramblockInit r s with
    | (ret, s) => { s with loaded := ret = 0 }
  | .request reqs => { s with disk := s.disk.map (Gendisk.request reqs) }
  | .unload => { ramblockExit s with loaded := false }

/-- What the kernel does: it loads a module that is not loaded and unloads one that is,
    requests end within the capacity of the disk, and `register_blkdev` does not return 0. -/
def Op.Possible (s : Module) : Op → Prop
  | .load r => s.loaded = false ∧ r.registerBlkdev ≠ 0
  | .request reqs => ∃ d, s.disk = some d ∧
      ∀ req ∈ reqs, ∀ seg ∈ req.segments,
        seg.sector * 512 + seg.buffer.length ≤ d.capacity * 512
  | .unload => s.loaded = true

end Ramblock
