import DriverLearn.ForStd.Ledger
import DriverLearn.Native.At24cxx
import Mathlib.Logic.Function.Basic

/-!
# Probe and remove of the EEPROM driver

Model of `at24_probe` and `at24_remove` of `at24cxx_drv.c`. The kernel functions that they
call are a parameter `At24Kernel` over a state `σ` of its own. The array `at24->client` is a
function of its index, NULL where the zeroed memory has not been written; a client is its
address. Next to the state the indices used into that array are kept, and a ledger of what
was acquired and released. The warnings and what `i2c_set_clientdata` stores are left out:
`at24_remove` is given the `at24` of the probe.
-/

namespace At24

open Ledger Word

/-- `-ENOMEM` -/
def eNoMem : Int := -12

/-- `-EADDRINUSE` -/
def eAddrInUse : Int := -98

/-- `struct i2c_client *` -/
abbrev Client := Nat

/-- `dev_t` -/
abbrev DevT := Nat

/-- `IS_ERR`: a pointer in the last `MAX_ERRNO` bytes. -/
def isErr (p : BitVec 32) : Bool := BitVec.ofInt 32 (-4095) ≤ p

/-- `PTR_ERR` -/
def ptrErr (p : BitVec 32) : Int := p.toInt

/-- What a probe acquires. -/
inductive Resource where
  | memory
  | dummy (client : Client)
  | region (dev : DevT)
  | cdev
  | device (dev : DevT)
  deriving DecidableEq

/-- The functions that `at24_probe` and `at24_remove` call. `devmKzalloc` is given the
    number of entries of `client`, at most 2^24, so the size in bytes does not wrap, and
    says whether there was memory. -/
structure At24Kernel (σ : Type) where
  devmKzalloc : σ → (entries : Nat) → Bool × σ
  devmKfree : σ → σ
  i2cNewDummy : σ → (addr : Nat) → Option Client × σ
  i2cUnregisterDevice : σ → Client → σ
  allocChrdevRegion : σ → Int × DevT × σ
  unregisterChrdevRegion : σ → DevT → σ
  cdevAdd : σ → DevT → Int × σ
  cdevDel : σ → σ
  deviceCreate : σ → DevT → BitVec 32 × σ
  deviceDestroy : σ → DevT → σ

/-- The state of the kernel and what is kept next to it. -/
structure World (σ : Type) where
  s : σ
  indices : List Nat
  ledger : List (Entry Resource)

def World.init {σ : Type} (s : σ) : World σ := ⟨s, [], []⟩

/-- A use of `at24->client[i]`. -/
def World.use {σ : Type} (w : World σ) (i : Nat) : World σ :=
  { w with indices := w.indices ++ [i] }

def World.acquire {σ : Type} (w : World σ) (r : Resource) : World σ :=
  { w with ledger := w.ledger ++ [.take r] }

def World.release {σ : Type} (w : World σ) (r : Resource) : World σ :=
  { w with ledger := w.ledger ++ [.give r] }

/-- `struct at24_data` behind the probe, with `cdev.dev`. -/
structure At24Device extends At24Data where
  client : Nat → Option Client
  cdevDev : DevT

section

variable {σ : Type} (k : At24Kernel σ)

/-! ### at24_probe -/

/-- The loop that creates the dummy clients from `i` on: whether all could be created, and
    `at24->client`. -/
def newDummies (numAddresses addr : Nat) (i : Nat) (client : Nat → Option Client)
    (w : World σ) : Bool × (Nat → Option Client) × World σ :=
  if i < numAddresses then
    let (dummy, s) := k.i2cNewDummy w.s ((addr + i) % 65536)
    -- the entry is stored and tested
    let client := Function.update client i dummy
    let w := ({ w with s }.use i).use i
    match dummy with
    | none => (false, client, w)
    | some c => newDummies numAddresses addr (i + 1) client (w.acquire (.dummy c))
  else
    (true, client, w)
termination_by numAddresses - i

/-- The loop that unregisters the dummy clients from `i` on. -/
def unregisterDummies (numAddresses : Nat) (client : Nat → Option Client) (i : Nat)
    (w : World σ) : World σ :=
  if i < numAddresses then
    let w := w.use i
    match client i with
    | none => unregisterDummies numAddresses client (i + 1) w
    | some c =>
      let w := { w.use i with s := k.i2cUnregisterDevice w.s c }
      unregisterDummies numAddresses client (i + 1) (w.release (.dummy c))
  else
    w
termination_by numAddresses - i

/-- The labels `err_alloc_chrdev` and `err_clients`. -/
def errClients (numAddresses : Nat) (client : Nat → Option Client) (w : World σ) : World σ :=
  let w := unregisterDummies k numAddresses client 1 w
  { w with s := k.devmKfree w.s }.release .memory

/-- The label `err_cdev_add`. -/
def errCdevAdd (numAddresses : Nat) (client : Nat → Option Client) (dev : DevT)
    (w : World σ) : World σ :=
  let w := { w with s := k.unregisterChrdevRegion w.s dev }.release (.region dev)
  errClients k numAddresses client w

/-- The label `err_device_create`. -/
def errDeviceCreate (numAddresses : Nat) (client : Nat → Option Client) (dev : DevT)
    (w : World σ) : World σ :=
  let w := { w with s := k.cdevDel w.s }.release .cdev
  errCdevAdd k numAddresses client dev w

/-- `at24_probe` from the registration of the char device on. -/
def createCharDev (at24 : At24Data) (client : Nat → Option Client) (w : World σ) :
    Except Int At24Device × World σ :=
  let numAddresses := at24.numAddresses
  let (err, dev, s) := k.allocChrdevRegion w.s
  let w := { w with s }
  if err < 0 then
    (.error err, errClients k numAddresses client w)
  else
    let w := w.acquire (.region dev)
    let (err, s) := k.cdevAdd w.s dev
    let w := { w with s }
    if err ≠ 0 then
      (.error err, errCdevAdd k numAddresses client dev w)
    else
      let w := w.acquire .cdev
      let (devP, s) := k.deviceCreate w.s dev
      let w := { w with s }
      if isErr devP then
        (.error (ptrErr devP), errDeviceCreate k numAddresses client dev w)
      else
        (.ok { at24 with client, cdevDev := dev }, w.acquire (.device dev))

/-- `at24_probe` from the first client on. -/
def createClients (at24 : At24Data) (self : Client) (addr : Nat) (w : World σ) :
    Except Int At24Device × World σ :=
  let client := Function.update (fun _ => none) 0 (some self)
  let w := w.use 0
  match newDummies k at24.numAddresses addr 1 client w with
  | (false, client, w) => (.error eAddrInUse, errClients k at24.numAddresses client w)
  | (true, client, w) => createCharDev k at24 client w

/-- The error that `at24_probe` returns, or what it leaves behind where it returns 0. `self`
    is the client that is probed and `addr` its address. -/
def at24Probe (platformData : Option At24PlatformData) (driverData : Nat) (self : Client)
    (addr : Nat) (w : World σ) : Except Int At24Device × World σ :=
  match at24ProbeChip platformData driverData with
  | .error err => (.error err, w)
  | .ok at24 =>
    let (allocated, s) := k.devmKzalloc w.s at24.numAddresses
    let w := { w with s }
    if ¬ allocated then
      (.error eNoMem, w)
    else
      createClients k at24 self addr (w.acquire .memory)

/-! ### at24_remove -/

def at24Remove (at24 : At24Device) (w : World σ) : World σ :=
  let dev := at24.cdevDev
  let w := { w with s := k.deviceDestroy w.s dev }.release (.device dev)
  let w := { w with s := k.cdevDel w.s }.release .cdev
  let w := { w with s := k.unregisterChrdevRegion w.s dev }.release (.region dev)
  unregisterDummies k at24.numAddresses at24.client 1 w

end

end At24
