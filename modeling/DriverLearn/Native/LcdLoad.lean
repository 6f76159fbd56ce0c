import DriverLearn.ForStd.Ledger
import DriverLearn.Native.Lcd2440fb

/-!
# Loading and unloading the frame buffer driver

Model of `mylcd_init` and `mylcd_exit` of `lcd_2440fb.c`, with the ports and the controller
they write to. What the functions they call return is given to each load, and a ledger is
kept of what was taken from the kernel and given back. `framebuffer_alloc` and `ioremap`,
whose results the driver does not look at, are taken to succeed.

Of `fb_info` only the fields are kept that say where the pixels are and what they mean.
`register_framebuffer`, whose result is not looked at either, the zeros written to the frame
buffer, the messages, and the `s3c_lcd_set_par` that is compiled out are left out.
-/

namespace Lcd2440fb

open Ledger

/-- `-EBUSY` -/
def eBusy : Int := -16

/-- `-ENXIO` -/
def eNxIo : Int := -6

/-- `-ENOMEM` -/
def eNoMem : Int := -12

/-- The registers of `struct lcd_regs` that the driver uses. -/
structure LcdRegs where
  lcdcon1 : BitVec 32
  lcdcon2 : BitVec 32
  lcdcon3 : BitVec 32
  lcdcon4 : BitVec 32
  lcdcon5 : BitVec 32
  lcdsaddr1 : BitVec 32
  lcdsaddr2 : BitVec 32
  lcdsaddr3 : BitVec 32
  tpal : BitVec 32

/-- The port registers; `gpcup` and `gpdup` are `*(gpccon+2)` and `*(gpdcon+2)`. -/
structure PortRegs where
  gpbcon : BitVec 32
  gpbdat : BitVec 32
  gpccon : BitVec 32
  gpcup : BitVec 32
  gpdcon : BitVec 32
  gpdup : BitVec 32
  gpgcon : BitVec 32

/-- The fields of `fix` and `var` of `fb_info`. -/
structure FbInfo where
  smemStart : BitVec 32
  smemLen : Nat
  lineLength : Nat
  xres : Nat
  yres : Nat
  bitsPerPixel : Nat
  var : FbVarScreeninfo

/-- What a load takes. -/
inductive Resource where
  | fbInfo
  | gpb
  | gpc
  | gpd
  | gpg
  | clk
  | clkEnabled
  | lcdMem
  | lcdRegs
  | screen (start : BitVec 32)
  deriving DecidableEq, Repr

/-- What the functions return that `mylcd_init` calls: whether the pointer is valid for
    `clk_get` and `request_mem_region`, 0 or an error for `clk_prepare_enable`, and the address
    on the bus for `dma_alloc_wc`. -/
structure Results where
  clkGet : Bool
  clkPrepareEnable : Int
  requestMemRegion : Bool
  dmaAllocWc : Option (BitVec 32)

structure Module where
  loaded : Bool
  ports : PortRegs
  regs : LcdRegs
  info : FbInfo
  ledger : List (Entry Resource)

def Module.acquire (s : Module) (r : Resource) : Module :=
  { s with ledger := s.ledger ++ [.take r] }

def Module.release (s : Module) (r : Resource) : Module :=
  { s with ledger := s.ledger ++ [.give r] }

/-! ### mylcd_init -/

/-- The `fb_info` as it is filled in front of the allocation of the frame buffer. -/
def fbInfo : FbInfo where
  smemStart := 0
  smemLen := 240 * 320 * 16 / 8
  lineLength := 240 * 2
  xres := 240
  yres := 320
  bitsPerPixel := 16
  var := mylcdVar

/-- What is written to the ports first. -/
def setPorts (p : PortRegs) : PortRegs :=
  { gpccon := 0xaaaaaaaa
    gpcup := 0xffff
    gpdcon := 0xaaaaaaaa
    gpdup := 0xffff
    gpbcon := p.gpbcon &&& ~~~0x3 ||| 1
    gpbdat := p.gpbdat &&& ~~~1
    gpgcon := p.gpgcon ||| 3#32 <<< (4 * 2) }

/-- `LCDCON1` to `LCDCON5`, with the controller off. -/
def setTiming (regs : LcdRegs) : LcdRegs :=
  { regs with
    lcdcon1 := 4#32 <<< 8 ||| 3#32 <<< 5 ||| 0xc#32 <<< 1
    lcdcon2 := 7#32 <<< 24 ||| 319#32 <<< 14 ||| 1#32 <<< 6 ||| 0#32 <<< 0
    lcdcon3 := 7#32 <<< 19 ||| 239#32 <<< 8 ||| 10#32 <<< 0
    lcdcon4 := 4#32 <<< 0
    lcdcon5 := 1#32 <<< 11 ||| 1#32 <<< 9 ||| 1#32 <<< 8 ||| 1#32 <<< 0 }

/-- The addresses of the frame buffer, and then the controller on. -/
def setAddresses (info : FbInfo) (regs : LcdRegs) : LcdRegs :=
  { regs with
    lcdsaddr1 := (info.smemStart >>> 1) &&& ~~~(3#32 <<< 30)
    lcdsaddr2 := ((info.smemStart + BitVec.ofNat 32 info.smemLen) >>> 1) &&& 0x1fffff
    lcdsaddr3 := (240 * 2 / 2) &&& 0x3ff
    tpal := 0
    lcdcon1 := regs.lcdcon1 ||| 1#32 <<< 0
    lcdcon5 := regs.lcdcon5 ||| 1#32 <<< 3 }

/-- `mylcd_init` from the clock on. No label undoes anything. -/
def initController (r : Results) (s : Module) : Int × Module :=
  if ¬ r.clkGet then
    (eBusy, s)
  else
    let s := s.acquire .clk
    let s := if r.clkPrepareEnable = 0 then s.acquire .clkEnabled else s
    if ¬ r.requestMemRegion then
      (eNxIo, s)
    else
      let s := (s.acquire .lcdMem).acquire .lcdRegs
      let s := { s with regs := setTiming s.regs }
      match r.dmaAllocWc with
      | none => (eNoMem, s)
      | some start =>
        let s := s.acquire (.screen start)
        let info := { s.info with smemStart := start }
        (0, { s with
          info := info
          regs := setAddresses info s.regs
          ports := { s.ports with gpbdat := s.ports.gpbdat ||| 1 } })

def mylcdInit (r : Results) (s : Module) : Int × Module :=
  let s := { s.acquire .fbInfo with info := fbInfo }
  let s := (((s.acquire .gpb).acquire .gpc).acquire .gpd).acquire .gpg
  initController r { s with ports := setPorts s.ports }

/-! ### mylcd_exit -/

def mylcdExit (s : Module) : Module :=
  let s := { s with ports := { s.ports with gpbdat := s.ports.gpbdat &&& ~~~1 } }
  -- `dma_free_wc`
  let s := s.release (.screen s.info.smemStart)
  let s := (s.release .lcdRegs).release .lcdMem
  let s := (((s.release .gpb).release .gpc).release .gpd).release .gpg
  -- `framebuffer_release`
  s.release .fbInfo

/-! ### Runs -/

inductive Op where
  | load (r : Results)
  | unload

/-- A module is loaded if its load returns 0. -/
def step (s : Module) : Op → Module
  | .load r =>
    match mylcdInit r s with
    | (ret, s) => { s with loaded := ret = 0 }
  | .unload => { mylcdExit s with loaded := false }

/-- The kernel loads a module that is not loaded, and unloads one that is. -/
def Op.Possible (s : Module) : Op → Prop
  | .load _ => s.loaded = false
  | .unload => s.loaded = true

/-- After a reset the controller is off. -/
def Module.reset (ports : PortRegs) : Module :=
  { loaded := false
    ports := ports
    regs := ⟨0, 0, 0, 0, 0, 0, 0, 0, 0⟩
    info := fbInfo
    ledger := [] }

end Lcd2440fb
