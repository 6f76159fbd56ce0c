import DriverLearn.ForStd.Ledger
import DriverLearn.Native.I2cS3c2440

/-!
# Probe of the I2C bus driver

Model of `s3c24xx_i2c_probe` and `s3c24xx_i2c_init` of `i2c-s3c2440.c`. What the functions
they call return is given to the probe. Next to the state of the controller a ledger is kept
of what was taken from the kernel and given back: one preparation and one enabling of the
clock, the cpufreq notifier and the adapter. Evident misspellings are read as meant
(`i2c->pctrl`, `dev_request_irq`, `clk_unrepare`).

The resources that the driver core frees, the platform data but for `cfg_gpio`, IICADD and
the fields of the adapter, which nothing reads, are left out.
-/

namespace S3c24xx

open Ledger Word

def eNoent : Int := -2
def eNomem : Int := -12

/-- The errors of `ERR_PTR`. -/
abbrev Errno := { err : Int // err < 0 }

/-- `struct s3c2410_platform_i2c` -/
structure S3c2410PlatformI2c where
  cfgGpio : Bool

/-- What a probe takes. -/
inductive Resource where
  | clkPrepared
  | clkEnabled
  | notifier
  | adapter
  deriving DecidableEq, Repr

/-- What the functions return that the probe calls. For `devm_kzalloc`, twice, `devm_clk_get`
    and the pin control this is whether the pointer is valid; `none` is a valid pointer of
    `devm_ioremap_resource`. `s3c24xx_get_device_quirks` looks the device up in a table. -/
structure Results where
  kzallocI2c : Bool
  kzallocPdata : Bool
  quirks : Reg
  clkGet : Bool
  ioremapResource : Option Errno
  pinctrl : Bool
  parseDtGpio : Int
  clkPrepareEnable : Int
  clockrate : Int
  platformGetIrq : Int
  requestIrq : Int
  registerCpufreq : Int
  addNumberedAdapter : Int

/-- The controller with its driver data, and the ledger. -/
structure World where
  i2c : S3c24xxI2c
  ledger : List (Entry Resource)

def World.acquire (w : World) (r : Resource) : World :=
  { w with ledger := w.ledger ++ [.take r] }

def World.release (w : World) (r : Resource) : World :=
  { w with ledger := w.ledger ++ [.give r] }

/-- The driver data as `devm_kzalloc` returns them. -/
def zeroed (s : S3c24xxI2c) : S3c24xxI2c :=
  { s with
    quirks := 0
    suspended := false
    msg := none
    msgNum := 0
    msgIdx := 0
    msgPtr := 0
    state := .idle }

/-- `clk_prepare_enable`, whose result the driver ignores. -/
def clkPrepareEnable (r : Results) (w : World) : World :=
  if r.clkPrepareEnable = 0 then (w.acquire .clkPrepared).acquire .clkEnabled else w

/-- `s3c24xx_i2c_init`, given what `s3c24xx_i2c_clockrate` returns. -/
def s3c24xxI2cInit (clockrate : Int) (s : S3c24xxI2c) : Int × S3c24xxI2c :=
  let s := { s with iiccon := 0, iicstat := 0 }
  if clockrate ≠ 0 then
    (eInval, s)
  else
    (0, s)

/-! ### s3c24xx_i2c_probe -/

/-- The probe from the cpufreq notifier on. -/
def probeAdapter (r : Results) (w : World) : Int × World :=
  let ret := r.registerCpufreq
  if ret < 0 then
    (ret, w.release .clkPrepared)
  else
    let w := w.acquire .notifier
    let ret := r.addNumberedAdapter
    if ret < 0 then
      (ret, (w.release .notifier).release .clkPrepared)
    else
      (0, w.acquire .adapter)

/-- The probe from the interrupt on. -/
def probeIrq (r : Results) (w : World) : Int × World :=
  if ¬ has w.i2c.quirks quirkPoll then
    let ret := r.platformGetIrq
    -- 0 is no interrupt, and is returned like an error
    if ret ≤ 0 then
      (ret, w.release .clkPrepared)
    else
      let ret := r.requestIrq
      if ret ≠ 0 then
        (ret, w.release .clkPrepared)
      else
        probeAdapter r w
  else
    probeAdapter r w

/-- The probe from the initialisation of the controller on. -/
def probeController (r : Results) (w : World) : Int × World :=
  let w := clkPrepareEnable r w
  let (ret, i2c) := s3c24xxI2cInit r.clockrate w.i2c
  let w := { w with i2c }.release .clkEnabled
  -- an error is returned with the clock still prepared
  if ret ≠ 0 then
    (ret, w)
  else
    probeIrq r w

/-- The probe from the clock on. -/
def probeClock (pdata : Option S3c2410PlatformI2c) (r : Results) (w : World) : Int × World :=
  if ¬ r.clkGet then
    (eNoent, w)
  else
    match r.ioremapResource with
    | some err => (err, w)
    | none =>
      -- the copy is zeroed memory where there are no platform data
      let cfgGpio := pdata.any (·.cfgGpio)
      if ¬ cfgGpio ∧ ¬ r.pinctrl ∧ r.parseDtGpio ≠ 0 then
        (eInval, w)
      else
        probeController r w

def s3c24xxI2cProbe (ofNode : Bool) (platdata : Option S3c2410PlatformI2c) (r : Results)
    (w : World) : Int × World :=
  let pdata := if ofNode then none else platdata
  if ¬ ofNode ∧ pdata.isNone then
    (eInval, w)
  else if ¬ r.kzallocI2c then
    (eNomem, w)
  else
    let w := { w with i2c := zeroed w.i2c }
    if ¬ r.kzallocPdata then
      (eNomem, w)
    else
      let w := { w with i2c := { w.i2c with quirks := r.quirks } }
      probeClock pdata r w

end S3c24xx
