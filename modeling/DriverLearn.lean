import DriverLearn.ForStd.Access
import DriverLearn.ForStd.History
import DriverLearn.ForStd.Ledger
import DriverLearn.ForStd.List
import DriverLearn.ForStd.Loop
import DriverLearn.ForStd.Memory
import DriverLearn.ForStd.OnesComplement
import DriverLearn.ForStd.Relate
import DriverLearn.ForStd.Rmw
import DriverLearn.ForStd.Run
import DriverLearn.ForStd.Tiles
import DriverLearn.ForStd.Word
import DriverLearn.Native.At24Page
import DriverLearn.Native.At24Probe
import DriverLearn.Native.At24cxx
import DriverLearn.Native.Gpio
import DriverLearn.Native.I2cProbe
import DriverLearn.Native.I2cS3c2440
import DriverLearn.Native.I2cWaitIdle
import DriverLearn.Native.KeyInput
import DriverLearn.Native.KeyIrq
import DriverLearn.Native.KeyJiffer
import DriverLearn.Native.KeyLoad
import DriverLearn.Native.KeyPoll
import DriverLearn.Native.KeyRead
import DriverLearn.Native.KeySignal
import DriverLearn.Native.Lcd2440fb
import DriverLearn.Native.LcdLoad
import DriverLearn.Native.Ramblock
import DriverLearn.Native.RamblockLoad
import DriverLearn.Native.RwFile
import DriverLearn.Native.TouchLoad
import DriverLearn.Native.TouchScreen
import DriverLearn.Native.UsbmouseKey
import DriverLearn.Native.Vnet
import DriverLearn.Native.VnetAccess
import DriverLearn.Spec.At24Attempts
import DriverLearn.Spec.At24Chunk
import DriverLearn.Spec.At24End
import DriverLearn.Spec.At24Failed
import DriverLearn.Spec.At24Ledger
import DriverLearn.Spec.At24OnBus
import DriverLearn.Spec.At24Page
import DriverLearn.Spec.At24Retries
import DriverLearn.Spec.At24RoundTrip
import DriverLearn.Spec.At24Session
import DriverLearn.Spec.At24Sim
import DriverLearn.Spec.At24Stored
import DriverLearn.Spec.At24Table
import DriverLearn.Spec.At24Tiling
import DriverLearn.Spec.At24Writes
import DriverLearn.Spec.GpioShared
import DriverLearn.Spec.I2cAcken
import DriverLearn.Spec.I2cAgree
import DriverLearn.Spec.I2cAhead
import DriverLearn.Spec.I2cBlockRead
import DriverLearn.Spec.I2cBusTrace
import DriverLearn.Spec.I2cChip
import DriverLearn.Spec.I2cEnds
import DriverLearn.Spec.I2cHistory
import DriverLearn.Spec.I2cIsolation
import DriverLearn.Spec.I2cLastByte
import DriverLearn.Spec.I2cPointer
import DriverLearn.Spec.I2cPolled
import DriverLearn.Spec.I2cProbed
import DriverLearn.Spec.I2cQuiescent
import DriverLearn.Spec.I2cReading
import DriverLearn.Spec.I2cRefused
import DriverLearn.Spec.I2cReturn
import DriverLearn.Spec.I2cRule
import DriverLearn.Spec.I2cScript
import DriverLearn.Spec.I2cSending
import DriverLearn.Spec.I2cSlave
import DriverLearn.Spec.I2cStalled
import DriverLearn.Spec.I2cStep
import DriverLearn.Spec.I2cWaitIdle
import DriverLearn.Spec.I2cXfer
import DriverLearn.Spec.KeyDebounce
import DriverLearn.Spec.KeyInputReports
import DriverLearn.Spec.KeyLedger
import DriverLearn.Spec.KeyNotified
import DriverLearn.Spec.KeyOpenClose
import DriverLearn.Spec.KeyShown
import DriverLearn.Spec.KeyWakeup
import DriverLearn.Spec.LcdPalette
import DriverLearn.Spec.LcdPanel
import DriverLearn.Spec.LcdScan
import DriverLearn.Spec.MouseKeys
import DriverLearn.Spec.MouseOwned
import DriverLearn.Spec.MouseReports
import DriverLearn.Spec.RamblockBounds
import DriverLearn.Spec.RamblockErrors
import DriverLearn.Spec.RamblockLife
import DriverLearn.Spec.RamblockStore
import DriverLearn.Spec.RwFileCalls
import DriverLearn.Spec.RwFileSession
import DriverLearn.Spec.TouchBuffer
import DriverLearn.Spec.TouchHandler
import DriverLearn.Spec.TouchLedger
import DriverLearn.Spec.TouchPen
import DriverLearn.Spec.TouchSamples
import DriverLearn.Spec.VnetIcmp
import DriverLearn.Spec.VnetInside
import DriverLearn.Spec.VnetReply
import DriverLearn.Spec.VnetSend
