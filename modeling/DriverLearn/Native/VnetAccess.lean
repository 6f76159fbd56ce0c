import DriverLearn.ForStd.Access
import DriverLearn.Native.Vnet

/-!
# Accesses to a frame

`vnet_send_packet` and `emulator_rx_packet` once more, as programs on the bytes of
`skb->data` that keep every access in the order of the source. `ip_fast_csum` reads the
words of the header that `ihl` gives. What is not a byte of the frame is left to
`vnetSendPacket`.
-/

namespace Vnet

open Memory

/-- `emulator_rx_packet` up to `ih->check = 0`. -/
def clearAccess : Access Byte Unit := do
  -- the addresses of the Ethernet header and those of the IP header
  swap 0 ethAlen ethAlen
  let ih := sizeofEthhdr
  swap (ih + 12) (ih + 16) 4
  let type := sizeofEthhdr + sizeofIphdr
  store type [0]
  let check := ih + 10
  store check [0, 0]

/-- The frame that is copied to the new packet. -/
def emulatorRxAccess (csum : List Byte → BitVec 16) (len : Nat) : Access Byte (List Byte) := do
  clearAccess
  let ih := sizeofEthhdr
  let check := ih + 10
  let first ← loadCell ih
  let header ← load ih (4 * (first &&& 0x0f).toNat)
  let sum := csum header
  store check [sum.setWidth 8, (sum >>> 8).setWidth 8]
  load 0 len

/-- The copied frame, if there is one. -/
def vnetSendAccess (csum : List Byte → BitVec 16) (len : Nat) :
    Access Byte (Option (List Byte)) := do
  let type := sizeofEthhdr + sizeofIphdr
  -- the first read is for `printk`
  let _ ← loadCell type
  let b ← loadCell type
  if b = 0x8 then
    let rxSkb ← emulatorRxAccess csum len
    pure (some rxSkb)
  else
    pure none

end Vnet
