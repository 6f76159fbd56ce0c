import DriverLearn.ForStd.Memory
import DriverLearn.ForStd.Word

/-!
# Virtual network device

Model of `vnet_send_packet` and `emulator_rx_packet` of `vnet.c`. `skb->data` is the memory
from the start of the frame on. The fields of a freed `sk_buff` are unspecified, so what a
read of `skb->len` then gives is an argument. Allocations succeed. The counters are
unsigned longs of 32 bits. The metadata of the new packet and the debug output are left
out.
-/

namespace Vnet

open Memory Word

/-- `struct sk_buff`; `id` tells one buffer from another. -/
structure SkBuff where
  id : Nat
  data : Nat → Byte
  len : BitVec 32

/-- `struct net_device`: the statistics and whether the queue is stopped; and the frames
    handed to `netif_rx` and the buffers given to `dev_kfree_skb`. -/
structure NetDev where
  rxPackets : BitVec 32
  rxBytes : BitVec 32
  txPackets : BitVec 32
  txBytes : BitVec 32
  queueStopped : Bool
  received : List (List Byte)
  freed : List Nat

def NetDev.init : NetDev := ⟨0, 0, 0, 0, false, [], []⟩

/-- `ETH_ALEN` -/
def ethAlen : Nat := 6

/-- `sizeof(struct ethhdr)` -/
def sizeofEthhdr : Nat := 14

/-- `sizeof(struct iphdr)` -/
def sizeofIphdr : Nat := 20

/-- `ih->ihl`, the low half of the first byte of the IP header. -/
def ihl (data : Nat → Byte) : Nat := (data sizeofEthhdr &&& 0x0f).toNat

/-- The changes `emulator_rx_packet` makes to the frame. `csum` is `ip_fast_csum`, on the
    bytes of the header; `ih->check` is stored low byte first. -/
def reply (csum : List Byte → BitVec 16) (data : Nat → Byte) : Nat → Byte :=
  -- the source and the destination address of the Ethernet header
  let tmpDevAddr := readBytes data 0 ethAlen
  let data := writeBytes data 0 (readBytes data ethAlen ethAlen)
  let data := writeBytes data ethAlen tmpDevAddr
  -- those of the IP header
  let ih := sizeofEthhdr
  let saddr := ih + 12
  let daddr := ih + 16
  let tmp := readBytes data saddr 4
  let data := writeBytes data saddr (readBytes data daddr 4)
  let data := writeBytes data daddr tmp
  let type := sizeofEthhdr + sizeofIphdr
  let data := Function.update data type 0
  let check := ih + 10
  let data := writeBytes data check [0, 0]
  let sum := csum (readBytes data ih (4 * ihl data))
  writeBytes data check [sum.setWidth 8, (sum >>> 8).setWidth 8]

def emulatorRxPacket (csum : List Byte → BitVec 16) (skb : SkBuff) (dev : NetDev) :
    SkBuff × NetDev :=
  let skb := { skb with data := reply csum skb.data }
  let rxSkb := readBytes skb.data 0 skb.len.toNat
  let dev := { dev with
    rxPackets := dev.rxPackets + 1
    rxBytes := dev.rxBytes + skb.len }
  (skb, { dev with received := dev.received ++ [rxSkb] })

/-- The buffer as it is freed, and the device. `lenAfterFree` is what `skb->len` reads
    behind `dev_kfree_skb`. -/
def vnetSendPacket (csum : List Byte → BitVec 16) (lenAfterFree : BitVec 32) (skb : SkBuff)
    (dev : NetDev) : SkBuff × NetDev :=
  let dev := { dev with queueStopped := true }
  let type := sizeofEthhdr + sizeofIphdr
  let (skb, dev) := if skb.data type = 0x8 then emulatorRxPacket csum skb dev else (skb, dev)
  let dev := { dev with freed := dev.freed ++ [skb.id] }
  let dev := { dev with queueStopped := false }
  (skb, { dev with
    txPackets := dev.txPackets + 1
    txBytes := dev.txBytes + lenAfterFree })

/-- Frames sent one after the other, each with what is read of its length once it is
    freed. -/
def run (csum : List Byte → BitVec 16) (sends : List (SkBuff × BitVec 32)) : NetDev :=
  sends.foldl (fun dev send => (vnetSendPacket csum send.2 send.1 dev).2) NetDev.init

end Vnet
