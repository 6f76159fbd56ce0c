import DriverLearn.Native.Vnet

/-!
# Frames sent on the virtual device

The device should answer echo requests and drop everything else. It looks at byte 34 of
the frame only, which is the ICMP type of an IPv4 packet without options, and may be
anything in another frame. Its counters should follow from the frames, but `tx_bytes` is
counted with the length of a buffer that has been freed.

## Key results

- `send_answered` / `send_dropped`: one frame
- `answers_iff`: the frames that are classified rightly
- `statistics_iff`: the exact condition for the counters, over whole runs
-/

namespace Vnet

open Memory Word

variable {csum : List Byte → BitVec 16} {lenAfterFree : BitVec 32} {skb : SkBuff} {dev : NetDev}

/-! ### One frame -/

/-- A frame whose byte 34 is 8 is answered. -/
theorem send_answered (h : skb.data 34 = 8) :
    vnetSendPacket csum lenAfterFree skb dev =
      ({ skb with data := reply csum skb.data },
        { rxPackets := dev.rxPackets + 1
          rxBytes := dev.rxBytes + skb.len
          txPackets := dev.txPackets + 1
          txBytes := dev.txBytes + lenAfterFree
          queueStopped := false
          received := dev.received ++ [readBytes (reply csum skb.data) 0 skb.len.toNat]
          freed := dev.freed ++ [skb.id] }) := by
  rw [vnetSendPacket]
  simp only [show sizeofEthhdr + sizeofIphdr = 34 from rfl, h, if_true]
  rfl

/-- Any other frame is dropped. -/
theorem send_dropped (h : skb.data 34 ≠ 8) :
    vnetSendPacket csum lenAfterFree skb dev =
      (skb, { dev with
        txPackets := dev.txPackets + 1
        txBytes := dev.txBytes + lenAfterFree
        queueStopped := false
        freed := dev.freed ++ [skb.id] }) := by
  rw [vnetSendPacket]
  simp only [show sizeofEthhdr + sizeofIphdr = 34 from rfl, if_neg h]

/-! ### Echo requests -/

/-- An IPv4 packet with protocol ICMP. -/
structure IsIcmp (data : Nat → Byte) : Prop where
  etherType : data 12 = 0x08 ∧ data 13 = 0x00
  version : data 14 >>> 4 = 4
  ihl : 5 ≤ ihl data
  protocol : data 23 = 1

/-- The ICMP type, behind the IP header with its options. -/
def icmpType (data : Nat → Byte) : Byte := data (14 + 4 * ihl data)

/-- The frame is an ICMP echo request. -/
def IsEchoRequest (data : Nat → Byte) : Prop := IsIcmp data ∧ icmpType data = 8

/-- The law for one frame: a packet is passed to `netif_rx` iff the frame is an echo
    request, and every other frame is dropped, its bytes and the rx counters unchanged. -/
def Answers (csum : List Byte → BitVec 16) (lenAfterFree : BitVec 32) (skb : SkBuff)
    (dev : NetDev) : Prop :=
  let (skb', dev') := vnetSendPacket csum lenAfterFree skb dev
  ((∃ frame, dev'.received = dev.received ++ [frame]) ↔ IsEchoRequest skb.data) ∧
    (¬ IsEchoRequest skb.data → dev'.received = dev.received ∧ skb'.data = skb.data ∧
      dev'.rxPackets = dev.rxPackets ∧ dev'.rxBytes = dev.rxBytes)

/-- An ICMP packet has no IP options, or byte 34, then one of an option, is 8 just if its
    type is; and in every other frame byte 34 is not 8. -/
def Classified (data : Nat → Byte) : Prop :=
  (IsIcmp data → ihl data = 5 ∨ (data 34 = 8 ↔ icmpType data = 8)) ∧
    (¬ IsIcmp data → data 34 ≠ 8)

/-- The test of byte 34 is right just where it agrees with the protocol. -/
theorem classified_iff (data : Nat → Byte) :
    Classified data ↔ (data 34 = 8 ↔ IsEchoRequest data) := by
  rw [Classified, IsEchoRequest]
  by_cases hicmp : IsIcmp data
  -- without options the type is at byte 34
  · have hplain : ihl data = 5 → (data 34 = 8 ↔ icmpType data = 8) := by
      intro hihl
      rw [icmpType, hihl]
    simp only [hicmp, true_and, not_true_eq_false, false_implies, and_true, true_implies]
    exact ⟨fun h => h.elim hplain id, .inr⟩
  · simp [hicmp]

/-- Every frame, whatever is in it, and behind it in memory: it is classified rightly
    exactly under that condition. -/
theorem answers_iff (csum : List Byte → BitVec 16) (lenAfterFree : BitVec 32) (skb : SkBuff)
    (dev : NetDev) : Answers csum lenAfterFree skb dev ↔ Classified skb.data := by
  rw [classified_iff, Answers]
  by_cases htype : skb.data 34 = 8
  · rw [send_answered htype]
    have hpassed : ∃ frame, dev.received ++
        [readBytes (reply csum skb.data) 0 skb.len.toNat] = dev.received ++ [frame] := ⟨_, rfl⟩
    simp only [iff_true_left hpassed, iff_true_left htype]
    exact ⟨fun h => h.1, fun h => ⟨h, fun hno => absurd h hno⟩⟩
  · rw [send_dropped htype]
    have hnot : ¬ ∃ frame, dev.received = dev.received ++ [frame] := by simp
    simp only [iff_false_left hnot, iff_false_left htype, and_self, implies_true, and_true]

/-- A UDP packet from port 2048. -/
def udpFrame : Nat → Byte
  | 12 => 0x08
  | 14 => 0x45
  | 23 => 17
  | 34 => 0x08
  | _ => 0

/-- The high byte of a port is taken for an ICMP type, and the packet comes back, though
    the frame holds all its headers. -/
theorem answers_fails_udp :
    ¬ ∀ csum lenAfterFree skb dev, sizeofEthhdr + 4 * ihl skb.data + 8 ≤ skb.len.toNat →
      Answers csum lenAfterFree skb dev := by
  intro h
  have hclassified := h (fun _ => 0) 0 ⟨0, udpFrame, 42⟩ NetDev.init (by decide)
  rw [answers_iff] at hclassified
  refine hclassified.2 (fun hicmp => ?_) rfl
  exact absurd hicmp.protocol (by decide)

/-! ### Counters -/

/-- The counters behind the frames `sends`, with `bytes` in all sent; they are those of an
    unsigned long. Every buffer was freed once, in order. -/
structure Counted (sends : List (SkBuff × BitVec 32)) (bytes : Nat) (dev : NetDev) : Prop where
  txPackets : dev.txPackets = BitVec.ofNat 32 sends.length
  txBytes : dev.txBytes = BitVec.ofNat 32 bytes
  rxPackets : dev.rxPackets = BitVec.ofNat 32 dev.received.length
  rxBytes : dev.rxBytes = BitVec.ofNat 32 (dev.received.map List.length).sum
  freed : dev.freed = sends.map fun send => send.1.id
  awake : dev.queueStopped = false

/-- The law: the bytes sent are the lengths of the frames. -/
def Statistics (sends : List (SkBuff × BitVec 32)) (dev : NetDev) : Prop :=
  Counted sends (sends.map fun send => send.1.len.toNat).sum dev

/-- Adding to a counter of 32 bits. -/
theorem ofNat_add_toNat (n : Nat) (x : BitVec 32) :
    BitVec.ofNat 32 (n + x.toNat) = BitVec.ofNat 32 n + x := by
  rw [BitVec.ofNat_add, BitVec.ofNat_toNat, BitVec.setWidth_eq]

/-- What one frame counts: `tx_bytes` grows by what the freed buffer says. -/
theorem send_counted {sends : List (SkBuff × BitVec 32)} {bytes : Nat}
    (h : Counted sends bytes dev) (csum : List Byte → BitVec 16) (send : SkBuff × BitVec 32) :
    Counted (sends ++ [send]) (bytes + send.2.toNat)
      (vnetSendPacket csum send.2 send.1 dev).2 := by
  have htx : dev.txPackets + 1 = BitVec.ofNat 32 (sends ++ [send]).length := by
    rw [h.txPackets, List.length_append, List.length_singleton, BitVec.ofNat_add]
    rfl
  have hbytes : dev.txBytes + send.2 = BitVec.ofNat 32 (bytes + send.2.toNat) := by
    rw [ofNat_add_toNat, h.txBytes]
  have hfreed : dev.freed ++ [send.1.id] = (sends ++ [send]).map fun send => send.1.id := by
    rw [List.map_append, h.freed]
    rfl
  by_cases htype : send.1.data 34 = 8
  · rw [send_answered htype]
    refine ⟨htx, hbytes, ?_, ?_, hfreed, rfl⟩
    · simp only [h.rxPackets, List.length_append, List.length_singleton, BitVec.ofNat_add]
      rfl
    · simp only [h.rxBytes, List.map_append, List.map_singleton, List.sum_append,
        List.sum_singleton, length_readBytes, ofNat_add_toNat]
  · rw [send_dropped htype]
    exact ⟨htx, hbytes, h.rxPackets, h.rxBytes, hfreed, rfl⟩

/-- One frame more. -/
theorem run_append (csum : List Byte → BitVec 16) (sends : List (SkBuff × BitVec 32))
    (send : SkBuff × BitVec 32) :
    run csum (sends ++ [send]) = (vnetSendPacket csum send.2 send.1 (run csum sends)).2 := by
  rw [run, List.foldl_append]
  rfl

/-- The counters behind a run, by induction on the frames. -/
theorem run_counted (csum : List Byte → BitVec 16) (sends : List (SkBuff × BitVec 32)) :
    Counted sends (sends.map fun send => send.2.toNat).sum (run csum sends) := by
  induction sends using List.reverseRecOn with
  | nil => exact ⟨rfl, rfl, rfl, rfl, rfl, rfl⟩
  | append_singleton sends send ih =>
    rw [run_append, List.map_append, List.sum_append]
    exact send_counted ih csum send

/-- A frame keeps the law exactly if the freed buffer still has its length. -/
theorem send_statistics {sends : List (SkBuff × BitVec 32)} (h : Statistics sends dev)
    (csum : List Byte → BitVec 16) (send : SkBuff × BitVec 32) :
    Statistics (sends ++ [send]) (vnetSendPacket csum send.2 send.1 dev).2 ↔
      send.2 = send.1.len := by
  have hcounted := send_counted h csum send
  rw [Statistics, List.map_append, List.sum_append, List.map_singleton, List.sum_singleton]
  constructor
  · intro hafter
    -- both sums are counted modulo 2^32, and differ by the last length only
    have hbytes := hafter.txBytes.symm.trans hcounted.txBytes
    rw [ofNat_add_toNat, ofNat_add_toNat] at hbytes
    exact (BitVec.add_right_inj _).mp hbytes.symm
  · intro hlen
    rw [hlen] at hcounted ⊢
    exact hcounted

/-- For every sequence of frames: the counters, the buffers and the queue are right behind
    each of them iff every freed buffer still has its length when `skb->len` is read. -/
theorem statistics_iff (csum : List Byte → BitVec 16) (sends : List (SkBuff × BitVec 32)) :
    (∀ pre post, sends = pre ++ post → Statistics pre (run csum pre)) ↔
      ∀ send ∈ sends, send.2 = send.1.len := by
  constructor
  · intro h send hsend
    obtain ⟨pre, post, heq⟩ := List.append_of_mem hsend
    -- the law on both sides of a frame says what its length was counted as
    have hbefore := h pre (send :: post) heq
    have hafter := h (pre ++ [send]) post (by rw [heq, List.append_assoc]; rfl)
    rw [run_append] at hafter
    exact (send_statistics hbefore csum send).mp hafter
  · intro hlens pre post heq
    have hsame : (pre.map fun send => send.1.len.toNat) = pre.map fun send => send.2.toNat := by
      apply List.map_congr_left
      intro send hsend
      rw [hlens send (by rw [heq]; exact List.mem_append_left _ hsend)]
    rw [Statistics, hsame]
    exact run_counted csum pre

/-- A frame of 60 bytes whose buffer is used again before its length is read. -/
theorem statistics_fails_reused :
    ¬ ∀ csum sends, (∀ send ∈ sends, 35 ≤ send.1.len.toNat) →
      Statistics sends (run csum sends) := by
  intro h
  have hstat := h (fun _ => 0) [(⟨0, udpFrame, 60⟩, 0)] (by simp)
  exact absurd hstat.txBytes (by decide)

end Vnet
