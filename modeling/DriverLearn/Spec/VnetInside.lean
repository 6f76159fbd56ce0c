import DriverLearn.Native.VnetAccess
import DriverLearn.Spec.VnetReply

/-!
# Accesses inside the frame

Byte 34 is read of every frame, and the checksum follows the header length that the frame
claims. The accesses are inside a frame exactly if it has 35 bytes and, when it is answered,
a header that it holds.

## Key results

- `access_refines`: the accesses are those of `vnetSendPacket`
- `inside_iff`: the exact condition
-/

namespace Vnet

open Memory

variable {csum : List Byte → BitVec 16} {data : Nat → Byte}

/-- The stores that clear the frame, as one memory. -/
theorem clearAccess_cells (data : Nat → Byte) : (clearAccess.run data).cells = cleared data := by
  simp only [clearAccess, bind_cells, swap_cells, store_cells]
  rw [writeBytes_singleton, cleared, exchanged]
  rfl

/-- The type at offset 34 is the last byte that they touch. -/
theorem inside_clearAccess (n : Nat) (data : Nat → Byte) :
    Inside n clearAccess data ↔ 34 < n := by
  simp only [clearAccess, inside_bind, inside_swap, inside_store, ethAlen, sizeofEthhdr,
    sizeofIphdr, List.length_cons, List.length_nil]
  omega

/-- The changes with the accesses kept are those of `reply`. -/
theorem emulatorRxAccess_refines (csum : List Byte → BitVec 16) (len : Nat)
    (data : Nat → Byte) :
    ((emulatorRxAccess csum len).run data).cells = reply csum data ∧
      ((emulatorRxAccess csum len).run data).value = readBytes (reply csum data) 0 len := by
  simp only [emulatorRxAccess, bind_cells, bind_value, clearAccess_cells, load_cells, load_value,
    store_cells, loadCell_cells, loadCell_value]
  exact ⟨rfl, rfl⟩

/-- The accesses of `vnet_send_packet` compute what the model of it computes. -/
theorem access_refines (csum : List Byte → BitVec 16) (lenAfterFree : BitVec 32) (skb : SkBuff)
    (dev : NetDev) :
    let o := (vnetSendAccess csum skb.len.toNat).run skb.data
    let (skb', dev') := vnetSendPacket csum lenAfterFree skb dev
    o.cells = skb'.data ∧ dev'.received = dev.received ++ o.value.toList := by
  have htouch : sizeofEthhdr + sizeofIphdr = 34 := rfl
  by_cases htype : skb.data 34 = 8
  · obtain ⟨hcells, hvalue⟩ := emulatorRxAccess_refines csum skb.len.toNat skb.data
    rw [send_answered htype]
    simp only [vnetSendAccess, bind_cells, bind_value, loadCell_cells, loadCell_value, pure_cells,
      pure_value, htouch, htype, if_true, hcells, hvalue, Option.toList_some, and_self]
  · rw [send_dropped htype]
    simp only [vnetSendAccess, bind_cells, bind_value, loadCell_cells, loadCell_value, pure_cells,
      pure_value, htouch, htype, if_false, Option.toList_none, List.append_nil, and_self]

/-! ### Lengths -/

/-- The header that is summed up goes as far as its `ihl` says. -/
theorem inside_emulatorRxAccess (csum : List Byte → BitVec 16) (n : Nat) (data : Nat → Byte) :
    Inside n (emulatorRxAccess csum n) data ↔ 34 < n ∧ 14 + 4 * ihl data ≤ n := by
  have hihl := ihl_cleared data
  rw [ihl] at hihl
  simp only [emulatorRxAccess, inside_bind, inside_clearAccess, clearAccess_cells,
    inside_loadCell, loadCell_cells, loadCell_value, hihl, inside_load, inside_store,
    List.length_cons, List.length_nil]
  simp only [sizeofEthhdr]
  omega

/-- Every frame: all accesses are below its length exactly under this condition. -/
theorem inside_iff (csum : List Byte → BitVec 16) (skb : SkBuff) :
    Inside skb.len.toNat (vnetSendAccess csum skb.len.toNat) skb.data ↔
      35 ≤ skb.len.toNat ∧ (skb.data 34 = 8 → 14 + 4 * ihl skb.data ≤ skb.len.toNat) := by
  have htouch : sizeofEthhdr + sizeofIphdr = 34 := rfl
  simp only [vnetSendAccess, inside_bind, inside_loadCell, loadCell_cells, loadCell_value, htouch]
  by_cases htype : skb.data 34 = 8
  · simp only [htype, if_true, true_implies, inside_bind, inside_emulatorRxAccess, inside_pure,
      and_true]
    omega
  · simp only [htype, if_false, false_implies, inside_pure, and_true]
    omega

/-- A frame that is no more than its link header. -/
theorem inside_fails_short :
    ¬ ∀ csum (skb : SkBuff), 14 ≤ skb.len.toNat →
      Inside skb.len.toNat (vnetSendAccess csum skb.len.toNat) skb.data := by
  intro h
  have hinside := h (fun _ => 0) ⟨0, fun _ => 0, 14⟩ (by decide)
  have htype := hinside 34 (List.mem_cons_self ..)
  exact absurd htype (by decide)

end Vnet
