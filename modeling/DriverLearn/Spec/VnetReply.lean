import DriverLearn.ForStd.OnesComplement
import DriverLearn.Spec.VnetSend

/-!
# The frame that comes back

An echo request comes back with its addresses exchanged, byte 34 cleared and the check of
its IP header computed anew; no other byte changes. The new check makes the header verify,
and as exchanged words add up to the same sum it is the old one up to the two zeros of
ones' complement, unless byte 34 is one of an IP option.

## Key results

- `reply_frame` and the lemmas around it: the bytes of the reply
- `header_verifies`: the check is right, for headers of every length
- `check_modEq`: it stays what it was without options
- `frame_reflected`: the frame given to `netif_rx`
-/

namespace Vnet

open Memory Word OnesComplement

variable {csum : List Byte → BitVec 16}

/-! ### Bytes -/

/-- The frame with the addresses exchanged. -/
def exchanged (data : Nat → Byte) : Nat → Byte := exchange (exchange data 0 6 6) 26 30 4

/-- The type and the check are cleared too. -/
def cleared (data : Nat → Byte) : Nat → Byte :=
  writeBytes (Function.update (exchanged data) 34 0) 24 [0, 0]

/-- The check that the reply is given. -/
def newCheck (csum : List Byte → BitVec 16) (data : Nat → Byte) : BitVec 16 :=
  csum (readBytes (cleared data) 14 (4 * ihl (cleared data)))

/-- The reply is the frame with the checksum cleared, and the new checksum in its place. -/
theorem reply_eq (csum : List Byte → BitVec 16) (data : Nat → Byte) :
    reply csum data = writeBytes (cleared data) 24
      [(newCheck csum data).setWidth 8, (newCheck csum data >>> 8).setWidth 8] := rfl

/-- Clearing the check and the type leaves all other bytes. -/
theorem readBytes_cleared (data : Nat → Byte) {off n : Nat} (hcheck : off + n ≤ 24 ∨ 26 ≤ off)
    (htype : off + n ≤ 34 ∨ 34 < off) :
    readBytes (cleared data) off n = readBytes (exchanged data) off n := by
  rw [cleared, readBytes_writeBytes_frame _ hcheck]
  apply readBytes_congr
  intro a _ _
  exact Function.update_of_ne (by omega) _ _

/-- Writing the new check leaves all other bytes. -/
theorem readBytes_reply (csum : List Byte → BitVec 16) (data : Nat → Byte) {off n : Nat}
    (hcheck : off + n ≤ 24 ∨ 26 ≤ off) :
    readBytes (reply csum data) off n = readBytes (cleared data) off n := by
  rw [reply_eq, readBytes_writeBytes_frame _ hcheck]

/-- The reply goes to the hardware address of the sender. -/
theorem reply_dest (csum : List Byte → BitVec 16) (data : Nat → Byte) :
    readBytes (reply csum data) 0 6 = readBytes data 6 6 := by
  rw [readBytes_reply _ _ (by omega), readBytes_cleared _ (by omega) (by omega), exchanged,
    readBytes_exchange_frame _ (by omega) (by omega), readBytes_exchange_left _ (by omega)]

/-- It comes from the hardware address of the receiver. -/
theorem reply_source (csum : List Byte → BitVec 16) (data : Nat → Byte) :
    readBytes (reply csum data) 6 6 = readBytes data 0 6 := by
  rw [readBytes_reply _ _ (by omega), readBytes_cleared _ (by omega) (by omega), exchanged,
    readBytes_exchange_frame _ (by omega) (by omega), readBytes_exchange_right]

/-- While the check is computed, the source address is the destination of the request. -/
theorem cleared_saddr (data : Nat → Byte) :
    readBytes (cleared data) 26 4 = readBytes data 30 4 := by
  rw [readBytes_cleared _ (by omega) (by omega), exchanged,
    readBytes_exchange_left _ (by omega), readBytes_exchange_frame _ (by omega) (by omega)]

/-- While the check is computed, the destination address is the source of the request. -/
theorem cleared_daddr (data : Nat → Byte) :
    readBytes (cleared data) 30 4 = readBytes data 26 4 := by
  rw [readBytes_cleared _ (by omega) (by omega), exchanged, readBytes_exchange_right,
    readBytes_exchange_frame _ (by omega) (by omega)]

/-- The source address of the reply is the destination of the request. -/
theorem reply_saddr (csum : List Byte → BitVec 16) (data : Nat → Byte) :
    readBytes (reply csum data) 26 4 = readBytes data 30 4 := by
  rw [readBytes_reply _ _ (by omega), cleared_saddr]

/-- The destination address of the reply is the source of the request. -/
theorem reply_daddr (csum : List Byte → BitVec 16) (data : Nat → Byte) :
    readBytes (reply csum data) 30 4 = readBytes data 26 4 := by
  rw [readBytes_reply _ _ (by omega), cleared_daddr]

/-- The type of the reply is 0, that of an echo reply. -/
theorem reply_type (csum : List Byte → BitVec 16) (data : Nat → Byte) :
    reply csum data 34 = 0 := by
  rw [reply_eq, writeBytes_frame _ _ _ _ (by simp), cleared, writeBytes_frame _ _ _ _ (by simp),
    Function.update_self]

/-- Outside the addresses, the check and the type no byte is touched. -/
theorem cleared_frame (data : Nat → Byte) {a : Nat} (h : 12 ≤ a ∧ a < 24 ∨ 34 < a) :
    cleared data a = data a := by
  rw [cleared, writeBytes_frame _ _ _ _ (by simp; omega), Function.update_of_ne (by omega),
    exchanged, exchange_frame _ (by omega) (by omega), exchange_frame _ (by omega) (by omega)]

/-- Neither is one by the new check. -/
theorem reply_frame (csum : List Byte → BitVec 16) (data : Nat → Byte) {a : Nat}
    (h : 12 ≤ a ∧ a < 24 ∨ 34 < a) : reply csum data a = data a := by
  rw [reply_eq, writeBytes_frame _ _ _ _ (by simp; omega), cleared_frame _ h]

/-- The length of the header is not touched while the check is computed. -/
theorem ihl_cleared (data : Nat → Byte) : ihl (cleared data) = ihl data := by
  rw [ihl, cleared_frame _ (by decide), ihl]

/-- The reply has a header of the same length. -/
theorem ihl_reply (csum : List Byte → BitVec 16) (data : Nat → Byte) :
    ihl (reply csum data) = ihl data := by
  rw [ihl, reply_frame _ _ (by decide), ihl]

/-! ### The IP header -/

/-- What `ip_fast_csum` computes: the complement of the sum of the words of the header,
    folded to a half-word. -/
def FastCsum (csum : List Byte → BitVec 16) : Prop :=
  ∀ ihl header, header.length = 4 * ihl →
    csum header = ~~~ fold (sum (pairUp (pairUp header)))

/-- `ih->check` -/
def check (data : Nat → Byte) : BitVec 16 := data 25 ++ data 24

/-- The half-words of the header. -/
def header (data : Nat → Byte) : List (BitVec 16) := pairUp (readBytes data 14 (4 * ihl data))

/-- The header in front of the check, the check, and what follows. -/
theorem total_header (data : Nat → Byte) (h : 5 ≤ ihl data) :
    total (header data) = total (pairUp (readBytes data 14 10)) + (check data).toNat +
      total (pairUp (readBytes data 26 (4 * ihl data - 12))) := by
  have hlen : 4 * ihl data = 10 + (2 + (4 * ihl data - 12)) := by omega
  have hcheck : pairUp (readBytes data 24 2) = [check data] := rfl
  rw [header]
  nth_rewrite 1 [hlen]
  rw [readBytes_add, readBytes_add, pairUp_append _ _ (by simp), pairUp_append _ _ (by simp),
    hcheck, total_append, total_append, total_cons, total_nil, Nat.add_zero, ← Nat.add_assoc]

/-- A half-word in its two bytes. -/
theorem append_halves (x : BitVec 16) :
    ((x >>> 8).setWidth 8 ++ x.setWidth 8 : BitVec 16) = x := by
  apply BitVec.eq_of_toNat_eq
  have hlow : (x.setWidth 8).toNat < 2 ^ 8 := (x.setWidth 8).isLt
  rw [BitVec.toNat_append, ← Nat.shiftLeft_add_eq_or_of_lt hlow, BitVec.toNat_setWidth,
    BitVec.toNat_setWidth, BitVec.toNat_ushiftRight, Nat.shiftLeft_eq, Nat.shiftRight_eq_div_pow]
  omega

/-- The check of the reply is the one that was computed. -/
theorem check_reply (csum : List Byte → BitVec 16) (data : Nat → Byte) :
    check (reply csum data) = newCheck csum data := by
  have hlow := writeBytes_of_mem (cleared data) 24
    [(newCheck csum data).setWidth 8, (newCheck csum data >>> 8).setWidth 8] 0 (by simp)
  have hhigh := writeBytes_of_mem (cleared data) 24
    [(newCheck csum data).setWidth 8, (newCheck csum data >>> 8).setWidth 8] 1 (by simp)
  rw [← reply_eq] at hlow hhigh
  rw [check, hlow, hhigh]
  exact append_halves (newCheck csum data)

/-- The check is computed with 0 in its place. -/
theorem check_cleared (data : Nat → Byte) : (check (cleared data)).toNat = 0 := by
  have hlow := writeBytes_of_mem (Function.update (exchanged data) 34 0) 24 [0, 0] 0 (by simp)
  have hhigh := writeBytes_of_mem (Function.update (exchanged data) 34 0) 24 [0, 0] 1 (by simp)
  rw [← cleared] at hlow hhigh
  rw [check, hlow, hhigh]
  rfl

/-- The sum over the header of the reply is the one without a checksum, and the checksum. -/
theorem total_reply (csum : List Byte → BitVec 16) {data : Nat → Byte} (h : 5 ≤ ihl data) :
    total (header (reply csum data)) =
      total (header (cleared data)) + (newCheck csum data).toNat := by
  have hreply := total_header (reply csum data) (by rwa [ihl_reply])
  have hcleared := total_header (cleared data) (by rwa [ihl_cleared])
  rw [check_reply, readBytes_reply _ _ (by omega), readBytes_reply _ _ (by omega),
    ihl_reply] at hreply
  rw [check_cleared, ihl_cleared] at hcleared
  omega

/-- With the kernel's `ip_fast_csum` the new checksum is the complement of that sum. -/
theorem newCheck_eq (hcsum : FastCsum csum) (data : Nat → Byte) :
    newCheck csum data = ~~~ sum (header (cleared data)) := by
  have heven : (header (cleared data)).length % 2 = 0 := by
    rw [header, length_pairUp, length_readBytes]
    omega
  have hfold := fold_sum_pairUp (header (cleared data)) heven
  rw [newCheck, hcsum _ _ (length_readBytes _ _ _), ← header, hfold]

/-- With the check of the reply its header verifies. -/
theorem header_verifies (hcsum : FastCsum csum) {data : Nat → Byte} (h : 5 ≤ ihl data) :
    sum (header (reply csum data)) = BitVec.allOnes 16 := by
  apply sum_eq_allOnes (by decide) (sum_represents (header (cleared data)))
  rw [total_reply csum h, newCheck_eq hcsum]

/-- Addresses that change places add up to the same. -/
theorem total_cleared {data : Nat → Byte} (h : ihl data = 5) :
    total (header data) = total (header (cleared data)) + (check data).toNat := by
  have hdata := total_header data (by omega)
  have hcleared := total_header (cleared data) (by rw [ihl_cleared, h])
  have hfront : readBytes (cleared data) 14 10 = readBytes data 14 10 :=
    readBytes_congr fun a _ _ => cleared_frame data (by omega)
  have haddr : readBytes data 26 8 = readBytes data 26 4 ++ readBytes data 30 4 :=
    readBytes_add data 26 4 4
  have haddr' : readBytes (cleared data) 26 8 = readBytes data 30 4 ++ readBytes data 26 4 := by
    rw [readBytes_add _ 26 4 4, cleared_saddr, cleared_daddr]
  rw [h, haddr, pairUp_append _ _ (by simp), total_append] at hdata
  rw [ihl_cleared, h, haddr', hfront, pairUp_append _ _ (by simp), total_append,
    check_cleared] at hcleared
  omega

/-- Without options the new check is the old one of a header that verified, modulo the two
    zeros of ones' complement. -/
theorem check_modEq (hcsum : FastCsum csum) {data : Nat → Byte} (h : ihl data = 5)
    (hver : sum (header data) = BitVec.allOnes 16) :
    (check (reply csum data)).toNat ≡ (check data).toNat [MOD 65535] := by
  have hold := (sum_represents (header data)).modEq
  have hnew := (sum_represents (header (reply csum data))).modEq
  rw [hver, total_cleared h] at hold
  rw [header_verifies hcsum (by omega), total_reply csum (by omega)] at hnew
  rw [check_reply]
  exact (hnew.symm.trans hold).add_left_cancel'

/-! ### Frames -/

/-- Some bytes of a frame. -/
def field (frame : List Byte) (off len : Nat) : List Byte := (frame.drop off).take len

/-- `ih->check` of a frame. -/
def frameCheck (frame : List Byte) : BitVec 16 := frame.getD 25 0 ++ frame.getD 24 0

/-- The half-words of the IP header add up to all ones. -/
def Verifies (frame : List Byte) (ihl : Nat) : Prop :=
  sum (pairUp (field frame 14 (4 * ihl))) = BitVec.allOnes 16

/-- The frame `sent` has come back as `frame`. -/
structure Reflects (sent frame : List Byte) (ihl : Nat) : Prop where
  length : frame.length = sent.length
  dest : field frame 0 6 = field sent 6 6
  source : field frame 6 6 = field sent 0 6
  saddr : field frame 26 4 = field sent 30 4
  daddr : field frame 30 4 = field sent 26 4
  type : frame[34]? = some 0
  verifies : Verifies frame ihl
  check : ihl = 5 → Verifies sent ihl →
    (frameCheck frame).toNat ≡ (frameCheck sent).toNat [MOD 0xffff]
  rest : ∀ i, 12 ≤ i ∧ i < 24 ∨ 34 < i → frame[i]? = sent[i]?

/-- A field of the frame is read off the memory behind it, -/
theorem field_readBytes (data : Nat → Byte) {n off len : Nat} (h : off + len ≤ n) :
    field (readBytes data 0 n) off len = readBytes data off len := by
  rw [field, take_drop_readBytes data 0 h, Nat.zero_add]

/-- A byte of the frame is read off the memory behind it. -/
theorem getElem?_frame (data : Nat → Byte) {n i : Nat} (h : i < n) :
    (readBytes data 0 n)[i]? = some (data i) := by
  rw [getElem?_readBytes data 0 n i h, Nat.zero_add]

/-- The checksum of a frame in memory. -/
theorem frameCheck_readBytes (data : Nat → Byte) {n : Nat} (h : 26 ≤ n) :
    frameCheck (readBytes data 0 n) = check data := by
  rw [frameCheck, check, List.getD_eq_getElem?_getD, List.getD_eq_getElem?_getD,
    getElem?_frame data (by omega), getElem?_frame data (by omega)]
  rfl

/-- The header of a frame in memory verifies if its sum is all ones. -/
theorem verifies_readBytes (data : Nat → Byte) {n : Nat} (h : 14 + 4 * ihl data ≤ n) :
    Verifies (readBytes data 0 n) (ihl data) ↔ sum (header data) = BitVec.allOnes 16 := by
  rw [Verifies, field_readBytes data h, header]

/-- The reply to a whole frame reflects it. -/
theorem reply_reflects (hcsum : FastCsum csum) {data : Nat → Byte} {n : Nat} (hn : 35 ≤ n)
    (hihl : 5 ≤ ihl data) (hin : 14 + 4 * ihl data ≤ n) :
    Reflects (readBytes data 0 n) (readBytes (reply csum data) 0 n) (ihl data) := by
  have hverifies : Verifies (readBytes (reply csum data) 0 n) (ihl data) := by
    have h := verifies_readBytes (reply csum data) (n := n) (by rwa [ihl_reply])
    rw [ihl_reply] at h
    exact h.mpr (header_verifies hcsum hihl)
  constructor
  case length => rw [length_readBytes, length_readBytes]
  case dest =>
    rw [field_readBytes _ (by omega), field_readBytes _ (by omega), reply_dest]
  case source =>
    rw [field_readBytes _ (by omega), field_readBytes _ (by omega), reply_source]
  case saddr =>
    rw [field_readBytes _ (by omega), field_readBytes _ (by omega), reply_saddr]
  case daddr =>
    rw [field_readBytes _ (by omega), field_readBytes _ (by omega), reply_daddr]
  case type => rw [getElem?_frame _ (by omega), reply_type]
  case verifies => exact hverifies
  case check =>
    intro h hver
    rw [frameCheck_readBytes _ (by omega), frameCheck_readBytes _ (by omega)]
    exact check_modEq hcsum h ((verifies_readBytes data hin).mp hver)
  case rest =>
    intro i hi
    by_cases hlt : i < n
    · rw [getElem?_frame _ hlt, getElem?_frame _ hlt, reply_frame _ _ hi]
    · rw [List.getElem?_eq_none (by simpa using hlt), List.getElem?_eq_none (by simpa using hlt)]

/-- The addresses of a frame that is sent back twice. -/
theorem reply_reply (csum : List Byte → BitVec 16) (data : Nat → Byte) :
    readBytes (reply csum (reply csum data)) 0 12 = readBytes data 0 12 ∧
      readBytes (reply csum (reply csum data)) 26 8 = readBytes data 26 8 := by
  constructor
  · rw [readBytes_add _ 0 6 6, readBytes_add _ 0 6 6, reply_dest, reply_source, reply_source,
      reply_dest]
  · rw [readBytes_add _ 26 4 4, readBytes_add _ 26 4 4, reply_saddr, reply_daddr, reply_daddr,
      reply_saddr]

/-- Every frame that is answered comes back reflected, and would get its addresses back if
    it were sent once more. -/
theorem frame_reflected (hcsum : FastCsum csum) (lenAfterFree : BitVec 32) (skb : SkBuff)
    (dev : NetDev) (hlen : 35 ≤ skb.len.toNat) (htype : skb.data 34 = 8)
    (hihl : 5 ≤ ihl skb.data) (hin : 14 + 4 * ihl skb.data ≤ skb.len.toNat) :
    (∃ frame, (vnetSendPacket csum lenAfterFree skb dev).2.received =
        dev.received ++ [frame] ∧
      Reflects (readBytes skb.data 0 skb.len.toNat) frame (ihl skb.data)) ∧
    readBytes (reply csum (reply csum skb.data)) 0 12 = readBytes skb.data 0 12 ∧
    readBytes (reply csum (reply csum skb.data)) 26 8 = readBytes skb.data 26 8 := by
  constructor
  · rw [send_answered htype]
    exact ⟨_, rfl, reply_reflects hcsum hlen hihl hin⟩
  · exact reply_reply csum skb.data

/-- An echo request of 64 bytes with one word of options. -/
def echoFrame : Nat → Byte
  | 12 => 0x08
  | 14 => 0x46
  | 23 => 1
  | 26 => 10
  | 29 => 1
  | 30 => 10
  | 33 => 2
  | 34 => 8
  | 38 => 8
  | _ => 0

/-- The checksum as a function of the header. -/
def fastCsum (header : List Byte) : BitVec 16 := ~~~ fold (sum (pairUp (pairUp header)))

/-- The concrete checksum is one that the kernel documents. -/
theorem fastCsum_spec : FastCsum fastCsum := fun _ _ _ => rfl

/-- An echo request with an option, 64 bytes long. -/
theorem frame_reflected_echo :
    ∃ frame, (vnetSendPacket fastCsum 0 ⟨0, echoFrame, 64⟩ NetDev.init).2.received = [frame] ∧
      Reflects (readBytes echoFrame 0 64) frame 6 :=
  (frame_reflected fastCsum_spec 0 ⟨0, echoFrame, 64⟩ NetDev.init (by decide) rfl (by decide)
    (by decide)).1

end Vnet
