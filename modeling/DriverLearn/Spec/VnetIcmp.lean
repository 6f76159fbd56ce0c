import DriverLearn.Spec.VnetReply

/-!
# The checksum of the echo reply

The reply gets a new check for its IP header, but the checksum of the ICMP message is left as
it came, while the type in front of it goes from 8 to 0. A message that added up to all ones
is then short of 8, so what is given to `netif_rx` never verifies, and the reply is only taken
because it is marked `CHECKSUM_UNNECESSARY`.

## Key results

- `icmp_reply`: one reply
- `icmp_never_verifies`: every reply of a run
-/

namespace Vnet

open Memory Word OnesComplement

/-! ### ICMP messages -/

/-- `tot_len` of the IP header, high byte first. -/
def totLen (frame : List Byte) : Nat := (frame.getD 16 0 ++ frame.getD 17 0 : BitVec 16).toNat

/-- The ICMP message of a packet without IP options. -/
def icmpMessage (frame : List Byte) : List Byte := field frame 34 (totLen frame - 20)

/-- A message of an odd length is summed up with a 0 behind it. -/
def padded (bytes : List Byte) : List Byte :=
  if bytes.length % 2 = 0 then bytes else bytes ++ [0]

/-- The half-words of the ICMP message, with its checksum, add up to all ones. -/
def IcmpVerifies (frame : List Byte) : Prop :=
  sum (pairUp (padded (icmpMessage frame))) = BitVec.allOnes 16

/-- An echo request without IP options that is whole and verifies. -/
structure ValidRequest (frame : List Byte) : Prop where
  options : (frame.getD 14 0 &&& 0x0f).toNat = 5
  type : frame[34]? = some 8
  header : 28 ≤ totLen frame
  whole : 14 + totLen frame ≤ frame.length
  verifies : IcmpVerifies frame

/-- A request without data: the type and the checksum add up to all ones. -/
def bareRequest : Nat → Byte
  | 14 => 0x45
  | 17 => 28
  | 34 => 8
  | 36 => 0xf7
  | 37 => 0xff
  | _ => 0

example : ValidRequest (readBytes bareRequest 0 42) where
  options := by decide
  type := by decide
  header := by decide
  whole := by decide
  verifies := by unfold IcmpVerifies; decide

/-! ### One reply -/

theorem padded_cons (x y : Byte) (bytes : List Byte) :
    padded (x :: y :: bytes) = x :: y :: padded bytes := by
  simp only [padded, List.length_cons, Nat.add_assoc, Nat.add_mod_right]
  split <;> rfl

/-- The type counts in the low half of its half-word. -/
theorem total_message (type code : Byte) (bytes : List Byte) :
    total (pairUp (padded (type :: code :: bytes))) =
      total (pairUp (padded (0 :: code :: bytes))) + type.toNat := by
  have hword : (code ++ type : BitVec 16).toNat = (code ++ (0 : Byte) : BitVec 16).toNat +
      type.toNat := by
    have htype := type.isLt
    have hzero : (0 : Byte).toNat < 2 ^ 8 := (0 : Byte).isLt
    rw [BitVec.toNat_append, BitVec.toNat_append, ← Nat.shiftLeft_add_eq_or_of_lt htype,
      ← Nat.shiftLeft_add_eq_or_of_lt hzero]
    rfl
  rw [padded_cons, padded_cons, pairUp, pairUp, total_cons, total_cons, hword]
  omega

/-- With another type than it was summed up with a message does not verify. -/
theorem sum_type_ne {type : Byte} (htype : type.toNat ≠ 0) (code : Byte) (bytes : List Byte)
    (h : sum (pairUp (padded (type :: code :: bytes))) = BitVec.allOnes 16) :
    sum (pairUp (padded (0 :: code :: bytes))) ≠ BitVec.allOnes 16 := by
  intro hzero
  have hold := (sum_represents (pairUp (padded (type :: code :: bytes)))).modEq
  have hnew := (sum_represents (pairUp (padded (0 :: code :: bytes)))).modEq
  rw [h, total_message] at hold
  rw [hzero] at hnew
  -- both are congruent to all ones, and so the type to 0
  have hdiff := hnew.symm.trans hold
  have hlt := type.isLt
  unfold Nat.ModEq at hdiff
  omega

section

variable (csum : List Byte → BitVec 16) {data : Nat → Byte} {n : Nat}

theorem totLen_readBytes (h : 18 ≤ n) :
    totLen (readBytes data 0 n) = (data 16 ++ data 17 : BitVec 16).toNat := by
  rw [totLen, List.getD_eq_getElem?_getD, List.getD_eq_getElem?_getD, getElem?_frame _ (by omega),
    getElem?_frame _ (by omega)]
  rfl

theorem totLen_reply (h : 18 ≤ n) :
    totLen (readBytes (reply csum data) 0 n) = totLen (readBytes data 0 n) := by
  rw [totLen_readBytes h, totLen_readBytes h, reply_frame _ _ (by omega),
    reply_frame _ _ (by omega)]

/-- The message begins with the type, and the code and the rest come back. -/
theorem icmpMessage_eq {k : Nat} (hlen : totLen (readBytes data 0 n) = 22 + k)
    (hin : 36 + k ≤ n) :
    icmpMessage (readBytes data 0 n) = data 34 :: data 35 :: readBytes data 36 k := by
  rw [icmpMessage, hlen, show 22 + k - 20 = k + 1 + 1 by omega, field_readBytes _ (by omega),
    readBytes_succ, readBytes_succ]

theorem icmp_reply (h : ValidRequest (readBytes data 0 n)) :
    ¬ IcmpVerifies (readBytes (reply csum data) 0 n) := by
  have hheader := h.header
  have hwhole := h.whole
  rw [length_readBytes] at hwhole
  obtain ⟨k, hk⟩ := Nat.exists_eq_add_of_le (show 22 ≤ totLen (readBytes data 0 n) by omega)
  have htype : data 34 = 8 := by
    have htype := h.type
    rwa [getElem?_frame _ (by omega), Option.some.injEq] at htype
  have hrest : readBytes (reply csum data) 36 k = readBytes data 36 k :=
    readBytes_congr fun a _ _ => reply_frame csum data (by omega)
  have hverifies := h.verifies
  rw [IcmpVerifies, icmpMessage_eq hk (by omega), htype] at hverifies
  rw [IcmpVerifies, icmpMessage_eq ((totLen_reply csum (by omega)).trans hk) (by omega), reply_type,
    reply_frame _ _ (by omega), hrest]
  exact sum_type_ne (by decide) _ _ hverifies

end

/-! ### Runs -/

variable {csum : List Byte → BitVec 16}

/-- The frames among `sends` that are answered. -/
def answered (sends : List (SkBuff × BitVec 32)) : List SkBuff :=
  (sends.map Prod.fst).filter fun skb => skb.data 34 = 8

/-- What is given to `netif_rx` are the replies, in order. -/
theorem run_received (csum : List Byte → BitVec 16) (sends : List (SkBuff × BitVec 32)) :
    (run csum sends).received =
      (answered sends).map fun skb => readBytes (reply csum skb.data) 0 skb.len.toNat := by
  induction sends using List.reverseRecOn with
  | nil => rfl
  | append_singleton sends send ih =>
    have hrun : run csum (sends ++ [send]) =
        (vnetSendPacket csum send.2 send.1 (run csum sends)).2 := by
      rw [run, List.foldl_append]
      rfl
    rw [hrun, answered, List.map_append, List.filter_append, List.map_append, ← answered, ← ih]
    by_cases htype : send.1.data 34 = 8
    · rw [send_answered htype]
      simp [htype]
    · rw [send_dropped htype]
      simpa using htype

/-- In every run no reply to a valid request has a valid checksum. With IP options byte 34 is not
    the type of the message, and the reply can verify. -/
theorem icmp_never_verifies (csum : List Byte → BitVec 16) (sends : List (SkBuff × BitVec 32)) :
    List.Forall₂ (fun skb frame => ValidRequest (readBytes skb.data 0 skb.len.toNat) →
        ¬ IcmpVerifies frame)
      (answered sends) (run csum sends).received := by
  rw [run_received, List.forall₂_map_right_iff, List.forall₂_same]
  intro skb _ h
  exact icmp_reply csum h

end Vnet
