import CoActionOS.Link.Protocol
import Mathlib.Order.Basic
import Mathlib.Order.Lattice
import Mathlib.Tactic.SplitIfs

/-!
# The packets of a transfer

Both sides cut what they send into packets of 60 bytes, the last of which may be shorter; a transfer of
no bytes is one empty packet.
-/

namespace CoActionOS

namespace Link

/-- What is sent packet by packet. -/
def packets (data : List UInt8) : List (List UInt8) :=
  if data.length ≤ linkPacketDataSize then [data]
  else data.take linkPacketDataSize :: packets (data.drop linkPacketDataSize)
termination_by data.length
decreasing_by
  rename_i h
  rw [List.length_drop]
  unfold linkPacketDataSize at *
  omega

def checksumOf (data : List UInt8) : UInt8 := linkChecksum (UInt8.ofNat data.length) data

/-- The packet that arrives if nothing is lost. -/
def packetOf (data : List UInt8) : LinkPkt :=
  ⟨linkPacketStart, UInt8.ofNat data.length, data, checksumOf data⟩

theorem packetSize_eq {n bytes : Nat} (h : bytes ≤ n) :
    packetSize n bytes = min (n - bytes) linkPacketDataSize := by
  unfold packetSize linkPacketDataSize
  split_ifs with hlong
  · omega
  · omega

theorem packets_of_le {data : List UInt8} (h : data.length ≤ linkPacketDataSize) :
    packets data = [data] := by
  rw [packets, if_pos h]

theorem packets_of_lt {data : List UInt8} (h : linkPacketDataSize < data.length) :
    packets data = data.take linkPacketDataSize :: packets (data.drop linkPacketDataSize) := by
  rw [packets, if_neg (not_le.mpr h)]

theorem length_packetBytes (data : List UInt8) :
    (packetBytes data).length = data.length + linkPacketHeaderSize := by
  unfold packetBytes linkPacketHeaderSize
  rw [List.length_cons, List.length_cons, List.length_append, List.length_singleton]

theorem toNat_size {data : List UInt8} (h : data.length ≤ linkPacketDataSize) :
    (UInt8.ofNat data.length).toNat = data.length := by
  unfold linkPacketDataSize at h
  rw [UInt8.toNat_ofNat']
  exact Nat.mod_eq_of_lt (by omega)

theorem checksumIsok_packetOf {data : List UInt8} (h : data.length ≤ linkPacketDataSize) :
    linkProtocolChecksumIsok (packetOf data) = true := by
  unfold linkProtocolChecksumIsok packetOf checksumOf
  simp [toNat_size h, h]

end Link

end CoActionOS
