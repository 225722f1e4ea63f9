import CoActionOS.Lib.Proc
import Mathlib.Algebra.GroupWithZero.Nat

/-!
# The link protocol

The two sides of the link send packets of at most `LINK_PACKET_DATA_SIZE` bytes of data, between a start
byte with a size byte and a checksum.  The host ("master") waits for an acknowledgement of each packet
it writes; the device ("slave") acknowledges each packet it reads.

A read is given the place of the packet or acknowledgement where its bytes go, so that the bounds of
these structures can be stated.  What a transfer stores in its caller's buffer is returned with its
result, always from the start of the buffer and without gaps.
-/

namespace CoActionOS

namespace Link

open Proc

variable {ι ρ : Type}

/-- `LINK_PHY_ERROR` -/
def linkPhyError : Int := -3

/-- `LINK_PROT_ERROR` -/
def linkProtError : Int := -2

theorem linkProtError_neg : linkProtError < 0 := by decide

/-- `LINK_DEV_ERROR` -/
def linkDevError : Int := -1

/-- `LINK_PACKET_DATA_SIZE` -/
def linkPacketDataSize : Nat := 60

/-- `LINK_PACKET_HEADER_SIZE`: start, size and checksum -/
def linkPacketHeaderSize : Nat := 3

/-- `LINK_PACKET_START` -/
def linkPacketStart : UInt8 := 16

/-- `LINK_PACKET_ACK` -/
def linkPacketAck : UInt8 := 0x06

/-- `LINK_PACKET_NACK` -/
def linkPacketNack : UInt8 := 0x53

/-- `TIMEOUT_VALUE` of `link_protocol_slave.c` -/
def slaveTimeout : Nat := 500

/-- `TIMEOUT_VALUE` of `link_protocol_master.c` -/
def masterTimeout : Nat := 2000

/-- `link_pkt_t`; `checksum` is `data[size]`. -/
structure LinkPkt where
  start : UInt8
  size : UInt8
  data : List UInt8
  checksum : UInt8
  deriving DecidableEq, Repr

/-- What `link_protocol_insert_checksum` computes. -/
def linkChecksum (size : UInt8) (data : List UInt8) : UInt8 :=
  data.foldl (fun checksum b => checksum ^^^ b) size

def linkProtocolChecksumIsok (pkt : LinkPkt) : Bool :=
  decide (pkt.size.toNat ≤ linkPacketDataSize) && pkt.checksum == linkChecksum pkt.size pkt.data

/-- An array of `n` bytes that begins with these. -/
def sized (n : Nat) (bs : List UInt8) : List UInt8 := (bs ++ List.replicate n 0).take n

theorem length_sized (n : Nat) (bs : List UInt8) : (sized n bs).length = n := by
  unfold sized
  rw [List.length_take, List.length_append, List.length_replicate]
  omega

/-! ### Waiting for bytes -/

/-- The reading loop of the three functions below, up to the first bytes: `left` is the number of empty
reads after which the time is up. -/
def readSome (dst n : Nat) : Nat → Proc ι ρ (Except Int (List UInt8))
  | 0 => ret (.error linkProtError)
  | left + 1 =>
    read dst n fun
      | none => ret (.error linkPhyError)
      | some [] => wait 1 (readSome dst n left)
      | some bs => ret (.ok bs)

/-- The loop goes on until `need` bytes have come.  Each turn gets at least one, so `need` turns are
enough. -/
def readAll (timeout : Nat) :
    (turns dst need : Nat) → List UInt8 → Proc ι ρ (Except Int (List UInt8))
  | 0, _, _, acc => ret (.ok acc)
  | turns + 1, dst, need, acc =>
    if need = 0 then ret (.ok acc)
    else
      (readSome dst need timeout).bind fun
        | .error e => ret (.error e)
        | .ok bs => readAll timeout turns (dst + bs.length) (need - bs.length) (acc ++ bs)

/-- With the start byte that was read. -/
def linkProtocolWaitStart (timeout : Nat) : Proc ι ρ (Except Int UInt8) :=
  (readSome 0 1 timeout).bind fun
    | .error e => ret (.error e)
    | .ok bs =>
      if bs.headD 0 ≠ linkPacketStart then ret (.error linkProtError) else ret (.ok (bs.headD 0))

/-- The size byte stands at place 1 of the packet, the data and the checksum follow. -/
def linkProtocolWaitPacket (start : UInt8) (timeout : Nat) : Proc ι ρ (Except Int LinkPkt) :=
  (readSome 1 1 timeout).bind fun
    | .error e => ret (.error e)
    | .ok bs =>
      let size := bs.headD 0
      if size.toNat > linkPacketDataSize then ret (.error linkProtError)
      else
        (readAll timeout (size.toNat + 1) 2 (size.toNat + 1) []).bind fun
          | .error e => ret (.error e)
          | .ok rest => ret (.ok ⟨start, size, rest.take size.toNat, rest.getD size.toNat 0⟩)

/-! ### The device -/

/-- `link_ack_t` -/
def ackBytes (ack checksum : UInt8) : List UInt8 := [ack, checksum]

/-- What `link_protocol_slaveread` expects of a packet; the error says what to answer and how long to
wait. -/
def slaveReceive : Proc ι ρ (Except (UInt8 × Nat) LinkPkt) :=
  (linkProtocolWaitStart slaveTimeout).bind fun
    | .error _ => ret (.error (0, slaveTimeout))
    | .ok start =>
      (linkProtocolWaitPacket start slaveTimeout).bind fun
        | .error _ => ret (.error (0, slaveTimeout))
        | .ok pkt =>
          if pkt.start ≠ linkPacketStart then ret (.error (0, slaveTimeout * 5))
          else if linkProtocolChecksumIsok pkt then ret (.ok pkt)
          else ret (.error (pkt.checksum, slaveTimeout))

/-- What a transfer returns, and what it has stored in the caller's buffer. -/
structure Transfer where
  ret : Int
  stored : List UInt8
  deriving DecidableEq, Repr

/-- One turn of the loop of `link_protocol_slaveread`; `next` is the rest of the loop. -/
def slavereadTurn (callback : Option (List UInt8 → Proc ι ρ Int)) (nbyte : Int) (bytes : Nat)
    (stored : List UInt8) (next : Nat → List UInt8 → Proc ι ρ Transfer) : Proc ι ρ Transfer :=
  slaveReceive.bind fun
    | .error (checksum, ms) =>
      write (ackBytes linkPacketNack checksum) fun _ => wait ms (flush (ret ⟨-1, stored⟩))
    | .ok pkt =>
      let bytes' := bytes + pkt.size.toNat
      let loop := fun stored' =>
        if (bytes' : Int) < nbyte ∧ pkt.size.toNat = linkPacketDataSize then next bytes' stored'
        else ret ⟨bytes', stored'⟩
      match callback with
      | none =>
        write (ackBytes linkPacketAck pkt.checksum) fun _ => loop (stored ++ pkt.data)
      | some callback =>
        (callback pkt.data).bind fun taken =>
          if taken < 0 then
            write (ackBytes linkPacketNack pkt.checksum) fun _ => ret ⟨-1, stored⟩
          else
            write (ackBytes linkPacketAck pkt.checksum) fun sent =>
              if sent < 0 then ret ⟨-1, stored⟩ else loop stored

/-- The loop goes on only with `bytes` below `nbyte`, so `nbyte` turns are enough after the first. -/
def slavereadLoop (callback : Option (List UInt8 → Proc ι ρ Int)) (nbyte : Int) :
    (turns bytes : Nat) → List UInt8 → Proc ι ρ Transfer
  | 0, bytes, stored => slavereadTurn callback nbyte bytes stored fun b s => ret ⟨b, s⟩
  | turns + 1, bytes, stored =>
    slavereadTurn callback nbyte bytes stored (slavereadLoop callback nbyte turns)

def linkProtocolSlaveread (nbyte : Int) (callback : Option (List UInt8 → Proc ι ρ Int)) :
    Proc ι ρ Transfer :=
  slavereadLoop callback nbyte nbyte.toNat 0 []

/-- A packet as it is sent. -/
def packetBytes (data : List UInt8) : List UInt8 :=
  linkPacketStart :: UInt8.ofNat data.length ::
    (data ++ [linkChecksum (UInt8.ofNat data.length) data])

/-- `pkt.size`, a byte, for the rest of `nbyte` bytes of which `bytes` have been sent. -/
def packetSize (nbyte : Int) (bytes : Nat) : Nat :=
  if nbyte - bytes > linkPacketDataSize then linkPacketDataSize else ((nbyte - bytes) % 256).toNat

/-- One turn of the loop of `link_protocol_slavewrite`.  The callback is asked for the data of the packet
and may give less, or refuse, which sends an empty packet. -/
def slavewriteTurn (callback : Option (Nat → Proc ι ρ (Int × List UInt8))) (buf : List UInt8)
    (nbyte : Int) (bytes : Nat) (next : Nat → Proc ι ρ Int) : Proc ι ρ Int :=
  let size := packetSize nbyte bytes
  let send := fun data : List UInt8 =>
    write (packetBytes data) fun sent =>
      if sent ≠ data.length + linkPacketHeaderSize then ret (-1)
      else if ((bytes + data.length : Nat) : Int) < nbyte ∧ data.length = linkPacketDataSize then
        next (bytes + data.length)
      else ret (bytes + data.length : Nat)
  match callback with
  | none => send ((buf.drop bytes).take size)
  | some callback =>
    (callback size).bind fun got => if got.1 < 0 then send [] else send (sized got.1.toNat got.2)

def slavewriteLoop (callback : Option (Nat → Proc ι ρ (Int × List UInt8))) (buf : List UInt8)
    (nbyte : Int) : (turns bytes : Nat) → Proc ι ρ Int
  | 0, bytes => slavewriteTurn callback buf nbyte bytes fun b => ret b
  | turns + 1, bytes =>
    slavewriteTurn callback buf nbyte bytes (slavewriteLoop callback buf nbyte turns)

def linkProtocolSlavewrite (buf : List UInt8) (nbyte : Int)
    (callback : Option (Nat → Proc ι ρ (Int × List UInt8))) : Proc ι ρ Int :=
  slavewriteLoop callback buf nbyte nbyte.toNat 0

/-! ### The host -/

/-- A program of the host, which calls nothing but the link. -/
abbrev Host (α : Type) : Type := Proc Unit Unit α

/-- What `link_protocol_masterread` expects of a packet; the start byte has been tested. -/
def masterReceive : Proc ι ρ (Except Int LinkPkt) :=
  (linkProtocolWaitStart masterTimeout).bind fun
    | .error e => flush (ret (.error e))
    | .ok start =>
      (linkProtocolWaitPacket start masterTimeout).bind fun
        | .error e => flush (ret (.error e))
        | .ok pkt =>
          if linkProtocolChecksumIsok pkt then ret (.ok pkt) else ret (.error linkProtError)

def masterreadTurn (nbyte : Int) (bytes : Nat) (stored : List UInt8)
    (next : Nat → List UInt8 → Proc ι ρ Transfer) : Proc ι ρ Transfer :=
  masterReceive.bind fun
    | .error e => ret ⟨e, stored⟩
    | .ok pkt =>
      let bytes' := bytes + pkt.size.toNat
      if (bytes' : Int) < nbyte ∧ pkt.size.toNat = linkPacketDataSize then
        next bytes' (stored ++ pkt.data)
      else ret ⟨bytes', stored ++ pkt.data⟩

def masterreadLoop (nbyte : Int) : (turns bytes : Nat) → List UInt8 → Proc ι ρ Transfer
  | 0, bytes, stored => masterreadTurn nbyte bytes stored fun b s => ret ⟨b, s⟩
  | turns + 1, bytes, stored => masterreadTurn nbyte bytes stored (masterreadLoop nbyte turns)

def linkProtocolMasterread (nbyte : Int) : Proc ι ρ Transfer :=
  masterreadLoop nbyte nbyte.toNat 0 []

/-- `wait_ack` -/
def waitAck (checksum : UInt8) (timeout : Nat) : Proc ι ρ Int :=
  (readAll timeout 2 0 2 []).bind fun
    | .error e => ret e
    | .ok bs =>
      if bs.getD 1 0 ≠ checksum then ret linkProtError else ret ((bs.getD 0 0).toNat : Int)

def masterwriteTurn (buf : List UInt8) (nbyte : Int) (bytes : Nat) (next : Nat → Proc ι ρ Int) :
    Proc ι ρ Int :=
  let size := packetSize nbyte bytes
  let data := (buf.drop bytes).take size
  write (packetBytes data) fun sent =>
    if sent ≠ data.length + linkPacketHeaderSize then ret linkPhyError
    else
      (waitAck (linkChecksum (UInt8.ofNat data.length) data) masterTimeout).bind fun err =>
        if err < 0 then flush (ret err)
        else if ((bytes + size : Nat) : Int) < nbyte ∧ size = linkPacketDataSize then
          next (bytes + size)
        else ret (bytes + size : Nat)

def masterwriteLoop (buf : List UInt8) (nbyte : Int) : (turns bytes : Nat) → Proc ι ρ Int
  | 0, bytes => masterwriteTurn buf nbyte bytes fun b => ret b
  | turns + 1, bytes => masterwriteTurn buf nbyte bytes (masterwriteLoop buf nbyte turns)

def linkProtocolMasterwrite (buf : List UInt8) (nbyte : Int) : Proc ι ρ Int :=
  masterwriteLoop buf nbyte nbyte.toNat 0

end Link

end CoActionOS
