import Mathlib.Algebra.Group.Nat.Defs
import Mathlib.Logic.Function.Basic
import CoActionOS.Errno
import CoActionOS.Lib.Leads
import CoActionOS.Lib.Run

/-!
# The I2C port

`i2c_transfer`, `_hwpl_i2c_isr` and `exec_callback` of the `lpc17xx`, and the bus.  The interrupt handler is told by the status
register what has happened on the bus, and its answer in `DAT` and the flags of the control register says what happens next.
The slave may refuse a byte that is sent to it, and the arbitration may be lost at any byte.

The port is not usable any more after a transfer of a kind that there is not, because the done flag has been cleared by then
and no interrupt follows.  A write with a pointer of two bytes sends the second one over and over, because its state is left
as it is where the one of a read is changed.  The count of bytes is cut to 16 bits.  `transfersExactly_iff` says that all else
is right.
-/

namespace CoActionOS

namespace Hwpl

open Function

/-- `STAT`, with its codes -/
inductive I2cStat
  /-- `0x00` -/
  | busError
  /-- `0x08` -/
  | start
  /-- `0x10` -/
  | restart
  /-- `0x18`: `SLA+W` sent and acknowledged -/
  | slaWAck
  /-- `0x20` -/
  | slaWNack
  /-- `0x28`: a byte sent and acknowledged -/
  | dataAck
  /-- `0x30` -/
  | dataNack
  /-- `0x38` -/
  | arbitrationLost
  /-- `0x40`: `SLA+R` sent and acknowledged -/
  | slaRAck
  /-- `0x48` -/
  | slaRNack
  /-- `0x50`: a byte received and acknowledged -/
  | receivedAck
  /-- `0x58`: a byte received and not acknowledged -/
  | receivedNack
  /-- any other -/
  | other

/-- `i2c_transfer_t` -/
inductive I2cTransfer
  | normal
  | normal16
  | readOnly
  | unknown (value : Nat)

/-- `i2c_reqattr_t` -/
structure I2cReqattr where
  transfer : I2cTransfer
  slaveAddr : Nat

/-- `WRITE_OP` and `READ_OP` -/
inductive I2cOp
  | write
  | read
  deriving DecidableEq

/-- `device_transfer_t`: `buf` is the memory from the buffer on, and `callback` what the callback returns if there is one. -/
structure I2cRequest where
  loc : BitVec 32
  nbyte : Nat
  buf : Nat → UInt8
  callback : Option Int

def i2cStateNone : BitVec 8 := 0

def i2cStateRdOp : BitVec 8 := 9

def i2cStateWrOp : BitVec 8 := 10

def i2cStateRd16Op : BitVec 8 := 11

def i2cStateWr16Op : BitVec 8 := 12

def i2cDoneFlag : BitVec 8 := 0x80

def i2cErrorStart : Nat := 1

def i2cErrorAck : Nat := 3

def i2cErrorArbitrationLost : Nat := 8

/-- `i2c_local_t`, with `DAT` and the flags of the port, the memory from the buffer on, and how often the callback was called
since the transfer began.  `data` is the offset from the buffer, `ret` the number that the pointer points to. -/
structure I2cLocal where
  data : Nat
  size : Nat
  ptr : BitVec 16
  addr : UInt8
  state : BitVec 8
  err : Nat
  ret : Int
  callback : Option Int
  dat : UInt8
  aa : Bool
  sta : Bool
  sto : Bool
  buf : Nat → UInt8
  calls : Nat

namespace I2cLocal

variable (d : I2cLocal)

/-- `ptr.ptr8[0]` -/
def ptrLow : UInt8 := ⟨d.ptr.extractLsb' 0 8⟩

/-- `ptr.ptr8[1]` -/
def ptrHigh : UInt8 := ⟨d.ptr.extractLsb' 8 8⟩

/-- `i2c_tst_done` -/
def done : Bool := d.state &&& i2cDoneFlag ≠ 0

def execCallback : I2cLocal :=
  let d := { d with state := d.state ||| i2cDoneFlag }
  let d := if d.err ≠ 0 then { d with ret := -1 } else d
  match d.callback with
  | none => d
  | some value => { d with calls := d.calls + 1, callback := if value = 0 then none else some value }

/-- Take a byte from `DAT`. -/
def receive : I2cLocal :=
  { d with size := d.size - 1, buf := update d.buf d.data d.dat, data := d.data + 1 }

/-- What `_hwpl_i2c_isr` does for a status.  To clear `SI`, which it does each time, lets the bus go on. -/
def handle : I2cStat → I2cLocal
  | .start | .restart =>
    { d with err := 0, dat := if d.state = i2cStateNone then d.addr ||| 1 else d.addr, aa := true, sta := false }
  | .slaWAck => { d with dat := d.ptrHigh, aa := true }
  | .dataAck =>
    if d.state = i2cStateRd16Op ∨ d.state = i2cStateWr16Op then
      { d with dat := d.ptrLow, aa := true, state := if d.state = i2cStateRd16Op then i2cStateRdOp else d.state }
    else if d.state = i2cStateRdOp then { d with aa := true, sta := true, state := i2cStateNone }
    else if d.size ≠ 0 then { d with dat := d.buf d.data, data := d.data + 1, aa := true, size := d.size - 1 }
    else { d with sto := true, aa := true, state := i2cStateNone ||| i2cDoneFlag }
  | .slaWNack | .dataNack | .slaRNack => { d with sto := true, size := 0, err := i2cErrorAck, state := i2cDoneFlag }
  | .arbitrationLost => { d with size := 0, sto := true, err := i2cErrorArbitrationLost, state := i2cDoneFlag }
  | .slaRAck => { d with aa := decide (d.size > 1) }
  | .receivedAck => { d.receive with aa := decide (d.receive.size > 1) }
  | .receivedNack => { d.receive with sto := true, state := i2cStateNone ||| i2cDoneFlag }
  | .busError => { d with err := i2cErrorStart, state := i2cDoneFlag, sto := true }
  | .other => d

/-- `_hwpl_i2c_isr` -/
def isr (stat : I2cStat) : I2cLocal := if (d.handle stat).done then (d.handle stat).execCallback else d.handle stat

/-- `i2c_transfer`; `none` is the result `0`.  `attr` is what `hwpl_i2c_setup` has left. -/
def i2cTransfer (attr : I2cReqattr) (op : I2cOp) (dop : I2cRequest) : I2cLocal × Option Errno :=
  if ¬ d.done then (d, some .eagain)
  else
    let d := { d with callback := dop.callback }
    if dop.nbyte = 0 then (d, none)
    else
      let d := { d with
        state := d.state &&& ~~~i2cDoneFlag, addr := UInt8.ofNat (attr.slaveAddr <<< 1), data := 0, buf := dop.buf
        ret := dop.nbyte, calls := 0 }
      let size := dop.nbyte % 2 ^ 16
      match attr.transfer, op with
      | .normal, op =>
        ({ d with
          ptr := dop.loc.setWidth 8 ++ d.ptr.setWidth 8, size := size, sta := true
          state := if op = .write then i2cStateWrOp else i2cStateRdOp }, none)
      | .normal16, op =>
        ({ d with
          ptr := dop.loc.setWidth 16, size := size, sta := true
          state := if op = .write then i2cStateWr16Op else i2cStateRd16Op }, none)
      | .readOnly, .read => ({ d with size := size, state := i2cStateNone, sta := true }, none)
      | .readOnly, .write => ({ d with size := size }, some .einval)
      | .unknown _, _ => (d, some .einval)

end I2cLocal

/-! ### The bus -/

/-- What the hardware does next if it is not told to begin or to stop. -/
inductive I2cPhase
  | idle
  /-- sends the address that is in `DAT` -/
  | address
  | transmit
  | receive
  deriving DecidableEq

inductive I2cReaction
  | ack
  | nack
  | lost
  deriving DecidableEq

/-- How the bus answers: whether a byte that is sent is acknowledged, and the byte that is received. -/
structure I2cAnswer where
  reaction : I2cReaction
  byte : UInt8

inductive I2cEvent
  | start
  /-- sent and acknowledged -/
  | sent (b : UInt8)
  | received (b : UInt8)
  | failed (r : I2cReaction)
  | stop
  deriving DecidableEq

/-- The driver and its bus, with what has happened there since the transfer began. -/
structure I2cPort where
  d : I2cLocal
  phase : I2cPhase
  trace : List I2cEvent

def I2cStat.phase : I2cStat → I2cPhase
  | .start | .restart => .address
  | .slaWAck | .dataAck => .transmit
  | .slaRAck | .receivedAck => .receive
  | _ => .idle

namespace I2cPort

variable (p : I2cPort)

/-- The next status, and what it is about.  A byte is received before it is acknowledged, and not acknowledging it can fail. -/
def report (a : I2cAnswer) : I2cStat × I2cEvent :=
  if p.d.sta then (if p.phase = .idle then .start else .restart, .start)
  else
    match p.phase, a.reaction with
    | .idle, _ => (.other, .stop)
    | .address, .ack => (if p.d.dat.toNat % 2 = 0 then .slaWAck else .slaRAck, .sent p.d.dat)
    | .address, .nack => (if p.d.dat.toNat % 2 = 0 then .slaWNack else .slaRNack, .failed .nack)
    | .transmit, .ack => (.dataAck, .sent p.d.dat)
    | .transmit, .nack => (.dataNack, .failed .nack)
    | .address, .lost | .transmit, .lost => (.arbitrationLost, .failed .lost)
    | .receive, r =>
      if p.d.aa then (.receivedAck, .received a.byte)
      else if r = .lost then (.arbitrationLost, .failed .lost)
      else (.receivedNack, .received a.byte)

/-- A byte that is received is in `DAT`. -/
def latch : I2cEvent → I2cLocal
  | .received b => { p.d with dat := b }
  | _ => p.d

/-- The handler runs, and the bus is stopped if it says so. -/
def take (stat : I2cStat) (e : I2cEvent) : I2cPort :=
  let d := (p.latch e).isr stat
  if d.sto then ⟨{ d with sto := false }, .idle, p.trace ++ [e, .stop]⟩ else ⟨d, stat.phase, p.trace ++ [e]⟩

/-- One interrupt; there is none as long as nothing goes on. -/
def interrupt (a : I2cAnswer) : I2cPort :=
  if p.phase = .idle ∧ p.d.sta = false then p else p.take (p.report a).1 (p.report a).2

def transfer (attr : I2cReqattr) (op : I2cOp) (dop : I2cRequest) : I2cPort × Option Errno :=
  (if p.d.done then ⟨(p.d.i2cTransfer attr op dop).1, p.phase, []⟩ else p, (p.d.i2cTransfer attr op dop).2)

/-- The port accepts a transfer, and nothing goes on. -/
structure Ready (p : I2cPort) : Prop where
  done : p.d.done = true
  idle : p.phase = .idle
  sta : p.d.sta = false
  sto : p.d.sto = false

end I2cPort

/-! ### The statement -/

/-- The slave has acknowledged throughout, and the arbitration was never lost. -/
def Unbroken (trace : List I2cEvent) : Prop := ∀ r, I2cEvent.failed r ∉ trace

/-- The bytes of the pointer, the most significant one first. -/
def I2cReqattr.pointer (attr : I2cReqattr) (loc : BitVec 32) : List UInt8 :=
  match attr.transfer with
  | .normal => [UInt8.ofNat loc.toNat]
  | .normal16 => [UInt8.ofNat (loc.toNat / 2 ^ 8), UInt8.ofNat loc.toNat]
  | _ => []

def I2cReqattr.addr (attr : I2cReqattr) : UInt8 := UInt8.ofNat (2 * attr.slaveAddr)

/-- The start and the pointer. -/
def I2cReqattr.opening (attr : I2cReqattr) (loc : BitVec 32) : List I2cEvent :=
  .start :: (attr.addr :: attr.pointer loc).map .sent

/-- What comes before the data. -/
def I2cReqattr.prologue (attr : I2cReqattr) (op : I2cOp) (loc : BitVec 32) : List I2cEvent :=
  match op, attr.transfer with
  | .write, _ => attr.opening loc
  | .read, .readOnly => [.start, .sent (attr.addr ||| 1)]
  | .read, _ => attr.opening loc ++ [.start, .sent (attr.addr ||| 1)]

/-- What a transfer of `n` bytes leaves. -/
structure Transferred (attr : I2cReqattr) (op : I2cOp) (dop : I2cRequest) (n : Nat) (p : I2cPort) : Prop where
  called : p.d.calls = if dop.callback.isSome then 1 else 0
  written : op = .write → Unbroken p.trace →
    p.trace = attr.prologue op dop.loc ++ (List.range n).map (fun i => .sent (dop.buf i)) ++ [.stop]
  stored : op = .read → Unbroken p.trace → ∃ bs : List UInt8, bs.length = n ∧
    p.trace = attr.prologue op dop.loc ++ bs.map .received ++ [.stop] ∧ ∀ i (hi : i < bs.length), p.d.buf i = bs[i]
  kept : ∀ i, op = .write ∨ n ≤ i → p.d.buf i = dop.buf i

/-- Whatever happens on the bus, the port gets ready again, with all bytes transferred if nothing went wrong. -/
def TransfersExactly (attr : I2cReqattr) (op : I2cOp) (dop : I2cRequest) (p : I2cPort) : Prop :=
  match p.transfer attr op dop with
  | (q, some _) => q.Ready
  | (q, none) => Leads I2cPort.interrupt I2cPort.Ready (Transferred attr op dop dop.nbyte) q

/-- There is such a kind of transfer, and it is not a write with a pointer of two bytes. -/
def I2cReqattr.Works (attr : I2cReqattr) (op : I2cOp) : Prop :=
  match attr.transfer, op with
  | .normal, _ => True
  | .normal16, op => op = .read
  | .readOnly, op => op = .read
  | .unknown _, _ => False

def I2cReqattr.Fits (attr : I2cReqattr) (op : I2cOp) (dop : I2cRequest) : Prop := attr.Works op ∧ dop.nbyte < 2 ^ 16

inductive I2cAction
  | transfer (attr : I2cReqattr) (op : I2cOp) (dop : I2cRequest)
  | interrupt (a : I2cAnswer)

def I2cPort.step (p : I2cPort) : I2cAction → Option (I2cPort × Option Empty)
  | .transfer attr op dop => some ((p.transfer attr op dop).1, none)
  | .interrupt a => some (p.interrupt a, none)

/-- All transfers that are asked for fit. -/
def I2cPort.AsksFitting (_ : I2cPort) : I2cAction → Prop
  | .transfer attr op dop => dop.nbyte ≠ 0 ∧ attr.Fits op dop
  | .interrupt _ => True

end Hwpl

end CoActionOS
