import CoActionOS.Errno
import CoActionOS.Lib.Ring
import CoActionOS.Lib.Run
import Mathlib.Data.List.Induction

/-!
# The software FIFO

A read takes what is in the buffer and lets a pending write go on; a write appends to the buffer and lets a pending read
go on.  A write to a full buffer waits if `write_block` is set, and else drops the oldest bytes.

`fifo_queue` says that the buffer is a bounded queue: it holds the last bytes that were written since it was flushed and
come after the last byte that was read, and what is read are the first of these.
-/

namespace CoActionOS

namespace Hwdl

/-- A `device_transfer_t`.  The loops only compare with the length, so that one below zero is like zero. -/
structure DeviceTransfer where
  id : Nat
  nbyte : Nat
  cchbuf : Nat → UInt8
  nonblock : Bool

/-- The `read_buffer` of a driver, up to `len` bytes. -/
def readBuffer (size : Nat) : Nat → Ring UInt8 → Ring UInt8 × List UInt8
  | 0, r => (r, [])
  | len + 1, r =>
    if r.head = r.tail then (r, [])
    else
      let tail := r.tail + 1
      let (r', bytes) := readBuffer size len { r with tail := if tail = size then 0 else tail }
      (r', r.cells r.tail :: bytes)

/-- `attr->used` -/
def used (size : Nat) (r : Ring UInt8) : Nat :=
  if r.head ≥ r.tail then r.head - r.tail else size - r.tail + r.head

theorem readBuffer_spec {size : Nat} (len : Nat) {r : Ring UInt8} (h : r.Bounded size) :
    (readBuffer size len r).1.Bounded size ∧ (readBuffer size len r).2 = (r.contents size).take len ∧
      (readBuffer size len r).1.contents size = (r.contents size).drop len := by
  induction len generalizing r with
  | zero => exact ⟨h, List.take_zero.symm, List.drop_zero.symm⟩
  | succ len ih =>
    unfold readBuffer
    by_cases hempty : r.head = r.tail
    · rw [if_pos hempty, (Ring.contents_eq_nil_iff h).mpr hempty]
      exact ⟨h, rfl, rfl⟩
    · rw [if_neg hempty, Ring.contents_drop h hempty]
      obtain ⟨hbounded, hbytes, hrest⟩ := ih h.drop
      exact ⟨hbounded, congrArg (r.cells r.tail :: ·) hbytes, hrest⟩

namespace Fifo

structure FifoState where
  ring : Ring UInt8
  /-- the pending read -/
  rop : Option Nat
  ropLen : Nat
  /-- the pending write -/
  wop : Option DeviceTransfer
  wopLen : Nat
  writeBlock : Bool

inductive Request
  | getattr | init | flush
  | setwriteblock (block : Bool)
  | other
  deriving DecidableEq, Repr

/-- `again` is what the callback of a pending transfer that goes on answers: it is to be called again. -/
inductive Action
  | read (rop : DeviceTransfer) (again : Bool)
  | write (wop : DeviceTransfer) (again : Bool)
  | ioctl (request : Request) (again : Bool)

inductive Event
  /-- the first bytes of some data are written to the buffer, with this `write_block` -/
  | accepted (block : Bool) (data bytes : List UInt8)
  /-- bytes are read from the buffer for a length -/
  | taken (len : Nat) (bytes : List UInt8)
  | flushed
  /-- the callback of a pending transfer -/
  | completed (id nbyte : Nat)
  /-- what `I_FIFO_GETATTR` reports, and what a read of a length that does not block would return next -/
  | attr (size used : Nat) (next : Nat → Nat)
  | returned (ret : Except Errno Nat)

/-- The bytes that a call with these events has returned. -/
def returns (es : List Event) : Nat :=
  match es.getLast? with
  | some (.returned (.ok n)) => n
  | _ => 0

variable (size : Nat)

/-- The buffer has no room for one more byte. -/
def full (r : Ring UInt8) : Bool := if r.tail = 0 then r.head == size - 1 else r.head + 1 == r.tail

/-- One byte is written; in a full buffer the oldest is dropped. -/
def writeByte (r : Ring UInt8) (c : UInt8) : Ring UInt8 :=
  let tail := if full size r then r.tail + 1 else r.tail
  let head := r.head + 1
  { head := if head = size then 0 else head
    tail := if tail = size then 0 else tail
    cells := Function.update r.cells r.head c }

def writeBuffer (block : Bool) : List UInt8 → Ring UInt8 → Ring UInt8 × List UInt8
  | [], r => (r, [])
  | c :: cs, r =>
    if full size r && block then (r, [])
    else
      let (r', bytes) := writeBuffer block cs (writeByte size r c)
      (r', c :: bytes)

namespace FifoState

variable (s : FifoState)

/-- The bytes of a write that `write_buffer` looks at. -/
def bytes (wop : DeviceTransfer) : List UInt8 := (List.range s.wopLen).map wop.cchbuf

def dataReceived (again : Bool) : FifoState × List Event :=
  match s.rop with
  | none => (s, [])
  | some id =>
    let (ring, bytes) := readBuffer size s.ropLen s.ring
    if bytes.length > 0 then
      ({ s with ring := ring, rop := if again then some id else none }, [.taken s.ropLen bytes, .completed id bytes.length])
    else ({ s with ring := ring }, [.taken s.ropLen bytes])

def dataTransmitted (again : Bool) : FifoState × List Event :=
  match s.wop with
  | none => (s, [])
  | some wop =>
    let (ring, bytes) := writeBuffer size s.writeBlock (s.bytes wop) s.ring
    if bytes.length > 0 then
      ({ s with ring := ring, wop := if again then some wop else none },
        [.accepted s.writeBlock (s.bytes wop) bytes, .completed wop.id bytes.length])
    else ({ s with ring := ring }, [.accepted s.writeBlock (s.bytes wop) bytes])

def fifoRead (rop : DeviceTransfer) (again : Bool) : FifoState × List Event :=
  if s.rop.isSome then (s, [.returned (.ok 0)])
  else
    let s := { s with ropLen := rop.nbyte }
    let (ring, bytes) := readBuffer size s.ropLen s.ring
    let s := { s with ring := ring }
    if bytes.length = 0 then
      if rop.nonblock then (s, [.taken s.ropLen bytes, .returned (.error .eagain)])
      else ({ s with rop := some rop.id, ropLen := rop.nbyte }, [.taken s.ropLen bytes, .returned (.ok 0)])
    else
      let (s', es) := s.dataTransmitted size again
      (s', .taken s.ropLen bytes :: es ++ [.returned (.ok bytes.length)])

def fifoWrite (wop : DeviceTransfer) (again : Bool) : FifoState × List Event :=
  if s.wop.isSome then (s, [.returned (.ok 0)])
  else
    let s := { s with wopLen := wop.nbyte }
    let (ring, bytes) := writeBuffer size s.writeBlock (s.bytes wop) s.ring
    let s := { s with ring := ring }
    if bytes.length = 0 then
      if wop.nonblock then (s, [.accepted s.writeBlock (s.bytes wop) bytes, .returned (.error .eagain)])
      else
        ({ s with wop := some wop, wopLen := wop.nbyte },
          [.accepted s.writeBlock (s.bytes wop) bytes, .returned (.ok 0)])
    else
      let (s', es) := s.dataReceived size again
      (s', .accepted s.writeBlock (s.bytes wop) bytes :: es ++ [.returned (.ok bytes.length)])

def fifoIoctl (request : Request) (again : Bool) : FifoState × List Event :=
  match request with
  | .getattr =>
    let next := fun n => returns (s.fifoRead size ⟨0, n, fun _ => 0, true⟩ false).2
    (s, [.attr (size - 1) (used size s.ring) next, .returned (.ok 0)])
  | .init =>
    let (s, es) :=
      { s with rop := none, wop := none, ring := { s.ring with head := 0, tail := 0 } }.dataTransmitted size again
    (s, .flushed :: es ++ [.returned (.ok 0)])
  | .flush =>
    let (s, es) := { s with ring := { s.ring with head := 0, tail := 0 } }.dataTransmitted size again
    (s, .flushed :: es ++ [.returned (.ok 0)])
  | .setwriteblock block =>
    let s := { s with writeBlock := block }
    if block then (s, [.returned (.ok 0)])
    else
      let (s, es) := s.dataTransmitted size again
      (s, es ++ [.returned (.ok 0)])
  | .other => (s, [.returned (.error .einval)])

def step : Action → Option (FifoState × Option (List Event))
  | .read rop again => let (s, es) := s.fifoRead size rop again; some (s, some es)
  | .write wop again => let (s, es) := s.fifoWrite size wop again; some (s, some es)
  | .ioctl request again => let (s, es) := s.fifoIoctl size request again; some (s, some es)

end FifoState

/-! ### The statement -/

/-- The bytes that were written since the buffer was flushed and come after the last byte that was read, when those
before the event were `u` and a buffer holds `cap` bytes. -/
def Event.unread (cap : Nat) (u : List UInt8) : Event → List UInt8
  | .accepted _ _ bytes => u ++ bytes
  | .taken _ bytes => (lastN cap u).drop bytes.length
  | .flushed => []
  | _ => u

def unread (cap : Nat) (es : List Event) : List UInt8 := es.foldl (Event.unread cap) []

/-- With `write_block` set the bytes that fit are written, and with `write_block` clear all of them; what is read are the
first of the last bytes that fit. -/
def Event.Lawful (cap : Nat) (u : List UInt8) : Event → Prop
  | .accepted true data bytes => bytes = data.take (cap - (lastN cap u).length)
  | .accepted false data bytes => bytes = data
  | .taken len bytes => bytes = (lastN cap u).take len
  | _ => True

def Event.written : Event → List UInt8
  | .accepted _ _ bytes => bytes
  | _ => []

def Event.read : Event → List UInt8
  | .taken _ bytes => bytes
  | _ => []

/-- Not a flush, and not a write with `write_block` clear. -/
def Event.Keeps : Event → Prop
  | .accepted false _ _ | .flushed => False
  | _ => True

/-- The buffer is a bounded queue: the last bytes that fit of those written since the last flush and after the last byte
that was read are stored, and are read in order; and while `write_block` is set since the start or the last flush, what
was written is what was read and what is stored. -/
structure Queue (s : FifoState) (es : List Event) : Prop where
  bounded : s.ring.Bounded size
  stored : s.ring.contents size = lastN (size - 1) (unread (size - 1) es)
  lawful : ∀ before e after, es = before ++ e :: after → e.Lawful (size - 1) (unread (size - 1) before)
  exact : ∀ before after, es = before ++ after → (before = [] ∨ ∃ l, before = l ++ [.flushed]) →
    (∀ e ∈ after, e.Keeps) → after.flatMap Event.written = after.flatMap Event.read ++ s.ring.contents size

structure FifoState.Initial (s : FifoState) : Prop where
  head : s.ring.head = 0
  tail : s.ring.tail = 0
  rop : s.rop = none
  wop : s.wop = none

/-! ### Writing -/

section

variable {size} {r : Ring UInt8}

theorem full_iff (hsize : 2 ≤ size) (h : r.Bounded size) : full size r = true ↔ ¬ r.count size + 1 < size := by
  have := h.head
  have := h.tail
  rw [Ring.room_iff h, not_not]
  unfold full Ring.next
  split_ifs <;> simp only [beq_iff_eq] <;> omega

theorem writeByte_eq_push (hsize : 2 ≤ size) (h : r.Bounded size) (c : UInt8) :
    writeByte size r c = r.push size c := by
  have htail := h.tail
  unfold writeByte Ring.push
  by_cases hfull : full size r = true
  · rw [if_pos hfull, if_neg ((full_iff hsize h).mp hfull)]
    rfl
  · have hroom : r.count size + 1 < size := by
      rw [full_iff hsize h, not_not] at hfull
      exact hfull
    rw [if_neg hfull, if_pos hroom]
    unfold Ring.put Ring.next
    simp only
    rw [if_neg (Nat.ne_of_lt htail)]

theorem contents_eq_lastN (h : r.Bounded size) : r.contents size = lastN (size - 1) (r.contents size ++ []) := by
  have hlt := Ring.count_lt h
  rw [List.append_nil, lastN_of_le]
  rw [Ring.length_contents]
  omega

/-- What is written is all of it or, with `write_block` set, what fits. -/
theorem writeBuffer_spec (hsize : 2 ≤ size) (block : Bool) (data : List UInt8) (h : r.Bounded size) :
    (writeBuffer size block data r).1.Bounded size ∧
      (writeBuffer size block data r).1.contents size =
        lastN (size - 1) (r.contents size ++ (writeBuffer size block data r).2) ∧
      (writeBuffer size block data r).2 = if block then data.take (size - 1 - r.count size) else data := by
  induction data generalizing r with
  | nil =>
    refine ⟨h, contents_eq_lastN h, ?_⟩
    rw [List.take_nil, ite_self]
    rfl
  | cons c cs ih =>
    unfold writeBuffer
    by_cases hstop : (full size r && block) = true
    · rw [if_pos hstop]
      obtain ⟨hfull, rfl⟩ := Bool.and_eq_true _ _ |>.mp hstop
      refine ⟨h, contents_eq_lastN h, ?_⟩
      have hroom := (full_iff hsize h).mp hfull
      rw [if_pos rfl, show size - 1 - r.count size = 0 by omega, List.take_zero]
    · rw [if_neg hstop, writeByte_eq_push hsize h]
      obtain ⟨hbounded, hcontents, hbytes⟩ := ih (h.push c)
      refine ⟨hbounded, ?_, ?_⟩
      · rw [hcontents, Ring.contents_push h hsize, lastN_append, List.append_assoc]
        rfl
      · simp only [hbytes]
        cases block with
        | false => rfl
        | true =>
          have hroom : r.count size + 1 < size := by
            rw [Bool.and_true, full_iff hsize h, not_not] at hstop
            exact hstop
          have hput : (r.push size c).count size = r.count size + 1 := by
            unfold Ring.push
            rw [if_pos hroom]
            exact Ring.count_put h hroom c
          rw [if_pos rfl, if_pos rfl, hput, show size - 1 - r.count size = size - 1 - (r.count size + 1) + 1 by omega,
            List.take_succ_cons]

end

/-! ### The events of a run -/

/-- The buffer after these events. -/
structure Holds (r : Ring UInt8) (es : List Event) : Prop where
  bounded : r.Bounded size
  stored : r.contents size = lastN (size - 1) (unread (size - 1) es)
  lawful : ∀ before e after, es = before ++ e :: after → e.Lawful (size - 1) (unread (size - 1) before)

theorem unread_snoc (cap : Nat) (es : List Event) (e : Event) : unread cap (es ++ [e]) = e.unread cap (unread cap es) := by
  unfold unread
  rw [List.foldl_append]
  rfl

section

variable {size} {r r' : Ring UInt8} {es : List Event}

theorem Holds.snoc (h : Holds size r es) {e : Event} (hbounded : r'.Bounded size)
    (hstored : r'.contents size = lastN (size - 1) (e.unread (size - 1) (unread (size - 1) es)))
    (hlawful : e.Lawful (size - 1) (unread (size - 1) es)) : Holds size r' (es ++ [e]) where
  bounded := hbounded
  stored := hstored.trans (by rw [unread_snoc])
  lawful := Run.forall_split_snoc h.lawful hlawful

/-- An event that is not of the buffer. -/
theorem Holds.other (h : Holds size r es) {e : Event} (hunread : ∀ u, e.unread (size - 1) u = u)
    (hlawful : ∀ u, e.Lawful (size - 1) u) : Holds size r (es ++ [e]) := by
  refine h.snoc h.bounded ?_ (hlawful _)
  rw [hunread]
  exact h.stored

theorem Holds.returned (h : Holds size r es) (ret : Except Errno Nat) : Holds size r (es ++ [.returned ret]) :=
  h.other (fun _ => rfl) fun _ => trivial

theorem Holds.completed (h : Holds size r es) (id nbyte : Nat) : Holds size r (es ++ [.completed id nbyte]) :=
  h.other (fun _ => rfl) fun _ => trivial

theorem Holds.accepted (h : Holds size r es) (hsize : 2 ≤ size) (block : Bool) (data : List UInt8) :
    Holds size (writeBuffer size block data r).1
      (es ++ [.accepted block data (writeBuffer size block data r).2]) := by
  obtain ⟨hbounded, hcontents, hbytes⟩ := writeBuffer_spec hsize block data h.bounded
  refine h.snoc hbounded ?_ ?_
  · rw [hcontents, h.stored, lastN_append]
    rfl
  · rw [← Ring.length_contents, h.stored] at hbytes
    cases block with
    | false => exact hbytes
    | true => exact hbytes

theorem Holds.taken (h : Holds size r es) (len : Nat) :
    Holds size (readBuffer size len r).1 (es ++ [.taken len (readBuffer size len r).2]) := by
  obtain ⟨hbounded, hbytes, hrest⟩ := readBuffer_spec len h.bounded
  have hlen : (r.contents size).length ≤ size - 1 := by
    have := Ring.count_lt h.bounded
    rw [Ring.length_contents]
    omega
  refine h.snoc hbounded ?_ ?_
  · change _ = lastN (size - 1) (List.drop (readBuffer size len r).2.length (lastN (size - 1) (unread (size - 1) es)))
    rw [hrest, hbytes, ← h.stored, List.length_take, ← List.drop_eq_drop_min,
      lastN_of_le (by rw [List.length_drop]; omega)]
  · change _ = (lastN (size - 1) (unread (size - 1) es)).take len
    rw [← h.stored, hbytes]

theorem Holds.flushed (h : Holds size r es) (hsize : 2 ≤ size) :
    Holds size { r with head := 0, tail := 0 } (es ++ [.flushed]) := by
  have hbounded : Ring.Bounded size { r with head := 0, tail := 0 } := ⟨by show 0 < size; omega, by show 0 < size; omega⟩
  refine h.snoc hbounded ?_ trivial
  rw [(Ring.contents_eq_nil_iff hbounded).mpr rfl]
  exact (lastN_of_le (Nat.zero_le _)).symm

end

/-! ### The calls -/

namespace FifoState

variable {size} {s : FifoState} {es : List Event}

theorem holds_dataReceived (h : Holds size s.ring es) (again : Bool) :
    Holds size (s.dataReceived size again).1.ring (es ++ (s.dataReceived size again).2) := by
  unfold dataReceived
  cases s.rop with
  | none =>
    rw [List.append_nil]
    exact h
  | some id =>
    have htaken := h.taken s.ropLen
    dsimp only
    by_cases hsome : (readBuffer size s.ropLen s.ring).2.length > 0
    · rw [if_pos hsome, List.append_cons]
      exact htaken.completed id _
    · rw [if_neg hsome]
      exact htaken

theorem holds_dataTransmitted (hsize : 2 ≤ size) (h : Holds size s.ring es) (again : Bool) :
    Holds size (s.dataTransmitted size again).1.ring (es ++ (s.dataTransmitted size again).2) := by
  unfold dataTransmitted
  cases s.wop with
  | none =>
    rw [List.append_nil]
    exact h
  | some wop =>
    have haccepted := h.accepted hsize s.writeBlock (s.bytes wop)
    dsimp only
    by_cases hsome : (writeBuffer size s.writeBlock (s.bytes wop) s.ring).2.length > 0
    · rw [if_pos hsome, List.append_cons]
      exact haccepted.completed wop.id _
    · rw [if_neg hsome]
      exact haccepted

theorem holds_fifoRead (hsize : 2 ≤ size) (h : Holds size s.ring es) (rop : DeviceTransfer) (again : Bool) :
    Holds size (s.fifoRead size rop again).1.ring (es ++ (s.fifoRead size rop again).2) := by
  unfold fifoRead
  by_cases hpending : s.rop.isSome = true
  · rw [if_pos hpending]
    exact h.returned _
  · have htaken := h.taken rop.nbyte
    rw [if_neg hpending]
    dsimp only
    by_cases hnone : (readBuffer size rop.nbyte s.ring).2.length = 0
    · rw [if_pos hnone]
      by_cases hnonblock : rop.nonblock = true
      · rw [if_pos hnonblock, List.append_cons]
        exact htaken.returned _
      · rw [if_neg hnonblock, List.append_cons]
        exact htaken.returned _
    · rw [if_neg hnone]
      have hrest : Holds size { s with ropLen := rop.nbyte, ring := (readBuffer size rop.nbyte s.ring).1 }.ring
          (es ++ [.taken rop.nbyte (readBuffer size rop.nbyte s.ring).2]) := htaken
      have hreturned := (holds_dataTransmitted hsize hrest again).returned (.ok (readBuffer size rop.nbyte s.ring).2.length)
      rw [List.append_assoc, List.append_assoc] at hreturned
      exact hreturned

theorem holds_fifoWrite (hsize : 2 ≤ size) (h : Holds size s.ring es) (wop : DeviceTransfer) (again : Bool) :
    Holds size (s.fifoWrite size wop again).1.ring (es ++ (s.fifoWrite size wop again).2) := by
  unfold fifoWrite
  by_cases hpending : s.wop.isSome = true
  · rw [if_pos hpending]
    exact h.returned _
  · have haccepted := h.accepted hsize s.writeBlock ({ s with wopLen := wop.nbyte }.bytes wop)
    rw [if_neg hpending]
    dsimp only
    set w := writeBuffer size s.writeBlock ({ s with wopLen := wop.nbyte }.bytes wop) s.ring
    by_cases hnone : w.2.length = 0
    · rw [if_pos hnone]
      by_cases hnonblock : wop.nonblock = true
      · rw [if_pos hnonblock, List.append_cons]
        exact haccepted.returned _
      · rw [if_neg hnonblock, List.append_cons]
        exact haccepted.returned _
    · rw [if_neg hnone]
      have hrest : Holds size { s with wopLen := wop.nbyte, ring := w.1 }.ring
          (es ++ [.accepted s.writeBlock _ w.2]) := haccepted
      have hreturned := (holds_dataReceived hrest again).returned (.ok w.2.length)
      rw [List.append_assoc, List.append_assoc] at hreturned
      exact hreturned

theorem holds_fifoIoctl (hsize : 2 ≤ size) (h : Holds size s.ring es) (request : Request) (again : Bool) :
    Holds size (s.fifoIoctl size request again).1.ring (es ++ (s.fifoIoctl size request again).2) := by
  cases request with
  | getattr =>
    rw [fifoIoctl, List.append_cons]
    exact (h.other (e := .attr _ _ _) (fun _ => rfl) fun _ => trivial).returned _
  | init =>
    rw [fifoIoctl]
    have hflushed : Holds size { s with rop := none, wop := none, ring := { s.ring with head := 0, tail := 0 } }.ring
        (es ++ [.flushed]) := h.flushed hsize
    have hreturned := (holds_dataTransmitted hsize hflushed again).returned (.ok 0)
    rw [List.append_assoc, List.append_assoc] at hreturned
    exact hreturned
  | flush =>
    rw [fifoIoctl]
    have hflushed : Holds size { s with ring := { s.ring with head := 0, tail := 0 } }.ring (es ++ [.flushed]) :=
      h.flushed hsize
    have hreturned := (holds_dataTransmitted hsize hflushed again).returned (.ok 0)
    rw [List.append_assoc, List.append_assoc] at hreturned
    exact hreturned
  | setwriteblock block =>
    rw [fifoIoctl]
    dsimp only
    by_cases hblock : block = true
    · rw [if_pos hblock]
      exact h.returned _
    · have hset : Holds size { s with writeBlock := block }.ring es := h
      rw [if_neg hblock, ← List.append_assoc]
      exact (holds_dataTransmitted hsize hset again).returned _
  | other => exact h.returned _

theorem holds_step (hsize : 2 ≤ size) (h : Holds size s.ring es) {a : Action} {s' : FifoState} {e : Option (List Event)}
    (hs : s.step size a = some (s', e)) : Holds size s'.ring (es ++ e.toList.flatten) := by
  cases a with
  | read rop again =>
    cases hs
    rw [Option.toList_some, List.flatten_singleton]
    exact holds_fifoRead hsize h rop again
  | write wop again =>
    cases hs
    rw [Option.toList_some, List.flatten_singleton]
    exact holds_fifoWrite hsize h wop again
  | ioctl request again =>
    cases hs
    rw [Option.toList_some, List.flatten_singleton]
    exact holds_fifoIoctl hsize h request again

end FifoState

/-! ### Runs -/

/-- While bytes are only written where they fit, an event loses none. -/
theorem Event.balance {cap : Nat} {u : List UInt8} {e : Event} (hlen : u.length ≤ cap) (hlawful : e.Lawful cap u)
    (hkeeps : e.Keeps) : (e.unread cap u).length ≤ cap ∧ u ++ e.written = e.read ++ e.unread cap u := by
  cases e with
  | accepted block data bytes =>
    cases block with
    | false => exact hkeeps.elim
    | true =>
      have hbytes : bytes = data.take (cap - (lastN cap u).length) := hlawful
      have hroom : bytes.length ≤ cap - u.length := by
        rw [hbytes, lastN_of_le hlen, List.length_take]
        exact Nat.min_le_left _ _
      refine ⟨?_, rfl⟩
      change (u ++ bytes).length ≤ cap
      rw [List.length_append]
      omega
  | taken len bytes =>
    have hprefix : bytes <+: lastN cap u := hlawful ▸ List.take_prefix len _
    have hdrop : (Event.taken len bytes).unread cap u = u.drop bytes.length := by
      unfold Event.unread
      rw [lastN_of_le hlen]
    rw [lastN_of_le hlen] at hprefix
    rw [hdrop, List.length_drop]
    refine ⟨Nat.le_trans (Nat.sub_le _ _) hlen, ?_⟩
    change u ++ [] = bytes ++ u.drop bytes.length
    conv_rhs => rw [List.prefix_iff_eq_take.mp hprefix, List.length_take, Nat.min_eq_left hprefix.length_le]
    rw [List.append_nil, List.take_append_drop]
  | flushed => exact hkeeps.elim
  | completed _ _ | attr _ _ _ | returned _ => exact ⟨hlen, List.append_nil u⟩

theorem written_eq {cap : Nat} {before : List Event} (hbefore : unread cap before = []) (after : List Event) :
    (∀ l e r, after = l ++ e :: r → e.Lawful cap (unread cap (before ++ l))) → (∀ e ∈ after, e.Keeps) →
      (unread cap (before ++ after)).length ≤ cap ∧
        after.flatMap Event.written = after.flatMap Event.read ++ unread cap (before ++ after) := by
  induction after using List.reverseRecOn with
  | nil =>
    intro _ _
    rw [List.append_nil, hbefore]
    exact ⟨Nat.zero_le _, rfl⟩
  | append_singleton after e ih =>
    intro hlawful hkeeps
    obtain ⟨hlen, hwritten⟩ := ih (fun l e' r heq => hlawful l e' (r ++ [e]) (by rw [heq]; simp))
      fun e' he' => hkeeps e' (List.mem_append_left _ he')
    obtain ⟨hlen', hbalance⟩ := Event.balance hlen (hlawful after e [] rfl)
      (hkeeps e (List.mem_append_right _ (List.mem_singleton_self e)))
    rw [← List.append_assoc, unread_snoc, List.flatMap_append, List.flatMap_append, List.flatMap_singleton,
      List.flatMap_singleton]
    refine ⟨hlen', ?_⟩
    rw [hwritten, List.append_assoc, hbalance, List.append_assoc]

theorem Holds.queue {s : FifoState} {es : List Event} {size : Nat} (h : Holds size s.ring es) : Queue size s es where
  bounded := h.bounded
  stored := h.stored
  lawful := h.lawful
  exact before after heq hstart hkeeps := by
    have hbefore : unread (size - 1) before = [] := by
      rcases hstart with rfl | ⟨l, rfl⟩
      · rfl
      · exact unread_snoc _ _ _
    have hlawful : ∀ l e r, after = l ++ e :: r → e.Lawful (size - 1) (unread (size - 1) (before ++ l)) := by
      intro l e r hafter
      exact h.lawful (before ++ l) e r (by rw [heq, hafter, List.append_assoc])
    obtain ⟨hlen, hwritten⟩ := written_eq hbefore after hlawful hkeeps
    rw [h.stored, heq, lastN_of_le hlen]
    exact hwritten

theorem Holds.run (hsize : 2 ≤ size) {s₀ s : FifoState} {es : List (List Event)} (h₀ : s₀.Initial)
    (hrun : Run (FifoState.step size) (fun _ _ => True) s₀ es s) : Holds size s.ring es.flatten := by
  refine hrun.invariant (fun es s => Holds size s.ring es.flatten) ?_ ?_
  · have hbounded : s₀.ring.Bounded size := ⟨by rw [h₀.head]; omega, by rw [h₀.tail]; omega⟩
    refine ⟨hbounded, ?_, fun before e after heq => absurd heq.symm (by simp)⟩
    rw [(Ring.contents_eq_nil_iff hbounded).mpr (h₀.head.trans h₀.tail.symm)]
    exact (lastN_of_le (Nat.zero_le _)).symm
  · intro es s a s' e h _ hs
    rw [List.flatten_append]
    exact FifoState.holds_step hsize h hs

def emptyFifo : FifoState where
  ring := { head := 0, tail := 0, cells := fun _ => 0 }
  rop := none
  ropLen := 0
  wop := none
  wopLen := 0
  writeBlock := false

end Fifo

end Hwdl

end CoActionOS
