import CoActionOS.Hwdl.Fifo

/-!
# The receive FIFOs

`uartfifo`, `usbfifo` and `devfifo` write what a device receives to a ring buffer, drop the oldest byte where there is no
room, and tell so in a flag that `GETATTR` reports and clears.

The bytes that `GETATTR` reports, here and for `fifo`, are those that the next read would return (`occupancy_agrees`), but
for two things: `devfifo` takes an empty buffer for a full one, and a blocking read of no bytes stays pending when there
are bytes to read.
-/

namespace CoActionOS

namespace Hwdl

/-! ### The three drivers -/

inductive Driver
  | uartfifo | usbfifo | devfifo
  deriving DecidableEq, Repr

structure RxState where
  ring : Ring UInt8
  overflow : Bool
  /-- the pending read -/
  rop : Option Nat
  len : Nat

/-- `ok` is whether the driver of the device below succeeds. -/
inductive RxRequest
  | getattr
  /-- `I_GLOBAL_SETACTION` without a callback -/
  | setaction
  | flush
  | setattr (ok : Bool)
  | init
  | other
  deriving DecidableEq, Repr

/-- `again` is what the callback of a pending read that goes on answers: it is to be called again. -/
inductive RxAction
  | open
  /-- the callback of the device, which reads these bytes from it -/
  | dataReceived (bytes : List UInt8) (again : Bool)
  | read (rop : DeviceTransfer)
  | ioctl (request : RxRequest) (again : Bool)

inductive RxEvent
  | received (bytes : List UInt8)
  /-- bytes are read from the buffer for a length -/
  | taken (len : Nat) (bytes : List UInt8)
  /-- what `GETATTR` reports, and what a read of a length that does not block would return next -/
  | attr (size used : Nat) (overflow : Bool) (next : Nat → Nat)
  | reset
  /-- the callback of the pending read -/
  | completed (id nbyte : Nat)
  | cancelled (id : Nat)
  | returned (ret : Except Errno Nat)

/-- The bytes that a call with these events has returned. -/
def rxReturns (es : List RxEvent) : Nat :=
  match es.getLast? with
  | some (.returned (.ok n)) => n
  | _ => 0

namespace RxState

variable (size : Nat) (s : RxState)

/-- The `inc_head` of the three drivers. -/
def incHead : RxState :=
  let head := s.ring.head + 1
  let head := if head = size then 0 else head
  if head = s.ring.tail then
    let tail := s.ring.tail + 1
    { s with ring := { s.ring with head := head, tail := if tail = size then 0 else tail }, overflow := true }
  else { s with ring := { s.ring with head := head } }

/-- A byte from the device. -/
def getbyte (c : UInt8) : RxState :=
  { s with ring := { s.ring with cells := Function.update s.ring.cells s.ring.head c } }.incHead size

/-- The `data_received` of the three drivers. -/
def dataReceived (bytes : List UInt8) (again : Bool) : RxState × List RxEvent :=
  let s := bytes.foldl (getbyte size) s
  match s.rop with
  | none => (s, [.received bytes])
  | some id =>
    let (ring, out) := readBuffer size s.len s.ring
    if out.length > 0 then
      ({ s with ring := ring, rop := if again then some id else none },
        [.received bytes, .taken s.len out, .completed id out.length])
    else ({ s with ring := ring }, [.received bytes, .taken s.len out])

/-- A read of the three drivers; `pending` is what it returns while another is pending.  `usbfifo` sets `len` only for a
read that is to wait, and only then is it looked at. -/
def read (pending : Except Errno Nat) (rop : DeviceTransfer) : RxState × List RxEvent :=
  if s.rop.isSome then (s, [.returned pending])
  else
    let (ring, out) := readBuffer size rop.nbyte s.ring
    let s := { s with ring := ring, len := rop.nbyte }
    if out.length = 0 then
      if rop.nonblock then (s, [.taken rop.nbyte out, .returned (.error .eagain)])
      else ({ s with rop := some rop.id }, [.taken rop.nbyte out, .returned (.ok 0)])
    else (s, [.taken rop.nbyte out, .returned (.ok out.length)])

def uartfifoRead (rop : DeviceTransfer) : RxState × List RxEvent := s.read size (.error .eagain) rop
def usbfifoRead (rop : DeviceTransfer) : RxState × List RxEvent := s.read size (.error .eagain) rop
def devfifoRead (rop : DeviceTransfer) : RxState × List RxEvent := s.read size (.ok 0) rop

/-- What a read would return next. -/
def nextRead (pending : Except Errno Nat) (n : Nat) : Nat :=
  rxReturns (s.read size pending ⟨0, n, fun _ => 0, true⟩).2

def reset : RxState := { s with ring := { s.ring with head := 0, tail := 0 }, overflow := false }

def uartfifoOpen : RxState × List RxEvent := ({ s.reset with rop := none }, [.reset])
def devfifoOpen : RxState × List RxEvent := ({ s.reset with rop := none }, [.reset])

/-- The device below is opened; the state is that of the last time. -/
def usbfifoOpen : RxState × List RxEvent := (s, [])

/-- The pending read is cancelled. -/
def cancel (again : Bool) : RxState × List RxEvent :=
  match s.rop with
  | none => (s, [])
  | some id => ({ s with rop := if again then some id else none }, [.cancelled id])

def uartfifoIoctl (request : RxRequest) (again : Bool) : RxState × List RxEvent :=
  match request with
  | .getattr =>
    ({ s with overflow := false }, [.attr size (used size s.ring) s.overflow (s.nextRead size (.error .eagain))])
  | .setaction => s.cancel again
  | .flush => (s.reset, [.reset])
  | .setattr ok => if ok then (s.reset, [.reset]) else (s, [])
  | .init => (s.reset, [.reset])
  | .other => (s, [])

def usbfifoIoctl (request : RxRequest) (again : Bool) : RxState × List RxEvent :=
  match request with
  | .getattr =>
    ({ s with overflow := false }, [.attr size (used size s.ring) s.overflow (s.nextRead size (.error .eagain))])
  | .setaction => s.cancel again
  | .flush => ({ s.reset with rop := none }, [.reset])
  | .setattr _ => ({ s.reset with rop := none }, [.reset])
  | .init => (s.reset, [.reset])
  | .other => (s, [])

/-- `attr->used`, with another comparison than in the other drivers. -/
def devfifoUsed (r : Ring UInt8) : Nat :=
  if r.head > r.tail then r.head - r.tail else size - r.tail + r.head

/-- Every other request is for the device. -/
def devfifoIoctl (request : RxRequest) : RxState × List RxEvent :=
  match request with
  | .getattr =>
    ({ s with overflow := false }, [.attr size (devfifoUsed size s.ring) s.overflow (s.nextRead size (.ok 0))])
  | _ => (s, [])

def call (d : Driver) : RxAction → RxState × List RxEvent
  | .open =>
    match d with
    | .uartfifo => s.uartfifoOpen
    | .usbfifo => s.usbfifoOpen
    | .devfifo => s.devfifoOpen
  | .dataReceived bytes again => s.dataReceived size bytes again
  | .read rop =>
    match d with
    | .uartfifo => s.uartfifoRead size rop
    | .usbfifo => s.usbfifoRead size rop
    | .devfifo => s.devfifoRead size rop
  | .ioctl request again =>
    match d with
    | .uartfifo => s.uartfifoIoctl size request again
    | .usbfifo => s.usbfifoIoctl size request again
    | .devfifo => s.devfifoIoctl size request

def step (d : Driver) (a : RxAction) : Option (RxState × Option (List RxEvent)) :=
  some ((s.call size d a).1, some (s.call size d a).2)

end RxState

/-! ### The statement -/

/-- What a buffer of `cap` bytes stores, and whether it has dropped a byte since the last report or reset. -/
def RxEvent.next (cap : Nat) (q : List UInt8 × Bool) : RxEvent → List UInt8 × Bool
  | .received bytes => (lastN cap (q.1 ++ bytes), q.2 || decide (cap < (q.1 ++ bytes).length))
  | .taken _ bytes => (q.1.drop bytes.length, q.2)
  | .attr _ _ _ _ => (q.1, false)
  | .reset => ([], false)
  | _ => q

def stored (cap : Nat) (es : List RxEvent) : List UInt8 × Bool := es.foldl (RxEvent.next cap) ([], false)

/-- The bytes come out in the order of their arrival; as many are reported as the next read would return that asks for
all of them; and an overflow is reported when a byte was dropped. -/
def RxEvent.Agrees (size : Nat) (q : List UInt8 × Bool) : RxEvent → Prop
  | .taken len bytes => bytes = q.1.take len
  | .attr _ used overflow next => (∀ n, size ≤ n → used = next n) ∧ overflow = q.2
  | _ => True

def RxAgrees (size : Nat) (es : List RxEvent) : Prop :=
  ∀ before e after, es = before ++ e :: after → e.Agrees size (stored (size - 1) before)

structure RxState.Initial (s : RxState) : Prop where
  head : s.ring.head = 0
  tail : s.ring.tail = 0
  overflow : s.overflow = false
  rop : s.rop = none

/-- The steps at which the reports agree: `devfifo` is asked when there are bytes in it, a read that blocks asks for a
byte at least, and no callback is to be called again. -/
def RxState.Careful (d : Driver) (s : RxState) : RxAction → Prop
  | .ioctl .getattr _ => d = .devfifo → s.ring.head ≠ s.ring.tail
  | .dataReceived _ again | .ioctl .setaction again => again = false
  | .read rop => rop.nbyte = 0 → rop.nonblock = true
  | _ => True

/-! ### The buffer -/

/-- The state after these events. -/
structure RxHolds (size : Nat) (s : RxState) (es : List RxEvent) : Prop where
  bounded : s.ring.Bounded size
  stored : stored (size - 1) es = (s.ring.contents size, s.overflow)
  agrees : RxAgrees size es
  waits : s.rop.isSome = true → s.ring.head = s.ring.tail ∧ 0 < s.len

section

variable {size : Nat} {s s' : RxState} {es : List RxEvent}

theorem stored_snoc (cap : Nat) (es : List RxEvent) (e : RxEvent) : stored cap (es ++ [e]) = e.next cap (stored cap es) := by
  unfold stored
  rw [List.foldl_append]
  rfl

theorem RxHolds.snoc (h : RxHolds size s es) {e : RxEvent} (hbounded : s'.ring.Bounded size)
    (hnext : e.next (size - 1) (s.ring.contents size, s.overflow) = (s'.ring.contents size, s'.overflow))
    (hagrees : e.Agrees size (s.ring.contents size, s.overflow))
    (hwaits : s'.rop.isSome = true → s'.ring.head = s'.ring.tail ∧ 0 < s'.len) : RxHolds size s' (es ++ [e]) where
  bounded := hbounded
  stored := by rw [stored_snoc, h.stored, hnext]
  agrees := Run.forall_split_snoc h.agrees (h.stored ▸ hagrees)
  waits := hwaits

theorem RxState.getbyte_eq (h : s.ring.Bounded size) (c : UInt8) :
    s.getbyte size c =
      { s with
        ring := s.ring.push size c
        overflow := s.overflow || decide (size - 1 < s.ring.count size + 1) } := by
  have hlt := Ring.count_lt h
  have hroom : size - 1 < s.ring.count size + 1 ↔ ¬ s.ring.count size + 1 < size := by omega
  unfold RxState.getbyte RxState.incHead
  rw [Ring.push_eq h]
  by_cases hmeet : (s.ring.put size c).head = (s.ring.put size c).tail
  · have hfull : ¬ s.ring.count size + 1 < size := by
      rw [Ring.room_iff h, not_not]
      exact hmeet
    rw [if_pos hmeet, decide_eq_true (hroom.mpr hfull), Bool.or_true]
    exact if_pos hmeet
  · have hnot : ¬ size - 1 < s.ring.count size + 1 := by
      rw [hroom, not_not, Ring.room_iff h]
      exact hmeet
    rw [if_neg hmeet, decide_eq_false hnot, Bool.or_false]
    exact if_neg hmeet

/-- What is received is pushed, and the flag tells whether all of it fitted. -/
theorem RxState.foldl_getbyte (h : s.ring.Bounded size) (hsize : 2 ≤ size) (bytes : List UInt8) :
    bytes.foldl (RxState.getbyte size) s =
      { s with
        ring := s.ring.pushAll size bytes
        overflow := s.overflow || decide (size - 1 < s.ring.count size + bytes.length) } := by
  induction bytes generalizing s with
  | nil =>
    have hlt := Ring.count_lt h
    have hnot : ¬ size - 1 < s.ring.count size + ([] : List UInt8).length := by
      rw [List.length_nil]
      omega
    rw [decide_eq_false hnot, Bool.or_false]
    rfl
  | cons c bytes ih =>
    rw [List.foldl_cons, RxState.getbyte_eq h, ih (h.push c)]
    have hcount : (s.ring.push size c).count size = min (size - 1) (s.ring.count size + 1) := by
      rw [← Ring.length_contents, Ring.contents_push h hsize, length_lastN, List.length_append, Ring.length_contents,
        List.length_singleton]
    have hflag : (s.overflow || decide (size - 1 < s.ring.count size + 1) ||
        decide (size - 1 < (s.ring.push size c).count size + bytes.length)) =
        (s.overflow || decide (size - 1 < s.ring.count size + (c :: bytes).length)) := by
      rw [hcount, List.length_cons, Bool.or_assoc, ← Bool.decide_or]
      congr 2
      apply propext
      omega
    rw [hflag]
    rfl

theorem RxHolds.received (h : RxHolds size s es) (hsize : 2 ≤ size) (hnone : s.rop = none) (bytes : List UInt8) :
    RxHolds size (bytes.foldl (RxState.getbyte size) s) (es ++ [.received bytes]) := by
  rw [RxState.foldl_getbyte h.bounded hsize]
  refine h.snoc (h.bounded.pushAll bytes) ?_ trivial fun hrop => ?_
  · change (lastN (size - 1) (s.ring.contents size ++ bytes), s.overflow || decide _) = _
    rw [Ring.contents_pushAll h.bounded hsize, List.length_append, Ring.length_contents]
  · change s.rop.isSome = true at hrop
    rw [hnone] at hrop
    exact nomatch hrop

theorem RxHolds.taken (h : RxHolds size s es) (hnone : s.rop = none) (len : Nat) :
    RxHolds size { s with ring := (readBuffer size len s.ring).1 } (es ++ [.taken len (readBuffer size len s.ring).2]) := by
  obtain ⟨hbounded, hbytes, hrest⟩ := readBuffer_spec len h.bounded
  refine h.snoc hbounded ?_ hbytes fun hrop => ?_
  · change ((s.ring.contents size).drop (readBuffer size len s.ring).2.length, s.overflow) = _
    rw [hbytes, hrest, List.length_take, ← List.drop_eq_drop_min]
  · change s.rop.isSome = true at hrop
    rw [hnone] at hrop
    exact nomatch hrop

/-- An event that is not of the buffer. -/
theorem RxHolds.other (h : RxHolds size s es) {e : RxEvent} (hnext : ∀ q, e.next (size - 1) q = q)
    (hagrees : ∀ q, e.Agrees size q) : RxHolds size s (es ++ [e]) :=
  h.snoc h.bounded (hnext _) (hagrees _) h.waits

theorem RxHolds.returned (h : RxHolds size s es) (ret : Except Errno Nat) : RxHolds size s (es ++ [.returned ret]) :=
  h.other (fun _ => rfl) fun _ => trivial

/-- Nothing is left of what is read when there is nothing to read. -/
theorem readBuffer_nil {r : Ring UInt8} {len : Nat} (h : r.Bounded size) (hlen : 0 < len)
    (hnil : ¬ (readBuffer size len r).2.length > 0) :
    (readBuffer size len r).1.head = (readBuffer size len r).1.tail := by
  obtain ⟨hbounded, hbytes, hrest⟩ := readBuffer_spec len h
  rw [hbytes, List.length_take] at hnil
  have hempty : r.contents size = [] := List.eq_nil_of_length_eq_zero (by omega)
  rw [hempty, List.drop_nil] at hrest
  exact (Ring.contents_eq_nil_iff hbounded).mp hrest

theorem RxHolds.dataReceived (h : RxHolds size s es) (hsize : 2 ≤ size) (bytes : List UInt8) :
    RxHolds size (s.dataReceived size bytes false).1 (es ++ (s.dataReceived size bytes false).2) := by
  have hidle : RxHolds size { s with rop := none } es := ⟨h.bounded, h.stored, h.agrees, by exact nofun⟩
  have hreceived := hidle.received hsize rfl bytes
  rw [RxState.foldl_getbyte hidle.bounded hsize] at hreceived
  unfold RxState.dataReceived
  rw [RxState.foldl_getbyte h.bounded hsize]
  dsimp only at hreceived ⊢
  cases hrop : s.rop with
  | none =>
    exact hreceived
  | some id =>
    have htaken := hreceived.taken rfl s.len
    dsimp only at htaken ⊢
    by_cases hsome : (readBuffer size s.len (s.ring.pushAll size bytes)).2.length > 0
    · rw [if_pos hsome, List.append_cons, List.append_cons]
      exact htaken.other (e := .completed id _) (fun _ => rfl) fun _ => trivial
    · rw [if_neg hsome, List.append_cons]
      have hlen := (h.waits (by rw [hrop]; rfl)).2
      exact ⟨htaken.bounded, htaken.stored, htaken.agrees, fun _ => ⟨readBuffer_nil hreceived.bounded hlen hsome, hlen⟩⟩

theorem RxHolds.read (h : RxHolds size s es) (pending : Except Errno Nat) {rop : DeviceTransfer}
    (hcareful : rop.nbyte = 0 → rop.nonblock = true) :
    RxHolds size (s.read size pending rop).1 (es ++ (s.read size pending rop).2) := by
  unfold RxState.read
  by_cases hbusy : s.rop.isSome = true
  · rw [if_pos hbusy]
    exact h.returned pending
  · have hnone : s.rop = none := Option.not_isSome_iff_eq_none.mp hbusy
    have hset : RxHolds size { s with len := rop.nbyte } es :=
      ⟨h.bounded, h.stored, h.agrees, fun hrop => absurd hrop hbusy⟩
    have htaken := hset.taken hnone rop.nbyte
    rw [if_neg hbusy]
    dsimp only at htaken ⊢
    by_cases hnil : (readBuffer size rop.nbyte s.ring).2.length = 0
    · rw [if_pos hnil]
      by_cases hnonblock : rop.nonblock = true
      · rw [if_pos hnonblock, List.append_cons]
        exact htaken.returned _
      · have hlen : 0 < rop.nbyte := Nat.pos_of_ne_zero fun hzero => hnonblock (hcareful hzero)
        have hwaits := readBuffer_nil h.bounded hlen (Nat.not_lt_of_le (Nat.le_of_eq hnil))
        have hpend : RxHolds size { s with ring := (readBuffer size rop.nbyte s.ring).1, len := rop.nbyte, rop := some rop.id }
            (es ++ [.taken rop.nbyte (readBuffer size rop.nbyte s.ring).2]) :=
          ⟨htaken.bounded, htaken.stored, htaken.agrees, fun _ => ⟨hwaits, hlen⟩⟩
        rw [if_neg hnonblock, List.append_cons]
        exact hpend.returned _
    · rw [if_neg hnil, List.append_cons]
      exact htaken.returned _

/-- A long enough read that does not block would return all that is stored. -/
theorem RxHolds.nextRead (h : RxHolds size s es) {pending : Except Errno Nat}
    (hpending : pending = .error .eagain ∨ pending = .ok 0) {n : Nat} (hn : size ≤ n) :
    s.nextRead size pending n = s.ring.count size := by
  obtain ⟨-, hbytes, -⟩ := readBuffer_spec n h.bounded
  have hlt := Ring.count_lt h.bounded
  have hout : (readBuffer size n s.ring).2.length = s.ring.count size := by
    rw [hbytes, List.length_take, Ring.length_contents]
    omega
  unfold RxState.nextRead RxState.read
  by_cases hbusy : s.rop.isSome = true
  · rw [if_pos hbusy, (Ring.count_eq_zero_iff h.bounded).mpr (h.waits hbusy).1]
    rcases hpending with rfl | rfl <;> rfl
  · rw [if_neg hbusy]
    dsimp only
    by_cases hnil : (readBuffer size n s.ring).2.length = 0
    · rw [if_pos hnil, if_pos rfl, ← hout, hnil]
      rfl
    · rw [if_neg hnil]
      exact hout

theorem used_eq (r : Ring UInt8) : used size r = r.count size := rfl

theorem devfifoUsed_eq {r : Ring UInt8} (hne : r.head ≠ r.tail) : RxState.devfifoUsed size r = r.count size := by
  unfold RxState.devfifoUsed Ring.count
  have hcases : r.head > r.tail ↔ r.tail ≤ r.head := by omega
  simp only [hcases]

theorem RxHolds.attr (h : RxHolds size s es) {pending : Except Errno Nat} {used : Nat}
    (hpending : pending = .error .eagain ∨ pending = .ok 0) (hused : used = s.ring.count size) :
    RxHolds size { s with overflow := false }
      (es ++ [.attr size used s.overflow (s.nextRead size pending)]) :=
  h.snoc h.bounded rfl ⟨fun _ hn => hused.trans (h.nextRead hpending hn).symm, rfl⟩ h.waits

theorem RxHolds.reset (h : RxHolds size s es) : RxHolds size s.reset (es ++ [.reset]) := by
  have hpos : 0 < size := Nat.lt_of_le_of_lt (Nat.zero_le _) h.bounded.head
  have hbounded : s.reset.ring.Bounded size := ⟨hpos, hpos⟩
  refine h.snoc hbounded ?_ trivial fun hrop => ⟨rfl, (h.waits hrop).2⟩
  rw [(Ring.contents_eq_nil_iff hbounded).mpr rfl]
  rfl

theorem RxHolds.idle (h : RxHolds size s es) : RxHolds size { s with rop := none } es :=
  ⟨h.bounded, h.stored, h.agrees, by exact nofun⟩

theorem RxHolds.same (h : RxHolds size s es) : RxHolds size s (es ++ []) := (List.append_nil es).symm ▸ h

theorem RxHolds.cancel (h : RxHolds size s es) : RxHolds size (s.cancel false).1 (es ++ (s.cancel false).2) := by
  unfold RxState.cancel
  cases s.rop with
  | none => exact h.same
  | some id => exact h.idle.other (e := .cancelled id) (fun _ => rfl) fun _ => trivial

theorem RxHolds.call (h : RxHolds size s es) (hsize : 2 ≤ size) {d : Driver} {a : RxAction} (hcareful : s.Careful d a) :
    RxHolds size (s.call size d a).1 (es ++ (s.call size d a).2) := by
  cases a with
  | «open» =>
    cases d with
    | uartfifo => exact h.reset.idle
    | usbfifo => exact h.same
    | devfifo => exact h.reset.idle
  | dataReceived bytes again =>
    obtain rfl : again = false := hcareful
    exact h.dataReceived hsize bytes
  | read rop => cases d <;> exact h.read _ hcareful
  | ioctl request again =>
    cases d with
    | uartfifo =>
      cases request with
      | getattr => exact h.attr (.inl rfl) (used_eq _)
      | setaction =>
        obtain rfl : again = false := hcareful
        exact h.cancel
      | flush | init => exact h.reset
      | setattr ok =>
        cases ok with
        | false => exact h.same
        | true => exact h.reset
      | other => exact h.same
    | usbfifo =>
      cases request with
      | getattr => exact h.attr (.inl rfl) (used_eq _)
      | setaction =>
        obtain rfl : again = false := hcareful
        exact h.cancel
      | flush | setattr _ => exact h.reset.idle
      | init => exact h.reset
      | other => exact h.same
    | devfifo =>
      cases request with
      | getattr => exact h.attr (.inr rfl) (devfifoUsed_eq (hcareful rfl))
      | setaction | flush | setattr _ | init | other => exact h.same

end

/-! ### The software FIFO -/

namespace Fifo

/-- As many bytes are reported as the next read would return that asks for all of them. -/
def Event.Reports (size : Nat) : Event → Prop
  | .attr _ used next => ∀ n, size ≤ n → used = next n
  | _ => True

/-- A read that blocks asks for a byte at least, and no callback is to be called again. -/
def FifoState.Careful : Action → Prop
  | .read rop again => (rop.nbyte = 0 → rop.nonblock = true) ∧ again = false
  | .write _ again | .ioctl _ again => again = false

/-- A read waits for an empty buffer, and a write of any bytes for a full one. -/
structure Waits (size : Nat) (s : FifoState) : Prop where
  bounded : s.ring.Bounded size
  rop : s.rop.isSome = true → s.ring.head = s.ring.tail ∧ 0 < s.ropLen
  wop : ∀ wop ∈ s.wop, s.bytes wop = [] ∨ s.writeBlock = true ∧ full size s.ring = true

section

variable {size : Nat} {s s' : FifoState}

theorem readBuffer_same {r : Ring UInt8} {len : Nat} (hnil : (readBuffer size len r).2.length = 0) :
    (readBuffer size len r).1 = r := by
  cases len with
  | zero => rfl
  | succ len =>
    unfold readBuffer at hnil ⊢
    by_cases hempty : r.head = r.tail
    · rw [if_pos hempty]
    · rw [if_neg hempty] at hnil
      exact absurd hnil (Nat.succ_ne_zero _)

theorem writeBuffer_same {r : Ring UInt8} {block : Bool} {data : List UInt8}
    (hnil : (writeBuffer size block data r).2.length = 0) :
    (writeBuffer size block data r).1 = r ∧ (data = [] ∨ block = true ∧ full size r = true) := by
  cases data with
  | nil => exact ⟨rfl, .inl rfl⟩
  | cons c cs =>
    unfold writeBuffer at hnil ⊢
    by_cases hstop : (full size r && block) = true
    · rw [if_pos hstop]
      exact ⟨rfl, .inr (Bool.and_eq_true _ _ |>.mp hstop).symm⟩
    · rw [if_neg hstop] at hnil
      exact absurd hnil (Nat.succ_ne_zero _)

theorem not_full (hsize : 2 ≤ size) {r : Ring UInt8} (h : r.Bounded size) (hempty : r.head = r.tail) :
    full size r ≠ true := by
  rw [Ne, full_iff hsize h, (Ring.count_eq_zero_iff h).mpr hempty]
  omega

/-- A write that waits while a read waits too is one of no bytes. -/
theorem Waits.wop_of_rop (h : Waits size s) (hsize : 2 ≤ size) (hrop : s.rop.isSome = true) :
    ∀ wop ∈ s.wop, s.bytes wop = [] := fun wop hwop =>
  (h.wop wop hwop).resolve_right fun hfull => not_full hsize h.bounded (h.rop hrop).1 hfull.2

theorem waits_dataTransmitted (hsize : 2 ≤ size) (hbounded : s.ring.Bounded size)
    (hrop : s.rop.isSome = true → (s.ring.head = s.ring.tail ∧ 0 < s.ropLen) ∧ ∀ wop ∈ s.wop, s.bytes wop = []) :
    Waits size (s.dataTransmitted size false).1 := by
  unfold FifoState.dataTransmitted
  cases hwop : s.wop with
  | none =>
    refine ⟨hbounded, fun hsome => (hrop hsome).1, fun wop hmem => ?_⟩
    rw [hwop] at hmem
    exact nomatch hmem
  | some wop =>
    dsimp only
    by_cases hsome : (writeBuffer size s.writeBlock (s.bytes wop) s.ring).2.length > 0
    · rw [if_pos hsome]
      refine ⟨(writeBuffer_spec hsize _ _ hbounded).1, fun hread => ?_, fun wop' hmem => nomatch hmem⟩
      have hnil := (hrop hread).2 wop hwop
      rw [hnil] at hsome
      exact absurd hsome (Nat.lt_irrefl 0)
    · rw [if_neg hsome]
      obtain ⟨hsame, hfull⟩ := writeBuffer_same (Nat.eq_zero_of_not_pos hsome)
      refine ⟨?_, fun hread => ?_, fun wop' hmem => ?_⟩
      · rw [hsame]
        exact hbounded
      · rw [hsame]
        exact (hrop hread).1
      · obtain rfl : wop = wop' := Option.some.inj hmem
        rw [hsame]
        exact hfull

theorem waits_dataReceived (hbounded : s.ring.Bounded size) (hwop : s.wop = none)
    (hrop : s.rop.isSome = true → 0 < s.ropLen) : Waits size (s.dataReceived size false).1 := by
  have hnone : ∀ wop ∈ s.wop, s.bytes wop = [] ∨ s.writeBlock = true ∧ full size s.ring = true := by
    intro wop hmem
    rw [hwop] at hmem
    exact nomatch hmem
  unfold FifoState.dataReceived
  cases hread : s.rop with
  | none =>
    refine ⟨hbounded, fun hsome => ?_, hnone⟩
    rw [hread] at hsome
    exact nomatch hsome
  | some id =>
    have hlen := hrop (by rw [hread]; rfl)
    have hspec := (readBuffer_spec s.ropLen hbounded).1
    dsimp only
    by_cases hsome : (readBuffer size s.ropLen s.ring).2.length > 0
    · rw [if_pos hsome]
      refine ⟨hspec, by exact nofun, fun wop hmem => ?_⟩
      rw [hwop] at hmem
      exact nomatch hmem
    · rw [if_neg hsome]
      refine ⟨hspec, fun _ => ⟨readBuffer_nil hbounded hlen hsome, hlen⟩, fun wop hmem => ?_⟩
      rw [hwop] at hmem
      exact nomatch hmem

theorem Waits.fifoRead (h : Waits size s) (hsize : 2 ≤ size) {rop : DeviceTransfer}
    (hcareful : rop.nbyte = 0 → rop.nonblock = true) : Waits size (s.fifoRead size rop false).1 := by
  unfold FifoState.fifoRead
  by_cases hbusy : s.rop.isSome = true
  · rw [if_pos hbusy]
    exact h
  · rw [if_neg hbusy]
    dsimp only
    by_cases hnil : (readBuffer size rop.nbyte s.ring).2.length = 0
    · rw [if_pos hnil, readBuffer_same hnil]
      by_cases hnonblock : rop.nonblock = true
      · rw [if_pos hnonblock]
        exact ⟨h.bounded, fun hsome => absurd hsome hbusy, h.wop⟩
      · have hlen : 0 < rop.nbyte := Nat.pos_of_ne_zero fun hzero => hnonblock (hcareful hzero)
        have hempty := readBuffer_nil h.bounded hlen (Nat.not_lt_of_le (Nat.le_of_eq hnil))
        rw [readBuffer_same hnil] at hempty
        rw [if_neg hnonblock]
        exact ⟨h.bounded, fun _ => ⟨hempty, hlen⟩, h.wop⟩
    · rw [if_neg hnil]
      exact waits_dataTransmitted hsize (readBuffer_spec rop.nbyte h.bounded).1 fun hsome => absurd hsome hbusy

theorem Waits.fifoWrite (h : Waits size s) (hsize : 2 ≤ size) (wop : DeviceTransfer) :
    Waits size (s.fifoWrite size wop false).1 := by
  unfold FifoState.fifoWrite
  by_cases hbusy : s.wop.isSome = true
  · rw [if_pos hbusy]
    exact h
  · have hnone : s.wop = none := Option.not_isSome_iff_eq_none.mp hbusy
    rw [if_neg hbusy]
    dsimp only
    set data := FifoState.bytes _ wop
    by_cases hnil : (writeBuffer size s.writeBlock data s.ring).2.length = 0
    · obtain ⟨hsame, hfull⟩ := writeBuffer_same hnil
      rw [if_pos hnil, hsame]
      by_cases hnonblock : wop.nonblock = true
      · rw [if_pos hnonblock]
        refine ⟨h.bounded, h.rop, fun wop' hmem => ?_⟩
        change wop' ∈ s.wop at hmem
        rw [hnone] at hmem
        exact nomatch hmem
      · rw [if_neg hnonblock]
        refine ⟨h.bounded, h.rop, fun wop' hmem => ?_⟩
        obtain rfl : wop = wop' := Option.some.inj hmem
        exact hfull
    · rw [if_neg hnil]
      exact waits_dataReceived (writeBuffer_spec hsize _ _ h.bounded).1 hnone fun hsome => (h.rop hsome).2

theorem Waits.fifoIoctl (h : Waits size s) (hsize : 2 ≤ size) (request : Request) :
    Waits size (s.fifoIoctl size request false).1 := by
  have hbounded : Ring.Bounded size { s.ring with head := 0, tail := 0 } := ⟨by show 0 < size; omega, by show 0 < size; omega⟩
  cases request with
  | getattr | other => exact h
  | init =>
    exact waits_dataTransmitted (s := { s with rop := none, wop := none, ring := { s.ring with head := 0, tail := 0 } }) hsize
      hbounded (by exact nofun)
  | flush =>
    exact waits_dataTransmitted hsize hbounded fun hsome => ⟨⟨rfl, (h.rop hsome).2⟩, h.wop_of_rop hsize hsome⟩
  | setwriteblock block =>
    cases block with
    | true => exact ⟨h.bounded, h.rop, fun wop hmem => (h.wop wop hmem).imp_right fun hfull => ⟨rfl, hfull.2⟩⟩
    | false => exact waits_dataTransmitted hsize h.bounded fun hsome => ⟨h.rop hsome, h.wop_of_rop hsize hsome⟩

/-- A long enough read that does not block would return all that is stored. -/
theorem Waits.next (h : Waits size s) {n : Nat} (hn : size ≤ n) :
    returns (s.fifoRead size ⟨0, n, fun _ => 0, true⟩ false).2 = s.ring.count size := by
  have hbytes := (readBuffer_spec n h.bounded).2.1
  have hlt := Ring.count_lt h.bounded
  have hout : (readBuffer size n s.ring).2.length = s.ring.count size := by
    rw [hbytes, List.length_take, Ring.length_contents]
    omega
  unfold FifoState.fifoRead
  by_cases hbusy : s.rop.isSome = true
  · rw [if_pos hbusy, (Ring.count_eq_zero_iff h.bounded).mpr (h.rop hbusy).1]
    rfl
  · rw [if_neg hbusy]
    dsimp only
    by_cases hnil : (readBuffer size n s.ring).2.length = 0
    · rw [if_pos hnil, if_pos rfl, ← hout, hnil]
      rfl
    · rw [if_neg hnil]
      unfold returns
      rw [List.getLast?_append]
      exact hout

theorem reports_dataTransmitted (s : FifoState) (again : Bool) :
    ∀ e ∈ (s.dataTransmitted size again).2, e.Reports size := by
  unfold FifoState.dataTransmitted
  cases s.wop with
  | none => exact fun e he => nomatch he
  | some wop =>
    dsimp only
    split_ifs <;> simp [Event.Reports]

theorem reports_dataReceived (s : FifoState) (again : Bool) : ∀ e ∈ (s.dataReceived size again).2, e.Reports size := by
  unfold FifoState.dataReceived
  cases s.rop with
  | none => exact fun e he => nomatch he
  | some id =>
    dsimp only
    split_ifs <;> simp [Event.Reports]

theorem reports_between {e₁ e₂ : Event} {es : List Event} (h₁ : e₁.Reports size) (hes : ∀ e ∈ es, e.Reports size)
    (h₂ : e₂.Reports size) : ∀ e ∈ e₁ :: es ++ [e₂], e.Reports size := by
  intro e he
  rw [List.cons_append, List.mem_cons, List.mem_append, List.mem_singleton] at he
  rcases he with rfl | he | rfl
  · exact h₁
  · exact hes e he
  · exact h₂

theorem reports_fifoRead (s : FifoState) (rop : DeviceTransfer) (again : Bool) :
    ∀ e ∈ (s.fifoRead size rop again).2, e.Reports size := by
  unfold FifoState.fifoRead
  dsimp only
  split_ifs
  · simp [Event.Reports]
  · simp [Event.Reports]
  · simp [Event.Reports]
  · exact reports_between trivial (reports_dataTransmitted _ _) trivial

theorem reports_fifoWrite (s : FifoState) (wop : DeviceTransfer) (again : Bool) :
    ∀ e ∈ (s.fifoWrite size wop again).2, e.Reports size := by
  unfold FifoState.fifoWrite
  dsimp only
  split_ifs
  · simp [Event.Reports]
  · simp [Event.Reports]
  · simp [Event.Reports]
  · exact reports_between trivial (reports_dataReceived _ _) trivial

theorem Waits.reports_fifoIoctl (h : Waits size s) (request : Request) :
    ∀ e ∈ (s.fifoIoctl size request false).2, e.Reports size := by
  cases request with
  | getattr =>
    intro e he
    rcases List.mem_pair.mp he with rfl | rfl
    · exact fun n hn => (h.next hn).symm
    · trivial
  | init =>
    exact reports_between trivial
      (reports_dataTransmitted { s with rop := none, wop := none, ring := { s.ring with head := 0, tail := 0 } } false) trivial
  | flush =>
    exact reports_between trivial (reports_dataTransmitted { s with ring := { s.ring with head := 0, tail := 0 } } false) trivial
  | setwriteblock block =>
    cases block with
    | true => simp [FifoState.fifoIoctl, Event.Reports]
    | false =>
      intro e he
      rcases List.mem_append.mp he with he | he
      · exact reports_dataTransmitted { s with writeBlock := false } false e he
      · obtain rfl := List.mem_singleton.mp he
        trivial
  | other =>
    intro e he
    obtain rfl := List.mem_singleton.mp he
    trivial

/-- A step keeps what waits, and what it reports agrees with the next read. -/
theorem Waits.step (h : Waits size s) (hsize : 2 ≤ size) {a : Action} (hcareful : FifoState.Careful a)
    {e : Option (List Event)} (hstep : s.step size a = some (s', e)) :
    Waits size s' ∧ ∀ es ∈ e, ∀ e ∈ es, e.Reports size := by
  cases a with
  | read rop again =>
    obtain ⟨hread, rfl⟩ := hcareful
    cases hstep
    exact ⟨h.fifoRead hsize hread, fun es hes => Option.some.inj hes ▸ reports_fifoRead s rop false⟩
  | write wop again =>
    obtain rfl : again = false := hcareful
    cases hstep
    exact ⟨h.fifoWrite hsize wop, fun es hes => Option.some.inj hes ▸ reports_fifoWrite s wop false⟩
  | ioctl request again =>
    obtain rfl : again = false := hcareful
    cases hstep
    exact ⟨h.fifoIoctl hsize request, fun es hes => Option.some.inj hes ▸ h.reports_fifoIoctl request⟩

end

end Fifo

/-! ### The runs -/

section

variable {size : Nat}

theorem RxHolds.run (hsize : 2 ≤ size) {d : Driver} {s₀ s : RxState} {es : List (List RxEvent)} (h₀ : s₀.Initial)
    (hrun : Run (fun s a => s.step size d a) (fun s a => s.Careful d a) s₀ es s) : RxHolds size s es.flatten := by
  refine hrun.invariant (fun es s => RxHolds size s es.flatten) ?_ ?_
  · have hbounded : s₀.ring.Bounded size := ⟨by rw [h₀.head]; omega, by rw [h₀.tail]; omega⟩
    refine ⟨hbounded, ?_, fun before e after heq => ?_, fun hrop => ?_⟩
    · rw [(Ring.contents_eq_nil_iff hbounded).mpr (h₀.head.trans h₀.tail.symm), h₀.overflow]
      rfl
    · exact absurd heq (by simp)
    · rw [h₀.rop] at hrop
      exact nomatch hrop
  · intro es s a s' e h hcareful hstep
    cases hstep
    rw [List.flatten_append, Option.toList_some, List.flatten_singleton]
    exact h.call hsize hcareful

theorem Fifo.Waits.run (hsize : 2 ≤ size) {s₀ s : Fifo.FifoState} {es : List (List Fifo.Event)} (h₀ : s₀.Initial)
    (hrun : Run (Fifo.FifoState.step size) (fun _ a => Fifo.FifoState.Careful a) s₀ es s) :
    Fifo.Waits size s ∧ ∀ e ∈ es.flatten, e.Reports size := by
  refine hrun.invariant (fun es s => Fifo.Waits size s ∧ ∀ e ∈ es.flatten, e.Reports size) ?_ ?_
  · refine ⟨⟨⟨by rw [h₀.head]; omega, by rw [h₀.tail]; omega⟩, fun hrop => ?_, fun wop hmem => ?_⟩, fun e he => nomatch he⟩
    · rw [h₀.rop] at hrop
      exact nomatch hrop
    · rw [h₀.wop] at hmem
      exact nomatch hmem
  · intro es s a s' e h hcareful hstep
    obtain ⟨hwaits, hreports⟩ := h.1.step hsize hcareful hstep
    refine ⟨hwaits, fun e' he' => ?_⟩
    rw [List.flatten_append, List.mem_append] at he'
    rcases he' with hold | hnew
    · exact h.2 e' hold
    · obtain ⟨es', hes', hmem⟩ := List.mem_flatten.mp hnew
      exact hreports es' (Option.mem_toList.mp hes') e' hmem

end

/-- A run of the four FIFOs whose steps are careful: the bytes come out in order, as many are reported as the next read
returns, and the overflow flag tells whether a byte was dropped since the last report or reset. -/
theorem occupancy_agrees (size : Nat) (hsize : 2 ≤ size) :
    (∀ (d : Driver) (s₀ s : RxState) (es : List (List RxEvent)), s₀.Initial →
      Run (fun s a => s.step size d a) (fun s a => s.Careful d a) s₀ es s → RxAgrees size es.flatten) ∧
    ∀ (s₀ s : Fifo.FifoState) (es : List (List Fifo.Event)), s₀.Initial →
      Run (Fifo.FifoState.step size) (fun _ a => Fifo.FifoState.Careful a) s₀ es s →
      Fifo.Queue size s es.flatten ∧ ∀ e ∈ es.flatten, e.Reports size := by
  refine ⟨fun d s₀ s es h₀ hrun => (RxHolds.run hsize h₀ hrun).agrees, fun s₀ s es h₀ hrun => ⟨?_, ?_⟩⟩
  · exact (Fifo.Holds.run size hsize h₀ (hrun.mono fun _ _ _ => trivial)).queue
  · exact (Fifo.Waits.run hsize h₀ hrun).2

def emptyRx : RxState where
  ring := { head := 0, tail := 0, cells := fun _ => 0 }
  overflow := false
  rop := none
  len := 0

/-- Five bytes come, two are read, and `GETATTR` is called. -/
def receiveAndRead : List RxAction :=
  [.dataReceived [1, 2, 3, 4, 5] false, .read ⟨0, 2, fun _ => 0, true⟩, .ioctl .getattr false]

def writeAndAsk : List Fifo.Action := [.write ⟨0, 5, fun i => UInt8.ofNat i, true⟩ false, .ioctl .getattr false]

theorem occupancy_agrees_receiveAndRead :
    (∃ s es, Run (fun s a => s.step 4 .devfifo a) (fun s a => s.Careful .devfifo a) emptyRx es s ∧ s.ring.contents 4 = [5] ∧
      RxAgrees 4 es.flatten) ∧
    ∃ s es, Run (Fifo.FifoState.step 4) (fun _ a => Fifo.FifoState.Careful a) Fifo.emptyFifo es s ∧
      s.ring.contents 4 = [2, 3, 4] ∧ Fifo.Queue 4 s es.flatten ∧ ∀ e ∈ es.flatten, e.Reports 4 := by
  obtain ⟨hrx, hfifo⟩ := occupancy_agrees 4 (by decide)
  constructor
  · obtain ⟨s, es, hreplay, hcontents⟩ : ∃ s es,
        Run.replay (fun s a => s.step 4 .devfifo a) emptyRx receiveAndRead = some (s, es) ∧ s.ring.contents 4 = [5] :=
      ⟨_, _, rfl, rfl⟩
    have hcareful : Run.AllOk (fun s a => s.step 4 .devfifo a) (fun (s : RxState) a => s.Careful .devfifo a) emptyRx
        receiveAndRead :=
      And.intro rfl (And.intro (fun _ => rfl) (And.intro (fun _ => by decide) trivial))
    have hrun := Run.of_replay hreplay hcareful
    exact ⟨s, es, hrun, hcontents, hrx .devfifo emptyRx s es ⟨rfl, rfl, rfl, rfl⟩ hrun⟩
  · obtain ⟨s, es, hreplay, hcontents⟩ : ∃ s es,
        Run.replay (Fifo.FifoState.step 4) Fifo.emptyFifo writeAndAsk = some (s, es) ∧ s.ring.contents 4 = [2, 3, 4] :=
      ⟨_, _, rfl, rfl⟩
    have hcareful : Run.AllOk (Fifo.FifoState.step 4) (fun _ a => Fifo.FifoState.Careful a) Fifo.emptyFifo writeAndAsk :=
      And.intro rfl (And.intro rfl trivial)
    have hrun := Run.of_replay hreplay hcareful
    exact ⟨s, es, hrun, hcontents, hfifo Fifo.emptyFifo s es ⟨rfl, rfl, rfl, rfl⟩ hrun⟩

/-- An empty `devfifo` reports that it is full. -/
theorem not_occupancy_agrees : ∃ s es, Run (fun s a => s.step 4 .devfifo a) (fun _ _ => True) emptyRx es s ∧
    ¬ RxAgrees 4 es.flatten := by
  have hreplay : Run.replay (fun s a => s.step 4 .devfifo a) emptyRx [.ioctl .getattr false] = some _ := rfl
  refine ⟨_, _, Run.of_replay hreplay (Run.allOk_true emptyRx _), fun hagrees => ?_⟩
  have hused := (hagrees [] _ [] rfl).1 4 (Nat.le_refl 4)
  exact absurd hused (by decide)

end Hwdl

end CoActionOS
