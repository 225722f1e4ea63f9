import CoActionOS.Hwdl.ReceiveFifos
import CoActionOS.Unistd.Transfer

/-!
# The operations that a FIFO driver keeps

The operation of a transfer is on the stack of `device_data_transfer`.  A FIFO driver that cannot serve it at once keeps
a pointer to it in `rop` or `wop`, and calls back when the data is there or the operation is cancelled.

`Device.Completes` and `Device.Transfers` say what a call to one of the four drivers does to the operations it keeps;
`clrAction_cases` says what becomes of them when a signal has interrupted a transfer.
-/

namespace CoActionOS

namespace Unistd

open Function Hwdl

/-! ### The drivers -/

/-- One of the four drivers with its state. -/
inductive Device
  | rx (driver : Driver) (state : RxState)
  | fifo (state : Fifo.FifoState)

/-- A request to one of the drivers; `I_GLOBAL_SETACTION` is one of the others to the fifo. -/
inductive DeviceRequest
  | rx (request : RxRequest)
  | fifo (request : Fifo.Request)
  deriving DecidableEq, Repr

/-- A callback: the operation and the bytes that were transferred; `none` is `DEVICE_OP_CANCELLED`. -/
structure Callback where
  op : Nat
  nbyte : Option Nat
  deriving DecidableEq, Repr

def rxCallback : RxEvent → Option Callback
  | .completed id nbyte => some ⟨id, some nbyte⟩
  | .cancelled id => some ⟨id, none⟩
  | _ => none

def fifoCallback : Fifo.Event → Option Callback
  | .completed id nbyte => some ⟨id, some nbyte⟩
  | _ => none

/-- What a call with these events has returned. -/
def rxRet (es : List RxEvent) : Except Errno Nat :=
  match es.getLast? with
  | some (.returned ret) => ret
  | _ => .ok 0

def fifoRet (es : List Fifo.Event) : Except Errno Nat :=
  match es.getLast? with
  | some (.returned ret) => ret
  | _ => .ok 0

namespace Device

variable (size : Nat) (v : Device)

/-- `state->rop` for a read and `state->wop` for a write, which only the fifo has. -/
def slot : Bool → Option Nat
  | true =>
    match v with
    | .rx _ s => s.rop
    | .fifo s => s.rop
  | false =>
    match v with
    | .rx _ _ => none
    | .fifo s => s.wop.map DeviceTransfer.id

/-- `op.nbyte` is zero when nothing could be transferred yet. -/
def answer (want : Int) (keeps : Bool) : Except Errno Nat → DriverAnswer
  | .ok n => if n = 0 then ⟨0, 0, keeps⟩ else ⟨n, want, keeps⟩
  | .error _ => ⟨-1, want, keeps⟩

/-- The receive FIFOs hand a write to the device below, whose answer is `below`. -/
def transfer (read : Bool) (op : DeviceTransfer) (want : Int) (below : DriverAnswer) :
    Device × List Callback × DriverAnswer :=
  match v, read with
  | .rx d s, true =>
    let (s, es) := s.call size d (.read op)
    (.rx d s, es.filterMap rxCallback, answer want (s.rop == some op.id) (rxRet es))
  | .rx _ _, false => (v, [], below)
  | .fifo s, true =>
    let (s, es) := s.fifoRead size op false
    (.fifo s, es.filterMap fifoCallback, answer want (s.rop == some op.id) (fifoRet es))
  | .fifo s, false =>
    let (s, es) := s.fifoWrite size op false
    (.fifo s, es.filterMap fifoCallback, answer want (s.wop.map DeviceTransfer.id == some op.id) (fifoRet es))

/-- The callback of the device below, which has these bytes; the fifo has no such device. -/
def dataReceived (bytes : List UInt8) : Device × List Callback :=
  match v with
  | .rx d s =>
    let (s, es) := s.call size d (.dataReceived bytes false)
    (.rx d s, es.filterMap rxCallback)
  | .fifo _ => (v, [])

def ioctl (request : DeviceRequest) : Device × List Callback :=
  match v, request with
  | .rx d s, .rx request =>
    let (s, es) := s.call size d (.ioctl request false)
    (.rx d s, es.filterMap rxCallback)
  | .fifo s, .fifo request =>
    let (s, es) := s.fifoIoctl size request false
    (.fifo s, es.filterMap fifoCallback)
  | _, _ => (v, [])

def «open» : Device × List Callback :=
  match v with
  | .rx d s =>
    let (s, es) := s.call size d .open
    (.rx d s, es.filterMap rxCallback)
  | .fifo _ => (v, [])

/-- The `I_GLOBAL_SETACTION` of `unistd_clr_action`. -/
def clrAction : Device × List Callback :=
  match v with
  | .rx _ _ => v.ioctl size (.rx .setaction)
  | .fifo _ => v.ioctl size (.fifo .other)

/-- The driver answers `I_GLOBAL_SETACTION` by cancelling the pending operation. -/
def cancels : Bool :=
  match v with
  | .rx .uartfifo _ | .rx .usbfifo _ => true
  | .rx .devfifo _ | .fifo _ => false

/-- The requests that cancel the pending operations, or forget them. -/
def ends : DeviceRequest → Bool
  | .rx .setaction => v.cancels
  | .rx .flush | .rx (.setattr _) =>
    match v with
    | .rx .usbfifo _ => true
    | _ => false
  | .fifo .init =>
    match v with
    | .fifo _ => true
    | .rx _ _ => false
  | _ => false

def isFifo : Bool :=
  match v with
  | .rx _ _ => false
  | .fifo _ => true

/-- The drivers that start afresh when they are opened. -/
def clearsOnOpen : Bool :=
  match v with
  | .rx .uartfifo _ | .rx .devfifo _ => true
  | .rx .usbfifo _ | .fifo _ => false

end Device

/-! ### What the drivers do to the pending operations -/

section

variable {size : Nat} {v v' : Device} {cs : List Callback}

/-- A call leaves the pending operations alone, or completes one of them. -/
inductive Device.Completes (v v' : Device) (cs : List Callback) : Prop
  | none (hslot : v'.slot = v.slot) (hcs : cs = [])
  | one (read : Bool) (op n : Nat) (hslot : v.slot read = some op) (hslot' : v'.slot = update v.slot read none)
      (hn : 0 < n) (hcs : cs = [⟨op, some n⟩])

theorem slot_rx {d : Driver} {s s' : RxState} {op : Option Nat} (h : s'.rop = op) :
    (Device.rx d s').slot = update (Device.rx d s).slot true op := by
  ext1 read
  cases read with
  | true =>
    rw [update_self]
    exact h
  | false => rfl

theorem slot_rx_same {d : Driver} {s s' : RxState} (h : s'.rop = s.rop) :
    (Device.rx d s').slot = (Device.rx d s).slot := by
  rw [slot_rx h]
  exact update_eq_self true _

theorem slot_rx_none {d : Driver} {s : RxState} (h : s.rop = none) (read : Bool) :
    (Device.rx d s).slot read = none := by
  cases read with
  | true => exact h
  | false => rfl

theorem completes_rxDataReceived (d : Driver) (s : RxState) (bytes : List UInt8) :
    (Device.rx d s).Completes (.rx d (s.dataReceived size bytes false).1)
      ((s.dataReceived size bytes false).2.filterMap rxCallback) := by
  have hrop : (bytes.foldl (RxState.getbyte size) s).rop = s.rop := by
    induction bytes generalizing s with
    | nil => rfl
    | cons c bytes ih =>
      rw [List.foldl_cons, ih]
      unfold RxState.getbyte RxState.incHead
      dsimp only
      split_ifs <;> rfl
  unfold RxState.dataReceived
  dsimp only
  cases hpending : (bytes.foldl (RxState.getbyte size) s).rop with
  | none => exact .none (slot_rx_same hrop) rfl
  | some id =>
    dsimp only
    generalize readBuffer size _ _ = r
    by_cases hlength : r.2.length > 0
    · rw [if_pos hlength]
      exact .one true id _ (hrop.symm.trans hpending) (slot_rx rfl) hlength rfl
    · rw [if_neg hlength]
      exact .none (slot_rx_same (hpending.symm.trans hrop)) rfl

/-- A transfer is answered at once, which may let the other pending operation go on, or the operation is kept. -/
inductive Device.Transfers (v v' : Device) (read : Bool) (op : Nat) (cs : List Callback) (a : DriverAnswer) : Prop
  | answered (h : v.Completes v' cs)
  | kept (hslot : v.slot read = none) (hslot' : v'.slot = update v.slot read (some op)) (hcs : cs = [])
      (hret : a.ret = 0) (hnbyte : a.nbyte = 0)

theorem transfers_rxRead (d : Driver) (s : RxState) (op : DeviceTransfer) (pending : Except Errno Nat) (want : Int)
    (keeps : Bool) : (Device.rx d s).Transfers (.rx d (s.read size pending op).1) true op.id
      ((s.read size pending op).2.filterMap rxCallback)
      (Device.answer want keeps (rxRet (s.read size pending op).2)) := by
  unfold RxState.read
  by_cases hrop : s.rop.isSome = true
  · rw [if_pos hrop]
    exact .answered (.none rfl rfl)
  · rw [if_neg hrop]
    dsimp only
    generalize readBuffer size op.nbyte s.ring = r
    by_cases hlength : r.2.length = 0
    · rw [if_pos hlength]
      by_cases hnonblock : op.nonblock = true
      · rw [if_pos hnonblock]
        exact .answered (.none (slot_rx_same rfl) rfl)
      · rw [if_neg hnonblock]
        exact .kept (Option.not_isSome_iff_eq_none.mp hrop) (slot_rx rfl) rfl rfl rfl
    · rw [if_neg hlength]
      exact .answered (.none (slot_rx_same rfl) rfl)

theorem slot_fifo_rop {s s' : Fifo.FifoState} {op : Option Nat} (hrop : s'.rop = op) (hwop : s'.wop = s.wop) :
    (Device.fifo s').slot = update (Device.fifo s).slot true op := by
  ext1 read
  cases read with
  | true =>
    rw [update_self]
    exact hrop
  | false => exact congrArg (Option.map DeviceTransfer.id) hwop

theorem slot_fifo_wop {s s' : Fifo.FifoState} {op : Option DeviceTransfer} (hwop : s'.wop = op)
    (hrop : s'.rop = s.rop) :
    (Device.fifo s').slot = update (Device.fifo s).slot false (op.map DeviceTransfer.id) := by
  ext1 read
  cases read with
  | true => exact hrop
  | false =>
    rw [update_self]
    exact congrArg (Option.map DeviceTransfer.id) hwop

theorem slot_fifo_same {s s' : Fifo.FifoState} (hrop : s'.rop = s.rop) (hwop : s'.wop = s.wop) :
    (Device.fifo s').slot = (Device.fifo s).slot := by
  rw [slot_fifo_rop hrop hwop]
  exact update_eq_self true _

theorem completes_fifoDataReceived (s : Fifo.FifoState) :
    (Device.fifo s).Completes (.fifo (s.dataReceived size false).1)
      ((s.dataReceived size false).2.filterMap fifoCallback) := by
  unfold Fifo.FifoState.dataReceived
  cases hpending : s.rop with
  | none => exact .none rfl rfl
  | some id =>
    dsimp only
    generalize readBuffer size _ _ = r
    by_cases hlength : r.2.length > 0
    · rw [if_pos hlength]
      exact .one true id _ hpending (slot_fifo_rop rfl rfl) hlength rfl
    · rw [if_neg hlength]
      exact .none (slot_fifo_same hpending.symm rfl) rfl

theorem completes_dataTransmitted (s : Fifo.FifoState) :
    (Device.fifo s).Completes (.fifo (s.dataTransmitted size false).1)
      ((s.dataTransmitted size false).2.filterMap fifoCallback) := by
  unfold Fifo.FifoState.dataTransmitted
  cases hpending : s.wop with
  | none => exact .none rfl rfl
  | some wop =>
    dsimp only
    generalize Fifo.writeBuffer size _ _ _ = r
    by_cases hlength : r.2.length > 0
    · rw [if_pos hlength]
      exact .one false wop.id _ (congrArg (Option.map DeviceTransfer.id) hpending) (slot_fifo_wop rfl rfl) hlength rfl
    · rw [if_neg hlength]
      exact .none (slot_fifo_same rfl hpending.symm) rfl

/-- The operations are those of another state, and other events than callbacks are around. -/
theorem Device.Completes.congr {w w' : Device} {cs' : List Callback} (h : v.Completes v' cs) (hv : v.slot = w.slot)
    (hv' : v'.slot = w'.slot) (hcs : cs' = cs) : w.Completes w' cs' := by
  cases h with
  | none hslot hnil => exact .none (hv'.symm.trans (hslot.trans hv)) (hcs.trans hnil)
  | one read op n hslot hslot' hn hone =>
    exact .one read op n (hv ▸ hslot) (hv'.symm.trans (hv ▸ hslot')) hn (hcs.trans hone)

theorem filterMap_returned (es : List Fifo.Event) (ret : Except Errno Nat) :
    (es ++ [Fifo.Event.returned ret]).filterMap fifoCallback = es.filterMap fifoCallback := by
  rw [List.filterMap_append]
  exact List.append_nil _

theorem filterMap_between {e : Fifo.Event} (he : fifoCallback e = none) (es : List Fifo.Event)
    (ret : Except Errno Nat) :
    (e :: es ++ [Fifo.Event.returned ret]).filterMap fifoCallback = es.filterMap fifoCallback := by
  rw [filterMap_returned, List.filterMap_cons_none he]

theorem transfers_fifoRead (s : Fifo.FifoState) (op : DeviceTransfer) (want : Int) (keeps : Bool) :
    (Device.fifo s).Transfers (.fifo (s.fifoRead size op false).1) true op.id
      ((s.fifoRead size op false).2.filterMap fifoCallback)
      (Device.answer want keeps (fifoRet (s.fifoRead size op false).2)) := by
  unfold Fifo.FifoState.fifoRead
  by_cases hrop : s.rop.isSome = true
  · rw [if_pos hrop]
    exact .answered (.none rfl rfl)
  · rw [if_neg hrop]
    dsimp only
    generalize readBuffer size op.nbyte s.ring = r
    by_cases hlength : r.2.length = 0
    · rw [if_pos hlength]
      by_cases hnonblock : op.nonblock = true
      · rw [if_pos hnonblock]
        exact .answered (.none (slot_fifo_same rfl rfl) rfl)
      · rw [if_neg hnonblock]
        exact .kept (Option.not_isSome_iff_eq_none.mp hrop) (slot_fifo_rop rfl rfl) rfl rfl rfl
    · rw [if_neg hlength]
      have hwrite := @completes_dataTransmitted size { s with ropLen := op.nbyte, ring := r.1 }
      exact .answered (hwrite.congr (slot_fifo_same rfl rfl) rfl (filterMap_between rfl _ _))

theorem transfers_fifoWrite (s : Fifo.FifoState) (op : DeviceTransfer) (want : Int) (keeps : Bool) :
    (Device.fifo s).Transfers (.fifo (s.fifoWrite size op false).1) false op.id
      ((s.fifoWrite size op false).2.filterMap fifoCallback)
      (Device.answer want keeps (fifoRet (s.fifoWrite size op false).2)) := by
  unfold Fifo.FifoState.fifoWrite
  by_cases hwop : s.wop.isSome = true
  · rw [if_pos hwop]
    exact .answered (.none rfl rfl)
  · rw [if_neg hwop]
    have hnone : s.wop = none := Option.not_isSome_iff_eq_none.mp hwop
    dsimp only
    generalize Fifo.writeBuffer size _ _ _ = r
    by_cases hlength : r.2.length = 0
    · rw [if_pos hlength]
      by_cases hnonblock : op.nonblock = true
      · rw [if_pos hnonblock]
        exact .answered (.none (slot_fifo_same rfl rfl) rfl)
      · rw [if_neg hnonblock]
        exact .kept (congrArg (Option.map DeviceTransfer.id) hnone) (slot_fifo_wop rfl rfl) rfl rfl rfl
    · rw [if_neg hlength]
      have hread := @completes_fifoDataReceived size { s with wopLen := op.nbyte, ring := r.1 }
      exact .answered (hread.congr (slot_fifo_same rfl rfl) rfl (filterMap_between rfl _ _))

theorem transfers_transfer (read : Bool) (op : DeviceTransfer) (want : Int) (below : DriverAnswer) :
    v.Transfers (v.transfer size read op want below).1 read op.id (v.transfer size read op want below).2.1
      (v.transfer size read op want below).2.2 := by
  cases v with
  | rx d s =>
    cases read with
    | true => cases d <;> exact transfers_rxRead _ s op _ want _
    | false => exact .answered (.none rfl rfl)
  | fifo s =>
    cases read with
    | true => exact transfers_fifoRead s op want _
    | false => exact transfers_fifoWrite s op want _

theorem completes_dataReceived (bytes : List UInt8) :
    v.Completes (v.dataReceived size bytes).1 (v.dataReceived size bytes).2 := by
  cases v with
  | rx d s => exact completes_rxDataReceived d s bytes
  | fifo s => exact .none rfl rfl

theorem rx_cancel {s : RxState} (h : s.rop = none) : s.cancel false = (s, []) := by
  unfold RxState.cancel
  rw [h]

theorem completes_cancel {d : Driver} {s : RxState} (h : s.rop = none) :
    (Device.rx d s).Completes (.rx d (s.cancel false).1) ((s.cancel false).2.filterMap rxCallback) := by
  rw [rx_cancel h]
  exact .none rfl rfl

/-- The pending read is cancelled, if there is one. -/
theorem cancel_cases (d : Driver) (s : RxState) :
    ((Device.rx d (s.cancel false).1).slot = (Device.rx d s).slot ∧ (s.cancel false).2.filterMap rxCallback = [] ∧
        ∀ read, (Device.rx d s).slot read = none) ∨
      ∃ op, (Device.rx d s).slot true = some op ∧
        (Device.rx d (s.cancel false).1).slot = update (Device.rx d s).slot true none ∧
        (s.cancel false).2.filterMap rxCallback = [⟨op, none⟩] := by
  cases hrop : s.rop with
  | none =>
    rw [rx_cancel hrop]
    exact .inl ⟨rfl, rfl, slot_rx_none hrop⟩
  | some op =>
    have hcancel : s.cancel false = ({ s with rop := none }, [.cancelled op]) := by
      unfold RxState.cancel
      rw [hrop]
      rfl
    rw [hcancel]
    exact .inr ⟨op, hrop, slot_rx rfl, rfl⟩

/-- A request that is not to end pending operations completes one at most. -/
theorem completes_ioctl {request : DeviceRequest} (h : v.ends request = true → ∀ read, v.slot read = none) :
    v.Completes (v.ioctl size request).1 (v.ioctl size request).2 := by
  cases v with
  | rx d s =>
    cases request with
    | rx request =>
      have hnone : (Device.rx d s).ends (.rx request) = true → s.rop = none := fun hends => h hends true
      cases d with
      | uartfifo =>
        cases request with
        | setaction => exact completes_cancel (hnone rfl)
        | setattr ok => cases ok <;> exact .none (slot_rx_same rfl) rfl
        | _ => exact .none (slot_rx_same rfl) rfl
      | usbfifo =>
        cases request with
        | setaction => exact completes_cancel (hnone rfl)
        | flush => exact .none (slot_rx_same (hnone rfl).symm) rfl
        | setattr ok => exact .none (slot_rx_same (hnone rfl).symm) rfl
        | _ => exact .none (slot_rx_same rfl) rfl
      | devfifo => cases request <;> exact .none (slot_rx_same rfl) rfl
    | fifo request => exact .none rfl rfl
  | fifo s =>
    cases request with
    | rx request => exact .none rfl rfl
    | fifo request =>
      cases request with
      | getattr => exact .none rfl rfl
      | init =>
        have hrop : s.rop = none := h rfl true
        have hwop : s.wop = none := Option.map_eq_none_iff.mp (h rfl false)
        have hwrite := @completes_dataTransmitted size
          { s with rop := none, wop := none, ring := { s.ring with head := 0, tail := 0 } }
        exact hwrite.congr (slot_fifo_same hrop.symm hwop.symm) rfl (filterMap_between (e := .flushed) rfl _ _)
      | flush =>
        have hwrite := @completes_dataTransmitted size { s with ring := { s.ring with head := 0, tail := 0 } }
        exact hwrite.congr (slot_fifo_same rfl rfl) rfl (filterMap_between (e := .flushed) rfl _ _)
      | setwriteblock block =>
        cases block with
        | true => exact .none (slot_fifo_same rfl rfl) rfl
        | false =>
          have hwrite := @completes_dataTransmitted size { s with writeBlock := false }
          exact hwrite.congr (slot_fifo_same rfl rfl) rfl (filterMap_returned _ _)
      | other => exact .none rfl rfl

theorem completes_open (h : v.clearsOnOpen = true → ∀ read, v.slot read = none) :
    v.Completes (v.open size).1 (v.open size).2 := by
  cases v with
  | rx d s =>
    cases d with
    | uartfifo => exact .none (slot_rx_same (h rfl true).symm) rfl
    | usbfifo => exact .none rfl rfl
    | devfifo => exact .none (slot_rx_same (h rfl true).symm) rfl
  | fifo s => exact .none rfl rfl

/-- `unistd_clr_action` reaches the pending read, or nothing. -/
theorem clrAction_cases (v : Device) (size : Nat) :
    ((v.clrAction size).1.slot = v.slot ∧ (v.clrAction size).2 = [] ∧
        (v.cancels = true → ∀ read, v.slot read = none)) ∨
      v.cancels = true ∧ ∃ op, v.slot true = some op ∧ (v.clrAction size).1.slot = update v.slot true none ∧
        (v.clrAction size).2 = [⟨op, none⟩] := by
  cases v with
  | rx d s =>
    cases d with
    | devfifo => exact .inl ⟨rfl, rfl, Bool.noConfusion⟩
    | uartfifo =>
      rcases cancel_cases .uartfifo s with ⟨hsame, hcs, hnone⟩ | hcancelled
      · exact .inl ⟨hsame, hcs, fun _ => hnone⟩
      · exact .inr ⟨rfl, hcancelled⟩
    | usbfifo =>
      rcases cancel_cases .usbfifo s with ⟨hsame, hcs, hnone⟩ | hcancelled
      · exact .inl ⟨hsame, hcs, fun _ => hnone⟩
      · exact .inr ⟨rfl, hcancelled⟩
  | fifo s => exact .inl ⟨rfl, rfl, Bool.noConfusion⟩

/-- One pending operation is pending no more. -/
theorem slot_removed {v w : Device} {read read' : Bool} {op : Nat} (h : w.slot = update v.slot read none) :
    w.slot read' = some op ↔ read' ≠ read ∧ v.slot read' = some op := by
  rw [h]
  by_cases hsame : read' = read
  · rw [hsame, update_self]
    exact iff_of_false (fun hno => nomatch hno) fun hno => hno.1 rfl
  · rw [update_of_ne hsame]
    exact ⟨fun hslot => ⟨hsame, hslot⟩, fun hslot => hslot.2⟩

/-- One more operation is pending. -/
theorem slot_added {v w : Device} {read read' : Bool} {op op' : Nat} (hslot : v.slot read = none)
    (h : w.slot = update v.slot read (some op')) :
    w.slot read' = some op ↔ (read' = read ∧ op = op') ∨ v.slot read' = some op := by
  rw [h]
  by_cases hsame : read' = read
  · rw [hsame, update_self, hslot, Option.some_inj]
    exact ⟨fun heq => .inl ⟨rfl, heq.symm⟩, fun hor => hor.elim (fun heq => heq.2.symm) fun hno => nomatch hno⟩
  · rw [update_of_ne hsame]
    exact ⟨.inr, fun hor => hor.resolve_left fun heq => hsame heq.1⟩

/-- Only the fifo keeps writes. -/
theorem isFifo_of_slot {v : Device} {op : Nat} (h : v.slot false = some op) : v.isFifo = true := by
  cases v with
  | rx d s => exact nomatch h
  | fifo s => rfl

/-! A call does not turn one driver into another. -/

theorem isFifo_transfer (read : Bool) (op : DeviceTransfer) (want : Int) (below : DriverAnswer) :
    (v.transfer size read op want below).1.isFifo = v.isFifo := by
  cases v <;> cases read <;> rfl

theorem isFifo_dataReceived (bytes : List UInt8) : (v.dataReceived size bytes).1.isFifo = v.isFifo := by
  cases v <;> rfl

theorem isFifo_ioctl (request : DeviceRequest) : (v.ioctl size request).1.isFifo = v.isFifo := by
  cases v <;> cases request <;> rfl

theorem isFifo_open : (v.open size).1.isFifo = v.isFifo := by
  cases v <;> rfl

theorem isFifo_clrAction : (v.clrAction size).1.isFifo = v.isFifo := by
  cases v <;> rfl

end

end Unistd

end CoActionOS
