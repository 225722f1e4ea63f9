import CoActionOS.Errno
import Mathlib.Algebra.Group.Int.Defs
import Mathlib.Algebra.Group.Nat.Defs
import Mathlib.Data.List.Basic
import Mathlib.Logic.Function.Basic
import Mathlib.Tactic.SplitIfs

/-!
# Message queues

The table of messages of `mqueue.c` and the two privileged calls that claim and release its entries.  The
fields of an entry other than its size are read and written outside these calls, by the functions that
follow them here one statement each.

`prio` and `age` are `int`s while the caller's priority is unsigned: what an `int` holds after a conversion
from `unsigned` or a running count is `intOf` of the value.
-/

namespace CoActionOS

namespace Mqueue

open Function

/-- `INT_MAX`, which is also `MQ_PRIO_MAX` -/
def intMax : Int := 2 ^ 31 - 1

/-- The `int` with the low 32 bits of `n`. -/
def intOf (n : Nat) : Int :=
  if n % 2 ^ 32 < 2 ^ 31 then ((n % 2 ^ 32 : Nat) : Int) else ((n % 2 ^ 32 : Nat) : Int) - 2 ^ 32

/-- The `unsigned` with the bits of an `int`. -/
def unsignedOf (i : Int) : UInt32 := UInt32.ofNat (i % 2 ^ 32).toNat

/-- An entry of the table: `struct message` and the bytes behind it.  An entry of size zero is free. -/
structure Message where
  prio : Int
  size : Nat
  age : Int
  data : List UInt8
  deriving DecidableEq, Repr

structure Mq where
  maxSize : Nat
  maxMsgs : Nat
  curMsgs : Nat
  /-- the running age of the messages -/
  age : Int
  msgTable : Nat → Message

structure MqAttr where
  mqMaxmsg : Int
  mqMsgsize : Int
  deriving DecidableEq, Repr

/-- The flags in a descriptor; the descriptor `-1` is `none`. -/
structure MqFlags where
  rdwr : Bool
  nonblock : Bool
  deriving DecidableEq, Repr

abbrev Mqd : Type := Option MqFlags

/-- What the privileged calls leave in `priv_send_receive_t`, with `errno` where they set it. -/
structure SendReceive where
  size : Int
  newMsg : Nat
  errno : Option Errno
  deriving DecidableEq, Repr

namespace Mq

variable (mq : Mq)

def setEntry (i : Nat) (m : Message) : Mq := { mq with msgTable := update mq.msgTable i m }

/-- The entry is taken for a message of this length. -/
def claim (i msgLen : Nat) : Mq :=
  { mq.setEntry i { mq.msgTable i with size := msgLen } with curMsgs := mq.curMsgs + 1 }

/-- "Mark message as received in the table" -/
def release (i : Nat) : Mq :=
  { mq.setEntry i { mq.msgTable i with size := 0 } with curMsgs := mq.curMsgs - 1 }

/-- The entries the loops visit. -/
def entries : List Nat := List.range mq.maxMsgs

end Mq

/-- The part of `mq_open` that makes a new queue.  `allocated` says whether there was memory for the table,
which `calloc` clears. -/
def mqOpenNew (attr : MqAttr) (allocated : Bool) : Except Errno Mq :=
  if attr.mqMaxmsg ≤ 0 ∨ attr.mqMsgsize ≤ 0 then .error .einval
  else
    let maxSize := attr.mqMsgsize.toNat - attr.mqMsgsize.toNat % 4
    if allocated then
      .ok
        { maxSize := maxSize
          maxMsgs := attr.mqMaxmsg.toNat
          curMsgs := 0
          age := 0
          msgTable := fun _ => ⟨0, 0, 0, List.replicate maxSize 0⟩ }
    else .error .enomem

/-! ### Receiving -/

/-- `max_prio`, `max_age` and `current` of `priv_receive`. -/
structure Best where
  maxPrio : Int
  maxAge : Int
  current : Option Nat
  deriving DecidableEq, Repr

/-- The body of the loop of `priv_receive` on entry `i`. -/
def Best.visit (b : Best) (i : Nat) (m : Message) : Best :=
  if m.size ≠ 0 then
    if m.prio > b.maxPrio then ⟨m.prio, m.age, some i⟩
    else if m.prio = b.maxPrio then if m.age < b.maxAge then ⟨m.prio, m.age, some i⟩ else b
    else b
  else b

/-- The oldest message of the highest priority as `priv_receive` finds it. -/
def Mq.best (mq : Mq) : Best :=
  mq.entries.foldl (fun b i => b.visit i (mq.msgTable i)) ⟨-1, intMax, none⟩

def privReceive (mq : Mq) (msgLen : Nat) : Mq × SendReceive :=
  if mq.curMsgs ≠ 0 then
    match mq.best.current with
    | some i =>
      let m := mq.msgTable i
      if msgLen < m.size then (mq, ⟨-1, i, some .emsgsize⟩)
      else (mq.release i, ⟨m.size, i, none⟩)
    | none => (mq, ⟨-1, mq.maxMsgs, some .eio⟩)
  else (mq, ⟨0, 0, none⟩)

/-! ### Sending -/

/-- "Find an open spot" -/
def Mq.firstFree (mq : Mq) : Option Nat := mq.entries.find? fun i => (mq.msgTable i).size = 0

/-- `p->size` is the length of the message, so a message of no bytes counts and is not sent. -/
def privSend (mq : Mq) (msgLen : Nat) : Mq × SendReceive :=
  if mq.curMsgs < mq.maxMsgs then
    match mq.firstFree with
    | some i => (mq.claim i msgLen, ⟨msgLen, i, none⟩)
    | none => (mq, ⟨0, mq.maxMsgs, none⟩)
  else (mq, ⟨0, 0, none⟩)

/-- `memcpy` of the message into the entry -/
def Mq.copyIn (mq : Mq) (i : Nat) (msg : List UInt8) : Mq :=
  mq.setEntry i { mq.msgTable i with data := msg ++ (mq.msgTable i).data.drop msg.length }

/-- `args.new_msg->prio = msg_prio` -/
def Mq.setPrio (mq : Mq) (i : Nat) (msgPrio : UInt32) : Mq :=
  mq.setEntry i { mq.msgTable i with prio := intOf msgPrio.toNat }

/-- `args.new_msg->age = args.mq->age++`; the running age wraps -/
def Mq.setAge (mq : Mq) (i : Nat) : Mq :=
  { mq.setEntry i { mq.msgTable i with age := mq.age } with age := intOf ((mq.age + 1) % 2 ^ 32).toNat }

/-! ### What the privileged calls do -/

/-- What is found is what was found before or the entry that is visited. -/
theorem visit_cases (b : Best) (i : Nat) (m : Message) :
    b.visit i m = b ∨ m.size ≠ 0 ∧ b.visit i m = ⟨m.prio, m.age, some i⟩ := by
  unfold Best.visit
  split_ifs with hsize
  · exact .inr ⟨hsize, rfl⟩
  · exact .inr ⟨hsize, rfl⟩
  · exact .inl rfl
  · exact .inl rfl
  · exact .inl rfl

/-- Only an entry that is not free is found. -/
theorem best_spec {mq : Mq} {i : Nat} (h : mq.best.current = some i) :
    i < mq.maxMsgs ∧ (mq.msgTable i).size ≠ 0 := by
  have hfold : ∀ (l : List Nat) (b : Best), (∀ j, b.current = some j → j < mq.maxMsgs ∧ (mq.msgTable j).size ≠ 0) →
      (∀ j ∈ l, j < mq.maxMsgs) →
      ∀ j, (l.foldl (fun (b : Best) i => b.visit i (mq.msgTable i)) b).current = some j →
        j < mq.maxMsgs ∧ (mq.msgTable j).size ≠ 0 := by
    intro l
    induction l with
    | nil => exact fun b hb _ => hb
    | cons k l ih =>
      intro b hb hl
      rw [List.foldl_cons]
      apply ih _ _ fun j hj => hl j (List.mem_cons_of_mem _ hj)
      rcases visit_cases b k (mq.msgTable k) with hv | ⟨hsize, hv⟩
      · rw [hv]
        exact hb
      · rw [hv]
        intro j hj
        obtain rfl := Option.some.inj hj
        exact ⟨hl k List.mem_cons_self, hsize⟩
  exact hfold mq.entries _ (fun _ hj => by cases hj) (fun _ hj => List.mem_range.mp hj) i h

theorem firstFree_spec {mq : Mq} {i : Nat} (h : mq.firstFree = some i) :
    i < mq.maxMsgs ∧ (mq.msgTable i).size = 0 :=
  ⟨List.mem_range.mp (List.mem_of_find?_eq_some h), by simpa using List.find?_some h⟩

/-- `priv_receive` releases the entry it has found or leaves the queue alone. -/
theorem privReceive_cases (mq : Mq) (msgLen : Nat) :
    (∃ i, mq.curMsgs ≠ 0 ∧ mq.best.current = some i ∧ (mq.msgTable i).size ≤ msgLen ∧
      privReceive mq msgLen = (mq.release i, ⟨(mq.msgTable i).size, i, none⟩)) ∨
    ∃ args, args.size ≤ 0 ∧ privReceive mq msgLen = (mq, args) := by
  unfold privReceive
  split_ifs with hcur
  · cases hbest : mq.best.current with
    | none => exact .inr ⟨_, show (-1 : Int) ≤ 0 by decide, rfl⟩
    | some i =>
      dsimp only
      split_ifs with hlen
      · exact .inr ⟨_, show (-1 : Int) ≤ 0 by decide, rfl⟩
      · exact .inl ⟨i, hcur, rfl, Nat.le_of_not_lt hlen, rfl⟩
  · exact .inr ⟨_, Int.le_refl 0, rfl⟩

/-- `priv_send` claims the first free entry or leaves the queue alone. -/
theorem privSend_cases (mq : Mq) (msgLen : Nat) :
    (∃ i, mq.curMsgs < mq.maxMsgs ∧ mq.firstFree = some i ∧
      privSend mq msgLen = (mq.claim i msgLen, ⟨msgLen, i, none⟩)) ∨
    ∃ args, args.size = 0 ∧ privSend mq msgLen = (mq, args) := by
  unfold privSend
  split_ifs with hroom
  · cases hfree : mq.firstFree with
    | none => exact .inr ⟨_, rfl, rfl⟩
    | some i => exact .inl ⟨i, hroom, rfl, rfl⟩
  · exact .inr ⟨_, rfl, rfl⟩

/-! ### The calls -/

/-- How a call ends, or that it goes to sleep in `block_on_mq`. -/
inductive Reply
  | sent (size : Nat)
  | received (msg : List UInt8) (msgPrio : UInt32)
  | failed (errno : Option Errno)
  | blocked
  deriving DecidableEq, Repr

/-- `mq_timedsend` up to its end or its first sleep -/
def mqTimedsend (mqdes : Mqd) (mq : Mq) (msg : List UInt8) (msgPrio : UInt32) : Mq × Reply :=
  match mqdes with
  | none => (mq, .failed (some .ebadf))
  | some flags =>
    if flags.rdwr then
      if mq.maxSize < msg.length then (mq, .failed (some .emsgsize))
      else
        let (mq', args) := privSend mq msg.length
        if args.size > 0 then
          (((mq'.copyIn args.newMsg msg).setPrio args.newMsg msgPrio).setAge args.newMsg,
            .sent args.size.toNat)
        else if flags.nonblock then (mq', .failed (some .eagain))
        else (mq', .blocked)
    else (mq, .failed (some .eacces))

/-- `mq_timedreceive` up to its end or its first sleep -/
def mqTimedreceive (mqdes : Mqd) (mq : Mq) (msgLen : Nat) : Mq × Reply :=
  match mqdes with
  | none => (mq, .failed (some .ebadf))
  | some flags =>
    let (mq', args) := privReceive mq msgLen
    if args.size > 0 then
      (mq', .received ((mq'.msgTable args.newMsg).data.take args.size.toNat)
        (unsignedOf (mq'.msgTable args.newMsg).prio))
    else if args.size < 0 then (mq', .failed args.errno)
    else if flags.nonblock then (mq', .failed (some .eagain))
    else (mq', .blocked)

end Mqueue

end CoActionOS
