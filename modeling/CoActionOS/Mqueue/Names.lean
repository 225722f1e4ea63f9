import CoActionOS.Lib.CString
import CoActionOS.Lib.NameTable
import CoActionOS.Mqueue.Order

/-!
# Message queues by name

The list of `mqueue.c` and the calls that work on it.  An entry without a table of messages is free and is used again.
A descriptor is a place in the list with the flags in the low bits of its address.

`Channels` is what the list is for: bounded stable priority queues by their names, with the descriptors that are out.
-/

namespace CoActionOS

namespace Mqueue

open CString (text)
open NameTable

/-! ### The code -/

/-- `NAME_MAX` -/
def nameMax : Nat := 24

/-- `mq_t`.  There is a queue while `msg_table` is not null; the sizes that are left in an entry without one are set
before they are read. -/
structure MqT where
  refs : Int
  mode : UInt32
  name : Vector UInt8 nameMax
  unlinkOnClose : Int
  queue : Option Mq

structure OFlag where
  creat : Bool
  excl : Bool
  nonblock : Bool
  wronly : Bool
  rdwr : Bool
  deriving DecidableEq, Repr

structure Mqdes where
  mq : Nat
  flags : MqFlags
  deriving DecidableEq, Repr

/-- What `mq_getattr` stores. -/
structure MqStat where
  mqMaxmsg : Nat
  mqMsgsize : Nat
  mqCurmsgs : Nat
  mqFlags : MqFlags
  deriving DecidableEq, Repr

/-- `strcpy(entry, name)` -/
def copyName (entry : Vector UInt8 nameMax) (name : List UInt8) : Vector UInt8 nameMax :=
  Vector.ofFn fun i => if i.val < name.length + 1 then (name[i.val]?).getD 0 else entry[i]

/-- `mq_find_named` -/
def mqFindNamed (list : List MqT) (name : List UInt8) : Option Nat :=
  list.findIdx? fun mq => mq.queue.isSome && CString.strncmpEq nameMax mq.name.toList (name ++ [0])

/-- `mq_find_free`; `memory` is what `_malloc_r` gives for a new entry. -/
def mqFindFree (list : List MqT) (memory : Option MqT) : Option (List MqT × Nat) :=
  match list.findIdx? fun mq => mq.queue.isNone with
  | some mq => some (list, mq)
  | none => memory.map fun entry => (list ++ [entry], list.length)

/-- What `mq_open` makes of a free entry, which stays free when there is no memory for the table. -/
def MqT.opened (new : MqT) (name : List UInt8) (mode : UInt32) (attr : MqAttr) (allocated : Bool) : MqT :=
  { refs := 1
    mode
    name := copyName new.name name
    unlinkOnClose := 0
    queue := (mqOpenNew attr allocated).toOption }

/-- `mq_open` -/
def mqOpen (list : List MqT) (name : List UInt8) (oflag : OFlag) (mode : UInt32) (attr : MqAttr)
    (memory : Option MqT) (allocated : Bool) : List MqT × Except Errno Mqdes :=
  if min name.length nameMax = nameMax then (list, .error .enametoolong)
  else
    let flags : MqFlags := ⟨oflag.wronly || oflag.rdwr, oflag.nonblock⟩
    -- "Check the flags to determine the appropriate action"
    match mqFindNamed list name with
    | none =>
      if oflag.creat then
        if attr.mqMaxmsg ≤ 0 ∨ attr.mqMsgsize ≤ 0 then (list, .error .einval)
        else
          match mqFindFree list memory with
          | none => (list, .error .enomem)
          | some (list, mq) =>
            (list.modify mq fun new => new.opened name mode attr allocated,
              (mqOpenNew attr allocated).map fun _ => ⟨mq, flags⟩)
      else (list, .error .enoent)
    | some mq =>
      if oflag.creat && oflag.excl then (list, .error .eexist)
      else (list.modify mq fun new => { new with refs := new.refs + 1 }, .ok ⟨mq, flags⟩)

/-- What `mq_close` makes of an entry. -/
def MqT.closed (mq : MqT) : MqT :=
  let mq := if mq.refs > 0 then { mq with refs := mq.refs - 1 } else mq
  if mq.refs = 0 ∧ mq.unlinkOnClose = 1 then { mq with queue := none } else mq

/-- `mq_close`; no descriptor is the descriptor `-1`. -/
def mqClose (list : List MqT) (mqdes : Option Mqdes) : List MqT × Except Errno Unit :=
  match mqdes with
  | none => (list, .error .ebadf)
  | some mqdes => (list.modify mqdes.mq MqT.closed, .ok ())

/-- What `mq_unlink` makes of an entry. -/
def MqT.unlinked (mq : MqT) : MqT :=
  if mq.refs = 0 then { mq with queue := none } else { mq with unlinkOnClose := 1 }

/-- `mq_unlink` -/
def mqUnlink (list : List MqT) (name : List UInt8) : List MqT × Except Errno Unit :=
  if min name.length nameMax = nameMax then (list, .error .enametoolong)
  else
    match mqFindNamed list name with
    | none => (list, .error .enoent)
    | some mq => (list.modify mq MqT.unlinked, .ok ())

/-- The queue at a place of the list; elsewhere a descriptor stands for `NULL`. -/
def queueAt (list : List MqT) (mq : Nat) : Option Mq := list[mq]?.bind MqT.queue

/-- `mq_getattr` -/
def mqGetattr (list : List MqT) (mqdes : Mqdes) : Except Errno MqStat :=
  match queueAt list mqdes.mq with
  | none => .error .ebadf
  | some mq => .ok ⟨mq.maxMsgs, mq.maxSize, mq.curMsgs, mqdes.flags⟩

/-- A call on the queue of a descriptor. -/
def onQueue (list : List MqT) (mqdes : Option Mqdes) (call : Mqd → Mq → Mq × Reply) : List MqT × Reply :=
  match mqdes with
  | none => (list, .failed (some .ebadf))
  | some mqdes =>
    match queueAt list mqdes.mq with
    | none => (list, .failed none)
    | some mq =>
      let p := call (some mqdes.flags) mq
      (list.modify mqdes.mq fun entry => { entry with queue := some p.1 }, p.2)

namespace Names

/-! ### Calls -/

inductive Call
  | open (name : List UInt8) (oflag : OFlag) (mode : UInt32) (attr : MqAttr) (memory : Option MqT) (allocated : Bool)
  | close (mqdes : Option Mqdes)
  | unlink (name : List UInt8)
  | getattr (mqdes : Mqdes)
  | send (mqdes : Option Mqdes) (msg : List UInt8) (msgPrio : UInt32)
  | receive (mqdes : Option Mqdes) (msgLen : Nat)

inductive Answer
  | opened (mqdes : Mqdes)
  | stat (mqstat : MqStat)
  | done
  | failed (errno : Errno)
  | reply (reply : Reply)
  deriving DecidableEq, Repr

def Answer.of {α : Type} (f : α → Answer) : Except Errno α → Answer
  | .ok a => f a
  | .error errno => .failed errno

/-- A call up to its end or to its first sleep; a thread that is woken makes the call again. -/
def exec (list : List MqT) : Call → List MqT × Answer
  | .open name oflag mode attr memory allocated =>
    (mqOpen list name oflag mode attr memory allocated).map id (.of .opened)
  | .close mqdes => (mqClose list mqdes).map id (.of fun _ => .done)
  | .unlink name => (mqUnlink list name).map id (.of fun _ => .done)
  | .getattr mqdes => (list, .of .stat (mqGetattr list mqdes))
  | .send mqdes msg msgPrio => (onQueue list mqdes fun mqd mq => mqTimedsend mqd mq msg msgPrio).map id .reply
  | .receive mqdes msgLen => (onQueue list mqdes fun mqd mq => mqTimedreceive mqd mq msgLen).map id .reply

/-! ### Queues by name -/

structure Channel where
  maxSize : Nat
  queue : Queue
  deriving DecidableEq, Repr

/-- A message or room for one has to be waited for. -/
def waits (flags : MqFlags) : Reply := if flags.nonblock then .failed (some .eagain) else .blocked

namespace Channel

variable (c : Channel)

def send (flags : MqFlags) (msg : List UInt8) (msgPrio : UInt32) : Channel × Reply :=
  if flags.rdwr then
    if c.maxSize < msg.length then (c, .failed (some .emsgsize))
    else if c.queue.stored.length < c.queue.capacity then
      ({ c with queue := (c.queue.apply (.send msg msgPrio)).1 }, .sent msg.length)
    else (c, waits flags)
  else (c, .failed (some .eacces))

def receive (flags : MqFlags) (msgLen : Nat) : Channel × Reply :=
  match c.queue.due with
  | none => (c, waits flags)
  | some (m, rest) =>
    if msgLen < m.msg.length then (c, .failed (some .emsgsize))
    else ({ c with queue := { c.queue with stored := rest } }, .received m.msg m.msgPrio)

/-- Message sizes are rounded down to words. -/
def new (attr : MqAttr) : Channel :=
  ⟨attr.mqMsgsize.toNat - attr.mqMsgsize.toNat % 4, ⟨attr.mqMaxmsg.toNat, 0, []⟩⟩

def stat (flags : MqFlags) : MqStat := ⟨c.queue.capacity, c.maxSize, c.queue.stored.length, flags⟩

end Channel

/-- The queues there are by their names, and the descriptors that are out by their places. -/
abbrev Channels := Account (List UInt8) Channel

namespace Channels

variable (a : Channels)

/-- The queue that a descriptor was opened for. -/
def object (mq : Nat) : Option (Object (List UInt8) Channel) := (a.held.nameOf mq).bind a.objects

/-- A name ends in front of a zero, a descriptor is one that is out or `-1`.  What is sent has a byte at least and a
priority up to `MQ_PRIO_MAX`, and the running age of the queue that is received from has not wrapped. -/
def Permits : Call → Prop
  | .open name _ _ _ _ _ | .unlink name => 0 ∉ name
  | .close (some mqdes) | .getattr mqdes => ∃ name, (mqdes.mq, name) ∈ a.held
  | .send (some mqdes) msg msgPrio =>
    (∃ name, (mqdes.mq, name) ∈ a.held) ∧ 1 ≤ msg.length ∧ msgPrio.toNat < 2 ^ 31
  | .receive (some mqdes) _ =>
    (∃ name, (mqdes.mq, name) ∈ a.held) ∧ ∀ o, a.object mqdes.mq = some o → o.value.queue.sent ≤ 2 ^ 31
  | .close none | .send none _ _ | .receive none _ => True

/-- What a call answers. -/
def Expects : Call → Answer → Prop
  | .open name oflag _ attr memory allocated, r =>
    if nameMax ≤ name.length then r = .failed .enametoolong
    else
      match a.objects name with
      | some _ =>
        if oflag.creat = true ∧ oflag.excl = true then r = .failed .eexist
        else
          ∃ mq, r = .opened ⟨mq, ⟨oflag.wronly || oflag.rdwr, oflag.nonblock⟩⟩ ∧
            ∀ j m, (j, m) ∈ a.held → (j = mq ↔ m = name)
      | none =>
        if oflag.creat = true then
          if attr.mqMaxmsg ≤ 0 ∨ attr.mqMsgsize ≤ 0 then r = .failed .einval
          else
            (allocated = true ∧ ∃ mq, r = .opened ⟨mq, ⟨oflag.wronly || oflag.rdwr, oflag.nonblock⟩⟩ ∧
              ∀ j m, (j, m) ∈ a.held → j ≠ mq) ∨
            ((memory.isNone = true ∨ allocated = false) ∧ r = .failed .enomem)
        else r = .failed .enoent
  | .unlink name, r =>
    r = if nameMax ≤ name.length then .failed .enametoolong
      else if (a.objects name).isSome then .done else .failed .enoent
  | .close none, r => r = .failed .ebadf
  | .close (some _), r => r = .done
  | .getattr mqdes, r => ∃ o, a.object mqdes.mq = some o ∧ r = .stat (o.value.stat mqdes.flags)
  | .send none _ _, r | .receive none _, r => r = .reply (.failed (some .ebadf))
  | .send (some mqdes) msg msgPrio, r =>
    ∃ o, a.object mqdes.mq = some o ∧ r = .reply (o.value.send mqdes.flags msg msgPrio).2
  | .receive (some mqdes) msgLen, r =>
    ∃ o, a.object mqdes.mq = some o ∧ r = .reply (o.value.receive mqdes.flags msgLen).2

/-- Another value for the queue of a descriptor. -/
def setValue (mq : Nat) (f : Channel → Channel) : Channels :=
  match a.object mq with
  | some o => a.put o.name (some { o with value := f o.value }) a.held
  | none => a

/-- What is known after a call. -/
def next : Call → Answer → Channels
  | .open name _ _ attr _ _, .opened mqdes =>
    let held := (mqdes.mq, name) :: a.held
    match a.objects name with
    | some o => a.put name (some { o with holders := o.holders + 1 }) held
    | none => a.put name (some ⟨name, 1, false, .new attr⟩) held
  | .unlink name, .done =>
    match a.objects name with
    | some o => a.put name (if o.holders = 0 then none else some { o with doomed := true }) a.held
    | none => a
  | .close (some mqdes), .done =>
    match a.object mqdes.mq with
    | some o => a.put o.name o.released (a.held.without mqdes.mq o.name)
    | none => a
  | .send (some mqdes) msg msgPrio, _ => a.setValue mqdes.mq fun c => (c.send mqdes.flags msg msgPrio).1
  | .receive (some mqdes) msgLen, _ => a.setValue mqdes.mq fun c => (c.receive mqdes.flags msgLen).1
  | _, _ => a

end Channels

/-- Calls as they are permitted, and the answers that are expected. -/
def Faithful : Channels → List MqT → List Call → Prop
  | _, _, [] => True
  | a, list, c :: cs =>
    a.Permits c → a.Expects c (exec list c).2 ∧ Faithful (a.next c (exec list c).2) (exec list c).1 cs

end Names

end Mqueue

end CoActionOS
