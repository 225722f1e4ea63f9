import CoActionOS.Lib.Run
import CoActionOS.Mqueue.Basic
import CoActionOS.Sched.Calls

/-!
# A queue shared by threads

`mq_timedsend` and `mq_timedreceive` of several threads on one queue, cut at every point where a call touches
shared data: the privileged calls, each byte that is copied, each field that is read or written, and each row
of the scan for a blocked task, which runs in user mode.

Everything the rest of the system does to the scheduler tables (the timer, signals, other objects) is one
action, `env`, that leaves the number of tasks as it is.

`serial` and `owner` number the messages as their entries are claimed; no statement of the source reads them.
-/

namespace CoActionOS

namespace Mqueue

open Function

structure SendCall where
  flags : MqFlags
  msg : List UInt8
  msgPrio : UInt32
  absTimeout : Option Timespec
  deriving DecidableEq, Repr

/-- `wantPrio`: the pointer `msg_prio` is not null. -/
structure ReceiveCall where
  flags : MqFlags
  msgLen : Nat
  wantPrio : Bool
  absTimeout : Option Timespec
  deriving DecidableEq, Repr

inductive MqCall
  | send (c : SendCall)
  | receive (c : ReceiveCall)
  deriving DecidableEq, Repr

namespace MqCall

def nonblock : MqCall → Bool
  | send c => c.flags.nonblock
  | receive c => c.flags.nonblock

def absTimeout : MqCall → Option Timespec
  | send c => c.absTimeout
  | receive c => c.absTimeout

end MqCall

/-- How a call is going to end. -/
inductive Result
  | sent (id size : Nat)
  | received (id : Nat) (msg : List UInt8) (msgPrio : Option UInt32)
  | failed (errno : Option Errno)
  deriving DecidableEq, Repr

/-- How far a thread has come in a call.  `i` is the entry and `id` the number of its message. -/
inductive Pc
  | idle
  /-- before the privileged call; `again` after it was blocked -/
  | test (c : MqCall) (again : Bool)
  /-- `k` bytes are in the entry -/
  | copyIn (c : SendCall) (i id k : Nat)
  | setPrio (c : SendCall) (i id : Nat)
  /-- before `args.mq->age++` -/
  | readAge (c : SendCall) (i id : Nat)
  | incAge (c : SendCall) (i id : Nat) (age : Int)
  | setAge (c : SendCall) (i id : Nat) (age : Int)
  | getPrio (i id size : Nat)
  /-- `msg` is in the caller's buffer -/
  | copyOut (i id size : Nat) (msgPrio : Option UInt32) (msg : List UInt8)
  /-- before the privileged call that blocks the thread -/
  | block (c : MqCall)
  /-- in the privileged call until the thread is active again -/
  | asleep (c : MqCall)
  /-- `check_for_blocked_task`: about to look at row `n` -/
  | scan (r : Result) (n : Nat) (priority : Int) (newThread : Option Nat)
  /-- before the privileged call that wakes the thread -/
  | wake (r : Result) (newThread : Nat)
  | done (r : Result)
  deriving DecidableEq, Repr

structure System where
  /-- the address of the queue -/
  address : Nat
  mq : Mq
  sched : Sched
  pc : Nat → Pc
  serial : Nat
  owner : Nat → Nat

inductive Event
  /-- message `id` has got its entry -/
  | claimed (id t : Nat) (msg : List UInt8) (msgPrio : UInt32)
  | returned (t : Nat) (r : Result)
  deriving DecidableEq, Repr

inductive Action
  | call (t : Nat) (c : MqCall)
  /-- thread `t` executes its next statement; the timer reads `now` -/
  | exec (t now : Nat)
  | env (sched : Sched)

/-- The body of the loop of `sched_get_highest_priority_blocked` on row `i`. -/
def visitBlocked (table : Nat → SchedTask) (blockObject i : Nat) (best : Int × Option Nat) :
    Int × Option Nat :=
  if (table i).enabled ∧ (table i).blockObject = blockObject ∧ ¬ (table i).active ∧
      (table i).attrPriority > best.1 then
    ((table i).attrPriority, some i)
  else best

namespace System

variable (s : System)

def setPc (t : Nat) (pc : Pc) : System := { s with pc := update s.pc t pc }

/-- The start of a scan for a blocked task. -/
def startScan (r : Result) : Pc := .scan r 1 (schedLowestPriority - 1) none

/-- The first `errno` of a call, before it looks at the queue. -/
def refusal : MqCall → Option Errno
  | .send c =>
    if c.flags.rdwr then if s.mq.maxSize < c.msg.length then some .emsgsize else none else some .eacces
  | .receive _ => none

def stepTest (t : Nat) : MqCall → System × Option Event
  | .send c =>
    let (mq, args) := privSend s.mq c.msg.length
    if args.size > 0 then
      ({ s with
          mq := mq
          serial := s.serial + 1
          owner := update s.owner args.newMsg s.serial
          pc := update s.pc t (.copyIn c args.newMsg s.serial 0) },
        some (.claimed s.serial t c.msg c.msgPrio))
    else if c.flags.nonblock then ({ s with mq := mq }.setPc t (.done (.failed (some .eagain))), none)
    else ({ s with mq := mq }.setPc t (.block (.send c)), none)
  | .receive c =>
    let (mq, args) := privReceive s.mq c.msgLen
    let s' := { s with mq := mq }
    if args.size > 0 then
      let id := s.owner args.newMsg
      if c.wantPrio then (s'.setPc t (.getPrio args.newMsg id args.size.toNat), none)
      else (s'.setPc t (.copyOut args.newMsg id args.size.toNat none []), none)
    else if args.size < 0 then (s'.setPc t (.done (.failed args.errno)), none)
    else if c.flags.nonblock then (s'.setPc t (.done (.failed (some .eagain))), none)
    else (s'.setPc t (.block (.receive c)), none)

/-- One byte of `memcpy` to the entry. -/
def stepCopyIn (t : Nat) (c : SendCall) (i id k : Nat) : System :=
  let m := s.mq.msgTable i
  let mq := s.mq.setEntry i { m with data := m.data.set k (c.msg.getD k 0) }
  { s with mq := mq }.setPc t
    (if k + 1 < c.msg.length then .copyIn c i id (k + 1) else .setPrio c i id)

/-- One byte of `memcpy` from the entry. -/
def stepCopyOut (t i id size : Nat) (msgPrio : Option UInt32) (msg : List UInt8) : System :=
  let msg' := msg ++ [(s.mq.msgTable i).data.getD msg.length 0]
  s.setPc t
    (if msg'.length < size then .copyOut i id size msgPrio msg' else startScan (.received id msg' msgPrio))

def stepExec (t now : Nat) : System × Option Event :=
  match s.pc t with
  | .idle => (s, none)
  | .test c _ => s.stepTest t c
  | .copyIn c i id k => (s.stepCopyIn t c i id k, none)
  | .setPrio c i id => ({ s with mq := s.mq.setPrio i c.msgPrio }.setPc t (.readAge c i id), none)
  | .readAge c i id => (s.setPc t (.incAge c i id s.mq.age), none)
  | .incAge c i id age =>
    ({ s with mq.age := intOf ((age + 1) % 2 ^ 32).toNat }.setPc t (.setAge c i id age), none)
  | .setAge c i id age =>
    ({ s with mq := s.mq.setEntry i { s.mq.msgTable i with age := age } }.setPc t
      (startScan (.sent id c.msg.length)), none)
  | .getPrio i id size =>
    (s.setPc t (.copyOut i id size (some (unsignedOf (s.mq.msgTable i).prio)) []), none)
  | .copyOut i id size msgPrio msg => (s.stepCopyOut t i id size msgPrio msg, none)
  | .block c =>
    ({ s with
        sched := s.sched.schedPrivTimedblock t s.address (Sched.schedConvertTimespec c.absTimeout) now }.setPc t
      (.asleep c), none)
  | .asleep c =>
    if (s.sched.table t).unblockType = .sleep then (s.setPc t (startScan (.failed (some .etimedout))), none)
    else (s.setPc t (.test c true), none)
  | .scan r n priority newThread =>
    if n < s.sched.total then
      let best := visitBlocked s.sched.table s.address n (priority, newThread)
      (s.setPc t (.scan r (n + 1) best.1 best.2), none)
    else
      match newThread with
      | some m => (s.setPc t (.wake r m), none)
      | none => (s.setPc t (.done r), none)
  | .wake r m =>
    ({ s with sched := s.sched.privWakeBlocked m }.setPc t (.done r), none)
  | .done r => (s.setPc t .idle, some (.returned t r))

/-- Tasks of the loops of the scheduler call and execute; a thread that is not active does nothing. -/
def step : Action → Option (System × Option Event)
  | .call t c =>
    if t ∈ s.sched.ids ∧ (s.sched.table t).enabled ∧ (s.sched.table t).active ∧ s.pc t = .idle then
      match s.refusal c with
      | some e => some (s.setPc t (.done (.failed (some e))), none)
      | none => some (s.setPc t (.test c false), none)
    else none
  | .exec t now =>
    if (s.sched.table t).enabled ∧ (s.sched.table t).active ∧ s.pc t ≠ .idle then some (s.stepExec t now)
    else none
  | .env sched => if sched.total = s.sched.total then some ({ s with sched := sched }, none) else none

/-- A queue that was just made, before any call on it. -/
structure Initial (attr : MqAttr) : Prop where
  address : s.address ≠ 0
  mq : mqOpenNew attr true = .ok s.mq
  pc : ∀ t, s.pc t = .idle
  serial : s.serial = 0

/-- A new queue of `maxmsg` messages of `4 * words` bytes beside active tasks of these priorities. -/
def start (maxmsg words total : Nat) (attrPriority : Nat → Int) : System where
  address := 64
  mq := ⟨4 * words, maxmsg, 0, 0, fun _ => ⟨0, 0, 0, List.replicate (4 * words) 0⟩⟩
  sched :=
    { total := total
      table := fun i =>
        { enabled := true, exec := true, pid := 0, active := true, stopped := false, aiosuspend := false
          unblockType := .none, blockObject := 0, wake := ⟨schedTimevalSecInvalid, 0⟩
          priority := attrPriority i, attrPriority := attrPriority i }
      currentPriority := 0
      statusChanged := false
      usecondCounter := 0
      sleepOc := schedTimevalSeconds * 1000000 + 1 }
  pc := fun _ => .idle
  serial := 0
  owner := fun _ => 0

end System

end Mqueue

end CoActionOS
