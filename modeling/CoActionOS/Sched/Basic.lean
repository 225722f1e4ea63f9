import Mathlib.Algebra.Group.Int.Defs
import Mathlib.Algebra.Group.Nat.Defs
import Mathlib.Data.List.Basic
import Mathlib.Logic.Function.Basic
import Mathlib.Tactic.SplitIfs

/-!
# The scheduler tables and the privileged scheduling calls

`Sched` holds the parts of `sched_table` and `task_table` that the privileged scheduling calls
read and write, together with `sched_current_priority`, `sched_status_changed`, the epoch counter
`sched_usecond_counter` and the compare value of the sleep channel of the microsecond timer.  The
timer's count is hardware: every call that reads it takes the value read as an argument `now`.

Object addresses are natural numbers and the null pointer is `0`.  `task_priv_switch_context`
only asks for a context switch, which an interleaving semantics performs anyway, so it has no
effect here.
-/

namespace CoActionOS

open Function

/-- `SCHED_LOWEST_PRIORITY` -/
def schedLowestPriority : Int := 0

/-- `SCHED_TIMEVAL_SEC_INVALID` is `UINT_MAX`. -/
def schedTimevalSecInvalid : Nat := 2 ^ 32 - 1

/-- `SCHED_TIMEVAL_SECONDS` -/
def schedTimevalSeconds : Nat := 2048

inductive SchedUnblockType
  | none | mutex | semaphore | rwlock | cond | sleep | wait | signal | transfer | mq
  | pthreadJoined | pthreadJoinedThreadComplete | aio
  deriving DecidableEq, Repr

/-- `struct sched_timeval`: an epoch of `SCHED_TIMEVAL_SECONDS` seconds and the microseconds in
it, both `uint32_t`. -/
structure SchedTimeval where
  tvSec : Nat
  tvUsec : Nat
  deriving DecidableEq, Repr

structure Timespec where
  tvSec : Int
  tvNsec : Int
  deriving DecidableEq, Repr

/-- One row of `sched_table` with the row of `task_table` of the same index. -/
structure SchedTask where
  /-- `TASK_FLAGS_USED`, which is what `task_enabled` reads. -/
  enabled : Bool
  /-- `TASK_FLAGS_EXEC` -/
  exec : Bool
  pid : Nat
  active : Bool
  stopped : Bool
  aiosuspend : Bool
  unblockType : SchedUnblockType
  blockObject : Nat
  wake : SchedTimeval
  priority : Int
  /-- `attr.schedparam.sched_priority`, the priority a task falls back to. -/
  attrPriority : Int
  deriving DecidableEq, Repr

structure Sched where
  /-- `task_get_total()` -/
  total : Nat
  table : Nat → SchedTask
  currentPriority : Int
  statusChanged : Bool
  usecondCounter : Nat
  sleepOc : Nat

namespace Sched

variable (s : Sched)

def modify (id : Nat) (f : SchedTask → SchedTask) : Sched :=
  { s with table := update s.table id (f (s.table id)) }

/-- The task ids the scheduler's loops visit: `1 ≤ i < task_get_total()`. -/
def ids : List Nat := (List.range s.total).drop 1

def schedPrivAssertStatusChange : Sched := { s with statusChanged := true }

def schedPrivAssertActive (id : Nat) (unblockType : SchedUnblockType) : Sched :=
  s.modify id fun t =>
    { t with
      active := true
      unblockType := unblockType
      aiosuspend := false
      blockObject := 0
      wake := ⟨schedTimevalSecInvalid, 0⟩ }

def schedPrivDeassertActive (id : Nat) : Sched :=
  (s.modify id fun t => { t with active := false, exec := false }).schedPrivAssertStatusChange

def schedPrivDeassertStopped (id : Nat) : Sched := s.modify id fun t => { t with stopped := false }

/-- `task_enabled(i) && sched_active_asserted(i) && !sched_stopped_asserted(i)` -/
def runnable (id : Nat) : Bool :=
  (s.table id).enabled && (s.table id).active && !(s.table id).stopped

/-- The loop of `sched_priv_update_on_wake` that sets and clears the execution flags. -/
def updateExec : Sched :=
  { s with
    table := fun i =>
      if i ∈ s.ids then
        { s.table i with exec := s.runnable i && (s.table i).priority == s.currentPriority }
      else s.table i }

def schedPrivUpdateOnWake (newPriority : Int) : Sched :=
  if newPriority > s.currentPriority then
    updateExec { s with currentPriority := newPriority }
  else if newPriority = s.currentPriority then s.updateExec
  else s.schedPrivAssertStatusChange

def schedPrivUpdateOnStopped : Sched :=
  let s' := { s with currentPriority := schedLowestPriority - 1 }
  let newPriority := s'.ids.foldl
    (fun p i => if s'.runnable i && (s'.table i).priority > p then (s'.table i).priority else p)
    s'.currentPriority
  if newPriority ≥ schedLowestPriority then s'.schedPrivUpdateOnWake newPriority else s'

/-- `current` is the calling task. -/
def schedPrivUpdateOnSleep (current : Nat) : Sched :=
  (s.schedPrivDeassertActive current).schedPrivUpdateOnStopped

/-- The inactive enabled task with the highest base priority that is blocked on `blockObject`,
the first such task in case of a tie; `none` is the source's `-1`. -/
def schedGetHighestPriorityBlocked (blockObject : Nat) : Option Nat :=
  (s.ids.foldl
    (fun acc i =>
      if (s.table i).enabled && (s.table i).blockObject == blockObject && !(s.table i).active &&
          (s.table i).attrPriority > acc.2
      then (some i, (s.table i).attrPriority) else acc)
    (none, schedLowestPriority - 1)).1

/-- `sched_convert_timespec`; a null pointer gives the deadline that never comes. -/
def schedConvertTimespec : Option Timespec → SchedTimeval
  | none => ⟨schedTimevalSecInvalid, 0⟩
  | some ts =>
    ⟨(ts.tvSec.tdiv schedTimevalSeconds % 2 ^ 32).toNat,
      ((ts.tvSec.tmod schedTimevalSeconds * 1000000 + (ts.tvNsec + 500).tdiv 1000) % 2 ^ 32).toNat⟩

/-- The deadline part of `sched_priv_timedblock`: record the wake time and arm the compare
channel.  The second component is `time_sleep`. -/
def timedWake (current : Nat) (absTime : SchedTimeval) (now : Nat) : Sched × Bool :=
  if absTime.tvSec ≥ s.usecondCounter then
    let s := s.modify current fun t => { t with wake := absTime }
    if absTime.tvSec = s.usecondCounter then
      if absTime.tvUsec > now + 40 then ({ s with sleepOc := min absTime.tvUsec s.sleepOc }, true)
      else (s, false)
    else (s, true)
  else (s, false)

def schedPrivTimedblock (current blockObject : Nat) (absTime : SchedTimeval) (now : Nat) : Sched :=
  let s := s.modify current fun t => { t with blockObject := blockObject }
  let (s, timeSleep) := s.timedWake current absTime now
  if blockObject = 0 && !timeSleep then s else s.schedPrivUpdateOnSleep current

/-- The wake time of task `id` has come: the test of `priv_usecond_match_event`. -/
def due (now id : Nat) : Bool :=
  (s.table id).enabled && !(s.table id).active &&
    ((s.table id).wake.tvSec < s.usecondCounter ||
      ((s.table id).wake.tvSec == s.usecondCounter && (s.table id).wake.tvUsec ≤ now))

def privUsecondMatchEvent (now : Nat) : Sched :=
  let overflow := schedTimevalSeconds * 1000000
  let newPriority := s.ids.foldl
    (fun p i => if s.due now i && (s.table i).priority > p then (s.table i).priority else p)
    (schedLowestPriority - 1)
  let next := s.ids.foldl
    (fun n i =>
      if (s.table i).enabled && !(s.table i).active && !s.due now i &&
          (s.table i).wake.tvSec == s.usecondCounter && (s.table i).wake.tvUsec < n
      then (s.table i).wake.tvUsec else n)
    overflow
  let woken := s.ids.foldl
    (fun acc i => if s.due now i then acc.schedPrivAssertActive i .sleep else acc) s
  { woken with sleepOc := if next < overflow then next else overflow + 1 }.schedPrivUpdateOnWake
    newPriority

def usecondOverflowEvent (now : Nat) : Sched :=
  { s with usecondCounter := (s.usecondCounter + 1) % 2 ^ 32 }.privUsecondMatchEvent now

/-- The synchronous part of the delivery of a signal to task `id`. -/
def signalPrivActivate (id : Nat) : Sched :=
  let s := (s.schedPrivDeassertStopped id).schedPrivAssertActive id .signal
  s.schedPrivUpdateOnWake (s.table id).priority

/-- `sched_table[id].flags = 0` followed by `task_priv_del(id)`. -/
def clearTask (t : SchedTask) : SchedTask :=
  { t with
    active := false, stopped := false, aiosuspend := false, unblockType := .none
    enabled := false, exec := false }

/-- The end of a thread: the tail of `priv_cleanup` on the calling task. -/
def privCleanup (current : Nat) : Sched := (s.modify current clearTask).schedPrivUpdateOnSleep current

/-- The termination of every other thread of the calling task's process. -/
def privStopThreads (current : Nat) : Sched :=
  { s with
    table := fun i =>
      if i ∈ s.ids ∧ (s.table i).pid = (s.table current).pid ∧ i ≠ current then clearTask (s.table i)
      else s.table i }

end Sched

end CoActionOS
