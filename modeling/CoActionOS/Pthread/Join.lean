import CoActionOS.Errno
import CoActionOS.Lib.Run
import CoActionOS.Sched.Rows

/-!
# Joining a thread

A thread that calls `pthread_join` blocks on the row of `sched_table` of the thread it names, and a thread that ends
looks for a row that does.  Until it has found one it blocks on the `block_object` of its own row.  The exit value goes
from its row to those of its joiners when it is deleted.

A run interleaves the privileged calls of all threads with signals, with the end of whole processes and with the
creation of threads in the rows that have become free.  A signal handler does no more than wake its thread.
-/

namespace CoActionOS

namespace Join

open Function

/-- Where `sched_table` lies, how large a row is, and where in a row `block_object` is: `attr` is before it. -/
structure Layout where
  base : Nat
  size : Nat
  offset : Nat
  base_pos : 0 < base
  offset_pos : 0 < offset
  offset_lt : offset < size

namespace Layout

variable (L : Layout)

/-- `&sched_table[id]` -/
def row (id : Nat) : Nat := L.base + L.size * id

/-- `&sched_table[id].block_object` -/
def field (id : Nat) : Nat := L.row id + L.offset

end Layout

/-- How far a thread has come; `gen` tells the threads apart that have had a row one after the other. -/
inductive Pc
  /-- the row is free -/
  | gone
  /-- `task_priv_new_task` has taken the row -/
  | new
  | idle
  /-- in `pthread_join` before its privileged call -/
  | joining (thread gen : Nat)
  /-- in the privileged call until the thread runs again -/
  | blocked (thread gen : Nat)
  /-- `cleanup_thread` before `priv_wait_joined`, or asleep in it -/
  | exiting (status : Int)
  /-- `cleanup_thread` before it frees the memory -/
  | freeing
  /-- before `priv_cleanup` -/
  | cleaning
  /-- in `_exit`, after `priv_stop_threads` -/
  | ended
  deriving DecidableEq, Repr

/-- `joinable` is read from `attr`.  The code reads nothing of what follows `pc`: the number of the thread that has a
row, the exit value of each joinable thread that has ended, whether it was handed to a joiner, the value that was handed
to a joiner which has not returned, and whether what a thread has counted as its joiner was one. -/
structure System where
  sched : Sched
  joinable : Nat → Bool
  exitStatus : Nat → Int
  pc : Nat → Pc
  gen : Nat → Nat
  exitOf : Nat → Nat → Option Int
  delivered : Nat → Nat → Bool
  owed : Nat → Option Int
  counted : Nat → Option Bool

inductive Action
  | pthreadJoin (t thread : Nat)
  | privJoinThread (t : Nat)
  /-- the test of the loop of `pthread_join` -/
  | joinTest (t : Nat)
  /-- the function of the thread returns -/
  | cleanupThread (t : Nat) (status : Int)
  | privWaitJoined (t : Nat)
  | free (t : Nat)
  | privCleanup (t : Nat)
  | signal (t : Nat)
  /-- a thread blocks on an object outside `sched_table` -/
  | block (t obj : Nat)
  /-- a task that is asleep is woken: the timer, or the object it is blocked on -/
  | wake (t : Nat) (unblockType : SchedUnblockType)
  /-- `priv_stop_threads` -/
  | stopThreads (t : Nat) (status : Int)
  /-- `priv_zombie_process` -/
  | zombieProcess (t : Nat) (signalSent : Bool)
  /-- `waitpid` frees the row of a process that has ended -/
  | reap (t : Nat)
  | newTask (pid : Nat)
  | activate (id : Nat) (schedPriority : Int) (joinable : Bool)
  deriving DecidableEq, Repr

inductive Event
  /-- `pthread_join` returns `0` with this value -/
  | joined (t thread gen : Nat) (value : Int)
  | failed (t : Nat) (errno : Errno)
  deriving DecidableEq, Repr

namespace System

variable (s : System) (L : Layout)

/-- The task executes. -/
def runs (t : Nat) : Bool := decide (t ∈ s.sched.ids) && (s.sched.table t).enabled && (s.sched.table t).active

def setPc (t : Nat) (pc : Pc) : System := { s with pc := update s.pc t pc }

def pthreadJoin (t thread : Nat) : System × Option Event :=
  if thread < s.sched.total ∧ (s.sched.table thread).enabled then
    if !s.joinable thread then (s, some (.failed t .einval))
    else if (s.sched.table thread).blockObject = L.row t ∨ thread = t then (s, some (.failed t .edeadlk))
    else (s.setPc t (.joining thread (s.gen thread)), none)
  else (s, some (.failed t .esrch))

/-- The rows after `priv_join_thread` has found the thread. -/
def blockOn (t thread : Nat) : Sched :=
  let sched := s.sched.modify t fun r => { r with blockObject := L.row thread }
  let sched :=
    if (sched.table thread).blockObject = L.field thread then sched.schedPrivAssertActive thread .pthreadJoined
    else sched
  sched.schedPrivUpdateOnSleep t

def privJoinThread (t thread gen : Nat) : System × Option Event :=
  if (s.sched.table thread).enabled then
    ({ s with sched := s.blockOn L t thread }.setPc t (.blocked thread gen), none)
  else (s.setPc t .idle, some (.failed t .esrch))

def joinTest (t thread gen : Nat) : System × Option Event :=
  if (s.sched.table t).unblockType = .pthreadJoinedThreadComplete then
    ({ s with owed := update s.owed t none }.setPc t .idle, some (.joined t thread gen (s.exitStatus t)))
  else (s.setPc t (.joining thread gen), none)

def cleanupThread (t : Nat) (status : Int) : System :=
  if s.joinable t then
    { s with exitOf := update s.exitOf t (update (s.exitOf t) (s.gen t) (some status)) }.setPc t (.exiting status)
  else s.setPc t .freeing

/-- The row that `priv_wait_joined` finds. -/
def joined (t : Nat) : Option Nat := s.sched.ids.find? fun j => (s.sched.table j).blockObject == L.row t

/-- The thread is alive and blocked in `pthread_join` on thread `t`. -/
def isJoiner (t j : Nat) : Bool :=
  (s.sched.table j).enabled && !(s.sched.table j).active && (s.sched.table j).blockObject == L.row t &&
    s.pc j == .blocked t (s.gen t)

def privWaitJoined (t : Nat) (status : Int) : System :=
  match s.joined L t with
  | some j =>
    { s with
      exitStatus := update s.exitStatus t status
      counted := update s.counted t (some (s.isJoiner L t j)) }.setPc t .freeing
  | none =>
    { s with sched := (s.sched.modify t fun r => { r with blockObject := L.field t }).schedPrivUpdateOnSleep t }

/-- The row is notified by `priv_cleanup` of task `t`. -/
def notified (t j : Nat) : Bool := decide (j ∈ s.sched.ids) && (s.sched.table j).blockObject == L.row t

/-- The task has called `pthread_join` and sleeps. -/
def inJoin (j : Nat) : Bool :=
  match s.pc j with
  | .blocked _ _ => true
  | _ => false

def privCleanup (t : Nat) : System :=
  { s with
    sched := s.sched.privCleanupJoined t (L.row t)
    exitStatus := fun j => if s.notified L t j then s.exitStatus t else s.exitStatus j
    delivered := update s.delivered t
      (update (s.delivered t) (s.gen t) (s.sched.ids.any fun j => s.isJoiner L t j))
    owed := fun j => if s.notified L t j && s.inJoin j then some (s.exitStatus t) else s.owed j }.setPc t .gone

/-- `priv_stop_threads` deletes the task. -/
def stopped (t i : Nat) : Bool :=
  decide (i ∈ s.sched.ids ∧ (s.sched.table i).pid = (s.sched.table t).pid ∧ i ≠ t)

def stopThreads (t : Nat) (status : Int) : System :=
  { s with
    sched := s.sched.privStopThreads t
    exitStatus := update s.exitStatus t status
    pc := fun i => if i = t then .ended else if s.stopped t i then .gone else s.pc i
    owed := fun i => if i = t || s.stopped t i then none else s.owed i }

def zombieProcess (t : Nat) (signalSent : Bool) : System :=
  if signalSent then { s with sched := s.sched.schedPrivUpdateOnSleep t }
  else { s with sched := s.sched.privCleanup t }.setPc t .gone

def newTask (pid : Nat) : Option System :=
  (s.sched.taskPrivNewTask pid).map fun p =>
    { s with sched := p.1, gen := update s.gen p.2 (s.gen p.2 + 1) }.setPc p.2 .new

/-- `priv_activate_thread`, and `priv_init_sched_task` for a process, which is not joinable. -/
def activate (id : Nat) (schedPriority : Int) (joinable : Bool) : System :=
  { s with
    sched := s.sched.privActivateThread id schedPriority
    joinable := update s.joinable id joinable
    exitStatus := update s.exitStatus id 0 }.setPc id .idle

def step : Action → Option (System × Option Event)
  | .pthreadJoin t thread => if s.runs t ∧ s.pc t = .idle then some (s.pthreadJoin L t thread) else none
  | .privJoinThread t =>
    match s.pc t with
    | .joining thread gen => if s.runs t then some (s.privJoinThread L t thread gen) else none
    | _ => none
  | .joinTest t =>
    match s.pc t with
    | .blocked thread gen => if s.runs t then some (s.joinTest t thread gen) else none
    | _ => none
  | .cleanupThread t status => if s.runs t ∧ s.pc t = .idle then some (s.cleanupThread t status, none) else none
  | .privWaitJoined t =>
    match s.pc t with
    | .exiting status => if s.runs t then some (s.privWaitJoined L t status, none) else none
    | _ => none
  | .free t => if s.runs t ∧ s.pc t = .freeing then some (s.setPc t .cleaning, none) else none
  | .privCleanup t => if s.runs t ∧ s.pc t = .cleaning then some (s.privCleanup L t, none) else none
  | .signal t => some ({ s with sched := s.sched.signalPrivActivate t }, none)
  | .block t obj =>
    if s.runs t ∧ s.pc t = .idle ∧ (obj < L.base ∨ L.row s.sched.total ≤ obj) then
      some ({ s with
        sched := (s.sched.modify t fun r => { r with blockObject := obj }).schedPrivUpdateOnSleep t }, none)
    else none
  | .wake t unblockType =>
    if !(s.sched.table t).active ∧ unblockType ≠ .pthreadJoinedThreadComplete then
      some ({ s with sched := s.sched.privWake t unblockType }, none)
    else none
  | .stopThreads t status => if s.runs t ∧ s.pc t ≠ .new then some (s.stopThreads t status, none) else none
  | .zombieProcess t signalSent =>
    if s.runs t ∧ s.pc t = .ended then some (s.zombieProcess t signalSent, none) else none
  | .reap t =>
    if s.pc t = .ended then some ({ s with sched := s.sched.modify t Sched.clearTask }.setPc t .gone, none) else none
  | .newTask pid => (s.newTask pid).map fun s' => (s', none)
  | .activate id schedPriority joinable =>
    if s.pc id = .new then some (s.activate id schedPriority joinable, none) else none

end System

end Join

end CoActionOS
