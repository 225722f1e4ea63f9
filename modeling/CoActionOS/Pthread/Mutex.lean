import CoActionOS.Errno
import CoActionOS.Lib.Run
import CoActionOS.Sched.Basic

/-!
# Mutexes: the calls as threads execute them

A call runs as user-mode statements around one privileged call.  `Pc` is how far a thread has come
in its call; `Sys.step` lets any thread other than task 0 begin a call or execute its next piece,
and lets the environment deliver a signal, serve a timer interrupt or end a thread.  A privileged
call is one step.  A thread runs only while it is enabled and active, whatever the execution flags
say, so every schedule is included.

`mutex->pthread == -1` is `none`.  The mutex pointer is an address, `0` is the null pointer.
-/

namespace CoActionOS

open Function

/-- `PTHREAD_MAX_LOCKS` -/
def pthreadMaxLocks : Int := 1024

structure PthreadMutex where
  /-- `PTHREAD_MUTEX_FLAGS_INITIALIZED` -/
  initialized : Bool
  /-- `PTHREAD_MUTEX_FLAGS_PSHARED` -/
  pshared : Bool
  /-- `PTHREAD_MUTEX_FLAGS_RECURSIVE` -/
  recursive : Bool
  prioCeiling : Int
  pid : Nat
  lock : Int
  pthread : Option Nat
  deriving DecidableEq, Repr

inductive MutexCall
  | lock (mutex : Nat)
  | trylock (mutex : Nat)
  | timedlock (mutex : Nat) (absTimeout : Option Timespec)
  | unlock (mutex : Nat)
  deriving DecidableEq, Repr

namespace MutexCall

def mutex : MutexCall → Nat
  | lock m | trylock m | timedlock m _ | unlock m => m

/-- The calls that can acquire the mutex. -/
def acquires : MutexCall → Bool
  | unlock _ => false
  | _ => true

/-- The `trylock` argument of `mutex_trylock`. -/
def isTrylock : MutexCall → Bool
  | trylock _ => true
  | _ => false

def absTimeout : MutexCall → Option Timespec
  | timedlock _ ts => ts
  | _ => none

end MutexCall

/-- How far a thread has come in a call. -/
inductive Pc
  | idle
  /-- about to test the pointer, the flags and the process of the mutex -/
  | check (c : MutexCall)
  /-- about to test whether it owns the mutex already -/
  | owner (c : MutexCall)
  /-- about to make the privileged call -/
  | priv (c : MutexCall)
  /-- back from `mutex_trylock` or the privileged call, with its result -/
  | resume (c : MutexCall) (ret : Int) (errno : Option Errno)
  deriving DecidableEq, Repr

structure Sys where
  sched : Sched
  mutex : Nat → PthreadMutex
  pc : Nat → Pc

inductive MutexEvent
  /-- thread `t` returns from `c` with this value and, if the call sets it, this `errno` -/
  | returned (t : Nat) (c : MutexCall) (ret : Int) (errno : Option Errno)
  /-- thread `t` gives up one level of its lock -/
  | unlocked (t mutex : Nat)
  deriving DecidableEq, Repr

inductive MutexAction
  | call (t : Nat) (c : MutexCall)
  /-- thread `t` executes its next piece; the timer reads `now` -/
  | exec (t now : Nat)
  | signal (t : Nat)
  | matchEvent (now : Nat)
  | overflowEvent (now : Nat)
  /-- thread `t` ends -/
  | cleanup (t : Nat)
  /-- the process of thread `t` exits: its other threads end -/
  | stopThreads (t : Nat)
  deriving DecidableEq, Repr

/-- The first statements of `priv_mutex_unlock`: task `id` falls back to its base priority, and the
scheduler with it. -/
def Sched.restorePriority (s : Sched) (id : Nat) : Sched :=
  let s := s.modify id fun t => { t with priority := t.attrPriority, blockObject := 0 }
  { s with currentPriority := (s.table id).priority }

namespace Sys

variable (s : Sys)

def setPc (t : Nat) (pc : Pc) : Sys := { s with pc := update s.pc t pc }

def setMutex (m : Nat) (x : PthreadMutex) : Sys := { s with mutex := update s.mutex m x }

/-- `check_initialized` with the null test. -/
def checkInitialized (m : Nat) : Bool := m != 0 && (s.mutex m).initialized

/-- `priv_mutex_trylock`, with `args->ret`. -/
def privMutexTrylock (id m : Nat) (trylock : Bool) (absTimeout : SchedTimeval) (now : Nat) :
    Sys × Int :=
  if (s.mutex m).pthread = none then
    let sched :=
      if (s.mutex m).prioCeiling > (s.sched.table id).priority then
        s.sched.modify id fun t => { t with priority := (s.mutex m).prioCeiling }
      else s.sched
    ({ s with sched := sched }.setMutex m
      { s.mutex m with pthread := some id, pid := (s.sched.table id).pid, lock := 1 }, 0)
  else if trylock then (s, -2)
  else ({ s with sched := s.sched.schedPrivTimedblock id m absTimeout now }, -2)

/-- `priv_mutex_unlock` on behalf of task `id`. -/
def privMutexUnlock (id m : Nat) : Sys :=
  let lastPrio := s.sched.currentPriority
  let sched := s.sched.restorePriority id
  match sched.schedGetHighestPriorityBlocked m with
  | some newThread =>
    let sched := sched.modify newThread fun t => { t with priority := (s.mutex m).prioCeiling }
    let sched := sched.schedPrivAssertActive newThread .mutex
    { s with sched := sched.schedPrivUpdateOnWake (sched.table newThread).priority }.setMutex m
      { s.mutex m with pthread := some newThread, pid := (s.sched.table newThread).pid, lock := 1 }
  | none =>
    let sched :=
      if lastPrio > sched.currentPriority then
        sched.schedPrivUpdateOnWake (sched.table id).priority
      else sched
    { s with sched := sched }.setMutex m { s.mutex m with lock := 0, pthread := none }

/-- The statements of a call up to the test of the mutex's process. -/
def stepCheck (t : Nat) (c : MutexCall) : Sys :=
  if s.checkInitialized c.mutex = false then s.setPc t (.resume c (-1) (some .einval))
  else if c.acquires && !(s.mutex c.mutex).pshared &&
      (s.mutex c.mutex).pid != (s.sched.table t).pid then
    s.setPc t (.resume c (-1) (some .eacces))
  else s.setPc t (.owner c)

/-- The ownership test of `mutex_trylock` and of `pthread_mutex_unlock`. -/
def stepOwner (t : Nat) (c : MutexCall) : Sys × Option MutexEvent :=
  let x := s.mutex c.mutex
  if c.acquires then
    if x.pthread = some t then
      if x.recursive then
        if x.lock < pthreadMaxLocks then
          ((s.setMutex c.mutex { x with lock := x.lock + 1 }).setPc t (.resume c 0 none), none)
        else (s.setPc t (.resume c (-1) (some .eagain)), none)
      else (s.setPc t (.resume c 1 none), none)
    else (s.setPc t (.priv c), none)
  else if x.pthread = some t then
    if x.recursive then
      let s := s.setMutex c.mutex { x with lock := x.lock - 1 }
      if x.lock - 1 ≠ 0 then (s.setPc t (.resume c 0 none), some (.unlocked t c.mutex))
      else (s.setPc t (.priv c), none)
    else (s.setPc t (.priv c), none)
  else (s.setPc t (.resume c (-1) (some .eacces)), none)

def stepPriv (t : Nat) (c : MutexCall) (now : Nat) : Sys × Option MutexEvent :=
  if c.acquires then
    let (s, ret) := s.privMutexTrylock t c.mutex c.isTrylock
      (Sched.schedConvertTimespec c.absTimeout) now
    (s.setPc t (.resume c ret none), none)
  else ((s.privMutexUnlock t c.mutex).setPc t (.resume c 0 none), some (.unlocked t c.mutex))

/-- What the call returns once `mutex_trylock` or the privileged call is done. -/
def returnValue (t : Nat) (c : MutexCall) (ret : Int) (errno : Option Errno) :
    Int × Option Errno :=
  match c with
  | .lock _ =>
    if ret = 1 then (-1, some .edeadlk) else if ret = -1 then (-1, errno) else (0, errno)
  | .trylock _ =>
    if ret = 0 ∨ ret = 1 then (0, errno) else if ret = -2 then (-1, some .ebusy) else (-1, errno)
  | .timedlock m _ =>
    if ret = 1 then (-1, some .edeadlk)
    else if ret = -2 then
      if (s.mutex m).pthread = some t then (0, none) else (-1, some .etimedout)
    else if ret = -1 then (-1, errno)
    else (0, errno)
  | .unlock _ => (ret, errno)

def stepResume (t : Nat) (c : MutexCall) (ret : Int) (errno : Option Errno) :
    Sys × Option MutexEvent :=
  let (v, e) := s.returnValue t c ret errno
  (s.setPc t .idle, some (.returned t c v e))

def execStep (t now : Nat) : Option (Sys × Option MutexEvent) :=
  match s.pc t with
  | .idle => none
  | .check c => some (s.stepCheck t c, none)
  | .owner c => some (s.stepOwner t c)
  | .priv c => some (s.stepPriv t c now)
  | .resume c ret errno => some (s.stepResume t c ret errno)

/-- Thread `t` can run: not task 0, enabled and active. -/
def canRun (t : Nat) : Bool := t ∈ s.sched.ids && (s.sched.table t).enabled && (s.sched.table t).active

def step : MutexAction → Option (Sys × Option MutexEvent)
  | .call t c =>
    if s.canRun t && s.pc t = .idle then some (s.setPc t (.check c), none) else none
  | .exec t now => if s.canRun t then s.execStep t now else none
  | .signal t =>
    if t ∈ s.sched.ids then some ({ s with sched := s.sched.signalPrivActivate t }, none) else none
  | .matchEvent now => some ({ s with sched := s.sched.privUsecondMatchEvent now }, none)
  | .overflowEvent now => some ({ s with sched := s.sched.usecondOverflowEvent now }, none)
  | .cleanup t =>
    if s.canRun t then some ({ s with sched := s.sched.privCleanup t }, none) else none
  | .stopThreads t =>
    if s.canRun t then some ({ s with sched := s.sched.privStopThreads t }, none) else none

end Sys

end CoActionOS
