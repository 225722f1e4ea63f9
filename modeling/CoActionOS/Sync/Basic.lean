import CoActionOS.Pthread.Mutex
import CoActionOS.Sched.Calls

/-!
# Condition variables, semaphores and message queues beside the mutexes

`Sync` adds to the threads and mutexes of `Sys` the condition variables and the semaphores, and to
the calls a thread can be in those of `pthread_cond.c`, `sem.c` and the blocking part of `mqueue.c`.
A call is again cut at every point where it touches shared data: the tests on the object, the
increment of `sem_post`, the scan for a sleeper, the privileged call, and what follows it.  The scan
runs in user mode, so anything can happen between it and the privileged call that uses its result.

Threads are created as well: `newThread` takes the first free row, and `activateThread` is the later
privileged call that clears and activates it.

`kind` says what the C types say: which sort of object stands at an address.
-/

namespace CoActionOS

open Function

/-- `EINVAL` of `errno.h`, which three of the calls on condition variables return as it is. -/
def einvalValue : Int := 22

inductive ObjKind
  | other | mutex | cond | sem | mq
  deriving DecidableEq, Repr

/-- The bits of a `pthread_cond_t`. -/
structure PthreadCond where
  initialized : Bool
  pshared : Bool
  pid : Nat
  deriving DecidableEq, Repr

structure Sem where
  isInitialized : Bool
  pshared : Bool
  pid : Nat
  value : BitVec 32
  deriving DecidableEq, Repr

inductive SyncCall
  | condWait (cond mutex : Nat)
  | condTimedwait (cond mutex : Nat) (abstime : Option Timespec)
  | condSignal (cond : Nat)
  | condBroadcast (cond : Nat)
  | semPost (sem : Nat)
  | semWait (sem : Nat)
  | semTrywait (sem : Nat)
  | semTimedwait (sem : Nat) (absTimeout : Option Timespec)
  | blockOnMq (mq : Nat) (absTimeout : Option Timespec)
  | checkForBlockedTask (mq : Nat)
  deriving DecidableEq, Repr

namespace SyncCall

/-- The object whose sleepers `sched_get_highest_priority_blocked` is asked for. -/
def scanned : SyncCall → Nat
  | condWait _ m | condTimedwait _ m _ => m
  | condSignal c | condBroadcast c => c
  | semPost q | semWait q | semTrywait q | semTimedwait q _ => q
  | blockOnMq q _ | checkForBlockedTask q => q

/-- The mutex of a wait on a condition variable. -/
def waitMutex : SyncCall → Option Nat
  | condWait _ m | condTimedwait _ m _ => some m
  | _ => none

/-- The pointers have the types of the call's parameters; those the call tests may be null. -/
def typed (kind : Nat → ObjKind) : SyncCall → Bool
  | condWait c m | condTimedwait c m _ => (c = 0 || kind c = .cond) && m != 0 && kind m = .mutex
  | condSignal c | condBroadcast c => c = 0 || kind c = .cond
  | semPost q | semWait q | semTrywait q | semTimedwait q _ => q = 0 || kind q = .sem
  | blockOnMq q _ | checkForBlockedTask q => q != 0 && kind q = .mq

/-- The deadline of a timed call. -/
def deadline : SyncCall → SchedTimeval
  | condTimedwait _ _ ts | semTimedwait _ ts | blockOnMq _ ts => Sched.schedConvertTimespec ts
  | _ => ⟨schedTimevalSecInvalid, 0⟩

end SyncCall

/-- How far a thread has come in one of these calls. -/
inductive SyncPc
  | idle
  /-- created by `task_new_thread` and not activated yet -/
  | fresh
  /-- about to test the object -/
  | check (c : SyncCall)
  /-- about to increment the value of the semaphore -/
  | post (sem : Nat)
  /-- about to look for a sleeper -/
  | scan (c : SyncCall)
  /-- about to make the privileged call, with the sleeper that was found -/
  | priv (c : SyncCall) (newThread : Option Nat)
  /-- back from the privileged call, or the call has failed before it -/
  | resume (c : SyncCall) (ret : Int) (errno : Option Errno)
  /-- about to give back the unit of a wait that has timed out -/
  | abort (sem : Nat) (absTimeout : Option Timespec)
  deriving DecidableEq, Repr

structure Sync where
  sys : Sys
  kind : Nat → ObjKind
  cond : Nat → PthreadCond
  sem : Nat → Sem
  pc : Nat → SyncPc

inductive SyncEvent
  | mutex (e : MutexEvent)
  | called (t : Nat) (c : SyncCall)
  /-- `sem_post` of thread `t` has incremented the value of the semaphore -/
  | posted (t sem : Nat)
  /-- a privileged call wakes a thread as a sleeper on the object -/
  | woke (object id : Nat)
  /-- the timer interrupt found this time -/
  | tick (now : SchedTimeval)
  | returned (t : Nat) (c : SyncCall) (ret : Int) (errno : Option Errno)
  deriving DecidableEq, Repr

inductive SyncAction
  /-- a step of a mutex call or of the environment -/
  | sys (a : MutexAction)
  | call (t : Nat) (c : SyncCall)
  /-- thread `t` executes the next piece of its call; the timer reads `now` -/
  | exec (t now : Nat)
  /-- thread `t` creates a thread -/
  | newThread (t : Nat)
  | activateThread (id : Nat) (schedPriority : Int)
  deriving DecidableEq, Repr

namespace Sync

variable (s : Sync)

/-- The row of thread `t` in the scheduler tables. -/
def row (t : Nat) : SchedTask := s.sys.sched.table t

def setPc (t : Nat) (pc : SyncPc) : Sync := { s with pc := update s.pc t pc }

def setSched (sched : Sched) : Sync := { s with sys := { s.sys with sched := sched } }

def setValue (sem : Nat) (value : BitVec 32) : Sync :=
  { s with sem := update s.sem sem { s.sem sem with value := value } }

/-! ### Up to the privileged call -/

/-- The tests of `pthread_cond_wait` and `pthread_cond_timedwait`: what the call returns when one
fails. -/
def condWaitFault (t cond : Nat) : Option (Int × Option Errno) :=
  if cond = 0 then some (-1, some .einval)
  else if (s.cond cond).initialized = false then some (einvalValue, none)
  else if (s.cond cond).pshared = false ∧ (s.cond cond).pid ≠ (s.row t).pid then
    some (-1, some .eacces)
  else none

def condSignalFault (cond : Nat) : Option (Int × Option Errno) :=
  if cond = 0 then some (-1, some .einval)
  else if (s.cond cond).initialized = false then some (einvalValue, none)
  else none

def condBroadcastFault (cond : Nat) : Option (Int × Option Errno) :=
  if cond = 0 then some (-1, some .einval)
  else if (s.cond cond).initialized = false then some (-1, some .einval)
  else none

/-- `check_initialized` of `sem.c` -/
def semFault (t sem : Nat) : Option (Int × Option Errno) :=
  if sem = 0 then some (-1, some .einval)
  else if (s.sem sem).isInitialized = false then some (-1, some .einval)
  else if (s.sem sem).pshared = false ∧ (s.row t).pid ≠ (s.sem sem).pid then
    some (-1, some .eacces)
  else none

def fault (t : Nat) : SyncCall → Option (Int × Option Errno)
  | .condWait c _ | .condTimedwait c _ _ => s.condWaitFault t c
  | .condSignal c => s.condSignalFault c
  | .condBroadcast c => s.condBroadcastFault c
  | .semPost q | .semWait q | .semTrywait q | .semTimedwait q _ => s.semFault t q
  | .blockOnMq .. | .checkForBlockedTask _ => none

/-- Where a call goes on once its tests have passed. -/
def afterCheck (c : SyncCall) : SyncPc :=
  match c with
  | .semPost q => .post q
  | .condWait .. | .condTimedwait .. | .condSignal _ | .checkForBlockedTask _ => .scan c
  | .condBroadcast _ | .semWait _ | .semTrywait _ | .semTimedwait .. | .blockOnMq .. => .priv c none

def stepCheck (t : Nat) (c : SyncCall) : Sync :=
  match s.fault t c with
  | some (ret, errno) => s.setPc t (.resume c ret errno)
  | none => s.setPc t (afterCheck c)

/-- `sem->value++` of `sem_post` -/
def stepPost (t sem : Nat) : Sync × Option SyncEvent :=
  ((s.setValue sem ((s.sem sem).value + 1)).setPc t (.scan (.semPost sem)), some (.posted t sem))

/-- A wait on a condition variable makes its privileged call in any case; the others need a
sleeper. -/
def stepScan (t : Nat) (c : SyncCall) : Sync :=
  match s.sys.sched.schedGetHighestPriorityBlocked c.scanned with
  | some n => s.setPc t (.priv c (some n))
  | none => s.setPc t (if c.waitMutex.isSome then .priv c none else .resume c 0 none)

/-! ### The privileged calls -/

/-- `priv_cond_wait` of task `id`, with `args->ret`. -/
def privCondWait (id cond mutex : Nat) (newThread : Option Nat) (interval : SchedTimeval)
    (now : Nat) : Sync × Int :=
  let x := s.sys.mutex mutex
  if x.pthread = some id then
    let sched := s.sys.sched.modify id fun t => { t with priority := t.attrPriority }
    match newThread with
    | some n =>
      let sched := sched.modify n fun t => { t with priority := x.prioCeiling }
      let sched := sched.schedPrivAssertActive n .mutex
      let y := { x with pthread := some n, pid := (s.row n).pid, lock := 1 }
      ({ s.setSched (sched.schedPrivTimedblock id cond interval now) with
          sys.mutex := update s.sys.mutex mutex y }, 0)
    | none =>
      let y := { x with lock := 0, pthread := none }
      ({ s.setSched (sched.schedPrivTimedblock id cond interval now) with
          sys.mutex := update s.sys.mutex mutex y }, 0)
  else (s, -1)

/-- What `priv_sem_timedwait` does to the tables: `block` is `sem->value <= 0`. -/
def privSemTimedwait (id sem : Nat) (interval : SchedTimeval) (now : Nat) : Sync :=
  let s' :=
    if (s.sem sem).value ≤ 0 then
      s.setSched (s.sys.sched.schedPrivTimedblock id sem interval now)
    else s
  s'.setValue sem ((s.sem sem).value - 1)

def privSemWait (id sem : Nat) : Sync :=
  (s.setSched (s.sys.sched.privSemWait id sem (decide ((s.sem sem).value ≤ 0)))).setValue sem
    ((s.sem sem).value - 1)

/-- `args.ret = -1` of the two waits is `EPERM`. -/
def condWaitResult (ret : Int) : Int × Option Errno :=
  if ret = -1 then (-1, some .eperm) else (0, none)

def stepCondWait (t : Nat) (c : SyncCall) (cond mutex : Nat) (newThread : Option Nat) (now : Nat) :
    Sync × Option SyncEvent :=
  let (s', ret) := s.privCondWait t cond mutex newThread c.deadline now
  (s'.setPc t (.resume c (condWaitResult ret).1 (condWaitResult ret).2),
    if ret = 0 then newThread.map (.woke mutex) else none)

def stepPriv (t : Nat) (c : SyncCall) (newThread : Option Nat) (now : Nat) :
    Sync × Option SyncEvent :=
  match c with
  | .condWait cond mutex | .condTimedwait cond mutex _ => s.stepCondWait t c cond mutex newThread now
  | .condSignal cond =>
    match newThread with
    | some n =>
      ((s.setSched (s.sys.sched.privCondSignal n)).setPc t (.resume c 0 none), some (.woke cond n))
    | none => (s.setPc t (.resume c 0 none), none)
  | .condBroadcast cond =>
    ((s.setSched (s.sys.sched.privCondBroadcast cond)).setPc t (.resume c 0 none), none)
  | .semPost sem =>
    match newThread with
    | some n =>
      ((s.setSched (s.sys.sched.privSemPost n)).setPc t (.resume c 0 none), some (.woke sem n))
    | none => (s.setPc t (.resume c 0 none), none)
  | .semWait sem => ((s.privSemWait t sem).setPc t (.resume c 0 none), none)
  | .semTrywait sem =>
    if (s.sem sem).value > 0 then
      ((s.setValue sem ((s.sem sem).value - 1)).setPc t (.resume c 0 none), none)
    else (s.setPc t (.resume c (-1) (some .eagain)), none)
  | .semTimedwait sem _ => ((s.privSemTimedwait t sem c.deadline now).setPc t (.resume c 0 none), none)
  | .blockOnMq mq _ =>
    ((s.setSched (s.sys.sched.schedPrivTimedblock t mq c.deadline now)).setPc t (.resume c 0 none),
      none)
  | .checkForBlockedTask mq =>
    match newThread with
    | some n =>
      ((s.setSched (s.sys.sched.privWakeBlocked n)).setPc t (.resume c 0 none), some (.woke mq n))
    | none => (s.setPc t (.resume c 0 none), none)

/-! ### After the privileged call -/

/-- The timed calls ask why they were woken; `sem_timedwait` has its decrement to undo first. -/
def stepResume (t : Nat) (c : SyncCall) (ret : Int) (errno : Option Errno) :
    Sync × Option SyncEvent :=
  match c with
  | .condTimedwait .. | .blockOnMq .. =>
    if ret = 0 ∧ (s.row t).unblockType = .sleep then
      (s.setPc t .idle, some (.returned t c (-1) (some .etimedout)))
    else (s.setPc t .idle, some (.returned t c ret errno))
  | .semTimedwait sem ts =>
    if ret = 0 ∧ (s.row t).unblockType = .sleep then (s.setPc t (.abort sem ts), none)
    else (s.setPc t .idle, some (.returned t c ret errno))
  | _ => (s.setPc t .idle, some (.returned t c ret errno))

def stepAbort (t sem : Nat) (absTimeout : Option Timespec) : Sync × Option SyncEvent :=
  ((s.setValue sem ((s.sem sem).value + 1)).setPc t .idle,
    some (.returned t (.semTimedwait sem absTimeout) (-1) (some .etimedout)))

def execStep (t now : Nat) : Option (Sync × Option SyncEvent) :=
  match s.pc t with
  | .idle | .fresh => none
  | .check c => some (s.stepCheck t c, none)
  | .post sem => some (s.stepPost t sem)
  | .scan c => some (s.stepScan t c, none)
  | .priv c newThread => some (s.stepPriv t c newThread now)
  | .resume c ret errno => some (s.stepResume t c ret errno)
  | .abort sem ts => some (s.stepAbort t sem ts)

/-! ### The steps -/

/-- What a step of `Sys` is observed as. -/
def sysEvent : MutexAction → Option MutexEvent → Option SyncEvent
  | .matchEvent now, _ => some (.tick ⟨s.sys.sched.usecondCounter, now⟩)
  | .overflowEvent now, _ => some (.tick ⟨(s.sys.sched.usecondCounter + 1) % 2 ^ 32, now⟩)
  | _, e => e.map .mutex

/-- A thread begins a mutex call only between calls and with a mutex. -/
def sysAllowed : MutexAction → Bool
  | .call t c => s.pc t = .idle && (c.mutex = 0 || s.kind c.mutex = .mutex)
  | _ => true

/-- Thread `t` is between two calls. -/
def free (t : Nat) : Bool := s.sys.canRun t && s.pc t = .idle && s.sys.pc t = .idle

def step : SyncAction → Option (Sync × Option SyncEvent)
  | .sys a =>
    if s.sysAllowed a then
      match s.sys.step a with
      | some (sys, e) => some ({ s with sys := sys }, s.sysEvent a e)
      | none => none
    else none
  | .call t c =>
    if s.free t && c.typed s.kind then some (s.setPc t (.check c), some (.called t c)) else none
  | .exec t now => if s.sys.canRun t then s.execStep t now else none
  | .newThread t =>
    if s.free t then
      match s.sys.sched.taskPrivNewTask (s.row t).pid with
      | some (sched, id) =>
        some ({ s.setSched sched with sys.pc := update s.sys.pc id .idle }.setPc id .fresh, none)
      | none => none
    else none
  | .activateThread id prio =>
    if (s.row id).enabled && s.pc id = .fresh then
      some ((s.setSched (s.sys.sched.privActivateThread id prio)).setPc id .idle, none)
    else none

/-! ### A start state -/

/-- `total` tasks of one process, all running at the base priorities `prio`.  There are mutexes with
these ceilings at the addresses `64` and `68`, a condition variable at `72`, a semaphore with this
value at `76` and a message queue at `80`. -/
def start (total : Nat) (prio ceiling : Nat → Int) (value : BitVec 32) : Sync where
  sys :=
    { sched :=
        { total := total, currentPriority := 0, statusChanged := false, usecondCounter := 0
          sleepOc := 0
          table := fun i =>
            { enabled := true, exec := true, pid := 1, active := true, stopped := false
              aiosuspend := false, unblockType := .none, blockObject := 0
              wake := ⟨schedTimevalSecInvalid, 0⟩, priority := prio i, attrPriority := prio i } }
      mutex := fun m =>
        { initialized := true, pshared := false, recursive := false, prioCeiling := ceiling m
          pid := 1, lock := 0, pthread := none }
      pc := fun _ => .idle }
  kind := fun a =>
    if a = 64 ∨ a = 68 then .mutex
    else if a = 72 then .cond
    else if a = 76 then .sem
    else if a = 80 then .mq
    else .other
  cond := fun _ => { initialized := true, pshared := false, pid := 1 }
  sem := fun _ => { isInitialized := true, pshared := false, pid := 1, value := value }
  pc := fun _ => .idle

end Sync

end CoActionOS
