import CoActionOS.Errno
import CoActionOS.Lib.Run
import CoActionOS.Sched.Rows

/-!
# Processes and their parents

A process records the row of the thread that has created it as its parent.  `_exit` stops its other threads, makes its
row a zombie and sends `SIGCHLD` to the threads of the process that the row of its parent then belongs to.  `waitpid`
looks through all rows, frees that of the first zombie it may return, and reads the pid of the row when it returns.

A run interleaves these with the creation of processes and threads, which takes the first free row, and with signals.  A
signal handler sets the flag of a caught signal if it is one of the program.
-/

namespace CoActionOS

namespace Process

open Function

/-- How far a thread has come. -/
inductive Pc
  /-- the row is free -/
  | gone
  /-- `task_priv_new_task` has taken the row -/
  | new
  | idle
  /-- `waitpid` before `priv_wait_child` -/
  | waiting (pid : Int)
  /-- asleep in it, with `args.tid` -/
  | asleep (pid tid : Int)
  /-- `waitpid` has found a zombie in row `tid` -/
  | got (pid : Int) (tid : Nat) (status : BitVec 32)
  /-- `_exit` after `priv_stop_threads` -/
  | stopped (sendSignal : Bool)
  /-- the loop of `_exit` over the threads of process `parent`, at row `i` -/
  | sending (i parent : Nat) (sent : Bool)
  /-- the loop of `_exit` around `priv_zombie_process` -/
  | ended (sendSignal : Bool)
  deriving DecidableEq, Repr

/-- What has become of the status of a process. -/
inductive Fate
  | running
  /-- in this row -/
  | zombie (id : Nat)
  /-- in the call of this thread -/
  | held (t : Nat)
  | reported
  | lost
  deriving DecidableEq, Repr

/-- `sigcaught` and `ignores` are of processes; a process ignores `SIGCHLD` by `SIG_IGN` or `SA_NOCLDWAIT`.  The code
reads nothing of what follows `pc`: the process that has created each process, the status it has ended with and what has
become of it, whether its parent ignored `SIGCHLD` then, and whether a thread has called `waitpid` without a child to
wait for. -/
structure System where
  sched : Sched
  parent : Nat → Nat
  isThread : Nat → Bool
  zombie : Nat → Bool
  exitStatus : Nat → BitVec 32
  sigcaught : Nat → Bool
  ignores : Nat → Bool
  /-- `task_process_counter` -/
  counter : Nat
  pc : Nat → Pc
  parentOf : Nat → Nat
  exited : Nat → Option (BitVec 32)
  fate : Nat → Fate
  waived : Nat → Bool
  hopeless : Nat → Bool

inductive Action
  | waitpid (t : Nat) (pid : Int) (wnohang : Bool)
  | privWaitChild (t : Nat)
  /-- the test of the loop of `waitpid` -/
  | waitTest (t : Nat)
  | waitReturn (t : Nat)
  /-- `_exit` up to `priv_stop_threads` -/
  | exit (t : Nat) (status : BitVec 32)
  /-- `_exit` has closed the files -/
  | afterClose (t : Nat)
  /-- `delivered` says that `signal_send` succeeds -/
  | sendNext (t : Nat) (delivered : Bool)
  | privZombieProcess (t : Nat)
  | newProcess (t : Nat)
  | newThread (t : Nat)
  | activate (id : Nat) (schedPriority : Int)
  /-- a thread that is not the first of its process returns from its function -/
  | threadEnd (t : Nat)
  | signal (t : Nat)
  /-- a handler of the program returns -/
  | caught (t : Nat)
  /-- `sigaction` for `SIGCHLD` -/
  | ignore (t : Nat) (ignores : Bool)
  | wake (t : Nat) (unblockType : SchedUnblockType)
  deriving DecidableEq, Repr

inductive Event
  /-- `waitpid` for `req` returns to process `caller` -/
  | waited (caller : Nat) (req : Int) (pid : Nat) (status : BitVec 32)
  /-- it returns `-1`, or `0` where there is no error -/
  | refused (hopeless : Bool) (errno : Option Errno)
  deriving DecidableEq, Repr

/-- The status as `waitpid` returns it: the exit code before the number of the signal. -/
def waitStatus (status : BitVec 32) : BitVec 32 := ((status &&& 0xff) <<< 8) ||| ((status >>> 8) &&& 0xff)

namespace System

variable (s : System)

/-- `task_get_pid` -/
def pid (id : Nat) : Nat := (s.sched.table id).pid

/-- The task executes. -/
def runs (t : Nat) : Bool := decide (t ∈ s.sched.ids) && (s.sched.table t).enabled && (s.sched.table t).active

def setPc (t : Nat) (pc : Pc) : System := { s with pc := update s.pc t pc }

/-! ### `waitpid` -/

/-- `priv_check_for_zombie_child` takes row `i` for that of a child. -/
def childOf (t i : Nat) : Bool := s.pid (s.parent i) == s.pid t

/-- The zombie that `priv_check_for_zombie_child` finds. -/
def findZombie (t : Nat) (pid : Int) : Option Nat :=
  s.sched.ids.find? fun i => s.childOf t i && s.zombie i && (((s.pid i : Nat) : Int) == pid || pid == -1)

/-- The zombie is freed for the call of thread `t`. -/
def take (t i : Nat) (pid : Int) : System :=
  { s with
    sched := s.sched.modify i Sched.clearTask
    zombie := update s.zombie i false
    fate := update s.fate (s.pid i) (.held t)
    pc := update (update s.pc i .gone) t (.got pid i (s.exitStatus i)) }

/-- The calling process has a child of this number, or any child. -/
def HasChild (t : Nat) (pid : Int) : Prop :=
  ∃ i ∈ s.sched.ids, (s.sched.table i).enabled = true ∧ s.parentOf (s.pid i) = s.pid t ∧ (pid = -1 ∨ pid = s.pid i)

instance (t : Nat) (pid : Int) : Decidable (s.HasChild t pid) :=
  inferInstanceAs (Decidable (∃ i ∈ s.sched.ids, _ ∧ _ ∧ _))

/-- The call as it goes on when its arguments have been looked at. -/
def waitpidCheck (t : Nat) (pid : Int) (wnohang : Bool) : System × Option Event :=
  if pid < -1 ∨ pid = 0 then (s, some (.refused (s.hopeless t) (some .enotsup)))
  else
    match s.findZombie t pid with
    | some i => (s.take t i pid, none)
    | none => if wnohang then (s, some (.refused (s.hopeless t) none)) else (s.setPc t (.waiting pid), none)

def waitpid (t : Nat) (pid : Int) (wnohang : Bool) : System × Option Event :=
  { s with hopeless := update s.hopeless t (!decide (s.HasChild t pid)) }.waitpidCheck t pid wnohang

def privWaitChild (t : Nat) (pid : Int) : System :=
  match s.findZombie t pid with
  | some i => s.take t i pid
  | none =>
    let tid := if s.sched.ids.any fun i => s.childOf t i then 0 else -1
    { s with
      sched := s.sched.schedPrivUpdateOnSleep t
      sigcaught := update s.sigcaught (s.pid t) false }.setPc t (.asleep pid tid)

def waitTest (t : Nat) (pid tid : Int) : System × Option Event :=
  if s.sigcaught (s.pid t) = false ∧ tid = 0 then (s.setPc t (.waiting pid), none)
  else if tid = 0 then (s.setPc t .idle, some (.refused (s.hopeless t) (some .eintr)))
  else (s.setPc t .idle, some (.refused (s.hopeless t) (some .echild)))

def waitReturn (t : Nat) (pid : Int) (tid : Nat) (status : BitVec 32) : System × Option Event :=
  ({ s with fate := update s.fate (s.pid tid) .reported }.setPc t .idle,
    some (.waited (s.pid t) pid (s.pid tid) status))

/-! ### `_exit` -/

/-- `priv_stop_threads` deletes the task. -/
def killed (t i : Nat) : Bool := decide (i ∈ s.sched.ids ∧ s.pid i = s.pid t ∧ i ≠ t)

/-- `*send_signal` after `priv_stop_threads`; process `0` never waits. -/
def sendSignal (t : Nat) : Bool :=
  if s.zombie t then false
  else if s.pid (s.parent t) = 0 then false
  else !s.ignores (s.pid (s.parent t))

def exit (t : Nat) (status : BitVec 32) : System :=
  { s with
    sched := s.sched.privStopThreads t
    zombie := fun i => if i = t then true else s.zombie i && !s.killed t i
    exitStatus := update s.exitStatus t (waitStatus status)
    pc := fun i => if i = t then .stopped (s.sendSignal t) else if s.killed t i then .gone else s.pc i
    exited := update s.exited (s.pid t) (some (waitStatus status))
    waived := update s.waived (s.pid t) (s.ignores (s.pid (s.parent t)))
    fate := fun p =>
      if p = s.pid t then .zombie t
      else
        match s.fate p with
        | .held u => if u = t || s.killed t u then .lost else .held u
        | fate => fate }

def afterClose (t : Nat) (send : Bool) : System :=
  if send then s.setPc t (.sending 0 (s.pid (s.parent t)) false) else s.setPc t (.ended false)

def sendNext (t i parent : Nat) (sent delivered : Bool) : System :=
  if i < s.sched.total then
    if s.pid i = parent ∧ (s.sched.table i).enabled ∧ delivered then
      { s with sched := s.sched.signalPrivActivate i }.setPc t (.sending (i + 1) parent true)
    else s.setPc t (.sending (i + 1) parent sent)
  else s.setPc t (.ended sent)

def privZombieProcess (t : Nat) (send : Bool) : System :=
  if send then { s with sched := s.sched.schedPrivUpdateOnSleep t }
  else
    { s with
      sched := s.sched.privCleanup t
      zombie := update s.zombie t false
      fate := update s.fate (s.pid t) .lost }.setPc t .gone

/-! ### Creating tasks -/

def newProcess (t : Nat) : System :=
  match s.sched.taskPrivNewTask s.counter with
  | none => { s with counter := s.counter + 1 }
  | some (sched, id) =>
    { s with
      sched := sched
      counter := s.counter + 1
      parent := update s.parent id t
      isThread := update s.isThread id false
      parentOf := update s.parentOf s.counter (s.pid t) }.setPc id .new

/-- `task_get_thread_zero` -/
def threadZero (pid : Nat) : Option Nat :=
  (List.range s.sched.total).find? fun i => (s.sched.table i).enabled && s.pid i == pid && !s.isThread i

def newThread (t : Nat) : System :=
  match s.threadZero (s.pid t) with
  | none => s
  | some z =>
    match s.sched.taskPrivNewTask (s.pid t) with
    | none => s
    | some (sched, id) =>
      { s with
        sched := sched
        parent := update s.parent id (s.parent z)
        isThread := update s.isThread id true }.setPc id .new

def activate (id : Nat) (schedPriority : Int) : System :=
  { s with
    sched := s.sched.privActivateThread id schedPriority
    zombie := update s.zombie id false
    exitStatus := update s.exitStatus id 0 }.setPc id .idle

def threadEnd (t : Nat) : System :=
  { s with sched := s.sched.privCleanup t, zombie := update s.zombie t false }.setPc t .gone

def step : Action → Option (System × Option Event)
  | .waitpid t pid wnohang => if s.runs t ∧ s.pc t = .idle then some (s.waitpid t pid wnohang) else none
  | .privWaitChild t =>
    match s.pc t with
    | .waiting pid => if s.runs t then some (s.privWaitChild t pid, none) else none
    | _ => none
  | .waitTest t =>
    match s.pc t with
    | .asleep pid tid => if s.runs t then some (s.waitTest t pid tid) else none
    | _ => none
  | .waitReturn t =>
    match s.pc t with
    | .got pid tid status => if s.runs t then some (s.waitReturn t pid tid status) else none
    | _ => none
  | .exit t status => if s.runs t ∧ s.pc t ≠ .new then some (s.exit t status, none) else none
  | .afterClose t =>
    match s.pc t with
    | .stopped send => if s.runs t then some (s.afterClose t send, none) else none
    | _ => none
  | .sendNext t delivered =>
    match s.pc t with
    | .sending i parent sent => if s.runs t then some (s.sendNext t i parent sent delivered, none) else none
    | _ => none
  | .privZombieProcess t =>
    match s.pc t with
    | .ended send => if s.runs t then some (s.privZombieProcess t send, none) else none
    | _ => none
  | .newProcess t => if s.runs t ∧ s.pc t = .idle then some (s.newProcess t, none) else none
  | .newThread t => if s.runs t ∧ s.pc t = .idle then some (s.newThread t, none) else none
  | .activate id schedPriority => if s.pc id = .new then some (s.activate id schedPriority, none) else none
  | .threadEnd t =>
    if s.runs t ∧ s.pc t = .idle ∧ s.isThread t then some (s.threadEnd t, none) else none
  | .signal t => some ({ s with sched := s.sched.signalPrivActivate t }, none)
  | .caught t => some ({ s with sigcaught := update s.sigcaught (s.pid t) true }, none)
  | .ignore t ignores => some ({ s with ignores := update s.ignores (s.pid t) ignores }, none)
  | .wake t unblockType => some ({ s with sched := s.sched.privWake t unblockType }, none)

end System

end Process

end CoActionOS
