import CoActionOS.Errno
import CoActionOS.Lib.Run
import CoActionOS.Sched.Rows
import CoActionOS.Unistd.Transfer

/-!
# Asynchronous transfers

`aio_data_transfer` hands an operation to a driver and returns; the driver calls `aio_data_transfer_callback` when it is
done.  Until then `op.buf` of the control block is not null, which is what `aio_error`, `aio_suspend` and the callback
itself look at.  A thread that waits for some or all of a list leaves the list on its stack, where the callback finds it
through the block object of the task.

A run interleaves the calls of all threads with what the drivers answer and complete, and with whatever else wakes a
thread.  The driver's answers are inputs.
-/

namespace CoActionOS

namespace Aio

open Function
open Unistd (DriverAnswer)

/-- `EINPROGRESS` -/
def einprogress : Int := 119

/-- `struct aiocb` with the parts of `op` that are read; `sigevSignal` says that `sigev_notify` is `SIGEV_SIGNAL`. -/
structure Aiocb where
  aioBuf : Nat
  aioNbytes : Int
  sigevSignal : Bool
  opBuf : Nat
  opNbyte : Int
  opTid : Nat
  deriving DecidableEq, Repr

def aioError (aiocbp : Aiocb) : Int := if aiocbp.opBuf ≠ 0 then einprogress else aiocbp.opNbyte

def aioReturn (aiocbp : Aiocb) : Int := if aiocbp.opBuf ≠ 0 then -1 else aiocbp.aioNbytes

/-- The entries of a list; `none` is a null pointer. -/
abbrev AioList : Type := List (Option Nat)

/-- `priv_suspend_t` -/
structure PrivSuspend where
  list : AioList
  blockOnAll : Bool
  absTimeout : Option Timespec
  deriving DecidableEq, Repr

inductive LioMode
  | nowait
  | wait
  | other
  deriving DecidableEq, Repr

/-- How far a thread has come in a call. -/
inductive Pc
  | idle
  /-- `lio_listio` with this part of the list before it -/
  | listing (rest list : AioList) (wait : Bool)
  /-- before the privileged call of `suspend` -/
  | suspending (p : PrivSuspend)
  /-- in the privileged call until the thread is active again -/
  | suspended (p : PrivSuspend)
  | returned (ret : Int) (errno : Option Errno)
  deriving DecidableEq, Repr

/-- `held` counts the operations on a control block that a driver has and will complete; `wokenBy` says of a suspended
thread that a completion has made it active, and whether what it waits for had come then.  Neither is read by the code. -/
structure System where
  sched : Sched
  aiocb : Nat → Aiocb
  pc : Nat → Pc
  /-- what is read as `op.buf` through a null pointer -/
  nullBuf : Nat
  held : Nat → Nat
  wokenBy : Nat → Option Bool

inductive Action
  /-- the program writes to the fields that are its own -/
  | fill (a : Nat) (aioBuf : Nat) (aioNbytes : Int) (sigevSignal : Bool)
  /-- `aio_read` or `aio_write` -/
  | transfer (t a : Nat) (answer : DriverAnswer)
  /-- `sig` is null or says whether `sigev_notify` is other than `SIGEV_NONE` -/
  | lioListio (t : Nat) (mode : LioMode) (list : AioList) (sig : Option Bool)
  /-- the next entry of the list -/
  | listNext (t : Nat) (answer : DriverAnswer)
  | aioSuspend (t : Nat) (list : AioList) (timeout : Option Timespec)
  /-- the arguments are at `frame` on the stack -/
  | privSuspend (t frame now : Nat)
  /-- the thread runs on; `ret` is what the stack has at `args.ret` -/
  | resume (t : Nat) (ret : Int)
  | leave (t : Nat)
  /-- a driver completes an operation; `delivered` says that the signal of the control block can be sent -/
  | complete (a : Nat) (nbyte : Int) (delivered : Bool)
  /-- anything else that wakes a task: the timer, a signal -/
  | wake (t : Nat) (unblockType : SchedUnblockType)

inductive Event
  | returned (t : Nat) (ret : Int) (errno : Option Errno)
  deriving DecidableEq, Repr

namespace System

variable (s : System)

def setPc (t : Nat) (pc : Pc) : System := { s with pc := update s.pc t pc }

/-- `p->list[i]->op.buf` -/
def buf : Option Nat → Nat
  | none => s.nullBuf
  | some a => (s.aiocb a).opBuf

/-- The decision of `priv_suspend`. -/
def suspends (p : PrivSuspend) : Bool :=
  if p.blockOnAll then p.list.any fun e => e.isSome && s.buf e != 0
  else !p.list.any fun e => e.isSome && s.buf e == 0

def privSuspend (t : Nat) (p : PrivSuspend) (frame now : Nat) : System :=
  if s.suspends p then
    { s with
      sched := (s.sched.modify t fun r => { r with aiosuspend := true }).schedPrivTimedblock t frame
        (Sched.schedConvertTimespec p.absTimeout) now
      wokenBy := update s.wokenBy t none }.setPc t (.suspended p)
  else { s with wokenBy := update s.wokenBy t none }.setPc t (.returned 0 none)

/-- What the block object of a task suspended on a list points to. -/
def blockObject (t : Nat) : Option PrivSuspend :=
  match s.pc t with
  | .suspended p => some p
  | _ => none

/-- The decision of `aio_data_transfer_callback` on the list a task is blocked on. -/
def wakes (a : Nat) (p : PrivSuspend) : Bool :=
  if p.blockOnAll then p.list.all fun e => s.buf e == 0 else p.list.contains (some a)

/-- `aiocbp->aio_nbytes = aiocbp->op.nbyte` and the two assignments after it. -/
def finish (a : Nat) : System :=
  { s with
    aiocb := update s.aiocb a { s.aiocb a with aioNbytes := (s.aiocb a).opNbyte, opBuf := 0, opNbyte := 0 } }

/-- The part of `aio_data_transfer_callback` that wakes the task. -/
def wakeSuspended (a tid : Nat) : System :=
  if (s.sched.table tid).aiosuspend then
    match s.blockObject tid with
    | some p => if s.wakes a p then { s with sched := s.sched.privWake tid .aio } else s
    | none => s
  else s

def aioDataTransferCallback (a : Nat) (delivered : Bool) : System :=
  let tid := (s.aiocb a).opTid
  let s := s.finish a
  if tid ≥ s.sched.total then s
  else if (s.sched.table tid).enabled then
    let s := s.wakeSuspended a tid
    if (s.aiocb a).sigevSignal && delivered then { s with sched := s.sched.signalPrivActivate tid } else s
  else s

/-- `aio_data_transfer` up to the answer of the driver. -/
def submit (t a : Nat) (answer : DriverAnswer) : System :=
  let c := s.aiocb a
  { s with
    aiocb := update s.aiocb a { c with opNbyte := answer.nbyte, opBuf := c.aioBuf, opTid := t, aioNbytes := -1 }
    held := update s.held a (s.held a + answer.keeps.toNat)
    sched := s.sched.modify t fun r => { r with blockObject := 0 } }

/-- `aio_data_transfer` of task `t` as one step, with the value it returns.  A signal to the caller itself is left to
task `0`. -/
def aioDataTransfer (t a : Nat) (answer : DriverAnswer) : System × Int × Option Errno :=
  let s := s.submit t a answer
  if answer.ret = 0 then (s, 0, none)
  else if answer.ret < 0 then (s, -1, some .eio)
  else (s.aioDataTransferCallback a false, 0, none)

/-- The tests of `suspend` after the privileged call. -/
def suspendResult (unblockType : SchedUnblockType) (ret : Int) : Int × Option Errno :=
  if unblockType = .sleep then (-1, some .eagain)
  else if unblockType = .signal then (-1, some .eintr)
  else (ret, none)

/-- What a thread waits for has come: nothing of the list, or something, is left with a driver. -/
def done (p : PrivSuspend) : Bool :=
  if p.blockOnAll then p.list.all fun e => e.all fun a => s.held a == 0
  else p.list.any fun e => e.any fun a => s.held a == 0

/-- The completion is noted for a thread that it has made active. -/
def noteWoken (before : Sched) (t : Nat) : Option Bool :=
  match s.pc t with
  | .suspended p =>
    if !(before.table t).active && (s.sched.table t).active then some (s.done p) else s.wokenBy t
  | _ => s.wokenBy t

/-- The driver writes the count and lets go of the operation. -/
def release (a : Nat) (nbyte : Int) : System :=
  { s with
    aiocb := update s.aiocb a { s.aiocb a with opNbyte := nbyte }
    held := update s.held a (s.held a - 1) }

/-- A driver calls back. -/
def complete (a : Nat) (nbyte : Int) (delivered : Bool) : System :=
  let s' := (s.release a nbyte).aioDataTransferCallback a delivered
  { s' with wokenBy := fun t => s'.noteWoken s.sched t }

/-- The task executes. -/
def runs (t : Nat) : Bool := decide (t ∈ s.sched.ids) && (s.sched.table t).enabled && (s.sched.table t).active

def lioListio (t : Nat) (mode : LioMode) (list : AioList) (sig : Option Bool) : System :=
  match mode with
  | .nowait =>
    if sig = some true then s.setPc t (.returned (-1) (some .enotsup)) else s.setPc t (.listing list list false)
  | .wait => s.setPc t (.listing list list true)
  | .other => s.setPc t (.returned (-1) (some .einval))

/-- An iteration of the loop of `lio_listio`, which ignores what `aio_data_transfer` returns, or its end. -/
def listNext (t : Nat) (answer : DriverAnswer) : AioList → AioList → Bool → System
  | none :: rest, list, wait => s.setPc t (.listing rest list wait)
  | some a :: rest, list, wait => (s.aioDataTransfer t a answer).1.setPc t (.listing rest list wait)
  | [], list, true => s.setPc t (.suspending ⟨list, true, none⟩)
  | [], _, false => s.setPc t (.returned 0 none)

def step : Action → Option (System × Option Event)
  | .fill a aioBuf aioNbytes sigevSignal =>
    some ({ s with
      aiocb := update s.aiocb a
        { s.aiocb a with aioBuf := aioBuf, aioNbytes := aioNbytes, sigevSignal := sigevSignal } }, none)
  | .transfer t a answer =>
    if s.runs t ∧ s.pc t = .idle then
      let (s', ret, errno) := s.aioDataTransfer t a answer
      some (s'.setPc t (.returned ret errno), none)
    else none
  | .lioListio t mode list sig =>
    if s.runs t ∧ s.pc t = .idle then some (s.lioListio t mode list sig, none) else none
  | .listNext t answer =>
    match s.pc t with
    | .listing rest list wait => if s.runs t then some (s.listNext t answer rest list wait, none) else none
    | _ => none
  | .aioSuspend t list timeout =>
    if s.runs t ∧ s.pc t = .idle then some (s.setPc t (.suspending ⟨list, false, timeout⟩), none) else none
  | .privSuspend t frame now =>
    match s.pc t with
    | .suspending p => if s.runs t ∧ frame ≠ 0 then some (s.privSuspend t p frame now, none) else none
    | _ => none
  | .resume t ret =>
    match s.pc t with
    | .suspended _ =>
      if s.runs t then
        let (ret, errno) := suspendResult (s.sched.table t).unblockType ret
        some (s.setPc t (.returned ret errno), none)
      else none
    | _ => none
  | .leave t =>
    match s.pc t with
    | .returned ret errno =>
      if s.runs t then
        some ({ s with wokenBy := update s.wokenBy t none }.setPc t .idle, some (.returned t ret errno))
      else none
    | _ => none
  | .complete a nbyte delivered => if 0 < s.held a then some (s.complete a nbyte delivered, none) else none
  | .wake t u => some ({ s with sched := s.sched.privWake t u }, none)

end System

end Aio

end CoActionOS
