import CoActionOS.Errno
import CoActionOS.Lib.Run
import CoActionOS.Sched.Basic
import Mathlib.Algebra.GroupWithZero.Nat

/-!
# Signals of one thread

A signal is delivered by stacking `signal_handler` on whatever the thread executes, also on another handler, so that
what the thread is in is a stack of frames of which the first executes.  `sigpending` is read and written in two
accesses, between which a signal can be delivered.

The code of the program, its handlers included, calls what it likes; other threads of the process change the tables of
actions and of signal information.  Whether a sleeping call finds the flag of a caught signal, and what woke it, are
inputs.
-/

namespace CoActionOS

namespace Signal

open Function

/-- `sigset_t` -/
abbrev Sigset : Type := BitVec 32

/-- `SCHED_NUM_SIGNALS` -/
def schedNumSignals : Nat := 32

/-- `1<<signo` -/
def sigbit (signo : Nat) : Sigset := BitVec.twoPow 32 signo

def sigkill : Nat := 10
def sigstop : Nat := 14

/-- `siginfo_t` -/
structure Siginfo where
  siSigno : Int
  siTid : Nat
  siCode : Int
  siValue : Int
  deriving DecidableEq, Repr

inductive Handler
  | sigDfl
  | sigIgn
  | user
  deriving DecidableEq, Repr

/-- `struct sigaction`; `saSiginfo` says that `SA_SIGINFO` is among the flags. -/
structure Sigaction where
  saHandler : Handler
  saSiginfo : Bool
  deriving DecidableEq, Repr

inductive DefaultAction
  | abortAction
  | terminateAction
  | stopAction
  | continueAction
  | ignoreAction
  deriving DecidableEq, Repr

def defaultHandlers : List DefaultAction :=
  [.ignoreAction, .abortAction, .terminateAction, .abortAction, .ignoreAction, .continueAction, .abortAction,
    .terminateAction, .abortAction, .terminateAction, .terminateAction, .terminateAction, .abortAction, .abortAction,
    .stopAction, .terminateAction, .stopAction, .stopAction, .stopAction, .terminateAction, .terminateAction,
    .terminateAction, .terminateAction, .abortAction, .abortAction, .ignoreAction, .terminateAction, .abortAction,
    .abortAction, .ignoreAction, .ignoreAction, .ignoreAction]

def defaultHandler (signo : Nat) : DefaultAction := defaultHandlers.getD signo .ignoreAction

/-- The arguments of `signal_handler`. -/
structure Delivery where
  tid : Nat
  siSigno : Nat
  siSigcode : Int
  sigValue : Int
  deriving DecidableEq, Repr

/-- The information that `signal_handler` keeps; the code stands where the number belongs. -/
def Delivery.siginfo (d : Delivery) : Siginfo := ⟨d.siSigcode, d.tid, d.siSigcode, d.sigValue⟩

inductive WaitCall
  | sigwait
  | sigtimedwait
  | sigwaitinfo
  deriving DecidableEq, Repr

/-- A call and its `*set`. -/
structure Wait where
  call : WaitCall
  set : Sigset
  deriving DecidableEq, Repr

inductive Frame
  /-- code of the program -/
  | code
  /-- `pthread_sigmask` before it stores this mask -/
  | setMask (mask : Sigset)
  /-- before `check_pending_set` -/
  | check (w : Wait)
  /-- `check_pending_set` has found this signal -/
  | clear (w : Wait) (i : Nat)
  /-- `check_pending_set` between the two accesses of its `&=` -/
  | store (w : Wait) (i : Nat) (loaded : Sigset)
  /-- `check_pending_set` has returned -/
  | got (w : Wait) (i : Nat)
  /-- before the privileged call of `signal_priv_wait` -/
  | block (w : Wait)
  | asleep (w : Wait)
  /-- `signal_handler` at its start -/
  | handler (d : Delivery)
  /-- `signal_handler` before it looks whether the signal is blocked -/
  | test (d : Delivery)
  /-- before the `|=` of `signal_handler` -/
  | pend (signo : Nat)
  /-- between its two accesses -/
  | setPending (signo : Nat) (loaded : Sigset)
  /-- `signal_handler` of a signal that is not blocked -/
  | act (d : Delivery)
  /-- in `_exit`, which does not return -/
  | exiting (status : Nat)
  deriving DecidableEq, Repr

/-- A thread with the tables of its process; a table is `none` where the pointer is null. -/
structure Thread where
  sigmask : Sigset
  sigpending : Sigset
  siginfos : Option (Nat → Siginfo)
  sigactions : Option (Nat → Option Sigaction)
  stack : List Frame

inductive How
  | sigBlock
  | sigSetmask
  | sigUnblock
  | other
  deriving DecidableEq, Repr

inductive Action
  | deliver (d : Delivery)
  | pthreadSigmask (how : How) (set : Sigset)
  | wait (w : Wait)
  | exec
  /-- a sleeping call runs on -/
  | resume (sigcaught : Bool) (unblockType : SchedUnblockType)
  /-- a handler of the program returns -/
  | ret
  /-- other threads of the process -/
  | env (siginfos : Option (Nat → Siginfo)) (sigactions : Option (Nat → Option Sigaction))

inductive WaitResult
  /-- `sigwait` returns `0` with this `*sig` -/
  | sig (i : Nat)
  /-- the other two return `0` with this `*info` -/
  | info (si : Siginfo)
  | failed (errno : Errno)
  deriving DecidableEq, Repr

inductive Event
  /-- `pthread_sigmask` returns, with the old mask where it succeeds -/
  | sigmask (ret : Except Errno Sigset)
  | waited (w : Wait) (r : WaitResult)
  /-- a handler of the program is called, with the information if it takes it -/
  | handled (signo : Nat) (info : Option Siginfo)
  | defaulted (signo : Nat) (action : DefaultAction)

namespace Thread

variable (s : Thread)

/-- The mask that `pthread_sigmask` stores. -/
def newMask (how : How) (set : Sigset) : Option Sigset :=
  let deleted := sigbit sigkill ||| sigbit sigstop
  match how with
  | .sigBlock => some ((s.sigmask ||| set) &&& ~~~deleted)
  | .sigSetmask => some (set &&& ~~~deleted)
  | .sigUnblock => some ((s.sigmask &&& ~~~set) &&& ~~~deleted)
  | .other => none

/-- The loop of `check_pending_set`. -/
def lowest (mask : Sigset) : Option Nat := (List.range schedNumSignals).find? fun i => (mask &&& sigbit i) != 0

/-- The signal is masked and can be. -/
def blocks (signo : Nat) : Bool := signo != sigstop && signo != sigkill && (s.sigmask &&& sigbit signo) != 0

/-- A blocked signal is ignored; without a table of actions none is. -/
def ignores (signo : Nat) : Bool :=
  match s.sigactions with
  | none => false
  | some table =>
    match table signo with
    | some sa => sa.saHandler == .sigIgn
    | none => defaultHandler signo == .ignoreAction

def enter (stack : List Frame) : Thread := { s with stack := stack }

/-- `default_handlers[signo]`; stopping and continuing are the scheduler's. -/
def defaultAction (signo : Nat) (rest : List Frame) : Thread × Option Event :=
  let action := defaultHandler signo
  match action with
  | .abortAction | .terminateAction => (s.enter (.exiting (signo <<< 8) :: rest), some (.defaulted signo action))
  | .stopAction | .continueAction | .ignoreAction => (s.enter rest, some (.defaulted signo action))

/-- The end of `signal_handler`. -/
def act (d : Delivery) (rest : List Frame) : Thread × Option Event :=
  match s.sigactions.bind fun table => table d.siSigno with
  | none => s.defaultAction d.siSigno rest
  | some sa =>
    match sa.saHandler with
    | .sigDfl => s.defaultAction d.siSigno rest
    | .sigIgn => (s.enter rest, none)
    | .user =>
      let info := if sa.saSiginfo then some { d.siginfo with siSigno := d.siSigno } else none
      (s.enter (.code :: rest), some (.handled d.siSigno info))

/-- What a wait does with the signal that `check_pending_set` has returned. -/
def answer (w : Wait) (i : Nat) (rest : List Frame) : Thread × Option Event :=
  if i = 0 then (s.enter (.block w :: rest), none)
  else
    match w.call with
    | .sigwait => (s.enter rest, some (.waited w (.sig i)))
    | .sigtimedwait | .sigwaitinfo =>
      match s.siginfos with
      | some infos => (s.enter rest, some (.waited w (.info (infos i))))
      | none => (s.enter (.block w :: rest), none)

/-- The next step of the frame that executes. -/
def execFrame (rest : List Frame) : Frame → Option (Thread × Option Event)
  | .code | .asleep _ | .exiting _ => none
  | .setMask mask => some ({ s with sigmask := mask, stack := rest }, some (.sigmask (.ok s.sigmask)))
  | .check w =>
    let mask := s.sigpending &&& w.set
    match if mask ≠ 0 then lowest mask else none with
    | some i => some (s.enter (.clear w i :: rest), none)
    | none => some (s.enter (.block w :: rest), none)
  | .clear w i => some (s.enter (.store w i s.sigpending :: rest), none)
  | .store w i loaded => some ({ s with sigpending := loaded &&& ~~~sigbit i, stack := .got w i :: rest }, none)
  | .got w i => some (s.answer w i rest)
  | .block w => some (s.enter (.asleep w :: rest), none)
  | .handler d =>
    if d.siSigno < schedNumSignals then
      some ({ s with
        siginfos := s.siginfos.map fun infos => update infos d.siSigno d.siginfo
        stack := .test d :: rest }, none)
    else some (s.enter rest, none)
  | .test d =>
    if s.blocks d.siSigno then
      if s.ignores d.siSigno then some (s.enter rest, none) else some (s.enter (.pend d.siSigno :: rest), none)
    else some (s.enter (.act d :: rest), none)
  | .pend signo => some (s.enter (.setPending signo s.sigpending :: rest), none)
  | .setPending signo loaded => some ({ s with sigpending := loaded ||| sigbit signo, stack := rest }, none)
  | .act d => some (s.act d rest)

/-- What a call does when it runs on after its sleep. -/
def wakeUp (w : Wait) (rest : List Frame) (sigcaught : Bool) (unblockType : SchedUnblockType) :
    Thread × Option Event :=
  if w.call ≠ .sigwait ∧ sigcaught then (s.enter rest, some (.waited w (.failed .eintr)))
  else if w.call = .sigtimedwait ∧ unblockType = .sleep then (s.enter rest, some (.waited w (.failed .eagain)))
  else (s.enter (.check w :: rest), none)

def step : Action → Option (Thread × Option Event)
  | .deliver d => if d.siSigno ≠ 0 then some (s.enter (.handler d :: s.stack), none) else none
  | .pthreadSigmask how set =>
    match s.stack with
    | .code :: _ =>
      match s.newMask how set with
      | some mask => some (s.enter (.setMask mask :: s.stack), none)
      | none => some (s, some (.sigmask (.error .einval)))
    | _ => none
  | .wait w =>
    match s.stack with
    | .code :: _ => some (s.enter (.check w :: s.stack), none)
    | _ => none
  | .exec =>
    match s.stack with
    | f :: rest => s.execFrame rest f
    | [] => none
  | .resume sigcaught unblockType =>
    match s.stack with
    | .asleep w :: rest => some (s.wakeUp w rest sigcaught unblockType)
    | _ => none
  | .ret =>
    match s.stack with
    | .code :: f :: rest => some (s.enter (f :: rest), none)
    | _ => none
  | .env siginfos sigactions => some ({ s with siginfos := siginfos, sigactions := sigactions }, none)

end Thread

end Signal

end CoActionOS
