import CoActionOS.Sched.Basic

/-!
# The privileged calls of the synchronisation objects, of threads and of job control

What the condition variables, semaphores and message queues do to the scheduler tables, and the
calls that create a task and that stop and continue a process.
-/

namespace CoActionOS.Sched

variable (s : Sched)

/-! ### Waking a task -/

/-- `sched_priv_assert_active` followed by `sched_priv_update_on_wake` with the task's priority. -/
def privWake (id : Nat) (unblockType : SchedUnblockType) : Sched :=
  let s := s.schedPrivAssertActive id unblockType
  s.schedPrivUpdateOnWake (s.table id).priority

def privCondSignal (id : Nat) : Sched := s.privWake id .cond

def privSemPost (id : Nat) : Sched :=
  (s.modify id fun t => { t with blockObject := 0 }).privWake id .semaphore

def privWakeBlocked (id : Nat) : Sched := s.privWake id .mq

/-- Task `id` is enabled, inactive and blocked on `blockObject`: the test of
`sched_priv_unblock_all`. -/
def blockedOn (id blockObject : Nat) : Bool :=
  (s.table id).enabled && (s.table id).blockObject == blockObject && !(s.table id).active

/-- The second component is the highest base priority among the tasks woken. -/
def schedPrivUnblockAll (blockObject : Nat) (unblockType : SchedUnblockType) : Sched × Int :=
  s.ids.foldl
    (fun (acc : Sched × Int) i =>
      if acc.1.blockedOn i blockObject then
        (acc.1.schedPrivAssertActive i unblockType,
          if (acc.1.table i).attrPriority > acc.2 then (acc.1.table i).attrPriority else acc.2)
      else acc)
    (s, schedLowestPriority - 1)

def privCondBroadcast (cond : Nat) : Sched :=
  let (s, prio) := s.schedPrivUnblockAll cond .cond
  s.schedPrivUpdateOnWake prio

/-! ### Going to sleep on a semaphore -/

/-- `priv_sem_wait` but for the semaphore's value: `block` is `sem->value <= 0`. -/
def privSemWait (current sem : Nat) (block : Bool) : Sched :=
  let s := s.modify current fun t => { t with blockObject := sem }
  if block then (s.schedPrivDeassertActive current).schedPrivUpdateOnSleep current else s

/-! ### Creating a task -/

/-- The first free row becomes a task of process `pid`. -/
def taskPrivNewTask (pid : Nat) : Option (Sched × Nat) :=
  match s.ids.find? fun i => !(s.table i).enabled with
  | none => none
  | some i => some (s.modify i fun t => { t with enabled := true, exec := false, pid := pid }, i)

/-- The row of `sched_table` is cleared first, the row of `task_table` is not. -/
def privActivateThread (id : Nat) (schedPriority : Int) : Sched :=
  let s := s.modify id fun t =>
    { enabled := t.enabled
      exec := t.exec
      pid := t.pid
      active := false
      stopped := false
      aiosuspend := false
      unblockType := .none
      blockObject := 0
      wake := ⟨schedTimevalSecInvalid, 0⟩
      priority := schedPriority
      attrPriority := schedPriority }
  s.privWake id .none

/-- `priv_cleanup` of task `current`, whose row of `sched_table` is at the address `self`: the tasks that
joined it are woken first. -/
def privCleanupJoined (current self : Nat) : Sched :=
  (s.ids.foldl
    (fun acc i =>
      if (acc.table i).blockObject == self then
        acc.schedPrivAssertActive i .pthreadJoinedThreadComplete
      else acc) s).privCleanup current

/-! ### Stopping and continuing a process -/

/-- `isThread` is `task_isthread_asserted(task_get_current())`. -/
def privStoppid (current : Nat) (isThread : Bool) : Sched :=
  let s' :=
    if isThread then s.modify current fun t => { t with stopped := true }
    else
      { s with
        table := fun i =>
          if i ∈ s.ids ∧ (s.table i).pid = (s.table current).pid then
            { s.table i with stopped := true }
          else s.table i }
  s'.schedPrivUpdateOnStopped

def privContpid (current : Nat) (isThread : Bool) : Sched :=
  if isThread then
    (s.schedPrivDeassertStopped current).schedPrivUpdateOnWake (s.table current).priority
  else
    let highestPrio := s.ids.foldl
      (fun p i =>
        if (s.table i).pid == (s.table current).pid && (s.table i).priority > p then
          (s.table i).priority
        else p) 0
    { s with
      table := fun i =>
        if i ∈ s.ids ∧ (s.table i).pid = (s.table current).pid then
          { s.table i with stopped := false }
        else s.table i }.schedPrivUpdateOnWake highestPrio

end CoActionOS.Sched
