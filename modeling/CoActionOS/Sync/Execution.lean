import CoActionOS.Lib.Run
import CoActionOS.Sched.Execution
import CoActionOS.Sync.Effect

/-!
# Which tasks execute, over runs of privileged calls

`SchedAction` lists the privileged calls that touch the scheduler tables, each one atomic, and the
interrupts.  A call that acts on its caller is made by a task that is flagged for execution.

The calls that put the caller to sleep leave the flags and the current priority right in any case.  The
others do so only under conditions on the tasks involved, which `Steady` lists call by call:
`executes_of_steady` is the run theorem and `not_alwaysExecutes` a run that breaks it.
-/

namespace CoActionOS

open Function

inductive SchedAction
  | timedblock (id blockObject : Nat) (absTime : SchedTimeval) (now : Nat)
  | updateOnSleep (id : Nat)
  | semWait (id sem : Nat) (block : Bool)
  /-- `sched_priv_assert_active` followed by `sched_priv_update_on_wake`: a signalled condition, a
  message queue, an interrupt handler -/
  | wake (id : Nat) (unblockType : SchedUnblockType)
  | semPost (id : Nat)
  | condBroadcast (cond : Nat)
  | signal (id : Nat)
  | matchEvent (now : Nat)
  | overflowEvent (now : Nat)
  | mutexTrylock (id mutex : Nat) (trylock : Bool) (absTimeout : SchedTimeval) (now : Nat)
  /-- on behalf of task `id`, which need not be the caller -/
  | mutexUnlock (id mutex : Nat)
  | condWait (id cond mutex : Nat) (newThread : Option Nat) (interval : SchedTimeval) (now : Nat)
  | stoppid (id : Nat) (isThread : Bool)
  | contpid (id : Nat) (isThread : Bool)
  /-- thread `id` creates a thread -/
  | newTask (id : Nat)
  | activateThread (id : Nat) (schedPriority : Int)
  /-- thread `id`, whose row of `sched_table` is at the address `self`, ends -/
  | cleanup (id self : Nat)
  | stopThreads (id : Nat)
  deriving DecidableEq, Repr

namespace Sync

variable (s : Sync)

/-- Task `id` is one of the tasks that execute. -/
def executing (id : Nat) : Bool := decide (id ∈ s.sys.sched.ids) && (s.row id).exec

def isTask (id : Nat) : Bool := decide (id ∈ s.sys.sched.ids)

def schedStep : SchedAction → Option (Sync × Option Empty)
  | .timedblock id obj tv now =>
    if s.executing id then some (s.setSched (s.sys.sched.schedPrivTimedblock id obj tv now), none)
    else none
  | .updateOnSleep id =>
    if s.executing id then some (s.setSched (s.sys.sched.schedPrivUpdateOnSleep id), none) else none
  | .semWait id sem block =>
    if s.executing id then some (s.setSched (s.sys.sched.privSemWait id sem block), none) else none
  | .wake id u => if s.isTask id then some (s.setSched (s.sys.sched.privWake id u), none) else none
  | .semPost id => if s.isTask id then some (s.setSched (s.sys.sched.privSemPost id), none) else none
  | .condBroadcast cond => some (s.setSched (s.sys.sched.privCondBroadcast cond), none)
  | .signal id =>
    if s.isTask id then some (s.setSched (s.sys.sched.signalPrivActivate id), none) else none
  | .matchEvent now => some (s.setSched (s.sys.sched.privUsecondMatchEvent now), none)
  | .overflowEvent now => some (s.setSched (s.sys.sched.usecondOverflowEvent now), none)
  | .mutexTrylock id m trylock tv now =>
    if s.executing id && m != 0 then
      some ({ s with sys := (s.sys.privMutexTrylock id m trylock tv now).1 }, none)
    else none
  | .mutexUnlock id m =>
    if s.isTask id && m != 0 then some ({ s with sys := s.sys.privMutexUnlock id m }, none) else none
  | .condWait id cond m newThread tv now =>
    if s.executing id && cond != 0 then some ((s.privCondWait id cond m newThread tv now).1, none)
    else none
  | .stoppid id isThread =>
    if s.executing id then some (s.setSched (s.sys.sched.privStoppid id isThread), none) else none
  | .contpid id isThread =>
    if s.executing id then some (s.setSched (s.sys.sched.privContpid id isThread), none) else none
  | .newTask id =>
    if s.executing id then
      match s.sys.sched.taskPrivNewTask (s.row id).pid with
      | some (sched, _) => some (s.setSched sched, none)
      | none => none
    else none
  | .activateThread id prio =>
    if s.isTask id && (s.row id).enabled then
      some (s.setSched (s.sys.sched.privActivateThread id prio), none)
    else none
  | .cleanup id self =>
    if s.executing id then some (s.setSched (s.sys.sched.privCleanupJoined id self), none) else none
  | .stopThreads id =>
    if s.executing id then some (s.setSched (s.sys.sched.privStopThreads id), none) else none

end Sync

/-! ### The conditions -/

namespace Sched

variable (s : Sched)

/-- Some runnable task other than `id` passes the test on its priority. -/
def someOther (id : Nat) (p : Int → Bool) : Bool :=
  s.ids.any fun i => i != id && s.runnable i && p (s.table i).priority

/-- The flags stay right when task `id` and with it the current priority fall or rise to `base`, and no
flag is recomputed: nothing changes, or `id` was the only task flagged and is the only one to be. -/
def SoleHolder (id : Nat) (base : Int) : Prop :=
  (base = s.currentPriority ∧ (s.runnable id = true → (s.table id).exec = true)) ∨
    ((s.table id).exec = true ∧ s.someOther id (fun p => min base s.currentPriority ≤ p) = false)

/-- When task `id` unlocks a mutex of ceiling `ceiling` and the sleeper `heir`, if any, is to own it. -/
def UnlockSteady (id : Nat) (ceiling : Int) (heir : Option Nat) : Prop :=
  let base := (s.table id).attrPriority
  match heir with
  | none =>
    if base < s.currentPriority then
      s.someOther id (fun p => base < p) = false ∧
        (s.runnable id = true ∨ s.someOther id (fun p => p = base) = true)
    else s.SoleHolder id base
  | some n =>
    validPriority ceiling ∧
      if ceiling < base then s.SoleHolder id base
      else
        s.someOther id (fun p => ceiling < p) = false ∧
          ((s.table n).stopped = false ∨ s.someOther id (fun p => p = ceiling) = true ∨
            (ceiling = base ∧ s.runnable id = true))

/-- The test of the timer interrupt that wakes the tasks passing `due`. -/
def DueSteady (due : Nat → Bool) : Prop :=
  ∀ i ∈ s.ids, due i = true → s.currentPriority < (s.table i).priority →
    ∃ j ∈ s.ids, due j = true ∧ (s.table j).stopped = false ∧
      (s.table i).priority ≤ (s.table j).priority

variable {s}

theorem someOther_eq_false {id : Nat} {p : Int → Bool} :
    s.someOther id p = false ↔
      ∀ i ∈ s.ids, i ≠ id → s.runnable i = true → p (s.table i).priority = false := by
  unfold someOther
  simp only [List.any_eq_false, Bool.and_eq_true, bne_iff_ne, ne_eq, not_and, Bool.not_eq_true,
    and_imp]

theorem someOther_eq_true {id : Nat} {p : Int → Bool} :
    s.someOther id p = true ↔
      ∃ i ∈ s.ids, i ≠ id ∧ s.runnable i = true ∧ p (s.table i).priority = true := by
  unfold someOther
  simp only [List.any_eq_true, Bool.and_eq_true, bne_iff_ne, ne_eq, and_assoc]

/-! ### Unlocking a mutex -/

theorem table_restorePriority (s : Sched) (id i : Nat) :
    (s.restorePriority id).table i =
      if i = id then { s.table id with priority := (s.table id).attrPriority, blockObject := 0 }
      else s.table i :=
  table_modify s id (fun t => { t with priority := t.attrPriority, blockObject := 0 }) i

theorem runnable_restorePriority (s : Sched) (id i : Nat) :
    (s.restorePriority id).runnable i = s.runnable i := by
  unfold runnable
  rw [table_restorePriority]
  split_ifs with hi
  · rw [hi]
  · rfl

theorem currentPriority_restorePriority (s : Sched) (id : Nat) :
    (s.restorePriority id).currentPriority = (s.table id).attrPriority := by
  unfold restorePriority
  simp only
  rw [table_modify_self]

theorem valid_restorePriority (h : s.Settled) (id i : Nat) :
    validPriority ((s.restorePriority id).table i).priority ∧
      validPriority ((s.restorePriority id).table i).attrPriority := by
  rw [table_restorePriority]
  split_ifs with hi
  · exact ⟨(h.valid id).2, (h.valid id).2⟩
  · exact h.valid i

theorem Settled.restorePriority (h : s.Settled) {id : Nat} (hid : id ∈ s.ids)
    (hok : s.SoleHolder id (s.table id).attrPriority) : (s.restorePriority id).Settled := by
  have hself : ((s.restorePriority id).table id).priority = (s.table id).attrPriority := by
    rw [table_restorePriority, if_pos rfl]
  have hexec : ∀ i, ((s.restorePriority id).table i).exec = (s.table i).exec := by
    intro i
    rw [table_restorePriority]
    split_ifs with hi
    · rw [hi]
    · rfl
  have hother : ∀ i, i ≠ id → ((s.restorePriority id).table i).priority = (s.table i).priority := by
    intro i hi
    rw [table_restorePriority, if_neg hi]
  rcases hok with ⟨hbase, hflag⟩ | ⟨hflag, hsole⟩
  · -- the current priority stays, and `id` has it already or cannot run
    constructor
    · intro i hi hr
      rw [runnable_restorePriority] at hr
      rw [currentPriority_restorePriority]
      by_cases hi' : i = id
      · subst hi'; exact hself.le
      · rw [hother i hi', hbase]
        exact h.upper i hi hr
    · intro i hi hr
      rw [runnable_restorePriority] at hr
      obtain ⟨j, hj, hrj, hpj⟩ := h.attained i hi hr
      refine ⟨j, hj, ?_, ?_⟩
      · rw [runnable_restorePriority]; exact hrj
      · rw [currentPriority_restorePriority]
        by_cases hj' : j = id
        · subst hj'; exact hself
        · rw [hother j hj', hbase]; exact hpj
    · intro i hi
      rw [hexec, runnable_restorePriority, currentPriority_restorePriority]
      by_cases hi' : i = id
      · subst hi'
        rw [hself]
        constructor
        · exact fun he => ⟨((h.flagged i hi).mp he).1, rfl⟩
        · exact fun hr => hflag hr.1
      · rw [hother i hi', hbase]
        exact h.flagged i hi
    · intro hno
      rw [currentPriority_restorePriority, hbase]
      apply h.low
      intro i hi
      rw [← runnable_restorePriority s id i]
      exact hno i hi
    · exact valid_restorePriority h id
  · -- no other task has reached the lower of the two priorities
    rw [someOther_eq_false] at hsole
    have hlow : ∀ i ∈ s.ids, i ≠ id → s.runnable i = true →
        (s.table i).priority < (s.table id).attrPriority ∧
          (s.table i).priority < s.currentPriority := by
      intro i hi hne hr
      have hlt := hsole i hi hne hr
      rw [decide_eq_false_iff_not, not_le, lt_min_iff] at hlt
      exact hlt
    have hrun := ((h.flagged id hid).mp hflag).1
    constructor
    · intro i hi hr
      rw [runnable_restorePriority] at hr
      rw [currentPriority_restorePriority]
      by_cases hi' : i = id
      · subst hi'; exact hself.le
      · rw [hother i hi']
        exact (hlow i hi hi' hr).1.le
    · intro i _ _
      refine ⟨id, hid, ?_, ?_⟩
      · rw [runnable_restorePriority]; exact hrun
      · rw [hself, currentPriority_restorePriority]
    · intro i hi
      rw [hexec, runnable_restorePriority, currentPriority_restorePriority]
      by_cases hi' : i = id
      · subst hi'
        rw [hself, hflag, hrun]
        simp
      · rw [hother i hi', h.flagged i hi]
        constructor
        · rintro ⟨hr, hp⟩
          exact absurd hp (hlow i hi hi' hr).2.ne
        · rintro ⟨hr, hp⟩
          exact absurd hp (hlow i hi hi' hr).1.ne
    · intro hno
      have hr := hno id hid
      rw [runnable_restorePriority, hrun] at hr
      exact absurd hr (by simp)
    · exact valid_restorePriority h id

end Sched

namespace Sys

variable {s : Sys}

theorem settled_trylock (h : s.sched.Settled) {id m : Nat} (try_ : Bool) (tv : SchedTimeval)
    (now : Nat) (hok : (s.mutex m).pthread = none → (s.mutex m).prioCeiling ≤ (s.sched.table id).priority) :
    (s.privMutexTrylock id m try_ tv now).1.sched.Settled := by
  unfold privMutexTrylock
  by_cases hfree : (s.mutex m).pthread = none
  · rw [if_pos hfree, if_neg (not_lt.mpr (hok hfree))]
    exact h
  · rw [if_neg hfree]
    cases try_ with
    | true => exact h
    | false => exact h.timedblock id m tv now

/-- The heir's ceiling becomes the current priority. -/
theorem settled_handOver (h : s.sched.Settled) {id n : Nat} {ceiling : Int} (hid : id ∈ s.sched.ids)
    (hne : n ≠ id) (hn : n ∈ s.sched.ids) (henabled : (s.sched.table n).enabled = true)
    (hceiling : Sched.validPriority ceiling) (hge : (s.sched.table id).attrPriority ≤ ceiling)
    (hupper : ∀ i ∈ s.sched.ids, i ≠ id → s.sched.runnable i = true →
      (s.sched.table i).priority ≤ ceiling)
    (hfound : (s.sched.table n).stopped = false ∨
      s.sched.someOther id (fun p => p = ceiling) = true ∨
      (ceiling = (s.sched.table id).attrPriority ∧ s.sched.runnable id = true))
    (hasleep : s.sched.runnable n = false) :
    (((s.sched.restorePriority id).modify n fun t => { t with priority := ceiling }).privWake n
      .mutex).Settled := by
  -- the owner gets its own priority back, and the heir the ceiling
  have hbase := Sched.currentPriority_restorePriority s.sched id
  have hself : ((s.sched.restorePriority id).table id).priority = (s.sched.table id).attrPriority := by
    rw [Sched.table_restorePriority, if_pos rfl]
  set s₁ := ((s.sched.restorePriority id).modify n fun t =>
    { t with priority := ceiling }).schedPrivAssertActive n .mutex with hs₁
  have hrow : ∀ i, i ≠ n → s₁.table i = (s.sched.restorePriority id).table i := by
    intro i hi
    rw [hs₁, Sched.table_assertActive, if_neg hi, Sched.table_modify_of_ne _ hi]
  have hheir : (s₁.table n).priority = ceiling := by
    rw [hs₁, Sched.table_assertActive, if_pos rfl, Sched.table_modify_self]
    rfl
  have hrun : ∀ i, i ≠ n → s₁.runnable i = s.sched.runnable i := by
    intro i hi
    rw [Sched.runnable_of_row (hrow i hi), Sched.runnable_restorePriority]
  show (s₁.schedPrivUpdateOnWake (s₁.table n).priority).Settled
  rw [hheir]
  apply Sched.settled_updateOnWake_of_le
  · show (s.sched.restorePriority id).currentPriority ≤ ceiling
    rw [hbase]
    exact hge
  · intro i hi hr
    by_cases hin : i = n
    · subst hin; exact hheir.le
    · rw [hrun i hin] at hr
      rw [hrow i hin]
      by_cases hi' : i = id
      · subst hi'
        rw [hself]
        exact hge
      · rw [Sched.table_restorePriority, if_neg hi']
        exact hupper i hi hi' hr
  -- who has the ceiling: the heir, another task, or the owner itself
  · rcases hfound with hstopped | hother | ⟨heq, hr⟩
    -- the heir, which runs now unless it is stopped
    · refine ⟨n, hn, ?_, hheir⟩
      rw [hs₁, Sched.runnable_assertActive, if_pos rfl, Sched.table_modify_self,
        Sched.table_restorePriority, if_neg hne]
      simp [henabled, hstopped]
    · obtain ⟨i, hi, hi', hri, hpi⟩ := Sched.someOther_eq_true.mp hother
      have hin : i ≠ n := by
        rintro rfl
        rw [hasleep] at hri
        exact absurd hri (by simp)
      refine ⟨i, hi, ?_, ?_⟩
      · rw [hrun i hin]; exact hri
      · rw [hrow i hin, Sched.table_restorePriority, if_neg hi']
        exact of_decide_eq_true hpi
    · refine ⟨id, hid, ?_, ?_⟩
      · rw [hrun id hne.symm]; exact hr
      · rw [hrow id hne.symm, hself, heq]
  · intro i
    by_cases hin : i = n
    · subst hin
      rw [hheir, hs₁, Sched.table_assertActive, if_pos rfl, Sched.table_modify_self,
        Sched.table_restorePriority, if_neg hne]
      exact ⟨hceiling, (h.valid i).2⟩
    · rw [hrow i hin]
      exact Sched.valid_restorePriority h id i

theorem settled_unlock (h : s.sched.Settled) {id m : Nat} (hid : id ∈ s.sched.ids) (hm : m ≠ 0)
    (hok : s.sched.UnlockSteady id (s.mutex m).prioCeiling (s.unlockHeir id m)) :
    (s.privMutexUnlock id m).sched.Settled := by
  have hbase := Sched.currentPriority_restorePriority s.sched id
  have hself : ((s.sched.restorePriority id).table id).priority = (s.sched.table id).attrPriority := by
    rw [Sched.table_restorePriority, if_pos rfl]
  unfold Sched.UnlockSteady at hok
  unfold privMutexUnlock
  unfold unlockHeir at hok
  simp only at hok ⊢
  cases hheir : (s.sched.restorePriority id).schedGetHighestPriorityBlocked m with
  -- nobody waits for the mutex
  | none =>
    rw [hheir] at hok
    simp only at hok ⊢
    rw [hbase]
    by_cases hlt : (s.sched.table id).attrPriority < s.sched.currentPriority
    -- the priority of the owner drops, and the current priority is found again
    · rw [if_pos hlt] at hok ⊢
      obtain ⟨hnone, hfound⟩ := hok
      rw [Sched.someOther_eq_false] at hnone
      show ((s.sched.restorePriority id).schedPrivUpdateOnWake _).Settled
      rw [hself]
      apply Sched.settled_updateOnWake_of_le
      · exact hbase.le
      · intro i hi hr
        rw [Sched.runnable_restorePriority] at hr
        by_cases hi' : i = id
        · subst hi'; exact hself.le
        · rw [Sched.table_restorePriority, if_neg hi']
          have hle := hnone i hi hi' hr
          exact not_lt.mp (of_decide_eq_false hle)
      · rcases hfound with hr | hr
        · exact ⟨id, hid, by rw [Sched.runnable_restorePriority]; exact hr, hself⟩
        · obtain ⟨i, hi, hne, hri, hpi⟩ := Sched.someOther_eq_true.mp hr
          refine ⟨i, hi, by rw [Sched.runnable_restorePriority]; exact hri, ?_⟩
          rw [Sched.table_restorePriority, if_neg hne]
          exact of_decide_eq_true hpi
      · exact Sched.valid_restorePriority h id
    · rw [if_neg hlt] at hok ⊢
      exact h.restorePriority hid hok
  | some n =>
    rw [hheir] at hok
    simp only at hok
    obtain ⟨hceiling, hok⟩ := hok
    obtain ⟨hn, henabled, hblock, hactive⟩ := Sched.getHighestPriorityBlocked_spec _ hheir
    -- the owner has just left its queue
    have hne : n ≠ id := by
      rintro rfl
      rw [Sched.table_restorePriority, if_pos rfl] at hblock
      exact hm hblock.symm
    have hrow : (s.sched.restorePriority id).table n = s.sched.table n := by
      rw [Sched.table_restorePriority, if_neg hne]
    have hasleep : (s.sched.restorePriority id).runnable n = false := by
      unfold Sched.runnable
      rw [hactive, Bool.and_false, Bool.false_and]
    show (((s.sched.restorePriority id).modify n fun t =>
      { t with priority := (s.mutex m).prioCeiling }).privWake n .mutex).Settled
    by_cases hlt : (s.mutex m).prioCeiling < (s.sched.table id).attrPriority
    -- the ceiling is below the owner's own priority, which stays the current one
    · rw [if_pos hlt] at hok
      apply ((h.restorePriority hid hok).setPriority hasleep hceiling).wake hn
      right
      rw [Sched.table_modify_self]
      show _ ≤ (s.sched.restorePriority id).currentPriority
      rw [hbase]
      exact hlt.le
    · rw [if_neg hlt] at hok
      -- the heir takes over with the ceiling
      obtain ⟨hnone, hfound⟩ := hok
      rw [Sched.someOther_eq_false] at hnone
      rw [hrow] at henabled
      rw [Sched.runnable_restorePriority] at hasleep
      apply settled_handOver h hid hne hn henabled hceiling (not_lt.mp hlt)
      · intro i hi hi' hr
        exact not_lt.mp (of_decide_eq_false (hnone i hi hi' hr))
      · exact hfound
      · exact hasleep

end Sys

namespace Sync

variable {s s' : Sync}

/-- The caller goes to sleep, which brings the flags up to date whatever was done before. -/
theorem settled_condWait (h : s.sys.sched.Settled) {id cond m : Nat} {newThread : Option Nat}
    (hcond : cond ≠ 0) (tv : SchedTimeval) (now : Nat)
    (hok : (s.sys.mutex m).pthread = some id → newThread ≠ none →
      Sched.validPriority (s.sys.mutex m).prioCeiling) :
    (s.privCondWait id cond m newThread tv now).1.sys.sched.Settled := by
  unfold privCondWait
  by_cases howner : (s.sys.mutex m).pthread = some id
  · simp only [howner, ite_true]
    have hbase := h.coherent.setPriority id SchedTask.attrPriority (h.valid id).2
    cases newThread with
    | none => exact hbase.timedblock id hcond tv now
    | some n =>
      have hheir := hbase.setPriority n (fun _ => (s.sys.mutex m).prioCeiling) (hok howner (by simp))
      exact ((Sched.awakens_assertActive _ n .mutex).coherent hheir).timedblock id hcond tv now
  · simp only [howner, ite_false]
    exact h

/-- What a call must find for the flags and the current priority to stay right. -/
def Steady (s : Sync) : SchedAction → Prop
  | .timedblock .. | .updateOnSleep _ | .semWait .. | .cleanup .. | .stopThreads _ => True
  | .wake id _ | .semPost id =>
    ((s.row id).enabled = true ∧ (s.row id).stopped = false) ∨
      (s.row id).priority ≤ s.sys.sched.currentPriority
  | .signal id => (s.row id).enabled = true ∨ (s.row id).priority ≤ s.sys.sched.currentPriority
  | .condBroadcast cond =>
    (∀ i ∈ s.sys.sched.ids, s.sys.sched.blockedOn i cond = true → (s.row i).stopped = false →
      (s.row i).priority < s.sys.sched.currentPriority ∨
        ∃ j ∈ s.sys.sched.ids, s.sys.sched.blockedOn j cond = true ∧
          (s.row i).priority ≤ (s.row j).attrPriority) ∧
    (∀ j ∈ s.sys.sched.ids, s.sys.sched.blockedOn j cond = true →
      s.sys.sched.currentPriority < (s.row j).attrPriority →
        ∃ i ∈ s.sys.sched.ids, s.sys.sched.blockedOn i cond = true ∧ (s.row i).stopped = false ∧
          (s.row j).attrPriority ≤ (s.row i).priority)
  | .matchEvent now => s.sys.sched.DueSteady (s.sys.sched.due now)
  | .overflowEvent now =>
    s.sys.sched.DueSteady
      ({ s.sys.sched with usecondCounter := (s.sys.sched.usecondCounter + 1) % 2 ^ 32 }.due now)
  | .mutexTrylock id m .. =>
    (s.sys.mutex m).pthread = none → (s.sys.mutex m).prioCeiling ≤ (s.row id).priority
  | .mutexUnlock id m =>
    s.sys.sched.UnlockSteady id (s.sys.mutex m).prioCeiling (s.sys.unlockHeir id m)
  | .condWait id _ m newThread .. =>
    (s.sys.mutex m).pthread = some id → newThread ≠ none →
      Sched.validPriority (s.sys.mutex m).prioCeiling
  | .stoppid id isThread =>
    ∃ i ∈ s.sys.sched.ids, s.sys.sched.runnable i = true ∧ s.sys.sched.stops id isThread i = false
  | .contpid id isThread =>
    isThread = false → ∀ i ∈ s.sys.sched.ids, (s.row i).pid = (s.row id).pid →
      s.sys.sched.currentPriority < (s.row i).priority →
      ∃ j ∈ s.sys.sched.ids, (s.row j).pid = (s.row id).pid ∧ (s.row j).enabled = true ∧
        (s.row j).active = true ∧ (s.row i).priority ≤ (s.row j).priority
  | .newTask _ =>
    ∀ i ∈ s.sys.sched.ids.find? fun i => !(s.row i).enabled,
      (s.row i).active = true → (s.row i).stopped = false →
        (s.row i).priority < s.sys.sched.currentPriority
  | .activateThread id prio =>
    Sched.validPriority prio ∧ ((s.row id).exec = true → s.sys.sched.currentPriority ≤ prio)

theorem executing_spec {id : Nat} (h : s.executing id = true) :
    id ∈ s.sys.sched.ids ∧ (s.row id).exec = true := by
  unfold executing at h
  simpa only [Bool.and_eq_true, decide_eq_true_eq] using h

theorem isTask_spec {id : Nat} (h : s.isTask id = true) : id ∈ s.sys.sched.ids :=
  of_decide_eq_true h

theorem settled_schedStep {a : SchedAction} {e : Option Empty} (h : s.sys.sched.Settled)
    (hok : s.Steady a) (hs : s.schedStep a = some (s', e)) : s'.sys.sched.Settled := by
  cases a <;> simp only [schedStep, Option.ite_none_right_eq_some, Option.some.injEq, Prod.mk.injEq] at hs
  case timedblock id obj tv now =>
    obtain ⟨_, rfl, _⟩ := hs
    exact h.timedblock id obj tv now
  case updateOnSleep id =>
    obtain ⟨_, rfl, _⟩ := hs
    exact h.coherent.updateOnSleep id
  case semWait id sem block =>
    obtain ⟨_, rfl, _⟩ := hs
    exact h.semWait id sem block
  case wake id u =>
    obtain ⟨hid, rfl, _⟩ := hs
    exact h.wake (isTask_spec hid) u hok
  case semPost id =>
    obtain ⟨hid, rfl, _⟩ := hs
    exact h.semPost (isTask_spec hid) hok
  case condBroadcast cond =>
    obtain ⟨rfl, _⟩ := hs
    exact h.condBroadcast cond hok.1 hok.2
  case signal id =>
    obtain ⟨hid, rfl, _⟩ := hs
    exact h.signal (isTask_spec hid) hok
  case matchEvent now =>
    obtain ⟨rfl, _⟩ := hs
    exact h.matchEvent now hok
  case overflowEvent now =>
    obtain ⟨rfl, _⟩ := hs
    exact h.overflowEvent now hok
  case mutexTrylock id m try_ tv now =>
    obtain ⟨_, rfl, _⟩ := hs
    exact Sys.settled_trylock h try_ tv now hok
  case mutexUnlock id m =>
    obtain ⟨hid, rfl, _⟩ := hs
    simp only [Bool.and_eq_true, bne_iff_ne, ne_eq] at hid
    exact Sys.settled_unlock h (isTask_spec hid.1) hid.2 hok
  case condWait id cond m newThread tv now =>
    obtain ⟨hid, rfl, _⟩ := hs
    simp only [Bool.and_eq_true, bne_iff_ne, ne_eq] at hid
    exact settled_condWait h hid.2 tv now hok
  case stoppid id isThread =>
    obtain ⟨_, rfl, _⟩ := hs
    exact h.stoppid id isThread hok
  case contpid id isThread =>
    obtain ⟨hid, rfl, _⟩ := hs
    obtain ⟨hcur, hexec⟩ := executing_spec hid
    exact h.contpid hcur hexec isThread hok
  case newTask id =>
    obtain ⟨_, hs⟩ := hs
    cases hnew : s.sys.sched.taskPrivNewTask (s.row id).pid with
    | none =>
      rw [hnew] at hs
      exact absurd hs (by simp)
    | some p =>
      obtain ⟨sched, i⟩ := p
      rw [hnew] at hs
      simp only [Option.some.injEq, Prod.mk.injEq] at hs
      obtain ⟨rfl, _⟩ := hs
      exact h.newTask hnew (hok i (Sched.newTask_find hnew))
  case activateThread id prio =>
    obtain ⟨hid, rfl, _⟩ := hs
    simp only [Bool.and_eq_true] at hid
    exact h.activateThread (isTask_spec hid.1) hid.2 hok.1 hok.2
  case cleanup id self =>
    obtain ⟨_, rfl, _⟩ := hs
    exact h.cleanupJoined id self
  case stopThreads id =>
    obtain ⟨hid, rfl, _⟩ := hs
    obtain ⟨hcur, hexec⟩ := executing_spec hid
    exact h.stopThreads hcur hexec

/-- After every run whose steps meet `ok` the right tasks execute. -/
def AlwaysExecutes (ok : Sync → SchedAction → Prop) : Prop :=
  ∀ s₀ s es, s₀.sys.sched.Settled → Run schedStep ok s₀ es s → s.sys.sched.Executes

end Sync

theorem executes_of_steady (s₀ s : Sync) (es : List Empty) (h0 : s₀.sys.sched.Settled)
    (hrun : Run Sync.schedStep Sync.Steady s₀ es s) : s.sys.sched.Executes := by
  have hi : s.sys.sched.Settled := hrun.invariant (fun _ (s : Sync) => s.sys.sched.Settled) h0
    fun _ _ _ _ _ hi hok hs => Sync.settled_schedStep hi hok hs
  exact hi.executes

/-- The tasks of the start state have the same priority and are all flagged. -/
theorem settled_start (total : Nat) (ceiling : Nat → Int) (value : BitVec 32) (htotal : 1 < total) :
    (Sync.start total (fun _ => 0) ceiling value).sys.sched.Settled := by
  have hone : 1 ∈ (Sync.start total (fun _ => 0) ceiling value).sys.sched.ids :=
    (Sched.mem_ids _).mpr ⟨le_rfl, htotal⟩
  constructor
  · exact fun _ _ _ => le_rfl
  · exact fun _ _ _ => ⟨1, hone, rfl, rfl⟩
  · exact fun _ _ => ⟨fun _ => ⟨rfl, rfl⟩, fun _ => rfl⟩
  · intro hno
    exact absurd (hno 1 hone) (by simp [Sched.runnable, Sync.start])
  · have hzero : Sched.validPriority 0 := by decide
    exact fun _ => ⟨hzero, hzero⟩

/-- Thread `2` blocks on the semaphore and thread `1` wakes it. -/
def blockAndWake : List SchedAction := [.semWait 2 76 true, .semPost 2]

theorem executes_blockAndWake : ∃ s es,
    Run Sync.schedStep Sync.Steady (Sync.start 3 (fun _ => 0) (fun _ => 0) 0) es s ∧
      (s.row 2).exec = true ∧ s.sys.sched.Executes := by
  obtain ⟨s, es, hs, hexec⟩ : ∃ s es,
      Run.replay Sync.schedStep (Sync.start 3 (fun _ => 0) (fun _ => 0) 0) blockAndWake = some (s, es) ∧
        (s.row 2).exec = true := ⟨_, _, rfl, rfl⟩
  have hok : Run.AllOk Sync.schedStep Sync.Steady (Sync.start 3 (fun _ => 0) (fun _ => 0) 0)
      blockAndWake := ⟨trivial, Or.inl ⟨rfl, rfl⟩, trivial⟩
  have hrun := Run.of_replay hs hok
  exact ⟨s, es, hrun, hexec, executes_of_steady _ s es (settled_start 3 _ 0 (by decide)) hrun⟩

/-- The first thread to lock a mutex of ceiling `5` is raised above the current priority, which stays
`0`, and the other threads of priority `0` stay flagged. -/
theorem not_alwaysExecutes : ¬Sync.AlwaysExecutes fun _ _ => True := by
  intro h
  obtain ⟨s, es, hs, hids, hrun, hprio, hcur⟩ : ∃ s es,
      Run.replay Sync.schedStep (Sync.start 3 (fun _ => 0) (fun _ => 5) 0)
        [.mutexTrylock 1 64 false ⟨schedTimevalSecInvalid, 0⟩ 0] = some (s, es) ∧
      s.sys.sched.ids = [1, 2] ∧ s.sys.sched.runnable 1 = true ∧ (s.row 1).priority = 5 ∧
        s.sys.sched.currentPriority = 0 := ⟨_, _, rfl, rfl, rfl, rfl, rfl⟩
  have hexec := h _ s es (settled_start 3 _ 0 (by decide)) (Run.of_replay hs (Run.allOk_true _ _))
  have hone : 1 ∈ s.sys.sched.ids := by rw [hids]; simp
  have hle := (hexec.greatest ⟨1, hone, hrun⟩).2 ⟨1, hone, hrun, hprio⟩
  rw [hcur] at hle
  exact absurd hle (by decide)

end CoActionOS
