import CoActionOS.Sched.Rows
import CoActionOS.Sync.Basic
import Mathlib.Order.MinMax

/-!
# What one step does

For each action, `rowAfter` is the row a thread has after it, `ownerAfter` the recorded owner a mutex
has after it, both read off the state before.  `step_row` and `step_owner` say that the step functions
do exactly this; the row is meant up to its execution flag.  Invariants about rows and owners are
proved over these, without unfolding a privileged call again.
-/

namespace CoActionOS

open Function

/-! ### Steps of the mutex calls and of the environment -/

namespace Sys

variable (s : Sys)

/-- The sleeper that `priv_mutex_unlock` on behalf of `t` finds. -/
def unlockHeir (t m : Nat) : Option Nat :=
  (s.sched.restorePriority t).schedGetHighestPriorityBlocked m

/-- The row of thread `n` after the privileged call of thread `t`. -/
def privRow (t : Nat) (c : MutexCall) (now n : Nat) : SchedTask :=
  let row := s.sched.table n
  if c.acquires then
    if n ≠ t then row
    else if (s.mutex c.mutex).pthread = none then
      { row with priority := max row.priority (s.mutex c.mutex).prioCeiling }
    else if c.isTrylock then row
    else
      row.timedblocked c.mutex (Sched.schedConvertTimespec c.absTimeout) s.sched.usecondCounter now
  else if s.unlockHeir t c.mutex = some n then
    { row with priority := (s.mutex c.mutex).prioCeiling }.woken .mutex
  else if n = t then { row with priority := row.attrPriority, blockObject := 0 }
  else row

/-- The row of thread `n` after an action. -/
def rowAfter (a : MutexAction) (n : Nat) : SchedTask :=
  let row := s.sched.table n
  match a with
  | .call .. => row
  | .exec t now =>
    match s.pc t with
    | .priv c => s.privRow t c now n
    | _ => row
  | .signal t => if n = t then { row with stopped := false }.woken .signal else row
  | .matchEvent now => if n ∈ s.sched.ids ∧ s.sched.due now n = true then row.woken .sleep else row
  | .overflowEvent now =>
    if n ∈ s.sched.ids ∧
        { s.sched with usecondCounter := (s.sched.usecondCounter + 1) % 2 ^ 32 }.due now n = true then
      row.woken .sleep
    else row
  | .cleanup t => if n = t then Sched.clearTask row else row
  | .stopThreads t =>
    if n ∈ s.sched.ids ∧ row.pid = (s.sched.table t).pid ∧ n ≠ t then Sched.clearTask row else row

/-- The recorded owner of mutex `m` after an action. -/
def ownerAfter (a : MutexAction) (m : Nat) : Option Nat :=
  match a with
  | .exec t _ =>
    match s.pc t with
    | .priv c =>
      if c.mutex = m then
        if c.acquires then
          if (s.mutex m).pthread = none then some t else (s.mutex m).pthread
        else s.unlockHeir t m
      else (s.mutex m).pthread
    | _ => (s.mutex m).pthread
  | _ => (s.mutex m).pthread

variable {s} {s' : Sys} {a : MutexAction} {e : Option MutexEvent}

/-- The heir of an unlock is asleep on the mutex. -/
theorem unlockHeir_spec {t m n : Nat} (h : s.unlockHeir t m = some n) :
    n ∈ s.sched.ids ∧ (s.sched.table n).enabled = true ∧ (s.sched.table n).active = false ∧
      (n ≠ t → (s.sched.table n).blockObject = m) := by
  obtain ⟨hids, hen, hblock, hact⟩ := Sched.getHighestPriorityBlocked_spec _ h
  by_cases hn : n = t
  · subst hn
    refine ⟨hids, ?_, ?_, fun hne => absurd rfl hne⟩
    · simpa [Sched.restorePriority] using hen
    · simpa [Sched.restorePriority] using hact
  · simp only [Sched.restorePriority, Sched.table_modify_of_ne _ hn] at hen hblock hact
    exact ⟨hids, hen, hact, fun _ => hblock⟩

theorem noExec_trylock (t m : Nat) (try_ : Bool) (tv : SchedTimeval) (now n : Nat) :
    ((s.privMutexTrylock t m try_ tv now).1.sched.table n).noExec =
      (if n ≠ t then s.sched.table n
      else if (s.mutex m).pthread = none then
        { s.sched.table n with
          priority := max (s.sched.table n).priority (s.mutex m).prioCeiling }
      else if try_ then s.sched.table n
      else (s.sched.table n).timedblocked m tv s.sched.usecondCounter now).noExec := by
  unfold privMutexTrylock
  by_cases hfree : (s.mutex m).pthread = none
  · simp only [hfree, ite_true, setMutex]
    by_cases hn : n = t
    · subst hn
      rw [if_neg (not_not.mpr rfl)]
      split_ifs with hlt
      · rw [Sched.table_modify_self, max_eq_right hlt.le]
      · rw [max_eq_left (not_lt.mp hlt)]
    · rw [if_pos hn]
      split_ifs
      · rw [Sched.table_modify_of_ne _ hn]
      · rfl
  · simp only [hfree, ite_false]
    by_cases hn : n = t
    · subst hn
      cases try_ with
      | true => simp
      | false => simp [Sched.noExec_timedblock]
    · cases try_ with
      | true => simp [hn]
      | false => simp [Sched.noExec_timedblock, hn]

theorem noExec_unlock (t m n : Nat) :
    ((s.privMutexUnlock t m).sched.table n).noExec =
      (if s.unlockHeir t m = some n then
        { s.sched.table n with priority := (s.mutex m).prioCeiling }.woken .mutex
      else if n = t then
        { s.sched.table n with priority := (s.sched.table n).attrPriority, blockObject := 0 }
      else s.sched.table n).noExec := by
  have hrestore : ∀ i, (s.sched.restorePriority t).table i =
      if i = t then
        { s.sched.table i with priority := (s.sched.table i).attrPriority, blockObject := 0 }
      else s.sched.table i := by
    intro i
    unfold Sched.restorePriority
    rw [Sched.table_modify]
    split_ifs with hi
    · subst hi; rfl
    · rfl
  unfold privMutexUnlock unlockHeir
  cases hheir : (s.sched.restorePriority t).schedGetHighestPriorityBlocked m with
  | some k =>
    simp only [setMutex, hheir, Option.some.injEq]
    rw [(Sched.execOnly_updateOnWake _ _).noExec, Sched.table_assertActive, Sched.table_modify_self]
    by_cases hk : n = k
    · subst hk
      rw [if_pos rfl, if_pos rfl, hrestore]
      split_ifs <;> rfl
    · rw [if_neg hk, if_neg (Ne.symm hk), Sched.table_modify_of_ne _ hk, hrestore]
  | none =>
    simp only [setMutex, hheir, reduceCtorEq, ite_false]
    split_ifs with hprio hn hn
    · rw [(Sched.execOnly_updateOnWake _ _).noExec, hrestore, if_pos hn]
    · rw [(Sched.execOnly_updateOnWake _ _).noExec, hrestore, if_neg hn]
    · rw [hrestore, if_pos hn]
    · rw [hrestore, if_neg hn]

theorem owner_trylock (t m : Nat) (try_ : Bool) (tv : SchedTimeval) (now k : Nat) :
    ((s.privMutexTrylock t m try_ tv now).1.mutex k).pthread =
      if k = m ∧ (s.mutex m).pthread = none then some t else (s.mutex k).pthread := by
  unfold privMutexTrylock
  by_cases hfree : (s.mutex m).pthread = none
  · simp only [hfree, ite_true, setMutex, update_apply, and_true]
    split_ifs <;> rfl
  · cases try_ <;> simp [hfree]

theorem owner_unlock (t m k : Nat) :
    ((s.privMutexUnlock t m).mutex k).pthread =
      if k = m then s.unlockHeir t m else (s.mutex k).pthread := by
  unfold privMutexUnlock unlockHeir
  cases hheir : (s.sched.restorePriority t).schedGetHighestPriorityBlocked m with
  | some _ =>
    simp only [hheir, setMutex, update_apply]
    split_ifs <;> rfl
  | none =>
    simp only [hheir, setMutex, update_apply]
    split_ifs <;> rfl

/-- A step is a step of the thread `t` that makes it: it runs, and only its place changes. -/
theorem exec_spec {t now : Nat} (h : s.step (.exec t now) = some (s', e)) :
    s.canRun t = true ∧ s.execStep t now = some (s', e) := by
  simpa [step] using h

theorem step_row (h : s.step a = some (s', e)) (n : Nat) :
    (s'.sched.table n).noExec = (s.rowAfter a n).noExec := by
  cases a with
  | call t c =>
    simp only [step, Option.ite_none_right_eq_some, Option.some.injEq, Prod.mk.injEq] at h
    obtain ⟨_, rfl, _⟩ := h
    rfl
  | exec t now =>
    obtain ⟨_, h⟩ := exec_spec h
    unfold execStep at h
    simp only [rowAfter]
    cases hpc : s.pc t with
    | idle => simp [hpc] at h
    | check c =>
      simp only [hpc, Option.some.injEq, Prod.mk.injEq] at h
      obtain ⟨rfl, _⟩ := h
      unfold stepCheck
      split_ifs <;> rfl
    | owner c =>
      simp only [hpc, Option.some.injEq, stepOwner] at h
      split_ifs at h <;> (obtain ⟨rfl, _⟩ := h; rfl)
    | priv c =>
      simp only [hpc, Option.some.injEq, stepPriv] at h
      unfold privRow
      cases hc : c.acquires with
      | true =>
        simp only [hc, ite_true, Prod.mk.injEq] at h ⊢
        obtain ⟨rfl, _⟩ := h
        exact noExec_trylock t c.mutex c.isTrylock _ now n
      | false =>
        simp only [hc, Bool.false_eq_true, ite_false, Prod.mk.injEq] at h ⊢
        obtain ⟨rfl, _⟩ := h
        exact noExec_unlock t c.mutex n
    | resume c ret errno =>
      simp only [hpc, Option.some.injEq, stepResume, Prod.mk.injEq] at h
      obtain ⟨rfl, _⟩ := h
      rfl
  | signal t =>
    simp only [step, Option.ite_none_right_eq_some, Option.some.injEq, Prod.mk.injEq] at h
    obtain ⟨_, rfl, _⟩ := h
    unfold rowAfter
    simp only
    rw [Sched.noExec_signal]
    split_ifs with hn
    · rw [hn]
    · rfl
  | matchEvent now =>
    simp only [step, Option.some.injEq, Prod.mk.injEq] at h
    obtain ⟨rfl, _⟩ := h
    exact Sched.noExec_matchEvent s.sched now n
  | overflowEvent now =>
    simp only [step, Option.some.injEq, Prod.mk.injEq] at h
    obtain ⟨rfl, _⟩ := h
    exact Sched.noExec_matchEvent _ now n
  | cleanup t =>
    simp only [step, Option.ite_none_right_eq_some, Option.some.injEq, Prod.mk.injEq] at h
    obtain ⟨_, rfl, _⟩ := h
    unfold rowAfter
    simp only
    rw [Sched.noExec_cleanup]
    split_ifs with hn
    · rw [hn]
    · rfl
  | stopThreads t =>
    simp only [step, Option.ite_none_right_eq_some, Option.some.injEq, Prod.mk.injEq] at h
    obtain ⟨_, rfl, _⟩ := h
    rfl

theorem step_owner (h : s.step a = some (s', e)) (m : Nat) :
    (s'.mutex m).pthread = s.ownerAfter a m := by
  cases a with
  | exec t now =>
    obtain ⟨_, h⟩ := exec_spec h
    unfold execStep at h
    simp only [ownerAfter]
    cases hpc : s.pc t with
    | idle => simp [hpc] at h
    | check c =>
      simp only [hpc, Option.some.injEq, Prod.mk.injEq] at h
      obtain ⟨rfl, _⟩ := h
      unfold stepCheck
      split_ifs <;> rfl
    | owner c =>
      simp only [hpc, Option.some.injEq, stepOwner] at h
      split_ifs at h
      all_goals
        obtain ⟨rfl, _⟩ := h
        simp only [setMutex, setPc, update_apply]
      all_goals
        split_ifs with hm
        · rw [hm]
        · rfl
    | priv c =>
      simp only [hpc, Option.some.injEq, stepPriv] at h
      simp only
      cases hc : c.acquires with
      | true =>
        simp only [hc, ite_true, Prod.mk.injEq] at h ⊢
        obtain ⟨rfl, _⟩ := h
        simp only [setPc, owner_trylock]
        by_cases hm : m = c.mutex
        · subst hm; simp
        · simp [hm, Ne.symm hm]
      | false =>
        simp only [hc, Bool.false_eq_true, ite_false, Prod.mk.injEq] at h ⊢
        obtain ⟨rfl, _⟩ := h
        simp only [setPc, owner_unlock]
        by_cases hm : m = c.mutex
        · subst hm; simp
        · simp [hm, Ne.symm hm]
    | resume c ret errno =>
      simp only [hpc, Option.some.injEq, stepResume, Prod.mk.injEq] at h
      obtain ⟨rfl, _⟩ := h
      rfl
  | matchEvent now =>
    simp only [step, Option.some.injEq, Prod.mk.injEq] at h
    obtain ⟨rfl, _⟩ := h
    rfl
  | overflowEvent now =>
    simp only [step, Option.some.injEq, Prod.mk.injEq] at h
    obtain ⟨rfl, _⟩ := h
    rfl
  | call t c =>
    simp only [step, Option.ite_none_right_eq_some, Option.some.injEq, Prod.mk.injEq] at h
    obtain ⟨_, rfl, _⟩ := h
    rfl
  | signal t =>
    simp only [step, Option.ite_none_right_eq_some, Option.some.injEq, Prod.mk.injEq] at h
    obtain ⟨_, rfl, _⟩ := h
    rfl
  | cleanup t =>
    simp only [step, Option.ite_none_right_eq_some, Option.some.injEq, Prod.mk.injEq] at h
    obtain ⟨_, rfl, _⟩ := h
    rfl
  | stopThreads t =>
    simp only [step, Option.ite_none_right_eq_some, Option.some.injEq, Prod.mk.injEq] at h
    obtain ⟨_, rfl, _⟩ := h
    rfl

end Sys

namespace Sys

variable {s s' : Sys} {a : MutexAction} {e : Option MutexEvent}

/-- A thread's piece moves that thread only. -/
theorem pc_exec {t now : Nat} (h : s.execStep t now = some (s', e)) :
    ∃ pc, s'.pc = update s.pc t pc := by
  unfold execStep at h
  cases hs : s.pc t with
  | idle => simp [hs] at h
  | check c =>
    simp only [hs, Option.some.injEq, Prod.mk.injEq] at h
    obtain ⟨rfl, _⟩ := h
    unfold stepCheck
    split_ifs <;> exact ⟨_, rfl⟩
  | owner c =>
    simp only [hs, Option.some.injEq, stepOwner] at h
    split_ifs at h <;> (obtain ⟨rfl, _⟩ := h; exact ⟨_, rfl⟩)
  | priv c =>
    simp only [hs, Option.some.injEq, stepPriv] at h
    split_ifs at h
    · obtain ⟨rfl, _⟩ := h
      have hpc : (s.privMutexTrylock t c.mutex c.isTrylock
          (Sched.schedConvertTimespec c.absTimeout) now).1.pc = s.pc := by
        unfold privMutexTrylock
        split_ifs <;> rfl
      simp only [setPc, hpc]
      exact ⟨_, rfl⟩
    · obtain ⟨rfl, _⟩ := h
      have hpc : (s.privMutexUnlock t c.mutex).pc = s.pc := by
        unfold privMutexUnlock
        cases hheir : (s.sched.restorePriority t).schedGetHighestPriorityBlocked c.mutex <;>
          simp only [hheir] <;> rfl
      simp only [setPc, hpc]
      exact ⟨_, rfl⟩
  | resume c ret errno =>
    simp only [hs, Option.some.injEq, stepResume, Prod.mk.injEq] at h
    obtain ⟨rfl, _⟩ := h
    exact ⟨_, rfl⟩

/-- Only the overflow of the timer starts a new epoch. -/
theorem step_epoch (h : s.step a = some (s', e)) :
    s'.sched.total = s.sched.total ∧
      s'.sched.usecondCounter =
        match a with
        | .overflowEvent _ => (s.sched.usecondCounter + 1) % 2 ^ 32
        | _ => s.sched.usecondCounter := by
  -- each of the scheduler's functions stays within the epoch
  have hof : ∀ {sched : Sched}, Sched.SameEpoch s.sched sched →
      sched.total = s.sched.total ∧ sched.usecondCounter = s.sched.usecondCounter :=
    fun hx => ⟨hx.total, hx.usecondCounter⟩
  cases a with
  | call t c =>
    simp only [step, Option.ite_none_right_eq_some, Option.some.injEq, Prod.mk.injEq] at h
    obtain ⟨_, rfl, _⟩ := h
    exact ⟨rfl, rfl⟩
  | exec t now =>
    obtain ⟨_, h⟩ := exec_spec h
    unfold execStep at h
    cases hpc : s.pc t with
    | idle => simp [hpc] at h
    | check c =>
      simp only [hpc, Option.some.injEq, Prod.mk.injEq] at h
      obtain ⟨rfl, _⟩ := h
      unfold stepCheck
      split_ifs <;> exact ⟨rfl, rfl⟩
    | owner c =>
      simp only [hpc, Option.some.injEq, stepOwner] at h
      split_ifs at h <;> (obtain ⟨rfl, _⟩ := h; exact ⟨rfl, rfl⟩)
    | priv c =>
      simp only [hpc, Option.some.injEq, stepPriv] at h
      split_ifs at h
      · obtain ⟨rfl, _⟩ := h
        apply hof
        show Sched.SameEpoch s.sched (s.privMutexTrylock _ _ _ _ _).1.sched
        unfold privMutexTrylock
        by_cases hfree : (s.mutex c.mutex).pthread = none
        · simp only [hfree, ite_true]
          split_ifs <;> exact ⟨rfl, rfl⟩
        · simp only [hfree, ite_false]
          split_ifs
          · exact ⟨rfl, rfl⟩
          · exact Sched.sameEpoch_timedblock _ _ _ _ _
      · obtain ⟨rfl, _⟩ := h
        apply hof
        show Sched.SameEpoch s.sched (s.privMutexUnlock _ _).sched
        have hrestore : Sched.SameEpoch s.sched (s.sched.restorePriority t) := ⟨rfl, rfl⟩
        unfold privMutexUnlock
        cases hheir : (s.sched.restorePriority t).schedGetHighestPriorityBlocked c.mutex with
        | some k =>
          simp only [hheir]
          refine hrestore.trans (Sched.SameEpoch.trans ?_ (Sched.sameEpoch_updateOnWake _ _))
          exact ⟨rfl, rfl⟩
        | none =>
          simp only [hheir, setMutex]
          split_ifs
          · exact hrestore.trans (Sched.sameEpoch_updateOnWake _ _)
          · exact hrestore
    | resume c ret errno =>
      simp only [hpc, Option.some.injEq, stepResume, Prod.mk.injEq] at h
      obtain ⟨rfl, _⟩ := h
      exact ⟨rfl, rfl⟩
  | signal t =>
    simp only [step, Option.ite_none_right_eq_some, Option.some.injEq, Prod.mk.injEq] at h
    obtain ⟨_, rfl, _⟩ := h
    exact ⟨(Sched.activate_spec s.sched t).total, (Sched.activate_spec s.sched t).usecondCounter⟩
  | matchEvent now =>
    simp only [step, Option.some.injEq, Prod.mk.injEq] at h
    obtain ⟨rfl, _⟩ := h
    exact hof (Sched.sameEpoch_matchEvent _ now)
  | overflowEvent now =>
    simp only [step, Option.some.injEq, Prod.mk.injEq] at h
    obtain ⟨rfl, _⟩ := h
    -- the comparison that follows the overflow sees the new epoch
    have hx := Sched.sameEpoch_matchEvent
      { s.sched with usecondCounter := (s.sched.usecondCounter + 1) % 2 ^ 32 } now
    exact ⟨hx.total, hx.usecondCounter⟩
  | cleanup t =>
    simp only [step, Option.ite_none_right_eq_some, Option.some.injEq, Prod.mk.injEq] at h
    obtain ⟨_, rfl, _⟩ := h
    exact hof ((Sched.sameEpoch_modify _ _ _).trans (Sched.sameEpoch_updateOnSleep _ t))
  | stopThreads t =>
    simp only [step, Option.ite_none_right_eq_some, Option.some.injEq, Prod.mk.injEq] at h
    obtain ⟨_, rfl, _⟩ := h
    exact ⟨rfl, rfl⟩

end Sys

/-! ### Steps of the other calls -/

namespace Sync

variable (s : Sync)

/-- The recorded owner of mutex `m`. -/
def owner (m : Nat) : Option Nat := (s.sys.mutex m).pthread

/-- The row of thread `n` after `priv_cond_wait` of thread `t`. -/
def condWaitRow (t cond m : Nat) (newThread : Option Nat) (tv : SchedTimeval) (now n : Nat) :
    SchedTask :=
  if s.owner m = some t then
    let row := if n = t then { s.row n with priority := (s.row n).attrPriority } else s.row n
    let row :=
      if newThread = some n then { row with priority := (s.sys.mutex m).prioCeiling }.woken .mutex
      else row
    if n = t then row.timedblocked cond tv s.sys.sched.usecondCounter now else row
  else s.row n

/-- The row of thread `n` after the privileged call of thread `t`. -/
def privRow (t : Nat) (c : SyncCall) (newThread : Option Nat) (now n : Nat) : SchedTask :=
  let row := s.row n
  match c with
  | .condWait cond m | .condTimedwait cond m _ => s.condWaitRow t cond m newThread c.deadline now n
  | .condSignal _ => if newThread = some n then row.woken .cond else row
  | .condBroadcast cond =>
    if n ∈ s.sys.sched.ids ∧ s.sys.sched.blockedOn n cond = true then row.woken .cond else row
  | .semPost _ => if newThread = some n then row.woken .semaphore else row
  | .semWait sem =>
    if n = t then
      { row with blockObject := sem, active := row.active && !decide ((s.sem sem).value ≤ 0) }
    else row
  | .semTrywait _ => row
  | .semTimedwait sem _ =>
    if n = t ∧ (s.sem sem).value ≤ 0 then
      row.timedblocked sem c.deadline s.sys.sched.usecondCounter now
    else row
  | .blockOnMq mq _ =>
    if n = t then row.timedblocked mq c.deadline s.sys.sched.usecondCounter now else row
  | .checkForBlockedTask _ => if newThread = some n then row.woken .mq else row

/-- The row of thread `n` after an action. -/
def rowAfter (a : SyncAction) (n : Nat) : SchedTask :=
  match a with
  | .sys a => s.sys.rowAfter a n
  | .call .. => s.row n
  | .exec t now =>
    match s.pc t with
    | .priv c newThread => s.privRow t c newThread now n
    | _ => s.row n
  | .newThread t =>
    match s.sys.sched.taskPrivNewTask (s.row t).pid with
    | some (_, id) =>
      if n = id then { s.row n with enabled := true, exec := false, pid := (s.row t).pid }
      else s.row n
    | none => s.row n
  | .activateThread id prio => if n = id then Sched.freshRow (s.row n) prio else s.row n

/-- The recorded owner of mutex `m` after an action. -/
def ownerAfter (a : SyncAction) (m : Nat) : Option Nat :=
  match a with
  | .sys a => s.sys.ownerAfter a m
  | .exec t _ =>
    match s.pc t with
    | .priv c newThread =>
      if c.waitMutex = some m ∧ s.owner m = some t then newThread else s.owner m
    | _ => s.owner m
  | _ => s.owner m

variable {s} {s' : Sync} {a : SyncAction} {e : Option SyncEvent}

@[simp] theorem row_setPc (t : Nat) (pc : SyncPc) (n : Nat) : (s.setPc t pc).row n = s.row n := rfl

@[simp] theorem row_setValue (q : Nat) (v : BitVec 32) (n : Nat) : (s.setValue q v).row n = s.row n := rfl

@[simp] theorem row_setSched (sched : Sched) (n : Nat) : (s.setSched sched).row n = sched.table n :=
  rfl

@[simp] theorem owner_setPc (t : Nat) (pc : SyncPc) (m : Nat) : (s.setPc t pc).owner m = s.owner m :=
  rfl

@[simp] theorem owner_setValue (q : Nat) (v : BitVec 32) (m : Nat) :
    (s.setValue q v).owner m = s.owner m := rfl

@[simp] theorem owner_setSched (sched : Sched) (m : Nat) : (s.setSched sched).owner m = s.owner m :=
  rfl

theorem noExec_condWait (t cond m : Nat) (newThread : Option Nat) (tv : SchedTimeval) (now n : Nat) :
    ((s.privCondWait t cond m newThread tv now).1.row n).noExec =
      (s.condWaitRow t cond m newThread tv now n).noExec := by
  unfold privCondWait condWaitRow
  by_cases hown : s.owner m = some t
  · have hown' : (s.sys.mutex m).pthread = some t := hown
    simp only [hown, hown', ite_true]
    cases newThread with
    | none =>
      simp only [row, setSched, reduceCtorEq, ite_false]
      rw [Sched.noExec_timedblock]
      by_cases hn : n = t
      · subst hn
        simp
      · simp [hn, Sched.table_modify_of_ne]
    | some k =>
      simp only [row, setSched, Option.some.injEq]
      rw [Sched.noExec_timedblock]
      by_cases hn : n = t
      · subst hn
        by_cases hk : k = n
        · subst hk
          simp [Sched.schedPrivAssertActive, SchedTask.woken]
        · simp [hk, Ne.symm hk, Sched.table_modify_of_ne, Sched.schedPrivAssertActive]
      · by_cases hk : k = n
        · subst hk
          simp [hn, Sched.table_assertActive, Sched.table_modify_of_ne]
        · simp [hn, hk, Ne.symm hk, Sched.table_assertActive, Sched.table_modify_of_ne]
  · have hown' : ¬(s.sys.mutex m).pthread = some t := hown
    simp [hown, hown']

theorem owner_condWait (t cond m : Nat) (newThread : Option Nat) (tv : SchedTimeval) (now k : Nat) :
    (s.privCondWait t cond m newThread tv now).1.owner k =
      if k = m ∧ s.owner m = some t then newThread else s.owner k := by
  unfold privCondWait
  by_cases hown : s.owner m = some t
  · have hown' : (s.sys.mutex m).pthread = some t := hown
    simp only [hown, hown', ite_true, and_true]
    cases newThread with
    | none =>
      simp only [owner, update_apply]
      split_ifs <;> rfl
    | some k =>
      simp only [owner, update_apply]
      split_ifs <;> rfl
  · have hown' : ¬(s.sys.mutex m).pthread = some t := hown
    simp [hown, hown']

/-- The last state change of `stepPriv` is that of the thread's place. -/
theorem stepPriv_row (t : Nat) (c : SyncCall) (newThread : Option Nat) (now n : Nat) :
    ((s.stepPriv t c newThread now).1.row n).noExec = (s.privRow t c newThread now n).noExec := by
  cases c with
  | condWait cond m => exact noExec_condWait t cond m newThread _ now n
  | condTimedwait cond m ts => exact noExec_condWait t cond m newThread _ now n
  | condSignal cond =>
    cases newThread with
    | none => simp [stepPriv, privRow]
    | some k =>
      simp only [stepPriv, privRow, row_setPc, row_setSched, Option.some.injEq]
      rw [Sched.privCondSignal, Sched.noExec_wake]
      by_cases hk : n = k
      · subst hk; simp [row]
      · simp [hk, Ne.symm hk, row]
  | condBroadcast cond => exact Sched.noExec_condBroadcast _ cond n
  | semPost q =>
    cases newThread with
    | none => simp [stepPriv, privRow]
    | some k =>
      simp only [stepPriv, privRow, row_setPc, row_setSched, Option.some.injEq]
      rw [Sched.noExec_semPost]
      by_cases hk : n = k
      · subst hk; simp [row]
      · simp [hk, Ne.symm hk, row]
  | semWait q =>
    simp only [stepPriv, privRow, row_setPc, privSemWait, row_setValue, row_setSched]
    rw [Sched.noExec_semWait]
    by_cases hn : n = t
    · subst hn; simp [row]
    · simp [hn, row]
  | semTrywait q =>
    simp only [stepPriv, privRow]
    split_ifs <;> rfl
  | semTimedwait q ts =>
    simp only [stepPriv, privRow, row_setPc, privSemTimedwait, row_setValue]
    by_cases hv : (s.sem q).value ≤ 0
    · simp only [hv, ite_true, row_setSched, and_true]
      rw [Sched.noExec_timedblock]
      by_cases hn : n = t
      · subst hn; simp [row]
      · simp [hn, row]
    -- a semaphore that is free is taken at once
    · rw [if_neg hv, if_neg fun h => hv h.2]
  | blockOnMq q ts =>
    simp only [stepPriv, privRow, row_setPc, row_setSched]
    rw [Sched.noExec_timedblock]
    by_cases hn : n = t
    · subst hn; simp [row]
    · simp [hn, row]
  | checkForBlockedTask q =>
    cases newThread with
    | none => simp [stepPriv, privRow]
    | some k =>
      simp only [stepPriv, privRow, row_setPc, row_setSched, Option.some.injEq]
      rw [Sched.privWakeBlocked, Sched.noExec_wake]
      by_cases hk : n = k
      · subst hk; simp [row]
      · simp [hk, Ne.symm hk, row]

theorem stepPriv_owner (t : Nat) (c : SyncCall) (newThread : Option Nat) (now m : Nat) :
    (s.stepPriv t c newThread now).1.owner m =
      if c.waitMutex = some m ∧ s.owner m = some t then newThread else s.owner m := by
  have hwait : ∀ cond k, c.waitMutex = some k →
      (s.stepCondWait t c cond k newThread now).1.owner m =
        if c.waitMutex = some m ∧ s.owner m = some t then newThread else s.owner m := by
    intro cond k hk
    simp only [hk, Option.some.injEq]
    refine (owner_condWait t cond k newThread _ now m).trans ?_
    by_cases hm : m = k
    · subst hm; simp
    · simp [hm, Ne.symm hm]
  cases c with
  | condWait cond k => exact hwait cond k rfl
  | condTimedwait cond k ts => exact hwait cond k rfl
  | condSignal cond => cases newThread <;> simp [stepPriv, SyncCall.waitMutex]
  | condBroadcast cond => simp [stepPriv, SyncCall.waitMutex]
  | semPost q => cases newThread <;> simp [stepPriv, SyncCall.waitMutex]
  | semWait q => simp [stepPriv, SyncCall.waitMutex, privSemWait]
  | semTrywait q =>
    simp only [stepPriv, SyncCall.waitMutex]
    split_ifs <;> simp_all
  | semTimedwait q ts =>
    simp only [stepPriv, SyncCall.waitMutex, privSemTimedwait, owner_setPc, owner_setValue]
    split_ifs <;> simp_all
  | blockOnMq q ts => simp [stepPriv, SyncCall.waitMutex]
  | checkForBlockedTask q => cases newThread <;> simp [stepPriv, SyncCall.waitMutex]

/-- The pieces around the privileged call touch no row and no owner. -/
theorem exec_quiet {t now : Nat} (h : s.execStep t now = some (s', e))
    (hpc : ∀ c k, s.pc t ≠ .priv c k) : s'.sys = s.sys := by
  unfold execStep at h
  cases hs : s.pc t with
  | idle => simp [hs] at h
  | fresh => simp [hs] at h
  | check c =>
    simp only [hs, Option.some.injEq, Prod.mk.injEq] at h
    obtain ⟨rfl, _⟩ := h
    unfold stepCheck
    split <;> rfl
  | post q =>
    simp only [hs, Option.some.injEq, stepPost, Prod.mk.injEq] at h
    obtain ⟨rfl, _⟩ := h
    rfl
  | scan c =>
    simp only [hs, Option.some.injEq, Prod.mk.injEq] at h
    obtain ⟨rfl, _⟩ := h
    unfold stepScan
    split <;> rfl
  | priv c k => exact absurd hs (hpc c k)
  | resume c ret errno =>
    simp only [hs, Option.some.injEq] at h
    unfold stepResume at h
    split at h
    all_goals
      first
      | split_ifs at h
      | skip
    all_goals
      obtain ⟨rfl, _⟩ := h
      rfl
  | abort q ts =>
    simp only [hs, Option.some.injEq, stepAbort, Prod.mk.injEq] at h
    obtain ⟨rfl, _⟩ := h
    rfl

theorem exec_spec {t now : Nat} (h : s.step (.exec t now) = some (s', e)) :
    s.sys.canRun t = true ∧ s.execStep t now = some (s', e) := by
  simpa [step] using h

/-- A step of the mutexes or of the environment is one of `Sys`. -/
theorem sys_spec {b : MutexAction} (h : s.step (.sys b) = some (s', e)) :
    ∃ e', s.sys.step b = some (s'.sys, e') ∧ s' = { s with sys := s'.sys } ∧
      s.sysAllowed b = true ∧ e = s.sysEvent b e' := by
  simp only [step, Option.ite_none_right_eq_some] at h
  obtain ⟨hok, h⟩ := h
  split at h
  · next sys e' hb =>
    simp only [Option.some.injEq, Prod.mk.injEq] at h
    obtain ⟨rfl, rfl⟩ := h
    exact ⟨e', hb, rfl, hok, rfl⟩
  · exact absurd h (by simp)

theorem newThread_spec {t : Nat} (h : s.step (.newThread t) = some (s', e)) :
    ∃ sched id, s.sys.sched.taskPrivNewTask (s.row t).pid = some (sched, id) ∧ s.free t = true ∧
      s' = { s.setSched sched with sys.pc := update s.sys.pc id .idle }.setPc id .fresh ∧
      e = none := by
  simp only [step, Option.ite_none_right_eq_some] at h
  obtain ⟨hfree, h⟩ := h
  split at h
  · next sched id hnew =>
    simp only [Option.some.injEq, Prod.mk.injEq] at h
    exact ⟨sched, id, hnew, hfree, h.1.symm, h.2.symm⟩
  · exact absurd h (by simp)

theorem step_row (h : s.step a = some (s', e)) (n : Nat) :
    (s'.row n).noExec = (s.rowAfter a n).noExec := by
  cases a with
  | sys b =>
    obtain ⟨e', hb, _⟩ := sys_spec h
    exact Sys.step_row hb n
  | call t c =>
    simp only [step, Option.ite_none_right_eq_some, Option.some.injEq, Prod.mk.injEq] at h
    obtain ⟨_, rfl, _⟩ := h
    rfl
  | exec t now =>
    obtain ⟨_, h⟩ := exec_spec h
    simp only [rowAfter]
    cases hpc : s.pc t with
    | priv c k =>
      simp only [execStep, hpc, Option.some.injEq] at h
      have hrow := stepPriv_row (s := s) t c k now n
      rw [h] at hrow
      exact hrow
    | _ =>
      have hsys := exec_quiet h (by simp [hpc])
      simp only [row, hsys]
  | newThread t =>
    obtain ⟨sched, id, hnew, _, rfl, _⟩ := newThread_spec h
    obtain ⟨_, _, htable⟩ := Sched.newTask_spec _ hnew
    simp only [rowAfter, hnew]
    show (sched.table n).noExec = _
    rw [htable]
    split_ifs with hn
    · rw [hn]; rfl
    · rfl
  | activateThread id prio =>
    simp only [step, Option.ite_none_right_eq_some, Option.some.injEq, Prod.mk.injEq] at h
    obtain ⟨_, rfl, _⟩ := h
    simp only [rowAfter, row_setPc, row_setSched]
    rw [Sched.noExec_activateThread]
    split_ifs with hn
    · rw [hn]; rfl
    · rfl

theorem step_owner (h : s.step a = some (s', e)) (m : Nat) : s'.owner m = s.ownerAfter a m := by
  cases a with
  | sys b =>
    obtain ⟨e', hb, _⟩ := sys_spec h
    exact Sys.step_owner hb m
  | call t c =>
    simp only [step, Option.ite_none_right_eq_some, Option.some.injEq, Prod.mk.injEq] at h
    obtain ⟨_, rfl, _⟩ := h
    rfl
  | exec t now =>
    obtain ⟨_, h⟩ := exec_spec h
    simp only [ownerAfter]
    cases hpc : s.pc t with
    | priv c k =>
      simp only [execStep, hpc, Option.some.injEq] at h
      have hown := stepPriv_owner (s := s) t c k now m
      rw [h] at hown
      exact hown
    | _ =>
      have hsys := exec_quiet h (by simp [hpc])
      simp only [owner, hsys]
  | newThread t =>
    obtain ⟨sched, id, hnew, _, rfl, _⟩ := newThread_spec h
    rfl
  | activateThread id prio =>
    simp only [step, Option.ite_none_right_eq_some, Option.some.injEq, Prod.mk.injEq] at h
    obtain ⟨_, rfl, _⟩ := h
    rfl

/-! ### The epoch -/

theorem sameEpoch_stepPriv (t : Nat) (c : SyncCall) (newThread : Option Nat) (now : Nat) :
    Sched.SameEpoch s.sys.sched (s.stepPriv t c newThread now).1.sys.sched := by
  have hwait : ∀ cond m tv,
      Sched.SameEpoch s.sys.sched (s.privCondWait t cond m newThread tv now).1.sys.sched := by
    intro cond m tv
    unfold privCondWait
    by_cases hown : (s.sys.mutex m).pthread = some t
    · simp only [hown, ite_true]
      cases newThread with
      | none => exact (Sched.sameEpoch_modify _ _ _).trans (Sched.sameEpoch_timedblock _ _ _ _ _)
      | some k =>
        refine Sched.SameEpoch.trans ?_ (Sched.sameEpoch_timedblock _ _ _ _ _)
        exact ⟨rfl, rfl⟩
    · simp only [hown, ite_false]
      exact ⟨rfl, rfl⟩
  cases c with
  | condWait cond m => exact hwait cond m _
  | condTimedwait cond m ts => exact hwait cond m _
  | condSignal cond =>
    cases newThread with
    | none => exact ⟨rfl, rfl⟩
    | some k => exact Sched.sameEpoch_wake _ k .cond
  | condBroadcast cond => exact Sched.sameEpoch_condBroadcast _ cond
  | semPost q =>
    cases newThread with
    | none => exact ⟨rfl, rfl⟩
    | some k => exact (Sched.sameEpoch_modify _ _ _).trans (Sched.sameEpoch_wake _ k .semaphore)
  | semWait q => exact Sched.sameEpoch_semWait _ t q _
  | semTrywait q =>
    simp only [stepPriv]
    split_ifs <;> exact ⟨rfl, rfl⟩
  | semTimedwait q ts =>
    simp only [stepPriv, privSemTimedwait]
    split_ifs
    · exact Sched.sameEpoch_timedblock _ _ _ _ _
    · exact ⟨rfl, rfl⟩
  | blockOnMq q ts => exact Sched.sameEpoch_timedblock _ _ _ _ _
  | checkForBlockedTask q =>
    cases newThread with
    | none => exact ⟨rfl, rfl⟩
    | some k => exact Sched.sameEpoch_wake _ k .mq

theorem step_epoch (h : s.step a = some (s', e)) :
    s'.sys.sched.total = s.sys.sched.total ∧
      s'.sys.sched.usecondCounter =
        match a with
        | .sys (.overflowEvent _) => (s.sys.sched.usecondCounter + 1) % 2 ^ 32
        | _ => s.sys.sched.usecondCounter := by
  cases a with
  | sys b =>
    obtain ⟨e', hb, _⟩ := sys_spec h
    have hx := Sys.step_epoch hb
    cases b <;> exact hx
  | call t c =>
    simp only [step, Option.ite_none_right_eq_some, Option.some.injEq, Prod.mk.injEq] at h
    obtain ⟨_, rfl, _⟩ := h
    exact ⟨rfl, rfl⟩
  | exec t now =>
    obtain ⟨_, h⟩ := exec_spec h
    cases hpc : s.pc t with
    | priv c k =>
      simp only [execStep, hpc, Option.some.injEq] at h
      have hx := sameEpoch_stepPriv (s := s) t c k now
      rw [h] at hx
      exact ⟨hx.total, hx.usecondCounter⟩
    | _ =>
      have hsys := exec_quiet h (by simp [hpc])
      rw [hsys]
      exact ⟨rfl, rfl⟩
  | newThread t =>
    obtain ⟨sched, id, hnew, _, rfl, _⟩ := newThread_spec h
    have hx := Sched.sameEpoch_newTask _ hnew
    exact ⟨hx.total, hx.usecondCounter⟩
  | activateThread id prio =>
    simp only [step, Option.ite_none_right_eq_some, Option.some.injEq, Prod.mk.injEq] at h
    obtain ⟨_, rfl, _⟩ := h
    have hx := (Sched.sameEpoch_modify s.sys.sched id fun t =>
      { enabled := t.enabled, exec := t.exec, pid := t.pid, active := false, stopped := false
        aiosuspend := false, unblockType := .none, blockObject := 0
        wake := ⟨schedTimevalSecInvalid, 0⟩, priority := prio, attrPriority := prio }).trans
      (Sched.sameEpoch_wake _ id .none)
    exact ⟨hx.total, hx.usecondCounter⟩

theorem step_ids (h : s.step a = some (s', e)) : s'.sys.sched.ids = s.sys.sched.ids := by
  unfold Sched.ids
  rw [(step_epoch h).1]

/-! ### Places -/

theorem pc_stepPriv (t : Nat) (c : SyncCall) (newThread : Option Nat) (now : Nat) :
    ∃ ret errno, errno ≠ some .etimedout ∧
      (s.stepPriv t c newThread now).1.pc = update s.pc t (.resume c ret errno) := by
  have hwait : ∀ cond m, ∃ ret errno, errno ≠ some .etimedout ∧
      (s.stepCondWait t c cond m newThread now).1.pc = update s.pc t (.resume c ret errno) := by
    intro cond m
    have hpc : (s.privCondWait t cond m newThread c.deadline now).1.pc = s.pc := by
      unfold privCondWait
      by_cases hown : (s.sys.mutex m).pthread = some t
      · simp only [hown, ite_true]
        cases newThread <;> rfl
      · simp [hown]
    refine ⟨(condWaitResult (s.privCondWait t cond m newThread c.deadline now).2).1,
      (condWaitResult (s.privCondWait t cond m newThread c.deadline now).2).2, ?_, ?_⟩
    · unfold condWaitResult
      split_ifs <;> simp
    · simp only [stepCondWait, setPc, hpc]
  cases c with
  | condWait cond m => exact hwait cond m
  | condTimedwait cond m ts => exact hwait cond m
  | condSignal cond => cases newThread <;> exact ⟨_, _, by simp, rfl⟩
  | condBroadcast cond => exact ⟨_, _, by simp, rfl⟩
  | semPost q => cases newThread <;> exact ⟨_, _, by simp, rfl⟩
  | semWait q => exact ⟨_, _, by simp, rfl⟩
  | semTrywait q =>
    simp only [stepPriv]
    split_ifs
    · exact ⟨_, _, by simp, rfl⟩
    · exact ⟨_, _, by simp, rfl⟩
  | semTimedwait q ts =>
    refine ⟨0, none, by simp, ?_⟩
    simp only [stepPriv, privSemTimedwait, setPc, setValue]
    split_ifs <;> rfl
  | blockOnMq q ts => exact ⟨_, _, by simp, rfl⟩
  | checkForBlockedTask q => cases newThread <;> exact ⟨_, _, by simp, rfl⟩

theorem stepPriv_sysPc (t : Nat) (c : SyncCall) (newThread : Option Nat) (now : Nat) :
    (s.stepPriv t c newThread now).1.sys.pc = s.sys.pc := by
  have hwait : ∀ cond m tv, (s.privCondWait t cond m newThread tv now).1.sys.pc = s.sys.pc := by
    intro cond m tv
    unfold privCondWait
    by_cases hown : (s.sys.mutex m).pthread = some t
    · simp only [hown, ite_true]
      cases newThread <;> rfl
    · simp [hown]
  cases c with
  | condWait cond m => exact hwait cond m _
  | condTimedwait cond m ts => exact hwait cond m _
  | condSignal cond => cases newThread <;> rfl
  | condBroadcast cond => rfl
  | semPost q => cases newThread <;> rfl
  | semWait q => rfl
  | semTrywait q =>
    simp only [stepPriv]
    split_ifs <;> rfl
  | semTimedwait q ts =>
    simp only [stepPriv, privSemTimedwait]
    split_ifs <;> rfl
  | blockOnMq q ts => rfl
  | checkForBlockedTask q => cases newThread <;> rfl

/-- A thread's piece moves that thread only. -/
theorem pc_exec {t now : Nat} (h : s.execStep t now = some (s', e)) :
    ∃ pc, s'.pc = update s.pc t pc := by
  unfold execStep at h
  cases hs : s.pc t with
  | idle => simp [hs] at h
  | fresh => simp [hs] at h
  | check c =>
    simp only [hs, Option.some.injEq, Prod.mk.injEq] at h
    obtain ⟨rfl, _⟩ := h
    unfold stepCheck
    split <;> exact ⟨_, rfl⟩
  | post q =>
    simp only [hs, Option.some.injEq, stepPost, Prod.mk.injEq] at h
    obtain ⟨rfl, _⟩ := h
    exact ⟨_, rfl⟩
  | scan c =>
    simp only [hs, Option.some.injEq, Prod.mk.injEq] at h
    obtain ⟨rfl, _⟩ := h
    unfold stepScan
    split <;> exact ⟨_, rfl⟩
  | priv c k =>
    simp only [hs, Option.some.injEq] at h
    obtain ⟨ret, errno, _, hpc⟩ := pc_stepPriv (s := s) t c k now
    rw [h] at hpc
    exact ⟨_, hpc⟩
  | resume c ret errno =>
    simp only [hs, Option.some.injEq] at h
    unfold stepResume at h
    split at h
    all_goals
      first
      | split_ifs at h
      | skip
    all_goals
      obtain ⟨rfl, _⟩ := h
      exact ⟨_, rfl⟩
  | abort q ts =>
    simp only [hs, Option.some.injEq, stepAbort, Prod.mk.injEq] at h
    obtain ⟨rfl, _⟩ := h
    exact ⟨_, rfl⟩

end Sync

end CoActionOS
