import CoActionOS.Sched.Calls
import CoActionOS.Sched.Frame

/-!
# The rows after each privileged scheduling call

Every call chooses the tasks that execute at the end, so its effect on a row is stated up to the
execution flag, which `SchedTask.noExec` erases: `noExec_timedblock`, `noExec_matchEvent`,
`noExec_wake` and so on say exactly what becomes of each row.
-/

namespace CoActionOS

open Function

/-- `time_sleep` of `sched_priv_timedblock` -/
def SchedTimeval.timeSleep (absTime : SchedTimeval) (counter now : Nat) : Bool :=
  decide (absTime.tvSec ≥ counter) &&
    (absTime.tvSec != counter || decide (absTime.tvUsec > now + 40))

namespace SchedTask

variable (t : SchedTask)

/-- The row without its execution flag. -/
def noExec : SchedTask := { t with exec := false }

/-- The row after `sched_priv_assert_active`. -/
def woken (u : SchedUnblockType) : SchedTask :=
  { t with
    active := true
    unblockType := u
    aiosuspend := false
    blockObject := 0
    wake := ⟨schedTimevalSecInvalid, 0⟩ }

/-- The caller's row after `sched_priv_timedblock` in epoch `counter` at time `now`. -/
def timedblocked (blockObject : Nat) (absTime : SchedTimeval) (counter now : Nat) : SchedTask :=
  { t with
    blockObject := blockObject
    wake := if absTime.tvSec ≥ counter then absTime else t.wake
    active := t.active && (blockObject = 0 && !absTime.timeSleep counter now) }

@[simp] theorem noExec_noExec : t.noExec.noExec = t.noExec := rfl

theorem noExec_woken (u : SchedUnblockType) : (t.woken u).noExec = (t.noExec.woken u).noExec := rfl

@[simp] theorem woken_woken (u : SchedUnblockType) : (t.woken u).woken u = t.woken u := rfl

variable {t} {t' : SchedTask}

theorem enabled_of_noExec (h : t'.noExec = t.noExec) : t'.enabled = t.enabled := by
  have := congrArg SchedTask.enabled h; exact this

theorem pid_of_noExec (h : t'.noExec = t.noExec) : t'.pid = t.pid := by
  have := congrArg SchedTask.pid h; exact this

theorem active_of_noExec (h : t'.noExec = t.noExec) : t'.active = t.active := by
  have := congrArg SchedTask.active h; exact this

theorem blockObject_of_noExec (h : t'.noExec = t.noExec) : t'.blockObject = t.blockObject := by
  have := congrArg SchedTask.blockObject h; exact this

theorem priority_of_noExec (h : t'.noExec = t.noExec) : t'.priority = t.priority := by
  have := congrArg SchedTask.priority h; exact this

theorem attrPriority_of_noExec (h : t'.noExec = t.noExec) : t'.attrPriority = t.attrPriority := by
  have := congrArg SchedTask.attrPriority h; exact this

theorem unblockType_of_noExec (h : t'.noExec = t.noExec) : t'.unblockType = t.unblockType := by
  have := congrArg SchedTask.unblockType h; exact this

theorem aiosuspend_of_noExec (h : t'.noExec = t.noExec) : t'.aiosuspend = t.aiosuspend := by
  have := congrArg SchedTask.aiosuspend h; exact this

theorem wake_of_noExec (h : t'.noExec = t.noExec) : t'.wake = t.wake := by
  have := congrArg SchedTask.wake h; exact this

end SchedTask

namespace Sched

variable {s s' : Sched}

theorem ExecOnly.noExec (h : ExecOnly s s') (i : Nat) :
    (s'.table i).noExec = (s.table i).noExec := h.row i

variable (s)

theorem table_modify (id : Nat) (f : SchedTask → SchedTask) (i : Nat) :
    (s.modify id f).table i = if i = id then f (s.table id) else s.table i := by
  split_ifs with h
  · rw [h, table_modify_self]
  · rw [table_modify_of_ne s h]

theorem table_assertActive (id : Nat) (u : SchedUnblockType) (i : Nat) :
    (s.schedPrivAssertActive id u).table i =
      if i = id then (s.table id).woken u else s.table i :=
  table_modify s id _ i

/-! ### Waking -/

theorem noExec_wake (id : Nat) (u : SchedUnblockType) (i : Nat) :
    ((s.privWake id u).table i).noExec =
      (if i = id then (s.table id).woken u else s.table i).noExec := by
  unfold privWake
  rw [(execOnly_updateOnWake _ _).noExec, table_assertActive]

theorem noExec_semPost (id i : Nat) :
    ((s.privSemPost id).table i).noExec =
      (if i = id then (s.table id).woken .semaphore else s.table i).noExec := by
  unfold privSemPost
  rw [noExec_wake, table_modify_self, table_modify]
  split_ifs <;> rfl

theorem noExec_signal (id i : Nat) :
    ((s.signalPrivActivate id).table i).noExec =
      (if i = id then { s.table id with stopped := false }.woken .signal else s.table i).noExec := by
  rw [(activate_spec s id).noExec, table_assertActive]
  unfold schedPrivDeassertStopped
  rw [table_modify_self, table_modify]
  split_ifs <;> rfl

/-- Waking the tasks of a list that pass a fixed test. -/
theorem table_wakeAll (p : Nat → Bool) (u : SchedUnblockType) (l : List Nat) (a : Sched) (i : Nat) :
    (l.foldl (fun acc j => if p j then acc.schedPrivAssertActive j u else acc) a).table i =
      if i ∈ l ∧ p i = true then (a.table i).woken u else a.table i := by
  induction l generalizing a with
  | nil => simp
  | cons j l ih =>
    rw [List.foldl_cons, ih]
    by_cases hj : p j = true
    · rw [if_pos hj, table_assertActive]
      by_cases hij : i = j
      · subst hij
        simp [hj]
      · simp [hij]
    · rw [if_neg hj]
      by_cases hij : i = j
      · subst hij
        simp [hj]
      · simp [hij]

theorem noExec_matchEvent (now i : Nat) :
    ((s.privUsecondMatchEvent now).table i).noExec =
      (if i ∈ s.ids ∧ s.due now i = true then (s.table i).woken .sleep else s.table i).noExec := by
  unfold privUsecondMatchEvent
  simp only
  rw [(execOnly_updateOnWake _ _).noExec, (execOnly_setOc _ _).noExec, table_wakeAll]

theorem unblockAll_spec (obj : Nat) (u : SchedUnblockType) (l : List Nat) (acc : Sched × Int)
    (i : Nat) :
    (l.foldl
      (fun (acc : Sched × Int) i =>
        if acc.1.blockedOn i obj then
          (acc.1.schedPrivAssertActive i u,
            if (acc.1.table i).attrPriority > acc.2 then (acc.1.table i).attrPriority else acc.2)
        else acc) acc).1.table i =
      if i ∈ l ∧ acc.1.blockedOn i obj = true then (acc.1.table i).woken u else acc.1.table i := by
  induction l generalizing acc with
  | nil => simp
  | cons j l ih =>
    rw [List.foldl_cons, ih]
    by_cases hj : acc.1.blockedOn j obj = true
    · rw [if_pos hj]
      by_cases hij : i = j
      · subst hij
        -- once awake the task is not blocked any more
        have hawake : (acc.1.schedPrivAssertActive i u).blockedOn i obj = false := by
          simp [blockedOn, table_assertActive, SchedTask.woken]
        simp [hawake, hj, table_assertActive]
      · have hsame : (acc.1.schedPrivAssertActive j u).blockedOn i obj = acc.1.blockedOn i obj := by
          simp [blockedOn, table_assertActive, hij]
        simp [hsame, hij, table_assertActive]
    · rw [if_neg hj]
      by_cases hij : i = j
      · subst hij
        simp [hj]
      · simp [hij]

theorem noExec_condBroadcast (cond i : Nat) :
    ((s.privCondBroadcast cond).table i).noExec =
      (if i ∈ s.ids ∧ s.blockedOn i cond = true then (s.table i).woken .cond else s.table i).noExec := by
  unfold privCondBroadcast schedPrivUnblockAll
  simp only
  rw [(execOnly_updateOnWake _ _).noExec, unblockAll_spec]

/-! ### Going to sleep -/

theorem noExec_updateOnSleep (id i : Nat) :
    ((s.schedPrivUpdateOnSleep id).table i).noExec =
      (if i = id then { s.table id with active := false } else s.table i).noExec := by
  rw [(execOnly_updateOnSleep s id).noExec, table_modify]

theorem timedWake_snd (current : Nat) (absTime : SchedTimeval) (now : Nat) :
    (s.timedWake current absTime now).2 = absTime.timeSleep s.usecondCounter now := by
  unfold timedWake SchedTimeval.timeSleep
  by_cases hepoch : absTime.tvSec ≥ s.usecondCounter
  · by_cases hsame : absTime.tvSec = s.usecondCounter
    · by_cases hlate : absTime.tvUsec > now + 40
      · simp [hsame, hlate]
      · simp [hsame, hlate]
    · simp [hepoch, hsame]
  · simp [hepoch]

theorem table_timedWake (current : Nat) (absTime : SchedTimeval) (now i : Nat) :
    (s.timedWake current absTime now).1.table i =
      if i = current ∧ absTime.tvSec ≥ s.usecondCounter then
        { s.table current with wake := absTime }
      else s.table i := by
  unfold timedWake
  by_cases hepoch : absTime.tvSec ≥ s.usecondCounter
  · by_cases hsame : absTime.tvSec = s.usecondCounter
    · by_cases hlate : absTime.tvUsec > now + 40
      · simp [hsame, hlate, table_modify]
      · simp [hsame, hlate, table_modify]
    · simp [hepoch, hsame, table_modify]
  · simp [hepoch]

theorem noExec_timedblock (current blockObject : Nat) (absTime : SchedTimeval) (now i : Nat) :
    ((s.schedPrivTimedblock current blockObject absTime now).table i).noExec =
      (if i = current then
        (s.table current).timedblocked blockObject absTime s.usecondCounter now
        else s.table i).noExec := by
  have htable := table_timedWake (s.modify current fun t => { t with blockObject := blockObject })
    current absTime now
  have hsleep : ((s.modify current fun t => { t with blockObject := blockObject }).timedWake
      current absTime now).2 = absTime.timeSleep s.usecondCounter now := by
    rw [timedWake_snd]; rfl
  have hcur : ((s.modify current fun t => { t with blockObject := blockObject }).timedWake
      current absTime now).1.table current =
      { s.table current with
        blockObject := blockObject
        wake := if absTime.tvSec ≥ s.usecondCounter then absTime else (s.table current).wake } := by
    rw [htable]
    simp only [true_and, usecondCounter_modify, table_modify_self]
    split_ifs <;> rfl
  have hne : ∀ {i}, i ≠ current →
      ((s.modify current fun t => { t with blockObject := blockObject }).timedWake
        current absTime now).1.table i = s.table i := by
    intro i hi
    rw [htable, if_neg (by simp [hi]), table_modify_of_ne s hi]
  unfold schedPrivTimedblock
  simp only [hsleep]
  by_cases hawake : (decide (blockObject = 0) && !absTime.timeSleep s.usecondCounter now) = true
  · rw [if_pos hawake]
    by_cases hi : i = current
    · subst hi
      rw [hcur, if_pos rfl]
      unfold SchedTask.timedblocked
      rw [hawake, Bool.and_true]
    · rw [hne hi, if_neg hi]
  · rw [if_neg hawake, noExec_updateOnSleep]
    by_cases hi : i = current
    · subst hi
      rw [if_pos rfl, if_pos rfl, hcur]
      unfold SchedTask.timedblocked
      rw [Bool.not_eq_true] at hawake
      rw [hawake, Bool.and_false]
    · rw [if_neg hi, if_neg hi, hne hi]

theorem noExec_semWait (current sem : Nat) (block : Bool) (i : Nat) :
    ((s.privSemWait current sem block).table i).noExec =
      (if i = current then
        { s.table current with
          blockObject := sem, active := (s.table current).active && !block }
        else s.table i).noExec := by
  unfold privSemWait
  simp only
  cases block with
  | false =>
    simp only [Bool.false_eq_true, ite_false, table_modify, Bool.not_false, Bool.and_true]
  | true =>
    simp only [ite_true, Bool.not_true, Bool.and_false]
    rw [noExec_updateOnSleep]
    by_cases hi : i = current
    · subst hi
      simp [schedPrivDeassertActive, schedPrivAssertStatusChange, SchedTask.noExec]
    · simp [hi, schedPrivDeassertActive, schedPrivAssertStatusChange, table_modify]

/-! ### Creating and ending tasks -/

theorem noExec_cleanup (current i : Nat) :
    ((s.privCleanup current).table i).noExec =
      (if i = current then clearTask (s.table current) else s.table i).noExec := by
  unfold privCleanup
  rw [noExec_updateOnSleep]
  by_cases hi : i = current
  · subst hi
    rw [if_pos rfl, if_pos rfl, table_modify_self]
    rfl
  · rw [if_neg hi, if_neg hi, table_modify_of_ne s hi]

/-- Waking the tasks whose block object is `self`, of which none is such a task afterwards or it is woken again. -/
theorem table_wakeJoined (self : Nat) (u : SchedUnblockType) (l : List Nat) (a : Sched) (i : Nat) :
    (l.foldl (fun acc j => if (acc.table j).blockObject == self then acc.schedPrivAssertActive j u else acc)
      a).table i =
      if i ∈ l ∧ (a.table i).blockObject = self then (a.table i).woken u else a.table i := by
  induction l generalizing a with
  | nil => simp
  | cons j l ih =>
    rw [List.foldl_cons, ih]
    by_cases hj : (a.table j).blockObject = self
    · rw [if_pos (beq_iff_eq.mpr hj), table_assertActive]
      by_cases hij : i = j
      · subst hij
        simp [hj]
      · simp [hij]
    · rw [if_neg fun hc => hj (beq_iff_eq.mp hc)]
      by_cases hij : i = j
      · subst hij
        simp [hj]
      · simp [hij]

theorem noExec_cleanupJoined (current self i : Nat) :
    ((s.privCleanupJoined current self).table i).noExec =
      (let r := if i ∈ s.ids ∧ (s.table i).blockObject = self then
          (s.table i).woken .pthreadJoinedThreadComplete
        else s.table i
      if i = current then clearTask r else r).noExec := by
  unfold privCleanupJoined
  rw [noExec_cleanup]
  by_cases hi : i = current
  · rw [if_pos hi, ← hi, table_wakeJoined]
    simp only [ite_true]
  · rw [if_neg hi, table_wakeJoined]
    simp only [if_neg hi]

theorem table_stopThreads (current i : Nat) :
    (s.privStopThreads current).table i =
      if i ∈ s.ids ∧ (s.table i).pid = (s.table current).pid ∧ i ≠ current then
        clearTask (s.table i)
      else s.table i := rfl

/-- The row of a task that has just been activated. -/
def freshRow (t : SchedTask) (schedPriority : Int) : SchedTask :=
  { enabled := t.enabled
    exec := false
    pid := t.pid
    active := true
    stopped := false
    aiosuspend := false
    unblockType := .none
    blockObject := 0
    wake := ⟨schedTimevalSecInvalid, 0⟩
    priority := schedPriority
    attrPriority := schedPriority }

theorem noExec_activateThread (id : Nat) (prio : Int) (i : Nat) :
    ((s.privActivateThread id prio).table i).noExec =
      (if i = id then freshRow (s.table id) prio else s.table i).noExec := by
  unfold privActivateThread
  rw [noExec_wake, table_modify_self, table_modify]
  split_ifs <;> rfl

theorem newTask_spec {pid id : Nat} (h : s.taskPrivNewTask pid = some (s', id)) :
    id ∈ s.ids ∧ (s.table id).enabled = false ∧ ∀ i, s'.table i =
        if i = id then { s.table id with enabled := true, exec := false, pid := pid }
        else s.table i := by
  unfold taskPrivNewTask at h
  split at h
  · exact absurd h (by simp)
  · next j hj =>
    simp only [Option.some.injEq, Prod.mk.injEq] at h
    obtain ⟨rfl, rfl⟩ := h
    have henabled := List.find?_some hj
    simp only [Bool.not_eq_eq_eq_not, Bool.not_true] at henabled
    exact ⟨List.mem_of_find?_eq_some hj, henabled, table_modify s _ _⟩

/-! ### The size of the tables and the epoch -/

/-- The tables have the same size and the epoch is the same. -/
structure SameEpoch (s s' : Sched) : Prop where
  total : s'.total = s.total
  usecondCounter : s'.usecondCounter = s.usecondCounter

namespace SameEpoch

variable {s s' s'' : Sched}

theorem trans (h : SameEpoch s s') (h' : SameEpoch s' s'') : SameEpoch s s'' :=
  ⟨h'.total.trans h.total, h'.usecondCounter.trans h.usecondCounter⟩

theorem ids (h : SameEpoch s s') : s'.ids = s.ids := by
  unfold Sched.ids
  rw [h.total]

end SameEpoch

theorem ExecOnly.sameEpoch {s s' : Sched} (h : ExecOnly s s') : SameEpoch s s' :=
  ⟨h.total, h.usecondCounter⟩

theorem sameEpoch_modify (id : Nat) (f : SchedTask → SchedTask) : SameEpoch s (s.modify id f) :=
  ⟨rfl, rfl⟩

theorem sameEpoch_assertActive (id : Nat) (u : SchedUnblockType) :
    SameEpoch s (s.schedPrivAssertActive id u) := ⟨rfl, rfl⟩

theorem sameEpoch_updateOnWake (p : Int) : SameEpoch s (s.schedPrivUpdateOnWake p) :=
  (execOnly_updateOnWake s p).sameEpoch

theorem sameEpoch_wake (id : Nat) (u : SchedUnblockType) : SameEpoch s (s.privWake id u) :=
  (sameEpoch_assertActive s id u).trans (sameEpoch_updateOnWake _ _)

theorem sameEpoch_updateOnSleep (id : Nat) : SameEpoch s (s.schedPrivUpdateOnSleep id) :=
  (sameEpoch_modify s id _).trans (execOnly_updateOnSleep s id).sameEpoch

theorem sameEpoch_timedWake (current : Nat) (absTime : SchedTimeval) (now : Nat) :
    SameEpoch s (s.timedWake current absTime now).1 := by
  obtain ⟨w, hw, _⟩ := timedWake_spec s current absTime now
  exact (sameEpoch_modify s current _).trans hw.sameEpoch

theorem sameEpoch_timedblock (current blockObject : Nat) (absTime : SchedTimeval) (now : Nat) :
    SameEpoch s (s.schedPrivTimedblock current blockObject absTime now) := by
  have hwake := (sameEpoch_modify s current fun t => { t with blockObject := blockObject }).trans
    (sameEpoch_timedWake _ current absTime now)
  unfold schedPrivTimedblock
  simp only
  split_ifs
  · exact hwake
  · exact hwake.trans (sameEpoch_updateOnSleep _ current)

theorem sameEpoch_semWait (current sem : Nat) (block : Bool) :
    SameEpoch s (s.privSemWait current sem block) := by
  unfold privSemWait
  cases block with
  | false => exact sameEpoch_modify s current fun t => { t with blockObject := sem }
  | true => exact ⟨(sameEpoch_updateOnSleep _ current).total,
      (sameEpoch_updateOnSleep _ current).usecondCounter⟩

theorem unblockAll_sameEpoch (obj : Nat) (u : SchedUnblockType) (l : List Nat) (acc : Sched × Int) :
    SameEpoch acc.1 (l.foldl
      (fun (acc : Sched × Int) i =>
        if acc.1.blockedOn i obj then
          (acc.1.schedPrivAssertActive i u,
            if (acc.1.table i).attrPriority > acc.2 then (acc.1.table i).attrPriority else acc.2)
        else acc) acc).1 := by
  induction l generalizing acc with
  | nil => exact ⟨rfl, rfl⟩
  | cons j l ih =>
    rw [List.foldl_cons]
    refine SameEpoch.trans ?_ (ih _)
    split_ifs <;> exact ⟨rfl, rfl⟩

theorem sameEpoch_condBroadcast (cond : Nat) : SameEpoch s (s.privCondBroadcast cond) :=
  (unblockAll_sameEpoch cond .cond s.ids (s, _)).trans (sameEpoch_updateOnWake _ _)

theorem sameEpoch_matchEvent (now : Nat) : SameEpoch s (s.privUsecondMatchEvent now) :=
  ⟨(matchEvent_row s now).1, (matchEvent_row s now).2.1⟩

theorem sameEpoch_wakeJoined (self : Nat) (u : SchedUnblockType) (l : List Nat) (a : Sched) :
    SameEpoch a (l.foldl
      (fun acc j => if (acc.table j).blockObject == self then acc.schedPrivAssertActive j u else acc) a) := by
  induction l generalizing a with
  | nil => exact ⟨rfl, rfl⟩
  | cons j l ih =>
    rw [List.foldl_cons]
    refine SameEpoch.trans ?_ (ih _)
    split_ifs <;> exact ⟨rfl, rfl⟩

theorem sameEpoch_cleanup (current : Nat) : SameEpoch s (s.privCleanup current) :=
  (sameEpoch_modify s current clearTask).trans (sameEpoch_updateOnSleep _ current)

theorem sameEpoch_cleanupJoined (current self : Nat) : SameEpoch s (s.privCleanupJoined current self) :=
  (sameEpoch_wakeJoined self .pthreadJoinedThreadComplete s.ids s).trans (sameEpoch_cleanup _ current)

theorem sameEpoch_activateThread (id : Nat) (prio : Int) : SameEpoch s (s.privActivateThread id prio) :=
  (sameEpoch_modify s id _).trans (sameEpoch_wake _ id .none)

theorem sameEpoch_newTask {pid id : Nat} (h : s.taskPrivNewTask pid = some (s', id)) :
    SameEpoch s s' := by
  unfold taskPrivNewTask at h
  split at h
  · exact absurd h (by simp)
  · simp only [Option.some.injEq, Prod.mk.injEq] at h
    obtain ⟨rfl, _⟩ := h
    exact sameEpoch_modify s _ _

end Sched

end CoActionOS
