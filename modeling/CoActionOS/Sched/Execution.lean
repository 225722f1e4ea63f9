import CoActionOS.Lib.FoldMax
import CoActionOS.Sched.Rows
import Mathlib.Order.Bounds.Basic

/-!
# Which tasks execute

The execution flags and the current priority are derived data: they are recomputed by
`sched_priv_update_on_stopped` always, and by `sched_priv_update_on_wake` only when the priority it is
told of reaches the current one.  `Executes` is what they should say.

`Settled` is the form the proofs use.  A call that puts a task to sleep establishes it from `Coherent`
alone, which says no more than that the flagged tasks can run.  A call that wakes tasks keeps it when
the priority it reports is that of a task it woke, `Settled.wake`.
-/

namespace CoActionOS

open Function

namespace Sched

/-- If some task can run, the current priority is the greatest priority of such a task and the tasks
flagged for execution are exactly those of that priority; otherwise no task is flagged. -/
structure Executes (s : Sched) : Prop where
  greatest : (∃ i ∈ s.ids, s.runnable i = true) →
    IsGreatest {p | ∃ i ∈ s.ids, s.runnable i = true ∧ (s.table i).priority = p} s.currentPriority
  flagged : (∃ i ∈ s.ids, s.runnable i = true) → ∀ i ∈ s.ids,
    (s.table i).exec = true ↔ s.runnable i = true ∧ (s.table i).priority = s.currentPriority
  none : (¬∃ i ∈ s.ids, s.runnable i = true) → ∀ i ∈ s.ids, (s.table i).exec = false

/-- A priority that `sched_current_priority`, an `int8_t`, can hold. -/
def validPriority (p : Int) : Prop := 0 ≤ p ∧ p ≤ 127

instance (p : Int) : Decidable (validPriority p) := inferInstanceAs (Decidable (_ ∧ _))

/-- `Executes` in the form the proofs use, with what it rests on: the current priority is `-1` while
no task can run, and the priorities are valid. -/
structure Settled (s : Sched) : Prop where
  upper : ∀ i ∈ s.ids, s.runnable i = true → (s.table i).priority ≤ s.currentPriority
  attained : ∀ i ∈ s.ids, s.runnable i = true →
    ∃ j ∈ s.ids, s.runnable j = true ∧ (s.table j).priority = s.currentPriority
  flagged : ∀ i ∈ s.ids,
    (s.table i).exec = true ↔ s.runnable i = true ∧ (s.table i).priority = s.currentPriority
  low : (∀ i ∈ s.ids, s.runnable i = false) → s.currentPriority = schedLowestPriority - 1
  valid : ∀ i, validPriority (s.table i).priority ∧ validPriority (s.table i).attrPriority

theorem Settled.lowest_le {s : Sched} (h : s.Settled) : schedLowestPriority - 1 ≤ s.currentPriority := by
  by_cases hno : ∀ i ∈ s.ids, s.runnable i = false
  · rw [h.low hno]
  · push Not at hno
    obtain ⟨i, hi, hri⟩ := hno
    rw [ne_eq, Bool.not_eq_false] at hri
    obtain ⟨j, _, _, hpj⟩ := h.attained i hi hri
    rw [← hpj]
    exact (show schedLowestPriority - 1 ≤ 0 by decide).trans (h.valid j).1.1

theorem Settled.executes {s : Sched} (h : s.Settled) : s.Executes where
  greatest := by
    rintro ⟨i, hi, hri⟩
    refine ⟨h.attained i hi hri, ?_⟩
    rintro p ⟨j, hj, hrj, rfl⟩
    exact h.upper j hj hrj
  flagged _ := h.flagged
  none hno i hi := by
    rw [← Bool.not_eq_true]
    intro hexec
    exact hno ⟨i, hi, ((h.flagged i hi).mp hexec).1⟩

variable {s s' : Sched}

/-! ### The two updates -/

theorem runnable_updateExec (s : Sched) (i : Nat) : s.updateExec.runnable i = s.runnable i := by
  unfold runnable updateExec
  by_cases hi : i ∈ s.ids
  · simp [hi]
  · simp [hi]

theorem priority_updateExec (s : Sched) (i : Nat) :
    (s.updateExec.table i).priority = (s.table i).priority := (execOnly_updateExec s).priority i

theorem ids_updateExec (s : Sched) : s.updateExec.ids = s.ids := rfl

/-- Once the current priority is right, the loop makes the flags right. -/
theorem settled_updateExec
    (hupper : ∀ i ∈ s.ids, s.runnable i = true → (s.table i).priority ≤ s.currentPriority)
    (hattained : ∀ i ∈ s.ids, s.runnable i = true →
      ∃ j ∈ s.ids, s.runnable j = true ∧ (s.table j).priority = s.currentPriority)
    (hlow : (∀ i ∈ s.ids, s.runnable i = false) → s.currentPriority = schedLowestPriority - 1)
    (hvalid : ∀ i, validPriority (s.table i).priority ∧ validPriority (s.table i).attrPriority) :
    s.updateExec.Settled where
  upper i hi := by
    rw [runnable_updateExec, priority_updateExec]
    exact hupper i hi
  attained i hi hr := by
    rw [runnable_updateExec] at hr
    obtain ⟨j, hj, hrj, hp⟩ := hattained i hi hr
    exact ⟨j, hj, by rw [runnable_updateExec]; exact hrj, by rw [priority_updateExec]; exact hp⟩
  flagged i hi := by
    rw [runnable_updateExec, priority_updateExec]
    rw [ids_updateExec] at hi
    unfold updateExec
    simp only [hi, ite_true, Bool.and_eq_true, beq_iff_eq]
  low hno := hlow fun i hi => by rw [← runnable_updateExec]; exact hno i hi
  valid i := by
    rw [priority_updateExec]
    refine ⟨(hvalid i).1, ?_⟩
    rw [SchedTask.attrPriority_of_noExec ((execOnly_updateExec s).noExec i)]
    exact (hvalid i).2

/-- What `sched_priv_update_on_wake` needs to know of the table and of the priority it is told. -/
theorem settled_updateOnWake {p : Int}
    (hupper : ∀ i ∈ s.ids, s.runnable i = true → (s.table i).priority ≤ max p s.currentPriority)
    (hnew : s.currentPriority < p → ∃ i ∈ s.ids, s.runnable i = true ∧ (s.table i).priority = p)
    (hattained : p ≤ s.currentPriority → ∀ i ∈ s.ids, s.runnable i = true →
      ∃ j ∈ s.ids, s.runnable j = true ∧ (s.table j).priority = s.currentPriority)
    (hlow : p ≤ s.currentPriority → (∀ i ∈ s.ids, s.runnable i = false) →
      s.currentPriority = schedLowestPriority - 1)
    (hflagged : p < s.currentPriority → ∀ i ∈ s.ids, (s.table i).exec = true ↔
      s.runnable i = true ∧ (s.table i).priority = s.currentPriority)
    (hvalid : ∀ i, validPriority (s.table i).priority ∧ validPriority (s.table i).attrPriority) :
    (s.schedPrivUpdateOnWake p).Settled := by
  unfold schedPrivUpdateOnWake
  split_ifs with hgt heq
  · -- the priority is raised to one that some task has
    obtain ⟨j, hj, hrj, hpj⟩ := hnew hgt
    apply settled_updateExec
    · intro i hi hr
      have hle := hupper i hi hr
      rwa [max_eq_left (le_of_lt hgt)] at hle
    · exact fun _ _ _ => ⟨j, hj, hrj, hpj⟩
    · intro hno
      have hrj' : s.runnable j = false := hno j hj
      rw [hrj] at hrj'
      exact absurd hrj' (by simp)
    · exact hvalid
  · apply settled_updateExec
    · intro i hi hr
      have hle := hupper i hi hr
      rwa [heq, max_self] at hle
    · exact hattained heq.le
    · exact hlow heq.le
    · exact hvalid
  · have hlt : p < s.currentPriority := lt_of_le_of_ne (not_lt.mp hgt) heq
    refine ⟨fun i hi hr => ?_, hattained hlt.le, hflagged hlt, hlow hlt.le, hvalid⟩
    have hle := hupper i hi hr
    rwa [max_eq_right hlt.le] at hle

/-- A priority that is not below the current one is taken over. -/
theorem settled_updateOnWake_of_le {p : Int} (hle : s.currentPriority ≤ p)
    (hupper : ∀ i ∈ s.ids, s.runnable i = true → (s.table i).priority ≤ p)
    (hfound : ∃ i ∈ s.ids, s.runnable i = true ∧ (s.table i).priority = p)
    (hvalid : ∀ i, validPriority (s.table i).priority ∧ validPriority (s.table i).attrPriority) :
    (s.schedPrivUpdateOnWake p).Settled := by
  obtain ⟨i, hi, hri, hpi⟩ := hfound
  apply settled_updateOnWake
  · intro j hj hrj
    exact (hupper j hj hrj).trans (le_max_left _ _)
  · exact fun _ => ⟨i, hi, hri, hpi⟩
  · intro hge _ _ _
    exact ⟨i, hi, hri, hpi.trans (le_antisymm hge hle)⟩
  · intro _ hno
    rw [hno i hi] at hri
    exact absurd hri (by simp)
  · intro hlt
    exact absurd hle (not_le.mpr hlt)
  · exact hvalid

/-- `sched_priv_update_on_stopped` needs no more than that nothing is flagged once nothing can run. -/
theorem settled_updateOnStopped
    (hnone : (∀ i ∈ s.ids, s.runnable i = false) → ∀ i ∈ s.ids, (s.table i).exec = false)
    (hvalid : ∀ i, validPriority (s.table i).priority ∧ validPriority (s.table i).attrPriority) :
    s.schedPrivUpdateOnStopped.Settled := by
  obtain ⟨_, hmax, hcases⟩ := foldl_max_spec s.runnable (fun i => (s.table i).priority) s.ids
    (schedLowestPriority - 1)
  unfold schedPrivUpdateOnStopped
  simp only
  show Settled (if s.ids.foldl (fun p i => if s.runnable i && (s.table i).priority > p then
      (s.table i).priority else p) (schedLowestPriority - 1) ≥ schedLowestPriority then _ else _)
  set r := s.ids.foldl (fun p i => if s.runnable i && (s.table i).priority > p then
      (s.table i).priority else p) (schedLowestPriority - 1) with hr
  split_ifs with hge
  · -- some task can run, and the loop has found the greatest priority
    have hfound : ∃ i ∈ s.ids, s.runnable i = true ∧ (s.table i).priority = r := by
      rcases hcases with heq | hfound
      · rw [heq] at hge
        exact absurd hge (by decide)
      · exact hfound
    have hlt : schedLowestPriority - 1 < r := by
      unfold schedLowestPriority at hge ⊢
      omega
    apply settled_updateOnWake
    · intro i hi hri
      exact (hmax i hi hri).trans (le_max_left _ _)
    · exact fun _ => hfound
    · exact fun hle => absurd hlt (not_lt.mpr hle)
    · exact fun hle => absurd hlt (not_lt.mpr hle)
    · exact fun hlt' => absurd hlt (not_lt.mpr hlt'.le)
    · exact hvalid
  · have hno : ∀ i ∈ s.ids, ¬s.runnable i = true := fun i hi hri =>
      hge ((hvalid i).1.1.trans (hmax i hi hri))
    have hoff := hnone fun i hi => Bool.not_eq_true _ ▸ hno i hi
    refine ⟨fun i hi hri => absurd hri (hno i hi), fun i hi hri => absurd hri (hno i hi),
      fun i hi => ?_, fun _ => ?_, hvalid⟩
    · rw [show (s.table i).exec = false from hoff i hi]
      simp only [Bool.false_eq_true, false_iff, not_and]
      exact fun hri => absurd hri (hno i hi)
    · rfl

/-! ### Going to sleep -/

/-- The flagged tasks can run and the priorities are valid: what is left of `Settled` when the current
priority is out of date. -/
structure Coherent (s : Sched) : Prop where
  flagged : ∀ i ∈ s.ids, (s.table i).exec = true → s.runnable i = true
  valid : ∀ i, validPriority (s.table i).priority ∧ validPriority (s.table i).attrPriority

theorem Settled.coherent (h : s.Settled) : s.Coherent :=
  ⟨fun i hi hexec => ((h.flagged i hi).mp hexec).1, h.valid⟩

theorem Coherent.updateOnStopped (h : s.Coherent) : s.schedPrivUpdateOnStopped.Settled := by
  apply settled_updateOnStopped
  · intro hno i hi
    rw [← Bool.not_eq_true]
    intro hexec
    have hr := h.flagged i hi hexec
    rw [hno i hi] at hr
    exact absurd hr (by simp)
  · exact h.valid

theorem Coherent.deassertActive (h : s.Coherent) (id : Nat) : (s.schedPrivDeassertActive id).Coherent := by
  have hrow : ∀ i, i ≠ id → (s.schedPrivDeassertActive id).table i = s.table i := by
    intro i hid
    simp [schedPrivDeassertActive, schedPrivAssertStatusChange, table_modify, hid]
  constructor
  · intro i hi hexec
    by_cases hid : i = id
    · subst hid
      simp [schedPrivDeassertActive, schedPrivAssertStatusChange] at hexec
    · rw [hrow i hid] at hexec
      unfold runnable
      rw [hrow i hid]
      exact h.flagged i hi hexec
  · intro i
    by_cases hid : i = id
    · subst hid
      simpa [schedPrivDeassertActive, schedPrivAssertStatusChange] using h.valid i
    · rw [hrow i hid]
      exact h.valid i

theorem Coherent.updateOnSleep (h : s.Coherent) (id : Nat) : (s.schedPrivUpdateOnSleep id).Settled :=
  (h.deassertActive id).updateOnStopped

end Sched

/-! ### What the flags depend on -/

namespace SchedTask

/-- The part of a row that `Settled` is about. -/
def bare (t : SchedTask) : SchedTask :=
  { t with
    pid := 0, aiosuspend := false, unblockType := .none, blockObject := 0, wake := ⟨0, 0⟩ }

variable {t t' : SchedTask}

theorem exec_of_bare (h : t'.bare = t.bare) : t'.exec = t.exec := by
  have := congrArg SchedTask.exec h; exact this

theorem priority_of_bare (h : t'.bare = t.bare) : t'.priority = t.priority := by
  have := congrArg SchedTask.priority h; exact this

theorem attrPriority_of_bare (h : t'.bare = t.bare) : t'.attrPriority = t.attrPriority := by
  have := congrArg SchedTask.attrPriority h; exact this

end SchedTask

namespace Sched

variable {s s' : Sched}

theorem runnable_of_bare {i : Nat} (h : (s'.table i).bare = (s.table i).bare) :
    s'.runnable i = s.runnable i := by
  have hrow := congrArg (fun t : SchedTask => t.enabled && t.active && !t.stopped) h
  exact hrow

theorem Coherent.congr (h : s.Coherent) (htotal : s'.total = s.total)
    (hrow : ∀ i, (s'.table i).bare = (s.table i).bare) : s'.Coherent := by
  have hids : s'.ids = s.ids := by unfold ids; rw [htotal]
  constructor
  · intro i hi hexec
    rw [runnable_of_bare (hrow i)]
    rw [SchedTask.exec_of_bare (hrow i)] at hexec
    exact h.flagged i (hids ▸ hi) hexec
  · intro i
    rw [SchedTask.priority_of_bare (hrow i), SchedTask.attrPriority_of_bare (hrow i)]
    exact h.valid i

theorem Settled.congr (h : s.Settled) (htotal : s'.total = s.total)
    (hcur : s'.currentPriority = s.currentPriority)
    (hrow : ∀ i, (s'.table i).bare = (s.table i).bare) : s'.Settled := by
  have hids : s'.ids = s.ids := by unfold ids; rw [htotal]
  have hprio : ∀ i, (s'.table i).priority = (s.table i).priority :=
    fun i => SchedTask.priority_of_bare (hrow i)
  have hrun : ∀ i, s'.runnable i = s.runnable i := fun i => runnable_of_bare (hrow i)
  constructor
  · intro i hi hr
    rw [hids] at hi
    rw [hrun] at hr
    rw [hprio, hcur]
    exact h.upper i hi hr
  · intro i hi hr
    rw [hids] at hi
    rw [hrun] at hr
    obtain ⟨j, hj, hrj, hpj⟩ := h.attained i hi hr
    refine ⟨j, hids ▸ hj, ?_, ?_⟩
    · rw [hrun]; exact hrj
    · rw [hprio, hcur]; exact hpj
  · intro i hi
    rw [hids] at hi
    rw [SchedTask.exec_of_bare (hrow i), hrun, hprio, hcur]
    exact h.flagged i hi
  · intro hno
    rw [hcur]
    apply h.low
    intro i hi
    rw [← hrun]
    exact hno i (hids ▸ hi)
  · exact (h.coherent.congr htotal hrow).valid

theorem bare_timedWake (s : Sched) (current : Nat) (absTime : SchedTimeval) (now i : Nat) :
    ((s.timedWake current absTime now).1.table i).bare = (s.table i).bare := by
  rw [table_timedWake]
  split_ifs with h
  · rw [h.1]; rfl
  · rfl

theorem bare_setBlockObject (s : Sched) (id obj i : Nat) :
    ((s.modify id fun t => { t with blockObject := obj }).table i).bare = (s.table i).bare := by
  rw [table_modify]
  split_ifs with h
  · rw [h]; rfl
  · rfl

theorem timedWake_currentPriority (s : Sched) (current : Nat) (absTime : SchedTimeval) (now : Nat) :
    (s.timedWake current absTime now).1.currentPriority = s.currentPriority := by
  unfold timedWake
  simp only
  split_ifs <;> rfl

/-- On a real object the caller goes to sleep in any case. -/
theorem Coherent.timedblock (h : s.Coherent) (current : Nat) {obj : Nat} (hobj : obj ≠ 0)
    (absTime : SchedTimeval) (now : Nat) : (s.schedPrivTimedblock current obj absTime now).Settled := by
  unfold schedPrivTimedblock
  simp only [hobj, decide_false, Bool.false_and, Bool.false_eq_true, ite_false]
  apply Coherent.updateOnSleep
  refine (h.congr (sameEpoch_modify s current _).total (bare_setBlockObject s current obj)).congr
    (sameEpoch_timedWake _ current absTime now).total ?_
  exact bare_timedWake _ current absTime now

theorem Settled.timedblock (h : s.Settled) (current obj : Nat) (absTime : SchedTimeval) (now : Nat) :
    (s.schedPrivTimedblock current obj absTime now).Settled := by
  by_cases hobj : obj = 0
  · subst hobj
    have h' := (h.congr (sameEpoch_modify s current _).total rfl (bare_setBlockObject s current 0)).congr
      (sameEpoch_timedWake _ current absTime now).total (timedWake_currentPriority _ current absTime now)
      (bare_timedWake _ current absTime now)
    unfold schedPrivTimedblock
    simp only
    split_ifs with hawake
    · exact h'
    · exact h'.coherent.updateOnSleep current
  · exact h.coherent.timedblock current hobj absTime now

theorem Settled.semWait (h : s.Settled) (current sem : Nat) (block : Bool) :
    (s.privSemWait current sem block).Settled := by
  have h' := h.congr (sameEpoch_modify s current _).total rfl (bare_setBlockObject s current sem)
  unfold privSemWait
  cases block with
  | false => exact h'
  | true => exact (h'.coherent.deassertActive current).updateOnSleep current

end Sched

/-! ### Waking tasks -/

/-- `t'` is `t` after wake-ups and continuations: if `t` can run, so can `t'`. -/
structure SchedTask.Awakens (t t' : SchedTask) : Prop where
  enabled : t'.enabled = t.enabled
  exec : t'.exec = t.exec
  active : t.active = true → t'.active = true
  stopped : t.stopped = false → t'.stopped = false
  priority : t'.priority = t.priority
  attrPriority : t'.attrPriority = t.attrPriority

theorem SchedTask.awakens_refl (t : SchedTask) : t.Awakens t := ⟨rfl, rfl, id, id, rfl, rfl⟩

theorem SchedTask.awakens_woken (t : SchedTask) (u : SchedUnblockType) : t.Awakens (t.woken u) :=
  ⟨rfl, rfl, fun _ => rfl, id, rfl, rfl⟩

theorem SchedTask.awakens_continued (t : SchedTask) : t.Awakens { t with stopped := false } :=
  ⟨rfl, rfl, id, fun _ => rfl, rfl, rfl⟩

theorem SchedTask.Awakens.trans {t t' t'' : SchedTask} (h : t.Awakens t') (h' : t'.Awakens t'') :
    t.Awakens t'' :=
  ⟨h'.enabled.trans h.enabled, h'.exec.trans h.exec, fun ha => h'.active (h.active ha),
    fun hs => h'.stopped (h.stopped hs), h'.priority.trans h.priority,
    h'.attrPriority.trans h.attrPriority⟩

namespace Sched

/-- `s'` is `s` after wake-ups and continuations, before the execution flags are brought up to date. -/
structure Awakens (s s' : Sched) : Prop where
  total : s'.total = s.total
  currentPriority : s'.currentPriority = s.currentPriority
  row : ∀ i, (s.table i).Awakens (s'.table i)

variable {s s' : Sched}

namespace Awakens

theorem trans {s s' s'' : Sched} (h : Awakens s s') (h' : Awakens s' s'') : Awakens s s'' :=
  ⟨h'.total.trans h.total, h'.currentPriority.trans h.currentPriority,
    fun i => (h.row i).trans (h'.row i)⟩

theorem ids (h : Awakens s s') : s'.ids = s.ids := by
  unfold Sched.ids
  rw [h.total]

theorem runnable (h : Awakens s s') {i : Nat} (hr : s.runnable i = true) : s'.runnable i = true := by
  unfold Sched.runnable at hr ⊢
  simp only [Bool.and_eq_true, Bool.not_eq_true'] at hr ⊢
  obtain ⟨⟨henabled, hactive⟩, hstopped⟩ := hr
  refine ⟨⟨?_, (h.row i).active hactive⟩, (h.row i).stopped hstopped⟩
  rw [(h.row i).enabled, henabled]

theorem valid (h : Awakens s s')
    (hvalid : ∀ i, validPriority (s.table i).priority ∧ validPriority (s.table i).attrPriority)
    (i : Nat) : validPriority (s'.table i).priority ∧ validPriority (s'.table i).attrPriority := by
  rw [(h.row i).priority, (h.row i).attrPriority]
  exact hvalid i

theorem coherent (h : Awakens s s') (hs : s.Coherent) : s'.Coherent := by
  refine ⟨fun i hi hexec => ?_, h.valid hs.valid⟩
  rw [h.ids] at hi
  rw [(h.row i).exec] at hexec
  exact h.runnable (hs.flagged i hi hexec)

/-- The priority reported to `sched_priv_update_on_wake` must reach every task that has become
runnable and is not below the current priority, and must be that of a runnable task if it is to become
the current one. -/
theorem settled (h : Awakens s s') (hs : s.Settled) {p : Int}
    (hreach : ∀ i ∈ s.ids, s'.runnable i = true → s.runnable i = false →
      (s.table i).priority ≤ p ∨ (s.table i).priority < s.currentPriority)
    (hfound : s.currentPriority < p → ∃ i ∈ s.ids, s'.runnable i = true ∧ (s.table i).priority = p) :
    (s'.schedPrivUpdateOnWake p).Settled := by
  -- a task that can run now could before, or its priority is reported, or it is below the current one
  have hcases : ∀ i ∈ s.ids, s'.runnable i = true → s.runnable i = true ∨
      (s.table i).priority ≤ p ∨ (s.table i).priority < s.currentPriority := by
    intro i hi hr
    cases hold : s.runnable i with
    | true => exact Or.inl rfl
    | false => exact Or.inr (hreach i hi hr hold)
  -- if the priority is not raised, there was a task that could run as soon as there is one now
  have hold : p ≤ s.currentPriority → ∀ i ∈ s.ids, s'.runnable i = true →
      ∃ j ∈ s.ids, s.runnable j = true := by
    intro hle i hi hr
    by_contra hno
    push Not at hno
    have hlow := hs.low fun j hj => Bool.not_eq_true _ ▸ hno j hj
    have hprio := (hs.valid i).1.1
    unfold schedLowestPriority at hlow
    rcases hcases i hi hr with hri | hp | hp
    · exact hno i hi hri
    · omega
    · omega
  apply settled_updateOnWake
  · intro i hi hr
    rw [h.ids] at hi
    rw [(h.row i).priority, h.currentPriority]
    rcases hcases i hi hr with hri | hp | hp
    · exact (hs.upper i hi hri).trans (le_max_right _ _)
    · exact hp.trans (le_max_left _ _)
    · exact hp.le.trans (le_max_right _ _)
  · intro hlt
    rw [h.currentPriority] at hlt
    obtain ⟨i, hi, hr, hp⟩ := hfound hlt
    refine ⟨i, h.ids ▸ hi, hr, ?_⟩
    rw [(h.row i).priority, hp]
  · intro hle i hi hr
    rw [h.currentPriority] at hle
    rw [h.ids] at hi
    obtain ⟨j, hj, hrj⟩ := hold hle i hi hr
    obtain ⟨k, hk, hrk, hpk⟩ := hs.attained j hj hrj
    refine ⟨k, h.ids ▸ hk, h.runnable hrk, ?_⟩
    rw [(h.row k).priority, h.currentPriority, hpk]
  · intro hle hno
    rw [h.currentPriority] at hle ⊢
    apply hs.low
    intro i hi
    rw [← Bool.not_eq_true]
    intro hr
    have hr' := hno i (h.ids ▸ hi)
    rw [h.runnable hr] at hr'
    exact absurd hr' (by simp)
  · intro hlt i hi
    rw [h.currentPriority] at hlt ⊢
    rw [h.ids] at hi
    rw [(h.row i).exec, (h.row i).priority, hs.flagged i hi]
    constructor
    · rintro ⟨hr, hp⟩
      exact ⟨h.runnable hr, hp⟩
    · rintro ⟨hr, hp⟩
      refine ⟨?_, hp⟩
      rcases hcases i hi hr with hri | hle | hlow
      · exact hri
      · omega
      · omega
  · exact h.valid hs.valid

end Awakens

theorem awakens_assertActive (s : Sched) (id : Nat) (u : SchedUnblockType) :
    Awakens s (s.schedPrivAssertActive id u) := by
  refine ⟨rfl, rfl, fun i => ?_⟩
  rw [table_assertActive]
  split_ifs with h
  · rw [h]; exact (s.table id).awakens_woken u
  · exact (s.table i).awakens_refl

theorem awakens_deassertStopped (s : Sched) (id : Nat) : Awakens s (s.schedPrivDeassertStopped id) := by
  refine ⟨rfl, rfl, fun i => ?_⟩
  unfold schedPrivDeassertStopped
  rw [table_modify]
  split_ifs with h
  · rw [h]; exact (s.table id).awakens_continued
  · exact (s.table i).awakens_refl

theorem awakens_wakeAll (p : Nat → Bool) (u : SchedUnblockType) (l : List Nat) (s : Sched) :
    Awakens s (l.foldl (fun acc j => if p j then acc.schedPrivAssertActive j u else acc) s) := by
  induction l generalizing s with
  | nil => exact ⟨rfl, rfl, fun i => (s.table i).awakens_refl⟩
  | cons j l ih =>
    rw [List.foldl_cons]
    split_ifs
    · exact (awakens_assertActive s j u).trans (ih _)
    · exact ih s

theorem runnable_assertActive (s : Sched) (id : Nat) (u : SchedUnblockType) (i : Nat) :
    (s.schedPrivAssertActive id u).runnable i =
      if i = id then (s.table id).enabled && !(s.table id).stopped else s.runnable i := by
  unfold runnable
  rw [table_assertActive]
  split_ifs with h
  · simp [SchedTask.woken]
  · rfl

theorem runnable_of_row {i : Nat} (h : s'.table i = s.table i) : s'.runnable i = s.runnable i := by
  unfold runnable
  rw [h]

/-! ### The calls that wake tasks -/

theorem Settled.wake (h : s.Settled) {id : Nat} (hid : id ∈ s.ids) (u : SchedUnblockType)
    (hok : ((s.table id).enabled = true ∧ (s.table id).stopped = false) ∨
      (s.table id).priority ≤ s.currentPriority) :
    (s.privWake id u).Settled := by
  have hw := awakens_assertActive s id u
  unfold privWake
  simp only
  rw [(hw.row id).priority]
  apply hw.settled h
  · intro i _ hr hold
    rw [runnable_assertActive] at hr
    by_cases hi : i = id
    · subst hi; exact Or.inl le_rfl
    · rw [if_neg hi, hold] at hr
      exact absurd hr (by simp)
  · intro hlt
    rcases hok with ⟨henabled, hstopped⟩ | hle
    · refine ⟨id, hid, ?_, rfl⟩
      rw [runnable_assertActive, if_pos rfl, henabled, hstopped]
      rfl
    · exact absurd hlt (not_lt.mpr hle)

theorem Settled.semPost (h : s.Settled) {id : Nat} (hid : id ∈ s.ids)
    (hok : ((s.table id).enabled = true ∧ (s.table id).stopped = false) ∨
      (s.table id).priority ≤ s.currentPriority) :
    (s.privSemPost id).Settled := by
  have hclear : (s.modify id fun t => { t with blockObject := 0 }).Settled :=
    h.congr rfl rfl (bare_setBlockObject s id 0)
  apply hclear.wake hid .semaphore
  rw [table_modify_self]
  exact hok

theorem Settled.signal (h : s.Settled) {id : Nat} (hid : id ∈ s.ids)
    (hok : (s.table id).enabled = true ∨ (s.table id).priority ≤ s.currentPriority) :
    (s.signalPrivActivate id).Settled := by
  have hw := (awakens_deassertStopped s id).trans (awakens_assertActive _ id .signal)
  have hrow : (s.schedPrivDeassertStopped id).table id = { s.table id with stopped := false } :=
    table_modify_self s id _
  have hother : ∀ i, i ≠ id → (s.schedPrivDeassertStopped id).runnable i = s.runnable i :=
    fun i hi => runnable_of_row (table_modify_of_ne s hi _)
  unfold signalPrivActivate
  simp only
  rw [(hw.row id).priority]
  apply hw.settled h
  · intro i _ hr hold
    rw [runnable_assertActive] at hr
    by_cases hi : i = id
    · subst hi; exact Or.inl le_rfl
    · rw [if_neg hi, hother i hi, hold] at hr
      exact absurd hr (by simp)
  · intro hlt
    rcases hok with henabled | hle
    · refine ⟨id, hid, ?_, rfl⟩
      rw [runnable_assertActive, if_pos rfl, hrow]
      simp [henabled]
    · exact absurd hlt (not_lt.mpr hle)

/-- A task that a list of wake-ups has made runnable passed the test and is not stopped. -/
theorem runnable_wakeAll (p : Nat → Bool) {u : SchedUnblockType} {i : Nat}
    (hrow : s'.table i = if i ∈ s.ids ∧ p i = true then (s.table i).woken u else s.table i)
    (hi : i ∈ s.ids) (hr : s'.runnable i = true) (hold : s.runnable i = false) :
    p i = true ∧ (s.table i).stopped = false := by
  by_cases hp : p i = true
  · rw [if_pos ⟨hi, hp⟩] at hrow
    unfold runnable at hr
    rw [hrow] at hr
    simp only [SchedTask.woken, Bool.and_eq_true, Bool.not_eq_true'] at hr
    exact ⟨hp, hr.2⟩
  · rw [if_neg (fun h => hp h.2)] at hrow
    rw [runnable_of_row hrow, hold] at hr
    exact absurd hr (by simp)

theorem runnable_of_wakeAll (p : Nat → Bool) {u : SchedUnblockType} {i : Nat}
    (hrow : s'.table i = if i ∈ s.ids ∧ p i = true then (s.table i).woken u else s.table i)
    (hi : i ∈ s.ids) (hp : p i = true) (henabled : (s.table i).enabled = true)
    (hstopped : (s.table i).stopped = false) : s'.runnable i = true := by
  rw [if_pos ⟨hi, hp⟩] at hrow
  unfold runnable
  rw [hrow]
  simp [SchedTask.woken, henabled, hstopped]

theorem Settled.matchEvent (h : s.Settled) (now : Nat)
    (hok : ∀ i ∈ s.ids, s.due now i = true → s.currentPriority < (s.table i).priority →
      ∃ j ∈ s.ids, s.due now j = true ∧ (s.table j).stopped = false ∧
        (s.table i).priority ≤ (s.table j).priority) :
    (s.privUsecondMatchEvent now).Settled := by
  obtain ⟨_, hmax, hcases⟩ := foldl_max_spec (s.due now) (fun i => (s.table i).priority) s.ids
    (schedLowestPriority - 1)
  unfold privUsecondMatchEvent
  simp only
  set p := s.ids.foldl
    (fun p i => if s.due now i && (s.table i).priority > p then (s.table i).priority else p)
    (schedLowestPriority - 1) with hp
  set woken := s.ids.foldl
    (fun acc i => if s.due now i then acc.schedPrivAssertActive i .sleep else acc) s with hwoken
  have hw : Awakens s woken := awakens_wakeAll (s.due now) .sleep s.ids s
  have hrow : ∀ i, woken.table i =
      if i ∈ s.ids ∧ s.due now i = true then (s.table i).woken .sleep else s.table i :=
    table_wakeAll (s.due now) .sleep s.ids s
  have henabled : ∀ i, s.due now i = true → (s.table i).enabled = true := by
    intro i hdue
    unfold due at hdue
    simp only [Bool.and_eq_true] at hdue
    exact hdue.1.1
  have key : ∀ oc, ({ woken with sleepOc := oc }.schedPrivUpdateOnWake p).Settled := by
    intro oc
    have hw' : Awakens s { woken with sleepOc := oc } := ⟨hw.total, hw.currentPriority, hw.row⟩
    apply hw'.settled h
    · intro i hi hr hold
      exact Or.inl (hmax i hi (runnable_wakeAll (s.due now) (hrow i) hi hr hold).1)
    · intro hlt
      rcases hcases with heq | ⟨i, hi, hdue, hpi⟩
      · rw [heq] at hlt
        exact absurd h.lowest_le (not_le.mpr hlt)
      · rw [← hpi] at hlt
        obtain ⟨j, hj, hduej, hstopped, hle⟩ := hok i hi hdue hlt
        refine ⟨j, hj, runnable_of_wakeAll (s.due now) (hrow j) hj hduej (henabled j hduej) hstopped, ?_⟩
        rw [hpi] at hle
        exact le_antisymm (hmax j hj hduej) hle
  exact key _

theorem Settled.overflowEvent (h : s.Settled) (now : Nat)
    (hok : ∀ i ∈ s.ids,
      { s with usecondCounter := (s.usecondCounter + 1) % 2 ^ 32 }.due now i = true →
      s.currentPriority < (s.table i).priority →
      ∃ j ∈ s.ids, { s with usecondCounter := (s.usecondCounter + 1) % 2 ^ 32 }.due now j = true ∧
        (s.table j).stopped = false ∧ (s.table i).priority ≤ (s.table j).priority) :
    (s.usecondOverflowEvent now).Settled := by
  unfold usecondOverflowEvent
  apply Settled.matchEvent
  · exact h.congr rfl rfl fun _ => rfl
  · exact hok

/-- The loop body of `sched_priv_unblock_all`. -/
def unblockNext (obj : Nat) (u : SchedUnblockType) (acc : Sched × Int) (i : Nat) : Sched × Int :=
  if acc.1.blockedOn i obj then
    (acc.1.schedPrivAssertActive i u,
      if (acc.1.table i).attrPriority > acc.2 then (acc.1.table i).attrPriority else acc.2)
  else acc

theorem unblockAll_eq (s : Sched) (obj : Nat) (u : SchedUnblockType) :
    s.schedPrivUnblockAll obj u = s.ids.foldl (unblockNext obj u) (s, schedLowestPriority - 1) := rfl

theorem blockedOn_assertActive (s : Sched) (j : Nat) (u : SchedUnblockType) (i obj : Nat) :
    (s.schedPrivAssertActive j u).blockedOn i obj = if i = j then false else s.blockedOn i obj := by
  unfold blockedOn
  rw [table_assertActive]
  split_ifs with h
  · simp [SchedTask.woken]
  · rfl

/-- The loop wakes tasks and computes the greatest base priority of those blocked on the object. -/
theorem unblockAll_priority (obj : Nat) (u : SchedUnblockType) (l : List Nat) (acc : Sched × Int) :
    Awakens acc.1 (l.foldl (unblockNext obj u) acc).1 ∧
      acc.2 ≤ (l.foldl (unblockNext obj u) acc).2 ∧
      (∀ i ∈ l, acc.1.blockedOn i obj = true →
        (acc.1.table i).attrPriority ≤ (l.foldl (unblockNext obj u) acc).2) ∧
      ((l.foldl (unblockNext obj u) acc).2 = acc.2 ∨ ∃ i ∈ l, acc.1.blockedOn i obj = true ∧
        (acc.1.table i).attrPriority = (l.foldl (unblockNext obj u) acc).2) := by
  induction l generalizing acc with
  | nil => exact ⟨⟨rfl, rfl, fun i => (acc.1.table i).awakens_refl⟩, le_rfl, by simp, Or.inl rfl⟩
  | cons j l ih =>
    rw [List.foldl_cons]
    obtain ⟨hw, hstart, hall, hcases⟩ := ih (unblockNext obj u acc j)
    set r := l.foldl (unblockNext obj u) (unblockNext obj u acc j) with hr
    -- the task is blocked on the object, and is woken
    by_cases hj : acc.1.blockedOn j obj = true
    · have hfst : (unblockNext obj u acc j).1 = acc.1.schedPrivAssertActive j u := by
        unfold unblockNext
        rw [if_pos hj]
      have hsnd : (unblockNext obj u acc j).2 = max (acc.1.table j).attrPriority acc.2 := by
        unfold unblockNext
        rw [if_pos hj]
        simp only
        split_ifs with hgt
        · exact (max_eq_left hgt.le).symm
        · exact (max_eq_right (not_lt.mp hgt)).symm
      rw [hfst] at hw hall hcases
      rw [hsnd] at hstart hcases
      have hwake := awakens_assertActive acc.1 j u
      refine ⟨hwake.trans hw, (le_max_right _ _).trans hstart, ?_, ?_⟩
      · intro i hi hb
        by_cases hij : i = j
        · rw [hij]
          exact (le_max_left _ _).trans hstart
        · have hb' := blockedOn_assertActive acc.1 j u i obj
          rw [if_neg hij, hb] at hb'
          have hle := hall i ((List.mem_cons.mp hi).resolve_left hij) hb'
          rwa [(hwake.row i).attrPriority] at hle
      · rcases hcases with heq | ⟨i, hi, hb, heq⟩
        · rcases le_total (acc.1.table j).attrPriority acc.2 with hle | hle
          · exact Or.inl (heq.trans (max_eq_right hle))
          · exact Or.inr ⟨j, List.mem_cons_self .., hj, (heq.trans (max_eq_left hle)).symm⟩
        · rw [blockedOn_assertActive] at hb
          rw [(hwake.row i).attrPriority] at heq
          split_ifs at hb with hij
          exact Or.inr ⟨i, List.mem_cons_of_mem _ hi, hb, heq⟩
    -- the task is passed over
    · have hsame : unblockNext obj u acc j = acc := by
        unfold unblockNext
        rw [if_neg hj]
      rw [hsame] at hw hstart hall hcases
      refine ⟨hw, hstart, ?_, ?_⟩
      · intro i hi hb
        rcases List.mem_cons.mp hi with rfl | hi
        · exact absurd hb hj
        · exact hall i hi hb
      · rcases hcases with heq | ⟨i, hi, hb, heq⟩
        · exact Or.inl heq
        · exact Or.inr ⟨i, List.mem_cons_of_mem _ hi, hb, heq⟩

theorem Settled.condBroadcast (h : s.Settled) (cond : Nat)
    (hreach : ∀ i ∈ s.ids, s.blockedOn i cond = true → (s.table i).stopped = false →
      (s.table i).priority < s.currentPriority ∨
        ∃ j ∈ s.ids, s.blockedOn j cond = true ∧ (s.table i).priority ≤ (s.table j).attrPriority)
    (hfound : ∀ j ∈ s.ids, s.blockedOn j cond = true →
      s.currentPriority < (s.table j).attrPriority →
      ∃ i ∈ s.ids, s.blockedOn i cond = true ∧ (s.table i).stopped = false ∧
        (s.table j).attrPriority ≤ (s.table i).priority) :
    (s.privCondBroadcast cond).Settled := by
  obtain ⟨hw, _, hmax, hcases⟩ := unblockAll_priority cond .cond s.ids (s, schedLowestPriority - 1)
  have hrow : ∀ i, (s.schedPrivUnblockAll cond .cond).1.table i =
      if i ∈ s.ids ∧ s.blockedOn i cond = true then (s.table i).woken .cond else s.table i :=
    unblockAll_spec cond .cond s.ids (s, schedLowestPriority - 1)
  rw [← unblockAll_eq] at hw hmax hcases
  simp only at hw hmax hcases
  show ((s.schedPrivUnblockAll cond .cond).1.schedPrivUpdateOnWake
    (s.schedPrivUnblockAll cond .cond).2).Settled
  apply hw.settled h
  · intro i hi hr hold
    obtain ⟨hb, hstopped⟩ := runnable_wakeAll (fun k => s.blockedOn k cond) (hrow i) hi hr hold
    rcases hreach i hi hb hstopped with hlt | ⟨j, hj, hbj, hle⟩
    · exact Or.inr hlt
    · exact Or.inl (hle.trans (hmax j hj hbj))
  · intro hlt
    rcases hcases with heq | ⟨j, hj, hbj, hpj⟩
    · rw [heq] at hlt
      exact absurd h.lowest_le (not_le.mpr hlt)
    · obtain ⟨i, hi, hb, hstopped, hle⟩ := hfound j hj hbj (hpj ▸ hlt)
      have henabled : (s.table i).enabled = true := by
        unfold blockedOn at hb
        simp only [Bool.and_eq_true] at hb
        exact hb.1.1
      refine ⟨i, hi, runnable_of_wakeAll (fun k => s.blockedOn k cond) (hrow i) hi hb henabled
        hstopped, ?_⟩
      -- a task above the reported priority would not be reached
      rw [hpj] at hle
      rcases hreach i hi hb hstopped with hlow | ⟨k, hk, hbk, hlek⟩
      · exact absurd (hlt.trans_le hle) (not_lt.mpr hlow.le)
      · exact le_antisymm (hlek.trans (hmax k hk hbk)) hle

/-! ### Creating and ending tasks -/

/-- The rows of `s'` are those of `s`, but for some tasks that are neither runnable nor flagged. -/
theorem Coherent.drop (h : s.Coherent) (htotal : s'.total = s.total)
    (hrow : ∀ i, s'.table i = s.table i ∨ s'.table i = clearTask (s.table i)) : s'.Coherent := by
  have hids : s'.ids = s.ids := by unfold ids; rw [htotal]
  constructor
  · intro i hi hexec
    rw [hids] at hi
    rcases hrow i with hsame | hclear
    · rw [hsame] at hexec
      rw [runnable_of_row hsame]
      exact h.flagged i hi hexec
    · rw [hclear] at hexec
      exact absurd hexec (by simp [clearTask])
  · intro i
    rcases hrow i with hsame | hclear
    · rw [hsame]; exact h.valid i
    · rw [hclear]; exact h.valid i

theorem awakens_joined (s : Sched) (self : Nat) (l : List Nat) :
    Awakens s (l.foldl
      (fun acc i =>
        if (acc.table i).blockObject == self then
          acc.schedPrivAssertActive i .pthreadJoinedThreadComplete
        else acc) s) := by
  induction l generalizing s with
  | nil => exact ⟨rfl, rfl, fun i => (s.table i).awakens_refl⟩
  | cons j l ih =>
    rw [List.foldl_cons]
    split_ifs
    · exact (awakens_assertActive s j _).trans (ih _)
    · exact ih s

theorem Settled.cleanupJoined (h : s.Settled) (current self : Nat) :
    (s.privCleanupJoined current self).Settled := by
  unfold privCleanupJoined privCleanup
  apply Coherent.updateOnSleep
  apply Coherent.drop ((awakens_joined s self s.ids).coherent h.coherent)
  · rfl
  · intro i
    rw [table_modify]
    split_ifs with hi
    · rw [hi]; exact Or.inr rfl
    · exact Or.inl rfl

theorem Settled.stopThreads (h : s.Settled) {current : Nat} (hcur : current ∈ s.ids)
    (hexec : (s.table current).exec = true) : (s.privStopThreads current).Settled := by
  have hrow := table_stopThreads s current
  have hself : (s.privStopThreads current).table current = s.table current := by
    rw [hrow, if_neg (by simp)]
  have hdrop : ∀ i, (s.privStopThreads current).table i = s.table i ∨
      (s.privStopThreads current).table i = clearTask (s.table i) := by
    intro i
    rw [hrow]
    split_ifs
    · exact Or.inr rfl
    · exact Or.inl rfl
  have hcleared : ∀ i, (s.privStopThreads current).table i = clearTask (s.table i) →
      (s.privStopThreads current).runnable i = false := by
    intro i hclear
    unfold runnable
    rw [hclear]
    rfl
  have hcoherent : (s.privStopThreads current).Coherent := h.coherent.drop rfl hdrop
  obtain ⟨hrun, hprio⟩ := (h.flagged current hcur).mp hexec
  have hrun' : (s.privStopThreads current).runnable current = true := by
    rw [runnable_of_row hself]; exact hrun
  constructor
  · intro i hi hr
    rcases hdrop i with hsame | hclear
    · rw [runnable_of_row hsame] at hr
      rw [hsame]
      exact h.upper i hi hr
    · rw [hcleared i hclear] at hr
      exact absurd hr (by simp)
  · intro i hi hr
    -- the caller goes on running at the same priority
    refine ⟨current, hcur, hrun', ?_⟩
    rw [hself]
    exact hprio
  · intro i hi
    rcases hdrop i with hsame | hclear
    · rw [runnable_of_row hsame, hsame]
      exact h.flagged i hi
    · rw [hcleared i hclear, hclear]
      simp [clearTask]
  · intro hno
    rw [hno current hcur] at hrun'
    exact absurd hrun' (by simp)
  · exact hcoherent.valid

theorem newTask_find {pid id : Nat} (hs : s.taskPrivNewTask pid = some (s', id)) :
    s.ids.find? (fun i => !(s.table i).enabled) = some id := by
  unfold taskPrivNewTask at hs
  split at hs
  · exact absurd hs (by simp)
  · next j hj =>
    simp only [Option.some.injEq, Prod.mk.injEq] at hs
    rw [hj, hs.2]

theorem Settled.newTask (h : s.Settled) {pid id : Nat} (hs : s.taskPrivNewTask pid = some (s', id))
    (hok : (s.table id).active = true → (s.table id).stopped = false →
      (s.table id).priority < s.currentPriority) : s'.Settled := by
  obtain ⟨hid, hdisabled, hrow⟩ := newTask_spec s hs
  have hids : s'.ids = s.ids := (sameEpoch_newTask s hs).ids
  have hcur : s'.currentPriority = s.currentPriority := by
    unfold taskPrivNewTask at hs
    split at hs
    · exact absurd hs (by simp)
    · simp only [Option.some.injEq, Prod.mk.injEq] at hs
      rw [← hs.1]
      rfl
  have hself := hrow id
  rw [if_pos rfl] at hself
  have hother : ∀ i, i ≠ id → s'.table i = s.table i := fun i hi => by rw [hrow, if_neg hi]
  have hold : s.runnable id = false := by
    unfold runnable
    rw [hdisabled]
    rfl
  -- a task that can run now could before, or it is the new one and below the current priority
  have hlow : s'.runnable id = true → (s.table id).priority < s.currentPriority := by
    intro hr
    unfold runnable at hr
    rw [hself] at hr
    simp only [Bool.and_eq_true, Bool.not_eq_true'] at hr
    exact hok hr.1.2 hr.2
  have hkeep : ∀ i, s.runnable i = true → i ≠ id ∧ s'.runnable i = true := by
    intro i hr
    have hi : i ≠ id := by
      rintro rfl
      rw [hold] at hr
      exact absurd hr (by simp)
    refine ⟨hi, ?_⟩
    rw [runnable_of_row (hother i hi)]
    exact hr
  constructor
  · intro i hi hr
    rw [hcur]
    by_cases hid' : i = id
    · subst hid'
      rw [hself]
      exact (hlow hr).le
    · rw [runnable_of_row (hother i hid')] at hr
      rw [hother i hid']
      exact h.upper i (hids ▸ hi) hr
  · intro i hi hr
    rw [hcur]
    have hsome : ∃ k ∈ s.ids, s.runnable k = true := by
      by_contra hno
      push Not at hno
      by_cases hid' : i = id
      · subst hid'
        have hneg := h.low fun j hj => Bool.not_eq_true _ ▸ hno j hj
        have hprio := (h.valid i).1.1
        have hlt := hlow hr
        unfold schedLowestPriority at hneg
        omega
      · rw [runnable_of_row (hother i hid')] at hr
        exact hno i (hids ▸ hi) hr
    obtain ⟨k, hk, hrk⟩ := hsome
    obtain ⟨j, hj, hrj, hpj⟩ := h.attained k hk hrk
    refine ⟨j, hids ▸ hj, (hkeep j hrj).2, ?_⟩
    rw [hother j (hkeep j hrj).1]
    exact hpj
  · intro i hi
    rw [hcur]
    by_cases hid' : i = id
    · subst hid'
      rw [hself]
      simp only [Bool.false_eq_true, false_iff, not_and]
      exact fun hr => (hlow hr).ne
    · rw [runnable_of_row (hother i hid'), hother i hid']
      exact h.flagged i (hids ▸ hi)
  · intro hno
    rw [hcur]
    apply h.low
    intro i hi
    rw [← Bool.not_eq_true]
    intro hr
    have hr' := hno i (hids ▸ hi)
    rw [(hkeep i hr).2] at hr'
    exact absurd hr' (by simp)
  · intro i
    by_cases hid' : i = id
    · subst hid'
      rw [hself]
      exact h.valid i
    · rw [hother i hid']
      exact h.valid i

theorem Settled.activateThread (h : s.Settled) {id : Nat} {prio : Int} (hid : id ∈ s.ids)
    (henabled : (s.table id).enabled = true) (hprio : validPriority prio)
    (hok : (s.table id).exec = true → s.currentPriority ≤ prio) :
    (s.privActivateThread id prio).Settled := by
  obtain ⟨s₁, hs₁, hcur, hids, hrow⟩ : ∃ s₁ : Sched,
      s.privActivateThread id prio = s₁.schedPrivUpdateOnWake prio ∧
        s₁.currentPriority = s.currentPriority ∧ s₁.ids = s.ids ∧
        ∀ i, s₁.table i =
          if i = id then { freshRow (s.table id) prio with exec := (s.table id).exec }
          else s.table i := by
    refine ⟨(s.modify id fun t =>
      { freshRow t prio with active := false, exec := t.exec }).schedPrivAssertActive id .none,
      ?_, rfl, rfl, fun i => ?_⟩
    · unfold privActivateThread privWake
      simp only [table_assertActive, if_pos, table_modify_self, SchedTask.woken]
      rfl
    · rw [table_assertActive, table_modify_self, table_modify]
      split_ifs <;> rfl
  have hself := hrow id
  rw [if_pos rfl] at hself
  have hother : ∀ i, i ≠ id → s₁.table i = s.table i := fun i hi => by rw [hrow, if_neg hi]
  have hrun : s₁.runnable id = true := by
    unfold runnable
    rw [hself]
    simp [freshRow, henabled]
  rw [hs₁]
  apply settled_updateOnWake
  · intro i hi hr
    rw [hcur]
    by_cases hi' : i = id
    · subst hi'
      rw [hself]
      exact le_max_left _ _
    · rw [runnable_of_row (hother i hi')] at hr
      rw [hother i hi']
      exact (h.upper i (hids ▸ hi) hr).trans (le_max_right _ _)
  · intro _
    refine ⟨id, hids ▸ hid, hrun, ?_⟩
    rw [hself]
    rfl
  · intro hle i _ _
    rw [hcur] at hle ⊢
    -- the priority is not raised, so some task could run before
    have hsome : ∃ k ∈ s.ids, s.runnable k = true := by
      by_contra hno
      push Not at hno
      have hneg := h.low fun j hj => Bool.not_eq_true _ ▸ hno j hj
      have := hprio.1
      unfold schedLowestPriority at hneg
      omega
    obtain ⟨k, hk, hrk⟩ := hsome
    obtain ⟨j, hj, hrj, hpj⟩ := h.attained k hk hrk
    by_cases hj' : j = id
    · subst hj'
      have hge := hok ((h.flagged j hj).mpr ⟨hrj, hpj⟩)
      refine ⟨j, hids ▸ hid, hrun, ?_⟩
      rw [hself]
      exact le_antisymm hle hge
    · refine ⟨j, hids ▸ hj, ?_, ?_⟩
      · rw [runnable_of_row (hother j hj')]; exact hrj
      · rw [hother j hj']; exact hpj
  · intro _ hno
    rw [hno id (hids ▸ hid)] at hrun
    exact absurd hrun (by simp)
  · intro hlt i hi
    rw [hcur] at hlt ⊢
    by_cases hi' : i = id
    · subst hi'
      rw [hself]
      constructor
      · intro hexec
        exact absurd (hok hexec) (not_le.mpr hlt)
      · rintro ⟨_, hp⟩
        exact absurd hp hlt.ne
    · rw [runnable_of_row (hother i hi'), hother i hi']
      exact h.flagged i (hids ▸ hi)
  · intro i
    by_cases hi' : i = id
    · subst hi'
      rw [hself]
      exact ⟨hprio, hprio⟩
    · rw [hother i hi']
      exact h.valid i

/-! ### Stopping and continuing -/

/-- The tasks that `priv_stoppid` of task `current` stops. -/
def stops (s : Sched) (current : Nat) (isThread : Bool) (i : Nat) : Bool :=
  if isThread then i == current else (s.table i).pid == (s.table current).pid

theorem Settled.stoppid (h : s.Settled) (current : Nat) (isThread : Bool)
    (hok : ∃ i ∈ s.ids, s.runnable i = true ∧ s.stops current isThread i = false) :
    (s.privStoppid current isThread).Settled := by
  obtain ⟨s₁, hs₁, hids, hrow⟩ : ∃ s₁ : Sched,
      s.privStoppid current isThread = s₁.schedPrivUpdateOnStopped ∧ s₁.ids = s.ids ∧
        ∀ i, s₁.table i = s.table i ∨
          (s.stops current isThread i = true ∧ s₁.table i = { s.table i with stopped := true }) := by
    refine ⟨_, rfl, ?_, fun i => ?_⟩
    · cases isThread <;> rfl
    · unfold stops
      cases isThread with
      | true =>
        simp only [ite_true, beq_iff_eq]
        rw [table_modify]
        split_ifs with hi
        · subst hi; exact Or.inr ⟨rfl, rfl⟩
        · exact Or.inl rfl
      | false =>
        simp only [Bool.false_eq_true, ite_false, beq_iff_eq]
        split_ifs with hi
        · exact Or.inr ⟨hi.2, rfl⟩
        · exact Or.inl rfl
  rw [hs₁]
  apply settled_updateOnStopped
  · intro hno
    obtain ⟨i, hi, hr, hstops⟩ := hok
    rcases hrow i with hsame | ⟨hstops', _⟩
    · have hr' := hno i (hids ▸ hi)
      rw [runnable_of_row hsame, hr] at hr'
      exact absurd hr' (by simp)
    · rw [hstops] at hstops'
      exact absurd hstops' (by simp)
  · intro i
    rcases hrow i with hsame | ⟨_, hstop⟩
    · rw [hsame]; exact h.valid i
    · rw [hstop]; exact h.valid i

/-- The tables after the loop of `priv_contpid`. -/
def continueProcess (s : Sched) (current : Nat) : Sched :=
  { s with
    table := fun i =>
      if i ∈ s.ids ∧ (s.table i).pid = (s.table current).pid then
        { s.table i with stopped := false }
      else s.table i }

theorem awakens_continueProcess (s : Sched) (current : Nat) : Awakens s (s.continueProcess current) := by
  refine ⟨rfl, rfl, fun i => ?_⟩
  unfold continueProcess
  simp only
  split_ifs
  · exact (s.table i).awakens_continued
  · exact (s.table i).awakens_refl

theorem Settled.contpid (h : s.Settled) {current : Nat} (hcur : current ∈ s.ids)
    (hexec : (s.table current).exec = true) (isThread : Bool)
    (hok : isThread = false → ∀ i ∈ s.ids, (s.table i).pid = (s.table current).pid →
      s.currentPriority < (s.table i).priority →
      ∃ j ∈ s.ids, (s.table j).pid = (s.table current).pid ∧ (s.table j).enabled = true ∧
        (s.table j).active = true ∧ (s.table i).priority ≤ (s.table j).priority) :
    (s.privContpid current isThread).Settled := by
  obtain ⟨hrun, hprio⟩ := (h.flagged current hcur).mp hexec
  unfold privContpid
  cases isThread with
  | true =>
    rw [if_pos rfl]
    apply (awakens_deassertStopped s current).settled h
    -- the caller was running, and nobody else is continued
    · intro i _ hr hold
      by_cases hi : i = current
      · subst hi
        rw [hrun] at hold
        exact absurd hold (by simp)
      · have hsame : (s.schedPrivDeassertStopped current).table i = s.table i :=
          table_modify_of_ne s hi _
        rw [runnable_of_row hsame, hold] at hr
        exact absurd hr (by simp)
    · intro hlt
      exact absurd hprio hlt.ne'
  | false =>
    rw [if_neg (by simp)]
    obtain ⟨_, hmax, hcases⟩ := foldl_max_spec
      (fun i => (s.table i).pid == (s.table current).pid) (fun i => (s.table i).priority) s.ids 0
    set p := s.ids.foldl
      (fun p i =>
        if (s.table i).pid == (s.table current).pid && (s.table i).priority > p then
          (s.table i).priority
        else p) 0 with hp
    apply (awakens_continueProcess s current).settled h
    · intro i hi hr hold
      by_cases hpid : (s.table i).pid = (s.table current).pid
      · exact Or.inl (hmax i hi (beq_iff_eq.mpr hpid))
      · have hsame : (s.continueProcess current).table i = s.table i :=
          if_neg fun hpos => hpid hpos.2
        rw [runnable_of_row hsame, hold] at hr
        exact absurd hr (by simp)
    · intro hlt
      rcases hcases with heq | ⟨i, hi, hpid, hpi⟩
      · -- the caller's priority is the current one and is not negative
        have := (h.valid current).1.1
        omega
      · obtain ⟨j, hj, hpidj, henabled, hactive, hle⟩ := hok rfl i hi (beq_iff_eq.mp hpid) (hpi ▸ hlt)
        refine ⟨j, hj, ?_, le_antisymm (hmax j hj (beq_iff_eq.mpr hpidj)) (hpi ▸ hle)⟩
        unfold runnable continueProcess
        simp only
        rw [if_pos ⟨hj, hpidj⟩]
        simp [henabled, hactive]

/-! ### Changing a priority -/

/-- The priority of a task that cannot run does not matter. -/
theorem Settled.setPriority (h : s.Settled) {id : Nat} {p : Int} (hrun : s.runnable id = false)
    (hp : validPriority p) : (s.modify id fun t => { t with priority := p }).Settled := by
  have hother : ∀ i, i ≠ id → (s.modify id fun t => { t with priority := p }).table i = s.table i :=
    fun i hi => table_modify_of_ne s hi _
  have hrun' : ∀ i, (s.modify id fun t => { t with priority := p }).runnable i = s.runnable i := by
    intro i
    unfold runnable
    rw [table_modify]
    split_ifs with hi
    · rw [hi]
    · rfl
  have hne : ∀ i, s.runnable i = true → i ≠ id := by
    rintro i hr rfl
    rw [hrun] at hr
    exact absurd hr (by simp)
  constructor
  · intro i hi hr
    rw [hrun'] at hr
    rw [hother i (hne i hr)]
    exact h.upper i hi hr
  · intro i hi hr
    rw [hrun'] at hr
    obtain ⟨j, hj, hrj, hpj⟩ := h.attained i hi hr
    refine ⟨j, hj, ?_, ?_⟩
    · rw [hrun']; exact hrj
    · rw [hother j (hne j hrj)]; exact hpj
  · intro i hi
    rw [hrun']
    -- the task had no execution flag
    by_cases hi' : i = id
    · subst hi'
      rw [table_modify_self, hrun]
      have hoff := h.flagged i hi
      rw [hrun] at hoff
      simpa using hoff
    · rw [hother i hi']
      exact h.flagged i hi
  · intro hno
    apply h.low
    intro i hi
    rw [← hrun']
    exact hno i hi
  · intro i
    by_cases hi' : i = id
    · subst hi'
      rw [table_modify_self]
      exact ⟨hp, (h.valid i).2⟩
    · rw [hother i hi']
      exact h.valid i

theorem Coherent.setPriority (h : s.Coherent) (id : Nat) (f : SchedTask → Int)
    (hp : validPriority (f (s.table id))) :
    (s.modify id fun t => { t with priority := f t }).Coherent := by
  have hother : ∀ i, i ≠ id →
      (s.modify id fun t => { t with priority := f t }).table i = s.table i :=
    fun i hi => table_modify_of_ne s hi _
  constructor
  · intro i hi hexec
    by_cases hi' : i = id
    · subst hi'
      rw [table_modify_self] at hexec
      have hr := h.flagged i hi hexec
      unfold runnable at hr ⊢
      rw [table_modify_self]
      exact hr
    · rw [hother i hi'] at hexec
      rw [runnable_of_row (hother i hi')]
      exact h.flagged i hi hexec
  · intro i
    by_cases hi' : i = id
    · subst hi'
      rw [table_modify_self]
      exact ⟨hp, (h.valid i).2⟩
    · rw [hother i hi']
      exact h.valid i

end Sched

end CoActionOS
