import CoActionOS.Sched.Basic

/-!
# What the privileged scheduling calls leave alone

Choosing which tasks execute (`sched_priv_update_on_wake` and its callers) changes the execution
flags and the current priority only: `ExecOnly` says so once, and every other field of a row is
read through it.  The remaining calls are described row by row: `timedblock_row` for the caller
of `sched_priv_timedblock`, `matchEvent_row` for the timer interrupt, `activate_row` for a signal.
-/

namespace CoActionOS.Sched

open Function

/-- `s'` differs from `s` in execution flags, current priority, timer channel and the status flag
only. -/
structure ExecOnly (s s' : Sched) : Prop where
  total : s'.total = s.total
  usecondCounter : s'.usecondCounter = s.usecondCounter
  row : ∀ i, { s'.table i with exec := false } = { s.table i with exec := false }

namespace ExecOnly

variable {s s' s'' : Sched}

theorem refl (s : Sched) : ExecOnly s s := ⟨rfl, rfl, fun _ => rfl⟩

theorem trans (h : ExecOnly s s') (h' : ExecOnly s' s'') : ExecOnly s s'' :=
  ⟨h'.total.trans h.total, h'.usecondCounter.trans h.usecondCounter,
    fun i => (h'.row i).trans (h.row i)⟩

theorem enabled (h : ExecOnly s s') (i : Nat) : (s'.table i).enabled = (s.table i).enabled := by
  have := congrArg SchedTask.enabled (h.row i); exact this

theorem active (h : ExecOnly s s') (i : Nat) : (s'.table i).active = (s.table i).active := by
  have := congrArg SchedTask.active (h.row i); exact this

theorem blockObject (h : ExecOnly s s') (i : Nat) :
    (s'.table i).blockObject = (s.table i).blockObject := by
  have := congrArg SchedTask.blockObject (h.row i); exact this

theorem wake (h : ExecOnly s s') (i : Nat) : (s'.table i).wake = (s.table i).wake := by
  have := congrArg SchedTask.wake (h.row i); exact this

theorem priority (h : ExecOnly s s') (i : Nat) : (s'.table i).priority = (s.table i).priority := by
  have := congrArg SchedTask.priority (h.row i); exact this

end ExecOnly

variable (s : Sched)

theorem execOnly_assertStatusChange : ExecOnly s s.schedPrivAssertStatusChange :=
  ⟨rfl, rfl, fun _ => rfl⟩

theorem execOnly_updateExec : ExecOnly s s.updateExec := by
  refine ⟨rfl, rfl, fun i => ?_⟩
  unfold updateExec
  by_cases hi : i ∈ s.ids
  · simp [hi]
  · simp [hi]

theorem execOnly_setPriority (p : Int) : ExecOnly s { s with currentPriority := p } :=
  ⟨rfl, rfl, fun _ => rfl⟩

theorem execOnly_setOc (n : Nat) : ExecOnly s { s with sleepOc := n } := ⟨rfl, rfl, fun _ => rfl⟩

theorem execOnly_updateOnWake (p : Int) : ExecOnly s (s.schedPrivUpdateOnWake p) := by
  unfold schedPrivUpdateOnWake
  split_ifs
  · exact (execOnly_setPriority s p).trans (execOnly_updateExec _)
  · exact execOnly_updateExec s
  · exact execOnly_assertStatusChange s

theorem execOnly_updateOnStopped : ExecOnly s s.schedPrivUpdateOnStopped := by
  unfold schedPrivUpdateOnStopped
  simp only
  split_ifs
  · exact (execOnly_setPriority s _).trans (execOnly_updateOnWake _ _)
  · exact execOnly_setPriority s _

@[simp] theorem total_modify (id : Nat) (f : SchedTask → SchedTask) :
    (s.modify id f).total = s.total := rfl

@[simp] theorem usecondCounter_modify (id : Nat) (f : SchedTask → SchedTask) :
    (s.modify id f).usecondCounter = s.usecondCounter := rfl

@[simp] theorem table_modify_self (id : Nat) (f : SchedTask → SchedTask) :
    (s.modify id f).table id = f (s.table id) := by
  simp [modify]

theorem table_modify_of_ne {id i : Nat} (h : i ≠ id) (f : SchedTask → SchedTask) :
    (s.modify id f).table i = s.table i := by
  simp [modify, h]

theorem mem_ids {i : Nat} : i ∈ s.ids ↔ 1 ≤ i ∧ i < s.total := by
  rw [ids, List.mem_drop_iff_getElem]
  constructor
  · rintro ⟨k, hk, rfl⟩
    simp only [List.length_range] at hk
    simp only [List.getElem_range]
    omega
  · rintro ⟨h1, h2⟩
    exact ⟨i - 1, by simp only [List.length_range]; omega, by simp; omega⟩

/-! ### Going to sleep -/

theorem execOnly_deassertActive (id : Nat) :
    ExecOnly (s.modify id fun t => { t with active := false }) (s.schedPrivDeassertActive id) := by
  refine ⟨rfl, rfl, fun i => ?_⟩
  by_cases hi : i = id
  · subst hi; simp [schedPrivDeassertActive, schedPrivAssertStatusChange, modify]
  · simp [schedPrivDeassertActive, schedPrivAssertStatusChange, modify, hi]

theorem execOnly_updateOnSleep (id : Nat) :
    ExecOnly (s.modify id fun t => { t with active := false }) (s.schedPrivUpdateOnSleep id) :=
  (execOnly_deassertActive s id).trans (execOnly_updateOnStopped _)

theorem execOnly_setInactive {s s' : Sched} (h : ExecOnly s s') (id : Nat) :
    ExecOnly (s.modify id fun t => { t with active := false })
      (s'.modify id fun t => { t with active := false }) := by
  refine ⟨h.total, h.usecondCounter, fun i => ?_⟩
  by_cases hi : i = id
  · subst hi
    simp only [table_modify_self]
    exact congrArg (fun t : SchedTask => { t with active := false }) (h.row i)
  · rw [table_modify_of_ne _ hi, table_modify_of_ne _ hi, h.row i]

theorem timedWake_spec (current : Nat) (tv : SchedTimeval) (now : Nat) :
    ∃ w, ExecOnly (s.modify current fun t => { t with wake := w }) (s.timedWake current tv now).1 ∧
      (tv.tvSec ≥ s.usecondCounter → w = tv) := by
  unfold timedWake
  by_cases h : tv.tvSec ≥ s.usecondCounter
  · refine ⟨tv, ?_, fun _ => rfl⟩
    simp only [h, ite_true]
    split_ifs
    · exact execOnly_setOc _ _
    · exact ExecOnly.refl _
    · exact ExecOnly.refl _
  · refine ⟨(s.table current).wake, ?_, fun h' => absurd h' h⟩
    simp only [h, ite_false]
    refine ⟨rfl, rfl, fun i => ?_⟩
    by_cases hi : i = current
    · subst hi; rw [table_modify_self]
    · rw [table_modify_of_ne _ hi]

/-- The caller of `sched_priv_timedblock` on a real object ends up inactive and blocked on it. -/
theorem timedblock_spec (current : Nat) {obj : Nat} (hobj : obj ≠ 0) (tv : SchedTimeval) (now : Nat) :
    ∃ w, ExecOnly
        (s.modify current fun t => { t with blockObject := obj, wake := w, active := false })
        (s.schedPrivTimedblock current obj tv now) ∧
      (tv.tvSec ≥ s.usecondCounter → w = tv) := by
  obtain ⟨w, hw, htv⟩ := timedWake_spec (s.modify current fun t => { t with blockObject := obj })
    current tv now
  refine ⟨w, ?_, htv⟩
  unfold schedPrivTimedblock
  simp only [hobj, decide_false, Bool.false_and, Bool.false_eq_true, ite_false]
  refine ExecOnly.trans (ExecOnly.trans ?_ (execOnly_setInactive hw current))
    (execOnly_updateOnSleep _ current)
  refine ⟨rfl, rfl, fun i => ?_⟩
  by_cases hi : i = current
  · subst hi; simp
  · simp [table_modify_of_ne, hi]

/-! ### Waking up -/

theorem total_assertActive (id : Nat) (u : SchedUnblockType) :
    (s.schedPrivAssertActive id u).total = s.total := rfl

theorem assertActive_self (id : Nat) (u : SchedUnblockType) :
    ((s.schedPrivAssertActive id u).table id).active = true ∧
    ((s.schedPrivAssertActive id u).table id).blockObject = 0 ∧
    ((s.schedPrivAssertActive id u).table id).enabled = (s.table id).enabled := by
  simp [schedPrivAssertActive]

theorem assertActive_of_ne {id i : Nat} (h : i ≠ id) (u : SchedUnblockType) :
    (s.schedPrivAssertActive id u).table i = s.table i :=
  table_modify_of_ne s h _

theorem wakeAll_spec (p : Nat → Bool) (u : SchedUnblockType) (l : List Nat) :
    ∀ a : Sched,
      let a' := l.foldl (fun acc i => if p i then acc.schedPrivAssertActive i u else acc) a
      a'.total = a.total ∧ a'.usecondCounter = a.usecondCounter ∧
        ∀ i, a'.table i = a.table i ∨
          (p i = true ∧ (a'.table i).active = true ∧ (a'.table i).blockObject = 0 ∧
            (a'.table i).enabled = (a.table i).enabled) := by
  induction l with
  | nil => intro a; exact ⟨rfl, rfl, fun i => Or.inl rfl⟩
  | cons j l ih =>
    intro a
    simp only [List.foldl_cons]
    obtain ⟨ht, hc, hrow⟩ := ih (if p j then a.schedPrivAssertActive j u else a)
    by_cases hj : p j = true
    · simp only [hj, ite_true] at ht hc hrow ⊢
      refine ⟨ht, hc, fun i => ?_⟩
      by_cases hi : i = j
      · subst hi
        obtain ⟨h1, h2, h3⟩ := assertActive_self a i u
        rcases hrow i with h | ⟨_, h4, h5, h6⟩
        · exact Or.inr ⟨hj, by rw [h]; exact h1, by rw [h]; exact h2, by rw [h]; exact h3⟩
        · exact Or.inr ⟨hj, h4, h5, h6.trans h3⟩
      · have h := hrow i
        rw [assertActive_of_ne a hi u] at h
        exact h
    · simp only [hj, Bool.false_eq_true, ite_false] at ht hc hrow ⊢
      exact ⟨ht, hc, hrow⟩

/-- The timer interrupt: a row keeps its state apart from the execution flag, or its wake time had
come and the task is active and blocked on nothing. -/
theorem matchEvent_row (now : Nat) :
    (s.privUsecondMatchEvent now).total = s.total ∧
    (s.privUsecondMatchEvent now).usecondCounter = s.usecondCounter ∧
    ∀ i, { (s.privUsecondMatchEvent now).table i with exec := false }
          = { s.table i with exec := false } ∨
      (s.due now i = true ∧ ((s.privUsecondMatchEvent now).table i).active = true ∧
        ((s.privUsecondMatchEvent now).table i).blockObject = 0 ∧
        ((s.privUsecondMatchEvent now).table i).enabled = (s.table i).enabled) := by
  unfold privUsecondMatchEvent
  simp only
  obtain ⟨ht, hc, hrow⟩ := wakeAll_spec (s.due now) .sleep s.ids s
  have hex := fun p n => (execOnly_setOc (s.ids.foldl
    (fun acc i => if s.due now i then acc.schedPrivAssertActive i .sleep else acc) s) n).trans
      (execOnly_updateOnWake _ p)
  refine ⟨(hex _ _).total.trans ht, (hex _ _).usecondCounter.trans hc, fun i => ?_⟩
  rcases hrow i with h | ⟨hd, ha, hb, he⟩
  · left
    rw [(hex _ _).row i, h]
  · right
    exact ⟨hd, ((hex _ _).active i).trans ha, ((hex _ _).blockObject i).trans hb,
      ((hex _ _).enabled i).trans he⟩

theorem activate_spec (id : Nat) :
    ExecOnly ((s.schedPrivDeassertStopped id).schedPrivAssertActive id .signal)
      (s.signalPrivActivate id) :=
  execOnly_updateOnWake _ _

/-! ### Choosing a sleeper -/

theorem getHighestPriorityBlocked_spec {obj t : Nat}
    (h : s.schedGetHighestPriorityBlocked obj = some t) :
    t ∈ s.ids ∧ (s.table t).enabled = true ∧ (s.table t).blockObject = obj ∧
      (s.table t).active = false := by
  have key : ∀ (l : List Nat) (acc : Option Nat × Int), (∀ i ∈ l, i ∈ s.ids) →
      (∀ t, acc.1 = some t → t ∈ s.ids ∧ (s.table t).enabled = true ∧
        (s.table t).blockObject = obj ∧ (s.table t).active = false) →
      ∀ t, (l.foldl
        (fun acc i =>
          if (s.table i).enabled && (s.table i).blockObject == obj && !(s.table i).active &&
              (s.table i).attrPriority > acc.2
          then (some i, (s.table i).attrPriority) else acc) acc).1 = some t →
        t ∈ s.ids ∧ (s.table t).enabled = true ∧ (s.table t).blockObject = obj ∧
          (s.table t).active = false := by
    intro l
    induction l with
    | nil => intro acc _ hacc t ht; exact hacc t ht
    | cons j l ih =>
      intro acc hl hacc t ht
      rw [List.foldl_cons] at ht
      refine ih _ (fun i hi => hl i (List.mem_cons_of_mem _ hi)) ?_ t ht
      intro t' ht'
      split_ifs at ht' with hj
      · simp only [Option.some.injEq] at ht'
        subst ht'
        simp only [Bool.and_eq_true, beq_iff_eq, Bool.not_eq_eq_eq_not, Bool.not_true] at hj
        exact ⟨hl j (List.mem_cons_self ..), hj.1.1.1, hj.1.1.2, hj.1.2⟩
      · exact hacc t' ht'
  exact key s.ids (none, schedLowestPriority - 1) (fun i hi => hi) (fun t ht => by simp at ht) t h

end CoActionOS.Sched
