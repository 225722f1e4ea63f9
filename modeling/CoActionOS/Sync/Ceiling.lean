import CoActionOS.Lib.Ceiling
import CoActionOS.Sync.Places

/-!
# The priority ceiling

`Sync.holding` reads the priorities, the ceilings and the recorded owners off a state, and
`step_holding` shows that every step acquires, releases or restarts in the sense of `Holding`, or
leaves all of it alone.  `PriorityCeiling ok` is the discipline in every state of every run whose steps
meet `ok`.

`priv_mutex_unlock` and `priv_cond_wait` restore the base priority whatever else the caller owns, and
overwrite the priority of the thread they hand the mutex to, where `priv_mutex_trylock` only ever
raises it; so the discipline fails in general (`not_priorityCeiling`).  It holds in every run all of
whose releases are safe (`priorityCeiling_of_safe`).
-/

namespace CoActionOS

open Function

namespace Sync

/-- The priorities, ceilings and owners of a state. -/
def holding (s : Sync) : Holding Nat Nat Int where
  base t := (s.row t).attrPriority
  prio t := (s.row t).priority
  ceiling m := (s.sys.mutex m).prioCeiling
  owner m := s.owner m

/-- A start state: no mutex is owned, every thread runs at its base priority and is between calls. -/
structure CeilingStart (s : Sync) : Prop where
  free : ∀ m, s.owner m = none
  base : ∀ t, (s.row t).priority = (s.row t).attrPriority
  idle : ∀ t, s.pc t = .idle ∧ s.sys.pc t = .idle

/-- The releases of the step are safe: the releasing thread owns no other mutex whose ceiling is above
its base priority, and neither the base priority of the thread that is given the mutex nor the ceiling
of a mutex it owns is above the ceiling of this one.  A row that is used again owns no mutex with a
ceiling above its new priority. -/
def SafeRelease (s : Sync) : SyncAction → Prop
  | .sys (.exec t _) => ∀ c, s.sys.pc t = .priv c → c.acquires = false →
      s.holding.ReleaseSafe t c.mutex (s.sys.unlockHeir t c.mutex)
  | .exec t _ => ∀ c k m, s.pc t = .priv c k → c.waitMutex = some m → s.owner m = some t →
      s.holding.ReleaseSafe t m k
  | .activateThread id prio => ∀ m, s.owner m = some id → (s.sys.mutex m).prioCeiling ≤ prio
  | _ => True

end Sync

/-- The ceiling discipline holds in every state that a run whose steps meet `ok` reaches. -/
def PriorityCeiling (ok : Sync → SyncAction → Prop) : Prop :=
  ∀ (s₀ s : Sync) (es : List SyncEvent), s₀.CeilingStart → Run Sync.step ok s₀ es s → s.holding.Met

/-! ### What no step changes -/

namespace Sys

variable {s s' : Sys} {a : MutexAction} {e : Option MutexEvent}

theorem prioCeiling_setMutex (m : Nat) (x : PthreadMutex) (k : Nat)
    (hx : x.prioCeiling = (s.mutex m).prioCeiling) :
    ((s.setMutex m x).mutex k).prioCeiling = (s.mutex k).prioCeiling := by
  simp only [setMutex, update_apply]
  split_ifs with hk
  · rw [hx, hk]
  · rfl

theorem prioCeiling_exec {t now : Nat} (h : s.execStep t now = some (s', e)) (m : Nat) :
    (s'.mutex m).prioCeiling = (s.mutex m).prioCeiling := by
  unfold execStep at h
  cases hpc : s.pc t with
  | idle => simp [hpc] at h
  | check c =>
    simp only [hpc, Option.some.injEq, Prod.mk.injEq] at h
    obtain ⟨rfl, _⟩ := h
    unfold stepCheck
    split_ifs <;> rfl
  | owner c =>
    simp only [hpc, Option.some.injEq, stepOwner] at h
    split_ifs at h
    all_goals
      obtain ⟨rfl, _⟩ := h
      first
      | rfl
      | exact prioCeiling_setMutex c.mutex _ m rfl
  | priv c =>
    simp only [hpc, Option.some.injEq, stepPriv] at h
    split_ifs at h
    · obtain ⟨rfl, _⟩ := h
      simp only [setPc]
      unfold privMutexTrylock
      by_cases hfree : (s.mutex c.mutex).pthread = none
      · simp only [hfree, ite_true, setMutex, update_apply]
        split_ifs with hm
        · rw [hm]
        · rfl
      · simp only [hfree, ite_false]
        split_ifs <;> rfl
    · obtain ⟨rfl, _⟩ := h
      simp only [setPc]
      unfold privMutexUnlock
      cases hheir : (s.sched.restorePriority t).schedGetHighestPriorityBlocked c.mutex with
      | some k =>
        simp only [hheir, setMutex, update_apply]
        split_ifs with hm
        · rw [hm]
        · rfl
      | none =>
        simp only [hheir, setMutex, update_apply]
        split_ifs with hm
        · rw [hm]
        · rfl
  | resume c ret errno =>
    simp only [hpc, Option.some.injEq, stepResume, Prod.mk.injEq] at h
    obtain ⟨rfl, _⟩ := h
    rfl

theorem step_mutex (h : s.step a = some (s', e)) (ha : ∀ t now, a ≠ .exec t now) :
    s'.mutex = s.mutex := by
  cases a with
  | exec t now => exact absurd rfl (ha t now)
  | matchEvent now =>
    simp only [step, Option.some.injEq, Prod.mk.injEq] at h
    obtain ⟨rfl, _⟩ := h
    rfl
  | overflowEvent now =>
    simp only [step, Option.some.injEq, Prod.mk.injEq] at h
    obtain ⟨rfl, _⟩ := h
    rfl
  | _ =>
    simp only [step, Option.ite_none_right_eq_some, Option.some.injEq, Prod.mk.injEq] at h
    obtain ⟨_, rfl, _⟩ := h
    rfl

theorem step_prioCeiling (h : s.step a = some (s', e)) (m : Nat) :
    (s'.mutex m).prioCeiling = (s.mutex m).prioCeiling := by
  cases a with
  | exec t now => exact prioCeiling_exec (exec_spec h).2 m
  | _ => rw [step_mutex h (by simp)]

/-- A thread about to unlock was so before, or has just seen that it is the owner. -/
theorem unlocker_before {t : Nat} {c : MutexCall} (h : s.step a = some (s', e))
    (hpc : s'.pc t = .priv c) (hc : c.acquires = false) :
    (s.pc t = .priv c ∧ ∀ now, a ≠ .exec t now) ∨
      ((∃ now, a = .exec t now) ∧ s.pc t = .owner c ∧ (s'.mutex c.mutex).pthread = some t) := by
  cases a with
  | exec t' now =>
    obtain ⟨_, h⟩ := exec_spec h
    by_cases ht : t = t'
    · subst ht
      unfold execStep at h
      refine Or.inr ⟨⟨now, rfl⟩, ?_⟩
      cases hs : s.pc t with
      | idle => simp [hs] at h
      | check c' =>
        simp only [hs, Option.some.injEq, Prod.mk.injEq] at h
        obtain ⟨rfl, _⟩ := h
        unfold stepCheck at hpc
        split_ifs at hpc <;> simp [setPc] at hpc
      | owner c' =>
        simp only [hs, Option.some.injEq, stepOwner] at h
        split_ifs at h with h1 h2 h3 h4 h5 h6 h7
        all_goals
          obtain ⟨rfl, _⟩ := h
          simp [setPc] at hpc
        all_goals subst hpc
        -- a call that acquires does not unlock
        · rw [hc] at h1
          exact absurd h1 (by simp)
        -- the owner gives up its last level, or the only one
        · refine ⟨rfl, ?_⟩
          simpa [setPc, setMutex] using h5
        · exact ⟨rfl, h5⟩
      | priv c' =>
        simp only [hs, Option.some.injEq, stepPriv] at h
        split_ifs at h
        all_goals
          obtain ⟨rfl, _⟩ := h
          simp [setPc] at hpc
      | resume c' ret errno =>
        simp only [hs, Option.some.injEq, stepResume, Prod.mk.injEq] at h
        obtain ⟨rfl, _⟩ := h
        simp [setPc] at hpc
    · obtain ⟨pc, hres⟩ := pc_exec h
      rw [hres, update_of_ne ht] at hpc
      exact Or.inl ⟨hpc, fun now' heq => ht (by simp at heq; exact heq.1.symm)⟩
  | call t' c' =>
    simp only [step, Option.ite_none_right_eq_some, Option.some.injEq, Prod.mk.injEq] at h
    obtain ⟨_, rfl, _⟩ := h
    by_cases ht : t = t'
    · subst ht
      simp [setPc] at hpc
    · simp only [setPc, update_of_ne ht] at hpc
      exact Or.inl ⟨hpc, by simp⟩
  | matchEvent now =>
    simp only [step, Option.some.injEq, Prod.mk.injEq] at h
    obtain ⟨rfl, _⟩ := h
    exact Or.inl ⟨hpc, by simp⟩
  | overflowEvent now =>
    simp only [step, Option.some.injEq, Prod.mk.injEq] at h
    obtain ⟨rfl, _⟩ := h
    exact Or.inl ⟨hpc, by simp⟩
  | _ =>
    simp only [step, Option.ite_none_right_eq_some, Option.some.injEq, Prod.mk.injEq] at h
    obtain ⟨_, rfl, _⟩ := h
    exact Or.inl ⟨hpc, by simp⟩

end Sys

namespace Sync

variable {s s' : Sync} {a : SyncAction} {e : Option SyncEvent}

theorem stepPriv_prioCeiling (t : Nat) (c : SyncCall) (newThread : Option Nat) (now m : Nat) :
    ((s.stepPriv t c newThread now).1.sys.mutex m).prioCeiling = (s.sys.mutex m).prioCeiling := by
  have hwait : ∀ cond k tv,
      ((s.privCondWait t cond k newThread tv now).1.sys.mutex m).prioCeiling =
        (s.sys.mutex m).prioCeiling := by
    intro cond k tv
    unfold privCondWait
    by_cases hown : (s.sys.mutex k).pthread = some t
    · simp only [hown, ite_true]
      cases newThread with
      | none =>
        simp only [update_apply]
        split_ifs with hm
        · rw [hm]
        · rfl
      | some n =>
        simp only [update_apply]
        split_ifs with hm
        · rw [hm]
        · rfl
    · simp [hown]
  cases c with
  | condWait cond k => exact hwait cond k _
  | condTimedwait cond k ts => exact hwait cond k _
  | condSignal cond => cases newThread <;> rfl
  | condBroadcast cond => rfl
  | semPost q => cases newThread <;> rfl
  | semWait q => rfl
  | semTrywait q =>
    simp only [stepPriv]
    split_ifs <;> rfl
  | semTimedwait q ts =>
    simp only [stepPriv, privSemTimedwait]
    split_ifs <;> rfl
  | blockOnMq q ts => rfl
  | checkForBlockedTask q => cases newThread <;> rfl

theorem step_prioCeiling (h : s.step a = some (s', e)) (m : Nat) :
    (s'.sys.mutex m).prioCeiling = (s.sys.mutex m).prioCeiling := by
  cases a with
  | sys b =>
    obtain ⟨e', hb, _⟩ := sys_spec h
    exact Sys.step_prioCeiling hb m
  | call t c =>
    simp only [step, Option.ite_none_right_eq_some, Option.some.injEq, Prod.mk.injEq] at h
    obtain ⟨_, rfl, _⟩ := h
    rfl
  | exec t now =>
    obtain ⟨_, h⟩ := exec_spec h
    cases hpc : s.pc t with
    | priv c k =>
      simp only [execStep, hpc, Option.some.injEq] at h
      have hceil := stepPriv_prioCeiling (s := s) t c k now m
      rw [h] at hceil
      exact hceil
    | _ => rw [exec_quiet h (by simp [hpc])]
  | newThread t =>
    obtain ⟨sched, id, _, _, rfl, _⟩ := newThread_spec h
    rfl
  | activateThread id prio =>
    simp only [step, Option.ite_none_right_eq_some, Option.some.injEq, Prod.mk.injEq] at h
    obtain ⟨_, rfl, _⟩ := h
    rfl

theorem priority_condWaitRow {t m : Nat} (hown : s.owner m = some t) (cond : Nat) (k : Option Nat)
    (tv : SchedTimeval) (now n : Nat) :
    (s.condWaitRow t cond m k tv now n).priority =
        (if k = some n then (s.sys.mutex m).prioCeiling
        else if n = t then (s.row t).attrPriority else (s.row n).priority) ∧
      (s.condWaitRow t cond m k tv now n).attrPriority = (s.row n).attrPriority := by
  unfold condWaitRow
  simp only [hown, ite_true]
  by_cases hk : k = some n
  · by_cases hn : n = t
    · subst hn
      simp [hk, SchedTask.timedblocked, SchedTask.woken]
    · simp [hk, hn, SchedTask.woken]
  · by_cases hn : n = t
    · subst hn
      simp [hk, SchedTask.timedblocked]
    · simp [hk, hn]

/-! ### Steps as operations on the holding -/

/-- The rows keep their priorities. -/
theorem holding_of_rows (h : s.step a = some (s', e))
    (hrow : ∀ n, (s.rowAfter a n).priority = (s.row n).priority ∧
      (s.rowAfter a n).attrPriority = (s.row n).attrPriority)
    (hown : ∀ m, s.ownerAfter a m = s.owner m) : s'.holding = s.holding := by
  ext n
  · exact (SchedTask.attrPriority_of_noExec (step_row h n)).trans (hrow n).2
  · exact (SchedTask.priority_of_noExec (step_row h n)).trans (hrow n).1
  · exact step_prioCeiling h n
  · show s'.owner n = _ ↔ s.owner n = _
    rw [step_owner h, hown]

/-- The rows and owners change as in a release. -/
theorem holding_release (h : s.step a = some (s', e)) {t m : Nat} {heir : Option Nat}
    (hprio : ∀ n, (s.rowAfter a n).priority =
      if heir = some n then (s.sys.mutex m).prioCeiling
      else if n = t then (s.row t).attrPriority else (s.row n).priority)
    (hattr : ∀ n, (s.rowAfter a n).attrPriority = (s.row n).attrPriority)
    (hown : ∀ k, s.ownerAfter a k = if k = m then heir else s.owner k) :
    s'.holding = s.holding.release t m heir := by
  ext n
  · exact (SchedTask.attrPriority_of_noExec (step_row h n)).trans (hattr n)
  · exact (SchedTask.priority_of_noExec (step_row h n)).trans (hprio n)
  · exact step_prioCeiling h n
  · show s'.owner n = _ ↔ update s.owner m heir n = _
    rw [step_owner h, hown, update_apply]

theorem holding_acquire (h : s.step a = some (s', e)) {t m : Nat}
    (hprio : ∀ n, (s.rowAfter a n).priority =
      if n = t then max (s.row t).priority (s.sys.mutex m).prioCeiling else (s.row n).priority)
    (hattr : ∀ n, (s.rowAfter a n).attrPriority = (s.row n).attrPriority)
    (hown : ∀ k, s.ownerAfter a k = if k = m then some t else s.owner k) :
    s'.holding = s.holding.acquire t m := by
  ext n
  · exact (SchedTask.attrPriority_of_noExec (step_row h n)).trans (hattr n)
  · refine (SchedTask.priority_of_noExec (step_row h n)).trans ((hprio n).trans ?_)
    show _ = update s.holding.prio t (max (s.holding.prio t) (s.holding.ceiling m)) n
    rw [update_apply]
    rfl
  · exact step_prioCeiling h n
  · show s'.owner n = _ ↔ update s.owner m (some t) n = _
    rw [step_owner h, hown, update_apply]

/-- The discipline with what it rests on: a thread is in one call at a time, and a thread about to
unlock is the owner. -/
structure CeilingInv (s : Sync) : Prop where
  met : s.holding.Met
  one : s.OneCall
  unlocker : ∀ t c, s.sys.pc t = .priv c → c.acquires = false → s.owner c.mutex = some t

theorem CeilingStart.inv (h : s.CeilingStart) : s.CeilingInv where
  met t := by
    refine ⟨(h.base t).ge, fun m hm => ?_, fun _ => h.base t⟩
    exact absurd ((h.free m).symm.trans hm) (by simp)
  one t := Or.inl (h.idle t).1
  unlocker t c hpc := by
    rw [(h.idle t).2] at hpc
    exact absurd hpc (by simp)

/-- `priv_lock` takes a mutex that is free. -/
theorem holding_mutexLock {t now : Nat} {c : MutexCall} (h : s.step (.sys (.exec t now)) = some (s', e))
    (hpc : s.sys.pc t = .priv c) (hc : c.acquires = true) :
    s'.holding = s.holding ∨ s.owner c.mutex = none ∧ s'.holding = s.holding.acquire t c.mutex := by
  by_cases hfree : (s.sys.mutex c.mutex).pthread = none
  · right
    refine ⟨hfree, holding_acquire h ?_ ?_ ?_⟩
    · intro n
      simp only [rowAfter, Sys.rowAfter, hpc, Sys.privRow, hc, hfree, ite_true]
      by_cases hn : n = t
      · subst hn; simp [row]
      · simp [hn, row]
    · intro n
      simp only [rowAfter, Sys.rowAfter, hpc, Sys.privRow, hc, hfree, ite_true]
      by_cases hn : n = t
      · subst hn; simp [row]
      · simp [hn, row]
    · intro k
      simp only [ownerAfter, Sys.ownerAfter, hpc, hc, ite_true]
      by_cases hk : k = c.mutex
      · subst hk; simp [hfree]
      · simp [hk, Ne.symm hk, owner]
  · left
    refine holding_of_rows h ?_ ?_
    · intro n
      simp only [rowAfter, Sys.rowAfter, hpc, Sys.privRow, hc, hfree, ite_true, ite_false]
      split_ifs <;> exact ⟨rfl, rfl⟩
    · intro k
      simp only [ownerAfter, Sys.ownerAfter, hpc, hc, ite_true]
      by_cases hk : k = c.mutex
      · subst hk; simp [hfree, owner]
      · simp [Ne.symm hk, owner]

theorem holding_mutexUnlock {t now : Nat} {c : MutexCall} (h : s.step (.sys (.exec t now)) = some (s', e))
    (hpc : s.sys.pc t = .priv c) (hc : c.acquires = false) :
    s'.holding = s.holding.release t c.mutex (s.sys.unlockHeir t c.mutex) := by
  refine holding_release h ?_ ?_ ?_
  · intro n
    simp only [rowAfter, Sys.rowAfter, hpc, Sys.privRow, hc, Bool.false_eq_true, ite_false]
    split_ifs with hheir hn
    · rfl
    · rw [hn]; rfl
    · rfl
  · intro n
    simp only [rowAfter, Sys.rowAfter, hpc, Sys.privRow, hc, Bool.false_eq_true, ite_false]
    split_ifs <;> rfl
  · intro k
    simp only [ownerAfter, Sys.ownerAfter, hpc, hc, Bool.false_eq_true, ite_false]
    by_cases hk : k = c.mutex
    · subst hk; simp
    · simp [hk, Ne.symm hk, owner]

/-- A thread that begins to wait gives its mutex to the one it has chosen. -/
theorem holding_condWait {t now m : Nat} {c : SyncCall} {k : Option Nat} (h : s.step (.exec t now) = some (s', e))
    (hpc : s.pc t = .priv c k) (hm : c.waitMutex = some m) (hown : s.owner m = some t) :
    s'.holding = s.holding.release t m k := by
  have hrow : ∀ n, ∃ cond tv, s.rowAfter (.exec t now) n = s.condWaitRow t cond m k tv now n := by
    intro n
    simp only [rowAfter, hpc]
    cases c <;> simp only [SyncCall.waitMutex, Option.some.injEq, reduceCtorEq] at hm
    all_goals
      subst hm
      exact ⟨_, _, rfl⟩
  refine holding_release h ?_ ?_ ?_
  · intro n
    obtain ⟨cond, tv, heq⟩ := hrow n
    rw [heq]
    exact (priority_condWaitRow hown cond k tv now n).1
  · intro n
    obtain ⟨cond, tv, heq⟩ := hrow n
    rw [heq]
    exact (priority_condWaitRow hown cond k tv now n).2
  · intro j
    simp only [ownerAfter, hpc, hm, Option.some.injEq]
    by_cases hj : j = m
    · subst hj; simp [hown]
    · simp [hj, Ne.symm hj]

/-- The other privileged calls leave the mutexes alone. -/
theorem holding_priv {t now : Nat} {c : SyncCall} {k : Option Nat} (h : s.step (.exec t now) = some (s', e))
    (hpc : s.pc t = .priv c k) (hrel : ¬ ∃ m, c.waitMutex = some m ∧ s.owner m = some t) : s'.holding = s.holding := by
  refine holding_of_rows h ?_ ?_
  · intro n
    simp only [rowAfter, hpc]
    have hwait : ∀ cond m tv, c.waitMutex = some m → s.condWaitRow t cond m k tv now n = s.row n := by
      intro cond m tv hm
      exact if_neg fun hown => hrel ⟨m, hm, hown⟩
    cases c with
    | condWait cond m => rw [privRow, hwait _ _ _ rfl]; exact ⟨rfl, rfl⟩
    | condTimedwait cond m ts => rw [privRow, hwait _ _ _ rfl]; exact ⟨rfl, rfl⟩
    | semTrywait q => exact ⟨rfl, rfl⟩
    | _ =>
      simp only [privRow]
      split_ifs <;> simp [SchedTask.timedblocked, SchedTask.woken]
  · intro j
    simp only [ownerAfter, hpc]
    exact if_neg fun hown => hrel ⟨j, hown.1, hown.2⟩

theorem holding_activateThread {id : Nat} {prio : Int} (h : s.step (.activateThread id prio) = some (s', e)) :
    s'.holding = s.holding.restart id prio := by
  ext n
  · refine (SchedTask.attrPriority_of_noExec (step_row h n)).trans ?_
    show _ = update s.holding.base id prio n
    rw [update_apply]
    simp only [rowAfter]
    split_ifs <;> rfl
  · refine (SchedTask.priority_of_noExec (step_row h n)).trans ?_
    show _ = update s.holding.prio id prio n
    rw [update_apply]
    simp only [rowAfter]
    split_ifs <;> rfl
  · exact step_prioCeiling h n
  · show s'.owner n = _ ↔ s.owner n = _
    rw [step_owner h]
    rfl

/-- What a step does to the priorities and owners. -/
theorem CeilingInv.step_holding (hi : s.CeilingInv) (h : s.step a = some (s', e)) :
    s'.holding = s.holding ∨
      (∃ t m, s.owner m = none ∧ s'.holding = s.holding.acquire t m) ∨
      (∃ t m heir, s.owner m = some t ∧ (s.SafeRelease a → s.holding.ReleaseSafe t m heir) ∧
        s'.holding = s.holding.release t m heir) ∨
      ∃ id prio, a = .activateThread id prio ∧ s'.holding = s.holding.restart id prio := by
  cases a with
  | sys b =>
    cases b with
    | exec t now =>
      cases hpc : s.sys.pc t with
      | priv c =>
        cases hc : c.acquires with
        | true => exact (holding_mutexLock h hpc hc).imp_right fun htaken => Or.inl ⟨t, c.mutex, htaken⟩
        | false =>
          right; right; left
          exact ⟨t, c.mutex, _, hi.unlocker t c hpc hc, fun hsafe => hsafe c hpc hc, holding_mutexUnlock h hpc hc⟩
      | _ =>
        left
        refine holding_of_rows h (fun n => ?_) fun k => ?_
        · simp only [rowAfter, Sys.rowAfter, hpc]
          exact ⟨rfl, rfl⟩
        · simp only [ownerAfter, Sys.ownerAfter, hpc]
          rfl
    | _ =>
      left
      refine holding_of_rows h (fun n => ?_) fun k => rfl
      simp only [rowAfter, Sys.rowAfter]
      first
      | exact ⟨rfl, rfl⟩
      | split_ifs <;> exact ⟨rfl, rfl⟩
  | call t c => exact Or.inl (holding_of_rows h (fun n => ⟨rfl, rfl⟩) fun k => rfl)
  | exec t now =>
    cases hpc : s.pc t with
    | priv c k =>
      by_cases hrel : ∃ m, c.waitMutex = some m ∧ s.owner m = some t
      · obtain ⟨m, hm, hown⟩ := hrel
        right; right; left
        exact ⟨t, m, k, hown, fun hsafe => hsafe c k m hpc hm hown, holding_condWait h hpc hm hown⟩
      · exact Or.inl (holding_priv h hpc hrel)
    | _ =>
      left
      refine holding_of_rows h (fun n => ?_) fun k => ?_
      · simp [rowAfter, hpc]
      · simp only [ownerAfter, hpc]
  | newThread t =>
    left
    refine holding_of_rows h (fun n => ?_) fun k => rfl
    obtain ⟨sched, id, hnew, _⟩ := newThread_spec h
    simp only [rowAfter, hnew]
    split_ifs <;> exact ⟨rfl, rfl⟩
  | activateThread id prio =>
    right; right; right
    exact ⟨id, prio, rfl, holding_activateThread h⟩

/-- Only its owner gives a mutex away, and a thread in another call is not about to unlock. -/
theorem CeilingInv.step_unlocker (hi : s.CeilingInv) (h : s.step a = some (s', e)) {t : Nat}
    {c : MutexCall} (hpc : s'.sys.pc t = .priv c) (hc : c.acquires = false) :
    s'.owner c.mutex = some t := by
  cases a with
  | sys b =>
    obtain ⟨e', hb, _⟩ := sys_spec h
    rcases Sys.unlocker_before hb hpc hc with ⟨hbefore, hother⟩ | ⟨_, _, hown⟩
    · have hown := hi.unlocker t c hbefore hc
      rw [step_owner h]
      cases b with
      | exec t' now =>
        simp only [ownerAfter, Sys.ownerAfter]
        have hown' : (s.sys.mutex c.mutex).pthread = some t := hown
        -- the mutex has an owner, so that nobody acquires it
        cases hpc' : s.sys.pc t' with
        | priv c' =>
          simp only
          split_ifs with hm hacq hfree
          · rw [hown'] at hfree
            exact absurd hfree (by simp)
          · exact hown'
          · -- the other thread would be the owner as well
            have hown'' := hi.unlocker t' c' hpc' (by simpa using hacq)
            rw [hm, hown, Option.some.injEq] at hown''
            exact absurd (by rw [hown'']) (hother now)
          · exact hown'
        | _ => exact hown'
      | _ => exact hown
    · exact hown
  | call t' c' =>
    simp only [step, Option.ite_none_right_eq_some, Option.some.injEq, Prod.mk.injEq] at h
    obtain ⟨_, rfl, _⟩ := h
    exact hi.unlocker t c hpc hc
  | exec t' now =>
    obtain ⟨_, hx⟩ := exec_spec h
    cases hs : s.pc t' with
    | priv c' k =>
      have hkeep := stepPriv_sysPc (s := s) t' c' k now
      simp only [execStep, hs, Option.some.injEq] at hx
      rw [hx] at hkeep
      rw [show s'.sys.pc = s.sys.pc from hkeep] at hpc
      have hown := hi.unlocker t c hpc hc
      rw [step_owner h]
      simp only [ownerAfter, hs]
      refine (if_neg ?_).trans hown
      rintro ⟨_, hown'⟩
      rw [hown, Option.some.injEq] at hown'
      subst hown'
      -- one thread would be in two calls
      rcases hi.one t with hidle | hidle
      · rw [hs] at hidle
        exact absurd hidle (by simp)
      · rw [hpc] at hidle
        exact absurd hidle (by simp)
    | _ =>
      have hsys := exec_quiet hx (by simp [hs])
      rw [hsys] at hpc
      show (s'.sys.mutex _).pthread = _
      rw [hsys]
      exact hi.unlocker t c hpc hc
  | newThread t' =>
    obtain ⟨sched, id, _, _, rfl, _⟩ := newThread_spec h
    rcases eq_or_ne t id with rfl | ht
    · rw [show (({ s.setSched sched with sys.pc := update s.sys.pc t .idle } : Sync).setPc t
        .fresh).sys.pc t = .idle from update_self ..] at hpc
      exact absurd hpc (by simp)
    · rw [show (({ s.setSched sched with sys.pc := update s.sys.pc id .idle } : Sync).setPc id
        .fresh).sys.pc t = s.sys.pc t from update_of_ne ht ..] at hpc
      exact hi.unlocker t c hpc hc
  | activateThread id prio =>
    simp only [step, Option.ite_none_right_eq_some, Option.some.injEq, Prod.mk.injEq] at h
    obtain ⟨_, rfl, _⟩ := h
    exact hi.unlocker t c hpc hc

theorem CeilingInv.step (hi : s.CeilingInv) (hok : s.SafeRelease a) (h : s.step a = some (s', e)) :
    s'.CeilingInv where
  met := by
    rcases hi.step_holding h with heq | ⟨t, m, hfree, heq⟩ | ⟨t, m, heir, hown, hsafe, heq⟩ |
      ⟨id, prio, rfl, heq⟩
    · rw [heq]
      exact hi.met
    · rw [heq]
      exact hi.met.acquire hfree
    · rw [heq]
      exact hi.met.release hown (hsafe hok)
    · rw [heq]
      exact hi.met.restart hok
  one := hi.one.step h
  unlocker _ _ hpc hc := hi.step_unlocker h hpc hc

end Sync

/-- In every run whose releases are safe every thread runs at or above its base priority and the
ceilings of the mutexes it owns, and at its base priority when it owns none. -/
theorem priorityCeiling_of_safe (s₀ s : Sync) (es : List SyncEvent) (h0 : s₀.CeilingStart)
    (hrun : Run Sync.step Sync.SafeRelease s₀ es s) : s.holding.Met :=
  (hrun.invariant (fun _ (s : Sync) => s.CeilingInv) h0.inv fun _ _ _ _ _ hi hok hs => hi.step hok hs).met

theorem Sync.ceilingStart_start (total : Nat) (prio ceiling : Nat → Int) (value : BitVec 32) :
    (Sync.start total prio ceiling value).CeilingStart :=
  ⟨fun _ => rfl, fun _ => rfl, fun _ => ⟨rfl, rfl⟩⟩

/-- The step releases nothing. -/
def Sync.releasesNothing (s : Sync) : SyncAction → Bool
  | .sys (.exec t _) =>
    match s.sys.pc t with
    | .priv c => c.acquires
    | _ => true
  | .exec t _ =>
    match s.pc t with
    | .priv c _ => c.waitMutex.isNone
    | _ => true
  | .activateThread .. => false
  | _ => true

theorem Sync.safeRelease_of_releasesNothing (s : Sync) (a : SyncAction)
    (h : s.releasesNothing a = true) : s.SafeRelease a := by
  cases a with
  | sys b =>
    cases b with
    | exec t now =>
      intro c hpc hc
      simp only [releasesNothing, hpc, hc] at h
      exact absurd h (by simp)
    | _ => trivial
  | exec t now =>
    intro c k m hpc hm
    simp only [releasesNothing, hpc, hm] at h
    exact absurd h (by simp)
  | activateThread id prio => exact absurd h (by simp [releasesNothing])
  | _ => trivial

/-- Thread `1` locks a mutex, thread `2` goes to sleep on it, and thread `1` is about to unlock. -/
def aboutToHandOff : List SyncAction :=
  [.sys (.call 1 (.lock 64)), .sys (.exec 1 0), .sys (.exec 1 0), .sys (.exec 1 0), .sys (.exec 1 0),
    .sys (.call 2 (.lock 64)), .sys (.exec 2 0), .sys (.exec 2 0), .sys (.exec 2 0),
    .sys (.call 1 (.unlock 64)), .sys (.exec 1 0), .sys (.exec 1 0)]

theorem priorityCeiling_handOff : ∃ s es,
    Run Sync.step Sync.SafeRelease (Sync.start 3 (fun _ => 0) (fun _ => 5) 0) es s ∧
      s.owner 64 = some 2 ∧ s.holding.Met := by
  obtain ⟨s, s', es, e, x, hs, hs', hown, hpc, hheir, hmutex, hbase⟩ : ∃ s s' es e x,
      Run.replay Sync.step (Sync.start 3 (fun _ => 0) (fun _ => 5) 0) aboutToHandOff = some (s, es) ∧
        s.step (.sys (.exec 1 0)) = some (s', e) ∧ s'.owner 64 = some 2 ∧
        s.sys.pc 1 = .priv (.unlock 64) ∧ s.sys.unlockHeir 1 64 = some 2 ∧
        s.sys.mutex =
          update (Sync.start 3 (fun _ => 0) (fun _ => 5) 0).sys.mutex 64 x ∧
        s.holding.base 2 ≤ s.holding.ceiling 64 :=
    ⟨_, _, _, _, _, rfl, rfl, rfl, rfl, rfl, rfl, by decide⟩
  have hothers : ∀ m, m ≠ 64 → s.owner m = none := by
    intro m hm
    rw [Sync.owner, hmutex, update_of_ne hm]
    rfl
  have hok : s.SafeRelease (.sys (.exec 1 0)) := by
    intro c hc _
    rw [hpc, Pc.priv.injEq] at hc
    subst hc
    show s.holding.ReleaseSafe 1 64 (s.sys.unlockHeir 1 64)
    rw [hheir]
    refine ⟨fun m hm hm' => absurd ((hothers m hm).symm.trans hm') (by simp), ?_⟩
    rintro n hn
    rw [Option.some.injEq] at hn
    subst hn
    refine ⟨hbase, fun m hm => ?_⟩
    rcases eq_or_ne m 64 with rfl | hm'
    · exact le_refl _
    · exact absurd ((hothers m hm').symm.trans hm) (by simp)
  have hquiet : Run.AllOk Sync.step (fun s a => s.releasesNothing a = true)
      (Sync.start 3 (fun _ => 0) (fun _ => 5) 0) aboutToHandOff := by decide
  have hrun := ((Run.of_replay hs hquiet).mono Sync.safeRelease_of_releasesNothing).snoc hok hs'
  exact ⟨s', _, hrun, hown, priorityCeiling_of_safe _ s' _ (Sync.ceilingStart_start ..) hrun⟩

/-! ### Two nested mutexes -/

/-- Thread `1` locks two mutexes and unlocks the second. -/
def nestedLocks : List SyncAction :=
  [.sys (.call 1 (.lock 64)), .sys (.exec 1 0), .sys (.exec 1 0), .sys (.exec 1 0), .sys (.exec 1 0),
    .sys (.call 1 (.lock 68)), .sys (.exec 1 0), .sys (.exec 1 0), .sys (.exec 1 0), .sys (.exec 1 0),
    .sys (.call 1 (.unlock 68)), .sys (.exec 1 0), .sys (.exec 1 0), .sys (.exec 1 0)]

/-- The thread still owns the first mutex and has fallen back to its base priority. -/
theorem not_priorityCeiling : ¬PriorityCeiling fun _ _ => True := by
  intro h
  obtain ⟨s, es, hs, hown, hceil, hprio⟩ : ∃ s es,
      Run.replay Sync.step (Sync.start 3 (fun _ => 0) (fun _ => 5) 0) nestedLocks = some (s, es) ∧
        s.holding.owner 64 = some 1 ∧ s.holding.ceiling 64 = 5 ∧ s.holding.prio 1 = 0 :=
    ⟨_, _, rfl, rfl, rfl, rfl⟩
  have hmet := h _ s es (Sync.ceilingStart_start ..) (Run.of_replay hs (Run.allOk_true _ _))
  have hle := (hmet 1).2.1 64 hown
  rw [hceil, hprio] at hle
  exact absurd hle (by decide)

end CoActionOS
