import CoActionOS.Sync.Places

/-!
# Wake-ups reach current waiters

`sem_post`, `pthread_cond_signal`, the two waits on a condition variable and the message queues look
for a sleeper in user mode and wake it in a later privileged call.  `WakesWaiters ok` says that in
every run whose steps meet `ok` the thread woken is blocked on the very object.

It is false in general (`not_wakesWaiters`): between the two the sleeper may time out and go on.  It
holds exactly as long as nothing takes a chosen sleeper off its object (`wakesWaiters_of_undisturbed`);
`priv_mutex_unlock`, which looks for the sleeper inside the privileged call, needs no such proviso.
-/

namespace CoActionOS

open Function

namespace Sync

/-- Thread `n` is asleep on `obj`. -/
def BlockedOn (s : Sync) (n obj : Nat) : Prop :=
  n ∈ s.sys.sched.ids ∧ (s.row n).enabled = true ∧ (s.row n).active = false ∧
    (s.row n).blockObject = obj

/-- A start state: every thread is between calls. -/
def Idle (s : Sync) : Prop := ∀ t, s.pc t = .idle

end Sync

namespace Sync

/-- The action takes the sleeper `n` off its object, ends it or, for a row that is being reused,
starts it: a signal, its deadline, the exit of its process, or a wake-up. -/
def unblocks (s : Sync) (a : SyncAction) (n : Nat) : Bool :=
  match a with
  | .sys (.signal t) => n == t
  | .sys (.matchEvent now) => s.sys.sched.due now n
  | .sys (.overflowEvent now) =>
    { s.sys.sched with
      usecondCounter := (s.sys.sched.usecondCounter + 1) % 2 ^ 32 }.due now n
  | .sys (.stopThreads t) => (s.row n).pid == (s.row t).pid
  | .sys (.exec t _) =>
    match s.sys.pc t with
    | .priv c => !c.acquires && s.sys.unlockHeir t c.mutex == some n
    | _ => false
  | .exec t _ =>
    match s.pc t with
    | .priv (.condBroadcast cond) _ => s.sys.sched.blockedOn n cond
    | .priv c k => k == some n && c.waitMutex.all fun m => s.owner m == some t
    | _ => false
  | .activateThread id _ => n == id
  | _ => false

/-- The sleeper that thread `t` has chosen and not woken yet. -/
def chosen (s : Sync) (t : Nat) : Option Nat :=
  match s.pc t with
  | .priv _ k => if (s.row t).enabled then k else none
  | _ => none

/-- The action is a piece of thread `t`'s own call. -/
def ownPiece (t : Nat) : SyncAction → Bool
  | .exec t' _ => t == t'
  | _ => false

/-- No sleeper that a thread has chosen to wake is taken off its object by anything but that
thread's own privileged call. -/
def Undisturbed (s : Sync) (a : SyncAction) : Prop :=
  ∀ t ∈ s.sys.sched.ids, ∀ n ∈ s.chosen t, ownPiece t a = false → s.unblocks a n = false

instance (s : Sync) (a : SyncAction) : Decidable (s.Undisturbed a) :=
  inferInstanceAs (Decidable (∀ t ∈ s.sys.sched.ids, ∀ n ∈ s.chosen t,
    ownPiece t a = false → s.unblocks a n = false))

variable {s s' : Sync} {a : SyncAction} {e : Option SyncEvent} {n obj : Nat}

/-! ### One step -/

theorem BlockedOn.sys_row (hb : s.BlockedOn n obj) {b : MutexAction} {e' : Option MutexEvent}
    (h : s.sys.step b = some (s'.sys, e')) (hu : s.unblocks (.sys b) n = false) :
    s.sys.rowAfter b n = s.row n := by
  cases b with
  | call t c => rfl
  | exec t now =>
    have hne := ne_of_canRun (Sys.exec_spec h).1 hb.2.2.1
    simp only [Sys.rowAfter]
    cases hpc : s.sys.pc t with
    | priv c =>
      simp only [Sys.privRow]
      cases hc : c.acquires with
      | true =>
        simp only [ite_true]
        rw [if_pos hne]
        rfl
      | false =>
        have hheir : s.sys.unlockHeir t c.mutex ≠ some n := by
          simpa [unblocks, hpc, hc] using hu
        simp only [Bool.false_eq_true, ite_false]
        rw [if_neg hheir, if_neg hne]
        rfl
    | _ => rfl
  | signal t => exact if_neg (by simpa [unblocks] using hu)
  | matchEvent now => exact if_neg fun hdue => Bool.eq_false_iff.mp hu hdue.2
  | overflowEvent now => exact if_neg fun hdue => Bool.eq_false_iff.mp hu hdue.2
  | cleanup t =>
    simp only [Sys.step, Option.ite_none_right_eq_some] at h
    exact if_neg (ne_of_canRun h.1 hb.2.2.1)
  | stopThreads t =>
    have hpid : (s.row n).pid ≠ (s.row t).pid := by simpa [unblocks] using hu
    exact if_neg fun hmate => hpid hmate.2.1

theorem BlockedOn.priv_row (hb : s.BlockedOn n obj) {t now : Nat} {c : SyncCall} {k : Option Nat}
    (hr : s.sys.canRun t = true) (hpc : s.pc t = .priv c k) (hu : s.unblocks (.exec t now) n = false) :
    s.privRow t c k now n = s.row n := by
  have hne := ne_of_canRun hr hb.2.2.1
  have hk : (∀ cond, c ≠ .condBroadcast cond) → (∀ m, c.waitMutex = some m → s.owner m = some t) →
      k ≠ some n := by
    rintro hc hown rfl
    cases c <;> simp_all [unblocks, SyncCall.waitMutex]
  have hwait : ∀ cond m tv, c.waitMutex = some m → s.condWaitRow t cond m k tv now n = s.row n := by
    intro cond m tv hm
    unfold condWaitRow
    by_cases hown : s.owner m = some t
    · have hkn := hk (by rintro cond rfl; simp [SyncCall.waitMutex] at hm) fun m' hm' => by
        rw [hm, Option.some.injEq] at hm'
        rw [← hm']
        exact hown
      simp [hown, hne, hkn]
    · simp [hown]
  cases c with
  | condWait cond m => exact hwait cond m _ rfl
  | condTimedwait cond m ts => exact hwait cond m _ rfl
  | condSignal cond => exact if_neg (hk (by simp) fun m hm => by simp [SyncCall.waitMutex] at hm)
  | condBroadcast cond =>
    simp only [unblocks, hpc] at hu
    exact if_neg fun hblock => Bool.eq_false_iff.mp hu hblock.2
  | semPost q => exact if_neg (hk (by simp) fun m hm => by simp [SyncCall.waitMutex] at hm)
  | semWait q => exact if_neg hne
  | semTrywait q => rfl
  | semTimedwait q ts => exact if_neg fun hcur => hne hcur.1
  | blockOnMq q ts => exact if_neg hne
  | checkForBlockedTask q => exact if_neg (hk (by simp) fun m hm => by simp [SyncCall.waitMutex] at hm)

/-- A sleeper stays asleep on its object through every step that does not take it off. -/
theorem BlockedOn.step (hb : s.BlockedOn n obj) (h : s.step a = some (s', e))
    (hu : s.unblocks a n = false) : s'.BlockedOn n obj := by
  have hrow : s.rowAfter a n = s.row n := by
    cases a with
    | sys b =>
      obtain ⟨e', hstep, _⟩ := sys_spec h
      exact hb.sys_row hstep hu
    | call t c => rfl
    | exec t now =>
      obtain ⟨hr, _⟩ := exec_spec h
      simp only [rowAfter]
      cases hpc : s.pc t with
      | priv c k => exact hb.priv_row hr hpc hu
      | _ => rfl
    | newThread t =>
      obtain ⟨sched, id, hnew, _⟩ := newThread_spec h
      obtain ⟨_, hfree, _⟩ := Sched.newTask_spec _ hnew
      simp only [rowAfter, hnew]
      refine if_neg ?_
      rintro rfl
      have hen := hb.2.1
      rw [row, hfree] at hen
      exact absurd hen (by simp)
    | activateThread id prio => exact if_neg (by simpa [unblocks] using hu)
  have hsame := step_row h n
  rw [hrow] at hsame
  obtain ⟨hids, hen, hact, hobj⟩ := hb
  refine ⟨by rw [step_ids h]; exact hids, ?_, ?_, ?_⟩
  · rw [SchedTask.enabled_of_noExec hsame, hen]
  · rw [SchedTask.active_of_noExec hsame, hact]
  · rw [SchedTask.blockObject_of_noExec hsame, hobj]

/-- A thread that is about to wake `n` was so before the step, or has just found `n` asleep. -/
theorem pending_before {t : Nat} {c : SyncCall} (h : s.step a = some (s', e))
    (hpc : s'.pc t = .priv c (some n)) :
    (s.pc t = .priv c (some n) ∧ ∀ now, a ≠ .exec t now) ∨
      (∃ now, a = .exec t now) ∧ s.BlockedOn n c.scanned := by
  cases a with
  | sys b =>
    obtain ⟨e', _, hs', _⟩ := sys_spec h
    rw [hs'] at hpc
    exact Or.inl ⟨hpc, by simp⟩
  | call t' c' =>
    simp only [step, Option.ite_none_right_eq_some, Option.some.injEq, Prod.mk.injEq] at h
    obtain ⟨_, rfl, _⟩ := h
    by_cases ht : t = t'
    · subst ht
      simp [setPc] at hpc
    · simp only [setPc, update_of_ne ht] at hpc
      exact Or.inl ⟨hpc, by simp⟩
  | exec t' now =>
    obtain ⟨hr, h⟩ := exec_spec h
    by_cases ht : t = t'
    · subst ht
      refine Or.inr ⟨⟨now, rfl⟩, ?_⟩
      obtain ⟨pc, hres, hnext⟩ := exec_next h
      rw [hres, update_self] at hpc
      -- the piece that just ran is the search of the queue
      generalize s.pc t = before at hnext
      cases hnext with
      | passed => cases ‹SyncCall› <;> simp [afterCheck] at hpc
      | found hk =>
        simp only [SyncPc.priv.injEq, Option.some.injEq] at hpc
        obtain ⟨rfl, rfl⟩ := hpc
        obtain ⟨hids, hen, hobj, hact⟩ := Sched.getHighestPriorityBlocked_spec _ hk
        exact ⟨hids, hen, hact, hobj⟩
      | _ => simp at hpc
    · obtain ⟨pc, hres⟩ := pc_exec h
      rw [hres, update_of_ne ht] at hpc
      exact Or.inl ⟨hpc, fun now' heq => ht (by simp at heq; exact heq.1.symm)⟩
  | newThread t' =>
    obtain ⟨sched, id, _, _, rfl, _⟩ := newThread_spec h
    by_cases ht : t = id
    · subst ht
      simp [setPc] at hpc
    · simp only [setPc, update_of_ne ht] at hpc
      exact Or.inl ⟨hpc, by simp⟩
  | activateThread id prio =>
    simp only [step, Option.ite_none_right_eq_some, Option.some.injEq, Prod.mk.injEq] at h
    obtain ⟨_, rfl, _⟩ := h
    by_cases ht : t = id
    · subst ht
      simp [setPc] at hpc
    · simp only [setPc, update_of_ne ht] at hpc
      exact Or.inl ⟨hpc, by simp⟩

/-! ### Runs -/

/-- Every chosen sleeper is still asleep on the object it was chosen for. -/
def ChosenAsleep (s : Sync) : Prop :=
  ∀ t c n, t ∈ s.sys.sched.ids → s.pc t = .priv c (some n) → (s.row t).enabled = true →
    s.BlockedOn n c.scanned

theorem ChosenAsleep.step (hi : s.ChosenAsleep) (hok : s.Undisturbed a)
    (h : s.step a = some (s', e)) : s'.ChosenAsleep := by
  intro t c n hids hpc hen
  rw [step_ids h] at hids
  rcases pending_before h hpc with ⟨hpc', hother⟩ | ⟨⟨now, rfl⟩, hb⟩
  · have hen' : (s.row t).enabled = true := by
      rcases enabled_before h hen with hen' | hfresh
      · exact hen'
      · rw [hpc] at hfresh
        exact absurd hfresh (by simp)
    refine (hi t c n hids hpc' hen').step h (hok t hids n ?_ ?_)
    · simp [chosen, hpc', hen']
    · cases a with
      | exec t' now =>
        simp only [ownPiece, beq_eq_false_iff_ne]
        rintro rfl
        exact hother now rfl
      | _ => rfl
  · -- the scan itself changes no row, so what it found is still so
    refine hb.step h ?_
    obtain ⟨_, hx⟩ := exec_spec h
    cases hs : s.pc t with
    | priv c' k =>
      simp only [execStep, hs, Option.some.injEq] at hx
      obtain ⟨ret, errno, _, hres⟩ := pc_stepPriv (s := s) t c' k now
      rw [hx] at hres
      rw [show s'.pc = _ from hres, update_self] at hpc
      simp at hpc
    | _ => simp [unblocks, hs]

end Sync

end CoActionOS
