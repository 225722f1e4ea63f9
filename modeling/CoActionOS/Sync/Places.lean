import CoActionOS.Sync.Effect

/-!
# Where the threads are

`Next` lists the moves a thread can make through a call, with what each of them has just seen; every
piece a thread executes is one of them (`exec_next`).  Two invariants of all runs follow: a thread is
in one call at a time (`OneCall`), and past the tests of a call its pointers are good (`WellTyped`).
-/

namespace CoActionOS

open Function

namespace SyncCall

/-- The object a call tests first. -/
def object : SyncCall → Nat
  | condWait c _ | condTimedwait c _ _ | condSignal c | condBroadcast c => c
  | semPost q | semWait q | semTrywait q | semTimedwait q _ => q
  | blockOnMq q _ | checkForBlockedTask q => q

end SyncCall

/-- What the place says about the pointers and the error of the call. -/
def SyncPc.Good (kind : Nat → ObjKind) : SyncPc → Prop
  | .idle | .fresh => True
  | .check c => c.typed kind = true
  | .post q => kind q = .sem ∧ q ≠ 0
  | .scan c | .priv c _ => c.typed kind = true ∧ c.object ≠ 0
  | .resume c ret errno =>
    c.typed kind = true ∧ (ret = 0 → c.object ≠ 0) ∧ errno ≠ some .etimedout
  | .abort q _ => kind q = .sem ∧ q ≠ 0

/-- What the place in a mutex call says about the pointer of the call. -/
def Pc.Good (kind : Nat → ObjKind) : Pc → Prop
  | .check c => c.mutex = 0 ∨ kind c.mutex = .mutex
  | .owner c | .priv c => c.mutex ≠ 0 ∧ kind c.mutex = .mutex
  | _ => True

namespace Sync

/-- The moves of thread `t` in state `s`. -/
inductive Next (s : Sync) (t : Nat) : SyncPc → SyncPc → Prop
  | refused {c : SyncCall} {ret : Int} {errno : Option Errno} :
      s.fault t c = some (ret, errno) → Next s t (.check c) (.resume c ret errno)
  | passed {c : SyncCall} : s.fault t c = none → Next s t (.check c) (afterCheck c)
  | post {q : Nat} : Next s t (.post q) (.scan (.semPost q))
  | found {c : SyncCall} {n : Nat} : s.sys.sched.schedGetHighestPriorityBlocked c.scanned = some n →
      Next s t (.scan c) (.priv c (some n))
  | alone {c : SyncCall} : c.waitMutex.isSome = true → Next s t (.scan c) (.priv c none)
  | nobody {c : SyncCall} : c.waitMutex.isSome = false → Next s t (.scan c) (.resume c 0 none)
  | priv {c : SyncCall} {k : Option Nat} {ret : Int} {errno : Option Errno} :
      (∀ m, c.waitMutex = some m → (ret = 0 ↔ s.owner m = some t)) → errno ≠ some .etimedout →
      Next s t (.priv c k) (.resume c ret errno)
  | returned {c : SyncCall} {ret : Int} {errno : Option Errno} : Next s t (.resume c ret errno) .idle
  | timedOut {q : Nat} {ts : Option Timespec} {errno : Option Errno} :
      (s.row t).unblockType = .sleep →
      Next s t (.resume (.semTimedwait q ts) 0 errno) (.abort q ts)
  | aborted {q : Nat} {ts : Option Timespec} : Next s t (.abort q ts) .idle

variable {s s' : Sync} {a : SyncAction} {e : Option SyncEvent}

theorem active_of_canRun {t : Nat} (hr : s.sys.canRun t = true) : (s.row t).active = true := by
  simp only [Sys.canRun, Bool.and_eq_true] at hr
  exact hr.2

theorem ne_of_canRun {t n : Nat} (hr : s.sys.canRun t = true) (hact : (s.row n).active = false) : n ≠ t := by
  rintro rfl
  exact absurd ((active_of_canRun hr).symm.trans hact) (by simp)

theorem condWait_ret (t cond m : Nat) (k : Option Nat) (tv : SchedTimeval) (now : Nat) :
    (condWaitResult (s.privCondWait t cond m k tv now).2).1 = 0 ↔ s.owner m = some t := by
  unfold privCondWait
  by_cases hown : (s.sys.mutex m).pthread = some t
  · simp only [hown, ite_true]
    cases k <;> simp [condWaitResult, owner, hown]
  · simp [hown, condWaitResult, owner]

/-- A piece moves its thread only, and by one of the moves. -/
theorem exec_next {t now : Nat} (h : s.execStep t now = some (s', e)) :
    ∃ pc, s'.pc = update s.pc t pc ∧ s.Next t (s.pc t) pc := by
  cases hs : s.pc t with
  | idle => simp [execStep, hs] at h
  | fresh => simp [execStep, hs] at h
  | check c =>
    simp only [execStep, hs, Option.some.injEq, Prod.mk.injEq] at h
    obtain ⟨rfl, _⟩ := h
    cases hf : s.fault t c with
    | none => exact ⟨_, by simp only [stepCheck, hf]; rfl, .passed hf⟩
    | some f => exact ⟨_, by simp only [stepCheck, hf]; rfl, .refused hf⟩
  | post q =>
    simp only [execStep, hs, Option.some.injEq, stepPost, Prod.mk.injEq] at h
    obtain ⟨rfl, _⟩ := h
    exact ⟨_, rfl, .post⟩
  | scan c =>
    simp only [execStep, hs, Option.some.injEq, Prod.mk.injEq] at h
    obtain ⟨rfl, _⟩ := h
    cases hg : s.sys.sched.schedGetHighestPriorityBlocked c.scanned with
    | some n => exact ⟨_, by simp only [stepScan, hg]; rfl, .found hg⟩
    | none =>
      cases hw : c.waitMutex.isSome with
      | true => exact ⟨_, by simp only [stepScan, hg, hw, ite_true]; rfl, .alone hw⟩
      | false =>
        exact ⟨_, by simp only [stepScan, hg, hw, Bool.false_eq_true, ite_false]; rfl, .nobody hw⟩
  | priv c k =>
    simp only [execStep, hs, Option.some.injEq] at h
    have hs' : s' = (s.stepPriv t c k now).1 := by rw [h]
    obtain ⟨ret, errno, herrno, hpc⟩ := pc_stepPriv (s := s) t c k now
    refine ⟨.resume c ret errno, hs' ▸ hpc, .priv (fun m hm => ?_) herrno⟩
    -- the call returns zero exactly when the thread has the mutex back
    have hret : ∀ cond, s.stepPriv t c k now = s.stepCondWait t c cond m k now →
        (ret = 0 ↔ s.owner m = some t) := by
      intro cond heq
      have hplace := congrFun hpc t
      have hsame : (s.privCondWait t cond m k c.deadline now).1.pc = s.pc := by
        unfold privCondWait
        by_cases hown : (s.sys.mutex m).pthread = some t
        · simp only [hown, ite_true]
          cases k <;> rfl
        · simp [hown]
      rw [heq] at hplace
      simp only [stepCondWait, setPc, hsame, update_self, SyncPc.resume.injEq, true_and] at hplace
      rw [← hplace.1]
      exact condWait_ret t cond m k c.deadline now
    cases c with
    | condWait cond m' =>
      rw [SyncCall.waitMutex, Option.some.injEq] at hm
      subst hm
      exact hret cond rfl
    | condTimedwait cond m' ts =>
      rw [SyncCall.waitMutex, Option.some.injEq] at hm
      subst hm
      exact hret cond rfl
    | _ => simp [SyncCall.waitMutex] at hm
  | resume c ret errno =>
    simp only [execStep, hs, Option.some.injEq] at h
    unfold stepResume at h
    split at h
    · split_ifs at h <;> (obtain ⟨rfl, _⟩ := h; exact ⟨_, rfl, .returned⟩)
    · split_ifs at h <;> (obtain ⟨rfl, _⟩ := h; exact ⟨_, rfl, .returned⟩)
    · split_ifs at h with hsleep
      · obtain ⟨rfl, _⟩ := h
        obtain ⟨rfl, hsleep⟩ := hsleep
        exact ⟨_, rfl, .timedOut hsleep⟩
      · obtain ⟨rfl, _⟩ := h
        exact ⟨_, rfl, .returned⟩
    · obtain ⟨rfl, _⟩ := h
      exact ⟨_, rfl, .returned⟩
  | abort q ts =>
    simp only [execStep, hs, Option.some.injEq, stepAbort, Prod.mk.injEq] at h
    obtain ⟨rfl, _⟩ := h
    exact ⟨_, rfl, .aborted⟩

theorem exec_sysPc {t now : Nat} (h : s.execStep t now = some (s', e)) : s'.sys.pc = s.sys.pc := by
  cases hpc : s.pc t with
  | priv c k =>
    simp only [execStep, hpc, Option.some.injEq] at h
    have hkeep := stepPriv_sysPc (s := s) t c k now
    rw [h] at hkeep
    exact hkeep
  | _ => rw [exec_quiet h (by simp [hpc])]

/-- The place of thread `t` after the action `a`. -/
inductive Place (s : Sync) (a : SyncAction) (t : Nat) : SyncPc → Prop
  | same : (∀ now, a ≠ .exec t now) → Place s a t (s.pc t)
  | called {c : SyncCall} : a = .call t c → s.free t = true → c.typed s.kind = true →
      Place s a t (.check c)
  | moved {now : Nat} {pc : SyncPc} : a = .exec t now → s.sys.canRun t = true →
      s.Next t (s.pc t) pc → Place s a t pc
  | created {t' : Nat} : a = .newThread t' → (s.row t).enabled = false → Place s a t .fresh
  | activated {prio : Int} : a = .activateThread t prio → s.pc t = .fresh → Place s a t .idle

theorem step_place (h : s.step a = some (s', e)) (t : Nat) : s.Place a t (s'.pc t) := by
  cases a with
  | sys b =>
    obtain ⟨e', _, hs', _⟩ := sys_spec h
    rw [show s'.pc = s.pc by rw [hs']]
    exact .same (by simp)
  | call t' c =>
    simp only [step, Option.ite_none_right_eq_some, Bool.and_eq_true, Option.some.injEq,
      Prod.mk.injEq] at h
    obtain ⟨⟨hfree, htyped⟩, rfl, _⟩ := h
    rcases eq_or_ne t t' with rfl | ht
    · rw [show (s.setPc t (.check c)).pc t = .check c from update_self ..]
      exact .called rfl hfree htyped
    · rw [show (s.setPc t' (.check c)).pc t = s.pc t from update_of_ne ht ..]
      exact .same (by simp)
  | exec t' now =>
    obtain ⟨hr, hx⟩ := exec_spec h
    obtain ⟨pc, hpc, hnext⟩ := exec_next hx
    rcases eq_or_ne t t' with rfl | ht
    · rw [hpc, update_self]
      exact .moved rfl hr hnext
    · rw [hpc, update_of_ne ht]
      -- the kernel's own steps, and those of other threads, leave the place
      exact .same (by simp [ht.symm])
  | newThread t' =>
    obtain ⟨sched, id, hnew, _, rfl, _⟩ := newThread_spec h
    rcases eq_or_ne t id with rfl | ht
    · rw [show (({ s.setSched sched with sys.pc := update s.sys.pc t .idle } : Sync).setPc t
        .fresh).pc t = .fresh from update_self ..]
      exact .created rfl (Sched.newTask_spec _ hnew).2.1
    · rw [show (({ s.setSched sched with sys.pc := update s.sys.pc id .idle } : Sync).setPc id
        .fresh).pc t = s.pc t from update_of_ne ht ..]
      exact .same (by simp)
  | activateThread id prio =>
    simp only [step, Option.ite_none_right_eq_some, Bool.and_eq_true, decide_eq_true_eq,
      Option.some.injEq, Prod.mk.injEq] at h
    obtain ⟨⟨_, hfresh⟩, rfl, _⟩ := h
    rcases eq_or_ne t id with rfl | ht
    · rw [show ((s.setSched (s.sys.sched.privActivateThread t prio)).setPc t .idle).pc t = .idle from
        update_self ..]
      exact .activated rfl hfresh
    · rw [show ((s.setSched (s.sys.sched.privActivateThread id prio)).setPc id .idle).pc t = s.pc t
        from update_of_ne ht ..]
      exact .same (by simp)

/-! ### The row of a thread that does not act -/

/-- Only the creation of a thread enables a row. -/
theorem enabled_before {t : Nat} (h : s.step a = some (s', e)) (hen : (s'.row t).enabled = true) :
    (s.row t).enabled = true ∨ s'.pc t = .fresh := by
  rw [SchedTask.enabled_of_noExec (step_row h t)] at hen
  cases a with
  | sys b =>
    left
    cases b with
    | exec t' now =>
      simp only [rowAfter, Sys.rowAfter] at hen
      cases hpc : s.sys.pc t' with
      | priv c =>
        simp only [hpc, Sys.privRow] at hen
        split_ifs at hen <;> exact hen
      | _ =>
        simp only [hpc] at hen
        exact hen
    | cleanup t' =>
      simp only [rowAfter, Sys.rowAfter] at hen
      split_ifs at hen
      · simp [Sched.clearTask] at hen
      · exact hen
    -- a row that is cleared is not enabled
    | stopThreads t' =>
      simp only [rowAfter, Sys.rowAfter] at hen
      split_ifs at hen
      · simp [Sched.clearTask] at hen
      · exact hen
    | _ =>
      simp only [rowAfter, Sys.rowAfter] at hen
      first
      | exact hen
      | split_ifs at hen <;> exact hen
  | call t' c => exact Or.inl hen
  | exec t' now =>
    left
    simp only [rowAfter] at hen
    cases hpc : s.pc t' with
    | priv c k =>
      simp only [hpc] at hen
      -- a privileged call blocks its thread or wakes another, and both leave `enabled`
      cases c <;> simp only [privRow, condWaitRow] at hen <;> first
        | exact hen
        | split_ifs at hen <;> exact hen
    | _ => simpa only [hpc] using hen
  | newThread t' =>
    obtain ⟨sched, id, hnew, _, rfl, _⟩ := newThread_spec h
    simp only [rowAfter, hnew] at hen
    split_ifs at hen with ht
    -- the row that was found free is the one the creation enables
    · right
      rw [ht]
      simp [setPc]
    · exact Or.inl hen
  | activateThread id prio =>
    left
    simp only [rowAfter] at hen
    split_ifs at hen
    · exact hen
    · exact hen

/-- The action is a piece of one of thread `t`'s calls. -/
def actsAs (t : Nat) : SyncAction → Bool
  | .exec t' _ | .sys (.exec t' _) => t == t'
  | _ => false

/-- A thread that does not act keeps its row, is woken, or ends. -/
theorem other_row {t : Nat} (h : s.step a = some (s', e)) (ha : actsAs t a = false)
    (hfresh : s'.pc t ≠ .fresh) :
    s.rowAfter a t = s.row t ∨ (s.rowAfter a t).active = true ∨
      (s.rowAfter a t).enabled = false := by
  cases a with
  | sys b =>
    cases b with
    | exec t' now =>
      simp only [actsAs, beq_eq_false_iff_ne] at ha
      simp only [rowAfter, Sys.rowAfter]
      cases hpc : s.sys.pc t' with
      | priv c =>
        simp only [Sys.privRow]
        split_ifs
        · exact Or.inl rfl
        -- the mutex is handed over to the thread
        · exact Or.inr (Or.inl rfl)
        · exact Or.inl rfl
      | _ => exact Or.inl rfl
    | cleanup t' =>
      simp only [rowAfter, Sys.rowAfter]
      -- the thread ends
      split_ifs
      · exact Or.inr (Or.inr rfl)
      · exact Or.inl rfl
    | stopThreads t' =>
      simp only [rowAfter, Sys.rowAfter]
      split_ifs
      · exact Or.inr (Or.inr rfl)
      · exact Or.inl rfl
    | call t' c => exact Or.inl rfl
    | _ =>
      simp only [rowAfter, Sys.rowAfter]
      split_ifs
      · exact Or.inr (Or.inl rfl)
      · exact Or.inl rfl
  | call t' c => exact Or.inl rfl
  | exec t' now =>
    simp only [actsAs, beq_eq_false_iff_ne] at ha
    simp only [rowAfter]
    cases hpc : s.pc t' with
    | priv c k =>
      cases c with
      | semTrywait q => exact Or.inl rfl
      | condWait cond m =>
        simp only [privRow, condWaitRow, ha, if_false]
        split_ifs
        · exact Or.inr (Or.inl rfl)
        · exact Or.inl rfl
        · exact Or.inl rfl
      | condTimedwait cond m ts =>
        simp only [privRow, condWaitRow, ha, if_false]
        split_ifs
        · exact Or.inr (Or.inl rfl)
        · exact Or.inl rfl
        · exact Or.inl rfl
      -- the thread that blocks is the one that acts
      | semWait q => exact Or.inl (if_neg ha)
      | semTimedwait q ts => exact Or.inl (if_neg fun hcur => ha hcur.1)
      | blockOnMq q ts => exact Or.inl (if_neg ha)
      | _ =>
        simp only [privRow]
        split_ifs
        · exact Or.inr (Or.inl rfl)
        · exact Or.inl rfl
    | _ => exact Or.inl rfl
  | newThread t' =>
    obtain ⟨sched, id, hnew, _, rfl, _⟩ := newThread_spec h
    simp only [rowAfter, hnew]
    split_ifs with ht
    · subst ht
      -- a new thread is fresh
      exact absurd (update_self ..) hfresh
    · exact Or.inl rfl
  | activateThread id prio =>
    simp only [rowAfter]
    split_ifs
    · exact Or.inr (Or.inl rfl)
    · exact Or.inl rfl

/-! ### Good pointers -/

/-- Past the tests of a call its pointers are not null and of the right type. -/
def WellTyped (s : Sync) : Prop := ∀ t, (s.pc t).Good s.kind

theorem kind_stepPriv (t : Nat) (c : SyncCall) (newThread : Option Nat) (now : Nat) :
    (s.stepPriv t c newThread now).1.kind = s.kind := by
  have hwait : ∀ cond m tv, (s.privCondWait t cond m newThread tv now).1.kind = s.kind := by
    intro cond m tv
    unfold privCondWait
    by_cases hown : (s.sys.mutex m).pthread = some t
    · simp only [hown, ite_true]
      cases newThread <;> rfl
    · simp [hown]
  cases c with
  | condWait cond m => exact hwait cond m _
  | condTimedwait cond m ts => exact hwait cond m _
  | condSignal cond => cases newThread <;> rfl
  | condBroadcast cond => rfl
  | semPost q => cases newThread <;> rfl
  | semWait q => rfl
  | semTrywait q =>
    simp only [stepPriv]
    split_ifs <;> rfl
  | semTimedwait q ts =>
    simp only [stepPriv, privSemTimedwait]
    split_ifs <;> rfl
  | blockOnMq q ts => rfl
  | checkForBlockedTask q => cases newThread <;> rfl

theorem step_kind (h : s.step a = some (s', e)) : s'.kind = s.kind := by
  cases a with
  | sys b =>
    obtain ⟨e', _, hs', _⟩ := sys_spec h
    rw [hs']
  | call t c =>
    simp only [step, Option.ite_none_right_eq_some, Option.some.injEq, Prod.mk.injEq] at h
    obtain ⟨_, rfl, _⟩ := h
    rfl
  | exec t now =>
    obtain ⟨_, hx⟩ := exec_spec h
    unfold execStep at hx
    cases hpc : s.pc t with
    | idle => simp [hpc] at hx
    | fresh => simp [hpc] at hx
    | check c =>
      simp only [hpc, Option.some.injEq, Prod.mk.injEq] at hx
      obtain ⟨rfl, _⟩ := hx
      unfold stepCheck
      split <;> rfl
    | post q =>
      simp only [hpc, Option.some.injEq, stepPost, Prod.mk.injEq] at hx
      obtain ⟨rfl, _⟩ := hx
      rfl
    | scan c =>
      simp only [hpc, Option.some.injEq, Prod.mk.injEq] at hx
      obtain ⟨rfl, _⟩ := hx
      unfold stepScan
      split <;> rfl
    | priv c k =>
      simp only [hpc, Option.some.injEq] at hx
      have hkind := kind_stepPriv (s := s) t c k now
      rw [hx] at hkind
      exact hkind
    | resume c ret errno =>
      simp only [hpc, Option.some.injEq] at hx
      unfold stepResume at hx
      split at hx
      all_goals
        first
        | split_ifs at hx
        | skip
      all_goals
        obtain ⟨rfl, _⟩ := hx
        rfl
    | abort q ts =>
      simp only [hpc, Option.some.injEq, stepAbort, Prod.mk.injEq] at hx
      obtain ⟨rfl, _⟩ := hx
      rfl
  | newThread t =>
    obtain ⟨sched, id, _, _, rfl, _⟩ := newThread_spec h
    rfl
  | activateThread id prio =>
    simp only [step, Option.ite_none_right_eq_some, Option.some.injEq, Prod.mk.injEq] at h
    obtain ⟨_, rfl, _⟩ := h
    rfl

/-- The tests of a call pass only on a pointer that is not null, and fail with an error. -/
theorem fault_spec (t : Nat) (c : SyncCall) (hc : c.typed s.kind = true) :
    (s.fault t c = none → c.object ≠ 0) ∧
      ∀ ret errno, s.fault t c = some (ret, errno) → ret ≠ 0 ∧ errno ≠ some .etimedout := by
  constructor
  · intro hf hzero
    cases c <;> simp only [SyncCall.object] at hzero <;> subst hzero
    all_goals simp [fault, condWaitFault, condSignalFault, condBroadcastFault, semFault,
      SyncCall.typed] at hf hc
  · intro ret errno hf
    cases c <;>
      simp only [fault, condWaitFault, condSignalFault, condBroadcastFault, semFault] at hf
    all_goals
      first
      | (split_ifs at hf <;> simp [einvalValue] at hf <;> obtain ⟨rfl, rfl⟩ := hf <;> decide)
      | simp at hf

theorem WellTyped.step (hi : s.WellTyped) (h : s.step a = some (s', e)) : s'.WellTyped := by
  intro t
  rw [step_kind h]
  have hplace := step_place h t
  generalize s'.pc t = after at hplace ⊢
  cases hplace with
  | same => exact hi t
  | called _ _ htyped => exact htyped
  | created => trivial
  | activated => trivial
  | moved _ _ hnext =>
    have hgood := hi t
    generalize s.pc t = before at hnext hgood
    cases hnext with
    | refused hf =>
      obtain ⟨hret, herrno⟩ := (fault_spec t _ hgood).2 _ _ hf
      exact ⟨hgood, fun h0 => absurd h0 hret, herrno⟩
    | @passed c hf =>
      have hobj := (fault_spec t c hgood).1 hf
      cases c with
      | semPost q => simpa [afterCheck, SyncPc.Good, SyncCall.typed, SyncCall.object, hobj] using
          ⟨by simpa [SyncPc.Good, SyncCall.typed, show q ≠ 0 from hobj] using hgood, hobj⟩
      | _ => exact ⟨hgood, hobj⟩
    | post => exact ⟨by simp [SyncCall.typed, hgood.1], hgood.2⟩
    | found => exact hgood
    | alone => exact hgood
    | nobody => exact ⟨hgood.1, fun _ => hgood.2, by simp⟩
    | priv _ herrno => exact ⟨hgood.1, fun _ => hgood.2, herrno⟩
    | returned => trivial
    | @timedOut q ts errno hsleep =>
      have hq : q ≠ 0 := hgood.2.1 rfl
      exact ⟨by simpa [SyncCall.typed, hq] using hgood.1, hq⟩
    | aborted => trivial

/-! ### One call at a time -/

/-- No thread is in a mutex call and in another call. -/
def OneCall (s : Sync) : Prop := ∀ t, s.pc t = .idle ∨ s.sys.pc t = .idle

/-- A thread in a call of one kind begins none of the other. -/
theorem OneCall.step (hi : s.OneCall) (h : s.step a = some (s', e)) : s'.OneCall := by
  intro t
  cases a with
  | sys b =>
    obtain ⟨e', hb, hs', hok, _⟩ := sys_spec h
    rw [show s'.pc = s.pc by rw [hs']]
    rcases hi t with hidle | hidle
    · exact Or.inl hidle
    -- only a call that the thread may make begins in the mutex system
    · cases b with
      | call t' c =>
        simp only [Sys.step, Option.ite_none_right_eq_some, Option.some.injEq, Prod.mk.injEq] at hb
        obtain ⟨_, hs, _⟩ := hb
        simp only [sysAllowed, Bool.and_eq_true, decide_eq_true_eq] at hok
        rcases eq_or_ne t t' with rfl | ht
        · exact Or.inl hok.1
        · right
          rw [← hs]
          exact (update_of_ne ht _ _).trans hidle
      | exec t' now =>
        obtain ⟨_, hx⟩ := Sys.exec_spec hb
        right
        rcases eq_or_ne t t' with rfl | ht
        · simp [Sys.execStep, hidle] at hx
        · obtain ⟨pc, hpc⟩ := Sys.pc_exec hx
          rw [hpc, update_of_ne ht, hidle]
      | matchEvent now =>
        simp only [Sys.step, Option.some.injEq, Prod.mk.injEq] at hb
        exact Or.inr (by rw [← hb.1]; exact hidle)
      | overflowEvent now =>
        simp only [Sys.step, Option.some.injEq, Prod.mk.injEq] at hb
        exact Or.inr (by rw [← hb.1]; exact hidle)
      | _ =>
        simp only [Sys.step, Option.ite_none_right_eq_some, Option.some.injEq, Prod.mk.injEq] at hb
        exact Or.inr (by rw [← hb.2.1]; exact hidle)
  | call t' c =>
    simp only [step, free, Option.ite_none_right_eq_some, Bool.and_eq_true, decide_eq_true_eq,
      Option.some.injEq, Prod.mk.injEq] at h
    obtain ⟨hfree, rfl, _⟩ := h
    rcases eq_or_ne t t' with rfl | ht
    · exact Or.inr hfree.1.2
    · refine (hi t).imp_left fun hidle => ?_
      exact (update_of_ne ht _ _).trans hidle
  | exec t' now =>
    obtain ⟨_, hx⟩ := exec_spec h
    rcases eq_or_ne t t' with rfl | ht
    -- the piece is one of a call, so the mutex system is idle
    · right
      have hsys : s.sys.pc t = .idle := by
        refine (hi t).resolve_left fun hidle => ?_
        simp [execStep, hidle] at hx
      rw [exec_sysPc hx, hsys]
    · obtain ⟨pc, hpc⟩ := pc_exec hx
      rw [hpc, exec_sysPc hx, update_of_ne ht]
      exact hi t
  | newThread t' =>
    obtain ⟨sched, id, _, _, rfl, _⟩ := newThread_spec h
    rcases eq_or_ne t id with rfl | ht
    · exact Or.inr (update_self ..)
    · exact (hi t).imp ((update_of_ne ht _ _).trans ·) ((update_of_ne ht _ _).trans ·)
  | activateThread id prio =>
    simp only [step, Option.ite_none_right_eq_some, Option.some.injEq, Prod.mk.injEq] at h
    obtain ⟨_, rfl, _⟩ := h
    rcases eq_or_ne t id with rfl | ht
    · exact Or.inl (update_self ..)
    · exact (hi t).imp_left ((update_of_ne ht _ _).trans ·)

/-- A thread in a call acts in its own pieces only. -/
theorem actsAs_of_ne_idle {t : Nat} (hone : s.OneCall) (h : s.step a = some (s', e)) (hne : s.pc t ≠ .idle)
    (ha : ∀ now, a ≠ .exec t now) : actsAs t a = false := by
  cases a with
  | exec t' now =>
    refine beq_eq_false_iff_ne.mpr fun ht => ?_
    exact ha now (ht ▸ rfl)
  | sys b =>
    cases b with
    | exec t' now =>
      refine beq_eq_false_iff_ne.mpr fun ht => ?_
      subst ht
      obtain ⟨e', hb, _⟩ := sys_spec h
      obtain ⟨_, hx⟩ := Sys.exec_spec hb
      simp [Sys.execStep, (hone t).resolve_left hne] at hx
    | _ => rfl
  | _ => rfl


/-- The same for the mutex calls. -/
def SysTyped (s : Sync) : Prop := ∀ t, (s.sys.pc t).Good s.kind

theorem good_exec {t now : Nat} {sys : Sys} {e' : Option MutexEvent}
    (h : s.sys.execStep t now = some (sys, e')) (hgood : (s.sys.pc t).Good s.kind) :
    (sys.pc t).Good s.kind := by
  obtain ⟨pc, hpc⟩ := Sys.pc_exec h
  unfold Sys.execStep at h
  cases hs : s.sys.pc t with
  | idle => simp [hs] at h
  | check c =>
    rw [hs] at hgood
    simp only [hs, Option.some.injEq, Prod.mk.injEq] at h
    obtain ⟨rfl, _⟩ := h
    unfold Sys.stepCheck
    split_ifs with hinit
    · simp [Sys.setPc, Pc.Good]
    · simp [Sys.setPc, Pc.Good]
    -- a mutex that is initialized is not the null one
    · have hne : c.mutex ≠ 0 := by
        intro hzero
        simp [Sys.checkInitialized, hzero] at hinit
      simpa [Sys.setPc, Pc.Good, hne] using hgood
  | owner c =>
    rw [hs] at hgood
    simp only [hs, Option.some.injEq, Sys.stepOwner] at h
    split_ifs at h
    all_goals
      obtain ⟨rfl, _⟩ := h
      simp [Sys.setPc, Pc.Good]
    all_goals exact hgood
  | priv c =>
    simp only [hs, Option.some.injEq, Sys.stepPriv] at h
    split_ifs at h
    all_goals
      obtain ⟨rfl, _⟩ := h
      simp [Sys.setPc, Pc.Good]
  | resume c ret errno =>
    simp only [hs, Option.some.injEq, Sys.stepResume, Prod.mk.injEq] at h
    obtain ⟨rfl, _⟩ := h
    simp [Sys.setPc, Pc.Good]

theorem SysTyped.step (hi : s.SysTyped) (h : s.step a = some (s', e)) : s'.SysTyped := by
  intro t
  rw [step_kind h]
  cases a with
  | sys b =>
    obtain ⟨e', hb, _, hok, _⟩ := sys_spec h
    cases b with
    | call t' c =>
      simp only [Sys.step, Option.ite_none_right_eq_some, Option.some.injEq, Prod.mk.injEq] at hb
      obtain ⟨_, hs, _⟩ := hb
      rw [← hs]
      rcases eq_or_ne t t' with rfl | ht
      -- the call is checked against the kind of the object when it is made
      · simpa [Sys.setPc, Pc.Good, sysAllowed] using (by simpa [sysAllowed] using hok : _ ∧ _).2
      · rw [show (s.sys.setPc t' (.check c)).pc t = s.sys.pc t from update_of_ne ht ..]
        exact hi t
    | exec t' now =>
      obtain ⟨_, hx⟩ := Sys.exec_spec hb
      rcases eq_or_ne t t' with rfl | ht
      · exact good_exec hx (hi t)
      · obtain ⟨pc, hpc⟩ := Sys.pc_exec hx
        rw [hpc, update_of_ne ht]
        exact hi t
    | matchEvent now =>
      simp only [Sys.step, Option.some.injEq, Prod.mk.injEq] at hb
      rw [← hb.1]
      exact hi t
    | overflowEvent now =>
      simp only [Sys.step, Option.some.injEq, Prod.mk.injEq] at hb
      rw [← hb.1]
      exact hi t
    | _ =>
      simp only [Sys.step, Option.ite_none_right_eq_some, Option.some.injEq, Prod.mk.injEq] at hb
      rw [← hb.2.1]
      exact hi t
  | call t' c =>
    simp only [Sync.step, Option.ite_none_right_eq_some, Option.some.injEq, Prod.mk.injEq] at h
    obtain ⟨_, rfl, _⟩ := h
    exact hi t
  | exec t' now =>
    obtain ⟨_, hx⟩ := exec_spec h
    rw [exec_sysPc hx]
    exact hi t
  | newThread t' =>
    obtain ⟨sched, id, _, _, rfl, _⟩ := newThread_spec h
    rcases eq_or_ne t id with rfl | ht
    · rw [show (({ s.setSched sched with sys.pc := update s.sys.pc t .idle } : Sync).setPc t
        .fresh).sys.pc t = .idle from update_self ..]
      trivial
    · rw [show (({ s.setSched sched with sys.pc := update s.sys.pc id .idle } : Sync).setPc id
        .fresh).sys.pc t = s.sys.pc t from update_of_ne ht ..]
      exact hi t
  | activateThread id prio =>
    simp only [Sync.step, Option.ite_none_right_eq_some, Option.some.injEq, Prod.mk.injEq] at h
    obtain ⟨_, rfl, _⟩ := h
    exact hi t

end Sync

end CoActionOS
