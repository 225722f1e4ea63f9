import CoActionOS.Lib.Handover
import CoActionOS.Sync.Places

/-!
# Who owns the mutex when a wait on a condition variable returns

`pthread_cond_wait` and `pthread_cond_timedwait` release the mutex and block in one privileged call;
nothing in them takes the mutex again.  `HeldOnReturn` is the contract of these calls; it fails
(`not_heldOnReturn`), and not by accident of a schedule: `notOwner_of_return` shows that a wait that
returns with success or with a time-out never returns to the recorded owner of its mutex.

A waiter could only get the mutex back from a thread that has chosen it as a sleeper on the mutex
before it went to wait.  That thread would itself have to be given the mutex by such a choice, and so
on; `Apart` rules the chain out, because a thread is chosen while it sleeps and chooses while it runs.
-/

namespace CoActionOS

open Function Relation

namespace Sync

/-- Thread `u` is about to release mutex `m` to thread `v`. -/
def Chose (s : Sync) (m u v : Nat) : Prop :=
  ∃ c, s.pc u = .priv c (some v) ∧ c.waitMutex = some m

/-- Thread `t` has released mutex `m` to wait and has not returned yet. -/
def Waits (s : Sync) (m t : Nat) : Prop :=
  ∃ c errno, s.pc t = .resume c 0 errno ∧ c.waitMutex = some m

/-- A start state: every thread is between calls. -/
def Quiet (s : Sync) : Prop := ∀ t, s.pc t = .idle ∧ s.sys.pc t = .idle

structure WaitInv (s : Sync) : Prop where
  one : s.OneCall
  typed : s.WellTyped
  sysTyped : s.SysTyped
  apart : ∀ m, Apart (s.Chose m) (s.owner m) (s.Waits m)
  /-- A thread about to make a privileged call is awake or dead. -/
  awake : ∀ u c k, s.pc u = .priv c k → (s.row u).enabled = true → (s.row u).active = true
  /-- A waiter that sleeps sleeps on a condition variable. -/
  asleep : ∀ m t, s.Waits m t → (s.row t).enabled = true → (s.row t).active = false →
    s.kind (s.row t).blockObject = .cond

variable {s s' : Sync} {a : SyncAction} {e : Option SyncEvent}

theorem Quiet.waitInv (h : s.Quiet) : s.WaitInv where
  one t := Or.inl (h t).1
  typed t := by
    rw [(h t).1]
    trivial
  sysTyped t := by
    rw [(h t).2]
    trivial
  apart m := by
    have hno : ∀ u v, ¬s.Chose m u v := by
      rintro u v ⟨c, hc, _⟩
      rw [(h u).1] at hc
      exact absurd hc (by simp)
    refine ⟨fun x hx => ?_, ?_⟩
    · obtain ⟨y, hy, _⟩ := TransGen.head'_iff.mp hx
      exact hno x y hy
    · rintro w t _ ⟨c, errno, hc, _⟩
      rw [(h t).1] at hc
      exact absurd hc (by simp)
  awake u c k hpc := by
    rw [(h u).1] at hpc
    exact absurd hpc (by simp)
  asleep m t := by
    rintro ⟨c, errno, hc, _⟩
    rw [(h t).1] at hc
    exact absurd hc (by simp)

/-! ### One step -/

/-- A sleeper on a mutex has chosen nobody and waits for no condition variable. -/
theorem WaitInv.sleeper (hi : s.WaitInv) {m v : Nat} (hen : (s.row v).enabled = true)
    (hact : (s.row v).active = false) (hkind : s.kind (s.row v).blockObject = .mutex) :
    (∀ y, ¬s.Chose m v y) ∧ ¬s.Waits m v := by
  refine ⟨?_, fun hwaits => ?_⟩
  · rintro y ⟨c, hpc, _⟩
    rw [hi.awake v c (some y) hpc hen] at hact
    exact absurd hact (by simp)
  · rw [hi.asleep m v hwaits hen hact] at hkind
    exact absurd hkind (by simp)

/-- A thread that does not act chooses and waits as before. -/
theorem place_of_other {t : Nat} {pc : SyncPc} (h : s.step a = some (s', e)) (hpc : s'.pc t = pc)
    (hmid : (∃ c k, pc = .priv c k) ∨ ∃ c ret errno, pc = .resume c ret errno) :
    (s.pc t = pc ∧ ∀ now, a ≠ .exec t now) ∨
      ∃ now, a = .exec t now ∧ s.sys.canRun t = true ∧ s.Next t (s.pc t) pc := by
  have hplace := step_place h t
  rw [hpc] at hplace
  cases hplace with
  | same hne => exact Or.inl ⟨rfl, hne⟩
  | called _ _ _ => simp at hmid
  | moved ha hr hnext => exact Or.inr ⟨_, ha, hr, hnext⟩
  | created _ _ => simp at hmid
  | activated _ _ => simp at hmid

theorem chose_before {m u v : Nat} (h : s.step a = some (s', e)) (hchose : s'.Chose m u v) :
    s.Chose m u v ∨ ∃ now c, a = .exec u now ∧ s.pc u = .scan c ∧ c.waitMutex = some m ∧
      s.sys.canRun u = true ∧ s.sys.sched.schedGetHighestPriorityBlocked c.scanned = some v := by
  obtain ⟨c, hpc, hm⟩ := hchose
  rcases place_of_other h hpc (Or.inl ⟨_, _, rfl⟩) with ⟨hpc', _⟩ | ⟨now, ha, hr, hnext⟩
  · exact Or.inl ⟨c, hpc', hm⟩
  · right
    generalize hs : s.pc u = before at hnext
    generalize hafter : SyncPc.priv c (some v) = after at hnext
    cases hnext with
    | passed => cases ‹SyncCall› <;> simp [afterCheck] at hafter
    | found hk =>
      simp only [SyncPc.priv.injEq, Option.some.injEq] at hafter
      obtain ⟨rfl, rfl⟩ := hafter
      exact ⟨now, c, ha, rfl, hm, hr, hk⟩
    | _ => simp at hafter

theorem waits_before (hi : s.WaitInv) {m t : Nat} (h : s.step a = some (s', e))
    (hwaits : s'.Waits m t) :
    (s.Waits m t ∧ ∀ now, a ≠ .exec t now) ∨ ∃ now c k, a = .exec t now ∧ s.pc t = .priv c k ∧
      c.waitMutex = some m ∧ s.owner m = some t := by
  obtain ⟨c, errno, hpc, hm⟩ := hwaits
  rcases place_of_other h hpc (Or.inr ⟨_, _, _, rfl⟩) with ⟨hpc', hne⟩ | ⟨now, ha, hr, hnext⟩
  · exact Or.inl ⟨⟨c, errno, hpc', hm⟩, hne⟩
  · right
    have hgood := hi.typed t
    generalize hs : s.pc t = before at hnext hgood
    generalize hafter : SyncPc.resume c 0 errno = after at hnext
    cases hnext with
    | refused hf =>
      simp only [SyncPc.resume.injEq] at hafter
      obtain ⟨rfl, rfl, rfl⟩ := hafter
      exact absurd rfl ((fault_spec t c hgood).2 _ _ hf).1
    | nobody hnone =>
      simp only [SyncPc.resume.injEq] at hafter
      obtain ⟨rfl, _, _⟩ := hafter
      rw [hm] at hnone
      exact absurd hnone (by simp)
    | priv hret =>
      simp only [SyncPc.resume.injEq] at hafter
      obtain ⟨rfl, rfl, rfl⟩ := hafter
      exact ⟨now, c, _, ha, rfl, hm, (hret m hm).mp rfl⟩
    | passed => cases ‹SyncCall› <;> simp [afterCheck] at hafter
    | _ => simp at hafter

theorem WaitInv.step_awake (hi : s.WaitInv) (h : s.step a = some (s', e)) {u : Nat} {c : SyncCall}
    {k : Option Nat} (hpc : s'.pc u = .priv c k) (hen : (s'.row u).enabled = true) :
    (s'.row u).active = true := by
  rw [SchedTask.active_of_noExec (step_row h u)]
  have hfresh : s'.pc u ≠ .fresh := by
    rw [hpc]
    simp
  rcases place_of_other h hpc (Or.inl ⟨_, _, rfl⟩) with ⟨hpc', hne⟩ | ⟨now, rfl, hr, hnext⟩
  · have hact := hi.awake u c k hpc' ((enabled_before h hen).resolve_right hfresh)
    have hother : actsAs u a = false := actsAs_of_ne_idle hi.one h (by rw [hpc']; simp) hne
    rcases other_row h hother hfresh with heq | hact' | hdead
    · rw [heq]
      exact hact
    · exact hact'
    · rw [SchedTask.enabled_of_noExec (step_row h u), hdead] at hen
      exact absurd hen (by simp)
  · -- the thread has just found its sleeper, and runs
    have hrow : s.rowAfter (.exec u now) u = s.row u := by
      simp only [rowAfter]
      cases hs : s.pc u with
      | priv c' k' =>
        rw [hs] at hnext
        exact absurd hnext (by rintro ⟨⟩)
      | _ => rfl
    rw [hrow]
    exact active_of_canRun hr

theorem kinds_of_wait {c : SyncCall} {m : Nat} (htyped : c.typed s.kind = true) (hobj : c.object ≠ 0)
    (hm : c.waitMutex = some m) : s.kind c.object = .cond ∧ s.kind m = .mutex := by
  cases c <;> simp_all [SyncCall.typed, SyncCall.object, SyncCall.waitMutex]

theorem blockObject_condWaitRow {t m : Nat} (hown : s.owner m = some t) (cond : Nat)
    (k : Option Nat) (tv : SchedTimeval) (now : Nat) :
    (s.condWaitRow t cond m k tv now t).blockObject = cond := by
  simp [condWaitRow, hown, SchedTask.timedblocked]

theorem WaitInv.step_asleep (hi : s.WaitInv) (h : s.step a = some (s', e)) {m t : Nat}
    (hwaits : s'.Waits m t) (hen : (s'.row t).enabled = true) (hact : (s'.row t).active = false) :
    s'.kind (s'.row t).blockObject = .cond := by
  rw [step_kind h, SchedTask.blockObject_of_noExec (step_row h t)]
  rw [SchedTask.active_of_noExec (step_row h t)] at hact
  have hfresh : s'.pc t ≠ .fresh := by
    obtain ⟨c, errno, hpc, _⟩ := hwaits
    rw [hpc]
    simp
  rcases waits_before hi h hwaits with ⟨hbefore, hne⟩ | ⟨now, c, k, rfl, hpc, hm, hown⟩
  · have hen' := (enabled_before h hen).resolve_right hfresh
    have hother : actsAs t a = false := by
      obtain ⟨c, errno, hpc, _⟩ := hbefore
      exact actsAs_of_ne_idle hi.one h (by rw [hpc]; simp) hne
    rcases other_row h hother hfresh with heq | hact' | hdead
    · rw [heq] at hact ⊢
      exact hi.asleep m t hbefore hen' hact
    · rw [hact'] at hact
      exact absurd hact (by simp)
    · rw [SchedTask.enabled_of_noExec (step_row h t), hdead] at hen
      exact absurd hen (by simp)
  · have hgood := hi.typed t
    rw [hpc] at hgood
    have hkind := (kinds_of_wait hgood.1 hgood.2 hm).1
    -- the thread has just begun to wait, on the object of the call
    cases c with
    | condWait cond m' =>
      rw [SyncCall.waitMutex, Option.some.injEq] at hm
      subst hm
      simp only [rowAfter, hpc, privRow]
      rw [blockObject_condWaitRow hown]
      exact hkind
    | condTimedwait cond m' ts =>
      rw [SyncCall.waitMutex, Option.some.injEq] at hm
      subst hm
      simp only [rowAfter, hpc, privRow]
      rw [blockObject_condWaitRow hown]
      exact hkind
    | _ => simp [SyncCall.waitMutex] at hm

/-- Only a thread's own piece makes a choice. -/
theorem chose_of_ne_exec (h : s.step a = some (s', e)) {m : Nat} (hne : ∀ t now, a ≠ .exec t now) {x y : Nat}
    (hxy : s'.Chose m x y) : s.Chose m x y := by
  refine (chose_before h hxy).resolve_right ?_
  rintro ⟨now, c, ha, _⟩
  exact hne x now ha

theorem WaitInv.waits_of_ne_exec (hi : s.WaitInv) (h : s.step a = some (s', e)) {m : Nat} (hne : ∀ t now, a ≠ .exec t now)
    {x : Nat} (hx : s'.Waits m x) : s.Waits m x := by
  rcases waits_before hi h hx with ⟨hbefore, _⟩ | ⟨now, c, k, ha, _⟩
  · exact hbefore
  · exact absurd ha (hne x now)

/-- A thread that is not about to scan makes no choice. -/
theorem chose_of_exec {t now : Nat} (h : s.step (.exec t now) = some (s', e)) {m : Nat} (hpc : ∀ c, s.pc t ≠ .scan c)
    {x y : Nat} (hxy : s'.Chose m x y) : s.Chose m x y := by
  refine (chose_before h hxy).resolve_right ?_
  rintro ⟨now', c', ha, hs, _⟩
  simp only [SyncAction.exec.injEq] at ha
  rw [← ha.1] at hs
  exact hpc c' hs

/-- A thread that is not in the privileged call does not begin to wait. -/
theorem WaitInv.waits_of_exec (hi : s.WaitInv) {t now : Nat} (h : s.step (.exec t now) = some (s', e)) {m : Nat}
    (hpc : ∀ c k, s.pc t ≠ .priv c k) {x : Nat} (hw : s'.Waits m x) : s.Waits m x := by
  rcases waits_before hi h hw with ⟨hbefore, _⟩ | ⟨now', c', k', ha, hs, _⟩
  · exact hbefore
  · simp only [SyncAction.exec.injEq] at ha
    rw [← ha.1] at hs
    exact absurd hs (hpc c' k')

/-- A thread in a mutex call takes the mutex or hands it on. -/
theorem WaitInv.step_apart_sys (hi : s.WaitInv) {t now : Nat} (h : s.step (.sys (.exec t now)) = some (s', e)) (m : Nat) :
    Apart (s'.Chose m) (s.ownerAfter (.sys (.exec t now)) m) (s'.Waits m) := by
  have hnext : ∀ x y, s'.Chose m x y → s.Chose m x y := fun x y => chose_of_ne_exec h (by simp)
  have hgone : ∀ x, s'.Waits m x → s.Waits m x := fun x => hi.waits_of_ne_exec h (by simp)
  obtain ⟨e', hb, _⟩ := sys_spec h
  obtain ⟨hr, hx⟩ := Sys.exec_spec hb
  simp only [ownerAfter, Sys.ownerAfter]
  cases hpc : s.sys.pc t with
  | priv c =>
    simp only
    have hidle : s.pc t = .idle := (hi.one t).resolve_right (by rw [hpc]; simp)
    split_ifs with hm hacq hfree
    · -- the mutex is taken by a thread in a mutex call
      refine (hi.apart m).take ?_ ?_ hnext hgone
      · rintro y ⟨c', hc', _⟩
        rw [hidle] at hc'
        exact absurd hc' (by simp)
      · rintro ⟨c', errno, hc', _⟩
        rw [hidle] at hc'
        exact absurd hc' (by simp)
    · exact (hi.apart m).mono hnext hgone
    · -- it is handed to a thread that sleeps on it, if there is one
      cases hheir : s.sys.unlockHeir t m with
      | none => exact (hi.apart m).free hnext
      | some v =>
        obtain ⟨_, hen, hact, hobj⟩ := Sys.unlockHeir_spec hheir
        have hgood := hi.sysTyped t
        rw [hpc] at hgood
        have hkind : s.kind (s.row v).blockObject = .mutex := by
          rw [show (s.row v).blockObject = m from hobj (ne_of_canRun hr hact), ← hm]
          exact hgood.2
        obtain ⟨hsink, hwaits⟩ := hi.sleeper hen hact hkind
        exact (hi.apart m).take hsink hwaits hnext hgone
    · exact (hi.apart m).mono hnext hgone
  | _ => exact (hi.apart m).mono hnext hgone

/-- A thread that begins to wait gives its mutex to the one it has chosen. -/
theorem WaitInv.step_apart_priv (hi : s.WaitInv) {t now : Nat} (h : s.step (.exec t now) = some (s', e)) (m : Nat)
    {c : SyncCall} {k : Option Nat} (hpc : s.pc t = .priv c k) :
    Apart (s'.Chose m) (s.ownerAfter (.exec t now) m) (s'.Waits m) := by
  have hnext : ∀ x y, s'.Chose m x y → s.Chose m x y := fun x y => chose_of_exec h (by rw [hpc]; simp)
  simp only [ownerAfter, hpc]
  split_ifs with hrel
  · obtain ⟨hm, hown⟩ := hrel
    have hgone : ∀ x, s'.Waits m x → s.Waits m x ∨ x = t := by
      intro x hw
      rcases waits_before hi h hw with ⟨hbefore, _⟩ | ⟨now', c', k', ha, _⟩
      · exact Or.inl hbefore
      · simp only [SyncAction.exec.injEq] at ha
        exact Or.inr ha.1.symm
    have happart := hi.apart m
    rw [hown] at happart
    cases k with
    | none => exact happart.free hnext
    | some v => exact happart.pass ⟨c, hpc, hm⟩ hnext hgone
  · refine (hi.apart m).mono hnext fun x hw => ?_
    rcases waits_before hi h hw with ⟨hbefore, _⟩ | ⟨now', c', k', ha, hs, hm, hown⟩
    · exact hbefore
    · simp only [SyncAction.exec.injEq] at ha
      obtain ⟨rfl, _⟩ := ha
      rw [hpc, SyncPc.priv.injEq] at hs
      obtain ⟨rfl, _⟩ := hs
      exact absurd ⟨hm, hown⟩ hrel

/-- The scan chooses a thread that sleeps on the mutex. -/
theorem WaitInv.step_apart_scan (hi : s.WaitInv) {t now : Nat} (h : s.step (.exec t now) = some (s', e)) (m : Nat)
    {c : SyncCall} (hpc : s.pc t = .scan c) : Apart (s'.Chose m) (s.owner m) (s'.Waits m) := by
  obtain ⟨hr, hx⟩ := exec_spec h
  have hgone : ∀ x, s'.Waits m x → s.Waits m x := fun x => hi.waits_of_exec h (by rw [hpc]; simp)
  have hchose : ∀ x y, s'.Chose m x y → s.Chose m x y ∨ x = t ∧ c.waitMutex = some m ∧
      s.sys.sched.schedGetHighestPriorityBlocked c.scanned = some y := by
    intro x y hxy
    rcases chose_before h hxy with hbefore | ⟨now', c', ha, hs, hm, _, hk'⟩
    · exact Or.inl hbefore
    · simp only [SyncAction.exec.injEq] at ha
      obtain ⟨rfl, _⟩ := ha
      rw [hpc, SyncPc.scan.injEq] at hs
      subst hs
      exact Or.inr ⟨rfl, hm, hk'⟩
  by_cases hfound : ∃ v, c.waitMutex = some m ∧ s.sys.sched.schedGetHighestPriorityBlocked c.scanned = some v
  · obtain ⟨v, hm, hk⟩ := hfound
    obtain ⟨_, hen, hobj, hact⟩ := Sched.getHighestPriorityBlocked_spec _ hk
    have hscanned : c.scanned = m := by
      cases c <;> simp_all [SyncCall.waitMutex, SyncCall.scanned]
    have hgood := hi.typed t
    rw [hpc] at hgood
    have hkind : s.kind (s.row v).blockObject = .mutex := by
      rw [show (s.row v).blockObject = m from hobj.trans hscanned]
      exact (kinds_of_wait hgood.1 hgood.2 hm).2
    obtain ⟨hsink, hwaits⟩ := hi.sleeper hen hact hkind
    refine (hi.apart m).choose hsink (Ne.symm (ne_of_canRun hr hact)) hwaits (fun x y hxy => ?_) hgone
    rcases hchose x y hxy with hbefore | ⟨hx, _, hk'⟩
    · exact Or.inl hbefore
    · rw [hk, Option.some.injEq] at hk'
      exact Or.inr ⟨hx, hk'.symm⟩
  · refine (hi.apart m).mono (fun x y hxy => ?_) hgone
    rcases hchose x y hxy with hbefore | ⟨_, hm, hk'⟩
    · exact hbefore
    · exact absurd ⟨y, hm, hk'⟩ hfound

theorem WaitInv.step_apart (hi : s.WaitInv) (h : s.step a = some (s', e)) (m : Nat) :
    Apart (s'.Chose m) (s'.owner m) (s'.Waits m) := by
  rw [step_owner h]
  -- everything but a thread's own piece leaves the choices and the waiters alone
  have hrest : (∀ t now, a ≠ .exec t now) → Apart (s'.Chose m) (s.owner m) (s'.Waits m) := fun hne =>
    (hi.apart m).mono (fun _ _ => chose_of_ne_exec h hne) fun _ => hi.waits_of_ne_exec h hne
  cases a with
  | sys b =>
    cases b with
    | exec t now => exact hi.step_apart_sys h m
    | _ => exact hrest (by simp)
  | call t c => exact hrest (by simp)
  | newThread t => exact hrest (by simp)
  | activateThread id prio => exact hrest (by simp)
  | exec t now =>
    cases hpc : s.pc t with
    | priv c k => exact hi.step_apart_priv h m hpc
    | scan c =>
      simp only [ownerAfter, hpc]
      exact hi.step_apart_scan h m hpc
    | _ =>
      simp only [ownerAfter, hpc]
      exact (hi.apart m).mono (fun _ _ => chose_of_exec h (by rw [hpc]; simp)) fun _ =>
        hi.waits_of_exec h (by rw [hpc]; simp)

theorem WaitInv.step (hi : s.WaitInv) (h : s.step a = some (s', e)) : s'.WaitInv where
  one := hi.one.step h
  typed := hi.typed.step h
  sysTyped := hi.sysTyped.step h
  apart := hi.step_apart h
  awake _ _ _ hpc hen := hi.step_awake h hpc hen
  asleep _ _ hwaits hen hact := hi.step_asleep h hwaits hen hact

/-! ### Runs -/

theorem waitInv_run {s₀ : Sync} {es : List SyncEvent} {ok : Sync → SyncAction → Prop}
    (h0 : s₀.Quiet) (hrun : Run Sync.step ok s₀ es s) : s.WaitInv :=
  hrun.invariant (fun _ (s : Sync) => s.WaitInv) h0.waitInv fun _ _ _ _ _ hi _ hs => hi.step hs

/-- Only the last piece of a wait returns, and it touches no mutex. -/
theorem wait_returned {t m : Nat} {c : SyncCall} {ret : Int} {errno : Option Errno}
    (h : s.step a = some (s', some (.returned t c ret errno))) (hm : c.waitMutex = some m) :
    s'.sys = s.sys ∧ ∃ r err, s.pc t = .resume c r err ∧
      (r = 0 ∨ (ret = r ∧ errno = err)) := by
  cases a with
  | sys b =>
    obtain ⟨e', _, _, _, he⟩ := sys_spec h
    cases b <;> cases e' <;> simp [sysEvent] at he
  | call t' c' => simp [Sync.step] at h
  | exec t' now =>
    obtain ⟨_, hx⟩ := exec_spec h
    cases hs : s.pc t' with
    | resume c' r err =>
      refine ⟨exec_quiet hx (by simp [hs]), r, err, ?_⟩
      simp only [execStep, hs, Option.some.injEq] at hx
      have hev := congrArg Prod.snd hx
      unfold stepResume at hev
      split at hev
      all_goals
        first
        | split_ifs at hev with hsleep
        | skip
      all_goals simp only [Option.some.injEq, SyncEvent.returned.injEq] at hev
      all_goals obtain ⟨rfl, rfl, rfl, rfl⟩ := hev
      all_goals
        first
        | exact ⟨hs, Or.inl hsleep.1⟩
        | exact ⟨hs, Or.inr ⟨rfl, rfl⟩⟩
    | abort q ts =>
      simp only [execStep, hs, stepAbort, Option.some.injEq, Prod.mk.injEq,
        SyncEvent.returned.injEq] at hx
      obtain ⟨_, _, rfl, _⟩ := hx
      simp [SyncCall.waitMutex] at hm
    | priv c' k =>
      simp only [execStep, hs, Option.some.injEq] at hx
      have hev := congrArg Prod.snd hx
      cases c' <;> cases k <;> simp only [stepPriv, stepCondWait, Option.map] at hev
      all_goals
        first
        | split_ifs at hev
        | skip
      all_goals simp at hev
    | _ => simp [execStep, hs, stepPost] at hx
  | newThread t' =>
    obtain ⟨_, _, _, _, _, he⟩ := newThread_spec h
    exact absurd he (by simp)
  | activateThread id prio => simp [Sync.step] at h

end Sync

/-- The contract: a wait that returns with success or with a time-out returns to the owner of its
mutex. -/
def HeldOnReturn : Prop :=
  ∀ (s₀ s s' : Sync) (es : List SyncEvent) (a : SyncAction) (t m : Nat) (c : SyncCall) (ret : Int)
    (errno : Option Errno), s₀.Quiet → Run Sync.step (fun _ _ => True) s₀ es s →
    s.step a = some (s', some (.returned t c ret errno)) → c.waitMutex = some m →
    ret = 0 ∨ (ret = -1 ∧ errno = some .etimedout) → s'.owner m = some t

/-- In every run, a wait that returns with success or with a time-out does not return to the owner. -/
theorem notOwner_of_return (s₀ s s' : Sync) (es : List SyncEvent) (a : SyncAction) (t m : Nat)
    (c : SyncCall) (ret : Int) (errno : Option Errno) (h0 : s₀.Quiet)
    (hrun : Run Sync.step (fun _ _ => True) s₀ es s)
    (h : s.step a = some (s', some (.returned t c ret errno))) (hm : c.waitMutex = some m)
    (hret : ret = 0 ∨ (ret = -1 ∧ errno = some .etimedout)) : s'.owner m ≠ some t := by
  have hi := Sync.waitInv_run h0 hrun
  obtain ⟨hsys, r, err, hpc, hcases⟩ := Sync.wait_returned h hm
  have hwaits : s.Waits m t := by
    rcases hcases with rfl | ⟨rfl, rfl⟩
    · exact ⟨c, err, hpc, hm⟩
    · rcases hret with rfl | ⟨_, rfl⟩
      · exact ⟨c, errno, hpc, hm⟩
      · have hgood := hi.typed t
        rw [hpc] at hgood
        exact absurd rfl hgood.2.2
  intro hown
  have hown' : s.owner m = some t := by
    rw [Sync.owner, ← hsys]
    exact hown
  exact (hi.apart m).unreachable t t hown' hwaits .refl

/-- Thread `1` locks the mutex and waits; thread `2` signals. -/
def waitAndSignal : List SyncAction :=
  [.sys (.call 1 (.lock 64)), .sys (.exec 1 0), .sys (.exec 1 0), .sys (.exec 1 0), .sys (.exec 1 0),
    .call 1 (.condWait 72 64), .exec 1 0, .exec 1 0, .exec 1 0,
    .call 2 (.condSignal 72), .exec 2 0, .exec 2 0, .exec 2 0]

theorem notOwner_waitAndSignal : ∃ s s' es,
    Run Sync.step (fun _ _ => True) (Sync.start 3 (fun _ => 0) (fun _ => 0) 0) es s ∧
      s.step (.exec 1 0) = some (s', some (.returned 1 (.condWait 72 64) 0 none)) ∧
      s'.owner 64 ≠ some 1 := by
  obtain ⟨s, s', es, hs, hs'⟩ : ∃ s s' es,
      Run.replay Sync.step (Sync.start 3 (fun _ => 0) (fun _ => 0) 0) waitAndSignal = some (s, es) ∧
        s.step (.exec 1 0) = some (s', some (.returned 1 (.condWait 72 64) 0 none)) :=
    ⟨_, _, _, rfl, rfl⟩
  have hrun := Run.of_replay hs (Run.allOk_true _ _)
  exact ⟨s, s', es, hrun, hs', notOwner_of_return _ s s' es _ 1 64 _ 0 none (fun _ => ⟨rfl, rfl⟩)
    hrun hs' rfl (Or.inl rfl)⟩

theorem not_heldOnReturn : ¬HeldOnReturn := by
  intro h
  obtain ⟨s, s', es, hs, hs', hown⟩ : ∃ s s' es,
      Run.replay Sync.step (Sync.start 3 (fun _ => 0) (fun _ => 0) 0) waitAndSignal = some (s, es) ∧
        s.step (.exec 1 0) = some (s', some (.returned 1 (.condWait 72 64) 0 none)) ∧
        s'.owner 64 = none := ⟨_, _, _, rfl, rfl, rfl⟩
  have howner := h _ s s' es _ 1 64 _ 0 none (fun _ => ⟨rfl, rfl⟩)
    (Run.of_replay hs (Run.allOk_true _ _)) hs' rfl (Or.inl rfl)
  rw [hown] at howner
  exact absurd howner (by simp)

end CoActionOS
