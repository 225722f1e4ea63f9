import CoActionOS.Process.Wait

/-!
# Every child is reported once

That a process has no child to wait for is found out only after it has slept, and not at all while a row of which it was
the parent has not been taken again.  The row of the parent is looked up when the child ends and when the parent waits,
by when it may be another's; the pid of the child is looked up when its row has been freed.  A process that is
terminated while it exits, or whose parent cannot be sent `SIGCHLD`, leaves no zombie.

`Careful` are the steps at which none of this happens.  In a run of such steps `waitpid` reports every child of the
calling process with its status, once, and no status is lost while the parent lives (`reports_of_careful`).
-/

namespace CoActionOS

namespace Process

open Function

/-! ### The statement -/

/-- In `_exit`. -/
def Pc.Exiting : Pc → Prop
  | .stopped _ | .sending .. | .ended _ => True
  | _ => False

/-- In a call of `waitpid` that has found no zombie. -/
def Pc.Blocking : Pc → Prop
  | .waiting _ | .asleep .. => True
  | _ => False

/-- The row that a call of `waitpid` is going to read the pid of. -/
def Pc.found : Pc → Option Nat
  | .got _ tid _ => some tid
  | _ => none

/-- The row, the process and the flag of a loop that sends `SIGCHLD`. -/
def Pc.loop : Pc → Option (Nat × Nat × Bool)
  | .sending i parent sent => some (i, parent, sent)
  | _ => none

def Event.reported : Event → Option Nat
  | .waited _ _ pid _ => some pid
  | .refused .. => none

namespace System

variable (s : System)

/-- A thread of the process is there, and has not called `_exit`. -/
def Lives (p : Nat) : Prop :=
  ∃ i < s.sched.total, (s.sched.table i).enabled = true ∧ s.pid i = p ∧ s.zombie i = false

instance (p : Nat) : Decidable (s.Lives p) := inferInstanceAs (Decidable (∃ i < s.sched.total, _ ∧ _ ∧ _))

/-- A call of the parent finds the status in the table. -/
structure Waiting (pid : Nat) (status : BitVec 32) (i : Nat) : Prop where
  mem : i ∈ s.sched.ids
  enabled : (s.sched.table i).enabled = true
  zombie : s.zombie i = true
  parent : s.pid (s.parent i) = s.parentOf pid
  pid : s.pid i = pid
  exitStatus : s.exitStatus i = status

/-- A call of the parent is about to return the status. -/
structure Held (pid : Nat) (status : BitVec 32) (t : Nat) : Prop where
  caller : s.pid t = s.parentOf pid
  call : ∃ req i, s.pc t = .got req i status ∧ s.pid i = pid

/-- What `waitpid` has returned are children of the caller that have ended, with their status, that it was called for,
and each is returned once; the status of a process whose parent lives and did not ignore `SIGCHLD` has been returned or
is still to be; and a call without a child to wait for does not block and returns `-1` with `ECHILD`. -/
structure Reports (es : List Event) : Prop where
  waited : ∀ caller req pid status, Event.waited caller req pid status ∈ es →
    s.parentOf pid = caller ∧ s.exited pid = some status ∧ (req = -1 ∨ req = pid)
  once : (es.filterMap Event.reported).Nodup
  kept : ∀ pid status, s.exited pid = some status → s.waived pid = false → s.Lives (s.parentOf pid) →
    (∃ i, s.Waiting pid status i) ∨ (∃ t, s.Held pid status t) ∨
      ∃ caller req, Event.waited caller req pid status ∈ es
  blocking : ∀ t, s.hopeless t = true → ¬ (s.pc t).Blocking
  refused : ∀ errno, Event.refused true errno ∈ es → errno = some .echild

/-- The row that the next task takes is not recorded as the parent of a task of another process than `pid`, and its pid
is not one that a call of `waitpid` is about to return. -/
def Free (pid : Nat) : Prop :=
  ∀ p ∈ s.sched.taskPrivNewTask pid,
    (∀ i ∈ s.sched.ids, (s.sched.table i).enabled = true → s.parent i = p.2 → s.pid p.2 = pid) ∧
      ∀ t ∈ s.sched.ids, (s.pc t).found ≠ some p.2

/-- The steps that keep the reports: `waitpid` is called when there is a child to wait for; a process exits once, and is
not a child of process `0`; its parent has been sent `SIGCHLD` if it lives; and a row is taken when it is free. -/
def Careful : Action → Prop
  | .waitpid t pid _ => s.HasChild t pid
  | .exit t _ => s.zombie t = false ∧ s.pid (s.parent t) ≠ 0
  | .sendNext t _ => ∀ p ∈ (s.pc t).loop, s.sched.total ≤ p.1 → p.2.2 = true ∨ ¬ s.Lives p.2.1
  | .newProcess _ => s.Free s.counter
  | .newThread t => s.Free (s.pid t)
  | _ => True

instance (pid : Nat) : Decidable (s.Free pid) := inferInstanceAs (Decidable (∀ p ∈ s.sched.taskPrivNewTask pid, _ ∧ _))

instance : DecidablePred s.Careful
  | .waitpid _ _ _ | .exit _ _ | .sendNext _ _ | .newProcess _ | .newThread _ => by
    unfold Careful
    infer_instance
  | .privWaitChild _ | .waitTest _ | .waitReturn _ | .afterClose _ | .privZombieProcess _ | .activate _ _
  | .threadEnd _ | .signal _ | .caught _ | .ignore _ _ | .wake _ _ => isTrue trivial

/-- Nobody has called `waitpid` or `_exit` yet; process `0` has row `0`, and every other task a parent. -/
structure Initial : Prop where
  zero : s.pid 0 = 0 ∧ s.parent 0 = 0 ∧ s.parentOf 0 = 0
  pids : ∀ i, s.pid i < s.counter
  pc : ∀ i, (s.pc i = .gone ∧ (s.sched.table i).enabled = false) ∨ (s.pc i = .idle ∧ (s.sched.table i).enabled = true)
  linked : ∀ i ∈ s.sched.ids, (s.sched.table i).enabled = true → s.parentOf (s.pid i) = s.pid (s.parent i)
  zombie : ∀ i, s.zombie i = false
  exited : ∀ p, s.exited p = none
  fate : ∀ p, s.fate p = .running
  hopeless : ∀ t, s.hopeless t = false

end System

/-! ### The invariant -/

/-- In `_exit` and not going to stay a zombie. -/
def Pc.Doomed : Pc → Prop
  | .stopped false | .ended false => True
  | _ => False

/-- A place that is neither that of a deleted task nor in a call that has found a zombie. -/
def Pc.Plain : Pc → Prop
  | .gone | .got .. => False
  | _ => True

theorem Pc.Plain.ne_gone {pc : Pc} (h : pc.Plain) : pc ≠ .gone := by
  rintro rfl
  exact h

theorem Pc.Plain.ne_got {pc : Pc} (h : pc.Plain) (req : Int) (i : Nat) (status : BitVec 32) :
    pc ≠ .got req i status := by
  rintro rfl
  exact h

theorem Pc.Doomed.exiting {pc : Pc} (h : pc.Doomed) : pc.Exiting := by
  unfold Pc.Doomed at h
  split at h <;> trivial

namespace System

section

variable (s : System)

/-- What a call knows of the zombie it has found. -/
structure GotOk (t : Nat) (req : Int) (i : Nat) (status : BitVec 32) : Prop where
  mem : t ∈ s.sched.ids
  fate : s.fate (s.pid i) = .held t
  exited : s.exited (s.pid i) = some status
  parent : s.parentOf (s.pid i) = s.pid t
  asked : req = -1 ∨ req = s.pid i

structure ZombieOk (i : Nat) : Prop where
  mem : i ∈ s.sched.ids
  enabled : (s.sched.table i).enabled = true
  exiting : (s.pc i).Exiting
  fate : s.fate (s.pid i) = .zombie i
  exited : s.exited (s.pid i) = some (s.exitStatus i)

structure Ok : Prop where
  zero : s.pid 0 = 0 ∧ s.parent 0 = 0 ∧ s.parentOf 0 = 0
  pids : ∀ i, s.pid i < s.counter
  old : ∀ p, s.exited p ≠ none → p < s.counter
  root : ∀ p, s.exited p ≠ none → s.parentOf p ≠ 0 ∧ s.parentOf p < s.counter
  gone : ∀ i, s.pc i = .gone ↔ (s.sched.table i).enabled = false
  linked : ∀ i ∈ s.sched.ids, (s.sched.table i).enabled = true → s.parentOf (s.pid i) = s.pid (s.parent i)
  zombie : ∀ i, s.zombie i = true → s.ZombieOk i
  exiting : ∀ i, (s.pc i).Exiting → s.zombie i = true
  ended : ∀ i ∈ s.sched.ids, (s.sched.table i).enabled = true → s.exited (s.pid i) ≠ none → s.zombie i = true
  got : ∀ t req i status, s.pc t = .got req i status → s.GotOk t req i status
  fateZombie : ∀ p i, s.fate p = .zombie i → s.zombie i = true ∧ s.pid i = p
  fateHeld : ∀ p t, s.fate p = .held t → ∃ req i status, s.pc t = .got req i status ∧ s.pid i = p
  running : ∀ p, s.fate p = .running ↔ s.exited p = none
  lost : ∀ p, s.fate p = .lost → s.waived p = true ∨ ¬ s.Lives (s.parentOf p)
  doomed : ∀ i, (s.pc i).Doomed → s.waived (s.pid i) = true ∨ ¬ s.Lives (s.parentOf (s.pid i))
  sending : ∀ t i parent sent, s.pc t = .sending i parent sent → parent = s.parentOf (s.pid t)

end

variable {s s' : System}

/-- No process comes to life. -/
def Dying (s s' : System) : Prop := ∀ p, s'.Lives p → s.Lives p

/-- A step that creates and deletes no task and in which no process exits or is reported. -/
structure Quiet (s s' : System) : Prop where
  total : s'.sched.total = s.sched.total
  enabled : ∀ i, (s'.sched.table i).enabled = (s.sched.table i).enabled
  pid : ∀ i, s'.pid i = s.pid i
  parent : s'.parent = s.parent
  zombie : s'.zombie = s.zombie
  exitStatus : ∀ i, s.zombie i = true → s'.exitStatus i = s.exitStatus i
  counter : s'.counter = s.counter
  parentOf : s'.parentOf = s.parentOf
  exited : s'.exited = s.exited
  fate : s'.fate = s.fate
  waived : s'.waived = s.waived
  gone : ∀ i, s'.pc i = .gone ↔ s.pc i = .gone
  exiting : ∀ i, (s'.pc i).Exiting ↔ (s.pc i).Exiting
  got : ∀ t req i status, s'.pc t = .got req i status ↔ s.pc t = .got req i status

theorem Quiet.ids (h : Quiet s s') : s'.sched.ids = s.sched.ids := by
  unfold Sched.ids
  rw [h.total]

theorem Quiet.lives (h : Quiet s s') (p : Nat) : s'.Lives p ↔ s.Lives p := by
  unfold Lives
  rw [h.total, h.zombie]
  simp only [h.enabled, h.pid]

theorem Ok.quiet (h : s.Ok) (hq : Quiet s s')
    (hdoomed : ∀ i, (s'.pc i).Doomed → (s.pc i).Doomed ∨ s.waived (s.pid i) = true ∨ ¬ s.Lives (s.parentOf (s.pid i)))
    (hsending : ∀ t i parent sent, s'.pc t = .sending i parent sent → parent = s.parentOf (s.pid t)) : s'.Ok where
  zero := by
    rw [hq.pid, hq.parent, hq.parentOf]
    exact h.zero
  pids i := by
    rw [hq.pid, hq.counter]
    exact h.pids i
  old p := by
    rw [hq.exited, hq.counter]
    exact h.old p
  root p := by
    rw [hq.exited, hq.parentOf, hq.counter]
    exact h.root p
  gone i := by
    rw [hq.gone, hq.enabled]
    exact h.gone i
  linked i hi := by
    rw [hq.ids] at hi
    rw [hq.enabled, hq.pid, hq.pid, hq.parentOf, hq.parent]
    exact h.linked i hi
  zombie i hz := by
    rw [hq.zombie] at hz
    have ho := h.zombie i hz
    refine ⟨hq.ids ▸ ho.mem, (hq.enabled i).trans ho.enabled, (hq.exiting i).mpr ho.exiting, ?_, ?_⟩
    · rw [hq.fate, hq.pid, ho.fate]
    · rw [hq.exited, hq.pid, hq.exitStatus i hz, ho.exited]
  exiting i hx := by
    rw [hq.zombie]
    exact h.exiting i ((hq.exiting i).mp hx)
  ended i hi := by
    rw [hq.ids] at hi
    rw [hq.enabled, hq.pid, hq.exited, hq.zombie]
    exact h.ended i hi
  got t req i status hpc := by
    have ho := h.got t req i status ((hq.got t req i status).mp hpc)
    refine ⟨hq.ids ▸ ho.mem, ?_, ?_, ?_, ?_⟩
    · rw [hq.fate, hq.pid, ho.fate]
    · rw [hq.exited, hq.pid, ho.exited]
    · rw [hq.parentOf, hq.pid, hq.pid, ho.parent]
    · rw [hq.pid]
      exact ho.asked
  fateZombie p i := by
    rw [hq.fate, hq.zombie, hq.pid]
    exact h.fateZombie p i
  fateHeld p t hp := by
    rw [hq.fate] at hp
    obtain ⟨req, i, status, hpc, hpid⟩ := h.fateHeld p t hp
    exact ⟨req, i, status, (hq.got t req i status).mpr hpc, (hq.pid i).trans hpid⟩
  running p := by
    rw [hq.fate, hq.exited]
    exact h.running p
  lost p := by
    rw [hq.fate, hq.waived, hq.parentOf, hq.lives]
    exact h.lost p
  doomed i hd := by
    rw [hq.waived, hq.parentOf, hq.pid, hq.lives]
    exact (hdoomed i hd).elim (h.doomed i) id
  sending t i parent sent hpc := by
    rw [hq.parentOf, hq.pid]
    exact hsending t i parent sent hpc

/-! ### Steps that are quiet -/

theorem quiet_sched {sched : Sched} (htotal : sched.total = s.sched.total)
    (hrow : ∀ i, (sched.table i).enabled = (s.sched.table i).enabled ∧ (sched.table i).pid = (s.sched.table i).pid) :
    Quiet s { s with sched := sched } where
  total := htotal
  enabled i := (hrow i).1
  pid i := (hrow i).2
  parent := rfl
  zombie := rfl
  exitStatus _ _ := rfl
  counter := rfl
  parentOf := rfl
  exited := rfl
  fate := rfl
  waived := rfl
  gone _ := Iff.rfl
  exiting _ := Iff.rfl
  got _ _ _ _ := Iff.rfl

theorem row_of_noExec {r r' r'' : SchedTask} (h : r''.noExec = r'.noExec) (henabled : r'.enabled = r.enabled)
    (hpid : r'.pid = r.pid) : r''.enabled = r.enabled ∧ r''.pid = r.pid :=
  ⟨(SchedTask.enabled_of_noExec h).trans henabled, (SchedTask.pid_of_noExec h).trans hpid⟩

theorem quiet_sleep (s : System) (t : Nat) : Quiet s { s with sched := s.sched.schedPrivUpdateOnSleep t } := by
  refine quiet_sched (Sched.sameEpoch_updateOnSleep s.sched t).total fun i => ?_
  refine row_of_noExec (Sched.noExec_updateOnSleep s.sched t i) ?_ ?_ <;>
  · split_ifs with hi
    · rw [hi]
    · rfl

theorem quiet_signal (s : System) (t : Nat) : Quiet s { s with sched := s.sched.signalPrivActivate t } := by
  refine quiet_sched (Sched.activate_spec s.sched t).total fun i => ?_
  refine row_of_noExec (Sched.noExec_signal s.sched t i) ?_ ?_ <;>
  · split_ifs with hi
    · rw [hi]
      rfl
    · rfl

theorem quiet_wake (s : System) (t : Nat) (u : SchedUnblockType) :
    Quiet s { s with sched := s.sched.privWake t u } := by
  refine quiet_sched (Sched.sameEpoch_wake s.sched t u).total fun i => ?_
  refine row_of_noExec (Sched.noExec_wake s.sched t u i) ?_ ?_ <;>
  · split_ifs with hi
    · rw [hi]
      rfl
    · rfl

theorem quiet_activate {id : Nat} (hz : s.zombie id = false) (schedPriority : Int) :
    Quiet s { s with
      sched := s.sched.privActivateThread id schedPriority
      zombie := update s.zombie id false
      exitStatus := update s.exitStatus id 0 } where
  total := (Sched.sameEpoch_activateThread s.sched id schedPriority).total
  enabled i := by
    refine (row_of_noExec (Sched.noExec_activateThread s.sched id schedPriority i) ?_ ?_).1 <;>
    · split_ifs with hi
      · rw [hi]
        rfl
      · rfl
  pid i := by
    refine (row_of_noExec (Sched.noExec_activateThread s.sched id schedPriority i) ?_ ?_).2 <;>
    · split_ifs with hi
      · rw [hi]
        rfl
      · rfl
  parent := rfl
  zombie := by
    rw [← hz]
    exact update_eq_self id s.zombie
  exitStatus i hi := by
    refine update_of_ne ?_ _ _
    rintro rfl
    rw [hz] at hi
    exact nomatch hi
  counter := rfl
  parentOf := rfl
  exited := rfl
  fate := rfl
  waived := rfl
  gone _ := Iff.rfl
  exiting _ := Iff.rfl
  got _ _ _ _ := Iff.rfl

theorem pc_setPc (t : Nat) (pc : Pc) : (s.setPc t pc).pc t = pc := update_self t _ _

theorem pc_setPc_of_ne {t i : Nat} (pc : Pc) (hi : i ≠ t) : (s.setPc t pc).pc i = s.pc i := update_of_ne hi _ _

theorem Quiet.setPc (h : Quiet s s') {t : Nat} {pc : Pc} (hplain : (s.pc t).Plain) (hplain' : pc.Plain)
    (hexiting : pc.Exiting ↔ (s.pc t).Exiting) : Quiet s (s'.setPc t pc) where
  total := h.total
  enabled := h.enabled
  pid := h.pid
  parent := h.parent
  zombie := h.zombie
  exitStatus := h.exitStatus
  counter := h.counter
  parentOf := h.parentOf
  exited := h.exited
  fate := h.fate
  waived := h.waived
  gone i := by
    by_cases hi : i = t
    · rw [hi, pc_setPc]
      exact iff_of_false hplain'.ne_gone hplain.ne_gone
    · rw [pc_setPc_of_ne pc hi]
      exact h.gone i
  exiting i := by
    by_cases hi : i = t
    · rw [hi, pc_setPc]
      exact hexiting
    · rw [pc_setPc_of_ne pc hi]
      exact h.exiting i
  got i req j status := by
    by_cases hi : i = t
    · rw [hi, pc_setPc]
      exact iff_of_false (hplain'.ne_got req j status) (hplain.ne_got req j status)
    · rw [pc_setPc_of_ne pc hi]
      exact h.got i req j status

theorem quiet_refl (s : System) : Quiet s s := quiet_sched rfl fun _ => ⟨rfl, rfl⟩

/-- What a quiet step leaves of the places is enough for the invariant, unless it sends signals or dooms a process. -/
theorem Ok.quiet_setPc (h : s.Ok) {t : Nat} {pc pc' : Pc} (hpc : s.pc t = pc) (hq : Quiet s s') (hsame : s'.pc = s.pc)
    (hplain : pc.Plain) (hplain' : pc'.Plain) (hexiting : pc'.Exiting ↔ pc.Exiting)
    (hdoomed : pc'.Doomed → pc.Doomed ∨ s.waived (s.pid t) = true ∨ ¬ s.Lives (s.parentOf (s.pid t)))
    (hsending : ∀ i parent sent, pc' = .sending i parent sent → parent = s.parentOf (s.pid t)) :
    (s'.setPc t pc').Ok := by
  subst hpc
  refine h.quiet (hq.setPc hplain hplain' hexiting) (fun i hd => ?_) fun u i parent sent hpc => ?_
  · by_cases hi : i = t
    · rw [hi, pc_setPc] at hd
      rw [hi]
      exact hdoomed hd
    · rw [pc_setPc_of_ne pc' hi, hsame] at hd
      exact .inl hd
  · by_cases hu : u = t
    · rw [hu, pc_setPc] at hpc
      rw [hu]
      exact hsending i parent sent hpc
    · rw [pc_setPc_of_ne pc' hu, hsame] at hpc
      exact h.sending u i parent sent hpc

/-- The same between two places of which neither is in `_exit`. -/
theorem Ok.quiet_move (h : s.Ok) {t : Nat} {pc pc' : Pc} (hpc : s.pc t = pc) (hq : Quiet s s') (hsame : s'.pc = s.pc)
    (hplain : pc.Plain) (hplain' : pc'.Plain) (hexiting : ¬ pc.Exiting) (hexiting' : ¬ pc'.Exiting) :
    (s'.setPc t pc').Ok := by
  refine h.quiet_setPc hpc hq hsame hplain hplain' (iff_of_false hexiting' hexiting)
    (fun hd => absurd hd.exiting hexiting') fun i parent sent heq => ?_
  rw [heq] at hexiting'
  exact absurd trivial hexiting'

theorem Ok.quiet_same (h : s.Ok) (hq : Quiet s s') (hsame : s'.pc = s.pc) : s'.Ok := by
  refine h.quiet hq (fun i hd => ?_) fun u i parent sent hpc => ?_
  · rw [hsame] at hd
    exact .inl hd
  · rw [hsame] at hpc
    exact h.sending u i parent sent hpc

/-! ### A zombie is found -/

theorem dying_of_rows (htotal : s'.sched.total = s.sched.total)
    (hrow : ∀ i, (s'.sched.table i).enabled = true → s'.zombie i = false →
      (s.sched.table i).enabled = true ∧ s.zombie i = false ∧ s'.pid i = s.pid i) : Dying s s' := by
  rintro p ⟨i, hi, henabled, hpid, hzombie⟩
  obtain ⟨henabled', hzombie', hsame⟩ := hrow i henabled hzombie
  exact ⟨i, htotal ▸ hi, henabled', hsame.symm.trans hpid, hzombie'⟩

theorem Dying.lost (h : Dying s s') {p : Nat} {b : Bool} (hp : b = true ∨ ¬ s.Lives p) : b = true ∨ ¬ s'.Lives p :=
  hp.imp_right fun hdead hlives => hdead (h p hlives)

theorem findZombie_spec {t i : Nat} {pid : Int} (h : s.findZombie t pid = some i) :
    i ∈ s.sched.ids ∧ s.pid (s.parent i) = s.pid t ∧ s.zombie i = true ∧ (pid = -1 ∨ pid = s.pid i) := by
  have hfound := List.find?_some h
  simp only [childOf, Bool.and_eq_true, Bool.or_eq_true, beq_iff_eq] at hfound
  obtain ⟨⟨hchild, hzombie⟩, hpid⟩ := hfound
  exact ⟨List.mem_of_find?_eq_some h, hchild, hzombie, hpid.symm.imp_right Eq.symm⟩

theorem Ok.enabled_of_pc (h : s.Ok) {t : Nat} (hpc : s.pc t ≠ .gone) : (s.sched.table t).enabled = true := by
  by_contra hdead
  exact hpc ((h.gone t).mpr (Bool.not_eq_true _ ▸ hdead))

/-- Two zombies are not of one process. -/
theorem Ok.zombie_unique (h : s.Ok) {i j : Nat} (hi : s.zombie i = true) (hj : s.zombie j = true)
    (hpid : s.pid i = s.pid j) : i = j := by
  have hfate := (h.zombie j hj).fate
  rw [← hpid, (h.zombie i hi).fate] at hfate
  exact Fate.zombie.inj hfate

theorem Ok.not_zombie (h : s.Ok) {t : Nat} (hnot : ¬ (s.pc t).Exiting) : s.zombie t = false :=
  Bool.eq_false_iff.mpr fun hz => hnot (h.zombie t hz).exiting

theorem mem_of_runs {t : Nat} (hrun : s.runs t = true) : t ∈ s.sched.ids := by
  simp only [runs, Bool.and_eq_true, decide_eq_true_eq] at hrun
  exact hrun.1.1

theorem enabled_of_runs {t : Nat} (hrun : s.runs t = true) : (s.sched.table t).enabled = true := by
  simp only [runs, Bool.and_eq_true] at hrun
  exact hrun.1.2

section

variable {t i j p : Nat} {pid : Int}

theorem take_table (hj : j ≠ i) : (s.take t i pid).sched.table j = s.sched.table j := Sched.table_modify_of_ne s.sched hj _

theorem take_not_enabled : ((s.take t i pid).sched.table i).enabled = false :=
  congrArg SchedTask.enabled (Sched.table_modify_self s.sched i _)

theorem ne_of_take_enabled (henabled : ((s.take t i pid).sched.table j).enabled = true) : j ≠ i := by
  rintro rfl
  rw [take_not_enabled] at henabled
  exact nomatch henabled

theorem take_pid (j : Nat) : (s.take t i pid).pid j = s.pid j := by
  by_cases hj : j = i
  · rw [hj]
    change (((s.sched.modify i Sched.clearTask).table i)).pid = (s.sched.table i).pid
    rw [Sched.table_modify_self]
    rfl
  · exact congrArg SchedTask.pid (take_table hj)

theorem take_zombie (hj : j ≠ i) : (s.take t i pid).zombie j = s.zombie j := update_of_ne hj _ _

theorem zombie_of_take (hj : (s.take t i pid).zombie j = true) : j ≠ i ∧ s.zombie j = true := by
  by_cases hji : j = i
  · rw [hji] at hj
    change update s.zombie i false i = true at hj
    rw [update_self] at hj
    exact nomatch hj
  · exact ⟨hji, (take_zombie hji).symm.trans hj⟩

theorem take_pc_self : (s.take t i pid).pc t = .got pid i (s.exitStatus i) := update_self t _ _

theorem take_pc_found (hit : i ≠ t) : (s.take t i pid).pc i = .gone := (update_of_ne hit _ _).trans (update_self i _ _)

theorem take_pc (hj : j ≠ t) (hji : j ≠ i) : (s.take t i pid).pc j = s.pc j :=
  (update_of_ne hj _ _).trans (update_of_ne hji _ _)

/-- Of the two tasks whose place changes neither is in a call of another kind afterwards. -/
theorem pc_of_take (hit : i ≠ t) {pc : Pc} (hgot : pc ≠ .got pid i (s.exitStatus i)) (hgone : pc ≠ .gone)
    (hpc : (s.take t i pid).pc j = pc) : j ≠ t ∧ j ≠ i ∧ s.pc j = pc := by
  have hjt : j ≠ t := by
    rintro rfl
    exact hgot (hpc.symm.trans take_pc_self)
  have hji : j ≠ i := by
    rintro rfl
    exact hgone (hpc.symm.trans (take_pc_found hit))
  exact ⟨hjt, hji, (take_pc hjt hji).symm.trans hpc⟩

theorem take_fate_self : (s.take t i pid).fate (s.pid i) = .held t := update_self _ _ _

theorem take_fate (hp : p ≠ s.pid i) : (s.take t i pid).fate p = s.fate p := update_of_ne hp _ _

theorem dying_take : Dying s (s.take t i pid) := by
  refine dying_of_rows rfl fun j henabled hj => ?_
  have hji := ne_of_take_enabled henabled
  rw [take_table hji] at henabled
  exact ⟨henabled, (take_zombie hji).symm.trans hj, take_pid j⟩

end

/-- A call of `t` has found the zombie `i`. -/
structure Takes (s : System) (t i : Nat) (pid : Int) : Prop where
  ok : s.Ok
  mem : t ∈ s.sched.ids
  plain : (s.pc t).Plain
  notExiting : ¬ (s.pc t).Exiting
  found : s.findZombie t pid = some i

namespace Takes

variable {t i : Nat} {pid : Int} (h : Takes s t i pid) {j u p : Nat}

include h

theorem isZombie : s.zombie i = true := (findZombie_spec h.found).2.2.1

theorem zombieOk_found : s.ZombieOk i := h.ok.zombie i h.isZombie

theorem found_ne : i ≠ t := by
  rintro rfl
  exact h.notExiting h.zombieOk_found.exiting

theorem gone (j : Nat) : (s.take t i pid).pc j = .gone ↔ ((s.take t i pid).sched.table j).enabled = false := by
  by_cases hj : j = t
  · rw [hj, take_pc_self, take_table (Ne.symm h.found_ne), h.ok.enabled_of_pc h.plain.ne_gone]
    exact iff_of_false (by exact nofun) (by exact nofun)
  · by_cases hji : j = i
    · rw [hji]
      exact iff_of_true (take_pc_found h.found_ne) take_not_enabled
    · rw [take_pc hj hji, take_table hji]
      exact h.ok.gone j

theorem zombieOk (hj : (s.take t i pid).zombie j = true) : (s.take t i pid).ZombieOk j := by
  obtain ⟨hji, hzj⟩ := zombie_of_take hj
  have ho := h.ok.zombie j hzj
  have hjt : j ≠ t := by
    rintro rfl
    exact h.notExiting ho.exiting
  refine ⟨ho.mem, ?_, ?_, ?_, ?_⟩
  · rw [take_table hji, ho.enabled]
  · rw [take_pc hjt hji]
    exact ho.exiting
  · rw [take_pid, take_fate fun heq => hji (h.ok.zombie_unique hzj h.isZombie heq), ho.fate]
  · rw [take_pid]
    exact ho.exited

theorem exiting (hx : ((s.take t i pid).pc j).Exiting) : (s.take t i pid).zombie j = true := by
  have hgot : (s.take t i pid).pc j ≠ .got pid i (s.exitStatus i) := by
    intro heq
    rw [heq] at hx
    exact hx
  have hgone : (s.take t i pid).pc j ≠ .gone := by
    intro heq
    rw [heq] at hx
    exact hx
  obtain ⟨-, hji, heq⟩ := pc_of_take h.found_ne hgot hgone rfl
  rw [← heq] at hx
  exact (take_zombie hji).trans (h.ok.exiting j hx)

theorem ended (hj : j ∈ s.sched.ids) (henabled : ((s.take t i pid).sched.table j).enabled = true)
    (hx : s.exited (s.pid j) ≠ none) : (s.take t i pid).zombie j = true := by
  have hji := ne_of_take_enabled henabled
  rw [take_table hji] at henabled
  exact (take_zombie hji).trans (h.ok.ended j hj henabled hx)

theorem got_self : (s.take t i pid).GotOk t pid i (s.exitStatus i) := by
  obtain ⟨hmem, hchild, -, hasked⟩ := findZombie_spec h.found
  have hz := h.zombieOk_found
  have ht : t ∈ s.sched.ids := h.mem
  refine ⟨ht, ?_, ?_, ?_, ?_⟩
  · rw [take_pid]
    exact take_fate_self
  · rw [take_pid]
    exact hz.exited
  · rw [take_pid, take_pid]
    exact (h.ok.linked i hmem hz.enabled).trans hchild
  · rw [take_pid]
    exact hasked

theorem got {req : Int} {status : BitVec 32} (hpc : (s.take t i pid).pc u = .got req j status) :
    (s.take t i pid).GotOk u req j status := by
  by_cases hu : u = t
  · rw [hu, take_pc_self] at hpc
    cases hpc
    rw [hu]
    exact h.got_self
  · have hui : u ≠ i := by
      rintro rfl
      rw [take_pc_found h.found_ne] at hpc
      exact nomatch hpc
    rw [take_pc hu hui] at hpc
    have ho := h.ok.got u req j status hpc
    -- another call has found another zombie
    have hne : s.pid j ≠ s.pid i := by
      intro heq
      have hf := ho.fate
      rw [heq, h.zombieOk_found.fate] at hf
      exact nomatch hf
    refine ⟨ho.mem, ?_, ?_, ?_, ?_⟩
    · rw [take_pid, take_fate hne, ho.fate]
    · rw [take_pid]
      exact ho.exited
    · rw [take_pid, take_pid]
      exact ho.parent
    · rw [take_pid]
      exact ho.asked

theorem fateZombie (hp : (s.take t i pid).fate p = .zombie j) :
    (s.take t i pid).zombie j = true ∧ (s.take t i pid).pid j = p := by
  have hp' : p ≠ s.pid i := by
    rintro rfl
    rw [take_fate_self] at hp
    exact nomatch hp
  rw [take_fate hp'] at hp
  obtain ⟨hzj, hpj⟩ := h.ok.fateZombie p j hp
  have hji : j ≠ i := by
    rintro rfl
    exact hp' hpj.symm
  exact ⟨(take_zombie hji).trans hzj, (take_pid j).trans hpj⟩

theorem fateHeld (hp : (s.take t i pid).fate p = .held u) :
    ∃ req j status, (s.take t i pid).pc u = .got req j status ∧ (s.take t i pid).pid j = p := by
  by_cases hp' : p = s.pid i
  · rw [hp', take_fate_self] at hp
    cases hp
    exact ⟨pid, i, s.exitStatus i, take_pc_self, (take_pid i).trans hp'.symm⟩
  · rw [take_fate hp'] at hp
    obtain ⟨req, j, status, hpc, hpj⟩ := h.ok.fateHeld p u hp
    have hut : u ≠ t := by
      rintro rfl
      exact h.plain.ne_got req j status hpc
    have hui : u ≠ i := by
      rintro rfl
      have hx := h.zombieOk_found.exiting
      rw [hpc] at hx
      exact hx
    exact ⟨req, j, status, (take_pc hut hui).trans hpc, (take_pid j).trans hpj⟩

theorem running (p : Nat) : (s.take t i pid).fate p = .running ↔ s.exited p = none := by
  by_cases hp' : p = s.pid i
  · rw [hp', take_fate_self]
    refine iff_of_false (by exact nofun) fun hnone => ?_
    exact absurd (h.zombieOk_found.exited.symm.trans hnone) (by exact nofun)
  · rw [take_fate hp']
    exact h.ok.running p

theorem lost (hp : (s.take t i pid).fate p = .lost) : s.waived p = true ∨ ¬ (s.take t i pid).Lives (s.parentOf p) := by
  have hp' : p ≠ s.pid i := by
    rintro rfl
    rw [take_fate_self] at hp
    exact nomatch hp
  rw [take_fate hp'] at hp
  exact dying_take.lost (h.ok.lost p hp)

theorem doomed (hd : ((s.take t i pid).pc j).Doomed) :
    s.waived (s.pid j) = true ∨ ¬ (s.take t i pid).Lives (s.parentOf (s.pid j)) := by
  have hgot : (s.take t i pid).pc j ≠ .got pid i (s.exitStatus i) := by
    intro heq
    rw [heq] at hd
    exact hd
  have hgone : (s.take t i pid).pc j ≠ .gone := by
    intro heq
    rw [heq] at hd
    exact hd
  obtain ⟨-, -, heq⟩ := pc_of_take h.found_ne hgot hgone rfl
  rw [← heq] at hd
  exact dying_take.lost (h.ok.doomed j hd)

end Takes

theorem Ok.take (h : s.Ok) {t i : Nat} {pid : Int} (ht : t ∈ s.sched.ids) (hplain : (s.pc t).Plain)
    (hnot : ¬ (s.pc t).Exiting) (hfind : s.findZombie t pid = some i) : (s.take t i pid).Ok :=
  have k : Takes s t i pid := ⟨h, ht, hplain, hnot, hfind⟩
  { zero := ⟨(take_pid 0).trans h.zero.1, h.zero.2⟩
    pids := fun j => by
      rw [take_pid]
      exact h.pids j
    old := h.old
    root := h.root
    gone := k.gone
    linked := fun j hj henabled => by
      rw [take_table (ne_of_take_enabled henabled)] at henabled
      rw [take_pid, take_pid]
      exact h.linked j hj henabled
    zombie := fun _ => k.zombieOk
    exiting := fun _ => k.exiting
    ended := fun j hj henabled hx => by
      rw [take_pid] at hx
      exact k.ended hj henabled hx
    got := fun _ _ _ _ => k.got
    fateZombie := fun _ _ => k.fateZombie
    fateHeld := fun _ _ => k.fateHeld
    running := k.running
    lost := fun _ => k.lost
    doomed := fun j hd => by
      rw [take_pid]
      exact k.doomed hd
    sending := fun u j parent sent hpc => by
      obtain ⟨-, -, heq⟩ := pc_of_take k.found_ne (by exact nofun) (by exact nofun) hpc
      rw [take_pid]
      exact h.sending u j parent sent heq }

/-- A call that has found a zombie returns. -/
structure Returns (s : System) (t i : Nat) (req : Int) (status : BitVec 32) : Prop where
  ok : s.Ok
  call : s.pc t = .got req i status

namespace Returns

variable {t i : Nat} {req : Int} {status : BitVec 32} (h : Returns s t i req status) {j u p : Nat}

theorem pc_self : (s.waitReturn t req i status).1.pc t = .idle := update_self t _ _

theorem pc_other (hj : j ≠ t) : (s.waitReturn t req i status).1.pc j = s.pc j := update_of_ne hj _ _

theorem pc_of {pc : Pc} (hpc : pc ≠ .idle) (heq : (s.waitReturn t req i status).1.pc j = pc) : j ≠ t ∧ s.pc j = pc := by
  have hj : j ≠ t := by
    rintro rfl
    exact hpc (heq.symm.trans pc_self)
  exact ⟨hj, (pc_other hj).symm.trans heq⟩

theorem fate_self : (s.waitReturn t req i status).1.fate (s.pid i) = .reported := update_self _ _ _

theorem fate_other (hp : p ≠ s.pid i) : (s.waitReturn t req i status).1.fate p = s.fate p := update_of_ne hp _ _

theorem fate_of {fate : Fate} (hfate : fate ≠ .reported) (heq : (s.waitReturn t req i status).1.fate p = fate) :
    p ≠ s.pid i ∧ s.fate p = fate := by
  have hp : p ≠ s.pid i := by
    rintro rfl
    exact hfate (heq.symm.trans fate_self)
  exact ⟨hp, (fate_other hp).symm.trans heq⟩

include h

theorem held : s.fate (s.pid i) = .held t := (h.ok.got t req i status h.call).fate

theorem gone (j : Nat) : (s.waitReturn t req i status).1.pc j = .gone ↔ (s.sched.table j).enabled = false := by
  by_cases hj : j = t
  · rw [hj, pc_self]
    refine iff_of_false (by exact nofun) fun hdead => ?_
    exact absurd (h.call.symm.trans ((h.ok.gone t).mpr hdead)) (by exact nofun)
  · rw [pc_other hj]
    exact h.ok.gone j

theorem zombieOk (hj : s.zombie j = true) : (s.waitReturn t req i status).1.ZombieOk j := by
  have ho := h.ok.zombie j hj
  have hjt : j ≠ t := by
    rintro rfl
    have hx := ho.exiting
    rw [h.call] at hx
    exact hx
  refine ⟨ho.mem, ho.enabled, ?_, ?_, ho.exited⟩
  · rw [pc_other hjt]
    exact ho.exiting
  · have hne : s.pid j ≠ s.pid i := by
      intro heq
      have hf := ho.fate
      rw [heq, h.held] at hf
      exact nomatch hf
    exact (fate_other hne).trans ho.fate

theorem exiting (hx : ((s.waitReturn t req i status).1.pc j).Exiting) : s.zombie j = true := by
  have hidle : (s.waitReturn t req i status).1.pc j ≠ .idle := by
    intro heq
    rw [heq] at hx
    exact hx
  rw [← (pc_of hidle rfl).2] at hx
  exact h.ok.exiting j hx

theorem got {req' : Int} {status' : BitVec 32} (hpc : (s.waitReturn t req i status).1.pc u = .got req' j status') :
    (s.waitReturn t req i status).1.GotOk u req' j status' := by
  obtain ⟨hut, hpc⟩ := pc_of (by exact nofun) hpc
  have ho := h.ok.got u req' j status' hpc
  -- the status is held by one call
  have hne : s.pid j ≠ s.pid i := by
    intro heq
    have hf := ho.fate
    rw [heq, h.held] at hf
    exact hut (Fate.held.inj hf).symm
  exact ⟨ho.mem, (fate_other hne).trans ho.fate, ho.exited, ho.parent, ho.asked⟩

theorem fateHeld (hp : (s.waitReturn t req i status).1.fate p = .held u) :
    ∃ req' j status', (s.waitReturn t req i status).1.pc u = .got req' j status' ∧ s.pid j = p := by
  obtain ⟨hpi, hp⟩ := fate_of (by exact nofun) hp
  obtain ⟨req', j, status', hpc, hpid⟩ := h.ok.fateHeld p u hp
  have hut : u ≠ t := by
    rintro rfl
    rw [h.call] at hpc
    cases hpc
    exact hpi hpid.symm
  exact ⟨req', j, status', (pc_other hut).trans hpc, hpid⟩

theorem running (p : Nat) : (s.waitReturn t req i status).1.fate p = .running ↔ s.exited p = none := by
  by_cases hp : p = s.pid i
  · rw [hp, fate_self]
    refine iff_of_false (by exact nofun) fun hnone => ?_
    exact absurd ((h.ok.got t req i status h.call).exited.symm.trans hnone) (by exact nofun)
  · rw [fate_other hp]
    exact h.ok.running p

theorem doomed (hd : ((s.waitReturn t req i status).1.pc j).Doomed) :
    s.waived (s.pid j) = true ∨ ¬ s.Lives (s.parentOf (s.pid j)) := by
  have hidle : (s.waitReturn t req i status).1.pc j ≠ .idle := by
    intro heq
    rw [heq] at hd
    exact hd
  rw [← (pc_of hidle rfl).2] at hd
  exact h.ok.doomed j hd

end Returns

theorem Ok.waitReturn (h : s.Ok) {t i : Nat} {req : Int} {status : BitVec 32} (hpc : s.pc t = .got req i status) :
    (s.waitReturn t req i status).1.Ok :=
  have r : Returns s t i req status := ⟨h, hpc⟩
  { zero := h.zero
    pids := h.pids
    old := h.old
    root := h.root
    gone := r.gone
    linked := h.linked
    zombie := fun _ => r.zombieOk
    exiting := fun _ => r.exiting
    ended := h.ended
    got := fun _ _ _ _ => r.got
    fateZombie := fun p j hp => h.fateZombie p j (Returns.fate_of (by exact nofun) hp).2
    fateHeld := fun _ _ => r.fateHeld
    running := r.running
    lost := fun p hp => h.lost p (Returns.fate_of (by exact nofun) hp).2
    doomed := fun _ => r.doomed
    sending := fun u j parent sent hpcu => h.sending u j parent sent (Returns.pc_of (by exact nofun) hpcu).2 }

/-! ### A process exits -/

theorem killed_iff {t i : Nat} : s.killed t i = true ↔ i ∈ s.sched.ids ∧ s.pid i = s.pid t ∧ i ≠ t := decide_eq_true_iff

section

variable {t i p : Nat} {status : BitVec 32}

theorem not_killed_of_pid_ne (hpid : s.pid i ≠ s.pid t) : s.killed t i = false :=
  Bool.eq_false_iff.mpr fun hk => hpid (killed_iff.mp hk).2.1

theorem not_killed_self : s.killed t t = false := Bool.eq_false_iff.mpr fun hk => (killed_iff.mp hk).2.2 rfl

theorem exit_table (hk : s.killed t i = false) : (s.exit t status).sched.table i = s.sched.table i := by
  rw [Bool.eq_false_iff, Ne, killed_iff] at hk
  exact (Sched.table_stopThreads s.sched t i).trans (if_neg hk)

theorem exit_table_of_killed (hk : s.killed t i = true) :
    (s.exit t status).sched.table i = Sched.clearTask (s.sched.table i) :=
  (Sched.table_stopThreads s.sched t i).trans (if_pos (killed_iff.mp hk))

theorem not_enabled_of_killed (hk : s.killed t i = true) : ((s.exit t status).sched.table i).enabled = false :=
  congrArg SchedTask.enabled (exit_table_of_killed hk)

theorem not_killed_of_enabled (hi : ((s.exit t status).sched.table i).enabled = true) : s.killed t i = false := by
  refine Bool.eq_false_iff.mpr fun hk => ?_
  rw [not_enabled_of_killed hk] at hi
  exact nomatch hi

theorem exit_pid (i : Nat) : (s.exit t status).pid i = s.pid i := by
  cases hk : s.killed t i
  · exact congrArg SchedTask.pid (exit_table hk)
  · exact (congrArg SchedTask.pid (exit_table_of_killed hk)).trans rfl

theorem exit_pc_self : (s.exit t status).pc t = .stopped (s.sendSignal t) := if_pos rfl

theorem exit_pc_of_killed (hk : s.killed t i = true) : (s.exit t status).pc i = .gone :=
  (if_neg (killed_iff.mp hk).2.2).trans (if_pos hk)

theorem exit_pc (hi : i ≠ t) (hk : s.killed t i = false) : (s.exit t status).pc i = s.pc i :=
  (if_neg hi).trans (if_neg (Bool.eq_false_iff.mp hk))

/-- A task that is in a call afterwards was in it before, unless it is the one that exits. -/
theorem pc_of_exit {pc : Pc} (hpc : pc ≠ .gone) (hi : i ≠ t) (heq : (s.exit t status).pc i = pc) :
    s.killed t i = false ∧ s.pc i = pc := by
  cases hk : s.killed t i
  · exact ⟨rfl, (exit_pc hi hk).symm.trans heq⟩
  · exact absurd (heq.symm.trans (exit_pc_of_killed hk)) hpc

theorem exit_zombie_self : (s.exit t status).zombie t = true := if_pos rfl

theorem exit_zombie (hi : i ≠ t) (hk : s.killed t i = false) : (s.exit t status).zombie i = s.zombie i := by
  refine (if_neg hi).trans ?_
  rw [hk]
  exact Bool.and_true _

theorem zombie_of_exit (hi : i ≠ t) (hz : (s.exit t status).zombie i = true) : s.zombie i = true :=
  (Bool.and_eq_true _ _ |>.mp ((if_neg hi).symm.trans hz)).1

theorem exit_exited_self : (s.exit t status).exited (s.pid t) = some (waitStatus status) := update_self _ _ _

theorem exit_exited (hp : p ≠ s.pid t) : (s.exit t status).exited p = s.exited p := update_of_ne hp _ _

theorem exit_fate_self : (s.exit t status).fate (s.pid t) = .zombie t := if_pos rfl

theorem exit_fate (hp : p ≠ s.pid t) :
    (s.exit t status).fate p =
      match s.fate p with
      | .held u => if u = t || s.killed t u then .lost else .held u
      | fate => fate := if_neg hp

theorem exit_waived (hp : p ≠ s.pid t) : (s.exit t status).waived p = s.waived p := update_of_ne hp _ _

theorem dying_exit : Dying s (s.exit t status) := by
  refine dying_of_rows rfl fun i hi hz => ?_
  have hk := not_killed_of_enabled hi
  have hit : i ≠ t := by
    rintro rfl
    exact absurd (exit_zombie_self.symm.trans hz) (by exact nofun)
  rw [exit_table hk] at hi
  exact ⟨hi, (exit_zombie hit hk).symm.trans hz, exit_pid i⟩

end

/-- A process exits that has not done so before. -/
structure Exits (s : System) (t : Nat) : Prop where
  ok : s.Ok
  runs : s.runs t = true
  alive : s.zombie t = false
  parent : s.pid (s.parent t) ≠ 0

namespace Exits

variable {t : Nat} (h : Exits s t) {status : BitVec 32} {i u p : Nat}

include h

theorem exited_none : s.exited (s.pid t) = none := by
  by_contra hx
  have halive := h.alive
  rw [h.ok.ended t (mem_of_runs h.runs) (enabled_of_runs h.runs) hx] at halive
  exact nomatch halive

theorem running_self : s.fate (s.pid t) = .running := (h.ok.running _).mpr h.exited_none

theorem pid_ne (hz : s.zombie i = true) : s.pid i ≠ s.pid t := by
  intro heq
  have hx := (h.ok.zombie i hz).exited
  rw [heq, h.exited_none] at hx
  exact nomatch hx

theorem old (hp : (s.exit t status).exited p ≠ none) : p < s.counter := by
  by_cases hpt : p = s.pid t
  · rw [hpt]
    exact h.ok.pids t
  · rw [exit_exited hpt] at hp
    exact h.ok.old p hp

theorem root (hp : (s.exit t status).exited p ≠ none) : s.parentOf p ≠ 0 ∧ s.parentOf p < s.counter := by
  by_cases hpt : p = s.pid t
  · rw [hpt, h.ok.linked t (mem_of_runs h.runs) (enabled_of_runs h.runs)]
    exact ⟨h.parent, h.ok.pids _⟩
  · rw [exit_exited hpt] at hp
    exact h.ok.root p hp

theorem gone (i : Nat) : (s.exit t status).pc i = .gone ↔ ((s.exit t status).sched.table i).enabled = false := by
  cases hk : s.killed t i
  · rw [exit_table hk]
    by_cases hi : i = t
    · rw [hi, exit_pc_self, enabled_of_runs h.runs]
      exact iff_of_false (by exact nofun) (by exact nofun)
    · rw [exit_pc hi hk]
      exact h.ok.gone i
  · exact iff_of_true (exit_pc_of_killed hk) (not_enabled_of_killed hk)

theorem zombieOk (hz : (s.exit t status).zombie i = true) : (s.exit t status).ZombieOk i := by
  by_cases hit : i = t
  · rw [hit]
    have hmem : t ∈ s.sched.ids := mem_of_runs h.runs
    refine ⟨hmem, ?_, ?_, ?_, ?_⟩
    · rw [exit_table not_killed_self, enabled_of_runs h.runs]
    · rw [exit_pc_self]
      trivial
    · rw [exit_pid]
      exact exit_fate_self
    · have hstatus : (s.exit t status).exitStatus t = waitStatus status := update_self t _ _
      rw [exit_pid, exit_exited_self, hstatus]
  · have hz := zombie_of_exit hit hz
    have ho := h.ok.zombie i hz
    have hpt := h.pid_ne hz
    have hk := not_killed_of_pid_ne hpt
    refine ⟨ho.mem, ?_, ?_, ?_, ?_⟩
    · rw [exit_table hk, ho.enabled]
    · rw [exit_pc hit hk]
      exact ho.exiting
    · rw [exit_pid, exit_fate hpt, ho.fate]
    · have hstatus : (s.exit t status).exitStatus i = s.exitStatus i := update_of_ne hit _ _
      rw [exit_pid, exit_exited hpt, ho.exited, hstatus]

theorem exiting (hx : ((s.exit t status).pc i).Exiting) : (s.exit t status).zombie i = true := by
  by_cases hit : i = t
  · rw [hit]
    exact exit_zombie_self
  · have hgone : (s.exit t status).pc i ≠ .gone := by
      intro hg
      rw [hg] at hx
      exact hx
    obtain ⟨hk, heq⟩ := pc_of_exit hgone hit rfl
    rw [← heq] at hx
    exact (exit_zombie hit hk).trans (h.ok.exiting i hx)

theorem ended (hi : i ∈ s.sched.ids) (henabled : ((s.exit t status).sched.table i).enabled = true)
    (hx : (s.exit t status).exited ((s.exit t status).pid i) ≠ none) : (s.exit t status).zombie i = true := by
  have hk := not_killed_of_enabled henabled
  by_cases hit : i = t
  · rw [hit]
    exact exit_zombie_self
  · -- the other threads of the process have been stopped
    have hpt : s.pid i ≠ s.pid t := by
      intro heq
      have hkill : s.killed t i = true := killed_iff.mpr ⟨hi, heq, hit⟩
      rw [hkill] at hk
      exact nomatch hk
    rw [exit_table hk] at henabled
    rw [exit_pid, exit_exited hpt] at hx
    exact (exit_zombie hit hk).trans (h.ok.ended i hi henabled hx)

theorem got {req : Int} {st : BitVec 32} (hpc : (s.exit t status).pc u = .got req i st) :
    (s.exit t status).GotOk u req i st := by
  have hut : u ≠ t := by
    rintro rfl
    rw [exit_pc_self] at hpc
    exact nomatch hpc
  obtain ⟨hk, heq⟩ := pc_of_exit (by exact nofun) hut hpc
  have ho := h.ok.got u req i st heq
  have hpt : s.pid i ≠ s.pid t := by
    intro heq'
    have hf := ho.fate
    rw [heq', h.running_self] at hf
    exact nomatch hf
  refine ⟨ho.mem, ?_, ?_, ?_, ?_⟩
  · rw [exit_pid, exit_fate hpt, ho.fate]
    simp [hut, hk]
  · rw [exit_pid, exit_exited hpt, ho.exited]
  · rw [exit_pid, exit_pid]
    exact ho.parent
  · rw [exit_pid]
    exact ho.asked

theorem fateZombie (hp : (s.exit t status).fate p = .zombie i) :
    (s.exit t status).zombie i = true ∧ (s.exit t status).pid i = p := by
  by_cases hpt : p = s.pid t
  · rw [hpt, exit_fate_self] at hp
    cases hp
    exact ⟨exit_zombie_self, (exit_pid t).trans hpt.symm⟩
  · rw [exit_fate hpt] at hp
    have hf : s.fate p = .zombie i := by
      split at hp
      · split_ifs at hp
      · exact hp
    obtain ⟨hz, hpi⟩ := h.ok.fateZombie p i hf
    have hpt' : s.pid i ≠ s.pid t := hpi.symm ▸ hpt
    have hit : i ≠ t := by
      rintro rfl
      exact hpt' rfl
    exact ⟨(exit_zombie hit (not_killed_of_pid_ne hpt')).trans hz, (exit_pid i).trans hpi⟩

theorem fateHeld (hp : (s.exit t status).fate p = .held u) :
    ∃ req i st, (s.exit t status).pc u = .got req i st ∧ (s.exit t status).pid i = p := by
  have hpt : p ≠ s.pid t := by
    rintro rfl
    rw [exit_fate_self] at hp
    exact nomatch hp
  rw [exit_fate hpt] at hp
  have hf : s.fate p = .held u ∧ u ≠ t ∧ s.killed t u = false := by
    split at hp
    · split_ifs at hp with hc
      · simp only [Bool.or_eq_true, decide_eq_true_eq, not_or, Bool.not_eq_true] at hc
        cases hp
        exact ⟨‹_›, hc⟩
    · next hfate => exact absurd hp (hfate u)
  obtain ⟨hf, hut, hk⟩ := hf
  obtain ⟨req, i, st, hpc, hpi⟩ := h.ok.fateHeld p u hf
  exact ⟨req, i, st, (exit_pc hut hk).trans hpc, (exit_pid i).trans hpi⟩

theorem running (p : Nat) : (s.exit t status).fate p = .running ↔ (s.exit t status).exited p = none := by
  by_cases hpt : p = s.pid t
  · rw [hpt, exit_fate_self, exit_exited_self]
    exact iff_of_false (by exact nofun) (by exact nofun)
  · rw [exit_fate hpt, exit_exited hpt, ← h.ok.running p]
    split
    · next hf =>
      rw [hf]
      split_ifs
      · exact iff_of_false (by exact nofun) (by exact nofun)
      · exact Iff.rfl
    · exact Iff.rfl

/-- No thread is left of a process that has exited. -/
theorem not_lives (hroot : s.pid t ≠ 0) : ¬ (s.exit t status).Lives (s.pid t) := by
  rintro ⟨j, hj, hjenabled, hjpid, hjzombie⟩
  have hjt : j ≠ t := by
    rintro rfl
    exact absurd (exit_zombie_self.symm.trans hjzombie) (by exact nofun)
  have hj0 : j ≠ 0 := by
    rintro rfl
    exact hroot (hjpid.symm.trans ((exit_pid 0).trans h.ok.zero.1))
  have hmem : j ∈ s.sched.ids := Sched.mem_ids s.sched |>.mpr ⟨Nat.pos_of_ne_zero hj0, hj⟩
  have hk := not_killed_of_enabled hjenabled
  rw [killed_iff.mpr ⟨hmem, (exit_pid j).symm.trans hjpid, hjt⟩] at hk
  exact nomatch hk

theorem lost (hp : (s.exit t status).fate p = .lost) :
    (s.exit t status).waived p = true ∨ ¬ (s.exit t status).Lives (s.parentOf p) := by
  have hpt : p ≠ s.pid t := by
    rintro rfl
    rw [exit_fate_self] at hp
    exact nomatch hp
  rw [exit_fate hpt] at hp
  rw [exit_waived hpt]
  split at hp
  · next u hf =>
    split_ifs at hp with hc
    · obtain ⟨req, i, st, hpc, rfl⟩ := h.ok.fateHeld p u hf
      have ho := h.ok.got u req i st hpc
      -- the caller was of the process that exits, and no thread of it is left
      have hcaller : s.pid u = s.pid t := by
        simp only [Bool.or_eq_true, decide_eq_true_eq] at hc
        rcases hc with rfl | hk
        · rfl
        · exact (killed_iff.mp hk).2.1
      have hx : s.exited (s.pid i) ≠ none := by
        rw [ho.exited]
        exact nofun
      have hroot : s.pid t ≠ 0 := by
        rw [← hcaller, ← ho.parent]
        exact (h.ok.root _ hx).1
      refine .inr ?_
      rw [ho.parent, hcaller]
      exact h.not_lives hroot
  · exact dying_exit.lost (h.ok.lost p hp)

theorem doomed (hd : ((s.exit t status).pc i).Doomed) :
    (s.exit t status).waived (s.pid i) = true ∨ ¬ (s.exit t status).Lives (s.parentOf (s.pid i)) := by
  by_cases hit : i = t
  · rw [hit]
    refine .inl ((update_self _ _ _).trans ?_)
    rw [hit, exit_pc_self] at hd
    cases hg : s.ignores (s.pid (s.parent t))
    · have hsend : s.sendSignal t = true := by simp [sendSignal, h.alive, h.parent, hg]
      rw [hsend] at hd
      exact hd.elim
    · rfl
  · have hgone : (s.exit t status).pc i ≠ .gone := by
      intro hg
      rw [hg] at hd
      exact hd
    obtain ⟨-, heq⟩ := pc_of_exit hgone hit rfl
    rw [← heq] at hd
    rw [exit_waived (h.pid_ne (h.ok.exiting i hd.exiting))]
    exact dying_exit.lost (h.ok.doomed i hd)

theorem sending {parent : Nat} {sent : Bool} (hpc : (s.exit t status).pc u = .sending i parent sent) :
    parent = s.parentOf (s.pid u) := by
  have hut : u ≠ t := by
    rintro rfl
    rw [exit_pc_self] at hpc
    exact nomatch hpc
  obtain ⟨-, heq⟩ := pc_of_exit (by exact nofun) hut hpc
  exact h.ok.sending u i parent sent heq

end Exits

theorem Ok.exit (h : s.Ok) {t : Nat} {status : BitVec 32} (hrun : s.runs t = true) (hzombie : s.zombie t = false)
    (hparent : s.pid (s.parent t) ≠ 0) : (s.exit t status).Ok :=
  have e : Exits s t := ⟨h, hrun, hzombie, hparent⟩
  { zero := ⟨(exit_pid 0).trans h.zero.1, h.zero.2⟩
    pids := fun i => by
      rw [exit_pid]
      exact h.pids i
    old := fun _ => e.old
    root := fun _ => e.root
    gone := e.gone
    linked := fun i hi henabled => by
      rw [exit_table (not_killed_of_enabled henabled)] at henabled
      rw [exit_pid, exit_pid]
      exact h.linked i hi henabled
    zombie := fun _ => e.zombieOk
    exiting := fun _ => e.exiting
    ended := fun _ => e.ended
    got := fun _ _ _ _ => e.got
    fateZombie := fun _ _ => e.fateZombie
    fateHeld := fun _ _ => e.fateHeld
    running := e.running
    lost := fun _ => e.lost
    doomed := fun i hd => by
      rw [exit_pid]
      exact e.doomed hd
    sending := fun u i parent sent hpc => by
      rw [exit_pid]
      exact e.sending hpc }

/-! ### A task is deleted -/

/-- The row of `t` is freed, with the status that it holds as a zombie. -/
structure Cleans (s s' : System) (t : Nat) : Prop where
  total : s'.sched.total = s.sched.total
  dead : (s'.sched.table t).enabled = false
  enabled : ∀ i, i ≠ t → (s'.sched.table i).enabled = (s.sched.table i).enabled
  pid : ∀ i, s'.pid i = s.pid i
  pcSelf : s'.pc t = .gone
  pc : ∀ i, i ≠ t → s'.pc i = s.pc i
  zombieSelf : s'.zombie t = false
  zombie : ∀ i, i ≠ t → s'.zombie i = s.zombie i
  fateSelf : s.zombie t = true → s'.fate (s.pid t) = .lost
  fate : ∀ p, ¬ (s.zombie t = true ∧ p = s.pid t) → s'.fate p = s.fate p
  counter : s'.counter = s.counter
  parent : s'.parent = s.parent
  parentOf : s'.parentOf = s.parentOf
  exited : s'.exited = s.exited
  exitStatus : s'.exitStatus = s.exitStatus
  waived : s'.waived = s.waived

theorem cleans_privCleanup {t : Nat} {fate : Nat → Fate}
    (hfate : ∀ p, fate p = if s.zombie t = true ∧ p = s.pid t then .lost else s.fate p) :
    Cleans s
      ({ s with sched := s.sched.privCleanup t, zombie := update s.zombie t false, fate := fate }.setPc t .gone) t := by
  have hrow : ∀ i, i ≠ t → ((s.sched.privCleanup t).table i).noExec = (s.sched.table i).noExec := fun i hi =>
    (Sched.noExec_cleanup s.sched t i).trans (congrArg SchedTask.noExec (if_neg hi))
  have hrowt : ((s.sched.privCleanup t).table t).noExec = (Sched.clearTask (s.sched.table t)).noExec :=
    (Sched.noExec_cleanup s.sched t t).trans (congrArg SchedTask.noExec (if_pos rfl))
  exact {
    total := (Sched.sameEpoch_cleanup s.sched t).total
    dead := SchedTask.enabled_of_noExec hrowt
    enabled := fun i hi => SchedTask.enabled_of_noExec (hrow i hi)
    pid := fun i => by
      by_cases hi : i = t
      · rw [hi]
        exact (SchedTask.pid_of_noExec hrowt).trans rfl
      · exact SchedTask.pid_of_noExec (hrow i hi)
    pcSelf := pc_setPc t _
    pc := fun i hi => pc_setPc_of_ne _ hi
    zombieSelf := update_self t _ _
    zombie := fun i hi => update_of_ne hi _ _
    fateSelf := fun hz => (hfate _).trans (if_pos ⟨hz, rfl⟩)
    fate := fun p hp => (hfate p).trans (if_neg hp)
    counter := rfl
    parent := rfl
    parentOf := rfl
    exited := rfl
    exitStatus := rfl
    waived := rfl }

namespace Cleans

variable {t : Nat} (c : Cleans s s' t) {i u p : Nat}

include c

theorem ids : s'.sched.ids = s.sched.ids := congrArg (fun n => (List.range n).drop 1) c.total

theorem ne_of_enabled (hi : (s'.sched.table i).enabled = true) : i ≠ t := by
  rintro rfl
  rw [c.dead] at hi
  exact nomatch hi

theorem zombie_of (hz : s'.zombie i = true) : i ≠ t ∧ s.zombie i = true := by
  have hi : i ≠ t := by
    rintro rfl
    rw [c.zombieSelf] at hz
    exact nomatch hz
  exact ⟨hi, (c.zombie i hi).symm.trans hz⟩

theorem pc_of {pc : Pc} (hpc : pc ≠ .gone) (heq : s'.pc i = pc) : i ≠ t ∧ s.pc i = pc := by
  have hi : i ≠ t := by
    rintro rfl
    exact hpc (heq.symm.trans c.pcSelf)
  exact ⟨hi, (c.pc i hi).symm.trans heq⟩

theorem dying : Dying s s' := by
  refine dying_of_rows c.total fun i hi hz => ?_
  have hit := c.ne_of_enabled hi
  exact ⟨(c.enabled i hit).symm.trans hi, (c.zombie i hit).symm.trans hz, c.pid i⟩

/-- What is not lost is not that of the task. -/
theorem fate_of (hlost : s'.fate p ≠ .lost) : ¬ (s.zombie t = true ∧ p = s.pid t) ∧ s'.fate p = s.fate p := by
  have hboth : ¬ (s.zombie t = true ∧ p = s.pid t) := by
    rintro ⟨hz, rfl⟩
    exact hlost (c.fateSelf hz)
  exact ⟨hboth, c.fate p hboth⟩

variable (h : s.Ok)

include h

theorem gone (i : Nat) : s'.pc i = .gone ↔ (s'.sched.table i).enabled = false := by
  by_cases hi : i = t
  · rw [hi]
    exact iff_of_true c.pcSelf c.dead
  · rw [c.pc i hi, c.enabled i hi]
    exact h.gone i

theorem zombieOk (hz : s'.zombie i = true) : s'.ZombieOk i := by
  obtain ⟨hi, hz'⟩ := c.zombie_of hz
  have ho := h.zombie i hz'
  refine ⟨c.ids ▸ ho.mem, (c.enabled i hi).trans ho.enabled, ?_, ?_, ?_⟩
  · rw [c.pc i hi]
    exact ho.exiting
  · rw [c.pid, c.fate _ fun hboth => hi (h.zombie_unique hz' hboth.1 hboth.2), ho.fate]
  · rw [c.exited, c.pid, c.exitStatus]
    exact ho.exited

theorem exiting (hx : (s'.pc i).Exiting) : s'.zombie i = true := by
  have hgone : s'.pc i ≠ .gone := by
    intro hg
    rw [hg] at hx
    exact hx
  obtain ⟨hi, heq⟩ := c.pc_of hgone rfl
  rw [← heq] at hx
  exact (c.zombie i hi).trans (h.exiting i hx)

theorem ended (hi : i ∈ s'.sched.ids) (henabled : (s'.sched.table i).enabled = true) (hx : s'.exited (s'.pid i) ≠ none) :
    s'.zombie i = true := by
  have hit := c.ne_of_enabled henabled
  rw [c.enabled i hit] at henabled
  rw [c.exited, c.pid] at hx
  exact (c.zombie i hit).trans (h.ended i (c.ids ▸ hi) henabled hx)

theorem got {req : Int} {status : BitVec 32} (hpc : s'.pc u = .got req i status) : s'.GotOk u req i status := by
  obtain ⟨-, hpc⟩ := c.pc_of (by exact nofun) hpc
  have ho := h.got u req i status hpc
  -- a status that is held is not with the zombie any more
  have hne : ¬ (s.zombie t = true ∧ s.pid i = s.pid t) := by
    rintro ⟨hz, heq⟩
    have hf := ho.fate
    rw [heq, (h.zombie t hz).fate] at hf
    exact nomatch hf
  refine ⟨c.ids ▸ ho.mem, ?_, ?_, ?_, ?_⟩
  · rw [c.pid, c.fate _ hne, ho.fate]
  · rw [c.exited, c.pid]
    exact ho.exited
  · rw [c.parentOf, c.pid, c.pid]
    exact ho.parent
  · rw [c.pid]
    exact ho.asked

theorem fateZombie (hp : s'.fate p = .zombie i) : s'.zombie i = true ∧ s'.pid i = p := by
  obtain ⟨hboth, heq⟩ := c.fate_of (p := p) (by rw [hp]; exact nofun)
  obtain ⟨hz, hpi⟩ := h.fateZombie p i (heq.symm.trans hp)
  have hi : i ≠ t := by
    rintro rfl
    exact hboth ⟨hz, hpi.symm⟩
  exact ⟨(c.zombie i hi).trans hz, (c.pid i).trans hpi⟩

theorem fateHeld (hnot : ∀ req i status, s.pc t ≠ .got req i status) (hp : s'.fate p = .held u) :
    ∃ req i status, s'.pc u = .got req i status ∧ s'.pid i = p := by
  obtain ⟨-, heq⟩ := c.fate_of (p := p) (by rw [hp]; exact nofun)
  obtain ⟨req, i, status, hpc, hpi⟩ := h.fateHeld p u (heq.symm.trans hp)
  have hut : u ≠ t := by
    rintro rfl
    exact hnot req i status hpc
  exact ⟨req, i, status, (c.pc u hut).trans hpc, (c.pid i).trans hpi⟩

theorem running (p : Nat) : s'.fate p = .running ↔ s'.exited p = none := by
  rw [c.exited]
  by_cases hboth : s.zombie t = true ∧ p = s.pid t
  · obtain ⟨hz, rfl⟩ := hboth
    rw [c.fateSelf hz]
    refine iff_of_false (by exact nofun) fun hnone => ?_
    exact absurd ((h.zombie t hz).exited.symm.trans hnone) (by exact nofun)
  · rw [c.fate p hboth]
    exact h.running p

theorem lost (hdoomed : s.zombie t = true → (s.pc t).Doomed) (hp : s'.fate p = .lost) :
    s'.waived p = true ∨ ¬ s'.Lives (s'.parentOf p) := by
  rw [c.waived, c.parentOf]
  by_cases hboth : s.zombie t = true ∧ p = s.pid t
  · obtain ⟨hz, rfl⟩ := hboth
    exact c.dying.lost (h.doomed t (hdoomed hz))
  · rw [c.fate p hboth] at hp
    exact c.dying.lost (h.lost p hp)

theorem doomed (hd : (s'.pc i).Doomed) : s'.waived (s'.pid i) = true ∨ ¬ s'.Lives (s'.parentOf (s'.pid i)) := by
  have hgone : s'.pc i ≠ .gone := by
    intro hg
    rw [hg] at hd
    exact hd
  obtain ⟨-, heq⟩ := c.pc_of hgone rfl
  rw [← heq] at hd
  rw [c.waived, c.parentOf, c.pid]
  exact c.dying.lost (h.doomed i hd)

theorem ok (hnot : ∀ req i status, s.pc t ≠ .got req i status) (hdoomed : s.zombie t = true → (s.pc t).Doomed) : s'.Ok where
  zero := by
    rw [c.pid, c.parent, c.parentOf]
    exact h.zero
  pids i := by
    rw [c.pid, c.counter]
    exact h.pids i
  old p := by
    rw [c.exited, c.counter]
    exact h.old p
  root p := by
    rw [c.exited, c.parentOf, c.counter]
    exact h.root p
  gone := c.gone h
  linked i hi henabled := by
    rw [c.enabled i (c.ne_of_enabled henabled)] at henabled
    rw [c.parentOf, c.parent, c.pid, c.pid]
    exact h.linked i (c.ids ▸ hi) henabled
  zombie _ := c.zombieOk h
  exiting _ := c.exiting h
  ended _ := c.ended h
  got _ _ _ _ := c.got h
  fateZombie _ _ := c.fateZombie h
  fateHeld _ _ := c.fateHeld h hnot
  running := c.running h
  lost _ := c.lost h hdoomed
  doomed _ := c.doomed h
  sending u i parent sent hpc := by
    rw [c.parentOf, c.pid]
    exact h.sending u i parent sent (c.pc_of (by exact nofun) hpc).2

end Cleans

/-- The row of a task that is not in a call that has found a zombie is freed, with the status it holds. -/
theorem Ok.cleanup (h : s.Ok) {t : Nat} {fate : Nat → Fate} (hpc : ∀ req i status, s.pc t ≠ .got req i status)
    (hfate : ∀ p, fate p = if s.zombie t = true ∧ p = s.pid t then .lost else s.fate p)
    (hdoomed : s.zombie t = true → (s.pc t).Doomed) :
    ({ s with sched := s.sched.privCleanup t, zombie := update s.zombie t false, fate := fate }.setPc t .gone).Ok :=
  (cleans_privCleanup hfate).ok h hpc hdoomed

/-! ### A task is created -/

/-- A task of the process `pid` takes the row `id`, which was free, with `q` for its parent. -/
structure Creates (s s' : System) (pid id q : Nat) : Prop where
  mem : id ∈ s.sched.ids
  disabled : (s.sched.table id).enabled = false
  total : s'.sched.total = s.sched.total
  row : ∀ i, i ≠ id → s'.sched.table i = s.sched.table i
  enabledSelf : (s'.sched.table id).enabled = true
  pidSelf : s'.pid id = pid
  pcSelf : s'.pc id = .new
  pc : ∀ i, i ≠ id → s'.pc i = s.pc i
  parentSelf : s'.parent id = q
  parent : ∀ i, i ≠ id → s'.parent i = s.parent i
  /-- The counter may go on, and the process may be a new one. -/
  counter : s.counter ≤ s'.counter
  fits : pid < s'.counter
  parentOf : ∀ p < s.counter, s'.parentOf p = s.parentOf p
  parentOfSelf : s'.parentOf pid = s.pid q
  /-- Nobody refers to the row. -/
  freeParent : ∀ i ∈ s.sched.ids, (s.sched.table i).enabled = true → s.parent i = id → s.pid id = pid
  freeGot : ∀ t ∈ s.sched.ids, (s.pc t).found ≠ some id
  selfParent : q = id → s.pid q = pid
  unexited : s.exited pid = none
  lives : pid < s.counter → s.Lives pid
  zombie : s'.zombie = s.zombie
  exited : s'.exited = s.exited
  exitStatus : s'.exitStatus = s.exitStatus
  fate : s'.fate = s.fate
  waived : s'.waived = s.waived

namespace Creates

variable {pid id q : Nat} (c : Creates s s' pid id q) {i u p : Nat}

include c

theorem ids : s'.sched.ids = s.sched.ids := congrArg (fun n => (List.range n).drop 1) c.total

theorem ne_zero : 0 ≠ id := (Nat.ne_of_gt (Sched.mem_ids s.sched |>.mp c.mem).1).symm

theorem pid_eq (hi : i ≠ id) : s'.pid i = s.pid i := congrArg SchedTask.pid (c.row i hi)

theorem pc_of {pc : Pc} (hpc : pc ≠ .new) (heq : s'.pc i = pc) : i ≠ id ∧ s.pc i = pc := by
  have hi : i ≠ id := by
    rintro rfl
    exact hpc (heq.symm.trans c.pcSelf)
  exact ⟨hi, (c.pc i hi).symm.trans heq⟩

theorem found_ne {req : Int} {status : BitVec 32} (hu : u ∈ s.sched.ids) (hpc : s.pc u = .got req i status) : i ≠ id := by
  rintro rfl
  exact c.freeGot u hu (by rw [hpc]; rfl)

/-- No other process comes to life. -/
theorem lives_of (hp : p < s.counter) (hl : s'.Lives p) : s.Lives p := by
  obtain ⟨i, hi, henabled, hpid, hz⟩ := hl
  by_cases hiid : i = id
  · rw [hiid, c.pidSelf] at hpid
    rw [← hpid] at hp ⊢
    exact c.lives hp
  · rw [c.row i hiid] at henabled
    exact ⟨i, c.total ▸ hi, henabled, (c.pid_eq hiid).symm.trans hpid, c.zombie ▸ hz⟩

theorem linked_self : s'.parentOf (s'.pid id) = s'.pid (s'.parent id) := by
  rw [c.parentSelf, c.pidSelf]
  refine c.parentOfSelf.trans ?_
  by_cases hqi : q = id
  · rw [hqi, c.pidSelf, ← hqi]
    exact c.selfParent hqi
  · exact (c.pid_eq hqi).symm

variable (h : s.Ok)

include h

theorem ne_of_zombie (hz : s.zombie i = true) : i ≠ id := by
  rintro rfl
  exact absurd (c.disabled.symm.trans (h.zombie i hz).enabled) (by decide)

theorem parentOf_of_exited (hp : s.exited p ≠ none) : s'.parentOf p = s.parentOf p := c.parentOf p (h.old p hp)

theorem pids (i : Nat) : s'.pid i < s'.counter := by
  by_cases hi : i = id
  · rw [hi, c.pidSelf]
    exact c.fits
  · rw [c.pid_eq hi]
    exact Nat.lt_of_lt_of_le (h.pids i) c.counter

theorem root (hp : s'.exited p ≠ none) : s'.parentOf p ≠ 0 ∧ s'.parentOf p < s'.counter := by
  rw [c.exited] at hp
  rw [c.parentOf_of_exited h hp]
  exact ⟨(h.root p hp).1, Nat.lt_of_lt_of_le (h.root p hp).2 c.counter⟩

theorem gone (i : Nat) : s'.pc i = .gone ↔ (s'.sched.table i).enabled = false := by
  by_cases hi : i = id
  · rw [hi, c.pcSelf, c.enabledSelf]
    exact iff_of_false (by exact nofun) (by exact nofun)
  · rw [c.pc i hi, c.row i hi]
    exact h.gone i

theorem linked (hi : i ∈ s'.sched.ids) (henabled : (s'.sched.table i).enabled = true) :
    s'.parentOf (s'.pid i) = s'.pid (s'.parent i) := by
  by_cases hiid : i = id
  · rw [hiid]
    exact c.linked_self
  · rw [c.row i hiid] at henabled
    rw [c.parent i hiid, c.pid_eq hiid]
    refine (c.parentOf _ (h.pids i)).trans ((h.linked i (c.ids ▸ hi) henabled).trans ?_)
    -- a row that is recorded as a parent keeps its process
    by_cases hpi : s.parent i = id
    · rw [hpi, c.pidSelf]
      exact c.freeParent i (c.ids ▸ hi) henabled hpi
    · exact (c.pid_eq hpi).symm

theorem zombieOk (hz : s'.zombie i = true) : s'.ZombieOk i := by
  rw [c.zombie] at hz
  have hi := c.ne_of_zombie h hz
  have ho := h.zombie i hz
  refine ⟨c.ids ▸ ho.mem, ?_, ?_, ?_, ?_⟩
  · rw [c.row i hi, ho.enabled]
  · rw [c.pc i hi]
    exact ho.exiting
  · rw [c.pid_eq hi, c.fate]
    exact ho.fate
  · rw [c.pid_eq hi, c.exited, c.exitStatus]
    exact ho.exited

theorem exiting (hx : (s'.pc i).Exiting) : s'.zombie i = true := by
  have hnew : s'.pc i ≠ .new := by
    intro heq
    rw [heq] at hx
    exact hx
  obtain ⟨-, heq⟩ := c.pc_of hnew rfl
  rw [← heq] at hx
  rw [c.zombie]
  exact h.exiting i hx

theorem ended (hi : i ∈ s'.sched.ids) (henabled : (s'.sched.table i).enabled = true) (hx : s'.exited (s'.pid i) ≠ none) :
    s'.zombie i = true := by
  rw [c.exited] at hx
  by_cases hiid : i = id
  · rw [hiid, c.pidSelf] at hx
    exact absurd c.unexited hx
  · rw [c.row i hiid] at henabled
    rw [c.pid_eq hiid] at hx
    rw [c.zombie]
    exact h.ended i (c.ids ▸ hi) henabled hx

theorem got {req : Int} {status : BitVec 32} (hpc : s'.pc u = .got req i status) : s'.GotOk u req i status := by
  obtain ⟨hu, hpc⟩ := c.pc_of (by exact nofun) hpc
  have ho := h.got u req i status hpc
  have hi := c.found_ne ho.mem hpc
  refine ⟨c.ids ▸ ho.mem, ?_, ?_, ?_, ?_⟩
  · rw [c.pid_eq hi, c.fate]
    exact ho.fate
  · rw [c.pid_eq hi, c.exited]
    exact ho.exited
  · rw [c.pid_eq hi, c.pid_eq hu]
    exact (c.parentOf _ (h.pids i)).trans ho.parent
  · rw [c.pid_eq hi]
    exact ho.asked

theorem fateZombie (hp : s'.fate p = .zombie i) : s'.zombie i = true ∧ s'.pid i = p := by
  rw [c.fate] at hp
  obtain ⟨hz, hpi⟩ := h.fateZombie p i hp
  rw [c.zombie]
  exact ⟨hz, (c.pid_eq (c.ne_of_zombie h hz)).trans hpi⟩

theorem fateHeld (hp : s'.fate p = .held u) : ∃ req i status, s'.pc u = .got req i status ∧ s'.pid i = p := by
  rw [c.fate] at hp
  obtain ⟨req, i, status, hpc, hpi⟩ := h.fateHeld p u hp
  have hu : u ≠ id := by
    rintro rfl
    rw [(h.gone u).mpr c.disabled] at hpc
    exact nomatch hpc
  have hi := c.found_ne (h.got u req i status hpc).mem hpc
  exact ⟨req, i, status, (c.pc u hu).trans hpc, (c.pid_eq hi).trans hpi⟩

theorem lost (hp : s'.fate p = .lost) : s'.waived p = true ∨ ¬ s'.Lives (s'.parentOf p) := by
  rw [c.fate] at hp
  have hx : s.exited p ≠ none := by
    rw [Ne, ← h.running p]
    intro hr
    exact absurd (hp.symm.trans hr) (by exact nofun)
  rw [c.waived, c.parentOf_of_exited h hx]
  exact (h.lost p hp).imp_right fun hdead hl => hdead (c.lives_of (h.root p hx).2 hl)

theorem doomed (hd : (s'.pc i).Doomed) : s'.waived (s'.pid i) = true ∨ ¬ s'.Lives (s'.parentOf (s'.pid i)) := by
  have hnew : s'.pc i ≠ .new := by
    intro heq
    rw [heq] at hd
    exact hd
  obtain ⟨hi, heq⟩ := c.pc_of hnew rfl
  rw [← heq] at hd
  have hx : s.exited (s.pid i) ≠ none := by
    rw [(h.zombie i (h.exiting i hd.exiting)).exited]
    exact nofun
  rw [c.waived, c.pid_eq hi, c.parentOf_of_exited h hx]
  exact (h.doomed i hd).imp_right fun hdead hl => hdead (c.lives_of (h.root _ hx).2 hl)

theorem sending {t parent : Nat} {sent : Bool} (hpc : s'.pc t = .sending i parent sent) : parent = s'.parentOf (s'.pid t) := by
  obtain ⟨ht, hpc⟩ := c.pc_of (by exact nofun) hpc
  rw [c.pid_eq ht]
  exact (h.sending t i parent sent hpc).trans (c.parentOf _ (h.pids t)).symm

theorem ok : s'.Ok where
  zero := by
    refine ⟨(c.pid_eq c.ne_zero).trans h.zero.1, (c.parent 0 c.ne_zero).trans h.zero.2.1, ?_⟩
    exact (c.parentOf 0 (h.zero.1 ▸ h.pids 0)).trans h.zero.2.2
  pids := c.pids h
  old p hp := Nat.lt_of_lt_of_le (h.old p (c.exited ▸ hp)) c.counter
  root _ := c.root h
  gone := c.gone h
  linked _ := c.linked h
  zombie _ := c.zombieOk h
  exiting _ := c.exiting h
  ended _ := c.ended h
  got _ _ _ _ := c.got h
  fateZombie _ _ := c.fateZombie h
  fateHeld _ _ := c.fateHeld h
  running p := by
    rw [c.fate, c.exited]
    exact h.running p
  lost _ := c.lost h
  doomed _ := c.doomed h
  sending _ _ _ _ := c.sending h

end Creates

/-- A task of a process that has not exited takes a free row, with `q` for its parent. -/
theorem Ok.create (h : s.Ok) {pid id q counter : Nat} {sched : Sched} {isThread : Nat → Bool} {parentOf : Nat → Nat}
    (hnew : s.sched.taskPrivNewTask pid = some (sched, id)) (hfree : s.Free pid) (hcounter : s.counter ≤ counter)
    (hpid : pid < counter) (hnone : s.exited pid = none) (hlives : pid < s.counter → s.Lives pid)
    (hparentOf : ∀ p < s.counter, parentOf p = s.parentOf p) (hq : parentOf pid = s.pid q)
    (hqid : q = id → s.pid q = pid) :
    ({ s with
        sched := sched
        counter := counter
        parent := update s.parent id q
        isThread := isThread
        parentOf := parentOf }.setPc id .new).Ok := by
  obtain ⟨hid, hdisabled, hrows⟩ := Sched.newTask_spec s.sched hnew
  obtain ⟨hfreeParent, hfreeGot⟩ := hfree _ hnew
  have hrow : sched.table id = { s.sched.table id with enabled := true, exec := false, pid := pid } :=
    (hrows id).trans (if_pos rfl)
  have c : Creates s
      ({ s with
          sched := sched
          counter := counter
          parent := update s.parent id q
          isThread := isThread
          parentOf := parentOf }.setPc id .new) pid id q := {
    mem := hid
    disabled := hdisabled
    total := (Sched.sameEpoch_newTask s.sched hnew).total
    row := fun i hi => (hrows i).trans (if_neg hi)
    enabledSelf := congrArg SchedTask.enabled hrow
    pidSelf := congrArg SchedTask.pid hrow
    pcSelf := pc_setPc id _
    pc := fun i hi => pc_setPc_of_ne _ hi
    parentSelf := update_self id _ _
    parent := fun i hi => update_of_ne hi _ _
    counter := hcounter
    fits := hpid
    parentOf := hparentOf
    parentOfSelf := hq
    freeParent := hfreeParent
    freeGot := hfreeGot
    selfParent := hqid
    unexited := hnone
    lives := hlives
    zombie := rfl
    exited := rfl
    exitStatus := rfl
    fate := rfl
    waived := rfl }
  exact c.ok h

/-! ### One step -/

/-- What has been reported stays so. -/
structure Keeps (s s' : System) : Prop where
  exited : ∀ p status, s.exited p = some status → s'.exited p = some status ∧ s'.parentOf p = s.parentOf p
  reported : ∀ p, s'.fate p = .reported ↔ s.fate p = .reported

/-- The call of process `caller` reports a status that has not been reported. -/
structure Tells (s s' : System) (caller : Nat) (req : Int) (pid : Nat) (status : BitVec 32) : Prop where
  exited : s'.exited = s.exited
  parentOf : s'.parentOf = s.parentOf
  fate : s'.fate = update s.fate pid .reported
  first : s.fate pid ≠ .reported
  parent : s.parentOf pid = caller
  status : s.exited pid = some status
  asked : req = -1 ∨ req = pid

/-- What becomes of the reports with the event of a step. -/
def Emits (s s' : System) : Option Event → Prop
  | none => Keeps s s'
  | some (.refused hopeless _) => hopeless = false ∧ Keeps s s'
  | some (.waited caller req pid status) => Tells s s' caller req pid status

theorem keeps_of_eq (hexited : s'.exited = s.exited) (hparentOf : s'.parentOf = s.parentOf) (hfate : s'.fate = s.fate) :
    Keeps s s' where
  exited p status hp := ⟨(congrFun hexited p).trans hp, congrFun hparentOf p⟩
  reported p := by rw [hfate]

/-- The status of a process that is not reported is not reported by being held or lost. -/
theorem keeps_of_update {p : Nat} {fate : Fate} (hexited : s'.exited = s.exited) (hparentOf : s'.parentOf = s.parentOf)
    (hfate : s'.fate = update s.fate p fate) (hold : s.fate p ≠ .reported) (hnew : fate ≠ .reported) : Keeps s s' where
  exited q status hq := ⟨(congrFun hexited q).trans hq, congrFun hparentOf q⟩
  reported q := by
    rw [hfate]
    by_cases hq : q = p
    · rw [hq, update_self]
      exact iff_of_false hnew hold
    · rw [update_of_ne hq]

theorem Ok.keeps_zombie (h : s.Ok) {i : Nat} {fate : Fate} (hz : s.zombie i = true) (hexited : s'.exited = s.exited)
    (hparentOf : s'.parentOf = s.parentOf) (hfate : s'.fate = update s.fate (s.pid i) fate)
    (hnew : fate ≠ .reported) : Keeps s s' := by
  refine keeps_of_update hexited hparentOf hfate ?_ hnew
  rw [(h.zombie i hz).fate]
  exact nofun

theorem Ok.step_waitpidCheck (h : s.Ok) {t : Nat} (pid : Int) (wnohang : Bool) (ht : t ∈ s.sched.ids)
    (hpc : s.pc t = .idle) (hhope : s.hopeless t = false) :
    (s.waitpidCheck t pid wnohang).1.Ok ∧ (s.waitpidCheck t pid wnohang).1.hopeless = s.hopeless ∧
      Emits s (s.waitpidCheck t pid wnohang).1 (s.waitpidCheck t pid wnohang).2 := by
  have hsame : Keeps s s := keeps_of_eq rfl rfl rfl
  unfold waitpidCheck
  cases hfind : s.findZombie t pid with
  | none =>
    split_ifs
    · exact ⟨h, rfl, hhope, hsame⟩
    · exact ⟨h, rfl, hhope, hsame⟩
    · exact ⟨h.quiet_move hpc (quiet_refl s) rfl trivial trivial id id, rfl, keeps_of_eq rfl rfl rfl⟩
  | some i =>
    dsimp only
    split_ifs
    · exact ⟨h, rfl, hhope, hsame⟩
    · refine ⟨h.take ht (hpc ▸ trivial) (hpc ▸ id) hfind, rfl, ?_⟩
      exact h.keeps_zombie (findZombie_spec hfind).2.2.1 rfl rfl rfl (by exact nofun)

theorem Ok.step_privWaitChild (h : s.Ok) {t : Nat} {pid : Int} (ht : t ∈ s.sched.ids) (hpc : s.pc t = .waiting pid) :
    (s.privWaitChild t pid).Ok ∧ (s.privWaitChild t pid).hopeless = s.hopeless ∧ Keeps s (s.privWaitChild t pid) := by
  unfold privWaitChild
  split
  · next i hfind =>
    refine ⟨h.take ht (hpc ▸ trivial) (hpc ▸ id) hfind, rfl, ?_⟩
    exact h.keeps_zombie (findZombie_spec hfind).2.2.1 rfl rfl rfl (by exact nofun)
  · have hq := quiet_sleep s t
    refine ⟨?_, rfl, keeps_of_eq rfl rfl rfl⟩
    exact h.quiet_move hpc { hq with } rfl trivial trivial id id

theorem Ok.step_waitTest (h : s.Ok) {t : Nat} {pid tid : Int} (hpc : s.pc t = .asleep pid tid)
    (hhope : s.hopeless t = false) :
    (s.waitTest t pid tid).1.Ok ∧ (s.waitTest t pid tid).1.hopeless = s.hopeless ∧
      Emits s (s.waitTest t pid tid).1 (s.waitTest t pid tid).2 := by
  have hmove : ∀ pc : Pc, pc.Plain → ¬ pc.Exiting → (s.setPc t pc).Ok := fun pc hplain hnot =>
    h.quiet_move hpc (quiet_refl s) rfl trivial hplain id hnot
  have hkeeps : ∀ pc : Pc, Keeps s (s.setPc t pc) := fun pc => keeps_of_eq rfl rfl rfl
  unfold waitTest
  split_ifs
  · exact ⟨hmove _ trivial id, rfl, hkeeps _⟩
  · exact ⟨hmove _ trivial id, rfl, hhope, hkeeps _⟩
  · exact ⟨hmove _ trivial id, rfl, hhope, hkeeps _⟩

theorem Ok.step_waitReturn (h : s.Ok) {t i : Nat} {pid : Int} {status : BitVec 32}
    (hpc : s.pc t = .got pid i status) :
    (s.waitReturn t pid i status).1.Ok ∧ (s.waitReturn t pid i status).1.hopeless = s.hopeless ∧
      Emits s (s.waitReturn t pid i status).1 (s.waitReturn t pid i status).2 := by
  have ho := h.got t pid i status hpc
  refine ⟨h.waitReturn hpc, rfl, rfl, rfl, rfl, ?_, ho.parent, ho.exited, ho.asked⟩
  rw [ho.fate]
  exact nofun

theorem Ok.step_exit (h : s.Ok) {t : Nat} {status : BitVec 32} (hrun : s.runs t = true) (hzombie : s.zombie t = false)
    (hparent : s.pid (s.parent t) ≠ 0) : (s.exit t status).Ok ∧ Keeps s (s.exit t status) := by
  have hnone : s.exited (s.pid t) = none := by
    by_contra hx
    rw [h.ended t (mem_of_runs hrun) (enabled_of_runs hrun) hx] at hzombie
    exact nomatch hzombie
  refine ⟨h.exit hrun hzombie hparent, fun p st hp => ?_, fun p => ?_⟩
  · have hpt : p ≠ s.pid t := by
      rintro rfl
      rw [hnone] at hp
      exact nomatch hp
    exact ⟨(update_of_ne hpt _ _).trans hp, rfl⟩
  · by_cases hpt : p = s.pid t
    · rw [hpt, (h.running _).mpr hnone]
      refine iff_of_false ?_ (by exact nofun)
      rw [show (s.exit t status).fate (s.pid t) = .zombie t from if_pos rfl]
      exact nofun
    · have hfate : (s.exit t status).fate p =
          match s.fate p with
          | .held u => if u = t || s.killed t u then .lost else .held u
          | fate => fate := if_neg hpt
      rw [hfate]
      split
      · next u hf =>
        rw [hf]
        split_ifs
        · exact iff_of_false (by exact nofun) (by exact nofun)
        · exact Iff.rfl
      · exact Iff.rfl

theorem Ok.step_afterClose (h : s.Ok) {t : Nat} {send : Bool} (hrun : s.runs t = true)
    (hpc : s.pc t = .stopped send) : (s.afterClose t send).Ok ∧ Keeps s (s.afterClose t send) := by
  cases send with
  | false =>
    refine ⟨h.quiet_setPc hpc (quiet_refl s) rfl trivial trivial Iff.rfl (fun _ => .inl trivial) ?_,
      keeps_of_eq rfl rfl rfl⟩
    exact nofun
  | true =>
    refine ⟨h.quiet_setPc hpc (quiet_refl s) rfl trivial trivial Iff.rfl False.elim ?_, keeps_of_eq rfl rfl rfl⟩
    rintro i parent sent heq
    cases heq
    exact (h.linked t (mem_of_runs hrun) (enabled_of_runs hrun)).symm

theorem Ok.step_sendNext (h : s.Ok) {t i parent : Nat} {sent delivered : Bool} (hpc : s.pc t = .sending i parent sent)
    (hcareful : s.sched.total ≤ i → sent = true ∨ ¬ s.Lives parent) :
    (s.sendNext t i parent sent delivered).Ok ∧ Keeps s (s.sendNext t i parent sent delivered) := by
  have hparent := h.sending t i parent sent hpc
  have hnext : ∀ (s' : System) (sent' : Bool), Quiet s s' → s'.pc = s.pc →
      (s'.setPc t (.sending (i + 1) parent sent')).Ok := by
    intro s' sent' hq hsame
    refine h.quiet_setPc hpc hq hsame trivial trivial Iff.rfl False.elim fun j parent' sent'' heq => ?_
    cases heq
    exact hparent
  unfold sendNext
  split_ifs with hi
  · exact ⟨hnext _ true (quiet_signal s i) rfl, keeps_of_eq rfl rfl rfl⟩
  · exact ⟨hnext s sent (quiet_refl s) rfl, keeps_of_eq rfl rfl rfl⟩
  · refine ⟨h.quiet_setPc hpc (quiet_refl s) rfl trivial trivial Iff.rfl (fun hd => ?_) (by exact nofun),
      keeps_of_eq rfl rfl rfl⟩
    -- a process that has sent no signal leaves no zombie
    rcases hcareful (Nat.le_of_not_lt hi) with hsent | hdead
    · rw [hsent] at hd
      exact hd.elim
    · rw [hparent] at hdead
      exact .inr (.inr hdead)

theorem Ok.step_privZombieProcess (h : s.Ok) {t : Nat} {send : Bool} (hpc : s.pc t = .ended send) :
    (s.privZombieProcess t send).Ok ∧ Keeps s (s.privZombieProcess t send) := by
  cases send with
  | true => exact ⟨h.quiet_same (quiet_sleep s t) rfl, keeps_of_eq rfl rfl rfl⟩
  | false =>
    have hz : s.zombie t = true := h.exiting t (hpc ▸ trivial)
    refine ⟨h.cleanup (fun _ _ _ => ?_) (fun p => ?_) fun _ => hpc ▸ trivial,
      h.keeps_zombie hz rfl rfl rfl (by exact nofun)⟩
    · rw [hpc]
      exact nofun
    · rw [hz, update_apply]
      simp

theorem Ok.step_threadEnd (h : s.Ok) {t : Nat} (hpc : s.pc t = .idle) :
    (s.threadEnd t).Ok ∧ Keeps s (s.threadEnd t) := by
  have hz : s.zombie t = false := h.not_zombie (hpc ▸ id)
  refine ⟨h.cleanup (fun _ _ _ => ?_) (fun p => ?_) fun hz' => ?_, keeps_of_eq rfl rfl rfl⟩
  · rw [hpc]
    exact nofun
  · rw [hz]
    simp
  · rw [hz] at hz'
    exact nomatch hz'

theorem Ok.alive (h : s.Ok) {t : Nat} (hrun : s.runs t = true) (hpc : s.pc t = .idle) :
    s.Lives (s.pid t) ∧ s.exited (s.pid t) = none := by
  have hz : s.zombie t = false := h.not_zombie (hpc ▸ id)
  refine ⟨⟨t, (Sched.mem_ids s.sched |>.mp (mem_of_runs hrun)).2, enabled_of_runs hrun, rfl, hz⟩, ?_⟩
  by_contra hx
  rw [h.ended t (mem_of_runs hrun) (enabled_of_runs hrun) hx] at hz
  exact nomatch hz

theorem Ok.step_newProcess (h : s.Ok) {t : Nat} (hrun : s.runs t = true) (hfree : s.Free s.counter) : (s.newProcess t).Ok ∧ Keeps s (s.newProcess t) := by
  have hnone : s.exited s.counter = none := by
    by_contra hx
    exact Nat.lt_irrefl _ (h.old _ hx)
  unfold newProcess
  split
  · refine ⟨⟨h.zero, fun i => Nat.lt_succ_of_lt (h.pids i), fun p hp => Nat.lt_succ_of_lt (h.old p hp), fun p hp => ?_,
      h.gone, h.linked, ?_, h.exiting, h.ended, ?_, h.fateZombie, h.fateHeld, h.running, h.lost, h.doomed, h.sending⟩,
      keeps_of_eq rfl rfl rfl⟩
    · exact ⟨(h.root p hp).1, Nat.lt_succ_of_lt (h.root p hp).2⟩
    · intro i hz
      exact { h.zombie i hz with }
    · intro u req i status hpcu
      exact { h.got u req i status hpcu with }
  · next sched id hnew =>
    have hdisabled := (Sched.newTask_spec s.sched hnew).2.1
    refine ⟨h.create hnew hfree (Nat.le_succ _) (Nat.lt_succ_self _) hnone (fun hlt => ?_) (fun p hp => ?_) ?_
      fun heq => ?_, fun p status hp => ⟨hp, ?_⟩, fun p => Iff.rfl⟩
    · exact absurd hlt (Nat.lt_irrefl _)
    · exact update_of_ne (Nat.ne_of_lt hp) _ _
    · exact update_self _ _ _
    · rw [← heq, enabled_of_runs hrun] at hdisabled
      exact nomatch hdisabled
    · refine update_of_ne (Nat.ne_of_lt (h.old p ?_)) _ _
      rw [hp]
      exact nofun

theorem threadZero_spec {pid z : Nat} (hz : s.threadZero pid = some z) :
    z < s.sched.total ∧ (s.sched.table z).enabled = true ∧ s.pid z = pid := by
  have hfound := List.find?_some hz
  simp only [Bool.and_eq_true, beq_iff_eq] at hfound
  exact ⟨List.mem_range.mp (List.mem_of_find?_eq_some hz), hfound.1.1, hfound.1.2⟩

theorem Ok.step_newThread (h : s.Ok) {t : Nat} (hrun : s.runs t = true) (hpc : s.pc t = .idle)
    (hfree : s.Free (s.pid t)) : (s.newThread t).Ok ∧ Keeps s (s.newThread t) := by
  have hkeeps : Keeps s s := keeps_of_eq rfl rfl rfl
  unfold newThread
  split
  · exact ⟨h, hkeeps⟩
  · next z hz =>
    split
    · exact ⟨h, hkeeps⟩
    · next sched id hnew =>
      obtain ⟨hzlt, hzenabled, hzpid⟩ := threadZero_spec hz
      have hid0 : id ≠ 0 := Nat.ne_of_gt (Sched.mem_ids s.sched |>.mp (Sched.newTask_spec s.sched hnew).1).1
      obtain ⟨hlives, hnone⟩ := h.alive hrun hpc
      refine ⟨h.create hnew hfree (Nat.le_refl _) (h.pids t) hnone (fun _ => hlives) (fun _ _ => rfl) ?_ fun heq => ?_,
        keeps_of_eq rfl rfl rfl⟩
      · by_cases hz0 : z = 0
        · rw [← hzpid, hz0, h.zero.1, h.zero.2.1, h.zero.1, h.zero.2.2]
        · rw [← hzpid]
          exact h.linked z (Sched.mem_ids s.sched |>.mpr ⟨Nat.pos_of_ne_zero hz0, hzlt⟩) hzenabled
      · by_cases hz0 : z = 0
        · rw [hz0, h.zero.2.1] at heq
          exact absurd heq.symm hid0
        · rw [heq]
          exact (hfree _ hnew).1 z (Sched.mem_ids s.sched |>.mpr ⟨Nat.pos_of_ne_zero hz0, hzlt⟩) hzenabled heq

theorem Ok.step_activate (h : s.Ok) {id : Nat} {schedPriority : Int} (hpc : s.pc id = .new) :
    (s.activate id schedPriority).Ok ∧ Keeps s (s.activate id schedPriority) := by
  have hz : s.zombie id = false := h.not_zombie (hpc ▸ fun hx => hx)
  exact ⟨h.quiet_move hpc (quiet_activate hz schedPriority) rfl trivial trivial (fun hx => hx) fun hx => hx,
    keeps_of_eq rfl rfl rfl⟩

theorem eq_of_some {p : System × Option Event} {e : Option Event} (h : some p = some (s', e)) : s' = p.1 ∧ e = p.2 := by
  cases h
  exact ⟨rfl, rfl⟩

theorem Ok.step (h : s.Ok) (hhope : ∀ t, s.hopeless t = false) {a : Action} {e : Option Event} (hcareful : s.Careful a)
    (hs : s.step a = some (s', e)) : s'.Ok ∧ (∀ t, s'.hopeless t = false) ∧ Emits s s' e := by
  have hquiet : ∀ {s' : System}, s'.Ok ∧ Keeps s s' → s'.hopeless = s.hopeless →
      s'.Ok ∧ (∀ t, s'.hopeless t = false) ∧ Emits s s' none := by
    rintro s' ⟨hok, hkeeps⟩ hsame
    exact ⟨hok, fun t => by rw [hsame, hhope], hkeeps⟩
  unfold System.step at hs
  split at hs
  · next t pid wnohang =>
    split_ifs at hs with hc
    obtain ⟨hrun, hpc⟩ := hc
    obtain ⟨rfl, rfl⟩ := eq_of_some hs
    have hchild : s.HasChild t pid := hcareful
    have hset : update s.hopeless t (!decide (s.HasChild t pid)) = s.hopeless := by
      rw [decide_eq_true hchild, Bool.not_true, ← hhope t]
      exact update_eq_self t s.hopeless
    unfold waitpid
    rw [hset]
    obtain ⟨hok, hsame, hemits⟩ := h.step_waitpidCheck pid wnohang (mem_of_runs hrun) hpc (hhope t)
    exact ⟨hok, fun u => (congrFun hsame u).trans (hhope u), hemits⟩
  · next t =>
    split at hs
    · next pid hpc =>
      split_ifs at hs with hrun
      cases hs
      obtain ⟨hok, hsame, hkeeps⟩ := h.step_privWaitChild (mem_of_runs hrun) hpc
      exact hquiet ⟨hok, hkeeps⟩ hsame
    · exact nomatch hs
  · next t =>
    split at hs
    · next pid tid hpc =>
      split_ifs at hs with hrun
      obtain ⟨rfl, rfl⟩ := eq_of_some hs
      obtain ⟨hok, hsame, hemits⟩ := h.step_waitTest hpc (hhope t)
      exact ⟨hok, fun u => (congrFun hsame u).trans (hhope u), hemits⟩
    · exact nomatch hs
  · next t =>
    split at hs
    · next pid i status hpc =>
      split_ifs at hs with hrun
      cases hs
      obtain ⟨hok, hsame, hemits⟩ := h.step_waitReturn hpc
      exact ⟨hok, fun u => (congrFun hsame u).trans (hhope u), hemits⟩
    · exact nomatch hs
  · next t status =>
    split_ifs at hs with hc
    cases hs
    exact hquiet (h.step_exit hc.1 hcareful.1 hcareful.2) rfl
  · next t =>
    split at hs
    · next send hpc =>
      split_ifs at hs with hrun
      cases hs
      refine hquiet (h.step_afterClose hrun hpc) ?_
      unfold afterClose
      split_ifs <;> rfl
    · exact nomatch hs
  · next t delivered =>
    split at hs
    · next i parent sent hpc =>
      split_ifs at hs with hrun
      cases hs
      have hsent : s.sched.total ≤ i → sent = true ∨ ¬ s.Lives parent := hcareful (i, parent, sent) (by rw [hpc]; rfl)
      refine hquiet (h.step_sendNext hpc hsent) ?_
      unfold sendNext
      split_ifs <;> rfl
    · exact nomatch hs
  · next t =>
    split at hs
    · next send hpc =>
      split_ifs at hs with hrun
      cases hs
      refine hquiet (h.step_privZombieProcess hpc) ?_
      unfold privZombieProcess
      split_ifs <;> rfl
    · exact nomatch hs
  · next t =>
    split_ifs at hs with hc
    cases hs
    refine hquiet (h.step_newProcess hc.1 hcareful) ?_
    unfold newProcess
    split <;> rfl
  · next t =>
    split_ifs at hs with hc
    cases hs
    refine hquiet (h.step_newThread hc.1 hc.2 hcareful) ?_
    unfold newThread
    split
    · rfl
    · split <;> rfl
  · split_ifs at hs with hpc
    cases hs
    exact hquiet (h.step_activate hpc) rfl
  · split_ifs at hs with hc
    cases hs
    exact hquiet (h.step_threadEnd hc.2.1) rfl
  · next t =>
    cases hs
    exact hquiet ⟨h.quiet_same (quiet_signal s t) rfl, keeps_of_eq rfl rfl rfl⟩ rfl
  · cases hs
    exact hquiet ⟨h.quiet_same { quiet_refl s with } rfl, keeps_of_eq rfl rfl rfl⟩ rfl
  · cases hs
    exact hquiet ⟨h.quiet_same { quiet_refl s with } rfl, keeps_of_eq rfl rfl rfl⟩ rfl
  · next t u =>
    cases hs
    exact hquiet ⟨h.quiet_same (quiet_wake s t u) rfl, keeps_of_eq rfl rfl rfl⟩ rfl

/-! ### Runs -/

section

variable (s : System)

/-- What has been reported in a run. -/
structure Told (es : List Event) : Prop where
  waited : ∀ caller req pid status, Event.waited caller req pid status ∈ es →
    s.parentOf pid = caller ∧ s.exited pid = some status ∧ (req = -1 ∨ req = pid) ∧ s.fate pid = .reported
  once : (es.filterMap Event.reported).Nodup
  event : ∀ pid, s.fate pid = .reported → ∃ caller req status,
    s.exited pid = some status ∧ Event.waited caller req pid status ∈ es
  refused : ∀ errno, Event.refused true errno ∉ es

end

theorem reported_eq_some {e : Event} {pid : Nat} (h : e.reported = some pid) :
    ∃ caller req status, e = .waited caller req pid status := by
  cases e with
  | waited caller req p status =>
    cases h
    exact ⟨caller, req, status, rfl⟩
  | refused _ _ => exact nomatch h

theorem Told.keeps {es : List Event} (h : s.Told es) (hk : Keeps s s') : s'.Told es where
  waited caller req pid status hmem := by
    obtain ⟨hparent, hexited, hasked, hfate⟩ := h.waited caller req pid status hmem
    obtain ⟨hexited', hparent'⟩ := hk.exited pid status hexited
    exact ⟨hparent'.trans hparent, hexited', hasked, (hk.reported pid).mpr hfate⟩
  once := h.once
  event pid hfate := by
    obtain ⟨caller, req, status, hexited, hmem⟩ := h.event pid ((hk.reported pid).mp hfate)
    exact ⟨caller, req, status, (hk.exited pid status hexited).1, hmem⟩
  refused := h.refused

theorem Told.tells {es : List Event} (h : s.Told es) {caller : Nat} {req : Int} {pid : Nat} {status : BitVec 32}
    (ht : Tells s s' caller req pid status) : s'.Told (es ++ [.waited caller req pid status]) where
  waited caller' req' pid' status' hmem := by
    rw [ht.parentOf, ht.exited, ht.fate]
    rcases List.mem_append.mp hmem with hold | hnew
    · obtain ⟨hparent, hexited, hasked, hfate⟩ := h.waited caller' req' pid' status' hold
      refine ⟨hparent, hexited, hasked, ?_⟩
      rw [update_apply, hfate, ite_self]
    · cases List.mem_singleton.mp hnew
      exact ⟨ht.parent, ht.status, ht.asked, update_self _ _ _⟩
  once := by
    rw [List.filterMap_append, List.nodup_append]
    refine ⟨h.once, List.nodup_cons.mpr ⟨List.not_mem_nil, List.nodup_nil⟩, fun p hp q hq heq => ?_⟩
    cases List.mem_singleton.mp hq
    obtain ⟨e, hmem, hreported⟩ := List.mem_filterMap.mp hp
    obtain ⟨caller', req', status', rfl⟩ := reported_eq_some hreported
    exact ht.first (heq ▸ (h.waited caller' req' p status' hmem).2.2.2)
  event p hfate := by
    rw [ht.fate] at hfate
    rw [ht.exited]
    by_cases hp : p = pid
    · exact ⟨caller, req, status, hp ▸ ht.status, hp ▸ List.mem_append_right es (List.mem_singleton_self _)⟩
    · rw [update_of_ne hp] at hfate
      obtain ⟨caller', req', status', hexited, hmem⟩ := h.event p hfate
      exact ⟨caller', req', status', hexited, List.mem_append_left _ hmem⟩
  refused errno hmem := by
    rcases List.mem_append.mp hmem with hold | hnew
    · exact h.refused errno hold
    · exact nomatch List.mem_singleton.mp hnew

theorem Told.step {es : List Event} (h : s.Told es) {e : Option Event} (he : Emits s s' e) :
    s'.Told (es ++ e.toList) := by
  cases e with
  | none =>
    rw [Option.toList_none, List.append_nil]
    exact h.keeps he
  | some e =>
    cases e with
    | waited caller req pid status => exact h.tells he
    | refused hopeless errno =>
      obtain ⟨rfl, hk⟩ := he
      have ht := h.keeps hk
      refine ⟨fun caller req pid status hmem => ?_, ?_, fun pid hfate => ?_, fun errno' hmem => ?_⟩
      · rcases List.mem_append.mp hmem with hold | hnew
        · exact ht.waited caller req pid status hold
        · exact nomatch List.mem_singleton.mp hnew
      · rw [List.filterMap_append]
        exact (List.append_nil _).symm ▸ ht.once
      · obtain ⟨caller, req, status, hexited, hmem⟩ := ht.event pid hfate
        exact ⟨caller, req, status, hexited, List.mem_append_left _ hmem⟩
      · rcases List.mem_append.mp hmem with hold | hnew
        · exact ht.refused errno' hold
        · exact nomatch List.mem_singleton.mp hnew

theorem Initial.ok (h : s.Initial) : s.Ok where
  zero := h.zero
  pids := h.pids
  old p hp := absurd (h.exited p) hp
  root p hp := absurd (h.exited p) hp
  gone i := by
    rcases h.pc i with ⟨hpc, hrow⟩ | ⟨hpc, hrow⟩ <;> rw [hpc, hrow]
    · exact iff_of_true rfl rfl
    · exact iff_of_false (by exact nofun) (by exact nofun)
  linked := h.linked
  zombie i hz := absurd ((h.zombie i).symm.trans hz) (by exact nofun)
  exiting i hx := by
    rcases h.pc i with ⟨hpc, -⟩ | ⟨hpc, -⟩ <;>
    · rw [hpc] at hx
      exact absurd hx id
  ended i _ _ hx := absurd (h.exited _) hx
  got t req i status hpc := by
    rcases h.pc t with ⟨hpc', -⟩ | ⟨hpc', -⟩ <;> exact nomatch hpc'.symm.trans hpc
  fateZombie p i hp := nomatch (h.fate p).symm.trans hp
  fateHeld p t hp := nomatch (h.fate p).symm.trans hp
  running p := iff_of_true (h.fate p) (h.exited p)
  lost p hp := nomatch (h.fate p).symm.trans hp
  doomed i hd := by
    rcases h.pc i with ⟨hpc, -⟩ | ⟨hpc, -⟩ <;>
    · rw [hpc] at hd
      exact absurd hd id
  sending t i parent sent hpc := by
    rcases h.pc t with ⟨hpc', -⟩ | ⟨hpc', -⟩ <;> exact nomatch hpc'.symm.trans hpc

theorem Ok.reports (h : s.Ok) (hhope : ∀ t, s.hopeless t = false) {es : List Event} (ht : s.Told es) : s.Reports es where
  waited caller req pid status hmem := by
    obtain ⟨hparent, hexited, hasked, -⟩ := ht.waited caller req pid status hmem
    exact ⟨hparent, hexited, hasked⟩
  once := ht.once
  kept pid status hexited hwaived hlives := by
    cases hfate : s.fate pid with
    | running => exact absurd (((h.running pid).mp hfate).symm.trans hexited) (by exact nofun)
    | zombie i =>
      obtain ⟨hz, rfl⟩ := h.fateZombie pid i hfate
      have ho := h.zombie i hz
      refine .inl ⟨i, ho.mem, ho.enabled, hz, (h.linked i ho.mem ho.enabled).symm, rfl, ?_⟩
      exact Option.some.inj (ho.exited.symm.trans hexited)
    | held t =>
      obtain ⟨req, i, status', hpc, rfl⟩ := h.fateHeld pid t hfate
      have ho := h.got t req i status' hpc
      have hstatus : status' = status := Option.some.inj (ho.exited.symm.trans hexited)
      exact .inr (.inl ⟨t, ho.parent.symm, req, i, hstatus ▸ hpc, rfl⟩)
    | reported =>
      obtain ⟨caller, req, status', hexited', hmem⟩ := ht.event pid hfate
      have hstatus : status' = status := Option.some.inj (hexited'.symm.trans hexited)
      exact .inr (.inr ⟨caller, req, hstatus ▸ hmem⟩)
    | lost =>
      rcases h.lost pid hfate with hw | hdead
      · exact absurd (hwaived.symm.trans hw) (by exact nofun)
      · exact absurd hlives hdead
  blocking t hh := absurd ((hhope t).symm.trans hh) (by exact nofun)
  refused errno hmem := absurd hmem (ht.refused errno)

theorem reports_of_careful (s₀ s : System) (es : List Event) (h₀ : s₀.Initial)
    (hrun : Run System.step System.Careful s₀ es s) : s.Reports es := by
  have hinv : s.Ok ∧ (∀ t, s.hopeless t = false) ∧ s.Told es := by
    refine hrun.invariant (fun es s => s.Ok ∧ (∀ t, s.hopeless t = false) ∧ s.Told es) ?_ ?_
    · refine ⟨h₀.ok, h₀.hopeless, ⟨?_, List.nodup_nil, fun pid hfate => ?_, ?_⟩⟩
      · exact nofun
      · exact nomatch (h₀.fate pid).symm.trans hfate
      · exact nofun
    · rintro es s a s' e ⟨hok, hhope, htold⟩ hcareful hs
      obtain ⟨hok', hhope', hemits⟩ := hok.step hhope hcareful hs
      exact ⟨hok', hhope', htold.step hemits⟩
  exact hinv.1.reports hinv.2.1 hinv.2.2

/-- Process `1` with one thread, and a free row. -/
def oneProcess : System where
  sched :=
    { total := 3
      table := fun i =>
        { enabled := i == 0 || i == 1, exec := i == 1, pid := if i = 1 then 1 else 0, active := i == 1, stopped := false
          aiosuspend := false, unblockType := .none, blockObject := 0, wake := ⟨schedTimevalSecInvalid, 0⟩
          priority := 0, attrPriority := 0 }
      currentPriority := 0
      statusChanged := false
      usecondCounter := 0
      sleepOc := 0 }
  parent := fun _ => 0
  isThread := fun _ => false
  zombie := fun _ => false
  exitStatus := fun _ => 0
  sigcaught := fun _ => false
  ignores := fun _ => false
  counter := 2
  pc := fun i => if i == 0 || i == 1 then .idle else .gone
  parentOf := fun _ => 0
  exited := fun _ => none
  fate := fun _ => .running
  waived := fun _ => false
  hopeless := fun _ => false

theorem initial_oneProcess : oneProcess.Initial where
  zero := ⟨rfl, rfl, rfl⟩
  pids i := by
    change (if i = 1 then 1 else 0) < 2
    split_ifs <;> decide
  pc i := by
    cases hi : (i == 0 || i == 1) with
    | false => exact .inl ⟨if_neg (by rw [hi]; exact nofun), hi⟩
    | true => exact .inr ⟨if_pos hi, hi⟩
  linked i _ _ := rfl
  zombie _ := rfl
  exited _ := rfl
  fate _ := rfl
  hopeless _ := rfl

/-- The process creates a child and waits for it, and the child ends with `5`. -/
def createAndWait : List Action :=
  [.newProcess 1, .activate 2 0, .waitpid 1 (-1) false, .privWaitChild 1, .exit 2 5, .afterClose 2, .sendNext 2 true,
    .sendNext 2 true, .sendNext 2 true, .sendNext 2 true, .privZombieProcess 2, .waitTest 1, .privWaitChild 1,
    .waitReturn 1]

theorem reports_of_careful_createAndWait : ∃ s es,
    Run System.step System.Careful oneProcess es s ∧ Event.waited 1 (-1) 2 0x500 ∈ es ∧ s.Reports es := by
  obtain ⟨s, es, hreplay, hmem⟩ : ∃ s es,
      Run.replay System.step oneProcess createAndWait = some (s, es) ∧ Event.waited 1 (-1) 2 0x500 ∈ es :=
    ⟨_, _, rfl, by decide⟩
  have hcareful : Run.AllOk System.step System.Careful oneProcess createAndWait := by decide
  have hrun := Run.of_replay hreplay hcareful
  exact ⟨s, es, hrun, hmem, reports_of_careful oneProcess s es initial_oneProcess hrun⟩

/-- A process that has no child waits for one. -/
theorem not_reports : ¬ ∀ (s₀ s : System) (es : List Event), s₀.Initial → Run System.step (fun _ _ => True) s₀ es s →
    s.Reports es := by
  intro h
  obtain ⟨s, es, hreplay, hhopeless, hpc⟩ : ∃ s es,
      Run.replay System.step oneProcess [.waitpid 1 (-1) false, .privWaitChild 1] = some (s, es) ∧
      s.hopeless 1 = true ∧ s.pc 1 = .asleep (-1) (-1) := ⟨_, _, rfl, rfl, rfl⟩
  have hreports := h oneProcess s es initial_oneProcess (Run.of_replay hreplay (Run.allOk_true _ _))
  have hblocking := hreports.blocking 1 hhopeless
  rw [hpc] at hblocking
  exact hblocking trivial

end System

end Process

end CoActionOS
