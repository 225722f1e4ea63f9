import CoActionOS.Pthread.Join

/-!
# What a thread that is joined leaves to its joiner

The row of a deleted thread keeps its block object, and whoever looks for a joiner does not look whether the row is in
use.  A signal that wakes a joiner makes it call again, by when the thread may have been deleted and its row may be that
of another thread.

`Careful` are the steps at which none of this happens.  In a run of such steps every call of `pthread_join` that returns
`0` has the exit value of the thread it named, and no thread that is to be joined is deleted before a live joiner has
its value (`handshake_of_careful`).
-/

namespace CoActionOS

namespace Join

open Function

/-! ### The statement -/

/-- In `cleanup_thread`. -/
def Pc.Ending : Pc → Prop
  | .exiting _ | .freeing | .cleaning => True
  | _ => False

instance : (pc : Pc) → Decidable pc.Ending
  | .exiting _ | .freeing | .cleaning => .isTrue trivial
  | .gone | .new | .idle | .joining _ _ | .blocked _ _ | .ended => .isFalse id

namespace System

variable (s : System) (L : Layout)

/-- The call of the thread is going to return `0` with this value, which is that of the thread it named. -/
structure Handed (t : Nat) (v : Int) : Prop where
  active : (s.sched.table t).active = true
  unblockType : (s.sched.table t).unblockType = .pthreadJoinedThreadComplete
  exitStatus : s.exitStatus t = v
  named : ∃ thread gen, s.pc t = .blocked thread gen ∧ s.exitOf thread gen = some v

/-- A call that has returned `0` has returned the exit value of the thread it named; a joinable thread that has ended
keeps its row until its value has been handed to a live thread blocked on it, and its memory until such a thread has
joined it and the value is in its row; what has been handed to a thread is what its call is going to return; and what a
thread has counted as its joiner was a live thread blocked on it. -/
structure Handshake (es : List Event) : Prop where
  joined : ∀ t thread gen v, Event.joined t thread gen v ∈ es → s.exitOf thread gen = some v
  delivered : ∀ id gen v, s.exitOf id gen = some v →
    s.delivered id gen = true ∨ gen = s.gen id ∧ (s.pc id).Ending
  saved : ∀ t, s.pc t = .cleaning → s.joinable t = true →
    s.exitOf t (s.gen t) = some (s.exitStatus t) ∧ s.counted t = some true
  owed : ∀ t v, s.owed t = some v → s.Handed t v
  counted : ∀ t b, s.counted t = some b → b = true

/-- `priv_cleanup` has woken the thread, and it has not run since. -/
def Notified (t : Nat) : Prop :=
  s.inJoin t = true ∧ (s.sched.table t).active = true ∧
    (s.sched.table t).unblockType = .pthreadJoinedThreadComplete

instance (t : Nat) : Decidable (s.Notified t) := inferInstanceAs (Decidable (_ ∧ _ ∧ _))

/-- The thread is in a call of `pthread_join` that has named the row, and has not been notified. -/
def WaitsFor (t id : Nat) : Prop :=
  match s.pc t with
  | .joining thread _ => thread = id
  | .blocked thread _ => thread = id ∧ ¬ s.Notified t
  | _ => False

instance (t id : Nat) : Decidable (s.WaitsFor t id) := by
  unfold WaitsFor
  split <;> infer_instance

/-- The row is in use, and not that of a task which is still being created. -/
def Live (t : Nat) : Prop := s.pc t ≠ .gone ∧ s.pc t ≠ .new

instance (t : Nat) : Decidable (s.Live t) := inferInstanceAs (Decidable (_ ∧ _))

/-- The steps that keep the hand-shake: no thread is named before it has been activated; no signal reaches a thread
between its notification and its return; the lowest row that points to a thread which looks for its joiner is not that
of a deleted thread; a live thread is still blocked on a joinable thread that is deleted; no process ends in which a
joinable thread waits for its joiner; and no row is taken for which a call still waits. -/
def Careful : Action → Prop
  | .pthreadJoin _ thread => s.pc thread ≠ .new
  | .signal t => ¬ s.Notified t
  | .privWaitJoined t => ∀ j ∈ s.sched.ids, (s.sched.table j).blockObject = L.row t →
      (∀ i ∈ s.sched.ids, i < j → (s.sched.table i).blockObject ≠ L.row t) → s.Live j
  | .privCleanup t => s.joinable t = true →
      ∃ j ∈ s.sched.ids, (s.sched.table j).blockObject = L.row t ∧ s.Live j
  | .stopThreads t _ => ∀ i ∈ s.sched.ids, (s.sched.table i).pid = (s.sched.table t).pid →
      s.joinable i = true → ¬ (s.pc i).Ending
  | .newTask pid => ∀ p ∈ s.sched.taskPrivNewTask pid, ∀ j ∈ s.sched.ids, ¬ s.WaitsFor j p.2
  | _ => True

instance : (a : Action) → Decidable (s.Careful L a)
  | .pthreadJoin _ _ | .signal _ | .privWaitJoined _ | .privCleanup _ | .stopThreads _ _ | .newTask _ => by
    unfold Careful
    infer_instance
  | .privJoinThread _ | .joinTest _ | .cleanupThread _ _ | .free _ | .block _ _ | .wake _ _ | .zombieProcess _ _
  | .reap _ | .activate _ _ _ => .isTrue trivial

/-- Nothing has happened yet: every row is free or that of a thread that executes its program. -/
structure Initial : Prop where
  pc : ∀ t, (s.pc t = .gone ∧ (s.sched.table t).enabled = false) ∨
    (s.pc t = .idle ∧ (s.sched.table t).enabled = true ∧ (s.sched.table t).blockObject = 0)
  exitOf : ∀ id gen, s.exitOf id gen = none
  owed : ∀ t, s.owed t = none
  counted : ∀ t, s.counted t = none

end System

/-! ### Addresses -/

namespace Layout

variable (L : Layout)

theorem size_pos : 0 < L.size := Nat.lt_trans L.offset_pos L.offset_lt

theorem row_ne_zero (id : Nat) : L.row id ≠ 0 := Nat.ne_of_gt (Nat.add_pos_left L.base_pos _)

theorem row_injective {id id' : Nat} (h : L.row id = L.row id') : id = id' :=
  Nat.eq_of_mul_eq_mul_left L.size_pos (Nat.add_left_cancel h)

/-- `block_object` lies inside its row. -/
theorem field_ne_row (id id' : Nat) : L.field id ≠ L.row id' := by
  intro h
  have hmod := congrArg (· % L.size) (Nat.add_left_cancel ((Nat.add_assoc _ _ _).symm.trans h))
  simp only [Nat.mul_add_mod, Nat.mul_mod_right, Nat.mod_eq_of_lt L.offset_lt] at hmod
  exact Nat.ne_of_gt L.offset_pos hmod

theorem outside_ne_row {obj total id : Nat} (h : obj < L.base ∨ L.row total ≤ obj) (hid : id < total) :
    obj ≠ L.row id := by
  rintro rfl
  rcases h with h | h
  · exact absurd h (Nat.not_lt.mpr (Nat.le_add_right _ _))
  · have hlt : L.row id < L.row total := Nat.add_lt_add_left (Nat.mul_lt_mul_of_pos_left hid L.size_pos) _
    exact absurd h (Nat.not_le.mpr hlt)

theorem outside_ne_field {obj total id : Nat} (h : obj < L.base ∨ L.row total ≤ obj) (hid : id < total) :
    obj ≠ L.field id := by
  rintro rfl
  rcases h with h | h
  · exact absurd h (Nat.not_lt.mpr (Nat.le_trans (Nat.le_add_right _ _) (Nat.le_add_right _ _)))
  · have hend : L.field id < L.row (id + 1) := by
      change L.base + L.size * id + L.offset < L.base + L.size * (id + 1)
      rw [Nat.mul_succ, ← Nat.add_assoc]
      exact Nat.add_lt_add_left L.offset_lt _
    have hle : L.row (id + 1) ≤ L.row total := Nat.add_le_add_left (Nat.mul_le_mul_left _ hid) _
    exact absurd (Nat.lt_of_le_of_lt h (Nat.lt_of_lt_of_le hend hle)) (Nat.lt_irrefl _)

end Layout

/-! ### The invariant -/

namespace System

section

variable (s : System) (L : Layout)

/-- The row is that of the thread named, which can be joined. -/
structure Waits (thread gen : Nat) : Prop where
  gen : gen = s.gen thread
  joinable : s.joinable thread = true
  activated : s.pc thread ≠ .new

/-- The row points neither to a row nor into itself. -/
structure Clear (t : Nat) : Prop where
  row : ∀ id < s.sched.total, (s.sched.table t).blockObject ≠ L.row id
  field : (s.sched.table t).blockObject ≠ L.field t

/-- What is to be known of each thread. -/
structure ThreadOk (t : Nat) : Prop where
  owed : ∀ v, s.owed t = some v → s.Handed t v
  notified : ∀ thread gen, s.pc t = .blocked thread gen → (s.sched.table t).active = true →
    (s.sched.table t).unblockType = .pthreadJoinedThreadComplete → ∃ v, s.owed t = some v
  waits : ∀ thread gen, s.pc t = .joining thread gen ∨ s.pc t = .blocked thread gen ∧ s.owed t = none →
    t ∈ s.sched.ids ∧ s.Waits thread gen
  pointer : ∀ id < s.sched.total, (s.sched.table t).blockObject = L.row id → s.Live t →
    ∃ gen, s.pc t = .blocked id gen ∧ (s.sched.table t).active = false
  self : (s.sched.table t).blockObject = L.field t → s.Live t →
    ∃ status, s.pc t = .exiting status ∧ (s.sched.table t).active = false
  running : s.Live t → ¬ (s.pc t).Ending → s.exitOf t (s.gen t) = none
  exiting : ∀ status, s.pc t = .exiting status →
    s.joinable t = true ∧ s.exitOf t (s.gen t) = some status
  saved : s.pc t = .freeing ∨ s.pc t = .cleaning →
    (s.exitOf t (s.gen t) = if s.joinable t then some (s.exitStatus t) else none) ∧
      (s.joinable t = true → s.counted t = some true)

structure Ok : Prop where
  live : ∀ t, s.pc t = .gone ↔ (s.sched.table t).enabled = false
  threads : ∀ t, s.ThreadOk L t
  new : ∀ t, s.pc t = .new → s.exitOf t (s.gen t) = none
  fresh : ∀ id gen, s.gen id < gen → s.exitOf id gen = none
  delivered : ∀ id gen v, s.exitOf id gen = some v →
    s.delivered id gen = true ∨ gen = s.gen id ∧ (s.pc id).Ending

end

variable {s s' : System} {L : Layout} {t : Nat}

/-- What a thread sees of its own is the same. -/
structure Same (s s' : System) (t : Nat) : Prop where
  row : (s'.sched.table t).noExec = (s.sched.table t).noExec
  pc : s'.pc t = s.pc t
  owed : s'.owed t = s.owed t
  exitStatus : s'.exitStatus t = s.exitStatus t
  joinable : s'.joinable t = s.joinable t
  exitOf : s'.exitOf t (s'.gen t) = s.exitOf t (s.gen t)
  counted : s'.counted t = s.counted t

/-- What every thread relies on: the values of the threads that have ended, and that a row which calls wait for stays
with its thread. -/
structure Frame (s s' : System) : Prop where
  total : s'.sched.total = s.sched.total
  exitOf : ∀ id gen v, s.exitOf id gen = some v → s'.exitOf id gen = some v
  waits : ∀ thread gen, s.Waits thread gen → s'.Waits thread gen

theorem Frame.waits_of (hgen : s'.gen = s.gen)
    (hrow : ∀ t, s.pc t ≠ .new → s'.joinable t = s.joinable t ∧ s'.pc t ≠ .new) (thread gen : Nat)
    (h : s.Waits thread gen) : s'.Waits thread gen := by
  obtain ⟨hjoinable, hpc⟩ := hrow thread h.activated
  exact ⟨by rw [hgen, h.gen], by rw [hjoinable, h.joinable], hpc⟩

theorem Handed.of_same {v : Int} (h : s.Handed t v)
    (hexit : ∀ id gen v, s.exitOf id gen = some v → s'.exitOf id gen = some v) (hs : Same s s' t) : s'.Handed t v := by
  obtain ⟨thread, gen, hpc, hvalue⟩ := h.named
  refine ⟨?_, ?_, hs.exitStatus.trans h.exitStatus, thread, gen, hs.pc.trans hpc, hexit _ _ _ hvalue⟩
  · rw [SchedTask.active_of_noExec hs.row, h.active]
  · rw [SchedTask.unblockType_of_noExec hs.row, h.unblockType]

theorem live_congr (h : s'.pc t = s.pc t) : s'.Live t ↔ s.Live t := by
  unfold Live
  rw [h]

theorem mem_ids_congr (h : s'.sched.total = s.sched.total) {i : Nat} : i ∈ s'.sched.ids ↔ i ∈ s.sched.ids := by
  unfold Sched.ids
  rw [h]

/-- A thread whose own is the same, and for which the row it waits for is. -/
theorem ThreadOk.of_same (h : s.ThreadOk L t) (htotal : s'.sched.total = s.sched.total)
    (hexit : ∀ id gen v, s.exitOf id gen = some v → s'.exitOf id gen = some v) (hs : Same s s' t)
    (hwaits : ∀ thread gen, s.pc t = .joining thread gen ∨ s.pc t = .blocked thread gen ∧ s.owed t = none →
      s'.Waits thread gen) : s'.ThreadOk L t where
  owed v hv := (h.owed v (hs.owed ▸ hv)).of_same hexit hs
  notified thread gen hpc hactive htype := by
    rw [hs.owed]
    refine h.notified thread gen (hs.pc ▸ hpc) ?_ ?_
    · rwa [SchedTask.active_of_noExec hs.row] at hactive
    · rwa [SchedTask.unblockType_of_noExec hs.row] at htype
  waits thread gen hpc := by
    rw [hs.pc, hs.owed] at hpc
    exact ⟨(mem_ids_congr htotal).mpr (h.waits thread gen hpc).1, hwaits thread gen hpc⟩
  pointer id hid hptr hlive := by
    rw [htotal] at hid
    rw [SchedTask.blockObject_of_noExec hs.row] at hptr
    obtain ⟨gen, hpc, hactive⟩ := h.pointer id hid hptr ((live_congr hs.pc).mp hlive)
    exact ⟨gen, hs.pc.trans hpc, (SchedTask.active_of_noExec hs.row).trans hactive⟩
  self hptr hlive := by
    rw [SchedTask.blockObject_of_noExec hs.row] at hptr
    obtain ⟨status, hpc, hactive⟩ := h.self hptr ((live_congr hs.pc).mp hlive)
    exact ⟨status, hs.pc.trans hpc, (SchedTask.active_of_noExec hs.row).trans hactive⟩
  running hlive hend := by
    rw [hs.exitOf]
    exact h.running ((live_congr hs.pc).mp hlive) (hs.pc ▸ hend)
  exiting status hpc := by
    rw [hs.joinable, hs.exitOf]
    exact h.exiting status (hs.pc ▸ hpc)
  saved hpc := by
    rw [hs.joinable, hs.exitOf, hs.exitStatus, hs.counted]
    rw [hs.pc] at hpc
    exact h.saved hpc

theorem ThreadOk.frame (h : s.ThreadOk L t) (hf : Frame s s') (hs : Same s s' t) : s'.ThreadOk L t :=
  h.of_same hf.total hf.exitOf hs fun thread gen hpc => hf.waits thread gen (h.waits thread gen hpc).2

theorem owed_none_of_pc (h : s.ThreadOk L t) (hpc : ∀ thread gen, s.pc t ≠ .blocked thread gen) :
    s.owed t = none := by
  cases howed : s.owed t with
  | none => rfl
  | some v =>
    obtain ⟨thread, gen, hblocked, -⟩ := (h.owed v howed).named
    exact absurd hblocked (hpc thread gen)

/-- The row of a thread that is active points nowhere. -/
theorem clear_of_active (h : s.ThreadOk L t) (hactive : (s.sched.table t).active = true) (hlive : s.Live t) :
    s.Clear L t where
  row id hid hptr := by
    obtain ⟨-, -, hasleep⟩ := h.pointer id hid hptr hlive
    rw [hactive] at hasleep
    exact nomatch hasleep
  field hptr := by
    obtain ⟨-, -, hasleep⟩ := h.self hptr hlive
    rw [hactive] at hasleep
    exact nomatch hasleep

theorem clear_of_zero (h : (s.sched.table t).blockObject = 0) : s.Clear L t where
  row id _ := by
    rw [h]
    exact (L.row_ne_zero id).symm
  field := by
    rw [h]
    exact (Nat.ne_of_gt (Nat.add_pos_right _ L.offset_pos)).symm

/-- A thread that is not blocked in a call, has not ended, and whose row points nowhere. -/
theorem threadOk_of_clear (howed : s.owed t = none) (hblocked : ∀ thread gen, s.pc t ≠ .blocked thread gen)
    (hend : ¬ (s.pc t).Ending) (hwaits : ∀ thread gen, s.pc t = .joining thread gen → t ∈ s.sched.ids ∧ s.Waits thread gen)
    (hclear : s.Live t → s.Clear L t) (hexit : s.Live t → s.exitOf t (s.gen t) = none) : s.ThreadOk L t where
  owed v hv := by
    rw [howed] at hv
    exact nomatch hv
  notified thread gen hpc := absurd hpc (hblocked thread gen)
  waits thread gen hpc := hpc.elim (hwaits thread gen) fun h => absurd h.1 (hblocked thread gen)
  pointer id hid hptr hlive := absurd hptr ((hclear hlive).row id hid)
  self hptr hlive := absurd hptr (hclear hlive).field
  running hlive _ := hexit hlive
  exiting status hpc := absurd (hpc ▸ trivial) hend
  saved hpc := absurd (hpc.elim (fun h => h ▸ trivial) fun h => h ▸ trivial) hend

/-- A thread that has ended, and whose row points nowhere. -/
theorem threadOk_of_ending (howed : s.owed t = none) (hend : (s.pc t).Ending) (hclear : s.Clear L t)
    (hexiting : ∀ status, s.pc t = .exiting status → s.joinable t = true ∧ s.exitOf t (s.gen t) = some status)
    (hsaved : s.pc t = .freeing ∨ s.pc t = .cleaning →
      (s.exitOf t (s.gen t) = if s.joinable t then some (s.exitStatus t) else none) ∧
        (s.joinable t = true → s.counted t = some true)) : s.ThreadOk L t where
  owed v hv := by
    rw [howed] at hv
    exact nomatch hv
  notified thread gen hpc := by
    rw [hpc] at hend
    exact hend.elim
  waits thread gen hpc := by
    rcases hpc with hpc | ⟨hpc, -⟩ <;>
    · rw [hpc] at hend
      exact hend.elim
  pointer id hid hptr _ := absurd hptr (hclear.row id hid)
  self hptr _ := absurd hptr hclear.field
  running _ hnot := absurd hend hnot
  exiting := hexiting
  saved := hsaved

/-- A thread that is woken is all right unless `priv_cleanup` has woken it before. -/
theorem ThreadOk.woken (h : s.ThreadOk L t) (hf : Frame s s') (hnot : ¬ s.Notified t)
    {r : SchedTask} {u : SchedUnblockType} (hu : u ≠ .pthreadJoinedThreadComplete)
    (hrow : (s'.sched.table t).noExec = (r.woken u).noExec) (hpc : s'.pc t = s.pc t) (howed : s'.owed t = s.owed t)
    (hstatus : s'.exitStatus t = s.exitStatus t) (hjoinable : s'.joinable t = s.joinable t)
    (hexit : s'.exitOf t (s'.gen t) = s.exitOf t (s.gen t)) (hcounted : s'.counted t = s.counted t) :
    s'.ThreadOk L t := by
  have hclear : s'.Clear L t := clear_of_zero (SchedTask.blockObject_of_noExec hrow)
  have hnone : s.owed t = none := by
    cases hv : s.owed t with
    | none => rfl
    | some v =>
      have hh := h.owed v hv
      obtain ⟨thread, gen, hblocked, -⟩ := hh.named
      refine absurd ⟨?_, hh.active, hh.unblockType⟩ hnot
      unfold inJoin
      rw [hblocked]
  refine ⟨fun v hv => ?_, fun thread gen _ _ htype => ?_, fun thread gen hw => ?_, fun id hid hptr _ => ?_,
    fun hptr _ => absurd hptr hclear.field, fun hlive hend => ?_, fun status hx => ?_, fun hx => ?_⟩
  · rw [howed, hnone] at hv
    exact nomatch hv
  · exact absurd ((SchedTask.unblockType_of_noExec hrow).symm.trans htype) hu
  · rw [hpc, howed] at hw
    obtain ⟨hmem, hw⟩ := h.waits thread gen hw
    exact ⟨(mem_ids_congr hf.total).mpr hmem, hf.waits thread gen hw⟩
  · exact absurd hptr (hclear.row id hid)
  · rw [hexit]
    exact h.running ((live_congr hpc).mp hlive) (hpc ▸ hend)
  · rw [hjoinable, hexit]
    exact h.exiting status (hpc ▸ hx)
  · rw [hjoinable, hexit, hstatus, hcounted]
    rw [hpc] at hx
    exact h.saved hx

/-- A step that neither ends nor creates a thread. -/
theorem Ok.of_threads (h : s.Ok L) (hexit : s'.exitOf = s.exitOf) (hgen : s'.gen = s.gen)
    (hdelivered : s'.delivered = s.delivered) (hthreads : ∀ i, s'.ThreadOk L i)
    (hlive : ∀ i, s'.pc i = .gone ↔ (s'.sched.table i).enabled = false) (hnew : ∀ i, s'.pc i = .new → s.pc i = .new)
    (hend : ∀ i, (s.pc i).Ending → (s'.pc i).Ending ∨ s.exitOf i (s.gen i) = none) : s'.Ok L where
  live := hlive
  threads := hthreads
  new i hi := by
    rw [hexit, hgen]
    exact h.new i (hnew i hi)
  fresh id gen hlt := by
    rw [hexit]
    rw [hgen] at hlt
    exact h.fresh id gen hlt
  delivered id gen v hv := by
    rw [hexit] at hv
    rw [hdelivered, hgen]
    refine (h.delivered id gen v hv).imp_right fun ⟨heq, hpc⟩ => ⟨heq, (hend id hpc).resolve_right fun hnone => ?_⟩
    rw [← heq, hv] at hnone
    exact nomatch hnone

/-- Such a step of one thread. -/
theorem Ok.of_local (h : s.Ok L) (t : Nat) (hexit : s'.exitOf = s.exitOf) (hgen : s'.gen = s.gen)
    (hdelivered : s'.delivered = s.delivered) (hf : Frame s s') (hothers : ∀ i, i ≠ t → Same s s' i)
    (hself : s'.ThreadOk L t) (hlive : s'.pc t = .gone ↔ (s'.sched.table t).enabled = false)
    (hnew : s'.pc t = .new → s.pc t = .new)
    (hend : (s.pc t).Ending → (s'.pc t).Ending ∨ s.exitOf t (s.gen t) = none) : s'.Ok L := by
  refine h.of_threads hexit hgen hdelivered (fun i => ?_) (fun i => ?_) (fun i => ?_) fun i => ?_
  · by_cases hi : i = t
    · rw [hi]
      exact hself
    · exact (h.threads i).frame hf (hothers i hi)
  · by_cases hi : i = t
    · rw [hi]
      exact hlive
    · rw [(hothers i hi).pc, SchedTask.enabled_of_noExec (hothers i hi).row]
      exact h.live i
  · by_cases hi : i = t
    · rw [hi]
      exact hnew
    · rw [(hothers i hi).pc]
      exact id
  · by_cases hi : i = t
    · rw [hi]
      exact hend
    · rw [(hothers i hi).pc]
      exact .inl

/-! ### The calls of one thread -/

theorem active_of_runs (h : s.runs t = true) : (s.sched.table t).active = true := by
  unfold runs at h
  simp only [Bool.and_eq_true] at h
  exact h.2

theorem mem_of_runs (h : s.runs t = true) : t ∈ s.sched.ids := by
  unfold runs at h
  simp only [Bool.and_eq_true, decide_eq_true_eq] at h
  exact h.1.1

theorem live_of_pc {pc : Pc} (h : s.pc t = pc) (hgone : pc ≠ .gone) (hnew : pc ≠ .new) : s.Live t := by
  unfold Live
  rw [h]
  exact ⟨hgone, hnew⟩

theorem same_setPc {i : Nat} (pc : Pc) (hi : i ≠ t) : Same s (s.setPc t pc) i :=
  ⟨rfl, update_of_ne hi _ _, rfl, rfl, rfl, rfl, rfl⟩

theorem pc_setPc (pc : Pc) : (s.setPc t pc).pc t = pc := update_self t _ _

theorem frame_setPc {pc : Pc} (hpc : pc ≠ .new) : Frame s (s.setPc t pc) := by
  refine ⟨rfl, fun _ _ _ h => h, Frame.waits_of rfl fun i hi => ⟨rfl, ?_⟩⟩
  by_cases hit : i = t
  · rw [hit, pc_setPc]
    exact hpc
  · rw [(same_setPc pc hit).pc]
    exact hi

/-- A running thread goes on to a place where it is neither blocked nor ending. -/
theorem Ok.setPc (h : s.Ok L) {pc pc' : Pc} (hrun : s.runs t = true) (hpc : s.pc t = pc) (hlive : pc ≠ .gone ∧ pc ≠ .new)
    (hnot : ¬ pc.Ending) (howed : s.owed t = none) (hlive' : pc' ≠ .gone ∧ pc' ≠ .new) (hnot' : ¬ pc'.Ending)
    (hblocked : ∀ thread gen, pc' ≠ .blocked thread gen)
    (hwaits : ∀ thread gen, pc' = .joining thread gen → s.Waits thread gen) : (s.setPc t pc').Ok L := by
  have hl := live_of_pc hpc hlive.1 hlive.2
  have hf := frame_setPc (s := s) (t := t) hlive'.2
  have hexit := (h.threads t).running hl (hpc ▸ hnot)
  have hclear := clear_of_active (h.threads t) (active_of_runs hrun) hl
  refine h.of_local t rfl rfl rfl hf (fun i hi => same_setPc pc' hi) ?_ ?_ ?_ ?_
  · refine threadOk_of_clear howed ?_ ?_ ?_ (fun _ => ⟨hclear.row, hclear.field⟩) fun _ => hexit
    · rw [pc_setPc]
      exact hblocked
    · rw [pc_setPc]
      exact hnot'
    · rw [pc_setPc]
      exact fun thread gen hj => ⟨mem_of_runs hrun, hf.waits thread gen (hwaits thread gen hj)⟩
  · rw [pc_setPc]
    refine iff_of_false hlive'.1 fun henabled => ?_
    exact hl.1 ((h.live t).mpr henabled)
  · rw [pc_setPc]
    exact fun hnew => absurd hnew hlive'.2
  · exact fun _ => .inr hexit

theorem Ok.pthreadJoin (h : s.Ok L) {thread : Nat} (hrun : s.runs t = true) (hpc : s.pc t = .idle)
    (hthread : s.pc thread ≠ .new) : (s.pthreadJoin L t thread).1.Ok L := by
  have howed := owed_none_of_pc (h.threads t) fun _ _ => by
    rw [hpc]
    exact nofun
  unfold System.pthreadJoin
  split_ifs with henabled hjoinable hdead
  · exact h
  · exact h
  · refine h.setPc hrun hpc (by exact ⟨nofun, nofun⟩) id howed (by exact ⟨nofun, nofun⟩) id (by exact nofun) ?_
    rintro thread' gen heq
    cases heq
    exact ⟨rfl, by simpa using hjoinable, hthread⟩
  · exact h

/-- A thread that has been notified returns the value it was handed. -/
theorem ThreadOk.value (h : s.ThreadOk L t) {thread gen : Nat} (hrun : s.runs t = true)
    (hpc : s.pc t = .blocked thread gen) (htype : (s.sched.table t).unblockType = .pthreadJoinedThreadComplete) :
    s.exitOf thread gen = some (s.exitStatus t) := by
  obtain ⟨v, hv⟩ := h.notified thread gen hpc (active_of_runs hrun) htype
  obtain ⟨-, -, hstatus, thread', gen', hpc', hexit⟩ := h.owed v hv
  rw [hpc] at hpc'
  cases hpc'
  rw [hstatus, hexit]

theorem Ok.joinTest (h : s.Ok L) {thread gen : Nat} (hrun : s.runs t = true) (hpc : s.pc t = .blocked thread gen) :
    (s.joinTest t thread gen).1.Ok L := by
  have hl : s.Live t := live_of_pc hpc (by exact nofun) (by exact nofun)
  have hexit := (h.threads t).running hl (hpc ▸ id)
  have hclear := clear_of_active (h.threads t) (active_of_runs hrun) hl
  unfold System.joinTest
  split_ifs with htype
  · have hidle : Frame s (s.setPc t .idle) := frame_setPc (by exact nofun)
    have hf : Frame s ({ s with owed := update s.owed t none }.setPc t .idle) :=
      ⟨rfl, hidle.exitOf, fun thread gen hw =>
        ⟨hw.gen, hw.joinable, (hidle.waits thread gen hw).activated⟩⟩
    refine h.of_local t rfl rfl rfl hf (fun i hi => ?_) ?_ ?_ ?_ fun _ => .inr hexit
    · exact ⟨rfl, update_of_ne hi _ _, update_of_ne hi _ _, rfl, rfl, rfl, rfl⟩
    · refine threadOk_of_clear (update_self t _ _) ?_ ?_ ?_ (fun _ => ⟨hclear.row, hclear.field⟩) fun _ => hexit
      all_goals rw [pc_setPc]
      · exact nofun
      · exact id
      · exact nofun
    · rw [pc_setPc]
      exact iff_of_false (by exact nofun) fun henabled => hl.1 ((h.live t).mpr henabled)
    · rw [pc_setPc]
      exact nofun
  · have howed : s.owed t = none := by
      cases hv : s.owed t with
      | none => rfl
      | some v => exact absurd ((h.threads t).owed v hv).unblockType htype
    refine h.setPc hrun hpc (by exact ⟨nofun, nofun⟩) id howed (by exact ⟨nofun, nofun⟩) id (by exact nofun) ?_
    rintro thread' gen' heq
    cases heq
    exact ((h.threads t).waits thread gen (.inr ⟨hpc, howed⟩)).2

/-- A running thread goes to sleep with its row pointing somewhere. -/
theorem Ok.sleepOn (h : s.Ok L) {obj : Nat} {pc : Pc} (hlive : s.Live t)
    (hpc : pc ≠ .gone ∧ pc ≠ .new)
    (hsched : ∀ i, (s'.sched.table i).noExec =
      (if i = t then { s.sched.table t with blockObject := obj, active := false } else s.sched.table i).noExec)
    (hs : s' = { s with sched := s'.sched }.setPc t pc) (htotal : s'.sched.total = s.sched.total)
    (hself : Frame s s' → (s'.sched.table t).blockObject = obj → (s'.sched.table t).active = false →
      s'.ThreadOk L t) (hend : (s.pc t).Ending → pc.Ending ∨ s.exitOf t (s.gen t) = none) : s'.Ok L := by
  have hpc' : s'.pc t = pc := by
    rw [hs]
    exact pc_setPc pc
  have hother : ∀ i, i ≠ t → s'.pc i = s.pc i := by
    intro i hi
    rw [hs]
    exact update_of_ne hi _ _
  have hrow := hsched t
  rw [if_pos rfl] at hrow
  have hf : Frame s s' := by
    have hset : Frame s (s.setPc t pc) := frame_setPc hpc.2
    refine ⟨htotal, fun id gen v hv => ?_, fun thread gen hw => ⟨?_, ?_, ?_⟩⟩
    · rw [hs]
      exact hv
    · rw [hs]
      exact hw.gen
    · rw [hs]
      exact hw.joinable
    · rw [hs]
      exact (hset.waits thread gen hw).activated
  refine h.of_local t ?_ ?_ ?_ hf (fun i hi => ?_) ?_ ?_ ?_ ?_
  · rw [hs]
    rfl
  · rw [hs]
    rfl
  · rw [hs]
    rfl
  · have hrow' := hsched i
    rw [if_neg hi] at hrow'
    refine ⟨hrow', hother i hi, ?_, ?_, ?_, ?_, ?_⟩
    all_goals
      rw [hs]
      rfl
  · exact hself hf (SchedTask.blockObject_of_noExec hrow) (SchedTask.active_of_noExec hrow)
  · rw [hpc', SchedTask.enabled_of_noExec hrow]
    exact iff_of_false hpc.1 fun henabled => hlive.1 ((h.live t).mpr henabled)
  · rw [hpc']
    exact fun hnew => absurd hnew hpc.2
  · rw [hpc']
    exact hend

theorem eq_setPc {pc : Pc} (h : s.pc t = pc) : s = s.setPc t pc := by
  unfold System.setPc
  rw [← h, update_eq_self]

theorem noExec_sleepWith (sched : Sched) (t obj i : Nat) :
    (((sched.modify t fun r => { r with blockObject := obj }).schedPrivUpdateOnSleep t).table i).noExec =
      (if i = t then { sched.table t with blockObject := obj, active := false } else sched.table i).noExec := by
  rw [Sched.noExec_updateOnSleep, Sched.table_modify_self]
  by_cases hi : i = t
  · rw [if_pos hi, if_pos hi]
  · rw [if_neg hi, if_neg hi, Sched.table_modify_of_ne _ hi]

/-- A task is woken that `priv_cleanup` has not woken before. -/
theorem Ok.woken (h : s.Ok L) {id : Nat} {r : SchedTask} {u : SchedUnblockType} {sched : Sched}
    (hnot : ¬ s.Notified id) (hu : u ≠ .pthreadJoinedThreadComplete) (hr : r.enabled = (s.sched.table id).enabled)
    (htotal : sched.total = s.sched.total)
    (hrows : ∀ i, (sched.table i).noExec = (if i = id then r.woken u else s.sched.table i).noExec) :
    ({ s with sched := sched } : System).Ok L := by
  have hrow := hrows id
  rw [if_pos rfl] at hrow
  have hf : Frame s { s with sched := sched } :=
    ⟨htotal, fun _ _ _ hv => hv, fun _ _ hw => ⟨hw.gen, hw.joinable, hw.activated⟩⟩
  refine h.of_local id rfl rfl rfl hf (fun i hi => ?_) ?_ ?_ (fun hnew => hnew) .inl
  · have hrow' := hrows i
    rw [if_neg hi] at hrow'
    exact ⟨hrow', rfl, rfl, rfl, rfl, rfl, rfl⟩
  · exact (h.threads id).woken hf hnot hu hrow rfl rfl rfl rfl rfl rfl
  · change s.pc id = .gone ↔ (sched.table id).enabled = false
    rw [SchedTask.enabled_of_noExec hrow]
    exact (h.live id).trans (by rw [← hr]; rfl)

theorem noExec_blockOn (s : System) (L : Layout) (t thread i : Nat) :
    ((s.blockOn L t thread).table i).noExec =
      (if i = t then { s.sched.table t with blockObject := L.row thread, active := false }
      else if i = thread ∧ (s.sched.table thread).blockObject = L.field thread then
        (s.sched.table thread).woken .pthreadJoined
      else s.sched.table i).noExec := by
  unfold blockOn
  simp only
  rw [Sched.noExec_updateOnSleep]
  by_cases hthread : thread = t
  · -- the row points to itself and not into itself
    rw [hthread, Sched.table_modify_self, if_neg (Ne.symm (L.field_ne_row t t)), Sched.table_modify_self]
    by_cases hi : i = t
    · rw [if_pos hi, if_pos hi]
    · rw [if_neg hi, if_neg hi, if_neg fun hc => hi hc.1, Sched.table_modify_of_ne _ hi]
  · rw [Sched.table_modify_of_ne _ hthread]
    by_cases hself : (s.sched.table thread).blockObject = L.field thread
    · rw [if_pos hself, Sched.table_assertActive, if_neg (Ne.symm hthread), Sched.table_modify_self]
      by_cases hi : i = t
      · rw [if_pos hi, if_pos hi]
      · rw [if_neg hi, if_neg hi, Sched.table_assertActive, Sched.table_modify_of_ne _ hthread]
        by_cases hit : i = thread
        · rw [if_pos hit, if_pos ⟨hit, hself⟩]
        · rw [if_neg hit, if_neg fun hc => hit hc.1, Sched.table_modify_of_ne _ hi]
    · rw [if_neg hself, Sched.table_modify_self]
      by_cases hi : i = t
      · rw [if_pos hi, if_pos hi]
      · rw [if_neg hi, if_neg hi, if_neg fun hc => hself hc.2, Sched.table_modify_of_ne _ hi]

theorem total_blockOn (s : System) (L : Layout) (t thread : Nat) : (s.blockOn L t thread).total = s.sched.total := by
  unfold blockOn
  simp only
  rw [(Sched.sameEpoch_updateOnSleep _ t).total]
  split_ifs <;> rfl

/-- A thread that is blocked on itself is in `priv_wait_joined`. -/
theorem not_notified_of_self (h : s.ThreadOk L t) (hself : (s.sched.table t).blockObject = L.field t) :
    ¬ s.Notified t := by
  rintro ⟨hin, hactive, -⟩
  unfold inJoin at hin
  have hlive : s.Live t := by
    cases hpc : s.pc t with
    | blocked thread gen => exact live_of_pc hpc (by exact nofun) (by exact nofun)
    | gone | new | idle | joining _ _ | exiting _ | freeing | cleaning | ended =>
      rw [hpc] at hin
      exact nomatch hin
  exact (clear_of_active h hactive hlive).field hself

theorem Ok.privJoinThread (h : s.Ok L) {thread gen : Nat} (hrun : s.runs t = true)
    (hpc : s.pc t = .joining thread gen) : (s.privJoinThread L t thread gen).1.Ok L := by
  have hlive : s.Live t := live_of_pc hpc (by exact nofun) (by exact nofun)
  have howed : s.owed t = none := owed_none_of_pc (h.threads t) (by rw [hpc]; exact nofun)
  have hexit := (h.threads t).running hlive (hpc ▸ id)
  unfold System.privJoinThread
  split_ifs with henabled
  · -- the thread to be joined is woken if it waits for that, and then the caller sleeps
    have hwake : ∃ sched : Sched, ({ s with sched := sched } : System).Ok L ∧ sched.total = s.sched.total ∧
        ∀ i, ((s.blockOn L t thread).table i).noExec =
          (if i = t then { sched.table t with blockObject := L.row thread, active := false }
          else sched.table i).noExec := by
      by_cases hself : thread ≠ t ∧ (s.sched.table thread).blockObject = L.field thread
      · refine ⟨s.sched.schedPrivAssertActive thread .pthreadJoined, ?_, rfl, fun i => ?_⟩
        · refine h.woken (u := .pthreadJoined) (not_notified_of_self (h.threads thread) hself.2) (by exact nofun) rfl rfl
            fun i => ?_
          rw [Sched.table_assertActive]
        · rw [noExec_blockOn, Sched.table_assertActive, if_neg (Ne.symm hself.1), Sched.table_assertActive]
          by_cases hi : i = t
          · rw [if_pos hi, if_pos hi]
          · rw [if_neg hi, if_neg hi]
            by_cases hit : i = thread
            · rw [if_pos hit, if_pos ⟨hit, hself.2⟩]
            · rw [if_neg hit, if_neg fun hc => hit hc.1]
      · refine ⟨s.sched, h, rfl, fun i => ?_⟩
        rw [noExec_blockOn]
        by_cases hi : i = t
        · rw [if_pos hi, if_pos hi]
        · rw [if_neg hi, if_neg hi, if_neg ?_]
          rintro ⟨rfl, hfield⟩
          exact hself ⟨hi, hfield⟩
    obtain ⟨sched, hok, htotal, hrows⟩ := hwake
    refine hok.sleepOn hlive (by exact ⟨nofun, nofun⟩) hrows rfl
      ((total_blockOn s L t thread).trans htotal.symm) (fun hf hobj hactive => ?_) fun hend => ?_
    · refine ⟨fun v hv => ?_, fun _ _ _ hx => ?_, fun thread' gen' hw => ?_, fun id _ hptr _ => ?_, fun hptr _ => ?_,
        fun _ _ => hexit, fun status hx => ?_, fun hx => ?_⟩
      · exact absurd (howed.symm.trans hv) (by exact nofun)
      · rw [hactive] at hx
        exact nomatch hx
      · rw [pc_setPc] at hw
        obtain hw | ⟨hw, -⟩ := hw
        · exact nomatch hw
        · cases hw
          obtain ⟨hmem, hw⟩ := (hok.threads t).waits thread gen (.inl hpc)
          exact ⟨(mem_ids_congr hf.total).mpr hmem, hf.waits thread gen hw⟩
      · refine ⟨gen, ?_, hactive⟩
        rw [pc_setPc, L.row_injective (hobj.symm.trans hptr)]
      · exact absurd (hptr.symm.trans hobj) (L.field_ne_row t thread)
      · rw [pc_setPc] at hx
        exact nomatch hx
      · rw [pc_setPc] at hx
        exact hx.elim (by exact nofun) (by exact nofun)
    · exact absurd hend (show ¬ (s.pc t).Ending from hpc ▸ id)
  · exact h.setPc hrun hpc (by exact ⟨nofun, nofun⟩) id howed (by exact ⟨nofun, nofun⟩) id (by exact nofun)
      (by exact nofun)

/-! ### Who is a joiner -/

/-- A live thread whose row points to another is blocked in a call that has named it. -/
theorem Ok.joiner (h : s.Ok L) {j : Nat} (ht : t < s.sched.total) (hptr : (s.sched.table j).blockObject = L.row t)
    (hlive : s.Live j) :
    s.pc j = .blocked t (s.gen t) ∧ (s.sched.table j).active = false ∧ s.owed j = none ∧ s.joinable t = true := by
  obtain ⟨gen, hpc, hasleep⟩ := (h.threads j).pointer t ht hptr hlive
  have howed : s.owed j = none := by
    cases hv : s.owed j with
    | none => rfl
    | some v =>
      have hactive := ((h.threads j).owed v hv).active
      rw [hasleep] at hactive
      exact nomatch hactive
  obtain ⟨-, hgen, hjoinable, -⟩ := (h.threads j).waits t gen (.inr ⟨hpc, howed⟩)
  exact ⟨hgen ▸ hpc, hasleep, howed, hjoinable⟩

theorem Ok.isJoiner (h : s.Ok L) {j : Nat} (ht : t < s.sched.total)
    (hptr : (s.sched.table j).blockObject = L.row t) (hlive : s.Live j) : s.isJoiner L t j = true := by
  obtain ⟨hpc, hasleep, -, -⟩ := h.joiner ht hptr hlive
  have henabled : (s.sched.table j).enabled = true := by
    by_contra hdead
    exact hlive.1 ((h.live j).mpr (Bool.not_eq_true _ ▸ hdead))
  unfold System.isJoiner
  simp only [henabled, hasleep, hptr, hpc, beq_self_eq_true, Bool.not_false, Bool.and_self]

/-- The row that is found is the lowest that points to the thread. -/
theorem joined_spec {j : Nat} (h : s.joined L t = some j) :
    j ∈ s.sched.ids ∧ (s.sched.table j).blockObject = L.row t ∧
      ∀ i ∈ s.sched.ids, i < j → (s.sched.table i).blockObject ≠ L.row t := by
  have hsorted : s.sched.ids.Pairwise (· < ·) := List.pairwise_lt_range.sublist (List.drop_sublist _ _)
  unfold System.joined at h
  rw [List.find?_eq_some_iff_append] at h
  obtain ⟨hj, before, after, hids, hbefore⟩ := h
  refine ⟨by rw [hids]; simp, beq_iff_eq.mp hj, fun i hi hlt hptr => ?_⟩
  rw [hids] at hsorted hi
  rcases List.mem_append.mp hi with hi | hi
  · exact absurd (beq_iff_eq.mpr hptr) (by simpa using hbefore i hi)
  · rcases List.mem_cons.mp hi with hi | hi
    · exact absurd hlt (hi ▸ Nat.lt_irrefl j)
    · exact absurd hlt (Nat.not_lt.mpr (Nat.le_of_lt (List.rel_of_pairwise_cons (List.pairwise_append.mp hsorted).2.1 hi)))

/-! ### The end of a thread -/

theorem update_update {β : Type} (f : Nat → Nat → β) (t g : Nat) (v : β) (id gen : Nat) :
    update f t (update (f t) g v) id gen = if id = t ∧ gen = g then v else f id gen := by
  by_cases hid : id = t
  · rw [hid, update_self]
    by_cases hgen : gen = g
    · rw [hgen, update_self, if_pos ⟨rfl, rfl⟩]
    · rw [update_of_ne hgen, if_neg fun hc => hgen hc.2]
  · rw [update_of_ne hid, if_neg fun hc => hid hc.1]

theorem Ok.cleanupThread (h : s.Ok L) {status : Int} (hrun : s.runs t = true) (hpc : s.pc t = .idle) :
    (s.cleanupThread t status).Ok L := by
  have hlive : s.Live t := live_of_pc hpc (by exact nofun) (by exact nofun)
  have howed : s.owed t = none := owed_none_of_pc (h.threads t) (by rw [hpc]; exact nofun)
  have hexit := (h.threads t).running hlive (hpc ▸ id)
  have hclear := clear_of_active (h.threads t) (active_of_runs hrun) hlive
  have henabled : ¬ (s.sched.table t).enabled = false := fun henabled => hlive.1 ((h.live t).mpr henabled)
  unfold System.cleanupThread
  split_ifs with hjoinable
  · have hset : Frame s (s.setPc t (.exiting status)) := frame_setPc (by exact nofun)
    have hvalue := update_update s.exitOf t (s.gen t) (some status)
    have hf : Frame s ({ s with exitOf := update s.exitOf t (update (s.exitOf t) (s.gen t) (some status)) }.setPc t
        (.exiting status)) := by
      refine ⟨rfl, fun id gen v hv => (hvalue id gen).trans ?_, fun thread gen hw =>
        ⟨hw.gen, hw.joinable, (hset.waits thread gen hw).activated⟩⟩
      rw [if_neg, hv]
      rintro ⟨rfl, rfl⟩
      rw [hexit] at hv
      exact nomatch hv
    refine ⟨fun i => ?_, fun i => ?_, fun i hi => ?_, fun id gen hlt => (hvalue id gen).trans ?_, fun id gen v hv => ?_⟩
    · by_cases hi : i = t
      · rw [hi, pc_setPc]
        exact iff_of_false (by exact nofun) henabled
      · rw [(same_setPc (s := { s with exitOf := _ }) _ hi).pc]
        exact h.live i
    · by_cases hi : i = t
      · rw [hi]
        refine threadOk_of_ending howed (by rw [pc_setPc]; trivial) ⟨hclear.row, hclear.field⟩ (fun st hst => ?_) ?_
        · rw [pc_setPc] at hst
          cases hst
          exact ⟨hjoinable, (hvalue t _).trans (if_pos ⟨rfl, rfl⟩)⟩
        · rw [pc_setPc]
          exact fun hx => hx.elim (by exact nofun) (by exact nofun)
      · refine (h.threads i).frame hf ⟨rfl, update_of_ne hi _ _, rfl, rfl, rfl, ?_, rfl⟩
        exact (hvalue i _).trans (if_neg fun hc => hi hc.1)
    · by_cases hit : i = t
      · rw [hit, pc_setPc] at hi
        exact nomatch hi
      · rw [(same_setPc (s := { s with exitOf := _ }) _ hit).pc] at hi
        exact (hvalue i _).trans ((if_neg fun hc => hit hc.1).trans (h.new i hi))
    · rw [if_neg, h.fresh id gen hlt]
      rintro ⟨rfl, rfl⟩
      exact Nat.lt_irrefl _ hlt
    · by_cases hid : id = t
      · rw [hid] at hv ⊢
        by_cases hgen : gen = s.gen t
        · refine .inr ⟨hgen, ?_⟩
          rw [pc_setPc]
          trivial
        · have hv' := (hvalue t gen).symm.trans hv
          rw [if_neg fun hc => hgen hc.2] at hv'
          exact (h.delivered t gen v hv').imp_right fun hc => absurd hc.1 hgen
      · have hv' := (hvalue id gen).symm.trans hv
        rw [if_neg fun hc => hid hc.1] at hv'
        rw [(same_setPc (s := { s with exitOf := _ }) _ hid).pc]
        exact h.delivered id gen v hv'
  · have hf : Frame s (s.setPc t .freeing) := frame_setPc (by exact nofun)
    refine h.of_local t rfl rfl rfl hf (fun i hi => same_setPc _ hi) ?_ ?_ ?_ fun _ => .inr hexit
    · refine threadOk_of_ending howed (by rw [pc_setPc]; trivial) ⟨hclear.row, hclear.field⟩ ?_ fun _ => ?_
      · rw [pc_setPc]
        exact nofun
      · exact ⟨hexit.trans (if_neg hjoinable).symm, fun hj => absurd hj hjoinable⟩
    · rw [pc_setPc]
      exact iff_of_false (by exact nofun) henabled
    · rw [pc_setPc]
      exact nofun

theorem Ok.privWaitJoined (h : s.Ok L) {status : Int} (hrun : s.runs t = true) (hpc : s.pc t = .exiting status)
    (hcareful : s.Careful L (.privWaitJoined t)) : (s.privWaitJoined L t status).Ok L := by
  have hlive : s.Live t := live_of_pc hpc (by exact nofun) (by exact nofun)
  have howed : s.owed t = none := owed_none_of_pc (h.threads t) (by rw [hpc]; exact nofun)
  obtain ⟨hjoinable, hexit⟩ := (h.threads t).exiting status hpc
  have hclear := clear_of_active (h.threads t) (active_of_runs hrun) hlive
  unfold System.privWaitJoined
  split
  · next j hj =>
    have hset : Frame s (s.setPc t .freeing) := frame_setPc (by exact nofun)
    refine h.of_local t rfl rfl rfl ⟨rfl, hset.exitOf, fun thread gen hw => ⟨hw.gen, hw.joinable,
      (hset.waits thread gen hw).activated⟩⟩ (fun i hi => ?_) ?_ ?_ ?_ fun _ => .inl (by rw [pc_setPc]; trivial)
    · exact ⟨rfl, update_of_ne hi _ _, rfl, update_of_ne hi _ _, rfl, rfl, update_of_ne hi _ _⟩
    · refine threadOk_of_ending howed (by rw [pc_setPc]; trivial) ⟨hclear.row, hclear.field⟩ ?_ fun _ => ?_
      · rw [pc_setPc]
        exact nofun
      · refine ⟨hexit.trans (Eq.trans ?_ (if_pos hjoinable).symm), fun _ => ?_⟩
        · exact congrArg some (update_self t status s.exitStatus).symm
        · obtain ⟨hmem, hptr, hfirst⟩ := joined_spec hj
          refine (update_self t _ s.counted).trans (congrArg some ?_)
          exact h.isJoiner ((Sched.mem_ids _).mp (mem_of_runs hrun)).2 hptr (hcareful j hmem hptr hfirst)
    · rw [pc_setPc]
      exact iff_of_false (by exact nofun) fun henabled => hlive.1 ((h.live t).mpr henabled)
    · rw [pc_setPc]
      exact nofun
  · have hrows := noExec_sleepWith s.sched t (L.field t)
    have htotal : ((s.sched.modify t fun r => { r with blockObject := L.field t }).schedPrivUpdateOnSleep t).total =
        s.sched.total := (Sched.sameEpoch_updateOnSleep _ t).total
    refine h.sleepOn hlive (by exact ⟨nofun, nofun⟩) hrows (eq_setPc hpc) htotal (fun hf hobj hactive => ?_)
      fun _ => .inl trivial
    refine ⟨fun v hv => absurd (howed.symm.trans hv) (by exact nofun), fun _ _ hx => ?_, fun _ _ hw => ?_,
      fun id _ hptr _ => absurd (hobj.symm.trans hptr) (L.field_ne_row t id), fun _ _ => ⟨status, hpc, hactive⟩,
      fun _ hend => ?_, fun st hst => ?_, fun hx => ?_⟩
    · exact absurd (hpc.symm.trans hx) (by exact nofun)
    · exact hw.elim (fun hx => absurd (hpc.symm.trans hx) (by exact nofun))
        fun hx => absurd (hpc.symm.trans hx.1) (by exact nofun)
    · exact absurd (show (s.pc t).Ending from hpc ▸ trivial) hend
    · obtain rfl : status = st := Pc.exiting.inj (hpc.symm.trans hst)
      exact ⟨hjoinable, hexit⟩
    · exact hx.elim (fun hx => absurd (hpc.symm.trans hx) (by exact nofun))
        fun hx => absurd (hpc.symm.trans hx) (by exact nofun)

theorem Ok.free (h : s.Ok L) (hrun : s.runs t = true) (hpc : s.pc t = .freeing) : (s.setPc t .cleaning).Ok L := by
  have hlive : s.Live t := live_of_pc hpc (by exact nofun) (by exact nofun)
  have howed : s.owed t = none := owed_none_of_pc (h.threads t) (by rw [hpc]; exact nofun)
  have hclear := clear_of_active (h.threads t) (active_of_runs hrun) hlive
  refine h.of_local t rfl rfl rfl (frame_setPc (by exact nofun)) (fun i hi => same_setPc _ hi) ?_ ?_ ?_ fun _ =>
    .inl (by rw [pc_setPc]; trivial)
  · refine threadOk_of_ending howed (by rw [pc_setPc]; trivial) ⟨hclear.row, hclear.field⟩ ?_ fun _ => ?_
    · rw [pc_setPc]
      exact nofun
    · exact (h.threads t).saved (.inl hpc)
  · rw [pc_setPc]
    exact iff_of_false (by exact nofun) fun henabled => hlive.1 ((h.live t).mpr henabled)
  · rw [pc_setPc]
    exact nofun

/-! ### Signals and other wakes -/

theorem Ok.signal (h : s.Ok L) (hnot : ¬ s.Notified t) :
    ({ s with sched := s.sched.signalPrivActivate t } : System).Ok L :=
  h.woken (u := .signal) (r := { s.sched.table t with stopped := false }) hnot (by exact nofun) rfl
    (Sched.activate_spec s.sched t).total fun i => Sched.noExec_signal s.sched t i

theorem Ok.wake (h : s.Ok L) {u : SchedUnblockType} (hasleep : (s.sched.table t).active = false)
    (hu : u ≠ .pthreadJoinedThreadComplete) : ({ s with sched := s.sched.privWake t u } : System).Ok L := by
  have hnot : ¬ s.Notified t := by
    rintro ⟨-, hactive, -⟩
    rw [hasleep] at hactive
    exact nomatch hactive
  exact h.woken (u := u) (r := s.sched.table t) hnot hu rfl (Sched.sameEpoch_wake s.sched t u).total fun i =>
    Sched.noExec_wake s.sched t u i

theorem Ok.block (h : s.Ok L) {obj : Nat} (hrun : s.runs t = true) (hpc : s.pc t = .idle)
    (hobj : obj < L.base ∨ L.row s.sched.total ≤ obj) :
    ({ s with sched := (s.sched.modify t fun r => { r with blockObject := obj }).schedPrivUpdateOnSleep t } :
      System).Ok L := by
  have hlive : s.Live t := live_of_pc hpc (by exact nofun) (by exact nofun)
  have howed : s.owed t = none := owed_none_of_pc (h.threads t) (by rw [hpc]; exact nofun)
  have hexit := (h.threads t).running hlive (hpc ▸ id)
  have htotal : ((s.sched.modify t fun r => { r with blockObject := obj }).schedPrivUpdateOnSleep t).total =
      s.sched.total := (Sched.sameEpoch_updateOnSleep _ t).total
  refine h.sleepOn hlive (by exact ⟨nofun, nofun⟩) (noExec_sleepWith s.sched t obj) (eq_setPc hpc) htotal
    (fun hf hptr hactive => ?_) fun hend => absurd hend (show ¬ (s.pc t).Ending from hpc ▸ id)
  refine threadOk_of_clear howed ?_ (show ¬ (s.pc t).Ending from hpc ▸ id) ?_ (fun _ => ⟨fun id hid => ?_, ?_⟩)
    fun _ => hexit
  · exact fun _ _ hx => absurd (hpc.symm.trans hx) (by exact nofun)
  · exact fun _ _ hx => absurd (hpc.symm.trans hx) (by exact nofun)
  · rw [hptr]
    exact L.outside_ne_row hobj (htotal ▸ hid)
  · rw [hptr]
    exact L.outside_ne_field hobj ((Sched.mem_ids _).mp (mem_of_runs hrun)).2

/-! ### Deleted tasks -/

theorem threadOk_of_gone (hpc : s.pc t = .gone) (howed : s.owed t = none) : s.ThreadOk L t := by
  have hdead : ¬ s.Live t := fun hlive => hlive.1 hpc
  refine threadOk_of_clear howed ?_ (hpc ▸ id) ?_ (fun hlive => absurd hlive hdead) fun hlive => absurd hlive hdead
  · rw [hpc]
    exact nofun
  · rw [hpc]
    exact nofun

/-- A task whose process has ended is deleted. -/
theorem Ok.delete (h : s.Ok L) {sched : Sched} (hpc : s.pc t = .ended) (htotal : sched.total = s.sched.total)
    (hrows : ∀ i, (sched.table i).noExec =
      (if i = t then Sched.clearTask (s.sched.table t) else s.sched.table i).noExec) :
    ({ s with sched := sched }.setPc t .gone : System).Ok L := by
  have hset : Frame s (s.setPc t .gone) := frame_setPc (by exact nofun)
  have howed : s.owed t = none := owed_none_of_pc (h.threads t) (by rw [hpc]; exact nofun)
  have hrow := hrows t
  rw [if_pos rfl] at hrow
  refine h.of_local t rfl rfl rfl ⟨htotal, hset.exitOf, fun thread gen hw => ⟨hw.gen, hw.joinable,
    (hset.waits thread gen hw).activated⟩⟩ (fun i hi => ?_) (threadOk_of_gone (pc_setPc _) howed) ?_ ?_ fun hend => ?_
  · have hrow' := hrows i
    rw [if_neg hi] at hrow'
    exact ⟨hrow', update_of_ne hi _ _, rfl, rfl, rfl, rfl, rfl⟩
  · exact iff_of_true (pc_setPc _) (SchedTask.enabled_of_noExec hrow)
  · rw [pc_setPc]
    exact nofun
  · exact absurd hend (show ¬ (s.pc t).Ending from hpc ▸ id)

theorem Ok.zombieProcess (h : s.Ok L) {signalSent : Bool} (hrun : s.runs t = true) (hpc : s.pc t = .ended) :
    (s.zombieProcess t signalSent).Ok L := by
  unfold System.zombieProcess
  split_ifs
  · have hlive : s.Live t := live_of_pc hpc (by exact nofun) (by exact nofun)
    have howed : s.owed t = none := owed_none_of_pc (h.threads t) (by rw [hpc]; exact nofun)
    have hexit := (h.threads t).running hlive (hpc ▸ id)
    have hclear := clear_of_active (h.threads t) (active_of_runs hrun) hlive
    refine h.sleepOn hlive (by exact ⟨nofun, nofun⟩) (Sched.noExec_updateOnSleep s.sched t) (eq_setPc hpc)
      (Sched.sameEpoch_updateOnSleep s.sched t).total (fun hf hptr _ => ?_)
      fun hend => absurd hend (show ¬ (s.pc t).Ending from hpc ▸ id)
    refine threadOk_of_clear howed ?_ (show ¬ (s.pc t).Ending from hpc ▸ id) ?_ (fun _ => ⟨fun id hid => ?_, ?_⟩)
      fun _ => hexit
    · exact fun _ _ hx => absurd (hpc.symm.trans hx) (by exact nofun)
    · exact fun _ _ hx => absurd (hpc.symm.trans hx) (by exact nofun)
    · rw [hptr]
      exact hclear.row id (hf.total ▸ hid)
    · rw [hptr]
      exact hclear.field
  · refine h.delete hpc ?_ (Sched.noExec_cleanup s.sched t)
    exact (Sched.sameEpoch_updateOnSleep _ t).total

theorem stopped_iff {i : Nat} : s.stopped t i = true ↔
    i ∈ s.sched.ids ∧ (s.sched.table i).pid = (s.sched.table t).pid ∧ i ≠ t := decide_eq_true_iff

/-- A thread that has not ended with a value, or has given it away, can be deleted. -/
theorem ThreadOk.exitOf_of_not_joinable (h : s.ThreadOk L t) (hlive : s.Live t)
    (hnot : s.joinable t = true → ¬ (s.pc t).Ending) : s.exitOf t (s.gen t) = none := by
  by_cases hend : (s.pc t).Ending
  · have hjoinable : s.joinable t = false := by
      by_contra hj
      exact hnot (Bool.not_eq_false _ ▸ hj) hend
    have hplace : s.pc t = .freeing ∨ s.pc t = .cleaning := by
      cases hpc : s.pc t with
      | freeing => exact .inl rfl
      | cleaning => exact .inr rfl
      | exiting status =>
        rw [((h.exiting status hpc).1 : s.joinable t = true)] at hjoinable
        exact nomatch hjoinable
      | gone | new | idle | joining _ _ | blocked _ _ | ended =>
        rw [hpc] at hend
        exact hend.elim
    rw [(h.saved hplace).1, hjoinable]
    rfl
  · exact h.running hlive hend

theorem Ok.stopThreads (h : s.Ok L) {status : Int} (hrun : s.runs t = true) (hpc : s.pc t ≠ .new)
    (hcareful : ∀ i ∈ s.sched.ids, (s.sched.table i).pid = (s.sched.table t).pid → s.joinable i = true →
      ¬ (s.pc i).Ending) : (s.stopThreads t status).Ok L := by
  have hmem := mem_of_runs hrun
  have hlive : s.Live t := by
    refine ⟨fun hgone => ?_, hpc⟩
    have henabled := (h.live t).mp hgone
    unfold runs at hrun
    simp only [henabled, Bool.and_false, Bool.false_and, Bool.false_eq_true] at hrun
  have hclear := clear_of_active (h.threads t) (active_of_runs hrun) hlive
  have hself : (s.stopThreads t status).pc t = .ended := if_pos rfl
  have hstopped : ∀ i, i ≠ t → s.stopped t i = true → (s.stopThreads t status).pc i = .gone := fun i hi hs =>
    (if_neg hi).trans (if_pos hs)
  -- the threads that do not stop with this one
  have hother : ∀ i, i ≠ t → ¬ s.stopped t i = true → Same s (s.stopThreads t status) i := by
    intro i hi hs
    refine ⟨?_, (if_neg hi).trans (if_neg hs), ?_, update_of_ne hi _ _, rfl, rfl, rfl⟩
    · exact congrArg SchedTask.noExec (if_neg fun hc => hs (stopped_iff.mpr hc))
    · exact if_neg (by simp only [hi, hs, decide_false, Bool.or_self, Bool.false_eq_true, not_false_eq_true])
  have hrow : (s.stopThreads t status).sched.table t = s.sched.table t := if_neg fun hc => hc.2.2 rfl
  have hexit : s.exitOf t (s.gen t) = none :=
    (h.threads t).exitOf_of_not_joinable hlive fun hj => hcareful t hmem rfl hj
  have hf : Frame s (s.stopThreads t status) := by
    refine ⟨rfl, fun _ _ _ hv => hv, Frame.waits_of rfl fun i hnew => ⟨rfl, ?_⟩⟩
    by_cases hi : i = t
    · rw [hi, hself]
      exact nofun
    · by_cases hs : s.stopped t i = true
      · rw [hstopped i hi hs]
        exact nofun
      · rw [(hother i hi hs).pc]
        exact hnew
  refine h.of_threads rfl rfl rfl (fun i => ?_) (fun i => ?_) (fun i => ?_) fun i hend => ?_
  · by_cases hi : i = t
    · rw [hi]
      refine threadOk_of_clear (if_pos (by simp only [decide_true, Bool.true_or])) ?_ ?_ ?_
        (fun _ => ⟨?_, ?_⟩) fun _ => hexit
      · rw [hself]
        exact nofun
      · rw [hself]
        exact id
      · rw [hself]
        exact nofun
      · rw [hrow]
        exact hclear.row
      · rw [hrow]
        exact hclear.field
    · by_cases hs : s.stopped t i = true
      · exact threadOk_of_gone (hstopped i hi hs) (if_pos (by simp only [hs, Bool.or_true]))
      · exact (h.threads i).frame hf (hother i hi hs)
  · by_cases hi : i = t
    · rw [hi, hself, hrow]
      exact iff_of_false (by exact nofun) fun henabled => hlive.1 ((h.live t).mpr henabled)
    · by_cases hs : s.stopped t i = true
      · refine iff_of_true (hstopped i hi hs) ?_
        exact congrArg SchedTask.enabled (if_pos (stopped_iff.mp hs))
      · rw [(hother i hi hs).pc, SchedTask.enabled_of_noExec (hother i hi hs).row]
        exact h.live i
  · by_cases hi : i = t
    · rw [hi, hself]
      exact nofun
    · by_cases hs : s.stopped t i = true
      · rw [hstopped i hi hs]
        exact nofun
      · rw [(hother i hi hs).pc]
        exact fun hx => hx
  · by_cases hi : i = t
    · rw [hi]
      exact .inr hexit
    · by_cases hs : s.stopped t i = true
      · obtain ⟨himem, hpid, -⟩ := stopped_iff.mp hs
        have hilive : s.Live i := by
          constructor
          · intro hx
            rw [hx] at hend
            exact hend
          · intro hx
            rw [hx] at hend
            exact hend
        exact .inr ((h.threads i).exitOf_of_not_joinable hilive (hcareful i himem hpid))
      · rw [(hother i hi hs).pc]
        exact .inl hend

/-! ### New tasks -/

theorem Ok.activate (h : s.Ok L) {id : Nat} {prio : Int} {joinable : Bool} (hpc : s.pc id = .new) :
    (s.activate id prio joinable).Ok L := by
  have hset : Frame s (s.setPc id .idle) := frame_setPc (by exact nofun)
  have howed : s.owed id = none := owed_none_of_pc (h.threads id) (by rw [hpc]; exact nofun)
  have hrow := Sched.noExec_activateThread s.sched id prio id
  rw [if_pos rfl] at hrow
  have htotal : (s.sched.privActivateThread id prio).total = s.sched.total :=
    (Sched.sameEpoch_activateThread s.sched id prio).total
  have hf : Frame s (s.activate id prio joinable) := by
    refine ⟨htotal, fun _ _ _ hv => hv, Frame.waits_of rfl fun i hnew => ⟨update_of_ne ?_ _ _, ?_⟩⟩
    · rintro rfl
      exact hnew hpc
    · by_cases hi : i = id
      · rw [hi]
        exact fun hx => absurd ((pc_setPc _).symm.trans hx) (by exact nofun)
      · exact fun hx => hnew ((update_of_ne hi _ _).symm.trans hx)
  refine h.of_local id rfl rfl rfl hf (fun i hi => ?_) ?_ ?_ ?_ fun hend => ?_
  · have hrow' := Sched.noExec_activateThread s.sched id prio i
    rw [if_neg hi] at hrow'
    exact ⟨hrow', update_of_ne hi _ _, rfl, update_of_ne hi _ _, update_of_ne hi _ _, rfl, rfl⟩
  · have hpc' : (s.activate id prio joinable).pc id = .idle := pc_setPc _
    refine threadOk_of_clear howed ?_ ?_ ?_ (fun _ => clear_of_zero (SchedTask.blockObject_of_noExec hrow))
      fun _ => h.new id hpc
    · rw [hpc']
      exact nofun
    · rw [hpc']
      exact fun hx => hx
    · rw [hpc']
      exact nofun
  · refine iff_of_false (fun hx => absurd ((pc_setPc _).symm.trans hx) (by exact nofun)) fun henabled => ?_
    have hgone := (h.live id).mpr ((SchedTask.enabled_of_noExec hrow).symm.trans henabled)
    rw [hpc] at hgone
    exact nomatch hgone
  · exact fun hx => absurd ((pc_setPc _).symm.trans hx) (by exact nofun)
  · rw [hpc] at hend
    exact hend.elim

/-- The row that is taken is one that no call waits for. -/
theorem Ok.newTask (h : s.Ok L) {pid : Nat} (hs : s.newTask pid = some s')
    (hcareful : ∀ p ∈ s.sched.taskPrivNewTask pid, ∀ j ∈ s.sched.ids, ¬ s.WaitsFor j p.2) : s'.Ok L := by
  unfold System.newTask at hs
  rw [Option.map_eq_some_iff] at hs
  obtain ⟨⟨sched, id⟩, hnew, rfl⟩ := hs
  obtain ⟨hmem, hfree, hrows⟩ := Sched.newTask_spec s.sched hnew
  have hunwaited := hcareful _ hnew
  have hgone := (h.live id).mpr hfree
  have hrow := hrows id
  rw [if_pos rfl] at hrow
  have htotal : sched.total = s.sched.total := (Sched.sameEpoch_newTask s.sched hnew).total
  have hsame : ∀ i, i ≠ id →
      Same s ({ s with sched := sched, gen := update s.gen id (s.gen id + 1) }.setPc id .new) i := by
    intro i hi
    have hrow' := hrows i
    rw [if_neg hi] at hrow'
    refine ⟨congrArg SchedTask.noExec hrow', update_of_ne hi _ _, rfl, rfl, rfl, ?_, rfl⟩
    exact congrArg (s.exitOf i) (update_of_ne hi _ _)
  -- the row has no exit value for its new incarnation
  have hfresh : s.exitOf id (s.gen id + 1) = none := h.fresh id _ (Nat.lt_succ_self _)
  refine ⟨fun i => ?_, fun i => ?_, fun i hi => ?_, fun i gen hlt => ?_, fun i gen v hv => ?_⟩
  · by_cases hi : i = id
    · rw [hi, pc_setPc]
      refine iff_of_false (by exact nofun) fun henabled => ?_
      have htrue : (sched.table id).enabled = true := congrArg SchedTask.enabled hrow
      exact absurd (htrue.symm.trans henabled) (by exact nofun)
    · rw [(hsame i hi).pc, SchedTask.enabled_of_noExec (hsame i hi).row]
      exact h.live i
  · by_cases hi : i = id
    · rw [hi]
      have hdead : ¬ ({ s with sched := sched, gen := update s.gen id (s.gen id + 1) }.setPc id .new).Live id :=
        fun hlive => hlive.2 (pc_setPc _)
      have howed : s.owed id = none := owed_none_of_pc (h.threads id) (by rw [hgone]; exact nofun)
      refine threadOk_of_clear howed ?_ ?_ ?_ (fun hlive => absurd hlive hdead) fun hlive => absurd hlive hdead
      · rw [pc_setPc]
        exact nofun
      · rw [pc_setPc]
        exact fun hx => hx
      · rw [pc_setPc]
        exact nofun
    · refine (h.threads i).of_same htotal (fun _ _ _ hv => hv) (hsame i hi) fun thread gen hpc => ?_
      obtain ⟨himem, hgen, hjoinable, hactivated⟩ := (h.threads i).waits thread gen hpc
      have hne : thread ≠ id := by
        rintro rfl
        refine hunwaited i himem ?_
        unfold WaitsFor
        rcases hpc with hpc | ⟨hpc, howed⟩
        · rw [hpc]
        · rw [hpc]
          refine ⟨rfl, fun hnotified => ?_⟩
          obtain ⟨v, hv⟩ := (h.threads i).notified _ gen hpc hnotified.2.1 hnotified.2.2
          rw [howed] at hv
          exact nomatch hv
      refine ⟨hgen.trans (update_of_ne hne _ _).symm, hjoinable, ?_⟩
      rw [(hsame thread hne).pc]
      exact hactivated
  · by_cases hid : i = id
    · rw [hid]
      exact (congrArg (s.exitOf id) (update_self id _ _)).trans hfresh
    · rw [(hsame i hid).exitOf]
      exact h.new i ((hsame i hid).pc ▸ hi)
  · refine h.fresh i gen (Nat.lt_of_le_of_lt ?_ hlt)
    change s.gen i ≤ update s.gen id (s.gen id + 1) i
    by_cases hi : i = id
    · rw [hi, update_self]
      exact Nat.le_succ _
    · exact Nat.le_of_eq (update_of_ne hi _ _).symm
  · by_cases hi : i = id
    · refine .inl ((h.delivered i gen v hv).resolve_right fun hc => ?_)
      rw [hi, hgone] at hc
      exact hc.2
    · have hgen : update s.gen id (s.gen id + 1) i = s.gen i := update_of_ne hi _ _
      rw [(hsame i hi).pc]
      change s.delivered i gen = true ∨ gen = update s.gen id (s.gen id + 1) i ∧ (s.pc i).Ending
      rw [hgen]
      exact h.delivered i gen v hv

/-! ### The notification of the joiners -/

theorem notified_iff {j : Nat} :
    s.notified L t j = true ↔ j ∈ s.sched.ids ∧ (s.sched.table j).blockObject = L.row t := by
  unfold System.notified
  rw [Bool.and_eq_true, decide_eq_true_iff, beq_iff_eq]

theorem Ok.privCleanup (h : s.Ok L) (hrun : s.runs t = true) (hpc : s.pc t = .cleaning)
    (hcareful : s.joinable t = true → ∃ j ∈ s.sched.ids, (s.sched.table j).blockObject = L.row t ∧ s.Live j) :
    (s.privCleanup L t).Ok L := by
  have ht := ((Sched.mem_ids _).mp (mem_of_runs hrun)).2
  have howedt : s.owed t = none := owed_none_of_pc (h.threads t) (by rw [hpc]; exact nofun)
  have hsaved := ((h.threads t).saved (.inr hpc)).1
  have hpct : (s.privCleanup L t).pc t = .gone := pc_setPc _
  have hpco : ∀ i, i ≠ t → (s.privCleanup L t).pc i = s.pc i := fun i hi => update_of_ne hi _ _
  have hrows : ∀ i, i ≠ t → ((s.privCleanup L t).sched.table i).noExec =
      (if i ∈ s.sched.ids ∧ (s.sched.table i).blockObject = L.row t then
        (s.sched.table i).woken .pthreadJoinedThreadComplete
      else s.sched.table i).noExec := by
    intro i hi
    refine (Sched.noExec_cleanupJoined s.sched t (L.row t) i).trans ?_
    simp only [if_neg hi]
  have hdeadt : ((s.privCleanup L t).sched.table t).enabled = false := by
    have hrow := Sched.noExec_cleanupJoined s.sched t (L.row t) t
    simp only [ite_true] at hrow
    exact SchedTask.enabled_of_noExec hrow
  have hset : Frame s (s.setPc t .gone) := frame_setPc (by exact nofun)
  have hf : Frame s (s.privCleanup L t) := ⟨(Sched.sameEpoch_cleanupJoined s.sched t (L.row t)).total,
    fun _ _ _ hv => hv, fun thread gen hw => ⟨hw.gen, hw.joinable, (hset.waits thread gen hw).activated⟩⟩
  -- the rows that are not notified stay as they were
  have hquiet : ∀ i, i ≠ t → ¬ s.notified L t i = true → Same s (s.privCleanup L t) i := by
    intro i hi hn
    have hrow := hrows i hi
    rw [if_neg fun hc => hn (notified_iff.mpr hc)] at hrow
    rw [Bool.not_eq_true] at hn
    refine ⟨hrow, hpco i hi, ?_, ?_, rfl, rfl, rfl⟩
    · exact if_neg (by rw [hn, Bool.false_and]; exact nofun)
    · exact if_neg (by rw [hn]; exact nofun)
  -- what has ended has its value delivered, now or before
  have hdelivered : ∀ id gen v, s.exitOf id gen = some v → s.delivered id gen = true ∨ gen = s.gen id ∧ (s.pc id).Ending →
      (s.privCleanup L t).delivered id gen = true ∨ gen = s.gen id ∧ ((s.privCleanup L t).pc id).Ending := by
    intro id gen v hv hd
    have hupd := update_update s.delivered t (s.gen t) (s.sched.ids.any fun j => s.isJoiner L t j) id gen
    by_cases hthis : id = t ∧ gen = s.gen t
    · left
      refine hupd.trans ((if_pos hthis).trans ?_)
      rw [hthis.1, hthis.2, hsaved] at hv
      have hjoinable : s.joinable t = true := by
        by_contra hj
        rw [if_neg hj] at hv
        exact nomatch hv
      obtain ⟨j, hj, hptr, hlive⟩ := hcareful hjoinable
      exact List.any_eq_true.mpr ⟨j, hj, h.isJoiner ht hptr hlive⟩
    · have hkeep : (s.privCleanup L t).delivered id gen = s.delivered id gen := hupd.trans (if_neg hthis)
      rw [hkeep]
      refine hd.imp_right fun ⟨hgen, hend⟩ => ⟨hgen, ?_⟩
      have hid : id ≠ t := by
        rintro rfl
        exact hthis ⟨rfl, hgen⟩
      rw [hpco id hid]
      exact hend
  refine ⟨fun i => ?_, fun i => ?_, fun i hi => ?_, h.fresh, fun id gen v hv => hdelivered id gen v hv
    (h.delivered id gen v hv)⟩
  · by_cases hi : i = t
    · rw [hi]
      exact iff_of_true hpct hdeadt
    · have henabled : ((s.privCleanup L t).sched.table i).enabled = (s.sched.table i).enabled := by
        rw [SchedTask.enabled_of_noExec (hrows i hi)]
        split_ifs <;> rfl
      rw [hpco i hi, henabled]
      exact h.live i
  · by_cases hi : i = t
    · rw [hi]
      refine threadOk_of_gone hpct ((if_neg ?_).trans howedt)
      unfold inJoin
      rw [hpc, Bool.and_false]
      exact nofun
    · by_cases hn : s.notified L t i = true
      · obtain ⟨hmem, hptr⟩ := notified_iff.mp hn
        have hrow := hrows i hi
        rw [if_pos ⟨hmem, hptr⟩] at hrow
        have hclear : (s.privCleanup L t).Clear L i := clear_of_zero (SchedTask.blockObject_of_noExec hrow)
        by_cases hlive : s.Live i
        · -- a joiner gets the value
          obtain ⟨hpci, -, howed, hjoinable⟩ := h.joiner ht hptr hlive
          have howed' : (s.privCleanup L t).owed i = some (s.exitStatus t) := by
            refine if_pos ?_
            unfold inJoin
            rw [hn, hpci]
            rfl
          have hhanded : (s.privCleanup L t).Handed i (s.exitStatus t) :=
            ⟨SchedTask.active_of_noExec hrow, SchedTask.unblockType_of_noExec hrow, if_pos hn, t, s.gen t,
              (hpco i hi).trans hpci, hsaved.trans (if_pos hjoinable)⟩
          refine ⟨fun v hv => ?_, fun _ _ _ _ _ => ⟨_, howed'⟩, fun thread gen hx => ?_,
            fun id hid hx _ => absurd hx (hclear.row id hid), fun hx _ => absurd hx hclear.field, fun _ hend => ?_,
            fun status hx => ?_, fun hx => ?_⟩
          · obtain rfl := Option.some.inj (howed'.symm.trans hv)
            exact hhanded
          · rw [hpco i hi, hpci, howed'] at hx
            exact hx.elim (by exact nofun) fun hc => nomatch hc.2
          · exact (h.threads i).running hlive (hpci ▸ fun hx => hx)
          · rw [hpco i hi, hpci] at hx
            exact nomatch hx
          · rw [hpco i hi, hpci] at hx
            exact hx.elim (by exact nofun) (by exact nofun)
        · -- the row of a deleted task is woken in vain
          have hdead : ¬ (s.privCleanup L t).Live i := fun hx => hlive ((live_congr (hpco i hi)).mp hx)
          have hplace : s.pc i = .gone ∨ s.pc i = .new := by
            by_contra hne
            exact hlive ⟨fun hx => hne (.inl hx), fun hx => hne (.inr hx)⟩
          have hblocked : ∀ thread gen, s.pc i ≠ .blocked thread gen := by
            rcases hplace with hx | hx <;>
            · rw [hx]
              exact nofun
          have howed : s.owed i = none := owed_none_of_pc (h.threads i) hblocked
          refine threadOk_of_clear ((if_neg ?_).trans howed) ?_ ?_ ?_ (fun hx => absurd hx hdead)
            fun hx => absurd hx hdead
          · unfold inJoin
            rcases hplace with hx | hx <;>
            · rw [hx, Bool.and_false]
              exact nofun
          · rw [hpco i hi]
            exact hblocked
          · rw [hpco i hi]
            rcases hplace with hx | hx <;>
            · rw [hx]
              exact fun hc => hc
          · rw [hpco i hi]
            rcases hplace with hx | hx <;>
            · rw [hx]
              exact nofun
      · exact (h.threads i).frame hf (hquiet i hi hn)
  · by_cases hit : i = t
    · rw [hit, hpct] at hi
      exact nomatch hi
    · exact h.new i ((hpco i hit).symm.trans hi)

/-! ### Whole runs -/

/-- What a step keeps besides the invariant. -/
structure Kept (s s' : System) (e : Option Event) : Prop where
  exitOf : ∀ id gen v, s.exitOf id gen = some v → s'.exitOf id gen = some v
  counted : ∀ t b, s'.counted t = some b → s.counted t = some b ∨ b = true
  joined : ∀ t thread gen v, e = some (.joined t thread gen v) → s.exitOf thread gen = some v

theorem kept_of_eq {e : Option Event} (hexit : s'.exitOf = s.exitOf) (hcounted : s'.counted = s.counted)
    (he : ∀ t thread gen v, e ≠ some (.joined t thread gen v)) : Kept s s' e where
  exitOf id gen v hv := by rw [hexit, hv]
  counted t b hb := .inl (hcounted ▸ hb)
  joined t thread gen v hv := absurd hv (he t thread gen v)

theorem kept_cleanupThread (h : s.Ok L) {status : Int} (hpc : s.pc t = .idle) :
    Kept s (s.cleanupThread t status) none := by
  have hexit := (h.threads t).running (live_of_pc hpc (by exact nofun) (by exact nofun)) (hpc ▸ id)
  unfold System.cleanupThread
  split_ifs
  · refine ⟨fun id gen v hv => ?_, fun _ _ hb => .inl hb, by exact nofun⟩
    refine (update_update s.exitOf t (s.gen t) (some status) id gen).trans ?_
    rw [if_neg, hv]
    rintro ⟨rfl, rfl⟩
    rw [hexit] at hv
    exact nomatch hv
  · exact kept_of_eq rfl rfl (by exact nofun)

theorem kept_privWaitJoined (h : s.Ok L) {status : Int} (hrun : s.runs t = true)
    (hcareful : s.Careful L (.privWaitJoined t)) : Kept s (s.privWaitJoined L t status) none := by
  unfold System.privWaitJoined
  split
  · next j hj =>
    obtain ⟨hmem, hptr, hfirst⟩ := joined_spec hj
    refine ⟨fun _ _ _ hv => hv, fun i b hb => ?_, by exact nofun⟩
    by_cases hi : i = t
    · right
      rw [hi] at hb
      change update s.counted t (some (s.isJoiner L t j)) t = some b at hb
      rw [update_self] at hb
      rw [← Option.some.inj hb]
      exact h.isJoiner ((Sched.mem_ids _).mp (mem_of_runs hrun)).2 hptr (hcareful j hmem hptr hfirst)
    · change update s.counted t (some (s.isJoiner L t j)) i = some b at hb
      rw [update_of_ne hi] at hb
      exact .inl hb
  · exact kept_of_eq rfl rfl (by exact nofun)

theorem kept_joinTest (h : s.Ok L) {thread gen : Nat} (hrun : s.runs t = true) (hpc : s.pc t = .blocked thread gen) :
    Kept s (s.joinTest t thread gen).1 (s.joinTest t thread gen).2 := by
  unfold System.joinTest
  split_ifs with htype
  · refine ⟨fun _ _ _ hv => hv, fun _ _ hb => .inl hb, fun _ _ _ _ he => ?_⟩
    cases he
    exact (h.threads t).value hrun hpc htype
  · exact kept_of_eq rfl rfl (by exact nofun)

theorem Ok.step {a : Action} {e : Option Event} (h : s.Ok L) (hcareful : s.Careful L a)
    (hs : s.step L a = some (s', e)) : s'.Ok L ∧ Kept s s' e := by
  cases a with
  | pthreadJoin t thread =>
    simp only [System.step] at hs
    split_ifs at hs with hc
    have hs' := Option.some.inj hs
    have hok : (s.pthreadJoin L t thread).1.Ok L := h.pthreadJoin hc.1 hc.2 hcareful
    rw [hs'] at hok
    refine ⟨hok, ?_⟩
    unfold System.pthreadJoin at hs'
    split_ifs at hs' <;> cases hs' <;> exact kept_of_eq rfl rfl (by exact nofun)
  | privJoinThread t =>
    simp only [System.step] at hs
    split at hs
    · next thread gen hpc =>
      split_ifs at hs with hrun
      have hs' := Option.some.inj hs
      have hok := h.privJoinThread hrun hpc
      rw [hs'] at hok
      refine ⟨hok, ?_⟩
      unfold System.privJoinThread at hs'
      split_ifs at hs' <;> cases hs' <;> exact kept_of_eq rfl rfl (by exact nofun)
    · exact nomatch hs
  | joinTest t =>
    simp only [System.step] at hs
    split at hs
    · next thread gen hpc =>
      split_ifs at hs with hrun
      have hs' := Option.some.inj hs
      have hok := h.joinTest hrun hpc
      have hkept := kept_joinTest h hrun hpc
      rw [hs'] at hok hkept
      exact ⟨hok, hkept⟩
    · exact nomatch hs
  | cleanupThread t status =>
    simp only [System.step] at hs
    split_ifs at hs with hc
    cases hs
    exact ⟨h.cleanupThread hc.1 hc.2, kept_cleanupThread h hc.2⟩
  | privWaitJoined t =>
    simp only [System.step] at hs
    split at hs
    · next status hpc =>
      split_ifs at hs with hrun
      cases hs
      exact ⟨h.privWaitJoined hrun hpc hcareful, kept_privWaitJoined h hrun hcareful⟩
    · exact nomatch hs
  | free t =>
    simp only [System.step] at hs
    split_ifs at hs with hc
    cases hs
    exact ⟨h.free hc.1 hc.2, kept_of_eq rfl rfl (by exact nofun)⟩
  | privCleanup t =>
    simp only [System.step] at hs
    split_ifs at hs with hc
    cases hs
    exact ⟨h.privCleanup hc.1 hc.2 hcareful, kept_of_eq rfl rfl (by exact nofun)⟩
  | signal t =>
    cases hs
    exact ⟨h.signal hcareful, kept_of_eq rfl rfl (by exact nofun)⟩
  | block t obj =>
    simp only [System.step] at hs
    split_ifs at hs with hc
    cases hs
    exact ⟨h.block hc.1 hc.2.1 hc.2.2, kept_of_eq rfl rfl (by exact nofun)⟩
  | wake t unblockType =>
    simp only [System.step] at hs
    split_ifs at hs with hc
    cases hs
    exact ⟨h.wake (by simpa using hc.1) hc.2, kept_of_eq rfl rfl (by exact nofun)⟩
  | stopThreads t status =>
    simp only [System.step] at hs
    split_ifs at hs with hc
    cases hs
    exact ⟨h.stopThreads hc.1 hc.2 hcareful, kept_of_eq rfl rfl (by exact nofun)⟩
  | zombieProcess t signalSent =>
    simp only [System.step] at hs
    split_ifs at hs with hc
    cases hs
    refine ⟨h.zombieProcess hc.1 hc.2, ?_⟩
    cases signalSent <;> exact kept_of_eq rfl rfl (by exact nofun)
  | reap t =>
    simp only [System.step] at hs
    split_ifs at hs with hpc
    cases hs
    refine ⟨h.delete hpc rfl fun i => ?_, kept_of_eq rfl rfl (by exact nofun)⟩
    rw [Sched.table_modify]
  | newTask pid =>
    simp only [System.step, Option.map_eq_some_iff] at hs
    obtain ⟨s'', hnew, heq⟩ := hs
    cases heq
    refine ⟨h.newTask hnew hcareful, ?_⟩
    unfold System.newTask at hnew
    rw [Option.map_eq_some_iff] at hnew
    obtain ⟨p, -, rfl⟩ := hnew
    exact kept_of_eq rfl rfl (by exact nofun)
  | activate id schedPriority joinable =>
    simp only [System.step] at hs
    split_ifs at hs with hpc
    cases hs
    exact ⟨h.activate hpc, kept_of_eq rfl rfl (by exact nofun)⟩

theorem ok_initial (h : s.Initial) : s.Ok L where
  live t := by
    rcases h.pc t with ⟨hpc, hdead⟩ | ⟨hpc, henabled, -⟩
    · exact iff_of_true hpc hdead
    · rw [hpc, henabled]
      exact iff_of_false (by exact nofun) (by exact nofun)
  threads t := by
    rcases h.pc t with ⟨hpc, -⟩ | ⟨hpc, -, hptr⟩
    · exact threadOk_of_gone hpc (h.owed t)
    · refine threadOk_of_clear (h.owed t) ?_ (hpc ▸ id) ?_ (fun _ => clear_of_zero hptr) fun _ => h.exitOf _ _
      · rw [hpc]
        exact nofun
      · rw [hpc]
        exact nofun
  new t _ := h.exitOf _ _
  fresh _ _ _ := h.exitOf _ _
  delivered id gen v hv := by
    rw [h.exitOf] at hv
    exact nomatch hv

/-- In a run from the start all of whose steps are careful, a thread that is joined leaves its exit value to its joiner.
-/
theorem handshake_of_careful (L : Layout) (s₀ s : System) (es : List Event) (h₀ : s₀.Initial)
    (hrun : Run (fun s a => s.step L a) (fun s a => s.Careful L a) s₀ es s) : s.Handshake es := by
  have hinv : s.Ok L ∧ (∀ t b, s.counted t = some b → b = true) ∧
      ∀ t thread gen v, Event.joined t thread gen v ∈ es → s.exitOf thread gen = some v := by
    apply Run.invariant (fun es s => s.Ok L ∧ (∀ t b, s.counted t = some b → b = true) ∧
      ∀ t thread gen v, Event.joined t thread gen v ∈ es → s.exitOf thread gen = some v) _ _ hrun
    · refine ⟨ok_initial h₀, fun t b hb => ?_, fun _ _ _ _ hmem => absurd hmem List.not_mem_nil⟩
      rw [h₀.counted] at hb
      exact nomatch hb
    · rintro es s a s' e ⟨hok, hcounted, hjoined⟩ hcareful hs
      obtain ⟨hok', hkept⟩ := hok.step hcareful hs
      refine ⟨hok', fun t b hb => (hkept.counted t b hb).elim (hcounted t b) id, fun t thread gen v hmem => ?_⟩
      apply hkept.exitOf
      rcases List.mem_append.mp hmem with hmem | hmem
      · exact hjoined t thread gen v hmem
      · exact hkept.joined t thread gen v (Option.mem_toList.mp hmem)
  refine ⟨hinv.2.2, hinv.1.delivered, fun t hpc hj => ?_, fun t v hv => (hinv.1.threads t).owed v hv, hinv.2.1⟩
  obtain ⟨hexit, hcounted⟩ := (hinv.1.threads t).saved (.inr hpc)
  rw [if_pos hj] at hexit
  exact ⟨hexit, hcounted hj⟩

/-- Two threads of a process, of which the first can be joined. -/
def twoThreads : System where
  sched :=
    { total := 3
      table := fun i =>
        { enabled := i == 1 || i == 2, exec := i == 1 || i == 2, pid := 1, active := i == 1 || i == 2, stopped := false
          aiosuspend := false, unblockType := .none, blockObject := 0, wake := ⟨schedTimevalSecInvalid, 0⟩
          priority := 0, attrPriority := 0 }
      currentPriority := 0
      statusChanged := false
      usecondCounter := 0
      sleepOc := 0 }
  joinable := fun i => i == 1
  exitStatus := fun _ => 0
  pc := fun i => if i == 1 || i == 2 then .idle else .gone
  gen := fun _ => 0
  exitOf := fun _ _ => none
  delivered := fun _ _ => false
  owed := fun _ => none
  counted := fun _ => none

theorem initial_twoThreads : twoThreads.Initial where
  pc t := by
    cases ht : (t == 1 || t == 2) with
    | false => exact .inl ⟨if_neg (by rw [ht]; exact nofun), ht⟩
    | true => exact .inr ⟨if_pos ht, ht, rfl⟩
  exitOf _ _ := rfl
  owed _ := rfl
  counted _ := rfl

def someLayout : Layout := ⟨64, 48, 8, by decide, by decide, by decide⟩

/-- The second thread joins the first, which ends with `7`. -/
def joinAndEnd : List Action :=
  [.pthreadJoin 2 1, .privJoinThread 2, .cleanupThread 1 7, .privWaitJoined 1, .free 1, .privCleanup 1, .joinTest 2]

theorem handshake_of_careful_joinAndEnd : ∃ s es,
    Run (fun s a => s.step someLayout a) (fun s a => s.Careful someLayout a) twoThreads es s ∧
      Event.joined 2 1 0 7 ∈ es ∧ s.Handshake es := by
  obtain ⟨s, es, hreplay, hmem⟩ : ∃ s es,
      Run.replay (fun s a => s.step someLayout a) twoThreads joinAndEnd = some (s, es) ∧ Event.joined 2 1 0 7 ∈ es :=
    ⟨_, _, rfl, by decide⟩
  have hcareful : Run.AllOk (fun s a => s.step someLayout a) (fun s a => s.Careful someLayout a) twoThreads
      joinAndEnd := by decide
  have hrun := Run.of_replay hreplay hcareful
  exact ⟨s, es, hrun, hmem, handshake_of_careful someLayout twoThreads s es initial_twoThreads hrun⟩

/-- A signal wakes the joiner when it has been counted; nobody is left to be notified. -/
theorem not_handshake : ¬ ∀ (L : Layout) (s₀ s : System) (es : List Event), s₀.Initial →
    Run (fun s a => s.step L a) (fun _ _ => True) s₀ es s → s.Handshake es := by
  intro h
  obtain ⟨s, es, hreplay, hexit, hlost, hpc⟩ : ∃ s es,
      Run.replay (fun s a => s.step someLayout a) twoThreads
        [.pthreadJoin 2 1, .privJoinThread 2, .cleanupThread 1 7, .privWaitJoined 1, .signal 2, .free 1,
          .privCleanup 1] = some (s, es) ∧
      s.exitOf 1 0 = some 7 ∧ s.delivered 1 0 = false ∧ s.pc 1 = .gone := ⟨_, _, rfl, rfl, rfl, rfl⟩
  have hkept := h someLayout twoThreads s es initial_twoThreads (Run.of_replay hreplay (Run.allOk_true _ _))
  rcases hkept.delivered 1 0 7 hexit with hd | ⟨-, hend⟩
  · rw [hlost] at hd
    exact nomatch hd
  · rw [hpc] at hend
    exact hend

end System

end Join

end CoActionOS
