import CoActionOS.Aio.Basic

/-!
# Threads that wait for asynchronous transfers

An operation that could not be started leaves `op.buf` set, and no driver will ever clear it; a null pointer in the list
of `lio_listio` is followed when the last transfer completes; only the thread that has started a transfer is woken; and
what `suspend` returns to a thread that was woken has never been written.

Apart from these `aio_error` is right, and a thread is woken when, and only when, what it waits for has come
(`aio_kept_of_careful`).
-/

namespace CoActionOS

namespace Aio

open Function
open Unistd (DriverAnswer)

namespace System

/-! ### The statement -/

/-- `aio_error` is right; no thread waits for what has come, none was woken by a completion for what had not, and one
that was returns zero. -/
structure Kept (s : System) : Prop where
  error : ∀ a, aioError (s.aiocb a) = einprogress ↔ 0 < s.held a
  waiting : ∀ t p, s.pc t = .suspended p → (s.sched.table t).active = false → s.done p = false
  woken : ∀ t, s.wokenBy t ≠ some false
  returns : ∀ t ret errno, s.pc t = .returned ret errno → s.wokenBy t ≠ none → ret = 0

/-- The thread waits for this control block; if it waits for all, then for no other. -/
def Awaits (s : System) (p : PrivSuspend) (a : Nat) : Prop :=
  some a ∈ p.list ∧ (p.blockOnAll = true → ∀ b, some b ∈ p.list → b ≠ a → s.held b = 0)

/-- The driver takes an operation whose buffer is not null, or has done it at once; and does so with no other that is
still left with a driver. -/
def Starts (s : System) (a : Nat) (answer : DriverAnswer) : Prop :=
  if 0 < answer.ret then s.held a + answer.keeps.toNat = 0
  else
    ((s.aiocb a).aioBuf ≠ 0 ↔ 0 < s.held a + answer.keeps.toNat) ∧
      ((s.aiocb a).aioBuf = 0 → answer.nbyte ≠ einprogress)

/-- The steps of runs in which nothing goes wrong. -/
def Careful (s : System) : Action → Prop
  | .transfer _ a answer => s.Starts a answer
  | .listNext t answer =>
    match s.pc t with
    | .listing (some a :: _) _ _ => s.Starts a answer
    | _ => True
  | .complete a _ delivered =>
    s.held a = 1 ∧
      ∀ t p, s.pc t = .suspended p → (s.sched.table t).active = false →
        (s.Awaits p a → (s.aiocb a).opTid = t ∧ (p.blockOnAll = true → s.nullBuf = 0 ∨ none ∉ p.list)) ∧
          ((s.aiocb a).opTid = t → (s.aiocb a).sigevSignal = true → delivered = false)
  | .resume t ret =>
    s.wokenBy t ≠ none →
      ret = 0 ∧ (s.sched.table t).unblockType ≠ .sleep ∧ (s.sched.table t).unblockType ≠ .signal
  | _ => True

/-- No transfer has been started, and the control blocks are cleared. -/
structure Initial (s : System) : Prop where
  pc : ∀ t, s.pc t = .idle
  cleared : ∀ a, (s.aiocb a).opBuf = 0 ∧ (s.aiocb a).opNbyte = 0
  held : ∀ a, s.held a = 0
  aiosuspend : ∀ t, (s.sched.table t).aiosuspend = false
  wokenBy : ∀ t, s.wokenBy t = none

/-! ### The invariant -/

structure Sound (s : System) : Prop where
  mark : ∀ a, (s.aiocb a).opBuf ≠ 0 ↔ 0 < s.held a
  code : ∀ a, (s.aiocb a).opBuf = 0 → (s.aiocb a).opNbyte ≠ einprogress
  flag : ∀ t, (s.sched.table t).aiosuspend = true →
    (s.sched.table t).active = false ∧ ∃ p, s.pc t = .suspended p
  asleep : ∀ t p, s.pc t = .suspended p → (s.sched.table t).active = false →
    t < s.sched.total ∧ (s.sched.table t).enabled = true ∧ (s.sched.table t).aiosuspend = true ∧ s.done p = false
  noted : ∀ t b, s.wokenBy t = some b → b = true ∧ (s.sched.table t).active = true ∧
    ((∃ p, s.pc t = .suspended p) ∨ ∃ errno, s.pc t = .returned 0 errno)

variable {s : System}

theorem Sound.kept (h : s.Sound) : s.Kept where
  error := fun a => by
    unfold aioError
    split_ifs with hbuf
    · exact iff_of_true rfl ((h.mark a).mp hbuf)
    · exact iff_of_false (h.code a (not_not.mp hbuf)) fun hheld => hbuf ((h.mark a).mpr hheld)
  waiting := fun t p hpc hactive => (h.asleep t p hpc hactive).2.2.2
  woken := fun t hb => Bool.false_ne_true (h.noted t false hb).1
  returns := fun t ret errno hpc hne => by
    obtain ⟨b, hb⟩ := Option.ne_none_iff_exists'.mp hne
    obtain ⟨-, -, ⟨p, hp⟩ | ⟨errno', hp⟩⟩ := h.noted t b hb
    · rw [hpc] at hp
      exact nomatch hp
    · rw [hpc] at hp
      exact (Pc.returned.inj hp).1

theorem sound_initial (h : s.Initial) : s.Sound where
  mark := fun a => by
    rw [h.held]
    exact iff_of_false (fun hne => hne (h.cleared a).1) (lt_irrefl 0)
  code := fun a _ => by
    rw [(h.cleared a).2]
    decide
  flag := fun t hflag => absurd ((h.aiosuspend t).symm.trans hflag) (by decide)
  asleep := fun t p hpc => by
    rw [h.pc t] at hpc
    exact nomatch hpc
  noted := fun t b hb => by
    rw [h.wokenBy t] at hb
    exact nomatch hb

/-! ### What a thread waits for -/

/-- By the invariant the code sees what is done. -/
theorem Sound.suspends_eq (h : s.Sound) (p : PrivSuspend) : s.suspends p = !s.done p := by
  have hbuf : ∀ a, ((s.aiocb a).opBuf == 0) = (s.held a == 0) := by
    intro a
    have hmark := h.mark a
    rw [Bool.eq_iff_iff, beq_iff_eq, beq_iff_eq]
    constructor
    · intro hz
      by_contra hne
      exact hmark.mpr (Nat.pos_of_ne_zero hne) hz
    · intro hz
      by_contra hne
      exact absurd (hmark.mp hne) (by omega)
  unfold suspends done
  split_ifs
  · rw [List.not_all_eq_any_not]
    congr 1
    funext e
    cases e with
    | none => rfl
    | some a =>
      change (true && !((s.aiocb a).opBuf == 0)) = !(s.held a == 0)
      rw [Bool.true_and, hbuf]
  · congr 2
    funext e
    cases e with
    | none => rfl
    | some a =>
      change (true && ((s.aiocb a).opBuf == 0)) = (s.held a == 0)
      rw [Bool.true_and, hbuf]

theorem done_iff {p : PrivSuspend} : s.done p = true ↔
    if p.blockOnAll then ∀ a, some a ∈ p.list → s.held a = 0 else ∃ a, some a ∈ p.list ∧ s.held a = 0 := by
  unfold done
  split_ifs
  · rw [List.all_eq_true]
    constructor
    · intro h a ha
      exact beq_iff_eq.mp (h (some a) ha)
    · intro h e he
      cases e with
      | none => rfl
      | some a => exact beq_iff_eq.mpr (h a he)
  · rw [List.any_eq_true]
    constructor
    · rintro ⟨e, he, hdone⟩
      cases e with
      | none => exact nomatch hdone
      | some a => exact ⟨a, he, beq_iff_eq.mp hdone⟩
    · rintro ⟨a, ha, hdone⟩
      exact ⟨some a, ha, beq_iff_eq.mpr hdone⟩

/-- What has come has come also where less is left with the drivers. -/
theorem done_mono {s' : System} {p : PrivSuspend} (hle : ∀ a, s.held a ≤ s'.held a) (h : s'.done p = true) :
    s.done p = true := by
  rw [done_iff] at h ⊢
  split_ifs at h ⊢
  · intro a ha
    have := hle a
    have := h a ha
    omega
  · obtain ⟨a, ha, hz⟩ := h
    have := hle a
    exact ⟨a, ha, by omega⟩

/-- What comes with the completion of `a` was waited for with `a`. -/
theorem awaits_of_done {s' : System} {a : Nat} {p : PrivSuspend} (hheld : s'.held = update s.held a 0)
    (hbefore : s.done p = false) (hafter : s'.done p = true) : s.Awaits p a := by
  have hother : ∀ b, b ≠ a → s'.held b = s.held b := by
    intro b hb
    rw [hheld, update_of_ne hb]
  have hmem : some a ∈ p.list := by
    by_contra hnot
    have hsame : ∀ b, some b ∈ p.list → s'.held b = s.held b := fun b hb => hother b fun heq => hnot (heq ▸ hb)
    refine absurd (done_iff.mpr ?_) (Bool.eq_false_iff.mp hbefore)
    rw [done_iff] at hafter
    split_ifs at hafter ⊢
    · exact fun b hb => (hsame b hb).symm.trans (hafter b hb)
    · obtain ⟨b, hb, hz⟩ := hafter
      exact ⟨b, hb, (hsame b hb).symm.trans hz⟩
  refine ⟨hmem, fun hall b hb hne => ?_⟩
  rw [done_iff, if_pos hall] at hafter
  exact (hother b hne).symm.trans (hafter b hb)

/-- The callback wakes for what has come. -/
theorem done_of_wakes {a : Nat} {p : PrivSuspend} (hmark : ∀ a, (s.aiocb a).opBuf ≠ 0 ↔ 0 < s.held a)
    (ha : s.held a = 0) (h : s.wakes a p = true) : s.done p = true := by
  unfold wakes at h
  rw [done_iff]
  split_ifs at h ⊢
  · rw [List.all_eq_true] at h
    intro b hb
    have hbuf : (s.aiocb b).opBuf = 0 := beq_iff_eq.mp (h (some b) hb)
    by_contra hne
    exact (hmark b).mpr (Nat.pos_of_ne_zero hne) hbuf
  · exact ⟨a, List.contains_iff_mem.mp h, ha⟩

/-- The callback for the last control block that is waited for wakes, unless it follows a null pointer. -/
theorem wakes_of_done {a : Nat} {p : PrivSuspend} (hmark : ∀ a, (s.aiocb a).opBuf ≠ 0 ↔ 0 < s.held a)
    (hmem : some a ∈ p.list) (hnull : p.blockOnAll = true → s.nullBuf = 0 ∨ none ∉ p.list)
    (hdone : s.done p = true) : s.wakes a p = true := by
  rw [done_iff] at hdone
  unfold wakes
  split_ifs at hdone ⊢ with hall
  · rw [List.all_eq_true]
    intro e he
    rw [beq_iff_eq]
    cases e with
    | none => exact (hnull hall).resolve_right fun hnot => hnot he
    | some b =>
      by_contra hne
      have := (hmark b).mp hne
      have := hdone b he
      omega
  · exact List.contains_iff_mem.mpr hmem

/-! ### The callback -/

/-- The callback finds the task suspended on a list that it decides to wake it for. -/
def Found (s : System) (a t : Nat) : Prop :=
  (s.sched.table t).aiosuspend = true ∧ ∃ p, s.pc t = .suspended p ∧ s.wakes a p = true

theorem wakeSuspended_cases (s : System) (a t : Nat) :
    s.Found a t ∧ s.wakeSuspended a t = { s with sched := s.sched.privWake t .aio } ∨
      ¬ s.Found a t ∧ s.wakeSuspended a t = s := by
  unfold wakeSuspended
  split_ifs with hflag
  · cases hblock : s.blockObject t with
    | none =>
      refine .inr ⟨?_, rfl⟩
      rintro ⟨-, p, hpc, -⟩
      unfold blockObject at hblock
      rw [hpc] at hblock
      exact nomatch hblock
    | some p =>
      have hpc : s.pc t = .suspended p := by
        unfold blockObject at hblock
        split at hblock
        · next hpc => rw [hpc, Option.some.inj hblock]
        · exact nomatch hblock
      dsimp only
      split_ifs with hwakes
      · exact .inl ⟨⟨hflag, p, hpc, hwakes⟩, rfl⟩
      · refine .inr ⟨?_, rfl⟩
        rintro ⟨-, q, hq, hwakes'⟩
        rw [hpc] at hq
        obtain rfl := Pc.suspended.inj hq
        exact hwakes hwakes'
  · exact .inr ⟨fun h => hflag h.1, rfl⟩

/-- The callback makes the task active. -/
def Touched (s : System) (a : Nat) (delivered : Bool) (t : Nat) : Prop :=
  (s.aiocb a).opTid = t ∧ t < s.sched.total ∧ (s.sched.table t).enabled = true ∧
    ((s.finish a).Found a t ∨ (s.aiocb a).sigevSignal = true ∧ delivered = true)

/-- What a callback does: the control block is done with, and the task that it touches is active. -/
structure Called (s s' : System) (a : Nat) (delivered : Bool) : Prop where
  aiocb : s'.aiocb = (s.finish a).aiocb
  held : s'.held = s.held
  pc : s'.pc = s.pc
  wokenBy : s'.wokenBy = s.wokenBy
  total : s'.sched.total = s.sched.total
  touched : ∀ t, s.Touched a delivered t → (s'.sched.table t).active = true ∧
    (s'.sched.table t).aiosuspend = false ∧ (s'.sched.table t).enabled = (s.sched.table t).enabled
  others : ∀ t, ¬ s.Touched a delivered t → (s'.sched.table t).noExec = (s.sched.table t).noExec

/-- The scheduler after a callback: `b` says whether the task `tid` was made active. -/
structure Activated (c c' : Sched) (tid : Nat) (b : Bool) : Prop where
  total : c'.total = c.total
  self : b = true → (c'.table tid).active = true ∧ (c'.table tid).aiosuspend = false ∧
    (c'.table tid).enabled = (c.table tid).enabled
  idle : b = false → (c'.table tid).noExec = (c.table tid).noExec
  others : ∀ t, t ≠ tid → (c'.table t).noExec = (c.table t).noExec

theorem activated_refl (c : Sched) (tid : Nat) : Activated c c tid false :=
  ⟨rfl, fun h => absurd h (by decide), fun _ => rfl, fun _ _ => rfl⟩

theorem activated_wake (c : Sched) (tid : Nat) (u : SchedUnblockType) : Activated c (c.privWake tid u) tid true := by
  have hrow := c.noExec_wake tid u
  refine ⟨(c.sameEpoch_wake tid u).total, fun _ => ?_, fun h => absurd h (by decide), fun t ht => ?_⟩
  · have hself := hrow tid
    rw [if_pos rfl] at hself
    have henabled := SchedTask.enabled_of_noExec hself
    exact ⟨SchedTask.active_of_noExec hself, SchedTask.aiosuspend_of_noExec hself, henabled⟩
  · rw [hrow, if_neg ht]

theorem Activated.signal {c c' : Sched} {tid : Nat} {b : Bool} (h : Activated c c' tid b) :
    Activated c (c'.signalPrivActivate tid) tid true := by
  have hrow := c'.noExec_signal tid
  refine ⟨(Sched.activate_spec c' tid).total.trans h.total, fun _ => ?_, fun h => absurd h (by decide), fun t ht => ?_⟩
  · have hself := hrow tid
    rw [if_pos rfl] at hself
    have henabled := SchedTask.enabled_of_noExec hself
    refine ⟨SchedTask.active_of_noExec hself, SchedTask.aiosuspend_of_noExec hself, henabled.trans ?_⟩
    change (c'.table tid).enabled = (c.table tid).enabled
    cases hb : b with
    | true => exact (h.self hb).2.2
    | false => exact SchedTask.enabled_of_noExec (h.idle hb)
  · rw [hrow, if_neg ht]
    exact h.others t ht

/-- A step of the scheduler that makes the task `tid` active exactly if `T` says so. -/
theorem called_of_activated {s : System} {c : Sched} {a : Nat} {delivered b : Bool}
    (h : Activated s.sched c (s.aiocb a).opTid b)
    (hb : b = true ↔ s.Touched a delivered (s.aiocb a).opTid) :
    s.Called { s.finish a with sched := c } a delivered where
  aiocb := rfl
  held := rfl
  pc := rfl
  wokenBy := rfl
  total := h.total
  touched := fun t ht => by
    obtain rfl := ht.1
    exact h.self (hb.mpr ht)
  others := fun t ht => by
    by_cases htid : t = (s.aiocb a).opTid
    · subst htid
      exact h.idle (Bool.eq_false_iff.mpr fun hbt => ht (hb.mp hbt))
    · exact h.others t htid

theorem called (s : System) (a : Nat) (delivered : Bool) :
    s.Called (s.aioDataTransferCallback a delivered) a delivered := by
  unfold aioDataTransferCallback
  dsimp only
  by_cases htotal : (s.aiocb a).opTid ≥ (s.finish a).sched.total
  · rw [if_pos htotal]
    refine called_of_activated (activated_refl _ _) (iff_of_false Bool.false_ne_true fun ht => ?_)
    exact absurd ht.2.1 (Nat.not_lt_of_le htotal)
  rw [if_neg htotal]
  by_cases henabled : ((s.finish a).sched.table (s.aiocb a).opTid).enabled = true
  · rw [if_pos henabled]
    have htouched : s.Touched a delivered (s.aiocb a).opTid ↔
        (s.finish a).Found a (s.aiocb a).opTid ∨ (s.aiocb a).sigevSignal = true ∧ delivered = true :=
      ⟨fun h => h.2.2.2, fun h => ⟨rfl, Nat.lt_of_not_le htotal, henabled, h⟩⟩
    have hsigev : ((s.finish a).aiocb a).sigevSignal = (s.aiocb a).sigevSignal := by
      change (update s.aiocb a _ a).sigevSignal = _
      rw [update_self]
    have hsignal : ((s.aiocb a).sigevSignal && delivered) = true ↔
        (s.aiocb a).sigevSignal = true ∧ delivered = true := Bool.and_eq_true_iff
    rcases (s.finish a).wakeSuspended_cases a (s.aiocb a).opTid with ⟨hfound, hcall⟩ | ⟨hnot, hcall⟩
    · rw [hcall]
      dsimp only
      rw [hsigev]
      split_ifs
      · exact called_of_activated (activated_wake _ _ _).signal
          (iff_of_true rfl (htouched.mpr (.inl hfound)))
      · exact called_of_activated (activated_wake _ _ _) (iff_of_true rfl (htouched.mpr (.inl hfound)))
    · rw [hcall, hsigev]
      split_ifs with hs
      · exact called_of_activated (activated_refl _ _).signal
          (iff_of_true rfl (htouched.mpr (.inr (hsignal.mp hs))))
      · refine called_of_activated (activated_refl _ _) (iff_of_false Bool.false_ne_true fun ht => ?_)
        exact (htouched.mp ht).elim hnot fun h => hs (hsignal.mpr h)
  · rw [if_neg henabled]
    refine called_of_activated (activated_refl _ _) (iff_of_false Bool.false_ne_true fun ht => ?_)
    exact henabled ht.2.2.1

/-! ### The steps -/

/-- A thread that runs is neither asleep nor flagged. -/
theorem Sound.setPc (h : s.Sound) {t : Nat} {pc : Pc} (hactive : (s.sched.table t).active = true)
    (hwoken : s.wokenBy t = none ∨ ∃ errno, pc = .returned 0 errno) : (s.setPc t pc).Sound where
  mark := h.mark
  code := h.code
  flag := fun u hu => by
    obtain ⟨hinactive, p, hpc⟩ := h.flag u hu
    refine ⟨hinactive, p, ?_⟩
    change update s.pc t pc u = _
    rw [update_of_ne ?_]
    · exact hpc
    · rintro rfl
      exact absurd (hactive.symm.trans hinactive) (by decide)
  asleep := fun u p hpc hinactive => by
    refine h.asleep u p ?_ hinactive
    change update s.pc t pc u = _ at hpc
    rw [update_of_ne ?_] at hpc
    · exact hpc
    · rintro rfl
      exact absurd (hactive.symm.trans hinactive) (by decide)
  noted := fun u b hb => by
    obtain ⟨htrue, hact, hpc⟩ := h.noted u b hb
    refine ⟨htrue, hact, ?_⟩
    change (∃ p, update s.pc t pc u = _) ∨ ∃ errno, update s.pc t pc u = _
    by_cases hu : u = t
    · subst hu
      rw [update_self]
      rcases hwoken with hnone | hreturned
      · change s.wokenBy u = some b at hb
        rw [hnone] at hb
        exact nomatch hb
      · exact .inr hreturned
    · rw [update_of_ne hu]
      exact hpc

/-- What was noted of a thread is dropped. -/
theorem Sound.forget (h : s.Sound) (t : Nat) : Sound { s with wokenBy := update s.wokenBy t none } where
  mark := h.mark
  code := h.code
  flag := h.flag
  asleep := h.asleep
  noted := fun u b hb => by
    change update s.wokenBy t none u = some b at hb
    by_cases hu : u = t
    · subst hu
      rw [update_self] at hb
      exact nomatch hb
    · rw [update_of_ne hu] at hb
      exact h.noted u b hb

theorem Sound.not_woken (h : s.Sound) {t : Nat} (hsuspended : ∀ p, s.pc t ≠ .suspended p)
    (hreturned : ∀ errno, s.pc t ≠ .returned 0 errno) : s.wokenBy t = none := by
  cases hb : s.wokenBy t with
  | none => rfl
  | some b =>
    rcases (h.noted t b hb).2.2 with ⟨p, hp⟩ | ⟨errno, hp⟩
    · exact absurd hp (hsuspended p)
    · exact absurd hp (hreturned errno)

theorem runs_iff {t : Nat} : s.runs t = true ↔
    t ∈ s.sched.ids ∧ (s.sched.table t).enabled = true ∧ (s.sched.table t).active = true := by
  unfold runs
  rw [Bool.and_eq_true, Bool.and_eq_true, decide_eq_true_iff, and_assoc]

/-- A step that changes the scheduler of no task but `t`, which is active before and after it. -/
theorem Sound.frame (h : s.Sound) {s' : System} {t : Nat} (hpc : s'.pc = s.pc) (hwoken : s'.wokenBy = s.wokenBy)
    (hmark : ∀ a, (s'.aiocb a).opBuf ≠ 0 ↔ 0 < s'.held a)
    (hcode : ∀ a, (s'.aiocb a).opBuf = 0 → (s'.aiocb a).opNbyte ≠ einprogress)
    (hheld : ∀ a, s.held a ≤ s'.held a) (htotal : s'.sched.total = s.sched.total)
    (hself : (s'.sched.table t).active = true ∧ (s'.sched.table t).aiosuspend = false)
    (hrow : ∀ u, u ≠ t → (s'.sched.table u).noExec = (s.sched.table u).noExec) : s'.Sound where
  mark := hmark
  code := hcode
  flag := fun u hu => by
    by_cases hut : u = t
    · subst hut
      exact absurd (hself.2.symm.trans hu) (by decide)
    · rw [SchedTask.aiosuspend_of_noExec (hrow u hut)] at hu
      rw [SchedTask.active_of_noExec (hrow u hut), hpc]
      exact h.flag u hu
  asleep := fun u p hp hinactive => by
    by_cases hut : u = t
    · subst hut
      exact absurd (hself.1.symm.trans hinactive) (by decide)
    · rw [hpc] at hp
      rw [SchedTask.active_of_noExec (hrow u hut)] at hinactive
      obtain ⟨hlt, henabled, hflag, hdone⟩ := h.asleep u p hp hinactive
      refine ⟨htotal ▸ hlt, ?_, ?_, ?_⟩
      · rw [SchedTask.enabled_of_noExec (hrow u hut)]
        exact henabled
      · rw [SchedTask.aiosuspend_of_noExec (hrow u hut)]
        exact hflag
      · exact Bool.eq_false_iff.mpr fun hd => Bool.eq_false_iff.mp hdone (done_mono hheld hd)
  noted := fun u b hb => by
    rw [hwoken] at hb
    obtain ⟨htrue, hact, hp⟩ := h.noted u b hb
    rw [hpc]
    refine ⟨htrue, ?_, hp⟩
    by_cases hut : u = t
    · subst hut
      exact hself.1
    · rw [SchedTask.active_of_noExec (hrow u hut)]
      exact hact

/-- A task that is active carries no flag. -/
theorem Sound.flag_of_active (h : s.Sound) {t : Nat} (hactive : (s.sched.table t).active = true) :
    (s.sched.table t).aiosuspend = false := by
  refine Bool.eq_false_iff.mpr fun hflag => ?_
  exact absurd (hactive.symm.trans (h.flag t hflag).1) (by decide)

theorem Sound.wake (h : s.Sound) (t : Nat) (u : SchedUnblockType) :
    Sound { s with sched := s.sched.privWake t u } := by
  have hact := activated_wake s.sched t u
  obtain ⟨hactive, hflag, -⟩ := hact.self rfl
  exact h.frame rfl rfl h.mark h.code (fun _ => le_rfl) hact.total ⟨hactive, hflag⟩ hact.others

section

variable {t a : Nat} {answer : DriverAnswer}

theorem submit_table (s : System) (t a : Nat) (answer : DriverAnswer) (u : Nat) :
    ((s.submit t a answer).sched.table u).active = (s.sched.table u).active ∧
    ((s.submit t a answer).sched.table u).aiosuspend = (s.sched.table u).aiosuspend ∧
    (u ≠ t → ((s.submit t a answer).sched.table u).noExec = (s.sched.table u).noExec) := by
  have hsched : (s.submit t a answer).sched = s.sched.modify t fun r => { r with blockObject := 0 } := rfl
  rw [hsched]
  by_cases hu : u = t
  · subst hu
    rw [Sched.table_modify_self]
    exact ⟨rfl, rfl, fun h => absurd rfl h⟩
  · rw [Sched.table_modify_of_ne _ hu]
    exact ⟨rfl, rfl, fun _ => rfl⟩

theorem held_le_submit (b : Nat) : s.held b ≤ (s.submit t a answer).held b := by
  change s.held b ≤ update s.held a _ b
  rw [update_apply]
  split_ifs with hb
  · subst hb
    exact Nat.le_add_right _ _
  · exact le_rfl

theorem submit_aiocb (b : Nat) (hb : b ≠ a) :
    (s.submit t a answer).aiocb b = s.aiocb b ∧ (s.submit t a answer).held b = s.held b :=
  ⟨update_of_ne hb _ _, update_of_ne hb _ _⟩

theorem finish_aiocb (s : System) (a b : Nat) (hb : b ≠ a) : (s.finish a).aiocb b = s.aiocb b :=
  update_of_ne hb _ _

theorem finish_aiocb_self (s : System) (a : Nat) : ((s.finish a).aiocb a).opBuf = 0 ∧
    ((s.finish a).aiocb a).opNbyte = 0 := by
  change (update s.aiocb a _ a).opBuf = 0 ∧ (update s.aiocb a _ a).opNbyte = 0
  rw [update_self]
  exact ⟨rfl, rfl⟩

/-- `aio_data_transfer` by a thread that runs. -/
theorem Sound.transfer (h : s.Sound) (hactive : (s.sched.table t).active = true) (hstarts : s.Starts a answer) :
    (s.aioDataTransfer t a answer).1.Sound ∧
      ((s.aioDataTransfer t a answer).1.sched.table t).active = true ∧
      (s.aioDataTransfer t a answer).1.wokenBy = s.wokenBy := by
  have hflag := h.flag_of_active hactive
  have hself : (s.submit t a answer).held a = s.held a + answer.keeps.toNat := update_self ..
  have hc : (s.submit t a answer).aiocb a =
      { s.aiocb a with opNbyte := answer.nbyte, opBuf := (s.aiocb a).aioBuf, opTid := t, aioNbytes := -1 } :=
    update_self ..
  have htable := submit_table s t a answer
  unfold Starts at hstarts
  unfold aioDataTransfer
  dsimp only
  by_cases hret : 0 < answer.ret
  · rw [if_pos hret] at hstarts
    rw [if_neg (by omega), if_neg (by omega)]
    dsimp only
    have hcalled := (s.submit t a answer).called a false
    -- the caller is not suspended, and nobody else is woken
    have hnot : ∀ u, ¬ (s.submit t a answer).Touched a false u := by
      rintro u ⟨htid, -, -, ⟨hu, -⟩ | ⟨-, hfalse⟩⟩
      · rw [hc] at htid
        obtain rfl : t = u := htid
        exact absurd (hflag.symm.trans ((htable t).2.1.symm.trans hu)) (by decide)
      · exact absurd hfalse (by decide)
    have hrow := fun u => hcalled.others u (hnot u)
    have hact : (((s.submit t a answer).aioDataTransferCallback a false).sched.table t).active = true :=
      (SchedTask.active_of_noExec (hrow t)).trans ((htable t).1.trans hactive)
    refine ⟨?_, hact, hcalled.wokenBy⟩
    refine h.frame hcalled.pc hcalled.wokenBy (fun b => ?_) (fun b hb => ?_) (fun b => ?_) hcalled.total
      ⟨hact, (SchedTask.aiosuspend_of_noExec (hrow t)).trans ((htable t).2.1.trans hflag)⟩
      fun u hu => (hrow u).trans ((htable u).2.2 hu)
    · rw [hcalled.aiocb, hcalled.held]
      by_cases hb : b = a
      · subst hb
        rw [(finish_aiocb_self _ b).1, hself, hstarts]
        exact iff_of_false (fun hne => hne rfl) (lt_irrefl 0)
      · rw [finish_aiocb _ a b hb, (submit_aiocb b hb).1, (submit_aiocb b hb).2]
        exact h.mark b
    · rw [hcalled.aiocb] at hb ⊢
      by_cases hba : b = a
      · subst hba
        rw [(finish_aiocb_self _ b).2]
        decide
      · rw [finish_aiocb _ a b hba, (submit_aiocb b hba).1] at hb ⊢
        exact h.code b hb
    · rw [hcalled.held]
      exact held_le_submit b
  · rw [if_neg hret] at hstarts
    have hsound : (s.submit t a answer).Sound := by
      refine h.frame rfl rfl (fun b => ?_) (fun b hb => ?_) held_le_submit rfl
        ⟨(htable t).1.trans hactive, (htable t).2.1.trans hflag⟩ fun u hu => (htable u).2.2 hu
      · by_cases hb : b = a
        · subst hb
          rw [hself, hc]
          exact hstarts.1
        · rw [(submit_aiocb b hb).1, (submit_aiocb b hb).2]
          exact h.mark b
      · by_cases hba : b = a
        · subst hba
          rw [hc] at hb ⊢
          exact hstarts.2 hb
        · rw [(submit_aiocb b hba).1] at hb ⊢
          exact h.code b hb
    have hact := (htable t).1.trans hactive
    by_cases hz : answer.ret = 0
    · rw [if_pos hz]
      exact ⟨hsound, hact, rfl⟩
    · rw [if_neg hz, if_pos (by omega)]
      exact ⟨hsound, hact, rfl⟩

end

/-- The privileged call of `suspend`. -/
theorem Sound.privSuspend (h : s.Sound) {t frame : Nat} {p : PrivSuspend} (hruns : s.runs t = true)
    (hframe : frame ≠ 0) (now : Nat) : (s.privSuspend t p frame now).Sound := by
  obtain ⟨hid, henabled, hactive⟩ := runs_iff.mp hruns
  unfold System.privSuspend
  rw [h.suspends_eq]
  split_ifs with hdone
  · have hdone' : s.done p = false := Bool.not_eq_true' _ |>.mp hdone
    -- the row of the thread is blocked with its flag set, the others are left
    have hrow := (s.sched.modify t fun r => { r with aiosuspend := true }).noExec_timedblock t frame
      (Sched.schedConvertTimespec p.absTimeout) now
    have hself := hrow t
    rw [if_pos rfl, Sched.table_modify_self] at hself
    have hinactive := SchedTask.active_of_noExec hself
    have hflag := SchedTask.aiosuspend_of_noExec hself
    have henabled' := (SchedTask.enabled_of_noExec hself).trans henabled
    have hother : ∀ u, u ≠ t → (((s.sched.modify t fun r => { r with aiosuspend := true }).schedPrivTimedblock t frame
        (Sched.schedConvertTimespec p.absTimeout) now).table u).noExec = (s.sched.table u).noExec := by
      intro u hu
      rw [hrow, if_neg hu, Sched.table_modify_of_ne _ hu]
    have htotal := ((s.sched.modify t fun r => { r with aiosuspend := true }).sameEpoch_timedblock t frame
      (Sched.schedConvertTimespec p.absTimeout) now).total
    have hasleep : ((s.sched.table t).active && (decide (frame = 0) &&
        !(Sched.schedConvertTimespec p.absTimeout).timeSleep s.sched.usecondCounter now)) = false := by
      rw [decide_eq_false hframe, Bool.false_and, Bool.and_false]
    refine ⟨h.mark, h.code, fun u hu => ?_, fun u q hq hu => ?_, fun u b hb => ?_⟩
    -- a thread whose flag is set sleeps in `suspend`
    · change _ ∧ ∃ q, update s.pc t (.suspended p) u = .suspended q
      by_cases hut : u = t
      · subst hut
        rw [update_self]
        exact ⟨hinactive.trans hasleep, p, rfl⟩
      · change (((s.sched.modify t _).schedPrivTimedblock t frame _ now).table u).aiosuspend = true at hu
        rw [SchedTask.aiosuspend_of_noExec (hother u hut)] at hu
        rw [update_of_ne hut]
        obtain ⟨hact, hpc⟩ := h.flag u hu
        exact ⟨(SchedTask.active_of_noExec (hother u hut)).trans hact, hpc⟩
    -- one that sleeps has its flag set, and none of its requests was done
    · change update s.pc t (.suspended p) u = .suspended q at hq
      by_cases hut : u = t
      · subst hut
        rw [update_self] at hq
        obtain rfl := Pc.suspended.inj hq
        exact ⟨htotal.symm ▸ (Sched.mem_ids _ |>.mp hid).2, henabled', hflag, hdone'⟩
      · rw [update_of_ne hut] at hq
        change (((s.sched.modify t _).schedPrivTimedblock t frame _ now).table u).active = false at hu
        rw [SchedTask.active_of_noExec (hother u hut)] at hu
        obtain ⟨hlt, hen, hfl, hd⟩ := h.asleep u q hq hu
        exact ⟨htotal.symm ▸ hlt, (SchedTask.enabled_of_noExec (hother u hut)).trans hen,
          (SchedTask.aiosuspend_of_noExec (hother u hut)).trans hfl, hd⟩
    -- what is noted of a wake is forgotten when the thread goes to sleep
    · change update s.wokenBy t none u = some b at hb
      by_cases hut : u = t
      · subst hut
        rw [update_self] at hb
        exact nomatch hb
      · rw [update_of_ne hut] at hb
        obtain ⟨htrue, hact, hpc⟩ := h.noted u b hb
        change b = true ∧ _ ∧ ((∃ q, update s.pc t (.suspended p) u = _) ∨ ∃ e, update s.pc t (.suspended p) u = _)
        rw [update_of_ne hut]
        exact ⟨htrue, (SchedTask.active_of_noExec (hother u hut)).trans hact, hpc⟩
  -- a request is done already: the call goes on
  · have hnote : Sound { s with wokenBy := update s.wokenBy t none } := h.forget t
    exact hnote.setPc hactive (.inr ⟨none, rfl⟩)

theorem release_aiocb (s : System) {a b : Nat} (nbyte : Int) (hb : b ≠ a) :
    (s.release a nbyte).aiocb b = s.aiocb b ∧ (s.release a nbyte).held b = s.held b :=
  ⟨update_of_ne hb _ _, update_of_ne hb _ _⟩

theorem release_aiocb_self (s : System) (a : Nat) (nbyte : Int) :
    (s.release a nbyte).aiocb a = { s.aiocb a with opNbyte := nbyte } :=
  update_self ..

/-- The mark of a control block that is done with. -/
theorem Sound.mark_finish (h : s.Sound) {a : Nat} (nbyte : Int) (hheld : s.held a = 1) (b : Nat) :
    (((s.release a nbyte).finish a).aiocb b).opBuf ≠ 0 ↔ 0 < (s.release a nbyte).held b := by
  by_cases hb : b = a
  · subst hb
    have hz : (s.release b nbyte).held b = 0 := by
      change update s.held b (s.held b - 1) b = 0
      rw [update_self, hheld]
    rw [(finish_aiocb_self _ b).1, hz]
    exact iff_of_false (fun hne => hne rfl) (lt_irrefl 0)
  · rw [finish_aiocb _ a b hb, (release_aiocb s nbyte hb).1, (release_aiocb s nbyte hb).2]
    exact h.mark b

/-- A driver calls back. -/
theorem Sound.complete (h : s.Sound) {a : Nat} {nbyte : Int} {delivered : Bool}
    (hcare : s.Careful (.complete a nbyte delivered)) : (s.complete a nbyte delivered).Sound := by
  obtain ⟨hone, hcare⟩ := hcare
  have hcalled := (s.release a nbyte).called a delivered
  have hmark := h.mark_finish nbyte hone
  have hheld : (s.release a nbyte).held = update s.held a 0 := by
    change update s.held a (s.held a - 1) = _
    rw [hone]
  have hzero : (s.release a nbyte).held a = 0 := by rw [hheld, update_self]
  have hcb := release_aiocb_self s a nbyte
  have hdone : ∀ p, ((s.release a nbyte).aioDataTransferCallback a delivered).done p =
      ((s.release a nbyte).finish a).done p := by
    intro p
    unfold done
    rw [hcalled.held]
    rfl
  -- a task that is touched was found waiting for what has come
  have htouched : ∀ t p, s.pc t = .suspended p → (s.sched.table t).active = false →
      ((s.release a nbyte).Touched a delivered t ↔ ((s.release a nbyte).finish a).done p = true) := by
    intro t p hpc hinactive
    obtain ⟨hlt, henabled, hflag, hbefore⟩ := h.asleep t p hpc hinactive
    obtain ⟨hawaits, hsignal⟩ := hcare t p hpc hinactive
    constructor
    · rintro ⟨htid, -, -, ⟨-, q, hq, hwakes⟩ | ⟨hsigev, hdelivered⟩⟩
      · change s.pc t = _ at hq
        rw [hpc] at hq
        obtain rfl := Pc.suspended.inj hq
        exact done_of_wakes hmark hzero hwakes
      · rw [hcb] at htid hsigev
        exact absurd ((hsignal htid hsigev).symm.trans hdelivered) (by decide)
    · intro hafter
      have haw : s.Awaits p a := awaits_of_done hheld hbefore hafter
      obtain ⟨htid, hnull⟩ := hawaits haw
      refine ⟨?_, hlt, henabled, .inl ⟨hflag, p, hpc, wakes_of_done hmark haw.1 hnull hafter⟩⟩
      rw [hcb]
      exact htid
  refine ⟨fun b => ?_, fun b hb => ?_, fun t ht => ?_, fun t p hpc ht => ?_, fun t b hb => ?_⟩
  · change (((s.release a nbyte).aioDataTransferCallback a delivered).aiocb b).opBuf ≠ 0 ↔
      0 < ((s.release a nbyte).aioDataTransferCallback a delivered).held b
    rw [hcalled.aiocb, hcalled.held]
    exact hmark b
  · change (((s.release a nbyte).aioDataTransferCallback a delivered).aiocb b).opBuf = 0 at hb
    change (((s.release a nbyte).aioDataTransferCallback a delivered).aiocb b).opNbyte ≠ einprogress
    rw [hcalled.aiocb] at hb ⊢
    by_cases hba : b = a
    · subst hba
      rw [(finish_aiocb_self _ b).2]
      decide
    · rw [finish_aiocb _ a b hba, (release_aiocb s nbyte hba).1] at hb ⊢
      exact h.code b hb
  · change (((s.release a nbyte).aioDataTransferCallback a delivered).sched.table t).aiosuspend = true at ht
    change (((s.release a nbyte).aioDataTransferCallback a delivered).sched.table t).active = false ∧
      ∃ p, ((s.release a nbyte).aioDataTransferCallback a delivered).pc t = .suspended p
    rw [hcalled.pc]
    have hnot : ¬ (s.release a nbyte).Touched a delivered t := fun htouch =>
      absurd ((hcalled.touched t htouch).2.1.symm.trans ht) (by decide)
    have hrow := hcalled.others t hnot
    rw [SchedTask.aiosuspend_of_noExec hrow] at ht
    obtain ⟨hinactive, hpc⟩ := h.flag t ht
    exact ⟨(SchedTask.active_of_noExec hrow).trans hinactive, hpc⟩
  · change ((s.release a nbyte).aioDataTransferCallback a delivered).pc t = _ at hpc
    change (((s.release a nbyte).aioDataTransferCallback a delivered).sched.table t).active = false at ht
    rw [hcalled.pc] at hpc
    have hnot : ¬ (s.release a nbyte).Touched a delivered t := fun htouch =>
      absurd ((hcalled.touched t htouch).1.symm.trans ht) (by decide)
    have hrow := hcalled.others t hnot
    have hinactive : (s.sched.table t).active = false := (SchedTask.active_of_noExec hrow).symm.trans ht
    obtain ⟨hlt, henabled, hflag, -⟩ := h.asleep t p hpc hinactive
    refine ⟨hcalled.total.symm ▸ hlt, (SchedTask.enabled_of_noExec hrow).trans henabled,
      (SchedTask.aiosuspend_of_noExec hrow).trans hflag, ?_⟩
    refine (hdone p).trans (Bool.eq_false_iff.mpr fun hd => hnot ?_)
    exact (htouched t p hpc hinactive).mpr hd
  · change ((s.release a nbyte).aioDataTransferCallback a delivered).noteWoken s.sched t = some b at hb
    change b = true ∧ (((s.release a nbyte).aioDataTransferCallback a delivered).sched.table t).active = true ∧
      ((∃ p, ((s.release a nbyte).aioDataTransferCallback a delivered).pc t = .suspended p) ∨
        ∃ e, ((s.release a nbyte).aioDataTransferCallback a delivered).pc t = .returned 0 e)
    unfold noteWoken at hb
    rw [hcalled.pc, hcalled.wokenBy] at hb
    rw [hcalled.pc]
    -- what was noted before stays true
    have hold : s.wokenBy t = some b → b = true ∧
        (((s.release a nbyte).aioDataTransferCallback a delivered).sched.table t).active = true ∧
        ((∃ p, (s.release a nbyte).pc t = .suspended p) ∨ ∃ e, (s.release a nbyte).pc t = .returned 0 e) := by
      intro hb
      obtain ⟨htrue, hact, hpc⟩ := h.noted t b hb
      refine ⟨htrue, ?_, hpc⟩
      by_cases htouch : (s.release a nbyte).Touched a delivered t
      · exact (hcalled.touched t htouch).1
      · exact (SchedTask.active_of_noExec (hcalled.others t htouch)).trans hact
    cases hpc : (s.release a nbyte).pc t with
    | suspended p =>
      rw [hpc] at hb
      dsimp only at hb
      split_ifs at hb with hwoken
      · rw [Bool.and_eq_true, Bool.not_eq_true'] at hwoken
        obtain ⟨hinactive, hactive⟩ := hwoken
        refine ⟨?_, hactive, .inl ⟨p, rfl⟩⟩
        rw [← Option.some.inj hb, hdone]
        refine (htouched t p hpc hinactive).mp ?_
        by_contra hnot
        have hsame := SchedTask.active_of_noExec (hcalled.others t hnot)
        exact absurd ((hactive.symm.trans hsame).trans hinactive) (by decide)
      · rw [← hpc]
        exact hold hb
    | idle | listing | suspending | returned =>
      rw [hpc] at hb
      rw [← hpc]
      exact hold hb

/-! ### Whole runs -/

theorem Sound.fill (h : s.Sound) (a aioBuf : Nat) (aioNbytes : Int) (sigevSignal : Bool) :
    Sound { s with
      aiocb := update s.aiocb a
        { s.aiocb a with aioBuf := aioBuf, aioNbytes := aioNbytes, sigevSignal := sigevSignal } } := by
  have hsame : ∀ b, (update s.aiocb a
      { s.aiocb a with aioBuf := aioBuf, aioNbytes := aioNbytes, sigevSignal := sigevSignal } b).opBuf =
        (s.aiocb b).opBuf ∧
      (update s.aiocb a
      { s.aiocb a with aioBuf := aioBuf, aioNbytes := aioNbytes, sigevSignal := sigevSignal } b).opNbyte =
        (s.aiocb b).opNbyte := by
    intro b
    rw [update_apply]
    split_ifs with hb
    · subst hb
      exact ⟨rfl, rfl⟩
    · exact ⟨rfl, rfl⟩
  refine ⟨fun b => ?_, fun b hb => ?_, h.flag, h.asleep, h.noted⟩
  · dsimp only
    rw [(hsame b).1]
    exact h.mark b
  · dsimp only at hb ⊢
    rw [(hsame b).1] at hb
    rw [(hsame b).2]
    exact h.code b hb

/-- A thread that is not in the middle of waiting goes on. -/
theorem Sound.goOn (h : s.Sound) {t : Nat} {pc : Pc} (hruns : s.runs t = true) (hpc : s.pc t = pc)
    (hsuspended : ∀ p, pc ≠ .suspended p) (hreturned : ∀ errno, pc ≠ .returned 0 errno) (pc' : Pc) :
    (s.setPc t pc').Sound := by
  subst hpc
  exact h.setPc (runs_iff.mp hruns).2.2 (.inl (h.not_woken hsuspended hreturned))

theorem Sound.listNext (h : s.Sound) {t : Nat} {answer : DriverAnswer} {rest list : AioList} {wait : Bool}
    (hpc : s.pc t = .listing rest list wait) (hruns : s.runs t = true) (hcare : s.Careful (.listNext t answer)) :
    (s.listNext t answer rest list wait).Sound := by
  have hgoOn := h.goOn hruns hpc (by exact nofun) (by exact nofun)
  cases rest with
  | nil => cases wait <;> exact hgoOn _
  | cons e rest =>
    cases e with
    | none => exact hgoOn _
    | some a =>
      simp only [System.Careful, hpc] at hcare
      obtain ⟨hsound, hactive, hwoken⟩ := h.transfer (runs_iff.mp hruns).2.2 hcare
      refine hsound.setPc hactive (.inl (hwoken.symm ▸ h.not_woken ?_ ?_))
      · rw [hpc]
        exact nofun
      · rw [hpc]
        exact nofun

theorem Sound.step {s' : System} {a : Action} {e : Option Event} (h : s.Sound) (hcare : s.Careful a)
    (hstep : s.step a = some (s', e)) : s'.Sound := by
  cases a with
  | fill a aioBuf aioNbytes sigevSignal =>
    obtain rfl := (Prod.mk.inj (Option.some.inj hstep)).1
    exact h.fill a aioBuf aioNbytes sigevSignal
  | transfer t a answer =>
    simp only [System.step] at hstep
    split_ifs at hstep with hcall
    obtain rfl := (Prod.mk.inj (Option.some.inj hstep)).1
    obtain ⟨hsound, hactive, hwoken⟩ := h.transfer (runs_iff.mp hcall.1).2.2 hcare
    -- the thread is in a transfer, so that nothing is noted of it
    refine hsound.setPc hactive (.inl (hwoken.symm ▸ h.not_woken ?_ ?_))
    · rw [hcall.2]
      exact nofun
    · rw [hcall.2]
      exact nofun
  | lioListio t mode list sig =>
    simp only [System.step] at hstep
    split_ifs at hstep with hcall
    obtain rfl := (Prod.mk.inj (Option.some.inj hstep)).1
    have hgoOn := h.goOn hcall.1 hcall.2 (by exact nofun) (by exact nofun)
    cases mode with
    | nowait =>
      unfold System.lioListio
      dsimp only
      split_ifs <;> exact hgoOn _
    | wait => exact hgoOn _
    | other => exact hgoOn _
  | listNext t answer =>
    simp only [System.step] at hstep
    split at hstep
    · next rest list wait hpc =>
      split_ifs at hstep with hruns
      obtain rfl := (Prod.mk.inj (Option.some.inj hstep)).1
      exact h.listNext hpc hruns hcare
    · exact nomatch hstep
  | aioSuspend t list timeout =>
    simp only [System.step] at hstep
    split_ifs at hstep with hcall
    obtain rfl := (Prod.mk.inj (Option.some.inj hstep)).1
    exact h.goOn hcall.1 hcall.2 (by exact nofun) (by exact nofun) _
  | privSuspend t frame now =>
    simp only [System.step] at hstep
    split at hstep
    · next p hpc =>
      split_ifs at hstep with hcall
      obtain rfl := (Prod.mk.inj (Option.some.inj hstep)).1
      exact h.privSuspend hcall.1 hcall.2 now
    · exact nomatch hstep
  | resume t ret =>
    simp only [System.step] at hstep
    split at hstep
    · next p hpc =>
      split_ifs at hstep with hruns
      obtain rfl := (Prod.mk.inj (Option.some.inj hstep)).1
      refine h.setPc (runs_iff.mp hruns).2.2 ?_
      -- a thread that was woken returns what it was woken with
      by_cases hwoken : s.wokenBy t = none
      · exact .inl hwoken
      · obtain ⟨hret, hsleep, hsignal⟩ := hcare hwoken
        refine .inr ⟨none, ?_⟩
        unfold suspendResult
        rw [if_neg hsleep, if_neg hsignal, hret]
    · exact nomatch hstep
  | leave t =>
    simp only [System.step] at hstep
    split at hstep
    · split_ifs at hstep with hruns
      obtain rfl := (Prod.mk.inj (Option.some.inj hstep)).1
      exact (h.forget t).setPc (runs_iff.mp hruns).2.2 (.inl (update_self ..))
    · exact nomatch hstep
  | complete a nbyte delivered =>
    simp only [System.step] at hstep
    split_ifs at hstep
    obtain rfl := (Prod.mk.inj (Option.some.inj hstep)).1
    exact h.complete hcare
  | wake t u =>
    obtain rfl := (Prod.mk.inj (Option.some.inj hstep)).1
    exact h.wake t u

/-- Along a run of careful steps `aio_error` is right, threads are woken when what they wait for has come and not before,
and then return zero. -/
theorem aio_kept_of_careful (s₀ s : System) (es : List Event) (h₀ : s₀.Initial)
    (hrun : Run System.step Careful s₀ es s) : s.Kept := by
  have hinv : s.Sound := by
    apply Run.invariant (fun _ s => s.Sound) (sound_initial h₀) _ hrun
    intro es s a s' e h hcare hstep
    exact h.step hcare hstep
  exact hinv.kept

/-- Two tasks and no transfer. -/
def opened : System where
  sched :=
    { total := 2
      table := fun _ =>
        { enabled := true, exec := true, pid := 0, active := true, stopped := false, aiosuspend := false
          unblockType := .none, blockObject := 0, wake := ⟨schedTimevalSecInvalid, 0⟩
          priority := 0, attrPriority := 0 }
      currentPriority := 0
      statusChanged := false
      usecondCounter := 0
      sleepOc := schedTimevalSeconds * 1000000 + 1 }
  aiocb := fun _ => ⟨0, 0, false, 0, 0, 0⟩
  pc := fun _ => .idle
  nullBuf := 1
  held := fun _ => 0
  wokenBy := fun _ => none

theorem initial_opened : opened.Initial :=
  ⟨fun _ => rfl, fun _ => ⟨rfl, rfl⟩, fun _ => rfl, fun _ => rfl, fun _ => rfl⟩

/-- A thread starts a transfer and waits for it. -/
def startAndWait : List Action :=
  [.fill 7 64 4 false, .transfer 1 7 ⟨0, 4, true⟩, .leave 1, .aioSuspend 1 [none, some 7] none, .privSuspend 1 512 0]

theorem aio_kept_of_careful_startAndWait : ∃ s es, Run System.step Careful opened es s ∧
    s.pc 1 = .returned 0 none ∧ s.wokenBy 1 = some true ∧ s.Kept := by
  have hstarts : Starts { opened with aiocb := update opened.aiocb 7 ⟨64, 4, false, 0, 0, 0⟩ } 7 ⟨0, 4, true⟩ := by
    unfold Starts
    decide
  have hok : Run.AllOk System.step Careful opened startAndWait :=
    And.intro trivial (And.intro hstarts (And.intro trivial (And.intro trivial (And.intro trivial trivial))))
  obtain ⟨s₁, es, hreplay, htotal, hpc0, htid, hheld, hpc1, hend⟩ : ∃ s₁ es,
      Run.replay System.step opened startAndWait = some (s₁, es) ∧ s₁.sched.total = 2 ∧ s₁.pc 0 = .idle ∧
        (s₁.aiocb 7).opTid = 1 ∧ s₁.held 7 = 1 ∧ s₁.pc 1 = .suspended ⟨[none, some 7], false, none⟩ ∧
        ∃ s₂, s₁.step (.complete 7 4 false) = some (s₂, none) ∧ s₂.wokenBy 1 = some true ∧
          (s₂.sched.table 1).unblockType = .aio ∧ ∃ s₃, s₂.step (.resume 1 0) = some (s₃, none) ∧
            s₃.pc 1 = .returned 0 none ∧ s₃.wokenBy 1 = some true :=
    ⟨_, _, rfl, rfl, rfl, rfl, rfl, rfl, _, rfl, rfl, rfl, _, rfl, rfl, rfl⟩
  obtain ⟨s₂, h2, -, htype, s₃, h3, hpc3, hwoken3⟩ := hend
  have hrun := Run.of_replay hreplay hok
  have hsound : s₁.Sound :=
    Run.invariant (fun _ s => s.Sound) (sound_initial initial_opened) (fun _ _ _ _ _ h hc hs => h.step hc hs) hrun
  have hcare2 : s₁.Careful (.complete 7 4 false) := by
    refine ⟨hheld, fun t p hpc hinactive => ⟨fun haw => ?_, fun _ _ => rfl⟩⟩
    have hlt := (hsound.asleep t p hpc hinactive).1
    rw [htotal] at hlt
    obtain rfl | rfl : t = 0 ∨ t = 1 := by omega
    · rw [hpc0] at hpc
      exact nomatch hpc
    · rw [hpc1] at hpc
      obtain rfl := Pc.suspended.inj hpc
      exact ⟨htid, by exact nofun⟩
  have hcare3 : s₂.Careful (.resume 1 0) := by
    intro _
    rw [htype]
    exact ⟨rfl, by exact nofun, by exact nofun⟩
  have hrun3 := Run.snoc (Run.snoc hrun hcare2 h2) hcare3 h3
  exact ⟨s₃, _, hrun3, hpc3, hwoken3, aio_kept_of_careful opened s₃ _ initial_opened hrun3⟩

/-- The driver has no room for the operation. -/
theorem not_kept : ¬ ∀ (s₀ s : System) (es : List Event), s₀.Initial →
    Run System.step (fun _ _ => True) s₀ es s → s.Kept := by
  intro h
  obtain ⟨s, es, hreplay, herror, hheld⟩ : ∃ s es,
      Run.replay System.step opened [.fill 7 64 4 false, .transfer 1 7 ⟨-1, 4, false⟩] = some (s, es) ∧
        aioError (s.aiocb 7) = einprogress ∧ s.held 7 = 0 := ⟨_, _, rfl, rfl, rfl⟩
  have hkept := h opened s es initial_opened (Run.of_replay hreplay (Run.allOk_true _ _))
  exact absurd ((hkept.error 7).mp herror) (by omega)

end System

end Aio

end CoActionOS
