import CoActionOS.Pthread.Mutex
import CoActionOS.Sched.Frame

/-!
# Mutual exclusion

`held` reads off an observed run how many levels of a mutex a thread holds: from the return of a
successful acquisition to the matching release.  `MutualExclusion ok` says that in every run whose
steps meet `ok`, a `lock` or `timedlock` that returns `0` returns to the recorded owner, and an
acquisition only succeeds while no other thread holds the mutex.

It is false without a side condition (`not_mutualExclusion`): `pthread_mutex_lock` maps the result
`-2` of a blocking attempt to success, without the ownership test that `pthread_mutex_timedlock`
makes, so a signal makes a sleeping locker return `0` with the mutex in other hands.  It holds
when no step wakes such a sleeper (`ownsAlone_of_noStrayWake`).

The invariant is per thread.  `ThreadInv` relates a thread's row of the scheduler table, its place
in its call, the mutexes it owns (`own`, with their lock counts) and the levels it holds; a step of
one thread changes nothing another thread's `ThreadInv` looks at, except through a hand-off.
-/

namespace CoActionOS

open Function

/-! ### The statement -/

/-- The effect of one event on the levels of mutex `m` held by thread `t`. -/
def heldStep (recursive : Bool) (t m : Nat) (n : Nat) : MutexEvent → Nat
  | .returned t' c ret _ =>
    if t' = t ∧ c.mutex = m ∧ c.acquires ∧ ret = 0 then (if recursive then n + 1 else 1) else n
  | .unlocked t' m' => if t' = t ∧ m' = m then (if recursive then n - 1 else 0) else n

/-- The levels of mutex `m` that thread `t` holds after the events `es`. -/
def held (recursive : Bool) (t m : Nat) (es : List MutexEvent) : Nat :=
  es.foldl (heldStep recursive t m) 0

/-- A start state: every mutex is free, every thread is between calls, no enabled thread sleeps on an
object, and the epoch counter is a `uint32_t`. -/
structure Sys.Init (s : Sys) : Prop where
  free : ∀ m, (s.mutex m).pthread = none
  idle : ∀ t, s.pc t = .idle
  unblocked : ∀ t, (s.sched.table t).enabled = true → (s.sched.table t).active = false →
    (s.sched.table t).blockObject = 0
  counter : s.sched.usecondCounter < 2 ^ 32

/-- Thread `t` is the recorded owner where `c` has just returned to it (a `trylock` need not say so),
and no other thread holds the mutex by the events `es` before. -/
def OwnsAlone (s₀ s : Sys) (es : List MutexEvent) (t : Nat) (c : MutexCall) : Prop :=
  (c.isTrylock = false → (s.mutex c.mutex).pthread = some t) ∧
    ∀ t', t' ≠ t → held (s₀.mutex c.mutex).recursive t' c.mutex es = 0

def MutualExclusion (ok : Sys → MutexAction → Prop) : Prop :=
  ∀ (s₀ s s' : Sys) (es : List MutexEvent) (a : MutexAction) (t : Nat) (c : MutexCall)
    (errno : Option Errno),
    s₀.Init → Run Sys.step ok s₀ es s → ok s a →
    s.step a = some (s', some (.returned t c 0 errno)) → c.acquires = true →
    OwnsAlone s₀ s' es t c

/-- Thread `t` sleeps in `pthread_mutex_lock`. -/
def Sys.sleepsInLock (s : Sys) (t : Nat) : Prop :=
  (s.sched.table t).enabled = true ∧ (s.sched.table t).active = false ∧
    ∃ m errno, s.pc t = .resume (.lock m) (-2) errno

/-- The step wakes no thread that sleeps in `pthread_mutex_lock`, other than by handing it the
mutex: it is not a signal to such a thread, nor a timer interrupt in the epoch whose number is the
deadline that never comes. -/
def NoStrayWake (s : Sys) : MutexAction → Prop
  | .signal t => ¬s.sleepsInLock t
  | .matchEvent _ => s.sched.usecondCounter ≠ schedTimevalSecInvalid
  | .overflowEvent _ => (s.sched.usecondCounter + 1) % 2 ^ 32 ≠ schedTimevalSecInvalid
  | _ => True

/-! ### The invariant of one thread -/

/-- The levels that `own` counts for a thread at `pc` beyond those it holds by its returns: an
acquisition that has not returned yet counts, a release under way is already taken off. -/
def owed (m : Nat) : Pc → Int
  | .resume c ret _ => if c.acquires ∧ c.mutex = m ∧ (ret = 0 ∨ ret = -2) then 1 else 0
  | .priv c => if c.acquires = false ∧ c.mutex = m then -1 else 0
  | _ => 0

/-- What the place of a thread in its call says about the mutex of the call. -/
def PlaceOk (recursive : Nat → Bool) (row : SchedTask) (own : Nat → Option Int) : Pc → Prop
  | .priv c => c.mutex ≠ 0 ∧ if c.acquires then own c.mutex = none else (own c.mutex).isSome
  | .owner c => c.mutex ≠ 0
  | .resume c ret _ =>
    if c.acquires then
      (ret = 0 ∨ ret = 1 ∨ ret = -1 ∨ ret = -2) ∧
      (ret = 0 ∨ ret = 1 → (own c.mutex).isSome) ∧
      (ret = 1 → recursive c.mutex = false) ∧
      (ret = -2 → c.mutex ≠ 0 ∧ (c.isTrylock → own c.mutex = none) ∧
        (row.enabled = true → ∀ m, c = .lock m →
          (own m).isSome ∨ (row.active = false ∧ row.wake.tvSec = schedTimevalSecInvalid)))
    else True
  | _ => True

structure ThreadInv (recursive : Nat → Bool) (row : SchedTask) (pc : Pc) (own : Nat → Option Int)
    (h : Nat → Nat) : Prop where
  held_own : ∀ m, 0 < h m → (own m).isSome
  place : PlaceOk recursive row own pc
  sleeper : row.enabled = true → row.active = false → row.blockObject ≠ 0 →
    ∃ c errno, pc = .resume c (-2) errno ∧ c.acquires = true ∧ c.isTrylock = false ∧
      c.mutex = row.blockObject
  count : ∀ m l, recursive m = true → own m = some l →
    l = h m + owed m pc ∧ 0 ≤ l ∧ (l = 0 ↔ ∃ c, pc = .priv c ∧ c.acquires = false ∧ c.mutex = m)

/-- The lock count of a mutex, if thread `t` owns it. -/
def PthreadMutex.ownedBy (x : PthreadMutex) (t : Nat) : Option Int :=
  if x.pthread = some t then some x.lock else none

theorem PthreadMutex.isSome_ownedBy {x : PthreadMutex} {t : Nat} :
    (x.ownedBy t).isSome ↔ x.pthread = some t := by
  unfold PthreadMutex.ownedBy
  split_ifs with h <;> simp [h]

theorem PthreadMutex.ownedBy_eq_none {x : PthreadMutex} {t : Nat} :
    x.ownedBy t = none ↔ x.pthread ≠ some t := by
  unfold PthreadMutex.ownedBy
  split_ifs with h <;> simp [h]

theorem PthreadMutex.ownedBy_of_pthread_ne {x : PthreadMutex} {t : Nat} (h : x.pthread ≠ some t) :
    x.ownedBy t = none := PthreadMutex.ownedBy_eq_none.mpr h

structure MutexInv (recursive : Nat → Bool) (es : List MutexEvent) (s : Sys) : Prop where
  counter : s.sched.usecondCounter < 2 ^ 32
  flag : ∀ m, (s.mutex m).recursive = recursive m
  thread : ∀ t, ThreadInv recursive (s.sched.table t) (s.pc t) (fun m => (s.mutex m).ownedBy t)
    (fun m => held (recursive m) t m es)

theorem MutexInv.flag_update {recursive : Nat → Bool} {es : List MutexEvent} {s : Sys} (hi : MutexInv recursive es s)
    {m : Nat} {x : PthreadMutex} (hx : x.recursive = (s.mutex m).recursive) (k : Nat) :
    (update s.mutex m x k).recursive = recursive k := by
  by_cases hk : k = m
  · rw [hk, update_self, hx]
    exact hi.flag m
  · rw [update_of_ne hk]
    exact hi.flag k

theorem ownedBy_update (mutex : Nat → PthreadMutex) (m : Nat) (x : PthreadMutex) (t : Nat) :
    (fun k => (update mutex m x k).ownedBy t) =
      fun k => if k = m then x.ownedBy t else (mutex k).ownedBy t := by
  ext1 k
  by_cases hk : k = m
  · rw [hk, update_self, if_pos rfl]
  · rw [update_of_ne hk, if_neg hk]

/-- A mutex that is not thread `t`'s before or after does not change what `t` owns. -/
theorem ownedBy_update_of_ne {mutex : Nat → PthreadMutex} {m : Nat} {x : PthreadMutex} {t : Nat}
    (hold : (mutex m).pthread ≠ some t) (hx : x.pthread ≠ some t) :
    (fun k => (update mutex m x k).ownedBy t) = fun k => (mutex k).ownedBy t := by
  ext1 k
  by_cases hk : k = m
  · rw [hk, update_self, PthreadMutex.ownedBy_of_pthread_ne hold, PthreadMutex.ownedBy_of_pthread_ne hx]
  · rw [update_of_ne hk]

theorem held_append (recursive : Bool) (t m : Nat) (es : List MutexEvent) (e : Option MutexEvent) :
    held recursive t m (es ++ e.toList) =
      match e with
      | none => held recursive t m es
      | some e => heldStep recursive t m (held recursive t m es) e := by
  cases e <;> simp [held]

theorem mutexInv_init {s : Sys} (h : s.Init) :
    MutexInv (fun m => (s.mutex m).recursive) [] s := by
  have hown : ∀ t m, (s.mutex m).ownedBy t = none := by
    intro t m
    rw [PthreadMutex.ownedBy_eq_none, h.free m]
    simp
  refine ⟨h.counter, fun m => rfl, fun t => ⟨?_, ?_, ?_, ?_⟩⟩
  · intro m hm; simp [held] at hm
  · rw [h.idle t]; trivial
  · intro he ha hb; exact absurd (h.unblocked t he ha) hb
  · intro m l _ hl
    rw [hown t m] at hl
    exact absurd hl (by simp)

/-! ### Changes of a thread's row -/

variable {recursive : Nat → Bool} {row row' : SchedTask} {pc : Pc} {own own' : Nat → Option Int}
  {h : Nat → Nat}

/-- The rows agree on what `ThreadInv` reads. -/
structure SameRow (row row' : SchedTask) : Prop where
  enabled : row'.enabled = row.enabled
  active : row'.active = row.active
  blockObject : row'.blockObject = row.blockObject
  wake : row'.wake = row.wake

theorem sameRow_of_erase (h : { row' with exec := false } = { row with exec := false }) :
    SameRow row row' := by
  simp only [SchedTask.mk.injEq] at h
  exact ⟨h.1, h.2.2.2.1, h.2.2.2.2.2.2.2.1, h.2.2.2.2.2.2.2.2.1⟩

theorem sameRow_of_execOnly {s s' : Sched} (hx : Sched.ExecOnly s s') (t : Nat) :
    SameRow (s.table t) (s'.table t) :=
  ⟨hx.enabled t, hx.active t, hx.blockObject t, hx.wake t⟩

theorem PlaceOk.congr (hr : SameRow row row') (hp : PlaceOk recursive row own pc) :
    PlaceOk recursive row' own pc := by
  cases pc with
  | resume c ret errno =>
    simp only [PlaceOk] at hp ⊢
    rw [hr.enabled, hr.active, hr.wake]
    exact hp
  | _ => exact hp

theorem ThreadInv.congr_row (hr : SameRow row row') (hi : ThreadInv recursive row pc own h) :
    ThreadInv recursive row' pc own h := by
  refine ⟨hi.held_own, hi.place.congr hr, ?_, hi.count⟩
  rw [hr.enabled, hr.active, hr.blockObject]
  exact hi.sleeper

/-- Waking a thread keeps its invariant unless it sleeps in `pthread_mutex_lock` without owning
the mutex. -/
theorem ThreadInv.wake (hi : ThreadInv recursive row pc own h) (ha : row'.active = true)
    (he : row'.enabled = row.enabled)
    (hs : row.enabled = true → ∀ m errno, pc = .resume (.lock m) (-2) errno → (own m).isSome) :
    ThreadInv recursive row' pc own h := by
  refine ⟨hi.held_own, ?_, ?_, hi.count⟩
  · have hp := hi.place
    cases pc with
    | resume c ret errno =>
      simp only [PlaceOk] at hp ⊢
      split_ifs at hp ⊢ with hc
      refine ⟨hp.1, hp.2.1, hp.2.2.1, fun hret => ?_⟩
      refine ⟨(hp.2.2.2 hret).1, (hp.2.2.2 hret).2.1, fun hen m hm => Or.inl ?_⟩
      subst hm hret
      exact hs (he ▸ hen) m errno rfl
    | _ => exact hp
  · intro _ hact
    rw [ha] at hact
    exact absurd hact (by simp)

theorem ThreadInv.disable (hi : ThreadInv recursive row pc own h) (he : row'.enabled = false) :
    ThreadInv recursive row' pc own h := by
  refine ⟨hi.held_own, ?_, ?_, hi.count⟩
  · have hp := hi.place
    cases pc with
    | resume c ret errno =>
      simp only [PlaceOk] at hp ⊢
      split_ifs at hp ⊢ with hc
      refine ⟨hp.1, hp.2.1, hp.2.2.1,
        fun hret => ⟨(hp.2.2.2 hret).1, (hp.2.2.2 hret).2.1, fun hen => ?_⟩⟩
      rw [he] at hen
      exact absurd hen (by simp)
    | _ => exact hp
  · intro hen
    rw [he] at hen
    exact absurd hen (by simp)

/-- An awake thread at an acquiring result that sleeps no more has what the result says. -/
theorem ThreadInv.own_of_lock_return {m : Nat} {errno : Option Errno} {ret : Int}
    (hi : ThreadInv recursive row (.resume (.lock m) ret errno) own h) (ha : row.active = true)
    (he : row.enabled = true) (hret : ret ≠ 1) (hret' : ret ≠ -1) : (own m).isSome := by
  have hp := hi.place
  simp only [PlaceOk, MutexCall.acquires, MutexCall.mutex, ite_true] at hp
  obtain ⟨hcases, h01, _, h2⟩ := hp
  rcases hcases with h0 | h1 | h1 | h1
  · exact h01 (Or.inl h0)
  · exact absurd h1 hret
  · exact absurd h1 hret'
  · rcases (h2 h1).2.2 he m rfl with ho | ⟨hact, _⟩
    · exact ho
    · rw [ha] at hact
      exact absurd hact (by simp)

/-! ### Steps of the environment -/

variable {es : List MutexEvent} {s s' : Sys}

/-- A change of the scheduler tables alone keeps the invariant if every thread's row keeps its
blocking state, or wakes up outside `pthread_mutex_lock`, or ends. -/
theorem MutexInv.of_rows (hi : MutexInv recursive es s) (sched : Sched)
    (hc : sched.usecondCounter < 2 ^ 32)
    (hrow : ∀ t, SameRow (s.sched.table t) (sched.table t) ∨
      ((sched.table t).active = true ∧ (sched.table t).enabled = (s.sched.table t).enabled ∧
        ((s.sched.table t).enabled = true → ¬s.sleepsInLock t)) ∨
      (sched.table t).enabled = false) :
    MutexInv recursive es { s with sched := sched } := by
  refine ⟨hc, hi.flag, fun t => ?_⟩
  rcases hrow t with h | ⟨ha, he, hs⟩ | h
  · exact (hi.thread t).congr_row h
  · refine (hi.thread t).wake ha he fun hen m errno hpc => ?_
    have hact : (s.sched.table t).active = true := by
      by_contra hcon
      exact hs hen ⟨hen, by simpa using hcon, m, errno, hpc⟩
    have ht := hi.thread t
    rw [hpc] at ht
    exact ht.own_of_lock_return hact hen (by decide) (by decide)
  · exact (hi.thread t).disable h

theorem MutexInv.signal (hi : MutexInv recursive es s) {t : Nat} (hs : ¬s.sleepsInLock t) :
    MutexInv recursive es { s with sched := s.sched.signalPrivActivate t } := by
  have hx := Sched.activate_spec s.sched t
  refine hi.of_rows _ (by rw [hx.usecondCounter]; exact hi.counter) fun t' => ?_
  by_cases ht : t' = t
  · subst ht
    obtain ⟨h1, _, h3⟩ := Sched.assertActive_self (s.sched.schedPrivDeassertStopped t') t' .signal
    refine Or.inr (Or.inl ⟨(hx.active t').trans h1, (hx.enabled t').trans (h3.trans ?_), fun _ => hs⟩)
    simp [Sched.schedPrivDeassertStopped]
  · have hrow := sameRow_of_execOnly hx t'
    rw [Sched.assertActive_of_ne _ ht, Sched.schedPrivDeassertStopped,
      Sched.table_modify_of_ne _ ht] at hrow
    exact Or.inl hrow

/-- A thread asleep in `pthread_mutex_lock` that does not own the mutex is never due. -/
theorem MutexInv.not_due (hi : MutexInv recursive es s)
    (hc : s.sched.usecondCounter ≠ schedTimevalSecInvalid) {t : Nat} (now : Nat)
    (hs : s.sleepsInLock t) (hown : ∀ m errno, s.pc t = .resume (.lock m) (-2) errno →
      (s.mutex m).pthread ≠ some t) : s.sched.due now t = false := by
  obtain ⟨_, hact, m, errno, hpc⟩ := hs
  by_contra hd
  rw [Bool.not_eq_false] at hd
  simp only [Sched.due, Bool.and_eq_true, Bool.or_eq_true, decide_eq_true_eq, beq_iff_eq] at hd
  have hp := (hi.thread t).place
  rw [hpc] at hp
  simp only [PlaceOk, MutexCall.acquires, MutexCall.mutex, ite_true] at hp
  rcases (hp.2.2.2 trivial).2.2 hd.1.1 m rfl with ho | ⟨_, hw⟩
  · exact hown m errno hpc (PthreadMutex.isSome_ownedBy.mp ho)
  · have := hi.counter
    rw [hw] at hd
    unfold schedTimevalSecInvalid at hc hd
    omega

theorem MutexInv.matchEvent (hi : MutexInv recursive es s)
    (hc : s.sched.usecondCounter ≠ schedTimevalSecInvalid) (now : Nat) :
    MutexInv recursive es { s with sched := s.sched.privUsecondMatchEvent now } := by
  obtain ⟨_, hcount, hrow⟩ := Sched.matchEvent_row s.sched now
  refine ⟨by rw [hcount]; exact hi.counter, hi.flag, fun t => ?_⟩
  rcases hrow t with h | ⟨hd, ha, hb, he⟩
  · exact (hi.thread t).congr_row (sameRow_of_erase h)
  · refine (hi.thread t).wake ha he fun hen m errno hpc => ?_
    by_contra hno
    rw [PthreadMutex.isSome_ownedBy] at hno
    have hina : (s.sched.table t).active = false := by
      simp only [Sched.due, Bool.and_eq_true, Bool.not_eq_true'] at hd
      exact hd.1.2
    have hnd := hi.not_due hc now ⟨hen, hina, m, errno, hpc⟩ (by
      intro m' errno' hpc'
      rw [hpc] at hpc'
      simp only [Pc.resume.injEq, MutexCall.lock.injEq] at hpc'
      rw [← hpc'.1]
      exact hno)
    rw [hd] at hnd
    exact absurd hnd (by simp)

theorem MutexInv.overflowEvent (hi : MutexInv recursive es s)
    (hc : (s.sched.usecondCounter + 1) % 2 ^ 32 ≠ schedTimevalSecInvalid) (now : Nat) :
    MutexInv recursive es { s with sched := s.sched.usecondOverflowEvent now } := by
  have h := hi.of_rows { s.sched with usecondCounter := (s.sched.usecondCounter + 1) % 2 ^ 32 }
    (Nat.mod_lt _ (by decide)) fun t => Or.inl ⟨rfl, rfl, rfl, rfl⟩
  exact h.matchEvent hc now

theorem MutexInv.cleanup (hi : MutexInv recursive es s) (t : Nat) :
    MutexInv recursive es { s with sched := s.sched.privCleanup t } := by
  have hx := Sched.execOnly_updateOnSleep (s.sched.modify t Sched.clearTask) t
  refine hi.of_rows _ ?_ fun t' => ?_
  · unfold Sched.privCleanup
    rw [hx.usecondCounter]
    exact hi.counter
  · by_cases ht : t' = t
    · subst ht
      refine Or.inr (Or.inr ((hx.enabled t').trans ?_))
      simp [Sched.clearTask]
    · have hrow := sameRow_of_execOnly hx t'
      rw [Sched.table_modify_of_ne _ ht, Sched.table_modify_of_ne _ ht] at hrow
      exact Or.inl hrow

theorem MutexInv.stopThreads (hi : MutexInv recursive es s) (t : Nat) :
    MutexInv recursive es { s with sched := s.sched.privStopThreads t } := by
  refine hi.of_rows _ hi.counter fun t' => ?_
  unfold Sched.privStopThreads
  by_cases ht : t' ∈ s.sched.ids ∧ (s.sched.table t').pid = (s.sched.table t).pid ∧ t' ≠ t
  · refine Or.inr (Or.inr ?_)
    simp only [ht, and_self, ite_true, Sched.clearTask, not_false_eq_true, ne_eq]
  · refine Or.inl ?_
    simp only [ht, ite_false]
    exact ⟨rfl, rfl, rfl, rfl⟩

/-! ### Steps of a thread -/

theorem ThreadInv.congr {own : Nat → Option Int} {h' : Nat → Nat} {pc' : Pc}
    (hi : ThreadInv recursive row pc own h) (hr : SameRow row row') (hpc : pc' = pc)
    (hown : own' = own) (hh : h' = h) : ThreadInv recursive row' pc' own' h' := by
  subst hpc hown hh
  exact hi.congr_row hr

/-- A running thread moves on in its call without touching a mutex. -/
theorem ThreadInv.move {pc' : Pc} (hi : ThreadInv recursive row pc own h)
    (ha : row.active = true) (hplace : PlaceOk recursive row own pc')
    (howed : ∀ m, owed m pc' = owed m pc)
    (hpriv : ∀ c m, pc = .priv c ∧ c.acquires = false ∧ c.mutex = m ↔
      pc' = .priv c ∧ c.acquires = false ∧ c.mutex = m) :
    ThreadInv recursive row pc' own h := by
  refine ⟨hi.held_own, hplace, fun _ hact => ?_, fun m l hm hl => ?_⟩
  · rw [ha] at hact
    exact absurd hact (by simp)
  · obtain ⟨h1, h2, h3⟩ := hi.count m l hm hl
    refine ⟨by rw [howed]; exact h1, h2, ?_⟩
    simp only [← hpriv]
    exact h3

/-- The thread's level of mutex `m₀` becomes `l`, and its other mutexes stay as they are. -/
theorem ThreadInv.change {pc' : Pc} {h' : Nat → Nat} {m₀ : Nat} {l : Int} (hi : ThreadInv recursive row pc own h)
    (hactive : row'.active = true)
    (hplace : PlaceOk recursive row' (fun m => if m = m₀ then some l else own m) pc')
    (hself : recursive m₀ = true → l = h' m₀ + owed m₀ pc' ∧ 0 ≤ l ∧
      (l = 0 ↔ ∃ c, pc' = .priv c ∧ c.acquires = false ∧ c.mutex = m₀))
    (hother : ∀ m, m ≠ m₀ → h' m = h m ∧ owed m pc' = owed m pc ∧
      ((∃ c, pc = .priv c ∧ c.acquires = false ∧ c.mutex = m) ↔
        ∃ c, pc' = .priv c ∧ c.acquires = false ∧ c.mutex = m)) :
    ThreadInv recursive row' pc' (fun m => if m = m₀ then some l else own m) h' := by
  refine ⟨fun m hm => ?_, hplace, fun _ hina => ?_, fun m l' hm hl => ?_⟩
  · split_ifs with hmc
    · rfl
    · rw [(hother m hmc).1] at hm
      exact hi.held_own m hm
  · rw [hactive] at hina
    cases hina
  · by_cases hmc : m = m₀
    · subst hmc
      obtain rfl : l = l' := Option.some.inj ((if_pos rfl).symm.trans hl)
      exact hself hm
    · obtain ⟨hheld, howed, hpriv⟩ := hother m hmc
      obtain ⟨hlevel, hpos, hlast⟩ := hi.count m l' hm ((if_neg hmc).symm.trans hl)
      exact ⟨by rw [hheld, howed]; exact hlevel, hpos, hlast.trans hpriv⟩

/-- A thread becomes the owner of a mutex that it did not have, and has not returned yet. -/
theorem ThreadInv.gain {pc' : Pc} {m₀ : Nat} (hi : ThreadInv recursive row pc own h) (hnone : own m₀ = none)
    (hactive : row'.active = true)
    (hplace : PlaceOk recursive row' (fun m => if m = m₀ then some 1 else own m) pc')
    (howes : owed m₀ pc' = 1) (howed : ∀ m, m ≠ m₀ → owed m pc' = owed m pc)
    (hpc : ∀ c, c.acquires = false → pc ≠ .priv c) (hpc' : ∀ c, c.acquires = false → pc' ≠ .priv c) :
    ThreadInv recursive row' pc' (fun m => if m = m₀ then some 1 else own m) h := by
  have hnot : ∀ m, ¬ ∃ c, pc' = .priv c ∧ c.acquires = false ∧ c.mutex = m := by
    rintro m ⟨c, hpriv, hc, -⟩
    exact hpc' c hc hpriv
  refine hi.change hactive hplace (fun _ => ?_) fun m hm => ⟨rfl, howed m hm, ?_⟩
  · -- the mutex was not the thread's, so it held none of its levels
    have hzero : h m₀ = 0 := by
      by_contra hpos
      have hown := hi.held_own m₀ (Nat.pos_of_ne_zero hpos)
      rw [hnone] at hown
      cases hown
    rw [hzero, howes]
    exact ⟨rfl, by decide, fun hl => absurd hl (by decide), fun hpriv => absurd hpriv (hnot m₀)⟩
  · refine iff_of_false ?_ (hnot m)
    rintro ⟨c, hpriv, hc, -⟩
    exact hpc c hc hpriv

theorem Sys.canRun_spec {t : Nat} (hr : s.canRun t = true) :
    t ∈ s.sched.ids ∧ (s.sched.table t).enabled = true ∧ (s.sched.table t).active = true := by
  simp only [Sys.canRun, Bool.and_eq_true, decide_eq_true_eq] at hr
  exact ⟨hr.1.1, hr.1.2, hr.2⟩

theorem MutexInv.setPc (hi : MutexInv recursive es s) {t : Nat} (hr : s.canRun t = true) {pc' : Pc}
    (hplace : PlaceOk recursive (s.sched.table t) (fun m => (s.mutex m).ownedBy t) pc')
    (howed : ∀ m, owed m pc' = owed m (s.pc t))
    (hpriv : ∀ c m, s.pc t = .priv c ∧ c.acquires = false ∧ c.mutex = m ↔
      pc' = .priv c ∧ c.acquires = false ∧ c.mutex = m) :
    MutexInv recursive es (s.setPc t pc') := by
  refine ⟨hi.counter, hi.flag, fun t' => ?_⟩
  by_cases ht : t' = t
  · subst ht
    have h := (hi.thread t').move (Sys.canRun_spec hr).2.2 hplace howed hpriv
    simpa [Sys.setPc] using h
  · have hpc : (s.setPc t pc').pc t' = s.pc t' := by simp [Sys.setPc, ht]
    exact (hi.thread t').congr ⟨rfl, rfl, rfl, rfl⟩ hpc rfl rfl

theorem MutexInv.call (hi : MutexInv recursive es s) {t : Nat} (hr : s.canRun t = true)
    (hpc : s.pc t = .idle) (c : MutexCall) : MutexInv recursive es (s.setPc t (.check c)) := by
  refine hi.setPc hr trivial (fun m => ?_) (fun c m => ?_)
  · rw [hpc]; rfl
  · rw [hpc]; simp

theorem MutexInv.stepCheck (hi : MutexInv recursive es s) {t : Nat} (hr : s.canRun t = true)
    {c : MutexCall} (hpc : s.pc t = .check c) : MutexInv recursive es (s.stepCheck t c) := by
  have hfail : ∀ e, MutexInv recursive es (s.setPc t (.resume c (-1) e)) := by
    intro e
    refine hi.setPc hr ?_ (fun m => ?_) (fun c m => ?_)
    · simp [PlaceOk]
    · rw [hpc]; simp [owed]
    · rw [hpc]; simp
  unfold Sys.stepCheck
  split_ifs with h1 h2
  · exact hfail _
  · exact hfail _
  · refine hi.setPc hr ?_ (fun m => ?_) (fun c m => ?_)
    · simp only [Sys.checkInitialized, Bool.not_eq_false, Bool.and_eq_true, bne_iff_ne] at h1
      exact h1.1
    · rw [hpc]; rfl
    · rw [hpc]; simp

/-- Thread `t` updates a mutex it owns and keeps it. -/
theorem MutexInv.setOwned (hi : MutexInv recursive es s) {t m : Nat}
    (ho : (s.mutex m).pthread = some t) (x : PthreadMutex) (hx : x.pthread = some t)
    (hrec : x.recursive = (s.mutex m).recursive) (pc' : Pc) (e : Option MutexEvent)
    (he : ∀ t' m', t' ≠ t → held (recursive m') t' m' (es ++ e.toList) = held (recursive m') t' m' es)
    (hself : ThreadInv recursive (s.sched.table t) pc'
      (fun m' => if m' = m then some x.lock else (s.mutex m').ownedBy t)
      (fun m' => held (recursive m') t m' (es ++ e.toList))) :
    MutexInv recursive (es ++ e.toList) ((s.setMutex m x).setPc t pc') := by
  have hmut : ∀ m', ((s.setMutex m x).setPc t pc').mutex m' = if m' = m then x else s.mutex m' := by
    intro m'
    by_cases h : m' = m
    · subst h; simp [Sys.setPc, Sys.setMutex]
    · simp [Sys.setPc, Sys.setMutex, h]
  refine ⟨hi.counter, fun m' => ?_, fun t' => ?_⟩
  · rw [hmut]
    split_ifs with h
    · subst h; rw [hrec]; exact hi.flag m'
    · exact hi.flag m'
  · by_cases ht : t' = t
    · subst ht
      refine hself.congr ⟨rfl, rfl, rfl, rfl⟩ (by simp [Sys.setPc]) ?_ rfl
      funext m'
      rw [hmut]
      split_ifs with h
      · simp [PthreadMutex.ownedBy, hx]
      · rfl
    · refine (hi.thread t').congr ⟨rfl, rfl, rfl, rfl⟩ (by simp [Sys.setPc, Sys.setMutex, ht]) ?_
        (funext fun m' => he t' m' ht)
      funext m'
      rw [hmut]
      split_ifs with h
      · subst h
        have hne : (some t : Option Nat) ≠ some t' := fun hc => ht (Option.some.inj hc).symm
        rw [PthreadMutex.ownedBy_of_pthread_ne (by rw [hx]; exact hne),
          PthreadMutex.ownedBy_of_pthread_ne (by rw [ho]; exact hne)]
      · rfl

theorem heldStep_unlocked_of_ne {r : Bool} {t t' m m' n : Nat} (h : t' ≠ t) :
    heldStep r t' m' n (.unlocked t m) = n := by
  simp [heldStep, Ne.symm h]

theorem heldStep_returned_of_ne {r : Bool} {t t' m' n : Nat} {c : MutexCall} {ret : Int}
    {errno : Option Errno} (h : t' ≠ t) : heldStep r t' m' n (.returned t c ret errno) = n := by
  simp [heldStep, Ne.symm h]

theorem owed_owner (m : Nat) (c : MutexCall) : owed m (.owner c) = 0 := rfl

/-- At the ownership test of a recursive mutex it owns, a thread holds what the lock count says. -/
theorem MutexInv.count_owner (hi : MutexInv recursive es s) {t : Nat} {c : MutexCall}
    (hpc : s.pc t = .owner c) (ho : (s.mutex c.mutex).pthread = some t)
    (hrec : (s.mutex c.mutex).recursive = true) :
    (s.mutex c.mutex).lock = held true t c.mutex es ∧ 0 < (s.mutex c.mutex).lock := by
  have hf := hi.flag c.mutex
  rw [hrec] at hf
  have h := (hi.thread t).count c.mutex (s.mutex c.mutex).lock hf.symm (by
    simp [PthreadMutex.ownedBy, ho])
  rw [hpc, ← hf, owed_owner] at h
  obtain ⟨h1, h2, h3⟩ := h
  refine ⟨by omega, ?_⟩
  have : (s.mutex c.mutex).lock ≠ 0 := by
    intro h0
    obtain ⟨c', hc', _⟩ := h3.mp h0
    exact absurd hc' (by simp)
  omega

theorem MutexInv.stepOwner_acquire (hi : MutexInv recursive es s) {t : Nat}
    (hr : s.canRun t = true) {c : MutexCall} (hpc : s.pc t = .owner c) (hc : c.acquires = true) :
    MutexInv recursive (es ++ (s.stepOwner t c).2.toList) (s.stepOwner t c).1 := by
  have hm0 : c.mutex ≠ 0 := by have := (hi.thread t).place; rw [hpc] at this; exact this
  unfold Sys.stepOwner
  simp only [hc, ite_true]
  split_ifs with ho hrec hmax
  -- the thread has the recursive mutex already, and gets one level more
  · obtain ⟨hl, hpos⟩ := hi.count_owner hpc ho hrec
    have hf := hi.flag c.mutex
    rw [hrec] at hf
    refine hi.setOwned ho { s.mutex c.mutex with lock := (s.mutex c.mutex).lock + 1 } ho rfl _ none
      (fun _ _ _ => by simp) ?_
    have hti := hi.thread t
    rw [hpc] at hti
    simp only [Option.toList_none, List.append_nil]
    refine hti.change (Sys.canRun_spec hr).2.2 (by simp [PlaceOk, hc]) (fun hm => ?_) fun m hm => ⟨rfl, ?_, by simp⟩
    · rw [hm, hl]
      simp [owed, hc]
      omega
    · simp [owed, hc, Ne.symm hm]
  -- the count is at its greatest, and the call is refused
  · rw [Option.toList_none, List.append_nil]
    refine hi.setPc hr ?_ (fun m => ?_) (fun c m => ?_)
    · simp [PlaceOk, hc]
    · rw [hpc]; simp [owed]
    · rw [hpc]; simp
  -- the mutex is not recursive and the thread has it
  · rw [Option.toList_none, List.append_nil]
    refine hi.setPc hr ?_ (fun m => ?_) (fun c m => ?_)
    · simp [PlaceOk, hc, PthreadMutex.isSome_ownedBy, ho]
      rw [← hi.flag]
      simpa using hrec
    · rw [hpc]; simp [owed]
    · rw [hpc]; simp
  -- another thread has it, or nobody: the privileged call decides
  · rw [Option.toList_none, List.append_nil]
    refine hi.setPc hr ?_ (fun m => ?_) (fun c' m => ?_)
    · simp [PlaceOk, hc, hm0, PthreadMutex.ownedBy_eq_none, ho]
    · rw [hpc]; simp [owed, hc]
    · rw [hpc]
      simp only [reduceCtorEq, false_and, Pc.priv.injEq, false_iff, not_and]
      rintro rfl h
      rw [hc] at h
      exact absurd h (by simp)

theorem MutexInv.stepOwner_unlock (hi : MutexInv recursive es s) {t : Nat}
    (hr : s.canRun t = true) {c : MutexCall} (hpc : s.pc t = .owner c) (hc : c.acquires = false) :
    MutexInv recursive (es ++ (s.stepOwner t c).2.toList) (s.stepOwner t c).1 := by
  have hm0 : c.mutex ≠ 0 := by have := (hi.thread t).place; rw [hpc] at this; exact this
  have hti := hi.thread t
  rw [hpc] at hti
  have hact := (Sys.canRun_spec hr).2.2
  unfold Sys.stepOwner
  simp only [hc, Bool.false_eq_true, ite_false]
  split_ifs with ho hrec hlock
  · -- an inner level of a recursive mutex is released
    obtain ⟨hl, hpos⟩ := hi.count_owner hpc ho hrec
    refine hi.setOwned ho { s.mutex c.mutex with lock := (s.mutex c.mutex).lock - 1 } ho rfl _
      (some (.unlocked t c.mutex))
      (fun t' m' ht => by rw [held_append]; exact heldStep_unlocked_of_ne ht) ?_
    have hheld : ∀ m, held (recursive m) t m (es ++ [.unlocked t c.mutex]) =
        heldStep (recursive m) t m (held (recursive m) t m es) (.unlocked t c.mutex) :=
      fun m => held_append _ _ _ _ (some _)
    refine hti.change hact (by simp [PlaceOk, hc]) (fun hm => ?_) fun m hm => ⟨?_, ?_, by simp⟩
    · refine ⟨?_, by dsimp only; omega, by simpa using hlock⟩
      rw [Option.toList_some, hheld, hm]
      simp only [heldStep, and_self, ite_true, owed, hc, Bool.false_eq_true, false_and, ite_false]
      omega
    · rw [Option.toList_some, hheld]
      simp [heldStep, Ne.symm hm]
    · simp [owed, hc]
  · -- the last level: the privileged call follows
    obtain ⟨hl, hpos⟩ := hi.count_owner hpc ho hrec
    refine hi.setOwned ho { s.mutex c.mutex with lock := (s.mutex c.mutex).lock - 1 } ho rfl _ none
      (fun _ _ _ => by simp) ?_
    simp only [Option.toList_none, List.append_nil]
    refine hti.change hact (by simp [PlaceOk, hc, hm0]) (fun hm => ?_) fun m hm => ⟨rfl, ?_, ?_⟩
    · rw [hm]
      simp [owed, hc]
      omega
    · simp [owed, hc, Ne.symm hm]
    · simp [hc, Ne.symm hm]
  -- the mutex is not recursive
  · rw [Option.toList_none, List.append_nil]
    refine ⟨hi.counter, hi.flag, fun t' => ?_⟩
    by_cases ht : t' = t
    · subst ht
      have hcount := hti.count
      have hself : ThreadInv recursive (s.sched.table t') (.priv c)
          (fun m => (s.mutex m).ownedBy t') (fun m => held (recursive m) t' m es) := by
        refine ⟨hti.held_own, ?_, fun _ hina => ?_, fun m l hm hown => ?_⟩
        · simp [PlaceOk, hc, hm0, PthreadMutex.isSome_ownedBy, ho]
        · rw [hact] at hina
          exact absurd hina (by simp)
        · have hne : m ≠ c.mutex := by
            rintro rfl
            rw [← hi.flag] at hm
            exact hrec hm
          have := hcount m l hm hown
          simpa [owed, hc, Ne.symm hne] using this
      exact hself.congr ⟨rfl, rfl, rfl, rfl⟩ (by simp [Sys.setPc]) rfl rfl
    · exact (hi.thread t').congr ⟨rfl, rfl, rfl, rfl⟩ (by simp [Sys.setPc, ht]) rfl rfl
  -- the thread is not the owner
  · rw [Option.toList_none, List.append_nil]
    refine hi.setPc hr ?_ (fun m => ?_) (fun c m => ?_)
    · simp [PlaceOk, hc]
    · rw [hpc]; simp [owed]
    · rw [hpc]; simp

theorem SameRow.of_priority {t id : Nat} (sched : Sched) (p : Int) :
    SameRow (sched.table t) ((sched.modify id fun r => { r with priority := p }).table t) := by
  by_cases ht : t = id
  · subst ht; rw [Sched.table_modify_self]; exact ⟨rfl, rfl, rfl, rfl⟩
  · rw [Sched.table_modify_of_ne _ ht]; exact ⟨rfl, rfl, rfl, rfl⟩

/-- The mutex was free and becomes thread `t`'s. -/
theorem MutexInv.privTrylock_free (hi : MutexInv recursive es s) {t : Nat} {c : MutexCall}
    (hact : (s.sched.table t).active = true) (hpc : s.pc t = .priv c) (hc : c.acquires = true)
    (hfree : (s.mutex c.mutex).pthread = none) (sched : Sched)
    (hcount : sched.usecondCounter = s.sched.usecondCounter)
    (hrow : ∀ t', SameRow (s.sched.table t') (sched.table t')) (pid : Nat) :
    MutexInv recursive es (({ s with sched := sched }.setMutex c.mutex
      { s.mutex c.mutex with pthread := some t, pid := pid, lock := 1 }).setPc t
        (.resume c 0 none)) := by
  refine ⟨hcount ▸ hi.counter, hi.flag_update rfl, fun t' => ?_⟩
  by_cases ht : t' = t
  · subst ht
    have hti := hi.thread t'
    rw [hpc] at hti
    have hplace : PlaceOk recursive (s.sched.table t')
        (fun m => if m = c.mutex then some 1 else (s.mutex m).ownedBy t') (.resume c 0 none) := by
      simp [PlaceOk, hc]
    have hself := hti.gain (PthreadMutex.ownedBy_of_pthread_ne (by rw [hfree]; simp)) hact hplace
      (by simp [owed, hc]) (fun m hm => by simp [owed, hc, Ne.symm hm]) (fun c' hc' => ?_) (fun _ _ => by simp)
    · refine hself.congr (hrow t') (update_self ..) ((ownedBy_update ..).trans ?_) rfl
      rw [PthreadMutex.ownedBy, if_pos rfl]
    · rintro ⟨⟩
      rw [hc] at hc'
      cases hc'
  · refine (hi.thread t').congr (hrow t') (update_of_ne ht ..) (ownedBy_update_of_ne ?_ ?_) rfl
    · rw [hfree]
      simp
    · simp [Ne.symm ht]

theorem schedConvertTimespec_lock {c : MutexCall} {m : Nat} (h : c = .lock m) :
    (Sched.schedConvertTimespec c.absTimeout).tvSec = schedTimevalSecInvalid := by
  subst h; rfl

/-- The mutex is taken and thread `t` goes to sleep on it. -/
theorem MutexInv.privTrylock_block (hi : MutexInv recursive es s) {t : Nat} {c : MutexCall}
    (hpc : s.pc t = .priv c) (hc : c.acquires = true) (htry : c.isTrylock = false) (now : Nat) :
    MutexInv recursive es ({ s with
      sched := s.sched.schedPrivTimedblock t c.mutex
        (Sched.schedConvertTimespec c.absTimeout) now }.setPc t (.resume c (-2) none)) := by
  have hti := hi.thread t
  rw [hpc] at hti
  have hplace := hti.place
  simp only [PlaceOk, hc, ite_true] at hplace
  obtain ⟨hm0, hnone⟩ := hplace
  obtain ⟨w, hx, hw⟩ := Sched.timedblock_spec s.sched t hm0
    (Sched.schedConvertTimespec c.absTimeout) now
  refine ⟨lt_of_eq_of_lt hx.usecondCounter hi.counter, hi.flag, fun t' => ?_⟩
  have hrow := sameRow_of_execOnly hx t'
  by_cases ht : t' = t
  · subst ht
    rw [Sched.table_modify_self] at hrow
    have hself : ThreadInv recursive
        { s.sched.table t' with blockObject := c.mutex, wake := w, active := false }
        (.resume c (-2) none) (fun m => (s.mutex m).ownedBy t')
        (fun m => held (recursive m) t' m es) := by
      refine ⟨hti.held_own, ?_, fun _ _ _ => ⟨c, none, rfl, hc, htry, rfl⟩, fun m l hm hown => ?_⟩
      · simp only [PlaceOk, hc, ite_true]
        refine ⟨by simp, by simp, by simp, fun _ => ⟨hm0, fun _ => hnone, fun _ m hcm => Or.inr ?_⟩⟩
        refine ⟨trivial, ?_⟩
        rw [hw]
        · exact schedConvertTimespec_lock hcm
        · rw [schedConvertTimespec_lock hcm]
          have := hi.counter
          unfold schedTimevalSecInvalid
          omega
      · have hne : c.mutex ≠ m := by
          rintro rfl
          rw [hnone] at hown
          exact absurd hown (by simp)
        have := hti.count m l hm hown
        simpa [owed, hc, hne] using this
    exact hself.congr hrow (by simp [Sys.setPc]) rfl rfl
  · rw [Sched.table_modify_of_ne _ ht] at hrow
    exact (hi.thread t').congr hrow (by simp [Sys.setPc, ht]) rfl rfl

theorem MutexInv.stepPriv_acquire (hi : MutexInv recursive es s) {t : Nat}
    (hr : s.canRun t = true) {c : MutexCall} (hpc : s.pc t = .priv c) (hc : c.acquires = true)
    (now : Nat) :
    MutexInv recursive (es ++ (s.stepPriv t c now).2.toList) (s.stepPriv t c now).1 := by
  unfold Sys.stepPriv Sys.privMutexTrylock
  simp only [hc, ite_true, Option.toList_none, List.append_nil]
  split_ifs with hfree hprio htry
  · exact hi.privTrylock_free (Sys.canRun_spec hr).2.2 hpc hc hfree
      (s.sched.modify t fun r => { r with priority := (s.mutex c.mutex).prioCeiling }) rfl
      (fun t' => SameRow.of_priority s.sched _) _
  · exact hi.privTrylock_free (Sys.canRun_spec hr).2.2 hpc hc hfree s.sched rfl
      (fun t' => ⟨rfl, rfl, rfl, rfl⟩) _
  · have hp := (hi.thread t).place
    rw [hpc] at hp
    simp only [PlaceOk, hc, ite_true] at hp
    have hti := hi.thread t
    rw [hpc] at hti
    refine ⟨hi.counter, hi.flag, fun t' => ?_⟩
    by_cases ht : t' = t
    · subst ht
      have hself : ThreadInv recursive (s.sched.table t') (.resume c (-2) none)
          (fun m => (s.mutex m).ownedBy t') (fun m => held (recursive m) t' m es) := by
        refine ⟨hti.held_own, ?_, fun _ hina => ?_, fun m l hm hown => ?_⟩
        · simp only [PlaceOk, hc, ite_true]
          refine ⟨by simp, by simp, by simp, fun _ => ⟨hp.1, fun _ => hp.2, fun _ m hcm => ?_⟩⟩
          subst hcm
          exact absurd htry (by simp [MutexCall.isTrylock])
        · rw [(Sys.canRun_spec hr).2.2] at hina
          exact absurd hina (by simp)
        · have hne : c.mutex ≠ m := by
            rintro rfl
            rw [hp.2] at hown
            exact absurd hown (by simp)
          have := hti.count m l hm hown
          simpa [owed, hc, hne] using this
      exact hself.congr ⟨rfl, rfl, rfl, rfl⟩ (by simp [Sys.setPc]) rfl rfl
    · exact (hi.thread t').congr ⟨rfl, rfl, rfl, rfl⟩ (by simp [Sys.setPc, ht]) rfl rfl
  · exact hi.privTrylock_block hpc hc (by simpa using htry) now

/-- Thread `t` gives up the mutex of its call for good. -/
theorem MutexInv.release_self (hi : MutexInv recursive es s) {t : Nat} {c : MutexCall}
    (hpc : s.pc t = .priv c) (hc : c.acquires = false)
    (hact : row'.active = true) :
    ThreadInv recursive row' (.resume c 0 none)
      (fun m => if m = c.mutex then none else (s.mutex m).ownedBy t)
      (fun m => held (recursive m) t m (es ++ [.unlocked t c.mutex])) := by
  have hti := hi.thread t
  rw [hpc] at hti
  have hplace := hti.place
  simp only [PlaceOk, hc, Bool.false_eq_true, ite_false, PthreadMutex.isSome_ownedBy] at hplace
  have heq : ∀ m, held (recursive m) t m (es ++ [.unlocked t c.mutex]) =
      heldStep (recursive m) t m (held (recursive m) t m es) (.unlocked t c.mutex) :=
    fun m => held_append _ _ _ _ (some _)
  refine ⟨fun m hm => ?_, by simp [PlaceOk, hc], fun _ hina => ?_, fun m l hm hown => ?_⟩
  · rw [heq] at hm
    by_cases hmc : m = c.mutex
    · -- the last level is gone, whether the mutex counts levels or not
      subst hmc
      exfalso
      simp only [heldStep, and_self, ite_true] at hm
      split_ifs at hm with hrec
      · have hcount := hti.count c.mutex (s.mutex c.mutex).lock hrec (by
          simp [PthreadMutex.ownedBy, hplace.2])
        have hzero := hcount.2.2.mpr ⟨c, rfl, hc, rfl⟩
        have hw : owed c.mutex (.priv c) = -1 := by simp [owed, hc]
        rw [hw] at hcount
        rw [hrec] at hcount hm
        omega
      · omega
    · simp only [hmc, ite_false]
      refine hti.held_own m ?_
      simpa [heldStep, Ne.symm hmc] using hm
  · rw [hact] at hina
    exact absurd hina (by simp)
  · rw [heq]
    by_cases hmc : m = c.mutex
    · subst hmc
      simp at hown
    · simp only [hmc, ite_false] at hown
      have := hti.count m l hm hown
      simpa [owed, hc, heldStep, Ne.symm hmc] using this

theorem held_unlocked_of_ne {r : Bool} {t t' m m' : Nat} (h : t' ≠ t) :
    held r t' m' (es ++ [.unlocked t m]) = held r t' m' es :=
  (held_append r t' m' es (some (.unlocked t m))).trans (heldStep_unlocked_of_ne h)

/-- Nobody sleeps on the mutex: it becomes free. -/
theorem MutexInv.privUnlock_free (hi : MutexInv recursive es s) {t : Nat} {c : MutexCall}
    (hpc : s.pc t = .priv c) (hc : c.acquires = false) (sched : Sched)
    (hcount : sched.usecondCounter = s.sched.usecondCounter)
    (hself : (sched.table t).active = true)
    (hrow : ∀ t', t' ≠ t → SameRow (s.sched.table t') (sched.table t')) :
    MutexInv recursive (es ++ [.unlocked t c.mutex]) (({ s with sched := sched }.setMutex c.mutex
      { s.mutex c.mutex with lock := 0, pthread := none }).setPc t (.resume c 0 none)) := by
  have hp := (hi.thread t).place
  rw [hpc] at hp
  simp only [PlaceOk, hc, Bool.false_eq_true, ite_false, PthreadMutex.isSome_ownedBy] at hp
  refine ⟨hcount ▸ hi.counter, hi.flag_update rfl, fun t' => ?_⟩
  by_cases ht : t' = t
  · subst ht
    exact (hi.release_self hpc hc hself).congr ⟨rfl, rfl, rfl, rfl⟩ (update_self ..) (ownedBy_update ..) rfl
  · refine (hi.thread t').congr (hrow t' ht) (update_of_ne ht ..) (ownedBy_update_of_ne ?_ ?_)
      (funext fun m => held_unlocked_of_ne ht)
    · simp [hp.2, Ne.symm ht]
    · simp

/-- The mutex is handed to the sleeping thread `n`. -/
theorem MutexInv.privUnlock_handoff (hi : MutexInv recursive es s) {t n : Nat} {c : MutexCall}
    (hpc : s.pc t = .priv c) (hc : c.acquires = false) (hnt : n ≠ t)
    (hen : (s.sched.table n).enabled = true) (hact : (s.sched.table n).active = false)
    (hobj : (s.sched.table n).blockObject = c.mutex) (sched : Sched)
    (hcount : sched.usecondCounter = s.sched.usecondCounter)
    (hself : (sched.table t).active = true) (hnew : (sched.table n).active = true)
    (hrow : ∀ t', t' ≠ t → t' ≠ n → SameRow (s.sched.table t') (sched.table t')) (pid : Nat) :
    MutexInv recursive (es ++ [.unlocked t c.mutex]) (({ s with sched := sched }.setMutex c.mutex
      { s.mutex c.mutex with pthread := some n, pid := pid, lock := 1 }).setPc t
        (.resume c 0 none)) := by
  have hp := (hi.thread t).place
  rw [hpc] at hp
  simp only [PlaceOk, hc, Bool.false_eq_true, ite_false, PthreadMutex.isSome_ownedBy] at hp
  refine ⟨hcount ▸ hi.counter, hi.flag_update rfl, fun t' => ?_⟩
  by_cases ht : t' = t
  · subst ht
    refine (hi.release_self hpc hc hself).congr ⟨rfl, rfl, rfl, rfl⟩ (update_self ..)
      ((ownedBy_update ..).trans ?_) rfl
    rw [PthreadMutex.ownedBy_of_pthread_ne (by simp [hnt])]
  by_cases htn : t' = n
  · subst htn
    -- the heir sleeps in a call for this very mutex, which now succeeds
    obtain ⟨c', errno, hpc', hc', htry', hm'⟩ := (hi.thread t').sleeper hen hact (by rw [hobj]; exact hp.1)
    have hti := hi.thread t'
    rw [hpc'] at hti
    rw [hobj] at hm'
    have hplace : PlaceOk recursive (sched.table t')
        (fun m => if m = c.mutex then some 1 else (s.mutex m).ownedBy t') (.resume c' (-2) errno) := by
      simp only [PlaceOk, hc', ite_true]
      refine ⟨by simp, by simp, by simp, fun _ => ⟨hm' ▸ hp.1, fun h => ?_, fun _ m h => ?_⟩⟩
      · rw [htry'] at h
        exact absurd h (by simp)
      · subst h
        have hm'' : m = c.mutex := hm'
        exact .inl (by rw [if_pos hm'']; rfl)
    have hthread := hti.gain (PthreadMutex.ownedBy_of_pthread_ne (by simp [hp.2, Ne.symm ht])) hnew hplace
      (by simp [owed, hc', hm']) (fun m _ => rfl) (fun _ _ => by simp) (fun _ _ => by simp)
    refine hthread.congr ⟨rfl, rfl, rfl, rfl⟩ ((update_of_ne ht ..).trans hpc') ((ownedBy_update ..).trans ?_)
      (funext fun m => held_unlocked_of_ne ht)
    rw [PthreadMutex.ownedBy, if_pos rfl]
  · refine (hi.thread t').congr (hrow t' ht htn) (update_of_ne ht ..) (ownedBy_update_of_ne ?_ ?_)
      (funext fun m => held_unlocked_of_ne ht)
    · simp [hp.2, Ne.symm ht]
    · simp [Ne.symm htn]

theorem SameRow.trans {row'' : SchedTask} (h : SameRow row row') (h' : SameRow row' row'') :
    SameRow row row'' :=
  ⟨h'.enabled.trans h.enabled, h'.active.trans h.active, h'.blockObject.trans h.blockObject,
    h'.wake.trans h.wake⟩

theorem Sched.restorePriority_self (s : Sched) (id : Nat) :
    ((s.restorePriority id).table id).active = (s.table id).active ∧
      ((s.restorePriority id).table id).blockObject = 0 := by
  simp [Sched.restorePriority]

theorem Sched.restorePriority_of_ne (s : Sched) {id t : Nat} (h : t ≠ id) :
    (s.restorePriority id).table t = s.table t := by
  simp only [Sched.restorePriority]
  exact Sched.table_modify_of_ne _ h _

theorem MutexInv.stepPriv_unlock (hi : MutexInv recursive es s) {t : Nat}
    (hr : s.canRun t = true) {c : MutexCall} (hpc : s.pc t = .priv c) (hc : c.acquires = false)
    (now : Nat) :
    MutexInv recursive (es ++ (s.stepPriv t c now).2.toList) (s.stepPriv t c now).1 := by
  have hact := (Sys.canRun_spec hr).2.2
  have hm0 : c.mutex ≠ 0 := by
    have := (hi.thread t).place
    rw [hpc] at this
    exact this.1
  obtain ⟨hself, hobj⟩ := Sched.restorePriority_self s.sched t
  rw [hact] at hself
  unfold Sys.stepPriv
  simp only [hc, Bool.false_eq_true, ite_false, Option.toList_some]
  unfold Sys.privMutexUnlock
  cases hbl : (s.sched.restorePriority t).schedGetHighestPriorityBlocked c.mutex with
  | none =>
    simp only [hbl]
    split_ifs
    · have hx := Sched.execOnly_updateOnWake (s.sched.restorePriority t)
        ((s.sched.restorePriority t).table t).priority
      refine hi.privUnlock_free hpc hc _ hx.usecondCounter ((hx.active t).trans hself) ?_
      intro t' ht
      have hrow := sameRow_of_execOnly hx t'
      rwa [Sched.restorePriority_of_ne _ ht] at hrow
    · refine hi.privUnlock_free hpc hc (s.sched.restorePriority t) rfl hself fun t' ht => ?_
      rw [Sched.restorePriority_of_ne _ ht]
      exact ⟨rfl, rfl, rfl, rfl⟩
  | some n =>
    obtain ⟨_, hen, hnobj, hina⟩ := Sched.getHighestPriorityBlocked_spec _ hbl
    -- the thread that unlocks is on no queue
    have hnt : n ≠ t := by
      rintro rfl
      rw [hobj] at hnobj
      exact hm0 hnobj.symm
    rw [Sched.restorePriority_of_ne _ hnt] at hen hnobj hina
    simp only [hbl]
    generalize hA : Sched.schedPrivAssertActive _ n .mutex = woken
    have hx := Sched.execOnly_updateOnWake woken (woken.table n).priority
    have hother : ∀ t', t' ≠ n → woken.table t' = (s.sched.restorePriority t).table t' := by
      intro t' htn
      rw [← hA, Sched.assertActive_of_ne _ htn, Sched.table_modify_of_ne _ htn]
    refine hi.privUnlock_handoff hpc hc hnt hen hina hnobj _ ?_ ((hx.active t).trans ?_)
      ((hx.active n).trans ?_) ?_ _
    · rw [hx.usecondCounter, ← hA]
      rfl
    · rw [hother t (Ne.symm hnt)]
      exact hself
    · rw [← hA]
      exact (Sched.assertActive_self _ n _).1
    · intro t' ht htn
      have hrow := sameRow_of_execOnly hx t'
      rwa [hother t' htn, Sched.restorePriority_of_ne _ ht] at hrow

/-- A call that returns `0` and acquired something returns to the owner of its mutex. -/
theorem MutexInv.owner_of_return (hi : MutexInv recursive es s) {t : Nat} (hr : s.canRun t = true)
    {c : MutexCall} {ret : Int} {errno : Option Errno} (hpc : s.pc t = .resume c ret errno)
    (hc : c.acquires = true) (h0 : (s.returnValue t c ret errno).1 = 0) :
    (s.mutex c.mutex).pthread = some t := by
  have hti := hi.thread t
  rw [hpc] at hti
  have hp := hti.place
  simp only [PlaceOk, hc, ite_true, PthreadMutex.isSome_ownedBy] at hp
  obtain ⟨hcases, h01, _, _⟩ := hp
  cases c with
  | lock m =>
    simp only [Sys.returnValue] at h0
    split_ifs at h0 with h1 h2
    · exact absurd h0 (by decide)
    · exact absurd h0 (by simp)
    · have := hti.own_of_lock_return (Sys.canRun_spec hr).2.2 (Sys.canRun_spec hr).2.1 h1 h2
      exact PthreadMutex.isSome_ownedBy.mp this
  | trylock m =>
    simp only [Sys.returnValue] at h0
    split_ifs at h0 with h1
    · exact h01 h1
    · exact absurd h0 (by decide)
    · exact absurd h0 (by simp)
  | timedlock m ts =>
    simp only [Sys.returnValue] at h0
    split_ifs at h0 with h1 h2 h3 h4
    · exact absurd h0 (by decide)
    · exact h3
    · exact absurd h0 (by decide)
    · exact absurd h0 (by simp)
    · rcases hcases with h | h | h | h
      · exact h01 (Or.inl h)
      · exact absurd h h1
      · exact absurd h h4
      · exact absurd h h2
  | unlock m => exact absurd hc (by simp [MutexCall.acquires])

/-- What a returning acquisition adds to the levels held is what `own` counted already. -/
theorem owed_of_return {c : MutexCall} {t : Nat} {ret : Int} {errno : Option Errno}
    (hc : c.acquires = true) (hcases : ret = 0 ∨ ret = 1 ∨ ret = -1 ∨ ret = -2) (hret1 : ret ≠ 1)
    (hown : (s.mutex c.mutex).pthread = some t) (htry : ret = -2 → c.isTrylock = false) :
    owed c.mutex (.resume c ret errno) = if (s.returnValue t c ret errno).1 = 0 then 1 else 0 := by
  rcases hcases with rfl | rfl | rfl | rfl
  · cases c <;> simp [owed, Sys.returnValue, hc]
  · exact absurd rfl hret1
  · cases c <;> simp [owed, Sys.returnValue, hc]
  · have htry := htry rfl
    cases c with
    | lock m => simp [owed, Sys.returnValue, hc]
    | trylock m => exact absurd htry (by simp [MutexCall.isTrylock])
    | timedlock m ts =>
      simp only [MutexCall.mutex] at hown
      simp [owed, Sys.returnValue, hc, hown]
    | unlock m => exact absurd hc (by simp [MutexCall.acquires])

theorem MutexInv.stepResume (hi : MutexInv recursive es s) {t : Nat} (hr : s.canRun t = true)
    {c : MutexCall} {ret : Int} {errno : Option Errno} (hpc : s.pc t = .resume c ret errno) :
    MutexInv recursive (es ++ (s.stepResume t c ret errno).2.toList)
      (s.stepResume t c ret errno).1 := by
  have hti := hi.thread t
  rw [hpc] at hti
  unfold Sys.stepResume
  simp only [Option.toList_some]
  set v := (s.returnValue t c ret errno).1 with hv
  have hheld : ∀ t' m, held (recursive m) t' m (es ++ [.returned t c v
      (s.returnValue t c ret errno).2]) = heldStep (recursive m) t' m (held (recursive m) t' m es)
        (.returned t c v (s.returnValue t c ret errno).2) :=
    fun t' m => held_append _ _ _ _ (some _)
  refine ⟨hi.counter, hi.flag, fun t' => ?_⟩
  by_cases ht : t' = t
  · subst ht
    have hself : ThreadInv recursive (s.sched.table t') .idle (fun m => (s.mutex m).ownedBy t')
        (fun m => held (recursive m) t' m (es ++ [.returned t' c v
          (s.returnValue t' c ret errno).2])) := by
      refine ⟨fun m hm => ?_, trivial, fun _ hina => ?_, fun m l hm hl => ?_⟩
      · rw [hheld] at hm
        by_cases hacq : c.mutex = m ∧ c.acquires = true ∧ v = 0
        · obtain ⟨rfl, hc, h0⟩ := hacq
          exact PthreadMutex.isSome_ownedBy.mpr (hi.owner_of_return hr hpc hc h0)
        · simp only [heldStep, true_and, hacq, ite_false] at hm
          exact hti.held_own m hm
      · rw [(Sys.canRun_spec hr).2.2] at hina
        exact absurd hina (by simp)
      · rw [hheld]
        obtain ⟨h1, h2, h3⟩ := hti.count m l hm hl
        -- an owner has at least one level
        have hne : l ≠ 0 := by
          intro h0
          obtain ⟨c', hc', _⟩ := h3.mp h0
          exact absurd hc' (by simp)
        refine ⟨?_, h2, by simp [hne]⟩
        -- whether what returns is the call that acquires the mutex
        by_cases hacq : c.mutex = m ∧ c.acquires = true
        · obtain ⟨rfl, hc⟩ := hacq
          have hp := hti.place
          simp only [PlaceOk, hc, ite_true] at hp
          obtain ⟨hcases, h01, hrec, h2'⟩ := hp
          have hown : (s.mutex c.mutex).pthread = some t' :=
            PthreadMutex.isSome_ownedBy.mp (Option.isSome_iff_exists.mpr ⟨l, hl⟩)
          rw [owed_of_return (s := s) (t := t') hc hcases (fun h => by simp [hrec h] at hm) hown
            (fun h => ?_), ← hv] at h1
          · rw [h1]
            simp only [heldStep, true_and, hc, hm, owed, ite_true]
            split_ifs <;> simp
          · by_contra htry
            rw [Bool.not_eq_false] at htry
            rw [(h2' h).2.1 htry] at hl
            exact absurd hl (by simp)
        · have hstep : heldStep (recursive m) t' m (held (recursive m) t' m es)
              (.returned t' c v (s.returnValue t' c ret errno).2) = held (recursive m) t' m es := by
            simp only [heldStep, true_and]
            rw [if_neg (fun h => hacq ⟨h.1, h.2.1⟩)]
          have howed : owed m (.resume c ret errno) = 0 := by
            simp only [owed]
            rw [if_neg (fun h => hacq ⟨h.2.1, h.1⟩)]
          rw [hstep, h1, howed]
          rfl
    exact hself.congr ⟨rfl, rfl, rfl, rfl⟩ (by simp [Sys.setPc]) rfl rfl
  · refine (hi.thread t').congr ⟨rfl, rfl, rfl, rfl⟩ (by simp [Sys.setPc, ht]) rfl
      (funext fun m => ?_)
    rw [hheld]
    exact heldStep_returned_of_ne ht

/-! ### Runs -/

theorem MutexInv.exec (hi : MutexInv recursive es s) {t now : Nat} (hr : s.canRun t = true)
    {e : Option MutexEvent} (hs : s.execStep t now = some (s', e)) :
    MutexInv recursive (es ++ e.toList) s' := by
  unfold Sys.execStep at hs
  cases hpc : s.pc t with
  | idle => simp [hpc] at hs
  | check c =>
    simp only [hpc, Option.some.injEq, Prod.mk.injEq] at hs
    obtain ⟨rfl, rfl⟩ := hs
    simpa using hi.stepCheck hr hpc
  | owner c =>
    simp only [hpc, Option.some.injEq] at hs
    cases hc : c.acquires with
    | true => have := hi.stepOwner_acquire hr hpc hc; rwa [hs] at this
    | false => have := hi.stepOwner_unlock hr hpc hc; rwa [hs] at this
  | priv c =>
    simp only [hpc, Option.some.injEq] at hs
    cases hc : c.acquires with
    | true => have := hi.stepPriv_acquire hr hpc hc now; rwa [hs] at this
    | false => have := hi.stepPriv_unlock hr hpc hc now; rwa [hs] at this
  | resume c ret errno =>
    simp only [hpc, Option.some.injEq] at hs
    have := hi.stepResume hr hpc
    rwa [hs] at this

theorem MutexInv.step (hi : MutexInv recursive es s) {a : MutexAction} (hok : NoStrayWake s a)
    {e : Option MutexEvent} (hs : s.step a = some (s', e)) :
    MutexInv recursive (es ++ e.toList) s' := by
  cases a with
  | call t c =>
    simp only [Sys.step, Bool.and_eq_true, decide_eq_true_eq, Option.ite_none_right_eq_some,
      Option.some.injEq, Prod.mk.injEq] at hs
    obtain ⟨⟨hr, hpc⟩, rfl, rfl⟩ := hs
    simpa using hi.call hr hpc c
  | exec t now =>
    simp only [Sys.step, Option.ite_none_right_eq_some] at hs
    exact hi.exec hs.1 hs.2
  | signal t =>
    simp only [Sys.step, Option.ite_none_right_eq_some, Option.some.injEq, Prod.mk.injEq] at hs
    obtain ⟨_, rfl, rfl⟩ := hs
    simpa using hi.signal hok
  | matchEvent now =>
    simp only [Sys.step, Option.some.injEq, Prod.mk.injEq] at hs
    obtain ⟨rfl, rfl⟩ := hs
    simpa using hi.matchEvent hok now
  | overflowEvent now =>
    simp only [Sys.step, Option.some.injEq, Prod.mk.injEq] at hs
    obtain ⟨rfl, rfl⟩ := hs
    simpa using hi.overflowEvent hok now
  | cleanup t =>
    simp only [Sys.step, Option.ite_none_right_eq_some, Option.some.injEq, Prod.mk.injEq] at hs
    obtain ⟨_, rfl, rfl⟩ := hs
    simpa using hi.cleanup t
  | stopThreads t =>
    simp only [Sys.step, Option.ite_none_right_eq_some, Option.some.injEq, Prod.mk.injEq] at hs
    obtain ⟨_, rfl, rfl⟩ := hs
    simpa using hi.stopThreads t

theorem mutexInv_run {s₀ : Sys} (h0 : s₀.Init) (hrun : Run Sys.step NoStrayWake s₀ es s) :
    MutexInv (fun m => (s₀.mutex m).recursive) es s :=
  hrun.invariant _ (mutexInv_init h0) fun _ _ _ _ _ hi hok hs => hi.step hok hs

/-- Only the last piece of a call returns. -/
theorem Sys.step_returned {a : MutexAction} {t : Nat} {c : MutexCall} {v : Int}
    {errno : Option Errno} (hs : s.step a = some (s', some (.returned t c v errno))) :
    ∃ ret e, s.canRun t = true ∧ s.pc t = .resume c ret e ∧ (s.returnValue t c ret e).1 = v ∧
      s'.mutex = s.mutex := by
  cases a with
  | exec t' now =>
    simp only [Sys.step, Option.ite_none_right_eq_some] at hs
    obtain ⟨hr, hs⟩ := hs
    unfold Sys.execStep at hs
    cases hpc : s.pc t' with
    | idle => simp [hpc] at hs
    | check c' => simp [hpc] at hs
    | owner c' =>
      simp only [hpc, Option.some.injEq, Sys.stepOwner] at hs
      split_ifs at hs <;> simp at hs
    | priv c' =>
      simp only [hpc, Option.some.injEq, Sys.stepPriv] at hs
      split_ifs at hs <;> simp at hs
    | resume c' ret e =>
      simp only [hpc, Option.some.injEq, Sys.stepResume, Prod.mk.injEq,
        MutexEvent.returned.injEq] at hs
      obtain ⟨rfl, rfl, rfl, hv, _⟩ := hs
      exact ⟨ret, e, hr, hpc, hv, rfl⟩
  | call t' c' => simp [Sys.step] at hs
  | signal t' => simp [Sys.step] at hs
  | matchEvent now => simp [Sys.step] at hs
  | overflowEvent now => simp [Sys.step] at hs
  | cleanup t' => simp [Sys.step] at hs
  | stopThreads t' => simp [Sys.step] at hs

/-- In every run that wakes no sleeper of `pthread_mutex_lock` other than by handing it the mutex, an
acquisition that returns `0` returns to the owner and to nobody else. -/
theorem ownsAlone_of_noStrayWake (s₀ s s' : Sys) (es : List MutexEvent) (a : MutexAction) (t : Nat)
    (c : MutexCall) (errno : Option Errno) (h0 : s₀.Init) (hrun : Run Sys.step NoStrayWake s₀ es s)
    (hs : s.step a = some (s', some (.returned t c 0 errno))) (hc : c.acquires = true) :
    OwnsAlone s₀ s' es t c := by
  have hi := mutexInv_run h0 hrun
  obtain ⟨ret, e, hr, hpc, hv, hmut⟩ := Sys.step_returned hs
  have hown := hi.owner_of_return hr hpc hc hv
  refine ⟨fun _ => by rw [hmut]; exact hown, fun t' ht => ?_⟩
  by_contra hpos
  have := (hi.thread t').held_own c.mutex (Nat.pos_of_ne_zero hpos)
  rw [PthreadMutex.isSome_ownedBy, hown] at this
  exact ht (Option.some.inj this).symm

/-- Tasks `0`, `1` and `2` of one process, all running, and one mutex at address `64`. -/
def twoThreads : Sys where
  sched :=
    { total := 3, currentPriority := 0, statusChanged := false, usecondCounter := 0, sleepOc := 0
      table := fun _ =>
        { enabled := true, exec := true, pid := 1, active := true, stopped := false
          aiosuspend := false, unblockType := .none, blockObject := 0, wake := ⟨0, 0⟩
          priority := 0, attrPriority := 0 } }
  mutex := fun _ =>
    { initialized := true, pshared := false, recursive := false, prioCeiling := 0, pid := 1
      lock := 0, pthread := none }
  pc := fun _ => .idle

theorem twoThreads_init : twoThreads.Init :=
  ⟨fun _ => rfl, fun _ => rfl, fun _ _ hact => absurd hact (by simp [twoThreads]), by decide⟩

/-- Thread `1` locks the mutex, thread `2` goes to sleep on it and is handed it by the unlock. -/
def handOff : List MutexAction :=
  [.call 1 (.lock 64), .exec 1 0, .exec 1 0, .exec 1 0, .exec 1 0,
    .call 2 (.lock 64), .exec 2 0, .exec 2 0, .exec 2 0,
    .call 1 (.unlock 64), .exec 1 0, .exec 1 0, .exec 1 0]

theorem ownsAlone_handOff : ∃ s s' es, Run Sys.step NoStrayWake twoThreads es s ∧
    s.step (.exec 2 0) = some (s', some (.returned 2 (.lock 64) 0 none)) ∧
      OwnsAlone twoThreads s' es 2 (.lock 64) := by
  obtain ⟨s, s', es, hs, hs'⟩ : ∃ s s' es, Run.replay Sys.step twoThreads handOff = some (s, es) ∧
      s.step (.exec 2 0) = some (s', some (.returned 2 (.lock 64) 0 none)) := ⟨_, _, _, rfl, rfl⟩
  have hok : Run.AllOk Sys.step NoStrayWake twoThreads handOff :=
    ⟨trivial, trivial, trivial, trivial, trivial, trivial, trivial, trivial, trivial, trivial,
      trivial, trivial, trivial, trivial⟩
  have hrun := Run.of_replay hs hok
  exact ⟨s, s', es, hrun, hs', ownsAlone_of_noStrayWake twoThreads s s' es (.exec 2 0) 2 (.lock 64)
    none twoThreads_init hrun hs' rfl⟩

/-! ### A signal breaks it -/

/-- Thread `1` locks the mutex, thread `2` goes to sleep on it and a signal wakes thread `2`. -/
def signalledLocker : List MutexAction :=
  [.call 1 (.lock 64), .exec 1 0, .exec 1 0, .exec 1 0, .exec 1 0,
    .call 2 (.lock 64), .exec 2 0, .exec 2 0, .exec 2 0, .signal 2]

/-- `pthread_mutex_lock` returns `0` to thread `2` while the mutex is thread `1`'s. -/
theorem not_mutualExclusion : ¬MutualExclusion fun _ _ => True := by
  intro h
  obtain ⟨s, s', hs, hs', hown⟩ : ∃ s s',
      Run.replay Sys.step twoThreads signalledLocker =
        some (s, [.returned 1 (.lock 64) 0 none]) ∧
      s.step (.exec 2 0) = some (s', some (.returned 2 (.lock 64) 0 none)) ∧
      (s'.mutex 64).pthread = some 1 := ⟨_, _, rfl, rfl, rfl⟩
  have hmx := (h twoThreads s s' _ _ 2 (.lock 64) none twoThreads_init (Run.of_replay hs (Run.allOk_true _ _)) trivial hs' rfl).1 rfl
  rw [show (MutexCall.lock 64).mutex = 64 from rfl, hown] at hmx
  exact absurd hmx (by decide)

end CoActionOS
