import CoActionOS.Lib.Tally
import CoActionOS.Sync.Places

/-!
# The accounts of a semaphore

A wait decrements `sem->value` before the thread goes to sleep, and `sem_post` increments it before it looks for a
sleeper.  The value is unsigned: once a thread sleeps it is far from 0, and the next wait does not sleep.

`SemAccount` adds to the threads how many posts have incremented the value of one semaphore and how many waits have
returned 0; `SemAccount.Balanced` is what the calls promise.  `balanced_of_covered` says that the promise is kept as long
as every thread that passes or is woken, other than by its time-out, has a unit: read as a signed number, the value and
the number of waiting threads, taken together, are at least the number of such threads.
-/

namespace CoActionOS

open Function

/-- `SEM_VALUE_MAX` -/
def semValueMax : Nat := 2 ^ 31 - 1

/-- The time `d` has come at time `now`. -/
def SchedTimeval.reached (d now : SchedTimeval) : Bool :=
  d.tvSec < now.tvSec || d.tvSec = now.tvSec && d.tvUsec ≤ now.tvUsec

namespace SyncCall

/-- The semaphore that the call takes a unit of. -/
def taken : SyncCall → Option Nat
  | semWait q | semTrywait q | semTimedwait q _ => some q
  | _ => none

/-- The call asks why it was woken. -/
def timed : SyncCall → Bool
  | semTimedwait .. => true
  | _ => false

end SyncCall

namespace SyncPc

/-- The thread has decremented the value, and its call has not returned. -/
def holds (q : Nat) : SyncPc → Bool
  | .resume c ret _ => c.taken = some q && ret = 0
  | .abort q' _ => q' = q
  | _ => false

/-- The call of a thread that has decremented the value is going to return 0. -/
def owed (q : Nat) (pc : SyncPc) (row : SchedTask) : Bool :=
  match pc with
  | .resume c ret _ => c.taken = some q && ret = 0 && row.enabled && row.active &&
      !(c.timed && row.unblockType = .sleep)
  | _ => false

/-- The thread has decremented the value and waits for a unit, or has to give back what it has taken. -/
def waits (q : Nat) (pc : SyncPc) (row : SchedTask) : Bool := pc.holds q && !pc.owed q row

/-- The deadline of the call that the thread is in. -/
def deadline : SyncPc → Option SchedTimeval
  | .idle | .fresh | .post _ => none
  | .check c | .scan c | .priv c _ | .resume c _ _ => some c.deadline
  | .abort q ts => some (SyncCall.semTimedwait q ts).deadline

end SyncPc

namespace SyncEvent

/-- A post has incremented the value. -/
def posts (q : Nat) : SyncEvent → Bool
  | .posted _ q' => q' = q
  | _ => false

/-- A wait has returned 0. -/
def takes (q : Nat) : SyncEvent → Bool
  | .returned _ c ret _ => c.taken = some q && ret = 0
  | _ => false

end SyncEvent

/-- A thread that is awake has no deadline pending. -/
def Sync.NoneAwaited (s : Sync) : Prop := ∀ n, (s.row n).active = true → (s.row n).wake = ⟨schedTimevalSecInvalid, 0⟩

/-- The threads, and the account of one semaphore. -/
structure SemAccount where
  sync : Sync
  posted : Nat
  taken : Nat
  /-- the units of threads that have ended in their call and whose rows have been reused -/
  lost : Nat
  /-- the deadline of the call that a thread is in has come during the call -/
  passed : Nat → Bool

namespace SemAccount

variable (q : Nat) (x : SemAccount)

/-- The value, read as a signed number. -/
def value : Int := (x.sync.sem q).value.toInt

/-- The number of threads that have decremented the value and whose calls have not returned. -/
def holding : Nat := x.sync.sys.sched.ids.countP fun n => (x.sync.pc n).holds q

def waiting : Nat := x.sync.sys.sched.ids.countP fun n => (x.sync.pc n).waits q (x.sync.row n)

/-- The action is the privileged call of a wait that finds a value other than 0. -/
def passes (a : SyncAction) : Bool :=
  match a with
  | .exec t _ =>
    match x.sync.pc t with
    | .priv c _ => c.taken = some q && (x.sync.sem q).value > 0
    | _ => false
  | _ => false

/-- The number of waiting threads that the action wakes other than by their time-out. -/
def granted (a : SyncAction) : Nat :=
  x.sync.sys.sched.ids.countP fun n => (x.sync.row n).enabled && (x.sync.pc n).waits q (x.sync.row n) &&
    (x.sync.pc n).owed q (x.sync.rowAfter a n)

def notePassed (e : Option SyncEvent) (t : Nat) : Bool :=
  match e with
  | some (.called t' _) => if t' = t then false else x.passed t
  | some (.tick now) => x.passed t || (x.sync.pc t).deadline.any (·.reached now)
  | _ => x.passed t

/-- The number of threads that have decremented the value and whose rows have been reused in `s`. -/
def losing (s : Sync) : Nat := x.sync.sys.sched.ids.countP fun n => (x.sync.pc n).holds q && s.pc n = .fresh

def note (s : Sync) (e : Option SyncEvent) : SemAccount where
  sync := s
  posted := x.posted + (e.any (·.posts q)).toNat
  taken := x.taken + (e.any (·.takes q)).toNat
  lost := x.lost + x.losing q s
  passed := x.notePassed e

def step (a : SyncAction) : Option (SemAccount × Option SyncEvent) :=
  (x.sync.step a).map fun p => (x.note q p.1 p.2, p.2)

/-- A start state: the value is `v`, the threads are between calls and no deadline is pending. -/
structure Initial (v : Nat) : Prop where
  value : x.value q = v
  idle : ∀ t, x.sync.pc t = .idle ∧ x.sync.sys.pc t = .idle
  awake : x.sync.NoneAwaited
  epoch : x.sync.sys.sched.usecondCounter < 2 ^ 32
  posted : x.posted = 0
  taken : x.taken = 0
  lost : x.lost = 0

/-- The call does not sleep, but its thread has been woken by a time-out before. -/
def stale (a : SyncAction) : Bool :=
  match a with
  | .exec t _ =>
    match x.sync.pc t with
    | .priv (.semTimedwait q' _) _ => q' = q && (x.sync.sem q).value > 0 && (x.sync.row t).unblockType = .sleep
    | _ => false
  | _ => false

/-- There is a unit for every thread that passes or is woken, the value is in the range that `SEM_VALUE_MAX` gives, and no
call takes an earlier time-out for its own. -/
structure Covered (a : SyncAction) : Prop where
  units : (x.granted q a : Int) + (x.passes q a).toNat ≤ x.value q + x.waiting q + x.lost
  range : (x.value q).natAbs < semValueMax
  fresh : x.stale q a = false

instance (a : SyncAction) : Decidable (x.Covered q a) :=
  decidable_of_iff
    ((x.granted q a : Int) + (x.passes q a).toNat ≤ x.value q + x.waiting q + x.lost ∧
      (x.value q).natAbs < semValueMax ∧ x.stale q a = false)
    ⟨fun h => ⟨h.1, h.2.1, h.2.2⟩, fun h => ⟨h.units, h.range, h.fresh⟩⟩

end SemAccount

/-! ### The arithmetic of the value -/

theorem value_same (v : BitVec 32) : v = v + BitVec.ofInt 32 0 := (BitVec.add_zero v).symm

theorem value_down (v : BitVec 32) : v - 1 = v + BitVec.ofInt 32 (-1) := BitVec.sub_eq_add_neg v 1

/-- In the range of `SEM_VALUE_MAX` the signed reading follows the increments. -/
theorem toInt_value {v : BitVec 32} {dv : Int} (h : v.toInt.natAbs < semValueMax) (hdv : dv.natAbs ≤ 1) :
    (v + BitVec.ofInt 32 dv).toInt = v.toInt + dv := by
  have hmax : semValueMax = 2 ^ 31 - 1 := rfl
  rw [BitVec.toInt_add, BitVec.toInt_ofInt, Int.add_bmod_bmod]
  exact Int.bmod_eq_of_le (by omega) (by omega)

theorem eq_zero_of_not_pos {v : BitVec 32} (h : ¬0 < v) : v = 0#32 := by
  simpa using h

/-! ### The pieces of a call -/

namespace Sync

variable {s s' : Sync} {e : Option SyncEvent} {q t now : Nat}

/-- What a piece of a call does to semaphore `q`: where the thread stands before and after it, by how much the value
changes, and what is observed. -/
inductive SemMove (s : Sync) (q t now : Nat) : SyncPc → SyncPc → Int → Option SyncEvent → Prop
  | quiet {pc pc' : SyncPc} {e : Option SyncEvent} (h : pc.holds q = false) (h' : pc'.holds q = false)
      (hposts : e.any (·.posts q) = false) (htakes : e.any (·.takes q) = false)
      (hout : ∀ t' ts, e ≠ some (.returned t' (.semTimedwait q ts) (-1) (some .etimedout))) :
      SemMove s q t now pc pc' 0 e
  | post : SemMove s q t now (.post q) (.scan (.semPost q)) 1 (some (.posted t q))
  | take {c : SyncCall} {k : Option Nat} (hc : c.taken = some q)
      (hsleep : 0 < (s.sem q).value ∨ (s.rowAfter (.exec t now) t).active = false) :
      SemMove s q t now (.priv c k) (.resume c 0 none) (-1) none
  | succeed {c : SyncCall} {errno : Option Errno} (hc : c.taken = some q)
      (hwoken : (c.timed && decide ((s.row t).unblockType = .sleep)) = false) :
      SemMove s q t now (.resume c 0 errno) .idle 0 (some (.returned t c 0 errno))
  | timedOut {ts : Option Timespec} {errno : Option Errno} (hsleep : (s.row t).unblockType = .sleep) :
      SemMove s q t now (.resume (.semTimedwait q ts) 0 errno) (.abort q ts) 0 none
  | abort {ts : Option Timespec} : SemMove s q t now (.abort q ts) .idle 1
      (some (.returned t (.semTimedwait q ts) (-1) (some .etimedout)))

/-- `sem_timedwait` and `sem_wait` sleep unless there is a unit. -/
theorem sleeps_of_priv {c : SyncCall} {k : Option Nat} (hpc : s.pc t = .priv c k) (hc : c.taken = some q) (hq : q ≠ 0)
    (hvalue : ¬0 < (s.sem q).value) (htry : c ≠ .semTrywait q) : (s.rowAfter (.exec t now) t).active = false := by
  simp only [rowAfter, hpc]
  cases c with
  | semWait q' =>
    obtain rfl : q' = q := Option.some.inj hc
    simp [privRow, eq_zero_of_not_pos hvalue]
  | semTimedwait q' ts =>
    obtain rfl : q' = q := Option.some.inj hc
    simp [privRow, eq_zero_of_not_pos hvalue, SchedTask.timedblocked, hq]
  | semTrywait q' => exact absurd (congrArg SyncCall.semTrywait (Option.some.inj hc)) htry
  | _ => simp [SyncCall.taken] at hc

theorem SemMove.silent {pc pc' : SyncPc} (h : pc.holds q = false) (h' : pc'.holds q = false) :
    SemMove s q t now pc pc' 0 none := .quiet h h' rfl rfl fun _ _ he => nomatch he

theorem value_setValue (q' : Nat) (v : BitVec 32) :
    ((s.setValue q' v).sem q).value = if q = q' then v else (s.sem q).value := by
  show (update s.sem q' _ q).value = _
  by_cases hq : q = q'
  · subst hq
    rw [update_self, if_pos rfl]
  · rw [update_of_ne hq, if_neg hq]

theorem holds_resume {c : SyncCall} {ret : Int} {errno : Option Errno} (h : c.taken = some q → ret ≠ 0) :
    (SyncPc.resume c ret errno).holds q = false := by
  by_cases hc : c.taken = some q
  · simp [SyncPc.holds, h hc]
  · simp [SyncPc.holds, hc]

theorem holds_afterCheck (c : SyncCall) : (afterCheck c).holds q = false := by
  cases c <;> rfl

theorem sem_stepPriv_of_not_taken {c : SyncCall} {k : Option Nat} (hc : c.taken = none) :
    (s.stepPriv t c k now).1.sem = s.sem := by
  have hwait : ∀ cond m tv, (s.privCondWait t cond m k tv now).1.sem = s.sem := by
    intro cond m tv
    unfold privCondWait
    by_cases hown : (s.sys.mutex m).pthread = some t
    · simp only [hown, ite_true]
      cases k <;> rfl
    · simp [hown]
  cases c with
  | condWait cond m => exact hwait cond m _
  | condTimedwait cond m ts => exact hwait cond m _
  | condSignal cond => cases k <;> rfl
  | condBroadcast cond => rfl
  | semPost q => cases k <;> rfl
  | blockOnMq q ts => rfl
  | checkForBlockedTask q => cases k <;> rfl
  | _ => cases hc

/-- What the privileged calls report is a wake-up. -/
theorem event_stepPriv (c : SyncCall) (k : Option Nat) (now : Nat) :
    (s.stepPriv t c k now).2 = none ∨ ∃ obj n, (s.stepPriv t c k now).2 = some (.woke obj n) := by
  have hwait : ∀ cond m, (s.stepCondWait t c cond m k now).2 = none ∨
      ∃ obj n, (s.stepCondWait t c cond m k now).2 = some (.woke obj n) := by
    intro cond m
    unfold stepCondWait
    dsimp only
    split_ifs
    · cases k with
      | none => exact .inl rfl
      | some n => exact .inr ⟨m, n, rfl⟩
    · exact .inl rfl
  cases c with
  | condWait cond m => exact hwait cond m
  | condTimedwait cond m ts => exact hwait cond m
  | condBroadcast cond => exact .inl rfl
  | semWait q => exact .inl rfl
  | semTimedwait q ts => exact .inl rfl
  | blockOnMq q ts => exact .inl rfl
  | semTrywait q =>
    unfold stepPriv
    dsimp only
    split_ifs <;> exact .inl rfl
  | condSignal cond =>
    cases k with
    | none => exact .inl rfl
    | some n => exact .inr ⟨cond, n, rfl⟩
  | semPost q =>
    cases k with
    | none => exact .inl rfl
    | some n => exact .inr ⟨q, n, rfl⟩
  | checkForBlockedTask q =>
    cases k with
    | none => exact .inl rfl
    | some n => exact .inr ⟨q, n, rfl⟩

theorem SemMove.priv_of_not_taken {c : SyncCall} {k : Option Nat} {ret : Int} {errno : Option Errno}
    (hc : c.taken ≠ some q) : SemMove s q t now (.priv c k) (.resume c ret errno) 0 (s.stepPriv t c k now).2 := by
  have hholds : (SyncPc.resume c ret errno).holds q = false := holds_resume fun h => absurd h hc
  rcases event_stepPriv (s := s) (t := t) c k now with he | ⟨obj, n, he⟩
  · rw [he]
    exact .silent rfl hholds
  · rw [he]
    exact .quiet rfl hholds rfl rfl fun _ _ h => nomatch h

/-- The privileged call of a wait on the semaphore. -/
theorem exec_sem_priv {c : SyncCall} {k : Option Nat} (now : Nat) (hs : s.pc t = .priv c k) (hobject : c.object ≠ 0) :
    ∃ pc' dv, (s.stepPriv t c k now).1.pc = update s.pc t pc' ∧
      ((s.stepPriv t c k now).1.sem q).value = (s.sem q).value + BitVec.ofInt 32 dv ∧
      s.SemMove q t now (.priv c k) pc' dv (s.stepPriv t c k now).2 := by
  obtain ⟨ret, errno, -, hpc⟩ := pc_stepPriv (s := s) t c k now
  by_cases hc : c.taken = some q
  · -- a unit is taken unless `sem_trywait` finds none
    cases c with
    | semWait q' =>
      obtain rfl : q' = q := Option.some.inj hc
      refine ⟨.resume (.semWait q') 0 none, -1, rfl, ?_, .take rfl ?_⟩
      · exact (value_setValue q' _).trans ((if_pos rfl).trans (value_down _))
      -- the thread passes when a unit is there, and sleeps otherwise
      · by_cases hvalue : 0 < (s.sem q').value
        · exact .inl hvalue
        · exact .inr (sleeps_of_priv hs rfl hobject hvalue SyncCall.noConfusion)
    | semTimedwait q' ts =>
      obtain rfl : q' = q := Option.some.inj hc
      refine ⟨.resume (.semTimedwait q' ts) 0 none, -1, ?_, ?_, .take rfl ?_⟩
      · show ((s.privSemTimedwait t q' _ now).setPc t _).pc = _
        unfold privSemTimedwait
        split_ifs <;> rfl
      · unfold stepPriv privSemTimedwait
        exact (value_setValue q' _).trans ((if_pos rfl).trans (value_down _))
      · by_cases hvalue : 0 < (s.sem q').value
        · exact .inl hvalue
        · exact .inr (sleeps_of_priv hs rfl hobject hvalue SyncCall.noConfusion)
    | semTrywait q' =>
      obtain rfl : q' = q := Option.some.inj hc
      by_cases hvalue : (s.sem q').value > 0
      · refine ⟨.resume (.semTrywait q') 0 none, -1, ?_, ?_, ?_⟩
        · simp only [stepPriv, if_pos hvalue]
          rfl
        · simp only [stepPriv, if_pos hvalue]
          exact (value_setValue q' _).trans ((if_pos rfl).trans (value_down _))
        · simp only [stepPriv, if_pos hvalue]
          exact .take rfl (.inl hvalue)
      -- there is no unit, and the call fails
      · refine ⟨.resume (.semTrywait q') (-1) (some .eagain), 0, ?_, ?_, ?_⟩
        · simp only [stepPriv, if_neg hvalue]
          rfl
        · simp only [stepPriv, if_neg hvalue]
          exact value_same _
        · simp only [stepPriv, if_neg hvalue]
          exact .silent rfl (holds_resume fun _ => by decide)
    | _ => cases hc
  · refine ⟨_, 0, hpc, ?_, .priv_of_not_taken hc⟩
    refine Eq.trans ?_ (value_same _)
    cases c with
    | semWait q' =>
      -- the call is for another semaphore
      have hq : q ≠ q' := fun h => hc (by rw [h]; rfl)
      exact (value_setValue q' _).trans (if_neg hq)
    | semTimedwait q' ts =>
      have hq : q ≠ q' := fun h => hc (by rw [h]; rfl)
      unfold stepPriv privSemTimedwait
      refine (value_setValue q' _).trans ((if_neg hq).trans ?_)
      split_ifs <;> rfl
    | semTrywait q' =>
      have hq : q ≠ q' := fun h => hc (by rw [h]; rfl)
      unfold stepPriv
      dsimp only
      split_ifs
      · exact (value_setValue q' _).trans (if_neg hq)
      · rfl
    | _ => rw [sem_stepPriv_of_not_taken rfl]

theorem exec_sem (hgood : (s.pc t).Good s.kind) (hscan : ∀ c, s.pc t = .scan c → c.taken = none)
    (h : s.execStep t now = some (s', e)) :
    ∃ pc' dv, s'.pc = update s.pc t pc' ∧ (s'.sem q).value = (s.sem q).value + BitVec.ofInt 32 dv ∧
      s.SemMove q t now (s.pc t) pc' dv e := by
  have hsame : ∀ {v : BitVec 32}, v = v + BitVec.ofInt 32 0 := value_same _
  cases hs : s.pc t with
  | idle => simp [execStep, hs] at h
  | fresh => simp [execStep, hs] at h
  | check c =>
    rw [hs] at hgood
    simp only [execStep, hs, Option.some.injEq, Prod.mk.injEq] at h
    obtain ⟨rfl, rfl⟩ := h
    unfold stepCheck
    cases hf : s.fault t c with
    | none => exact ⟨_, 0, rfl, hsame, .silent rfl (holds_afterCheck c)⟩
    | some f =>
      have hret := ((fault_spec t c hgood).2 f.1 f.2 hf).1
      exact ⟨_, 0, rfl, hsame, .silent rfl (holds_resume fun _ => hret)⟩
  | post q' =>
    simp only [execStep, hs, Option.some.injEq, stepPost, Prod.mk.injEq] at h
    obtain ⟨rfl, rfl⟩ := h
    by_cases hq : q = q'
    · subst hq
      exact ⟨_, 1, rfl, (value_setValue q _).trans (if_pos rfl), .post⟩
    · refine ⟨_, 0, rfl, ((value_setValue q' _).trans (if_neg hq)).trans hsame, .quiet rfl rfl ?_ rfl ?_⟩
      · exact decide_eq_false (Ne.symm hq)
      · exact fun _ _ he => by cases he
  | scan c =>
    simp only [execStep, hs, Option.some.injEq, Prod.mk.injEq] at h
    obtain ⟨rfl, rfl⟩ := h
    have hc := hscan c hs
    unfold stepScan
    cases s.sys.sched.schedGetHighestPriorityBlocked c.scanned with
    | some n => exact ⟨_, 0, rfl, hsame, .silent rfl rfl⟩
    | none =>
      cases c.waitMutex.isSome with
      | true => exact ⟨_, 0, rfl, hsame, .silent rfl rfl⟩
      | false =>
        refine ⟨_, 0, rfl, hsame, .silent rfl (holds_resume fun htaken => ?_)⟩
        cases hc.symm.trans htaken
  | priv c k =>
    rw [hs] at hgood
    simp only [execStep, hs, Option.some.injEq] at h
    have hpriv := exec_sem_priv (q := q) now hs hgood.2
    rw [h] at hpriv
    exact hpriv
  | resume c ret errno =>
    rw [hs] at hgood
    simp only [execStep, hs, Option.some.injEq] at h
    -- the calls that take no unit of the semaphore return quietly
    have hquiet : ∀ {ret' : Int} {errno' : Option Errno}, c.taken ≠ some q →
        s.SemMove q t now (.resume c ret errno) .idle 0 (some (.returned t c ret' errno')) := by
      intro ret' errno' hc
      refine .quiet (holds_resume fun h => absurd h hc) rfl rfl ?_ ?_
      · show (decide (c.taken = some q) && _) = false
        rw [decide_eq_false hc, Bool.false_and]
      · intro t' ts he
        injection he with he
        injection he with _ hcall
        exact hc (by rw [hcall]; rfl)
    -- a wait returns what it has been told, and if that is 0 it takes a unit
    have htaken : c.taken = some q → (c.timed && decide ((s.row t).unblockType = .sleep)) = false ∨ ret ≠ 0 →
        s.SemMove q t now (.resume c ret errno) .idle 0 (some (.returned t c ret errno)) := by
      intro hc hret
      by_cases hzero : ret = 0
      · subst hzero
        exact .succeed hc (hret.resolve_right fun h => h rfl)
      · refine .quiet (holds_resume fun _ => hzero) rfl rfl ?_ ?_
        · show (_ && decide (ret = 0)) = false
          rw [decide_eq_false hzero, Bool.and_false]
        · intro t' ts he
          injection he with he
          injection he with _ _ _ herrno
          exact hgood.2.2 herrno
    have hreturn : (c.taken = some q → (c.timed && decide ((s.row t).unblockType = .sleep)) = false ∨ ret ≠ 0) →
        s.SemMove q t now (.resume c ret errno) .idle 0 (some (.returned t c ret errno)) := by
      intro hret
      by_cases hc : c.taken = some q
      · exact htaken hc (hret hc)
      · exact hquiet hc
    have hplain : c.timed = false → s' = s.setPc t .idle → e = some (.returned t c ret errno) →
        ∃ pc' dv, s'.pc = update s.pc t pc' ∧ (s'.sem q).value = (s.sem q).value + BitVec.ofInt 32 dv ∧
          s.SemMove q t now (.resume c ret errno) pc' dv e := by
      rintro htimed rfl rfl
      exact ⟨_, 0, rfl, hsame, hreturn fun _ => .inl (by rw [htimed]; rfl)⟩
    cases c with
    | semTimedwait q' ts =>
      simp only [stepResume] at h
      split_ifs at h with hsleep
      · obtain ⟨rfl, rfl⟩ := Prod.mk.inj h
        obtain ⟨rfl, hsleep⟩ := hsleep
        by_cases hq : q' = q
        · subst hq
          exact ⟨_, 0, rfl, hsame, .timedOut hsleep⟩
        · refine ⟨_, 0, rfl, hsame, .silent (holds_resume fun h => absurd (Option.some.inj h) hq) ?_⟩
          exact decide_eq_false hq
      · obtain ⟨rfl, rfl⟩ := Prod.mk.inj h
        refine ⟨_, 0, rfl, hsame, hreturn fun _ => ?_⟩
        by_cases hzero : ret = 0
        · left
          rw [decide_eq_false fun hs => hsleep ⟨hzero, hs⟩, Bool.and_false]
        · exact .inr hzero
    | condTimedwait cond m ts =>
      simp only [stepResume] at h
      split_ifs at h
      · obtain ⟨rfl, rfl⟩ := Prod.mk.inj h
        exact ⟨_, 0, rfl, hsame, hquiet fun h => by cases h⟩
      · obtain ⟨rfl, rfl⟩ := Prod.mk.inj h
        exact ⟨_, 0, rfl, hsame, hquiet fun h => by cases h⟩
    | blockOnMq mq ts =>
      simp only [stepResume] at h
      split_ifs at h
      · obtain ⟨rfl, rfl⟩ := Prod.mk.inj h
        exact ⟨_, 0, rfl, hsame, hquiet fun h => by cases h⟩
      · obtain ⟨rfl, rfl⟩ := Prod.mk.inj h
        exact ⟨_, 0, rfl, hsame, hquiet fun h => by cases h⟩
    | _ =>
      obtain ⟨rfl, rfl⟩ := Prod.mk.inj h
      exact hplain rfl rfl rfl
  | abort q' ts =>
    simp only [execStep, hs, Option.some.injEq, stepAbort, Prod.mk.injEq] at h
    obtain ⟨rfl, rfl⟩ := h
    by_cases hq : q = q'
    · subst hq
      exact ⟨_, 1, rfl, (value_setValue q _).trans (if_pos rfl), .abort⟩
    · refine ⟨_, 0, rfl, ((value_setValue q' _).trans (if_neg hq)).trans hsame, .quiet ?_ rfl rfl ?_ ?_⟩
      · exact decide_eq_false (Ne.symm hq)
      · exact Bool.and_false _
      · intro t' ts' he
        injection he with he
        injection he with _ hcall
        injection hcall with hq'
        exact hq hq'.symm

/-! ### Rows -/

variable {a : SyncAction} {n : Nat}

theorem wake_timedblocked {row : SchedTask} {obj counter : Nat} {tv : SchedTimeval} (hobj : obj ≠ 0)
    (h : (row.timedblocked obj tv counter now).active = true) :
    (row.timedblocked obj tv counter now).wake = ⟨schedTimevalSecInvalid, 0⟩ := by
  simp [SchedTask.timedblocked, hobj] at h

theorem noneAwaited_priv {c : SyncCall} {k : Option Nat} (hn : s.NoneAwaited) (hobject : c.object ≠ 0)
    (hact : (s.privRow t c k now n).active = true) :
    (s.privRow t c k now n).wake = ⟨schedTimevalSecInvalid, 0⟩ := by
  have hwait : ∀ cond m tv, cond ≠ 0 → (s.condWaitRow t cond m k tv now n).active = true →
      (s.condWaitRow t cond m k tv now n).wake = ⟨schedTimevalSecInvalid, 0⟩ := by
    intro cond m tv hcond hact
    unfold condWaitRow at hact ⊢
    dsimp only at hact ⊢
    split_ifs at hact ⊢
    all_goals
      first
      | exact wake_timedblocked hcond hact
      | exact hn n hact
      | rfl
  cases c with
  | condWait cond m => exact hwait cond m _ hobject hact
  | condTimedwait cond m ts => exact hwait cond m _ hobject hact
  | semTrywait q => exact hn n hact
  | semWait q =>
    simp only [privRow] at hact ⊢
    split_ifs at hact ⊢
    · exact hn n (Bool.and_eq_true_iff.mp hact).1
    · exact hn n hact
  | semTimedwait q ts =>
    simp only [privRow] at hact ⊢
    split_ifs at hact ⊢
    · exact wake_timedblocked hobject hact
    · exact hn n hact
  | blockOnMq q ts =>
    simp only [privRow] at hact ⊢
    split_ifs at hact ⊢
    · exact wake_timedblocked hobject hact
    · exact hn n hact
  | _ =>
    simp only [privRow] at hact ⊢
    split_ifs at hact ⊢
    · rfl
    · exact hn n hact

theorem noneAwaited_sys {b : MutexAction} (hn : s.NoneAwaited) (hsys : s.SysTyped)
    (hact : (s.sys.rowAfter b n).active = true) : (s.sys.rowAfter b n).wake = ⟨schedTimevalSecInvalid, 0⟩ := by
  have hrow : (s.sys.sched.table n).active = true → (s.sys.sched.table n).wake = ⟨schedTimevalSecInvalid, 0⟩ := hn n
  cases b with
  | call t c => exact hrow hact
  | exec t now =>
    simp only [Sys.rowAfter] at hact ⊢
    cases hpc : s.sys.pc t with
    | priv c =>
      have hgood := hsys t
      rw [hpc] at hgood hact
      simp only [Sys.privRow] at hact ⊢
      split_ifs at hact ⊢
      all_goals
        first
        | exact hrow hact
        | exact wake_timedblocked hgood.1 hact
        | rfl
    | _ =>
      rw [hpc] at hact
      exact hrow hact
  | signal t =>
    simp only [Sys.rowAfter] at hact ⊢
    split_ifs at hact ⊢
    · rfl
    · exact hrow hact
  | matchEvent now =>
    simp only [Sys.rowAfter] at hact ⊢
    split_ifs at hact ⊢
    · rfl
    · exact hrow hact
  | overflowEvent now =>
    simp only [Sys.rowAfter] at hact ⊢
    split_ifs at hact ⊢
    · rfl
    · exact hrow hact
  | cleanup t =>
    simp only [Sys.rowAfter] at hact ⊢
    split_ifs at hact ⊢
    · simp [Sched.clearTask] at hact
    · exact hrow hact
  | stopThreads t =>
    simp only [Sys.rowAfter] at hact ⊢
    split_ifs at hact ⊢
    · simp [Sched.clearTask] at hact
    · exact hrow hact

theorem NoneAwaited.step (hn : s.NoneAwaited) (htyped : s.WellTyped) (hsys : s.SysTyped)
    (h : s.step a = some (s', e)) : s'.NoneAwaited := by
  intro n hact
  have hrow := step_row h n
  rw [SchedTask.active_of_noExec hrow] at hact
  rw [SchedTask.wake_of_noExec hrow]
  cases a with
  | sys b => exact noneAwaited_sys hn hsys hact
  | call t c => exact hn n hact
  | exec t now =>
    simp only [rowAfter] at hact ⊢
    cases hpc : s.pc t with
    | priv c k =>
      have hgood := htyped t
      rw [hpc] at hgood hact
      exact noneAwaited_priv hn hgood.2 hact
    | _ =>
      rw [hpc] at hact
      exact hn n hact
  | newThread t =>
    obtain ⟨sched, id, hnew, _⟩ := newThread_spec h
    simp only [rowAfter, hnew] at hact ⊢
    split_ifs at hact ⊢
    · exact hn n hact
    · exact hn n hact
  | activateThread id prio =>
    simp only [rowAfter] at hact ⊢
    split_ifs at hact ⊢
    · rfl
    · exact hn n hact

theorem reached_of_due {sched : Sched} (h : sched.due now n = true) :
    (sched.table n).enabled = true ∧ (sched.table n).active = false ∧
      (sched.table n).wake.reached ⟨sched.usecondCounter, now⟩ = true := by
  simp only [Sched.due, Bool.and_eq_true, Bool.not_eq_true'] at h
  refine ⟨h.1.1, h.1.2, ?_⟩
  rw [SchedTimeval.reached, ← h.2]
  rfl

/-- A thread that does not act is woken by a time-out only when its wake time has come. -/
theorem timedOut_before (h : s.step a = some (s', e)) (ha : actsAs n a = false) (hfresh : s'.pc n ≠ .fresh)
    (hsleep : (s.rowAfter a n).unblockType = .sleep) :
    s.rowAfter a n = s.row n ∨ ∃ now, e = some (.tick now) ∧ (s.row n).enabled = true ∧ (s.row n).active = false ∧
      (s.row n).wake.reached now = true := by
  cases a with
  | sys b =>
    obtain ⟨e', _, _, _, he⟩ := sys_spec h
    cases b with
    | exec t now =>
      simp only [actsAs, beq_eq_false_iff_ne] at ha
      simp only [rowAfter, Sys.rowAfter] at hsleep ⊢
      cases hpc : s.sys.pc t with
      | priv c =>
        rw [hpc] at hsleep
        simp only [Sys.privRow] at hsleep ⊢
        split_ifs at hsleep ⊢
        all_goals
          first
          | exact .inl rfl
          -- a hand-over wakes with the mutex, not by a time-out
          | cases hsleep
      | _ => exact .inl rfl
    | matchEvent now =>
      simp only [rowAfter, Sys.rowAfter] at hsleep ⊢
      -- the comparison wakes those that are due
      split_ifs at hsleep ⊢ with hdue
      · right
        exact ⟨_, he, reached_of_due hdue.2⟩
      · exact .inl rfl
    | overflowEvent now =>
      simp only [rowAfter, Sys.rowAfter] at hsleep ⊢
      split_ifs at hsleep ⊢ with hdue
      · right
        exact ⟨_, he, reached_of_due hdue.2⟩
      · exact .inl rfl
    | call t c => exact .inl rfl
    | _ =>
      simp only [rowAfter, Sys.rowAfter] at hsleep ⊢
      split_ifs at hsleep ⊢
      -- a thread that is signalled is not timed out
      · cases hsleep
      · exact .inl rfl
  | call t c => exact .inl rfl
  | exec t now =>
    simp only [actsAs, beq_eq_false_iff_ne] at ha
    simp only [rowAfter] at hsleep ⊢
    cases hpc : s.pc t with
    | priv c k =>
      rw [hpc] at hsleep
      cases c with
      | semTrywait q => exact .inl rfl
      | semWait q => exact .inl (if_neg ha)
      | semTimedwait q ts => exact .inl (if_neg fun hcur => ha hcur.1)
      | blockOnMq q ts => exact .inl (if_neg ha)
      | condWait cond m =>
        simp only [privRow, condWaitRow, ha, if_false] at hsleep ⊢
        split_ifs at hsleep ⊢
        all_goals
          first
          | exact .inl rfl
          | cases hsleep
      | condTimedwait cond m ts =>
        simp only [privRow, condWaitRow, ha, if_false] at hsleep ⊢
        split_ifs at hsleep ⊢
        all_goals
          first
          | exact .inl rfl
          | cases hsleep
      | _ =>
        simp only [privRow] at hsleep ⊢
        split_ifs at hsleep ⊢
        · cases hsleep
        · exact .inl rfl
    | _ => exact .inl rfl
  | newThread t =>
    obtain ⟨sched, id, hnew, _, rfl, _⟩ := newThread_spec h
    simp only [rowAfter, hnew]
    split_ifs with hn
    · subst hn
      exact absurd (update_self ..) hfresh
    · exact .inl rfl
  | activateThread id prio =>
    simp only [rowAfter] at hsleep ⊢
    split_ifs at hsleep ⊢
    · cases hsleep
    · exact .inl rfl

/-- Without a piece of its call, a thread that has decremented the value stays where it is, or its row is reused. -/
theorem pc_other (h : s.step a = some (s', e)) (ha : ∀ now, a ≠ .exec n now) :
    s'.pc n = s.pc n ∨ s'.pc n = .fresh ∨
      (s.pc n).holds q = false ∧ (s'.pc n).holds q = false ∧ s'.pc n ≠ .fresh := by
  have hplace := step_place h n
  generalize s'.pc n = after at hplace ⊢
  cases hplace with
  | same => exact .inl rfl
  | called _ hfree _ =>
    simp only [free, Bool.and_eq_true, decide_eq_true_eq] at hfree
    rw [hfree.1.2]
    exact .inr (.inr ⟨rfl, rfl, SyncPc.noConfusion⟩)
  | moved hx => exact absurd hx (ha _)
  | created => exact .inr (.inl rfl)
  | activated _ hfresh =>
    rw [hfresh]
    exact .inr (.inr ⟨rfl, rfl, SyncPc.noConfusion⟩)

/-- No piece of a call begins a call. -/
theorem event_exec (h : s.execStep t now = some (s', e)) (t' : Nat) (c : SyncCall) : e ≠ some (.called t' c) := by
  rintro rfl
  cases hs : s.pc t with
  | idle => simp [execStep, hs] at h
  | fresh => simp [execStep, hs] at h
  | check c => simp [execStep, hs] at h
  | post q => simp [execStep, hs, stepPost] at h
  | scan c => simp [execStep, hs] at h
  | priv c k =>
    simp only [execStep, hs, Option.some.injEq] at h
    rcases event_stepPriv (s := s) (t := t) c k now with he | ⟨obj, n, he⟩
    · rw [h] at he
      cases he
    · rw [h] at he
      cases he
  | resume c ret errno =>
    simp only [execStep, hs, Option.some.injEq] at h
    have he := congrArg Prod.snd h
    unfold stepResume at he
    split at he
    all_goals
      first
      | split_ifs at he
      | skip
    all_goals cases he
  | abort q ts => simp [execStep, hs, stepAbort] at h

theorem idle_of_called {c : SyncCall} (h : s.step a = some (s', some (.called t c))) : s.pc t = .idle := by
  cases a with
  | sys b =>
    obtain ⟨e', _, _, _, he⟩ := sys_spec h
    cases b <;> cases e' <;> simp [sysEvent] at he
  | call t' c' =>
    simp only [step, Option.ite_none_right_eq_some, Bool.and_eq_true, Option.some.injEq, Prod.mk.injEq] at h
    obtain ⟨⟨hfree, _⟩, _, he⟩ := h
    injection he with ht
    simp only [free, Bool.and_eq_true, decide_eq_true_eq] at hfree
    exact ht ▸ hfree.1.2
  | exec t' now =>
    obtain ⟨_, hx⟩ := exec_spec h
    exact absurd rfl (event_exec hx t c)
  | newThread t' =>
    obtain ⟨_, _, _, _, _, he⟩ := newThread_spec h
    cases he
  | activateThread id prio =>
    simp [step] at h

/-- A thread that `sem_timedwait` puts to sleep is given its deadline, unless that is in an epoch before. -/
theorem row_semTimedwait {ts : Option Timespec} {k : Option Nat} (now : Nat)
    (hpc : s.pc t = .priv (.semTimedwait q ts) k) (hq : q ≠ 0)
    (hwake : (s.row t).wake = ⟨schedTimevalSecInvalid, 0⟩) :
    (0 < (s.sem q).value ∧ s.rowAfter (.exec t now) t = s.row t) ∨
      (s.rowAfter (.exec t now) t).active = false ∧
        ((s.rowAfter (.exec t now) t).wake = (SyncCall.semTimedwait q ts).deadline ∨
          (s.rowAfter (.exec t now) t).wake = ⟨schedTimevalSecInvalid, 0⟩ ∧
            (SyncCall.semTimedwait q ts).deadline.tvSec < s.sys.sched.usecondCounter) := by
  simp only [rowAfter, hpc, privRow]
  by_cases hvalue : 0 < (s.sem q).value
  · exact .inl ⟨hvalue, if_neg fun h => absurd h.2 (BitVec.not_le.mpr hvalue)⟩
  · rw [if_pos ⟨trivial, BitVec.not_lt.mp hvalue⟩]
    refine .inr ⟨by simp [SchedTask.timedblocked, hq], ?_⟩
    simp only [SchedTask.timedblocked]
    split_ifs with hle
    · exact .inl rfl
    · exact .inr ⟨hwake, not_le.mp hle⟩

end Sync

/-! ### The counts -/

namespace SemAccount

variable {q t n now v : Nat} {x : SemAccount} {a : SyncAction} {e : Option SyncEvent} {s' : Sync}

theorem owed_congr {pc : SyncPc} {row row' : SchedTask} (h : row.noExec = row'.noExec) : pc.owed q row = pc.owed q row' := by
  cases pc with
  | resume c ret errno =>
    simp only [SyncPc.owed, SchedTask.enabled_of_noExec h, SchedTask.active_of_noExec h,
      SchedTask.unblockType_of_noExec h]
  | _ => rfl

theorem enabled_of_owed {pc : SyncPc} {row : SchedTask} (h : pc.owed q row = true) : row.enabled = true := by
  cases pc with
  | resume c ret errno =>
    simp only [SyncPc.owed, Bool.and_eq_true] at h
    exact h.1.1.2
  | _ => cases h

/-- A unit goes from the value to a thread or back, and a thread that takes one waits for it or passes. -/
theorem balance_of_semMove {pc pc' : SyncPc} {dv : Int} {row row' : SchedTask} (hpc : x.sync.pc t = pc)
    (hm : x.sync.SemMove q t now pc pc' dv e) (hen : row.enabled = true) (hact : row.active = true)
    (hrow : row = x.sync.row t) (hrow' : row'.noExec = (x.sync.rowAfter (.exec t now) t).noExec) :
    dv.natAbs ≤ 1 ∧
      dv + (e.any (·.takes q)).toNat + (pc'.holds q).toNat = (e.any (·.posts q)).toNat + (pc.holds q).toNat ∧
      ((pc.waits q row).toNat : Int) ≤ dv + (pc'.waits q row').toNat + (x.passes q (.exec t now)).toNat := by
  cases hm with
  | quiet hholds hholds' hposts htakes _ =>
    rw [SyncPc.waits, hholds, hholds', hposts, htakes]
    refine ⟨by decide, rfl, ?_⟩
    simp only [Bool.false_and, Bool.toNat_false]
    omega
  | post =>
    refine ⟨by decide, by simp [SyncEvent.posts, SyncEvent.takes, SyncPc.holds], ?_⟩
    simp only [SyncPc.waits, SyncPc.holds, Bool.false_and, Bool.toNat_false]
    omega
  | @take c k hc hsleep =>
    have hholds : (SyncPc.resume c 0 none).holds q = true := by simp [SyncPc.holds, hc]
    refine ⟨by decide, by rw [hholds]; rfl, ?_⟩
    rcases hsleep with hpos | hasleep
    -- a unit is there, and the thread passes
    · have hpasses : x.passes q (.exec t now) = true := by
        simp only [passes, hpc, hc, decide_true, Bool.true_and]
        exact decide_eq_true hpos
      rw [hpasses]
      simp only [SyncPc.waits, SyncPc.holds, Bool.false_and, Bool.toNat_false, Bool.toNat_true]
      omega
    -- there is none, and the thread waits
    · rw [← SchedTask.active_of_noExec hrow'] at hasleep
      have hwaits : (SyncPc.resume c 0 none).waits q row' = true := by
        simp [SyncPc.waits, SyncPc.owed, hasleep, SyncPc.holds, hc]
      rw [hwaits]
      simp only [SyncPc.waits, SyncPc.holds, Bool.false_and, Bool.toNat_false, Bool.toNat_true]
      omega
  | @succeed c errno hc hwoken =>
    have hholds : (SyncPc.resume c 0 errno).holds q = true := by simp [SyncPc.holds, hc]
    -- the thread was woken by a post, and the unit is owed to it
    have howed : (SyncPc.resume c 0 errno).owed q row = true := by
      rw [hrow] at hen hact ⊢
      simp only [SyncPc.owed, hc, hen, hact, hwoken, decide_true, Bool.not_false, Bool.and_self]
    refine ⟨by decide, ?_, ?_⟩
    · rw [hholds]
      simp [SyncEvent.posts, SyncEvent.takes, SyncPc.holds, hc]
    · rw [SyncPc.waits, hholds, howed]
      simp only [SyncPc.waits, SyncPc.holds, Bool.not_true, Bool.and_false, Bool.false_and, Bool.toNat_false]
      omega
  | @timedOut ts errno hsleep =>
    have hholds : (SyncPc.resume (.semTimedwait q ts) 0 errno).holds q = true := by simp [SyncPc.holds, SyncCall.taken]
    refine ⟨by decide, ?_, ?_⟩
    · rw [hholds]
      simp [SyncPc.holds]
    -- the unit the thread gave up is owed back
    · have hwaits : (SyncPc.abort q ts).waits q row' = true := by simp [SyncPc.waits, SyncPc.holds, SyncPc.owed]
      have hle : ((SyncPc.resume (.semTimedwait q ts) 0 errno).waits q row).toNat ≤ 1 := Bool.toNat_le _
      rw [hwaits, Bool.toNat_true]
      omega
  | @abort ts =>
    have hle : ((SyncPc.abort q ts).waits q row).toNat ≤ 1 := Bool.toNat_le _
    refine ⟨by decide, by simp [SyncEvent.posts, SyncEvent.takes, SyncPc.holds], ?_⟩
    omega

theorem ids_note (h : x.sync.step a = some (s', e)) : s'.sys.sched.ids = x.sync.sys.sched.ids := by
  unfold Sched.ids
  rw [(Sync.step_epoch h).1]

theorem holds_other (h : x.sync.step a = some (s', e)) (ha : ∀ now, a ≠ .exec n now) :
    ((x.sync.pc n).holds q).toNat =
      ((s'.pc n).holds q).toNat + ((x.sync.pc n).holds q && decide (s'.pc n = .fresh)).toNat := by
  rcases Sync.pc_other (q := q) h ha with hpc | hpc | ⟨hholds, hholds', hfresh⟩
  · rw [hpc]
    by_cases hfresh : x.sync.pc n = .fresh
    · rw [hfresh]
      rfl
    · rw [decide_eq_false hfresh, Bool.and_false]
      rfl
  · rw [hpc, decide_eq_true rfl, Bool.and_true]
    exact (Nat.zero_add _).symm
  · rw [hholds, hholds']
    rfl

/-- A waiting thread that does not act still waits, unless it is woken or its row is reused. -/
theorem waits_other (h : x.sync.step a = some (s', e)) (ha : ∀ now, a ≠ .exec n now)
    (hw : (x.sync.pc n).waits q (x.sync.row n) = true) :
    (s'.pc n).waits q (s'.row n) = true ∨
      ((x.sync.row n).enabled && (x.sync.pc n).waits q (x.sync.row n) &&
        (x.sync.pc n).owed q (x.sync.rowAfter a n)) = true ∨
      ((x.sync.pc n).holds q && decide (s'.pc n = .fresh)) = true := by
  have hholds : (x.sync.pc n).holds q = true := (Bool.and_eq_true_iff.mp hw).1
  rcases Sync.pc_other (q := q) h ha with hpc | hpc | ⟨hholds', _⟩
  · have howed : (s'.pc n).owed q (s'.row n) = (x.sync.pc n).owed q (x.sync.rowAfter a n) := by
      rw [hpc]
      exact owed_congr (Sync.step_row h n)
    cases hafter : (x.sync.pc n).owed q (x.sync.rowAfter a n) with
    | false =>
      left
      rw [SyncPc.waits, howed, hafter, hpc, hholds]
      rfl
    | true =>
      right
      left
      have hen : (s'.row n).enabled = true := enabled_of_owed (howed.trans hafter)
      rcases Sync.enabled_before h hen with hen | hfresh
      · rw [hen, hw]
        rfl
      · rw [← hpc, hfresh] at hholds
        cases hholds
  · right
    right
    rw [hpc, hholds]
    rfl
  · cases hholds.symm.trans hholds'

theorem holding_other (h : x.sync.step a = some (s', e)) (ha : ∀ t now, a ≠ .exec t now) :
    x.holding q = (x.note q s' e).holding q + x.losing q s' := by
  unfold holding losing
  rw [show (x.note q s' e).sync.sys.sched.ids = _ from ids_note h]
  exact Tally.countP_eq_add fun n _ => holds_other h (ha n)

theorem waiting_other (h : x.sync.step a = some (s', e)) (ha : ∀ t now, a ≠ .exec t now) :
    x.waiting q ≤ (x.note q s' e).waiting q + (x.granted q a + x.losing q s') := by
  unfold waiting
  rw [show (x.note q s' e).sync.sys.sched.ids = _ from ids_note h]
  exact Tally.countP_le_add fun n _ hw => waits_other h (ha n) hw

/-- No row is reused by a piece of a call. -/
theorem losing_exec (h : x.sync.step (.exec t now) = some (s', e)) : x.losing q s' = 0 := by
  refine List.countP_eq_zero.mpr fun n _ => ?_
  have hplace := Sync.step_place h n
  generalize s'.pc n = after at hplace ⊢
  cases hplace with
  | same =>
    cases hpc : x.sync.pc n <;> simp [SyncPc.holds]
  | moved _ _ hnext =>
    generalize x.sync.pc n = before at hnext ⊢
    cases hnext with
    | @passed c => cases c <;> simp [Sync.afterCheck]
    | _ => simp
  | _ => contradiction

theorem pc_exec_of_ne (h : x.sync.step (.exec t now) = some (s', e)) (hn : n ≠ t) : s'.pc n = x.sync.pc n := by
  obtain ⟨_, hx⟩ := Sync.exec_spec h
  obtain ⟨pc, hpc⟩ := Sync.pc_exec hx
  rw [hpc, update_of_ne hn]

theorem mem_ids_of_exec (h : x.sync.step (.exec t now) = some (s', e)) : t ∈ x.sync.sys.sched.ids := by
  obtain ⟨hcan, _⟩ := Sync.exec_spec h
  simp only [Sys.canRun, Bool.and_eq_true, decide_eq_true_eq] at hcan
  exact hcan.1.1

theorem nodup_ids (sched : Sched) : sched.ids.Nodup := List.nodup_range.sublist (List.drop_sublist ..)

theorem holding_exec (h : x.sync.step (.exec t now) = some (s', e)) :
    (x.note q s' e).holding q + ((x.sync.pc t).holds q).toNat = x.holding q + ((s'.pc t).holds q).toNat := by
  unfold holding
  rw [show (x.note q s' e).sync.sys.sched.ids = _ from ids_note h]
  refine Tally.countP_of_forall_ne (p := fun n => (s'.pc n).holds q) (q := fun n => (x.sync.pc n).holds q) (nodup_ids _)
    (mem_ids_of_exec h) fun n _ hn => ?_
  exact congrArg (SyncPc.holds q) (pc_exec_of_ne h hn)

/-- A piece of a call of thread `t` changes the place of no other thread; those that wait still wait or are woken. -/
theorem waiting_exec (h : x.sync.step (.exec t now) = some (s', e)) :
    x.waiting q + ((s'.pc t).waits q (s'.row t)).toNat ≤
      (x.note q s' e).waiting q + x.granted q (.exec t now) + ((x.sync.pc t).waits q (x.sync.row t)).toNat := by
  have hone := Tally.countP_of_forall_ne
    (p := fun n => if n = t then (s'.pc t).waits q (s'.row t) else (x.sync.pc n).waits q (x.sync.row n))
    (q := fun n => (x.sync.pc n).waits q (x.sync.row n)) (nodup_ids _) (mem_ids_of_exec h) fun n _ hn => if_neg hn
  rw [if_pos rfl] at hone
  have hrest : x.sync.sys.sched.ids.countP
      (fun n => if n = t then (s'.pc t).waits q (s'.row t) else (x.sync.pc n).waits q (x.sync.row n)) ≤
        (x.note q s' e).waiting q + (x.granted q (.exec t now) + x.losing q s') := by
    unfold waiting
    rw [show (x.note q s' e).sync.sys.sched.ids = _ from ids_note h]
    refine Tally.countP_le_add fun n _ hw => ?_
    by_cases hn : n = t
    · rw [if_pos hn] at hw
      exact .inl (hn ▸ hw)
    · rw [if_neg hn] at hw
      refine waits_other h (fun now' he => hn ?_) hw
      injection he with ht _
      exact ht.symm
  rw [losing_exec h] at hrest
  have hwaiting : x.waiting q = x.sync.sys.sched.ids.countP fun n => (x.sync.pc n).waits q (x.sync.row n) := rfl
  omega

/-! ### The invariant -/

variable (q v x) in
/-- What holds in every state of a covered run. -/
structure Kept : Prop where
  one : x.sync.OneCall
  typed : x.sync.WellTyped
  sysTyped : x.sync.SysTyped
  awake : x.sync.NoneAwaited
  epoch : x.sync.sys.sched.usecondCounter < 2 ^ 32
  scan : ∀ t c, x.sync.pc t = .scan c → c.taken = none
  value : x.value q + x.taken + x.holding q + x.lost = v + x.posted
  safe : 0 ≤ x.value q + x.waiting q + x.lost
  /-- the wake time of a sleeper is its deadline, or the deadline is in an epoch before -/
  wake : ∀ n ts errno, x.sync.pc n = .resume (.semTimedwait q ts) 0 errno → (x.sync.row n).enabled = true →
    (x.sync.row n).active = false → (x.sync.row n).wake = (SyncCall.semTimedwait q ts).deadline ∨
      (x.sync.row n).wake = ⟨schedTimevalSecInvalid, 0⟩ ∧
        (SyncCall.semTimedwait q ts).deadline.tvSec < schedTimevalSecInvalid
  passed : ∀ n ts errno, x.sync.pc n = .resume (.semTimedwait q ts) 0 errno → (x.sync.row n).active = true →
    (x.sync.row n).unblockType = .sleep → x.passed n = true
  aborts : ∀ n ts, x.sync.pc n = .abort q ts → x.passed n = true

theorem Initial.kept (h : x.Initial q v) : x.Kept q v where
  one t := .inl (h.idle t).1
  typed t := by
    rw [(h.idle t).1]
    trivial
  sysTyped t := by
    rw [(h.idle t).2]
    trivial
  awake := h.awake
  epoch := h.epoch
  scan t c hpc := nomatch hpc.symm.trans (h.idle t).1
  value := by
    have hholding : x.holding q = 0 := by
      refine List.countP_eq_zero.mpr fun n _ => ?_
      rw [(h.idle n).1]
      exact Bool.false_ne_true
    rw [h.value, h.taken, hholding, h.lost, h.posted]
    rfl
  safe := by
    rw [h.value]
    omega
  wake n ts errno hpc := nomatch hpc.symm.trans (h.idle n).1
  passed n ts errno hpc := nomatch hpc.symm.trans (h.idle n).1
  aborts n ts hpc := nomatch hpc.symm.trans (h.idle n).1

/-- Only a call that looks for a sleeper scans. -/
theorem Kept.step_scan (hk : x.Kept q v) (h : x.sync.step a = some (s', e)) {c : SyncCall} (hpc : s'.pc t = .scan c) :
    c.taken = none := by
  have hplace := Sync.step_place h t
  rw [hpc] at hplace
  generalize hafter : SyncPc.scan c = after at hplace
  cases hplace with
  | same => exact hk.scan t c hafter.symm
  | moved _ _ hnext =>
    generalize x.sync.pc t = before at hnext
    cases hnext with
    | @passed c' =>
      cases c' <;> simp only [Sync.afterCheck, SyncPc.scan.injEq, reduceCtorEq] at hafter
      all_goals
        subst hafter
        rfl
    | post =>
      injection hafter with hafter
      subst hafter
      rfl
    | _ => cases hafter
  | _ => cases hafter

/-- Without a piece of a call no value changes, and nothing is posted or taken. -/
theorem sem_other (h : x.sync.step a = some (s', e)) (ha : ∀ t now, a ≠ .exec t now) :
    s'.sem = x.sync.sem ∧ e.any (·.posts q) = false ∧ e.any (·.takes q) = false := by
  cases a with
  | sys b =>
    obtain ⟨e', _, hs', _, he⟩ := Sync.sys_spec h
    refine ⟨by rw [hs'], ?_⟩
    rw [he]
    cases b with
    | matchEvent now => exact ⟨rfl, rfl⟩
    | overflowEvent now => exact ⟨rfl, rfl⟩
    | _ => cases e' <;> exact ⟨rfl, rfl⟩
  | exec t now => exact absurd rfl (ha t now)
  | newThread t =>
    obtain ⟨_, _, _, _, rfl, rfl⟩ := Sync.newThread_spec h
    exact ⟨rfl, rfl, rfl⟩
  | _ =>
    simp only [Sync.step, Option.ite_none_right_eq_some, Option.some.injEq, Prod.mk.injEq] at h
    obtain ⟨_, rfl, rfl⟩ := h
    exact ⟨rfl, rfl, rfl⟩

/-- The value, and the threads that have decremented it. -/
theorem Kept.step_value (hk : x.Kept q v) (h : x.sync.step a = some (s', e)) (hcov : x.Covered q a) :
    (x.note q s' e).value q + (x.note q s' e).taken + (x.note q s' e).holding q + (x.note q s' e).lost =
        v + (x.note q s' e).posted ∧
      0 ≤ (x.note q s' e).value q + (x.note q s' e).waiting q + (x.note q s' e).lost := by
  have hvalue := hk.value
  have hcovered := hcov.units
  by_cases ha : ∃ t now, a = .exec t now
  · obtain ⟨t, now, rfl⟩ := ha
    obtain ⟨hcan, hx⟩ := Sync.exec_spec h
    obtain ⟨pc', dv, hpc, hsem, hmove⟩ := Sync.exec_sem (q := q) (hk.typed t) (hk.scan t) hx
    have hpc' : s'.pc t = pc' := by rw [hpc, update_self]
    simp only [Sys.canRun, Bool.and_eq_true] at hcan
    obtain ⟨hone, hunits, hmove⟩ := balance_of_semMove rfl hmove hcan.1.2 hcan.2 rfl (Sync.step_row h t)
    have hholding := holding_exec (q := q) h
    have hwaiting := waiting_exec (q := q) h
    have hlosing := losing_exec (q := q) h
    have hnew : (x.note q s' e).value q = x.value q + dv := (congrArg BitVec.toInt hsem).trans (toInt_value hcov.range hone)
    have hposted : (x.note q s' e).posted = x.posted + (e.any (·.posts q)).toNat := rfl
    have htaken : (x.note q s' e).taken = x.taken + (e.any (·.takes q)).toNat := rfl
    have hlost : (x.note q s' e).lost = x.lost + x.losing q s' := rfl
    rw [hpc'] at hholding hwaiting
    change x.waiting q + _ ≤ _ + ((x.sync.pc t).waits q (x.sync.sys.sched.table t)).toNat at hwaiting
    rw [hnew, hposted, htaken, hlost, hlosing]
    omega
  · have ha : ∀ t now, a ≠ .exec t now := fun t now he => ha ⟨t, now, he⟩
    obtain ⟨hsem, hposts, htakes⟩ := sem_other (q := q) h ha
    have hholding := holding_other (q := q) h ha
    have hwaiting := waiting_other (q := q) h ha
    have hnew : (x.note q s' e).value q = x.value q := by
      unfold SemAccount.value
      rw [← hsem]
      rfl
    have hposted : (x.note q s' e).posted = x.posted + (e.any (·.posts q)).toNat := rfl
    have htaken : (x.note q s' e).taken = x.taken + (e.any (·.takes q)).toNat := rfl
    have hlost : (x.note q s' e).lost = x.lost + x.losing q s' := rfl
    rw [hnew, hposted, htaken, hlost, hposts, htakes]
    simp only [Bool.toNat_false]
    omega

theorem Kept.step_epoch (hk : x.Kept q v) (h : x.sync.step a = some (s', e)) :
    s'.sys.sched.usecondCounter < 2 ^ 32 := by
  rw [(Sync.step_epoch h).2]
  split
  · exact Nat.mod_lt _ (by decide)
  · exact hk.epoch

/-- The place of a thread that has gone to sleep or still sleeps in `sem_timedwait`. -/
theorem Kept.resumed (hk : x.Kept q v) (h : x.sync.step a = some (s', e)) {ts : Option Timespec} {errno : Option Errno}
    (hpc : s'.pc n = .resume (.semTimedwait q ts) 0 errno) :
    (x.sync.pc n = .resume (.semTimedwait q ts) 0 errno ∧ Sync.actsAs n a = false) ∨
      ∃ now k, a = .exec n now ∧ x.sync.pc n = .priv (.semTimedwait q ts) k := by
  by_cases ha : ∃ now, a = .exec n now
  · obtain ⟨now, rfl⟩ := ha
    right
    obtain ⟨_, hx⟩ := Sync.exec_spec h
    obtain ⟨pc', dv, hupdate, _, hmove⟩ := Sync.exec_sem (q := q) (hk.typed n) (hk.scan n) hx
    rw [hupdate, update_self] at hpc
    subst hpc
    generalize hbefore : x.sync.pc n = before at hmove
    cases hmove with
    | quiet _ hholds' => exact absurd hholds' (by simp [SyncPc.holds, SyncCall.taken])
    | @take c k _ _ => exact ⟨now, k, rfl, rfl⟩
  · have ha : ∀ now, a ≠ .exec n now := fun now he => ha ⟨now, he⟩
    left
    rcases Sync.pc_other (q := q) h ha with hsame | hfresh | ⟨_, hholds', _⟩
    · rw [← hsame, hpc]
      refine ⟨rfl, Sync.actsAs_of_ne_idle hk.one h ?_ ha⟩
      rw [← hsame, hpc]
      exact SyncPc.noConfusion
    · cases hpc.symm.trans hfresh
    · rw [hpc] at hholds'
      exact absurd hholds' (by simp [SyncPc.holds, SyncCall.taken])

theorem Kept.step_wake (hk : x.Kept q v) (h : x.sync.step a = some (s', e)) {ts : Option Timespec} {errno : Option Errno}
    (hpc : s'.pc n = .resume (.semTimedwait q ts) 0 errno) (hen : (s'.row n).enabled = true)
    (hact : (s'.row n).active = false) :
    (s'.row n).wake = (SyncCall.semTimedwait q ts).deadline ∨ (s'.row n).wake = ⟨schedTimevalSecInvalid, 0⟩ ∧
      (SyncCall.semTimedwait q ts).deadline.tvSec < schedTimevalSecInvalid := by
  have hrow := Sync.step_row h n
  rw [SchedTask.enabled_of_noExec hrow] at hen
  rw [SchedTask.active_of_noExec hrow] at hact
  rw [SchedTask.wake_of_noExec hrow]
  rcases hk.resumed h hpc with ⟨hbefore, ha⟩ | ⟨now, k, rfl, hbefore⟩
  · have hfresh : s'.pc n ≠ .fresh := by
      rw [hpc]
      exact SyncPc.noConfusion
    rcases Sync.other_row h ha hfresh with hsame | hawake | hended
    · rw [hsame] at hen hact ⊢
      exact hk.wake n ts errno hbefore hen hact
    · cases hact.symm.trans hawake
    · cases hen.symm.trans hended
  · have hgood := hk.typed n
    rw [hbefore] at hgood
    have hcan := (Sync.exec_spec h).1
    simp only [Sys.canRun, Bool.and_eq_true] at hcan
    rcases Sync.row_semTimedwait now hbefore hgood.2 (hk.awake n hcan.2) with ⟨_, hsame⟩ | ⟨_, hwake⟩
    · rw [hsame] at hact
      cases hact.symm.trans hcan.2
    · refine hwake.imp_right fun hpast => ⟨hpast.1, ?_⟩
      have hepoch := hk.epoch
      have hinvalid : schedTimevalSecInvalid = 2 ^ 32 - 1 := rfl
      omega

/-- A deadline that has come is noted until the thread begins its next call. -/
theorem passed_note (h : x.sync.step a = some (s', e)) (hne : x.sync.pc n ≠ .idle) (hpassed : x.passed n = true) :
    (x.note q s' e).passed n = true := by
  show x.notePassed e n = true
  unfold notePassed
  split
  · have hidle := Sync.idle_of_called h
    refine (if_neg fun htn => ?_).trans hpassed
    exact hne (htn ▸ hidle)
  · rw [hpassed, Bool.true_or]
  · exact hpassed

theorem Kept.step_passed (hk : x.Kept q v) (h : x.sync.step a = some (s', e)) (hcov : x.Covered q a)
    {ts : Option Timespec} {errno : Option Errno} (hpc : s'.pc n = .resume (.semTimedwait q ts) 0 errno)
    (hact : (s'.row n).active = true) (hsleep : (s'.row n).unblockType = .sleep) :
    (x.note q s' e).passed n = true := by
  have hrow := Sync.step_row h n
  rw [SchedTask.active_of_noExec hrow] at hact
  rw [SchedTask.unblockType_of_noExec hrow] at hsleep
  rcases hk.resumed h hpc with ⟨hbefore, ha⟩ | ⟨now, k, rfl, hbefore⟩
  · have hne : x.sync.pc n ≠ .idle := by
      rw [hbefore]
      exact SyncPc.noConfusion
    have hfresh : s'.pc n ≠ .fresh := by
      rw [hpc]
      exact SyncPc.noConfusion
    rcases Sync.timedOut_before h ha hfresh hsleep with hsame | ⟨now, rfl, hen, hasleep, hreached⟩
    · rw [hsame] at hact hsleep
      exact passed_note h hne (hk.passed n ts errno hbefore hact hsleep)
    · -- the timer has found the wake time, and with it the deadline
      show (x.passed n || (x.sync.pc n).deadline.any (·.reached now)) = true
      rw [Bool.or_eq_true]
      right
      rw [hbefore]
      show (SyncCall.semTimedwait q ts).deadline.reached now = true
      rcases hk.wake n ts errno hbefore hen hasleep with hwake | ⟨hwake, hpast⟩
      · rw [← hwake]
        exact hreached
      · rw [hwake] at hreached
        simp only [SchedTimeval.reached, Bool.or_eq_true, Bool.and_eq_true, decide_eq_true_eq] at hreached ⊢
        omega
  · -- a call that has not slept has found a unit, and its thread was not woken by a time-out before
    have hgood := hk.typed n
    rw [hbefore] at hgood
    have hcan := (Sync.exec_spec h).1
    simp only [Sys.canRun, Bool.and_eq_true] at hcan
    rcases Sync.row_semTimedwait now hbefore hgood.2 (hk.awake n hcan.2) with ⟨hpos, hsame⟩ | ⟨hasleep, _⟩
    · rw [hsame] at hsleep
      have hstale := hcov.fresh
      simp only [stale, hbefore, hsleep, decide_true, Bool.true_and, Bool.and_true, decide_eq_false_iff_not] at hstale
      exact absurd hpos hstale
    · cases hact.symm.trans hasleep

theorem Kept.step_aborts (hk : x.Kept q v) (h : x.sync.step a = some (s', e)) {ts : Option Timespec}
    (hpc : s'.pc n = .abort q ts) : (x.note q s' e).passed n = true := by
  by_cases ha : ∃ now, a = .exec n now
  · obtain ⟨now, rfl⟩ := ha
    obtain ⟨hcan, hx⟩ := Sync.exec_spec h
    obtain ⟨pc', dv, hupdate, _, hmove⟩ := Sync.exec_sem (q := q) (hk.typed n) (hk.scan n) hx
    rw [hupdate, update_self] at hpc
    subst hpc
    simp only [Sys.canRun, Bool.and_eq_true] at hcan
    generalize hbefore : x.sync.pc n = before at hmove
    cases hmove with
    | quiet _ hholds' => exact absurd hholds' (by simp [SyncPc.holds])
    | @timedOut _ errno hsleep =>
      refine passed_note h ?_ (hk.passed n ts errno hbefore hcan.2 hsleep)
      rw [hbefore]
      exact SyncPc.noConfusion
  · have ha : ∀ now, a ≠ .exec n now := fun now he => ha ⟨now, he⟩
    rcases Sync.pc_other (q := q) h ha with hsame | hfresh | ⟨_, hholds', _⟩
    · refine passed_note h ?_ (hk.aborts n ts (hsame.symm.trans hpc))
      rw [← hsame, hpc]
      exact SyncPc.noConfusion
    · cases hpc.symm.trans hfresh
    · rw [hpc] at hholds'
      exact absurd hholds' (by simp [SyncPc.holds])

theorem step_spec {x' : SemAccount} (h : x.step q a = some (x', e)) :
    ∃ s', x.sync.step a = some (s', e) ∧ x' = x.note q s' e := by
  simp only [step, Option.map_eq_some_iff] at h
  obtain ⟨⟨s', e'⟩, hs, heq⟩ := h
  injection heq with hx he
  exact ⟨s', he ▸ hs, by rw [← hx, ← he]⟩

theorem Kept.step {x' : SemAccount} (hk : x.Kept q v) (hcov : x.Covered q a) (h : x.step q a = some (x', e)) :
    x'.Kept q v := by
  obtain ⟨s', hs, rfl⟩ := step_spec h
  obtain ⟨hvalue, hsafe⟩ := hk.step_value hs hcov
  exact {
    one := hk.one.step hs
    typed := hk.typed.step hs
    sysTyped := hk.sysTyped.step hs
    awake := hk.awake.step hk.typed hk.sysTyped hs
    epoch := hk.step_epoch hs
    scan := fun _ _ hpc => hk.step_scan hs hpc
    value := hvalue
    safe := hsafe
    wake := fun _ _ _ hpc hen hact => hk.step_wake hs hpc hen hact
    passed := fun _ _ _ hpc hact hsleep => hk.step_passed hs hcov hpc hact hsleep
    aborts := fun _ _ hpc => hk.step_aborts hs hpc }

end SemAccount

/-- Two threads, and the semaphore at `76` with the value `v`. -/
def SemAccount.start (v : BitVec 32) : SemAccount where
  sync := Sync.start 3 (fun _ => 0) (fun _ => 0) v
  posted := 0
  taken := 0
  lost := 0
  passed := fun _ => false

end CoActionOS
