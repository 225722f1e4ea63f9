import CoActionOS.Lib.FoldMax
import CoActionOS.Lib.Run
import CoActionOS.Sched.Rows
import Mathlib.Data.Nat.Basic

/-!
# The compare register that all sleepers share

One channel of the microsecond timer wakes every task that sleeps in the current epoch: `sched_priv_timedblock` lowers
its compare value to an earlier deadline, `priv_usecond_match_event` sets it anew to the earliest that is left.  A
sleeper is covered as long as the value is not above its wake time and the timer has not come to it.

`sched_priv_timedblock` takes a deadline that is less than 40 microseconds ahead, or over, for one that needs no
event, and returns if there is nothing else to block on.  A task that blocks on an object then sleeps all the same:
without an event, and without a wake time if the epoch of the deadline is over.  `covered_iff` says exactly which steps
leave all sleepers covered.
-/

namespace CoActionOS

namespace Sched

variable {s : Sched}

/-! ### The compare value after each call -/

@[simp]
theorem sleepOc_updateOnWake (p : Int) : (s.schedPrivUpdateOnWake p).sleepOc = s.sleepOc := by
  unfold schedPrivUpdateOnWake
  split_ifs <;> rfl

@[simp]
theorem sleepOc_updateOnSleep (id : Nat) : (s.schedPrivUpdateOnSleep id).sleepOc = s.sleepOc := by
  unfold schedPrivUpdateOnSleep schedPrivUpdateOnStopped
  dsimp only
  split_ifs
  · exact sleepOc_updateOnWake _
  · rfl

theorem sleepOc_timedWake (s : Sched) (id : Nat) (absTime : SchedTimeval) (now : Nat) :
    (s.timedWake id absTime now).1.sleepOc =
      if absTime.tvSec = s.usecondCounter ∧ now + 40 < absTime.tvUsec then min absTime.tvUsec s.sleepOc
      else s.sleepOc := by
  unfold timedWake
  by_cases hepoch : absTime.tvSec = s.usecondCounter
  · rw [if_pos (Nat.le_of_eq hepoch.symm)]
    dsimp only
    rw [usecondCounter_modify, if_pos hepoch]
    by_cases hlate : now + 40 < absTime.tvUsec
    · rw [if_pos hlate, if_pos ⟨hepoch, hlate⟩]
      rfl
    · rw [if_neg hlate, if_neg fun h => hlate h.2]
      rfl
  · rw [if_neg (show ¬ (absTime.tvSec = s.usecondCounter ∧ now + 40 < absTime.tvUsec) from fun h => hepoch h.1)]
    by_cases hle : absTime.tvSec ≥ s.usecondCounter
    · rw [if_pos hle]
      dsimp only
      rw [usecondCounter_modify, if_neg hepoch]
      rfl
    · rw [if_neg hle]

/-- A deadline that can be waited for in this epoch lowers the compare value to it. -/
theorem sleepOc_timedblock (s : Sched) (id obj : Nat) (absTime : SchedTimeval) (now : Nat) :
    (s.schedPrivTimedblock id obj absTime now).sleepOc =
      if absTime.tvSec = s.usecondCounter ∧ now + 40 < absTime.tvUsec then min absTime.tvUsec s.sleepOc
      else s.sleepOc := by
  have hwake := sleepOc_timedWake (s.modify id fun t => { t with blockObject := obj }) id absTime now
  unfold schedPrivTimedblock
  dsimp only
  rw [apply_ite sleepOc, sleepOc_updateOnSleep, ite_self, hwake]
  rfl

/-- The compare value of the channel that resets the timer. -/
def overflow : Nat := schedTimevalSeconds * 1000000

/-- The match event leaves the task asleep, in the current epoch. -/
def left (s : Sched) (now i : Nat) : Bool :=
  (s.table i).enabled && !(s.table i).active && !s.due now i && (s.table i).wake.tvSec == s.usecondCounter

/-- The value is the earliest wake time that is left before the end of the epoch, or beyond the end. -/
theorem sleepOc_matchEvent (s : Sched) (now : Nat) :
    (∃ i ∈ s.ids, s.left now i = true ∧ (s.table i).wake.tvUsec < overflow ∧
      (s.privUsecondMatchEvent now).sleepOc = (s.table i).wake.tvUsec ∧
      ∀ j ∈ s.ids, s.left now j = true → (s.table i).wake.tvUsec ≤ (s.table j).wake.tvUsec) ∨
    (s.privUsecondMatchEvent now).sleepOc = overflow + 1 ∧
      ∀ i ∈ s.ids, s.left now i = true → overflow ≤ (s.table i).wake.tvUsec := by
  obtain ⟨hle, hall, hcases⟩ :=
    foldl_min_spec (s.left now) (fun i => (s.table i).wake.tvUsec) s.ids overflow
  have hoc : (s.privUsecondMatchEvent now).sleepOc =
      let next := s.ids.foldl (fun n i => if s.left now i && (s.table i).wake.tvUsec < n then
        (s.table i).wake.tvUsec else n) overflow
      if next < overflow then next else overflow + 1 := by
    unfold privUsecondMatchEvent
    rw [sleepOc_updateOnWake]
    rfl
  dsimp only at hoc
  rw [hoc]
  split_ifs with hnext
  · left
    obtain ⟨i, hi, hleft, heq⟩ := hcases.resolve_left hnext.ne
    refine ⟨i, hi, hleft, heq.trans_lt hnext, heq.symm, fun j hj hjleft => ?_⟩
    rw [heq]
    exact hall j hj hjleft
  · right
    have heq := hle.eq_of_not_lt hnext
    refine ⟨rfl, fun i hi hleft => ?_⟩
    rw [← heq]
    exact hall i hi hleft

/-! ### The statement -/

/-- The task is enabled and inactive. -/
structure Asleep (s : Sched) (i : Nat) : Prop where
  mem : i ∈ s.ids
  enabled : (s.table i).enabled = true
  inactive : (s.table i).active = false

/-- The task is inactive with a wake time on record that is in the current epoch. -/
structure Sleeps (s : Sched) (i : Nat) : Prop extends s.Asleep i where
  epoch : (s.table i).wake.tvSec = s.usecondCounter
  finite : (s.table i).wake.tvSec ≠ schedTimevalSecInvalid

end Sched

/-- The scheduler with the count of the microsecond timer, and for each task the deadline it has handed over last. -/
structure Timing where
  sched : Sched
  usecondTmr : Nat
  deadline : Nat → SchedTimeval

namespace Timing

open Function

/-- Each step finds the timer at `now`. -/
inductive Action
  | timedblock (id blockObject : Nat) (absTime : SchedTimeval) (now : Nat)
  | matchEvent (now : Nat)
  | overflowEvent (now : Nat)
  /-- another call makes the task active -/
  | wake (id : Nat) (unblockType : SchedUnblockType) (now : Nat)

variable (x : Timing)

/-- The timer is reset before it reads `overflow`; only active tasks call. -/
def step : Action → Option (Timing × Option Unit)
  | .timedblock id obj absTime now =>
    if now < Sched.overflow ∧ id ∈ x.sched.ids ∧ (x.sched.table id).enabled ∧ (x.sched.table id).active then
      some (⟨x.sched.schedPrivTimedblock id obj absTime now, now, update x.deadline id absTime⟩, none)
    else none
  | .matchEvent now =>
    if now < Sched.overflow then some (⟨x.sched.privUsecondMatchEvent now, now, x.deadline⟩, none) else none
  | .overflowEvent now =>
    if now < Sched.overflow then some (⟨x.sched.usecondOverflowEvent now, now, x.deadline⟩, none) else none
  | .wake id u now =>
    if now < Sched.overflow then some (⟨x.sched.privWake id u, now, x.deadline⟩, none) else none

/-- Every sleeper of the current epoch has a timer event before it, and who waits with a deadline has a wake time. -/
structure Covered : Prop where
  ahead : ∀ i, x.sched.Sleeps i →
    x.sched.sleepOc ≤ (x.sched.table i).wake.tvUsec ∧ x.usecondTmr < x.sched.sleepOc
  recorded : ∀ i, x.sched.Asleep i → (x.deadline i).tvSec ≠ schedTimevalSecInvalid →
    (x.sched.table i).wake.tvSec ≠ schedTimevalSecInvalid

/-- If the wake time is in the current epoch, an event is to come that is not after it. -/
def Served (s : Sched) (now : Nat) (wake : SchedTimeval) : Prop :=
  wake.tvSec = s.usecondCounter → wake.tvSec ≠ schedTimevalSecInvalid → s.sleepOc ≤ wake.tvUsec ∧ now < s.sleepOc

/-- Before a task that is to wake at the very end of the current epoch another one wakes. -/
def Early (s : Sched) (now : Nat) : Prop :=
  (∃ i, s.Sleeps i ∧ (s.table i).wake.tvUsec = Sched.overflow) →
    ∃ j, s.Sleeps j ∧ now < (s.table j).wake.tvUsec ∧ (s.table j).wake.tvUsec < Sched.overflow

/-- The steps that leave every sleeper covered.  The timer has not come to the compare value where a sleeper relies on
it; and a call with an object to block on has a deadline that can be waited for, or one that an event to come serves. -/
def Keeps : Action → Prop
  | .timedblock id obj absTime now =>
    ((∃ i, x.sched.Sleeps i) → now < x.sched.sleepOc) ∧
      if absTime.timeSleep x.sched.usecondCounter now then
        absTime.tvSec = x.sched.usecondCounter → absTime.tvSec ≠ schedTimevalSecInvalid → now < x.sched.sleepOc
      else if x.sched.usecondCounter ≤ absTime.tvSec then obj ≠ 0 → Served x.sched now absTime
      else
        obj ≠ 0 →
          (absTime.tvSec ≠ schedTimevalSecInvalid → (x.sched.table id).wake.tvSec ≠ schedTimevalSecInvalid) ∧
            Served x.sched now (x.sched.table id).wake
  | .matchEvent now => Early x.sched now
  | .overflowEvent now =>
    Early { x.sched with usecondCounter := (x.sched.usecondCounter + 1) % 2 ^ 32 } now
  | .wake id _ now => (∃ i, i ≠ id ∧ x.sched.Sleeps i) → now < x.sched.sleepOc

/-! ### One row -/

section

variable {s s' : Sched} {now : Nat} {i id : Nat}

theorem asleep_congr (hids : s'.ids = s.ids) (hrow : (s'.table i).noExec = (s.table i).noExec) :
    s'.Asleep i ↔ s.Asleep i := by
  constructor
  · rintro ⟨hmem, henabled, hinactive⟩
    rw [hids] at hmem
    rw [SchedTask.enabled_of_noExec hrow] at henabled
    rw [SchedTask.active_of_noExec hrow] at hinactive
    exact ⟨hmem, henabled, hinactive⟩
  · rintro ⟨hmem, henabled, hinactive⟩
    rw [← hids] at hmem
    rw [← SchedTask.enabled_of_noExec hrow] at henabled
    rw [← SchedTask.active_of_noExec hrow] at hinactive
    exact ⟨hmem, henabled, hinactive⟩

theorem sleeps_iff : s.Sleeps i ↔ s.Asleep i ∧ (s.table i).wake.tvSec = s.usecondCounter ∧
    (s.table i).wake.tvSec ≠ schedTimevalSecInvalid :=
  ⟨fun h => ⟨h.toAsleep, h.epoch, h.finite⟩, fun h => ⟨h.1, h.2.1, h.2.2⟩⟩

theorem sleeps_congr (hsame : Sched.SameEpoch s s') (hrow : (s'.table i).noExec = (s.table i).noExec) :
    s'.Sleeps i ↔ s.Sleeps i := by
  rw [sleeps_iff, sleeps_iff, asleep_congr hsame.ids hrow, SchedTask.wake_of_noExec hrow, hsame.usecondCounter]

/-- After a call that changes one row and does not raise the compare value. -/
theorem covered_row_iff {x : Timing} (hx : x.Covered) {d : Nat → SchedTimeval} (hsame : Sched.SameEpoch x.sched s')
    (hrow : ∀ i, i ≠ id → (s'.table i).noExec = (x.sched.table i).noExec) (hd : ∀ i, i ≠ id → d i = x.deadline i)
    (hle : s'.sleepOc ≤ x.sched.sleepOc) :
    Covered ⟨s', now, d⟩ ↔
      ((∃ i, i ≠ id ∧ x.sched.Sleeps i) → now < s'.sleepOc) ∧
        (s'.Asleep id → ((d id).tvSec ≠ schedTimevalSecInvalid → (s'.table id).wake.tvSec ≠ schedTimevalSecInvalid) ∧
          Served s' now (s'.table id).wake) := by
  constructor
  · rintro ⟨hahead, hrecorded⟩
    refine ⟨?_, fun hasleep => ⟨hrecorded id hasleep, fun hepoch hfinite => ?_⟩⟩
    · rintro ⟨i, hi, hsleeps⟩
      exact (hahead i ((sleeps_congr hsame (hrow i hi)).mpr hsleeps)).2
    · exact hahead id ⟨hasleep, hepoch, hfinite⟩
  · rintro ⟨hothers, hself⟩
    refine ⟨fun i hsleeps => ?_, fun i hasleep => ?_⟩
    · by_cases hi : i = id
      · subst hi
        exact (hself hsleeps.toAsleep).2 hsleeps.epoch hsleeps.finite
      · have hbefore := (sleeps_congr hsame (hrow i hi)).mp hsleeps
        dsimp only
        rw [SchedTask.wake_of_noExec (hrow i hi)]
        exact ⟨hle.trans (hx.ahead i hbefore).1, hothers ⟨i, hi, hbefore⟩⟩
    · by_cases hi : i = id
      · subst hi
        exact (hself hasleep).1
      · dsimp only
        rw [SchedTask.wake_of_noExec (hrow i hi), hd i hi]
        exact hx.recorded i ((asleep_congr hsame.ids (hrow i hi)).mp hasleep)

/-! ### The calls -/

variable {x : Timing}

theorem covered_wake_iff (hx : x.Covered) (u : SchedUnblockType) :
    Covered ⟨x.sched.privWake id u, now, x.deadline⟩ ↔ x.Keeps (.wake id u now) := by
  have hrow : ∀ i, ((x.sched.privWake id u).table i).noExec =
      (if i = id then (x.sched.table id).woken u else x.sched.table i).noExec := x.sched.noExec_wake id u
  have hother : ∀ i, i ≠ id → ((x.sched.privWake id u).table i).noExec = (x.sched.table i).noExec := by
    intro i hi
    rw [hrow, if_neg hi]
  have hactive : ((x.sched.privWake id u).table id).active = true := by
    have hself := hrow id
    rw [if_pos rfl] at hself
    exact SchedTask.active_of_noExec hself
  have hoc : (x.sched.privWake id u).sleepOc = x.sched.sleepOc := by
    unfold Sched.privWake
    rw [Sched.sleepOc_updateOnWake]
    rfl
  rw [covered_row_iff hx (x.sched.sameEpoch_wake id u) hother (fun _ _ => rfl) hoc.le, hoc]
  refine and_iff_left fun hasleep => ?_
  exact absurd (hactive.symm.trans hasleep.inactive) (by decide)

/-- The row of the caller. -/
theorem timedblock_row (now obj : Nat) (absTime : SchedTimeval) (hid : id ∈ s.ids) (henabled : (s.table id).enabled = true)
    (hactive : (s.table id).active = true) :
    ((s.schedPrivTimedblock id obj absTime now).Asleep id ↔
      obj ≠ 0 ∨ absTime.timeSleep s.usecondCounter now = true) ∧
    ((s.schedPrivTimedblock id obj absTime now).table id).wake =
      if absTime.tvSec ≥ s.usecondCounter then absTime else (s.table id).wake := by
  have hrow := s.noExec_timedblock id obj absTime now id
  rw [if_pos rfl] at hrow
  refine ⟨?_, SchedTask.wake_of_noExec hrow⟩
  have hids := (s.sameEpoch_timedblock id obj absTime now).ids
  have hinactive : ((s.schedPrivTimedblock id obj absTime now).table id).active =
      (decide (obj = 0) && !absTime.timeSleep s.usecondCounter now) := by
    rw [SchedTask.active_of_noExec hrow]
    unfold SchedTask.timedblocked
    dsimp only
    rw [hactive, Bool.true_and]
  constructor
  · intro h
    have hfalse := h.inactive
    rw [hinactive] at hfalse
    by_contra hnot
    push Not at hnot
    rw [hnot.1, Bool.eq_false_iff.mpr hnot.2] at hfalse
    exact absurd hfalse (by decide)
  · intro h
    refine ⟨hids ▸ hid, ?_, ?_⟩
    · rw [SchedTask.enabled_of_noExec hrow]
      exact henabled
    · rw [hinactive]
      rcases h with hobj | hsleep
      · rw [decide_eq_false hobj, Bool.false_and]
      · rw [hsleep, Bool.not_true, Bool.and_false]

/-- Whether a compare value is ahead of the timer is not changed by a deadline that is waited for. -/
theorem lt_sleepOc_timedblock (obj : Nat) (absTime : SchedTimeval) :
    now < (s.schedPrivTimedblock id obj absTime now).sleepOc ↔ now < s.sleepOc := by
  rw [Sched.sleepOc_timedblock]
  split_ifs with h
  · rw [Nat.lt_min]
    exact and_iff_right (by omega)
  · rfl

theorem timeSleep_iff {absTime : SchedTimeval} {counter : Nat} :
    absTime.timeSleep counter now = true ↔
      counter ≤ absTime.tvSec ∧ (absTime.tvSec = counter → now + 40 < absTime.tvUsec) := by
  unfold SchedTimeval.timeSleep
  rw [Bool.and_eq_true, decide_eq_true_iff, Bool.or_eq_true, bne_iff_ne, decide_eq_true_iff]
  refine and_congr_right fun _ => ?_
  exact imp_iff_not_or.symm

theorem covered_timedblock_iff (hx : x.Covered) {obj : Nat} {absTime : SchedTimeval} (hid : id ∈ x.sched.ids)
    (henabled : (x.sched.table id).enabled = true) (hactive : (x.sched.table id).active = true) :
    Covered ⟨x.sched.schedPrivTimedblock id obj absTime now, now, update x.deadline id absTime⟩ ↔
      x.Keeps (.timedblock id obj absTime now) := by
  obtain ⟨hasleep, hwake⟩ := timedblock_row now obj absTime hid henabled hactive
  have hsame := x.sched.sameEpoch_timedblock id obj absTime now
  have hother : ∀ i, i ≠ id →
      ((x.sched.schedPrivTimedblock id obj absTime now).table i).noExec = (x.sched.table i).noExec := by
    intro i hi
    rw [x.sched.noExec_timedblock, if_neg hi]
  have hoc := x.sched.sleepOc_timedblock id obj absTime now
  have hle : (x.sched.schedPrivTimedblock id obj absTime now).sleepOc ≤ x.sched.sleepOc := by
    rw [hoc]
    split_ifs
    · exact min_le_right _ _
    · exact le_rfl
  -- the caller is active and not one of the sleepers
  have hsleepers : (∃ i, i ≠ id ∧ x.sched.Sleeps i) ↔ ∃ i, x.sched.Sleeps i := by
    refine ⟨fun ⟨i, _, h⟩ => ⟨i, h⟩, fun ⟨i, h⟩ => ⟨i, ?_, h⟩⟩
    rintro rfl
    exact absurd (hactive.symm.trans h.inactive) (by decide)
  rw [covered_row_iff hx hsame hother (fun i hi => update_of_ne hi _ _) hle, hsleepers, lt_sleepOc_timedblock,
    hasleep, hwake, update_self]
  refine and_congr_right fun _ => ?_
  unfold Served
  rw [hsame.usecondCounter, lt_sleepOc_timedblock, hoc]
  by_cases hsleep : absTime.timeSleep x.sched.usecondCounter now = true
  · -- the deadline is on record, and the compare value not above it
    obtain ⟨hepoch, hlate⟩ := timeSleep_iff.mp hsleep
    rw [if_pos hsleep, if_pos hepoch, imp_iff_right (Or.inr hsleep)]
    constructor
    · rintro ⟨-, hserved⟩ hcurrent hfinite
      exact (hserved hcurrent hfinite).2
    · intro hahead
      refine ⟨fun hfinite => hfinite, fun hcurrent hfinite => ⟨?_, hahead hcurrent hfinite⟩⟩
      rw [if_pos ⟨hcurrent, hlate hcurrent⟩]
      exact min_le_left _ _
  · -- the compare value is as it was
    have hnot : ¬ (absTime.tvSec = x.sched.usecondCounter ∧ now + 40 < absTime.tvUsec) := by
      rintro ⟨hcurrent, hlate⟩
      exact hsleep (timeSleep_iff.mpr ⟨hcurrent.ge, fun _ => hlate⟩)
    rw [if_neg hsleep, if_neg hnot, or_iff_left hsleep]
    by_cases hepoch : x.sched.usecondCounter ≤ absTime.tvSec
    · rw [if_pos hepoch, if_pos hepoch]
      exact forall_congr' fun _ => and_iff_right fun hfinite => hfinite
    · rw [if_neg hepoch, if_neg hepoch]

/-- What the match event leaves asleep in the epoch wakes after `now`. -/
theorem left_iff : s.left now i = true ↔ (s.table i).enabled = true ∧ (s.table i).active = false ∧
    (s.table i).wake.tvSec = s.usecondCounter ∧ now < (s.table i).wake.tvUsec := by
  unfold Sched.left Sched.due
  cases (s.table i).enabled <;> cases (s.table i).active <;> simp
  omega

theorem not_due_of_left (h : s.left now i = true) : s.due now i = false := by
  unfold Sched.left at h
  simp only [Bool.and_eq_true, Bool.not_eq_true'] at h
  exact h.1.2

/-- The sleepers after a match event. -/
theorem sleeps_matchEvent_iff : (s.privUsecondMatchEvent now).Sleeps i ↔
    s.Sleeps i ∧ now < (s.table i).wake.tvUsec := by
  have hsame := s.sameEpoch_matchEvent now
  have hrow := s.noExec_matchEvent now i
  constructor
  · intro h
    have hdue : ¬ (i ∈ s.ids ∧ s.due now i = true) := by
      intro hdue
      rw [if_pos hdue] at hrow
      exact absurd ((SchedTask.active_of_noExec hrow).symm.trans h.inactive) (by exact nofun)
    rw [if_neg hdue] at hrow
    have hbefore := (sleeps_congr hsame hrow).mp h
    refine ⟨hbefore, Nat.lt_of_not_le fun hle => hdue ⟨hbefore.mem, ?_⟩⟩
    unfold Sched.due
    rw [hbefore.enabled, hbefore.inactive, hbefore.epoch, beq_self_eq_true, decide_eq_true hle]
    simp
  · rintro ⟨h, hlate⟩
    have hdue := not_due_of_left (left_iff.mpr ⟨h.enabled, h.inactive, h.epoch, hlate⟩)
    rw [if_neg fun hd => Bool.false_ne_true (hdue.symm.trans hd.2)] at hrow
    exact (sleeps_congr hsame hrow).mpr h

theorem covered_matchEvent_iff {d : Nat → SchedTimeval} (hnow : now < Sched.overflow)
    (hrecorded : ∀ i, s.Asleep i → (d i).tvSec ≠ schedTimevalSecInvalid →
      (s.table i).wake.tvSec ≠ schedTimevalSecInvalid) :
    Covered ⟨s.privUsecondMatchEvent now, now, d⟩ ↔ Early s now := by
  have hsame := s.sameEpoch_matchEvent now
  have hwake : ∀ i, (s.privUsecondMatchEvent now).Asleep i →
      ((s.privUsecondMatchEvent now).table i).wake = (s.table i).wake ∧ s.Asleep i := by
    intro i h
    have hrow := s.noExec_matchEvent now i
    split_ifs at hrow with hdue
    · exact absurd ((SchedTask.active_of_noExec hrow).symm.trans h.inactive) (by exact nofun)
    · exact ⟨SchedTask.wake_of_noExec hrow, (asleep_congr hsame.ids hrow).mp h⟩
  have hleft : ∀ {i}, s.Sleeps i → now < (s.table i).wake.tvUsec → s.left now i = true :=
    fun h hlate => left_iff.mpr ⟨h.enabled, h.inactive, h.epoch, hlate⟩
  constructor
  · rintro ⟨hahead, -⟩ ⟨i, hi, hend⟩
    have hlate : now < (s.table i).wake.tvUsec := hend ▸ hnow
    have hsleeps := sleeps_matchEvent_iff.mpr ⟨hi, hlate⟩
    obtain ⟨hle, -⟩ := hahead i hsleeps
    dsimp only at hle
    rw [(hwake i hsleeps.toAsleep).1, hend] at hle
    rcases s.sleepOc_matchEvent now with ⟨j, hj, hjleft, hjlt, -⟩ | ⟨hoc, -⟩
    · obtain ⟨henabled, hinactive, hepoch, hjlate⟩ := left_iff.mp hjleft
      refine ⟨j, ⟨⟨hj, henabled, hinactive⟩, hepoch, ?_⟩, hjlate, hjlt⟩
      -- the two are in the same epoch
      rw [hepoch, ← hi.epoch]
      exact hi.finite
    · rw [hoc] at hle
      exact absurd hle (Nat.not_succ_le_self _)
  · intro hearly
    refine ⟨fun i h => ?_, fun i h hfinite => ?_⟩
    · obtain ⟨hi, hlate⟩ := sleeps_matchEvent_iff.mp h
      dsimp only
      rw [(hwake i h.toAsleep).1]
      rcases s.sleepOc_matchEvent now with ⟨j, hj, hjleft, hjlt, hoc, hmin⟩ | ⟨hoc, hmin⟩
      · rw [hoc]
        exact ⟨hmin i hi.mem (hleft hi hlate), (left_iff.mp hjleft).2.2.2⟩
      · -- nobody wakes before the end of the epoch, and so nobody at it
        have hbeyond := hmin i hi.mem (hleft hi hlate)
        have hne : (s.table i).wake.tvUsec ≠ Sched.overflow := by
          intro hend
          obtain ⟨j, hj, hjlate, hjlt⟩ := hearly ⟨i, hi, hend⟩
          exact absurd (hmin j hj.mem (hleft hj hjlate)) (Nat.not_le_of_lt hjlt)
        rw [hoc]
        omega
    · obtain ⟨hsame, hbefore⟩ := hwake i h
      dsimp only
      rw [hsame]
      exact hrecorded i hbefore hfinite

end

/-! ### Whole runs -/

theorem covered_step_iff {x x' : Timing} {a : Action} {e : Option Unit} (hx : x.Covered)
    (hstep : x.step a = some (x', e)) : x'.Covered ↔ x.Keeps a := by
  cases a with
  | timedblock id obj absTime now =>
    simp only [step] at hstep
    split_ifs at hstep with hcall
    obtain rfl := (Prod.mk.inj (Option.some.inj hstep)).1
    exact covered_timedblock_iff hx hcall.2.1 hcall.2.2.1 hcall.2.2.2
  | matchEvent now =>
    simp only [step] at hstep
    split_ifs at hstep with hnow
    obtain rfl := (Prod.mk.inj (Option.some.inj hstep)).1
    exact covered_matchEvent_iff hnow hx.recorded
  | overflowEvent now =>
    simp only [step] at hstep
    split_ifs at hstep with hnow
    obtain rfl := (Prod.mk.inj (Option.some.inj hstep)).1
    exact covered_matchEvent_iff hnow fun i h => hx.recorded i ⟨h.mem, h.enabled, h.inactive⟩
  | wake id u now =>
    simp only [step] at hstep
    split_ifs at hstep
    obtain rfl := (Prod.mk.inj (Option.some.inj hstep)).1
    exact covered_wake_iff hx u

/-- In a run from a state in which every sleeper is covered, and all of whose steps are of those that keep it so, every
sleeper is covered; and it is so after one more step exactly if that is one of them. -/
theorem covered_iff (x₀ x : Timing) (es : List Unit) (h₀ : x₀.Covered) (hrun : Run step Keeps x₀ es x) :
    x.Covered ∧ ∀ a x' e, x.step a = some (x', e) → (x'.Covered ↔ x.Keeps a) := by
  have hinv : x.Covered := by
    apply Run.invariant (fun _ x => x.Covered) h₀ _ hrun
    intro es x a x' e hx hkeeps hstep
    exact (covered_step_iff hx hstep).mpr hkeeps
  exact ⟨hinv, fun a x' e hstep => covered_step_iff hinv hstep⟩

/-- Where no task is inactive nobody needs to be covered. -/
theorem covered_of_awake {x : Timing} (h : ∀ i, ¬ x.sched.Asleep i) : x.Covered :=
  ⟨fun i hi => absurd hi.toAsleep (h i), fun i hi => absurd hi (h i)⟩

/-- Task `1` is active; the timer has just been opened. -/
def opened : Timing where
  sched :=
    { total := 2
      table := fun _ =>
        { enabled := true, exec := true, pid := 0, active := true, stopped := false, aiosuspend := false
          unblockType := .none, blockObject := 0, wake := ⟨schedTimevalSecInvalid, 0⟩
          priority := 0, attrPriority := 0 }
      currentPriority := 0
      statusChanged := false
      usecondCounter := 0
      sleepOc := Sched.overflow + 1 }
  usecondTmr := 0
  deadline := fun _ => ⟨schedTimevalSecInvalid, 0⟩

theorem opened_awake (i : Nat) : ¬ opened.sched.Asleep i := fun h => absurd h.inactive (by exact nofun)

/-- The task blocks on an object for a millisecond, and the event comes. -/
theorem covered_iff_millisecond : ∃ x es,
    Run step Keeps opened es x ∧ x.Covered ∧ (x.sched.table 1).active = true := by
  obtain ⟨x₁, h1, hwake, hids⟩ : ∃ x₁, opened.step (.timedblock 1 64 ⟨0, 1000⟩ 0) = some (x₁, none) ∧
      (x₁.sched.table 1).wake.tvUsec = 1000 ∧ x₁.sched.ids = [1] := ⟨_, rfl, rfl, rfl⟩
  have hkeeps1 : opened.Keeps (.timedblock 1 64 ⟨0, 1000⟩ 0) := ⟨fun _ => by decide, fun _ _ => by decide⟩
  have hkeeps2 : x₁.Keeps (.matchEvent 1000) := by
    rintro ⟨i, hi, hend⟩
    have hmem := hi.mem
    rw [hids] at hmem
    obtain rfl := List.mem_singleton.mp hmem
    rw [hwake] at hend
    exact absurd hend (by decide)
  obtain ⟨x₂, h2, hactive⟩ : ∃ x₂, x₁.step (.matchEvent 1000) = some (x₂, none) ∧
      (x₂.sched.table 1).active = true := by
    cases h1
    exact ⟨_, rfl, rfl⟩
  have hrun : Run step Keeps opened _ x₂ := .snoc (.snoc .nil hkeeps1 h1) hkeeps2 h2
  exact ⟨x₂, _, hrun, (covered_iff opened x₂ _ (covered_of_awake opened_awake) hrun).1, hactive⟩

/-- A task that blocks on an object with a deadline in ten microseconds sleeps without an event. -/
theorem not_covered : ¬ ∀ (x₀ x : Timing) (es : List Unit), (∀ i, ¬ x₀.sched.Asleep i) →
    Run step (fun _ _ => True) x₀ es x → x.Covered := by
  intro h
  obtain ⟨x, hstep, hsleeps, hoc⟩ : ∃ x, opened.step (.timedblock 1 64 ⟨0, 10⟩ 0) = some (x, none) ∧
      x.sched.Sleeps 1 ∧ ¬ x.sched.sleepOc ≤ (x.sched.table 1).wake.tvUsec :=
    ⟨_, rfl, ⟨⟨by decide, rfl, rfl⟩, rfl, by decide⟩, by decide⟩
  exact hoc ((h opened x _ opened_awake (.snoc .nil trivial hstep)).ahead 1 hsleeps).1

end Timing

end CoActionOS
