import CoActionOS.Lib.Rollover
import CoActionOS.Lib.Run
import CoActionOS.Sched.Basic

/-!
# The system clock

The time is an epoch counter, which the overflow interrupt of the microsecond timer advances, and the count of the
timer, which the hardware resets.  `sched_priv_get_realtime` loads the one and then the other in a privileged call:
the interrupt has the priority of that call and waits, the timer runs on.  What a call does after the privileged one
reads nothing else that changes, save `time_of_day_offset`, which `settimeofday` writes.

The clock is right in every run in which no call loads the timer between a reset and its interrupt; a reading taken
there is a whole epoch behind.
-/

namespace CoActionOS

namespace Time

structure Timeval where
  tvSec : Int
  tvUsec : Int
  deriving DecidableEq, Repr

/-- A `struct timeval` of 32-bit fields with a fraction below a second. -/
structure Timeval.Valid (tv : Timeval) : Prop where
  sec : -2 ^ 31 ≤ tv.tvSec ∧ tv.tvSec < 2 ^ 31
  usec : 0 ≤ tv.tvUsec ∧ tv.tvUsec < 1000000

/-! ### The conversions -/

/-- The value as a `long` of 32 bits. -/
def toLong (n : Int) : Int := (n + 2 ^ 31) % 2 ^ 32 - 2 ^ 31

/-- The compare value of the reset channel. -/
def overflow : Nat := 1000000 * schedTimevalSeconds

/-- The clocks `CLOCK_MONOTONIC` and `CLOCK_REALTIME`. -/
def clockGettime (schedTime : SchedTimeval) : Timespec :=
  let usec := toLong schedTime.tvUsec
  { tvSec := toLong (schedTime.tvSec * schedTimevalSeconds + usec.tdiv 1000000)
    tvNsec := usec.tmod 1000000 * 1000 }

/-- The first lines of `gettimeofday_sched` and `priv_set_time`. -/
def timevalOf (tv : SchedTimeval) : Timeval :=
  let usec := toLong tv.tvUsec
  { tvSec := toLong (tv.tvSec * schedTimevalSeconds + usec.tdiv 1000000)
    tvUsec := usec.tmod 1000000 }

def gettimeofdaySched (offset : Timeval) (tv : SchedTimeval) : Timeval :=
  let tmp := timevalOf tv
  let tvSec := toLong (tmp.tvSec + offset.tvSec)
  let tvUsec := toLong (tmp.tvUsec + offset.tvUsec)
  if tvUsec ≥ 1000000 then ⟨toLong (tvSec + 1), toLong (tvUsec - 1000000)⟩ else ⟨tvSec, tvUsec⟩

/-- The offset that `priv_set_time` stores. -/
def privSetTime (t : Timeval) (tv : SchedTimeval) : Timeval :=
  let tmp := timevalOf tv
  let tvUsec := toLong (t.tvUsec - tmp.tvUsec)
  let tvSec := toLong (t.tvSec - tmp.tvSec)
  if tvUsec < 0 then ⟨toLong (tvSec - 1), toLong (tvUsec + 1000000)⟩ else ⟨tvSec, tvUsec⟩

/-! ### The system -/

inductive Call
  | clockGettime
  | gettimeofday
  | settimeofday (tp : { tp : Timeval // tp.Valid })

structure System where
  schedUsecondCounter : Nat
  usecondTmr : Nat
  overflowPending : Bool
  timeOfDayOffset : Timeval
  /-- The privileged call, which has loaded the epoch counter. -/
  call : Option (Call × Nat)
  /-- The ticks since the timer was started. -/
  elapsed : Nat
  /-- The time that was set last, and when. -/
  timeSet : Option (Timeval × Nat)

inductive Action
  | tick
  | overflowEvent
  | enter (c : Call)
  | leave

/-- What a call returns; for a time of day also what it should return once the time was set. -/
inductive Event
  | clock (tp : Timespec)
  | time (tv : Timeval) (due : Option Timeval)
  deriving DecidableEq, Repr

/-- A number of microseconds as a `struct timeval`. -/
def Timeval.ofUsec (n : Int) : Timeval := ⟨n / 1000000, n % 1000000⟩

def Timeval.toUsec (tv : Timeval) : Int := tv.tvSec * 1000000 + tv.tvUsec

namespace System

/-- `open_usecond_tmr`, with the system memory zeroed. -/
def start : System where
  schedUsecondCounter := 0
  usecondTmr := 0
  overflowPending := false
  timeOfDayOffset := ⟨0, 0⟩
  call := none
  elapsed := 0
  timeSet := none

variable (s : System)

/-- The time that was set and the time elapsed since. -/
def due : Option Timeval :=
  s.timeSet.map fun p => .ofUsec (p.1.toUsec + s.elapsed - p.2)

/-- The second load, and the rest of the call. -/
def stepLeave (c : Call) (tvSec : Nat) : System × Option Event :=
  let tv : SchedTimeval := ⟨tvSec, s.usecondTmr⟩
  let s' := { s with call := none }
  match c with
  | .clockGettime => (s', some (.clock (Time.clockGettime tv)))
  | .gettimeofday => (s', some (.time (gettimeofdaySched s.timeOfDayOffset tv) s.due))
  | .settimeofday tp =>
    ({ s' with timeOfDayOffset := privSetTime tp tv, timeSet := some (tp, s.elapsed) }, none)

def step : Action → Option (System × Option Event)
  | .tick =>
    if s.usecondTmr + 1 < overflow then
      some ({ s with usecondTmr := s.usecondTmr + 1, elapsed := s.elapsed + 1 }, none)
    else if s.overflowPending then none -- the interrupt is served before the next reset
    else some ({ s with usecondTmr := 0, overflowPending := true, elapsed := s.elapsed + 1 }, none)
  | .overflowEvent =>
    -- the interrupt does not preempt a privileged call
    if s.overflowPending ∧ s.call.isNone then
      some ({ s with schedUsecondCounter := (s.schedUsecondCounter + 1) % 2 ^ 32, overflowPending := false },
        none)
    else none
  | .enter c => if s.call.isNone then some ({ s with call := some (c, s.schedUsecondCounter) }, none) else none
  | .leave =>
    match s.call with
    | none => none
    | some (c, tvSec) => some (s.stepLeave c tvSec)

/-- No reset is still to be counted when the timer is loaded, and the time that is returned fits its type. -/
def Careful : Action → Prop
  | .leave =>
    s.overflowPending = false ∧
      match s.call, s.due with
      | some (.clockGettime, _), _ => s.elapsed < 2 ^ 31 * 1000000
      | some (.gettimeofday, _), none => s.elapsed < 2 ^ 31 * 1000000
      | some (.gettimeofday, _), some due => due.tvSec < 2 ^ 31
      | _, _ => True
  | _ => True

instance (a : Action) : Decidable (s.Careful a) := by
  unfold Careful
  split
  · split <;> infer_instance
  · infer_instance

end System

/-! ### The statement -/

/-- The readings that may not run backwards, in nanoseconds. -/
def Event.reading : Event → Option Int
  | .clock tp => some (tp.tvSec * 1000000000 + tp.tvNsec)
  | .time tv none => some (tv.toUsec * 1000)
  | .time _ (some _) => none

def Event.Normalised : Event → Prop
  | .clock tp => 0 ≤ tp.tvNsec ∧ tp.tvNsec < 1000000000
  | .time tv _ => 0 ≤ tv.tvUsec ∧ tv.tvUsec < 1000000

/-- The clock never runs backwards, and a time that was set goes on from there. -/
structure RunsForward (es : List Event) : Prop where
  nonDecreasing : (es.filterMap Event.reading).Pairwise (· ≤ ·)
  normalised : ∀ e ∈ es, e.Normalised
  goesOn : ∀ tv due, .time tv (some due) ∈ es → tv = due

/-! ### What the conversions give -/

theorem Timeval.toUsec_mk (sec usec : Int) : (Timeval.mk sec usec).toUsec = sec * 1000000 + usec := rfl

theorem toLong_spec (n : Int) : -2 ^ 31 ≤ toLong n ∧ toLong n < 2 ^ 31 ∧ ∃ k : Int, toLong n = n + k * 2 ^ 32 := by
  unfold toLong
  refine ⟨by omega, by omega, -((n + 2 ^ 31) / 2 ^ 32), by omega⟩

theorem toLong_of_lt {n : Int} (h : -2 ^ 31 ≤ n) (h' : n < 2 ^ 31) : toLong n = n := by
  unfold toLong
  omega

/-- The pair of loads was taken in the right epoch, whatever the counter has lost. -/
structure Shows (tv : SchedTimeval) (elapsed : Nat) : Prop where
  usec : tv.tvUsec < overflow
  elapsed : ∃ epoch, tv.tvSec = epoch % 2 ^ 32 ∧ elapsed = epoch * overflow + tv.tvUsec

/-- The value stands for `n` microseconds, as far as 32 bits of seconds can. -/
structure Timeval.Stands (tv : Timeval) (n : Int) : Prop where
  valid : tv.Valid
  total : ∃ k : Int, tv.toUsec = n + k * (2 ^ 32 * 1000000)

section

variable {tv : SchedTimeval} {elapsed : Nat}

theorem Timeval.Stands.eq_ofUsec {v : Timeval} {n : Int} (h : v.Stands n) (hlow : -2 ^ 31 * 1000000 ≤ n)
    (hfits : n < 2 ^ 31 * 1000000) : v = .ofUsec n := by
  obtain ⟨⟨hsec, husec⟩, k, htotal⟩ := h
  obtain ⟨sec, usec⟩ := v
  unfold Timeval.toUsec at htotal
  unfold Timeval.ofUsec
  simp only at hsec husec htotal
  simp only [Timeval.mk.injEq]
  omega

theorem timevalOf_eq (h : Shows tv elapsed) :
    timevalOf tv = ⟨toLong (elapsed / 1000000 : Nat), (elapsed % 1000000 : Nat)⟩ := by
  obtain ⟨husec, epoch, hsec, helapsed⟩ := h
  have hlong : toLong tv.tvUsec = tv.tvUsec := by
    apply toLong_of_lt <;> simp only [overflow, schedTimevalSeconds] at husec <;> omega
  simp only [overflow, schedTimevalSeconds] at husec helapsed
  unfold timevalOf
  simp only [hlong, Int.tdiv_eq_ediv_of_nonneg (Int.natCast_nonneg _),
    Int.tmod_eq_emod_of_nonneg (Int.natCast_nonneg _), Timeval.mk.injEq, schedTimevalSeconds]
  -- 2048 seconds to an epoch: what the counter loses at 2 ^ 32 is lost by the seconds as well
  unfold toLong
  omega

theorem clockGettime_eq (h : Shows tv elapsed) (hfits : elapsed < 2 ^ 31 * 1000000) :
    clockGettime tv = ⟨(elapsed / 1000000 : Nat), (elapsed % 1000000 : Nat) * 1000⟩ := by
  have heq := timevalOf_eq h
  unfold timevalOf at heq
  simp only [Timeval.mk.injEq] at heq
  obtain ⟨hsec, hnsec⟩ := heq
  have hlong : toLong (elapsed / 1000000 : Nat) = (elapsed / 1000000 : Nat) := by
    apply toLong_of_lt <;> omega
  unfold clockGettime
  simp only [hsec, hnsec, hlong]

/-- A second is borrowed when the fraction of the time set is below that of the clock. -/
theorem stands_privSetTime {t : Timeval} (ht : t.Valid) (h : Shows tv elapsed) :
    (privSetTime t tv).Stands (t.toUsec - elapsed) := by
  obtain ⟨-, husec, husec'⟩ := ht
  obtain ⟨-, -, k, hk⟩ := toLong_spec (elapsed / 1000000 : Nat)
  unfold privSetTime
  rw [timevalOf_eq h]
  have hfraction : toLong (t.tvUsec - (elapsed % 1000000 : Nat)) = t.tvUsec - (elapsed % 1000000 : Nat) := by
    apply toLong_of_lt <;> omega
  obtain ⟨hlow, hhigh, k', hk'⟩ := toLong_spec (t.tvSec - toLong (elapsed / 1000000 : Nat))
  dsimp only
  rw [hfraction]
  split_ifs with hborrow
  · obtain ⟨hlow', hhigh', k'', hk''⟩ := toLong_spec (toLong (t.tvSec - toLong (elapsed / 1000000 : Nat)) - 1)
    rw [toLong_of_lt (n := t.tvUsec - (elapsed % 1000000 : Nat) + 1000000) (by omega) (by omega)]
    refine ⟨⟨⟨hlow', hhigh'⟩, ?_, ?_⟩, k' + k'' - k, ?_⟩ <;> simp only [Timeval.toUsec] <;> omega
  · refine ⟨⟨⟨hlow, hhigh⟩, ?_, ?_⟩, k' - k, ?_⟩ <;> simp only [Timeval.toUsec] <;> omega

/-- A second is carried when the fractions add up to one. -/
theorem stands_gettimeofdaySched {offset : Timeval} {n : Int} (ho : offset.Stands n) (h : Shows tv elapsed) :
    (gettimeofdaySched offset tv).Stands (elapsed + n) := by
  obtain ⟨⟨-, husec, husec'⟩, j, hj⟩ := ho
  unfold Timeval.toUsec at hj
  obtain ⟨-, -, k, hk⟩ := toLong_spec (elapsed / 1000000 : Nat)
  unfold gettimeofdaySched
  rw [timevalOf_eq h]
  have hfraction : toLong ((elapsed % 1000000 : Nat) + offset.tvUsec) = (elapsed % 1000000 : Nat) + offset.tvUsec := by
    apply toLong_of_lt <;> omega
  obtain ⟨hlow, hhigh, k', hk'⟩ := toLong_spec (toLong (elapsed / 1000000 : Nat) + offset.tvSec)
  dsimp only
  rw [hfraction]
  generalize toLong (toLong (elapsed / 1000000 : Nat) + offset.tvSec) = sec at hlow hhigh hk' ⊢
  split_ifs with hcarry
  · obtain ⟨hlow', hhigh', k'', hk''⟩ := toLong_spec (sec + 1)
    have hrest : toLong ((elapsed % 1000000 : Nat) + offset.tvUsec - 1000000) =
        (elapsed % 1000000 : Nat) + offset.tvUsec - 1000000 := by
      apply toLong_of_lt <;> omega
    rw [hrest]
    have husec₁ : 0 ≤ ((elapsed % 1000000 : Nat) : Int) + offset.tvUsec - 1000000 := Int.sub_nonneg_of_le hcarry
    have husec₂ : ((elapsed % 1000000 : Nat) : Int) + offset.tvUsec - 1000000 < 1000000 := by omega
    refine ⟨⟨⟨hlow', hhigh'⟩, husec₁, husec₂⟩, j + k + k' + k'', ?_⟩
    rw [Timeval.toUsec_mk]
    omega
  · have husec₁ : 0 ≤ ((elapsed % 1000000 : Nat) : Int) + offset.tvUsec := by omega
    refine ⟨⟨⟨hlow, hhigh⟩, husec₁, Int.not_le.mp hcarry⟩, j + k + k', ?_⟩
    rw [Timeval.toUsec_mk]
    omega

/-- The offset that was stored at `n` makes of the time elapsed the time that is due. -/
theorem gettimeofdaySched_set {tv₀ : SchedTimeval} {t : Timeval} {n : Nat} (ht : t.Valid) (h₀ : Shows tv₀ n)
    (h : Shows tv elapsed) (hle : n ≤ elapsed) (hfits : (Timeval.ofUsec (t.toUsec + elapsed - n)).tvSec < 2 ^ 31) :
    gettimeofdaySched (privSetTime t tv₀) tv = .ofUsec (t.toUsec + elapsed - n) := by
  have hstands := stands_gettimeofdaySched (stands_privSetTime ht h₀) h
  have hdue : (elapsed : Int) + (t.toUsec - n) = t.toUsec + elapsed - n := by omega
  rw [hdue] at hstands
  obtain ⟨⟨hsec, -⟩, husec, -⟩ := ht
  apply hstands.eq_ofUsec
  · unfold Timeval.toUsec
    omega
  · simp only [Timeval.ofUsec] at hfits
    omega

theorem gettimeofdaySched_unset (h : Shows tv elapsed) (hfits : elapsed < 2 ^ 31 * 1000000) :
    gettimeofdaySched ⟨0, 0⟩ tv = .ofUsec elapsed := by
  have hzero : Timeval.Stands ⟨0, 0⟩ 0 := ⟨⟨⟨by decide, by decide⟩, by decide, by decide⟩, 0, rfl⟩
  have hstands := stands_gettimeofdaySched hzero h
  rw [Int.add_zero] at hstands
  apply hstands.eq_ofUsec <;> omega

end

/-! ### The invariant -/

namespace System

/-- The counter, the timer and the interrupt as a counter continued in software. -/
structure Tracks (s : System) : Prop where
  timer : s.usecondTmr < overflow
  rollover : ∃ r : Rollover, r.phase = s.usecondTmr ∧ r.pending = s.overflowPending ∧
    s.schedUsecondCounter = r.epoch % 2 ^ 32 ∧ s.elapsed = r.value overflow
  epoch : ∀ c tvSec, s.call = some (c, tvSec) → tvSec = s.schedUsecondCounter
  offset : match s.timeSet with
    | none => s.timeOfDayOffset = ⟨0, 0⟩
    | some (t, n) => t.Valid ∧ n ≤ s.elapsed ∧ ∃ tv, Shows tv n ∧ s.timeOfDayOffset = privSetTime t tv

variable {s s' : System}

/-- Outside the time between a reset and its interrupt the two loads belong together. -/
theorem Tracks.shows (h : s.Tracks) {c : Call} {tvSec : Nat} (hcall : s.call = some (c, tvSec))
    (hserved : s.overflowPending = false) : Shows ⟨tvSec, s.usecondTmr⟩ s.elapsed := by
  obtain ⟨r, hphase, hpending, hcounter, helapsed⟩ := h.rollover
  refine ⟨h.timer, r.epoch, (h.epoch c tvSec hcall).trans hcounter, ?_⟩
  rw [helapsed, ← Rollover.reading_of_served (hpending.trans hserved), ← hphase]
  rfl

theorem Tracks.mono_elapsed (h : s.Tracks) (n : Nat) :
    match s.timeSet with
    | none => s.timeOfDayOffset = ⟨0, 0⟩
    | some (t, m) => t.Valid ∧ m ≤ s.elapsed + n ∧ ∃ tv, Shows tv m ∧ s.timeOfDayOffset = privSetTime t tv := by
  have hoffset := h.offset
  cases hset : s.timeSet with
  | none =>
    rw [hset] at hoffset
    exact hoffset
  | some p =>
    rw [hset] at hoffset
    exact ⟨hoffset.1, Nat.le_add_right_of_le hoffset.2.1, hoffset.2.2⟩

theorem tracks_start : start.Tracks where
  timer := by decide
  rollover := ⟨⟨0, 0, false⟩, rfl, rfl, rfl, rfl⟩
  epoch := fun _ _ hc => by cases hc
  offset := rfl

theorem Tracks.step {a : Action} {e : Option Event} (h : s.Tracks) (hcare : s.Careful a)
    (hstep : s.step a = some (s', e)) : s'.Tracks := by
  obtain ⟨r, hphase, hpending, hcounter, helapsed⟩ := h.rollover
  have hperiod : 0 < overflow := by decide
  cases a with
  | tick =>
    simp only [System.step] at hstep
    have htick := @Rollover.value_tick overflow r (hphase ▸ h.timer)
    have hlt := Rollover.tick_phase_lt (r := r) hperiod
    split_ifs at hstep with hround hwaits
    -- the timer counts on within its period
    · cases hstep
      have hr : r.tick overflow = { r with phase := r.phase + 1 } := by
        unfold Rollover.tick
        rw [if_pos (hphase ▸ hround)]
      refine ⟨hround, ⟨r.tick overflow, ?_, ?_, ?_, ?_⟩, h.epoch, h.mono_elapsed 1⟩
      · rw [hr, hphase]
      · rw [hr, hpending]
      · rw [hr, hcounter]
      · rw [htick fun hlast => absurd (hphase ▸ hround) hlast, ← helapsed]
    -- the timer rolls over, and the match is pending
    · cases hstep
      have hr : r.tick overflow = { r with phase := 0, pending := true } := by
        unfold Rollover.tick
        rw [if_neg (hphase ▸ hround)]
      refine ⟨hperiod, ⟨r.tick overflow, ?_, ?_, ?_, ?_⟩, h.epoch, h.mono_elapsed 1⟩
      · rw [hr]
      · rw [hr]
      · rw [hr, hcounter]
      · rw [htick fun _ => hpending.trans (Bool.eq_false_iff.mpr hwaits), ← helapsed]
  | overflowEvent =>
    simp only [System.step] at hstep
    split_ifs at hstep with hserve
    cases hstep
    have hr : r.serve = { r with epoch := r.epoch + 1, pending := false } := by
      unfold Rollover.serve
      rw [if_pos (hpending.trans hserve.1)]
    refine ⟨h.timer, ⟨r.serve, ?_, ?_, ?_, ?_⟩, ?_, h.offset⟩
    · rw [Rollover.serve_phase, hphase]
    · rw [Rollover.serve_pending]
    · rw [hr]
      show (s.schedUsecondCounter + 1) % 2 ^ 32 = (r.epoch + 1) % 2 ^ 32
      rw [hcounter, Nat.mod_add_mod]
    · rw [Rollover.value_serve, ← helapsed]
    -- no call is being made while the handler runs
    · intro c tvSec hc
      rw [Option.isNone_iff_eq_none.mp hserve.2] at hc
      cases hc
  | enter c =>
    simp only [System.step] at hstep
    split_ifs at hstep
    cases hstep
    refine ⟨h.timer, ⟨r, hphase, hpending, hcounter, helapsed⟩, ?_, h.offset⟩
    intro c' tvSec hc
    cases hc
    rfl
  | leave =>
    simp only [System.step] at hstep
    cases hcall : s.call with
    | none =>
      rw [hcall] at hstep
      cases hstep
    | some p =>
      obtain ⟨c, tvSec⟩ := p
      have hshows := h.shows hcall hcare.1
      rw [hcall] at hstep
      -- no call is left once this one returns
      have hepoch : ∀ s₁ : System, s₁.call = none →
          ∀ c tvSec, s₁.call = some (c, tvSec) → tvSec = s₁.schedUsecondCounter := by
        intro s₁ hnone c tvSec hc
        rw [hnone] at hc
        cases hc
      cases c with
      | clockGettime =>
        cases hstep
        exact ⟨h.timer, ⟨r, hphase, hpending, hcounter, helapsed⟩, hepoch _ rfl, h.offset⟩
      | gettimeofday =>
        cases hstep
        exact ⟨h.timer, ⟨r, hphase, hpending, hcounter, helapsed⟩, hepoch _ rfl, h.offset⟩
      | settimeofday tp =>
        cases hstep
        exact ⟨h.timer, ⟨r, hphase, hpending, hcounter, helapsed⟩, hepoch _ rfl,
          tp.property, le_rfl, _, hshows, rfl⟩

/-- What a careful call returns. -/
theorem Tracks.event {a : Action} {e : Event} (h : s.Tracks) (hcare : s.Careful a)
    (hstep : s.step a = some (s', some e)) :
    e.Normalised ∧ (∀ n, e.reading = some n → n = s.elapsed * 1000) ∧ s'.elapsed = s.elapsed ∧
      ∀ tv due, e = .time tv (some due) → tv = due := by
  cases a with
  | tick =>
    simp only [System.step] at hstep
    split_ifs at hstep <;> cases hstep
  | overflowEvent =>
    simp only [System.step] at hstep
    split_ifs at hstep
    cases hstep
  | enter c =>
    simp only [System.step] at hstep
    split_ifs at hstep
    cases hstep
  | leave =>
    simp only [System.step] at hstep
    cases hcall : s.call with
    | none =>
      rw [hcall] at hstep
      cases hstep
    | some p =>
      obtain ⟨c, tvSec⟩ := p
      obtain ⟨hserved, hfits⟩ := hcare
      have hshows := h.shows hcall hserved
      rw [hcall] at hstep hfits
      cases c with
      | clockGettime =>
        cases hstep
        rw [clockGettime_eq hshows hfits]
        refine ⟨?_, ?_, rfl, fun _ _ he => by cases he⟩
        · simp only [Event.Normalised]
          omega
        · intro n hn
          simp only [Event.reading, Option.some.injEq] at hn
          omega
      | gettimeofday =>
        cases hstep
        have hoffset := h.offset
        unfold due at hfits ⊢
        cases hset : s.timeSet with
        -- the time has never been set
        | none =>
          rw [hset] at hoffset hfits
          rw [hoffset, gettimeofdaySched_unset hshows hfits]
          refine ⟨?_, ?_, rfl, fun _ _ he => by cases he⟩
          · simp only [Event.Normalised, Timeval.ofUsec]
            omega
          · intro n hn
            simp only [Event.reading, Option.map_none, Option.some.injEq, Timeval.toUsec, Timeval.ofUsec] at hn
            omega
        -- the time goes on from the one that was set
        | some p =>
          obtain ⟨t, m⟩ := p
          rw [hset] at hoffset hfits
          obtain ⟨hvalid, hle, tv, hset₀, hoff⟩ := hoffset
          rw [hoff, gettimeofdaySched_set hvalid hset₀ hshows hle hfits]
          refine ⟨?_, ?_, rfl, ?_⟩
          · simp only [Event.Normalised, Timeval.ofUsec]
            omega
          · intro n hn
            cases hn
          · intro tv' due he
            cases he
            rfl
      | settimeofday tp => cases hstep

theorem elapsed_le_step {a : Action} {e : Option Event} (hstep : s.step a = some (s', e)) :
    s.elapsed ≤ s'.elapsed := by
  cases a with
  | tick =>
    simp only [System.step] at hstep
    split_ifs at hstep <;> cases hstep <;> exact Nat.le_succ _
  | overflowEvent =>
    simp only [System.step] at hstep
    split_ifs at hstep
    cases hstep
    exact le_rfl
  | enter c =>
    simp only [System.step] at hstep
    split_ifs at hstep
    cases hstep
    exact le_rfl
  | leave =>
    simp only [System.step] at hstep
    cases hcall : s.call with
    | none =>
      rw [hcall] at hstep
      cases hstep
    | some p =>
      obtain ⟨c, tvSec⟩ := p
      rw [hcall] at hstep
      cases c <;> cases hstep <;> exact le_rfl

end System

/-- The events of a run: nothing was read that is later than now. -/
structure Recorded (es : List Event) (s : System) : Prop where
  tracks : s.Tracks
  forward : RunsForward es
  past : ∀ n ∈ es.filterMap Event.reading, n ≤ s.elapsed * 1000

theorem Recorded.step {es : List Event} {s s' : System} {a : Action} {e : Option Event} (h : Recorded es s)
    (hcare : s.Careful a) (hstep : s.step a = some (s', e)) : Recorded (es ++ e.toList) s' := by
  have htracks := h.tracks.step hcare hstep
  have hle := System.elapsed_le_step hstep
  cases e with
  | none =>
    rw [Option.toList_none, List.append_nil]
    refine ⟨htracks, h.forward, fun n hn => ?_⟩
    have := h.past n hn
    omega
  | some e =>
    obtain ⟨hnormalised, hreading, helapsed, hgoesOn⟩ := h.tracks.event hcare hstep
    rw [Option.toList_some]
    refine ⟨htracks, ⟨?_, ?_, ?_⟩, ?_⟩
    · -- the new reading is the time elapsed, and every earlier one is at most that
      rw [List.filterMap_append, List.pairwise_append]
      refine ⟨h.forward.nonDecreasing, ?_, ?_⟩
      · cases hr : e.reading <;> simp [hr]
      -- a reading that is noted is at most the time elapsed
      · intro n hn m hm
        simp only [List.filterMap_cons, List.filterMap_nil] at hm
        split at hm
        · cases hm
        · next k hk =>
          rw [List.mem_singleton.mp hm, hreading k hk]
          exact h.past n hn
    · intro e' he'
      rcases List.mem_append.mp he' with he' | he'
      · exact h.forward.normalised e' he'
      · exact List.mem_singleton.mp he' ▸ hnormalised
    · intro tv due he'
      rcases List.mem_append.mp he' with he' | he'
      · exact h.forward.goesOn tv due he'
      · exact hgoesOn tv due (List.mem_singleton.mp he').symm
    · intro n hn
      rw [List.filterMap_append] at hn
      rcases List.mem_append.mp hn with hn | hn
      · have := h.past n hn
        omega
      · simp only [List.filterMap_cons, List.filterMap_nil] at hn
        split at hn
        · cases hn
        · next k hk => rw [List.mem_singleton.mp hn, hreading k hk, helapsed]

/-- The clock never runs backwards, and the time of day goes on from the time that was set. -/
theorem runsForward_of_careful (es : List Event) (s : System)
    (hrun : Run System.step System.Careful System.start es s) : RunsForward es := by
  have hstart : Recorded [] System.start :=
    ⟨System.tracks_start, ⟨List.Pairwise.nil, fun _ he => absurd he List.not_mem_nil,
      fun _ _ he => absurd he List.not_mem_nil⟩, fun _ hn => absurd hn List.not_mem_nil⟩
  have hrecorded := Run.invariant Recorded hstart (fun es s a s' e h hcare hstep => h.step hcare hstep) hrun
  exact hrecorded.forward

/-- The clock is read, the time is set and read a tick later. -/
def setAndRead : List Action :=
  [.enter .clockGettime, .tick, .leave, .enter (.settimeofday ⟨⟨5, 999999⟩, ⟨by decide, by decide⟩, by decide, by decide⟩), .leave, .tick,
    .enter .gettimeofday, .leave]

theorem runsForward_setAndRead : ∃ s,
    Run System.step System.Careful System.start [.clock ⟨0, 1000⟩, .time ⟨6, 0⟩ (some ⟨6, 0⟩)] s ∧
      RunsForward [.clock ⟨0, 1000⟩, .time ⟨6, 0⟩ (some ⟨6, 0⟩)] := by
  have hreplay : (Run.replay System.step System.start setAndRead).map Prod.snd =
      some [.clock ⟨0, 1000⟩, .time ⟨6, 0⟩ (some ⟨6, 0⟩)] := by
    decide
  obtain ⟨⟨s, es⟩, hs, rfl⟩ := Option.map_eq_some_iff.mp hreplay
  have hcare : Run.AllOk System.step System.Careful System.start setAndRead := by
    decide
  have hrun := Run.of_replay hs hcare
  exact ⟨s, hrun, runsForward_of_careful _ s hrun⟩

/-! ### A reading between a reset and its interrupt -/

section

variable {ok : System → Action → Prop} {s₀ s : System} {es : List Event}

theorem run_ticks (hok : ∀ s a, ok s a) (n : Nat) (hn : s.usecondTmr + n < overflow)
    (h : Run System.step ok s₀ es s) :
    Run System.step ok s₀ es { s with usecondTmr := s.usecondTmr + n, elapsed := s.elapsed + n } := by
  induction n with
  | zero => exact h
  | succ n ih =>
    have hstep : System.step { s with usecondTmr := s.usecondTmr + n, elapsed := s.elapsed + n } .tick =
        some ({ s with usecondTmr := s.usecondTmr + (n + 1), elapsed := s.elapsed + (n + 1) }, none) := by
      unfold System.step
      exact if_pos hn
    have hrun := (ih (by omega)).snoc (hok _ _) hstep
    rwa [Option.toList_none, List.append_nil] at hrun

/-- A whole call of `clock_gettime`. -/
theorem run_clockGettime (hok : ∀ s a, ok s a) (hcall : s.call = none) (h : Run System.step ok s₀ es s) :
    Run System.step ok s₀ (es ++ [.clock (clockGettime ⟨s.schedUsecondCounter, s.usecondTmr⟩)]) s := by
  have henter : s.step (.enter .clockGettime) =
      some ({ s with call := some (.clockGettime, s.schedUsecondCounter) }, none) := by
    unfold System.step
    rw [hcall]
    rfl
  have hleave : System.step { s with call := some (.clockGettime, s.schedUsecondCounter) } .leave =
      some (s, some (.clock (clockGettime ⟨s.schedUsecondCounter, s.usecondTmr⟩))) := by
    obtain ⟨counter, timer, pending, offset, call, elapsed, timeSet⟩ := s
    cases hcall
    rfl
  have hrun := (h.snoc (hok _ _) henter).snoc (hok _ _) hleave
  rwa [Option.toList_none, List.append_nil] at hrun

end

/-- The time is read a microsecond before the reset and again after it, before the interrupt is served. -/
theorem not_runsForward : ¬ ∀ (es : List Event) (s : System),
    Run System.step (fun _ _ => True) System.start es s → RunsForward es := by
  intro h
  have hok : ∀ (_ : System) (_ : Action), True := fun _ _ => trivial
  have hlast : System.start.usecondTmr + (overflow - 1) < overflow := by decide
  have hread := run_clockGettime hok rfl (run_ticks hok (overflow - 1) hlast .nil)
  have hreset : System.step
      { System.start with
        usecondTmr := System.start.usecondTmr + (overflow - 1)
        elapsed := System.start.elapsed + (overflow - 1) } .tick =
      some
        ({ System.start with
          usecondTmr := 0
          overflowPending := true
          elapsed := System.start.elapsed + (overflow - 1) + 1 }, none) := by
    have hround : ¬ System.start.usecondTmr + (overflow - 1) + 1 < overflow := by decide
    unfold System.step
    exact if_neg hround
  have hagain := run_clockGettime hok rfl (hread.snoc trivial hreset)
  have hforward := (h _ _ hagain).nonDecreasing
  have hlate : clockGettime ⟨0, overflow - 1⟩ = ⟨2047, 999999000⟩ := by decide
  have hearly : clockGettime ⟨0, 0⟩ = ⟨0, 0⟩ := by decide
  simp only [System.start, Nat.zero_add, hlate, hearly, List.filterMap_cons, List.filterMap_nil,
    Option.toList_none, List.nil_append, List.append_nil, Event.reading, List.cons_append] at hforward
  exact absurd hforward (by decide)

end Time

end CoActionOS
