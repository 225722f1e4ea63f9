import CoActionOS.Time.Clock

/-!
# The CPU-time clocks

The time of a task is a 64-bit count of core clocks.  `task_timer_to_timespec` gives it to `ldiv`, whose arguments are 32 bits
wide, and multiplies the remainder by `clk_nsec_div`, which is 1024 times the nanoseconds of a clock.

`cpuClock_iff` says at which times the result is right; the scale never is.
-/

namespace CoActionOS

namespace Time

/-! ### The code -/

/-- The frequency of the core, and what the board rounds from it. -/
structure Core where
  /-- `hwpl_core_cpu_freq`, an `int` -/
  clock : Nat
  clkNsecDiv : Nat
  clock_lt : clock < 2 ^ 31
  div_lt : clkNsecDiv < 2 ^ 32
  rounded_down : 1024 * 1000000000 < (clkNsecDiv + 1) * clock
  rounded_up : clkNsecDiv * clock < 1024 * 1000000000 + clock

structure TaskTime where
  pid : Int
  /-- `timer.t` -/
  t : BitVec 64
  rrTime : Int

/-- What `task_gettime` reads; `val` is `SysTick->VAL`. -/
structure TaskTimes where
  total : Nat
  table : Fin total → TaskTime
  current : Fin total
  rrReload : Int
  val : Int

/-- `task_gettime` -/
def TaskTimes.taskGettime (s : TaskTimes) (tid : Fin s.total) : BitVec 64 :=
  if tid ≠ s.current then (s.table tid).t + BitVec.ofInt 64 (s.rrReload - (s.table tid).rrTime)
  else (s.table tid).t + (BitVec.ofInt 32 (s.rrReload - s.val)).setWidth 64

inductive CpuClock where
  | processCputime
  | threadCputime
  deriving DecidableEq, Repr

/-- `task_timer` in `clock_gettime` -/
def TaskTimes.taskTimer (s : TaskTimes) : CpuClock → BitVec 64
  | .processCputime =>
    let pid := (s.table s.current).pid
    (List.finRange s.total).foldl (fun timer i => if (s.table i).pid = pid then timer + s.taskGettime i else timer) 0
  | .threadCputime => s.taskGettime s.current

variable (core : Core)

/-- `task_timer_to_timespec` -/
def taskTimerToTimespec (taskTimer : BitVec 64) : Timespec :=
  let quot := (toLong taskTimer.toNat).tdiv core.clock
  let rem := (toLong taskTimer.toNat).tmod core.clock
  let nanosec := (rem * core.clkNsecDiv) % 2 ^ 32
  ⟨quot, toLong nanosec⟩

/-- `clock_gettime` -/
def cpuClockGettime (s : TaskTimes) (id : CpuClock) : Timespec := taskTimerToTimespec core (s.taskTimer id)

/-- `convert_clocks_to_nanoseconds`; the sum has 64 bits. -/
def convertClocksToNanoseconds (clocks : Int) : Int :=
  toLong ((clocks * core.clkNsecDiv + 512) % 2 ^ 64 / 1024)

/-- `clock_getres` -/
def cpuClockGetres : Timespec := ⟨0, convertClocksToNanoseconds core 1⟩

def schedNanosecondsToClocks (nanoseconds : Int) : Int := nanoseconds * 1024 % 2 ^ 32 / core.clkNsecDiv

/-! ### The statement -/

/-- The time in seconds, and what is left of it in nanoseconds up to one. -/
structure Accurate (t : Nat) (tp : Timespec) : Prop where
  sec : tp.tvSec = (t / core.clock : Nat)
  range : 0 ≤ tp.tvNsec ∧ tp.tvNsec < 1000000000
  near : (1024 * tp.tvNsec - (t % core.clock * core.clkNsecDiv : Nat)).natAbs ≤ 1024

/-- The order of times. -/
def AtMost (a b : Timespec) : Prop := a.tvSec < b.tvSec ∨ a.tvSec = b.tvSec ∧ a.tvNsec ≤ b.tvNsec

def NonDecreasing : Prop := ∀ (s s' : TaskTimes) (id id' : CpuClock), s.taskTimer id ≤ s'.taskTimer id' →
  AtMost (cpuClockGettime core s id) (cpuClockGettime core s' id')

/-- One clock is the resolution that `clock_getres` reports, and back again it is no more than one clock. -/
def SameScale : Prop := ∀ (s : TaskTimes) (id : CpuClock), s.taskTimer id = 1 →
  (cpuClockGettime core s id).tvNsec = (cpuClockGetres core).tvNsec ∧
    schedNanosecondsToClocks core (cpuClockGettime core s id).tvNsec ≤ 1

/-- The clocks convert as they should. -/
structure Converts : Prop where
  accurate : ∀ (s : TaskTimes) (id : CpuClock), Accurate core (s.taskTimer id).toNat (cpuClockGettime core s id)
  nonDecreasing : NonDecreasing core
  scale : SameScale core

/-- A product that is near the multiple of `2 ^ 32` by which it differs from its 1024th part. -/
def Coincides (n : Nat) : Prop := ∃ k, 2 ^ 32 * k ≤ n ∧ n < 2 ^ 32 * k + 1000000000 ∧
  2 ^ 42 * k ≤ 1023 * n + 1024 ∧ 1023 * n ≤ 2 ^ 42 * k + 1024

/-! ### One time -/

variable {core} {t n : Nat}

theorem Core.clock_gt (core : Core) : 238 < core.clock := by
  have hdown := core.rounded_down
  have hdiv := core.div_lt
  by_contra hslow
  have hmul : (core.clkNsecDiv + 1) * core.clock ≤ 2 ^ 32 * 238 := Nat.mul_le_mul hdiv (Nat.not_lt.mp hslow)
  omega

theorem Core.clkNsecDiv_gt (core : Core) : 475 < core.clkNsecDiv := by
  have hdown := core.rounded_down
  have hclock := core.clock_lt
  by_contra hfast
  have hmul : (core.clkNsecDiv + 1) * core.clock ≤ 476 * 2 ^ 31 := Nat.mul_le_mul (by omega) (Nat.le_of_lt hclock)
  omega

/-- `ldiv` gets the lower half of the time. -/
theorem quot_eq_iff (core : Core) (t : Nat) : (toLong t).tdiv core.clock = (t / core.clock : Nat) ↔ t < 2 ^ 31 := by
  have hlt := core.clock_lt
  have hpos := core.clock_gt
  constructor
  · intro h
    by_contra hlong
    obtain ⟨hlo, hhi, k, hk⟩ := toLong_spec t
    rcases Int.lt_or_le (toLong t) 0 with hneg | hnonneg
    · have hquot : 0 < t / core.clock := Nat.div_pos (by omega) (by omega)
      have hle : (-toLong t).tdiv core.clock ≥ 0 := Int.tdiv_nonneg (by omega) (Int.natCast_nonneg _)
      rw [Int.neg_tdiv] at hle
      omega
    · obtain ⟨m, hm⟩ := Int.eq_ofNat_of_zero_le hnonneg
      rw [hm] at h hk
      have hquot : m / core.clock = t / core.clock := Int.ofNat_inj.mp h
      have hstep : m / core.clock + 1 ≤ t / core.clock := by
        rw [← Nat.add_div_right _ (by omega)]
        exact Nat.div_le_div_right (by omega)
      omega
  · intro h
    rw [toLong_of_lt (by omega) (by omega)]
    rfl

/-- The product is cut to 32 bits and not divided by 1024. -/
theorem nanosec_iff (n : Nat) : ((0 ≤ toLong ((n : Int) % 2 ^ 32) ∧ toLong ((n : Int) % 2 ^ 32) < 1000000000) ∧
    (1024 * toLong ((n : Int) % 2 ^ 32) - n).natAbs ≤ 1024) ↔ Coincides n := by
  obtain ⟨hlo, hhi, j, hj⟩ := toLong_spec ((n : Int) % 2 ^ 32)
  constructor
  · rintro ⟨⟨h0, hlt⟩, hnear⟩
    obtain rfl : j = 0 := by omega
    exact ⟨n / 2 ^ 32, by omega, by omega, by omega, by omega⟩
  · rintro ⟨k, hle, hlt, hnear, hnear'⟩
    have hmod : (n : Int) % 2 ^ 32 = n - 2 ^ 32 * k := by omega
    rw [toLong_of_lt (by omega) (by omega), hmod]
    omega

theorem accurate_iff (core : Core) (taskTimer : BitVec 64) : Accurate core taskTimer.toNat (taskTimerToTimespec core taskTimer) ↔
    taskTimer.toNat < 2 ^ 31 ∧ Coincides (taskTimer.toNat % core.clock * core.clkNsecDiv) := by
  unfold taskTimerToTimespec
  generalize taskTimer.toNat = t
  have hshort : t < 2 ^ 31 → (toLong t).tmod core.clock * core.clkNsecDiv = (t % core.clock * core.clkNsecDiv : Nat) := by
    intro h
    rw [toLong_of_lt (by omega) (by omega)]
    rfl
  constructor
  · rintro ⟨hsec, hrange, hnear⟩
    dsimp only at hsec hrange hnear
    have hlt := (quot_eq_iff core t).mp hsec
    rw [hshort hlt] at hrange hnear
    exact ⟨hlt, (nanosec_iff _).mp ⟨hrange, hnear⟩⟩
  · rintro ⟨hlt, hcoincides⟩
    obtain ⟨hrange, hnear⟩ := (nanosec_iff _).mpr hcoincides
    rw [← hshort hlt] at hrange
    have hsec := (quot_eq_iff core t).mpr hlt
    rw [← hshort hlt] at hnear
    refine ⟨?_, ?_, ?_⟩
    · dsimp only
      exact hsec
    · dsimp only
      exact hrange
    · rw [← hshort hlt]
      dsimp only
      exact hnear

/-! ### All times -/

/-- A system with one task that has run for some clocks. -/
def ranFor (t : BitVec 64) : TaskTimes where
  total := 1
  table _ := ⟨0, t, 0⟩
  current := 0
  rrReload := 0
  val := 0

theorem taskTimer_ranFor (t : BitVec 64) : (ranFor t).taskTimer .threadCputime = t := by
  show t + (BitVec.ofInt 32 (0 - 0)).setWidth 64 = t
  simp

/-- The time jumps back when the count reaches half of 32 bits. -/
theorem not_nonDecreasing (core : Core) : ¬ NonDecreasing core := by
  intro h
  have hlt := core.clock_lt
  have hpos := core.clock_gt
  have horder := h (ranFor 0x7FFFFFFF) (ranFor 0x80000000) .threadCputime .threadCputime
    (by rw [taskTimer_ranFor, taskTimer_ranFor]; decide)
  unfold cpuClockGettime at horder
  rw [taskTimer_ranFor, taskTimer_ranFor] at horder
  have hbefore : (taskTimerToTimespec core 0x7FFFFFFF).tvSec = (2147483647 / core.clock : Nat) := by
    have hcount : (0x7FFFFFFF : BitVec 64).toNat = 2147483647 := by decide
    unfold taskTimerToTimespec
    dsimp only
    rw [hcount]
    exact (quot_eq_iff core 2147483647).mpr (by decide)
  have hafter : (taskTimerToTimespec core 0x80000000).tvSec = -(2147483648 / core.clock : Nat) := by
    have hlower : toLong (0x80000000 : BitVec 64).toNat = -(2147483648 : Nat) := by decide
    unfold taskTimerToTimespec
    dsimp only
    rw [hlower, Int.neg_tdiv]
    rfl
  have hsecond : 0 < 2147483647 / core.clock := Nat.div_pos (by omega) (by omega)
  unfold AtMost at horder
  rw [hbefore, hafter] at horder
  generalize 2147483647 / core.clock = before at hsecond horder
  generalize 2147483648 / core.clock = after at horder
  omega

/-- One clock reads as 1024 times the resolution. -/
theorem not_sameScale (core : Core) : ¬ SameScale core := by
  intro h
  have hgt := core.clock_gt
  have hdiv := core.clkNsecDiv_gt
  have hlt := core.div_lt
  have hone := (h (ranFor 1) .threadCputime (taskTimer_ranFor 1)).1
  unfold cpuClockGettime cpuClockGetres convertClocksToNanoseconds at hone
  rw [taskTimer_ranFor] at hone
  unfold taskTimerToTimespec at hone
  have hcount : toLong (1 : BitVec 64).toNat = 1 := by decide
  have hrem : (1 : Int).tmod core.clock = 1 := by rw [Int.tmod_eq_emod_of_nonneg (by decide), Int.emod_eq_of_lt (by decide) (by omega)]
  dsimp only at hone
  rw [hcount, hrem, Int.one_mul, Int.emod_eq_of_lt (by omega) (by omega), Int.emod_eq_of_lt (by omega) (by omega),
    toLong_of_lt (n := (core.clkNsecDiv + 512) / 1024) (by omega) (by omega)] at hone
  rcases Nat.lt_or_ge core.clkNsecDiv (2 ^ 31) with hlow | hhigh
  · rw [toLong_of_lt (by omega) (by omega)] at hone
    omega
  · have hneg : toLong core.clkNsecDiv < 0 := by
      unfold toLong
      omega
    omega

/-- A time is right exactly when the count is below `2 ^ 31` and the product of the remainder coincides with its 1024th part.  No
frequency has clocks that never go back, and none has clocks of the right scale. -/
theorem cpuClock_iff (core : Core) :
    (∀ (s : TaskTimes) (id : CpuClock), Accurate core (s.taskTimer id).toNat (cpuClockGettime core s id) ↔
      (s.taskTimer id).toNat < 2 ^ 31 ∧ Coincides ((s.taskTimer id).toNat % core.clock * core.clkNsecDiv)) ∧
    ¬ NonDecreasing core ∧ ¬ SameScale core :=
  ⟨fun s id => accurate_iff core (s.taskTimer id), not_nonDecreasing core, not_sameScale core⟩

/-- At 100 MHz one clock is 10 nanoseconds, and 10240 is what is read. -/
theorem not_converts : ¬ ∀ core : Core, Converts core := by
  intro h
  have hscale := (h ⟨100000000, 10240, by decide, by decide, by decide, by decide⟩).scale
  exact absurd (hscale (ranFor 1) .threadCputime (taskTimer_ranFor 1)).1 (by decide)

end Time

end CoActionOS
