import CoActionOS.Lib.Checked
import CoActionOS.Time.Clock

/-!
# The deadlines of `sleep`, `usleep` and `sched_convert_timespec`

A deadline is an epoch of `SCHED_TIMEVAL_SECONDS` seconds and the microseconds in it.  Each of the three functions
splits a duration or a date and carries by itself.  Each carries only beyond the boundary, so that a deadline on the
boundary has a whole epoch in its microseconds, which the timer never reaches; and from an epoch on `sleep` takes the
seconds that are left for microseconds.  `deadline_exact_iff` says exactly when what is handed to
`sched_priv_timedblock` is the time that was asked for.
-/

namespace CoActionOS

namespace Time

open Checked

/-- A time of the scheduler, as the timer and its interrupt keep it. -/
structure SchedTimeval.Normal (tv : SchedTimeval) : Prop where
  sec : tv.tvSec < 2 ^ 32
  usec : tv.tvUsec < overflow

/-- The time in microseconds. -/
def SchedTimeval.toUsec (tv : SchedTimeval) : Int := tv.tvSec * overflow + tv.tvUsec

/-- The date in microseconds, rounded to the nearest. -/
def Timespec.toUsec (ts : Timespec) : Int := (ts.tvSec * 1000000000 + ts.tvNsec + 500) / 1000

/-- A `struct timespec` of 32-bit fields with a fraction below a second. -/
structure Timespec.Valid (ts : Timespec) : Prop where
  sec : -2 ^ 31 ≤ ts.tvSec ∧ ts.tvSec < 2 ^ 31
  nsec : 0 ≤ ts.tvNsec ∧ ts.tvNsec < 1000000000

/-! ### The code -/

/-- The interval of `sleep`. -/
def sleepInterval (seconds : Nat) : Checked SchedTimeval :=
  if seconds < schedTimevalSeconds then do
    let tvUsec ← unsigned 32 (seconds * 1000000)
    return ⟨0, tvUsec⟩
  else do
    -- `div` takes an `int`
    let numer ← signed 31 seconds
    let tvSec ← unsigned 32 (numer.tdiv schedTimevalSeconds)
    let tvUsec ← unsigned 32 (numer.tmod schedTimevalSeconds)
    return ⟨tvSec, tvUsec⟩

/-- The carry at the end of `priv_sleep` and of `priv_usleep`. -/
def carry (tvSec tvUsec : Nat) : Checked SchedTimeval :=
  if tvUsec > overflow then do
    let tvSec ← unsigned 32 (tvSec + 1)
    let tvUsec ← unsigned 32 (tvUsec - overflow)
    return ⟨tvSec, tvUsec⟩
  else
    return ⟨tvSec, tvUsec⟩

def privSleep (now p : SchedTimeval) : Checked SchedTimeval := do
  let tvSec ← unsigned 32 (now.tvSec + p.tvSec)
  let tvUsec ← unsigned 32 (now.tvUsec + p.tvUsec)
  carry tvSec tvUsec

def privUsleep (now : SchedTimeval) (useconds : Nat) : Checked SchedTimeval := do
  let tvUsec ← unsigned 32 (now.tvUsec + useconds)
  carry now.tvSec tvUsec

/-- The deadline of `sleep`, if the caller `current` is one of the tasks that sleep. -/
def sleep (current : Nat) (now : SchedTimeval) (seconds : Nat) : Option (Checked SchedTimeval) :=
  if current ≠ 0 then some (sleepInterval seconds >>= privSleep now) else none

def schedUsecondsToClocks (clkUsecMult useconds : Nat) : Nat := clkUsecMult * useconds % 2 ^ 32

/-- `useconds -= (600 / tmp)` -/
def usleepAdjusted (clkUsecMult useconds : Nat) : Checked Nat :=
  unsigned 32 (useconds - (600 / schedUsecondsToClocks clkUsecMult 1 : Nat))

/-- The deadline of `usleep`, unless it returns at once, fails or counts the time off with `nop`. -/
def usleep (clkUsecMult current : Nat) (now : SchedTimeval) (useconds : Nat) : Option (Checked SchedTimeval) :=
  if useconds = 0 then none
  else if useconds ≤ 1000000 then
    if current = 0 ∨ schedUsecondsToClocks clkUsecMult useconds < 8000 then none
    else some (usleepAdjusted clkUsecMult useconds >>= privUsleep now)
  else none

/-- `sched_convert_timespec` of a pointer that is not null. -/
def schedConvertTimespec (ts : Timespec) : Checked SchedTimeval := do
  let tvSec ← unsigned 32 (ts.tvSec.tdiv schedTimevalSeconds)
  let usec ← signed 31 (ts.tvSec.tmod schedTimevalSeconds * 1000000)
  let nsec ← signed 31 (ts.tvNsec + 500)
  let sum ← signed 31 (usec + nsec.tdiv 1000)
  let tvUsec ← unsigned 32 sum
  return ⟨tvSec, tvUsec⟩

/-! ### When a deadline is the time that was asked for -/

/-- The deadline is the time `due`, in normal form, and nothing wrapped on the way to it. -/
structure Exact (d : Checked SchedTimeval) (due : Int) : Prop where
  kept : d.kept = true
  normal : d.val.tvUsec < overflow
  toUsec : SchedTimeval.toUsec d.val = due

instance (d : Checked SchedTimeval) (due : Int) : Decidable (Exact d due) :=
  decidable_of_iff (d.kept = true ∧ d.val.tvUsec < overflow ∧ SchedTimeval.toUsec d.val = due)
    ⟨fun ⟨h1, h2, h3⟩ => ⟨h1, h2, h3⟩, fun h => ⟨h.kept, h.normal, h.toUsec⟩⟩

/-- The microseconds do not end on the boundary of an epoch, and the epochs do not run out. -/
def Reached (now : SchedTimeval) (tvUsec usec : Nat) : Prop :=
  now.tvUsec + tvUsec ≠ overflow ∧ SchedTimeval.toUsec now + usec < 2 ^ 32 * overflow

theorem not_exact_of_not_kept {d : Checked SchedTimeval} {due : Int} (h : d.kept = false) : ¬ Exact d due := by
  intro he
  rw [he.kept] at h
  exact nomatch h

@[simp]
theorem exact_pure_iff {tv : SchedTimeval} {due : Int} :
    Exact (pure tv) due ↔ tv.tvUsec < overflow ∧ SchedTimeval.toUsec tv = due :=
  ⟨fun h => ⟨h.normal, h.toUsec⟩, fun h => ⟨rfl, h.1, h.2⟩⟩

theorem overflow_eq : overflow = 2048000000 := rfl

theorem exact_iff_of_eq {tvSec tvUsec : Nat} {due : Int} (h : tvUsec < overflow) :
    Exact (pure ⟨tvSec, tvUsec⟩) due ↔ due = tvSec * 2048000000 + tvUsec := by
  rw [exact_pure_iff]
  exact ⟨fun h => h.2.symm, fun hdue => ⟨h, hdue.symm⟩⟩

/-- The sum of a time and a normal interval, carried once. -/
theorem exact_carry_iff {tvSec tvUsec : Nat} (hsec : tvSec < 2 ^ 32) (husec : tvUsec < 2 * overflow) {due : Int} :
    Exact (carry tvSec tvUsec) due ↔
      due = tvSec * 2048000000 + tvUsec ∧ tvUsec ≠ overflow ∧ due < 2 ^ 32 * 2048000000 := by
  have hoverflow := overflow_eq
  unfold carry
  split_ifs with h
  · have husec' : unsigned 32 (tvUsec - overflow) = pure (tvUsec - overflow) := by
      have hsub : ((tvUsec : Int) - (overflow : Nat)).toNat = tvUsec - overflow := by omega
      rw [unsigned_of_lt (by omega) (by omega), hsub]
    by_cases hlast : tvSec + 1 < 2 ^ 32
    · have hsec' : unsigned 32 (tvSec + 1) = pure (tvSec + 1) := unsigned_of_lt (by omega) (by omega)
      rw [hsec', husec', pure_bind_eq, pure_bind_eq, exact_iff_of_eq (by omega)]
      omega
    · have hkept : (unsigned 32 (tvSec + 1)).kept = false := unsigned_kept_of_not (by omega)
      refine iff_of_false (not_exact_of_not_kept (bind_kept_of_not hkept)) ?_
      omega
  · by_cases hlt : tvUsec < overflow
    · rw [exact_iff_of_eq hlt]
      omega
    · refine iff_of_false (fun h => hlt h.normal) ?_
      omega

theorem toUsec_eq (tv : SchedTimeval) : SchedTimeval.toUsec tv = tv.tvSec * 2048000000 + tv.tvUsec := rfl

variable {now : SchedTimeval}

theorem exact_privSleep_iff (hnow : SchedTimeval.Normal now) {tvSec tvUsec : Nat} (hsec : tvSec < 2 ^ 21)
    (husec : tvUsec < overflow) {due : Int} :
    Exact (privSleep now ⟨tvSec, tvUsec⟩) due ↔
      due = SchedTimeval.toUsec now + (tvSec * 2048000000 + tvUsec) ∧ now.tvUsec + tvUsec ≠ overflow ∧
        due < 2 ^ 32 * 2048000000 := by
  have hoverflow := overflow_eq
  have hnowSec := hnow.sec
  have hnowUsec := hnow.usec
  have husec' : unsigned 32 (now.tvUsec + tvUsec) = pure (now.tvUsec + tvUsec) :=
    unsigned_of_lt (by omega) (by omega)
  rw [toUsec_eq]
  unfold privSleep
  by_cases hlast : now.tvSec + tvSec < 2 ^ 32
  · have hsec' : unsigned 32 (now.tvSec + tvSec) = pure (now.tvSec + tvSec) :=
      unsigned_of_lt (by omega) (by omega)
    rw [hsec', husec', pure_bind_eq, pure_bind_eq, exact_carry_iff hlast (by omega)]
    omega
  · have hkept : (unsigned 32 (now.tvSec + tvSec)).kept = false := unsigned_kept_of_not (by omega)
    refine iff_of_false (not_exact_of_not_kept (bind_kept_of_not hkept)) ?_
    omega

theorem exact_privUsleep_iff (hnow : SchedTimeval.Normal now) {useconds : Nat} (h : useconds < overflow)
    {due : Int} :
    Exact (privUsleep now useconds) due ↔
      due = SchedTimeval.toUsec now + useconds ∧ now.tvUsec + useconds ≠ overflow ∧
        due < 2 ^ 32 * 2048000000 := by
  have hoverflow := overflow_eq
  have hnowUsec := hnow.usec
  have husec : unsigned 32 (now.tvUsec + useconds) = pure (now.tvUsec + useconds) :=
    unsigned_of_lt (by omega) (by omega)
  unfold privUsleep
  rw [husec, pure_bind_eq, exact_carry_iff hnow.sec (by omega), toUsec_eq]
  omega

/-! ### `sleep` -/

theorem sleepInterval_of_lt {seconds : Nat} (h : seconds < schedTimevalSeconds) :
    sleepInterval seconds = pure ⟨0, seconds * 1000000⟩ := by
  have hseconds : schedTimevalSeconds = 2048 := rfl
  have husec : unsigned 32 (seconds * 1000000) = pure (seconds * 1000000) :=
    unsigned_of_lt (by omega) (by omega)
  unfold sleepInterval
  rw [if_pos h, husec, pure_bind_eq]

/-- The seconds that are left stand for microseconds. -/
theorem sleepInterval_of_le {seconds : Nat} (h : schedTimevalSeconds ≤ seconds) (hint : seconds < 2 ^ 31) :
    sleepInterval seconds = pure ⟨seconds / 2048, seconds % 2048⟩ := by
  have hseconds : schedTimevalSeconds = 2048 := rfl
  have hnumer : signed 31 seconds = pure (seconds : Int) := signed_of_lt (by omega) (by omega)
  have hquot : unsigned 32 ((seconds : Int).tdiv schedTimevalSeconds) = pure (seconds / 2048) := by
    rw [hseconds, ← Int.ofNat_tdiv]
    exact unsigned_of_lt (by omega) (by omega)
  have hrem : unsigned 32 ((seconds : Int).tmod schedTimevalSeconds) = pure (seconds % 2048) := by
    rw [hseconds, ← Int.ofNat_tmod]
    exact unsigned_of_lt (by omega) (by omega)
  unfold sleepInterval
  rw [if_neg (by omega), hnumer, pure_bind_eq, hquot, pure_bind_eq, hrem, pure_bind_eq]

/-- A duration below an epoch does not end on its boundary; a longer one is a whole number of epochs and an `int`. -/
def SleepKept (now : SchedTimeval) (seconds : Nat) : Prop :=
  if seconds < schedTimevalSeconds then now.tvUsec + seconds * 1000000 ≠ overflow
  else schedTimevalSeconds ∣ seconds ∧ seconds < 2 ^ 31

theorem exact_sleep_iff (hnow : SchedTimeval.Normal now) {seconds : Nat} :
    Exact (sleepInterval seconds >>= privSleep now) (SchedTimeval.toUsec now + seconds * 1000000) ↔
      SleepKept now seconds ∧ SchedTimeval.toUsec now + seconds * 1000000 < 2 ^ 32 * overflow := by
  have hseconds : schedTimevalSeconds = 2048 := rfl
  have hoverflow := overflow_eq
  have hnowUsec := hnow.usec
  unfold SleepKept
  split_ifs with h
  · rw [sleepInterval_of_lt h, pure_bind_eq, exact_privSleep_iff hnow (by omega) (by omega), toUsec_eq, hoverflow]
    omega
  · rw [hseconds] at h ⊢
    by_cases hint : seconds < 2 ^ 31
    · rw [sleepInterval_of_le (by omega) hint, pure_bind_eq,
        exact_privSleep_iff hnow (by omega) (by omega), toUsec_eq, hoverflow]
      omega
    · -- `div` is given a negative number
      have hkept : (sleepInterval seconds).kept = false := by
        unfold sleepInterval
        rw [if_neg (by omega)]
        exact bind_kept_of_not (signed_kept_of_not (by omega))
      refine iff_of_false (not_exact_of_not_kept (bind_kept_of_not hkept)) ?_
      omega

/-! ### `usleep` -/

/-- The adjustment is less than what it is taken from, since the caller has at least 8000 clocks to wait. -/
theorem usleepAdjusted_of_le {clkUsecMult useconds : Nat} (hmult : clkUsecMult < 2 ^ 32)
    (h : 8000 ≤ schedUsecondsToClocks clkUsecMult useconds) (hle : useconds ≤ 1000000) :
    600 / clkUsecMult ≤ useconds ∧ usleepAdjusted clkUsecMult useconds = pure (useconds - 600 / clkUsecMult) := by
  have hclocks : 8000 ≤ clkUsecMult * useconds := h.trans (Nat.mod_le _ _)
  have hone : schedUsecondsToClocks clkUsecMult 1 = clkUsecMult := by
    unfold schedUsecondsToClocks
    rw [mul_one, Nat.mod_eq_of_lt hmult]
  have hpos : 0 < clkUsecMult := by
    refine Nat.pos_of_ne_zero fun hzero => ?_
    rw [hzero, Nat.zero_mul] at hclocks
    exact absurd hclocks (by decide)
  have hadjust : 600 / clkUsecMult ≤ useconds := by
    refine Nat.div_le_of_le_mul ?_
    omega
  refine ⟨hadjust, ?_⟩
  unfold usleepAdjusted
  have hle' : useconds - 600 / clkUsecMult ≤ useconds := Nat.sub_le _ _
  rw [hone, ← Int.ofNat_sub hadjust]
  exact unsigned_of_lt (by omega) (by omega)

/-- The arguments with which `usleep` leaves the processor. -/
def Usleeps (clkUsecMult current useconds : Nat) : Prop :=
  current ≠ 0 ∧ useconds ≤ 1000000 ∧ 8000 ≤ schedUsecondsToClocks clkUsecMult useconds

theorem mem_usleep_iff {clkUsecMult current useconds : Nat} {d : Checked SchedTimeval} :
    d ∈ usleep clkUsecMult current now useconds ↔
      Usleeps clkUsecMult current useconds ∧ d = (usleepAdjusted clkUsecMult useconds >>= privUsleep now) := by
  unfold usleep Usleeps
  split_ifs with hzero hle hspin
  · have hclocks : schedUsecondsToClocks clkUsecMult useconds = 0 := by
      unfold schedUsecondsToClocks
      rw [hzero, Nat.mul_zero, Nat.zero_mod]
    refine iff_of_false (Option.not_mem_none d) ?_
    omega
  · refine iff_of_false (Option.not_mem_none d) ?_
    omega
  · rw [Option.mem_def, Option.some.injEq, eq_comm]
    refine (and_iff_right ?_).symm
    omega
  · refine iff_of_false (Option.not_mem_none d) ?_
    omega

theorem exact_usleep_iff (hnow : SchedTimeval.Normal now) {clkUsecMult useconds : Nat} (hmult : clkUsecMult < 2 ^ 32)
    (h : 8000 ≤ schedUsecondsToClocks clkUsecMult useconds) (hle : useconds ≤ 1000000) :
    Exact (usleepAdjusted clkUsecMult useconds >>= privUsleep now)
        (SchedTimeval.toUsec now + (useconds - 600 / clkUsecMult : Nat)) ↔
      now.tvUsec + (useconds - 600 / clkUsecMult) ≠ overflow ∧
        SchedTimeval.toUsec now + (useconds - 600 / clkUsecMult : Nat) < 2 ^ 32 * overflow := by
  obtain ⟨-, hadjusted⟩ := usleepAdjusted_of_le hmult h hle
  have hoverflow := overflow_eq
  have hle' : useconds - 600 / clkUsecMult ≤ useconds := Nat.sub_le _ _
  rw [hadjusted, pure_bind_eq, exact_privUsleep_iff hnow (by omega), hoverflow]
  omega

/-! ### `sched_convert_timespec` -/

/-- Quotient and remainder have the sign of the dividend. -/
theorem div_spec (n : Int) :
    n = n.tdiv 2048 * 2048 + n.tmod 2048 ∧ (0 ≤ n → 0 ≤ n.tdiv 2048 ∧ 0 ≤ n.tmod 2048 ∧ n.tmod 2048 < 2048) ∧
      (n ≤ 0 → n.tdiv 2048 ≤ 0 ∧ n.tmod 2048 ≤ 0 ∧ -2048 < n.tmod 2048) := by
  refine ⟨(Int.tdiv_mul_add_tmod n 2048).symm, fun h => ?_, fun h => ?_⟩
  · rw [Int.tdiv_eq_ediv_of_nonneg h, Int.tmod_eq_emod_of_nonneg h]
    omega
  · obtain ⟨m, rfl⟩ : ∃ m, n = -m := ⟨-n, (neg_neg n).symm⟩
    have hm : 0 ≤ m := by omega
    rw [Int.neg_tdiv, Int.neg_tmod, Int.tdiv_eq_ediv_of_nonneg hm, Int.tmod_eq_emod_of_nonneg hm]
    omega

/-- The microseconds, rounded. -/
def convertUsec (ts : Timespec) : Int := ts.tvSec.tmod 2048 * 1000000 + (ts.tvNsec + 500) / 1000

/-- No `int` on the way overflows. -/
theorem schedConvertTimespec_eq {ts : Timespec} (h : Timespec.Valid ts) :
    schedConvertTimespec ts = (do
      let tvSec ← unsigned 32 (ts.tvSec.tdiv 2048)
      let tvUsec ← unsigned 32 (convertUsec ts)
      return ⟨tvSec, tvUsec⟩) := by
  obtain ⟨-, hnsec⟩ := h
  obtain ⟨-, hnonneg, hnonpos⟩ := div_spec ts.tvSec
  have husec : signed 31 (ts.tvSec.tmod 2048 * 1000000) = pure (ts.tvSec.tmod 2048 * 1000000) :=
    signed_of_lt (by omega) (by omega)
  have hround : signed 31 (ts.tvNsec + 500) = pure (ts.tvNsec + 500) := signed_of_lt (by omega) (by omega)
  have hsum : signed 31 (ts.tvSec.tmod 2048 * 1000000 + (ts.tvNsec + 500).tdiv 1000) = pure (convertUsec ts) := by
    rw [Int.tdiv_eq_ediv_of_nonneg (by omega)]
    exact signed_of_lt (by omega) (by omega)
  have hseconds : (schedTimevalSeconds : Int) = 2048 := rfl
  unfold schedConvertTimespec
  simp only [hseconds, husec, hround, hsum, pure_bind_eq]

/-- The value is the one that the model of the scheduler has. -/
theorem schedConvertTimespec_val {ts : Timespec} (h : Timespec.Valid ts) :
    (schedConvertTimespec ts).val = Sched.schedConvertTimespec (some ts) := by
  have husec : convertUsec ts = ts.tvSec.tmod 2048 * 1000000 + (ts.tvNsec + 500).tdiv 1000 := by
    rw [Int.tdiv_eq_ediv_of_nonneg (by have := h.nsec; omega)]
    rfl
  rw [schedConvertTimespec_eq h, husec]
  rfl

/-- The date is not before the first epoch, and rounding does not lift it to the end of one. -/
def ConvertKept (ts : Timespec) : Prop :=
  0 ≤ Timespec.toUsec ts ∧ ¬ (ts.tvSec.tmod schedTimevalSeconds = 2047 ∧ 999999500 ≤ ts.tvNsec)

theorem exact_schedConvertTimespec_iff {ts : Timespec} (h : Timespec.Valid ts) :
    Exact (schedConvertTimespec ts) (Timespec.toUsec ts) ↔ ConvertKept ts := by
  rw [schedConvertTimespec_eq h]
  obtain ⟨⟨hlo, hhi⟩, hnsec⟩ := h
  obtain ⟨hdiv, hnonneg, hnonpos⟩ := div_spec ts.tvSec
  have hoverflow := overflow_eq
  have hseconds : (schedTimevalSeconds : Int) = 2048 := rfl
  have hround : Timespec.toUsec ts = ts.tvSec.tdiv 2048 * 2048000000 + convertUsec ts := by
    unfold Timespec.toUsec convertUsec
    omega
  have husec : convertUsec ts = ts.tvSec.tmod 2048 * 1000000 + (ts.tvNsec + 500) / 1000 := rfl
  unfold ConvertKept
  rw [hround, hseconds]
  by_cases hsec : 0 ≤ ts.tvSec.tdiv 2048
  · rw [unsigned_of_lt hsec (by omega), pure_bind_eq]
    by_cases husec0 : 0 ≤ convertUsec ts
    · rw [unsigned_of_lt husec0 (by omega), pure_bind_eq, exact_pure_iff, toUsec_eq]
      dsimp only
      omega
    · refine iff_of_false (not_exact_of_not_kept (bind_kept_of_not (unsigned_kept_of_not (by omega)))) ?_
      omega
  · refine iff_of_false (not_exact_of_not_kept (bind_kept_of_not (unsigned_kept_of_not (by omega)))) ?_
    omega

/-! ### The claim about all three -/

/-- What the three functions hand over is the time that was asked for. -/
def DeadlinesExact : Prop :=
  (∀ current now seconds, SchedTimeval.Normal now → seconds < 2 ^ 32 →
    ∀ d ∈ sleep current now seconds, Exact d (SchedTimeval.toUsec now + seconds * 1000000)) ∧
  (∀ ts, Timespec.Valid ts → Exact (schedConvertTimespec ts) (Timespec.toUsec ts)) ∧
  ∀ clkUsecMult current now useconds, SchedTimeval.Normal now → clkUsecMult < 2 ^ 32 → useconds < 2 ^ 32 →
    ∀ d ∈ usleep clkUsecMult current now useconds,
      Exact d (SchedTimeval.toUsec now + (useconds - 600 / clkUsecMult : Nat))

/-- A `sleep` of 2049 seconds takes one epoch and a microsecond. -/
theorem not_deadlinesExact : ¬ DeadlinesExact := by
  intro h
  have hnow : SchedTimeval.Normal ⟨0, 0⟩ := ⟨by decide, by decide⟩
  have hexact := h.1 1 ⟨0, 0⟩ 2049 hnow (by decide) ⟨⟨1, 1⟩, true⟩ (by decide)
  exact absurd hexact (by decide)

/-- Exactly when the deadline is the time that was asked for: `sleep` up to an epoch or for whole epochs, `usleep`,
and `sched_convert_timespec` of a date that rounds to one within its epoch; where none of them ends on the boundary of
an epoch and the epochs do not run out. -/
theorem deadline_exact_iff {now : SchedTimeval} (hnow : SchedTimeval.Normal now) {clkUsecMult : Nat}
    (hmult : clkUsecMult < 2 ^ 32) (current : Nat) :
    (∀ seconds, (∀ d ∈ sleep current now seconds, Exact d (SchedTimeval.toUsec now + seconds * 1000000)) ↔
      (current ≠ 0 → SleepKept now seconds ∧
        SchedTimeval.toUsec now + seconds * 1000000 < 2 ^ 32 * overflow)) ∧
    (∀ ts, Timespec.Valid ts → (Exact (schedConvertTimespec ts) (Timespec.toUsec ts) ↔ ConvertKept ts)) ∧
    ∀ useconds, (∀ d ∈ usleep clkUsecMult current now useconds,
        Exact d (SchedTimeval.toUsec now + (useconds - 600 / clkUsecMult : Nat))) ↔
      (Usleeps clkUsecMult current useconds → now.tvUsec + (useconds - 600 / clkUsecMult) ≠ overflow ∧
        SchedTimeval.toUsec now + (useconds - 600 / clkUsecMult : Nat) < 2 ^ 32 * overflow) := by
  refine ⟨fun seconds => ?_, fun ts hts => exact_schedConvertTimespec_iff hts, fun useconds => ?_⟩
  · unfold sleep
    split_ifs with hcurrent
    · rw [imp_iff_right hcurrent, ← exact_sleep_iff hnow]
      refine ⟨fun h => h _ rfl, fun h d hd => ?_⟩
      obtain rfl := Option.some.inj hd
      exact h
    · exact ⟨fun _ h => absurd h hcurrent, fun _ d hd => absurd hd (Option.not_mem_none d)⟩
  · constructor
    · intro h hsleeps
      exact (exact_usleep_iff hnow hmult hsleeps.2.2 hsleeps.2.1).mp (h _ (mem_usleep_iff.mpr ⟨hsleeps, rfl⟩))
    · intro h d hd
      obtain ⟨hsleeps, rfl⟩ := mem_usleep_iff.mp hd
      exact (exact_usleep_iff hnow hmult hsleeps.2.2 hsleeps.2.1).mpr (h hsleeps)

/-- Ten minutes that end in the next epoch. -/
theorem deadline_exact_iff_next_epoch :
    Exact ⟨⟨3, 52000000⟩, true⟩ (SchedTimeval.toUsec ⟨2, 1500000000⟩ + (600 : Nat) * 1000000) := by
  have hnow : SchedTimeval.Normal ⟨2, 1500000000⟩ := ⟨by decide, by decide⟩
  have hmult : 72 < 2 ^ 32 := by decide
  have hsleep : (⟨⟨3, 52000000⟩, true⟩ : Checked SchedTimeval) ∈ sleep 1 ⟨2, 1500000000⟩ 600 := by decide
  refine ((deadline_exact_iff hnow hmult 1).1 600).mpr (fun _ => ⟨?_, by decide⟩) _ hsleep
  rw [SleepKept, if_pos (by decide)]
  decide

end Time

end CoActionOS
