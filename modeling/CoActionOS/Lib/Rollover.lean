import Mathlib.Data.Nat.Basic
import Mathlib.Tactic.Ring

/-!
# A counter continued in software

A hardware counter runs through `period` values and starts again; a handler that is run later counts how often it
has done so.  Between the two the software count is one short: what is read then is a whole period behind.
-/

namespace CoActionOS

/-- The counter, the count of its rounds and whether the last round is still to be counted. -/
structure Rollover where
  epoch : Nat
  phase : Nat
  pending : Bool
  deriving DecidableEq, Repr

namespace Rollover

variable (period : Nat) (r : Rollover)

/-- What a reader sees. -/
def reading : Nat := r.epoch * period + r.phase

/-- The ticks there have been. -/
def value : Nat := (r.epoch + r.pending.toNat) * period + r.phase

def tick : Rollover :=
  if r.phase + 1 < period then { r with phase := r.phase + 1 } else { r with phase := 0, pending := true }

/-- The handler. -/
def serve : Rollover :=
  if r.pending then { r with epoch := r.epoch + 1, pending := false } else r

/-- The next tick starts a round. -/
def Last : Prop := ¬ r.phase + 1 < period

instance : Decidable (r.Last period) :=
  inferInstanceAs (Decidable (¬ _))

variable {period r}

theorem tick_phase_lt (h : 0 < period) : (r.tick period).phase < period := by
  unfold tick
  split_ifs with hlt
  · exact hlt
  · exact h

theorem value_tick (hphase : r.phase < period) (hserved : r.Last period → r.pending = false) :
    (r.tick period).value period = r.value period + 1 := by
  unfold tick
  split_ifs with hlt
  · rfl
  · -- the round that ends was counted, so that the one now pending is the only one
    have hlast : r.phase + 1 = period := by omega
    have hround : (r.epoch + 1) * period + 0 = (r.epoch + 0) * period + r.phase + 1 := by
      rw [Nat.add_assoc _ r.phase 1, hlast]
      ring
    unfold value
    rw [hserved hlt]
    exact hround

@[simp]
theorem serve_phase : r.serve.phase = r.phase := by
  unfold serve
  split_ifs <;> rfl

@[simp]
theorem serve_pending : r.serve.pending = false := by
  unfold serve
  split_ifs with h
  · rfl
  · exact Bool.eq_false_iff.mpr h

@[simp]
theorem value_serve : r.serve.value period = r.value period := by
  unfold serve
  split_ifs with h
  · unfold value
    rw [h]
    rfl
  · rfl

theorem reading_of_served (h : r.pending = false) : r.reading period = r.value period := by
  unfold reading value
  rw [h]
  rfl

theorem reading_of_pending (h : r.pending = true) : r.reading period + period = r.value period := by
  unfold reading value
  rw [h, Bool.toNat_true]
  ring

end Rollover

end CoActionOS
