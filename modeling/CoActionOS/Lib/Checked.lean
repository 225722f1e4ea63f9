import Mathlib.Tactic.Ring

/-!
# Computations with machine integers that are watched for wrapping

A `Checked` value carries, beside what the machine computes, whether every integer on the way to it held what was
stored in it.  The value never depends on the mark: reading `val` alone is running the program.
-/

namespace CoActionOS

structure Checked (α : Type) where
  val : α
  /-- No integer has wrapped. -/
  kept : Bool
  deriving DecidableEq, Repr

namespace Checked

instance : Monad Checked where
  pure a := ⟨a, true⟩
  bind x f := ⟨(f x.val).val, x.kept && (f x.val).kept⟩

/-- What an unsigned integer of `w` bits holds after `n` is stored in it. -/
def unsigned (w : Nat) (n : Int) : Checked Nat :=
  ⟨(n % 2 ^ w).toNat, decide (0 ≤ n ∧ n < 2 ^ w)⟩

/-- What a signed integer of `w + 1` bits holds after `n` is stored in it. -/
def signed (w : Nat) (n : Int) : Checked Int :=
  ⟨(n + 2 ^ w) % 2 ^ (w + 1) - 2 ^ w, decide (-2 ^ w ≤ n ∧ n < 2 ^ w)⟩

variable {α β : Type} {a : α} {x : Checked α} {f : α → Checked β} {w : Nat} {n : Int}

@[simp]
theorem pure_bind_eq : (pure a : Checked α) >>= f = f a := by
  change (⟨(f a).val, true && (f a).kept⟩ : Checked β) = f a
  rw [Bool.true_and]

/-- A value that wrapped spoils what is computed from it. -/
theorem bind_kept_of_not (h : x.kept = false) : (x >>= f).kept = false := by
  change (x.kept && (f x.val).kept) = false
  rw [h, Bool.false_and]

theorem unsigned_of_lt (hlo : 0 ≤ n) (hhi : n < 2 ^ w) : unsigned w n = pure n.toNat := by
  unfold unsigned
  rw [Int.emod_eq_of_lt hlo hhi, decide_eq_true ⟨hlo, hhi⟩]
  rfl

theorem unsigned_kept_of_not (h : ¬ (0 ≤ n ∧ n < 2 ^ w)) : (unsigned w n).kept = false :=
  decide_eq_false h

theorem signed_of_lt (hlo : -2 ^ w ≤ n) (hhi : n < 2 ^ w) : signed w n = pure n := by
  have hpow : (2 : Int) ^ (w + 1) = 2 ^ w + 2 ^ w := by ring
  unfold signed
  rw [Int.emod_eq_of_lt (by omega) (by omega), decide_eq_true ⟨hlo, hhi⟩, add_sub_cancel_right]
  rfl

theorem signed_kept_of_not (h : ¬ (-2 ^ w ≤ n ∧ n < 2 ^ w)) : (signed w n).kept = false :=
  decide_eq_false h

end Checked

end CoActionOS
