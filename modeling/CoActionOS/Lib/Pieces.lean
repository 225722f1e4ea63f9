import Mathlib.Data.List.Basic

/-!
# A list sent piece by piece

What is sent of a list in so many pieces, each of which has `n` elements as long as there are that many.
-/

namespace CoActionOS

namespace Pieces

variable {α : Type*}

/-- The next `k` pieces. -/
def pieces (n : Nat) : Nat → List α → List (List α)
  | 0, _ => []
  | k + 1, xs => xs.take n :: pieces n k (xs.drop n)

/-- Pieces of at most `n` elements bring `r` as far as that many can. -/
structure Brings (n : Nat) (r : List α) (ps : List (List α)) : Prop where
  length_le : ∀ p ∈ ps, p.length ≤ n
  flatten : ps.flatten = r.take (n * ps.length)

variable {n k : Nat} {xs r : List α}

theorem length_pieces : (pieces n k xs).length = k := by
  induction k generalizing xs with
  | zero => rfl
  | succ k ih => exact congrArg (· + 1) ih

theorem length_le_of_mem {p : List α} (hp : p ∈ pieces n k xs) : p.length ≤ n := by
  induction k generalizing xs with
  | zero => exact nomatch hp
  | succ k ih =>
    rcases List.mem_cons.mp hp with rfl | hp
    · exact List.length_take_le n xs
    · exact ih hp

theorem flatten_pieces : (pieces n k xs).flatten = xs.take (n * k) := by
  induction k generalizing xs with
  | zero => rw [Nat.mul_zero, List.take_zero]; rfl
  | succ k ih => rw [pieces, List.flatten_cons, ih, Nat.mul_succ, Nat.add_comm, List.take_add]

/-- The pieces of a list bring `r` at every time exactly if it is `r`. -/
theorem forall_brings_pieces_iff (hn : 0 < n) : (∀ k, Brings n r (pieces n (k + 1) xs)) ↔ xs = r := by
  constructor
  · intro h
    have hflatten := (h (xs.length + r.length)).flatten
    rw [flatten_pieces, length_pieces] at hflatten
    have hlong : xs.length + r.length + 1 ≤ n * (xs.length + r.length + 1) := Nat.le_mul_of_pos_left _ hn
    rwa [List.take_of_length_le (by omega), List.take_of_length_le (by omega)] at hflatten
  · rintro rfl k
    refine ⟨fun p hp => length_le_of_mem hp, ?_⟩
    rw [flatten_pieces, length_pieces]

/-- After an empty piece the pieces of a list bring nothing at every time exactly if it is empty. -/
theorem forall_brings_nil_iff (hn : 0 < n) : (∀ k, Brings n [] ([] :: pieces n k xs)) ↔ xs = [] := by
  constructor
  · intro h
    have hflatten := (h xs.length).flatten
    have hlong : xs.length ≤ n * xs.length := Nat.le_mul_of_pos_left _ hn
    rwa [List.flatten_cons, List.nil_append, flatten_pieces, List.take_of_length_le hlong, List.take_nil] at hflatten
  · rintro rfl k
    refine ⟨fun p hp => ?_, ?_⟩
    · rcases List.mem_cons.mp hp with rfl | hp
      · exact Nat.zero_le n
      · exact length_le_of_mem hp
    · rw [List.flatten_cons, List.nil_append, flatten_pieces, List.take_nil, List.take_nil]

end Pieces

end CoActionOS
