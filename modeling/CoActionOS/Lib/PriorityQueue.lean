import Mathlib.Order.Defs.LinearOrder
import Mathlib.Order.Lattice
import Mathlib.Tactic.SplitIfs

/-!
# Stable priority queues

A queue is a list in the order of arrival.  What is taken from it is the oldest of the elements of
highest priority: everything before it has a lower priority, nothing behind it a higher one.
-/

namespace CoActionOS

namespace PriorityQueue

variable {α κ : Type*} [LinearOrder κ] (prio : α → κ)

/-- The oldest element of highest priority and what is left without it. -/
def dequeue : List α → Option (α × List α)
  | [] => none
  | x :: xs =>
    match dequeue xs with
    | none => some (x, [])
    | some (y, ys) => if prio x < prio y then some (y, x :: ys) else some (x, xs)

theorem dequeue_eq_none_iff (q : List α) : dequeue prio q = none ↔ q = [] := by
  cases q with
  | nil => exact ⟨fun _ => rfl, fun _ => rfl⟩
  | cons x xs =>
    simp only [dequeue, reduceCtorEq, iff_false]
    cases dequeue prio xs with
    | none => exact fun h => by cases h
    | some p =>
      dsimp only
      split_ifs <;> exact fun h => by cases h

/-- Where the element that is taken stands in the queue. -/
theorem dequeue_spec {q q' : List α} {m : α} (h : dequeue prio q = some (m, q')) :
    ∃ l r, q = l ++ m :: r ∧ q' = l ++ r ∧ (∀ x ∈ l, prio x < prio m) ∧
      ∀ x ∈ r, prio x ≤ prio m := by
  induction q generalizing q' m with
  | nil => cases h
  | cons x xs ih =>
    rw [dequeue] at h
    cases hxs : dequeue prio xs with
    | none =>
      rw [hxs] at h
      obtain ⟨rfl, rfl⟩ : x = m ∧ [] = q' := by simpa using h
      obtain rfl := (dequeue_eq_none_iff prio xs).mp hxs
      exact ⟨[], [], rfl, rfl, fun _ hy => absurd hy List.not_mem_nil,
        fun _ hy => absurd hy List.not_mem_nil⟩
    | some p =>
      obtain ⟨y, ys⟩ := p
      obtain ⟨l, r, hq, hys, hl, hr⟩ := ih hxs
      rw [hxs] at h
      dsimp only at h
      split_ifs at h with hlt
      · obtain ⟨rfl, rfl⟩ : y = m ∧ x :: ys = q' := by simpa using h
        refine ⟨x :: l, r, by rw [hq]; rfl, by rw [hys]; rfl, ?_, hr⟩
        intro z hz
        rcases List.mem_cons.mp hz with rfl | hz
        · exact hlt
        · exact hl z hz
      · obtain ⟨rfl, rfl⟩ : x = m ∧ xs = q' := by simpa using h
        refine ⟨[], xs, rfl, rfl, fun _ hy => absurd hy List.not_mem_nil, ?_⟩
        -- the best of the others is no better than the first, so none of them is
        intro z hz
        rw [hq] at hz
        have hle : prio y ≤ prio x := not_lt.mp hlt
        rcases List.mem_append.mp hz with hz | hz
        · exact le_trans (le_of_lt (hl z hz)) hle
        · rcases List.mem_cons.mp hz with rfl | hz
          · exact hle
          · exact le_trans (hr z hz) hle

end PriorityQueue

end CoActionOS
