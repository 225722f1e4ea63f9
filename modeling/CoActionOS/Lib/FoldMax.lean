import Mathlib.Order.Basic
import Mathlib.Order.Lattice
import Mathlib.Order.OrderDual

/-!
# The loop that looks for a maximum

`for (i …) if (test(i) && f(i) > p) p = f(i);` computes the greatest value of `f` among the entries that
pass the test, and at least the value it starts from.
-/

namespace CoActionOS

variable {α P : Type*} [LinearOrder P]

theorem foldl_max_spec (test : α → Bool) (f : α → P) (l : List α) (start : P) :
    start ≤ l.foldl (fun p i => if test i && f i > p then f i else p) start ∧
      (∀ i ∈ l, test i = true →
        f i ≤ l.foldl (fun p i => if test i && f i > p then f i else p) start) ∧
      (l.foldl (fun p i => if test i && f i > p then f i else p) start = start ∨
        ∃ i ∈ l, test i = true ∧
          f i = l.foldl (fun p i => if test i && f i > p then f i else p) start) := by
  induction l generalizing start with
  | nil => simp
  | cons j l ih =>
    rw [List.foldl_cons]
    by_cases hj : (test j && decide (f j > start)) = true
    · rw [if_pos hj]
      simp only [Bool.and_eq_true, decide_eq_true_eq] at hj
      obtain ⟨hstart, hall, hcases⟩ := ih (f j)
      refine ⟨hj.2.le.trans hstart, ?_, ?_⟩
      · intro i hi hti
        rcases List.mem_cons.mp hi with rfl | hi
        · exact hstart
        · exact hall i hi hti
      · right
        rcases hcases with heq | ⟨i, hi, hti, heq⟩
        · exact ⟨j, List.mem_cons_self .., hj.1, heq.symm⟩
        · exact ⟨i, List.mem_cons_of_mem _ hi, hti, heq⟩
    · rw [if_neg hj]
      simp only [Bool.and_eq_true, decide_eq_true_eq, not_and, not_lt] at hj
      obtain ⟨hstart, hall, hcases⟩ := ih start
      refine ⟨hstart, ?_, ?_⟩
      · intro i hi hti
        rcases List.mem_cons.mp hi with rfl | hi
        · exact (hj hti).trans hstart
        · exact hall i hi hti
      · rcases hcases with heq | ⟨i, hi, hti, heq⟩
        · exact Or.inl heq
        · exact Or.inr ⟨i, List.mem_cons_of_mem _ hi, hti, heq⟩

/-- The same loop the other way round. -/
theorem foldl_min_spec (test : α → Bool) (f : α → P) (l : List α) (start : P) :
    l.foldl (fun p i => if test i && f i < p then f i else p) start ≤ start ∧
      (∀ i ∈ l, test i = true → l.foldl (fun p i => if test i && f i < p then f i else p) start ≤ f i) ∧
      (l.foldl (fun p i => if test i && f i < p then f i else p) start = start ∨
        ∃ i ∈ l, test i = true ∧ f i = l.foldl (fun p i => if test i && f i < p then f i else p) start) :=
  foldl_max_spec (P := OrderDual P) test f l start

end CoActionOS
