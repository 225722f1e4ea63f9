import Mathlib.Data.List.Basic
import Mathlib.Data.List.TakeWhile

/-!
# Runs

The maximal runs of a list: what is between the elements that a predicate holds of, the empty pieces left out.
-/

namespace CoActionOS

variable {α β : Type*} {p : α → Bool} {x : α} {l l' : List α}

/-- The maximal runs of elements that are no separators. -/
def runs (p : α → Bool) (l : List α) : List (List α) := (l.splitOnP p).filter (· ≠ [])

namespace Runs

theorem nil (p : α → Bool) : runs p [] = [] := rfl

/-- The runs on both sides of a separator. -/
theorem append_cons (hx : p x) (l l' : List α) : runs p (l ++ x :: l') = runs p l ++ runs p l' := by
  rw [runs, List.splitOnP_append_cons l l' hx, List.filter_append]
  rfl

theorem cons_of_pos (hx : p x) (l : List α) : runs p (x :: l) = runs p l := append_cons hx [] l

theorem of_forall_not (hne : l ≠ []) (h : ∀ y ∈ l, p y = false) : runs p l = [l] := by
  rw [runs, List.splitOnP_eq_singleton h]
  exact List.filter_eq_self.mpr fun y hy => decide_eq_true (List.mem_singleton.mp hy ▸ hne)

/-- The first run goes to the first separator. -/
theorem cons_of_neg (hx : p x = false) (l : List α) :
    runs p (x :: l) = (x :: l.takeWhile (! p ·)) :: runs p (l.dropWhile (! p ·)) := by
  have hfront : ∀ y ∈ x :: l.takeWhile (! p ·), p y = false := by
    intro y hy
    rcases List.mem_cons.mp hy with rfl | hy
    · exact hx
    · exact Bool.not_eq_true' _ ▸ List.mem_takeWhile_imp (p := (! p ·)) hy
  have hsplit : x :: l = (x :: l.takeWhile (! p ·)) ++ l.dropWhile (! p ·) := by
    rw [List.cons_append, List.takeWhile_append_dropWhile]
  cases hrest : l.dropWhile (! p ·) with
  | nil =>
    rw [hrest, List.append_nil] at hsplit
    rw [hsplit, of_forall_not (List.cons_ne_nil _ _) hfront, nil, ← List.cons.inj hsplit |>.2]
  | cons y rest =>
    have hy : p y = true := by
      have hhead := List.head?_dropWhile_not (! p ·) l
      rw [hrest] at hhead
      simpa using hhead
    rw [hrest] at hsplit
    rw [hsplit, append_cons hy, of_forall_not (List.cons_ne_nil _ _) hfront, cons_of_pos hy]
    rfl

/-- Separators at the end make no run. -/
theorem append_of_forall (h : ∀ y ∈ l', p y = true) : runs p (l ++ l') = runs p l := by
  induction l' generalizing l with
  | nil => rw [List.append_nil]
  | cons y l' ih =>
    have hnil := ih (l := []) fun z hz => h z (List.mem_cons_of_mem _ hz)
    rw [append_cons (h y List.mem_cons_self), ← List.nil_append l', hnil, nil, List.append_nil]

/-- Replacing the separators does not change the runs. -/
theorem map (q : α → Bool) (f : α → α) (hpos : ∀ y ∈ l, q y = true → p (f y) = true)
    (hneg : ∀ y ∈ l, q y = false → f y = y ∧ p y = false) : runs p (l.map f) = runs q l := by
  have hsplit : (l.map f).splitOnP p = l.splitOnP q := by
    induction l with
    | nil => rfl
    | cons y l ih =>
      rw [List.map_cons, List.splitOnP_cons_eq_if_modifyHead, List.splitOnP_cons_eq_if_modifyHead,
        ih (fun z hz => hpos z (List.mem_cons_of_mem _ hz)) (fun z hz => hneg z (List.mem_cons_of_mem _ hz))]
      cases hy : q y with
      | true =>
        rw [hpos y List.mem_cons_self hy]
        rfl
      | false =>
        obtain ⟨hf, hp⟩ := hneg y List.mem_cons_self hy
        rw [hf, hp]
  rw [runs, hsplit, runs]

end Runs

end CoActionOS
