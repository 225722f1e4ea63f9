import Mathlib.Data.List.Count
import Mathlib.Data.List.Nodup

/-!
# Counting the members of a list that are in a state

Between two states of a system the number of members that satisfy a predicate changes by those that have come to satisfy
it or have ceased to.
-/

namespace CoActionOS.Tally

variable {α : Type} {l : List α} {p q r u : α → Bool} {t : α}

theorem ite_eq_toNat (b : Bool) : (if b = true then 1 else 0) = b.toNat := by
  cases b <;> rfl

/-- What is counted before is counted afterwards, but for what `r` and `u` count. -/
theorem countP_le_add (h : ∀ a ∈ l, p a = true → q a = true ∨ r a = true ∨ u a = true) :
    l.countP p ≤ l.countP q + (l.countP r + l.countP u) := by
  induction l with
  | nil => exact Nat.zero_le _
  | cons a l ih =>
    have ih := ih fun b hb => h b (List.mem_cons_of_mem _ hb)
    have ha := h a List.mem_cons_self
    simp only [List.countP_cons, ite_eq_toNat]
    have hle : (p a).toNat ≤ (q a).toNat + ((r a).toNat + (u a).toNat) := by
      cases hp : p a with
      | false => exact Nat.zero_le _
      | true =>
        rcases ha hp with hq | hr | hu
        · rw [hq]
          exact Nat.le_add_right _ _
        · rw [hr]
          exact Nat.le_trans (Nat.le_add_right _ _) (Nat.le_add_left _ _)
        · rw [hu]
          exact Nat.le_trans (Nat.le_add_left _ _) (Nat.le_add_left _ _)
    omega

theorem countP_eq_add (h : ∀ a ∈ l, (p a).toNat = (q a).toNat + (r a).toNat) :
    l.countP p = l.countP q + l.countP r := by
  induction l with
  | nil => rfl
  | cons a l ih =>
    have ih := ih fun b hb => h b (List.mem_cons_of_mem _ hb)
    have ha := h a List.mem_cons_self
    simp only [List.countP_cons, ite_eq_toNat]
    omega

/-- Only one member may have changed. -/
theorem countP_of_forall_ne (hl : l.Nodup) (ht : t ∈ l) (h : ∀ a ∈ l, a ≠ t → p a = q a) :
    l.countP p + (q t).toNat = l.countP q + (p t).toNat := by
  induction l with
  | nil => exact absurd ht List.not_mem_nil
  | cons a l ih =>
    obtain ⟨hnot, hl⟩ := List.nodup_cons.mp hl
    simp only [List.countP_cons, ite_eq_toNat]
    by_cases hat : a = t
    · subst hat
      have hrest : l.countP p = l.countP q := by
        apply List.countP_congr
        intro b hb
        rw [h b (List.mem_cons_of_mem _ hb) fun hba => hnot (hba ▸ hb)]
      rw [hrest]
      omega
    · have ht : t ∈ l := (List.mem_cons.mp ht).resolve_left fun hta => hat hta.symm
      have ih := ih hl ht fun b hb hbt => h b (List.mem_cons_of_mem _ hb) hbt
      rw [h a List.mem_cons_self hat]
      omega

end CoActionOS.Tally
