import Mathlib.Data.List.Nodup
import Mathlib.Data.List.Perm.Subperm

/-!
# Walks that check where they come from

A walk over nodes that are linked both ways may go round a cycle.  If every node it comes to has to name the one before as its
predecessor, and the first one names a place that no node has, it cannot: each node has one predecessor.

The nodes that were visited are kept with the last one in front.
-/

namespace CoActionOS

variable {α : Type*} {prev prev' : α → α} {root b : α} {bs : List α}

/-- The node the walk is at; `root` before the first one. -/
def lastVisited (root : α) (bs : List α) : α := bs.head?.getD root

/-- Each node names the one that was visited before it. -/
def Backlinked (prev : α → α) (root : α) : List α → Prop
  | [] => True
  | b :: bs => prev b = lastVisited root bs ∧ b ≠ root ∧ Backlinked prev root bs

namespace Backlinked

theorem ne_root (h : Backlinked prev root bs) : ∀ b ∈ bs, b ≠ root := by
  induction bs with
  | nil => exact fun b hb => absurd hb List.not_mem_nil
  | cons a bs ih =>
    intro b hb
    rcases List.mem_cons.mp hb with rfl | hb
    · exact h.2.1
    · exact ih h.2.2 b hb

theorem of_append {l : List α} (h : Backlinked prev root (l ++ bs)) : Backlinked prev root bs := by
  induction l with
  | nil => exact h
  | cons a l ih => exact ih h.2.2

theorem congr (h : Backlinked prev root bs) (heq : ∀ b ∈ bs, prev' b = prev b) : Backlinked prev' root bs := by
  induction bs with
  | nil => trivial
  | cons a bs ih =>
    exact ⟨(heq a List.mem_cons_self).trans h.1, h.2.1, ih h.2.2 fun b hb => heq b (List.mem_cons_of_mem _ hb)⟩

/-- A node that comes again would have two predecessors. -/
theorem nodup (h : Backlinked prev root bs) : bs.Nodup := by
  induction bs with
  | nil => exact List.nodup_nil
  | cons b bs ih =>
    have hnodup := ih h.2.2
    refine List.nodup_cons.mpr ⟨fun hmem => ?_, hnodup⟩
    obtain ⟨l, r, rfl⟩ := List.append_of_mem hmem
    -- the node before it, then and now
    have hthen := h.2.2.of_append.1
    have hnow := h.1
    rw [hthen] at hnow
    have hne := h.2.2.ne_root
    cases r with
    | nil =>
      cases l with
      | nil => exact hne b List.mem_cons_self hnow.symm
      | cons a l => exact hne a List.mem_cons_self hnow.symm
    | cons c r =>
      cases l with
      | nil =>
        obtain rfl : c = b := hnow
        exact (List.nodup_cons.mp hnodup).1 List.mem_cons_self
      | cons a l =>
        obtain rfl : c = a := hnow
        exact (List.nodup_cons.mp hnodup).1 (by simp)

/-- There are no more visits than nodes. -/
theorem length_le {prev : Nat → Nat} {root n : Nat} {bs : List Nat} (h : Backlinked prev root bs) (hlt : ∀ b ∈ bs, b < n) :
    bs.length ≤ n := by
  have hsub : bs ⊆ List.range n := fun b hb => List.mem_range.mpr (hlt b hb)
  have hlength := (h.nodup.subperm hsub).length_le
  rwa [List.length_range] at hlength

end Backlinked

end CoActionOS
