import Mathlib.Data.List.Basic
import Mathlib.Logic.Function.Basic
import Mathlib.Tactic.SplitIfs

/-!
# Ring buffers

A ring buffer writes at its head and reads at its tail, and both go back to the first cell behind the last.  The buffer is
empty where they meet, so one cell stays free.

`contents` are the elements from the tail to the head.  `put` appends one where the buffer is not full, `drop` takes the
first away, and `push` is what a buffer does that makes room by dropping: the contents are then the last elements that
fit (`contents_push`, `contents_pushAll`).
-/

namespace CoActionOS

open Function

variable {α : Type*}

/-- The last `n` elements. -/
def lastN (n : Nat) (l : List α) : List α := l.drop (l.length - n)

theorem lastN_of_le {n : Nat} {l : List α} (h : l.length ≤ n) : lastN n l = l := by
  unfold lastN
  rw [Nat.sub_eq_zero_of_le h, List.drop_zero]

theorem length_lastN (n : Nat) (l : List α) : (lastN n l).length = min n l.length := by
  unfold lastN
  rw [List.length_drop]
  omega

/-- What has gone does not come back. -/
theorem lastN_append (n : Nat) (l r : List α) : lastN n (lastN n l ++ r) = lastN n (l ++ r) := by
  unfold lastN
  rw [← List.drop_append_of_le_length (Nat.sub_le _ _), List.drop_drop, List.length_drop, List.length_append]
  congr 1
  omega

/-- The head, the tail and the cells of a ring buffer. -/
structure Ring (α : Type*) where
  head : Nat
  tail : Nat
  cells : Nat → α

namespace Ring

/-- The cell behind cell `i`. -/
def next (size i : Nat) : Nat := if i + 1 = size then 0 else i + 1

/-- The cell `i` cells behind the tail. -/
def index (size tail i : Nat) : Nat := if tail + i < size then tail + i else tail + i - size

variable (size : Nat) (r : Ring α)

structure Bounded : Prop where
  head : r.head < size
  tail : r.tail < size

def count : Nat := if r.tail ≤ r.head then r.head - r.tail else size - r.tail + r.head

def contents : List α := (List.range (r.count size)).map fun i => r.cells (index size r.tail i)

/-- Write at the head. -/
def put (x : α) : Ring α := { r with head := next size r.head, cells := update r.cells r.head x }

/-- Step over the tail. -/
def drop : Ring α := { r with tail := next size r.tail }

/-- Write at the head, and make room for it first if there is none. -/
def push (x : α) : Ring α := if r.count size + 1 < size then r.put size x else (r.drop size).put size x

def pushAll (l : List α) : Ring α := l.foldl (push size) r

variable {size} {r}

@[simp] theorem length_contents : (r.contents size).length = r.count size := by
  unfold contents
  rw [List.length_map, List.length_range]

theorem count_lt (h : r.Bounded size) : r.count size < size := by
  have := h.head
  have := h.tail
  unfold count
  split_ifs <;> omega

/-- The buffer is empty where the head meets the tail. -/
theorem count_eq_zero_iff (h : r.Bounded size) : r.count size = 0 ↔ r.head = r.tail := by
  have := h.tail
  unfold count
  split_ifs <;> omega

theorem contents_eq_nil_iff (h : r.Bounded size) : r.contents size = [] ↔ r.head = r.tail := by
  rw [← count_eq_zero_iff h, ← List.length_eq_zero_iff, length_contents]

/-- One more element would make the head meet the tail. -/
theorem full_iff (h : r.Bounded size) : r.count size + 1 = size ↔ next size r.head = r.tail := by
  have := h.head
  have := h.tail
  unfold count next
  split_ifs <;> omega

theorem next_lt {i : Nat} (h : i < size) : next size i < size := by
  unfold next
  split_ifs <;> omega

theorem Bounded.put (h : r.Bounded size) (x : α) : (r.put size x).Bounded size := ⟨next_lt h.head, h.tail⟩

theorem Bounded.drop (h : r.Bounded size) : (r.drop size).Bounded size := ⟨h.head, next_lt h.tail⟩

theorem count_put (h : r.Bounded size) (hroom : r.count size + 1 < size) (x : α) :
    (r.put size x).count size = r.count size + 1 := by
  have := h.head
  have := h.tail
  unfold put count next at *
  simp only at *
  split_ifs at * <;> omega

theorem count_drop (h : r.Bounded size) (hne : r.head ≠ r.tail) : (r.drop size).count size + 1 = r.count size := by
  have := h.head
  have := h.tail
  unfold drop count next
  simp only
  split_ifs <;> omega

/-- The head is the cell behind the contents, and none of them. -/
theorem index_count (h : r.Bounded size) : index size r.tail (r.count size) = r.head := by
  have := h.head
  have := h.tail
  unfold index count
  split_ifs <;> omega

theorem index_ne_head (h : r.Bounded size) {i : Nat} (hi : i < r.count size) : index size r.tail i ≠ r.head := by
  have := h.head
  have := h.tail
  unfold index
  unfold count at hi
  split_ifs at * <;> omega

theorem contents_put (h : r.Bounded size) (hroom : r.count size + 1 < size) (x : α) :
    (r.put size x).contents size = r.contents size ++ [x] := by
  unfold contents
  rw [count_put h hroom, List.range_succ, List.map_append, List.map_singleton]
  congr 1
  · refine List.map_congr_left fun i hi => ?_
    exact update_of_ne (index_ne_head h (List.mem_range.mp hi)) _ _
  · change [update r.cells r.head x (index size r.tail (r.count size))] = [x]
    rw [index_count h, update_self]

/-- The first of the contents is at the tail. -/
theorem contents_drop (h : r.Bounded size) (hne : r.head ≠ r.tail) :
    r.contents size = r.cells r.tail :: (r.drop size).contents size := by
  have htail := h.tail
  unfold contents
  rw [← count_drop h hne, List.range_succ_eq_map, List.map_cons, List.map_map]
  congr 1
  · unfold index
    rw [Nat.add_zero, if_pos htail]
  · refine List.map_congr_left fun i hi => ?_
    have hlt := count_lt h
    have hi' := List.mem_range.mp hi
    have hcount := count_drop h hne
    change r.cells (index size r.tail (i + 1)) = r.cells (index size (next size r.tail) i)
    congr 1
    unfold index next
    split_ifs <;> omega

theorem Bounded.push (h : r.Bounded size) (x : α) : (r.push size x).Bounded size := by
  unfold Ring.push
  split_ifs
  · exact h.put x
  · exact h.drop.put x

/-- A push keeps the last elements that fit. -/
theorem contents_push (h : r.Bounded size) (hsize : 2 ≤ size) (x : α) :
    (r.push size x).contents size = lastN (size - 1) (r.contents size ++ [x]) := by
  have hlt := count_lt h
  unfold push
  split_ifs with hroom
  · rw [contents_put h hroom, lastN_of_le]
    rw [List.length_append, length_contents, List.length_singleton]
    omega
  · have hne : r.head ≠ r.tail := by
      rw [Ne, ← count_eq_zero_iff h]
      omega
    have hcount := count_drop h hne
    rw [contents_put h.drop (by omega), contents_drop h hne]
    unfold lastN
    rw [List.length_append, List.length_cons, length_contents, List.length_singleton, List.cons_append]
    rw [show (r.drop size).count size + 1 + 1 - (size - 1) = 1 by omega, List.drop_succ_cons, List.drop_zero]

theorem Bounded.pushAll (h : r.Bounded size) (l : List α) : (r.pushAll size l).Bounded size := by
  induction l generalizing r with
  | nil => exact h
  | cons x l ih => exact ih (h.push x)

theorem contents_pushAll (h : r.Bounded size) (hsize : 2 ≤ size) (l : List α) :
    (r.pushAll size l).contents size = lastN (size - 1) (r.contents size ++ l) := by
  induction l generalizing r with
  | nil =>
    have hlt := count_lt h
    rw [List.append_nil, lastN_of_le (by rw [length_contents]; omega)]
    rfl
  | cons x l ih =>
    have hrest : (r.pushAll size (x :: l)).contents size = lastN (size - 1) ((r.push size x).contents size ++ l) :=
      ih (h.push x)
    rw [hrest, contents_push h hsize, lastN_append, List.append_assoc, List.singleton_append]

/-- There is room unless the head would meet the tail. -/
theorem room_iff (h : r.Bounded size) : r.count size + 1 < size ↔ next size r.head ≠ r.tail := by
  rw [Ne, ← full_iff h]
  have := count_lt h
  omega

/-- The oldest may also be dropped when the head has met the tail. -/
theorem push_eq (h : r.Bounded size) (x : α) :
    r.push size x =
      if (r.put size x).head = (r.put size x).tail then (r.put size x).drop size else r.put size x := by
  unfold push
  by_cases hroom : r.count size + 1 < size
  · rw [if_pos hroom]
    exact (if_neg ((room_iff h).mp hroom)).symm
  · rw [if_neg hroom]
    rw [room_iff h, not_not] at hroom
    exact (if_pos hroom).symm

end Ring

end CoActionOS
