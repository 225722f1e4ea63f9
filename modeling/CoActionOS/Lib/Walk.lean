import Mathlib.Logic.Function.Basic
import Mathlib.Order.Nat
import Mathlib.Tactic.SplitIfs

/-!
# Walks along length-prefixed records

Records lie one behind the other and each starts with its length.  `Walk len i j` says that following
the lengths from place `i` arrives at place `j`; a record of length `0` ends every walk.  The lemmas
say where the records of a walk lie with respect to one another, and how the places a walk visits
change when one record is split, two neighbours are merged, or the end is moved.
-/

namespace CoActionOS

open Function

/-- Following the lengths from the first place arrives at the second. -/
inductive Walk (len : Nat → Nat) : Nat → Nat → Prop
  | refl (i : Nat) : Walk len i i
  | step {i j : Nat} : 0 < len i → Walk len (i + len i) j → Walk len i j

namespace Walk

variable {len len' : Nat → Nat} {i j k e p n : Nat}

theorem le (h : Walk len i j) : i ≤ j := by
  induction h with
  | refl => exact le_rfl
  | step _ _ ih => omega

theorem trans (h : Walk len i j) (h' : Walk len j k) : Walk len i k := by
  induction h with
  | refl => exact h'
  | step hpos _ ih => exact step hpos (ih h')

theorem snoc (h : Walk len i j) (hpos : 0 < len j) : Walk len i (j + len j) :=
  h.trans (step hpos (refl _))

/-- A walk that leaves its first place goes over its record. -/
theorem tail (h : Walk len i j) (hne : i ≠ j) : 0 < len i ∧ Walk len (i + len i) j := by
  cases h with
  | refl => exact absurd rfl hne
  | step hpos h' => exact ⟨hpos, h'⟩

/-- Of two places on one walk, the second is reached from the first. -/
theorem of_le (h : Walk len i j) (h' : Walk len i k) (hle : j ≤ k) : Walk len j k := by
  induction h with
  | refl => exact h'
  | @step i j hpos hj ih =>
    have hik : i ≠ k := by have := hj.le; omega
    exact ih (h'.tail hik).2 hle

/-- Records on one walk do not overlap. -/
theorem gap (h : Walk len i j) (h' : Walk len i k) (hlt : j < k) : j + len j ≤ k :=
  ((h.of_le h' hlt.le).tail hlt.ne).2.le

theorem pos_of_lt (h : Walk len i j) (h' : Walk len i k) (hlt : j < k) : 0 < len j :=
  ((h.of_le h' hlt.le).tail hlt.ne).1

/-- Nothing lies behind a record of length `0`. -/
theorem le_end (h : Walk len i j) (he : Walk len i e) (h0 : len e = 0) : j ≤ e := by
  by_contra hlt
  have := he.pos_of_lt h (by omega)
  omega

/-- A walk to `e` can be followed one record further from any place before `e`. -/
theorem next (h : Walk len i j) (he : Walk len i e) (hlt : j < e) : Walk len i (j + len j) :=
  h.snoc (h.pos_of_lt he hlt)

/-- A walk depends on the lengths of the records it goes over only. -/
theorem congr (h : Walk len i j) (heq : ∀ p, Walk len i p → p < j → len' p = len p) :
    Walk len' i j := by
  induction h with
  | refl => exact refl _
  | @step i j hpos hj ih =>
    have hlen := heq i (refl i) (by have := hj.le; omega)
    refine step (hlen ▸ hpos) ?_
    rw [hlen]
    exact ih fun p hp hlt => heq p (step hpos hp) hlt

/-! ### Splitting a record -/

theorem split (hn : 0 < n) (hlt : n < len p) (hp : len' p = n) (hpn : len' (p + n) = len p - n)
    (hother : ∀ q, q ≠ p → q ≠ p + n → len' q = len q) (h : Walk len i j)
    (hfresh : ¬Walk len i (p + n)) : Walk len' i j := by
  induction h with
  | refl => exact refl _
  | @step i j hpos hj ih =>
    have hrest := ih fun hw => hfresh (step hpos hw)
    have hine : i ≠ p + n := by
      rintro rfl
      exact hfresh (refl _)
    by_cases hip : i = p
    · subst hip
      refine step (hp ▸ hn) ?_
      rw [hp]
      refine step (by rw [hpn]; omega) ?_
      rw [hpn, show i + n + (len i - n) = i + len i by omega]
      exact hrest
    · have hlen := hother i hip hine
      refine step (hlen ▸ hpos) ?_
      rw [hlen]
      exact hrest

/-- The places visited after splitting the record at `p`: the old ones and the new start. -/
theorem split_iff (hn : 0 < n) (hlt : n < len p) (hp : len' p = n)
    (hpn : len' (p + n) = len p - n) (hother : ∀ q, q ≠ p → q ≠ p + n → len' q = len q)
    (hip : Walk len i p) : Walk len' i j ↔ Walk len i j ∨ j = p + n := by
  have hfresh : ¬Walk len i (p + n) := fun hw => by
    have := hip.gap hw (by omega)
    omega
  constructor
  · intro h
    have key : ∀ a b, Walk len' a b → Walk len i a ∨ a = p + n → Walk len i b ∨ b = p + n := by
      intro a b hab
      induction hab with
      | refl => exact id
      | @step a b hpos _ ih =>
        rintro (ha | rfl)
        · by_cases hap : a = p
          · subst hap
            exact ih (Or.inr (by rw [hp]))
          · have hlen := hother a hap fun h => hfresh (h ▸ ha)
            rw [hlen] at hpos
            exact ih (Or.inl (by rw [hlen]; exact ha.snoc hpos))
        · refine ih (Or.inl ?_)
          rw [hpn, show p + n + (len p - n) = p + len p by omega]
          exact hip.snoc (by omega)
    exact key i j h (Or.inl (refl i))
  · rintro (h | rfl)
    · exact split hn hlt hp hpn hother h hfresh
    · have h := (split hn hlt hp hpn hother hip hfresh).snoc (by rw [hp]; exact hn)
      rwa [hp] at h

/-! ### Merging a record with the next one -/

/-- A walk that does not end at the record merged away is kept. -/
theorem merge (hc : 0 < len p) (hd : 0 < len (p + len p))
    (hp : len' p = len p + len (p + len p)) (hother : ∀ q, q ≠ p → len' q = len q)
    (h : Walk len i j) (hne : j ≠ p + len p) : Walk len' i j := by
  induction h with
  | refl => exact refl _
  | @step i j hpos hj ih =>
    have hrest := ih hne
    by_cases hip : i = p
    · subst hip
      have hdi : len' (i + len i) = len (i + len i) := hother _ (by omega)
      obtain ⟨_, hw⟩ := hrest.tail (Ne.symm hne)
      rw [hdi] at hw
      refine step (by omega) ?_
      rwa [hp, ← Nat.add_assoc]
    · have hlen := hother i hip
      refine step (hlen ▸ hpos) ?_
      rwa [hlen]

theorem of_merge (hc : 0 < len p) (hd : 0 < len (p + len p))
    (hp : len' p = len p + len (p + len p)) (hother : ∀ q, q ≠ p → len' q = len q)
    (h : Walk len' i j) : Walk len i j := by
  induction h with
  | refl => exact refl _
  | @step i j hpos _ ih =>
    by_cases hip : i = p
    · subst hip
      rw [hp, ← Nat.add_assoc] at ih
      exact step hc (step hd ih)
    · rw [hother i hip] at hpos ih
      exact step hpos ih

/-- The places visited after merging the record at `p` with the next one. -/
theorem merge_iff (hc : 0 < len p) (hd : 0 < len (p + len p))
    (hp : len' p = len p + len (p + len p)) (hother : ∀ q, q ≠ p → len' q = len q)
    (hip : Walk len i p) : Walk len' i j ↔ Walk len i j ∧ j ≠ p + len p := by
  constructor
  · intro h
    refine ⟨of_merge hc hd hp hother h, ?_⟩
    rintro rfl
    have := (merge hc hd hp hother hip (by omega)).gap h (by omega)
    omega
  · rintro ⟨h, hne⟩
    exact merge hc hd hp hother h hne

/-! ### Moving the end -/

/-- The places visited after the end record has become one of length `n` with a new end behind it. -/
theorem extend_iff (hn : 0 < n) (h0 : len e = 0) (he : len' e = n) (hen : len' (e + n) = 0)
    (hother : ∀ q, q < e → len' q = len q) (hie : Walk len i e) :
    Walk len' i j ↔ Walk len i j ∨ j = e + n := by
  have hkeep : ∀ q, Walk len i q → Walk len' i q := fun q hq =>
    hq.congr fun r _ hlt => hother r (by have := hq.le_end hie h0; omega)
  have hnew : Walk len' i (e + n) := he ▸ (hkeep e hie).snoc (he ▸ hn)
  constructor
  · intro h
    have key : ∀ a b, Walk len' a b → Walk len i a ∨ a = e + n → Walk len i b ∨ b = e + n := by
      intro a b hab
      induction hab with
      | refl => exact id
      | @step a b hpos _ ih =>
        rintro (ha | rfl)
        · rcases Nat.lt_or_eq_of_le (ha.le_end hie h0) with hlt | rfl
          · have hlen := hother a hlt
            rw [hlen] at hpos
            exact ih (Or.inl (by rw [hlen]; exact ha.snoc hpos))
          · exact ih (Or.inr (by rw [he]))
        · omega
    exact key i j h (Or.inl (refl i))
  · rintro (h | rfl)
    · exact hkeep j h
    · exact hnew

end Walk

end CoActionOS
