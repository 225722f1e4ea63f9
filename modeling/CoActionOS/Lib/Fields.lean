import Mathlib.Algebra.Group.Nat.Defs
import Mathlib.Logic.Function.Basic

/-!
# Tables of packed fields

Words of `w` bits, each holding `n` fields of `b` bits, the first at the low end.  `Fields.set` clears the bits of a
field and then sets those of the new value; what `Fields.get` reads afterwards is the new value in that field and the
old one in every other.
-/

namespace CoActionOS

namespace Fields

variable {w b n : Nat}

/-- The low `b` bits. -/
def mask (w b : Nat) : BitVec w := BitVec.ofNat w (2 ^ b - 1)

theorem getLsbD_mask (i : Nat) : (mask w b).getLsbD i = (decide (i < w) && decide (i < b)) := by
  rw [mask, BitVec.getLsbD_ofNat, Nat.testBit_two_pow_sub_one]

/-- The field from bit `i` on. -/
def field (b : Nat) (x : BitVec w) (i : Nat) : BitVec w := (x >>> i) &&& mask w b

/-- The word with `v` in the field from bit `i` on. -/
def putField (b : Nat) (x : BitVec w) (i : Nat) (v : BitVec w) : BitVec w :=
  (x &&& ~~~(mask w b <<< i)) ||| ((v &&& mask w b) <<< i)

theorem getLsbD_field (x : BitVec w) (i k : Nat) :
    (field b x i).getLsbD k = (x.getLsbD (i + k) && (decide (k < w) && decide (k < b))) := by
  rw [field, BitVec.getLsbD_and, BitVec.getLsbD_ushiftRight, getLsbD_mask]

theorem getLsbD_putField (x v : BitVec w) (i k : Nat) (hk : k < w) :
    (putField b x i v).getLsbD k = if i ≤ k ∧ k < i + b then v.getLsbD (k - i) else x.getLsbD k := by
  simp only [putField, BitVec.getLsbD_or, BitVec.getLsbD_and, BitVec.getLsbD_not, BitVec.getLsbD_shiftLeft,
    getLsbD_mask, hk, decide_true, Bool.true_and]
  rcases Nat.lt_or_ge k i with hlt | hge
  · have hno : ¬(i ≤ k ∧ k < i + b) := by omega
    simp [hlt, hno]
  · by_cases hin : k < i + b
    · have hw : k - i < w := by omega
      have hb : k - i < b := by omega
      simp [hge, hin, hw, hb, Nat.not_lt.mpr hge]
    · have hb : ¬k - i < b := by omega
      simp [hin, hb]

theorem field_putField_self (x v : BitVec w) {i : Nat} (hfits : i + b ≤ w) :
    field b (putField b x i v) i = v &&& mask w b := by
  ext k hk
  simp only [← BitVec.getLsbD_eq_getElem, getLsbD_field, BitVec.getLsbD_and, getLsbD_mask]
  by_cases hb : k < b
  · rw [getLsbD_putField x v i (i + k) (by omega), if_pos (by omega), Nat.add_sub_cancel_left]
  · simp [hb]

/-- Fields that do not overlap are independent. -/
theorem field_putField_of_apart (x v : BitVec w) {i j : Nat} (hfits : j + b ≤ w) (hapart : i + b ≤ j ∨ j + b ≤ i) :
    field b (putField b x i v) j = field b x j := by
  ext k hk
  simp only [← BitVec.getLsbD_eq_getElem, getLsbD_field]
  by_cases hb : k < b
  · rw [getLsbD_putField x v i (j + k) (by omega), if_neg (by omega)]
  · simp [hb]

/-! ### Tables -/

variable {t : Nat → BitVec w} {p q : Nat}

def get (b n : Nat) (t : Nat → BitVec w) (p : Nat) : BitVec w := field b (t (p / n)) (p % n * b)

def set (b n : Nat) (t : Nat → BitVec w) (p : Nat) (v : BitVec w) : Nat → BitVec w :=
  Function.update t (p / n) (putField b (t (p / n)) (p % n * b) v)

theorem slot_le (hn : 0 < n) (hfits : n * b ≤ w) (p : Nat) : p % n * b + b ≤ w := by
  have hlt : p % n + 1 ≤ n := Nat.mod_lt p hn
  calc p % n * b + b = (p % n + 1) * b := by rw [Nat.add_mul, Nat.one_mul]
    _ ≤ n * b := Nat.mul_le_mul_right b hlt
    _ ≤ w := hfits

theorem get_set_self (hn : 0 < n) (hfits : n * b ≤ w) (t : Nat → BitVec w) (p : Nat) (v : BitVec w) :
    get b n (set b n t p v) p = v &&& mask w b := by
  rw [get, set, Function.update_self, field_putField_self _ _ (slot_le hn hfits p)]

theorem get_set_of_ne (hn : 0 < n) (hfits : n * b ≤ w) (t : Nat → BitVec w) (v : BitVec w) (hne : q ≠ p) :
    get b n (set b n t p v) q = get b n t q := by
  rw [get, get, set]
  by_cases hword : q / n = p / n
  · rw [hword, Function.update_self]
    apply field_putField_of_apart _ _ (slot_le hn hfits q)
    -- in the same word the two have different places
    have hslot : p % n ≠ q % n := by
      intro heq
      apply hne
      rw [← Nat.div_add_mod q n, ← Nat.div_add_mod p n, hword, heq]
    rcases Nat.lt_or_gt_of_ne hslot with hlt | hgt
    · left
      calc p % n * b + b = (p % n + 1) * b := by rw [Nat.add_mul, Nat.one_mul]
        _ ≤ q % n * b := Nat.mul_le_mul_right b hlt
    · right
      calc q % n * b + b = (q % n + 1) * b := by rw [Nat.add_mul, Nat.one_mul]
        _ ≤ p % n * b := Nat.mul_le_mul_right b hgt
  · rw [Function.update_of_ne hword]

end Fields

end CoActionOS
