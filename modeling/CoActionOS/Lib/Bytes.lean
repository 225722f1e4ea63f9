import Mathlib.Algebra.Group.Int.Defs
import Mathlib.Algebra.Group.Nat.Defs
import Mathlib.Logic.Basic

/-!
# Bytes

Bytes that are put together of bits, and bytes of a wider number.
-/

namespace CoActionOS

namespace Bytes

theorem toNat_shl (a : UInt8) {s : UInt8} {n : Nat} (hs : s.toNat % 8 = n) : (a <<< s).toNat = a.toNat * 2 ^ n % 256 := by
  rw [UInt8.toNat_shiftLeft, hs, Nat.shiftLeft_eq]

theorem toNat_shr (a : UInt8) {s : UInt8} {n : Nat} (hs : s.toNat % 8 = n) : (a >>> s).toNat = a.toNat / 2 ^ n := by
  rw [UInt8.toNat_shiftRight, hs, Nat.shiftRight_eq_div_pow]

/-- A mask of `m` ones above `k` zeros. -/
theorem and_mask (x m k : Nat) : x &&& ((2 ^ m - 1) * 2 ^ k) = x / 2 ^ k % 2 ^ m * 2 ^ k := by
  have hmask : (2 ^ m - 1) * 2 ^ k = (2 ^ m - 1) <<< k := (Nat.shiftLeft_eq _ _).symm
  rw [hmask, ← Nat.shiftRight_eq_div_pow, ← Nat.and_two_pow_sub_one_eq_mod, ← Nat.shiftLeft_eq]
  apply Nat.eq_of_testBit_eq
  intro i
  simp only [Nat.testBit_and, Nat.testBit_shiftLeft, Nat.testBit_shiftRight]
  by_cases hi : k ≤ i
  · rw [Nat.add_sub_cancel' hi]
    simp [hi]
  · simp [hi]

theorem toNat_and_mask (a : UInt8) {b : UInt8} {m k : Nat} (hb : b.toNat = (2 ^ m - 1) * 2 ^ k) :
    (a &&& b).toNat = a.toNat / 2 ^ k % 2 ^ m * 2 ^ k := by
  rw [UInt8.toNat_and, hb, and_mask]

/-- Two fields side by side. -/
theorem toNat_shiftLeft_or (a b : UInt8) {k : UInt8} (hk : k.toNat < 8) (hb : b.toNat < 2 ^ k.toNat) :
    ((a <<< k) ||| b).toNat = a.toNat % 2 ^ (8 - k.toNat) * 2 ^ k.toNat + b.toNat := by
  rw [UInt8.toNat_or, UInt8.toNat_shiftLeft, Nat.mod_eq_of_lt hk, Nat.shiftLeft_eq]
  have hmod : a.toNat * 2 ^ k.toNat % 2 ^ 8 = a.toNat % 2 ^ (8 - k.toNat) * 2 ^ k.toNat := by
    rw [← Nat.mul_mod_mul_right, ← Nat.pow_add, Nat.sub_add_cancel (Nat.le_of_lt hk)]
  rw [hmod, ← Nat.shiftLeft_eq, ← Nat.shiftLeft_add_eq_or_of_lt hb]

theorem ofBitVec_extractLsb' {w : Nat} (x : BitVec w) (start : Nat) :
    (⟨x.extractLsb' start 8⟩ : UInt8) = UInt8.ofNat (x.toNat / 2 ^ start) := by
  apply UInt8.toNat_inj.mp
  show (x.extractLsb' start 8).toNat = _
  rw [BitVec.extractLsb'_toNat, UInt8.toNat_ofNat', Nat.shiftRight_eq_div_pow]

theorem ofBitVec_setWidth {w : Nat} (x : BitVec w) : (⟨x.setWidth 8⟩ : UInt8) = UInt8.ofNat x.toNat := by
  apply UInt8.toNat_inj.mp
  show (x.setWidth 8).toNat = _
  rw [BitVec.toNat_setWidth, UInt8.toNat_ofNat']

end Bytes

end CoActionOS
