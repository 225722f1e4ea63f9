import CoActionOS.Aes.Aes256
import CoActionOS.Lib.Rijndael
import Mathlib.Data.List.FinRange
import Mathlib.LinearAlgebra.Matrix.RowCol
import Mathlib.Tactic.IntervalCases
import Mathlib.Tactic.LinearCombination

/-!
# The layers of the cipher

What `aes256.c` does to the bytes of a block, as maps of squares of field elements.  The inverse of a byte is taken through
logarithms: the search for one goes through the powers of the generator in turn, and `gf_alog` multiplies its way back.
-/

namespace CoActionOS

namespace Aes

open GF256 (ofByte ofByte_xor generator X)
open Rijndael

/-! ### Bytes -/

/-- The steps that have no loop, on every byte. -/
theorem ofByte_steps : ∀ x : Byte,
    ofByte (rjXtime x) = GF256.xtime (ofByte x) ∧
      ofByte (F x) = GF256.xtime (ofByte x) ∧
      FD (F x) = x ∧
      ofByte (gfStep x) = GF256.xtime (ofByte x) + ofByte x ∧
      ofByte (sboxRotations x) = affine (ofByte x) ∧
      ofByte (sboxInvRotations x) = invAffine (ofByte x) := by
  decide +kernel

theorem ofByte_rjXtime (x : Byte) : ofByte (rjXtime x) = GF256.X * ofByte x := by
  obtain ⟨hbytes, -⟩ := ofByte_steps x
  rw [hbytes, GF256.xtime_eq]

theorem ofByte_F (x : Byte) : ofByte (F x) = GF256.X * ofByte x := by
  obtain ⟨-, hbytes, -⟩ := ofByte_steps x
  rw [hbytes, GF256.xtime_eq]

theorem FD_F (x : Byte) : FD (F x) = x := by
  obtain ⟨-, -, hback, -⟩ := ofByte_steps x
  exact hback

theorem ofByte_gfStep (x : Byte) : ofByte (gfStep x) = generator * ofByte x := by
  obtain ⟨-, -, -, hbytes, -⟩ := ofByte_steps x
  rw [hbytes, GF256.xtime_eq, generator, add_mul, one_mul]

theorem ofByte_gfAlogLoop (n : Nat) (x : Byte) : ofByte (gfAlogLoop n x) = generator ^ n * ofByte x := by
  induction n generalizing x with
  | zero => rw [gfAlogLoop, pow_zero, one_mul]
  | succ n ih => rw [gfAlogLoop, ih, ofByte_gfStep, pow_succ, mul_assoc]

theorem ofByte_gfAlog (x : Byte) : ofByte (gfAlog x) = generator ^ x.toNat := by
  rw [gfAlog, ofByte_gfAlogLoop]
  exact mul_one _

/-- The search for the logarithm goes through the powers in turn. -/
theorem gfLogLoop_spec {x : Byte} {m : Nat} (hm : m < 255) (hx : ofByte x = generator ^ m) {n : Nat} {atb i : Byte}
    (hatb : ofByte atb = generator ^ i.toNat) (hi : i.toNat ≤ m) (hn : m < i.toNat + n) :
    (gfLogLoop x n atb i).toNat = m := by
  induction n generalizing atb i with
  | zero => omega
  | succ n ih =>
    rw [gfLogLoop]
    by_cases h : atb = x
    · rw [if_pos h]
      rw [← h, hatb] at hx
      refine pow_injOn_Iio_orderOf ?_ ?_ hx
      · rw [Set.mem_Iio, GF256.orderOf_generator]
        omega
      · rwa [Set.mem_Iio, GF256.orderOf_generator]
    · have hne : i.toNat ≠ m := by
        intro hi
        rw [hi, ← hx] at hatb
        exact h hatb
      have hsucc : (i + 1).toNat = i.toNat + 1 := by
        have hone : i.toNat + (1 : Byte).toNat < 2 ^ 8 := by show i.toNat + 1 < 256; omega
        exact BitVec.toNat_add_of_lt hone
      have hpos : i + 1 > 0 := by
        rw [gt_iff_lt, BitVec.lt_def, hsucc]
        exact Nat.succ_pos _
      rw [if_neg h, if_pos hpos]
      refine ih ?_ (by omega) (by omega)
      rw [ofByte_gfStep, hatb, hsucc, pow_succ']

theorem ofByte_gfMulinv (x : Byte) : ofByte (gfMulinv x) = (ofByte x)⁻¹ := by
  rw [gfMulinv]
  by_cases hx : x = 0
  · rw [if_neg (by simpa using hx), hx]
    exact inv_zero.symm
  · obtain ⟨m, hm, hpow⟩ := GF256.exists_pow (a := ofByte x) hx
    have hlog : (gfLog x).toNat = m :=
      gfLogLoop_spec hm hpow.symm (pow_zero generator).symm (Nat.zero_le m) (by show m < 0 + 256; omega)
    have hsub : (255 - gfLog x).toNat = 255 - m := by
      rw [BitVec.toNat_sub_of_le, hlog]
      · rfl
      · rw [BitVec.le_def, hlog]
        exact hm.le
    rw [if_pos hx, ofByte_gfAlog, hsub, ← hpow]
    refine (inv_eq_of_mul_eq_one_right ?_).symm
    rw [← pow_add, Nat.add_sub_cancel' hm.le, GF256.generator_pow]

theorem ofByte_rjSbox (x : Byte) : ofByte (rjSbox x) = subByte (ofByte x) := by
  obtain ⟨-, -, -, -, hbytes, -⟩ := ofByte_steps (gfMulinv x)
  rw [rjSbox, hbytes, ofByte_gfMulinv, subByte]

theorem ofByte_rjSboxInv (x : Byte) : ofByte (rjSboxInv x) = invSubByte (ofByte x) := by
  obtain ⟨-, -, -, -, -, hbytes⟩ := ofByte_steps x
  rw [rjSboxInv, ofByte_gfMulinv, hbytes, invSubByte]

/-! ### Blocks -/

/-- The bytes of a block fill the columns of the square. -/
def stateOf (buf : Block) : State := Matrix.of fun r c => ofByte buf[4 * c.val + r.val]

theorem stateOf_apply (buf : Block) (r c : Fin 4) : stateOf buf r c = ofByte buf[4 * c.val + r.val] := rfl

theorem stateOf_injective : Function.Injective stateOf := by
  intro buf buf' h
  ext1 i hi
  have hrc := congrFun (congrFun h ⟨i % 4, Nat.mod_lt _ (by decide)⟩) ⟨i / 4, by omega⟩
  simp only [stateOf_apply, Nat.div_add_mod] at hrc
  exact hrc

theorem getElem_each {n : Nat} (buf : Vector Byte n) (f : Fin n → Byte → Byte) (j : Nat) (hj : j < n) :
    (each buf f)[j] = f ⟨j, hj⟩ buf[j] := by
  have h := getElem_foldr_set f (List.nodup_finRange n) buf ⟨j, hj⟩
  rw [if_pos (List.mem_finRange _)] at h
  rw [each, Fin.foldr_eq_finRange_foldr]
  exact h

@[simp] theorem stateOf_aesSubBytes (buf : Block) : stateOf (aesSubBytes buf) = subBytes (stateOf buf) := by
  ext r c
  rw [stateOf_apply, aesSubBytes, getElem_each, ofByte_rjSbox]
  rfl

@[simp] theorem stateOf_aesSubBytesInv (buf : Block) : stateOf (aesSubBytesInv buf) = invSubBytes (stateOf buf) := by
  ext r c
  rw [stateOf_apply, aesSubBytesInv, getElem_each, ofByte_rjSboxInv]
  rfl

theorem getElem_aesShiftRows (buf : Block) (i : Nat) (hi : i < 16) :
    (aesShiftRows buf)[i] = buf[(i + 4 * (i % 4)) % 16] := by
  simp only [aesShiftRows, Vector.getElem_set, Nat.reduceEqDiff, reduceIte]
  interval_cases i <;> rfl

@[simp] theorem stateOf_aesShiftRows (buf : Block) : stateOf (aesShiftRows buf) = shiftRows (stateOf buf) := by
  ext r c
  have hindex : (4 * c.val + r.val + 4 * ((4 * c.val + r.val) % 4)) % 16 = 4 * (c + r).val + r.val := by
    rw [Fin.val_add]
    omega
  show _ = stateOf buf r (c + r)
  simp only [stateOf_apply, getElem_aesShiftRows, hindex]

theorem getElem_aesShiftRowsInv (buf : Block) (i : Nat) (hi : i < 16) :
    (aesShiftRowsInv buf)[i] = buf[(i + 12 * (i % 4)) % 16] := by
  simp only [aesShiftRowsInv, Vector.getElem_set, Nat.reduceEqDiff, reduceIte]
  interval_cases i <;> rfl

@[simp] theorem stateOf_aesShiftRowsInv (buf : Block) : stateOf (aesShiftRowsInv buf) = invShiftRows (stateOf buf) := by
  ext r c
  have hindex : (4 * c.val + r.val + 12 * ((4 * c.val + r.val) % 4)) % 16 = 4 * (c - r).val + r.val := by
    rw [Fin.val_sub]
    omega
  show _ = stateOf buf r (c - r)
  simp only [stateOf_apply, getElem_aesShiftRowsInv, hindex]

/-- The four bytes from `i` on. -/
def column (buf : Block) (i : Fin 13) (r : Fin 4) : Byte := buf[i.val + r.val]

theorem column_mixColumn (buf : Block) (i : Fin 13) (r : Fin 4) {v : Fin 4 → Byte} (hv : v = column buf i) :
    column (mixColumn buf i) i r = v r ^^^ (v 0 ^^^ v 1 ^^^ v 2 ^^^ v 3 ^^^ rjXtime (v r ^^^ v (r + 1))) := by
  subst hv
  simp only [column, mixColumn, Vector.getElem_set, Nat.add_left_cancel_iff, Nat.left_eq_add, Nat.reduceEqDiff, reduceIte]
  fin_cases r <;> rfl

theorem getElem_mixColumn_of_outside (buf : Block) (i : Fin 13) {p : Nat} (hp : p < 16)
    (hout : p < i.val ∨ i.val + 4 ≤ p) : (mixColumn buf i)[p] = buf[p] := by
  rw [mixColumn, Vector.getElem_set_ne, Vector.getElem_set_ne, Vector.getElem_set_ne, Vector.getElem_set_ne] <;> omega

/-- The first of the two rows that share what is shifted twice. -/
def parity (r : Fin 4) : Fin 4 := ⟨r.val % 2, by omega⟩

theorem column_mixColumnInv (buf : Block) (i : Fin 13) (r : Fin 4) {v : Fin 4 → Byte} (hv : v = column buf i) :
    column (mixColumnInv buf i) i r =
      v r ^^^ (v 0 ^^^ v 1 ^^^ v 2 ^^^ v 3 ^^^
        rjXtime (rjXtime (rjXtime (v 0 ^^^ v 1 ^^^ v 2 ^^^ v 3) ^^^ v (parity r) ^^^ v (parity r + 2))) ^^^
          rjXtime (v r ^^^ v (r + 1))) := by
  subst hv
  simp only [column, mixColumnInv, Vector.getElem_set, Nat.add_left_cancel_iff, Nat.left_eq_add, Nat.reduceEqDiff,
    reduceIte]
  fin_cases r <;> rfl

theorem getElem_mixColumnInv_of_outside (buf : Block) (i : Fin 13) {p : Nat} (hp : p < 16)
    (hout : p < i.val ∨ i.val + 4 ≤ p) : (mixColumnInv buf i)[p] = buf[p] := by
  rw [mixColumnInv, Vector.getElem_set_ne, Vector.getElem_set_ne, Vector.getElem_set_ne, Vector.getElem_set_ne] <;> omega

theorem sum_column (v : Word) (r : Fin 4) : v 0 + v 1 + v 2 + v 3 = v r + v (r + 1) + v (r + 2) + v (r + 3) := by
  fin_cases r
  · rfl
  · show v 0 + v 1 + v 2 + v 3 = v 1 + v 2 + v 3 + v 0
    ring
  · show v 0 + v 1 + v 2 + v 3 = v 2 + v 3 + v 0 + v 1
    ring
  · show v 0 + v 1 + v 2 + v 3 = v 3 + v 0 + v 1 + v 2
    ring

theorem add_parity (v : Word) (r : Fin 4) : v (parity r) + v (parity r + 2) = v r + v (r + 2) := by
  fin_cases r
  · rfl
  · rfl
  · exact add_comm (v 0) (v 2)
  · exact add_comm (v 1) (v 3)

theorem stateOf_mixColumn (buf : Block) (c : Fin 4) :
    stateOf (mixColumn buf ⟨4 * c.val, by omega⟩) =
      (stateOf buf).updateCol c (mixMatrix.mulVec ((stateOf buf).col c)) := by
  ext r c'
  rw [Matrix.updateCol_apply]
  by_cases hc : c' = c
  · subst hc
    have hbyte : stateOf (mixColumn buf ⟨4 * c'.val, by omega⟩) r c' = _ :=
      congrArg ofByte (column_mixColumn buf ⟨4 * c'.val, by omega⟩ r rfl)
    set v := (stateOf buf).col c' with hv
    have hv : ∀ t, ofByte (column buf ⟨4 * c'.val, by omega⟩ t) = v t := fun _ => rfl
    simp only [ofByte_xor, ofByte_rjXtime, hv] at hbyte
    rw [if_pos rfl, hbyte, mixMatrix_mulVec, sum_column v r]
    linear_combination v r * GF256.two_eq_zero
  · have hval : c'.val ≠ c.val := fun h => hc (Fin.ext h)
    rw [if_neg hc, stateOf_apply, getElem_mixColumn_of_outside _ _ _ (by simp only; omega), stateOf_apply]

theorem stateOf_mixColumnInv (buf : Block) (c : Fin 4) :
    stateOf (mixColumnInv buf ⟨4 * c.val, by omega⟩) =
      (stateOf buf).updateCol c (invMixMatrix.mulVec ((stateOf buf).col c)) := by
  ext r c'
  rw [Matrix.updateCol_apply]
  by_cases hc : c' = c
  · subst hc
    have hbyte : stateOf (mixColumnInv buf ⟨4 * c'.val, by omega⟩) r c' = _ :=
      congrArg ofByte (column_mixColumnInv buf ⟨4 * c'.val, by omega⟩ r rfl)
    set v := (stateOf buf).col c'
    have hv : ∀ t, ofByte (column buf ⟨4 * c'.val, by omega⟩ t) = v t := fun _ => rfl
    simp only [ofByte_xor, ofByte_rjXtime, hv] at hbyte
    rw [if_pos rfl, hbyte, invMixMatrix_mulVec, sum_column v r, add_assoc (X * _), add_parity]
    linear_combination v r * GF256.two_eq_zero
  · have hval : c'.val ≠ c.val := fun h => hc (Fin.ext h)
    rw [if_neg hc, stateOf_apply, getElem_mixColumnInv_of_outside _ _ _ (by simp only; omega), stateOf_apply]

/-- A product by its columns, one after the other. -/
theorem mul_of_columns (m s : State) {f : Fin 4 → State → State}
    (hf : ∀ c s, f c s = s.updateCol c (m.mulVec (s.col c))) : f 3 (f 2 (f 1 (f 0 s))) = m * s := by
  simp only [hf]
  ext r c
  fin_cases c <;> rfl

@[simp] theorem stateOf_aesMixColumns (buf : Block) : stateOf (aesMixColumns buf) = mixColumns (stateOf buf) := by
  rw [mixColumns, ← mul_of_columns mixMatrix (stateOf buf) fun _ _ => rfl, ← stateOf_mixColumn buf 0,
    ← stateOf_mixColumn _ 1, ← stateOf_mixColumn _ 2, ← stateOf_mixColumn _ 3]
  rfl

@[simp] theorem stateOf_aesMixColumnsInv (buf : Block) : stateOf (aesMixColumnsInv buf) = invMixColumns (stateOf buf) := by
  rw [invMixColumns, ← mul_of_columns invMixMatrix (stateOf buf) fun _ _ => rfl, ← stateOf_mixColumnInv buf 0,
    ← stateOf_mixColumnInv _ 1, ← stateOf_mixColumnInv _ 2, ← stateOf_mixColumnInv _ 3]
  rfl

end Aes

end CoActionOS
