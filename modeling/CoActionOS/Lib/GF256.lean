import Mathlib.Algebra.BigOperators.Fin
import Mathlib.Algebra.Field.Basic
import Mathlib.GroupTheory.OrderOfElement
import Mathlib.Tactic.NormNum.Prime

/-!
# The field of 256 elements

Bytes as polynomials over the two-element field, modulo `X⁸ + X⁴ + X³ + X + 1`.  Bit `i` is the coefficient of `Xⁱ`.
-/

namespace CoActionOS

def GF256 : Type := BitVec 8
  deriving DecidableEq, Repr

namespace GF256

def ofByte (x : BitVec 8) : GF256 := x

def bits (a : GF256) : BitVec 8 := a

instance decidableForall (P : GF256 → Prop) [DecidablePred P] : Decidable (∀ a, P a) :=
  inferInstanceAs (Decidable (∀ x : BitVec 8, P (ofByte x)))

/-! ### Addition -/

instance : Zero GF256 := ⟨ofByte 0⟩

instance : Add GF256 := ⟨fun a b => ofByte (a.bits ^^^ b.bits)⟩

instance : Neg GF256 := ⟨fun a => a⟩

theorem ofByte_xor (x y : BitVec 8) : ofByte (x ^^^ y) = ofByte x + ofByte y := rfl

instance : AddCommGroup GF256 where
  add_assoc := BitVec.xor_assoc
  zero_add _ := BitVec.zero_xor
  add_zero _ := BitVec.xor_zero
  add_comm := BitVec.xor_comm
  nsmul := nsmulRec
  zsmul := zsmulRec
  neg_add_cancel _ := BitVec.xor_self

theorem add_self (a : GF256) : a + a = 0 := neg_add_cancel a

/-- What is added twice is gone. -/
theorem xor_ite (p q : Bool) (a : GF256) :
    (if p ^^ q then a else 0) = (if p then a else 0) + (if q then a else 0) := by
  cases p <;> cases q <;> simp [add_self]

/-! ### Multiplication -/

/-- Multiplication by `X`. -/
def xtime (a : GF256) : GF256 :=
  ofByte (a.bits <<< 1) + if a.bits.msb then ofByte 0x1B else 0

theorem xtime_zero : xtime 0 = 0 := rfl

theorem xtime_add (a b : GF256) : xtime (a + b) = xtime a + xtime b := by
  have hshift : ofByte ((a + b).bits <<< 1) = ofByte (a.bits <<< 1) + ofByte (b.bits <<< 1) :=
    BitVec.shiftLeft_xor_distrib a.bits b.bits 1
  have hmsb : (a + b).bits.msb = (a.bits.msb ^^ b.bits.msb) := BitVec.msb_xor
  rw [xtime, hshift, hmsb, xor_ite, add_add_add_comm]
  rfl

/-- Multiplication by `Xⁿ`. -/
def shifted : Nat → GF256 →+ GF256
  | 0 => AddMonoidHom.id GF256
  | n + 1 => (AddMonoidHom.mk' xtime xtime_add).comp (shifted n)

instance : Mul GF256 := ⟨fun a b => ∑ i : Fin 8, if b.bits[i] then shifted i a else 0⟩

/-- The coefficient at `Xⁱ`. -/
def coeff (a : GF256) (i : Fin 8) : Bool := a.bits[i]

instance : One GF256 := ⟨ofByte 1⟩

theorem mul_def (a b : GF256) : a * b = ∑ i : Fin 8, if b.bits[i] then shifted i a else 0 := rfl

theorem add_mul' (a b c : GF256) : (a + b) * c = a * c + b * c := by
  simp only [mul_def]
  rw [← Finset.sum_add_distrib]
  refine Finset.sum_congr rfl fun i _ => ?_
  split
  · exact map_add (shifted i) a b
  · rfl

theorem mul_add' (a b c : GF256) : a * (b + c) = a * b + a * c := by
  simp only [mul_def]
  rw [← Finset.sum_add_distrib]
  refine Finset.sum_congr rfl fun i _ => ?_
  have hbit : (b + c).bits[i] = (b.bits[i] ^^ c.bits[i]) := BitVec.getElem_xor i.isLt
  rw [hbit, xor_ite]

/-- The powers of `X` below the eighth. -/
def basis (i : Fin 8) : GF256 := ofByte (1 <<< i.val)

set_option maxRecDepth 10000 in
theorem eq_sum (a : GF256) : a = ∑ i : Fin 8, if a.bits[i] then basis i else 0 := by
  revert a
  decide +kernel

/-- What holds of the powers of `X` and of sums holds of all elements. -/
theorem induction_on {P : GF256 → Prop} (hzero : P 0) (hadd : ∀ a b, P a → P b → P (a + b))
    (hbasis : ∀ i, P (basis i)) (a : GF256) : P a := by
  rw [eq_sum a]
  refine Finset.sum_induction _ P hadd hzero fun i _ => ?_
  split
  · exact hbasis i
  · exact hzero

instance : NonUnitalNonAssocSemiring GF256 where
  left_distrib := mul_add'
  right_distrib := add_mul'
  zero_mul a := by
    have h := add_mul' 0 0 a
    rwa [add_zero, left_eq_add] at h
  mul_zero a := by
    have h := mul_add' a 0 0
    rwa [add_zero, left_eq_add] at h

/-- The laws on the powers of `X` below the eighth. -/
theorem basis_laws :
    (∀ i j, basis i * basis j = basis j * basis i) ∧
      (∀ i j l, basis i * basis j * basis l = basis i * (basis j * basis l)) ∧
      (∀ i, basis i * 1 = basis i) ∧ ∀ i, xtime (basis i) = ofByte 2 * basis i := by
  decide +kernel

theorem mul_comm' (a b : GF256) : a * b = b * a := by
  obtain ⟨hbasis, -⟩ := basis_laws
  induction a using induction_on with
  | hzero => rw [zero_mul, mul_zero]
  | hadd a a' ha ha' => rw [add_mul, mul_add, ha, ha']
  | hbasis i =>
    induction b using induction_on with
    | hzero => rw [zero_mul, mul_zero]
    | hadd b b' hb hb' => rw [add_mul, mul_add, hb, hb']
    | hbasis j => exact hbasis i j

theorem mul_assoc' (a b c : GF256) : a * b * c = a * (b * c) := by
  obtain ⟨-, hbasis, -⟩ := basis_laws
  induction a using induction_on with
  | hzero => simp only [zero_mul]
  | hadd a a' ha ha' => rw [add_mul, add_mul, add_mul, ha, ha']
  | hbasis i =>
    induction b using induction_on with
    | hzero => simp only [zero_mul, mul_zero]
    | hadd b b' hb hb' => rw [mul_add, add_mul, add_mul, mul_add, hb, hb']
    | hbasis j =>
      induction c using induction_on with
      | hzero => simp only [mul_zero]
      | hadd c c' hc hc' => rw [mul_add, mul_add, mul_add, hc, hc']
      | hbasis l => exact hbasis i j l

theorem mul_one' (a : GF256) : a * 1 = a := by
  obtain ⟨-, -, hone, -⟩ := basis_laws
  induction a using induction_on with
  | hzero => exact zero_mul 1
  | hadd a b ha hb => rw [add_mul, ha, hb]
  | hbasis i => exact hone i

instance : CommRing GF256 where
  __ := (inferInstance : AddCommGroup GF256)
  __ := (inferInstance : NonUnitalNonAssocSemiring GF256)
  mul_assoc := mul_assoc'
  one_mul a := (mul_comm' 1 a).trans (mul_one' a)
  mul_one := mul_one'
  mul_comm := mul_comm'

theorem two_eq_zero : (2 : GF256) = 0 := by
  rw [← one_add_one_eq_two, add_self]

/-- `X` -/
def X : GF256 := ofByte 2

theorem xtime_eq (a : GF256) : xtime a = X * a := by
  obtain ⟨-, -, -, hbasis⟩ := basis_laws
  induction a using induction_on with
  | hzero => rw [mul_zero, xtime_zero]
  | hadd a b ha hb => rw [xtime_add, mul_add, ha, hb]
  | hbasis i => exact hbasis i

/-! ### Inverses -/

instance : Fintype GF256 :=
  Fintype.ofEquiv (Fin 256) ⟨fun i => ofByte (BitVec.ofFin i), fun a => a.bits.toFin, fun _ => rfl, fun _ => rfl⟩

theorem card_eq : Fintype.card GF256 = 256 :=
  (Fintype.ofEquiv_card _).trans (Fintype.card_fin 256)

/-- `X + 1` generates the multiplicative group. -/
def generator : GF256 := X + 1

theorem generator_powers :
    generator ^ 255 = 1 ∧ generator ^ 85 ≠ 1 ∧ generator ^ 51 ≠ 1 ∧ generator ^ 15 ≠ 1 := by
  decide +kernel

theorem generator_pow : generator ^ 255 = 1 := generator_powers.1

theorem orderOf_generator : orderOf generator = 255 := by
  apply orderOf_eq_of_pow_and_pow_div_prime (by decide)
  · exact generator_pow
  · intro p hp hdvd
    have hcases : p = 3 ∨ p = 5 ∨ p = 17 := by
      have hfactors : p ∣ 3 * (5 * 17) := hdvd
      rw [hp.dvd_mul, hp.dvd_mul, Nat.prime_dvd_prime_iff_eq hp (by norm_num),
        Nat.prime_dvd_prime_iff_eq hp (by norm_num), Nat.prime_dvd_prime_iff_eq hp (by norm_num)] at hfactors
      exact hfactors
    obtain ⟨-, h85, h51, h15⟩ := generator_powers
    obtain rfl | rfl | rfl := hcases
    · exact h85
    · exact h51
    · exact h15

theorem generator_pow_ne_zero (n : Nat) : generator ^ n ≠ 0 := by
  intro h
  have hone : generator ^ n * generator ^ (254 * n) = 1 := by
    rw [← pow_add, show n + 254 * n = 255 * n by omega, pow_mul, generator_pow, one_pow]
  rw [h, zero_mul] at hone
  exact absurd hone (by decide)

/-- Every element but zero is a power of the generator. -/
theorem exists_pow {a : GF256} (ha : a ≠ 0) : ∃ n < 255, generator ^ n = a := by
  have hmaps : Set.MapsTo (generator ^ ·) (Finset.range 255 : Set Nat) (Finset.univ.erase (0 : GF256) : Set GF256) :=
    fun n _ => by simpa using generator_pow_ne_zero n
  have hinj : Set.InjOn (generator ^ ·) (Finset.range 255 : Set Nat) := by
    intro m hm n hn h
    rw [Finset.coe_range, Set.mem_Iio, ← orderOf_generator] at hm hn
    exact pow_injOn_Iio_orderOf hm hn h
  have hcard : (Finset.univ.erase (0 : GF256)).card ≤ (Finset.range 255).card := by
    rw [Finset.card_erase_of_mem (Finset.mem_univ _), Finset.card_univ, card_eq, Finset.card_range]
  obtain ⟨n, hn, h⟩ := Finset.surjOn_of_injOn_of_card_le _ hmaps hinj hcard (by simpa using ha : a ∈ _)
  exact ⟨n, by simpa using hn, h⟩

instance : Inv GF256 := ⟨fun a => a ^ 254⟩

instance : Field GF256 where
  exists_pair_ne := ⟨0, 1, by decide⟩
  mul_inv_cancel a ha := by
    obtain ⟨n, -, rfl⟩ := exists_pow ha
    show generator ^ n * (generator ^ n) ^ 254 = 1
    rw [← pow_succ', ← pow_mul, mul_comm, pow_mul, generator_pow, one_pow]
  inv_zero := zero_pow (by decide)
  nnqsmul := _
  qsmul := _

end GF256

end CoActionOS
