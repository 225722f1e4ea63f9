import Mathlib.LinearAlgebra.Matrix.Notation
import Mathlib.Logic.Equiv.Fin.Rotate
import Mathlib.Tactic.FinCases
import Mathlib.Tactic.Ring
import CoActionOS.Lib.GF256

/-!
# Rijndael

The cipher on its own terms: a state is a square of field elements and the layers are maps of squares.  The words of the
round keys are a sequence; `schedule` is the sequence that the words of a key begin.

`invCipher_cipher` and `cipher_invCipher` hold of any sequence.
-/

namespace CoActionOS

namespace Rijndael

open GF256 (X)

abbrev Word := Fin 4 → GF256

/-- Row and column. -/
abbrev State := Matrix (Fin 4) (Fin 4) GF256

/-! ### The layers -/

/-- The element with the given coefficients. -/
def ofCoeffs (f : Fin 8 → Bool) : GF256 := ∑ i, if f i then GF256.basis i else 0

def affine (y : GF256) : GF256 :=
  ofCoeffs fun i =>
    y.coeff i ^^ y.coeff (i + 4) ^^ y.coeff (i + 5) ^^ y.coeff (i + 6) ^^ y.coeff (i + 7) ^^ (GF256.ofByte 0x63).coeff i

def invAffine (y : GF256) : GF256 :=
  ofCoeffs fun i => y.coeff (i + 2) ^^ y.coeff (i + 5) ^^ y.coeff (i + 7) ^^ (GF256.ofByte 0x05).coeff i

def subByte (x : GF256) : GF256 := affine x⁻¹

def invSubByte (x : GF256) : GF256 := (invAffine x)⁻¹

theorem invAffine_affine : ∀ y, invAffine (affine y) = y := by decide +kernel

@[simp] theorem invSubByte_subByte (x : GF256) : invSubByte (subByte x) = x := by
  rw [invSubByte, subByte, invAffine_affine, inv_inv]

def subBytes (s : State) : State := s.map subByte

def invSubBytes (s : State) : State := s.map invSubByte

@[simp] theorem invSubBytes_subBytes (s : State) : invSubBytes (subBytes s) = s := by
  ext r c
  exact invSubByte_subByte (s r c)

def shiftRows (s : State) : State := Matrix.of fun r c => s r (c + r)

def invShiftRows (s : State) : State := Matrix.of fun r c => s r (c - r)

@[simp] theorem invShiftRows_shiftRows (s : State) : invShiftRows (shiftRows s) = s := by
  ext r c
  show s r (c - r + r) = s r c
  rw [sub_add_cancel]

def mixMatrix : State :=
  !![X, X + 1, 1, 1;
     1, X, X + 1, 1;
     1, 1, X, X + 1;
     X + 1, 1, 1, X]

def invMixMatrix : State :=
  !![X ^ 3 + X ^ 2 + X, X ^ 3 + X + 1, X ^ 3 + X ^ 2 + 1, X ^ 3 + 1;
     X ^ 3 + 1, X ^ 3 + X ^ 2 + X, X ^ 3 + X + 1, X ^ 3 + X ^ 2 + 1;
     X ^ 3 + X ^ 2 + 1, X ^ 3 + 1, X ^ 3 + X ^ 2 + X, X ^ 3 + X + 1;
     X ^ 3 + X + 1, X ^ 3 + X ^ 2 + 1, X ^ 3 + 1, X ^ 3 + X ^ 2 + X]

def mixColumns (s : State) : State := mixMatrix * s

def invMixColumns (s : State) : State := invMixMatrix * s

theorem mixMatrix_mulVec (v : Word) (r : Fin 4) :
    mixMatrix.mulVec v r = X * v r + (X + 1) * v (r + 1) + v (r + 2) + v (r + 3) := by
  rw [Matrix.mulVec, dotProduct, Fin.sum_univ_four]
  fin_cases r <;> simp [mixMatrix] <;> ring

theorem invMixMatrix_mulVec (v : Word) (r : Fin 4) :
    invMixMatrix.mulVec v r =
      (X ^ 3 + X ^ 2 + X) * v r + (X ^ 3 + X + 1) * v (r + 1) + (X ^ 3 + X ^ 2 + 1) * v (r + 2) + (X ^ 3 + 1) * v (r + 3) := by
  rw [Matrix.mulVec, dotProduct, Fin.sum_univ_four]
  fin_cases r <;> simp [invMixMatrix] <;> ring

theorem invMixMatrix_mul : invMixMatrix * mixMatrix = 1 := by decide +kernel

@[simp] theorem invMixColumns_mixColumns (s : State) : invMixColumns (mixColumns s) = s := by
  rw [invMixColumns, mixColumns, ← Matrix.mul_assoc, invMixMatrix_mul, Matrix.one_mul]

/-! ### The rounds -/

section

variable (w : Nat → Word)

def roundKey (n : Nat) : State := Matrix.of fun r c => w (4 * n + c) r

theorem add_roundKey_cancel (n : Nat) (s : State) : s + roundKey w n + roundKey w n = s := by
  ext r c
  simp only [Matrix.add_apply, add_assoc, GF256.add_self, add_zero]

/-- The state after `n` whole rounds. -/
def rounds (s : State) : Nat → State
  | 0 => s + roundKey w 0
  | n + 1 => mixColumns (shiftRows (subBytes (rounds s n))) + roundKey w (n + 1)

/-- The cipher of `nr + 1` rounds, the last of them without its mixing. -/
def cipher (nr : Nat) (s : State) : State := shiftRows (subBytes (rounds w s nr)) + roundKey w (nr + 1)

/-- The state after `n` of the inverse rounds that come before round `last`. -/
def invRounds (last : Nat) (s : State) : Nat → State
  | 0 => s + roundKey w last
  | n + 1 => invMixColumns (invSubBytes (invShiftRows (invRounds last s n)) + roundKey w (last - (n + 1)))

def invCipher (nr : Nat) (s : State) : State :=
  invSubBytes (invShiftRows (invRounds w (nr + 1) s nr)) + roundKey w 0

theorem invSubBytes_shiftRows (s : State) : invSubBytes (invShiftRows (shiftRows (subBytes s))) = s := by
  rw [invShiftRows_shiftRows, invSubBytes_subBytes]

/-- Each inverse round takes back the last round that is left. -/
theorem invRounds_cipher (nr : Nat) (s : State) {n : Nat} (hn : n ≤ nr) :
    invRounds w (nr + 1) (cipher w nr s) n = shiftRows (subBytes (rounds w s (nr - n))) := by
  induction n with
  | zero => exact add_roundKey_cancel w (nr + 1) _
  | succ n ih =>
    have hlt : nr - n = nr - (n + 1) + 1 := by omega
    have hkey : nr + 1 - (n + 1) = nr - (n + 1) + 1 := by omega
    rw [invRounds, ih (by omega), invSubBytes_shiftRows, hlt, hkey, rounds, add_roundKey_cancel, invMixColumns_mixColumns]

theorem invCipher_cipher (nr : Nat) (s : State) : invCipher w nr (cipher w nr s) = s := by
  rw [invCipher, invRounds_cipher w nr s le_rfl, Nat.sub_self, invSubBytes_shiftRows]
  exact add_roundKey_cancel w 0 s

theorem cipher_invCipher (nr : Nat) (s : State) : cipher w nr (invCipher w nr s) = s := by
  have hleft : Function.LeftInverse (invCipher w nr) (cipher w nr) := invCipher_cipher w nr
  exact hleft.rightInverse_of_surjective (Finite.injective_iff_surjective.mp hleft.injective) s

end

/-! ### The key schedule -/

def subWord (v : Word) : Word := fun i => subByte (v i)

def rotWord (v : Word) : Word := fun i => v (finRotate 4 i)

theorem rotWord_apply (v : Word) (i : Fin 4) : rotWord v i = v (i + 1) := congrArg v (finRotate_apply i)

def rcon (j : Nat) : Word := ![X ^ (j - 1), 0, 0, 0]

section

variable {m : Nat} (key : Fin (m + 1) → Word)

def schedule (i : Nat) : Word :=
  if h : i < m + 1 then key ⟨i, h⟩
  else
    let temp := schedule (i - 1)
    schedule (i - (m + 1)) +
      if i % (m + 1) = 0 then subWord (rotWord temp) + rcon (i / (m + 1))
      else if 6 < m + 1 ∧ i % (m + 1) = 4 then subWord temp
      else temp
  termination_by i

theorem schedule_key (i : Fin (m + 1)) : schedule key i = key i := by
  rw [schedule, dif_pos i.isLt]

theorem schedule_add (i : Nat) :
    schedule key (i + (m + 1)) = schedule key i +
      if i % (m + 1) = 0 then subWord (rotWord (schedule key (i + m))) + rcon (i / (m + 1) + 1)
      else if 6 < m + 1 ∧ i % (m + 1) = 4 then subWord (schedule key (i + m))
      else schedule key (i + m) := by
  rw [schedule, dif_neg (by omega), Nat.add_sub_cancel, Nat.add_mod_right, Nat.add_div_right i m.succ_pos]
  rfl

end

end Rijndael

end CoActionOS
