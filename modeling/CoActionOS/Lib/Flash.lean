import Mathlib.Data.Nat.Bitwise
import Mathlib.Tactic.IntervalCases

/-!
# NOR flash

Erasing a range of bytes sets all their bits; programming a byte can only clear bits, so the result
is the conjunction of the old and the new value.  `Clears f a vs` says that programming `vs` at `a`
gives back `vs`: no bit of the range has to be set.

The contents are kept as one number, so that runs on concrete media can be evaluated.  Everything
else is stated through `Flash.get`.
-/

namespace CoActionOS

/-- Bit `8 * a + i` of `cleared` is set when bit `i` of the byte at `a` reads 0. -/
structure Flash where
  cleared : Nat

namespace Flash

/-- All bytes read `0xFF`. -/
def blank : Flash := ⟨0⟩

def get (f : Flash) (a : Nat) : UInt8 := UInt8.ofNat (f.cleared >>> (8 * a)) ^^^ 0xFF

def programByte (f : Flash) (a : Nat) (v : UInt8) : Flash :=
  ⟨f.cleared ||| (v ^^^ 0xFF).toNat <<< (8 * a)⟩

def program (f : Flash) (a : Nat) : List UInt8 → Flash
  | [] => f
  | v :: vs => (f.programByte a v).program (a + 1) vs

/-- Erase the `n` bytes from `a` on. -/
def erase (f : Flash) (a n : Nat) : Flash :=
  ⟨f.cleared ^^^ ((f.cleared >>> (8 * a)) % 2 ^ (8 * n)) <<< (8 * a)⟩

/-! ### Reading back -/

theorem eq_of_testBit {x y : UInt8} (h : ∀ i < 8, x.toNat.testBit i = y.toNat.testBit i) :
    x = y := by
  apply UInt8.toNat_inj.mp
  apply Nat.eq_of_testBit_eq
  intro i
  by_cases hi : i < 8
  · exact h i hi
  · have hx : ∀ z : UInt8, z.toNat < 2 ^ i := fun z =>
      Nat.lt_of_lt_of_le (UInt8.toNat_lt z) (Nat.pow_le_pow_right (by decide) (by omega))
    rw [Nat.testBit_lt_two_pow (hx x), Nat.testBit_lt_two_pow (hx y)]

theorem testBit_255 {i : Nat} (hi : i < 8) : (255 : Nat).testBit i = true := by
  interval_cases i <;> rfl

theorem testBit_get (f : Flash) (a : Nat) {i : Nat} (hi : i < 8) :
    (f.get a).toNat.testBit i = !f.cleared.testBit (8 * a + i) := by
  have h255 : (0xFF : UInt8).toNat = 255 := rfl
  rw [get, UInt8.toNat_xor, Nat.testBit_xor, h255, testBit_255 hi, UInt8.toNat_ofNat',
    Nat.testBit_mod_two_pow, Nat.testBit_shiftRight]
  simp [hi]

@[simp] theorem get_blank (a : Nat) : blank.get a = 0xFF := by
  simp [blank, get]

theorem testBit_programByte (f : Flash) (a : Nat) (v : UInt8) (c : Nat) {i : Nat} (hi : i < 8) :
    (f.programByte a v).cleared.testBit (8 * c + i) =
      (f.cleared.testBit (8 * c + i) || (decide (c = a) && !v.toNat.testBit i)) := by
  rw [programByte, Nat.testBit_or, Nat.testBit_shiftLeft]
  congr 1
  rcases Nat.lt_trichotomy c a with h | h | h
  · have h1 : ¬8 * c + i ≥ 8 * a := by omega
    simp [h1, Nat.ne_of_lt h]
  · subst h
    have h1 : 8 * c + i - 8 * c = i := by omega
    have h255 : (0xFF : UInt8).toNat = 255 := rfl
    rw [h1, UInt8.toNat_xor, Nat.testBit_xor, h255, testBit_255 hi]
    simp
  · have h1 : 8 ≤ 8 * c + i - 8 * a := by omega
    have h2 : (v ^^^ 0xFF).toNat.testBit (8 * c + i - 8 * a) = false :=
      Nat.testBit_lt_two_pow (Nat.lt_of_lt_of_le (UInt8.toNat_lt _)
        (Nat.pow_le_pow_right (by decide) h1))
    rw [h2]
    simp [Nat.ne_of_gt h]

theorem get_programByte (f : Flash) (a : Nat) (v : UInt8) (c : Nat) :
    (f.programByte a v).get c = if c = a then f.get c &&& v else f.get c := by
  apply eq_of_testBit
  intro i hi
  rw [testBit_get _ _ hi, testBit_programByte _ _ _ _ hi]
  split
  · next h =>
    rw [UInt8.toNat_and, Nat.testBit_and, testBit_get _ _ hi]
    simp [h]
  · next h =>
    rw [testBit_get _ _ hi]
    simp [h]

theorem get_program (f : Flash) (a : Nat) (vs : List UInt8) (c : Nat) :
    (f.program a vs).get c =
      if h : a ≤ c ∧ c - a < vs.length then f.get c &&& vs[c - a] else f.get c := by
  induction vs generalizing f a with
  | nil => simp [program]
  | cons v vs ih =>
    rw [program, ih, get_programByte]
    rcases Nat.lt_trichotomy c a with h | h | h
    · have h1 : ¬(a + 1 ≤ c ∧ c - (a + 1) < vs.length) := by omega
      have h2 : ¬(a ≤ c ∧ c - a < (v :: vs).length) := by omega
      rw [dif_neg h1, dif_neg h2, if_neg (by omega)]
    · subst h
      have h1 : ¬(c + 1 ≤ c ∧ c - (c + 1) < vs.length) := by omega
      rw [dif_neg h1, if_pos rfl, dif_pos (by simp)]
      simp
    · rw [if_neg (by omega)]
      have h0 : c - a = c - (a + 1) + 1 := by omega
      by_cases h1 : c - (a + 1) < vs.length
      · rw [dif_pos ⟨by omega, h1⟩, dif_pos ⟨by omega, by simp; omega⟩]
        simp [h0]
      · rw [dif_neg (by omega), dif_neg (by simp; omega)]

theorem get_program_of_lt {f : Flash} {a : Nat} {vs : List UInt8} {c : Nat}
    (h : c < a ∨ a + vs.length ≤ c) : (f.program a vs).get c = f.get c := by
  rw [get_program, dif_neg (by omega)]

theorem testBit_erase (f : Flash) (a n c : Nat) {i : Nat} (hi : i < 8) :
    (f.erase a n).cleared.testBit (8 * c + i) =
      (f.cleared.testBit (8 * c + i) && !decide (a ≤ c ∧ c < a + n)) := by
  rw [erase, Nat.testBit_xor, Nat.testBit_shiftLeft, Nat.testBit_mod_two_pow,
    Nat.testBit_shiftRight]
  by_cases h : a ≤ c
  · have h1 : 8 * c + i ≥ 8 * a := by omega
    have h2 : 8 * a + (8 * c + i - 8 * a) = 8 * c + i := by omega
    rw [h2]
    by_cases h3 : c < a + n
    · have h4 : 8 * c + i - 8 * a < 8 * n := by omega
      simp [h1, h, h3, h4]
    · have h4 : ¬8 * c + i - 8 * a < 8 * n := by omega
      simp [h1, h, h3, h4]
  · have h1 : ¬8 * c + i ≥ 8 * a := by omega
    simp [h, h1]

theorem get_erase (f : Flash) (a n c : Nat) :
    (f.erase a n).get c = if a ≤ c ∧ c < a + n then 0xFF else f.get c := by
  apply eq_of_testBit
  intro i hi
  rw [testBit_get _ _ hi, testBit_erase _ _ _ _ hi]
  split
  · next h =>
    have h255 : (0xFF : UInt8).toNat = 255 := rfl
    rw [h255, testBit_255 hi]
    simp [h]
  · next h =>
    rw [testBit_get _ _ hi]
    simp [h]

/-! ### Programming that only clears bits -/

/-- No bit has to be set to store `vs` at `a`. -/
def Clears (f : Flash) (a : Nat) (vs : List UInt8) : Prop :=
  ∀ (i : Nat) (h : i < vs.length), vs[i] &&& f.get (a + i) = vs[i]

instance (f : Flash) (a : Nat) (vs : List UInt8) : Decidable (Clears f a vs) :=
  inferInstanceAs (Decidable (∀ (i : Nat) (h : i < vs.length), vs[i] &&& f.get (a + i) = vs[i]))

/-- What is stored is read back. -/
theorem get_program_of_clears {f : Flash} {a : Nat} {vs : List UInt8} (h : Clears f a vs) {c : Nat}
    (hc : a ≤ c ∧ c - a < vs.length) : (f.program a vs).get c = vs[c - a] := by
  rw [get_program, dif_pos hc]
  have h1 := h (c - a) hc.2
  rw [Nat.add_sub_cancel' hc.1] at h1
  rw [UInt8.and_comm, h1]

theorem clears_of_blank {f : Flash} {a : Nat} {vs : List UInt8}
    (h : ∀ i < vs.length, f.get (a + i) = 0xFF) : Clears f a vs := by
  intro i hi
  rw [h i hi]
  exact UInt8.and_neg_one

end Flash

end CoActionOS
