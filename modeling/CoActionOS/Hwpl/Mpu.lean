import CoActionOS.Lib.Passes
import Mathlib.Algebra.Group.Nat.Defs
import Mathlib.Data.Nat.Log
import Mathlib.Order.Bounds.Defs
import Mathlib.Tactic.SplitIfs

/-!
# Regions of protected memory

`mpu_calc_region` computes the values of two registers of the memory protection unit from an address and a size.  The size is
rounded up to a power of two, and the address has to be a multiple of that.

`regions_cover` says that the region which the unit makes of the two values contains the bytes that were asked for.
-/

namespace CoActionOS

namespace Hwpl

/-! ### The code -/

inductive MpuMemory
  | flash | sram | externalSram | peripherals
  deriving DecidableEq, Repr

inductive MpuAccess
  | none | prw | prwUr | prwUrw | reserved | pr | prUr
  deriving DecidableEq, Repr

def MpuAccess.value : MpuAccess → BitVec 32
  | none => 0
  | prw => 1
  | prwUr => 2
  | prwUrw => 3
  | reserved => 4
  | pr => 5
  | prUr => 6

def mpuSize32b : Nat := 4

/-- The list of sizes has none for 256 KB and none for 256 MB. -/
def mpuSize4gb : Nat := 29

def mpuCalcSizeLoop (size : BitVec 32) : Nat → Nat → Nat
  | 0, shift => shift - 1
  | fuel + 1, shift =>
    if 1#32 <<< shift < size then
      if shift + 1 = mpuSize4gb + 1 then 0 else mpuCalcSizeLoop size fuel (shift + 1)
    else shift - 1

def mpuCalcSize (size : BitVec 32) : Nat := mpuCalcSizeLoop size (mpuSize4gb + 1 - 5) 5

def mpuGetnextpowerof2Loop (size : BitVec 32) : Nat → BitVec 32
  | 0 => 1
  | i + 1 =>
    if size &&& (1#32 <<< (i + 1)) ≠ 0 then
      if size = 1#32 <<< (i + 1) then 1#32 <<< (i + 1) else 1#32 <<< (i + 2)
    else mpuGetnextpowerof2Loop size i

def mpuGetnextpowerof2 (size : BitVec 32) : BitVec 32 := mpuGetnextpowerof2Loop size 31

/-- The bits that are set for a type of memory. -/
def MpuMemory.bits : MpuMemory → BitVec 32
  | externalSram => (1#32 <<< 16) ||| (1#32 <<< 17) ||| (1#32 <<< 18)
  | sram => (1#32 <<< 18) ||| (1#32 <<< 17)
  | flash => 1#32 <<< 17
  | peripherals => (1#32 <<< 16) ||| (1#32 <<< 18)

/-- `mpu_calc_region`: the values of `rbar` and `rasr`, unless it returns -1. -/
def mpuCalcRegion (region addr size : BitVec 32) (access : MpuAccess) (type : MpuMemory) (executable : Bool) :
    Option (BitVec 32 × BitVec 32) :=
  let upSize := mpuGetnextpowerof2 size
  if upSize < 32 then none
  else if addr &&& (upSize - 1) ≠ 0 then none
  else
    let subregionSize := upSize >>> 3
    if subregionSize = 0 then none
    else if upSize % subregionSize ≠ 0 then none
    else
      let subregions : BitVec 8 := (upSize / subregionSize).setWidth 8
      let subregionMask : BitVec 8 := (~~~((1#32 <<< subregions.toNat) - 1)).setWidth 8
      let mpuSize := mpuCalcSize upSize
      if mpuSize < mpuSize32b then none
      else
        let rasr := (BitVec.ofNat 32 mpuSize <<< 1) ||| (1#32 <<< 0) ||| (access.value <<< 24) |||
          (subregionMask.setWidth 32 <<< 8)
        let rasr := if executable then rasr else rasr ||| (1#32 <<< 28)
        some (addr ||| ((1#32 <<< 4) ||| region), rasr ||| type.bits)

/-! ### The loops as they are written -/

/-- A pass of `for(i=31; i > 0; i--)`. -/
def nextpowerof2Pass (size : BitVec 32) (i : Nat) : Nat ⊕ BitVec 32 :=
  if 0 < i then
    if size &&& (1#32 <<< i) ≠ 0 then .inr (if size = 1#32 <<< i then 1#32 <<< i else 1#32 <<< (i + 1))
    else .inl (i - 1)
  else .inr 1

/-- A pass of `while ( (uint32_t)(1<<shift) < (uint32_t)size )`. -/
def calcSizePass (size : BitVec 32) (shift : Nat) : Nat ⊕ Nat :=
  if 1#32 <<< shift < size then
    if shift + 1 = mpuSize4gb + 1 then .inr 0 else .inl (shift + 1)
  else .inr (shift - 1)

theorem passes_mpuGetnextpowerof2 (size : BitVec 32) :
    ∃ n, n ≤ 31 ∧ Passes (nextpowerof2Pass size) 31 n (mpuGetnextpowerof2 size) := by
  apply Passes.of_recursion (fun _ => True) (fun i => i) (mpuGetnextpowerof2Loop size) ?_ ?_ trivial
  · intro i i' _ hpass
    unfold nextpowerof2Pass at hpass
    split_ifs at hpass with hpos hbit
    cases hpass
    obtain ⟨k, rfl⟩ := Nat.exists_eq_succ_of_ne_zero hpos.ne'
    refine ⟨trivial, by omega, ?_⟩
    rw [mpuGetnextpowerof2Loop, if_neg hbit, Nat.succ_sub_one]
  · intro i r _ hpass
    unfold nextpowerof2Pass at hpass
    cases i with
    | zero =>
      rw [if_neg (Nat.lt_irrefl 0)] at hpass
      cases hpass
      rfl
    | succ k =>
      rw [if_pos (Nat.succ_pos k)] at hpass
      by_cases hbit : size &&& (1#32 <<< (k + 1)) ≠ 0
      · rw [if_pos hbit] at hpass
        cases hpass
        rw [mpuGetnextpowerof2Loop, if_pos hbit]
      · rw [if_neg hbit] at hpass
        cases hpass

/-- The counter of `mpu_calc_size` never passes the greatest size. -/
theorem passes_mpuCalcSize (size : BitVec 32) :
    ∃ n, n ≤ mpuSize4gb + 1 - 5 ∧ Passes (calcSizePass size) 5 n (mpuCalcSize size) := by
  apply Passes.of_recursion (fun shift => shift < mpuSize4gb + 1) (fun shift => mpuSize4gb + 1 - shift)
    (fun shift => mpuCalcSizeLoop size (mpuSize4gb + 1 - shift) shift) ?_ ?_ (by decide)
  · intro shift shift' hlt hpass
    unfold calcSizePass at hpass
    split_ifs at hpass with hless hlast
    cases hpass
    obtain ⟨fuel, hfuel⟩ : ∃ fuel, mpuSize4gb + 1 - shift = fuel + 1 := ⟨mpuSize4gb - shift, by omega⟩
    have hfuel' : mpuSize4gb + 1 - (shift + 1) = fuel := by omega
    refine ⟨by omega, by omega, ?_⟩
    simp only [hfuel, hfuel']
    rw [mpuCalcSizeLoop, if_pos hless, if_neg hlast]
  · intro shift r hlt hpass
    obtain ⟨fuel, hfuel⟩ : ∃ fuel, mpuSize4gb + 1 - shift = fuel + 1 := ⟨mpuSize4gb - shift, by omega⟩
    simp only [hfuel]
    rw [mpuCalcSizeLoop]
    unfold calcSizePass at hpass
    split_ifs at hpass with hless hlast
    · cases hpass
      rw [if_pos hless, if_pos hlast]
    · cases hpass
      rw [if_neg hless]

/-! ### Rounding up -/

theorem toNat_shiftLeft_one {i : Nat} (hi : i < 32) : (1#32 <<< i).toNat = 2 ^ i := by
  have hlt : 2 ^ i < 2 ^ 32 := Nat.pow_lt_pow_right (by decide) hi
  rw [BitVec.toNat_shiftLeft, BitVec.toNat_ofNat, Nat.shiftLeft_eq]
  omega

/-- Below `2 ^ (i + 2)` the bit `i + 1` tells whether `2 ^ (i + 1)` is reached. -/
theorem and_shiftLeft_one_ne_zero {size : BitVec 32} {i : Nat} (hi : i + 1 < 32) (hlt : size.toNat < 2 ^ (i + 2)) :
    size &&& (1#32 <<< (i + 1)) ≠ 0 ↔ 2 ^ (i + 1) ≤ size.toNat := by
  have hbit : size &&& (1#32 <<< (i + 1)) ≠ 0 ↔ size.toNat.testBit (i + 1) = true := by
    rw [← BitVec.twoPow_eq, BitVec.and_twoPow, BitVec.testBit_toNat]
    cases hb : size.getLsbD (i + 1) with
    | true =>
      simp only [ite_true, ne_eq, iff_true]
      intro h0
      have := congrArg BitVec.toNat h0
      rw [BitVec.twoPow_eq, toNat_shiftLeft_one hi] at this
      exact absurd this (Nat.two_pow_pos _).ne'
    | false => simp
  rw [hbit, Nat.testBit_eq_decide_div_mod_eq, decide_eq_true_eq]
  have hpow : 2 ^ (i + 2) = 2 ^ (i + 1) * 2 := Nat.pow_succ 2 (i + 1)
  constructor
  · intro h
    by_contra hge
    rw [Nat.div_eq_of_lt (by omega)] at h
    exact absurd h (by decide)
  · intro hge
    have hdiv : size.toNat / 2 ^ (i + 1) = 1 := by
      apply Nat.div_eq_of_lt_le
      · omega
      · omega
    rw [hdiv]

theorem mpuGetnextpowerof2Loop_toNat {size : BitVec 32} (hpos : 0 < size.toNat) (i : Nat) (hi : i ≤ 30)
    (hlt : size.toNat < 2 ^ (i + 1)) : (mpuGetnextpowerof2Loop size i).toNat = 2 ^ Nat.clog 2 size.toNat := by
  induction i with
  | zero =>
    have h1 : size.toNat = 1 := by omega
    rw [h1, Nat.clog_one_right]
    rfl
  | succ i ih =>
    unfold mpuGetnextpowerof2Loop
    by_cases hge : 2 ^ (i + 1) ≤ size.toNat
    · rw [if_pos ((and_shiftLeft_one_ne_zero (by omega) hlt).2 hge)]
      have hshift : (1#32 <<< (i + 1)).toNat = 2 ^ (i + 1) := toNat_shiftLeft_one (by omega)
      by_cases heq : size = 1#32 <<< (i + 1)
      · rw [if_pos heq, hshift, heq, hshift, Nat.clog_pow 2 (i + 1) (by decide)]
      · rw [if_neg heq, toNat_shiftLeft_one (by omega)]
        have hne : size.toNat ≠ 2 ^ (i + 1) := by
          intro h
          exact heq (BitVec.eq_of_toNat_eq (h.trans hshift.symm))
        have hclog : Nat.clog 2 size.toNat = i + 2 := by
          apply le_antisymm
          · rw [Nat.clog_le_iff_le_pow (by decide)]
            exact hlt.le
          · rw [Nat.succ_le_iff, Nat.lt_clog_iff_pow_lt (by decide)]
            omega
        rw [hclog]
    · rw [if_neg (fun h => hge ((and_shiftLeft_one_ne_zero (by omega) hlt).1 h))]
      exact ih (by omega) (by omega)

/-- The result as a `uint32_t`. -/
theorem toNat_mpuGetnextpowerof2 {size : BitVec 32} (hle : size.toNat ≤ 2 ^ 31) :
    (mpuGetnextpowerof2 size).toNat = 2 ^ Nat.clog 2 size.toNat := by
  rcases Nat.eq_zero_or_pos size.toNat with hzero | hpos
  · rw [BitVec.eq_of_toNat_eq (y := 0#32) hzero]
    decide
  · have hbit : size &&& (1#32 <<< (30 + 1)) ≠ 0 ↔ 2 ^ (30 + 1) ≤ size.toNat :=
      and_shiftLeft_one_ne_zero (by decide) size.isLt
    have htop : (1#32 <<< (30 + 1)).toNat = 2 ^ 31 := toNat_shiftLeft_one (by decide)
    rw [mpuGetnextpowerof2, mpuGetnextpowerof2Loop]
    rcases Nat.lt_or_ge size.toNat (2 ^ 31) with hlt | hge
    · rw [if_neg (fun h => absurd (hbit.mp h) (Nat.not_le.mpr hlt))]
      exact mpuGetnextpowerof2Loop_toNat hpos 30 le_rfl hlt
    · -- the top bit alone
      have htwo : size.toNat = 2 ^ 31 := Nat.le_antisymm hle hge
      rw [if_pos (hbit.mpr hge), if_pos (BitVec.eq_of_toNat_eq (htwo.trans htop.symm)), htop, htwo,
        Nat.clog_pow 2 31 (by decide)]

/-- Up to a gigabyte the result is the same as an `int`. -/
theorem toInt_mpuGetnextpowerof2 {size : BitVec 32} (hle : size.toNat ≤ 2 ^ 30) :
    (mpuGetnextpowerof2 size).toInt = ((2 ^ Nat.clog 2 size.toNat : Nat) : Int) := by
  have hval := toNat_mpuGetnextpowerof2 (Nat.le_trans hle (by decide))
  have hclog : Nat.clog 2 size.toNat ≤ 30 := (Nat.clog_le_iff_le_pow (by decide)).mpr hle
  have hpow : 2 ^ Nat.clog 2 size.toNat ≤ 2 ^ 30 := Nat.pow_le_pow_right (by decide) hclog
  rw [BitVec.toInt_eq_toNat_cond, hval, if_pos (by omega)]

theorem mpuGetnextpowerof2_of_gt {size : BitVec 32} (hgt : 2 ^ 31 < size.toNat) : mpuGetnextpowerof2 size = 0 := by
  have hbit : size &&& (1#32 <<< (30 + 1)) ≠ 0 ↔ 2 ^ (30 + 1) ≤ size.toNat :=
    and_shiftLeft_one_ne_zero (by decide) size.isLt
  have hne : size ≠ 1#32 <<< (30 + 1) := by
    rintro rfl
    exact absurd hgt (by decide)
  rw [mpuGetnextpowerof2, mpuGetnextpowerof2Loop, if_pos (hbit.mpr hgt.le), if_neg hne]
  rfl

/-- A power of two from 32 on is the size rounded up. -/
theorem exists_pow_of_not_lt {size : BitVec 32} (h : ¬mpuGetnextpowerof2 size < 32) :
    ∃ k, 5 ≤ k ∧ size.toNat ≤ 2 ^ k ∧ (mpuGetnextpowerof2 size).toNat = 2 ^ k := by
  have hle : size.toNat ≤ 2 ^ 31 := by
    by_contra hgt
    rw [mpuGetnextpowerof2_of_gt (Nat.not_le.mp hgt)] at h
    exact h (by decide)
  have hval := toNat_mpuGetnextpowerof2 hle
  refine ⟨Nat.clog 2 size.toNat, ?_, Nat.le_pow_clog (by decide) _, hval⟩
  rw [BitVec.not_lt, BitVec.le_def, hval] at h
  exact (Nat.pow_le_pow_iff_right (a := 2) (by decide)).mp h

theorem mpuCalcSizeLoop_eq {size : BitVec 32} {k : Nat} (hk : size.toNat = 2 ^ k) (fuel shift : Nat)
    (hfuel : shift + (fuel + 1) = mpuSize4gb + 1) (hle : shift ≤ k) :
    mpuCalcSizeLoop size (fuel + 1) shift = if k ≤ mpuSize4gb then k - 1 else 0 := by
  have hshift : (1#32 <<< shift).toNat = 2 ^ shift := toNat_shiftLeft_one (by unfold mpuSize4gb at hfuel; omega)
  have hiff : 1#32 <<< shift < size ↔ shift < k := by
    rw [BitVec.lt_def, hshift, hk]
    exact Nat.pow_lt_pow_iff_right (by decide)
  induction fuel generalizing shift with
  | zero =>
    rw [mpuCalcSizeLoop]
    by_cases hlt : shift < k
    · rw [if_pos (hiff.mpr hlt), if_pos (by omega), if_neg (by omega)]
    · rw [if_neg (fun h => hlt (hiff.mp h)), if_pos (by omega), Nat.le_antisymm hle (Nat.not_lt.mp hlt)]
  | succ fuel ih =>
    rw [mpuCalcSizeLoop]
    by_cases hlt : shift < k
    · have hnext : (1#32 <<< (shift + 1)).toNat = 2 ^ (shift + 1) :=
        toNat_shiftLeft_one (by unfold mpuSize4gb at hfuel; omega)
      rw [if_pos (hiff.mpr hlt), if_neg (by omega)]
      apply ih (shift + 1) (by omega) hlt hnext
      rw [BitVec.lt_def, hnext, hk]
      exact Nat.pow_lt_pow_iff_right (by decide)
    · rw [if_neg (fun h => hlt (hiff.mp h)), if_pos (by omega), Nat.le_antisymm hle (Nat.not_lt.mp hlt)]

theorem mpuCalcSize_eq {size : BitVec 32} {k : Nat} (hk : size.toNat = 2 ^ k) (hle : 5 ≤ k) :
    mpuCalcSize size = if k ≤ mpuSize4gb then k - 1 else 0 :=
  mpuCalcSizeLoop_eq hk 24 5 rfl hle

/-! ### What the unit makes of the registers -/

/-- `ENABLE` -/
def enabled (rasr : BitVec 32) : Bool := rasr.getLsbD 0

/-- What `SIZE` stands for. -/
def regionSize (rasr : BitVec 32) : Nat := 2 ^ ((rasr.extractLsb' 1 5).toNat + 1)

/-- `SRD`: the eighths of the region that do not belong to it. -/
def subregionDisabled (rasr : BitVec 32) (n : Nat) : Bool := rasr.getLsbD (8 + n)

/-- The address above `VALID` and `REGION`. -/
def regionBase (rbar : BitVec 32) : Nat := (rbar &&& ~~~0x1F#32).toNat

def Covers (rbar rasr : BitVec 32) (a : Nat) : Prop :=
  enabled rasr = true ∧ regionBase rbar ≤ a ∧ a < regionBase rbar + regionSize rasr ∧
    subregionDisabled rasr ((a - regionBase rbar) / (regionSize rasr / 8)) = false

/-- The region of the two values is as the unit needs it, and holds the bytes. -/
structure Protects (rbar rasr addr size : BitVec 32) : Prop where
  power : ∃ k, 5 ≤ k ∧ (mpuGetnextpowerof2 size).toNat = 2 ^ k
  encoded : regionSize rasr = (mpuGetnextpowerof2 size).toNat
  aligned : regionSize rasr ∣ regionBase rbar
  covers : ∀ a, addr.toNat ≤ a → a < addr.toNat + size.toNat → Covers rbar rasr a

section

variable {region addr size rbar rasr : BitVec 32} {access : MpuAccess} {type : MpuMemory} {executable : Bool}

theorem getLsbD_shiftLeft_of_lt (x : BitVec 32) {i k : Nat} (hlt : i < k) : (x <<< k).getLsbD i = false := by
  rw [BitVec.getLsbD_shiftLeft, decide_eq_true hlt]
  simp

/-- The attributes of a region lie above the fields that say where it is. -/
theorem getLsbD_bits (type : MpuMemory) {i : Nat} (hi : i < 16) : type.bits.getLsbD i = false := by
  have h16 := getLsbD_shiftLeft_of_lt 1#32 hi
  have h17 := getLsbD_shiftLeft_of_lt 1#32 (show i < 17 by omega)
  have h18 := getLsbD_shiftLeft_of_lt 1#32 (show i < 18 by omega)
  cases type <;> simp only [MpuMemory.bits, BitVec.getLsbD_or, h16, h17, h18, Bool.or_false]

theorem dvd_of_and_eq_zero {up : BitVec 32} {k : Nat} (hval : up.toNat = 2 ^ k) (hand : addr &&& (up - 1) = 0) :
    2 ^ k ∣ addr.toNat := by
  have hmask : (up - 1).toNat = 2 ^ k - 1 := by
    have hpos := Nat.two_pow_pos k
    have hlt := up.isLt
    rw [BitVec.toNat_sub_of_le (by rw [BitVec.le_def, hval]; exact hpos), hval]
    rfl
  have hzero := congrArg BitVec.toNat hand
  rw [BitVec.toNat_and, hmask, Nat.and_two_pow_sub_one_eq_mod] at hzero
  exact Nat.dvd_of_mod_eq_zero hzero

/-- None of the eighths is disabled. -/
theorem subregionMask_eq {up : BitVec 32} {k : Nat} (hval : up.toNat = 2 ^ k) (h5 : 5 ≤ k) :
    (~~~((1#32 <<< ((up / (up >>> 3)).setWidth 8).toNat) - 1)).setWidth 8 = 0#8 := by
  have height : up / (up >>> 3) = 8 := by
    apply BitVec.eq_of_toNat_eq
    rw [BitVec.toNat_udiv, BitVec.toNat_ushiftRight, hval, Nat.shiftRight_eq_div_pow, Nat.pow_div (by omega) (by decide),
      Nat.pow_div (by omega) (by decide), show k - (k - 3) = 3 by omega]
    rfl
  rw [height]
  decide

/-- What success says about the size, and what is written then. -/
theorem mpuCalcRegion_cases (hr : mpuCalcRegion region addr size access type executable = some (rbar, rasr)) :
    ∃ k, 5 ≤ k ∧ k ≤ mpuSize4gb ∧ size.toNat ≤ 2 ^ k ∧ (mpuGetnextpowerof2 size).toNat = 2 ^ k ∧ 2 ^ k ∣ addr.toNat ∧
      rbar = addr ||| (1#32 <<< 4 ||| region) ∧ ∀ i < 16, rasr.getLsbD i = (BitVec.ofNat 32 (k - 1) <<< 1 ||| 1#32).getLsbD i := by
  dsimp only [mpuCalcRegion] at hr
  by_cases hsmall : mpuGetnextpowerof2 size < 32
  · rw [if_pos hsmall] at hr
    cases hr
  obtain ⟨k, h5, hle, hval⟩ := exists_pow_of_not_lt hsmall
  rw [if_neg hsmall] at hr
  generalize mpuGetnextpowerof2 size = up at hval hr ⊢
  by_cases haddr : addr &&& (up - 1) ≠ 0
  · rw [if_pos haddr] at hr
    cases hr
  by_cases hzero : up >>> 3 = 0
  · rw [if_neg haddr, if_pos hzero] at hr
    cases hr
  by_cases hrest : up % (up >>> 3) ≠ 0
  · rw [if_neg haddr, if_neg hzero, if_pos hrest] at hr
    cases hr
  by_cases hfits : mpuCalcSize up < mpuSize32b
  · rw [if_neg haddr, if_neg hzero, if_neg hrest, if_pos hfits] at hr
    cases hr
  rw [if_neg haddr, if_neg hzero, if_neg hrest, if_neg hfits] at hr
  have hsize := mpuCalcSize_eq hval h5
  have h29 : k ≤ mpuSize4gb := by
    by_contra hgt
    rw [hsize, if_neg hgt] at hfits
    exact hfits (by decide)
  rw [if_pos h29] at hsize
  cases hr
  refine ⟨k, h5, h29, hle, hval, dvd_of_and_eq_zero hval (not_not.mp haddr), rfl, ?_⟩
  intro i hi
  have haccess := getLsbD_shiftLeft_of_lt access.value (show i < 24 by omega)
  have hexecutable := getLsbD_shiftLeft_of_lt 1#32 (show i < 28 by omega)
  have hmask : BitVec.setWidth 32 0#8 <<< 8 = 0#32 := by decide
  rw [subregionMask_eq hval h5, hsize, hmask, BitVec.shiftLeft_zero]
  cases executable
  · simp only [Bool.false_eq_true, ite_false, BitVec.getLsbD_or, getLsbD_bits type hi, haccess, hexecutable,
      BitVec.getLsbD_zero, Bool.or_false]
  · simp only [ite_true, BitVec.getLsbD_or, getLsbD_bits type hi, haccess, BitVec.getLsbD_zero, Bool.or_false]

/-! ### The region -/

theorem regionBase_eq (hregion : region.toNat < 32) (hdvd : 2 ^ 5 ∣ addr.toNat) :
    regionBase (addr ||| (1#32 <<< 4 ||| region)) = addr.toNat := by
  have hmask : ∀ i, (0x1F#32).getLsbD i = decide (i < 5) := Nat.testBit_two_pow_sub_one 5
  apply congrArg BitVec.toNat
  apply BitVec.eq_of_getLsbD_eq
  intro i hi
  rw [BitVec.getLsbD_and, BitVec.getLsbD_not, hmask, decide_eq_true hi, Bool.true_and]
  by_cases h5 : i < 5
  · -- the low bits are cut off, and `addr` has none
    obtain ⟨m, hm⟩ := hdvd
    have haddr : addr.getLsbD i = false := by
      rw [← BitVec.testBit_toNat, hm, Nat.testBit_two_pow_mul, decide_eq_false (by omega), Bool.false_and]
    rw [decide_eq_true h5, haddr, Bool.not_true, Bool.and_false]
  · have hlow : region.getLsbD i = false := by
      rw [← BitVec.testBit_toNat]
      apply Nat.testBit_lt_two_pow
      calc region.toNat < 2 ^ 5 := hregion
        _ ≤ 2 ^ i := Nat.pow_le_pow_right (by decide) (Nat.not_lt.mp h5)
    have hvalid : (1#32 <<< 4).getLsbD i = false := by
      rw [← BitVec.testBit_toNat, toNat_shiftLeft_one (by decide), Nat.testBit_two_pow_of_ne (by omega)]
    rw [decide_eq_false h5, BitVec.getLsbD_or, BitVec.getLsbD_or, hlow, hvalid, Bool.or_self, Bool.or_false, Bool.not_false,
      Bool.and_true]

/-- The bits above `ENABLE` are those of the size. -/
theorem getLsbD_succ_of_low {k : Nat} (hlow : ∀ i < 16, rasr.getLsbD i = (BitVec.ofNat 32 (k - 1) <<< 1 ||| 1#32).getLsbD i)
    {i : Nat} (hi : i + 1 < 16) : rasr.getLsbD (i + 1) = (k - 1).testBit i := by
  rw [hlow (i + 1) hi, BitVec.getLsbD_or, BitVec.getLsbD_shiftLeft, BitVec.getLsbD_ofNat, BitVec.getLsbD_one,
    decide_eq_true (show i + 1 < 32 by omega), Nat.add_sub_cancel, decide_eq_true (show i < 32 by omega)]
  simp

theorem regionSize_eq {k : Nat} (h5 : 5 ≤ k) (h29 : k ≤ mpuSize4gb)
    (hlow : ∀ i < 16, rasr.getLsbD i = (BitVec.ofNat 32 (k - 1) <<< 1 ||| 1#32).getLsbD i) : regionSize rasr = 2 ^ k := by
  have hfield : rasr.extractLsb' 1 5 = BitVec.ofNat 5 (k - 1) := by
    apply BitVec.eq_of_getLsbD_eq
    intro i hi
    rw [BitVec.getLsbD_extractLsb', decide_eq_true hi, Bool.true_and, Nat.add_comm, getLsbD_succ_of_low hlow (by omega),
      BitVec.getLsbD_ofNat, decide_eq_true hi, Bool.true_and]
  unfold mpuSize4gb at h29
  rw [regionSize, hfield, BitVec.toNat_ofNat, Nat.mod_eq_of_lt (by omega), Nat.sub_add_cancel (by omega)]

theorem protects_of_mpuCalcRegion (hregion : region.toNat < 32)
    (hr : mpuCalcRegion region addr size access type executable = some (rbar, rasr)) : Protects rbar rasr addr size := by
  obtain ⟨k, h5, h29, hle, hval, hdvd, rfl, hlow⟩ := mpuCalcRegion_cases hr
  have hbase := regionBase_eq hregion (Nat.dvd_trans (Nat.pow_dvd_pow 2 h5) hdvd)
  have hsize := regionSize_eq h5 h29 hlow
  refine ⟨⟨k, h5, hval⟩, hsize.trans hval.symm, ?_, ?_⟩
  · rw [hsize, hbase]
    exact hdvd
  · intro a hfrom hto
    rw [Covers, hbase, hsize]
    refine ⟨?_, hfrom, by omega, ?_⟩
    · rw [enabled, hlow 0 (by decide)]
      simp
    · -- there are eight subregions, and all belong to the region
      have height : (a - addr.toNat) / (2 ^ k / 8) < 8 := by
        have hsplit : 2 ^ k = 2 ^ (k - 3) * 8 := by
          rw [← Nat.pow_add 2 (k - 3) 3, Nat.sub_add_cancel (by omega)]
        rw [hsplit, Nat.mul_div_cancel _ (by decide), Nat.div_lt_iff_lt_mul (Nat.two_pow_pos _), Nat.mul_comm, ← hsplit]
        omega
      unfold mpuSize4gb at h29
      rw [subregionDisabled, Nat.add_comm, Nat.add_succ, getLsbD_succ_of_low hlow (by omega)]
      apply Nat.testBit_lt_two_pow
      calc k - 1 < 2 ^ 7 := by omega
        _ ≤ 2 ^ ((a - addr.toNat) / (2 ^ k / 8) + 7) := Nat.pow_le_pow_right (by decide) (Nat.le_add_left 7 _)

end

theorem isLeast_mpuGetnextpowerof2 {size : BitVec 32} (hle : size.toNat ≤ 2 ^ 31) :
    IsLeast {p | (∃ k, p = 2 ^ k) ∧ size.toNat ≤ p} (mpuGetnextpowerof2 size).toNat := by
  rw [toNat_mpuGetnextpowerof2 hle]
  constructor
  · exact ⟨⟨_, rfl⟩, Nat.le_pow_clog (by decide) _⟩
  · rintro p ⟨⟨k, rfl⟩, hk⟩
    exact Nat.pow_le_pow_right (by decide) ((Nat.clog_le_iff_le_pow (by decide)).mpr hk)

/-- What the two functions are for.  The number of the region does not reach into the address: the callers have numbers
up to 7. -/
theorem regions_cover :
    (∀ (region addr size rbar rasr : BitVec 32) (access : MpuAccess) (type : MpuMemory) (executable : Bool),
        region.toNat < 32 → mpuCalcRegion region addr size access type executable = some (rbar, rasr) →
          Protects rbar rasr addr size) ∧
      (∀ size : BitVec 32, size.toNat ≤ 2 ^ 31 →
        IsLeast {p | (∃ k, p = 2 ^ k) ∧ size.toNat ≤ p} (mpuGetnextpowerof2 size).toNat) ∧
      ∀ size : BitVec 32, ∃ n, n ≤ 31 ∧ Passes (nextpowerof2Pass size) 31 n (mpuGetnextpowerof2 size) :=
  ⟨fun _ _ _ _ _ _ _ _ hregion hr => protects_of_mpuCalcRegion hregion hr, fun _ hle => isLeast_mpuGetnextpowerof2 hle,
    passes_mpuGetnextpowerof2⟩

theorem regions_cover_flash :
    Protects 0x2013 0x06020017 0x2000 3000 ∧
      IsLeast {p | (∃ k, p = 2 ^ k) ∧ (3000#32).toNat ≤ p} (mpuGetnextpowerof2 3000).toNat :=
  ⟨regions_cover.1 3 0x2000 3000 0x2013 0x06020017 .prUr .flash true (by decide) (by decide),
    regions_cover.2.1 3000 (by decide)⟩

end Hwpl

end CoActionOS
