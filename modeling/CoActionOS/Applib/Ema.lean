import CoActionOS.Lib.Checked
import Mathlib.Algebra.Order.Ring.Int
import Mathlib.Data.List.Induction
import Mathlib.Tactic.Linarith

/-!
# The moving average

An `Ema` keeps the average as an integer of the medium type and weighs it against the next input in the large type.  What is
added before the shift is `small_max()`, a whole unit of the result.

`staysWithin_iff` says which sequences of inputs keep the average between the start value and the inputs.
-/

namespace CoActionOS

namespace Dsp

/-! ### The code -/

/-- The instances of the class template. -/
inductive Instance where
  | i32
  | i16
  | u32
  | u16
  deriving DecidableEq, Repr

namespace Instance

/-- `sizeof(intsmall)*8` -/
def smallBits : Instance → Nat
  | i32 | u32 => 16
  | i16 | u16 => 8

def mediumBits : Instance → Nat
  | i32 | u32 => 32
  | i16 | u16 => 16

def largeBits : Instance → Nat
  | i32 | u32 => 64
  | i16 | u16 => 32

/-- `intmedium` and `intlarge` are signed. -/
def isSigned : Instance → Bool
  | i32 | i16 => true
  | u32 | u16 => false

end Instance

/-- What an integer type holds. -/
def least (isSigned : Bool) (bits : Nat) : Int := if isSigned then -2 ^ (bits - 1) else 0

def bound (isSigned : Bool) (bits : Nat) : Int := if isSigned then 2 ^ (bits - 1) else 2 ^ bits

/-- The conversion to an integer type. -/
def store (isSigned : Bool) (bits : Nat) (n : Int) : Checked Int :=
  if isSigned then Checked.signed (bits - 1) n
  else do
    let m ← Checked.unsigned bits n
    return (m : Int)

variable {t : Instance}

def toMedium (t : Instance) (n : Int) : Checked Int := store t.isSigned t.mediumBits n

def toLarge (t : Instance) (n : Int) : Checked Int := store t.isSigned t.largeBits n

/-- The values of `intmedium`. -/
def InRange (t : Instance) (n : Int) : Prop := least t.isSigned t.mediumBits ≤ n ∧ n < bound t.isSigned t.mediumBits

instance (t : Instance) (n : Int) : Decidable (InRange t n) := inferInstanceAs (Decidable (_ ∧ _))

def Medium (t : Instance) : Type := {n : Int // InRange t n}

/-- The object. -/
structure Ema (t : Instance) where
  average : Int
  alpha : Fin (2 ^ t.smallBits)

/-- `small_max` -/
def smallMax (t : Instance) : Checked Int := toMedium t (2 ^ t.smallBits)

/-- `calc` -/
def Ema.calc (e : Ema t) (input : Int) : Checked (Ema t) := do
  let product ← toLarge t ((← toLarge t input) * (← toLarge t e.alpha))
  let rest ← toLarge t ((← toLarge t e.average) * (← toLarge t ((← smallMax t) - e.alpha)))
  let tmp0 ← toLarge t (product + rest)
  let sum ← toLarge t ((← toLarge t tmp0) + (← toLarge t (← smallMax t)))
  let average ← toMedium t (sum >>> t.smallBits)
  return { e with average := average }

/-- One `calc` after the other. -/
def calcs (e : Ema t) (inputs : List (Medium t)) : Ema t := inputs.foldl (fun e input => (e.calc input.val).val) e

/-! ### The statement -/

/-- A value between the least and the greatest one of a list. -/
def Between (values : List (Medium t)) (n : Int) : Prop := (∃ x ∈ values, x.val ≤ n) ∧ ∃ x ∈ values, n ≤ x.val

/-- No conversion wraps, the new average is between the values so far, and it is the old one if that is the input. -/
structure Settles (e : Ema t) (input : Medium t) (values : List (Medium t)) : Prop where
  kept : (e.calc input.val).kept = true
  between : Between values (e.calc input.val).val.average
  unchanged : input.val = e.average → (e.calc input.val).val.average = e.average

/-- So does every `calc` of a sequence. -/
def StaysWithin (start : Medium t) (alpha : Fin (2 ^ t.smallBits)) (inputs : List (Medium t)) : Prop :=
  ∀ before input after, inputs = before ++ input :: after →
    Settles (calcs ⟨start.val, alpha⟩ before) input (start :: (before ++ [input]))

/-- The input is not the average, and with no weight on it the average is not the greatest value yet. -/
structure Moves (e : Ema t) (input : Medium t) (values : List (Medium t)) : Prop where
  ne_average : input.val ≠ e.average
  weight : e.alpha.val = 0 → ∃ x ∈ values, e.average < x.val

/-! ### Conversions -/

variable {isSigned : Bool} {bits : Nat} {n : Int}

theorem store_of_lt (hlo : least isSigned bits ≤ n) (hhi : n < bound isSigned bits) : store isSigned bits n = pure n := by
  unfold store
  unfold least at hlo
  unfold bound at hhi
  cases isSigned with
  | true => exact Checked.signed_of_lt hlo hhi
  | false =>
    have hlo : 0 ≤ n := hlo
    rw [if_neg Bool.false_ne_true, Checked.unsigned_of_lt hlo hhi, Checked.pure_bind_eq, Int.toNat_of_nonneg hlo]

theorem store_kept_of_not (h : bound isSigned bits ≤ n) : (store isSigned bits n).kept = false := by
  unfold store
  unfold bound at h
  cases isSigned with
  | true => exact Checked.signed_kept_of_not fun hfits => absurd hfits.2 (Int.not_lt.mpr h)
  | false => exact Checked.bind_kept_of_not (Checked.unsigned_kept_of_not fun hfits => absurd hfits.2 (Int.not_lt.mpr h))

/-- Whatever is converted, the result is a value of the type. -/
theorem store_val (hbits : 0 < bits) (n : Int) :
    least isSigned bits ≤ (store isSigned bits n).val ∧ (store isSigned bits n).val < bound isSigned bits := by
  have hpos : (0 : Int) < 2 ^ bits := by positivity
  have hlo := Int.emod_nonneg n hpos.ne'
  have hhi := Int.emod_lt_of_pos n hpos
  unfold store least bound
  cases isSigned with
  | true =>
    obtain ⟨w, rfl⟩ := Nat.exists_eq_succ_of_ne_zero hbits.ne'
    have hlo := Int.emod_nonneg (n + 2 ^ w) hpos.ne'
    have hhi := Int.emod_lt_of_pos (n + 2 ^ w) hpos
    show -2 ^ w ≤ (n + 2 ^ w) % 2 ^ (w + 1) - 2 ^ w ∧ (n + 2 ^ w) % 2 ^ (w + 1) - 2 ^ w < 2 ^ w
    have hpow : (2 : Int) ^ (w + 1) = 2 ^ w + 2 ^ w := by ring
    rw [hpow] at hlo hhi ⊢
    omega
  | false =>
    show 0 ≤ ((n % 2 ^ bits).toNat : Int) ∧ ((n % 2 ^ bits).toNat : Int) < 2 ^ bits
    rw [Int.toNat_of_nonneg hlo]
    exact ⟨hlo, hhi⟩

theorem Medium.toMedium_eq (x : Medium t) : toMedium t x.val = pure x.val := store_of_lt x.2.1 x.2.2

/-! ### One step -/

/-- A weighted value is between the extreme ones. -/
theorem mul_between {lo hi x a m : Int} (hlo : lo ≤ 0) (hhi : 0 ≤ hi) (hx : lo ≤ x ∧ x ≤ hi) (ha : 0 ≤ a) (ham : a ≤ m) :
    lo * m ≤ x * a ∧ x * a ≤ hi * m := by
  constructor
  · calc lo * m ≤ lo * a := Int.mul_le_mul_of_nonpos_left hlo ham
      _ ≤ x * a := Int.mul_le_mul_of_nonneg_right hx.1 ha
  · calc x * a ≤ hi * a := Int.mul_le_mul_of_nonneg_right hx.2 ha
      _ ≤ hi * m := Int.mul_le_mul_of_nonneg_left ham hhi

theorem weighted_between {lo x y a m : Int} (hi : Int) (hlo : lo ≤ 0) (hhi : 0 ≤ hi) (hx : lo ≤ x ∧ x ≤ hi) (hy : lo ≤ y ∧ y ≤ hi)
    (ha : 0 ≤ a) (ham : a ≤ m) : lo * m ≤ x * a + y * (m - a) ∧ x * a + y * (m - a) ≤ hi * m := by
  have hx := mul_between hlo hhi hx ha (Int.le_refl a)
  have hy := mul_between hlo hhi hy (Int.sub_nonneg.mpr ham) (Int.le_refl (m - a))
  have hlo : lo * m = lo * a + lo * (m - a) := by ring
  have hhi : hi * m = hi * a + hi * (m - a) := by ring
  omega

/-- Nothing wraps in the large type, and the sum is a unit above the weighted one. -/
theorem Ema.calc_eq (e : Ema t) {input : Int} (he : InRange t e.average) (hin : InRange t input) :
    e.calc input = (do
      let average ← toMedium t ((input * e.alpha + e.average * (2 ^ t.smallBits - e.alpha)) / 2 ^ t.smallBits + 1)
      return { e with average := average }) := by
  obtain ⟨average, alpha, halpha⟩ := e
  unfold InRange at he hin
  have halpha' : (alpha : Int) < 2 ^ t.smallBits := by exact_mod_cast halpha
  have h0 : (0 : Int) ≤ alpha := Int.natCast_nonneg _
  have hmax : smallMax t = pure (2 ^ t.smallBits) := by
    refine store_of_lt ?_ ?_ <;> cases t <;> decide
  have hlarge : ∀ n, least t.isSigned t.mediumBits * 2 ^ t.smallBits ≤ n → n ≤ bound t.isSigned t.mediumBits * 2 ^ t.smallBits →
      toLarge t n = pure n := by
    intro n hlo hhi
    refine store_of_lt (Int.le_trans ?_ hlo) (Int.lt_of_le_of_lt hhi ?_) <;> cases t <;> decide
  obtain ⟨hlo, hhi, hunit⟩ : least t.isSigned t.mediumBits ≤ 0 ∧ 2 ^ t.smallBits ≤ bound t.isSigned t.mediumBits ∧
      (1 : Int) ≤ 2 ^ t.smallBits := by cases t <;> decide
  unfold Ema.calc
  rw [hmax]
  simp only [Int.shiftRight_eq_div_pow, Nat.cast_pow, Nat.cast_ofNat]
  generalize (2 : Int) ^ t.smallBits = m at *
  generalize least t.isSigned t.mediumBits = lo at *
  generalize bound t.isSigned t.mediumBits = hi at *
  have hlower : lo * m ≤ lo := by nlinarith
  have hupper : hi ≤ hi * m := by nlinarith
  have he : lo ≤ average ∧ average < hi := he
  have hproduct := mul_between hlo (by omega) ⟨hin.1, Int.le_of_lt hin.2⟩ h0 (Int.le_of_lt halpha')
  have hrest := mul_between (a := m - alpha) (m := m) hlo (by omega) ⟨he.1, Int.le_of_lt he.2⟩ (by omega) (by omega)
  have hsum := weighted_between (x := input) (y := average) (hi - 1) hlo (by omega) ⟨hin.1, by omega⟩ ⟨he.1, by omega⟩ h0
    (Int.le_of_lt halpha')
  rw [Int.sub_mul, Int.one_mul] at hsum
  rw [hlarge input (by omega) (by omega), Checked.pure_bind_eq, hlarge alpha (by omega) (by omega), Checked.pure_bind_eq,
    hlarge _ hproduct.1 hproduct.2, Checked.pure_bind_eq, hlarge average (by omega) (by omega), Checked.pure_bind_eq,
    Checked.pure_bind_eq, hlarge (m - alpha) (by omega) (by omega), Checked.pure_bind_eq, hlarge _ hrest.1 hrest.2,
    Checked.pure_bind_eq, hlarge _ hsum.1 (by omega), Checked.pure_bind_eq, hlarge _ hsum.1 (by omega), Checked.pure_bind_eq,
    Checked.pure_bind_eq, hlarge m (by omega) (by omega), Checked.pure_bind_eq, hlarge _ (by omega) (by omega),
    Checked.pure_bind_eq, Int.add_ediv_of_dvd_right (Int.dvd_refl m), Int.ediv_self (by omega)]

/-- With the new value in the medium type, the `calc` does not wrap. -/
theorem Ema.calc_of_lt {e : Ema t} {input : Int} {n : Int}
    (hn : (input * e.alpha + e.average * (2 ^ t.smallBits - e.alpha)) / 2 ^ t.smallBits + 1 = n)
    (he : InRange t e.average) (hin : InRange t input)
    (hlo : least t.isSigned t.mediumBits ≤ n) (hhi : n < bound t.isSigned t.mediumBits) :
    e.calc input = pure { e with average := n } := by
  rw [Ema.calc_eq e he hin, hn, toMedium, store_of_lt hlo hhi, Checked.pure_bind_eq]

/-- An input away from the average draws it nearer, by at most the distance. -/
theorem weighted_div {x y a m : Int} (ha : 0 ≤ a) (ham : a < m) :
    (x < y → 0 < a → x ≤ (x * a + y * (m - a)) / m ∧ (x * a + y * (m - a)) / m < y) ∧
    (y < x → y ≤ (x * a + y * (m - a)) / m ∧ (x * a + y * (m - a)) / m < x) ∧
    (a = 0 ∨ x = y → (x * a + y * (m - a)) / m = y) := by
  have hm : 0 < m := by omega
  refine ⟨fun hxy hpos => ⟨?_, ?_⟩, fun hyx => ⟨?_, ?_⟩, fun h => ?_⟩
  · rw [Int.le_ediv_iff_mul_le hm]
    nlinarith
  · rw [Int.ediv_lt_iff_lt_mul hm]
    nlinarith
  · rw [Int.le_ediv_iff_mul_le hm]
    nlinarith
  · rw [Int.ediv_lt_iff_lt_mul hm]
    nlinarith
  · rcases h with rfl | rfl
    · rw [Int.mul_zero, Int.zero_add, Int.sub_zero, Int.mul_ediv_cancel _ hm.ne']
    · rw [← Int.mul_add, add_sub_cancel, Int.mul_ediv_cancel _ hm.ne']

/-! ### The values so far -/

variable {e : Ema t} {input : Medium t} {old values : List (Medium t)}

theorem inRange_calc (e : Ema t) (input : Int) : InRange t (e.calc input).val.average :=
  store_val (by cases t <;> decide) _

theorem calcs_append_singleton (e : Ema t) (before : List (Medium t)) (input : Medium t) :
    calcs e (before ++ [input]) = ((calcs e before).calc input.val).val := by
  unfold calcs
  rw [List.foldl_append]
  rfl

theorem inRange_calcs (start : Medium t) (alpha : Fin (2 ^ t.smallBits)) (before : List (Medium t)) :
    InRange t (calcs ⟨start.val, alpha⟩ before).average := by
  induction before using List.reverseRecOn with
  | nil => exact start.2
  | append_singleton before input _ =>
    rw [calcs_append_singleton]
    exact inRange_calc _ _

theorem Between.mono {n : Int} (h : Between old n) (hsub : old ⊆ values) : Between values n := by
  obtain ⟨⟨x, hx, hle⟩, y, hy, hge⟩ := h
  exact ⟨⟨x, hsub hx, hle⟩, y, hsub hy, hge⟩

/-- The unit that is added shows if the weighted sum is the old average. -/
theorem average_of_settles (he : InRange t e.average) (h : Settles e input values) (hsame : e.alpha.val = 0 ∨ input.val = e.average) :
    (e.calc input.val).val.average = e.average + 1 := by
  have halpha : (e.alpha : Int) < 2 ^ t.smallBits := by exact_mod_cast e.alpha.isLt
  have hdiv := (weighted_div (x := input.val) (y := e.average) (Int.natCast_nonneg e.alpha.val) halpha).2.2
    (hsame.imp_left fun h => by rw [h]; rfl)
  have hkept := h.kept
  by_cases hfits : e.average + 1 < bound t.isSigned t.mediumBits
  · rw [Ema.calc_of_lt (by rw [hdiv]) he input.2 (Int.le_trans he.1 (by omega)) hfits]
    rfl
  · rw [Ema.calc_eq e he input.2, hdiv, toMedium, Checked.bind_kept_of_not (store_kept_of_not (Int.not_lt.mp hfits))] at hkept
    exact absurd hkept Bool.false_ne_true

theorem moves_of_settles (he : InRange t e.average) (h : Settles e input values) : Moves e input values where
  ne_average heq := by
    have hnew := average_of_settles he h (Or.inr heq)
    have hold := h.unchanged heq
    omega
  weight h0 := by
    obtain ⟨x, hx, hge⟩ := h.between.2
    rw [average_of_settles he h (Or.inl h0)] at hge
    exact ⟨x, hx, by omega⟩

theorem settles_of_moves (he : InRange t e.average) (hold : Between old e.average) (hsub : old ⊆ values) (hin : input ∈ values)
    (h : Moves e input values) : Settles e input values := by
  have halpha : (e.alpha : Int) < 2 ^ t.smallBits := by exact_mod_cast e.alpha.isLt
  obtain ⟨hbelow, habove, hsame⟩ := weighted_div (x := input.val) (y := e.average) (Int.natCast_nonneg e.alpha.val) halpha
  obtain ⟨⟨x, hx, hle⟩, y, hy, hge⟩ := hold.mono hsub
  -- the new average is between two of the values
  have hbetween : ∀ n, (input.val * e.alpha + e.average * (2 ^ t.smallBits - e.alpha)) / 2 ^ t.smallBits + 1 = n →
      Between values n → Settles e input values := by
    rintro n hn ⟨⟨x, hx, hle⟩, y, hy, hge⟩
    have hcalc := Ema.calc_of_lt hn he input.2 (Int.le_trans x.2.1 hle) (Int.lt_of_le_of_lt hge y.2.2)
    refine ⟨?_, ?_, fun heq => absurd heq h.ne_average⟩
    · rw [hcalc]
      rfl
    · rw [hcalc]
      exact ⟨⟨x, hx, hle⟩, y, hy, hge⟩
  rcases lt_trichotomy input.val e.average with hlt | heq | hgt
  · rcases Nat.eq_zero_or_pos e.alpha.val with h0 | hpos
    · obtain ⟨z, hz, hgreater⟩ := h.weight h0
      exact hbetween (e.average + 1) (by rw [hsame (Or.inl (by rw [h0]; rfl))]) ⟨⟨x, hx, by omega⟩, z, hz, by omega⟩
    · obtain ⟨hlo, hhi⟩ := hbelow hlt (by exact_mod_cast hpos)
      exact hbetween _ rfl ⟨⟨input, hin, by omega⟩, y, hy, by omega⟩
  · exact absurd heq h.ne_average
  · obtain ⟨hlo, hhi⟩ := habove hgt
    exact hbetween _ rfl ⟨⟨x, hx, by omega⟩, input, hin, by omega⟩

/-- While the average moves it is between the values. -/
theorem between_calcs (start : Medium t) (alpha : Fin (2 ^ t.smallBits)) {inputs : List (Medium t)}
    (h : ∀ before input after, inputs = before ++ input :: after →
      Moves (calcs ⟨start.val, alpha⟩ before) input (start :: (before ++ [input]))) (before after : List (Medium t))
    (heq : inputs = before ++ after) : Between (start :: before) (calcs ⟨start.val, alpha⟩ before).average := by
  induction before using List.reverseRecOn generalizing after with
  | nil => exact ⟨⟨start, List.mem_cons_self, Int.le_refl _⟩, start, List.mem_cons_self, Int.le_refl _⟩
  | append_singleton before input ih =>
    rw [List.append_assoc] at heq
    have hsettles := settles_of_moves (inRange_calcs start alpha before) (ih (input :: after) heq)
      (by simp) (by simp) (h before input after heq)
    rw [calcs_append_singleton]
    exact hsettles.between

/-- The average stays within its inputs as long as it moves. -/
theorem staysWithin_iff (t : Instance) (start : Medium t) (alpha : Fin (2 ^ t.smallBits)) (inputs : List (Medium t)) :
    StaysWithin start alpha inputs ↔ ∀ before input after, inputs = before ++ input :: after →
      Moves (calcs ⟨start.val, alpha⟩ before) input (start :: (before ++ [input])) := by
  constructor
  · intro h before input after heq
    exact moves_of_settles (inRange_calcs start alpha before) (h before input after heq)
  · intro h before input after heq
    exact settles_of_moves (inRange_calcs start alpha before) (between_calcs start alpha h before (input :: after) heq)
      (by simp) (by simp) (h before input after heq)

/-- A filter that starts with the largest value and gets it as its input jumps to the least one. -/
theorem not_staysWithin : ¬ ∀ (t : Instance) (start : Medium t) (alpha : Fin (2 ^ t.smallBits)) (inputs : List (Medium t)),
    StaysWithin start alpha inputs := by
  intro h
  have hsettles := h .i16 ⟨32767, by decide⟩ ⟨128, by decide⟩ [⟨32767, by decide⟩] [] ⟨32767, by decide⟩ [] rfl
  exact absurd (hsettles.unchanged rfl) (by decide)

end Dsp

end CoActionOS
