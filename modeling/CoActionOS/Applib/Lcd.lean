import Mathlib.Data.List.Basic
import Mathlib.Data.Fin.Basic

/-!
# Monochrome displays

A drawing function is the list of the pixels it sets, in the order of the calls.
-/

namespace CoActionOS

/-- The coordinates that are given to `setpixel`. -/
abbrev Pixel := Int × Int

/-- `MLcd`; `width_var` and `height_var` are bytes. -/
structure Lcd where
  width : Fin 256
  height : Fin 256
  deriving DecidableEq

namespace Lcd

/-- The points on a display. -/
abbrev Point (d : Lcd) := Fin d.width × Fin d.height

def Point.pixel {d : Lcd} (p : d.Point) : Pixel := (p.1.val, p.2.val)

/-- `for(i=a; i <= b; i++)` -/
def upTo (a b : Int) : List Int := (List.range (b + 1 - a).toNat).map fun k : Nat => a + k

def yvisible (d : Lcd) (y : Int) : Bool := !decide (y < 0) && !decide (d.height ≤ y)

def xvisible (d : Lcd) (x : Int) : Bool := !decide (x < 0) && !decide (d.width ≤ x)

def boundx (d : Lcd) (x : Int) : Int :=
  let x := if x < 0 then 0 else x
  if d.width ≤ x then d.width - 1 else x

/-- `sethline`; what is on the row and bounded is on the display. -/
def sethline (d : Lcd) (xmin xmax y : Int) : List Pixel :=
  if !d.yvisible y then [] else (upTo (d.boundx xmin) (d.boundx xmax)).map fun i => (i, y)

def setvline (x ymin ymax : Int) : List Pixel := (upTo ymin ymax).map fun i => (x, i)

variable {d : Lcd} {a b i x y xmin xmax ymin ymax : Int} {r : Pixel}

@[simp]
theorem mem_upTo : i ∈ upTo a b ↔ a ≤ i ∧ i ≤ b := by
  unfold upTo
  rw [List.mem_map]
  constructor
  · rintro ⟨k, hk, rfl⟩
    have hk := List.mem_range.mp hk
    omega
  · intro h
    exact ⟨(i - a).toNat, List.mem_range.mpr (by omega), by omega⟩

theorem yvisible_iff : d.yvisible y = true ↔ 0 ≤ y ∧ y < d.height := by
  simp [yvisible]

theorem boundx_of_lt (h0 : 0 ≤ x) (h : x < d.width) : d.boundx x = x := by
  unfold boundx
  dsimp only
  rw [if_neg (Int.not_lt.mpr h0), if_neg (Int.not_le.mpr h)]

theorem boundx_eq (d : Lcd) (h0 : 0 ≤ x) : d.boundx x = min x (d.width - 1) := by
  unfold boundx
  dsimp only
  rw [if_neg (Int.not_lt.mpr h0)]
  split_ifs <;> omega

theorem mem_sethline : r ∈ d.sethline xmin xmax y ↔
    (0 ≤ y ∧ y < d.height) ∧ (d.boundx xmin ≤ r.1 ∧ r.1 ≤ d.boundx xmax) ∧ r.2 = y := by
  unfold sethline
  rw [← yvisible_iff]
  cases d.yvisible y with
  | false => simp
  | true =>
    obtain ⟨rx, ry⟩ := r
    simp only [Bool.not_true, Bool.false_eq_true, if_false, List.mem_map, mem_upTo, Prod.mk.injEq, true_and]
    constructor
    · rintro ⟨i, hi, rfl, rfl⟩
      exact ⟨hi, rfl⟩
    · rintro ⟨hi, rfl⟩
      exact ⟨rx, hi, rfl, rfl⟩

theorem mem_setvline : r ∈ setvline x ymin ymax ↔ r.1 = x ∧ ymin ≤ r.2 ∧ r.2 ≤ ymax := by
  obtain ⟨rx, ry⟩ := r
  simp only [setvline, List.mem_map, mem_upTo, Prod.mk.injEq]
  constructor
  · rintro ⟨i, hi, rfl, rfl⟩
    exact ⟨rfl, hi⟩
  · rintro ⟨rfl, hi⟩
    exact ⟨ry, hi, rfl, rfl⟩

end Lcd

end CoActionOS
