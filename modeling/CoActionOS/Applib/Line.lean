import CoActionOS.Applib.Lcd
import Mathlib.Data.List.Range
import Mathlib.Tactic.Ring
import Mathlib.Tactic.Linarith

/-!
# Lines

A sloped line is drawn along its longer axis; the other coordinate is computed anew from the start point in every step.  Lines
along an axis are left to `sethline` and `setvline`.

`drawn_iff` says which lines are drawn between their end points.
-/

namespace CoActionOS

namespace Lcd

/-! ### The code -/

def absValue (x : Int) : Int := if x < 0 then x * -1 else x

/-- Either loop: the first coordinate goes from `a` to `a2`, the second one follows. -/
def follow (a1 b1 a2 rise run da db : Int) (fuel : Nat) (a b : Int) : Option (List Pixel) :=
  if a = a2 then some []
  else
    match fuel with
    | 0 => none
    | fuel + 1 =>
      (follow a1 b1 a2 rise run da db fuel (a + da) (((a + da - a1) * rise + (db * run).tdiv 2).tdiv run + b1)).map
        ((a, b) :: ·)

/-- `setline`; the loops take as many rounds as there are columns or rows between the points. -/
def setline (d : Lcd) (x1 y1 x2 y2 : Int) : Option (List Pixel) :=
  if y2 = y1 then some (d.sethline (if x1 < x2 then x1 else x2) y1 (absValue (x2 - x1)))
  else if x2 = x1 then some (setvline x2 (if y1 > y2 then y1 else y2) (absValue (y2 - y1)))
  else
    let dy := if y2 > y1 then 1 else -1
    let dx := if x2 > x1 then 1 else -1
    let adx := absValue (x2 - x1)
    let ady := absValue (y2 - y1)
    let rise := y2 - y1
    let run := x2 - x1
    if adx > ady then
      (follow x1 y1 x2 rise run dx dy adx.toNat x1 y1).map fun pixels => pixels ++ [(x2, y2)]
    else
      (follow y1 x1 y2 run rise dy dx ady.toNat y1 x1).map fun pixels => pixels.map Prod.swap ++ [(x2, y2)]

/-! ### The statement -/

/-- One of the eight neighbours, or the pixel itself. -/
def Adjacent (p q : Pixel) : Prop := |q.1 - p.1| ≤ 1 ∧ |q.2 - p.2| ≤ 1

/-- A line between two points; the deviation is measured along the minor axis, and twice it is compared with a whole pixel. -/
structure Line (p q : Pixel) (pixels : List Pixel) : Prop where
  ends : p ∈ pixels ∧ q ∈ pixels
  inside : ∀ r ∈ pixels, (min p.1 q.1 ≤ r.1 ∧ r.1 ≤ max p.1 q.1) ∧ min p.2 q.2 ≤ r.2 ∧ r.2 ≤ max p.2 q.2
  path : ∃ path : List Pixel, path.head? = some p ∧ path.getLast? = some q ∧ path.IsChain Adjacent ∧
    ∀ r, r ∈ path ↔ r ∈ pixels
  near : ∀ r ∈ pixels, 2 * |(r.2 - p.2) * (q.1 - p.1) - (r.1 - p.1) * (q.2 - p.2)| ≤ max |q.1 - p.1| |q.2 - p.2|

/-- The line is drawn, and if it is horizontal or vertical the other way round sets the same pixels. -/
def Drawn (d : Lcd) (p q : Pixel) : Prop :=
  ∃ pixels, setline d p.1 p.2 q.1 q.2 = some pixels ∧ Line p q pixels ∧
    (p.1 = q.1 ∨ p.2 = q.2 → ∃ back, setline d q.1 q.2 p.1 p.2 = some back ∧ ∀ r, r ∈ back ↔ r ∈ pixels)

/-! ### Sloped lines -/

/-- How far the second coordinate is after `j` of `n` columns, of `m` rows in all. -/
def offset (n m j : Nat) : Nat := (j * m + n / 2) / n

variable {n m j k : Nat} {a b da db : Int}

theorem offset_zero (hn : 0 < n) (m : Nat) : offset n m 0 = 0 := by
  unfold offset
  rw [Nat.zero_mul, Nat.zero_add]
  exact Nat.div_eq_of_lt (Nat.div_lt_self hn (by decide))

theorem offset_last (hn : 0 < n) (m : Nat) : offset n m n = m := by
  unfold offset
  rw [Nat.add_comm, Nat.add_mul_div_left _ _ hn, Nat.div_eq_of_lt (Nat.div_lt_self hn (by decide)), Nat.zero_add]

/-- The other axis is the longer one, so at most one row is passed. -/
theorem offset_succ (hn : 0 < n) (hm : m ≤ n) (j : Nat) : offset n m j ≤ offset n m (j + 1) ∧ offset n m (j + 1) ≤ offset n m j + 1 := by
  unfold offset
  rw [Nat.add_mul, Nat.one_mul]
  refine ⟨Nat.div_le_div_right (by omega), ?_⟩
  rw [← Nat.add_div_right _ hn]
  exact Nat.div_le_div_right (by omega)

theorem offset_le (hn : 0 < n) (hj : j ≤ n) : offset n m j ≤ m := by
  calc offset n m j ≤ offset n m n := Nat.div_le_div_right (Nat.add_le_add_right (Nat.mul_le_mul_right m hj) _)
    _ = m := offset_last hn m

/-- Rounded to the nearest row. -/
theorem offset_near (hn : 0 < n) (m j : Nat) : 2 * (offset n m j * n) ≤ 2 * (j * m) + n ∧ 2 * (j * m) ≤ 2 * (offset n m j * n) + n := by
  have hdiv := Nat.div_add_mod (j * m + n / 2) n
  have hmod := Nat.mod_lt (j * m + n / 2) hn
  unfold offset
  rw [Nat.mul_comm] at hdiv
  omega

/-- The pixel in column `j`. -/
def slope (a b da db : Int) (n m j : Nat) : Pixel := (a + da * j, b + db * offset n m j)

theorem slope_zero (hn : 0 < n) (a b da db : Int) (m : Nat) : slope a b da db n m 0 = (a, b) := by
  unfold slope
  rw [offset_zero hn]
  simp

theorem slope_last (hn : 0 < n) (a b da db : Int) (m : Nat) : slope a b da db n m n = (a + da * n, b + db * m) := by
  unfold slope
  rw [offset_last hn]

theorem sign_mul_tdiv {s : Int} (hs : s = 1 ∨ s = -1) (x y : Int) : (s * x).tdiv y = s * x.tdiv y := by
  rcases hs with rfl | rfl
  · rw [Int.one_mul, Int.one_mul]
  · rw [Int.neg_one_mul, Int.neg_one_mul, Int.neg_tdiv]

theorem tdiv_sign_mul {s : Int} (hs : s = 1 ∨ s = -1) (x y : Int) : x.tdiv (s * y) = s * x.tdiv y := by
  rcases hs with rfl | rfl
  · rw [Int.one_mul, Int.one_mul]
  · rw [Int.neg_one_mul, Int.neg_one_mul, Int.tdiv_neg]

theorem abs_sign_mul {s : Int} (hs : s = 1 ∨ s = -1) (x : Int) : |s * x| = |x| := by
  rcases hs with rfl | rfl
  · rw [Int.one_mul]
  · rw [Int.neg_one_mul, abs_neg]

/-- Signed division rounds the same way in all octants. -/
theorem tdiv_slope (hda : da = 1 ∨ da = -1) (hdb : db = 1 ∨ db = -1) (n m k : Nat) :
    (da * k * (db * m) + (db * (da * n)).tdiv 2).tdiv (da * n) = db * offset n m k := by
  have hsquare : da * da = 1 := by rcases hda with rfl | rfl <;> rfl
  have hhalf : (db * (da * n)).tdiv 2 = db * (da * (n / 2 : Nat)) := by
    rw [sign_mul_tdiv hdb, sign_mul_tdiv hda]
    rfl
  have hsum : da * k * (db * m) + db * (da * (n / 2 : Nat)) = da * (db * (k * m + n / 2 : Nat)) := by
    push_cast
    ring
  have hdiv : ((k * m + n / 2 : Nat) : Int).tdiv n = (offset n m k : Int) := rfl
  rw [hhalf, hsum, tdiv_sign_mul hda, sign_mul_tdiv hda, sign_mul_tdiv hdb, hdiv, ← Int.mul_assoc, hsquare, Int.one_mul]

/-- The loop sets the pixels of the columns from `k` on, up to the last but one. -/
theorem follow_eq (hn : 0 < n) (m : Nat) (hda : da = 1 ∨ da = -1) (hdb : db = 1 ∨ db = -1) (a1 b1 : Int) (rest : Nat) :
    ∀ k, k + rest = n → follow a1 b1 (a1 + da * n) (db * m) (da * n) da db rest (slope a1 b1 da db n m k).1
      (slope a1 b1 da db n m k).2 = some ((List.range' k rest).map (slope a1 b1 da db n m)) := by
  induction rest with
  | zero =>
    intro k hk
    rw [Nat.add_zero] at hk
    subst hk
    unfold follow
    exact if_pos rfl
  | succ rest ih =>
    intro k hk
    have hne : (slope a1 b1 da db n m k).1 ≠ a1 + da * n := by
      show a1 + da * k ≠ a1 + da * n
      rcases hda with rfl | rfl <;> omega
    have hnext : (slope a1 b1 da db n m k).1 + da = (slope a1 b1 da db n m (k + 1)).1 := by
      show a1 + da * k + da = a1 + da * (k + 1 : Nat)
      push_cast
      ring
    have hrow : ((slope a1 b1 da db n m (k + 1)).1 - a1) * (db * m) = da * (k + 1 : Nat) * (db * m) := by
      show (a1 + da * (k + 1 : Nat) - a1) * (db * m) = _
      rw [add_sub_cancel_left]
    unfold follow
    rw [if_neg hne]
    dsimp only
    rw [hnext, hrow, tdiv_slope hda hdb, Int.add_comm (db * _) b1, List.range'_succ, List.map_cons]
    exact congrArg (Option.map _) (ih (k + 1) (by omega))

/-! ### Lines in general -/

theorem Line.swap {p q : Pixel} {pixels : List Pixel} (h : Line p q pixels) : Line p.swap q.swap (pixels.map Prod.swap) := by
  have hmem : ∀ {l : List Pixel} {r : Pixel}, r ∈ l.map Prod.swap ↔ r.swap ∈ l := by
    intro l r
    rw [List.mem_map]
    exact ⟨by rintro ⟨r, hr, rfl⟩; exact hr, fun hr => ⟨r.swap, hr, Prod.swap_swap r⟩⟩
  refine ⟨⟨hmem.mpr h.ends.1, hmem.mpr h.ends.2⟩, fun r hr => (h.inside _ (hmem.mp hr)).symm, ?_, fun r hr => ?_⟩
  · obtain ⟨path, hhead, hlast, hchain, hpath⟩ := h.path
    refine ⟨path.map Prod.swap, ?_, ?_, ?_, fun r => ?_⟩
    · rw [List.head?_map, hhead]
      rfl
    · rw [List.getLast?_map, hlast]
      rfl
    · rw [List.isChain_map]
      exact hchain.imp fun _ _ hadjacent => hadjacent.symm
    · rw [hmem, hmem]
      exact hpath r.swap
  · have hnear := h.near _ (hmem.mp hr)
    rw [abs_sub_comm, max_comm] at hnear
    exact hnear

/-- The pixels of all columns are a line. -/
theorem line_slope (hn : 0 < n) (hm : m ≤ n) (hda : da = 1 ∨ da = -1) (hdb : db = 1 ∨ db = -1) (a b : Int) :
    Line (a, b) (a + da * n, b + db * m) ((List.range (n + 1)).map (slope a b da db n m)) := by
  refine ⟨⟨?_, ?_⟩, fun r hr => ?_, ⟨_, ?_, ?_, ?_, fun _ => Iff.rfl⟩, fun r hr => ?_⟩
  · exact List.mem_map.mpr ⟨0, List.mem_range.mpr (by omega), slope_zero hn a b da db m⟩
  · exact List.mem_map.mpr ⟨n, List.mem_range.mpr (by omega), slope_last hn a b da db m⟩
  · obtain ⟨j, hj, rfl⟩ := List.mem_map.mp hr
    have hj := Nat.le_of_lt_succ (List.mem_range.mp hj)
    have hoffset := offset_le (m := m) hn hj
    unfold slope
    dsimp only
    rcases hda with rfl | rfl <;> rcases hdb with rfl | rfl <;> omega
  · rw [List.head?_map, List.head?_range, if_neg (by omega)]
    exact congrArg some (slope_zero hn a b da db m)
  · rw [List.range_succ, List.map_append, List.map_singleton, List.getLast?_append_of_ne_nil _ (by simp), slope_last hn]
    rfl
  · rw [List.isChain_map, List.isChain_range_succ]
    intro j _
    obtain ⟨hle, hge⟩ : offset n m j ≤ offset n m j.succ ∧ offset n m j.succ ≤ offset n m j + 1 := offset_succ hn hm j
    unfold Adjacent slope
    dsimp only
    rw [abs_le, abs_le]
    rcases hda with rfl | rfl <;> rcases hdb with rfl | rfl <;> omega
  · obtain ⟨j, hj, rfl⟩ := List.mem_map.mp hr
    obtain ⟨hle, hge⟩ := offset_near hn m j
    have hcross : ((slope a b da db n m j).2 - b) * (a + da * n - a) - ((slope a b da db n m j).1 - a) * (b + db * m - b) =
        da * (db * ((offset n m j * n : Nat) - (j * m : Nat))) := by
      unfold slope
      push_cast
      ring
    have hrun : |a + da * n - a| = n := by
      rw [add_sub_cancel_left, abs_sign_mul hda]
      exact abs_of_nonneg (Int.natCast_nonneg n)
    refine Int.le_trans ?_ (le_max_left _ _)
    dsimp only
    rw [hcross, hrun, abs_sign_mul hda, abs_sign_mul hdb]
    have habs : |((offset n m j * n : Nat) : Int) - (j * m : Nat)| ≤ n / 2 := abs_le.mpr (by omega)
    omega

/-- Only the set of pixels counts. -/
theorem Line.congr {p q : Pixel} {pixels pixels' : List Pixel} (h : Line p q pixels) (hmem : ∀ r, r ∈ pixels ↔ r ∈ pixels') :
    Line p q pixels' where
  ends := h.ends.imp (hmem p).mp (hmem q).mp
  inside r hr := h.inside r ((hmem r).mpr hr)
  path := by
    obtain ⟨path, hhead, hlast, hchain, hpath⟩ := h.path
    exact ⟨path, hhead, hlast, hchain, fun r => (hpath r).trans (hmem r)⟩
  near r hr := h.near r ((hmem r).mpr hr)

theorem line_singleton (p : Pixel) : Line p p [p] where
  ends := ⟨List.mem_singleton_self p, List.mem_singleton_self p⟩
  inside r hr := by
    rw [List.mem_singleton.mp hr, min_self, max_self, min_self, max_self]
    exact ⟨⟨Int.le_refl _, Int.le_refl _⟩, Int.le_refl _, Int.le_refl _⟩
  path := ⟨[p], rfl, rfl, List.isChain_singleton p, fun _ => Iff.rfl⟩
  near r hr := by
    rw [List.mem_singleton.mp hr, sub_self, sub_self]
    simp

/-! ### The three cases -/

/-- The signs and the distances that are computed from the points. -/
theorem exists_steps {a b : Int} (h : b ≠ a) : ∃ (s : Int) (n : Nat), (s = 1 ∨ s = -1) ∧ 0 < n ∧
    (if b > a then (1 : Int) else -1) = s ∧ absValue (b - a) = n ∧ b - a = s * n ∧ b = a + s * n := by
  unfold absValue
  rcases Int.lt_or_gt_of_ne h with hlt | hgt
  · refine ⟨-1, (a - b).toNat, Or.inr rfl, by omega, if_neg (by omega), ?_, by omega, by omega⟩
    rw [if_pos (by omega)]
    omega
  · refine ⟨1, (b - a).toNat, Or.inl rfl, by omega, if_pos hgt, ?_, by omega, by omega⟩
    rw [if_neg (by omega)]
    omega

theorem follow_start (hn : 0 < n) (m : Nat) (hda : da = 1 ∨ da = -1) (hdb : db = 1 ∨ db = -1) (a b : Int) :
    (follow a b (a + da * n) (db * m) (da * n) da db n a b).map (· ++ [(a + da * n, b + db * m)]) =
      some ((List.range (n + 1)).map (slope a b da db n m)) := by
  have hloop := follow_eq hn m hda hdb a b n 0 (Nat.zero_add n)
  rw [slope_zero hn] at hloop
  rw [hloop, Option.map_some, List.range_succ, List.map_append, List.map_singleton, slope_last hn, List.range_eq_range']

/-- A sloped line is always drawn. -/
theorem setline_of_sloped (d : Lcd) {x1 y1 x2 y2 : Int} (hx : x2 ≠ x1) (hy : y2 ≠ y1) :
    ∃ pixels, setline d x1 y1 x2 y2 = some pixels ∧ Line (x1, y1) (x2, y2) pixels := by
  obtain ⟨dx, adx, hdx, hadx, hsignx, habsx, hrun, heqx⟩ := exists_steps hx
  obtain ⟨dy, ady, hdy, hady, hsigny, habsy, hrise, heqy⟩ := exists_steps hy
  unfold setline
  rw [if_neg hy, if_neg hx]
  dsimp only
  rw [hsignx, hsigny, habsx, habsy, hrun, hrise, heqx, heqy]
  split_ifs with hshallow
  · exact ⟨_, follow_start hadx ady hdx hdy x1 y1, line_slope hadx (by omega) hdx hdy x1 y1⟩
  · -- the rows take the part of the columns
    have hline := (line_slope hady (by omega : adx ≤ ady) hdy hdx y1 x1).swap
    refine ⟨_, ?_, hline⟩
    have hloop := congrArg (Option.map (List.map Prod.swap)) (follow_start hady adx hdy hdx y1 x1)
    rw [Option.map_map, Option.map_some] at hloop
    rw [← hloop]
    congr 1
    funext pixels
    simp

variable {d : Lcd}

theorem mem_level (hn : 0 < n) (hda : da = 1 ∨ da = -1) {r : Pixel} : r ∈ (List.range (n + 1)).map (slope a b da 1 n 0) ↔
    (min a (a + da * n) ≤ r.1 ∧ r.1 ≤ max a (a + da * n)) ∧ r.2 = b := by
  have hoffset : ∀ j, offset n 0 j = 0 := fun j => by
    unfold offset
    rw [Nat.mul_zero, Nat.zero_add]
    exact Nat.div_eq_of_lt (Nat.div_lt_self hn (by decide))
  obtain ⟨rx, ry⟩ := r
  simp only [List.mem_map, List.mem_range, slope, hoffset, Prod.mk.injEq]
  constructor
  · rintro ⟨j, hj, rfl, rfl⟩
    rcases hda with rfl | rfl <;> omega
  · rintro ⟨hrx, rfl⟩
    refine ⟨(rx - a).natAbs, ?_, ?_, by omega⟩ <;> rcases hda with rfl | rfl <;> omega

/-- The span that is set for a line on a row. -/
def level (d : Lcd) (p q : d.Point) : List Pixel :=
  d.sethline (if (p.1.val : Int) < q.1.val then p.1.val else q.1.val) p.2.val (absValue (q.1.val - p.1.val))

/-- It is in row `|x2 - x1|` and ends in column `y1`. -/
theorem mem_level_iff (p q : d.Point) (r : Pixel) : r ∈ level d p q ↔
    ((max p.1.val q.1.val : Nat) : Int) - (min p.1.val q.1.val : Nat) < d.height ∧
      (((min p.1.val q.1.val : Nat) : Int) ≤ r.1 ∧ r.1 ≤ min (p.2.val : Int) (d.width - 1)) ∧
      r.2 = (max p.1.val q.1.val : Nat) - (min p.1.val q.1.val : Nat) := by
  have hp := p.1.isLt
  have hq := q.1.isLt
  have hmin : (if (p.1.val : Int) < q.1.val then (p.1.val : Int) else q.1.val) = (min p.1.val q.1.val : Nat) := by
    split_ifs <;> omega
  have habs : absValue ((q.1.val : Int) - p.1.val) = (max p.1.val q.1.val : Nat) - (min p.1.val q.1.val : Nat) := by
    unfold absValue
    split_ifs <;> omega
  unfold level
  rw [mem_sethline, hmin, habs, boundx_of_lt (by omega) (by omega), boundx_eq d (by omega)]
  omega

theorem line_level_iff (p q : d.Point) (hy : p.2 = q.2) :
    Line p.pixel q.pixel (level d p q) ↔ min p.1.val q.1.val = 0 ∧ max p.1.val q.1.val = p.2.val := by
  have hp := p.1.isLt
  have hq := q.1.isLt
  have hrow := p.2.isLt
  constructor
  · intro h
    obtain ⟨hpmem, hqmem⟩ := h.ends
    obtain ⟨-, ⟨-, hplast⟩, hprow⟩ := (mem_level_iff p q _).mp hpmem
    obtain ⟨hheight, ⟨-, hqlast⟩, -⟩ := (mem_level_iff p q _).mp hqmem
    -- the last pixel of the span is inside too
    have hlast := (h.inside (min (p.2.val : Int) (d.width - 1), (max p.1.val q.1.val : Nat) - (min p.1.val q.1.val : Nat))
      ((mem_level_iff p q _).mpr ⟨hheight, ⟨by simp only [Point.pixel] at *; omega, Int.le_refl _⟩, rfl⟩)).1.2
    simp only [Point.pixel] at *
    omega
  · rintro ⟨hfirst, hlast⟩
    have hmem : ∀ r, ((min (p.1.val : Int) q.1.val ≤ r.1 ∧ r.1 ≤ max (p.1.val : Int) q.1.val) ∧ r.2 = (p.2.val : Int)) ↔ r ∈ level d p q := by
      intro r
      rw [mem_level_iff]
      omega
    by_cases hx : q.1 = p.1
    · obtain rfl : p = q := Prod.ext hx.symm hy
      refine (line_singleton p.pixel).congr fun r => ?_
      rw [← hmem, List.mem_singleton, Prod.ext_iff]
      simp only [Point.pixel]
      omega
    · obtain ⟨s, n, hs, hn, -, -, -, heq⟩ := exists_steps (fun h => hx (Fin.ext (by omega)) : (q.1.val : Int) ≠ p.1.val)
      have hline := line_slope (m := 0) hn (Nat.zero_le n) hs (Or.inl rfl) p.1.val p.2.val
      rw [← heq] at hline
      have hend : ((q.1.val : Int), (p.2.val : Int) + 1 * (0 : Nat)) = q.pixel := by
        rw [hy]
        simp [Point.pixel]
      rw [hend] at hline
      refine hline.congr fun r => ?_
      rw [← hmem, mem_level hn hs, ← heq]

theorem setline_of_level (p q : d.Point) (hy : p.2 = q.2) :
    setline d p.1.val p.2.val q.1.val q.2.val = some (level d p q) := by
  unfold setline
  rw [if_pos (by rw [hy])]
  rfl

/-- Both directions set the same span. -/
theorem mem_level_comm (p q : d.Point) (hy : p.2 = q.2) (r : Pixel) : r ∈ level d q p ↔ r ∈ level d p q := by
  rw [mem_level_iff, mem_level_iff, hy, Nat.max_comm, Nat.min_comm]

/-- The first row of a vertical line is above the ones that are set. -/
theorem not_line_upright (p q : d.Point) (hx : p.1 = q.1) (hy : p.2 ≠ q.2) {pixels : List Pixel}
    (h : setline d p.1.val p.2.val q.1.val q.2.val = some pixels) : ¬ Line p.pixel q.pixel pixels := by
  have hne : p.2.val ≠ q.2.val := fun heq => hy (Fin.ext heq)
  unfold setline at h
  rw [if_neg (by omega), if_pos (by rw [hx])] at h
  obtain rfl := Option.some.inj h
  intro hline
  have hp := (mem_setvline.mp hline.ends.1).2.1
  have hq := (mem_setvline.mp hline.ends.2).2.1
  simp only [Point.pixel] at hp hq
  split_ifs at hp hq <;> omega

/-- A line is drawn if it is sloped, and on the row whose number is the last column if it starts with the first one. -/
theorem drawn_iff (d : Lcd) (p q : d.Point) : Drawn d p.pixel q.pixel ↔
    (p.1 ≠ q.1 ∧ p.2 ≠ q.2) ∨ (p.2 = q.2 ∧ min p.1.val q.1.val = 0 ∧ max p.1.val q.1.val = p.2.val) := by
  by_cases hy : p.2 = q.2
  · have hlevel := line_level_iff p q hy
    constructor
    · rintro ⟨pixels, heq, hline, -⟩
      obtain rfl := Option.some.inj ((setline_of_level p q hy).symm.trans heq)
      exact Or.inr ⟨hy, hlevel.mp hline⟩
    · rintro (⟨-, hne⟩ | ⟨-, h⟩)
      · exact absurd hy hne
      · exact ⟨_, setline_of_level p q hy, hlevel.mpr h, fun _ => ⟨_, setline_of_level q p hy.symm, mem_level_comm p q hy⟩⟩
  · by_cases hx : p.1 = q.1
    · constructor
      · rintro ⟨pixels, heq, hline, -⟩
        exact absurd hline (not_line_upright p q hx hy heq)
      · rintro (⟨hne, -⟩ | ⟨heq, -⟩)
        · exact absurd hx hne
        · exact absurd heq hy
    · refine iff_of_true ?_ (Or.inl ⟨hx, hy⟩)
      have hxne : (q.1.val : Int) ≠ p.1.val := fun heq => hx (Fin.ext (by omega))
      have hyne : (q.2.val : Int) ≠ p.2.val := fun heq => hy (Fin.ext (by omega))
      obtain ⟨pixels, heq, hline⟩ := setline_of_sloped d hxne hyne
      refine ⟨pixels, heq, hline, ?_⟩
      rintro (h | h)
      · exact absurd h.symm hxne
      · exact absurd h.symm hyne

/-- The line from the pixel in the corner to the one above it sets the latter alone. -/
theorem not_drawn : ¬ ∀ (d : Lcd) (p q : d.Point), Drawn d p.pixel q.pixel := by
  intro h
  obtain ⟨pixels, heq, hline, -⟩ := h ⟨1, 2⟩ (⟨0, by decide⟩, ⟨0, by decide⟩) (⟨0, by decide⟩, ⟨1, by decide⟩)
  obtain rfl := Option.some.inj ((by decide : setline ⟨1, 2⟩ 0 0 0 1 = some [(0, 1)]).symm.trans heq)
  exact absurd hline.ends.1 (by decide)

end Lcd

end CoActionOS
