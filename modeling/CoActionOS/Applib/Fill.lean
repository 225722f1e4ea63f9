import Mathlib.Data.Finite.Prod
import Mathlib.Logic.Function.Basic
import Mathlib.Logic.Relation
import CoActionOS.Applib.Lcd
import CoActionOS.Lib.Sweep

/-!
# Filling an area

A call fills the run of clear pixels that it is given.  It goes on with one run above and one below: those of the leftmost clear
pixels.  Other gaps are passed over, so is one in the last column, and the rows are held against the width.

`fills_iff` says when the whole area is filled.
-/

namespace CoActionOS

namespace Lcd

/-- The point is on the display. -/
def Inside (d : Lcd) (p : Pixel) : Prop := (0 ≤ p.1 ∧ p.1 < d.width) ∧ 0 ≤ p.2 ∧ p.2 < d.height

instance (d : Lcd) (p : Pixel) : Decidable (d.Inside p) := inferInstanceAs (Decidable (_ ∧ _))

/-- The local memory.  A pixel is tested as set where there is none, and is not changed there. -/
structure Screen (d : Lcd) where
  pixel : Pixel → Bool
  outside : ∀ p, ¬ d.Inside p → pixel p = true

/-! ### The code -/

/-- An argument that is passed as `unsigned int` -/
def unsigned (x : Int) : Int := x % 2 ^ 32

/-- An argument that is passed as `int` -/
def int (x : Int) : Int := x.bmod (2 ^ 32)

namespace Screen

variable {d : Lcd} (s : Screen d)

/-- `tstpixel` and `tstpixel_bounded` -/
def tstpixel (x y : Int) : Bool := s.pixel (unsigned x, unsigned y)

/-- `setpixel_bounded` -/
def setpixel (p : Pixel) : Screen d where
  pixel := Function.update s.pixel (unsigned p.1, unsigned p.2) true
  outside q hq := by
    by_cases h : q = (unsigned p.1, unsigned p.2)
    · rw [h, Function.update_self]
    · rw [Function.update_of_ne h, s.outside q hq]

/-- `tsthline`, with `pos` where it returns false -/
def tsthline (xmin xmax y : Int) : Option Int :=
  if !d.yvisible y then none
  else (upTo (d.boundx xmin) (d.boundx xmax - 1)).find? fun i => !s.tstpixel i y

/-- A loop of `tsthedge`; `none` when it needs more rounds. -/
def seek (step y : Int) : Nat → Int → Option Int
  | 0, _ => none
  | rounds + 1, i => if s.tstpixel i y = false then seek step y rounds (i + step) else some i

/-- `tsthedge` -/
def tsthedge (rounds : Nat) (x y : Int) : Option (Int × Int) :=
  match s.seek (-1) y rounds x, s.seek 1 y rounds x with
  | some min, some max => some (min + 1, max)
  | _, _ => none

end Screen

/-- `setfill`; `none` when it needs more rounds. -/
def setfill {d : Lcd} : Nat → Screen d → Int → Int → Option (Screen d)
  | 0, _, _, _ => none
  | rounds + 1, s, x, y =>
    if !d.xvisible (int y) then some s
    else do
      let (xmin, xmax) ← s.tsthedge rounds (int x) (int y)
      let above := s.tsthline xmin xmax (int (unsigned (y + 1)))
      let below := s.tsthline xmin xmax (int (unsigned (y - 1)))
      let s := (d.sethline xmin xmax (int y)).foldl Screen.setpixel s
      let s ← above.elim (some s) fun xabove => setfill rounds s (unsigned xabove) (unsigned (y + 1))
      below.elim (some s) fun xbelow => setfill rounds s (unsigned xbelow) (unsigned (y - 1))

/-! ### The statement -/

/-- Two clear pixels side by side or one above the other. -/
def Screen.Adjacent {d : Lcd} (s : Screen d) (p q : Pixel) : Prop :=
  (s.pixel p = false ∧ s.pixel q = false) ∧
    (p.2 = q.2 ∧ (q.1 = p.1 + 1 ∨ q.1 = p.1 - 1) ∨ p.1 = q.1 ∧ (q.2 = p.2 + 1 ∨ q.2 = p.2 - 1))

/-- The clear pixels that are 4-connected to `p`, when it is one. -/
def Screen.Connected {d : Lcd} (s : Screen d) : Pixel → Pixel → Prop := Relation.ReflTransGen s.Adjacent

/-- The call comes to an end and leaves `t`. -/
def Returns {d : Lcd} (s : Screen d) (p : Pixel) (t : Screen d) : Prop := ∃ n, ∀ rounds ≥ n, setfill rounds s p.1 p.2 = some t

/-- The fill ends, and has set the pixels of the region and no others. -/
def FillsRegion {d : Lcd} (s : Screen d) (p : Pixel) : Prop :=
  ∃ t, Returns s p t ∧ ∀ q, t.pixel q = true ↔ s.pixel q = true ∨ s.Connected p q

/-- The clear pixels of a row between two that are set. -/
structure Run {d : Lcd} (s : Screen d) where
  y : Int
  a : Int
  b : Int
  lt : a < b
  clear : ∀ i, a ≤ i → i < b → s.pixel (i, y) = false
  left : s.pixel (a - 1, y) = true
  right : s.pixel (b, y) = true

namespace Run

variable {d : Lcd} {s : Screen d}

instance : Membership Pixel (Run s) where
  mem r p := p.2 = r.y ∧ r.a ≤ p.1 ∧ p.1 < r.b

/-- A run in the row above or below that has a pixel next to one of `r`. -/
def Touches (r : Run s) (step : Int) (r' : Run s) : Prop := r'.y = r.y + step ∧ ∃ i, (i, r.y) ∈ r ∧ (i, r'.y) ∈ r'

/-- One that can be seen from `r`: not in the last column, and in a row less than the width. -/
def Seen (r : Run s) (step : Int) (r' : Run s) : Prop :=
  r'.y = r.y + step ∧ r'.y < d.width ∧ ∃ i : Int, i ≠ d.width - 1 ∧ (i, r.y) ∈ r ∧ (i, r'.y) ∈ r'

/-- The leftmost run that can be seen and is not yet filled. -/
def Leftmost (step : Int) (V : Set (Run s)) (r r' : Run s) : Prop :=
  (r.Seen step r' ∧ r' ∉ V) ∧ ∀ r'', r.Seen step r'' → r'' ∉ V → r'.a ≤ r''.a

end Run

/-- The search from the run of `p`, which follows the leftmost run above each run and the leftmost one below, reaches the whole
region. -/
def Covers {d : Lcd} (s : Screen d) (p : Pixel) : Prop :=
  p.2 < d.width ∧ ∃ (r : Run s) (V : Set (Run s)), p ∈ r ∧ Sweep (Run.Leftmost 1) (Run.Leftmost (-1)) ∅ (some r) V ∧
    ∀ q, s.Connected p q → ∃ r' ∈ V, q ∈ r'

/-! ### Runs -/

namespace Run

variable {d : Lcd} {s : Screen d} {r r' r'' : Run s} {p q : Pixel} {step : Int} {V : Set (Run s)}

theorem mem_mk {i y : Int} : (i, y) ∈ r ↔ y = r.y ∧ r.a ≤ i ∧ i < r.b := Iff.rfl

theorem first_mem (r : Run s) : (r.a, r.y) ∈ r := ⟨rfl, le_refl _, r.lt⟩

theorem pixel_of_mem (h : p ∈ r) : s.pixel p = false := by
  obtain ⟨hy, ha, hb⟩ := h
  have hclear := r.clear p.1 ha hb
  rw [← hy] at hclear
  exact hclear

theorem inside_of_clear (h : s.pixel p = false) : d.Inside p := by
  by_contra hout
  rw [s.outside p hout] at h
  exact Bool.noConfusion h

/-- A run that has a pixel of another one does not begin to the right of it. -/
theorem bounds_le (h : p ∈ r) (h' : p ∈ r') : r.a ≤ r'.a ∧ r'.b ≤ r.b := by
  obtain ⟨hy, ha, hb⟩ := h
  obtain ⟨hy', ha', hb'⟩ := h'
  constructor
  · by_contra hlt
    have hclear := r'.clear (r.a - 1) (by omega) (by omega)
    rw [← hy', hy, r.left] at hclear
    exact Bool.noConfusion hclear
  · by_contra hlt
    have hclear := r'.clear r.b (by omega) (by omega)
    rw [← hy', hy, r.right] at hclear
    exact Bool.noConfusion hclear

theorem eq_of_mem (h : p ∈ r) (h' : p ∈ r') : r = r' := by
  have hle := bounds_le h h'
  have hge := bounds_le h' h
  have hy : r.y = r'.y := h.1.symm.trans h'.1
  have ha : r.a = r'.a := by omega
  have hb : r.b = r'.b := by omega
  cases r
  cases r'
  simp only [Run.mk.injEq]
  exact ⟨hy, ha, hb⟩

/-- Where a run ends on its way to the border of the display. -/
theorem exists_edge (s : Screen d) (p : Pixel) (step : Int) (hstep : step = 1 ∨ step = -1) :
    ∃ n : Nat, s.pixel (p.1 + step * n, p.2) = true ∧ ∀ k < n, s.pixel (p.1 + step * k, p.2) = false := by
  classical
  have hex : ∃ n : Nat, s.pixel (p.1 + step * n, p.2) = true := by
    refine ⟨p.1.natAbs + 256, s.outside _ fun hin => ?_⟩
    have hwidth := d.width.isLt
    have := hin.1
    dsimp only at this
    rcases hstep with rfl | rfl <;> omega
  exact ⟨Nat.find hex, Nat.find_spec hex, fun k hk => Bool.eq_false_iff.mpr (Nat.find_min hex hk)⟩

theorem exists_run (h : s.pixel p = false) : ∃ r : Run s, p ∈ r := by
  obtain ⟨m, hm, hbefore⟩ := exists_edge s p (-1) (.inr rfl)
  obtain ⟨n, hn, hafter⟩ := exists_edge s p 1 (.inl rfl)
  have hm0 : m ≠ 0 := by
    rintro rfl
    have hstart : p.1 + -1 * ((0 : Nat) : Int) = p.1 := by omega
    rw [hstart] at hm
    exact Bool.noConfusion (h.symm.trans hm)
  have hn0 : n ≠ 0 := by
    rintro rfl
    have hstart : p.1 + 1 * ((0 : Nat) : Int) = p.1 := by omega
    rw [hstart] at hn
    exact Bool.noConfusion (h.symm.trans hn)
  have hclear (i : Int) (hlow : p.1 - m + 1 ≤ i) (hhigh : i < p.1 + n) : s.pixel (i, p.2) = false := by
    rcases Int.le_total i p.1 with hle | hle
    · have hi : p.1 + -1 * ((p.1 - i).toNat : Int) = i := by omega
      rw [← hi]
      exact hbefore (p.1 - i).toNat (by omega)
    · have hi : p.1 + 1 * ((i - p.1).toNat : Int) = i := by omega
      rw [← hi]
      exact hafter (i - p.1).toNat (by omega)
  have hleft : s.pixel (p.1 - m + 1 - 1, p.2) = true := by
    have hi : p.1 - m + 1 - 1 = p.1 + -1 * m := by omega
    rw [hi]
    exact hm
  have hright : s.pixel (p.1 + n, p.2) = true := by
    have hi : p.1 + n = p.1 + 1 * n := by omega
    rw [hi]
    exact hn
  exact ⟨⟨p.2, p.1 - m + 1, p.1 + n, by omega, hclear, hleft, hright⟩, rfl, by dsimp only; omega, by dsimp only; omega⟩

/-- A run is within the display. -/
theorem bounds (r : Run s) :
    (0 ≤ r.a ∧ r.a < r.b ∧ r.b ≤ d.width ∧ (d.width : Int) < 256) ∧ 0 ≤ r.y ∧ r.y < d.height ∧ (d.height : Int) < 256 := by
  have hlt := r.lt
  obtain ⟨⟨ha, -⟩, hy, hheight⟩ := inside_of_clear (r.clear r.a (by omega) hlt)
  obtain ⟨⟨-, hb⟩, -⟩ := inside_of_clear (r.clear (r.b - 1) (by omega) (by omega))
  dsimp only at hb
  exact ⟨⟨ha, hlt, by omega, by omega⟩, hy, hheight, by omega⟩

theorem leftmost_unique (h : Leftmost step V r r') (h' : Leftmost step V r r'') : r' = r'' := by
  have hle := h.2 r'' h'.1.1 h'.1.2
  have hge := h'.2 r' h.1.1 h.1.2
  have hy : r'.y = r''.y := h.1.1.1.trans h'.1.1.1.symm
  have hlt := r'.lt
  have hlt' := r''.lt
  exact eq_of_mem r'.first_mem (mem_mk.mpr ⟨hy, by omega, by omega⟩)

instance : Finite (Run s) := by
  have hinjective : Function.Injective fun r : Run s =>
      ((⟨r.a.toNat, by have := r.bounds; omega⟩ : Fin 256), (⟨r.y.toNat, by have := r.bounds; omega⟩ : Fin 256)) := by
    intro r r' h
    simp only [Prod.mk.injEq, Fin.mk.injEq] at h
    have hbounds := r.bounds
    have hbounds' := r'.bounds
    exact eq_of_mem r.first_mem (mem_mk.mpr ⟨by omega, by omega, by omega⟩)
  exact Finite.of_injective _ hinjective

end Run

/-! ### The calls on a display -/

theorem int_unsigned {y : Int} (h : -1 ≤ y ∧ y ≤ 256) : int (unsigned y) = y := by
  unfold int unsigned Int.bmod
  dsimp only
  split_ifs <;> omega

theorem int_eq {y : Int} (h : -1 ≤ y ∧ y ≤ 256) : int y = y := by
  unfold int Int.bmod
  dsimp only
  split_ifs <;> omega

theorem unsigned_eq {x : Int} (h : 0 ≤ x ∧ x ≤ 256) : unsigned x = x := by
  unfold unsigned
  omega

namespace Screen

variable {d : Lcd} {s t : Screen d} {x y i step : Int}

theorem ext (h : ∀ q, s.pixel q = true ↔ t.pixel q = true) : s = t := by
  cases s
  cases t
  simp only [Screen.mk.injEq]
  exact funext fun q => Bool.eq_iff_iff.mpr (h q)

/-- The neighbours of a display are outside after the conversion too. -/
theorem tstpixel_eq (s : Screen d) (hx : -1 ≤ x ∧ x ≤ 256) (hy : -1 ≤ y ∧ y ≤ 256) : s.tstpixel x y = s.pixel (x, y) := by
  unfold tstpixel
  by_cases hpos : 0 ≤ x ∧ 0 ≤ y
  · rw [unsigned_eq ⟨hpos.1, hx.2⟩, unsigned_eq ⟨hpos.2, hy.2⟩]
  · have hwidth := d.width.isLt
    have hheight := d.height.isLt
    rw [s.outside (x, y) (fun hin => hpos ⟨hin.1.1, hin.2.1⟩), s.outside _ fun hin => ?_]
    have h1 := hin.1.2
    have h2 := hin.2.2
    dsimp only [unsigned] at h1 h2
    omega

theorem seek_eq {n rounds : Nat} (hclear : ∀ k < n, s.tstpixel (i + step * k) y = false)
    (hset : s.tstpixel (i + step * n) y = true) (h : n < rounds) : s.seek step y rounds i = some (i + step * n) := by
  induction n generalizing i rounds with
  | zero =>
    obtain ⟨rounds, rfl⟩ := Nat.exists_eq_add_one.mpr (show 0 < rounds by omega)
    have hi : i + step * ((0 : Nat) : Int) = i := by
      rw [Int.natCast_zero, Int.mul_zero, Int.add_zero]
    rw [hi] at hset ⊢
    unfold seek
    rw [if_neg (by rw [hset]; exact Bool.noConfusion)]
  | succ n ih =>
    obtain ⟨rounds, rfl⟩ := Nat.exists_eq_add_one.mpr (show 0 < rounds by omega)
    have hnext (k : Nat) : i + step * ((k + 1 : Nat) : Int) = i + step + step * k := by
      rw [Int.natCast_add, Int.mul_add, Int.add_assoc, Int.add_comm (step * k)]
      rw [Int.natCast_one, Int.mul_one]
    have hnow := hclear 0 (Nat.succ_pos n)
    have hi : i + step * ((0 : Nat) : Int) = i := by
      rw [Int.natCast_zero, Int.mul_zero, Int.add_zero]
    rw [hi] at hnow
    unfold seek
    rw [if_pos hnow, hnext]
    refine ih (fun k hk => ?_) ?_ (by omega)
    · rw [← hnext]
      exact hclear (k + 1) (by omega)
    · rw [← hnext]
      exact hset

theorem setpixel_pixel {p q : Pixel} :
    (s.setpixel p).pixel q = true ↔ s.pixel q = true ∨ q = (unsigned p.1, unsigned p.2) := by
  unfold setpixel
  dsimp only
  by_cases h : q = (unsigned p.1, unsigned p.2)
  · rw [h, Function.update_self]
    simp
  · rw [Function.update_of_ne h]
    simp [h]

theorem foldl_setpixel {l : List Pixel} {q : Pixel} :
    (l.foldl setpixel s).pixel q = true ↔ s.pixel q = true ∨ ∃ p ∈ l, q = (unsigned p.1, unsigned p.2) := by
  induction l generalizing s with
  | nil => simp
  | cons p l ih =>
    rw [List.foldl_cons, ih, setpixel_pixel, or_assoc]
    simp only [List.mem_cons, exists_eq_or_imp]

/-- The runs of `V` are filled. -/
noncomputable def filled (s : Screen d) (V : Set (Run s)) : Screen d where
  pixel p := open Classical in s.pixel p || decide (∃ r ∈ V, p ∈ r)
  outside p hp := by rw [s.outside p hp, Bool.true_or]

variable {V : Set (Run s)} {r : Run s} {p q : Pixel}

theorem filled_pixel : (s.filled V).pixel q = true ↔ s.pixel q = true ∨ ∃ r ∈ V, q ∈ r := by
  simp [filled]

theorem filled_empty (s : Screen d) : s.filled ∅ = s := ext fun q => by simp [filled_pixel]

theorem filled_of_mem (h : p ∈ r) : (s.filled V).pixel p = true ↔ r ∈ V := by
  rw [filled_pixel, Run.pixel_of_mem h]
  constructor
  · rintro (hset | ⟨r', hr', hp⟩)
    · exact absurd hset Bool.false_ne_true
    · rwa [Run.eq_of_mem h hp]
  · exact fun hr => .inr ⟨r, hr, h⟩

/-- The line of a run fills the run; the pixel behind it is set or is on the last column. -/
theorem foldl_sethline (r : Run s) (V : Set (Run s)) :
    (d.sethline r.a r.b r.y).foldl setpixel (s.filled V) = s.filled (insert r V) := by
  obtain ⟨⟨ha, hlt, hb, hwidth⟩, hy, hheight, hheight'⟩ := r.bounds
  have ha' := d.boundx_eq ha
  have hb' := d.boundx_eq (Int.le_of_lt (Int.lt_of_le_of_lt ha hlt))
  refine ext fun q => ?_
  rw [foldl_setpixel, filled_pixel, filled_pixel, or_assoc]
  constructor
  · rintro (hset | ⟨r', hr', hq⟩ | ⟨p, hp, rfl⟩)
    · exact .inl hset
    · exact .inr ⟨r', Set.mem_insert_of_mem _ hr', hq⟩
    · obtain ⟨-, ⟨hlow, hhigh⟩, hpy⟩ := mem_sethline.mp hp
      rw [unsigned_eq (by omega), unsigned_eq (by omega)]
      rcases Int.lt_or_le p.1 r.b with hin | hout
      · exact .inr ⟨r, Set.mem_insert _ _, hpy, by dsimp only; omega, hin⟩
      · have hend : p.1 = r.b := by omega
        rw [hend, hpy]
        exact .inl r.right
  · rintro (hset | ⟨r', hr', hq⟩)
    · exact .inl hset
    · rcases Set.mem_insert_iff.mp hr' with rfl | hr'
      · obtain ⟨hqy, hqa, hqb⟩ := hq
        refine .inr (.inr ⟨q, mem_sethline.mpr ⟨⟨hy, hheight⟩, ⟨by omega, by omega⟩, hqy⟩, ?_⟩)
        rw [unsigned_eq (by omega), unsigned_eq (by omega)]
      · exact .inr (.inl ⟨r', hr', hq⟩)

theorem tsthedge_eq (h : p ∈ r) (hr : r ∉ V) {rounds : Nat} (hrounds : 256 < rounds) :
    (s.filled V).tsthedge rounds p.1 p.2 = some (r.a, r.b) := by
  obtain ⟨⟨ha, hlt, hb, hwidth⟩, hy, hheight, hheight'⟩ := r.bounds
  obtain ⟨hpy, hpa, hpb⟩ := h
  have hclear (i : Int) (hi : r.a ≤ i ∧ i < r.b) : (s.filled V).tstpixel i p.2 = false := by
    rw [tstpixel_eq _ (by omega) (by omega)]
    have hmem : (i, p.2) ∈ r := ⟨hpy, hi.1, hi.2⟩
    exact Bool.eq_false_iff.mpr (mt (filled_of_mem hmem).mp hr)
  have hset (i : Int) (hi : -1 ≤ i ∧ i ≤ 256) (hs : s.pixel (i, p.2) = true) : (s.filled V).tstpixel i p.2 = true := by
    rw [tstpixel_eq _ hi (by omega), filled_pixel]
    exact .inl hs
  have hleft : (s.filled V).seek (-1) p.2 rounds p.1 = some (r.a - 1) := by
    have hi : p.1 + -1 * ((p.1 - (r.a - 1)).toNat : Int) = r.a - 1 := by omega
    rw [← hi]
    refine seek_eq (fun k hk => hclear _ (by omega)) ?_ (by omega)
    rw [hi]
    exact hset _ (by omega) (hpy ▸ r.left)
  have hright : (s.filled V).seek 1 p.2 rounds p.1 = some r.b := by
    have hi : p.1 + 1 * ((r.b - p.1).toNat : Int) = r.b := by omega
    rw [← hi]
    refine seek_eq (fun k hk => hclear _ (by omega)) ?_ (by omega)
    rw [hi]
    exact hset _ (by omega) (hpy ▸ r.right)
  unfold tsthedge
  rw [hleft, hright]
  simp

theorem find?_upTo {a b i : Int} {f : Int → Bool} (h : (upTo a b).find? f = some i) :
    f i = true ∧ (a ≤ i ∧ i ≤ b) ∧ ∀ j, a ≤ j → j < i → f j = false := by
  have hmem := mem_upTo.mp (List.mem_of_find?_eq_some h)
  refine ⟨List.find?_some h, hmem, fun j hj hlt => ?_⟩
  unfold upTo at h
  rw [List.find?_map, Option.map_eq_some_iff] at h
  obtain ⟨k, hk, rfl⟩ := h
  have hbefore := (List.find?_range_eq_some.mp hk).2.2 (j - a).toNat (by omega)
  have hj : a + ((j - a).toNat : Int) = j := by omega
  rwa [Function.comp_apply, hj, Bool.not_eq_true'] at hbefore

/-- What is found next to a run is a pixel of the leftmost run that is seen and not filled. -/
theorem tsthline_spec (r : Run s) (V : Set (Run s)) (step : Int) :
    ((s.filled V).tsthline r.a r.b (r.y + step) = none ∧ ∀ r', r.Seen step r' → r' ∈ V) ∨
      ∃ (i : Int) (r' : Run s), (s.filled V).tsthline r.a r.b (r.y + step) = some i ∧ (i, r'.y) ∈ r' ∧ r'.y = r.y + step ∧
        (r'.y < d.width → Run.Leftmost step V r r') := by
  obtain ⟨⟨ha, hlt, hb, hwidth⟩, hy, hheight, hheight'⟩ := r.bounds
  have ha' := d.boundx_eq ha
  have hb' := d.boundx_eq (Int.le_of_lt (Int.lt_of_le_of_lt ha hlt))
  by_cases hvisible : d.yvisible (r.y + step) = true
  · have hline : (s.filled V).tsthline r.a r.b (r.y + step) =
        (upTo (d.boundx r.a) (d.boundx r.b - 1)).find? fun i => !(s.filled V).tstpixel i (r.y + step) := by
      unfold tsthline
      rw [hvisible, Bool.not_true, if_neg Bool.false_ne_true]
    have htst (i : Int) (hi : 0 ≤ i ∧ i < d.width) :
        (s.filled V).tstpixel i (r.y + step) = (s.filled V).pixel (i, r.y + step) := by
      have := yvisible_iff.mp hvisible
      exact tstpixel_eq _ (by omega) (by omega)
    -- a pixel by which a run is seen is tested
    have htested (r' : Run s) (hseen : r.Seen step r') :
        ∃ j, (r.a ≤ j ∧ j ≤ d.boundx r.b - 1) ∧ (j, r.y + step) ∈ r' := by
      obtain ⟨hrow, -, j, hj, ⟨-, hja, hjb⟩, hmem⟩ := hseen
      rw [hrow] at hmem
      exact ⟨j, ⟨hja, by dsimp only at hja hjb; omega⟩, hmem⟩
    rw [hline]
    cases hfind : (upTo (d.boundx r.a) (d.boundx r.b - 1)).find? fun i => !(s.filled V).tstpixel i (r.y + step) with
    | none =>
      refine .inl ⟨rfl, fun r' hseen => ?_⟩
      obtain ⟨j, hj, hmem⟩ := htested r' hseen
      have hset := List.find?_eq_none.mp hfind j (mem_upTo.mpr (by omega))
      rw [htst j (by omega), Bool.not_eq_true', Bool.not_eq_false] at hset
      exact (filled_of_mem hmem).mp hset
    | some i =>
      obtain ⟨hclear, hi, hbefore⟩ := find?_upTo hfind
      rw [htst i (by omega), Bool.not_eq_true'] at hclear
      have hpixel : s.pixel (i, r.y + step) = false := Bool.eq_false_iff.mpr fun hset =>
        Bool.eq_false_iff.mp hclear (filled_pixel.mpr (.inl hset))
      obtain ⟨r', hmem⟩ := Run.exists_run hpixel
      have hnot : r' ∉ V := fun hr' => Bool.eq_false_iff.mp hclear ((filled_of_mem hmem).mpr hr')
      have hrow : r'.y = r.y + step := hmem.1.symm
      have hmem' := hmem
      rw [← hrow] at hmem'
      have hmemi : (i, r.y) ∈ r := Run.mem_mk.mpr ⟨rfl, by omega, by omega⟩
      refine .inr ⟨i, r', rfl, hmem', hrow, fun hlow => ⟨⟨⟨hrow, hlow, i, by omega, hmemi, hmem'⟩, hnot⟩, ?_⟩⟩
      intro r'' hseen hnot'
      obtain ⟨j, hj, hmemj⟩ := htested r'' hseen
      have hij : i ≤ j := by
        by_contra hji
        have hset := hbefore j (by omega) (by omega)
        rw [htst j (by omega), Bool.not_eq_false'] at hset
        exact hnot' ((filled_of_mem hmemj).mp hset)
      by_contra hleft
      obtain ⟨-, hai, -⟩ := Run.mem_mk.mp hmem
      obtain ⟨hyj, haj, hbj⟩ := Run.mem_mk.mp hmemj
      have heq : r'' = r' := Run.eq_of_mem (Run.mem_mk.mpr ⟨hyj, by omega, by omega⟩) hmem
      rw [heq] at hleft
      exact hleft (le_refl _)
  · have hnone : (s.filled V).tsthline r.a r.b (r.y + step) = none := by
      unfold tsthline
      rw [Bool.eq_false_iff.mpr hvisible]
      rfl
    refine .inl ⟨hnone, fun r' hseen => absurd (yvisible_iff.mpr ?_) hvisible⟩
    rw [← hseen.1]
    exact ⟨r'.bounds.2.1, r'.bounds.2.2.1⟩

end Screen

/-! ### The calls of a search -/

variable {d : Lcd} {s t t' : Screen d} {r : Run s} {V V' : Set (Run s)} {p q : Pixel} {step : Int}

theorem xvisible_iff {x : Int} : d.xvisible x = true ↔ 0 ≤ x ∧ x < d.width := by
  simp [xvisible]

/-- In a row that is not less than the width nothing is done. -/
theorem returns_of_low {x y : Int} (hy : 0 ≤ y ∧ y ≤ 256) (hlow : ¬ y < d.width) (rounds : Nat) :
    setfill (rounds + 1) s x y = some s := by
  have hvisible : d.xvisible (int y) = false := by
    rw [int_eq (by omega)]
    exact Bool.eq_false_iff.mpr fun h => hlow (xvisible_iff.mp h).2
  unfold setfill
  rw [hvisible]
  rfl

/-- What follows a test of the next row: nothing, or a call for the pixel that was found. -/
def followed (rounds : Nat) (t : Screen d) (y : Int) (pos : Option Int) : Option (Screen d) :=
  pos.elim (some t) fun x => setfill rounds t (unsigned x) (unsigned y)

theorem setfill_run (h : p ∈ r) (hr : r ∉ V) (hrow : r.y < d.width) {rounds : Nat} (hrounds : 256 < rounds) :
    setfill (rounds + 1) (s.filled V) p.1 p.2 =
      (followed rounds (s.filled (insert r V)) (r.y + 1) ((s.filled V).tsthline r.a r.b (r.y + 1))).bind fun t =>
        followed rounds t (r.y + -1) ((s.filled V).tsthline r.a r.b (r.y + -1)) := by
  obtain ⟨⟨ha, hlt, hb, hwidth⟩, hy, hheight, hheight'⟩ := r.bounds
  have hedge := Screen.tsthedge_eq h hr hrounds
  obtain ⟨hpy, hpa, hpb⟩ := h
  rw [hpy] at hedge ⊢
  have hvisible : d.xvisible r.y = true := xvisible_iff.mpr ⟨hy, hrow⟩
  have hx : int p.1 = p.1 := int_eq (by omega)
  unfold setfill
  rw [int_eq (y := r.y) (by omega), hvisible, hx, hedge, int_unsigned (by omega), int_unsigned (by omega), Int.sub_eq_add_neg]
  simp only [Bool.not_true, Bool.false_eq_true, if_false, Option.bind_eq_bind, Option.bind_some, Screen.foldl_sethline]
  rfl

/-- The search goes on with the run of the pixel that was found, if with any. -/
theorem followed_eq (t t' : Screen d) (r : Run s) (V : Set (Run s)) {o : Option (Run s)}
    (ho : ∀ u, o = some u ↔ Run.Leftmost step V r u) (hnone : o = none → t' = t)
    (hsome : ∀ u, o = some u → u.y < d.width → ∀ p ∈ u, Returns t p t') :
    ∃ n, ∀ rounds ≥ n, followed rounds t (r.y + step) ((s.filled V).tsthline r.a r.b (r.y + step)) = some t' := by
  rcases Screen.tsthline_spec r V step with ⟨hline, hall⟩ | ⟨x, r', hline, hmem, hrow, hleftmost⟩
  · have hend : o = none := Option.eq_none_iff_forall_ne_some.mpr fun u hu =>
      ((ho u).mp hu).1.2 (hall u ((ho u).mp hu).1.1)
    refine ⟨0, fun rounds _ => ?_⟩
    rw [hline, hnone hend]
    rfl
  · obtain ⟨⟨ha, hlt, hb, hwidth⟩, hy, hheight, hheight'⟩ := r'.bounds
    have hx : unsigned x = x := unsigned_eq (by have := hmem.2; dsimp only at this; omega)
    have hy' : unsigned (r.y + step) = r'.y := by rw [← hrow, unsigned_eq (by omega)]
    have hcall (rounds : Nat) : followed rounds t (r.y + step) (some x) = setfill rounds t x r'.y := by
      change setfill rounds t (unsigned x) (unsigned (r.y + step)) = setfill rounds t x r'.y
      rw [hx, hy']
    rw [hline]
    simp only [hcall]
    by_cases hlow : r'.y < d.width
    · exact hsome r' ((ho r').mpr (hleftmost hlow)) hlow _ hmem
    · have hend : o = none := Option.eq_none_iff_forall_ne_some.mpr fun u hu => by
        have hseen := ((ho u).mp hu).1.1
        exact hlow (hrow.trans hseen.1.symm ▸ hseen.2.1)
      refine ⟨1, fun rounds hrounds => ?_⟩
      obtain ⟨rounds, rfl⟩ := Nat.exists_eq_add_one.mpr (show 0 < rounds by omega)
      rw [hnone hend]
      exact returns_of_low (by omega) hlow rounds

/-- A call for a pixel of a run that is filled does nothing. -/
theorem returns_of_filled (h : p ∈ r) (hr : r ∈ V) : Returns (s.filled V) p (s.filled V) := by
  obtain ⟨⟨ha, hlt, hb, hwidth⟩, hy, hheight, hheight'⟩ := r.bounds
  have hset : (s.filled V).pixel p = true := (Screen.filled_of_mem h).mpr hr
  obtain ⟨hpy, hpa, hpb⟩ := h
  refine ⟨2, fun rounds hrounds => ?_⟩
  obtain ⟨rounds, rfl⟩ := Nat.exists_eq_add_of_le' hrounds
  by_cases hrow : p.2 < d.width
  · have hvisible : d.xvisible p.2 = true := xvisible_iff.mpr ⟨by omega, hrow⟩
    have hedge : (s.filled V).tsthedge (rounds + 1) p.1 p.2 = some (p.1 + 1, p.1) := by
      have htst : (s.filled V).tstpixel p.1 p.2 = true := (Screen.tstpixel_eq _ (by omega) (by omega)).trans hset
      unfold Screen.tsthedge Screen.seek
      simp only [htst, Bool.true_eq_false, if_false]
    have hfirst := d.boundx_eq (x := p.1 + 1) (by omega)
    have hlast := d.boundx_eq (x := p.1) (by omega)
    have hline (y : Int) : (s.filled V).tsthline (p.1 + 1) p.1 y = none := by
      unfold Screen.tsthline
      split_ifs
      · rfl
      · refine List.find?_eq_none.mpr fun i hi => ?_
        have := mem_upTo.mp hi
        omega
    -- the line is empty, or the pixel itself in the last column
    have hsame : (d.sethline (p.1 + 1) p.1 p.2).foldl Screen.setpixel (s.filled V) = s.filled V := by
      refine Screen.ext fun q => Screen.foldl_setpixel.trans (or_iff_left_of_imp ?_)
      rintro ⟨p', hp', rfl⟩
      obtain ⟨-, ⟨hlow, hhigh⟩, hpy'⟩ := mem_sethline.mp hp'
      have heq : p'.1 = p.1 := by omega
      rw [heq, hpy', unsigned_eq (by omega), unsigned_eq (by omega)]
      exact hset
    unfold setfill
    rw [int_eq (y := p.1) (by omega), int_eq (y := p.2) (by omega), hvisible, hedge]
    simp only [Bool.not_true, Bool.false_eq_true, if_false, Option.bind_eq_bind, Option.bind_some, hline, hsame]
    rfl
  · exact returns_of_low (by omega) hrow (rounds + 1)

/-- The calls fill the runs that the search reaches. -/
theorem returns_of_sweep {o : Option (Run s)} (h : Sweep (Run.Leftmost 1) (Run.Leftmost (-1)) V o V') :
    ∀ r, o = some r → r.y < d.width → ∀ p ∈ r, Returns (s.filled V) p (s.filled V') := by
  induction h with
  | none => exact fun r hr => absurd hr (by simp)
  | @reached V v hv =>
    intro r hr _ p hp
    obtain rfl := Option.some.inj hr
    exact returns_of_filled hp hv
  | @visit V V₁ V₂ v o₁ o₂ hv h₁ h₂ hs₁ hs₂ ih₁ ih₂ =>
    intro r hr hrow p hp
    obtain rfl := Option.some.inj hr
    obtain ⟨n₁, hn₁⟩ := followed_eq (s.filled (insert v V)) (s.filled V₁) v V h₁
      (fun hnone => by subst hnone; cases hs₁; rfl) ih₁
    obtain ⟨n₂, hn₂⟩ := followed_eq (s.filled V₁) (s.filled V₂) v V h₂
      (fun hnone => by subst hnone; cases hs₂; rfl) ih₂
    refine ⟨max (max n₁ n₂) 257 + 1, fun rounds hrounds => ?_⟩
    obtain ⟨rounds, rfl⟩ := Nat.exists_eq_add_one.mpr (show 0 < rounds by omega)
    rw [setfill_run hp hv hrow (by omega), hn₁ rounds (by omega)]
    exact hn₂ rounds (by omega)

/-! ### The region -/

theorem adjacent_symm (h : s.Adjacent p q) : s.Adjacent q p := by
  obtain ⟨⟨hp, hq⟩, hnear⟩ := h
  exact ⟨⟨hq, hp⟩, by omega⟩

theorem connected_symm (h : s.Connected p q) : s.Connected q p := by
  have hsymm : Std.Symm s.Adjacent := ⟨fun _ _ => adjacent_symm⟩
  exact Relation.ReflTransGen.stdSymm.symm p q h

theorem clear_of_connected (hp : s.pixel p = false) (h : s.Connected p q) : s.pixel q = false := by
  induction h with
  | refl => exact hp
  | tail _ hadjacent _ => exact hadjacent.1.2

theorem connected_right (hp : p ∈ r) (n : Nat) (hn : p.1 + n < r.b) : s.Connected p (p.1 + n, p.2) := by
  induction n with
  | zero =>
    have hstart : p.1 + ((0 : Nat) : Int) = p.1 := by omega
    rw [hstart]
    exact .refl
  | succ n ih =>
    obtain ⟨hpy, hpa, -⟩ := hp
    have hmem (k : Nat) (hk : k ≤ n + 1) : (p.1 + k, p.2) ∈ r := Run.mem_mk.mpr ⟨hpy, by omega, by omega⟩
    have hnext : p.1 + ((n + 1 : Nat) : Int) = p.1 + n + 1 := by omega
    have hclear := Run.pixel_of_mem (hmem n (by omega))
    have hclear' := Run.pixel_of_mem (hmem (n + 1) (by omega))
    exact (ih (by omega)).tail ⟨⟨hclear, hclear'⟩, .inl ⟨rfl, .inl hnext⟩⟩

/-- The pixels of a run are connected. -/
theorem connected_of_mem (hp : p ∈ r) (hq : q ∈ r) : s.Connected p q := by
  rcases Int.le_total p.1 q.1 with hle | hle
  · have hconnected := connected_right hp (q.1 - p.1).toNat (by have := hq.2; omega)
    have hend : (p.1 + ((q.1 - p.1).toNat : Int), p.2) = q := Prod.ext (by dsimp only; omega) (hp.1.trans hq.1.symm)
    rwa [hend] at hconnected
  · have hconnected := connected_right hq (p.1 - q.1).toNat (by have := hp.2; omega)
    have hend : (q.1 + ((p.1 - q.1).toNat : Int), q.2) = p := Prod.ext (by dsimp only; omega) (hq.1.trans hp.1.symm)
    rw [hend] at hconnected
    exact connected_symm hconnected

namespace Run

/-- A run above or below. -/
def Beside (r r' : Run s) : Prop := r.Touches 1 r' ∨ r.Touches (-1) r'

theorem Seen.touches {r' : Run s} (h : r.Seen step r') : r.Touches step r' := by
  obtain ⟨hrow, -, i, -, hmem⟩ := h
  exact ⟨hrow, i, hmem⟩

theorem Beside.connected {r' : Run s} (h : r.Beside r') (hp : p ∈ r) (hq : q ∈ r') : s.Connected p q := by
  have hnear : ∃ i, (i, r.y) ∈ r ∧ (i, r'.y) ∈ r' ∧ (r'.y = r.y + 1 ∨ r'.y = r.y - 1) := by
    rcases h with ⟨hrow, i, hmem, hmem'⟩ | ⟨hrow, i, hmem, hmem'⟩
    · exact ⟨i, hmem, hmem', .inl hrow⟩
    · exact ⟨i, hmem, hmem', .inr hrow⟩
  obtain ⟨i, hmem, hmem', hrow⟩ := hnear
  have hadjacent : s.Adjacent (i, r.y) (i, r'.y) := ⟨⟨pixel_of_mem hmem, pixel_of_mem hmem'⟩, .inr ⟨rfl, hrow⟩⟩
  exact ((connected_of_mem hp hmem).tail hadjacent).trans (connected_of_mem hmem' hq)

/-- A pixel next to one of a run is in it or in a run beside it. -/
theorem mem_or_beside (hp : p ∈ r) (h : s.Adjacent p q) : q ∈ r ∨ ∃ r', r.Beside r' ∧ q ∈ r' := by
  obtain ⟨r', hq⟩ := exists_run h.1.2
  obtain ⟨hpy, hpa, hpb⟩ := hp
  obtain ⟨-, ⟨hrow, hcolumn⟩ | ⟨hcolumn, hrow⟩⟩ := h
  · by_contra hnot
    rw [not_or] at hnot
    have hqy : q.2 = r.y := hrow.symm.trans hpy
    have hout : q.1 = r.a - 1 ∨ q.1 = r.b := by
      have hnotin : ¬ (r.a ≤ q.1 ∧ q.1 < r.b) := fun h => hnot.1 ⟨hqy, h⟩
      omega
    have hclear := pixel_of_mem hq
    rcases hout with hout | hout
    · have heq : q = (r.a - 1, r.y) := Prod.ext hout hqy
      rw [heq, r.left] at hclear
      exact Bool.noConfusion hclear
    · have heq : q = (r.b, r.y) := Prod.ext hout hqy
      rw [heq, r.right] at hclear
      exact Bool.noConfusion hclear
  · obtain ⟨hqy, hqa, hqb⟩ := hq
    have hmem : (p.1, r.y) ∈ r := ⟨rfl, hpa, hpb⟩
    have hmem' : (p.1, r'.y) ∈ r' := mem_mk.mpr ⟨rfl, by omega, by omega⟩
    refine .inr ⟨r', ?_, hqy, hqa, hqb⟩
    rcases hrow with hrow | hrow
    · exact .inl ⟨by omega, p.1, hmem, hmem'⟩
    · exact .inr ⟨by omega, p.1, hmem, hmem'⟩

end Run

/-- Every run that the search reaches is in the region. -/
theorem connected_of_sweep (h : Sweep (Run.Leftmost 1) (Run.Leftmost (-1)) ∅ (some r) V) (hp : p ∈ r) :
    ∀ r' ∈ V, ∀ q ∈ r', s.Connected p q := by
  intro r' hr'
  rcases h.reachable (r := Run.Beside) (fun _ _ _ hleft => .inl hleft.1.1.touches) (fun _ _ _ hleft => .inr hleft.1.1.touches)
    r' hr' with hempty | ⟨v, hv, hpath⟩
  · exact absurd hempty (Set.notMem_empty r')
  · obtain rfl := Option.some.inj hv
    clear hr'
    induction hpath with
    | refl => exact fun q hq => connected_of_mem hp hq
    | @tail u w _ hbeside ih =>
      intro q hq
      exact (ih _ u.first_mem).trans (hbeside.connected u.first_mem hq)

theorem exists_sweep (r : Run s) : ∃ V, Sweep (Run.Leftmost 1) (Run.Leftmost (-1)) ∅ (some r) V :=
  Sweep.exists_sweep (fun _ _ _ _ => Run.leftmost_unique) (fun _ _ _ _ => Run.leftmost_unique) ∅ (some r)

theorem returns_unique (h : Returns s p t) (h' : Returns s p t') : t = t' := by
  obtain ⟨n, hn⟩ := h
  obtain ⟨n', hn'⟩ := h'
  exact Option.some.inj ((hn (max n n') (le_max_left ..)).symm.trans (hn' (max n n') (le_max_right ..)))

/-- The fill of a sweep is that of the region when the sweep reaches the region. -/
theorem filled_region_iff (hp : s.pixel p = false) (hsound : ∀ r' ∈ V, ∀ q ∈ r', s.Connected p q) :
    (∀ q, (s.filled V).pixel q = true ↔ s.pixel q = true ∨ s.Connected p q) ↔
      ∀ q, s.Connected p q → ∃ r' ∈ V, q ∈ r' := by
  constructor
  · intro h q hq
    rcases Screen.filled_pixel.mp ((h q).mpr (.inr hq)) with hset | hrun
    · rw [clear_of_connected hp hq] at hset
      exact Bool.noConfusion hset
    · exact hrun
  · intro h q
    rw [Screen.filled_pixel]
    exact or_congr_right ⟨fun ⟨r', hr', hq⟩ => hsound r' hr' q hq, h q⟩

/-- Every fill ends and sets no pixel outside the region.  It sets the whole region when the search reaches it. -/
theorem fills_iff (s : Screen d) (p : {p : Pixel // s.pixel p = false}) :
    (∃ t, Returns s p t ∧ (∀ q, s.pixel q = true → t.pixel q = true) ∧
        ∀ q, t.pixel q = true → s.pixel q = true ∨ s.Connected p q) ∧
      (FillsRegion s p ↔ Covers s p) := by
  obtain ⟨p, hp⟩ := p
  obtain ⟨r, hmem⟩ := Run.exists_run hp
  by_cases hrow : p.2 < d.width
  · have hrow' : r.y < d.width := hmem.1 ▸ hrow
    obtain ⟨V, hsweep⟩ := exists_sweep r
    have hreturns := returns_of_sweep hsweep r rfl hrow' p hmem
    rw [Screen.filled_empty] at hreturns
    have hsound := connected_of_sweep hsweep hmem
    refine ⟨⟨_, hreturns, fun q hq => Screen.filled_pixel.mpr (.inl hq), fun q hq => ?_⟩, ?_, ?_⟩
    · exact (Screen.filled_pixel.mp hq).imp_right fun ⟨r', hr', hq⟩ => hsound r' hr' q hq
    · rintro ⟨t, ht, hregion⟩
      obtain rfl := returns_unique ht hreturns
      exact ⟨hrow, r, V, hmem, hsweep, (filled_region_iff hp hsound).mp hregion⟩
    · rintro ⟨-, r', V', hmem', hsweep', hall⟩
      have hreturns' := returns_of_sweep hsweep' r' rfl (hmem'.1 ▸ hrow) p hmem'
      rw [Screen.filled_empty] at hreturns'
      exact ⟨_, hreturns', (filled_region_iff hp (connected_of_sweep hsweep' hmem')).mpr hall⟩
  · have hinside := Run.inside_of_clear hp
    have hheight := d.height.isLt
    have hreturns : Returns s p s := by
      refine ⟨1, fun rounds hrounds => ?_⟩
      obtain ⟨rounds, rfl⟩ := Nat.exists_eq_add_one.mpr (show 0 < rounds by omega)
      exact returns_of_low ⟨hinside.2.1, by have := hinside.2.2; omega⟩ hrow rounds
    refine ⟨⟨s, hreturns, fun _ hq => hq, fun _ hq => .inl hq⟩, fun ⟨t, ht, hregion⟩ => ?_, fun h => absurd h.1 hrow⟩
    obtain rfl := returns_unique ht hreturns
    exact absurd ((hregion p).mpr (.inr .refl)) (Bool.eq_false_iff.mp hp)

/-- No gap is passed over in a region each of whose runs has at most one run above and one below, and is seen from it. -/
theorem covers_of_single (hp : s.pixel p = false) (hrow : p.2 < d.width)
    (hsingle : ∀ (r r' r'' : Run s) (step : Int), (∃ q ∈ r, s.Connected p q) → r.Touches step r' → r.Touches step r'' →
      r' = r'' ∧ r.Seen step r') : Covers s p := by
  obtain ⟨r, hmem⟩ := Run.exists_run hp
  obtain ⟨V, hsweep⟩ := exists_sweep r
  have hregion (v u : Run s) (hv : ∃ q ∈ v, s.Connected p q) (hbeside : v.Beside u) : ∃ q ∈ u, s.Connected p q := by
    obtain ⟨q, hq, hconnected⟩ := hv
    exact ⟨_, u.first_mem, hconnected.trans (hbeside.connected hq u.first_mem)⟩
  have hfollowed (step : Int) (V : Set (Run s)) (v u : Run s) (hv : ∃ q ∈ v, s.Connected p q) (hu : v.Touches step u)
      (hnot : u ∉ V) : Run.Leftmost step V v u := by
    refine ⟨⟨(hsingle v u u step hv hu hu).2, hnot⟩, fun u' hu' _ => ?_⟩
    rw [(hsingle v u u' step hv hu hu'.touches).1]
  have hclosed := hsweep.closed (P := fun v => ∃ q ∈ v, s.Connected p q) (fun _ _ _ hleft => .inl hleft.1.1.touches)
    (fun _ _ _ hleft => .inr hleft.1.1.touches) hregion
    (fun V v u hv hbeside hnot => hbeside.imp (fun h => hfollowed 1 V v u hv h hnot) (fun h => hfollowed (-1) V v u hv h hnot))
    (fun v hv => ⟨p, Option.some.inj hv ▸ hmem, .refl⟩)
  refine ⟨hrow, r, V, hmem, hsweep, fun q hq => ?_⟩
  induction hq with
  | refl => exact ⟨r, hsweep.mem, hmem⟩
  | tail _ hadjacent ih =>
    obtain ⟨r', hr', hmem'⟩ := ih
    rcases Run.mem_or_beside hmem' hadjacent with hsame | ⟨r'', hbeside, hmem''⟩
    · exact ⟨r', hr', hsame⟩
    · exact ⟨r'', hclosed r' hr' (Set.notMem_empty r') r'' hbeside, hmem''⟩

/-- Two gaps above the run of the start. -/
def gaps : Screen ⟨5, 2⟩ where
  pixel p := decide (p ∉ [((0 : Int), (0 : Int)), (1, 0), (2, 0), (0, 1), (2, 1)])
  outside p hp := by
    refine decide_eq_true fun hmem => hp ?_
    simp only [List.mem_cons, List.not_mem_nil, or_false] at hmem
    rcases hmem with rfl | rfl | rfl | rfl | rfl <;> decide

theorem not_fillsRegion : ¬ ∀ (d : Lcd) (s : Screen d) (p : {p : Pixel // s.pixel p = false}), FillsRegion s p := by
  intro h
  obtain ⟨t, ⟨n, hn⟩, hregion⟩ := h ⟨5, 2⟩ gaps ⟨(0, 0), by decide⟩
  have hcall := hn (n + 6) (Nat.le_add_right n 6)
  have hleft : (setfill (n + 6) gaps 0 0).map (fun t => t.pixel (2, 1)) = some false := by rfl
  rw [hcall] at hleft
  have hconnected : gaps.Connected (0, 0) (2, 1) := by
    have h1 : gaps.Adjacent (0, 0) (1, 0) := ⟨by decide, by decide⟩
    have h2 : gaps.Adjacent (1, 0) (2, 0) := ⟨by decide, by decide⟩
    have h3 : gaps.Adjacent (2, 0) (2, 1) := ⟨by decide, by decide⟩
    exact .tail (.tail (.single h1) h2) h3
  rw [Option.map_some, (hregion (2, 1)).mpr (.inr hconnected)] at hleft
  exact absurd hleft (by decide)

end Lcd

end CoActionOS
