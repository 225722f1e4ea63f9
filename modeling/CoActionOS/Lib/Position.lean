import Mathlib.Data.List.Nodup

/-!
# Enumerating by position

An enumeration returns the entry at its position and advances the position by one, while the list of entries is edited
between two calls.  `Enumerated` is what such an enumeration keeps as long as every edit leaves the entries that stay on
their side of the position (`KeepsSide`); `Enumerated.count_eq_one` says that nothing that was there all the time is
missed or returned twice.

The list is often that of the selected ones among the places of a longer list.  The position of a place is then the
number of selected places in front of it (`List.countPBefore`), and `keepsSide_strike`, `keepsSide_add` and
`keepsSide_move` say which edits of a place keep the sides.
-/

namespace CoActionOS.Position

variable {α β : Type}

/-! ### Sides of a position -/

/-- What is in both lists is in front of position `n` in both or in neither. -/
def KeepsSide (n : Nat) (D D' : List α) : Prop := ∀ a ∈ D, a ∈ D' → (a ∈ D.take n ↔ a ∈ D'.take n)

theorem KeepsSide.refl (n : Nat) (D : List α) : KeepsSide n D D := fun _ _ _ => Iff.rfl

section

variable [DecidableEq α] {D D' returned always ever : List α} {n : Nat}

/-- The list is `D` and the position `n`; `always` is what has been in the list all the time, `ever` what has been in it
at some time. -/
structure Enumerated (D : List α) (n : Nat) (returned always ever : List α) : Prop where
  present : ∀ a ∈ always, a ∈ D
  count : ∀ a ∈ always, returned.count a = if a ∈ D.take n then 1 else 0
  known : ∀ a ∈ D, a ∈ ever
  existed : ∀ a ∈ returned, a ∈ ever

namespace Enumerated

theorem start (D : List α) : Enumerated D 0 [] D D where
  present _ := id
  count a _ := by
    rw [List.take_zero, if_neg List.not_mem_nil]
    exact List.count_nil
  known _ := id
  existed _ h := absurd h List.not_mem_nil

theorem edit (h : Enumerated D n returned always ever) (hside : KeepsSide n D D') :
    Enumerated D' n returned (always.filter (· ∈ D')) (ever ++ D') where
  present a ha := by simpa using (List.mem_filter.mp ha).2
  count a ha := by
    obtain ⟨ha, hmem⟩ := List.mem_filter.mp ha
    have hiff := hside a (h.present a ha) (by simpa using hmem)
    rw [h.count a ha]
    exact if_congr hiff rfl rfl
  known _ ha := List.mem_append_right _ ha
  existed a ha := List.mem_append_left _ (h.existed a ha)

theorem next (h : Enumerated D n returned always ever) (hD : D.Nodup) {d : α} (hd : D[n]? = some d) :
    Enumerated D (n + 1) (returned ++ [d]) always ever where
  present := h.present
  count a ha := by
    have hlt := (List.getElem?_eq_some_iff.mp hd).1
    have htake : D.take (n + 1) = D.take n ++ [d] := by
      rw [List.take_add_one, hd]
      rfl
    rw [List.count_append, h.count a ha, htake]
    by_cases hda : d = a
    · -- the one that is returned has not been in front of the position
      subst hda
      have hnot : d ∉ D.take n := by
        intro hmem
        have hnodup : (D.take n ++ [d]).Nodup := htake ▸ hD.sublist (List.take_sublist _ _)
        exact (List.nodup_append.mp hnodup).2.2 d hmem d List.mem_cons_self rfl
      rw [if_neg hnot, if_pos (List.mem_append_right _ List.mem_cons_self), List.count_singleton_self]
    · have hiff : a ∈ D.take n ++ [d] ↔ a ∈ D.take n := by
        rw [List.mem_append, List.mem_singleton]
        exact or_iff_left fun he => hda he.symm
      rw [if_congr hiff rfl rfl, List.count_singleton, if_neg (by simpa using hda : ¬(d == a) = true), Nat.add_zero]
  known := h.known
  existed a ha := by
    rcases List.mem_append.mp ha with ha | ha
    · exact h.existed a ha
    · obtain rfl := List.mem_singleton.mp ha
      exact h.known a (List.mem_of_getElem? hd)

theorem count_le_one (h : Enumerated D n returned always ever) {a : α} (ha : a ∈ always) :
    returned.count a ≤ 1 := by
  rw [h.count a ha]
  split <;> omega

/-- When the position is behind the list, everything that was there all the time has been returned once. -/
theorem count_eq_one (h : Enumerated D n returned always ever) (hend : D[n]? = none) {a : α} (ha : a ∈ always) :
    returned.count a = 1 := by
  rw [h.count a ha, List.take_of_length_le (List.getElem?_eq_none_iff.mp hend), if_pos (h.present a ha)]

end Enumerated

end

/-! ### Places and positions -/

variable {L L' : List β} {p : β → Bool} {f : β → α} {a b c : β} {i j k n : Nat}

theorem getElem?_filter_countPBefore (hk : L[k]? = some a) (ha : p a = true) :
    (L.filter p)[L.countPBefore p k]? = some a := by
  induction L generalizing k with
  | nil => exact nomatch hk
  | cons x L ih =>
    cases k with
    | zero =>
      obtain rfl := Option.some.inj hk
      rw [List.countPBefore_zero, List.filter_cons_of_pos ha, List.getElem?_cons_zero]
    | succ k =>
      rw [List.countPBefore_cons_succ]
      by_cases hx : p x = true
      · rw [if_pos hx, List.filter_cons_of_pos hx, List.getElem?_cons_succ]
        exact ih hk
      · rw [if_neg hx, List.filter_cons_of_neg hx]
        exact ih hk

theorem exists_of_getElem?_filter (hi : (L.filter p)[i]? = some a) :
    ∃ k, L[k]? = some a ∧ p a = true ∧ L.countPBefore p k = i := by
  induction L generalizing i with
  | nil => exact nomatch hi
  | cons x L ih =>
    by_cases hx : p x = true
    · rw [List.filter_cons_of_pos hx] at hi
      cases i with
      | zero =>
        obtain rfl := Option.some.inj hi
        exact ⟨0, rfl, hx, List.countPBefore_zero⟩
      | succ i =>
        obtain ⟨k, hk, ha, hcount⟩ := ih hi
        exact ⟨k + 1, hk, ha, by rw [List.countPBefore_cons_succ, if_pos hx, hcount]⟩
    · rw [List.filter_cons_of_neg hx] at hi
      obtain ⟨k, hk, ha, hcount⟩ := ih hi
      exact ⟨k + 1, hk, ha, by rw [List.countPBefore_cons_succ, if_neg hx, hcount]⟩

theorem countPBefore_succ (hk : L[k]? = some a) :
    L.countPBefore p (k + 1) = if p a = true then L.countPBefore p k + 1 else L.countPBefore p k := by
  rw [List.countPBefore_eq_countP_take, List.countPBefore_eq_countP_take, List.take_add_one, hk, List.countP_append]
  by_cases ha : p a = true <;> simp [ha]

theorem countPBefore_lt (hk : L[k]? = some a) (ha : p a = true) (hkj : k < j) :
    L.countPBefore p k < L.countPBefore p j := by
  have hsucc := countPBefore_succ (p := p) hk
  rw [if_pos ha] at hsucc
  have hmono : L.countPBefore p (k + 1) ≤ L.countPBefore p j := List.countPBefore_mono hkj
  omega

theorem countPBefore_lt_length (hk : L[k]? = some a) (ha : p a = true) :
    L.countPBefore p k < (L.filter p).length :=
  (List.getElem?_eq_some_iff.mp (getElem?_filter_countPBefore hk ha)).1

/-- Lists whose selected places are the same have the same numbers of them in front of a place. -/
theorem countPBefore_congr {γ : Type} {M : List γ} {q : γ → Bool} (h : ∀ i : Nat, L[i]?.any p = M[i]?.any q) :
    L.countPBefore p k = M.countPBefore q k := by
  induction k generalizing L M with
  | zero => rw [List.countPBefore_zero, List.countPBefore_zero]
  | succ k ih =>
    have hstep : ∀ {δ : Type} (r : δ → Bool) (M : List δ),
        M.countPBefore r (k + 1) = M.tail.countPBefore r k + if M[0]?.any r = true then 1 else 0 := by
      intro δ r M
      cases M with
      | nil => rfl
      | cons x M =>
        rw [List.countPBefore_cons_succ]
        by_cases hx : r x = true <;> simp [hx]
    rw [hstep, hstep, h 0]
    congr 1
    apply ih
    intro i
    rw [List.getElem?_tail, List.getElem?_tail]
    exact h (i + 1)

/-- Another entry at a place in front adds to the count or takes from it. -/
theorem countPBefore_set (hk : L[k]? = some a) (b : β) (j : Nat) :
    (L.set k b).countPBefore p j + (if k < j ∧ p a = true then 1 else 0) =
      L.countPBefore p j + if k < j ∧ p b = true then 1 else 0 := by
  rw [List.countPBefore_eq_countP_take, List.countPBefore_eq_countP_take, List.take_set]
  by_cases hkj : k < j
  · have hlt := (List.getElem?_eq_some_iff.mp hk).1
    have hlt' : k < (L.take j).length := by
      rw [List.length_take]
      omega
    have hget : (L.take j)[k] = a := by
      rw [List.getElem_take]
      exact (List.getElem?_eq_some_iff.mp hk).2
    have hpos : p a = true → 0 < (L.take j).countP p := fun ha =>
      List.countP_pos_iff.mpr ⟨a, hget ▸ List.getElem_mem hlt', ha⟩
    rw [List.countP_set hlt', hget]
    simp only [hkj, true_and]
    by_cases ha : p a = true
    · have := hpos ha
      rw [if_pos ha]
      omega
    · rw [if_neg ha]
      omega
  · rw [List.set_eq_of_length_le (by rw [List.length_take]; omega), if_neg fun h => hkj h.1, if_neg fun h => hkj h.1]

/-- The place of a value is the only one with it. -/
def Unique (p : β → Bool) (f : β → α) (L : List β) : Prop :=
  ∀ (i j : Nat) (x y : β), L[i]? = some x → L[j]? = some y → p x = true → p y = true → f x = f y → i = j

theorem Unique.nodup (h : Unique p f L) : ((L.filter p).map f).Nodup := by
  apply List.nodup_iff_getElem?_ne_getElem?.mpr
  intro i j hij hj heq
  have hj' : j < (L.filter p).length := by simpa using hj
  obtain ⟨x, hx⟩ : ∃ x, (L.filter p)[i]? = some x := ⟨_, List.getElem?_eq_getElem (Nat.lt_trans hij hj')⟩
  obtain ⟨y, hy⟩ : ∃ y, (L.filter p)[j]? = some y := ⟨_, List.getElem?_eq_getElem hj'⟩
  rw [List.getElem?_map, List.getElem?_map, hx, hy] at heq
  obtain ⟨k, hk, hpx, rfl⟩ := exists_of_getElem?_filter hx
  obtain ⟨l, hl, hpy, rfl⟩ := exists_of_getElem?_filter hy
  obtain rfl := h k l x y hk hl hpx hpy (Option.some.inj heq)
  exact Nat.lt_irrefl _ hij

theorem mem_map_filter {v : α} :
    v ∈ (L.filter p).map f ↔ ∃ (i : Nat) (x : β), L[i]? = some x ∧ p x = true ∧ f x = v := by
  rw [List.mem_map]
  constructor
  · rintro ⟨x, hx, rfl⟩
    obtain ⟨hx, hp⟩ := List.mem_filter.mp hx
    obtain ⟨i, hi⟩ := List.getElem?_of_mem hx
    exact ⟨i, x, hi, hp, rfl⟩
  · rintro ⟨i, x, hi, hp, rfl⟩
    exact ⟨x, List.mem_filter.mpr ⟨List.mem_of_getElem? hi, hp⟩, rfl⟩

/-- A value is in front of the position when its place is. -/
theorem Unique.mem_take (h : Unique p f L) (hi : L[i]? = some a) (ha : p a = true) :
    f a ∈ ((L.filter p).map f).take n ↔ L.countPBefore p i < n := by
  have hget : ((L.filter p).map f)[L.countPBefore p i]? = some (f a) := by
    rw [List.getElem?_map, getElem?_filter_countPBefore hi ha]
    rfl
  constructor
  · intro hmem
    obtain ⟨m, hm⟩ := List.getElem?_of_mem hmem
    rw [List.getElem?_take] at hm
    split_ifs at hm with hlt
    rw [List.getElem?_map, Option.map_eq_some_iff] at hm
    obtain ⟨x, hx, hfx⟩ := hm
    obtain ⟨k, hk, hpx, rfl⟩ := exists_of_getElem?_filter hx
    obtain rfl := h i k a x hi hk ha hpx hfx.symm
    exact hlt
  · intro hlt
    apply List.mem_of_getElem? (i := L.countPBefore p i)
    rw [List.getElem?_take, if_pos hlt, hget]

/-- The places of what stays are on the same side. -/
theorem keepsSide_of_places (hL : Unique p f L) (hL' : Unique p f L')
    (h : ∀ (i j : Nat) (x y : β), L[i]? = some x → L'[j]? = some y → p x = true → p y = true → f x = f y →
      (L.countPBefore p i < n ↔ L'.countPBefore p j < n)) :
    KeepsSide n ((L.filter p).map f) ((L'.filter p).map f) := by
  intro v hv hv'
  obtain ⟨i, x, hi, hx, rfl⟩ := mem_map_filter.mp hv
  obtain ⟨j, y, hj, hy, hxy⟩ := mem_map_filter.mp hv'
  have hmem' := hL'.mem_take (n := n) hj hy
  rw [hxy] at hmem'
  exact (hL.mem_take hi hx).trans ((h i j x y hi hj hx hy hxy.symm).trans hmem'.symm)

/-! ### Edits of a place -/

/-- A value is struck: it was behind the position, or nothing was. -/
theorem keepsSide_strike (hL : Unique p f L) (hL' : Unique p f (L.set k b)) (hk : L[k]? = some a) (ha : p a = true)
    (hb : p b = false) (hn : n ≤ L.countPBefore p k ∨ (L.filter p).length ≤ n) :
    KeepsSide n ((L.filter p).map f) (((L.set k b).filter p).map f) := by
  apply keepsSide_of_places hL hL'
  intro i j x y hi hj hx hy hxy
  have hjk : j ≠ k := by
    rintro rfl
    rw [List.getElem?_set_self (List.getElem?_eq_some_iff.mp hk).1] at hj
    obtain rfl := Option.some.inj hj
    exact nomatch hb.symm.trans hy
  rw [List.getElem?_set_ne hjk.symm] at hj
  obtain rfl := hL i j x y hi hj hx hy hxy
  have hset := countPBefore_set (p := p) hk b i
  have hlt := countPBefore_lt_length hi hx
  rw [hb, if_neg (by simp : ¬(k < i ∧ false = true)), Nat.add_zero] at hset
  by_cases hki : k < i
  · have hbefore := countPBefore_lt hk ha hki
    rw [if_pos ⟨hki, ha⟩] at hset
    omega
  · rw [if_neg fun h => hki h.1] at hset
    omega

/-- A value is added: behind the position, or nothing was there up to it. -/
theorem keepsSide_add (hL : Unique p f L) (hL' : Unique p f (L.set k c)) (hk : L[k]? = some a) (ha : p a = false)
    (hc : p c = true) (hnew : ∀ x ∈ L, p x = true → f x ≠ f c)
    (hn : n ≤ L.countPBefore p k ∨ (L.filter p).length < n) :
    KeepsSide n ((L.filter p).map f) (((L.set k c).filter p).map f) := by
  apply keepsSide_of_places hL hL'
  intro i j x y hi hj hx hy hxy
  have hjk : j ≠ k := by
    rintro rfl
    rw [List.getElem?_set_self (List.getElem?_eq_some_iff.mp hk).1] at hj
    obtain rfl := Option.some.inj hj
    exact hnew x (List.mem_of_getElem? hi) hx hxy
  rw [List.getElem?_set_ne hjk.symm] at hj
  obtain rfl := hL i j x y hi hj hx hy hxy
  have hset := countPBefore_set (p := p) hk c i
  have hlt := countPBefore_lt_length hi hx
  rw [ha, if_neg (by simp : ¬(k < i ∧ false = true)), Nat.add_zero] at hset
  by_cases hki : k < i
  · have hbefore : L.countPBefore p k ≤ L.countPBefore p i := List.countPBefore_mono (Nat.le_of_lt hki)
    rw [if_pos ⟨hki, hc⟩] at hset
    omega
  · rw [if_neg fun h => hki h.1] at hset
    omega

/-- A value moves from place `j` to place `k`: both are on one side. -/
theorem keepsSide_move {o : β} (hL : Unique p f L) (hL' : Unique p f ((L.set k c).set j b)) (hk : L[k]? = some a)
    (ha : p a = false) (hc : p c = true) (hj : L[j]? = some o) (ho : p o = true) (hb : p b = false) (hoc : f o = f c)
    (hn : L.countPBefore p j < n ↔ (L.set j b).countPBefore p k < n) :
    KeepsSide n ((L.filter p).map f) ((((L.set k c).set j b).filter p).map f) := by
  have hjk : j ≠ k := by
    rintro rfl
    obtain rfl := Option.some.inj (hj.symm.trans hk)
    exact nomatch ha.symm.trans ho
  have hj1 : (L.set k c)[j]? = some o := (List.getElem?_set_ne hjk.symm).trans hj
  have hltk := (List.getElem?_eq_some_iff.mp hk).1
  apply keepsSide_of_places hL hL'
  intro i m x y hi hm hx hy hxy
  have hmj : m ≠ j := by
    rintro rfl
    rw [List.getElem?_set_self (List.getElem?_eq_some_iff.mp hj1).1] at hm
    obtain rfl := Option.some.inj hm
    exact nomatch hb.symm.trans hy
  rw [List.getElem?_set_ne hmj.symm] at hm
  -- the counts in front of a place, before and after
  have hset := fun l => countPBefore_set (p := p) hj1 b l
  have hset' := fun l => countPBefore_set (p := p) hk c l
  have hstruck := countPBefore_set (p := p) hj b k
  simp only [ha, hb, hc, ho, Bool.false_eq_true, and_false, and_true, if_false, Nat.add_zero] at hset hset' hstruck
  by_cases hmk : m = k
  · -- the value itself
    subst hmk
    rw [List.getElem?_set_self hltk] at hm
    obtain rfl := Option.some.inj hm
    obtain rfl := hL i j x o hi hj hx ho (hxy.trans hoc.symm)
    have h1 := hset m
    have h2 := hset' m
    rw [if_neg (Nat.lt_irrefl m)] at h2
    omega
  · rw [List.getElem?_set_ne (Ne.symm hmk)] at hm
    obtain rfl := hL i m x y hi hm hx hy hxy
    have h1 := hset i
    have h2 := hset' i
    have hik : i < k → L.countPBefore p i < L.countPBefore p k := countPBefore_lt hi hx
    have hki : k < i → L.countPBefore p k ≤ L.countPBefore p i := fun h => List.countPBefore_mono (Nat.le_of_lt h)
    have hij : i < j → L.countPBefore p i < L.countPBefore p j := countPBefore_lt hi hx
    have hji : j < i → L.countPBefore p j < L.countPBefore p i := countPBefore_lt hj ho
    split_ifs at h1 h2 hstruck <;> omega

end CoActionOS.Position
