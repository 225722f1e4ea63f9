import Mathlib.Data.List.GetD
import Mathlib.Data.Nat.Digits.Lemmas
import Mathlib.Logic.Function.Basic

/-!
# Numbers as text

`itoa` and `utoa` put the digits into a buffer of `'0'`, the lowest one first, and then go through it from the other end.
What is written to `dest` is followed beyond its `BUF_SIZE` bytes.

`formats_iff` says for which numbers and widths the text is the number with leading zeros.
-/

namespace CoActionOS

namespace StringUtil

open Function

/-! ### The code -/

def bufSize : Nat := 36

/-- `'0'` -/
def zeroChar : UInt8 := 48

/-- `Htoc` -/
def upperHtoc (nibble : Int) : UInt8 :=
  if 0 ≤ nibble ∧ nibble < 10 then UInt8.ofInt (nibble + 48) else UInt8.ofInt (nibble + 65 - 10)

def htoc (nibble : Int) : UInt8 :=
  if 0 ≤ nibble ∧ nibble < 10 then UInt8.ofInt (nibble + 48) else UInt8.ofInt (nibble + 97 - 10)

/-- The loop of `itoa` that takes off the digits; at most as many as there is room for. -/
def itoaDigits : Nat → Int → List UInt8
  | 0, _ => []
  | room + 1, num => htoc (num.tmod 10) :: if 0 < num.tdiv 10 then itoaDigits room (num.tdiv 10) else []

/-- The loop of `utoa` that takes off the digits. -/
def utoaDigits (base : Nat) (upper : Bool) : Nat → Nat → List UInt8
  | 0, _ => []
  | room + 1, num =>
    if 0 < num then
      (if upper then upperHtoc (num % base : Nat) else htoc (num % base : Nat)) :: utoaDigits base upper room (num / base)
    else []

/-- `buf`, of which the first bytes have been written. -/
def bufOf (ds : List UInt8) (i : Nat) : UInt8 := ds.getD i zeroChar

/-- `dest` and `j` -/
structure Out where
  dest : Nat → UInt8
  j : Nat

/-- `dest[j++] = c` -/
def Out.push (o : Out) (c : UInt8) : Out := ⟨update o.dest o.j c, o.j + 1⟩

/-- The loop that goes through `buf` from the end. -/
def strip (buf : Nat → UInt8) (width : Int) : Nat → Bool → Out → Out
  | 0, _, o => o
  | i + 1, started, o =>
    if buf i ≠ zeroChar ∨ started = true ∨ (i : Int) < width then strip buf width i true (o.push (buf i))
    else strip buf width i started o

/-- `dest[j] = 0; return j;` -/
def Out.finish (o : Out) : (Nat → UInt8) × Nat := (update o.dest o.j 0, o.j)

/-- `itoa`; `num *= -1` leaves the least number as it is. -/
def itoa (dest : Nat → UInt8) (num : BitVec 32) (width : Int) : (Nat → UInt8) × Nat :=
  let neg := decide (num.toInt < 0)
  let num := if neg then -num else num
  let o : Out := ⟨dest, 0⟩
  let o := if neg then o.push 45 else o
  let o := strip (bufOf (itoaDigits bufSize num.toInt)) width bufSize false o
  let o := if o.j = 0 ∨ o.j = 1 ∧ neg = true then o.push zeroChar else o
  o.finish

/-- `utoa` -/
def utoa (dest : Nat → UInt8) (num : BitVec 32) (base : Nat) (upper : Bool) (width : Int) : (Nat → UInt8) × Nat :=
  let o := strip (bufOf (utoaDigits base upper bufSize num.toNat)) width bufSize false ⟨dest, 0⟩
  let o := if o.j = 0 then o.push zeroChar else o
  o.finish

/-! ### The statement -/

/-- The character of a digit below 16. -/
def digitChar (upper : Bool) (d : Nat) : UInt8 :=
  UInt8.ofNat (if d < 10 then 48 + d else if upper then 55 + d else 87 + d)

/-- The digits of a number, the lowest one first. -/
def digitChars (base : Nat) (upper : Bool) (n : Nat) : List UInt8 :=
  if n = 0 then [zeroChar] else (Nat.digits base n).map (digitChar upper)

/-- A number with leading zeros up to the width. -/
def numeral (base : Nat) (upper : Bool) (num : Int) (width : Int) : List UInt8 :=
  (if num < 0 then [45] else []) ++
    (List.replicate (width.toNat - (digitChars base upper num.natAbs).length) zeroChar ++
      (digitChars base upper num.natAbs).reverse)

def digitValue (c : UInt8) : Nat := if c < 58 then c.toNat - 48 else if c < 97 then c.toNat - 55 else c.toNat - 87

/-- The value of digits. -/
def parseDigits (base : Nat) (cs : List UInt8) : Nat := cs.foldl (fun v c => base * v + digitValue c) 0

def parse (base : Nat) : List UInt8 → Int
  | 45 :: cs => -(parseDigits base cs : Int)
  | cs => parseDigits base cs

/-- `text` is in `dest` with its terminator, nothing is written behind the `BUF_SIZE` bytes, and the length is returned. -/
structure Holds (dest : Nat → UInt8) (r : (Nat → UInt8) × Nat) (text : List UInt8) : Prop where
  bytes : ∀ i (hi : i < text.length), r.1 i = text[i]
  terminator : r.1 text.length = 0
  length : r.2 = text.length
  kept : ∀ i, bufSize ≤ i → r.1 i = dest i

/-- The text is the number in the width asked for, or in a smaller one if that does not fit. -/
def Formats (f : (Nat → UInt8) → (Nat → UInt8) × Nat) (base : Nat) (upper : Bool) (num width : Int) : Prop :=
  ∀ dest, ∃ w, (w = width ∨ w < width ∧ bufSize ≤ (numeral base upper num width).length) ∧
    Holds dest (f dest) (numeral base upper num w) ∧ parse base (numeral base upper num w) = num

/-! ### Digits -/

theorem htoc_of_lt {d : Nat} (h : d < 16) : htoc d = digitChar false d := by
  have hall : ∀ d : Fin 16, htoc (d : Nat) = digitChar false d := by decide
  exact hall ⟨d, h⟩

theorem upperHtoc_of_lt {d : Nat} (h : d < 16) : upperHtoc d = digitChar true d := by
  have hall : ∀ d : Fin 16, upperHtoc (d : Nat) = digitChar true d := by decide
  exact hall ⟨d, h⟩

theorem digitChar_ne {upper : Bool} {d : Nat} (h : d < 16) (hpos : 0 < d) : digitChar upper d ≠ zeroChar := by
  have hall : ∀ (upper : Bool) (d : Fin 16), 0 < d.val → digitChar upper d ≠ zeroChar := by decide
  exact hall upper ⟨d, h⟩ hpos

theorem digitChar_ne_minus {upper : Bool} {d : Nat} (h : d < 16) : digitChar upper d ≠ 45 := by
  have hall : ∀ (upper : Bool) (d : Fin 16), digitChar upper d ≠ 45 := by decide
  exact hall upper ⟨d, h⟩

theorem digitValue_digitChar {upper : Bool} {d : Nat} (h : d < 16) : digitValue (digitChar upper d) = d := by
  have hall : ∀ (upper : Bool) (d : Fin 16), digitValue (digitChar upper d) = d := by decide
  exact hall upper ⟨d, h⟩

variable {base : Nat} {upper : Bool} {num width : Int} {n : Nat}

theorem utoaDigits_eq (hb : 1 < base) (hb16 : base ≤ 16) (room : Nat) : ∀ {n : Nat}, n < base ^ room →
    utoaDigits base upper room n = (Nat.digits base n).map (digitChar upper) := by
  induction room with
  | zero =>
    intro n hn
    rw [show n = 0 by simpa using hn, Nat.digits_zero]
    rfl
  | succ room ih =>
    intro n hn
    unfold utoaDigits
    by_cases hpos : 0 < n
    · have hlt : n % base < 16 := Nat.lt_of_lt_of_le (Nat.mod_lt _ (by omega)) hb16
      have hdiv : n / base < base ^ room := Nat.div_lt_of_lt_mul (by rwa [Nat.pow_succ, Nat.mul_comm] at hn)
      have hchar : (if upper then upperHtoc (n % base : Nat) else htoc (n % base : Nat)) = digitChar upper (n % base) := by
        cases upper with
        | true => exact upperHtoc_of_lt hlt
        | false => exact htoc_of_lt hlt
      rw [if_pos hpos, hchar, ih hdiv, Nat.digits_def' hb hpos, List.map_cons]
    · rw [if_neg hpos, show n = 0 by omega, Nat.digits_zero]
      rfl

theorem itoaDigits_eq (room : Nat) : ∀ {n : Nat}, 0 < n → n < 10 ^ room →
    itoaDigits room n = (Nat.digits 10 n).map (digitChar false) := by
  induction room with
  | zero =>
    intro n hpos hn
    rw [Nat.pow_zero] at hn
    omega
  | succ room ih =>
    intro n hpos hn
    have hmod : (n : Int).tmod 10 = (n % 10 : Nat) := rfl
    have hdiv : (n : Int).tdiv 10 = (n / 10 : Nat) := rfl
    unfold itoaDigits
    rw [hmod, hdiv, htoc_of_lt (by omega), Nat.digits_def' (by decide) hpos, List.map_cons]
    congr 1
    by_cases hmore : 0 < n / 10
    · rw [if_pos (by omega), ih hmore (by omega)]
    · rw [if_neg (by omega), show n / 10 = 0 by omega]
      rfl

/-! ### What is written -/

namespace Out

/-- Characters are written one after the other. -/
def pushAll (o : Out) (cs : List UInt8) : Out := cs.foldl push o

theorem pushAll_append (o : Out) (cs cs' : List UInt8) : o.pushAll (cs ++ cs') = (o.pushAll cs).pushAll cs' :=
  List.foldl_append

theorem pushAll_j (cs : List UInt8) : ∀ o : Out, (o.pushAll cs).j = o.j + cs.length := by
  induction cs with
  | nil => exact fun o => rfl
  | cons c cs ih =>
    intro o
    show (pushAll (o.push c) cs).j = _
    rw [ih, List.length_cons]
    show o.j + 1 + cs.length = _
    omega

theorem pushAll_of_lt (cs : List UInt8) : ∀ (o : Out) {i : Nat}, i < o.j → (o.pushAll cs).dest i = o.dest i := by
  induction cs with
  | nil => exact fun o i _ => rfl
  | cons c cs ih =>
    intro o i hi
    show (pushAll (o.push c) cs).dest i = _
    rw [ih (o.push c) (Nat.lt_succ_of_lt hi)]
    exact update_of_ne (Nat.ne_of_lt hi) _ _

theorem pushAll_of_ge (cs : List UInt8) : ∀ (o : Out) {i : Nat}, o.j + cs.length ≤ i → (o.pushAll cs).dest i = o.dest i := by
  induction cs with
  | nil => exact fun o i _ => rfl
  | cons c cs ih =>
    intro o i hi
    rw [List.length_cons] at hi
    show (pushAll (o.push c) cs).dest i = _
    rw [ih (o.push c) (by show o.j + 1 + cs.length ≤ i; omega)]
    exact update_of_ne (by omega) _ _

theorem pushAll_getElem (cs : List UInt8) : ∀ (o : Out) (i : Nat) (hi : i < cs.length), (o.pushAll cs).dest (o.j + i) = cs[i] := by
  induction cs with
  | nil => exact fun o i hi => absurd hi (Nat.not_lt_zero i)
  | cons c cs ih =>
    intro o i hi
    show (pushAll (o.push c) cs).dest _ = _
    cases i with
    | zero =>
      rw [Nat.add_zero, pushAll_of_lt cs (o.push c) (Nat.lt_succ_self _)]
      exact update_self ..
    | succ i =>
      have hnext := ih (o.push c) i (Nat.lt_of_succ_lt_succ hi)
      rw [show o.j + (i + 1) = (o.push c).j + i by show _ = o.j + 1 + i; omega, hnext]
      rfl

end Out

/-- The end of both functions. -/
def finishWith (dest : Nat → UInt8) (cs : List UInt8) : (Nat → UInt8) × Nat := (Out.pushAll ⟨dest, 0⟩ cs).finish

theorem finishWith_snd (dest : Nat → UInt8) (cs : List UInt8) : (finishWith dest cs).2 = cs.length := by
  show (Out.pushAll ⟨dest, 0⟩ cs).j = _
  rw [Out.pushAll_j, Nat.zero_add]

theorem finishWith_terminator (dest : Nat → UInt8) (cs : List UInt8) : (finishWith dest cs).1 cs.length = 0 := by
  show update _ (Out.pushAll ⟨dest, 0⟩ cs).j 0 _ = _
  rw [Out.pushAll_j, Nat.zero_add]
  exact update_self ..

theorem finishWith_getElem (dest : Nat → UInt8) (cs : List UInt8) (i : Nat) (hi : i < cs.length) :
    (finishWith dest cs).1 i = cs[i] := by
  show update _ (Out.pushAll ⟨dest, 0⟩ cs).j 0 _ = _
  rw [Out.pushAll_j, Nat.zero_add, update_of_ne (Nat.ne_of_lt hi)]
  have hbyte := Out.pushAll_getElem cs ⟨dest, 0⟩ i hi
  rwa [Nat.zero_add] at hbyte

theorem finishWith_of_gt (dest : Nat → UInt8) (cs : List UInt8) {i : Nat} (hi : cs.length < i) :
    (finishWith dest cs).1 i = dest i := by
  show update _ (Out.pushAll ⟨dest, 0⟩ cs).j 0 _ = _
  rw [Out.pushAll_j, Nat.zero_add, update_of_ne (Nat.ne_of_gt hi)]
  exact Out.pushAll_of_ge cs _ (by rw [Nat.zero_add]; exact Nat.le_of_lt hi)

/-- What is shorter than `BUF_SIZE` stays within it. -/
theorem holds_finishWith (dest : Nat → UInt8) {cs : List UInt8} (h : cs.length < bufSize) : Holds dest (finishWith dest cs) cs where
  bytes := finishWith_getElem dest cs
  terminator := finishWith_terminator dest cs
  length := finishWith_snd dest cs
  kept _ hi := finishWith_of_gt dest cs (Nat.lt_of_lt_of_le h hi)

/-- What is not writes behind it. -/
theorem not_kept_finishWith {cs : List UInt8} (h : bufSize ≤ cs.length) (hcs : 1 ∉ cs) :
    ¬ ∀ i, bufSize ≤ i → (finishWith (fun _ => 1) cs).1 i = 1 := by
  intro hkept
  rcases Nat.lt_or_eq_of_le h with hlt | heq
  · have hbyte := hkept bufSize (Nat.le_refl _)
    rw [finishWith_getElem _ cs bufSize hlt] at hbyte
    exact hcs (hbyte ▸ List.getElem_mem hlt)
  · have hbyte := hkept cs.length h
    rw [finishWith_terminator] at hbyte
    exact absurd hbyte (by decide)

/-! ### The loop over the buffer -/

theorem strip_started (buf : Nat → UInt8) (width : Int) (i : Nat) : ∀ o : Out,
    strip buf width i true o = o.pushAll ((List.range i).reverse.map buf) := by
  induction i with
  | zero => exact fun o => rfl
  | succ i ih =>
    intro o
    unfold strip
    rw [if_pos (Or.inr (Or.inl rfl)), ih, List.range_succ, List.reverse_append]
    rfl

theorem le_strip_j (buf : Nat → UInt8) (width : Int) (i : Nat) : ∀ (started : Bool) (o : Out),
    o.j ≤ (strip buf width i started o).j := by
  induction i with
  | zero => exact fun _ o => Nat.le_refl _
  | succ i ih =>
    intro started o
    unfold strip
    split_ifs
    · exact Nat.le_trans (Nat.le_succ o.j) (ih true (o.push (buf i)))
    · exact ih started o

/-- All of the first `m` characters are shown, and the ones behind are zeros that are not asked for. -/
theorem strip_eq {buf : Nat → UInt8} {m : Nat} (hlast : m = 0 ∨ buf (m - 1) ≠ zeroChar ∨ ((m - 1 : Nat) : Int) < width) (k : Nat) :
    ∀ o : Out, m ≤ k → (∀ i, m ≤ i → i < k → buf i = zeroChar ∧ width ≤ i) →
      strip buf width k false o = o.pushAll ((List.range m).reverse.map buf) := by
  induction k with
  | zero =>
    intro o hm _
    rw [Nat.le_zero.mp hm]
    rfl
  | succ k ih =>
    intro o hm hzero
    rcases Nat.lt_or_eq_of_le hm with hlt | rfl
    · obtain ⟨hbuf, hwidth⟩ := hzero k (by omega) (by omega)
      unfold strip
      rw [if_neg, ih o (by omega) fun i hi hik => hzero i hi (by omega)]
      rintro (hne | hstarted | hshown)
      · exact hne hbuf
      · exact absurd hstarted (by decide)
      · omega
    · unfold strip
      have hshown : buf k ≠ zeroChar ∨ false = true ∨ (k : Int) < width := by
        rcases hlast with h0 | hne | hlt
        · exact absurd h0 (Nat.succ_ne_zero k)
        · exact Or.inl hne
        · exact Or.inr (Or.inr hlt)
      rw [if_pos hshown, strip_started, List.range_succ, List.reverse_append]
      rfl

theorem map_bufOf {ds : List UInt8} {m : Nat} (h : ds.length ≤ m) :
    (List.range m).reverse.map (bufOf ds) = List.replicate (m - ds.length) zeroChar ++ ds.reverse := by
  have hds : (List.range ds.length).map (bufOf ds) = ds := by
    apply List.ext_getElem
    · rw [List.length_map, List.length_range]
    · intro i _ hi
      rw [List.getElem_map, List.getElem_range]
      exact List.getD_eq_getElem _ _ hi
  obtain ⟨k, rfl⟩ := Nat.exists_eq_add_of_le h
  rw [List.range_add, List.reverse_append, List.map_append, List.map_reverse, List.map_reverse, hds, List.map_map,
    Nat.add_sub_cancel_left]
  congr 1
  rw [List.eq_replicate_iff]
  refine ⟨by simp, fun b hb => ?_⟩
  obtain ⟨i, -, rfl⟩ := List.mem_map.mp (List.mem_reverse.mp hb)
  exact List.getD_eq_default _ _ (Nat.le_add_right _ _)

/-- The digits that are shown: all of them, and zeros up to the width. -/
theorem strip_bufOf (width : Int) {ds : List UInt8} (hds : ds.length ≤ bufSize) (hlast : ∀ h : ds ≠ [], ds.getLast h ≠ zeroChar) (o : Out) :
    strip (bufOf ds) width bufSize false o =
      o.pushAll (List.replicate (min width.toNat bufSize - ds.length) zeroChar ++ ds.reverse) := by
  have hm : max ds.length (min width.toNat bufSize) - ds.length = min width.toNat bufSize - ds.length := by omega
  rw [← hm, ← map_bufOf (Nat.le_max_left _ _)]
  refine strip_eq ?_ bufSize o (by omega) fun i hi hik => ⟨List.getD_eq_default _ _ (by omega), by omega⟩
  by_cases hwide : ds.length < min width.toNat bufSize
  · exact Or.inr (Or.inr (by omega))
  · rw [Nat.max_eq_left (Nat.not_lt.mp hwide)]
    rcases List.eq_nil_or_concat' ds with rfl | ⟨ds', d, rfl⟩
    · exact Or.inl rfl
    · refine Or.inr (Or.inl ?_)
      have hne := hlast (by simp)
      rw [List.getLast_append_singleton] at hne
      have hlength : (ds' ++ [d]).length - 1 = ds'.length := by simp
      rw [hlength, bufOf, List.getD_append_right _ _ _ _ (Nat.le_refl _), Nat.sub_self]
      exact hne

/-! ### The text -/

theorem digit_lt (hb : 1 < base) (hb16 : base ≤ 16) {d : Nat} (h : d ∈ Nat.digits base n) : d < 16 :=
  Nat.lt_of_lt_of_le (Nat.digits_lt_base hb h) hb16

/-- The digits of a number end with one that is not zero. -/
theorem getLast_digits_ne (hb : 1 < base) (hb16 : base ≤ 16) (h : (Nat.digits base n).map (digitChar upper) ≠ []) :
    ((Nat.digits base n).map (digitChar upper)).getLast h ≠ zeroChar := by
  have hne : Nat.digits base n ≠ [] := fun hnil => h (by rw [hnil]; rfl)
  have hn : n ≠ 0 := Nat.digits_ne_nil_iff_ne_zero.mp hne
  rw [List.getLast_map]
  exact digitChar_ne (digit_lt hb hb16 (List.getLast_mem hne)) (Nat.pos_of_ne_zero (Nat.getLast_digit_ne_zero base hn))

theorem length_digitChars_pos (base : Nat) (upper : Bool) (n : Nat) : 0 < (digitChars base upper n).length := by
  unfold digitChars
  split_ifs with h0
  · decide
  · rw [List.length_map]
    exact List.length_pos_of_ne_nil (Nat.digits_ne_nil_iff_ne_zero.mpr h0)

/-- At most 32 digits. -/
theorem length_digitChars_le (upper : Bool) (hb : 1 < base) (h : n < 2 ^ 32) : (digitChars base upper n).length ≤ 32 := by
  unfold digitChars
  split_ifs
  · decide
  · rw [List.length_map]
    exact Nat.digits_length_le_iff hb n |>.mpr (Nat.lt_of_lt_of_le h (Nat.pow_le_pow_left hb 32))

/-- The digits with zeros in front of them; if nothing was shown, a zero. -/
theorem strip_digits (upper : Bool) (hb : 1 < base) (hb16 : base ≤ 16) (h : n < 2 ^ 32) (width : Int) (o : Out) :
    let shown := strip (bufOf ((Nat.digits base n).map (digitChar upper))) width bufSize false o
    (if shown.j = o.j then shown.push zeroChar else shown) =
      o.pushAll (List.replicate ((min width bufSize).toNat - (digitChars base upper n).length) zeroChar ++
        (digitChars base upper n).reverse) := by
  have hmin : (min width bufSize).toNat = min width.toNat bufSize := by unfold bufSize; omega
  have hlength : ((Nat.digits base n).map (digitChar upper)).length ≤ bufSize := by
    rw [List.length_map]
    exact Nat.le_trans (Nat.digits_length_le_iff hb n |>.mpr (Nat.lt_of_lt_of_le h (Nat.pow_le_pow_left hb 32)))
      (by decide : 32 ≤ bufSize)
  dsimp only
  rw [strip_bufOf _ hlength (getLast_digits_ne hb hb16), hmin, Out.pushAll_j]
  unfold digitChars
  by_cases h0 : n = 0
  · subst h0
    rw [Nat.digits_zero]
    rcases Nat.eq_zero_or_pos (min width.toNat bufSize) with hw | hw
    · rw [hw]
      exact if_pos rfl
    · obtain ⟨k, hk⟩ := Nat.exists_eq_succ_of_ne_zero (Nat.ne_of_gt hw)
      rw [hk, if_neg (by simp), if_pos rfl]
      congr 1
      show List.replicate (k + 1) zeroChar ++ [] = List.replicate k zeroChar ++ [zeroChar]
      rw [List.append_nil]
      exact List.replicate_succ'
  · have hpos : 0 < ((Nat.digits base n).map (digitChar upper)).length := by
      rw [List.length_map]
      exact List.length_pos_of_ne_nil (Nat.digits_ne_nil_iff_ne_zero.mpr h0)
    rw [if_neg h0, if_neg]
    rw [List.length_append, List.length_reverse]
    omega

/-- `utoa` writes the number, in no more than `BUF_SIZE` digits. -/
theorem utoa_eq (hb : 1 < base) (hb16 : base ≤ 16) (dest : Nat → UInt8) (num : BitVec 32) (upper : Bool) (width : Int) :
    utoa dest num base upper width = finishWith dest (numeral base upper num.toNat (min width bufSize)) := by
  have hlt : num.toNat < base ^ bufSize :=
    Nat.lt_of_lt_of_le num.isLt (Nat.le_trans (Nat.pow_le_pow_left hb 32) (Nat.pow_le_pow_right (by omega) (by decide)))
  have hstrip := strip_digits upper hb hb16 num.isLt width ⟨dest, 0⟩
  unfold utoa numeral
  rw [utoaDigits_eq hb hb16 bufSize hlt]
  dsimp only at hstrip ⊢
  rw [hstrip, if_neg (by omega), Int.natAbs_natCast, List.nil_append]
  rfl

/-- The zero that the loop writes for zero is one of the buffer's. -/
theorem bufOf_itoaDigits (h : n < 2 ^ 32) : bufOf (itoaDigits bufSize n) = bufOf ((Nat.digits 10 n).map (digitChar false)) := by
  rcases Nat.eq_zero_or_pos n with rfl | hpos
  · funext i
    cases i with
    | zero => rfl
    | succ i => rfl
  · rw [itoaDigits_eq bufSize hpos (Nat.lt_trans h (by decide))]

/-- So does `itoa`, if the sign of the number can be changed. -/
theorem itoa_eq (dest : Nat → UInt8) {num : BitVec 32} (hnum : num.toInt ≠ -2 ^ 31) (width : Int) :
    itoa dest num width = finishWith dest (numeral 10 false num.toInt (min width bufSize)) := by
  have hle : num.toInt < 2 ^ 31 := BitVec.toInt_lt
  have hge : -2 ^ 31 ≤ num.toInt := BitVec.le_toInt num
  have habs : (if decide (num.toInt < 0) = true then -num else num).toInt = (num.toInt.natAbs : Int) := by
    by_cases hneg : num.toInt < 0
    · rw [if_pos (decide_eq_true hneg), BitVec.toInt_neg, Int.bmod_def]
      omega
    · rw [if_neg (by rwa [decide_eq_true_iff])]
      omega
  have hlt : num.toInt.natAbs < 2 ^ 32 := by omega
  unfold itoa numeral
  dsimp only
  rw [habs, bufOf_itoaDigits hlt]
  clear habs
  by_cases hneg : num.toInt < 0
  · have hstrip := strip_digits false (by decide : 1 < 10) (by decide) hlt width (Out.push ⟨dest, 0⟩ 45)
    have hle := le_strip_j (bufOf ((Nat.digits 10 num.toInt.natAbs).map (digitChar false))) width bufSize false
      (Out.push ⟨dest, 0⟩ 45)
    rw [if_pos hneg, decide_eq_true hneg, if_pos (rfl : true = true)]
    dsimp only at hstrip
    generalize strip (bufOf ((Nat.digits 10 num.toInt.natAbs).map (digitChar false))) width bufSize false
      (Out.push ⟨dest, 0⟩ 45) = shown at hstrip hle ⊢
    have hone : shown.j = 0 ∨ shown.j = 1 ∧ true = true ↔ shown.j = (Out.push ⟨dest, 0⟩ 45).j := by
      have hj : (Out.push ⟨dest, 0⟩ 45).j = 1 := rfl
      rw [hj] at hle ⊢
      simp only [and_true]
      omega
    unfold finishWith
    rw [if_congr hone rfl rfl, hstrip]
    rfl
  · have hstrip := strip_digits false (by decide : 1 < 10) (by decide) hlt width ⟨dest, 0⟩
    rw [if_neg hneg, decide_eq_false hneg, if_neg Bool.false_ne_true]
    dsimp only at hstrip
    generalize strip (bufOf ((Nat.digits 10 num.toInt.natAbs).map (digitChar false))) width bufSize false
      ⟨dest, 0⟩ = shown at hstrip ⊢
    have hnone : shown.j = 0 ∨ shown.j = 1 ∧ false = true ↔ shown.j = 0 := by simp
    unfold finishWith
    rw [if_congr hnone rfl rfl, hstrip, List.nil_append]

/-! ### Reading it back -/

theorem parseDigits_append (base : Nat) (cs : List UInt8) (c : UInt8) :
    parseDigits base (cs ++ [c]) = base * parseDigits base cs + digitValue c :=
  List.foldl_concat _ _ _ _

theorem parseDigits_reverse {ds : List Nat} (h : ∀ d ∈ ds, d < 16) :
    parseDigits base (ds.map (digitChar upper)).reverse = Nat.ofDigits base ds := by
  induction ds with
  | nil => rfl
  | cons d ds ih =>
    rw [List.map_cons, List.reverse_cons, parseDigits_append, ih fun d hd => h d (List.mem_cons_of_mem _ hd),
      digitValue_digitChar (h d List.mem_cons_self), Nat.ofDigits_cons]
    exact Nat.add_comm _ _

theorem parseDigits_zeros (base k : Nat) (cs : List UInt8) :
    parseDigits base (List.replicate k zeroChar ++ cs) = parseDigits base cs := by
  induction k with
  | zero => rfl
  | succ k ih =>
    rw [List.replicate_succ, List.cons_append, ← ih]
    rfl

theorem parseDigits_digitChars (upper : Bool) (hb : 1 < base) (hb16 : base ≤ 16) (n : Nat) :
    parseDigits base (digitChars base upper n).reverse = n := by
  unfold digitChars
  split_ifs with h0
  · rw [h0]
    rfl
  · rw [parseDigits_reverse fun d hd => digit_lt hb hb16 hd, Nat.ofDigits_digits]

/-- Every character is the sign or that of a digit. -/
theorem mem_numeral (hb : 1 < base) {w : Int} {c : UInt8} (h : c ∈ numeral base upper num w) :
    num < 0 ∧ c = 45 ∨ ∃ d < base, c = digitChar upper d := by
  have hzero : zeroChar = digitChar upper 0 := rfl
  unfold numeral at h
  rcases List.mem_append.mp h with hsign | h
  · split_ifs at hsign with hneg
    · exact Or.inl ⟨hneg, List.mem_singleton.mp hsign⟩
    · exact absurd hsign List.not_mem_nil
  · right
    rcases List.mem_append.mp h with hpad | hdigit
    · exact ⟨0, by omega, List.eq_of_mem_replicate hpad⟩
    · have hdigit := List.mem_reverse.mp hdigit
      unfold digitChars at hdigit
      split_ifs at hdigit
      · exact ⟨0, by omega, List.mem_singleton.mp hdigit⟩
      · obtain ⟨d, hd, rfl⟩ := List.mem_map.mp hdigit
        exact ⟨d, Nat.digits_lt_base hb hd, rfl⟩

theorem parse_of_digits {cs : List UInt8} (h : 45 ∉ cs) : parse base cs = parseDigits base cs := by
  cases cs with
  | nil => rfl
  | cons c cs =>
    unfold parse
    split
    next heq => exact absurd (List.mem_of_mem_head? (by rw [heq]; rfl)) h
    · rfl

theorem parse_numeral (hb : 1 < base) (hb16 : base ≤ 16) (w : Int) : parse base (numeral base upper num w) = num := by
  have hdigits := parseDigits_digitChars upper hb hb16 num.natAbs
  by_cases hneg : num < 0
  · unfold numeral
    rw [if_pos hneg]
    show -(parseDigits base (List.replicate _ zeroChar ++ _) : Int) = num
    rw [parseDigits_zeros, hdigits]
    omega
  · rw [parse_of_digits]
    · unfold numeral
      rw [if_neg hneg, List.nil_append, parseDigits_zeros, hdigits]
      omega
    · intro hmem
      rcases mem_numeral hb hmem with ⟨hlt, -⟩ | ⟨d, hd, heq⟩
      · exact hneg hlt
      · exact digitChar_ne_minus (Nat.lt_of_lt_of_le hd hb16) heq.symm

/-! ### The whole -/

theorem length_numeral (base : Nat) (upper : Bool) (num w : Int) : (numeral base upper num w).length =
    (if num < 0 then 1 else 0) + max w.toNat (digitChars base upper num.natAbs).length := by
  unfold numeral
  rw [List.length_append, List.length_append, List.length_replicate, List.length_reverse]
  split_ifs
  · show 1 + _ = 1 + _
    omega
  · show 0 + _ = 0 + _
    omega

theorem one_notMem_numeral (hb : 1 < base) (hb16 : base ≤ 16) (w : Int) : 1 ∉ numeral base upper num w := by
  intro hmem
  rcases mem_numeral hb hmem with ⟨-, heq⟩ | ⟨d, hd, heq⟩
  · exact absurd heq (by decide)
  · have hall : ∀ (upper : Bool) (d : Fin 16), (1 : UInt8) ≠ digitChar upper d := by decide
    exact hall upper ⟨d, Nat.lt_of_lt_of_le hd hb16⟩ heq

/-- A function that writes the number in at most `BUF_SIZE` digits is right if the text is shorter than the buffer. -/
theorem formats_iff_of_eq (num : Int) {f : (Nat → UInt8) → (Nat → UInt8) × Nat} (hb : 1 < base) (hb16 : base ≤ 16)
    (hnum : num.natAbs < 2 ^ 32)
    (hf : ∀ dest, f dest = finishWith dest (numeral base upper num (min width bufSize))) :
    Formats f base upper num width ↔ width ≤ if num < 0 then 34 else 35 := by
  have hlength := length_numeral base upper num (min width bufSize)
  have hdigits := length_digitChars_le upper hb hnum
  unfold bufSize at hlength
  constructor
  · intro h
    obtain ⟨w, -, hholds, -⟩ := h fun _ => 1
    rw [hf] at hholds
    by_contra hwide
    refine not_kept_finishWith ?_ (one_notMem_numeral hb hb16 _) hholds.kept
    unfold bufSize
    rw [hlength]
    split_ifs at hwide ⊢ <;> omega
  · intro hwidth dest
    have hmin : min width bufSize = width := by
      unfold bufSize
      split_ifs at hwidth <;> omega
    refine ⟨width, Or.inl rfl, ?_, parse_numeral hb hb16 width⟩
    rw [hf, hmin]
    refine holds_finishWith dest ?_
    rw [length_numeral]
    unfold bufSize
    split_ifs at hwidth ⊢ <;> omega

/-- The digit that is taken off the least number is no digit. -/
theorem itoa_least (dest : Nat → UInt8) (width : Int) : itoa dest (BitVec.intMin 32) width =
    finishWith dest (45 :: (List.replicate (min width.toNat bufSize - 1) zeroChar ++ [79])) := by
  have hdigits : itoaDigits bufSize (-BitVec.intMin 32).toInt = [79] := by decide
  have hneg : (BitVec.intMin 32).toInt < 0 := by decide
  have hstrip := strip_bufOf width (by decide : [(79 : UInt8)].length ≤ bufSize)
    (fun _ => (by decide : (79 : UInt8) ≠ zeroChar)) (Out.push ⟨dest, 0⟩ 45)
  have hj := congrArg Out.j hstrip
  rw [Out.pushAll_j, List.length_append] at hj
  unfold itoa
  dsimp only
  rw [decide_eq_true hneg, if_pos (rfl : true = true), if_pos (rfl : true = true), hdigits, if_neg, hstrip]
  · rfl
  · rw [hj]
    show ¬ (1 + (_ + 1) = 0 ∨ 1 + (_ + 1) = 1 ∧ _)
    omega

theorem not_formats_least (width : Int) :
    ¬ Formats (fun dest => itoa dest (BitVec.intMin 32) width) 10 false (BitVec.intMin 32).toInt width := by
  intro h
  obtain ⟨w, -, hholds, -⟩ := h fun _ => 1
  dsimp only at hholds
  rw [itoa_least] at hholds
  have hlength := hholds.length
  rw [finishWith_snd] at hlength
  have hmem : 79 ∈ numeral 10 false (BitVec.intMin 32).toInt w := by
    have hcs : 79 ∈ 45 :: (List.replicate (min width.toNat bufSize - 1) zeroChar ++ [79]) := by simp
    obtain ⟨i, hi, heq⟩ := List.mem_iff_getElem.mp hcs
    rw [← finishWith_getElem (fun _ => 1) _ i hi, hholds.bytes i (hlength ▸ hi)] at heq
    exact heq ▸ List.getElem_mem _
  rcases mem_numeral (by decide) hmem with ⟨-, heq⟩ | ⟨d, hd, heq⟩
  · exact absurd heq (by decide)
  · have hall : ∀ d : Fin 10, 79 ≠ digitChar false d := by decide
    exact hall ⟨d, hd⟩ heq

/-- The number is written as it should be unless it is the least one or its text with the terminator is longer than the
buffer. -/
theorem formats_iff (num : BitVec 32) (base : {b : Nat // 1 < b ∧ b ≤ 16}) (upper : Bool) (width : Int) :
    (Formats (fun dest => itoa dest num width) 10 false num.toInt width ↔
      num.toInt ≠ -2 ^ 31 ∧ width ≤ if num.toInt < 0 then 34 else 35) ∧
    (Formats (fun dest => utoa dest num base upper width) base upper num.toNat width ↔ width ≤ 35) := by
  have hge : -2 ^ 31 ≤ num.toInt := BitVec.le_toInt num
  have hle : num.toInt < 2 ^ 31 := BitVec.toInt_lt
  constructor
  · by_cases hleast : num.toInt = -2 ^ 31
    · have hnum : num = BitVec.intMin 32 := BitVec.eq_of_toInt_eq (by rw [hleast]; decide)
      subst hnum
      exact ⟨fun h => absurd h (not_formats_least width), fun h => absurd hleast h.1⟩
    · rw [formats_iff_of_eq _ (by decide) (by decide) (by omega) fun dest => itoa_eq dest hleast width]
      exact (and_iff_right hleast).symm
  · have hutoa := formats_iff_of_eq num.toNat base.2.1 base.2.2 (by have := num.isLt; omega)
      fun dest => utoa_eq base.2.1 base.2.2 dest num upper width
    rw [hutoa, if_neg (by omega)]

/-- `-2147483648` is written as `-O`. -/
theorem not_formats : ¬ ∀ (num : BitVec 32) (width : Int),
    Formats (fun dest => itoa dest num width) 10 false num.toInt width :=
  fun h => not_formats_least 0 (h (BitVec.intMin 32) 0)

end StringUtil

end CoActionOS
