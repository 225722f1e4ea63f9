import CoActionOS.Lib.Bytes
import Mathlib.Tactic.ByContra
import Mathlib.Tactic.SplitIfs

/-!
# Base64

`Base64.cpp` takes three bytes at a time.  The last group may have one or two bytes only: the loop computes its four
characters from the bytes that follow in memory, and the characters that stand for nothing are replaced by `=`.  The last
character before them keeps the bits of the byte that follows.

`faithful_iff` says when the text is that of RFC 4648.
-/

namespace CoActionOS

namespace Base64

open Bytes (toNat_and_mask toNat_shiftLeft_or toNat_shl toNat_shr)

/-! ### The code -/

/-- `base64_encode_six` -/
def base64EncodeSix (sixBitValue : UInt8) : UInt8 :=
  let x := sixBitValue &&& ~~~0xC0
  if x < 26 then 65 + x
  else if x < 52 then 97 + (x - 26)
  else if x < 62 then 48 + (x - 52)
  else if x = 62 then 43
  else if x = 63 then 47
  else 0xFF

/-- `base64_decode_eigth` -/
def base64DecodeEigth (x : UInt8) : UInt8 :=
  if 65 ≤ x ∧ x ≤ 90 then x - 65
  else if 97 ≤ x ∧ x ≤ 122 then x - 97 + 26
  else if 48 ≤ x ∧ x ≤ 57 then x - 48 + 52
  else if x = 43 then 62
  else if x = 47 then 63
  else 0

/-- `'='` -/
def equals : UInt8 := 61

/-- The six-bit sections of three bytes. -/
def sixBits (a b c : UInt8) : List UInt8 :=
  [(a >>> (2 : UInt8)) &&& 0x3F,
    ((a <<< (4 : UInt8)) &&& 0x30) + ((b >>> (4 : UInt8)) &&& 0x0F),
    ((b <<< (2 : UInt8)) &&& 0x3C) + ((c >>> (6 : UInt8)) &&& 0x03),
    c &&& 0x3F]

/-- The loop of `encode`; `next` is what follows the bytes in memory. -/
def encodeLoop (next : Nat → UInt8) : List UInt8 → List UInt8
  | [] => []
  | [a] => (sixBits a (next 0) (next 1)).map base64EncodeSix
  | [a, b] => (sixBits a b (next 0)).map base64EncodeSix
  | a :: b :: c :: data => (sixBits a b c).map base64EncodeSix ++ encodeLoop next data

/-- What `encode` has written in front of the zero. -/
def encode (data : List UInt8) (next : Nat → UInt8) : List UInt8 :=
  let dest := encodeLoop next data
  let k := dest.length
  if data.length % 3 = 1 then (dest.set (k - 2) equals).set (k - 1) equals
  else if data.length % 3 = 2 then dest.set (k - 1) equals
  else dest

def strlen (s : List UInt8) : Nat := (s.takeWhile (· ≠ 0)).length

/-- What `encode` returns. -/
def encodeResult (data : List UInt8) (next : Nat → UInt8) : Nat := strlen (encode data next ++ [0])

/-- A value of type `int`. -/
def int (x : Int) : Int := x.bmod (2 ^ 32)

def esize (nbyte : Int) : Int := ((int (int (nbyte * 4) + 2)).tdiv 3 + 3).tdiv 4 * 4

/-- The bytes of four characters. -/
def decodeFour (a b c d : UInt8) : List UInt8 :=
  let e := base64DecodeEigth
  [(e a <<< 2) ||| (e b >>> 4), (e b <<< 4) ||| (e c >>> 2), (e c <<< 6) ||| e d]

/-- The bytes that `decode` writes; `next` is what follows the characters in memory. -/
def decode (next : Nat → UInt8) : List UInt8 → List UInt8
  | [] => []
  | [a] => decodeFour a (next 0) (next 1) (next 2)
  | [a, b] => decodeFour a b (next 0) (next 1)
  | [a, b, c] => decodeFour a b c (next 0)
  | a :: b :: c :: d :: src => decodeFour a b c d ++ decode next src

/-! ### RFC 4648 -/

def alphabet : List Char := "ABCDEFGHIJKLMNOPQRSTUVWXYZabcdefghijklmnopqrstuvwxyz0123456789+/".toList

def symbol (n : Nat) : UInt8 := (alphabet.getD n '=').toUInt8

/-- The 24 bits of a group. -/
def quantum (a b c : UInt8) : Nat := a.toNat * 2 ^ 16 + b.toNat * 2 ^ 8 + c.toNat

/-- The text of RFC 4648: bits of zero are added to the last group, and `=` stands for what has none of its bits. -/
def rfc4648 : List UInt8 → List UInt8
  | [] => []
  | [a] => [symbol (quantum a 0 0 / 2 ^ 18), symbol (quantum a 0 0 / 2 ^ 12 % 64), equals, equals]
  | [a, b] =>
    [symbol (quantum a b 0 / 2 ^ 18), symbol (quantum a b 0 / 2 ^ 12 % 64), symbol (quantum a b 0 / 2 ^ 6 % 64), equals]
  | a :: b :: c :: data =>
    [symbol (quantum a b c / 2 ^ 18), symbol (quantum a b c / 2 ^ 12 % 64), symbol (quantum a b c / 2 ^ 6 % 64),
      symbol (quantum a b c % 64)] ++ rfc4648 data

/-- The contract of the two functions. -/
structure Faithful (data : List UInt8) (next : Nat → UInt8) : Prop where
  roundTrip : ∀ after, (decode after (encode data next)).take data.length = data
  size : (encodeResult data next : Int) = esize data.length
  text : encode data next = rfc4648 data

/-- What follows the bytes in memory has zeros where the last group lacks bits. -/
def PaddedWithZeros (data : List UInt8) (next : Nat → UInt8) : Prop :=
  (data.length % 3 = 1 → (next 0).toNat < 16) ∧ (data.length % 3 = 2 → (next 0).toNat < 64)

/-! ### Characters -/

/-- The sixty-four characters. -/
theorem encodeSix_ofNat : ∀ n : Fin 64,
    base64EncodeSix (UInt8.ofNat n) = symbol n ∧
      (base64DecodeEigth (base64EncodeSix (UInt8.ofNat n))).toNat = n ∧
      base64EncodeSix (UInt8.ofNat n) ≠ 0 := by
  decide +kernel

theorem encodeSix_eq {x : UInt8} (h : x.toNat < 64) : base64EncodeSix x = symbol x.toNat := by
  obtain ⟨hx, -⟩ := encodeSix_ofNat ⟨x.toNat, h⟩
  rwa [UInt8.ofNat_toNat] at hx

theorem symbol_eq {n : Nat} (h : n < 64) : symbol n = base64EncodeSix (UInt8.ofNat n) := by
  have hn : (UInt8.ofNat n).toNat = n := UInt8.toNat_ofNat_of_lt (Nat.lt_trans h (by decide))
  rw [encodeSix_eq (hn.symm ▸ h), hn]

theorem decodeEigth_symbol {n : Nat} (h : n < 64) : (base64DecodeEigth (symbol n)).toNat = n := by
  obtain ⟨-, hback, -⟩ := encodeSix_ofNat ⟨n, h⟩
  rw [symbol_eq h]
  exact hback

theorem symbol_ne_zero {n : Nat} (h : n < 64) : symbol n ≠ 0 := by
  obtain ⟨-, -, hzero⟩ := encodeSix_ofNat ⟨n, h⟩
  rw [symbol_eq h]
  exact hzero

theorem symbol_inj {m n : Nat} (hm : m < 64) (hn : n < 64) : symbol m = symbol n ↔ m = n := by
  constructor
  · intro h
    rw [← decodeEigth_symbol hm, h, decodeEigth_symbol hn]
  · exact congrArg symbol

section

variable (a b c : UInt8)

/-- The fields of a byte that go into characters. -/
theorem toNat_fields :
    ((a >>> (2 : UInt8)) &&& 0x3F).toNat = a.toNat / 4 ∧ ((a <<< (4 : UInt8)) &&& 0x30).toNat = a.toNat % 4 * 16 ∧
      ((a >>> (4 : UInt8)) &&& 0x0F).toNat = a.toNat / 16 ∧ ((a <<< (2 : UInt8)) &&& 0x3C).toNat = a.toNat % 16 * 4 ∧
      ((a >>> (6 : UInt8)) &&& 0x03).toNat = a.toNat / 64 ∧ (a &&& 0x3F).toNat = a.toNat % 64 := by
  have ha := a.toNat_lt
  refine ⟨?_, ?_, ?_, ?_, ?_, ?_⟩
  · rw [toNat_and_mask (m := 6) (k := 0) _ rfl, toNat_shr (n := 2) a rfl]
    omega
  · rw [toNat_and_mask (m := 2) (k := 4) _ rfl, toNat_shl (n := 4) a rfl]
    omega
  · rw [toNat_and_mask (m := 4) (k := 0) _ rfl, toNat_shr (n := 4) a rfl]
    omega
  · rw [toNat_and_mask (m := 4) (k := 2) _ rfl, toNat_shl (n := 2) a rfl]
    omega
  · rw [toNat_and_mask (m := 2) (k := 0) _ rfl, toNat_shr (n := 6) a rfl]
    omega
  · rw [toNat_and_mask (m := 6) (k := 0) _ rfl]
    omega

/-- The sextets of a group, and the bytes they come from. -/
theorem quantum_sextets :
    quantum a b c / 2 ^ 18 = a.toNat / 4 ∧ quantum a b c / 2 ^ 12 % 64 = a.toNat % 4 * 16 + b.toNat / 16 ∧
      quantum a b c / 2 ^ 6 % 64 = b.toNat % 16 * 4 + c.toNat / 64 ∧ quantum a b c % 64 = c.toNat % 64 := by
  have ha := a.toNat_lt
  have hb := b.toNat_lt
  have hc := c.toNat_lt
  unfold quantum
  refine ⟨?_, ?_, ?_, ?_⟩
  all_goals omega

/-- The characters of a group are those of its quantum. -/
theorem map_sixBits : (sixBits a b c).map base64EncodeSix =
    [symbol (quantum a b c / 2 ^ 18), symbol (quantum a b c / 2 ^ 12 % 64), symbol (quantum a b c / 2 ^ 6 % 64),
      symbol (quantum a b c % 64)] := by
  have ha := a.toNat_lt
  have hb := b.toNat_lt
  have hc := c.toNat_lt
  obtain ⟨h₀, aLow, -, -, -, -⟩ := toNat_fields a
  obtain ⟨-, -, bHigh, bLow, -, -⟩ := toNat_fields b
  obtain ⟨-, -, -, -, cHigh, h₃⟩ := toNat_fields c
  have h₁ : (((a <<< (4 : UInt8)) &&& 0x30) + ((b >>> (4 : UInt8)) &&& 0x0F)).toNat = a.toNat % 4 * 16 + b.toNat / 16 := by
    rw [UInt8.toNat_add, aLow, bHigh]
    omega
  have h₂ : (((b <<< (2 : UInt8)) &&& 0x3C) + ((c >>> (6 : UInt8)) &&& 0x03)).toNat = b.toNat % 16 * 4 + c.toNat / 64 := by
    rw [UInt8.toNat_add, bLow, cHigh]
    omega
  obtain ⟨q₀, q₁, q₂, q₃⟩ := quantum_sextets a b c
  simp only [sixBits, List.map_cons, List.map_nil, q₀, q₁, q₂, q₃]
  rw [encodeSix_eq (by omega), encodeSix_eq (by omega), encodeSix_eq (by omega), encodeSix_eq (by omega), h₀, h₁, h₂, h₃]

end

/-! ### The text -/

variable {next after : Nat → UInt8} {a b c : UInt8} {data : List UInt8}

theorem length_encodeLoop (data : List UInt8) : (encodeLoop next data).length = (data.length + 2) / 3 * 4 := by
  induction data using encodeLoop.induct with
  | case1 => rfl
  | case2 a =>
    rw [encodeLoop, List.length_map]
    simp [sixBits]
  | case3 a b =>
    rw [encodeLoop, List.length_map]
    simp [sixBits]
  | case4 a b c data ih =>
    rw [encodeLoop, List.length_append, ih, List.length_map]
    show 4 + _ = (data.length + 3 + 2) / 3 * 4
    omega

theorem length_encode (data : List UInt8) : (encode data next).length = (data.length + 2) / 3 * 4 := by
  have hlength : (encodeLoop next data).length = (data.length + 2) / 3 * 4 := length_encodeLoop data
  rw [← hlength]
  unfold encode
  dsimp only
  split_ifs
  · rw [List.length_set, List.length_set]
  · rw [List.length_set]
  · rfl

/-- The characters of the last group are replaced, and those of the others are not. -/
theorem encode_cons (a b c : UInt8) (data : List UInt8) :
    encode (a :: b :: c :: data) next = (sixBits a b c).map base64EncodeSix ++ encode data next := by
  have hlength : (encodeLoop next data).length = (data.length + 2) / 3 * 4 := length_encodeLoop data
  have hmod : (a :: b :: c :: data).length % 3 = data.length % 3 := by
    show (data.length + 3) % 3 = _
    omega
  have hset : ∀ (xs : List UInt8) (i : Nat), i ≤ xs.length → 0 < xs.length →
      ((sixBits a b c).map base64EncodeSix ++ xs).set (((sixBits a b c).map base64EncodeSix ++ xs).length - i) equals =
        (sixBits a b c).map base64EncodeSix ++ xs.set (xs.length - i) equals := by
    intro xs i hi hpos
    have hfour : ((sixBits a b c).map base64EncodeSix).length = 4 := rfl
    rw [List.length_append, hfour, List.set_append_right _ _ (by rw [hfour]; omega), hfour]
    congr 2
    omega
  unfold encode
  rw [hmod, encodeLoop]
  dsimp only
  split_ifs with hone htwo
  · rw [hset _ 2 (by omega) (by omega)]
    have hagain := hset ((encodeLoop next data).set ((encodeLoop next data).length - 2) equals) 1
    rw [List.length_append, List.length_set, ← List.length_append] at hagain
    exact hagain (by omega) (by omega)
  · exact hset _ 1 (by omega) (by omega)
  · rfl

theorem encode_one (a : UInt8) : encode [a] next =
    [symbol (quantum a (next 0) (next 1) / 2 ^ 18), symbol (quantum a (next 0) (next 1) / 2 ^ 12 % 64), equals, equals] := by
  show ((((sixBits a (next 0) (next 1)).map base64EncodeSix).set 2 equals).set 3 equals) = _
  rw [map_sixBits]
  rfl

theorem encode_two (a b : UInt8) : encode [a, b] next =
    [symbol (quantum a b (next 0) / 2 ^ 18), symbol (quantum a b (next 0) / 2 ^ 12 % 64),
      symbol (quantum a b (next 0) / 2 ^ 6 % 64), equals] := by
  show (((sixBits a b (next 0)).map base64EncodeSix).set 3 equals) = _
  rw [map_sixBits]
  rfl

theorem quantum_lt (a b c : UInt8) : quantum a b c / 2 ^ 18 < 64 := by
  have ha := a.toNat_lt
  rw [(quantum_sextets a b c).1]
  omega

theorem encode_eq_rfc4648_iff (data : List UInt8) : encode data next = rfc4648 data ↔ PaddedWithZeros data next := by
  induction data using rfc4648.induct with
  | case1 => exact ⟨fun _ => ⟨fun h => by simp at h, fun h => by simp at h⟩, fun _ => rfl⟩
  | case2 a =>
    have hzero : (0 : UInt8).toNat = 0 := rfl
    obtain ⟨q₀, q₁, -, -⟩ := quantum_sextets a (next 0) (next 1)
    obtain ⟨z₀, z₁, -, -⟩ := quantum_sextets a 0 0
    rw [encode_one, rfc4648]
    simp only [List.cons.injEq, and_true, symbol_inj (quantum_lt _ _ _) (quantum_lt _ _ _),
      symbol_inj (Nat.mod_lt _ (by decide : 0 < 64)) (Nat.mod_lt _ (by decide : 0 < 64))]
    simp only [q₀, q₁, z₀, z₁, hzero]
    constructor
    · rintro ⟨-, h⟩
      exact ⟨fun _ => by omega, fun hmod => absurd hmod (by simp)⟩
    · intro h
      have hlt := h.1 rfl
      exact ⟨trivial, by omega⟩
  | case3 a b =>
    have hzero : (0 : UInt8).toNat = 0 := rfl
    obtain ⟨q₀, q₁, q₂, -⟩ := quantum_sextets a b (next 0)
    obtain ⟨z₀, z₁, z₂, -⟩ := quantum_sextets a b 0
    rw [encode_two, rfc4648]
    simp only [List.cons.injEq, and_true, symbol_inj (quantum_lt _ _ _) (quantum_lt _ _ _),
      symbol_inj (Nat.mod_lt _ (by decide : 0 < 64)) (Nat.mod_lt _ (by decide : 0 < 64))]
    simp only [q₀, q₁, q₂, z₀, z₁, z₂, hzero]
    constructor
    · rintro ⟨-, -, h⟩
      exact ⟨fun hmod => absurd hmod (by simp), fun _ => by omega⟩
    · intro h
      have hlt := h.2 rfl
      exact ⟨trivial, trivial, by omega⟩
  | case4 a b c data ih =>
    rw [encode_cons, rfc4648, map_sixBits, List.append_cancel_left_eq, ih]
    unfold PaddedWithZeros
    have hmod : (a :: b :: c :: data).length % 3 = data.length % 3 := by
      show (data.length + 3) % 3 = _
      omega
    rw [hmod]

/-! ### The size -/

theorem encode_ne_zero (data : List UInt8) : ∀ x ∈ encode data next, x ≠ 0 := by
  have hgroup : ∀ (a b c : UInt8), ∀ x ∈ (sixBits a b c).map base64EncodeSix, x ≠ 0 := by
    intro a b c x hx
    rw [map_sixBits] at hx
    simp only [List.mem_cons, List.not_mem_nil, or_false] at hx
    rcases hx with rfl | rfl | rfl | rfl
    · exact symbol_ne_zero (quantum_lt a b c)
    all_goals exact symbol_ne_zero (Nat.mod_lt _ (by decide))
  have hloop : ∀ x ∈ encodeLoop next data, x ≠ 0 := by
    induction data using encodeLoop.induct with
    | case1 => exact fun x hx => absurd hx List.not_mem_nil
    | case2 a => exact hgroup a _ _
    | case3 a b => exact hgroup a b _
    | case4 a b c data ih =>
      intro x hx
      rcases List.mem_append.mp hx with hx | hx
      · exact hgroup a b c x hx
      · exact ih x hx
  have hset : ∀ (xs : List UInt8) (i : Nat), (∀ x ∈ xs, x ≠ 0) → ∀ x ∈ xs.set i equals, x ≠ 0 := by
    intro xs i hxs x hx
    rcases List.mem_or_eq_of_mem_set hx with hx | rfl
    · exact hxs x hx
    · decide
  unfold encode
  dsimp only
  split_ifs
  · exact hset _ _ (hset _ _ hloop)
  · exact hset _ _ hloop
  · exact hloop

theorem encodeResult_eq (data : List UInt8) : encodeResult data next = (data.length + 2) / 3 * 4 := by
  unfold encodeResult strlen
  rw [List.takeWhile_append_of_pos fun x hx => decide_eq_true (encode_ne_zero data x hx)]
  simp [length_encode]

theorem int_eq {x : Int} (hle : -2 ^ 31 ≤ x) (hlt : x < 2 ^ 31) : int x = x :=
  Int.bmod_eq_of_le (by omega) (by omega)

theorem int_lt (x : Int) : ∃ m : Int, int x = x - 2 ^ 32 * m ∧ int x < 2 ^ 31 :=
  ⟨Int.bdiv x (2 ^ 32), by have h := Int.bmod_add_bdiv x (2 ^ 32); unfold int; omega,
    Int.bmod_lt (by decide)⟩

/-- The sum of `esize` goes round when it reaches half of `2 ^ 32`. -/
theorem encodeResult_eq_esize_iff (data : List UInt8) :
    (encodeResult data next : Int) = esize data.length ↔ data.length < 2 ^ 29 := by
  rw [encodeResult_eq]
  unfold esize
  constructor
  · intro h
    by_contra hlong
    obtain ⟨m, hm, -⟩ := int_lt ((data.length : Int) * 4)
    obtain ⟨m', hm', hlt⟩ := int_lt (int ((data.length : Int) * 4) + 2)
    generalize int (int ((data.length : Int) * 4) + 2) = x at hm' hlt h
    have hx : x ≤ (data.length : Int) * 4 + 2 - 2 ^ 32 := by omega
    have htdiv : ∀ (y : Int) (k : Nat), y.tdiv k = y / k ∨ y.tdiv k ≤ 0 := by
      intro y k
      rcases Int.lt_or_le y 0 with hneg | hpos
      · right
        have hnonneg : 0 ≤ (-y).tdiv k := Int.tdiv_nonneg (by omega) (Int.natCast_nonneg k)
        rw [Int.neg_tdiv] at hnonneg
        omega
      · exact .inl (Int.tdiv_eq_ediv_of_nonneg hpos)
    have hthird : x.tdiv 3 = x / 3 ∨ x.tdiv 3 ≤ 0 := htdiv x 3
    have hfourth : (x.tdiv 3 + 3).tdiv 4 = (x.tdiv 3 + 3) / 4 ∨ (x.tdiv 3 + 3).tdiv 4 ≤ 0 := htdiv _ 4
    have hbound : (x.tdiv 3 + 3).tdiv 4 * 4 * 3 ≤ (data.length : Int) * 4 + 2 - 2 ^ 32 + 9 ∨
        (x.tdiv 3 + 3).tdiv 4 * 4 ≤ 3 := by
      clear h hm hm' hlt htdiv
      omega
    have hlength : (data.length : Int) ≤ (data.length + 2) / 3 * 3 := by omega
    omega
  · intro hlt
    have hproduct : int ((data.length : Int) * 4) = (data.length : Int) * 4 := int_eq (by omega) (by omega)
    rw [hproduct, int_eq (by omega) (by omega)]
    have hthird : ((data.length : Int) * 4 + 2).tdiv 3 = ((data.length : Int) * 4 + 2) / 3 :=
      Int.tdiv_eq_ediv_of_nonneg (by omega)
    rw [hthird, Int.tdiv_eq_ediv_of_nonneg (by omega)]
    omega

/-! ### The way back -/

theorem decodeEigth_lt (x : UInt8) : (base64DecodeEigth x).toNat < 64 := by
  rw [base64DecodeEigth]
  split_ifs with hupper hlower hdigit hplus hslash
  · have h₁ := UInt8.le_iff_toNat_le.mp hupper.2
    rw [UInt8.toNat_sub_of_le _ _ hupper.1]
    simp at h₁ ⊢
    omega
  · have h₁ := UInt8.le_iff_toNat_le.mp hlower.2
    rw [UInt8.toNat_add, UInt8.toNat_sub_of_le _ _ hlower.1]
    simp at h₁ ⊢
    omega
  · have h₀ := UInt8.le_iff_toNat_le.mp hdigit.1
    have h₁ := UInt8.le_iff_toNat_le.mp hdigit.2
    rw [UInt8.toNat_add, UInt8.toNat_sub_of_le _ _ hdigit.1]
    simp at h₀ h₁ ⊢
    omega
  all_goals decide

/-- The bytes of four characters are made of the fields of the characters. -/
theorem decodeFour_eq {x y z w : UInt8} {k l m n : Nat} (hx : (base64DecodeEigth x).toNat = k)
    (hy : (base64DecodeEigth y).toNat = l) (hz : (base64DecodeEigth z).toNat = m) (hw : (base64DecodeEigth w).toNat = n) :
    (decodeFour x y z w).map UInt8.toNat = [k * 4 + l / 16, l % 16 * 16 + m / 4, m % 4 * 64 + n] := by
  have hxlt := decodeEigth_lt x
  have hylt := decodeEigth_lt y
  have hzlt := decodeEigth_lt z
  have hwlt := decodeEigth_lt w
  have hhigh : ((base64DecodeEigth y) >>> (4 : UInt8)).toNat = l / 16 := by
    rw [UInt8.toNat_shiftRight, hy, Nat.shiftRight_eq_div_pow]
    rfl
  have hmiddle : ((base64DecodeEigth z) >>> (2 : UInt8)).toNat = m / 4 := by
    rw [UInt8.toNat_shiftRight, hz, Nat.shiftRight_eq_div_pow]
    rfl
  have h₀ := toNat_shiftLeft_or (base64DecodeEigth x) (base64DecodeEigth y >>> 4) (k := 2) (by decide)
    (by rw [hhigh]; show l / 16 < 4; omega)
  have h₁ := toNat_shiftLeft_or (base64DecodeEigth y) (base64DecodeEigth z >>> 2) (k := 4) (by decide)
    (by rw [hmiddle]; show m / 4 < 16; omega)
  have h₂ := toNat_shiftLeft_or (base64DecodeEigth z) (base64DecodeEigth w) (k := 6) (by decide) (by exact hwlt)
  rw [hhigh, hx] at h₀
  rw [hmiddle, hy] at h₁
  rw [hw, hz] at h₂
  simp only [decodeFour, List.map_cons, List.map_nil, h₀, h₁, h₂, List.cons.injEq, and_true]
  refine ⟨?_, rfl, rfl⟩
  show k % 64 * 4 + l / 16 = _
  rw [Nat.mod_eq_of_lt (by omega)]

/-- The first bytes that are decoded are those of the text, whatever follows it and them. -/
theorem take_decode_encode (data : List UInt8) : (decode after (encode data next)).take data.length = data := by
  have hinj : ∀ {xs ys : List UInt8}, xs.map UInt8.toNat = ys.map UInt8.toNat → xs = ys :=
    fun h => (List.map_inj_right fun _ _ => UInt8.toNat_inj.mp).mp h
  have hequals : (base64DecodeEigth equals).toNat = 0 := by decide
  have hlt : ∀ n, n % 64 < 64 := fun n => Nat.mod_lt _ (by decide)
  induction data using rfc4648.induct with
  | case1 => rfl
  | case2 a =>
    obtain ⟨q₀, q₁, -, -⟩ := quantum_sextets a (next 0) (next 1)
    rw [encode_one]
    apply hinj
    show ((decodeFour _ _ _ _).take 1).map UInt8.toNat = [a.toNat]
    rw [List.map_take, decodeFour_eq (decodeEigth_symbol (quantum_lt _ _ _)) (decodeEigth_symbol (hlt _)) hequals hequals,
      q₀, q₁]
    -- one byte: the bits of the second symbol that are used are those of `a`
    show [a.toNat / 4 * 4 + (a.toNat % 4 * 16 + (next 0).toNat / 16) / 16] = [a.toNat]
    have hx := (next 0).toNat_lt
    congr 1
    omega
  | case3 a b =>
    have hb := b.toNat_lt
    have hx := (next 0).toNat_lt
    obtain ⟨q₀, q₁, q₂, -⟩ := quantum_sextets a b (next 0)
    rw [encode_two]
    apply hinj
    show ((decodeFour _ _ _ _).take 2).map UInt8.toNat = [a.toNat, b.toNat]
    rw [List.map_take, decodeFour_eq (decodeEigth_symbol (quantum_lt _ _ _)) (decodeEigth_symbol (hlt _))
      (decodeEigth_symbol (hlt _)) hequals, q₀, q₁, q₂]
    -- two bytes: what follows them is cut off
    simp only [List.take_succ_cons, List.take_zero, List.cons.injEq, and_true]
    omega
  | case4 a b c data ih =>
    have hb := b.toNat_lt
    have hc := c.toNat_lt
    obtain ⟨q₀, q₁, q₂, q₃⟩ := quantum_sextets a b c
    -- three bytes are decoded whole
    rw [encode_cons, map_sixBits]
    have hgroup : decodeFour (symbol (quantum a b c / 2 ^ 18)) (symbol (quantum a b c / 2 ^ 12 % 64))
        (symbol (quantum a b c / 2 ^ 6 % 64)) (symbol (quantum a b c % 64)) = [a, b, c] := by
      apply hinj
      rw [decodeFour_eq (decodeEigth_symbol (quantum_lt _ _ _)) (decodeEigth_symbol (hlt _))
        (decodeEigth_symbol (hlt _)) (decodeEigth_symbol (hlt _)), q₀, q₁, q₂, q₃]
      simp only [List.map_cons, List.map_nil, List.cons.injEq, and_true]
      omega
    show ((decodeFour _ _ _ _) ++ decode after (encode data next)).take (data.length + 3) = _
    rw [hgroup]
    show a :: b :: c :: (decode after (encode data next)).take data.length = _
    rw [ih]

/-- The text is that of RFC 4648 when the bytes come in groups of three, or zeros follow them. -/
theorem faithful_iff (data : List UInt8) (next : Nat → UInt8) :
    Faithful data next ↔ data.length < 2 ^ 29 ∧ PaddedWithZeros data next := by
  constructor
  · intro h
    exact ⟨(encodeResult_eq_esize_iff data).mp h.size, (encode_eq_rfc4648_iff data).mp h.text⟩
  · rintro ⟨hlength, hpadded⟩
    exact {
      roundTrip := fun _ => take_decode_encode data
      size := (encodeResult_eq_esize_iff data).mpr hlength
      text := (encode_eq_rfc4648_iff data).mpr hpadded }

/-- The letter `a` and what follows it: the bits of the second byte are in the text. -/
theorem not_faithful : ¬∀ (data : List UInt8) (next : Nat → UInt8), Faithful data next := by
  intro h
  have htext := (h [97] fun _ => 98).text
  exact absurd htext (by decide)

end Base64

end CoActionOS
