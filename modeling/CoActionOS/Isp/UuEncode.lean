import CoActionOS.Lib.Bytes
import Mathlib.Data.Nat.Digits.Defs

/-!
# Lines of text

`uu_encode.c`: up to 45 bytes go into a line, three bytes into four characters, behind a character for the number
of bytes.  Beside it the numbers that `sprintf` writes for the sum of a block.
-/

namespace CoActionOS

namespace Isp

open Bytes (toNat_and_mask toNat_shl toNat_shr)

/-! ### Characters -/

/-- `uu_encode_char6` -/
def uuEncodeChar6 (b : UInt8) : UInt8 :=
  let out := (b &&& 0x3F) + 0x20
  if out = 0x20 then 0x60 else out

/-- `uu_decode_char8` -/
def uuDecodeChar8 (b : UInt8) : UInt8 := (b - 0x20) &&& 0x3F

/-- `uu_encode_word24` -/
def uuEncodeWord24 (a b c : UInt8) : List UInt8 :=
  [uuEncodeChar6 ((a &&& 0xFC) >>> 2),
    uuEncodeChar6 (((a &&& 0x03) <<< 4) + ((b &&& 0xF0) >>> 4)),
    uuEncodeChar6 (((b &&& 0x0F) <<< 2) + ((c &&& 0xC0) >>> 6)),
    uuEncodeChar6 (c &&& 0x3F)]

/-- `uu_decode_word24` -/
def uuDecodeWord24 (a b c d : UInt8) : List UInt8 :=
  [((uuDecodeChar8 a &&& 0x3F) <<< 2) + ((uuDecodeChar8 b &&& 0x30) >>> 4),
    ((uuDecodeChar8 b &&& 0x0F) <<< 4) + ((uuDecodeChar8 c &&& 0x3C) >>> 2),
    ((uuDecodeChar8 c &&& 0x03) <<< 6) + (uuDecodeChar8 d &&& 0x3F)]

/-! ### Lines -/

/-- The loop of `uu_encode_line`, over a copy of the bytes that zeros follow. -/
def uuEncodeWords : List UInt8 → List UInt8
  | [] => []
  | [a] => uuEncodeWord24 a 0 0
  | [a, b] => uuEncodeWord24 a b 0
  | a :: b :: c :: bs => uuEncodeWord24 a b c ++ uuEncodeWords bs

/-- The first character of a line. -/
def lengthChar (n : Nat) : UInt8 := (UInt8.ofNat n &&& 0x3F) + 0x20

/-- `uu_encode_line` -/
def uuEncodeLine (bs : List UInt8) : List UInt8 :=
  lengthChar bs.length :: (uuEncodeWords bs ++ [13, 10])

/-- The bytes that whole groups of four characters stand for. -/
def uuDecodeWords : List UInt8 → List UInt8
  | a :: b :: c :: d :: cs => uuDecodeWord24 a b c d ++ uuDecodeWords cs
  | _ => []

/-- What a line stands for: as many bytes as its first character says. -/
def lineBytes : List UInt8 → List UInt8
  | [] => []
  | c :: cs => (uuDecodeWords cs).take (uuDecodeChar8 c).toNat

/-- The groups that `n` bytes need. -/
def groups (n : Nat) : Nat := (n + 2) / 3

/-! ### Sums -/

/-- `"%d"` -/
def decimal (n : Nat) : List UInt8 :=
  if n = 0 then [48] else (Nat.digits 10 n).reverse.map fun d => UInt8.ofNat (48 + d)

/-- The sum of the bytes. -/
def byteSum (bs : List UInt8) : Nat := (bs.map UInt8.toNat).sum

/-! ### A line stands for the bytes it was made of -/

/-- The characters without the one for zero. -/
theorem toNat_lowSix (b : UInt8) : ((b &&& 0x3F) + 0x20).toNat = b.toNat % 64 + 0x20 := by
  rw [UInt8.toNat_add, toNat_and_mask (m := 6) (k := 0) b rfl]
  simp
  omega

theorem toNat_encodeChar6 (b : UInt8) :
    (uuEncodeChar6 b).toNat = if b.toNat % 64 = 0 then 0x60 else b.toNat % 64 + 0x20 := by
  have hblank : (b &&& 0x3F) + 0x20 = 0x20 ↔ b.toNat % 64 = 0 := by
    rw [← UInt8.toNat_inj, toNat_lowSix]
    simp
  simp only [uuEncodeChar6, hblank]
  split_ifs
  · rfl
  · exact toNat_lowSix b

theorem uuDecodeChar8_encode {b : UInt8} (h : b.toNat < 64) : uuDecodeChar8 (uuEncodeChar6 b) = b := by
  apply UInt8.toNat_inj.mp
  rw [uuDecodeChar8, toNat_and_mask (m := 6) (k := 0) _ rfl, UInt8.toNat_sub, toNat_encodeChar6]
  simp
  split_ifs <;> omega

/-- No character of a line is below the blank. -/
theorem blank_lt_encode (b : UInt8) : 0x20 < (uuEncodeChar6 b).toNat := by
  rw [toNat_encodeChar6]
  split_ifs <;> omega

section

variable (a b c : UInt8)

/-- The fields of a byte that go into characters. -/
theorem toNat_encodeFields :
    ((a &&& 0xFC) >>> 2).toNat = a.toNat / 4 ∧ ((a &&& 0x03) <<< 4).toNat = a.toNat % 4 * 16 ∧
      ((a &&& 0xF0) >>> 4).toNat = a.toNat / 16 ∧ ((a &&& 0x0F) <<< 2).toNat = a.toNat % 16 * 4 ∧
      ((a &&& 0xC0) >>> 6).toNat = a.toNat / 64 ∧ (a &&& 0x3F).toNat = a.toNat % 64 := by
  have ha := a.toNat_lt
  refine ⟨?_, ?_, ?_, ?_, ?_, ?_⟩
  · rw [toNat_shr (n := 2) _ rfl, toNat_and_mask (m := 6) (k := 2) a rfl]
    omega
  · rw [toNat_shl (n := 4) _ rfl, toNat_and_mask (m := 2) (k := 0) a rfl]
    omega
  · rw [toNat_shr (n := 4) _ rfl, toNat_and_mask (m := 4) (k := 4) a rfl]
    omega
  · rw [toNat_shl (n := 2) _ rfl, toNat_and_mask (m := 4) (k := 0) a rfl]
    omega
  · rw [toNat_shr (n := 6) _ rfl, toNat_and_mask (m := 2) (k := 6) a rfl]
    omega
  · rw [toNat_and_mask (m := 6) (k := 0) a rfl]
    omega

/-- The fields of a character that bytes are made of. -/
theorem toNat_decodeFields :
    ((a &&& 0x3F) <<< 2).toNat = a.toNat % 64 * 4 ∧ ((a &&& 0x30) >>> 4).toNat = a.toNat % 64 / 16 ∧
      ((a &&& 0x0F) <<< 4).toNat = a.toNat % 16 * 16 ∧ ((a &&& 0x3C) >>> 2).toNat = a.toNat % 64 / 4 ∧
      ((a &&& 0x03) <<< 6).toNat = a.toNat % 4 * 64 := by
  have ha := a.toNat_lt
  refine ⟨?_, ?_, ?_, ?_, ?_⟩
  · rw [toNat_shl (n := 2) _ rfl, toNat_and_mask (m := 6) (k := 0) a rfl]
    omega
  · rw [toNat_shr (n := 4) _ rfl, toNat_and_mask (m := 2) (k := 4) a rfl]
    omega
  · rw [toNat_shl (n := 4) _ rfl, toNat_and_mask (m := 4) (k := 0) a rfl]
    omega
  · rw [toNat_shr (n := 2) _ rfl, toNat_and_mask (m := 4) (k := 2) a rfl]
    omega
  · rw [toNat_shl (n := 6) _ rfl, toNat_and_mask (m := 2) (k := 0) a rfl]
    omega

theorem first_regroup {m n : Nat} (hm : m < 256) (hn : n < 256) :
    (m / 4 % 64 * 4 + (m % 4 * 16 + n / 16) % 64 / 16) % 256 = m := by
  have hlow : (m % 4 * 16 + n / 16) % 64 / 16 = m % 4 := by omega
  omega

/-- Four characters stand for the three bytes they were made of. -/
theorem uuDecodeWords_encode (cs : List UInt8) :
    uuDecodeWords (uuEncodeWord24 a b c ++ cs) = a :: b :: c :: uuDecodeWords cs := by
  have ha := a.toNat_lt
  have hb := b.toNat_lt
  have hc := c.toNat_lt
  obtain ⟨h₀, aLow, -, -, -, -⟩ := toNat_encodeFields a
  obtain ⟨-, -, bHigh, bLow, -, -⟩ := toNat_encodeFields b
  obtain ⟨-, -, -, -, cHigh, h₃⟩ := toNat_encodeFields c
  have h₁ : (((a &&& 0x03) <<< 4) + ((b &&& 0xF0) >>> 4)).toNat = a.toNat % 4 * 16 + b.toNat / 16 := by
    rw [UInt8.toNat_add, aLow, bHigh]
    omega
  have h₂ : (((b &&& 0x0F) <<< 2) + ((c &&& 0xC0) >>> 6)).toNat = b.toNat % 16 * 4 + c.toNat / 64 := by
    rw [UInt8.toNat_add, bLow, cHigh]
    omega
  show uuDecodeWord24 _ _ _ _ ++ uuDecodeWords cs = _
  unfold uuDecodeWord24
  rw [uuDecodeChar8_encode (by omega), uuDecodeChar8_encode (by omega), uuDecodeChar8_encode (by omega),
    uuDecodeChar8_encode (by omega)]
  generalize (a &&& 0xFC) >>> 2 = x₀ at h₀ ⊢
  generalize ((a &&& 0x03) <<< 4) + ((b &&& 0xF0) >>> 4) = x₁ at h₁ ⊢
  generalize ((b &&& 0x0F) <<< 2) + ((c &&& 0xC0) >>> 6) = x₂ at h₂ ⊢
  generalize c &&& 0x3F = x₃ at h₃ ⊢
  obtain ⟨d₀, -, -, -, -⟩ := toNat_decodeFields x₀
  obtain ⟨-, u₁, l₁, -, -⟩ := toNat_decodeFields x₁
  obtain ⟨-, -, -, u₂, l₂⟩ := toNat_decodeFields x₂
  obtain ⟨-, -, -, -, -, d₃⟩ := toNat_encodeFields x₃
  have ha' : ((x₀ &&& 0x3F) <<< 2) + ((x₁ &&& 0x30) >>> 4) = a := by
    apply UInt8.toNat_inj.mp
    rw [UInt8.toNat_add, d₀, u₁, h₀, h₁]
    exact first_regroup ha hb
  have hb' : ((x₁ &&& 0x0F) <<< 4) + ((x₂ &&& 0x3C) >>> 2) = b := by
    apply UInt8.toNat_inj.mp
    rw [UInt8.toNat_add, l₁, u₂]
    omega
  have hc' : ((x₂ &&& 0x03) <<< 6) + (x₃ &&& 0x3F) = c := by
    apply UInt8.toNat_inj.mp
    rw [UInt8.toNat_add, l₂, d₃]
    omega
  rw [ha', hb', hc']
  rfl

end

theorem take_uuDecodeWords (bs : List UInt8) : (uuDecodeWords (uuEncodeWords bs ++ [13, 10])).take bs.length = bs := by
  induction bs using uuEncodeWords.induct with
  | case1 => rfl
  | case2 a =>
    rw [uuEncodeWords, uuDecodeWords_encode]
    rfl
  | case3 a b =>
    rw [uuEncodeWords, uuDecodeWords_encode]
    rfl
  | case4 a b c bs ih =>
    rw [uuEncodeWords, List.append_assoc, uuDecodeWords_encode]
    show a :: b :: c :: List.take bs.length _ = _
    rw [ih]

theorem length_uuEncodeWords (bs : List UInt8) : (uuEncodeWords bs).length = 4 * groups bs.length := by
  induction bs using uuEncodeWords.induct with
  | case1 => rfl
  | case2 a =>
    rw [uuEncodeWords]
    simp [uuEncodeWord24, groups]
  | case3 a b =>
    rw [uuEncodeWords]
    simp [uuEncodeWord24, groups]
  | case4 a b c bs ih =>
    rw [uuEncodeWords, List.length_append, ih]
    show 4 + 4 * groups bs.length = 4 * groups (bs.length + 3)
    unfold groups
    omega

theorem mem_uuEncodeWords {bs : List UInt8} {c : UInt8} (h : c ∈ uuEncodeWords bs) : 0x20 < c.toNat := by
  have hword (a b d : UInt8) (h : c ∈ uuEncodeWord24 a b d) : 0x20 < c.toNat := by
    unfold uuEncodeWord24 at h
    simp only [List.mem_cons, List.not_mem_nil, or_false] at h
    rcases h with rfl | rfl | rfl | rfl <;> exact blank_lt_encode _
  induction bs using uuEncodeWords.induct with
  | case1 => cases h
  | case2 a => exact hword _ _ _ h
  | case3 a b => exact hword _ _ _ h
  | case4 a b d bs ih =>
    rw [uuEncodeWords] at h
    rcases List.mem_append.mp h with h | h
    · exact hword _ _ _ h
    · exact ih h

/-- A line stands for the bytes it was made of. -/
theorem lineBytes_encode {bs : List UInt8} (h : bs.length ≤ 45) : lineBytes (uuEncodeLine bs) = bs := by
  have hlength : (uuDecodeChar8 (lengthChar bs.length)).toNat = bs.length := by
    have hall : ∀ n : Fin 46, (uuDecodeChar8 (lengthChar n)).toNat = n := by decide
    exact hall ⟨bs.length, Nat.lt_succ_of_le h⟩
  unfold uuEncodeLine
  show (uuDecodeWords _).take _ = bs
  rw [hlength]
  exact take_uuDecodeWords bs

end Isp

end CoActionOS
