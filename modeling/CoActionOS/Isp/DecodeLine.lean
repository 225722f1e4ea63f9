import CoActionOS.Isp.UuEncode
import Mathlib.Logic.Function.Basic
import Mathlib.Data.List.Range
import Mathlib.Tactic.IntervalCases

/-!
# Decoding a line

`uu_decode_line` looks for the end of the line, clears the destination, and decodes groups of four characters into three
bytes each.  The loop counts the bytes it writes, and its bound is the number of characters.

Memory is a function from addresses; what is written goes into a list, in order.  `decodesWithin_iff` says when nothing is
written behind the last group.
-/

namespace CoActionOS

namespace Isp

open Function

/-- A byte written to an offset of the destination. -/
abbrev Write := Nat × UInt8

/-- Memory after the writes. -/
def stored (writes : List Write) (dest : Nat → UInt8) : Nat → UInt8 :=
  writes.foldl (fun m w => update m w.1 w.2) dest

/-- `uu_decode_word24(&dest_p[i], &src_p[j])` -/
def decodeWordAt (src : Nat → UInt8) (i j : Nat) : List Write :=
  (uuDecodeWord24 (src j) (src (j + 1)) (src (j + 2)) (src (j + 3))).mapIdx fun k b => (i + k, b)

/-- The loop of `uu_decode_line`: `for(i=0; i < len; i+=3)`. -/
def decodeLoop (src : Nat → UInt8) (len i j : Nat) : List Write :=
  if i < len then decodeWordAt src i j ++ decodeLoop src len (i + 3) (j + 4) else []
termination_by len - i

/-- The number of characters in front of the end of the line, or 0 when the end is not found. -/
def lineLength (src : Nat → UInt8) (lenCheck : Nat) : Nat :=
  match (List.range' 1 (lenCheck * 4 / 3 + 7)).find? fun i => src i = 13 ∨ src i = 10 with
  | some i => i - 1
  | none => 0

/-- `uu_decode_line`: what it writes and what it returns. -/
def uuDecodeLine (src : Nat → UInt8) (bytes : UInt8) : List Write × UInt8 :=
  let lenCheck := (src 0 - 0x20) &&& 0x3F
  if lenCheck > 45 then ([], 0)
  else
    ((List.range bytes.toNat).map (fun k => (k, 0)) ++ decodeLoop src (lineLength src lenCheck.toNat) 0 1, lenCheck)

/-! ### Lines -/

/-- A line that announces `n` bytes: the characters are above the control characters, and a control character ends it. -/
structure ValidLine (n : Nat) (src : Nat → UInt8) : Prop where
  short : n ≤ 45
  count : src 0 = lengthChar n
  text : ∀ k, 1 ≤ k → k ≤ 4 * groups n → 0x20 ≤ (src k).toNat
  terminator : src (4 * groups n + 1) = 13 ∨ src (4 * groups n + 1) = 10

/-- What the decoder promises of a line that announces `n` bytes. -/
structure DecodesWithin (n : Nat) (src : Nat → UInt8) (bytes : UInt8) : Prop where
  count : (uuDecodeLine src bytes).2.toNat = n
  content : ∀ (bs : List UInt8) (dest : Nat → UInt8), bs.length = n →
    (∀ k (hk : k < (uuEncodeLine bs).length), src k = (uuEncodeLine bs)[k]) →
    ∀ k (hk : k < bs.length), stored (uuDecodeLine src bytes).1 dest k = bs[k]
  within : ∀ w ∈ (uuDecodeLine src bytes).1, w.1 < 3 * groups n

/-! ### What is written -/

variable {src : Nat → UInt8} {n : Nat}

theorem stored_append (ws ws' : List Write) (dest : Nat → UInt8) :
    stored (ws ++ ws') dest = stored ws' (stored ws dest) := List.foldl_append

/-- The byte that the groups from the character `j` on have at offset `k`. -/
def decodedByte (src : Nat → UInt8) (j k : Nat) : UInt8 :=
  (uuDecodeWord24 (src (j + 4 * (k / 3))) (src (j + 4 * (k / 3) + 1)) (src (j + 4 * (k / 3) + 2))
    (src (j + 4 * (k / 3) + 3))).getD (k % 3) 0

theorem stored_decodeWordAt (i j k : Nat) (dest : Nat → UInt8) :
    stored (decodeWordAt src i j) dest (i + k) = if k < 3 then decodedByte src j k else dest (i + k) := by
  show update (update (update dest (i + 0) _) (i + 1) _) (i + 2) _ (i + k) = _
  match k with
  | 0 =>
    rw [update_of_ne (by omega), update_of_ne (by omega), update_self]
    rfl
  | 1 =>
    rw [update_of_ne (by omega), update_self]
    rfl
  | 2 =>
    rw [update_self]
    rfl
  | k + 3 =>
    rw [update_of_ne (by omega), update_of_ne (by omega), update_of_ne (by omega), if_neg (by omega)]

/-- The groups in front of offset `i` are left alone. -/
theorem stored_decodeLoop_of_lt (len i j k : Nat) (dest : Nat → UInt8) (hk : k < i) :
    stored (decodeLoop src len i j) dest k = dest k := by
  induction i, j using decodeLoop.induct len generalizing dest with
  | case1 i j hi ih =>
    rw [decodeLoop, if_pos hi, stored_append, ih _ (by omega)]
    show update (update (update dest (i + 0) _) (i + 1) _) (i + 2) _ k = _
    rw [update_of_ne (by omega), update_of_ne (by omega), update_of_ne (by omega)]
  | case2 i j hi =>
    rw [decodeLoop, if_neg hi]
    rfl

theorem stored_decodeLoop (src : Nat → UInt8) (len i j k : Nat) (dest : Nat → UInt8) (hk : i + k < len) :
    stored (decodeLoop src len i j) dest (i + k) = decodedByte src j k := by
  induction i, j using decodeLoop.induct len generalizing k dest with
  | case1 i j hi ih =>
    rw [decodeLoop, if_pos hi, stored_append]
    by_cases hfirst : k < 3
    · rw [stored_decodeLoop_of_lt _ _ _ _ _ (by omega), stored_decodeWordAt, if_pos hfirst]
    · -- the byte is one of a later group
      obtain ⟨k', rfl⟩ : ∃ k', k = k' + 3 := ⟨k - 3, by omega⟩
      rw [show i + (k' + 3) = i + 3 + k' by omega, ih k' _ (by omega)]
      unfold decodedByte
      rw [Nat.add_div_right _ (by decide), Nat.add_mod_right]
      rw [show j + 4 + 4 * (k' / 3) = j + 4 * (k' / 3).succ by omega]
  | case2 i j hi => exact absurd hk (by omega)

/-- The loop writes the first byte of each of its groups. -/
theorem mem_decodeLoop (src : Nat → UInt8) (len i j m : Nat) (h : i + 3 * m < len) :
    ∃ b, (i + 3 * m, b) ∈ decodeLoop src len i j := by
  induction i, j using decodeLoop.induct len generalizing m with
  | case1 i j hi ih =>
    rw [decodeLoop, if_pos hi]
    cases m with
    | zero => exact ⟨_, List.mem_append_left _ (List.mem_cons_self ..)⟩
    | succ m =>
      obtain ⟨b, hb⟩ := ih m (by omega)
      refine ⟨b, List.mem_append_right _ ?_⟩
      rwa [show i + 3 * (m + 1) = i + 3 + 3 * m by omega]
  | case2 i j hi => exact absurd h (by omega)

theorem lineLength_of_valid (h : ValidLine n src) : lineLength src n = 4 * groups n := by
  have hfind : (List.range' 1 (n * 4 / 3 + 7)).find? (fun i => decide (src i = 13 ∨ src i = 10)) =
      some (4 * groups n + 1) := by
    rw [List.find?_range'_eq_some]
    refine ⟨decide_eq_true h.terminator, ?_, ?_⟩
    · rw [List.mem_range'_1]
      unfold groups
      omega
    · intro k hk hlt
      have hchar := h.text k hk (by omega)
      have hne : ¬(src k = 13 ∨ src k = 10) := by
        rintro (heq | heq)
        · rw [heq] at hchar
          exact absurd hchar (by decide)
        · rw [heq] at hchar
          exact absurd hchar (by decide)
      rw [decide_eq_false hne]
      rfl
  unfold lineLength
  rw [hfind]
  rfl

theorem lenCheck_of_valid (h : ValidLine n src) : ((src 0 - 0x20) &&& 0x3F).toNat = n := by
  have hall : ∀ n : Fin 46, ((lengthChar n - 0x20) &&& 0x3F).toNat = n := by decide
  rw [h.count]
  exact hall ⟨n, Nat.lt_succ_of_le h.short⟩

theorem uuDecodeLine_of_valid (h : ValidLine n src) (bytes : UInt8) :
    (uuDecodeLine src bytes).1 =
        (List.range bytes.toNat).map (fun k => (k, 0)) ++ decodeLoop src (4 * groups n) 0 1 ∧
      (uuDecodeLine src bytes).2.toNat = n := by
  have hn := lenCheck_of_valid h
  have hshort := h.short
  have hle : ¬(src 0 - 0x20) &&& 0x3F > 45 := by
    intro hlt
    have := UInt8.lt_iff_toNat_lt.mp hlt
    rw [hn] at this
    exact absurd this (Nat.not_lt.mpr hshort)
  unfold uuDecodeLine
  dsimp only
  rw [if_neg hle, hn, lineLength_of_valid h]
  exact ⟨rfl, rfl⟩

/-! ### The bytes of an encoded line -/

/-- A group stands for the three bytes it was made of. -/
theorem decodedByte_group {a b c : UInt8} (cs : List UInt8) {j k : Nat}
    (h : ∀ m (hm : m < (uuEncodeWord24 a b c ++ cs).length), src (j + m) = (uuEncodeWord24 a b c ++ cs)[m]) (hk : k < 3) :
    decodedByte src j k = [a, b, c].getD k 0 := by
  have hlength : 4 ≤ (uuEncodeWord24 a b c ++ cs).length := by
    rw [List.length_append]
    exact Nat.le_add_right 4 _
  have hword : uuDecodeWords (uuEncodeWord24 a b c ++ []) = [a, b, c] := uuDecodeWords_encode a b c []
  unfold decodedByte
  rw [Nat.div_eq_of_lt hk, Nat.mod_eq_of_lt hk]
  have h₀ := h 0 (by omega)
  have h₁ := h 1 (by omega)
  have h₂ := h 2 (by omega)
  have h₃ := h 3 (by omega)
  show (uuDecodeWord24 (src (j + 0)) (src (j + 1)) (src (j + 2)) (src (j + 3))).getD k 0 = _
  rw [h₀, h₁, h₂, h₃, ← hword]
  rfl

/-- The groups of the characters that the bytes were made into stand for the bytes. -/
theorem decodedByte_encode (bs : List UInt8) (j k : Nat) (h : ∀ m (hm : m < (uuEncodeWords bs).length),
    src (j + m) = (uuEncodeWords bs)[m]) (hk : k < bs.length) : decodedByte src j k = bs[k] := by
  induction bs using uuEncodeWords.induct generalizing j k with
  | case1 => exact absurd hk (Nat.not_lt_zero k)
  | case2 a =>
    obtain rfl : k = 0 := Nat.lt_one_iff.mp hk
    exact decodedByte_group [] (by rwa [List.append_nil]) (by decide)
  | case3 a b =>
    have hlt : k < 2 := hk
    rw [decodedByte_group (a := a) (b := b) (c := 0) [] (by rwa [List.append_nil]) (by omega)]
    interval_cases k
    · rfl
    · rfl
  | case4 a b c bs ih =>
    by_cases hfirst : k < 3
    · rw [decodedByte_group _ h hfirst]
      interval_cases k
      · rfl
      · rfl
      · rfl
    · obtain ⟨k', rfl⟩ : ∃ k', k = k' + 3 := ⟨k - 3, by omega⟩
      have hrest : decodedByte src j (k' + 3) = decodedByte src (j + 4) k' := by
        unfold decodedByte
        rw [Nat.add_div_right _ (by decide), Nat.add_mod_right]
        rw [show j + 4 * (k' / 3).succ = j + 4 + 4 * (k' / 3) by omega]
      rw [hrest, ih (j + 4) k' _ (Nat.lt_of_add_lt_add_right hk)]
      · rfl
      · intro m hm
        have hlater := h (m + 4) (by rw [uuEncodeWords, List.length_append]; exact Nat.add_lt_add_right hm 4 |>.trans_eq (Nat.add_comm _ _))
        rw [show j + 4 + m = j + (m + 4) by omega, hlater]
        rfl

/-- The first bytes are those of the line, whatever the destination holds. -/
theorem stored_uuDecodeLine (h : ValidLine n src) (bytes : UInt8) {bs : List UInt8} (dest : Nat → UInt8) (hlength : bs.length = n)
    (hline : ∀ k (hk : k < (uuEncodeLine bs).length), src k = (uuEncodeLine bs)[k]) {k : Nat} (hk : k < bs.length) :
    stored (uuDecodeLine src bytes).1 dest k = bs[k] := by
  rw [(uuDecodeLine_of_valid h bytes).1, stored_append]
  have hbound : 0 + k < 4 * groups n := by
    unfold groups
    omega
  have hbyte := stored_decodeLoop src (4 * groups n) 0 1 k
    (stored ((List.range bytes.toNat).map fun k => (k, 0)) dest) hbound
  rw [Nat.zero_add] at hbyte
  rw [hbyte]
  refine decodedByte_encode bs 1 k (fun m hm => ?_) hk
  have hchar := hline (m + 1) (by unfold uuEncodeLine; simp only [List.length_cons, List.length_append]; omega)
  rw [Nat.add_comm 1 m, hchar]
  exact List.getElem_append_left hm

/-- The memory that holds an encoded line. -/
def lineAt (bs : List UInt8) (k : Nat) : UInt8 := (uuEncodeLine bs).getD k 0

theorem validLine_encode (bs : List UInt8) (h : bs.length ≤ 45) : ValidLine bs.length (lineAt bs) where
  short := h
  count := rfl
  text := by
    intro k hk hle
    obtain ⟨m, rfl⟩ : ∃ m, k = m + 1 := ⟨k - 1, by omega⟩
    have hm : m < (uuEncodeWords bs).length := by
      rw [length_uuEncodeWords]
      exact hle
    have hchar : lineAt bs (m + 1) = (uuEncodeWords bs)[m] := by
      show (uuEncodeWords bs ++ [13, 10]).getD m 0 = _
      rw [List.getD_eq_getElem?_getD, List.getElem?_append_left hm, List.getElem?_eq_getElem hm]
      rfl
    rw [hchar]
    exact (mem_uuEncodeWords (List.getElem_mem hm)).le
  terminator := by
    left
    show (uuEncodeWords bs ++ [13, 10]).getD (4 * groups bs.length) 0 = 13
    rw [← length_uuEncodeWords, List.getD_eq_getElem?_getD, List.getElem?_append_right (le_refl _), Nat.sub_self]
    rfl

/-- Bytes are written behind the last group of every line but the empty one. -/
theorem decodesWithin_iff (n : Nat) (src : Nat → UInt8) (bytes : UInt8) (h : ValidLine n src) :
    DecodesWithin n src bytes ↔ n = 0 ∧ bytes = 0 := by
  obtain ⟨hwrites, hcount⟩ := uuDecodeLine_of_valid h bytes
  constructor
  · intro hd
    have hempty : n = 0 := by
      by_contra hn
      -- the loop goes on until it has written as many bytes as there are characters
      obtain ⟨b, hb⟩ := mem_decodeLoop src (4 * groups n) 0 1 (groups n) (by unfold groups; omega)
      have hlt := hd.within (0 + 3 * groups n, b) (by rw [hwrites]; exact List.mem_append_right _ hb)
      exact absurd hlt (by simp)
    refine ⟨hempty, ?_⟩
    by_contra hbytes
    have hpos : 0 < bytes.toNat := by
      refine Nat.pos_of_ne_zero fun hzero => hbytes ?_
      exact UInt8.toNat_inj.mp hzero
    have hlt := hd.within (0, 0) (by
      rw [hwrites]
      exact List.mem_append_left _ (List.mem_map.mpr ⟨0, List.mem_range.mpr hpos, rfl⟩))
    rw [hempty] at hlt
    exact absurd hlt (by decide)
  · rintro ⟨rfl, rfl⟩
    exact {
      count := hcount
      content := fun bs dest hlength hline k hk => stored_uuDecodeLine h 0 dest hlength hline hk
      within := by
        rw [hwrites, decodeLoop, if_neg (by decide)]
        exact fun w hw => absurd hw List.not_mem_nil }

/-- The line of the letter `a`, decoded into three bytes. -/
theorem decodesWithin_letter : ValidLine 1 (lineAt [97]) ∧
    (DecodesWithin 1 (lineAt [97]) 3 ↔ 1 = 0 ∧ (3 : UInt8) = 0) :=
  have hvalid : ValidLine 1 (lineAt [97]) := validLine_encode [97] (by decide)
  ⟨hvalid, decodesWithin_iff 1 (lineAt [97]) 3 hvalid⟩

theorem not_decodesWithin :
    ¬∀ (n : Nat) (src : Nat → UInt8) (bytes : UInt8), ValidLine n src → DecodesWithin n src bytes := by
  intro h
  have hvalid : ValidLine 1 (lineAt [97]) := validLine_encode [97] (by decide)
  -- four characters: the loop does not stop at offset 3
  obtain ⟨b, hb⟩ := mem_decodeLoop (lineAt [97]) 4 0 1 1 (by decide)
  have hwrites := (uuDecodeLine_of_valid hvalid 3).1
  have hlt := (h 1 (lineAt [97]) 3 hvalid).within (0 + 3 * 1, b) (by
    rw [hwrites]
    exact List.mem_append_right _ hb)
  exact absurd hlt (Nat.lt_irrefl 3)

end Isp

end CoActionOS
