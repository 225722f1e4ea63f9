import CoActionOS.Aes.Layers

/-!
# The key schedule

The code keeps the words of two round keys only.  `aes_expandEncKey` writes the next two over them, `aes_expandDecKey` the
two before.  Each takes the eight words in turn, one in the opposite order of the other, so what is known in between is the
same in both: the first `n` words are those of the later expansion.
-/

namespace CoActionOS

namespace Aes

open GF256 (ofByte ofByte_xor X)
open Rijndael

/-! ### Keys -/

def words (k : KeyBytes) (j : Fin 8) : Word := fun r => ofByte k[4 * j.val + r.val]

theorem words_apply (k : KeyBytes) (j : Fin 8) (r : Fin 4) : words k j r = ofByte k[4 * j.val + r.val] := rfl

theorem words_of_outside {k k' : KeyBytes} {j j' : Fin 8} (hj : j' ≠ j)
    (h : ∀ p (hp : p < 32), p < 4 * j.val ∨ 4 * j.val + 4 ≤ p → k'[p] = k[p]) : words k' j' = words k j' := by
  have hval : j'.val ≠ j.val := fun h => hj (Fin.ext h)
  funext r
  rw [words_apply, words_apply, h _ _ (by omega)]

theorem getElem_xorPrevious (k : KeyBytes) (i : Fin 29) (hi : 4 ≤ i.val) (r : Fin 4) :
    (xorPrevious k i)[i.val + r.val] = k[i.val + r.val] ^^^ k[i.val + r.val - 4] := by
  obtain ⟨i, hlt⟩ := i
  change 4 ≤ i at hi
  fin_cases r <;> simp (disch := omega) [xorPrevious, Vector.getElem_set_ne, Vector.getElem_set_self]

theorem words_xorPrevious (k : KeyBytes) (m : Fin 7) :
    words (xorPrevious k ⟨4 * m.val + 4, by omega⟩) =
      Function.update (words k) m.succ (words k m.succ + words k m.castSucc) := by
  funext j
  by_cases hj : j = m.succ
  · subst hj
    funext r
    have h := getElem_xorPrevious k ⟨4 * m.val + 4, by omega⟩ (Nat.le_add_left 4 _) r
    have hback : 4 * m.val + 4 + r.val - 4 = 4 * m.val + r.val := by omega
    simp only [hback] at h
    rw [Function.update_self, words_apply]
    exact congrArg ofByte h
  · rw [Function.update_of_ne hj]
    refine words_of_outside hj fun p hp hout => ?_
    rw [Fin.val_succ] at hout
    rw [xorPrevious, Vector.getElem_set_ne, Vector.getElem_set_ne, Vector.getElem_set_ne, Vector.getElem_set_ne] <;>
      simp only <;> omega

theorem getElem_xorFirst (k : KeyBytes) (rc : Byte) (r : Fin 4) :
    (xorFirst k rc)[r.val] = k[r.val] ^^^ (rjSbox k[28 + (r + 1).val] ^^^ if r = 0 then rc else 0) := by
  simp only [xorFirst, Vector.getElem_set, Nat.reduceEqDiff, reduceIte]
  fin_cases r <;> simp

theorem words_xorFirst (k : KeyBytes) (rc : Byte) :
    words (xorFirst k rc) =
      Function.update (words k) 0 (words k 0 + (subWord (rotWord (words k 7)) + ![ofByte rc, 0, 0, 0])) := by
  funext j
  by_cases hj : j = 0
  · subst hj
    funext r
    have h := getElem_xorFirst k rc r
    have hrc : ofByte (if r = 0 then rc else 0) = ![ofByte rc, 0, 0, 0] r := by fin_cases r <;> rfl
    have hbyte := congrArg ofByte h
    rw [ofByte_xor, ofByte_xor, ofByte_rjSbox, hrc] at hbyte
    rw [Function.update_self, words_apply]
    simp only [Fin.val_zero, Nat.mul_zero, Nat.zero_add]
    rw [hbyte]
    simp only [Pi.add_apply, subWord, rotWord_apply, words_apply, Fin.val_zero, Nat.mul_zero, Nat.zero_add]
    rfl
  · rw [Function.update_of_ne hj]
    refine words_of_outside hj fun p hp hout => ?_
    rw [Fin.val_zero] at hout
    rw [xorFirst, Vector.getElem_set_ne, Vector.getElem_set_ne, Vector.getElem_set_ne, Vector.getElem_set_ne] <;> omega

theorem getElem_xorMiddle (k : KeyBytes) (r : Fin 4) :
    (xorMiddle k)[16 + r.val] = k[16 + r.val] ^^^ rjSbox k[12 + r.val] := by
  simp only [xorMiddle, Vector.getElem_set, Nat.reduceEqDiff, reduceIte]
  fin_cases r <;> rfl

theorem words_xorMiddle (k : KeyBytes) :
    words (xorMiddle k) = Function.update (words k) 4 (words k 4 + subWord (words k 3)) := by
  funext j
  by_cases hj : j = 4
  · subst hj
    funext r
    have hbyte := congrArg ofByte (getElem_xorMiddle k r)
    rw [ofByte_xor, ofByte_rjSbox] at hbyte
    rw [Function.update_self]
    exact hbyte
  · rw [Function.update_of_ne hj]
    refine words_of_outside hj fun p hp hout => ?_
    have hfour : (4 : Fin 8).val = 4 := rfl
    rw [hfour] at hout
    rw [xorMiddle, Vector.getElem_set_ne, Vector.getElem_set_ne, Vector.getElem_set_ne, Vector.getElem_set_ne] <;> omega

/-! ### The schedule, forwards and backwards -/

section

variable {key : Fin 8 → Word} {k k' : KeyBytes} {j n : Nat}

theorem schedule_first (key : Fin 8 → Word) (j : Nat) :
    schedule key (8 * (j + 1)) =
      schedule key (8 * j) + (subWord (rotWord (schedule key (8 * j + 7))) + ![X ^ j, 0, 0, 0]) := by
  have h := schedule_add key (8 * j)
  rw [if_pos (Nat.mul_mod_right 8 j), Nat.mul_div_cancel_left j (by decide)] at h
  exact h

theorem schedule_middle (key : Fin 8 → Word) (j : Nat) :
    schedule key (8 * (j + 1) + 4) = schedule key (8 * j + 4) + subWord (schedule key (8 * (j + 1) + 3)) := by
  have h := schedule_add key (8 * j + 4)
  rw [if_neg (by omega), if_pos ⟨by decide, by omega⟩] at h
  exact h

theorem schedule_other (key : Fin 8 → Word) (j : Nat) {t : Nat} (ht : t < 7) (hmid : t ≠ 3) :
    schedule key (8 * (j + 1) + (t + 1)) = schedule key (8 * j + (t + 1)) + schedule key (8 * (j + 1) + t) := by
  have h := schedule_add key (8 * j + (t + 1))
  rw [if_neg (by omega), if_neg (by omega)] at h
  have hlast : 8 * j + (t + 1) + 7 = 8 * (j + 1) + t := by omega
  have hnext : 8 * j + (t + 1) + (7 + 1) = 8 * (j + 1) + (t + 1) := by omega
  rwa [hlast, hnext] at h

/-- The first `n` of the eight words are already those of the next expansion. -/
def Partly (key : Fin 8 → Word) (j n : Nat) (k : KeyBytes) : Prop :=
  ∀ t : Fin 8, words k t = schedule key (8 * (if t.val < n then j + 1 else j) + t.val)

/-- The key bytes hold the words after `j` expansions. -/
def Holds (key : Fin 8 → Word) (j : Nat) (k : KeyBytes) : Prop := ∀ t : Fin 8, words k t = schedule key (8 * j + t.val)

theorem partly_zero_iff : Partly key j 0 k ↔ Holds key j k := by
  simp only [Partly, Holds, Nat.not_lt_zero, if_false]

theorem partly_eight_iff : Partly key j 8 k ↔ Holds key (j + 1) k := by
  simp only [Partly, Holds, Fin.is_lt, if_true]

theorem Partly.next (h : Partly key j n k) (hn : n < 8)
    (hk : words k' = Function.update (words k) ⟨n, hn⟩ (schedule key (8 * (j + 1) + n))) : Partly key j (n + 1) k' := by
  intro t
  rw [hk]
  by_cases ht : t = ⟨n, hn⟩
  · subst ht
    rw [Function.update_self, if_pos (Nat.lt_succ_self n)]
  · have hne : t.val ≠ n := fun h => ht (Fin.ext h)
    rw [Function.update_of_ne ht, h t]
    simp only [Nat.lt_succ_iff_lt_or_eq, hne, or_false]

theorem Partly.previous (h : Partly key j (n + 1) k) (hn : n < 8)
    (hk : words k' = Function.update (words k) ⟨n, hn⟩ (schedule key (8 * j + n))) : Partly key j n k' := by
  intro t
  rw [hk]
  by_cases ht : t = ⟨n, hn⟩
  · subst ht
    rw [Function.update_self, if_neg (Nat.lt_irrefl n)]
  · have hne : t.val ≠ n := fun h => ht (Fin.ext h)
    rw [Function.update_of_ne ht, h t]
    simp only [Nat.lt_succ_iff_lt_or_eq, hne, or_false]

theorem add_cancel_right (a b c : Word) (h : a = b + c) : a + c = b := by
  rw [h, add_assoc, show c + c = 0 from funext fun i => GF256.add_self (c i), add_zero]

theorem Partly.xorFirst {rc : Byte} (h : Partly key j 0 k) (hrc : ofByte rc = X ^ j) :
    Partly key j 1 (Aes.xorFirst k rc) := by
  refine h.next (by decide) ?_
  rw [words_xorFirst, h 0, h 7, hrc]
  exact congrArg _ (schedule_first key j).symm

theorem Partly.xorFirst_back {rc : Byte} (h : Partly key j 1 k) (hrc : ofByte rc = X ^ j) :
    Partly key j 0 (Aes.xorFirst k rc) := by
  refine h.previous (by decide) ?_
  rw [words_xorFirst, h 0, h 7, hrc]
  exact congrArg _ (add_cancel_right _ _ _ (schedule_first key j))

theorem Partly.xorMiddle (h : Partly key j 4 k) : Partly key j 5 (Aes.xorMiddle k) := by
  refine h.next (by decide) ?_
  rw [words_xorMiddle, h 4, h 3]
  exact congrArg _ (schedule_middle key j).symm

theorem Partly.xorMiddle_back (h : Partly key j 5 k) : Partly key j 4 (Aes.xorMiddle k) := by
  refine h.previous (by decide) ?_
  rw [words_xorMiddle, h 4, h 3]
  exact congrArg _ (add_cancel_right _ _ _ (schedule_middle key j))

theorem Partly.xorPrevious (m : Fin 7) (hm : m ≠ 3) (h : Partly key j (m.val + 1) k) :
    Partly key j (m.val + 2) (Aes.xorPrevious k ⟨4 * m.val + 4, by omega⟩) := by
  have hval : m.val ≠ 3 := fun h => hm (Fin.ext h)
  refine h.next (by omega) ?_
  rw [words_xorPrevious, h m.succ, h m.castSucc, Fin.val_succ, Fin.val_castSucc, if_neg (Nat.lt_irrefl _),
    if_pos (Nat.lt_succ_self _)]
  exact congrArg _ (schedule_other key j m.isLt hval).symm

theorem Partly.xorPrevious_back (m : Fin 7) (hm : m ≠ 3) (h : Partly key j (m.val + 2) k) :
    Partly key j (m.val + 1) (Aes.xorPrevious k ⟨4 * m.val + 4, by omega⟩) := by
  have hval : m.val ≠ 3 := fun h => hm (Fin.ext h)
  refine h.previous (by omega) ?_
  rw [words_xorPrevious, h m.succ, h m.castSucc, Fin.val_succ, Fin.val_castSucc, if_pos (Nat.lt_succ_self _),
    if_pos (by omega)]
  exact congrArg _ (add_cancel_right _ _ _ (schedule_other key j m.isLt hval))

theorem Holds.aesExpandEncKey {rc : Byte} (h : Holds key j k) (hrc : ofByte rc = X ^ j) :
    Holds key (j + 1) (Aes.aesExpandEncKey k rc).1 ∧ ofByte (Aes.aesExpandEncKey k rc).2 = X ^ (j + 1) := by
  have h1 := (partly_zero_iff.mpr h).xorFirst hrc
  have h4 := ((h1.xorPrevious 0 (by decide)).xorPrevious 1 (by decide)).xorPrevious 2 (by decide)
  have h5 := h4.xorMiddle
  have h8 := ((h5.xorPrevious 4 (by decide)).xorPrevious 5 (by decide)).xorPrevious 6 (by decide)
  refine ⟨partly_eight_iff.mp h8, ?_⟩
  show ofByte (F rc) = _
  rw [ofByte_F, hrc, pow_succ']

theorem ofByte_FD {rc : Byte} (hrc : ofByte rc = X ^ (j + 1)) : ofByte (FD rc) = X ^ j := by
  have hF : ofByte (F (X ^ j).bits) = ofByte rc := by
    rw [ofByte_F, hrc, pow_succ']
    rfl
  have hrc' : F (X ^ j).bits = rc := hF
  rw [← hrc', FD_F]
  rfl

theorem Holds.aesExpandDecKey {rc : Byte} (h : Holds key (j + 1) k) (hrc : ofByte rc = X ^ (j + 1)) :
    Holds key j (Aes.aesExpandDecKey k rc).1 ∧ ofByte (Aes.aesExpandDecKey k rc).2 = X ^ j := by
  have h8 := partly_eight_iff.mpr h
  have h5 := ((h8.xorPrevious_back 6 (by decide)).xorPrevious_back 5 (by decide)).xorPrevious_back 4 (by decide)
  have h4 := h5.xorMiddle_back
  have h1 := ((h4.xorPrevious_back 2 (by decide)).xorPrevious_back 1 (by decide)).xorPrevious_back 0 (by decide)
  exact ⟨partly_zero_iff.mp (h1.xorFirst_back (ofByte_FD hrc)), ofByte_FD hrc⟩

/-- The first half of the key bytes is the round key of an even round, the second half that of an odd one. -/
theorem Holds.stateOf_aesAddRoundKey (h : Holds key j k) (buf : Block) (half : Fin 2) :
    stateOf (aesAddRoundKey buf k ⟨16 * half.val, by omega⟩) =
      stateOf buf + roundKey (schedule key) (2 * j + half.val) := by
  ext r c
  have hword := congrFun (h ⟨4 * half.val + c.val, by omega⟩) r
  have hindex : 8 * j + (4 * half.val + c.val) = 4 * (2 * j + half.val) + c.val := by omega
  simp only [hindex, words_apply] at hword
  have hkey : ofByte k[16 * half.val + (4 * c.val + r.val)] = ofByte k[4 * (4 * half.val + c.val) + r.val] := by
    congr 2
    omega
  rw [stateOf_apply, aesAddRoundKey, getElem_each, ofByte_xor, hkey, hword]
  rfl

theorem Holds.add_first (h : Holds key j k) (buf : Block) :
    stateOf (aesAddRoundKey buf k 0) = stateOf buf + roundKey (schedule key) (2 * j) := h.stateOf_aesAddRoundKey buf 0

theorem Holds.add_second (h : Holds key j k) (buf : Block) :
    stateOf (aesAddRoundKey buf k 16) = stateOf buf + roundKey (schedule key) (2 * j + 1) := h.stateOf_aesAddRoundKey buf 1

theorem aesAddRoundKeyCpy_eq (buf : Block) (key cpk : KeyBytes) :
    aesAddRoundKeyCpy buf key cpk = (aesAddRoundKey buf key 0, key) := by
  rw [aesAddRoundKeyCpy, Fin.foldr_eq_finRange_foldr]
  refine (copyAndAdd_foldr buf key cpk _).trans (Prod.ext ?_ ?_)
  · rw [aesAddRoundKey, each, Fin.foldr_eq_finRange_foldr]
    simp only [Nat.zero_add, Fin.val_zero]
  · ext1 q hq
    rw [Vector.getElem_ofFn, if_pos]
    · rfl
    · refine ⟨⟨q % 16, Nat.mod_lt _ (by decide)⟩, List.mem_finRange _, ?_⟩
      simp only
      omega

end

end Aes

end CoActionOS
