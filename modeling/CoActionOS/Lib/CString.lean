import Mathlib.Data.List.Basic
import Mathlib.Data.List.TakeWhile

/-!
# Zero-terminated strings in memory

An object in memory is a list of bytes, and a string in it ends with the first zero.  The functions of the C library give
`none` when they leave the object.

`copyLoop` is `strcpy` within one object, a byte at a time: where the destination is not behind the source it copies the
text (`copyLoop_of_le`), where it is in the text the loop does not end (`copyLoop_eq_none`), and what is in front of the
destination never changes (`take_copyLoop`).
-/

namespace CoActionOS

namespace CString

/-- The bytes in front of the first zero. -/
def text (mem : List UInt8) : List UInt8 := mem.takeWhile (· ≠ 0)

/-- The string at an offset. -/
def textAt (mem : List UInt8) (off : Nat) : Option (List UInt8) :=
  if 0 ∈ mem.drop off then some (text (mem.drop off)) else none

def writeAt (mem : List UInt8) (off : Nat) (bs : List UInt8) : Option (List UInt8) :=
  if off + bs.length ≤ mem.length then some (mem.take off ++ (bs ++ mem.drop (off + bs.length))) else none

/-- `strcpy` from the offset `s` of an object to its offset `d`; a round for each byte. -/
def copyLoop : Nat → List UInt8 → Nat → Nat → Option (List UInt8)
  | 0, _, _, _ => none
  | rounds + 1, mem, d, s =>
    match mem[s]? with
    | none => none
    | some b =>
      if d < mem.length then
        if b = 0 then some (mem.set d b) else copyLoop rounds (mem.set d b) (d + 1) (s + 1)
      else none

/-- After as many rounds as the object has bytes the loop has left it. -/
def strcpyWithin (mem : List UInt8) (d s : Nat) : Option (List UInt8) := copyLoop (mem.length + 1) mem d s

/-- The zero of the text, or as many bytes as are asked for, is in the memory. -/
def Readable (src : List UInt8) (n : Nat) : Prop := 0 ∈ src.take n ∨ n ≤ src.length

instance (src : List UInt8) (n : Nat) : Decidable (Readable src n) := inferInstanceAs (Decidable (_ ∨ _))

/-- What `strncpy` writes, given the memory from the source on: up to `n` bytes, filled up with zeros. -/
def strncpyBytes (src : List UInt8) (n : Nat) : Option (List UInt8) :=
  if Readable src n then
    some (text (src.take n) ++ List.replicate (n - (text (src.take n)).length) 0)
  else none

/-- `strncmp(a, b, n) == 0` -/
def strncmpEq (n : Nat) (a b : List UInt8) : Bool := text (a.take n) = text (b.take n)

/-! ### Texts -/

variable {mem mem' a b s : List UInt8} {off k n d : Nat}

theorem zero_notMem_text (mem : List UInt8) : 0 ∉ text mem := by
  intro h
  have hne : decide ((0 : UInt8) ≠ 0) = true := List.mem_takeWhile_imp (p := fun x => decide (x ≠ 0)) h
  exact absurd hne (by decide)

theorem text_cons_of_ne {x : UInt8} (hx : x ≠ 0) (mem : List UInt8) : text (x :: mem) = x :: text mem :=
  List.takeWhile_cons_of_pos (decide_eq_true hx)

theorem text_append_of_notMem (h : 0 ∉ a) : text (a ++ b) = a ++ text b := by
  apply List.takeWhile_append_of_pos
  intro x hx
  exact decide_eq_true fun hzero => h (hzero ▸ hx)

theorem text_zero_cons : text (0 :: b) = [] := rfl

/-- A text of its own ends where the zero is. -/
theorem text_append_zero (h : 0 ∉ a) : text (a ++ 0 :: b) = a := by
  rw [text_append_of_notMem h, text_zero_cons, List.append_nil]

/-- A string that ends within the bytes that are compared. -/
theorem strncmpEq_eq (hs : 0 ∉ s) (hlen : s.length < n) (hmem : mem.length ≤ n) :
    strncmpEq n mem (s ++ [0]) = decide (text mem = s) := by
  have htake : (s ++ [0]).take n = s ++ 0 :: [] := List.take_of_length_le (by simp; omega)
  rw [strncmpEq, htake, text_append_zero hs, List.take_of_length_le hmem]

/-- A text of its own in front of a zero, read byte by byte. -/
theorem text_eq_of_getElem? (hs : 0 ∉ s) (hstart : ∀ j, j < s.length → mem[j]? = s[j]?) (hend : mem[s.length]? = some 0) :
    text mem = s := by
  obtain ⟨hlt, hzero⟩ := List.getElem?_eq_some_iff.mp hend
  have htake : mem.take s.length = s := by
    apply List.ext_getElem?
    intro j
    by_cases hj : j < s.length
    · rw [List.getElem?_take_of_lt hj, hstart j hj]
    · rw [List.getElem?_eq_none (by rw [List.length_take]; omega), List.getElem?_eq_none (by omega)]
  rw [← List.take_append_drop s.length mem, htake, List.drop_eq_getElem_cons hlt, hzero, text_append_zero hs]

theorem text_of_notMem (h : 0 ∉ a) : text a = a := by
  have happend := text_append_of_notMem (b := []) h
  rwa [List.append_nil, show text [] = [] from rfl, List.append_nil] at happend

theorem exists_eq_text_append (h : 0 ∈ mem) : ∃ rest, mem = text mem ++ 0 :: rest := by
  induction mem with
  | nil => exact absurd h List.not_mem_nil
  | cons x mem ih =>
    by_cases hx : x = 0
    · subst hx
      exact ⟨mem, rfl⟩
    · obtain ⟨rest, hrest⟩ := ih ((List.mem_cons.mp h).resolve_left (Ne.symm hx))
      refine ⟨rest, ?_⟩
      rw [text_cons_of_ne hx, List.cons_append, ← hrest]

theorem length_text_lt (h : 0 ∈ mem) : (text mem).length < mem.length := by
  obtain ⟨rest, hrest⟩ := exists_eq_text_append h
  have hlength := congrArg List.length hrest
  rw [List.length_append, List.length_cons] at hlength
  omega

theorem length_text_le (mem : List UInt8) : (text mem).length ≤ mem.length :=
  (List.takeWhile_sublist _).length_le

/-- Inside the text, what follows is the rest of the text. -/
theorem textAt_of_le (h : 0 ∈ mem) (hoff : off ≤ (text mem).length) : textAt mem off = some ((text mem).drop off) := by
  obtain ⟨rest, hrest⟩ := exists_eq_text_append h
  have hdrop : mem.drop off = (text mem).drop off ++ 0 :: rest := by
    conv_lhs => rw [hrest]
    exact List.drop_append_of_le_length hoff
  have hnot : 0 ∉ (text mem).drop off := fun hmem => zero_notMem_text mem (List.mem_of_mem_drop hmem)
  unfold textAt
  rw [if_pos (by rw [hdrop]; exact List.mem_append_right _ List.mem_cons_self), hdrop, text_append_zero hnot]

theorem take_eq_take_text (hoff : off ≤ (text mem).length) : mem.take off = (text mem).take off := by
  have hprefix : text mem <+: mem := List.takeWhile_prefix _
  obtain ⟨rest, hrest⟩ := hprefix
  conv_lhs => rw [← hrest]
  exact List.take_append_of_le_length hoff

theorem text_take (mem : List UInt8) (n : Nat) : text (mem.take n) = (text mem).take n := by
  induction mem generalizing n with
  | nil => simp [text]
  | cons x mem ih =>
    cases n with
    | zero => rfl
    | succ n =>
      by_cases hx : x = 0
      · subst hx
        rfl
      · rw [List.take_succ_cons, text_cons_of_ne hx, text_cons_of_ne hx, List.take_succ_cons, ih]

/-- A zero in the text ends it there. -/
theorem text_set_zero (mem : List UInt8) (i : Nat) : text (mem.set i 0) = (text mem).take i := by
  induction mem generalizing i with
  | nil => simp [text]
  | cons x mem ih =>
    cases i with
    | zero => rfl
    | succ i =>
      by_cases hx : x = 0
      · subst hx
        rfl
      · rw [List.set_cons_succ, text_cons_of_ne hx, text_cons_of_ne hx, List.take_succ_cons, ih]

/-! ### Writing -/

theorem writeAt_of_le {bs : List UInt8} (h : off + bs.length ≤ mem.length) :
    writeAt mem off bs = some (mem.take off ++ (bs ++ mem.drop (off + bs.length))) := if_pos h

theorem length_writeAt {bs : List UInt8} (h : writeAt mem off bs = some mem') : mem'.length = mem.length := by
  unfold writeAt at h
  split_ifs at h with hle
  obtain rfl := Option.some.inj h
  simp only [List.length_append, List.length_take, List.length_drop]
  omega

/-- The first byte of what is written may be written first. -/
theorem writeAt_cons {x : UInt8} (bs : List UInt8) (hd : d < mem.length) :
    writeAt (mem.set d x) (d + 1) bs = writeAt mem d (x :: bs) := by
  by_cases hle : d + (bs.length + 1) ≤ mem.length
  · rw [writeAt_of_le (by rw [List.length_set]; omega), writeAt_of_le hle]
    have htake : (mem.set d x).take (d + 1) = mem.take d ++ [x] := by
      rw [List.set_eq_take_append_cons_drop, if_pos hd]
      have hsum : d + 1 = (mem.take d).length + 1 := by
        rw [List.length_take]
        omega
      conv_lhs => rw [hsum]
      rw [List.take_length_add_append]
      rfl
    rw [htake, List.drop_set_of_lt (by omega)]
    simp only [List.append_assoc, List.cons_append, List.nil_append, List.length_cons]
    rw [show d + 1 + bs.length = d + (bs.length + 1) by omega]
  · unfold writeAt
    rw [if_neg (by rw [List.length_set]; omega), if_neg (by rw [List.length_cons]; omega)]

/-- A string written inside the text, or at its end, is the end of the text. -/
theorem text_writeAt (h : writeAt mem off (s ++ [0]) = some mem') (hs : 0 ∉ s) (hoff : off ≤ (text mem).length) :
    text mem' = (text mem).take off ++ s ∧ 0 ∈ mem' := by
  unfold writeAt at h
  split_ifs at h
  obtain rfl := Option.some.inj h
  rw [take_eq_take_text hoff, List.append_assoc s, ← List.append_assoc]
  have hnot : 0 ∉ (text mem).take off ++ s := by
    intro hmem
    rcases List.mem_append.mp hmem with hmem | hmem
    · exact zero_notMem_text mem (List.mem_of_mem_take hmem)
    · exact hs hmem
  constructor
  · exact text_append_zero hnot
  · exact List.mem_append_right _ List.mem_cons_self

/-- What is written behind the end of the text does not change it. -/
theorem text_writeAt_of_lt {bs : List UInt8} (h : writeAt mem off bs = some mem') (hmem : 0 ∈ mem)
    (hoff : (text mem).length < off) : text mem' = text mem ∧ 0 ∈ mem' := by
  unfold writeAt at h
  split_ifs at h
  obtain rfl := Option.some.inj h
  obtain ⟨rest, hrest⟩ := exists_eq_text_append hmem
  obtain ⟨m, hm⟩ : ∃ m, off = (text mem).length + (m + 1) := ⟨off - (text mem).length - 1, by omega⟩
  have htake : mem.take off = text mem ++ 0 :: rest.take m := by
    conv_lhs => rw [hrest, hm]
    rw [List.take_length_add_append, List.take_succ_cons]
  rw [htake, List.append_assoc]
  constructor
  · exact text_append_zero (zero_notMem_text mem)
  · exact List.mem_append_right _ List.mem_cons_self

/-! ### Copying -/

theorem readable_append_zero (a b : List UInt8) (n : Nat) : Readable (a ++ 0 :: b) n := by
  by_cases hn : n ≤ a.length
  · exact Or.inr (by rw [List.length_append]; omega)
  · refine Or.inl (List.mem_take_iff_getElem.mpr ⟨a.length, ?_, ?_⟩)
    · rw [List.length_append, List.length_cons]
      omega
    · rw [List.getElem_append_right (Nat.le_refl _)]
      simp

/-- `strncpy` writes as much of the text as it was asked for. -/
theorem strncpyBytes_of_readable (h : Readable mem n) :
    strncpyBytes mem n = some ((text mem).take n ++ List.replicate (n - ((text mem).take n).length) 0) := by
  rw [strncpyBytes, if_pos h, text_take]

/-- Where the destination is not behind the source, the loop copies the text. -/
theorem copyLoop_of_le {t rest : List UInt8} {rounds : Nat} (hle : d ≤ k) (hmem : mem.drop k = t ++ 0 :: rest)
    (ht : 0 ∉ t) (hrounds : t.length < rounds) : copyLoop rounds mem d k = writeAt mem d (t ++ [0]) := by
  induction t generalizing mem d k rounds with
  | nil =>
    obtain ⟨rounds, rfl⟩ : ∃ m, rounds = m + 1 := ⟨rounds - 1, by simp at hrounds; omega⟩
    have hget : mem[k]? = some 0 := by
      rw [← List.head?_drop, hmem]
      rfl
    obtain ⟨hk, -⟩ := List.getElem?_eq_some_iff.mp hget
    have hd : d < mem.length := by omega
    rw [copyLoop, hget]
    dsimp only
    rw [if_pos hd, if_pos rfl, writeAt_of_le (by simp; omega), List.set_eq_take_append_cons_drop, if_pos hd]
    rfl
  | cons x t ih =>
    obtain ⟨rounds, rfl⟩ : ∃ m, rounds = m + 1 := ⟨rounds - 1, by simp at hrounds; omega⟩
    have hget : mem[k]? = some x := by
      rw [← List.head?_drop, hmem]
      rfl
    obtain ⟨hk, -⟩ := List.getElem?_eq_some_iff.mp hget
    have hd : d < mem.length := by omega
    have hx : x ≠ 0 := fun hzero => ht (hzero ▸ List.mem_cons_self)
    have hrest : (mem.set d x).drop (k + 1) = t ++ 0 :: rest := by
      rw [List.drop_set_of_lt (by omega), ← List.drop_drop, hmem]
      rfl
    have hlength : (mem.drop k).length = t.length + 1 + (rest.length + 1) := by
      rw [hmem, List.length_append, List.length_cons, List.length_cons]
    rw [List.length_drop] at hlength
    rw [copyLoop, hget]
    dsimp only
    rw [if_pos hd, if_neg hx, ih (by omega) hrest (fun h => ht (List.mem_cons_of_mem _ h)) (by simp at hrounds; omega)]
    exact writeAt_cons _ hd

/-- Behind the end of the text it copies the text as well, where there is room. -/
theorem copyLoop_of_lt {t rest : List UInt8} {rounds : Nat} (hmem : mem.drop k = t ++ 0 :: rest) (ht : 0 ∉ t)
    (hlt : k + t.length < d) (hrounds : t.length < rounds) : copyLoop rounds mem d k = writeAt mem d (t ++ [0]) := by
  induction t generalizing mem d k rounds rest with
  | nil =>
    obtain ⟨rounds, rfl⟩ : ∃ m, rounds = m + 1 := ⟨rounds - 1, by simp at hrounds; omega⟩
    have hget : mem[k]? = some 0 := by
      rw [← List.head?_drop, hmem]
      rfl
    rw [copyLoop, hget]
    dsimp only
    by_cases hd : d < mem.length
    · rw [if_pos hd, if_pos rfl, writeAt_of_le (by simp; omega), List.set_eq_take_append_cons_drop, if_pos hd]
      rfl
    · unfold writeAt
      rw [if_neg hd, if_neg (by simp; omega)]
  | cons x t ih =>
    obtain ⟨rounds, rfl⟩ : ∃ m, rounds = m + 1 := ⟨rounds - 1, by simp at hrounds; omega⟩
    have hget : mem[k]? = some x := by
      rw [← List.head?_drop, hmem]
      rfl
    rw [List.length_cons] at hlt hrounds
    have hx : x ≠ 0 := fun hzero => ht (hzero ▸ List.mem_cons_self)
    rw [copyLoop, hget]
    dsimp only
    by_cases hd : d < mem.length
    · have hrest : (mem.set d x).drop (k + 1) = t ++ 0 :: (rest.set (d - (k + 1) - t.length - 1) x) := by
        obtain ⟨m, hm⟩ : ∃ m, d - (k + 1) - t.length = m + 1 := ⟨d - (k + 1) - t.length - 1, by omega⟩
        have hshift : mem.drop (k + 1) = t ++ 0 :: rest := by
          rw [← List.drop_drop, hmem]
          rfl
        rw [List.drop_set, if_neg (by omega), hshift, List.set_append_right _ _ (by omega), hm]
        rfl
      rw [if_pos hd, if_neg hx, ih hrest (fun h => ht (List.mem_cons_of_mem _ h)) (by omega) (by omega)]
      exact writeAt_cons _ hd
    · unfold writeAt
      rw [if_neg hd, if_neg (by simp; omega)]

/-- Where the destination is in the text, the loop overwrites the zero before it gets there, and does not end. -/
theorem copyLoop_eq_none {rounds : Nat} (hlt : k < d) (hmem : 0 ∉ (mem.drop k).take (d - k)) :
    copyLoop rounds mem d k = none := by
  induction rounds generalizing mem d k with
  | zero => rfl
  | succ rounds ih =>
    rw [copyLoop]
    cases hget : mem[k]? with
    | none => rfl
    | some b =>
      dsimp only
      by_cases hd : d < mem.length
      · have hdrop : mem.drop k = b :: mem.drop (k + 1) := by
          obtain ⟨hk, hb⟩ := List.getElem?_eq_some_iff.mp hget
          rw [List.drop_eq_getElem_cons hk, hb]
        rw [hdrop, show d - k = d - (k + 1) + 1 by omega, List.take_succ_cons, List.mem_cons, not_or] at hmem
        have hb : b ≠ 0 := Ne.symm hmem.1
        rw [if_pos hd, if_neg hb]
        apply ih (by omega)
        -- the byte that is next behind the source's is the one just written
        rw [show d + 1 - (k + 1) = d - (k + 1) + 1 by omega, List.take_add_one, List.drop_set, if_neg (by omega),
          List.take_set_of_le (by omega), List.getElem?_set_self (by rw [List.length_drop]; omega)]
        intro h
        rcases List.mem_append.mp h with h | h
        · exact hmem.2 h
        · exact hb (List.mem_singleton.mp h).symm
      · rw [if_neg hd]

/-- What is in front of the destination stays. -/
theorem take_copyLoop {rounds : Nat} (h : copyLoop rounds mem d k = some mem') (hn : n ≤ d) :
    mem'.take n = mem.take n ∧ mem'.length = mem.length := by
  induction rounds generalizing mem d k with
  | zero => exact nomatch h
  | succ rounds ih =>
    rw [copyLoop] at h
    cases hget : mem[k]? with
    | none =>
      rw [hget] at h
      exact nomatch h
    | some b =>
      rw [hget] at h
      dsimp only at h
      split_ifs at h with hd hb
      · obtain rfl := Option.some.inj h
        exact ⟨List.take_set_of_le hn, List.length_set⟩
      · obtain ⟨htake, hlength⟩ := ih h (by omega)
        rw [htake, hlength]
        exact ⟨List.take_set_of_le hn, List.length_set⟩

end CString

end CoActionOS
