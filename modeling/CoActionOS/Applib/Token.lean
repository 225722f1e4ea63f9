import CoActionOS.Applib.String
import CoActionOS.Lib.Runs

/-!
# Tokens

A token object copies a string of at most its capacity and replaces the delimiters by zeros.  `construct` counts the
pieces, `at` walks to one of them; a pointer into the buffer is the bytes from it on, and `none` stands for a scan that
leaves the buffer.  `splits` compares both with the maximal runs of the characters copied.
-/

namespace CoActionOS

open CString

namespace Token

/-! ### The code -/

structure Object where
  data : List UInt8
  numTokens : Nat
  stringSize : Nat

/-- The inner loop of `construct`: a delimiter becomes zero. -/
def cut (delim : List UInt8) (b : UInt8) : UInt8 := if b ∈ delim then 0 else b

/-- The loop of `construct`, from `p` on: the bytes it leaves there, and the number of tokens. -/
def scan (delim : List UInt8) : Nat → List UInt8 → Bool → Nat → Option (List UInt8 × Nat)
  | 0, p, _, numTokens => some (p, numTokens)
  | _ + 1, [], _, _ => none
  | i + 1, b :: p, onToken, numTokens =>
    if cut delim b ≠ 0 then
      (scan delim i p true (if onToken then numTokens else numTokens + 1)).map fun r => (cut delim b :: r.1, r.2)
    else
      (scan delim i p false numTokens).map fun r => (cut delim b :: r.1, r.2)

/-- `construct`, the string being in the buffer. -/
def construct (data delim : List UInt8) : Option Object := do
  let size ← (textAt data 0).map List.length
  let (data, numTokens) ← scan delim size data false 0
  some ⟨data, numTokens, size⟩

/-- The buffer before the constructor of `TokenStatic` copies the string. -/
def blank (capacity : BitVec 32) : StringBasic where
  capacity := capacity.toNat
  capacity_lt := capacity.isLt
  data := List.replicate (capacity.toNat + 1) 0
  length_data := List.length_replicate
  terminated := List.mem_replicate.mpr ⟨Nat.succ_ne_zero _, rfl⟩

/-- The constructor of `TokenStatic`. -/
def create (capacity : BitVec 32) (s delim : StringBasic.Text) : Option Object :=
  ((blank capacity).run (.assign (.outside s))).bind (construct · delim.chars)

/-- The loop at the beginning of `at` that skips zeros. -/
def skip : Nat → List UInt8 → Option (List UInt8)
  | 0, p => some p
  | _ + 1, [] => none
  | i + 1, b :: p => if b = 0 then skip i p else some (b :: p)

/-- The loop of `at` that counts tokens; it stands at `p`. -/
def walk (n : Nat) (p : List UInt8) (onToken : Bool) (token : Nat) : Option (List UInt8) :=
  if token = n then some p
  else match p with
    | _ :: b :: p =>
      if b ≠ 0 then walk n (b :: p) true (if onToken then token else token + 1)
      else walk n (b :: p) false token
    | _ => none

/-- `at`; the null pointer is the inner `none`. -/
def Object.at (t : Object) (n : BitVec 32) : Option (Option (List UInt8)) :=
  if t.numTokens ≤ n.toNat then some none
  else ((skip t.stringSize t.data).bind fun p => walk n.toNat p true 0).map some

/-! ### The reference split -/

/-- The maximal runs of characters that are no delimiters. -/
def pieces (delim s : List UInt8) : List (List UInt8) := runs (fun c => decide (c ∈ delim)) s

/-- The object has the pieces as its tokens: a pointer into the buffer for each, and null behind them. -/
def Splits (t : Object) (ps : List (List UInt8)) : Prop :=
  t.numTokens = ps.length ∧
    ∀ n : BitVec 32, match ps[n.toNat]? with
      | some piece => ∃ p, t.at n = some (some p) ∧ p <:+ t.data ∧ 0 ∈ p ∧ text p = piece
      | none => t.at n = some none

/-! ### Runs between zeros -/

/-- The pieces between zeros. -/
def zeroRuns (l : List UInt8) : List (List UInt8) := runs (fun c => decide (c = 0)) l

/-- The runs that begin behind a place, which is in a run or not. -/
def later (onToken : Bool) (l : List UInt8) : List (List UInt8) :=
  if onToken then zeroRuns (l.dropWhile fun c => decide (c ≠ 0)) else zeroRuns l

variable {b : UInt8} {l p : List UInt8} {delim : List UInt8} {on : Bool} {n token : Nat}

theorem zeroRuns_zero_cons (l : List UInt8) : zeroRuns (0 :: l) = zeroRuns l := Runs.cons_of_pos (by decide) l

theorem zeroRuns_cons (hb : b ≠ 0) (l : List UInt8) : zeroRuns (b :: l) = text (b :: l) :: later true l := by
  rw [text_cons_of_ne hb]
  refine (Runs.cons_of_neg (p := fun c : UInt8 => decide (c = 0)) (decide_eq_false hb) l).trans ?_
  simp only [later, zeroRuns, text, if_true, decide_not]

theorem later_zero_cons (on : Bool) (l : List UInt8) : later on (0 :: l) = later false l := by
  cases on with
  | true => exact zeroRuns_zero_cons l
  | false => exact zeroRuns_zero_cons l

theorem later_true_cons (hb : b ≠ 0) (l : List UInt8) : later true (b :: l) = later true l := by
  have hdrop := List.dropWhile_cons_of_pos (p := fun c : UInt8 => decide (c ≠ 0)) (l := l) (decide_eq_true hb)
  show zeroRuns ((b :: l).dropWhile _) = _
  rw [hdrop]
  rfl

theorem later_false_cons (hb : b ≠ 0) (l : List UInt8) : later false (b :: l) = text (b :: l) :: later true l :=
  zeroRuns_cons hb l

/-! ### construct -/

/-- The loop counts the runs that begin in the bytes it goes over. -/
theorem scan_eq (delim p l : List UInt8) (on : Bool) (numTokens : Nat) :
    scan delim l.length (l ++ p) on numTokens =
      some (l.map (cut delim) ++ p, numTokens + (later on (l.map (cut delim))).length) := by
  induction l generalizing on numTokens with
  | nil => cases on <;> rfl
  | cons b l ih =>
    rw [List.length_cons, List.cons_append, scan, List.map_cons]
    by_cases hb : cut delim b = 0
    · rw [if_neg (not_not_intro hb), ih, hb, later_zero_cons]
      rfl
    · rw [if_pos hb, ih]
      cases on with
      | true =>
        rw [later_true_cons hb]
        rfl
      | false =>
        rw [later_false_cons hb, List.length_cons, if_neg Bool.false_ne_true, Nat.add_right_comm, Nat.add_assoc]
        rfl

/-- The runs of the string are those between the zeros in the buffer. -/
theorem zeroRuns_map_cut (hl : 0 ∉ l) : zeroRuns (l.map (cut delim)) = pieces delim l := by
  refine Runs.map _ (cut delim) (fun y _ hy => ?_) (fun y hy hnot => ?_)
  · exact decide_eq_true (if_pos (of_decide_eq_true hy))
  · have hcut : cut delim y = y := if_neg (of_decide_eq_false hnot)
    exact ⟨hcut, decide_eq_false fun hzero => hl (hzero ▸ hy)⟩

/-! ### at -/

/-- Where there is a run in the first bytes, the first loop stops at the first run. -/
theorem exists_skip {i : Nat} (h : zeroRuns (l.take i) ≠ []) :
    ∃ b p, skip i l = some (b :: p) ∧ b ≠ 0 ∧ b :: p <:+ l ∧ zeroRuns (b :: p) = zeroRuns l := by
  induction i generalizing l with
  | zero => exact absurd rfl h
  | succ i ih =>
    cases l with
    | nil => exact absurd rfl h
    | cons b l =>
      by_cases hb : b = 0
      · subst hb
        rw [List.take_succ_cons, zeroRuns_zero_cons] at h
        obtain ⟨b, p, hskip, hb, hsuffix, hruns⟩ := ih h
        refine ⟨b, p, ?_, hb, List.suffix_cons_iff.mpr (Or.inr hsuffix), ?_⟩
        · rw [skip, if_pos rfl, hskip]
        · rw [hruns, zeroRuns_zero_cons]
      · exact ⟨b, l, if_neg hb, hb, List.suffix_refl _, rfl⟩

theorem walk_self (n : Nat) (p : List UInt8) (on : Bool) : walk n p on n = some p := by
  unfold walk
  exact if_pos rfl

/-- The second loop stops at the run it looks for. -/
theorem exists_walk (on : Bool) (token : Nat) {piece : List UInt8} (hlt : token < n)
    (h : (later on l)[n - token - 1]? = some piece) :
    ∃ p, walk n (b :: l) on token = some p ∧ p <:+ l ∧ p ≠ [] ∧ text p = piece := by
  induction l generalizing b on token with
  | nil =>
    have hnil : later on [] = [] := by cases on <;> rfl
    rw [hnil] at h
    exact nomatch h
  | cons c l ih =>
    rw [walk, if_neg (Nat.ne_of_lt hlt)]
    by_cases hc : c = 0
    · subst hc
      rw [later_zero_cons] at h
      obtain ⟨p, hwalk, hsuffix, hrest⟩ := ih (b := 0) _ _ hlt h
      exact ⟨p, hwalk, List.suffix_cons_iff.mpr (Or.inr hsuffix), hrest⟩
    · rw [if_pos hc]
      cases on with
      | true =>
        rw [later_true_cons hc] at h
        obtain ⟨p, hwalk, hsuffix, hrest⟩ := ih (b := c) _ _ hlt h
        exact ⟨p, hwalk, List.suffix_cons_iff.mpr (Or.inr hsuffix), hrest⟩
      | false =>
        rw [later_false_cons hc] at h
        by_cases hn : token + 1 = n
        · rw [← hn, Nat.add_sub_cancel_left, Nat.sub_self] at h
          refine ⟨c :: l, ?_, List.suffix_refl _, List.cons_ne_nil _ _, Option.some.inj h⟩
          rw [if_neg Bool.false_ne_true, hn, walk_self]
        · obtain ⟨k, hk⟩ : ∃ k, n - token - 1 = k + 1 := ⟨n - token - 2, by omega⟩
          rw [hk, List.getElem?_cons_succ, show k = n - (token + 1) - 1 by omega] at h
          obtain ⟨p, hwalk, hsuffix, hrest⟩ := ih (b := c) _ _ (show token + 1 < n by omega) h
          exact ⟨p, hwalk, List.suffix_cons_iff.mpr (Or.inr hsuffix), hrest⟩

/-- The two loops of `at` find the run. -/
theorem exists_at {piece : List UInt8} {i : Nat} (hruns : zeroRuns (l.take i) ≠ [])
    (h : (zeroRuns l)[n]? = some piece) :
    ∃ p, ((skip i l).bind fun p => walk n p true 0) = some p ∧ p <:+ l ∧ p ≠ [] ∧ text p = piece := by
  obtain ⟨b, p, hskip, hb, hsuffix, hsame⟩ := exists_skip hruns
  rw [← hsame, zeroRuns_cons hb] at h
  rw [hskip, Option.bind_some]
  by_cases hn : n = 0
  · subst hn
    exact ⟨b :: p, walk_self _ _ _, hsuffix, List.cons_ne_nil _ _, Option.some.inj h⟩
  · obtain ⟨k, rfl⟩ := Nat.exists_eq_succ_of_ne_zero hn
    rw [Nat.succ_eq_add_one, List.getElem?_cons_succ] at h
    obtain ⟨q, hwalk, hq, hne, htext⟩ := exists_walk (b := b) true 0 (Nat.succ_pos k) h
    exact ⟨q, hwalk, (hq.trans (List.suffix_cons b p)).trans hsuffix, hne, htext⟩

/-! ### The whole object -/

/-- A string in front of zeros. -/
theorem construct_splits {zeros : List UInt8} (hl : 0 ∉ l) (hzeros : ∀ z ∈ zeros, z = 0) (hne : zeros ≠ []) :
    ∃ t, construct (l ++ zeros) delim = some t ∧ Splits t (pieces delim l) := by
  obtain ⟨zeros', rfl⟩ : ∃ zeros', zeros = 0 :: zeros' := by
    cases zeros with
    | nil => exact absurd rfl hne
    | cons z zeros' => exact ⟨zeros', by rw [hzeros z List.mem_cons_self]⟩
  have hruns : zeroRuns (l.map (cut delim) ++ 0 :: zeros') = pieces delim l := by
    rw [← zeroRuns_map_cut hl]
    exact Runs.append_of_forall fun z hz => decide_eq_true (hzeros z hz)
  have hconstruct : construct (l ++ 0 :: zeros') delim =
      some ⟨l.map (cut delim) ++ 0 :: zeros', (pieces delim l).length, l.length⟩ := by
    have htext : textAt (l ++ 0 :: zeros') 0 = some l := by
      rw [textAt_of_le (List.mem_append_right _ List.mem_cons_self) (Nat.zero_le _), List.drop_zero, text_append_zero hl]
    rw [construct, htext]
    show (scan delim l.length (l ++ 0 :: zeros') false 0).bind _ = _
    rw [scan_eq, Nat.zero_add, ← zeroRuns_map_cut hl]
    rfl
  refine ⟨_, hconstruct, rfl, fun n => ?_⟩
  cases hpiece : (pieces delim l)[n.toNat]? with
  | none => exact if_pos (List.getElem?_eq_none_iff.mp hpiece)
  | some piece =>
    obtain ⟨hlt, -⟩ := List.getElem?_eq_some_iff.mp hpiece
    have hfront : (l.map (cut delim) ++ 0 :: zeros').take l.length = l.map (cut delim) := by
      rw [List.take_append_of_le_length (by rw [List.length_map]), ← List.length_map (cut delim), List.take_length]
    obtain ⟨p, hp, hsuffix, hpne, htext⟩ := exists_at (l := l.map (cut delim) ++ 0 :: zeros') (i := l.length)
      (n := n.toNat) (by rw [hfront, zeroRuns_map_cut hl]; exact List.ne_nil_of_length_pos (by omega))
      (by rw [hruns]; exact hpiece)
    refine ⟨p, ?_, hsuffix, ?_, htext⟩
    · rw [Object.at, if_neg (show ¬ (pieces delim l).length ≤ n.toNat by omega), hp]
      rfl
    · -- the last byte of the buffer is a zero, and `p` has it
      have hlast : p.getLast hpne = 0 := by
        rw [hsuffix.getLast hpne, List.getLast_append_of_ne_nil _ (List.cons_ne_nil _ _)]
        exact hzeros _ (List.getLast_mem _)
      exact hlast ▸ List.getLast_mem hpne

/-- The tokens are the maximal runs of as many characters as the object has room for. -/
theorem splits (capacity : BitVec 32) (s delim : StringBasic.Text) :
    ∃ t, create capacity s delim = some t ∧ Splits t (pieces delim.chars (s.chars.take capacity.toNat)) := by
  have hassign : (blank capacity).run (.assign (.outside s)) =
      some (s.chars.take capacity.toNat ++ List.replicate (capacity.toNat + 1 - (s.chars.take capacity.toNat).length) 0) := by
    have hfrom := StringBasic.assignFrom_of_readable (s := blank capacity) (s.chars ++ [0]) capacity.toNat
      (readable_append_zero _ _ _)
    rw [text_append_zero s.zero_notMem] at hfrom
    have hmin : min capacity.toNat (blank capacity).capacity = capacity.toNat := Nat.min_self _
    rw [hmin] at hfrom
    exact hfrom
  have hlength : (s.chars.take capacity.toNat).length ≤ capacity.toNat := by
    rw [List.length_take]
    exact Nat.min_le_left _ _
  rw [create, hassign, Option.bind_some]
  refine construct_splits (fun hmem => s.zero_notMem (List.mem_of_mem_take hmem)) ?_ ?_
  · exact fun z hz => List.eq_of_mem_replicate hz
  · exact List.ne_nil_of_length_pos (by rw [List.length_replicate]; omega)

/-- A `TokenTiny` of seventeen characters loses the piece behind the blank. -/
theorem not_splits : ¬ ∀ (capacity : BitVec 32) (s delim : StringBasic.Text),
    ∃ t, create capacity s delim = some t ∧ Splits t (pieces delim.chars s.chars) := by
  intro h
  obtain ⟨t, ht, hcount, -⟩ := h 16 ⟨List.replicate 16 97 ++ [32, 98], by decide⟩ ⟨[32], by decide⟩
  have hcreate : (create 16 ⟨List.replicate 16 97 ++ [32, 98], by decide⟩ ⟨[32], by decide⟩).map Object.numTokens = some 1 := by
    decide
  rw [ht] at hcreate
  rw [Option.some.inj hcreate] at hcount
  revert hcount
  decide

end Token

end CoActionOS
