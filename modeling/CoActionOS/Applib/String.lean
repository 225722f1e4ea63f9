import CoActionOS.Lib.CString
import Mathlib.Algebra.Group.Nat.Defs
import Mathlib.Tactic.SplitIfs

/-!
# Strings of a fixed capacity

The methods of `String.cpp` that edit a string, over the memory of the class: a buffer of one byte more than the capacity.
An argument is a string outside the buffer, or one that begins in the string's own text.  What a method does behind the
end of the text depends on what earlier calls left there, so the whole buffer is the state.

Three of the methods do not always do what their names say:

* `erase` writes its zero behind the bytes that it has moved only where at most that many follow,
* `insert` at a position behind the end of the text puts in what it finds there,
* `assign` clears the buffer before it reads an argument that is in it.

`contract_iff` says when they do.
-/

namespace CoActionOS

open CString

/-! ### The code -/

/-- The object that `data` and `c_str` point to. -/
structure StringBasic where
  capacity : Nat
  capacity_lt : capacity < 2 ^ 32
  data : List UInt8
  length_data : data.length = capacity + 1
  terminated : 0 ∈ data

namespace StringBasic

/-- A string in memory of its own. -/
structure Text where
  chars : List UInt8
  zero_notMem : 0 ∉ chars

def text (s : StringBasic) : List UInt8 := CString.text s.data

/-- `String::size` -/
def size (s : StringBasic) : Nat := s.text.length

/-- An argument of type `const char *`. -/
inductive Chars (s : StringBasic) where
  | outside (t : Text)
  | own (off : Nat) (h : off ≤ s.size)

/-- An argument of type `const String &`. -/
inductive Source where
  | other (a : StringBasic)
  | self

inductive Call (s : StringBasic) where
  | assign (a : Chars s)
  | assignN (a : Chars s) (n : BitVec 32)
  | assignString (a : Source) (subpos sublen : BitVec 32)
  | append (a : Chars s)
  | appendChar (c : UInt8)
  | insert (pos : BitVec 32) (str : Chars s)
  | erase (pos len : BitVec 32)

namespace Chars

variable {s : StringBasic}

/-- The string that the argument is when the method is called. -/
def chars : Chars s → List UInt8
  | outside t => t.chars
  | own off _ => s.text.drop off

/-- The memory from the argument on, `data` being the buffer by then. -/
def mem (data : List UInt8) : Chars s → List UInt8
  | outside t => t.chars ++ [0]
  | own off _ => data.drop off

/-- `strcpy(data() + d, a)` -/
def strcpy (data : List UInt8) (d : Nat) : Chars s → Option (List UInt8)
  | outside t => writeAt data d (t.chars ++ [0])
  | own off _ => strcpyWithin data d off

end Chars

namespace Source

def text (s : StringBasic) : Source → List UInt8
  | other a => a.text
  | self => s.text

def mem (data : List UInt8) : Source → List UInt8
  | other a => a.data
  | self => data

end Source

/-- `clear` -/
def clear (s : StringBasic) : List UInt8 := List.replicate (s.capacity + 1) 0

/-- `assign(a, n)`, given the memory from `a` on when the buffer is clear. -/
def assignFrom (s : StringBasic) (src : List UInt8) (n : Nat) : Option (List UInt8) :=
  (strncpyBytes src (if n < s.capacity then n else s.capacity)).bind (writeAt s.clear 0)

/-- Two objects share the 32-bit address space, so the sum of their sizes does not wrap. -/
def append (s : StringBasic) (a : Chars s) : Option (List UInt8) :=
  if s.size + a.chars.length ≤ s.capacity then a.strcpy s.data s.size else some s.data

/-- `append` of a character; `strncat` appends nothing where it is zero. -/
def appendChar (s : StringBasic) (c : UInt8) : Option (List UInt8) :=
  if s.size + 1 ≤ s.capacity then writeAt s.data s.size ((if c = 0 then [] else [c]) ++ [0]) else some s.data

/-- `insert`; its local buffer has `capacity()` bytes. -/
def insert (s : StringBasic) (pos : BitVec 32) (str : Chars s) : Option (List UInt8) :=
  if s.size + str.chars.length ≤ s.capacity then do
    let buffer ← textAt s.data pos.toNat
    guard (buffer.length + 1 ≤ s.capacity)
    let data ← str.strcpy s.data pos.toNat
    let p ← textAt data 0
    writeAt data p.length (buffer ++ [0])
  else
    some s.data

/-- `erase`; both sums are of type `unsigned`. -/
def erase (s : StringBasic) (pos len : BitVec 32) : Option (List UInt8) :=
  if len ≠ -1 ∧ (pos + len).toNat < s.size then
    (strcpyWithin s.data pos.toNat (pos + len).toNat).map fun data => data.set (pos + len).toNat 0
  else if pos.toNat < s.size then
    some (s.data.set pos.toNat 0)
  else
    some s.data

/-- The buffer after a call, `none` where the method reads or writes outside an object. -/
def run (s : StringBasic) : Call s → Option (List UInt8)
  | .assign a => s.assignFrom (a.mem s.clear) s.capacity
  | .assignN a n => s.assignFrom (a.mem s.clear) n.toNat
  | .assignString a subpos sublen => s.assignFrom ((a.mem s.clear).drop subpos.toNat) sublen.toNat
  | .append a => s.append a
  | .appendChar c => s.appendChar c
  | .insert pos str => s.insert pos str
  | .erase pos len => s.erase pos len

/-! ### The list operations -/

/-- The characters that a call asks for. -/
def expected (s : StringBasic) : Call s → List UInt8
  | .assign a => a.chars
  | .assignN a n => a.chars.take n.toNat
  | .assignString a subpos sublen => ((a.text s).drop subpos.toNat).take sublen.toNat
  | .append a => s.text ++ a.chars
  | .appendChar c => s.text ++ [c]
  | .insert pos str => s.text.take pos.toNat ++ str.chars ++ s.text.drop pos.toNat
  | .erase pos len => s.text.take pos.toNat ++ s.text.drop (pos.toNat + len.toNat)

/-- The text is that of the list operation, truncated to the capacity, or it did not change. -/
def Contract (s : StringBasic) (c : Call s) : Prop :=
  ∃ data, s.run c = some data ∧ data.length = s.capacity + 1 ∧ 0 ∈ data ∧ (CString.text data).length ≤ s.capacity ∧
    (CString.text data = (s.expected c).take s.capacity ∨ CString.text data = s.text)

/-- Where `strcpy` to the offset `d` would overwrite the argument's zero. -/
def Chars.Overlaps {s : StringBasic} (d : Nat) : Chars s → Prop
  | outside _ => False
  | own off _ => off < d ∧ d ≤ s.size

/-- When a call keeps the contract. -/
def Sound (s : StringBasic) : Call s → Prop
  | .assign (.outside _) | .assignN (.outside _) _ | .appendChar _ => True
  | .assign (.own off _) => off = s.size
  | .assignN (.own off _) n => n = 0 ∨ off = s.size
  | .assignString (.other a) subpos sublen =>
    subpos.toNat ≤ a.size ∨
      Readable (a.data.drop subpos.toNat) (min sublen.toNat s.capacity) ∧
        -- behind its end the other string has nothing, or what this one has
        ((CString.text (a.data.drop subpos.toNat)).take (min sublen.toNat s.capacity) = [] ∨
          (CString.text (a.data.drop subpos.toNat)).take (min sublen.toNat s.capacity) = s.text)
  | .assignString .self subpos sublen =>
    sublen = 0 ∨ s.capacity = 0 ∨ s.size ≤ subpos.toNat ∧ subpos.toNat ≤ s.capacity
  | .append a => s.size + a.chars.length ≤ s.capacity → ¬ a.Overlaps s.size
  | .insert pos str =>
    s.size + str.chars.length ≤ s.capacity → ¬ str.Overlaps pos.toNat ∧
      if pos.toNat ≤ s.size then s.size - pos.toNat < s.capacity
      else pos.toNat + str.chars.length ≤ s.capacity ∧ 0 ∈ s.data.drop pos.toNat ∧
        (CString.text (s.data.drop pos.toNat) = [] ∨ CString.text (s.data.drop pos.toNat) = str.chars)
  | .erase pos len =>
    len ≠ -1 → (pos + len).toNat < s.size → pos.toNat + len.toNat < 2 ^ 32 ∧ s.size ≤ pos.toNat + 2 * len.toNat

/-! ### The buffer -/

variable {s : StringBasic}

theorem zero_notMem_text (s : StringBasic) : 0 ∉ s.text := CString.zero_notMem_text _

theorem size_le (s : StringBasic) : s.size ≤ s.capacity := by
  have hlt := length_text_lt s.terminated
  rw [s.length_data] at hlt
  exact Nat.le_of_lt_succ hlt

/-- A call keeps the contract where its result does. -/
theorem contract_of_run {c : Call s} {data : List UInt8} (hrun : s.run c = some data)
    (hlength : data.length = s.capacity + 1) (hzero : 0 ∈ data)
    (htext : CString.text data = (s.expected c).take s.capacity ∨ CString.text data = s.text) : s.Contract c := by
  have hlt := length_text_lt hzero
  exact ⟨data, hrun, hlength, hzero, by omega, htext⟩

theorem not_contract_of_none {c : Call s} (hrun : s.run c = none) : ¬ s.Contract c := by
  rintro ⟨data, hsome, -⟩
  rw [hrun] at hsome
  exact nomatch hsome

/-- The text of the buffer after a call that keeps the contract. -/
theorem text_of_contract {c : Call s} {data : List UInt8} (h : s.Contract c) (hrun : s.run c = some data) :
    CString.text data = (s.expected c).take s.capacity ∨ CString.text data = s.text := by
  obtain ⟨data', hrun', -, -, -, htext⟩ := h
  rw [hrun] at hrun'
  obtain rfl := Option.some.inj hrun'
  exact htext

/-! ### assign -/

theorem min_capacity (s : StringBasic) (n : Nat) : (if n < s.capacity then n else s.capacity) = min n s.capacity := by
  split_ifs <;> omega

/-- The text that was asked for, and zeros. -/
theorem assignFrom_of_readable (src : List UInt8) (n : Nat) (h : Readable src (min n s.capacity)) :
    s.assignFrom src n = some ((CString.text src).take (min n s.capacity) ++
      List.replicate (s.capacity + 1 - ((CString.text src).take (min n s.capacity)).length) 0) := by
  have hlength : ((CString.text src).take (min n s.capacity)).length ≤ min n s.capacity := by
    rw [List.length_take]
    exact Nat.min_le_left _ _
  have hclear : s.clear.length = s.capacity + 1 := List.length_replicate
  rw [assignFrom, min_capacity, strncpyBytes_of_readable h, Option.bind_some, writeAt_of_le]
  · rw [List.take_zero, List.nil_append, List.length_append, List.length_replicate, Nat.zero_add,
      Nat.add_sub_cancel' hlength, clear, List.drop_replicate, List.append_assoc, List.replicate_append_replicate]
    congr 3
    omega
  · rw [List.length_append, List.length_replicate, hclear]
    omega

theorem assignFrom_of_not_readable {src : List UInt8} {n : Nat} (h : ¬ Readable src (min n s.capacity)) :
    s.assignFrom src n = none := by
  rw [assignFrom, min_capacity, strncpyBytes, if_neg h]
  rfl

/-- An assignment keeps the contract where it may read its argument, and reads what was asked for. -/
theorem contract_assign_iff {c : Call s} (src : List UInt8) (n : Nat) (hrun : s.run c = s.assignFrom src n) :
    s.Contract c ↔ Readable src (min n s.capacity) ∧
      ((CString.text src).take (min n s.capacity) = (s.expected c).take s.capacity ∨
        (CString.text src).take (min n s.capacity) = s.text) := by
  by_cases h : Readable src (min n s.capacity)
  · have hdata := assignFrom_of_readable _ _ h
    have hlength : ((CString.text src).take (min n s.capacity)).length ≤ s.capacity := by
      rw [List.length_take]
      omega
    obtain ⟨k, hk⟩ : ∃ k, s.capacity + 1 - ((CString.text src).take (min n s.capacity)).length = k + 1 :=
      ⟨s.capacity - ((CString.text src).take (min n s.capacity)).length, by omega⟩
    rw [hk, List.replicate_succ] at hdata
    have htext := text_append_zero (b := List.replicate k 0)
      fun hmem : 0 ∈ (CString.text src).take (min n s.capacity) =>
        CString.zero_notMem_text src (List.mem_of_mem_take hmem)
    constructor
    · intro hcontract
      exact ⟨h, htext ▸ text_of_contract hcontract (hrun.trans hdata)⟩
    · rintro ⟨-, hor⟩
      refine contract_of_run (hrun.trans hdata) ?_ (List.mem_append_right _ List.mem_cons_self) (by rwa [htext])
      rw [List.length_append, List.length_cons, List.length_replicate]
      omega
  · constructor
    · intro hcontract
      exact absurd hcontract (not_contract_of_none (hrun.trans (assignFrom_of_not_readable h)))
    · exact fun hand => absurd hand.1 h

theorem text_clear (s : StringBasic) (k : Nat) : CString.text (s.clear.drop k) = [] := by
  rw [clear, List.drop_replicate]
  cases s.capacity + 1 - k <;> rfl

theorem readable_clear {k n : Nat} : Readable (s.clear.drop k) n ↔ n = 0 ∨ k ≤ s.capacity := by
  unfold Readable
  rw [clear, List.drop_replicate, List.take_replicate, List.length_replicate, List.mem_replicate]
  constructor
  · rintro (⟨h, -⟩ | h) <;> omega
  · rintro (h | h)
    · exact Or.inr (by omega)
    · by_cases hn : n = 0
      · exact Or.inr (by omega)
      · exact Or.inl ⟨by omega, rfl⟩

theorem contract_assign_outside {c : Call s} {t : Text} {n : Nat} (hrun : s.run c = s.assignFrom (t.chars ++ [0]) n)
    (hexpected : (s.expected c).take s.capacity = t.chars.take (min n s.capacity)) : s.Contract c := by
  rw [contract_assign_iff _ _ hrun, hexpected, text_append_zero t.zero_notMem]
  exact ⟨readable_append_zero _ _ _, Or.inl rfl⟩

/-- An argument in the buffer is cleared with it. -/
theorem contract_assign_own_iff {c : Call s} {k n : Nat} (hrun : s.run c = s.assignFrom (s.clear.drop k) n)
    (hexpected : (s.expected c).take s.capacity = (s.text.drop k).take (min n s.capacity)) :
    s.Contract c ↔ (min n s.capacity = 0 ∨ k ≤ s.capacity) ∧ (min n s.capacity = 0 ∨ s.size ≤ k) := by
  have hsize := s.size_le
  rw [contract_assign_iff _ _ hrun, hexpected, readable_clear, text_clear, List.take_nil]
  refine and_congr_right fun _ => ?_
  have hnil : [] = (s.text.drop k).take (min n s.capacity) ↔ min n s.capacity = 0 ∨ s.size ≤ k := by
    rw [eq_comm, List.take_eq_nil_iff, List.drop_eq_nil_iff]
    rfl
  rw [hnil]
  refine ⟨fun h => h.elim id fun htext => Or.inr ?_, Or.inl⟩
  rw [size, ← htext]
  exact Nat.zero_le _

/-! ### append -/

namespace Chars

theorem zero_notMem_chars (a : Chars s) : 0 ∉ a.chars := by
  cases a with
  | outside t => exact t.zero_notMem
  | own off h => exact fun hmem => zero_notMem_text s (List.mem_of_mem_drop hmem)

/-- The buffer from an offset in the text on. -/
theorem exists_drop_data {off : Nat} (h : off ≤ s.size) : ∃ rest, s.data.drop off = s.text.drop off ++ 0 :: rest := by
  obtain ⟨rest, hrest⟩ := exists_eq_text_append s.terminated
  refine ⟨rest, ?_⟩
  conv_lhs => rw [hrest]
  exact List.drop_append_of_le_length h

theorem strcpy_of_not_overlaps {a : Chars s} {d : Nat} (h : ¬ a.Overlaps d) :
    a.strcpy s.data d = writeAt s.data d (a.chars ++ [0]) := by
  cases a with
  | outside t => rfl
  | own off hoff =>
    obtain ⟨rest, hrest⟩ := exists_drop_data hoff
    have hnot : 0 ∉ s.text.drop off := fun hmem => zero_notMem_text s (List.mem_of_mem_drop hmem)
    have hlength : (Chars.own off hoff).chars.length = s.size - off := List.length_drop
    have hsize := s.size_le
    have hrounds : (Chars.own off hoff).chars.length < s.data.length + 1 := by
      rw [hlength, s.length_data]
      omega
    have hor : d ≤ off ∨ s.size < d := by
      by_contra hnone
      exact h ⟨by omega, by omega⟩
    rcases hor with hd | hd
    · exact copyLoop_of_le hd hrest hnot hrounds
    · exact copyLoop_of_lt hrest hnot (by omega) hrounds

theorem strcpy_of_overlaps {a : Chars s} {d : Nat} (h : a.Overlaps d) : a.strcpy s.data d = none := by
  cases a with
  | outside t => exact absurd h id
  | own off hoff =>
    obtain ⟨hlt, hd⟩ := h
    obtain ⟨rest, hrest⟩ := exists_drop_data hoff
    refine copyLoop_eq_none hlt ?_
    rw [hrest, List.take_append_of_le_length (by rw [List.length_drop]; exact Nat.sub_le_sub_right hd off)]
    exact fun hmem => zero_notMem_text s (List.mem_of_mem_drop (List.mem_of_mem_take hmem))

end Chars

/-- A string that fits goes to the end of the text. -/
theorem contract_of_writeAt_size {c : Call s} {bs : List UInt8} (hrun : s.run c = writeAt s.data s.size (bs ++ [0]))
    (hbs : 0 ∉ bs) (hfits : s.size + bs.length ≤ s.capacity)
    (htext : s.text ++ bs = (s.expected c).take s.capacity ∨ s.text ++ bs = s.text) : s.Contract c := by
  have hwrite : writeAt s.data s.size (bs ++ [0]) = _ := writeAt_of_le
    (by rw [List.length_append, s.length_data, List.length_cons, List.length_nil]; omega)
  obtain ⟨hresult, hzero⟩ := text_writeAt hwrite hbs (Nat.le_refl _)
  have htake : (CString.text s.data).take s.size = s.text := List.take_length
  refine contract_of_run (hrun.trans hwrite) ((length_writeAt hwrite).trans s.length_data) hzero ?_
  rwa [hresult, htake]

theorem contract_unchanged {c : Call s} (hrun : s.run c = some s.data) : s.Contract c :=
  contract_of_run hrun s.length_data s.terminated (Or.inr rfl)

theorem contract_append_iff (a : Chars s) :
    s.Contract (.append a) ↔ (s.size + a.chars.length ≤ s.capacity → ¬ a.Overlaps s.size) := by
  have hrun : s.run (.append a) = s.append a := rfl
  unfold append at hrun
  by_cases hroom : s.size + a.chars.length ≤ s.capacity
  · rw [if_pos hroom] at hrun
    by_cases hover : a.Overlaps s.size
    · rw [Chars.strcpy_of_overlaps hover] at hrun
      exact iff_of_false (not_contract_of_none hrun) fun h => h hroom hover
    · rw [Chars.strcpy_of_not_overlaps hover] at hrun
      refine iff_of_true (contract_of_writeAt_size hrun a.zero_notMem_chars hroom (Or.inl ?_)) fun _ => hover
      exact (List.take_of_length_le (Nat.le_trans (Nat.le_of_eq List.length_append) hroom)).symm
  · rw [if_neg hroom] at hrun
    exact iff_of_true (contract_unchanged hrun) fun h => absurd h hroom

theorem contract_appendChar (s : StringBasic) (ch : UInt8) : s.Contract (.appendChar ch) := by
  have hrun : s.run (.appendChar ch) = s.appendChar ch := rfl
  unfold appendChar at hrun
  by_cases hroom : s.size + 1 ≤ s.capacity
  · rw [if_pos hroom] at hrun
    by_cases hch : ch = 0
    · rw [if_pos hch] at hrun
      exact contract_of_writeAt_size hrun List.not_mem_nil (by rw [List.length_nil]; omega) (Or.inr (List.append_nil _))
    · rw [if_neg hch] at hrun
      refine contract_of_writeAt_size hrun (by simpa using Ne.symm hch) hroom (Or.inl ?_)
      exact (List.take_of_length_le (Nat.le_trans (Nat.le_of_eq List.length_append) hroom)).symm
  · rw [if_neg hroom] at hrun
    exact contract_unchanged hrun

/-! ### insert -/

theorem run_insert_of_room (pos : BitVec 32) {str : Chars s} (hroom : s.size + str.chars.length ≤ s.capacity) :
    s.run (.insert pos str) = (textAt s.data pos.toNat).bind fun buffer =>
      if buffer.length + 1 ≤ s.capacity then
        (str.strcpy s.data pos.toNat).bind fun data =>
          (textAt data 0).bind fun p => writeAt data p.length (buffer ++ [0])
      else none := by
  show s.insert pos str = _
  rw [insert, if_pos hroom]
  cases textAt s.data pos.toNat with
  | none => rfl
  | some buffer =>
    by_cases hlength : buffer.length + 1 ≤ s.capacity
    · rw [Option.bind_some, if_pos hlength, Option.bind_eq_bind, Option.bind_some, guard, if_pos hlength]
      rfl
    · rw [Option.bind_some, if_neg hlength, Option.bind_eq_bind, Option.bind_some, guard, if_neg hlength]
      rfl

/-- At a position in the text, the string goes in where the local buffer holds the rest of the text. -/
theorem contract_insert_of_le {pos : BitVec 32} {str : Chars s} (hroom : s.size + str.chars.length ≤ s.capacity)
    (hover : ¬ str.Overlaps pos.toNat) (hpos : pos.toNat ≤ s.size) :
    s.Contract (.insert pos str) ↔ s.size - pos.toNat < s.capacity := by
  have hrun := run_insert_of_room pos hroom
  have hbuffer : textAt s.data pos.toNat = some (s.text.drop pos.toNat) := textAt_of_le s.terminated hpos
  have hlength : (s.text.drop pos.toNat).length = s.size - pos.toNat := List.length_drop
  rw [hbuffer, Option.bind_some, hlength] at hrun
  by_cases hfits : s.size - pos.toNat < s.capacity
  · refine iff_of_true ?_ hfits
    rw [if_pos (Nat.succ_le_of_lt hfits), Chars.strcpy_of_not_overlaps hover] at hrun
    have hwrite : writeAt s.data pos.toNat (str.chars ++ [0]) = _ := writeAt_of_le
      (by rw [List.length_append, s.length_data, List.length_cons, List.length_nil]; omega)
    obtain ⟨data, hdata⟩ : ∃ data, writeAt s.data pos.toNat (str.chars ++ [0]) = some data := ⟨_, hwrite⟩
    obtain ⟨htext, hzero⟩ := text_writeAt hdata str.zero_notMem_chars hpos
    have hlengthData := (length_writeAt hdata).trans s.length_data
    rw [hdata, Option.bind_some, textAt_of_le hzero (Nat.zero_le _), Option.bind_some, List.drop_zero] at hrun
    have hcount : (CString.text data).length = pos.toNat + str.chars.length := by
      rw [htext, List.length_append, List.length_take]
      exact congrArg (· + str.chars.length) (Nat.min_eq_left hpos)
    obtain ⟨data', hdata'⟩ : ∃ data', writeAt data (CString.text data).length (s.text.drop pos.toNat ++ [0]) = some data' :=
      ⟨_, writeAt_of_le (by
        rw [List.length_append, hlengthData, hcount, hlength, List.length_cons, List.length_nil]
        omega)⟩
    obtain ⟨htext', hzero'⟩ := text_writeAt hdata' (fun hmem => zero_notMem_text s (List.mem_of_mem_drop hmem)) (Nat.le_refl _)
    rw [List.take_length, htext] at htext'
    refine contract_of_run (hrun.trans hdata') ((length_writeAt hdata').trans hlengthData) hzero' (Or.inl ?_)
    rw [htext']
    refine (List.take_of_length_le ?_).symm
    show (s.text.take pos.toNat ++ str.chars ++ s.text.drop pos.toNat).length ≤ s.capacity
    rw [List.length_append, List.length_append, List.length_take, hlength]
    have hmin : min pos.toNat s.text.length = pos.toNat := Nat.min_eq_left hpos
    omega
  · refine iff_of_false (not_contract_of_none ?_) hfits
    rw [hrun, if_neg (by omega)]

/-- Behind the end of the text, what the buffer has there goes to the end of the text. -/
theorem contract_insert_of_lt {pos : BitVec 32} {str : Chars s} (hroom : s.size + str.chars.length ≤ s.capacity)
    (hover : ¬ str.Overlaps pos.toNat) (hpos : s.size < pos.toNat) :
    s.Contract (.insert pos str) ↔ pos.toNat + str.chars.length ≤ s.capacity ∧ 0 ∈ s.data.drop pos.toNat ∧
      (CString.text (s.data.drop pos.toNat) = [] ∨ CString.text (s.data.drop pos.toNat) = str.chars) := by
  have hrun := run_insert_of_room pos hroom
  have hexpected : (s.expected (.insert pos str)).take s.capacity = s.text ++ str.chars := by
    show (s.text.take pos.toNat ++ str.chars ++ s.text.drop pos.toNat).take s.capacity = _
    rw [List.take_of_length_le (Nat.le_of_lt hpos), List.drop_of_length_le (Nat.le_of_lt hpos), List.append_nil]
    exact List.take_of_length_le (by rw [List.length_append]; exact hroom)
  by_cases hzero : 0 ∈ s.data.drop pos.toNat
  · have hlt := length_text_lt hzero
    rw [List.length_drop, s.length_data] at hlt
    rw [textAt, if_pos hzero, Option.bind_some, if_pos (by omega), Chars.strcpy_of_not_overlaps hover] at hrun
    by_cases hfits : pos.toNat + str.chars.length ≤ s.capacity
    · obtain ⟨data, hdata⟩ : ∃ data, writeAt s.data pos.toNat (str.chars ++ [0]) = some data :=
        ⟨_, writeAt_of_le (by rw [List.length_append, s.length_data, List.length_cons, List.length_nil]; omega)⟩
      obtain ⟨htext, hzeroData⟩ := text_writeAt_of_lt hdata s.terminated hpos
      have hlengthData := (length_writeAt hdata).trans s.length_data
      rw [hdata, Option.bind_some, textAt_of_le hzeroData (Nat.zero_le _), Option.bind_some, List.drop_zero] at hrun
      have hcount : (CString.text data).length = s.size := congrArg List.length htext
      obtain ⟨data', hdata'⟩ : ∃ data', writeAt data (CString.text data).length
          (CString.text (s.data.drop pos.toNat) ++ [0]) = some data' :=
        ⟨_, writeAt_of_le (by
          rw [List.length_append, hlengthData, hcount, List.length_cons, List.length_nil]
          omega)⟩
      obtain ⟨htext', hzero'⟩ := text_writeAt hdata' (CString.zero_notMem_text _) (Nat.le_refl _)
      rw [List.take_length, htext] at htext'
      have hresult : CString.text data' = s.text ++ CString.text (s.data.drop pos.toNat) := htext'
      have hiff : CString.text data' = (s.expected (.insert pos str)).take s.capacity ∨ CString.text data' = s.text ↔
          CString.text (s.data.drop pos.toNat) = [] ∨ CString.text (s.data.drop pos.toNat) = str.chars := by
        rw [hexpected, hresult, List.append_cancel_left_eq, List.append_right_eq_self, or_comm]
      constructor
      · intro hcontract
        exact ⟨hfits, hzero, hiff.mp (text_of_contract hcontract (hrun.trans hdata'))⟩
      · rintro ⟨-, -, hor⟩
        exact contract_of_run (hrun.trans hdata') ((length_writeAt hdata').trans hlengthData) hzero' (hiff.mpr hor)
    · refine iff_of_false (not_contract_of_none ?_) fun h => hfits h.1
      have hnone : writeAt s.data pos.toNat (str.chars ++ [0]) = none :=
        if_neg (by rw [List.length_append, s.length_data, List.length_cons, List.length_nil]; omega)
      rw [hrun, hnone]
      rfl
  · refine iff_of_false (not_contract_of_none ?_) fun h => hzero h.2.1
    rw [hrun, textAt, if_neg hzero]
    rfl

theorem contract_insert_iff (pos : BitVec 32) (str : Chars s) :
    s.Contract (.insert pos str) ↔ s.Sound (.insert pos str) := by
  by_cases hroom : s.size + str.chars.length ≤ s.capacity
  · by_cases hover : str.Overlaps pos.toNat
    · refine iff_of_false (not_contract_of_none ?_) fun h => (h hroom).1 hover
      rw [run_insert_of_room _ hroom, Chars.strcpy_of_overlaps hover]
      cases textAt s.data pos.toNat with
      | none => rfl
      | some buffer =>
        rw [Option.bind_some]
        split_ifs <;> rfl
    · have hsound : s.Sound (.insert pos str) ↔ if pos.toNat ≤ s.size then s.size - pos.toNat < s.capacity
          else pos.toNat + str.chars.length ≤ s.capacity ∧ 0 ∈ s.data.drop pos.toNat ∧
            (CString.text (s.data.drop pos.toNat) = [] ∨ CString.text (s.data.drop pos.toNat) = str.chars) :=
        ⟨fun h => (h hroom).2, fun h _ => ⟨hover, h⟩⟩
      rw [hsound]
      split_ifs with hpos
      · exact contract_insert_of_le hroom hover hpos
      · exact contract_insert_of_lt hroom hover (by omega)
  · have hrun : s.run (.insert pos str) = some s.data := if_neg hroom
    exact iff_of_true (contract_unchanged hrun) fun h => absurd h hroom

/-! ### erase -/

theorem toNat_add_eq (pos len : BitVec 32) :
    (pos + len).toNat = pos.toNat + len.toNat ∨ (pos + len).toNat + 2 ^ 32 = pos.toNat + len.toNat := by
  rw [BitVec.toNat_add]
  omega

/-- The bytes behind move to the position, and what is behind the bytes erased, counted from there, is cut off. -/
theorem contract_erase_of_lt {pos len : BitVec 32} (hlen : len ≠ -1) (hlt : (pos + len).toNat < s.size)
    (hsum : pos.toNat + len.toNat < 2 ^ 32) : s.Contract (.erase pos len) ↔ s.size ≤ pos.toNat + 2 * len.toNat := by
  have hadd : (pos + len).toNat = pos.toNat + len.toNat := by
    rw [BitVec.toNat_add]
    exact Nat.mod_eq_of_lt hsum
  have hrun : s.run (.erase pos len) =
      (strcpyWithin s.data pos.toNat (pos + len).toNat).map fun data => data.set (pos + len).toNat 0 := if_pos ⟨hlen, hlt⟩
  rw [hadd] at hrun hlt
  have hsize := s.size_le
  obtain ⟨rest, hrest⟩ := Chars.exists_drop_data (Nat.le_of_lt hlt)
  have hnot : 0 ∉ s.text.drop (pos.toNat + len.toNat) := fun hmem => zero_notMem_text s (List.mem_of_mem_drop hmem)
  have hlength : (s.text.drop (pos.toNat + len.toNat)).length = s.size - (pos.toNat + len.toNat) := List.length_drop
  -- the bytes behind those erased move to the position
  have hcopy : strcpyWithin s.data pos.toNat (pos.toNat + len.toNat) = _ :=
    copyLoop_of_le (by omega) hrest hnot (by rw [hlength, s.length_data]; omega)
  obtain ⟨data, hdata⟩ : ∃ data, writeAt s.data pos.toNat (s.text.drop (pos.toNat + len.toNat) ++ [0]) = some data :=
    ⟨_, writeAt_of_le (by
      rw [List.length_append, hlength, s.length_data, List.length_cons, List.length_nil]
      omega)⟩
  obtain ⟨htext, hzero⟩ := text_writeAt hdata hnot (show pos.toNat ≤ s.size by omega)
  have hlengthData := (length_writeAt hdata).trans s.length_data
  rw [hcopy, hdata, Option.map_some] at hrun
  -- the text is then what it should be
  have hexpected : (s.expected (.erase pos len)).take s.capacity = CString.text data := by
    rw [htext]
    refine List.take_of_length_le ?_
    show (s.text.take pos.toNat ++ s.text.drop (pos.toNat + len.toNat)).length ≤ s.capacity
    rw [List.length_append, hlength, List.length_take]
    omega
  have hcount : (CString.text data).length = s.size - len.toNat := by
    have htextLength : (CString.text s.data).length = s.size := rfl
    rw [htext, List.length_append, hlength, List.length_take, htextLength]
    omega
  -- but a zero is stored where the moved bytes began
  have hset : CString.text (data.set (pos.toNat + len.toNat) 0) = (CString.text data).take (pos.toNat + len.toNat) :=
    text_set_zero data _
  constructor
  · intro hcontract
    have hor := text_of_contract hcontract hrun
    -- the zero cuts nothing off only if the text ends in front of it
    rw [hset, hexpected] at hor
    rcases hor with heq | heq
    · have hcut := congrArg List.length heq
      rw [List.length_take, hcount] at hcut
      omega
    · have hcut := congrArg List.length heq
      rw [List.length_take, hcount, ← size] at hcut
      omega
  · intro hle
    have hkeep : (CString.text data).take (pos.toNat + len.toNat) = CString.text data :=
      List.take_of_length_le (by rw [hcount]; omega)
    refine contract_of_run hrun (List.length_set.trans hlengthData) ?_ (Or.inl ?_)
    · exact List.mem_iff_getElem.mpr ⟨pos.toNat + len.toNat, by rw [List.length_set]; omega, List.getElem_set_self _⟩
    · rw [hset, hkeep, hexpected]

/-- Where the sum of position and length wraps, the text is cut off at the sum or the copy leaves the buffer. -/
theorem not_contract_erase_of_wraps {pos len : BitVec 32} (hlen : len ≠ -1) (hlt : (pos + len).toNat < s.size)
    (hsum : (pos + len).toNat + 2 ^ 32 = pos.toNat + len.toNat) : ¬ s.Contract (.erase pos len) := by
  have hbound := len.isLt
  have hsize := s.size_le
  intro hcontract
  have hrun : s.run (.erase pos len) =
      (strcpyWithin s.data pos.toNat (pos + len).toNat).map fun data => data.set (pos + len).toNat 0 := if_pos ⟨hlen, hlt⟩
  by_cases hpos : pos.toNat ≤ s.size
  · -- the copy runs over the zero of the text
    have hover : (Chars.own (pos + len).toNat (Nat.le_of_lt hlt)).Overlaps (s := s) pos.toNat := ⟨by omega, hpos⟩
    have hcopy : strcpyWithin s.data pos.toNat (pos + len).toNat = none := Chars.strcpy_of_overlaps hover
    rw [hcopy] at hrun
    exact not_contract_of_none hrun hcontract
  · cases hcopy : strcpyWithin s.data pos.toNat (pos + len).toNat with
    | none =>
      rw [hcopy] at hrun
      exact not_contract_of_none hrun hcontract
    | some data =>
      rw [hcopy, Option.map_some] at hrun
      have hor := text_of_contract hcontract hrun
      have hexpected : s.expected (.erase pos len) = s.text := by
        show s.text.take pos.toNat ++ s.text.drop (pos.toNat + len.toNat) = s.text
        rw [List.take_of_length_le (Nat.le_of_not_le hpos), List.drop_of_length_le, List.append_nil]
        have hlengthText : s.text.length = s.size := rfl
        omega
      rw [hexpected, List.take_of_length_le (show s.text.length ≤ s.capacity from hsize), or_self] at hor
      have htake : data.take (pos + len).toNat = s.data.take (pos + len).toNat := (take_copyLoop hcopy (by omega)).1
      have hcut : CString.text (data.set (pos + len).toNat 0) = s.text.take (pos + len).toNat := by
        rw [text_set_zero, ← CString.text_take, htake, CString.text_take]
        rfl
      have hcount := congrArg List.length (hcut.symm.trans hor)
      rw [List.length_take, ← size] at hcount
      omega

theorem contract_erase_iff (pos len : BitVec 32) : s.Contract (.erase pos len) ↔ s.Sound (.erase pos len) := by
  have hsize := s.size_le
  have hcapacity := s.capacity_lt
  have hbound := pos.isLt
  by_cases hmove : len ≠ -1 ∧ (pos + len).toNat < s.size
  · obtain ⟨hlen, hlt⟩ := hmove
    rcases toNat_add_eq pos len with hadd | hadd
    · have hsum : pos.toNat + len.toNat < 2 ^ 32 := by omega
      rw [contract_erase_of_lt hlen hlt hsum]
      exact ⟨fun h _ _ => ⟨hsum, h⟩, fun h => (h hlen hlt).2⟩
    · exact iff_of_false (not_contract_erase_of_wraps hlen hlt hadd) fun h => absurd (h hlen hlt).1 (by omega)
  · refine iff_of_true ?_ fun hlen hlt => absurd ⟨hlen, hlt⟩ hmove
    by_cases hpos : pos.toNat < s.size
    · have hrun : s.run (.erase pos len) = some (s.data.set pos.toNat 0) := (if_neg hmove).trans (if_pos hpos)
      have hend : s.size ≤ pos.toNat + len.toNat := by
        by_cases hlen : len = -1
        · subst hlen
          have hminus : (-1 : BitVec 32).toNat = 2 ^ 32 - 1 := by decide
          omega
        · have hle : s.size ≤ (pos + len).toNat := Nat.le_of_not_lt fun hlt => hmove ⟨hlen, hlt⟩
          rcases toNat_add_eq pos len with hadd | hadd
          · omega
          · omega
      have hexpected : s.expected (.erase pos len) = s.text.take pos.toNat := by
        show s.text.take pos.toNat ++ s.text.drop (pos.toNat + len.toNat) = s.text.take pos.toNat
        rw [List.drop_of_length_le hend, List.append_nil]
      refine contract_of_run hrun (List.length_set.trans s.length_data) ?_ (Or.inl ?_)
      · have hindex : pos.toNat < s.data.length := by
          rw [s.length_data]
          omega
        exact List.mem_iff_getElem.mpr ⟨pos.toNat, by rwa [List.length_set], List.getElem_set_self _⟩
      · rw [text_set_zero, hexpected]
        refine (List.take_of_length_le ?_).symm
        exact Nat.le_trans (Nat.le_of_eq List.length_take) (Nat.le_trans (Nat.min_le_left _ _) (by omega))
    · exact contract_unchanged ((if_neg hmove).trans (if_neg hpos))

/-! ### Every call -/

theorem contract_iff (s : StringBasic) (c : Call s) : s.Contract c ↔ s.Sound c := by
  have hsize := s.size_le
  have hcapacity := s.capacity_lt
  cases c with
  | assign a =>
    cases a with
    | outside t => exact iff_true_intro (contract_assign_outside (n := s.capacity) rfl (by rw [Nat.min_self]; rfl))
    | own off h =>
      rw [contract_assign_own_iff (k := off) (n := s.capacity) rfl (by rw [Nat.min_self]; rfl)]
      show _ ↔ off = s.size
      -- a part of the string itself is assigned as it should be only if it is empty
      omega
  | assignN a n =>
    have hexpected : ((s.expected (.assignN a n)).take s.capacity) = a.chars.take (min n.toNat s.capacity) := by
      show (a.chars.take n.toNat).take s.capacity = _
      rw [List.take_take, Nat.min_comm]
    cases a with
    | outside t => exact iff_true_intro (contract_assign_outside rfl hexpected)
    | own off h =>
      rw [contract_assign_own_iff (k := off) (n := n.toNat) rfl hexpected]
      show _ ↔ n = 0 ∨ off = s.size
      rw [← BitVec.toNat_inj, show (0 : BitVec 32).toNat = 0 from rfl]
      omega
  | assignString a subpos sublen =>
    have hexpected : ((s.expected (.assignString a subpos sublen)).take s.capacity) =
        ((a.text s).drop subpos.toNat).take (min sublen.toNat s.capacity) := by
      show (((a.text s).drop subpos.toNat).take sublen.toNat).take s.capacity = _
      rw [List.take_take, Nat.min_comm]
    cases a with
    | other a =>
      rw [contract_assign_iff (a.data.drop subpos.toNat) sublen.toNat rfl, hexpected]
      -- the substring begins within the other string, or past its terminator
      by_cases hpos : subpos.toNat ≤ a.size
      · refine iff_of_true ?_ (Or.inl hpos)
        obtain ⟨rest, hrest⟩ := Chars.exists_drop_data hpos
        have hnot : 0 ∉ a.text.drop subpos.toNat := fun hmem => zero_notMem_text a (List.mem_of_mem_drop hmem)
        rw [hrest, text_append_zero hnot]
        exact ⟨readable_append_zero _ _ _, Or.inl rfl⟩
      · have hnil : ((Source.other a).text s).drop subpos.toNat = [] := List.drop_of_length_le (Nat.le_of_not_le hpos)
        rw [hnil, List.take_nil]
        exact (or_iff_right hpos).symm
    | self =>
      rw [contract_assign_own_iff (k := subpos.toNat) (n := sublen.toNat) rfl hexpected]
      show _ ↔ sublen = 0 ∨ s.capacity = 0 ∨ s.size ≤ subpos.toNat ∧ subpos.toNat ≤ s.capacity
      rw [← BitVec.toNat_inj, show (0 : BitVec 32).toNat = 0 from rfl]
      omega
  | append a => exact contract_append_iff a
  | appendChar ch => exact iff_true_intro (contract_appendChar s ch)
  | insert pos str => exact contract_insert_iff pos str
  | erase pos len => exact contract_erase_iff pos len

/-- `StringTiny` with the text `abcd`. -/
def abcd : StringBasic where
  capacity := 16
  capacity_lt := by decide
  data := [97, 98, 99, 100] ++ List.replicate 13 0
  length_data := rfl
  terminated := by decide

/-- Erasing the first character of `abcd` leaves `b`. -/
theorem not_contract_erase : ¬ ∀ (s : StringBasic) (c : Call s), s.Contract c := by
  intro h
  obtain ⟨data, hrun, -, -, -, htext⟩ := h abcd (.erase 0 1)
  have hdata : abcd.run (.erase 0 1) = some ([98, 0, 100, 0] ++ List.replicate 13 0) := by decide
  rw [hdata] at hrun
  obtain rfl := Option.some.inj hrun
  revert htext
  decide

end StringBasic

end CoActionOS
