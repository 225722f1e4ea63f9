import Mathlib.Data.List.Basic
import Mathlib.Data.List.TakeDrop
import Mathlib.Algebra.BigOperators.Group.List.Basic

/-!
# Run-length coding

`Rle.cpp` writes an element for each run of up to 255 equal bytes.  `encode` stops when the destination is full and
returns how far it has come; `decode` stops at the first element that does not fit.

The loops of `encode` and `size` are `do … while`: they take the first byte before they look at the length.  `none` stands
for a read behind the end of the source.  `faithful_iff` says that this is the only way the coding fails.
-/

namespace CoActionOS

namespace Rle

structure Element where
  size : UInt8
  data : UInt8
  deriving DecidableEq, Repr

/-- The inner loop of `encode` and `size`: the size of the run so far, the last byte of it, and what follows. -/
def scan (size prev : UInt8) : List UInt8 → UInt8 × List UInt8
  | [] => (size, [])
  | b :: bs => if size ≠ 255 ∧ prev = b then scan (size + 1) b bs else (size, b :: bs)

theorem length_scan_le (size prev : UInt8) (bs : List UInt8) : (scan size prev bs).2.length ≤ bs.length := by
  induction bs generalizing size prev with
  | nil => exact Nat.le_refl 0
  | cons b bs ih =>
    rw [scan]
    split_ifs
    · exact Nat.le_succ_of_le (ih _ _)
    · exact Nat.le_refl _

/-- `Rle::size` -/
def size : List UInt8 → Nat
  | [] => 2
  | b :: bs => if (scan 1 b bs).2 = [] then 2 else 2 + size (scan 1 b bs).2
termination_by src => src.length
decreasing_by exact Nat.lt_succ_of_le (length_scan_le 1 b bs)

/-- The loop of `Rle::encode`: the elements that are written and the number of bytes processed. -/
def encodeLoop (destSize nextDestSize : Nat) (src : List UInt8) : Option (List Element × Nat) :=
  if nextDestSize + 2 > destSize then some ([], 0)
  else
    match src with
    | [] => none
    | b :: bs =>
      let run := scan 1 b bs
      if run.2 = [] then some ([⟨run.1, b⟩], run.1.toNat)
      else (encodeLoop destSize (nextDestSize + 2) run.2).map fun p => (⟨run.1, b⟩ :: p.1, run.1.toNat + p.2)
termination_by src.length
decreasing_by exact Nat.lt_succ_of_le (length_scan_le 1 b bs)

def encode (destSize : Nat) (src : List UInt8) : Option (List Element × Nat) := encodeLoop destSize 0 src

/-- The elements in memory. -/
def bytes (es : List Element) : List UInt8 := es.flatMap fun e => [e.size, e.data]

/-- The loop of `Rle::decode`: the bytes that are written and the offset that is returned. -/
def decodeLoop (destSize : Nat) : Nat → List UInt8 → Option (List UInt8 × Nat)
  | _, [] => some ([], 0)
  | _, [_] => none
  | nextDestSize, size :: data :: src =>
    if nextDestSize + size.toNat ≤ destSize then
      (decodeLoop destSize (nextDestSize + size.toNat) src).map fun p => (List.replicate size.toNat data ++ p.1, 2 + p.2)
    else some ([], 0)

def decode (destSize : Nat) (src : List UInt8) : Option (List UInt8 × Nat) := decodeLoop destSize 0 src

/-- `RleFile::write`: the number of bytes processed, and what is written to the file. -/
def write : List UInt8 → Option (Nat × List UInt8)
  | [] => (encode 64 []).map fun p => (p.2, bytes p.1)
  | b :: bs =>
    match encode 64 (b :: bs) with
    | none => none
    | some (es, ret) =>
      if _ : 0 < ret then
        if ((b :: bs).drop ret).length > 0 then
          (write ((b :: bs).drop ret)).map fun p => (ret + p.1, bytes es ++ p.2)
        else some (ret, bytes es)
      else some (0, [])
termination_by p => p.length
decreasing_by
  rw [List.length_drop]
  exact Nat.sub_lt (Nat.succ_pos _) ‹0 < ret›

/-! ### Runs -/

/-- The bytes that elements stand for. -/
def expand (es : List Element) : List UInt8 := es.flatMap fun e => List.replicate e.size.toNat e.data

/-- The elements of all runs. -/
def elements : List UInt8 → List Element
  | [] => []
  | b :: bs => ⟨(scan 1 b bs).1, b⟩ :: elements (scan 1 b bs).2
termination_by src => src.length
decreasing_by exact Nat.lt_succ_of_le (length_scan_le 1 b bs)

/-- What an encoded stream stands for. -/
def content : List UInt8 → List UInt8
  | size :: data :: src => List.replicate size.toNat data ++ content src
  | _ => []

/-- The contract of the coding, for one source. -/
structure Faithful (src : List UInt8) : Prop where
  /-- what `encode` has processed comes back, and it has processed everything if there is room -/
  encode : ∀ destSize, ∃ es k, encode destSize src = some (es, k) ∧ (bytes es).length ≤ destSize ∧ k ≤ src.length ∧
    (∀ capacity, k ≤ capacity → decode capacity (bytes es) = some (src.take k, (bytes es).length)) ∧
    (size src ≤ destSize → k = src.length ∧ (bytes es).length = size src)
  /-- the calls of `encode` for the remainder end, and what they have written stands for the source -/
  write : ∃ out, write src = some (src.length, out) ∧
    ∀ capacity, src.length ≤ capacity → decode capacity out = some (src, out.length)
  /-- a stream is decoded up to an element, and the rest of it stands for the rest -/
  resume : ∀ (stream : List UInt8) (destSize : Nat), stream.length % 2 = 0 → ∃ out i,
    decode destSize stream = some (out, i) ∧ out.length ≤ destSize ∧ i % 2 = 0 ∧ i ≤ stream.length ∧
      content stream = out ++ content (stream.drop i) ∧
      ∀ capacity, (content (stream.drop i)).length ≤ capacity →
        decode capacity (stream.drop i) = some (content (stream.drop i), (stream.drop i).length)

/-! ### Decoding -/

theorem length_bytes (es : List Element) : (bytes es).length = 2 * es.length := by
  induction es with
  | nil => rfl
  | cons e es ih =>
    show (bytes es).length + 2 = 2 * (es.length + 1)
    omega

theorem content_bytes (es : List Element) : content (bytes es) = expand es := by
  induction es with
  | nil => rfl
  | cons e es ih =>
    show List.replicate e.size.toNat e.data ++ content (bytes es) = List.replicate e.size.toNat e.data ++ expand es
    rw [ih]

theorem even_of_cons {a b : UInt8} {src : List UInt8} (h : (a :: b :: src).length % 2 = 0) : src.length % 2 = 0 := by
  change (src.length + 2) % 2 = 0 at h
  omega

/-- With room for it, the content of a stream is what is decoded. -/
theorem decodeLoop_of_le (destSize next : Nat) (stream : List UInt8) (heven : stream.length % 2 = 0)
    (h : next + (content stream).length ≤ destSize) :
    decodeLoop destSize next stream = some (content stream, stream.length) := by
  induction next, stream using decodeLoop.induct destSize with
  | case1 next => rfl
  | case2 next b => simp at heven
  | case3 next size data src hfits ih =>
    rw [content, List.length_append, List.length_replicate] at h
    rw [decodeLoop, if_pos hfits, ih (even_of_cons heven) (by omega), content]
    simp only [Option.map_some, List.length_cons]
    congr 2
    omega
  | case4 next size data src hfits =>
    rw [content, List.length_append, List.length_replicate] at h
    omega

theorem decodeLoop_spec (destSize next : Nat) (stream : List UInt8) (heven : stream.length % 2 = 0)
    (hnext : next ≤ destSize) : ∃ out i, decodeLoop destSize next stream = some (out, i) ∧ next + out.length ≤ destSize ∧
      i % 2 = 0 ∧ i ≤ stream.length ∧ content stream = out ++ content (stream.drop i) := by
  induction next, stream using decodeLoop.induct destSize with
  | case1 next => exact ⟨[], 0, rfl, hnext, rfl, Nat.le_refl 0, rfl⟩
  | case2 next b => simp at heven
  | case3 next size data src hfits ih =>
    obtain ⟨out, i, hdecode, hle, hi, hlength, hcontent⟩ := ih (even_of_cons heven) hfits
    refine ⟨List.replicate size.toNat data ++ out, 2 + i, ?_, ?_, ?_, ?_, ?_⟩
    · rw [decodeLoop, if_pos hfits, hdecode]
      rfl
    · rw [List.length_append, List.length_replicate]
      omega
    · omega
    · show 2 + i ≤ src.length + 2
      omega
    · rw [content, hcontent, List.append_assoc, Nat.add_comm 2 i]
      rfl
  | case4 next size data src hfits =>
    refine ⟨[], 0, ?_, hnext, rfl, Nat.zero_le _, rfl⟩
    rw [decodeLoop, if_neg hfits]

/-! ### Encoding -/

/-- A run ends with its last equal byte, or with the 255th. -/
theorem scan_spec (size prev : UInt8) (bs : List UInt8) :
    size.toNat ≤ (scan size prev bs).1.toNat ∧
      bs = List.replicate ((scan size prev bs).1.toNat - size.toNat) prev ++ (scan size prev bs).2 := by
  induction bs generalizing size prev with
  | nil =>
    refine ⟨Nat.le_refl _, ?_⟩
    rw [scan, Nat.sub_self]
    rfl
  | cons b bs ih =>
    rw [scan]
    split_ifs with h
    · obtain ⟨hsize, rfl⟩ := h
      obtain ⟨hle, hbs⟩ := ih (size + 1) prev
      have hlt := size.toNat_lt
      have hne : size.toNat ≠ 255 := fun heq => hsize (UInt8.toNat_inj.mp heq)
      have hsucc : (size + 1).toNat = size.toNat + 1 := by
        rw [UInt8.toNat_add]
        exact Nat.mod_eq_of_lt (by show size.toNat + 1 < 256; omega)
      rw [hsucc] at hle hbs
      refine ⟨by omega, ?_⟩
      rw [show (scan (size + 1) prev bs).1.toNat - size.toNat = (scan (size + 1) prev bs).1.toNat - (size.toNat + 1) + 1 by
        omega, List.replicate_succ, List.cons_append, ← hbs]
    · refine ⟨Nat.le_refl _, ?_⟩
      rw [Nat.sub_self]
      rfl

/-- The first run of a source, and what follows it. -/
theorem cons_eq_run (b : UInt8) (bs : List UInt8) :
    b :: bs = List.replicate (scan 1 b bs).1.toNat b ++ (scan 1 b bs).2 ∧ 0 < (scan 1 b bs).1.toNat := by
  obtain ⟨hle, hbs⟩ := scan_spec 1 b bs
  have hone : (1 : UInt8).toNat = 1 := rfl
  rw [hone] at hle hbs
  refine ⟨?_, hle⟩
  conv_lhs => rw [hbs]
  rw [show (scan 1 b bs).1.toNat = (scan 1 b bs).1.toNat - 1 + 1 by omega, List.replicate_succ, List.cons_append,
    Nat.add_sub_cancel]

theorem expand_elements (src : List UInt8) : expand (elements src) = src := by
  induction src using elements.induct with
  | case1 => rw [elements]; rfl
  | case2 b bs ih =>
    rw [elements]
    show List.replicate (scan 1 b bs).1.toNat b ++ expand (elements (scan 1 b bs).2) = b :: bs
    rw [ih, ← (cons_eq_run b bs).1]

/-- Unless it has no source, `encode` writes the elements that fit. -/
theorem encodeLoop_eq (destSize next : Nat) (src : List UInt8) (hsrc : src ≠ []) :
    encodeLoop destSize next src = some ((elements src).take ((destSize - next) / 2),
      (expand ((elements src).take ((destSize - next) / 2))).length) := by
  induction next, src using encodeLoop.induct destSize with
  | case1 next src hfull =>
    rw [encodeLoop.eq_def, if_pos hfull, show (destSize - next) / 2 = 0 by omega]
    rfl
  | case2 next hfull => exact absurd rfl hsrc
  | case3 next hfull b bs run hrun =>
    change (scan 1 b bs).2 = [] at hrun
    rw [encodeLoop.eq_def, if_neg hfull]
    dsimp only
    rw [if_pos hrun, elements, hrun, elements, show (destSize - next) / 2 = (destSize - next - 2) / 2 + 1 by omega]
    simp [expand]
  | case4 next hfull b bs run hrun ih =>
    change ¬(scan 1 b bs).2 = [] at hrun
    have ih := ih hrun
    change encodeLoop destSize (next + 2) (scan 1 b bs).2 = _ at ih
    rw [encodeLoop.eq_def, if_neg hfull]
    dsimp only
    rw [if_neg hrun, ih, elements, show (destSize - next) / 2 = (destSize - (next + 2)) / 2 + 1 by omega]
    simp [expand, run]

theorem size_eq {src : List UInt8} (hsrc : src ≠ []) : size src = 2 * (elements src).length := by
  induction src using size.induct with
  | case1 => exact absurd rfl hsrc
  | case2 b bs hrun =>
    rw [size, if_pos hrun, elements, hrun, elements]
    rfl
  | case3 b bs hrun ih =>
    rw [size, if_neg hrun, ih hrun, elements, List.length_cons]
    omega

/-- The part that is written stands for the part that is processed. -/
theorem expand_take_elements (src : List UInt8) (m : Nat) :
    expand ((elements src).take m) = src.take (expand ((elements src).take m)).length := by
  have happend : src = expand ((elements src).take m) ++ expand ((elements src).drop m) := by
    rw [expand, expand, ← List.flatMap_append, List.take_append_drop]
    exact (expand_elements src).symm
  conv_rhs => rw [happend]
  rw [List.take_left']
  · rw [← happend]

theorem length_expand_take_le (src : List UInt8) (m : Nat) : (expand ((elements src).take m)).length ≤ src.length := by
  have hlength := congrArg List.length (expand_take_elements src m)
  rw [List.length_take] at hlength
  omega

/-! ### The contract -/

theorem decode_bytes {es : List Element} {capacity : Nat} (h : (expand es).length ≤ capacity) :
    decode capacity (bytes es) = some (expand es, (bytes es).length) := by
  unfold decode
  rw [decodeLoop_of_le, content_bytes]
  · rw [length_bytes, Nat.mul_mod_right]
  · rw [content_bytes, Nat.zero_add]
    exact h

theorem encode_faithful {src : List UInt8} (hsrc : src ≠ []) (destSize : Nat) : ∃ es k, encode destSize src = some (es, k) ∧
    (bytes es).length ≤ destSize ∧ k ≤ src.length ∧
      (∀ capacity, k ≤ capacity → decode capacity (bytes es) = some (src.take k, (bytes es).length)) ∧
      (size src ≤ destSize → k = src.length ∧ (bytes es).length = size src) := by
  refine ⟨_, _, encodeLoop_eq destSize 0 src hsrc, ?_, length_expand_take_le _ _, fun capacity h => ?_, fun h => ?_⟩
  · rw [length_bytes, List.length_take]
    omega
  · rw [decode_bytes h, ← expand_take_elements]
  · rw [size_eq hsrc] at h ⊢
    have htake : (elements src).take ((destSize - 0) / 2) = elements src := List.take_of_length_le (by omega)
    rw [htake, expand_elements, length_bytes]
    exact ⟨rfl, rfl⟩

/-- What one call has encoded, and how far it has come. -/
theorem encodeLoop_spec {destSize : Nat} {src : List UInt8} (hsrc : src ≠ []) {es : List Element} {k : Nat}
    (hencode : encodeLoop destSize 0 src = some (es, k)) : expand es = src.take k ∧ k ≤ src.length := by
  have heq := Option.some.inj ((encodeLoop_eq destSize 0 src hsrc).symm.trans hencode)
  obtain ⟨hes, hlength⟩ := Prod.mk.inj heq
  have htake := expand_take_elements src ((destSize - 0) / 2)
  have hle := length_expand_take_le src ((destSize - 0) / 2)
  rw [hlength, hes] at htake
  rw [hlength] at hle
  exact ⟨htake, hle⟩

/-- With room for an element the first run is processed. -/
theorem encodeLoop_pos {destSize : Nat} (hroom : 2 ≤ destSize) {b : UInt8} {bs : List UInt8} {es : List Element} {k : Nat}
    (hencode : encodeLoop destSize 0 (b :: bs) = some (es, k)) : 0 < k := by
  have heq := Option.some.inj ((encodeLoop_eq destSize 0 _ (List.cons_ne_nil b bs)).symm.trans hencode)
  obtain ⟨-, hlength⟩ := Prod.mk.inj heq
  obtain ⟨m, hm⟩ : ∃ m, (destSize - 0) / 2 = m + 1 := ⟨(destSize - 0) / 2 - 1, by omega⟩
  rw [elements, hm, List.take_succ_cons] at hlength
  have hrun := (cons_eq_run b bs).2
  change (List.replicate (scan 1 b bs).1.toNat b ++ expand _).length = k at hlength
  rw [List.length_append, List.length_replicate] at hlength
  omega

/-- Each call of `encode` processes at least one run, so that the calls come to the end of the source. -/
theorem write_faithful (src : List UInt8) (hsrc : src ≠ []) :
    ∃ es, write src = some (src.length, bytes es) ∧ expand es = src := by
  induction src using write.induct with
  | case1 => exact absurd rfl hsrc
  | case2 b bs hencode => exact nomatch (encodeLoop_eq 64 0 _ hsrc).symm.trans hencode
  | case3 b bs es ret hencode hret hmore ih =>
    obtain ⟨htake, hle⟩ := encodeLoop_spec hsrc hencode
    obtain ⟨es', hwrite, hes'⟩ := ih (List.ne_nil_of_length_pos hmore)
    refine ⟨es ++ es', ?_, ?_⟩
    · rw [write, hencode]
      dsimp only
      rw [dif_pos hret, if_pos hmore, hwrite]
      simp only [Option.map_some, Option.some.injEq, Prod.mk.injEq]
      refine ⟨?_, List.flatMap_append.symm⟩
      rw [List.length_drop] at hmore ⊢
      omega
    · rw [expand, List.flatMap_append]
      show expand es ++ expand es' = _
      rw [htake, hes', List.take_append_drop]
  | case4 b bs es ret hencode hret hmore =>
    obtain ⟨htake, hle⟩ := encodeLoop_spec hsrc hencode
    rw [List.length_drop] at hmore
    obtain rfl : ret = (b :: bs).length := by omega
    refine ⟨es, ?_, by rw [htake, List.take_length]⟩
    rw [write, hencode]
    dsimp only
    rw [dif_pos hret, if_neg (by rw [List.length_drop]; omega)]
  | case5 b bs es ret hencode hret => exact absurd (encodeLoop_pos (by decide) hencode) hret

theorem resume_faithful (stream : List UInt8) (destSize : Nat) (heven : stream.length % 2 = 0) : ∃ out i,
    decode destSize stream = some (out, i) ∧ out.length ≤ destSize ∧ i % 2 = 0 ∧ i ≤ stream.length ∧
      content stream = out ++ content (stream.drop i) ∧
      ∀ capacity, (content (stream.drop i)).length ≤ capacity →
        decode capacity (stream.drop i) = some (content (stream.drop i), (stream.drop i).length) := by
  obtain ⟨out, i, hdecode, hle, hi, hlength, hcontent⟩ := decodeLoop_spec destSize 0 stream heven (Nat.zero_le _)
  refine ⟨out, i, hdecode, by omega, hi, hlength, hcontent, fun capacity h => ?_⟩
  exact decodeLoop_of_le capacity 0 _ (by rw [List.length_drop]; omega) (by omega)

/-- The coding is right for every source that is not empty. -/
theorem faithful_iff_ne_nil (src : List UInt8) : Faithful src ↔ src ≠ [] := by
  constructor
  · rintro h rfl
    -- with room for an element the first byte is read, and there is none
    obtain ⟨es, k, hencode, _⟩ := h.encode 2
    rw [encode, encodeLoop] at hencode
    exact nomatch hencode
  · intro hsrc
    obtain ⟨es, hwrite, hes⟩ := write_faithful src hsrc
    exact {
      encode := encode_faithful hsrc
      write := ⟨bytes es, hwrite, fun capacity h => by
        rw [decode_bytes (by rw [hes]; exact h), hes]⟩
      resume := fun stream destSize heven => resume_faithful stream destSize heven }

/-- Nothing to encode. -/
theorem not_faithful_nil : ¬∀ src : List UInt8, Faithful src := by
  intro h
  obtain ⟨es, k, hencode, _⟩ := (h []).encode 2
  rw [encode, encodeLoop] at hencode
  exact nomatch hencode

end Rle

end CoActionOS
