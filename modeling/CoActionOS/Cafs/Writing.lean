import CoActionOS.Cafs.Reading

/-!
# Writing through the segment in RAM

`View` is the invariant of the handle of an open file: the medium with the segment in RAM on top of it is the content.
`Writing` says which bytes are still to be written; the size and the position are those of the handle.
`performs_writeSwapped` is a write that leaves the segment in RAM, which has been saved before.
-/

namespace CoActionOS.Cafs

open Cmd

variable {g : Geometry}

/-! ### The content behind a handle -/

/-- The handle of an open file with the content `C`, of which one segment may only be in RAM. -/
structure View (g : Geometry) (s : St) (sn hdr : Nat) (h : Handle) (C : Nat → UInt8) : Prop where
  tidy : Tidy g s
  serialno : h.segmentData.serialno = sn
  segment : h.segment < 65536
  medium : ∃ C₀, Spread (OpenFile g (blk s.flash) sn hdr) (blk s.flash) h.segmentListBlock C₀ ∧
    C = if h.segmentData.status = BlockStatus.closed then patch C₀ h.segment h.segmentData.data else C₀
  ram : h.segment < 65535 → ∀ i < 122, h.segmentData.data i = C (122 * h.segment + i)

section view

variable {s : St} {sn hdr : Nat} {h h' : Handle} {C : Nat → UInt8}

theorem View.congr (hv : View g s sn hdr h C) (hlist : h'.segmentListBlock = h.segmentListBlock)
    (hseg : h'.segment = h.segment) (hdata : h'.segmentData = h.segmentData) : View g s sn hdr h' C := by
  obtain ⟨h1, h2, h3, h4, h5⟩ := hv
  rw [← hlist] at h4
  rw [← hseg, ← hdata] at h4 h5
  exact ⟨h1, hdata ▸ h2, hseg ▸ h3, h4, h5⟩

/-- Nothing is lost when the segment in RAM is saved. -/
theorem View.performs_savesegment (hv : View g s sn hdr h C) {P : Handle → St → Prop}
    (hP : ∀ st s', st ≠ BlockStatus.closed → Tidy g s' →
      Spread (OpenFile g (blk s'.flash) sn hdr) (blk s'.flash) h.segmentListBlock C →
      P (h.holding h.segment { h.segmentData with status := st }) s') :
    Performs g sn (clFileSavesegment g h) s P := by
  obtain ⟨C₀, hC₀, hC⟩ := hv.medium
  by_cases hclosed : h.segmentData.status = BlockStatus.closed
  · rw [if_pos hclosed] at hC
    apply performs_save hv.tidy hC₀ hv.serialno hv.segment hclosed
    intro s' ht hC'
    rw [← hC] at hC'
    exact hP BlockStatus.opened s' (by decide) ht hC'
  · rw [if_neg hclosed] at hC
    subst hC
    rw [clFileSavesegment, if_neg hclosed]
    exact Performs.done hv.tidy (hP _ s hclosed hv.tidy hC₀)

theorem patch_patch {k : Nat} {d d' : Bytes} : patch (patch C k d) k d' = patch C k d' := by
  funext p
  simp only [patch]
  split_ifs <;> rfl

/-- Bytes are written into the segment in RAM. -/
theorem View.write (hv : View g s sn hdr h C) {p : Nat} (bs : List UInt8) (hseg : h.segment = p / 122)
    (hlim : p / 122 < 65535) (hfit : p % 122 + bs.length ≤ 122) :
    View g s sn hdr (h.holding h.segment { h.segmentData with
      data := overwrite h.segmentData.data (p % 122) bs
      status := BlockStatus.closed }) (overwrite C p bs) := by
  obtain ⟨C₀, hC₀, hC⟩ := hv.medium
  have hram := hv.ram (by omega)
  rw [hseg] at hram
  have hpatch : patch C h.segment (overwrite h.segmentData.data (p % 122) bs) = overwrite C p bs := by
    rw [hseg]
    exact patch_overwrite hfit hram
  have hpatch₀ : patch C₀ h.segment (overwrite h.segmentData.data (p % 122) bs) = overwrite C p bs := by
    rw [← hpatch, hC]
    split_ifs
    · rw [patch_patch]
    · rfl
  refine ⟨hv.tidy, hv.serialno, hv.segment, ⟨C₀, hC₀, ?_⟩, ?_⟩
  · rw [← hpatch₀]
    exact (if_pos rfl).symm
  · intro _ i hi
    show overwrite h.segmentData.data (p % 122) bs i = overwrite C p bs (122 * h.segment + i)
    rw [← hpatch, patch_segment hi, if_pos rfl]

end view

/-! ### Writing -/

/-- The bytes `rest` are still to be written, from `p` on; the file will have the size `size`. -/
structure Writing (h₀ h : Handle) (n p : Nat) (rest : List UInt8) (size : Nat) : Prop where
  file : SameFile h₀ h
  op : h.op = ⟨p, n, rest, []⟩
  left : h.bytesLeft = rest.length
  grown : ∃ size' : Nat, h.size = size' ∧ p ≤ size' ∧ max size' (p + rest.length) = size
  small : p + rest.length < 2 ^ 31

section writing

variable {h₀ h : Handle} {C : Nat → UInt8} {n p size : Nat} {rest : List UInt8}

theorem Writing.at (hw : Writing h₀ h n p rest size) : h.At p rest.length :=
  ⟨by rw [hw.op], hw.left, by have := hw.small; omega, by have := hw.small; omega⟩

theorem Writing.end_le (hw : Writing h₀ h n p rest size) : p + rest.length ≤ size := by
  obtain ⟨size', -, -, hmax⟩ := hw.grown
  omega

theorem Writing.holding (hw : Writing h₀ h n p rest size) (k : Nat) (d : SegmentData) :
    Writing h₀ (h.holding k d) n p rest size :=
  ⟨⟨hw.file.hdrBlock, hw.file.segmentListBlock, hw.file.serialnoAddr, hw.file.amode⟩, hw.op, hw.left, hw.grown,
    hw.small⟩

/-- The first `m` bytes have gone. -/
theorem Writing.advance (hw : Writing h₀ h n p rest size) {m : Nat} (hm : m ≤ rest.length) {h' : Handle}
    (hfile : SameFile h h') (hop : h'.op = ⟨h.op.loc + m, h.op.nbyte, h.op.src.drop m, []⟩)
    (hleft : h'.bytesLeft = h.bytesLeft - m) (hsize : h'.size = if h'.op.loc > h.size then h'.op.loc else h.size) :
    Writing h₀ h' n (p + m) (rest.drop m) size where
  file := hw.file.trans hfile
  op := by
    rw [hop, hw.op]
    rfl
  left := by
    rw [hleft, hw.left, List.length_drop]
    omega
  grown := by
    obtain ⟨size', hs, hp, hmax⟩ := hw.grown
    refine ⟨max size' (p + m), ?_, Nat.le_max_right _ _, ?_⟩
    · rw [hsize, hop, hw.op, hs]
      split_ifs with hlt
      · simp only at hlt ⊢
        omega
      · simp only at hlt
        omega
    · rw [List.length_drop]
      omega
  small := by
    have hsmall := hw.small
    rw [List.length_drop]
    omega

/-- The rest of the segment in RAM. -/
theorem Writing.writeCurrentSegment {s : St} {sn hdr : Nat} (hw : Writing h₀ h n p rest size)
    (hv : View g s sn hdr h C) (hseg : h.segment = p / 122) (hlim : size < 122 * 65535) :
    Writing h₀ (writeCurrentSegment h) n (p + page p rest.length) (rest.drop (page p rest.length)) size ∧
      (writeCurrentSegment h).segment = h.segment ∧
      View g s sn hdr (writeCurrentSegment h) (overwrite C p (rest.take (page p rest.length))) := by
  have hpage := page_le p rest.length
  have hmin : page p rest.length ≤ 122 - p % 122 := Nat.min_le_right _ _
  have hend := hw.end_le
  have hview := hv.write (rest.take (page p rest.length)) hseg (by omega) (by rw [List.length_take]; omega)
  have hsrc : h.op.src = rest := by rw [hw.op]
  rw [Cafs.writeCurrentSegment, hw.at.calcPageSize, hsrc]
  dsimp only
  have hop : (⟨h.op.loc + page p rest.length, h.op.nbyte, h.op.src.drop (page p rest.length),
      h.op.out ++ []⟩ : Transfer) =
      ⟨h.op.loc + page p rest.length, h.op.nbyte, h.op.src.drop (page p rest.length), []⟩ := by
    rw [hw.op]
    rfl
  split_ifs with hpos hgrow
  · refine ⟨hw.advance hpage ⟨rfl, rfl, rfl, rfl⟩ hop rfl (if_pos hgrow).symm, rfl, ?_⟩
    exact hview.congr rfl rfl rfl
  · refine ⟨hw.advance hpage ⟨rfl, rfl, rfl, rfl⟩ hop rfl (if_neg hgrow).symm, rfl, ?_⟩
    exact hview.congr rfl rfl rfl
  · have hzero : page p rest.length = 0 := by omega
    rw [hzero, List.take_zero, overwrite_nil, List.drop_zero, Nat.add_zero]
    exact ⟨hw, rfl, hv⟩

/-- The handle when its next bytes have been written. -/
def Handle.sent (h : Handle) (m : Nat) : Handle := { h with op := { h.op with src := h.op.src.drop m } }

theorem Handle.sent_sent (h : Handle) (k j m m' : Nat) (d d' : SegmentData) :
    (((h.holding k d).sent m).holding j d').sent m' = (h.holding j d').sent (m + m') := by
  simp only [Handle.sent, Handle.holding, List.drop_drop]

/-- The loop over whole segments. -/
theorem performs_writeSegments {s : St} {sn hdr : Nat} {P : Handle → St → Prop} (hs : Tidy g s) (m k : Nat)
    (hC : Spread (OpenFile g (blk s.flash) sn hdr) (blk s.flash) h.segmentListBlock C)
    (hsn : h.segmentData.serialno = sn) (hlim : k + m ≤ 65535) (hseg : h.segment = k)
    (hlen : 122 * m ≤ h.op.src.length)
    (hP : ∀ (d : SegmentData) s', d.serialno = sn → Tidy g s' →
      Spread (OpenFile g (blk s'.flash) sn hdr) (blk s'.flash) h.segmentListBlock
        (overwrite C (122 * k) (h.op.src.take (122 * m))) →
      P ((h.holding (k + m) d).sent (122 * m)) s') :
    Performs g sn (writeSegments g m h) s P := by
  induction m generalizing h k s C with
  | zero =>
    apply Performs.done hs
    have hP := hP h.segmentData s hsn hs
    rw [Nat.mul_zero, List.take_zero, overwrite_nil] at hP
    have hsame : (h.holding (k + 0) h.segmentData).sent 0 = h := by
      rw [Handle.sent, List.drop_zero, Handle.holding, ← hseg]
      rfl
    rw [hsame] at hP
    exact hP hC
  | succ m ih =>
    rw [writeSegments]
    set d : SegmentData := { h.segmentData with
      data := fun i => h.op.src.getD i 0
      status := BlockStatus.closed } with hd
    have hlen₁ : (h.op.src.take 122).length = 122 := by
      rw [List.length_take]
      omega
    -- a whole segment is replaced, whatever it was
    have hpatch : patch C k d.data = overwrite C (122 * k) (h.op.src.take 122) := by
      have hdiv : 122 * k / 122 = k := by omega
      have hmod : 122 * k % 122 = 0 := by omega
      have h1 : patch C (122 * k / 122) (overwrite (fun i => C (122 * (122 * k / 122) + i)) (122 * k % 122)
          (h.op.src.take 122)) = overwrite C (122 * k) (h.op.src.take 122) :=
        patch_overwrite (by omega) fun _ _ => rfl
      rw [← h1, hdiv, hmod]
      apply patch_congr
      intro i hi
      have h2 : overwrite (fun i => C (122 * k + i)) 0 (h.op.src.take 122) (0 + i) = (h.op.src.take 122)[i] :=
        overwrite_add (by omega)
      rw [Nat.zero_add] at h2
      rw [h2, List.getElem_take]
      exact List.getD_eq_getElem _ _ (by omega)
    refine (performs_save (h := h.holding h.segment d) (P := fun h' s' => Tidy g s' ∧
      h' = h.holding k { d with status := BlockStatus.opened } ∧
      Spread (OpenFile g (blk s'.flash) sn hdr) (blk s'.flash) h.segmentListBlock
        (overwrite C (122 * k) (h.op.src.take 122))) hs hC hsn (by show h.segment < _; omega) rfl ?_).andThen ?_
    · intro s' ht hC'
      refine ⟨ht, ?_, ?_⟩
      · rw [← hseg]
        rfl
      · rw [← hpatch, ← hseg]
        exact hC'
    rintro _ s' - ⟨ht, rfl, hC'⟩
    have hmod : (k + 1) % 2 ^ 16 = k + 1 := Nat.mod_eq_of_lt (by omega)
    show Performs g sn (writeSegments g m ((h.holding ((k + 1) % 2 ^ 16) { d with status := BlockStatus.opened }).sent
      122)) s' P
    rw [hmod]
    have hnext : 122 * (k + 1) = 122 * k + (h.op.src.take 122).length := by
      rw [hlen₁]
      omega
    apply ih (h := (h.holding (k + 1) { d with status := BlockStatus.opened }).sent 122) ht (k + 1) hC' hsn (by omega)
      rfl
    · show 122 * m ≤ (h.op.src.drop 122).length
      rw [List.length_drop]
      omega
    · intro d' s'' hsn' ht' hC''
      have hC'' : Spread (OpenFile g (blk s''.flash) sn hdr) (blk s''.flash) h.segmentListBlock
          (overwrite (overwrite C (122 * k) (h.op.src.take 122)) (122 * (k + 1))
            ((h.op.src.drop 122).take (122 * m))) := hC''
      have hcount : 122 + 122 * m = 122 * (m + 1) := by omega
      have hindex : k + 1 + m = k + (m + 1) := by omega
      rw [hnext, overwrite_append, ← List.take_add, hcount] at hC''
      rw [Handle.sent_sent, hcount, hindex]
      exact hP d' s'' hsn' ht' hC''

/-- `cl_file_write`, also of no segment at all. -/
theorem performs_clFileWrite {s : St} {sn hdr : Nat} {P : Handle → St → Prop} (hs : Tidy g s) {k m : Nat}
    (hC : Spread (OpenFile g (blk s.flash) sn hdr) (blk s.flash) h.segmentListBlock C)
    (hsn : h.segmentData.serialno = sn) (hlim : k + m ≤ 65535) (hseg : h.segment = k)
    (hw : Writing h₀ h n (122 * k) rest size) (hm : 122 * m ≤ rest.length)
    (hP : ∀ (h' : Handle) s', h'.segment = k + m → h'.segmentData.serialno = sn →
      h'.segmentListBlock = h.segmentListBlock → Tidy g s' →
      Spread (OpenFile g (blk s'.flash) sn hdr) (blk s'.flash) h.segmentListBlock
        (overwrite C (122 * k) (rest.take (122 * m))) →
      Writing h₀ h' n (122 * k + 122 * m) (rest.drop (122 * m)) size → P h' s') :
    Performs g sn (clFileWrite g h m) s P := by
  have hsrc : h.op.src = rest := by rw [hw.op]
  rw [clFileWrite]
  split_ifs with hpos
  · refine (performs_writeSegments (P := fun h' s' => ∃ d : SegmentData, d.serialno = sn ∧ Tidy g s' ∧
      Spread (OpenFile g (blk s'.flash) sn hdr) (blk s'.flash) h.segmentListBlock
        (overwrite C (122 * k) (h.op.src.take (122 * m))) ∧ h' = (h.holding (k + m) d).sent (122 * m)) hs m k hC hsn
      hlim hseg (by rw [hsrc]; exact hm) fun d s' h1 h2 h3 => ⟨d, h1, h2, h3, rfl⟩).andThen ?_
    rintro _ s' - ⟨d, hsn', ht, hC', rfl⟩
    rw [hsrc] at hC'
    apply Performs.done ht
    have hop : ∀ x : Int, (⟨h.op.loc + x, h.op.nbyte, h.op.src.drop (122 * m), h.op.out⟩ : Transfer) =
        ⟨h.op.loc + x, h.op.nbyte, h.op.src.drop (122 * m), []⟩ := by
      intro x
      rw [hw.op]
    split_ifs with hgrow
    · refine hP _ s' rfl hsn' rfl ht hC' (hw.advance hm ⟨rfl, rfl, rfl, rfl⟩ (hop _) rfl ?_)
      exact (if_pos hgrow).symm
    · refine hP _ s' rfl hsn' rfl ht hC' (hw.advance hm ⟨rfl, rfl, rfl, rfl⟩ (hop _) rfl ?_)
      exact (if_neg hgrow).symm
  · obtain rfl : m = 0 := by omega
    apply Performs.done hs
    refine hP h s hseg hsn rfl hs ?_ hw
    rw [Nat.mul_zero, List.take_zero, overwrite_nil]
    exact hC

/-- A segment is loaded and written to. -/
theorem performs_loadAndWrite {s : St} {sn hdr : Nat} {P : Handle → St → Prop} (hs : Tidy g s) {k : Nat}
    {c : Handle → Cmd St Result}
    (hC : Spread (OpenFile g (blk s.flash) sn hdr) (blk s.flash) h.segmentListBlock C)
    (hsn : h.segmentData.serialno = sn) (hw : Writing h₀ h n p rest size) (hlim : size < 122 * 65535)
    (hk : k = p / 122)
    (hnext : ∀ h' : Handle, h'.segment = k →
      Writing h₀ h' n (p + page p rest.length) (rest.drop (page p rest.length)) size →
      View g s sn hdr h' (overwrite C p (rest.take (page p rest.length))) → Performs g sn (c h') s P) :
    Performs g sn (andThen (clFileLoadsegment g h k) fun h => c (writeCurrentSegment h)) s P := by
  have hend := hw.end_le
  refine (performs_loadsegment (P := fun h' s' => ∃ d : SegmentData, s' = s ∧ Loaded sn C k d ∧
    d.status = BlockStatus.opened ∧ h' = h.holding k d) hs (hC.mono fun _ _ hf => hf.readable) hsn (by omega)
    fun d hd ho => ⟨d, rfl, hd, ho, rfl⟩).andThen ?_
  rintro _ s' - ⟨d, hs', hd, ho, rfl⟩
  subst s'
  have hview : View g s sn hdr (h.holding k d) C := by
    refine ⟨hs, hd.serialno, by show k < _; omega, ⟨C, hC, ?_⟩, fun _ => hd.data⟩
    have hne : ¬d.status = BlockStatus.closed := by
      rw [ho]
      decide
    exact (if_neg hne).symm
  obtain ⟨hw', hsegment, hview'⟩ := (hw.holding k d).writeCurrentSegment hview hk hlim
  exact hnext _ hsegment hw' hview'

/-- What remains of a write behind its first segment. -/
def writeOn (g : Geometry) (h : Handle) : Cmd St Result :=
  if h.bytesLeft > 0 then
    andThen (clFileSavesegment g h) fun h =>
    andThen (clFileWrite g { h with segment := (h.segment + 1) % 2 ^ 16 }
      (toUnsigned h.bytesLeft / blockDataSize)) fun h =>
    andThen (clFileLoadsegment g h h.segment) fun h =>
    return (some (), writeCurrentSegment h)
  else return (some (), h)

/-- What remains of a write when the segment in RAM has been saved. -/
def writeSwapped (g : Geometry) (h : Handle) : Cmd St Result :=
  andThen (clFileLoadsegment g h (locSegment h)) fun h => writeOn g (writeCurrentSegment h)

theorem clFileFinishwrite_eq (h : Handle) :
    clFileFinishwrite g h = andThen (clFileSavesegment g h) (writeSwapped g) := rfl

/-- The write is complete. -/
structure WriteDone (g : Geometry) (h₀ : Handle) (sn hdr : Nat) (C : Nat → UInt8) (n p size : Nat) (h : Handle)
    (s : St) : Prop where
  writing : Writing h₀ h n p [] size
  view : View g s sn hdr h C

theorem performs_writeSwapped {s : St} {sn hdr : Nat} (hs : Tidy g s)
    (hC : Spread (OpenFile g (blk s.flash) sn hdr) (blk s.flash) h.segmentListBlock C)
    (hsn : h.segmentData.serialno = sn) (hw : Writing h₀ h n p rest size) (hlim : size < 122 * 65535) :
    Performs g sn (writeSwapped g h) s (WriteDone g h₀ sn hdr (overwrite C p rest) n (p + rest.length) size) := by
  rw [writeSwapped, hw.at.locSegment]
  apply performs_loadAndWrite (c := writeOn g) hs hC hsn hw hlim rfl
  intro h₁ hseg₁ hw₁ hv₁
  have hend := hw.end_le
  have hleft := hw₁.left
  have hsmall := hw₁.small
  have hpage : page p rest.length = min rest.length (122 - p % 122) := rfl
  have hlen : (rest.drop (page p rest.length)).length = rest.length - page p rest.length := List.length_drop
  have htake : (rest.take (page p rest.length)).length = page p rest.length := by
    rw [List.length_take]
    omega
  rw [writeOn]
  split_ifs with hmore
  · -- the transfer goes on at the next segment
    set tail := rest.drop (page p rest.length) with htail
    set k := h₁.segment + 1 with hk
    have hnext : p + page p rest.length = 122 * k := by omega
    have hmod : k % 2 ^ 16 = k := Nat.mod_eq_of_lt (by omega)
    have hcount : toUnsigned h₁.bytesLeft / blockDataSize = tail.length / 122 := by
      rw [hleft, toUnsigned_natCast (by omega)]
      rfl
    rw [hnext] at hw₁
    set m := tail.length / 122 with hm
    refine (hv₁.performs_savesegment (P := fun h' s' => Tidy g s' ∧
      Spread (OpenFile g (blk s'.flash) sn hdr) (blk s'.flash) h₁.segmentListBlock
        (overwrite C p (rest.take (page p rest.length))) ∧
      ∃ d : SegmentData, d.serialno = sn ∧ h' = h₁.holding h₁.segment d)
      fun st s' _ ht hC' => ⟨ht, hC', { h₁.segmentData with status := st }, hv₁.serialno, rfl⟩).andThen ?_
    rintro _ s₂ - ⟨ht₂, hC₂, d, hd, rfl⟩
    show Performs g sn (andThen (clFileWrite g (h₁.holding (k % 2 ^ 16) d) (toUnsigned h₁.bytesLeft / blockDataSize)) _)
      s₂ _
    rw [hmod, hcount]
    refine (performs_clFileWrite (h := h₁.holding k d) (k := k) (m := m) (P := fun h' s' => h'.segment = k + m ∧
      h'.segmentData.serialno = sn ∧ h'.segmentListBlock = h₁.segmentListBlock ∧ Tidy g s' ∧
      Spread (OpenFile g (blk s'.flash) sn hdr) (blk s'.flash) h₁.segmentListBlock
        (overwrite (overwrite C p (rest.take (page p rest.length))) (122 * k) (tail.take (122 * m))) ∧
      Writing h₀ h' n (122 * k + 122 * m) (tail.drop (122 * m)) size) ht₂ hC₂ hd (by omega) rfl (hw₁.holding k d)
      (by omega)
      fun h' s' h1 h2 h3 h4 h5 h6 => ⟨h1, h2, h3, h4, h5, h6⟩).andThen ?_
    rintro h₃ s₃ - ⟨hseg₃, hsn₃, hlist₃, ht₃, hC₃, hw₃⟩
    rw [← hlist₃] at hC₃
    refine performs_loadAndWrite (c := fun h => return (some (), h)) ht₃ hC₃ hsn₃ hw₃ hlim (by omega) ?_
    intro h₄ hseg₄ hw₄ hv₄
    apply Performs.done ht₃
    -- the last segment takes all that is left
    have hrest : (tail.drop (122 * m)).length = tail.length - 122 * m := List.length_drop
    have hlast : page (122 * k + 122 * m) (tail.drop (122 * m)).length = (tail.drop (122 * m)).length := by
      rw [page]
      omega
    have hbody : (tail.take (122 * m)).length = 122 * m := by
      rw [List.length_take]
      omega
    rw [hlast, List.drop_length] at hw₄
    rw [hlast, List.take_length] at hv₄
    have hposition : 122 * k + 122 * m + (tail.drop (122 * m)).length = p + rest.length := by omega
    have hbytes : overwrite (overwrite (overwrite C p (rest.take (page p rest.length))) (122 * k) (tail.take (122 * m)))
        (122 * k + 122 * m) (tail.drop (122 * m)) = overwrite C p rest := by
      have hhead : 122 * k = p + (rest.take (page p rest.length)).length := by rw [htake, hnext]
      have hall : 122 * k + 122 * m = p + (rest.take (page p rest.length) ++ tail.take (122 * m)).length := by
        rw [List.length_append, htake, hbody]
        omega
      rw [hall, hhead, overwrite_append, overwrite_append, List.append_assoc, List.take_append_drop, htail,
        List.take_append_drop]
    rw [hposition] at hw₄
    rw [hbytes] at hv₄
    exact ⟨hw₄, hv₄⟩
  · -- nothing is left
    apply Performs.done hv₁.tidy
    have hall : page p rest.length = rest.length := by omega
    rw [hall, List.drop_length] at hw₁
    rw [hall, List.take_length] at hv₁
    exact ⟨hw₁, hv₁⟩

end writing

end CoActionOS.Cafs
