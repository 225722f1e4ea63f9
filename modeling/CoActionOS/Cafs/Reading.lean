import CoActionOS.Cafs.Content
import CoActionOS.Cafs.Fs

/-!
# Reading through the segment in RAM

A transfer goes on page by page: the rest of the segment that is in RAM, whole segments, and the start of the last one.
`Reading` says which bytes have been read on the way.  `performs_readSwapped` is a read that leaves the segment in RAM,
which has been saved before.
-/

namespace CoActionOS.Cafs

open Cmd

variable {g : Geometry}

/-! ### Bytes -/

section

variable {d : Bytes} {o n m : Nat}

theorem overwrite_nil (d : Bytes) (o : Nat) : overwrite d o [] = d := by
  funext i
  exact overwrite_of_lt (by simp only [List.length_nil]; omega)

theorem overwrite_append (d : Bytes) (o : Nat) (a b : List UInt8) :
    overwrite (overwrite d o a) (o + a.length) b = overwrite d o (a ++ b) := by
  funext i
  simp only [overwrite, List.length_append]
  by_cases hlow : i < o
  · rw [if_neg (by omega), if_neg (by omega), if_neg (by omega)]
  by_cases ha : i < o + a.length
  · rw [if_neg (by omega), if_pos (by omega), if_pos (by omega), List.getD_append _ _ _ _ (by omega)]
  by_cases hb : i < o + a.length + b.length
  · rw [if_pos (by omega), if_pos (by omega), List.getD_append_right _ _ _ _ (by omega)]
    congr 1
    omega
  · rw [if_neg (by omega), if_neg (by omega), if_neg (by omega)]

theorem slice_add (d : Bytes) (o n m : Nat) : slice d o (n + m) = slice d o n ++ slice d (o + n) m := by
  rw [slice, slice, slice, List.range_add, List.map_append, List.map_map]
  congr 1
  apply List.map_congr_left
  intro i _
  show d (o + (n + i)) = d (o + n + i)
  rw [Nat.add_assoc]

/-- A segment whose bytes are overwritten. -/
theorem patch_overwrite {C : Nat → UInt8} {p : Nat} {bs : List UInt8} (hfit : p % 122 + bs.length ≤ 122)
    (hd : ∀ i < 122, d i = C (122 * (p / 122) + i)) :
    patch C (p / 122) (overwrite d (p % 122) bs) = overwrite C p bs := by
  funext q
  rw [patch]
  by_cases hq : q / 122 = p / 122
  · rw [if_pos hq]
    by_cases hin : p ≤ q ∧ q < p + bs.length
    · have hmod : q % 122 = p % 122 + (q - p) := by omega
      rw [hmod, overwrite_add (by omega)]
      rw [overwrite, if_pos hin]
      exact (List.getD_eq_getElem _ _ _).symm
    · rw [overwrite_of_lt (by omega), overwrite_of_lt (by omega), hd _ (Nat.mod_lt q (by decide))]
      congr 1
      omega
  · rw [if_neg hq, overwrite_of_lt (by omega)]

theorem toUnsigned_natCast {n : Nat} (hn : n < 2 ^ 32) : toUnsigned (n : Int) = n := by
  rw [toUnsigned]
  omega

end

/-! ### One page -/

/-- What is left of the segment of `p`, or of the transfer. -/
def page (p n : Nat) : Nat := min n (122 - p % 122)

/-- The transfer is at `p` and has `n` bytes to go. -/
structure Handle.At (h : Handle) (p n : Nat) : Prop where
  loc : h.op.loc = p
  left : h.bytesLeft = n
  small : p < 2 ^ 31
  short : n < 2 ^ 31

theorem Handle.At.locSegment {h : Handle} {p n : Nat} (hat : h.At p n) : locSegment h = p / 122 := by
  have hp := hat.small
  rw [Cafs.locSegment, hat.loc, toUnsigned_natCast (by omega)]
  rfl

theorem Handle.At.calcPageSize {h : Handle} {p n : Nat} (hat : h.At p n) : calcPageSize h = (page p n, p % 122) := by
  have hp := hat.small
  have hn := hat.short
  rw [Cafs.calcPageSize, hat.loc, hat.left, toUnsigned_natCast (by omega), toUnsigned_natCast (by omega)]
  show (if n > 122 - p % 122 then 122 - p % 122 else n, p % 122) = _
  rw [page]
  congr 1
  split_ifs with hlt
  · omega
  · omega

/-- What calls on a handle never change. -/
structure SameFile (h₀ h : Handle) : Prop where
  hdrBlock : h.hdrBlock = h₀.hdrBlock
  segmentListBlock : h.segmentListBlock = h₀.segmentListBlock
  serialnoAddr : h.serialnoAddr = h₀.serialnoAddr
  amode : h.amode = h₀.amode

theorem SameFile.refl (h : Handle) : SameFile h h := ⟨rfl, rfl, rfl, rfl⟩

theorem SameFile.trans {h₀ h h' : Handle} (h1 : SameFile h₀ h) (h2 : SameFile h h') : SameFile h₀ h' :=
  ⟨h2.hdrBlock.trans h1.hdrBlock, h2.segmentListBlock.trans h1.segmentListBlock,
    h2.serialnoAddr.trans h1.serialnoAddr, h2.amode.trans h1.amode⟩

/-! ### Reading -/

/-- Of the `n` bytes at `loc`, those in front of `p` have been read. -/
structure Reading (h₀ h : Handle) (C : Nat → UInt8) (loc n p : Nat) : Prop where
  file : SameFile h₀ h
  size : h.size = h₀.size
  op : h.op = ⟨p, n, [], slice C loc (p - loc)⟩
  left : h.bytesLeft = ((loc + n - p : Nat) : Int)
  ge : loc ≤ p
  le : p ≤ loc + n
  small : loc + n < 2 ^ 31

section reading

variable {h₀ h : Handle} {C : Nat → UInt8} {loc n p : Nat}

theorem Reading.at (hr : Reading h₀ h C loc n p) : h.At p (loc + n - p) :=
  ⟨by rw [hr.op], hr.left, by have := hr.small; have := hr.le; omega, by have := hr.small; omega⟩

/-- The bytes up to `q` have come from somewhere. -/
theorem Reading.advance (hr : Reading h₀ h C loc n p) {q : Nat} (hpq : p ≤ q) (hq : q ≤ loc + n) {h' : Handle}
    (hfile : SameFile h h') (hsize : h'.size = h.size)
    (hop : h'.op = ⟨h.op.loc + (q - p : Nat), h.op.nbyte, [], h.op.out ++ slice C p (q - p)⟩)
    (hleft : h'.bytesLeft = h.bytesLeft - (q - p : Nat)) : Reading h₀ h' C loc n q where
  file := hr.file.trans hfile
  size := hsize.trans hr.size
  op := by
    have hge := hr.ge
    have hloc : p = loc + (p - loc) := by omega
    have hlen : q - loc = (p - loc) + (q - p) := by omega
    rw [hop, hr.op, hlen, slice_add, ← hloc]
    congr 1
    show (p : Int) + (q - p : Nat) = q
    omega
  left := by
    rw [hleft, hr.left]
    omega
  ge := Nat.le_trans hr.ge hpq
  le := hq
  small := hr.small

theorem page_le (p n : Nat) : page p n ≤ n := Nat.min_le_left _ _

/-- The rest of the segment in RAM. -/
theorem Reading.readCurrentSegment (hr : Reading h₀ h C loc n p) (hseg : h.segment = p / 122)
    (hram : ∀ i < 122, h.segmentData.data i = C (122 * h.segment + i)) :
    Reading h₀ (readCurrentSegment h) C loc n (p + page p (loc + n - p)) ∧
      (readCurrentSegment h).segment = h.segment ∧ (readCurrentSegment h).segmentData = h.segmentData := by
  have hpage := page_le p (loc + n - p)
  have hle := hr.le
  have hmin : page p (loc + n - p) ≤ 122 - p % 122 := Nat.min_le_right _ _
  rw [Cafs.readCurrentSegment, hr.at.calcPageSize]
  dsimp only
  split_ifs with hpos
  · refine ⟨hr.advance (Nat.le_add_right _ _) (by omega) ⟨rfl, rfl, rfl, rfl⟩ rfl ?_ ?_, rfl, rfl⟩
    · rw [Nat.add_sub_cancel_left, updateCurrentSegment]
      have hbytes : slice h.segmentData.data (p % 122) (page p (loc + n - p)) = slice C p (page p (loc + n - p)) := by
        apply slice_congr
        intro i hi
        rw [hram _ (by omega), hseg]
        congr 1
        omega
      rw [hbytes]
      simp only [hr.op, List.drop_nil]
    · rw [Nat.add_sub_cancel_left]
      rfl
  · have hzero : page p (loc + n - p) = 0 := by omega
    rw [hzero, Nat.add_zero]
    exact ⟨hr, rfl, rfl⟩

/-- The handle when more bytes have been read. -/
def Handle.got (h : Handle) (bs : List UInt8) : Handle := { h with op := { h.op with out := h.op.out ++ bs } }

theorem Handle.got_nil (h : Handle) : h.got [] = h := by
  rw [Handle.got, List.append_nil]

theorem Handle.got_got (h : Handle) (k j : Nat) (d d' : SegmentData) (as bs : List UInt8) :
    (((h.holding k d).got as).holding j d').got bs = (h.holding j d').got (as ++ bs) := by
  simp only [Handle.got, Handle.holding, List.append_assoc]

/-- The loop over whole segments. -/
theorem performs_readSegments {s : St} {own sn : Nat} {P : Handle → St → Prop} (hs : Tidy g s) (m k : Nat)
    (hC : Spread (Readable g (blk s.flash) sn) (blk s.flash) h.segmentListBlock C) (hsn : h.segmentData.serialno = sn)
    (hlim : k + m ≤ 65535) (hseg : h.segment + 1 = k)
    (hP : ∀ d : SegmentData, d.serialno = sn →
      P ((h.holding (h.segment + m) d).got (slice C (122 * k) (122 * m))) s) :
    Performs g own (readSegments g m k h) s P := by
  induction m generalizing h k with
  | zero =>
    apply Performs.done hs
    have hP := hP h.segmentData hsn
    have hnil : slice C (122 * k) (122 * 0) = [] := rfl
    rw [hnil, Handle.got_nil] at hP
    exact hP
  | succ m ih =>
    rw [readSegments]
    refine (performs_loadsegment (P := fun h' s' => ∃ d : SegmentData, s' = s ∧ Loaded sn C k d ∧
      h' = h.holding k d) hs hC hsn (by omega) fun d hd _ => ⟨d, rfl, hd, rfl⟩).andThen ?_
    rintro _ s' - ⟨d, hs', hd, rfl⟩
    subst s'
    have hbytes : slice d.data 0 blockDataSize = slice C (122 * k) 122 := by
      apply slice_congr
      intro i hi
      rw [Nat.zero_add, hd.data i hi]
    show Performs g own (readSegments g m (k + 1) ((h.holding k d).got (slice d.data 0 blockDataSize))) s P
    rw [hbytes]
    apply ih (k + 1) (h := (h.holding k d).got (slice C (122 * k) 122)) hC hd.serialno (by omega) rfl
    intro d' hd'
    have hP := hP d' hd'
    have hlen : 122 * (m + 1) = 122 + 122 * m := by omega
    have hsegment : h.segment + (m + 1) = k + m := by omega
    rw [hlen, slice_add, hsegment] at hP
    rw [Handle.got_got]
    exact hP

theorem Reading.holding (hr : Reading h₀ h C loc n p) (k : Nat) (d : SegmentData) :
    Reading h₀ (h.holding k d) C loc n p :=
  ⟨⟨hr.file.hdrBlock, hr.file.segmentListBlock, hr.file.serialnoAddr, hr.file.amode⟩, hr.size, hr.op, hr.left, hr.ge,
    hr.le, hr.small⟩

/-- `cl_file_read`, also of no segment at all. -/
theorem performs_clFileRead {s : St} {own sn : Nat} {P : Handle → St → Prop} (hs : Tidy g s) {k m : Nat}
    (hC : Spread (Readable g (blk s.flash) sn) (blk s.flash) h.segmentListBlock C) (hsn : h.segmentData.serialno = sn)
    (hlim : k + m ≤ 65535) (hseg : h.segment + 1 = k) (hr : Reading h₀ h C loc n (122 * k))
    (hm : 122 * k + 122 * m ≤ loc + n)
    (hP : ∀ h' : Handle, h'.segment + 1 = k + m → h'.segmentData.serialno = sn →
      h'.segmentListBlock = h.segmentListBlock → Reading h₀ h' C loc n (122 * k + 122 * m) → P h' s) :
    Performs g own (clFileRead g h k m) s P := by
  rw [clFileRead]
  split_ifs with hpos
  · refine (performs_readSegments (P := fun h' s' => ∃ d : SegmentData, s' = s ∧ d.serialno = sn ∧
      h' = (h.holding (h.segment + m) d).got (slice C (122 * k) (122 * m))) hs m k hC hsn hlim hseg
      fun d hd => ⟨d, rfl, hd, rfl⟩).andThen ?_
    rintro _ s' - ⟨d, hs', hd, rfl⟩
    subst s'
    apply Performs.done hs
    refine hP _ ?_ hd rfl ?_
    · show h.segment + m + 1 = k + m
      omega
    · have hsub : 122 * k + 122 * m - 122 * k = 122 * m := by omega
      refine hr.advance (Nat.le_add_right _ _) hm ⟨rfl, rfl, rfl, rfl⟩ rfl ?_ ?_
      · rw [hsub]
        simp only [Handle.got, Handle.holding, hr.op]
        rfl
      · rw [hsub]
        rfl
  · obtain rfl : m = 0 := by omega
    exact Performs.done hs (hP h hseg hsn rfl hr)

/-- What remains of a read behind its first segment. -/
def readOn (g : Geometry) (h : Handle) : Cmd St Result :=
  if h.bytesLeft > 0 then
    andThen (clFileRead g h (h.segment + 1) (toUnsigned h.bytesLeft / blockDataSize)) fun h =>
    andThen (clFileLoadsegment g h (h.segment + 1)) fun h =>
    return (some (), readCurrentSegment h)
  else return (some (), h)

/-- What remains of a read when the segment in RAM has been saved. -/
def readSwapped (g : Geometry) (h : Handle) : Cmd St Result :=
  andThen (clFileLoadsegment g h (locSegment h)) fun h => readOn g (readCurrentSegment h)

theorem clFileFinishread_eq (h : Handle) :
    clFileFinishread g h = andThen (clFileSavesegment g h) (readSwapped g) := rfl

/-- The read is complete, with a segment of the file in RAM. -/
structure ReadDone (h₀ : Handle) (sn : Nat) (C : Nat → UInt8) (loc n : Nat) (s : St) (h : Handle) (s' : St) : Prop where
  state : s' = s
  reading : Reading h₀ h C loc n (loc + n)
  loaded : Loaded sn C h.segment h.segmentData
  opened : h.segmentData.status = BlockStatus.opened
  segment : h.segment < 65535

/-- A segment is loaded and read from. -/
theorem performs_loadAndRead {s : St} {own sn : Nat} {P : Handle → St → Prop} (hs : Tidy g s) {k : Nat}
    {c : Handle → Cmd St Result}
    (hC : Spread (Readable g (blk s.flash) sn) (blk s.flash) h.segmentListBlock C) (hsn : h.segmentData.serialno = sn)
    (hr : Reading h₀ h C loc n p) (hlim : loc + n < 122 * 65535) (hk : k = p / 122)
    (hnext : ∀ h' : Handle, h'.segment = k → Loaded sn C k h'.segmentData →
      h'.segmentData.status = BlockStatus.opened → h'.segmentListBlock = h.segmentListBlock →
      Reading h₀ h' C loc n (p + page p (loc + n - p)) → Performs g own (c h') s P) :
    Performs g own (andThen (clFileLoadsegment g h k) fun h => c (readCurrentSegment h)) s P := by
  have hle := hr.le
  refine (performs_loadsegment (P := fun h' s' => ∃ d : SegmentData, s' = s ∧ Loaded sn C k d ∧
    d.status = BlockStatus.opened ∧ h' = h.holding k d) hs hC hsn (by omega)
    fun d hd ho => ⟨d, rfl, hd, ho, rfl⟩).andThen ?_
  rintro _ s' - ⟨d, hs', hd, ho, rfl⟩
  subst s'
  obtain ⟨hr', hsegment, hdata⟩ := (hr.holding k d).readCurrentSegment hk hd.data
  apply hnext
  · exact hsegment
  · rw [hdata]
    exact hd
  · rw [hdata]
    exact ho
  · rw [hr'.file.segmentListBlock, hr.file.segmentListBlock]
  · exact hr'

theorem performs_readSwapped {s : St} {own sn : Nat} (hs : Tidy g s)
    (hC : Spread (Readable g (blk s.flash) sn) (blk s.flash) h.segmentListBlock C) (hsn : h.segmentData.serialno = sn)
    (hr : Reading h₀ h C loc n p) (hlim : loc + n < 122 * 65535) :
    Performs g own (readSwapped g h) s (ReadDone h₀ sn C loc n s) := by
  have hle := hr.le
  rw [readSwapped, hr.at.locSegment]
  apply performs_loadAndRead (c := readOn g) hs hC hsn hr hlim rfl
  intro h₁ hseg₁ hd₁ ho₁ hlist₁ hr₁
  have hleft := hr₁.left
  have hpage : page p (loc + n - p) = min (loc + n - p) (122 - p % 122) := rfl
  have hle₁ := hr₁.le
  rw [readOn]
  split_ifs with hmore
  · -- the transfer goes on at the next segment
    have hnext : p + page p (loc + n - p) = 122 * (h₁.segment + 1) := by omega
    rw [hnext] at hr₁ hleft
    have hcount : toUnsigned h₁.bytesLeft / blockDataSize = (loc + n - 122 * (h₁.segment + 1)) / 122 := by
      have hsmall := hr₁.small
      rw [hleft, toUnsigned_natCast (by omega)]
      rfl
    rw [hcount]
    set m := (loc + n - 122 * (h₁.segment + 1)) / 122 with hm
    rw [← hlist₁] at hC
    refine (performs_clFileRead (P := fun h' s' => s' = s ∧ h'.segment + 1 = h₁.segment + 1 + m ∧
      h'.segmentData.serialno = sn ∧ h'.segmentListBlock = h₁.segmentListBlock ∧
      Reading h₀ h' C loc n (122 * (h₁.segment + 1) + 122 * m)) hs hC hd₁.serialno (by omega) rfl hr₁ (by omega)
      fun h' h1 h2 h3 h4 => ⟨rfl, h1, h2, h3, h4⟩).andThen ?_
    rintro h₂ s' - ⟨hs', hseg₂, hsn₂, hlist₂, hr₂⟩
    subst s'
    rw [← hlist₂] at hC
    refine performs_loadAndRead (c := fun h => return (some (), h)) hs hC hsn₂ hr₂ hlim (by omega) ?_
    rintro h₃ hseg₃ hd₃ ho₃ - hr₃
    apply Performs.done hs
    have hlast : 122 * (h₁.segment + 1) + 122 * m +
        page (122 * (h₁.segment + 1) + 122 * m) (loc + n - (122 * (h₁.segment + 1) + 122 * m)) = loc + n := by
      rw [page]
      omega
    rw [hlast] at hr₃
    rw [← hseg₃] at hd₃
    exact ⟨rfl, hr₃, hd₃, ho₃, by omega⟩
  · -- nothing is left
    apply Performs.done hs
    have hend : p + page p (loc + n - p) = loc + n := by omega
    rw [hend] at hr₁
    rw [← hseg₁] at hd₁
    exact ⟨rfl, hr₁, hd₁, ho₁, by omega⟩

end reading

end CoActionOS.Cafs
