import CoActionOS.Cafs.Writing

/-!
# The calls to read and write

`Serves` is what a handle needs to be used: the file it writes is an open one, and one that only reads is closed.  A
call of `cafs_lite_read` or `cafs_lite_write` that starts within the file does what it would do on an array of bytes,
whether the segment in RAM is enough for it or not, unless it needs a block and none is left.
-/

namespace CoActionOS.Cafs

open Cmd

variable {g : Geometry}

/-! ### Handles -/

/-- The handle of a closed file with the content `C`. -/
structure ReadView (g : Geometry) (s : St) (sn hdr : Nat) (h : Handle) (C : Nat → UInt8) : Prop where
  tidy : Tidy g s
  serialno : h.segmentData.serialno = sn
  medium : Spread (ClosedFile g (blk s.flash) sn hdr) (blk s.flash) h.segmentListBlock C
  saved : h.segmentData.status ≠ BlockStatus.closed
  ram : h.segment < 65535 → ∀ i < 122, h.segmentData.data i = C (122 * h.segment + i)

/-- The handle of a file with the content `C`: of the closed file itself, or of a copy that can be written. -/
def Serves (g : Geometry) (s : St) (sn hdr : Nat) (h : Handle) (C : Nat → UInt8) : Prop :=
  if h.amode.w then View g s sn hdr h C else ReadView g s sn hdr h C

section serves

variable {s : St} {sn hdr : Nat} {h h' : Handle} {C : Nat → UInt8}

theorem Serves.tidy (hs : Serves g s sn hdr h C) : Tidy g s := by
  rw [Serves] at hs
  split_ifs at hs
  · exact View.tidy hs
  · exact ReadView.tidy hs

theorem Serves.ram (hs : Serves g s sn hdr h C) (hseg : h.segment < 65535) :
    ∀ i < 122, h.segmentData.data i = C (122 * h.segment + i) := by
  rw [Serves] at hs
  split_ifs at hs
  · exact View.ram hs hseg
  · exact ReadView.ram hs hseg

theorem Serves.serialno (hs : Serves g s sn hdr h C) : h.segmentData.serialno = sn := by
  rw [Serves] at hs
  split_ifs at hs
  · exact View.serialno hs
  · exact ReadView.serialno hs

theorem Serves.congr (hs : Serves g s sn hdr h C) (hfile : SameFile h h') (hseg : h'.segment = h.segment)
    (hdata : h'.segmentData = h.segmentData) : Serves g s sn hdr h' C := by
  rw [Serves, hfile.amode]
  rw [Serves] at hs
  split_ifs at hs ⊢
  · exact View.congr hs hfile.segmentListBlock hseg hdata
  · obtain ⟨h1, h2, h3, h4, h5⟩ := hs
    rw [← hfile.segmentListBlock] at h3
    rw [← hdata] at h2 h4
    rw [← hseg, ← hdata] at h5
    exact ⟨h1, h2, h3, h4, h5⟩

/-- Saving the segment in RAM in front of a read, and loading a segment behind it. -/
theorem Serves.performs_savesegment (hs : Serves g s sn hdr h C) {own : Nat} (hown : h.amode.w = true → own = sn)
    {P : Handle → St → Prop}
    (hP : ∀ (d : SegmentData) s', d.serialno = sn → Tidy g s' →
      Spread (Readable g (blk s'.flash) sn) (blk s'.flash) h.segmentListBlock C →
      (∀ k d', Loaded sn C k d' → d'.status = BlockStatus.opened → k < 65535 →
        Serves g s' sn hdr (h.holding k d') C) → P (h.holding h.segment d) s') :
    Performs g own (clFileSavesegment g h) s P := by
  have hne : BlockStatus.opened ≠ BlockStatus.closed := by decide
  rw [Serves] at hs
  split_ifs at hs with hw
  · rw [hown hw]
    refine View.performs_savesegment hs fun st s' _ ht hC => ?_
    refine hP { h.segmentData with status := st } s' (View.serialno hs) ht (hC.mono fun _ _ hf => hf.readable)
      fun k d' hd ho hk => ?_
    rw [Serves, if_pos (show (h.holding k d').amode.w = true from hw)]
    refine ⟨ht, hd.serialno, by show k < _; omega, ⟨C, hC, ?_⟩, fun _ => hd.data⟩
    exact (if_neg (show ¬d'.status = BlockStatus.closed by rw [ho]; exact hne)).symm
  · have hsaved := ReadView.saved hs
    have hmedium := ReadView.medium hs
    rw [clFileSavesegment, if_neg hsaved]
    refine Performs.done (ReadView.tidy hs) (hP h.segmentData s (ReadView.serialno hs) (ReadView.tidy hs)
      (hmedium.mono fun _ _ hf => hf.readable) fun k d' hd ho _ => ?_)
    rw [Serves, if_neg (show ¬(h.holding k d').amode.w = true from hw)]
    exact ⟨ReadView.tidy hs, hd.serialno, hmedium, by show d'.status ≠ _; rw [ho]; exact hne, fun _ => hd.data⟩

end serves

/-! ### The entry points -/

section calls

variable {s : St} {sn hdr : Nat} {h h' : Handle} {C : Nat → UInt8} {loc n size : Nat}

theorem toInt32_of_lt {x : Int} (h0 : 0 ≤ x) (h1 : x < 2 ^ 31) : toInt32 x = x := by
  rw [toInt32, Int.bmod_def]
  omega

/-- The first page of a read, which may be all of it. -/
theorem clFileStartread_spec (hop : h.op = ⟨loc, n, [], []⟩) (hsize : h.size = size) (hloc : loc ≤ size)
    (hn : loc + n < 2 ^ 31) (hsmall : size < 122 * 65535)
    (hram : h.segment < 65535 → ∀ i < 122, h.segmentData.data i = C (122 * h.segment + i)) :
    ∃ p, Reading h (clFileStartread h).2 C loc (min n (size - loc)) p ∧
      (clFileStartread h).2.segment = h.segment ∧ (clFileStartread h).2.segmentData = h.segmentData ∧
      ((clFileStartread h).1 = n → p = loc + min n (size - loc)) := by
  -- what is done with the handle whose transfer has been clipped
  have hstart : ∀ h' : Handle, h'.op = ⟨loc, (min n (size - loc) : Nat), [], []⟩ →
      h'.bytesLeft = (min n (size - loc) : Nat) → SameFile h h' → h'.size = h.size →
      Reading h h' C loc (min n (size - loc)) loc := by
    intro h' hop' hleft' hfile' hsize'
    refine ⟨hfile', hsize', ?_, ?_, Nat.le_refl _, Nat.le_add_right _ _, by omega⟩
    · rw [hop', Nat.sub_self]
      rfl
    · rw [hleft', Nat.add_sub_cancel_left]
  have hpage : ∀ h' : Handle, Reading h h' C loc (min n (size - loc)) loc → h'.segment = h.segment →
      h'.segmentData = h.segmentData → ∀ r : Int × Handle,
      r = (if locSegment h = h'.segment then
        (if (readCurrentSegment h').bytesLeft = 0 then (readCurrentSegment h').op.nbyte else 0, readCurrentSegment h')
        else (0, h')) →
      ∃ p, Reading h r.2 C loc (min n (size - loc)) p ∧ r.2.segment = h.segment ∧ r.2.segmentData = h.segmentData ∧
        (r.1 = n → p = loc + min n (size - loc)) := by
    rintro h' hr hseg hdata r rfl
    have hlocSegment : locSegment h = loc / 122 := by
      rw [locSegment, hop, toUnsigned_natCast (by omega)]
      rfl
    rw [hlocSegment]
    split_ifs with hcurrent hdone
    · have hram' := hram (by omega)
      rw [← hseg, ← hdata] at hram'
      obtain ⟨hr', hseg', hdata'⟩ := hr.readCurrentSegment hcurrent.symm hram'
      refine ⟨_, hr', hseg'.trans hseg, hdata'.trans hdata, fun _ => ?_⟩
      have hleft := hr'.left
      have hle := hr'.le
      rw [hdone] at hleft
      omega
    · have hram' := hram (by omega)
      rw [← hseg, ← hdata] at hram'
      obtain ⟨hr', hseg', hdata'⟩ := hr.readCurrentSegment hcurrent.symm hram'
      refine ⟨_, hr', hseg'.trans hseg, hdata'.trans hdata, fun hzero => ?_⟩
      simp only at hzero
      have hpage := page_le loc (loc + min n (size - loc) - loc)
      omega
    · refine ⟨loc, hr, hseg, hdata, fun hzero => ?_⟩
      simp only at hzero
      omega
  have hsum : toInt32 (h.op.nbyte + h.op.loc) = n + loc := by
    rw [hop]
    show toInt32 ((n : Int) + loc) = _
    exact toInt32_of_lt (by omega) (by omega)
  have hloc' : h.op.loc = loc := by rw [hop]
  by_cases hclip : toInt32 (h.op.nbyte + h.op.loc) > h.size
  · have hmin : h.size - h.op.loc = (min n (size - loc) : Nat) := by
      rw [hsum] at hclip
      rw [hloc', hsize]
      omega
    refine hpage { h with
      bytesLeft := h.size - h.op.loc
      op := { h.op with nbyte := h.size - h.op.loc } } (hstart _ ?_ ?_ ⟨rfl, rfl, rfl, rfl⟩ rfl) rfl rfl _ ?_
    · show (⟨h.op.loc, h.size - h.op.loc, h.op.src, h.op.out⟩ : Transfer) = _
      rw [hmin, hop]
    · exact hmin
    · rw [clFileStartread]
      dsimp only
      rw [if_pos hclip]
  · have hmin : min n (size - loc) = n := by
      rw [hsum, hsize] at hclip
      omega
    refine hpage { h with bytesLeft := h.op.nbyte } (hstart _ ?_ ?_ ⟨rfl, rfl, rfl, rfl⟩ rfl) rfl rfl _ ?_
    · rw [hmin]
      exact hop
    · rw [hmin]
      show h.op.nbyte = n
      rw [hop]
    · rw [clFileStartread]
      dsimp only
      rw [if_neg hclip]

/-- What a call on the handle `h` has returned: `r`, or an error because an allocation was refused. -/
structure Answered {α : Type} (g : Geometry) (own : Nat) (s : St) (sn hdr : Nat) (h : Handle) (a : α)
    (C : Nat → UInt8) (size : Nat) (r : Ret α × Handle) (s' : St) : Prop where
  ret : r.1 = .ok a
  kept : Extends g own s s'
  serves : Serves g s' sn hdr r.2 C
  file : SameFile h r.2
  size : r.2.size = size

theorem wp_cafsLiteRead {R : St → Prop} {own : Nat} (hs : Serves g s sn hdr h C) (hown : h.amode.w = true → own = sn)
    (hr : h.amode.r = true) (hsize : h.size = size)
    (hloc : loc ≤ size) (hn : loc + n < 2 ^ 31) (hsmall : size < 122 * 65535) :
    wp (cafsLiteRead g h loc n) (fun r s' =>
      Answered g own s sn hdr h (((min n (size - loc) : Nat) : Int), slice C loc (min n (size - loc))) C size r s' ∨
        r.1 = .error none ∧ RanOut g own s s') R s := by
  set h₀ : Handle := { h with op := ⟨loc, n, [], []⟩ } with hh₀
  have hs₀ : Serves g s sn hdr h₀ C := hs.congr ⟨rfl, rfl, rfl, rfl⟩ rfl rfl
  obtain ⟨p, hread, hseg, hdata, hdone⟩ := clFileStartread_spec (h := h₀) (C := C) rfl hsize hloc hn hsmall hs₀.ram
  have hs₁ : Serves g s sn hdr (clFileStartread h₀).2 C := hs₀.congr hread.file hseg hdata
  rw [cafsLiteRead]
  dsimp only
  rw [if_neg (by rw [hr]; decide)]
  split_ifs with hret
  · -- the segment in RAM was enough
    rw [wp_pure]
    rw [hdone hret] at hread
    refine Or.inl ⟨?_, Extends.refl hs.tidy, hs₁, ?_, ?_⟩
    · rw [hread.op, Nat.add_sub_cancel_left]
    · exact ⟨hread.file.hdrBlock, hread.file.segmentListBlock, hread.file.serialnoAddr, hread.file.amode⟩
    · rw [hread.size]
      exact hsize
  · -- the segment in RAM is saved first
    set h₁ := (clFileStartread h₀).2
    have hperforms : Performs g own (clFileFinishread g h₁) s fun h' s' =>
        Reading h₀ h' C loc (min n (size - loc)) (loc + min n (size - loc)) ∧ Serves g s' sn hdr h' C := by
      rw [clFileFinishread_eq]
      refine (hs₁.performs_savesegment (fun hw => hown ((congrArg Amode.w hread.file.amode).symm.trans hw))
        (P := fun h' s' => ∃ d : SegmentData, d.serialno = sn ∧ Tidy g s' ∧
        Spread (Readable g (blk s'.flash) sn) (blk s'.flash) h₁.segmentListBlock C ∧
        (∀ k d', Loaded sn C k d' → d'.status = BlockStatus.opened → k < 65535 →
          Serves g s' sn hdr (h₁.holding k d') C) ∧
        h' = h₁.holding h₁.segment d)
        fun d s' h1 h2 h3 h4 => ⟨d, h1, h2, h3, h4, rfl⟩).andThen ?_
      rintro _ s' - ⟨d, hd, ht, hC, hnext, rfl⟩
      refine (performs_readSwapped (h := h₁.holding h₁.segment d) ht hC hd (hread.holding _ d) (by omega)).mono
        fun h' s'' hfinal => ?_
      have hstate := hfinal.state
      subst hstate
      refine ⟨hfinal.reading, ?_⟩
      refine (hnext h'.segment h'.segmentData hfinal.loaded hfinal.opened hfinal.segment).congr ?_ rfl rfl
      have hfile := hfinal.reading.file
      exact ⟨hfile.hdrBlock.trans hread.file.hdrBlock.symm,
        hfile.segmentListBlock.trans hread.file.segmentListBlock.symm,
        hfile.serialnoAddr.trans hread.file.serialnoAddr.symm, hfile.amode.trans hread.file.amode.symm⟩
    refine wp_then hperforms ?_ (fun _ h => h.elim)
    rintro ⟨o, h'⟩ s' (⟨ho, hkept, hread', hs'⟩ | ⟨ho, hout⟩)
    · obtain rfl : o = some () := ho
      refine (wp_pure _).mpr (Or.inl ⟨?_, hkept, hs', ?_, ?_⟩)
      · show Except.ok (h'.op.nbyte, h'.op.out) = _
        rw [hread'.op, Nat.add_sub_cancel_left]
      · have hfile := hread'.file
        exact ⟨hfile.hdrBlock, hfile.segmentListBlock, hfile.serialnoAddr, hfile.amode⟩
      · exact hread'.size.trans hsize
    · obtain rfl : o = none := ho
      exact (wp_pure _).mpr (Or.inr ⟨rfl, hout⟩)

/-- The first page of a write, which may be all of it. -/
theorem clFileStartwrite_spec {buf : List UInt8} {p : Nat} (hv : View g s sn hdr h C)
    (hop : h.op = ⟨p, buf.length, buf, []⟩) (hsize : h.size = size) (hp : p ≤ size)
    (hsmall : max size (p + buf.length) < 122 * 65535) :
    ∃ k ≤ buf.length, Writing h (clFileStartwrite h).2 buf.length (p + k) (buf.drop k) (max size (p + buf.length)) ∧
      View g s sn hdr (clFileStartwrite h).2 (overwrite C p (buf.take k)) ∧
      ((clFileStartwrite h).1 = buf.length → k = buf.length) := by
  set h₁ : Handle := { h with bytesLeft := h.op.nbyte } with hh₁
  have hw : Writing h h₁ buf.length p buf (max size (p + buf.length)) := by
    refine ⟨⟨rfl, rfl, rfl, rfl⟩, hop, ?_, ⟨size, hsize, hp, rfl⟩, by omega⟩
    show h.op.nbyte = _
    rw [hop]
  have hv₁ : View g s sn hdr h₁ C := hv.congr rfl rfl rfl
  have hstart : ¬h.op.loc > h.size := by
    rw [hop, hsize]
    show ¬(p : Int) > size
    omega
  have hlocSegment : locSegment h = p / 122 := by
    rw [locSegment, hop, toUnsigned_natCast (by omega)]
    rfl
  have hpage := page_le p buf.length
  have hnone : ∃ k ≤ buf.length, Writing h h₁ buf.length (p + k) (buf.drop k) (max size (p + buf.length)) ∧
      View g s sn hdr h₁ (overwrite C p (buf.take k)) ∧ ((0 : Int) = buf.length → k = buf.length) := by
    refine ⟨0, Nat.zero_le _, hw, ?_, fun h0 => by omega⟩
    rw [List.take_zero, overwrite_nil]
    exact hv₁
  rw [clFileStartwrite]
  dsimp only
  rw [if_neg hstart, hlocSegment]
  by_cases hcurrent : p / 122 = h.segment
  · obtain ⟨hw', -, hv'⟩ := hw.writeCurrentSegment hv₁ hcurrent.symm hsmall
    have hleft := hw'.left
    rw [List.length_drop] at hleft
    rw [if_pos hcurrent]
    refine ⟨page p buf.length, hpage, hw', hv', fun hret => ?_⟩
    simp only at hret
    split_ifs at hret with hdone
    · rw [hdone] at hleft
      omega
    · omega
  · rw [if_neg hcurrent]
    exact hnone

theorem wp_cafsLiteWrite {R : St → Prop} {append : Bool} {loc : Int} {buf : List UInt8} {p : Nat}
    (hv : View g s sn hdr h C) (hw : h.amode.w = true) (hsize : h.size = size)
    (hstart : (if append then h.size else loc) = p) (hle : p ≤ size)
    (hsmall : max size (p + buf.length) < 122 * 65535) :
    wp (cafsLiteWrite g h append loc buf) (fun r s' =>
      Answered g sn s sn hdr h (buf.length : Int) (overwrite C p buf) (max size (p + buf.length)) r s' ∨
        r.1 = .error none ∧ RanOut g sn s s') R s := by
  set h₀ : Handle := { h with op := ⟨p, buf.length, buf, []⟩ } with hh₀
  have hv₀ : View g s sn hdr h₀ C := hv.congr rfl rfl rfl
  obtain ⟨k, hk, hwriting, hv₁, hdone⟩ := clFileStartwrite_spec (h := h₀) hv₀ rfl hsize hle hsmall
  have hfinal : ∀ h' s', Extends g sn s s' → Writing h₀ h' buf.length (p + buf.length) [] (max size (p + buf.length)) →
      View g s' sn hdr h' (overwrite C p buf) →
      Answered g sn s sn hdr h (buf.length : Int) (overwrite C p buf) (max size (p + buf.length)) (.ok h'.op.nbyte, h')
        s' := by
    intro h' s' hkept hw' hv'
    have hfile := hw'.file
    refine ⟨by rw [hw'.op], hkept, ?_,
      ⟨hfile.hdrBlock, hfile.segmentListBlock, hfile.serialnoAddr, hfile.amode⟩, ?_⟩
    · rw [Serves, if_pos (hfile.amode.symm ▸ hw : h'.amode.w = true)]
      exact hv'
    · obtain ⟨size', hs', hle', hmax⟩ := hw'.grown
      rw [List.length_nil, Nat.add_zero, Nat.max_eq_left hle'] at hmax
      show h'.size = _
      rw [hs', hmax]
  rw [cafsLiteWrite, hstart]
  dsimp only
  rw [if_neg (by rw [hw]; decide)]
  split_ifs with hret
  · -- the segment in RAM was enough
    obtain rfl := hdone hret
    rw [List.drop_length] at hwriting
    rw [List.take_length] at hv₁
    exact (wp_pure _).mpr (Or.inl (hfinal _ s (Extends.refl hv.tidy) hwriting hv₁))
  · -- the segment in RAM is saved first
    set h₁ := (clFileStartwrite h₀).2
    have hperforms : Performs g sn (clFileFinishwrite g h₁) s (WriteDone g h₀ sn hdr (overwrite C p buf) buf.length
        (p + buf.length) (max size (p + buf.length))) := by
      rw [clFileFinishwrite_eq]
      refine (hv₁.performs_savesegment (P := fun h' s' => ∃ d : SegmentData, d.serialno = sn ∧ Tidy g s' ∧
        Spread (OpenFile g (blk s'.flash) sn hdr) (blk s'.flash) h₁.segmentListBlock (overwrite C p (buf.take k)) ∧
        h' = h₁.holding h₁.segment d)
        fun st s' _ ht hC => ⟨{ h₁.segmentData with status := st }, hv₁.serialno, ht, hC, rfl⟩).andThen ?_
      rintro _ s' - ⟨d, hd, ht, hC, rfl⟩
      have hswapped := performs_writeSwapped (h := h₁.holding h₁.segment d) ht hC hd (hwriting.holding _ d) hsmall
      have hlen : (buf.take k).length = k := by
        rw [List.length_take]
        omega
      have hbytes : overwrite (overwrite C p (buf.take k)) (p + k) (buf.drop k) = overwrite C p buf := by
        have happend := overwrite_append C p (buf.take k) (buf.drop k)
        rwa [hlen, List.take_append_drop] at happend
      have hend : p + k + (buf.drop k).length = p + buf.length := by
        rw [List.length_drop]
        omega
      rw [hbytes, hend] at hswapped
      exact hswapped
    refine wp_then hperforms ?_ (fun _ h => h.elim)
    rintro ⟨o, h'⟩ s' (⟨ho, hkept, hdone'⟩ | ⟨ho, hout⟩)
    · obtain rfl : o = some () := ho
      exact (wp_pure _).mpr (Or.inl (hfinal h' s' hkept hdone'.writing hdone'.view))
    · obtain rfl : o = none := ho
      exact (wp_pure _).mpr (Or.inr ⟨rfl, hout⟩)

end calls

end CoActionOS.Cafs
