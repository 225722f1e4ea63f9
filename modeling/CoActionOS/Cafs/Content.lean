import CoActionOS.Cafs.SegmentMap
import CoActionOS.Cafs.Volume

/-!
# The content of a file on the medium

The current item of a segment names the block with its bytes, and a segment without one is zero.  `Spread` says that a
file has a certain content in this sense; `performs_loadsegment` reads it segment by segment, and `performs_save` is
what saving the segment in RAM does to it.

`Performs` is about the calls on a handle: they return, either with success or because an allocation was refused, and
the blocks of other files and every closed block are as they were (`Extends`).
-/

namespace CoActionOS.Cafs

open Cmd

variable {g : Geometry}

/-! ### Items and segments -/

section items

variable {I : List FileItem} {resd : UInt8} {u : Nat × Nat}

theorem supersede_of_current {segment : Nat} {i : FileItem}
    (h : (supersede segment i).status = FileStatus.current) :
    supersede segment i = i ∧ i.segment ≠ segment := by
  have hne : ¬(i.segment = segment ∧ i.status = FileStatus.current) := by
    intro hi
    rw [supersede, if_pos hi] at h
    have hdiff : FileStatus.obsolete ≠ FileStatus.current := by decide
    exact hdiff h
  have hsame : supersede segment i = i := if_neg hne
  rw [hsame] at h
  exact ⟨hsame, fun he => hne ⟨he, h⟩⟩

theorem UniqueCurrent.record (h : UniqueCurrent I) : UniqueCurrent (record resd u I) := by
  have hlen : (Cafs.record resd u I).length = I.length + 1 := by simp [Cafs.record]
  have hold : ∀ j (hj : j < I.length), (Cafs.record resd u I)[j] = supersede u.1 I[j] := by
    intro j hj
    simp only [Cafs.record]
    rw [List.getElem_append_left (by simpa using hj), List.getElem_map]
  have hnew : (Cafs.record resd u I)[I.length] = ⟨FileStatus.current, resd, u.2, u.1⟩ := by
    simp only [Cafs.record]
    rw [List.getElem_append_right (by simp), List.getElem_singleton]
  -- an old item that is still current is for another segment
  have hother : ∀ j (hj : j < I.length), (Cafs.record resd u I)[j].status = FileStatus.current →
      (Cafs.record resd u I)[j] = I[j] ∧ I[j].segment ≠ u.1 := by
    intro j hj hc
    rw [hold j hj] at hc ⊢
    exact supersede_of_current hc
  intro j k hj hk hcj hck hsegment
  by_cases hjI : j < I.length
  · obtain ⟨hsamej, hnej⟩ := hother j hjI hcj
    by_cases hkI : k < I.length
    · obtain ⟨hsamek, -⟩ := hother k hkI hck
      rw [hsamej] at hcj hsegment
      rw [hsamek] at hck hsegment
      exact h j k hjI hkI hcj hck hsegment
    · obtain rfl : k = I.length := by omega
      rw [hsamej, hnew] at hsegment
      exact absurd hsegment hnej
  · obtain rfl : j = I.length := by omega
    by_cases hkI : k < I.length
    · obtain ⟨hsamek, hnek⟩ := hother k hkI hck
      rw [hsamek, hnew] at hsegment
      exact absurd hsegment.symm hnek
    · omega

theorem currentBlock_of_current (hu : UniqueCurrent I) {k : Nat} (hk : k < I.length)
    (hc : I[k].status = FileStatus.current) : currentBlock I I[k].segment = some I[k].block := by
  cases hfind : currentBlock I I[k].segment with
  | none =>
    rw [currentBlock, Option.map_eq_none_iff, List.find?_eq_none] at hfind
    exact absurd (decide_eq_true ⟨hc, rfl⟩) (hfind _ (List.getElem_mem hk))
  | some b =>
    obtain ⟨i, hi, hcurrent, rfl⟩ := mem_of_currentBlock hfind
    obtain ⟨j, hj, rfl⟩ := List.getElem_of_mem hi
    obtain rfl := hu j k hj hk hcurrent.1 hc hcurrent.2
    rfl

theorem currentBlock_eq_none {segment : Nat}
    (h : ∀ i ∈ I, ¬(i.status = FileStatus.current ∧ i.segment = segment)) : currentBlock I segment = none := by
  rw [currentBlock, Option.map_eq_none_iff, List.find?_eq_none]
  exact fun i hi hc => h i hi (of_decide_eq_true hc)

end items

/-- The bytes of a segment, which are zero if there is no block for it. -/
def segmentBytes (V : Nat → Bytes) (I : List FileItem) (segment : Nat) : Bytes :=
  match currentBlock I segment with
  | none => fun _ => 0
  | some b => blockData (V b)

/-- A list whose current items name data blocks. -/
structure Readable (g : Geometry) (V : Nat → Bytes) (sn : Nat) (blocks : List Nat) (I : List FileItem) : Prop where
  list : IsList g V sn BlockType.fileList blocks I.length
  items : HasItems fileDecoder V blocks I
  unique : UniqueCurrent I
  data : ∀ i ∈ I, i.status = FileStatus.current → DataBlock g V sn i.block

/-- A file with its list at `listBlock` has the content `C`. -/
def Spread (file : List Nat → List FileItem → Prop) (V : Nat → Bytes) (listBlock : Nat) (C : Nat → UInt8) : Prop :=
  ∃ blocks I, file blocks I ∧ blocks.headD 0 = listBlock ∧ ∀ k, ∀ i < 122, segmentBytes V I k i = C (122 * k + i)

section

variable {V V' : Nat → Bytes} {sn hdr listBlock : Nat} {C : Nat → UInt8} {blocks : List Nat} {I : List FileItem}
  {file file' : List Nat → List FileItem → Prop}

theorem OpenFile.readable (h : OpenFile g V sn hdr blocks I) : Readable g V sn blocks I :=
  ⟨h.list, h.items, h.unique, fun i hi _ => h.data i hi⟩

theorem ClosedFile.readable (h : ClosedFile g V sn hdr blocks I) : Readable g V sn blocks I :=
  ⟨h.list, h.items, h.unique, fun i hi hc => (h.data i hi hc).1⟩

theorem segmentBytes_congr (hV : ∀ i ∈ I, i.status = FileStatus.current → V' i.block = V i.block) (k : Nat) :
    segmentBytes V' I k = segmentBytes V I k := by
  rw [segmentBytes, segmentBytes]
  cases hcurrent : currentBlock I k with
  | none => rfl
  | some b =>
    obtain ⟨i, hi, hc, rfl⟩ := mem_of_currentBlock hcurrent
    show blockData (V' i.block) = blockData (V i.block)
    rw [hV i hi hc.1]

theorem Spread.mono (h : Spread file V listBlock C) (himp : ∀ blocks I, file blocks I → file' blocks I) :
    Spread file' V listBlock C := by
  obtain ⟨blocks, I, hfile, hrest⟩ := h
  exact ⟨blocks, I, himp blocks I hfile, hrest⟩

/-- What a call on another file leaves. -/
theorem Extends.spread_openFile {s s' : St} {sn' : Nat} (h : Extends g sn' s s')
    (hs : Spread (OpenFile g (blk s.flash) sn hdr) (blk s.flash) listBlock C) (hne : sn ≠ sn') :
    Spread (OpenFile g (blk s'.flash) sn hdr) (blk s'.flash) listBlock C := by
  obtain ⟨blocks, I, hfile, hhead, hC⟩ := hs
  refine ⟨blocks, I, h.openFile hfile hne, hhead, fun k i hi => ?_⟩
  rw [segmentBytes_congr fun j hj _ => ?_]
  · exact hC k i hi
  · have hdata := hfile.data j hj
    exact h.other _ hdata.lt hdata.live fun he => hne (hdata.serialno.symm.trans he)

/-- A closed file keeps its content, also while a copy of it is written. -/
theorem Extends.spread_closedFile {s s' : St} {sn' : Nat} (h : Extends g sn' s s')
    (hs : Spread (ClosedFile g (blk s.flash) sn hdr) (blk s.flash) listBlock C) :
    Spread (ClosedFile g (blk s'.flash) sn hdr) (blk s'.flash) listBlock C := by
  obtain ⟨blocks, I, hfile, hhead, hC⟩ := hs
  refine ⟨blocks, I, h.closedFile hfile, hhead, fun k i hi => ?_⟩
  rw [segmentBytes_congr fun j hj hc => ?_]
  · exact hC k i hi
  · obtain ⟨hdata, hclosed⟩ := hfile.data j hj hc
    exact h.closed _ hdata.lt hclosed

end

/-! ### The list after an update -/

section record

variable {V V' : Nat → Bytes} {sn hdr k b : Nat} {resd : UInt8} {blocks more : List Nat} {I : List FileItem}

theorem length_record {u : Nat × Nat} : (record resd u I).length = I.length + 1 := by simp [record]

theorem headD_append (h : blocks ≠ []) : (blocks ++ more).headD 0 = blocks.headD 0 := by
  obtain ⟨c, cs, rfl⟩ := List.exists_cons_of_ne_nil h
  rfl

theorem mem_record {i : FileItem} (hi : i ∈ record resd (k, b) I) :
    (∃ j ∈ I, i = supersede k j) ∨ i = ⟨FileStatus.current, resd, b, k⟩ := by
  rcases List.mem_append.mp hi with hi | hi
  · obtain ⟨j, hj, rfl⟩ := List.mem_map.mp hi
    exact Or.inl ⟨j, hj, rfl⟩
  · exact Or.inr (List.mem_singleton.mp hi)

theorem record_getElem_of_lt (hj : j < (record resd (k, b) I).length) (hI : j < I.length) :
    (record resd (k, b) I)[j] = supersede k I[j] := by
  simp only [record]
  rw [List.getElem_append_left (by simpa using hI), List.getElem_map]

theorem record_getElem_last (hj : I.length < (record resd (k, b) I).length) :
    (record resd (k, b) I)[I.length] = ⟨FileStatus.current, resd, b, k⟩ := by
  simp only [record]
  rw [List.getElem_append_right (by simp), List.getElem_singleton]

theorem block_record_inj (happart : ∀ j l (hj : j < I.length) (hl : l < I.length), I[j].block = I[l].block → j = l)
    (hnew : ∀ i ∈ I, i.block ≠ b) (j l : Nat) (hj : j < (record resd (k, b) I).length)
    (hl : l < (record resd (k, b) I).length)
    (he : (record resd (k, b) I)[j].block = (record resd (k, b) I)[l].block) : j = l := by
  have hj' := hj
  have hl' := hl
  rw [length_record] at hj' hl'
  by_cases hjI : j < I.length
  · rw [record_getElem_of_lt hj hjI, supersede_block] at he
    by_cases hlI : l < I.length
    · rw [record_getElem_of_lt hl hlI, supersede_block] at he
      exact happart j l hjI hlI he
    · obtain rfl : l = I.length := by omega
      rw [record_getElem_last] at he
      exact absurd he (hnew _ (List.getElem_mem hjI))
  · obtain rfl : j = I.length := by omega
    by_cases hlI : l < I.length
    · rw [record_getElem_last, record_getElem_of_lt hl hlI, supersede_block] at he
      exact absurd he.symm (hnew _ (List.getElem_mem hlI))
    · omega

theorem OpenFile.record (h : OpenFile g V sn hdr blocks I) (hdata : DataBlock g V sn b)
    (hnew : ∀ i ∈ I, i.block ≠ b) (hkeep : ∀ c < g.total, Live (V c) → c ∉ blocks → V' c = V c)
    (hmore : ∀ c ∈ more, V' c 5 = BlockStatus.opened) (hold : ∀ c ∈ blocks, V' c 5 = V c 5)
    (hL : IsList g V' sn BlockType.fileList (blocks ++ more) (I.length + 1))
    (hI : HasItems fileDecoder V' (blocks ++ more) (Cafs.record resd (k, b) I)) :
    OpenFile g V' sn hdr (blocks ++ more) (Cafs.record resd (k, b) I) := by
  have hhdr : V' hdr = V hdr := hkeep hdr h.lt (Or.inr h.status) h.hdr_not_mem
  have hblock : ∀ c, DataBlock g V sn c → DataBlock g V' sn c := fun c hc =>
    hc.congr (hkeep c hc.lt hc.live (hc.not_mem h.list))
  exact
    { pos := h.pos
      lt := h.lt
      serialno := by rw [hhdr]; exact h.serialno
      type := by rw [hhdr]; exact h.type
      status := by rw [hhdr]; exact h.status
      content := by rw [hhdr, headD_append h.list.ne]; exact h.content
      list := by rw [length_record]; exact hL
      items := hI
      listStatus := by
        intro c hc
        rcases List.mem_append.mp hc with hc | hc
        · rw [hold c hc]
          exact h.listStatus c hc
        · exact hmore c hc
      unique := h.unique.record
      pending := by
        intro i hi
        rcases mem_record hi with ⟨j, hj, rfl⟩ | rfl
        · rw [supersede]
          split_ifs
          · exact Or.inr rfl
          · exact h.pending j hj
        · exact Or.inl rfl
      data := by
        intro i hi
        rcases mem_record hi with ⟨j, hj, rfl⟩ | rfl
        · rw [supersede_block]
          exact hblock _ (h.data j hj)
        · exact hblock _ hdata
      apart := block_record_inj h.apart hnew
      noSize := by rw [hhdr]; exact h.noSize }

/-- The bytes of one segment are replaced. -/
def patch (C : Nat → UInt8) (k : Nat) (d : Bytes) : Nat → UInt8 := fun p => if p / 122 = k then d (p % 122) else C p

theorem patch_segment {C : Nat → UInt8} {d : Bytes} {m i : Nat} (hi : i < 122) :
    patch C k d (122 * m + i) = if m = k then d i else C (122 * m + i) := by
  have hdiv : (122 * m + i) / 122 = m := by omega
  have hmod : (122 * m + i) % 122 = i := by omega
  rw [patch, hdiv, hmod]

theorem patch_congr {C : Nat → UInt8} {d d' : Bytes} (h : ∀ i < 122, d' i = d i) : patch C k d' = patch C k d := by
  funext p
  rw [patch, patch, h _ (Nat.mod_lt p (by decide))]

/-- The new block has the bytes of its segment, and the other segments are as they were. -/
theorem segmentBytes_record (h : ∀ i ∈ I, i.status = FileStatus.current → V' i.block = V i.block)
    {C : Nat → UInt8} {d : Bytes} (hC : ∀ m, ∀ i < 122, segmentBytes V I m i = C (122 * m + i))
    (hd : ∀ i < 122, blockData (V' b) i = d i) :
    ∀ m, ∀ i < 122, segmentBytes V' (Cafs.record resd (k, b) I) m i = patch C k d (122 * m + i) := by
  intro m i hi
  rw [patch_segment hi, segmentBytes, currentBlock_record]
  by_cases hm : m = k
  · subst hm
    rw [if_pos rfl, Function.update_self]
    exact hd i hi
  · rw [if_neg hm, Function.update_of_ne hm, ← hC m i hi, ← segmentBytes_congr h m]
    rfl

end record

/-! ### Loading and saving a segment -/

/-- An allocation has been refused after other changes to the file `sn`. -/
def RanOut (g : Geometry) (sn : Nat) (s s' : St) : Prop := ∃ s₁, Extends g sn s s₁ ∧ Refused g s₁ s'

/-- The call works on the file `sn`: it succeeds with `P`, or fails because an allocation is refused. -/
def Performs (g : Geometry) (sn : Nat) (c : Cmd St Result) (s : St) (P : Handle → St → Prop) : Prop :=
  wp c (fun r s' => (r.1 = some () ∧ Extends g sn s s' ∧ P r.2 s') ∨ (r.1 = none ∧ RanOut g sn s s'))
    (fun _ => False) s

section

variable {s : St} {own sn hdr : Nat} {C : Nat → UInt8} {h : Handle} {c : Cmd St Result} {P P' : Handle → St → Prop}

theorem RanOut.after {s₁ s' : St} (h : RanOut g own s₁ s') (he : Extends g own s s₁) : RanOut g own s s' := by
  obtain ⟨s₂, h2, hr⟩ := h
  exact ⟨s₂, he.trans h2, hr⟩

theorem Performs.done (hs : Tidy g s) (hP : P h s) : Performs g own (pure (some (), h)) s P :=
  (wp_pure _).mpr (Or.inl ⟨rfl, Extends.refl hs, hP⟩)

theorem Performs.andThen {k : Handle → Cmd St Result} (hc : Performs g own c s P)
    (hk : ∀ h s', Extends g own s s' → P h s' → Performs g own (k h) s' P') : Performs g own (andThen c k) s P' := by
  rw [Cafs.andThen]
  refine wp_then hc ?_ (fun _ h => h)
  rintro ⟨r, h⟩ s' (⟨hr, he, hP⟩ | ⟨hr, hout⟩)
  · obtain rfl : r = some () := hr
    refine wp_mono (hk h s' he hP) ?_ (fun _ h => h)
    rintro ⟨r', h'⟩ s'' (⟨hr', he', hP'⟩ | ⟨hr', hout⟩)
    · exact Or.inl ⟨hr', he.trans he', hP'⟩
    · exact Or.inr ⟨hr', hout.after he⟩
  · obtain rfl : r = none := hr
    exact (wp_pure _).mpr (Or.inr ⟨rfl, hout⟩)

theorem Performs.mono (hc : Performs g own c s P) (hP : ∀ h s', P h s' → P' h s') : Performs g own c s P' := by
  refine wp_mono hc ?_ (fun _ h => h)
  rintro r s' (⟨hr, he, h1⟩ | hout)
  · exact Or.inl ⟨hr, he, hP _ _ h1⟩
  · exact Or.inr hout

/-- The block of a segment. -/
theorem Spread.wp_clFilelistGet {listBlock k : Nat} {Q : Option Nat → St → Prop} {R : St → Prop} (hup : s.up = true)
    (hC : Spread (Readable g (blk s.flash) sn) (blk s.flash) listBlock C)
    (hsome : ∀ b, DataBlock g (blk s.flash) sn b →
      (∀ i < 122, blockData (blk s.flash b) i = C (122 * k + i)) → Q (some b) s)
    (hnone : (∀ i < 122, C (122 * k + i) = 0) → Q none s) :
    wp (clFilelistGet g listBlock k FileStatus.current) Q R s := by
  obtain ⟨blocks, I, hfile, rfl, hbytes⟩ := hC
  apply Cafs.wp_clFilelistGet hup hfile.list hfile.items
  · intro j hj hcurrent
    have hdata := hfile.data _ (List.getElem_mem hj) hcurrent.1
    have hgb := g.blocks_le
    have hlt := hdata.lt
    have hvalid : I[j].block ≠ blockInvalid := by
      show I[j].block ≠ 65535
      omega
    rw [if_neg hvalid]
    refine hsome _ hdata fun i hi => ?_
    have hblock := currentBlock_of_current hfile.unique hj hcurrent.1
    rw [hcurrent.2] at hblock
    rw [← hbytes k i hi, segmentBytes, hblock]
  · intro hno
    refine hnone fun i hi => ?_
    rw [← hbytes k i hi, segmentBytes, currentBlock_eq_none hno]

/-- The handle with segment `k` in RAM. -/
def Handle.holding (h : Handle) (k : Nat) (d : SegmentData) : Handle := { h with segment := k, segmentData := d }

/-- `d` is segment `k` of the file. -/
structure Loaded (sn : Nat) (C : Nat → UInt8) (k : Nat) (d : SegmentData) : Prop where
  serialno : d.serialno = sn
  data : ∀ i < 122, d.data i = C (122 * k + i)

theorem performs_loadsegment {segment : Nat} (hs : Tidy g s)
    (hC : Spread (Readable g (blk s.flash) sn) (blk s.flash) h.segmentListBlock C)
    (hsn : h.segmentData.serialno = sn) (hseg : segment < 65535)
    (hP : ∀ d : SegmentData, Loaded sn C segment d → d.status = BlockStatus.opened →
      P (h.holding segment d) s) :
    Performs g own (clFileLoadsegment g h segment) s P := by
  have hmod : segment % 2 ^ 16 = segment := Nat.mod_eq_of_lt (by omega)
  rw [Performs, clFileLoadsegment, wp_bind]
  apply hC.wp_clFilelistGet hs.up
  · intro b hdata hbytes
    have hlt := hdata.lt
    simp only [wp_bind, wp_attempt]
    apply wp_clBlockLoad hs.up (by omega)
    rw [wp_pure, hmod]
    set d := blk s.flash b with hd
    exact Or.inl ⟨rfl, Extends.refl hs,
      hP ⟨u32 d 0, d 4, BlockStatus.opened, blockData d⟩ ⟨hdata.serialno, hbytes⟩ rfl⟩
  · intro hzero
    rw [wp_pure, hmod]
    exact Or.inl ⟨rfl, Extends.refl hs,
      hP ⟨h.segmentData.serialno, h.segmentData.type, BlockStatus.opened, fun _ => 0⟩
        ⟨hsn, fun i hi => (hzero i hi).symm⟩ rfl⟩

/-- A new block becomes the segment `k`. -/
theorem OpenFile.wp_clFilelistUpdate {listBlock k b : Nat} {blocks : List Nat} {I : List FileItem}
    {Q : Unit → St → Prop} {R : St → Prop} (hs : Tidy g s) (hfile : OpenFile g (blk s.flash) sn hdr blocks I)
    (hhead : blocks.headD 0 = listBlock)
    (hC : ∀ m, ∀ i < 122, segmentBytes (blk s.flash) I m i = C (122 * m + i))
    (hdata : DataBlock g (blk s.flash) sn b) (hnew : ∀ i ∈ I, i.block ≠ b) (hk : k < 65536)
    (hR : ∀ s', Refused g s s' → R s')
    (hQ : ∀ s', Extends g sn s s' →
      Spread (OpenFile g (blk s'.flash) sn hdr) (blk s'.flash) listBlock
        (patch C k (blockData (blk s.flash b))) → Q () s') :
    wp (clFilelistUpdate g listBlock k b) Q R s := by
  subst hhead
  have hgb := g.blocks_le
  have hblt := hdata.lt
  have hsn : sn < 2 ^ 32 := by
    rw [← hfile.serialno]
    exact u32_lt _ _
  apply Cafs.wp_clFilelistUpdate hs hsn hfile.list hfile.items (fun c hc => Or.inr (hfile.listStatus c hc))
    hfile.unique (by omega) (by omega) (fun i hi _ => hnew i hi) hR
  intro more resd s' ht hf hmore hold hL hI
  have hdatas : ∀ c, DataBlock g (blk s.flash) sn c → blk s'.flash c = blk s.flash c := fun c hc =>
    hf.keep c hc.lt hc.live (hc.not_mem hfile.list)
  apply hQ s'
  · -- the blocks of the list keep their headers
    apply Extends.of_frame ht hf
    intro c hc hmem _
    have hmem' : c ∈ blocks ++ more := List.mem_append_left _ hmem
    obtain ⟨i, hi, rfl⟩ := List.getElem_of_mem hmem
    have htype := hfile.list.type i hi
    have htype' := hL.type i (by rw [List.length_append]; omega)
    rw [List.getElem_append_left hi] at htype'
    refine ⟨hfile.listStatus _ hmem, hfile.list.serialno _ hmem, Or.inr ?_, htype'.trans htype.symm, ?_⟩
    · rw [hold _ hmem]
      exact hfile.listStatus _ hmem
    · rw [hL.serialno _ hmem', hfile.list.serialno _ hmem]
  · refine ⟨blocks ++ more, Cafs.record resd (k, b) I,
      hfile.record hdata hnew hf.keep (fun c hc => (hmore c hc).2) hold hL hI, headD_append hfile.list.ne, ?_⟩
    apply segmentBytes_record (fun i hi _ => hdatas _ (hfile.data i hi)) hC
    intro i _
    rw [hdatas b hdata]

/-- Saving the segment in RAM, whatever the segment on the medium was. -/
theorem performs_save (hs : Tidy g s)
    (hC : Spread (OpenFile g (blk s.flash) sn hdr) (blk s.flash) h.segmentListBlock C)
    (hsn : h.segmentData.serialno = sn) (hseg : h.segment < 65536) (hclosed : h.segmentData.status = BlockStatus.closed)
    (hP : ∀ s', Tidy g s' →
      Spread (OpenFile g (blk s'.flash) sn hdr) (blk s'.flash) h.segmentListBlock
        (patch C h.segment h.segmentData.data) →
      P (h.holding h.segment { h.segmentData with status := BlockStatus.opened }) s') :
    Performs g sn (clFileSavesegment g h) s P := by
  obtain ⟨blocks, I, hfile, hhead, hbytes⟩ := hC
  have hsnlt : sn < 2 ^ 32 := by
    rw [← hfile.serialno]
    exact u32_lt _ _
  have hlist : h.segmentListBlock < g.total := by
    rw [← hhead]
    obtain ⟨c, cs, hcs⟩ := List.exists_cons_of_ne_nil hfile.list.ne
    rw [hcs]
    exact hfile.list.lt c (hcs ▸ List.mem_cons_self)
  rw [Performs, clFileSavesegment, if_pos hclosed]
  simp only [wp_bind, wp_attempt]
  apply wp_clBlockAlloc hs (Or.inl hlist)
  · intro s' hr
    rw [wp_pure]
    exact Or.inr ⟨rfl, s, Extends.refl hs, hr⟩
  intro b s₁ ha
  have hne : ∀ c, Live (blk s.flash c) → c ≠ b := fun c hc he => ha.was (he ▸ hc)
  apply wp_clBlockSave ha.tidy ha.lt ha.fresh
  intro s₂ hw
  -- the new block has the header of the allocation and the bytes of the segment
  have hkeep : ∀ c < g.total, Live (blk s.flash c) → blk s₂.flash c = blk s.flash c := fun c hc hl => by
    rw [hw.other c (hne c hl), ha.keep hc hl]
  have hhdr : ∀ i < 5, blk s₂.flash b i = blk s₁.flash b i := fun i hi => hw.get_of_lt (by omega) b
  have hserialno : u32 (blk s₂.flash b) 0 = u32 (blk s₁.flash b) 0 := u32_congr fun i hi => hhdr (0 + i) (by omega)
  have hopened : blk s₂.flash b 5 = BlockStatus.opened := hw.get_add (i := 0) (by simp)
  have hdata : DataBlock g (blk s₂.flash) sn b :=
    { pos := ha.pos
      lt := ha.lt
      serialno := by
        rw [hserialno, ha.fresh, hsn]
        exact freshBlock_serialno _ hsnlt
      type := by
        rw [hhdr 4 (by omega), ha.fresh]
        rfl
      live := Or.inr hopened }
  have hbytes₂ : ∀ i < 122, blockData (blk s₂.flash b) i = h.segmentData.data i := by
    intro i hi
    have hlen : i + 1 < (BlockStatus.opened :: slice h.segmentData.data 0 blockDataSize).length := by
      rw [List.length_cons, length_slice]
      exact Nat.succ_lt_succ hi
    have hget := hw.get_add hlen
    rw [List.getElem_cons_succ, getElem_slice, Nat.zero_add] at hget
    rw [← hget, blockData]
    congr 1
    show 6 + i = 5 + (i + 1)
    omega
  have hext : Extends g sn s s₂ := by
    refine (Extends.of_allocated ha (by decide)).trans (Extends.of_frame hw.tidy (hw.frame ha.live (by omega)) ?_)
    rintro c hc rfl hl
    refine ⟨?_, ?_, Or.inr hopened, hhdr 4 (by omega), hserialno⟩
    · rw [ha.fresh]
      rfl
    · rw [← hserialno]
      exact hdata.serialno
  have hfile₂ : OpenFile g (blk s₂.flash) sn hdr blocks I := hfile.congr fun c hc hl _ => hkeep c hc hl
  have hC₂ : ∀ m, ∀ i < 122, segmentBytes (blk s₂.flash) I m i = C (122 * m + i) := by
    intro m i hi
    rw [segmentBytes_congr fun j hj _ => hkeep j.block (hfile.data j hj).lt (hfile.data j hj).live]
    exact hbytes m i hi
  apply hfile₂.wp_clFilelistUpdate hw.tidy hhead hC₂ hdata (fun i hi => hne _ (hfile.data i hi).live) hseg
  · intro s' hr
    rw [wp_pure]
    exact Or.inr ⟨rfl, s₂, hext, hr⟩
  intro s' he hC'
  rw [wp_pure]
  rw [patch_congr hbytes₂] at hC'
  exact Or.inl ⟨rfl, hext.trans he, hP s' he.tidy hC'⟩

end

end CoActionOS.Cafs
