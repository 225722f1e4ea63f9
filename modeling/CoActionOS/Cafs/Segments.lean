import CoActionOS.Cafs.Consolidate
import CoActionOS.Cafs.FileList

/-!
# The items of a file's list

At most one item of a segment is current (`UniqueCurrent`), so `cl_filelist_update` supersedes all of
them and appends the new one.
-/

namespace CoActionOS.Cafs

open Cmd

variable {g : Geometry}

/-! ### Items as bytes -/

theorem length_toBytes_fileItem (i : FileItem) : i.toBytes.length = 8 := rfl

theorem dec_toBytes_fileItem (i : FileItem) (hb : i.block < 65536) (hseg : i.segment < 2 ^ 32) :
    fileDecoder.dec (fun j => i.toBytes.getD j 0) = i := by
  have h1 : u16 (fun j => i.toBytes.getD j 0) 2 = i.block := u16_eq_of_le16 hb rfl rfl
  have h2 : u32 (fun j => i.toBytes.getD j 0) 4 = i.segment :=
    u32_eq_of_le32 hseg rfl rfl rfl rfl
  show FileItem.ofBytes (fun j => i.toBytes.getD j 0) = i
  rw [FileItem.ofBytes, h1, h2]
  rfl

theorem Got.fileItem {V : Nat → Bytes} {blocks : List Nat} {I : List FileItem} {l : ClList}
    {k : Nat} (hgot : Got V blocks l k) (h : HasItems fileDecoder V blocks I) (hk : k < I.length) :
    FileItem.ofBytes l.item = I[k] := by
  rw [← h k hk]
  exact fileDecoder.congr _ _ hgot.item

theorem fileStatus_eq {V : Nat → Bytes} {blocks : List Nat} {I : List FileItem}
    (h : HasItems fileDecoder V blocks I) {k : Nat} (hk : k < I.length) :
    slot V blocks k 0 = I[k].status := by
  rw [← h k hk]
  rfl

/-! ### Current items -/

def UniqueCurrent (I : List FileItem) : Prop :=
  ∀ j k (hj : j < I.length) (hk : k < I.length), I[j].status = FileStatus.current →
    I[k].status = FileStatus.current → I[j].segment = I[k].segment → j = k

/-- An item of the segment is not current any more. -/
def supersede (segment : Nat) (i : FileItem) : FileItem :=
  if i.segment = segment ∧ i.status = FileStatus.current then { i with status := FileStatus.obsolete }
  else i

/-- `cl_filelist_makeobsolete` on an item -/
def retire (i : FileItem) : FileItem :=
  if i.status = FileStatus.current then { i with status := FileStatus.obsolete } else i

theorem map_supersede_eq_set {I : List FileItem} (hu : UniqueCurrent I) {segment k : Nat}
    (hk : k < I.length) (hm : I[k].segment = segment ∧ I[k].status = FileStatus.current) :
    I.map (supersede segment) = I.set k { I[k] with status := FileStatus.obsolete } := by
  apply List.ext_getElem
  · simp
  · intro j h1 h2
    have hj : j < I.length := by simpa using h1
    rw [List.getElem_map]
    by_cases hjk : k = j
    · subst hjk
      rw [List.getElem_set_self, supersede, if_pos hm]
    · rw [List.getElem_set_ne hjk, supersede, if_neg]
      rintro ⟨h3, h4⟩
      exact hjk (hu k j hk hj hm.2 h4 (hm.1.trans h3.symm))

theorem map_supersede_eq_self {I : List FileItem} {segment : Nat}
    (h : ∀ i ∈ I, ¬(i.segment = segment ∧ i.status = FileStatus.current)) :
    I.map (supersede segment) = I := by
  conv => rhs; rw [← List.map_id I]
  apply List.map_congr_left
  intro i hi
  rw [supersede, if_neg (h i hi), id]

/-! ### Looking up and updating -/

section calls

variable {s : St} {sn : Nat} {blocks : List Nat} {I : List FileItem} {R : St → Prop}

/-- The first item of the segment with the status. -/
theorem wp_clFilelistGet {segment : Nat} {status : UInt8} {Q : Option Nat → St → Prop}
    (hup : s.up = true) (hL : IsList g (blk s.flash) sn BlockType.fileList blocks I.length)
    (hI : HasItems fileDecoder (blk s.flash) blocks I)
    (hfound : ∀ k (hk : k < I.length), I[k].status = status ∧ I[k].segment = segment →
      Q (if I[k].block = blockInvalid then none else some I[k].block) s)
    (hnone : (∀ i ∈ I, ¬(i.status = status ∧ i.segment = segment)) → Q none s) :
    wp (clFilelistGet g (blocks.headD 0) segment status) Q R s := by
  rw [clFilelistGet, wp_bind, wp_attempt]
  apply wp_clListInit hup hL
  intro l hc
  rw [wp_bind]
  apply wp_whileItem_read (fun k (_ : Unit) => ∀ j (hj : j < k) (hjI : j < I.length),
    ¬(I[j].status = status ∧ I[j].segment = segment)) hup hL
  · intro k l' t hk hJ hgot
    have hitem := hgot.fileItem hI hk
    simp only [hitem]
    by_cases hm : I[k].status = status ∧ I[k].segment = segment
    · rw [if_pos hm, wp_pure]
      refine ⟨rfl, ?_⟩
      show Q _ s
      exact hfound k hk hm
    · rw [if_neg hm, wp_pure]
      refine ⟨rfl, rfl, ?_⟩
      intro j hj hjI
      by_cases hjk : j = k
      · subst hjk
        exact hm
      · exact hJ j (by omega) hjI
  · intro l' _ hJ _
    show Q none s
    apply hnone
    intro i hi
    obtain ⟨k, hk, rfl⟩ := List.getElem_of_mem hi
    exact hJ k hk hk
  · exact Nat.zero_le _
  · exact hc
  · intro j hj
    omega

/-- The appended item, and the one it supersedes. -/
theorem wp_clFilelistUpdate {segment newBlock : Nat} {Q : Unit → St → Prop} (hs : Tidy g s)
    (hsn : sn < 2 ^ 32) (hL : IsList g (blk s.flash) sn BlockType.fileList blocks I.length)
    (hI : HasItems fileDecoder (blk s.flash) blocks I) (hlive : ∀ c ∈ blocks, Live (blk s.flash c))
    (hu : UniqueCurrent I) (hseg : segment < 2 ^ 32) (hb : newBlock < 65536)
    (hnew : ∀ i ∈ I, i.status = FileStatus.current → i.block ≠ newBlock)
    (hR : ∀ s', Refused g s s' → R s')
    (hQ : ∀ more resd s', Tidy g s' → Frame g (· ∈ blocks) s s' →
      (∀ c ∈ more, ¬Live (blk s.flash c) ∧ blk s'.flash c 5 = BlockStatus.opened) →
      (∀ c ∈ blocks, blk s'.flash c 5 = blk s.flash c 5) →
      IsList g (blk s'.flash) sn BlockType.fileList (blocks ++ more) (I.length + 1) →
      HasItems fileDecoder (blk s'.flash) (blocks ++ more)
        (I.map (supersede segment) ++ [⟨FileStatus.current, resd, newBlock, segment⟩]) →
      Q () s') :
    wp (clFilelistUpdate g (blocks.headD 0) segment newBlock) Q R s := by
  rw [clFilelistUpdate, wp_bind]
  apply wp_clListInit hs.up hL
  intro l hc
  rw [wp_bind]
  -- the item is appended in the same way, wherever the loop has ended
  have happend : ∀ (k : Nat) (l' : ClList) (Q' : Option Nat → St → Prop), k ≤ I.length →
      CursorAt (blk s.flash) blocks l' k →
      (∀ more s', Tidy g s' → Frame g (· ∈ blocks) s s' →
        (∀ c ∈ more, ¬Live (blk s.flash c) ∧ blk s'.flash c 5 = BlockStatus.opened) →
        (∀ c ∈ blocks, blk s'.flash c 5 = blk s.flash c 5) →
        IsList g (blk s'.flash) sn BlockType.fileList (blocks ++ more) (I.length + 1) →
        HasItems fileDecoder (blk s'.flash) (blocks ++ more)
          (I ++ [⟨FileStatus.current, l'.item 1, newBlock, segment⟩]) →
        Q' (some (addrOf (blocks ++ more) I.length)) s') →
      wp (clListAppend g l' BlockType.fileList
        (FileItem.toBytes ⟨FileStatus.current, l'.item 1, newBlock, segment⟩)) Q' R s := by
    intro k l' Q' hk hc' hQ'
    have hdec := dec_toBytes_fileItem ⟨FileStatus.current, l'.item 1, newBlock, segment⟩ hb hseg
    apply wp_clListAppend (D := fileDecoder) (L := I) hs hsn hL hI hlive
      (length_toBytes_fileItem _) (by show FileStatus.current ≠ _; decide) _ hk hc' hR
    · intro blocks' s' ha
      obtain ⟨more, rfl, hmore⟩ := ha.prefix_le
      have hI' := ha.items
      rw [hdec] at hI'
      exact hQ' more s' ha.tidy ha.frame hmore ha.old ha.list hI'
    · intro j hj he
      have h2 : fileDecoder.dec (slot (blk s.flash) blocks j) =
          ⟨FileStatus.current, l'.item 1, newBlock, segment⟩ := by
        rw [← hdec]
        apply fileDecoder.congr
        intro i hi
        have h3 : (slice (slot (blk s.flash) blocks j) 0 8).getD i 0 =
          slot (blk s.flash) blocks j i := getD_slice hi
        rw [← h3, he]
      rw [hI j hj] at h2
      apply hnew _ (List.getElem_mem hj)
      · rw [h2]
      · rw [h2]
  apply wp_whileItem_read (fun k (_ : Unit) => ∀ j (hj : j < k) (hjI : j < I.length),
    ¬(I[j].segment = segment ∧ I[j].status = FileStatus.current)) hs.up hL
  · intro k l' t hk hJ hgot
    have hitem := hgot.fileItem hI hk
    simp only [hitem]
    by_cases hm : I[k].segment = segment ∧ I[k].status = FileStatus.current
    · rw [if_pos hm, wp_pure]
      refine ⟨rfl, ?_⟩
      simp only [wp_bind]
      apply happend (k + 1) l' _ hk hgot.cursor
      intro more s₁ ht hf hmore hold hL1 hI1
      have hk14 : k < 14 * blocks.length := Nat.lt_of_lt_of_le hk hL.fits
      have hmem : blockOf blocks k ∈ blocks := blockOf_mem hk14
      have hbo : blockOf (blocks ++ more) k = blockOf blocks k := by
        rw [blockOf, blockOf, List.getD_append _ _ _ _ (by omega)]
      have hlive1 : Live (blk s₁.flash (blockOf (blocks ++ more) k)) := by
        rw [hbo]
        exact (live_of_status (hold _ hmem)).mpr (hlive _ hmem)
      have haddr : l'.addr = addrOf (blocks ++ more) k := by
        rw [hgot.addr, addrOf, addrOf, hbo]
      have hkL : k < (I ++ [(⟨FileStatus.current, l'.item 1, newBlock, segment⟩ : FileItem)]).length := by
        simp
        omega
      rw [clFilelistSetstatus, haddr]
      apply wp_setItem (D := fileDecoder) ht (by simpa using hL1) hI1 hkL hlive1
      · rw [fileStatus_eq hI1 hkL, List.getElem_append_left hk, hm.2]
        decide
      · decide
      intro s' hw hL' hI'
      apply hQ more (l'.item 1) s' hw.tidy
      · apply hf.trans (hw.frame hlive1 (by omega))
        intro c hc
        rw [hc, hbo]
        exact Or.inl hmem
      · intro c hc
        refine ⟨(hmore c hc).1, ?_⟩
        rw [hw.get_of_lt (by omega)]
        exact (hmore c hc).2
      · intro c hc
        rw [hw.get_of_lt (by omega)]
        exact hold c hc
      · simpa using hL'
      · rw [map_supersede_eq_set hu hk hm]
        rw [List.getElem_append_left hk, List.set_append_left _ _ hk] at hI'
        exact hI'
    · rw [if_neg hm, wp_pure]
      refine ⟨rfl, rfl, ?_⟩
      intro j hj hjI
      by_cases hjk : j = k
      · subst hjk
        exact hm
      · exact hJ j (by omega) hjI
  · intro l' _ hJ hc'
    simp only [wp_bind, wp_pure]
    apply happend I.length l' _ (le_refl _) hc'
    intro more s' ht hf hmore hold hL' hI'
    apply hQ more (l'.item 1) s' ht hf hmore hold hL'
    rwa [map_supersede_eq_self]
    intro i hi
    obtain ⟨k, hk, rfl⟩ := List.getElem_of_mem hi
    exact hJ k hk hk
  · exact Nat.zero_le _
  · exact hc
  · intro j hj
    omega

end calls

end CoActionOS.Cafs
