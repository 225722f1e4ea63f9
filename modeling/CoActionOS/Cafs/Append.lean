import CoActionOS.Cafs.ListOps

/-!
# Appending to a list

An item goes into the first free slot of the last block; when there is none, a block is linked to the
list first (`wp_listAddBlock`).
-/

namespace CoActionOS.Cafs

open Cmd

variable {g : Geometry} {ι : Type}

theorem bytes_of_u16_invalid {d : Bytes} {o : Nat} (h : u16 d o = blockInvalid) :
    d o = 0xFF ∧ d (o + 1) = 0xFF := by
  have h0 := (d o).toNat_lt
  have h1 := (d (o + 1)).toNat_lt
  have h : (d o).toNat + 256 * (d (o + 1)).toNat = 65535 := h
  constructor
  · apply UInt8.toNat_inj.mp
    show _ = 255
    omega
  · apply UInt8.toNat_inj.mp
    show _ = 255
    omega

/-- A link that has not been set yet can be. -/
theorem fits_le16 {d : Bytes} {o : Nat} (h : u16 d o = blockInvalid) (n : Nat) :
    Fits d o (le16 n) := by
  obtain ⟨h0, h1⟩ := bytes_of_u16_invalid h
  apply fits_of_blank
  intro i hi
  have hi : i < 2 := hi
  rcases Nat.lt_or_ge i 1 with h | h
  · obtain rfl : i = 0 := by omega
    exact h0
  · obtain rfl : i = 1 := by omega
    exact h1

theorem u16_of_written {s s' : St} {b o n : Nat} (h : Written g s b o (le16 n) s')
    (hn : n < 65536) : u16 (blk s'.flash b) o = n :=
  u16_eq_of_le16 hn (h.get_add (i := 0) (by simp)) (h.get_add (i := 1) (by simp))

/-! ### One more block -/

theorem blockOf_append_left {blocks : List Nat} {k : Nat} (b : Nat)
    (h : k < 14 * blocks.length) : blockOf (blocks ++ [b]) k = blockOf blocks k := by
  have h1 : k / 14 < blocks.length := by omega
  have h2 : k / 14 < (blocks ++ [b]).length := by simp; omega
  rw [blockOf_eq h1, blockOf_eq h2, List.getElem_append_left h1]

theorem blockOf_append_right {blocks : List Nat} {k : Nat} (b : Nat)
    (h1 : 14 * blocks.length ≤ k) (h2 : k < 14 * (blocks.length + 1)) :
    blockOf (blocks ++ [b]) k = b := by
  have h3 : k / 14 = blocks.length := by omega
  have h4 : k / 14 < (blocks ++ [b]).length := by simp; omega
  rw [blockOf_eq h4]
  simp [h3]

theorem slot_append_left {V : Nat → Bytes} {blocks : List Nat} {k : Nat} (b : Nat)
    (h : k < 14 * blocks.length) : slot V (blocks ++ [b]) k = slot V blocks k := by
  funext i
  rw [slot, slot, blockOf_append_left b h]

/-- Linking an empty block to a full list. -/
theorem IsList.extend {V V' : Nat → Bytes} {sn n b last : Nat} {type : UInt8} {blocks : List Nat}
    (hL : IsList g V sn type blocks n) (hn : n = 14 * blocks.length)
    (hlast : last = prevOf blocks blocks.length) (hb : b ∉ blocks) (hpos : 1 ≤ b)
    (hlt : b < g.total)
    (hold : ∀ c ∈ blocks, ∀ i, i ≠ 5 → c ≠ last ∨ (i ≠ 6 ∧ i ≠ 7) → V' c i = V c i)
    (hnext : u16 (V' last) 6 = b) (hprev : u16 (V' b) 8 = last) (hsn : u32 (V' b) 0 = sn)
    (htype : V' b 4 = type ||| linkedListFlag) (hend : u16 (V' b) 6 = blockInvalid)
    (hblank : ∀ i, 10 ≤ i → i < 128 → V' b i = 0xFF) :
    IsList g V' sn type (blocks ++ [b]) n := by
  have hlen := hL.length_pos
  have hslot : ∀ k, k < 14 * blocks.length → ∀ i,
      slot V' (blocks ++ [b]) k i = slot V blocks k i := by
    intro k hk i
    rw [slot_append_left b hk]
    exact hold _ (blockOf_mem hk) _ (by omega) (Or.inr ⟨by omega, by omega⟩)
  have hsplit : ∀ {i}, i < (blocks ++ [b]).length → i < blocks.length ∨ i = blocks.length := by
    intro i hi
    rw [List.length_append, List.length_singleton] at hi
    omega
  have hlasti : blocks[blocks.length - 1] = last := by
    rw [hlast, prevOf, if_neg (by omega), List.getD_eq_getElem _ _ (by omega)]
  refine
    { ne := by simp
      nodup := ?_
      pos := ?_
      lt := ?_
      listType := hL.listType
      serialno := ?_
      type := ?_
      prev := ?_
      next := ?_
      used := ?_
      blank := ?_
      full := ?_
      fits := ?_ }
  · rw [List.nodup_append]
    exact ⟨hL.nodup, List.nodup_singleton b, fun a ha c hc he =>
      hb (List.mem_singleton.mp hc ▸ he ▸ ha)⟩
  · intro c hc
    rcases List.mem_append.mp hc with hc | hc
    · exact hL.pos c hc
    · rwa [List.mem_singleton.mp hc]
  · intro c hc
    rcases List.mem_append.mp hc with hc | hc
    · exact hL.lt c hc
    · rwa [List.mem_singleton.mp hc]
  · intro c hc
    rcases List.mem_append.mp hc with hc | hc
    · rw [← hL.serialno c hc]
      exact u32_congr fun i hi => hold c hc _ (by omega) (Or.inr ⟨by omega, by omega⟩)
    · rwa [List.mem_singleton.mp hc]
  -- each block has its type, the new one that of a later block
  · intro i hi
    rcases hsplit hi with h | rfl
    · rw [List.getElem_append_left h,
        hold _ (List.getElem_mem h) 4 (by omega) (Or.inr ⟨by omega, by omega⟩)]
      exact hL.type i h
    · rw [List.getElem_append_right (le_refl _), if_neg (by omega)]
      simpa using htype
  -- the new block is the first whose predecessor is the last block
  · intro i hi
    rcases hsplit hi with h | rfl
    · have h1 : u16 (V' blocks[i]) 8 = u16 (V blocks[i]) 8 := by
        apply u16_congr
        intro j hj
        exact hold _ (List.getElem_mem h) _ (by omega) (Or.inr ⟨by omega, by omega⟩)
      rw [List.getElem_append_left h, h1, hL.prev i h, prevOf, prevOf]
      split
      · rfl
      · rw [List.getD_eq_getElem _ _ (by omega), List.getD_eq_getElem _ _ (by simp; omega),
          List.getElem_append_left]
    · rw [List.getElem_append_right (le_refl _), prevOf, if_neg (by omega),
        List.getD_eq_getElem _ _ (by rw [List.length_append, List.length_singleton]; omega),
        List.getElem_append_left (by omega), hlasti]
      simpa using hprev
  -- the old last block has the new one behind it
  · intro i hi
    rcases hsplit hi with h | rfl
    · rw [List.getElem_append_left h]
      by_cases hil : i + 1 < blocks.length
      · have hne : blocks[i] ≠ last := by
          rw [← hlasti]
          intro he
          have := hL.nodup.getElem_inj_iff.mp he
          omega
        have h1 : u16 (V' blocks[i]) 6 = u16 (V blocks[i]) 6 := by
          apply u16_congr
          intro j hj
          exact hold _ (List.getElem_mem h) _ (by omega) (Or.inl hne)
        rw [h1, hL.next i h, nextOf_of_lt hil, nextOf_of_lt (by simp; omega),
          List.getElem_append_left hil]
      · have hi' : i = blocks.length - 1 := by omega
        subst hi'
        rw [hlasti, hnext, nextOf_of_lt (by simp; omega)]
        rw [List.getElem_append_right (by omega)]
        simp
    · rw [List.getElem_append_right (le_refl _), nextOf_of_le (by simp)]
      simpa using hend
  · intro k hk
    rw [hslot k (by omega)]
    exact hL.used k hk
  · intro k h1 h2 i hi
    rw [List.length_append, List.length_singleton] at h2
    rw [slot, blockOf_append_right b (by omega) h2]
    exact hblank _ (by omega) (by omega)
  · rw [List.length_append, List.length_singleton]
    omega
  · rw [List.length_append, List.length_singleton]
    omega

theorem HasItems.extend {D : Decoder ι} {V V' : Nat → Bytes} {blocks : List Nat} {L : List ι}
    {b : Nat} (h : HasItems D V blocks L) (hlen : L.length ≤ 14 * blocks.length)
    (hold : ∀ c ∈ blocks, ∀ i, 10 ≤ i → V' c i = V c i) : HasItems D V' (blocks ++ [b]) L := by
  intro k hk
  rw [← h k hk, slot_append_left b (by omega)]
  apply D.congr
  intro i _
  exact hold _ (blockOf_mem (by omega)) _ (by omega)

/-- The status of a block that `list_add_block` has linked. -/
def addedStatus (type : UInt8) : UInt8 :=
  if type = BlockType.serialnoList then BlockStatus.closed else BlockStatus.opened

structure BlockAdded (g : Geometry) (D : Decoder ι) (s : St) (sn : Nat) (type : UInt8)
    (blocks : List Nat) (L : List ι) (b : Nat) (s' : St) : Prop where
  tidy : Tidy g s'
  frame : Frame g (· ∈ blocks) s s'
  was : ¬Live (blk s.flash b)
  list : IsList g (blk s'.flash) sn type (blocks ++ [b]) L.length
  items : HasItems D (blk s'.flash) (blocks ++ [b]) L
  old : ∀ c ∈ blocks, blk s'.flash c 5 = blk s.flash c 5
  new : blk s'.flash b 5 = addedStatus type
  kept : (type = BlockType.serialnoList → sn = clSerialnoList) →
    ∀ c < g.total, Kept (blk s.flash c) (blk s'.flash c)
  usesOne : UsesOne g (blk s.flash) (blk s'.flash)

/-- A block has been allocated, and it and the last block of the list name each other. -/
structure Linked (g : Geometry) (s : St) (sn : Nat) (type : UInt8) (blocks : List Nat) (b : Nat) (s' : St) : Prop where
  pos : 1 ≤ b
  lt : b < g.total
  was : ¬Live (blk s.flash b)
  new : b ∉ blocks
  frame : Frame g (· ∈ blocks) s s'
  old : ∀ c ∈ blocks, ∀ i, c ≠ prevOf blocks blocks.length ∨ (i ≠ 6 ∧ i ≠ 7) → blk s'.flash c i = blk s.flash c i
  fresh : ∀ i, i ≠ 8 → i ≠ 9 → blk s'.flash b i = freshBlock sn (type ||| linkedListFlag) i
  next : u16 (blk s'.flash (prevOf blocks blocks.length)) 6 = b
  prev : u16 (blk s'.flash b) 8 = prevOf blocks blocks.length
  kept : ∀ c < g.total, c ≠ b → Kept (blk s.flash c) (blk s'.flash c)
  free : ∀ c < g.total, c ≠ b → blk s.flash c 5 = BlockStatus.free → blk s'.flash c 5 = BlockStatus.free

theorem IsList.last_mem {V : Nat → Bytes} {sn n : Nat} {type : UInt8} {blocks : List Nat}
    (hL : IsList g V sn type blocks n) : prevOf blocks blocks.length ∈ blocks := by
  have hlen := hL.length_pos
  rw [prevOf, if_neg (by omega), List.getD_eq_getElem _ _ (by omega)]
  exact List.getElem_mem _

theorem IsList.u16_last {V : Nat → Bytes} {sn n : Nat} {type : UInt8} {blocks : List Nat}
    (hL : IsList g V sn type blocks n) : u16 (V (prevOf blocks blocks.length)) 6 = blockInvalid := by
  have hlen := hL.length_pos
  have hlast := hL.next (blocks.length - 1) (by omega)
  rw [nextOf_of_le (by omega)] at hlast
  rwa [prevOf, if_neg (by omega), List.getD_eq_getElem _ _ (by omega)]

theorem IsList.flagged_ne_serialnoList {V : Nat → Bytes} {sn n : Nat} {type : UInt8} {blocks : List Nat}
    (hL : IsList g V sn type blocks n) : type ||| linkedListFlag ≠ BlockType.serialnoList := by
  rcases hL.listType with rfl | rfl
  · decide
  · decide

theorem Linked.of_written {s s₁ s₂ s₃ : St} {sn n b : Nat} {type : UInt8} {blocks : List Nat}
    (hL : IsList g (blk s.flash) sn type blocks n) (hlive : ∀ c ∈ blocks, Live (blk s.flash c))
    (h1 : Allocated g s sn (type ||| linkedListFlag) b s₁)
    (h2 : Written g s₁ (prevOf blocks blocks.length) 6 (le16 b) s₂)
    (h3 : Written g s₂ b 8 (le16 (prevOf blocks blocks.length)) s₃) : Linked g s sn type blocks b s₃ := by
  have hmem := hL.last_mem
  have hlt := hL.lt _ hmem
  have hbt := h1.lt
  have hgb := g.blocks_le
  have hb : b ∉ blocks := fun h => h1.was (hlive b h)
  have hbl : b ≠ prevOf blocks blocks.length := fun h => hb (h ▸ hmem)
  have hcb : ∀ c ∈ blocks, c ≠ b := fun c hc h => hb (h ▸ hc)
  have hkeep1 : ∀ c ∈ blocks, blk s₁.flash c = blk s.flash c := fun c hc => h1.keep (hL.lt c hc) (hlive c hc)
  have hfresh2 : blk s₂.flash b = freshBlock sn (type ||| linkedListFlag) := by
    rw [h2.other b hbl, h1.fresh]
  refine
    { pos := h1.pos
      lt := h1.lt
      was := h1.was
      new := hb
      frame := ?_
      old := ?_
      fresh := ?_
      next := ?_
      prev := ?_
      kept := ?_
      free := ?_ }
  · have hf : Frame g (· ∈ blocks) s s₂ :=
      (h1.frame hL.flagged_ne_serialnoList _).trans
        (h2.frame (by rw [hkeep1 _ hmem]; exact hlive _ hmem) (by omega)) fun c hc => Or.inl (hc ▸ hmem)
    exact hf.trans (h3.frame (by rw [hfresh2]; exact live_freshBlock _ _) (by omega)) fun c hc => Or.inr (hc ▸ h1.was)
  · intro c hc i hi
    rw [h3.other c (hcb c hc), ← hkeep1 c hc]
    by_cases hcl : c = prevOf blocks blocks.length
    · subst hcl
      apply h2.get_of_lt
      simp only [length_le16]
      omega
    · rw [h2.other c hcl]
  · intro i h8 h9
    rw [h3.get_of_lt (by simp only [length_le16]; omega), hfresh2]
  · rw [h3.other _ (Ne.symm hbl)]
    exact u16_of_written h2 (by omega)
  · exact u16_of_written h3 (by omega)
  · intro c hc hc'
    rw [h3.other c hc']
    exact (h1.kept hc).trans (h2.kept (by omega) c)
  · intro c hc hc' hfree
    rw [h3.other c hc', h2.get_of_lt (by omega)]
    rcases h1.rest c hc hc' with hsame | ⟨-, hblank⟩
    · rwa [hsame]
    · rw [hblank]
      rfl

/-- A linked block is added whatever its status is then set to. -/
theorem Linked.added {D : Decoder ι} {s s₃ s' : St} {sn b : Nat} {type : UInt8} {blocks : List Nat} {L : List ι}
    (h : Linked g s sn type blocks b s₃) (hsn : sn < 2 ^ 32) (hL : IsList g (blk s.flash) sn type blocks L.length)
    (hI : HasItems D (blk s.flash) blocks L) (hfull : L.length = 14 * blocks.length) (ht : Tidy g s')
    (hram : SameRam s₃ s') (hother : ∀ c, c ≠ b → blk s'.flash c = blk s₃.flash c)
    (hself : ∀ i, i ≠ 5 → blk s'.flash b i = blk s₃.flash b i) (hstatus : blk s'.flash b 5 = addedStatus type) :
    BlockAdded g D s sn type blocks L b s' := by
  have hold : ∀ c ∈ blocks, ∀ i, c ≠ prevOf blocks blocks.length ∨ (i ≠ 6 ∧ i ≠ 7) →
      blk s'.flash c i = blk s.flash c i := by
    intro c hc i hi
    rw [hother c fun hcb => h.new (hcb ▸ hc)]
    exact h.old c hc i hi
  have hnew : ∀ i, i ≠ 5 → i ≠ 8 → i ≠ 9 → blk s'.flash b i = freshBlock sn (type ||| linkedListFlag) i := by
    intro i h5 h8 h9
    rw [hself i h5, h.fresh i h8 h9]
  have hserialno : u32 (blk s'.flash b) 0 = sn := by
    rw [← freshBlock_serialno (type ||| linkedListFlag) hsn]
    exact u32_congr fun i hi => hnew _ (by omega) (by omega) (by omega)
  refine
    { tidy := ht
      frame := ?_
      was := h.was
      list := ?_
      items := hI.extend hL.fits fun c hc i hi => hold c hc i (Or.inr ⟨by omega, by omega⟩)
      old := fun c hc => hold c hc 5 (Or.inr ⟨by omega, by omega⟩)
      new := hstatus
      kept := ?_
      usesOne := ⟨b, fun c hc hcb hfree => by rw [hother c hcb]; exact h.free c hc hcb hfree⟩ }
  · -- only the new block has changed since, and it is not a list of serial numbers
    have hf : Frame g (· = b) s₃ s' := by
      refine ⟨hram, fun c _ _ hc => hother c hc, ?_⟩
      intro c _ hl hct
      by_cases hc : c = b
      · subst hc
        rw [hnew 4 (by omega) (by omega) (by omega), freshBlock_type] at hct
        exact absurd hct hL.flagged_ne_serialnoList
      · rw [hother c hc] at hl hct
        exact ⟨hl, hct⟩
    exact h.frame.trans hf fun c hc => Or.inr (hc ▸ h.was)
  · apply hL.extend hfull rfl h.new h.pos h.lt (fun c hc i _ hi => hold c hc i hi)
    · rw [hother _ fun hlast => h.new (hlast ▸ hL.last_mem)]
      exact h.next
    · rw [u16_congr fun i hi => hself _ (by omega)]
      exact h.prev
    · exact hserialno
    · rw [hnew 4 (by omega) (by omega) (by omega), freshBlock_type]
    · rw [u16_congr fun i hi => hnew _ (by omega) (by omega) (by omega), u16,
        freshBlock_blank _ _ (by omega) (by omega), freshBlock_blank _ _ (by omega) (by omega)]
      decide
    · intro i h10 h128
      rw [hnew i (by omega) (by omega) (by omega)]
      exact freshBlock_blank _ _ (by omega) h128
  · intro hzero c hc
    by_cases hc' : c = b
    · subst hc'
      by_cases hty : type = BlockType.serialnoList
      · refine .inr (.inr (.inr ⟨?_, ?_⟩))
        · rw [hstatus, addedStatus, if_pos hty]
        · rw [← hzero hty, hserialno]
      · refine .inr (.inr (.inl ?_))
        rw [hstatus, addedStatus, if_neg hty]
    · rw [hother c hc']
      exact h.kept c hc hc'

theorem wp_listAddBlock {D : Decoder ι} {s : St} {sn : Nat} {type : UInt8} {blocks : List Nat}
    {L : List ι} {Q : Nat → St → Prop} {R : St → Prop} (hs : Tidy g s) (hsn : sn < 2 ^ 32)
    (hL : IsList g (blk s.flash) sn type blocks L.length) (hI : HasItems D (blk s.flash) blocks L)
    (hlive : ∀ c ∈ blocks, Live (blk s.flash c)) (hfull : L.length = 14 * blocks.length)
    (hR : ∀ s', Refused g s s' → R s')
    (hQ : ∀ b s', BlockAdded g D s sn type blocks L b s' → Q b s') :
    wp (listAddBlock g sn type (prevOf blocks blocks.length)) Q R s := by
  have hmem := hL.last_mem
  have hlt := hL.lt _ hmem
  rw [listAddBlock, wp_bind]
  apply wp_clBlockAlloc hs (Or.inl hlt) hR
  intro b s₁ h1
  have hbl : b ≠ prevOf blocks blocks.length := fun h => h1.was (hlive b (h ▸ hmem))
  have hkeep1 := h1.keep hlt (hlive _ hmem)
  have haddr1 : listHdrAddr (prevOf blocks blocks.length) = 128 * prevOf blocks blocks.length + 6 := by
    show prevOf blocks blocks.length * 128 + 6 = _
    omega
  have haddr2 : listHdrAddr b + 2 = 128 * b + 8 := by
    show b * 128 + 6 + 2 = _
    omega
  -- the last block is given its successor
  rw [haddr1, haddr2, wp_bind]
  apply wp_write_data h1.tidy hlt (by rw [hkeep1]; exact hlive _ hmem) (by omega) (by simp)
  · rw [hkeep1]
    exact fits_le16 hL.u16_last b
  intro s₂ h2
  have hfresh2 : blk s₂.flash b = freshBlock sn (type ||| linkedListFlag) := by
    rw [h2.other b hbl, h1.fresh]
  -- the new block is given its predecessor
  rw [wp_bind]
  apply wp_write_data h2.tidy h1.lt (by rw [hfresh2]; exact live_freshBlock _ _) (by omega) (by simp)
  · rw [hfresh2]
    apply fits_of_blank
    intro i hi
    have hi : i < 2 := hi
    exact freshBlock_blank _ _ (by omega) (by omega)
  intro s₃ h3
  have hlinked := Linked.of_written hL hlive h1 h2 h3
  have hstatus3 : blk s₃.flash b 5 = BlockStatus.opened := by
    rw [h3.get_of_lt (by omega), hfresh2, freshBlock_status]
  rw [wp_bind]
  apply wp_when
  · -- a block of the list of serial numbers is closed at once
    intro hty
    apply wp_clBlockSetstatus h3.tidy h1.lt
    · rw [hstatus3]
      decide
    · decide
    · intro s₄ h4
      rw [wp_pure]
      apply hQ
      apply hlinked.added hsn hL hI hfull h4.tidy h4.ram h4.other
      · intro i hi
        exact h4.get_of_lt (by simp; omega) b
      · rw [addedStatus, if_pos hty]
        exact h4.get_add (i := 0) (by simp)
  · intro hty
    rw [wp_pure]
    apply hQ
    apply hlinked.added hsn hL hI hfull h3.tidy (SameRam.refl _) (fun _ _ => rfl) (fun _ _ => rfl)
    rw [addedStatus, if_neg hty]
    exact hstatus3

/-! ### One more item -/

theorem wp_writeNewItem {D : Decoder ι} {s : St} {sn : Nat} {type : UInt8} {blocks : List Nat}
    {L : List ι} {x : List UInt8} {Q : Unit → St → Prop} {R : St → Prop} (hs : Tidy g s)
    (hL : IsList g (blk s.flash) sn type blocks L.length) (hI : HasItems D (blk s.flash) blocks L)
    (hroom : L.length < 14 * blocks.length) (hx : x.length = 8)
    (hx0 : x.getD 0 0 ≠ ItemStatus.free)
    (hlive : Live (blk s.flash (blockOf blocks L.length)))
    (hQ : ∀ s', Written g s (blockOf blocks L.length) (10 + 8 * (L.length % 14)) x s' →
      IsList g (blk s'.flash) sn type blocks (L.length + 1) →
      HasItems D (blk s'.flash) blocks (L ++ [D.dec fun i => x.getD i 0]) → Q () s') :
    wp (clDevWrite g (addrOf blocks L.length) x) Q R s := by
  rw [addrOf_eq]
  apply wp_write_data hs (hL.blockOf_lt hroom) hlive (by omega) (by omega)
  · apply fits_of_blank
    intro i hi
    exact hL.blank L.length (le_refl _) hroom i (by omega)
  intro s' hw
  have hself : ∀ i < 8, slot (blk s'.flash) blocks L.length i = x.getD i 0 := by
    intro i hi
    rw [List.getD_eq_getElem _ _ (by omega)]
    exact hw.get_add (by omega)
  apply hQ s' hw
  · apply hL.of_written hw hroom (by omega) _ (by have := hL.full; omega) hroom
    · intro j hj hne
      omega
    · intro j hj
      omega
    · intro _
      rw [hself 0 (by omega)]
      exact hx0
  · intro j hj
    rw [List.length_append, List.length_singleton] at hj
    by_cases hjn : j < L.length
    · rw [List.getElem_append_left hjn, ← hI j hjn]
      apply D.congr
      intro i hi
      exact slot_of_written hL.nodup hroom (by omega) (by omega) (by omega) hw hi
    · have hjn : j = L.length := by omega
      subst hjn
      rw [List.getElem_append_right (le_refl _)]
      simp only [Nat.sub_self, List.getElem_singleton]
      exact D.congr _ _ hself

/-- What `cl_list_append` has done. -/
structure Appended (g : Geometry) (D : Decoder ι) (s : St) (sn : Nat) (type : UInt8)
    (blocks : List Nat) (L : List ι) (x : List UInt8) (blocks' : List Nat) (s' : St) : Prop where
  tidy : Tidy g s'
  frame : Frame g (· ∈ blocks) s s'
  prefix_le : ∃ more, blocks' = blocks ++ more ∧ (∀ b ∈ more, ¬Live (blk s.flash b) ∧
    blk s'.flash b 5 = addedStatus type)
  list : IsList g (blk s'.flash) sn type blocks' (L.length + 1)
  items : HasItems D (blk s'.flash) blocks' (L ++ [D.dec fun i => x.getD i 0])
  old : ∀ c ∈ blocks, blk s'.flash c 5 = blk s.flash c 5
  kept : (type = BlockType.serialnoList → sn = clSerialnoList) →
    ∀ c < g.total, Kept (blk s.flash c) (blk s'.flash c)
  usesOne : UsesOne g (blk s.flash) (blk s'.flash)

theorem live_addedStatus {d : Bytes} {type : UInt8} (h : d 5 = addedStatus type) : Live d := by
  rw [addedStatus] at h
  split at h
  · exact Or.inl h
  · exact Or.inr h

theorem live_of_status {d d' : Bytes} (h : d' 5 = d 5) : Live d' ↔ Live d := by
  rw [Live, Live, h]

theorem wp_clListAppend {D : Decoder ι} {s : St} {sn k : Nat} {type : UInt8} {blocks : List Nat}
    {L : List ι} {x : List UInt8} {l : ClList} {Q : Option Nat → St → Prop} {R : St → Prop}
    (hs : Tidy g s) (hsn : sn < 2 ^ 32) (hL : IsList g (blk s.flash) sn type blocks L.length)
    (hI : HasItems D (blk s.flash) blocks L) (hlive : ∀ c ∈ blocks, Live (blk s.flash c))
    (hx : x.length = 8) (hx0 : x.getD 0 0 ≠ ItemStatus.free)
    (hnew : ∀ j < L.length, slice (slot (blk s.flash) blocks j) 0 8 ≠ x)
    (hk : k ≤ L.length) (hc : CursorAt (blk s.flash) blocks l k)
    (hR : ∀ s', Refused g s s' → R s')
    (hQ : ∀ blocks' s', Appended g D s sn type blocks L x blocks' s' →
      Q (some (addrOf blocks' L.length)) s') :
    wp (clListAppend g l type x) Q R s := by
  have hlen := hL.length_pos
  rw [clListAppend, wp_bind]
  apply wp_whileItem_read (fun _ _ => True) hs.up hL _ _ hk hc trivial
  · -- the item is not in the list
    intro j l' _ hj _ hgot
    have hne : slice l'.item 0 itemSize ≠ x := by
      intro he
      apply hnew j hj
      rw [← he]
      exact slice_congr fun i hi => by rw [Nat.zero_add]; exact (hgot.item i hi).symm
    rw [if_neg hne, wp_pure]
    exact ⟨rfl, rfl, trivial⟩
  intro l' _ _ hend
  show wp (appendAddr g l' (endOf blocks L.length) type >>= _) Q R s
  rw [wp_bind, appendAddr]
  have hcur := hend.current
  have hit := hend.item
  -- the item goes into the last block
  by_cases hroom : L.length < 14 * blocks.length
  · rw [if_pos hroom] at hcur hit
    rw [endOf, if_pos hroom, if_pos rfl, wp_pure, hcur, hit, wp_bind]
    apply wp_writeNewItem hs hL hI hroom hx hx0 (hlive _ (blockOf_mem hroom))
    intro s' hw hL' hI'
    rw [wp_pure]
    apply hQ blocks s'
    refine ⟨hw.tidy, ?_, ⟨[], by simp⟩, hL', hI', fun c _ => hw.get_of_lt (by omega) c,
      fun _ c _ => hw.kept (by omega) c, 0, fun c _ _ hfree => ?_⟩
    · exact (hw.frame (hlive _ (blockOf_mem hroom)) (by omega)).mono
        fun c hc => hc ▸ blockOf_mem hroom
    · rwa [hw.get_of_lt (by omega)]
  -- a block is linked first
  · have hfull : L.length = 14 * blocks.length := by
      have := hL.fits
      omega
    rw [if_neg hroom] at hcur hit
    rw [endOf, if_neg hroom, if_neg (by decide), wp_bind, wp_attempt]
    have hlast : blockOf blocks (L.length - 1) = prevOf blocks blocks.length := by
      have h1 : (L.length - 1) / 14 = blocks.length - 1 := by omega
      rw [blockOf, h1, prevOf, if_neg (by omega), List.getD_eq_getElem _ _ (by omega),
        List.getD_eq_getElem _ _ (by omega)]
    have hsn' : u32 l'.block 0 = sn := by
      rw [← hL.serialno l'.currentBlock]
      · exact u32_congr fun i hi => hend.links _ (by omega) (by omega)
      · rw [hcur]
        exact blockOf_mem (by omega)
    rw [hsn', hcur, hlast]
    apply wp_listAddBlock hs hsn hL hI hlive hfull
    · -- without a new block, the item would have to be written behind the device
      intro s' href
      rw [wp_pure, wp_bind]
      have hreach : s'.reaches g (itemAddr blockInvalid 0) x.length = false := by
        rw [St.reaches, Bool.and_eq_false_iff]
        right
        rw [decide_eq_false_iff_not, g.size_eq, itemAddr_eq]
        have := g.blocks_le
        show ¬128 * 65535 + _ + _ ≤ _
        omega
      show wp (clDevWrite g (itemAddr blockInvalid 0) x) _ R s'
      unfold wp
      rw [clDevWrite, hreach]
      exact hR s' href
    · intro b s₁ h1
      have hL1 := h1.list
      have hroom1 : L.length < 14 * (blocks ++ [b]).length := by
        rw [List.length_append, List.length_singleton]
        omega
      have hat : blockOf (blocks ++ [b]) L.length = b :=
        blockOf_append_right b (by omega) (by omega)
      have haddr : itemAddr b 0 = addrOf (blocks ++ [b]) L.length := by
        have h0 : L.length % 14 = 0 := by omega
        rw [addrOf, hat, h0]
      have hlive1 : Live (blk s₁.flash (blockOf (blocks ++ [b]) L.length)) := by
        rw [hat]
        exact live_addedStatus h1.new
      rw [wp_pure, wp_bind, Option.getD_some, haddr]
      -- the item is the first in the new block
      apply wp_writeNewItem h1.tidy hL1 h1.items hroom1 hx hx0 hlive1
      intro s' hw hL' hI'
      rw [wp_pure]
      apply hQ (blocks ++ [b]) s'
      refine ⟨hw.tidy, ?_, ⟨[b], rfl, ?_⟩, hL', hI', ?_, fun hzero c hc =>
        (h1.kept hzero c hc).trans (hw.kept (by omega) c), h1.usesOne.of_status fun c _ hfree => ?_⟩
      · apply h1.frame.trans (hw.frame hlive1 (by omega))
        intro c hc
        rw [hc, hat]
        exact Or.inr h1.was
      · intro c hc
        obtain rfl := List.mem_singleton.mp hc
        refine ⟨h1.was, ?_⟩
        rw [hw.get_of_lt (by omega), h1.new]
      · intro c hc
        rw [hw.get_of_lt (by omega), h1.old c hc]
      · rwa [hw.get_of_lt (by omega)]

end CoActionOS.Cafs
