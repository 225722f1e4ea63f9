import Mathlib.Data.Finset.Card
import CoActionOS.Cafs.Catalogue

/-!
# Opening a file that nothing has been written to

An open for writing makes a header block, the entry of the handle, a list block and the contents of the header, in this
order.  Until the header is written the entry is one of an open that failed (`Catalogue.wp_begin`), and that is what it
stays when a block cannot be allocated; then it is held by the handle (`Catalogue.wp_hold`).
-/

namespace CoActionOS.Cafs

open Cmd

variable {g : Geometry}

/-! ### Blocks to spare -/

def freeBlocks (g : Geometry) (V : Nat → Bytes) : Finset Nat :=
  (Finset.range g.total).filter fun b => firstBlock ≤ b ∧ V b 5 = BlockStatus.free

/-- After `m` allocations there are free blocks left, or what reclamation finds fits into the scratch area. -/
def Spare (g : Geometry) (m : Nat) (V : Nat → Bytes) : Prop := (freeBlocks g V).card ≤ m → Roomy g V

instance (g : Geometry) (m : Nat) (V : Nat → Bytes) : Decidable (Spare g m V) := inferInstanceAs (Decidable (_ → _))

section

variable {V V' : Nat → Bytes} {m : Nat}

theorem UsesOne.card_le (h : UsesOne g V V') : (freeBlocks g V).card ≤ (freeBlocks g V').card + 1 := by
  obtain ⟨b, hb⟩ := h
  have hsub : freeBlocks g V ⊆ insert b (freeBlocks g V') := by
    intro c hc
    obtain ⟨hrange, hpos, hfree⟩ := Finset.mem_filter.mp hc
    by_cases hcb : c = b
    · exact Finset.mem_insert.mpr (.inl hcb)
    · have hfree' := hb c (Finset.mem_range.mp hrange) hcb hfree
      exact Finset.mem_insert_of_mem (Finset.mem_filter.mpr ⟨hrange, hpos, hfree'⟩)
  exact Nat.le_trans (Finset.card_le_card hsub) (Finset.card_insert_le b _)

theorem Spare.step (h : Spare g (m + 1) V) (hone : UsesOne g V V') (hkept : ∀ c < g.total, Kept (V c) (V' c)) :
    Spare g m V' := fun hle => (h (Nat.le_trans hone.card_le (Nat.succ_le_succ hle))).of_kept hkept

theorem Spare.mono {n : Nat} (h : Spare g n V) (hmn : m ≤ n) : Spare g m V := fun hle => h (Nat.le_trans hle hmn)

/-- The search goes through all free blocks before an allocation is refused. -/
theorem Refused.roomy {s s' : St} (h : Refused g s s') (hup : s.up = true) (hspare : Spare g m (blk s.flash)) :
    Roomy g (blk s.flash) := by
  obtain ⟨sn, hint, hhint, hnone⟩ := h.searched
  have hproper : ProperHint g hint := hhint.imp id And.left
  have hempty : freeBlocks g (blk s.flash) = ∅ := by
    rcases searchBlock_spec sn hup (not_stopsOff hproper) with ⟨b, hb, -⟩ | ⟨-, -, hfree⟩
    · exact absurd hb (hnone b)
    · apply Finset.filter_eq_empty_iff.mpr
      exact fun b hb hb' => hfree b hb'.1 (Finset.mem_range.mp hb) hb'.2
  apply hspare
  rw [hempty]
  exact Nat.zero_le m

end

/-! ### The entry -/

section

variable {s s₁ : St} {sb : List Nat} {E : List Entry} {R : St → Prop} {sn b : Nat} {name : List UInt8}

/-- The entry of an open that has not come to its end. -/
def Entry.begun (sn b : Nat) (name : List UInt8) : Entry := ⟨sn, b, 0, name, .failed⟩

theorem Entry.blocks_begun : (Entry.begun sn b name).blocks = [b] := rfl

/-- The entry names the header block that was allocated before `s`. -/
structure Begun (g : Geometry) (s : St) (E : List Entry) (sn b : Nat) (name : List UInt8) (sb : List Nat) (s' : St) :
    Prop where
  catalogue : Catalogue g s' sb (E ++ [Entry.begun sn b name])
  fresh : blk s'.flash b = freshBlock sn BlockType.fileHdr
  kept : ∀ c < g.total, Kept (blk s.flash c) (blk s'.flash c)
  usesOne : UsesOne g (blk s.flash) (blk s'.flash)

theorem Catalogue.serialno_lt (h : Catalogue g s sb E) (hsn : sn ≤ s.serialno) : sn < 2 ^ 32 :=
  Nat.lt_of_le_of_lt hsn (Nat.lt_of_lt_of_le h.bound (by decide))

/-- A refused allocation changes nothing that an entry stands for. -/
theorem Catalogue.refused {s' : St} {m : Nat} (h : Catalogue g s sb E) (hspare : Spare g m (blk s.flash))
    (hr : Refused g s s') : Catalogue g s' sb E :=
  have hroom := hr.roomy h.tidy.up hspare
  h.frame (hr.left hroom).1 (hr.frame hroom fun _ => False) (fun _ _ => id) (fun _ _ _ _ => id)

theorem Catalogue.allocated {s' : St} {type : UInt8} (h : Catalogue g s sb E) (ha : Allocated g s sn type b s')
    (htype : type ≠ BlockType.serialnoList) : Catalogue g s' sb E :=
  h.frame ha.tidy (ha.frame htype fun _ => False) (fun _ _ => id) (fun _ _ _ _ => id)

/-- A block that is not in use belongs to no entry. -/
theorem Catalogue.not_mem_blocks (h : Catalogue g s sb E) {e : Entry} (he : e ∈ E) (hb : ¬Live (blk s.flash b)) :
    b ∉ e.blocks := fun hmem => hb ((h.sound e he).blocks hmem).2.1

theorem Entry.hdr_mem_blocks {e : Entry} (h : e.state.status = SnStatus.opened) : e.hdr ∈ e.blocks := by
  rcases EntryState.status_eq_opened.mp h with hstate | hstate | ⟨fd, hstate⟩
  · have hblock : e.state.blockStatus = some BlockStatus.opened := by rw [hstate]; rfl
    rw [Entry.mem_blocks_of_file hblock]
    exact List.mem_cons_self
  · unfold Entry.blocks
    rw [hstate]
    exact List.mem_cons_self
  · have hblock : e.state.blockStatus = some BlockStatus.opened := by rw [hstate]; rfl
    rw [Entry.mem_blocks_of_file hblock]
    exact List.mem_cons_self

theorem Catalogue.wp_begin {Q : Option Nat → St → Prop} (h : Catalogue g s sb E) (name : List UInt8)
    (ha : Allocated g s sn BlockType.fileHdr b s₁) (hsn : 1 ≤ sn ∧ sn ≤ s.serialno) (hspare : Spare g 1 (blk s₁.flash))
    (hR : ∀ s', Catalogue g s' sb E → R s')
    (hQ : ∀ more s', Begun g s₁ E sn b name (sb ++ more) s' → Q (some (addrOf (sb ++ more) (E.length + 1))) s') :
    wp (clSerialnoAppend g sn b SnStatus.opened) Q R s₁ := by
  have hsn32 := h.serialno_lt hsn.2
  have h1 : Catalogue g s₁ sb E := h.allocated ha (by decide)
  have hb : b < blockInvalid := Nat.lt_of_lt_of_le ha.lt (by have := g.blocks_le; show _ ≤ 65535; omega)
  have hserial : u32 (blk s₁.flash b) 0 = sn := by
    rw [ha.fresh]
    exact freshBlock_serialno _ hsn32
  apply wp_clSerialnoAppend h1.tidy h1.entries h1.head hsn32 hb (by decide)
  · -- an equal entry would have the block in use already
    intro hmem
    rcases List.mem_cons.mp hmem with hzero | hmem
    · exact absurd (congrArg SnItem.status hzero) (by show SnStatus.opened ≠ SnStatus.closed; decide)
    · obtain ⟨e, he, hitem⟩ := List.mem_map.mp hmem
      have hstatus : e.state.status = SnStatus.opened := congrArg SnItem.status hitem
      have hhdr : e.hdr = b := congrArg SnItem.block hitem
      have hnot := h.not_mem_blocks he ha.was
      rw [← hhdr] at hnot
      exact hnot (Entry.hdr_mem_blocks hstatus)
  · exact fun s' hr => hR s' (h1.refused hspare hr)
  · intro more s' ht hf hmore hkept hone hentries
    have hlength : (zeroEntry :: E.map Entry.item).length = E.length + 1 := by simp
    rw [hlength]
    apply hQ more s'
    refine ⟨?_, ?_, hkept, hone⟩
    -- the entry names the new block, and no file has it
    · apply h1.append ht hf _ rfl
      · rw [ha.ram.serialno]
        exact hsn
      · have hnofile : ∀ st, (Entry.begun sn b name).state.blockStatus ≠ some st :=
          fun st => Option.some_ne_none st ∘ Eq.symm
        have hfree : ∀ fd, (Entry.begun sn b name).state ≠ .held fd := fun fd => EntryState.noConfusion
        exact ⟨fun st hst => absurd hst (hnofile st), fun fd hfd => absurd hfd (hfree fd),
          fun _ => ⟨ha.lt, ha.live, hserial⟩⟩
      · intro e he c hc hc'
        rw [Entry.blocks_begun] at hc'
        obtain rfl := List.mem_singleton.mp hc'
        exact h.not_mem_blocks he ha.was hc
      · have hitems : zeroEntry :: (E ++ [Entry.begun sn b name]).map Entry.item =
            (zeroEntry :: E.map Entry.item) ++ [newEntry sn b SnStatus.opened] := by
          rw [List.map_append]
          rfl
        rw [hitems]
        exact hentries
    · rw [keep_of_entries h1.entries hf ha.lt ha.live hserial (Nat.one_le_iff_ne_zero.mp hsn.1)]
      exact ha.fresh

/-! ### The list block -/

/-- A block that was not in use is an empty list now, and nothing else has changed. -/
structure NewList (g : Geometry) (s : St) (sn l : Nat) (s' : St) : Prop where
  tidy : Tidy g s'
  frame : Frame g (fun _ => False) s s'
  was : ¬Live (blk s.flash l)
  list : IsList g (blk s'.flash) sn BlockType.fileList [l] 0
  status : blk s'.flash l 5 = BlockStatus.opened

/-- A block that has just been allocated is an empty list. -/
theorem Allocated.isList {l : Nat} {type : UInt8} (h : Allocated g s sn type l s₁) (htype : IsListType type)
    (hsn : sn < 2 ^ 32) : IsList g (blk s₁.flash) sn type [l] 0 := by
  -- behind the header of a fresh block all is blank
  have hblank : ∀ i, 6 ≤ i → i < 128 → blk s₁.flash l i = 0xFF := by
    intro i h6 hi
    rw [h.fresh]
    exact freshBlock_blank _ _ h6 hi
  have hlink : ∀ o, 6 ≤ o → o ≤ 8 → u16 (blk s₁.flash l) o = blockInvalid := by
    intro o h6 h8
    unfold u16
    rw [hblank o h6 (by omega), hblank (o + 1) (by omega) (by omega)]
    rfl
  refine
    { ne := List.cons_ne_nil _ _
      nodup := List.nodup_singleton l
      pos := fun c hc => List.mem_singleton.mp hc ▸ h.pos
      lt := fun c hc => List.mem_singleton.mp hc ▸ h.lt
      listType := htype
      serialno := ?_
      type := ?_
      prev := ?_
      next := ?_
      used := fun k hk => absurd hk (Nat.not_lt_zero k)
      blank := ?_
      full := Nat.le_refl 0
      fits := Nat.zero_le _ }
  · intro c hc
    rw [List.mem_singleton.mp hc, h.fresh]
    exact freshBlock_serialno _ hsn
  · intro i hi
    obtain rfl : i = 0 := by simpa using hi
    show blk s₁.flash l 4 = _
    rw [h.fresh, freshBlock_type, if_pos rfl]
  · intro i hi
    obtain rfl : i = 0 := by simpa using hi
    exact hlink 8 (by omega) (by omega)
  · intro i hi
    obtain rfl : i = 0 := by simpa using hi
    exact hlink 6 (by omega) (by omega)
  · intro k _ hk i hi
    have hk : k < 14 := by simpa using hk
    have hblock : blockOf [l] k = l := by
      rw [blockOf, Nat.div_eq_of_lt hk]
      rfl
    rw [slot, hblock]
    exact hblank _ (by omega) (by omega)

theorem Allocated.newList {l : Nat} (h : Allocated g s sn BlockType.fileList l s₁) (hsn : sn < 2 ^ 32) :
    NewList g s sn l s₁ where
  tidy := h.tidy
  frame := h.frame (by decide) _
  was := h.was
  list := h.isList (.inr rfl) hsn
  status := by rw [h.fresh, freshBlock_status]

theorem wp_copyBlocks_empty {old : Nat} {nb : NewBlock} {Q : NewBlock → St → Prop} (hup : s.up = true)
    (hL : IsList g (blk s.flash) sn BlockType.fileList [old] 0) (hQ : Q nb s) :
    wp (copyBlocks g sn BlockType.fileList loopFuel old blockInvalid nb) Q R s := by
  have hmem : old ∈ [old] := List.mem_singleton.mpr rfl
  have hlt := hL.lt old hmem
  have hnext : (listHdr (blk s.flash old)).next = blockInvalid := hL.next 0 (Nat.zero_lt_succ 0)
  obtain ⟨n, hn⟩ : ∃ n, loopFuel = n + 2 := ⟨16 * 65536 - 2, rfl⟩
  rw [hn, copyBlocks, if_neg (hL.ne_invalid hmem), wp_bind]
  apply wp_clBlockLoad hup (by omega)
  split_ifs
  · rwa [wp_pure]
  · have hfree : blockItem (blk s.flash old) 0 0 = ItemStatus.free :=
      hL.blank 0 (Nat.le_refl 0) (by simp) 0 (by decide)
    rw [wp_bind]
    show wp (copyItems g sn BlockType.fileList (blk s.flash old) (13 + 1) 0 nb) _ R s
    rw [copyItems]
    simp only [hfree, if_true]
    rw [wp_pure, copyBlocks, if_pos hnext, wp_pure]
    exact hQ

/-- The copy of an empty list. -/
theorem wp_clFilelistConsolidate_empty {old : Nat} {Q : Nat → St → Prop} (hs : Tidy g s) (hsn : sn < 2 ^ 32)
    (hL : IsList g (blk s.flash) sn BlockType.fileList [old] 0) (hlive : Live (blk s.flash old))
    (hR : ∀ s', Refused g s s' → R s') (hQ : ∀ l s', NewList g s sn l s' → Q l s') :
    wp (clFilelistConsolidate g sn old) Q R s := by
  have hmem : old ∈ [old] := List.mem_singleton.mpr rfl
  have hlt := hL.lt old hmem
  rw [clFilelistConsolidate, clListConsolidate, wp_bind]
  apply wp_clBlockAlloc hs (.inl hlt) hR
  intro l s₁ h1
  have hold : blk s₁.flash old = blk s.flash old := h1.keep hlt hlive
  rw [wp_bind]
  apply wp_copyBlocks_empty h1.tidy.up (hL.congr fun c hc i _ => by rw [List.mem_singleton.mp hc, hold])
  rw [wp_bind, NewBlock.save]
  apply wp_clBlockSave h1.tidy h1.lt h1.fresh
  intro s₂ h2
  rw [wp_pure]
  apply hQ
  refine ⟨h2.tidy, ?_, h1.was, ?_, ?_⟩
  · apply (h1.frame (by decide) fun _ => False).trans (h2.frame h1.live (by omega))
    rintro c rfl
    exact .inr h1.was
  · have hself : blk s₂.flash l = filledBlock sn BlockType.fileList [l] [] 0 := by
      rw [h2.self, h1.fresh]
      rfl
    apply IsList.of_filled (M := [])
    · intro i hi
      obtain rfl : i = 0 := by simpa using hi
      exact hself
    · exact fun x hx => absurd hx List.not_mem_nil
    · exact fun x hx => absurd hx List.not_mem_nil
    · exact List.cons_ne_nil _ _
    · exact List.nodup_singleton l
    · exact fun c hc => List.mem_singleton.mp hc ▸ h1.pos
    · exact fun c hc => List.mem_singleton.mp hc ▸ h1.lt
    · exact .inr rfl
    · exact hsn
    · exact Nat.le_refl 0
    · exact Nat.zero_le _
  · rw [h2.self]
    exact overwrite_add (i := 0) (by simp)

theorem wp_clFilelistMakeobsolete_empty {l : Nat} {Q : Unit → St → Prop} (hs : Tidy g s)
    (hL : IsList g (blk s.flash) sn BlockType.fileList [l] 0) (hQ : Q () s) :
    wp (clFilelistMakeobsolete g l) Q R s := by
  rw [clFilelistMakeobsolete, wp_bind]
  apply wp_clListInit hs.up hL
  intro c hc
  rw [wp_bind]
  apply wp_whileItem_read (fun _ _ => True) hs.up hL _ _ (Nat.le_refl 0) hc trivial
  · intro k _ _ hk
    exact absurd hk (Nat.not_lt_zero k)
  · intro _ _ _ _
    rwa [wp_pure]

/-! ### The header -/

theorem Catalogue.mem_of_ne_length {E : List Entry} {e x : Entry} {j : Nat} (hj : (E ++ [e])[j]? = some x)
    (hne : j ≠ E.length) : E[j]? = some x := by
  rw [List.getElem?_append] at hj
  split_ifs at hj with hlt
  · exact hj
  · rw [List.getElem?_eq_none (by rw [List.length_singleton]; omega)] at hj
    exact absurd hj (by simp)

/-- The handle is about to make the file of the last entry visible. -/
theorem Catalogue.wp_hold {l fd : Nat} {hdr : HdrOpen} {Q : Unit → St → Prop}
    (h : Catalogue g s sb (E ++ [Entry.begun sn b name])) (hfresh : blk s.flash b = freshBlock sn BlockType.fileHdr)
    (hnew : NewList g s sn l s₁) (hpos : 1 ≤ b) (hname : PlainName name) (hlength : hdr.name.length = HdrOpen.nameSize)
    (hbytes : ∀ i < HdrOpen.nameSize, hdr.name.getD i 0 = name.getD i 0) (hcontent : hdr.contentBlock = l)
    (hfd : ∀ e ∈ E, e.state ≠ .held fd)
    (hnames : ∀ e ∈ E, e.state.blockStatus.isSome → (e.name = name ↔ e.serialno = sn))
    (hQ : ∀ s', Catalogue g s' sb (E ++ [⟨sn, b, l, name, .held fd⟩]) → Q () s') :
    wp (clDevWrite g (blockDataAddr b) hdr.toBytes) Q R s₁ := by
  have hget : (E ++ [Entry.begun sn b name])[E.length]? = some (Entry.begun sn b name) := by simp
  have hmem : Entry.begun sn b name ∈ E ++ [Entry.begun sn b name] := List.mem_of_getElem? hget
  obtain ⟨hlt, hlive, hserial⟩ := (h.sound _ hmem).blocks (c := b) (List.mem_singleton.mpr rfl)
  have h1 : Catalogue g s₁ sb (E ++ [Entry.begun sn b name]) :=
    h.frame hnew.tidy hnew.frame (fun _ _ => id) (fun _ _ _ _ => id)
  have hb1 : blk s₁.flash b = freshBlock sn BlockType.fileHdr := by
    rw [hnew.frame.keep b hlt hlive id]
    exact hfresh
  have hlive1 : Live (blk s₁.flash b) := by
    rw [hb1]
    exact live_freshBlock _ _
  have hlb : l ≠ b := fun he => hnew.was (he ▸ hlive)
  have hl : l < g.total := hnew.list.lt l (List.mem_singleton.mpr rfl)
  have hsize : hdr.toBytes.length = 28 := by
    rw [HdrOpen.toBytes, List.length_append, hlength]
    rfl
  have haddr : blockDataAddr b = 128 * b + 6 := by
    show b * 128 + 6 = _
    omega
  rw [haddr]
  apply wp_write_data hnew.tidy hlt hlive1 (Nat.le_refl 6) (by omega)
  · apply fits_of_blank
    intro i hi
    rw [hb1]
    exact freshBlock_blank _ _ (by omega) (by omega)
  intro s₂ hw
  -- other entries have other blocks
  have hother : ∀ (j : Nat) (x : Entry), (E ++ [Entry.begun sn b name])[j]? = some x → j ≠ E.length →
      b ∉ x.blocks ∧ l ∉ x.blocks := by
    intro j x hj hne
    have hx : x ∈ E ++ [Entry.begun sn b name] := List.mem_of_getElem? hj
    refine ⟨fun hmem => ?_, h.not_mem_blocks hx hnew.was⟩
    exact h.apart j E.length x _ hj hget hne hmem (List.mem_singleton.mpr rfl)
  have hset : (E ++ [Entry.begun sn b name]).set E.length ⟨sn, b, l, name, .held fd⟩ =
      E ++ [⟨sn, b, l, name, .held fd⟩] := by simp
  have hb2 : ∀ i, 34 ≤ i → blk s₂.flash b i = freshBlock sn BlockType.fileHdr i := by
    intro i hi
    rw [hw.get_of_lt (by omega), hb1]
  have hfront : ∀ i < 6, blk s₂.flash b i = freshBlock sn BlockType.fileHdr i := by
    intro i hi
    rw [hw.get_of_lt (by omega), hb1]
  have hwritten : ∀ i < 28, blk s₂.flash b (6 + i) = hdr.toBytes.getD i 0 := by
    intro i hi
    rw [hw.get_add (by omega), List.getD_eq_getElem _ _ (by omega)]
  have hl2 : blk s₂.flash l = blk s₁.flash l := hw.other l hlb
  have hsound : Entry.Sound (⟨sn, b, l, name, .held fd⟩ : Entry) g (blk s₂.flash) := by
    refine ⟨?_, ?_, fun hstate => nomatch hstate⟩
    · intro st hst
      obtain rfl : BlockStatus.opened = st := Option.some.inj hst
      refine ⟨⟨hpos, hlt, ?_, hfront 4 (by omega), hfront 5 (by omega), ?_, ?_, ?_, ?_, ?_⟩, ?_⟩
      · show u32 (blk s₂.flash b) 0 = sn
        have hserial' : u32 (blk s.flash b) 0 = sn := hserial
        rw [← hserial', hfresh]
        exact u32_congr fun i hi => hfront _ (by omega)
      · have h26 : ∀ i < 2, blk s₂.flash b (32 + i) = (le16 l).getD i 0 := by
          intro i hi
          have hsplit : hdr.toBytes.getD (26 + i) 0 = (le16 l).getD i 0 := by
            rw [HdrOpen.toBytes, hcontent, List.getD_append_right _ _ _ _ (by rw [hlength]; show 26 ≤ _; omega), hlength]
            congr 1
            show 26 + i - 26 = i
            omega
          rw [← hsplit, ← hwritten (26 + i) (by omega)]
          congr 1
          omega
        have hl16 : l < 65536 := by have := g.blocks_le; omega
        exact u16_eq_of_le16 hl16 (h26 0 (by omega)) (h26 1 (by omega))
      · exact hnew.list.congr fun c hc i _ => by rw [List.mem_singleton.mp hc, hl2]
      · exact fun k hk => absurd hk (Nat.not_lt_zero k)
      · intro c hc
        rw [List.mem_singleton.mp hc, hl2]
        exact hnew.status
      · exact fun j _ hj => absurd hj (Nat.not_lt_zero j)
      · intro i hi
        have hi : i < 26 := hi
        show blk s₂.flash b (6 + i) = _
        rw [hwritten i (by omega), ← hbytes i hi, HdrOpen.toBytes, List.getD_append _ _ _ _ (by rw [hlength]; exact hi)]
    · intro _ _ i h34 h38
      show blk s₂.flash b i = 0xFF
      rw [hb2 i h34]
      exact freshBlock_blank _ _ (by omega) (by omega)
  apply hQ
  rw [← hset]
  apply h1.update hw.tidy (hw.frame hlive1 (by omega)) (e := Entry.begun sn b name)
  · refine ⟨hget, rfl, hsound, fun _ => hname, ?_, ?_, ?_, ?_⟩
    · intro j x hj hne c hc hc'
      obtain ⟨hnb, hnl⟩ := hother j x hj hne
      rw [Entry.mem_blocks_of_file (show EntryState.blockStatus _ = some BlockStatus.opened from rfl)] at hc'
      rcases List.mem_cons.mp hc' with rfl | hc'
      · exact hnb hc
      · obtain rfl : c = l := List.mem_singleton.mp hc'
        exact hnl hc
    · intro x hx hfile _
      rcases List.mem_append.mp hx with hx | hx
      · exact hnames x hx hfile
      · rw [List.mem_singleton.mp hx] at hfile
        exact absurd hfile Bool.false_ne_true
    · exact fun _ _ _ _ _ hclosed => nomatch hclosed
    · intro j x fd' hj hne hheld hheld'
      have hx := List.mem_of_getElem? (Catalogue.mem_of_ne_length hj hne)
      obtain rfl : fd = fd' := EntryState.held.inj hheld'
      exact hfd x hx hheld
  · rintro j x hj hne c hc rfl
    exact (hother j x hj hne).1 hc
  · rw [hset]
    have hitems : (E ++ [(⟨sn, b, l, name, .held fd⟩ : Entry)]).map Entry.item =
        (E ++ [Entry.begun sn b name]).map Entry.item := by
      rw [List.map_append, List.map_append]
      rfl
    rw [hitems]
    exact h1.entries.frame (hw.frame hlive1 (by omega)) fun c hc he =>
      h1.not_mem hmem (List.mem_singleton.mpr rfl) (he ▸ hc)

end

/-! ### Opening an existing file -/

/-- The handle is the one that the entry at position `k` waits for. -/
structure Holds (h : Handle) (sb : List Nat) (k : Nat) (e : Entry) : Prop where
  hdr : h.hdrBlock = e.hdr
  addr : h.serialnoAddr = addrOf sb (k + 1)
  serialno : h.segmentData.serialno = e.serialno
  clean : h.segmentData.status ≠ BlockStatus.closed

/-- What an open for writing makes, when the handle is to be `fd`. -/
structure HeldAt (g : Geometry) (sb : List Nat) (E : List Entry) (fd : Nat) (name : List UInt8) (h : Handle) (s' : St) :
    Prop where
  added : ∃ more e, Catalogue g s' (sb ++ more) (E ++ [e]) ∧ e.state = .held fd ∧ e.name = name ∧
    Holds h (sb ++ more) E.length e

/-- What an open leaves that fails, or that does not write. -/
def Unopened (g : Geometry) (sb : List Nat) (E : List Entry) (s' : St) : Prop :=
  ∃ more new, Catalogue g s' (sb ++ more) (E ++ new) ∧ ∀ e ∈ new, e.state = .failed

section

variable {s : St} {sb : List Nat} {E : List Entry} {R : St → Prop} {sn fd : Nat} {name : List UInt8}

theorem Catalogue.unopened (h : Catalogue g s sb E) : Unopened g sb E s := by
  refine ⟨[], [], ?_, fun e he => absurd he List.not_mem_nil⟩
  rwa [List.append_nil, List.append_nil]

theorem Begun.unopened {s s' : St} {b : Nat} {more : List Nat} (h : Begun g s E sn b name (sb ++ more) s')
    {s'' : St} (hr : Refused g s' s'') (hspare : Spare g 1 (blk s.flash)) : Unopened g sb E s'' := by
  refine ⟨more, [Entry.begun sn b name], h.catalogue.refused (hspare.step h.usesOne h.kept) hr, fun e he => ?_⟩
  rw [List.mem_singleton.mp he]
  rfl

/-- Reading the first segment of a file without one. -/
theorem wp_clFileLoadsegment_empty {h : Handle} {segment : Nat} {Q : Result → St → Prop} (hup : s.up = true)
    (hL : IsList g (blk s.flash) sn BlockType.fileList [h.segmentListBlock] 0)
    (hQ : ∀ d, Q (some (), { h with
      segment := segment % 2 ^ 16
      segmentData := { h.segmentData with data := d, status := BlockStatus.opened } }) s) :
    wp (clFileLoadsegment g h segment) Q R s := by
  rw [clFileLoadsegment, wp_bind]
  apply wp_clFilelistGet (I := []) hup hL fun k hk => absurd hk (Nat.not_lt_zero k)
  · intro k hk
    exact absurd hk (Nat.not_lt_zero k)
  · intro _
    show wp (pure _) Q R s
    rw [wp_pure]
    exact hQ _

/-- The header says where the list is. -/
theorem EmptyFile.contentBlock {V : Nat → Bytes} {st : UInt8} {hdr list : Nat}
    (h : EmptyFile g V sn st hdr list name) : (HdrOpen.ofBytes (blockData (V hdr))).contentBlock = list := by
  have hcontent : u16 (V hdr) 32 = list := h.file.content
  rw [← hcontent]
  exact u16_congr fun i _ => congrArg (V hdr) (by show 6 + (26 + i) = 32 + i; omega)

theorem Catalogue.closedFile (h : Catalogue g s sb E) {e : Entry} (he : e ∈ E) (hclosed : e.state = .closed) :
    EmptyFile g (blk s.flash) e.serialno BlockStatus.closed e.hdr e.list e.name :=
  (h.sound e he).file BlockStatus.closed (by rw [hclosed]; rfl)

theorem Catalogue.wp_openForWriting {e : Entry} {addr : Nat} {trunc : Bool} {Q : Nat × Nat × Int × Nat → St → Prop}
    (h : Catalogue g s sb E) (he : e ∈ E) (hclosed : e.state = .closed) (hspare : Spare g 2 (blk s.flash))
    (hfd : ∀ e ∈ E, e.state ≠ .held fd) (hR : ∀ s', Unopened g sb E s' → R s')
    (hQ : ∀ more b l size s', Catalogue g s' (sb ++ more) (E ++ [⟨e.serialno, b, l, e.name, .held fd⟩]) →
      Q (b, l, size, addrOf (sb ++ more) (E.length + 1)) s') :
    wp (openForWriting g e.serialno e.hdr (blockData (blk s.flash e.hdr)) addr trunc) Q R s := by
  have hfile := h.closedFile he hclosed
  have hserials := h.serials e he
  have hsn32 := h.serialno_lt hserials.2
  rw [openForWriting, wp_bind]
  apply wp_clBlockAlloc h.tidy (.inl hfile.file.lt)
  · exact fun s' hr => hR s' (h.refused hspare hr).unopened
  intro b s₁ h1
  have hspare1 : Spare g 1 (blk s₁.flash) := hspare.step h1.usesOne fun c hc => h1.kept hc
  rw [wp_bind]
  apply h.wp_begin e.name h1 hserials hspare1
  · exact fun s' hc => hR s' hc.unopened
  intro more s₂ h2
  have hmem : e ∈ E ++ [Entry.begun e.serialno b e.name] := List.mem_append_left _ he
  have hfile2 := h2.catalogue.closedFile hmem hclosed
  have hlist2 : IsList g (blk s₂.flash) e.serialno BlockType.fileList [e.list] 0 := hfile2.file.list
  have hcontent := hfile.contentBlock
  rw [hcontent, wp_bind]
  apply wp_clFilelistConsolidate_empty h2.catalogue.tidy hsn32 hlist2
  · exact .inl hfile2.list_status
  · exact fun s' hr => hR s' (h2.unopened hr hspare1)
  intro l s₃ h3
  -- what follows is the header, whether the list was cleared or not
  have hwrite : wp (clDevWrite g (blockDataAddr b)
      { HdrOpen.ofBytes (blockData (blk s.flash e.hdr)) with contentBlock := l }.toBytes >>= fun _ =>
      pure (b, l, if trunc then 0 else closeSize (blockData (blk s.flash e.hdr)),
        (some (addrOf (sb ++ more) (E.length + 1))).getD addr)) Q R s₃ := by
    rw [wp_bind]
    apply h2.catalogue.wp_hold h2.fresh h3 h1.pos (h.plain e he (by rw [hclosed]; rfl))
    · exact length_slice _ _ _
    · intro i hi
      rw [← hfile.stored i hi]
      exact getD_slice hi
    · rfl
    · exact hfd
    · intro x hx hx'
      exact h.names x hx e he hx' (by rw [hclosed]; rfl)
    · intro s₄ h4
      rw [wp_pure, Option.getD_some]
      exact hQ more b l _ s₄ h4
  rw [wp_bind]
  apply wp_when
  · intro _
    rw [wp_bind, wp_attempt]
    exact wp_clFilelistMakeobsolete_empty h3.tidy h3.list hwrite
  · exact fun _ => hwrite

/-- Opening a file that has been looked up. -/
theorem Catalogue.wp_clFileOpen {e : Entry} {amode : Amode} {trunc : Bool} {Q : Handle → St → Prop}
    (h : Catalogue g s sb E) (he : e ∈ E) (hclosed : e.state = .closed)
    (hspare : amode.w = true → Spare g 2 (blk s.flash)) (hfd : ∀ e ∈ E, e.state ≠ .held fd)
    (hR : ∀ s', Unopened g sb E s' → R s')
    (hread : amode.w = false → ∀ h', h'.amode = amode → 0 ≤ h'.size → Q h' s)
    (hwrite : amode.w = true → ∀ h' s', h'.amode = amode → 0 ≤ h'.size → HeldAt g sb E fd e.name h' s' → Q h' s') :
    wp (clFileOpen g e.serialno amode trunc) Q R s := by
  have hsn := (h.serials e he).1
  have hsize : ∀ size : Int, 0 ≤ (if size < 0 then 0 else size) := by
    intro size
    split_ifs with hneg
    · exact Int.le_refl 0
    · exact Int.not_lt.mp hneg
  rw [clFileOpen, wp_bind]
  apply wp_clSerialnoGet_entry h hsn
  · intro k e' hk hstatus hserial
    -- another entry of the same serial number has the same name
    have he' := List.mem_of_getElem? hk
    have hclosed' := EntryState.status_eq_closed.mp hstatus
    have hname : e'.name = e.name :=
      (h.names e' he' e he (by rw [hclosed']; rfl) (by rw [hclosed]; rfl)).mpr hserial
    have hfile := h.closedFile he' hclosed'
    have hlt := hfile.file.lt
    show wp (clBlockLoad g e'.hdr >>= _) Q R s
    rw [wp_bind]
    apply wp_clBlockLoad h.tidy.up (by omega)
    rw [if_pos hfile.file.type, wp_bind]
    by_cases hw : amode.w = true
    · rw [if_pos hw, ← hserial]
      apply h.wp_openForWriting he' hclosed' (hspare hw) hfd hR
      intro more b l size s' h'
      have hget : (E ++ [(⟨e'.serialno, b, l, e'.name, .held fd⟩ : Entry)])[E.length]? =
        some ⟨e'.serialno, b, l, e'.name, .held fd⟩ := by simp
      have hfile' := (h'.sound _ (List.mem_of_getElem? hget)).file BlockStatus.opened rfl
      rw [wp_bind]
      apply wp_clFileLoadsegment_empty h'.tidy.up hfile'.file.list
      intro d
      show wp (pure _) Q R s'
      rw [wp_pure]
      refine hwrite hw _ s' rfl (hsize size) ⟨more, ⟨e'.serialno, b, l, e'.name, .held fd⟩, h', rfl, hname, rfl, rfl, ?_, ?_⟩
      · exact hfile.file.serialno
      · show BlockStatus.opened ≠ BlockStatus.closed
        decide
    · have hw' : amode.w = false := Bool.not_eq_true _ ▸ hw
      rw [if_neg hw, wp_pure]
      generalize closeSize (blockData (blk s.flash e'.hdr)) = size
      show wp (clFileLoadsegment g _ 0 >>= _) Q R s
      rw [wp_bind]
      have hL : IsList g (blk s.flash) e'.serialno BlockType.fileList
          [(HdrOpen.ofBytes (blockData (blk s.flash e'.hdr))).contentBlock] 0 := by
        rw [hfile.contentBlock]
        exact hfile.file.list
      apply wp_clFileLoadsegment_empty h.tidy.up hL
      intro d
      show wp (pure _) Q R s
      rw [wp_pure]
      exact hread hw' _ rfl (hsize size)
  · intro hno
    rw [wp_fail]
    exact hR s h.unopened

/-! ### Making a file -/

theorem getD_ofName {i : Nat} (l : Nat) (hi : i < HdrOpen.nameSize) :
    (HdrOpen.ofName name l).name.getD i 0 = name.getD i 0 := by
  show ((name ++ List.replicate HdrOpen.nameSize 0).take HdrOpen.nameSize).getD i 0 = _
  rw [List.getD_eq_getElem?_getD, List.getElem?_take_of_lt hi, ← List.getD_eq_getElem?_getD]
  by_cases hlt : i < name.length
  · rw [List.getD_append _ _ _ _ hlt]
  · rw [List.getD_append_right _ _ _ _ (Nat.not_lt.mp hlt),
      List.getD_eq_getElem _ _ (by rw [List.length_replicate]; omega), List.getElem_replicate,
      List.getD_eq_default _ _ (Nat.not_lt.mp hlt)]

theorem Catalogue.wp_clFileNew {amode : Amode} {Q : Handle → St → Prop} (h : Catalogue g s sb E)
    (hsn : 1 ≤ sn ∧ sn ≤ s.serialno) (hname : PlainName name) (hspare : Spare g 2 (blk s.flash))
    (hfits : AllocFits g (blk s.flash) sn blockInvalid) (hfd : ∀ e ∈ E, e.state ≠ .held fd)
    (hnames : ∀ e ∈ E, e.state.blockStatus.isSome → (e.name = name ↔ e.serialno = sn))
    (hR : ∀ s', Unopened g sb E s' → R s')
    (hQ : ∀ h' s', h'.amode = amode → HeldAt g sb E fd name h' s' → Q h' s') :
    wp (clFileNew g name sn BlockType.fileHdr amode) Q R s := by
  have hsn32 := h.serialno_lt hsn.2
  rw [clFileNew, wp_bind]
  apply wp_clBlockAlloc_fits h.tidy (.inr rfl) hfits
  · intro s' hu
    exact hR s' (h.frame hu.tidy (hu.rest.frame hu.ram fun _ => False) (fun _ _ => id) (fun _ _ _ _ => id)).unopened
  intro b s₁ h1
  have hspare1 : Spare g 1 (blk s₁.flash) := hspare.step h1.usesOne fun c hc => h1.kept hc
  rw [wp_bind]
  apply h.wp_begin name h1 hsn hspare1
  · exact fun s' hc => hR s' hc.unopened
  intro more s₂ h2
  rw [wp_bind]
  apply wp_clBlockAlloc h2.catalogue.tidy (.inl h1.lt)
  · exact fun s' hr => hR s' (h2.unopened hr hspare1)
  intro l s₃ h3
  rw [wp_bind]
  apply h2.catalogue.wp_hold h2.fresh (h3.newList hsn32) h1.pos hname
  · show ((name ++ List.replicate HdrOpen.nameSize 0).take HdrOpen.nameSize).length = _
    rw [List.length_take, List.length_append, List.length_replicate]
    omega
  · exact fun i hi => getD_ofName l hi
  · rfl
  · exact hfd
  · exact hnames
  · intro s₄ h4
    rw [wp_pure]
    refine hQ _ s₄ rfl ⟨more, ⟨sn, b, l, name, .held fd⟩, h4, rfl, rfl, rfl, rfl, rfl, ?_⟩
    show BlockStatus.free ≠ BlockStatus.closed
    decide

/-! ### The call -/

theorem Catalogue.setSerialno (h : Catalogue g s sb E) (hle : s.serialno ≤ sn) (hlt : sn < serialnoInvalid) :
    Catalogue g { s with serialno := sn } sb E where
  tidy := ⟨⟨h.tidy.up, h.tidy.log⟩, h.tidy.blank, h.tidy.scratch⟩
  head := h.head
  entries := h.entries
  serials e he := ⟨(h.serials e he).1, Nat.le_trans (h.serials e he).2 hle⟩
  bound := hlt
  sound := h.sound
  plain := h.plain
  apart := h.apart
  names := h.names
  unique := h.unique
  holders := h.holders

theorem wp_orErrno {α : Type} {c : Cmd St α} {err : Option Errno} {Q : Ret α → St → Prop} {R' : St → Prop}
    (h : wp c (fun a => Q (.ok a)) (Q (.error err)) s) : wp (orErrno c err) Q R' s := by
  rw [orErrno, wp_bind, wp_attempt]
  exact h

/-- What an open that makes a file needs: the next serial number, a block for the header, and no handle that will bring
up a file of the same name. -/
structure MayCreate (g : Geometry) (s : St) (E : List Entry) (path : Path) : Prop where
  serialno : s.serialno + 1 < serialnoInvalid
  fits : AllocFits g (blk s.flash) (s.serialno + 1) blockInvalid
  fresh : ∀ e ∈ E, e.state.blockStatus.isSome → e.name ≠ path.chars

theorem Catalogue.wp_cafsLiteOpen {path : Path} {flags : OpenFlags} {Q : Ret Handle → St → Prop}
    (h : Catalogue g s sb E) (hpath : Addressed path.chars) (hplain : flags.creat = true → '/'.toUInt8 ∉ path.chars)
    (hspare : (sysfsGetamode flags).w = true → Spare g 2 (blk s.flash)) (hfd : ∀ e ∈ E, e.state ≠ .held fd)
    (hcreate : flags.creat = true → (∀ e ∈ E, e.state = .closed → e.name ≠ path.chars) → MayCreate g s E path)
    (herror : ∀ err s', Unopened g sb E s' → Q (.error err) s')
    (hread : ∀ h', (sysfsGetamode flags).w = false → h'.amode = sysfsGetamode flags → Q (.ok h') s)
    (hwrite : ∀ h' s', (sysfsGetamode flags).w = true → h'.amode = sysfsGetamode flags →
      HeldAt g sb E fd path.chars h' s' → Q (.ok h') s') : wp (cafsLiteOpen g path flags) Q R s := by
  rw [cafsLiteOpen, wp_bind, wp_attempt]
  apply wp_clDirLookup h hpath
  · intro e he hclosed hname
    -- a file with the name is opened, truncated or not
    have hopen : ∀ (trunc : Bool) (Q' : Ret Handle → St → Prop),
        (∀ err s', Unopened g sb E s' → Q' (.error err) s') →
        (∀ h' s', 0 ≤ h'.size → Q (.ok h') s' → Q' (.ok h') s') →
        wp (orErrno (clFileOpen g e.serialno (sysfsGetamode flags) trunc) (some .enospc)) Q' R s := by
      intro trunc Q' herror' hok
      apply wp_orErrno
      apply h.wp_clFileOpen he hclosed hspare hfd
      · exact fun s' => herror' _ s'
      · exact fun hw h' hamode hsize => hok h' s hsize (hread h' hw hamode)
      · intro hw h' s' hamode hsize hheld
        rw [hname] at hheld
        exact hok h' s' hsize (hwrite h' s' hw hamode hheld)
    show wp (if _ then _ else _) Q R s
    split_ifs with hexcl htrunc
    · rw [wp_pure]
      exact herror _ s h.unopened
    · exact hopen true Q herror fun _ _ _ => id
    · rw [wp_bind]
      apply hopen false
      · intro err s' hu
        show wp (pure _) Q R s'
        rw [wp_pure]
        exact herror err s' hu
      · intro h' s' hsize hq
        show wp (pure _) Q R s'
        rw [wp_pure, if_neg (Int.not_lt.mpr hsize)]
        exact hq
  · intro hnone
    show wp (if flags.creat = true then _ else _) Q R s
    split_ifs with hcreat
    -- a file is made, with the next serial number
    · have hmay := hcreate hcreat hnone
      have hslash := hplain hcreat
      have hw : (sysfsGetamode flags).w = true := by
        rw [sysfsGetamode, hcreat]
        simp
      have h' := h.setSerialno (Nat.le_add_right s.serialno 1) hmay.serialno
      rw [wp_bind, clSerialnoNew, wp_bind, wp_read, if_neg (Nat.ne_of_lt hmay.serialno), wp_bind, clDevSetserialno,
        wp_modify, wp_pure, sysfsGetfilename_of_noSlash hslash]
      apply wp_orErrno
      apply h'.wp_clFileNew ⟨Nat.le_add_left 1 _, Nat.le_refl _⟩ (path.plainName hslash) (hspare hw) hmay.fits hfd
      -- no entry has that number yet
      · intro e he hfile
        refine iff_of_false (hmay.fresh e he hfile) fun hserial => ?_
        have hle := (h.serials e he).2
        omega
      · exact fun s' => herror _ s'
      · exact fun h' s' hamode hheld => hwrite h' s' hw hamode hheld
    · rw [wp_pure]
      exact herror _ s h.unopened

end

end CoActionOS.Cafs
