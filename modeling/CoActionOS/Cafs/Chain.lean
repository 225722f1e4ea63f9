import Mathlib.Data.List.Nodup
import Mathlib.Data.List.Perm.Subperm
import CoActionOS.Cafs.Frame
import CoActionOS.Cafs.List

/-!
# Well-formed lists and their traversal

`IsList g V sn type blocks n` says that in the contents `V` the blocks `blocks` form a list with `n`
items: linked both ways, of the right types, the items without a gap and erased space behind them.
Items are counted through the blocks, so that item `k` is item `k % 14` of block `k / 14`.

`wp_whileItem` is the rule for the loops over a list: the body is shown to lead from item `k` to item
`k + 1`.
-/

namespace CoActionOS.Cafs

open Cmd

variable {g : Geometry}

/-! ### Lists -/

/-- The block of item `k`. -/
def blockOf (blocks : List Nat) (k : Nat) : Nat := blocks.getD (k / 14) 0

/-- The address of item `k`. -/
def addrOf (blocks : List Nat) (k : Nat) : Nat := itemAddr (blockOf blocks k) (k % 14)

/-- The bytes of item `k`. -/
def slot (V : Nat → Bytes) (blocks : List Nat) (k : Nat) : Bytes := fun i =>
  V (blockOf blocks k) (10 + 8 * (k % 14) + i)

def prevOf (blocks : List Nat) (i : Nat) : Nat :=
  if i = 0 then blockInvalid else blocks.getD (i - 1) blockInvalid

def nextOf (blocks : List Nat) (i : Nat) : Nat := blocks.getD (i + 1) blockInvalid

/-- The list types. -/
def IsListType (type : UInt8) : Prop := type = BlockType.serialnoList ∨ type = BlockType.fileList

structure IsList (g : Geometry) (V : Nat → Bytes) (sn : Nat) (type : UInt8) (blocks : List Nat)
    (n : Nat) : Prop where
  ne : blocks ≠ []
  nodup : blocks.Nodup
  pos : ∀ b ∈ blocks, 1 ≤ b
  lt : ∀ b ∈ blocks, b < g.total
  listType : IsListType type
  serialno : ∀ b ∈ blocks, u32 (V b) 0 = sn
  type : ∀ i (h : i < blocks.length), V blocks[i] 4 = if i = 0 then type else type ||| linkedListFlag
  prev : ∀ i (h : i < blocks.length), u16 (V blocks[i]) 8 = prevOf blocks i
  next : ∀ i (h : i < blocks.length), u16 (V blocks[i]) 6 = nextOf blocks i
  used : ∀ k < n, slot V blocks k 0 ≠ ItemStatus.free
  blank : ∀ k, n ≤ k → k < 14 * blocks.length → ∀ i < 8, slot V blocks k i = 0xFF
  full : 14 * (blocks.length - 1) ≤ n
  fits : n ≤ 14 * blocks.length

theorem itemAddr_eq (b j : Nat) : itemAddr b j = 128 * b + (10 + 8 * j) := by
  show b * 128 + 6 + 4 + j * 8 = _
  omega

theorem addrOf_eq (blocks : List Nat) (k : Nat) :
    addrOf blocks k = 128 * blockOf blocks k + (10 + 8 * (k % 14)) := itemAddr_eq _ _

theorem blockOf_eq {blocks : List Nat} {k : Nat} (h : k / 14 < blocks.length) :
    blockOf blocks k = blocks[k / 14] := List.getD_eq_getElem _ _ h

theorem blockOf_mem {blocks : List Nat} {k : Nat} (h : k < 14 * blocks.length) :
    blockOf blocks k ∈ blocks := by
  have hk : k / 14 < blocks.length := by omega
  rw [blockOf_eq hk]
  exact List.getElem_mem hk

/-- Two items have the same address only if they are the same. -/
theorem addrOf_inj {blocks : List Nat} (hnd : blocks.Nodup) {j k : Nat}
    (hj : j < 14 * blocks.length) (hk : k < 14 * blocks.length)
    (h : addrOf blocks j = addrOf blocks k) : j = k := by
  rw [addrOf_eq, addrOf_eq] at h
  have h1 : j / 14 < blocks.length := by omega
  have h2 : k / 14 < blocks.length := by omega
  have hb : blockOf blocks j = blockOf blocks k := by omega
  rw [blockOf_eq h1, blockOf_eq h2] at hb
  have := hnd.getElem_inj_iff.mp hb
  omega

namespace IsList

variable {V V' : Nat → Bytes} {sn n : Nat} {type : UInt8} {blocks : List Nat}

/-- The status bytes of the blocks do not matter. -/
theorem congr (h : IsList g V sn type blocks n)
    (hV : ∀ b ∈ blocks, ∀ i, i ≠ 5 → V' b i = V b i) : IsList g V' sn type blocks n := by
  have hslot : ∀ k, k < 14 * blocks.length → ∀ i, slot V' blocks k i = slot V blocks k i := by
    intro k hk i
    exact hV _ (blockOf_mem hk) _ (by omega)
  refine { h with
    serialno := ?_, type := ?_, prev := ?_, next := ?_, used := ?_, blank := ?_ }
  · intro b hb
    rw [← h.serialno b hb]
    exact u32_congr fun i hi => hV b hb _ (by omega)
  · intro i hi
    rw [hV _ (List.getElem_mem hi) 4 (by omega)]
    exact h.type i hi
  · intro i hi
    rw [← h.prev i hi]
    exact u16_congr fun j hj => hV _ (List.getElem_mem hi) _ (by omega)
  · intro i hi
    rw [← h.next i hi]
    exact u16_congr fun j hj => hV _ (List.getElem_mem hi) _ (by omega)
  · intro k hk
    rw [hslot k (Nat.lt_of_lt_of_le hk h.fits)]
    exact h.used k hk
  · intro k h1 h2 i hi
    rw [hslot k h2]
    exact h.blank k h1 h2 i hi

theorem blockOf_lt (h : IsList g V sn type blocks n) {k : Nat} (hk : k < 14 * blocks.length) :
    blockOf blocks k < g.total := h.lt _ (blockOf_mem hk)

theorem length_pos (h : IsList g V sn type blocks n) : 0 < blocks.length :=
  List.length_pos_iff.mpr h.ne

/-- There are at most as many blocks in a list as in the data area. -/
theorem length_le (h : IsList g V sn type blocks n) : blocks.length ≤ g.total := by
  have hsub : blocks ⊆ List.range g.total := fun b hb => List.mem_range.mpr (h.lt b hb)
  have := (h.nodup.subperm hsub).length_le
  rwa [List.length_range] at this

theorem lt_fuel (h : IsList g V sn type blocks n) : 14 * blocks.length < loopFuel := by
  have h1 := h.length_le
  have h2 := g.blocks_le
  show _ < 16 * 65536
  omega

theorem ne_invalid (h : IsList g V sn type blocks n) {b : Nat} (hb : b ∈ blocks) :
    b ≠ blockInvalid := by
  have h1 := h.lt b hb
  have h2 := g.blocks_le
  show b ≠ 65535
  omega

end IsList

theorem listTypeIsValid_of {type : UInt8} (h : IsListType type) (i : Nat) :
    listTypeIsValid (if i = 0 then type else type ||| linkedListFlag) = true := by
  rcases h with rfl | rfl
  · split <;> decide
  · split <;> decide

/-! ### The cursor -/

/-- The cursor stands in front of item `k`; behind the last item of a full list it still has the last
block. -/
structure CursorAt (V : Nat → Bytes) (blocks : List Nat) (l : ClList) (k : Nat) : Prop where
  current : l.currentBlock = if k < 14 * blocks.length then blockOf blocks k else blockOf blocks (k - 1)
  item : l.currentItem = if k < 14 * blocks.length then k % 14 else 14
  links : ∀ i, i < 10 → i ≠ 5 → l.block i = V l.currentBlock i
  rest : ∀ i, 10 + 8 * l.currentItem ≤ i → i < 128 → l.block i = V l.currentBlock i

/-- The cursor has just read item `k`. -/
structure Got (V : Nat → Bytes) (blocks : List Nat) (l : ClList) (k : Nat) : Prop where
  addr : l.addr = addrOf blocks k
  item : ∀ i < 8, l.item i = slot V blocks k i
  cursor : CursorAt V blocks l (k + 1)

/-- The return value of `cl_list_getnext` behind the last item. -/
def endOf (blocks : List Nat) (n : Nat) : Next :=
  if n < 14 * blocks.length then .free else .stop

theorem wp_listUpdate {s : St} {l : ClList} {prev : Nat} {Q : Bool × ClList → St → Prop}
    {R : St → Prop} (hup : s.up = true) (hb : l.currentBlock < g.total + g.eraseable)
    (hprev : u16 (blk s.flash l.currentBlock) 8 = prev)
    (htype : listTypeIsValid (blk s.flash l.currentBlock 4) = true)
    (hQ : Q (true, { l with currentItem := 0, block := blk s.flash l.currentBlock }) s) :
    wp (listUpdate g l prev) Q R s := by
  rw [listUpdate]
  simp only [wp_bind, wp_attempt]
  apply wp_clBlockLoad hup hb
  have hp : (listHdr (blk s.flash l.currentBlock)).prev = prev := hprev
  rw [if_neg, wp_pure]
  · exact hQ
  · rw [hp, htype]
    simp

theorem wp_clListInit {s : St} {sn n : Nat} {type : UInt8} {blocks : List Nat}
    {Q : ClList → St → Prop} {R : St → Prop} (hup : s.up = true)
    (hL : IsList g (blk s.flash) sn type blocks n)
    (hQ : ∀ l, CursorAt (blk s.flash) blocks l 0 → Q l s) :
    wp (clListInit g (blocks.headD 0)) Q R s := by
  obtain ⟨b, bs, rfl⟩ := List.exists_cons_of_ne_nil hL.ne
  have hb : b < g.total := hL.lt b List.mem_cons_self
  rw [clListInit, wp_bind]
  apply wp_listUpdate hup (by show b < _; omega)
  · exact hL.prev 0 (by simp)
  · have h0 := hL.type 0 (by simp)
    simp only [List.getElem_cons_zero] at h0
    show listTypeIsValid (blk s.flash b 4) = true
    rw [h0]
    exact listTypeIsValid_of hL.listType 0
  · show wp (pure _) Q R s
    rw [wp_pure]
    apply hQ
    exact ⟨by simp [blockOf], by simp, fun _ _ _ => rfl, fun _ _ _ => rfl⟩

theorem nextOf_of_lt {blocks : List Nat} {i : Nat} (h : i + 1 < blocks.length) :
    nextOf blocks i = blocks[i + 1] := List.getD_eq_getElem _ _ h

theorem nextOf_of_le {blocks : List Nat} {i : Nat} (h : blocks.length ≤ i + 1) :
    nextOf blocks i = blockInvalid := List.getD_eq_default _ _ h

theorem next_of_links {V : Nat → Bytes} {sn n k : Nat} {type : UInt8} {blocks : List Nat} {l : ClList}
    (hL : IsList g V sn type blocks n) (hk : k < 14 * blocks.length) (hcur : l.currentBlock = blockOf blocks k)
    (hlinks : ∀ i, i < 10 → i ≠ 5 → l.block i = V l.currentBlock i) :
    (listHdr l.block).next = nextOf blocks (k / 14) := by
  have h6 : (listHdr l.block).next = u16 l.block 6 := rfl
  rw [h6, ← hL.next (k / 14) (by omega), ← blockOf_eq (by omega), ← hcur]
  exact u16_congr fun i hi => hlinks (6 + i) (by omega) (by omega)

/-- Behind the last item of a block that has a next one, the next one is loaded. -/
theorem wp_listAdvance_load {s : St} {sn n k : Nat} {type : UInt8} {blocks : List Nat} {l : ClList}
    {Q : Next × ClList → St → Prop} {R : St → Prop} (hup : s.up = true)
    (hL : IsList g (blk s.flash) sn type blocks n) (hcur : l.currentBlock = blockOf blocks k)
    (hit : l.currentItem = 14) (hk : k % 14 = 13) (hmore : k / 14 + 1 < blocks.length)
    (hnext : (listHdr l.block).next = blocks[k / 14 + 1])
    (hQ : ∀ l', l'.addr = l.addr → l'.item = l.item → CursorAt (blk s.flash) blocks l' (k + 1) → Q (.item, l') s) :
    wp (listAdvance g l) Q R s := by
  have hkb : k / 14 < blocks.length := by omega
  have hmem : (listHdr l.block).next ∈ blocks := by
    rw [hnext]
    exact List.getElem_mem hmore
  have hdiff : l.currentBlock ≠ (listHdr l.block).next := by
    rw [hnext, hcur, blockOf_eq hkb]
    intro he
    have hidx := hL.nodup.getElem_inj_iff.mp he
    omega
  rw [listAdvance, if_pos ⟨hit, hL.ne_invalid hmem⟩]
  simp only
  rw [if_neg hdiff, wp_bind]
  apply wp_listUpdate hup
  · show (listHdr l.block).next < _
    have := hL.lt _ hmem
    omega
  · show u16 (blk s.flash (listHdr l.block).next) 8 = l.currentBlock
    rw [hnext, hL.prev _ hmore, prevOf, if_neg (by omega), Nat.add_sub_cancel, List.getD_eq_getElem _ _ hkb, hcur,
      blockOf_eq hkb]
  · show listTypeIsValid (blk s.flash (listHdr l.block).next 4) = true
    rw [hnext, hL.type _ hmore]
    exact listTypeIsValid_of hL.listType _
  · show wp (pure _) Q R s
    rw [wp_pure]
    have hdiv : (k + 1) / 14 = k / 14 + 1 := by omega
    have h1 : k + 1 < 14 * blocks.length := by omega
    refine hQ _ rfl rfl ⟨?_, ?_, fun _ _ _ => rfl, fun _ _ _ => rfl⟩
    · rw [if_pos h1, blockOf_eq (by omega)]
      simp only [hdiv]
      exact hnext
    · rw [if_pos h1]
      show 0 = (k + 1) % 14
      omega

/-- Behind item `k`. -/
theorem wp_listAdvance {s : St} {sn n k : Nat} {type : UInt8} {blocks : List Nat} {l : ClList}
    {Q : Next × ClList → St → Prop} {R : St → Prop} (hup : s.up = true)
    (hL : IsList g (blk s.flash) sn type blocks n) (hk : k < 14 * blocks.length)
    (hcur : l.currentBlock = blockOf blocks k) (hit : l.currentItem = k % 14 + 1)
    (hlinks : ∀ i, i < 10 → i ≠ 5 → l.block i = blk s.flash l.currentBlock i)
    (hrest : ∀ i, 10 + 8 * l.currentItem ≤ i → i < 128 → l.block i = blk s.flash l.currentBlock i)
    (hQ : ∀ l', l'.addr = l.addr → l'.item = l.item → CursorAt (blk s.flash) blocks l' (k + 1) → Q (.item, l') s) :
    wp (listAdvance g l) Q R s := by
  have hnext := next_of_links hL hk hcur hlinks
  by_cases hmore : k % 14 = 13 ∧ k / 14 + 1 < blocks.length
  · rw [nextOf_of_lt hmore.2] at hnext
    exact wp_listAdvance_load hup hL hcur (by omega) hmore.1 hmore.2 hnext hQ
  · -- the block has more items, or it is the last one
    have hstay : ¬ (l.currentItem = totalItems ∧ (listHdr l.block).next ≠ blockInvalid) := by
      rintro ⟨h14, hvalid⟩
      have h14 : l.currentItem = 14 := h14
      exact hvalid (hnext.trans (nextOf_of_le (by omega)))
    rw [listAdvance, if_neg hstay, wp_pure]
    refine hQ l rfl rfl ⟨?_, ?_, hlinks, hrest⟩
    · rw [hcur]
      split
      · have hdiv : (k + 1) / 14 = k / 14 := by omega
        rw [blockOf, blockOf, hdiv]
      · rw [Nat.add_sub_cancel]
    · rw [hit]
      split
      · omega
      · omega

/-- One call of `cl_list_getnext`. -/
theorem wp_clListGetnext {s : St} {sn n k : Nat} {type : UInt8} {blocks : List Nat} {l : ClList}
    {Q : Next × ClList → St → Prop} {R : St → Prop} (hup : s.up = true)
    (hL : IsList g (blk s.flash) sn type blocks n) (hc : CursorAt (blk s.flash) blocks l k)
    (hk : k ≤ n) (hitem : k < n → ∀ l', Got (blk s.flash) blocks l' k → Q (.item, l') s)
    (hend : k = n → ∀ l', CursorAt (blk s.flash) blocks l' n → Q (endOf blocks n, l') s) :
    wp (clListGetnext g l) Q R s := by
  have hfits := hL.fits
  have hcur := hc.current
  have hit := hc.item
  by_cases hlt : k < 14 * blocks.length
  · rw [if_pos hlt] at hcur hit
    have hin : l.currentItem < totalItems := by
      rw [hit]
      exact Nat.mod_lt k (by decide)
    have hbytes : ∀ i < 8, blockItem l.block l.currentItem i = slot (blk s.flash) blocks k i := by
      intro i hi
      show l.block (itemAddr 0 l.currentItem + i) = _
      rw [itemAddr_eq, hc.rest _ (by omega) (by rw [hit]; omega), slot, hcur, hit]
      congr 1
      omega
    have h0 := hbytes 0 (by omega)
    rw [clListGetnext, if_pos hin]
    simp only
    by_cases hkn : k < n
    · have hne : blockItem l.block l.currentItem 0 ≠ ItemStatus.free := by
        rw [h0]
        exact hL.used k hkn
      have haddr : itemAddr l.currentBlock l.currentItem = addrOf blocks k := by
        rw [hcur, hit]
        rfl
      rw [if_neg hne]
      apply wp_listAdvance hup hL hlt
      · exact hcur
      · exact congrArg (· + 1) hit
      · exact hc.links
      · exact fun i h1 h2 => hc.rest i (by simp only at h1; omega) h2
      · intro l' ha hi hcursor
        apply hitem hkn
        exact ⟨ha.trans haddr, fun i h8 => (congrFun hi i).trans (hbytes i h8), hcursor⟩
    · -- the first free item ends the list
      have hkn : k = n := by omega
      have hfree : blockItem l.block l.currentItem 0 = ItemStatus.free := by
        rw [h0]
        exact hL.blank k (by omega) hlt 0 (by omega)
      rw [if_pos hfree, wp_pure]
      have hE : endOf blocks n = .free := if_pos (hkn ▸ hlt)
      rw [hE] at hend
      apply hend hkn
      rw [← hkn]
      exact ⟨hc.current, hc.item, hc.links, hc.rest⟩
  · -- a list whose blocks are full ends behind its last block
    have hkn : k = n := by omega
    rw [if_neg hlt] at hit
    rw [clListGetnext, if_neg (by rw [hit]; decide), wp_pure]
    have hE : endOf blocks n = .stop := if_neg (hkn ▸ hlt)
    rw [hE] at hend
    apply hend hkn
    rw [← hkn]
    exact hc

/-! ### Loops over the items -/

/-- The rule for `whileItem`: `J k` holds in front of item `k`. -/
theorem wp_whileItem {τ β : Type} {sn n : Nat} {type : UInt8} {blocks : List Nat}
    {body : ClList → τ → Cmd St (Loop (ClList × τ) β)} {Q : Sum β (Next × ClList × τ) → St → Prop}
    {R : St → Prop} (J : Nat → ClList → τ → St → Prop)
    (hJ : ∀ k l t s, J k l t s → s.up = true ∧ IsList g (blk s.flash) sn type blocks n ∧
      CursorAt (blk s.flash) blocks l k)
    (hbody : ∀ k l l' t s, k < n → J k l t s → Got (blk s.flash) blocks l' k →
      wp (body l' t) (fun r s' => match r with
        | .next p => J (k + 1) p.1 p.2 s'
        | .done b => Q (.inl b) s') R s)
    (hend : ∀ l l' t s, J n l t s → CursorAt (blk s.flash) blocks l' n →
      Q (.inr (endOf blocks n, l', t)) s)
    (fuel k : Nat) (l : ClList) (t : τ) (s : St) (hk : k ≤ n) (hfuel : n - k < fuel)
    (h : J k l t s) : wp (whileItem g body fuel l t) Q R s := by
  induction fuel generalizing k l t s with
  | zero => omega
  | succ fuel ih =>
    obtain ⟨hup, hL, hc⟩ := hJ k l t s h
    rw [whileItem, wp_bind]
    apply wp_clListGetnext hup hL hc hk
    · intro hkn l' hgot
      show wp (if Next.item = .item then _ else _) Q R s
      rw [if_pos rfl, wp_bind]
      apply wp_mono (hbody k l l' t s hkn h hgot)
      · intro r s' hr
        cases r with
        | done b =>
          rw [wp_pure]
          exact hr
        | next p => exact ih (k + 1) p.1 p.2 s' (by omega) (by omega) hr
      · intro s' hR
        exact hR
    · intro hkn l' hc'
      have hne : endOf blocks n ≠ .item := by
        rw [endOf]
        split <;> decide
      show wp (if endOf blocks n = .item then _ else _) Q R s
      rw [if_neg hne, wp_pure]
      subst hkn
      exact hend l l' t s h hc'

/-- A loop that only reads: `I k` holds of the accumulated value in front of item `k`. -/
theorem wp_whileItem_read {τ β : Type} {sn n : Nat} {type : UInt8} {blocks : List Nat} {s : St}
    {body : ClList → τ → Cmd St (Loop (ClList × τ) β)} {Q : Sum β (Next × ClList × τ) → St → Prop}
    {R : St → Prop} (I : Nat → τ → Prop) (hup : s.up = true)
    (hL : IsList g (blk s.flash) sn type blocks n)
    (hbody : ∀ k l t, k < n → I k t → Got (blk s.flash) blocks l k →
      wp (body l t) (fun r s' => s' = s ∧ match r with
        | .next p => p.1 = l ∧ I (k + 1) p.2
        | .done b => Q (.inl b) s) R s)
    (hend : ∀ l t, I n t → CursorAt (blk s.flash) blocks l n →
      Q (.inr (endOf blocks n, l, t)) s)
    {k : Nat} {l : ClList} {t : τ} (hk : k ≤ n) (hc : CursorAt (blk s.flash) blocks l k)
    (h : I k t) : wp (whileItem g body loopFuel l t) Q R s := by
  apply wp_whileItem (fun k l t s' => s' = s ∧ CursorAt (blk s.flash) blocks l k ∧ I k t)
  · rintro k l t s' ⟨rfl, h1, _⟩
    exact ⟨hup, hL, h1⟩
  · rintro k l l' t s' hkn ⟨rfl, _, h2⟩ hgot
    apply wp_mono (hbody k l' t hkn h2 hgot)
    · intro r s'' hr
      obtain ⟨rfl, hr⟩ := hr
      cases r with
      | done b => exact hr
      | next p =>
        obtain ⟨h3, h4⟩ := hr
        refine ⟨rfl, ?_, h4⟩
        rw [h3]
        exact hgot.cursor
    · exact fun _ h => h
  · rintro l l' t s' ⟨rfl, _, h2⟩ hc'
    exact hend l' t h2 hc'
  · exact hk
  · have := hL.lt_fuel
    have := hL.fits
    omega
  · exact ⟨rfl, hc, h⟩

end CoActionOS.Cafs
