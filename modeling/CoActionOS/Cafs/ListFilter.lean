import CoActionOS.Cafs.Names

/-!
# Consolidation as a filter

Whatever `cl_list_getnext` returns of the new list is what it returned of the old one without the
dirty items, in the same order and byte for byte (`listItems_consolidate`).

The allocation of a block may fail on the way.  The copy then goes on with `BLOCK_INVALID` as the
block to be saved, and since no block can be saved there, the call does not succeed any more
(`copyBlocks_invalid`): nothing has to be known of what reclamation has left behind.
-/

namespace CoActionOS.Cafs

open Cmd

variable {g : Geometry}

/-! ### The items of a list -/

/-- The items that `cl_list_getnext` returns one after the other, as bytes. -/
def listItems (g : Geometry) (listBlock : Nat) : Cmd St (List (List UInt8)) := do
  let l ← clListInit g listBlock
  let r : Sum Empty (Next × ClList × List (List UInt8)) ← whileItem g (fun l items =>
    return .next (l, items ++ [slice l.item 0 itemSize])) loopFuel l []
  match r with
  | .inl e => nomatch e
  | .inr (_, _, items) => return items

/-- Items as they are stored. -/
def rawDecoder : Decoder (List UInt8) where
  dec d := slice d 0 8
  statusOf x := x.getD 0 0
  setStatus v x := v :: x.tail
  congr d d' h := slice_congr fun i hi => by rw [Nat.zero_add]; exact h i hi
  statusOf_dec d := getD_slice (by decide)
  status d d' v h0 h := by
    apply List.ext_getElem
    · simp
    · intro i h1 h2
      rw [length_slice] at h1
      rw [getElem_slice, Nat.zero_add]
      cases i with
      | zero => exact h0
      | succ i =>
        rw [List.getElem_cons_succ, List.getElem_tail, getElem_slice, Nat.zero_add]
        exact h (i + 1) (by omega) h1

/-- All the items of the list. -/
def rawItems (V : Nat → Bytes) (blocks : List Nat) (n : Nat) : List (List UInt8) :=
  (List.range n).map (rawItem V blocks)

@[simp] theorem length_rawItems (V : Nat → Bytes) (blocks : List Nat) (n : Nat) :
    (rawItems V blocks n).length = n := by
  simp [rawItems]

theorem hasItems_rawItems (V : Nat → Bytes) (blocks : List Nat) (n : Nat) :
    HasItems rawDecoder V blocks (rawItems V blocks n) := by
  intro k hk
  simp [rawItems, rawItem, rawDecoder]

theorem HasItems.rawItems_eq {V : Nat → Bytes} {blocks : List Nat} {L : List (List UInt8)}
    (h : HasItems rawDecoder V blocks L) : rawItems V blocks L.length = L := by
  apply List.ext_getElem
  · simp
  · intro k h1 h2
    rw [← h k h2]
    simp [rawItems, rawItem, rawDecoder]

theorem keptItems_eq_filter (V : Nat → Bytes) (blocks : List Nat) (n : Nat) :
    keptItems V blocks n = (rawItems V blocks n).filter fun x => x.getD 0 0 ≠ ItemStatus.dirty := rfl

theorem listItems_eq {s : St} {sn n : Nat} {type : UInt8} {blocks : List Nat} (hup : s.up = true)
    (hL : IsList g (blk s.flash) sn type blocks n) :
    listItems g (blocks.headD 0) s = .ok (rawItems (blk s.flash) blocks n) s := by
  apply eq_ok_of_wp
  rw [listItems, wp_bind]
  apply wp_clListInit hup hL
  intro l hc
  rw [wp_bind]
  apply wp_whileItem_read (fun k items => items = rawItems (blk s.flash) blocks k) hup hL
  · intro k l' items hk hitems hgot
    rw [wp_pure]
    refine ⟨rfl, rfl, ?_⟩
    have hitem : slice l'.item 0 itemSize = rawItem (blk s.flash) blocks k :=
      slice_congr fun i hi => by rw [Nat.zero_add]; exact hgot.item i hi
    simp only [hitem, hitems]
    rw [rawItems, rawItems, List.range_succ, List.map_append, List.map_singleton]
  · intro l' items hitems _
    exact ⟨hitems, rfl⟩
  · exact Nat.zero_le n
  · exact hc
  · rfl

/-! ### Out of blocks -/

section

variable {sn : Nat} {type : UInt8} {b : NewBlock}

theorem save_invalid {next : Nat} (h : b.current = blockInvalid) : b.save g next = fail := by
  rw [NewBlock.save, clBlockSave, if_pos h]

theorem copyItem_invalid {x : List UInt8} (h : b.current = blockInvalid) :
    Yields (copyItem g sn type b x) fun b' => b'.current = blockInvalid := by
  rw [copyItem]
  dsimp only
  split
  · refine .after fun next => ?_
    have hsave : NewBlock.save g { b with items := b.items ++ [x] } (next.getD blockInvalid) = fail := save_invalid h
    rw [hsave]
    intro s b' s' hc
    obtain ⟨_, _, hfail, -⟩ := then_eq_ok hc
    cases hfail
  · exact .pure h

theorem copyItems_invalid {old : Bytes} (m i : Nat) (h : b.current = blockInvalid) :
    Yields (copyItems g sn type old m i b) fun b' => b'.current = blockInvalid := by
  induction m generalizing i b with
  | zero => exact .pure h
  | succ m ih =>
    rw [copyItems]
    split_ifs
    · exact .pure h
    · exact ih (i + 1) h
    · exact (copyItem_invalid h).bind fun b' h' => ih (i + 1) h'

/-- Once there is no block to copy to, there never is. -/
theorem copyBlocks_invalid (fuel old oldPrev : Nat) (h : b.current = blockInvalid) :
    Yields (copyBlocks g sn type fuel old oldPrev b) fun b' => b'.current = blockInvalid := by
  induction fuel generalizing old oldPrev b with
  | zero =>
    intro s b' s' hc
    cases hc
  | succ fuel ih =>
    rw [copyBlocks]
    split_ifs
    · exact .pure h
    · refine .after fun d => ?_
      split_ifs
      · exact .pure h
      · exact (copyItems_invalid _ _ h).bind fun b' h' => ih _ _ h'

end

/-! ### The copy -/

/-- The items `M` have been copied, unless a block was missing for them. -/
def Filling (g : Geometry) (s₀ s : St) (sn : Nat) (type : UInt8) (new : Nat) (M : List (List UInt8))
    (b : NewBlock) : Prop :=
  (∃ done cur, Building g s₀ s sn type new done cur M ∧ b = currentOf done cur M) ∨
    b.current = blockInvalid

section copy

variable {s₀ s : St} {sn new n : Nat} {type : UInt8} {M : List (List UInt8)} {x : List UInt8}
  {b : NewBlock} {blocks : List Nat}

theorem wlp_copyItem (htype : IsListType type) (hx : x.length = 8 ∧ x.getD 0 0 ≠ ItemStatus.free)
    (h : Filling g s₀ s sn type new M b) :
    wlp (copyItem g sn type b x) (fun b' s' => Filling g s₀ s' sn type new (M ++ [x]) b') s := by
  rcases h with ⟨done, cur, h, rfl⟩ | h
  · have hge := h.ge
    have hlt := h.lt
    have hMlen : (M ++ [x]).length = M.length + 1 := by simp
    have hlen : (currentOf done cur (M ++ [x])).items.length = M.length + 1 - 14 * done.length := by
      rw [currentOf, List.length_drop, hMlen]
    have hcur : cur ∈ done ++ [cur] := List.mem_append_right _ (List.mem_singleton.mpr rfl)
    have hcurlt := (h.range cur hcur).2.1
    rw [copyItem, currentOf_push hge]
    dsimp only
    by_cases hfull : M.length + 1 = 14 * (done.length + 1)
    · rw [if_pos (by rw [hlen]; show _ = 14; omega)]
      refine wlp_bind ?_
      refine wlp_attempt ?_
      apply wp_clBlockAlloc h.grown.tidy (Or.inl hcurlt)
      · intro s₁ _
        refine wlp_bind ?_
        exact fun _ s₂ _ => wlp_pure (Or.inr rfl)
      · intro nb s₁ ha
        refine wlp_bind ?_
        refine wlp_of_wp (R := fun _ => True) ?_
        apply wp_clBlockSave ha.tidy hcurlt
        · rw [← h.fresh]
          exact ha.keep hcurlt (h.live cur hcur)
        intro s₂ hw
        refine wlp_pure ?_
        refine Or.inl ⟨done ++ [cur], nb, h.next htype hx (by omega) ha hw, ?_⟩
        rw [currentOf_next (by omega)]
        rfl
    · rw [if_neg (by rw [hlen]; show _ ≠ 14; omega)]
      refine wlp_pure ?_
      exact Or.inl ⟨done, cur, h.push hx (by omega), rfl⟩
  · exact wlp_mono (copyItem_invalid h).wlp fun _ _ h' => Or.inr h'

theorem wlp_copyItems (hL : IsList g (blk s₀.flash) sn type blocks n) {j : Nat} (hj : j < blocks.length)
    (m i : Nat) (him : i + m = 14)
    (h : Filling g s₀ s sn type new (keptItems (blk s₀.flash) blocks (min (14 * j + i) n)) b) :
    wlp (copyItems g sn type (blk s₀.flash blocks[j]) m i b) (fun b' s' =>
      Filling g s₀ s' sn type new (keptItems (blk s₀.flash) blocks (min (14 * (j + 1)) n)) b') s := by
  induction m generalizing i b s with
  | zero =>
    refine wlp_pure ?_
    rwa [show 14 * (j + 1) = 14 * j + i by omega]
  | succ m ih =>
    have hlt : 14 * j + i < 14 * blocks.length := by omega
    rw [copyItems]
    simp only [blockItem_eq_slot hj (show i < 14 by omega)]
    by_cases hn : 14 * j + i < n
    · have hused := hL.used _ hn
      have hnext : min (14 * j + (i + 1)) n = 14 * j + i + 1 := by omega
      rw [if_neg hused]
      rw [Nat.min_eq_left (by omega)] at h
      by_cases hd : slot (blk s₀.flash) blocks (14 * j + i) 0 = ItemStatus.dirty
      · rw [if_pos hd]
        apply ih (i + 1) (by omega)
        rwa [hnext, keptItems_succ, if_pos hd]
      · rw [if_neg hd]
        have hkept : (rawItem (blk s₀.flash) blocks (14 * j + i)).getD 0 0 ≠ ItemStatus.free := by
          rwa [rawItem, getD_slice (by decide)]
        refine wlp_bind ?_
        refine wlp_mono (wlp_copyItem hL.listType ⟨length_slice _ _ _, hkept⟩ h) ?_
        intro b' s' h'
        apply ih (i + 1) (by omega)
        rwa [hnext, keptItems_succ, if_neg hd]
    · rw [if_pos (hL.blank _ (by omega) hlt 0 (by omega))]
      refine wlp_pure ?_
      rwa [show min (14 * (j + 1)) n = min (14 * j + i) n by omega]

theorem wlp_copyBlocks (hL : IsList g (blk s₀.flash) sn type blocks n)
    (hclosed : ∀ c ∈ blocks, blk s₀.flash c 5 = BlockStatus.closed) (fuel j : Nat)
    (hj : j ≤ blocks.length)
    (h : Filling g s₀ s sn type new (keptItems (blk s₀.flash) blocks (min (14 * j) n)) b) :
    wlp (copyBlocks g sn type fuel (blocks.getD j blockInvalid) (prevOf blocks j) b)
      (fun b' s' => Filling g s₀ s' sn type new (keptItems (blk s₀.flash) blocks n) b') s := by
  induction fuel generalizing j b s with
  | zero =>
    intro b' s' hc
    cases hc
  | succ fuel ih =>
    by_cases hlt : j < blocks.length
    · rcases h with ⟨done, cur, h, rfl⟩ | h
      · have hmem := List.getElem_mem hlt
        have hclt := hL.lt _ hmem
        have hsame := h.grown.keep _ hclt (Or.inl (hclosed _ hmem))
        have hprev : (listHdr (blk s₀.flash blocks[j])).prev = prevOf blocks j := hL.prev j hlt
        have hnext : (listHdr (blk s₀.flash blocks[j])).next = nextOf blocks j := hL.next j hlt
        have hvalid : listTypeIsValid (blk s₀.flash blocks[j] 4) = true := by
          rw [hL.type j hlt]
          exact listTypeIsValid_of hL.listType j
        rw [copyBlocks, List.getD_eq_getElem _ _ hlt, if_neg (hL.ne_invalid hmem)]
        refine wlp_bind ?_
        refine wlp_of_wp (R := fun _ => True) ?_
        apply wp_clBlockLoad h.grown.tidy.up (by omega)
        rw [hsame, if_neg (by rw [hprev, hvalid, hL.serialno _ hmem, hclosed _ hmem]; simp)]
        refine wlp_bind ?_
        refine wlp_mono (wlp_copyItems hL hlt 14 0 (by omega) (Or.inl ⟨done, cur, h, rfl⟩)) ?_
        intro b' s' h'
        have hp : prevOf blocks (j + 1) = blocks[j] := prevOf_succ hlt
        rw [hnext, nextOf, ← hp]
        exact ih (j + 1) hlt h'
      · exact wlp_mono (copyBlocks_invalid _ _ _ h).wlp fun _ _ h' => Or.inr h'
    · rw [copyBlocks, List.getD_eq_default _ _ (by omega), if_pos rfl]
      refine wlp_pure ?_
      have := hL.fits
      rwa [Nat.min_eq_right (by omega)] at h

/-- A consolidation that has returned a block. -/
theorem wlp_clListConsolidate (hs : Tidy g s) (hsn : sn < 2 ^ 32)
    (hL : IsList g (blk s.flash) sn type blocks n)
    (hclosed : ∀ c ∈ blocks, blk s.flash c 5 = BlockStatus.closed) :
    wlp (clListConsolidate g sn (blocks.headD 0) type) (fun new s' => ∃ B, new = B.headD 0 ∧
      Consolidated g rawDecoder s sn type (rawItems (blk s.flash) blocks n) B s') s := by
  have hmem : blocks.headD 0 ∈ blocks := by
    rw [← getD_zero hL.ne 0, List.getD_eq_getElem _ _ hL.length_pos]
    exact List.getElem_mem _
  have h0 : prevOf blocks 0 = blockInvalid := if_pos rfl
  rw [clListConsolidate]
  refine wlp_bind ?_
  refine wlp_of_wp (R := fun _ => True) ?_
  apply wp_clBlockAlloc hs (Or.inl (hL.lt _ hmem)) (fun _ _ => trivial)
  intro new s₁ ha
  have hcopy := wlp_copyBlocks (g := g) hL hclosed loopFuel 0 (Nat.zero_le _) (Or.inl ⟨[], new, ha.building, rfl⟩)
  rw [h0, getD_zero hL.ne] at hcopy
  refine wlp_bind ?_
  refine wlp_mono hcopy ?_
  intro b s₂ h
  refine wlp_bind ?_
  rcases h with ⟨done, cur, h, rfl⟩ | h
  · have hcur : cur ∈ done ++ [cur] := List.mem_append_right _ (List.mem_singleton.mpr rfl)
    refine wlp_of_wp (R := fun _ => True) ?_
    rw [NewBlock.save]
    apply wp_clBlockSave h.grown.tidy (h.range cur hcur).2.1 h.fresh
    intro s₃ hw
    refine wlp_pure ?_
    refine ⟨done ++ [cur], h.head.symm, h.finish hL.listType hsn ?_ hw⟩
    have hmap := map_keptItems (hasItems_rawItems (blk s.flash) blocks n)
    rwa [length_rawItems] at hmap
  · rw [save_invalid h]
    exact fun _ _ hfail => by cases hfail

/-- The new list has the items of the old one that are not dirty, and its links are right.  The old list is
as it was. -/
theorem listItems_consolidate {s' : St} (hs : Tidy g s) (hsn : sn < 2 ^ 32)
    (hL : IsList g (blk s.flash) sn type blocks n)
    (hclosed : ∀ c ∈ blocks, blk s.flash c 5 = BlockStatus.closed)
    (hc : clListConsolidate g sn (blocks.headD 0) type s = .ok new s') :
    ∃ items B, listItems g (blocks.headD 0) s = .ok items s ∧
      listItems g new s' = .ok (items.filter fun x => x.getD 0 0 ≠ ItemStatus.dirty) s' ∧
      new = B.headD 0 ∧
      IsList g (blk s'.flash) sn type B (items.filter fun x => x.getD 0 0 ≠ ItemStatus.dirty).length ∧
      ∀ c ∈ blocks, blk s'.flash c = blk s.flash c := by
  obtain ⟨B, hnew, h⟩ := wlp_clListConsolidate hs hsn hL hclosed new s' hc
  have hnewItems := listItems_eq h.grown.tidy.up h.list
  rw [h.items.rawItems_eq, ← hnew] at hnewItems
  refine ⟨_, B, listItems_eq hs.up hL, hnewItems, hnew, h.list, fun c hcb => ?_⟩
  exact h.grown.keep c (hL.lt c hcb) (Or.inl (hclosed c hcb))

end copy

/-- The list of serial numbers after a file has been made and unlinked. -/
theorem listItems_consolidate_unlinked : ∃ (s s' : St) (new : Nat) (items : List (List UInt8)) (B : List Nat),
    clListConsolidate erasedSection clSerialnoList s.listBlock BlockType.serialnoList s = .ok new s' ∧
      listItems erasedSection s.listBlock s = .ok items s ∧
      listItems erasedSection new s' = .ok (items.filter fun x => x.getD 0 0 ≠ ItemStatus.dirty) s' ∧
      new = B.headD 0 ∧ IsList erasedSection (blk s'.flash) clSerialnoList BlockType.serialnoList B
        (items.filter fun x => x.getD 0 0 ≠ ItemStatus.dirty).length := by
  have hready : (formatBlank erasedSection).map readyToCreate = some true := by decide +kernel
  have hend : ((formatBlank erasedSection).bind fun n => (Run.replay (Namespace.step erasedSection) n
      [.open pathA createFlags, .close 0, .unlink pathA]).map fun p =>
        (clListConsolidate erasedSection clSerialnoList p.1.fs.st.listBlock BlockType.serialnoList p.1.fs.st).returns) =
      some true := by decide +kernel
  obtain ⟨n₀, hn₀, hready⟩ := Option.map_eq_some_iff.mp hready
  rw [hn₀, Option.bind_some] at hend
  obtain ⟨⟨n, rs⟩, hreplay, hreturns⟩ := Option.map_eq_some_iff.mp hend
  have hformat := formatted_of_formatBlank hn₀
  have hok : Run.AllOk (Namespace.step erasedSection) (Namespace.Careful erasedSection) n₀
      [.open pathA createFlags, .close 0, .unlink pathA] :=
    Run.allOk_cons (careful_of_ready hready) fun _ => Run.allOk_cons trivial fun _ =>
      Run.allOk_cons (show Addressed pathA.chars by decide) fun _ => trivial
  obtain ⟨sb, E, hn⟩ := Namespace.kept_of_careful hformat (Run.of_replay hreplay hok)
  obtain ⟨new, s', hc⟩ := Outcome.exists_of_returns hreturns
  have hcat := hn.catalogue
  have hc' := hc
  rw [hcat.head] at hc'
  obtain ⟨items, B, h1, h2, h3, h4, -⟩ :=
    listItems_consolidate hcat.tidy (by decide) hcat.entries.list hcat.entries.closed hc'
  exact ⟨n.fs.st, s', new, items, B, hc, by rw [hcat.head]; exact h1, h2, h3, h4⟩

end CoActionOS.Cafs
