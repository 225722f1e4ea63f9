import CoActionOS.Cafs.Reclaim

/-!
# Allocation

`wp_clBlockAlloc` is the specification of `cl_block_alloc` that everything above the block layer
uses: the block was not in use and is erased but for its new header, and the blocks in use are as
they were.

It needs to know that the search does not leave the data area.  With a hint in the data area it
cannot; without a hint the last window of the search ends one block behind the data area, at the
start of the scratch area, and `Offers` says that the search stops earlier.
-/

namespace CoActionOS.Cafs

open Cmd

variable {g : Geometry}

/-! ### Searches -/

theorem findFree_eq {hdr : Nat → Option BlockHdr} {n i b : Nat}
    (h : findFree hdr n i = some (some b)) :
    i ≤ b ∧ b < i + n ∧ ∃ x, hdr b = some x ∧ x.status = BlockStatus.free := by
  induction n generalizing i with
  | zero => exact absurd h (by simp [findFree])
  | succ n ih =>
    rw [findFree] at h
    cases hx : hdr i with
    | none =>
      rw [hx] at h
      exact absurd h (by simp)
    | some x =>
      rw [hx] at h
      simp only at h
      split at h
      · next hfree =>
        obtain rfl : i = b := by simpa using h
        exact ⟨le_refl i, by omega, x, hx, hfree⟩
      · obtain ⟨h1, h2, h3⟩ := ih h
        exact ⟨by omega, by omega, h3⟩

theorem findFreeOf_eq {hdr : Nat → Option BlockHdr} {sn n i b : Nat}
    (h : findFreeOf hdr sn n i = some (some b)) :
    i ≤ b ∧ b < i + n ∧ ∃ x, hdr b = some x ∧ x.status = BlockStatus.free := by
  induction n generalizing i with
  | zero => exact absurd h (by simp [findFreeOf])
  | succ n ih =>
    rw [findFreeOf] at h
    cases hx : hdr i with
    | none =>
      rw [hx] at h
      exact absurd h (by simp)
    | some x =>
      rw [hx] at h
      simp only at h
      split at h
      · split at h
        · exact absurd h (by simp)
        · obtain ⟨h1, h2, h3⟩ := ih h
          exact ⟨by omega, by omega, h3⟩
      · split at h
        · next hfree =>
          obtain rfl : i = b := by simpa using h
          exact ⟨le_refl i, by omega, x, hx, hfree⟩
        · obtain ⟨h1, h2, h3⟩ := ih h
          exact ⟨by omega, by omega, h3⟩

/-- A free block, or one that another serial number uses, ends the search. -/
theorem findFreeOf_le {hdr : Nat → Option BlockHdr} {sn n i b c : Nat} {x : BlockHdr}
    (h : findFreeOf hdr sn n i = some (some b)) (hc : i ≤ c) (hx : hdr c = some x)
    (hstop : x.status = BlockStatus.free ∨
      (x.status = BlockStatus.closed ∨ x.status = BlockStatus.opened) ∧ x.serialno ≠ sn) :
    b ≤ c := by
  induction n generalizing i with
  | zero => exact absurd h (by simp [findFreeOf])
  | succ n ih =>
    -- the search ends at this block, or has not come to it
    by_cases hic : i = c
    · subst hic
      rw [findFreeOf, hx] at h
      simp only at h
      split at h
      · next hlive =>
        split at h
        · exact absurd h (by simp)
        · next hsn =>
          rcases hstop with hf | ⟨_, hne⟩
          · rw [hf] at hlive
            exact absurd hlive (by decide)
          · exact absurd hne hsn
      · next hnl =>
        rcases hstop with hf | ⟨hl, _⟩
        · rw [if_pos hf] at h
          simp only [Option.some.injEq] at h
          omega
        · exact absurd hl hnl
    · rw [findFreeOf] at h
      cases hy : hdr i with
      | none =>
        rw [hy] at h
        exact absurd h (by simp)
      | some y =>
        rw [hy] at h
        simp only at h
        split at h
        · split at h
          · exact absurd h (by simp)
          · exact ih h (by omega)
        · split at h
          · simp only [Option.some.injEq] at h
            omega
          · exact ih h (by omega)

/-- The windows start a multiple of the section length behind `i`. -/
theorem findWindow_eq {hdr : Nat → Option BlockHdr} {sn n i b : Nat}
    (h : findWindow g hdr sn n i = some (some b)) :
    ∃ k, i + k * g.eraseable < g.total ∧
      findFreeOf hdr sn g.eraseable (i + k * g.eraseable) = some (some b) := by
  induction n generalizing i with
  | zero => exact absurd h (by simp [findWindow])
  | succ n ih =>
    rw [findWindow] at h
    split at h
    · next hi =>
      cases hw : findFreeOf hdr sn g.eraseable i with
      | none =>
        rw [hw] at h
        exact absurd h (by simp)
      | some o =>
        rw [hw] at h
        cases o with
        | some c =>
          obtain rfl : c = b := by simpa using h
          exact ⟨0, by omega, by rwa [Nat.zero_mul, Nat.add_zero]⟩
        | none =>
          obtain ⟨k, h1, h2⟩ := ih h
          have hk : i + g.eraseable + k * g.eraseable = i + (k + 1) * g.eraseable := by
            rw [Nat.succ_mul]
            omega
          rw [hk] at h1 h2
          exact ⟨k + 1, h1, h2⟩
    · exact absurd h (by simp)

theorem orSearch_eq {r r' : Option (Option Nat)} {b : Nat} (h : orSearch r r' = some (some b)) :
    r = some (some b) ∨ r' = some (some b) := by
  unfold orSearch at h
  split at h
  · exact Or.inr h
  · exact Or.inl h

/-- In the last window of the search without a hint, a block is free or another serial number
uses it. -/
def LastWindowUsed (g : Geometry) (V : Nat → Bytes) (sn : Nat) : Prop :=
  ∃ b, g.total < b + g.eraseable ∧ b < g.total ∧
    (V b 5 = BlockStatus.free ∨ Live (V b) ∧ u32 (V b) 0 ≠ sn)

/-- The search without a hint ends inside the data area. -/
def Offers (g : Geometry) (s : St) (sn : Nat) : Prop :=
  (∃ b, b < g.total ∧ searchBlock g (hdrAt g s) sn blockInvalid = some (some b)) ∨
    LastWindowUsed g (blk s.flash) sn

theorem LastWindowUsed.reclaimed {s s' : St} {sn : Nat}
    (h : LastWindowUsed g (blk s.flash) sn) (hr : Reclaimed g s s') :
    LastWindowUsed g (blk s'.flash) sn := by
  obtain ⟨b, h1, h2, h3⟩ := h
  refine ⟨b, h1, h2, ?_⟩
  rcases hr b h2 with h4 | ⟨_, h4⟩
  · rwa [h4]
  · rw [h4]
    exact Or.inl rfl

/-- The hints of the code: a block of the data area, or none. -/
def HintOk (g : Geometry) (V : Nat → Bytes) (sn hint : Nat) : Prop :=
  hint < g.total ∨ hint = blockInvalid ∧ LastWindowUsed g V sn

theorem window_lt {s : St} {sn k b : Nat} (hup : s.up = true)
    (hlast : LastWindowUsed g (blk s.flash) sn) (hk : firstBlock + k * g.eraseable < g.total)
    (h : findFreeOf (hdrAt g s) sn g.eraseable (firstBlock + k * g.eraseable) = some (some b)) :
    b < g.total := by
  obtain ⟨h1, h2, _⟩ := findFreeOf_eq h
  simp only [firstBlock] at hk h1 h2
  have hE := g.scratch_fits
  have hkS : k < g.sections := by
    by_contra hge
    have := Nat.mul_le_mul_right g.eraseable (Nat.not_lt.mp hge)
    rw [Geometry.total] at hk
    omega
  have hle : (k + 1) * g.eraseable ≤ g.total := Nat.mul_le_mul_right _ hkS
  rw [Nat.succ_mul] at hle
  by_cases hb : b < g.total
  · exact hb
  · -- the window is the last one
    obtain ⟨c, h3, h4, h5⟩ := hlast
    have := findFreeOf_le h (by simp only [firstBlock]; omega)
      (hdrAt_eq hup (b := c) (by omega)) (by
        rcases h5 with h5 | ⟨h5, h6⟩
        · exact Or.inl h5
        · exact Or.inr ⟨h5, h6⟩)
    omega

theorem searchBlock_eq {s : St} {sn hint b : Nat} (hup : s.up = true)
    (hhint : HintOk g (blk s.flash) sn hint)
    (h : searchBlock g (hdrAt g s) sn hint = some (some b)) : b < g.total := by
  have hE := g.scratch_fits
  have hgb := g.blocks_le
  have hS : g.eraseable ≤ g.total := Nat.le_mul_of_pos_left _ g.sections_pos
  have hany : findFree (hdrAt g s) (g.total - firstBlock) firstBlock = some (some b) →
      b < g.total := by
    intro h
    have := (findFree_eq h).2.1
    simp only [firstBlock] at this
    omega
  unfold searchBlock at h
  simp only at h
  rcases hhint with hlt | ⟨rfl, hlast⟩
  · set hint' := if hint < firstBlock then firstBlock else hint with hh
    have hh' : hint' < g.total := by
      rw [hh]
      split <;> simp only [firstBlock] at * <;> omega
    rw [if_pos (by simp only [blockInvalid]; omega)] at h
    -- the next section starts inside the data area or at its end
    have hnext : g.eraseable - hint' % g.eraseable + hint' =
        (hint' / g.eraseable + 1) * g.eraseable := by
      have h1 := Nat.div_add_mod hint' g.eraseable
      have h2 := Nat.mod_lt hint' (show g.eraseable > 0 by omega)
      rw [Nat.succ_mul, Nat.mul_comm (hint' / g.eraseable)]
      omega
    have hdiv : hint' / g.eraseable < g.sections := by
      rw [Nat.div_lt_iff_lt_mul (by omega)]
      exact hh'
    have hmul : ∀ k, k ≤ g.sections → k * g.eraseable ≤ g.total :=
      fun k hk => Nat.mul_le_mul_right _ hk
    rcases orSearch_eq h with h | h
    · have h1 := (findFree_eq h).2.1
      have h2 := hmul _ hdiv
      rw [Nat.succ_eq_add_one, ← hnext] at h2
      omega
    · rcases orSearch_eq h with h | h
      · obtain ⟨k, h1, h2⟩ := findWindow_eq h
        have h3 := (findFreeOf_eq h2).2.1
        rw [hnext, ← Nat.add_mul] at h1 h3
        have h4 : hint' / g.eraseable + 1 + k < g.sections := by
          by_contra hge
          have := Nat.mul_le_mul_right g.eraseable (Nat.not_lt.mp hge)
          rw [Geometry.total] at h1
          omega
        have h5 := hmul _ h4
        rw [Nat.succ_mul] at h5
        omega
      · exact hany h
  · rw [if_neg (by decide)] at h
    rcases orSearch_eq h with h | h
    · obtain ⟨k, h1, h2⟩ := findWindow_eq h
      exact window_lt hup hlast h1 h2
    · exact hany h

theorem searchBlock_free {s : St} {sn hint b : Nat}
    (h : searchBlock g (hdrAt g s) sn hint = some (some b)) :
    1 ≤ b ∧ ∃ x, hdrAt g s b = some x ∧ x.status = BlockStatus.free := by
  have hwin : ∀ {n i}, 1 ≤ i → findWindow g (hdrAt g s) sn n i = some (some b) →
      1 ≤ b ∧ ∃ x, hdrAt g s b = some x ∧ x.status = BlockStatus.free := by
    intro n i hi h
    obtain ⟨k, _, h2⟩ := findWindow_eq h
    obtain ⟨h3, _, h4⟩ := findFreeOf_eq h2
    exact ⟨by omega, h4⟩
  have hany : ∀ {n i}, 1 ≤ i → findFree (hdrAt g s) n i = some (some b) →
      1 ≤ b ∧ ∃ x, hdrAt g s b = some x ∧ x.status = BlockStatus.free := by
    intro n i hi h
    obtain ⟨h3, _, h4⟩ := findFree_eq h
    exact ⟨by omega, h4⟩
  have hE := g.scratch_fits
  unfold searchBlock at h
  simp only at h
  generalize (if hint < firstBlock then firstBlock else hint) = hint' at h
  split at h
  · rcases orSearch_eq h with h | h
    · exact hany (by omega) h
    · rcases orSearch_eq h with h | h
      · refine hwin ?_ h
        have := Nat.mod_lt hint' (show g.eraseable > 0 by omega)
        omega
      · exact hany (le_refl 1) h
  · rcases orSearch_eq h with h | h
    · exact hwin (le_refl 1) h
    · exact hany (le_refl 1) h

/-! ### The allocated block -/

/-- An erased block with its new header. -/
def freshBlock (sn : Nat) (type : UInt8) : Bytes :=
  overwrite blankBlock 0 (BlockHdr.toBytes ⟨sn, type, BlockStatus.opened⟩)

@[simp] theorem freshBlock_status (sn : Nat) (type : UInt8) :
    freshBlock sn type 5 = BlockStatus.opened := rfl

@[simp] theorem freshBlock_type (sn : Nat) (type : UInt8) : freshBlock sn type 4 = type := rfl

theorem freshBlock_serialno {sn : Nat} (type : UInt8) (h : sn < 2 ^ 32) :
    u32 (freshBlock sn type) 0 = sn := u32_eq_of_le32 h rfl rfl rfl rfl

theorem freshBlock_blank (sn : Nat) (type : UInt8) {i : Nat} (h6 : 6 ≤ i) (h : i < 128) :
    freshBlock sn type i = 0xFF := by
  rw [freshBlock, overwrite_of_lt (Or.inr h6), blankBlock_of_lt h]

theorem live_freshBlock (sn : Nat) (type : UInt8) : Live (freshBlock sn type) := Or.inr rfl

/-- A write inside a block of the data area that does not make it look free. -/
theorem Tidy.put {s : St} {b o : Nat} {bs : List UInt8} (h : Tidy g s) (hb : b < g.total)
    (ho : o + bs.length ≤ 128) (hfit : Fits (blk s.flash b) o bs)
    (hstatus : overwrite (blk s.flash b) o bs 5 ≠ BlockStatus.free) :
    Tidy g (s.put (128 * b + o) bs) := by
  refine ⟨h.toSound.put (clears_of_fits ho hfit), ?_, ?_⟩
  · intro c hc hfree
    by_cases hcb : c = b
    · subst hcb
      rw [blk_put_self ho hfit] at hfree
      exact absurd hfree hstatus
    · rw [blk_put_ne ho hcb] at hfree ⊢
      exact h.blank c hc hfree
  · obtain ⟨k, hT⟩ := h.scratch
    refine ⟨k, (hT.congr ?_).struck _⟩
    intro a ha
    apply get_put_of_lt
    omega

/-- The result of an allocation. -/
structure Allocated (g : Geometry) (s : St) (sn : Nat) (type : UInt8) (b : Nat) (s' : St) :
    Prop where
  tidy : Tidy g s'
  ram : SameRam s s'
  pos : 1 ≤ b
  lt : b < g.total
  was : ¬Live (blk s.flash b)
  fresh : blk s'.flash b = freshBlock sn type
  rest : ∀ c < g.total, c ≠ b → blk s'.flash c = blk s.flash c ∨
    (¬Live (blk s.flash c) ∧ blk s'.flash c = blankBlock)

theorem not_live_of_free {d : Bytes} (h : d 5 = BlockStatus.free) : ¬Live d := by
  rintro (h' | h')
  · rw [h] at h'
    exact absurd h' (by decide)
  · rw [h] at h'
    exact absurd h' (by decide)

theorem wp_markAllocated {s : St} {sn b : Nat} {type : UInt8} {Q : Unit → St → Prop}
    {R : St → Prop} (hs : Tidy g s) (hpos : 1 ≤ b) (hb : b < g.total)
    (hfree : blk s.flash b 5 = BlockStatus.free)
    (hQ : ∀ s', Allocated g s sn type b s' → Q () s') : wp (markAllocated g b sn type) Q R s := by
  have hblank := hs.blank b hb hfree
  have hlen : (BlockHdr.toBytes ⟨sn, type, BlockStatus.opened⟩).length = 6 := rfl
  have hfit : Fits (blk s.flash b) 0 (BlockHdr.toBytes ⟨sn, type, BlockStatus.opened⟩) := by
    apply fits_of_blank
    intro i hi
    rw [hlen] at hi
    rw [hblank, Nat.zero_add, blankBlock_of_lt (by omega)]
  have hself := blk_put_self (by rw [hlen]; omega) hfit
  have haddr : blockAddr b = 128 * b + 0 := rfl
  have hfresh : freshBlock sn type =
    overwrite blankBlock 0 (BlockHdr.toBytes ⟨sn, type, BlockStatus.opened⟩) := rfl
  have hst : freshBlock sn type 5 ≠ BlockStatus.free := by
    rw [freshBlock_status]
    decide
  rw [hfresh] at hst
  rw [markAllocated, haddr]
  generalize BlockHdr.toBytes ⟨sn, type, BlockStatus.opened⟩ = bs at *
  apply wp_clDevWrite
  · exact reaches_block (o := 0) hs.up (by omega) (by rw [hlen]; omega)
  · exact clears_of_fits (by rw [hlen]; omega) hfit
  apply hQ
  refine ⟨hs.put hb (by rw [hlen]; omega) hfit ?_, SameRam.put _ _ _, hpos, hb,
    not_live_of_free hfree, ?_, ?_⟩
  · rw [hblank]
    exact hst
  · rw [hself, hblank, hfresh]
  · intro c _ hc
    exact Or.inl (blk_put_ne (o := 0) (by rw [hlen]; omega) hc)

theorem wp_allocBlock {s : St} {sn hint : Nat} {type : UInt8} {Q : Nat → St → Prop}
    {R : St → Prop} (hs : Tidy g s)
    (hin : ∀ b, searchBlock g (hdrAt g s) sn hint = some (some b) → b < g.total)
    (hR : (∀ b, searchBlock g (hdrAt g s) sn hint ≠ some (some b)) → R s)
    (hQ : ∀ b s', Allocated g s sn type b s' → Q b s') : wp (allocBlock g sn hint type) Q R s := by
  rw [allocBlock, wp_bind, wp_read]
  split
  · next b h =>
    have hb := hin b h
    obtain ⟨hpos, x, hx, hfree⟩ := searchBlock_free h
    rw [hdrAt_eq hs.up (by omega)] at hx
    obtain rfl := Option.some.inj hx
    rw [wp_bind]
    apply wp_markAllocated hs hpos hb hfree
    intro s' h'
    rw [wp_pure]
    exact hQ b s' h'
  · next h =>
    rw [wp_fail]
    exact hR h

/-! ### Room in the scratch area -/

/-- The erase sections are small enough that the copies of a section always fit. -/
def SmallSections (g : Geometry) : Prop := g.eraseable * 3 / 4 ≤ 31

/-- No section that may be reclaimed has more blocks in use than the scratch area takes. -/
def Roomy (g : Geometry) (V : Nat → Bytes) : Prop :=
  ∀ k < g.sections, ∀ written ∈ copiesOf g V (g.eraseable * 3 / 4) k, written ≤ scratchEntries

instance (g : Geometry) (V : Nat → Bytes) : Decidable (Roomy g V) :=
  inferInstanceAs (Decidable (∀ k < g.sections, ∀ written ∈ copiesOf g V (g.eraseable * 3 / 4) k, _))

theorem SmallSections.roomy (h : SmallSections g) (V : Nat → Bytes) : Roomy g V := by
  intro k _ written hcopies
  have hlt := lt_of_copiesOf hcopies
  unfold SmallSections at h
  show written ≤ 30
  omega

theorem copiesOf_mono {V : Nat → Bytes} {m m' k written : Nat} (h : copiesOf g V m k = some written) (hm : m ≤ m') :
    copiesOf g V m' k = some written := by
  unfold copiesOf at h ⊢
  split at h
  · split_ifs at h with hlt
    rwa [if_pos (Nat.lt_of_lt_of_le hlt hm)]
  · exact absurd h (by simp)

/-- What a call may do to a block without making more sections fit to be reclaimed. -/
def Kept (d d' : Bytes) : Prop :=
  (d' 5 = d 5 ∧ u32 d' 0 = u32 d 0) ∨ (¬Live d ∧ d' 5 = BlockStatus.free) ∨ d' 5 = BlockStatus.opened ∨
    (d' 5 = BlockStatus.closed ∧ u32 d' 0 = clSerialnoList)

theorem writtenIn_kept {V V' : Nat → Bytes} {n i w r : Nat} (hV : ∀ c, i ≤ c → c < i + n → Kept (V c) (V' c))
    (h : writtenIn (hdrOf V') n i w = some (some r)) : writtenIn (hdrOf V) n i w = some (some r) := by
  induction n generalizing i w with
  | zero => exact h
  | succ n ih =>
    have hrest : ∀ c, i + 1 ≤ c → c < i + 1 + n → Kept (V c) (V' c) := fun c hc hc' => hV c (by omega) (by omega)
    simp only [writtenIn, hdrOf, BlockHdr.ofBytes] at h ⊢
    rcases hV i (Nat.le_refl i) (by omega) with ⟨hstatus, hserial⟩ | ⟨hlive, hfree⟩ | hopen | ⟨hclosed, hserial⟩
    · rw [hstatus, hserial] at h
      split_ifs at h ⊢ <;> first | exact ih hrest h | exact h
    · -- block 0 is the only free one that may stay
      have hclosed : V i 5 ≠ BlockStatus.closed := fun hc => hlive (.inl hc)
      have hopen : V i 5 ≠ BlockStatus.opened := fun ho => hlive (.inr ho)
      rw [hfree, if_neg (by decide), if_neg (by decide)] at h
      by_cases hzero : i = 0
      · rw [if_neg fun hno => hno.2 hzero] at h
        rw [if_neg hclosed, if_neg hopen, if_neg fun hno => hno.2 hzero]
        exact ih hrest h
      · rw [if_pos ⟨rfl, hzero⟩] at h
        exact absurd h (by simp)
    · rw [hopen, if_neg (by decide), if_pos rfl] at h
      exact absurd h (by simp)
    · rw [hclosed, if_pos rfl, hserial, if_pos rfl] at h
      exact absurd h (by simp)

theorem Roomy.of_kept {V V' : Nat → Bytes} (h : Roomy g V) (hV : ∀ c < g.total, Kept (V c) (V' c)) : Roomy g V' := by
  intro k hk written hcopies
  apply h k hk written
  have hle : k * g.eraseable + g.eraseable ≤ g.total := by
    rw [← Nat.succ_mul]
    exact Nat.mul_le_mul_right _ hk
  unfold copiesOf at hcopies ⊢
  split at hcopies
  · next r hw =>
    rw [writtenIn_kept (fun c _ hc => hV c (by omega)) hw]
    exact hcopies
  · exact absurd hcopies (by simp)

theorem Kept.refl (d : Bytes) : Kept d d := .inl ⟨rfl, rfl⟩

theorem Kept.trans {d d' d'' : Bytes} (h : Kept d d') (h' : Kept d' d'') : Kept d d'' := by
  rcases h' with ⟨hstatus, hserial⟩ | ⟨hlive, hfree⟩ | hopen | hclosed
  · unfold Kept
    rw [hstatus, hserial]
    exact h
  · rcases h with ⟨hstatus, -⟩ | ⟨hdead, -⟩ | hopen | ⟨hclosed, -⟩
    · refine .inr (.inl ⟨fun hl => hlive ?_, hfree⟩)
      unfold Live
      rwa [hstatus]
    · exact .inr (.inl ⟨hdead, hfree⟩)
    · exact absurd (.inr hopen) hlive
    · exact absurd (.inl hclosed) hlive
  · exact .inr (.inr (.inl hopen))
  · exact .inr (.inr (.inr hclosed))

theorem Roomy.reclaimed {s s' : St} (h : Roomy g (blk s.flash)) (hr : Reclaimed g s s') : Roomy g (blk s'.flash) := by
  apply h.of_kept
  intro c hc
  rcases hr c hc with hsame | ⟨hdead, hblank⟩
  · rw [hsame]
    exact Kept.refl _
  · rw [hblank]
    exact .inr (.inl ⟨hdead, rfl⟩)

/-! ### Allocations that fail -/

theorem Allocated.of_reclaimed {s s₁ s' : St} {sn b : Nat} {type : UInt8}
    (hr : Reclaimed g s s₁) (hram : SameRam s s₁) (h : Allocated g s₁ sn type b s') :
    Allocated g s sn type b s' where
  tidy := h.tidy
  ram := hram.trans h.ram
  pos := h.pos
  lt := h.lt
  was hl := h.was ((hr.live_iff h.lt).mpr hl)
  fresh := h.fresh
  rest c hc hcb := by
    rcases hr c hc with h1 | ⟨h1, h2⟩
    · rcases h.rest c hc hcb with h3 | ⟨h3, h4⟩
      · exact Or.inl (h3.trans h1)
      · exact Or.inr ⟨h1 ▸ h3, h4⟩
    · rcases h.rest c hc hcb with h3 | ⟨_, h4⟩
      · exact Or.inr ⟨h1, h3.trans h2⟩
      · exact Or.inr ⟨h1, h4⟩

theorem Reclaimed.kept {s s' : St} (h : Reclaimed g s s') {c : Nat} (hc : c < g.total) :
    Kept (blk s.flash c) (blk s'.flash c) := by
  rcases h c hc with hsame | ⟨hdead, hblank⟩
  · rw [hsame]
    exact Kept.refl _
  · rw [hblank]
    exact .inr (.inl ⟨hdead, rfl⟩)

theorem Allocated.kept {s s' : St} {sn b : Nat} {type : UInt8} (h : Allocated g s sn type b s') {c : Nat}
    (hc : c < g.total) : Kept (blk s.flash c) (blk s'.flash c) := by
  by_cases hcb : c = b
  · subst hcb
    rw [h.fresh]
    exact .inr (.inr (.inl (freshBlock_status _ _)))
  · rcases h.rest c hc hcb with hsame | ⟨hdead, hblank⟩
    · rw [hsame]
      exact Kept.refl _
    · rw [hblank]
      exact .inr (.inl ⟨hdead, rfl⟩)

/-- At most one of the free blocks has been used. -/
def UsesOne (g : Geometry) (V V' : Nat → Bytes) : Prop :=
  ∃ b, ∀ c < g.total, c ≠ b → V c 5 = BlockStatus.free → V' c 5 = BlockStatus.free

theorem Allocated.usesOne {s s' : St} {sn b : Nat} {type : UInt8} (h : Allocated g s sn type b s') :
    UsesOne g (blk s.flash) (blk s'.flash) := by
  refine ⟨b, fun c hc hcb hfree => ?_⟩
  rcases h.rest c hc hcb with hsame | ⟨-, hblank⟩
  · rwa [hsame]
  · rw [hblank]
    rfl

theorem UsesOne.of_status {V V' V'' : Nat → Bytes} (h : UsesOne g V V')
    (hV : ∀ c < g.total, V' c 5 = BlockStatus.free → V'' c 5 = BlockStatus.free) : UsesOne g V V'' := by
  obtain ⟨b, hb⟩ := h
  exact ⟨b, fun c hc hcb hfree => hV c hc (hb c hc hcb hfree)⟩

/-- What `reclaimAndAlloc` leaves when there is no block to be had. -/
def OutOfBlocks (g : Geometry) (s s' : St) : Prop :=
  Roomy g (blk s.flash) → Tidy g s' ∧ SameRam s s' ∧ Reclaimed g s s'

/-- A block of the data area as the hint, or none if the search ends in the data area. -/
def HintFits (g : Geometry) (s : St) (sn hint : Nat) : Prop :=
  hint < g.total ∨ hint = blockInvalid ∧ Offers g s sn

/-- What a failed allocation leaves; the search that came first has found nothing. -/
structure Refused (g : Geometry) (s s' : St) : Prop where
  refused : .refused ∈ s'.log
  searched : ∃ sn hint, HintFits g s sn hint ∧ ∀ b, searchBlock g (hdrAt g s) sn hint ≠ some (some b)
  left : OutOfBlocks g s s'

theorem OutOfBlocks.refuse {s s' : St} {sn hint : Nat} (h : OutOfBlocks g s s') (hhint : HintFits g s sn hint)
    (hnone : ∀ b, searchBlock g (hdrAt g s) sn hint ≠ some (some b)) : Refused g s s'.refuse where
  refused := List.mem_cons_self
  searched := ⟨sn, hint, hhint, hnone⟩
  left hroom := by
    obtain ⟨h1, h2, h3⟩ := h hroom
    refine ⟨{ up := h1.up, log := logOk_refuse h1.log, blank := h1.blank, scratch := h1.scratch },
      ⟨h2.listBlock, h2.serialno, h2.up, ?_⟩, h3⟩
    exact fun _ he => List.mem_cons_of_mem _ (h2.log he)

theorem wp_reclaimAndAlloc {sn hint : Nat} {type : UInt8} {Q : Nat → St → Prop} {R : St → Prop}
    (bounds : List Nat) (hbounds : ∀ m ∈ bounds, m ≤ g.eraseable * 3 / 4) {s : St}
    (hs : Tidy g s) (hhint : HintOk g (blk s.flash) sn hint)
    (hR : ∀ s', OutOfBlocks g s s' → R s')
    (hQ : ∀ b s', Allocated g s sn type b s' → Q b s') :
    wp (reclaimAndAlloc g sn hint type bounds) Q R s := by
  induction bounds generalizing s with
  | nil =>
    rw [reclaimAndAlloc, wp_fail]
    exact hR s fun _ => ⟨hs, SameRam.refl s, Reclaimed.refl s⟩
  | cons m bounds ih =>
    rw [reclaimAndAlloc, wp_bind]
    apply wp_eraseDirtyBlocks hs
    · rintro ⟨k, hk, written, hcopies, h30⟩ s'
      apply hR s'
      intro hroom
      have hle := hroom k hk written (copiesOf_mono hcopies (hbounds m List.mem_cons_self))
      exact absurd hle (Nat.not_le.mpr h30)
    · intro s₁ hs1 hr1 hrec1
      have hhint1 : HintOk g (blk s₁.flash) sn hint := by
        rcases hhint with h | ⟨h1, h2⟩
        · exact Or.inl h
        · exact Or.inr ⟨h1, h2.reclaimed hrec1⟩
      rw [wp_bind, wp_attempt]
      apply wp_allocBlock hs1 (fun b h => searchBlock_eq hs1.up hhint1 h)
      · intro _
        apply ih (fun m hm => hbounds m (List.mem_cons_of_mem _ hm)) hs1 hhint1
        · intro s' h
          apply hR s'
          intro hroom
          obtain ⟨h1, h2, h3⟩ := h (hroom.reclaimed hrec1)
          exact ⟨h1, hr1.trans h2, hrec1.trans h3⟩
        · intro b s' h
          exact hQ b s' (h.of_reclaimed hrec1 hr1)
      · intro b s' h
        rw [wp_pure]
        exact hQ b s' (h.of_reclaimed hrec1 hr1)

theorem wp_clBlockAlloc {s : St} {sn hint : Nat} {type : UInt8} {Q : Nat → St → Prop}
    {R : St → Prop} (hs : Tidy g s) (hhint : HintFits g s sn hint)
    (hR : ∀ s', Refused g s s' → R s')
    (hQ : ∀ b s', Allocated g s sn type b s' → Q b s') :
    wp (clBlockAlloc g sn hint type) Q R s := by
  have hbounds : ∀ m ∈ reclaimBounds g, m ≤ g.eraseable * 3 / 4 := by
    intro m hm
    simp only [reclaimBounds, List.mem_cons, List.not_mem_nil, or_false] at hm
    omega
  -- what follows a search that has found nothing
  have hreclaim : ∀ done : Option Nat → Cmd St Nat, (∀ b, done (some b) = pure b) →
      (done none = do
        .modify St.refuse
        .fail) → HintOk g (blk s.flash) sn hint → (∀ b, searchBlock g (hdrAt g s) sn hint ≠ some (some b)) →
      wp ((reclaimAndAlloc g sn hint type (reclaimBounds g)).attempt >>= done) Q R s := by
    intro done hsome hno h hnone
    rw [wp_bind, wp_attempt]
    apply wp_reclaimAndAlloc _ hbounds hs h
    · intro s' h'
      rw [hno, wp_bind, wp_modify, wp_fail]
      exact hR _ (h'.refuse hhint hnone)
    · intro b s' h'
      rw [hsome, wp_pure]
      exact hQ b s' h'
  rw [clBlockAlloc, wp_bind, wp_attempt]
  rcases hhint with hlt | ⟨rfl, ⟨b, hb, hfound⟩ | hlast⟩
  · apply wp_allocBlock hs (fun b h => searchBlock_eq hs.up (Or.inl hlt) h)
    · exact hreclaim _ (fun _ => rfl) rfl (Or.inl hlt)
    · intro b s' h
      rw [wp_pure]
      exact hQ b s' h
  · apply wp_allocBlock hs
    · intro c hc
      obtain rfl : b = c := by simpa using hfound.symm.trans hc
      exact hb
    · intro hnone
      exact absurd hfound (hnone b)
    · intro b s' h
      rw [wp_pure]
      exact hQ b s' h
  · apply wp_allocBlock hs (fun b h => searchBlock_eq hs.up (Or.inr ⟨rfl, hlast⟩) h)
    · exact hreclaim _ (fun _ => rfl) rfl (Or.inr ⟨rfl, hlast⟩)
    · intro b s' h
      rw [wp_pure]
      exact hQ b s' h

end CoActionOS.Cafs
