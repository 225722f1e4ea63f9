import CoActionOS.Lib.Run
import CoActionOS.Cafs.AllocExact

/-!
# Reclamation behind an allocation

The layers above the blocks use the device through `BlockCall`s: they allocate, and they write into blocks that are not
free.  `Ready` is what all these calls keep, and what an allocation needs: free blocks are erased, no other status than
the four is on the medium, and no entry of the scratch table is pending.

An allocation may go through several rounds of reclamation.  `afterRound` says what a round leaves of the data area,
so that `AllocFits` can say of the medium before the call that no search of the call runs into the scratch area and no
round reclaims a section with more blocks in use than the scratch area takes.
-/

namespace CoActionOS.Cafs

open Cmd

variable {g : Geometry} {V V' : Nat → Bytes} {sn hint : Nat}

/-! ### Searches that stay in the data area -/

/-- A hint that names a block of the data area, or no block. -/
def ProperHint (g : Geometry) (hint : Nat) : Prop := hint < g.total ∨ hint = blockInvalid

instance (g : Geometry) (hint : Nat) : Decidable (ProperHint g hint) := inferInstanceAs (Decidable (_ ∨ _))

/-- The search without a hint reads the start of the scratch area: no window offers a block of the data area, and the
last one passes over all of its blocks in the data area. -/
def ReadsScratch (g : Geometry) (V : Nat → Bytes) (sn hint : Nat) : Prop :=
  hint = blockInvalid ∧
    (∀ k < g.sections, ∀ b < g.total,
      ¬Offered V sn (firstBlock + k * g.eraseable) (firstBlock + k * g.eraseable + g.eraseable) b) ∧
    ∀ b, g.total < b + g.eraseable → b < g.total → PassedOver V sn b

theorem nextSection_le_total (h : hint < g.total) :
    ∃ q, nextSection g hint = q * g.eraseable ∧ nextSection g hint ≤ g.total := by
  have hpos := g.scratch_fits
  refine ⟨hint / g.eraseable + 1, ?_, ?_⟩
  · have hdiv := Nat.div_add_mod hint g.eraseable
    have hmod := Nat.mod_lt hint (show g.eraseable > 0 by omega)
    rw [Nat.succ_mul, Nat.mul_comm (hint / g.eraseable), nextSection]
    omega
  · exact nextSection_le_mul h

/-- Windows that start at the start of a section end in the data area. -/
theorem scanOffers_lt {q b : Nat} (h : ScanOffers g V sn (q * g.eraseable) b) : b < g.total := by
  obtain ⟨k, hk, hoff, _⟩ := h
  have hlt := hoff.lt
  rw [← Nat.add_mul] at hk hlt
  have hsections : q + k < g.sections := Nat.lt_of_mul_lt_mul_right hk
  have hle := Nat.mul_le_mul_right g.eraseable (Nat.succ_le_of_lt hsections)
  rw [Nat.succ_mul] at hle
  exact Nat.lt_of_lt_of_le hlt hle

theorem Taken.lt_total {b : Nat} (hhint : ProperHint g hint) (hread : ¬ReadsScratch g V sn hint)
    (h : Taken g V sn hint b) : b < g.total := by
  have hpos := g.scratch_fits
  have htotal : 31 ≤ g.total := Nat.le_trans hpos (Nat.le_mul_of_pos_left g.eraseable g.sections_pos)
  rcases hhint with hlt | rfl
  · have hstart : startHint hint < g.total := by
      rw [startHint]
      split
      · exact Nat.lt_of_lt_of_le (by decide) htotal
      · exact hlt
    obtain ⟨q, hq, hle⟩ := nextSection_le_total hstart
    have hvalid : startHint hint ≠ blockInvalid := by
      have := g.blocks_le
      simp only [blockInvalid]
      omega
    rcases h with h | ⟨_, h | ⟨_, h⟩⟩
    · exact Nat.lt_of_lt_of_le h.2.lt hle
    · rw [scanStart, if_pos hvalid, hq] at h
      exact scanOffers_lt h
    · exact h.lt
  · rcases h with h | ⟨_, h | ⟨_, h⟩⟩
    · exact absurd rfl h.1
    · by_contra hge
      apply hread
      obtain ⟨k, hk, hoff, hbefore⟩ := h
      have hstart : scanStart g (startHint blockInvalid) = firstBlock := rfl
      rw [hstart] at hk hoff hbefore
      simp only [firstBlock] at hk hoff hbefore
      -- the window that reaches `b` is the last one
      have hlast : g.total ≤ (k + 1) * g.eraseable := by
        have := hoff.lt
        rw [Nat.succ_mul]
        omega
      have hsections : g.sections ≤ k + 1 := Nat.le_of_mul_le_mul_right hlast (by omega)
      have hinside : (k + 1) * g.eraseable ≤ g.total := by
        apply Nat.mul_le_mul_right
        exact Nat.lt_of_mul_lt_mul_right (Nat.lt_of_le_of_lt (Nat.le_add_left _ 1) hk)
      refine ⟨rfl, fun k' hk' c hc hoff' => ?_, fun c hc hc' => ?_⟩
      · rcases Nat.lt_or_ge k' k with hlt | hle
        · exact hbefore k' hlt c hoff'
        · obtain rfl : k' = k := by omega
          have := hoff.unique hoff'
          omega
      · rw [Nat.succ_mul] at hinside
        exact hoff.passed c (by omega) (by omega)
    · exact h.lt

theorem ReadsScratch.congr (hV : ∀ c < g.total, V c = V' c) (h : ReadsScratch g V sn hint) :
    ReadsScratch g V' sn hint := by
  obtain ⟨hnone, hno, hpass⟩ := h
  refine ⟨hnone, fun k hk b hb hoff => ?_, fun b hb hb' => ?_⟩
  · refine hno k hk b hb ⟨hoff.le, hoff.lt, ?_, fun c hc hc' => ?_⟩
    · rw [hV b hb]
      exact hoff.free
    · unfold PassedOver
      rw [hV c (by omega)]
      exact hoff.passed c hc hc'
  · unfold PassedOver
    rw [← hV b hb']
    exact hpass b hb hb'

theorem SomeFree.congr (hV : ∀ c < g.total, V c = V' c) (h : SomeFree g V) : SomeFree g V' := by
  obtain ⟨b, hb, hb', hfree⟩ := h
  exact ⟨b, hb, hb', by rwa [← hV b hb']⟩

theorem not_stopsOff (hhint : ProperHint g hint) : ¬StopsOff g hint := by
  rintro ⟨hvalid, hle, _⟩
  rcases hhint with hlt | rfl
  · rw [startHint] at hle
    have hpos := g.scratch_fits
    have htotal : 31 ≤ g.total := Nat.le_trans hpos (Nat.le_mul_of_pos_left g.eraseable g.sections_pos)
    split at hle
    · simp only [firstBlock] at hle
      omega
    · omega
  · exact hvalid rfl

theorem wp_allocBlock_inside {s : St} {type : UInt8} {Q : Nat → St → Prop} {R : St → Prop} (hs : Tidy g s)
    (hhint : ProperHint g hint) (hread : ¬ReadsScratch g (blk s.flash) sn hint)
    (hR : ¬SomeFree g (blk s.flash) → R s) (hQ : ∀ b s', Allocated g s sn type b s' → Q b s') :
    wp (allocBlock g sn hint type) Q R s := by
  have hon := not_stopsOff hhint
  have hspec := searchBlock_spec sn hs.up hon
  apply wp_allocBlock hs
  · intro b hb
    rcases hspec with ⟨c, hc, htaken⟩ | ⟨hnone, _⟩
    · obtain rfl : c = b := by simpa using hc.symm.trans hb
      exact htaken.lt_total hhint hread
    · exact absurd (hnone.symm.trans hb) (by simp)
  · intro hno
    rcases hspec with ⟨c, hc, _⟩ | ⟨_, _, hfree⟩
    · exact absurd hc (hno c)
    · exact hR (not_someFree hfree)
  · exact hQ

/-! ### Rounds -/

/-- From the medium `V`, no round with these bounds makes more copies than the scratch area takes, and no search after
one of them runs into the scratch area. -/
def RoundsFit (g : Geometry) (sn hint : Nat) : List Nat → (Nat → Bytes) → Prop
  | [], _ => True
  | maxWritten :: more, V =>
    (∀ k < g.sections, ∀ written, copiesOf g V maxWritten k = some written → written ≤ scratchEntries) ∧
      ¬ReadsScratch g (afterRound g V maxWritten) sn hint ∧
      (¬SomeFree g (afterRound g V maxWritten) → RoundsFit g sn hint more (afterRound g V maxWritten))

/-- The same for all of `cl_block_alloc`, which goes through its rounds when no block is free. -/
def AllocFits (g : Geometry) (V : Nat → Bytes) (sn hint : Nat) : Prop :=
  ¬ReadsScratch g V sn hint ∧ (¬SomeFree g V → RoundsFit g sn hint (reclaimBounds g) V)

/-- What an allocation that finds no block leaves. -/
structure Unallocated (g : Geometry) (s s' : St) : Prop where
  tidy : Tidy g s'
  ram : SameRam s s'
  rest : Reclaimed g s s'

theorem Unallocated.of_reclaimed {s s₁ s' : St} (hr : Reclaimed g s s₁) (hram : SameRam s s₁)
    (h : Unallocated g s₁ s') : Unallocated g s s' :=
  ⟨h.tidy, hram.trans h.ram, hr.trans h.rest⟩

theorem Unallocated.refuse {s s' : St} (h : Unallocated g s s') : Unallocated g s s'.refuse where
  tidy := { up := h.tidy.up, log := logOk_refuse h.tidy.log, blank := h.tidy.blank, scratch := h.tidy.scratch }
  ram := ⟨h.ram.listBlock, h.ram.serialno, h.ram.up, fun _ he => List.mem_cons_of_mem _ (h.ram.log he)⟩
  rest := h.rest

theorem wp_reclaimAndAlloc_fits {type : UInt8} {Q : Nat → St → Prop} {R : St → Prop} (hhint : ProperHint g hint)
    (bounds : List Nat) {s : St} (hs : Tidy g s) (hV : ∀ c < g.total, blk s.flash c = V c)
    (hfits : RoundsFit g sn hint bounds V) (hR : ∀ s', Unallocated g s s' → R s')
    (hQ : ∀ b s', Allocated g s sn type b s' → Q b s') :
    wp (reclaimAndAlloc g sn hint type bounds) Q R s := by
  induction bounds generalizing s V with
  | nil =>
    rw [reclaimAndAlloc, wp_fail]
    exact hR s ⟨hs, SameRam.refl s, Reclaimed.refl s⟩
  | cons maxWritten bounds ih =>
    obtain ⟨hcopies, hread, hmore⟩ := hfits
    rw [reclaimAndAlloc, wp_bind]
    apply wp_eraseDirtyBlocks_exact hs hV
    · rintro ⟨k, hk, written, hwritten, h30⟩
      exact absurd (hcopies k hk written hwritten) (Nat.not_le.mpr h30)
    · intro s₁ hs₁ hram hleft
      have hrec := reclaimed_of_afterRound hV hleft
      have hleft' : ∀ c < g.total, afterRound g V maxWritten c = blk s₁.flash c := fun c hc => (hleft c hc).symm
      rw [wp_bind, wp_attempt]
      apply wp_allocBlock_inside hs₁ hhint fun h => hread (h.congr hleft)
      · intro hno
        apply ih hs₁ hleft (hmore fun h => hno (h.congr hleft'))
        · exact fun s' h => hR s' (h.of_reclaimed hrec hram)
        · exact fun b s' h => hQ b s' (h.of_reclaimed hrec hram)
      · intro b s' h
        rw [wp_pure]
        exact hQ b s' (h.of_reclaimed hrec hram)

theorem wp_clBlockAlloc_fits {type : UInt8} {s : St} {Q : Nat → St → Prop} {R : St → Prop} (hs : Tidy g s)
    (hhint : ProperHint g hint) (hfits : AllocFits g (blk s.flash) sn hint) (hR : ∀ s', Unallocated g s s' → R s')
    (hQ : ∀ b s', Allocated g s sn type b s' → Q b s') : wp (clBlockAlloc g sn hint type) Q R s := by
  rw [clBlockAlloc, wp_bind, wp_attempt]
  apply wp_allocBlock_inside hs hhint hfits.1
  · intro hno
    show wp (_ >>= _) Q R s
    rw [wp_bind, wp_attempt]
    apply wp_reclaimAndAlloc_fits hhint _ hs (fun _ _ => rfl) (hfits.2 hno)
    · intro s' h
      rw [wp_bind, wp_modify, wp_fail]
      exact hR _ h.refuse
    · intro b s' h
      rw [wp_pure]
      exact hQ b s' h
  · intro b s' h
    rw [wp_pure]
    exact hQ b s' h

/-! ### The calls of the layers above -/

/-- The file system on a mounted medium. -/
def mounted (f : Flash) : St := ⟨f, 0, 0, true, []⟩

inductive BlockCall
  | alloc (sn hint : Nat) (type : UInt8)
  /-- a write into block `b`, as all callers of `cl_dev_write` make but the scratch area -/
  | write (b offset : Nat) (bs : List UInt8)
  /-- the erase that formatting begins with -/
  | mkfs
  /-- what mounting does for the scratch area -/
  | mount

/-- A call of `cl_block_alloc` that has returned: the medium before, the block, the medium afterwards. -/
structure Allocation where
  before : Flash
  ret : Option Nat
  after : Flash

/-- The medium that a call leaves. -/
def leave {α : Type} (o : Outcome St α) : Option (Flash × Option Allocation) :=
  match o with
  | .ok _ s => some (s.flash, none)
  | .error s => some (s.flash, none)
  | .hang => none

def stepBlocks (g : Geometry) (f : Flash) : BlockCall → Option (Flash × Option Allocation)
  | .alloc sn hint type =>
    match clBlockAlloc g sn hint type (mounted f) with
    | .ok b s => some (s.flash, some ⟨f, some b, s.flash⟩)
    | .error s => some (s.flash, some ⟨f, none, s.flash⟩)
    | .hang => none
  | .write b offset bs => leave (clDevWrite g (blockAddr b + offset) bs (mounted f))
  | .mkfs => leave (clDevErase g (mounted f))
  | .mount => leave (clScratchInit g (mounted f))

/-- A status that a block is given. -/
def SetStatus (v : UInt8) : Prop := v = BlockStatus.opened ∨ v = BlockStatus.closed ∨ v = BlockStatus.dirty

instance (v : UInt8) : Decidable (SetStatus v) := inferInstanceAs (Decidable (_ ∨ _ ∨ _))

/-- What the layers above see to: hints are blocks of the data area, and a write stays inside a block of the data area
that is not free and gives it no other status than the three. -/
def BlockCall.Proper (g : Geometry) (f : Flash) : BlockCall → Prop
  | .alloc _ hint _ => ProperHint g hint
  | .write b offset bs =>
    b < g.total ∧ offset + bs.length ≤ 128 ∧ blk f b 5 ≠ BlockStatus.free ∧
      (offset ≤ 5 → 5 < offset + bs.length → SetStatus (bs.getD (5 - offset) 0))
  | .mkfs => True
  | .mount => True

instance (g : Geometry) (f : Flash) : DecidablePred (BlockCall.Proper g f)
  | .alloc _ hint _ => inferInstanceAs (Decidable (ProperHint g hint))
  | .write b offset bs => inferInstanceAs (Decidable (b < g.total ∧ offset + bs.length ≤ 128 ∧
      blk f b 5 ≠ BlockStatus.free ∧
      (offset ≤ 5 → 5 < offset + bs.length → SetStatus (bs.getD (5 - offset) 0))))
  | .mkfs => inferInstanceAs (Decidable True)
  | .mount => inferInstanceAs (Decidable True)

def BlockCall.Fits (g : Geometry) (f : Flash) : BlockCall → Prop
  | .alloc sn hint _ => AllocFits g (blk f) sn hint
  | _ => True

/-! ### What all calls keep -/

structure Ready (g : Geometry) (f : Flash) : Prop where
  tidy : Tidy g (mounted f)
  known : ∀ b < g.total, blk f b 5 = BlockStatus.free ∨ SetStatus (blk f b 5)

theorem Tidy.mounted {s : St} (h : Tidy g s) : Tidy g (mounted s.flash) where
  up := rfl
  log := fun _ he => absurd he List.not_mem_nil
  blank := h.blank
  scratch := h.scratch

theorem Reclaimed.known {s s' : St} (h : Reclaimed g s s')
    (hknown : ∀ b < g.total, blk s.flash b 5 = BlockStatus.free ∨ SetStatus (blk s.flash b 5)) :
    ∀ b < g.total, blk s'.flash b 5 = BlockStatus.free ∨ SetStatus (blk s'.flash b 5) := by
  intro b hb
  rcases h b hb with heq | ⟨_, heq⟩
  · rw [heq]
    exact hknown b hb
  · rw [heq]
    exact .inl rfl

theorem Ready.unallocated {f : Flash} {s' : St} (hf : Ready g f) (h : Unallocated g (mounted f) s') :
    Ready g s'.flash := ⟨h.tidy.mounted, h.rest.known hf.known⟩

theorem Ready.allocated {f : Flash} {sn b : Nat} {type : UInt8} {s' : St} (hf : Ready g f)
    (h : Allocated g (mounted f) sn type b s') : Ready g s'.flash := by
  refine ⟨h.tidy.mounted, fun c hc => ?_⟩
  by_cases hcb : c = b
  · rw [hcb, h.fresh, freshBlock_status]
    exact .inr (.inl rfl)
  · rcases h.rest c hc hcb with heq | ⟨_, heq⟩
    · rw [heq]
      exact hf.known c hc
    · rw [heq]
      exact .inl rfl

/-- Programming leaves one of the three, or what was there. -/
theorem setStatus_and {old new : UInt8} (hold : old = BlockStatus.free ∨ SetStatus old) (hnew : SetStatus new) :
    SetStatus (old &&& new) := by
  rcases hold with rfl | rfl | rfl | rfl <;> rcases hnew with rfl | rfl | rfl <;> decide

theorem Ready.write {f : Flash} {b offset : Nat} {bs : List UInt8} (hf : Ready g f) (hb : b < g.total)
    (hlen : offset + bs.length ≤ 128) (hused : blk f b 5 ≠ BlockStatus.free)
    (hstatus : offset ≤ 5 → 5 < offset + bs.length → SetStatus (bs.getD (5 - offset) 0)) :
    Ready g (f.program (128 * b + offset) bs) := by
  have hother : ∀ c, c ≠ b → blk (f.program (128 * b + offset) bs) c = blk f c :=
    fun c hc => blk_put_ne (s := mounted f) hlen hc
  have hself : SetStatus (blk (f.program (128 * b + offset) bs) b 5) := by
    have hold : SetStatus (blk f b 5) := (hf.known b hb).resolve_left hused
    rw [blk_of_lt (by decide), Flash.get_program]
    split
    · next hin =>
      have hidx : 128 * b + 5 - (128 * b + offset) = 5 - offset := by omega
      have hnew := hstatus (by omega) (by omega)
      rw [List.getD_eq_getElem _ _ (by omega)] at hnew
      rw [blk_of_lt (by decide)] at hold
      simp only [hidx]
      exact setStatus_and (.inr hold) hnew
    · rwa [blk_of_lt (by decide)] at hold
  refine ⟨⟨⟨rfl, fun _ he => absurd he List.not_mem_nil⟩, fun c hc hfree => ?_, ?_⟩, fun c hc => ?_⟩
  · by_cases hcb : c = b
    · subst hcb
      have hset : SetStatus BlockStatus.free := hfree ▸ hself
      exact absurd hset (by decide)
    · have heq : blk (mounted (f.program (128 * b + offset) bs)).flash c = blk f c := hother c hcb
      rw [heq] at hfree ⊢
      exact hf.tidy.blank c hc hfree
  · obtain ⟨k, hT⟩ := hf.tidy.scratch
    refine ⟨k, (hT.congr fun a ha => ?_).struck _⟩
    apply Flash.get_program_of_lt
    omega
  · by_cases hcb : c = b
    · subst hcb
      exact .inr hself
    · rw [hother c hcb]
      exact hf.known c hc

theorem ready_of_erased {f : Flash} (h : ∀ a < g.size, f.get a = 0xFF) : Ready g f := by
  have hpos := g.scratch_fits
  have hblank : ∀ b < g.total, blk f b = blankBlock := by
    intro b hb
    apply blk_eq_blankBlock
    intro i hi
    apply h
    rw [g.size_eq]
    omega
  refine ⟨⟨⟨rfl, fun _ he => absurd he List.not_mem_nil⟩, fun b hb _ => hblank b hb, 0, ?_⟩, fun b hb => ?_⟩
  · apply ScratchTable.of_erased
    intro a _ ha
    apply h
    rw [g.size_eq]
    omega
  · rw [hblank b hb]
    exact .inl rfl

/-- Mounting finds no pending copy. -/
theorem Ready.mount {f : Flash} (hf : Ready g f) :
    wp (clScratchInit g) (fun _ s => Ready g s.flash) (fun s => Ready g s.flash) (mounted f) := by
  obtain ⟨k, hT⟩ := hf.tidy.scratch
  have hpending : pending (List.replicate k none) = [] := by
    have := pending_map_some [] k
    rwa [List.map_nil, List.append_nil] at this
  apply wp_scratchRestoreFrom (fun b i (hi : 128 ≤ i) => (blk_of_le hi : blk f b i = 0)) 30 0 (List.replicate k none)
    hf.tidy.toSound (by decide) hT
  · exact fun b hb => absurd hb (by rw [hpending]; exact List.not_mem_nil)
  · rw [hpending]
    exact List.nodup_nil
  · exact fun b hb => absurd hb (by rw [hpending]; exact List.not_mem_nil)
  · intro s' hs' _ _ hsame hT'
    have heq : ∀ b < g.total, blk s'.flash b = blk f b := fun b hb => hsame b hb (by rw [hpending]; exact List.not_mem_nil)
    refine ⟨⟨⟨rfl, fun _ he => absurd he List.not_mem_nil⟩, fun b hb hfree => ?_, _, hT'.struck _⟩, fun b hb => ?_⟩
    · have heq' : blk (mounted s'.flash).flash b = blk f b := heq b hb
      rw [heq'] at hfree ⊢
      exact hf.tidy.blank b hb hfree
    · rw [heq b hb]
      exact hf.known b hb

/-! ### Allocations nobody notices -/

/-- The blocks in use are as they were, the block that is returned was free or dirty and is erased but for its header,
and no copy is pending. -/
structure Allocation.Invisible (g : Geometry) (e : Allocation) : Prop where
  frame : ∀ b < g.total, Live (blk e.before b) → blk e.after b = blk e.before b
  returned : ∀ b, e.ret = some b → b < g.total ∧
    ((blk e.before b 5 = BlockStatus.free ∧ ∀ i, blockHeaderSize ≤ i → blk e.after b i = blk e.before b i) ∨
      (blk e.before b 5 = BlockStatus.dirty ∧ ∀ i, blockHeaderSize ≤ i → i < blockSize → blk e.after b i = 0xFF))
  settled : ∀ n < scratchEntries, e.after.get (scratchEntryAddr g n) ≠ ScratchStatus.copied

theorem Tidy.settled {s : St} (h : Tidy g s) {n : Nat} (hn : n < 30) :
    s.flash.get (scratchEntryAddr g n) ≠ ScratchStatus.copied := by
  obtain ⟨k, hT⟩ := h.scratch
  by_cases hk : n < k
  · have hentry := hT.entry n (by rwa [List.length_replicate])
    rw [List.getElem_replicate] at hentry
    rw [← Nat.add_zero (scratchEntryAddr g n), hentry 0 (by decide)]
    decide
  · rw [← Nat.add_zero (scratchEntryAddr g n), hT.unused n (by rw [List.length_replicate]; omega) hn 0 (by decide)]
    decide

theorem Ready.invisible_error {f : Flash} {s' : St} (h : Unallocated g (mounted f) s') :
    Allocation.Invisible g ⟨f, none, s'.flash⟩ where
  frame _ hb hlive := h.rest.live hb hlive
  returned _ hret := absurd hret (by simp)
  settled _ hn := h.tidy.settled hn

theorem Ready.invisible_ok {f : Flash} {b sn : Nat} {type : UInt8} {s' : St} (hf : Ready g f)
    (h : Allocated g (mounted f) sn type b s') : Allocation.Invisible g ⟨f, some b, s'.flash⟩ where
  frame _ hc hlive := h.keep hc hlive
  returned c hret := by
    obtain rfl : b = c := Option.some.inj hret
    refine ⟨h.lt, ?_⟩
    have hfresh : blk s'.flash b = freshBlock sn type := h.fresh
    rcases hf.known b h.lt with hfree | hset
    · have hblank : blk f b = blankBlock := hf.tidy.blank b h.lt hfree
      refine .inl ⟨hfree, fun i hi => ?_⟩
      show blk s'.flash b i = blk f b i
      rw [hfresh, hblank, freshBlock, overwrite_of_lt (Or.inr hi)]
    · have hdirty : blk f b 5 = BlockStatus.dirty := by
        rcases hset with hopen | hclosed | hdirty
        · exact absurd (Or.inr hopen) h.was
        · exact absurd (Or.inl hclosed) h.was
        · exact hdirty
      refine .inr ⟨hdirty, fun i hi hi' => ?_⟩
      show blk s'.flash b i = 0xFF
      rw [hfresh, freshBlock_blank _ _ hi hi']
  settled _ hn := h.tidy.settled hn

/-- The step: a call of the layers above keeps the medium ready, and an allocation that fits is invisible. -/
theorem Ready.step {f f' : Flash} {call : BlockCall} {e : Option Allocation} (hf : Ready g f)
    (hproper : call.Proper g f) (hfits : call.Fits g f) (hstep : stepBlocks g f call = some (f', e)) :
    Ready g f' ∧ ∀ a ∈ e.toList, a.Invisible g := by
  cases call with
  | alloc sn hint type =>
    have h : wp (clBlockAlloc g sn hint type) (fun b s' => Allocated g (mounted f) sn type b s')
        (fun s' => Unallocated g (mounted f) s') (mounted f) :=
      wp_clBlockAlloc_fits hf.tidy hproper hfits (fun _ h => h) (fun _ _ h => h)
    -- an allocation may fail, but leaves the medium ready in any case
    unfold Cmd.wp at h
    simp only [stepBlocks] at hstep
    generalize clBlockAlloc g sn hint type (mounted f) = o at h hstep
    cases o with
    | ok b s' =>
      obtain ⟨rfl, rfl⟩ := Prod.mk.inj (Option.some.inj hstep)
      refine ⟨hf.allocated h, fun a ha => ?_⟩
      obtain rfl := List.mem_singleton.mp ha
      exact hf.invisible_ok h
    | error s' =>
      obtain ⟨rfl, rfl⟩ := Prod.mk.inj (Option.some.inj hstep)
      refine ⟨hf.unallocated h, fun a ha => ?_⟩
      obtain rfl := List.mem_singleton.mp ha
      exact Ready.invisible_error h
    | hang => exact absurd h id
  | write b offset bs =>
    obtain ⟨hb, hlen, hused, hstatus⟩ := hproper
    have hready := hf.write hb hlen hused hstatus
    -- the block is on the device, so that the write takes place
    have hreach : (mounted f).reaches g (blockAddr b + offset) bs.length = true :=
      reaches_block rfl (Nat.lt_of_lt_of_le hb (Nat.le_add_right _ _)) hlen
    have hleave : leave (clDevWrite g (blockAddr b + offset) bs (mounted f)) =
        some (f.program (128 * b + offset) bs, none) := by
      rw [clDevWrite, if_pos hreach]
      split <;> rfl
    obtain ⟨rfl, rfl⟩ := Prod.mk.inj (Option.some.inj (hleave.symm.trans hstep))
    exact ⟨hready, fun a ha => absurd ha List.not_mem_nil⟩
  | mkfs =>
    obtain ⟨rfl, rfl⟩ := Prod.mk.inj (Option.some.inj hstep)
    refine ⟨ready_of_erased fun a ha => ?_, fun a ha => absurd ha List.not_mem_nil⟩
    show ((mounted f).flash.erase 0 g.size).get a = 0xFF
    rw [Flash.get_erase, if_pos ⟨Nat.zero_le a, by rwa [Nat.zero_add]⟩]
  | mount =>
    have h := hf.mount
    unfold Cmd.wp at h
    simp only [stepBlocks] at hstep
    generalize clScratchInit g (mounted f) = o at h hstep
    cases o with
    | ok _ s' =>
      obtain ⟨rfl, rfl⟩ := Prod.mk.inj (Option.some.inj hstep)
      exact ⟨h, fun a ha => absurd ha List.not_mem_nil⟩
    | error s' =>
      obtain ⟨rfl, rfl⟩ := Prod.mk.inj (Option.some.inj hstep)
      exact ⟨h, fun a ha => absurd ha List.not_mem_nil⟩
    | hang => exact absurd h id

/-- A list block, thirty blocks of a file in the second section, which are then discarded, and a header. -/
def overrun : List BlockCall :=
  [.alloc clSerialnoList blockInvalid BlockType.serialnoList, .write 1 5 [BlockStatus.closed]] ++
    List.replicate 30 (.alloc 5 31 BlockType.fileData) ++
    (List.range 30).map (fun i => .write (32 + i) 5 [BlockStatus.dirty]) ++
    [.alloc 252 blockInvalid BlockType.fileHdr]

end CoActionOS.Cafs
