import CoActionOS.Cafs.Scratch

/-!
# Reclaiming sections

The step lemma is `wp_eraseDirtyBlock`: copying the blocks in use of a section away, erasing the
section and copying them back leaves every block in use as it was.  `wp_eraseDirtyBlocks` is the same
for all sections.
-/

namespace CoActionOS.Cafs

open Cmd

variable {g : Geometry}

/-! ### Copying back -/

/-- A pending copy goes back to its block, which has been erased. -/
theorem wp_restoreBlock {s : St} {img : Nat → Bytes} {n b : Nat} {Q : Unit → St → Prop}
    {R : St → Prop} (hs : Sound s) (hn : n < 30) (hb : b < g.total)
    (hcopy : ∀ i < 128, s.flash.get (scratchBlockAddr g n + i) = img b i)
    (hblank : blk s.flash b = blankBlock) (hcut : ∀ i, 128 ≤ i → img b i = 0)
    (hQ : ∀ s', Sound s' → SameRam s s' → blk s'.flash b = img b →
      (∀ c ≠ b, blk s'.flash c = blk s.flash c) →
      (∀ a, 128 * g.total ≤ a → s'.flash.get a = s.flash.get a) → Q () s') :
    wp (restoreBlock g b n) Q R s := by
  rw [restoreBlock, wp_bind]
  apply wp_clDevRead (reaches_scratchBlock hs.up hn)
  -- what is read from the scratch area is the image
  set d : Bytes := fun i => if i < blockSize then s.flash.get (scratchBlockAddr g n + i) else 0
  have hd : d = img b := by
    funext i
    by_cases hi : i < 128
    · rw [← hcopy i hi]
      exact if_pos hi
    · rw [hcut i (by omega)]
      exact if_neg hi
  have hlen : (slice d 0 blockSize).length = 128 := length_slice _ _ _
  have hfit : Fits (blk s.flash b) 0 (slice d 0 blockSize) := by
    apply fits_of_blank
    intro i hi
    rw [hlen] at hi
    rw [hblank, Nat.zero_add, blankBlock_of_lt hi]
  -- the block is erased, so that the image can be written
  have hc := clears_of_fits (by omega) hfit
  apply wp_clDevWrite
  · rw [hlen]
    exact reaches_block (o := 0) hs.up (by omega) (by omega)
  · exact hc
  apply hQ
  · exact hs.put hc
  · exact SameRam.put _ _ _
  · refine (blk_put_self (by omega) hfit).trans ?_
    funext i
    by_cases hi : i < 128
    · have h1 : i < (slice d 0 blockSize).length := by omega
      have h2 := overwrite_add (d := blk s.flash b) (o := 0) h1
      rw [Nat.zero_add] at h2
      rw [h2, getElem_slice, Nat.zero_add, hd]
    · rw [overwrite_of_lt (by omega), blk_of_le (by omega), hcut i (by omega)]
  · intro c hc
    exact blk_put_ne (o := 0) (by omega) hc
  · intro a ha
    apply get_put_of_lt
    rw [hlen]
    show a < 128 * b ∨ 128 * b + 128 ≤ a
    omega

/-- Striking an entry that has been restored. -/
theorem wp_strikeScratchEntry {s : St} {n : Nat} {Q : Unit → St → Prop} {R : St → Prop}
    (hs : Sound s) (hn : n < 30)
    (hQ : ∀ s', Sound s' → SameRam s s' → (∀ i < 4, s'.flash.get (scratchEntryAddr g n + i) = 0) →
      (∀ a, a < scratchEntryAddr g n ∨ scratchEntryAddr g n + 4 ≤ a →
        s'.flash.get a = s.flash.get a) → Q () s') :
    wp (strikeScratchEntry g n) Q R s := by
  have h0 : ∀ (i : Nat) (hi : i < [(0 : UInt8), 0, 0, 0].length), [(0 : UInt8), 0, 0, 0][i] = 0 := by
    decide
  have hc : s.flash.Clears (scratchEntryAddr g n) [0, 0, 0, 0] := by
    intro i hi
    rw [h0 i hi]
    exact UInt8.zero_and
  apply wp_clDevWrite (reaches_entry hs.up hn) hc
  apply hQ
  · exact hs.put hc
  · exact SameRam.put _ _ _
  · intro i hi
    rw [get_put hc i hi, h0 i hi]
  · intro a ha
    exact get_put_of_lt ha

/-- The blocks with a pending copy. -/
def pending (L : List (Option Nat)) : List Nat := L.filterMap id

/-- Copying back from the `i`-th entry on: the entries before it have been struck. -/
theorem wp_scratchRestoreFrom {img : Nat → Bytes} (hcut : ∀ b i, 128 ≤ i → img b i = 0)
    {Q : Unit → St → Prop} {R : St → Prop} (n i : Nat) (L : List (Option Nat)) {s : St}
    (hs : Sound s) (hi : i + n = 30)
    (hT : ScratchTable g s.flash img (List.replicate i none ++ L))
    (hb : ∀ b ∈ pending L, b < g.total) (hnd : (pending L).Nodup)
    (hblank : ∀ b ∈ pending L, blk s.flash b = blankBlock)
    (hQ : ∀ s', Sound s' → SameRam s s' → (∀ b ∈ pending L, blk s'.flash b = img b) →
      (∀ b < g.total, b ∉ pending L → blk s'.flash b = blk s.flash b) →
      ScratchTable g s'.flash img (List.replicate (i + L.length) none) → Q () s') :
    wp (scratchRestoreFrom g n i) Q R s := by
  induction n generalizing i L s with
  | zero =>
    have hL : L = [] := by
      have := hT.length_le
      simp only [List.length_append, List.length_replicate] at this
      exact List.length_eq_zero_iff.mp (by omega)
    subst hL
    rw [scratchRestoreFrom, wp_pure]
    exact hQ s hs (SameRam.refl s) (by simp [pending]) (fun _ _ _ => rfl) (by simpa using hT)
  | succ n ih =>
    rw [scratchRestoreFrom, wp_bind]
    apply wp_loadScratchEntry hs.up (by omega)
    cases L with
    | nil =>
      have hu := hT.unused i (by simp) (by omega) 0 (by omega)
      rw [ofBytes_status, if_pos hu, wp_pure]
      exact hQ s hs (SameRam.refl s) (by simp [pending]) (fun _ _ _ => rfl) (by simpa using hT)
    | cons e L =>
      have hlen := hT.length_le
      simp only [List.length_append, List.length_replicate, List.length_cons] at hlen
      have he := hT.entry i (by simp)
      rw [List.getElem_append_right (by simp)] at he
      simp only [List.length_replicate, Nat.sub_self, List.getElem_cons_zero] at he
      have hrep : List.replicate i (none : Option Nat) ++ none :: L =
          List.replicate (i + 1) none ++ L := by
        rw [List.replicate_succ', List.append_assoc, List.singleton_append]
      cases e with
      | none =>
        have h0 : s.flash.get (scratchEntryAddr g i + 0) = 0 := he 0 (by omega)
        rw [ofBytes_status, h0, if_neg (by decide), if_neg (by decide)]
        rw [hrep] at hT
        apply ih (i + 1) L hs (by omega) hT hb hnd hblank
        intro s' h1 h2 h3 h4 h5
        apply hQ s' h1 h2 h3 h4
        rwa [List.length_cons, Nat.add_comm L.length 1, ← Nat.add_assoc]
      | some b =>
        have hpend : pending (some b :: L) = b :: pending L := rfl
        rw [hpend] at hb hnd hblank hQ
        have hbt := hb b List.mem_cons_self
        have hgb := g.blocks_le
        have hst : (copiedEntry b).status ≠ ScratchStatus.unused := by
          show (0xFC : UInt8) ≠ 0xFF
          decide
        have hco : (copiedEntry b).status = ScratchStatus.copied := rfl
        rw [ofBytes_of_slice (by omega) he.1, if_neg hst, if_pos hco, wp_bind]
        apply wp_when _ (fun h => absurd (sum_copiedEntry b) h)
        intro _
        apply wp_restoreBlock hs (by omega) hbt he.2 (hblank b List.mem_cons_self) (hcut b)
        intro s₁ hs1 hr1 hself hother hscr
        rw [wp_bind]
        apply wp_strikeScratchEntry hs1 (by omega)
        intro s₂ hs2 hr2 hzero hsame
        -- a block of the data area is untouched by striking
        have hdata : ∀ c < g.total, blk s₂.flash c = blk s₁.flash c := by
          intro c hc
          apply blk_ext
          intro j hj
          apply hsame
          rw [scratchEntryAddr_eq]
          omega
        have hnotin : b ∉ pending L := (List.nodup_cons.mp hnd).1
        apply ih (i + 1) L hs2 (by omega)
        · have hset : (List.replicate i none ++ some b :: L).set i none = List.replicate (i + 1) none ++ L := by
            rw [← hrep, List.set_append_right _ _ (by simp), List.length_replicate, Nat.sub_self, List.set_cons_zero]
          rw [← hset]
          exact (hT.congr hscr).strike (by simp) hzero hsame
        · intro c hc
          exact hb c (List.mem_cons_of_mem b hc)
        · exact (List.nodup_cons.mp hnd).2
        · intro c hc
          rw [hdata c (hb c (List.mem_cons_of_mem b hc)), hother c (fun h => hnotin (h ▸ hc))]
          exact hblank c (List.mem_cons_of_mem b hc)
        · intro s' h1 h2 h3 h4 h5
          apply hQ s' h1 ((hr1.trans hr2).trans h2)
          · intro c hc
            rcases List.mem_cons.mp hc with rfl | hc
            · rw [h4 c hbt hnotin, hdata c hbt, hself]
            · exact h3 c hc
          · intro c hct hc
            have hcb : c ≠ b := fun h => hc (h ▸ List.mem_cons_self)
            rw [h4 c hct (fun h => hc (List.mem_cons_of_mem b h)), hdata c hct, hother c hcb]
          · rwa [List.length_cons, Nat.add_comm L.length 1, ← Nat.add_assoc]

/-! ### One section -/

/-- The blocks in use among the `n` from `i` on. -/
def liveIn (V : Nat → Bytes) : Nat → Nat → List Nat
  | 0, _ => []
  | n + 1, i => if Live (V i) then i :: liveIn V n (i + 1) else liveIn V n (i + 1)

theorem mem_liveIn {V : Nat → Bytes} {n i b : Nat} :
    b ∈ liveIn V n i ↔ i ≤ b ∧ b < i + n ∧ Live (V b) := by
  induction n generalizing i with
  | zero => simp [liveIn]; omega
  | succ n ih =>
    rw [liveIn]
    split
    · next h =>
      rw [List.mem_cons, ih]
      constructor
      · rintro (rfl | ⟨h1, h2, h3⟩)
        · exact ⟨le_refl _, by omega, h⟩
        · exact ⟨by omega, by omega, h3⟩
      · rintro ⟨h1, h2, h3⟩
        by_cases hb : b = i
        · exact Or.inl hb
        · exact Or.inr ⟨by omega, by omega, h3⟩
    · next h =>
      rw [ih]
      constructor
      · rintro ⟨h1, h2, h3⟩
        exact ⟨by omega, by omega, h3⟩
      · rintro ⟨h1, h2, h3⟩
        have hb : b ≠ i := fun hb => h (hb ▸ h3)
        exact ⟨by omega, by omega, h3⟩

theorem nodup_liveIn (V : Nat → Bytes) (n i : Nat) : (liveIn V n i).Nodup := by
  induction n generalizing i with
  | zero => exact List.nodup_nil
  | succ n ih =>
    rw [liveIn]
    split
    · rw [List.nodup_cons]
      refine ⟨fun h => ?_, ih (i + 1)⟩
      have := (mem_liveIn.mp h).1
      omega
    · exact ih (i + 1)

/-- Which blocks are in use is not changed by copying them to the scratch area. -/
theorem blk_of_data {f f' : Flash} (h : ∀ a < 128 * g.total, f'.get a = f.get a) {c : Nat}
    (hc : c < g.total) : blk f' c = blk f c :=
  blk_ext fun i hi => h _ (by omega)

theorem live_ofBytes (d : Bytes) :
    ((BlockHdr.ofBytes d).status = BlockStatus.closed ∨
      (BlockHdr.ofBytes d).status = BlockStatus.opened) ↔ Live d := Iff.rfl

theorem wp_saveSection {img : Nat → Bytes} {Q : Unit → St → Prop} {R : St → Prop} (n i : Nat)
    (L : List (Option Nat)) {s : St} (hs : Sound s) (hT : ScratchTable g s.flash img L)
    (hin : i + n ≤ g.total) (himg : ∀ c < g.total, img c = blk s.flash c)
    (hR : 30 < L.length + (liveIn img n i).length → ∀ s', R s')
    (hQ : ∀ s', Sound s' → SameRam s s' → (∀ a < 128 * g.total, s'.flash.get a = s.flash.get a) →
      ScratchTable g s'.flash img (L ++ (liveIn img n i).map some) → Q () s') :
    wp (saveSection g n i) Q R s := by
  induction n generalizing i L s with
  | zero =>
    rw [saveSection, wp_pure]
    exact hQ s hs (SameRam.refl s) (fun _ _ => rfl) (by simpa [liveIn] using hT)
  | succ n ih =>
    rw [saveSection, wp_bind, wp_read, hdrAt_eq hs.up (by omega)]
    show wp (Cmd.when _ _ >>= _) Q R s
    rw [wp_bind]
    have hlive := live_ofBytes (blk s.flash i)
    rw [← himg i (by omega)] at hlive
    apply wp_when
    -- a block in use is copied before the later ones
    · intro h
      rw [← himg i (by omega)] at h
      have hl := hlive.mp h
      have hcons : liveIn img (n + 1) i = i :: liveIn img n (i + 1) := if_pos hl
      rw [hcons] at hR hQ
      rw [List.length_cons] at hR
      apply wp_clScratchSaveblock hs hT (by omega) (himg i (by omega))
      · intro h30
        exact hR (by omega) s
      · intro s₁ hs1 hr1 hd1 hT1
        apply ih (i + 1) (L ++ [some i]) hs1 hT1 (by omega)
        · intro c hc
          rw [himg c hc, blk_of_data hd1 hc]
        · intro hlen
          simp only [List.length_append, List.length_singleton] at hlen
          exact hR (by omega)
        · intro s' h1 h2 h3 h4
          apply hQ s' h1 (hr1.trans h2)
          · intro a ha
            rw [h3 a ha, hd1 a ha]
          · rwa [List.append_assoc, List.singleton_append] at h4
    -- the others are passed over
    · intro h
      rw [← himg i (by omega)] at h
      have hl : ¬Live (img i) := fun hl => h (hlive.mpr hl)
      have hcons : liveIn img (n + 1) i = liveIn img n (i + 1) := if_neg hl
      rw [hcons] at hR hQ
      exact ih (i + 1) L hs hT (by omega) himg hR hQ

/-- What reclaiming may do to the data area. -/
def Reclaimed (g : Geometry) (s s' : St) : Prop :=
  ∀ c < g.total, blk s'.flash c = blk s.flash c ∨
    (¬Live (blk s.flash c) ∧ blk s'.flash c = blankBlock)

theorem Reclaimed.refl (s : St) : Reclaimed g s s := fun _ _ => Or.inl rfl

theorem Reclaimed.trans {s s' s'' : St} (h : Reclaimed g s s') (h' : Reclaimed g s' s'') :
    Reclaimed g s s'' := by
  intro c hc
  rcases h c hc with h1 | ⟨h1, h2⟩
  · rcases h' c hc with h3 | ⟨h3, h4⟩
    · exact Or.inl (h3.trans h1)
    · exact Or.inr ⟨h1 ▸ h3, h4⟩
  · rcases h' c hc with h3 | ⟨_, h4⟩
    · exact Or.inr ⟨h1, h3.trans h2⟩
    · exact Or.inr ⟨h1, h4⟩

theorem Reclaimed.live {s s' : St} (h : Reclaimed g s s') {c : Nat} (hc : c < g.total)
    (hl : Live (blk s.flash c)) : blk s'.flash c = blk s.flash c := by
  rcases h c hc with h1 | ⟨h1, _⟩
  · exact h1
  · exact absurd hl h1

theorem Reclaimed.live_iff {s s' : St} (h : Reclaimed g s s') {c : Nat} (hc : c < g.total) :
    Live (blk s'.flash c) ↔ Live (blk s.flash c) := by
  rcases h c hc with h1 | ⟨h1, h2⟩
  · rw [h1]
  · rw [h2]
    exact ⟨fun h => absurd h not_live_blankBlock, fun h => absurd h h1⟩

/-- Every call keeps this. -/
structure Tidy (g : Geometry) (s : St) : Prop extends Sound s where
  blank : ∀ b < g.total, blk s.flash b 5 = BlockStatus.free → blk s.flash b = blankBlock
  scratch : ∃ k, ScratchTable g s.flash (blk s.flash) (List.replicate k none)

theorem pending_map_some (bs : List Nat) (k : Nat) :
    pending (List.replicate k none ++ bs.map some) = bs := by
  induction k with
  | zero =>
    induction bs with
    | nil => rfl
    | cons b bs ih => simp [pending]
  | succ k ih => exact ih

theorem pending_some (bs : List Nat) : pending (bs.map some) = bs := pending_map_some bs 0

/-- Erasing a section of the data area and nothing else. -/
theorem wp_clDevErasesection {s : St} {k : Nat} {Q : Unit → St → Prop} {R : St → Prop}
    (hs : Sound s) (hk : k ≤ g.sections)
    (hQ : ∀ s', Sound s' → SameRam s s' →
      (∀ a, s'.flash.get a = if 128 * (k * g.eraseable) ≤ a ∧
        a < 128 * (k * g.eraseable) + 128 * g.eraseable then 0xFF else s.flash.get a) → Q () s') :
    wp (clDevErasesection g (blockAddr (k * g.eraseable))) Q R s := by
  have hE := g.scratch_fits
  have hpos : 0 < g.eraseable * blockSize := Nat.mul_pos (by omega) (by decide)
  have hloc : blockAddr (k * g.eraseable) = k * (g.eraseable * blockSize) := by
    rw [blockAddr, Nat.mul_comm, Nat.mul_assoc]
  have hdiv : blockAddr (k * g.eraseable) / (g.eraseable * blockSize) *
      (g.eraseable * blockSize) = 128 * (k * g.eraseable) := by
    rw [hloc, Nat.mul_div_cancel _ hpos, ← hloc]
  have hle : k * g.eraseable ≤ g.total := Nat.mul_le_mul_right _ hk
  have hreach : s.reaches g (blockAddr (k * g.eraseable)) 1 = true := by
    apply reaches_of_le hs.up
    show 128 * (k * g.eraseable) + 1 ≤ _
    omega
  apply wp_of_eq_ok (a := ())
  · rw [clDevErasesection, if_pos hreach, hdiv]
  · apply hQ
    · exact hs.wipe
    · exact SameRam.wipe _ _ _
    · intro a
      rw [St.wipe, Flash.get_erase, Nat.mul_comm g.eraseable blockSize]

/-- What erasing section `k` leaves of the data area: the blocks in use of the section stay. -/
def eraseSection (g : Geometry) (V : Nat → Bytes) (k : Nat) : Nat → Bytes := fun b =>
  if k * g.eraseable ≤ b ∧ b < k * g.eraseable + g.eraseable ∧ ¬Live (V b) then blankBlock else V b

/-- The step: the blocks in use of the section stay, the others are erased. -/
theorem wp_eraseDirtyBlock {s : St} {k i : Nat} {Q : Unit → St → Prop} {R : St → Prop}
    (hs : Sound s) (hblank : ∀ b < g.total, blk s.flash b 5 = BlockStatus.free →
      blk s.flash b = blankBlock)
    (hT : ScratchTable g s.flash (blk s.flash) (List.replicate k none)) (hi : i < g.sections)
    (hR : 30 < k + (liveIn (blk s.flash) g.eraseable (i * g.eraseable)).length → ∀ s', R s')
    (hQ : ∀ s', Tidy g s' → SameRam s s' →
      (∀ c < g.total, blk s'.flash c = eraseSection g (blk s.flash) i c) → Q () s') :
    wp (eraseDirtyBlock g (i * g.eraseable)) Q R s := by
  have hsec : i * g.eraseable + g.eraseable ≤ g.total := by
    rw [← Nat.succ_mul]
    exact Nat.mul_le_mul_right _ hi
  set V := blk s.flash with hV
  set B := liveIn V g.eraseable (i * g.eraseable) with hB
  rw [eraseDirtyBlock, wp_bind]
  apply wp_saveSection g.eraseable (i * g.eraseable) (List.replicate k none) hs hT hsec
    (fun _ _ => rfl)
  · rw [List.length_replicate]
    exact hR
  intro s₁ hs1 hr1 hd1 hT1
  rw [wp_bind]
  apply wp_clDevErasesection hs1 (by omega)
  intro s₂ hs2 hr2 hf2
  have hT2 : ScratchTable g s₂.flash V (List.replicate k none ++ B.map some) := by
    apply hT1.congr
    intro a ha
    rw [hf2, if_neg (by omega)]
  have hsecblank : ∀ c, i * g.eraseable ≤ c → c < i * g.eraseable + g.eraseable →
      blk s₂.flash c = blankBlock := by
    intro c h1 h2
    apply blk_eq_blankBlock
    intro j hj
    rw [hf2, if_pos (by omega)]
  have hother : ∀ c < g.total, ¬(i * g.eraseable ≤ c ∧ c < i * g.eraseable + g.eraseable) →
      blk s₂.flash c = V c := by
    intro c hc hn
    rw [hV, ← blk_of_data hd1 hc]
    apply blk_ext
    intro j hj
    rw [hf2, if_neg (by omega)]
  have hmem : ∀ b, b ∈ B ↔ i * g.eraseable ≤ b ∧ b < i * g.eraseable + g.eraseable ∧ Live (V b) :=
    fun b => mem_liveIn
  rw [clScratchRestore]
  -- the struck entries in front of the copies are passed over first
  have hcut : ∀ b j, 128 ≤ j → V b j = 0 := fun b j hj => blk_of_le hj
  apply wp_scratchRestoreFrom hcut 30 0 (List.replicate k none ++ B.map some) hs2 (by omega)
  · exact hT2
  · rw [pending_map_some]
    intro b hb
    have := (hmem b).mp hb
    omega
  · rw [pending_map_some]
    exact nodup_liveIn _ _ _
  · rw [pending_map_some]
    intro b hb
    have := (hmem b).mp hb
    exact hsecblank b this.1 this.2.1
  · rw [pending_map_some]
    intro s₃ hs3 hr3 hback hrest hT3
    have hleft : ∀ c < g.total, blk s₃.flash c = eraseSection g V i c := by
      intro c hc
      by_cases hcB : c ∈ B
      · -- a copy that has gone back
        rw [eraseSection, if_neg fun h => h.2.2 ((hmem c).mp hcB).2.2]
        exact hback c hcB
      · rw [hrest c hc hcB]
        by_cases hin : i * g.eraseable ≤ c ∧ c < i * g.eraseable + g.eraseable
        · rw [eraseSection, if_pos ⟨hin.1, hin.2, fun hl => hcB ((hmem c).mpr ⟨hin.1, hin.2, hl⟩)⟩]
          exact hsecblank c hin.1 hin.2
        · rw [eraseSection, if_neg fun h => hin ⟨h.1, h.2.1⟩]
          exact hother c hc hin
    apply hQ s₃ _ ((hr1.trans hr2).trans hr3) hleft
    refine ⟨hs3, ?_, ⟨_, hT3.struck _⟩⟩
    intro b hb hfree
    rw [hleft b hb, eraseSection] at hfree ⊢
    split
    · rfl
    · next h =>
      rw [if_neg h] at hfree
      exact hblank b hb hfree

/-! ### All sections -/

theorem length_liveIn_of_writtenIn {hdr : Nat → Option BlockHdr} {V : Nat → Bytes} {n i w w' : Nat}
    (hhdr : ∀ b, i ≤ b → b < i + n → hdr b = some (.ofBytes (V b)))
    (h : writtenIn hdr n i w = some (some w')) : w' = w + (liveIn V n i).length := by
  induction n generalizing i w with
  | zero =>
    simp only [writtenIn, Option.some.injEq] at h
    simp [liveIn, h]
  | succ n ih =>
    have hrec : ∀ b, i + 1 ≤ b → b < i + 1 + n → hdr b = some (.ofBytes (V b)) :=
      fun b h1 h2 => hhdr b (by omega) (by omega)
    rw [writtenIn, hhdr i (le_refl i) (by omega)] at h
    simp only at h
    split at h
    · next hc =>
      split at h
      · exact absurd h (by simp)
      · have hl : Live (V i) := Or.inl hc
        rw [liveIn, if_pos hl, List.length_cons, ih hrec h]
        omega
    · next hc =>
      split at h
      · exact absurd h (by simp)
      · next ho =>
        split at h
        · exact absurd h (by simp)
        · have hl : ¬Live (V i) := by
            rintro (hl | hl)
            · exact hc hl
            · exact ho hl
          rw [liveIn, if_neg hl]
          exact ih hrec h

/-- There is room for the copies afterwards, unless they are more than the scratch area takes. -/
theorem wp_makeRoom {s : St} {k written : Nat} {Q : Unit → St → Prop} {R : St → Prop}
    (hs : Sound s) (hT : ScratchTable g s.flash (blk s.flash) (List.replicate k none))
    (hQ : ∀ s' k', Sound s' → SameRam s s' → (∀ c < g.total, blk s'.flash c = blk s.flash c) →
      ScratchTable g s'.flash (blk s'.flash) (List.replicate k' none) →
      (k' + written ≤ 30 ∨ 30 < written) → Q () s') :
    wp (makeRoom g written) Q R s := by
  have hk : k ≤ 30 := by
    have := hT.length_le
    rwa [List.length_replicate] at this
  rw [makeRoom, wp_bind, wp_attempt, clScratchCapacity, wp_bind]
  apply wp_firstUnused hs.up hT _ 30 0 (by omega) (by omega)
  rw [List.length_replicate, wp_pure]
  show wp (Cmd.when (written > 30 - k) _) Q R s
  apply wp_when
  · intro hw
    rw [clScratchErase, scratchAddr, Geometry.total, Nat.mul_comm (g.sections * g.eraseable)]
    apply wp_clDevErasesection (k := g.sections) hs (le_refl _)
    intro s₁ hs1 hr1 hf1
    apply hQ s₁ 0 hs1 hr1
    · intro c hc
      apply blk_ext
      intro j hj
      rw [hf1, if_neg]
      rw [Geometry.total] at hc
      omega
    · apply ScratchTable.of_erased
      intro a h1 h2
      have hE := g.scratch_fits
      rw [Geometry.total] at h1 h2
      rw [hf1, if_pos (by omega)]
    · omega
  · intro hw
    exact hQ s k hs (SameRam.refl s) (fun _ _ => rfl) hT (by omega)

/-- The headers of the blocks `V`. -/
def hdrOf (V : Nat → Bytes) (b : Nat) : Option BlockHdr := some (.ofBytes (V b))

/-- How many copies reclaiming section `k` makes, if a round with this bound reclaims it. -/
def copiesOf (g : Geometry) (V : Nat → Bytes) (maxWritten k : Nat) : Option Nat :=
  match writtenIn (hdrOf V) g.eraseable (k * g.eraseable) 0 with
  | some (some written) => if written < maxWritten then some written else none
  | _ => none

theorem lt_of_copiesOf {V : Nat → Bytes} {maxWritten k written : Nat}
    (h : copiesOf g V maxWritten k = some written) : written < maxWritten := by
  unfold copiesOf at h
  split at h
  · split at h
    · next hlt => rwa [← Option.some.inj h]
    · exact absurd h (by simp)
  · exact absurd h (by simp)

/-- What a round has left of the data area after the first `n` sections. -/
def afterSections (g : Geometry) (V : Nat → Bytes) (maxWritten n : Nat) : Nat → Bytes := fun b =>
  if b / g.eraseable < n ∧ (copiesOf g V maxWritten (b / g.eraseable)).isSome ∧ ¬Live (V b) then blankBlock else V b

theorem afterSections_succ_of_ne {V : Nat → Bytes} {maxWritten n b : Nat} (h : b / g.eraseable ≠ n) :
    afterSections g V maxWritten (n + 1) b = afterSections g V maxWritten n b := by
  have hlt : b / g.eraseable < n + 1 ↔ b / g.eraseable < n := by omega
  simp only [afterSections, hlt]

theorem writtenIn_congr {hdr hdr' : Nat → Option BlockHdr} (n i w : Nat)
    (h : ∀ b, i ≤ b → b < i + n → hdr b = hdr' b) : writtenIn hdr n i w = writtenIn hdr' n i w := by
  induction n generalizing i w with
  | zero => rfl
  | succ n ih =>
    have hrec : ∀ w, writtenIn hdr n (i + 1) w = writtenIn hdr' n (i + 1) w :=
      fun w => ih (i + 1) w fun b h1 h2 => h b (by omega) (by omega)
    rw [writtenIn, writtenIn, h i (le_refl i) (by omega)]
    simp only [hrec]

theorem writtenIn_hdrOf (V : Nat → Bytes) (n i w : Nat) : ∃ o, writtenIn (hdrOf V) n i w = some o := by
  induction n generalizing i w with
  | zero => exact ⟨_, rfl⟩
  | succ n ih =>
    simp only [writtenIn, hdrOf]
    split_ifs
    · exact ⟨_, rfl⟩
    · exact ih _ _
    · exact ⟨_, rfl⟩
    · exact ⟨_, rfl⟩
    · exact ih _ _

theorem wp_eraseDirtyFrom {V : Nat → Bytes} {maxWritten : Nat} {Q : Unit → St → Prop} {R : St → Prop} (n i : Nat)
    {s : St} (hs : Tidy g s) (hi : i + n = g.sections)
    (hV : ∀ c < g.total, blk s.flash c = afterSections g V maxWritten i c)
    (hR : (∃ k < g.sections, ∃ written, copiesOf g V maxWritten k = some written ∧ 30 < written) → ∀ s', R s')
    (hQ : ∀ s', Tidy g s' → SameRam s s' →
      (∀ c < g.total, blk s'.flash c = afterSections g V maxWritten g.sections c) → Q () s') :
    wp (eraseDirtyFrom g maxWritten n (i * g.eraseable)) Q R s := by
  have hE := g.scratch_fits
  induction n generalizing i s with
  | zero =>
    rw [eraseDirtyFrom, wp_pure]
    rw [← hi] at hQ
    exact hQ s hs (SameRam.refl s) hV
  | succ n ih =>
    have hsec : i * g.eraseable + g.eraseable ≤ g.total := by
      rw [← Nat.succ_mul]
      exact Nat.mul_le_mul_right _ (by omega)
    have hnext : i * g.eraseable + g.eraseable = (i + 1) * g.eraseable := (Nat.succ_mul i _).symm
    have hdiv : ∀ b, i * g.eraseable ≤ b → b < i * g.eraseable + g.eraseable → b / g.eraseable = i := by
      intro b h1 h2
      rw [Nat.div_eq_iff (by omega)]
      rw [hnext] at h2
      exact ⟨h1, by omega⟩
    -- the section itself has not been touched yet
    have hown : ∀ b, i * g.eraseable ≤ b → b < i * g.eraseable + g.eraseable → blk s.flash b = V b := by
      intro b h1 h2
      rw [hV b (by omega), afterSections, if_neg]
      rintro ⟨h, _⟩
      rw [hdiv b h1 h2] at h
      exact absurd h (Nat.lt_irrefl i)
    have hhdr : ∀ b, i * g.eraseable ≤ b → b < i * g.eraseable + g.eraseable → hdrAt g s b = hdrOf V b := by
      intro b h1 h2
      rw [hdrAt_eq hs.up (by omega), hown b h1 h2]
      rfl
    have hwritten := writtenIn_congr g.eraseable (i * g.eraseable) 0 hhdr
    rw [eraseDirtyFrom, wp_bind, wp_read, hnext, hwritten]
    -- without the section the view does not change
    have hskip : copiesOf g V maxWritten i = none → ∀ c < g.total, blk s.flash c = afterSections g V maxWritten (i + 1) c := by
      intro hnone c hc
      rw [hV c hc]
      by_cases hci : c / g.eraseable = i
      · rw [afterSections, afterSections, hci, hnone, if_neg fun h => absurd h.2.1 (by simp),
          if_neg fun h => absurd h.2.1 (by simp)]
      · exact (afterSections_succ_of_ne hci).symm
    obtain ⟨o, ho⟩ := writtenIn_hdrOf V g.eraseable (i * g.eraseable) 0
    rw [ho]
    cases o with
    | none =>
      have hnone : copiesOf g V maxWritten i = none := by
        rw [copiesOf, ho]
      exact ih (i + 1) hs (by omega) (hskip hnone) hQ
    | some written =>
      have hlen := length_liveIn_of_writtenIn (fun b _ _ => (rfl : hdrOf V b = _)) ho
      rw [Nat.zero_add] at hlen
      show wp (Cmd.when (written < maxWritten) _ >>= _) Q R s
      rw [wp_bind]
      apply wp_when
      · intro hmax
        have hcopies : copiesOf g V maxWritten i = some written := by
          rw [copiesOf, ho]
          exact if_pos hmax
        rw [wp_bind]
        obtain ⟨k, hT⟩ := hs.scratch
        apply wp_makeRoom hs.toSound hT
        intro s₁ k' hs1 hr1 hd1 hT1 hroom
        have hsame : ∀ n i, i + n ≤ g.total → liveIn (blk s₁.flash) n i = liveIn (blk s.flash) n i := by
          intro n
          induction n with
          | zero => intros; rfl
          | succ n ih =>
            intro i h
            rw [liveIn, liveIn, hd1 i (by omega), ih (i + 1) (by omega)]
        have hlive : ∀ n j, i * g.eraseable ≤ j → j + n ≤ i * g.eraseable + g.eraseable →
            liveIn (blk s.flash) n j = liveIn V n j := by
          intro n
          induction n with
          | zero => intros; rfl
          | succ n ih =>
            intro j h1 h2
            rw [liveIn, liveIn, hown j h1 (by omega), ih (j + 1) (by omega) (by omega)]
        apply wp_eraseDirtyBlock hs1 _ hT1 (by omega)
        · rw [hsame _ _ hsec, hlive _ _ (le_refl _) (le_refl _), ← hlen]
          intro h30
          exact hR ⟨i, by omega, written, hcopies, by omega⟩
        · intro s₂ hs2 hr2 hleft
          apply ih (i + 1) hs2 (by omega)
          · intro c hc
            rw [hleft c hc, eraseSection, hd1 c hc, hV c hc]
            by_cases hin : i * g.eraseable ≤ c ∧ c < i * g.eraseable + g.eraseable
            · rw [← hV c hc, hown c hin.1 hin.2, afterSections, hdiv c hin.1 hin.2, hcopies]
              simp [hin.1, hin.2]
            · rw [if_neg fun h => hin ⟨h.1, h.2.1⟩]
              refine (afterSections_succ_of_ne ?_).symm
              rintro rfl
              rw [hnext] at hin
              exact hin ⟨Nat.div_mul_le_self c _, (Nat.div_lt_iff_lt_mul (by omega)).mp (Nat.lt_succ_self _)⟩
          · intro s₃ hs3 hr3 hleft3
            exact hQ s₃ hs3 ((hr1.trans hr2).trans hr3) hleft3
        · intro b hb hfree
          rw [hd1 b hb] at hfree ⊢
          exact hs.blank b hb hfree
      · intro hmax
        have hnone : copiesOf g V maxWritten i = none := by
          rw [copiesOf, ho]
          exact if_neg hmax
        exact ih (i + 1) hs (by omega) (hskip hnone) hQ

/-- What a round leaves of the data area. -/
def afterRound (g : Geometry) (V : Nat → Bytes) (maxWritten : Nat) : Nat → Bytes :=
  afterSections g V maxWritten g.sections

/-- A round does what `afterRound` says, unless a section that it reclaims has more blocks in use than the scratch area
takes. -/
theorem wp_eraseDirtyBlocks_exact {V : Nat → Bytes} {maxWritten : Nat} {Q : Unit → St → Prop} {R : St → Prop} {s : St}
    (hs : Tidy g s) (hV : ∀ c < g.total, blk s.flash c = V c)
    (hR : (∃ k < g.sections, ∃ written, copiesOf g V maxWritten k = some written ∧ 30 < written) → ∀ s', R s')
    (hQ : ∀ s', Tidy g s' → SameRam s s' → (∀ c < g.total, blk s'.flash c = afterRound g V maxWritten c) → Q () s') :
    wp (eraseDirtyBlocks g maxWritten) Q R s := by
  have hstart : ∀ c < g.total, blk s.flash c = afterSections g V maxWritten 0 c := by
    intro c hc
    rw [hV c hc, afterSections, if_neg fun h => absurd h.1 (Nat.not_lt_zero _)]
  have h := wp_eraseDirtyFrom (Q := Q) g.sections 0 hs (by omega) hstart hR hQ
  rwa [Nat.zero_mul] at h

theorem reclaimed_of_afterRound {V : Nat → Bytes} {s s' : St} {maxWritten : Nat}
    (hV : ∀ c < g.total, blk s.flash c = V c)
    (h : ∀ c < g.total, blk s'.flash c = afterRound g V maxWritten c) : Reclaimed g s s' := by
  intro c hc
  rw [h c hc, hV c hc, afterRound, afterSections]
  split
  · next h => exact Or.inr ⟨h.2.2, rfl⟩
  · exact Or.inl rfl

theorem wp_eraseDirtyBlocks {maxWritten : Nat} {Q : Unit → St → Prop} {R : St → Prop} {s : St}
    (hs : Tidy g s) (hR : (∃ k < g.sections, ∃ written,
      copiesOf g (blk s.flash) maxWritten k = some written ∧ 30 < written) → ∀ s', R s')
    (hQ : ∀ s', Tidy g s' → SameRam s s' → Reclaimed g s s' → Q () s') :
    wp (eraseDirtyBlocks g maxWritten) Q R s := by
  apply wp_eraseDirtyBlocks_exact hs (fun _ _ => rfl) hR
  exact fun s' h1 h2 h3 => hQ s' h1 h2 (reclaimed_of_afterRound (fun _ _ => rfl) h3)

end CoActionOS.Cafs
