import CoActionOS.Cafs.Medium

/-!
# Reclaiming keeps the blocks in use

`ScratchTable g f img L` says that the first entries of the scratch table are those of `L`, `none` for
an entry that has been struck and `some b` for a pending copy `img b` of block `b`, and that the rest
of the scratch area is erased.  Between calls all used entries have been struck.

`Tidy` is what every call of the file system keeps: the device can be used, every write was one that
only clears bits, free blocks are erased and the scratch area is in order.  `Reclaimed` says what
reclaiming may do to the data area: erase blocks that are not in use.
-/

namespace CoActionOS.Cafs

open Cmd

/-- The block is open or closed. -/
def Live (d : Bytes) : Prop := d 5 = BlockStatus.closed ∨ d 5 = BlockStatus.opened

instance (d : Bytes) : Decidable (Live d) := inferInstanceAs (Decidable (_ ∨ _))

/-- The contents of an erased block. -/
def blankBlock : Bytes := fun i => if i < blockSize then 0xFF else 0

theorem blankBlock_of_lt {i : Nat} (h : i < 128) : blankBlock i = 0xFF := if_pos h

theorem not_live_blankBlock : ¬Live blankBlock := by
  rintro (h | h)
  · exact absurd h (by decide)
  · exact absurd h (by decide)

theorem blk_eq_blankBlock {f : Flash} {b : Nat} (h : ∀ i < 128, f.get (128 * b + i) = 0xFF) :
    blk f b = blankBlock := by
  funext i
  by_cases hi : i < 128
  · rw [blk_of_lt hi, h i hi, blankBlock_of_lt hi]
  · rw [blk_of_le (by omega), blankBlock, if_neg hi]

/-- The RAM of the file system is the same, and what was recorded still is. -/
structure SameRam (s s' : St) : Prop where
  listBlock : s'.listBlock = s.listBlock
  serialno : s'.serialno = s.serialno
  up : s'.up = s.up
  log : s.log ⊆ s'.log

namespace SameRam

variable {s s' s'' : St}

theorem refl (s : St) : SameRam s s := ⟨rfl, rfl, rfl, fun _ h => h⟩

theorem trans (h : SameRam s s') (h' : SameRam s' s'') : SameRam s s'' :=
  ⟨h'.listBlock.trans h.listBlock, h'.serialno.trans h.serialno, h'.up.trans h.up,
    fun _ he => h'.log (h.log he)⟩

theorem put (s : St) (loc : Nat) (bs : List UInt8) : SameRam s (s.put loc bs) :=
  ⟨rfl, rfl, rfl, fun _ he => List.mem_cons_of_mem _ he⟩

theorem wipe (s : St) (loc n : Nat) : SameRam s (s.wipe loc n) :=
  ⟨rfl, rfl, rfl, fun _ he => List.mem_cons_of_mem _ he⟩

end SameRam

/-- The device can be used, and every write so far only cleared bits. -/
structure Sound (s : St) : Prop where
  up : s.up = true
  log : s.LogOk

theorem Sound.put {s : St} {loc : Nat} {bs : List UInt8} (h : Sound s)
    (hc : s.flash.Clears loc bs) : Sound (s.put loc bs) :=
  ⟨h.up, logOk_put h.log hc⟩

theorem Sound.wipe {s : St} {loc n : Nat} (h : Sound s) : Sound (s.wipe loc n) :=
  ⟨h.up, logOk_wipe h.log⟩

variable {g : Geometry}

/-! ### The scratch table -/

/-- The entry for a pending copy of block `b`. -/
def copiedEntry (b : Nat) : ScratchEntry :=
  { status := ScratchStatus.copied, originalBlock := b, checksum := 0 : ScratchEntry }.setChecksum

theorem scratchEntryAddr_eq (g : Geometry) (n : Nat) :
    scratchEntryAddr g n = 128 * g.total + 4 * n := by
  rw [scratchEntryAddr, scratchAddr, blockSize, Nat.mul_comm]

theorem scratchBlockAddr_eq (g : Geometry) (n : Nat) :
    scratchBlockAddr g n = 128 * g.total + 120 + 128 * n := by
  rw [scratchBlockAddr, scratchAddr, blockSize, scratchEntries, Nat.mul_comm g.total]

def EntryAt (g : Geometry) (f : Flash) (img : Nat → Bytes) (n : Nat) : Option Nat → Prop
  | none => ∀ i < 4, f.get (scratchEntryAddr g n + i) = 0
  | some b =>
    slice f.get (scratchEntryAddr g n) 4 = (copiedEntry b).toBytes ∧
      ∀ i < 128, f.get (scratchBlockAddr g n + i) = img b i

/-- The `n`-th entry and its block are what they were. -/
structure SameEntry (g : Geometry) (f f' : Flash) (n : Nat) : Prop where
  entry : ∀ i < 4, f'.get (scratchEntryAddr g n + i) = f.get (scratchEntryAddr g n + i)
  block : ∀ i < 128, f'.get (scratchBlockAddr g n + i) = f.get (scratchBlockAddr g n + i)

theorem EntryAt.congr {f f' : Flash} {img : Nat → Bytes} {n : Nat} {o : Option Nat} (h : EntryAt g f img n o)
    (hf : SameEntry g f f' n) : EntryAt g f' img n o := by
  cases o with
  | none =>
    intro i hi
    rw [hf.entry i hi]
    exact h i hi
  | some b =>
    refine ⟨?_, ?_⟩
    · rw [← h.1]
      exact slice_congr hf.entry
    · intro i hi
      rw [hf.block i hi]
      exact h.2 i hi

structure ScratchTable (g : Geometry) (f : Flash) (img : Nat → Bytes) (L : List (Option Nat)) :
    Prop where
  length_le : L.length ≤ 30
  entry : ∀ n (h : n < L.length), EntryAt g f img n L[n]
  unused : ∀ n, L.length ≤ n → n < 30 → ∀ i < 4, f.get (scratchEntryAddr g n + i) = 0xFF
  room : ∀ n, L.length ≤ n → n < 30 → ∀ i < 128, f.get (scratchBlockAddr g n + i) = 0xFF

namespace ScratchTable

variable {f f' : Flash} {img : Nat → Bytes} {L : List (Option Nat)}

/-- Only the scratch area matters. -/
theorem congr (h : ScratchTable g f img L) (hf : ∀ a, 128 * g.total ≤ a → f'.get a = f.get a) :
    ScratchTable g f' img L := by
  have hsame : ∀ n, SameEntry g f f' n := by
    refine fun n => ⟨fun i _ => hf _ ?_, fun i _ => hf _ ?_⟩
    · rw [scratchEntryAddr_eq]
      omega
    · rw [scratchBlockAddr_eq]
      omega
  refine ⟨h.length_le, fun n hn => (h.entry n hn).congr (hsame n), fun n h1 h2 i hi => ?_, fun n h1 h2 i hi => ?_⟩
  · rw [(hsame n).entry i hi]
    exact h.unused n h1 h2 i hi
  · rw [(hsame n).block i hi]
    exact h.room n h1 h2 i hi

/-- An entry is struck out. -/
theorem strike (h : ScratchTable g f img L) {n : Nat} (hn : n < L.length)
    (hzero : ∀ i < 4, f'.get (scratchEntryAddr g n + i) = 0)
    (hf : ∀ a, a < scratchEntryAddr g n ∨ scratchEntryAddr g n + 4 ≤ a → f'.get a = f.get a) :
    ScratchTable g f' img (L.set n none) := by
  have hlen := h.length_le
  have hblock : ∀ m, ∀ i < 128, f'.get (scratchBlockAddr g m + i) = f.get (scratchBlockAddr g m + i) := by
    intro m i _
    apply hf
    rw [scratchEntryAddr_eq, scratchBlockAddr_eq]
    omega
  have hsame : ∀ m, m ≠ n → SameEntry g f f' m := by
    refine fun m hmn => ⟨fun i hi => hf _ ?_, hblock m⟩
    rw [scratchEntryAddr_eq, scratchEntryAddr_eq]
    omega
  refine ⟨by rwa [List.length_set], fun m hm => ?_, fun m h1 h2 i hi => ?_, fun m h1 h2 i hi => ?_⟩
  · rw [List.length_set] at hm
    rw [List.getElem_set]
    split
    · next hmn =>
      subst hmn
      exact hzero
    · next hmn => exact (h.entry m hm).congr (hsame m (Ne.symm hmn))
  · rw [List.length_set] at h1
    rw [(hsame m (by omega)).entry i hi]
    exact h.unused m h1 h2 i hi
  · rw [List.length_set] at h1
    rw [hblock m i hi]
    exact h.room m h1 h2 i hi

/-- A block is copied behind the others. -/
theorem push (h : ScratchTable g f img L) {b : Nat} (hlen : L.length < 30)
    (hentry : slice f'.get (scratchEntryAddr g L.length) 4 = (copiedEntry b).toBytes)
    (hblock : ∀ i < 128, f'.get (scratchBlockAddr g L.length + i) = img b i)
    (hsame : ∀ m < 30, m ≠ L.length → SameEntry g f f' m) : ScratchTable g f' img (L ++ [some b]) := by
  refine ⟨by rwa [List.length_append], fun m hm => ?_, fun m h1 h2 i hi => ?_, fun m h1 h2 i hi => ?_⟩
  · rw [List.length_append, List.length_singleton] at hm
    by_cases hmn : m < L.length
    · rw [List.getElem_append_left hmn]
      exact (h.entry m hmn).congr (hsame m (by omega) (by omega))
    · obtain rfl : m = L.length := by omega
      rw [List.getElem_append_right (Nat.le_refl _)]
      simp only [Nat.sub_self, List.getElem_singleton]
      exact ⟨hentry, hblock⟩
  · rw [List.length_append, List.length_singleton] at h1
    rw [(hsame m h2 (by omega)).entry i hi]
    exact h.unused m (by omega) h2 i hi
  · rw [List.length_append, List.length_singleton] at h1
    rw [(hsame m h2 (by omega)).block i hi]
    exact h.room m (by omega) h2 i hi

/-- The images of struck entries do not matter. -/
theorem struck {k : Nat} (h : ScratchTable g f img (List.replicate k none)) (img' : Nat → Bytes) :
    ScratchTable g f img' (List.replicate k none) where
  length_le := h.length_le
  entry n hn := by
    have := h.entry n hn
    rw [List.getElem_replicate] at this ⊢
    exact this
  unused := h.unused
  room := h.room

/-- An erased scratch area is an empty table. -/
theorem of_erased (h : ∀ a, 128 * g.total ≤ a → a < 128 * g.total + 128 * 31 → f.get a = 0xFF) :
    ScratchTable g f img [] where
  length_le := by simp
  entry n hn := absurd hn (by simp)
  unused n _ hn i hi := by
    apply h
    · rw [scratchEntryAddr_eq]; omega
    · rw [scratchEntryAddr_eq]; omega
  room n _ hn i hi := by
    apply h
    · rw [scratchBlockAddr_eq]; omega
    · rw [scratchBlockAddr_eq]; omega

end ScratchTable

/-! ### Reading and writing the table -/

theorem reaches_of_le {s : St} {loc n : Nat} (hup : s.up = true)
    (h : loc + n ≤ 128 * (g.total + g.eraseable)) : s.reaches g loc n = true := by
  rw [St.reaches, hup, Bool.true_and, decide_eq_true_eq, g.size_eq]
  exact h

theorem reaches_entry {s : St} {n : Nat} (hup : s.up = true) (hn : n < 30) :
    s.reaches g (scratchEntryAddr g n) 4 = true := by
  apply reaches_of_le hup
  have := g.scratch_fits
  rw [scratchEntryAddr_eq]
  omega

theorem reaches_scratchBlock {s : St} {n : Nat} (hup : s.up = true) (hn : n < 30) :
    s.reaches g (scratchBlockAddr g n) 128 = true := by
  apply reaches_of_le hup
  have := g.scratch_fits
  rw [scratchBlockAddr_eq]
  omega

theorem wp_loadScratchEntry {s : St} {n : Nat} {Q : ScratchEntry → St → Prop} {R : St → Prop}
    (hup : s.up = true) (hn : n < 30)
    (hQ : Q (.ofBytes fun i => s.flash.get (scratchEntryAddr g n + i)) s) :
    wp (loadScratchEntry g n) Q R s := by
  rw [loadScratchEntry, wp_bind]
  apply wp_clDevRead (reaches_entry hup hn)
  rw [wp_pure]
  exact hQ

@[simp] theorem ofBytes_status (d : Bytes) : (ScratchEntry.ofBytes d).status = d 0 := rfl

/-- What the bytes of an entry say. -/
theorem ofBytes_of_slice {f : Flash} {a b : Nat} (hb : b < 65536)
    (h : slice f.get a 4 = (copiedEntry b).toBytes) :
    ScratchEntry.ofBytes (fun i => f.get (a + i)) = copiedEntry b := by
  have hlen : (copiedEntry b).toBytes.length = 4 := rfl
  have hget : ∀ i, i < 4 → f.get (a + i) = (copiedEntry b).toBytes.getD i 0 := by
    intro i h4
    have h1 : i < (slice f.get a 4).length := by simpa using h4
    rw [← getElem_slice f.get a 4 i h1, List.getD_eq_getElem _ _ (by omega)]
    simp only [h]
  have h16 : u16 (fun i => f.get (a + i)) 1 = b :=
    u16_eq_of_le16 hb (hget 1 (by decide)) (hget 2 (by decide))
  rw [ScratchEntry.ofBytes, h16]
  have h0 : f.get (a + 0) = ScratchStatus.copied := hget 0 (by decide)
  have h3 : f.get (a + 3) = (copiedEntry b).checksum := hget 3 (by decide)
  rw [h0, h3]
  rfl

@[simp] theorem length_toBytes_entry (e : ScratchEntry) : e.toBytes.length = 4 := rfl

theorem sum_copiedEntry (b : Nat) : (copiedEntry b).sum = (copiedEntry b).checksum := rfl

theorem wp_firstUnused {s : St} {img : Nat → Bytes} {L : List (Option Nat)}
    {Q : Nat → St → Prop} {R : St → Prop} (hup : s.up = true)
    (hT : ScratchTable g s.flash img L) (hQ : Q L.length s) (n i : Nat) (hi : i ≤ L.length)
    (hn : i + n = 30) : wp (firstUnused g n i) Q R s := by
  induction n generalizing i with
  | zero =>
    have hi : i = L.length := by
      have := hT.length_le
      omega
    rw [firstUnused, wp_pure, hi]
    exact hQ
  | succ n ih =>
    rw [firstUnused, wp_bind]
    apply wp_loadScratchEntry hup (by omega)
    rw [ofBytes_status]
    rcases Nat.lt_or_ge i L.length with h | h
    · have hne : s.flash.get (scratchEntryAddr g i + 0) ≠ 0xFF := by
        have he := hT.entry i h
        cases hL : L[i] with
        | none =>
          rw [hL] at he
          rw [he 0 (by decide)]
          decide
        | some b =>
          rw [hL] at he
          have hpos : 0 < (slice s.flash.get (scratchEntryAddr g i) 4).length := by simp
          have h0 : (slice s.flash.get (scratchEntryAddr g i) 4)[0] = 0xFC := by
            simp only [he.1]
            rfl
          rw [getElem_slice] at h0
          rw [h0]
          decide
      rw [if_neg hne]
      exact ih (i + 1) (by omega) (by omega)
    · have hi : i = L.length := by omega
      rw [if_pos (hT.unused i (by omega) (by omega) 0 (by decide)), wp_pure, hi]
      exact hQ

/-- Copying a block adds it to the table; the data area does not change. -/
theorem wp_clScratchSaveblock {s : St} {img : Nat → Bytes} {L : List (Option Nat)} {b : Nat}
    {Q : Unit → St → Prop} {R : St → Prop} (hs : Sound s) (hT : ScratchTable g s.flash img L)
    (hb : b < g.total) (himg : img b = blk s.flash b)
    (hfull : L.length = 30 → R s)
    (hQ : ∀ s', Sound s' → SameRam s s' → (∀ a < 128 * g.total, s'.flash.get a = s.flash.get a) →
      ScratchTable g s'.flash img (L ++ [some b]) → Q () s') :
    wp (clScratchSaveblock g b) Q R s := by
  have hlen := hT.length_le
  rw [clScratchSaveblock, wp_bind]
  apply wp_firstUnused hs.up hT _ 30 0 (by omega) (by omega)
  by_cases h30 : L.length = 30
  -- the table is full
  · rw [if_pos h30]
    exact hfull h30
  rw [if_neg h30, wp_bind, scratchBlockIsReady, wp_bind, wp_attempt]
  set n := L.length with hn
  apply wp_clDevRead (reaches_scratchBlock hs.up (by omega))
  -- the place for the block is blank
  have hready : (slice (fun i => if i < 128 then s.flash.get (scratchBlockAddr g n + i) else 0) 0
      blockSize).all (· == 0xFF) = true := by
    rw [List.all_eq_true]
    intro x hx
    obtain ⟨i, hi, rfl⟩ := List.getElem_of_mem hx
    rw [length_slice] at hi
    rw [getElem_slice, Nat.zero_add, if_pos hi, hT.room n (by omega) (by omega) i hi]
    rfl
  rw [wp_pure, hready, if_neg (by decide), wp_bind, copyBlockToScratch, wp_bind]
  apply wp_clBlockLoad hs.up (by omega)
  have hlenS : (slice (blk s.flash b) 0 blockSize).length = 128 := length_slice _ _ _
  -- the block is written before its entry
  have hc1 : s.flash.Clears (scratchBlockAddr g n) (slice (blk s.flash b) 0 blockSize) := by
    apply Flash.clears_of_blank
    intro i hi
    exact hT.room n (by omega) (by omega) i (by rwa [hlenS] at hi)
  apply wp_clDevWrite
  · rw [hlenS]
    exact reaches_scratchBlock hs.up (by omega)
  · exact hc1
  set s₁ := s.put (scratchBlockAddr g n) (slice (blk s.flash b) 0 blockSize) with hs₁
  have hs1 : Sound s₁ := hs.put hc1
  have hk1 : ∀ a, a < 128 * g.total + 120 + 128 * n ∨ 128 * g.total + 120 + 128 * n + 128 ≤ a →
      s₁.flash.get a = s.flash.get a := by
    intro a ha
    apply get_put_of_lt
    rw [hlenS, scratchBlockAddr_eq]
    exact ha
  have hc2 : s₁.flash.Clears (scratchEntryAddr g n) (copiedEntry b).toBytes := by
    apply Flash.clears_of_blank
    intro i hi
    rw [length_toBytes_entry] at hi
    rw [hk1 _ (by rw [scratchEntryAddr_eq]; omega)]
    exact hT.unused n (by omega) (by omega) i hi
  apply wp_clDevWrite
  · exact reaches_entry hs1.up (by omega)
  · exact hc2
  have hk2 : ∀ a, a < 128 * g.total + 4 * n ∨ 128 * g.total + 4 * n + 4 ≤ a →
      (s₁.put (scratchEntryAddr g n) (copiedEntry b).toBytes).flash.get a = s₁.flash.get a := by
    intro a ha
    apply get_put_of_lt
    rw [length_toBytes_entry, scratchEntryAddr_eq]
    exact ha
  refine hQ (s₁.put (scratchEntryAddr g n) (copiedEntry b).toBytes) ?_ ?_ ?_ ?_
  · exact hs1.put hc2
  · exact (SameRam.put s _ _).trans (SameRam.put s₁ _ _)
  · intro a ha
    rw [hk2 a (by omega), hk1 a (by omega)]
  · refine hT.push (by omega) (slice_put hc2) ?_ fun m _ hmn => ⟨?_, ?_⟩
    · intro i hi
      rw [hk2 _ (by rw [scratchBlockAddr_eq]; omega), hs₁, get_put hc1 i (by omega), getElem_slice, Nat.zero_add, himg]
    · intro i hi
      rw [hk2 _ (by rw [scratchEntryAddr_eq]; omega), hk1 _ (by rw [scratchEntryAddr_eq]; omega)]
    · intro i hi
      rw [hk2 _ (by rw [scratchBlockAddr_eq]; omega), hk1 _ (by rw [scratchBlockAddr_eq]; omega)]

end CoActionOS.Cafs
