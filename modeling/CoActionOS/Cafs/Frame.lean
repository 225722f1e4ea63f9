import CoActionOS.Cafs.Alloc

/-!
# What a call leaves alone

`Written` is the effect of one write inside a block.  `Frame own s s'` says that of the blocks in use
at most those in `own` have changed, and that no new block looks like the head of the list of serial
numbers; allocations have the frame of no block at all, so frames of consecutive calls compose
(`Frame.trans`) as long as the later one owns blocks that the earlier one owned or allocated.
-/

namespace CoActionOS.Cafs

open Cmd

variable {g : Geometry}

/-! ### One write -/

structure Written (g : Geometry) (s : St) (b o : Nat) (bs : List UInt8) (s' : St) : Prop where
  tidy : Tidy g s'
  ram : SameRam s s'
  self : blk s'.flash b = overwrite (blk s.flash b) o bs
  other : ∀ c, c ≠ b → blk s'.flash c = blk s.flash c

theorem wp_write {s : St} {b o : Nat} {bs : List UInt8} {Q : Unit → St → Prop} {R : St → Prop}
    (hs : Tidy g s) (hb : b < g.total) (ho : o + bs.length ≤ 128) (hfit : Fits (blk s.flash b) o bs)
    (hstatus : overwrite (blk s.flash b) o bs 5 ≠ BlockStatus.free)
    (hQ : ∀ s', Written g s b o bs s' → Q () s') : wp (clDevWrite g (128 * b + o) bs) Q R s := by
  have hgb := g.blocks_le
  apply wp_clDevWrite (reaches_block hs.up (by omega) ho) (clears_of_fits ho hfit)
  apply hQ
  exact ⟨hs.put hb ho hfit hstatus, SameRam.put _ _ _, blk_put_self ho hfit,
    fun c hc => blk_put_ne ho hc⟩

theorem not_free_of_live {d : Bytes} (h : Live d) : d 5 ≠ BlockStatus.free := by
  rcases h with h | h
  · rw [h]
    decide
  · rw [h]
    decide

/-- A write behind the header of a block in use. -/
theorem wp_write_data {s : St} {b o : Nat} {bs : List UInt8} {Q : Unit → St → Prop}
    {R : St → Prop} (hs : Tidy g s) (hb : b < g.total) (hlive : Live (blk s.flash b)) (h6 : 6 ≤ o)
    (ho : o + bs.length ≤ 128) (hfit : Fits (blk s.flash b) o bs)
    (hQ : ∀ s', Written g s b o bs s' → Q () s') : wp (clDevWrite g (128 * b + o) bs) Q R s := by
  apply wp_write hs hb ho hfit _ hQ
  rw [overwrite_of_lt (by omega)]
  exact not_free_of_live hlive

theorem wp_clBlockSetstatus {s : St} {b : Nat} {status : UInt8} {Q : Unit → St → Prop}
    {R : St → Prop} (hs : Tidy g s) (hb : b < g.total) (hfit : status &&& blk s.flash b 5 = status)
    (hfree : status ≠ BlockStatus.free) (hQ : ∀ s', Written g s b 5 [status] s' → Q () s') :
    wp (clBlockSetstatus g b status) Q R s := by
  have hgb := g.blocks_le
  have hb' : b ≠ blockInvalid := by
    show b ≠ 65535
    omega
  rw [clBlockSetstatus, if_neg hb']
  exact wp_write hs hb (by simp) (fits_one hfit) hfree hQ

/-- Saving a block that has just been allocated. -/
theorem wp_clBlockSave {s : St} {b sn : Nat} {type : UInt8} {data : Bytes} {Q : Unit → St → Prop}
    {R : St → Prop} (hs : Tidy g s) (hb : b < g.total)
    (hfresh : blk s.flash b = freshBlock sn type)
    (hQ : ∀ s', Written g s b 5 (BlockStatus.opened :: slice data 0 blockDataSize) s' → Q () s') :
    wp (clBlockSave g b data) Q R s := by
  have hgb := g.blocks_le
  have hb' : b ≠ blockInvalid := by
    show b ≠ 65535
    omega
  have hlen : (BlockStatus.opened :: slice data 0 blockDataSize).length = 123 :=
    congrArg (· + 1) (length_slice data 0 122)
  rw [clBlockSave, if_neg hb']
  apply wp_write hs hb (by omega) _ _ hQ
  · intro i hi
    rw [hfresh]
    cases i with
    | zero =>
      show BlockStatus.opened &&& freshBlock sn type 5 = BlockStatus.opened
      rw [freshBlock_status]
      decide
    | succ i =>
      rw [freshBlock_blank _ _ (by omega) (by omega)]
      exact UInt8.and_neg_one
  · have h5 : overwrite (blk s.flash b) 5 (BlockStatus.opened :: slice data 0 blockDataSize) 5 =
        BlockStatus.opened := overwrite_add (i := 0) (by omega)
    rw [h5]
    decide

/-! ### Frames -/

structure Frame (g : Geometry) (own : Nat → Prop) (s s' : St) : Prop where
  ram : SameRam s s'
  keep : ∀ c < g.total, Live (blk s.flash c) → ¬own c → blk s'.flash c = blk s.flash c
  heads : ∀ c < g.total, Live (blk s'.flash c) → blk s'.flash c 4 = BlockType.serialnoList →
    Live (blk s.flash c) ∧ blk s.flash c 4 = BlockType.serialnoList

namespace Frame

variable {s s' s'' : St} {own own' : Nat → Prop}

theorem refl (own : Nat → Prop) (s : St) : Frame g own s s :=
  ⟨SameRam.refl s, fun _ _ _ _ => rfl, fun _ _ h1 h2 => ⟨h1, h2⟩⟩

theorem mono (h : Frame g own s s') (himp : ∀ c, own c → own' c) : Frame g own' s s' :=
  ⟨h.ram, fun c hc hl hn => h.keep c hc hl fun ho => hn (himp c ho), h.heads⟩

theorem trans (h : Frame g own s s') (h' : Frame g own' s' s'')
    (hsub : ∀ c, own' c → own c ∨ ¬Live (blk s.flash c)) : Frame g own s s'' where
  ram := h.ram.trans h'.ram
  keep c hc hl hn := by
    have h1 := h.keep c hc hl hn
    have hl' : Live (blk s'.flash c) := by rwa [h1]
    have hn' : ¬own' c := fun ho => (hsub c ho).elim hn fun h => h hl
    rw [h'.keep c hc hl' hn', h1]
  heads c hc hl ht := by
    obtain ⟨h1, h2⟩ := h'.heads c hc hl ht
    exact h.heads c hc h1 h2

/-- Frames of calls that own the same blocks. -/
theorem trans_same (h : Frame g own s s') (h' : Frame g own s' s'') : Frame g own s s'' :=
  h.trans h' fun _ ho => Or.inl ho

end Frame

theorem Reclaimed.frame {s s' : St} (h : Reclaimed g s s') (hram : SameRam s s')
    (own : Nat → Prop) : Frame g own s s' where
  ram := hram
  keep c hc hl _ := h.live hc hl
  heads c hc hl ht := by
    have hl' := (h.live_iff hc).mp hl
    rw [h.live hc hl'] at ht
    exact ⟨hl', ht⟩

theorem Refused.frame {s s' : St} (h : Refused g s s') (hroom : Roomy g (blk s.flash))
    (own : Nat → Prop) : Frame g own s s' :=
  (h.left hroom).2.2.frame (h.left hroom).2.1 own

namespace Allocated

variable {s s' : St} {sn b : Nat} {type : UInt8}

theorem keep (h : Allocated g s sn type b s') {c : Nat} (hc : c < g.total)
    (hl : Live (blk s.flash c)) : blk s'.flash c = blk s.flash c := by
  have hcb : c ≠ b := fun he => h.was (he ▸ hl)
  rcases h.rest c hc hcb with h1 | ⟨h1, _⟩
  · exact h1
  · exact absurd hl h1

theorem frame (h : Allocated g s sn type b s') (htype : type ≠ BlockType.serialnoList)
    (own : Nat → Prop) : Frame g own s s' where
  ram := h.ram
  keep _ hc hl _ := h.keep hc hl
  heads c hc hl ht := by
    by_cases hcb : c = b
    · subst hcb
      rw [h.fresh, freshBlock_type] at ht
      exact absurd ht htype
    · rcases h.rest c hc hcb with h1 | ⟨_, h1⟩
      · rw [h1] at hl ht
        exact ⟨hl, ht⟩
      · rw [h1] at hl
        exact absurd hl not_live_blankBlock

theorem live (h : Allocated g s sn type b s') : Live (blk s'.flash b) := by
  rw [h.fresh]
  exact live_freshBlock sn type

end Allocated

namespace Written

variable {s s' : St} {b o : Nat} {bs : List UInt8}

/-- A write that keeps a block in use in use, or takes it out of use, and does not touch its type. -/
theorem frame (h : Written g s b o bs s') (hlive : Live (blk s.flash b)) (h5 : 5 ≤ o) :
    Frame g (· = b) s s' where
  ram := h.ram
  keep c _ _ hcb := h.other c hcb
  heads c _ hl ht := by
    by_cases hcb : c = b
    · subst hcb
      rw [h.self, overwrite_of_lt (by omega)] at ht
      exact ⟨hlive, ht⟩
    · rw [h.other c hcb] at hl ht
      exact ⟨hl, ht⟩

/-- Bytes outside the write. -/
theorem get_of_lt (h : Written g s b o bs s') {i : Nat} (hi : i < o ∨ o + bs.length ≤ i) (c : Nat) :
    blk s'.flash c i = blk s.flash c i := by
  by_cases hcb : c = b
  · subst hcb
    rw [h.self, overwrite_of_lt hi]
  · rw [h.other c hcb]

theorem get_add (h : Written g s b o bs s') {i : Nat} (hi : i < bs.length) :
    blk s'.flash b (o + i) = bs[i] := by
  rw [h.self, overwrite_add hi]

theorem kept (h : Written g s b o bs s') (h6 : 6 ≤ o) (c : Nat) : Kept (blk s.flash c) (blk s'.flash c) :=
  .inl ⟨h.get_of_lt (by omega) c, u32_congr fun i hi => h.get_of_lt (by omega) c⟩

theorem live_other (h : Written g s b o bs s') (h6 : 6 ≤ o) (c : Nat) :
    Live (blk s'.flash c) ↔ Live (blk s.flash c) := by
  rw [Live, Live, h.get_of_lt (by omega)]

end Written

end CoActionOS.Cafs
