import CoActionOS.Cafs.Chain
import CoActionOS.Cafs.FileList

/-!
# Operations on lists

The items of a list are read through a `Decoder`, so that the operations are specified once for both
kinds of items: setting the status of an item (`wp_setItem`), appending (`wp_clListAppend`) and
setting the status of all blocks (`wp_clListSetblockstatus`).
-/

namespace CoActionOS.Cafs

open Cmd

variable {g : Geometry}

/-! ### Items -/

/-- How the eight bytes of an item are read. -/
structure Decoder (ι : Type) where
  dec : Bytes → ι
  statusOf : ι → UInt8
  setStatus : UInt8 → ι → ι
  congr : ∀ d d' : Bytes, (∀ i < 8, d' i = d i) → dec d' = dec d
  statusOf_dec : ∀ d : Bytes, statusOf (dec d) = d 0
  status : ∀ (d d' : Bytes) (v : UInt8), d' 0 = v → (∀ i, 1 ≤ i → i < 8 → d' i = d i) →
    dec d' = setStatus v (dec d)

def snDecoder : Decoder SnItem where
  dec := SnItem.ofBytes
  statusOf := SnItem.status
  statusOf_dec _ := rfl
  setStatus v i := { i with status := v }
  congr d d' h := by
    have h1 : u32 d' 1 = u32 d 1 := u32_congr fun i hi => h _ (by omega)
    have h2 : u16 d' 5 = u16 d 5 := u16_congr fun i hi => h _ (by omega)
    rw [SnItem.ofBytes, SnItem.ofBytes, h 0 (by omega), h1, h2, h 7 (by omega)]
  status d d' v h0 h := by
    have h1 : u32 d' 1 = u32 d 1 := u32_congr fun i hi => h _ (by omega) (by omega)
    have h2 : u16 d' 5 = u16 d 5 := u16_congr fun i hi => h _ (by omega) (by omega)
    rw [SnItem.ofBytes, SnItem.ofBytes, h0, h1, h2, h 7 (by omega) (by omega)]

def fileDecoder : Decoder FileItem where
  dec := FileItem.ofBytes
  statusOf := FileItem.status
  statusOf_dec _ := rfl
  setStatus v i := { i with status := v }
  congr d d' h := by
    have h1 : u16 d' 2 = u16 d 2 := u16_congr fun i hi => h _ (by omega)
    have h2 : u32 d' 4 = u32 d 4 := u32_congr fun i hi => h _ (by omega)
    rw [FileItem.ofBytes, FileItem.ofBytes, h 0 (by omega), h 1 (by omega), h1, h2]
  status d d' v h0 h := by
    have h1 : u16 d' 2 = u16 d 2 := u16_congr fun i hi => h _ (by omega) (by omega)
    have h2 : u32 d' 4 = u32 d 4 := u32_congr fun i hi => h _ (by omega) (by omega)
    rw [FileItem.ofBytes, FileItem.ofBytes, h0, h 1 (by omega) (by omega), h1, h2]

variable {ι : Type} (D : Decoder ι)

/-- The items of the list are those of `L`. -/
def HasItems (V : Nat → Bytes) (blocks : List Nat) (L : List ι) : Prop :=
  ∀ k (h : k < L.length), D.dec (slot V blocks k) = L[k]

theorem HasItems.congr {D : Decoder ι} {V V' : Nat → Bytes} {blocks : List Nat} {L : List ι}
    (h : HasItems D V blocks L) (hlen : L.length ≤ 14 * blocks.length)
    (hV : ∀ b ∈ blocks, ∀ i, i ≠ 5 → V' b i = V b i) : HasItems D V' blocks L := by
  intro k hk
  rw [← h k hk]
  apply D.congr
  intro i _
  exact hV _ (blockOf_mem (by omega)) _ (by omega)

/-! ### The status of all blocks -/

/-- Reading the list header of a block. -/
theorem wp_readListHdr {s : St} {b : Nat} {Q : Bytes → St → Prop} {R : St → Prop}
    (hup : s.up = true) (hb : b < g.total + g.eraseable)
    (hQ : ∀ d, ListHdr.ofBytes d = ⟨u16 (blk s.flash b) 6, u16 (blk s.flash b) 8⟩ → Q d s) :
    wp (clDevRead g (listHdrAddr b) 4) Q R s := by
  have haddr : listHdrAddr b = 128 * b + 6 := by
    show b * 128 + 6 = _
    omega
  rw [haddr]
  apply wp_clDevRead (reaches_block hup hb (by omega))
  set d : Bytes := fun i => if i < 4 then s.flash.get (128 * b + 6 + i) else 0
  apply hQ
  have hbytes : ∀ i < 4, d i = blk s.flash b (6 + i) := by
    intro i hi
    show (if i < 4 then _ else _) = _
    rw [if_pos hi, blk_of_lt (by omega), Nat.add_assoc]
  have h1 : u16 d 0 = u16 (blk s.flash b) 6 := by
    apply u16_congr
    intro i hi
    rw [Nat.zero_add]
    exact hbytes i (by omega)
  have h2 : u16 d 2 = u16 (blk s.flash b) 8 := by
    apply u16_congr
    intro i hi
    have := hbytes (2 + i) (by omega)
    rwa [← Nat.add_assoc 6 2 i] at this
  rw [ListHdr.ofBytes, h1, h2]

theorem prevOf_succ {blocks : List Nat} {i : Nat} (h : i < blocks.length) :
    prevOf blocks (i + 1) = blocks[i] := by
  rw [prevOf, if_neg (by omega), Nat.add_sub_cancel]
  exact List.getD_eq_getElem _ _ h

theorem wp_lastBlock {s : St} {sn n : Nat} {type : UInt8} {blocks : List Nat}
    {Q : Nat → St → Prop} {R : St → Prop} (hup : s.up = true)
    (hL : IsList g (blk s.flash) sn type blocks n) (hlast : ∀ b, b = prevOf blocks blocks.length → Q b s)
    (fuel i : Nat) (hi : i ≤ blocks.length) (hfuel : blocks.length - i < fuel) :
    wp (lastBlock g fuel (blocks.getD i blockInvalid) (prevOf blocks i)) Q R s := by
  induction fuel generalizing i with
  | zero => omega
  | succ fuel ih =>
    rw [lastBlock]
    by_cases hlt : i < blocks.length
    · rw [List.getD_eq_getElem _ _ hlt]
      have hb := List.getElem_mem hlt
      rw [if_neg (hL.ne_invalid hb), wp_bind]
      apply wp_readListHdr hup (by have := hL.lt _ hb; omega)
      intro d hd
      rw [hd, hL.prev i hlt, hL.next i hlt, if_neg (by simp)]
      have h := ih (i + 1) hlt (by omega)
      rwa [prevOf_succ hlt] at h
    · have hi : i = blocks.length := by omega
      rw [List.getD_eq_default _ _ (by omega), if_pos rfl, wp_pure, hi]
      exact hlast _ rfl

/-- The status of these blocks has been set and nothing else. -/
structure StatusSet (g : Geometry) (s : St) (blocks : List Nat) (status : UInt8) (s' : St) :
    Prop where
  tidy : Tidy g s'
  ram : SameRam s s'
  self : ∀ b ∈ blocks, blk s'.flash b = overwrite (blk s.flash b) 5 [status]
  other : ∀ c, c ∉ blocks → blk s'.flash c = blk s.flash c

theorem StatusSet.get_of_ne {s s' : St} {blocks : List Nat} {status : UInt8}
    (h : StatusSet g s blocks status s') {i : Nat} (hi : i ≠ 5) (c : Nat) :
    blk s'.flash c i = blk s.flash c i := by
  by_cases hc : c ∈ blocks
  · rw [h.self c hc, overwrite_of_lt (by simp; omega)]
  · rw [h.other c hc]

theorem StatusSet.status {s s' : St} {blocks : List Nat} {status : UInt8}
    (h : StatusSet g s blocks status s') {b : Nat} (hb : b ∈ blocks) :
    blk s'.flash b 5 = status := by
  rw [h.self b hb]
  exact overwrite_add (i := 0) (by simp)

theorem StatusSet.frame {s s' : St} {blocks : List Nat} {status : UInt8}
    (h : StatusSet g s blocks status s') (hlive : ∀ b ∈ blocks, Live (blk s.flash b)) :
    Frame g (· ∈ blocks) s s' where
  ram := h.ram
  keep c _ _ hc := h.other c hc
  heads c _ hl ht := by
    rw [h.get_of_ne (by omega)] at ht
    by_cases hc : c ∈ blocks
    · exact ⟨hlive c hc, ht⟩
    · rw [h.other c hc] at hl
      exact ⟨hl, ht⟩

theorem wp_setStatusBack {status : UInt8} {sn n : Nat} {type : UInt8} {blocks : List Nat}
    {Q : Unit → St → Prop} {R : St → Prop} (hfree : status ≠ BlockStatus.free) (fuel i : Nat)
    {s : St} (hs : Tidy g s) (hL : IsList g (blk s.flash) sn type blocks n)
    (hi : i ≤ blocks.length) (hfuel : i < fuel)
    (hfit : ∀ b ∈ blocks.take i, status &&& blk s.flash b 5 = status)
    (hQ : ∀ s', StatusSet g s (blocks.take i) status s' → Q () s') :
    wp (setStatusBack g status fuel (prevOf blocks i)) Q R s := by
  induction i generalizing fuel s with
  | zero =>
    obtain ⟨fuel, rfl⟩ : ∃ m, fuel = m + 1 := ⟨fuel - 1, by omega⟩
    rw [setStatusBack, prevOf, if_pos rfl, if_pos rfl, wp_pure]
    exact hQ s ⟨hs, SameRam.refl s, by simp, fun _ _ => rfl⟩
  | succ i ih =>
    obtain ⟨fuel, rfl⟩ : ∃ m, fuel = m + 1 := ⟨fuel - 1, by omega⟩
    have hlt : i < blocks.length := hi
    have hb := List.getElem_mem hlt
    -- the blocks in front of the one that is set next
    have htake : blocks.take (i + 1) = blocks.take i ++ [blocks[i]] := by
      rw [List.take_succ_eq_append_getElem hlt]
    have hnd := hL.nodup.sublist (List.take_sublist (i + 1) blocks)
    rw [htake] at hnd
    have hnotin : blocks[i] ∉ blocks.take i := by
      intro h
      exact (List.nodup_append.mp hnd).2.2 _ h _ (List.mem_singleton.mpr rfl) rfl
    rw [htake] at hfit hQ
    have hbfit := hfit blocks[i] (List.mem_append_right _ (List.mem_singleton.mpr rfl))
    rw [setStatusBack, prevOf_succ hlt, if_neg (hL.ne_invalid hb), wp_bind]
    apply wp_readListHdr hs.up (by have := hL.lt _ hb; omega)
    intro d hd
    rw [hd, hL.prev i hlt, wp_bind]
    apply wp_clBlockSetstatus hs (hL.lt _ hb) hbfit hfree
    intro s₁ h1
    apply ih fuel h1.tidy (hL.congr fun c _ j hj => h1.get_of_lt (by simp; omega) c) (by omega)
      (by omega)
    · intro c hc
      have hcb : c ≠ blocks[i] := fun h => hnotin (h ▸ hc)
      rw [h1.other c hcb]
      exact hfit c (List.mem_append_left _ hc)
    -- its status is set, and then those of the blocks in front of it
    · intro s' h2
      apply hQ
      refine ⟨h2.tidy, h1.ram.trans h2.ram, ?_, ?_⟩
      · intro c hc
        rcases List.mem_append.mp hc with hc | hc
        · have hcb : c ≠ blocks[i] := fun h => hnotin (h ▸ hc)
          rw [h2.self c hc, h1.other c hcb]
        · obtain rfl := List.mem_singleton.mp hc
          rw [h2.other _ hnotin, h1.self]
      · intro c hc
        rw [List.mem_append, List.mem_singleton, not_or] at hc
        rw [h2.other c hc.1, h1.other c hc.2]

theorem getD_zero {blocks : List Nat} (hne : blocks ≠ []) (d : Nat) :
    blocks.getD 0 d = blocks.headD 0 := by
  obtain ⟨b, bs, rfl⟩ := List.exists_cons_of_ne_nil hne
  rfl

theorem wp_clListSetblockstatus {s : St} {status : UInt8} {sn n : Nat} {type : UInt8}
    {blocks : List Nat} {Q : Unit → St → Prop} {R : St → Prop} (hs : Tidy g s)
    (hL : IsList g (blk s.flash) sn type blocks n) (hfree : status ≠ BlockStatus.free)
    (hfit : ∀ b ∈ blocks, status &&& blk s.flash b 5 = status)
    (hQ : ∀ s', StatusSet g s blocks status s' → Q () s') :
    wp (clListSetblockstatus g (blocks.headD 0) status) Q R s := by
  have hfuel := hL.lt_fuel
  rw [clListSetblockstatus, wp_bind, ← getD_zero hL.ne blockInvalid]
  have h0 : prevOf blocks 0 = blockInvalid := if_pos rfl
  rw [← h0, h0]
  have hfirst := wp_lastBlock (R := R) hs.up hL
    (Q := fun last s' => wp (setStatusBack g status loopFuel last) Q R s') ?_ loopFuel 0
    (by omega) (by omega)
  · rwa [h0] at hfirst
  · rintro b rfl
    apply wp_setStatusBack hfree loopFuel blocks.length hs hL (le_refl _) (by omega)
    · rwa [List.take_length]
    · rwa [List.take_length]

/-! ### The status of an item -/

theorem slot_congr {V V' : Nat → Bytes} {blocks : List Nat} {k : Nat}
    (h : V' (blockOf blocks k) = V (blockOf blocks k)) : slot V' blocks k = slot V blocks k := by
  funext i
  rw [slot, slot, h]

/-- What a write inside the items leaves of another item. -/
theorem slot_of_written {s s' : St} {blocks : List Nat} {k j : Nat} {bs : List UInt8}
    (hnd : blocks.Nodup) (hk : k < 14 * blocks.length) (hj : j < 14 * blocks.length) (hjk : j ≠ k)
    (hlen : bs.length ≤ 8) (h : Written g s (blockOf blocks k) (10 + 8 * (k % 14)) bs s') {i : Nat}
    (hi : i < 8) : slot (blk s'.flash) blocks j i = slot (blk s.flash) blocks j i := by
  by_cases hb : blockOf blocks j = blockOf blocks k
  · have hjk' : j % 14 ≠ k % 14 := by
      intro he
      apply hjk
      apply addrOf_inj hnd hj hk
      rw [addrOf, addrOf, hb, he]
    rw [slot, slot, h.get_of_lt (by omega)]
  · rw [slot_congr (h.other _ hb)]

/-- Links, types and serial numbers are in front of the items. -/
theorem IsList.of_written {s s' : St} {sn n k : Nat} {type : UInt8} {blocks : List Nat}
    {bs : List UInt8} (hL : IsList g (blk s.flash) sn type blocks n)
    (h : Written g s (blockOf blocks k) (10 + 8 * (k % 14)) bs s')
    (hk : k < 14 * blocks.length) (hlen : bs.length ≤ 8) (n' : Nat) (hfull : 14 * (blocks.length - 1) ≤ n')
    (hfits : n' ≤ 14 * blocks.length)
    (hused : ∀ j < n', j ≠ k → j < n) (hblank : ∀ j, n' ≤ j → j ≠ k ∧ n ≤ j)
    (hself : k < n' → slot (blk s'.flash) blocks k 0 ≠ ItemStatus.free) :
    IsList g (blk s'.flash) sn type blocks n' := by
  have hfront : ∀ c, ∀ i < 10, blk s'.flash c i = blk s.flash c i :=
    fun c i hi => h.get_of_lt (by omega) c
  refine { hL with
    serialno := ?_, type := ?_, prev := ?_, next := ?_, used := ?_, blank := ?_
    full := hfull, fits := hfits }
  · intro b hb
    rw [← hL.serialno b hb]
    exact u32_congr fun i hi => hfront b _ (by omega)
  · intro i hi
    rw [hfront _ 4 (by omega)]
    exact hL.type i hi
  · intro i hi
    rw [← hL.prev i hi]
    exact u16_congr fun j hj => hfront _ _ (by omega)
  · intro i hi
    rw [← hL.next i hi]
    exact u16_congr fun j hj => hfront _ _ (by omega)
  · intro j hj
    by_cases hjk : j = k
    · subst hjk
      exact hself hj
    · rw [slot_of_written hL.nodup hk (by omega) hjk hlen h (by omega)]
      exact hL.used j (hused j hj hjk)
  · intro j h1 h2 i hi
    obtain ⟨hjk, hn⟩ := hblank j h1
    rw [slot_of_written hL.nodup hk h2 hjk hlen h hi]
    exact hL.blank j hn h2 i hi

theorem wp_setItem {D : Decoder ι} {s : St} {sn k : Nat} {type v : UInt8} {blocks : List Nat}
    {L : List ι} {Q : Unit → St → Prop} {R : St → Prop} (hs : Tidy g s)
    (hL : IsList g (blk s.flash) sn type blocks L.length) (hI : HasItems D (blk s.flash) blocks L)
    (hk : k < L.length) (hlive : Live (blk s.flash (blockOf blocks k)))
    (hv : v &&& slot (blk s.flash) blocks k 0 = v) (hfree : v ≠ ItemStatus.free)
    (hQ : ∀ s', Written g s (blockOf blocks k) (10 + 8 * (k % 14)) [v] s' →
      IsList g (blk s'.flash) sn type blocks L.length →
      HasItems D (blk s'.flash) blocks (L.set k (D.setStatus v L[k])) → Q () s') :
    wp (clDevWrite g (addrOf blocks k) [v]) Q R s := by
  have hk' : k < 14 * blocks.length := Nat.lt_of_lt_of_le hk hL.fits
  rw [addrOf_eq]
  apply wp_write_data hs (hL.blockOf_lt hk') hlive (by omega) (by simp; omega) (fits_one hv)
  intro s' hw
  have h0 : slot (blk s'.flash) blocks k 0 = v := hw.get_add (i := 0) (by simp)
  have hrest : ∀ i, 1 ≤ i → i < 8 → slot (blk s'.flash) blocks k i = slot (blk s.flash) blocks k i := by
    intro i h1 h2
    exact hw.get_of_lt (by simp; omega) _
  apply hQ s' hw
  · apply hL.of_written hw hk' (by simp) _ hL.full hL.fits
    · intro j hj _
      exact hj
    · intro j hj
      omega
    · intro _
      rw [h0]
      exact hfree
  · intro j hj
    have hjL : j < L.length := by rwa [List.length_set] at hj
    by_cases hjk : j = k
    · subst hjk
      rw [List.getElem_set_self, ← hI j hjL]
      exact D.status _ _ v h0 hrest
    · rw [List.getElem_set_ne (Ne.symm hjk), ← hI j hjL]
      apply D.congr
      intro i hi
      exact slot_of_written hL.nodup hk' (Nat.lt_of_lt_of_le hjL hL.fits) hjk (by simp) hw hi

end CoActionOS.Cafs
