import CoActionOS.Cafs.Consolidate
import CoActionOS.Cafs.Serialno

/-!
# The entries of the list of serial numbers

`SnList g V sb L` says that the blocks `sb` are closed and hold the entries `L`.  The calls of
`cl_serialno.c` that look for an entry, change its status or append one are specified in terms of `L`.
-/

namespace CoActionOS.Cafs

open Cmd

variable {g : Geometry}

/-! ### Entries as bytes -/

theorem length_toBytes_snItem (i : SnItem) : i.toBytes.length = 8 := rfl

theorem ofBytes_toBytes_snItem (i : SnItem) (hsn : i.serialno < 2 ^ 32) (hb : i.block < 65536) :
    SnItem.ofBytes (fun j => i.toBytes.getD j 0) = i := by
  have h1 : u32 (fun j => i.toBytes.getD j 0) 1 = i.serialno :=
    u32_eq_of_le32 hsn rfl rfl rfl rfl
  have h2 : u16 (fun j => i.toBytes.getD j 0) 5 = i.block := u16_eq_of_le16 hb rfl rfl
  rw [SnItem.ofBytes, h1, h2]
  rfl

theorem isValid_setChecksum (i : SnItem) : i.setChecksum.isValid = true := by
  rw [SnItem.isValid, beq_iff_eq]
  rfl

/-- The entry that `cl_serialno_append` writes. -/
def newEntry (sn block : Nat) (status : UInt8) : SnItem :=
  { status := status, serialno := sn, block := block, checksum := 0 : SnItem }.setChecksum

structure SnList (g : Geometry) (V : Nat → Bytes) (sb : List Nat) (L : List SnItem) : Prop where
  list : IsList g V clSerialnoList BlockType.serialnoList sb L.length
  items : HasItems snDecoder V sb L
  closed : ∀ b ∈ sb, V b 5 = BlockStatus.closed
  valid : ∀ i ∈ L, i.isValid = true
  block : ∀ i ∈ L, i.block ≠ blockInvalid

namespace SnList

variable {V V' : Nat → Bytes} {sb : List Nat} {L : List SnItem}

theorem live (h : SnList g V sb L) : ∀ b ∈ sb, Live (V b) := fun b hb => Or.inl (h.closed b hb)

theorem congr (h : SnList g V sb L) (hV : ∀ b ∈ sb, V' b = V b) : SnList g V' sb L where
  list := h.list.congr fun b hb i _ => by rw [hV b hb]
  items := h.items.congr h.list.fits fun b hb i _ => by rw [hV b hb]
  closed b hb := by rw [hV b hb]; exact h.closed b hb
  valid := h.valid
  block := h.block

/-- Calls that leave these blocks alone leave the entries alone. -/
theorem frame {s s' : St} {own : Nat → Prop} (h : SnList g (blk s.flash) sb L)
    (hf : Frame g own s s') (hown : ∀ b ∈ sb, ¬own b) : SnList g (blk s'.flash) sb L :=
  h.congr fun b hb => hf.keep b (h.list.lt b hb) (h.live b hb) (hown b hb)

theorem status_eq (h : SnList g V sb L) {k : Nat} (hk : k < L.length) :
    slot V sb k 0 = L[k].status := by
  rw [← h.items k hk]
  rfl

end SnList

/-- What the cursor has read is the entry. -/
theorem Got.entry {V : Nat → Bytes} {sb : List Nat} {L : List SnItem} {l : ClList} {k : Nat}
    (hgot : Got V sb l k) (h : HasItems snDecoder V sb L) (hk : k < L.length) :
    SnItem.ofBytes l.item = L[k] := by
  rw [← h k hk]
  exact snDecoder.congr _ _ hgot.item

section calls

variable {s : St} {sb : List Nat} {L : List SnItem} {R : St → Prop}

theorem wp_clSnlistInit {Q : ClList → St → Prop} (hup : s.up = true)
    (h : SnList g (blk s.flash) sb L) (hlb : s.listBlock = sb.headD 0)
    (hQ : ∀ l, CursorAt (blk s.flash) sb l 0 → Q l s) : wp (clSnlistInit g) Q R s := by
  rw [clSnlistInit, wp_bind, wp_read, hlb]
  exact wp_clListInit hup h.list hQ

/-- The first entry with the serial number and the status. -/
theorem wp_clSerialnoGet {sn : Nat} {status : UInt8} {Q : Option (Nat × Nat) → St → Prop}
    (hup : s.up = true) (h : SnList g (blk s.flash) sb L) (hlb : s.listBlock = sb.headD 0)
    (hfound : ∀ k (hk : k < L.length), L[k].status = status → L[k].serialno = sn →
      (∀ j (hj : j < k), ¬(L[j].status = status ∧ L[j].serialno = sn)) →
      Q (some (L[k].block, addrOf sb k)) s)
    (hnone : (∀ i ∈ L, ¬(i.status = status ∧ i.serialno = sn)) → Q none s) :
    wp (clSerialnoGet g sn status) Q R s := by
  rw [clSerialnoGet, wp_bind, wp_attempt]
  apply wp_clSnlistInit hup h hlb
  intro l hc
  rw [wp_bind]
  apply wp_whileItem_read (fun k (_ : Unit) =>
    ∀ j (hj : j < k) (hjL : j < L.length), ¬(L[j].status = status ∧ L[j].serialno = sn)) hup h.list
  · intro k l' t hk hI hgot
    have hitem := hgot.entry h.items hk
    have hvalid := h.valid _ (List.getElem_mem hk)
    rw [snGetBody]
    simp only [hitem]
    rw [if_pos hvalid]
    by_cases hm : L[k].status = status ∧ L[k].serialno = sn
    -- the entry is the one that is looked for
    · rw [if_pos hm, wp_pure]
      refine ⟨rfl, ?_⟩
      show Q (Option.filter (fun p => p.1 != blockInvalid) (some (L[k].block, l'.addr))) s
      rw [hgot.addr]
      have hb : (L[k].block != blockInvalid) = true := by
        rw [bne_iff_ne]
        exact h.block _ (List.getElem_mem hk)
      simp only [Option.filter, hb, if_true]
      exact hfound k hk hm.1 hm.2 fun j hj => hI j hj (by omega)
    · rw [if_neg hm, wp_pure]
      refine ⟨rfl, rfl, ?_⟩
      intro j hj hjL
      by_cases hjk : j = k
      · subst hjk
        exact hm
      · exact hI j (by omega) hjL
  -- no entry is
  · intro l' _ hI _
    rw [wp_pure]
    apply hnone
    intro i hi
    obtain ⟨k, hk, rfl⟩ := List.getElem_of_mem hi
    exact hI k hk hk
  · exact Nat.zero_le _
  · exact hc
  · intro j hj
    omega

theorem wp_clSerialnoSetstatus {k : Nat} {v : UInt8} {Q : Unit → St → Prop} (hs : Tidy g s)
    (h : SnList g (blk s.flash) sb L) (hk : k < L.length) (hv : v &&& L[k].status = v)
    (hfree : v ≠ ItemStatus.free)
    (hQ : ∀ s', Tidy g s' → Frame g (· ∈ sb) s s' →
      SnList g (blk s'.flash) sb (L.set k { L[k] with status := v }) → Q () s') :
    wp (clSerialnoSetstatus g (addrOf sb k) v) Q R s := by
  have hk' : k < 14 * sb.length := Nat.lt_of_lt_of_le hk h.list.fits
  have hlive := h.live _ (blockOf_mem hk')
  rw [clSerialnoSetstatus]
  apply wp_setItem hs h.list h.items hk hlive
  · rwa [h.status_eq hk]
  · exact hfree
  intro s' hw hL' hI'
  apply hQ s' hw.tidy
  · exact (hw.frame hlive (by omega)).mono fun c hc => hc ▸ blockOf_mem hk'
  · refine ⟨?_, hI', ?_, ?_, ?_⟩
    · rwa [List.length_set]
    · intro b hb
      rw [hw.get_of_lt (by omega)]
      exact h.closed b hb
    · intro i hi
      rcases List.mem_or_eq_of_mem_set hi with hi | rfl
      · exact h.valid i hi
      · exact h.valid L[k] (List.getElem_mem hk)
    · intro i hi
      rcases List.mem_or_eq_of_mem_set hi with hi | rfl
      · exact h.block i hi
      · exact h.block L[k] (List.getElem_mem hk)

theorem addrOf_append {blocks : List Nat} {k : Nat} (more : List Nat)
    (hk : k < 14 * blocks.length) : addrOf (blocks ++ more) k = addrOf blocks k := by
  have h1 : k / 14 < blocks.length := by omega
  rw [addrOf, addrOf, blockOf, blockOf, List.getD_append _ _ _ _ h1]

/-- One more entry, and perhaps one more block for it. -/
theorem wp_clSerialnoAppend {sn b : Nat} {status : UInt8} {Q : Option Nat → St → Prop}
    (hs : Tidy g s) (h : SnList g (blk s.flash) sb L) (hlb : s.listBlock = sb.headD 0)
    (hsn : sn < 2 ^ 32) (hb : b < blockInvalid) (hstatus : status ≠ ItemStatus.free)
    (hnew : newEntry sn b status ∉ L) (hR : ∀ s', Refused g s s' → R s')
    (hQ : ∀ more s', Tidy g s' → Frame g (· ∈ sb) s s' → (∀ c ∈ more, ¬Live (blk s.flash c)) →
      (∀ c < g.total, Kept (blk s.flash c) (blk s'.flash c)) → UsesOne g (blk s.flash) (blk s'.flash) →
      SnList g (blk s'.flash) (sb ++ more) (L ++ [newEntry sn b status]) →
      Q (some (addrOf (sb ++ more) L.length)) s') :
    wp (clSerialnoAppend g sn b status) Q R s := by
  have hb16 : b < 65536 := Nat.lt_succ_of_lt hb
  have hdec : snDecoder.dec (fun j => (newEntry sn b status).toBytes.getD j 0) =
      newEntry sn b status := ofBytes_toBytes_snItem _ hsn hb16
  rw [clSerialnoAppend, wp_bind]
  apply wp_clSnlistInit hs.up h hlb
  intro l hc
  show wp (clListAppend g l BlockType.serialnoList (newEntry sn b status).toBytes) Q R s
  have h0 : (newEntry sn b status).toBytes.getD 0 0 = status := rfl
  apply wp_clListAppend hs (by decide) h.list h.items
    h.live (length_toBytes_snItem _) (by rwa [h0]) _ (Nat.zero_le _) hc hR
  · intro blocks' s' ha
    obtain ⟨more, rfl, hmore⟩ := ha.prefix_le
    apply hQ more s' ha.tidy ha.frame (fun c hc => (hmore c hc).1) (ha.kept fun _ => rfl) ha.usesOne
    have hI := ha.items
    -- the new entry is valid, and the others are as they were
    refine ⟨?_, ?_, ?_, ?_, ?_⟩
    · rw [List.length_append, List.length_singleton]
      exact ha.list
    · rw [← hdec]
      exact hI
    · intro c hc
      rcases List.mem_append.mp hc with hc | hc
      · rw [ha.old c hc]
        exact h.closed c hc
      · exact (hmore c hc).2
    · intro i hi
      rcases List.mem_append.mp hi with hi | hi
      · exact h.valid i hi
      · rw [List.mem_singleton.mp hi]
        exact isValid_setChecksum _
    · intro i hi
      rcases List.mem_append.mp hi with hi | hi
      · exact h.block i hi
      · rw [List.mem_singleton.mp hi]
        exact Nat.ne_of_lt hb
  · -- an equal entry would decode to the new one
    intro j hj he
    apply hnew
    have h1 := h.items j hj
    have h2 : snDecoder.dec (slot (blk s.flash) sb j) = newEntry sn b status := by
      rw [← hdec]
      apply snDecoder.congr
      intro i hi
      have h3 : (slice (slot (blk s.flash) sb j) 0 8).getD i 0 = slot (blk s.flash) sb j i :=
        getD_slice hi
      rw [← h3, he]
    rw [← h2, h1]
    exact List.getElem_mem hj

end calls

end CoActionOS.Cafs
