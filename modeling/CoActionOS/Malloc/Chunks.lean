import Mathlib.Tactic.Set
import CoActionOS.Lib.Walk
import CoActionOS.Malloc.Basic

/-!
# What the heap operations do to the tiling

`Tiled` says that the chunks tile the heap.  Every operation is described by one lemma: which chunks
start where afterwards (`Start`), and that the headers of chunks in use stay (`Keeps`).  The
operations are built from carving a chunk in two (`Carved`), merging two neighbours (`Coalesced`) and
growing at the end (`Grown`).
-/

namespace CoActionOS

open Function

/-- The largest request that fits `uint16_t` chunks. -/
def mallocMaxSize : Nat := mallocChunkSize * 65535 - mallocHeaderSize

theorem mallocCalcNumChunks_spec {size : Nat} (h : size ≤ mallocMaxSize) :
    1 ≤ mallocCalcNumChunks size ∧ mallocCalcNumChunks size ≤ 65535 ∧
      mallocHeaderSize + size ≤ mallocChunkSize * mallocCalcNumChunks size := by
  have hmax : mallocMaxSize = 4194232 := rfl
  have hdata : mallocDataSize = 56 := rfl
  rw [hmax] at h
  unfold mallocCalcNumChunks
  rw [hdata]
  unfold mallocChunkSize mallocHeaderSize
  split_ifs with hlt
  · have hw : (size - 56 + 64 - 1) % 2 ^ 32 = size + 7 := by omega
    have hn : (size + 7) / 64 + 1 ≤ 65535 := by omega
    rw [hw, Nat.mod_eq_of_lt (by omega)]
    omega
  · omega

namespace MallocChunk

/-- The header reads as a free chunk. -/
def ReadsFree (c : MallocChunk) : Prop := c.signature = c.checksum ∧ c.actualSize = 0

theorem ReadsFree.isFree {c : MallocChunk} (h : c.ReadsFree) : c.isFree = some true := by
  simp [MallocChunk.isFree, h.1, h.2]

theorem isFree_of_signature {c : MallocChunk} (h : c.signature = c.checksum) :
    c.isFree = some (c.actualSize == 0) := by
  simp [isFree, h]

theorem readsFree_of_isFree {c : MallocChunk} (h : c.isFree = some true) : c.ReadsFree := by
  unfold isFree at h
  split_ifs at h with hs
  exact ⟨not_not.mp hs, by simpa using h⟩

theorem setFree_readsFree (c : MallocChunk) : c.setFree.ReadsFree := ⟨rfl, rfl⟩

theorem numChunks_setUsed (owner n size : Nat) : (setUsed owner n size).numChunks = n := rfl

theorem setUsed_signature (owner n size : Nat) :
    (setUsed owner n size).signature = (setUsed owner n size).checksum := rfl

end MallocChunk

namespace Heap

def len (h : Heap) (i : Nat) : Nat := (h.chunk i).numChunks

/-- A chunk of the heap, or the sentinel, starts at `i`. -/
def Start (h : Heap) (i : Nat) : Prop := Walk h.len 0 i

theorem numChunks_eq_len (h : Heap) (i : Nat) : (h.chunk i).numChunks = h.len i := rfl

def ReadsFree (h : Heap) (i : Nat) : Prop := (h.chunk i).ReadsFree

/-- The chunks tile the heap exactly: following `num_chunks` from the base leads to the sentinel at
the end, and every header on the way carries its checksum. -/
structure Tiled (h : Heap) : Prop where
  aligned : h.size % mallocChunkSize = 0
  reaches : h.Start h.last
  zero : h.len h.last = 0
  signature : ∀ i, h.Start i → (h.chunk i).signature = (h.chunk i).checksum

/-- What the operations rely on besides the tiling: the sentinel reads as free and the heap has fewer
chunks than `uint16_t` can count. -/
structure Sound (h : Heap) : Prop extends Tiled h where
  sentinel : h.ReadsFree h.last
  small : h.last ≤ 65535

variable {h h' h'' : Heap} {i j c n : Nat}

namespace Tiled

theorem start_le (ht : h.Tiled) (hi : h.Start i) : i ≤ h.last := hi.le_end ht.reaches ht.zero

theorem len_pos (ht : h.Tiled) (hi : h.Start i) (hlt : i < h.last) : 0 < h.len i :=
  hi.pos_of_lt ht.reaches hlt

theorem next (ht : h.Tiled) (hi : h.Start i) (hlt : i < h.last) : h.Start (i + h.len i) :=
  Walk.next hi ht.reaches hlt

theorem next_le (ht : h.Tiled) (hi : h.Start i) (hlt : i < h.last) : i + h.len i ≤ h.last :=
  ht.start_le (ht.next hi hlt)

theorem isFree (ht : h.Tiled) (hi : h.Start i) :
    (h.chunk i).isFree = some ((h.chunk i).actualSize == 0) :=
  MallocChunk.isFree_of_signature (ht.signature i hi)

theorem lt_last (ht : h.Tiled) (hi : h.Start i) (hne : h.len i ≠ 0) : i < h.last := by
  have hle := ht.start_le hi
  have : i ≠ h.last := by
    rintro rfl
    exact hne ht.zero
  omega

end Tiled

/-! ### Chunks in use stay -/

/-- The chunk at `i` is in use. -/
def Used (h : Heap) (i : Nat) : Prop := h.Start i ∧ (h.chunk i).actualSize ≠ 0

/-- `h'` is sound, has the chunks in use of `h` with the same headers, and a header that read as free
still does. -/
structure Keeps (h h' : Heap) : Prop where
  sound : h'.Sound
  size_le : h.size ≤ h'.size
  used : ∀ i, h.Used i → h'.Used i ∧ h'.chunk i = h.chunk i
  only : ∀ i, h'.Used i → h.Used i
  readsFree : ∀ i, h.ReadsFree i → h'.ReadsFree i

theorem Keeps.refl (hs : h.Sound) : Keeps h h :=
  ⟨hs, le_rfl, fun _ hi => ⟨hi, rfl⟩, fun _ hi => hi, fun _ hi => hi⟩

theorem Keeps.trans (hk : Keeps h h') (hk' : Keeps h' h'') : Keeps h h'' := by
  refine ⟨hk'.sound, hk.size_le.trans hk'.size_le, fun i hi => ?_, fun i hi => hk.only i (hk'.only i hi),
    fun i hi => hk'.readsFree i (hk.readsFree i hi)⟩
  obtain ⟨h1, e1⟩ := hk.used i hi
  obtain ⟨h2, e2⟩ := hk'.used i h1
  exact ⟨h2, e2.trans e1⟩

@[simp] theorem set_size (i : Nat) (c : MallocChunk) : (h.set i c).size = h.size := rfl

@[simp] theorem set_last (i : Nat) (c : MallocChunk) : (h.set i c).last = h.last := rfl

@[simp] theorem set_chunk_self (i : Nat) (c : MallocChunk) : (h.set i c).chunk i = c := by
  simp [set]

theorem set_chunk_of_ne (hne : j ≠ i) (c : MallocChunk) : (h.set i c).chunk j = h.chunk j := by
  simp [set, hne]

/-! ### Merging neighbours -/

/-- `h'` comes from `h` by merging neighbours that are free. -/
structure Coalesced (h h' : Heap) : Prop extends Keeps h h' where
  size : h'.size = h.size
  walk_of : ∀ i j, Walk h'.len i j → Walk h.len i j
  /-- walks that end at a chunk that is still there are still walks, wherever they begin -/
  walk : ∀ i j, Walk h.len i j → h'.Start j → Walk h'.len i j

theorem Coalesced.refl (hs : h.Sound) : Coalesced h h :=
  ⟨Keeps.refl hs, rfl, fun _ _ hw => hw, fun _ _ hw _ => hw⟩

theorem Coalesced.start (hc : Coalesced h h') (hi : h'.Start i) : h.Start i := hc.walk_of 0 i hi

theorem Coalesced.trans (hc : Coalesced h h') (hc' : Coalesced h' h'') : Coalesced h h'' :=
  ⟨hc.toKeeps.trans hc'.toKeeps, hc'.size.trans hc.size,
    fun i j hw => hc.walk_of i j (hc'.walk_of i j hw),
    fun i j hw hj => hc'.walk i j (hc.walk i j hw (hc'.start hj)) hj⟩

theorem coalesced_merge (hs : h.Sound) (hc : h.Start c) (hlt : c + h.len c < h.last)
    (hfc : h.ReadsFree c) (hfn : h.ReadsFree (c + h.len c)) :
    Coalesced h (h.putFree c ((h.len c + h.len (c + h.len c)) % 2 ^ 16)) ∧
      (∀ q, (h.putFree c ((h.len c + h.len (c + h.len c)) % 2 ^ 16)).Start q ↔
        h.Start q ∧ q ≠ c + h.len c) ∧
      (h.putFree c ((h.len c + h.len (c + h.len c)) % 2 ^ 16)).len c =
        h.len c + h.len (c + h.len c) := by
  have hclt : c < h.last := by omega
  have hd := hs.next hc hclt
  have hpc := hs.len_pos hc hclt
  have hpd := hs.len_pos hd hlt
  have hle := hs.next_le hd hlt
  -- the sum of the two lengths does not wrap
  have hmod : (h.len c + h.len (c + h.len c)) % 2 ^ 16 = h.len c + h.len (c + h.len c) := by
    have := hs.small
    omega
  set h' := h.putFree c ((h.len c + h.len (c + h.len c)) % 2 ^ 16) with hh'
  have hself : h'.len c = h.len c + h.len (c + h.len c) := by
    rw [← hmod]
    simp [hh', putFree, len, MallocChunk.setFree]
  have hne : ∀ q, q ≠ c → h'.chunk q = h.chunk q := fun q hq => set_chunk_of_ne hq _
  have hother : ∀ q, q ≠ c → h'.len q = h.len q := fun q hq => by simp [len, hne q hq]
  have hstart : ∀ q, h'.Start q ↔ h.Start q ∧ q ≠ c + h.len c :=
    fun q => Walk.merge_iff hpc hpd hself hother hc
  have hfree : h'.ReadsFree c := by
    have : h'.chunk c = _ := set_chunk_self c _
    rw [ReadsFree, this]
    exact MallocChunk.setFree_readsFree _
  have hlast : h'.last = h.last := rfl
  have hkeep : ∀ q, h.ReadsFree q → h'.ReadsFree q := by
    intro q hq
    by_cases hqc : q = c
    · rw [hqc]; exact hfree
    · rw [ReadsFree, hne q hqc]; exact hq
  have hsound : h'.Sound := by
    refine ⟨⟨hs.aligned, ?_, ?_, fun q hq => ?_⟩, ?_, hs.small⟩
    · exact (hstart _).mpr ⟨hs.reaches, by rw [hlast]; omega⟩
    · rw [hlast, hother _ (by omega)]; exact hs.zero
    · by_cases hqc : q = c
      · rw [hqc]; exact hfree.1
      · rw [hne q hqc]; exact hs.signature q ((hstart q).mp hq).1
    · exact hkeep _ hs.sentinel
  refine ⟨⟨⟨hsound, le_rfl, fun q hq => ?_, fun q hq => ?_, hkeep⟩, rfl,
    fun _ _ => Walk.of_merge hpc hpd hself hother, fun a b hw hb => ?_⟩, hstart, hself⟩
  -- neither of the two is in use
  · have hqc : q ≠ c := by rintro rfl; exact hq.2 hfc.2
    have hqd : q ≠ c + h.len c := by rintro rfl; exact hq.2 hfn.2
    exact ⟨⟨(hstart q).mpr ⟨hq.1, hqd⟩, by rw [hne q hqc]; exact hq.2⟩, hne q hqc⟩
  · have hqc : q ≠ c := by rintro rfl; exact hq.2 hfree.2
    exact ⟨((hstart q).mp hq.1).1, by rw [← hne q hqc]; exact hq.2⟩
  · exact Walk.merge hpc hpd hself hother hw ((hstart b).mp hb).2

/-- `p` is where the free end of the heap begins: the end itself, or its last chunk. -/
def TailAt (h : Heap) (p : Nat) : Prop :=
  h.Start p ∧ (p = h.last ∨ h.ReadsFree p ∧ p + h.len p = h.last)

/-- All chunks from `p` on are free. -/
def FreeFrom (h : Heap) (p : Nat) : Prop :=
  h.Start p ∧ ∀ q, h.Start q → p ≤ q → h.ReadsFree q

theorem cleanupLoop_spec (fuel : Nat) : ∀ {h : Heap} {c n : Nat}, h.Sound → h.Start c →
    c < h.last → n = c + h.len c → h.last - n < fuel →
    ∃ h', cleanupLoop fuel h c n = some h' ∧ Coalesced h h' ∧
      ∀ p, c ≤ p → h.FreeFrom p → ∃ p' ≤ p, h'.TailAt p' := by
  induction fuel with
  | zero => intro h c n _ _ _ _ hf; omega
  | succ fuel ih =>
    rintro h c _ hs hc hlt rfl hf
    have hn := hs.next hc hlt
    have hnle := hs.next_le hc hlt
    have hpos := hs.len_pos hc hlt
    unfold cleanupLoop
    simp only [numChunks_eq_len]
    by_cases h0 : h.len (c + h.len c) = 0
    · refine ⟨h, by simp [h0], Coalesced.refl hs, fun p hcp hp => ?_⟩
      have hend : c + h.len c = h.last := by
        rcases Nat.lt_or_eq_of_le hnle with hl | he
        · have := hs.len_pos hn hl
          unfold len at this h0
          omega
        · exact he
      have hple := hs.start_le hp.1
      refine ⟨p, le_rfl, hp.1, ?_⟩
      rcases Nat.lt_or_eq_of_le hcp with hcp | rfl
      · left
        have := Walk.gap hc hp.1 hcp
        omega
      · exact Or.inr ⟨hp.2 c hc le_rfl, hend⟩
    · have hnlt : c + h.len c < h.last := hs.lt_last hn h0
      have hnn := hs.next hn hnlt
      have hpos' := hs.len_pos hn hnlt
      simp only [h0, ite_false, hs.isFree hc, hs.isFree hn, Option.bind_eq_bind, Option.bind_some]
      by_cases hfree : ((h.chunk c).actualSize == 0 && (h.chunk (c + h.len c)).actualSize == 0) = true
      · rw [if_pos hfree]
        simp only [Bool.and_eq_true, beq_iff_eq] at hfree
        have hfc : h.ReadsFree c := ⟨hs.signature c hc, hfree.1⟩
        have hfn : h.ReadsFree (c + h.len c) := ⟨hs.signature _ hn, hfree.2⟩
        obtain ⟨hco, hstart, hlen⟩ := coalesced_merge hs hc hnlt hfc hfn
        have hcs := (hstart c).mpr ⟨hc, by omega⟩
        set m := h.putFree c ((h.len c + h.len (c + h.len c)) % 2 ^ 16)
        obtain ⟨h', hrun, hco', htail⟩ := ih hco.sound hcs (by rw [show m.last = h.last from rfl]; exact hlt)
          (show c + h.len c + h.len (c + h.len c) = c + m.len c by rw [hlen]; omega)
          (by rw [show m.last = h.last from rfl]; omega)
        have hnext : m.len (c + h.len c) = h.len (c + h.len c) :=
          congrArg MallocChunk.numChunks (set_chunk_of_ne (by omega) _)
        refine ⟨h', by rw [hnext]; exact hrun, hco.trans hco', fun p hcp hp => ?_⟩
        -- a free end that began at the chunk merged away begins at `c` now
        by_cases hpn : p = c + h.len c
        · subst hpn
          have hfrom : m.FreeFrom c := by
            refine ⟨hcs, fun q hq hcq => hco.readsFree q ?_⟩
            rcases Nat.lt_or_eq_of_le hcq with hlt' | rfl
            · exact hp.2 q (hco.start hq) (Walk.gap hc (hco.start hq) hlt')
            · exact hfc
          obtain ⟨p', hp', ht⟩ := htail c le_rfl hfrom
          exact ⟨p', by omega, ht⟩
        · exact htail p hcp ⟨(hstart p).mpr ⟨hp.1, hpn⟩, fun q hq hpq => hco.readsFree q (hp.2 q (hco.start hq) hpq)⟩
      · rw [if_neg hfree]
        obtain ⟨h', hrun, hco', htail⟩ := ih hs hn hnlt rfl (by omega)
        refine ⟨h', hrun, hco', fun p hcp hp => htail p ?_ hp⟩
        rcases Nat.lt_or_eq_of_le hcp with hlt' | rfl
        · exact Walk.gap hc hp.1 hlt'
        · exfalso
          have h1 := hp.2 c hc le_rfl
          have h2 := hp.2 _ hn (by omega)
          exact hfree (by simp [h1.2, h2.2])

theorem cleanupMemory_spec (hs : h.Sound) (hpos : 0 < h.last) :
    ∃ h', h.cleanupMemory = some h' ∧ Coalesced h h' ∧
      ∀ p, h.FreeFrom p → ∃ p' ≤ p, h'.TailAt p' := by
  obtain ⟨h', hrun, hco, htail⟩ := cleanupLoop_spec h.fuel hs (Walk.refl 0) hpos rfl
    (by unfold fuel; omega)
  exact ⟨h', hrun, hco, fun p hp => htail p (Nat.zero_le _) hp⟩

/-! ### Headers inside chunks in use -/

/-- The places inside the chunks in use where a header could be are as they were. -/
def Inner (h h' : Heap) : Prop := ∀ j, h.Used j → ∀ m, j < m → m < j + h.len j → h'.chunk m = h.chunk m

theorem Inner.refl (h : Heap) : Inner h h := fun _ _ _ _ _ => rfl

theorem Inner.trans (hin : Inner h h') (hk : Keeps h h') (hin' : Inner h' h'') : Inner h h'' := by
  intro j hj m hm hm'
  obtain ⟨hj', heq⟩ := hk.used j hj
  have hlen : h'.len j = h.len j := congrArg MallocChunk.numChunks heq
  rw [hin' j hj' m hm (by rw [hlen]; exact hm'), hin j hj m hm hm']

/-- A header that is put where a chunk starts is not inside another one. -/
theorem inner_of_start (hc : h.Start c) (hother : ∀ m, m ≠ c → h'.chunk m = h.chunk m) :
    Inner h h' := by
  intro j hj m hm hm'
  apply hother
  rintro rfl
  have hgap := Walk.gap hj.1 hc hm
  unfold len at *
  omega

theorem cleanupLoop_inner (fuel : Nat) : ∀ {h h' : Heap} {c n : Nat}, h.Sound → h.Start c → c < h.last →
    n = c + h.len c → cleanupLoop fuel h c n = some h' → Inner h h' := by
  induction fuel with
  | zero =>
    intro h h' c n _ _ _ _ hrun
    exact absurd hrun (by simp [cleanupLoop])
  | succ fuel ih =>
    rintro h h' c _ hs hc hlt rfl hrun
    have hn := hs.next hc hlt
    unfold cleanupLoop at hrun
    simp only [numChunks_eq_len] at hrun
    by_cases h0 : h.len (c + h.len c) = 0
    · simp only [h0, ite_true, Option.some.injEq] at hrun
      rw [← hrun]
      exact Inner.refl h
    · have hnlt := hs.lt_last hn h0
      have hpos := hs.len_pos hc hlt
      simp only [h0, ite_false, hs.isFree hc, hs.isFree hn, Option.bind_eq_bind, Option.bind_some] at hrun
      by_cases hfree : ((h.chunk c).actualSize == 0 && (h.chunk (c + h.len c)).actualSize == 0) = true
      · rw [if_pos hfree] at hrun
        simp only [Bool.and_eq_true, beq_iff_eq] at hfree
        have hfc : h.ReadsFree c := ⟨hs.signature c hc, hfree.1⟩
        obtain ⟨hco, hstart, hlen⟩ := coalesced_merge hs hc hnlt hfc ⟨hs.signature _ hn, hfree.2⟩
        have hcs := (hstart c).mpr ⟨hc, by omega⟩
        have hmerged : Inner h (h.putFree c ((h.len c + h.len (c + h.len c)) % 2 ^ 16)) :=
          inner_of_start hc fun m hm => set_chunk_of_ne hm _
        have hnext : (h.putFree c ((h.len c + h.len (c + h.len c)) % 2 ^ 16)).len (c + h.len c) = h.len (c + h.len c) :=
          congrArg MallocChunk.numChunks (set_chunk_of_ne (by omega) _)
        rw [hnext] at hrun
        exact hmerged.trans hco.toKeeps (ih hco.sound hcs hlt (by rw [hlen]; omega) hrun)
      · rw [if_neg hfree] at hrun
        exact ih hs hn hnlt rfl hrun

theorem cleanupMemory_inner (hs : h.Sound) (hpos : 0 < h.last) (hrun : h.cleanupMemory = some h') : Inner h h' :=
  cleanupLoop_inner h.fuel hs (Walk.refl 0) hpos rfl hrun

/-! ### Looking for a chunk -/

theorem findFreeChunk_spec (hs : h.Sound) (n fuel : Nat) : ∀ i, h.Start i → h.last - i < fuel →
    (∃ j, h.findFreeChunk n fuel i = some (some j) ∧ h.Start j ∧ j < h.last ∧ h.ReadsFree j ∧
      n ≤ h.len j) ∨
    (h.findFreeChunk n fuel i = some none ∧
      ∀ j, h.Start j → i ≤ j → j < h.last → h.ReadsFree j → h.len j < n) := by
  induction fuel with
  | zero => intro i _ hf; omega
  | succ fuel ih =>
    intro i hi hf
    unfold findFreeChunk
    by_cases h0 : h.len i = 0
    · right
      have h0' : (h.chunk i).numChunks = 0 := h0
      refine ⟨by simp [h0'], fun j hj hij hlt _ => ?_⟩
      have hlen := Walk.pos_of_lt hi hs.reaches (lt_of_le_of_lt hij hlt)
      omega
    · have hlt := hs.lt_last hi h0
      have h0' : ¬(h.chunk i).numChunks = 0 := h0
      simp only [h0', ite_false, hs.isFree hi, Option.bind_eq_bind, Option.bind_some]
      by_cases hfree : h.ReadsFree i ∧ n ≤ h.len i
      · left
        have hle : n ≤ (h.chunk i).numChunks := hfree.2
        exact ⟨i, by simp [hfree.1.2, hle], hi, hlt, hfree⟩
      · rw [if_neg fun hcond => hfree (by
          simp only [Bool.and_eq_true, beq_iff_eq, decide_eq_true_eq] at hcond
          exact ⟨⟨hs.signature i hi, hcond.1⟩, hcond.2⟩)]
        rcases ih (i + h.len i) (hs.next hi hlt) (by omega) with hfound | ⟨hrun, hnone⟩
        · exact Or.inl hfound
        · refine Or.inr ⟨hrun, fun j hj hij hjlt hjf => ?_⟩
          rcases Nat.lt_or_eq_of_le hij with hij | rfl
          · exact hnone j hj (Walk.gap hi hj hij) hjlt hjf
          · by_contra hge
            exact hfree ⟨hjf, by omega⟩

theorem isMemoryCorrupt_spec (hs : h.Sound) (fuel : Nat) : ∀ i, h.Start i → h.last - i < fuel →
    h.isMemoryCorrupt fuel i = some () := by
  induction fuel with
  | zero => intro i _ hf; omega
  | succ fuel ih =>
    intro i hi hf
    unfold isMemoryCorrupt
    simp only [numChunks_eq_len]
    by_cases h0 : h.len i = 0
    · simp [h0]
    · have hlt := hs.lt_last hi h0
      simp only [h0, ite_false, hs.isFree hi, Option.bind_eq_bind, Option.bind_some]
      exact ih _ (hs.next hi hlt) (by omega)

/-! ### Growing -/

theorem sbrk_spec {stack : Option Int} (hb : h.sbrk stack = some h') :
    h' = { h with size := h.size + mallocSbrkJumpSize } ∧
      ∀ st, stack = some st → (h'.size : Int) ≤ st - mallocSbrkJumpSize := by
  unfold sbrk at hb
  cases stack with
  | none => exact ⟨by simpa using hb.symm, fun st hst => by simp at hst⟩
  | some st =>
    simp only [gt_iff_lt, Option.ite_none_left_eq_some, Option.some.injEq] at hb
    obtain ⟨hle, rfl⟩ := hb
    refine ⟨rfl, fun st' hst => ?_⟩
    cases hst
    push_cast
    omega

/-- `h'` is `h` with a free chunk in place of the sentinel and a new sentinel behind it. -/
structure Grown (h h' : Heap) : Prop where
  size : h'.size = h.size + mallocSbrkJumpSize
  free : h'.ReadsFree h.last
  len : h'.len h.last = 2
  sentinel : h'.ReadsFree (h.last + 2)
  zero : h'.len (h.last + 2) = 0
  other : ∀ i, i ≠ h.last → i ≠ h.last + 2 → h'.chunk i = h.chunk i

theorem getMoreMemory_spec {stack : Option Int} (hm : h.getMoreMemory stack = some h') :
    Grown h h' ∧ ∀ st, stack = some st → (h'.size : Int) ≤ st - mallocSbrkJumpSize := by
  unfold getMoreMemory at hm
  simp only [Option.bind_eq_bind, Option.bind_eq_some_iff, Option.some.injEq] at hm
  obtain ⟨h₁, hb, rfl⟩ := hm
  obtain ⟨rfl, hst⟩ := sbrk_spec hb
  have hne : h.last ≠ h.last + mallocSbrkJumpSize / mallocChunkSize := by
    have : mallocSbrkJumpSize / mallocChunkSize = 2 := rfl
    omega
  refine ⟨⟨rfl, ?_, ?_, ?_, ?_, fun i hi hi' => ?_⟩, hst⟩
  · rw [ReadsFree, setLastChunk, set_chunk_of_ne hne, putFree, set_chunk_self]
    exact MallocChunk.setFree_readsFree _
  · rw [Heap.len, setLastChunk, set_chunk_of_ne hne, putFree, set_chunk_self]
    rfl
  · rw [ReadsFree, setLastChunk, show h.last + 2 = h.last + mallocSbrkJumpSize / mallocChunkSize from
      rfl, set_chunk_self]
    exact ⟨by simp [MallocChunk.checksum], rfl⟩
  · rw [Heap.len, setLastChunk, show h.last + 2 = h.last + mallocSbrkJumpSize / mallocChunkSize from
      rfl, set_chunk_self]
  · rw [setLastChunk, set_chunk_of_ne (show i ≠ h.last + mallocSbrkJumpSize / mallocChunkSize from hi'),
      putFree, set_chunk_of_ne hi]

namespace Grown

theorem last (hg : Grown h h') : h'.last = h.last + 2 := by
  unfold Heap.last
  rw [hg.size]
  unfold mallocSbrkJumpSize mallocChunkSize
  omega

theorem readsFree (hg : Grown h h') (hi : h.ReadsFree i) : h'.ReadsFree i := by
  by_cases h1 : i = h.last
  · rw [h1]; exact hg.free
  · by_cases h2 : i = h.last + 2
    · rw [h2]; exact hg.sentinel
    · rw [ReadsFree, hg.other i h1 h2]; exact hi

theorem start_iff (hg : Grown h h') (h0 : h.len h.last = 0) (hl : h.Start h.last) :
    h'.Start i ↔ h.Start i ∨ i = h.last + 2 :=
  Walk.extend_iff (by omega) h0 hg.len hg.zero
    (fun q hq => by rw [Heap.len, hg.other q (by omega) (by omega), Heap.len]) hl

theorem keeps (hg : Grown h h') (hs : h.Sound) (hsmall : h'.last ≤ 65535) : Keeps h h' := by
  have hstart := fun i => hg.start_iff (i := i) hs.zero hs.reaches
  have hsound : h'.Sound := by
    refine ⟨⟨?_, ?_, ?_, fun i hi => ?_⟩, ?_, hsmall⟩
    · rw [hg.size]
      have := hs.aligned
      unfold mallocSbrkJumpSize mallocChunkSize at *
      omega
    · rw [hg.last]; exact (hstart _).mpr (Or.inr rfl)
    · rw [hg.last]; exact hg.zero
    · rcases (hstart i).mp hi with hi | rfl
      · by_cases h1 : i = h.last
        · rw [h1]; exact hg.free.1
        · rw [hg.other i h1 (by have := hs.start_le hi; omega)]
          exact hs.signature i hi
      · exact hg.sentinel.1
    · rw [hg.last]; exact hg.sentinel
  refine ⟨hsound, by rw [hg.size]; omega, fun i hi => ?_, fun i hi => ?_, fun i => hg.readsFree⟩
  · have h1 : i ≠ h.last := by rintro rfl; exact hi.2 hs.sentinel.2
    have h2 : i ≠ h.last + 2 := by have := hs.start_le hi.1; omega
    exact ⟨⟨(hstart i).mpr (Or.inl hi.1), by rw [hg.other i h1 h2]; exact hi.2⟩, hg.other i h1 h2⟩
  · have h1 : i ≠ h.last := by rintro rfl; exact hi.2 hg.free.2
    have h2 : i ≠ h.last + 2 := by rintro rfl; exact hi.2 hg.sentinel.2
    refine ⟨((hstart i).mp hi.1).resolve_right h2, ?_⟩
    rw [← hg.other i h1 h2]
    exact hi.2

/-- The free end of the heap grows. -/
theorem freeFrom (hg : Grown h h') (hs : h.Sound) {p : Nat} (hp : h.FreeFrom p) :
    h'.FreeFrom p := by
  have hstart := fun i => hg.start_iff (i := i) hs.zero hs.reaches
  refine ⟨(hstart p).mpr (Or.inl hp.1), fun q hq hpq => ?_⟩
  rcases (hstart q).mp hq with hq | rfl
  · exact hg.readsFree (hp.2 q hq hpq)
  · exact hg.sentinel

/-- The first chunk of a heap that was empty. -/
theorem sound_of_empty (hg : Grown h h') (h0 : h.size = 0) :
    h'.Sound ∧ h'.FreeFrom 0 ∧ h'.last = 2 := by
  have hl0 : h.last = 0 := by simp [Heap.last, h0]
  have hlen := hg.len
  have hfree := hg.free
  have hzero := hg.zero
  have hsent := hg.sentinel
  have hlast := hg.last
  rw [hl0] at hlen hfree hzero hsent hlast
  have hstart : ∀ i, h'.Start i ↔ i = 0 ∨ i = 2 := by
    intro i
    constructor
    · intro hi
      by_cases hi0 : i = 0
      · exact Or.inl hi0
      · have h2 := (Walk.tail hi (Ne.symm hi0)).2
        rw [hlen] at h2
        by_cases hi2 : i = 2
        · exact Or.inr hi2
        · have := (Walk.tail h2 (by omega)).1
          rw [hzero] at this
          omega
    · rintro (rfl | rfl)
      · exact Walk.refl 0
      · have h2 := Walk.snoc (show Walk h'.len 0 0 from Walk.refl 0) (by omega)
        rwa [hlen] at h2
  refine ⟨⟨⟨?_, ?_, ?_, fun i hi => ?_⟩, ?_, by omega⟩, ⟨Walk.refl 0, fun i hi _ => ?_⟩, hlast⟩
  · rw [hg.size, h0]; rfl
  · rw [hlast]; exact (hstart 2).mpr (Or.inr rfl)
  · rw [hlast]; exact hzero
  · rcases (hstart i).mp hi with rfl | rfl
    · exact hfree.1
    · exact hsent.1
  · rw [hlast]; exact hsent
  · rcases (hstart i).mp hi with rfl | rfl
    · exact hfree
    · exact hsent

end Grown

theorem Grown.inner (hg : Grown h h') (hs : h.Sound) : Inner h h' := by
  intro j hj m hm hm'
  have hlt : j < h.last := hs.lt_last hj.1 fun h0 => by omega
  have hle := hs.next_le hj.1 hlt
  exact hg.other m (by omega) (by omega)

/-! ### Putting a chunk in use -/

/-- `h'` is `h` with the header `c` at `i` and what is left of the old chunk there, if anything, as a
free chunk behind it. -/
structure Carved (h h' : Heap) (i : Nat) (c : MallocChunk) : Prop where
  size : h'.size = h.size
  here : h'.chunk i = c
  rest : c.numChunks < h.len i →
    h'.ReadsFree (i + c.numChunks) ∧ h'.len (i + c.numChunks) = h.len i - c.numChunks
  other : ∀ j, j ≠ i → (c.numChunks < h.len i → j ≠ i + c.numChunks) → h'.chunk j = h.chunk j

/-- `h'` has a chunk with header `c` at `i`; the other chunks in use are those of `h`. -/
structure Placed (h h' : Heap) (i : Nat) (c : MallocChunk) : Prop where
  sound : h'.Sound
  size_le : h.size ≤ h'.size
  start : h'.Start i
  here : h'.chunk i = c
  used : ∀ j, j ≠ i → h.Used j → h'.Used j ∧ h'.chunk j = h.chunk j
  only : ∀ j, h'.Used j → j = i ∨ h.Used j
  readsFree : ∀ j, j ≠ i → h.ReadsFree j → h'.ReadsFree j

theorem Keeps.placed {c : MallocChunk} (hk : Keeps h h') (hp : Placed h' h'' i c) : Placed h h'' i c := by
  refine ⟨hp.sound, hk.size_le.trans hp.size_le, hp.start, hp.here, fun j hj hu => ?_, fun j hu => ?_,
    fun j hj hf => hp.readsFree j hj (hk.readsFree j hf)⟩
  · obtain ⟨h1, e1⟩ := hk.used j hu
    obtain ⟨h2, e2⟩ := hp.used j hj h1
    exact ⟨h2, e2.trans e1⟩
  · exact (hp.only j hu).imp_right (hk.only j)

theorem Carved.placed {c : MallocChunk} (hc : Carved h h' i c) (hs : h.Sound) (hi : h.Start i)
    (hpos : 0 < c.numChunks) (hle : c.numChunks ≤ h.len i) (hsig : c.signature = c.checksum) :
    Placed h h' i c := by
  have hlt : i < h.last := hs.lt_last hi (by omega)
  have hself : h'.len i = c.numChunks := congrArg MallocChunk.numChunks hc.here
  have hlast : h'.last = h.last := by unfold last; rw [hc.size]
  have hstart : ∀ j, h'.Start j ↔ h.Start j ∨ j = i + c.numChunks := by
    intro j
    rcases Nat.lt_or_eq_of_le hle with hlt' | heq
    · exact Walk.split_iff hpos hlt' hself (hc.rest hlt').2
        (fun q hq hq' => congrArg MallocChunk.numChunks (hc.other q hq fun _ => hq')) hi
    · have hsame : h'.len = h.len := by
        funext q
        by_cases hq : q = i
        · rw [hq, hself, heq]
        · exact congrArg MallocChunk.numChunks (hc.other q hq fun hl => by omega)
      unfold Start
      rw [hsame]
      refine ⟨Or.inl, ?_⟩
      rintro (hj | rfl)
      · exact hj
      · rw [heq]; exact hs.next hi hlt
  -- the place behind the carved chunk was no chunk in use
  have hmid : ∀ j, h.Start j → c.numChunks < h.len i → j ≠ i + c.numChunks := by
    rintro j hj hlt' rfl
    have := Walk.gap hi hj (by omega)
    unfold len at *
    omega
  have hfree : ∀ j, j ≠ i → h.ReadsFree j → h'.ReadsFree j := by
    intro j hj hf
    by_cases hm : c.numChunks < h.len i ∧ j = i + c.numChunks
    · rw [hm.2]; exact (hc.rest hm.1).1
    · rw [ReadsFree, hc.other j hj fun hl hj' => hm ⟨hl, hj'⟩]; exact hf
  have hsound : h'.Sound := by
    refine ⟨⟨by rw [hc.size]; exact hs.aligned, ?_, ?_, fun j hj => ?_⟩, ?_, by rw [hlast]; exact hs.small⟩
    · rw [hlast]; exact (hstart _).mpr (Or.inl hs.reaches)
    · rw [hlast, len, hc.other _ (by omega) (hmid _ hs.reaches)]; exact hs.zero
    · by_cases hji : j = i
      · rw [hji, hc.here]; exact hsig
      · by_cases hm : c.numChunks < h.len i ∧ j = i + c.numChunks
        · rw [hm.2]; exact (hc.rest hm.1).1.1
        · rw [hc.other j hji fun hl hj' => hm ⟨hl, hj'⟩]
          rcases (hstart j).mp hj with hj | rfl
          · exact hs.signature j hj
          · have heq : c.numChunks = h.len i := by
              by_contra hne
              exact hm ⟨by omega, rfl⟩
            rw [heq]
            exact hs.signature _ (hs.next hi hlt)
    · rw [hlast]; exact hfree _ (by omega) hs.sentinel
  refine ⟨hsound, by rw [hc.size], (hstart i).mpr (Or.inl hi), hc.here, fun j hj hu => ?_,
    fun j hu => ?_, hfree⟩
  · have heq := hc.other j hj (hmid j hu.1)
    exact ⟨⟨(hstart j).mpr (Or.inl hu.1), by rw [heq]; exact hu.2⟩, heq⟩
  · by_cases hji : j = i
    · exact Or.inl hji
    · right
      by_cases hm : c.numChunks < h.len i ∧ j = i + c.numChunks
      · exact absurd ((hc.rest hm.1).1.2) (hm.2 ▸ hu.2)
      · have heq := hc.other j hji fun hl hj' => hm ⟨hl, hj'⟩
        have hju := hu.2
        rw [heq] at hju
        refine ⟨?_, hju⟩
        rcases (hstart j).mp hu.1 with hj | rfl
        · exact hj
        · have heq' : c.numChunks = h.len i := by
            by_contra hne
            exact hm ⟨by omega, rfl⟩
          rw [heq']
          exact hs.next hi hlt

theorem carved_of {c : MallocChunk} (hn : c.numChunks = n) (hsize : h'.size = h.size)
    (hhere : h'.chunk i = c)
    (hrest : n < h.len i → h'.ReadsFree (i + n) ∧ h'.len (i + n) = h.len i - n)
    (hother : ∀ j, j ≠ i → (n < h.len i → j ≠ i + n) → h'.chunk j = h.chunk j) :
    Carved h h' i c := by
  subst hn
  exact ⟨hsize, hhere, hrest, hother⟩

/-- `_realloc_r` shrinks a chunk. -/
theorem carved_shrink (owner size : Nat) (hpos : 0 < n) (hlt : n < h.len i) :
    Carved h ((h.putUsed i owner n size).putFree (i + n) (h.len i - n)) i
      (MallocChunk.setUsed owner n size) := by
  have hne : i ≠ i + n := by omega
  refine carved_of (MallocChunk.numChunks_setUsed owner n size) rfl ?_ (fun _ => ⟨?_, ?_⟩) fun j hj hj' => ?_
  · rw [putFree, set_chunk_of_ne hne, putUsed, set_chunk_self]
  · rw [ReadsFree, putFree, set_chunk_self]
    exact MallocChunk.setFree_readsFree _
  · rw [len, putFree, set_chunk_self]
    rfl
  · rw [putFree, set_chunk_of_ne (hj' hlt), putUsed, set_chunk_of_ne hj]

theorem carved_takeChunk (owner size : Nat) (hpos : 0 < n) :
    Carved h (h.takeChunk i n owner size) i (MallocChunk.setUsed owner n size) := by
  have hne : i + n ≠ i := by omega
  unfold takeChunk
  by_cases hlt : n < h.len i
  · rw [if_pos (show (h.chunk i).numChunks > n from hlt)]
    refine carved_of (MallocChunk.numChunks_setUsed owner n size) rfl ?_ (fun _ => ⟨?_, ?_⟩) fun j hj hj' => ?_
    · rw [putUsed, set_chunk_self]
    · rw [ReadsFree, putUsed, set_chunk_of_ne hne, putFree, set_chunk_self]
      exact MallocChunk.setFree_readsFree _
    · rw [len, putUsed, set_chunk_of_ne hne, putFree, set_chunk_self]
      rfl
    · rw [putUsed, set_chunk_of_ne hj, putFree, set_chunk_of_ne (hj' hlt)]
  · rw [if_neg (show ¬(h.chunk i).numChunks > n from hlt)]
    refine carved_of (MallocChunk.numChunks_setUsed owner n size) rfl ?_ (fun hl => absurd hl hlt) fun j hj _ => ?_
    · rw [putUsed, set_chunk_self]
    · rw [putUsed, set_chunk_of_ne hj]

/-! ### Allocating -/

/-- The memory the process has is within what `uint16_t` chunks can count: the stack lies below, or,
where there is no stack to stop at, the heap with the new chunks does. -/
def RoomFor (h : Heap) (n : Nat) : Option Int → Prop
  | some stack => stack ≤ mallocChunkSize * 65535
  | none => h.last + n + 1 ≤ 65535

theorem TailAt.freeFrom {p : Nat} (hs : h.Sound) (hp : h.TailAt p) : h.FreeFrom p := by
  refine ⟨hp.1, fun q hq hpq => ?_⟩
  rcases hp.2 with rfl | ⟨hf, hend⟩
  · rw [Nat.le_antisymm (hs.start_le hq) hpq]; exact hs.sentinel
  · rcases Nat.lt_or_eq_of_le hpq with hlt | rfl
    · have := Walk.gap hp.1 hq hlt
      rw [Nat.le_antisymm (hs.start_le hq) (by omega)]
      exact hs.sentinel
    · exact hf

/-- What `_malloc_r` does: no chunk, or a new chunk in use at a place where none was. -/
def MallocSpec (h : Heap) (n owner size : Nat) (r : Heap × Nat × Option Errno) : Prop :=
  (r.2.1 = 0 ∧ Keeps h r.1) ∨
    ∃ i, r.2.1 = memoryOf i ∧ ¬h.Used i ∧ Placed h r.1 i (MallocChunk.setUsed owner n size)

theorem mallocLoop_spec {n : Nat} (owner size : Nat) {stack : Option Int} (hn : 0 < n) (e : Nat)
    (hroom : ∀ st, stack = some st → st ≤ mallocChunkSize * 65535)
    (hroom' : stack = none → e + n + 1 ≤ 65535) (fuel : Nat) :
    ∀ (h : Heap) (p : Nat), h.Sound → 0 < h.last → h.TailAt p → p ≤ e → n - (h.last - p) < fuel →
      ∃ r, mallocLoop n owner size stack fuel h = some r ∧ MallocSpec h n owner size r ∧ (r.2.1 = 0 → Inner h r.1) := by
  induction fuel with
  | zero => intro h p _ _ _ _ hf; omega
  | succ fuel ih =>
    intro h p hs hl hp hpe hf
    unfold mallocLoop
    rcases findFreeChunk_spec hs n h.fuel 0 (Walk.refl 0) (by unfold Heap.fuel; omega) with
      ⟨i, hrun, hi, hlt, hfree, hle⟩ | ⟨hrun, hnone⟩
    · refine ⟨_, by rw [hrun]; rfl, Or.inr ⟨i, rfl, fun hu => hu.2 hfree.2, ?_⟩, fun h0 => ?_⟩
      swap
      · have hne : memoryOf i ≠ 0 := by
          unfold memoryOf mallocHeaderSize
          omega
        exact absurd h0 hne
      exact (carved_takeChunk owner size hn).placed hs hi hn hle (MallocChunk.setUsed_signature _ _ _)
    · rw [hrun]
      simp only [Option.bind_eq_bind, Option.bind_some,
        isMemoryCorrupt_spec hs h.fuel 0 (Walk.refl 0) (by unfold Heap.fuel; omega)]
      cases hm : h.getMoreMemory stack with
      | none => exact ⟨_, rfl, Or.inl ⟨rfl, Keeps.refl hs⟩, fun _ => Inner.refl h⟩
      | some h₁ =>
        obtain ⟨hg, hst⟩ := getMoreMemory_spec hm
        -- the free end of the heap is still too short
        have hshort : h.last - p < n := by
          rcases hp.2 with rfl | ⟨hfree, hend⟩
          · omega
          · have hplt : p < h.last ∨ p = h.last := by have := hs.start_le hp.1; omega
            rcases hplt with hplt | rfl
            · have := hnone p hp.1 (Nat.zero_le _) hplt hfree
              omega
            · omega
        have hpl := hs.start_le hp.1
        have hsmall : h₁.last ≤ 65535 := by
          rw [hg.last]
          cases hstack : stack with
          | none => have := hroom' hstack; omega
          | some st =>
            have h1 := hst st hstack
            have h2 := hroom st hstack
            have h3 := hg.size
            unfold Heap.last mallocSbrkJumpSize mallocChunkSize at *
            omega
        have hk := hg.keeps hs hsmall
        obtain ⟨h₂, hclean, hco, htail⟩ := cleanupMemory_spec hk.sound (by rw [hg.last]; omega)
        obtain ⟨p', hp', ht⟩ := htail p (hg.freeFrom hs (hp.freeFrom hs))
        have hl2 : h₂.last = h.last + 2 := by
          rw [← hg.last]
          unfold Heap.last
          rw [hco.size]
        obtain ⟨r, hr, hspec, hinner⟩ := ih h₂ p' hco.sound (by omega) ht (by omega) (by omega)
        have hk2 := hk.trans hco.toKeeps
        have hin2 : Inner h h₂ :=
          (hg.inner hs).trans hk (cleanupMemory_inner hk.sound (by rw [hg.last]; omega) hclean)
        refine ⟨r, by simp only [hclean, Option.bind_some]; exact hr, ?_, fun h0 => hin2.trans hk2 (hinner h0)⟩
        rcases hspec with ⟨h0, hk'⟩ | ⟨i, hi, hu, hpl⟩
        · exact Or.inl ⟨h0, hk2.trans hk'⟩
        · exact Or.inr ⟨i, hi, fun hui => hu (hk2.used i hui).1, hk2.placed hpl⟩

theorem malloc_spec_inner (owner : Nat) {size : Nat} {stack : Option Int} (hs : h.Sound) (h0 : h.size ≠ 0)
    (hn : 0 < mallocCalcNumChunks size) (hroom : h.RoomFor (mallocCalcNumChunks size) stack) :
    ∃ r, h.malloc size owner stack = some r ∧
      MallocSpec h (mallocCalcNumChunks size) owner size r ∧ (r.2.1 = 0 → Inner h r.1) := by
  have hlast : 0 < h.last := by
    have := hs.aligned
    unfold last mallocChunkSize at *
    omega
  unfold malloc
  simp only [h0, ite_false]
  refine mallocLoop_spec owner size hn h.last (fun st hst => ?_) (fun hst => ?_) _ h h.last hs hlast
    ⟨hs.reaches, Or.inl rfl⟩ le_rfl (by omega)
  · rw [hst] at hroom; exact hroom
  · rw [hst] at hroom; exact hroom

theorem malloc_spec (owner : Nat) {size : Nat} {stack : Option Int} (hs : h.Sound) (h0 : h.size ≠ 0)
    (hsize : size ≤ mallocMaxSize) (hroom : h.RoomFor (mallocCalcNumChunks size) stack) :
    ∃ r, h.malloc size owner stack = some r ∧
      MallocSpec h (mallocCalcNumChunks size) owner size r := by
  obtain ⟨r, hr, hspec, _⟩ := malloc_spec_inner owner hs h0 (mallocCalcNumChunks_spec hsize).1 hroom
  exact ⟨r, hr, hspec⟩

theorem malloc_spec_of_empty (owner : Nat) {size : Nat} {stack : Option Int} (h0 : h.size = 0)
    (hsize : size ≤ mallocMaxSize) (hroom : h.RoomFor (mallocCalcNumChunks size) stack) :
    ∃ r, h.malloc size owner stack = some r ∧ (r = (h, 0, some .enomem) ∨
      ∃ h₁, h₁.Sound ∧ 0 < h₁.size ∧ h₁.FreeFrom 0 ∧
        MallocSpec h₁ (mallocCalcNumChunks size) owner size r) := by
  have hn := (mallocCalcNumChunks_spec hsize).1
  unfold malloc
  simp only [h0, ite_true]
  cases hm : h.getMoreMemory stack with
  | none => exact ⟨_, rfl, Or.inl rfl⟩
  | some h₁ =>
    obtain ⟨hg, _⟩ := getMoreMemory_spec hm
    obtain ⟨hs, hfree, hlast⟩ := hg.sound_of_empty h0
    have hl0 : h.last = 0 := by simp [Heap.last, h0]
    have htail : h₁.TailAt 0 := by
      have hlen := hg.len
      have hf := hg.free
      rw [hl0] at hlen hf
      exact ⟨Walk.refl 0, Or.inr ⟨hf, by omega⟩⟩
    obtain ⟨r, hr, hspec, _⟩ := mallocLoop_spec owner size hn 0
      (fun st (hst : stack = some st) => by rw [hst] at hroom; exact hroom)
      (fun hst : stack = none => by rw [hst] at hroom; unfold RoomFor at hroom; omega)
      (mallocCalcNumChunks size + 2) h₁ 0 hs (by omega) htail le_rfl (by omega)
    exact ⟨r, hr, Or.inr ⟨h₁, hs, by rw [hg.size]; unfold mallocSbrkJumpSize; omega, hfree, hspec⟩⟩

end Heap

end CoActionOS
