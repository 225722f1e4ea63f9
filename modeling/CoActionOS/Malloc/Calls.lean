import CoActionOS.Malloc.Chunks

/-!
# `_free_r`, `malloc_free_task_r` and `_realloc_r`

The tasks' memory is freed by walking over the chunks while freeing merges them.  The walk follows the
header read before the merge, so it can run over places where no chunk starts any more;
`FreeWalk` is what keeps it on course: it meets every chunk in use that lies ahead, and what it meets
besides chunks reads as free.
-/

namespace CoActionOS.Heap

open Function

variable {h h' h'' : Heap} {i j n : Nat}

theorem memoryOf_ne_zero (i : Nat) : memoryOf i ≠ 0 := by
  unfold memoryOf mallocHeaderSize
  omega

theorem memoryOf_sub (i : Nat) : (memoryOf i - mallocHeaderSize) % mallocChunkSize = 0 ∧
    mallocChunkFromAddr (memoryOf i) = i := by
  unfold mallocChunkFromAddr memoryOf mallocHeaderSize mallocChunkSize
  omega

theorem memoryOf_inj (h : memoryOf i = memoryOf j) : i = j := by
  have := (memoryOf_sub i).2
  rw [h, (memoryOf_sub j).2] at this
  exact this.symm

/-! ### Freeing one chunk -/

/-- `h'` is `h` without the chunk in use at `i`. -/
structure Freed (h h' : Heap) (i : Nat) : Prop where
  sound : h'.Sound
  size : h'.size = h.size
  used : ∀ j, j ≠ i → h.Used j → h'.Used j ∧ h'.chunk j = h.chunk j
  only : ∀ j, h'.Used j → j ≠ i ∧ h.Used j
  readsFree : ∀ j, h.ReadsFree j → h'.ReadsFree j
  self : h'.ReadsFree i
  walk_of : ∀ a b, Walk h'.len a b → Walk h.len a b
  walk : ∀ a b, Walk h.len a b → h'.Start b → Walk h'.len a b

theorem free_zero : h.free 0 = some h := by
  simp [free]

theorem free_of_readsFree (hf : h.ReadsFree i) : h.free (memoryOf i) = some h := by
  unfold free
  simp [memoryOf_ne_zero, memoryOf_sub, hf.isFree]

/-- `m` is `h` with the header at `i` set free, before any neighbours are merged. -/
structure Unmarked (h m : Heap) (i : Nat) : Prop where
  sound : m.Sound
  size : m.size = h.size
  len : m.len = h.len
  self : m.ReadsFree i
  other : ∀ j, j ≠ i → m.chunk j = h.chunk j

namespace Unmarked

variable {m : Heap}

theorem start_iff (hm : Unmarked h m i) (j : Nat) : m.Start j ↔ h.Start j := by
  unfold Start
  rw [hm.len]

theorem readsFree (hm : Unmarked h m i) (hj : h.ReadsFree j) : m.ReadsFree j := by
  by_cases hji : j = i
  · rw [hji]
    exact hm.self
  · rw [ReadsFree, hm.other j hji]
    exact hj

theorem used (hm : Unmarked h m i) (hji : j ≠ i) (hj : h.Used j) : m.Used j :=
  ⟨(hm.start_iff j).mpr hj.1, by rw [hm.other j hji]; exact hj.2⟩

theorem of_used (hm : Unmarked h m i) (hj : m.Used j) : j ≠ i ∧ h.Used j := by
  have hji : j ≠ i := by rintro rfl; exact hj.2 hm.self.2
  exact ⟨hji, (hm.start_iff j).mp hj.1, by rw [← hm.other j hji]; exact hj.2⟩

end Unmarked

theorem unmarked_putFree (hs : h.Sound) (i : Nat) : Unmarked h (h.putFree i (h.chunk i).numChunks) i := by
  set m := h.putFree i (h.chunk i).numChunks with hm
  have hself : m.ReadsFree i := by
    rw [ReadsFree, hm, putFree, set_chunk_self]
    exact MallocChunk.setFree_readsFree _
  have hother : ∀ j, j ≠ i → m.chunk j = h.chunk j := fun j hj => set_chunk_of_ne hj _
  have hlen : m.len = h.len := by
    funext j
    by_cases hj : j = i
    · subst hj
      rw [len, hm, putFree, set_chunk_self]
      rfl
    · exact congrArg MallocChunk.numChunks (hother j hj)
  have hstart : ∀ j, m.Start j ↔ h.Start j := fun j => by unfold Start; rw [hlen]
  have hsentinel : m.ReadsFree h.last := by
    by_cases hji : h.last = i
    · rw [hji]; exact hself
    · rw [ReadsFree, hother _ hji]; exact hs.sentinel
  refine ⟨⟨⟨hs.aligned, (hstart _).mpr hs.reaches, by rw [hlen]; exact hs.zero, fun j hj => ?_⟩,
    hsentinel, hs.small⟩, rfl, hlen, hself, hother⟩
  by_cases hji : j = i
  · rw [hji]; exact hself.1
  · rw [hother j hji]; exact hs.signature j ((hstart j).mp hj)

theorem free_eq_cleanupMemory (hs : h.Sound) (hu : h.Used i) :
    h.free (memoryOf i) = (h.putFree i (h.chunk i).numChunks).cleanupMemory := by
  have hnot : (h.chunk i).isFree = some false := by
    rw [hs.isFree hu.1]
    simp [hu.2]
  unfold free
  simp only [memoryOf_ne_zero, ite_false, (memoryOf_sub i).1, (memoryOf_sub i).2, ne_eq,
    not_true_eq_false, hnot, Option.bind_eq_bind, Option.bind_some, Bool.false_eq_true]

theorem free_of_used (hs : h.Sound) (hu : h.Used i) :
    ∃ h', h.free (memoryOf i) = some h' ∧ Freed h h' i := by
  have hlt : i < h.last := by
    have hle := hs.start_le hu.1
    have : i ≠ h.last := by rintro rfl; exact hu.2 hs.sentinel.2
    omega
  have hm := unmarked_putFree hs i
  obtain ⟨h', hrun, hco, _⟩ := cleanupMemory_spec hm.sound (show 0 < h.last by omega)
  refine ⟨h', (free_eq_cleanupMemory hs hu).trans hrun, hco.sound, hco.size, fun j hj hju => ?_, fun j hj => ?_,
    fun j hj => hco.readsFree j (hm.readsFree hj), hco.readsFree i hm.self, fun a b hw => ?_,
    fun a b hw hb => ?_⟩
  · obtain ⟨h1, e1⟩ := hco.used j (hm.used hj hju)
    exact ⟨h1, e1.trans (hm.other j hj)⟩
  · exact hm.of_used (hco.only j hj)
  · have := hco.walk_of a b hw
    rwa [hm.len] at this
  · exact hco.walk a b (by rw [hm.len]; exact hw) hb

/-! ### Freeing the chunks of a task -/

/-- From `i` the loop of `malloc_free_task_r` meets every chunk from `i` on; what else it meets reads
as free. -/
structure FreeWalk (h : Heap) (i : Nat) : Prop where
  le : i ≤ h.last
  ahead : ∀ j, h.Start j → i ≤ j → Walk h.len i j
  meets : ∀ j, Walk h.len i j → h.Start j ∨ h.ReadsFree j

theorem FreeWalk.next (hw : h.FreeWalk i) (hs : h.Sound) (hlt : i < h.last) :
    h.FreeWalk (i + h.len i) := by
  have hend := Walk.tail (hw.ahead _ hs.reaches hw.le) (by omega)
  refine ⟨hend.2.le, fun j hj hle => ?_, fun j hj => hw.meets j (.step hend.1 hj)⟩
  exact (Walk.tail (hw.ahead j hj (by omega)) (by omega)).2

theorem FreeWalk.freed (hw : h.FreeWalk j) (hs : h.Sound) (hf : Freed h h' i) :
    h'.FreeWalk j := by
  have hlast : h'.last = h.last := by unfold last; rw [hf.size]
  refine ⟨by rw [hlast]; exact hw.le, fun k hk hle => ?_, fun k hk => ?_⟩
  · exact hf.walk j k (hw.ahead k (hf.walk_of 0 k hk) hle) hk
  · rcases hw.meets k (hf.walk_of j k hk) with hstart | hfree
    · by_cases hki : k = i
      · right; rw [hki]; exact hf.self
      · by_cases h0 : (h.chunk k).actualSize = 0
        · exact Or.inr (hf.readsFree k ⟨hs.signature k hstart, h0⟩)
        · exact Or.inl (hf.used k hki ⟨hstart, h0⟩).1.1
    · exact Or.inr (hf.readsFree k hfree)

/-- `h'` is `h` without the chunks of task `t`. -/
structure FreedTask (h h' : Heap) (t : Nat) : Prop where
  sound : h'.Sound
  size : h'.size = h.size
  used : ∀ j, h.Used j → (h.chunk j).taskId ≠ t → h'.Used j ∧ h'.chunk j = h.chunk j
  only : ∀ j, h'.Used j → (h.chunk j).taskId ≠ t ∧ h.Used j
  readsFree : ∀ j, h.ReadsFree j → h'.ReadsFree j
  gone : ∀ j, h.Used j → (h.chunk j).taskId = t → h'.ReadsFree j

theorem Freed.trans_task {t : Nat} (hf : Freed h h' i) (hi : (h.chunk i).taskId = t)
    (hft : FreedTask h' h'' t) : FreedTask h h'' t := by
  refine ⟨hft.sound, hft.size.trans hf.size, fun j hj hne => ?_, fun j hj => ?_,
    fun j hj => hft.readsFree j (hf.readsFree j hj), fun j hj ht => ?_⟩
  · have hji : j ≠ i := by rintro rfl; exact hne hi
    obtain ⟨h1, e1⟩ := hf.used j hji hj
    obtain ⟨h2, e2⟩ := hft.used j h1 (by rw [e1]; exact hne)
    exact ⟨h2, e2.trans e1⟩
  · obtain ⟨hne, hj'⟩ := hft.only j hj
    obtain ⟨hji, hju⟩ := hf.only j hj'
    rw [(hf.used j hji hju).2] at hne
    exact ⟨hne, hju⟩
  · by_cases hji : j = i
    · rw [hji]; exact hft.readsFree i hf.self
    · obtain ⟨h1, e1⟩ := hf.used j hji hj
      exact hft.gone j h1 (by rw [e1]; exact ht)

/-- A task that has nothing. -/
theorem FreedTask.refl {t : Nat} (hs : h.Sound) (hnone : ∀ j, h.Used j → (h.chunk j).taskId ≠ t) : FreedTask h h t :=
  ⟨hs, rfl, fun _ hj _ => ⟨hj, rfl⟩, fun j hj => ⟨hnone j hj, hj⟩, fun _ hj => hj, fun j hj ht => absurd ht (hnone j hj)⟩

/-- The walk ends at the sentinel only. -/
theorem FreeWalk.eq_last (hw : h.FreeWalk i) (hs : h.Sound) (h0 : (h.chunk i).numChunks = 0) : i = h.last := by
  by_contra hne
  have hpos : 0 < (h.chunk i).numChunks := (Walk.tail (hw.ahead _ hs.reaches hw.le) hne).1
  omega

theorem FreeWalk.lt_last (hw : h.FreeWalk i) (hs : h.Sound) (h0 : ¬ (h.chunk i).numChunks = 0) : i < h.last := by
  have hle := hw.le
  have : i ≠ h.last := by
    rintro rfl
    exact h0 hs.zero
  omega

/-- What the loop does at a header it visits. -/
theorem freeVisited_spec {t : Nat} (hs : h.Sound) (hw : h.FreeWalk i) :
    ∃ h₁, (if (h.chunk i).taskId = t then h.free (memoryOf i) else some h) = some h₁ ∧
      (h₁ = h ∧ ¬ (h.Used i ∧ (h.chunk i).taskId = t) ∨
        h.Used i ∧ (h.chunk i).taskId = t ∧ h.free (memoryOf i) = some h₁ ∧ Freed h h₁ i) := by
  by_cases ht : (h.chunk i).taskId = t
  · rw [if_pos ht]
    by_cases hu : h.Used i
    · obtain ⟨h₁, hrun, hf⟩ := free_of_used hs hu
      exact ⟨h₁, hrun, Or.inr ⟨hu, ht, hrun, hf⟩⟩
    · refine ⟨h, free_of_readsFree ?_, Or.inl ⟨rfl, fun hboth => hu hboth.1⟩⟩
      rcases hw.meets i (.refl i) with hstart | hfree
      · refine ⟨hs.signature i hstart, ?_⟩
        by_contra hne
        exact hu ⟨hstart, hne⟩
      · exact hfree
  · rw [if_neg ht]
    exact ⟨h, rfl, Or.inl ⟨rfl, fun hboth => ht hboth.2⟩⟩

theorem freeTaskLoop_succ {t fuel : Nat} (h0 : ¬ (h.chunk i).numChunks = 0) :
    freeTaskLoop t (fuel + 1) h i = (if (h.chunk i).taskId = t then h.free (memoryOf i) else some h).bind fun h₁ =>
      freeTaskLoop t fuel h₁ (i + h.len i) := by
  rw [freeTaskLoop, if_neg h0]
  split_ifs <;> rfl

theorem freeTaskLoop_spec (t fuel : Nat) : ∀ (h : Heap) (i : Nat), h.Sound → h.FreeWalk i →
    (∀ j, h.Used j → (h.chunk j).taskId = t → i ≤ j) → h.last - i < fuel →
    ∃ h', freeTaskLoop t fuel h i = some h' ∧ FreedTask h h' t := by
  induction fuel with
  | zero => intro h i _ _ _ hf; omega
  | succ fuel ih =>
    intro h i hs hw hahead hf
    by_cases h0 : (h.chunk i).numChunks = 0
    · rw [freeTaskLoop, if_pos h0]
      have hlast := hw.eq_last hs h0
      refine ⟨h, rfl, .refl hs fun j hj ht => ?_⟩
      have hle := hahead j hj ht
      have hstart := hs.start_le hj.1
      have hjl : j = h.last := by omega
      rw [hjl] at hj
      exact hj.2 hs.sentinel.2
    · have hwn := hw.next hs (hw.lt_last hs h0)
      have hnle := hwn.le
      have hpos : 0 < h.len i := Nat.pos_of_ne_zero h0
      -- what lies ahead of the header that is visited lies behind it
      have hmove : ∀ j, h.Used j → (h.chunk j).taskId = t → j ≠ i → i + h.len i ≤ j := fun j hj ht hne =>
        (Walk.tail (hw.ahead j hj.1 (hahead j hj ht)) (Ne.symm hne)).2.le
      obtain ⟨h₁, hvisit, hcases⟩ := freeVisited_spec (t := t) hs hw
      rw [freeTaskLoop_succ h0, hvisit, Option.bind_some]
      rcases hcases with ⟨rfl, hnot⟩ | ⟨hu, ht, -, hfr⟩
      · exact ih _ _ hs hwn (fun j hj hjt => hmove j hj hjt (by rintro rfl; exact hnot ⟨hj, hjt⟩)) (by omega)
      · have hl1 : h₁.last = h.last := by unfold last; rw [hfr.size]
        obtain ⟨h', hrun', hft⟩ := ih h₁ (i + h.len i) hfr.sound (hwn.freed hs hfr)
          (fun j hj hjt => by
            obtain ⟨hji, hju⟩ := hfr.only j hj
            rw [(hfr.used j hji hju).2] at hjt
            exact hmove j hju hjt hji)
          (by omega)
        exact ⟨h', hrun', hfr.trans_task ht hft⟩

theorem mallocFreeTask_spec (hs : h.Sound) (t : Nat) :
    ∃ h', h.mallocFreeTask t = some h' ∧ FreedTask h h' t :=
  freeTaskLoop_spec t h.fuel h 0 hs
    ⟨Nat.zero_le _, fun _ hj _ => hj, fun _ hj => Or.inl hj⟩ (fun _ _ _ => Nat.zero_le _)
    (by unfold fuel; omega)

/-! ### Reallocating -/

/-- The branch of `_realloc_r` that compares the wrong way round: the next chunk is free and the two
together are too short, and yet the chunk is taken to grow into them. -/
def GrowsTooFar (h : Heap) (i n : Nat) : Prop :=
  h.len i ≤ n ∧ (h.chunk (i + h.len i)).isFree = some true ∧
    (h.len (i + h.len i) + h.len i) % 2 ^ 16 < n

/-- What `_realloc_r` does to a chunk in use: nothing, a new header at the same place, or a new chunk
elsewhere in its stead. -/
def ReallocSpec (h : Heap) (i n owner size : Nat) (r : Heap × Nat × Option Errno) : Prop :=
  (r.2.1 = 0 ∧ Keeps h r.1) ∨
    (r.2.1 = memoryOf i ∧ Placed h r.1 i (MallocChunk.setUsed owner n size)) ∨
    ∃ j h₁, r.2.1 = memoryOf j ∧ ¬h.Used j ∧ Placed h h₁ j (MallocChunk.setUsed owner n size) ∧
      Freed h₁ r.1 i

theorem reallocMove_spec (owner : Nat) {size : Nat} {stack : Option Int} (hs : h.Sound) (hu : h.Used i)
    (h0 : h.size ≠ 0) (hsize : size ≤ mallocMaxSize)
    (hroom : h.RoomFor (mallocCalcNumChunks size) stack) :
    ∃ r, h.reallocMove (memoryOf i) size owner stack = some r ∧
      ReallocSpec h i (mallocCalcNumChunks size) owner size r := by
  obtain ⟨⟨h₁, alloc, errno⟩, hrun, hspec⟩ := malloc_spec owner hs h0 hsize hroom
  unfold reallocMove
  rcases hspec with ⟨ha, hk⟩ | ⟨j, ha, hj, hp⟩
  · refine ⟨(h₁, alloc, errno), ?_, Or.inl ⟨ha, hk⟩⟩
    simp only at ha
    simp [hrun, ha]
  · have hij : i ≠ j := by rintro rfl; exact hj hu
    obtain ⟨h₂, hfree, hf⟩ := free_of_used hp.sound (hp.used i hij hu).1
    refine ⟨(h₂, alloc, errno), ?_, Or.inr (Or.inr ⟨j, h₁, ha, hj, hp, hf⟩)⟩
    simp only at ha
    simp [hrun, ha, memoryOf_ne_zero, hfree]

/-- A chunk takes over the free chunk behind it whole, or keeps its length at the end of the heap. -/
theorem placed_whole {owner size : Nat} (hs : h.Sound) (hu : h.Used i) (hlt : i < h.last)
    (hfree : h.ReadsFree (i + h.len i)) (heq : h.len (i + h.len i) + h.len i = n) :
    Placed h (h.putUsed i owner n size) i (MallocChunk.setUsed owner n size) := by
  have hpos := hs.len_pos hu.1 hlt
  have hnext := hs.next hu.1 hlt
  have hself : (h.putUsed i owner n size).chunk i = MallocChunk.setUsed owner n size :=
    set_chunk_self i _
  have hother : ∀ j, j ≠ i → (h.putUsed i owner n size).chunk j = h.chunk j :=
    fun j hj => set_chunk_of_ne hj _
  rcases Nat.lt_or_eq_of_le (hs.start_le hnext) with hnlt | hend
  · have hposn := hs.len_pos hnext hnlt
    -- the free chunk behind becomes part of the chunk
    have hlen : (h.putUsed i owner n size).len i = h.len i + h.len (i + h.len i) := by
      rw [len, hself, MallocChunk.numChunks_setUsed]
      omega
    have hstart : ∀ j, (h.putUsed i owner n size).Start j ↔ h.Start j ∧ j ≠ i + h.len i :=
      fun j => Walk.merge_iff hpos hposn hlen
        (fun q hq => congrArg MallocChunk.numChunks (hother q hq)) hu.1
    have hkeep : ∀ j, j ≠ i → h.ReadsFree j → (h.putUsed i owner n size).ReadsFree j := by
      intro j hj hf
      rw [ReadsFree, hother j hj]
      exact hf
    have hsound : (h.putUsed i owner n size).Sound := by
      refine ⟨⟨hs.aligned, (hstart _).mpr ⟨hs.reaches, by show h.last ≠ _; omega⟩, ?_,
        fun j hj => ?_⟩, hkeep _ (by show h.last ≠ i; omega) hs.sentinel, hs.small⟩
      · rw [len, hother _ (by show h.last ≠ i; omega)]
        exact hs.zero
      · by_cases hji : j = i
        · rw [hji, hself]; exact MallocChunk.setUsed_signature _ _ _
        · rw [hother j hji]; exact hs.signature j ((hstart j).mp hj).1
    refine ⟨hsound, le_rfl, (hstart i).mpr ⟨hu.1, by omega⟩, hself, fun j hj hju => ?_,
      fun j hju => ?_, hkeep⟩
    · have hjn : j ≠ i + h.len i := by rintro rfl; exact hju.2 hfree.2
      exact ⟨⟨(hstart j).mpr ⟨hju.1, hjn⟩, by rw [hother j hj]; exact hju.2⟩, hother j hj⟩
    · by_cases hji : j = i
      · exact Or.inl hji
      · exact Or.inr ⟨((hstart j).mp hju.1).1, by rw [← hother j hji]; exact hju.2⟩
  -- at the end of the heap nothing is free, and the chunk has the length already
  · have hn : h.len i = n := by
      rw [hend, hs.zero] at heq
      omega
    have hc : Carved h (h.putUsed i owner n size) i (MallocChunk.setUsed owner n size) :=
      carved_of (MallocChunk.numChunks_setUsed owner n size) rfl hself (fun hl => by omega)
        fun j hj _ => hother j hj
    refine hc.placed hs hu.1 ?_ ?_ (MallocChunk.setUsed_signature _ _ _)
    · rw [MallocChunk.numChunks_setUsed]; omega
    · rw [MallocChunk.numChunks_setUsed]; omega

theorem realloc_of_readsFree {owner size : Nat} {stack : Option Int} (hf : h.ReadsFree i)
    (hsize : size ≠ 0) (h0 : h.size ≠ 0) :
    h.realloc (memoryOf i) size owner stack = some (h, 0, some .einval) := by
  unfold realloc
  simp [hsize, h0, memoryOf_ne_zero, memoryOf_sub, hf.isFree]

theorem realloc_of_used (owner : Nat) {size : Nat} {stack : Option Int} (hs : h.Sound) (hu : h.Used i)
    (h0 : h.size ≠ 0) (hpos : size ≠ 0) (hsize : size ≤ mallocMaxSize)
    (hroom : h.RoomFor (mallocCalcNumChunks size) stack)
    (hok : ¬h.GrowsTooFar i (mallocCalcNumChunks size)) :
    ∃ r, h.realloc (memoryOf i) size owner stack = some r ∧
      ReallocSpec h i (mallocCalcNumChunks size) owner size r := by
  obtain ⟨hn, hn', _⟩ := mallocCalcNumChunks_spec hsize
  -- a chunk in use is not the sentinel
  have hlt : i < h.last := by
    have hle := hs.start_le hu.1
    have : i ≠ h.last := by rintro rfl; exact hu.2 hs.sentinel.2
    omega
  have hnext := hs.next hu.1 hlt
  have hfree : (h.chunk i).isFree = some false := by
    rw [hs.isFree hu.1]
    simp [hu.2]
  have hmove := reallocMove_spec owner hs hu h0 hsize hroom
  unfold realloc
  simp only [hpos, h0, memoryOf_ne_zero, ite_false, (memoryOf_sub i).2, hfree, Option.bind_eq_bind,
    Option.bind_some, Bool.false_eq_true, numChunks_eq_len]
  by_cases hshrink : mallocCalcNumChunks size < h.len i
  · rw [if_pos hshrink]
    refine ⟨_, rfl, Or.inr (Or.inl ⟨rfl, ?_⟩)⟩
    exact (carved_shrink owner size hn hshrink).placed hs hu.1 hn hshrink.le
      (MallocChunk.setUsed_signature _ _ _)
  · rw [if_neg hshrink]
    by_cases hnf : h.ReadsFree (i + h.len i)
    · simp only [hnf.isFree, Option.bind_some, ite_true]
      -- the two together are long enough, as the other case is excluded
      have hfar : ¬(h.len (i + h.len i) + h.len i) % 2 ^ 16 < mallocCalcNumChunks size := fun hlt' =>
        hok ⟨by omega, hnf.isFree, hlt'⟩
      rw [if_neg hfar]
      by_cases heq : (h.len (i + h.len i) + h.len i) % 2 ^ 16 = mallocCalcNumChunks size
      · rw [if_pos heq]
        refine ⟨_, rfl, Or.inr (Or.inl ⟨rfl, placed_whole hs hu hlt hnf ?_⟩)⟩
        have hsmall := hs.small
        rcases Nat.lt_or_eq_of_le (hs.start_le hnext) with hnlt | hend
        · have := hs.next_le hnext hnlt
          omega
        · rw [hend, hs.zero] at heq ⊢
          have := hs.next_le hu.1 hlt
          omega
      · rw [if_neg heq]
        exact hmove
    · have hused : (h.chunk (i + h.len i)).isFree = some false := by
        rw [hs.isFree hnext]
        have : (h.chunk (i + h.len i)).actualSize ≠ 0 := fun h0 => hnf ⟨hs.signature _ hnext, h0⟩
        simp [this]
      simp only [hused, Option.bind_some, Bool.false_eq_true, ite_false]
      exact hmove

end CoActionOS.Heap
