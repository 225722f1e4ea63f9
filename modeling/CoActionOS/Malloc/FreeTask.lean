import CoActionOS.Malloc.Contents

/-!
# Freeing the memory of a task

`malloc_free_task_r` follows the headers from the base on while every `_free_r` that it calls merges free neighbours in all
of the heap.  The header that it goes on to can be one that has just been merged away.  It is still there, with the length
and the checksum that it had, and reads as free, so that the loop passes over it (`ValidVisit`).

The loop comes down to freeing chunks of the task one after the other (`FreeSteps`).  No other chunk in use is changed, and
after each of them no two neighbours are free.  Where the task has no memory nothing is merged either: neighbours that
`_realloc_r` left unmerged stay so.
-/

namespace CoActionOS.Heap

variable {h h' h₁ : Heap} {i c n t : Nat} {data : Nat → UInt8}

/-- No two neighbours are free. -/
def Merged (h : Heap) : Prop :=
  ∀ i, h.Start i → i + h.len i < h.last → ¬ (h.ReadsFree i ∧ h.ReadsFree (i + h.len i))

/-- What the loop of `malloc_free_task_r` visits: the place of a header, and the heap at that time. -/
def freeTaskVisits (taskId : Nat) : Nat → Heap → Nat → List (Heap × Nat)
  | 0, _, _ => []
  | fuel + 1, h, i =>
    (h, i) ::
      if (h.chunk i).numChunks = 0 then []
      else
        match if (h.chunk i).taskId = taskId then h.free (memoryOf i) else some h with
        | none => []
        | some h' => freeTaskVisits taskId fuel h' (i + (h.chunk i).numChunks)

/-- A header of `h`, the heap at the beginning, that has its checksum at the time of the visit.  By then it is still that of a
chunk, or has been merged away and reads as free. -/
structure ValidVisit (h : Heap) (v : Heap × Nat) : Prop where
  start : h.Start v.2
  signature : (v.1.chunk v.2).signature = (v.1.chunk v.2).checksum
  current : v.1.Start v.2 ∨ v.1.ReadsFree v.2

/-- The chunks in use of task `t` are free, and no others; those have their places, headers and payloads. -/
structure FreesExactly (h h' : Heap) (t : Nat) : Prop where
  sound : h'.Sound
  used_iff : ∀ j, h'.Used j ↔ h.Used j ∧ (h.chunk j).taskId ≠ t
  freed : ∀ j, h.Used j → (h.chunk j).taskId = t → h'.ReadsFree j
  untouched : ∀ j, h'.Used j → ∀ data, Untouched h h' data j

/-! ### Merging -/

/-- The loop has merged what is free in front of `c`. -/
theorem cleanupLoop_merged (fuel : Nat) : ∀ {h h' : Heap} {c n : Nat}, h.Sound → h.Start c → c < h.last →
    n = c + h.len c → cleanupLoop fuel h c n = some h' →
    (∀ q, h.Start q → q < c → ¬ (h.ReadsFree q ∧ h.ReadsFree (q + h.len q))) → h'.Merged := by
  induction fuel with
  | zero =>
    intro h h' c n _ _ _ _ hrun
    exact absurd hrun (by simp [cleanupLoop])
  | succ fuel ih =>
    rintro h h' c _ hs hc hlt rfl hrun hdone
    have hn := hs.next hc hlt
    have hpos := hs.len_pos hc hlt
    unfold cleanupLoop at hrun
    simp only [numChunks_eq_len] at hrun
    by_cases h0 : h.len (c + h.len c) = 0
    · simp only [h0, ite_true, Option.some.injEq] at hrun
      rw [← hrun]
      have hend : c + h.len c = h.last := by
        by_contra hne
        have hle := hs.start_le hn
        have := hs.len_pos hn (by omega)
        omega
      intro q hq hqlast
      rcases Nat.lt_trichotomy q c with hqc | rfl | hcq
      · exact hdone q hq hqc
      · omega
      · have := Walk.gap hc hq hcq
        omega
    · have hnlt := hs.lt_last hn h0
      simp only [h0, ite_false, hs.isFree hc, hs.isFree hn, Option.bind_eq_bind, Option.bind_some] at hrun
      by_cases hfree : ((h.chunk c).actualSize == 0 && (h.chunk (c + h.len c)).actualSize == 0) = true
      · rw [if_pos hfree] at hrun
        simp only [Bool.and_eq_true, beq_iff_eq] at hfree
        have hfc : h.ReadsFree c := ⟨hs.signature c hc, hfree.1⟩
        obtain ⟨hco, hstart, hlen⟩ := coalesced_merge hs hc hnlt hfc ⟨hs.signature _ hn, hfree.2⟩
        have hcs := (hstart c).mpr ⟨hc, by omega⟩
        set m := h.putFree c ((h.len c + h.len (c + h.len c)) % 2 ^ 16)
        have hother : ∀ q, q ≠ c → m.chunk q = h.chunk q := fun q hq => set_chunk_of_ne hq _
        have hnext : m.len (c + h.len c) = h.len (c + h.len c) :=
          congrArg MallocChunk.numChunks (hother _ (by omega))
        rw [hnext] at hrun
        refine ih hco.sound hcs hlt (by rw [hlen]; omega) hrun fun q hq hqc => ?_
        have hqlen : m.len q = h.len q := congrArg MallocChunk.numChunks (hother q (by omega))
        rw [ReadsFree, hother q (by omega), hqlen]
        rintro ⟨hqfree, hnextFree⟩
        refine hdone q ((hstart q).mp hq).1 hqc ⟨hqfree, ?_⟩
        -- the chunk that grew was free before, too
        by_cases hqn : q + h.len q = c
        · rw [hqn]
          exact hfc
        · rw [ReadsFree, hother _ hqn] at hnextFree
          exact hnextFree
      · rw [if_neg hfree] at hrun
        refine ih hs hn hnlt rfl hrun fun q hq hqn => ?_
        rcases Nat.lt_trichotomy q c with hqc | rfl | hcq
        · exact hdone q hq hqc
        · rintro ⟨hqfree, hnextFree⟩
          exact hfree (by simp [hqfree.2, hnextFree.2])
        · have := Walk.gap hc hq hcq
          omega

theorem cleanupMemory_merged (hs : h.Sound) (hpos : 0 < h.last) (hrun : h.cleanupMemory = some h') : h'.Merged :=
  cleanupLoop_merged h.fuel hs (Walk.refl 0) hpos rfl hrun fun q _ hq => absurd hq (Nat.not_lt_zero q)

theorem free_merged (hs : h.Sound) (hu : h.Used i) (hrun : h.free (memoryOf i) = some h') : h'.Merged := by
  rw [free_eq_cleanupMemory hs hu] at hrun
  have hlt := hu.lt_last hs
  exact cleanupMemory_merged (unmarked_putFree hs i).sound (show 0 < h.last by omega) hrun

/-! ### Payloads -/

/-- Freeing changes no header inside the other chunks in use. -/
theorem free_inner (hs : h.Sound) (hu : h.Used i) (hrun : h.free (memoryOf i) = some h') :
    ∀ j, j ≠ i → h.Used j → ∀ m, j < m → m < j + h.len j → h'.chunk m = h.chunk m := by
  rw [free_eq_cleanupMemory hs hu] at hrun
  have hlt := hu.lt_last hs
  have hm := unmarked_putFree hs i
  have hinner := cleanupMemory_inner hm.sound (show 0 < h.last by omega) hrun
  intro j hji hj m hjm hmj
  have hmi : m ≠ i := by
    rintro rfl
    have := Walk.gap hj.1 hu.1 hjm
    omega
  rw [hinner j (hm.used hji hj) m hjm (by rw [hm.len]; exact hmj), hm.other m hmi]

theorem free_untouched (hs : h.Sound) (hu : h.Used i) (hrun : h.free (memoryOf i) = some h') {j : Nat} (hji : j ≠ i)
    (hj : h.Used j) : Untouched h h' data j := by
  obtain ⟨_, hrun', hf⟩ := free_of_used hs hu
  obtain rfl := Option.some.inj (hrun.symm.trans hrun')
  exact untouched_of_inner (hf.used j hji hj).2 (free_inner hs hu hrun j hji hj)

theorem Untouched.trans {h'' : Heap} (hu : Untouched h h' data i) (hu' : Untouched h' h'' data i) :
    Untouched h h'' data i where
  header := hu'.header.trans hu.header
  bytes k hk := by
    have hcap : h'.capacity i = h.capacity i := by rw [capacity, capacity, len, len, hu.header]
    rw [hu'.bytes k (by rw [hcap]; exact hk), hu.bytes k hk]

/-! ### The walk as a sequence of frees -/

/-- `h'` is what is left of `h` when chunks in use of task `t` are freed one after the other. -/
inductive FreeSteps (t : Nat) : Heap → Heap → Prop
  | refl (h : Heap) : FreeSteps t h h
  | step {h h₁ h' : Heap} {i : Nat} : h.Used i → (h.chunk i).taskId = t → h.free (memoryOf i) = some h₁ →
      FreeSteps t h₁ h' → FreeSteps t h h'

theorem FreeSteps.untouched (hst : FreeSteps t h h') (hs : h.Sound) :
    ∀ j, h.Used j → (h.chunk j).taskId ≠ t → Untouched h h' data j := by
  induction hst with
  | refl h => exact fun j _ _ => ⟨rfl, fun _ _ => rfl⟩
  | @step h h₁ h' i hu ht hrun _ ih =>
    intro j hj hjt
    obtain ⟨_, hrun', hf⟩ := free_of_used hs hu
    obtain rfl := Option.some.inj (hrun.symm.trans hrun')
    have hji : j ≠ i := by
      rintro rfl
      exact hjt ht
    obtain ⟨hj₁, heq⟩ := hf.used j hji hj
    exact (free_untouched hs hu hrun hji hj).trans (ih hf.sound j hj₁ (by rw [heq]; exact hjt))

/-- Nothing was freed, or no two neighbours are free. -/
theorem FreeSteps.merged (hst : FreeSteps t h h') (hs : h.Sound) : h' = h ∨ h'.Merged := by
  induction hst with
  | refl h => exact Or.inl rfl
  | @step h h₁ h' i hu _ hrun _ ih =>
    obtain ⟨_, hrun', hf⟩ := free_of_used hs hu
    obtain rfl := Option.some.inj (hrun.symm.trans hrun')
    right
    rcases ih hf.sound with rfl | hmerged
    · exact free_merged hs hu hrun
    · exact hmerged

theorem FreeSteps.idle (hst : FreeSteps t h h') (hnone : ∀ j, h.Used j → (h.chunk j).taskId ≠ t) : h' = h := by
  cases hst with
  | refl => rfl
  | step hu ht _ _ => exact absurd ht (hnone _ hu)

theorem freeTaskLoop_steps (t fuel : Nat) : ∀ (h : Heap) (i : Nat), h.Sound → h.FreeWalk i →
    ∀ h', freeTaskLoop t fuel h i = some h' → FreeSteps t h h' := by
  induction fuel with
  | zero =>
    intro h i _ _ h' hrun
    exact absurd hrun (by simp [freeTaskLoop])
  | succ fuel ih =>
    intro h i hs hw h' hrun
    by_cases h0 : (h.chunk i).numChunks = 0
    · rw [freeTaskLoop, if_pos h0] at hrun
      rw [← Option.some.inj hrun]
      exact .refl h
    · have hwn := hw.next hs (hw.lt_last hs h0)
      obtain ⟨h₁, hvisit, hcases⟩ := freeVisited_spec (t := t) hs hw
      rw [freeTaskLoop_succ h0, hvisit, Option.bind_some] at hrun
      rcases hcases with ⟨rfl, -⟩ | ⟨hu, ht, hfree, hf⟩
      · exact ih _ _ hs hwn h' hrun
      · exact .step hu ht hfree (ih _ _ hf.sound (hwn.freed hs hf) h' hrun)

/-! ### What is visited -/

/-- The walk meets headers that were on its way from the beginning. -/
theorem freeTaskVisits_spec (t fuel : Nat) : ∀ (h : Heap) (i : Nat), h.Sound → h.FreeWalk i →
    ∀ v ∈ freeTaskVisits t fuel h i,
      Walk h.len i v.2 ∧ v.1.Sound ∧ (v.1.Start v.2 ∨ v.1.ReadsFree v.2) := by
  induction fuel with
  | zero =>
    intro h i _ _ v hv
    exact absurd hv List.not_mem_nil
  | succ fuel ih =>
    intro h i hs hw v hv
    unfold freeTaskVisits at hv
    rcases List.mem_cons.mp hv with rfl | hv
    · exact ⟨.refl i, hs, hw.meets i (.refl i)⟩
    · by_cases h0 : (h.chunk i).numChunks = 0
      · rw [if_pos h0] at hv
        exact absurd hv List.not_mem_nil
      · rw [if_neg h0] at hv
        have hwn := hw.next hs (hw.lt_last hs h0)
        obtain ⟨h₁, hvisit, hcases⟩ := freeVisited_spec (t := t) hs hw
        rw [hvisit] at hv
        rcases hcases with ⟨rfl, -⟩ | ⟨-, -, -, hf⟩
        · obtain ⟨hwalk, hvisited⟩ := ih _ _ hs hwn v hv
          exact ⟨.step (Nat.pos_of_ne_zero h0) hwalk, hvisited⟩
        · obtain ⟨hwalk, hvisited⟩ := ih _ _ hf.sound (hwn.freed hs hf) v hv
          exact ⟨.step (Nat.pos_of_ne_zero h0) (hf.walk_of _ _ hwalk), hvisited⟩

theorem freeWalk_zero (h : Heap) : h.FreeWalk 0 :=
  ⟨Nat.zero_le _, fun _ hj _ => hj, fun _ hj => Or.inl (show h.Start _ from hj)⟩

/-! ### The whole -/

/-- `malloc_free_task_r` returns and frees exactly the task's memory, by visits to valid headers.  Nothing changes if the task
has no memory; otherwise no two neighbours are free in the end. -/
theorem mallocFreeTask_exact (h : Heap) (t : Nat) (hs : h.Sound) :
    (∀ v ∈ freeTaskVisits t h.fuel h 0, ValidVisit h v) ∧
      ∃ h', h.mallocFreeTask t = some h' ∧ FreesExactly h h' t ∧
        ((∀ j, h.Used j → (h.chunk j).taskId ≠ t) ∧ h' = h ∨
          (∃ j, h.Used j ∧ (h.chunk j).taskId = t) ∧ h'.Merged) := by
  have hw := freeWalk_zero h
  constructor
  · intro v hv
    obtain ⟨hwalk, hsound, hcurrent⟩ := freeTaskVisits_spec t h.fuel h 0 hs hw v hv
    refine ⟨hwalk, ?_, hcurrent⟩
    rcases hcurrent with hstart | hfree
    · exact hsound.signature _ hstart
    · exact hfree.1
  · obtain ⟨h', hrun, hft⟩ := mallocFreeTask_spec hs t
    have hst := freeTaskLoop_steps t h.fuel h 0 hs hw h' hrun
    refine ⟨h', hrun, ⟨hft.sound, fun j => ⟨fun hj => ?_, fun hj => ?_⟩, hft.gone, fun j hj data => ?_⟩, ?_⟩
    · exact (hft.only j hj).symm
    · exact (hft.used j hj.1 hj.2).1
    · obtain ⟨hne, hju⟩ := hft.only j hj
      exact hst.untouched hs j hju hne
    · by_cases hsome : ∃ j, h.Used j ∧ (h.chunk j).taskId = t
      · refine Or.inr ⟨hsome, (hst.merged hs).resolve_left ?_⟩
        rintro rfl
        obtain ⟨j, hj, ht⟩ := hsome
        exact (hft.only j hj).1 ht
      · have hnone : ∀ j, h.Used j → (h.chunk j).taskId ≠ t := fun j hj ht => hsome ⟨j, hj, ht⟩
        exact Or.inl ⟨hnone, hst.idle hnone⟩

/-- An allocation of three chunks, of which `_realloc_r` keeps one: the other two are a free chunk in front of the free end. -/
def shrunk : List HeapAction := [.malloc 184 0 (some 2048), .realloc (memoryOf 0) 10 0 (some 2048)]

theorem sound_shrunk : ∃ h : Heap, h.Sound ∧ h.last = 4 ∧ (h.chunk 0).taskId = 0 ∧ h.len 0 = 1 ∧ h.len 1 = 2 ∧ h.len 3 = 1 ∧
    (h.chunk 0).actualSize = 10 ∧ h.ReadsFree 1 ∧ h.ReadsFree 3 := by
  obtain ⟨s, hs, hsize, htask, h0, h1, h3, hused, hf1, hf3⟩ : ∃ s,
      Run.replay HeapClient.step emptyClient shrunk = some (s, []) ∧ s.heap.size = 256 ∧ (s.heap.chunk 0).taskId = 0 ∧
      s.heap.len 0 = 1 ∧ s.heap.len 1 = 2 ∧ s.heap.len 3 = 1 ∧ (s.heap.chunk 0).actualSize = 10 ∧
      s.heap.ReadsFree 1 ∧ s.heap.ReadsFree 3 :=
    ⟨_, rfl, rfl, rfl, rfl, rfl, rfl, rfl, ⟨rfl, rfl⟩, ⟨rfl, rfl⟩⟩
  have hok : Run.AllOk HeapClient.step WellUsed emptyClient shrunk := ⟨by decide, by decide, trivial⟩
  have hrun := Run.of_replay hs hok
  have hinv := (reachable_of_run ⟨rfl, rfl, rfl⟩ hrun).resolve_left fun hempty => absurd hempty.1 (by omega)
  have hlast : s.heap.last = 4 := by
    rw [last, hsize]
    rfl
  exact ⟨s.heap, hinv.sound, hlast, htask, h0, h1, h3, hused, hf1, hf3⟩

/-- The ten bytes are of task `0`. -/
theorem mallocFreeTask_exact_shrunk : ∃ h : Heap, h.Used 0 ∧
    ∃ h', h.mallocFreeTask 0 = some h' ∧ FreesExactly h h' 0 ∧ h'.Merged := by
  obtain ⟨h, hs, hlast, htask, -, -, -, hused, -, -⟩ := sound_shrunk
  have hu : h.Used 0 := ⟨Walk.refl 0, by omega⟩
  obtain ⟨-, h', hrun, hexact, hidle | ⟨-, hmerged⟩⟩ := mallocFreeTask_exact h 0 hs
  · exact absurd htask (hidle.1 0 hu)
  · exact ⟨h, hu, h', hrun, hexact, hmerged⟩

/-- Task `1` has no memory. -/
theorem not_mallocFreeTask_merged : ¬ ∀ (h : Heap) (t : Nat), h.Sound →
    (∀ v ∈ freeTaskVisits t h.fuel h 0, ValidVisit h v) ∧
      ∃ h', h.mallocFreeTask t = some h' ∧ FreesExactly h h' t ∧ h'.Merged := by
  intro hall
  obtain ⟨h, hs, hlast, htask, h0, h1, h3, hused, hf1, hf3⟩ := sound_shrunk
  obtain ⟨-, h', hrun, -, hmerged⟩ := hall h 1 hs
  have hstart1 : h.Start 1 := by
    have := hs.next (Walk.refl 0) (by omega)
    rwa [h0] at this
  have hnone : ∀ j, h.Used j → (h.chunk j).taskId ≠ 1 := by
    intro j hj
    have hjlt := hj.lt_last hs
    rcases Nat.lt_trichotomy j 1 with hj0 | rfl | hj1
    · rw [show j = 0 by omega, htask]
      decide
    · exact absurd hf1.2 hj.2
    · have hgap := Walk.gap hstart1 hj.1 hj1
      rw [show j = 3 by omega] at hj
      exact absurd hf3.2 hj.2
  have hsame := (freeTaskLoop_steps 1 h.fuel h 0 hs (freeWalk_zero h) h' hrun).idle hnone
  rw [hsame] at hmerged
  refine hmerged 1 hstart1 (by omega) ⟨hf1, ?_⟩
  rw [h1]
  exact hf3

end CoActionOS.Heap
