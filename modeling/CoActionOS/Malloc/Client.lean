import CoActionOS.Lib.Run
import CoActionOS.Malloc.Calls

/-!
# Runs of a program on its heap

`HeapClient` is the heap together with what the program knows about it: the pointers it has received,
which it may pass back at any time, and its live allocations.  `HeapTiling ok` says that in every run
whose calls meet `ok` the chunks tile the heap and the live payloads are apart from one another and
from the headers.

It is false without a side condition (`not_heapTiling`), because `_realloc_r` grows a chunk over its
neighbours when the chunk behind it is free and the two together are too short.  It holds when no
call meets that branch, no request is empty or larger than `uint16_t` chunks can count, and the
memory of the process is not larger either (`ok_of_wellUsed`).
-/

namespace CoActionOS

open Heap

structure Alloc where
  addr : Nat
  size : Nat
  /-- the task recorded for it -/
  task : Nat
  deriving DecidableEq, Repr

structure HeapClient where
  heap : Heap
  /-- the pointers returned by earlier calls -/
  returned : List Nat
  /-- the allocations not freed yet, the oldest first -/
  live : List Alloc

inductive HeapAction
  | malloc (size owner : Nat) (stack : Option Int)
  | free (addr : Nat)
  | realloc (addr size owner : Nat) (stack : Option Int)
  | freeTask (taskId : Nat)

namespace HeapClient

variable (s : HeapClient)

/-- The program can pass the pointer: null or returned by an earlier call. -/
def has (addr : Nat) : Bool := addr == 0 || s.returned.contains addr

def release (addr : Nat) : HeapClient := { s with live := s.live.eraseP (·.addr == addr) }

/-- A call leaves the heap `h` and returns `addr`, which is null if it failed. -/
def receive (h : Heap) (addr size owner : Nat) : HeapClient :=
  if addr = 0 then { s with heap := h }
  else
    { heap := h
      returned := addr :: s.returned
      live := s.live ++ [⟨addr, size, owner % 2 ^ 8⟩] }

/-- The program after `realloc`. -/
def reallocated (addr size owner : Nat) (r : Heap × Nat × Option Errno) : HeapClient :=
  if size = 0 then { s.release addr with heap := r.1 }
  else if r.2.1 = 0 then { s with heap := r.1 }
  else (s.release addr).receive r.1 r.2.1 size owner

/-- `malloc_free_task_r` is called on an initialised heap only: before, there is no chunk to read. -/
def step : HeapAction → Option (HeapClient × Option Empty)
  | .malloc size owner stack =>
    if size < 2 ^ 32 then
      (s.heap.malloc size owner stack).map fun r => (s.receive r.1 r.2.1 size owner, none)
    else none
  | .free addr =>
    if s.has addr then (s.heap.free addr).map fun h => ({ s.release addr with heap := h }, none)
    else none
  | .realloc addr size owner stack =>
    if s.has addr && size < 2 ^ 32 then
      (s.heap.realloc addr size owner stack).map fun r => (s.reallocated addr size owner r, none)
    else none
  | .freeTask taskId =>
    if s.heap.size ≠ 0 then
      (s.heap.mallocFreeTask taskId).map fun h =>
        ({ s with heap := h, live := s.live.filter (·.task != taskId) }, none)
    else none

/-- The chunks tile the heap; live payloads are pairwise disjoint and contain no header. -/
structure Ok (s : HeapClient) : Prop where
  tiled : s.heap.Tiled
  disjoint : s.live.Pairwise fun a b => a.addr + a.size ≤ b.addr ∨ b.addr + b.size ≤ a.addr
  noHeader : ∀ a ∈ s.live, ∀ i, s.heap.Start i →
    memoryOf i ≤ a.addr ∨ a.addr + a.size ≤ mallocChunkSize * i

end HeapClient

/-- The program has not allocated yet. -/
def HeapClient.Init (s : HeapClient) : Prop := s.heap.size = 0 ∧ s.returned = [] ∧ s.live = []

def HeapTiling (ok : HeapClient → HeapAction → Prop) : Prop :=
  ∀ (s₀ s : HeapClient) (es : List Empty),
    s₀.Init → Run HeapClient.step ok s₀ es s → s.heap.size ≠ 0 → s.Ok

/-- The request is not empty, fits the chunks that `uint16_t` can count and so does the memory there
is for it; a reallocation of a chunk in use does not meet the branch that grows too far. -/
def WellUsed (s : HeapClient) : HeapAction → Prop
  | .malloc size _ stack =>
    0 < size ∧ size ≤ mallocMaxSize ∧ s.heap.RoomFor (mallocCalcNumChunks size) stack
  | .realloc addr size _ stack =>
    size = 0 ∨ size ≤ mallocMaxSize ∧ s.heap.RoomFor (mallocCalcNumChunks size) stack ∧
      (addr ≠ 0 → (s.heap.chunk (mallocChunkFromAddr addr)).isFree = some false →
        ¬s.heap.GrowsTooFar (mallocChunkFromAddr addr) (mallocCalcNumChunks size))
  | _ => True

instance (h : Heap) (n : Nat) (stack : Option Int) : Decidable (h.RoomFor n stack) :=
  match stack with
  | some _ => inferInstanceAs (Decidable (_ ≤ _))
  | none => inferInstanceAs (Decidable (_ ≤ _))

instance (h : Heap) (i n : Nat) : Decidable (h.GrowsTooFar i n) :=
  inferInstanceAs (Decidable (_ ∧ _ ∧ _))

instance (s : HeapClient) (a : HeapAction) : Decidable (WellUsed s a) :=
  match a with
  | .malloc _ _ _ => inferInstanceAs (Decidable (_ ∧ _ ∧ _))
  | .realloc _ _ _ _ => inferInstanceAs (Decidable (_ ∨ _ ∧ _ ∧ (_ → _ → _)))
  | .free _ => inferInstanceAs (Decidable True)
  | .freeTask _ => inferInstanceAs (Decidable True)

/-! ### The invariant -/

namespace HeapClient

variable {s : HeapClient} {h h' : Heap} {i n : Nat}

structure Inv (s : HeapClient) : Prop where
  sound : s.heap.Sound
  nonempty : s.heap.size ≠ 0
  alive : ∀ a ∈ s.live, a.size ≤ mallocMaxSize ∧ a.task < 2 ^ 8 ∧ ∃ i, a.addr = memoryOf i ∧
    s.heap.Used i ∧
      s.heap.chunk i = MallocChunk.setUsed a.task (mallocCalcNumChunks a.size) a.size
  used : ∀ i, s.heap.Used i → ∃ a ∈ s.live, a.addr = memoryOf i
  nodup : (s.live.map Alloc.addr).Nodup
  returned : ∀ x ∈ s.returned, ∃ i, x = memoryOf i ∧ (s.heap.Used i ∨ s.heap.ReadsFree i)

theorem setUsed_mod (owner n size : Nat) :
    MallocChunk.setUsed (owner % 2 ^ 8) n size = MallocChunk.setUsed owner n size := by
  simp [MallocChunk.setUsed]

theorem mem_release (a : Alloc) (addr : Nat) (hn : (s.live.map Alloc.addr).Nodup) :
    a ∈ (s.release addr).live ↔ a ∈ s.live ∧ a.addr ≠ addr := by
  unfold release
  simp only
  generalize s.live = l at hn
  induction l with
  | nil => simp
  | cons b l ih =>
    simp only [List.map_cons, List.nodup_cons, List.mem_map, not_exists, not_and] at hn
    by_cases hb : b.addr = addr
    · subst hb
      simp only [List.eraseP_cons, beq_self_eq_true, cond_true, List.mem_cons]
      constructor
      · intro ha
        exact ⟨Or.inr ha, hn.1 a ha⟩
      · rintro ⟨rfl | ha, hne⟩
        · exact absurd rfl hne
        · exact ha
    · have hbf : (b.addr == addr) = false := by simpa using hb
      simp only [List.eraseP_cons, hbf, cond_false, List.mem_cons, ih hn.2]
      constructor
      · rintro (rfl | ⟨ha, hne⟩)
        · exact ⟨Or.inl rfl, hb⟩
        · exact ⟨Or.inr ha, hne⟩
      · rintro ⟨rfl | ha, hne⟩
        · exact Or.inl rfl
        · exact Or.inr ⟨ha, hne⟩

theorem release_nodup {addr : Nat} (hn : (s.live.map Alloc.addr).Nodup) :
    ((s.release addr).live.map Alloc.addr).Nodup :=
  hn.sublist (List.Sublist.map _ List.eraseP_sublist)

theorem release_of_not_mem {addr : Nat} (hn : ∀ a ∈ s.live, a.addr ≠ addr) :
    s.release addr = s := by
  unfold release
  rw [List.eraseP_of_forall_not fun a ha => by simpa using hn a ha]

/-- Live allocations lie at chunks in use. -/
theorem Inv.ne_of_not_used (hi : s.Inv) (hu : ¬s.heap.Used i) : ∀ a ∈ s.live, a.addr ≠ memoryOf i := by
  intro a ha heq
  obtain ⟨_, _, j, hj, huj, _⟩ := hi.alive a ha
  rw [hj] at heq
  exact hu (memoryOf_inj heq ▸ huj)

theorem Inv.ok (hi : s.Inv) : s.Ok := by
  have hlen : ∀ a ∈ s.live, ∃ i, a.addr = memoryOf i ∧ s.heap.Start i ∧
      mallocHeaderSize + a.size ≤ mallocChunkSize * s.heap.len i := by
    intro a ha
    obtain ⟨hmax, _, i, haddr, hu, hc⟩ := hi.alive a ha
    refine ⟨i, haddr, hu.1, ?_⟩
    rw [len, hc, MallocChunk.numChunks_setUsed]
    exact (mallocCalcNumChunks_spec hmax).2.2
  have hapart : ∀ a ∈ s.live, ∀ j, s.heap.Start j →
      memoryOf j ≤ a.addr ∨ a.addr + a.size ≤ mallocChunkSize * j := by
    intro a ha j hj
    obtain ⟨i, haddr, hstart, hle⟩ := hlen a ha
    rw [haddr]
    rcases Nat.lt_or_ge i j with hij | hji
    · right
      have := Walk.gap hstart hj hij
      unfold memoryOf mallocChunkSize at *
      omega
    · left
      unfold memoryOf mallocChunkSize
      omega
  refine ⟨hi.sound.toTiled, ?_, hapart⟩
  have hne : s.live.Pairwise fun a b => a.addr ≠ b.addr := by
    have := hi.nodup
    rwa [List.Nodup, List.pairwise_map] at this
  refine hne.imp_of_mem fun {a b} ha hb hab => ?_
  obtain ⟨i, hia, hsi, _⟩ := hlen a ha
  obtain ⟨j, hjb, hsj, _⟩ := hlen b hb
  have hij : i ≠ j := by
    rintro rfl
    exact hab (hia.trans hjb.symm)
  have h1 := hapart a ha j hsj
  have h2 := hapart b hb i hsi
  rw [hia, hjb] at *
  unfold memoryOf mallocHeaderSize mallocChunkSize at *
  omega

/-! ### What the calls do to the invariant -/

theorem Inv.keeps (hi : s.Inv) (hk : Keeps s.heap h') : Inv { s with heap := h' } := by
  refine ⟨hk.sound, by have := hk.size_le; have := hi.nonempty; simp only; omega, fun a ha => ?_,
    fun i hu => hi.used i (hk.only i hu), hi.nodup, fun x hx => ?_⟩
  · obtain ⟨h1, h2, i, haddr, hu, hc⟩ := hi.alive a ha
    obtain ⟨hu', hc'⟩ := hk.used i hu
    exact ⟨h1, h2, i, haddr, hu', hc'.trans hc⟩
  · obtain ⟨i, hxi, hor⟩ := hi.returned x hx
    exact ⟨i, hxi, hor.imp (fun hu => (hk.used i hu).1) (hk.readsFree i)⟩

/-- A chunk is put in use at `i`; the allocation that was there, if any, is not live any more. -/
theorem Inv.placed {owner size : Nat} (hi : s.Inv) (hpos : 0 < size) (hmax : size ≤ mallocMaxSize)
    (hp : Placed s.heap h' i (MallocChunk.setUsed owner (mallocCalcNumChunks size) size)) :
    ((s.release (memoryOf i)).receive h' (memoryOf i) size owner).Inv := by
  have hui : h'.Used i := ⟨hp.start, by rw [hp.here]; exact hpos.ne'⟩
  have hmem := fun a => mem_release a (memoryOf i) hi.nodup
  unfold receive
  rw [if_neg (memoryOf_ne_zero i)]
  refine ⟨hp.sound, by have := hp.size_le; have := hi.nonempty; simp only; omega, fun a ha => ?_,
    fun j hj => ?_, ?_, fun x hx => ?_⟩
  · rcases List.mem_append.mp ha with ha | ha
    · obtain ⟨hal, hane⟩ := (hmem a).mp ha
      obtain ⟨h1, h2, j, haddr, hu, hc⟩ := hi.alive a hal
      have hji : j ≠ i := by rintro rfl; exact hane haddr
      obtain ⟨hu', hc'⟩ := hp.used j hji hu
      exact ⟨h1, h2, j, haddr, hu', hc'.trans hc⟩
    · rw [List.mem_singleton] at ha
      subst ha
      exact ⟨hmax, Nat.mod_lt _ (by decide), i, rfl, hui, by rw [hp.here, setUsed_mod]⟩
  · simp only [List.mem_append, List.mem_singleton]
    by_cases hji : j = i
    · subst hji
      exact ⟨_, Or.inr rfl, rfl⟩
    · obtain ⟨a, ha, haddr⟩ := hi.used j ((hp.only j hj).resolve_left hji)
      refine ⟨a, Or.inl ((hmem a).mpr ⟨ha, fun h => hji (memoryOf_inj (haddr.symm.trans h))⟩), haddr⟩
  · rw [List.map_append, List.nodup_append]
    refine ⟨release_nodup hi.nodup, by simp, fun x hx y hy => ?_⟩
    obtain ⟨a, ha, rfl⟩ := List.mem_map.mp hx
    simp only [List.map_cons, List.map_nil, List.mem_singleton] at hy
    rw [hy]
    exact ((hmem a).mp ha).2
  · have hold : ∀ x ∈ s.returned, ∃ j, x = memoryOf j ∧ (h'.Used j ∨ h'.ReadsFree j) := by
      intro x hx
      obtain ⟨j, hxj, hor⟩ := hi.returned x hx
      by_cases hji : j = i
      · exact ⟨j, hxj, Or.inl (hji ▸ hui)⟩
      · exact ⟨j, hxj, hor.imp (fun hu => (hp.used j hji hu).1) (hp.readsFree j hji)⟩
    rcases List.mem_cons.mp hx with rfl | hx
    · exact ⟨i, rfl, Or.inl hui⟩
    · exact hold x hx

theorem Inv.freed (hi : s.Inv) (hf : Freed s.heap h' i) :
    Inv { s.release (memoryOf i) with heap := h' } := by
  have hmem := fun a => mem_release a (memoryOf i) hi.nodup
  refine ⟨hf.sound, by rw [hf.size]; exact hi.nonempty, fun a ha => ?_, fun j hj => ?_,
    release_nodup hi.nodup, fun x hx => ?_⟩
  · obtain ⟨hal, hane⟩ := (hmem a).mp ha
    obtain ⟨h1, h2, j, haddr, hu, hc⟩ := hi.alive a hal
    have hji : j ≠ i := by rintro rfl; exact hane haddr
    obtain ⟨hu', hc'⟩ := hf.used j hji hu
    exact ⟨h1, h2, j, haddr, hu', hc'.trans hc⟩
  · obtain ⟨hji, hju⟩ := hf.only j hj
    obtain ⟨a, ha, haddr⟩ := hi.used j hju
    exact ⟨a, (hmem a).mpr ⟨ha, fun h => hji (memoryOf_inj (haddr.symm.trans h))⟩, haddr⟩
  · obtain ⟨j, hxj, hor⟩ := hi.returned x hx
    refine ⟨j, hxj, ?_⟩
    by_cases hji : j = i
    · exact Or.inr (hji ▸ hf.self)
    · exact hor.imp (fun hu => (hf.used j hji hu).1) (hf.readsFree j)

theorem Inv.freedTask {t : Nat} (hi : s.Inv) (hf : FreedTask s.heap h' t) :
    Inv { s with heap := h', live := s.live.filter (·.task != t) } := by
  -- the task of an allocation is the one its chunk records
  have htask : ∀ a ∈ s.live, ∀ j, a.addr = memoryOf j → (s.heap.chunk j).taskId = a.task := by
    intro a ha j hj
    obtain ⟨_, hlt, k, hk, _, hc⟩ := hi.alive a ha
    rw [← memoryOf_inj (hk.symm.trans hj), hc]
    exact Nat.mod_eq_of_lt hlt
  refine ⟨hf.sound, by rw [hf.size]; exact hi.nonempty, fun a ha => ?_, fun j hj => ?_,
    hi.nodup.sublist (List.Sublist.map _ List.filter_sublist), fun x hx => ?_⟩
  · simp only [List.mem_filter, bne_iff_ne] at ha
    obtain ⟨h1, h2, j, haddr, hu, hc⟩ := hi.alive a ha.1
    obtain ⟨hu', hc'⟩ := hf.used j hu (by rw [htask a ha.1 j haddr]; exact ha.2)
    exact ⟨h1, h2, j, haddr, hu', hc'.trans hc⟩
  · obtain ⟨hne, hju⟩ := hf.only j hj
    obtain ⟨a, ha, haddr⟩ := hi.used j hju
    rw [htask a ha j haddr] at hne
    exact ⟨a, by simp only [List.mem_filter, bne_iff_ne]; exact ⟨ha, hne⟩, haddr⟩
  · obtain ⟨j, hxj, hor⟩ := hi.returned x hx
    refine ⟨j, hxj, ?_⟩
    rcases hor with hu | hfree
    · by_cases ht : (s.heap.chunk j).taskId = t
      · exact Or.inr (hf.gone j hu ht)
      · exact Or.inl (hf.used j hu ht).1
    · exact Or.inr (hf.readsFree j hfree)

/-- The heap of a program that has not allocated yet, or the invariant. -/
def Reachable (s : HeapClient) : Prop := s.Init ∨ s.Inv

theorem Inv.mallocSpec {owner size : Nat} {r : Heap × Nat × Option Errno} (hi : s.Inv)
    (hpos : 0 < size) (hmax : size ≤ mallocMaxSize)
    (hr : MallocSpec s.heap (mallocCalcNumChunks size) owner size r) :
    (s.receive r.1 r.2.1 size owner).Inv := by
  rcases hr with ⟨h0, hk⟩ | ⟨i, haddr, hu, hp⟩
  · unfold receive
    rw [if_pos h0]
    exact hi.keeps hk
  · have h := hi.placed hpos hmax hp
    rwa [release_of_not_mem (hi.ne_of_not_used hu), ← haddr] at h

theorem Reachable.malloc (owner : Nat) {size : Nat} {stack : Option Int} (hi : s.Reachable)
    (hpos : 0 < size) (hmax : size ≤ mallocMaxSize)
    (hroom : s.heap.RoomFor (mallocCalcNumChunks size) stack) :
    ∃ r, s.heap.malloc size owner stack = some r ∧
      (s.receive r.1 r.2.1 size owner).Reachable := by
  rcases hi with ⟨h0, hret, hlive⟩ | hi
  · obtain ⟨r, hr, hspec⟩ := malloc_spec_of_empty owner h0 hmax hroom
    refine ⟨r, hr, ?_⟩
    rcases hspec with rfl | ⟨h₁, hs, hpos₁, hfree, hspec⟩
    · left
      unfold receive
      rw [if_pos rfl]
      exact ⟨h0, hret, hlive⟩
    · right
      have hi₁ : Inv { s with heap := h₁ } := by
        refine ⟨hs, hpos₁.ne', by simp [hlive], fun i hu => ?_, by simp [hlive], by simp [hret]⟩
        exact absurd (hfree.2 i hu.1 (Nat.zero_le _)).2 hu.2
      have h := hi₁.mallocSpec hpos hmax hspec
      unfold receive at h ⊢
      split_ifs at h ⊢
      · exact h
      · exact h
  · obtain ⟨r, hr, hspec⟩ := malloc_spec owner hi.sound hi.nonempty hmax hroom
    exact ⟨r, hr, Or.inr (hi.mallocSpec hpos hmax hspec)⟩

/-- A pointer the program can pass is null or the place of a chunk in use or of a freed one. -/
theorem Inv.has_cases (hi : s.Inv) {addr : Nat} (ha : s.has addr = true) :
    addr = 0 ∨ ∃ i, addr = memoryOf i ∧ (s.heap.Used i ∨ s.heap.ReadsFree i) := by
  unfold has at ha
  simp only [Bool.or_eq_true, beq_iff_eq, List.contains_iff_mem] at ha
  exact ha.imp_right (hi.returned addr)

theorem Inv.free (hi : s.Inv) {addr : Nat} (ha : s.has addr = true) :
    ∃ h, s.heap.free addr = some h ∧ Inv { s.release addr with heap := h } := by
  rcases hi.has_cases ha with rfl | ⟨i, rfl, hu | hf⟩
  · refine ⟨s.heap, free_zero, ?_⟩
    rw [release_of_not_mem fun a ha => ?_]
    · exact hi
    · obtain ⟨_, _, i, haddr, _⟩ := hi.alive a ha
      rw [haddr]
      exact memoryOf_ne_zero i
  · obtain ⟨h, hrun, hfr⟩ := free_of_used hi.sound hu
    exact ⟨h, hrun, hi.freed hfr⟩
  · refine ⟨s.heap, free_of_readsFree hf, ?_⟩
    rw [release_of_not_mem (hi.ne_of_not_used fun hu => hu.2 hf.2)]
    exact hi

theorem release_receive {addr size owner addr' : Nat} (h h' : Heap)
    (hmem : ∃ a ∈ s.live, a.addr = addr) :
    { (s.receive h addr' size owner).release addr with heap := h' } =
      (s.release addr).receive h' addr' size owner := by
  unfold release receive
  split_ifs
  · rfl
  · obtain ⟨a, ha, haddr⟩ := hmem
    simp only [HeapClient.mk.injEq, true_and]
    exact List.eraseP_append_left (by simpa using haddr) _ ha

theorem Inv.realloc {owner size : Nat} {stack : Option Int} (hi : s.Inv) (h0 : size ≠ 0)
    (hx : s.heap.Used i ∨ s.heap.ReadsFree i)
    (hw : WellUsed s (.realloc (memoryOf i) size owner stack)) :
    ∃ r, s.heap.realloc (memoryOf i) size owner stack = some r ∧
      (s.reallocated (memoryOf i) size owner r).Inv := by
  obtain ⟨hmax, hroom, hfar⟩ := hw.resolve_left h0
  rw [(memoryOf_sub i).2] at hfar
  have hpos : 0 < size := Nat.pos_of_ne_zero h0
  unfold reallocated
  simp only [h0, ite_false]
  rcases hx with hu | hf
  · have hnot : (s.heap.chunk i).isFree = some false := by
      rw [hi.sound.isFree hu.1]
      simp [hu.2]
    obtain ⟨r, hr, hspec⟩ := realloc_of_used owner hi.sound hu hi.nonempty h0 hmax hroom
      (hfar (memoryOf_ne_zero i) hnot)
    refine ⟨r, hr, ?_⟩
    rcases hspec with ⟨hz, hk⟩ | ⟨haddr, hp⟩ | ⟨j, h₁, haddr, hj, hp, hfr⟩
    · rw [if_pos hz]
      exact hi.keeps hk
    · rw [if_neg (by rw [haddr]; exact memoryOf_ne_zero i), haddr]
      exact hi.placed hpos hmax hp
    · -- the new chunk first, then the old one is freed
      rw [if_neg (by rw [haddr]; exact memoryOf_ne_zero j), haddr]
      have h1 := hi.placed hpos hmax hp
      rw [release_of_not_mem (hi.ne_of_not_used hj)] at h1
      have hheap : (s.receive h₁ (memoryOf j) size owner).heap = h₁ := by
        unfold receive
        rw [if_neg (memoryOf_ne_zero j)]
      have h2 := h1.freed (show Freed _ r.1 i from hheap.symm ▸ hfr)
      rwa [release_receive h₁ r.1 (hi.used i hu)] at h2
  · refine ⟨_, realloc_of_readsFree hf h0 hi.nonempty, ?_⟩
    rw [if_pos rfl]
    exact hi

theorem Reachable.release_zero (hi : s.Reachable) : s.release 0 = s := by
  refine release_of_not_mem fun a ha => ?_
  rcases hi with ⟨_, _, hlive⟩ | hi
  · rw [hlive] at ha
    exact absurd ha (by simp)
  · obtain ⟨_, _, i, haddr, _⟩ := hi.alive a ha
    rw [haddr]
    exact memoryOf_ne_zero i

theorem Reachable.free (hi : s.Reachable) {addr : Nat} (ha : s.has addr = true) :
    ∃ h, s.heap.free addr = some h ∧ Reachable { s.release addr with heap := h } := by
  rcases hi with ⟨h0, hret, hlive⟩ | hi
  · -- only the null pointer can be passed
    have haddr : addr = 0 := by simpa [has, hret] using ha
    subst haddr
    exact ⟨s.heap, free_zero, Or.inl ⟨h0, hret, by simp [release, hlive]⟩⟩
  · obtain ⟨h, hrun, hinv⟩ := hi.free ha
    exact ⟨h, hrun, Or.inr hinv⟩

theorem Reachable.realloc {owner size addr : Nat} {stack : Option Int} (hi : s.Reachable)
    (ha : s.has addr = true) (hw : WellUsed s (.realloc addr size owner stack)) :
    ∃ r, s.heap.realloc addr size owner stack = some r ∧
      (s.reallocated addr size owner r).Reachable := by
  by_cases h0 : size = 0
  · obtain ⟨h, hrun, hinv⟩ := hi.free ha
    refine ⟨(h, 0, none), ?_, ?_⟩
    · unfold Heap.realloc
      simp [h0, hrun]
    · unfold reallocated
      rw [if_pos h0]
      exact hinv
  · by_cases haddr : addr = 0
    · subst haddr
      obtain ⟨hmax, hroom, _⟩ := hw.resolve_left h0
      obtain ⟨r, hr, hinv⟩ := hi.malloc owner (Nat.pos_of_ne_zero h0) hmax hroom
      refine ⟨r, ?_, ?_⟩
      · unfold Heap.realloc
        simp [h0, hr]
      · unfold reallocated receive at *
        simp only [h0, ite_false, hi.release_zero]
        split_ifs at hinv ⊢
        · exact hinv
        · exact hinv
    · rcases hi with ⟨_, hret, _⟩ | hi
      · exact absurd (by simpa [has, hret] using ha) haddr
      · obtain ⟨i, rfl, hx⟩ := (hi.has_cases ha).resolve_left haddr
        obtain ⟨r, hr, hinv⟩ := hi.realloc h0 hx hw
        exact ⟨r, hr, Or.inr hinv⟩

theorem Reachable.step (hi : s.Reachable) {a : HeapAction} {s' : HeapClient} {e : Option Empty}
    (hok : WellUsed s a) (hs : s.step a = some (s', e)) : s'.Reachable := by
  cases a with
  | malloc size owner stack =>
    simp only [HeapClient.step, Option.ite_none_right_eq_some] at hs
    obtain ⟨r, hr, hinv⟩ := hi.malloc owner hok.1 hok.2.1 hok.2.2
    rw [hr] at hs
    simp only [Option.map_some, Option.some.injEq, Prod.mk.injEq] at hs
    exact hs.2.1 ▸ hinv
  | free addr =>
    simp only [HeapClient.step, Option.ite_none_right_eq_some] at hs
    obtain ⟨h, hrun, hinv⟩ := hi.free hs.1
    rw [hrun] at hs
    simp only [Option.map_some, Option.some.injEq, Prod.mk.injEq] at hs
    exact hs.2.1 ▸ hinv
  | realloc addr size owner stack =>
    simp only [HeapClient.step, Option.ite_none_right_eq_some, Bool.and_eq_true] at hs
    obtain ⟨r, hr, hinv⟩ := hi.realloc hs.1.1 hok
    rw [hr] at hs
    simp only [Option.map_some, Option.some.injEq, Prod.mk.injEq] at hs
    exact hs.2.1 ▸ hinv
  | freeTask t =>
    simp only [HeapClient.step, Option.ite_none_right_eq_some] at hs
    rcases hi with ⟨h0, _, _⟩ | hi
    · exact absurd h0 hs.1
    · obtain ⟨h, hrun, hf⟩ := mallocFreeTask_spec hi.sound t
      rw [hrun] at hs
      simp only [Option.map_some, Option.some.injEq, Prod.mk.injEq] at hs
      exact Or.inr (hs.2.1 ▸ hi.freedTask hf)

/-- The program can make the call: the size is a `size_t`, the pointer is one it has, and
`malloc_free_task_r` finds a heap. -/
def CanCall (s : HeapClient) : HeapAction → Prop
  | .malloc size _ _ => size < 2 ^ 32
  | .free addr => s.has addr = true
  | .realloc addr size _ _ => s.has addr = true ∧ size < 2 ^ 32
  | .freeTask _ => s.heap.size ≠ 0

/-- No call runs for ever or into a corrupt chunk. -/
theorem Reachable.returns (hi : s.Reachable) {a : HeapAction} (hok : WellUsed s a)
    (hc : s.CanCall a) : ∃ s' e, s.step a = some (s', e) := by
  cases a with
  | malloc size owner stack =>
    obtain ⟨r, hr, _⟩ := hi.malloc owner hok.1 hok.2.1 hok.2.2
    have hlt : size < 2 ^ 32 := hc
    exact ⟨_, none, by rw [HeapClient.step, if_pos hlt, hr]; rfl⟩
  | free addr =>
    have hhas : s.has addr = true := hc
    obtain ⟨h, hrun, _⟩ := hi.free hhas
    exact ⟨_, none, by rw [HeapClient.step, if_pos hhas, hrun]; rfl⟩
  | realloc addr size owner stack =>
    obtain ⟨r, hr, _⟩ := hi.realloc hc.1 hok
    have hcond : (s.has addr && decide (size < 2 ^ 32)) = true := by
      rw [hc.1, decide_eq_true hc.2]
      rfl
    exact ⟨_, none, by rw [HeapClient.step, if_pos hcond, hr]; rfl⟩
  | freeTask t =>
    have hc : s.heap.size ≠ 0 := hc
    rcases hi with ⟨h0, _, _⟩ | hi
    · exact absurd h0 hc
    · obtain ⟨h, hrun, _⟩ := mallocFreeTask_spec hi.sound t
      exact ⟨_, none, by rw [HeapClient.step, if_pos hc, hrun]; rfl⟩

end HeapClient

theorem reachable_of_run {s₀ s : HeapClient} {es : List Empty} (h0 : s₀.Init)
    (hrun : Run HeapClient.step WellUsed s₀ es s) : s.Reachable :=
  hrun.invariant (fun _ s => s.Reachable) (Or.inl h0) fun _ _ _ _ _ hi hok hs => hi.step hok hs

/-- The chunks tile the heap and live payloads are apart in every run whose calls ask for something
that fits and do not reallocate into the branch that grows too far. -/
theorem ok_of_wellUsed (s₀ s : HeapClient) (es : List Empty) (h0 : s₀.Init)
    (hrun : Run HeapClient.step WellUsed s₀ es s) (hne : s.heap.size ≠ 0) : s.Ok :=
  ((reachable_of_run h0 hrun).resolve_left fun hz => hne hz.1).ok

def emptyClient : HeapClient where
  heap := { chunk := fun _ => ⟨0, 0, 0, 0⟩, size := 0 }
  returned := []
  live := []

/-- Two allocations, the first freed twice, the second grown and shrunk, the rest freed by task. -/
def shortRun : List HeapAction :=
  [.malloc 10 3 (some 2048), .malloc 100 3 (some 2048), .free (memoryOf 0), .free (memoryOf 0),
    .realloc (memoryOf 1) 150 3 (some 2048), .realloc (memoryOf 1) 20 0 (some 2048), .freeTask 3]

theorem ok_of_shortRun : ∃ s, Run HeapClient.step WellUsed emptyClient [] s ∧
    s.live = [⟨memoryOf 1, 20, 0⟩] ∧ s.Ok := by
  obtain ⟨s, hs, hsize, hlive⟩ : ∃ s, Run.replay HeapClient.step emptyClient shortRun =
      some (s, []) ∧ s.heap.size = 256 ∧ s.live = [⟨memoryOf 1, 20, 0⟩] := ⟨_, rfl, rfl, rfl⟩
  have hok : Run.AllOk HeapClient.step WellUsed emptyClient shortRun :=
    ⟨by decide, by decide, by decide, by decide, by decide, by decide, by decide, trivial⟩
  have hrun := Run.of_replay hs hok
  exact ⟨s, hrun, hlive, ok_of_wellUsed emptyClient s [] ⟨rfl, rfl, rfl⟩ hrun (by omega)⟩

/-! ### Growing too far -/

/-- Ten bytes from a fresh heap, then two hundred at the same place. -/
def growTooFar : List HeapAction :=
  [.malloc 10 0 (some 2048), .realloc (memoryOf 0) 200 0 (some 2048)]

/-- `realloc` makes the first chunk four chunks long in a heap of two. -/
theorem not_heapTiling : ¬HeapTiling fun _ _ => True := by
  intro h
  obtain ⟨s, hs, hsize, hlast, hlen⟩ : ∃ s, Run.replay HeapClient.step emptyClient growTooFar =
      some (s, []) ∧ s.heap.size = 128 ∧ s.heap.last = 2 ∧ s.heap.len 0 = 4 :=
    ⟨_, rfl, rfl, rfl, rfl⟩
  have htiled := (h emptyClient s [] ⟨rfl, rfl, rfl⟩ (Run.of_replay hs (Run.allOk_true _ _)) (by omega)).tiled
  have := Walk.gap (Walk.refl 0) htiled.reaches (by omega)
  omega

end CoActionOS
