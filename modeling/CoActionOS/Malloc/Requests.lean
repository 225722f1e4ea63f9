import Mathlib.Logic.Relation
import CoActionOS.Malloc.Contents

/-!
# What a request is given

`_malloc_r` counts chunks in `uint16_t` after arithmetic in `uint32_t`, and marks a chunk as in use
with the size of the request, which a request of no bytes leaves at zero.  `_calloc_r` multiplies in
32 bits.  So a pointer is worth what was asked for exactly if that is at least one byte and at most
`mallocMaxSize` (`serves_iff`), and such a chunk is not given away again (`Later.used`).
-/

namespace CoActionOS

open Function

/-- The bytes of a header in memory. -/
def MallocChunk.ofBytes (f : Nat → UInt8) : MallocChunk where
  taskId := (f 0).toNat
  signature := (f 1).toNat
  numChunks := (f 2).toNat + 2 ^ 8 * (f 3).toNat
  actualSize := (f 4).toNat + 2 ^ 8 * (f 5).toNat + 2 ^ 16 * (f 6).toNat + 2 ^ 24 * (f 7).toNat

namespace Heap

variable {h h' h'' : Heap} {i j n size owner : Nat} {stack : Option Int}

/-- `memset(addr, 0, size)`, of which only the headers that it runs over are modelled. -/
def clear (h : Heap) (addr size : Nat) : Heap :=
  { h with chunk := fun j =>
      if addr < mallocChunkSize * j + mallocHeaderSize ∧ mallocChunkSize * j < addr + size then
        .ofBytes fun k =>
          if addr ≤ mallocChunkSize * j + k ∧ mallocChunkSize * j + k < addr + size then 0
          else (h.chunk j).byte k
      else h.chunk j }

/-- `_calloc_r`; `size` is an `int`, and `_malloc_r` and `memset` take it as a `size_t`. -/
def calloc (h : Heap) (s1 s2 owner : Nat) (stack : Option Int) : Option (Heap × Nat × Option Errno) := do
  let size := s1 * s2 % 2 ^ 32
  let (h, alloc, errno) ← h.malloc size owner stack
  if alloc ≠ 0 then some (h.clear alloc size, alloc, errno) else some (h, alloc, errno)

/-- The pointer has room for `size` bytes behind it, and its chunk is marked as in use. -/
def Serves (h : Heap) (alloc size : Nat) : Prop :=
  ∃ i, alloc = memoryOf i ∧ size ≤ h.capacity i ∧ (h.chunk i).isFree = some false

/-! ### One call -/

/-- A pointer that `_malloc_r` returns is that of a chunk it has taken. -/
theorem mallocLoop_taken {fuel : Nat} {r : Heap × Nat × Option Errno}
    (hrun : mallocLoop n owner size stack fuel h = some r) (hne : r.2.1 ≠ 0) :
    ∃ h₀ i, r.1 = takeChunk h₀ i n owner size ∧ r.2.1 = memoryOf i := by
  induction fuel generalizing h with
  | zero => exact nomatch hrun
  | succ fuel ih =>
    rw [mallocLoop, Option.bind_eq_bind, Option.bind_eq_some_iff] at hrun
    obtain ⟨found, -, hrun⟩ := hrun
    cases found with
    | some i =>
      obtain rfl := Option.some.inj hrun
      exact ⟨h, i, rfl, rfl⟩
    | none =>
      rw [Option.bind_eq_bind, Option.bind_eq_some_iff] at hrun
      obtain ⟨_, -, hrun⟩ := hrun
      cases hmore : h.getMoreMemory stack with
      | none =>
        rw [hmore] at hrun
        obtain rfl := Option.some.inj hrun
        exact absurd rfl hne
      | some h₁ =>
        rw [hmore] at hrun
        obtain ⟨h₂, -, hrun⟩ := Option.bind_eq_some_iff.mp hrun
        exact ih hrun

theorem malloc_taken {r : Heap × Nat × Option Errno} (hrun : h.malloc size owner stack = some r)
    (hne : r.2.1 ≠ 0) :
    ∃ h₀ i, r.1 = takeChunk h₀ i (mallocCalcNumChunks size) owner size ∧ r.2.1 = memoryOf i := by
  rw [malloc] at hrun
  split at hrun
  · obtain rfl := Option.some.inj hrun
    exact absurd rfl hne
  · exact mallocLoop_taken hrun hne

theorem takeChunk_self : (takeChunk h i n owner size).chunk i = MallocChunk.setUsed owner n size :=
  set_chunk_self i _

theorem isFree_setUsed :
    (MallocChunk.setUsed owner n size).isFree = some (size == 0) :=
  MallocChunk.isFree_of_signature (MallocChunk.setUsed_signature owner n size)

theorem mallocCalcNumChunks_le (size : Nat) : mallocCalcNumChunks size ≤ 65535 := by
  unfold mallocCalcNumChunks
  split
  · omega
  · omega

/-- What a chunk in use is worth does not depend on how it was found; `size` is the request as it reaches
`_malloc_r`. -/
theorem serves_iff {requested : Nat}
    (hhere : h.chunk i = MallocChunk.setUsed owner (mallocCalcNumChunks size) size)
    (hsame : requested ≤ mallocMaxSize → size = requested) :
    h.Serves (memoryOf i) requested ↔ 0 < requested ∧ requested ≤ mallocMaxSize := by
  have hlen : h.len i = mallocCalcNumChunks size := congrArg MallocChunk.numChunks hhere
  constructor
  · rintro ⟨j, hj, hroom, hused⟩
    obtain rfl := memoryOf_inj hj
    rw [hhere, isFree_setUsed, Option.some.injEq, beq_eq_false_iff_ne] at hused
    have hle : requested ≤ mallocMaxSize := by
      have hcount := mallocCalcNumChunks_le size
      rw [capacity, hlen] at hroom
      unfold mallocMaxSize mallocChunkSize mallocHeaderSize at *
      omega
    obtain rfl := hsame hle
    exact ⟨Nat.pos_of_ne_zero hused, hle⟩
  · rintro ⟨hpos, hmax⟩
    obtain rfl := hsame hmax
    obtain ⟨-, -, hcount⟩ := mallocCalcNumChunks_spec hmax
    refine ⟨i, rfl, ?_, ?_⟩
    · rw [capacity, hlen]
      omega
    · rw [hhere, isFree_setUsed]
      simp only [Option.some.injEq, beq_eq_false_iff_ne]
      omega

theorem malloc_serves_iff {r : Heap × Nat × Option Errno} (hrun : h.malloc size owner stack = some r)
    (hne : r.2.1 ≠ 0) : r.1.Serves r.2.1 size ↔ 0 < size ∧ size ≤ mallocMaxSize := by
  obtain ⟨h₀, i, hheap, haddr⟩ := malloc_taken hrun hne
  rw [haddr, hheap]
  exact serves_iff takeChunk_self fun _ => rfl

/-! ### `_calloc_r` -/

/-- A header in front of what is cleared, or behind it. -/
theorem clear_chunk {addr : Nat} (hj : mallocChunkSize * j + mallocHeaderSize ≤ addr ∨ addr + size ≤ mallocChunkSize * j) :
    (h.clear addr size).chunk j = h.chunk j := by
  rw [clear]
  exact if_neg (by omega)

theorem clear_chunk_self : (h.clear (memoryOf i) size).chunk i = h.chunk i :=
  clear_chunk (Or.inl (Nat.le_refl _))

theorem calloc_eq {s1 s2 : Nat} {r : Heap × Nat × Option Errno} (hrun : h.calloc s1 s2 owner stack = some r)
    (hne : r.2.1 ≠ 0) : ∃ h₁, h.malloc (s1 * s2 % 2 ^ 32) owner stack = some (h₁, r.2) ∧
      r.1 = h₁.clear r.2.1 (s1 * s2 % 2 ^ 32) := by
  rw [calloc, Option.bind_eq_bind, Option.bind_eq_some_iff] at hrun
  obtain ⟨⟨h₁, alloc, errno⟩, hmalloc, hrun⟩ := hrun
  dsimp only at hrun
  split at hrun
  · obtain rfl := Option.some.inj hrun
    exact ⟨h₁, hmalloc, rfl⟩
  · next hzero =>
    obtain rfl := Option.some.inj hrun
    exact absurd hne hzero

theorem calloc_serves_iff {s1 s2 : Nat} {r : Heap × Nat × Option Errno}
    (hrun : h.calloc s1 s2 owner stack = some r) (hne : r.2.1 ≠ 0) :
    r.1.Serves r.2.1 (s1 * s2) ↔ 0 < s1 * s2 ∧ s1 * s2 ≤ mallocMaxSize := by
  obtain ⟨h₁, hmalloc, hclear⟩ := calloc_eq hrun hne
  obtain ⟨h₀, i, hheap, haddr⟩ := malloc_taken hmalloc hne
  have hmax : mallocMaxSize < 2 ^ 32 := by decide
  have hhere : r.1.chunk i =
      MallocChunk.setUsed owner (mallocCalcNumChunks (s1 * s2 % 2 ^ 32)) (s1 * s2 % 2 ^ 32) := by
    have haddr : r.2.1 = memoryOf i := haddr
    rw [hclear, haddr, clear_chunk_self, show h₁ = _ from hheap]
    exact takeChunk_self
  rw [show r.2.1 = memoryOf i from haddr]
  exact serves_iff hhere fun hle => Nat.mod_eq_of_lt (by omega)

/-! ### Later calls -/

/-- A request of at least one byte that the chunks can count, and so is the memory of the process. -/
def Asked (h : Heap) (size : Nat) (stack : Option Int) : Prop :=
  0 < size ∧ size ≤ mallocMaxSize ∧ h.RoomFor (mallocCalcNumChunks size) stack

/-- A heap that has been initialised. -/
structure Ready (h : Heap) : Prop where
  sound : h.Sound
  nonempty : h.size ≠ 0

/-- A call that does not free the allocation at `i`: it passes a pointer to another one, which `_free_r` may have been
given before. -/
inductive Call (i : Nat) (h : Heap) : Heap → Prop
  | malloc {size owner : Nat} {stack : Option Int} {r : Heap × Nat × Option Errno} (hasked : h.Asked size stack)
    (hrun : h.malloc size owner stack = some r) : Call i h r.1
  | calloc {s1 s2 owner : Nat} {stack : Option Int} {r : Heap × Nat × Option Errno}
    (hasked : h.Asked (s1 * s2) stack) (hrun : h.calloc s1 s2 owner stack = some r) : Call i h r.1
  | realloc {j size owner : Nat} {stack : Option Int} {r : Heap × Nat × Option Errno} (hne : j ≠ i) (hj : h.Used j)
    (hasked : h.Asked size stack) (hok : ¬h.GrowsTooFar j (mallocCalcNumChunks size))
    (hrun : h.realloc (memoryOf j) size owner stack = some r) : Call i h r.1
  | free {j : Nat} {h' : Heap} (hne : j ≠ i) (hj : h.Used j ∨ h.ReadsFree j)
    (hrun : h.free (memoryOf j) = some h') : Call i h h'
  | freeTask {t : Nat} {h' : Heap} (hne : (h.chunk i).taskId ≠ t) (hrun : h.mallocFreeTask t = some h') : Call i h h'

/-- No request is given the pointer as long as its chunk has not been freed. -/
def NotReused (h : Heap) (alloc : Nat) : Prop :=
  ∀ i, alloc = memoryOf i → ∀ h', Relation.ReflTransGen (Call i) h h' →
    ∀ (size owner : Nat) (stack : Option Int) (r : Heap × Nat × Option Errno), h'.Asked size stack →
      h'.malloc size owner stack = some r → r.2.1 ≠ alloc

theorem Start.of_same (hsame : ∀ j, h.Start j → h'.len j = h.len j) {a b : Nat} (hab : Walk h'.len a b)
    (ha : h.Start a) : h.Start b := by
  induction hab with
  | refl => exact ha
  | @step a b hpos _ ih =>
    rw [hsame a ha] at ih hpos
    exact ih (Walk.snoc ha hpos)

/-- Only the headers at which chunks start matter. -/
theorem start_iff_of_same (hsame : ∀ j, h.Start j → h'.len j = h.len j) (j : Nat) : h'.Start j ↔ h.Start j :=
  ⟨fun hj => Start.of_same hsame hj (Walk.refl 0), fun hj => Walk.congr hj fun p hp _ => hsame p hp⟩

theorem Sound.of_same (hs : h.Sound) (hsize : h'.size = h.size) (hsame : ∀ j, h.Start j → h'.chunk j = h.chunk j) :
    h'.Sound := by
  have hlen : ∀ j, h.Start j → h'.len j = h.len j := fun j hj => congrArg MallocChunk.numChunks (hsame j hj)
  have hlast : h'.last = h.last := by rw [last, last, hsize]
  have hstart := start_iff_of_same hlen
  refine ⟨⟨by rw [hsize]; exact hs.aligned, ?_, ?_, fun j hj => ?_⟩, ?_, by rw [hlast]; exact hs.small⟩
  · rw [hstart, hlast]
    exact hs.reaches
  · rw [hlast, hlen _ hs.reaches]
    exact hs.zero
  · rw [hsame j ((hstart j).mp hj)]
    exact hs.signature j ((hstart j).mp hj)
  · rw [hlast, ReadsFree, hsame _ hs.reaches]
    exact hs.sentinel

/-- What is cleared is the payload, so no chunk's header is. -/
theorem clear_same (hi : h.Start i) (hfit : mallocHeaderSize + size ≤ mallocChunkSize * h.len i) (hj : h.Start j) :
    (h.clear (memoryOf i) size).chunk j = h.chunk j := by
  apply clear_chunk
  rcases Nat.lt_or_ge i j with hlt | hle
  · right
    have hgap : i + h.len i ≤ j := Walk.gap hi hj hlt
    have hmul := Nat.mul_le_mul_left mallocChunkSize hgap
    unfold memoryOf
    rw [Nat.mul_add] at hmul
    omega
  · left
    unfold memoryOf
    exact Nat.add_le_add_right (Nat.mul_le_mul_left _ hle) _

theorem MallocSpec.used {r : Heap × Nat × Option Errno} (hspec : MallocSpec h n owner size r) (hu : h.Used i) :
    r.1.Used i ∧ r.1.chunk i = h.chunk i := by
  rcases hspec with ⟨-, hk⟩ | ⟨k, -, hfree, hp⟩
  · exact hk.used i hu
  · exact hp.used i (fun he => hfree (he ▸ hu)) hu

theorem MallocSpec.ready {r : Heap × Nat × Option Errno} (hspec : MallocSpec h n owner size r) (hr : h.Ready) :
    r.1.Ready := by
  have hne := hr.nonempty
  rcases hspec with ⟨-, hk⟩ | ⟨k, -, -, hp⟩
  · exact ⟨hk.sound, by have := hk.size_le; omega⟩
  · exact ⟨hp.sound, by have := hp.size_le; omega⟩

theorem Ready.malloc {r : Heap × Nat × Option Errno} (hr : h.Ready) (hasked : h.Asked size stack)
    (hrun : h.malloc size owner stack = some r) : MallocSpec h (mallocCalcNumChunks size) owner size r := by
  obtain ⟨r', hrun', hspec⟩ := malloc_spec owner hr.sound hr.nonempty hasked.2.1 hasked.2.2
  obtain rfl := Option.some.inj (hrun.symm.trans hrun')
  exact hspec

/-- `_calloc_r` returns null, or the chunk it has cleared. -/
theorem calloc_cleared {s1 s2 : Nat} {r : Heap × Nat × Option Errno} (hmax : s1 * s2 ≤ mallocMaxSize)
    (hrun : h.calloc s1 s2 owner stack = some r) :
    ∃ r₁, h.malloc (s1 * s2) owner stack = some r₁ ∧ r₁.2 = r.2 ∧
      (r.2.1 = 0 ∧ r.1 = r₁.1 ∨ r.2.1 ≠ 0 ∧ r.1 = r₁.1.clear r.2.1 (s1 * s2)) := by
  have hlt : mallocMaxSize < 2 ^ 32 := by decide
  rw [calloc, Nat.mod_eq_of_lt (by omega), Option.bind_eq_bind, Option.bind_eq_some_iff] at hrun
  obtain ⟨⟨h₁, alloc, errno⟩, hmalloc, hrun⟩ := hrun
  refine ⟨_, hmalloc, ?_⟩
  dsimp only at hrun
  split at hrun
  · next hne =>
    obtain rfl := Option.some.inj hrun
    exact ⟨rfl, Or.inr ⟨hne, rfl⟩⟩
  · next hzero =>
    obtain rfl := Option.some.inj hrun
    exact ⟨rfl, Or.inl ⟨not_not.mp hzero, rfl⟩⟩

/-- Clearing the chunk that has just been taken. -/
theorem Placed.clear (hp : Placed h h' i (MallocChunk.setUsed owner (mallocCalcNumChunks size) size))
    (hmax : size ≤ mallocMaxSize) :
    (h'.clear (memoryOf i) size).Sound ∧ ∀ j, h'.Used j →
      (h'.clear (memoryOf i) size).Used j ∧ (h'.clear (memoryOf i) size).chunk j = h'.chunk j := by
  have hlen : h'.len i = mallocCalcNumChunks size := congrArg MallocChunk.numChunks hp.here
  have hfit : mallocHeaderSize + size ≤ mallocChunkSize * h'.len i := by
    rw [hlen]
    exact (mallocCalcNumChunks_spec hmax).2.2
  have hsame : ∀ j, h'.Start j → (h'.clear (memoryOf i) size).chunk j = h'.chunk j :=
    fun j hj => clear_same hp.start hfit hj
  refine ⟨hp.sound.of_same rfl hsame, fun j hj => ⟨⟨?_, ?_⟩, hsame j hj.1⟩⟩
  · exact (start_iff_of_same (fun j hj => congrArg MallocChunk.numChunks (hsame j hj)) j).mpr hj.1
  · rw [hsame j hj.1]
    exact hj.2

/-- A call leaves the allocation at `i` where it is. -/
theorem Call.used (hc : Call i h h') (hr : h.Ready) (hu : h.Used i) :
    h'.Ready ∧ h'.Used i ∧ h'.chunk i = h.chunk i := by
  cases hc with
  | malloc hasked hrun =>
    have hspec := hr.malloc hasked hrun
    exact ⟨hspec.ready hr, hspec.used hu⟩
  | @calloc s1 s2 owner stack r hasked hrun =>
    obtain ⟨r₁, hmalloc, hret, hcases⟩ := calloc_cleared hasked.2.1 hrun
    have hspec := hr.malloc hasked hmalloc
    have hready := hspec.ready hr
    -- the memory is cleared if there is any
    have hused := hspec.used hu
    rcases hcases with ⟨-, hheap⟩ | ⟨hne, hheap⟩
    · rw [hheap]
      exact ⟨hready, hused⟩
    · rcases hspec with ⟨hzero, -⟩ | ⟨k, haddr, -, hp⟩
      · exact absurd (hret ▸ hzero) hne
      · obtain ⟨hsound, hkept⟩ := hp.clear hasked.2.1
        rw [hret] at haddr
        rw [hheap, haddr]
        obtain ⟨hused', hchunk⟩ := hkept i hused.1
        exact ⟨⟨hsound, hready.nonempty⟩, hused', hchunk.trans hused.2⟩
  | @realloc j size owner stack r hne hj hasked hok hrun =>
    obtain ⟨r', hrun', hspec⟩ := realloc_of_used owner hr.sound hj hr.nonempty (Nat.pos_iff_ne_zero.mp hasked.1)
      hasked.2.1 hasked.2.2 hok
    obtain rfl := Option.some.inj (hrun.symm.trans hrun')
    have hsize := hr.nonempty
    -- the chunk stays, grows or shrinks in place, or moves
    rcases hspec with ⟨-, hk⟩ | ⟨-, hp⟩ | ⟨k, h₁, -, hfree, hp, hf⟩
    · exact ⟨⟨hk.sound, by have := hk.size_le; omega⟩, hk.used i hu⟩
    · exact ⟨⟨hp.sound, by have := hp.size_le; omega⟩, hp.used i (Ne.symm hne) hu⟩
    · obtain ⟨hu₁, hchunk₁⟩ := hp.used i (fun he => hfree (he ▸ hu)) hu
      obtain ⟨hu₂, hchunk₂⟩ := hf.used i (Ne.symm hne) hu₁
      exact ⟨⟨hf.sound, by have := hp.size_le; have := hf.size; omega⟩, hu₂, hchunk₂.trans hchunk₁⟩
  | @free j h' hne hj hrun =>
    -- a chunk that reads as free is left alone
    rcases hj with hj | hj
    · obtain ⟨h₁, hrun₁, hf⟩ := free_of_used hr.sound hj
      obtain rfl := Option.some.inj (hrun.symm.trans hrun₁)
      exact ⟨⟨hf.sound, by rw [hf.size]; exact hr.nonempty⟩, hf.used i (Ne.symm hne) hu⟩
    · obtain rfl := Option.some.inj (hrun.symm.trans (free_of_readsFree hj))
      exact ⟨hr, hu, rfl⟩
  | @freeTask t h' hne hrun =>
    obtain ⟨h₁, hrun₁, hf⟩ := mallocFreeTask_spec hr.sound t
    obtain rfl := Option.some.inj (hrun.symm.trans hrun₁)
    exact ⟨⟨hf.sound, by rw [hf.size]; exact hr.nonempty⟩, hf.used i hu hne⟩

theorem Used.later (hcalls : Relation.ReflTransGen (Call i) h h') (hr : h.Ready) (hu : h.Used i) :
    h'.Ready ∧ h'.Used i := by
  induction hcalls with
  | refl => exact ⟨hr, hu⟩
  | tail _ hc ih =>
    obtain ⟨hr', hu', -⟩ := hc.used ih.1 ih.2
    exact ⟨hr', hu'⟩

theorem notReused_of_used (hr : h.Ready) (hu : h.Used i) : h.NotReused (memoryOf i) := by
  intro k hk h' hcalls size owner stack r hasked hrun
  obtain rfl := memoryOf_inj hk
  obtain ⟨hr', hu'⟩ := Used.later hcalls hr hu
  rcases hr'.malloc hasked hrun with ⟨hzero, -⟩ | ⟨j, hj, hfree, -⟩
  · rw [hzero]
    exact (memoryOf_ne_zero i).symm
  · rw [hj]
    exact fun he => hfree (memoryOf_inj he ▸ hu')

/-- The chunk that a request has been given. -/
theorem malloc_placed {r : Heap × Nat × Option Errno} (hvalid : h.Ready ∨ h.size = 0) (hasked : h.Asked size stack)
    (hrun : h.malloc size owner stack = some r) (hne : r.2.1 ≠ 0) :
    ∃ h₀ i, r.2.1 = memoryOf i ∧ h₀.Ready ∧
      Placed h₀ r.1 i (MallocChunk.setUsed owner (mallocCalcNumChunks size) size) := by
  rcases hvalid with hr | hzero
  · rcases hr.malloc hasked hrun with ⟨hnull, -⟩ | ⟨i, haddr, -, hp⟩
    · exact absurd hnull hne
    · exact ⟨h, i, haddr, hr, hp⟩
  · obtain ⟨r', hrun', hspec⟩ := malloc_spec_of_empty owner hzero hasked.2.1 hasked.2.2
    obtain rfl := Option.some.inj (hrun.symm.trans hrun')
    rcases hspec with rfl | ⟨h₀, hs, hpos, -, ⟨hnull, -⟩ | ⟨i, haddr, -, hp⟩⟩
    · exact absurd rfl hne
    · exact absurd hnull hne
    · exact ⟨h₀, i, haddr, ⟨hs, by omega⟩, hp⟩

theorem Placed.ready (hp : Placed h h' i (MallocChunk.setUsed owner n size)) (hr : h.Ready) (hpos : 0 < size) :
    h'.Ready ∧ h'.Used i := by
  have hne := hr.nonempty
  refine ⟨⟨hp.sound, by have := hp.size_le; omega⟩, hp.start, ?_⟩
  rw [hp.here]
  show size ≠ 0
  omega

theorem malloc_notReused {r : Heap × Nat × Option Errno} (hvalid : h.Ready ∨ h.size = 0)
    (hasked : h.Asked size stack) (hrun : h.malloc size owner stack = some r) (hne : r.2.1 ≠ 0) :
    r.1.NotReused r.2.1 := by
  obtain ⟨h₀, i, haddr, hr, hp⟩ := malloc_placed hvalid hasked hrun hne
  obtain ⟨hready, hused⟩ := hp.ready hr hasked.1
  rw [haddr]
  exact notReused_of_used hready hused

theorem calloc_notReused {s1 s2 : Nat} {r : Heap × Nat × Option Errno} (hvalid : h.Ready ∨ h.size = 0)
    (hasked : h.Asked (s1 * s2) stack) (hrun : h.calloc s1 s2 owner stack = some r) (hne : r.2.1 ≠ 0) :
    r.1.NotReused r.2.1 := by
  obtain ⟨r₁, hmalloc, hret, hcases⟩ := calloc_cleared hasked.2.1 hrun
  obtain ⟨h₀, i, haddr, hr, hp⟩ := malloc_placed hvalid hasked hmalloc (by rw [hret]; exact hne)
  obtain ⟨hready, hused⟩ := hp.ready hr hasked.1
  obtain ⟨hsound, hkept⟩ := hp.clear hasked.2.1
  have hheap : r.1 = r₁.1.clear r.2.1 (s1 * s2) := by
    rcases hcases with ⟨hzero, -⟩ | ⟨-, hheap⟩
    · exact absurd hzero hne
    · exact hheap
  rw [hret] at haddr
  rw [hheap, haddr]
  exact notReused_of_used ⟨hsound, hready.nonempty⟩ (hkept i hused).1

/-! ### The result -/

/-- A pointer is worth the request exactly if that is of `1` to `mallocMaxSize` bytes; and as long as the memory of the
process is not larger than the chunks can count, no later request is given it before it is freed. -/
theorem givesEnough_iff (h : Heap) (owner : Nat) (stack : Option Int) (r : Heap × Nat × Option Errno)
    (hne : r.2.1 ≠ 0) :
    (∀ size, h.malloc size owner stack = some r →
        (r.1.Serves r.2.1 size ↔ 0 < size ∧ size ≤ mallocMaxSize) ∧
          ((h.Ready ∨ h.size = 0) → h.Asked size stack → r.1.NotReused r.2.1)) ∧
    ∀ s1 s2, h.calloc s1 s2 owner stack = some r →
        (r.1.Serves r.2.1 (s1 * s2) ↔ 0 < s1 * s2 ∧ s1 * s2 ≤ mallocMaxSize) ∧
          ((h.Ready ∨ h.size = 0) → h.Asked (s1 * s2) stack → r.1.NotReused r.2.1) :=
  ⟨fun _ hrun => ⟨malloc_serves_iff hrun hne, fun hvalid hasked => malloc_notReused hvalid hasked hrun hne⟩,
    fun _ _ hrun => ⟨calloc_serves_iff hrun hne, fun hvalid hasked => calloc_notReused hvalid hasked hrun hne⟩⟩

/-- Three rows of seven bytes on a fresh heap. -/
theorem givesEnough_rows : ∃ r, emptyClient.heap.calloc 3 7 0 (some 2048) = some r ∧ r.1.Serves r.2.1 21 ∧
    r.1.NotReused r.2.1 := by
  obtain ⟨r, hrun, haddr⟩ : ∃ r, emptyClient.heap.calloc 3 7 0 (some 2048) = some r ∧ r.2.1 = memoryOf 0 :=
    ⟨_, rfl, rfl⟩
  have hne : r.2.1 ≠ 0 := by
    rw [haddr]
    exact memoryOf_ne_zero 0
  obtain ⟨hserves, hkept⟩ := (givesEnough_iff emptyClient.heap 0 (some 2048) r hne).2 3 7 hrun
  exact ⟨r, hrun, hserves.mpr (by decide), hkept (Or.inr rfl) ⟨by decide, by decide, by decide⟩⟩

/-- A request of no bytes is given a chunk that is still free, and the next request the same. -/
theorem not_givesEnough : ¬∀ (h : Heap) (size owner : Nat) (stack : Option Int) (r : Heap × Nat × Option Errno),
    h.Ready ∨ h.size = 0 → h.malloc size owner stack = some r → r.2.1 ≠ 0 →
      r.1.Serves r.2.1 size ∧ ∀ (owner' : Nat) (r' : Heap × Nat × Option Errno),
        r.1.malloc size owner' stack = some r' → r'.2.1 ≠ r.2.1 := by
  intro hall
  obtain ⟨r, r', hrun, haddr, hrun', haddr'⟩ : ∃ r r', emptyClient.heap.malloc 0 0 (some 2048) = some r ∧
      r.2.1 = memoryOf 0 ∧ r.1.malloc 0 0 (some 2048) = some r' ∧ r'.2.1 = memoryOf 0 := ⟨_, _, rfl, rfl, rfl, rfl⟩
  have hne : r.2.1 ≠ 0 := by
    rw [haddr]
    exact memoryOf_ne_zero 0
  exact (hall _ 0 0 (some 2048) r (Or.inr rfl) hrun hne).2 0 r' hrun' (haddr'.trans haddr.symm)

end Heap

end CoActionOS
