import CoActionOS.Malloc.Client

/-!
# The contents of reallocated memory

The calls on the heap write headers and nothing else, so the memory is the headers, one at every multiple of
`MALLOC_CHUNK_SIZE`, and `data` between them.  The payload of an allocation of several chunks includes the places inside
it where a header could be.

`_realloc_r` leaves an allocation where it is if the new chunks fit its own or are its own and the free ones behind them;
otherwise it allocates anew and frees the old chunk, and copies nothing (`reallocPreserves_iff`).
-/

namespace CoActionOS

open Function

/-- The byte at `k` of a header in memory. -/
def MallocChunk.byte (c : MallocChunk) : Nat → UInt8
  | 0 => UInt8.ofNat c.taskId
  | 1 => UInt8.ofNat c.signature
  | 2 => UInt8.ofNat c.numChunks
  | 3 => UInt8.ofNat (c.numChunks / 2 ^ 8)
  | k + 4 => UInt8.ofNat (c.actualSize / 2 ^ (8 * k))

namespace Heap

variable {h h' : Heap} {i j n : Nat} {data : Nat → UInt8}

/-! ### The bytes of the heap -/

/-- The byte at offset `a` from the base. -/
def byteAt (h : Heap) (data : Nat → UInt8) (a : Nat) : UInt8 :=
  if a % mallocChunkSize < mallocHeaderSize then (h.chunk (a / mallocChunkSize)).byte (a % mallocChunkSize)
  else data a

/-- The payload bytes of the chunk at `i`. -/
def capacity (h : Heap) (i : Nat) : Nat := mallocChunkSize * h.len i - mallocHeaderSize

theorem byteAt_memoryOf (i : Nat) : h.byteAt data (memoryOf i) = data (memoryOf i) := by
  unfold byteAt memoryOf mallocHeaderSize mallocChunkSize
  rw [if_neg (by omega)]

/-- A payload byte that lies within `m` chunks from `i` on is the same if the headers inside them are. -/
theorem byteAt_congr {m k : Nat} (hk : mallocHeaderSize + k < mallocChunkSize * m)
    (hin : ∀ q, i < q → q < i + m → h'.chunk q = h.chunk q) :
    h'.byteAt data (memoryOf i + k) = h.byteAt data (memoryOf i + k) := by
  unfold byteAt
  by_cases hhdr : (memoryOf i + k) % mallocChunkSize < mallocHeaderSize
  · rw [if_pos hhdr, if_pos hhdr, hin]
    · unfold memoryOf mallocHeaderSize mallocChunkSize at *
      omega
    · unfold memoryOf mallocHeaderSize mallocChunkSize at *
      omega
  · rw [if_neg hhdr, if_neg hhdr]

/-- The allocation at `i` has its header and its payload. -/
structure Untouched (h h' : Heap) (data : Nat → UInt8) (i : Nat) : Prop where
  header : h'.chunk i = h.chunk i
  bytes : ∀ k < h.capacity i, h'.byteAt data (memoryOf i + k) = h.byteAt data (memoryOf i + k)

theorem untouched_of_inner (hheader : h'.chunk i = h.chunk i)
    (hin : ∀ m, i < m → m < i + h.len i → h'.chunk m = h.chunk m) : Untouched h h' data i where
  header := hheader
  bytes k hk := by
    apply byteAt_congr _ hin
    unfold capacity at hk
    omega

/-- The chunk at `j` has room for `size` bytes, in the heap and apart from all live allocations but the one at `i`. -/
structure HasRoom (h h' : Heap) (i j size : Nat) : Prop where
  fits : mallocHeaderSize + size ≤ mallocChunkSize * h'.len j
  inside : j + h'.len j ≤ h'.last
  apart : ∀ q, h.Used q → q ≠ i → q + h.len q ≤ j ∨ j + h'.len j ≤ q

/-- What a caller relies on: a null pointer leaves the allocation alone; another pointer has room for the new size,
the old contents as far as they fit, and leaves all other live allocations alone. -/
def Preserves (h : Heap) (data : Nat → UInt8) (i size : Nat) (r : Heap × Nat × Option Errno) : Prop :=
  (r.2.1 = 0 ∧ Untouched h r.1 data i) ∨
    ∃ j, r.2.1 = memoryOf j ∧ HasRoom h r.1 i j size ∧
      (∀ k < min (h.capacity i) size, r.1.byteAt data (memoryOf j + k) = h.byteAt data (memoryOf i + k)) ∧
      ∀ q, h.Used q → q ≠ i → Untouched h r.1 data q

/-- `_realloc_r` returns, and preserves the contents whatever they are. -/
def ReallocPreserves (h : Heap) (i size owner : Nat) (stack : Option Int) : Prop :=
  ∃ r, h.realloc (memoryOf i) size owner stack = some r ∧ ∀ data, Preserves h data i size r

/-! ### Staying in place -/

/-- The allocation at `i` can stay where it is as `n` chunks: they are fewer than it has, or as many as it has with the
free chunk behind it; or they are more than those, and up to their end there is no live allocation and the heap does
not end. -/
def StaysInPlace (h : Heap) (i n : Nat) : Prop :=
  n < h.len i ∨ h.len i ≤ n ∧ h.ReadsFree (i + h.len i) ∧
    (h.len (i + h.len i) + h.len i = n ∨
      h.len (i + h.len i) + h.len i < n ∧ i + n ≤ h.last ∧ ∀ q, h.Used q → i < q → i + n < q)

/-- `_realloc_r` gets to its call of `_malloc_r`. -/
def Moves (h : Heap) (i n : Nat) : Prop :=
  h.len i ≤ n ∧ ¬(h.ReadsFree (i + h.len i) ∧ h.len (i + h.len i) + h.len i ≤ n)

/-- `_malloc_r` has no chunk for the request. -/
def NoChunk (h : Heap) (size owner : Nat) (stack : Option Int) : Prop :=
  ∃ r, h.malloc size owner stack = some r ∧ r.2.1 = 0

variable (h) in
/-- Headers change at most at the two ends of the new chunk. -/
theorem preserves_inPlace {size : Nat} {e : Option Errno} (hlen : h'.len i = n) (hlast : h'.last = h.last)
    (hfits : mallocHeaderSize + size ≤ mallocChunkSize * n) (hinside : i + n ≤ h.last)
    (hapart : ∀ q, h.Used q → q ≠ i → q + h.len q ≤ i ∨ i + n ≤ q)
    (hother : ∀ q, q ≠ i → q ≠ i + n → h'.chunk q = h.chunk q)
    (hend : h.Used (i + n) → h'.chunk (i + n) = h.chunk (i + n)) :
    ∀ data, Preserves h data i size (h', memoryOf i, e) := by
  intro data
  have hpos : 0 < n := by
    unfold mallocHeaderSize mallocChunkSize at hfits
    omega
  refine .inr ⟨i, rfl, ⟨?_, ?_, ?_⟩, fun k hk => ?_, fun q hq hqi => ?_⟩
  · show _ ≤ mallocChunkSize * h'.len i
    rw [hlen]
    exact hfits
  · show i + h'.len i ≤ h'.last
    rw [hlen, hlast]
    exact hinside
  · intro q hq hqi
    show _ ∨ i + h'.len i ≤ q
    rw [hlen]
    exact hapart q hq hqi
  · apply byteAt_congr (m := n)
    · omega
    · exact fun q hq hq' => hother q (by omega) (by omega)
  · have hout := hapart q hq hqi
    apply untouched_of_inner
    · by_cases hqn : q = i + n
      · rw [hqn] at hq ⊢
        exact hend hq
      · exact hother q hqi hqn
    · exact fun m hm hm' => hother m (by omega) (by omega)

theorem Used.lt_last (hu : h.Used i) (hs : h.Sound) : i < h.last := by
  have hle := hs.start_le hu.1
  have hne : i ≠ h.last := by rintro rfl; exact hu.2 hs.sentinel.2
  omega

theorem Used.size_ne_zero (hu : h.Used i) (hs : h.Sound) : h.size ≠ 0 := by
  intro h0
  have hlt := hu.lt_last hs
  unfold last at hlt
  rw [h0] at hlt
  exact absurd hlt (Nat.not_lt_zero i)

/-- Other live allocations lie before the chunk at `i` or behind it. -/
theorem Used.apart (hi : h.Start i) {q : Nat} (hq : h.Used q) (hqi : q ≠ i) :
    q + h.len q ≤ i ∨ i + h.len i ≤ q := by
  rcases Nat.lt_or_ge q i with hlt' | hge
  · exact .inl (Walk.gap hq.1 hi hlt')
  · exact .inr (Walk.gap hi hq.1 (by omega))

/-! ### The four ways of `_realloc_r` -/

section

variable {size owner : Nat} {stack : Option Int}

theorem realloc_cases (owner : Nat) (stack : Option Int) (hs : h.Sound) (hu : h.Used i) (hpos : size ≠ 0)
    (hn : mallocCalcNumChunks size = n) :
    (n < h.len i ∧ h.realloc (memoryOf i) size owner stack =
        some ((h.putUsed i owner n size).putFree (i + n) (h.len i - n), memoryOf i, none)) ∨
      (h.len i ≤ n ∧ h.ReadsFree (i + h.len i) ∧ h.len (i + h.len i) + h.len i = n ∧
        h.realloc (memoryOf i) size owner stack = some (h.putUsed i owner n size, memoryOf i, none)) ∨
      (h.len i ≤ n ∧ h.ReadsFree (i + h.len i) ∧ h.len (i + h.len i) + h.len i < n ∧
        h.realloc (memoryOf i) size owner stack =
          some ((h.putUsed i owner n size).putFree (i + n) (n - (h.len (i + h.len i) + h.len i)), memoryOf i, none)) ∨
      (h.Moves i n ∧ h.realloc (memoryOf i) size owner stack = h.reallocMove (memoryOf i) size owner stack) := by
  have hlt : i < h.last := hu.lt_last hs
  have hnext := hs.next hu.1 hlt
  have h0 := hu.size_ne_zero hs
  have hused : (h.chunk i).isFree = some false := by
    rw [hs.isFree hu.1]
    simp [hu.2]
  -- the two chunks together are counted without overflow
  have hmod : (h.len (i + h.len i) + h.len i) % 2 ^ 16 = h.len (i + h.len i) + h.len i := by
    have hsmall := hs.small
    apply Nat.mod_eq_of_lt
    rcases Nat.lt_or_eq_of_le (hs.start_le hnext) with hnlt | hend
    · have := hs.next_le hnext hnlt
      omega
    · have := hs.next_le hu.1 hlt
      rw [hend, hs.zero]
      omega
  unfold realloc
  simp only [hpos, h0, memoryOf_ne_zero, ite_false, (memoryOf_sub i).2, hused, Option.bind_eq_bind,
    Option.bind_some, Bool.false_eq_true, numChunks_eq_len, hmod, hn]
  by_cases hshrink : n < h.len i
  · exact .inl ⟨hshrink, if_pos hshrink⟩
  · rw [if_neg hshrink]
    have hge : h.len i ≤ n := Nat.not_lt.mp hshrink
    by_cases hfree : h.ReadsFree (i + h.len i)
    · simp only [hfree.isFree, Option.bind_some, ite_true]
      rcases Nat.lt_trichotomy (h.len (i + h.len i) + h.len i) n with hless | heq | hmore
      · exact .inr (.inr (.inl ⟨hge, hfree, hless, if_pos hless⟩))
      · refine .inr (.inl ⟨hge, hfree, heq, ?_⟩)
        rw [if_neg (by omega), if_pos heq]
      · refine .inr (.inr (.inr ⟨⟨hge, fun hle => absurd hle.2 (Nat.not_le.mpr hmore)⟩, ?_⟩))
        rw [if_neg (by omega), if_neg (by omega)]
    · have hnot : (h.chunk (i + h.len i)).isFree = some false := by
        rw [hs.isFree hnext]
        have hne : (h.chunk (i + h.len i)).actualSize ≠ 0 := fun h0 => hfree ⟨hs.signature _ hnext, h0⟩
        simp [hne]
      simp only [hnot, Option.bind_some, Bool.false_eq_true, ite_false]
      exact .inr (.inr (.inr ⟨⟨hge, fun hle => hfree hle.1⟩, trivial⟩))

/-- A moved allocation does not have its contents: its first byte is not copied. -/
theorem not_preserves_moved {r : Heap × Nat × Option Errno} (hpos : size ≠ 0) (hcap : 0 < h.capacity i) (hij : j ≠ i)
    (haddr : r.2.1 = memoryOf j) : ¬∀ data, Preserves h data i size r := by
  intro hall
  rcases hall fun a => if a = memoryOf i then 1 else 0 with ⟨hnull, _⟩ | ⟨q, hq, _, hbytes, _⟩
  · exact memoryOf_ne_zero j (haddr.symm.trans hnull)
  · obtain rfl : j = q := memoryOf_inj (haddr.symm.trans hq)
    have hfirst := hbytes 0 (by omega)
    rw [Nat.add_zero, Nat.add_zero, byteAt_memoryOf, byteAt_memoryOf, if_pos rfl,
      if_neg fun he => hij (memoryOf_inj he)] at hfirst
    exact absurd hfirst (by decide)

/-- What stays at its address has room there, and the rest is left alone. -/
theorem room_of_preserves {r : Heap × Nat × Option Errno} (haddr : r.2.1 = memoryOf i)
    (hall : ∀ data, Preserves h data i size r) :
    HasRoom h r.1 i i size ∧ ∀ q, h.Used q → q ≠ i → r.1.chunk q = h.chunk q := by
  rcases hall fun _ => 0 with ⟨hnull, _⟩ | ⟨q, hq, hroom, _, hrest⟩
  · exact absurd (haddr.symm.trans hnull) (memoryOf_ne_zero i)
  · obtain rfl : i = q := memoryOf_inj (haddr.symm.trans hq)
    exact ⟨hroom, fun q hq hqi => (hrest q hq hqi).header⟩

/-- No header counts more chunks than the largest request needs. -/
theorem size_le_of_room (hlen : h'.len i ≤ 65535) (hroom : HasRoom h h' i i size) : size ≤ mallocMaxSize := by
  have hfits := hroom.fits
  unfold mallocMaxSize mallocHeaderSize mallocChunkSize at *
  omega

theorem StaysInPlace.not_moves (h₁ : h.StaysInPlace i n) : ¬h.Moves i n := by
  rintro ⟨hle, hno⟩
  rcases h₁ with hlt | ⟨_, hfree, heq | ⟨hlt, _⟩⟩
  · omega
  · exact hno ⟨hfree, heq.le⟩
  · exact hno ⟨hfree, hlt.le⟩

/-- Shrinking. -/
theorem shrunk_iff (hs : h.Sound) (hu : h.Used i) (hn : mallocCalcNumChunks size = n) (hlt : n < h.len i) :
    (∀ data, Preserves h data i size
      ((h.putUsed i owner n size).putFree (i + n) (h.len i - n), memoryOf i, none)) ↔ size ≤ mallocMaxSize := by
  have hi := hu.lt_last hs
  have hle := hs.next_le hu.1 hi
  constructor
  · intro hall
    apply size_le_of_room _ (room_of_preserves rfl hall).1
    -- with no chunks at all the free header comes to lie on the header itself
    show len (putFree (putUsed h i owner n size) (i + n) (h.len i - n)) i ≤ 65535
    have hsmall := hs.small
    by_cases h0 : n = 0
    · have hself : len (putFree (putUsed h i owner n size) (i + n) (h.len i - n)) i = h.len i - n := by
        rw [h0, Nat.add_zero, len, putFree, set_chunk_self]
        rfl
      omega
    · have hself : len (putFree (putUsed h i owner n size) (i + n) (h.len i - n)) i = n := by
        rw [len, putFree, set_chunk_of_ne (by omega), putUsed, set_chunk_self]
        rfl
      omega
  · intro hsize
    obtain ⟨hpos, _, hfits⟩ := mallocCalcNumChunks_spec hsize
    rw [hn] at hpos hfits
    have hcarved := carved_shrink (i := i) owner size hpos hlt
    have hself : len (putFree (putUsed h i owner n size) (i + n) (h.len i - n)) i = n := by
      rw [len, hcarved.here]
      rfl
    apply preserves_inPlace h hself rfl hfits (by omega)
    · intro q hq hqi
      have := hq.apart hu.1 hqi
      omega
    · exact fun q hqi hqn => hcarved.other q hqi fun _ => hqn
    · intro hq
      have := hq.apart hu.1 (by omega)
      omega

/-- Taking over the free chunk behind. -/
theorem grown_iff (hs : h.Sound) (hu : h.Used i) (hn : mallocCalcNumChunks size = n)
    (hfree : h.ReadsFree (i + h.len i)) (heq : h.len (i + h.len i) + h.len i = n) :
    (∀ data, Preserves h data i size (h.putUsed i owner n size, memoryOf i, none)) ↔ size ≤ mallocMaxSize := by
  have hi := hu.lt_last hs
  have hnext := hs.next hu.1 hi
  have hself : len (putUsed h i owner n size) i = n := by
    rw [len, putUsed, set_chunk_self]
    rfl
  have hlast : i + n ≤ h.last := by
    rcases Nat.lt_or_eq_of_le (hs.start_le hnext) with hlt | hend
    · have := hs.next_le hnext hlt
      omega
    · rw [hend, hs.zero] at heq
      omega
  have hother : ∀ q, q ≠ i → (h.putUsed i owner n size).chunk q = h.chunk q := fun q hq => set_chunk_of_ne hq _
  constructor
  · intro hall
    apply size_le_of_room _ (room_of_preserves rfl hall).1
    have hsmall := hs.small
    show len (putUsed h i owner n size) i ≤ 65535
    omega
  · intro hsize
    obtain ⟨hpos, _, hfits⟩ := mallocCalcNumChunks_spec hsize
    rw [hn] at hpos hfits
    apply preserves_inPlace h hself rfl hfits hlast
    · intro q hq hqi
      rcases hq.apart hu.1 hqi with hbefore | hbehind
      · exact .inl hbefore
      · right
        -- the chunk behind is free, so another one in use is behind that
        have hne : q ≠ i + h.len i := by rintro rfl; exact hq.2 hfree.2
        have hgap := Walk.gap hnext hq.1 (by omega)
        omega
    · exact fun q hqi _ => hother q hqi
    · exact fun _ => hother (i + n) (by omega)

/-- Taking over more than the free chunk behind. -/
theorem overgrown_iff (hs : h.Sound) (hu : h.Used i) (hn : mallocCalcNumChunks size = n) (hle : h.len i ≤ n) (m : Nat) :
    (∀ data, Preserves h data i size ((h.putUsed i owner n size).putFree (i + n) m, memoryOf i, none)) ↔
      size ≤ mallocMaxSize ∧ i + n ≤ h.last ∧ ∀ q, h.Used q → i < q → i + n < q := by
  have hi := hu.lt_last hs
  have hpos := hs.len_pos hu.1 hi
  have hself : len ((h.putUsed i owner n size).putFree (i + n) m) i = n := by
    rw [len, putFree, set_chunk_of_ne (by omega), putUsed, set_chunk_self]
    rfl
  constructor
  · intro hall
    obtain ⟨hroom, hrest⟩ := room_of_preserves rfl hall
    have hinside : i + len ((h.putUsed i owner n size).putFree (i + n) m) i ≤ h.last := hroom.inside
    rw [hself] at hinside
    have hsmall := hs.small
    refine ⟨size_le_of_room (show len ((h.putUsed i owner n size).putFree (i + n) m) i ≤ 65535 by omega) hroom,
      hinside, fun q hq hiq => ?_⟩
    have hapart : q + h.len q ≤ i ∨ i + len ((h.putUsed i owner n size).putFree (i + n) m) i ≤ q :=
      hroom.apart q hq (by omega)
    rw [hself] at hapart
    have hge : i + n ≤ q := by omega
    rcases Nat.lt_or_eq_of_le hge with hlt | rfl
    · exact hlt
    · -- its header has been overwritten by that of a free chunk
      have hheader : ((h.putUsed i owner n size).putFree (i + n) m).chunk (i + n) = h.chunk (i + n) :=
        hrest (i + n) hq (by omega)
      rw [putFree, set_chunk_self] at hheader
      exact absurd (congrArg MallocChunk.actualSize hheader).symm hq.2
  · rintro ⟨hsize, hinside, hno⟩
    obtain ⟨_, _, hfits⟩ := mallocCalcNumChunks_spec hsize
    rw [hn] at hfits
    apply preserves_inPlace h hself rfl hfits hinside
    · intro q hq hqi
      rcases Nat.lt_or_ge q i with hlt | hge
      · exact .inl (Walk.gap hq.1 hu.1 hlt)
      · exact .inr (hno q hq (by omega)).le
    · intro q hqi hqn
      rw [putFree, set_chunk_of_ne hqn, putUsed, set_chunk_of_ne hqi]
    · intro hq
      exact absurd (hno (i + n) hq (by omega)) (Nat.lt_irrefl _)

/-- Allocating anew. -/
theorem moved_iff (owner : Nat) (hs : h.Sound) (hu : h.Used i) (hpos : size ≠ 0) (hn : 0 < mallocCalcNumChunks size)
    (hroom : h.RoomFor (mallocCalcNumChunks size) stack) :
    (∃ r, h.reallocMove (memoryOf i) size owner stack = some r ∧ ∀ data, Preserves h data i size r) ↔
      h.NoChunk size owner stack := by
  have hi := hu.lt_last hs
  have hcap : 0 < h.capacity i := by
    have := hs.len_pos hu.1 hi
    unfold capacity mallocChunkSize mallocHeaderSize
    omega
  obtain ⟨⟨h₁, alloc, e⟩, hrun, hspec, hinner⟩ := malloc_spec_inner owner hs (hu.size_ne_zero hs) hn hroom
  have hmove : h.reallocMove (memoryOf i) size owner stack =
      if alloc ≠ 0 then (h₁.free (memoryOf i)).map fun h₂ => (h₂, alloc, e) else some (h₁, alloc, e) := by
    unfold reallocMove
    rw [hrun]
    simp only [Option.bind_eq_bind, Option.bind_some]
    split
    · cases h₁.free (memoryOf i) <;> rfl
    · rfl
  rw [hmove]
  rcases hspec with ⟨hnull, hkeeps⟩ | ⟨j, haddr, hj, _⟩
  · have hnull : alloc = 0 := hnull
    rw [if_neg (not_not.mpr hnull)]
    constructor
    · exact fun _ => ⟨_, hrun, hnull⟩
    · intro _
      refine ⟨_, rfl, fun data => .inl ⟨hnull, ?_⟩⟩
      exact untouched_of_inner (hkeeps.used i hu).2 (hinner hnull i hu)
  · have haddr : alloc = memoryOf j := haddr
    have hne : alloc ≠ 0 := by
      rw [haddr]
      exact memoryOf_ne_zero j
    rw [if_pos hne]
    constructor
    · rintro ⟨r, hr, hall⟩
      obtain ⟨h₂, _, rfl⟩ := Option.map_eq_some_iff.mp hr
      exact absurd hall (not_preserves_moved hpos hcap (by rintro rfl; exact hj hu) haddr)
    · rintro ⟨r, hr, hnull⟩
      rw [hrun] at hr
      obtain rfl := Option.some.inj hr
      exact absurd hnull hne

/-- The contents are preserved if and only if the request fits the chunks that `uint16_t` can count and the allocation
can stay where it is, or there is no chunk for it to move to. -/
theorem reallocPreserves_iff (owner : Nat) (hs : h.Sound) (hu : h.Used i) (hpos : size ≠ 0)
    (hroom : h.RoomFor (mallocCalcNumChunks size) stack) :
    ReallocPreserves h i size owner stack ↔
      size ≤ mallocMaxSize ∧ h.StaysInPlace i (mallocCalcNumChunks size) ∨
        h.Moves i (mallocCalcNumChunks size) ∧ h.NoChunk size owner stack := by
  have hlen := hs.len_pos hu.1 (hu.lt_last hs)
  have hresult : ∀ r, h.realloc (memoryOf i) size owner stack = some r →
      (ReallocPreserves h i size owner stack ↔ ∀ data, Preserves h data i size r) := by
    intro r hr
    unfold ReallocPreserves
    constructor
    · rintro ⟨r', hr', hall⟩
      rw [hr] at hr'
      rwa [Option.some.inj hr']
    · exact fun hall => ⟨r, hr, hall⟩
  rcases realloc_cases owner stack hs hu hpos rfl with
    ⟨hlt, hr⟩ | ⟨hge, hfree, heq, hr⟩ | ⟨hge, hfree, hlt, hr⟩ | ⟨hmoves, hr⟩
  -- the chunk shrinks
  · rw [hresult _ hr, shrunk_iff hs hu rfl hlt]
    constructor
    · exact fun hsize => .inl ⟨hsize, .inl hlt⟩
    · rintro (⟨hsize, _⟩ | ⟨hmoves, _⟩)
      · exact hsize
      · exact absurd hmoves.1 (Nat.not_le.mpr hlt)
  -- the chunk takes the one behind it whole
  · rw [hresult _ hr, grown_iff hs hu rfl hfree heq]
    constructor
    · exact fun hsize => .inl ⟨hsize, .inr ⟨hge, hfree, .inl heq⟩⟩
    · rintro (⟨hsize, _⟩ | ⟨hmoves, _⟩)
      · exact hsize
      · exact absurd ⟨hfree, heq.le⟩ hmoves.2
  -- the chunk takes a part of the one behind it
  · rw [hresult _ hr, overgrown_iff hs hu rfl hge]
    constructor
    · rintro ⟨hsize, hinside, hno⟩
      exact .inl ⟨hsize, .inr ⟨hge, hfree, .inr ⟨hlt, hinside, hno⟩⟩⟩
    · rintro (⟨hsize, hstays⟩ | ⟨hmoves, _⟩)
      · rcases hstays with hshort | ⟨_, _, heq | ⟨_, hinside, hno⟩⟩
        · exact absurd hge (Nat.not_le.mpr hshort)
        · exact absurd heq hlt.ne
        · exact ⟨hsize, hinside, hno⟩
      · exact absurd ⟨hfree, hlt.le⟩ hmoves.2
  -- the allocation moves, or there is no chunk for it
  · unfold ReallocPreserves
    rw [hr, moved_iff owner hs hu hpos (by have := hmoves.1; omega) hroom]
    constructor
    · exact fun hno => .inr ⟨hmoves, hno⟩
    · rintro (⟨_, hstays⟩ | ⟨_, hno⟩)
      · exact absurd hmoves hstays.not_moves
      · exact hno

end

/-- A hundred bytes. -/
def oneLong : List HeapAction := [.malloc 100 0 (some 2048)]

/-- The two chunks of a hundred bytes are shrunk to one. -/
theorem reallocPreserves_shrink : ∃ h : Heap, h.Sound ∧ h.Used 0 ∧ ReallocPreserves h 0 20 0 (some 2048) := by
  obtain ⟨s, hs, hsize, hused, hlen⟩ : ∃ s, Run.replay HeapClient.step emptyClient oneLong = some (s, []) ∧
      s.heap.size = 128 ∧ (s.heap.chunk 0).actualSize = 100 ∧ s.heap.len 0 = 2 := ⟨_, rfl, rfl, rfl, rfl⟩
  have hok : Run.AllOk HeapClient.step WellUsed emptyClient oneLong := ⟨by decide, trivial⟩
  have hrun := Run.of_replay hs hok
  have hinv := (reachable_of_run ⟨rfl, rfl, rfl⟩ hrun).resolve_left fun h0 => absurd h0.1 (by omega)
  have hu : s.heap.Used 0 := ⟨Walk.refl 0, by omega⟩
  refine ⟨s.heap, hinv.sound, hu, (reallocPreserves_iff 0 hinv.sound hu (by decide) ?_).2 (.inl ⟨by decide, .inl ?_⟩)⟩
  · show (2048 : Int) ≤ mallocChunkSize * 65535
    decide
  · rw [hlen]
    decide

/-- Twice ten bytes. -/
def twoShort : List HeapAction := [.malloc 10 0 (some 2048), .malloc 10 0 (some 2048)]

/-- The first ten bytes cannot grow to a hundred where they are, and are not copied. -/
theorem not_reallocPreserves : ¬∀ (h : Heap) (i size owner : Nat) (stack : Option Int), h.Sound → h.Used i → size ≠ 0 →
    h.RoomFor (mallocCalcNumChunks size) stack → ReallocPreserves h i size owner stack := by
  intro hall
  obtain ⟨s, hs, hsize, hused, hlen, hmoved⟩ : ∃ s, Run.replay HeapClient.step emptyClient twoShort = some (s, []) ∧
      s.heap.size = 128 ∧ (s.heap.chunk 0).actualSize = 10 ∧ s.heap.len 0 = 1 ∧
      (s.heap.realloc (memoryOf 0) 100 0 (some 2048)).map (fun r => r.2.1) = some (memoryOf 2) :=
    ⟨_, rfl, rfl, rfl, rfl, rfl⟩
  have hok : Run.AllOk HeapClient.step WellUsed emptyClient twoShort := ⟨by decide, by decide, trivial⟩
  have hrun := Run.of_replay hs hok
  have hinv := (reachable_of_run ⟨rfl, rfl, rfl⟩ hrun).resolve_left fun h0 => absurd h0.1 (by omega)
  have hu : s.heap.Used 0 := ⟨Walk.refl 0, by omega⟩
  have hcap : 0 < s.heap.capacity 0 := by
    rw [capacity, hlen]
    decide
  obtain ⟨r, hr, hpreserves⟩ := hall s.heap 0 100 0 (some 2048) hinv.sound hu (by decide)
    (show (2048 : Int) ≤ mallocChunkSize * 65535 by decide)
  rw [hr] at hmoved
  exact not_preserves_moved (by decide) hcap (by decide) (Option.some.inj hmoved) hpreserves

end Heap

end CoActionOS
