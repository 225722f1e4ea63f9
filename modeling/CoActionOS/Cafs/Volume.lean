import CoActionOS.Cafs.Entries
import CoActionOS.Cafs.Segments

/-!
# Files on the medium

A file consists of a header block, the blocks of its list and the data blocks that its items name;
all of them carry its serial number.  `ClosedFile` is a file that can be looked up, `OpenFile` the
copy that a handle writes: its header and its list are its own and open, while its items also name
data blocks of the closed file it was opened from.

`Volume` says that the medium holds a list of serial numbers each closed entry of which names a
closed file.  `Extends` is what writing to an open file does: closed blocks are as they were, and
blocks in use stay in use.
-/

namespace CoActionOS.Cafs

variable {g : Geometry}

/-! ### Files -/

structure DataBlock (g : Geometry) (V : Nat → Bytes) (sn b : Nat) : Prop where
  pos : 1 ≤ b
  lt : b < g.total
  serialno : u32 (V b) 0 = sn
  type : V b 4 = BlockType.fileData
  live : Live (V b)

/-- A header block and a list whose blocks have the status `st`. -/
structure FileAt (g : Geometry) (V : Nat → Bytes) (sn : Nat) (st : UInt8) (hdr : Nat)
    (blocks : List Nat) (I : List FileItem) : Prop where
  pos : 1 ≤ hdr
  lt : hdr < g.total
  serialno : u32 (V hdr) 0 = sn
  type : V hdr 4 = BlockType.fileHdr
  status : V hdr 5 = st
  content : u16 (V hdr) 32 = blocks.headD 0
  list : IsList g V sn BlockType.fileList blocks I.length
  items : HasItems fileDecoder V blocks I
  listStatus : ∀ b ∈ blocks, V b 5 = st
  unique : UniqueCurrent I

structure ClosedFile (g : Geometry) (V : Nat → Bytes) (sn hdr : Nat) (blocks : List Nat)
    (I : List FileItem) : Prop extends FileAt g V sn BlockStatus.closed hdr blocks I where
  settled : ∀ i ∈ I, i.status = FileStatus.current ∨ i.status = FileStatus.dirty
  data : ∀ i ∈ I, i.status = FileStatus.current →
    DataBlock g V sn i.block ∧ V i.block 5 = BlockStatus.closed
  apart : ∀ j k (hj : j < I.length) (hk : k < I.length), I[j].status = FileStatus.current →
    I[k].status = FileStatus.current → I[j].block = I[k].block → j = k

structure OpenFile (g : Geometry) (V : Nat → Bytes) (sn hdr : Nat) (blocks : List Nat)
    (I : List FileItem) : Prop extends FileAt g V sn BlockStatus.opened hdr blocks I where
  pending : ∀ i ∈ I, i.status = FileStatus.current ∨ i.status = FileStatus.obsolete
  data : ∀ i ∈ I, DataBlock g V sn i.block
  apart : ∀ j k (hj : j < I.length) (hk : k < I.length), I[j].block = I[k].block → j = k
  /-- the size has not been written -/
  noSize : ∀ i, 34 ≤ i → i < 38 → V hdr i = 0xFF

section congr

variable {V V' : Nat → Bytes} {sn hdr b : Nat} {st : UInt8} {blocks : List Nat} {I : List FileItem}

theorem DataBlock.congr (h : DataBlock g V sn b) (hV : V' b = V b) : DataBlock g V' sn b := by
  refine ⟨h.pos, h.lt, ?_, ?_, ?_⟩
  · rw [hV]
    exact h.serialno
  · rw [hV]
    exact h.type
  · rw [hV]
    exact h.live

theorem FileAt.congr (h : FileAt g V sn st hdr blocks I) (hh : V' hdr = V hdr)
    (hb : ∀ b ∈ blocks, V' b = V b) : FileAt g V' sn st hdr blocks I where
  pos := h.pos
  lt := h.lt
  serialno := by rw [hh]; exact h.serialno
  type := by rw [hh]; exact h.type
  status := by rw [hh]; exact h.status
  content := by rw [hh]; exact h.content
  list := h.list.congr fun b hb' i _ => by rw [hb b hb']
  items := h.items.congr h.list.fits fun b hb' i _ => by rw [hb b hb']
  listStatus b hb' := by rw [hb b hb']; exact h.listStatus b hb'
  unique := h.unique

/-- The blocks of a closed file are closed blocks of its serial number. -/
theorem ClosedFile.congr (h : ClosedFile g V sn hdr blocks I)
    (hV : ∀ c < g.total, V c 5 = BlockStatus.closed → u32 (V c) 0 = sn → V' c = V c) :
    ClosedFile g V' sn hdr blocks I where
  toFileAt := h.toFileAt.congr (hV hdr h.lt h.status h.serialno)
    fun b hb => hV b (h.list.lt b hb) (h.listStatus b hb) (h.list.serialno b hb)
  settled := h.settled
  data i hi hc := by
    obtain ⟨h1, h2⟩ := h.data i hi hc
    have := hV i.block h1.lt h2 h1.serialno
    exact ⟨h1.congr this, by rw [this]; exact h2⟩
  apart := h.apart

theorem OpenFile.congr (h : OpenFile g V sn hdr blocks I)
    (hV : ∀ c < g.total, Live (V c) → u32 (V c) 0 = sn → V' c = V c) :
    OpenFile g V' sn hdr blocks I where
  toFileAt := h.toFileAt.congr (hV hdr h.lt (Or.inr h.status) h.serialno)
    fun b hb => hV b (h.list.lt b hb) (Or.inr (h.listStatus b hb)) (h.list.serialno b hb)
  pending := h.pending
  data i hi := (h.data i hi).congr (hV i.block (h.data i hi).lt (h.data i hi).live
    (h.data i hi).serialno)
  apart := h.apart
  noSize i h1 h2 := by
    rw [hV hdr h.lt (Or.inr h.status) h.serialno]
    exact h.noSize i h1 h2

/-- A list block is neither a header nor a data block. -/
theorem IsList.type_cases {n : Nat} (h : IsList g V sn BlockType.fileList blocks n) {c : Nat}
    (hc : c ∈ blocks) :
    V c 4 = BlockType.fileList ∨ V c 4 = BlockType.fileList ||| linkedListFlag := by
  obtain ⟨i, hi, rfl⟩ := List.getElem_of_mem hc
  rw [h.type i hi]
  split
  · exact Or.inl rfl
  · exact Or.inr rfl

theorem DataBlock.not_mem {n : Nat} (h : DataBlock g V sn b)
    (hL : IsList g V sn BlockType.fileList blocks n) : b ∉ blocks := by
  intro hb
  have ht := h.type
  rcases hL.type_cases hb with h1 | h1
  · rw [h1] at ht
    exact absurd ht (by decide)
  · rw [h1] at ht
    exact absurd ht (by decide)

theorem FileAt.hdr_not_mem (h : FileAt g V sn st hdr blocks I) : hdr ∉ blocks := by
  intro hb
  have ht := h.type
  rcases h.list.type_cases hb with h1 | h1
  · rw [h1] at ht
    exact absurd ht (by decide)
  · rw [h1] at ht
    exact absurd ht (by decide)

theorem DataBlock.ne_hdr (h : DataBlock g V sn b) (ht : V hdr 4 = BlockType.fileHdr) : b ≠ hdr := by
  rintro rfl
  have := h.type
  rw [ht] at this
  exact absurd this (by decide)

end congr

/-! ### Volumes -/

/-- The first entry. -/
def zeroEntry : SnItem := newEntry clSerialnoList clBlockList SnStatus.closed

structure Volume (g : Geometry) (V : Nat → Bytes) (sb : List Nat) (L : List SnItem) : Prop where
  entries : SnList g V sb L
  zero : L.head? = some zeroEntry
  status : ∀ i ∈ L, i.status = SnStatus.opened ∨ i.status = SnStatus.closed ∨
    i.status = SnStatus.dirty
  positive : ∀ k (hk : k < L.length), k ≠ 0 → L[k].serialno ≠ clSerialnoList
  unique : ∀ j k (hj : j < L.length) (hk : k < L.length), L[j].status = SnStatus.closed →
    L[k].status = SnStatus.closed → L[j].serialno = L[k].serialno → j = k
  opened : ∀ i ∈ L, i.status = SnStatus.opened →
    i.block < g.total ∧ Live (V i.block) ∧ V i.block 4 = BlockType.fileHdr
  closed : ∀ i ∈ L, i.status = SnStatus.closed → i.serialno ≠ clSerialnoList →
    ∃ blocks I, ClosedFile g V i.serialno i.block blocks I
  heads : ∀ c < g.total, Live (V c) → V c 4 = BlockType.serialnoList → c = sb.headD 0

/-- What writing to an open file with the serial number `sn` does to the medium. -/
structure Extends (g : Geometry) (sn : Nat) (s s' : St) : Prop where
  tidy : Tidy g s'
  ram : SameRam s s'
  closed : ∀ c < g.total, blk s.flash c 5 = BlockStatus.closed → blk s'.flash c = blk s.flash c
  other : ∀ c < g.total, Live (blk s.flash c) → u32 (blk s.flash c) 0 ≠ sn →
    blk s'.flash c = blk s.flash c
  live : ∀ c < g.total, Live (blk s.flash c) → Live (blk s'.flash c) ∧
    blk s'.flash c 4 = blk s.flash c 4 ∧ u32 (blk s'.flash c) 0 = u32 (blk s.flash c) 0
  heads : ∀ c < g.total, Live (blk s'.flash c) → blk s'.flash c 4 = BlockType.serialnoList →
    Live (blk s.flash c) ∧ blk s.flash c 4 = BlockType.serialnoList

namespace Extends

variable {sn : Nat} {s s' s'' : St}

theorem refl (hs : Tidy g s) : Extends g sn s s where
  tidy := hs
  ram := SameRam.refl s
  closed _ _ _ := rfl
  other _ _ _ _ := rfl
  live _ _ h := ⟨h, rfl, rfl⟩
  heads _ _ h1 h2 := ⟨h1, h2⟩

theorem trans (h : Extends g sn s s') (h' : Extends g sn s' s'') : Extends g sn s s'' where
  tidy := h'.tidy
  ram := h.ram.trans h'.ram
  closed c hc hl := by
    have h1 := h.closed c hc hl
    rw [h'.closed c hc (by rwa [h1]), h1]
  other c hc hl hn := by
    have h1 := h.other c hc hl hn
    rw [h'.other c hc (by rwa [h1]) (by rwa [h1]), h1]
  live c hc hl := by
    obtain ⟨h1, h2, h3⟩ := h.live c hc hl
    obtain ⟨h4, h5, h6⟩ := h'.live c hc h1
    exact ⟨h4, h5.trans h2, h6.trans h3⟩
  heads c hc hl ht := by
    obtain ⟨h1, h2⟩ := h'.heads c hc hl ht
    exact h.heads c hc h1 h2

/-- A frame whose own blocks are open, carry the serial number and keep their headers. -/
theorem of_frame {own : Nat → Prop} (ht : Tidy g s') (hf : Frame g own s s')
    (hown : ∀ c < g.total, own c → Live (blk s.flash c) → blk s.flash c 5 = BlockStatus.opened ∧
      u32 (blk s.flash c) 0 = sn ∧ Live (blk s'.flash c) ∧ blk s'.flash c 4 = blk s.flash c 4 ∧
      u32 (blk s'.flash c) 0 = u32 (blk s.flash c) 0) : Extends g sn s s' where
  tidy := ht
  ram := hf.ram
  closed c hc hl := by
    apply hf.keep c hc (Or.inl hl)
    intro ho
    have := (hown c hc ho (Or.inl hl)).1
    rw [hl] at this
    exact absurd this (by decide)
  other c hc hl hn := hf.keep c hc hl fun ho => hn (hown c hc ho hl).2.1
  live c hc hl := by
    by_cases ho : own c
    · exact (hown c hc ho hl).2.2
    · rw [hf.keep c hc hl ho]
      exact ⟨hl, rfl, rfl⟩
  heads := hf.heads

/-- A frame of no block at all. -/
theorem of_frame_none (ht : Tidy g s') (hf : Frame g (fun _ => False) s s') : Extends g sn s s' :=
  of_frame ht hf fun _ _ h => h.elim

theorem of_refused (hsmall : SmallSections g) (hr : Refused g s s') : Extends g sn s s' :=
  of_frame_none (hr.left (hsmall.roomy _)).1 (hr.frame (hsmall.roomy _) _)

theorem of_allocated {sn' b : Nat} {type : UInt8} (ha : Allocated g s sn' type b s')
    (htype : type ≠ BlockType.serialnoList) : Extends g sn s s' :=
  of_frame_none ha.tidy (ha.frame htype _)

theorem of_spoiled {type : UInt8} (htype : type ≠ BlockType.serialnoList)
    (h : Spoiled g s s' type) : Extends g sn s s' := by
  obtain ⟨new, hg⟩ := h.grown
  exact of_frame_none hg.tidy (hg.frame htype _)

/-- A write behind the header of an open block. -/
theorem of_written {b o : Nat} {bs : List UInt8} (hw : Written g s b o bs s')
    (hopen : blk s.flash b 5 = BlockStatus.opened) (hsn : u32 (blk s.flash b) 0 = sn) (h6 : 6 ≤ o) :
    Extends g sn s s' := by
  apply of_frame hw.tidy (hw.frame (Or.inr hopen) (by omega))
  rintro c hc rfl hl
  refine ⟨hopen, hsn, (hw.live_other h6 c).mpr hl, hw.get_of_lt (by omega) c, ?_⟩
  exact u32_congr fun i hi => hw.get_of_lt (by omega) c

theorem closedFile {sn' hdr : Nat} {blocks : List Nat} {I : List FileItem} (h : Extends g sn s s')
    (hf : ClosedFile g (blk s.flash) sn' hdr blocks I) :
    ClosedFile g (blk s'.flash) sn' hdr blocks I :=
  hf.congr fun c hc hl _ => h.closed c hc hl

/-- Other open files. -/
theorem openFile {sn' hdr : Nat} {blocks : List Nat} {I : List FileItem} (h : Extends g sn s s')
    (hf : OpenFile g (blk s.flash) sn' hdr blocks I) (hne : sn' ≠ sn) :
    OpenFile g (blk s'.flash) sn' hdr blocks I :=
  hf.congr fun c hc hl hs => h.other c hc hl fun he => hne (hs.symm.trans he)

theorem volume {sb : List Nat} {L : List SnItem} (h : Extends g sn s s')
    (hv : Volume g (blk s.flash) sb L) : Volume g (blk s'.flash) sb L where
  entries := hv.entries.congr fun b hb =>
    h.closed b (hv.entries.list.lt b hb) (hv.entries.closed b hb)
  zero := hv.zero
  status := hv.status
  positive := hv.positive
  unique := hv.unique
  opened i hi ho := by
    obtain ⟨h1, h2, h3⟩ := hv.opened i hi ho
    obtain ⟨h4, h5, _⟩ := h.live i.block h1 h2
    exact ⟨h1, h4, h5.trans h3⟩
  closed i hi hc hsn := by
    obtain ⟨blocks, I, hf⟩ := hv.closed i hi hc hsn
    exact ⟨blocks, I, h.closedFile hf⟩
  heads c hc hl ht := by
    obtain ⟨h1, h2⟩ := h.heads c hc hl ht
    exact hv.heads c hc h1 h2

end Extends

/-! ### A call on the list of serial numbers -/

section entries

variable {s s' : St} {sb : List Nat} {L : List SnItem}

theorem SnList.serialno_mem {V : Nat → Bytes} (h : SnList g V sb L) {c : Nat} (hc : c ∈ sb) :
    u32 (V c) 0 = clSerialnoList := h.list.serialno c hc

theorem SnList.headD_append {V : Nat → Bytes} (h : SnList g V sb L) (more : List Nat) :
    (sb ++ more).headD 0 = sb.headD 0 := by
  obtain ⟨b, bs, rfl⟩ := List.exists_cons_of_ne_nil h.list.ne
  rfl

/-- Blocks of files are as they were. -/
theorem keep_of_entries (h : SnList g (blk s.flash) sb L) (hf : Frame g (· ∈ sb) s s') {c sn : Nat}
    (hc : c < g.total) (hl : Live (blk s.flash c)) (hs : u32 (blk s.flash c) 0 = sn)
    (hsn : sn ≠ clSerialnoList) : blk s'.flash c = blk s.flash c := by
  apply hf.keep c hc hl
  intro hm
  exact hsn (hs.symm.trans (h.serialno_mem hm))

/-- One more entry for an open file. -/
theorem Volume.append {sn b : Nat} {more : List Nat} (hv : Volume g (blk s.flash) sb L)
    (hf : Frame g (· ∈ sb) s s')
    (h' : SnList g (blk s'.flash) (sb ++ more) (L ++ [newEntry sn b SnStatus.opened]))
    (hsn : sn ≠ clSerialnoList) (hb : b < g.total) (hl : Live (blk s.flash b))
    (hsnb : u32 (blk s.flash b) 0 = sn) (ht : blk s.flash b 4 = BlockType.fileHdr) :
    Volume g (blk s'.flash) (sb ++ more) (L ++ [newEntry sn b SnStatus.opened]) where
  entries := h'
  zero := by
    have := hv.zero
    cases L with
    | nil => exact absurd this (by simp)
    | cons i L => exact this
  status i hi := by
    rcases List.mem_append.mp hi with hi | hi
    · exact hv.status i hi
    · rw [List.mem_singleton.mp hi]
      exact Or.inl rfl
  positive k hk h0 := by
    rw [List.length_append, List.length_singleton] at hk
    by_cases hkL : k < L.length
    · rw [List.getElem_append_left hkL]
      exact hv.positive k hkL h0
    · rw [List.getElem_append_right (by omega), List.getElem_singleton]
      exact hsn
  unique j k hj hk h1 h2 h3 := by
    rw [List.length_append, List.length_singleton] at hj hk
    -- the new entry is not closed
    have hne : ∀ m (hm : m < (L ++ [newEntry sn b SnStatus.opened]).length),
        (L ++ [newEntry sn b SnStatus.opened])[m].status = SnStatus.closed → m < L.length := by
      intro m hm hs
      by_contra hge
      rw [List.getElem_append_right (by omega)] at hs
      rw [List.getElem_singleton] at hs
      exact absurd hs (by show SnStatus.opened ≠ _; decide)
    have hjL := hne j (by simpa using hj) h1
    have hkL := hne k (by simpa using hk) h2
    rw [List.getElem_append_left hjL] at h1 h3
    rw [List.getElem_append_left hkL] at h2 h3
    exact hv.unique j k hjL hkL h1 h2 h3
  opened i hi ho := by
    rcases List.mem_append.mp hi with hi | hi
    · obtain ⟨h1, h2, h3⟩ := hv.opened i hi ho
      -- the block of a file is no block of the list
      have hkeep : blk s'.flash i.block = blk s.flash i.block := by
        apply hf.keep _ h1 h2
        intro hm
        obtain ⟨m, hm, he⟩ := List.getElem_of_mem hm
        have := hv.entries.list.type m hm
        rw [he, h3] at this
        split at this <;> exact absurd this (by decide)
      rw [hkeep]
      exact ⟨h1, h2, h3⟩
    · rw [List.mem_singleton.mp hi]
      have hkeep := keep_of_entries hv.entries hf hb hl hsnb hsn
      show b < _ ∧ Live (blk s'.flash b) ∧ blk s'.flash b 4 = _
      rw [hkeep]
      exact ⟨hb, hl, ht⟩
  closed i hi hc hn := by
    rcases List.mem_append.mp hi with hi | hi
    · obtain ⟨blocks, I, hfile⟩ := hv.closed i hi hc hn
      -- the blocks of a closed file are in use, with its own serial number
      refine ⟨blocks, I, hfile.congr fun c hct hcl hcs => ?_⟩
      exact keep_of_entries hv.entries hf hct (Or.inl hcl) hcs hn
    · rw [List.mem_singleton.mp hi] at hc
      exact absurd hc (by show SnStatus.opened ≠ _; decide)
  heads c hc hl' ht' := by
    rw [hv.entries.headD_append]
    obtain ⟨h1, h2⟩ := hf.heads c hc hl' ht'
    exact hv.heads c hc h1 h2

end entries

end CoActionOS.Cafs
