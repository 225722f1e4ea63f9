import CoActionOS.Cafs.Append

/-!
# Consolidating a list

`cl_list_consolidate` copies the items that are not dirty to new blocks, which stay open.  While it
copies, `done` are the blocks that have been saved, each with its link to the next one, and `cur` is
the block that has been allocated but not written (`Building`).

When the allocation of a further block fails, the code goes on without a block and fails later, at
the next block that is full or at the end (`Broken`).  If another block gets full before, it is
allocated without a hint, which is why the specification asks for the search without a hint to end
in the data area once there are 28 items (`Anchored`).
-/

namespace CoActionOS.Cafs

open Cmd

variable {g : Geometry} {ι : Type}

/-! ### The contents of a saved block -/

theorem length_flatten {α : Type} {n : Nat} {L : List (List α)} (h : ∀ x ∈ L, x.length = n) :
    L.flatten.length = n * L.length := by
  induction L with
  | nil => simp
  | cons x L ih =>
    rw [List.flatten_cons, List.length_append, List.length_cons, h x List.mem_cons_self,
      ih fun y hy => h y (List.mem_cons_of_mem _ hy), Nat.mul_succ]
    omega

theorem getD_flatten {α : Type} {n : Nat} {L : List (List α)} (h : ∀ x ∈ L, x.length = n) (a : α)
    {m r : Nat} (hm : m < L.length) (hr : r < n) :
    L.flatten.getD (n * m + r) a = L[m].getD r a := by
  induction L generalizing m with
  | nil => exact absurd hm (by simp)
  | cons x L ih =>
    have hx := h x List.mem_cons_self
    rw [List.flatten_cons]
    cases m with
    | zero => rw [List.getD_append _ _ _ _ (by omega), Nat.mul_zero, Nat.zero_add,
        List.getElem_cons_zero]
    | succ m =>
      have hm' : m < L.length := by simpa using hm
      rw [List.getD_append_right _ _ _ _ (by rw [hx, Nat.mul_succ]; omega), hx, Nat.mul_succ]
      have : n * m + n + r - n = n * m + r := by omega
      rw [this, ih (fun y hy => h y (List.mem_cons_of_mem _ hy)) hm', List.getElem_cons_succ]

def savedBlock (sn : Nat) (type : UInt8) (data : Bytes) : Bytes :=
  overwrite (freshBlock sn type) 5 (BlockStatus.opened :: slice data 0 blockDataSize)

@[simp] theorem savedBlock_status (sn : Nat) (type : UInt8) (data : Bytes) :
    savedBlock sn type data 5 = BlockStatus.opened :=
  overwrite_add (i := 0) (by simp)

theorem savedBlock_hdr (sn : Nat) (type : UInt8) (data : Bytes) {i : Nat} (h : i < 5) :
    savedBlock sn type data i = freshBlock sn type i := overwrite_of_lt (Or.inl h)

theorem savedBlock_data (sn : Nat) (type : UInt8) (data : Bytes) {i : Nat} (h : i < 122) :
    savedBlock sn type data (6 + i) = data i := by
  have hlen : i + 1 < (BlockStatus.opened :: slice data 0 blockDataSize).length := by
    simp
    omega
  have h6 : 6 + i = 5 + (i + 1) := by omega
  rw [savedBlock, h6, overwrite_add hlen, List.getElem_cons_succ, getElem_slice, Nat.zero_add]

namespace NewBlock

variable {b : NewBlock} {next : Nat}

theorem length_used (next : Nat) (h8 : ∀ x ∈ b.items, x.length = 8) :
    (le16 next ++ le16 b.prev ++ b.items.flatten).length = 4 + 8 * b.items.length := by
  rw [List.length_append, length_flatten h8]
  rfl

theorem data_link (h : next < 65536) (hp : b.prev < 65536) :
    u16 (fun i => (b.data next).getD i 0xFF) 0 = next ∧
      u16 (fun i => (b.data next).getD i 0xFF) 2 = b.prev := by
  constructor
  · exact u16_eq_of_le16 h rfl rfl
  · exact u16_eq_of_le16 hp rfl rfl

theorem data_item (h8 : ∀ x ∈ b.items, x.length = 8) {m r : Nat} (hm : m < b.items.length)
    (hr : r < 8) : (b.data next).getD (4 + 8 * m + r) 0xFF = b.items[m].getD r 0 := by
  have hused := length_used next h8
  rw [NewBlock.data]
  rw [List.getD_append _ _ _ _ (by omega), List.getD_append_right _ _ _ _ (by simp; omega)]
  have hsub : 4 + 8 * m + r - (le16 next ++ le16 b.prev).length = 8 * m + r := by
    show 4 + 8 * m + r - 4 = _
    omega
  have hlen := h8 _ (List.getElem_mem hm)
  rw [hsub, getD_flatten h8 0xFF hm hr, List.getD_eq_getElem _ _ (by omega),
    List.getD_eq_getElem _ _ (by omega)]

theorem data_blank (h8 : ∀ x ∈ b.items, x.length = 8) {i : Nat}
    (hi : 4 + 8 * b.items.length ≤ i) : (b.data next).getD i 0xFF = 0xFF := by
  have hused := length_used next h8
  rw [NewBlock.data]
  rw [List.getD_append_right _ _ _ _ (by omega), List.getD_eq_getElem?_getD,
    List.getElem?_replicate]
  split <;> rfl

end NewBlock

/-! ### A list whose blocks have all been saved -/

/-- The type of the block at position `i`. -/
def typeAt (type : UInt8) (i : Nat) : UInt8 := if i = 0 then type else type ||| linkedListFlag

/-- What the block at position `i` is saved with. -/
def pieceOf (B : List Nat) (M : List (List UInt8)) (i : Nat) : NewBlock :=
  ⟨B.getD i 0, prevOf B i, (M.drop (14 * i)).take 14⟩

/-- The block at position `i` as it is when it is saved. -/
def filledBlock (sn : Nat) (type : UInt8) (B : List Nat) (M : List (List UInt8)) (i : Nat) : Bytes :=
  savedBlock sn (typeAt type i) fun j => ((pieceOf B M i).data (nextOf B i)).getD j 0xFF

theorem prevOf_lt {B : List Nat} (h : ∀ b ∈ B, b < 65536) (i : Nat) : prevOf B i < 65536 := by
  rw [prevOf]
  split
  · decide
  · by_cases hi : i - 1 < B.length
    · rw [List.getD_eq_getElem _ _ hi]
      exact h _ (List.getElem_mem hi)
    · rw [List.getD_eq_default _ _ (by omega)]
      decide

theorem nextOf_lt {B : List Nat} (h : ∀ b ∈ B, b < 65536) (i : Nat) : nextOf B i < 65536 := by
  by_cases hi : i + 1 < B.length
  · rw [nextOf_of_lt hi]
    exact h _ (List.getElem_mem hi)
  · rw [nextOf_of_le (by omega)]
    decide

section filled

variable {V : Nat → Bytes} {sn : Nat} {type : UInt8} {B : List Nat} {M : List (List UInt8)}

theorem slot_of_filled (hV : ∀ i (h : i < B.length), V B[i] = filledBlock sn type B M i)
    (h8 : ∀ x ∈ M, x.length = 8) {k : Nat} (hk : k < 14 * B.length) {i : Nat} (hi : i < 8) :
    slot V B k i = if h : k < M.length then M[k].getD i 0 else 0xFF := by
  have hkb : k / 14 < B.length := by omega
  rw [slot, blockOf_eq hkb, hV _ hkb, filledBlock]
  have h6 : 10 + 8 * (k % 14) + i = 6 + (4 + 8 * (k % 14) + i) := by omega
  rw [h6, savedBlock_data _ _ _ (by omega)]
  set b := pieceOf B M (k / 14) with hb
  have hb8 : ∀ x ∈ b.items, x.length = 8 := fun x hx =>
    h8 x (List.mem_of_mem_drop (List.mem_of_mem_take hx))
  have hlen : b.items.length = min 14 (M.length - 14 * (k / 14)) := by
    rw [hb, pieceOf, List.length_take, List.length_drop]
  split
  · next h =>
    rw [NewBlock.data_item hb8 (by omega) hi]
    congr 1
    simp only [hb, pieceOf, List.getElem_take, List.getElem_drop]
    congr 1
    omega
  · next h =>
    exact NewBlock.data_blank hb8 (by omega)

theorem IsList.of_filled (hV : ∀ i (h : i < B.length), V B[i] = filledBlock sn type B M i)
    (h8 : ∀ x ∈ M, x.length = 8) (h0 : ∀ x ∈ M, x.getD 0 0 ≠ ItemStatus.free) (hne : B ≠ [])
    (hnd : B.Nodup) (hpos : ∀ b ∈ B, 1 ≤ b) (hlt : ∀ b ∈ B, b < g.total) (htype : IsListType type)
    (hsn : sn < 2 ^ 32) (hfull : 14 * (B.length - 1) ≤ M.length) (hfits : M.length ≤ 14 * B.length) :
    IsList g V sn type B M.length := by
  have hgb := g.blocks_le
  have h16 : ∀ b ∈ B, b < 65536 := fun b hb => by
    have := hlt b hb
    omega
  have hhdr : ∀ i (h : i < B.length) (j : Nat), j < 5 → V B[i] j = freshBlock sn (typeAt type i) j := by
    intro i h j hj
    rw [hV i h, filledBlock, savedBlock_hdr _ _ _ hj]
  have hdata : ∀ i, u16 (fun j => ((pieceOf B M i).data (nextOf B i)).getD j 0xFF) 0 = nextOf B i ∧
      u16 (fun j => ((pieceOf B M i).data (nextOf B i)).getD j 0xFF) 2 = prevOf B i :=
    fun i => NewBlock.data_link (nextOf_lt h16 i) (prevOf_lt h16 i)
  have hlink : ∀ i (h : i < B.length) (j : Nat), j < 4 → V B[i] (6 + j) =
      ((pieceOf B M i).data (nextOf B i)).getD j 0xFF := by
    intro i h j hj
    rw [hV i h, filledBlock, savedBlock_data _ _ _ (by omega)]
  refine
    { ne := hne, nodup := hnd, pos := hpos, lt := hlt, listType := htype
      serialno := ?_, type := ?_, prev := ?_, next := ?_, used := ?_, blank := ?_
      full := hfull, fits := hfits }
  · intro b hb
    obtain ⟨i, hi, rfl⟩ := List.getElem_of_mem hb
    rw [← freshBlock_serialno (typeAt type i) hsn]
    exact u32_congr fun j hj => hhdr i hi _ (by omega)
  · intro i hi
    rw [hhdr i hi 4 (by omega), freshBlock_type, typeAt]
  · intro i hi
    rw [← (hdata i).2]
    apply u16_congr
    intro j hj
    have h := hlink i hi (2 + j) (by omega)
    rwa [← Nat.add_assoc] at h
  · intro i hi
    refine Eq.trans ?_ (hdata i).1
    exact u16_congr fun j hj => by rw [Nat.zero_add]; exact hlink i hi j (by omega)
  · intro k hk
    rw [slot_of_filled hV h8 (by omega) (by omega), dif_pos hk]
    exact h0 _ (List.getElem_mem hk)
  · intro k h1 h2 i hi
    rw [slot_of_filled hV h8 h2 hi, dif_neg (by omega)]

end filled

/-! ### The copy while it grows -/

/-- From `s₀` to `s` only blocks that were not in use have changed, and at most `new` has become the
head of a list of serial numbers. -/
structure Grown (g : Geometry) (s₀ s : St) (type : UInt8) (new : Nat) : Prop where
  tidy : Tidy g s
  ram : SameRam s₀ s
  keep : ∀ c < g.total, Live (blk s₀.flash c) → blk s.flash c = blk s₀.flash c
  heads : ∀ c < g.total, Live (blk s.flash c) → blk s.flash c 4 = BlockType.serialnoList →
    (Live (blk s₀.flash c) ∧ blk s₀.flash c 4 = BlockType.serialnoList) ∨
      (c = new ∧ type = BlockType.serialnoList)

namespace Grown

variable {s₀ s s' : St} {type : UInt8} {new : Nat}

theorem reclaimed (h : Grown g s₀ s type new) (ht : Tidy g s') (hram : SameRam s s')
    (hrec : Reclaimed g s s') : Grown g s₀ s' type new where
  tidy := ht
  ram := h.ram.trans hram
  keep c hc hl := by
    have h1 := h.keep c hc hl
    rw [hrec.live hc (by rwa [h1]), h1]
  heads c hc hl hct := by
    have hl' := (hrec.live_iff hc).mp hl
    rw [hrec.live hc hl'] at hct
    exact h.heads c hc hl' hct

theorem refused (h : Grown g s₀ s type new) (hsmall : SmallSections g) (hr : Refused g s s') :
    Grown g s₀ s' type new := by
  obtain ⟨h1, h2, h3⟩ := hr.left (hsmall.roomy _)
  exact h.reclaimed h1 h2 h3

theorem allocated {sn b : Nat} {type' : UInt8} (h : Grown g s₀ s type new)
    (ha : Allocated g s sn type' b s') (htype : type' ≠ BlockType.serialnoList) :
    Grown g s₀ s' type new where
  tidy := ha.tidy
  ram := h.ram.trans ha.ram
  keep c hc hl := by
    have h1 := h.keep c hc hl
    rw [ha.keep hc (by rwa [h1]), h1]
  heads c hc hl hct := by
    have hf := ha.frame htype fun _ => False
    obtain ⟨h1, h2⟩ := hf.heads c hc hl hct
    exact h.heads c hc h1 h2

/-- A write in a block that the copy has allocated. -/
theorem written {b o : Nat} {bs : List UInt8} (h : Grown g s₀ s type new)
    (hw : Written g s b o bs s') (hb : ¬Live (blk s₀.flash b)) (hlive : Live (blk s.flash b))
    (h5 : 5 ≤ o) : Grown g s₀ s' type new where
  tidy := hw.tidy
  ram := h.ram.trans hw.ram
  keep c hc hl := by
    have hcb : c ≠ b := fun he => hb (he ▸ hl)
    rw [hw.other c hcb, h.keep c hc hl]
  heads c hc hl hct := by
    obtain ⟨h1, h2⟩ := (hw.frame hlive h5).heads c hc hl hct
    exact h.heads c hc h1 h2

theorem frame (h : Grown g s₀ s type new) (htype : type ≠ BlockType.serialnoList)
    (own : Nat → Prop) : Frame g own s₀ s where
  ram := h.ram
  keep c hc hl _ := h.keep c hc hl
  heads c hc hl hct := by
    rcases h.heads c hc hl hct with h1 | ⟨_, h1⟩
    · exact h1
    · exact absurd h1 htype

end Grown

/-- The first block of a copy. -/
theorem Allocated.grown {s s' : St} {sn b : Nat} {type : UInt8} (h : Allocated g s sn type b s') :
    Grown g s s' type b where
  tidy := h.tidy
  ram := h.ram
  keep _ hc hl := h.keep hc hl
  heads c hc hl hct := by
    by_cases hcb : c = b
    · subst hcb
      rw [h.fresh, freshBlock_type] at hct
      exact Or.inr ⟨rfl, hct⟩
    · rcases h.rest c hc hcb with h1 | ⟨_, h1⟩
      · rw [h1] at hl hct
        exact Or.inl ⟨hl, hct⟩
      · rw [h1] at hl
        exact absurd hl not_live_blankBlock

/-- What a failed consolidation leaves: blocks that nothing refers to. -/
structure Spoiled (g : Geometry) (s₀ s : St) (type : UInt8) : Prop where
  refused : .refused ∈ s.log
  grown : ∃ new, Grown g s₀ s type new

/-- A block of another serial number keeps the search without a hint inside the data area. -/
def Anchored (g : Geometry) (V : Nat → Bytes) (sn : Nat) : Prop :=
  ∃ b, g.total < b + g.eraseable ∧ b < g.total ∧ Live (V b) ∧ u32 (V b) 0 ≠ sn

theorem Grown.offers {s₀ s : St} {type : UInt8} {new sn : Nat} (h : Grown g s₀ s type new)
    (ha : Anchored g (blk s₀.flash) sn) : Offers g s sn := by
  obtain ⟨b, h1, h2, h3, h4⟩ := ha
  have hb := h.keep b h2 h3
  refine Or.inr ⟨b, h1, h2, Or.inr ?_⟩
  rw [hb]
  exact ⟨h3, h4⟩

/-- The items `M` have been copied: the blocks `done` are full and saved, and `cur` is the next one. -/
structure Building (g : Geometry) (s₀ s : St) (sn : Nat) (type : UInt8) (new : Nat)
    (done : List Nat) (cur : Nat) (M : List (List UInt8)) : Prop where
  grown : Grown g s₀ s type new
  head : (done ++ [cur]).headD 0 = new
  nodup : (done ++ [cur]).Nodup
  range : ∀ c ∈ done ++ [cur], 1 ≤ c ∧ c < g.total ∧ ¬Live (blk s₀.flash c)
  fresh : blk s.flash cur = freshBlock sn (typeAt type done.length)
  saved : ∀ i (h : i < done.length), blk s.flash done[i] = filledBlock sn type (done ++ [cur]) M i
  items : ∀ x ∈ M, x.length = 8 ∧ x.getD 0 0 ≠ ItemStatus.free
  ge : 14 * done.length ≤ M.length
  lt : M.length < 14 * (done.length + 1)

/-- The block that is being filled. -/
def currentOf (done : List Nat) (cur : Nat) (M : List (List UInt8)) : NewBlock :=
  ⟨cur, prevOf (done ++ [cur]) done.length, M.drop (14 * done.length)⟩

/-- The copy has run out of blocks. -/
structure Broken (g : Geometry) (s₀ s : St) (type : UInt8) (M : List (List UInt8)) (b : NewBlock) :
    Prop where
  spoiled : Spoiled g s₀ s type
  current : b.current = blockInvalid
  lt : b.items.length < 14
  ge : 14 + b.items.length ≤ M.length

def Copying (g : Geometry) (s₀ s : St) (sn : Nat) (type : UInt8) (new : Nat)
    (M : List (List UInt8)) (b : NewBlock) : Prop :=
  (∃ done cur, Building g s₀ s sn type new done cur M ∧ b = currentOf done cur M) ∨
    Broken g s₀ s type M b

/-! ### Copying one item -/

theorem filledBlock_append {sn i : Nat} {type : UInt8} {B : List Nat} {M : List (List UInt8)}
    (bs : List Nat) (xs : List (List UInt8)) (hi : i + 1 < B.length)
    (hM : 14 * (i + 1) ≤ M.length) :
    filledBlock sn type (B ++ bs) (M ++ xs) i = filledBlock sn type B M i := by
  have h1 : (B ++ bs).getD i 0 = B.getD i 0 := List.getD_append _ _ _ _ (by omega)
  have h2 : prevOf (B ++ bs) i = prevOf B i := by
    rw [prevOf, prevOf]
    split
    · rfl
    · exact List.getD_append _ _ _ _ (by omega)
  have h3 : nextOf (B ++ bs) i = nextOf B i := List.getD_append _ _ _ _ hi
  have h4 : ((M ++ xs).drop (14 * i)).take 14 = (M.drop (14 * i)).take 14 := by
    rw [List.drop_append_of_le_length (by omega), List.take_append_of_le_length]
    rw [List.length_drop]
    omega
  rw [filledBlock, filledBlock, pieceOf, pieceOf, h1, h2, h3, h4]

/-- The block that gets full. -/
theorem filledBlock_current {sn nb : Nat} {type : UInt8} {done : List Nat} {cur : Nat}
    {M : List (List UInt8)} (hM : M.length = 14 * (done.length + 1)) :
    savedBlock sn (typeAt type done.length)
        (fun j => ((currentOf done cur M).data nb).getD j 0xFF) =
      filledBlock sn type (done ++ [cur] ++ [nb]) M done.length := by
  have h1 : (done ++ [cur] ++ [nb]).getD done.length 0 = cur := by
    rw [List.getD_append _ _ _ _ (by simp), List.getD_append_right _ _ _ _ (le_refl _)]
    simp
  have h2 : prevOf (done ++ [cur] ++ [nb]) done.length = prevOf (done ++ [cur]) done.length := by
    rw [prevOf, prevOf]
    split
    · rfl
    · exact List.getD_append _ _ _ _ (by rw [List.length_append, List.length_singleton]; omega)
  have h3 : nextOf (done ++ [cur] ++ [nb]) done.length = nb := by
    rw [nextOf, List.getD_append_right _ _ _ _ (by simp)]
    simp
  have h4 : (M.drop (14 * done.length)).take 14 = M.drop (14 * done.length) := by
    apply List.take_of_length_le
    rw [List.length_drop]
    omega
  rw [filledBlock, pieceOf, h1, h2, h3, h4, currentOf]

section copy

variable {s₀ s : St} {sn new : Nat} {type : UInt8} {M : List (List UInt8)} {x : List UInt8}
  {b : NewBlock} {Q : NewBlock → St → Prop} {R : St → Prop}

theorem typeAt_succ (type : UInt8) (i : Nat) : typeAt type (i + 1) = type ||| linkedListFlag :=
  if_neg (by omega)

theorem flag_ne_serialnoList (h : IsListType type) :
    type ||| linkedListFlag ≠ BlockType.serialnoList := by
  rcases h with rfl | rfl
  · decide
  · decide

theorem Building.live {done : List Nat} {cur : Nat} (h : Building g s₀ s sn type new done cur M) :
    ∀ c ∈ done ++ [cur], Live (blk s.flash c) := by
  intro c hc
  rcases List.mem_append.mp hc with hc | hc
  · obtain ⟨i, hi, rfl⟩ := List.getElem_of_mem hc
    rw [h.saved i hi, filledBlock]
    exact Or.inr (savedBlock_status _ _ _)
  · rw [List.mem_singleton.mp hc, h.fresh]
    exact live_freshBlock _ _

/-- The block is full and the next one has been allocated. -/
theorem Building.next {done : List Nat} {cur nb : Nat} {s₁ s₂ : St}
    (h : Building g s₀ s sn type new done cur M) (htype : IsListType type)
    (hx : x.length = 8 ∧ x.getD 0 0 ≠ ItemStatus.free)
    (hM : (M ++ [x]).length = 14 * (done.length + 1))
    (ha : Allocated g s sn (type ||| linkedListFlag) nb s₁)
    (hw : Written g s₁ cur 5 (BlockStatus.opened :: slice
      (fun j => ((currentOf done cur (M ++ [x])).data nb).getD j 0xFF) 0 blockDataSize) s₂) :
    Building g s₀ s₂ sn type new (done ++ [cur]) nb (M ++ [x]) := by
  -- the new block was not in use, so that the old ones are as they were
  have hlive := h.live
  have hkeep1 : ∀ c ∈ done ++ [cur], blk s₁.flash c = blk s.flash c :=
    fun c hc => ha.keep (h.range c hc).2.1 (hlive c hc)
  have hcur : cur ∈ done ++ [cur] := List.mem_append_right _ (List.mem_singleton.mpr rfl)
  have hnb : nb ∉ done ++ [cur] := fun hc => ha.was (hlive nb hc)
  have hnbcur : nb ≠ cur := fun he => hnb (he ▸ hcur)
  have hg1 := h.grown.allocated ha (flag_ne_serialnoList htype)
  -- the block that was current is saved with its successor
  have hself : blk s₂.flash cur =
      filledBlock sn type (done ++ [cur] ++ [nb]) (M ++ [x]) done.length := by
    rw [hw.self, hkeep1 cur hcur, h.fresh, ← filledBlock_current hM]
    rfl
  have hlen : (done ++ [cur]).length = done.length + 1 := by simp
  refine
    { grown := ?_
      head := ?_
      nodup := ?_
      range := ?_
      fresh := ?_
      saved := ?_
      items := ?_
      ge := ?_
      lt := ?_ }
  · apply hg1.written hw (h.range cur hcur).2.2 _ (by omega)
    rw [hkeep1 cur hcur]
    exact hlive cur hcur
  · rw [← h.head]
    cases done <;> rfl
  · rw [List.nodup_append]
    exact ⟨h.nodup, List.nodup_singleton nb, fun a ha' c hc he =>
      hnb (List.mem_singleton.mp hc ▸ he ▸ ha')⟩
  · intro c hc
    rcases List.mem_append.mp hc with hc | hc
    · exact h.range c hc
    · rw [List.mem_singleton.mp hc]
      refine ⟨ha.pos, ha.lt, fun hl => ha.was ?_⟩
      rwa [h.grown.keep nb ha.lt hl]
  · rw [hw.other nb hnbcur, ha.fresh, hlen, typeAt_succ]
  · intro i hi
    -- a block saved before has the same items, whatever comes behind it
    by_cases hid : i < done.length
    · have hne : done[i] ≠ cur := by
        intro he
        exact (List.nodup_append.mp h.nodup).2.2 _ (List.getElem_mem hid) _
          (List.mem_singleton.mpr rfl) he
      rw [List.getElem_append_left hid, hw.other _ hne,
        hkeep1 _ (List.mem_append_left _ (List.getElem_mem hid)), h.saved i hid]
      exact (filledBlock_append [nb] [x] (by simp; omega) (by have := h.ge; omega)).symm
    · have hid : i = done.length := by omega
      subst hid
      rw [List.getElem_append_right (le_refl _)]
      simpa using hself
  · intro y hy
    rcases List.mem_append.mp hy with hy | hy
    · exact h.items y hy
    · rwa [List.mem_singleton.mp hy]
  · omega
  · omega

/-- The item has still had room. -/
theorem Building.push {done : List Nat} {cur : Nat} (h : Building g s₀ s sn type new done cur M)
    (hx : x.length = 8 ∧ x.getD 0 0 ≠ ItemStatus.free)
    (hM : (M ++ [x]).length < 14 * (done.length + 1)) :
    Building g s₀ s sn type new done cur (M ++ [x]) := by
  have hge := h.ge
  refine { h with saved := ?_, items := ?_, ge := ?_, lt := hM }
  · intro i hi
    rw [h.saved i hi]
    have hsame : filledBlock sn type (done ++ [cur] ++ []) (M ++ [x]) i =
        filledBlock sn type (done ++ [cur]) M i :=
      filledBlock_append [] [x] (by simp; omega) (by omega)
    rw [← hsame, List.append_nil]
  · intro y hy
    rcases List.mem_append.mp hy with hy | hy
    · exact h.items y hy
    · rwa [List.mem_singleton.mp hy]
  · simp
    omega

theorem currentOf_push {done : List Nat} {cur : Nat} (hM : 14 * done.length ≤ M.length) :
    { currentOf done cur M with items := (currentOf done cur M).items ++ [x] } =
      currentOf done cur (M ++ [x]) := by
  rw [currentOf, currentOf, List.drop_append_of_le_length hM]

/-- The next block starts empty. -/
theorem currentOf_next {done : List Nat} {cur nb : Nat} (hM : M.length = 14 * (done.length + 1)) :
    currentOf (done ++ [cur]) nb M = ⟨nb, cur, []⟩ := by
  have hd : (done ++ [cur]).length = done.length + 1 := by simp
  have hp : prevOf (done ++ [cur] ++ [nb]) (done.length + 1) = cur := by
    rw [prevOf_succ (by simp), List.getElem_append_left (by simp),
      List.getElem_append_right (le_refl _)]
    simp
  rw [currentOf, hd, hp, List.drop_of_length_le (by omega)]

theorem wp_copyItem (hsmall : SmallSections g) (htype : IsListType type)
    (hx : x.length = 8 ∧ x.getD 0 0 ≠ ItemStatus.free)
    (hroom : (M ++ [x]).length < 28 ∨ Anchored g (blk s₀.flash) sn)
    (h : Copying g s₀ s sn type new M b) (hR : ∀ s', Spoiled g s₀ s' type → R s')
    (hQ : ∀ b' s', Copying g s₀ s' sn type new (M ++ [x]) b' → Q b' s') :
    wp (copyItem g sn type b x) Q R s := by
  rw [copyItem]
  rcases h with ⟨done, cur, h, rfl⟩ | h
  · have hge := h.ge
    have hlt := h.lt
    have hMlen : (M ++ [x]).length = M.length + 1 := by simp
    rw [currentOf_push hge]
    dsimp only
    have hlen : (currentOf done cur (M ++ [x])).items.length = M.length + 1 - 14 * done.length := by
      rw [currentOf, List.length_drop, hMlen]
    have hcur : cur ∈ done ++ [cur] := List.mem_append_right _ (List.mem_singleton.mpr rfl)
    have hcurlt := (h.range cur hcur).2.1
    have hlive := h.live cur hcur
    by_cases hfull : M.length + 1 = 14 * (done.length + 1)
    -- the block is full: another one is allocated and this one saved
    · rw [if_pos (by rw [hlen]; show _ = 14; omega)]
      simp only [wp_bind, wp_attempt]
      apply wp_clBlockAlloc h.grown.tidy (Or.inl hcurlt)
      -- without it the block is saved as the last one, and copying goes on into no block
      · intro s₁ hr
        have hg1 := h.grown.refused hsmall hr
        have hk1 : blk s₁.flash cur = freshBlock sn (typeAt type done.length) := by
          rw [← h.fresh]
          exact (hr.left (hsmall.roomy _)).2.2.live hcurlt hlive
        rw [Option.getD_none]
        apply wp_clBlockSave hg1.tidy hcurlt hk1
        intro s₂ hw
        rw [wp_pure]
        apply hQ
        refine Or.inr ⟨⟨hw.ram.log hr.refused, new, ?_⟩, rfl, Nat.zero_lt_succ 13, ?_⟩
        · apply hg1.written hw (h.range cur hcur).2.2 _ (by omega)
          rw [hk1]
          exact live_freshBlock _ _
        · show 14 + 0 ≤ _
          omega
      · intro nb s₁ ha
        rw [Option.getD_some]
        apply wp_clBlockSave ha.tidy hcurlt
        · rw [← h.fresh]
          exact ha.keep hcurlt hlive
        intro s₂ hw
        rw [wp_pure]
        apply hQ
        refine Or.inl ⟨done ++ [cur], nb, h.next htype hx (by omega) ha hw, ?_⟩
        rw [currentOf_next (by omega)]
        rfl
    -- there is room in the block
    · rw [if_neg (by rw [hlen]; show _ ≠ 14; omega), wp_pure]
      apply hQ
      exact Or.inl ⟨done, cur, h.push hx (by omega), rfl⟩
  · have hMlen : (M ++ [x]).length = M.length + 1 := by simp
    have hge := h.ge
    have hilen : (b.items ++ [x]).length = b.items.length + 1 := by simp
    have hblt := h.lt
    by_cases hfull : (b.items ++ [x]).length = totalItems
    · -- the block after the one that could not be allocated
      rw [if_pos hfull]
      have hfull : (b.items ++ [x]).length = 14 := hfull
      obtain ⟨new', hg⟩ := h.spoiled.grown
      simp only [wp_bind, wp_attempt]
      -- whatever follows, saving the block that is none fails
      have hsave : ∀ s' next, Spoiled g s₀ s' type →
          wp (NewBlock.save g { b with items := b.items ++ [x] } next) (fun _ s' =>
            wp (pure { current := next, prev := b.current, items := [] }) Q R s') R s' := by
        intro s' next hsp
        rw [NewBlock.save, clBlockSave, if_pos h.current, wp_fail]
        exact hR s' hsp
      rw [h.current]
      apply wp_clBlockAlloc hg.tidy
      · rcases hroom with hlt | hanch
        · omega
        · exact Or.inr ⟨rfl, hg.offers hanch⟩
      · intro s₁ hr
        have := hsave s₁ blockInvalid ⟨hr.refused, new', hg.refused hsmall hr⟩
        rwa [h.current] at this
      · intro nb s₁ ha
        have := hsave s₁ nb ⟨ha.ram.log h.spoiled.refused, new', hg.allocated ha
          (flag_ne_serialnoList htype)⟩
        rwa [h.current] at this
    · rw [if_neg hfull, wp_pure]
      apply hQ
      have hne : (b.items ++ [x]).length ≠ 14 := hfull
      refine Or.inr ⟨h.spoiled, h.current, ?_, ?_⟩
      · show (b.items ++ [x]).length < 14
        omega
      · show 14 + (b.items ++ [x]).length ≤ _
        omega

end copy

/-! ### Copying all items -/

def rawItem (V : Nat → Bytes) (blocks : List Nat) (k : Nat) : List UInt8 :=
  slice (slot V blocks k) 0 8

/-- What is copied of the first `n` items. -/
def keptItems (V : Nat → Bytes) (blocks : List Nat) (n : Nat) : List (List UInt8) :=
  ((List.range n).map (rawItem V blocks)).filter fun x => x.getD 0 0 ≠ ItemStatus.dirty

theorem blockItem_eq_slot {V : Nat → Bytes} {blocks : List Nat} {i j : Nat} (hj : j < blocks.length)
    (hi : i < 14) : blockItem (V blocks[j]) i = slot V blocks (14 * j + i) := by
  have hdiv : (14 * j + i) / 14 = j := by omega
  have hmod : (14 * j + i) % 14 = i := by omega
  funext r
  rw [slot, blockOf, hdiv, hmod, List.getD_eq_getElem _ _ hj, blockItem, itemAddr_eq]
  congr 1
  omega

theorem getD_slice {d : Bytes} {n i : Nat} (h : i < n) : (slice d 0 n).getD i 0 = d i := by
  rw [List.getD_eq_getElem _ _ (by rwa [length_slice]), getElem_slice, Nat.zero_add]

section kept

variable {V : Nat → Bytes} {blocks : List Nat}

theorem keptItems_succ (n : Nat) : keptItems V blocks (n + 1) =
    if slot V blocks n 0 = ItemStatus.dirty then keptItems V blocks n
    else keptItems V blocks n ++ [rawItem V blocks n] := by
  have h0 : (rawItem V blocks n).getD 0 0 = slot V blocks n 0 := getD_slice (by omega)
  rw [keptItems, List.range_succ, List.map_append, List.filter_append, ← keptItems]
  split
  · next h =>
    rw [List.map_singleton, List.filter_singleton, h0, h]
    simp
  · next h =>
    rw [List.map_singleton, List.filter_singleton, h0]
    simp [h]

theorem length_keptItems_le {k n : Nat} (h : k ≤ n) :
    (keptItems V blocks k).length ≤ (keptItems V blocks n).length := by
  induction n, h using Nat.le_induction with
  | base => exact le_refl _
  | succ n _ ih =>
    rw [keptItems_succ]
    split
    · exact ih
    · rw [List.length_append]
      omega

/-- In terms of the decoded items, the dirty ones have been left out. -/
theorem map_keptItems {D : Decoder ι} {L : List ι} (h : HasItems D V blocks L) :
    (keptItems V blocks L.length).map (fun x => D.dec fun i => x.getD i 0) =
      L.filter fun x => D.statusOf x ≠ ItemStatus.dirty := by
  have hraw : ((List.range L.length).map (rawItem V blocks)).map
      (fun x => D.dec fun i => x.getD i 0) = L := by
    apply List.ext_getElem
    · simp
    · intro k h1 h2
      rw [List.getElem_map, List.getElem_map, List.getElem_range, ← h k h2]
      exact D.congr _ _ fun i hi => getD_slice hi
  conv => rhs; rw [← hraw]
  rw [List.filter_map, keptItems]
  congr 1
  apply List.filter_congr
  intro x _
  rw [Function.comp_apply, D.statusOf_dec]

end kept

section copyAll

variable {s₀ s : St} {sn new n : Nat} {type : UInt8} {blocks : List Nat} {b : NewBlock}
  {Q : NewBlock → St → Prop} {R : St → Prop}

theorem Copying.grown {M : List (List UInt8)} (h : Copying g s₀ s sn type new M b) :
    ∃ new', Grown g s₀ s type new' := by
  rcases h with ⟨_, _, h, _⟩ | h
  · exact ⟨new, h.grown⟩
  · exact h.spoiled.grown

theorem wp_copyItems (hsmall : SmallSections g) (hL : IsList g (blk s₀.flash) sn type blocks n)
    (hroom : (keptItems (blk s₀.flash) blocks n).length < 28 ∨ Anchored g (blk s₀.flash) sn)
    (hR : ∀ s', Spoiled g s₀ s' type → R s') {j : Nat} (hj : j < blocks.length)
    (hQ : ∀ b' s', Copying g s₀ s' sn type new
      (keptItems (blk s₀.flash) blocks (min (14 * (j + 1)) n)) b' → Q b' s')
    (m i : Nat) (him : i + m = 14)
    (h : Copying g s₀ s sn type new (keptItems (blk s₀.flash) blocks (min (14 * j + i) n)) b) :
    wp (copyItems g sn type (blk s₀.flash blocks[j]) m i b) Q R s := by
  induction m generalizing i b s with
  | zero =>
    rw [copyItems, wp_pure]
    apply hQ
    rwa [show 14 * (j + 1) = 14 * j + i by omega]
  | succ m ih =>
    have hlt : 14 * j + i < 14 * blocks.length := by omega
    rw [copyItems]
    simp only [blockItem_eq_slot hj (show i < 14 by omega)]
    by_cases hn : 14 * j + i < n
    · have hused := hL.used _ hn
      rw [if_neg hused]
      rw [Nat.min_eq_left (by omega)] at h
      have hnext : min (14 * j + (i + 1)) n = 14 * j + i + 1 := by omega
      -- an item that is dirty is left out
      by_cases hd : slot (blk s₀.flash) blocks (14 * j + i) 0 = ItemStatus.dirty
      · rw [if_pos hd]
        apply ih (i + 1) (by omega)
        rwa [hnext, keptItems_succ, if_pos hd]
      · rw [if_neg hd, wp_bind]
        have hk1 : keptItems (blk s₀.flash) blocks (14 * j + i + 1) =
            keptItems (blk s₀.flash) blocks (14 * j + i) ++
              [rawItem (blk s₀.flash) blocks (14 * j + i)] := by
          rw [keptItems_succ, if_neg hd]
        apply wp_copyItem hsmall hL.listType (M := keptItems (blk s₀.flash) blocks (14 * j + i)) _ _ h hR
        · intro b' s' h'
          apply ih (i + 1) (by omega)
          rw [hnext, hk1]
          exact h'
        · refine ⟨length_slice _ _ _, ?_⟩
          rw [show (slice (slot (blk s₀.flash) blocks (14 * j + i)) 0 itemSize).getD 0 0 =
            slot (blk s₀.flash) blocks (14 * j + i) 0 from getD_slice (by decide)]
          exact hused
        -- fewer items than two blocks hold, or a list that ends in front of the search
        · rcases hroom with hr | hr
          · left
            have hle : (keptItems (blk s₀.flash) blocks (14 * j + i + 1)).length ≤
                (keptItems (blk s₀.flash) blocks n).length := length_keptItems_le (by omega)
            rw [hk1] at hle
            exact Nat.lt_of_le_of_lt hle hr
          · exact Or.inr hr
    -- the list ends within the block
    · rw [if_pos (hL.blank _ (by omega) hlt 0 (by omega)), wp_pure]
      apply hQ
      rwa [show min (14 * (j + 1)) n = min (14 * j + i) n by omega]

theorem wp_copyBlocks (hsmall : SmallSections g) (hL : IsList g (blk s₀.flash) sn type blocks n)
    (hclosed : ∀ c ∈ blocks, blk s₀.flash c 5 = BlockStatus.closed)
    (hroom : (keptItems (blk s₀.flash) blocks n).length < 28 ∨ Anchored g (blk s₀.flash) sn)
    (hR : ∀ s', Spoiled g s₀ s' type → R s')
    (hQ : ∀ b' s', Copying g s₀ s' sn type new (keptItems (blk s₀.flash) blocks n) b' → Q b' s')
    (fuel j : Nat) (hj : j ≤ blocks.length) (hfuel : blocks.length - j < fuel)
    (h : Copying g s₀ s sn type new (keptItems (blk s₀.flash) blocks (min (14 * j) n)) b) :
    wp (copyBlocks g sn type fuel (blocks.getD j blockInvalid) (prevOf blocks j) b) Q R s := by
  induction fuel generalizing j b s with
  | zero => omega
  | succ fuel ih =>
    rw [copyBlocks]
    by_cases hlt : j < blocks.length
    · have hmem := List.getElem_mem hlt
      have hclt := hL.lt _ hmem
      obtain ⟨new', hg⟩ := h.grown
      have hsame := hg.keep _ hclt (Or.inl (hclosed _ hmem))
      rw [List.getD_eq_getElem _ _ hlt, if_neg (hL.ne_invalid hmem), wp_bind]
      apply wp_clBlockLoad hg.tidy.up (by omega)
      rw [hsame]
      have hprev : (listHdr (blk s₀.flash blocks[j])).prev = prevOf blocks j := hL.prev j hlt
      have hnext : (listHdr (blk s₀.flash blocks[j])).next = nextOf blocks j := hL.next j hlt
      have hvalid : listTypeIsValid (blk s₀.flash blocks[j] 4) = true := by
        rw [hL.type j hlt]
        exact listTypeIsValid_of hL.listType j
      rw [if_neg, wp_bind]
      · apply wp_copyItems hsmall hL hroom hR hlt _ 14 0 (by omega) h
        intro b' s' h'
        have hp : prevOf blocks (j + 1) = blocks[j] := prevOf_succ hlt
        have := ih (j + 1) hlt (by omega) h'
        rw [hp] at this
        rw [hnext]
        exact this
      · rw [hprev, hvalid, hL.serialno _ hmem, hclosed _ hmem]
        simp
    · rw [List.getD_eq_default _ _ (by omega), if_pos rfl, wp_pure]
      apply hQ
      have := hL.fits
      rwa [Nat.min_eq_right (by omega)] at h

/-- What `cl_list_consolidate` has done. -/
structure Consolidated (g : Geometry) (D : Decoder ι) (s : St) (sn : Nat) (type : UInt8) (L : List ι)
    (B : List Nat) (s' : St) : Prop where
  grown : Grown g s s' type (B.headD 0)
  was : ∀ c ∈ B, ¬Live (blk s.flash c)
  list : IsList g (blk s'.flash) sn type B
    (L.filter fun x => D.statusOf x ≠ ItemStatus.dirty).length
  items : HasItems D (blk s'.flash) B (L.filter fun x => D.statusOf x ≠ ItemStatus.dirty)
  opened : ∀ c ∈ B, blk s'.flash c 5 = BlockStatus.opened

/-- Nothing has been copied yet. -/
theorem Allocated.building {s' : St} (h : Allocated g s sn type new s') :
    Building g s s' sn type new [] new [] where
  grown := h.grown
  head := rfl
  nodup := List.nodup_singleton new
  range c hc := by
    obtain rfl := List.mem_singleton.mp hc
    exact ⟨h.pos, h.lt, h.was⟩
  fresh := h.fresh
  saved i hi := absurd hi (Nat.not_lt_zero i)
  items x hx := absurd hx List.not_mem_nil
  ge := Nat.le_refl _
  lt := Nat.zero_lt_succ 13

/-- The last block is saved. -/
theorem Building.finish {D : Decoder ι} {L : List ι} {done : List Nat} {cur : Nat}
    {M : List (List UInt8)} {s' : St} (h : Building g s₀ s sn type new done cur M)
    (htype : IsListType type) (hsn : sn < 2 ^ 32)
    (hM : M.map (fun x => D.dec fun i => x.getD i 0) =
      L.filter fun x => D.statusOf x ≠ ItemStatus.dirty)
    (hw : Written g s cur 5 (BlockStatus.opened :: slice
      (fun j => ((currentOf done cur M).data blockInvalid).getD j 0xFF) 0 blockDataSize) s') :
    Consolidated g D s₀ sn type L (done ++ [cur]) s' := by
  have hge := h.ge
  have hlt := h.lt
  have hcur : cur ∈ done ++ [cur] := List.mem_append_right _ (List.mem_singleton.mpr rfl)
  -- the last block holds the items that are left
  have hself : blk s'.flash cur = filledBlock sn type (done ++ [cur]) M done.length := by
    have h1 : (done ++ [cur]).getD done.length 0 = cur := by
      rw [List.getD_append_right _ _ _ _ (le_refl _)]
      simp
    have h2 : nextOf (done ++ [cur]) done.length = blockInvalid := nextOf_of_le (by simp)
    have h3 : (M.drop (14 * done.length)).take 14 = M.drop (14 * done.length) := by
      apply List.take_of_length_le
      rw [List.length_drop]
      omega
    rw [hw.self, h.fresh, filledBlock, pieceOf, h1, h2, h3]
    rfl
  have hV : ∀ i (hi : i < (done ++ [cur]).length),
      blk s'.flash (done ++ [cur])[i] = filledBlock sn type (done ++ [cur]) M i := by
    intro i hi
    by_cases hid : i < done.length
    · have hne : done[i] ≠ cur := by
        intro he
        exact (List.nodup_append.mp h.nodup).2.2 _ (List.getElem_mem hid) _
          (List.mem_singleton.mpr rfl) he
      rw [List.getElem_append_left hid, hw.other _ hne, h.saved i hid]
    · rw [List.length_append, List.length_singleton] at hi
      have hid : i = done.length := by omega
      subst hid
      rw [List.getElem_append_right (le_refl _)]
      simpa using hself
  have h8 : ∀ x ∈ M, x.length = 8 := fun x hx => (h.items x hx).1
  have hlen : (done ++ [cur]).length = done.length + 1 := by simp
  -- the blocks are then those of a list of the items
  have hlist : IsList g (blk s'.flash) sn type (done ++ [cur]) M.length :=
    IsList.of_filled hV h8 (fun x hx => (h.items x hx).2) (by simp) h.nodup
      (fun c hc => (h.range c hc).1) (fun c hc => (h.range c hc).2.1) htype hsn (by omega) (by omega)
  have hMlen : M.length = (L.filter fun x => D.statusOf x ≠ ItemStatus.dirty).length := by
    rw [← hM, List.length_map]
  refine
    { grown := ?_
      was := fun c hc => (h.range c hc).2.2
      list := ?_
      items := ?_
      opened := ?_ }
  · rw [h.head]
    exact h.grown.written hw (h.range cur hcur).2.2 (h.live cur hcur) (by omega)
  · rwa [← hMlen]
  · rw [← hM]
    intro k hk
    rw [List.length_map] at hk
    rw [List.getElem_map]
    apply D.congr
    intro i hi
    rw [slot_of_filled hV h8 (by omega) hi, dif_pos hk]
  · intro c hc
    obtain ⟨i, hi, rfl⟩ := List.getElem_of_mem hc
    rw [hV i hi, filledBlock, savedBlock_status]

theorem wp_clListConsolidate {D : Decoder ι} {L : List ι} {Q : Nat → St → Prop}
    (hs : Tidy g s) (hsmall : SmallSections g) (hsn : sn < 2 ^ 32)
    (hL : IsList g (blk s.flash) sn type blocks L.length) (hI : HasItems D (blk s.flash) blocks L)
    (hclosed : ∀ c ∈ blocks, blk s.flash c 5 = BlockStatus.closed)
    (hroom : (L.filter fun x => D.statusOf x ≠ ItemStatus.dirty).length < 28 ∨
      Anchored g (blk s.flash) sn)
    (hR : ∀ s', Spoiled g s s' type → R s')
    (hQ : ∀ B s', Consolidated g D s sn type L B s' → Q (B.headD 0) s') :
    wp (clListConsolidate g sn (blocks.headD 0) type) Q R s := by
  have hkept := map_keptItems hI
  rw [← hkept, List.length_map] at hroom
  have hfuel := hL.lt_fuel
  have hmem : blocks.headD 0 ∈ blocks := by
    rw [← getD_zero hL.ne 0, List.getD_eq_getElem _ _ hL.length_pos]
    exact List.getElem_mem _
  rw [clListConsolidate, wp_bind]
  apply wp_clBlockAlloc hs (Or.inl (hL.lt _ hmem))
  · intro s₁ hr
    obtain ⟨h1, h2, h3⟩ := hr.left (hsmall.roomy _)
    refine hR s₁ ⟨hr.refused, blockInvalid, h1, h2, fun c hc hl => h3.live hc hl, ?_⟩
    intro c hc hl hct
    have hl' := (h3.live_iff hc).mp hl
    rw [h3.live hc hl'] at hct
    exact Or.inl ⟨hl', hct⟩
  · intro new s₁ ha
    rw [wp_bind]
    have hstart : Copying g s s₁ sn type new (keptItems (blk s.flash) blocks (min (14 * 0) L.length))
        ⟨new, blockInvalid, []⟩ := by
      rw [Nat.mul_zero, Nat.zero_min]
      exact Or.inl ⟨[], new, ha.building, rfl⟩
    have hcopy := wp_copyBlocks (R := R) hsmall hL hclosed hroom hR
      (Q := fun b s' => wp (b.save g blockInvalid) (fun _ s'' => wp (pure new) Q R s'') R s') ?_
      loopFuel 0 (Nat.zero_le _) (by omega) hstart
    · have h0 : prevOf blocks 0 = blockInvalid := if_pos rfl
      rw [h0, getD_zero hL.ne] at hcopy
      simp only [wp_bind]
      exact hcopy
    · intro b s₂ h
      rw [NewBlock.save]
      rcases h with ⟨done, cur, h, rfl⟩ | h
      · have hcur : cur ∈ done ++ [cur] := List.mem_append_right _ (List.mem_singleton.mpr rfl)
        apply wp_clBlockSave h.grown.tidy (h.range cur hcur).2.1 h.fresh
        intro s₃ hw
        rw [wp_pure, ← h.head]
        exact hQ _ s₃ (h.finish hL.listType hsn hkept hw)
      · rw [clBlockSave, if_pos h.current, wp_fail]
        exact hR s₂ h.spoiled

end copyAll

end CoActionOS.Cafs
