import Mathlib.Logic.Function.Basic
import CoActionOS.Cafs.ListFilter

/-!
# The segment list as a map

What a file's list is for: a map from segments to blocks, which `cl_filelist_update` changes at one
segment and `cl_filelist_get` looks up.  `record` is an update of the items, `assign` the updates of
the map; `currentBlock` leads from the items to the map, and `currentBlock_record` says that it does
so after an update if it does before.

`segmentMap` is the result about runs of updates, between which the rest of the file system may do
what it likes as long as it leaves the list alone (`Updates`).
-/

namespace CoActionOS.Cafs

open Cmd

variable {g : Geometry}

/-! ### The map -/

/-- The map after the updates. -/
def assign (f : Nat → Option Nat) (us : List (Nat × Nat)) : Nat → Option Nat :=
  us.foldl (fun f u => Function.update f u.1 (some u.2)) f

/-- The blocks that the updates have replaced, the oldest first. -/
def superseded : (Nat → Option Nat) → List (Nat × Nat) → List Nat
  | _, [] => []
  | f, u :: us => (f u.1).toList ++ superseded (Function.update f u.1 (some u.2)) us

theorem assign_concat (f : Nat → Option Nat) (us : List (Nat × Nat)) (u : Nat × Nat) :
    assign f (us ++ [u]) = Function.update (assign f us) u.1 (some u.2) := by
  rw [assign, List.foldl_append]
  rfl

theorem superseded_concat (f : Nat → Option Nat) (us : List (Nat × Nat)) (u : Nat × Nat) :
    superseded f (us ++ [u]) = superseded f us ++ (assign f us u.1).toList := by
  induction us generalizing f with
  | nil => simp [superseded, assign]
  | cons v us ih =>
    rw [List.cons_append, superseded, superseded, ih, List.append_assoc]
    rfl

/-- A segment that is not updated keeps its block. -/
theorem assign_of_notMem {us : List (Nat × Nat)} {segment : Nat} (h : segment ∉ us.map Prod.fst)
    (f : Nat → Option Nat) : assign f us segment = f segment := by
  induction us generalizing f with
  | nil => rfl
  | cons u us ih =>
    rw [List.map_cons, List.mem_cons, not_or] at h
    show assign (Function.update f u.1 (some u.2)) us segment = _
    rw [ih h.2, Function.update_of_ne h.1]

theorem assign_isSome {us : List (Nat × Nat)} {segment : Nat} (h : segment ∈ us.map Prod.fst)
    (f : Nat → Option Nat) : (assign f us segment).isSome := by
  induction us using List.reverseRecOn with
  | nil => exact absurd h List.not_mem_nil
  | append_singleton us u ih =>
    rw [assign_concat]
    by_cases hu : segment = u.1
    · rw [hu, Function.update_self]
      rfl
    · rw [Function.update_of_ne hu]
      apply ih
      rw [List.map_append, List.mem_append, List.map_singleton, List.mem_singleton] at h
      exact h.resolve_right hu

/-! ### The items -/

/-- What holds of one item at most does not hold of two. -/
theorem eq_of_countP_le_one {α : Type} {p : α → Bool} {l : List α} (h : l.countP p ≤ 1) {i j : Nat}
    (hi : i < l.length) (hj : j < l.length) (hpi : p l[i]) (hpj : p l[j]) : i = j := by
  have hlt : ∀ {i j : Nat} (hi : i < l.length) (hj : j < l.length), p l[i] → p l[j] → ¬i < j := by
    intro i j hi hj hpi hpj hij
    have hleft : 0 < (l.take j).countP p :=
      List.countP_pos_iff.mpr ⟨l[i], List.mem_take_iff_getElem.mpr ⟨i, by omega, rfl⟩, hpi⟩
    have hright : 0 < (l.drop j).countP p :=
      List.countP_pos_iff.mpr ⟨l[j], List.mem_drop_iff_getElem.mpr ⟨0, by omega, rfl⟩, hpj⟩
    rw [← List.take_append_drop j l, List.countP_append] at h
    omega
  have h1 := hlt hi hj hpi hpj
  have h2 := hlt hj hi hpj hpi
  omega

/-- The items after an update. -/
def record (resd : UInt8) (u : Nat × Nat) (I : List FileItem) : List FileItem :=
  I.map (supersede u.1) ++ [⟨FileStatus.current, resd, u.2, u.1⟩]

namespace FileItem

def IsCurrent (segment : Nat) (i : FileItem) : Prop := i.status = FileStatus.current ∧ i.segment = segment

def IsObsolete (block : Nat) (i : FileItem) : Prop := i.status = FileStatus.obsolete ∧ i.block = block

/-- The item accounts for the block. -/
def Names (block : Nat) (i : FileItem) : Prop := i.status ≠ FileStatus.dirty ∧ i.block = block

variable {i : FileItem} {segment block : Nat}

instance : Decidable (i.IsCurrent segment) := inferInstanceAs (Decidable (_ ∧ _))

instance : Decidable (i.IsObsolete block) := inferInstanceAs (Decidable (_ ∧ _))

instance : Decidable (i.Names block) := inferInstanceAs (Decidable (_ ∧ _))

theorem IsObsolete.names (h : i.IsObsolete block) : i.Names block :=
  ⟨by rw [h.1]; decide, h.2⟩

end FileItem

/-- The block of the first current item of the segment. -/
def currentBlock (I : List FileItem) (segment : Nat) : Option Nat :=
  (I.find? fun i => i.IsCurrent segment).map FileItem.block

section items

variable {I : List FileItem} {resd : UInt8} {u : Nat × Nat} {i : FileItem} {segment block : Nat}

@[simp] theorem supersede_block (segment : Nat) (i : FileItem) : (supersede segment i).block = i.block := by
  rw [supersede]
  split_ifs <;> rfl

@[simp] theorem supersede_segment (segment : Nat) (i : FileItem) :
    (supersede segment i).segment = i.segment := by
  rw [supersede]
  split_ifs <;> rfl

theorem supersede_of_ne (h : i.segment ≠ segment) : supersede segment i = i :=
  if_neg fun hi => h hi.1

theorem not_isCurrent_supersede : ¬(supersede segment i).IsCurrent segment := by
  rintro ⟨hstatus, hsegment⟩
  rw [supersede_segment] at hsegment
  by_cases hi : i.segment = segment ∧ i.status = FileStatus.current
  · have hne : FileStatus.obsolete ≠ FileStatus.current := by decide
    rw [supersede, if_pos hi] at hstatus
    exact hne hstatus
  · rw [supersede, if_neg hi] at hstatus
    exact hi ⟨hsegment, hstatus⟩

theorem isCurrent_supersede_of_ne {segment' : Nat} (h : segment' ≠ segment) :
    (supersede segment i).IsCurrent segment' ↔ i.IsCurrent segment' := by
  by_cases hi : i.segment = segment
  · have hne : i.segment ≠ segment' := fun he => h (he.symm.trans hi)
    exact ⟨fun hc => absurd (supersede_segment segment i ▸ hc.2) hne, fun hc => absurd hc.2 hne⟩
  · rw [supersede_of_ne hi]

theorem names_supersede : (supersede segment i).Names block ↔ i.Names block := by
  rw [supersede]
  split_ifs with hi
  · have hcurrent : FileStatus.current ≠ FileStatus.dirty := by decide
    have hobsolete : FileStatus.obsolete ≠ FileStatus.dirty := by decide
    rw [FileItem.Names, FileItem.Names, hi.2]
    exact ⟨fun h => ⟨hcurrent, h.2⟩, fun h => ⟨hobsolete, h.2⟩⟩
  · rfl

theorem isObsolete_supersede (h : i.IsObsolete block) : (supersede segment i).IsObsolete block := by
  have hne : ¬(i.segment = segment ∧ i.status = FileStatus.current) := by
    rintro ⟨-, hcurrent⟩
    rw [h.1] at hcurrent
    have hdiff : FileStatus.obsolete ≠ FileStatus.current := by decide
    exact hdiff hcurrent
  rwa [supersede, if_neg hne]

theorem isObsolete_supersede_of_current (h : i.IsCurrent segment) :
    (supersede segment i).IsObsolete i.block := by
  rw [supersede, if_pos ⟨h.2, h.1⟩]
  exact ⟨rfl, rfl⟩

/-- The items after an update are the map after the update. -/
theorem currentBlock_record : currentBlock (record resd u I) =
    Function.update (currentBlock I) u.1 (some u.2) := by
  funext segment
  rw [currentBlock, record, List.find?_append, List.find?_map]
  by_cases hsegment : segment = u.1
  · subst hsegment
    have hnone : I.find? ((fun i => decide (i.IsCurrent u.1)) ∘ supersede u.1) = none := by
      rw [List.find?_eq_none]
      intro i _
      simpa using not_isCurrent_supersede
    rw [hnone, Function.update_self]
    simp [FileItem.IsCurrent]
  · have hsame : ((fun i => decide (i.IsCurrent segment)) ∘ supersede u.1) =
        fun i => decide (i.IsCurrent segment) := by
      funext i
      exact decide_eq_decide.mpr (isCurrent_supersede_of_ne hsegment)
    have hlast : [(⟨FileStatus.current, resd, u.2, u.1⟩ : FileItem)].find? (fun i => i.IsCurrent segment) =
        none := by
      simp [FileItem.IsCurrent, Ne.symm hsegment]
    rw [hsame, hlast, Option.or_none, Function.update_of_ne hsegment, currentBlock, Option.map_map]
    congr 1
    funext i
    exact supersede_block u.1 i

theorem countP_isCurrent_record : (record resd u I).countP (fun i => i.IsCurrent segment) =
    if segment = u.1 then 1 else I.countP fun i => i.IsCurrent segment := by
  rw [record, List.countP_append, List.countP_map, List.countP_singleton]
  split_ifs with hlast hsegment hsegment
  · subst hsegment
    rw [Nat.add_eq_right, List.countP_eq_zero]
    intro i _
    simpa using not_isCurrent_supersede
  · simp only [decide_eq_true_eq] at hlast
    exact absurd hlast.2.symm hsegment
  · exact absurd (by simpa [FileItem.IsCurrent] using hsegment.symm) hlast
  · apply List.countP_congr
    intro i _
    simpa using isCurrent_supersede_of_ne hsegment

theorem countP_names_record : (record resd u I).countP (fun i => i.Names block) =
    (I.countP fun i => i.Names block) + if u.2 = block then 1 else 0 := by
  rw [record, List.countP_append, List.countP_map, List.countP_singleton]
  congr 1
  · apply List.countP_congr
    intro i _
    simpa using names_supersede
  · have hcurrent : FileStatus.current ≠ FileStatus.dirty := by decide
    simp [FileItem.Names, hcurrent]

theorem filter_record (h : segment ≠ u.1) : ((record resd u I).filter fun i => i.segment = segment) =
    I.filter fun i => i.segment = segment := by
  have hlast : ¬u.1 = segment := Ne.symm h
  have hsame : ((fun i => decide (i.segment = segment)) ∘ supersede u.1) = fun i => decide (i.segment = segment) := by
    funext i
    simp
  have hnone : [(⟨FileStatus.current, resd, u.2, u.1⟩ : FileItem)].filter (fun i => i.segment = segment) = [] := by
    simp [hlast]
  rw [record, List.filter_append, List.filter_map, hsame, hnone, List.append_nil]
  conv => rhs; rw [← List.map_id (I.filter _)]
  apply List.map_congr_left
  intro i hi
  have hi : i.segment = segment := by simpa using (List.mem_filter.mp hi).2
  exact supersede_of_ne (hi.trans_ne h)

theorem mem_of_currentBlock (h : currentBlock I segment = some block) :
    ∃ i ∈ I, i.IsCurrent segment ∧ i.block = block := by
  obtain ⟨i, hi, rfl⟩ := Option.map_eq_some_iff.mp h
  exact ⟨i, List.mem_of_find?_eq_some hi, by simpa using List.find?_some hi, rfl⟩

end items

/-! ### Well-formed lists -/

/-- A file's list on the medium.  A segment has at most one current item, and no block has two items. -/
structure FileListAt (g : Geometry) (s : St) (sn : Nat) (blocks : List Nat) (I : List FileItem) : Prop where
  tidy : Tidy g s
  list : IsList g (blk s.flash) sn BlockType.fileList blocks I.length
  items : HasItems fileDecoder (blk s.flash) blocks I
  live : ∀ c ∈ blocks, Live (blk s.flash c)
  current : ∀ segment, (I.countP fun i => i.IsCurrent segment) ≤ 1
  valid : ∀ i ∈ I, ∀ segment, i.IsCurrent segment → i.block ≠ blockInvalid
  apart : ∀ block, (I.countP fun i => i.Names block) ≤ 1

/-- The items that `cl_list_getnext` returns, decoded. -/
def clFilelistItems (g : Geometry) (listBlock : Nat) : Cmd St (List FileItem) := do
  let items ← listItems g listBlock
  return items.map fun x => FileItem.ofBytes fun i => x.getD i 0

/-- The list of the file `sn` is left alone. -/
def KeepsFileList (g : Geometry) (sn : Nat) (s s' : St) : Prop :=
  ∀ c < g.total, Live (blk s.flash c) → u32 (blk s.flash c) 0 = sn →
    blk s.flash c 4 = BlockType.fileList ∨ blk s.flash c 4 = BlockType.fileList ||| linkedListFlag →
    blk s'.flash c = blk s.flash c

namespace FileListAt

variable {s s' : St} {sn : Nat} {blocks : List Nat} {I : List FileItem}

theorem uniqueCurrent (h : FileListAt g s sn blocks I) : UniqueCurrent I := by
  intro j k hj hk hjc hkc hsegment
  apply eq_of_countP_le_one (h.current I[k].segment) hj hk
  · exact decide_eq_true ⟨hjc, hsegment⟩
  · exact decide_eq_true ⟨hkc, rfl⟩

theorem congr (h : FileListAt g s sn blocks I) (ht : Tidy g s') (hkeep : KeepsFileList g sn s s') :
    FileListAt g s' sn blocks I := by
  have hV : ∀ c ∈ blocks, blk s'.flash c = blk s.flash c := fun c hc =>
    hkeep c (h.list.lt c hc) (h.live c hc) (h.list.serialno c hc) (h.list.type_cases hc)
  refine { h with tidy := ht, list := ?_, items := ?_, live := ?_ }
  · exact h.list.congr fun c hc i _ => by rw [hV c hc]
  · exact h.items.congr h.list.fits fun c hc i _ => by rw [hV c hc]
  · intro c hc
    rw [hV c hc]
    exact h.live c hc

theorem clFilelistItems_eq (h : FileListAt g s sn blocks I) :
    clFilelistItems g (blocks.headD 0) s = .ok I s := by
  have hraw : (rawItems (blk s.flash) blocks I.length).map (fun x => FileItem.ofBytes fun i => x.getD i 0) = I := by
    apply List.ext_getElem
    · simp
    · intro k h1 h2
      rw [List.getElem_map, ← h.items k h2]
      simp only [rawItems, List.getElem_map, List.getElem_range]
      exact fileDecoder.congr _ _ fun i hi => getD_slice hi
  rw [clFilelistItems, then_of_ok (listItems_eq h.tidy.up h.list), hraw]
  rfl

theorem clFilelistGet_eq (h : FileListAt g s sn blocks I) (segment : Nat) :
    clFilelistGet g (blocks.headD 0) segment FileStatus.current s = .ok (currentBlock I segment) s := by
  apply eq_ok_of_wp
  apply wp_clFilelistGet h.tidy.up h.list h.items
  · intro k hk hcurrent
    refine ⟨?_, rfl⟩
    have hvalid := h.valid _ (List.getElem_mem hk) segment hcurrent
    rw [if_neg hvalid, currentBlock]
    cases hfind : I.find? fun i => i.IsCurrent segment with
    | none => exact absurd (decide_eq_true hcurrent) (List.find?_eq_none.mp hfind _ (List.getElem_mem hk))
    | some i =>
      obtain ⟨j, hj, rfl⟩ := List.getElem_of_mem (List.mem_of_find?_eq_some hfind)
      have hj' : decide (I[j].IsCurrent segment) = true := by simpa using List.find?_some hfind
      have hjk := eq_of_countP_le_one (h.current segment) hj hk hj' (decide_eq_true hcurrent)
      subst hjk
      rfl
  · intro hnone
    refine ⟨?_, rfl⟩
    have hfind : I.find? (fun i => i.IsCurrent segment) = none := by
      rw [List.find?_eq_none]
      exact fun i hi hcurrent => hnone i hi (of_decide_eq_true hcurrent)
    rw [currentBlock, hfind]
    rfl

/-- One update. -/
theorem wp_clFilelistUpdate {u : Nat × Nat} {Q : Unit → St → Prop} {R : St → Prop}
    (h : FileListAt g s sn blocks I) (hsn : sn < 2 ^ 32) (hsegment : u.1 < 2 ^ 32)
    (hblock : u.2 < blockInvalid) (hnew : ∀ i ∈ I, ¬i.Names u.2) (hR : ∀ s', Refused g s s' → R s')
    (hQ : ∀ resd more s', FileListAt g s' sn (blocks ++ more) (record resd u I) → Q () s') :
    wp (clFilelistUpdate g (blocks.headD 0) u.1 u.2) Q R s := by
  apply Cafs.wp_clFilelistUpdate h.tidy hsn h.list h.items h.live h.uniqueCurrent hsegment
    (Nat.lt_succ_of_lt hblock)
  -- a block that is current for a segment is not the new one
  · intro i hi hcurrent he
    have hne : FileStatus.current ≠ FileStatus.dirty := by decide
    exact hnew i hi ⟨hcurrent ▸ hne, he⟩
  · exact hR
  intro more resd s' ht hf hmore hold hL hI
  apply hQ resd more s'
  have hlen : (record resd u I).length = I.length + 1 := by simp [record]
  refine
    { tidy := ht
      list := by rwa [hlen]
      items := hI
      live := ?_
      current := ?_
      valid := ?_
      apart := ?_ }
  · intro c hc
    rcases List.mem_append.mp hc with hc | hc
    · exact (live_of_status (hold c hc)).mpr (h.live c hc)
    · exact Or.inr (hmore c hc).2
  · intro segment
    rw [countP_isCurrent_record]
    split_ifs
    · exact Nat.le_refl 1
    · exact h.current segment
  · intro i hi segment hcurrent
    rcases List.mem_append.mp hi with hi | hi
    · obtain ⟨j, hj, rfl⟩ := List.mem_map.mp hi
      rw [supersede_block]
      -- what was current for the segment is no more
      by_cases hne : segment = u.1
      · subst hne
        exact absurd hcurrent not_isCurrent_supersede
      · exact h.valid j hj segment ((isCurrent_supersede_of_ne hne).mp hcurrent)
    · obtain rfl := List.mem_singleton.mp hi
      exact Nat.ne_of_lt hblock
  · intro block
    rw [countP_names_record]
    split_ifs with he
    -- the new block was not named before
    · have hzero : (I.countP fun i => i.Names block) = 0 := by
        rw [List.countP_eq_zero]
        intro i hi
        rw [← he]
        simpa using hnew i hi
      rw [hzero]
    · exact h.apart block

end FileListAt

/-! ### Runs of updates -/

/-- From `s₀` to `s` the updates `us` have returned. -/
inductive Updates (g : Geometry) (sn listBlock : Nat) (s₀ : St) : List (Nat × Nat) → St → Prop
  | start : Updates g sn listBlock s₀ [] s₀
  | update {us : List (Nat × Nat)} {s s' : St} {segment block : Nat} (hrun : Updates g sn listBlock s₀ us s)
    (hcall : clFilelistUpdate g listBlock segment block s = .ok () s') :
    Updates g sn listBlock s₀ (us ++ [(segment, block)]) s'
  | other {us : List (Nat × Nat)} {s s' : St} (hrun : Updates g sn listBlock s₀ us s) (ht : Tidy g s')
    (hkeep : KeepsFileList g sn s s') : Updates g sn listBlock s₀ us s'

/-- The list is that of `I₀` after the updates. -/
structure Updated (g : Geometry) (sn listBlock : Nat) (I₀ : List FileItem) (us : List (Nat × Nat)) (s : St)
    (blocks : List Nat) (I : List FileItem) : Prop where
  wellFormed : FileListAt g s sn blocks I
  head : blocks.headD 0 = listBlock
  current : currentBlock I = assign (currentBlock I₀) us
  names : ∀ block, (I.countP fun i => i.Names block) =
    (I₀.countP fun i => i.Names block) + (us.map Prod.snd).count block
  obsolete : ∀ block ∈ superseded (currentBlock I₀) us, ∃ i ∈ I, i.IsObsolete block
  other : ∀ segment, segment ∉ us.map Prod.fst →
    (I.filter fun i => i.segment = segment) = I₀.filter fun i => i.segment = segment

/-- The updates are given the numbers of blocks that do not occur yet. -/
structure NewBlocks (I₀ : List FileItem) (us : List (Nat × Nat)) : Prop where
  distinct : (us.map Prod.snd).Nodup
  range : ∀ u ∈ us, u.1 < 2 ^ 32 ∧ u.2 < blockInvalid
  fresh : ∀ u ∈ us, ∀ i ∈ I₀, ¬i.Names u.2

section run

variable {s₀ s : St} {sn listBlock : Nat} {blocks : List Nat} {I₀ I : List FileItem} {us : List (Nat × Nat)}
  {u : Nat × Nat}

theorem NewBlocks.init (h : NewBlocks I₀ (us ++ [u])) : NewBlocks I₀ us where
  distinct := by
    have hdistinct := h.distinct
    rw [List.map_append] at hdistinct
    exact (List.nodup_append.mp hdistinct).1
  range v hv := h.range v (List.mem_append_left _ hv)
  fresh v hv := h.fresh v (List.mem_append_left _ hv)

/-- The last block does not occur yet. -/
theorem Updated.not_names (h : Updated g sn listBlock I₀ us s blocks I) (hnew : NewBlocks I₀ (us ++ [u])) :
    ∀ i ∈ I, ¬i.Names u.2 := by
  have hu : u ∈ us ++ [u] := List.mem_append_right _ (List.mem_singleton.mpr rfl)
  have hinitial : (I₀.countP fun i => i.Names u.2) = 0 := by
    rw [List.countP_eq_zero]
    intro i hi
    simpa using hnew.fresh u hu i hi
  have hbefore : (us.map Prod.snd).count u.2 = 0 := by
    have hdistinct := hnew.distinct
    rw [List.map_append, List.nodup_append] at hdistinct
    rw [List.count_eq_zero]
    exact fun hmem => hdistinct.2.2 _ hmem _ (List.mem_singleton.mpr rfl) rfl
  have hnames := h.names u.2
  rw [hinitial, hbefore, List.countP_eq_zero] at hnames
  intro i hi
  simpa using hnames i hi

theorem Updated.update {resd : UInt8} {s' : St} {more : List Nat}
    (h : Updated g sn listBlock I₀ us s blocks I)
    (hlist : FileListAt g s' sn (blocks ++ more) (record resd u I)) :
    Updated g sn listBlock I₀ (us ++ [u]) s' (blocks ++ more) (record resd u I) where
  wellFormed := hlist
  head := by
    rw [← h.head]
    obtain ⟨b, bs, rfl⟩ := List.exists_cons_of_ne_nil h.wellFormed.list.ne
    rfl
  current := by rw [currentBlock_record, assign_concat, h.current]
  names block := by
    rw [countP_names_record, h.names, List.map_append, List.count_append, List.map_singleton,
      List.count_singleton]
    simp only [beq_iff_eq]
    omega
  obsolete block hblock := by
    rw [superseded_concat, List.mem_append] at hblock
    rcases hblock with hblock | hblock
    · obtain ⟨i, hi, hobsolete⟩ := h.obsolete block hblock
      exact ⟨_, List.mem_append_left _ (List.mem_map_of_mem hi), isObsolete_supersede hobsolete⟩
    · rw [Option.mem_toList, ← h.current] at hblock
      obtain ⟨i, hi, hcurrent, rfl⟩ := mem_of_currentBlock hblock
      exact ⟨_, List.mem_append_left _ (List.mem_map_of_mem hi), isObsolete_supersede_of_current hcurrent⟩
  other segment hsegment := by
    rw [List.map_append, List.mem_append, not_or, List.map_singleton, List.mem_singleton] at hsegment
    rw [filter_record hsegment.2]
    exact h.other segment hsegment.1

theorem Updates.updated (h₀ : FileListAt g s₀ sn blocks I₀) (hsn : sn < 2 ^ 32)
    (hrun : Updates g sn (blocks.headD 0) s₀ us s) (hnew : NewBlocks I₀ us) :
    ∃ more I, Updated g sn (blocks.headD 0) I₀ us s (blocks ++ more) I := by
  induction hrun with
  | start =>
    refine ⟨[], I₀, ?_⟩
    rw [List.append_nil]
    exact ⟨h₀, rfl, rfl, fun _ => rfl, fun _ h => absurd h List.not_mem_nil, fun _ _ => rfl⟩
  | @update us s s' segment block _ hcall ih =>
    obtain ⟨more, I, h⟩ := ih hnew.init
    have hu := hnew.range (segment, block) (List.mem_append_right _ (List.mem_singleton.mpr rfl))
    rw [← h.head] at hcall
    have hwlp : wlp (clFilelistUpdate g ((blocks ++ more).headD 0) segment block) (fun _ s' =>
        ∃ more I, Updated g sn (blocks.headD 0) I₀ (us ++ [(segment, block)]) s' (blocks ++ more) I) s := by
      refine wlp_of_wp (R := fun _ => True) ?_
      apply h.wellFormed.wp_clFilelistUpdate (u := (segment, block)) hsn hu.1 hu.2 (h.not_names hnew)
        (fun _ _ => trivial)
      intro resd more' s' hlist
      have hupdated := h.update hlist
      rw [List.append_assoc] at hupdated
      exact ⟨more ++ more', _, hupdated⟩
    exact hwlp () s' hcall
  | other _ ht hkeep ih =>
    obtain ⟨more, I, h⟩ := ih hnew
    exact ⟨more, I, { h with wellFormed := h.wellFormed.congr ht hkeep }⟩

/-- The segment list is a map, whatever has been done to it, and the next update returns unless an allocation
fails. -/
theorem segmentMap (h₀ : FileListAt g s₀ sn blocks I₀) (hsn : sn < 2 ^ 32)
    (hrun : Updates g sn (blocks.headD 0) s₀ us s) (hnew : NewBlocks I₀ us) :
    ∃ I, clFilelistItems g (blocks.headD 0) s = .ok I s ∧
      (∀ segment, clFilelistGet g (blocks.headD 0) segment FileStatus.current s =
        .ok (assign (currentBlock I₀) us segment) s) ∧
      (∀ segment ∈ us.map Prod.fst, (I.countP fun i => i.IsCurrent segment) = 1) ∧
      (∀ block ∈ superseded (currentBlock I₀) us, (I.countP fun i => i.IsObsolete block) = 1) ∧
      (∀ segment, segment ∉ us.map Prod.fst →
        (I.filter fun i => i.segment = segment) = I₀.filter fun i => i.segment = segment) ∧
      ∀ u, NewBlocks I₀ (us ++ [u]) →
        (∃ s', clFilelistUpdate g (blocks.headD 0) u.1 u.2 s = .ok () s') ∨
          ∃ s', clFilelistUpdate g (blocks.headD 0) u.1 u.2 s = .error s' ∧ Refused g s s' := by
  obtain ⟨more, I, h⟩ := hrun.updated h₀ hsn hnew
  have hitems := h.wellFormed.clFilelistItems_eq
  rw [h.head] at hitems
  refine ⟨I, hitems, ?_, ?_, ?_, h.other, ?_⟩
  · intro segment
    have hget := h.wellFormed.clFilelistGet_eq segment
    rwa [h.head, h.current] at hget
  -- one entry at least is current, and not more than one
  · intro segment hsegment
    have hsome := assign_isSome hsegment (currentBlock I₀)
    rw [← h.current] at hsome
    obtain ⟨block, hblock⟩ := Option.isSome_iff_exists.mp hsome
    obtain ⟨i, hi, hcurrent, -⟩ := mem_of_currentBlock hblock
    have hpos : 0 < I.countP fun i => i.IsCurrent segment :=
      List.countP_pos_iff.mpr ⟨i, hi, decide_eq_true hcurrent⟩
    have hle := h.wellFormed.current segment
    omega
  -- an entry that is superseded names its block, and no other does
  · intro block hblock
    obtain ⟨i, hi, hobsolete⟩ := h.obsolete block hblock
    have hpos : 0 < I.countP fun i => i.IsObsolete block :=
      List.countP_pos_iff.mpr ⟨i, hi, decide_eq_true hobsolete⟩
    have hle : (I.countP fun i => i.IsObsolete block) ≤ I.countP fun i => i.Names block := by
      apply List.countP_mono_left
      intro i _ hi
      exact decide_eq_true (of_decide_eq_true hi).names
    have hone := h.wellFormed.apart block
    omega
  -- the next update fails only where an allocation does
  · intro u hu
    have hrange := hu.range u (List.mem_append_right _ (List.mem_singleton.mpr rfl))
    have hwp : wp (clFilelistUpdate g ((blocks ++ more).headD 0) u.1 u.2) (fun _ _ => True) (Refused g s) s :=
      h.wellFormed.wp_clFilelistUpdate hsn hrange.1 hrange.2 (h.not_names hu) (fun _ hr => hr) fun _ _ _ _ => trivial
    rw [h.head] at hwp
    rcases exists_or_of_wp hwp with ⟨_, s', hok, -⟩ | herror
    · exact Or.inl ⟨s', hok⟩
    · exact Or.inr herror

end run

/-! ### A new file -/

/-- The list of a file that a handle has made is empty. -/
theorem Namespace.Kept.fileListAt {n : Namespace} {sb : List Nat} {E : List Entry} (hn : n.Kept g sb E)
    {fd : Nat} {h : Handle} (hh : n.fs.handle fd = some h) (hw : h.amode.w = true) :
    ∃ sn < 2 ^ 32, FileListAt g n.fs.st sn [u16 (blk n.fs.st.flash h.hdrBlock) 32] [] := by
  obtain ⟨k, e, hk, hheld, hholds⟩ := hn.handles fd h hh hw
  have he := List.mem_of_getElem? hk
  have hfile := ((hn.catalogue.sound e he).file BlockStatus.opened (by rw [hheld]; rfl)).file
  have hserial := (hn.catalogue.serials e he).2
  have hbound := hn.catalogue.bound
  rw [hholds.hdr, hfile.content]
  have hinvalid : serialnoInvalid < 2 ^ 32 := by decide
  refine ⟨e.serialno, by omega, ?_⟩
  exact
    { tidy := hn.catalogue.tidy
      list := hfile.list
      items := hfile.items
      live := fun c hc => Or.inr (hfile.listStatus c hc)
      current := fun _ => Nat.zero_le 1
      valid := fun _ hi => absurd hi List.not_mem_nil
      apart := fun _ => Nat.zero_le 1 }

/-- Two updates of segment 0. -/
def writeTwice (listBlock : Nat) : Cmd St Unit := do
  clFilelistUpdate erasedSection listBlock 0 20
  clFilelistUpdate erasedSection listBlock 0 21

/-- They return for the file behind handle 0. -/
def replaces (n : Namespace) : Bool :=
  match n.fs.handle 0 with
  | none => false
  | some h =>
    h.amode.w && (writeTwice (u16 (blk n.fs.st.flash h.hdrBlock) 32) n.fs.st).returns

/-- Segment 0 is written twice. -/
theorem segmentMap_replaced : ∃ (s₀ s : St) (sn listBlock : Nat) (I : List FileItem),
    Updates erasedSection sn listBlock s₀ [(0, 20), (0, 21)] s ∧
      clFilelistItems erasedSection listBlock s = .ok I s ∧
      clFilelistGet erasedSection listBlock 0 FileStatus.current s = .ok (some 21) s ∧
      (I.countP fun i => i.IsObsolete 20) = 1 := by
  have hready : (formatBlank erasedSection).map readyToCreate = some true := by decide +kernel
  have hend : ((formatBlank erasedSection).bind fun n =>
      (Run.replay (Namespace.step erasedSection) n [.open pathA createFlags]).map fun p => replaces p.1) =
      some true := by decide +kernel
  obtain ⟨n₀, hn₀, hready⟩ := Option.map_eq_some_iff.mp hready
  rw [hn₀, Option.bind_some] at hend
  obtain ⟨⟨n, rs⟩, hreplay, hreplaces⟩ := Option.map_eq_some_iff.mp hend
  have hok : Run.AllOk (Namespace.step erasedSection) (Namespace.Careful erasedSection) n₀
      [.open pathA createFlags] := Run.allOk_cons (careful_of_ready hready) fun _ => trivial
  obtain ⟨sb, E, hn⟩ := Namespace.kept_of_careful (formatted_of_formatBlank hn₀) (Run.of_replay hreplay hok)
  simp only [replaces] at hreplaces
  split at hreplaces
  · exact nomatch hreplaces
  · next h hh =>
    obtain ⟨hw, hreturns⟩ := Bool.and_eq_true_iff.mp hreplaces
    obtain ⟨sn, hsn, hlist⟩ := hn.fileListAt hh hw
    obtain ⟨⟨⟩, s, hcalls⟩ := Outcome.exists_of_returns hreturns
    obtain ⟨⟨⟩, s₁, h1, h2⟩ := then_eq_ok hcalls
    have hstart : Updates erasedSection sn (u16 (blk n.fs.st.flash h.hdrBlock) 32) n.fs.st [] n.fs.st := .start
    have hrun := (hstart.update h1).update h2
    have hnew : NewBlocks [] ([] ++ [(0, 20)] ++ [(0, 21)]) :=
      ⟨by decide, by decide, fun _ _ _ hi => absurd hi List.not_mem_nil⟩
    obtain ⟨I, hitems, hget, -, hobsolete, -⟩ := segmentMap hlist hsn hrun hnew
    exact ⟨n.fs.st, s, sn, _, I, hrun, hitems, hget 0, hobsolete 20 (by decide)⟩

end CoActionOS.Cafs
