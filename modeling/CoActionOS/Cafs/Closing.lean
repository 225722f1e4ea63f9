import CoActionOS.Cafs.Opening

/-!
# Closing and removing a file that nothing has been written to

Both go through the entry's states one write after the other: `Catalogue.wp_setState` is a write of the status,
`Catalogue.rewrite` one of the entry's own blocks.
-/

namespace CoActionOS.Cafs

open Cmd

variable {g : Geometry}

/-! ### Single steps -/

/-- The states that a call moves an entry to. -/
def EntryState.IsStep (x : EntryState) : Prop := x ≠ .failed ∧ ∀ fd, x ≠ .held fd

theorem EntryState.status_ne_free (x : EntryState) : x.status ≠ ItemStatus.free := by
  cases x with
  | leaving segments => cases segments <;> decide
  | emptied segments => cases segments <;> decide
  | held fd => show SnStatus.opened ≠ _; decide
  | _ => decide

section

variable {s s' : St} {sb : List Nat} {E : List Entry} {R : St → Prop} {k : Nat} {e : Entry} {x : EntryState}

theorem Entry.Sound.step {V : Nat → Bytes} (h : e.Sound g V) (hx : x.IsStep)
    (hblock : ∀ st, x.blockStatus = some st → e.state.blockStatus = some st) :
    Entry.Sound { e with state := x } g V where
  file st hst := h.file st (hblock st hst)
  noSize fd hfd := absurd hfd (hx.2 fd)
  failed hfailed := absurd hfailed hx.1

/-- A write of the status. -/
theorem Catalogue.wp_setState {Q : Unit → St → Prop} (h : Catalogue g s sb E) (hk : E[k]? = some e) (hx : x.IsStep)
    (hv : x.status &&& e.state.status = x.status)
    (hblock : ∀ st, x.blockStatus = some st → e.state.blockStatus = some st)
    (hunique : x = .closed → ∀ (j : Nat) (y : Entry), E[j]? = some y → j ≠ k → y.state = .closed →
      y.serialno ≠ e.serialno)
    (hQ : ∀ s', Catalogue g s' sb (E.set k { e with state := x }) → Q () s') :
    wp (clSerialnoSetstatus g (addrOf sb (k + 1)) x.status) Q R s := by
  have hmem := List.mem_of_getElem? hk
  have hlt : k < E.length := by
    by_contra hge
    rw [List.getElem?_eq_none (Nat.not_lt.mp hge)] at hk
    exact nomatch hk
  have hkL : k + 1 < (zeroEntry :: E.map Entry.item).length := by simpa using hlt
  have hitem : (zeroEntry :: E.map Entry.item)[k + 1] = e.item := by
    have hget : E[k] = e := Option.some.inj ((List.getElem?_eq_getElem hlt).symm.trans hk)
    simp [hget]
  apply wp_clSerialnoSetstatus h.tidy h.entries hkL
  · rw [hitem]
    exact hv
  · exact x.status_ne_free
  · intro s' ht hf hentries
    apply hQ
    have hother : ∀ y ∈ E, ∀ c ∈ y.blocks, c ∉ sb := fun y hy c hc => h.not_mem hy hc
    have hsound : e.Sound g (blk s'.flash) := by
      apply (h.sound e hmem).congr
      intro c hc
      obtain ⟨hc', hlive, -⟩ := (h.sound e hmem).blocks hc
      exact hf.keep c hc' hlive (hother e hmem c hc)
    have hfile : x.blockStatus.isSome → e.state.blockStatus.isSome := by
      intro hsome
      obtain ⟨st, hst⟩ := Option.isSome_iff_exists.mp hsome
      rw [hblock st hst]
      rfl
    apply h.update ht hf (h.changes hk (hsound.step hx hblock) hfile hx.2 hx.1 hunique)
    · intro j y hj _ c hc
      exact hother y (List.mem_of_getElem? hj) c hc
    · rw [hitem] at hentries
      rw [List.map_set]
      exact hentries

/-- Writes into the blocks of an entry. -/
theorem Catalogue.rewrite (h : Catalogue g s sb E) (hk : E[k]? = some e) (hx : x.IsStep)
    (hclosed : x ≠ .closed) (hstatus : x.status = e.state.status)
    (hfile : x.blockStatus.isSome → e.state.blockStatus.isSome) (ht : Tidy g s')
    (hf : Frame g (· ∈ e.blocks) s s') (hsound : Entry.Sound { e with state := x } g (blk s'.flash)) :
    Catalogue g s' sb (E.set k { e with state := x }) := by
  have hmem := List.mem_of_getElem? hk
  apply h.update ht hf (h.changes hk hsound hfile hx.2 hx.1 fun hx' => absurd hx' hclosed)
  · intro j y hj hne c hc hc'
    exact h.apart j k y e hj hk hne hc hc'
  · have hitems : (E.set k { e with state := x }).map Entry.item = E.map Entry.item := by
      obtain ⟨hlt, rfl⟩ := List.getElem?_eq_some_iff.mp hk
      have hlt' : k < (E.map Entry.item).length := by rwa [List.length_map]
      have hitem : Entry.item { E[k] with state := x } = (E.map Entry.item)[k] := by
        rw [List.getElem_map, Entry.item, Entry.item, hstatus]
      rw [List.map_set, hitem, List.set_getElem_self]
    rw [hitems]
    exact h.entries.frame hf fun c hc hc' => h.not_mem hmem hc' hc

theorem EntryState.IsStep.file (hx : x.IsStep) {V V' : Nat → Bytes} {st st' : UInt8}
    (hfile : EmptyFile g V e.serialno st e.hdr e.list e.name) (hst : x.blockStatus = some st')
    (hbytes : ∀ c ∈ [e.hdr, e.list], ∀ i, i ≠ 5 → V' c i = V c i) (hstatus : ∀ c ∈ [e.hdr, e.list], V' c 5 = st') :
    Entry.Sound { e with state := x } g V' where
  file st'' hst'' := by
    obtain rfl : st' = st'' := Option.some.inj (hst.symm.trans hst'')
    have hhdr : ∀ i, i ≠ 5 → V' e.hdr i = V e.hdr i := hbytes e.hdr (by simp)
    have hlist : ∀ i, i ≠ 5 → V' e.list i = V e.list i := hbytes e.list (by simp)
    refine ⟨⟨hfile.file.pos, hfile.file.lt, ?_, ?_, hstatus _ (by simp), ?_, ?_, ?_, ?_, ?_⟩, ?_⟩
    · rw [← hfile.file.serialno]
      exact u32_congr fun i hi => hhdr _ (by omega)
    · rw [← hfile.file.type]
      exact hhdr 4 (by omega)
    · rw [← hfile.file.content]
      exact u16_congr fun i hi => hhdr _ (by omega)
    · exact hfile.file.list.congr fun c hc => by
        rw [List.mem_singleton.mp hc]
        exact hlist
    · exact fun j hj => absurd hj (Nat.not_lt_zero j)
    · intro c hc
      rw [List.mem_singleton.mp hc]
      exact hstatus _ (by simp)
    · exact fun j _ hj => absurd hj (Nat.not_lt_zero j)
    · exact hfile.stored.congr fun i h6 _ => hhdr i (by omega)
  noSize fd hfd := absurd hfd (hx.2 fd)
  failed hfailed := absurd hfailed hx.1

/-! ### The blocks of a file -/

/-- The status of both blocks has been set. -/
structure Restated (g : Geometry) (s : St) (hdr list : Nat) (st : UInt8) (s' : St) : Prop where
  tidy : Tidy g s'
  frame : Frame g (· ∈ [hdr, list]) s s'
  bytes : ∀ c, ∀ i, i ≠ 5 → blk s'.flash c i = blk s.flash c i
  status : ∀ c ∈ [hdr, list], blk s'.flash c 5 = st

/-- The list first, then the header. -/
theorem wp_restate {sn hdr list : Nat} {st st' : UInt8} {name : List UInt8} {Q : Unit → St → Prop} (hs : Tidy g s)
    (hfile : EmptyFile g (blk s.flash) sn st hdr list name) (hlive : st = BlockStatus.closed ∨ st = BlockStatus.opened)
    (hfree : st' ≠ BlockStatus.free) (hfit : st' &&& st = st')
    (hQ : ∀ s', Restated g s hdr list st' s' → Q () s') :
    wp (clListSetblockstatus g list st' >>= fun _ => clBlockSetstatus g hdr st') Q R s := by
  have hlistLive : ∀ c ∈ [list], Live (blk s.flash c) := by
    intro c hc
    rw [List.mem_singleton.mp hc, Live, hfile.list_status]
    exact hlive
  have hhdrLive : Live (blk s.flash hdr) := by
    rw [Live, hfile.file.status]
    exact hlive
  have hL : IsList g (blk s.flash) sn BlockType.fileList [list] 0 := hfile.file.list
  -- the blocks of the list change first, and then the header
  rw [wp_bind]
  apply wp_clListSetblockstatus hs hL hfree
  · intro c hc
    rw [List.mem_singleton.mp hc, hfile.list_status]
    exact hfit
  intro s₁ h1
  have hhdr1 : blk s₁.flash hdr = blk s.flash hdr := h1.other hdr fun hc => hfile.ne (List.mem_singleton.mp hc)
  apply wp_clBlockSetstatus h1.tidy hfile.file.lt
  · rw [hhdr1, hfile.file.status]
    exact hfit
  · exact hfree
  intro s₂ h2
  apply hQ
  refine ⟨h2.tidy, ?_, ?_, ?_⟩
  · refine Frame.trans_same (?_ : Frame g _ s s₁) ?_
    · exact (h1.frame hlistLive).mono fun c hc => List.mem_cons_of_mem _ hc
    · refine (h2.frame ?_ (Nat.le_refl 5)).mono fun c hc => hc ▸ List.mem_cons_self
      rw [hhdr1]
      exact hhdrLive
  · intro c i hi
    rw [h2.get_of_lt (by simp; omega), h1.get_of_ne hi]
  -- what the header and the list say afterwards
  · intro c hc
    by_cases hch : c = hdr
    · subst hch
      exact h2.get_add (i := 0) (by simp)
    · obtain rfl : c = list := by simpa [hch] using hc
      rw [h2.other c hch]
      exact h1.status (List.mem_singleton.mpr rfl)

/-- A loop over a list without an item. -/
theorem wp_whileItem_empty {τ β : Type} {sn l : Nat} {body : ClList → τ → Cmd St (Loop (ClList × τ) β)} {t : τ}
    {Q : Sum β (Next × ClList × τ) → St → Prop} {c : ClList} (hup : s.up = true)
    (hL : IsList g (blk s.flash) sn BlockType.fileList [l] 0) (hc : CursorAt (blk s.flash) [l] c 0)
    (hQ : ∀ c', Q (.inr (endOf [l] 0, c', t)) s) : wp (whileItem g body loopFuel c t) Q R s := by
  apply wp_whileItem_read (fun _ t' => t' = t) hup hL _ _ (Nat.le_refl 0) hc rfl
  · intro k _ _ hk
    exact absurd hk (Nat.not_lt_zero k)
  · rintro c' _ rfl _
    exact hQ c'

theorem Catalogue.wp_markFileClosed {Q : Unit → St → Prop} (h : Catalogue g s sb E) (hk : E[k]? = some e)
    (hstate : e.state = .closing)
    (hQ : ∀ s', Catalogue g s' sb (E.set k { e with state := .marked }) → Q () s') :
    wp (markFileClosed g e.hdr) Q R s := by
  have hfile := (h.sound e (List.mem_of_getElem? hk)).file BlockStatus.opened (by rw [hstate]; rfl)
  have hlt := hfile.file.lt
  have hcontent := hfile.contentBlock
  have hL : IsList g (blk s.flash) e.serialno BlockType.fileList [e.list] 0 := hfile.file.list
  rw [markFileClosed, wp_bind]
  apply wp_clBlockLoad h.tidy.up (by omega)
  rw [if_neg (by rw [hfile.file.status]; decide), if_neg (not_not.mpr hfile.file.type), hcontent, wp_bind]
  apply wp_clListInit h.tidy.up hL
  intro c hc
  rw [wp_bind]
  apply wp_whileItem_empty h.tidy.up hL hc
  intro _
  apply wp_restate h.tidy hfile (.inr rfl) (by decide) (by decide)
  intro s' hr
  have hx : EntryState.marked.IsStep := ⟨by decide, fun _ h => nomatch h⟩
  have hblock : e.state.blockStatus = some BlockStatus.opened := by rw [hstate]; rfl
  have hblocks := Entry.mem_blocks_of_file hblock
  apply hQ
  apply h.rewrite hk hx (by decide) (by rw [hstate]; rfl) (fun _ => by rw [hstate]; rfl) hr.tidy
  · rw [hblocks]
    exact hr.frame
  · exact hx.file hfile rfl (fun c _ => hr.bytes c) hr.status

theorem EntryState.status_leaving (segments : Bool) :
    (EntryState.leaving segments).status = SnStatus.discarding ∨
      (EntryState.leaving segments).status = SnStatus.discardingHdrList := by
  cases segments
  · exact .inr rfl
  · exact .inl rfl

theorem Catalogue.wp_cleanupFile {segments : Bool} {Q : Unit → St → Prop} (h : Catalogue g s sb E)
    (hk : E[k]? = some e) (hstate : e.state = .leaving segments)
    (hQ : ∀ s', Catalogue g s' sb (E.set k { e with state := .dead }) → Q () s') :
    wp (cleanupFile g e.hdr (addrOf sb (k + 1)) (EntryState.leaving segments).status) Q R s := by
  have hfile := (h.sound e (List.mem_of_getElem? hk)).file BlockStatus.closed (by rw [hstate]; rfl)
  have hlt := hfile.file.lt
  have hcontent := hfile.contentBlock
  have hL : IsList g (blk s.flash) e.serialno BlockType.fileList [e.list] 0 := hfile.file.list
  have hleaving := EntryState.status_leaving segments
  have hlt' : k < E.length := (List.getElem?_eq_some_iff.mp hk).1
  -- both blocks are discarded, then the entry is
  have htail : wp (clListSetblockstatus g e.list BlockStatus.dirty >>= fun _ =>
      clBlockSetstatus g e.hdr BlockStatus.dirty >>= fun _ =>
      clSerialnoSetstatus g (addrOf sb (k + 1)) SnStatus.dirty) Q R s := by
    rw [wp_bind]
    have hrestate := wp_restate (R := R) h.tidy hfile (.inl rfl) (show BlockStatus.dirty ≠ BlockStatus.free by decide)
      (by decide)
      (Q := fun _ s' => wp (clSerialnoSetstatus g (addrOf sb (k + 1)) SnStatus.dirty) Q R s') ?_
    · rw [wp_bind] at hrestate
      exact wp_mono hrestate (fun _ s' h' => by rw [wp_bind]; exact h') fun _ => id
    · intro s' hr
      have hx : (EntryState.emptied segments).IsStep := ⟨EntryState.noConfusion, fun _ => EntryState.noConfusion⟩
      have hblock : e.state.blockStatus = some BlockStatus.closed := by rw [hstate]; rfl
      have hblocks := Entry.mem_blocks_of_file hblock
      have hnofile : ∀ st, (EntryState.emptied segments).blockStatus ≠ some st :=
        fun st => Option.some_ne_none st ∘ Eq.symm
      have h' : Catalogue g s' sb (E.set k { e with state := .emptied segments }) := by
        apply h.rewrite hk hx (fun h => nomatch h) (by rw [hstate]; rfl) (fun hsome => nomatch hsome) hr.tidy
        · rw [hblocks]
          exact hr.frame
        · exact ⟨fun st hst => absurd hst (hnofile st), fun _ => EntryState.noConfusion, EntryState.noConfusion⟩
      have hget : (E.set k { e with state := EntryState.emptied segments })[k]? =
        some { e with state := EntryState.emptied segments } := List.getElem?_set_self hlt'
      apply h'.wp_setState (x := .dead) hget ⟨by decide, fun _ h => nomatch h⟩ (by simp [EntryState.status])
        (fun st hst => nomatch hst) (fun h => nomatch h)
      intro s'' h''
      rw [List.set_set] at h''
      exact hQ s'' h''
  rw [cleanupFile, wp_bind]
  apply wp_clBlockLoad h.tidy.up (by omega)
  rw [if_neg (not_not.mpr hfile.file.type), hcontent, wp_bind]
  have hrest : wp (Cmd.when ((EntryState.leaving segments).status = SnStatus.discarding ∨
      (EntryState.leaving segments).status = SnStatus.discardingHdrList) (clListDiscard g e.list) >>= fun _ =>
      Cmd.when ((EntryState.leaving segments).status = SnStatus.discarding ∨
        (EntryState.leaving segments).status = SnStatus.discardingHdrList ∨
        (EntryState.leaving segments).status = SnStatus.discardingHdr) (clBlockDiscard g e.hdr) >>= fun _ =>
      clSerialnoSetstatus g (addrOf sb (k + 1)) SnStatus.dirty) Q R s := by
    have hthird : (EntryState.leaving segments).status = SnStatus.discarding ∨
        (EntryState.leaving segments).status = SnStatus.discardingHdrList ∨
        (EntryState.leaving segments).status = SnStatus.discardingHdr := hleaving.imp_right .inl
    have hwhen : ∀ (p : Prop) [Decidable p] (c : Cmd St Unit), p → Cmd.when p c = c :=
      fun p _ c hp => if_pos hp
    rw [hwhen _ _ hleaving, hwhen _ _ hthird]
    exact htail
  apply wp_when
  · intro _
    rw [discardSegments, wp_bind]
    apply wp_clListInit h.tidy.up hL
    intro c hc
    rw [wp_bind]
    apply wp_whileItem_empty h.tidy.up hL hc
    intro _
    exact hrest
  · exact fun _ => hrest

/-! ### Closing -/

/-- What a close makes of the entries: the one at position `k` is a file, and another file of its serial number is
discarded. -/
structure Replaced (E : List Entry) (k : Nat) (e : Entry) (E' : List Entry) : Prop where
  entry : E'[k]? = some { e with state := .closed }
  others : ∀ j, j ≠ k → E'[j]? = E[j]? ∨
    ∃ o, E[j]? = some o ∧ o.state = .closed ∧ o.serialno = e.serialno ∧ E'[j]? = some { o with state := .dead }

/-- The header of a handle that is closed has got its size. -/
theorem Catalogue.wp_writeSize {fd size : Nat} {Q : Unit → St → Prop} (h : Catalogue g s sb E) (hk : E[k]? = some e)
    (hstate : e.state = .held fd) (hQ : ∀ s', Catalogue g s' sb (E.set k { e with state := .sized }) → Q () s') :
    wp (clDevWrite g (blockDataAddr e.hdr + hdrCloseOffset) (le32 size)) Q R s := by
  have hsound := h.sound e (List.mem_of_getElem? hk)
  have hfile := hsound.file BlockStatus.opened (by rw [hstate]; rfl)
  have hnoSize := hsound.noSize fd hstate
  have hlive : Live (blk s.flash e.hdr) := .inr hfile.file.status
  have haddr : blockDataAddr e.hdr + hdrCloseOffset = 128 * e.hdr + 34 := by
    show e.hdr * 128 + 6 + 28 = _
    omega
  have hlength : (le32 size).length = 4 := rfl
  rw [haddr]
  apply wp_write_data h.tidy hfile.file.lt hlive (by omega) (by omega)
  -- the bytes of the size are still erased
  · apply fits_of_blank
    intro i hi
    exact hnoSize (34 + i) (by omega) (by omega)
  intro s' hw
  have hx : EntryState.sized.IsStep := ⟨EntryState.noConfusion, fun _ => EntryState.noConfusion⟩
  have hlist : blk s'.flash e.list = blk s.flash e.list := hw.other _ hfile.ne.symm
  have hhdr : ∀ i, i < 34 → blk s'.flash e.hdr i = blk s.flash e.hdr i := fun i hi => hw.get_of_lt (by omega) _
  apply hQ
  apply h.rewrite hk hx EntryState.noConfusion (by rw [hstate]; rfl) (fun _ => by rw [hstate]; rfl) hw.tidy
  · refine (hw.frame hlive (by omega)).mono ?_
    rintro c rfl
    exact Entry.hdr_mem_blocks (by rw [hstate]; rfl)
  -- the rest of the header is as it was
  · refine ⟨fun st hst => ?_, fun _ => EntryState.noConfusion, EntryState.noConfusion⟩
    obtain rfl : BlockStatus.opened = st := Option.some.inj hst
    refine ⟨⟨hfile.file.pos, hfile.file.lt, ?_, ?_, ?_, ?_, ?_, ?_, ?_, ?_⟩, ?_⟩
    · rw [← hfile.file.serialno]
      exact u32_congr fun i hi => hhdr _ (by omega)
    · rw [← hfile.file.type]
      exact hhdr 4 (by omega)
    · rw [← hfile.file.status]
      exact hhdr 5 (by omega)
    · rw [← hfile.file.content]
      exact u16_congr fun i hi => hhdr _ (by omega)
    · exact hfile.file.list.congr fun c hc i _ => by rw [List.mem_singleton.mp hc, hlist]
    · exact fun j hj => absurd hj (Nat.not_lt_zero j)
    · intro c hc
      rw [List.mem_singleton.mp hc, hlist]
      exact hfile.list_status
    · exact fun j _ hj => absurd hj (Nat.not_lt_zero j)
    · exact hfile.stored.congr fun i _ hi => hhdr i (by omega)

theorem EntryState.isStep_closing : EntryState.closing.IsStep :=
  ⟨EntryState.noConfusion, fun _ => EntryState.noConfusion⟩

theorem EntryState.isStep_closed : EntryState.closed.IsStep :=
  ⟨EntryState.noConfusion, fun _ => EntryState.noConfusion⟩

theorem EntryState.isStep_leaving (segments : Bool) : (EntryState.leaving segments).IsStep :=
  ⟨EntryState.noConfusion, fun _ => EntryState.noConfusion⟩

/-- The blocks are closed between two writes of the status. -/
theorem Catalogue.wp_marked {Q : Unit → St → Prop} (h : Catalogue g s sb E) (hk : E[k]? = some e)
    (hstate : e.state = .sized) (hQ : ∀ s', Catalogue g s' sb (E.set k { e with state := .marked }) → Q () s') :
    wp (clSerialnoSetstatus g (addrOf sb (k + 1)) SnStatus.closing >>= fun _ => markFileClosed g e.hdr) Q R s := by
  have hlt : k < E.length := (List.getElem?_eq_some_iff.mp hk).1
  rw [wp_bind]
  apply h.wp_setState (x := .closing) hk EntryState.isStep_closing
  · rw [hstate]
    decide
  · rw [hstate]
    exact fun st hst => hst
  · exact EntryState.noConfusion
  intro s₁ h1
  apply h1.wp_markFileClosed (e := { e with state := .closing }) (List.getElem?_set_self hlt) rfl
  intro s₂ h2
  rw [List.set_set] at h2
  exact hQ s₂ h2

/-- The file has no older version. -/
theorem Catalogue.wp_closeNew {Q : Unit → St → Prop} (h : Catalogue g s sb E) (hk : E[k]? = some e)
    (hstate : e.state = .sized) (hnone : ∀ o ∈ E, ¬(o.state = .closed ∧ o.serialno = e.serialno))
    (hQ : ∀ s' E', Catalogue g s' sb E' → Replaced E k e E' → Q () s') :
    wp (clSerialnoSetstatus g (addrOf sb (k + 1)) SnStatus.closing >>= fun _ => markFileClosed g e.hdr >>= fun _ =>
      clSerialnoSetstatus g (addrOf sb (k + 1)) SnStatus.closed) Q R s := by
  have hlt : k < E.length := (List.getElem?_eq_some_iff.mp hk).1
  have hmarked := h.wp_marked (R := R) hk hstate
    (Q := fun _ s' => wp (clSerialnoSetstatus g (addrOf sb (k + 1)) SnStatus.closed) Q R s') ?_
  · rw [wp_bind] at hmarked ⊢
    exact wp_mono hmarked (fun _ s' h' => by rw [wp_bind]; exact h') fun _ => id
  intro s₂ h2
  apply h2.wp_setState (x := .closed) (List.getElem?_set_self hlt) EntryState.isStep_closed
    (show SnStatus.closed &&& SnStatus.closing = SnStatus.closed by decide) (fun st hst => hst)
  · intro _ j y hj hne hclosed hserial
    rw [List.getElem?_set_ne hne.symm] at hj
    exact hnone y (List.mem_of_getElem? hj) ⟨hclosed, hserial⟩
  intro s₃ h3
  rw [List.set_set] at h3
  apply hQ s₃ _ h3
  exact ⟨List.getElem?_set_self hlt, fun j hne => .inl (List.getElem?_set_ne hne.symm)⟩

/-- The older version is discarded when the new one has been closed. -/
theorem Catalogue.wp_finishClose {Q : Unit → St → Prop} {j : Nat} {o : Entry} (h : Catalogue g s sb E)
    (hk : E[k]? = some e) (hstate : e.state = .sized) (hj : E[j]? = some o) (hold : o.state = .closed)
    (hserial : o.serialno = e.serialno) (hQ : ∀ s' E', Catalogue g s' sb E' → Replaced E k e E' → Q () s') :
    wp (finishClose g SnStatus.discardingHdrList e.hdr o.hdr (addrOf sb (k + 1)) (addrOf sb (j + 1)) false) Q R s := by
  have hlt : k < E.length := (List.getElem?_eq_some_iff.mp hk).1
  have hltj : j < E.length := (List.getElem?_eq_some_iff.mp hj).1
  have hjk : j ≠ k := by
    rintro rfl
    obtain rfl := Option.some.inj (hk.symm.trans hj)
    exact nomatch hold.symm.trans hstate
  rw [finishClose, if_neg Bool.false_ne_true]
  -- `mark_file_closed` is attempted, and does not fail
  have hmarked := h.wp_marked (R := fun _ => False) hk hstate
    (Q := fun _ s' => Catalogue g s' sb (E.set k { e with state := .marked })) fun _ => id
  rw [wp_bind] at hmarked ⊢
  refine wp_mono hmarked (fun _ s₁ h1 => ?_) fun _ => False.elim
  rw [wp_bind, wp_attempt]
  refine wp_mono h1 (fun _ s₂ h2 => ?_) fun _ => False.elim
  show wp (clSerialnoSetstatus g (addrOf sb (j + 1)) SnStatus.discardingHdrList >>= _) Q R s₂
  rw [wp_bind]
  apply h2.wp_setState (x := .leaving false) (e := o) ((List.getElem?_set_ne hjk.symm).trans hj)
    (EntryState.isStep_leaving false)
  · rw [hold]
    decide
  · rw [hold]
    exact fun st hst => hst
  · exact EntryState.noConfusion
  intro s₃ h3
  have hk3 : ((E.set k { e with state := EntryState.marked }).set j { o with state := .leaving false })[k]? =
      some { e with state := EntryState.marked } := by
    rw [List.getElem?_set_ne hjk, List.getElem?_set_self hlt]
  rw [wp_bind]
  apply h3.wp_setState (x := .closed) hk3 EntryState.isStep_closed
    (show SnStatus.closed &&& SnStatus.closing = SnStatus.closed by decide) (fun st hst => hst)
  · intro _ i y hi hne hclosed hserial'
    by_cases hij : i = j
    · subst hij
      rw [List.getElem?_set_self (by rwa [List.length_set])] at hi
      obtain rfl := Option.some.inj hi
      exact nomatch hclosed
    · rw [List.getElem?_set_ne (Ne.symm hij), List.getElem?_set_ne hne.symm] at hi
      exact hij (h.unique i j y o hi hj hclosed hold (hserial'.trans hserial.symm))
  intro s₄ h4
  have hj4 : (((E.set k { e with state := EntryState.marked }).set j { o with state := .leaving false }).set k
      { e with state := EntryState.closed })[j]? = some { o with state := .leaving false } := by
    rw [List.getElem?_set_ne hjk.symm, List.getElem?_set_self (by rwa [List.length_set])]
  apply h4.wp_cleanupFile (e := { o with state := .leaving false }) hj4 (show _ = EntryState.leaving false from rfl)
  intro s₅ h5
  apply hQ s₅ _ h5
  refine ⟨?_, fun i hne => ?_⟩
  · rw [List.getElem?_set_ne hjk, List.getElem?_set_self (by simpa using hlt)]
  · by_cases hij : i = j
    · subst hij
      refine .inr ⟨o, hj, hold, hserial, ?_⟩
      rw [List.getElem?_set_self (by simpa using hltj)]
    · left
      rw [List.getElem?_set_ne (Ne.symm hij), List.getElem?_set_ne hne.symm, List.getElem?_set_ne (Ne.symm hij),
        List.getElem?_set_ne hne.symm]

/-- Closing the handle of an entry. -/
theorem Catalogue.wp_clFileClose {fd : Nat} {hd : Handle} {Q : Unit → St → Prop} (h : Catalogue g s sb E)
    (hk : E[k]? = some e) (hstate : e.state = .held fd) (hholds : Holds hd sb k e) (hw : hd.amode.w = true)
    (hQ : ∀ s' E', Catalogue g s' sb E' → Replaced E k e E' → Q () s') : wp (clFileClose g hd) Q R s := by
  have hlt : k < E.length := (List.getElem?_eq_some_iff.mp hk).1
  have hsn := (h.serials e (List.mem_of_getElem? hk)).1
  rw [clFileClose, if_pos hw, wp_bind, clFileSavesegment, if_neg hholds.clean, wp_pure]
  show wp (clDevWrite g (blockDataAddr hd.hdrBlock + hdrCloseOffset) _ >>= _) Q R s
  rw [hholds.hdr, hholds.serialno, hholds.addr, wp_bind]
  apply h.wp_writeSize hk hstate
  intro s₁ h1
  have hk1 : (E.set k { e with state := EntryState.sized })[k]? = some { e with state := EntryState.sized } :=
    List.getElem?_set_self hlt
  -- the entry that was held has not been a file before either
  have hreplaced : ∀ E', Replaced (E.set k { e with state := EntryState.sized }) k { e with state := .sized } E' →
      Replaced E k e E' := by
    intro E' hr
    refine ⟨hr.entry, fun j hne => ?_⟩
    have hj := hr.others j hne
    rwa [List.getElem?_set_ne hne.symm] at hj
  rw [wp_bind]
  apply wp_clSerialnoGet_entry h1 hsn
  · intro j o hj hstatus hserial
    apply h1.wp_finishClose (e := { e with state := .sized }) hk1 rfl hj (EntryState.status_eq_closed.mp hstatus) hserial
    exact fun s' E' h' hr => hQ s' E' h' (hreplaced E' hr)
  · intro hnone
    apply h1.wp_closeNew (e := { e with state := .sized }) hk1 rfl
    · intro o ho ⟨hclosed, hserial⟩
      exact hnone o ho ⟨EntryState.status_eq_closed.mpr hclosed, hserial⟩
    · exact fun s' E' h' hr => hQ s' E' h' (hreplaced E' hr)

/-! ### Removing -/

theorem Catalogue.wp_clFileRemove {Q : Unit → St → Prop} (h : Catalogue g s sb E) (hmem : e ∈ E)
    (hclosed : e.state = .closed)
    (hQ : ∀ k s', E[k]? = some e → Catalogue g s' sb (E.set k { e with state := .dead }) → Q () s') :
    wp (clFileRemove g e.serialno) Q R s := by
  rw [clFileRemove, wp_bind]
  apply wp_clSerialnoGet_entry h (h.serials e hmem).1
  · intro k e' hk hstatus hserial
    have hclosed' := EntryState.status_eq_closed.mp hstatus
    obtain ⟨j, hj⟩ := List.getElem?_of_mem hmem
    obtain rfl : j = k := h.unique j k e e' hj hk hclosed hclosed' hserial.symm
    obtain rfl := Option.some.inj (hj.symm.trans hk)
    have hlt : j < E.length := (List.getElem?_eq_some_iff.mp hk).1
    show wp (clSerialnoSetstatus g (addrOf sb (j + 1)) SnStatus.discarding >>= _) Q R s
    rw [wp_bind]
    apply h.wp_setState (x := .leaving true) hk (EntryState.isStep_leaving true)
    · rw [hclosed]
      decide
    · rw [hclosed]
      exact fun st hst => hst
    · exact EntryState.noConfusion
    intro s₁ h1
    apply h1.wp_cleanupFile (e := { e with state := .leaving true }) (List.getElem?_set_self hlt)
      (show _ = EntryState.leaving true from rfl)
    intro s₂ h2
    rw [List.set_set] at h2
    exact hQ j s₂ hk h2
  · intro hnone
    exact absurd ⟨EntryState.status_eq_closed.mpr hclosed, rfl⟩ (hnone e hmem)

/-- A file that a handle is writing is not removed. -/
theorem Catalogue.wp_cafsLiteUnlink {path : Path} {Q : Ret Unit → St → Prop} (h : Catalogue g s sb E)
    (hpath : Addressed path.chars) (herror : ∀ err, Q (.error err) s)
    (hok : ∀ k e s', E[k]? = some e → e.state = .closed → e.name = path.chars →
      (∀ x ∈ E, ¬(x.state.status = SnStatus.opened ∧ x.serialno = e.serialno)) →
      Catalogue g s' sb (E.set k { e with state := .dead }) → Q (.ok ()) s') :
    wp (cafsLiteUnlink g path) Q R s := by
  rw [cafsLiteUnlink, wp_bind, wp_attempt]
  apply wp_clDirLookup h hpath
  · intro e he hclosed hname
    show wp (clSerialnoGet g e.serialno SnStatus.opened >>= _) Q R s
    rw [wp_bind]
    apply wp_clSerialnoGet_entry h (h.serials e he).1
    · intro _ _ _ _ _
      show wp (pure _) Q R s
      rw [wp_pure]
      exact herror _
    · intro hnone
      apply wp_orErrno
      apply h.wp_clFileRemove he hclosed
      exact fun k s' hk h' => hok k e s' hk hclosed hname hnone h'
  · intro _
    show wp (pure _) Q R s
    rw [wp_pure]
    exact herror _

end

end CoActionOS.Cafs
