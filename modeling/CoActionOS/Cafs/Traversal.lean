import CoActionOS.Cafs.List
import CoActionOS.Cafs.Medium
import CoActionOS.Lib.Backlinks
import CoActionOS.Lib.Run

/-!
# Going through a list of any contents

The links of a list are taken from the medium.  Each traversal compares the `prev` link of a block with the block before, which
is why it is a walk as in `Backlinked`, and `BLOCK_INVALID` is the place that no block has.

A block is visited when it has passed that check.  The steps of the traversals are those of `cl_list_getnext` and of the loops
of `cl_list_setblockstatus`; a step's event is the block that is visited in it.
-/

namespace CoActionOS.Cafs

variable (g : Geometry)

/-! ### The steps -/

/-- One call of `cl_list_getnext` that returns an item; the event is the block that it has gone on to. -/
def getnextStep (s : St) (l : ClList) (_ : Unit) : Option (ClList × Option Nat) :=
  match clListGetnext g l s with
  | .ok (.item, l') _ => some (l', if l'.currentBlock = l.currentBlock then none else some l'.currentBlock)
  | _ => none

/-- One round of the forward pass, with `tmp_block` and `last_block`. -/
def forwardStep (s : St) (t : Nat × Nat) (_ : Unit) : Option ((Nat × Nat) × Option Nat) :=
  if t.1 = blockInvalid then none
  else
    match clDevRead g (listHdrAddr t.1) 4 s with
    | .ok d _ => if (ListHdr.ofBytes d).prev ≠ t.2 then none else some (((ListHdr.ofBytes d).next, t.1), some t.1)
    | _ => none

/-- One round of the backward pass, with the medium and `tmp_block`; there is none after a status could not be written. -/
def backStep (status : UInt8) (t : St × Option Nat) (_ : Unit) : Option ((St × Option Nat) × Option Nat) :=
  match t.2 with
  | none => none
  | some b =>
    if b = blockInvalid then none
    else
      match clDevRead g (listHdrAddr b) 4 t.1 with
      | .ok d s =>
        match clBlockSetstatus g b status s with
        | .ok _ s => some ((s, some (ListHdr.ofBytes d).prev), some b)
        | .error s => some ((s, none), some b)
        | .hang => none
      | _ => none

/-- The blocks of the device, those of the scratch area included. -/
def Geometry.blocks : Nat := g.total + g.eraseable

/-- In every run no block is visited twice, so that there are at most as many visits as blocks. -/
def VisitsOnce {τ : Type} (step : τ → Unit → Option (τ × Option Nat)) (t : τ) (visited : List Nat) : Prop :=
  ∀ es t', Run step (fun _ _ => True) t es t' →
    (visited ++ es).Nodup ∧ (∀ b ∈ visited ++ es, b < g.blocks) ∧ (visited ++ es).length ≤ g.blocks

/-- `while( cl_list_getnext(...) == 0 );` -/
def iterate (n : Nat) (l : ClList) : Cmd St (Sum Empty (Next × ClList × Unit)) :=
  whileItem g (fun l t => return .next (l, t)) n l ()

/-! ### The links -/

/-- The links of a block on the medium. -/
def linksOf (s : St) (b : Nat) : ListHdr := listHdr (blk s.flash b)

variable {g} {s s' : St} {b prev n : Nat} {bs : List Nat} {l l' : ClList} {d : Bytes} {status : UInt8}

theorem clDevRead_ok {loc : Nat} (h : clDevRead g loc n s = .ok d s') :
    s' = s ∧ loc + n ≤ g.size ∧ d = fun i => if i < n then s.flash.get (loc + i) else 0 := by
  unfold clDevRead at h
  split_ifs at h with hreaches
  cases h
  unfold St.reaches at hreaches
  exact ⟨rfl, of_decide_eq_true (Bool.and_eq_true_iff.mp hreaches).2, rfl⟩

theorem hdr_congr {d d' : Bytes} (h : ∀ i < 4, d i = d' i) : ListHdr.ofBytes d = ListHdr.ofBytes d' := by
  unfold ListHdr.ofBytes
  have hnext : u16 d 0 = u16 d' 0 := u16_congr fun i hi => h (0 + i) (by omega)
  have hprev : u16 d 2 = u16 d' 2 := u16_congr fun i hi => h (2 + i) (by omega)
  rw [hnext, hprev]

/-- The passes read the links only. -/
theorem read_hdr (h : clDevRead g (listHdrAddr b) 4 s = .ok d s') : s' = s ∧ b < g.blocks ∧ ListHdr.ofBytes d = linksOf s b := by
  obtain ⟨rfl, hsize, rfl⟩ := clDevRead_ok h
  rw [g.size_eq] at hsize
  unfold listHdrAddr blockHeaderSize blockSize at *
  refine ⟨rfl, by unfold Geometry.blocks; omega, hdr_congr fun i hi => ?_⟩
  rw [if_pos hi, blk_of_lt (by unfold blockHeaderSize; omega)]
  congr 1
  unfold blockHeaderSize
  omega

theorem blockLoad_ok (h : clBlockLoad g b s = .ok d s') : s' = s ∧ b < g.blocks ∧ d = blk s.flash b := by
  unfold clBlockLoad at h
  split_ifs at h with hinvalid
  · exact nomatch h
  · obtain ⟨rfl, hsize, rfl⟩ := clDevRead_ok h
    rw [g.size_eq] at hsize
    unfold blockAddr blockSize at hsize
    exact ⟨rfl, by unfold Geometry.blocks; omega, rfl⟩

/-- A status is not among the links of any block. -/
theorem linksOf_setstatus (h : clBlockSetstatus g b status s = .ok () s') (c : Nat) : linksOf s' c = linksOf s c := by
  unfold clBlockSetstatus at h
  split_ifs at h with hinvalid
  · exact nomatch h
  · unfold clDevWrite at h
    split_ifs at h
    cases h
    refine hdr_congr fun i hi => ?_
    rw [blk_of_lt (by unfold blockHeaderSize; omega), blk_of_lt (by unfold blockHeaderSize; omega), get_put_of_lt]
    unfold blockAddr blockSize blockHeaderSize
    show _ ∨ 128 * b + 5 + 1 ≤ _
    omega

/-- A visited block is one of the device, and it is linked back to the one before. -/
structure Visited (g : Geometry) (s : St) (bs : List Nat) : Prop where
  linked : Backlinked (fun b => (linksOf s b).prev) blockInvalid bs
  lt : ∀ b ∈ bs, b < g.blocks

theorem Visited.nil : Visited g s [] := ⟨trivial, fun _ hb => absurd hb List.not_mem_nil⟩

theorem blocks_le : g.blocks ≤ blockInvalid := g.blocks_le

theorem Visited.cons (h : Visited g s bs) (hlt : b < g.blocks) (hprev : (linksOf s b).prev = lastVisited blockInvalid bs) :
    Visited g s (b :: bs) where
  linked := ⟨hprev, Nat.ne_of_lt (Nat.lt_of_lt_of_le hlt blocks_le), h.linked⟩
  lt c hc := by
    rcases List.mem_cons.mp hc with rfl | hc
    · exact hlt
    · exact h.lt c hc

theorem Visited.length_le (h : Visited g s bs) : bs.length ≤ g.blocks := h.linked.length_le h.lt

/-- The visits of a run, the last one in front, are as they should be in every state of it. -/
theorem visitsOnce_of {τ : Type} {step : τ → Unit → Option (τ × Option Nat)} {t : τ} {visited : List Nat} {s : St}
    (h : ∀ es t', Run step (fun _ _ => True) t es t' → Visited g s (visited ++ es).reverse) : VisitsOnce g step t visited := by
  intro es t' hrun
  have hvisited := h es t' hrun
  refine ⟨List.nodup_reverse.mp hvisited.linked.nodup, fun b hb => hvisited.lt b (List.mem_reverse.mpr hb), ?_⟩
  have hlength := hvisited.length_le
  rwa [List.length_reverse] at hlength

/-! ### The forward pass -/

/-- The loop is in step with the blocks visited so far. -/
theorem forwardStep_spec {t t' : Nat × Nat} {e : Option Nat} (h : forwardStep g s t () = some (t', e)) :
    e = some t.1 ∧ t'.2 = t.1 ∧ t.1 < g.blocks ∧ (linksOf s t.1).prev = t.2 := by
  unfold forwardStep at h
  split_ifs at h with hinvalid
  split at h
  · next d s' hread =>
    obtain ⟨rfl, hlt, hhdr⟩ := read_hdr hread
    split_ifs at h with hprev
    cases h
    exact ⟨rfl, rfl, hlt, hhdr ▸ not_not.mp hprev⟩
  · exact nomatch h

theorem visitsOnce_forward (s : St) (start : Nat) : VisitsOnce g (forwardStep g s) (start, blockInvalid) [] := by
  refine visitsOnce_of (s := s) fun es t' hrun => ?_
  have hinv := hrun.invariant (fun es t => Visited g s es.reverse ∧ t.2 = lastVisited blockInvalid es.reverse)
    ⟨Visited.nil, rfl⟩ ?_
  · exact hinv.1
  · rintro es t a t' e ⟨hvisited, hlast⟩ - hstep
    obtain ⟨rfl, hlast', hlt, hprev⟩ := forwardStep_spec hstep
    rw [Option.toList_some, List.reverse_append, List.reverse_singleton]
    exact ⟨hvisited.cons hlt (hprev.trans hlast), hlast'⟩

theorem clDevRead_cases (g : Geometry) (loc n : Nat) (s : St) :
    (∃ d, clDevRead g loc n s = .ok d s) ∨ clDevRead g loc n s = .error s := by
  unfold clDevRead
  split_ifs
  · exact Or.inl ⟨_, rfl⟩
  · exact Or.inr rfl

/-- The loop does what its steps say. -/
theorem lastBlock_succ (g : Geometry) (n b last : Nat) (s : St) : lastBlock g (n + 1) b last s =
    match forwardStep g s (b, last) () with
    | some (t, _) => lastBlock g n t.1 t.2 s
    | none => if b = blockInvalid then .ok last s else .error s := by
  unfold forwardStep
  rw [lastBlock]
  dsimp only
  by_cases hinvalid : b = blockInvalid
  · rw [if_pos hinvalid, if_pos hinvalid]
    exact (if_pos hinvalid).symm
  · rw [if_neg hinvalid, if_neg hinvalid]
    show Cmd.bind _ _ s = _
    unfold Cmd.bind
    rcases clDevRead_cases g (listHdrAddr b) 4 s with ⟨d, hread⟩ | hread
    · rw [hread]
      dsimp only
      split_ifs
      · rfl
      · rfl
    · rw [hread]
      exact (if_neg hinvalid).symm

/-- It ends, with the block that was visited last unless it fails. -/
theorem lastBlock_spec (hvisited : Visited g s bs) (hn : g.blocks < n + bs.length) (b : Nat) :
    (∃ bs', lastBlock g n b (lastVisited blockInvalid bs) s = .ok (lastVisited blockInvalid bs') s ∧ Visited g s bs') ∨
      lastBlock g n b (lastVisited blockInvalid bs) s = .error s := by
  induction n generalizing b bs with
  | zero =>
    have hlength := hvisited.length_le
    omega
  | succ n ih =>
    rw [lastBlock_succ]
    cases hstep : forwardStep g s (b, lastVisited blockInvalid bs) () with
    | none =>
      dsimp only
      split_ifs
      · exact Or.inl ⟨bs, rfl, hvisited⟩
      · exact Or.inr rfl
    | some p =>
      obtain ⟨⟨next, last⟩, e⟩ := p
      obtain ⟨-, rfl, hlt, hprev⟩ := forwardStep_spec hstep
      exact ih (hvisited.cons hlt hprev) (by rw [List.length_cons]; omega) next

/-! ### The backward pass -/

theorem clBlockSetstatus_cases (g : Geometry) (b : Nat) (status : UInt8) (s : St) :
    ∃ s', clBlockSetstatus g b status s = .ok () s' ∨ clBlockSetstatus g b status s = .error s' := by
  unfold clBlockSetstatus
  by_cases hinvalid : b = blockInvalid
  · rw [if_pos hinvalid]
    exact ⟨s, Or.inr rfl⟩
  · rw [if_neg hinvalid]
    unfold clDevWrite
    split_ifs
    · exact ⟨_, Or.inl rfl⟩
    · exact ⟨_, Or.inr rfl⟩
    · exact ⟨_, Or.inr rfl⟩

/-- One round goes back along the `prev` link; the links stay as they are. -/
theorem backStep_spec {t t' : St × Option Nat} {e : Option Nat} (h : backStep g status t () = some (t', e)) :
    ∃ b, t.2 = some b ∧ b ≠ blockInvalid ∧ e = some b ∧
      (t'.2 = none ∨ t'.2 = some (linksOf t.1 b).prev ∧ ∀ c, linksOf t'.1 c = linksOf t.1 c) := by
  obtain ⟨s, b⟩ := t
  unfold backStep at h
  cases b with
  | none => exact nomatch h
  | some b =>
    dsimp only at h
    split_ifs at h with hinvalid
    split at h
    · next d s' hread =>
      obtain ⟨rfl, -, hhdr⟩ := read_hdr hread
      split at h
      · next hset =>
        cases h
        exact ⟨b, rfl, hinvalid, rfl, Or.inr ⟨congrArg (fun hdr => some hdr.prev) hhdr, linksOf_setstatus hset⟩⟩
      · cases h
        exact ⟨b, rfl, hinvalid, rfl, Or.inl rfl⟩
      · exact nomatch h
    · exact nomatch h

/-- The way back: what is left of the blocks that were visited on the way there. -/
def Returning (s : St) (bs es : List Nat) (t : St × Option Nat) : Prop :=
  ∃ rest, bs = es ++ rest ∧ (t.2 = none ∨ t.2 = some (lastVisited blockInvalid rest) ∧ ∀ c, linksOf t.1 c = linksOf s c)

theorem Returning.step (hvisited : Visited g s bs) {es : List Nat} {t t' : St × Option Nat} {e : Option Nat}
    (h : Returning s bs es t) (hstep : backStep g status t () = some (t', e)) : Returning s bs (es ++ e.toList) t' := by
  obtain ⟨rest, hbs, hat⟩ := h
  obtain ⟨b, hb, hinvalid, rfl, hnext⟩ := backStep_spec hstep
  rcases hat with hnone | ⟨hsome, hsame⟩
  · exact absurd (hnone.symm.trans hb) (by simp)
  · obtain rfl : lastVisited blockInvalid rest = b := Option.some.inj (hsome.symm.trans hb)
    cases rest with
    | nil => exact absurd rfl hinvalid
    | cons b rest =>
      refine ⟨rest, ?_, hnext.imp_right fun hnext => ⟨?_, fun c => (hnext.2 c).trans (hsame c)⟩⟩
      · rw [hbs, List.append_assoc]
        rfl
      · have hlinked := (hbs ▸ hvisited.linked).of_append.1
        rw [hnext.1, ← hlinked]
        exact congrArg (fun hdr => some (ListHdr.prev hdr)) (hsame b)

theorem visitsOnce_back (hvisited : Visited g s bs) (status : UInt8) :
    VisitsOnce g (backStep g status) (s, some (lastVisited blockInvalid bs)) [] := by
  intro es t' hrun
  have hstart : Returning s bs [] (s, some (lastVisited blockInvalid bs)) := ⟨bs, rfl, Or.inr ⟨rfl, fun _ => rfl⟩⟩
  obtain ⟨rest, hbs, -⟩ := hrun.invariant (Returning s bs) hstart fun _ _ _ _ _ hinv _ hstep => hinv.step hvisited hstep
  have hnodup := hvisited.linked.nodup
  have hlength := hvisited.length_le
  rw [hbs] at hnodup hlength
  rw [List.length_append] at hlength
  refine ⟨hnodup.of_append_left, fun b hb => hvisited.lt b (hbs ▸ List.mem_append_left _ hb), ?_⟩
  rw [List.nil_append]
  omega

theorem setStatusBack_succ (g : Geometry) (status : UInt8) (n b : Nat) (s : St) : setStatusBack g status (n + 1) b s =
    match backStep g status (s, some b) () with
    | some ((s', some b'), _) => setStatusBack g status n b' s'
    | some ((s', none), _) => .error s'
    | none => if b = blockInvalid then .ok () s else .error s := by
  unfold backStep
  rw [setStatusBack]
  dsimp only
  by_cases hinvalid : b = blockInvalid
  · rw [if_pos hinvalid, if_pos hinvalid]
    exact (if_pos hinvalid).symm
  · rw [if_neg hinvalid, if_neg hinvalid]
    show Cmd.bind _ _ s = _
    unfold Cmd.bind
    rcases clDevRead_cases g (listHdrAddr b) 4 s with ⟨d, hread⟩ | hread
    · rw [hread]
      dsimp only
      show Cmd.bind _ _ s = _
      unfold Cmd.bind
      obtain ⟨s', hset | hset⟩ := clBlockSetstatus_cases g b status s
      · rw [hset]
      · rw [hset]
    · rw [hread]
      exact (if_neg hinvalid).symm

theorem setStatusBack_returns (hvisited : Visited g s bs) (status : UInt8) {t : St × Option Nat} {es : List Nat}
    (h : Returning s bs es t) (hn : bs.length < n + es.length) : ∀ b, t.2 = some b → setStatusBack g status n b t.1 ≠ .hang := by
  induction n generalizing t es with
  | zero =>
    obtain ⟨rest, rfl, -⟩ := h
    rw [List.length_append] at hn
    omega
  | succ n ih =>
    obtain ⟨s', b'⟩ := t
    rintro b rfl
    dsimp only
    rw [setStatusBack_succ]
    cases hstep : backStep g status (s', some b) () with
    | none =>
      dsimp only
      split_ifs <;> simp
    | some p =>
      obtain ⟨⟨s'', b''⟩, e⟩ := p
      have hnext := h.step hvisited hstep
      cases b'' with
      | none => simp
      | some b'' =>
        obtain ⟨b, -, -, rfl, -⟩ := backStep_spec hstep
        exact ih hnext (by rw [Option.toList_some, List.length_append, List.length_singleton]; omega) b'' rfl

theorem blocks_lt_loopFuel (g : Geometry) : g.blocks < loopFuel := by
  have hle := g.blocks_le
  unfold Geometry.blocks loopFuel
  omega

theorem setblockstatus_returns (s : St) (start : Nat) (status : UInt8) : clListSetblockstatus g start status s ≠ .hang := by
  have hfuel := blocks_lt_loopFuel g
  unfold clListSetblockstatus
  generalize loopFuel = n at hfuel
  show Cmd.bind _ _ s ≠ _
  unfold Cmd.bind
  have hforward := lastBlock_spec (Visited.nil (g := g) (s := s)) (n := n) (by rwa [List.length_nil]) start
  change (∃ bs', lastBlock g n start blockInvalid s = _ ∧ _) ∨ lastBlock g n start blockInvalid s = _ at hforward
  rcases hforward with ⟨bs, hok, hvisited⟩ | herror
  · rw [hok]
    have hlength := hvisited.length_le
    have hstart : Returning s bs [] (s, some (lastVisited blockInvalid bs)) := ⟨bs, rfl, Or.inr ⟨rfl, fun _ => rfl⟩⟩
    exact setStatusBack_returns hvisited status hstart (by rw [List.length_nil]; omega) _ rfl
  · rw [herror]
    simp

/-! ### `cl_list_getnext` -/

/-- The cursor is at the block that was visited last, with its copy of it. -/
structure Cursor (g : Geometry) (s : St) (bs : List Nat) (l : ClList) : Prop where
  visited : Visited g s bs
  current : bs.head? = some l.currentBlock
  links : listHdr l.block = linksOf s l.currentBlock
  item : l.currentItem ≤ totalItems

theorem listUpdate_ok (h : listUpdate g l prev s = .ok (true, l') s') : s' = s ∧ l'.currentItem = 0 ∧
    l'.currentBlock = l.currentBlock ∧ l.currentBlock < g.blocks ∧ listHdr l'.block = linksOf s l.currentBlock ∧
    (linksOf s l.currentBlock).prev = prev := by
  unfold listUpdate at h
  change Cmd.bind _ _ s = _ at h
  unfold Cmd.bind Cmd.attempt at h
  cases hload : clBlockLoad g l.currentBlock s with
  | ok d s'' =>
    obtain ⟨rfl, hlt, rfl⟩ := blockLoad_ok hload
    rw [hload] at h
    dsimp only at h
    split_ifs at h with hbad
    · exact nomatch h
    · cases h
      exact ⟨rfl, rfl, rfl, hlt, rfl, (not_not.mp (not_or.mp hbad).1).symm⟩
  | error s'' =>
    rw [hload] at h
    exact nomatch h
  | hang =>
    rw [hload] at h
    exact nomatch h

theorem init_ok {start : Nat} (h : clListInit g start s = .ok l s') : s' = s ∧ l.currentBlock = start ∧ Cursor g s [start] l := by
  unfold clListInit at h
  change Cmd.bind _ _ s = _ at h
  unfold Cmd.bind at h
  split at h
  · next p s'' hupdate =>
    obtain ⟨ok, l''⟩ := p
    cases ok with
    | false => exact nomatch h
    | true =>
      cases h
      obtain ⟨rfl, hitem, hcurrent, hlt, hlinks, hprev⟩ := listUpdate_ok hupdate
      exact ⟨rfl, hcurrent, Visited.nil.cons hlt hprev, congrArg some hcurrent.symm, hcurrent ▸ hlinks, hitem ▸ Nat.zero_le _⟩
  · exact nomatch h
  · exact nomatch h

/-- Either the next item is in the same block, or the next block is visited. -/
theorem getnext_ok (h : clListGetnext g l s = .ok (.item, l') s') : s' = s ∧
    ((l'.currentBlock = l.currentBlock ∧ l'.block = l.block ∧ l'.currentItem = l.currentItem + 1 ∧ l.currentItem < totalItems) ∨
    (l.currentItem + 1 = totalItems ∧ l'.currentItem = 0 ∧ l'.currentBlock ≠ l.currentBlock ∧ l'.currentBlock < g.blocks ∧
      listHdr l'.block = linksOf s l'.currentBlock ∧ (linksOf s l'.currentBlock).prev = l.currentBlock)) := by
  unfold clListGetnext at h
  dsimp only at h
  split_ifs at h with hitem hfree
  · exact nomatch h
  · unfold listAdvance at h
    dsimp only at h
    split_ifs at h with hlast hself
    · exact nomatch h
    · change Cmd.bind _ _ s = _ at h
      unfold Cmd.bind at h
      split at h
      · next p s'' hupdate =>
        obtain ⟨ok, l''⟩ := p
        cases ok with
        | false => exact nomatch h
        | true =>
          cases h
          obtain ⟨rfl, hzero, hcurrent, hlt, hlinks, hprev⟩ := listUpdate_ok hupdate
          dsimp only at hcurrent hlt hlinks hprev
          rw [← hcurrent] at hself hlt hlinks hprev
          exact ⟨rfl, Or.inr ⟨hlast.1, hzero, Ne.symm hself, hlt, hlinks, hprev⟩⟩
      · exact nomatch h
      · exact nomatch h
    · cases h
      exact ⟨rfl, Or.inl ⟨rfl, rfl, rfl, hitem⟩⟩
  · exact nomatch h

/-- The calls that are left at most. -/
def remaining (g : Geometry) (bs : List Nat) (l : ClList) : Nat :=
  totalItems * (g.blocks - bs.length) + (totalItems - l.currentItem)

/-- A call goes on within the block, or to one that has not been visited. -/
theorem Cursor.getnext (hcursor : Cursor g s bs l) (h : clListGetnext g l s = .ok (.item, l') s') : s' = s ∧
    ∃ bs', bs' = (if l'.currentBlock = l.currentBlock then none else some l'.currentBlock).toList ++ bs ∧ Cursor g s bs' l' ∧
      remaining g bs' l' < remaining g bs l := by
  obtain ⟨rfl, ⟨hcurrent, hblock, hitem, hlt⟩ | ⟨hlast, hzero, hne, hlt, hlinks, hprev⟩⟩ := getnext_ok h
  · refine ⟨rfl, bs, ?_, ⟨hcursor.visited, hcurrent ▸ hcursor.current, ?_, by omega⟩, ?_⟩
    · rw [if_pos hcurrent]
      rfl
    · rw [hblock, hcurrent]
      exact hcursor.links
    · unfold remaining
      omega
  · have hvisited : Visited g s' (l'.currentBlock :: bs) := hcursor.visited.cons hlt (by
      unfold lastVisited
      rw [hcursor.current]
      exact hprev)
    refine ⟨rfl, l'.currentBlock :: bs, ?_, ⟨hvisited, rfl, hlinks, by omega⟩, ?_⟩
    · rw [if_neg hne]
      rfl
    · have hlength := hvisited.length_le
      rw [List.length_cons] at hlength
      have hblocks : g.blocks - bs.length = g.blocks - (bs.length + 1) + 1 := by omega
      unfold remaining
      rw [List.length_cons, hblocks, Nat.mul_add, Nat.mul_one]
      have hpos : 0 < totalItems := by decide
      omega

theorem visitsOnce_getnext (hcursor : Cursor g s bs l) : VisitsOnce g (getnextStep g s) l bs.reverse := by
  refine visitsOnce_of (s := s) fun es l' hrun => ?_
  have hinv := hrun.invariant (fun es l => Cursor g s (bs.reverse ++ es).reverse l) (by simpa using hcursor) ?_
  · exact hinv.visited
  · intro es l a l' e hcursor _ hstep
    unfold getnextStep at hstep
    split at hstep
    · next l'' s' hnext =>
      cases hstep
      obtain ⟨-, bs', rfl, hcursor', -⟩ := hcursor.getnext hnext
      rw [← List.append_assoc, List.reverse_append]
      split_ifs at hcursor' ⊢ <;> exact hcursor'
    · exact nomatch hstep

theorem listUpdate_returns (g : Geometry) (l : ClList) (prev : Nat) (s : St) : ∃ p, listUpdate g l prev s = .ok p s := by
  unfold listUpdate
  change ∃ p, Cmd.bind _ _ s = .ok p s
  unfold Cmd.bind Cmd.attempt clBlockLoad
  split_ifs
  · exact ⟨_, rfl⟩
  · dsimp only
    rcases clDevRead_cases g (blockAddr l.currentBlock) blockSize s with ⟨d, hread⟩ | hread
    · rw [hread]
      dsimp only
      split_ifs <;> exact ⟨_, rfl⟩
    · rw [hread]
      exact ⟨_, rfl⟩

theorem getnext_returns (g : Geometry) (l : ClList) (s : St) : ∃ r l', clListGetnext g l s = .ok (r, l') s := by
  unfold clListGetnext
  dsimp only
  split_ifs
  · exact ⟨_, _, rfl⟩
  · unfold listAdvance
    dsimp only
    split_ifs
    · exact ⟨_, _, rfl⟩
    · change ∃ r l', Cmd.bind _ _ s = .ok (r, l') s
      unfold Cmd.bind
      obtain ⟨p, hupdate⟩ := listUpdate_returns g _ _ s
      rw [hupdate]
      exact ⟨_, _, rfl⟩
    · exact ⟨_, _, rfl⟩
  · exact ⟨_, _, rfl⟩

theorem iterate_returns {n : Nat} (hcursor : Cursor g s bs l) (hn : remaining g bs l < n) : iterate g n l s ≠ .hang := by
  induction n generalizing l bs with
  | zero => exact absurd hn (Nat.not_lt_zero _)
  | succ n ih =>
    unfold iterate
    rw [whileItem]
    change Cmd.bind _ _ s ≠ _
    unfold Cmd.bind
    obtain ⟨r, l', hnext⟩ := getnext_returns g l s
    rw [hnext]
    dsimp only
    split_ifs with hitem
    · subst hitem
      obtain ⟨-, bs', -, hcursor', hless⟩ := hcursor.getnext hnext
      exact ih hcursor' (by omega)
    · exact fun hhang => nomatch hhang

/-- On a medium of any contents, each traversal visits a block at most once and ends. -/
theorem traversals_end (g : Geometry) (s : St) (start : Nat) (status : UInt8) :
    (∀ l s', clListInit g start s = .ok l s' → VisitsOnce g (getnextStep g s') l [start] ∧ iterate g loopFuel l s' ≠ .hang) ∧
    VisitsOnce g (forwardStep g s) (start, blockInvalid) [] ∧
    (∀ last s', lastBlock g loopFuel start blockInvalid s = .ok last s' →
      VisitsOnce g (backStep g status) (s', some last) []) ∧
    clListSetblockstatus g start status s ≠ .hang := by
  refine ⟨fun l s' hinit => ?_, visitsOnce_forward s start, fun last s' hlast => ?_, setblockstatus_returns s start status⟩
  · obtain ⟨rfl, -, hcursor⟩ := init_ok hinit
    refine ⟨visitsOnce_getnext hcursor, iterate_returns hcursor ?_⟩
    have hle := g.blocks_le
    unfold remaining Geometry.blocks totalItems itemSize blockDataSize blockSize blockHeaderSize loopFuel
    rw [List.length_singleton]
    omega
  · have hfuel := blocks_lt_loopFuel g
    generalize loopFuel = n at hfuel hlast
    have hforward := lastBlock_spec (Visited.nil (g := g) (s := s)) (n := n) (by rwa [List.length_nil]) start
    change (∃ bs', lastBlock g n start blockInvalid s = _ ∧ _) ∨ lastBlock g n start blockInvalid s = _ at hforward
    rcases hforward with ⟨bs, hok, hvisited⟩ | herror
    · rw [hok] at hlast
      cases hlast
      exact visitsOnce_back hvisited status
    · rw [herror] at hlast
      exact nomatch hlast

end CoActionOS.Cafs
