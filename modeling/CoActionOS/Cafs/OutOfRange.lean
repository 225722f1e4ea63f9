import CoActionOS.Cafs.Fs

/-!
# Reads and writes behind the end of a file

Such a read should copy nothing and return 0 or -1, and such a write return -1 and change nothing.  `cl_file_startread`
makes the number of bytes negative and goes on, and what `cl_file_startwrite` refuses is finished by
`cl_file_finishwrite` with the number of bytes that the last transfer left.
-/

namespace CoActionOS.Cafs

open Cmd

variable (g : Geometry)

/-! ### The property -/

/-- What a call returns: -1 for a failure. -/
def readValue : Ret (Int × List UInt8) → Int
  | .error _ => -1
  | .ok r => r.1

def writeValue : Ret Int → Int
  | .error _ => -1
  | .ok n => n

/-- The read returns 0 or -1 and has copied no byte. -/
def ReadRefused (h : Handle) (loc nbyte : Int) (s : St) : Prop :=
  ∃ r h' s', cafsLiteRead g h loc nbyte s = .ok (r, h') s' ∧ (readValue r = 0 ∨ readValue r = -1) ∧ h'.op.out = []

/-- The write returns -1, with the size and the segment in RAM as they were, and the medium as it was or as saving that
segment leaves it. -/
def WriteRefused (h : Handle) (loc : Int) (buf : List UInt8) (s : St) : Prop :=
  ∃ r h' s', cafsLiteWrite g h false loc buf s = .ok (r, h') s' ∧ writeValue r = -1 ∧ h'.size = h.size ∧
    h'.segment = h.segment ∧ h'.segmentData.data = h.segmentData.data ∧
      (s' = s ∨ ∃ a, clFileSavesegment g h s = .ok a s')

/-- Saving the segment in RAM and loading that of the position. -/
def swapSegment (h : Handle) (loc : Int) : Cmd St Result :=
  andThen (clFileSavesegment g h) fun h => clFileLoadsegment g h (toUnsigned loc / blockDataSize)

/-- The segment in RAM cannot be saved, or the segment of the position not be loaded. -/
def SegmentRefused (h : Handle) (loc : Int) (s : St) : Prop := ∃ h' s', swapSegment g h loc s = .ok (none, h') s'

/-! ### What the steps do to the handle -/

/-- The handle with another transfer. -/
def Handle.withOp (h : Handle) (op : Transfer) (bytesLeft : Int) : Handle := { h with op, bytesLeft }

/-- Bytes are copied and the size grows, neither goes back; what is going to be returned stays. -/
structure Grows (h h' : Handle) : Prop where
  out : h.op.out.length ≤ h'.op.out.length
  size : h.size ≤ h'.size
  nbyte : h'.op.nbyte = h.op.nbyte

theorem Grows.refl (h : Handle) : Grows h h := ⟨le_rfl, le_rfl, rfl⟩

theorem Grows.trans {h h' h'' : Handle} (h₁ : Grows h h') (h₂ : Grows h' h'') : Grows h h'' :=
  ⟨h₁.out.trans h₂.out, h₁.size.trans h₂.size, h₂.nbyte.trans h₁.nbyte⟩

variable {g} {h h' : Handle} {s s' : St}

/-- Saving changes at most the status of the segment in RAM. -/
def Saved (h h' : Handle) : Prop := ∃ status, h' = { h with segmentData := { h.segmentData with status } }

theorem yields_savesegment (h : Handle) : Yields (clFileSavesegment g h) fun r => Saved h r.2 := by
  unfold clFileSavesegment
  split
  · refine Yields.after ?_
    rintro (_ | b)
    · exact Yields.pure ⟨_, rfl⟩
    · refine Yields.after ?_
      rintro (_ | _)
      · exact Yields.pure ⟨_, rfl⟩
      · refine Yields.after ?_
        rintro (_ | _) <;> exact Yields.pure ⟨_, rfl⟩
  · exact Yields.pure ⟨_, rfl⟩

theorem yields_loadsegment (h : Handle) (n : Nat) : Yields (clFileLoadsegment g h n) fun r =>
    (r.1 = none → r.2 = h) ∧ ∃ segment segmentData, r.2 = { h with segment, segmentData } := by
  unfold clFileLoadsegment
  refine Yields.after ?_
  rintro (_ | b)
  · exact Yields.pure ⟨(fun h0 => nomatch h0), _, _, rfl⟩
  · refine Yields.after ?_
    rintro (_ | d)
    · exact Yields.pure ⟨fun _ => rfl, _, _, rfl⟩
    · exact Yields.pure ⟨(fun h0 => nomatch h0), _, _, rfl⟩

theorem yields_andThen {R : Handle → Prop} {P : Result → Prop} {c : Cmd St Result} {k : Handle → Cmd St Result}
    (hc : Yields c fun r => R r.2) (hfail : ∀ h, R h → P (none, h)) (hk : ∀ h, R h → Yields (k h) P) :
    Yields (andThen c k) P := by
  unfold andThen
  refine Yields.bind hc ?_
  rintro ⟨_ | _, h⟩ hR
  · exact Yields.pure (hfail h hR)
  · exact hk h hR

theorem grows_save (h : Handle) : Yields (clFileSavesegment g h) fun r => Grows h r.2 := by
  refine (yields_savesegment h).mono ?_
  rintro r ⟨status, hr⟩
  rw [hr]
  exact ⟨le_rfl, le_rfl, rfl⟩

theorem grows_load (h : Handle) (n : Nat) : Yields (clFileLoadsegment g h n) fun r => Grows h r.2 := by
  refine (yields_loadsegment h n).mono ?_
  rintro r ⟨_, segment, d, hr⟩
  rw [hr]
  exact ⟨le_rfl, le_rfl, rfl⟩

theorem grows_andThen {c : Cmd St Result} {k : Handle → Cmd St Result} (hc : Yields c fun r => Grows h r.2)
    (hk : ∀ h', Yields (k h') fun r => Grows h' r.2) : Yields (andThen c k) fun r => Grows h r.2 :=
  yields_andThen hc (fun _ hg => hg) fun h' hg => (hk h').mono fun _ hg' => hg.trans hg'

theorem readCurrentSegment_out (h : Handle) :
    (readCurrentSegment h).op.out.length = h.op.out.length + (calcPageSize h).1 ∧ (readCurrentSegment h).size = h.size ∧
      (readCurrentSegment h).op.nbyte = h.op.nbyte := by
  unfold readCurrentSegment
  simp only
  split
  · simp [updateCurrentSegment, slice]
  · next hpage => exact ⟨by omega, rfl, rfl⟩

theorem grows_readCurrent (h : Handle) : Grows h (readCurrentSegment h) := by
  obtain ⟨hout, hsize, hnbyte⟩ := readCurrentSegment_out h
  exact ⟨by omega, hsize.ge, hnbyte⟩

theorem grows_writeCurrent (h : Handle) : Grows h (writeCurrentSegment h) := by
  unfold writeCurrentSegment
  simp only
  split
  · split
    · next hlt =>
      refine ⟨?_, hlt.le, rfl⟩
      simp [updateCurrentSegment]
    · refine ⟨?_, le_rfl, rfl⟩
      simp [updateCurrentSegment]
  · exact Grows.refl h

theorem grows_readSegments (n segment : Nat) (h : Handle) : Yields (readSegments g n segment h) fun r => Grows h r.2 := by
  induction n generalizing segment h with
  | zero => exact Yields.pure (Grows.refl h)
  | succ n ih =>
    refine grows_andThen (grows_load h segment) ?_
    intro h'
    refine (ih _ _).mono ?_
    rintro r ⟨hout, hsize, hnbyte⟩
    refine ⟨?_, hsize, hnbyte⟩
    have := hout
    simp only [List.length_append] at this
    omega

theorem grows_clFileRead (h : Handle) (start n : Nat) : Yields (clFileRead g h start n) fun r => Grows h r.2 := by
  unfold clFileRead
  split
  · refine grows_andThen (grows_readSegments n start h) ?_
    exact fun h' => Yields.pure ⟨le_rfl, le_rfl, rfl⟩
  · exact Yields.pure (Grows.refl h)

theorem grows_writeSegments (n : Nat) (h : Handle) : Yields (writeSegments g n h) fun r => Grows h r.2 := by
  induction n generalizing h with
  | zero => exact Yields.pure (Grows.refl h)
  | succ n ih =>
    refine grows_andThen ?_ ?_
    · exact (grows_save _).mono fun r hg => ⟨hg.out, hg.size, hg.nbyte⟩
    · exact fun h' => (ih _).mono fun r hg => ⟨hg.out, hg.size, hg.nbyte⟩

theorem grows_clFileWrite (h : Handle) (n : Nat) : Yields (clFileWrite g h n) fun r => Grows h r.2 := by
  unfold clFileWrite
  split
  · refine grows_andThen (grows_writeSegments n h) ?_
    intro h'
    refine Yields.pure ?_
    simp only
    split
    · next hlt => exact ⟨le_rfl, hlt.le, rfl⟩
    · exact ⟨le_rfl, le_rfl, rfl⟩
  · exact Yields.pure (Grows.refl h)

/-! ### The transfer does not matter to saving and loading -/

theorem savesegment_withOp (h : Handle) (op : Transfer) (n : Int) :
    clFileSavesegment g (h.withOp op n) = clFileSavesegment g h >>= fun r => pure (r.1, r.2.withOp op n) := by
  unfold clFileSavesegment
  show (if h.segmentData.status = BlockStatus.closed then _ else _) = _
  split
  · rw [then_assoc]
    apply then_congr
    rintro (_ | b)
    · rfl
    · rw [then_assoc]
      apply then_congr
      rintro (_ | _)
      · rfl
      · rw [then_assoc]
        apply then_congr
        rintro (_ | _) <;> rfl
  · rfl

theorem loadsegment_withOp (h : Handle) (op : Transfer) (n : Int) (segment : Nat) :
    clFileLoadsegment g (h.withOp op n) segment =
      clFileLoadsegment g h segment >>= fun r => pure (r.1, r.2.withOp op n) := by
  unfold clFileLoadsegment
  rw [then_assoc]
  apply then_congr
  rintro (_ | b)
  · rfl
  · rw [then_assoc]
    apply then_congr
    rintro (_ | d) <;> rfl

theorem swapSegment_withOp (h : Handle) (op : Transfer) (n loc : Int) :
    swapSegment g (h.withOp op n) loc = swapSegment g h loc >>= fun r => pure (r.1, r.2.withOp op n) := by
  unfold swapSegment andThen
  rw [savesegment_withOp, then_assoc, then_assoc]
  apply then_congr
  rintro ⟨_ | _, h'⟩
  · rfl
  · exact loadsegment_withOp h' op n _

variable {loc nbyte : Int}

theorem segmentRefused_withOp (h : Handle) (op : Transfer) (n : Int) :
    SegmentRefused g (h.withOp op n) loc s ↔ SegmentRefused g h loc s := by
  unfold SegmentRefused
  rw [swapSegment_withOp]
  constructor
  · rintro ⟨h', s', hrun⟩
    obtain ⟨⟨r, h₁⟩, s₁, hs, hpure⟩ := then_eq_ok hrun
    obtain ⟨hr, rfl⟩ := Outcome.ok.inj hpure
    obtain ⟨rfl, -⟩ := Prod.mk.inj hr
    exact ⟨h₁, s₁, hs⟩
  · rintro ⟨h', s', hs⟩
    exact ⟨_, s', then_of_ok hs⟩

/-! ### Loading only looks at the medium -/

theorem looks_clBlockLoad (b : Nat) : Looks (clBlockLoad g b) := by
  unfold clBlockLoad
  split
  · exact Looks.fail
  · constructor
    · intro s a s' hr
      unfold clDevRead at hr
      split at hr
      · exact (Outcome.ok.inj hr).2.symm
      · cases hr
    · intro s s' hr
      unfold clDevRead at hr
      split at hr
      · cases hr
      · exact (Outcome.error.inj hr).symm

theorem looks_listUpdate (l : ClList) (prev : Nat) : Looks (listUpdate g l prev) := by
  unfold listUpdate
  refine Looks.bind (looks_clBlockLoad _).attempt ?_
  rintro (_ | d)
  · exact Looks.pure _
  · simp only
    split <;> exact Looks.pure _

theorem looks_clListGetnext (l : ClList) : Looks (clListGetnext g l) := by
  unfold clListGetnext
  split
  · simp only
    split
    · exact Looks.pure _
    · unfold listAdvance
      split
      · simp only
        split
        · exact Looks.pure _
        · exact Looks.bind (looks_listUpdate _ _) fun _ => Looks.pure _
      · exact Looks.pure _
  · exact Looks.pure _

theorem looks_whileItem {τ β : Type} {body : ClList → τ → Cmd St (Loop (ClList × τ) β)}
    (hbody : ∀ l t, Looks (body l t)) (n : Nat) (l : ClList) (t : τ) : Looks (whileItem g body n l t) := by
  induction n generalizing l t with
  | zero => exact Looks.hang
  | succ n ih =>
    refine Looks.bind (looks_clListGetnext l) ?_
    rintro ⟨r, l'⟩
    simp only
    split
    · refine Looks.bind (hbody l' t) ?_
      rintro (⟨l'', t'⟩ | b)
      · exact ih l'' t'
      · exact Looks.pure _
    · exact Looks.pure _

theorem looks_clFilelistGet (listBlock segment : Nat) (status : UInt8) :
    Looks (clFilelistGet g listBlock segment status) := by
  unfold clFilelistGet clListInit
  refine Looks.bind (Looks.attempt (Looks.bind (looks_listUpdate _ _) ?_)) ?_
  · rintro ⟨found, l⟩
    simp only
    split
    · exact Looks.pure _
    · exact Looks.fail
  · rintro (_ | l)
    · exact Looks.pure _
    · refine Looks.bind (looks_whileItem (fun l t => Looks.pure _) _ _ _) ?_
      rintro (b | r) <;> exact Looks.pure _

theorem looks_loadsegment (h : Handle) (segment : Nat) : Looks (clFileLoadsegment g h segment) := by
  unfold clFileLoadsegment
  refine Looks.bind (looks_clFilelistGet _ _ _) ?_
  rintro (_ | b)
  · exact Looks.pure _
  · refine Looks.bind (looks_clBlockLoad b).attempt ?_
    rintro (_ | d) <;> exact Looks.pure _

/-! ### Finishing -/

theorem andThen_of_none {c : Cmd St Result} (k : Handle → Cmd St Result) (hc : c s = .ok (none, h') s') :
    andThen c k s = .ok (none, h') s' := by
  unfold andThen
  exact then_of_ok hc

theorem andThen_of_some {c : Cmd St Result} (k : Handle → Cmd St Result) (hc : c s = .ok (some (), h') s') :
    andThen c k s = k h' s' := by
  unfold andThen
  exact then_of_ok hc

theorem andThen_eq_ok {c : Cmd St Result} {k : Handle → Cmd St Result} {r : Result} (hr : andThen c k s = .ok r s') :
    (∃ h', c s = .ok (none, h') s' ∧ r = (none, h')) ∨ ∃ h' s₁, c s = .ok (some (), h') s₁ ∧ k h' s₁ = .ok r s' := by
  obtain ⟨⟨_ | _, h'⟩, s₁, hc, hk⟩ := then_eq_ok hr
  · obtain ⟨rfl, rfl⟩ := Outcome.ok.inj hk
    exact .inl ⟨h', hc, rfl⟩
  · exact .inr ⟨h', s₁, hc, hk⟩

/-- Swapping the segment leaves the transfer and the size alone, and the segment too if it fails. -/
structure Swapped (h : Handle) (r : Result) : Prop where
  op : r.2.op = h.op
  bytesLeft : r.2.bytesLeft = h.bytesLeft
  size : r.2.size = h.size
  segment : r.1 = none → r.2.segment = h.segment
  data : r.1 = none → r.2.segmentData.data = h.segmentData.data

theorem yields_swapSegment (h : Handle) (loc : Int) : Yields (swapSegment g h loc) (Swapped h) := by
  refine yields_andThen (yields_savesegment h) ?_ ?_
  · rintro _ ⟨status, rfl⟩
    exact ⟨rfl, rfl, rfl, fun _ => rfl, fun _ => rfl⟩
  · rintro _ ⟨status, rfl⟩
    refine (yields_loadsegment _ _).mono ?_
    rintro r ⟨hnone, segment, d, hr⟩
    refine ⟨by rw [hr], by rw [hr], by rw [hr], fun h0 => by rw [hnone h0], fun h0 => by rw [hnone h0]⟩

/-- If the segment is refused, nothing but saving it has been done to the medium. -/
theorem saved_of_refused {r : Result} (hr : swapSegment g h loc s = .ok r s') :
    ∃ a, clFileSavesegment g h s = .ok a s' := by
  rcases andThen_eq_ok hr with ⟨h', hsave, _⟩ | ⟨h', s₁, hsave, hload⟩
  · exact ⟨_, hsave⟩
  · obtain rfl := (looks_loadsegment _ _).ok _ _ _ hload
    exact ⟨_, hsave⟩

theorem andThen_assoc (c : Cmd St Result) (k k' : Handle → Cmd St Result) :
    andThen (andThen c k) k' = andThen c fun h => andThen (k h) k' := by
  unfold andThen
  rw [then_assoc]
  apply then_congr
  rintro ⟨_ | _, h⟩ <;> rfl

/-- The rest may be changed where the first call does not lead. -/
theorem andThen_congr {R : Handle → Prop} {c : Cmd St Result} {k k' : Handle → Cmd St Result}
    (hc : Yields c fun r => R r.2) (hk : ∀ h, R h → k h = k' h) : andThen c k = andThen c k' := by
  funext s
  cases hs : c s with
  | ok a s₁ =>
    obtain ⟨_ | _, h⟩ := a
    · rw [andThen_of_none k hs, andThen_of_none k' hs]
    · rw [andThen_of_some k hs, andThen_of_some k' hs, hk h (hc s _ s₁ hs)]
  | error s₁ =>
    show Cmd.bind c _ s = Cmd.bind c _ s
    unfold Cmd.bind
    rw [hs]
  | hang =>
    show Cmd.bind c _ s = Cmd.bind c _ s
    unfold Cmd.bind
    rw [hs]

/-- Both ways of finishing begin with swapping the segment. -/
theorem andThen_swap (k : Handle → Cmd St Result) (h : Handle) :
    (andThen (clFileSavesegment g h) fun h => andThen (clFileLoadsegment g h (locSegment h)) k) =
      andThen (swapSegment g h h.op.loc) k := by
  rw [swapSegment, andThen_assoc]
  apply andThen_congr (yields_savesegment h)
  rintro _ ⟨status, rfl⟩
  rfl

/-- What follows in `cl_file_finishread`. -/
def readRest (g : Geometry) (h : Handle) : Cmd St Result :=
  let h := readCurrentSegment h
  if h.bytesLeft > 0 then
    andThen (clFileRead g h (h.segment + 1) (toUnsigned h.bytesLeft / blockDataSize)) fun h =>
    andThen (clFileLoadsegment g h (h.segment + 1)) fun h =>
    return (some (), readCurrentSegment h)
  else return (some (), h)

/-- What follows in `cl_file_finishwrite`. -/
def writeRest (g : Geometry) (h : Handle) : Cmd St Result :=
  let h := writeCurrentSegment h
  if h.bytesLeft > 0 then
    andThen (clFileSavesegment g h) fun h =>
    andThen (clFileWrite g { h with segment := (h.segment + 1) % 2 ^ 16 }
      (toUnsigned h.bytesLeft / blockDataSize)) fun h =>
    andThen (clFileLoadsegment g h h.segment) fun h =>
    return (some (), writeCurrentSegment h)
  else return (some (), h)

theorem finishread_eq (h : Handle) : clFileFinishread g h = andThen (swapSegment g h h.op.loc) (readRest g) :=
  andThen_swap (readRest g) h

theorem finishwrite_eq (h : Handle) : clFileFinishwrite g h = andThen (swapSegment g h h.op.loc) (writeRest g) :=
  andThen_swap (writeRest g) h

theorem grows_readRest (h : Handle) : Yields (readRest g h) fun r => Grows (readCurrentSegment h) r.2 := by
  unfold readRest
  simp only
  split
  · refine grows_andThen (grows_clFileRead _ _ _) fun h' => grows_andThen (grows_load _ _) fun h'' => ?_
    exact Yields.pure (grows_readCurrent h'')
  · exact Yields.pure (Grows.refl _)

theorem grows_finishread (h : Handle) : Yields (clFileFinishread g h) fun r => Grows h r.2 := by
  rw [finishread_eq]
  have hswap : Yields (swapSegment g h h.op.loc) fun r => Grows h r.2 :=
    (yields_swapSegment h h.op.loc).mono fun r hr => ⟨by rw [hr.op], hr.size.ge, by rw [hr.op]⟩
  exact grows_andThen hswap fun h' => (grows_readRest h').mono fun r hr => (grows_readCurrent h').trans hr

/-- A read that is not refused copies the bytes that a first page has. -/
theorem finishread_copies {r : Result} (hr : clFileFinishread g h s = .ok r s') :
    (SegmentRefused g h h.op.loc s ∧ r.1 = none ∧ r.2.op = h.op) ∨
      h.op.out.length + (calcPageSize h).1 ≤ r.2.op.out.length := by
  rw [finishread_eq] at hr
  rcases andThen_eq_ok hr with ⟨h', hswap, rfl⟩ | ⟨h', s₁, hswap, hrest⟩
  · exact .inl ⟨⟨h', s', hswap⟩, rfl, (yields_swapSegment h _ _ _ _ hswap).op⟩
  · right
    have hsw := yields_swapSegment h _ _ _ _ hswap
    have hout := (grows_readRest h' s₁ r s' hrest).out
    rw [(readCurrentSegment_out h').1] at hout
    have hop : h'.op = h.op := hsw.op
    have hleft : h'.bytesLeft = h.bytesLeft := hsw.bytesLeft
    have hpage : calcPageSize h' = calcPageSize h := by
      unfold calcPageSize
      rw [hop, hleft]
    rw [hpage, hop] at hout
    exact hout

theorem finishread_of_refused (hr : SegmentRefused g h h.op.loc s) :
    ∃ h' s', clFileFinishread g h s = .ok (none, h') s' ∧ h'.op = h.op := by
  obtain ⟨h', s', hswap⟩ := hr
  refine ⟨h', s', ?_, (yields_swapSegment h _ _ _ _ hswap).op⟩
  rw [finishread_eq]
  exact andThen_of_none _ hswap

/-- Behind the end of the file a page that is written makes the file longer. -/
theorem writeCurrentSegment_size (hpage : 0 < (calcPageSize h).1) (hloc : h.size < h.op.loc) :
    h.size < (writeCurrentSegment h).size := by
  unfold writeCurrentSegment
  simp only [hpage, ite_true]
  rw [if_pos]
  · show h.size < h.op.loc + ((calcPageSize h).1 : Int)
    omega
  · show h.size < h.op.loc + ((calcPageSize h).1 : Int)
    omega

theorem grows_writeRest (h : Handle) : Yields (writeRest g h) fun r => Grows (writeCurrentSegment h) r.2 := by
  unfold writeRest
  simp only
  split
  · refine grows_andThen (grows_save _) fun h' => grows_andThen ?_ fun h'' => grows_andThen (grows_load _ _) fun h₃ => ?_
    · exact (grows_clFileWrite _ _).mono fun r hr => ⟨hr.out, hr.size, hr.nbyte⟩
    · exact Yields.pure (grows_writeCurrent h₃)
  · exact Yields.pure (Grows.refl _)

theorem grows_finishwrite (h : Handle) : Yields (clFileFinishwrite g h) fun r => Grows h r.2 := by
  rw [finishwrite_eq]
  have hswap : Yields (swapSegment g h h.op.loc) fun r => Grows h r.2 :=
    (yields_swapSegment h h.op.loc).mono fun r hr => ⟨by rw [hr.op], hr.size.ge, by rw [hr.op]⟩
  exact grows_andThen hswap fun h' => (grows_writeRest h').mono fun r hr => (grows_writeCurrent h').trans hr

/-- A write behind the end that is not refused succeeds or makes the file longer. -/
theorem finishwrite_cases {r : Result} (hr : clFileFinishwrite g h s = .ok r s') (hloc : h.size < h.op.loc)
    (hleft : -2 ^ 31 ≤ h.bytesLeft ∧ h.bytesLeft < 2 ^ 31) :
    (SegmentRefused g h h.op.loc s ∧ r.1 = none) ∨ r.1 = some () ∨ h.size < r.2.size := by
  rw [finishwrite_eq] at hr
  rcases andThen_eq_ok hr with ⟨h', hswap, rfl⟩ | ⟨h', s₁, hswap, hrest⟩
  · exact .inl ⟨⟨h', s', hswap⟩, rfl⟩
  · right
    have hsw := yields_swapSegment h _ _ _ _ hswap
    have hop : h'.op = h.op := hsw.op
    have hl : h'.bytesLeft = h.bytesLeft := hsw.bytesLeft
    have hs : h'.size = h.size := hsw.size
    by_cases hpage : 0 < (calcPageSize h').1
    · right
      have hsize := writeCurrentSegment_size hpage (by rw [hop, hs]; exact hloc)
      have hgrows := (grows_writeRest h' s₁ r s' hrest).size
      omega
    · left
      -- no bytes are left over from the last transfer
      have hzero : h'.bytesLeft = 0 := by
        unfold calcPageSize toUnsigned blockDataSize blockSize blockHeaderSize at hpage
        simp only at hpage
        split at hpage <;> omega
      have hsame : writeCurrentSegment h' = h' := by
        unfold writeCurrentSegment
        simp only [hpage, ite_false]
      unfold writeRest at hrest
      simp only [hsame, hzero, gt_iff_lt, lt_irrefl, ite_false] at hrest
      obtain ⟨rfl, -⟩ := Outcome.ok.inj hrest
      rfl

theorem finishwrite_of_refused (hr : SegmentRefused g h h.op.loc s) :
    ∃ h' s', clFileFinishwrite g h s = .ok (none, h') s' ∧ Swapped h (none, h') ∧
      ∃ a, clFileSavesegment g h s = .ok a s' := by
  obtain ⟨h', s', hswap⟩ := hr
  refine ⟨h', s', ?_, yields_swapSegment h _ _ _ _ hswap, saved_of_refused hswap⟩
  rw [finishwrite_eq]
  exact andThen_of_none _ hswap

/-! ### The read -/

/-- The handle after the first lines of `cl_file_startread`: what is left is cut to the end of the file, unless the sum
of the position and the number of bytes overflows. -/
def clipped (h : Handle) (loc nbyte : Int) : Handle :=
  if toInt32 (nbyte + loc) > h.size then h.withOp ⟨loc, h.size - loc, [], []⟩ (h.size - loc)
  else h.withOp ⟨loc, nbyte, [], []⟩ nbyte

theorem startread_eq (h : Handle) (loc nbyte : Int) :
    clFileStartread { h with op := ⟨loc, nbyte, [], []⟩ } =
      if toUnsigned loc / blockDataSize = h.segment then
        (if (readCurrentSegment (clipped h loc nbyte)).bytesLeft = 0 then
          (readCurrentSegment (clipped h loc nbyte)).op.nbyte else 0, readCurrentSegment (clipped h loc nbyte))
      else (0, clipped h loc nbyte) := by
  unfold clFileStartread clipped Handle.withOp locSegment
  simp only
  by_cases hclip : toInt32 (nbyte + loc) > h.size
  · simp only [hclip, ite_true]
  · simp only [hclip, ite_false]

/-- What the caller is told when the read has been finished. -/
def readResult : Result → Ret (Int × List UInt8) × Handle
  | (none, h) => (.error none, h)
  | (some (), h) => (.ok (h.op.nbyte, h.op.out), h)

theorem readResult_snd (r : Result) : (readResult r).2 = r.2 := by
  obtain ⟨_ | _, h⟩ := r <;> rfl

theorem cafsLiteRead_eq (h : Handle) (loc nbyte : Int) (hr : h.amode.r = true) {ret : Int}
    (hstart : clFileStartread { h with op := ⟨loc, nbyte, [], []⟩ } = (ret, h')) :
    cafsLiteRead g h loc nbyte =
      if ret = nbyte then pure (.ok (h'.op.nbyte, h'.op.out), h')
      else clFileFinishread g h' >>= fun r => pure (readResult r) := by
  unfold cafsLiteRead
  simp only [hr, Bool.true_eq_false, ite_false, hstart]
  split
  · rfl
  · apply then_congr
    rintro ⟨_ | _, h'⟩ <;> rfl

/-- A read that `cl_file_startread` completes. -/
theorem readRefused_of_done (hr : h.amode.r = true)
    (hstart : clFileStartread { h with op := ⟨loc, nbyte, [], []⟩ } = (nbyte, h')) :
    ReadRefused g h loc nbyte s ↔ (h'.op.nbyte = 0 ∨ h'.op.nbyte = -1) ∧ h'.op.out = [] := by
  unfold ReadRefused
  rw [cafsLiteRead_eq h loc nbyte hr hstart, if_pos rfl]
  constructor
  · rintro ⟨r, h₁, s', hrun, hval, hempty⟩
    obtain ⟨hres, -⟩ := Outcome.ok.inj hrun
    obtain ⟨rfl, rfl⟩ := Prod.mk.inj hres
    exact ⟨hval, hempty⟩
  · rintro ⟨hval, hempty⟩
    exact ⟨_, h', s, rfl, hval, hempty⟩

/-- A read that `cl_file_finishread` completes. -/
theorem readRefused_of_unfinished (hr : h.amode.r = true) {ret : Int} (hret : ret ≠ nbyte)
    (hstart : clFileStartread { h with op := ⟨loc, nbyte, [], []⟩ } = (ret, h')) :
    ReadRefused g h loc nbyte s ↔ ∃ r s', clFileFinishread g h' s = .ok r s' ∧
      (readValue (readResult r).1 = 0 ∨ readValue (readResult r).1 = -1) ∧ r.2.op.out = [] := by
  unfold ReadRefused
  rw [cafsLiteRead_eq h loc nbyte hr hstart, if_neg hret]
  constructor
  · rintro ⟨r, h₁, s', hrun, hval, hempty⟩
    obtain ⟨res, s₁, hfin, hpure⟩ := then_eq_ok hrun
    obtain ⟨hres, rfl⟩ := Outcome.ok.inj hpure
    refine ⟨res, s₁, hfin, ?_, ?_⟩
    · rw [hres]
      exact hval
    · rw [← readResult_snd, hres]
      exact hempty
  · rintro ⟨r, s', hfin, hval, hempty⟩
    refine ⟨_, _, s', then_of_ok hfin, hval, ?_⟩
    show (readResult r).2.op.out = []
    rw [readResult_snd]
    exact hempty

section

variable (hsize : 0 ≤ h.size) (hloc : h.size < loc) (hmax : loc < 2 ^ 31) (hn : 0 ≤ nbyte) (hnmax : nbyte < 2 ^ 31)

include hsize hloc hmax hn hnmax

theorem clipped_facts : (clipped h loc nbyte).op.out = [] ∧ (clipped h loc nbyte).op.loc = loc ∧
    (0 < nbyte ∨ (clipped h loc nbyte).bytesLeft = h.size - loc → 0 < (calcPageSize (clipped h loc nbyte)).1) ∧
    (nbyte = 0 → (clipped h loc nbyte).bytesLeft = h.size - loc ∧ (clipped h loc nbyte).op.nbyte = h.size - loc) := by
  have hpage : ∀ left : Int, left ≠ 0 → -2 ^ 31 < left → left < 2 ^ 31 → ∀ op : Transfer,
      0 < (calcPageSize (h.withOp op left)).1 := by
    intro left h0 hlow hhigh op
    unfold calcPageSize Handle.withOp toUnsigned blockDataSize blockSize blockHeaderSize
    simp only
    split <;> omega
  unfold clipped
  by_cases hclip : toInt32 (nbyte + loc) > h.size
  · rw [if_pos hclip]
    exact ⟨rfl, rfl, fun _ => hpage _ (by omega) (by omega) (by omega) _, fun _ => ⟨rfl, rfl⟩⟩
  · rw [if_neg hclip]
    -- the sum has overflowed, so the number of bytes is not zero
    have hover : nbyte ≠ 0 := by
      rintro rfl
      apply hclip
      unfold toInt32
      rw [Int.zero_add, Int.bmod_eq_of_le (by omega) (by omega)]
      exact hloc
    exact ⟨rfl, rfl, fun _ => hpage _ hover (by omega) hnmax _, fun h0 => absurd h0 hover⟩

/-- Bytes of the segment in RAM are copied at once. -/
theorem not_readRefused_of_segment (hr : h.amode.r = true) (hseg : toUnsigned loc / blockDataSize = h.segment) :
    ¬ReadRefused g h loc nbyte s := by
  obtain ⟨hout, -, hpage, hzero⟩ := clipped_facts hsize hloc hmax hn hnmax
  have hcopied : 0 < (readCurrentSegment (clipped h loc nbyte)).op.out.length := by
    rw [(readCurrentSegment_out _).1]
    have hpos : 0 < (calcPageSize (clipped h loc nbyte)).1 := by
      apply hpage
      rcases Int.lt_or_eq_of_le hn with hpos | h0
      · exact .inl hpos
      · exact .inr (hzero h0.symm).1
    omega
  have hstart := startread_eq h loc nbyte
  rw [if_pos hseg] at hstart
  generalize readCurrentSegment (clipped h loc nbyte) = h₁ at hstart hcopied
  by_cases hret : (if h₁.bytesLeft = 0 then h₁.op.nbyte else 0) = nbyte
  · rw [hret] at hstart
    rw [readRefused_of_done hr hstart]
    rintro ⟨-, hempty⟩
    rw [hempty] at hcopied
    exact absurd hcopied (Nat.lt_irrefl 0)
  · rw [readRefused_of_unfinished hr hret hstart]
    rintro ⟨r, s', hfin, -, hempty⟩
    have hgrows := (grows_finishread _ s r s' hfin).out
    rw [hempty] at hgrows
    exact absurd (hcopied.trans_le hgrows) (Nat.lt_irrefl 0)

theorem readRefused_iff : ReadRefused g h loc nbyte s ↔
    h.amode.r = false ∨ toUnsigned loc / blockDataSize ≠ h.segment ∧
      (nbyte = 0 ∧ loc = h.size + 1 ∨ 0 < nbyte ∧ SegmentRefused g h loc s) := by
  cases hr : h.amode.r with
  | false =>
    have hrun : cafsLiteRead g h loc nbyte s =
        .ok (.error (some .eacces), { h with op := ⟨loc, nbyte, [], []⟩ }) s := by
      unfold cafsLiteRead
      simp only [hr, ite_true]
      rfl
    exact iff_of_true ⟨_, _, s, hrun, .inr rfl, rfl⟩ (.inl rfl)
  | true =>
    by_cases hseg : toUnsigned loc / blockDataSize = h.segment
    -- the segment that the handle has in RAM answers every offset
    · refine iff_of_false (not_readRefused_of_segment hsize hloc hmax hn hnmax hr hseg) ?_
      rintro (hfalse | ⟨hne, -⟩)
      · cases hfalse
      · exact hne hseg
    · obtain ⟨hout, hcloc, hpage, hzero⟩ := clipped_facts hsize hloc hmax hn hnmax
      -- the size of a read does not matter to whether the segment can be loaded
      have hclipRefused : SegmentRefused g (clipped h loc nbyte) loc s ↔ SegmentRefused g h loc s := by
        unfold clipped
        split <;> exact segmentRefused_withOp h _ _
      have hstart := startread_eq h loc nbyte
      rw [if_neg hseg] at hstart
      generalize clipped h loc nbyte = c at *
      rcases Int.lt_or_eq_of_le hn with hpos | h0
      · rw [readRefused_of_unfinished hr (by omega) hstart]
        constructor
        · rintro ⟨r, s', hfin, -, hempty⟩
          refine .inr ⟨hseg, .inr ⟨hpos, ?_⟩⟩
          rcases finishread_copies hfin with ⟨href, -⟩ | hlen
          · rw [hcloc] at href
            exact hclipRefused.1 href
          -- a read of the segment leaves at least one byte
          · have := hpage (.inl hpos)
            rw [hempty, List.length_nil] at hlen
            omega
        · rintro (hfalse | ⟨-, ⟨h0, -⟩ | ⟨-, href⟩⟩)
          · cases hfalse
          · omega
          · have href' := hclipRefused.2 href
            rw [← hcloc] at href'
            obtain ⟨h₁, s', hfin, hop⟩ := finishread_of_refused href'
            exact ⟨_, s', hfin, .inr rfl, by rw [hop, hout]⟩
      -- nothing is asked for: only the offset decides
      · obtain ⟨-, hnb⟩ := hzero h0.symm
        rw [h0] at hstart
        rw [readRefused_of_done hr hstart, hnb]
        constructor
        · rintro ⟨hval, -⟩
          exact .inr ⟨hseg, .inl ⟨h0.symm, by omega⟩⟩
        · rintro (hfalse | ⟨-, ⟨-, hone⟩ | ⟨hpos, -⟩⟩)
          · cases hfalse
          · exact ⟨by omega, hout⟩
          · omega

end

/-! ### The write -/

def writeResult : Result → Ret Int × Handle
  | (none, h) => (.error none, h)
  | (some (), h) => (.ok h.op.nbyte, h)

theorem writeResult_snd (r : Result) : (writeResult r).2 = r.2 := by
  obtain ⟨_ | _, h⟩ := r <;> rfl

/-- Behind the end `cl_file_startwrite` refuses, and the write is finished all the same. -/
theorem cafsLiteWrite_eq (buf : List UInt8) (hw : h.amode.w = true) (hloc : h.size < loc) :
    cafsLiteWrite g h false loc buf =
      clFileFinishwrite g (h.withOp ⟨loc, buf.length, buf, []⟩ h.bytesLeft) >>= fun r => pure (writeResult r) := by
  have hstart : clFileStartwrite (h.withOp ⟨loc, buf.length, buf, []⟩ h.bytesLeft) =
      (-1, h.withOp ⟨loc, buf.length, buf, []⟩ h.bytesLeft) := if_pos hloc
  have hne : (-1 : Int) ≠ buf.length := by omega
  have hstart' : clFileStartwrite { h with op := ⟨loc, buf.length, buf, []⟩ } =
      (-1, h.withOp ⟨loc, buf.length, buf, []⟩ h.bytesLeft) := hstart
  unfold cafsLiteWrite
  simp only [hw, Bool.true_eq_false, Bool.false_eq_true, ite_false, hstart', hne]
  apply then_congr
  rintro ⟨_ | _, h'⟩ <;> rfl

theorem writeRefused_iff (buf : List UInt8) (hloc : h.size < loc)
    (hleft : -2 ^ 31 ≤ h.bytesLeft ∧ h.bytesLeft < 2 ^ 31) :
    WriteRefused g h loc buf s ↔ h.amode.w = false ∨ SegmentRefused g h loc s := by
  cases hw : h.amode.w with
  | false =>
    have hrun : cafsLiteWrite g h false loc buf s =
        .ok (.error (some .eacces), { h with op := ⟨loc, buf.length, buf, []⟩ }) s := by
      unfold cafsLiteWrite
      simp only [hw, ite_true]
      rfl
    exact iff_of_true ⟨_, _, s, hrun, rfl, rfl, rfl, rfl, .inl rfl⟩ (.inl rfl)
  | true =>
    have hiff : SegmentRefused g (h.withOp ⟨loc, buf.length, buf, []⟩ h.bytesLeft) loc s ↔ SegmentRefused g h loc s :=
      segmentRefused_withOp h _ _
    unfold WriteRefused
    rw [cafsLiteWrite_eq buf hw hloc]
    constructor
    · rintro ⟨r, h', s', hrun, hval, hsize, -⟩
      right
      obtain ⟨res, s₁, hfin, hpure⟩ := then_eq_ok hrun
      obtain ⟨hres, -⟩ := Outcome.ok.inj hpure
      rcases finishwrite_cases hfin hloc hleft with ⟨href, -⟩ | hsome | hgrown
      · exact hiff.1 href
      · -- the number of bytes is returned
        obtain ⟨r₁, h₁⟩ := res
        obtain rfl : r₁ = some () := hsome
        obtain ⟨rfl, -⟩ := Prod.mk.inj hres
        have hnbyte : h₁.op.nbyte = buf.length := (grows_finishwrite _ s _ s₁ hfin).nbyte
        have hval : h₁.op.nbyte = -1 := hval
        omega
      · rw [← writeResult_snd, hres, hsize] at hgrown
        exact absurd hgrown (lt_irrefl _)
    · rintro (hfalse | href)
      · cases hfalse
      · obtain ⟨h', s', hfin, hsw, a, hsave⟩ := finishwrite_of_refused (hiff.2 href)
        refine ⟨_, h', s', then_of_ok hfin, rfl, hsw.size, hsw.segment rfl, hsw.data rfl, .inr ?_⟩
        rw [savesegment_withOp] at hsave
        obtain ⟨a', s₁, hsave', hpure⟩ := then_eq_ok hsave
        obtain ⟨-, rfl⟩ := Outcome.ok.inj hpure
        exact ⟨a', hsave'⟩

/-! ### Both -/

/-- A read behind the end of the file is refused if the handle is not for reading; and otherwise, unless the position is
in the segment in RAM, if no byte is wanted and the position is the next but one, or if some are and the segment is
refused.  A write is refused if the handle is not for writing or the segment is refused. -/
theorem offsetRefused_iff (g : Geometry) (h : Handle) (loc nbyte : Int) (buf : List UInt8) (s : St)
    (hsize : 0 ≤ h.size) (hloc : h.size < loc) (hmax : loc < 2 ^ 31) (hn : 0 ≤ nbyte) (hnmax : nbyte < 2 ^ 31)
    (hleft : -2 ^ 31 ≤ h.bytesLeft ∧ h.bytesLeft < 2 ^ 31) :
    (ReadRefused g h loc nbyte s ↔ h.amode.r = false ∨ toUnsigned loc / blockDataSize ≠ h.segment ∧
      (nbyte = 0 ∧ loc = h.size + 1 ∨ 0 < nbyte ∧ SegmentRefused g h loc s)) ∧
    (WriteRefused g h loc buf s ↔ h.amode.w = false ∨ SegmentRefused g h loc s) :=
  ⟨readRefused_iff hsize hloc hmax hn hnmax, writeRefused_iff buf hloc hleft⟩

def oneSection : Geometry := ⟨31, 1, (by decide : 30 < 31), Nat.one_pos, (by decide : 62 ≤ 65535)⟩

def blankMedium : St := ⟨.blank, 0, 0, true, []⟩

/-- The handle of an empty file, open for reading: its segment 0 is in RAM. -/
def emptyFile : Handle := { Handle.fresh with amode := ⟨true, false⟩ }

theorem offsetRefused_fresh :
    ReadRefused oneSection Handle.fresh 5 3 blankMedium ∧ WriteRefused oneSection Handle.fresh 5 [1, 2, 3] blankMedium := by
  have hiff := offsetRefused_iff oneSection Handle.fresh 5 3 [1, 2, 3] blankMedium (by decide) (by decide) (by decide)
    (by decide) (by decide) (by decide)
  exact ⟨hiff.1.2 (.inl rfl), hiff.2.2 (.inl rfl)⟩

/-- A read at position 5 of an empty file copies what is in RAM. -/
theorem not_offsetRefused : ¬∀ (g : Geometry) (h : Handle) (loc nbyte : Int) (buf : List UInt8) (s : St), 0 ≤ h.size →
    h.size < loc → loc < 2 ^ 31 → 0 ≤ nbyte → nbyte < 2 ^ 31 → -2 ^ 31 ≤ h.bytesLeft ∧ h.bytesLeft < 2 ^ 31 →
      ReadRefused g h loc nbyte s ∧ WriteRefused g h loc buf s := by
  intro hall
  have hread := (hall oneSection emptyFile 5 3 [] blankMedium (by decide) (by decide) (by decide) (by decide) (by decide)
    (by decide)).1
  have hsegment : toUnsigned 5 / blockDataSize = emptyFile.segment := by decide
  exact not_readRefused_of_segment (by decide) (by decide) (by decide) (by decide) (by decide) rfl hsegment hread

end CoActionOS.Cafs
