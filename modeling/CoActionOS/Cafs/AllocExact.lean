import CoActionOS.Cafs.Frame

/-!
# What an allocation finds

`allocBlock` marks the block that its three scans come to first.  `Taken` describes that block without the scans: the
first free block behind the hint in the section of the hint, else the block that the first window to offer one offers,
else the first free block of the data area (`searchBlock_spec`).

The windows start where the first scan has stopped.  Without a hint that is block 1, so the last window ends one block
behind the data area; with a hint behind the data area the first scan is itself outside of it.
-/

namespace CoActionOS.Cafs

open Cmd

variable {g : Geometry} {V : Nat → Bytes} {hdr : Nat → Option BlockHdr} {sn : Nat}

/-! ### One scan -/

/-- The first free block from `i` on and before `j`. -/
structure FirstFree (V : Nat → Bytes) (i j b : Nat) : Prop where
  le : i ≤ b
  lt : b < j
  free : V b 5 = BlockStatus.free
  least : ∀ c, i ≤ c → c < b → V c 5 ≠ BlockStatus.free

theorem FirstFree.unique {i j b b' : Nat} (h : FirstFree V i j b) (h' : FirstFree V i j b') : b = b' := by
  rcases Nat.lt_trichotomy b b' with hlt | heq | hlt
  · exact absurd h.free (h'.least b h.le hlt)
  · exact heq
  · exact absurd h'.free (h.least b' h'.le hlt)

theorem findFree_succ {n i : Nat} (hi : hdr i = some (.ofBytes (V i))) :
    findFree hdr (n + 1) i = if V i 5 = BlockStatus.free then some (some i) else findFree hdr n (i + 1) := by
  rw [findFree, hi]
  rfl

theorem findFree_spec {n i : Nat} (hhdr : ∀ c, i ≤ c → c < i + n → hdr c = some (.ofBytes (V c))) :
    (∃ b, findFree hdr n i = some (some b) ∧ FirstFree V i (i + n) b) ∨
      (findFree hdr n i = some none ∧ ∀ c, i ≤ c → c < i + n → V c 5 ≠ BlockStatus.free) := by
  induction n generalizing i with
  | zero => exact .inr ⟨rfl, fun c hc hc' => absurd hc' (by omega)⟩
  | succ n ih =>
    rw [findFree_succ (hhdr i (Nat.le_refl i) (by omega))]
    by_cases hfree : V i 5 = BlockStatus.free
    · exact .inl ⟨i, if_pos hfree, Nat.le_refl i, by omega, hfree, fun c hc hc' => absurd hc' (by omega)⟩
    · rw [if_neg hfree]
      -- block `i` is not free, so nothing changes for the blocks behind it
      rcases @ih (i + 1) (fun c hc hc' => hhdr c (by omega) (by omega)) with ⟨b, hb, h⟩ | ⟨hnone, h⟩
      · refine .inl ⟨b, hb, by have := h.le; omega, by have := h.lt; omega, h.free, fun c hc hc' => ?_⟩
        by_cases hci : c = i
        · rwa [hci]
        · exact h.least c (by omega) hc'
      · refine .inr ⟨hnone, fun c hc hc' => ?_⟩
        by_cases hci : c = i
        · rwa [hci]
        · exact h c (by omega) (by omega)

/-- A window passes over the block: it is not free, and no other serial number uses it. -/
def PassedOver (V : Nat → Bytes) (sn b : Nat) : Prop :=
  V b 5 ≠ BlockStatus.free ∧ (Live (V b) → u32 (V b) 0 = sn)

/-- The window from `i` on and before `j` offers `b`. -/
structure Offered (V : Nat → Bytes) (sn i j b : Nat) : Prop where
  le : i ≤ b
  lt : b < j
  free : V b 5 = BlockStatus.free
  passed : ∀ c, i ≤ c → c < b → PassedOver V sn c

theorem Offered.unique {i j b b' : Nat} (h : Offered V sn i j b) (h' : Offered V sn i j b') : b = b' := by
  rcases Nat.lt_trichotomy b b' with hlt | heq | hlt
  · exact absurd h.free (h'.passed b h.le hlt).1
  · exact heq
  · exact absurd h'.free (h.passed b' h'.le hlt).1

theorem findFreeOf_succ {n i : Nat} (hi : hdr i = some (.ofBytes (V i))) :
    findFreeOf hdr sn (n + 1) i =
      if Live (V i) then if u32 (V i) 0 ≠ sn then some none else findFreeOf hdr sn n (i + 1)
      else if V i 5 = BlockStatus.free then some (some i) else findFreeOf hdr sn n (i + 1) := by
  rw [findFreeOf, hi]
  rfl

theorem findFreeOf_spec {n i : Nat} (hhdr : ∀ c, i ≤ c → c < i + n → hdr c = some (.ofBytes (V c))) :
    (∃ b, findFreeOf hdr sn n i = some (some b) ∧ Offered V sn i (i + n) b) ∨
      (findFreeOf hdr sn n i = some none ∧ ∀ b, ¬Offered V sn i (i + n) b) := by
  induction n generalizing i with
  | zero => exact .inr ⟨rfl, fun b h => absurd h.lt (by have := h.le; omega)⟩
  | succ n ih =>
    have hih := @ih (i + 1) fun c hc hc' => hhdr c (by omega) (by omega)
    -- a block that is passed over does not matter for the blocks behind it
    have hpass : PassedOver V sn i → findFreeOf hdr sn (n + 1) i = findFreeOf hdr sn n (i + 1) →
        (∃ b, findFreeOf hdr sn (n + 1) i = some (some b) ∧ Offered V sn i (i + (n + 1)) b) ∨
          (findFreeOf hdr sn (n + 1) i = some none ∧ ∀ b, ¬Offered V sn i (i + (n + 1)) b) := by
      intro hp heq
      rw [heq]
      rcases hih with ⟨b, hb, h⟩ | ⟨hnone, h⟩
      · refine .inl ⟨b, hb, by have := h.le; omega, by have := h.lt; omega, h.free, fun c hc hc' => ?_⟩
        by_cases hci : c = i
        · rwa [hci]
        · exact h.passed c (by omega) hc'
      · refine .inr ⟨hnone, fun b hb => h b ⟨?_, by have := hb.lt; omega, hb.free, ?_⟩⟩
        · by_contra hlt
          obtain rfl : b = i := by have := hb.le; omega
          exact hp.1 hb.free
        · intro c hc hc'
          exact hb.passed c (by omega) hc'
    have hsucc := @findFreeOf_succ _ _ sn n i (hhdr i (Nat.le_refl i) (by omega))
    by_cases hlive : Live (V i)
    · have hstatus := not_free_of_live hlive
      by_cases hsn : u32 (V i) 0 = sn
      · apply hpass ⟨hstatus, fun _ => hsn⟩
        rw [hsucc, if_pos hlive, if_neg (not_not.mpr hsn)]
      · refine .inr ⟨?_, fun b hb => ?_⟩
        · rw [hsucc, if_pos hlive, if_pos hsn]
        · by_cases hbi : b = i
          · exact hstatus (hbi ▸ hb.free)
          · exact hsn ((hb.passed i (Nat.le_refl i) (by have := hb.le; omega)).2 hlive)
    · by_cases hfree : V i 5 = BlockStatus.free
      · refine .inl ⟨i, ?_, Nat.le_refl i, by omega, hfree, fun c hc hc' => absurd hc' (by omega)⟩
        rw [hsucc, if_neg hlive, if_pos hfree]
      · apply hpass ⟨hfree, fun h => absurd h hlive⟩
        rw [hsucc, if_neg hlive, if_neg hfree]

/-- The first window that offers a block, of the windows of a section's length that start in the data area. -/
def ScanOffers (g : Geometry) (V : Nat → Bytes) (sn i b : Nat) : Prop :=
  ∃ k, i + k * g.eraseable < g.total ∧
    Offered V sn (i + k * g.eraseable) (i + k * g.eraseable + g.eraseable) b ∧
    ∀ j < k, ∀ c, ¬Offered V sn (i + j * g.eraseable) (i + j * g.eraseable + g.eraseable) c

theorem ScanOffers.unique {i b b' : Nat} (h : ScanOffers g V sn i b) (h' : ScanOffers g V sn i b') : b = b' := by
  obtain ⟨k, _, hk, hbefore⟩ := h
  obtain ⟨k', _, hk', hbefore'⟩ := h'
  rcases Nat.lt_trichotomy k k' with hlt | heq | hlt
  · exact absurd hk (hbefore' k hlt b)
  · subst heq
    exact hk.unique hk'
  · exact absurd hk' (hbefore k' hlt b')

/-- The scan from `i` on, when the window at `i` offers nothing. -/
theorem scanOffers_of_next {i b : Nat} (hno : ∀ c, ¬Offered V sn i (i + g.eraseable) c) :
    ScanOffers g V sn i b ↔ ScanOffers g V sn (i + g.eraseable) b := by
  have hshift : ∀ k, i + g.eraseable + k * g.eraseable = i + (k + 1) * g.eraseable := by
    intro k
    rw [Nat.succ_mul]
    omega
  constructor
  · rintro ⟨k, hk, hoff, hbefore⟩
    cases k with
    | zero =>
      rw [Nat.zero_mul, Nat.add_zero] at hoff
      exact absurd hoff (hno b)
    | succ k =>
      refine ⟨k, by rwa [hshift], by rwa [hshift], fun j hj c => ?_⟩
      rw [hshift]
      exact hbefore (j + 1) (by omega) c
  · rintro ⟨k, hk, hoff, hbefore⟩
    rw [hshift] at hk hoff
    refine ⟨k + 1, hk, hoff, fun j hj c => ?_⟩
    cases j with
    | zero =>
      rw [Nat.zero_mul, Nat.add_zero]
      exact hno c
    | succ j =>
      have := hbefore j (by omega) c
      rwa [hshift] at this

theorem not_scanOffers_of_le {i b : Nat} (hi : g.total ≤ i) : ¬ScanOffers g V sn i b := by
  rintro ⟨k, hk, _⟩
  exact absurd (Nat.le_trans hi (Nat.le_add_right i _)) (Nat.not_le.mpr hk)

theorem findWindow_spec (hhdr : ∀ c < g.total + g.eraseable, hdr c = some (.ofBytes (V c))) {n i : Nat}
    (hn : g.total ≤ i + n * g.eraseable) :
    (∃ b, findWindow g hdr sn n i = some (some b) ∧ ScanOffers g V sn i b) ∨
      (findWindow g hdr sn n i = some none ∧ ∀ b, ¬ScanOffers g V sn i b) := by
  induction n generalizing i with
  | zero => exact .inr ⟨rfl, fun b => not_scanOffers_of_le (by omega)⟩
  | succ n ih =>
    rw [findWindow]
    by_cases hi : i < g.total
    · rw [if_pos hi]
      rcases @findFreeOf_spec _ _ sn g.eraseable i (fun c _ hc => hhdr c (by omega)) with
        ⟨b, hb, h⟩ | ⟨hnone, hno⟩
      · rw [hb]
        refine .inl ⟨b, rfl, 0, by omega, ?_, fun j hj => absurd hj (by omega)⟩
        rwa [Nat.zero_mul, Nat.add_zero]
      · rw [hnone]
        show (∃ b, findWindow g hdr sn n (i + g.eraseable) = _ ∧ _) ∨ (findWindow g hdr sn n (i + g.eraseable) = _ ∧ _)
        simp only [scanOffers_of_next hno]
        apply ih
        rw [Nat.succ_mul] at hn
        omega
    · rw [if_neg hi]
      exact .inr ⟨rfl, fun b => not_scanOffers_of_le (by omega)⟩

/-! ### The three scans -/

/-- The hint that the scans start from. -/
def startHint (hint : Nat) : Nat := if hint < firstBlock then firstBlock else hint

/-- The first block of the section behind that of `hint`. -/
def nextSection (g : Geometry) (hint : Nat) : Nat := g.eraseable - hint % g.eraseable + hint

/-- The first free block behind the hint in its section. -/
def Near (g : Geometry) (V : Nat → Bytes) (hint b : Nat) : Prop :=
  hint ≠ blockInvalid ∧ FirstFree V (hint + 1) (nextSection g hint) b

/-- Where the windows start. -/
def scanStart (g : Geometry) (hint : Nat) : Nat := if hint ≠ blockInvalid then nextSection g hint else firstBlock

/-- The block that the three scans come to first. -/
def Taken (g : Geometry) (V : Nat → Bytes) (sn hint b : Nat) : Prop :=
  Near g V (startHint hint) b ∨
    (∀ c, ¬Near g V (startHint hint) c) ∧
      (ScanOffers g V sn (scanStart g (startHint hint)) b ∨
        (∀ c, ¬ScanOffers g V sn (scanStart g (startHint hint)) c) ∧ FirstFree V firstBlock g.total b)

/-- The first scan reads behind the end of the device. -/
def StopsOff (g : Geometry) (hint : Nat) : Prop :=
  startHint hint ≠ blockInvalid ∧ g.total + g.eraseable ≤ startHint hint ∧
    startHint hint + 1 < nextSection g (startHint hint)

instance (g : Geometry) (hint : Nat) : Decidable (StopsOff g hint) := inferInstanceAs (Decidable (_ ∧ _ ∧ _))

theorem Taken.unique {hint b b' : Nat} (h : Taken g V sn hint b) (h' : Taken g V sn hint b') : b = b' := by
  rcases h with hnear | ⟨hno, hscan | ⟨hnoscan, hany⟩⟩
  · rcases h' with hnear' | ⟨hno', _⟩
    · exact hnear.2.unique hnear'.2
    · exact absurd hnear (hno' b)
  · rcases h' with hnear' | ⟨_, hscan' | ⟨hnoscan', _⟩⟩
    · exact absurd hnear' (hno b')
    · exact hscan.unique hscan'
    · exact absurd hscan (hnoscan' b)
  · rcases h' with hnear' | ⟨_, hscan' | ⟨_, hany'⟩⟩
    · exact absurd hnear' (hno b')
    · exact absurd hscan' (hnoscan b')
    · exact hany.unique hany'

theorem lt_nextSection (hint : Nat) : hint < nextSection g hint := by
  have hpos := g.scratch_fits
  have hmod := Nat.mod_lt hint (show g.eraseable > 0 by omega)
  rw [nextSection]
  omega

theorem nextSection_le_mul {hint m : Nat} (h : hint < m * g.eraseable) : nextSection g hint ≤ m * g.eraseable := by
  have hpos := g.scratch_fits
  have hdiv := Nat.div_add_mod hint g.eraseable
  have hmod := Nat.mod_lt hint (show g.eraseable > 0 by omega)
  have hsection : hint / g.eraseable < m := by
    rw [Nat.div_lt_iff_lt_mul (by omega)]
    exact h
  have hle := Nat.mul_le_mul_right g.eraseable (Nat.succ_le_of_lt hsection)
  rw [Nat.succ_mul, Nat.mul_comm (hint / g.eraseable)] at hle
  rw [nextSection]
  omega

theorem nextSection_le {hint : Nat} (h : hint < g.total + g.eraseable) :
    nextSection g hint ≤ g.total + g.eraseable := by
  rw [← g.total_add_eraseable] at h ⊢
  exact nextSection_le_mul h

section

variable {s : St} {hint : Nat}

theorem searchBlock_eq_orSearch (hint : Nat) :
    searchBlock g hdr sn hint =
      if startHint hint ≠ blockInvalid then
        orSearch (findFree hdr (nextSection g (startHint hint) - (startHint hint + 1)) (startHint hint + 1))
          (orSearch (findWindow g hdr sn (g.sections + 1) (nextSection g (startHint hint)))
            (findFree hdr (g.total - firstBlock) firstBlock))
      else
        orSearch (findWindow g hdr sn (g.sections + 1) firstBlock)
          (findFree hdr (g.total - firstBlock) firstBlock) := rfl

/-- The blocks that the first scan reads are on the device. -/
theorem lt_of_not_stopsOff (hon : ¬StopsOff g hint) (hhint : startHint hint ≠ blockInvalid) {c : Nat}
    (hc : startHint hint + 1 ≤ c) (hc' : c < nextSection g (startHint hint)) : c < g.total + g.eraseable := by
  by_cases hlt : startHint hint < g.total + g.eraseable
  · exact Nat.lt_of_lt_of_le hc' (nextSection_le hlt)
  · exact absurd ⟨hhint, Nat.not_lt.mp hlt, Nat.lt_of_le_of_lt hc hc'⟩ hon

variable (sn) in
/-- The search finds the block that the scans come to first, and finds nothing only if no block is free. -/
theorem searchBlock_spec (hup : s.up = true) (hon : ¬StopsOff g hint) :
    (∃ b, searchBlock g (hdrAt g s) sn hint = some (some b) ∧ Taken g (blk s.flash) sn hint b) ∨
      (searchBlock g (hdrAt g s) sn hint = some none ∧ (∀ b, ¬Taken g (blk s.flash) sn hint b) ∧
        ∀ b, firstBlock ≤ b → b < g.total → blk s.flash b 5 ≠ BlockStatus.free) := by
  have hpos := g.scratch_fits
  have htotal : 1 ≤ g.total := Nat.le_trans (by omega) (Nat.le_mul_of_pos_left g.eraseable g.sections_pos)
  have hhdr : ∀ c < g.total + g.eraseable, hdrAt g s c = some (.ofBytes (blk s.flash c)) := fun c hc => hdrAt_eq hup hc
  have hany := @findFree_spec (blk s.flash) (hdrAt g s) (g.total - firstBlock) firstBlock
    fun c _ hc => hhdr c (by simp only [firstBlock] at hc; omega)
  rw [show firstBlock + (g.total - firstBlock) = g.total by simp only [firstBlock]; omega] at hany
  -- the windows and what follows them, from any start of the second scan
  have hrest : ∀ i, i = scanStart g (startHint hint) → (∀ c, ¬Near g (blk s.flash) (startHint hint) c) →
      let r := orSearch (findWindow g (hdrAt g s) sn (g.sections + 1) i)
        (findFree (hdrAt g s) (g.total - firstBlock) firstBlock)
      (∃ b, r = some (some b) ∧ Taken g (blk s.flash) sn hint b) ∨
        (r = some none ∧ (∀ b, ¬Taken g (blk s.flash) sn hint b) ∧
          ∀ b, firstBlock ≤ b → b < g.total → blk s.flash b 5 ≠ BlockStatus.free) := by
    intro i hi hnear
    dsimp only
    have henough : g.total ≤ i + (g.sections + 1) * g.eraseable := by
      rw [g.total_add_eraseable]
      omega
    rcases @findWindow_spec g (blk s.flash) (hdrAt g s) sn hhdr (g.sections + 1) i henough with ⟨b, hb, h⟩ | ⟨hnone, hno⟩
    · rw [hb]
      exact .inl ⟨b, rfl, .inr ⟨hnear, .inl (hi ▸ h)⟩⟩
    · rw [hnone]
      rw [hi] at hno
      rcases hany with ⟨b, hb, h⟩ | ⟨hnone', hno'⟩
      · exact .inl ⟨b, hb, .inr ⟨hnear, .inr ⟨hno, h⟩⟩⟩
      · refine .inr ⟨hnone', ?_, hno'⟩
        rintro b (h | ⟨_, h | ⟨_, h⟩⟩)
        · exact hnear b h
        · exact hno b h
        · exact hno' b h.le h.lt h.free
  rw [searchBlock_eq_orSearch]
  by_cases hhint : startHint hint ≠ blockInvalid
  · rw [if_pos hhint]
    have hlt := @lt_nextSection g (startHint hint)
    have hnear := @findFree_spec (blk s.flash) (hdrAt g s) (nextSection g (startHint hint) - (startHint hint + 1))
      (startHint hint + 1) fun c hc hc' => hhdr c (lt_of_not_stopsOff hon hhint hc (by omega))
    rw [show startHint hint + 1 + (nextSection g (startHint hint) - (startHint hint + 1)) =
      nextSection g (startHint hint) by omega] at hnear
    rcases hnear with ⟨b, hb, h⟩ | ⟨hnone, hno⟩
    · rw [hb]
      exact .inl ⟨b, rfl, .inl ⟨hhint, h⟩⟩
    · rw [hnone]
      apply hrest
      · exact (if_pos hhint).symm
      · exact fun c hc => hno c hc.2.le hc.2.lt hc.2.free
  · rw [if_neg hhint]
    apply hrest
    · exact (if_neg hhint).symm
    · exact fun c hc => hhint hc.1

theorem searchBlock_stopsOff (hoff : StopsOff g hint) : searchBlock g (hdrAt g s) sn hint = none := by
  obtain ⟨hhint, hle, hlt⟩ := hoff
  have hunread : hdrAt g s (startHint hint + 1) = none := by
    apply if_neg
    rw [St.reaches, Bool.and_eq_true, decide_eq_true_eq, g.size_eq]
    simp only [blockAddr, blockSize]
    omega
  rw [searchBlock_eq_orSearch, if_pos hhint]
  obtain ⟨n, hn⟩ := Nat.exists_eq_add_of_lt (Nat.sub_pos_of_lt hlt)
  rw [hn, Nat.zero_add, findFree, hunread]
  rfl

end

/-! ### The outcome of an allocation -/

/-- A block of the data area is free. -/
def SomeFree (g : Geometry) (V : Nat → Bytes) : Prop :=
  ∃ b, firstBlock ≤ b ∧ b < g.total ∧ V b 5 = BlockStatus.free

/-- The header can be stored in the block without setting a bit. -/
def TakesHeader (V : Nat → Bytes) (sn : Nat) (type : UInt8) (b : Nat) : Prop :=
  Fits (V b) 0 (BlockHdr.toBytes ⟨sn, type, BlockStatus.opened⟩)

/-- The block is one of the data area that was free, and of the medium only its header has changed. -/
structure ExactBlock (g : Geometry) (s : St) (sn : Nat) (type : UInt8) (b : Nat) (s' : St) : Prop where
  pos : firstBlock ≤ b
  lt : b < g.total
  free : blk s.flash b 5 = BlockStatus.free
  header : BlockHdr.ofBytes (blk s'.flash b) = ⟨sn, type, BlockStatus.opened⟩
  other : ∀ a, ¬(blockAddr b ≤ a ∧ a < blockAddr b + blockHeaderSize) → s'.flash.get a = s.flash.get a

/-- The allocation returns, with a block that it should have, or with none and then no block is free. -/
structure AllocExact (g : Geometry) (s : St) (sn hint : Nat) (type : UInt8) : Prop where
  sound : ∀ b s', allocBlock g sn hint type s = .ok b s' → ExactBlock g s sn type b s'
  complete : ∀ s', allocBlock g sn hint type s = .error s' → ¬SomeFree g (blk s.flash)
  returns : allocBlock g sn hint type s ≠ .hang

/-- With a free block in the data area, the scans stay on the device and come first to a block of the data area that
takes the header; without one, they come to no block that takes it. -/
def ScansSettle (g : Geometry) (s : St) (sn hint : Nat) (type : UInt8) : Prop :=
  (SomeFree g (blk s.flash) → ¬StopsOff g hint ∧
    ∀ b, Taken g (blk s.flash) sn hint b → b < g.total ∧ TakesHeader (blk s.flash) sn type b) ∧
  (¬SomeFree g (blk s.flash) → ¬StopsOff g hint →
    ∀ b, Taken g (blk s.flash) sn hint b → ¬TakesHeader (blk s.flash) sn type b)

section

variable {s : St} {hint : Nat} {type : UInt8}

theorem allocBlock_eq : allocBlock g sn hint type s =
    (match searchBlock g (hdrAt g s) sn hint with
      | some (some b) => (do markAllocated g b sn type; return b)
      | _ => Cmd.fail) s := rfl

theorem allocBlock_found {b : Nat} (h : searchBlock g (hdrAt g s) sn hint = some (some b)) :
    allocBlock g sn hint type s = Cmd.bind (markAllocated g b sn type) (fun _ => pure b) s := by
  rw [allocBlock_eq, h]
  rfl

theorem allocBlock_nothing (h : ∀ b, searchBlock g (hdrAt g s) sn hint ≠ some (some b)) :
    allocBlock g sn hint type s = .error s := by
  rcases hr : searchBlock g (hdrAt g s) sn hint with _ | _ | b
  · rw [allocBlock_eq, hr]
    rfl
  · rw [allocBlock_eq, hr]
    rfl
  · exact absurd hr (h b)

theorem allocExact_ok {b : Nat} {s' : St} (h : allocBlock g sn hint type s = .ok b s') :
    AllocExact g s sn hint type ↔ ExactBlock g s sn type b s' := by
  constructor
  · exact fun hexact => hexact.sound b s' h
  · intro hb
    refine ⟨fun c t hc => ?_, fun t ht => ?_, fun hhang => ?_⟩
    · obtain ⟨rfl, rfl⟩ := Outcome.ok.inj (h.symm.trans hc)
      exact hb
    · exact nomatch h.symm.trans ht
    · exact nomatch h.symm.trans hhang

theorem allocExact_error {s' : St} (h : allocBlock g sn hint type s = .error s') :
    AllocExact g s sn hint type ↔ ¬SomeFree g (blk s.flash) := by
  constructor
  · exact fun hexact => hexact.complete s' h
  · intro hno
    refine ⟨fun c t hc => ?_, fun _ _ => hno, fun hhang => ?_⟩
    · exact nomatch h.symm.trans hc
    · exact nomatch h.symm.trans hhang

theorem clears_of_slice_put {loc : Nat} {bs : List UInt8}
    (h : slice (s.put loc bs).flash.get loc bs.length = bs) : s.flash.Clears loc bs := by
  intro i hi
  have hget : (s.put loc bs).flash.get (loc + i) = bs[i] := by
    have hlen : i < (slice (s.put loc bs).flash.get loc bs.length).length := by rwa [length_slice]
    rw [← getElem_slice _ _ _ i hlen]
    simp only [h]
  have hprog : (s.put loc bs).flash.get (loc + i) = s.flash.get (loc + i) &&& bs[i] := by
    show (s.flash.program loc bs).get (loc + i) = _
    rw [Flash.get_program, dif_pos ⟨Nat.le_add_right loc i, by omega⟩]
    simp only [Nat.add_sub_cancel_left]
  rw [UInt8.and_comm, ← hprog, hget]

theorem Taken.free {b : Nat} (h : Taken g V sn hint b) : 1 ≤ b ∧ V b 5 = BlockStatus.free := by
  have hstart : 1 ≤ scanStart g (startHint hint) := by
    rw [scanStart]
    split
    · have := @lt_nextSection g (startHint hint)
      omega
    · exact Nat.le_refl 1
  rcases h with h | ⟨_, h | ⟨_, h⟩⟩
  · exact ⟨Nat.le_trans (Nat.le_add_left 1 _) h.2.le, h.2.free⟩
  · obtain ⟨k, _, hoff, _⟩ := h
    exact ⟨Nat.le_trans (Nat.le_trans hstart (Nat.le_add_right _ _)) hoff.le, hoff.free⟩
  · exact ⟨h.le, h.free⟩

/-- Marking a block that the scans have come to. -/
theorem markAllocated_eq {b : Nat} (hread : s.reaches g (blockAddr b) blockHeaderSize = true) :
    (TakesHeader (blk s.flash) sn type b ∧
        markAllocated g b sn type s =
          .ok () (s.put (blockAddr b) (BlockHdr.toBytes ⟨sn, type, BlockStatus.opened⟩))) ∨
      (¬TakesHeader (blk s.flash) sn type b ∧
        markAllocated g b sn type s =
          .error (s.put (blockAddr b) (BlockHdr.toBytes ⟨sn, type, BlockStatus.opened⟩))) := by
  have hlen : (BlockHdr.toBytes ⟨sn, type, BlockStatus.opened⟩).length = 6 := rfl
  have hreach : s.reaches g (blockAddr b) (BlockHdr.toBytes ⟨sn, type, BlockStatus.opened⟩).length = true := hread
  unfold TakesHeader markAllocated
  generalize BlockHdr.toBytes ⟨sn, type, BlockStatus.opened⟩ = bs at *
  by_cases hfit : Fits (blk s.flash b) 0 bs
  · have hclears : s.flash.Clears (blockAddr b) bs := clears_of_fits (o := 0) (by omega) hfit
    refine .inl ⟨hfit, ?_⟩
    rw [clDevWrite, if_pos hreach, if_pos (slice_put hclears)]
  · refine .inr ⟨hfit, ?_⟩
    rw [clDevWrite, if_pos hreach, if_neg]
    intro hslice
    apply hfit
    intro i hi
    have := clears_of_slice_put hslice i hi
    rwa [Nat.zero_add, blk_of_lt (by omega)]

/-- The header is stored, and nothing else changes. -/
theorem marked {b : Nat} (hsn : sn < 2 ^ 32) (hfit : TakesHeader (blk s.flash) sn type b) :
    BlockHdr.ofBytes (blk (s.put (blockAddr b) (BlockHdr.toBytes ⟨sn, type, BlockStatus.opened⟩)).flash b) =
        ⟨sn, type, BlockStatus.opened⟩ ∧
      ∀ a, ¬(blockAddr b ≤ a ∧ a < blockAddr b + blockHeaderSize) →
        (s.put (blockAddr b) (BlockHdr.toBytes ⟨sn, type, BlockStatus.opened⟩)).flash.get a = s.flash.get a := by
  constructor
  · have hself : blk (s.put (blockAddr b) (BlockHdr.toBytes ⟨sn, type, BlockStatus.opened⟩)).flash b = _ :=
      blk_put_self (o := 0) (show 0 + 6 ≤ 128 by decide) hfit
    rw [hself]
    have h32 : u32 (overwrite (blk s.flash b) 0 (BlockHdr.toBytes ⟨sn, type, BlockStatus.opened⟩)) 0 = sn :=
      u32_eq_of_le32 hsn rfl rfl rfl rfl
    rw [BlockHdr.ofBytes, h32]
    rfl
  · intro a ha
    apply get_put_of_lt
    show a < blockAddr b ∨ blockAddr b + 6 ≤ a
    simp only [blockHeaderSize] at ha
    omega

theorem not_someFree (h : ∀ b, firstBlock ≤ b → b < g.total → V b 5 ≠ BlockStatus.free) : ¬SomeFree g V :=
  fun ⟨b, hb, hb', hfree⟩ => h b hb hb' hfree

/-- An allocation is exact if and only if the scans settle. -/
theorem allocExact_iff (hint : Nat) (type : UInt8) (hup : s.up = true) (hsn : sn < 2 ^ 32) :
    AllocExact g s sn hint type ↔ ScansSettle g s sn hint type := by
  by_cases hoff : StopsOff g hint
  -- the search goes beyond the device and takes nothing
  · have herror : allocBlock g sn hint type s = .error s := by
      apply allocBlock_nothing
      rw [searchBlock_stopsOff hoff]
      exact fun b h => by cases h
    rw [allocExact_error herror]
    constructor
    · exact fun h => ⟨fun hsome => absurd hsome h, fun _ hon => absurd hoff hon⟩
    · exact fun h hsome => (h.1 hsome).1 hoff
  rcases searchBlock_spec sn hup hoff with ⟨b, hb, htaken⟩ | ⟨hnone, hno, hfree⟩
  · obtain ⟨hpos, x, hx, hfree⟩ := searchBlock_free hb
    have hread : s.reaches g (blockAddr b) blockHeaderSize = true := by
      by_contra hno
      rw [hdrAt, if_neg hno] at hx
      exact absurd hx (by simp)
    have hmark := @allocBlock_found g sn s hint type b hb
    have honly : ∀ b', Taken g (blk s.flash) sn hint b' → b' = b := fun b' h => h.unique htaken
    rcases markAllocated_eq hread with ⟨hfit, hok⟩ | ⟨hfit, herror⟩
    -- the block that was found is marked
    · rw [Cmd.bind, hok] at hmark
      rw [allocExact_ok hmark]
      obtain ⟨hself, hother⟩ := marked hsn hfit
      constructor
      · intro h
        refine ⟨fun _ => ⟨hoff, fun b' h' => ?_⟩, fun hno => absurd ⟨b, h.pos, h.lt, h.free⟩ hno⟩
        rw [honly b' h']
        exact ⟨h.lt, hfit⟩
      · rintro ⟨hwith, hwithout⟩
        by_cases hsome : SomeFree g (blk s.flash)
        · exact ⟨hpos, ((hwith hsome).2 b htaken).1, htaken.free.2, hself, hother⟩
        · exact absurd hfit (hwithout hsome hoff b htaken)
    -- its header cannot be written
    · rw [Cmd.bind, herror] at hmark
      rw [allocExact_error hmark]
      constructor
      · intro hno
        refine ⟨fun h => absurd h hno, fun _ _ b' h' => ?_⟩
        rwa [honly b' h']
      · rintro ⟨hwith, _⟩ hsome
        exact hfit ((hwith hsome).2 b htaken).2
  -- nothing is found, and no block is free
  · have herror : allocBlock g sn hint type s = .error s := by
      apply allocBlock_nothing
      rw [hnone]
      exact fun b h => by cases h
    rw [allocExact_error herror]
    constructor
    · exact fun h => ⟨fun hsome => absurd hsome h, fun _ _ b hb => absurd hb (hno b)⟩
    · exact fun _ => not_someFree hfree

end

/-- One erased section in front of the scratch area. -/
def erasedSection : Geometry := ⟨31, 1, by decide, by decide, by decide⟩

def erasedMedium : St := ⟨.blank, 0, 0, true, []⟩

theorem blk_erasedMedium {b i : Nat} (h : i < 128) : blk erasedMedium.flash b i = 0xFF := by
  rw [blk_of_lt h]
  exact Flash.get_blank _

/-- The first allocation on an erased device. -/
theorem allocExact_erased : AllocExact erasedSection erasedMedium 7 0 BlockType.fileHdr := by
  refine (allocExact_iff 0 BlockType.fileHdr rfl (by decide)).mpr ⟨fun _ => ⟨by decide, fun b hb => ⟨?_, ?_⟩⟩, ?_⟩
  · rcases hb with h | ⟨_, h | ⟨_, h⟩⟩
    · exact h.2.lt
    · exact absurd h (not_scanOffers_of_le (Nat.le_refl 31))
    · exact h.lt
  · apply fits_of_blank
    intro i hi
    rw [Nat.zero_add]
    exact blk_erasedMedium (Nat.lt_of_lt_of_le hi (by decide))
  · exact fun hno => absurd ⟨1, Nat.le_refl 1, by decide, blk_erasedMedium (by decide)⟩ hno

/-- Two sections, and the scratch area. -/
def twoSections : Geometry := ⟨31, 2, by decide, by decide, by decide⟩

/-- All blocks are dirty but for block 1, which the list of serial numbers uses; the scratch area is erased. -/
def dirtyFlash : Flash := ⟨2 ^ (1024 * 62) - 1 - 0x80 <<< (8 * 132) - 0xFC <<< (8 * 133)⟩

def dirtyMedium : St := ⟨dirtyFlash, 0, 0, true, []⟩

/-- Without a hint the last window reaches block 62, which is the start of the scratch area. -/
theorem searchBlock_dirtyMedium :
    searchBlock twoSections (hdrAt twoSections dirtyMedium) 7 blockInvalid = some (some 62) := by
  decide +kernel

theorem not_allocExact :
    ¬∀ (g : Geometry) (s : St) (sn hint : Nat) (type : UInt8), s.up = true → sn < 2 ^ 32 → hint ≤ blockInvalid →
      AllocExact g s sn hint type := by
  intro h
  have hexact := h twoSections dirtyMedium 7 blockInvalid BlockType.fileHdr rfl (by decide) (Nat.le_refl _)
  have hfit : dirtyMedium.flash.Clears (blockAddr 62) (BlockHdr.toBytes ⟨7, BlockType.fileHdr, BlockStatus.opened⟩) := by
    decide +kernel
  have hreach : dirtyMedium.reaches twoSections (blockAddr 62)
      (BlockHdr.toBytes ⟨7, BlockType.fileHdr, BlockStatus.opened⟩).length = true :=
    reaches_block (o := 0) rfl (show 62 < 2 * 31 + 31 by decide) (show 0 + 6 ≤ 128 by decide)
  have hmark : allocBlock twoSections 7 blockInvalid BlockType.fileHdr dirtyMedium =
      .ok 62 (dirtyMedium.put (blockAddr 62) (BlockHdr.toBytes ⟨7, BlockType.fileHdr, BlockStatus.opened⟩)) := by
    rw [allocBlock_found searchBlock_dirtyMedium, Cmd.bind, markAllocated, clDevWrite, if_pos hreach, if_pos (slice_put hfit)]
    rfl
  exact absurd ((allocExact_ok hmark).mp hexact).lt (show ¬62 < 2 * 31 by decide)

end CoActionOS.Cafs
