import CoActionOS.Bootloader.Update

/-!
# An update is all or nothing

The vector page stays erased until the rest of the image is in the flash.  So whatever becomes of the operations of
the link, the vector page is still erased at the end of an update or the flash holds the image, in which case alone
the update may report success.  This needs a `startaddr` that is the start of the program, or one that cannot be
written, and a callback that does not stop the update.
-/

namespace CoActionOS

namespace Bootloader

open Link

/-! ### The statement -/

/-- What the linker script gives: the program starts behind the bootloader, at a distance from the end of the flash
that is a whole number of pages. -/
structure Layout (board : Board) : Prop where
  boot : getPageAddr hwplLastBootloaderPage ≤ board.programStart.toNat
  vectors : board.programStart.toNat + vectorSize ≤ board.flashSize
  pages : bufferSize ∣ board.flashSize - board.programStart.toNat
  size : board.flashSize < 2 ^ 31

section

variable (board : Board) (image : List UInt8) (m : Memory)

def VectorsErased : Prop := ∀ i < vectorSize, m (board.programStart.toNat + i) = 0xFF

def Installed : Prop := ∀ i < image.length, m (board.programStart.toNat + i) = image.getD i 0

/-- Either the vector page is still erased or the image is there, and only then success is reported. -/
structure AllOrNothing (r : Session × Int) : Prop where
  either : VectorsErased board r.1.boot.memory ∨ Installed board image r.1.boot.memory
  success : 0 ≤ r.2 → Installed board image r.1.boot.memory

/-- The flash of the program is erased. -/
def ProgramErased : Prop := ∀ a, board.programStart.toNat ≤ a → a < board.flashSize → m a = 0xFF

end

/-- The operation is carried out and answered, and a page that comes with it is copied. -/
def Step.Succeeds (step : Step) : Prop := step.fate = .done ∧ step.rom.written = true

section

variable (board : Board) (steps : Nat → Step) (q : Request)

/-- The first `n` pages are all written, by the operations from `base` on. -/
def PagesWritten (base n : Nat) : Prop :=
  ∀ i < n, (steps (base + i)).Succeeds ∧ board.programStart.toNat + bufferSize * i < board.flashSize

/-- `update` does not ask to stop after a page that is written. -/
def NeverStopped (base : Nat) : Prop :=
  ∀ n p, p = min (bufferSize * n) q.image.length → bufferSize * (n - 1) < p → PagesWritten board steps base n →
    q.update p q.image.length = false

/-- The update is never asked to stop, and the start address that the bootloader sends is the right one, or one that
cannot be written, or does not arrive. -/
structure Careful (used : Nat) : Prop where
  update : NeverStopped board steps q (used + 1)
  start : (steps used).locals.startaddr = board.programStart ∨
    (steps used).locals.startaddr.toNat < getPageAddr hwplLastBootloaderPage ∨
    board.flashSize ≤ (steps used).locals.startaddr.toNat ∨ (steps used).fate ≠ .done

end

/-! ### Operations -/

section

variable {board : Board} {steps : Nat → Step} {s : Session}

variable (steps s) in
/-- The memory after an operation that does not fail to end is the one before or the one the command leaves. -/
theorem link_memory (act : Step → Boot → Boot) :
    let r := s.link steps fun step b => some (act step b)
    (r.1.boot = s.boot ∨ r.1.boot = act (steps s.used) s.boot) ∧
      ∀ b, r.2 = .ok b → b = r.1.boot ∧ b = act (steps s.used) s.boot ∧ (steps s.used).fate = .done := by
  unfold Session.link
  dsimp only
  split_ifs
  · exact ⟨.inl rfl, fun b hb => by cases hb⟩
  · cases hfate : (steps s.used).fate with
    | lost e => exact ⟨.inl rfl, fun b hb => by cases hb⟩
    | cut e => exact ⟨.inr rfl, fun b hb => by cases hb⟩
    | done =>
      refine ⟨.inr rfl, fun b hb => ?_⟩
      cases hb
      exact ⟨rfl, rfl, rfl⟩

variable (steps s) in
theorem link_used (act : Step → Boot → Option Boot) : (s.link steps act).1.used = s.used + 1 := by
  unfold Session.link
  dsimp only
  split_ifs
  · rfl
  · cases (steps s.used).fate <;> rfl

/-- The bytes that an erase has not made `0xFF` are as they were. -/
def ErasedFrom (m m' : Memory) : Prop := ∀ a, m' a = m a ∨ m' a = 0xFF

theorem ErasedFrom.refl (m : Memory) : ErasedFrom m m := fun _ => .inl rfl

theorem ErasedFrom.trans {m m' m'' : Memory} (h : ErasedFrom m m') (h' : ErasedFrom m' m'') : ErasedFrom m m'' := by
  intro a
  rcases h' a with h' | h'
  · rw [h']
    exact h a
  · exact .inr h'

theorem erasedFrom_store (m : Memory) (addr n : Nat) : ErasedFrom m (m.store addr (List.replicate n 0xFF)) := by
  intro a
  by_cases hlt : a < addr
  · exact .inl (store_of_lt hlt)
  · by_cases hge : addr + (List.replicate n (0xFF : UInt8)).length ≤ a
    · exact .inl (store_of_ge hge)
    · right
      rw [List.length_replicate] at hge
      rw [store_of_le (Nat.not_lt.mp hlt), List.getD_eq_getElem _ _ (by rw [List.length_replicate]; omega),
        List.getElem_replicate]

theorem erasedFrom_erasePage (flashSize : Nat) (erased : Nat → Bool) (page : Nat) (e : Erased) :
    ErasedFrom e.memory (erasePage flashSize erased page e).1.memory := by
  unfold erasePage hwplFlashErasepage
  dsimp only
  split_ifs
  · exact .refl _
  · exact .refl _
  · exact .refl _
  · exact erasedFrom_store _ _ _
  · exact .refl _

theorem erasedFrom_skipPages (flashSize : Nat) (erased : Nat → Bool) (turns page : Nat) (e : Erased) {n : Nat}
    {e' : Erased} (h : skipPages flashSize erased turns page e = some (n, e')) : ErasedFrom e.memory e'.memory := by
  induction turns generalizing page e with
  | zero => cases h
  | succ turns ih =>
    have hpage := erasedFrom_erasePage flashSize erased page e
    unfold skipPages at h
    split at h
    · next e₁ heq =>
      rw [heq] at hpage
      cases h
      exact hpage
    · next e₁ heq =>
      rw [heq] at hpage
      exact hpage.trans (ih (page + 1) e₁ h)

theorem erasedFrom_erasePages (flashSize : Nat) (erased : Nat → Bool) (turns page : Nat) (e : Erased) :
    ErasedFrom e.memory (erasePages flashSize erased turns page e).memory := by
  induction turns generalizing page e with
  | zero => exact .refl _
  | succ turns ih =>
    have hpage := erasedFrom_erasePage flashSize erased page e
    unfold erasePages
    split
    · next e₁ heq =>
      rw [heq] at hpage
      exact hpage.trans (ih (page + 1) e₁)
    · next e₁ heq =>
      rw [heq] at hpage
      exact hpage

theorem erasedFrom_erase {b b' : Boot} {rom : Rom} (h : b.erase board rom = some b') : ErasedFrom b.memory b'.memory := by
  unfold Boot.erase eraseFlash at h
  cases hskip : skipPages board.flashSize rom.erased (board.flashSize / 4096 + 1) 0 ⟨b.memory, b.errno⟩ with
  | none =>
    simp only [hskip] at h
    cases h
  | some p =>
    simp only [hskip, Option.some.injEq] at h
    subst h
    exact (erasedFrom_skipPages _ _ _ _ _ hskip).trans (erasedFrom_erasePages _ _ _ _ _)

/-- An erase, whatever becomes of it. -/
theorem erasedFrom_linkEraseflash : ErasedFrom s.boot.memory (linkEraseflash board steps s).1.boot.memory := by
  have hact : ErasedFrom s.boot.memory ((s.boot.erase board (steps s.used).rom).getD s.boot).memory := by
    cases herase : s.boot.erase board (steps s.used).rom with
    | none => exact .refl _
    | some b => exact erasedFrom_erase herase
  unfold linkEraseflash Session.link
  dsimp only
  split_ifs
  · exact .refl _
  · cases (steps s.used).fate with
    | lost e => exact .refl _
    | cut e => exact hact
    | done => exact hact

theorem VectorsErased.erasedFrom {m m' : Memory} (h : VectorsErased board m) (herased : ErasedFrom m m') :
    VectorsErased board m' := by
  intro i hi
  rcases herased (board.programStart.toNat + i) with hm | hm
  · rw [hm]
    exact h i hi
  · exact hm

theorem ProgramErased.vectors {m : Memory} (layout : Layout board) (h : ProgramErased board m) : VectorsErased board m := by
  intro i hi
  have := layout.vectors
  exact h _ (Nat.le_add_right _ _) (by omega)

/-! ### Writing -/

variable (board) in
/-- A page of the driver is refused, with the memory as it was, or is in the flash. -/
theorem writepage_cases (rom : Rom) (w : Writepage) (b : Boot) (hfits : w.addr < board.flashSize →
      w.addr + w.nbyte ≤ board.flashSize) (hsize : board.flashSize < 2 ^ 31) :
    (b.writepage board rom w).memory = b.memory ∧ isNegative (b.writepage board rom w).reply.err = true ∨
    getPageAddr hwplLastBootloaderPage ≤ w.addr ∧ w.addr < board.flashSize ∧
      (b.writepage board rom w).memory = b.memory.store w.addr (sized (roundNbyte w.nbyte) w.buf) ∧
      rom.written = true := by
  unfold Boot.writepage
  dsimp only
  rw [Boot.noteErrno_memory, Boot.noteErrno_err]
  rcases hwplFlashWritepage_cases board.flashSize rom.written w b.memory with
    ⟨hm, hret⟩ | ⟨hboot, hflash, hwritten, nbyte, hn, -, hrun⟩
  · refine .inl ⟨hm, ?_⟩
    show isNegative (hwplFlashWritepage board.flashSize rom.written w b.memory).ret = true
    rw [hret]
    rfl
  · -- the page does not reach beyond the end of the flash
    have hend := hfits hflash
    rw [Nat.mod_eq_of_lt (by omega), if_neg (by omega)] at hn
    rw [hrun, hn]
    exact .inr ⟨hboot, hflash, rfl, hwritten⟩

theorem ioctlResult_of_negative {b : Boot} (h : isNegative b.reply.err = true) : ioctlResult (.ok b) < 0 := by
  show (if isNegative b.reply.err then linkDevError else b.reply.err.toInt) < 0
  rw [if_pos h]
  decide

variable (board steps s) in
/-- A page is refused or lost, and the host gets an error, or it is in the flash. -/
theorem linkWritepage_cases (w : Writepage) (hfits : w.addr < board.flashSize → w.addr + w.nbyte ≤ board.flashSize)
    (hsize : board.flashSize < 2 ^ 31) :
    let r := linkWritepage board steps w s
    r.1.boot.memory = s.boot.memory ∧ r.2 < 0 ∨
    getPageAddr hwplLastBootloaderPage ≤ w.addr ∧ w.addr < board.flashSize ∧
      r.1.boot.memory = s.boot.memory.store w.addr (sized (roundNbyte w.nbyte) w.buf) ∧
      (r.2 < 0 ∨ (steps s.used).Succeeds) := by
  obtain ⟨hboot, hok⟩ := link_memory steps s fun step b => b.writepage board step.rom w
  have hcases := writepage_cases board (steps s.used).rom w s.boot hfits hsize
  unfold linkWritepage
  generalize s.link steps (fun step b => some (b.writepage board step.rom w)) = r at hboot hok ⊢
  obtain ⟨s', r⟩ := r
  dsimp only at hboot hok ⊢
  cases r with
  | error e =>
    rcases hboot with heq | heq
    · rw [heq]
      exact .inl ⟨rfl, e.2⟩
    · rw [heq]
      rcases hcases with ⟨hm, -⟩ | ⟨haddr, hflash, hm, -⟩
      · exact .inl ⟨hm, e.2⟩
      · exact .inr ⟨haddr, hflash, hm, .inl e.2⟩
  | ok b =>
    obtain ⟨hb, hact, hdone⟩ := hok b rfl
    rw [← hb, hact]
    rcases hcases with ⟨hm, herr⟩ | ⟨haddr, hflash, hm, hwritten⟩
    · exact .inl ⟨hm, ioctlResult_of_negative herr⟩
    · exact .inr ⟨haddr, hflash, hm, .inr ⟨hdone, hwritten⟩⟩

/-- A page as the host sends it. -/
def hostPage (buf : List UInt8) (n : Nat) : List UInt8 :=
  sized n buf ++ List.replicate (bootloaderWritepagesize - n) 0xFF

/-- At most a page is written by one operation. -/
theorem linkWriteflash_eq {addr n : Nat} (buf : List UInt8) (hpos : 0 < n) (hn : n ≤ bootloaderWritepagesize) :
    linkWriteflash board steps addr buf n s =
      ((linkWritepage board steps ⟨addr, n, hostPage buf n⟩ s).1,
        if (linkWritepage board steps ⟨addr, n, hostPage buf n⟩ s).2 < 0 then
          (linkWritepage board steps ⟨addr, n, hostPage buf n⟩ s).2
        else (n : Int)) := by
  have hpage : min bootloaderWritepagesize n = n := Nat.min_eq_right hn
  obtain ⟨turns, rfl⟩ : ∃ turns, n = turns + 1 := ⟨n - 1, by omega⟩
  unfold linkWriteflash
  rw [hpage]
  unfold writeflashLoop
  dsimp only
  rw [if_neg (show ¬ 0 + (turns + 1) < turns + 1 by omega)]
  unfold hostPage
  split_ifs <;> rfl

variable (board steps s) in
/-- A write of at most a page is refused or lost, or the page is in the flash; success is reported in the second
case only. -/
theorem linkWriteflash_cases (addr n : Nat) (buf : List UInt8) (hpos : 0 < n) (hn : n ≤ bootloaderWritepagesize)
    (hfits : addr < board.flashSize → addr + n ≤ board.flashSize) (hsize : board.flashSize < 2 ^ 31) :
    let r := linkWriteflash board steps addr buf n s
    r.1.used = s.used + 1 ∧
    ((r.1.boot.memory = s.boot.memory ∧ r.2 < 0) ∨
    (getPageAddr hwplLastBootloaderPage ≤ addr ∧ addr < board.flashSize ∧
      r.1.boot.memory = s.boot.memory.store addr (sized (roundNbyte n) (hostPage buf n)) ∧
      (r.2 < 0 ∨ r.2 = n ∧ (steps s.used).Succeeds))) := by
  have hlink := linkWritepage_cases board steps s ⟨addr, n, hostPage buf n⟩ hfits hsize
  dsimp only
  rw [linkWriteflash_eq buf hpos hn]
  refine ⟨link_used steps s fun step b => some (b.writepage board step.rom ⟨addr, n, hostPage buf n⟩), ?_⟩
  rcases hlink with ⟨hm, herr⟩ | ⟨hboot, hflash, hm, hdone⟩
  · left
    dsimp only
    rw [if_pos herr]
    exact ⟨hm, herr⟩
  · right
    refine ⟨hboot, hflash, hm, ?_⟩
    dsimp only
    split_ifs with herr
    · exact .inl herr
    · exact .inr ⟨rfl, hdone.resolve_left herr⟩

theorem getD_sized_hostPage (chunk : List UInt8) {i : Nat} (hlen : chunk.length ≤ bootloaderWritepagesize)
    (hi : i < roundNbyte chunk.length) :
    (sized (roundNbyte chunk.length) (hostPage chunk chunk.length)).getD i 0 = chunk.getD i 0xFF := by
  have hround : roundNbyte chunk.length ≤ bootloaderWritepagesize := roundNbyte_le chunk.length
  have hpage : (hostPage chunk chunk.length).length = bootloaderWritepagesize := by
    unfold hostPage
    rw [List.length_append, length_sized, List.length_replicate]
    omega
  have hchunk : sized chunk.length chunk = chunk := by
    unfold sized
    rw [List.take_left]
  have hsized : sized (roundNbyte chunk.length) (hostPage chunk chunk.length) =
      (hostPage chunk chunk.length).take (roundNbyte chunk.length) := by
    unfold sized
    rw [List.take_append_of_le_length (by omega)]
  rw [hsized, List.getD_eq_getElem _ _ (by rw [List.length_take]; omega), List.getElem_take]
  by_cases hin : i < chunk.length
  · have hget : (hostPage chunk chunk.length).getD i 0 = chunk.getD i 0 := by
      unfold hostPage
      rw [hchunk, List.getD_append _ _ _ _ hin]
    rw [← List.getD_eq_getElem _ 0 (by omega), hget, List.getD_eq_getElem _ _ hin, List.getD_eq_getElem _ _ hin]
  · have hget : (hostPage chunk chunk.length).getD i 0 = 0xFF := by
      unfold hostPage
      rw [hchunk, List.getD_append_right _ _ _ _ (Nat.not_lt.mp hin), List.getD_eq_getElem _ _ (by
        rw [List.length_replicate]
        omega), List.getElem_replicate]
    rw [← List.getD_eq_getElem _ 0 (by omega), hget, List.getD_eq_default _ _ (Nat.not_lt.mp hin)]

/-- Where the flash was blank, it holds what was written and is blank behind. -/
theorem store_hostPage {m : Memory} {addr size i : Nat} {chunk : List UInt8} (hlen : chunk.length ≤ bootloaderWritepagesize)
    (hblank : ∀ a, addr ≤ a → a < size → m a = 0xFF) (hi : addr + i < size) :
    m.store addr (sized (roundNbyte chunk.length) (hostPage chunk chunk.length)) (addr + i) = chunk.getD i 0xFF := by
  by_cases hin : i < roundNbyte chunk.length
  · rw [store_at (by rw [length_sized]; exact hin), getD_sized_hostPage chunk hlen hin]
  · have hround := le_roundNbyte hlen
    rw [store_of_ge (by rw [length_sized]; omega), hblank _ (Nat.le_add_right _ _) hi,
      List.getD_eq_default _ _ (by omega)]

/-- A page that begins in the flash ends in it. -/
theorem Layout.fits (layout : Layout board) {k n : Nat} (hk : bufferSize ∣ k) (hn : n ≤ bootloaderWritepagesize)
    (hflash : board.programStart.toNat + k < board.flashSize) : board.programStart.toNat + k + n ≤ board.flashSize := by
  have hsub := Nat.le_of_dvd (by omega) (Nat.dvd_sub layout.pages hk)
  unfold bufferSize at hsub
  unfold bootloaderWritepagesize at hn
  omega

/-! ### Writing the file -/

/-- The first `k` bytes of the image are in the flash, but for the vector page, and the rest of it is blank. -/
structure Written (board : Board) (image : List UInt8) (k : Nat) (m : Memory) : Prop where
  vectors : VectorsErased board m
  bytes : ∀ i, vectorSize ≤ i → i < k → m (board.programStart.toNat + i) = image.getD i 0
  blank : ∀ a, board.programStart.toNat + k ≤ a → a < board.flashSize → m a = 0xFF

variable {image : List UInt8}

theorem ProgramErased.written {m : Memory} (layout : Layout board) (h : ProgramErased board m) : Written board image 0 m :=
  ⟨h.vectors layout, fun i _ hi => absurd hi (Nat.not_lt_zero i), fun a ha => h a ha⟩

theorem length_chunkAt (startAddr loc : Nat) (rest : List UInt8) :
    (chunkAt startAddr loc rest).length = (rest.take bufferSize).length := by
  unfold chunkAt blankVectors
  split_ifs
  · rw [List.length_append, List.length_replicate, List.length_drop]
    omega
  · rfl

/-- What is written of the file, at a place in it. -/
theorem getD_chunkAt {k i : Nat} (startAddr : Nat) (hi : i < ((image.drop k).take bufferSize).length) :
    (chunkAt startAddr (startAddr + k) (image.drop k)).getD i 0xFF =
      if k + i < vectorSize ∧ k = 0 then 0xFF else image.getD (k + i) 0 := by
  have htake : ((image.drop k).take bufferSize).getD i 0xFF = image.getD (k + i) 0 := by
    have hlen : k + i < image.length := by
      rw [List.length_take, List.length_drop] at hi
      omega
    rw [List.getD_eq_getElem _ _ hi, List.getElem_take, List.getElem_drop, List.getD_eq_getElem _ _ hlen]
  unfold chunkAt
  by_cases hk : k = 0
  · subst hk
    rw [if_pos (Nat.add_zero _)]
    unfold blankVectors
    by_cases hv : i < vectorSize
    · have hmin : i < (List.replicate (min vectorSize ((image.drop 0).take bufferSize).length) (0xFF : UInt8)).length := by
        rw [List.length_replicate]
        omega
      rw [if_pos ⟨by omega, rfl⟩, List.getD_append _ _ _ _ hmin, List.getD_eq_getElem _ _ hmin, List.getElem_replicate]
    · have hmin : min vectorSize ((image.drop 0).take bufferSize).length = vectorSize := by omega
      obtain ⟨j, rfl⟩ : ∃ j, i = vectorSize + j := ⟨i - vectorSize, by omega⟩
      rw [if_neg (by omega), hmin, List.getD_append_right _ _ _ _ (by rw [List.length_replicate]; omega),
        List.length_replicate, Nat.add_sub_cancel_left, ← htake,
        List.getD_eq_getElem _ _ (by rw [List.length_drop]; omega), List.getD_eq_getElem _ _ hi, List.getElem_drop]
  · rw [if_neg (by omega), if_neg (by omega), htake]

/-- The next part of the file is put behind what is there. -/
theorem Written.step {k : Nat} {m : Memory} (layout : Layout board) (h : Written board image k m)
    (hk : bufferSize ∣ k) (hlt : k < image.length) (hflash : board.programStart.toNat + k < board.flashSize) :
    let chunk := chunkAt board.programStart.toNat (board.programStart.toNat + k) (image.drop k)
    Written board image (k + chunk.length)
      (m.store (board.programStart.toNat + k) (sized (roundNbyte chunk.length) (hostPage chunk chunk.length))) := by
  have hsize := layout.vectors
  have hchunk := length_chunkAt board.programStart.toNat (board.programStart.toNat + k) (image.drop k)
  have hget (i : Nat) (hi : i < ((image.drop k).take bufferSize).length) :=
    getD_chunkAt board.programStart.toNat hi
  dsimp only
  generalize hc : chunkAt board.programStart.toNat (board.programStart.toNat + k) (image.drop k) = chunk at hchunk hget
  have htaken : chunk.length = min bufferSize (image.length - k) := by
    rw [hchunk, List.length_take, List.length_drop]
  have hlen : chunk.length ≤ bootloaderWritepagesize := by
    rw [htaken]
    exact Nat.min_le_left _ _
  have hstore (i : Nat) (hi : board.programStart.toNat + k + i < board.flashSize) :=
    store_hostPage hlen h.blank hi
  have hfits := layout.fits hk hlen hflash
  -- no page begins before the end of the vector page, but the first
  have hfirst : k = 0 ∨ vectorSize ≤ k := by
    obtain ⟨j, rfl⟩ := hk
    unfold bufferSize vectorSize
    omega
  refine ⟨fun i hi => ?_, fun i hi hik => ?_, fun a ha hflash => ?_⟩
  · rcases hfirst with rfl | hge
    · rw [← Nat.add_zero board.programStart.toNat, Nat.add_assoc, ← Nat.add_assoc, hstore i (by omega)]
      by_cases hin : i < ((image.drop 0).take bufferSize).length
      · rw [hget i hin, if_pos ⟨by omega, rfl⟩]
      · rw [List.getD_eq_default _ _ (by omega)]
    · rw [store_of_lt (by omega)]
      exact h.vectors i hi
  · by_cases hold : i < k
    · rw [store_of_lt (by omega)]
      exact h.bytes i hi hold
    · obtain ⟨j, rfl⟩ : ∃ j, i = k + j := ⟨i - k, by omega⟩
      rw [← Nat.add_assoc, hstore j (by omega), hget j (by omega), if_neg (by omega)]
  · obtain ⟨j, rfl⟩ : ∃ j, a = board.programStart.toNat + k + j := ⟨a - (board.programStart.toNat + k), by omega⟩
    rw [hstore j hflash, List.getD_eq_default _ _ (by omega)]

/-- The bytes of a page of the file. -/
def pageBytes (image : List UInt8) (n : Nat) : Nat := ((image.drop (bufferSize * n)).take bufferSize).length

theorem pageBytes_eq (image : List UInt8) (n : Nat) : pageBytes image n = min bufferSize (image.length - bufferSize * n) := by
  unfold pageBytes
  rw [List.length_take, List.length_drop]

theorem pageBytes_pos {n : Nat} (hlt : bufferSize * n < image.length) : 0 < pageBytes image n := by
  rw [pageBytes_eq]
  unfold bufferSize at hlt ⊢
  omega

theorem pageBytes_le (image : List UInt8) (n : Nat) : pageBytes image n ≤ bootloaderWritepagesize := by
  rw [pageBytes_eq]
  exact Nat.min_le_left _ _

theorem add_pageBytes {n : Nat} (hlt : bufferSize * n < image.length) :
    bufferSize * n + pageBytes image n = min (bufferSize * (n + 1)) image.length := by
  rw [pageBytes_eq, Nat.mul_succ]
  omega

variable {q : Request}

/-- One turn of the loop. -/
theorem writeImage_succ {n turns : Nat} {err : Int} (hlt : bufferSize * n < q.image.length) :
    let r := linkWriteflash board steps (board.programStart.toNat + bufferSize * n)
      (chunkAt board.programStart.toNat (board.programStart.toNat + bufferSize * n) (q.image.drop (bufferSize * n)))
      (pageBytes q.image n) s
    let k := min (bufferSize * (n + 1)) q.image.length
    writeImage board steps q board.programStart.toNat (turns + 1) (q.image.drop (bufferSize * n))
      (board.programStart.toNat + bufferSize * n) (bufferSize * n) err s =
      if r.2 ≠ pageBytes q.image n then (r.1, if r.2 > 0 then -1 else r.2)
      else if q.update k q.image.length then r
      else writeImage board steps q board.programStart.toNat turns (q.image.drop k) (board.programStart.toNat + k) k 0 r.1 := by
  have hdrop : (q.image.drop (bufferSize * n)).drop bufferSize =
      q.image.drop (min (bufferSize * (n + 1)) q.image.length) := by
    rw [List.drop_drop, ← Nat.mul_succ]
    rcases Nat.le_total (bufferSize * (n + 1)) q.image.length with hle | hle
    · rw [Nat.min_eq_left hle]
    · rw [Nat.min_eq_right hle, List.drop_eq_nil_of_le hle, List.drop_length]
  have hpos := pageBytes_pos hlt
  dsimp only
  rw [← hdrop, ← add_pageBytes hlt, ← Nat.add_assoc]
  unfold pageBytes at hpos ⊢
  conv => lhs; unfold writeImage
  exact if_neg (Nat.ne_of_gt hpos)

variable (steps) in
/-- The page that the turn writes, whatever becomes of it. -/
theorem linkWriteflash_page (layout : Layout board) {n : Nat} (hlt : bufferSize * n < q.image.length)
    (h : Written board q.image (bufferSize * n) s.boot.memory) :
    let r := linkWriteflash board steps (board.programStart.toNat + bufferSize * n)
      (chunkAt board.programStart.toNat (board.programStart.toNat + bufferSize * n) (q.image.drop (bufferSize * n)))
      (pageBytes q.image n) s
    r.1.used = s.used + 1 ∧
      (r.2 < 0 ∧ VectorsErased board r.1.boot.memory ∨
        r.2 = pageBytes q.image n ∧ (steps s.used).Succeeds ∧
          board.programStart.toNat + bufferSize * n < board.flashSize ∧
          Written board q.image (min (bufferSize * (n + 1)) q.image.length) r.1.boot.memory) := by
  have hdvd : bufferSize ∣ bufferSize * n := Nat.dvd_mul_right _ _
  have hle := pageBytes_le q.image n
  have hchunk := length_chunkAt board.programStart.toNat (board.programStart.toNat + bufferSize * n)
    (q.image.drop (bufferSize * n))
  obtain ⟨hused, hwrite⟩ := linkWriteflash_cases board steps s _ _
    (chunkAt board.programStart.toNat (board.programStart.toNat + bufferSize * n) (q.image.drop (bufferSize * n)))
    (pageBytes_pos hlt) hle (layout.fits hdvd hle) layout.size
  refine ⟨hused, ?_⟩
  rcases hwrite with ⟨hm, hneg⟩ | ⟨-, hflash, hm, hret⟩
  · left
    rw [hm]
    exact ⟨hneg, h.vectors⟩
  · have hstep := h.step layout hdvd hlt hflash
    dsimp only at hstep
    change _ = pageBytes q.image n at hchunk
    rw [hchunk, ← hm, add_pageBytes hlt] at hstep
    rcases hret with hneg | ⟨heq, hdone⟩
    · exact .inl ⟨hneg, hstep.vectors⟩
    · exact .inr ⟨heq, hdone, hflash, hstep⟩

theorem PagesWritten.succ {base n : Nat} (h : PagesWritten board steps base n) (hdone : (steps (base + n)).Succeeds)
    (hflash : board.programStart.toNat + bufferSize * n < board.flashSize) : PagesWritten board steps base (n + 1) := by
  intro i hi
  rcases Nat.lt_succ_iff_lt_or_eq.mp hi with hi | rfl
  · exact h i hi
  · exact ⟨hdone, hflash⟩

variable (steps) in
/-- The loop ends with an error, and then nothing has been put in the vector page, or the file is written. -/
theorem writeImage_cases {base n : Nat} (turns : Nat) (err : Int) (layout : Layout board)
    (hupdate : NeverStopped board steps q base) (hturns : q.image.length < bufferSize * n + turns)
    (herr : q.image.length ≤ bufferSize * n → err = 0) (hpages : PagesWritten board steps base n) (hused : s.used = base + n)
    (h : Written board q.image (min (bufferSize * n) q.image.length) s.boot.memory) :
    let k := min (bufferSize * n) q.image.length
    let r := writeImage board steps q board.programStart.toNat turns (q.image.drop k) (board.programStart.toNat + k) k err s
    (r.2 < 0 ∧ VectorsErased board r.1.boot.memory) ∨ (r.2 = 0 ∧ Written board q.image q.image.length r.1.boot.memory) := by
  induction turns generalizing n err s with
  | zero =>
    rw [Nat.min_eq_right (by omega)] at h
    exact .inr ⟨herr (by omega), h⟩
  | succ turns ih =>
    by_cases hlt : bufferSize * n < q.image.length
    · rw [Nat.min_eq_left (Nat.le_of_lt hlt)] at h ⊢
      have hwrite := linkWriteflash_page steps layout hlt h
      have hpos := pageBytes_pos hlt
      dsimp only
      rw [writeImage_succ hlt]
      generalize linkWriteflash board steps (board.programStart.toNat + bufferSize * n)
        (chunkAt board.programStart.toNat (board.programStart.toNat + bufferSize * n) (q.image.drop (bufferSize * n)))
        (pageBytes q.image n) s = r at hwrite ⊢
      obtain ⟨s', err'⟩ := r
      dsimp only at hwrite ⊢
      rcases hwrite with ⟨hused', ⟨hneg, hvectors⟩ | ⟨heq, hdone, hflash, hstep⟩⟩
      · rw [if_pos (by omega), if_neg (by omega)]
        exact .inl ⟨hneg, hvectors⟩
      · have hpages' : PagesWritten board steps base (n + 1) := hpages.succ (by rw [← hused]; exact hdone) hflash
        have hgo : q.update (min (bufferSize * (n + 1)) q.image.length) q.image.length = false :=
          hupdate (n + 1) _ rfl (by rw [← add_pageBytes hlt]; exact Nat.lt_add_of_pos_right hpos) hpages'
        rw [if_neg (by omega), hgo, if_neg Bool.false_ne_true]
        refine ih 0 ?_ (fun _ => rfl) hpages' ?_ hstep
        · rw [Nat.mul_succ]
          unfold bufferSize at hturns ⊢
          omega
        · rw [hused', hused, Nat.add_assoc]
    · rw [Nat.min_eq_right (Nat.not_lt.mp hlt)] at h ⊢
      unfold writeImage
      dsimp only
      rw [if_pos (by rw [List.drop_length]; rfl)]
      exact .inr ⟨herr (Nat.not_lt.mp hlt), h⟩

/-! ### Reading back -/

theorem load_append (m : Memory) (addr n k : Nat) : m.load addr n ++ m.load (addr + n) k = m.load addr (n + k) := by
  unfold Memory.load
  rw [List.range_add, List.map_append, List.map_map]
  congr 2
  funext i
  show m (addr + n + i) = m (addr + (n + i))
  rw [Nat.add_assoc]

/-- The packets of a read bring what is there, or the beginning of it. -/
theorem readPackets_eq_load (m : Memory) {loc nbyte : Nat} (turns : Nat) {bytes : Nat} (hfits : loc + nbyte ≤ board.flashSize)
    (hsize : board.flashSize < 2 ^ 31) (hbytes : bytes ≤ nbyte) :
    ∃ n ≤ nbyte - bytes, readPackets board m loc nbyte turns bytes = m.load (loc + bytes) n := by
  induction turns generalizing bytes with
  | zero => exact ⟨0, Nat.zero_le _, rfl⟩
  | succ turns ih =>
    have hpacket : packetSize nbyte bytes ≤ nbyte - bytes := by
      unfold packetSize
      split_ifs <;> omega
    have hread : ∃ n ≤ packetSize nbyte bytes,
        flashRead board.flashSize (loc + bytes) (packetSize nbyte bytes) m = ((n : Int), m.load (loc + bytes) n) := by
      unfold flashRead
      split_ifs with hzero hout hbeyond
      · exact ⟨0, Nat.zero_le _, rfl⟩
      · rw [Nat.mod_eq_of_lt (by omega)] at hout
        omega
      · rw [Nat.mod_eq_of_lt (by omega)] at hbeyond
        omega
      · rw [Nat.mod_eq_of_lt (by omega)]
        exact ⟨_, Nat.le_refl _, rfl⟩
    obtain ⟨n, hn, hread⟩ := hread
    unfold readPackets
    rw [hread]
    dsimp only
    rw [if_neg (show ¬ (n : Int) < 0 by omega)]
    split_ifs with hmore
    · obtain ⟨k, hk, hrest⟩ := @ih (bytes + n) (by omega)
      refine ⟨n + k, by omega, ?_⟩
      rw [length_load, hrest, ← Nat.add_assoc, load_append]
    · exact ⟨n, by omega, rfl⟩

variable (board steps s) in
/-- A read leaves the memory alone. -/
theorem linkReadflash_memory (loc nbyte : Nat) : (linkReadflash board steps loc nbyte s).1.boot.memory = s.boot.memory := by
  obtain ⟨hboot, -⟩ := link_memory steps s fun _ b =>
    b.setErr (BitVec.ofNat 32 (readPackets board s.boot.memory loc nbyte (nbyte + 1) 0).length)
  have hmemory : (s.link steps fun _ b =>
      some (b.setErr (BitVec.ofNat 32 (readPackets board s.boot.memory loc nbyte (nbyte + 1) 0).length))).1.boot.memory =
        s.boot.memory := by
    rcases hboot with heq | heq
    · rw [heq]
    · rw [heq]
      rfl
  unfold linkReadflash
  dsimp only
  generalize s.link steps (fun _ b =>
    some (b.setErr (BitVec.ofNat 32 (readPackets board s.boot.memory loc nbyte (nbyte + 1) 0).length))) = r at hmemory ⊢
  obtain ⟨s', r⟩ := r
  cases r with
  | error e => exact hmemory
  | ok b => exact hmemory

variable (board steps s) in
/-- A read that returns the number of bytes asked for has read what is there. -/
theorem linkReadflash_data {loc nbyte : Nat} (hfits : loc + nbyte ≤ board.flashSize) (hsize : board.flashSize < 2 ^ 31)
    (h : (linkReadflash board steps loc nbyte s).2.1 = nbyte) :
    (linkReadflash board steps loc nbyte s).2.2 = s.boot.memory.load loc nbyte ∨ nbyte = 0 := by
  obtain ⟨n, hn, hdata⟩ := readPackets_eq_load s.boot.memory (nbyte + 1) hfits hsize (Nat.zero_le nbyte)
  obtain ⟨-, hok⟩ := link_memory steps s fun _ b =>
    b.setErr (BitVec.ofNat 32 (readPackets board s.boot.memory loc nbyte (nbyte + 1) 0).length)
  unfold linkReadflash at h ⊢
  dsimp only at h ⊢
  generalize s.link steps (fun _ b =>
    some (b.setErr (BitVec.ofNat 32 (readPackets board s.boot.memory loc nbyte (nbyte + 1) 0).length))) = r at hok h ⊢
  obtain ⟨s', r⟩ := r
  cases r with
  | error e =>
    have hneg := e.2
    dsimp only at h
    omega
  | ok b =>
    left
    obtain ⟨-, hact, -⟩ := hok b rfl
    dsimp only at h ⊢
    rw [hact] at h
    have hlen : (readPackets board s.boot.memory loc nbyte (nbyte + 1) 0).length = n := by
      rw [hdata, length_load]
    have herr : (BitVec.ofNat 32 (readPackets board s.boot.memory loc nbyte (nbyte + 1) 0).length).toInt = n := by
      rw [hlen, BitVec.toInt_eq_toNat_of_lt (by rw [BitVec.toNat_ofNat]; omega), BitVec.toNat_ofNat]
      omega
    have hall : n = nbyte := by
      have := herr.symm.trans h
      omega
    rw [hdata, hall, Nat.add_zero]

variable (board steps s) in
theorem verifyImage_memory (startAddr turns : Nat) (rest : List UInt8) (loc : Nat) (err : Int) :
    (verifyImage board steps startAddr turns rest loc err s).1.boot.memory = s.boot.memory := by
  induction turns generalizing rest loc err s with
  | zero => rfl
  | succ turns ih =>
    have hread := linkReadflash_memory board steps s loc (rest.take bufferSize).length
    unfold verifyImage
    dsimp only
    by_cases hzero : (rest.take bufferSize).length = 0
    · rw [if_pos hzero]
    · rw [if_neg hzero]
      generalize linkReadflash board steps loc (rest.take bufferSize).length s = r at hread ⊢
      obtain ⟨s', err', cmp⟩ := r
      dsimp only at hread ⊢
      rw [← hread]
      split_ifs
      · rfl
      · rfl
      · rfl
      · exact ih _ _ _ _

/-! ### The vector page -/

theorem length_stackaddr : (stackaddr q).length = vectorSize := length_sized _ _

theorem getD_stackaddr {i : Nat} (hi : i < vectorSize) (hlen : i < q.image.length) (d : UInt8) :
    (stackaddr q).getD i d = q.image.getD i 0 := by
  rw [List.getD_eq_getElem _ _ (by rw [length_stackaddr]; exact hi)]
  unfold stackaddr sized
  rw [List.getElem_take, List.getElem_append_left (by rw [List.length_append]; omega), List.getElem_append_left hlen,
    List.getD_eq_getElem _ _ hlen]

/-- With the vector page the image is whole. -/
theorem Written.installed {m : Memory} (layout : Layout board) (h : Written board q.image q.image.length m) :
    Installed board q.image (m.store board.programStart.toNat
      (sized (roundNbyte vectorSize) (hostPage (stackaddr q) vectorSize))) := by
  have hvectors := layout.vectors
  intro i hi
  by_cases hv : i < vectorSize
  · have hlen : i < roundNbyte (stackaddr q).length := by
      rw [length_stackaddr]
      exact hv
    rw [store_at (by rw [length_sized]; rw [length_stackaddr] at hlen; exact hlen)]
    have hget := getD_sized_hostPage (stackaddr q) (by rw [length_stackaddr]; decide) hlen
    rw [length_stackaddr] at hget
    rw [hget, getD_stackaddr hv hi]
  · rw [store_of_ge (by rw [length_sized]; show _ + vectorSize ≤ _; omega)]
    exact h.bytes i (Nat.not_lt.mp hv) hi

/-- What the vector page is read back as. -/
theorem load_vectors (m : Memory) (addr : Nat) :
    (m.store addr (sized (roundNbyte vectorSize) (hostPage (stackaddr q) vectorSize))).load addr vectorSize = stackaddr q := by
  apply List.ext_getElem
  · rw [length_load, length_stackaddr]
  · intro i hi hi'
    have hv : i < vectorSize := by
      rw [length_load] at hi
      exact hi
    have hget := getD_sized_hostPage (stackaddr q) (i := i) (by rw [length_stackaddr]; decide) (by
      rw [length_stackaddr]
      exact hv)
    rw [length_stackaddr] at hget
    rw [← List.getD_eq_getElem _ 0 hi, getD_load hv, store_at (by rw [length_sized]; exact hv), hget,
      List.getD_eq_getElem _ _ hi']

theorem AllOrNothing.of_vectors {r : Session × Int} {image : List UInt8} (h : VectorsErased board r.1.boot.memory)
    (herr : r.2 < 0) : AllOrNothing board image r :=
  ⟨.inl h, fun hok => absurd herr (Int.not_lt.mpr hok)⟩

theorem AllOrNothing.of_installed {r : Session × Int} {image : List UInt8} (h : Installed board image r.1.boot.memory) :
    AllOrNothing board image r :=
  ⟨.inr h, fun _ => h⟩

/-- The last step of an update. -/
theorem allOrNothing_writeVectors (layout : Layout board) (h : Written board q.image q.image.length s.boot.memory) :
    AllOrNothing board q.image (writeVectors board steps q board.programStart.toNat s) := by
  have hwrite := linkWriteflash_cases board steps s board.programStart.toNat vectorSize
    (stackaddr q) (by decide) (by decide) (fun _ => layout.vectors) layout.size
  unfold writeVectors
  generalize linkWriteflash board steps board.programStart.toNat (stackaddr q) vectorSize s = r at hwrite ⊢
  obtain ⟨s', err⟩ := r
  dsimp only at hwrite ⊢
  rcases hwrite with ⟨-, ⟨hm, hneg⟩ | ⟨-, -, hm, hret⟩⟩
  · rw [if_pos (by omega)]
    refine .of_vectors ?_ (show (-1 : Int) < 0 by decide)
    show VectorsErased board s'.boot.memory
    rw [hm]
    exact h.vectors
  · have hinstalled : Installed board q.image s'.boot.memory := by
      rw [hm]
      exact h.installed layout
    have hread := linkReadflash_memory board steps s' board.programStart.toNat vectorSize
    have hdata := linkReadflash_data board steps s' layout.vectors layout.size
    generalize linkReadflash board steps board.programStart.toNat vectorSize s' = r at hread hdata ⊢
    obtain ⟨s'', err', buffer⟩ := r
    dsimp only at hread hdata ⊢
    split_ifs with herr hverify herr' hbuffer
    · exact .of_installed hinstalled
    · exact .of_installed hinstalled
    · refine .of_installed ?_
      show Installed board q.image s''.boot.memory
      rw [hread]
      exact hinstalled
    · -- what has been written is what is read
      have hload := (hdata (not_not.mp herr')).resolve_right (by decide)
      rw [hm, load_vectors] at hload
      exact absurd hload hbuffer
    · refine .of_installed ?_
      show Installed board q.image s''.boot.memory
      rw [hread]
      exact hinstalled

theorem allOrNothing_installVectors (layout : Layout board) (h : Written board q.image q.image.length s.boot.memory) :
    AllOrNothing board q.image (installVectors board steps q board.programStart.toNat s) := by
  have hverify := verifyImage_memory board steps s board.programStart.toNat
    (q.image.length + 1) q.image board.programStart.toNat 0
  unfold installVectors
  generalize verifyImage board steps board.programStart.toNat (q.image.length + 1) q.image board.programStart.toNat 0 s = r
    at hverify ⊢
  obtain ⟨s', err⟩ := r
  dsimp only at hverify ⊢
  split_ifs
  · cases err with
    | none =>
      refine .of_vectors ?_ (show (-1 : Int) < 0 by decide)
      show VectorsErased board s'.boot.memory
      rw [hverify]
      exact h.vectors
    | some err =>
      refine allOrNothing_writeVectors layout ?_
      rw [hverify]
      exact h
  · exact allOrNothing_writeVectors layout h

/-! ### The whole update -/

variable (steps s) in
/-- The query of the start address leaves the memory alone; it is answered if it does not fail. -/
theorem linkGetattr_cases :
    let r := linkGetattr steps s
    r.1.boot.memory = s.boot.memory ∧ r.1.used = s.used + 1 ∧ r.2.2 = (steps s.used).locals.startaddr.toNat ∧
      (0 ≤ r.2.1 → (steps s.used).fate = .done) := by
  obtain ⟨hboot, hok⟩ := link_memory steps s fun _ b => b.noteErrno
  have hused := link_used steps s fun _ b => some b.noteErrno
  unfold linkGetattr
  generalize s.link steps (fun _ b => some b.noteErrno) = r at hboot hok hused ⊢
  obtain ⟨s', r⟩ := r
  refine ⟨?_, hused, rfl, ?_⟩
  · show s'.boot.memory = s.boot.memory
    rcases hboot with heq | heq
    · rw [heq]
    · rw [heq, Boot.noteErrno_memory]
  · intro herr
    cases r with
    | error e =>
      have hneg := e.2
      change 0 ≤ e.1 at herr
      omega
    | ok b => exact (hok b rfl).2.2

variable (steps s) in
/-- Nothing is written where the first page is refused. -/
theorem writeImage_unwritable (layout : Layout board) (hne : q.image ≠ []) {startAddr : Nat}
    (hstart : startAddr < getPageAddr hwplLastBootloaderPage ∨ board.flashSize ≤ startAddr) (err : Int) :
    let r := writeImage board steps q startAddr (q.image.length + 1) q.image startAddr 0 err s
    r.2 < 0 ∧ r.1.boot.memory = s.boot.memory := by
  have hpos : 0 < (q.image.take bufferSize).length := pageBytes_pos (n := 0) (List.length_pos_of_ne_nil hne)
  have hle : (q.image.take bufferSize).length ≤ bootloaderWritepagesize := pageBytes_le q.image 0
  have hfits : startAddr < board.flashSize → startAddr + (q.image.take bufferSize).length ≤ board.flashSize := by
    intro hlt
    have hpage := layout.fits (k := 0) (Nat.dvd_zero _) hle (by have := layout.vectors; unfold vectorSize at this; omega)
    have := layout.boot
    omega
  obtain ⟨-, hwrite⟩ := linkWriteflash_cases board steps s _ _
    (chunkAt startAddr startAddr q.image) hpos hle hfits layout.size
  unfold writeImage
  dsimp only
  rw [if_neg (Nat.ne_of_gt hpos)]
  generalize linkWriteflash board steps startAddr (chunkAt startAddr startAddr q.image) (q.image.take bufferSize).length s = r
    at hwrite ⊢
  obtain ⟨s', err'⟩ := r
  dsimp only at hwrite ⊢
  rcases hwrite with ⟨hm, hneg⟩ | ⟨hboot, hflash, -⟩
  · rw [if_pos (by omega), if_neg (by omega)]
    exact ⟨hneg, hm⟩
  · omega

/-- A failed update is erased, or not; the vector page is erased before. -/
theorem allOrNothing_finishUpdate {r : Session × Int} {image : List UInt8} (herr : r.2 < 0)
    (h : VectorsErased board r.1.boot.memory) : AllOrNothing board image (finishUpdate board steps r) := by
  unfold finishUpdate
  rw [if_pos herr]
  exact .of_vectors (h.erasedFrom erasedFrom_linkEraseflash) herr

theorem allOrNothing_updateErased (layout : Layout board) (hne : q.image ≠ []) (herased : ProgramErased board s.boot.memory)
    (careful : Careful board steps q s.used) : AllOrNothing board q.image (updateErased board steps q s) := by
  obtain ⟨hm, hused, haddr, hdone⟩ := linkGetattr_cases steps s
  rw [← hm] at herased
  unfold updateErased
  generalize linkGetattr steps s = r at hm hused haddr hdone herased ⊢
  obtain ⟨s', err, startAddr⟩ := r
  dsimp only at hm hused haddr hdone herased ⊢
  by_cases herr : err < 0
  -- nothing has been written when `getattr` fails
  · rw [if_pos herr]
    exact .of_vectors (herased.vectors layout) herr
  · rw [if_neg herr]
    have hanswered := hdone (Int.not_lt.mp herr)
    have hstart : (steps s.used).locals.startaddr = board.programStart ∨
        startAddr < getPageAddr hwplLastBootloaderPage ∨ board.flashSize ≤ startAddr := by
      rw [haddr]
      rcases careful.start with h | h | h | h
      · exact .inl h
      · exact .inr (.inl h)
      · exact .inr (.inr h)
      · exact absurd hanswered h
    rcases hstart with hstart | hstart
    -- the loop begins at the program's first address
    · rw [hstart] at haddr
      subst haddr
      have hlen := List.length_pos_of_ne_nil hne
      have hwrite := writeImage_cases steps (n := 0) (q.image.length + 1) err layout
        careful.update (by omega) (fun hle => absurd hlen (by omega)) (fun i hi => absurd hi (Nat.not_lt_zero i)) hused
        (by rw [Nat.mul_zero, Nat.zero_min]; exact herased.written layout)
      rw [Nat.mul_zero, Nat.zero_min] at hwrite
      dsimp only at hwrite
      rw [List.drop_zero, Nat.add_zero] at hwrite
      generalize writeImage board steps q board.programStart.toNat (q.image.length + 1) q.image board.programStart.toNat 0
        err s' = r at hwrite ⊢
      obtain ⟨s'', err'⟩ := r
      dsimp only at hwrite ⊢
      rcases hwrite with ⟨hneg, hvectors⟩ | ⟨hzero, hwritten⟩
      · rw [if_neg (by omega)]
        exact allOrNothing_finishUpdate hneg hvectors
      · rw [if_pos hzero]
        exact allOrNothing_installVectors layout hwritten
    -- the device takes no page at the address it has been told
    · obtain ⟨hneg, hmem⟩ := writeImage_unwritable steps s' layout hne hstart err
      generalize writeImage board steps q startAddr (q.image.length + 1) q.image startAddr 0 err s' = r at hneg hmem ⊢
      obtain ⟨s'', err'⟩ := r
      dsimp only at hneg hmem ⊢
      rw [if_neg (by omega)]
      refine allOrNothing_finishUpdate hneg ?_
      show VectorsErased board s''.boot.memory
      rw [hmem]
      exact herased.vectors layout

/-! ### An update that is stopped -/

/-- A page that the bootloader can write is written. -/
theorem linkWritepage_succeeds {w : Writepage} (hhung : s.hung = false) (hstep : (steps s.used).Succeeds)
    (hboot : getPageAddr hwplLastBootloaderPage ≤ w.addr) (hflash : w.addr < board.flashSize)
    (hfits : w.addr + w.nbyte ≤ board.flashSize) (hsize : board.flashSize < 2 ^ 31)
    (hblank : blankCheck s.boot.memory w.addr (roundNbyte w.nbyte) = true) :
    0 ≤ (linkWritepage board steps w s).2 ∧ (linkWritepage board steps w s).1.hung = false := by
  have hdriver : hwplFlashWritepage board.flashSize (steps s.used).rom.written w s.boot.memory =
      ⟨s.boot.memory.store w.addr (sized (roundNbyte w.nbyte) w.buf), none, BitVec.ofNat 32 w.nbyte⟩ := by
    unfold hwplFlashWritepage
    dsimp only
    have hsum : ¬ (w.addr + w.nbyte) % 2 ^ 32 > board.flashSize := by
      rw [Nat.mod_eq_of_lt (by omega)]
      omega
    rw [if_neg (Nat.not_lt.mpr hboot), if_neg (Nat.not_le.mpr hflash), if_neg hsum, hblank, hstep.2]
    rfl
  have herr : (BitVec.ofNat 32 w.nbyte).toInt = w.nbyte := by
    rw [BitVec.toInt_eq_toNat_of_lt (by rw [BitVec.toNat_ofNat]; omega), BitVec.toNat_ofNat]
    omega
  have hpositive : isNegative (BitVec.ofNat 32 w.nbyte) = false := by
    unfold isNegative
    rw [herr]
    exact decide_eq_false (Int.not_lt.mpr (Int.natCast_nonneg _))
  have hwritepage : (s.boot.writepage board (steps s.used).rom w).reply.err = BitVec.ofNat 32 w.nbyte := by
    unfold Boot.writepage
    rw [hdriver]
    exact Boot.noteErrno_err _
  have hlink : s.link steps (fun step b => some (b.writepage board step.rom w)) =
      (⟨s.boot.writepage board (steps s.used).rom w, s.used + 1, false⟩,
        .ok (s.boot.writepage board (steps s.used).rom w)) := by
    unfold Session.link
    dsimp only
    rw [hhung, hstep.1]
    rfl
  unfold linkWritepage
  rw [hlink]
  refine ⟨?_, rfl⟩
  show 0 ≤ (if isNegative _ then linkDevError else _)
  rw [hwritepage, hpositive, if_neg Bool.false_ne_true, herr]
  exact Int.natCast_nonneg _

/-- A page of the file is written. -/
theorem linkWriteflash_succeeds (layout : Layout board) {n : Nat} (hhung : s.hung = false)
    (hdone : (steps s.used).Succeeds) (hflash : board.programStart.toNat + bufferSize * n < board.flashSize)
    (hlt : bufferSize * n < q.image.length) (h : Written board q.image (bufferSize * n) s.boot.memory) (buf : List UInt8) :
    let r := linkWriteflash board steps (board.programStart.toNat + bufferSize * n) buf (pageBytes q.image n) s
    0 ≤ r.2 ∧ r.1.hung = false := by
  have hdvd : bufferSize ∣ bufferSize * n := Nat.dvd_mul_right _ _
  have hle := pageBytes_le q.image n
  have hboot : getPageAddr hwplLastBootloaderPage ≤ board.programStart.toNat + bufferSize * n :=
    Nat.le_trans layout.boot (Nat.le_add_right _ _)
  have hblank : blankCheck s.boot.memory (board.programStart.toNat + bufferSize * n) (roundNbyte (pageBytes q.image n)) := by
    have hfull := layout.fits hdvd (roundNbyte_le (pageBytes q.image n)) hflash
    refine blankCheck_iff.mpr fun i hi => h.blank _ (Nat.le_add_right _ _) ?_
    omega
  obtain ⟨hret, hhung'⟩ := linkWritepage_succeeds
    (w := ⟨board.programStart.toNat + bufferSize * n, pageBytes q.image n, hostPage buf (pageBytes q.image n)⟩)
    hhung hdone hboot hflash (layout.fits hdvd hle hflash) layout.size hblank
  dsimp only
  rw [linkWriteflash_eq buf (pageBytes_pos hlt) hle, if_neg (Int.not_lt.mpr hret)]
  exact ⟨Int.natCast_nonneg _, hhung'⟩

variable (steps) in
/-- The loop that is stopped leaves the vector page erased and returns a number of bytes. -/
theorem writeImage_stopped {base n stop : Nat} (turns : Nat) (err : Int) (layout : Layout board) (hhung : s.hung = false)
    (hpages : PagesWritten board steps base stop) (hlast : bufferSize * (stop - 1) < min (bufferSize * stop) q.image.length)
    (hstop : q.update (min (bufferSize * stop) q.image.length) q.image.length = true) (hn : n < stop)
    (hturns : q.image.length < bufferSize * n + turns) (hused : s.used = base + n)
    (h : Written board q.image (min (bufferSize * n) q.image.length) s.boot.memory) :
    let k := min (bufferSize * n) q.image.length
    let r := writeImage board steps q board.programStart.toNat turns (q.image.drop k) (board.programStart.toNat + k) k err s
    0 < r.2 ∧ VectorsErased board r.1.boot.memory := by
  induction turns generalizing n err s with
  | zero =>
    -- the fuel lasts beyond the page at which the loop is stopped
    have hmono : bufferSize * n ≤ bufferSize * (stop - 1) := Nat.mul_le_mul_left _ (by omega)
    omega
  | succ turns ih =>
    have hmono : bufferSize * n ≤ bufferSize * (stop - 1) := Nat.mul_le_mul_left _ (by omega)
    have hlt : bufferSize * n < q.image.length := by omega
    obtain ⟨hdone, hflash⟩ := hpages n hn
    rw [← hused] at hdone
    rw [Nat.min_eq_left (Nat.le_of_lt hlt)] at h ⊢
    have hpos := pageBytes_pos hlt
    have hwrite := linkWriteflash_page steps layout hlt h
    have hsucceeds := linkWriteflash_succeeds layout hhung hdone hflash hlt h
      (chunkAt board.programStart.toNat (board.programStart.toNat + bufferSize * n) (q.image.drop (bufferSize * n)))
    dsimp only
    rw [writeImage_succ hlt]
    generalize linkWriteflash board steps (board.programStart.toNat + bufferSize * n)
      (chunkAt board.programStart.toNat (board.programStart.toNat + bufferSize * n) (q.image.drop (bufferSize * n)))
      (pageBytes q.image n) s = r at hwrite hsucceeds ⊢
    obtain ⟨s', err'⟩ := r
    dsimp only at hwrite hsucceeds ⊢
    obtain ⟨hused', ⟨hneg, -⟩ | ⟨heq, -, -, hstep⟩⟩ := hwrite
    -- the page is written, as all pages up to there are
    · exact absurd hneg (Int.not_lt.mpr hsucceeds.1)
    · rw [if_neg (by omega)]
      by_cases hend : q.update (min (bufferSize * (n + 1)) q.image.length) q.image.length = true
      · rw [if_pos hend]
        exact ⟨by dsimp only; omega, hstep.vectors⟩
      · rw [if_neg hend]
        -- the callback does not stop the loop before that page
        have hmore : n + 1 < stop := by
          rcases Nat.lt_or_ge (n + 1) stop with hmore | hge
          · exact hmore
          · obtain rfl : stop = n + 1 := by omega
            exact absurd hstop hend
        refine ih 0 hsucceeds.2 hmore ?_ ?_ hstep
        · rw [Nat.mul_succ]
          unfold bufferSize at hturns ⊢
          omega
        · rw [hused', hused, Nat.add_assoc]

/-- The bootloader is there and answers the query with the right address. -/
structure Answers (board : Board) (step : Step) (s : Session) : Prop where
  hung : s.hung = false
  fate : step.fate = .done
  reply : isNegative s.boot.reply.err = false
  start : step.locals.startaddr = board.programStart

theorem linkGetattr_answers (h : Answers board (steps s.used) s) :
    0 ≤ (linkGetattr steps s).2.1 ∧ (linkGetattr steps s).1.hung = false := by
  have hlink : s.link steps (fun _ b => some b.noteErrno) = (⟨s.boot.noteErrno, s.used + 1, false⟩, .ok s.boot.noteErrno) := by
    unfold Session.link
    dsimp only
    rw [h.hung, h.fate]
    rfl
  have hnote : s.boot.noteErrno = s.boot := by
    unfold Boot.noteErrno
    rw [h.reply]
    rfl
  unfold linkGetattr
  rw [hlink, hnote]
  refine ⟨?_, rfl⟩
  show 0 ≤ (if isNegative s.boot.reply.err then linkDevError else s.boot.reply.err.toInt)
  rw [h.reply, if_neg Bool.false_ne_true]
  exact Int.not_lt.mp (of_decide_eq_false h.reply)

/-- The image has a vector page that is not blank. -/
def HasVectors (image : List UInt8) : Prop := ∃ i < vectorSize, i < image.length ∧ image.getD i 0 ≠ 0xFF

/-- An update that is stopped reports success without the image in the flash. -/
theorem neverStopped_of_allOrNothing (layout : Layout board) (hvectors : HasVectors q.image)
    (herased : ProgramErased board s.boot.memory) (hanswers : Answers board (steps s.used) s)
    (h : AllOrNothing board q.image (updateErased board steps q s)) : NeverStopped board steps q (s.used + 1) := by
  rintro stop p rfl hlast hpages
  by_contra hstop
  have hstop := eq_true_of_ne_false hstop
  obtain ⟨i, hi, hlen, hne⟩ := hvectors
  obtain ⟨hm, hused, haddr, -⟩ := linkGetattr_cases steps s
  obtain ⟨herr, hhung⟩ := linkGetattr_answers hanswers
  rw [← hm] at herased
  unfold updateErased at h
  generalize linkGetattr steps s = r at hm hused haddr herr hhung herased h
  obtain ⟨s', err, startAddr⟩ := r
  dsimp only at hm hused haddr herr hhung herased h
  rw [hanswers.start] at haddr
  subst haddr
  have hpos : 0 < stop := by
    rcases Nat.eq_zero_or_pos stop with rfl | hpos
    · rw [Nat.mul_zero, Nat.zero_min] at hlast
      exact absurd hlast (Nat.not_lt_zero _)
    · exact hpos
  have hwrite := writeImage_stopped steps (n := 0) (q.image.length + 1) err layout hhung
    hpages hlast hstop hpos (by omega) hused (by rw [Nat.mul_zero, Nat.zero_min]; exact herased.written layout)
  rw [Nat.mul_zero, Nat.zero_min] at hwrite
  dsimp only at hwrite
  rw [List.drop_zero, Nat.add_zero] at hwrite
  rw [if_neg (Int.not_lt.mpr herr)] at h
  generalize writeImage board steps q board.programStart.toNat (q.image.length + 1) q.image board.programStart.toNat 0
    err s' = r at hwrite h
  obtain ⟨s'', err'⟩ := r
  dsimp only at hwrite h
  obtain ⟨hbytes, hblank⟩ := hwrite
  have hfinish : finishUpdate board steps (s'', err') = (s'', err') := by
    unfold finishUpdate
    exact if_neg (by dsimp only; omega)
  rw [if_neg (by omega), hfinish] at h
  have hinstalled := h.success (Int.le_of_lt hbytes) i hlen
  rw [hblank i hi] at hinstalled
  exact hne hinstalled.symm

theorem updateOS_of_erased (hok : 0 ≤ (linkEraseflash board steps s).2) :
    updateOS board steps q s = updateErased board steps q (linkEraseflash board steps s).1 := by
  unfold updateOS
  exact if_neg (Int.not_lt.mpr hok)

/-- An update that is not stopped, and that is not sent to a wrong address, is all or nothing; one that is stopped
is not. -/
theorem allOrNothing_updateOS (board : Board) (steps : Nat → Step) (q : Request) (s : Session) (layout : Layout board)
    (hne : q.image ≠ []) (hok : 0 ≤ (linkEraseflash board steps s).2)
    (herased : ProgramErased board (linkEraseflash board steps s).1.boot.memory) :
    (Careful board steps q (s.used + 1) → AllOrNothing board q.image (updateOS board steps q s)) ∧
      (Answers board (steps (s.used + 1)) (linkEraseflash board steps s).1 → HasVectors q.image →
        AllOrNothing board q.image (updateOS board steps q s) → NeverStopped board steps q (s.used + 2)) := by
  have hused : (linkEraseflash board steps s).1.used = s.used + 1 := link_used steps s fun step b => b.erase board step.rom
  rw [updateOS_of_erased hok, ← hused]
  refine ⟨fun careful => allOrNothing_updateErased layout hne herased careful, fun hanswers hvectors h => ?_⟩
  have hnever := neverStopped_of_allOrNothing layout hvectors herased hanswers h
  rw [hused] at hnever
  exact hnever

/-- A board whose flash ends a sector behind the bootloader. -/
def smallBoard : Board := ⟨0x4000, 0x3000, 0, fun _ => 0⟩

/-- A target with nothing in its flash. -/
def blankTarget : Session := ⟨⟨[], ⟨0, 0⟩, fun _ => 0xFF, 0⟩, 0, false⟩

/-- No operation fails. -/
def allDone : Nat → Step := fun _ => ⟨.done, ⟨0x3000, []⟩, ⟨fun _ => true, true⟩⟩

/-- A file of one byte; `update` asks to stop if `stop` is set. -/
def tinyRequest (stop : Bool) : Request := ⟨[0], true, fun _ _ => stop, []⟩

theorem layout_smallBoard : Layout smallBoard := by
  constructor <;> decide

theorem programErased_blankTarget :
    ProgramErased smallBoard (linkEraseflash smallBoard allDone blankTarget).1.boot.memory := by
  intro a _ _
  have herased : ErasedFrom blankTarget.boot.memory (linkEraseflash smallBoard allDone blankTarget).1.boot.memory :=
    erasedFrom_linkEraseflash
  rcases herased a with h | h
  · rw [h]
    rfl
  · exact h

theorem hung_blankTarget : (linkEraseflash smallBoard allDone blankTarget).1.hung = false := by
  decide +kernel

theorem reply_blankTarget : isNegative (linkEraseflash smallBoard allDone blankTarget).1.boot.reply.err = false := by
  decide +kernel

theorem erase_blankTarget : 0 ≤ (linkEraseflash smallBoard allDone blankTarget).2 := by
  decide +kernel

/-- Nothing fails and nothing is stopped. -/
theorem allOrNothing_blankTarget :
    AllOrNothing smallBoard [0] (updateOS smallBoard allDone (tinyRequest false) blankTarget) :=
  (allOrNothing_updateOS smallBoard allDone (tinyRequest false) blankTarget layout_smallBoard (List.cons_ne_nil _ _)
    erase_blankTarget programErased_blankTarget).1 ⟨fun _ _ _ _ _ => rfl, .inl rfl⟩

/-- An update that is stopped when the only page of the file is written reports the bytes of this page. -/
theorem not_allOrNothing :
    ¬ ∀ (board : Board) (steps : Nat → Step) (q : Request) (s : Session), Layout board → q.image ≠ [] →
      q.verify = true → 0 ≤ (linkEraseflash board steps s).2 →
      ProgramErased board (linkEraseflash board steps s).1.boot.memory →
      AllOrNothing board q.image (updateOS board steps q s) := by
  intro hall
  have h := hall smallBoard allDone (tinyRequest true) blankTarget layout_smallBoard (List.cons_ne_nil _ _) rfl
    erase_blankTarget programErased_blankTarget
  rw [updateOS_of_erased erase_blankTarget] at h
  have hnever := neverStopped_of_allOrNothing layout_smallBoard ⟨0, by decide, by decide, by decide⟩
    programErased_blankTarget ⟨hung_blankTarget, rfl, reply_blankTarget, rfl⟩ h
  have hpages (base : Nat) : PagesWritten smallBoard allDone base 1 := by
    intro i hi
    have hflash : smallBoard.programStart.toNat + bufferSize * 0 < smallBoard.flashSize := by decide
    obtain rfl : i = 0 := by omega
    exact ⟨⟨rfl, rfl⟩, hflash⟩
  exact Bool.false_ne_true (hnever 1 1 (by decide) (by decide) (hpages _)).symm

end

end Bootloader

end CoActionOS
