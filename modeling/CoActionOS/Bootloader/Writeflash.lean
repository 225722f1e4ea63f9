import CoActionOS.Bootloader.AllOrNothing

/-!
# What `link_writeflash` sends

The buffer is an object of `nbyte` bytes here, and reading behind it has no result.  The size of a page is chosen once, in
front of the loop, so the last page of a longer buffer is a whole one, whatever is left: `sendsExactly_iff`.

`Link::updateOS` calls the function with a page at most.  It leaves what is behind the end of the image as it is, but for the
vector page of an image that is shorter than that page, which takes what was in the buffer before: `programsExactly_iff`.
-/

namespace CoActionOS

namespace Bootloader

open Proc Link

/-! ### The code -/

/-- The loop of `link_writeflash`, which has `rest` of the buffer in front of it; every request is answered by what
`link_ioctl_delay` returns. -/
def writeflashTurns (pageSize nbyte : Nat) :
    (turns : Nat) → (addr : Word) → (bytesWritten : Nat) → (rest : List UInt8) → Proc Writepage Int (Option Int)
  | 0, _, _, _ => ret none
  | turns + 1, addr, bytesWritten, rest =>
    if rest.length < pageSize then ret none
    else
      let page := rest.take pageSize ++ List.replicate (bootloaderWritepagesize - pageSize) 0xFF
      call ⟨addr.toNat, pageSize, page⟩ fun err =>
        if err < 0 then ret (some err)
        else if bytesWritten + pageSize < nbyte then
          writeflashTurns pageSize nbyte turns (addr + BitVec.ofNat 32 pageSize) (bytesWritten + pageSize) (rest.drop pageSize)
        else ret (some nbyte)

/-- `link_writeflash` of a whole buffer; there are no more turns than bytes. -/
def writeflash (addr : Word) (buf : List UInt8) : Proc Writepage Int (Option Int) :=
  writeflashTurns (min bootloaderWritepagesize buf.length) buf.length buf.length addr 0 buf

/-! ### The statement -/

/-- The pages that have been requested. -/
def pagesOf {α : Type} (o : Finished Writepage Int α) : List Writepage :=
  o.events.filterMap fun e => match e with
    | .called w => some w
    | _ => none

/-- Each page begins where the one before has ended. -/
def Consecutive : Word → List Writepage → Prop
  | _, [] => True
  | addr, w :: ws => w.addr = addr.toNat ∧ Consecutive (addr + BitVec.ofNat 32 w.nbyte) ws

/-- The requests carry the bytes, and nothing else but `0xFF`. -/
structure Sends (addr : Word) (bs : List UInt8) (ws : List Writepage) : Prop where
  addrs : Consecutive addr ws
  bytes : ws.flatMap (fun w => w.buf.take w.nbyte) = bs
  sizes : (ws.map Writepage.nbyte).sum = bs.length
  blank : ∀ w ∈ ws, w.buf.length = bootloaderWritepagesize ∧ ∀ x ∈ w.buf.drop w.nbyte, x = 0xFF

/-- When all requests succeed the buffer is sent, and no byte behind it is read. -/
def SendsExactly (addr : Word) (buf : List UInt8) : Prop :=
  ∀ env : Env Int, (∀ err ∈ env.answers, 0 ≤ err) →
    let r := (writeflash addr buf).run env
    r.value = some (buf.length : Int) ∧ Sends addr buf (pagesOf r)

/-- The image is in the flash, and what is behind it is as it was when the flash had been erased. -/
structure ProgramsExactly (board : Board) (steps : Nat → Step) (q : Request) (s : Session) : Prop where
  installed : Installed board q.image (updateOS board steps q s).1.boot.memory
  behind : ∀ a, board.programStart.toNat + q.image.length ≤ a →
    (updateOS board steps q s).1.boot.memory a = (linkEraseflash board steps s).1.boot.memory a

/-! ### Requests -/

section

variable {addr : Word} {rest : List UInt8} {pageSize nbyte bytesWritten turns : Nat} {env : Env Int}

theorem pagesOf_after_called {α : Type} (w : Writepage) (o : Finished Writepage Int α) :
    pagesOf (o.after [.called w]) = w :: pagesOf o := rfl

theorem Sends.nil (addr : Word) : Sends addr [] [] :=
  ⟨trivial, rfl, rfl, fun _ hw => absurd hw List.not_mem_nil⟩

/-- A page in front of the others. -/
theorem Sends.cons {chunk bs : List UInt8} {ws : List Writepage} (hchunk : chunk.length = pageSize)
    (hsize : pageSize ≤ bootloaderWritepagesize) (h : Sends (addr + BitVec.ofNat 32 pageSize) bs ws) :
    Sends addr (chunk ++ bs)
      (⟨addr.toNat, pageSize, chunk ++ List.replicate (bootloaderWritepagesize - pageSize) 0xFF⟩ :: ws) := by
  subst hchunk
  refine ⟨⟨rfl, h.addrs⟩, ?_, ?_, fun w hw => ?_⟩
  · rw [List.flatMap_cons, h.bytes]
    dsimp only
    rw [List.take_left]
  · rw [List.map_cons, List.sum_cons, h.sizes, List.length_append]
  · rcases List.mem_cons.mp hw with rfl | hw
    · dsimp only
      rw [List.length_append, List.length_replicate, List.drop_left]
      exact ⟨by omega, fun x hx => List.eq_of_mem_replicate hx⟩
    · exact h.blank w hw

theorem answer_nonneg (henv : ∀ err ∈ env.answers, 0 ≤ err) :
    0 ≤ env.answer.1 ∧ ∀ err ∈ env.answer.2.answers, 0 ≤ err := by
  unfold Env.answer
  cases hanswers : env.answers with
  | nil => exact ⟨Int.le_refl _, fun err herr => henv err herr⟩
  | cons err errs =>
    rw [hanswers] at henv
    exact ⟨henv err List.mem_cons_self, fun err' herr => henv err' (List.mem_cons_of_mem _ herr)⟩

/-- A turn with a whole page left, whose request succeeds. -/
theorem run_writeflashTurns (hpage : pageSize ≤ rest.length) (henv : ∀ err ∈ env.answers, 0 ≤ err) :
    (writeflashTurns pageSize nbyte (turns + 1) addr bytesWritten rest).run env =
      Finished.after [.called ⟨addr.toNat, pageSize,
        rest.take pageSize ++ List.replicate (bootloaderWritepagesize - pageSize) 0xFF⟩]
        ((if bytesWritten + pageSize < nbyte then
          writeflashTurns pageSize nbyte turns (addr + BitVec.ofNat 32 pageSize) (bytesWritten + pageSize)
            (rest.drop pageSize)
        else ret (some (nbyte : Int))).run env.answer.2) := by
  obtain ⟨hanswer, -⟩ := answer_nonneg henv
  rw [writeflashTurns, if_neg (Nat.not_lt.mpr hpage)]
  show Finished.after _ ((if env.answer.1 < 0 then _ else _ : Proc Writepage Int (Option Int)).run env.answer.2) = _
  rw [if_neg (Int.not_lt.mpr hanswer)]

/-- A number of whole pages. -/
theorem sends_of_pages {k : Nat} (hsize : pageSize ≤ bootloaderWritepagesize) (hpos : 0 < pageSize)
    (hlength : rest.length = pageSize * (k + 1)) (hwritten : bytesWritten + rest.length = nbyte)
    (hturns : rest.length ≤ turns) (henv : ∀ err ∈ env.answers, 0 ≤ err) :
    ((writeflashTurns pageSize nbyte turns addr bytesWritten rest).run env).value = some (nbyte : Int) ∧
      Sends addr rest (pagesOf ((writeflashTurns pageSize nbyte turns addr bytesWritten rest).run env)) := by
  induction k generalizing rest addr bytesWritten turns env with
  | zero =>
    rw [Nat.zero_add, Nat.mul_one] at hlength
    obtain ⟨turns, rfl⟩ : ∃ m, turns = m + 1 := ⟨turns - 1, by omega⟩
    rw [run_writeflashTurns (Nat.le_of_eq hlength.symm) henv, if_neg (by omega),
      List.take_of_length_le (Nat.le_of_eq hlength)]
    have hsends : Sends addr (rest ++ []) _ := Sends.cons hlength hsize (Sends.nil _)
    rw [List.append_nil] at hsends
    exact ⟨rfl, hsends⟩
  | succ k ih =>
    rw [Nat.mul_succ] at hlength
    have hpage : pageSize ≤ pageSize * (k + 1) := Nat.le_mul_of_pos_right _ (Nat.succ_pos k)
    obtain ⟨turns, rfl⟩ : ∃ m, turns = m + 1 := ⟨turns - 1, by omega⟩
    have hdrop : (rest.drop pageSize).length = pageSize * (k + 1) := by
      rw [List.length_drop]
      omega
    have hnext : bytesWritten + pageSize + (rest.drop pageSize).length = nbyte := by omega
    have hrest : (rest.drop pageSize).length ≤ turns := by omega
    obtain ⟨hvalue, hsends⟩ := ih hdrop hnext hrest (answer_nonneg henv).2
    rw [run_writeflashTurns (by omega) henv, if_pos (by omega)]
    refine ⟨hvalue, ?_⟩
    have htake : (rest.take pageSize).length = pageSize := by
      rw [List.length_take]
      omega
    have hcons := hsends.cons htake hsize
    rw [List.take_append_drop] at hcons
    exact hcons

/-- What is left is never a whole number of pages, and the last page reaches over the end. -/
theorem value_of_not_dvd (hdvd : ¬ pageSize ∣ rest.length) (hwritten : bytesWritten + rest.length = nbyte)
    (henv : ∀ err ∈ env.answers, 0 ≤ err) :
    ((writeflashTurns pageSize nbyte turns addr bytesWritten rest).run env).value = none := by
  induction turns generalizing rest addr bytesWritten env with
  | zero => rfl
  | succ turns ih =>
    by_cases hpage : pageSize ≤ rest.length
    · have hmore : pageSize < rest.length := Nat.lt_of_le_of_ne hpage fun heq => hdvd (heq ▸ Nat.dvd_refl _)
      rw [run_writeflashTurns hpage henv, if_pos (by omega), after_value]
      refine ih ?_ ?_ (answer_nonneg henv).2
      · rw [List.length_drop]
        exact fun h => hdvd ((Nat.dvd_sub_iff_left hpage (Nat.dvd_refl _)).mp h)
      · rw [List.length_drop]
        omega
    · unfold writeflashTurns
      rw [if_pos (Nat.lt_of_not_le hpage)]
      rfl

end

/-- A buffer is sent exactly where it is no longer than a page or a number of whole pages. -/
theorem sendsExactly_iff_length (addr : Word) {buf : List UInt8} (hne : buf ≠ []) :
    SendsExactly addr buf ↔ buf.length ≤ bootloaderWritepagesize ∨ bootloaderWritepagesize ∣ buf.length := by
  have hpos := List.length_pos_of_ne_nil hne
  by_cases hle : buf.length ≤ bootloaderWritepagesize
  · refine iff_of_true (fun env henv => ?_) (Or.inl hle)
    dsimp only
    unfold writeflash
    rw [Nat.min_eq_right hle]
    exact sends_of_pages (k := 0) hle hpos (Nat.mul_one _).symm (Nat.zero_add _) (Nat.le_refl _) henv
  · by_cases hdvd : bootloaderWritepagesize ∣ buf.length
    · refine iff_of_true (fun env henv => ?_) (Or.inr hdvd)
      obtain ⟨k, hk⟩ := hdvd
      obtain ⟨k, rfl⟩ : ∃ m, k = m + 1 := ⟨k - 1, by
        have hne : k ≠ 0 := fun hzero => by rw [hzero] at hk; omega
        omega⟩
      dsimp only
      unfold writeflash
      rw [Nat.min_eq_left (by omega)]
      exact sends_of_pages (Nat.le_refl _) (by decide) hk (Nat.zero_add _) (Nat.le_refl _) henv
    · refine iff_of_false (fun h => ?_) (not_or_intro hle hdvd)
      have henv : ∀ err ∈ (Env.mk [] [] ([] : List Int)).answers, 0 ≤ err := fun err herr => absurd herr List.not_mem_nil
      obtain ⟨hvalue, -⟩ := h _ henv
      unfold writeflash at hvalue
      rw [Nat.min_eq_left (by omega), value_of_not_dvd hdvd (Nat.zero_add _) henv] at hvalue
      exact nomatch hvalue

/-! ### The update -/

section

variable {board : Board} {steps : Nat → Step} {s : Session} {q : Request}

theorem writeflash_eq_call {addr : Word} {buf : List UInt8} (hne : buf ≠ []) (hle : buf.length ≤ bootloaderWritepagesize) :
    writeflash addr buf = call (⟨addr.toNat, buf.length, hostPage buf buf.length⟩ : Writepage) fun err : Int =>
      ret (some (if err < 0 then err else (buf.length : Int))) := by
  have hpos := List.length_pos_of_ne_nil hne
  have hsized : sized buf.length buf = buf := List.take_left
  unfold writeflash hostPage
  rw [Nat.min_eq_right hle, hsized]
  generalize hn : buf.length = n at hpos ⊢
  obtain ⟨turns, rfl⟩ : ∃ m, n = m + 1 := ⟨n - 1, by omega⟩
  rw [writeflashTurns, if_neg (by omega), List.take_of_length_le (Nat.le_of_eq hn)]
  dsimp only
  congr 1
  funext err
  rw [if_neg (show ¬ 0 + (turns + 1) < turns + 1 by omega)]
  split_ifs <;> rfl

variable (board steps) in
/-- The requests of a program go over the link. -/
def overLink {α : Type} : Proc Writepage Int α → Session → Option (Session × α)
  | .ret a, s => some (s, a)
  | .call w k, s =>
    match linkWritepage board steps w s with
    | (s, err) => overLink (k err) s
  | _, _ => none

/-- The pages that an update writes are the requests of `link_writeflash`. -/
theorem overLink_writeflash {addr : Word} {buf : List UInt8} (hne : buf ≠ []) (hle : buf.length ≤ bootloaderWritepagesize) :
    overLink board steps (writeflash addr buf) s =
      some ((linkWriteflash board steps addr.toNat buf buf.length s).1,
        some (linkWriteflash board steps addr.toNat buf buf.length s).2) := by
  rw [writeflash_eq_call hne hle, linkWriteflash_eq buf (List.length_pos_of_ne_nil hne) hle]
  rfl

/-- A page that is written changes no byte but its own: behind them it puts `0xFF` where `0xFF` is. -/
theorem writepage_frame (rom : Rom) {addr n a : Nat} (buf : List UInt8) (b : Boot) (hn : n ≤ bootloaderWritepagesize)
    (ha : addr + n ≤ a) : (b.writepage board rom ⟨addr, n, hostPage buf n⟩).memory a = b.memory a := by
  have hstore : ∀ k ≤ bootloaderWritepagesize, blankCheck b.memory addr k = true →
      b.memory.store addr (sized k (hostPage buf n)) a = b.memory a := by
    intro k hk hblank
    by_cases hin : a < addr + k
    · have hbyte := blankCheck_iff.mp hblank (a - addr) (by omega)
      rw [Nat.add_sub_cancel' (by omega)] at hbyte
      have hpage : (hostPage buf n).length = bootloaderWritepagesize := by
        unfold hostPage
        rw [List.length_append, length_sized, List.length_replicate]
        omega
      rw [hbyte, store_of_le (by omega), List.getD_eq_getElem _ _ (by rw [length_sized]; omega)]
      unfold sized
      rw [List.getElem_take, List.getElem_append_left (by omega)]
      unfold hostPage
      rw [List.getElem_append_right (by rw [length_sized]; omega), List.getElem_replicate]
    · exact store_of_ge (by rw [length_sized]; omega)
  unfold Boot.writepage
  dsimp only
  rw [Boot.noteErrno_memory]
  rcases hwplFlashWritepage_cases board.flashSize rom.written ⟨addr, n, hostPage buf n⟩ b.memory with
    ⟨hm, -⟩ | ⟨-, -, -, nbyte, -, hblank, hrun⟩
  · exact congrFun hm a
  · rw [hrun]
    exact hstore _ (roundNbyte_le nbyte) hblank

variable (board steps s) in
theorem linkWriteflash_frame (addr : Nat) {n a : Nat} (buf : List UInt8) (hpos : 0 < n) (hn : n ≤ bootloaderWritepagesize)
    (ha : addr + n ≤ a) : (linkWriteflash board steps addr buf n s).1.boot.memory a = s.boot.memory a := by
  obtain ⟨hboot, -⟩ := link_memory steps s fun step b => b.writepage board step.rom ⟨addr, n, hostPage buf n⟩
  rw [linkWriteflash_eq buf hpos hn]
  unfold linkWritepage
  dsimp only
  rcases hboot with heq | heq
  · rw [heq]
  · rw [heq]
    exact writepage_frame _ buf s.boot hn ha

variable (board steps) in
/-- The loop that writes the file changes no byte behind it. -/
theorem writeImage_frame {a : Nat} (startAddr turns : Nat) (rest : List UInt8) (loc progress : Nat) (err : Int) (s : Session)
    (ha : loc + rest.length ≤ a) :
    (writeImage board steps q startAddr turns rest loc progress err s).1.boot.memory a = s.boot.memory a := by
  induction turns generalizing rest loc progress err s with
  | zero => rfl
  | succ turns ih =>
    unfold writeImage
    dsimp only
    by_cases hzero : (rest.take bufferSize).length = 0
    · rw [if_pos hzero]
    · rw [if_neg hzero]
      have hlength : (rest.take bufferSize).length + (rest.drop bufferSize).length = rest.length := by
        rw [← List.length_append, List.take_append_drop]
      have hpage : (rest.take bufferSize).length ≤ bootloaderWritepagesize := by
        rw [List.length_take]
        exact Nat.min_le_left _ _
      have hframe := linkWriteflash_frame board steps s loc (a := a) (chunkAt startAddr loc rest)
        (Nat.pos_of_ne_zero hzero) hpage (by omega)
      generalize linkWriteflash board steps loc (chunkAt startAddr loc rest) (rest.take bufferSize).length s = r at hframe ⊢
      obtain ⟨s', err'⟩ := r
      dsimp only at hframe ⊢
      split_ifs
      · exact hframe
      · exact hframe
      · exact hframe
      · rw [ih _ _ _ _ _ (by omega), hframe]

variable (board steps) in
/-- The loop ends with an error, with zero, or it has nothing to write. -/
theorem writeImage_result (hupdate : ∀ p n, q.update p n = false) (startAddr turns : Nat) (rest : List UInt8)
    (loc progress : Nat) (err : Int) (s : Session) :
    let r := writeImage board steps q startAddr turns rest loc progress err s
    r.2 < 0 ∨ r.2 = 0 ∨ r.2 = err ∧ (rest = [] ∨ turns = 0) := by
  induction turns generalizing rest loc progress err s with
  | zero => exact Or.inr (Or.inr ⟨rfl, Or.inr rfl⟩)
  | succ turns ih =>
    unfold writeImage
    dsimp only
    by_cases hzero : (rest.take bufferSize).length = 0
    · rw [if_pos hzero]
      refine Or.inr (Or.inr ⟨rfl, Or.inl ?_⟩)
      rw [List.length_eq_zero_iff, List.take_eq_nil_iff] at hzero
      exact hzero.resolve_left (by decide)
    · rw [if_neg hzero]
      generalize linkWriteflash board steps loc (chunkAt startAddr loc rest) (rest.take bufferSize).length s = r
      obtain ⟨s', err'⟩ := r
      dsimp only
      rw [hupdate, if_neg Bool.false_ne_true]
      split_ifs with hbytes hpos
      · exact Or.inl (show (-1 : Int) < 0 by decide)
      · dsimp only
        omega
      · rcases ih (rest.drop bufferSize) _ _ 0 s' with h | h | ⟨h, -⟩
        · exact Or.inl h
        · exact Or.inr (Or.inl h)
        · exact Or.inr (Or.inl h)

theorem getD_stackaddr_of_le {i : Nat} (hi : i < vectorSize) (hlen : q.image.length ≤ i) (d : UInt8) :
    (stackaddr q).getD i d = q.junk.getD i 0 := by
  rw [List.getD_eq_getElem _ _ (by rw [length_stackaddr]; exact hi)]
  unfold stackaddr sized
  rw [List.getElem_take]
  by_cases hjunk : i < q.junk.length
  · rw [List.getElem_append_left (by rw [List.length_append, List.length_drop]; omega),
      List.getElem_append_right hlen, List.getElem_drop, List.getD_eq_getElem _ _ hjunk]
    congr 1
    omega
  · rw [List.getElem_append_right (by rw [List.length_append, List.length_drop]; omega), List.getElem_replicate,
      List.getD_eq_default _ _ (Nat.not_lt.mp hjunk)]

/-- The last step of an update, where it succeeds. -/
theorem writeVectors_memory (layout : Layout board) (hok : 0 ≤ (writeVectors board steps q board.programStart.toNat s).2) :
    (writeVectors board steps q board.programStart.toNat s).1.boot.memory =
      s.boot.memory.store board.programStart.toNat (sized (roundNbyte vectorSize) (hostPage (stackaddr q) vectorSize)) := by
  have hwrite := linkWriteflash_cases board steps s board.programStart.toNat vectorSize (stackaddr q) (by decide) (by decide)
    (fun _ => layout.vectors) layout.size
  unfold writeVectors at hok ⊢
  generalize linkWriteflash board steps board.programStart.toNat (stackaddr q) vectorSize s = r at hwrite hok ⊢
  obtain ⟨s', err⟩ := r
  dsimp only at hwrite hok ⊢
  have herr : ¬ err ≠ vectorSize := fun hne => by
    rw [if_pos hne] at hok
    exact absurd hok (show ¬ (0 : Int) ≤ -1 by decide)
  have hm := hwrite.2.resolve_left fun h => by
    have hneg := h.2
    omega
  rw [if_neg herr] at hok ⊢
  rw [← hm.2.2.1]
  have hread := linkReadflash_memory board steps s' board.programStart.toNat vectorSize
  generalize linkReadflash board steps board.programStart.toNat vectorSize s' = r at hread hok ⊢
  obtain ⟨s'', err', buffer⟩ := r
  dsimp only at hread hok ⊢
  split_ifs at hok ⊢
  · rfl
  · exact absurd hok (show ¬ (0 : Int) ≤ -1 by decide)
  · exact absurd hok (show ¬ (0 : Int) ≤ -1 by decide)
  · exact hread

/-- An update that succeeds and is not stopped ends with the vector page. -/
theorem exists_vectors (layout : Layout board) (hupdate : ∀ p n, q.update p n = false)
    (hattr : q.image = [] → (linkGetattr steps s).2.1 = 0) (hstart : (steps s.used).locals.startaddr = board.programStart)
    (hok : 0 ≤ (updateErased board steps q s).2) :
    ∃ m : Memory, (∀ a, board.programStart.toNat + q.image.length ≤ a → m a = s.boot.memory a) ∧
      (updateErased board steps q s).1.boot.memory = m.store board.programStart.toNat
        (sized (roundNbyte vectorSize) (hostPage (stackaddr q) vectorSize)) := by
  obtain ⟨hm, -, haddr, -⟩ := linkGetattr_cases steps s
  rw [hstart] at haddr
  unfold updateErased at hok ⊢
  generalize linkGetattr steps s = r at hm haddr hattr hok ⊢
  obtain ⟨s', err, startAddr⟩ := r
  dsimp only at hm haddr hattr hok ⊢
  subst haddr
  have hgot : ¬ err < 0 := fun hneg => by
    rw [if_pos hneg] at hok
    exact absurd hok (Int.not_le.mpr hneg)
  rw [if_neg hgot] at hok ⊢
  have hresult := writeImage_result board steps hupdate board.programStart.toNat
    (q.image.length + 1) q.image board.programStart.toNat 0 err s'
  have hframe := fun a ha => writeImage_frame board steps (q := q) (a := a) board.programStart.toNat
    (q.image.length + 1) q.image board.programStart.toNat 0 err s' ha
  generalize writeImage board steps q board.programStart.toNat (q.image.length + 1) q.image board.programStart.toNat 0 err s' = r
    at hresult hframe hok ⊢
  obtain ⟨s'', err'⟩ := r
  dsimp only at hresult hframe hok ⊢
  -- otherwise the update would have failed
  have hzero : err' = 0 := by
    by_contra hne
    rw [if_neg hne] at hok
    unfold finishUpdate at hok
    dsimp only at hok
    rcases hresult with hneg | hzero | ⟨heq, himage | hturns⟩
    · rw [if_pos hneg] at hok
      exact absurd hok (Int.not_le.mpr hneg)
    · exact hne hzero
    · exact hne (heq.trans (hattr himage))
    · exact absurd hturns (Nat.succ_ne_zero _)
  rw [if_pos hzero] at hok ⊢
  -- the loop writes to the bytes of the image only
  have hbehind : ∀ a, board.programStart.toNat + q.image.length ≤ a → s''.boot.memory a = s.boot.memory a := by
    intro a ha
    rw [hframe a ha, hm]
  have hverify := verifyImage_memory board steps s'' board.programStart.toNat (q.image.length + 1) q.image
    board.programStart.toNat 0
  unfold installVectors at hok ⊢
  generalize verifyImage board steps board.programStart.toNat (q.image.length + 1) q.image board.programStart.toNat 0 s'' = r
    at hverify hok ⊢
  obtain ⟨s₃, err''⟩ := r
  dsimp only at hverify hok ⊢
  -- with or without the pass that verifies
  split_ifs at hok ⊢
  · cases err'' with
    | none => exact absurd hok (show ¬ (0 : Int) ≤ -1 by decide)
    | some e => exact ⟨s₃.boot.memory, fun a ha => by rw [hverify, hbehind a ha], writeVectors_memory layout hok⟩
  · exact ⟨s''.boot.memory, hbehind, writeVectors_memory layout hok⟩

/-- An update that succeeds programs exactly its image where the image has a whole vector page, or the buffer had `0xFF`
behind it. -/
theorem programsExactly_iff_junk (layout : Layout board) (hupdate : ∀ p n, q.update p n = false)
    (hok : 0 ≤ (linkEraseflash board steps s).2)
    (herased : ProgramErased board (linkEraseflash board steps s).1.boot.memory)
    (hstart : (steps (s.used + 1)).locals.startaddr = board.programStart)
    (hattr : q.image = [] → (linkGetattr steps (linkEraseflash board steps s).1).2.1 = 0)
    (hsuccess : 0 ≤ (updateOS board steps q s).2) :
    ProgramsExactly board steps q s ↔ ∀ i, q.image.length ≤ i → i < vectorSize → q.junk.getD i 0 = 0xFF := by
  have hused : (linkEraseflash board steps s).1.used = s.used + 1 := link_used steps s fun step b => b.erase board step.rom
  rw [← hused] at hstart
  rw [updateOS_of_erased hok] at hsuccess
  obtain ⟨m, hbehind, hm⟩ := exists_vectors layout hupdate hattr hstart hsuccess
  have hinstalled : Installed board q.image (updateErased board steps q (linkEraseflash board steps s).1).1.boot.memory := by
    by_cases hne : q.image = []
    · intro i hi
      rw [hne] at hi
      exact absurd hi (Nat.not_lt_zero i)
    · exact (allOrNothing_updateErased layout hne herased ⟨fun _ _ _ _ _ => hupdate _ _, Or.inl hstart⟩).success hsuccess
  -- what the last page holds behind the image is what the buffer held
  have hvector : ∀ i, q.image.length ≤ i → i < vectorSize →
      (updateErased board steps q (linkEraseflash board steps s).1).1.boot.memory (board.programStart.toNat + i) =
        q.junk.getD i 0 := by
    intro i hlen hi
    have hround : i < roundNbyte (stackaddr q).length := by
      rw [length_stackaddr]
      exact hi
    have hget := getD_sized_hostPage (stackaddr q) (by rw [length_stackaddr]; decide) hround
    rw [length_stackaddr] at hget
    rw [hm, store_at (by rw [length_sized]; exact hi), hget, getD_stackaddr_of_le hi hlen]
  have hvectors := layout.vectors
  constructor
  -- behind the image the flash is to stay erased
  · intro h i hlen hi
    have hsame := h.behind (board.programStart.toNat + i) (by omega)
    rw [updateOS_of_erased hok, hvector i hlen hi, herased _ (by omega) (by omega)] at hsame
    exact hsame
  · intro hjunk
    refine ⟨?_, fun a ha => ?_⟩
    · rw [updateOS_of_erased hok]
      exact hinstalled
    · rw [updateOS_of_erased hok]
      -- within the vector page, or behind it
      by_cases hin : a < board.programStart.toNat + vectorSize
      · obtain ⟨i, rfl⟩ := Nat.exists_eq_add_of_le (Nat.le_trans (Nat.le_add_right _ _) ha)
        rw [hvector i (by omega) (by omega), hjunk i (by omega) (by omega), herased _ (by omega) (by omega)]
      · rw [hm, store_of_ge (by rw [length_sized]; exact Nat.not_lt.mp hin)]
        exact hbehind a ha

end

/-- `link_writeflash` sends exactly its buffer where that is no longer than a page or a number of whole pages.  An update that
succeeds programs exactly its image where that is no shorter than the vector page, or `0xFF` stood behind it. -/
theorem sendsExactly_iff (board : Board) (layout : Layout board) :
    (∀ (addr : Word) (buf : List UInt8), buf ≠ [] →
      (SendsExactly addr buf ↔ buf.length ≤ bootloaderWritepagesize ∨ bootloaderWritepagesize ∣ buf.length)) ∧
    ∀ (steps : Nat → Step) (q : Request) (s : Session),
      (∀ p n, q.update p n = false) → 0 ≤ (linkEraseflash board steps s).2 →
      ProgramErased board (linkEraseflash board steps s).1.boot.memory →
      (steps (s.used + 1)).locals.startaddr = board.programStart →
      (q.image = [] → (linkGetattr steps (linkEraseflash board steps s).1).2.1 = 0) →
      0 ≤ (updateOS board steps q s).2 →
      (ProgramsExactly board steps q s ↔ ∀ i, q.image.length ≤ i → i < vectorSize → q.junk.getD i 0 = 0xFF) :=
  ⟨fun addr _ hne => sendsExactly_iff_length addr hne,
    fun _ _ _ hupdate hok herased hstart hattr hsuccess =>
      programsExactly_iff_junk layout hupdate hok herased hstart hattr hsuccess⟩

theorem success_tinyRequest : 0 ≤ (updateOS smallBoard allDone (tinyRequest false) blankTarget).2 := by
  decide +kernel

/-- A buffer of a byte is sent; the update with a file of a byte leaves what was in the buffer behind it. -/
theorem sendsExactly_tiny :
    SendsExactly 0x3000 [0] ∧ ¬ ProgramsExactly smallBoard allDone (tinyRequest false) blankTarget := by
  constructor
  · exact ((sendsExactly_iff smallBoard layout_smallBoard).1 0x3000 [0] (List.cons_ne_nil _ _)).mpr (Or.inl (by decide))
  · intro h
    have hjunk := ((sendsExactly_iff smallBoard layout_smallBoard).2 allDone (tinyRequest false) blankTarget (fun _ _ => rfl)
      erase_blankTarget programErased_blankTarget rfl (fun h => nomatch h) success_tinyRequest).mp h 1 (by decide) (by decide)
    exact absurd hjunk (by decide)

/-- A buffer that is a byte longer than a page. -/
theorem not_sendsExactly : ¬ ∀ (addr : Word) (buf : List UInt8), buf ≠ [] → SendsExactly addr buf := by
  intro h
  have hone := (sendsExactly_iff_length 0x3000 (List.cons_ne_nil 0 (List.replicate 1024 0))).mp
    (h 0x3000 _ (List.cons_ne_nil 0 (List.replicate 1024 0)))
  rw [List.length_cons, List.length_replicate] at hone
  revert hone
  decide

end Bootloader

end CoActionOS
