import CoActionOS.Bootloader.Flash
import CoActionOS.Isp.WriteExact

/-!
# Writing to the flash of the target

`LpcPhy::writemem` puts a page into the RAM of the target, has it copied to the flash and puts it into the RAM once
more to have the two compared.  A command may be lost, with or without having been carried out; the target answers
one with zero only if it has been.
-/

namespace CoActionOS

namespace Isp

open Bootloader (Memory)

/-! ### Commands -/

/-- `LPCPHY_RAM_BUFFER_SIZE` -/
def lpcphyRamBufferSize : Nat := 512

/-- The commands that `writemem` gives. -/
inductive Command
  | write (dst size : Nat)
  | prepare (first last : Nat)
  | copy (dst src size : Nat)
  | compare (ramAddr flashAddr size : Nat)

/-- What becomes of a command. -/
inductive Fate
  | lost (e : { e : Int // e < 0 }) (carriedOut : Bool)
  | answered (code : Nat)

/-- What the commands and the data that follow a write will find. -/
structure World where
  echo : Bool
  fate : Nat → Fate
  channel : Nat → Channel
  grants : Nat → Nat → Bool

/-- The memory of the target and the number of commands so far. -/
structure Memories where
  ram : Memory
  flash : Memory
  used : Nat

def Memories.carryOut (m : Memories) : Command → Memories
  | .copy dst src size => { m with flash := m.flash.store dst (m.ram.load src size) }
  | _ => m

/-- `COMPARE_ERROR` -/
def compareError : Nat := 10

/-- The number with which the target answers; it does not say that memory is equal which is not. -/
def Memories.answer (m : Memories) (code : Nat) : Command → Nat
  | .compare ramAddr flashAddr size =>
    if code = 0 ∧ m.ram.load ramAddr size ≠ m.flash.load flashAddr size then compareError else code
  | _ => code

section

variable (world : World)

/-- `LpcPhy::sendcommand` -/
def sendcommand (c : Command) (m : Memories) : Memories × Int :=
  let m' := { m with used := m.used + 1 }
  match world.fate m.used with
  | .lost e carriedOut => (if carriedOut then m'.carryOut c else m', e)
  | .answered code => (if m.answer code c = 0 then m'.carryOut c else m', m.answer code c)

/-- `LpcPhy::wr_ram` -/
def wrRam (dst : Nat) (src : List UInt8) (m : Memories) : Memories × Int :=
  match sendcommand world (.write dst src.length) m with
  | (m, ret) =>
    if ret < 0 then (m, -1)
    else if ret = 0 then
      match lpcWriteData (Target.hear world.echo (world.grants m.used)) (world.channel m.used) world.echo src
        (ready src.length 0 0) with
      | (w, written) =>
        ({ m with ram := m.ram.store dst w.target.accepted }, if written ≠ some (src.length : Int) then -1 else ret)
    else (m, ret)

/-! ### `LpcPhy::writemem` -/

variable (ramBuffer loc sector : Nat)

/-- The end of a turn: the first sector holds the bootloader and is not compared. -/
def comparePage (m : Memories) : Memories × Bool :=
  if sector = 0 then (m, true)
  else
    match sendcommand world (.compare ramBuffer loc lpcphyRamBufferSize) m with
    | (m, ret) => (m, ret = 0)

/-- One turn of the loop, and whether it has not failed.  The error of `prep_sector` is kept in a `char`. -/
def writePage (page : List UInt8) (m : Memories) : Memories × Bool :=
  match wrRam world ramBuffer page m with
  | (m, ret) =>
    if ret ≠ 0 then (m, false)
    else
      match sendcommand world (.prepare sector sector) m with
      | (m, err) =>
        if err % 256 ≠ 0 then (m, false)
        else
          match sendcommand world (.copy loc ramBuffer lpcphyRamBufferSize) m with
          | (m, ret) =>
            if ret ≠ 0 then (m, false)
            else
              match wrRam world ramBuffer page m with
              | (m, ret) => if ret ≠ 0 then (m, false) else comparePage world ramBuffer loc sector m

/-- `page_buffer` -/
def pageBuffer (buf : List UInt8) (written : Nat) : List UInt8 :=
  let page := (buf.drop written).take lpcphyRamBufferSize
  page ++ List.replicate (lpcphyRamBufferSize - page.length) 0xFF

/-- The loop, in which `loc` stays as it is; a buffer is written in no more turns than it has bytes. -/
def writememLoop (buf : List UInt8) : (turns written : Nat) → Memories → Memories × Int
  | 0, written, m => (m, written)
  | turns + 1, written, m =>
    match writePage world ramBuffer loc sector (pageBuffer buf written) m with
    | (m, false) => (m, 0)
    | (m, true) =>
      let written := written + min lpcphyRamBufferSize (buf.length - written)
      if written < buf.length then writememLoop buf turns written m else (m, written)

/-- `LpcPhy::writemem` -/
def writemem (buf : List UInt8) (m : Memories) : Memories × Int :=
  writememLoop world ramBuffer loc sector buf buf.length 0 m

end

/-! ### A page -/

section

variable {world : World} {m : Memories}

theorem length_pageBuffer (buf : List UInt8) (written : Nat) : (pageBuffer buf written).length = lpcphyRamBufferSize := by
  unfold pageBuffer
  rw [List.length_append, List.length_replicate, List.length_take]
  omega

/-- A page ends with a line that is not full. -/
theorem endsBlock_page : EndsBlock lpcphyRamBufferSize := .inl (by decide)

/-- The UART of every transfer is prompt. -/
def World.Prompt (world : World) : Prop := ∀ k, (world.channel k).Prompt

/-- A command that does not copy leaves the memory alone. -/
theorem sendcommand_frame (world : World) (m : Memories) (c : Command) (hc : ∀ m : Memories, m.carryOut c = m) :
    (sendcommand world c m).1 = { m with used := m.used + 1 } := by
  unfold sendcommand
  dsimp only
  split
  · split_ifs
    · exact hc _
    · rfl
  · split_ifs
    · exact hc _
    · rfl

/-- A copy that is answered with zero has been made. -/
theorem sendcommand_copy (dst src size : Nat) (h : (sendcommand world (.copy dst src size) m).2 = 0) :
    (sendcommand world (.copy dst src size) m).1 =
      ⟨m.ram, m.flash.store dst (m.ram.load src size), m.used + 1⟩ := by
  unfold sendcommand at h ⊢
  dsimp only at h ⊢
  split at h
  · next e carriedOut heq =>
    have := e.2
    dsimp only at h
    omega
  · next code heq =>
    dsimp only at h ⊢
    rw [if_pos (by omega)]
    rfl

/-- Data go to the RAM only; they are all there where `wr_ram` reports success. -/
theorem wrRam_cases (hprompt : world.Prompt) (dst : Nat) {src : List UInt8} (hne : src ≠ []) (hends : EndsBlock src.length) :
    let r := wrRam world dst src m
    r.1.flash = m.flash ∧ (r.2 = 0 → r.1.ram = m.ram.store dst src) := by
  have hframe := sendcommand_frame world m (.write dst src.length) fun _ => rfl
  unfold wrRam
  generalize sendcommand world (.write dst src.length) m = r at hframe ⊢
  obtain ⟨m', ret⟩ := r
  dsimp only at hframe ⊢
  subst hframe
  dsimp only
  by_cases hneg : ret < 0
  · rw [if_pos hneg]
    exact ⟨rfl, fun h => absurd h (show ¬ (-1 : Int) = 0 by decide)⟩
  · rw [if_neg hneg]
    by_cases hzero : ret = 0
    · rw [if_pos hzero]
      have hwrite := lpcWriteData_cases world.echo (world.grants (m.used + 1)) 0 0 (hprompt (m.used + 1)) hne
      generalize lpcWriteData (Target.hear world.echo (world.grants (m.used + 1))) (world.channel (m.used + 1)) world.echo
        src (ready src.length 0 0) = r at hwrite ⊢
      obtain ⟨w, written⟩ := r
      dsimp only at hwrite ⊢
      refine ⟨rfl, fun h => ?_⟩
      rcases hwrite with ⟨hfail, -⟩ | ⟨-, haccepted⟩
      · rw [hfail, if_pos (fun heq => by cases heq)] at h
        exact absurd h (by decide)
      · rw [haccepted.mpr hends]
    · rw [if_neg hzero]
      exact ⟨rfl, fun h => absurd h hzero⟩

theorem load_store (m : Memory) (addr : Nat) (bs : List UInt8) : (m.store addr bs).load addr bs.length = bs := by
  apply List.ext_getElem
  · exact Bootloader.length_load
  · intro i hi hi'
    rw [← List.getD_eq_getElem _ 0 hi, Bootloader.getD_load hi', Bootloader.store_at hi', List.getD_eq_getElem _ _ hi']

theorem comparePage_flash (ramBuffer loc sector : Nat) : (comparePage world ramBuffer loc sector m).1.flash = m.flash := by
  have hcompare := sendcommand_frame world m (.compare ramBuffer loc lpcphyRamBufferSize)
    fun _ => rfl
  unfold comparePage
  split_ifs
  · rfl
  · show (sendcommand world (.compare ramBuffer loc lpcphyRamBufferSize) m).1.flash = m.flash
    rw [hcompare]

/-- A page that is reported to be written is in the flash. -/
theorem writePage_flash (hprompt : world.Prompt) (ramBuffer loc sector : Nat) {page : List UInt8}
    (hpage : page.length = lpcphyRamBufferSize) (h : (writePage world ramBuffer loc sector page m).2 = true) :
    (writePage world ramBuffer loc sector page m).1.flash = m.flash.store loc page := by
  have hne : page ≠ [] := fun hnil => by
    rw [hnil] at hpage
    cases hpage
  have hends : EndsBlock page.length := by
    rw [hpage]
    exact endsBlock_page
  -- the page is in the RAM of the target
  have hfirst := wrRam_cases (m := m) hprompt ramBuffer hne hends
  unfold writePage at h ⊢
  generalize wrRam world ramBuffer page m = r at hfirst h ⊢
  obtain ⟨m₁, ret₁⟩ := r
  dsimp only at hfirst h ⊢
  by_cases hret₁ : ret₁ = 0
  · obtain ⟨hflash₁, hram₁⟩ := hfirst
    have hram₁ := hram₁ hret₁
    rw [if_neg (not_not.mpr hret₁)] at h ⊢
    have hprepare := sendcommand_frame world m₁ (.prepare sector sector) fun _ => rfl
    generalize sendcommand world (.prepare sector sector) m₁ = r at hprepare h ⊢
    obtain ⟨m₂, err⟩ := r
    dsimp only at hprepare h ⊢
    by_cases herr : err % 256 = 0
    · rw [if_neg (not_not.mpr herr)] at h ⊢
      have hcopy := @sendcommand_copy world m₂ loc ramBuffer lpcphyRamBufferSize
      generalize sendcommand world (.copy loc ramBuffer lpcphyRamBufferSize) m₂ = r at hcopy h ⊢
      obtain ⟨m₃, ret₃⟩ := r
      dsimp only at hcopy h ⊢
      by_cases hret₃ : ret₃ = 0
      · rw [if_neg (not_not.mpr hret₃)] at h ⊢
        -- the RAM has been copied to the flash
        have hcopy := hcopy hret₃
        have hsecond := (wrRam_cases (m := m₃) hprompt ramBuffer hne hends).1
        generalize wrRam world ramBuffer page m₃ = r at hsecond h ⊢
        obtain ⟨m₄, ret₄⟩ := r
        dsimp only at hsecond h ⊢
        -- what follows leaves the flash alone
        have hflash₄ : m₄.flash = m.flash.store loc page := by
          rw [hsecond, hcopy, hprepare, ← hpage]
          show m₁.flash.store loc (m₁.ram.load ramBuffer page.length) = m.flash.store loc page
          rw [hflash₁, hram₁, load_store]
        by_cases hret₄ : ret₄ = 0
        · rw [if_neg (not_not.mpr hret₄)] at h ⊢
          rw [← hflash₄]
          exact comparePage_flash ramBuffer loc sector
        · rw [if_pos hret₄] at h
          cases h
      · rw [if_pos hret₃] at h
        cases h
    · rw [if_pos herr] at h
      cases h
  · rw [if_pos hret₁] at h
    cases h

theorem getD_pageBuffer {buf : List UInt8} {i : Nat} (hi : i < buf.length) (hpage : i < lpcphyRamBufferSize) :
    (pageBuffer buf 0).getD i 0 = buf.getD i 0 := by
  have hlt : i < (buf.take lpcphyRamBufferSize).length := by
    rw [List.length_take]
    omega
  unfold pageBuffer
  rw [List.drop_zero, List.getD_append _ _ _ _ hlt, List.getD_eq_getElem _ _ hlt, List.getElem_take,
    List.getD_eq_getElem _ _ hi]

/-- A buffer of one page is in the flash where `writemem` returns its size. -/
theorem writemem_page (hprompt : world.Prompt) (ramBuffer loc sector : Nat) {buf : List UInt8} (hne : buf ≠ [])
    (hpage : buf.length ≤ lpcphyRamBufferSize) (h : (writemem world ramBuffer loc sector buf m).2 = buf.length) :
    ∀ i < buf.length, (writemem world ramBuffer loc sector buf m).1.flash (loc + i) = buf.getD i 0 := by
  have hpos := List.length_pos_iff.mpr hne
  obtain ⟨turns, hturns⟩ : ∃ turns, buf.length = turns + 1 := ⟨buf.length - 1, by omega⟩
  have hflash := writePage_flash (m := m) hprompt ramBuffer loc sector (length_pageBuffer buf 0)
  intro i hi
  unfold writemem at h ⊢
  rw [hturns] at h ⊢
  unfold writememLoop at h ⊢
  generalize writePage world ramBuffer loc sector (pageBuffer buf 0) m = r at hflash h ⊢
  obtain ⟨m', ok⟩ := r
  cases ok with
  | false =>
    dsimp only at h
    omega
  | true =>
    dsimp only at hflash h ⊢
    have hend : ¬ 0 + min lpcphyRamBufferSize (buf.length - 0) < buf.length := by omega
    rw [if_neg hend]
    dsimp only
    rw [hflash rfl, Bootloader.store_at (by rw [length_pageBuffer]; omega), getD_pageBuffer hi (by omega)]

/-! ### More than a page -/

/-- No command fails and no byte is lost. -/
def goodWorld : World :=
  ⟨false, fun _ => .answered 0, fun _ => ⟨fun _ => some 64, fun _ => true⟩, fun _ _ => true⟩

theorem prompt_goodWorld : goodWorld.Prompt := fun _ _ => ⟨64, rfl, by decide⟩

theorem wrRam_goodWorld (dst : Nat) {src : List UInt8} (hne : src ≠ []) : (wrRam goodWorld dst src m).2 = 0 := by
  have hwrite := lpcWriteData_cases false (goodWorld.grants (m.used + 1)) 0 0 (prompt_goodWorld (m.used + 1)) hne
  have hgood : AllGood (goodWorld.channel (m.used + 1)) (goodWorld.grants (m.used + 1)) := ⟨fun _ => rfl, fun _ => rfl⟩
  have hsize := (hwrite.resolve_left fun h => h.2 hgood).1
  show (if (lpcWriteData (Target.hear false (goodWorld.grants (m.used + 1))) (goodWorld.channel (m.used + 1)) false src
    (ready src.length 0 0)).2 ≠ some (src.length : Int) then (-1 : Int) else 0) = 0
  rw [hsize]
  exact if_neg (not_not.mpr rfl)

theorem answer_compare {ramAddr flashAddr size : Nat} (h : m.ram.load ramAddr size = m.flash.load flashAddr size) :
    m.answer 0 (.compare ramAddr flashAddr size) = 0 :=
  if_neg fun hne => hne.2 h

theorem comparePage_goodWorld {ramBuffer loc : Nat} (sector : Nat)
    (h : m.ram.load ramBuffer lpcphyRamBufferSize = m.flash.load loc lpcphyRamBufferSize) :
    (comparePage goodWorld ramBuffer loc sector m).2 = true := by
  have hanswer : (sendcommand goodWorld (.compare ramBuffer loc lpcphyRamBufferSize) m).2 =
      m.answer 0 (.compare ramBuffer loc lpcphyRamBufferSize) := rfl
  rw [answer_compare h] at hanswer
  unfold comparePage
  generalize sendcommand goodWorld (.compare ramBuffer loc lpcphyRamBufferSize) m = r at hanswer ⊢
  obtain ⟨m', ret⟩ := r
  split_ifs
  · rfl
  · exact decide_eq_true hanswer

theorem writePage_goodWorld (ramBuffer loc sector : Nat) {page : List UInt8} (hpage : page.length = lpcphyRamBufferSize)
    (m : Memories) : (writePage goodWorld ramBuffer loc sector page m).2 = true := by
  have hne : page ≠ [] := fun hnil => by
    rw [hnil] at hpage
    cases hpage
  have hends : EndsBlock page.length := by
    rw [hpage]
    exact endsBlock_page
  obtain ⟨-, hram₁⟩ := wrRam_cases (m := m) prompt_goodWorld ramBuffer hne hends
  have hret₁ := wrRam_goodWorld (m := m) ramBuffer hne
  unfold writePage
  generalize wrRam goodWorld ramBuffer page m = r at hram₁ hret₁ ⊢
  obtain ⟨m₁, ret₁⟩ := r
  dsimp only at hram₁ hret₁ ⊢
  subst hret₁
  have hram₁ := hram₁ rfl
  have hprepare : sendcommand goodWorld (.prepare sector sector) m₁ = (⟨m₁.ram, m₁.flash, m₁.used + 1⟩, 0) := rfl
  have hcopy : sendcommand goodWorld (.copy loc ramBuffer lpcphyRamBufferSize) ⟨m₁.ram, m₁.flash, m₁.used + 1⟩ =
      (⟨m₁.ram, m₁.flash.store loc (m₁.ram.load ramBuffer lpcphyRamBufferSize), m₁.used + 2⟩, 0) := rfl
  rw [if_neg (by decide), hprepare]
  dsimp only
  rw [if_neg (by decide), hcopy]
  dsimp only
  rw [if_neg (by decide)]
  obtain ⟨m₃, hm₃⟩ : ∃ m₃ : Memories, m₃ =
    ⟨m₁.ram, m₁.flash.store loc (m₁.ram.load ramBuffer lpcphyRamBufferSize), m₁.used + 2⟩ := ⟨_, rfl⟩
  rw [← hm₃]
  obtain ⟨hflash₄, hram₄⟩ := wrRam_cases (m := m₃) prompt_goodWorld ramBuffer hne hends
  have hret₄ := wrRam_goodWorld (m := m₃) ramBuffer hne
  generalize wrRam goodWorld ramBuffer page m₃ = r at hflash₄ hram₄ hret₄ ⊢
  obtain ⟨m₄, ret₄⟩ := r
  dsimp only at hflash₄ hram₄ hret₄ ⊢
  subst hret₄
  have hram₄ := hram₄ rfl
  rw [if_neg (by decide)]
  have hequal : m₄.ram.load ramBuffer lpcphyRamBufferSize = m₄.flash.load loc lpcphyRamBufferSize := by
    rw [hflash₄, hram₄, hm₃, hram₁, ← hpage]
    dsimp only
    rw [load_store, load_store, load_store]
  exact comparePage_goodWorld sector hequal

theorem writememLoop_goodWorld (ramBuffer loc sector : Nat) (buf : List UInt8) (turns : Nat) {written : Nat}
    (m : Memories) (hwritten : written < buf.length) (hturns : buf.length ≤ written + turns) :
    let r := writememLoop goodWorld ramBuffer loc sector buf turns written m
    r.2 = buf.length ∧ r.1.flash (loc + lpcphyRamBufferSize) = m.flash (loc + lpcphyRamBufferSize) := by
  induction turns generalizing written m with
  | zero => omega
  | succ turns ih =>
    have hok := writePage_goodWorld ramBuffer loc sector (length_pageBuffer buf written) m
    have hflash := writePage_flash prompt_goodWorld ramBuffer loc sector (length_pageBuffer buf written) hok
    unfold writememLoop
    generalize writePage goodWorld ramBuffer loc sector (pageBuffer buf written) m = r at hok hflash ⊢
    obtain ⟨m', ok⟩ := r
    dsimp only at hok hflash
    subst hok
    dsimp only
    have hkept : m'.flash (loc + lpcphyRamBufferSize) = m.flash (loc + lpcphyRamBufferSize) := by
      rw [hflash, Bootloader.store_of_ge (by rw [length_pageBuffer])]
    have hpos : 0 < lpcphyRamBufferSize := by decide
    split_ifs with hmore
    · obtain ⟨hret, hrest⟩ := ih m' hmore (by omega)
      exact ⟨hret, hrest.trans hkept⟩
    · refine ⟨?_, hkept⟩
      dsimp only
      omega

end

/-! ### Programming -/

/-- `lpc_write_data` ends, and returns the size of the data only if the target has accepted them. -/
def WritesExactly (src : List UInt8) : Prop :=
  ∀ (echo : Bool) (grants : Nat → Bool) (ch : Channel) (reads writes : Nat), ch.Prompt →
    let r := lpcWriteData (Target.hear echo grants) ch echo src (ready src.length reads writes)
    r.2 ≠ none ∧ (r.2 = some (src.length : Int) → r.1.target.accepted = src)

/-- `writemem` returns the size of the buffer only if the flash holds it. -/
def WritesMemory (buf : List UInt8) : Prop :=
  ∀ (world : World) (ramBuffer loc sector : Nat) (m : Memories), world.Prompt →
    let r := writemem world ramBuffer loc sector buf m
    r.2 = buf.length → ∀ i < buf.length, r.1.flash (loc + i) = buf.getD i 0

theorem writesExactly_iff {src : List UInt8} (hne : src ≠ []) : WritesExactly src ↔ EndsBlock src.length := by
  constructor
  · intro h
    have hprompt := prompt_goodWorld 0
    have hgood : AllGood (goodWorld.channel 0) (goodWorld.grants 0) := ⟨fun _ => rfl, fun _ => rfl⟩
    have hwrite := lpcWriteData_cases false (goodWorld.grants 0) 0 0 hprompt hne
    obtain ⟨hret, haccepted⟩ := hwrite.resolve_left fun h => h.2 hgood
    exact haccepted.mp ((h false (goodWorld.grants 0) (goodWorld.channel 0) 0 0 hprompt).2 hret)
  · intro hends echo grants ch reads writes hprompt
    rcases lpcWriteData_cases echo grants reads writes hprompt hne with ⟨hfail, -⟩ | ⟨hret, haccepted⟩
    · dsimp only
      rw [hfail]
      refine ⟨Option.some_ne_none _, fun h => ?_⟩
      have hneg := Option.some.inj h
      omega
    · dsimp only
      rw [hret]
      exact ⟨Option.some_ne_none _, fun _ => haccepted.mpr hends⟩

theorem writesMemory_iff {buf : List UInt8} (hne : buf ≠ []) : WritesMemory buf ↔ buf.length ≤ lpcphyRamBufferSize := by
  constructor
  · intro h
    by_contra hlong
    have hpos := List.length_pos_iff.mpr hne
    -- a flash in which the first byte behind the page is another one than in the buffer
    obtain ⟨m, hm⟩ : ∃ m : Memories, m = ⟨fun _ => 0, fun _ => buf.getD lpcphyRamBufferSize 0 + 1, 0⟩ := ⟨_, rfl⟩
    obtain ⟨hret, hkept⟩ := writememLoop_goodWorld 0 0 0 buf buf.length m hpos (by omega)
    have hall := h goodWorld 0 0 0 m prompt_goodWorld hret lpcphyRamBufferSize (by omega)
    have hsame := hkept.symm.trans hall
    rw [hm] at hsame
    have hnext : ∀ b : UInt8, b + 1 ≠ b := fun b => by simp
    exact hnext _ hsame
  · intro hpage world ramBuffer loc sector m hprompt
    exact writemem_page hprompt ramBuffer loc sector hne hpage

/-- Both are exact just for these sizes. -/
theorem programsExactly_iff (buf : List UInt8) (hne : buf ≠ []) :
    (WritesExactly buf ↔ ¬ 45 ∣ buf.length ∨ 900 ∣ buf.length) ∧
      (WritesMemory buf ↔ buf.length ≤ lpcphyRamBufferSize) :=
  ⟨writesExactly_iff hne, writesMemory_iff hne⟩

theorem programsExactly_one : WritesExactly [0] ∧ WritesMemory [0] :=
  ⟨(programsExactly_iff [0] (List.cons_ne_nil _ _)).1.mpr (.inl (by decide)),
    (programsExactly_iff [0] (List.cons_ne_nil _ _)).2.mpr (by decide)⟩

/-- The sum of a single full line is never sent, and the second page is put in the place of the first. -/
theorem not_programsExactly : ¬ WritesExactly (List.replicate 45 0) ∧ ¬ WritesMemory (List.replicate 513 0) := by
  constructor
  · rw [writesExactly_iff (by decide)]
    unfold EndsBlock
    decide
  · rw [writesMemory_iff (List.ne_nil_of_length_pos (by rw [List.length_replicate]; decide)), List.length_replicate]
    decide

end Isp

end CoActionOS
