import CoActionOS.Link.Device
import Mathlib.Data.List.GetD

/-!
# The flash driver

The flash memory of the `lpc17xx` and the driver functions the bootloader calls.  The memory is read as any other;
to erase a sector or to copy a page to it the ROM is called, which may refuse.  Whether it does is an argument here:
a copy that is refused changes nothing.

`_flash_size` is a symbol of the linker script and so a parameter.
-/

namespace CoActionOS

namespace Bootloader

open Link

/-- What is at each address. -/
abbrev Memory : Type := Nat → UInt8

def errPerm : Word := 1

def errIo : Word := 5

def errRofs : Word := 30

/-- `HWPL_LAST_BOOTLOADER_PAGE` -/
def hwplLastBootloaderPage : Nat := 3

def getPage (addr : Nat) : Nat :=
  if addr < 0x10000 then addr / 4096 else 16 + (addr - 0x10000) / 32768

def getPageSize (page : Nat) : Nat :=
  if page < 16 then 4 * 1024 else 32 * 1024

def getPageAddr (page : Nat) : Nat :=
  if page < 16 then page * 4096 else 16 * 4096 + (page - 16) * 32 * 1024

/-- All bytes from `loc` on are `0xFF`. -/
def blankCheck (m : Memory) (loc nbyte : Nat) : Bool :=
  (List.range nbyte).all fun i => m (loc + i) == 0xFF

/-- The bytes from `addr` on are replaced. -/
def Memory.store (m : Memory) (addr : Nat) (bs : List UInt8) : Memory :=
  fun a => if addr ≤ a then bs.getD (a - addr) (m a) else m a

/-- The bytes from `addr` on. -/
def Memory.load (m : Memory) (addr nbyte : Nat) : List UInt8 :=
  (List.range nbyte).map fun i => m (addr + i)

/-- What a driver function returns, and what it has set `errno` to. -/
structure FlashResult where
  memory : Memory
  errno : Option Word
  ret : Word

section

variable (flashSize : Nat)

/-- `hwpl_flash_erasepage`; the bootloader is never erased. -/
def hwplFlashErasepage (erased : Bool) (page : Nat) (m : Memory) : FlashResult :=
  if page < hwplLastBootloaderPage then ⟨m, some errPerm, -1⟩
  else if getPageAddr page + getPageSize page > flashSize then ⟨m, none, -1⟩
  else if blankCheck m (getPageAddr page) (getPageSize page) then ⟨m, none, 0⟩
  else if erased then ⟨m.store (getPageAddr page) (List.replicate (getPageSize page) 0xFF), none, 0⟩
  else ⟨m, some errIo, -1⟩

/-- `flash_writepage_t` -/
structure Writepage where
  addr : Nat
  nbyte : Nat
  buf : List UInt8

/-- The number of bytes that are copied. -/
def roundNbyte (nbyte : Nat) : Nat :=
  if nbyte ≤ 256 then 256 else if nbyte ≤ 512 then 512 else 1024

theorem roundNbyte_le (n : Nat) : roundNbyte n ≤ 1024 := by
  unfold roundNbyte
  split_ifs <;> omega

theorem le_roundNbyte {n : Nat} (h : n ≤ 1024) : n ≤ roundNbyte n := by
  unfold roundNbyte
  split_ifs <;> omega

theorem roundNbyte_of_lt {n : Nat} (h : 1024 < n) : roundNbyte n = 1024 := by
  unfold roundNbyte
  rw [if_neg (by omega), if_neg (by omega)]

/-- `hwpl_flash_writepage` -/
def hwplFlashWritepage (written : Bool) (w : Writepage) (m : Memory) : FlashResult :=
  if w.addr < getPageAddr hwplLastBootloaderPage then ⟨m, some errRofs, -1⟩
  else if w.addr ≥ flashSize then ⟨m, none, -1⟩
  else
    -- the sum is one of 32 bits
    let nbyte := if (w.addr + w.nbyte) % 2 ^ 32 > flashSize then flashSize - w.addr else w.nbyte
    if blankCheck m w.addr (roundNbyte nbyte) = false then ⟨m, some errRofs, -1⟩
    else if written = false then ⟨m, some errIo, -1⟩
    else ⟨m.store w.addr (sized (roundNbyte nbyte) w.buf), none, BitVec.ofNat 32 nbyte⟩

/-- A page is refused with the memory as it was, or is copied to where the flash is blank. -/
theorem hwplFlashWritepage_cases (written : Bool) (w : Writepage) (m : Memory) :
    (hwplFlashWritepage flashSize written w m).memory = m ∧ (hwplFlashWritepage flashSize written w m).ret = -1 ∨
    getPageAddr hwplLastBootloaderPage ≤ w.addr ∧ w.addr < flashSize ∧ written = true ∧
      ∃ nbyte, nbyte = (if (w.addr + w.nbyte) % 2 ^ 32 > flashSize then flashSize - w.addr else w.nbyte) ∧
        blankCheck m w.addr (roundNbyte nbyte) = true ∧ hwplFlashWritepage flashSize written w m =
          ⟨m.store w.addr (sized (roundNbyte nbyte) w.buf), none, BitVec.ofNat 32 nbyte⟩ := by
  rw [hwplFlashWritepage]
  by_cases hboot : w.addr < getPageAddr hwplLastBootloaderPage
  · rw [if_pos hboot]
    exact .inl ⟨rfl, rfl⟩
  by_cases hflash : w.addr ≥ flashSize
  · rw [if_neg hboot, if_pos hflash]
    exact .inl ⟨rfl, rfl⟩
  rw [if_neg hboot, if_neg hflash]
  dsimp only
  generalize (if (w.addr + w.nbyte) % 2 ^ 32 > flashSize then flashSize - w.addr else w.nbyte) = nbyte
  cases hblank : blankCheck m w.addr (roundNbyte nbyte) with
  | false => exact .inl ⟨rfl, rfl⟩
  | true =>
    cases written with
    | false => exact .inl ⟨rfl, rfl⟩
    | true => exact .inr ⟨Nat.not_lt.mp hboot, Nat.not_le.mp hflash, rfl, nbyte, rfl, hblank, rfl⟩

/-- `flash_read`; the location is compared as an unsigned number. -/
def flashRead (loc nbyte : Nat) (m : Memory) : Int × List UInt8 :=
  if nbyte = 0 then (0, [])
  else if loc % 2 ^ 32 ≥ flashSize then (-1, [])
  else
    let nbyte := if (loc + nbyte) % 2 ^ 32 > flashSize then flashSize - loc % 2 ^ 32 else nbyte
    (nbyte, m.load (loc % 2 ^ 32) nbyte)

/-- The flash that a run of `erase_flash` leaves, with what it has set `errno` to. -/
structure Erased where
  memory : Memory
  errno : Word

/-- A call of `flash_erasepage`, and whether it has returned zero. -/
def erasePage (erased : Nat → Bool) (page : Nat) (e : Erased) : Erased × Bool :=
  let r := hwplFlashErasepage flashSize (erased page) page e.memory
  (⟨r.memory, r.errno.getD e.errno⟩, r.ret = 0)

/-- The first loop of `erase_flash`, over the pages of the bootloader; no page after the last turn is in the flash,
so that the loop would not end any more. -/
def skipPages (erased : Nat → Bool) : (turns page : Nat) → Erased → Option (Nat × Erased)
  | 0, _, _ => none
  | turns + 1, page, e =>
    match erasePage flashSize erased page e with
    | (e, true) => some (page + 1, e)
    | (e, false) => skipPages erased turns (page + 1) e

/-- The second loop ends with the first page that cannot be erased. -/
def erasePages (erased : Nat → Bool) : (turns page : Nat) → Erased → Erased
  | 0, _, e => e
  | turns + 1, page, e =>
    match erasePage flashSize erased page e with
    | (e, true) => erasePages erased turns (page + 1) e
    | (e, false) => e

/-- `erase_flash`, which may fail to end. -/
def eraseFlash (erased : Nat → Bool) (e : Erased) : Option Erased :=
  let turns := flashSize / 4096 + 1
  match skipPages flashSize erased turns 0 e with
  | none => none
  | some (page, e) => some (erasePages flashSize erased turns page e)

end

/-! ### Reading and storing -/

section

variable {m : Memory} {addr nbyte a : Nat} {bs : List UInt8}

theorem store_of_lt (h : a < addr) : m.store addr bs a = m a := by
  unfold Memory.store
  exact if_neg (Nat.not_le.mpr h)

theorem store_of_le (h : addr ≤ a) : m.store addr bs a = bs.getD (a - addr) (m a) := by
  unfold Memory.store
  exact if_pos h

theorem store_of_ge (h : addr + bs.length ≤ a) : m.store addr bs a = m a := by
  rw [store_of_le (by omega), List.getD_eq_default]
  omega

theorem store_at {i : Nat} (hi : i < bs.length) : m.store addr bs (addr + i) = bs.getD i 0 := by
  rw [store_of_le (Nat.le_add_right addr i), Nat.add_sub_cancel_left, List.getD_eq_getElem _ _ hi,
    List.getD_eq_getElem _ _ hi]

theorem length_load : (m.load addr nbyte).length = nbyte := by
  unfold Memory.load
  rw [List.length_map, List.length_range]

theorem getD_load {i : Nat} (hi : i < nbyte) : (m.load addr nbyte).getD i 0 = m (addr + i) := by
  unfold Memory.load
  rw [List.getD_eq_getElem _ _ (by rw [List.length_map, List.length_range]; exact hi), List.getElem_map,
    List.getElem_range]

theorem blankCheck_iff : blankCheck m addr nbyte = true ↔ ∀ i < nbyte, m (addr + i) = 0xFF := by
  unfold blankCheck
  rw [List.all_eq_true]
  constructor
  · intro h i hi
    exact eq_of_beq (h i (List.mem_range.mpr hi))
  · intro h i hi
    exact beq_iff_eq.mpr (h i (List.mem_range.mp hi))

end

end Bootloader

end CoActionOS
