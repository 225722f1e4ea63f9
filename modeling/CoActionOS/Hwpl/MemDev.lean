import CoActionOS.Bootloader.Flash
import Mathlib.Algebra.Group.Int.Defs

/-!
# The memory device

`hwpl_mem_erasepage` and `hwpl_mem_writepage` of the `lpc17xx`.  Addresses are 32-bit numbers, in some places signed and in
others not.  The ROM is asked to erase a sector or to copy to one and may refuse, which changes nothing.

The functions check less than they could: that the page to erase is in the flash, that a write to RAM is no longer than the
request's buffer, that its end has not wrapped, that a write to flash is no longer than what is copied, all this is left to the
caller or the ROM.  `requests_confined_iff` says which requests are safe.
-/

namespace CoActionOS

namespace Hwpl

open Bootloader (Memory blankCheck roundNbyte roundNbyte_le le_roundNbyte roundNbyte_of_lt getPageAddr getPageSize
  store_of_lt store_of_ge store_at blankCheck_iff)

def errIo : BitVec 32 := 5

def errInval : BitVec 32 := 22

def errRofs : BitVec 32 := 30

def hwplLastBootloaderPage : BitVec 32 := 3

def flashMaxWriteSize : Nat := 1024

def hwplStartOfSram : BitVec 32 := 0x10000000

def hwplStartOfAhbSram : BitVec 32 := 0x2007C000

/-- The symbols of the linker script: the OS lies in the flash, and the flash in front of the RAM. -/
structure Board where
  /-- `START_OS` -/
  startOs : BitVec 32
  /-- `END_OS` -/
  endOs : BitVec 32
  flashSize : BitVec 32
  sramSize : BitVec 32
  ahbSramSize : BitVec 32
  os_le : startOs.toNat ≤ endOs.toNat
  os_flash : endOs.toNat ≤ flashSize.toNat
  flash_le : flashSize.toNat + flashMaxWriteSize ≤ hwplStartOfSram.toNat
  sram_le : hwplStartOfSram.toNat + sramSize.toNat ≤ hwplStartOfAhbSram.toNat
  ahb_lt : hwplStartOfAhbSram.toNat + ahbSramSize.toNat < 2 ^ 31

/-- What the ROM does: whether a sector is erased, and whether `size` bytes are copied to an address in a sector. -/
structure Rom where
  erases : (page : BitVec 32) → Bool
  copies : (page addr : BitVec 32) → (size : Nat) → Bool

/-- `mem_writepage_t`: `buf` is the memory from the buffer on, which has `FLASH_MAX_WRITE_SIZE` bytes. -/
structure MemWritepage where
  addr : BitVec 32
  nbyte : BitVec 32
  buf : Nat → UInt8

/-- What a request leaves: the memory, `errno`, the result, and how much of the buffer has been read. -/
structure Outcome where
  memory : Memory
  errno : Option (BitVec 32)
  ret : BitVec 32
  read : Nat

/-! ### The code -/

/-- `get_flash_page_addr`, of a page that is an `int` -/
def getFlashPageAddr (page : BitVec 32) : BitVec 32 :=
  if page.toInt < 16 then page * 4096 else 16 * 4096 + (page - 16) * 32 * 1024

/-- `get_flash_page` of an address in the flash -/
def getFlashPage (addr : BitVec 32) : BitVec 32 :=
  if addr < 0x10000 then addr / 4096 else 16 + (addr - 0x10000) / 32768

section

variable (b : Board) (rom : Rom)

/-- `is_ram`, in signed numbers -/
def Board.isRam (addr size : BitVec 32) : Bool :=
  decide (hwplStartOfSram.toInt ≤ addr.toInt ∧ (addr + size).toInt ≤ (b.sramSize + hwplStartOfSram).toInt) ||
    decide (hwplStartOfAhbSram.toInt ≤ addr.toInt ∧ (addr + size).toInt ≤ (b.ahbSramSize + hwplStartOfAhbSram).toInt)

/-- The page is one of the bootloader's, or begins in the OS. -/
def Board.protects (page : BitVec 32) : Prop :=
  page < hwplLastBootloaderPage ∨
    b.startOs.toInt ≤ (getFlashPageAddr page).toInt ∧ (getFlashPageAddr page).toInt ≤ b.endOs.toInt

instance (page : BitVec 32) : Decidable (b.protects page) := inferInstanceAs (Decidable (_ ∨ _))

/-- `hwpl_mem_erasepage` -/
def hwplMemErasepage (page : BitVec 32) (m : Memory) : Outcome :=
  if b.protects page then ⟨m, some errRofs, -1, 0⟩
  else if rom.erases page then
    ⟨m.store (getPageAddr page.toNat) (List.replicate (getPageSize page.toNat) 0xFF), none, 0, 0⟩
  else ⟨m, some errIo, -1, 0⟩

/-- `wattr->nbyte` after it was cut at the end of the flash; the sum is one of 32 bits. -/
def Board.clip (w : MemWritepage) : BitVec 32 := if w.addr + w.nbyte > b.flashSize then b.flashSize - w.addr else w.nbyte

/-- The first bytes of the buffer. -/
def MemWritepage.bytes (w : MemWritepage) (n : Nat) : List UInt8 := (List.range n).map w.buf

/-- `hwpl_mem_writepage` -/
def hwplMemWritepage (w : MemWritepage) (m : Memory) : Outcome :=
  if b.isRam w.addr w.nbyte then ⟨m.store w.addr.toNat (w.bytes w.nbyte.toNat), none, w.nbyte, w.nbyte.toNat⟩
  else if w.addr < getFlashPageAddr hwplLastBootloaderPage then ⟨m, some errRofs, -1, 0⟩
  else if w.addr ≥ b.flashSize then ⟨m, some errInval, -1, 0⟩
  else
    let nbyte := roundNbyte (b.clip w).toNat
    if blankCheck m w.addr.toNat nbyte = false then ⟨m, some errRofs, -1, 0⟩
    else if rom.copies (getFlashPage w.addr) w.addr nbyte = false then ⟨m, some errIo, -1, nbyte⟩
    else ⟨m.store w.addr.toNat (w.bytes nbyte), none, b.clip w, nbyte⟩

/-! ### The statement -/

def Board.InRam (a : Nat) : Prop :=
  hwplStartOfSram.toNat ≤ a ∧ a < hwplStartOfSram.toNat + b.sramSize.toNat ∨
    hwplStartOfAhbSram.toNat ≤ a ∧ a < hwplStartOfAhbSram.toNat + b.ahbSramSize.toNat

/-- The flash from the boot page on. -/
def Board.InProgram (a : Nat) : Prop := (getFlashPageAddr hwplLastBootloaderPage).toNat ≤ a ∧ a < b.flashSize.toNat

/-- Each byte of the page is in the flash, and none is the bootloader's or the OS's. -/
def Board.Erasable (page : BitVec 32) : Prop :=
  ∀ a, getPageAddr page.toNat ≤ a → a < getPageAddr page.toNat + getPageSize page.toNat →
    b.InProgram a ∧ ¬ (b.startOs.toNat ≤ a ∧ a ≤ b.endOs.toNat)

/-- Nothing is erased, or a page that may be. -/
def ErasesOnly (page : BitVec 32) : Prop :=
  (∀ m, (hwplMemErasepage b rom page m).memory = m) ∨
    b.Erasable page ∧ ∀ m, (hwplMemErasepage b rom page m).memory =
      m.store (getPageAddr page.toNat) (List.replicate (getPageSize page.toNat) 0xFF)

structure Confined (w : MemWritepage) : Prop where
  kept : ∀ m a, ¬ b.InRam a → ¬ b.InProgram a → (hwplMemWritepage b rom w m).memory a = m a
  reads : ∀ m, (hwplMemWritepage b rom w m).read ≤ flashMaxWriteSize
  /-- The bytes that are reported are stored, and nothing else. -/
  truthful : ∀ m, 0 ≤ (hwplMemWritepage b rom w m).ret.toInt → ∀ a, (hwplMemWritepage b rom w m).memory a =
    if w.addr.toNat ≤ a ∧ a < w.addr.toNat + (hwplMemWritepage b rom w m).ret.toNat then w.buf (a - w.addr.toNat) else m a

/-- A page that the ROM erases is refused, or it is in the flash and the OS does not begin within it. -/
def EraseFits (page : BitVec 32) : Prop :=
  rom.erases page = false ∨ b.protects page ∨
    getPageAddr page.toNat + getPageSize page.toNat ≤ b.flashSize.toNat ∧
      ¬ (getPageAddr page.toNat < b.startOs.toNat ∧ b.startOs.toNat < getPageAddr page.toNat + getPageSize page.toNat)

/-- A write to RAM is no longer than the buffer and does not wrap.  A write to flash is refused; or it is no longer than what is
copied, and the buffer has `0xFF` behind it; or the result is negative, and what is copied does not reach over the end. -/
def Fits (w : MemWritepage) : Prop :=
  if b.isRam w.addr w.nbyte then w.nbyte.toNat ≤ flashMaxWriteSize ∧ w.addr.toNat + w.nbyte.toNat < 2 ^ 31
  else
    w.addr < getFlashPageAddr hwplLastBootloaderPage ∨ b.flashSize ≤ w.addr ∨
      rom.copies (getFlashPage w.addr) w.addr (roundNbyte (b.clip w).toNat) = false ∨
      ((b.clip w).toNat ≤ flashMaxWriteSize ∧
        ∀ i, (b.clip w).toNat ≤ i → i < roundNbyte (b.clip w).toNat → w.buf i = 0xFF) ∨
      (2 ^ 31 ≤ (b.clip w).toNat ∧
        ∀ i, i < roundNbyte (b.clip w).toNat → b.flashSize.toNat ≤ w.addr.toNat + i → w.buf i = 0xFF)

end

/-! ### Numbers -/

theorem toInt_of_lt {x : BitVec 32} (h : x.toNat < 2 ^ 31) : x.toInt = x.toNat := by
  rw [BitVec.toInt_eq_toNat_cond, if_pos (by omega)]

theorem toInt_of_le {x : BitVec 32} (h : 2 ^ 31 ≤ x.toNat) : x.toInt = (x.toNat : Int) - 2 ^ 32 := by
  rw [BitVec.toInt_eq_toNat_cond, if_neg (by omega)]
  rfl

theorem toNat_lt_of_toInt {x : BitVec 32} (h : 0 ≤ x.toInt) : x.toNat < 2 ^ 31 := by
  by_contra hle
  rw [toInt_of_le (Nat.not_lt.mp hle)] at h
  have := x.isLt
  omega

variable {b : Board} {rom : Rom} {w : MemWritepage} {page : BitVec 32}

/-! ### RAM -/

/-- A comparison of `is_ram`, where neither end wraps. -/
theorem mem_of_signed {start size addr n : BitVec 32} {a : Nat} (hge : start.toInt ≤ addr.toInt)
    (hle : (addr + n).toInt ≤ (size + start).toInt) (hsum : addr.toNat + n.toNat < 2 ^ 31)
    (hend : start.toNat + size.toNat < 2 ^ 31) (ha : addr.toNat ≤ a) (hlt : a < addr.toNat + n.toNat) :
    start.toNat ≤ a ∧ a < start.toNat + size.toNat := by
  have hadd : (addr + n).toNat = addr.toNat + n.toNat := by
    rw [BitVec.toNat_add]
    exact Nat.mod_eq_of_lt (by omega)
  have hlimit : (size + start).toNat = size.toNat + start.toNat := by
    rw [BitVec.toNat_add]
    exact Nat.mod_eq_of_lt (by omega)
  rw [toInt_of_lt (by omega), toInt_of_lt (by omega)] at hge hle
  omega

/-- Where the end of a write does not wrap, `is_ram` is right. -/
theorem inRam_of_isRam {addr size : BitVec 32} {a : Nat} (h : b.isRam addr size = true)
    (hsum : addr.toNat + size.toNat < 2 ^ 31) (ha : addr.toNat ≤ a) (hlt : a < addr.toNat + size.toNat) : b.InRam a := by
  have hend : hwplStartOfSram.toNat + b.sramSize.toNat < 2 ^ 31 :=
    Nat.lt_of_le_of_lt b.sram_le (show hwplStartOfAhbSram.toNat < 2 ^ 31 by decide)
  rcases Bool.or_eq_true_iff.mp h with h | h
  · exact Or.inl (mem_of_signed (of_decide_eq_true h).1 (of_decide_eq_true h).2 hsum hend ha hlt)
  · exact Or.inr (mem_of_signed (of_decide_eq_true h).1 (of_decide_eq_true h).2 hsum b.ahb_lt ha hlt)

theorem lt_of_isRam {addr size : BitVec 32} (h : b.isRam addr size = true) : addr.toNat < 2 ^ 31 := by
  apply toNat_lt_of_toInt
  rcases Bool.or_eq_true_iff.mp h with h | h
  · exact Int.le_trans (show (0 : Int) ≤ hwplStartOfSram.toInt by decide) (of_decide_eq_true h).1
  · exact Int.le_trans (show (0 : Int) ≤ hwplStartOfAhbSram.toInt by decide) (of_decide_eq_true h).1

theorem exists_ne_byte (x : UInt8) : ∃ y, y ≠ x := by
  by_cases hx : x = 0
  · exact ⟨1, by rw [hx]; decide⟩
  · exact ⟨0, Ne.symm hx⟩

/-- The last address that is not negative is no memory. -/
theorem not_inRam_top (b : Board) : ¬ b.InRam (2 ^ 31 - 1) := by
  have hsram := b.sram_le
  have hahb := b.ahb_lt
  rintro (⟨-, h⟩ | ⟨-, h⟩)
  · omega
  · omega

theorem not_inProgram_of_le {a : Nat} (h : b.flashSize.toNat ≤ a) : ¬ b.InProgram a := fun hin => absurd hin.2 (by omega)

theorem length_bytes (w : MemWritepage) (n : Nat) : (w.bytes n).length = n := by
  unfold MemWritepage.bytes
  rw [List.length_map, List.length_range]

theorem getD_bytes {n i : Nat} (hi : i < n) (d : UInt8) : (w.bytes n).getD i d = w.buf i := by
  rw [List.getD_eq_getElem _ _ (by rw [length_bytes]; exact hi)]
  unfold MemWritepage.bytes
  rw [List.getElem_map, List.getElem_range]

/-- A store of the first bytes of the buffer. -/
theorem store_bytes (m : Memory) (addr n a : Nat) :
    m.store addr (w.bytes n) a = if addr ≤ a ∧ a < addr + n then w.buf (a - addr) else m a := by
  by_cases hlt : a < addr
  · rw [store_of_lt hlt, if_neg (by omega)]
  · by_cases hin : a < addr + n
    · obtain ⟨i, rfl⟩ := Nat.exists_eq_add_of_le (Nat.not_lt.mp hlt)
      rw [store_at (by rw [length_bytes]; omega), getD_bytes (by omega), if_pos ⟨by omega, hin⟩, Nat.add_sub_cancel_left]
    · rw [store_of_ge (by rw [length_bytes]; omega), if_neg (by omega)]

theorem confined_ram_iff (hram : b.isRam w.addr w.nbyte = true) :
    Confined b rom w ↔ w.nbyte.toNat ≤ flashMaxWriteSize ∧ w.addr.toNat + w.nbyte.toNat < 2 ^ 31 := by
  have hrun : ∀ m, hwplMemWritepage b rom w m =
      ⟨m.store w.addr.toNat (w.bytes w.nbyte.toNat), none, w.nbyte, w.nbyte.toNat⟩ := fun m => if_pos hram
  have hmemory : ∀ m a, (hwplMemWritepage b rom w m).memory a =
      if w.addr.toNat ≤ a ∧ a < w.addr.toNat + w.nbyte.toNat then w.buf (a - w.addr.toNat) else m a := by
    intro m a
    rw [hrun]
    exact store_bytes m _ _ _
  have haddr := lt_of_isRam hram
  constructor
  · intro h
    have hread := h.reads fun _ => 0
    rw [hrun] at hread
    refine ⟨hread, ?_⟩
    by_contra hwraps
    obtain ⟨x, hx⟩ := exists_ne_byte (w.buf (2 ^ 31 - 1 - w.addr.toNat))
    have hflash := b.flash_le
    have hsram := b.sram_le
    have hahb := b.ahb_lt
    have hkept := h.kept (fun _ => x) (2 ^ 31 - 1) (not_inRam_top b) (not_inProgram_of_le (by omega))
    rw [hmemory, if_pos (by omega)] at hkept
    exact hx hkept.symm
  · rintro ⟨hle, hsum⟩
    refine ⟨fun m a hout _ => ?_, fun m => ?_, fun m _ a => ?_⟩
    · rw [hmemory, if_neg]
      rintro ⟨hge, hlt⟩
      exact hout (inRam_of_isRam hram hsum hge hlt)
    · rw [hrun]
      exact hle
    · rw [hmemory, hrun]

/-! ### Flash -/

/-- What is left of a short write ends in the flash. -/
theorem add_clip_le (hflash : w.addr.toNat < b.flashSize.toNat) (h : (b.clip w).toNat ≤ flashMaxWriteSize) :
    w.addr.toNat + (b.clip w).toNat ≤ b.flashSize.toNat := by
  have hle := b.flash_le
  have hstart : hwplStartOfSram.toNat = 0x10000000 := rfl
  unfold flashMaxWriteSize at h hle
  unfold Board.clip at h ⊢
  split_ifs at h ⊢ with hsum
  · rw [BitVec.toNat_sub_of_le (BitVec.le_def.mpr (by omega))]
    omega
  · have hnot := BitVec.not_lt.mp hsum
    rw [BitVec.le_def, BitVec.toNat_add, Nat.mod_eq_of_lt (by omega)] at hnot
    exact hnot

/-- A write to flash that is not refused before the ROM is asked, and that the ROM carries out. -/
structure ReachesRom (b : Board) (rom : Rom) (w : MemWritepage) : Prop where
  notRam : b.isRam w.addr w.nbyte = false
  notBoot : ¬ w.addr < getFlashPageAddr hwplLastBootloaderPage
  inFlash : ¬ b.flashSize ≤ w.addr
  copies : rom.copies (getFlashPage w.addr) w.addr (roundNbyte (b.clip w).toNat) = true

namespace ReachesRom

variable (r : ReachesRom b rom w) {m : Memory}

include r

/-- Where the flash is not blank nothing is done. -/
theorem refused (hblank : blankCheck m w.addr.toNat (roundNbyte (b.clip w).toNat) = false) :
    hwplMemWritepage b rom w m = ⟨m, some errRofs, -1, 0⟩ := by
  unfold hwplMemWritepage
  dsimp only
  rw [r.notRam, if_neg Bool.false_ne_true, if_neg r.notBoot, if_neg r.inFlash, if_pos hblank]

theorem written (hblank : blankCheck m w.addr.toNat (roundNbyte (b.clip w).toNat) = true) :
    hwplMemWritepage b rom w m =
      ⟨m.store w.addr.toNat (w.bytes (roundNbyte (b.clip w).toNat)), none, b.clip w, roundNbyte (b.clip w).toNat⟩ := by
  unfold hwplMemWritepage
  dsimp only
  rw [r.notRam, if_neg Bool.false_ne_true, if_neg r.notBoot, if_neg r.inFlash, hblank, if_neg (show ¬ true = false by decide),
    r.copies, if_neg (show ¬ true = false by decide)]

theorem memory (hblank : blankCheck m w.addr.toNat (roundNbyte (b.clip w).toNat) = true) (a : Nat) :
    (hwplMemWritepage b rom w m).memory a =
      if w.addr.toNat ≤ a ∧ a < w.addr.toNat + roundNbyte (b.clip w).toNat then w.buf (a - w.addr.toNat) else m a := by
  rw [r.written hblank]
  exact store_bytes m _ _ _

theorem addr_lt : w.addr.toNat < b.flashSize.toNat := BitVec.lt_def.mp (BitVec.not_le.mp r.inFlash)

theorem le_addr : (getFlashPageAddr hwplLastBootloaderPage).toNat ≤ w.addr.toNat :=
  BitVec.le_def.mp (BitVec.not_lt.mp r.notBoot)

/-- The bytes that are copied lie below the RAM. -/
theorem not_inRam {i : Nat} (hi : i < roundNbyte (b.clip w).toNat) : ¬ b.InRam (w.addr.toNat + i) := by
  have hlt := r.addr_lt
  have hsize : roundNbyte (b.clip w).toNat ≤ flashMaxWriteSize := roundNbyte_le _
  have hboard := b.flash_le
  have hsram := b.sram_le
  rintro (⟨hstart, -⟩ | ⟨hstart, -⟩)
  · omega
  · omega

/-- Bytes that are copied behind the flash have to be those that stood there. -/
theorem beyond_of_confined (h : Confined b rom w) {i : Nat} (hi : i < roundNbyte (b.clip w).toNat)
    (hend : b.flashSize.toNat ≤ w.addr.toNat + i) : w.buf i = 0xFF := by
  have hblank : blankCheck (fun _ => 0xFF) w.addr.toNat (roundNbyte (b.clip w).toNat) = true :=
    blankCheck_iff.mpr fun _ _ => rfl
  have hkept := h.kept (fun _ => 0xFF) (w.addr.toNat + i) (r.not_inRam hi) (not_inProgram_of_le hend)
  rwa [r.memory hblank, if_pos ⟨by omega, by omega⟩, Nat.add_sub_cancel_left] at hkept

/-- What is reported has been written, and no more. -/
theorem memory_of_confined (h : Confined b rom w) (hlt : (b.clip w).toNat < 2 ^ 31)
    (hblank : blankCheck m w.addr.toNat (roundNbyte (b.clip w).toNat) = true) (a : Nat) :
    (hwplMemWritepage b rom w m).memory a =
      if w.addr.toNat ≤ a ∧ a < w.addr.toNat + (b.clip w).toNat then w.buf (a - w.addr.toNat) else m a := by
  have htrue := h.truthful m
  rw [r.written hblank] at htrue ⊢
  dsimp only at htrue
  rw [toInt_of_lt hlt] at htrue
  exact htrue (Int.natCast_nonneg _) a

theorem le_of_confined (h : Confined b rom w) (hlt : (b.clip w).toNat < 2 ^ 31) : (b.clip w).toNat ≤ flashMaxWriteSize := by
  by_contra hlong
  -- a byte that is reported and was not copied
  obtain ⟨x, hx⟩ := exists_ne_byte (w.buf flashMaxWriteSize)
  obtain ⟨m, hm⟩ : ∃ m : Memory, m = fun a => if a < w.addr.toNat + flashMaxWriteSize then 0xFF else x := ⟨_, rfl⟩
  have hround : roundNbyte (b.clip w).toNat = flashMaxWriteSize := roundNbyte_of_lt (Nat.not_le.mp hlong)
  have hblank : blankCheck m w.addr.toNat (roundNbyte (b.clip w).toNat) = true :=
    blankCheck_iff.mpr fun i hi => by rw [hm]; exact if_pos (by omega)
  have hlast : m (w.addr.toNat + flashMaxWriteSize) = x := by rw [hm]; exact if_neg (Nat.lt_irrefl _)
  have hbyte := r.memory_of_confined h hlt hblank (w.addr.toNat + flashMaxWriteSize)
  rw [r.memory hblank, if_neg (by omega), if_pos (by omega), Nat.add_sub_cancel_left, hlast] at hbyte
  exact hx hbyte

/-- The bytes that fill up the last block. -/
theorem padding_of_confined (h : Confined b rom w) (hlt : (b.clip w).toNat < 2 ^ 31) {i : Nat} (hle : (b.clip w).toNat ≤ i)
    (hi : i < roundNbyte (b.clip w).toNat) : w.buf i = 0xFF := by
  have hblank : blankCheck (fun _ => 0xFF) w.addr.toNat (roundNbyte (b.clip w).toNat) = true :=
    blankCheck_iff.mpr fun _ _ => rfl
  have hbyte := r.memory_of_confined h hlt hblank (w.addr.toNat + i)
  rwa [r.memory hblank, if_pos ⟨by omega, by omega⟩, if_neg (by omega), Nat.add_sub_cancel_left] at hbyte

/-- A byte that was blank and is copied as such. -/
theorem memory_of_blank (hblank : blankCheck m w.addr.toNat (roundNbyte (b.clip w).toNat) = true) {i : Nat}
    (hi : i < roundNbyte (b.clip w).toNat) (hbuf : w.buf i = 0xFF) :
    (hwplMemWritepage b rom w m).memory (w.addr.toNat + i) = m (w.addr.toNat + i) := by
  rw [r.memory hblank, if_pos ⟨by omega, by omega⟩, Nat.add_sub_cancel_left, hbuf, blankCheck_iff.mp hblank i hi]

theorem memory_of_outside (hblank : blankCheck m w.addr.toNat (roundNbyte (b.clip w).toNat) = true) {a : Nat}
    (hout : ¬ (w.addr.toNat ≤ a ∧ a < w.addr.toNat + roundNbyte (b.clip w).toNat)) :
    (hwplMemWritepage b rom w m).memory a = m a := by
  rw [r.memory hblank, if_neg hout]

/-- Nothing behind the flash changes, and a write that reports its bytes leaves the bytes behind them as they were. -/
theorem confined (hend : ∀ i < roundNbyte (b.clip w).toNat, b.flashSize.toNat ≤ w.addr.toNat + i → w.buf i = 0xFF)
    (hpad : (b.clip w).toNat < 2 ^ 31 → (b.clip w).toNat ≤ flashMaxWriteSize ∧
      ∀ i, (b.clip w).toNat ≤ i → i < roundNbyte (b.clip w).toNat → w.buf i = 0xFF) : Confined b rom w := by
  have hge := r.le_addr
  refine ⟨fun m a hout hprogram => ?_, fun m => ?_, fun m hret a => ?_⟩
  · cases hblank : blankCheck m w.addr.toNat (roundNbyte (b.clip w).toNat) with
    | false => rw [r.refused hblank]
    | true =>
      by_cases hin : w.addr.toNat ≤ a ∧ a < w.addr.toNat + roundNbyte (b.clip w).toNat
      · have hbeyond : b.flashSize.toNat ≤ a := by
          by_contra hnot
          exact hprogram ⟨by omega, by omega⟩
        obtain ⟨i, rfl⟩ := Nat.exists_eq_add_of_le hin.1
        exact r.memory_of_blank hblank (by omega) (hend i (by omega) hbeyond)
      · exact r.memory_of_outside hblank hin
  · cases hblank : blankCheck m w.addr.toNat (roundNbyte (b.clip w).toNat) with
    | false =>
      rw [r.refused hblank]
      exact Nat.zero_le _
    | true =>
      rw [r.written hblank]
      exact roundNbyte_le _
  · cases hblank : blankCheck m w.addr.toNat (roundNbyte (b.clip w).toNat) with
    | false =>
      rw [r.refused hblank] at hret
      exact absurd hret (show ¬ (0 : Int) ≤ (-1 : BitVec 32).toInt by decide)
    | true =>
      have hreported : (hwplMemWritepage b rom w m).ret = b.clip w := by rw [r.written hblank]
      rw [hreported] at hret ⊢
      obtain ⟨hle, hpadding⟩ := hpad (toNat_lt_of_toInt hret)
      have hround := le_roundNbyte hle
      by_cases hin : w.addr.toNat ≤ a ∧ a < w.addr.toNat + (b.clip w).toNat
      · rw [if_pos hin, r.memory hblank, if_pos (by omega)]
      · rw [if_neg hin]
        by_cases hcopied : w.addr.toNat ≤ a ∧ a < w.addr.toNat + roundNbyte (b.clip w).toNat
        · obtain ⟨i, rfl⟩ := Nat.exists_eq_add_of_le hcopied.1
          exact r.memory_of_blank hblank (by omega) (hpadding i (by omega) (by omega))
        · exact r.memory_of_outside hblank hcopied

end ReachesRom

/-- A write to flash that is not refused before the ROM is asked. -/
theorem confined_flash_iff (hram : b.isRam w.addr w.nbyte = false)
    (hboot : ¬ w.addr < getFlashPageAddr hwplLastBootloaderPage) (hflash : ¬ b.flashSize ≤ w.addr)
    (hcopies : rom.copies (getFlashPage w.addr) w.addr (roundNbyte (b.clip w).toNat) = true) :
    Confined b rom w ↔
      ((b.clip w).toNat ≤ flashMaxWriteSize ∧
        ∀ i, (b.clip w).toNat ≤ i → i < roundNbyte (b.clip w).toNat → w.buf i = 0xFF) ∨
      (2 ^ 31 ≤ (b.clip w).toNat ∧
        ∀ i, i < roundNbyte (b.clip w).toNat → b.flashSize.toNat ≤ w.addr.toNat + i → w.buf i = 0xFF) := by
  have r : ReachesRom b rom w := ⟨hram, hboot, hflash, hcopies⟩
  constructor
  · intro h
    by_cases hneg : 2 ^ 31 ≤ (b.clip w).toNat
    · exact Or.inr ⟨hneg, fun i hi hend => r.beyond_of_confined h hi hend⟩
    · have hlt := Nat.not_le.mp hneg
      exact Or.inl ⟨r.le_of_confined h hlt, fun i hle hi => r.padding_of_confined h hlt hle hi⟩
  · rintro (⟨hle, hpad⟩ | ⟨hneg, hpad⟩)
    · refine r.confined (fun i hi hend => ?_) fun _ => ⟨hle, hpad⟩
      have hfits := add_clip_le r.addr_lt hle
      exact hpad i (by omega) hi
    · exact r.confined hpad fun hlt => absurd hneg (Nat.not_le.mpr hlt)

/-- A request that changes nothing and reports an error. -/
theorem confined_of_refused (h : ∀ m, ∃ e n, hwplMemWritepage b rom w m = ⟨m, e, -1, n⟩ ∧ n ≤ flashMaxWriteSize) :
    Confined b rom w := by
  refine ⟨fun m a _ _ => ?_, fun m => ?_, fun m hret a => ?_⟩
  · obtain ⟨e, n, hrun, -⟩ := h m
    rw [hrun]
  · obtain ⟨e, n, hrun, hn⟩ := h m
    rw [hrun]
    exact hn
  · obtain ⟨e, n, hrun, -⟩ := h m
    rw [hrun] at hret
    exact absurd hret (show ¬ (0 : Int) ≤ (-1 : BitVec 32).toInt by decide)

theorem confined_iff (b : Board) (rom : Rom) (w : MemWritepage) : Confined b rom w ↔ Fits b rom w := by
  unfold Fits
  cases hram : b.isRam w.addr w.nbyte with
  | true =>
    rw [if_pos rfl]
    exact confined_ram_iff hram
  | false =>
    rw [if_neg Bool.false_ne_true]
    have hrun : ∀ m, hwplMemWritepage b rom w m = _ := fun m => if_neg (by rw [hram]; exact Bool.false_ne_true)
    by_cases hboot : w.addr < getFlashPageAddr hwplLastBootloaderPage
    · refine iff_of_true (confined_of_refused fun m => ⟨some errRofs, 0, ?_, Nat.zero_le _⟩) (Or.inl hboot)
      rw [hrun, if_pos hboot]
    rw [or_iff_right hboot]
    by_cases hflash : b.flashSize ≤ w.addr
    · refine iff_of_true (confined_of_refused fun m => ⟨some errInval, 0, ?_, Nat.zero_le _⟩) (Or.inl hflash)
      rw [hrun, if_neg hboot, if_pos hflash]
    rw [or_iff_right hflash]
    cases hcopies : rom.copies (getFlashPage w.addr) w.addr (roundNbyte (b.clip w).toNat) with
    | false =>
      refine iff_of_true (confined_of_refused fun m => ?_) (Or.inl rfl)
      rw [hrun, if_neg hboot, if_neg hflash]
      dsimp only
      rw [hcopies]
      by_cases hblank : blankCheck m w.addr.toNat (roundNbyte (b.clip w).toNat) = false
      · rw [if_pos hblank]
        exact ⟨some errRofs, 0, rfl, Nat.zero_le _⟩
      · rw [if_neg hblank, if_pos rfl]
        exact ⟨some errIo, _, rfl, roundNbyte_le _⟩
    | true =>
      rw [or_iff_right (show ¬ true = false by decide)]
      exact confined_flash_iff hram hboot hflash hcopies

/-! ### Erasing -/

theorem getPageSize_pos (n : Nat) : 0 < getPageSize n := by
  unfold getPageSize
  split_ifs <;> decide

/-- The address of a page in the flash does not wrap. -/
theorem toNat_getFlashPageAddr (h : getPageAddr page.toNat + getPageSize page.toNat ≤ b.flashSize.toNat) :
    (getFlashPageAddr page).toNat = getPageAddr page.toNat := by
  have hboard := b.flash_le
  have hstart : hwplStartOfSram.toNat = 0x10000000 := rfl
  have hbound : page.toNat < 0x10000 := by
    by_contra hlarge
    unfold getPageAddr at h
    rw [if_neg (by omega)] at h
    omega
  have hint := toInt_of_lt (x := page) (by omega)
  unfold getFlashPageAddr getPageAddr
  by_cases hlow : page.toNat < 16
  · rw [if_pos (by omega), if_pos hlow, BitVec.toNat_mul]
    exact Nat.mod_eq_of_lt (by rw [show (4096 : BitVec 32).toNat = 4096 from rfl]; omega)
  · have hsub : (page - 16).toNat = page.toNat - 16 := BitVec.toNat_sub_of_le (BitVec.le_def.mpr (Nat.not_lt.mp hlow))
    have hbanks : ((page - 16) * 32 * 1024).toNat = (page.toNat - 16) * 32 * 1024 := by
      rw [BitVec.toNat_mul, BitVec.toNat_mul, hsub, show (32 : BitVec 32).toNat = 32 from rfl,
        show (1024 : BitVec 32).toNat = 1024 from rfl]
      omega
    rw [if_neg (by omega), if_neg hlow, BitVec.toNat_add, hbanks, show (16 * 4096 : BitVec 32).toNat = 16 * 4096 from rfl]
    unfold getPageAddr at h
    rw [if_neg hlow] at h
    exact Nat.mod_eq_of_lt (by omega)

/-- A page in the flash that is not protected is none of the bootloader's. -/
theorem le_getPageAddr (h : ¬ page < hwplLastBootloaderPage) :
    (getFlashPageAddr hwplLastBootloaderPage).toNat ≤ getPageAddr page.toNat := by
  have hge : 3 ≤ page.toNat := BitVec.le_def.mp (BitVec.not_lt.mp h)
  rw [show (getFlashPageAddr hwplLastBootloaderPage).toNat = 3 * 4096 by decide]
  unfold getPageAddr
  split_ifs <;> omega

theorem erasesOnly_iff (b : Board) (rom : Rom) (page : BitVec 32) : ErasesOnly b rom page ↔ EraseFits b rom page := by
  have hpos := getPageSize_pos page.toNat
  have hboard := b.flash_le
  have hsram := b.sram_le
  have hahb := b.ahb_lt
  have hos := b.os_le
  have hosFlash := b.os_flash
  unfold ErasesOnly EraseFits
  by_cases hprotects : b.protects page
  · exact iff_of_true (Or.inl fun m => by rw [hwplMemErasepage, if_pos hprotects]) (Or.inr (Or.inl hprotects))
  cases herases : rom.erases page with
  | false =>
    refine iff_of_true (Or.inl fun m => ?_) (Or.inl rfl)
    rw [hwplMemErasepage, if_neg hprotects, herases, if_neg Bool.false_ne_true]
  | true =>
    have hmemory : ∀ m, (hwplMemErasepage b rom page m).memory =
        m.store (getPageAddr page.toNat) (List.replicate (getPageSize page.toNat) 0xFF) := by
      intro m
      rw [hwplMemErasepage, if_neg hprotects, herases, if_pos rfl]
    -- a byte of the page that is not blank before
    have hchanges : ¬ ∀ m, (hwplMemErasepage b rom page m).memory = m := by
      intro h
      have hbyte := congrFun (h fun _ => 0) (getPageAddr page.toNat + 0)
      rw [hmemory, store_at (by rwa [List.length_replicate]),
        List.getD_eq_getElem _ _ (by rwa [List.length_replicate]), List.getElem_replicate] at hbyte
      exact absurd hbyte (by decide)
    rw [or_iff_right hchanges, or_iff_right (show ¬ true = false by decide), or_iff_right hprotects, and_iff_left hmemory]
    constructor
    · intro h
      have hlast := (h (getPageAddr page.toNat + (getPageSize page.toNat - 1)) (by omega) (by omega)).1.2
      refine ⟨by omega, fun ⟨hlo, hhi⟩ => ?_⟩
      exact (h b.startOs.toNat (Nat.le_of_lt hlo) hhi).2 ⟨Nat.le_refl _, hos⟩
    · rintro ⟨hfits, hstart⟩ a hlo hhi
      have haddr := toNat_getFlashPageAddr hfits
      obtain ⟨hboot, hbegins⟩ := not_or.mp hprotects
      have hge := le_getPageAddr hboot
      rw [toInt_of_lt (by omega), toInt_of_lt (by omega), toInt_of_lt (by omega), haddr] at hbegins
      refine ⟨⟨by omega, by omega⟩, fun hin => ?_⟩
      omega

/-! ### Both requests -/

/-- A page is erased only where it may be exactly if the ROM refuses it, the driver does, or it is in the flash and the OS does
not begin within it.  A write is confined and truthful exactly if it fits. -/
theorem requests_confined_iff (b : Board) (rom : Rom) :
    (∀ page, ErasesOnly b rom page ↔ EraseFits b rom page) ∧ ∀ w, Confined b rom w ↔ Fits b rom w :=
  ⟨erasesOnly_iff b rom, confined_iff b rom⟩

/-- The `lpc1768` with an OS of 128 KiB behind the bootloader. -/
def lpc1768 : Board where
  startOs := 0x3000
  endOs := 0x23000
  flashSize := 0x80000
  sramSize := 0x8000
  ahbSramSize := 0x8000
  os_le := by decide
  os_flash := by decide
  flash_le := by decide
  sram_le := by decide
  ahb_lt := by decide

/-- Of 2048 bytes, all of which are reported, 1024 are copied. -/
theorem not_confined : ¬ ∀ (b : Board) (rom : Rom),
    (∀ page, ErasesOnly b rom page) ∧ ∀ w, Confined b rom w := by
  intro h
  have hfits := (confined_iff _ _ _).mp ((h lpc1768 ⟨fun _ => true, fun _ _ _ => true⟩).2 ⟨0x40000, 2048, fun _ => 0⟩)
  unfold Fits at hfits
  rw [if_neg (by decide)] at hfits
  rcases hfits with hboot | hflash | hcopies | ⟨hlong, -⟩ | ⟨hneg, -⟩
  · exact absurd hboot (by decide)
  · exact absurd hflash (by decide)
  · exact nomatch hcopies
  · exact absurd hlong (by decide)
  · exact absurd hneg (by decide)

end Hwpl

end CoActionOS
