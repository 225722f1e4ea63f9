import CoActionOS.Hwpl.Mpu
import CoActionOS.Lib.Fields
import Mathlib.Algebra.Group.Int.Defs
import Mathlib.Data.List.TakeWhile

/-!
# The memory that applications are installed in

The pages of flash and RAM, the regions the memory protection unit can protect, the headers that applications have at
the start of their first page, and the table with two bits for each page of RAM.
-/

namespace CoActionOS

namespace Appfs

open Hwpl (mpuGetnextpowerof2 mpuCalcSize mpuSize32b toNat_mpuGetnextpowerof2 toInt_mpuGetnextpowerof2 mpuCalcRegion_cases)

def deviceRamPageSize : Nat := 1024
def deviceMaxRam : Nat := 65536
def deviceSysRam : Nat := 4096
def appfsRamPages : Nat := (deviceMaxRam - deviceSysRam) / deviceRamPageSize

/-! ### Memory protection -/

/-- `mpu_calc_region` returns 0. -/
def mpuCalcRegion (addr size : BitVec 32) : Bool :=
  let upSize := mpuGetnextpowerof2 size
  if upSize < 32 then false
  else if addr &&& (upSize - 1) ≠ 0 then false
  else
    let subregionSize := upSize >>> 3
    if subregionSize = 0 then false
    else if upSize % subregionSize ≠ 0 then false
    else decide (mpuSize32b ≤ mpuCalcSize upSize)

/-- `find_protectable_addr` asks for the sixth region, and does not use the values. -/
theorem isSome_mpuCalcRegion (addr size : BitVec 32) (type : Hwpl.MpuMemory) :
    (Hwpl.mpuCalcRegion 6 addr size .prUr type true).isSome = mpuCalcRegion addr size := by
  dsimp only [Hwpl.mpuCalcRegion, mpuCalcRegion]
  generalize mpuGetnextpowerof2 size = up
  by_cases hfits : mpuCalcSize up < mpuSize32b
  · rw [if_pos hfits, decide_eq_false (Nat.not_le.mpr hfits)]
    split_ifs <;> rfl
  · rw [if_neg hfits, decide_eq_true (Nat.not_lt.mp hfits)]
    split_ifs <;> rfl

/-- A protected region is not empty. -/
theorem pos_of_mpuCalcRegion {addr size : BitVec 32} (hr : mpuCalcRegion addr size = true) : 0 < size.toInt := by
  rw [← isSome_mpuCalcRegion addr size .flash] at hr
  obtain ⟨⟨rbar, rasr⟩, hr⟩ := Option.isSome_iff_exists.mp hr
  obtain ⟨k, h5, h29, hle, hval, -⟩ := mpuCalcRegion_cases hr
  have hpow : 2 ^ k ≤ 2 ^ 29 := Nat.pow_le_pow_right (by decide) h29
  have hpos : size.toNat ≠ 0 := by
    intro hzero
    -- the power of two for nothing is 1
    rw [toNat_mpuGetnextpowerof2 (by omega), hzero, Nat.clog_zero_right] at hval
    exact absurd (Nat.pow_right_injective le_rfl hval) (by omega)
  rw [BitVec.toInt_eq_toNat_cond, if_pos (by omega)]
  omega

/-! ### Pages -/

inductive MemType
  | ram | flash
  deriving DecidableEq, Repr

def hwplStartOfSram : Nat := 0x10000000
def hwplStartOfAhbSram : Nat := 0x2007C000

/-- The sizes of the memories, which the linker knows. -/
structure Device where
  flashSize : Nat
  sramSize : Nat
  ahbSramSize : Nat
  sram_le : hwplStartOfSram + sramSize ≤ hwplStartOfAhbSram
  ahb_lt : hwplStartOfAhbSram + ahbSramSize < 2 ^ 31

namespace Device

variable (dev : Device)

def sramPages : Nat := dev.sramSize / deviceRamPageSize
def ahbSramPages : Nat := dev.ahbSramSize / deviceRamPageSize

def getFlashPageSize (page : Nat) : Nat := if page < 16 then 4 * 1024 else 32 * 1024

def getFlashPageAddr (page : Nat) : Nat :=
  if page < 16 then page * 4096 else 16 * 4096 + (page - 16) * 32 * 1024

def getFlashPage (addr : Nat) : Nat := if addr < 0x10000 then addr / 4096 else 16 + (addr - 0x10000) / 32768

def getRamPageAddr (page : Nat) : Option Nat :=
  if page < dev.sramPages then some (hwplStartOfSram + page * deviceRamPageSize)
  else if page < dev.sramPages + dev.ahbSramPages then
    some (hwplStartOfAhbSram + (page - dev.sramPages) * deviceRamPageSize)
  else none

def getRamPage (addr : Nat) : Option Nat :=
  if hwplStartOfAhbSram ≤ addr ∧ addr < dev.ahbSramSize + hwplStartOfAhbSram then
    some ((addr - hwplStartOfAhbSram) / deviceRamPageSize + dev.sramPages)
  else if hwplStartOfSram ≤ addr ∧ addr < dev.sramSize + hwplStartOfSram then
    some ((addr - hwplStartOfSram) / deviceRamPageSize)
  else none

def isRam (addr size : Nat) : Bool :=
  decide (hwplStartOfSram ≤ addr ∧ addr + size ≤ dev.sramSize + hwplStartOfSram) ||
    decide (hwplStartOfAhbSram ≤ addr ∧ addr + size ≤ dev.ahbSramSize + hwplStartOfAhbSram)

def isFlash (addr size : Nat) : Bool := decide (addr + size ≤ dev.flashSize)

/-- `hwpl_mem_getpageinfo` for a page by its number: the address and the size. -/
def memGetpageinfo (type : MemType) (num : Nat) : Option (Nat × Nat) :=
  match type with
  | .ram => (dev.getRamPageAddr num).map fun addr => (addr, deviceRamPageSize)
  | .flash =>
    let size := getFlashPageSize num
    let addr := getFlashPageAddr num
    if addr + size > dev.flashSize then none else some (addr, size)

/-- `hwpl_mem_getpageinfo` with `MEM_PAGEINFO_TYPE_QUERY`: the page at an address.  The number of a page of RAM is
always found here. -/
def memQuery (addr : Nat) : Option Nat :=
  if dev.isRam addr deviceRamPageSize then dev.getRamPage addr
  else if dev.isFlash addr 0 then some (getFlashPage addr)
  else none

/-- No page from here on is there. -/
def pageBound : MemType → Nat
  | .ram => dev.sramPages + dev.ahbSramPages
  | .flash => dev.flashSize / 4096 + 1

theorem memGetpageinfo_of_bound {type : MemType} {num : Nat} (hn : dev.pageBound type ≤ num) :
    dev.memGetpageinfo type num = none := by
  cases type with
  | ram =>
    have hn : dev.sramPages + dev.ahbSramPages ≤ num := hn
    unfold memGetpageinfo getRamPageAddr
    rw [if_neg (by omega), if_neg (by omega)]
    rfl
  | flash =>
    have hn : dev.flashSize / 4096 + 1 ≤ num := hn
    unfold memGetpageinfo
    simp only
    rw [if_pos]
    unfold getFlashPageAddr getFlashPageSize
    split <;> omega

/-- The address of a page of RAM leads back to the page. -/
theorem memQuery_of_getRamPageAddr {page addr : Nat} (ha : dev.getRamPageAddr page = some addr) :
    dev.memQuery addr = some page ∧ addr < 2 ^ 32 := by
  have hs := dev.sram_le
  have hlt := dev.ahb_lt
  unfold getRamPageAddr at ha
  unfold memQuery isRam getRamPage
  unfold sramPages ahbSramPages deviceRamPageSize hwplStartOfSram hwplStartOfAhbSram at *
  split_ifs at ha with hp hp'
  · obtain rfl := Option.some.inj ha
    constructor
    · rw [if_pos (by simp only [Bool.or_eq_true, decide_eq_true_eq]; omega), if_neg (by omega), if_pos (by omega)]
      congr 1
      omega
    · omega
  · obtain rfl := Option.some.inj ha
    constructor
    · rw [if_pos (by simp only [Bool.or_eq_true, decide_eq_true_eq]; omega), if_pos (by omega)]
      congr 1
      omega
    · omega

end Device

/-! ### The usage table -/

def appfsMempagetypeFree : BitVec 32 := 0
def appfsMempagetypeSys : BitVec 32 := 1
def appfsMempagetypeUser : BitVec 32 := 2
def appfsMempagetypeMask : BitVec 32 := 3

/-- The words of `appfs_ram_usagetable` and of the memory behind it. -/
abbrev UsageTable : Type := Nat → BitVec 32

namespace UsageTable

def setRamUsage (buf : UsageTable) (page : Nat) (usage : BitVec 32) : UsageTable :=
  let block := page / 16
  let shift := page % 16 * 2
  Function.update buf block
    ((buf block &&& ~~~(appfsMempagetypeMask <<< shift)) ||| ((usage &&& appfsMempagetypeMask) <<< shift))

/-- How many pages `appfs_ram_setrange` marks. -/
def setrangePages (size : BitVec 32) : Nat :=
  (((mpuGetnextpowerof2 size).toInt + deviceRamPageSize - 1) / deviceRamPageSize).toNat

def appfsRamSetrange (buf : UsageTable) (page : Nat) (size usage : BitVec 32) : UsageTable :=
  (List.range' page (setrangePages size)).foldl (fun buf i => buf.setRamUsage i usage) buf

/-- The two bits of a page. -/
def pageUsage (buf : UsageTable) (page : Nat) : BitVec 32 :=
  (buf (page / 16) >>> (page % 16 * 2)) &&& appfsMempagetypeMask

/-- `none` is the result `-1`. -/
def appfsRamGetusage (buf : UsageTable) (page : Nat) : Option (BitVec 32) :=
  if page < appfsRamPages then some (buf.pageUsage page) else none

theorem setRamUsage_eq (buf : UsageTable) (page : Nat) (usage : BitVec 32) :
    buf.setRamUsage page usage = Fields.set 2 16 buf page usage := rfl

theorem pageUsage_eq (buf : UsageTable) (page : Nat) : buf.pageUsage page = Fields.get 2 16 buf page := rfl

theorem pageUsage_setRamUsage (buf : UsageTable) (page p : Nat) (usage : BitVec 32) :
    (buf.setRamUsage page usage).pageUsage p =
      if p = page then usage &&& appfsMempagetypeMask else buf.pageUsage p := by
  rw [pageUsage_eq, pageUsage_eq, setRamUsage_eq]
  split
  · next heq =>
    rw [heq]
    exact Fields.get_set_self (by decide) (by decide) buf page usage
  · next hne => exact Fields.get_set_of_ne (by decide) (by decide) buf usage hne

theorem pageUsage_foldl (usage : BitVec 32) (pages : List Nat) (buf : UsageTable) (p : Nat) :
    (pages.foldl (fun buf i => buf.setRamUsage i usage) buf).pageUsage p =
      if p ∈ pages then usage &&& appfsMempagetypeMask else buf.pageUsage p := by
  induction pages generalizing buf with
  | nil => simp
  | cons page pages ih =>
    rw [List.foldl_cons, ih, pageUsage_setRamUsage]
    by_cases hp : p = page
    · simp [hp]
    · simp [hp]

/-- A range of pages gets the new value and the others keep theirs. -/
theorem pageUsage_appfsRamSetrange (buf : UsageTable) (page : Nat) (size usage : BitVec 32) (p : Nat) :
    (buf.appfsRamSetrange page size usage).pageUsage p =
      if p ∈ List.range' page (setrangePages size) then usage &&& appfsMempagetypeMask else buf.pageUsage p :=
  pageUsage_foldl usage _ buf p

theorem setrangePages_eq {size : BitVec 32} (hle : size.toNat ≤ 2 ^ 30) :
    setrangePages size = (2 ^ Nat.clog 2 size.toNat + 1023) / 1024 := by
  unfold setrangePages deviceRamPageSize
  rw [toInt_mpuGetnextpowerof2 hle]
  generalize 2 ^ Nat.clog 2 size.toNat = m
  omega

/-- Rounding up twice is rounding up once. -/
theorem setrangePages_mpuGetnextpowerof2 {size : BitVec 32} (hle : size.toNat ≤ 2 ^ 30) :
    setrangePages (mpuGetnextpowerof2 size) = setrangePages size := by
  have hval := toNat_mpuGetnextpowerof2 (Nat.le_trans hle (by decide))
  have hclog : Nat.clog 2 size.toNat ≤ 30 := (Nat.clog_le_iff_le_pow (by decide)).2 hle
  have hpow : 2 ^ Nat.clog 2 size.toNat ≤ 2 ^ 30 := Nat.pow_le_pow_right (by decide) hclog
  rw [setrangePages_eq (by omega), setrangePages_eq hle, hval, Nat.clog_pow 2 _ (by decide)]

/-- The pages that hold so many bytes. -/
def pagesNeeded (size : Int) : Nat := ((size + deviceRamPageSize - 1) / deviceRamPageSize).toNat

/-- The size is at most a page, or its pages are a power of two in number: rounding it up takes no further page. -/
def WholePages (size : BitVec 32) : Prop :=
  ∃ k : Nat, (1024 * (2 ^ k - 1) : Int) < size.toInt ∧ size.toInt ≤ 1024 * 2 ^ k

theorem setrangePages_of_wholePages {size : BitVec 32} (hwhole : WholePages size) (hle : size.toInt ≤ 2 ^ 30) :
    0 < size.toNat ∧ size.toNat ≤ 2 ^ 30 ∧ setrangePages size = pagesNeeded size.toInt := by
  obtain ⟨k, hlow, hhigh⟩ := hwhole
  have hk : (1 : Int) ≤ 2 ^ k := by exact_mod_cast Nat.one_le_two_pow
  -- a size below `2 ^ 31` is not negative
  have hint : size.toInt = (size.toNat : Int) := by
    rw [BitVec.toInt_eq_toNat_cond] at *
    split_ifs at * with h
    · rfl
    · have := size.isLt
      omega
  rw [hint] at hlow hhigh hle
  have hpos : 0 < size.toNat := by omega
  have hle' : size.toNat ≤ 2 ^ 30 := by omega
  refine ⟨hpos, hle', ?_⟩
  rw [setrangePages_eq hle', pagesNeeded, hint]
  have hlow' : 1024 * (2 ^ k - 1) < size.toNat := by
    have : ((2 ^ k : Nat) : Int) = 2 ^ k := by push_cast; rfl
    omega
  have hhigh' : size.toNat ≤ 1024 * 2 ^ k := by
    have : ((2 ^ k : Nat) : Int) = 2 ^ k := by push_cast; rfl
    omega
  unfold deviceRamPageSize
  -- one page, the smallest there is
  rcases Nat.eq_zero_or_pos k with rfl | hk0
  · have hclog : Nat.clog 2 size.toNat ≤ 10 := (Nat.clog_le_iff_le_pow (by decide)).2 (by omega)
    have hpow : 2 ^ Nat.clog 2 size.toNat ≤ 2 ^ 10 := Nat.pow_le_pow_right (by decide) hclog
    have hone : 1 ≤ 2 ^ Nat.clog 2 size.toNat := Nat.one_le_two_pow
    omega
  · obtain ⟨j, rfl⟩ : ∃ j, k = j + 1 := ⟨k - 1, by omega⟩
    have hj : 2 ^ (j + 1) = 2 ^ j * 2 := Nat.pow_succ 2 j
    have hj1 : 1 ≤ 2 ^ j := Nat.one_le_two_pow
    -- the power of two that is not below the size is that of the whole pages
    have hclog : Nat.clog 2 size.toNat = j + 11 := by
      apply le_antisymm
      · rw [Nat.clog_le_iff_le_pow (by decide)]
        calc size.toNat ≤ 1024 * 2 ^ (j + 1) := hhigh'
          _ = 2 ^ (j + 11) := by rw [show j + 11 = j + 1 + 10 by omega, Nat.pow_add 2 (j + 1) 10, Nat.mul_comm]
      · rw [Nat.succ_le_iff, Nat.lt_clog_iff_pow_lt (by decide)]
        calc 2 ^ (j + 10) = 1024 * 2 ^ j := by rw [Nat.pow_add 2 j 10, Nat.mul_comm]
          _ ≤ 1024 * (2 ^ (j + 1) - 1) := by omega
          _ < size.toNat := hlow'
    have hval : 2 ^ (j + 11) = 1024 * 2 ^ (j + 1) := by
      rw [show j + 11 = j + 1 + 10 by omega, Nat.pow_add 2 (j + 1) 10, Nat.mul_comm]
    rw [hclog, hval]
    generalize 2 ^ (j + 1) = m at *
    omega

theorem appfsRamGetusage_eq_some {buf : UsageTable} {page : Nat} {usage : BitVec 32}
    (h : buf.appfsRamGetusage page = some usage) : page < appfsRamPages ∧ buf.pageUsage page = usage := by
  unfold appfsRamGetusage at h
  split at h
  · exact ⟨‹_›, Option.some.inj h⟩
  · cases h

end UsageTable

/-! ### Files -/

def nameMax : Nat := 24

/-- The header of a file, as far as installing and unlinking read it. -/
structure AppfsFile where
  name : Vector UInt8 nameMax
  codeStart : BitVec 32
  codeSize : BitVec 32
  ramStart : BitVec 32
  ramSize : BitVec 32
  dataSize : BitVec 32
  options : BitVec 32
  signature : BitVec 32
  deriving DecidableEq

/-- The string in a name. -/
def cstr (name : List UInt8) : List UInt8 := name.takeWhile (· ≠ 0)

def strnlen (name : List UInt8) (n : Nat) : Nat := (cstr (name.take n)).length

/-- `sysfs_validset`: letters, digits and four marks, three of them next to the digits. -/
def sysfsValid (c : UInt8) : Bool :=
  (0x2D ≤ c && c ≤ 0x39) || (0x41 ≤ c && c ≤ 0x5A) || c == 0x5F || (0x61 ≤ c && c ≤ 0x7A)

def calcChecksum (name : Vector UInt8 nameMax) : UInt8 := (name.toList.take (nameMax - 1)).foldl (· ^^^ ·) 0

def appfsUtilGetflashpagetype (name : Vector UInt8 nameMax) : BitVec 32 :=
  let len := strnlen name.toList (nameMax - 2)
  if len = nameMax - 2 ∨ len ≠ (name.toList.takeWhile sysfsValid).length ∨ name[23] ≠ calcChecksum name ∨ len = 0 then
    if name.toList.all (· == 0xFF) then appfsMempagetypeFree else appfsMempagetypeSys
  else appfsMempagetypeUser

/-- What an install makes of the name: a name that is too long is cut, the last byte is the checksum. -/
def finishName (name : Vector UInt8 nameMax) : Vector UInt8 nameMax :=
  let name :=
    if strnlen name.toList (nameMax - 2) = nameMax - 2 then (name.set 23 0).set 22 0 else name
  name.set 23 (calcChecksum name)

/-- A name with no zero byte in it is too long. -/
theorem strnlen_of_ff {name : Vector UInt8 nameMax} (hff : ∀ i (hi : i < nameMax), i < nameMax - 2 → name[i] = 0xFF) :
    strnlen name.toList (nameMax - 2) = nameMax - 2 := by
  have hall : ∀ c ∈ name.toList.take (nameMax - 2), decide (c ≠ 0) = true := by
    intro c hc
    obtain ⟨i, hi, rfl⟩ := List.mem_iff_getElem.mp hc
    rw [List.length_take] at hi
    rw [List.getElem_take, Vector.getElem_toList, hff i (by omega) (by omega)]
    decide
  rw [strnlen, cstr, List.takeWhile_eq_self_iff.mpr hall, List.length_take, Vector.length_toList]
  decide

/-- A finished name is not the name of a free page: it is cut or has its end. -/
theorem finishName_ne_free (name : Vector UInt8 nameMax) :
    appfsUtilGetflashpagetype (finishName name) ≠ appfsMempagetypeFree := by
  have hnot : (finishName name).toList.all (· == 0xFF) = false := by
    rw [Bool.eq_false_iff]
    intro hall
    have hff : ∀ i (hi : i < nameMax), (finishName name)[i] = 0xFF := by
      intro i hi
      have := List.all_eq_true.mp hall (finishName name)[i] (by simp)
      exact eq_of_beq this
    unfold finishName at hff
    by_cases hlen : strnlen name.toList (nameMax - 2) = nameMax - 2
    · have hcut := hff 22 (by decide)
      rw [if_pos hlen] at hcut
      simp at hcut
    · rw [if_neg hlen] at hff
      apply hlen
      apply strnlen_of_ff
      intro i hi hlt
      have hi' := hff i hi
      rw [Vector.getElem_set_ne _ _ (by unfold nameMax at hlt; omega)] at hi'
      exact hi'
  unfold appfsUtilGetflashpagetype
  simp only [hnot]
  split <;> decide

end Appfs

end CoActionOS
