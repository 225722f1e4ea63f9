import CoActionOS.Appfs.Relocation

/-!
# Creating a file in flash

`Appfs::create` sends a header with the first bytes and then the rest in chunks, each of which `appfs_util_priv_create`
gives to the memory driver, which writes whole pieces of 256 bytes to blank flash.

`create_iff` says when a file is stored that way: for a file of 2 GiB nothing is checked to be free, since the size is
passed on as an `int`, and a long name does not fit the buffer for the path.
-/

namespace CoActionOS

namespace Appfs

open Bootloader (Memory blankCheck roundNbyte hwplLastBootloaderPage)
open Cafs (Bytes le32 u32 slice overwrite)

/-- A device whose flash lies in front of its RAM. -/
structure FlashDevice extends Device where
  flash_le : flashSize ≤ hwplStartOfSram

/-! ### The memory driver -/

/-- The headers are what is at the start of the pages. -/
def storeOf (dev : Device) (usage : UsageTable) (m : Memory) : Store where
  usage := usage
  files
    | .flash, page => AppfsFile.ofBytes fun i => m (Device.getFlashPageAddr page + i)
    | .ram, page => AppfsFile.ofBytes fun i => m ((dev.getRamPageAddr page).getD 0 + i)

/-- `is_ram`, with the numbers as they are passed. -/
def Device.isRamAt (dev : Device) (addr size : BitVec 32) : Bool :=
  decide ((hwplStartOfSram : Int) ≤ addr.toInt ∧ (addr + size).toInt ≤ dev.sramSize + hwplStartOfSram) ||
    decide ((hwplStartOfAhbSram : Int) ≤ addr.toInt ∧ (addr + size).toInt ≤ dev.ahbSramSize + hwplStartOfAhbSram)

/-- `hwpl_mem_writepage`: the memory, and what is left of the request with the bytes that were copied, if it succeeds.
`copied` is whether the ROM does so. -/
def memWritepage (dev : Device) (copied : Bool) (m : Memory) (w : InstallChunk) :
    Memory × Option (InstallChunk × List UInt8) :=
  if dev.isRamAt w.loc w.nbyte then
    let bytes := slice w.buffer 0 w.nbyte.toNat
    (m.store w.loc.toNat bytes, some (w, bytes))
  else if w.loc.toNat < Device.getFlashPageAddr hwplLastBootloaderPage then (m, none)
  else if w.loc.toNat ≥ dev.flashSize then (m, none)
  else
    let w :=
      if (w.loc + w.nbyte).toNat > dev.flashSize then { w with nbyte := BitVec.ofNat 32 (dev.flashSize - w.loc.toNat) }
      else w
    let nbyte := roundNbyte w.nbyte.toNat
    if blankCheck m w.loc.toNat nbyte = false then (m, none)
    else if copied = false then (m, none)
    else
      let bytes := slice w.buffer 0 nbyte
      (m.store w.loc.toNat bytes, some (w, bytes))

/-! ### Sending -/

def appfsPageSize : BitVec 32 := 256

def linkPathMax : Nat := 64

/-- What `Appfs::create` has, with the chunks that it has sent and the pieces of memory that were written. -/
structure Creation where
  memory : Memory
  session : Session
  attr : InstallChunk
  loc : BitVec 32
  bw : BitVec 32
  p : Nat
  sent : List InstallChunk
  written : List (Nat × Nat)

namespace Creation

/-- What the loop begins with. -/
def init (m : Memory) (session : Session) (attr : InstallChunk) : Creation := ⟨m, session, attr, 0, 0, 0, [], []⟩

variable (dev : Device) (copied : BitVec 32 → Bool) (link : Bool) (buf : Bytes) (codeSize : BitVec 32) (c : Creation)

/-- `attr` as it is sent. -/
def chunk : InstallChunk :=
  if c.loc ≠ 0 then
    let nbyte := if codeSize - c.bw > appfsPageSize then appfsPageSize else codeSize - c.bw
    ⟨c.loc, nbyte, overwrite c.attr.buffer 0 (slice buf c.p nbyte.toNat)⟩
  else { c.attr with loc := c.loc }

/-- The call of `ioctl`, and whether it succeeds.  On the device it works on `attr` itself, over the link on a copy. -/
def send : Creation × Bool :=
  let attr := c.chunk buf codeSize
  match privCreate dev { c.session with store := storeOf dev c.session.store.usage c.memory } attr with
  | (s, none) => ({ c with session := s }, false)
  | (s, some w) =>
    match memWritepage dev (copied w.loc) c.memory w with
    | (m, none) => ({ c with session := s, memory := m }, false)
    | (m, some (w', bytes)) =>
      ({ c with
          memory := m
          session := s
          attr := if link then attr else w'
          sent := c.sent ++ [attr]
          written := c.written ++ [(w.loc.toNat, bytes.length)] }, true)

/-- The positions behind what was sent. -/
def advance : Creation :=
  let nbyte := c.attr.nbyte
  { c with
    p := if c.loc ≠ 0 then c.p + nbyte.toNat else c.p + (nbyte - BitVec.ofNat 32 sizeofAppfsFile).toNat
    bw := c.bw + nbyte
    loc := c.loc + nbyte }

/-- The loop, and whether `nbyte` is returned. -/
def loop : Nat → Creation → Option (Creation × Bool)
  | 0, _ => none
  | fuel + 1, c =>
    match c.send dev copied link buf codeSize with
    | (c, false) => some (c, false)
    | (c, true) =>
      let c := c.advance
      if c.bw < codeSize then loop fuel c else some (c, true)

end Creation

/-- The header that is sent, over what is on the stack. -/
def sentHeader (stack : AppfsFile) (name : List UInt8) (codeSize : BitVec 32) : AppfsFile :=
  { stack with
    name := Vector.ofFn fun i => name.getD i 0
    codeSize := codeSize
    signature := appfsCreateSignature }

/-- The size with the header, as it is put into it. -/
def codeSizeOf (nbyte : Nat) : BitVec 32 := BitVec.ofNat 32 nbyte + BitVec.ofNat 32 sizeofAppfsFile

/-- The bytes of the buffer that the first chunk has. -/
def firstNbyte (nbyte : Nat) : Nat := min nbyte (256 - sizeofAppfsFile)

/-- The first chunk. -/
def firstAttr (name : List UInt8) (buf : Bytes) (nbyte : Nat) (codeSize : BitVec 32) (stackFile : AppfsFile) (startup : BitVec 32)
    (stack : Bytes) : InstallChunk where
  loc := 0
  nbyte := BitVec.ofNat 32 (firstNbyte nbyte + sizeofAppfsFile)
  buffer :=
    overwrite (overwrite stack 0 ((sentHeader stackFile name codeSize).toBytes 0o666 startup))
      sizeofAppfsFile (slice buf 0 (firstNbyte nbyte))

/-- `Appfs::create` for a name and `nbyte` bytes from `buf` on, after a file of that name was unlinked.  `opened` is
whether `.install` can be opened; the result `none` is that the path is written behind the end of its buffer. -/
def appfsCreate (dev : Device) (copied : BitVec 32 → Bool) (link opened : Bool) (mount name : List UInt8) (buf : Bytes)
    (nbyte : Nat) (stackFile : AppfsFile) (startup : BitVec 32) (stack : Bytes) (session : Session) (m : Memory) : Option (Creation × Bool) :=
  -- the mount, "/flash/", the name and the zero byte
  if linkPathMax < mount.length + 7 + name.length + 1 then none
  else
    let codeSize := codeSizeOf nbyte
    let c := Creation.init m session (firstAttr name buf nbyte codeSize stackFile startup stack)
    if opened then c.loop dev copied link buf codeSize (codeSize.toNat + 1) else some (c, false)

/-! ### The statement -/

/-- The pages that were found free. -/
def Store.Place.Holds (code : Store.Place) (a : Nat) : Prop :=
  ∃ page ∈ code.free, Device.getFlashPageAddr page ≤ a ∧ a < Device.getFlashPageAddr page + Device.getFlashPageSize page

/-- The chunks follow each other from the offset `o` to `e`. -/
def Contiguous : Nat → Nat → List InstallChunk → Prop
  | o, e, [] => o = e
  | o, e, c :: cs => c.loc.toNat = o ∧ Contiguous (o + c.nbyte.toNat) e cs

/-- The space that is found for the header and `nbyte` bytes. -/
def spaceFor (dev : Device) (nbyte : Nat) (session : Session) (m : Memory) : Option Store.Place :=
  findFree dev (storeOf dev session.store.usage m) (codeSizeOf nbyte)

/-- Only in pages that were found free is anything written, and when `nbyte` is returned, the chunks are all that was to
be sent and the bytes behind the header are those of the buffer. -/
structure Creation.Exact (dev : Device) (buf : Bytes) (nbyte : Nat) (session : Session) (m : Memory) (c : Creation)
    (ok : Bool) : Prop where
  inside : ∀ a n, (a, n) ∈ c.written → ∀ i < n, ∃ code, spaceFor dev nbyte session m = some code ∧ code.Holds (a + i)
  contiguous : ok = true → Contiguous 0 (sizeofAppfsFile + nbyte) c.sent
  stored : ok = true → ∃ code, spaceFor dev nbyte session m = some code ∧
    ∀ i < nbyte, c.memory (code.addr + sizeofAppfsFile + i) = buf i

/-- The first piece, when it is for the first page behind the bootloader, is not written: the device does not have the page,
or it is not blank there, or the ROM refuses. -/
def FirstRefused (dev : Device) (copied : BitVec 32 → Bool) (m : Memory) : Prop :=
  dev.memGetpageinfo .flash hwplLastBootloaderPage = none ∨ blankCheck m 0x3000 256 = false ∨ copied 0x3000 = false

/-! ### The header that is sent -/

/-- The bytes from an offset on. -/
def Stands (d : Bytes) (o : Nat) (bs : List UInt8) : Prop := ∀ i (hi : i < bs.length), d (o + i) = bs[i]

section

variable {d : Bytes} {o n : Nat} {xs ys : List UInt8}

theorem Stands.append (h : Stands d o (xs ++ ys)) (hn : xs.length = n) : Stands d o xs ∧ Stands d (o + n) ys := by
  constructor
  · intro i hi
    rw [h i (by rw [List.length_append]; omega), List.getElem_append_left hi]
  · intro i hi
    rw [Nat.add_assoc, h (n + i) (by rw [List.length_append]; omega), List.getElem_append_right (by omega)]
    congr 1
    omega

theorem Stands.word {w : BitVec 32} (h : Stands d o (le32 w.toNat)) : BitVec.ofNat 32 (u32 d o) = w := by
  have hlt : ∀ i < 4, i < (le32 w.toNat).length := fun i hi => (Cafs.length_le32 w.toNat).symm ▸ hi
  have hw : u32 d o = w.toNat :=
    Cafs.u32_eq_of_le32 w.isLt (h 0 (hlt 0 (by decide))) (h 1 (hlt 1 (by decide))) (h 2 (hlt 2 (by decide)))
      (h 3 (hlt 3 (by decide)))
  rw [hw, BitVec.ofNat_toNat, BitVec.setWidth_eq]

theorem stands_overwrite (d : Bytes) (o : Nat) (bs : List UInt8) : Stands (overwrite d o bs) o bs := by
  intro i hi
  exact Cafs.overwrite_add hi

/-- A header is read back. -/
theorem AppfsFile.ofBytes_toBytes {file : AppfsFile} (mode : Nat) (startup : BitVec 32)
    (h : Stands d 0 (file.toBytes mode startup)) : AppfsFile.ofBytes d = file := by
  unfold AppfsFile.toBytes at h
  simp only [List.append_assoc] at h
  obtain ⟨hname, h⟩ := h.append Vector.length_toList
  obtain ⟨-, h⟩ := h.append (Cafs.length_le32 _)
  obtain ⟨-, h⟩ := h.append (Cafs.length_le32 _)
  obtain ⟨hcodeStart, h⟩ := h.append (Cafs.length_le32 _)
  obtain ⟨hcodeSize, h⟩ := h.append (Cafs.length_le32 _)
  obtain ⟨hramStart, h⟩ := h.append (Cafs.length_le32 _)
  obtain ⟨hramSize, h⟩ := h.append (Cafs.length_le32 _)
  obtain ⟨hdataSize, h⟩ := h.append (Cafs.length_le32 _)
  obtain ⟨hoptions, hsignature⟩ := h.append (Cafs.length_le32 _)
  have hvec : (Vector.ofFn fun i : Fin nameMax => d i) = file.name := by
    refine Vector.ext fun i hi => ?_
    have hi' : i < file.name.toList.length := by rwa [Vector.length_toList]
    calc (Vector.ofFn fun i : Fin nameMax => d i)[i]
      _ = d (0 + i) := by rw [Vector.getElem_ofFn, Nat.zero_add]
      _ = file.name[i] := (hname i hi').trans (Vector.getElem_toList hi')
  exact congr (congr (congr (congr (congr (congr (congr (congrArg AppfsFile.mk hvec) hcodeStart.word) hcodeSize.word)
    hramStart.word) hramSize.word) hdataSize.word) hoptions.word) hsignature.word

end

/-! ### The space that is found -/

section

open Device (getFlashPageAddr getFlashPageSize)

theorem getFlashPageAddr_succ (page : Nat) : getFlashPageAddr (page + 1) = getFlashPageAddr page + getFlashPageSize page := by
  unfold getFlashPageAddr getFlashPageSize
  split_ifs <;> omega

theorem dvd_getFlashPageAddr (page : Nat) : 4096 ∣ getFlashPageAddr page := by
  unfold getFlashPageAddr
  split_ifs <;> omega

theorem getFlashPageSize_pos (page : Nat) : 0 < getFlashPageSize page := by
  unfold getFlashPageSize
  split_ifs <;> omega

variable {dev : Device} {s : Store} {size : BitVec 32} {code : Store.Place}

/-- The pages in a row that the loop finds hold what is still needed. -/
theorem checkForFreeSpaceLoop_flash {n : Int} {fuel : Nat} {last : Option Nat} {num : Nat} {freeSize : Int}
    {free : List Nat} (hfuel : n - freeSize ≤ fuel)
    (h : s.checkForFreeSpaceLoop dev .flash n fuel last num freeSize = some free) :
    ∃ k, free = List.range' num k ∧ n - freeSize ≤ getFlashPageAddr (num + k) - getFlashPageAddr num ∧
      (0 < k → getFlashPageAddr (num + k) ≤ dev.flashSize) := by
  induction fuel generalizing last num freeSize free with
  | zero =>
    obtain rfl := Option.some.inj h
    exact ⟨0, rfl, by rw [Nat.add_zero]; omega, fun h => absurd h (Nat.lt_irrefl 0)⟩
  | succ fuel ih =>
    unfold Store.checkForFreeSpaceLoop at h
    by_cases hlt : freeSize < n
    · rw [if_pos hlt] at h
      cases hinfo : dev.memGetpageinfo .flash num with
      | none =>
        rw [hinfo] at h
        cases h
      | some info =>
        rw [hinfo] at h
        unfold Device.memGetpageinfo at hinfo
        simp only at h hinfo
        split_ifs at hinfo with hend
        obtain rfl := Option.some.inj hinfo
        split_ifs at h with hlast hfree
        obtain ⟨rest, hrest, rfl⟩ := Option.map_eq_some_iff.mp h
        have hpos := getFlashPageSize_pos num
        have hsucc := getFlashPageAddr_succ num
        simp only at hrest
        obtain ⟨k, rfl, hneed, hfits⟩ := ih (by omega) hrest
        have hnext : num + 1 + k = num + (k + 1) := by omega
        rw [hnext] at hneed hfits
        refine ⟨k + 1, rfl, by omega, fun _ => ?_⟩
        rcases Nat.eq_zero_or_pos k with rfl | hk
        · rw [Nat.zero_add, hsucc]
          exact Nat.le_of_not_lt hend
        · exact hfits hk
    · rw [if_neg hlt] at h
      obtain rfl := Option.some.inj h
      exact ⟨0, rfl, by rw [Nat.add_zero]; omega, fun h => absurd h (Nat.lt_irrefl 0)⟩

/-- The pages in a row hold what lies between the first and the last. -/
theorem holds_of_range' {num k a : Nat} (hfree : code.free = List.range' num k) (hlo : getFlashPageAddr num ≤ a)
    (hhi : a < getFlashPageAddr (num + k)) : code.Holds a := by
  suffices h : ∃ page ∈ List.range' num k, getFlashPageAddr page ≤ a ∧ a < getFlashPageAddr page + getFlashPageSize page by
    rwa [← hfree] at h
  clear hfree
  induction k with
  | zero => exact absurd hhi (Nat.not_lt_of_le hlo)
  | succ k ih =>
    by_cases hlast : a < getFlashPageAddr (num + k)
    · obtain ⟨page, hpage, hin⟩ := ih hlast
      rw [List.mem_range'_1] at hpage
      exact ⟨page, List.mem_range'_1.mpr ⟨hpage.1, by omega⟩, hin⟩
    · refine ⟨num + k, List.mem_range'_1.mpr ⟨by omega, by omega⟩, Nat.le_of_not_lt hlast, ?_⟩
      rw [← getFlashPageAddr_succ]
      exact hhi

/-- A place that was found begins with a page behind the bootloader. -/
theorem findFreeLoop_spec {fuel num : Nat} (h : findFreeLoop dev s size fuel num = some code) :
    num ≤ code.page ∧ dev.memGetpageinfo .flash code.page = some (code.addr, getFlashPageSize code.page) ∧
      s.checkForFreeSpace dev code.page .flash size = some code.free := by
  induction fuel generalizing num with
  | zero => exact nomatch h
  | succ fuel ih =>
    unfold findFreeLoop at h
    cases hinfo : dev.memGetpageinfo .flash num with
    | none =>
      rw [hinfo] at h
      exact nomatch h
    | some info =>
      rw [hinfo] at h
      simp only at h
      cases hcheck : s.checkForFreeSpace dev num .flash size with
      | none =>
        rw [hcheck] at h
        obtain ⟨hle, hspec⟩ := ih h
        exact ⟨Nat.le_of_succ_le hle, hspec⟩
      | some free =>
        rw [hcheck] at h
        obtain rfl := Option.some.inj h
        refine ⟨le_rfl, ?_, hcheck⟩
        rw [hinfo]
        unfold Device.memGetpageinfo at hinfo
        simp only at hinfo
        split_ifs at hinfo
        obtain rfl := Option.some.inj hinfo
        rfl

/-- Space that was found for `e` bytes: it lies behind the bootloader, and what the driver writes of it was found free. -/
structure Store.Place.Room (code : Store.Place) (dev : Device) (e : Nat) : Prop where
  addr_ge : 0x3000 ≤ code.addr
  aligned : 4096 ∣ code.addr
  holds : ∀ o < e, 256 ∣ o → code.addr + o + 256 ≤ dev.flashSize ∧ ∀ i < 256, code.Holds (code.addr + o + i)

/-- A file of less than 2 GiB gets its space. -/
theorem room_of_findFree (hsize : size.toNat < 2 ^ 31) (h : findFree dev s size = some code) :
    code.Room dev size.toNat := by
  obtain ⟨hpage, hinfo, hcheck⟩ := findFreeLoop_spec h
  have hint : size.toInt = size.toNat := BitVec.toInt_eq_toNat_of_lt (by omega)
  unfold Store.checkForFreeSpace at hcheck
  obtain ⟨k, hfree, hneed, hfits⟩ := checkForFreeSpaceLoop_flash (by omega) hcheck
  have haddr : code.addr = getFlashPageAddr code.page := by
    unfold Device.memGetpageinfo at hinfo
    simp only at hinfo
    split_ifs at hinfo
    exact (Prod.mk.inj (Option.some.inj hinfo)).1.symm
  have hstart := dvd_getFlashPageAddr code.page
  have hend := dvd_getFlashPageAddr (code.page + k)
  refine ⟨?_, haddr ▸ hstart, fun o ho hdvd => ?_⟩
  · rw [haddr]
    unfold getFlashPageAddr
    have : 3 ≤ code.page := hpage
    split_ifs <;> omega
  · have hpos : 0 < k := by
      rcases Nat.eq_zero_or_pos k with rfl | hk
      · rw [Nat.add_zero] at hneed
        omega
      · exact hk
    have hroom : code.addr + o + 256 ≤ getFlashPageAddr (code.page + k) := by omega
    exact ⟨hroom.trans (hfits hpos), fun i hi => holds_of_range' hfree (by omega) (by omega)⟩

/-- For a negative size the first page behind the bootloader is found, and nothing is looked at. -/
theorem findFree_of_neg (hsize : size.toInt < 0) :
    findFree dev s size = (dev.memGetpageinfo .flash hwplLastBootloaderPage).map fun info =>
      ⟨hwplLastBootloaderPage, info.1, []⟩ := by
  have hcheck : s.checkForFreeSpace dev hwplLastBootloaderPage .flash size = some [] := by
    unfold Store.checkForFreeSpace
    rw [Int.toNat_of_nonpos hsize.le]
    rfl
  unfold findFree Device.pageBound findFreeLoop
  cases dev.memGetpageinfo .flash hwplLastBootloaderPage with
  | none => rfl
  | some info =>
    simp only [hcheck]
    rfl

end

/-! ### The driver -/

section

variable {dev : FlashDevice} {copied : Bool} {m : Memory} {w : InstallChunk}

theorem isRamAt_of_lt {addr : BitVec 32} (h : addr.toNat < hwplStartOfSram) (size : BitVec 32) :
    dev.isRamAt addr size = false := by
  have hint : addr.toInt = addr.toNat := BitVec.toInt_eq_toNat_of_lt (by unfold hwplStartOfSram at h; omega)
  have hnot : ¬ (hwplStartOfSram : Int) ≤ addr.toInt := by omega
  have hnot' : ¬ (hwplStartOfAhbSram : Int) ≤ addr.toInt := by
    unfold hwplStartOfSram at h
    unfold hwplStartOfAhbSram
    omega
  unfold Device.isRamAt
  rw [decide_eq_false fun h => hnot h.1, decide_eq_false fun h => hnot' h.1]
  rfl

variable (copied m) in
/-- A piece of at most 256 bytes in the flash: 256 bytes are written there, if it is blank and the ROM does so. -/
theorem memWritepage_flash (hlo : 0x3000 ≤ w.loc.toNat) (hhi : w.loc.toNat + 256 ≤ dev.flashSize)
    (hn : w.nbyte.toNat ≤ 256) :
    (blankCheck m w.loc.toNat 256 = false ∨ copied = false) ∧ memWritepage dev.toDevice copied m w = (m, none) ∨
      ¬ (blankCheck m w.loc.toNat 256 = false ∨ copied = false) ∧ memWritepage dev.toDevice copied m w =
        (m.store w.loc.toNat (slice w.buffer 0 256), some (w, slice w.buffer 0 256)) := by
  have hflash := dev.flash_le
  have hpage : Device.getFlashPageAddr hwplLastBootloaderPage = 0x3000 := rfl
  have hram : dev.isRamAt w.loc w.nbyte = false :=
    isRamAt_of_lt (by omega) w.nbyte
  have hsum : (w.loc + w.nbyte).toNat ≤ w.loc.toNat + w.nbyte.toNat := by
    rw [BitVec.toNat_add]
    exact Nat.mod_le _ _
  have hclip : ¬ (w.loc + w.nbyte).toNat > dev.flashSize := by omega
  have hround : roundNbyte w.nbyte.toNat = 256 := if_pos hn
  unfold memWritepage
  rw [if_neg (by rw [hram]; exact Bool.false_ne_true), if_neg (by rw [hpage]; omega), if_neg (by omega)]
  simp only [hclip, if_false, hround]
  by_cases hblank : blankCheck m w.loc.toNat 256 = false
  · exact .inl ⟨.inl hblank, if_pos hblank⟩
  · rw [if_neg hblank]
    by_cases hcopied : copied = false
    · exact .inl ⟨.inr hcopied, if_pos hcopied⟩
    · exact .inr ⟨not_or.mpr ⟨hblank, hcopied⟩, if_neg hcopied⟩

end

/-! ### Sending -/

theorem Contiguous.snoc {o e : Nat} {cs : List InstallChunk} {c : InstallChunk} (h : Contiguous o e cs)
    (hc : c.loc.toNat = e) : Contiguous o (e + c.nbyte.toNat) (cs ++ [c]) := by
  induction cs generalizing o with
  | nil =>
    obtain rfl : o = e := h
    exact ⟨hc, rfl⟩
  | cons c' cs ih => exact ⟨h.1, ih h.2⟩

theorem store_slice {m : Memory} {a j : Nat} {b : Bytes} (hj : j < 256) : m.store a (slice b 0 256) (a + j) = b j := by
  rw [Bootloader.store_at (by rwa [Cafs.length_slice]), List.getD_eq_getElem _ _ (by rwa [Cafs.length_slice]),
    Cafs.getElem_slice, Nat.zero_add]

namespace Creation

variable {dev : FlashDevice} {copied : BitVec 32 → Bool} {link : Bool} {buf : Bytes} {codeSize : BitVec 32}
  {c : Creation} {code : Store.Place} {o : Nat}

/-- The session in which the call is made. -/
def asked (dev : Device) (c : Creation) : Session :=
  { c.session with store := storeOf dev c.session.store.usage c.memory }

variable (copied link) in
/-- A chunk that is refused. -/
theorem send_of_none (h : (privCreate dev.toDevice (c.asked dev.toDevice) (c.chunk buf codeSize)).2 = none) :
    ∃ s, c.send dev.toDevice copied link buf codeSize = ({ c with session := s }, false) := by
  unfold send
  rw [asked] at h
  dsimp only
  generalize privCreate dev.toDevice _ _ = r at h ⊢
  obtain ⟨s, w⟩ := r
  obtain rfl : w = none := h
  exact ⟨s, rfl⟩

/-- The driver does not write a chunk. -/
def Refused (copied : BitVec 32 → Bool) (m : Memory) (loc : BitVec 32) : Prop :=
  blankCheck m loc.toNat 256 = false ∨ copied loc = false

/-- What is there when a chunk was written. -/
def wrote (c : Creation) (link : Bool) (s : Session) (attr w : InstallChunk) : Creation :=
  { c with
    memory := c.memory.store w.loc.toNat (slice w.buffer 0 256)
    session := s
    attr := if link then attr else w
    sent := c.sent ++ [attr]
    written := c.written ++ [(w.loc.toNat, 256)] }

variable (copied link) in
/-- A chunk for the flash is written or not. -/
theorem send_of_some {s : Session} {w : InstallChunk}
    (h : privCreate dev.toDevice (c.asked dev.toDevice) (c.chunk buf codeSize) = (s, some w))
    (hlo : 0x3000 ≤ w.loc.toNat) (hhi : w.loc.toNat + 256 ≤ dev.flashSize) (hn : w.nbyte.toNat ≤ 256) :
    Refused copied c.memory w.loc ∧ c.send dev.toDevice copied link buf codeSize = ({ c with session := s }, false) ∨
      ¬ Refused copied c.memory w.loc ∧
        c.send dev.toDevice copied link buf codeSize = (c.wrote link s (c.chunk buf codeSize) w, true) := by
  unfold send
  rw [asked] at h
  dsimp only
  rw [h]
  dsimp only
  rcases memWritepage_flash (copied w.loc) c.memory hlo hhi hn with ⟨hrefused, heq⟩ | ⟨hwritten, heq⟩
  · exact .inl ⟨hrefused, by rw [heq]⟩
  · refine .inr ⟨hwritten, ?_⟩
    rw [heq]
    unfold wrote
    simp only [Cafs.length_slice]

/-- After the bytes in front of `o` were sent: they are stored in the space that was found. -/
structure Stored (code : Store.Place) (codeSize : BitVec 32) (buf : Bytes) (c : Creation) (o : Nat) : Prop where
  loc : c.loc.toNat = o
  bw : c.bw = c.loc
  p : c.p + sizeofAppfsFile = o
  start : c.session.handle.codeStart = BitVec.ofNat 32 code.addr
  size : c.session.handle.codeSize = codeSize
  contiguous : Contiguous 0 o c.sent
  inside : ∀ a n, (a, n) ∈ c.written → ∀ i < n, code.Holds (a + i)
  bytes : ∀ i < o - sizeofAppfsFile, c.memory (code.addr + sizeofAppfsFile + i) = buf i

theorem advance_wrote {s : Session} {attr w : InstallChunk} (hn : w.nbyte = attr.nbyte) :
    (c.wrote link s attr w).advance =
      { c.wrote link s attr w with
        p := if c.loc ≠ 0 then c.p + attr.nbyte.toNat else c.p + (attr.nbyte - BitVec.ofNat 32 sizeofAppfsFile).toNat
        bw := c.bw + attr.nbyte
        loc := c.loc + attr.nbyte } := by
  have hnbyte : (c.wrote link s attr w).attr.nbyte = attr.nbyte := by
    cases link
    · exact hn
    · rfl
  unfold advance
  rw [hnbyte]
  rfl

variable (copied link) in
/-- A later chunk is refused or stored. -/
theorem Stored.send (h : c.Stored code codeSize buf o) (hroom : code.Room dev.toDevice codeSize.toNat)
    (hsize : codeSize.toNat < 2 ^ 31) (hpos : 0 < o) (hdvd : 256 ∣ o) (hlt : o < codeSize.toNat) :
    (∃ s, c.send dev.toDevice copied link buf codeSize = ({ c with session := s }, false)) ∨
      ∃ c', c.send dev.toDevice copied link buf codeSize = (c', true) ∧
        c'.advance.Stored code codeSize buf (o + min 256 (codeSize.toNat - o)) := by
  have hne : c.loc ≠ 0 := by
    intro hzero
    exact Nat.ne_of_gt hpos (h.loc.symm.trans (congrArg BitVec.toNat hzero))
  obtain ⟨hfit, hholds⟩ := hroom.holds o hlt hdvd
  have hlo := hroom.addr_ge
  have hflash := dev.flash_le
  unfold hwplStartOfSram at hflash
  -- how many bytes the chunk has
  have hrest : (codeSize - c.bw).toNat = codeSize.toNat - o := by
    rw [h.bw, BitVec.toNat_sub_of_le (BitVec.le_def.mpr (h.loc ▸ hlt.le)), h.loc]
  obtain ⟨n, hn, hchunk⟩ : ∃ n : BitVec 32, n.toNat = min 256 (codeSize.toNat - o) ∧
      c.chunk buf codeSize = ⟨c.loc, n, overwrite c.attr.buffer 0 (slice buf c.p n.toNat)⟩ := by
    refine ⟨if codeSize - c.bw > appfsPageSize then appfsPageSize else codeSize - c.bw, ?_, if_pos hne⟩
    have hpage : appfsPageSize.toNat = 256 := rfl
    by_cases hgt : codeSize - c.bw > appfsPageSize
    · have : appfsPageSize.toNat < (codeSize - c.bw).toNat := BitVec.lt_def.mp hgt
      rw [if_pos hgt]
      omega
    · have : ¬ appfsPageSize.toNat < (codeSize - c.bw).toNat := fun hlt => hgt (BitVec.lt_def.mpr hlt)
      rw [if_neg hgt]
      omega
  have hstart : (c.session.handle.codeStart).toNat = code.addr := by
    rw [h.start, BitVec.toNat_ofNat, Nat.mod_eq_of_lt (by omega)]
  -- the chunk as it is given to the driver
  have hloc : (c.loc + c.session.handle.codeStart).toNat = code.addr + o := by
    rw [BitVec.toNat_add, h.loc, hstart, Nat.mod_eq_of_lt (by omega), Nat.add_comm]
  have hpriv : privCreate dev.toDevice (c.asked dev.toDevice) (c.chunk buf codeSize) =
      (c.asked dev.toDevice, some ⟨c.loc + c.session.handle.codeStart, n,
        overwrite c.attr.buffer 0 (slice buf c.p n.toNat)⟩) := by
    have hpass : ¬ (c.asked dev.toDevice).bound .create < c.loc + (c.asked dev.toDevice).handle.codeStart + n := by
      have hbound : ((c.asked dev.toDevice).bound .create).toNat = code.addr + codeSize.toNat := by
        unfold Session.bound asked
        dsimp only
        rw [BitVec.toNat_add, hstart, h.size, Nat.mod_eq_of_lt (by omega)]
      rw [BitVec.lt_def, hbound, BitVec.toNat_add]
      unfold asked
      dsimp only
      rw [hloc, Nat.mod_eq_of_lt (by omega)]
      omega
    have halign : ¬ c.loc &&& 3 ≠ 0 := not_not.mpr (and_three_eq_zero_iff.mpr (by rw [h.loc]; omega))
    rw [hchunk]
    unfold privCreate
    dsimp only
    rw [if_neg hne, if_neg halign]
    exact finishCreate_of_pass hpass
  rcases send_of_some copied link hpriv (by rw [hloc]; omega) (by rw [hloc]; omega)
      (by rw [hn]; omega) with ⟨-, hsend⟩ | ⟨-, hsend⟩
  · exact .inl ⟨_, hsend⟩
  refine .inr ⟨_, hsend, ?_⟩
  rw [hchunk, advance_wrote (by rfl), ← hn]
  exact {
    loc := by
      dsimp only
      rw [BitVec.toNat_add, h.loc, Nat.mod_eq_of_lt (by omega)]
    bw := congrArg (· + n) h.bw
    p := by
      have hp := h.p
      dsimp only
      rw [if_pos hne]
      omega
    start := h.start
    size := h.size
    contiguous := h.contiguous.snoc (c := ⟨c.loc, n, overwrite c.attr.buffer 0 (slice buf c.p n.toNat)⟩) h.loc
    inside := by
      intro a k hmem i hi
      rcases List.mem_append.mp hmem with hmem | hmem
      · exact h.inside a k hmem i hi
      · obtain ⟨rfl, rfl⟩ := Prod.mk.inj (List.mem_singleton.mp hmem)
        rw [hloc]
        exact hholds i hi
    bytes := by
      intro i hi
      have hp := h.p
      by_cases hold : i < o - sizeofAppfsFile
      · exact (Bootloader.store_of_lt (by rw [hloc]; omega)).trans (h.bytes i hold)
      · obtain ⟨j, hj⟩ : ∃ j, i = c.p + j := ⟨i - c.p, by omega⟩
        have haddr : code.addr + sizeofAppfsFile + i = (c.loc + c.session.handle.codeStart).toNat + j := by
          rw [hloc]
          omega
        have hjn : j < (slice buf c.p n.toNat).length := by
          rw [Cafs.length_slice]
          omega
        rw [haddr]
        calc c.memory.store _ (slice (overwrite c.attr.buffer 0 (slice buf c.p n.toNat)) 0 256) _
          _ = overwrite c.attr.buffer 0 (slice buf c.p n.toNat) (0 + j) := by rw [store_slice (by omega), Nat.zero_add]
          _ = buf (c.p + j) := by rw [Cafs.overwrite_add hjn, Cafs.getElem_slice]
          _ = buf i := by rw [hj] }

variable (copied link) in
/-- The loop behind the first chunk ends, and when it comes to its end everything is stored. -/
theorem Stored.loop (fuel : Nat) (h : c.Stored code codeSize buf o) (hroom : code.Room dev.toDevice codeSize.toNat)
    (hsize : codeSize.toNat < 2 ^ 31) (hpos : 0 < o) (hdvd : 256 ∣ o) (hlt : o < codeSize.toNat)
    (hfuel : codeSize.toNat - o ≤ fuel) :
    ∃ c' ok, c.loop dev.toDevice copied link buf codeSize fuel = some (c', ok) ∧
      (∀ a n, (a, n) ∈ c'.written → ∀ i < n, code.Holds (a + i)) ∧
      (ok = true → c'.Stored code codeSize buf codeSize.toNat) := by
  induction fuel generalizing c o with
  | zero => omega
  | succ fuel ih =>
    unfold Creation.loop
    rcases h.send copied link hroom hsize hpos hdvd hlt with ⟨s, hsend⟩ | ⟨c', hsend, hstored⟩
    · rw [hsend]
      exact ⟨_, _, rfl, h.inside, by exact nofun⟩
    · rw [hsend]
      dsimp only
      by_cases hmore : c'.advance.bw < codeSize
      · rw [if_pos hmore]
        have hlt' : o + min 256 (codeSize.toNat - o) < codeSize.toNat := by
          rw [hstored.bw, BitVec.lt_def, hstored.loc] at hmore
          exact hmore
        exact ih hstored (by omega) (by omega) hlt' (by omega)
      · rw [if_neg hmore]
        have hend : o + min 256 (codeSize.toNat - o) = codeSize.toNat := by
          rw [hstored.bw, BitVec.lt_def, hstored.loc] at hmore
          omega
        exact ⟨_, _, rfl, hstored.inside, fun _ => hend ▸ hstored⟩

/-- Nothing that was written is forgotten. -/
theorem loop_written {fuel : Nat} {c' : Creation} {ok : Bool} {p : Nat × Nat} (hp : p ∈ c.written)
    (h : c.loop dev.toDevice copied link buf codeSize fuel = some (c', ok)) : p ∈ c'.written := by
  induction fuel generalizing c with
  | zero => exact nomatch h
  | succ fuel ih =>
    have hsend : p ∈ (c.send dev.toDevice copied link buf codeSize).1.written := by
      unfold Creation.send
      dsimp only
      rcases privCreate dev.toDevice _ (c.chunk buf codeSize) with ⟨s, _ | w⟩
      · exact hp
      · dsimp only
        rcases memWritepage dev.toDevice (copied w.loc) c.memory w with ⟨m, _ | ⟨w', bytes⟩⟩
        · exact hp
        · exact List.mem_append_left _ hp
    unfold Creation.loop at h
    generalize c.send dev.toDevice copied link buf codeSize = r at h hsend
    obtain ⟨c'', _ | _⟩ := r
    · obtain ⟨rfl, -⟩ := Prod.mk.inj (Option.some.inj h)
      exact hsend
    · dsimp only at h
      by_cases hmore : c''.advance.bw < codeSize
      · rw [if_pos hmore] at h
        exact ih (show p ∈ c''.advance.written from hsend) h
      · rw [if_neg hmore] at h
        obtain ⟨rfl, -⟩ := Prod.mk.inj (Option.some.inj h)
        exact hsend

end Creation

/-! ### The first chunk -/

/-- A chunk with the header of a data file of that size. -/
structure InstallChunk.First (attr : InstallChunk) (codeSize : BitVec 32) : Prop where
  loc : attr.loc = 0
  header : sizeofAppfsFile ≤ attr.nbyte.toNat
  page : attr.nbyte.toNat ≤ 256
  inside : attr.nbyte.toNat ≤ codeSize.toNat
  signature : (AppfsFile.ofBytes attr.buffer).signature = appfsCreateSignature
  size : (AppfsFile.ofBytes attr.buffer).codeSize = codeSize

/-- What is given to the driver for it. -/
def firstPage (attr : InstallChunk) (code : Store.Place) : InstallChunk where
  loc := BitVec.ofNat 32 code.addr
  nbyte := attr.nbyte
  buffer := overwrite attr.buffer 0
    ((createdFile (AppfsFile.ofBytes attr.buffer) (BitVec.ofNat 32 code.addr)).toBytes 0o444 0)

section

variable {dev : FlashDevice} {copied : BitVec 32 → Bool} {link : Bool} {buf : Bytes} {codeSize : BitVec 32}
  {attr : InstallChunk} {s : Session} {m : Memory} {code : Store.Place}

/-- The first chunk is accepted where space is found. -/
theorem privCreate_first (h : attr.First codeSize) (hcode : findFree dev.toDevice s.store codeSize = some code)
    (hend : code.addr + codeSize.toNat < 2 ^ 32) :
    privCreate dev.toDevice s attr = (s.created (AppfsFile.ofBytes attr.buffer) code, some (firstPage attr code)) := by
  have haddr : (BitVec.ofNat 32 code.addr).toNat = code.addr := by
    rw [BitVec.toNat_ofNat, Nat.mod_eq_of_lt (by omega)]
  have hloc : attr.loc + BitVec.ofNat 32 code.addr = BitVec.ofNat 32 code.addr := by
    rw [h.loc]
    exact BitVec.zero_add _
  have hpass : ¬ (s.created (AppfsFile.ofBytes attr.buffer) code).bound .create <
      attr.loc + BitVec.ofNat 32 code.addr + attr.nbyte := by
    have hbound : ((s.created (AppfsFile.ofBytes attr.buffer) code).bound .create).toNat =
        code.addr + codeSize.toNat := by
      unfold Session.bound Session.created
      dsimp only
      rw [BitVec.toNat_add, haddr, h.size, Nat.mod_eq_of_lt hend]
    have hinside := h.inside
    rw [hloc, BitVec.lt_def, hbound, BitVec.toNat_add, haddr, Nat.mod_eq_of_lt (by omega)]
    omega
  have hcode' : findFree dev.toDevice s.store (AppfsFile.ofBytes attr.buffer).codeSize = some code := by
    rw [h.size]
    exact hcode
  rw [privCreate_accepted h.loc h.header h.signature hcode']
  refine (finishCreate_of_pass ?_).trans ?_
  · exact hpass
  · unfold firstPage Session.created
    dsimp only
    rw [hloc]

theorem InstallChunk.First.chunk_init (h : attr.First codeSize) : (Creation.init m s attr).chunk buf codeSize = attr := by
  have hloc := h.loc
  obtain ⟨loc, nbyte, buffer⟩ := attr
  obtain rfl : loc = 0 := hloc
  rfl

/-- Behind the header the bytes stay. -/
theorem buffer_firstPage (attr : InstallChunk) (code : Store.Place) (i : Nat) :
    (firstPage attr code).buffer (sizeofAppfsFile + i) = attr.buffer (sizeofAppfsFile + i) := by
  have hbehind : 0 + ((createdFile (AppfsFile.ofBytes attr.buffer) (BitVec.ofNat 32 code.addr)).toBytes 0o444 0).length ≤
      sizeofAppfsFile + i := by
    rw [AppfsFile.length_toBytes]
    omega
  unfold firstPage
  dsimp only
  rw [Cafs.overwrite_of_lt (.inr hbehind)]

namespace Creation

variable (dev copied link buf s) in
/-- The first chunk is written or not. -/
theorem send_first (h : attr.First codeSize)
    (hcode : findFree dev.toDevice (storeOf dev.toDevice s.store.usage m) codeSize = some code)
    (hlo : 0x3000 ≤ code.addr) (hhi : code.addr + 256 ≤ dev.flashSize) (hend : code.addr + codeSize.toNat < 2 ^ 32) :
    ∃ s' : Session, s'.handle = ⟨BitVec.ofNat 32 code.addr, codeSize, 0, 0, 0⟩ ∧
      (Refused copied m (BitVec.ofNat 32 code.addr) ∧
          (init m s attr).send dev.toDevice copied link buf codeSize = (init m s' attr, false) ∨
        ¬ Refused copied m (BitVec.ofNat 32 code.addr) ∧
          (init m s attr).send dev.toDevice copied link buf codeSize =
            ((init m s attr).wrote link s' attr (firstPage attr code), true)) := by
  have haddr : (firstPage attr code).loc.toNat = code.addr := by
    unfold firstPage
    dsimp only
    rw [BitVec.toNat_ofNat, Nat.mod_eq_of_lt (by omega)]
  have hpriv : privCreate dev.toDevice ((init m s attr).asked dev.toDevice) ((init m s attr).chunk buf codeSize) =
      (((init m s attr).asked dev.toDevice).created (AppfsFile.ofBytes attr.buffer) code, some (firstPage attr code)) := by
    rw [h.chunk_init]
    exact privCreate_first h hcode hend
  refine ⟨((init m s attr).asked dev.toDevice).created (AppfsFile.ofBytes attr.buffer) code, ?_, ?_⟩
  · unfold Session.created
    rw [h.size]
  · have hsend := send_of_some copied link hpriv (by rw [haddr]; exact hlo) (by rw [haddr]; exact hhi)
      h.page
    rw [h.chunk_init] at hsend
    exact hsend

variable (link s m) in
/-- With the first chunk the bytes behind the header are stored. -/
theorem stored_first {s' : Session} (h : attr.First codeSize) (hroom : code.Room dev.toDevice codeSize.toNat)
    (hbuf : ∀ i, sizeofAppfsFile + i < attr.nbyte.toNat → attr.buffer (sizeofAppfsFile + i) = buf i)
    (hhandle : s'.handle = ⟨BitVec.ofNat 32 code.addr, codeSize, 0, 0, 0⟩) :
    ((init m s attr).wrote link s' attr (firstPage attr code)).advance.Stored code codeSize buf attr.nbyte.toNat := by
  have hpos : 0 < codeSize.toNat := Nat.lt_of_lt_of_le (by decide) (h.header.trans h.inside)
  obtain ⟨hfit, hholds⟩ := hroom.holds 0 hpos (Nat.dvd_zero 256)
  have hflash := dev.flash_le
  unfold hwplStartOfSram at hflash
  have haddr : (firstPage attr code).loc.toNat = code.addr := by
    unfold firstPage
    dsimp only
    rw [BitVec.toNat_ofNat, Nat.mod_eq_of_lt (by omega)]
  have hheader := h.header
  have hpage := h.page
  -- the position is behind the chunk
  have hloc : (init m s attr).loc + attr.nbyte = attr.nbyte := by
    unfold init
    exact BitVec.zero_add _
  rw [advance_wrote (by rfl)]
  exact {
    loc := by
      dsimp only
      rw [hloc]
    bw := by
      dsimp only
      rfl
    p := by
      -- the header is not counted
      have hsub : (attr.nbyte - BitVec.ofNat 32 sizeofAppfsFile).toNat = attr.nbyte.toNat - sizeofAppfsFile :=
        BitVec.toNat_sub_of_le (BitVec.le_def.mpr h.header)
      have hzero : ¬ (init m s attr).loc ≠ 0 := not_not.mpr rfl
      have hp : (init m s attr).p = 0 := rfl
      dsimp only
      rw [if_neg hzero, hsub, hp]
      omega
    start := congrArg InstallHandle.codeStart hhandle
    size := congrArg InstallHandle.codeSize hhandle
    contiguous := by
      unfold wrote init
      exact ⟨congrArg BitVec.toNat h.loc, Nat.zero_add _⟩
    inside := by
      intro a n hmem i hi
      obtain ⟨rfl, rfl⟩ := Prod.mk.inj (List.mem_singleton.mp hmem)
      rw [haddr]
      exact hholds i hi
    bytes := by
      intro i hi
      have hmemory : m.store (firstPage attr code).loc.toNat (slice (firstPage attr code).buffer 0 256)
          (code.addr + sizeofAppfsFile + i) = (firstPage attr code).buffer (sizeofAppfsFile + i) := by
        rw [haddr, Nat.add_assoc]
        exact store_slice (by omega)
      exact hmemory.trans ((buffer_firstPage attr code i).trans (hbuf i (by omega))) }

end Creation

variable {name : List UInt8} {nbyte : Nat} {stackFile : AppfsFile} {startup : BitVec 32} {stack : Bytes}

theorem ofBytes_firstAttr :
    AppfsFile.ofBytes (firstAttr name buf nbyte codeSize stackFile startup stack).buffer = sentHeader stackFile name codeSize := by
  refine AppfsFile.ofBytes_toBytes 0o666 startup fun i hi => ?_
  have hlt : 0 + i < sizeofAppfsFile := by
    rw [AppfsFile.length_toBytes] at hi
    omega
  exact (Cafs.overwrite_of_lt (.inl hlt)).trans (Cafs.overwrite_add hi)

theorem firstNbyte_le : firstNbyte nbyte + sizeofAppfsFile ≤ 256 := by
  unfold firstNbyte sizeofAppfsFile
  omega

theorem toNat_nbyte_firstAttr :
    (firstAttr name buf nbyte codeSize stackFile startup stack).nbyte.toNat = firstNbyte nbyte + sizeofAppfsFile := by
  have hle : firstNbyte nbyte + sizeofAppfsFile ≤ 256 := firstNbyte_le
  unfold firstAttr
  dsimp only
  rw [BitVec.toNat_ofNat, Nat.mod_eq_of_lt (by omega)]

theorem first_firstAttr (hsize : nbyte + sizeofAppfsFile = codeSize.toNat) :
    (firstAttr name buf nbyte codeSize stackFile startup stack).First codeSize where
  loc := rfl
  header := by
    rw [toNat_nbyte_firstAttr]
    exact Nat.le_add_left _ _
  page := by
    rw [toNat_nbyte_firstAttr]
    exact firstNbyte_le
  inside := by
    have hfirst : firstNbyte nbyte ≤ nbyte := Nat.min_le_left _ _
    rw [toNat_nbyte_firstAttr]
    omega
  signature := by
    rw [ofBytes_firstAttr]
    rfl
  size := by
    rw [ofBytes_firstAttr]
    rfl

theorem bytes_firstAttr {i : Nat} (hi : i < firstNbyte nbyte) :
    (firstAttr name buf nbyte codeSize stackFile startup stack).buffer (sizeofAppfsFile + i) = buf i := by
  have hlen : i < (slice buf 0 (firstNbyte nbyte)).length := by rwa [Cafs.length_slice]
  calc (firstAttr name buf nbyte codeSize stackFile startup stack).buffer (sizeofAppfsFile + i)
    _ = (slice buf 0 (firstNbyte nbyte))[i] := Cafs.overwrite_add hlen
    _ = buf i := by rw [Cafs.getElem_slice, Nat.zero_add]

end

section

variable {dev : FlashDevice} {copied : BitVec 32 → Bool} {link : Bool} {buf : Bytes} {nbyte fuel : Nat}
  {attr : InstallChunk} {s : Session} {m : Memory}

theorem toNat_codeSizeOf (hn : nbyte < 2 ^ 31) : (codeSizeOf nbyte).toNat = nbyte + sizeofAppfsFile := by
  unfold codeSizeOf
  rw [BitVec.toNat_add, BitVec.toNat_ofNat, BitVec.toNat_ofNat]
  unfold sizeofAppfsFile
  omega

/-- Where nothing is written there is nothing to show. -/
theorem exact_init (s' : Session) : (Creation.init m s' attr).Exact dev.toDevice buf nbyte s m false where
  inside _ _ hmem := nomatch hmem
  contiguous := by exact nofun
  stored := by exact nofun

theorem Creation.Stored.exact {c : Creation} {code : Store.Place} (hn : nbyte < 2 ^ 31)
    (hcode : spaceFor dev.toDevice nbyte s m = some code)
    (h : c.Stored code (codeSizeOf nbyte) buf (codeSizeOf nbyte).toNat) : c.Exact dev.toDevice buf nbyte s m true := by
  have hsize := toNat_codeSizeOf hn
  refine ⟨fun a n hmem i hi => ⟨code, hcode, h.inside a n hmem i hi⟩, fun _ => ?_, fun _ => ⟨code, hcode, fun i hi => ?_⟩⟩
  · have hcontiguous := h.contiguous
    rwa [hsize, Nat.add_comm nbyte] at hcontiguous
  · exact h.bytes i (by omega)

/-- Where no space is found the first chunk is refused. -/
theorem exists_exact_of_none (h : attr.First (codeSizeOf nbyte)) (hcode : spaceFor dev.toDevice nbyte s m = none) :
    ∃ c ok, (Creation.init m s attr).loop dev.toDevice copied link buf (codeSizeOf nbyte) (fuel + 1) = some (c, ok) ∧
      c.Exact dev.toDevice buf nbyte s m ok := by
  have hnone : (privCreate dev.toDevice ((Creation.init m s attr).asked dev.toDevice)
      ((Creation.init m s attr).chunk buf (codeSizeOf nbyte))).2 = none := by
    rw [h.chunk_init]
    rcases privCreate_header dev.toDevice ((Creation.init m s attr).asked dev.toDevice) h.loc with
      hnone | ⟨-, -, code, hsome⟩
    · exact hnone
    · rw [h.size] at hsome
      exact nomatch hcode.symm.trans hsome
  obtain ⟨s', hsend⟩ := Creation.send_of_none copied link hnone
  unfold Creation.loop
  rw [hsend]
  exact ⟨_, _, rfl, exact_init s'⟩

/-- A file of less than 2 GiB is stored as it should be. -/
theorem exists_exact (hn : nbyte + sizeofAppfsFile < 2 ^ 31) (h : attr.First (codeSizeOf nbyte))
    (hnbyte : attr.nbyte.toNat = firstNbyte nbyte + sizeofAppfsFile)
    (hbuf : ∀ i < firstNbyte nbyte, attr.buffer (sizeofAppfsFile + i) = buf i)
    (hfuel : (codeSizeOf nbyte).toNat ≤ fuel) :
    ∃ c ok, (Creation.init m s attr).loop dev.toDevice copied link buf (codeSizeOf nbyte) (fuel + 1) = some (c, ok) ∧
      c.Exact dev.toDevice buf nbyte s m ok := by
  have hsize : (codeSizeOf nbyte).toNat = nbyte + sizeofAppfsFile := toNat_codeSizeOf (by omega)
  cases hcode : spaceFor dev.toDevice nbyte s m with
  | none => exact exists_exact_of_none h hcode
  | some code =>
    unfold Creation.loop
    have hroom : code.Room dev.toDevice (codeSizeOf nbyte).toNat := room_of_findFree (by omega) hcode
    have hpos : 0 < (codeSizeOf nbyte).toNat := by
      rw [hsize]
      unfold sizeofAppfsFile
      omega
    have hfit := (hroom.holds 0 hpos (Nat.dvd_zero 256)).1
    have hflash := dev.flash_le
    unfold hwplStartOfSram at hflash
    obtain ⟨s', hhandle, ⟨-, hsend⟩ | ⟨-, hsend⟩⟩ := Creation.send_first dev copied link buf s (m := m) h hcode hroom.addr_ge
      (by omega) (by omega)
    · rw [hsend]
      exact ⟨_, _, rfl, exact_init s'⟩
    rw [hsend]
    dsimp only
    have hstored := Creation.stored_first link s m h hroom
      (fun i hi => hbuf i (by omega)) hhandle
    generalize (Creation.wrote _ link s' attr (firstPage attr code)).advance = c at hstored ⊢
    by_cases hmore : c.bw < codeSizeOf nbyte
    · have hlt : attr.nbyte.toNat < (codeSizeOf nbyte).toNat := by
        rw [hstored.bw, BitVec.lt_def, hstored.loc] at hmore
        exact hmore
      -- the first chunk is a whole page
      have hpage : attr.nbyte.toNat = 256 := by
        unfold firstNbyte at hnbyte
        unfold sizeofAppfsFile at *
        omega
      rw [if_pos hmore]
      rw [hpage] at hstored hlt
      obtain ⟨c', ok, hloop, hinside, hend⟩ := hstored.loop copied link fuel hroom (by omega)
        (by decide) (Nat.dvd_refl 256) hlt (by omega)
      refine ⟨c', ok, hloop, ?_⟩
      cases ok with
      | true => exact (hend rfl).exact (by omega) hcode
      | false => exact ⟨fun a n hmem i hi => ⟨code, hcode, hinside a n hmem i hi⟩, by exact nofun, by exact nofun⟩
    · have hend : attr.nbyte.toNat = (codeSizeOf nbyte).toNat := by
        rw [hstored.bw, BitVec.lt_def, hstored.loc] at hmore
        exact le_antisymm h.inside (Nat.le_of_not_lt hmore)
      rw [if_neg hmore]
      rw [hend] at hstored
      exact ⟨_, _, rfl, hstored.exact (by omega) hcode⟩

/-- For a file of 2 GiB the first chunk is written or not, and nothing was found free. -/
theorem exists_exact_iff_of_neg (hn : nbyte < 2 ^ 31) (hneg : 2 ^ 31 ≤ nbyte + sizeofAppfsFile)
    (h : attr.First (codeSizeOf nbyte)) :
    (∃ c ok, (Creation.init m s attr).loop dev.toDevice copied link buf (codeSizeOf nbyte) (fuel + 1) = some (c, ok) ∧
      c.Exact dev.toDevice buf nbyte s m ok) ↔ FirstRefused dev.toDevice copied m := by
  have hsize : (codeSizeOf nbyte).toNat = nbyte + sizeofAppfsFile := toNat_codeSizeOf hn
  have hint : (codeSizeOf nbyte).toInt < 0 := by
    rw [BitVec.toInt_eq_toNat_cond, if_neg (by omega)]
    have := (codeSizeOf nbyte).isLt
    omega
  have hfree : spaceFor dev.toDevice nbyte s m = _ := findFree_of_neg hint
  unfold FirstRefused
  cases hinfo : dev.memGetpageinfo .flash hwplLastBootloaderPage with
  | none =>
    rw [hinfo] at hfree
    exact iff_of_true (exists_exact_of_none h hfree) (.inl rfl)
  | some info =>
    unfold Device.memGetpageinfo at hinfo
    dsimp only at hinfo
    split_ifs at hinfo with hend
    obtain rfl := Option.some.inj hinfo
    have hcode : spaceFor dev.toDevice nbyte s m = some ⟨hwplLastBootloaderPage, 0x3000, []⟩ := by
      rw [hfree]
      unfold Device.memGetpageinfo
      dsimp only
      rw [if_neg hend]
      rfl
    -- the two pages in front of the file fit
    have hfit : 0x3000 + 0x1000 ≤ dev.flashSize := Nat.le_of_not_lt hend
    unfold sizeofAppfsFile at hsize
    obtain ⟨s', -, ⟨hrefused, hsend⟩ | ⟨hwritten, hsend⟩⟩ := Creation.send_first dev copied link buf s (m := m) h hcode
      (Nat.le_refl _) (by dsimp only; omega) (by dsimp only; omega)
    · refine iff_of_true ?_ (.inr hrefused)
      unfold Creation.loop
      rw [hsend]
      exact ⟨_, _, rfl, exact_init s'⟩
    · refine iff_of_false ?_ fun hrefused => ?_
      -- a page that was written would have to be one of the pages found, and there are none
      · rintro ⟨c, ok, hloop, hexact⟩
        have hmem : (0x3000, 256) ∈ c.written := by
          unfold Creation.loop at hloop
          rw [hsend] at hloop
          dsimp only at hloop
          split_ifs at hloop
          · exact Creation.loop_written (List.mem_singleton_self _) hloop
          · obtain ⟨rfl, -⟩ := Prod.mk.inj (Option.some.inj hloop)
            exact List.mem_singleton_self _
        obtain ⟨code, hfound, page, hpage, -⟩ := hexact.inside _ _ hmem 0 (by decide)
        obtain rfl := Option.some.inj (hcode.symm.trans hfound)
        exact nomatch hpage
      · rcases hrefused with hnone | hrefused
        · exact nomatch hnone
        · exact hwritten hrefused

end

/-- The file is stored as it should be exactly if its path fits the buffer and, where its size is negative as an `int`,
nothing is written at all. -/
theorem create_iff (dev : FlashDevice) (copied : BitVec 32 → Bool) (link opened : Bool) (mount name : List UInt8)
    (buf : Bytes) (nbyte : Nat) (stackFile : AppfsFile) (startup : BitVec 32) (stack : Bytes) (session : Session) (m : Memory)
    (hn : nbyte < 2 ^ 31) :
    (∃ c ok, appfsCreate dev.toDevice copied link opened mount name buf nbyte stackFile startup stack session m = some (c, ok) ∧
        c.Exact dev.toDevice buf nbyte session m ok) ↔
      mount.length + 7 + name.length + 1 ≤ linkPathMax ∧
        (nbyte + sizeofAppfsFile < 2 ^ 31 ∨ opened = false ∨ FirstRefused dev.toDevice copied m) := by
  unfold appfsCreate
  by_cases hpath : linkPathMax < mount.length + 7 + name.length + 1
  · rw [if_pos hpath]
    exact iff_of_false (fun ⟨_, _, h, _⟩ => nomatch h) fun h => absurd h.1 (Nat.not_le_of_lt hpath)
  rw [if_neg hpath, and_iff_right (Nat.le_of_not_lt hpath)]
  dsimp only
  cases opened with
  | false => exact iff_of_true ⟨_, _, rfl, exact_init session⟩ (.inr (.inl rfl))
  | true =>
    rw [if_pos rfl]
    by_cases hsmall : nbyte + sizeofAppfsFile < 2 ^ 31
    · refine iff_of_true ?_ (.inl hsmall)
      exact exists_exact hsmall (first_firstAttr (toNat_codeSizeOf hn).symm) toNat_nbyte_firstAttr
        (fun i hi => bytes_firstAttr hi) le_rfl
    · rw [or_iff_right hsmall, or_iff_right Bool.true_eq_false_eq_False]
      exact exists_exact_iff_of_neg hn (Nat.le_of_not_lt hsmall) (first_firstAttr (toNat_codeSizeOf hn).symm)

/-- A device with its flash, and the memory when nothing was written yet. -/
def smallFlashDevice : FlashDevice := ⟨smallDevice, by decide⟩

def blankMemory : Memory := fun _ => 0xFF

/-- A file of 300 bytes takes two chunks. -/
theorem create_iff_threeHundred :
    (∃ c ok, appfsCreate smallDevice (fun _ => true) false true [0x2F] [0x61] (fun _ => 0x55) 300 dataImage 0 (fun _ => 0)
        freshSession blankMemory = some (c, ok) ∧
      c.Exact smallDevice (fun _ => 0x55) 300 freshSession blankMemory ok) :=
  (create_iff smallFlashDevice (fun _ => true) false true [0x2F] [0x61] (fun _ => 0x55) 300 dataImage 0 (fun _ => 0) freshSession
    blankMemory (by decide)).mpr ⟨by decide, .inl (by decide)⟩

/-- For a size that is negative as an `int` the first chunk is written to a page that was not looked at. -/
theorem not_creates : ¬ ∀ (dev : FlashDevice) (copied : BitVec 32 → Bool) (link opened : Bool) (mount name : List UInt8)
    (buf : Bytes) (nbyte : Nat) (stackFile : AppfsFile) (startup : BitVec 32) (stack : Bytes) (session : Session) (m : Memory),
    nbyte < 2 ^ 31 →
      ∃ c ok, appfsCreate dev.toDevice copied link opened mount name buf nbyte stackFile startup stack session m = some (c, ok) ∧
        c.Exact dev.toDevice buf nbyte session m ok := by
  intro h
  obtain ⟨nbyte, hn, hneg⟩ : ∃ nbyte, nbyte < 2 ^ 31 ∧ 2 ^ 31 ≤ nbyte + sizeofAppfsFile :=
    ⟨2 ^ 31 - 60, by decide, by decide⟩
  have hexact := h smallFlashDevice (fun _ => true) false true [0x2F] [0x61] (fun _ => 0x55) nbyte dataImage 0 (fun _ => 0)
    freshSession blankMemory hn
  unfold appfsCreate at hexact
  rw [if_neg (by decide), if_pos rfl] at hexact
  have hrefused : FirstRefused smallDevice (fun _ => true) blankMemory :=
    (exists_exact_iff_of_neg hn hneg (first_firstAttr (toNat_codeSizeOf hn).symm)).mp hexact
  rcases hrefused with hnone | hblank | hcopied
  · exact absurd hnone (by decide)
  · rw [Bootloader.blankCheck_iff.mpr fun _ _ => rfl] at hblank
    exact nomatch hblank
  · exact nomatch hcopied

end Appfs

end CoActionOS
