import CoActionOS.Appfs.Memory
import CoActionOS.Errno

/-!
# Installing and unlinking applications

`appfs_util_priv_writeinstall` for the first part of an image, which brings the header: it looks for memory for the code
and for the data, marks what it takes of RAM in the usage table and writes the header.  `appfs_unlink` looks a header up
by its name and frees what it says.

What the memory driver answers to a write and which pages it erases are inputs.
-/

namespace CoActionOS

namespace Appfs

open UsageTable
open Hwpl (mpuGetnextpowerof2)

def appfsExecOptionsFlash : BitVec 32 := 1
def appfsCreateSignature : BitVec 32 := 0x12345678
def appfsRewriteMask : BitVec 32 := 0xFF000000
def appfsRewriteRamMask : BitVec 32 := 0x00800000
def appfsRewriteKernelAddr : BitVec 32 := 0x00FF8000
def appfsRewriteKernelAddrMask : BitVec 32 := 0x7FFF

/-- `sizeof(appfs_file_t)` -/
def sizeofAppfsFile : Nat := 60

/-- The usage table, and for each page the header that its first bytes make up. -/
structure Store where
  usage : UsageTable
  files : MemType → Nat → AppfsFile

variable (dev : Device) (s : Store)

namespace Store

def appfsUtilGetpagetype (type : MemType) (page : Nat) : Option (BitVec 32) :=
  match type with
  | .flash => some (appfsUtilGetflashpagetype (s.files .flash page).name)
  | .ram => s.usage.appfsRamGetusage page

/-! ### Searching -/

def findProtectableAddr (type : MemType) (size : BitVec 32) : Nat → Nat → Option (Nat × Nat)
  | 0, _ => none
  | fuel + 1, i =>
    match dev.memGetpageinfo type i with
    | none => none
    | some (addr, _) =>
      if mpuCalcRegion (BitVec.ofNat 32 addr) size then some (i, addr)
      else findProtectableAddr type size fuel (i + 1)

/-- The loop of `check_for_free_space`; `last` is the address behind the last page.  The result 0 comes with the pages
that were found free. -/
def checkForFreeSpaceLoop (type : MemType) (size : Int) : Nat → Option Nat → Nat → Int → Option (List Nat)
  | 0, _, _, _ => some []
  | fuel + 1, last, num, freeSize =>
    if freeSize < size then
      match dev.memGetpageinfo type num with
      -- the address stays that of the last page, so the memory does not look contiguous
      | none => none
      | some (addr, pageSize) =>
        if last.any (· ≠ addr) then none
        else if s.appfsUtilGetpagetype type num = some appfsMempagetypeFree then
          (checkForFreeSpaceLoop type size fuel (some (addr + pageSize)) (num + 1) (freeSize + pageSize)).map (num :: ·)
        else none
    else some []

def checkForFreeSpace (startPage : Nat) (type : MemType) (size : BitVec 32) : Option (List Nat) :=
  s.checkForFreeSpaceLoop dev type size.toInt size.toInt.toNat none startPage 0

/-- A place that was found: the page, its address and the free pages of the check. -/
structure Place where
  page : Nat
  addr : Nat
  free : List Nat
  deriving DecidableEq

def findProtectableFreeLoop (type : MemType) (size : BitVec 32) : Nat → Nat → Option Place
  | 0, _ => none
  | fuel + 1, page =>
    match findProtectableAddr dev type size (dev.pageBound type) page with
    | none => none
    | some (page, addr) =>
      match s.checkForFreeSpace dev page type size with
      | some free => some ⟨page, addr, free⟩
      | none => findProtectableFreeLoop type size fuel (page + 1)

def findProtectableFree (type : MemType) (size : BitVec 32) : Option Place :=
  s.findProtectableFreeLoop dev type size (dev.pageBound type) 0

/-! ### Installing -/

end Store

/-- The table begins with the signature of the kernel; `symbols` are the addresses behind it. -/
def symbolsTable (symbols : List (BitVec 32)) : List (BitVec 32) := 0x00000132 :: symbols

/-- The value and whether `errno` is set to `ENOEXEC`. -/
def translateValue (symbols : List (BitVec 32)) (addr mask codeStart dataStart : BitVec 32) : BitVec 32 × Bool :=
  if addr &&& appfsRewriteMask = mask then
    let ret := addr &&& ~~~(appfsRewriteMask ||| appfsRewriteRamMask)
    if addr &&& appfsRewriteKernelAddr = appfsRewriteKernelAddr then
      match ((symbolsTable symbols).takeWhile (· ≠ 0))[((addr &&& appfsRewriteKernelAddrMask) >>> 2).toNat]? with
      | some value => (value, value == 0)
      | none => (0, true)
    else if addr &&& appfsRewriteRamMask ≠ 0 then (ret ||| dataStart, false)
    else (ret ||| codeStart, false)
  else (addr, false)

/-- The first part of an image: its length, the header and the words behind it. -/
structure InstallAttr where
  nbyte : Nat
  file : AppfsFile
  words : List (BitVec 32)

namespace InstallAttr

variable (attr : InstallAttr)

def type : MemType := if attr.file.options &&& appfsExecOptionsFlash ≠ 0 then .flash else .ram

/-- Code and initialized data. -/
def codeSize : BitVec 32 := attr.file.codeSize + attr.file.dataSize

/-- The header that is written. -/
def dest (code data : Store.Place) : AppfsFile :=
  { attr.file with
    name := finishName attr.file.name
    codeStart := BitVec.ofNat 32 code.addr
    ramStart := BitVec.ofNat 32 data.addr }

/-- A word behind the header is a symbol that the kernel does not have. -/
def unresolved (symbols : List (BitVec 32)) (code data : Store.Place) : Bool :=
  attr.words.any fun w =>
    let r := translateValue symbols w (attr.file.codeStart &&& appfsRewriteMask) (BitVec.ofNat 32 code.addr)
      (BitVec.ofNat 32 data.addr)
    r.1 == 0 && r.2

/-- The part reaches behind the code and the data. -/
def tooLong (code : Store.Place) : Bool :=
  decide (BitVec.ofNat 32 code.addr + attr.codeSize + attr.file.dataSize < BitVec.ofNat 32 (code.addr + attr.nbyte))

end InstallAttr

namespace Store

/-- For an application in RAM the code is marked, its first page as the one with the header. -/
def markCode (attr : InstallAttr) (code : Place) : Store :=
  match attr.type with
  | .flash => s
  | .ram =>
    { s with
      usage := (s.usage.appfsRamSetrange code.page attr.codeSize appfsMempagetypeSys).appfsRamSetrange code.page
        (BitVec.ofNat 32 deviceRamPageSize) appfsMempagetypeUser }

def markData (attr : InstallAttr) (data : Place) : Store :=
  { s with usage := s.usage.appfsRamSetrange data.page attr.file.ramSize appfsMempagetypeSys }

def writeHeader (type : MemType) (page : Nat) (file : AppfsFile) : Store :=
  { s with files := Function.update s.files type (Function.update (s.files type) page file) }

/-- `appfs_util_priv_writeinstall` at `loc` 0.  `io` is what the driver answers to the write, `none` if it is done. -/
def install (symbols : List (BitVec 32)) (attr : InstallAttr) (io : Option Errno) :
    Store × Except Errno (Place × Place) :=
  if attr.nbyte < sizeofAppfsFile then (s, .error .enotsup)
  else if some attr.file.signature ≠ (symbolsTable symbols)[0]? then (s, .error .enoexec)
  else
    match s.findProtectableFree dev attr.type attr.codeSize with
    | none => (s, .error .enospc)
    | some code =>
      let s := s.markCode attr code
      match s.findProtectableFree dev .ram attr.file.ramSize with
      | none => (s, .error .enospc)
      | some data =>
        let s := s.markData attr data
        if attr.unresolved symbols code data then (s, .error .enoexec)
        else if attr.tooLong code then (s, .error .einval)
        else
          match io with
          | some e => (s, .error e)
          | none => (s.writeHeader attr.type code.page (attr.dest code data), .ok (code, data))

/-! ### Unlinking -/

end Store

def htoc (nibble : Nat) : UInt8 := if nibble < 10 then UInt8.ofNat (nibble + 0x30) else UInt8.ofNat (nibble + 0x41 - 10)

def htoa (num : Nat) : List UInt8 := (List.range 8).map fun i => htoc (num / 16 ^ (7 - i) % 16)

/-- `".sys"` and `".free"` -/
def sysPrefix : List UInt8 := [0x2E, 0x73, 0x79, 0x73]
def freePrefix : List UInt8 := [0x2E, 0x66, 0x72, 0x65, 0x65]

def isSys (name : List UInt8) : Bool := sysPrefix.isPrefixOf name
def isFree (name : List UInt8) : Bool := freePrefix.isPrefixOf name

namespace Store

/-- The name of a page: that of its header, if it is the first of a file. -/
def getHdrinfo (type : MemType) (page : Nat) (pageType : BitVec 32) : List UInt8 :=
  if pageType = appfsMempagetypeSys then sysPrefix ++ htoa page
  else if pageType = appfsMempagetypeFree then freePrefix ++ htoa page
  else cstr (s.files type page).name.toList

/-- The page of the file of that name. -/
def appfsUtilLookupname (path : List UInt8) (type : MemType) : Nat → Nat → Option Nat
  | 0, _ => none
  | fuel + 1, i =>
    match dev.memGetpageinfo type i, s.appfsUtilGetpagetype type i with
    | some _, some pageType =>
      if path = s.getHdrinfo type i pageType then some i else appfsUtilLookupname path type fuel (i + 1)
    | _, _ => none

/-- How far the pages are to be erased. -/
def endPageLoop (total : Nat) : Nat → Nat → Nat → Option Nat
  | 0, _, _ => none
  | fuel + 1, sizeDeleted, num =>
    if sizeDeleted < total then
      match dev.memGetpageinfo .flash num with
      | none => none
      | some (_, size) => endPageLoop total fuel (sizeDeleted + size) (num + 1)
    else some num

/-- `erased` tells which of the pages the driver erases, and what then is at their start. -/
def appfsUtilErasepages (startPage endPage : Nat) (erased : Nat → Option AppfsFile) : Store :=
  { s with
    files := Function.update s.files .flash fun page =>
      if startPage ≤ page ∧ page ≤ endPage then (erased page).getD (s.files .flash page) else s.files .flash page }

def appfsRamSetusage (page : Nat) (size : BitVec 32) : Store :=
  { s with usage := s.usage.appfsRamSetrange page size appfsMempagetypeFree }

/-- The last part of `appfs_unlink`: the data of an application.  What the memory driver refuses comes without an error
number. -/
def unlinkData (file : AppfsFile) : Store × Except (Option Errno) Unit :=
  if file.signature ≠ appfsCreateSignature then
    match dev.memQuery file.ramStart.toNat with
    | none => (s, .error none)
    | some page => (s.appfsRamSetusage page file.ramSize, .ok ())
  else (s, .ok ())

/-- `appfs_unlink` for a name and the memory that the path leads to. -/
def unlink (type : MemType) (name : List UInt8) (erased : Nat → Option AppfsFile) :
    Store × Except (Option Errno) Unit :=
  if isSys name || isFree name then (s, .error (some .enotsup))
  else
    match s.appfsUtilLookupname dev name type (dev.pageBound type) 0 with
    | none => (s, .error (some .enoent))
    | some page =>
      let file := s.files type page
      let size := file.codeSize + file.dataSize
      match type with
      | .flash =>
        match endPageLoop dev size.toNat (dev.pageBound .flash + 1) (Device.getFlashPageSize page) page with
        | none => (s, .error none)
        | some endPage => (s.appfsUtilErasepages page endPage erased).unlinkData dev file
      | .ram => (s.appfsRamSetusage page (mpuGetnextpowerof2 size)).unlinkData dev file

end Store

end Appfs

end CoActionOS
