import CoActionOS.Lib.Flash
import CoActionOS.Lib.Cmd

/-!
# The device under the file system

`clDevWrite` programs the flash and compares what it reads back, as `cl_dev_write` does.  Every
write, every erase and every allocation that fails is also recorded, the newest first: `Event.write`
keeps the bytes that were there before.  A device call past the end of the device, or while `open_file->fs` is `NULL`, fails
and does nothing.

Multi-byte fields are little-endian.
-/

namespace CoActionOS.Cafs

/-- Offsets in a buffer to its bytes. -/
abbrev Bytes := Nat → UInt8

/-! ### Constants of `cafs_lite_local.h` -/

abbrev scratchEntries : Nat := 30
abbrev blockSize : Nat := 128
abbrev blockInvalid : Nat := 0xFFFF
abbrev serialnoInvalid : Nat := 0xFFFFFFFF
abbrev segmentInvalid : Nat := 0xFFFF
abbrev firstBlock : Nat := 1
abbrev clSerialnoList : Nat := 0

/-- `sizeof(cl_block_hdr_t)` -/
abbrev blockHeaderSize : Nat := 6

abbrev blockDataSize : Nat := blockSize - blockHeaderSize

namespace BlockStatus
abbrev free : UInt8 := 0xFF
abbrev opened : UInt8 := 0xFE
abbrev closed : UInt8 := 0xFC
abbrev dirty : UInt8 := 0x00
end BlockStatus

/-- `BLOCK_TYPE_LINKED_LIST_FLAG` -/
abbrev linkedListFlag : UInt8 := 0x40

namespace BlockType
abbrev serialnoList : UInt8 := 0x80
abbrev fileHdr : UInt8 := 0x04
abbrev fileList : UInt8 := 0x85
abbrev fileData : UInt8 := 0x06
end BlockType

/-! ### Fields -/

def le16 (n : Nat) : List UInt8 := [UInt8.ofNat n, UInt8.ofNat (n / 256)]

def le32 (n : Nat) : List UInt8 :=
  [UInt8.ofNat n, UInt8.ofNat (n / 256), UInt8.ofNat (n / 65536), UInt8.ofNat (n / 16777216)]

def u16 (d : Bytes) (o : Nat) : Nat := (d o).toNat + 256 * (d (o + 1)).toNat

def u32 (d : Bytes) (o : Nat) : Nat := u16 d o + 65536 * u16 d (o + 2)

def slice (d : Bytes) (o n : Nat) : List UInt8 := (List.range n).map fun i => d (o + i)

/-- Copy `src` into `d` at `offset`. -/
def overwrite (d : Bytes) (offset : Nat) (src : List UInt8) : Bytes := fun i =>
  if offset ≤ i ∧ i < offset + src.length then src.getD (i - offset) 0 else d i

/-! ### Geometry and state -/

structure Geometry where
  /-- `cl_block_geteraseable`: the blocks of an erase section -/
  eraseable : Nat
  /-- the erase sections in front of the scratch area -/
  sections : Nat
  scratch_fits : 31 ≤ eraseable
  sections_pos : 1 ≤ sections
  addressable : (sections + 1) * eraseable ≤ 65535

namespace Geometry

variable (g : Geometry)

/-- `cl_block_gettotal` -/
def total : Nat := g.sections * g.eraseable

/-- `cl_dev_getsize` -/
def size : Nat := (g.sections + 1) * g.eraseable * blockSize

end Geometry

/-- More steps than any loop over the list blocks or the items of a device takes, unless it runs
round a cycle for ever. -/
def loopFuel : Nat := 16 * 65536

inductive Event
  | write (loc : Nat) (old new : List UInt8)
  | erase (loc n : Nat)
  /-- `cl_block_alloc` has not found a block -/
  | refused
  deriving DecidableEq, Repr

structure St where
  flash : Flash
  /-- `state->list_block` -/
  listBlock : Nat
  /-- `state->serialno` -/
  serialno : Nat
  /-- `open_file->fs` is not `NULL` -/
  up : Bool
  log : List Event

variable (g : Geometry)

namespace St

variable (s : St)

/-- Program `buf` at `loc`. -/
def put (loc : Nat) (buf : List UInt8) : St :=
  { s with
    flash := s.flash.program loc buf
    log := .write loc (slice s.flash.get loc buf.length) buf :: s.log }

def wipe (loc n : Nat) : St :=
  { s with
    flash := s.flash.erase loc n
    log := .erase loc n :: s.log }

def refuse : St := { s with log := .refused :: s.log }

/-- A device call at these bytes is carried out. -/
def reaches (loc n : Nat) : Bool := s.up && decide (loc + n ≤ g.size)

end St

def clDevRead (loc n : Nat) : Cmd St Bytes := fun s =>
  if s.reaches g loc n then .ok (fun i => if i < n then s.flash.get (loc + i) else 0) s
  else .error s

def clDevWrite (loc : Nat) (buf : List UInt8) : Cmd St Unit := fun s =>
  if s.reaches g loc buf.length then
    if slice (s.put loc buf).flash.get loc buf.length = buf then .ok () (s.put loc buf)
    else .error (s.put loc buf)
  else .error s

/-- Erases the section around `loc`. -/
def clDevErasesection (loc : Nat) : Cmd St Unit := fun s =>
  if s.reaches g loc 1 then
    .ok () (s.wipe (loc / (g.eraseable * blockSize) * (g.eraseable * blockSize))
      (g.eraseable * blockSize))
  else .error s

def clDevErase : Cmd St Unit := fun s =>
  if s.up then .ok () (s.wipe 0 g.size) else .error s

def clDevSetlistBlock (b : Nat) : Cmd St Unit := .modify fun s => { s with listBlock := b }

def clDevSetserialno (sn : Nat) : Cmd St Unit := .modify fun s => { s with serialno := sn }

/-! ### Blocks -/

/-- `cl_block_hdr_t` -/
structure BlockHdr where
  serialno : Nat
  type : UInt8
  status : UInt8
  deriving DecidableEq, Repr

namespace BlockHdr

def ofBytes (d : Bytes) : BlockHdr := ⟨u32 d 0, d 4, d 5⟩

def toBytes (h : BlockHdr) : List UInt8 := le32 h.serialno ++ [h.type, h.status]

end BlockHdr

/-- `get_cl_block_addr` -/
abbrev blockAddr (b : Nat) : Nat := blockSize * b

def clBlockLoadhdr (b : Nat) : Cmd St BlockHdr :=
  if b = blockInvalid then .fail
  else do
    let d ← clDevRead g (blockAddr b) blockHeaderSize
    return .ofBytes d

def clBlockLoad (b : Nat) : Cmd St Bytes :=
  if b = blockInvalid then .fail else clDevRead g (blockAddr b) blockSize

def clBlockSetstatus (b : Nat) (status : UInt8) : Cmd St Unit :=
  if b = blockInvalid then .fail else clDevWrite g (blockAddr b + 5) [status]

def clBlockDiscard (b : Nat) : Cmd St Unit := clBlockSetstatus g b BlockStatus.dirty

def clBlockClose (b : Nat) : Cmd St Unit := clBlockSetstatus g b BlockStatus.closed

/-- The header up to the status is written by `mark_allocated`. -/
def clBlockSave (b : Nat) (data : Bytes) : Cmd St Unit :=
  if b = blockInvalid then .fail
  else clDevWrite g (blockAddr b + 5) (BlockStatus.opened :: slice data 0 blockDataSize)

def clBlockSaveraw (b : Nat) (raw : Bytes) : Cmd St Unit :=
  clDevWrite g (blockAddr b) (slice raw 0 blockSize)

def markAllocated (b sn : Nat) (type : UInt8) : Cmd St Unit :=
  clDevWrite g (blockAddr b) (BlockHdr.toBytes ⟨sn, type, BlockStatus.opened⟩)

end CoActionOS.Cafs
