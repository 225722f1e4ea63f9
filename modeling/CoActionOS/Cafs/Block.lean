import CoActionOS.Cafs.Device
import Mathlib.Data.UInt

/-!
# Block allocation and the scratch area

`allocBlock` looks for a block that is free and marks it; its searches only read headers, so they
are functions of `hdrAt`, with the outer `none` for a header that cannot be read.  When no block is
free, `clBlockAlloc` reclaims sections (`eraseDirtyBlocks`): the blocks in use are copied to the
scratch area behind the last section, the section is erased, and they are copied back to where they
were.

The scratch area starts with a table of `SCRATCH_ENTRIES` entries of four bytes, which are followed
by the copies.
-/

namespace CoActionOS.Cafs

variable (g : Geometry)

/-! ### Finding a free block -/

def hdrAt (s : St) (b : Nat) : Option BlockHdr :=
  if s.reaches g (blockAddr b) blockHeaderSize then
    some (.ofBytes fun i => s.flash.get (blockAddr b + i))
  else none

/-- The first free block of the `n` blocks from `i` on. -/
def findFree (hdr : Nat → Option BlockHdr) : Nat → Nat → Option (Option Nat)
  | 0, _ => some none
  | n + 1, i =>
    match hdr i with
    | none => none
    | some h => if h.status = BlockStatus.free then some (some i) else findFree hdr n (i + 1)

/-- The same, but only up to the first block that another serial number uses. -/
def findFreeOf (hdr : Nat → Option BlockHdr) (sn : Nat) : Nat → Nat → Option (Option Nat)
  | 0, _ => some none
  | n + 1, i =>
    match hdr i with
    | none => none
    | some h =>
      if h.status = BlockStatus.closed ∨ h.status = BlockStatus.opened then
        if h.serialno ≠ sn then some none else findFreeOf hdr sn n (i + 1)
      else if h.status = BlockStatus.free then some (some i)
      else findFreeOf hdr sn n (i + 1)

/-- `findFreeOf` in the windows of an erase section's length that start at `i`, below the total. -/
def findWindow (hdr : Nat → Option BlockHdr) (sn : Nat) : Nat → Nat → Option (Option Nat)
  | 0, _ => some none
  | n + 1, i =>
    if i < g.total then
      match findFreeOf hdr sn g.eraseable i with
      | none => none
      | some (some b) => some (some b)
      | some none => findWindow hdr sn n (i + g.eraseable)
    else some none

/-- Try the second search when the first one has found nothing. -/
def orSearch (r : Option (Option Nat)) (r' : Option (Option Nat)) : Option (Option Nat) :=
  match r with
  | some none => r'
  | _ => r

/-- The searches of `alloc_block`. -/
def searchBlock (hdr : Nat → Option BlockHdr) (sn hint : Nat) : Option (Option Nat) :=
  let hint := if hint < firstBlock then firstBlock else hint
  let anywhere := findFree hdr (g.total - firstBlock) firstBlock
  if hint ≠ blockInvalid then
    let next := g.eraseable - hint % g.eraseable + hint
    orSearch (findFree hdr (next - (hint + 1)) (hint + 1))
      (orSearch (findWindow g hdr sn (g.sections + 1) next) anywhere)
  else orSearch (findWindow g hdr sn (g.sections + 1) firstBlock) anywhere

def allocBlock (sn hint : Nat) (type : UInt8) : Cmd St Nat := do
  match ← .read fun s => searchBlock g (hdrAt g s) sn hint with
  | some (some b) => do
    markAllocated g b sn type
    return b
  | _ => .fail

/-! ### The scratch area -/

namespace ScratchStatus
abbrev unused : UInt8 := 0xFF
abbrev copied : UInt8 := 0xFC
end ScratchStatus

/-- `cl_scratch_entry_t` -/
structure ScratchEntry where
  status : UInt8
  originalBlock : Nat
  checksum : UInt8
  deriving DecidableEq, Repr

namespace ScratchEntry

def ofBytes (d : Bytes) : ScratchEntry := ⟨d 0, u16 d 1, d 3⟩

/-- The bytes in front of the checksum. -/
def body (e : ScratchEntry) : List UInt8 := e.status :: le16 e.originalBlock

def toBytes (e : ScratchEntry) : List UInt8 := e.body ++ [e.checksum]

/-- The sum of the complements of the bytes. -/
def sum (e : ScratchEntry) : UInt8 := (e.body.map (~~~·)).sum

/-- `set_checksum` -/
def setChecksum (e : ScratchEntry) : ScratchEntry := { e with checksum := e.sum }

end ScratchEntry

def scratchAddr : Nat := g.total * blockSize

def scratchEntryAddr (n : Nat) : Nat := scratchAddr g + 4 * n

def scratchBlockAddr (n : Nat) : Nat := scratchAddr g + 4 * scratchEntries + blockSize * n

def loadScratchEntry (n : Nat) : Cmd St ScratchEntry := do
  let d ← clDevRead g (scratchEntryAddr g n) 4
  return .ofBytes d

def saveScratchEntry (n : Nat) (e : ScratchEntry) : Cmd St Unit :=
  clDevWrite g (scratchEntryAddr g n) e.toBytes

def strikeScratchEntry (n : Nat) : Cmd St Unit :=
  clDevWrite g (scratchEntryAddr g n) [0, 0, 0, 0]

/-- `scratch_cl_block_is_ready`; the callers only compare its result with 0. -/
def scratchBlockIsReady (n : Nat) : Cmd St Bool := do
  match ← (clDevRead g (scratchBlockAddr g n) blockSize).attempt with
  | none => return true
  | some d => return (slice d 0 blockSize).all (· == 0xFF)

def copyBlockToScratch (b n : Nat) : Cmd St Unit := do
  let d ← clBlockLoad g b
  clDevWrite g (scratchBlockAddr g n) (slice d 0 blockSize)

def restoreBlock (originalBlock n : Nat) : Cmd St Unit := do
  let d ← clDevRead g (scratchBlockAddr g n) blockSize
  clBlockSaveraw g originalBlock d

def clScratchErase : Cmd St Unit := clDevErasesection g (scratchAddr g)

/-- The first unused entry among the `n` from `i` on, else `i + n`. -/
def firstUnused : Nat → Nat → Cmd St Nat
  | 0, i => return i
  | n + 1, i => do
    let e ← loadScratchEntry g i
    if e.status = ScratchStatus.unused then return i else firstUnused n (i + 1)

def clScratchCapacity : Cmd St Nat := do
  let i ← firstUnused g scratchEntries 0
  return scratchEntries - i

def clScratchSaveblock (b : Nat) : Cmd St Unit := do
  let i ← firstUnused g scratchEntries 0
  if i = scratchEntries then .fail
  else do
    let ready ← scratchBlockIsReady g i
    if ready = false then do
      strikeScratchEntry g i
      .fail
    else do
      copyBlockToScratch g b i
      saveScratchEntry g i
        { status := ScratchStatus.copied, originalBlock := b, checksum := 0 : ScratchEntry }.setChecksum

def scratchRestoreFrom : Nat → Nat → Cmd St Unit
  | 0, _ => return ()
  | n + 1, i => do
    let e ← loadScratchEntry g i
    if e.status = ScratchStatus.unused then return ()
    else if e.status = ScratchStatus.copied then do
      .when (e.sum = e.checksum) (restoreBlock g e.originalBlock i)
      strikeScratchEntry g i
      scratchRestoreFrom n (i + 1)
    else scratchRestoreFrom n (i + 1)

def clScratchRestore : Cmd St Unit := scratchRestoreFrom g scratchEntries 0

/-- `cl_scratch_init` -/
def clScratchInit : Cmd St Unit := clScratchRestore g

/-! ### Reclaiming sections -/

/-- Of the `n` blocks from `i` on, how many are closed; `some none` if one of them forbids to erase
the section. -/
def writtenIn (hdr : Nat → Option BlockHdr) : Nat → Nat → Nat → Option (Option Nat)
  | 0, _, written => some (some written)
  | n + 1, i, written =>
    match hdr i with
    | none => none
    | some h =>
      if h.status = BlockStatus.closed then
        if h.serialno = clSerialnoList then some none else writtenIn hdr n (i + 1) (written + 1)
      else if h.status = BlockStatus.opened then some none
      else if h.status = BlockStatus.free ∧ i ≠ 0 then some none
      else writtenIn hdr n (i + 1) written

/-- Copy the blocks in use among the `n` from `i` on to the scratch area. -/
def saveSection : Nat → Nat → Cmd St Unit
  | 0, _ => return ()
  | n + 1, i => do
    match ← .read fun s => hdrAt g s i with
    | none => .fail
    | some h => do
      .when (h.status = BlockStatus.closed ∨ h.status = BlockStatus.opened) (clScratchSaveblock g i)
      saveSection n (i + 1)

def eraseDirtyBlock (b : Nat) : Cmd St Unit := do
  saveSection g g.eraseable b
  clDevErasesection g (blockAddr b)
  clScratchRestore g

/-- Erase the scratch area if it is too full for that many blocks. -/
def makeRoom (written : Nat) : Cmd St Unit := do
  match ← (clScratchCapacity g).attempt with
  | none => clScratchErase g
  | some capacity => .when (written > capacity) (clScratchErase g)

/-- The `n` sections from block `i` on. -/
def eraseDirtyFrom (maxWritten : Nat) : Nat → Nat → Cmd St Unit
  | 0, _ => return ()
  | n + 1, i => do
    match ← .read fun s => writtenIn (hdrAt g s) g.eraseable i 0 with
    | none => .fail
    | some none => eraseDirtyFrom maxWritten n (i + g.eraseable)
    | some (some written) => do
      .when (written < maxWritten) (do
        makeRoom g written
        eraseDirtyBlock g i)
      eraseDirtyFrom maxWritten n (i + g.eraseable)

def eraseDirtyBlocks (maxWritten : Nat) : Cmd St Unit := eraseDirtyFrom g maxWritten g.sections 0

/-- Reclaim with each bound in turn until the allocation succeeds. -/
def reclaimAndAlloc (sn hint : Nat) (type : UInt8) : List Nat → Cmd St Nat
  | [] => .fail
  | maxWritten :: more => do
    eraseDirtyBlocks g maxWritten
    match ← (allocBlock g sn hint type).attempt with
    | some b => return b
    | none => reclaimAndAlloc sn hint type more

/-- The bounds that `cl_block_alloc` goes through, in its order. -/
def reclaimBounds : List Nat :=
  [g.eraseable / 16, g.eraseable / 8, g.eraseable / 4, g.eraseable / 2, g.eraseable * 3 / 4]

def clBlockAlloc (sn hint : Nat) (type : UInt8) : Cmd St Nat := do
  match ← (allocBlock g sn hint type).attempt with
  | some b => return b
  | none => do
    match ← (reclaimAndAlloc g sn hint type (reclaimBounds g)).attempt with
    | some b => return b
    | none => do
      .modify St.refuse
      .fail

/-- `cl_block_discardopen` over the `n` blocks from `i` on. -/
def discardOpenFrom : Nat → Nat → Cmd St Unit
  | 0, _ => return ()
  | n + 1, i => do
    let h ← clBlockLoadhdr g i
    .when (h.status = BlockStatus.opened) (clBlockDiscard g i)
    discardOpenFrom n (i + 1)

def clBlockDiscardopen : Cmd St Unit := discardOpenFrom g (g.total - firstBlock) firstBlock

end CoActionOS.Cafs
