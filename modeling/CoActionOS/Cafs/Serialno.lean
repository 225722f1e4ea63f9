import CoActionOS.Cafs.List

/-!
# The list of serial numbers

Every file has an entry in the list that starts at `state->list_block`: its serial number, its
header block and how far it has got.  The first entry, with the serial number `CL_SERIALNO_LIST`,
marks the list itself as complete.
-/

namespace CoActionOS.Cafs

variable (g : Geometry)

namespace SnStatus
abbrev opened : UInt8 := 0xFE
abbrev closing : UInt8 := 0xFC
abbrev closed : UInt8 := 0xF8
abbrev discardingHdr : UInt8 := 0xF0
abbrev discardingHdrList : UInt8 := 0xE0
abbrev discarding : UInt8 := 0xC0
abbrev dirty : UInt8 := 0x00
end SnStatus

/-- `CL_BLOCK_LIST`, the block that the zero entry names -/
def clBlockList : Nat := 0x1234

/-- `cl_snlist_item_t` -/
structure SnItem where
  status : UInt8
  serialno : Nat
  block : Nat
  checksum : UInt8
  deriving DecidableEq, Repr

namespace SnItem

def ofBytes (d : Bytes) : SnItem := ⟨d 0, u32 d 1, u16 d 5, d 7⟩

/-- The bytes between the status and the checksum. -/
def body (i : SnItem) : List UInt8 := le32 i.serialno ++ le16 i.block

def toBytes (i : SnItem) : List UInt8 := i.status :: i.body ++ [i.checksum]

/-- The sum of the complements of the bytes. -/
def sum (i : SnItem) : UInt8 := (i.body.map (~~~·)).sum

/-- `set_checksum` -/
def setChecksum (i : SnItem) : SnItem := { i with checksum := i.sum }

/-- `validate_checksum` -/
def isValid (i : SnItem) : Bool := i.sum == i.checksum

end SnItem

def clSerialnoSetstatus (addr : Nat) (status : UInt8) : Cmd St Unit := clDevWrite g addr [status]

/-- `cl_snlist_init` on the current list -/
def clSnlistInit : Cmd St ClList := do
  let b ← .read St.listBlock
  clListInit g b

/-- The body of the loop in `cl_serialno_get`. -/
def snGetBody (sn : Nat) (status : UInt8) (l : ClList) (_ : Unit) :
    Cmd St (Loop (ClList × Unit) (Option (Nat × Nat))) := do
  let item := SnItem.ofBytes l.item
  if item.isValid then
    if item.status = status ∧ item.serialno = sn then return .done (some (item.block, l.addr))
    else return .next (l, ())
  else if item.status ≠ SnStatus.dirty then do
    match ← (clSerialnoSetstatus g l.addr SnStatus.dirty).attempt with
    | none => return .done none
    | some () => return .next (l, ())
  else return .next (l, ())

/-- The block of the first entry with this serial number and status, and the address of the entry;
`none` is `BLOCK_INVALID`. -/
def clSerialnoGet (sn : Nat) (status : UInt8) : Cmd St (Option (Nat × Nat)) := do
  match ← (clSnlistInit g).attempt with
  | none => return none
  | some l => do
    match ← whileItem g (snGetBody g sn status) loopFuel l () with
    | .inl r => return r.filter fun p => p.1 != blockInvalid
    | .inr _ => return none

def clSerialnoAppend (sn block : Nat) (status : UInt8) : Cmd St (Option Nat) := do
  let l ← clSnlistInit g
  clListAppend g l BlockType.serialnoList
    { status := status, serialno := sn, block := block, checksum := 0 : SnItem }.setChecksum.toBytes

/-- The part of `cl_serialno_new` in front of its first `return sn`. -/
def clSerialnoNew : Cmd St Nat := do
  let sn ← .read St.serialno
  if sn + 1 = serialnoInvalid then return serialnoInvalid
  else do
    clDevSetserialno (sn + 1)
    return sn + 1

/-! ### Finding and consolidating the list -/

/-- What `find_list_block` does with a block that is the head of such a list; `none` is to go on. -/
def checkListBlock (b : Nat) (status : UInt8) : Cmd St (Option Nat) := do
  clDevSetlistBlock b
  match ← clSerialnoGet g clSerialnoList SnStatus.closed with
  | some (check, _) =>
    if check = clBlockList then do
      .when (status = BlockStatus.opened) (clListClose g b)
      return some b
    else passOver
  | none => passOver
where
  passOver : Cmd St (Option Nat) := do
    let old ← clSerialnoGet g clSerialnoList SnStatus.discarding
    discardOld old
    clDevSetlistBlock blockInvalid
    return none
  discardOld : Option (Nat × Nat) → Cmd St Unit
    | some (check, addr) => .when (check = clBlockList) (do
      match ← (clListDiscard g b).attempt with
      | none => do
        clDevSetlistBlock blockInvalid
        .fail
      | some () => clSerialnoSetstatus g addr SnStatus.dirty)
    | none => pure ()

/-- The loop of `find_list_block` from block `b` on. -/
def findListFrom : Nat → Nat → Cmd St Nat
  | 0, _ => .hang
  | n + 1, b => do
    match ← (clBlockLoadhdr g b).attempt with
    | none => return blockInvalid
    | some h =>
      if (h.status = BlockStatus.opened ∨ h.status = BlockStatus.closed) ∧
          h.type = BlockType.serialnoList then do
        match ← checkListBlock g b h.status with
        | some b => return b
        | none => findListFrom n (b + 1)
      else findListFrom n (b + 1)

def findListBlock : Cmd St Nat := do
  return (← (findListFrom g loopFuel 0).attempt).getD blockInvalid

/-- `consolidate_list` -/
def clSerialnoConsolidate : Cmd St Unit := do
  let old ← .read St.listBlock
  let new ← clListConsolidate g clSerialnoList old BlockType.serialnoList
  match ← clSerialnoGet g clSerialnoList SnStatus.closed with
  | none => .fail
  | some (_, addr) => do
    clSerialnoSetstatus g addr SnStatus.discarding
    clListClose g new
    clListDiscard g old
    clSerialnoSetstatus g addr SnStatus.dirty
    clDevSetlistBlock new

/-- The body of the loop in `cl_serialno_init`, which looks for the highest serial number. -/
def maxBody (l : ClList) (max : Nat) : Cmd St (Loop (ClList × Nat) SnItem) := do
  let item := SnItem.ofBytes l.item
  if item.status = SnStatus.closed then
    return .next (l, if item.serialno > max then item.serialno else max)
  else if item.status ≠ ItemStatus.free ∧ item.status ≠ SnStatus.dirty then return .done item
  else return .next (l, max)

/-- The list that `cl_serialno_init` goes through: where it was found, even when it was then
consolidated. -/
def mountedList : Cmd St Nat := do
  let b ← .read St.listBlock
  if b = blockInvalid ∨ b = 0 then do
    let found ← findListBlock g
    if (← .read St.listBlock) = blockInvalid then .fail
    else do
      clDevSetlistBlock found
      let _ ← (clSerialnoConsolidate g).attempt
      return found
  else return b

/-- `some item` is the return value 1: an entry that has to be cleaned up. -/
def clSerialnoInit : Cmd St (Option SnItem) := do
  let b ← mountedList g
  let l ← clListInit g b
  match ← whileItem g maxBody loopFuel l 0 with
  | .inl bad => return some bad
  | .inr (_, _, max) => do
    let sn := (if max = 0 then 1 else max) + 1
    clDevSetserialno (if sn % 2 ^ 32 = serialnoInvalid then clSerialnoList + 1 else sn % 2 ^ 32)
    return none

def clSerialnoMkfs : Cmd St Unit := do
  let b ← clBlockAlloc g clSerialnoList blockInvalid BlockType.serialnoList
  clBlockClose g b
  clDevSetlistBlock b
  let _ ← clSerialnoAppend g clSerialnoList clBlockList SnStatus.closed

end CoActionOS.Cafs
