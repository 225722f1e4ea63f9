import CoActionOS.Cafs.Serialno

/-!
# The list of a file's segments, and the lookup of names
-/

namespace CoActionOS.Cafs

variable (g : Geometry)

namespace FileStatus
abbrev current : UInt8 := 0xFE
abbrev obsolete : UInt8 := 0xFC
abbrev dirty : UInt8 := 0x00
end FileStatus

/-- `cl_filelist_item_t` -/
structure FileItem where
  status : UInt8
  resd : UInt8
  block : Nat
  segment : Nat
  deriving DecidableEq, Repr

namespace FileItem

def ofBytes (d : Bytes) : FileItem := ⟨d 0, d 1, u16 d 2, u32 d 4⟩

def toBytes (i : FileItem) : List UInt8 := i.status :: i.resd :: (le16 i.block ++ le32 i.segment)

end FileItem

def clFilelistSetstatus (status : UInt8) (addr : Nat) : Cmd St Unit := clDevWrite g addr [status]

/-- The block of the first item for the segment with this status; `none` is `BLOCK_INVALID`. -/
def clFilelistGet (listBlock segment : Nat) (status : UInt8) : Cmd St (Option Nat) := do
  match ← (clListInit g listBlock).attempt with
  | none => return none
  | some l => do
    let r ← whileItem g (fun l (_ : Unit) =>
      let item := FileItem.ofBytes l.item
      return if item.status = status ∧ item.segment = segment then .done item.block
        else .next (l, ())) loopFuel l ()
    match r with
    | .inl b => return if b = blockInvalid then none else some b
    | .inr _ => return none

def clFilelistMakeobsolete (listBlock : Nat) : Cmd St Unit := do
  let l ← clListInit g listBlock
  let r ← whileItem g (fun l (_ : Unit) => do
    if (FileItem.ofBytes l.item).status = FileStatus.current then do
      match ← (clFilelistSetstatus g FileStatus.obsolete l.addr).attempt with
      | none => return .done ()
      | some () => return .next (l, ())
    else return .next (l, ())) loopFuel l ()
  match r with
  | .inl () => .fail
  | .inr _ => return ()

/-- The item `cl_filelist_update` appends keeps the `resd` of the item it has read last. -/
def clFilelistUpdate (listBlock segment newBlock : Nat) : Cmd St Unit := do
  let l ← clListInit g listBlock
  let r ← whileItem g (fun l (_ : Unit) =>
    let item := FileItem.ofBytes l.item
    return if item.segment = segment ∧ item.status = FileStatus.current then .done l
      else .next (l, ())) loopFuel l ()
  let (l, strikeAddr) := match r with
    | .inl l => (l, some l.addr)
    | .inr (_, l, _) => (l, none)
  let _ ← clListAppend g l BlockType.fileList
    (FileItem.toBytes ⟨FileStatus.current, l.item 1, newBlock, segment⟩)
  match strikeAddr with
  | none => return ()
  | some addr => clFilelistSetstatus g FileStatus.obsolete addr

def clFilelistConsolidate (sn listBlock : Nat) : Cmd St Nat :=
  clListConsolidate g sn listBlock BlockType.fileList

/-! ### The file header and the lookup of a name -/

def nameMax : Nat := 24

/-- `cl_hdr_open_t`, up to the padding between its fields. -/
structure HdrOpen where
  /-- the bytes of `name` and the padding byte -/
  name : List UInt8
  contentBlock : Nat

namespace HdrOpen

/-- The name field and the padding. -/
def nameSize : Nat := nameMax + 2

def ofBytes (data : Bytes) : HdrOpen := ⟨slice data 0 nameSize, u16 data nameSize⟩

def toBytes (h : HdrOpen) : List UInt8 := h.name ++ le16 h.contentBlock

/-- `strcpy` of the name; the bytes behind its end are the stack's, and are taken to be 0. -/
def ofName (name : List UInt8) (contentBlock : Nat) : HdrOpen :=
  ⟨(name ++ List.replicate nameSize 0).take nameSize, contentBlock⟩

end HdrOpen

/-- `offsetof(cl_hdr_t, close)`, where `close.size` is -/
def hdrCloseOffset : Nat := HdrOpen.nameSize + 2

/-- `get_cl_block_data_addr` -/
def blockDataAddr (b : Nat) : Nat := b * blockSize + blockHeaderSize

/-- The data of a loaded block. -/
def blockData (block : Bytes) : Bytes := fun i => block (blockHeaderSize + i)

/-- `strncmp(path, name, n) == 0`, for a path without a zero in it. -/
def strncmpEq : Nat → List UInt8 → Bytes → Bool
  | 0, _, _ => true
  | _ + 1, [], name => name 0 == 0
  | n + 1, c :: path, name => c == name 0 && strncmpEq n path fun i => name (i + 1)

/-- The serial number of the file with this name; `none` if there is none. -/
def clDirLookup (path : List UInt8) : Cmd St (Option Nat) := do
  let l ← clSnlistInit g
  let r ← whileItem g (fun l (_ : Unit) => do
    let item := SnItem.ofBytes l.item
    if item.serialno = clSerialnoList then return .next (l, ())
    else if item.status = SnStatus.closed then do
      match ← (clBlockLoad g item.block).attempt with
      | none => return .done none
      | some d =>
        return if strncmpEq nameMax path (blockData d) then .done (some item.serialno)
          else .next (l, ())
    else return .next (l, ())) loopFuel l ()
  match r with
  | .inl none => .fail
  | .inl (some sn) => return if sn = serialnoInvalid then none else some sn
  | .inr _ => return none

end CoActionOS.Cafs
