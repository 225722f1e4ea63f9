import CoActionOS.Cafs.Block

/-!
# Lists on the medium

A list is a chain of blocks, linked both ways, of items of eight bytes; both kinds of items
(`cl_snlist_item_t` and `cl_filelist_item_t`) have their status in the first byte, `0xFF` when the
item is free and `0x00` when it is dirty.

`ClList` is the cursor `cl_list_t`, with its copy of the current block.  `item` and `addr` are the
caller's variables that `cl_list_getnext` fills in.
-/

namespace CoActionOS.Cafs

variable (g : Geometry)

def itemSize : Nat := 8

/-- `calc_total_items` -/
def totalItems : Nat := (blockDataSize - 4) / itemSize

namespace ItemStatus
abbrev free : UInt8 := 0xFF
abbrev dirty : UInt8 := 0x00
end ItemStatus

/-- `list_typeisvalid` -/
def listTypeIsValid (type : UInt8) : Bool :=
  type &&& 0x80 != 0 &&
    (type &&& ~~~linkedListFlag == BlockType.serialnoList ||
      type &&& ~~~linkedListFlag == BlockType.fileList)

/-- `get_hdr_addr` -/
def listHdrAddr (b : Nat) : Nat := b * blockSize + blockHeaderSize

/-- `get_item_addr` -/
def itemAddr (b item : Nat) : Nat := b * blockSize + blockHeaderSize + 4 + item * itemSize

/-- `cl_list_hdr_t` -/
structure ListHdr where
  next : Nat
  prev : Nat
  deriving DecidableEq, Repr

def ListHdr.ofBytes (d : Bytes) : ListHdr := ⟨u16 d 0, u16 d 2⟩

/-- The list header of a loaded block. -/
def listHdr (block : Bytes) : ListHdr := .ofBytes fun i => block (blockHeaderSize + i)

/-- The `n`-th item of a loaded block. -/
def blockItem (block : Bytes) (n : Nat) : Bytes := fun i => block (itemAddr 0 n + i)

structure ClList where
  block : Bytes
  currentBlock : Nat
  currentItem : Nat
  item : Bytes
  addr : Nat

/-- `list_update`; a failure is the return value `false`. -/
def listUpdate (l : ClList) (prevBlock : Nat) : Cmd St (Bool × ClList) := do
  let l := { l with currentItem := 0 }
  match ← (clBlockLoad g l.currentBlock).attempt with
  | none => return (false, l)
  | some d =>
    let l := { l with block := d }
    if prevBlock ≠ (listHdr d).prev ∨ listTypeIsValid (d 4) = false then return (false, l)
    else return (true, l)

def clListInit (listBlock : Nat) : Cmd St ClList := do
  let (ok, l) ← listUpdate g ⟨fun _ => 0, listBlock, 0, fun _ => 0, 0⟩ blockInvalid
  if ok then return l else .fail

/-- The return value of `cl_list_getnext`: an item, the end before a free item, or the end of a full
list (which is also the return value when the next block cannot be used). -/
inductive Next
  | item
  | free
  | stop
  deriving DecidableEq, Repr

/-- What follows an item: after the last one of a block, the next block is loaded. -/
def listAdvance (l : ClList) : Cmd St (Next × ClList) := do
  if l.currentItem = totalItems ∧ (listHdr l.block).next ≠ blockInvalid then do
    let current := l.currentBlock
    let l := { l with currentBlock := (listHdr l.block).next }
    if current = l.currentBlock then return (.stop, l)
    else do
      let (ok, l) ← listUpdate g l current
      return (if ok then .item else .stop, l)
  else return (.item, l)

def clListGetnext (l : ClList) : Cmd St (Next × ClList) :=
  if l.currentItem < totalItems then
    let l := { l with
      addr := itemAddr l.currentBlock l.currentItem
      item := blockItem l.block l.currentItem }
    if l.item 0 = ItemStatus.free then return (.free, l)
    else listAdvance g { l with currentItem := l.currentItem + 1 }
  else return (.stop, l)

/-- What the body of a loop does next. -/
inductive Loop (τ β : Type)
  | next (t : τ)
  | done (b : β)

/-- `while( cl_list_getnext(cfg, &list, &item, &addr) == 0 ) body`: either the body has left the
loop with a value, or `cl_list_getnext` has ended it. -/
def whileItem {τ β : Type} (body : ClList → τ → Cmd St (Loop (ClList × τ) β)) :
    Nat → ClList → τ → Cmd St (Sum β (Next × ClList × τ))
  | 0, _, _ => .hang
  | n + 1, l, t => do
    let (r, l) ← clListGetnext g l
    if r = .item then do
      match ← body l t with
      | .done b => return .inl b
      | .next (l, t) => whileItem body n l t
    else return .inr (r, l, t)

/-- The forward pass of `cl_list_setblockstatus`; the last block of the list. -/
def lastBlock : Nat → Nat → Nat → Cmd St Nat
  | 0, _, _ => .hang
  | n + 1, b, last =>
    if b = blockInvalid then return last
    else do
      let d ← clDevRead g (listHdrAddr b) 4
      if (ListHdr.ofBytes d).prev ≠ last then .fail
      else lastBlock n (ListHdr.ofBytes d).next b

/-- The backward pass of `cl_list_setblockstatus`. -/
def setStatusBack (status : UInt8) : Nat → Nat → Cmd St Unit
  | 0, _ => .hang
  | n + 1, b =>
    if b = blockInvalid then return ()
    else do
      let d ← clDevRead g (listHdrAddr b) 4
      clBlockSetstatus g b status
      setStatusBack status n (ListHdr.ofBytes d).prev

def clListSetblockstatus (listBlock : Nat) (status : UInt8) : Cmd St Unit := do
  let last ← lastBlock g loopFuel listBlock blockInvalid
  setStatusBack g status loopFuel last

def clListDiscard (listBlock : Nat) : Cmd St Unit :=
  clListSetblockstatus g listBlock BlockStatus.dirty

def clListClose (listBlock : Nat) : Cmd St Unit :=
  clListSetblockstatus g listBlock BlockStatus.closed

/-! ### Appending -/

def listAddBlock (sn : Nat) (type : UInt8) (listBlock : Nat) : Cmd St Nat := do
  let next ← clBlockAlloc g sn listBlock (type ||| linkedListFlag)
  clDevWrite g (listHdrAddr listBlock) (le16 next)
  clDevWrite g (listHdrAddr next + 2) (le16 listBlock)
  .when (type = BlockType.serialnoList) (clBlockClose g next)
  return next

/-- Where an item is appended, once `cl_list_getnext` has returned `r`.  The result of
`list_add_block` is not checked. -/
def appendAddr (l : ClList) (r : Next) (type : UInt8) : Cmd St Nat :=
  if r = .free then pure (itemAddr l.currentBlock l.currentItem)
  else do
    let next ← (listAddBlock g (u32 l.block 0) type l.currentBlock).attempt
    return itemAddr (next.getD blockInvalid) 0

/-- `none` when the item is in the list already: then `*addr` is not written. -/
def clListAppend (l : ClList) (type : UInt8) (item : List UInt8) : Cmd St (Option Nat) := do
  let r ← whileItem g (fun l (_ : Unit) =>
    return if slice l.item 0 itemSize = item then .done () else .next (l, ())) loopFuel l ()
  match r with
  | .inl () => return none
  | .inr (r, l, _) => do
    let addr ← appendAddr g l r type
    clDevWrite g addr item
    return some addr

/-! ### Consolidation -/

/-- The block that `cl_list_consolidate` fills: where it will be saved, its `prev` link and the items
copied so far. -/
structure NewBlock where
  current : Nat
  prev : Nat
  items : List (List UInt8)

/-- The data of the block, with `0xFF` behind the items. -/
def NewBlock.data (b : NewBlock) (next : Nat) : List UInt8 :=
  let used := le16 next ++ le16 b.prev ++ b.items.flatten
  used ++ List.replicate (blockDataSize - used.length) 0xFF

def NewBlock.save (b : NewBlock) (next : Nat) : Cmd St Unit :=
  clBlockSave g b.current fun i => (b.data next).getD i 0xFF

/-- Copy one item; a block that is full is saved, linked to a new one. -/
def copyItem (sn : Nat) (type : UInt8) (b : NewBlock) (item : List UInt8) : Cmd St NewBlock := do
  let b := { b with items := b.items ++ [item] }
  if b.items.length = totalItems then do
    -- the result of cl_block_alloc is not checked
    let next := (← (clBlockAlloc g sn b.current (type ||| linkedListFlag)).attempt).getD blockInvalid
    b.save g next
    return { current := next, prev := b.current, items := [] }
  else return b

/-- The items of a loaded block from `i` on, up to the first free one. -/
def copyItems (sn : Nat) (type : UInt8) (old : Bytes) : Nat → Nat → NewBlock → Cmd St NewBlock
  | 0, _, b => return b
  | n + 1, i, b => do
    let item := blockItem old i
    if item 0 = ItemStatus.free then return b
    else if item 0 = ItemStatus.dirty then copyItems sn type old n (i + 1) b
    else do
      let b ← copyItem g sn type b (slice item 0 itemSize)
      copyItems sn type old n (i + 1) b

/-- The loop over the blocks of the old list. -/
def copyBlocks (sn : Nat) (type : UInt8) : Nat → Nat → Nat → NewBlock → Cmd St NewBlock
  | 0, _, _, _ => .hang
  | n + 1, old, oldPrev, b =>
    if old = blockInvalid then return b
    else do
      let d ← clBlockLoad g old
      if (listHdr d).prev ≠ oldPrev ∨ listTypeIsValid (d 4) = false ∨ sn ≠ u32 d 0 ∨
          d 5 ≠ BlockStatus.closed then return b
      else do
        let b ← copyItems g sn type d totalItems 0 b
        copyBlocks sn type n (listHdr d).next old b

def clListConsolidate (sn listBlock : Nat) (type : UInt8) : Cmd St Nat := do
  let new ← clBlockAlloc g sn listBlock type
  let b ← copyBlocks g sn type loopFuel listBlock blockInvalid ⟨new, blockInvalid, []⟩
  b.save g blockInvalid
  return new

end CoActionOS.Cafs
