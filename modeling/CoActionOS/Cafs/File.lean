import CoActionOS.Cafs.FileList

/-!
# Files

A handle keeps one segment of the file in RAM; `segment.status` is `BLOCK_STATUS_CLOSED` while the
RAM copy has to be written to a block.  `int` values are integers that are wrapped to 32 bits where
the code's arithmetic can leave the range, and are taken modulo `2 ^ 32` where they are compared
with or divided by a `sizeof`.

`op` is the transfer in progress: the position, the bytes still to be written (`src`) and the bytes
read so far (`out`).
-/

namespace CoActionOS.Cafs

variable (g : Geometry)

/-- The value of an `int` as an `unsigned`. -/
def toUnsigned (x : Int) : Nat := (x % 2 ^ 32).toNat

/-- `int` arithmetic -/
def toInt32 (x : Int) : Int := x.bmod (2 ^ 32)

/-- `cl_block_data_t segment_data` -/
structure SegmentData where
  serialno : Nat
  type : UInt8
  status : UInt8
  data : Bytes

structure Amode where
  r : Bool
  w : Bool
  deriving DecidableEq, Repr

/-- `device_transfer_t` -/
structure Transfer where
  loc : Int
  nbyte : Int
  src : List UInt8
  out : List UInt8

/-- `cl_handle_t` -/
structure Handle where
  hdrBlock : Nat
  segmentListBlock : Nat
  serialnoAddr : Nat
  op : Transfer
  bytesLeft : Int
  size : Int
  amode : Amode
  /-- `uint16_t segment` -/
  segment : Nat
  segmentData : SegmentData

/-- What `malloc` has returned; nothing reads a field before it is set. -/
def Handle.fresh : Handle :=
  ⟨0, 0, 0, ⟨0, 0, [], []⟩, 0, 0, ⟨false, false⟩, 0, ⟨0, 0, 0, fun _ => 0⟩⟩

/-! ### Segments in RAM -/

/-- `calc_page_size`: the size and the offset. -/
def calcPageSize (h : Handle) : Nat × Nat :=
  let offset := toUnsigned h.op.loc % blockDataSize
  (if toUnsigned h.bytesLeft > blockDataSize - offset then blockDataSize - offset
    else toUnsigned h.bytesLeft, offset)

/-- `update_current_segment`; a read has put `out` into the buffer. -/
def updateCurrentSegment (h : Handle) (pageSize : Nat) (out : List UInt8) : Handle :=
  { h with
    op := { h.op with
      loc := h.op.loc + pageSize
      src := h.op.src.drop pageSize
      out := h.op.out ++ out }
    bytesLeft := h.bytesLeft - pageSize }

def readCurrentSegment (h : Handle) : Handle :=
  let (pageSize, offset) := calcPageSize h
  if pageSize > 0 then
    updateCurrentSegment h pageSize (slice h.segmentData.data offset pageSize)
  else h

def writeCurrentSegment (h : Handle) : Handle :=
  let (pageSize, offset) := calcPageSize h
  if pageSize > 0 then
    let h := updateCurrentSegment { h with segmentData := { h.segmentData with
      data := overwrite h.segmentData.data offset (h.op.src.take pageSize)
      status := BlockStatus.closed } } pageSize []
    if h.op.loc > h.size then { h with size := h.op.loc } else h
  else h

/-- What a function on the handle returns, `none` for the code -1: the handle is changed as well. -/
abbrev Result := Option Unit × Handle

/-- The handle even if the block is not saved: `cl_block_save` has set its status before. -/
def clFileSavesegment (h : Handle) : Cmd St Result := do
  if h.segmentData.status = BlockStatus.closed then do
    match ← (clBlockAlloc g h.segmentData.serialno h.segmentListBlock BlockType.fileData).attempt with
    | none => return (none, h)
    | some b => do
      let h' := { h with segmentData := { h.segmentData with status := BlockStatus.opened } }
      match ← (clBlockSave g b h.segmentData.data).attempt with
      | none => return (none, h')
      | some () => do
        match ← (clFilelistUpdate g h.segmentListBlock h.segment b).attempt with
        | none => return (none, h')
        | some () => return (some (), h')
  else return (some (), h)

def clFileLoadsegment (h : Handle) (segment : Nat) : Cmd St Result := do
  let loaded (d : SegmentData) : Handle :=
    { h with segment := segment % 2 ^ 16, segmentData := { d with status := BlockStatus.opened } }
  match ← clFilelistGet g h.segmentListBlock segment FileStatus.current with
  | none => return (some (), loaded { h.segmentData with data := fun _ => 0 })
  | some b => do
    match ← (clBlockLoad g b).attempt with
    | none => return (none, h)
    | some d => return (some (), loaded ⟨u32 d 0, d 4, d 5, blockData d⟩)

/-- Run the next step unless this one has returned -1. -/
def andThen (c : Cmd St Result) (k : Handle → Cmd St Result) : Cmd St Result := do
  match ← c with
  | (none, h) => return (none, h)
  | (some (), h) => k h

/-! ### Reading and writing -/

/-- One step of the loop in `cl_file_write`. -/
def writeSegments : Nat → Handle → Cmd St Result
  | 0, h => return (some (), h)
  | n + 1, h =>
    andThen (clFileSavesegment g { h with segmentData := { h.segmentData with
      data := fun i => h.op.src.getD i 0
      status := BlockStatus.closed } }) fun h =>
    writeSegments n { h with
      segment := (h.segment + 1) % 2 ^ 16
      op := { h.op with src := h.op.src.drop blockDataSize } }

/-- `cl_file_write` with `start_segment` the handle's segment. -/
def clFileWrite (h : Handle) (nsegments : Nat) : Cmd St Result :=
  if nsegments > 0 then
    andThen (writeSegments g nsegments h) fun h =>
    let h := { h with
      op := { h.op with loc := h.op.loc + blockDataSize * nsegments }
      bytesLeft := h.bytesLeft - blockDataSize * nsegments }
    return (some (), if h.op.loc > h.size then { h with size := h.op.loc } else h)
  else return (some (), h)

/-- The loop in `cl_file_read`. -/
def readSegments : Nat → Nat → Handle → Cmd St Result
  | 0, _, h => return (some (), h)
  | n + 1, segment, h =>
    andThen (clFileLoadsegment g h segment) fun h =>
    readSegments n (segment + 1)
      { h with op := { h.op with out := h.op.out ++ slice h.segmentData.data 0 blockDataSize } }

def clFileRead (h : Handle) (startSegment nsegments : Nat) : Cmd St Result :=
  if nsegments > 0 then
    andThen (readSegments g nsegments startSegment h) fun h =>
    return (some (), { h with
      op := { h.op with loc := h.op.loc + blockDataSize * nsegments }
      bytesLeft := h.bytesLeft - blockDataSize * nsegments })
  else return (some (), h)

/-- The segment of the position. -/
def locSegment (h : Handle) : Nat := toUnsigned h.op.loc / blockDataSize

/-- The return value and the handle. -/
def clFileStartread (h : Handle) : Int × Handle :=
  let segment := locSegment h
  let h := { h with bytesLeft := h.op.nbyte }
  let h :=
    if toInt32 (h.bytesLeft + h.op.loc) > h.size then
      { h with
        bytesLeft := h.size - h.op.loc
        op := { h.op with nbyte := h.size - h.op.loc } }
    else h
  if segment = h.segment then
    let h := readCurrentSegment h
    (if h.bytesLeft = 0 then h.op.nbyte else 0, h)
  else (0, h)

def clFileFinishread (h : Handle) : Cmd St Result :=
  andThen (clFileSavesegment g h) fun h =>
  andThen (clFileLoadsegment g h (locSegment h)) fun h =>
  let h := readCurrentSegment h
  if h.bytesLeft > 0 then
    andThen (clFileRead g h (h.segment + 1) (toUnsigned h.bytesLeft / blockDataSize)) fun h =>
    andThen (clFileLoadsegment g h (h.segment + 1)) fun h =>
    return (some (), readCurrentSegment h)
  else return (some (), h)

def clFileStartwrite (h : Handle) : Int × Handle :=
  let segment := locSegment h
  if h.op.loc > h.size then (-1, h)
  else
    let h := { h with bytesLeft := h.op.nbyte }
    if segment = h.segment then
      let h := writeCurrentSegment h
      (if h.bytesLeft = 0 then h.op.nbyte else 0, h)
    else (0, h)

def clFileFinishwrite (h : Handle) : Cmd St Result :=
  andThen (clFileSavesegment g h) fun h =>
  andThen (clFileLoadsegment g h (locSegment h)) fun h =>
  let h := writeCurrentSegment h
  if h.bytesLeft > 0 then
    andThen (clFileSavesegment g h) fun h =>
    andThen (clFileWrite g { h with segment := (h.segment + 1) % 2 ^ 16 }
      (toUnsigned h.bytesLeft / blockDataSize)) fun h =>
    andThen (clFileLoadsegment g h h.segment) fun h =>
    return (some (), writeCurrentSegment h)
  else return (some (), h)

/-! ### Opening -/

/-- `hdr->close.size` of a header's data, as an `int32_t` -/
def closeSize (data : Bytes) : Int := toInt32 (u32 data hdrCloseOffset)

def clFileNew (name : List UInt8) (sn : Nat) (type : UInt8) (amode : Amode) : Cmd St Handle := do
  let b ← clBlockAlloc g sn blockInvalid type
  let addr ← clSerialnoAppend g sn b SnStatus.opened
  let listBlock ← clBlockAlloc g sn b BlockType.fileList
  clDevWrite g (blockDataAddr b) (HdrOpen.ofName name listBlock).toBytes
  return {
    hdrBlock := b
    segmentListBlock := listBlock
    serialnoAddr := addr.getD Handle.fresh.serialnoAddr
    op := Handle.fresh.op
    bytesLeft := Handle.fresh.bytesLeft
    size := 0
    amode := amode
    segment := segmentInvalid
    segmentData := ⟨sn, BlockType.fileData, BlockStatus.free, Handle.fresh.segmentData.data⟩ }

/-- The part of `cl_file_open` for a file that is going to be written: its new header block, its new
list block, its size and the address of its new entry. -/
def openForWriting (sn block : Nat) (data : Bytes) (addr : Nat) (trunc : Bool) :
    Cmd St (Nat × Nat × Int × Nat) := do
  let b ← clBlockAlloc g sn block BlockType.fileHdr
  let addr' ← clSerialnoAppend g sn b SnStatus.opened
  let content ← clFilelistConsolidate g sn (HdrOpen.ofBytes data).contentBlock
  -- a failure of cl_filelist_makeobsolete is reported, but the file is opened
  .when trunc (do
    let _ ← (clFilelistMakeobsolete g content).attempt)
  clDevWrite g (blockDataAddr b) { HdrOpen.ofBytes data with contentBlock := content }.toBytes
  return (b, content, if trunc then 0 else closeSize data, addr'.getD addr)

def clFileOpen (sn : Nat) (amode : Amode) (trunc : Bool) : Cmd St Handle := do
  match ← clSerialnoGet g sn SnStatus.closed with
  | none => .fail
  | some (block, addr) => do
    let d ← clBlockLoad g block
    if d 4 = BlockType.fileHdr then do
      let data := blockData d
      let (b, content, size, addr) ← (if amode.w then openForWriting g sn block data addr trunc
        else pure (block, (HdrOpen.ofBytes data).contentBlock, closeSize data, addr))
      let (r, h) ← clFileLoadsegment g {
        hdrBlock := b
        segmentListBlock := content
        serialnoAddr := addr
        op := Handle.fresh.op
        bytesLeft := Handle.fresh.bytesLeft
        size := if size < 0 then 0 else size
        amode := amode
        segment := Handle.fresh.segment
        segmentData := ⟨u32 d 0, d 4, d 5, data⟩ } 0
      match r with
      | none => .fail
      | some () => return h
    else return { Handle.fresh with
      serialnoAddr := addr
      segmentData := ⟨u32 d 0, d 4, d 5, blockData d⟩ }

/-! ### Closing and removing -/

/-- The body of the loop in `mark_file_closed`. -/
def closeItem (l : ClList) (_ : Unit) : Cmd St (Loop (ClList × Unit) Unit) := do
  let item := FileItem.ofBytes l.item
  let c : Cmd St Unit :=
    if item.status = FileStatus.current then clBlockClose g item.block
    else if item.status = FileStatus.obsolete then do
      clBlockDiscard g item.block
      clFilelistSetstatus g FileStatus.dirty l.addr
    else pure ()
  match ← c.attempt with
  | none => return .done ()
  | some () =>
    if l.block 5 = BlockStatus.opened then do
      let _ ← (clBlockClose g l.currentBlock).attempt
      return .next ({ l with block := fun i => if i = 5 then BlockStatus.closed else l.block i }, ())
    else return .next (l, ())

/-- Data, then list, then header. -/
def markFileClosed (hdrBlock : Nat) : Cmd St Unit := do
  let d ← clBlockLoad g hdrBlock
  if d 5 = BlockStatus.closed then return ()
  else if d 4 ≠ BlockType.fileHdr then .fail
  else do
    let content := (HdrOpen.ofBytes (blockData d)).contentBlock
    let l ← clListInit g content
    match ← whileItem g (closeItem g) loopFuel l () with
    | .inl () => .fail
    | .inr _ => do
      clListClose g content
      clBlockClose g hdrBlock

/-- The body of the loop in `cleanup_file`. -/
def discardItem (l : ClList) (_ : Unit) : Cmd St (Loop (ClList × Unit) Unit) := do
  let item := FileItem.ofBytes l.item
  if item.status = FileStatus.current ∨ item.status = FileStatus.obsolete then do
    let c : Cmd St Unit := do
      clBlockDiscard g item.block
      clFilelistSetstatus g FileStatus.dirty l.addr
    match ← c.attempt with
    | none => return .done ()
    | some () => return .next (l, ())
  else return .next (l, ())

/-- The first case of `cleanup_file`: the segments of the whole file. -/
def discardSegments (content : Nat) : Cmd St Unit := do
  let l ← clListInit g content
  match ← whileItem g (discardItem g) loopFuel l () with
  | .inl () => .fail
  | .inr _ => return ()

/-- The cases of the switch fall through: `DISCARDING`, `DISCARDING_HDR_LIST`, `DISCARDING_HDR`. -/
def cleanupFile (hdrBlock addr : Nat) (status : UInt8) : Cmd St Unit := do
  let d ← clBlockLoad g hdrBlock
  if d 4 ≠ BlockType.fileHdr then .fail
  else do
    let content := (HdrOpen.ofBytes (blockData d)).contentBlock
    .when (status = SnStatus.discarding) (discardSegments g content)
    .when (status = SnStatus.discarding ∨ status = SnStatus.discardingHdrList)
      (clListDiscard g content)
    .when (status = SnStatus.discarding ∨ status = SnStatus.discardingHdrList ∨
      status = SnStatus.discardingHdr) (clBlockDiscard g hdrBlock)
    clSerialnoSetstatus g addr SnStatus.dirty

/-- When the new file cannot be closed, `finish_close` still returns 0. -/
def finishClose (discardStatus : UInt8) (newBlock oldBlock newAddr oldAddr : Nat)
    (alreadyClosed : Bool) : Cmd St Unit := do
  if alreadyClosed then cleanupFile g oldBlock oldAddr discardStatus
  else do
    clSerialnoSetstatus g newAddr SnStatus.closing
    match ← (markFileClosed g newBlock).attempt with
    | none => return ()
    | some () => do
      clSerialnoSetstatus g oldAddr discardStatus
      clSerialnoSetstatus g newAddr SnStatus.closed
      cleanupFile g oldBlock oldAddr discardStatus

def clFileClose (h : Handle) : Cmd St Unit :=
  if h.amode.w then do
    match ← clFileSavesegment g h with
    | (none, _) => .fail
    | (some (), h) => do
      clDevWrite g (blockDataAddr h.hdrBlock + hdrCloseOffset) (le32 (toUnsigned h.size))
      match ← clSerialnoGet g h.segmentData.serialno SnStatus.closed with
      | some (block, oldAddr) =>
        finishClose g SnStatus.discardingHdrList h.hdrBlock block h.serialnoAddr oldAddr false
      | none => do
        clSerialnoSetstatus g h.serialnoAddr SnStatus.closing
        markFileClosed g h.hdrBlock
        clSerialnoSetstatus g h.serialnoAddr SnStatus.closed
  else return ()

def clFileRemove (sn : Nat) : Cmd St Unit := do
  match ← clSerialnoGet g sn SnStatus.closed with
  | none => .fail
  | some (block, addr) => do
    clSerialnoSetstatus g addr SnStatus.discarding
    cleanupFile g block addr SnStatus.discarding

/-- Finish what was interrupted; the result is the return value 1, that open blocks may be left. -/
def clFileClean (sn hdrBlock : Nat) (status : UInt8) : Cmd St Bool := do
  match ← clSerialnoGet g sn status with
  | none => if hdrBlock = blockInvalid then switch blockInvalid Handle.fresh.serialnoAddr else .fail
  | some (oldBlock, oldAddr) => if hdrBlock = oldBlock then switch oldBlock oldAddr else .fail
where
  switch (oldBlock oldAddr : Nat) : Cmd St Bool :=
    if status = SnStatus.discarding then do
      cleanupFile g oldBlock oldAddr status
      return false
    else if status = SnStatus.discardingHdrList ∨ status = SnStatus.discardingHdr then do
      match ← clSerialnoGet g sn SnStatus.closing with
      | some (newBlock, newAddr) => do
        let _ ← clBlockLoad g newBlock
        finishClose g status newBlock oldBlock newAddr oldAddr false
        return false
      | none => do
        match ← clSerialnoGet g sn SnStatus.closed with
        | none => .fail
        | some (newBlock, newAddr) => do
          let _ ← clBlockLoad g newBlock
          finishClose g status newBlock oldBlock newAddr oldAddr true
          return false
    else if status = SnStatus.closing then do
      match ← clSerialnoGet g sn SnStatus.closed with
      | none => do
        let _ ← clBlockLoad g oldBlock
        markFileClosed g hdrBlock
        clSerialnoSetstatus g oldAddr SnStatus.closed
        return false
      | some _ => do
        cleanupFile g oldBlock oldAddr SnStatus.discardingHdr
        return true
    else if status = SnStatus.opened then do
      clSerialnoSetstatus g oldAddr SnStatus.dirty
      return true
    else .fail

end CoActionOS.Cafs
