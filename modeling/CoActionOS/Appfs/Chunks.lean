import CoActionOS.Appfs.Ownership
import CoActionOS.Bootloader.Flash
import CoActionOS.Cafs.Medium

/-!
# Files that are written in chunks

A file for the flash or an application comes in chunks.  The first brings the header, at offset 0: space is looked for,
and what the later chunks need of it is kept in the handle.  A later chunk only has its offset.

`writes_inside_iff` says which chunks are written to where nothing was found free: the bound counts the initialized data
twice, and its sums may go round.
-/

namespace CoActionOS

namespace Appfs

open Cafs (Bytes le32 u32 slice overwrite)
open Bootloader (hwplLastBootloaderPage)

/-! ### Headers -/

/-- The header at the start of some bytes. -/
def AppfsFile.ofBytes (d : Bytes) : AppfsFile where
  name := Vector.ofFn fun i => d i
  codeStart := BitVec.ofNat 32 (u32 d 32)
  codeSize := BitVec.ofNat 32 (u32 d 36)
  ramStart := BitVec.ofNat 32 (u32 d 40)
  ramSize := BitVec.ofNat 32 (u32 d 44)
  dataSize := BitVec.ofNat 32 (u32 d 48)
  options := BitVec.ofNat 32 (u32 d 52)
  signature := BitVec.ofNat 32 (u32 d 56)

/-- The bytes of a header with this mode and `startup`. -/
def AppfsFile.toBytes (file : AppfsFile) (mode : Nat) (startup : BitVec 32) : List UInt8 :=
  file.name.toList ++ le32 mode ++ le32 startup.toNat ++ le32 file.codeStart.toNat ++ le32 file.codeSize.toNat ++
    le32 file.ramStart.toNat ++ le32 file.ramSize.toNat ++ le32 file.dataSize.toNat ++ le32 file.options.toNat ++
    le32 file.signature.toNat

theorem AppfsFile.length_toBytes (file : AppfsFile) (mode : Nat) (startup : BitVec 32) :
    (file.toBytes mode startup).length = sizeofAppfsFile := by
  unfold AppfsFile.toBytes
  simp only [List.length_append, Vector.length_toList, Cafs.length_le32]
  rfl

/-! ### The calls -/

/-- `appfs_installattr_t`; the buffer goes on with the memory behind it. -/
structure InstallChunk where
  loc : BitVec 32
  nbyte : BitVec 32
  buffer : Bytes

/-- `appfs_util_handle_t` -/
structure InstallHandle where
  codeStart : BitVec 32
  codeSize : BitVec 32
  dataStart : BitVec 32
  dataSize : BitVec 32
  rewriteMask : BitVec 32

/-- The open `.install` file; `checked` is how many bytes were last checked to be free for the code of a file. -/
structure Session where
  store : Store
  handle : InstallHandle
  errno : Option Errno
  checked : Nat

inductive ChunkRequest
  | install | create
  deriving DecidableEq, Repr

variable (dev : Device) (symbols : List (BitVec 32))

/-- A word of the body. -/
def InstallHandle.translate (h : InstallHandle) (w : BitVec 32) : BitVec 32 × Bool :=
  translateValue symbols w h.rewriteMask h.codeStart h.dataStart

def wordAt (d : Bytes) (i : Nat) : BitVec 32 := BitVec.ofNat 32 (u32 d (4 * i))

/-- The loop over `n` words from the word `i` on; `none` is the return of -1. -/
def translateWords (h : InstallHandle) (src : Bytes) : Nat → Nat → Option Errno → Bytes → Option Errno × Option Bytes
  | 0, _, errno, dest => (errno, some dest)
  | n + 1, i, errno, dest =>
    let (value, enoexec) := h.translate symbols (wordAt src i)
    let errno := if enoexec then some .enoexec else errno
    let dest := overwrite dest (4 * i) (le32 value.toNat)
    if value = 0 ∧ errno = some .enoexec then (errno, none) else translateWords h src n (i + 1) errno dest

/-- The end of `appfs_util_priv_writeinstall`: what is written to the memory, or -1. -/
def finishInstall (s : Session) (attr : InstallChunk) (dest : Bytes) : Session × Option InstallChunk :=
  let loc := attr.loc + s.handle.codeStart
  if s.handle.codeStart + s.handle.codeSize + s.handle.dataSize < loc + attr.nbyte then
    ({ s with errno := some .einval }, none)
  else (s, some { attr with loc := loc, buffer := dest })

/-- The first part of an image without the words behind the header. -/
def headerAttr (file : AppfsFile) : InstallAttr := ⟨sizeofAppfsFile, file, []⟩

/-- The handle of an application whose header was accepted. -/
def installHandle (file : AppfsFile) (code data : Store.Place) : InstallHandle where
  codeStart := BitVec.ofNat 32 code.addr
  codeSize := file.codeSize + file.dataSize
  dataStart := BitVec.ofNat 32 data.addr
  dataSize := file.dataSize
  rewriteMask := file.codeStart &&& appfsRewriteMask

/-- `dest` with the header in it.  The whole chunk is copied there first, also the bytes behind its last whole word, for
which `dest` has no room. -/
def headerDest (stack : Bytes) (attr : InstallChunk) (file : AppfsFile) (code data : Store.Place) : Bytes :=
  let startup := ((installHandle file code data).translate symbols (wordAt attr.buffer 7)).1
  overwrite (fun i => if i < attr.nbyte.toNat then attr.buffer i else stack i) 0
    (((headerAttr file).dest code data).toBytes 0o555 startup)

/-- `appfs_util_priv_writeinstall`.  `stack` is what is in `dest`, and behind it, before it is written; for a later chunk only
its whole words are. -/
def writeinstall (stack : Bytes) (s : Session) (attr : InstallChunk) : Session × Option InstallChunk :=
  if attr.loc = 0 then
    let file := AppfsFile.ofBytes attr.buffer
    let header := headerAttr file
    if attr.nbyte.toNat < sizeofAppfsFile then ({ s with errno := some .enotsup }, none)
    else if some file.signature ≠ (symbolsTable symbols)[0]? then ({ s with errno := some .enoexec }, none)
    else
      match s.store.findProtectableFree dev header.type header.codeSize with
      | none => ({ s with errno := some .enospc }, none)
      | some code =>
        let s := { s with store := s.store.markCode header code }
        match s.store.findProtectableFree dev .ram file.ramSize with
        | none => ({ s with errno := some .enospc }, none)
        | some data =>
          let h := installHandle file code data
          let s := { s with store := s.store.markData header data, handle := h, checked := header.codeSize.toInt.toNat }
          match translateWords symbols h attr.buffer (attr.nbyte.toNat / 4 - 15) 15 none
              (headerDest symbols stack attr file code data) with
          | (errno, none) => ({ s with errno := errno }, none)
          | (errno, some dest) => finishInstall { s with errno := errno } attr dest
  else if attr.loc &&& 3 ≠ 0 then ({ s with errno := some .enotsup }, none)
  else
    match translateWords symbols s.handle attr.buffer (attr.nbyte.toNat / 4) 0 s.errno stack with
    | (errno, none) => ({ s with errno := errno }, none)
    | (errno, some dest) => finishInstall { s with errno := errno } attr dest

def findFreeLoop (s : Store) (size : BitVec 32) : Nat → Nat → Option Store.Place
  | 0, _ => none
  | fuel + 1, num =>
    match dev.memGetpageinfo .flash num with
    | none => none
    | some (addr, _) =>
      match s.checkForFreeSpace dev num .flash size with
      | some free => some ⟨num, addr, free⟩
      | none => findFreeLoop s size fuel (num + 1)

def findFree (s : Store) (size : BitVec 32) : Option Store.Place :=
  findFreeLoop dev s size (dev.pageBound .flash) hwplLastBootloaderPage

/-- The end of `appfs_util_priv_create`. -/
def finishCreate (s : Session) (attr : InstallChunk) : Session × Option InstallChunk :=
  let loc := attr.loc + s.handle.codeStart
  if s.handle.codeStart + s.handle.codeSize < loc + attr.nbyte then ({ s with errno := some .einval }, none)
  else (s, some { attr with loc := loc })

/-- The header of a data file, with the name finished. -/
def createdFile (file : AppfsFile) (codeStart : BitVec 32) : AppfsFile :=
  { file with
    name := finishName file.name
    codeStart := codeStart
    ramStart := 0
    ramSize := 0
    dataSize := 0
    options := 0 }

/-- `appfs_util_priv_create` -/
def privCreate (s : Session) (attr : InstallChunk) : Session × Option InstallChunk :=
  if attr.loc = 0 then
    let file := AppfsFile.ofBytes attr.buffer
    if attr.nbyte.toNat < sizeofAppfsFile then ({ s with errno := some .enotsup }, none)
    else if file.signature ≠ appfsCreateSignature then ({ s with errno := some .einval }, none)
    else
      match findFree dev s.store file.codeSize with
      | none => ({ s with errno := some .enomem }, none)
      | some code =>
        let codeStart := BitVec.ofNat 32 code.addr
        let s :=
          { s with handle := ⟨codeStart, file.codeSize, 0, 0, 0⟩, checked := file.codeSize.toInt.toNat }
        finishCreate s { attr with buffer := overwrite attr.buffer 0 ((createdFile file codeStart).toBytes 0o444 0) }
  else if attr.loc &&& 3 ≠ 0 then ({ s with errno := some .enotsup }, none)
  else finishCreate s attr

/-- `appfs_priv_ioctl` for these two requests: what is given to `I_MEM_WRITEPAGE`, or -1 is returned. -/
def appfsPrivIoctl (request : ChunkRequest) (stack : Bytes) (s : Session) (attr : InstallChunk) :
    Session × Option InstallChunk :=
  match request with
  | .install => writeinstall dev symbols stack s attr
  | .create => privCreate dev s attr

/-! ### The statement -/

/-- After a header was accepted: chunks at other offsets, and what else sets `errno`. -/
inductive Later (s₁ : Session) : Session → Prop
  | refl : Later s₁ s₁
  | chunk {s : Session} (request : ChunkRequest) (stack : Bytes) (attr : InstallChunk) :
      Later s₁ s → attr.loc ≠ 0 → Later s₁ (appfsPrivIoctl dev symbols request stack s attr).1
  | errno {s : Session} (errno : Option Errno) : Later s₁ s → Later s₁ { s with errno := errno }

/-- What is written lies in what was checked to be free. -/
def InstallChunk.Inside (w : InstallChunk) (s : Session) : Prop :=
  ∀ a, w.loc.toNat ≤ a → a < w.loc.toNat + w.nbyte.toNat →
    s.handle.codeStart.toNat ≤ a ∧ a < s.handle.codeStart.toNat + s.checked

/-- The address that a chunk is not to go beyond. -/
def Session.bound (s : Session) : ChunkRequest → BitVec 32
  | .install => s.handle.codeStart + s.handle.codeSize + s.handle.dataSize
  | .create => s.handle.codeStart + s.handle.codeSize

/-- A chunk is empty, or ends in the area, or ends behind the bound when its sum is cut to 32 bits. -/
def InstallChunk.Stays (attr : InstallChunk) (request : ChunkRequest) (s : Session) : Prop :=
  let start := s.handle.codeStart.toNat
  attr.nbyte = 0 ∨ (start + attr.loc.toNat < 2 ^ 32 ∧ attr.loc.toNat + attr.nbyte.toNat ≤ s.checked) ∨
    (s.bound request).toNat < (start + attr.loc.toNat + attr.nbyte.toNat) % 2 ^ 32

/-- A later chunk is not aligned, or a word of it is a symbol that the kernel does not have. -/
def Session.Refuses (s : Session) (request : ChunkRequest) (stack : Bytes) (attr : InstallChunk) : Prop :=
  attr.loc &&& 3 ≠ 0 ∨ request = .install ∧
    (translateWords symbols s.handle attr.buffer (attr.nbyte.toNat / 4) 0 s.errno stack).2 = none

/-! ### The calls keep the handle -/

section

variable {dev symbols} {request : ChunkRequest} {stack : Bytes} {s s₁ s₂ : Session} {attr w : InstallChunk}

theorem finishInstall_of_pass (hpass : ¬ s.bound .install < attr.loc + s.handle.codeStart + attr.nbyte) (dest : Bytes) :
    finishInstall s attr dest = (s, some { attr with loc := attr.loc + s.handle.codeStart, buffer := dest }) :=
  if_neg hpass

theorem finishInstall_of_over (hover : s.bound .install < attr.loc + s.handle.codeStart + attr.nbyte) (dest : Bytes) :
    finishInstall s attr dest = ({ s with errno := some .einval }, none) :=
  if_pos hover

theorem finishCreate_of_pass (hpass : ¬ s.bound .create < attr.loc + s.handle.codeStart + attr.nbyte) :
    finishCreate s attr = (s, some { attr with loc := attr.loc + s.handle.codeStart }) :=
  if_neg hpass

theorem finishCreate_of_over (hover : s.bound .create < attr.loc + s.handle.codeStart + attr.nbyte) :
    finishCreate s attr = ({ s with errno := some .einval }, none) :=
  if_pos hover

theorem finishInstall_eq_some (dest : Bytes) :
    (finishInstall s attr dest).2 = some w ↔
      ¬ s.bound .install < attr.loc + s.handle.codeStart + attr.nbyte ∧
        w = { attr with loc := attr.loc + s.handle.codeStart, buffer := dest } := by
  by_cases hover : s.bound .install < attr.loc + s.handle.codeStart + attr.nbyte
  · rw [finishInstall_of_over hover]
    exact iff_of_false (by exact nofun) fun h => h.1 hover
  · rw [finishInstall_of_pass hover]
    exact ⟨fun h => ⟨hover, (Option.some.inj h).symm⟩, fun h => congrArg some h.2.symm⟩

theorem finishCreate_eq_some :
    (finishCreate s attr).2 = some w ↔
      ¬ s.bound .create < attr.loc + s.handle.codeStart + attr.nbyte ∧
        w = { attr with loc := attr.loc + s.handle.codeStart } := by
  by_cases hover : s.bound .create < attr.loc + s.handle.codeStart + attr.nbyte
  · rw [finishCreate_of_over hover]
    exact iff_of_false (by exact nofun) fun h => h.1 hover
  · rw [finishCreate_of_pass hover]
    exact ⟨fun h => ⟨hover, (Option.some.inj h).symm⟩, fun h => congrArg some h.2.symm⟩

theorem finishInstall_kept (dest : Bytes) :
    (finishInstall s attr dest).1.handle = s.handle ∧ (finishInstall s attr dest).1.checked = s.checked := by
  unfold finishInstall
  dsimp only
  split_ifs
  · exact ⟨rfl, rfl⟩
  · exact ⟨rfl, rfl⟩

theorem finishCreate_kept :
    (finishCreate s attr).1.handle = s.handle ∧ (finishCreate s attr).1.checked = s.checked := by
  unfold finishCreate
  dsimp only
  split_ifs
  · exact ⟨rfl, rfl⟩
  · exact ⟨rfl, rfl⟩

variable (dev symbols request stack s) in
/-- A later chunk keeps the handle; it is refused, or comes to the end of the function. -/
theorem later_cases (hloc : attr.loc ≠ 0) :
    s.Refuses symbols request stack attr ∧
        (∃ errno, appfsPrivIoctl dev symbols request stack s attr = ({ s with errno := errno }, none)) ∨
      ¬ s.Refuses symbols request stack attr ∧
        ∃ errno, match request with
          | .install => ∃ dest, appfsPrivIoctl dev symbols request stack s attr =
              finishInstall { s with errno := errno } attr dest
          | .create => appfsPrivIoctl dev symbols request stack s attr = finishCreate { s with errno := errno } attr := by
  by_cases halign : attr.loc &&& 3 ≠ 0
  · refine .inl ⟨.inl halign, some .enotsup, ?_⟩
    cases request with
    | install =>
      unfold appfsPrivIoctl writeinstall
      dsimp only
      rw [if_neg hloc, if_pos halign]
    | create =>
      unfold appfsPrivIoctl privCreate
      dsimp only
      rw [if_neg hloc, if_pos halign]
  · cases request with
    | install =>
      unfold appfsPrivIoctl writeinstall Session.Refuses
      dsimp only
      rw [if_neg hloc, if_neg halign]
      rcases translateWords symbols s.handle attr.buffer (attr.nbyte.toNat / 4) 0 s.errno stack with ⟨errno, _ | dest⟩
      · exact .inl ⟨.inr ⟨rfl, rfl⟩, errno, rfl⟩
      · refine .inr ⟨?_, errno, dest, rfl⟩
        rintro (h | ⟨-, h⟩)
        · exact halign h
        · exact nomatch h
    | create =>
      unfold appfsPrivIoctl privCreate
      dsimp only
      rw [if_neg hloc, if_neg halign]
      refine .inr ⟨?_, s.errno, rfl⟩
      rintro (h | ⟨h, -⟩)
      · exact halign h
      · exact nomatch h

variable (dev symbols request stack s) in
theorem later_kept (hloc : attr.loc ≠ 0) :
    (appfsPrivIoctl dev symbols request stack s attr).1.handle = s.handle ∧
      (appfsPrivIoctl dev symbols request stack s attr).1.checked = s.checked := by
  rcases later_cases dev symbols request stack s hloc with ⟨-, errno, heq⟩ | ⟨-, errno, heq⟩
  · rw [heq]
    exact ⟨rfl, rfl⟩
  · cases request with
    | install =>
      obtain ⟨dest, heq⟩ := heq
      rw [heq]
      exact finishInstall_kept dest
    | create =>
      rw [heq]
      exact finishCreate_kept

theorem Later.kept (h : Later dev symbols s₁ s) : s.handle = s₁.handle ∧ s.checked = s₁.checked := by
  induction h with
  | refl => exact ⟨rfl, rfl⟩
  | @chunk s request stack attr _ hloc ih =>
    obtain ⟨hhandle, hchecked⟩ := later_kept dev symbols request stack s hloc
    exact ⟨hhandle.trans ih.1, hchecked.trans ih.2⟩
  | errno errno _ ih => exact ih

/-! ### The bound -/

theorem bound_lt_iff :
    s.bound request < attr.loc + s.handle.codeStart + attr.nbyte ↔
      (s.bound request).toNat < (s.handle.codeStart.toNat + attr.loc.toNat + attr.nbyte.toNat) % 2 ^ 32 := by
  rw [BitVec.lt_def, BitVec.toNat_add, BitVec.toNat_add, Nat.mod_add_mod, Nat.add_comm attr.loc.toNat]

/-- What is not beyond the bound lies in the area if the chunk stays. -/
theorem inside_iff (hpass : ¬ s.bound request < attr.loc + s.handle.codeStart + attr.nbyte) (dest : Bytes) :
    InstallChunk.Inside ⟨attr.loc + s.handle.codeStart, attr.nbyte, dest⟩ s ↔ attr.Stays request s := by
  have hloc := attr.loc.isLt
  have hstart := s.handle.codeStart.isLt
  have hnot := mt bound_lt_iff.mpr hpass
  unfold InstallChunk.Inside InstallChunk.Stays
  dsimp only
  rw [or_iff_left hnot, BitVec.toNat_add]
  by_cases hempty : attr.nbyte = 0
  · refine iff_of_true (fun a h1 h2 => ?_) (.inl hempty)
    rw [hempty] at h2
    exact absurd h1 (Nat.not_le_of_lt h2)
  · have hpos : 0 < attr.nbyte.toNat := Nat.pos_of_ne_zero fun h => hempty (BitVec.eq_of_toNat_eq h)
    rw [or_iff_right hempty]
    constructor
    · intro hinside
      have hfirst := hinside _ le_rfl (Nat.lt_add_of_pos_right hpos)
      have hlast := hinside ((attr.loc.toNat + s.handle.codeStart.toNat) % 2 ^ 32 + (attr.nbyte.toNat - 1)) (by omega) (by omega)
      omega
    · rintro ⟨hlt, hle⟩ a h1 h2
      rw [Nat.mod_eq_of_lt (by omega)] at h1 h2
      omega

/-- Whatever the end of a function writes lies in the area exactly if the chunk stays. -/
theorem finishInstall_stays_iff (dest : Bytes) :
    (∀ w, (finishInstall s attr dest).2 = some w → w.Inside s) ↔ attr.Stays .install s := by
  by_cases hover : s.bound .install < attr.loc + s.handle.codeStart + attr.nbyte
  · refine iff_of_true (fun w hw => ?_) (.inr (.inr (bound_lt_iff.mp hover)))
    exact absurd hover ((finishInstall_eq_some dest).mp hw).1
  · rw [← inside_iff hover dest]
    refine ⟨fun h => h _ ((finishInstall_eq_some dest).mpr ⟨hover, rfl⟩), fun h w hw => ?_⟩
    rw [((finishInstall_eq_some dest).mp hw).2]
    exact h

theorem finishCreate_stays_iff : (∀ w, (finishCreate s attr).2 = some w → w.Inside s) ↔ attr.Stays .create s := by
  by_cases hover : s.bound .create < attr.loc + s.handle.codeStart + attr.nbyte
  · refine iff_of_true (fun w hw => ?_) (.inr (.inr (bound_lt_iff.mp hover)))
    exact absurd hover (finishCreate_eq_some.mp hw).1
  · rw [← inside_iff hover attr.buffer]
    refine ⟨fun h => h _ (finishCreate_eq_some.mpr ⟨hover, rfl⟩), fun h w hw => ?_⟩
    rw [(finishCreate_eq_some.mp hw).2]
    exact h

theorem finishInstall_inside_iff {dest : Bytes} (h : finishInstall s attr dest = (s₁, some w)) :
    w.Inside s₁ ↔ attr.Stays .install s₁ := by
  obtain ⟨hpass, rfl⟩ := (finishInstall_eq_some dest).mp (congrArg Prod.snd h)
  have hs : s₁ = s := congrArg Prod.fst (h.symm.trans (finishInstall_of_pass hpass dest))
  rw [hs]
  exact inside_iff hpass dest

theorem finishCreate_inside_iff (h : finishCreate s attr = (s₁, some w)) : w.Inside s₁ ↔ attr.Stays .create s₁ := by
  obtain ⟨hpass, rfl⟩ := finishCreate_eq_some.mp (congrArg Prod.snd h)
  have hs : s₁ = s := congrArg Prod.fst (h.symm.trans (finishCreate_of_pass hpass))
  rw [hs]
  exact inside_iff hpass attr.buffer

/-- The signature is the kernel's, and these places are found. -/
structure HeaderAccepted (dev : Device) (symbols : List (BitVec 32)) (s : Store) (file : AppfsFile)
    (code data : Store.Place) : Prop where
  signature : some file.signature = (symbolsTable symbols)[0]?
  foundCode : s.findProtectableFree dev (headerAttr file).type (headerAttr file).codeSize = some code
  foundData : (s.markCode (headerAttr file) code).findProtectableFree dev .ram file.ramSize = some data

/-- The session with an accepted header. -/
def Session.accepted (s : Session) (file : AppfsFile) (code data : Store.Place) : Session :=
  { s with
    store := (s.store.markCode (headerAttr file) code).markData (headerAttr file) data
    handle := installHandle file code data
    checked := (headerAttr file).codeSize.toInt.toNat }

/-- What a chunk with an accepted header does. -/
theorem writeinstall_accepted {code data : Store.Place} (hloc : attr.loc = 0) (hsize : sizeofAppfsFile ≤ attr.nbyte.toNat)
    (h : HeaderAccepted dev symbols s.store (AppfsFile.ofBytes attr.buffer) code data) :
    writeinstall dev symbols stack s attr =
      match translateWords symbols (s.accepted (AppfsFile.ofBytes attr.buffer) code data).handle attr.buffer
          (attr.nbyte.toNat / 4 - 15) 15 none
          (headerDest symbols stack attr (AppfsFile.ofBytes attr.buffer) code data) with
      | (errno, none) => ({ s.accepted (AppfsFile.ofBytes attr.buffer) code data with errno := errno }, none)
      | (errno, some dest) =>
        finishInstall { s.accepted (AppfsFile.ofBytes attr.buffer) code data with errno := errno } attr dest := by
  unfold writeinstall
  dsimp only
  rw [if_pos hloc, if_neg (Nat.not_lt_of_le hsize), if_neg (not_not.mpr h.signature), h.foundCode]
  dsimp only
  rw [h.foundData]
  rfl

variable (dev symbols stack s) in
/-- A chunk with a header is refused before anything of the body is looked at, or its header is accepted. -/
theorem writeinstall_header (hloc : attr.loc = 0) :
    (writeinstall dev symbols stack s attr).2 = none ∨ sizeofAppfsFile ≤ attr.nbyte.toNat ∧
      ∃ code data, HeaderAccepted dev symbols s.store (AppfsFile.ofBytes attr.buffer) code data := by
  unfold writeinstall
  dsimp only
  rw [if_pos hloc]
  by_cases hsize : attr.nbyte.toNat < sizeofAppfsFile
  · rw [if_pos hsize]
    exact .inl rfl
  rw [if_neg hsize]
  by_cases hsignature : some (AppfsFile.ofBytes attr.buffer).signature = (symbolsTable symbols)[0]?
  swap
  · rw [if_pos hsignature]
    exact .inl rfl
  rw [if_neg (not_not.mpr hsignature)]
  cases hcode : s.store.findProtectableFree dev (headerAttr (AppfsFile.ofBytes attr.buffer)).type
      (headerAttr (AppfsFile.ofBytes attr.buffer)).codeSize with
  | none => exact .inl rfl
  | some code =>
    dsimp only
    cases hdata : (s.store.markCode (headerAttr (AppfsFile.ofBytes attr.buffer)) code).findProtectableFree dev .ram
        (AppfsFile.ofBytes attr.buffer).ramSize with
    | none => exact .inl rfl
    | some data => exact .inr ⟨Nat.le_of_not_lt hsize, code, data, hsignature, hcode, hdata⟩

variable (dev s) in
theorem privCreate_header (hloc : attr.loc = 0) :
    (privCreate dev s attr).2 = none ∨ sizeofAppfsFile ≤ attr.nbyte.toNat ∧
      (AppfsFile.ofBytes attr.buffer).signature = appfsCreateSignature ∧
        ∃ code, findFree dev s.store (AppfsFile.ofBytes attr.buffer).codeSize = some code := by
  unfold privCreate
  dsimp only
  rw [if_pos hloc]
  by_cases hsize : attr.nbyte.toNat < sizeofAppfsFile
  · rw [if_pos hsize]
    exact .inl rfl
  rw [if_neg hsize]
  by_cases hsignature : (AppfsFile.ofBytes attr.buffer).signature = appfsCreateSignature
  swap
  · rw [if_pos hsignature]
    exact .inl rfl
  rw [if_neg (not_not.mpr hsignature)]
  cases hcode : findFree dev s.store (AppfsFile.ofBytes attr.buffer).codeSize with
  | none => exact .inl rfl
  | some code => exact .inr ⟨Nat.le_of_not_lt hsize, hsignature, code, rfl⟩

/-- The session with an accepted header of a data file. -/
def Session.created (s : Session) (file : AppfsFile) (code : Store.Place) : Session :=
  { s with
    handle := ⟨BitVec.ofNat 32 code.addr, file.codeSize, 0, 0, 0⟩
    checked := file.codeSize.toInt.toNat }

theorem privCreate_accepted {code : Store.Place} (hloc : attr.loc = 0) (hsize : sizeofAppfsFile ≤ attr.nbyte.toNat)
    (hsignature : (AppfsFile.ofBytes attr.buffer).signature = appfsCreateSignature)
    (hcode : findFree dev s.store (AppfsFile.ofBytes attr.buffer).codeSize = some code) :
    privCreate dev s attr =
      finishCreate (s.created (AppfsFile.ofBytes attr.buffer) code)
        { attr with
          buffer := overwrite attr.buffer 0
            ((createdFile (AppfsFile.ofBytes attr.buffer) (BitVec.ofNat 32 code.addr)).toBytes 0o444 0) } := by
  unfold privCreate
  dsimp only
  rw [if_pos hloc, if_neg (Nat.not_lt_of_le hsize), if_neg (not_not.mpr hsignature), hcode]
  rfl

/-- A chunk whose header is accepted is written inside exactly if it stays. -/
theorem header_inside_iff (hloc : attr.loc = 0) (hacc : appfsPrivIoctl dev symbols request stack s attr = (s₁, some w)) :
    w.Inside s₁ ↔ attr.Stays request s₁ := by
  cases request with
  | install =>
    change writeinstall dev symbols stack s attr = (s₁, some w) at hacc
    rcases writeinstall_header dev symbols stack s hloc with hnone | ⟨hsize, code, data, h⟩
    · rw [hacc] at hnone
      exact nomatch hnone
    · rw [writeinstall_accepted hloc hsize h] at hacc
      split at hacc
      · exact nomatch hacc
      · exact finishInstall_inside_iff hacc
  | create =>
    change privCreate dev s attr = (s₁, some w) at hacc
    rcases privCreate_header dev s hloc with hnone | ⟨hsize, hsignature, code, hcode⟩
    · rw [hacc] at hnone
      exact nomatch hnone
    · rw [privCreate_accepted hloc hsize hsignature hcode] at hacc
      have hiff := finishCreate_inside_iff hacc
      unfold InstallChunk.Stays at hiff ⊢
      exact hiff

end

/-- Every chunk of a file is written to where space was found, or not at all, exactly if the chunk with the header stays
and each later one is refused or stays. -/
theorem writes_inside_iff (dev : Device) (symbols : List (BitVec 32)) (request request' : ChunkRequest)
    (stack stack' : Bytes) (s s₁ s₂ : Session) (hdr attr w : InstallChunk) (hhdr : hdr.loc = 0)
    (hacc : appfsPrivIoctl dev symbols request stack s hdr = (s₁, some w)) (hlater : Later dev symbols s₁ s₂)
    (hattr : attr.loc ≠ 0) :
    (w.Inside s₁ ∧ ∀ w', (appfsPrivIoctl dev symbols request' stack' s₂ attr).2 = some w' → w'.Inside s₁) ↔
      hdr.Stays request s₁ ∧ (s₂.Refuses symbols request' stack' attr ∨ attr.Stays request' s₁) := by
  obtain ⟨hhandle, hchecked⟩ := hlater.kept
  have hstays : ∀ r, attr.Stays r s₂ ↔ attr.Stays r s₁ := by
    intro r
    unfold InstallChunk.Stays Session.bound
    rw [hhandle, hchecked]
  have hinside : ∀ w' : InstallChunk, w'.Inside s₂ ↔ w'.Inside s₁ := by
    intro w'
    unfold InstallChunk.Inside
    rw [hhandle, hchecked]
  rw [header_inside_iff hhdr hacc]
  refine and_congr_right fun _ => ?_
  rcases later_cases dev symbols request' stack' s₂ hattr with ⟨hrefuses, errno, heq⟩ | ⟨hnot, errno, heq⟩
  · rw [heq]
    exact iff_of_true (fun w' hw' => nomatch hw') (.inl hrefuses)
  · rw [or_iff_right hnot]
    have hback : (∀ w', (appfsPrivIoctl dev symbols request' stack' s₂ attr).2 = some w' → w'.Inside s₁) ↔
        ∀ w', (appfsPrivIoctl dev symbols request' stack' s₂ attr).2 = some w' → w'.Inside s₂ :=
      forall₂_congr fun w' _ => (hinside w').symm
    rw [hback, ← hstays]
    cases request' with
    | install =>
      obtain ⟨dest, heq⟩ := heq
      rw [heq]
      exact finishInstall_stays_iff dest
    | create =>
      rw [heq]
      exact finishCreate_stays_iff

/-- An application for the flash with a hundred bytes of code and as many of data, and its header. -/
def dataImage : AppfsFile :=
  { (image 0x61 appfsExecOptionsFlash 1000).file with dataSize := 100 }

def dataHeader : InstallChunk := ⟨0, 60, fun i => (dataImage.toBytes 0 0).getD i 0⟩

def freshSession : Session := ⟨emptySystem.store, ⟨0, 0, 0, 0, 0⟩, none, 0⟩

/-- The session after the header, in which 200 bytes were found free. -/
def dataSession : Session := (appfsPrivIoctl smallDevice [] .install (fun _ => 0) freshSession dataHeader).1

theorem dataHeader_accepted :
    ∃ w, appfsPrivIoctl smallDevice [] .install (fun _ => 0) freshSession dataHeader = (dataSession, some w) := by
  have hsome : (appfsPrivIoctl smallDevice [] .install (fun _ => 0) freshSession dataHeader).2.isSome = true := by
    decide
  obtain ⟨w, hw⟩ := Option.isSome_iff_exists.mp hsome
  exact ⟨w, Prod.ext rfl hw⟩

theorem writes_inside_iff_dataHeader :
    ∃ w, appfsPrivIoctl smallDevice [] .install (fun _ => 0) freshSession dataHeader = (dataSession, some w) ∧
      ((w.Inside dataSession ∧ ∀ w', (appfsPrivIoctl smallDevice [] .install (fun _ => 0) dataSession
          ⟨60, 140, fun _ => 0⟩).2 = some w' → w'.Inside dataSession) ↔
        dataHeader.Stays .install dataSession ∧
          (dataSession.Refuses [] .install (fun _ => 0) ⟨60, 140, fun _ => 0⟩ ∨
            InstallChunk.Stays ⟨60, 140, fun _ => 0⟩ .install dataSession)) := by
  obtain ⟨w, hacc⟩ := dataHeader_accepted
  exact ⟨w, hacc, writes_inside_iff smallDevice [] .install .install (fun _ => 0) (fun _ => 0) freshSession dataSession
    dataSession dataHeader ⟨60, 140, fun _ => 0⟩ w rfl hacc .refl (by decide)⟩

/-- A chunk behind the 200 bytes is written, because the bound counts the data twice. -/
theorem not_writes_inside : ¬ ∀ (dev : Device) (symbols : List (BitVec 32)) (request request' : ChunkRequest)
    (stack stack' : Bytes) (s s₁ s₂ : Session) (hdr attr w : InstallChunk), hdr.loc = 0 →
    appfsPrivIoctl dev symbols request stack s hdr = (s₁, some w) → Later dev symbols s₁ s₂ → attr.loc ≠ 0 →
      w.Inside s₁ ∧ ∀ w', (appfsPrivIoctl dev symbols request' stack' s₂ attr).2 = some w' → w'.Inside s₁ := by
  intro h
  obtain ⟨w, hacc⟩ := dataHeader_accepted
  have hwritten : (appfsPrivIoctl smallDevice [] .install (fun _ => 0) dataSession ⟨200, 100, fun _ => 0⟩).2.map
      (fun w => (w.loc, w.nbyte)) = some (200, 100) := by decide
  obtain ⟨w', hw', heq⟩ := Option.map_eq_some_iff.mp hwritten
  have hinside := (h smallDevice [] .install .install _ (fun _ => 0) _ dataSession dataSession dataHeader _ w rfl hacc .refl
    (by decide : (200 : BitVec 32) ≠ 0)).2 w' hw'
  have harea : dataSession.handle.codeStart = 0 ∧ dataSession.checked = 200 := by decide
  obtain ⟨hloc, hnbyte⟩ := Prod.mk.inj heq
  unfold InstallChunk.Inside at hinside
  rw [hloc, hnbyte, harea.1, harea.2] at hinside
  exact absurd (hinside 200 (by decide) (by decide)).2 (by decide)

end Appfs

end CoActionOS
