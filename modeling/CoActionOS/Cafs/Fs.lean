import Mathlib.Logic.Function.Basic
import CoActionOS.Errno
import CoActionOS.Lib.Run
import CoActionOS.Cafs.File

/-!
# The file system calls

`cafsLiteOpen` and its siblings are the entry points of `cafs_lite.c`.  `Fs` is the file system with
the handles its callers hold, and `Fs.step` one call; every call runs under the file system's lock,
except for the part of a read or a write that uses only the caller's own handle, so calls do not
overlap.

`errno` is modelled as far as the entry points set it.  `malloc` of a handle is assumed to succeed.
-/

namespace CoActionOS.Cafs

variable (g : Geometry)

/-! ### Paths and flags -/

/-- `sysfs_getfilename`, from `name` on with `path` still to be read. -/
def getfilenameFrom (name : List UInt8) : List UInt8 → List UInt8
  | [] => name
  | c :: path => if c = '/'.toUInt8 then getfilenameFrom path path else getfilenameFrom name path

def sysfsGetfilename (path : List UInt8) : List UInt8 := getfilenameFrom path path

/-- A path as the system passes it on: a C string whose components have at most `NAME_MAX`
characters. -/
structure Path where
  chars : List UInt8
  noNul : 0 ∉ chars
  nameFits : (sysfsGetfilename chars).length ≤ nameMax

inductive AccMode
  | rdonly
  | wronly
  | rdwr
  deriving DecidableEq, Repr

structure OpenFlags where
  accmode : AccMode
  creat : Bool
  excl : Bool
  trunc : Bool
  deriving DecidableEq, Repr

/-- `sysfs_getamode` -/
def sysfsGetamode (flags : OpenFlags) : Amode where
  r := flags.accmode ≠ .wronly
  w := flags.accmode ≠ .rdonly || flags.creat || flags.trunc

/-! ### Mounting and formatting -/

/-- The loop of `cafs_lite_init`, which may still clean up `n` files after the next one. -/
def mountFrom : Nat → Bool → Cmd St Bool
  | n, cleanOpenBlocks => do
    match ← (clSerialnoInit g).attempt with
    | none => giveUp
    | some none => return cleanOpenBlocks
    | some (some bad) => do
      let c ← clFileClean g bad.serialno bad.block bad.status
      match n with
      | 0 => giveUp
      | n + 1 => mountFrom n (cleanOpenBlocks || c)
where
  giveUp : Cmd St Bool := do
    .modify fun s => { s with up := false }
    .fail

def cafsLiteInit : Cmd St Unit := do
  .modify fun s => { s with up := true }
  let cleanOpenBlocks ← mountFrom g 4 false
  clScratchInit g
  .when cleanOpenBlocks (clBlockDiscardopen g)

def cafsLiteMkfs : Cmd St Unit := do
  .modify fun s => { s with up := true }
  match ← (do clDevErase g; clSerialnoMkfs g : Cmd St Unit).attempt with
  | some () => return ()
  | none => do
    .modify fun s => { s with up := false }
    .fail

/-! ### Files -/

/-- A call that returns a value, or -1 with the `errno` it has set, if any. -/
abbrev Ret (α : Type) := Except (Option Errno) α

def orErrno {α : Type} (c : Cmd St α) (e : Option Errno) : Cmd St (Ret α) := do
  match ← c.attempt with
  | some a => return .ok a
  | none => return .error e

def cafsLiteOpen (path : Path) (flags : OpenFlags) : Cmd St (Ret Handle) := do
  let amode := sysfsGetamode flags
  match ← (clDirLookup g path.chars).attempt with
  | none => return .error (some .enotdir)
  | some (some sn) =>
    if flags.excl && flags.creat then return .error (some .eexist)
    else if flags.trunc then orErrno (clFileOpen g sn amode true) (some .enospc)
    else do
      match ← orErrno (clFileOpen g sn amode false) (some .enospc) with
      | .error e => return .error e
      | .ok h => return if h.size < 0 then .error (some .efbig) else .ok h
  | some none =>
    if flags.creat then do
      let sn ← clSerialnoNew
      orErrno (clFileNew g (sysfsGetfilename path.chars) sn BlockType.fileHdr amode) (some .enospc)
    else return .error (some .enoent)

def cafsLiteUnlink (path : Path) : Cmd St (Ret Unit) := do
  match ← (clDirLookup g path.chars).attempt with
  | none => return .error none
  | some none => return .error (some .enoent)
  | some (some sn) => do
    match ← clSerialnoGet g sn SnStatus.opened with
    | some _ => return .error (some .eacces)
    | none => orErrno (clFileRemove g sn) none

/-- The number of bytes and the bytes, and the handle. -/
def cafsLiteRead (h : Handle) (loc nbyte : Int) : Cmd St (Ret (Int × List UInt8) × Handle) :=
  let h := { h with op := ⟨loc, nbyte, [], []⟩ }
  if h.amode.r = false then return (.error (some .eacces), h)
  else
    let (ret, h) := clFileStartread h
    if ret = nbyte then return (.ok (h.op.nbyte, h.op.out), h)
    else do
      match ← clFileFinishread g h with
      | (none, h) => return (.error none, h)
      | (some (), h) => return (.ok (h.op.nbyte, h.op.out), h)

/-- `nbyte` is the length of the buffer. -/
def cafsLiteWrite (h : Handle) (append : Bool) (loc : Int) (buf : List UInt8) :
    Cmd St (Ret Int × Handle) :=
  let h := { h with op := ⟨if append then h.size else loc, buf.length, buf, []⟩ }
  if h.amode.w = false then return (.error (some .eacces), h)
  else
    let (ret, h) := clFileStartwrite h
    if ret = buf.length then return (.ok h.op.nbyte, h)
    else do
      match ← clFileFinishwrite g h with
      | (none, h) => return (.error none, h)
      | (some (), h) => return (.ok h.op.nbyte, h)

def cafsLiteClose (h : Handle) : Cmd St (Ret Unit) := orErrno (clFileClose g h) none

/-! ### Calls one after the other -/

structure Fs where
  st : St
  /-- the handles that callers hold -/
  handle : Nat → Option Handle
  /-- the name of the next handle -/
  next : Nat

inductive FsCall
  | mkfs
  /-- the system starts again and mounts what is on the device -/
  | mount
  | open (path : Path) (flags : OpenFlags)
  | read (fd : Nat) (loc nbyte : Int)
  | write (fd : Nat) (append : Bool) (loc : Int) (buf : List UInt8)
  | close (fd : Nat)
  | unlink (path : Path)

inductive FsRet
  | done
  | opened (fd : Nat)
  | bytes (n : Int) (out : List UInt8)
  | wrote (n : Int)
  | failed (e : Option Errno)
  deriving DecidableEq

namespace Fs

open Function

variable (s : Fs)

def setHandle (fd : Nat) (h : Option Handle) : Fs := { s with handle := update s.handle fd h }

/-- The outcome of a call that returns on the file system `s`. -/
def finish {α : Type} (o : Outcome St α) (k : α → Fs → Fs × FsRet) : Option (Fs × Option FsRet) :=
  match o with
  | .ok a st => some ((k a { s with st := st }).map id some)
  | .error st => some ({ s with st := st }, some (.failed none))
  | .hang => none

/-- The value of a call, or its failure. -/
def ret {α : Type} (r : Ret α) (s : Fs) (k : α → Fs → Fs × FsRet) : Fs × FsRet :=
  match r with
  | .ok a => k a s
  | .error e => (s, .failed e)

/-- The RAM of the file system when the system starts. -/
def reboot : Fs where
  st := { s.st with listBlock := 0, serialno := 0 }
  handle _ := none
  next := s.next

def step : FsCall → Option (Fs × Option FsRet)
  | .mkfs => s.finish (cafsLiteMkfs g s.st) fun _ s => (s, .done)
  | .mount => s.reboot.finish (cafsLiteInit g s.reboot.st) fun _ s => (s, .done)
  | .open path flags =>
    s.finish (cafsLiteOpen g path flags s.st) fun r s =>
      ret r s fun h s => ({ s.setHandle s.next (some h) with next := s.next + 1 }, .opened s.next)
  | .read fd loc nbyte =>
    match s.handle fd with
    | none => none
    | some h =>
      s.finish (cafsLiteRead g h loc nbyte s.st) fun r s =>
        ret r.1 (s.setHandle fd (some r.2)) fun n s => (s, .bytes n.1 n.2)
  | .write fd append loc buf =>
    match s.handle fd with
    | none => none
    | some h =>
      s.finish (cafsLiteWrite g h append loc buf s.st) fun r s =>
        ret r.1 (s.setHandle fd (some r.2)) fun n s => (s, .wrote n)
  | .close fd =>
    match s.handle fd with
    | none => none
    | some h =>
      s.finish (cafsLiteClose g h s.st) fun r s =>
        ret r (s.setHandle fd none) fun _ s => (s, .done)
  | .unlink path =>
    s.finish (cafsLiteUnlink g path s.st) fun r s => ret r s fun _ s => (s, .done)

end Fs

end CoActionOS.Cafs
