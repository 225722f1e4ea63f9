import CoActionOS.Errno
import Mathlib.Algebra.Group.Nat.Defs
import Mathlib.Data.Finset.Card
import Mathlib.Data.Finset.Range
import Mathlib.Logic.Function.Basic
import Mathlib.Tactic.SplitIfs

/-!
# The table of open files

The descriptors of a process and the calls that take and give them back: `_open`, `_close` and the library calls
that open a file for their own use.  A slot is reserved before the file system is asked; the handle `1` marks it.

What the path checks and the file systems answer is an input of every call, so that a result about all inputs is one
about every behaviour of the file systems.
-/

namespace CoActionOS

namespace Unistd

open Function

/-- `O_APPEND`, `O_CREAT`, `O_RDWR`, `S_IFMT`, `S_IFDIR`, `S_IFREG` and `FILDES_STDIO_FLAG` -/
def oAppend : Nat := 0x0008
def oCreat : Nat := 0x0200
def oRdwr : Nat := 0x0002
def sIfmt : Nat := 0xF000
def sIfdir : Nat := 0x4000
def sIfreg : Nat := 0x8000
def fildesStdioFlag : Nat := 0x0200

/-- `OPEN_MAX` and the numbers of the standard streams. -/
structure Limits where
  openMax : Nat
  stdinFileno : Nat
  stdoutFileno : Nat
  stderrFileno : Nat

/-- The handle of an open file is the address of an object. -/
abbrev Handle : Type := { h : Nat // 2 ≤ h }

structure OpenFile where
  fs : Nat
  handle : Nat
  loc : Int
  flags : Nat
  deriving DecidableEq, Repr

abbrev OpenTable : Type := Nat → OpenFile

/-- What `sysfs_ispathinvalid`, `sysfs_find` and the file system say to an open call, and where a seek to the end of
the file leads. -/
structure OpenAnswer where
  invalid : Option Errno
  fs : Option Nat
  opened : Nat → Option Handle
  size : Int

namespace OpenTable

variable (t : OpenTable)

def setHandle (i h : Nat) : OpenTable := update t i { t i with handle := h }

def unistdResetFildes (i : Nat) : OpenTable := t.setHandle i 0

/-- `set_open_file`; the flags are kept as a `uint16_t`. -/
def setOpenFile (i fs handle flags : Nat) : OpenTable := update t i ⟨fs, handle, 0, flags % 2 ^ 16⟩

def setLoc (i : Nat) (loc : Int) : OpenTable := update t i { t i with loc := loc }

/-- The slot that `unistd_new_open_file` finds. -/
def freeSlot (openMax start : Nat) : Option Nat :=
  (List.range' start (openMax - start)).find? fun i => (t i).handle = 0

/-- The descriptors in use. -/
def used (openMax : Nat) : Finset Nat := (Finset.range openMax).filter fun i => (t i).handle ≠ 0

def handles (i : Nat) : Nat := (t i).handle

end OpenTable

/-- The mode a file is opened with; a directory is not created this way. -/
def openMode (flags mode : Nat) : Except Errno Nat :=
  if flags &&& oCreat ≠ 0 then
    let fmt := mode &&& sIfmt
    if fmt = sIfdir then .error .einval
    else if fmt = 0 then .ok (mode ||| sIfreg)
    else .ok mode
  else .ok 0

/-- `_open`; the error `none` is one the file system has set. -/
def openFile (l : Limits) (flags mode : Nat) (a : OpenAnswer) (t : OpenTable) :
    OpenTable × Except (Option Errno) Nat :=
  match a.invalid with
  | some e => (t, .error (some e))
  | none =>
    match a.fs with
    | none => (t, .error (some .enoent))
    | some fs =>
      match t.freeSlot l.openMax 0 with
      | none => (t, .error (some .emfile))
      | some fildes =>
        let t := t.setHandle fildes 1
        match openMode flags mode with
        | .error e => (t, .error (some e))
        | .ok mode =>
          match a.opened mode with
          | none => (t.unistdResetFildes fildes, .error none)
          | some handle =>
            let t := t.setOpenFile fildes fs handle flags
            if flags &&& oAppend ≠ 0 then (t.setLoc fildes a.size, .ok fildes) else (t, .ok fildes)

/-- The answers to the three opens of `unistd_init_stdio`. -/
structure StdioAnswer where
  stdin : OpenAnswer
  stdout : OpenAnswer
  stderr : OpenAnswer

/-- `unistd_init_stdio`: whichever of the streams is asked for, the descriptor is the one of `stdin`. -/
def unistdInitStdio (l : Limits) (fildes : Nat) (a : StdioAnswer) (t : OpenTable) : OpenTable × Option Nat :=
  if fildes = l.stdinFileno ∨ fildes = l.stdoutFileno ∨ fildes = l.stderrFileno then
    let i := openFile l oRdwr 0 a.stdin t
    let o := openFile l oRdwr 0 a.stdout i.1
    let e := openFile l oRdwr 0 a.stderr o.1
    (e.1, i.2.toOption)
  else (t, none)

/-- `unistd_fildes_is_bad`: the descriptor, or `none` with `EBADF`. -/
def fildesIsBad (l : Limits) (fildes : Int) (a : StdioAnswer) (t : OpenTable) : OpenTable × Option Nat :=
  if fildes < 0 then (t, none)
  else if fildes < l.openMax then
    -- the handles 0 and 1 differ in the lowest bit only
    if (t fildes.toNat).handle / 2 ≠ 0 then (t, some fildes.toNat) else (t, none)
  else if fildes.toNat &&& fildesStdioFlag ≠ 0 then unistdInitStdio l fildes.toNat a t
  else (t, none)

/-- `_close`, where `closed` is what the file system returns. -/
def closeFile (l : Limits) (fildes : Int) (a : StdioAnswer) (closed : Int) (t : OpenTable) : OpenTable × Int :=
  match fildesIsBad l fildes a t with
  | (t, none) => (t, -1)
  | (t, some fildes) => (t.unistdResetFildes fildes, closed)

/-- `settimeofday_rtc`; `set` is the result of `I_RTC_SET`. -/
def settimeofdayRtc (l : Limits) (a : OpenAnswer) (set : Int) (s : StdioAnswer) (closed : Int) (t : OpenTable) :
    OpenTable × Int :=
  match openFile l oRdwr 0 a t with
  | (t, .error _) => (t, -1)
  | (t, .ok fd) => if set < 0 then ((closeFile l fd s closed t).1, -1) else (t, 0)

/-- `gettimeofday_rtc`; `get` is the result of `I_RTC_GET`. -/
def gettimeofdayRtc (l : Limits) (a : OpenAnswer) (get : Int) (s : StdioAnswer) (closed : Int) (t : OpenTable) :
    OpenTable × Int :=
  match openFile l oRdwr 0 a t with
  | (t, .error _) => (t, -1)
  | (t, .ok fd) => if get < 0 then ((closeFile l fd s closed t).1, -1) else ((closeFile l fd s closed t).1, 0)

/-- `sizeof(appfs_file_t)`, and what `process_start` learns on its way: whether the program may be executed, what
the read of its header returns, whether the header is one, whether its memory is free, and the new process. -/
structure ProgramAnswer where
  headerSize : Int
  access : Int
  read : Int
  executable : Bool
  reentIsFree : Bool
  newProcess : Int

def processStart (l : Limits) (p : ProgramAnswer) (a : OpenAnswer) (s : StdioAnswer) (closed : Int) (t : OpenTable) :
    OpenTable × Int :=
  if p.access < 0 then (t, -1)
  else
    match openFile l 0 0 a t with
    | (t, .error _) => (t, -1)
    | (t, .ok fd) =>
      if p.read ≠ p.headerSize then ((closeFile l fd s closed t).1, -1)
      else if p.executable = false then (t, -1)
      else if p.reentIsFree = false then ((closeFile l fd s closed t).1, -1)
      else ((closeFile l fd s closed t).1, p.newProcess)

/-! ### What the calls do to the table -/

section

variable {l : Limits} {t : OpenTable} {openMax i h : Nat}

theorem mem_used : i ∈ t.used openMax ↔ i < openMax ∧ (t i).handle ≠ 0 := by
  rw [OpenTable.used, Finset.mem_filter, Finset.mem_range]

/-- Which descriptors are in use is a matter of the handles only. -/
theorem used_congr {t' : OpenTable} (hhandles : t'.handles = t.handles) : t'.used openMax = t.used openMax := by
  ext j
  rw [mem_used, mem_used]
  show j < openMax ∧ t'.handles j ≠ 0 ↔ j < openMax ∧ t.handles j ≠ 0
  rw [hhandles]

theorem used_insert {t' : OpenTable} (hi : i < openMax) (hh : h ≠ 0) (hhandles : t'.handles = update t.handles i h) :
    t'.used openMax = insert i (t.used openMax) := by
  ext j
  rw [Finset.mem_insert, mem_used, mem_used]
  show j < openMax ∧ t'.handles j ≠ 0 ↔ j = i ∨ j < openMax ∧ t.handles j ≠ 0
  rw [hhandles]
  by_cases hj : j = i
  · subst hj
    rw [update_self]
    exact ⟨fun _ => .inl rfl, fun _ => ⟨hi, hh⟩⟩
  · rw [update_of_ne hj]
    exact ⟨.inr, fun h => h.resolve_left hj⟩

theorem used_erase {t' : OpenTable} (hhandles : t'.handles = update t.handles i 0) :
    t'.used openMax = (t.used openMax).erase i := by
  ext j
  rw [Finset.mem_erase, mem_used, mem_used]
  show j < openMax ∧ t'.handles j ≠ 0 ↔ j ≠ i ∧ j < openMax ∧ t.handles j ≠ 0
  rw [hhandles]
  by_cases hj : j = i
  · subst hj
    rw [update_self]
    exact ⟨fun h => absurd rfl h.2, fun h => absurd rfl h.1⟩
  · rw [update_of_ne hj]
    exact ⟨fun h => ⟨hj, h⟩, fun h => h.2⟩

@[simp]
theorem handles_setHandle : (t.setHandle i h).handles = update t.handles i h := by
  ext j
  by_cases hj : j = i
  · subst hj
    simp [OpenTable.handles, OpenTable.setHandle]
  · simp [OpenTable.handles, OpenTable.setHandle, hj]

@[simp]
theorem handles_unistdResetFildes : (t.unistdResetFildes i).handles = update t.handles i 0 :=
  handles_setHandle

@[simp]
theorem handles_setOpenFile {fs flags : Nat} : (t.setOpenFile i fs h flags).handles = update t.handles i h := by
  ext j
  by_cases hj : j = i
  · subst hj
    simp [OpenTable.handles, OpenTable.setOpenFile]
  · simp [OpenTable.handles, OpenTable.setOpenFile, hj]

@[simp]
theorem handles_setLoc {loc : Int} : (t.setLoc i loc).handles = t.handles := by
  ext j
  by_cases hj : j = i
  · subst hj
    simp [OpenTable.handles, OpenTable.setLoc]
  · simp [OpenTable.handles, OpenTable.setLoc, hj]

theorem freeSlot_spec (hfree : t.freeSlot openMax 0 = some i) : i < openMax ∧ (t i).handle = 0 := by
  have hmem := List.mem_of_find?_eq_some hfree
  have hzero := List.find?_some hfree
  rw [List.mem_range'_1] at hmem
  exact ⟨by omega, of_decide_eq_true hzero⟩

/-- No slot is found only in a full table. -/
theorem freeSlot_eq_none (hfree : t.freeSlot openMax 0 = none) : t.used openMax = Finset.range openMax := by
  ext j
  rw [mem_used, Finset.mem_range]
  refine ⟨fun h => h.1, fun hj => ⟨hj, fun hzero => ?_⟩⟩
  have hmem : j ∈ List.range' 0 (openMax - 0) := List.mem_range'_1.mpr ⟨Nat.zero_le j, by omega⟩
  exact List.find?_eq_none.mp hfree j hmem (decide_eq_true hzero)

/-- The path is good and a slot free, but the mode asks for a directory. -/
def ReservesOnly (l : Limits) (flags mode : Nat) (a : OpenAnswer) (t : OpenTable) : Prop :=
  flags &&& oCreat ≠ 0 ∧ mode &&& sIfmt = sIfdir ∧ a.invalid = none ∧ a.fs ≠ none ∧ t.freeSlot l.openMax 0 ≠ none

instance (flags mode : Nat) (a : OpenAnswer) : Decidable (ReservesOnly l flags mode a t) :=
  inferInstanceAs (Decidable (_ ∧ _))

/-- The open call gives a descriptor: the path is good, a slot is free and the file system opens the file. -/
def Opens (l : Limits) (a : OpenAnswer) (t : OpenTable) : Prop :=
  a.invalid = none ∧ a.fs ≠ none ∧ t.freeSlot l.openMax 0 ≠ none ∧ a.opened 0 ≠ none

instance (a : OpenAnswer) : Decidable (Opens l a t) :=
  inferInstanceAs (Decidable (_ ∧ _))

/-- An open call takes one slot that was free or leaves the table as it was, save that it may reserve a slot for a
directory. -/
theorem openFile_cases (flags mode : Nat) (a : OpenAnswer) {t' : OpenTable} {r : Except (Option Errno) Nat}
    (h : openFile l flags mode a t = (t', r)) (hmode : ¬ ReservesOnly l flags mode a t) :
    (∃ i handle, r = .ok i ∧ i < l.openMax ∧ t.handles i = 0 ∧ 2 ≤ handle ∧
      t'.handles = update t.handles i handle) ∨
    (∃ e, r = .error e) ∧ t'.handles = t.handles := by
  unfold openFile at h
  cases hinvalid : a.invalid with
  | some e =>
    rw [hinvalid] at h
    cases h
    exact .inr ⟨⟨_, rfl⟩, rfl⟩
  | none =>
    rw [hinvalid] at h
    cases hfs : a.fs with
    | none =>
      rw [hfs] at h
      cases h
      exact .inr ⟨⟨_, rfl⟩, rfl⟩
    | some fs =>
      rw [hfs] at h
      cases hfree : t.freeSlot l.openMax 0 with
      | none =>
        rw [hfree] at h
        cases h
        exact .inr ⟨⟨_, rfl⟩, rfl⟩
      | some i =>
        rw [hfree] at h
        obtain ⟨hi, hzero⟩ := freeSlot_spec hfree
        cases hok : openMode flags mode with
        | error e =>
          -- the only error of the mode is the one that is excluded
          exfalso
          unfold openMode at hok
          dsimp only at hok
          split_ifs at hok with hcreat hdir
          exact hmode ⟨hcreat, hdir, hinvalid, by rw [hfs]; exact Option.some_ne_none _,
            by rw [hfree]; exact Option.some_ne_none _⟩
        | ok m =>
          simp only [hok] at h
          cases hopened : a.opened m with
          | none =>
            simp only [hopened, Prod.mk.injEq] at h
            obtain ⟨rfl, rfl⟩ := h
            refine .inr ⟨⟨_, rfl⟩, ?_⟩
            rw [handles_unistdResetFildes, handles_setHandle, update_idem]
            exact update_eq_self_iff.mpr hzero.symm
          | some handle =>
            simp only [hopened] at h
            have hset : ((t.setHandle i 1).setOpenFile i fs handle flags).handles = update t.handles i handle := by
              rw [handles_setOpenFile, handles_setHandle, update_idem]
            split_ifs at h
            · cases h
              exact .inl ⟨i, handle, rfl, hi, hzero, handle.property, by rw [handles_setLoc, hset]⟩
            · cases h
              exact .inl ⟨i, handle, rfl, hi, hzero, handle.property, hset⟩

/-- A read-write or read-only open for internal use never asks for a directory. -/
theorem not_reservesOnly_internal {flags : Nat} (hflags : flags &&& oCreat = 0) (a : OpenAnswer) :
    ¬ ReservesOnly l flags 0 a t :=
  fun h => h.1 hflags

/-- An open for internal use that gives a descriptor met its condition. -/
theorem opens_of_ok {flags : Nat} (hflags : flags &&& oCreat = 0) {a : OpenAnswer} {t' : OpenTable} {i : Nat}
    (h : openFile l flags 0 a t = (t', .ok i)) : Opens l a t := by
  have hmode : openMode flags 0 = .ok 0 := by
    unfold openMode
    rw [if_neg (not_not.mpr hflags)]
  unfold openFile at h
  simp only [hmode] at h
  cases hinvalid : a.invalid with
  | some e =>
    rw [hinvalid] at h
    cases h
  | none =>
    rw [hinvalid] at h
    cases hfs : a.fs with
    | none =>
      rw [hfs] at h
      cases h
    | some fs =>
      rw [hfs] at h
      cases hfree : t.freeSlot l.openMax 0 with
      | none =>
        rw [hfree] at h
        cases h
      | some j =>
        cases hopened : a.opened 0 with
        | none =>
          simp only [hfree, hopened, Prod.mk.injEq] at h
          cases h.2
        | some handle =>
          exact ⟨hinvalid, by rw [hfs]; exact Option.some_ne_none _, by rw [hfree]; exact Option.some_ne_none _,
            by rw [hopened]; exact Option.some_ne_none _⟩

/-- Closing a number below `OPEN_MAX` whose file is open frees that slot. -/
theorem closeFile_of_open (a : StdioAnswer) (closed : Int) (hi : i < l.openMax) (hh : 2 ≤ (t i).handle) :
    closeFile l i a closed t = (t.unistdResetFildes i, closed) := by
  have hbad : fildesIsBad l i a t = (t, some i) := by
    have hopen : (t (i : Int).toNat).handle / 2 ≠ 0 := by
      rw [Int.toNat_natCast]
      omega
    unfold fildesIsBad
    rw [if_neg (by omega), if_pos (by omega), if_pos hopen, Int.toNat_natCast]
  unfold closeFile
  rw [hbad]

/-- A descriptor that a call has opened and closes again leaves the handles as they were. -/
theorem handles_openFile_closeFile {flags : Nat} (hflags : flags &&& oCreat = 0) {a : OpenAnswer} {t' : OpenTable}
    {fd : Nat} (h : openFile l flags 0 a t = (t', .ok fd)) (s : StdioAnswer) (closed : Int) :
    (closeFile l fd s closed t').1.handles = t.handles := by
  rcases openFile_cases flags 0 a h (not_reservesOnly_internal hflags a) with
    ⟨i, handle, hr, hi, hzero, hhandle, hhandles⟩ | ⟨⟨e, he⟩, -⟩
  · cases hr
    have hopen : 2 ≤ (t' fd).handle := by
      show 2 ≤ t'.handles fd
      rw [hhandles, update_self]
      exact hhandle
    rw [closeFile_of_open s closed hi hopen, handles_unistdResetFildes, hhandles, update_idem]
    exact update_eq_self_iff.mpr hzero.symm
  · cases he

theorem handles_openFile_error {flags : Nat} (hflags : flags &&& oCreat = 0) {a : OpenAnswer} {t' : OpenTable}
    {e : Option Errno} (h : openFile l flags 0 a t = (t', .error e)) : t'.handles = t.handles := by
  rcases openFile_cases flags 0 a h (not_reservesOnly_internal hflags a) with ⟨i, handle, hr, -⟩ | ⟨-, hhandles⟩
  · cases hr
  · exact hhandles

/-- `settimeofday_rtc` keeps the descriptor it has opened once the clock is set. -/
theorem handles_settimeofdayRtc (a : OpenAnswer) {set : Int} (s : StdioAnswer) (closed : Int)
    (hset : set < 0 ∨ ¬ Opens l a t) : (settimeofdayRtc l a set s closed t).1.handles = t.handles := by
  unfold settimeofdayRtc
  cases hopen : openFile l oRdwr 0 a t with
  | mk t' r =>
    cases r with
    | error e => exact handles_openFile_error rfl hopen
    | ok fd =>
      have hneg : set < 0 := hset.resolve_right (not_not.mpr (opens_of_ok rfl hopen))
      dsimp only
      rw [if_pos hneg]
      exact handles_openFile_closeFile rfl hopen s closed

theorem handles_gettimeofdayRtc (a : OpenAnswer) (get : Int) (s : StdioAnswer) (closed : Int) :
    (gettimeofdayRtc l a get s closed t).1.handles = t.handles := by
  unfold gettimeofdayRtc
  cases hopen : openFile l oRdwr 0 a t with
  | mk t' r =>
    cases r with
    | error e => exact handles_openFile_error rfl hopen
    | ok fd =>
      dsimp only
      split_ifs <;> exact handles_openFile_closeFile rfl hopen s closed

/-- `process_start` keeps the descriptor of a file whose header it has read and that is no program. -/
theorem handles_processStart {p : ProgramAnswer} (a : OpenAnswer) (s : StdioAnswer) (closed : Int)
    (hprogram : p.access < 0 ∨ p.read ≠ p.headerSize ∨ p.executable = true ∨ ¬ Opens l a t) :
    (processStart l p a s closed t).1.handles = t.handles := by
  unfold processStart
  by_cases haccess : p.access < 0
  · rw [if_pos haccess]
  · rw [if_neg haccess]
    cases hopen : openFile l 0 0 a t with
    | mk t' r =>
      cases r with
      | error e => exact handles_openFile_error rfl hopen
      | ok fd =>
        have hopens := opens_of_ok rfl hopen
        dsimp only
        split_ifs with hread hexecutable
        · exact handles_openFile_closeFile rfl hopen s closed
        · rcases hprogram with h | h | h | h
          · exact absurd h haccess
          · exact absurd h hread
          · rw [hexecutable] at h
            cases h
          · exact absurd hopens h
        · exact handles_openFile_closeFile rfl hopen s closed
        · exact handles_openFile_closeFile rfl hopen s closed

end

end Unistd

end CoActionOS
