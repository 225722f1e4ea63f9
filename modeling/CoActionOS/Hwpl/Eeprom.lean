import Mathlib.Algebra.Group.Nat.Defs
import Mathlib.Logic.Function.Basic
import Mathlib.Order.Nat
import Mathlib.Tactic.SplitIfs
import CoActionOS.Errno
import CoActionOS.Lib.Run

/-!
# The EEPROM

A write loads the bytes of the first page and starts its program command; the interrupt handler does the same with each page that
follows, and calls the callback when there is none.  Both take up to the end of a page.  A read goes through the pages in one
loop.

`write_read` says that the bytes are those of the buffer when the callback has run, and that nothing else is started before.
-/

namespace CoActionOS

namespace Hwpl

namespace Eeprom

open Function

def size : Nat := 4 * 1024

def pageSize : Nat := 64

/-! ### The code -/

/-- The registers: what is stored, the bytes loaded since the last program command, and the address. -/
structure Device where
  content : Nat → UInt8
  loaded : Nat → Option UInt8
  addr : Nat
  /-- A program command is being executed. -/
  programming : Bool
  /-- Its interrupt is enabled. -/
  enabled : Bool

/-- `eeprom_local`; a callback is what it returns. -/
structure EepromLocal where
  buf : Nat
  len : Nat
  offset : Nat
  page : Nat
  callback : Option Int

structure State where
  dev : Device
  loc : EepromLocal
  mem : Nat → UInt8
  errno : Option Errno
  /-- The calls of callbacks so far. -/
  calls : Nat

structure DeviceTransfer where
  loc : Int
  nbyte : Int
  buf : Nat
  callback : Option Int

/-- `calc_offset` -/
def calcOffset (loc : Int) : Nat := (loc % pageSize).toNat

/-- `calc_page`, as it is stored -/
def calcPage (loc : Int) : Nat := (loc / pageSize % 256).toNat

namespace State

variable (s : State)

/-- The local variables go on to the next byte. -/
def nextByte : EepromLocal :=
  { s.loc with
    len := (s.loc.len + 65535) % 65536
    offset := (s.loc.offset + 1) % 256
    buf := (s.loc.buf + 1) % 2 ^ 32 }

/-- `WDATA`: a byte is loaded and the address goes on. -/
def loadByte : State :=
  { s with
    dev := { s.dev with
      loaded := update s.dev.loaded (s.dev.addr % pageSize) (some (s.mem s.loc.buf))
      addr := s.dev.addr + 1 }
    loc := s.nextByte }

/-- The loop that fills the page, in the call and in the handler; there is room for so many bytes at most. -/
def fill : Nat → State → State
  | 0, s => s
  | room + 1, s =>
    let s := s.loadByte
    if s.loc.offset < pageSize ∧ 0 < s.loc.len then fill room s else s

/-- `ADDR = offset; CMD = 3;` and the loop. -/
def fillPage : State := fill pageSize { s with dev := { s.dev with addr := s.loc.offset } }

/-- `_hwpl_eeprom_dev_write` -/
def eepromDevWrite (wop : DeviceTransfer) : Int × State :=
  if wop.nbyte = 0 then (0, s)
  else if s.loc.buf ≠ 0 then (-1, { s with errno := some .eagain })
  else if wop.loc + wop.nbyte > size ∨ wop.loc < 0 then (-1, { s with errno := some .einval })
  else
    let s := { s with
      loc := {
        buf := wop.buf
        len := (wop.nbyte % 65536).toNat
        offset := calcOffset wop.loc
        page := calcPage wop.loc
        callback := wop.callback } }
    let s := s.fillPage
    (0, { s with
      dev := { s.dev with addr := s.loc.page * 64, programming := true, enabled := true }
      loc := { s.loc with page := (s.loc.page + 1) % 256, offset := 0 } })

/-- `RDATA` at the address, which goes on. -/
def readByte : State :=
  { s with
    mem := update s.mem s.loc.buf (s.dev.content s.dev.addr)
    dev := { s.dev with addr := s.dev.addr + 1 }
    loc := s.nextByte }

/-- The next page is addressed. -/
def turnPage : State :=
  if s.loc.offset = pageSize then
    { s with
      dev := { s.dev with addr := (s.loc.page + 1) % 256 * 64 }
      loc := { s.loc with offset := 0, page := (s.loc.page + 1) % 256 } }
  else s

/-- The loop of the read, with the length at the start as the number of rounds. -/
def readLoop : Nat → State → State
  | 0, s => s
  | rounds + 1, s =>
    let s := s.readByte.turnPage
    if 0 < s.loc.len then readLoop rounds s else s

/-- `_hwpl_eeprom_dev_read` -/
def eepromDevRead (rop : DeviceTransfer) : Int × State :=
  if rop.nbyte = 0 then (0, s)
  else if s.loc.buf ≠ 0 then (-1, { s with errno := some .eagain })
  else if rop.loc + rop.nbyte > size ∨ rop.loc < 0 then (-1, { s with errno := some .einval })
  else
    let s := { s with
      loc := { s.loc with
        buf := rop.buf
        len := (rop.nbyte % 65536).toNat
        offset := calcOffset rop.loc
        page := calcPage rop.loc } }
    let s := { s with dev := { s.dev with addr := s.loc.page * 64 + s.loc.offset } }
    let s := readLoop s.loc.len s
    (rop.nbyte, { s with loc := { s.loc with buf := 0 } })

/-- `exec_callback` -/
def execCallback : State :=
  let s := { s with dev := { s.dev with enabled := false }, loc := { s.loc with buf := 0 } }
  match s.loc.callback with
  | none => s
  | some r => { s with calls := s.calls + 1, loc := { s.loc with callback := if r = 0 then none else some r } }

/-- `_hwpl_core_eeprom_isr`, after a program command -/
def eepromIsr : State :=
  if 0 < s.loc.len then
    let s := s.fillPage
    { s with
      dev := { s.dev with addr := s.loc.page * 64, programming := true }
      loc := { s.loc with page := (s.loc.page + 1) % 256, offset := 0 } }
  else s.execCallback

/-- The program command is complete: the bytes that were loaded are in their page. -/
def complete : State :=
  { s with
    dev := { s.dev with
      content := fun i => if i / 64 = s.dev.addr / 64 then (s.dev.loaded (i % 64)).getD (s.dev.content i) else s.dev.content i
      loaded := fun _ => none
      programming := false } }

end State

/-! ### Runs -/

inductive Action where
  /-- The interrupt at the end of a program command. -/
  | interrupt
  | write (wop : DeviceTransfer)
  | read (rop : DeviceTransfer)

/-- What is observed: an interrupt, or a request for so many bytes with its result. -/
inductive Event where
  | interrupt
  | request (nbyte : Int) (before : State) (result : Int × State)

def Event.isInterrupt : Event → Bool
  | .interrupt => true
  | .request .. => false

def step (s : State) : Action → Option (State × Option Event)
  | .interrupt => if s.dev.programming && s.dev.enabled then some (s.complete.eepromIsr, some .interrupt) else none
  | .write wop => some ((s.eepromDevWrite wop).2, some (.request wop.nbyte s (s.eepromDevWrite wop)))
  | .read rop => some ((s.eepromDevRead rop).2, some (.request rop.nbyte s (s.eepromDevRead rop)))

/-- Other requests come while the write is under way. -/
def InBetween (s : State) : Action → Prop
  | .interrupt => True
  | .write _ | .read _ => s.loc.buf ≠ 0

/-! ### The statement -/

/-- No request is under way. -/
structure Idle (s : State) : Prop where
  buf : s.loc.buf = 0
  loaded : s.dev.loaded = fun _ => none
  programming : s.dev.programming = false

/-- A write within the device from a buffer in memory, with a callback. -/
structure Request where
  loc : Nat
  nbyte : Nat
  buf : Nat
  returns : Int
  nbyte_pos : 0 < nbyte
  inside : loc + nbyte ≤ size
  buf_pos : 0 < buf
  buf_lt : buf + nbyte < 2 ^ 32

namespace Request

variable (w : Request)

def transfer : DeviceTransfer := ⟨w.loc, w.nbyte, w.buf, some w.returns⟩

/-- The pages that are touched. -/
def pages : Nat := (w.loc % 64 + w.nbyte + 63) / 64

/-- The first `q` bytes of the buffer in their place. -/
def written (mem content : Nat → UInt8) (q : Nat) : Nat → UInt8 := fun i =>
  if w.loc ≤ i ∧ i < w.loc + q then mem (w.buf + (i - w.loc)) else content i

/-- A read of the same range into some buffer. -/
def readBack (buf : Nat) : DeviceTransfer := ⟨w.loc, w.nbyte, buf, none⟩

/-- The content is the new one, the callback was called once, and what is read is what was in the buffer. -/
structure Complete (s₀ s : State) : Prop where
  content : s.dev.content = w.written s₀.mem s₀.dev.content w.nbyte
  calls : s.calls = s₀.calls + 1
  idle : Idle s
  readBack : ∀ buf, 0 < buf → buf + w.nbyte < 2 ^ 32 → (s.eepromDevRead (w.readBack buf)).1 = w.nbyte ∧
    (∀ i < w.nbyte, (s.eepromDevRead (w.readBack buf)).2.mem (buf + i) = s₀.mem (w.buf + i)) ∧
    (s.eepromDevRead (w.readBack buf)).2.dev.content = s.dev.content

/-- A request that is refused with `EAGAIN` and changes nothing; one for no bytes has nothing to do. -/
def Refused : Event → Prop
  | .interrupt => True
  | .request nbyte before result =>
    result = if nbyte = 0 then (0, before) else (-1, { before with errno := some .eagain })

end Request

/-! ### A page of a write -/

namespace State

/-- The next `n` bytes of the buffer are loaded. -/
def chunk (s : State) (n : Nat) : State :=
  { s with
    dev := { s.dev with
      loaded := fun i =>
        if s.loc.offset ≤ i ∧ i < s.loc.offset + n then some (s.mem (s.loc.buf + (i - s.loc.offset))) else s.dev.loaded i
      addr := s.dev.addr + n }
    loc := { s.loc with len := s.loc.len - n, offset := s.loc.offset + n, buf := s.loc.buf + n } }

/-- There are bytes to load, within a page and within memory, and the address is that of the next one. -/
structure Loads (s : State) : Prop where
  offset : s.loc.offset < 64
  addr : s.dev.addr = s.loc.offset
  pos : 0 < s.loc.len
  len : s.loc.len < 65536
  buf : s.loc.buf + s.loc.len < 2 ^ 32

theorem nextByte_eq {s : State} (hoffset : s.loc.offset < 64) (hpos : 0 < s.loc.len) (hlen : s.loc.len < 65536)
    (hbuf : s.loc.buf + s.loc.len < 2 ^ 32) :
    s.nextByte = { s.loc with len := s.loc.len - 1, offset := s.loc.offset + 1, buf := s.loc.buf + 1 } := by
  have h1 : (s.loc.len + 65535) % 65536 = s.loc.len - 1 := by omega
  have h2 : (s.loc.offset + 1) % 256 = s.loc.offset + 1 := by omega
  have h3 : (s.loc.buf + 1) % 2 ^ 32 = s.loc.buf + 1 := by omega
  rw [nextByte, h1, h2, h3]

theorem loadByte_eq {s : State} (h : s.Loads) : s.loadByte = s.chunk 1 := by
  have hloaded : update s.dev.loaded (s.dev.addr % pageSize) (some (s.mem s.loc.buf)) =
      fun i => if s.loc.offset ≤ i ∧ i < s.loc.offset + 1 then some (s.mem (s.loc.buf + (i - s.loc.offset)))
        else s.dev.loaded i := by
    have haddr : s.dev.addr % pageSize = s.loc.offset := by
      rw [h.addr]
      exact Nat.mod_eq_of_lt h.offset
    funext i
    rw [haddr]
    by_cases hi : i = s.loc.offset
    · subst hi
      simp
    · rw [update_of_ne hi, if_neg (by omega)]
  rw [loadByte, nextByte_eq h.offset h.pos h.len h.buf, hloaded]
  rfl

theorem chunk_loaded (s : State) (n i : Nat) :
    (s.chunk n).dev.loaded i =
      if s.loc.offset ≤ i ∧ i < s.loc.offset + n then some (s.mem (s.loc.buf + (i - s.loc.offset))) else s.dev.loaded i := rfl

theorem chunk_loc (s : State) (n : Nat) :
    (s.chunk n).loc = { s.loc with len := s.loc.len - n, offset := s.loc.offset + n, buf := s.loc.buf + n } := rfl

theorem chunk_mem (s : State) (n : Nat) : (s.chunk n).mem = s.mem := rfl

theorem chunk_chunk (s : State) (m n : Nat) : (s.chunk m).chunk n = s.chunk (m + n) := by
  have hloaded : ((s.chunk m).chunk n).dev.loaded = (s.chunk (m + n)).dev.loaded := by
    funext i
    rw [chunk_loaded, chunk_loaded, chunk_loaded, chunk_loc, chunk_mem]
    by_cases hlater : s.loc.offset + m ≤ i ∧ i < s.loc.offset + m + n
    · have hi : s.loc.buf + m + (i - (s.loc.offset + m)) = s.loc.buf + (i - s.loc.offset) := by omega
      rw [if_pos hlater, if_pos ⟨by omega, by omega⟩, hi]
    · rw [if_neg hlater]
      exact if_congr (by omega) rfl rfl
  have hloc : ((s.chunk m).chunk n).loc = (s.chunk (m + n)).loc := by
    simp only [chunk_loc, Nat.add_assoc, Nat.sub_sub]
  have haddr : ((s.chunk m).chunk n).dev.addr = (s.chunk (m + n)).dev.addr := Nat.add_assoc ..
  rw [State.mk.injEq, Device.mk.injEq]
  exact ⟨⟨rfl, hloaded, haddr, rfl, rfl⟩, hloc, rfl, rfl, rfl⟩

/-- The loop loads up to the end of the page or of the buffer. -/
theorem fill_eq (room : Nat) {s : State} (h : s.Loads) (hroom : 64 ≤ s.loc.offset + room) :
    fill room s = s.chunk (min (64 - s.loc.offset) s.loc.len) := by
  induction room generalizing s with
  | zero => exact absurd h.offset (by omega)
  | succ room ih =>
    have hoffset : (s.chunk 1).loc.offset = s.loc.offset + 1 := rfl
    have hlen : (s.chunk 1).loc.len = s.loc.len - 1 := rfl
    rw [fill, loadByte_eq h]
    have := h.pos
    have := h.offset
    split_ifs with hmore
    · have hloads : (s.chunk 1).Loads := by
        refine ⟨hmore.1, ?_, hmore.2, ?_, ?_⟩
        · simp [chunk, h.addr]
        · have := h.len
          omega
        · have := h.buf
          have hbuf : (s.chunk 1).loc.buf = s.loc.buf + 1 := rfl
          omega
      rw [ih hloads (by omega), chunk_chunk]
      congr 1
      omega
    · congr 1
      simp only [hoffset, hlen, pageSize] at hmore
      omega

end State

/-! ### The pages of a write -/

namespace State

/-- What the call and the handler do with a page. -/
def programPage (s : State) : State :=
  let s := s.fillPage
  { s with
    dev := { s.dev with addr := s.loc.page * 64, programming := true }
    loc := { s.loc with page := (s.loc.page + 1) % 256, offset := 0 } }

theorem fillPage_eq {s : State} (hoffset : s.loc.offset < 64) (hpos : 0 < s.loc.len) (hlen : s.loc.len < 65536)
    (hbuf : s.loc.buf + s.loc.len < 2 ^ 32) :
    s.fillPage = ({ s with dev := { s.dev with addr := s.loc.offset } } : State).chunk (min (64 - s.loc.offset) s.loc.len) :=
  fill_eq pageSize ⟨hoffset, rfl, hpos, hlen, hbuf⟩ (Nat.le_add_left ..)

theorem eepromIsr_of_pos {s : State} (h : 0 < s.loc.len) : s.eepromIsr = s.programPage := if_pos h

end State

namespace Request

variable {w : Request} {s₀ s : State} {k : Nat}

/-- How many bytes are in the first `k` pages. -/
def upTo (w : Request) (k : Nat) : Nat := min w.nbyte ((w.loc / 64 + k) * 64 - w.loc)

theorem upTo_le (w : Request) (k : Nat) : w.upTo k ≤ w.nbyte := Nat.min_le_left ..

theorem upTo_lt (h : k < w.pages) : w.upTo k < w.nbyte := by
  have := w.nbyte_pos
  unfold pages at h
  unfold upTo
  omega

theorem upTo_of_le (h : w.pages ≤ k) : w.upTo k = w.nbyte := by
  unfold pages at h
  unfold upTo
  omega

/-- The page is to be filled with what follows the first `k` ones. -/
structure Ready (w : Request) (s₀ : State) (k : Nat) (s : State) : Prop where
  content : s.dev.content = w.written s₀.mem s₀.dev.content (w.upTo k)
  loaded : s.dev.loaded = fun _ => none
  loc : s.loc = ⟨w.buf + w.upTo k, w.nbyte - w.upTo k, (w.loc + w.upTo k) % 64, w.loc / 64 + k, some w.returns⟩
  mem : s.mem = s₀.mem
  calls : s.calls = s₀.calls

/-- The first `k` pages are stored and the next one is being programmed. -/
structure Writing (w : Request) (s₀ : State) (k : Nat) (s : State) : Prop where
  content : s.dev.content = w.written s₀.mem s₀.dev.content (w.upTo k)
  loaded : ∀ i < 64, s.dev.loaded i =
    if w.loc + w.upTo k ≤ (w.loc / 64 + k) * 64 + i ∧ (w.loc / 64 + k) * 64 + i < w.loc + w.upTo (k + 1) then
      some (s₀.mem (w.buf + ((w.loc / 64 + k) * 64 + i - w.loc))) else none
  addr : s.dev.addr = (w.loc / 64 + k) * 64
  programming : s.dev.programming = true
  loc : s.loc = ⟨w.buf + w.upTo (k + 1), w.nbyte - w.upTo (k + 1), 0, w.loc / 64 + (k + 1), some w.returns⟩
  mem : s.mem = s₀.mem
  calls : s.calls = s₀.calls

/-- The page begins at the first byte that is not yet stored, or the write begins within it. -/
theorem page_add_offset (h : k < w.pages) : (w.loc / 64 + k) * 64 + (w.loc + w.upTo k) % 64 = w.loc + w.upTo k := by
  unfold pages at h
  unfold upTo
  omega

theorem upTo_succ (h : k < w.pages) :
    w.upTo k + min (64 - (w.loc + w.upTo k) % 64) (w.nbyte - w.upTo k) = w.upTo (k + 1) := by
  unfold pages at h
  unfold upTo
  omega

theorem Ready.programPage (h : w.Ready s₀ k s) (hk : k < w.pages) :
    w.Writing s₀ k s.programPage ∧ s.programPage.dev.enabled = s.dev.enabled := by
  have hlt := upTo_lt hk
  have hpage := page_add_offset hk
  have hnext := upTo_succ hk
  have hoffset : s.loc.offset = (w.loc + w.upTo k) % 64 := by rw [h.loc]
  have hlen : s.loc.len = w.nbyte - w.upTo k := by rw [h.loc]
  have hbuf : s.loc.buf = w.buf + w.upTo k := by rw [h.loc]
  have hinside : w.loc + w.nbyte ≤ 4096 := w.inside
  have hmem := w.buf_lt
  have hfill := State.fillPage_eq (s := s) (by omega) (by omega) (by omega) (by omega)
  rw [hoffset, hlen] at hfill
  generalize hn : min (64 - (w.loc + w.upTo k) % 64) (w.nbyte - w.upTo k) = n at hfill hnext
  unfold State.programPage
  rw [hfill]
  refine ⟨⟨h.content, fun i hi => ?_, ?_, rfl, ?_, h.mem, h.calls⟩, rfl⟩
  · refine (State.chunk_loaded ..).trans ?_
    simp only [h.loc, h.mem, h.loaded]
    by_cases hin : (w.loc + w.upTo k) % 64 ≤ i ∧ i < (w.loc + w.upTo k) % 64 + n
    · rw [if_pos hin, if_pos (by omega)]
      congr 2
      omega
    · rw [if_neg hin, if_neg (by omega)]
  · simp only [State.chunk_loc, h.loc]
  · simp only [State.chunk_loc, h.loc, EepromLocal.mk.injEq, true_and, and_true]
    omega

theorem Writing.complete (h : w.Writing s₀ k s) (hk : k < w.pages) :
    s.complete.dev.content = w.written s₀.mem s₀.dev.content (w.upTo (k + 1)) := by
  have hpage := page_add_offset hk
  have hnext := upTo_succ hk
  funext i
  have hcomplete : s.complete.dev.content i =
      if i / 64 = s.dev.addr / 64 then (s.dev.loaded (i % 64)).getD (s.dev.content i) else s.dev.content i := rfl
  have haddr : (w.loc / 64 + k) * 64 / 64 = w.loc / 64 + k := Nat.mul_div_cancel _ (by decide)
  rw [hcomplete, h.loaded _ (Nat.mod_lt _ (by decide)), h.content, h.addr, haddr]
  unfold written
  by_cases hi : i / 64 = w.loc / 64 + k
  · have hsum : (w.loc / 64 + k) * 64 + i % 64 = i := by omega
    rw [if_pos hi, hsum]
    by_cases hin : w.loc + w.upTo k ≤ i ∧ i < w.loc + w.upTo (k + 1)
    · rw [if_pos hin, Option.getD_some, if_pos ⟨by omega, hin.2⟩]
    · rw [if_neg hin]
      exact if_congr (by omega) rfl rfl
  · rw [if_neg hi]
    exact if_congr (by omega) rfl rfl

theorem Writing.ready (h : w.Writing s₀ k s) (hk : k + 1 < w.pages) : w.Ready s₀ (k + 1) s.complete := by
  have hpage := page_add_offset hk
  refine ⟨h.complete (by omega), rfl, h.loc.trans ?_, h.mem, h.calls⟩
  have hlt := upTo_lt hk
  have hoffset : (w.loc + w.upTo (k + 1)) % 64 = 0 := by
    unfold upTo at hlt ⊢
    omega
  rw [hoffset]

end Request

/-! ### The loop of a read -/

namespace State

/-- There are bytes to read, within the device and into memory, and the address is that of the next one. -/
structure Reads (s : State) : Prop where
  offset : s.loc.offset < 64
  addr : s.dev.addr = s.loc.page * 64 + s.loc.offset
  pos : 0 < s.loc.len
  inside : s.dev.addr + s.loc.len ≤ 4096
  buf : s.loc.buf + s.loc.len < 2 ^ 32

variable {s : State}

theorem Reads.readByte (h : s.Reads) :
    s.readByte = { s with
      mem := update s.mem s.loc.buf (s.dev.content s.dev.addr)
      dev := { s.dev with addr := s.dev.addr + 1 }
      loc := { s.loc with len := s.loc.len - 1, offset := s.loc.offset + 1, buf := s.loc.buf + 1 } } := by
  have hlen : s.loc.len < 65536 := by
    have := h.inside
    omega
  rw [State.readByte, nextByte_eq h.offset h.pos hlen h.buf]

/-- The address is that of the byte that follows, in this page or in the next one. -/
theorem Reads.turnPage (h : s.Reads) :
    s.readByte.turnPage.dev.addr = s.dev.addr + 1 ∧ s.readByte.turnPage.loc.offset < 64 ∧
      s.readByte.turnPage.loc.page * 64 + s.readByte.turnPage.loc.offset = s.dev.addr + 1 := by
  have haddr := h.addr
  have hinside := h.inside
  have hpos := h.pos
  have hoffset := h.offset
  rw [h.readByte]
  unfold State.turnPage
  split_ifs with hend <;> dsimp only [pageSize] at hend ⊢
  · have hpage : (s.loc.page + 1) % 256 = s.loc.page + 1 := by omega
    rw [hpage]
    omega
  · omega

theorem turnPage_mem (s : State) : s.turnPage.mem = s.mem := by
  unfold turnPage
  split_ifs <;> rfl

theorem turnPage_content (s : State) : s.turnPage.dev.content = s.dev.content := by
  unfold turnPage
  split_ifs <;> rfl

theorem turnPage_len (s : State) : s.turnPage.loc.len = s.loc.len := by
  unfold turnPage
  split_ifs <;> rfl

theorem turnPage_buf (s : State) : s.turnPage.loc.buf = s.loc.buf := by
  unfold turnPage
  split_ifs <;> rfl

/-- The bytes of the buffer are those of the device from the address on. -/
theorem Reads.readLoop (rounds : Nat) (h : s.Reads) (hrounds : s.loc.len ≤ rounds) :
    (s.readLoop rounds).dev.content = s.dev.content ∧
      ∀ x, (s.readLoop rounds).mem x =
        if s.loc.buf ≤ x ∧ x < s.loc.buf + s.loc.len then s.dev.content (s.dev.addr + (x - s.loc.buf)) else s.mem x := by
  induction rounds generalizing s with
  | zero => exact absurd h.pos (by omega)
  | succ rounds ih =>
    obtain ⟨haddr, hoffset, hpage⟩ := h.turnPage
    have hbuf : s.readByte.turnPage.loc.buf = s.loc.buf + 1 := by rw [turnPage_buf, h.readByte]
    have hlen : s.readByte.turnPage.loc.len = s.loc.len - 1 := by rw [turnPage_len, h.readByte]
    have hcontent : s.readByte.turnPage.dev.content = s.dev.content := by rw [turnPage_content, h.readByte]
    have hmem : s.readByte.turnPage.mem = update s.mem s.loc.buf (s.dev.content s.dev.addr) := by
      rw [turnPage_mem, h.readByte]
    have hpos := h.pos
    have hinside := h.inside
    have hbuf_lt := h.buf
    unfold State.readLoop
    dsimp only
    generalize s.readByte.turnPage = t at *
    split_ifs with hmore
    · have hreads : t.Reads := ⟨hoffset, by omega, hmore, by omega, by omega⟩
      obtain ⟨hkept, hread⟩ := ih hreads (by omega)
      refine ⟨hkept.trans hcontent, fun x => ?_⟩
      rw [hread, hbuf, hlen, haddr, hcontent, hmem]
      by_cases hx : x = s.loc.buf
      · subst hx
        rw [if_neg (by omega), if_pos (by omega), update_self, Nat.sub_self]
        rfl
      · rw [update_of_ne hx]
        by_cases hin : s.loc.buf + 1 ≤ x ∧ x < s.loc.buf + 1 + (s.loc.len - 1)
        · have hnext : s.dev.addr + 1 + (x - (s.loc.buf + 1)) = s.dev.addr + (x - s.loc.buf) := by omega
          rw [if_pos hin, if_pos (by omega), hnext]
        · rw [if_neg hin, if_neg (by omega)]
    · refine ⟨hcontent, fun x => ?_⟩
      rw [hmem]
      by_cases hx : x = s.loc.buf
      · subst hx
        rw [if_pos (by omega), update_self, Nat.sub_self]
        rfl
      · rw [update_of_ne hx, if_neg (by omega)]

end State

/-! ### The whole write -/

namespace Request

variable {w : Request} {s₀ s : State} {k : Nat}

theorem nbyte_ne_zero (w : Request) : ((w.nbyte : Int) = 0) = False := by
  have := w.nbyte_pos
  exact eq_false (by omega)

theorem fits (w : Request) : ((w.loc : Int) + w.nbyte > size ∨ (w.loc : Int) < 0) = False := by
  have := w.inside
  exact eq_false (by omega)

theorem nbyte_mod (w : Request) : ((w.nbyte : Int) % 65536).toNat = w.nbyte := by
  have : w.loc + w.nbyte ≤ 4096 := w.inside
  omega

theorem calcOffset_natCast (n : Nat) : calcOffset n = n % 64 := by
  unfold calcOffset pageSize
  omega

theorem calcPage_loc (w : Request) : calcPage w.loc = w.loc / 64 := by
  have : w.loc + w.nbyte ≤ 4096 := w.inside
  unfold calcPage pageSize
  omega

/-- A read of the range gives what is stored there. -/
theorem readBack_spec (w : Request) {buf : Nat} (hidle : Idle s) (hbuf : buf + w.nbyte < 2 ^ 32) :
    (s.eepromDevRead (w.readBack buf)).1 = w.nbyte ∧
      (∀ i < w.nbyte, (s.eepromDevRead (w.readBack buf)).2.mem (buf + i) = s.dev.content (w.loc + i)) ∧
      (s.eepromDevRead (w.readBack buf)).2.dev.content = s.dev.content := by
  have hinside : w.loc + w.nbyte ≤ 4096 := w.inside
  unfold State.eepromDevRead
  simp only [readBack, nbyte_ne_zero, fits, hidle.buf, ne_eq, not_true_eq_false, if_false]
  simp only [nbyte_mod, calcOffset_natCast, calcPage_loc]
  generalize ht : ({ s with
      loc := { s.loc with buf := buf, len := w.nbyte, offset := w.loc % 64, page := w.loc / 64 }
      dev := { s.dev with addr := w.loc / 64 * 64 + w.loc % 64 } } : State) = t
  have hreads : t.Reads := by
    subst ht
    refine ⟨Nat.mod_lt _ (by decide), rfl, w.nbyte_pos, ?_, hbuf⟩
    dsimp only
    omega
  have hrounds : t.loc.len ≤ w.nbyte := by
    subst ht
    exact Nat.le_refl _
  obtain ⟨hcontent, hmem⟩ := hreads.readLoop w.nbyte hrounds
  refine ⟨trivial, fun i hi => ?_, hcontent.trans (by rw [← ht])⟩
  refine (hmem (buf + i)).trans ?_
  subst ht
  rw [if_pos ⟨Nat.le_add_right .., Nat.add_lt_add_left hi _⟩]
  dsimp only
  congr 1
  omega

/-- After the last page the callback is called. -/
theorem Writing.complete_eepromIsr (h : w.Writing s₀ k s) (hk : k + 1 = w.pages) : w.Complete s₀ s.complete.eepromIsr := by
  have hlast : w.upTo (k + 1) = w.nbyte := upTo_of_le hk.ge
  have hcontent := h.complete (by omega)
  rw [hlast] at hcontent
  have hlen : ¬ 0 < s.complete.loc.len := by
    have : s.complete.loc = s.loc := rfl
    rw [this, h.loc, hlast, Nat.sub_self]
    exact Nat.lt_irrefl 0
  have hcallback : s.complete.loc.callback = some w.returns := by
    have : s.complete.loc = s.loc := rfl
    rw [this, h.loc]
  have hisr : s.complete.eepromIsr =
      { s.complete with
        dev := { s.complete.dev with enabled := false }
        loc := { s.complete.loc with buf := 0, callback := if w.returns = 0 then none else some w.returns }
        calls := s.complete.calls + 1 } := by
    unfold State.eepromIsr State.execCallback
    rw [if_neg hlen]
    simp only [hcallback]
  have hidle : Idle s.complete.eepromIsr := by
    rw [hisr]
    exact ⟨rfl, rfl, rfl⟩
  have hstored : s.complete.eepromIsr.dev.content = s.complete.dev.content := by rw [hisr]
  refine ⟨hstored.trans hcontent, ?_, hidle, fun buf _ hbuf => ?_⟩
  · rw [hisr]
    exact congrArg (· + 1) h.calls
  · obtain ⟨hreturn, hmem, hkept⟩ := readBack_spec w hidle hbuf
    refine ⟨hreturn, fun i hi => (hmem i hi).trans ?_, hkept⟩
    rw [hstored, hcontent]
    unfold written
    rw [if_pos ⟨Nat.le_add_right .., Nat.add_lt_add_left hi _⟩, Nat.add_sub_cancel_left]

/-- A request while the buffer is in use changes nothing but `errno`. -/
theorem refused_of_busy (hbusy : s.loc.buf ≠ 0) (op : DeviceTransfer) :
    (s.eepromDevWrite op = if op.nbyte = 0 then (0, s) else (-1, { s with errno := some .eagain })) ∧
      (s.eepromDevRead op = if op.nbyte = 0 then (0, s) else (-1, { s with errno := some .eagain })) := by
  unfold State.eepromDevWrite State.eepromDevRead
  simp only [hbusy, ne_eq, not_false_eq_true, if_true, and_self]

theorem Writing.of_refused (h : w.Writing s₀ k s) (n : Int) :
    w.Writing s₀ k (if n = 0 then ((0 : Int), s) else (-1, { s with errno := some .eagain })).2 ∧
      (if n = 0 then ((0 : Int), s) else (-1, { s with errno := some .eagain })).2.dev.enabled = s.dev.enabled := by
  split_ifs
  · exact ⟨h, rfl⟩
  · exact ⟨⟨h.content, h.loaded, h.addr, h.programming, h.loc, h.mem, h.calls⟩, rfl⟩

/-- The pages so far are counted by the interrupts. -/
def Under (w : Request) (s₀ : State) (k : Nat) (s : State) : Prop :=
  k < w.pages ∧ w.Writing s₀ k s ∧ s.dev.enabled = true ∨ k = w.pages ∧ w.Complete s₀ s

theorem Under.step {a : Action} {s' : State} {e : Option Event} (h : w.Under s₀ k s) (hok : InBetween s a)
    (hstep : Eeprom.step s a = some (s', e)) :
    w.Under s₀ (k + e.toList.countP Event.isInterrupt) s' ∧ ∀ e' ∈ e.toList, Refused e' := by
  rcases h with ⟨hk, hwriting, henabled⟩ | ⟨hk, hcomplete⟩
  · have hbusy : s.loc.buf ≠ 0 := by
      rw [hwriting.loc]
      have := w.buf_pos
      dsimp only
      omega
    cases a with
    | interrupt =>
      unfold Eeprom.step at hstep
      simp only [hwriting.programming, henabled, Bool.and_true, if_true, Option.some.injEq, Prod.mk.injEq] at hstep
      obtain ⟨rfl, rfl⟩ := hstep
      refine ⟨?_, fun e' he' => by rw [List.mem_singleton.mp he']; trivial⟩
      -- the next page is programmed, or the request is complete
      rcases Nat.lt_or_ge (k + 1) w.pages with hmore | hlast
      · have hready := hwriting.ready hmore
        have hpos : 0 < s.complete.loc.len := by
          rw [hready.loc]
          exact Nat.sub_pos_of_lt (upTo_lt hmore)
        obtain ⟨hnext, hkept⟩ := hready.programPage hmore
        rw [State.eepromIsr_of_pos hpos]
        exact .inl ⟨hmore, hnext, hkept.trans henabled⟩
      · have hlast : k + 1 = w.pages := by omega
        exact .inr ⟨hlast, hwriting.complete_eepromIsr hlast⟩
    | write wop =>
      obtain ⟨rfl, rfl⟩ := Prod.mk.inj (Option.some.inj hstep)
      -- the buffer is not free until then
      have hrefused := (refused_of_busy hbusy wop).1
      refine ⟨?_, fun e' he' => by rw [List.mem_singleton.mp he']; exact hrefused⟩
      obtain ⟨hnext, hkept⟩ := hwriting.of_refused wop.nbyte
      rw [hrefused]
      exact .inl ⟨hk, hnext, hkept.trans henabled⟩
    | read rop =>
      obtain ⟨rfl, rfl⟩ := Prod.mk.inj (Option.some.inj hstep)
      have hrefused := (refused_of_busy hbusy rop).2
      refine ⟨?_, fun e' he' => by rw [List.mem_singleton.mp he']; exact hrefused⟩
      obtain ⟨hnext, hkept⟩ := hwriting.of_refused rop.nbyte
      rw [hrefused]
      exact .inl ⟨hk, hnext, hkept.trans henabled⟩
  · -- nothing more happens: no interrupt is to come, and the buffer is free
    cases a with
    | interrupt =>
      unfold Eeprom.step at hstep
      rw [hcomplete.idle.programming] at hstep
      exact absurd hstep (by simp)
    | write wop => exact absurd hcomplete.idle.buf hok
    | read rop => exact absurd hcomplete.idle.buf hok

end Request

end Eeprom

end Hwpl

end CoActionOS
