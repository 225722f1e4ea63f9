import CoActionOS.Bootloader.Flash

/-!
# The commands of the bootloader

One turn of the loop of the bootloader's `link_update`: a command is received into `data.op`, carried out and
answered from `data.reply`.  Both outlive the turn.  A handler that resets the device, or whose erase never ends,
returns `none`.
-/

namespace CoActionOS

namespace Bootloader

open Proc Link

/-- A program of the bootloader, which calls nothing but the link. -/
abbrev Program (α : Type) : Type := Proc Unit Unit α

/-- `link_data_t`, the flash and `errno`. -/
structure Boot where
  op : List UInt8
  reply : LinkReply
  memory : Memory
  errno : Word

/-- The board: `_flash_size`, `PROGRAM_START_ADDR`, `BCDVERSION` and the serial number. -/
structure Board where
  flashSize : Nat
  programStart : Word
  version : Word
  serialno : Fin 4 → Word

/-- What stands in the structures `attr` and `wattr` of `link_cmd_ioctl` before they are assigned. -/
structure Locals where
  startaddr : Word
  wattr : List UInt8

/-- What the ROM does: the pages it erases, and whether it copies the page. -/
structure Rom where
  erased : Nat → Bool
  written : Bool

def iBootloaderErase : Word := 0x6200

def iBootloaderGetattr : Word := 0x80186201

def iBootloaderReset : Word := 0x6202

def iBootloaderWritepage : Word := 0x44086203

/-- `LINK_BOOTLOADER_CMD_TOTAL` -/
def linkBootloaderCmdTotal : Nat := 4

namespace Boot

variable (b : Boot)

def cmd : UInt8 := b.op.getD 0 0

def word (i : Nat) : Word := wordAt b.op (1 + 4 * i)

/-- `op.cmd = 0` -/
def clearCmd : Boot := { b with op := b.op.set 0 0 }

def setErr (err : Word) : Boot := { b with reply := { b.reply with err := err } }

def setErrNumber (n : Word) : Boot := { b with reply := { b.reply with errNumber := n } }

/-- `if ( reply.err < 0 ) reply.err_number = errno;` -/
def noteErrno : Boot := if isNegative b.reply.err then b.setErrNumber b.errno else b

@[simp] theorem noteErrno_memory : b.noteErrno.memory = b.memory := by
  unfold noteErrno
  split_ifs <;> rfl

@[simp] theorem noteErrno_err : b.noteErrno.reply.err = b.reply.err := by
  unfold noteErrno
  split_ifs <;> rfl

@[simp] theorem noteErrno_cmd : b.noteErrno.cmd = b.cmd := by
  unfold noteErrno
  split_ifs <;> rfl

end Boot

def sendReply (b : Boot) : Program Int := linkProtocolSlavewrite b.reply.bytes 8 none

/-- `htoc` -/
def htoc (nibble : Nat) : UInt8 := UInt8.ofNat (if nibble < 10 then nibble + 48 else nibble + 65 - 10)

/-- The digits of a word, the highest first. -/
def hexDigits (w : Word) : List UInt8 :=
  (List.range 8).map fun i => htoc (w.toNat / 16 ^ (7 - i) % 16)

section

variable (board : Board) (u : Locals) (rom : Rom)

def serialnoDigits : List UInt8 :=
  [3, 2, 1, 0].flatMap fun j => hexDigits (board.serialno j)

/-- `bootloader_attr_t`, in which `startaddr` has not been assigned yet. -/
def attrBytes : List UInt8 :=
  wordBytes board.version ++ [0, 1, 2, 3].flatMap (fun j => wordBytes (board.serialno j)) ++ wordBytes u.startaddr

/-- `bootloader_writepage_t` -/
def writepageOf (bs : List UInt8) : Writepage := ⟨(wordAt bs 0).toNat, (wordAt bs 4).toNat, bs.drop 8⟩

/-- The end of the write request, once the page has come. -/
def Boot.writepage (b : Boot) (w : Writepage) : Boot :=
  let r := hwplFlashWritepage board.flashSize rom.written w b.memory
  { (b.setErr r.ret) with memory := r.memory, errno := r.errno.getD b.errno }.noteErrno

/-- The end of the erase request. -/
def Boot.erase (b : Boot) : Option Boot :=
  match eraseFlash board.flashSize rom.erased ⟨b.memory, b.errno⟩ with
  | none => none
  | some e => some { b with memory := e.memory, errno := e.errno }

/-! ### Commands -/

def linkCmdReadserialno (b : Boot) : Program (Option Boot) :=
  let digits := serialnoDigits board
  let b := (b.setErr (BitVec.ofNat 32 digits.length)).setErrNumber 0
  (sendReply b).bind fun sent =>
    if sent < 0 then ret b
    else
      (linkProtocolSlavewrite (sized linkPacketDataSize digits) b.reply.err.toInt none).bind fun sent =>
        if sent < 0 then ret b else ret b.clearCmd

/-- `link_cmd_ioctl`: the reply to an erase is sent before it begins. -/
def linkCmdIoctl (b : Boot) : Program (Option Boot) :=
  let request := b.word 1
  let size := ioctlSize request
  if request = iBootloaderErase then
    (sendReply b).bind fun _ => ret (b.clearCmd.erase board rom)
  else if request = iBootloaderGetattr then
    (linkProtocolSlavewrite (attrBytes board u) size none).bind fun err =>
      ret (if err = -1 then b.clearCmd.setErr (-1) else b).noteErrno
  else if request = iBootloaderReset then ret none
  else if request = iBootloaderWritepage then
    (linkProtocolSlaveread size none).bind fun t =>
      if t.ret < 0 then ret b.noteErrno
      else ret (b.writepage board rom (writepageOf (t.stored ++ u.wattr.drop t.stored.length)))
  else ret ((b.setErrNumber errInval).setErr (-1)).noteErrno

/-- The loop of `link_protocol_slavewrite` with `read_flash_callback`.  A turn that goes on has sent all it has read,
so `loc` has advanced by as many bytes as were sent. -/
def readFlashLoop (m : Memory) (loc : Nat) (nbyte : Int) : (turns bytes : Nat) → Program Int
  | 0, bytes =>
    slavewriteTurn (some fun n => ret (flashRead board.flashSize (loc + bytes) n m)) [] nbyte bytes fun b => ret b
  | turns + 1, bytes =>
    slavewriteTurn (some fun n => ret (flashRead board.flashSize (loc + bytes) n m)) [] nbyte bytes
      (readFlashLoop m loc nbyte turns)

def readFlash (m : Memory) (loc : Nat) (nbyte : Int) : Program Int :=
  readFlashLoop board m loc nbyte nbyte.toNat 0

def linkCmdRead (b : Boot) : Program (Option Boot) :=
  (readFlash board b.memory (b.word 0).toNat (b.word 1).toInt).bind fun n =>
    ret (b.setErr (BitVec.ofInt 32 n))

/-! ### The loop -/

/-- `link_cmd_func_table`, and what is done for a number beyond it. -/
def dispatch (b : Boot) : Program (Option Boot) :=
  if b.cmd.toNat < linkBootloaderCmdTotal then
    match b.cmd.toNat with
    | 1 => linkCmdReadserialno board b
    | 2 => linkCmdIoctl board u rom b
    | 3 => linkCmdRead board b
    | _ => ret b
  else ret ((b.setErr (-1)).setErrNumber errInval)

/-- The reply is sent unless the command has done so and cleared `op.cmd`. -/
def finish : Option Boot → Program (Option Boot)
  | none => ret none
  | some b => if b.cmd ≠ 0 then (sendReply b).bind fun _ => ret b.clearCmd else ret b

/-- From the command's arrival to its reply. -/
def serve (b : Boot) : Program (Option Boot) := (dispatch board u rom b).bind finish

/-- One turn: what has come of a command is laid over the one before. -/
def linkUpdate (b : Boot) : Program (Option Boot) :=
  (linkProtocolSlaveread linkOpSize none).bind fun t =>
    let b : Boot := { b with op := t.stored ++ b.op.drop t.stored.length }
    if t.ret ≤ 0 then ret b else serve board u rom b

end

/-! ### Which handler serves a command -/

section

variable {board : Board} {u : Locals} {rom : Rom} {b : Boot}

theorem serve_none (h : b.cmd = 0) : serve board u rom b = ret (some b) := by
  unfold serve dispatch
  rw [h]
  show finish (some b) = _
  unfold finish
  dsimp only
  rw [h]
  rfl

theorem serve_readserialno (h : b.cmd = 1) :
    serve board u rom b = (linkCmdReadserialno board b).bind finish := by
  unfold serve dispatch
  rw [h]
  rfl

theorem serve_ioctl (h : b.cmd = 2) : serve board u rom b = (linkCmdIoctl board u rom b).bind finish := by
  unfold serve dispatch
  rw [h]
  rfl

theorem serve_read (h : b.cmd = 3) : serve board u rom b = (linkCmdRead board b).bind finish := by
  unfold serve dispatch
  rw [h]
  rfl

theorem serve_unknown (h : linkBootloaderCmdTotal ≤ b.cmd.toNat) :
    serve board u rom b = finish (some ((b.setErr (-1)).setErrNumber errInval)) := by
  unfold serve dispatch
  rw [if_neg (Nat.not_lt.mpr h)]
  rfl

theorem linkCmdIoctl_erase (h : b.word 1 = iBootloaderErase) :
    linkCmdIoctl board u rom b = (sendReply b).bind fun _ => ret (b.clearCmd.erase board rom) := by
  unfold linkCmdIoctl
  rw [h]
  rfl

theorem linkCmdIoctl_getattr (h : b.word 1 = iBootloaderGetattr) :
    linkCmdIoctl board u rom b =
      (linkProtocolSlavewrite (attrBytes board u) 24 none).bind fun err =>
        ret (some (if err = -1 then b.clearCmd.setErr (-1) else b).noteErrno) := by
  unfold linkCmdIoctl
  rw [h]
  rfl

theorem linkCmdIoctl_reset (h : b.word 1 = iBootloaderReset) : linkCmdIoctl board u rom b = ret none := by
  unfold linkCmdIoctl
  rw [h]
  rfl

theorem linkCmdIoctl_writepage (h : b.word 1 = iBootloaderWritepage) :
    linkCmdIoctl board u rom b =
      (linkProtocolSlaveread 1032 none).bind fun t =>
        if t.ret < 0 then ret (some b.noteErrno)
        else ret (some (b.writepage board rom (writepageOf (t.stored ++ u.wattr.drop t.stored.length)))) := by
  unfold linkCmdIoctl
  rw [h]
  rfl

theorem linkCmdIoctl_unknown (herase : b.word 1 ≠ iBootloaderErase) (hgetattr : b.word 1 ≠ iBootloaderGetattr)
    (hreset : b.word 1 ≠ iBootloaderReset) (hwritepage : b.word 1 ≠ iBootloaderWritepage) :
    linkCmdIoctl board u rom b = ret (some ((b.setErrNumber errInval).setErr (-1)).noteErrno) := by
  unfold linkCmdIoctl
  dsimp only
  rw [if_neg herase, if_neg hgetattr, if_neg hreset, if_neg hwritepage]

/-- Without a command number the reply is not sent. -/
theorem finish_of_sent (h : b.cmd = 0) : finish (some b) = ret (some b) := by
  unfold finish
  dsimp only
  rw [h]
  rfl

theorem finish_of_cmd (h : b.cmd ≠ 0) : finish (some b) = (sendReply b).bind fun _ => ret (some b.clearCmd) := by
  unfold finish
  exact if_pos h

end

end Bootloader

end CoActionOS
