import CoActionOS.Link.Protocol

/-!
# The device side of the link

`linkUpdate` is one turn of the loop of `link_update`: wait for a command, carry it out, send the reply.
The commands call the system through `DevCall`, whose answers are not fixed here; looking at `errno` is
one of these calls.

`fill` is no call of the source: it records what a transfer has stored in an array of the handler, and
the array's size.  `PATH_MAX` and the descriptor `phy_handle` of the link itself are parameters.
-/

namespace CoActionOS

namespace Link

open Proc

/-- A 32-bit word of the C code. -/
abbrev Word : Type := BitVec 32

/-- The bytes of a word, the lowest first. -/
def wordBytes (w : Word) : List UInt8 :=
  [UInt8.ofNat w.toNat, UInt8.ofNat (w.toNat / 256), UInt8.ofNat (w.toNat / 65536),
    UInt8.ofNat (w.toNat / 16777216)]

def wordAt (bs : List UInt8) (o : Nat) : Word :=
  BitVec.ofNat 32 ((bs.getD o 0).toNat + 256 * (bs.getD (o + 1) 0).toNat +
    65536 * (bs.getD (o + 2) 0).toNat + 16777216 * (bs.getD (o + 3) 0).toNat)

def errBadf : Word := 9

def errNomem : Word := 12

def errInval : Word := 22

inductive DevCall
  | fill (capacity : Nat) (bs : List UInt8)
  /-- the value of `errno` -/
  | errno
  | malloc (size : Nat)
  | serialno
  | open (path : List UInt8) (flags mode : Word)
  | close (fildes : Word)
  | read (fildes : Word) (nbyte : Nat)
  | write (fildes : Word) (bs : List UInt8)
  | ioctl (fildes request : Word) (arg : Word ⊕ List UInt8)
  | lseek (fildes offset whence : Word)
  | stat (path : List UInt8)
  | fstat (fildes : Word)
  | link (path pathNew : List UInt8)
  | unlink (path : List UInt8)
  | rename (path pathNew : List UInt8)
  | chown (path : List UInt8) (uid gid : Word)
  | chmod (path : List UInt8) (mode : Word)
  | mkdir (path : List UInt8) (mode : Word)
  | rmdir (path : List UInt8)
  | opendir (path : List UInt8)
  | readdir (dirp : Word)
  | closedir (dirp : Word)
  | processStart (path : List UInt8)
  | mkfs (path : List UInt8)
  deriving DecidableEq

/-- What a call returns, and the bytes it has put where it was told to. -/
structure DevResult where
  ret : Word
  data : List UInt8
  deriving DecidableEq, Inhabited

/-- `link_reply_t` -/
structure LinkReply where
  err : Word
  errNumber : Word
  deriving DecidableEq

def LinkReply.bytes (r : LinkReply) : List UInt8 := wordBytes r.err ++ wordBytes r.errNumber

/-- `link_data_t`, and the bytes that stand after it in memory. -/
structure LinkData where
  op : List UInt8
  reply : LinkReply
  beyond : List UInt8
  deriving DecidableEq

namespace LinkData

variable (d : LinkData)

/-- `op.cmd` -/
def cmd : UInt8 := d.op.getD 0 0

/-- The operations are packed: after the command byte come up to three words. -/
def word (i : Nat) : Word := wordAt d.op (1 + 4 * i)

/-- `op.cmd = 0` -/
def clearCmd : LinkData := { d with op := d.op.set 0 0 }

def setErr (err : Word) : LinkData := { d with reply := { d.reply with err := err } }

def setErrNumber (n : Word) : LinkData := { d with reply := { d.reply with errNumber := n } }

@[simp] theorem word_setErr (err : Word) (i : Nat) : (d.setErr err).word i = d.word i := rfl

@[simp] theorem err_setErr (err : Word) : (d.setErr err).reply.err = err := rfl

end LinkData

/-- A program of the device. -/
abbrev Dev (α : Type) : Type := Proc DevCall DevResult α

/-- `if ( failed ) reply.err_number = errno;` -/
def noteErrno (failed : Bool) (d : LinkData) : Dev LinkData :=
  if failed then call .errno fun r => ret (d.setErrNumber r.ret) else ret d

def isNegative (w : Word) : Bool := decide (w.toInt < 0)

def isMinusOne (w : Word) : Bool := decide (w.toInt = -1)

section

variable (pathMax : Nat) (phyHandle : Word)

/-- `reply.err` is what the call returns, and `reply.err_number` is set if it has failed. -/
def perform (c : DevCall) (failed : Word → Bool) (d : LinkData) : Dev LinkData :=
  call c fun r => noteErrno (failed r.ret) (d.setErr r.ret)

/-- `link_protocol_slaveread` into an array of `capacity` bytes. -/
def receiveInto (capacity : Nat) (nbyte : Int) {α : Type} (k : Transfer → Dev α) : Dev α :=
  (linkProtocolSlaveread nbyte none).bind fun t => call (.fill capacity t.stored) fun _ => k t

def sendReply (d : LinkData) : Dev Int := linkProtocolSlavewrite d.reply.bytes 8 none

/-! ### Commands that take a path -/

/-- The path is received, whatever comes of it, and the call is made. -/
def pathCommand (size : Word) (c : List UInt8 → DevCall) (failed : Word → Bool) (d : LinkData) :
    Dev LinkData :=
  receiveInto pathMax size.toInt fun path => perform (c path.stored) failed d

def linkCmdOpen (d : LinkData) : Dev LinkData :=
  pathCommand pathMax (d.word 0) (fun path => .open path (d.word 1) (d.word 2)) isNegative d

def linkCmdMkdir (d : LinkData) : Dev LinkData :=
  pathCommand pathMax (d.word 0) (fun path => .mkdir path (d.word 1)) isMinusOne d

def linkCmdRmdir (d : LinkData) : Dev LinkData :=
  pathCommand pathMax (d.word 0) .rmdir isMinusOne d

/-- The result is the address of the directory, or null. -/
def linkCmdOpendir (d : LinkData) : Dev LinkData :=
  pathCommand pathMax (d.word 0) .opendir (fun w => decide (w = 0)) d

def linkCmdExec (d : LinkData) : Dev LinkData :=
  pathCommand pathMax (d.word 0) .processStart isNegative d

def linkCmdMkfs (d : LinkData) : Dev LinkData := pathCommand pathMax (d.word 0) .mkfs isNegative d

/-- A failed transfer leaves the reply as it is. -/
def linkCmdUnlink (d : LinkData) : Dev LinkData :=
  receiveInto pathMax (d.word 0).toInt fun path =>
    if path.ret < 0 then ret d else perform (.unlink path.stored) isNegative d

/-- A failed transfer sets `reply.err`, which is tested without having been reset. -/
def attrCommand (c : List UInt8 → DevCall) (d : LinkData) : Dev LinkData :=
  receiveInto pathMax (d.word 0).toInt fun path =>
    let d := if BitVec.ofInt 32 path.ret ≠ d.word 0 then d.setErr (-1) else d
    if isNegative d.reply.err then ret d else perform (c path.stored) isMinusOne d

def linkCmdChown (d : LinkData) : Dev LinkData :=
  attrCommand pathMax (fun path => .chown path (d.word 1) (d.word 2)) d

def linkCmdChmod (d : LinkData) : Dev LinkData :=
  attrCommand pathMax (fun path => .chmod path (d.word 1)) d

/-- The result of the call is replaced by zero. -/
def linkCmdLink (d : LinkData) : Dev LinkData :=
  receiveInto pathMax (d.word 0).toInt fun path =>
    let d := d.setErr (BitVec.ofInt 32 path.ret)
    if d.reply.err = d.word 0 then
      receiveInto pathMax (d.word 1).toInt fun pathNew =>
        call (.link path.stored pathNew.stored) fun _ => noteErrno (isNegative 0) (d.setErr 0)
    else ret d

def linkCmdRename (d : LinkData) : Dev LinkData :=
  receiveInto pathMax (d.word 0).toInt fun path =>
    let d := d.setErr (if BitVec.ofInt 32 path.ret ≠ d.word 0 then -1 else 0)
    receiveInto pathMax (d.word 1).toInt fun pathNew =>
      let d := if BitVec.ofInt 32 pathNew.ret ≠ d.word 1 then d.setErr (-1) else d
      if isNegative d.reply.err then ret d
      else perform (.rename path.stored pathNew.stored) isNegative d

/-! ### Commands that take a descriptor -/

def linkCmdLseek (d : LinkData) : Dev LinkData :=
  perform (.lseek (d.word 0) (d.word 1) (d.word 2)) isNegative d

def linkCmdClosedir (d : LinkData) : Dev LinkData := perform (.closedir (d.word 0)) isNegative d

/-- The descriptor of the link itself: `EBADF` is stored and then replaced by `errno`. -/
def refuseHandle (d : LinkData) : Dev LinkData :=
  noteErrno (isNegative (-1)) ((d.setErr (-1)).setErrNumber errBadf)

def linkCmdClose (d : LinkData) : Dev LinkData :=
  if d.word 0 = phyHandle then refuseHandle d else perform (.close (d.word 0)) isNegative d

def readDeviceCallback (fildes : Word) (nbyte : Nat) : Dev (Int × List UInt8) :=
  call (.read fildes nbyte) fun r => ret (r.ret.toInt, r.data)

def writeDeviceCallback (fildes : Word) (bs : List UInt8) : Dev Int :=
  call (.write fildes bs) fun r => ret r.ret.toInt

def linkCmdRead (d : LinkData) : Dev LinkData :=
  if d.word 0 = phyHandle then refuseHandle d
  else
    (linkProtocolSlavewrite [] (d.word 1).toInt (some (readDeviceCallback (d.word 0)))).bind fun n =>
      noteErrno (isNegative (BitVec.ofInt 32 n)) (d.setErr (BitVec.ofInt 32 n))

def linkCmdWrite (d : LinkData) : Dev LinkData :=
  if d.word 0 = phyHandle then refuseHandle d
  else
    (linkProtocolSlaveread (d.word 1).toInt (some (writeDeviceCallback (d.word 0)))).bind fun t =>
      noteErrno (isNegative (BitVec.ofInt 32 t.ret)) (d.setErr (BitVec.ofInt 32 t.ret))

/-! ### Commands that send data themselves -/

/-- `sizeof(struct link_stat)` -/
def linkStatSize : Nat := 44

/-- `sizeof(struct link_dirent)` -/
def linkDirentSize : Nat := 28

def linkCmdStat (d : LinkData) : Dev LinkData :=
  receiveInto pathMax (d.word 0).toInt fun path =>
    call (.stat path.stored) fun r =>
      (noteErrno (isNegative r.ret) (d.setErr r.ret)).bind fun d =>
        (sendReply d.clearCmd).bind fun _ =>
          if isNegative d.reply.err then ret d.clearCmd
          else (linkProtocolSlavewrite (sized linkStatSize r.data) linkStatSize none).bind fun _ => ret d.clearCmd

/-- The data is sent unless the error is below `-1`. -/
def linkCmdFstat (d : LinkData) : Dev LinkData :=
  call (.fstat (d.word 0)) fun r =>
    (noteErrno (isMinusOne r.ret) (d.setErr r.ret)).bind fun d =>
      (sendReply d.clearCmd).bind fun _ =>
        if d.reply.err.toInt < -1 then ret d.clearCmd
        else (linkProtocolSlavewrite (sized linkStatSize r.data) linkStatSize none).bind fun _ => ret d.clearCmd

/-- The reply is sent as a `link_readdir_reply_t`, which is twice as long. -/
def linkCmdReaddir (d : LinkData) : Dev LinkData :=
  call (.readdir (d.word 0)) fun r =>
    let d := d.setErr (if isNegative r.ret then -1 else r.ret)
    (noteErrno (isNegative r.ret) d).bind fun d =>
      (linkProtocolSlavewrite (sized 16 (d.reply.bytes ++ d.beyond)) 16 none).bind fun sent =>
        if sent < 0 then ret d.clearCmd
        else if isNegative d.reply.err then ret d.clearCmd
        else
          (linkProtocolSlavewrite (sized linkDirentSize r.data) linkDirentSize none).bind fun _ =>
            ret d.clearCmd

def linkCmdReadserialno (d : LinkData) : Dev LinkData :=
  call .serialno fun r =>
    let d := (d.setErr (BitVec.ofNat 32 r.data.length)).setErrNumber 0
    (sendReply d).bind fun sent =>
      if sent < 0 then ret d
      else
        (linkProtocolSlavewrite r.data d.reply.err.toInt none).bind fun sent =>
          if sent < 0 then ret d else ret d.clearCmd

/-- `_IOCTL_SIZE` -/
def ioctlSize (request : Word) : Nat := ((request >>> 16) &&& 0x3FFF).toNat

/-- `_IOCTL_IOCTLW` -/
def ioctlW (request : Word) : Bool := request &&& 0x40000000 != 0

/-- `_IOCTL_IOCTLR` -/
def ioctlR (request : Word) : Bool := request &&& 0x80000000 != 0

/-- `_IOCTL_IOCTLRW` -/
def ioctlRW (request : Word) : Bool := request &&& 0xC0000000 != 0

/-- The end of `link_cmd_ioctl`: the data on its way back. -/
def ioctlRespond (buf : List UInt8) (d : LinkData) : Dev LinkData :=
  if ioctlR (d.word 1) then
    (linkProtocolSlavewrite (sized (ioctlSize (d.word 1)) buf) (ioctlSize (d.word 1)) none).bind fun err =>
      let d := if err = -1 then d.clearCmd.setErr (-1) else d
      noteErrno (isNegative d.reply.err) d
  else noteErrno (isNegative d.reply.err) d

/-- After the data has come; `ioBuf` is `none` for a null pointer. -/
def ioctlExecute (ioBuf : Option (List UInt8)) (d : LinkData) : Dev LinkData :=
  if d.word 0 = phyHandle then
    ioctlRespond (ioBuf.getD []) ((d.setErr (-1)).setErrNumber errBadf)
  else if ioctlRW (d.word 1) = false then
    call (.ioctl (d.word 0) (d.word 1) (.inl (d.word 2))) fun r =>
      ioctlRespond (ioBuf.getD []) (d.setErr r.ret)
  else
    match ioBuf with
    | some buf =>
      call (.ioctl (d.word 0) (d.word 1) (.inr buf)) fun r => ioctlRespond r.data (d.setErr r.ret)
    | none => ioctlRespond [] ((d.setErr (-1)).setErrNumber errNomem)

/-- A buffer that could not be had has no room. -/
def linkCmdIoctl (d : LinkData) : Dev LinkData :=
  let size := ioctlSize (d.word 1)
  call (.malloc size) fun m =>
    let got := fun buf : List UInt8 => if m.ret = 0 then none else some buf
    if ioctlW (d.word 1) then
      receiveInto (if m.ret = 0 then 0 else size) size fun t =>
        if t.ret = -1 then ret (d.clearCmd.setErr (-1)) else ioctlExecute phyHandle (got t.stored) d
    else ioctlExecute phyHandle (got (sized size m.data)) d

/-! ### The loop -/

/-- `link_cmd_func_table` -/
def linkCmd (cmd : Nat) (d : LinkData) : Dev LinkData :=
  match cmd with
  | 1 => linkCmdReadserialno d
  | 2 => linkCmdIoctl phyHandle d
  | 3 => linkCmdRead phyHandle d
  | 4 => linkCmdWrite phyHandle d
  | 5 => linkCmdOpen pathMax d
  | 6 => linkCmdClose phyHandle d
  | 7 => linkCmdLink pathMax d
  | 8 => linkCmdUnlink pathMax d
  | 9 => linkCmdLseek d
  | 10 => linkCmdStat pathMax d
  | 11 => linkCmdFstat d
  | 12 => linkCmdMkdir pathMax d
  | 13 => linkCmdRmdir pathMax d
  | 14 => linkCmdOpendir pathMax d
  | 15 => linkCmdReaddir d
  | 16 => linkCmdClosedir d
  | 17 => linkCmdRename pathMax d
  | 18 => linkCmdChown pathMax d
  | 19 => linkCmdChmod pathMax d
  | 20 => linkCmdExec pathMax d
  | 21 => linkCmdMkfs pathMax d
  | _ => ret d

/-- `LINK_CMD_TOTAL` -/
def linkCmdTotal : Nat := 22

/-- `LINK_MAX_TRANSFER_SIZE`, the size of `packet_data` -/
def linkMaxTransferSize : Nat := 64

/-- `sizeof(link_op_t)` -/
def linkOpSize : Nat := 13

/-- What is in `packet_data` after `stored` has come. -/
def fillPacket (packet stored : List UInt8) : List UInt8 :=
  (stored ++ packet.drop stored.length).take linkMaxTransferSize

/-- The state of the loop between two turns. -/
structure LinkState where
  packet : List UInt8
  data : LinkData
  deriving DecidableEq

/-- The reply is sent unless the command has done so and cleared `op.cmd`. -/
def finish (d : LinkData) : Dev LinkData :=
  if d.cmd ≠ 0 then (sendReply d).bind fun _ => ret d.clearCmd else ret d

/-- From the command's arrival to its reply. -/
def serve (d : LinkData) : Dev LinkData :=
  (if d.cmd.toNat < linkCmdTotal then linkCmd pathMax phyHandle d.cmd.toNat d
    else ret ((d.setErr (-1)).setErrNumber errInval)).bind finish

/-- A transfer that brings nothing, or fails, ends the turn. -/
def linkUpdate (s : LinkState) : Dev LinkState :=
  receiveInto linkMaxTransferSize linkMaxTransferSize fun t =>
    let packet := fillPacket s.packet t.stored
    if t.ret ≤ 0 then ret { s with packet := packet }
    else
      (serve pathMax phyHandle { s.data with op := packet.take linkOpSize }).bind fun d =>
        ret ⟨packet, d⟩

end

end Link

end CoActionOS
