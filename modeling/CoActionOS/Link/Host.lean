import CoActionOS.Link.Device

/-!
# The host side of the link

The calls of `link_file.c`, `link_dir.c`, `link_process.c` and `link.c`, for a host that is connected.  A
call sends its operation, then the paths or data that belong to it, and reads the reply.  `junk` stands
for the bytes of an operation that the code sends without having set them.
-/

namespace CoActionOS

namespace Link

open Proc

/-- `LINK_TRANSFER_ERR` -/
def linkTransferErr : Int := -701

/-- `MAX_TRIES` -/
def maxTries : Nat := 3

/-- What a call returns, what it leaves in `link_errno`, and what it stores in the caller's buffer. -/
structure HostRet where
  ret : Int
  errno : Option Word
  data : List UInt8
  deriving DecidableEq

/-- The loop of `link_handle_err`: empty packets, until the device answers one. -/
def sendEmpty : Nat → Host Int
  | 0 => ret linkPhyError
  | tries + 1 =>
    (linkProtocolMasterwrite [] 0).bind fun err =>
      if err = linkPhyError then ret linkPhyError
      else if err = 0 then wait 10 (flush (ret linkProtError))
      else sendEmpty tries

def linkHandleErr (err : Int) : Host Int :=
  flush
    (if err = linkProtError then sendEmpty maxTries
    else if err = linkDevError then ret err
    else ret linkPhyError)

/-! ### The parts of a call -/

/-- How a call goes on after a failed transfer: `link_handle_err`, the transfer's error, or an error of
its own. -/
inductive OnFailure
  | handle
  | same
  | other (err : Int)

def OnFailure.run (f : OnFailure) (err : Int) : Host HostRet :=
  match f with
  | handle => (linkHandleErr err).bind fun err => ret ⟨err, none, []⟩
  | same => ret ⟨err, none, []⟩
  | other e => ret ⟨e, none, []⟩

def request (op : List UInt8) (onFailure : OnFailure) (k : Host HostRet) : Host HostRet :=
  (linkProtocolMasterwrite op op.length).bind fun err => if err < 0 then onFailure.run err else k

/-- A path goes with its terminating zero. -/
def sendPath (path : List UInt8) (onFailure : OnFailure) (k : Host HostRet) : Host HostRet :=
  request (path ++ [0]) onFailure k

def pathSize (path : List UInt8) : Word := BitVec.ofNat 32 (path.length + 1)

def readReply (onFailure : OnFailure) (k : LinkReply → Host HostRet) : Host HostRet :=
  (linkProtocolMasterread 8).bind fun t =>
    if t.ret < 0 then onFailure.run t.ret else k ⟨wordAt t.stored 0, wordAt t.stored 4⟩

def readData (nbyte : Int) (onFailure : OnFailure) (k : List UInt8 → Host HostRet) : Host HostRet :=
  (linkProtocolMasterread nbyte).bind fun t => if t.ret < 0 then onFailure.run t.ret else k t.stored

/-- `reply.err` is returned, and `link_errno` is set if it is negative. -/
def report (reply : LinkReply) : HostRet :=
  ⟨reply.err.toInt, if isNegative reply.err then some reply.errNumber else none, []⟩

/-- `reply.err` is returned, and `link_errno` is set in any case. -/
def reportAlways (reply : LinkReply) : HostRet := ⟨reply.err.toInt, some reply.errNumber, []⟩

/-- As `reportAlways`, with `LINK_DEV_ERROR` for every error of the device. -/
def reportDev (reply : LinkReply) : HostRet :=
  ⟨if isNegative reply.err then linkDevError else reply.err.toInt, some reply.errNumber, []⟩

section

variable (junk : List UInt8)

/-- The first `size` bytes of an operation. -/
def opBytes (size : Nat) (cmd : UInt8) (words : List Word) : List UInt8 :=
  sized size (cmd :: (words.flatMap wordBytes ++ junk))

/-! ### Files -/

def linkOpen (path : List UInt8) (flags mode : Word) : Host HostRet :=
  request (opBytes junk 13 5 [pathSize path, flags, mode]) .handle <|
    sendPath path .handle <| readReply .handle fun reply => ret (reportDev reply)

/-- `delay` is the time to wait before the answer. -/
def linkIoctlDelay (fildes request' : Word) (argp : List UInt8) (arg : Word) (delay : Nat) :
    Host HostRet :=
  let size := ioctlSize request'
  let reply := fun data =>
    readReply .handle fun reply => ret { reportDev reply with data := data }
  let answer := if ioctlR request' then readData size .handle reply else reply []
  let answer := if 0 < delay then wait delay answer else answer
  request (opBytes junk 13 2 [fildes, request', arg]) .handle <|
    if ioctlW request' then request (sized size argp) .handle answer else answer

def linkRead (fildes : Word) (nbyte : Nat) : Host HostRet :=
  request (opBytes junk 9 3 [fildes, BitVec.ofNat 32 nbyte]) .handle <|
    readData nbyte .handle fun data =>
      readReply .handle fun reply => ret { report reply with data := data }

def linkWrite (fildes : Word) (buf : List UInt8) : Host HostRet :=
  request (opBytes junk 9 4 [fildes, BitVec.ofNat 32 buf.length]) .handle <|
    request buf .handle <|
      readReply .handle fun reply => ret
        (if isNegative reply.err then ⟨linkDevError, some reply.errNumber, []⟩ else report reply)

def linkClose (fildes : Word) : Host HostRet :=
  request (opBytes junk 5 6 [fildes]) .handle <|
    readReply .handle fun reply => ret
      (if isNegative reply.err then ⟨linkDevError, some reply.errNumber, []⟩ else report reply)

def linkSymlink (oldPath newPath : List UInt8) : Host HostRet :=
  request (opBytes junk 9 7 [pathSize oldPath, pathSize newPath]) .same <|
    (linkProtocolMasterwrite (oldPath ++ [0]) (oldPath ++ [0]).length).bind fun len =>
      if BitVec.ofInt 32 len ≠ pathSize oldPath then ret ⟨-1, none, []⟩
      else
        sendPath newPath (.other linkTransferErr) <|
          readReply .same fun reply => ret (report reply)

def linkUnlink (path : List UInt8) : Host HostRet :=
  request (opBytes junk 5 8 [pathSize path]) .same <|
    sendPath path (.other linkTransferErr) <| readReply .same fun reply => ret (report reply)

/-- `link_errno` is reset first. -/
def linkLseek (fildes offset whence : Word) : Host HostRet :=
  (request (opBytes junk 13 9 [fildes, offset, whence]) .same <|
    readReply .same fun reply => ret (report reply)).bind fun r =>
      ret { r with errno := some (r.errno.getD 0) }

/-- The end of `link_stat` and `link_fstat`: the data is read only if there was no error. -/
def readStat (reply : LinkReply) : Host HostRet :=
  if reply.err = 0 then
    readData linkStatSize .same fun data => ret ⟨reply.err.toInt, none, data⟩
  else ret (reportAlways reply)

def linkStat (path : List UInt8) : Host HostRet :=
  request (opBytes junk 5 10 [pathSize path]) .same <|
    sendPath path (.other linkTransferErr) <| readReply .same readStat

def linkFstat (fildes : Word) : Host HostRet :=
  request (opBytes junk 5 11 [fildes]) .same <| readReply .same readStat

def linkRename (oldPath newPath : List UInt8) : Host HostRet :=
  request (opBytes junk 9 17 [pathSize oldPath, pathSize newPath]) .same <|
    sendPath oldPath (.other linkTransferErr) <| sendPath newPath (.other linkTransferErr) <|
      readReply .same fun reply => ret (report reply)

def linkChown (path : List UInt8) (owner group : Word) : Host HostRet :=
  request (opBytes junk 13 18 [pathSize path, owner, group]) .same <|
    sendPath path (.other linkTransferErr) <| readReply .same fun reply => ret (reportAlways reply)

def linkChmod (path : List UInt8) (mode : Word) : Host HostRet :=
  request (opBytes junk 13 19 [pathSize path, mode]) .same <|
    sendPath path (.other linkTransferErr) <| readReply .same fun reply => ret (reportAlways reply)

/-! ### Directories -/

def linkMkdir (path : List UInt8) (mode : Word) : Host HostRet :=
  request (opBytes junk 13 12 [pathSize path, mode]) .same <|
    sendPath path (.other linkTransferErr) <| readReply .same fun reply => ret (reportAlways reply)

def linkRmdir (path : List UInt8) : Host HostRet :=
  request (opBytes junk 13 13 [pathSize path]) .same <|
    sendPath path (.other linkTransferErr) <| readReply .same fun reply => ret (reportAlways reply)

def linkOpendir (dirname : List UInt8) : Host HostRet :=
  request (opBytes junk 5 14 [pathSize dirname]) (.other 0) <|
    sendPath dirname (.other 0) <| readReply (.other 0) fun reply => ret (reportAlways reply)

def linkReaddir (dirp : Word) : Host HostRet :=
  request (opBytes junk 5 15 [dirp]) (.other (-1)) <|
    readReply (.other (-1)) fun reply =>
      if isNegative reply.err then ret (reportAlways reply)
      else readData linkDirentSize (.other (-1)) fun data => ret ⟨0, none, data⟩

def linkClosedir (dirp : Word) : Host HostRet :=
  request (opBytes junk 5 16 [dirp]) .same <| readReply .same fun reply => ret (reportAlways reply)

/-! ### The device itself -/

def linkExec (file : List UInt8) : Host HostRet :=
  request (opBytes junk 13 20 [pathSize file]) .same <|
    sendPath file (.other linkTransferErr) <| readReply .same fun reply => ret (reportAlways reply)

def linkMkfs (path : List UInt8) : Host HostRet :=
  request (opBytes junk 13 21 [pathSize path]) .same <|
    sendPath path (.other linkTransferErr) <|
      wait 100 <| readReply .same fun reply => ret (reportAlways reply)

/-- A serial number that does not fit is left in the channel. -/
def linkReadserialno (len : Int) : Host HostRet :=
  request (opBytes junk 1 1 []) .handle <|
    readReply .handle fun reply =>
      if 0 < reply.err.toInt then
        if reply.err.toInt ≤ len then
          readData reply.err.toInt .same fun data => ret ⟨0, none, data⟩
        else ret ⟨-1, none, []⟩
      else ret ⟨0, some reply.errNumber, []⟩

/-! ### A session -/

inductive HostCall
  | open (path : List UInt8) (flags mode : Word)
  | close (fildes : Word)
  | read (fildes : Word) (nbyte : Nat)
  | write (fildes : Word) (buf : List UInt8)
  | ioctl (fildes request : Word) (argp : List UInt8) (arg : Word) (delay : Nat)
  | lseek (fildes offset whence : Word)
  | stat (path : List UInt8)
  | fstat (fildes : Word)
  | mkdir (path : List UInt8) (mode : Word)
  | rmdir (path : List UInt8)
  | opendir (dirname : List UInt8)
  | readdir (dirp : Word)
  | closedir (dirp : Word)
  | rename (oldPath newPath : List UInt8)
  | chown (path : List UInt8) (owner group : Word)
  | chmod (path : List UInt8) (mode : Word)
  | unlink (path : List UInt8)
  | symlink (oldPath newPath : List UInt8)
  | exec (file : List UInt8)
  | mkfs (path : List UInt8)
  | readserialno (len : Int)

def HostCall.run : HostCall → Host HostRet
  | .open path flags mode => linkOpen junk path flags mode
  | close fildes => linkClose junk fildes
  | read fildes nbyte => linkRead junk fildes nbyte
  | write fildes buf => linkWrite junk fildes buf
  | ioctl fildes request argp arg delay => linkIoctlDelay junk fildes request argp arg delay
  | lseek fildes offset whence => linkLseek junk fildes offset whence
  | stat path => linkStat junk path
  | fstat fildes => linkFstat junk fildes
  | mkdir path mode => linkMkdir junk path mode
  | rmdir path => linkRmdir junk path
  | opendir dirname => linkOpendir junk dirname
  | readdir dirp => linkReaddir junk dirp
  | closedir dirp => linkClosedir junk dirp
  | rename oldPath newPath => linkRename junk oldPath newPath
  | chown path owner group => linkChown junk path owner group
  | chmod path mode => linkChmod junk path mode
  | unlink path => linkUnlink junk path
  | symlink oldPath newPath => linkSymlink junk oldPath newPath
  | exec file => linkExec junk file
  | mkfs path => linkMkfs junk path
  | readserialno len => linkReadserialno junk len

/-- The calls one after the other. -/
def session : List HostCall → Host (List HostRet)
  | [] => ret []
  | c :: cs => (c.run junk).bind fun r => (session cs).bind fun rs => ret (r :: rs)

end

/-- As many turns of the loop of `link_update`. -/
def deviceLoop (pathMax : Nat) (phyHandle : Word) : Nat → LinkState → Dev LinkState
  | 0, s => ret s
  | n + 1, s => (linkUpdate pathMax phyHandle s).bind (deviceLoop pathMax phyHandle n)

end Link

end CoActionOS
