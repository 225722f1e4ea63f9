import CoActionOS.Link.Host

/-!
# The calls without the link

`HostCall.locally` says what a call of the host means: the operation on the device's own system, done
there and then.  `HostCall.Sound` says of which calls, with which outcomes of the system's operations, the
link gives the same.
-/

namespace CoActionOS

namespace Link

/-- The device's system: any function from its state and an operation to a new state and a result. -/
abbrev DeviceSystem (S : Type) : Type := S → DevCall → S × DevResult

/-- What the host reports is what the call has returned, with its data, and with the error number of a
call that has set one. -/
structure HostRet.Reports (r r' : HostRet) : Prop where
  ret : r.ret = r'.ret
  data : r.data = r'.data
  errno : ∀ e ∈ r'.errno, r.errno = some e

variable {S : Type} (sys : DeviceSystem S)

namespace DeviceSystem

/-- A failed operation: its error number is looked up. -/
def failure (ret : Int) (data : List UInt8) (s : S) : S × HostRet :=
  ((sys s .errno).1, ⟨ret, some (sys s .errno).2.ret, data⟩)

/-- An operation that says by its result whether it has failed. -/
def operation (c : DevCall) (failed : Word → Bool) (result : Word → Int)
    (data : DevResult → List UInt8) (s : S) : S × HostRet :=
  let (s, r) := sys s c
  if failed r.ret then failure sys (result r.ret) (data r) s
  else (s, ⟨result r.ret, none, data r⟩)

def noData (_ : DevResult) : List UInt8 := []

/-- The result, with `LINK_DEV_ERROR` for every error. -/
def orDevError (w : Word) : Int := if isNegative w then linkDevError else w.toInt

/-- Reads of up to 60 bytes, until there are enough, or one is short or fails.  Only a failure of the
first counts. -/
def readLoop (fildes : Word) (nbyte : Nat) : (turns bytes : Nat) → List UInt8 → S → S × HostRet
  | turns, bytes, data, s =>
    let (s, r) := sys s (.read fildes (packetSize nbyte bytes))
    if isNegative r.ret then
      if bytes = 0 then failure sys linkDevError [] s else (s, ⟨bytes, none, data⟩)
    else
      let n := r.ret.toNat
      if bytes + n < nbyte ∧ n = linkPacketDataSize then
        match turns with
        | 0 => (s, ⟨(bytes + n : Nat), none, data ++ sized n r.data⟩)
        | turns + 1 => readLoop fildes nbyte turns (bytes + n) (data ++ sized n r.data) s
      else (s, ⟨(bytes + n : Nat), none, data ++ sized n r.data⟩)

/-- The first read does not fail, and none returns more than was asked for. -/
def ReadsSound (fildes : Word) (nbyte : Nat) : (turns bytes : Nat) → S → Prop
  | turns, bytes, s =>
    let (s, r) := sys s (.read fildes (packetSize nbyte bytes))
    if isNegative r.ret then bytes ≠ 0
    else
      let n := r.ret.toNat
      n ≤ packetSize nbyte bytes ∧
        match turns with
        | 0 => True
        | turns + 1 =>
          bytes + n < nbyte ∧ n = linkPacketDataSize → ReadsSound fildes nbyte turns (bytes + n) s

/-- Writes of up to 60 bytes, until all are written or one fails or is short. -/
def writeLoop (fildes : Word) (buf : List UInt8) : (turns bytes : Nat) → S → S × HostRet
  | turns, bytes, s =>
    let data := (buf.drop bytes).take linkPacketDataSize
    let (s, r) := sys s (.write fildes data)
    if isNegative r.ret then failure sys linkDevError [] s
    else
      let n := r.ret.toNat
      if n = data.length ∧ bytes + n < buf.length then
        match turns with
        | 0 => (s, ⟨(bytes + n : Nat), none, []⟩)
        | turns + 1 => writeLoop fildes buf turns (bytes + n) s
      else (s, ⟨(bytes + n : Nat), none, []⟩)

/-- No write is short, and none fails but perhaps the last. -/
def WritesSound (fildes : Word) (buf : List UInt8) : (turns bytes : Nat) → S → Prop
  | turns, bytes, s =>
    let data := (buf.drop bytes).take linkPacketDataSize
    let (s, r) := sys s (.write fildes data)
    if isNegative r.ret then buf.length ≤ bytes + linkPacketDataSize
    else
      r.ret.toNat = data.length ∧
        match turns with
        | 0 => True
        | turns + 1 =>
          bytes + data.length < buf.length → WritesSound fildes buf turns (bytes + data.length) s

end DeviceSystem

/-- A path as the device gets it. -/
def pathBytes (path : List UInt8) : List UInt8 := path ++ [0]

open DeviceSystem in
/-- The call on the device's own system. -/
def HostCall.locally : HostCall → S → S × HostRet
  | .open path flags mode =>
    operation sys (.open (pathBytes path) flags mode) isNegative orDevError noData
  | close fildes => operation sys (.close fildes) isNegative orDevError noData
  | read fildes nbyte => readLoop sys fildes nbyte nbyte 0 []
  | write fildes buf => writeLoop sys fildes buf buf.length 0
  | ioctl fildes request argp arg _ => fun s =>
    let size := ioctlSize request
    let (s, m) := sys s (.malloc size)
    let buf := if ioctlW request then sized size argp else sized size m.data
    operation sys
      (.ioctl fildes request (if ioctlRW request then .inr buf else .inl arg)) isNegative orDevError
      (fun r => if ioctlR request then sized size r.data else []) s
  | lseek fildes offset whence =>
    operation sys (.lseek fildes offset whence) isNegative BitVec.toInt noData
  | stat path =>
    operation sys (.stat (pathBytes path)) (fun w => decide (w ≠ 0)) BitVec.toInt
      fun r => if r.ret = 0 then sized linkStatSize r.data else []
  | fstat fildes =>
    operation sys (.fstat fildes) (fun w => decide (w ≠ 0)) BitVec.toInt
      fun r => if r.ret = 0 then sized linkStatSize r.data else []
  | mkdir path mode => operation sys (.mkdir (pathBytes path) mode) isNegative BitVec.toInt noData
  | rmdir path => operation sys (.rmdir (pathBytes path)) isNegative BitVec.toInt noData
  | opendir dirname =>
    operation sys (.opendir (pathBytes dirname)) (fun w => decide (w = 0)) BitVec.toInt noData
  | readdir dirp =>
    operation sys (.readdir dirp) (fun w => decide (w ≠ 0)) (fun w => if w = 0 then 0 else -1)
      fun r => if r.ret = 0 then sized linkDirentSize r.data else []
  | closedir dirp => operation sys (.closedir dirp) isNegative BitVec.toInt noData
  | rename oldPath newPath =>
    operation sys (.rename (pathBytes oldPath) (pathBytes newPath)) isNegative BitVec.toInt noData
  | chown path owner group =>
    operation sys (.chown (pathBytes path) owner group) isNegative BitVec.toInt noData
  | chmod path mode => operation sys (.chmod (pathBytes path) mode) isNegative BitVec.toInt noData
  | unlink path => operation sys (.unlink (pathBytes path)) isNegative BitVec.toInt noData
  | symlink oldPath newPath =>
    operation sys (.link (pathBytes oldPath) (pathBytes newPath)) isNegative BitVec.toInt noData
  | exec file => operation sys (.processStart (pathBytes file)) isNegative BitVec.toInt noData
  | mkfs path => operation sys (.mkfs (pathBytes path)) isNegative BitVec.toInt noData
  | readserialno _ => fun s => ((sys s .serialno).1, ⟨0, none, (sys s .serialno).2.data⟩)

/-- The path goes into the device's array, and its size into a positive number. -/
def PathFits (pathMax : Nat) (path : List UInt8) : Prop :=
  path.length < pathMax ∧ path.length + 1 < 2 ^ 31

/-- The system's usual way to fail. -/
def MinusOneOrMore (w : Word) : Prop := isNegative w = true → w = -1

open DeviceSystem in
/-- The link gives the result of the call.  `afterError` is whether the reply of the call before was an
error. -/
def HostCall.Sound (pathMax : Nat) (phyHandle : Word) (afterError : Bool) : HostCall → S → Prop
  | .open path _ _, _ | unlink path, _ | exec path, _ | mkfs path, _ | opendir path, _ =>
    PathFits pathMax path
  | close fildes, _ => fildes ≠ phyHandle
  | read fildes nbyte, s =>
    fildes ≠ phyHandle ∧ nbyte < 2 ^ 31 ∧ ReadsSound sys fildes nbyte nbyte 0 s
  | write fildes buf, s =>
    fildes ≠ phyHandle ∧ buf.length < 2 ^ 31 ∧ WritesSound sys fildes buf buf.length 0 s
  | ioctl fildes request _ _ _, s =>
    fildes ≠ phyHandle ∧
      (ioctlRW request = true → (sys s (.malloc (ioctlSize request))).2.ret ≠ 0)
  | stat path, s =>
    PathFits pathMax path ∧
      ((sys s (.stat (pathBytes path))).2.ret ≠ 0 →
        isNegative (sys s (.stat (pathBytes path))).2.ret = true)
  | fstat fildes, s => (sys s (.fstat fildes)).2.ret = 0
  | mkdir path mode, s =>
    PathFits pathMax path ∧ MinusOneOrMore (sys s (.mkdir (pathBytes path) mode)).2.ret
  | rmdir path, s => PathFits pathMax path ∧ MinusOneOrMore (sys s (.rmdir (pathBytes path))).2.ret
  | readdir dirp, s =>
    (sys s (.readdir dirp)).2.ret ≠ 0 → isNegative (sys s (.readdir dirp)).2.ret = true
  | rename oldPath newPath, _ => PathFits pathMax oldPath ∧ PathFits pathMax newPath
  | chown path owner group, s =>
    PathFits pathMax path ∧ afterError = false ∧
      MinusOneOrMore (sys s (.chown (pathBytes path) owner group)).2.ret
  | chmod path mode, s =>
    PathFits pathMax path ∧ afterError = false ∧
      MinusOneOrMore (sys s (.chmod (pathBytes path) mode)).2.ret
  | symlink oldPath newPath, s =>
    PathFits pathMax oldPath ∧ PathFits pathMax newPath ∧
      (sys s (.link (pathBytes oldPath) (pathBytes newPath))).2.ret = 0
  | readserialno len, s =>
    0 < (sys s .serialno).2.data.length ∧ (sys s .serialno).2.data.length < linkPacketDataSize ∧
      (sys s .serialno).2.data.length ≤ len
  | lseek .., _ | closedir _, _ => True

/-- The results of a sequence of calls, and the state after it. -/
def locallyAll : List HostCall → S → S × List HostRet
  | [], s => (s, [])
  | c :: cs, s =>
    let (s, r) := c.locally sys s
    let (s, rs) := locallyAll cs s
    (s, r :: rs)

/-- Every call of the sequence is sound where it is made. -/
def SoundAll (pathMax : Nat) (phyHandle : Word) : Bool → List HostCall → S → Prop
  | _, [], _ => True
  | afterError, c :: cs, s =>
    c.Sound sys pathMax phyHandle afterError s ∧
      SoundAll pathMax phyHandle (decide ((c.locally sys s).2.ret < 0)) cs (c.locally sys s).1

end Link

end CoActionOS
