import CoActionOS.Bootloader.Commands

/-!
# Updating the program

`Link::updateOS` and the host functions it calls.  An operation of the link may be lost before the bootloader sees
it, or its answer after the bootloader has carried it out; the host cannot tell, it gets an error.  What is carried
out is what the handler of the command does between the request and the answer.
-/

namespace CoActionOS

namespace Bootloader

open Link

/-- The error of a transfer. -/
abbrev LinkError : Type := { e : Int // e < 0 }

/-- What becomes of an operation. -/
inductive Fate
  | lost (e : LinkError)
  | cut (e : LinkError)
  | done

/-- What an operation finds. -/
structure Step where
  fate : Fate
  locals : Locals
  rom : Rom

/-- The bootloader, the number of operations so far, and whether an erase did not end. -/
structure Session where
  boot : Boot
  used : Nat
  hung : Bool

/-! ### Operations of the link -/

section

variable (board : Board) (steps : Nat → Step)

/-- An operation whose command `act` carries out; the answer is read off the state it leaves. -/
def Session.link (act : Step → Boot → Option Boot) (s : Session) : Session × Except LinkError Boot :=
  let step := steps s.used
  let s := { s with used := s.used + 1 }
  if s.hung then (s, .error ⟨linkProtError, linkProtError_neg⟩)
  else
    match step.fate with
    | .lost e => (s, .error e)
    | .cut e => ({ s with boot := (act step s.boot).getD s.boot, hung := (act step s.boot).isNone }, .error e)
    | .done =>
      ({ s with boot := (act step s.boot).getD s.boot, hung := (act step s.boot).isNone },
        .ok ((act step s.boot).getD s.boot))

/-- The end of `link_ioctl_delay`. -/
def ioctlResult : Except LinkError Boot → Int
  | .error e => e
  | .ok b => if isNegative b.reply.err then linkDevError else b.reply.err.toInt

/-- `link_eraseflash` -/
def linkEraseflash (s : Session) : Session × Int :=
  match s.link steps (fun step b => b.erase board step.rom) with
  | (s, r) => (s, if ioctlResult r < 0 then -1 else 0)

/-- `link_ioctl` with `I_BOOTLOADER_GETATTR`, and the start address that comes with it. -/
def linkGetattr (s : Session) : Session × Int × Nat :=
  match s.link steps (fun _ b => some b.noteErrno) with
  | (s', r) => (s', ioctlResult r, (steps s.used).locals.startaddr.toNat)

/-- `link_ioctl` with `I_BOOTLOADER_WRITEPAGE`. -/
def linkWritepage (w : Writepage) (s : Session) : Session × Int :=
  match s.link steps (fun step b => some (b.writepage board step.rom w)) with
  | (s, r) => (s, ioctlResult r)

/-- The data of the packets with which `link_protocol_slavewrite` answers a read. -/
def readPackets (m : Memory) (loc nbyte : Nat) : (turns bytes : Nat) → List UInt8
  | 0, _ => []
  | turns + 1, bytes =>
    let got := flashRead board.flashSize (loc + bytes) (packetSize nbyte bytes) m
    let data := if got.1 < 0 then [] else got.2
    if bytes + data.length < nbyte ∧ data.length = linkPacketDataSize then
      data ++ readPackets m loc nbyte turns (bytes + data.length)
    else data

/-- `link_readflash` -/
def linkReadflash (loc nbyte : Nat) (s : Session) : Session × Int × List UInt8 :=
  let data := readPackets board s.boot.memory loc nbyte (nbyte + 1) 0
  match s.link steps (fun _ b => some (b.setErr (BitVec.ofNat 32 data.length))) with
  | (s, .error e) => (s, e, [])
  | (s, .ok b) => (s, b.reply.err.toInt, data)

/-- `BOOTLOADER_WRITEPAGESIZE` -/
def bootloaderWritepagesize : Nat := 1024

/-- The loop of `link_writeflash`; the size of a page is that of the first one. -/
def writeflashLoop (pageSize nbyte : Nat) : (turns addr written : Nat) → List UInt8 → Session → Session × Int
  | 0, _, _, _, s => (s, nbyte)
  | turns + 1, addr, written, buf, s =>
    let page := sized pageSize buf ++ List.replicate (bootloaderWritepagesize - pageSize) 0xFF
    match linkWritepage board steps ⟨addr, pageSize, page⟩ s with
    | (s, err) =>
      if err < 0 then (s, err)
      else if written + pageSize < nbyte then
        writeflashLoop pageSize nbyte turns (addr + pageSize) (written + pageSize) (buf.drop pageSize) s
      else (s, nbyte)

/-- `link_writeflash` -/
def linkWriteflash (addr : Nat) (buf : List UInt8) (nbyte : Nat) (s : Session) : Session × Int :=
  writeflashLoop board steps (min bootloaderWritepagesize nbyte) nbyte nbyte addr 0 buf s

/-! ### `Link::updateOS` -/

/-- The file, whether to verify, when `update` asks to stop, and what stands in `buffer` at the start. -/
structure Request where
  image : List UInt8
  verify : Bool
  update : Nat → Nat → Bool
  junk : List UInt8

variable (q : Request)

/-- `bufferSize` -/
def bufferSize : Nat := 1024

/-- The size of the vector page, which is written last. -/
def vectorSize : Nat := 256

/-- `buffer` with the vector page blanked. -/
def blankVectors (chunk : List UInt8) : List UInt8 :=
  List.replicate (min vectorSize chunk.length) 0xFF ++ chunk.drop vectorSize

/-- `stackaddr`: what was in `buffer` follows the bytes of a file that is shorter. -/
def stackaddr : List UInt8 := sized vectorSize (q.image ++ q.junk.drop q.image.length)

/-- The buffer as it goes to the target: `rest` is what is left of the file. -/
def chunkAt (startAddr loc : Nat) (rest : List UInt8) : List UInt8 :=
  if loc = startAddr then blankVectors (rest.take bufferSize) else rest.take bufferSize

/-- The loop that writes the file. -/
def writeImage (startAddr : Nat) : (turns : Nat) → List UInt8 → (loc progress : Nat) → Int → Session → Session × Int
  | 0, _, _, _, err, s => (s, err)
  | turns + 1, rest, loc, progress, err, s =>
    let bytesRead := (rest.take bufferSize).length
    if bytesRead = 0 then (s, err)
    else
      match linkWriteflash board steps loc (chunkAt startAddr loc rest) bytesRead s with
      | (s, err) =>
        if err ≠ bytesRead then (s, if err > 0 then -1 else err)
        else if q.update (progress + bytesRead) q.image.length then (s, err)
        else writeImage startAddr turns (rest.drop bufferSize) (loc + bytesRead) (progress + bytesRead) 0 s

/-- The loop that reads the file back; `none` if the target holds something else. -/
def verifyImage (startAddr : Nat) : (turns : Nat) → List UInt8 → (loc : Nat) → Int → Session → Session × Option Int
  | 0, _, _, err, s => (s, some err)
  | turns + 1, rest, loc, err, s =>
    let bytesRead := (rest.take bufferSize).length
    if bytesRead = 0 then (s, some err)
    else
      match linkReadflash board steps loc bytesRead s with
      | (s, err, cmp) =>
        if err ≠ bytesRead then (s, some (if err > 0 then -1 else err))
        else if cmp ≠ chunkAt startAddr loc rest then (s, none)
        else verifyImage startAddr turns (rest.drop bufferSize) (loc + bytesRead) 0 s

/-- The vector page is written and verified. -/
def writeVectors (startAddr : Nat) (s : Session) : Session × Int :=
  match linkWriteflash board steps startAddr (stackaddr q) vectorSize s with
  | (s, err) =>
    if err ≠ vectorSize then (s, -1)
    else if q.verify = false then (s, err)
    else
      match linkReadflash board steps startAddr vectorSize s with
      | (s, err, buffer) =>
        if err ≠ vectorSize then (s, -1)
        else if buffer ≠ stackaddr q then ((linkEraseflash board steps s).1, -1)
        else (s, err)

/-- The end: a failed update is erased. -/
def finishUpdate (r : Session × Int) : Session × Int :=
  if r.2 < 0 then ((linkEraseflash board steps r.1).1, r.2) else r

/-- After the file was written; a file is read in no more turns than it has bytes. -/
def installVectors (startAddr : Nat) (s : Session) : Session × Int :=
  if q.verify then
    match verifyImage board steps startAddr (q.image.length + 1) q.image startAddr 0 s with
    | (s, none) => (s, -1)
    | (s, some _) => writeVectors board steps q startAddr s
  else writeVectors board steps q startAddr s

/-- `Link::updateOS` after the flash was erased, for a file that can be opened. -/
def updateErased (s : Session) : Session × Int :=
  match linkGetattr steps s with
  | (s, err, startAddr) =>
    if err < 0 then (s, err)
    else
      match writeImage board steps q startAddr (q.image.length + 1) q.image startAddr 0 err s with
      | (s, err) => if err = 0 then installVectors board steps q startAddr s else finishUpdate board steps (s, err)

/-- `Link::updateOS` on a target that is a bootloader. -/
def updateOS (s : Session) : Session × Int :=
  match linkEraseflash board steps s with
  | (s, err) => if err < 0 then (s, err) else updateErased board steps q s

end

end Bootloader

end CoActionOS
