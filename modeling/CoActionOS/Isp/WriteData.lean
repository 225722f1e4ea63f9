import CoActionOS.Isp.Uart

/-!
# Writing data to the target

`LpcPhy::lpc_write_data` sends lines of 45 bytes and after 20 of them, or after a shorter one, the sum of their bytes,
upon which the target keeps the block or has it sent again.
-/

namespace CoActionOS

namespace Isp

/-! ### The target -/

/-- `"OK\r\n"` -/
def okLine : List UInt8 := [79, 75, 13, 10]

/-- `"RESEND\r\n"` -/
def resendLine : List UInt8 := [82, 69, 83, 69, 78, 68, 13, 10]

/-- The line with the sum of a block. -/
def sumLine (n : Nat) : List UInt8 := decimal n ++ [13, 10]

/-- A target that has been told to take `size` bytes: those it has accepted, and the lines of the block it is
collecting. -/
structure Target where
  size : Nat
  accepted : List UInt8
  pending : List UInt8
  lines : Nat
  sums : Nat

/-- After 20 lines and after the last one the sum is due. -/
def Target.SumDue (t : Target) : Prop :=
  t.lines = 20 ∨ 0 < t.lines ∧ t.size ≤ t.accepted.length + t.pending.length

instance (t : Target) : Decidable t.SumDue := inferInstanceAs (Decidable (_ ∨ _))

/-- A sum that is right is granted, or the block is sent again all the same. -/
def Target.Grants (grants : Nat → Bool) (bs : List UInt8) (t : Target) : Prop :=
  bs = sumLine (byteSum t.pending) ∧ grants t.sums = true

instance (grants : Nat → Bool) (bs : List UInt8) (t : Target) : Decidable (t.Grants grants bs) :=
  inferInstanceAs (Decidable (_ ∧ _))

/-- What the target makes of a line and what it sends: with `echo` the line, or the number and the carriage return
of a sum. -/
def Target.hear (echo : Bool) (grants : Nat → Bool) (bs : List UInt8) (t : Target) : Target × List UInt8 :=
  if t.SumDue then
    if t.Grants grants bs then
      (⟨t.size, t.accepted ++ t.pending, [], 0, t.sums + 1⟩, (if echo then bs.dropLast else []) ++ okLine)
    else (⟨t.size, t.accepted, [], 0, t.sums + 1⟩, (if echo then bs.dropLast else []) ++ resendLine)
  else ({ t with pending := t.pending ++ lineBytes bs, lines := t.lines + 1 }, if echo then bs else [])

/-! ### `LpcPhy::lpc_write_data` -/

/-- The local variables. -/
structure Progress where
  written : Nat
  verified : Nat
  line : Nat
  checksum : Nat
  retry : Nat

/-- How a turn of the loop ends. -/
inductive Turn
  | next (p : Progress)
  | done (ret : Int)

section

variable {σ : Type} (hear : List UInt8 → σ → σ × List UInt8) (ch : Channel) (echo : Bool) (src : List UInt8)

/-- `checksum_ok` -/
def checksumOk (checksum : Nat) (w : Wire σ) : Wire σ × Bool :=
  if echo then
    match lpcWaitResponse ch (decimal checksum ++ 13 :: okLine) quickTimeout w with
    | (w, r) => (w, r = 0)
  else
    match getLine ch 1024 timeout w with
    | (w, line) => (w, cString line.buf = okLine)

/-- The sum is sent and answered. -/
def sendChecksum (p : Progress) (w : Wire σ) : Wire σ × Turn :=
  let buf := sumLine p.checksum
  match w.write hear ch buf with
  | (w, bytes) =>
    if bytes ≠ buf.length then (w, .done (-1))
    else
      match checksumOk ch echo p.checksum w with
      | (w, true) => (w, .next ⟨p.written, p.written, 0, 0, 0⟩)
      | (w, false) =>
        match w.flush ch with
        | (w, err) =>
          if err < 0 then (w, .done (-1))
          else if p.retry + 1 = 3 then (w, .done (-1))
          else (w, .next ⟨p.verified, p.verified, 0, 0, p.retry + 1⟩)

/-- `line_size` -/
def lineSize (p : Progress) : Nat := if src.length - p.written < 45 then src.length - p.written else 45

/-- One turn of the loop. -/
def writeTurn (p : Progress) (w : Wire σ) : Wire σ × Turn :=
  let bytes := (src.drop p.written).take (lineSize src p)
  let buf := uuEncodeLine bytes
  match w.write hear ch buf with
  | (w, n) =>
    if n ≠ buf.length then (w, .done (-1))
    else
      let w := if echo then (lpcWaitResponse ch buf quickTimeout w).1 else w
      let p' : Progress := ⟨p.written + lineSize src p, p.verified, p.line + 1, p.checksum + byteSum bytes, p.retry⟩
      if p'.line = 20 ∨ lineSize src p ≠ 45 then sendChecksum hear ch echo p' w else (w, .next p')

/-- `none` if the loop has not ended. -/
def writeLoop : (turns : Nat) → Progress → Wire σ → Wire σ × Option Int
  | 0, _, w => (w, none)
  | turns + 1, p, w =>
    match writeTurn hear ch echo src p w with
    | (w, .done ret) => (w, some ret)
    | (w, .next p) => if p.written < src.length then writeLoop turns p w else (w, some p.written)

/-- `LpcPhy::lpc_write_data`.  No block is sent more than three times, and a block has 20 lines at most. -/
def lpcWriteData (w : Wire σ) : Wire σ × Option Int :=
  writeLoop hear ch echo src (63 * (src.length + 1)) ⟨0, 0, 0, 0, 0⟩ w

end

end Isp

end CoActionOS
