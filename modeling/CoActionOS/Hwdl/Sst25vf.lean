import Mathlib.Algebra.Group.Int.Defs
import Mathlib.Algebra.Group.Nat.Defs
import Mathlib.Logic.Function.Basic
import Mathlib.Order.Nat
import Mathlib.Tactic.SplitIfs
import CoActionOS.Errno
import CoActionOS.Lib.Run

/-!
# The serial flash

A write is one programming sequence of byte pairs.  The first command carries the address, each further one only its pair, and a
pair that begins before the buffer or ends after it is padded with `0xFF`.  The end of a transfer arms an interrupt on the busy
line, and that interrupt starts the next transfer or ends the sequence.

`sequence_programs` says what is in the device when the sequence has ended.
-/

namespace CoActionOS

namespace Sst25vf

open Function

def insSeqProgram : UInt8 := 0xAD

def insWriteEnable : UInt8 := 0x06

def insWriteDisable : UInt8 := 0x04

def insRdStatus : UInt8 := 0x05

def insEbsy : UInt8 := 0x70

def insDbsy : UInt8 := 0x80

/-! ### The device -/

structure Flash where
  content : Nat → UInt8
  /-- Writes are enabled. -/
  wel : Bool
  /-- The busy status is on the data line. -/
  ebsy : Bool
  /-- The pair that a sequence goes on with. -/
  sequence : Option Nat
  busy : Bool

namespace Flash

/-- Bits of the pair are cleared. -/
def programPair (f : Flash) (pair : Nat) (d₀ d₁ : UInt8) : Flash :=
  { f with
    content := fun i =>
      if i = 2 * pair then f.content i &&& d₀ else if i = 2 * pair + 1 then f.content i &&& d₁ else f.content i
    sequence := some (pair + 1)
    busy := true }

/-- A command is executed when the chip is deselected; the first bit of its address is ignored. -/
def exec (f : Flash) (command : List UInt8) : Flash :=
  if f.busy then f
  else
    match command with
    | [ins] =>
      if ins = insEbsy then { f with ebsy := true }
      else if ins = insDbsy then { f with ebsy := false }
      else if ins = insWriteEnable then { f with wel := true }
      else if ins = insWriteDisable then { f with wel := false, sequence := none }
      else f
    | [ins, a₂, a₁, a₀, d₀, d₁] =>
      if ins = insSeqProgram ∧ f.wel = true ∧ f.sequence = none then
        f.programPair ((a₂.toNat * 2 ^ 16 + a₁.toNat * 2 ^ 8 + a₀.toNat) / 2) d₀ d₁
      else f
    | [ins, d₀, d₁] =>
      match f.sequence with
      | none => f
      | some pair => if ins = insSeqProgram then f.programPair pair d₀ d₁ else f
    | _ => f

end Flash

/-! ### The code -/

/-- `sst25vf_state_t` -/
structure Sst25vfState where
  buf : Nat
  nbyte : Int
  cmd : Nat → UInt8
  /-- The length of `op`. -/
  opNbyte : Nat
  callback : Bool
  prot : Int

structure State where
  state : Sst25vfState
  flash : Flash
  /-- The bytes since the chip was selected. -/
  selected : Option (List UInt8)
  /-- The transfer of the SPI port, and whether a callback is set there. -/
  transfer : Option (List UInt8)
  spiCallback : Bool
  /-- `continue_spi_write` is set for a rising edge of the data line. -/
  pioCallback : Bool
  mem : Nat → UInt8
  errno : Option Errno
  /-- The calls of the user's callback so far. -/
  calls : Nat

structure DeviceTransfer where
  loc : Int
  buf : Nat
  nbyte : Int
  callback : Bool

namespace State

variable (s : State)

/-- `sst25vf_share_assert_cs` -/
def assertCs : State := { s with selected := some (s.selected.getD []) }

/-- `sst25vf_share_deassert_cs` -/
def deassertCs : State :=
  match s.selected with
  | none => s
  | some command => { s with selected := none, flash := s.flash.exec command }

/-- `hwpl_spi_swap` -/
def swap (byte : UInt8) : State := { s with selected := s.selected.map (· ++ [byte]) }

/-- `sst25vf_share_write_quick_opcode` -/
def writeQuickOpcode (opcode : UInt8) : State := (s.assertCs.swap opcode).deassertCs

/-- `sst25vf_share_read_status` -/
def readStatus : State := ((s.assertCs.swap insRdStatus).swap 0xFF).deassertCs

/-- `hwpl_spi_write` of the command -/
def spiWrite : Int × State :=
  if s.transfer.isSome then (-1, { s with errno := some .eagain })
  else (0, { s with transfer := some ((List.range s.state.opNbyte).map s.state.cmd), spiCallback := true })

def setCmd (i : Nat) (byte : UInt8) : State := { s with state := { s.state with cmd := update s.state.cmd i byte } }

/-- `buf += tmp; nbyte -= tmp;` -/
def skip (tmp : Nat) : State := { s with state := { s.state with buf := s.state.buf + tmp, nbyte := s.state.nbyte - tmp } }

/-- `continue_spi_write`, which returns 0 -/
def continueSpiWrite : State :=
  let s := s.deassertCs
  if s.state.nbyte > 0 then
    let s := (s.setCmd 0 insSeqProgram).setCmd 1 (s.mem s.state.buf)
    let (s, tmp) := if s.state.nbyte > 1 then (s.setCmd 2 (s.mem (s.state.buf + 1)), 2) else (s.setCmd 2 0xFF, 1)
    let s := s.assertCs
    let s := { s with state := { s.state with opNbyte := 3 } }
    s.spiWrite.2.skip tmp
  else
    let s := ((s.writeQuickOpcode insWriteDisable).writeQuickOpcode insDbsy).readStatus
    let s := { s with state := { s.state with buf := 0 } }
    if s.state.callback then { s with calls := s.calls + 1, state := { s.state with callback := false } } else s

/-- `complete_spi_write` -/
def completeSpiWrite : Int × State :=
  let s := { s with pioCallback := true }
  let s := s.deassertCs.assertCs
  (if s.state.nbyte > 0 then 1 else 0, s)

/-- A byte of `loc` in memory. -/
def addrp (loc : Int) (i : Nat) : UInt8 := UInt8.ofNat (loc / 2 ^ (8 * i) % 256).toNat

end State

/-! ### Runs -/

inductive Action where
  /-- The SPI transfer is complete. -/
  | transferred
  /-- The device is ready, and the data line rises while it is selected. -/
  | ready
  deriving DecidableEq, Repr

def step (s : State) : Action → Option (State × Option Action)
  | .transferred =>
    match s.transfer with
    | none => none
    | some bytes =>
      let s := { s with transfer := none, selected := s.selected.map (· ++ bytes) }
      if s.spiCallback then
        let (ret, s) := s.completeSpiWrite
        some ({ s with spiCallback := decide (ret ≠ 0) }, some .transferred)
      else some (s, some .transferred)
  | .ready =>
    if s.flash.busy && s.flash.ebsy && s.selected.isSome && s.pioCallback then
      let s := { s with flash := { s.flash with busy := false } }
      let s := s.continueSpiWrite
      some ({ s with pioCallback := false }, some .ready)
    else none

/-! ### The statement -/

/-- No sequence is under way. -/
structure Free (s : State) : Prop where
  buf : s.state.buf = 0
  selected : s.selected = none
  transfer : s.transfer = none
  sequence : s.flash.sequence = none
  busy : s.flash.busy = false

/-- A write within a device that is free, erased and not protected, from a buffer in memory and with a callback. -/
structure Request where
  before : State
  /-- `size` of the device -/
  size : Nat
  loc : Nat
  nbyte : Nat
  buf : Nat
  free : Free before
  unprotected : before.state.prot ≠ 1
  erased : ∀ i < size, before.flash.content i = 0xFF
  size_le : size ≤ 2 ^ 24
  nbyte_pos : 0 < nbyte
  inside : loc + nbyte ≤ size
  buf_pos : 0 < buf

namespace Request

variable (w : Request)

def transfer : DeviceTransfer := ⟨w.loc, w.buf, w.nbyte, true⟩

/-- The pairs that are touched. -/
def pairs : Nat := (w.loc % 2 + w.nbyte + 1) / 2

/-- The buffer in its place. -/
def written : Nat → UInt8 := fun i =>
  if w.loc ≤ i ∧ i < w.loc + w.nbyte then w.before.mem (w.buf + (i - w.loc)) else w.before.flash.content i

/-- The sequence has ended: the content is the new one, the device is free and the callback was called once. -/
structure Ended (s : State) : Prop where
  content : s.flash.content = w.written
  free : Free s
  disabled : s.flash.wel = false ∧ s.flash.ebsy = false
  calls : s.calls = w.before.calls + 1
  stops : ∀ a, step s a = none

end Request

/-! ### A pair of the sequence -/

namespace Request

variable {w : Request} {s : State} {k : Nat}

/-- What a byte is programmed with. -/
def byteAt (w : Request) (i : Nat) : UInt8 :=
  if w.loc ≤ i ∧ i < w.loc + w.nbyte then w.before.mem (w.buf + (i - w.loc)) else 0xFF

/-- How many bytes of the buffer are in the first `k` pairs. -/
def upTo (w : Request) (k : Nat) : Nat := min w.nbyte (2 * k - w.loc % 2)

/-- The content after the first `k` pairs. -/
def stored (w : Request) (k : Nat) : Nat → UInt8 := fun i =>
  if i < 2 * (w.loc / 2 + k) then w.before.flash.content i &&& w.byteAt i else w.before.flash.content i

/-- The command that programs the pair after the first `k` ones. -/
def command (w : Request) (k : Nat) : List UInt8 :=
  let data := [w.byteAt (2 * (w.loc / 2 + k)), w.byteAt (2 * (w.loc / 2 + k) + 1)]
  if k = 0 then insSeqProgram :: State.addrp w.loc 2 :: State.addrp w.loc 1 :: State.addrp w.loc 0 :: data
  else insSeqProgram :: data

/-- The driver's variables and the device when `k` pairs are programmed and `sent` bytes are taken from the buffer. -/
structure Between (w : Request) (k sent : Nat) (s : State) : Prop where
  content : s.flash.content = w.stored k
  enabled : s.flash.wel = true ∧ s.flash.ebsy = true
  selected : s.selected = some []
  buf : s.state.buf = w.buf + sent
  nbyte : s.state.nbyte = w.nbyte - sent
  callback : s.state.callback = true
  mem : s.mem = w.before.mem
  calls : s.calls = w.before.calls

/-- The command for the next pair is being transferred. -/
structure Sending (w : Request) (k : Nat) (s : State) : Prop where
  between : w.Between k (w.upTo (k + 1)) s
  transfer : s.transfer = some (w.command k)
  callback : s.spiCallback = true
  sequence : s.flash.sequence = if k = 0 then none else some (w.loc / 2 + k)
  busy : s.flash.busy = false

/-- The device programs the last of the pairs. -/
structure Programming (w : Request) (k : Nat) (s : State) : Prop where
  between : w.Between k (w.upTo k) s
  transfer : s.transfer = none
  callback : s.pioCallback = true
  sequence : s.flash.sequence = some (w.loc / 2 + k)
  busy : s.flash.busy = true

theorem upTo_le (w : Request) (k : Nat) : w.upTo k ≤ w.nbyte := Nat.min_le_left ..

theorem upTo_lt (h : k < w.pairs) : w.upTo k < w.nbyte := by
  have := w.nbyte_pos
  unfold pairs at h
  unfold upTo
  omega

theorem upTo_pairs (w : Request) : w.upTo w.pairs = w.nbyte := by
  unfold upTo pairs
  omega

theorem and_allOnes (v : UInt8) : v &&& 0xFF = v := UInt8.and_neg_one

/-- After all pairs the buffer is in its place. -/
theorem stored_pairs (w : Request) : w.stored w.pairs = w.written := by
  funext i
  unfold stored byteAt written
  by_cases hin : w.loc ≤ i ∧ i < w.loc + w.nbyte
  · have hlt : i < 2 * (w.loc / 2 + w.pairs) := by
      unfold pairs
      omega
    have hinside := w.inside
    rw [if_pos hlt, if_pos hin, if_pos hin, w.erased i (by omega), UInt8.and_comm]
    exact and_allOnes _
  · rw [if_neg hin, if_neg hin, and_allOnes, ite_self]

theorem stored_succ (w : Request) (k : Nat) :
    w.stored (k + 1) = fun i =>
      if i = 2 * (w.loc / 2 + k) then w.stored k i &&& w.byteAt (2 * (w.loc / 2 + k))
      else if i = 2 * (w.loc / 2 + k) + 1 then w.stored k i &&& w.byteAt (2 * (w.loc / 2 + k) + 1) else w.stored k i := by
  funext i
  unfold stored
  by_cases hfirst : i = 2 * (w.loc / 2 + k)
  · rw [if_pos hfirst, if_pos (by omega), if_neg (by omega), hfirst]
  · rw [if_neg hfirst]
    by_cases hsecond : i = 2 * (w.loc / 2 + k) + 1
    · rw [if_pos hsecond, if_pos (by omega), if_neg (by omega), hsecond]
    · rw [if_neg hsecond]
      exact if_congr (by omega) rfl rfl

theorem toNat_addrp (n i : Nat) : (State.addrp n i).toNat = n / 2 ^ (8 * i) % 256 := by
  have hcast : (n : Int) / 2 ^ (8 * i) % 256 = ((n / 2 ^ (8 * i) % 256 : Nat) : Int) := by
    rw [Int.natCast_emod, Int.natCast_ediv, Int.natCast_pow]
    rfl
  unfold State.addrp
  rw [hcast, Int.toNat_natCast, UInt8.toNat_ofNat']
  exact Nat.mod_eq_of_lt (Nat.mod_lt _ (by decide))

/-- The address of the command is that of the first pair. -/
theorem addrp_pair (w : Request) :
    ((State.addrp w.loc 2).toNat * 2 ^ 16 + (State.addrp w.loc 1).toNat * 2 ^ 8 + (State.addrp w.loc 0).toNat) / 2 = w.loc / 2 := by
  have := w.inside
  have := w.size_le
  have := w.nbyte_pos
  rw [toNat_addrp, toNat_addrp, toNat_addrp]
  omega

/-- The device programs the pair of the command. -/
theorem Sending.exec (h : w.Sending k s) :
    s.flash.exec (w.command k) =
      s.flash.programPair (w.loc / 2 + k) (w.byteAt (2 * (w.loc / 2 + k))) (w.byteAt (2 * (w.loc / 2 + k) + 1)) := by
  unfold Flash.exec command
  rw [h.busy, if_neg Bool.false_ne_true]
  by_cases hk : k = 0
  · have hsequence : s.flash.sequence = none := by rw [h.sequence, if_pos hk]
    subst hk
    refine (if_pos ⟨rfl, h.between.enabled.1, hsequence⟩).trans ?_
    rw [addrp_pair]
    rfl
  · have hsequence : s.flash.sequence = some (w.loc / 2 + k) := by rw [h.sequence, if_neg hk]
    rw [if_neg hk]
    dsimp only
    rw [hsequence]
    exact if_pos rfl

end Request

/-! ### Commands of one byte -/

namespace Flash

variable {f : Flash}

theorem exec_nil (f : Flash) : f.exec [] = f := by
  unfold exec
  split_ifs <;> rfl

theorem exec_dbsy (h : f.busy = false) : f.exec [insDbsy] = { f with ebsy := false } := by
  unfold exec
  rw [h, if_neg Bool.false_ne_true]
  rfl

theorem exec_writeDisable (h : f.busy = false) : f.exec [insWriteDisable] = { f with wel := false, sequence := none } := by
  unfold exec
  rw [h, if_neg Bool.false_ne_true]
  rfl

theorem exec_rdStatus (f : Flash) : f.exec [insRdStatus, 0xFF] = f := by
  unfold exec
  split_ifs <;> rfl

end Flash

namespace State

variable {s : State}

theorem writeQuickOpcode_eq {opcode : UInt8} {f : Flash} (h : s.selected = none) (hexec : s.flash.exec [opcode] = f) :
    s.writeQuickOpcode opcode = { s with flash := f } := by
  cases s
  subst h hexec
  rfl

theorem readStatus_eq (h : s.selected = none) : s.readStatus = s := by
  have hread : s.readStatus = { s with flash := s.flash.exec [insRdStatus, 0xFF] } := by
    cases s
    subst h
    rfl
  rw [hread, Flash.exec_rdStatus]

theorem endSequence_eq (h : s.selected = none) (hbusy : s.flash.busy = false) :
    ((s.writeQuickOpcode insWriteDisable).writeQuickOpcode insDbsy).readStatus =
      { s with flash := { s.flash with wel := false, sequence := none, ebsy := false } } := by
  have hdisabled := writeQuickOpcode_eq h (Flash.exec_writeDisable hbusy)
  have hdbsy := writeQuickOpcode_eq (s := { s with flash := { s.flash with wel := false, sequence := none } }) h
    (Flash.exec_dbsy hbusy)
  rw [hdisabled, hdbsy]
  exact readStatus_eq h

/-- A transfer of these bytes is started, and as many are taken from the buffer. -/
structure Sends (s : State) (bytes : List UInt8) (taken : Nat) (r : State) : Prop where
  transfer : r.transfer = some bytes
  callback : r.spiCallback = true
  selected : r.selected = some []
  buf : r.state.buf = s.state.buf + taken
  nbyte : r.state.nbyte = s.state.nbyte - taken
  user : r.state.callback = s.state.callback
  mem : r.mem = s.mem
  calls : r.calls = s.calls

/-- While there are bytes left the next two are sent, or the last one and `0xFF`. -/
theorem continueSpiWrite_of_pos (hselected : s.selected = some []) (htransfer : s.transfer = none) (h : s.state.nbyte > 0) :
    s.Sends [insSeqProgram, s.mem s.state.buf, if s.state.nbyte > 1 then s.mem (s.state.buf + 1) else 0xFF]
        (if s.state.nbyte > 1 then 2 else 1) s.continueSpiWrite ∧
      s.continueSpiWrite.flash = s.flash := by
  obtain ⟨state, flash, selected, transfer, spiCallback, pioCallback, mem, errno, calls⟩ := s
  subst hselected htransfer
  have hflash := Flash.exec_nil flash
  unfold continueSpiWrite
  dsimp only [deassertCs] at h ⊢
  rw [if_pos h, hflash]
  by_cases htwo : state.nbyte > 1
  · simp only [setCmd, htwo, if_true]
    exact ⟨⟨rfl, rfl, rfl, rfl, rfl, rfl, rfl, rfl⟩, rfl⟩
  · simp only [setCmd, htwo, if_false]
    exact ⟨⟨rfl, rfl, rfl, rfl, rfl, rfl, rfl, rfl⟩, rfl⟩

/-- When there are none the sequence is ended and the callback called. -/
theorem continueSpiWrite_of_nonpos (hselected : s.selected = some []) (hbusy : s.flash.busy = false)
    (hcallback : s.state.callback = true) (h : ¬ s.state.nbyte > 0) :
    s.continueSpiWrite =
      { s with
        selected := none
        flash := { s.flash with wel := false, sequence := none, ebsy := false }
        state := { s.state with buf := 0, callback := false }
        calls := s.calls + 1 } := by
  obtain ⟨state, flash, selected, transfer, spiCallback, pioCallback, mem, errno, calls⟩ := s
  subst hselected
  have hflash := Flash.exec_nil flash
  have hend := endSequence_eq (s := ⟨state, flash, none, transfer, spiCallback, pioCallback, mem, errno, calls⟩) rfl hbusy
  unfold continueSpiWrite
  dsimp only [deassertCs] at h hcallback ⊢
  rw [if_neg h, hflash, hend]
  exact if_pos hcallback

end State

/-! ### The steps -/

namespace Request

variable {w : Request} {s : State} {k : Nat}

/-- At the end of the transfer the device is deselected and programs the pair. -/
theorem Sending.transferred (h : w.Sending k s) :
    (∃ s', step s .transferred = some (s', some .transferred) ∧ w.Programming (k + 1) s') ∧ step s .ready = none := by
  constructor
  · unfold step
    simp only [h.transfer, h.callback, if_true, State.completeSpiWrite, State.deassertCs, State.assertCs, h.between.selected,
      Option.map_some, List.nil_append, Option.getD_none, h.exec]
    refine ⟨_, rfl, ⟨?_, h.between.enabled, rfl, h.between.buf, h.between.nbyte, h.between.callback, h.between.mem,
      h.between.calls⟩, rfl, rfl, rfl, rfl⟩
    rw [stored_succ, ← h.between.content]
    rfl
  · unfold step
    rw [h.busy]
    rfl

theorem byteAt_add {q : Nat} (h : q < w.nbyte) : w.byteAt (w.loc + q) = w.before.mem (w.buf + q) := by
  unfold byteAt
  rw [if_pos (by omega), Nat.add_sub_cancel_left]

theorem byteAt_end (w : Request) : w.byteAt (w.loc + w.nbyte) = 0xFF := if_neg (by omega)

/-- After the first pair the buffer goes on at the beginning of a pair. -/
theorem pair_eq (hpos : 0 < k) (hk : k < w.pairs) : 2 * (w.loc / 2 + k) = w.loc + w.upTo k := by
  unfold pairs at hk
  unfold upTo
  omega

theorem upTo_succ (hpos : 0 < k) (hk : k < w.pairs) :
    w.upTo (k + 1) = w.upTo k + if w.upTo k + 1 < w.nbyte then 2 else 1 := by
  unfold pairs at hk
  unfold upTo
  split_ifs <;> omega

theorem Between.sending (h : w.Between k (w.upTo k) s) (hpos : 0 < k) (hk : k < w.pairs) :
    [insSeqProgram, s.mem s.state.buf, if s.state.nbyte > 1 then s.mem (s.state.buf + 1) else 0xFF] = w.command k ∧
      w.upTo (k + 1) = w.upTo k + if s.state.nbyte > 1 then 2 else 1 := by
  have hlt := upTo_lt hk
  have hmore : s.state.nbyte > 1 ↔ w.upTo k + 1 < w.nbyte := by
    rw [h.nbyte]
    omega
  refine ⟨?_, (upTo_succ hpos hk).trans (congrArg (w.upTo k + ·) (if_congr hmore.symm rfl rfl))⟩
  unfold command
  rw [if_neg (Nat.ne_of_gt hpos), pair_eq hpos hk, h.mem, h.buf, byteAt_add hlt]
  by_cases htwo : w.upTo k + 1 < w.nbyte
  · rw [if_pos (hmore.mpr htwo), Nat.add_assoc w.loc, byteAt_add htwo]
    rfl
  · have hend : w.loc + w.upTo k + 1 = w.loc + w.nbyte := by omega
    rw [if_neg (mt hmore.mp htwo), hend, byteAt_end]

/-- While there are pairs left the next transfer starts. -/
theorem Programming.ready (h : w.Programming k s) (hpos : 0 < k) (hk : k < w.pairs) :
    ∃ s', step s .ready = some (s', some .ready) ∧ w.Sending k s' := by
  have hlt := upTo_lt hk
  have hready : (s.flash.busy && s.flash.ebsy && s.selected.isSome && s.pioCallback) = true := by
    rw [h.busy, h.between.enabled.2, h.between.selected, h.callback]
    rfl
  have hnbyte : s.state.nbyte > 0 := by
    rw [h.between.nbyte]
    omega
  obtain ⟨hcommand, htaken⟩ := h.between.sending hpos hk
  unfold step
  rw [hready, if_pos rfl]
  refine ⟨_, rfl, ?_⟩
  obtain ⟨hsends, hflash⟩ := State.continueSpiWrite_of_pos (s := { s with flash := { s.flash with busy := false } })
    h.between.selected h.transfer hnbyte
  refine ⟨⟨?_, ?_, hsends.selected, ?_, ?_, hsends.user.trans h.between.callback, hsends.mem.trans h.between.mem,
    hsends.calls.trans h.between.calls⟩, hsends.transfer.trans (congrArg some hcommand), hsends.callback, ?_, ?_⟩
  · exact (congrArg Flash.content hflash).trans h.between.content
  · refine ⟨(congrArg Flash.wel hflash).trans h.between.enabled.1, (congrArg Flash.ebsy hflash).trans h.between.enabled.2⟩
  · rw [htaken, ← Nat.add_assoc, ← h.between.buf]
    exact hsends.buf
  · refine hsends.nbyte.trans ?_
    rw [htaken, Int.natCast_add, ← Int.sub_sub, ← h.between.nbyte]
  · rw [if_neg (by omega)]
    exact (congrArg Flash.sequence hflash).trans h.sequence
  · exact congrArg Flash.busy hflash

/-- After the last pair the sequence is ended. -/
theorem Programming.ended (h : w.Programming w.pairs s) :
    ∃ s', step s .ready = some (s', some .ready) ∧ w.Ended s' := by
  have hready : (s.flash.busy && s.flash.ebsy && s.selected.isSome && s.pioCallback) = true := by
    rw [h.busy, h.between.enabled.2, h.between.selected, h.callback]
    rfl
  have hnbyte : ¬ s.state.nbyte > 0 := by
    rw [h.between.nbyte, upTo_pairs]
    omega
  have hend := State.continueSpiWrite_of_nonpos (s := { s with flash := { s.flash with busy := false } })
    h.between.selected rfl h.between.callback hnbyte
  unfold step
  rw [hready, if_pos rfl]
  refine ⟨_, rfl, ?_⟩
  rw [hend]
  refine ⟨?_, ⟨rfl, rfl, h.transfer, rfl, rfl⟩, ⟨rfl, rfl⟩, congrArg (· + 1) h.between.calls, fun a => ?_⟩
  · exact h.between.content.trans w.stored_pairs
  · cases a with
    | transferred =>
      unfold step
      dsimp only
      rw [h.transfer]
    | ready => rfl

theorem Programming.not_transferred (h : w.Programming k s) : step s .transferred = none := by
  unfold step
  rw [h.transfer]

/-- Two interrupts go with each pair. -/
def Under (w : Request) (n : Nat) (s : State) : Prop :=
  (∃ k < w.pairs, n = 2 * k ∧ w.Sending k s) ∨ (∃ k < w.pairs, n = 2 * k + 1 ∧ w.Programming (k + 1) s) ∨
    n = 2 * w.pairs ∧ w.Ended s

theorem Under.step {n : Nat} {a : Action} {s' : State} {e : Option Action} (h : w.Under n s)
    (hstep : Sst25vf.step s a = some (s', e)) : w.Under (n + e.toList.length) s' := by
  rcases h with ⟨k, hk, hn, hsending⟩ | ⟨k, hk, hn, hprogramming⟩ | ⟨hn, hended⟩
  · obtain ⟨⟨s₁, hnext, hprogramming⟩, hnone⟩ := hsending.transferred
    cases a with
    | transferred =>
      obtain ⟨rfl, rfl⟩ := Prod.mk.inj (Option.some.inj (hnext.symm.trans hstep))
      exact .inr (.inl ⟨k, hk, congrArg (· + 1) hn, hprogramming⟩)
    | ready => exact absurd (hnone.symm.trans hstep) (by simp)
  · cases a with
    | transferred => exact absurd (hprogramming.not_transferred.symm.trans hstep) (by simp)
    | ready =>
      rcases Nat.lt_or_ge (k + 1) w.pairs with hmore | hlast
      · obtain ⟨s₁, hnext, hsending⟩ := hprogramming.ready k.succ_pos hmore
        obtain ⟨rfl, rfl⟩ := Prod.mk.inj (Option.some.inj (hnext.symm.trans hstep))
        exact .inl ⟨k + 1, hmore, congrArg (· + 1) hn, hsending⟩
      · have hlast : k + 1 = w.pairs := by omega
        rw [hlast] at hprogramming
        obtain ⟨s₁, hnext, hended⟩ := hprogramming.ended
        obtain ⟨rfl, rfl⟩ := Prod.mk.inj (Option.some.inj (hnext.symm.trans hstep))
        refine .inr (.inr ⟨?_, hended⟩)
        rw [hn, ← hlast]
        rfl
  · exact absurd ((hended.stops a).symm.trans hstep) (by simp)

end Request

end Sst25vf

end CoActionOS
