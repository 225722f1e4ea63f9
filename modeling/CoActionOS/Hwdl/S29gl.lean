import Mathlib.Data.Nat.Bitwise
import Mathlib.Logic.Function.Basic

/-!
# Parallel NOR flash

The `s29gl` driver programs one 16-bit word after the other and polls each of them.  `i` counts bytes there, but it is an index
of halfwords in the buffer, and it is halfwords that `loc` counts on the bus.

`identity_iff` says which requests that succeed can be read back.
-/

namespace CoActionOS

namespace S29gl

open Function

/-! ### The device -/

/-- A device on the external bus: where it is, and how it answers.  Up to `2 ^ lines` bytes belong to its chip select. -/
structure Board where
  addrMask : BitVec 32
  /-- `size`, in 16-bit words -/
  words : Nat
  lines : Nat
  fits : 2 * words ≤ 2 ^ lines
  lines_le : lines ≤ 30
  aligned : 2 ^ lines ∣ addrMask.toNat
  unlock : 0x555 < words
  /-- What is read in autoselect mode. -/
  manufacturer : UInt16
  /-- How often the status is read before the word that was programmed. -/
  busy : Nat → Nat
  status : Nat → UInt16
  toggles : ∀ n, status (n + 1) ≠ status n
  /-- What is read where there is no device. -/
  absent : BitVec 32 → UInt16

/-- The write cycles of a command. -/
inductive Cycle where
  | read
  | autoselect
  | unlocked
  | command
  | program
  deriving DecidableEq, Repr

structure Chip where
  content : Nat → UInt16
  cycle : Cycle
  /-- Status reads that are left. -/
  busy : Nat
  programs : Nat

def erased : Chip := ⟨fun _ => 0xFFFF, .read, 0, 0⟩

variable (b : Board)

/-- The word at an address. -/
def Board.word? (addr : BitVec 32) : Option Nat :=
  if (addr - b.addrMask).toNat < 2 * b.words then some ((addr - b.addrMask).toNat / 2) else none

/-- A write cycle; the fourth one of the program command clears bits of one word. -/
def Chip.write (c : Chip) (addr : BitVec 32) (v : UInt16) : Chip :=
  match b.word? addr with
  | none => c
  | some w =>
    if 0 < c.busy then c
    else
      match c.cycle with
      | .read | .autoselect => if w = 0x555 ∧ v = 0xAA then { c with cycle := .unlocked } else c
      | .unlocked => { c with cycle := if w = 0x2AA ∧ v = 0x55 then .command else .read }
      | .command =>
        { c with
          cycle := if w = 0x555 ∧ v = 0xA0 then .program else if w = 0x555 ∧ v = 0x90 then .autoselect else .read }
      | .program =>
        { content := update c.content w (c.content w &&& v), cycle := .read, busy := b.busy c.programs,
          programs := c.programs + 1 }

def Chip.read (c : Chip) (addr : BitVec 32) : UInt16 × Chip :=
  match b.word? addr with
  | none => (b.absent addr, c)
  | some w =>
    if 0 < c.busy then (b.status c.busy, { c with busy := c.busy - 1 })
    else if c.cycle = .autoselect then (b.manufacturer, c) else (c.content w, c)

/-! ### The code -/

/-- `mask | (loc << 1)` -/
def Board.address (loc : BitVec 32) : BitVec 32 := b.addrMask ||| (loc <<< 1)

/-- The three writes in front of each command. -/
def unlockWith (c : Chip) (v : UInt16) : Chip :=
  ((c.write b (b.address 0x555) 0xAA).write b (b.address 0x2AA) 0x55).write b (b.address 0x555) v

/-- The loop that waits for the write to complete, with what is left of the 5000 rounds. -/
def poll (addr : BitVec 32) (d : UInt16) : Nat → Chip → Option Chip
  | 0, _ => none
  | left + 1, c =>
    let (tmp0, c) := c.read b addr
    let (tmp1, c) := c.read b addr
    if left = 0 then none
    else if tmp0 ≠ tmp1 ∨ tmp1 ≠ d then poll addr d left c
    else some c

/-- The loop of `s29gl_write`, with the indices at which the buffer is read. -/
def writeLoop (d : Nat → UInt16) : Nat → Nat → BitVec 32 → Chip → Option (Chip × List Nat)
  | 0, _, _, c => some (c, [])
  | rounds + 1, i, loc, c =>
    let c := (unlockWith b c 0xA0).write b (b.address loc) (d i)
    match poll b (b.address loc) (d i) 5000 c with
    | none => none
    | some c => (writeLoop d rounds (i + 2) (loc + 2) c).map fun r => (r.1, i :: r.2)

/-- `s29gl_write`; `none` is the error. -/
def s29glWrite (loc : BitVec 32) (d : Nat → UInt16) (nbyte : Nat) (c : Chip) : Option (Chip × List Nat) :=
  let c := unlockWith b c 0x90
  let c := (c.read b (b.address 0)).2
  writeLoop b d ((nbyte + 1) / 2) 0 loc c

/-- `memcpy` from the bus, in halfwords. -/
def memcpy (addr : BitVec 32) : Nat → Chip → List UInt16
  | 0, _ => []
  | n + 1, c => (c.read b addr).1 :: memcpy (addr + 2) n (c.read b addr).2

/-- `s29gl_read` -/
def s29glRead (loc : BitVec 32) (nbyte : Nat) (c : Chip) : List UInt16 := memcpy b (b.addrMask + (loc <<< 1)) (nbyte / 2) c

/-! ### The statement -/

/-- A request for an even number of bytes whose words are on the device. -/
structure Transfer where
  loc : Nat
  nbyte : Nat
  even : nbyte % 2 = 0
  inside : loc + nbyte / 2 ≤ b.words

variable {b} in
/-- The buffer is read back, it was not read behind its end, and all other words are still erased. -/
structure Identity (t : Transfer b) (d : Nat → UInt16) (r : Chip × List Nat) : Prop where
  same : s29glRead b (BitVec.ofNat 32 t.loc) t.nbyte r.1 = (List.range (t.nbyte / 2)).map d
  bounded : ∀ i ∈ r.2, 2 * i + 2 ≤ t.nbyte
  unchanged : ∀ w, w < t.loc ∨ t.loc + t.nbyte / 2 ≤ w → r.1.content w = 0xFFFF

/-! ### Addresses -/

variable {b} {c c' : Chip} {loc w : Nat} {addr : BitVec 32} {d : Nat → UInt16} {v : UInt16}

theorem toNat_shift (h : loc < b.words) : (BitVec.ofNat 32 loc <<< 1).toNat = 2 * loc := by
  have hfits := b.fits
  have hlines : 2 ^ b.lines ≤ 2 ^ 30 := Nat.pow_le_pow_right (by decide) b.lines_le
  rw [BitVec.toNat_shiftLeft, BitVec.toNat_ofNat, Nat.mod_eq_of_lt (by omega), Nat.shiftLeft_eq, Nat.mod_eq_of_lt (by omega)]
  omega

theorem toNat_address (h : loc < b.words) : (b.address (BitVec.ofNat 32 loc)).toNat = b.addrMask.toNat + 2 * loc := by
  have hfits := b.fits
  obtain ⟨k, hk⟩ := b.aligned
  unfold Board.address
  rw [BitVec.toNat_or, toNat_shift h, hk, ← Nat.two_pow_add_eq_or_of_lt (by omega)]

theorem word?_of_toNat (h : loc < b.words) (haddr : addr.toNat = b.addrMask.toNat + 2 * loc) : b.word? addr = some loc := by
  have hmask := b.addrMask.isLt
  have hsub : (addr - b.addrMask).toNat = 2 * loc := by
    have haddr' := addr.isLt
    rw [BitVec.toNat_sub, haddr]
    omega
  unfold Board.word?
  rw [hsub, if_pos (by omega), Nat.mul_div_cancel_left _ (by decide)]

theorem word?_address (h : loc < b.words) : b.word? (b.address (BitVec.ofNat 32 loc)) = some loc :=
  word?_of_toNat h (toNat_address h)

theorem word?_unlock : b.word? (b.address 0x555) = some 0x555 ∧ b.word? (b.address 0x2AA) = some 0x2AA := by
  have h := b.unlock
  exact ⟨word?_address h, word?_address (Nat.lt_trans (by decide) h)⟩

/-! ### Commands -/

/-- What the unlock cycles leave of a device that is not busy. -/
theorem unlockWith_eq (hbusy : c.busy = 0) (hcycle : c.cycle = .read ∨ c.cycle = .autoselect) (v : UInt16) :
    unlockWith b c v = { c with cycle := if v = 0xA0 then .program else if v = 0x90 then .autoselect else .read } := by
  obtain ⟨content, cycle, busy, programs⟩ := c
  obtain rfl : busy = 0 := hbusy
  unfold unlockWith Chip.write
  rw [word?_unlock.1, word?_unlock.2]
  rcases hcycle with h | h
  · obtain rfl : cycle = .read := h
    simp
  · obtain rfl : cycle = .autoselect := h
    simp

theorem program_eq (hbusy : c.busy = 0) (hcycle : c.cycle = .program) (haddr : b.word? addr = some w) (v : UInt16) :
    c.write b addr v = ⟨update c.content w (c.content w &&& v), .read, b.busy c.programs, c.programs + 1⟩ := by
  unfold Chip.write
  rw [haddr]
  dsimp only
  rw [if_neg (by omega), hcycle]

/-- Reads in array mode. -/
theorem read_ready (hcycle : c.cycle = .read) (hbusy : c.busy = 0) (haddr : b.word? addr = some w) :
    c.read b addr = (c.content w, c) := by
  unfold Chip.read
  rw [haddr, hcycle, hbusy]
  rfl

theorem read_busy {n : Nat} (hbusy : c.busy = n + 1) (haddr : b.word? addr = some w) :
    c.read b addr = (b.status (n + 1), { c with busy := n }) := by
  unfold Chip.read
  rw [haddr, hbusy]
  rfl

/-- One round of the loop. -/
theorem poll_of_reads {x x0 x1 : UInt16} {c0 c1 : Chip} {left : Nat} (h0 : c.read b addr = (x0, c0)) (h1 : c0.read b addr = (x1, c1))
    (h : poll b addr x (left + 1) c = some c') : poll b addr x left c1 = some c' ∨ c1 = c' ∧ x0 = x1 := by
  unfold poll at h
  rw [h0] at h
  dsimp only at h
  rw [h1] at h
  dsimp only at h
  split_ifs at h with hlast hmore
  · exact Or.inl h
  · obtain ⟨heq, -⟩ := not_or.mp hmore
    exact Or.inr ⟨Option.some.inj h, not_not.mp heq⟩

/-- The status toggles, so that the loop ends only after the word was read. -/
theorem poll_eq {x : UInt16} (haddr : b.word? addr = some w) (left : Nat) : ∀ {c : Chip}, c.cycle = .read →
    poll b addr x left c = some c' → c' = { c with busy := 0 } := by
  induction left with
  | zero => exact fun _ h => absurd h (by simp [poll])
  | succ left ih =>
    intro c hcycle h
    match hbusy : c.busy with
    | 0 =>
      have hread := read_ready hcycle hbusy haddr
      rcases poll_of_reads hread hread h with hrest | ⟨rfl, -⟩
      · exact ih hcycle hrest
      · rw [← hbusy]
    | 1 =>
      have hread := read_busy hbusy haddr
      rcases poll_of_reads hread (read_ready hcycle rfl haddr) h with hrest | ⟨rfl, -⟩
      · exact ih (c := { c with busy := 0 }) hcycle hrest
      · rfl
    | n + 2 =>
      rcases poll_of_reads (read_busy hbusy haddr) (read_busy rfl haddr) h with hrest | ⟨-, heq⟩
      · exact ih (c := { c with busy := n }) hcycle hrest
      · exact absurd heq (b.toggles (n + 1))

/-! ### The loop -/

/-- Every other halfword of the buffer is read. -/
theorem writeLoop_reads {r : Chip × List Nat} (rounds : Nat) : ∀ {i : Nat} {l : BitVec 32} {c : Chip},
    writeLoop b d rounds i l c = some r → r.2 = (List.range rounds).map fun k => i + 2 * k := by
  induction rounds generalizing r with
  | zero =>
    intro i l c h
    obtain rfl := Option.some.inj h
    rfl
  | succ rounds ih =>
    intro i l c h
    unfold writeLoop at h
    dsimp only at h
    split at h
    · exact absurd h (by simp)
    · obtain ⟨r', hr', rfl⟩ := Option.map_eq_some_iff.mp h
      rw [List.range_succ_eq_map, List.map_cons, List.map_map, ih hr']
      refine congrArg (i :: ·) (List.map_congr_left fun k _ => ?_)
      show i + 2 + 2 * k = i + 2 * (k + 1)
      omega

/-- The part of the driver in front of the loop changes nothing but the mode. -/
theorem s29glWrite_eq (l : BitVec 32) (d : Nat → UInt16) (nbyte : Nat) :
    s29glWrite b l d nbyte erased = writeLoop b d ((nbyte + 1) / 2) 0 l { erased with cycle := .autoselect } := by
  have hzero : b.word? (b.address 0) = some 0 := word?_address (Nat.lt_of_le_of_lt (Nat.zero_le _) b.unlock)
  unfold s29glWrite
  rw [unlockWith_eq rfl (Or.inl rfl)]
  dsimp only
  rw [if_neg (by decide), if_pos rfl]
  unfold Chip.read
  rw [hzero]
  rfl

/-- One word. -/
theorem writeLoop_one {r : Chip × List Nat} (h : loc < b.words)
    (hr : writeLoop b d 1 0 (BitVec.ofNat 32 loc) { erased with cycle := .autoselect } = some r) :
    r = (⟨update (fun _ => 0xFFFF) loc (d 0), .read, 0, 1⟩, [0]) := by
  have hand : (0xFFFF : UInt16) &&& d 0 = d 0 := by
    rw [← UInt16.toNat_inj, UInt16.toNat_and, Nat.and_comm]
    exact Nat.and_two_pow_sub_one_of_lt_two_pow (n := 16) (UInt16.toNat_lt _)
  unfold writeLoop at hr
  dsimp only at hr
  rw [unlockWith_eq rfl (Or.inr rfl), if_pos rfl, program_eq rfl rfl (word?_address h)] at hr
  dsimp only at hr
  split at hr
  · exact absurd hr (by simp)
  · next c' hpoll =>
    obtain rfl := Option.some.inj hr
    rw [poll_eq (word?_address h) 5000 rfl hpoll]
    dsimp only [erased]
    rw [hand]

theorem s29glRead_two (h : loc < b.words) {c : Chip} (hcycle : c.cycle = .read) (hbusy : c.busy = 0) :
    s29glRead b (BitVec.ofNat 32 loc) 2 c = [c.content loc] := by
  have haddr : b.word? (b.addrMask + (BitVec.ofNat 32 loc <<< 1)) = some loc := by
    have hsum := (b.address (BitVec.ofNat 32 loc)).isLt
    rw [toNat_address h] at hsum
    refine word?_of_toNat h ?_
    rw [BitVec.toNat_add, toNat_shift h, Nat.mod_eq_of_lt hsum]
  show [(c.read b _).1] = _
  rw [read_ready hcycle hbusy haddr]

/-- A request that succeeds is one that can be read back if it is for at most one word. -/
theorem identity_iff (t : Transfer b) (d : Nat → UInt16) {r : Chip × List Nat}
    (hr : s29glWrite b (BitVec.ofNat 32 t.loc) d t.nbyte erased = some r) : Identity t d r ↔ t.nbyte ≤ 2 := by
  have heven := t.even
  rw [s29glWrite_eq, show (t.nbyte + 1) / 2 = t.nbyte / 2 by omega] at hr
  constructor
  · intro h
    by_contra hlong
    have hmem : 2 * (t.nbyte / 2 - 1) ∈ r.2 := by
      rw [writeLoop_reads _ hr]
      exact List.mem_map.mpr ⟨t.nbyte / 2 - 1, List.mem_range.mpr (by omega), Nat.zero_add _⟩
    have hbounded := h.bounded _ hmem
    omega
  · intro hshort
    rcases (by omega : t.nbyte = 0 ∨ t.nbyte = 2) with hnbyte | hnbyte
    · rw [hnbyte] at hr
      obtain rfl := Option.some.inj hr
      refine ⟨?_, fun i hi => absurd hi List.not_mem_nil, fun _ _ => rfl⟩
      rw [hnbyte]
      rfl
    · have hinside := t.inside
      rw [hnbyte] at hr hinside
      have hloc : t.loc < b.words := hinside
      obtain rfl := writeLoop_one hloc hr
      refine ⟨?_, fun i hi => ?_, fun w hw => ?_⟩
      · rw [hnbyte, s29glRead_two hloc rfl rfl]
        exact congrArg (· :: []) (update_self t.loc (d 0) fun _ => (0xFFFF : UInt16))
      · rw [List.mem_singleton.mp hi, hnbyte]
      · have hne : w ≠ t.loc := by
          rw [hnbyte] at hw
          omega
        show update (fun _ => (0xFFFF : UInt16)) t.loc (d 0) w = 0xFFFF
        rw [update_of_ne hne]

/-- An 8 kB device that is never busy. -/
def small : Board where
  addrMask := 0x80000000
  words := 0x1000
  lines := 13
  fits := by decide
  lines_le := by decide
  aligned := by decide
  unlock := by decide
  manufacturer := 1
  busy _ := 0
  status n := if n % 2 = 0 then 0x40 else 0
  toggles n := by
    rcases Nat.mod_two_eq_zero_or_one n with h | h
    · rw [if_neg (by omega), if_pos h]
      decide
    · rw [if_pos (by omega), if_neg (by omega)]
      decide
  absent _ := 0

theorem identity_iff_word : Identity (⟨2, 2, rfl, by decide⟩ : Transfer small) (fun _ => 0x1234)
    ((s29glWrite small (BitVec.ofNat 32 2) (fun _ => 0x1234) 2 erased).get (by decide)) ↔ 2 ≤ 2 :=
  identity_iff ⟨2, 2, rfl, by decide⟩ _ (Option.some_get _).symm

/-- For two words, the first and the third one of the buffer are programmed. -/
theorem not_identity : ¬ ∀ (b : Board) (t : Transfer b) (d : Nat → UInt16) (r : Chip × List Nat),
    s29glWrite b (BitVec.ofNat 32 t.loc) d t.nbyte erased = some r → Identity t d r := by
  intro h
  have hsome : (s29glWrite small (BitVec.ofNat 32 0) (fun i => UInt16.ofNat i) 4 erased).isSome = true := by decide
  obtain ⟨r, hr⟩ := Option.isSome_iff_exists.mp hsome
  have hbounded := (h small ⟨0, 4, rfl, by decide⟩ (fun i => UInt16.ofNat i) r hr).bounded
  rw [s29glWrite_eq] at hr
  rw [writeLoop_reads _ hr] at hbounded
  exact absurd (hbounded 2 (by decide)) (by decide)

end S29gl

end CoActionOS
