import Mathlib.Tactic.Set
import CoActionOS.Cafs.Block

/-!
# The medium, block by block

`blk f b` is what a load of block `b` gives.  A write inside a block changes that block only, by
`overwrite`, as long as it only clears bits (`Fits`); the lemmas here turn the device calls into
statements about `blk`.

`Event.OnlyClears` is the rule for writing NOR flash: for each byte, the new value is the conjunction
of the new and the old one.
-/

namespace CoActionOS.Cafs

/-- No bit of the bytes there had to be set. -/
def Event.OnlyClears : Event → Prop
  | .write _ old new => ∀ p ∈ old.zip new, p.2 &&& p.1 = p.2
  | .erase _ _ => True
  | .refused => True

instance : DecidablePred Event.OnlyClears
  | .write _ old new => inferInstanceAs (Decidable (∀ p ∈ old.zip new, p.2 &&& p.1 = p.2))
  | .erase _ _ => inferInstanceAs (Decidable True)
  | .refused => inferInstanceAs (Decidable True)

/-- Every write so far was one that NOR flash can carry out. -/
def St.LogOk (s : St) : Prop := ∀ e ∈ s.log, e.OnlyClears

/-! ### Slices and fields -/

@[simp] theorem length_slice (d : Bytes) (o n : Nat) : (slice d o n).length = n := by
  simp [slice]

@[simp] theorem getElem_slice (d : Bytes) (o n i : Nat) (h : i < (slice d o n).length) :
    (slice d o n)[i] = d (o + i) := by
  simp [slice]

theorem slice_congr {d d' : Bytes} {o o' n : Nat} (h : ∀ i < n, d (o + i) = d' (o' + i)) :
    slice d o n = slice d' o' n := by
  apply List.ext_getElem
  · simp
  · intro i h1 _
    rw [length_slice] at h1
    simp [h i h1]

@[simp] theorem length_le16 (n : Nat) : (le16 n).length = 2 := rfl

@[simp] theorem length_le32 (n : Nat) : (le32 n).length = 4 := rfl

theorem u16_congr {d d' : Bytes} {o o' : Nat} (h : ∀ i < 2, d (o + i) = d' (o' + i)) :
    u16 d o = u16 d' o' := by
  have h0 := h 0 (by omega)
  have h1 := h 1 (by omega)
  simp only [Nat.add_zero] at h0
  rw [u16, u16, h0, h1]

theorem u32_congr {d d' : Bytes} {o o' : Nat} (h : ∀ i < 4, d (o + i) = d' (o' + i)) :
    u32 d o = u32 d' o' := by
  have h1 : u16 d o = u16 d' o' := u16_congr fun i hi => h i (by omega)
  have h2 : u16 d (o + 2) = u16 d' (o' + 2) := by
    apply u16_congr
    intro i hi
    rw [Nat.add_assoc, Nat.add_assoc]
    exact h (2 + i) (by omega)
  rw [u32, u32, h1, h2]

theorem u16_lt (d : Bytes) (o : Nat) : u16 d o < 65536 := by
  have h0 := (d o).toNat_lt
  have h1 := (d (o + 1)).toNat_lt
  rw [u16]
  omega

theorem u32_lt (d : Bytes) (o : Nat) : u32 d o < 2 ^ 32 := by
  have h0 := u16_lt d o
  have h1 := u16_lt d (o + 2)
  rw [u32]
  omega

theorem u16_eq_of_le16 {d : Bytes} {o n : Nat} (hn : n < 65536) (h0 : d o = UInt8.ofNat n)
    (h1 : d (o + 1) = UInt8.ofNat (n / 256)) : u16 d o = n := by
  rw [u16, h0, h1, UInt8.toNat_ofNat', UInt8.toNat_ofNat']
  omega

theorem u32_eq_of_le32 {d : Bytes} {o n : Nat} (hn : n < 2 ^ 32) (h0 : d o = UInt8.ofNat n)
    (h1 : d (o + 1) = UInt8.ofNat (n / 256)) (h2 : d (o + 2) = UInt8.ofNat (n / 65536))
    (h3 : d (o + 3) = UInt8.ofNat (n / 16777216)) : u32 d o = n := by
  have h3' : d (o + 2 + 1) = UInt8.ofNat (n / 16777216) := h3
  rw [u32, u16, u16, h0, h1, h2, h3', UInt8.toNat_ofNat', UInt8.toNat_ofNat', UInt8.toNat_ofNat',
    UInt8.toNat_ofNat']
  omega

/-! ### Overwriting -/

theorem overwrite_of_lt {d : Bytes} {o i : Nat} {bs : List UInt8} (h : i < o ∨ o + bs.length ≤ i) :
    overwrite d o bs i = d i := by
  rw [overwrite, if_neg (by omega)]

theorem overwrite_add {d : Bytes} {o i : Nat} {bs : List UInt8} (h : i < bs.length) :
    overwrite d o bs (o + i) = bs[i] := by
  rw [overwrite, if_pos (by omega), Nat.add_sub_cancel_left]
  exact List.getD_eq_getElem _ _ h

/-! ### Blocks of the flash -/

/-- The contents of block `b`. -/
def blk (f : Flash) (b : Nat) : Bytes := fun i =>
  if i < blockSize then f.get (blockAddr b + i) else 0

theorem blk_of_lt {f : Flash} {b i : Nat} (h : i < 128) : blk f b i = f.get (128 * b + i) :=
  if_pos h

theorem blk_of_le {f : Flash} {b i : Nat} (h : 128 ≤ i) : blk f b i = 0 :=
  if_neg (Nat.not_lt.mpr h)

theorem blk_ext {f f' : Flash} {b : Nat}
    (h : ∀ i < 128, f'.get (128 * b + i) = f.get (128 * b + i)) : blk f' b = blk f b := by
  funext i
  by_cases hi : i < 128
  · rw [blk_of_lt hi, blk_of_lt hi, h i hi]
  · rw [blk_of_le (by omega), blk_of_le (by omega)]

/-- The bytes can be stored at `o` without setting a bit. -/
def Fits (d : Bytes) (o : Nat) (bs : List UInt8) : Prop :=
  ∀ (i : Nat) (h : i < bs.length), bs[i] &&& d (o + i) = bs[i]

theorem fits_of_blank {d : Bytes} {o : Nat} {bs : List UInt8}
    (h : ∀ i < bs.length, d (o + i) = 0xFF) : Fits d o bs := by
  intro i hi
  rw [h i hi]
  exact UInt8.and_neg_one

theorem fits_one {d : Bytes} {o : Nat} {v : UInt8} (h : v &&& d o = v) : Fits d o [v] := by
  intro i hi
  have hi : i = 0 := by simpa using hi
  subst hi
  exact h

theorem clears_of_fits {f : Flash} {b o : Nat} {bs : List UInt8} (ho : o + bs.length ≤ 128)
    (h : Fits (blk f b) o bs) : f.Clears (128 * b + o) bs := by
  intro i hi
  have h1 := h i hi
  rw [blk_of_lt (by omega)] at h1
  rwa [Nat.add_assoc]

section put

variable {s : St} {b o : Nat} {bs : List UInt8}

@[simp] theorem put_listBlock (loc : Nat) : (s.put loc bs).listBlock = s.listBlock := rfl
@[simp] theorem put_serialno (loc : Nat) : (s.put loc bs).serialno = s.serialno := rfl
@[simp] theorem put_up (loc : Nat) : (s.put loc bs).up = s.up := rfl

theorem get_put_of_lt {loc c : Nat} (h : c < loc ∨ loc + bs.length ≤ c) :
    (s.put loc bs).flash.get c = s.flash.get c :=
  Flash.get_program_of_lt h

theorem get_put {loc : Nat} (h : s.flash.Clears loc bs) (i : Nat) (hi : i < bs.length) :
    (s.put loc bs).flash.get (loc + i) = bs[i] := by
  have hin : loc ≤ loc + i ∧ loc + i - loc < bs.length := by omega
  rw [St.put, Flash.get_program_of_clears h hin]
  congr 1
  omega

theorem blk_put_self (ho : o + bs.length ≤ 128) (h : Fits (blk s.flash b) o bs) :
    blk (s.put (128 * b + o) bs).flash b = overwrite (blk s.flash b) o bs := by
  have hc := clears_of_fits ho h
  funext i
  by_cases hi : i < 128
  · rw [blk_of_lt hi]
    by_cases hin : o ≤ i ∧ i < o + bs.length
    · obtain ⟨j, rfl⟩ := Nat.exists_eq_add_of_le hin.1
      have hj : j < bs.length := by omega
      rw [overwrite_add hj, ← Nat.add_assoc, get_put hc j hj]
    · rw [overwrite_of_lt (by omega), get_put_of_lt (by omega), blk_of_lt hi]
  · rw [overwrite_of_lt (by omega), blk_of_le (by omega), blk_of_le (by omega)]

theorem blk_put_ne {b' : Nat} (ho : o + bs.length ≤ 128) (hb : b' ≠ b) :
    blk (s.put (128 * b + o) bs).flash b' = blk s.flash b' := by
  apply blk_ext
  intro i hi
  apply get_put_of_lt
  omega

theorem logOk_put {loc : Nat} (h : s.LogOk) (hc : s.flash.Clears loc bs) : (s.put loc bs).LogOk := by
  intro e he
  rcases List.mem_cons.mp he with rfl | he
  · intro p hp
    obtain ⟨i, hi, rfl⟩ := List.getElem_of_mem hp
    have hi' : i < bs.length := by simpa using hi
    simpa using hc i hi'
  · exact h e he

theorem logOk_wipe {loc n : Nat} (h : s.LogOk) : (s.wipe loc n).LogOk := by
  intro e he
  rcases List.mem_cons.mp he with rfl | he
  · trivial
  · exact h e he

theorem logOk_refuse (h : s.LogOk) : s.refuse.LogOk := by
  intro e he
  rcases List.mem_cons.mp he with rfl | he
  · trivial
  · exact h e he

end put

/-! ### The device calls -/

section calls

open Cmd

variable {g : Geometry} {s : St}

theorem Geometry.total_add_eraseable (g : Geometry) :
    (g.sections + 1) * g.eraseable = g.total + g.eraseable := by
  rw [Geometry.total, Nat.add_mul, Nat.one_mul]

theorem Geometry.size_eq (g : Geometry) : g.size = 128 * (g.total + g.eraseable) := by
  rw [Geometry.size, g.total_add_eraseable, blockSize, Nat.mul_comm]

theorem Geometry.blocks_le (g : Geometry) : g.total + g.eraseable ≤ 65535 := by
  rw [← g.total_add_eraseable]
  exact g.addressable

/-- The bytes are on the device and it can be used. -/
theorem reaches_block {b o n : Nat} (hup : s.up = true) (hb : b < g.total + g.eraseable)
    (ho : o + n ≤ 128) : s.reaches g (128 * b + o) n = true := by
  rw [St.reaches, hup, Bool.true_and, decide_eq_true_eq, g.size_eq]
  omega

theorem wp_clDevRead {loc n : Nat} {Q : Bytes → St → Prop} {R : St → Prop}
    (h : s.reaches g loc n = true)
    (hQ : Q (fun i => if i < n then s.flash.get (loc + i) else 0) s) :
    wp (clDevRead g loc n) Q R s := by
  apply wp_of_eq_ok _ hQ
  rw [clDevRead, if_pos h]

theorem slice_put {loc : Nat} {bs : List UInt8} (h : s.flash.Clears loc bs) :
    slice (s.put loc bs).flash.get loc bs.length = bs := by
  apply List.ext_getElem
  · simp
  · intro i h1 h2
    rw [getElem_slice, get_put h i h2]

theorem wp_clDevWrite {loc : Nat} {bs : List UInt8} {Q : Unit → St → Prop} {R : St → Prop}
    (h : s.reaches g loc bs.length = true) (hc : s.flash.Clears loc bs)
    (hQ : Q () (s.put loc bs)) : wp (clDevWrite g loc bs) Q R s := by
  apply wp_of_eq_ok _ hQ
  rw [clDevWrite, if_pos h, if_pos (slice_put hc)]

theorem wp_clBlockLoad {b : Nat} {Q : Bytes → St → Prop} {R : St → Prop} (hup : s.up = true)
    (hb : b < g.total + g.eraseable) (hQ : Q (blk s.flash b) s) : wp (clBlockLoad g b) Q R s := by
  have hb' : b ≠ blockInvalid := by
    have := g.blocks_le
    rw [blockInvalid]
    omega
  rw [clBlockLoad, if_neg hb']
  exact wp_clDevRead (reaches_block (o := 0) hup hb (by decide)) hQ

theorem ofBytes_congr {d d' : Bytes} (h : ∀ i < 6, d i = d' i) :
    BlockHdr.ofBytes d = BlockHdr.ofBytes d' := by
  have hs : u32 d 0 = u32 d' 0 := by
    apply u32_congr
    intro i hi
    rw [Nat.zero_add]
    exact h i (by omega)
  rw [BlockHdr.ofBytes, BlockHdr.ofBytes, hs, h 4 (by omega), h 5 (by omega)]

theorem hdrAt_eq {b : Nat} (hup : s.up = true) (hb : b < g.total + g.eraseable) :
    hdrAt g s b = some (.ofBytes (blk s.flash b)) := by
  have h : s.reaches g (blockAddr b) blockHeaderSize = true :=
    reaches_block (o := 0) hup hb (by decide)
  rw [hdrAt, if_pos h]
  exact congrArg some (ofBytes_congr fun i hi => (blk_of_lt (by omega)).symm)

theorem wp_clBlockLoadhdr {b : Nat} {Q : BlockHdr → St → Prop} {R : St → Prop} (hup : s.up = true)
    (hb : b < g.total + g.eraseable) (hQ : Q (.ofBytes (blk s.flash b)) s) :
    wp (clBlockLoadhdr g b) Q R s := by
  have hb' : b ≠ blockInvalid := by
    have := g.blocks_le
    rw [blockInvalid]
    omega
  rw [clBlockLoadhdr, if_neg hb', wp_bind]
  apply wp_clDevRead (reaches_block (o := 0) hup hb (by decide))
  rw [wp_pure]
  have h : ∀ d, (∀ i < 6, d i = blk s.flash b i) → Q (.ofBytes d) s := by
    intro d hd
    rwa [ofBytes_congr hd]
  apply h
  intro i hi
  show (if i < blockHeaderSize then _ else _) = _
  rw [if_pos (show i < blockHeaderSize from hi), blk_of_lt (by omega), Nat.add_zero]

end calls

end CoActionOS.Cafs
