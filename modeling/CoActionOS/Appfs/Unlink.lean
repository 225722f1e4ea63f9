import CoActionOS.Appfs.Memory
import Mathlib.Algebra.BigOperators.Intervals
import Mathlib.Algebra.Order.BigOperators.Group.Finset

/-!
# The pages that unlinking erases

`appfs_unlink` adds up page sizes until the size of the file is reached.  It begins with the first page, which it has
looked up, and then asks for the pages from the first one on, so that the first is counted twice and the last one that
is counted is the one before `end_page`.  Where all pages have the same size that comes to the same (`Spans.even`);
`unlink_iff` says when it does.
-/

namespace CoActionOS

namespace Appfs

open Finset

/-- A flash memory as `I_MEM_GET_PAGEINFO` tells it: pages of any sizes, one behind the other. -/
structure FlashLayout where
  pages : Nat
  start : Nat
  size : Nat → BitVec 32
  pos : ∀ page < pages, 0 < (size page).toNat
  fits : start + ∑ page ∈ range pages, (size page).toNat ≤ 2 ^ 32

namespace FlashLayout

variable (flash : FlashLayout)

/-- The bytes in front of a page. -/
def before (page : Nat) : Nat := ∑ p ∈ range page, (flash.size p).toNat

/-- The size of a page, which `I_MEM_GET_PAGEINFO` reports with its address. -/
def getPageinfo (num : Nat) : Option (Nat × BitVec 32) :=
  if num < flash.pages then some (flash.start + flash.before num, flash.size num) else none

/-- The loop of `appfs_unlink`, which ends with `end_page`.  `size_deleted` is compared as an `uint32_t`. -/
def unlinkLoop (total : BitVec 32) : Nat → BitVec 32 → Nat → Option Nat
  | 0, _, _ => none
  | fuel + 1, sizeDeleted, num =>
    if sizeDeleted < total then
      match flash.getPageinfo num with
      | none => none
      | some (_, size) => unlinkLoop total fuel (sizeDeleted + size) (num + 1)
    else some num

/-- The pages that `priv_op_erase_pages` erases. -/
def erasepages (startPage endPage : Nat) : List Nat := List.range' startPage (endPage + 1 - startPage)

/-- What `appfs_unlink` passes to `appfs_util_erasepages` for a file of these sizes that was found in a page. -/
def unlinkPages (page : Nat) (codeSize dataSize : BitVec 32) : Option (Nat × Nat) :=
  (flash.unlinkLoop (codeSize + dataSize) (flash.pages + 1) (flash.size page) page).map (page, ·)

/-- A file of these sizes begins with page `first` and reaches into page `last`. -/
structure Spans (first last : Nat) (codeSize dataSize : BitVec 32) : Prop where
  order : first ≤ last
  inside : last < flash.pages
  reaches : flash.before last < flash.before first + (codeSize + dataSize).toNat
  ends : flash.before first + (codeSize + dataSize).toNat ≤ flash.before (last + 1)

/-- Exactly the pages of the file are erased. -/
def Unlinks (first last : Nat) (codeSize dataSize : BitVec 32) : Prop :=
  ∃ startPage endPage, flash.unlinkPages first codeSize dataSize = some (startPage, endPage) ∧
    ∀ page, page ∈ erasepages startPage endPage ↔ first ≤ page ∧ page ≤ last

/-- The bytes of the file in its last page. -/
def rest (first last : Nat) (codeSize dataSize : BitVec 32) : Nat :=
  flash.before first + (codeSize + dataSize).toNat - flash.before last

/-- The first page has as many bytes as the file has in its last page at least, and fewer than it has there and in the
page before; and what is added up stays below `2 ^ 32`. -/
structure Even (first last : Nat) (codeSize dataSize : BitVec 32) : Prop where
  covers : flash.rest first last codeSize dataSize ≤ (flash.size first).toNat
  misses : (flash.size first).toNat < (flash.size (last - 1)).toNat + flash.rest first last codeSize dataSize
  bounded : (flash.size first).toNat + (flash.before last - flash.before first) < 2 ^ 32

section

variable {flash} {first last : Nat} {codeSize dataSize : BitVec 32}

theorem before_succ (page : Nat) : flash.before (page + 1) = flash.before page + (flash.size page).toNat :=
  sum_range_succ _ page

theorem before_mono {p q : Nat} (h : p ≤ q) : flash.before p ≤ flash.before q :=
  sum_le_sum_of_subset (range_subset_range.mpr h)

theorem before_le {page : Nat} (h : page ≤ flash.pages) : flash.before page ≤ 2 ^ 32 :=
  (before_mono h).trans ((Nat.le_add_left _ _).trans flash.fits)

/-- What is added up before a page is asked for, when `d` was there before page `num`. -/
theorem unlinkLoop_eq_some_iff {total : BitVec 32} {fuel num e : Nat} {d : BitVec 32} (hnum : num ≤ flash.pages)
    (hfuel : flash.pages < num + fuel) :
    flash.unlinkLoop total fuel d num = some e ↔
      num ≤ e ∧ e ≤ flash.pages ∧
        (∀ page, num ≤ page → page < e → (d.toNat + (flash.before page - flash.before num)) % 2 ^ 32 < total.toNat) ∧
        total.toNat ≤ (d.toNat + (flash.before e - flash.before num)) % 2 ^ 32 := by
  induction fuel generalizing num d with
  | zero => omega
  | succ fuel ih =>
    have hd : d.toNat % 2 ^ 32 = d.toNat := Nat.mod_eq_of_lt d.isLt
    unfold unlinkLoop
    by_cases hlt : d < total
    · have hltn : d.toNat < total.toNat := BitVec.lt_def.mp hlt
      rw [if_pos hlt]
      unfold getPageinfo
      by_cases hin : num < flash.pages
      · rw [if_pos hin]
        dsimp only
        rw [ih hin (by omega)]
        -- what is added up is the same when page `num` is counted with `d`
        have hsum : ∀ page, num + 1 ≤ page →
            ((d + flash.size num).toNat + (flash.before page - flash.before (num + 1))) % 2 ^ 32 =
              (d.toNat + (flash.before page - flash.before num)) % 2 ^ 32 := by
          intro page hpage
          have hmono : flash.before (num + 1) ≤ flash.before page := before_mono hpage
          rw [before_succ] at hmono ⊢
          rw [BitVec.toNat_add, Nat.mod_add_mod]
          congr 1
          omega
        constructor
        · rintro ⟨hle, hpages, hall, hend⟩
          refine ⟨by omega, hpages, fun page h1 h2 => ?_, hsum e hle ▸ hend⟩
          rcases Nat.eq_or_lt_of_le h1 with rfl | h1
          · rwa [Nat.sub_self, Nat.add_zero, hd]
          · exact hsum page h1 ▸ hall page h1 h2
        · rintro ⟨hle, hpages, hall, hend⟩
          have hne : num ≠ e := by
            rintro rfl
            rw [Nat.sub_self, Nat.add_zero, hd] at hend
            omega
          have hlt' : num + 1 ≤ e := by omega
          exact ⟨hlt', hpages, fun page h1 h2 => (hsum page h1).symm ▸ hall page (by omega) h2, (hsum e hlt').symm ▸ hend⟩
      · rw [if_neg hin]
        refine iff_of_false (by exact nofun) ?_
        rintro ⟨hle, hpages, -, hend⟩
        obtain rfl : num = e := by omega
        rw [Nat.sub_self, Nat.add_zero, hd] at hend
        omega
    · have hge : total.toNat ≤ d.toNat := Nat.le_of_not_lt fun h => hlt (BitVec.lt_def.mpr h)
      rw [if_neg hlt, Option.some.injEq]
      constructor
      · rintro rfl
        refine ⟨le_rfl, hnum, fun page h1 h2 => absurd h1 (Nat.not_le_of_lt h2), ?_⟩
        rwa [Nat.sub_self, Nat.add_zero, hd]
      · rintro ⟨hle, -, hall, -⟩
        by_contra hne
        have hfirst := hall num le_rfl (by omega)
        rw [Nat.sub_self, Nat.add_zero, hd] at hfirst
        omega

theorem unlinks_iff_endPage (h : flash.Spans first last codeSize dataSize) :
    flash.Unlinks first last codeSize dataSize ↔
      flash.unlinkLoop (codeSize + dataSize) (flash.pages + 1) (flash.size first) first = some last := by
  have horder := h.order
  unfold Unlinks unlinkPages
  constructor
  · rintro ⟨startPage, endPage, heq, hpages⟩
    obtain ⟨e, he, heq⟩ := Option.map_eq_some_iff.mp heq
    cases heq
    have hlast := (hpages last).mpr ⟨horder, le_rfl⟩
    have hle := ((unlinkLoop_eq_some_iff (by have := h.inside; omega) (by omega)).mp he).1
    have hend := (hpages endPage).mp (by unfold erasepages; rw [List.mem_range'_1]; omega)
    unfold erasepages at hlast
    rw [List.mem_range'_1] at hlast
    rw [he, Option.some.injEq]
    omega
  · intro heq
    refine ⟨first, last, by rw [heq]; rfl, fun page => ?_⟩
    unfold erasepages
    rw [List.mem_range'_1]
    omega

/-- Unlinking erases exactly the pages of the file if it has one page only, or its first page is even with its last. -/
theorem unlink_iff (flash : FlashLayout) (first last : Nat) (codeSize dataSize : BitVec 32)
    (h : flash.Spans first last codeSize dataSize) :
    flash.Unlinks first last codeSize dataSize ↔ first = last ∨ flash.Even first last codeSize dataSize := by
  have horder := h.order
  have hinside := h.inside
  have hreaches := h.reaches
  have hends := h.ends
  have hfirst := (flash.size first).isLt
  rw [unlinks_iff_endPage h, unlinkLoop_eq_some_iff (by omega) (by omega)]
  rcases Nat.eq_or_lt_of_le horder with rfl | hlt
  · refine iff_of_true ⟨le_rfl, by omega, fun page h1 h2 => absurd h1 (Nat.not_le_of_lt h2), ?_⟩ (.inl rfl)
    rw [before_succ] at hends
    rw [Nat.sub_self, Nat.add_zero, Nat.mod_eq_of_lt hfirst]
    omega
  · have htotal := (codeSize + dataSize).isLt
    have hbefore : flash.before (first + 1) ≤ flash.before last := before_mono hlt
    have hprev : flash.before last = flash.before (last - 1) + (flash.size (last - 1)).toNat := by
      rw [← before_succ, Nat.sub_add_cancel (by omega)]
    have hfl : flash.before first ≤ flash.before (last - 1) := before_mono (by omega)
    have hall : flash.before (last + 1) ≤ 2 ^ 32 := before_le hinside
    have hpos := flash.pos last hinside
    rw [before_succ] at hbefore hends hall
    rw [or_iff_right (Nat.ne_of_lt hlt)]
    constructor
    · rintro ⟨-, -, hmiss, hcover⟩
      have hmiss' := hmiss (last - 1) (by omega) (by omega)
      -- with a carry less would be left than the file has in front of its last page
      have hbounded : (flash.size first).toNat + (flash.before last - flash.before first) < 2 ^ 32 := by
        by_contra hover
        rw [Nat.mod_eq_sub_mod (by omega), Nat.mod_eq_of_lt (by omega)] at hcover
        omega
      rw [Nat.mod_eq_of_lt hbounded] at hcover
      rw [Nat.mod_eq_of_lt (by omega)] at hmiss'
      exact ⟨by unfold rest; omega, by unfold rest; omega, hbounded⟩
    · rintro ⟨hcovers, hmisses, hbounded⟩
      unfold rest at hcovers hmisses
      refine ⟨hlt.le, by omega, fun page h1 h2 => ?_, ?_⟩
      · have hpage : flash.before page ≤ flash.before (last - 1) := before_mono (by omega)
        rw [Nat.mod_eq_of_lt (by omega)]
        omega
      · rw [Nat.mod_eq_of_lt hbounded]
        omega

/-- Pages of one size are even. -/
theorem Spans.even (h : flash.Spans first last codeSize dataSize) (hlt : first < last)
    (hsize : ∀ page < flash.pages, flash.size page = flash.size first) (hroom : flash.before flash.pages < 2 ^ 32) :
    flash.Even first last codeSize dataSize := by
  have hinside := h.inside
  have hreaches := h.reaches
  have hends := h.ends
  have hroom' : flash.before (last + 1) ≤ flash.before flash.pages := before_mono hinside
  have hmono : flash.before first ≤ flash.before last := before_mono hlt.le
  rw [before_succ, hsize last hinside] at hends hroom'
  refine ⟨by unfold rest; omega, ?_, by omega⟩
  rw [hsize (last - 1) (by omega)]
  unfold rest
  omega

end

end FlashLayout

/-- Sixteen pages of 4 KiB and two of 32 KiB. -/
def lpcFlash : FlashLayout where
  pages := 18
  start := 0
  size page := BitVec.ofNat 32 (Device.getFlashPageSize page)
  pos := by decide
  fits := by decide

/-- A file that begins in the last small page. -/
theorem unlink_iff_lpcFlash : lpcFlash.Unlinks 15 16 0x1800 0 ↔ 15 = 16 ∨ lpcFlash.Even 15 16 0x1800 0 :=
  FlashLayout.unlink_iff lpcFlash 15 16 0x1800 0 ⟨by decide, by decide, by decide, by decide⟩

/-- With a page more of data than that, the page behind it is erased too. -/
theorem not_unlinks : ¬ ∀ (flash : FlashLayout) (first last : Nat) (codeSize dataSize : BitVec 32),
    flash.Spans first last codeSize dataSize → flash.Unlinks first last codeSize dataSize := by
  intro h
  obtain ⟨startPage, endPage, heq, hpages⟩ := h lpcFlash 15 16 0x2800 0 ⟨by decide, by decide, by decide, by decide⟩
  have hrange : lpcFlash.unlinkPages 15 0x2800 0 = some (15, 17) := by decide
  rw [hrange] at heq
  cases heq
  have hneighbour := (hpages 17).mp (by decide)
  omega

end Appfs

end CoActionOS
