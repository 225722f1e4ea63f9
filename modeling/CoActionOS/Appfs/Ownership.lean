import CoActionOS.Appfs.Install
import CoActionOS.Lib.Run
import Mathlib.Data.List.Pairwise

/-!
# Who owns the pages of RAM

The installed applications are recorded beside the store, each with the pages of RAM that its install marked.  An install
looks for as many free pages as hold the size and marks as many as hold the size rounded up to a power of two, and it
does not take its marks back when it fails later (`not_ramPagesOwned`).  Runs in which neither happens keep the pages
apart (`ramPagesOwned_of_careful`).
-/

namespace CoActionOS

namespace Appfs

open UsageTable Store
open Hwpl (mpuGetnextpowerof2)

/-- An installed application: its first page and the pages of RAM marked for it. -/
structure App where
  type : MemType
  page : Nat
  pages : List Nat
  deriving DecidableEq

def App.At (a : App) (type : MemType) (page : Nat) : Prop := a.type = type ∧ a.page = page

instance (a : App) (type : MemType) (page : Nat) : Decidable (a.At type page) := by
  unfold App.At
  infer_instance

/-- The store with the record of what is installed. -/
structure System where
  store : Store
  apps : List App

/-- Besides installs and unlinks, anything else may write to the memory: the rest of an image, data files and running
programs. -/
inductive Action
  | install (attr : InstallAttr) (io : Option Errno)
  | unlink (type : MemType) (name : List UInt8) (erased : Nat → Option AppfsFile)
  | write (files : MemType → Nat → AppfsFile)

/-- What an action does to the usage table, with the pages found free and the pages marked. -/
inductive Event
  | installed (before after : UsageTable) (found marked : List Nat)
  | failed (before after : UsageTable)
  | unlinked (before after : UsageTable) (marked : List Nat)

def InstallAttr.codePages (attr : InstallAttr) (code : Place) : List Nat :=
  match attr.type with
  | .flash => []
  | .ram => List.range' code.page (setrangePages attr.codeSize)

def InstallAttr.dataPages (attr : InstallAttr) (data : Place) : List Nat :=
  List.range' data.page (setrangePages attr.file.ramSize)

/-- The pages of RAM that the searches found free. -/
def InstallAttr.found (attr : InstallAttr) (code data : Place) : List Nat :=
  match attr.type with
  | .flash => data.free
  | .ram => code.free ++ data.free

variable (dev : Device) (symbols : List (BitVec 32))

namespace System

variable (x : System)

def step : Action → Option (System × Option Event)
  | .install attr io =>
    match x.store.install dev symbols attr io with
    | (s, .error _) => some ({ x with store := s }, some (.failed x.store.usage s.usage))
    | (s, .ok (code, data)) =>
      let marked := attr.codePages code ++ attr.dataPages data
      some (⟨s, ⟨attr.type, code.page, marked⟩ :: x.apps⟩,
        some (.installed x.store.usage s.usage (attr.found code data) marked))
  | .unlink type name erased =>
    match x.store.unlink dev type name erased, x.store.appfsUtilLookupname dev name type (dev.pageBound type) 0 with
    | (s, .ok ()), some page =>
      some (⟨s, x.apps.filter fun a => ¬a.At type page⟩,
        (x.apps.find? fun a => a.At type page).map fun a => .unlinked x.store.usage s.usage a.pages)
    | (s, _), _ => some ({ x with store := s }, none)
  | .write files => some ({ x with store := { x.store with files } }, none)

/-- All pages are free and nothing is installed. -/
def Init : Prop := (∀ p, x.store.usage.pageUsage p = appfsMempagetypeFree) ∧ x.apps = []

/-- No page belongs to two applications. -/
def OwnedOnce : Prop := x.apps.Pairwise fun a b => a.pages.Disjoint b.pages

end System

/-- An install marks the pages it found free and no others, a failed install marks none, and an unlink frees what the
install marked. -/
def Event.Ok : Event → Prop
  | .installed before after found marked =>
    (∀ p, p ∈ marked ↔ p ∈ found) ∧ (∀ p ∈ found, before.appfsRamGetusage p = some appfsMempagetypeFree) ∧
      (∀ p ∈ marked, after.pageUsage p ≠ appfsMempagetypeFree) ∧
      ∀ p, p ∉ marked → after.pageUsage p = before.pageUsage p
  | .failed before after => after = before
  | .unlinked before after marked =>
    ∀ p, after.pageUsage p = if p ∈ marked then appfsMempagetypeFree else before.pageUsage p

def RamPagesOwned (ok : System → Action → Prop) : Prop :=
  ∀ x₀ x es, x₀.Init → Run (System.step dev symbols) ok x₀ es x → x.OwnedOnce ∧ ∀ e ∈ es, e.Ok

/-! ### The condition -/

/-- If the install gets as far as a place for the code, it goes through, and what it marks are whole pages. -/
def CarefulInstall (s : Store) (attr : InstallAttr) (io : Option Errno) : Prop :=
  sizeofAppfsFile ≤ attr.nbyte → some attr.file.signature = (symbolsTable symbols)[0]? →
    ∀ code, s.findProtectableFree dev attr.type attr.codeSize = some code →
      (attr.type = .ram → WholePages attr.codeSize ∧
        ∃ data, (s.markCode attr code).findProtectableFree dev .ram attr.file.ramSize = some data) ∧
      ∀ data, (s.markCode attr code).findProtectableFree dev .ram attr.file.ramSize = some data →
        WholePages attr.file.ramSize ∧ attr.unresolved symbols code data = false ∧ attr.tooLong code = false ∧ io = none

/-- What is unlinked is an installed application or a data file, and no page with the header of another application is
erased with it. -/
def CarefulUnlink (x : System) (type : MemType) (name : List UInt8) (erased : Nat → Option AppfsFile) : Prop :=
  (isSys name || isFree name) = false →
    ∀ page, x.store.appfsUtilLookupname dev name type (dev.pageBound type) 0 = some page →
    ((∃ a ∈ x.apps, a.At type page) ∨
      type = .flash ∧ (x.store.files type page).signature = appfsCreateSignature) ∧
    ∀ a ∈ x.apps, a.type = .flash → a.page ≠ page → erased a.page = none

def Careful (x : System) : Action → Prop
  | .install attr io => CarefulInstall dev symbols x.store attr io
  | .unlink type name erased => CarefulUnlink dev x type name erased
  | .write files => ∀ a ∈ x.apps, files a.type a.page = x.store.files a.type a.page

/-! ### What the searches find -/

variable {dev symbols} {s : Store} {type : MemType} {size : BitVec 32}

/-- The loop finds as many pages in a row as are still needed. -/
theorem checkForFreeSpaceLoop_ram {n : Int} {fuel : Nat} {last : Option Nat} {num : Nat} {freeSize : Int} {free : List Nat}
    (hfuel : n - freeSize ≤ fuel) (h : s.checkForFreeSpaceLoop dev .ram n fuel last num freeSize = some free) :
    free = List.range' num (pagesNeeded (n - freeSize)) ∧
      ∀ p ∈ free, s.usage.appfsRamGetusage p = some appfsMempagetypeFree := by
  induction fuel generalizing last num freeSize free with
  -- the fuel is used up when nothing is needed any more
  | zero =>
    obtain rfl := Option.some.inj h
    have hzero : pagesNeeded (n - freeSize) = 0 := by
      unfold pagesNeeded deviceRamPageSize
      omega
    rw [hzero]
    exact ⟨rfl, fun p hp => nomatch hp⟩
  | succ fuel ih =>
    unfold checkForFreeSpaceLoop at h
    by_cases hlt : freeSize < n
    · rw [if_pos hlt] at h
      cases hinfo : dev.memGetpageinfo .ram num with
      | none =>
        rw [hinfo] at h
        cases h
      | some info =>
        obtain ⟨addr, pageSize⟩ := info
        have hsize : pageSize = deviceRamPageSize := by
          obtain ⟨_, _, heq⟩ := Option.map_eq_some_iff.mp hinfo
          exact (Prod.mk.inj heq).2.symm
        rw [hinfo] at h
        simp only at h
        split_ifs at h with hlast hfree
        -- the page is free, and one fewer is needed
        obtain ⟨rest, hrest, rfl⟩ := Option.map_eq_some_iff.mp h
        rw [hsize] at hrest
        obtain ⟨heq, hall⟩ := ih (by unfold deviceRamPageSize; omega) hrest
        have hneed : pagesNeeded (n - freeSize) = pagesNeeded (n - (freeSize + deviceRamPageSize)) + 1 := by
          unfold pagesNeeded deviceRamPageSize
          omega
        constructor
        · rw [hneed, List.range'_succ, heq]
        · intro p hp
          rcases List.mem_cons.mp hp with rfl | hp
          · exact hfree
          · exact hall p hp
    · rw [if_neg hlt] at h
      obtain rfl := Option.some.inj h
      have hzero : pagesNeeded (n - freeSize) = 0 := by
        unfold pagesNeeded deviceRamPageSize
        omega
      rw [hzero]
      exact ⟨rfl, fun p hp => nomatch hp⟩

theorem findProtectableAddr_spec {fuel i page addr : Nat}
    (h : findProtectableAddr dev type size fuel i = some (page, addr)) :
    (∃ pageSize, dev.memGetpageinfo type page = some (addr, pageSize)) ∧
      mpuCalcRegion (BitVec.ofNat 32 addr) size = true := by
  induction fuel generalizing i with
  | zero => cases h
  | succ fuel ih =>
    unfold findProtectableAddr at h
    cases hinfo : dev.memGetpageinfo type i with
    | none =>
      rw [hinfo] at h
      cases h
    | some info =>
      rw [hinfo] at h
      simp only at h
      split_ifs at h with hregion
      · obtain ⟨rfl, rfl⟩ := Prod.mk.inj (Option.some.inj h)
        exact ⟨⟨_, hinfo⟩, hregion⟩
      · exact ih h

theorem findProtectableFree_spec {place : Place} (h : s.findProtectableFree dev type size = some place) :
    (∃ pageSize, dev.memGetpageinfo type place.page = some (place.addr, pageSize)) ∧ 0 < size.toInt ∧
      s.checkForFreeSpace dev place.page type size = some place.free := by
  unfold findProtectableFree at h
  generalize dev.pageBound type = fuel, 0 = page at h
  induction fuel generalizing page with
  | zero => cases h
  | succ fuel ih =>
    unfold findProtectableFreeLoop at h
    cases haddr : findProtectableAddr dev type size (dev.pageBound type) page with
    | none =>
      rw [haddr] at h
      cases h
    | some found =>
      rw [haddr] at h
      simp only at h
      obtain ⟨hinfo, hregion⟩ := findProtectableAddr_spec haddr
      cases hcheck : s.checkForFreeSpace dev found.1 type size with
      | none =>
        rw [hcheck] at h
        exact ih _ h
      | some free =>
        rw [hcheck] at h
        obtain rfl := Option.some.inj h
        exact ⟨hinfo, pos_of_mpuCalcRegion hregion, hcheck⟩

/-- A place in RAM: a row of free pages that hold the size. -/
theorem findProtectableFree_ram {place : Place} (h : s.findProtectableFree dev .ram size = some place) :
    place.free = List.range' place.page (pagesNeeded size.toInt) ∧
      (∀ p ∈ place.free, s.usage.appfsRamGetusage p = some appfsMempagetypeFree) ∧
      dev.getRamPageAddr place.page = some place.addr ∧ size.toInt ≤ 2 ^ 30 := by
  obtain ⟨⟨pageSize, hinfo⟩, hpos, hcheck⟩ := findProtectableFree_spec h
  obtain ⟨hrow, hfree⟩ := checkForFreeSpaceLoop_ram (by omega) hcheck
  rw [Int.sub_zero] at hrow
  refine ⟨hrow, hfree, ?_, ?_⟩
  · obtain ⟨addr, haddr, heq⟩ := Option.map_eq_some_iff.mp hinfo
    rw [haddr, (Prod.mk.inj heq).1]
  · -- the last page has a place in the table
    have hneed : 0 < pagesNeeded size.toInt := by
      unfold pagesNeeded deviceRamPageSize
      omega
    have hlast : place.page + (pagesNeeded size.toInt - 1) ∈ place.free := by
      rw [hrow, List.mem_range'_1]
      omega
    have hbound := (appfsRamGetusage_eq_some (hfree _ hlast)).1
    unfold appfsRamPages deviceMaxRam deviceSysRam pagesNeeded deviceRamPageSize at hbound
    omega

/-- A place in flash starts with a free page. -/
theorem findProtectableFree_flash {place : Place} (h : s.findProtectableFree dev .flash size = some place) :
    appfsUtilGetflashpagetype (s.files .flash place.page).name = appfsMempagetypeFree := by
  obtain ⟨⟨pageSize, hinfo⟩, hpos, hcheck⟩ := findProtectableFree_spec h
  unfold checkForFreeSpace at hcheck
  obtain ⟨fuel, hfuel⟩ : ∃ fuel, size.toInt.toNat = fuel + 1 := ⟨size.toInt.toNat - 1, by omega⟩
  rw [hfuel] at hcheck
  unfold checkForFreeSpaceLoop at hcheck
  rw [if_pos hpos, hinfo] at hcheck
  simp only [Option.any_none, Bool.false_eq_true, ite_false] at hcheck
  split_ifs at hcheck with hfree
  exact Option.some.inj hfree

/-! ### Installing -/

section

variable {attr : InstallAttr} {io : Option Errno} {code data : Place} {p : Nat}

theorem pageUsage_markCode_of_mem (hp : p ∈ attr.codePages code) :
    (s.markCode attr code).usage.pageUsage p ≠ appfsMempagetypeFree := by
  unfold InstallAttr.codePages at hp
  unfold markCode
  cases htype : attr.type with
  | flash =>
    rw [htype] at hp
    cases hp
  | ram =>
    rw [htype] at hp
    simp only at hp ⊢
    rw [pageUsage_appfsRamSetrange, pageUsage_appfsRamSetrange, if_pos hp]
    split <;> decide

theorem pageUsage_markCode_of_not_mem (hpos : attr.type = .ram → 0 < setrangePages attr.codeSize)
    (hp : p ∉ attr.codePages code) : (s.markCode attr code).usage.pageUsage p = s.usage.pageUsage p := by
  unfold InstallAttr.codePages at hp
  unfold markCode
  cases htype : attr.type with
  | flash => rfl
  | ram =>
    rw [htype] at hp
    simp only at hp ⊢
    -- the page with the header is the first of the code
    have hone : setrangePages (BitVec.ofNat 32 deviceRamPageSize) = 1 := by decide
    have hpos := hpos htype
    rw [List.mem_range'_1] at hp
    rw [pageUsage_appfsRamSetrange, if_neg (by rw [hone, List.mem_range'_1]; omega), pageUsage_appfsRamSetrange,
      if_neg (by rw [List.mem_range'_1]; exact hp)]

theorem pageUsage_markData_of_mem (hp : p ∈ attr.dataPages data) :
    (s.markData attr data).usage.pageUsage p ≠ appfsMempagetypeFree := by
  unfold InstallAttr.dataPages at hp
  unfold markData
  rw [pageUsage_appfsRamSetrange, if_pos hp]
  decide

theorem pageUsage_markData_of_not_mem (hp : p ∉ attr.dataPages data) :
    (s.markData attr data).usage.pageUsage p = s.usage.pageUsage p := by
  unfold InstallAttr.dataPages at hp
  unfold markData
  rw [pageUsage_appfsRamSetrange, if_neg hp]

/-- An install that went through: two places were found, and both are whole pages. -/
structure Installed (dev : Device) (s : Store) (attr : InstallAttr) (code data : Place) : Prop where
  signature : attr.file.signature = 0x00000132
  code_found : s.findProtectableFree dev attr.type attr.codeSize = some code
  data_found : (s.markCode attr code).findProtectableFree dev .ram attr.file.ramSize = some data
  code_whole : attr.type = .ram → WholePages attr.codeSize
  data_whole : WholePages attr.file.ramSize

/-- The store after an install that went through. -/
def installedStore (s : Store) (attr : InstallAttr) (code data : Place) : Store :=
  ((s.markCode attr code).markData attr data).writeHeader attr.type code.page (attr.dest code data)

/-- A careful install leaves the store alone or goes through. -/
theorem install_cases (hc : CarefulInstall dev symbols s attr io) :
    (∃ e, s.install dev symbols attr io = (s, .error e)) ∨
      ∃ code data, Installed dev s attr code data ∧
        s.install dev symbols attr io = (installedStore s attr code data, .ok (code, data)) := by
  unfold install
  by_cases hbytes : attr.nbyte < sizeofAppfsFile
  · exact .inl ⟨_, if_pos hbytes⟩
  rw [if_neg hbytes]
  by_cases hsig : some attr.file.signature ≠ (symbolsTable symbols)[0]?
  · exact .inl ⟨_, if_pos hsig⟩
  rw [if_neg hsig]
  have hsig := not_not.mp hsig
  cases hcode : s.findProtectableFree dev attr.type attr.codeSize with
  | none => exact .inl ⟨_, rfl⟩
  | some code =>
    obtain ⟨hram, hdone⟩ := hc (Nat.not_lt.mp hbytes) hsig code hcode
    simp only
    cases hdata : (s.markCode attr code).findProtectableFree dev .ram attr.file.ramSize with
    | none =>
      left
      -- only an application in flash gets here, and for that nothing is marked
      cases htype : attr.type with
      | ram =>
        obtain ⟨data, hsome⟩ := (hram htype).2
        rw [hdata] at hsome
        cases hsome
      | flash =>
        have hsame : s.markCode attr code = s := by
          unfold markCode
          rw [htype]
        exact ⟨_, by rw [hsame]⟩
    | some data =>
      right
      obtain ⟨hwhole, hres, hlen, rfl⟩ := hdone data hdata
      refine ⟨code, data, ⟨Option.some.inj hsig, hcode, hdata, fun h => (hram h).1, hwhole⟩, ?_⟩
      simp only [hres, hlen, Bool.false_eq_true, ite_false]
      rfl

namespace Installed

theorem code_row (h : Installed dev s attr code data) (htype : attr.type = .ram) :
    code.free = List.range' code.page (setrangePages attr.codeSize) ∧ 0 < setrangePages attr.codeSize ∧
      setrangePages (mpuGetnextpowerof2 attr.codeSize) = setrangePages attr.codeSize := by
  have hcode := h.code_found
  rw [htype] at hcode
  obtain ⟨hrow, _, _, hle⟩ := findProtectableFree_ram hcode
  obtain ⟨hpos, hle', heq⟩ := setrangePages_of_wholePages (h.code_whole htype) hle
  refine ⟨by rw [hrow, heq], ?_, setrangePages_mpuGetnextpowerof2 hle'⟩
  have hint := (findProtectableFree_spec hcode).2.1
  rw [heq]
  unfold pagesNeeded deviceRamPageSize
  omega

theorem data_row (h : Installed dev s attr code data) : data.free = attr.dataPages data := by
  obtain ⟨hrow, _, _, hle⟩ := findProtectableFree_ram h.data_found
  rw [hrow, InstallAttr.dataPages, (setrangePages_of_wholePages h.data_whole hle).2.2]

/-- What is marked is what was found. -/
theorem marked_eq_found (h : Installed dev s attr code data) :
    attr.codePages code ++ attr.dataPages data = attr.found code data := by
  unfold InstallAttr.found InstallAttr.codePages
  cases htype : attr.type with
  | flash => simp [h.data_row]
  | ram => simp [(h.code_row htype).1, h.data_row]

theorem codePages_pos (h : Installed dev s attr code data) (htype : attr.type = .ram) :
    0 < setrangePages attr.codeSize := (h.code_row htype).2.1

/-- What was found was free. -/
theorem found_free (h : Installed dev s attr code data) (hp : p ∈ attr.codePages code ++ attr.dataPages data) :
    s.usage.appfsRamGetusage p = some appfsMempagetypeFree := by
  rcases List.mem_append.mp hp with hcode | hdata
  · cases htype : attr.type with
    | flash =>
      rw [InstallAttr.codePages, htype] at hcode
      cases hcode
    | ram =>
      have hfind := h.code_found
      rw [htype] at hfind
      apply (findProtectableFree_ram hfind).2.1
      rw [(h.code_row htype).1]
      rwa [InstallAttr.codePages, htype] at hcode
  · rw [← h.data_row] at hdata
    obtain ⟨hbound, hfree⟩ := appfsRamGetusage_eq_some ((findProtectableFree_ram h.data_found).2.1 p hdata)
    -- it is free with the code marked, so the code has other pages
    have hnot : p ∉ attr.codePages code := fun hcode => pageUsage_markCode_of_mem hcode hfree
    rw [pageUsage_markCode_of_not_mem h.codePages_pos hnot] at hfree
    rw [appfsRamGetusage, if_pos hbound, hfree]

theorem pageUsage_of_mem (_ : Installed dev s attr code data) (hp : p ∈ attr.codePages code ++ attr.dataPages data) :
    (installedStore s attr code data).usage.pageUsage p ≠ appfsMempagetypeFree := by
  show ((s.markCode attr code).markData attr data).usage.pageUsage p ≠ _
  by_cases hdata : p ∈ attr.dataPages data
  · exact pageUsage_markData_of_mem hdata
  · rw [pageUsage_markData_of_not_mem hdata]
    exact pageUsage_markCode_of_mem ((List.mem_append.mp hp).resolve_right hdata)

theorem pageUsage_of_not_mem (h : Installed dev s attr code data) (hp : p ∉ attr.codePages code ++ attr.dataPages data) :
    (installedStore s attr code data).usage.pageUsage p = s.usage.pageUsage p := by
  show ((s.markCode attr code).markData attr data).usage.pageUsage p = _
  rw [List.mem_append, not_or] at hp
  rw [pageUsage_markData_of_not_mem hp.2, pageUsage_markCode_of_not_mem h.codePages_pos hp.1]

theorem event_ok (h : Installed dev s attr code data) :
    (Event.installed s.usage (installedStore s attr code data).usage (attr.found code data)
      (attr.codePages code ++ attr.dataPages data)).Ok := by
  refine ⟨fun p => by rw [h.marked_eq_found], fun p hp => ?_, fun p hp => h.pageUsage_of_mem hp,
    fun p hp => h.pageUsage_of_not_mem hp⟩
  rw [← h.marked_eq_found] at hp
  exact h.found_free hp

end Installed

end

/-! ### The invariant -/

/-- The pages that unlinking a file frees, given the page of its data. -/
def freedPages (file : AppfsFile) (type : MemType) (page dataPage : Nat) : List Nat :=
  (match type with
  | .flash => []
  | .ram => List.range' page (setrangePages (mpuGetnextpowerof2 (file.codeSize + file.dataSize)))) ++
    List.range' dataPage (setrangePages file.ramSize)

theorem freedPages_flash (file : AppfsFile) (page dataPage : Nat) :
    freedPages file .flash page dataPage = List.range' dataPage (setrangePages file.ramSize) := rfl

theorem freedPages_ram (file : AppfsFile) (page dataPage : Nat) :
    freedPages file .ram page dataPage =
      List.range' page (setrangePages (mpuGetnextpowerof2 (file.codeSize + file.dataSize))) ++
        List.range' dataPage (setrangePages file.ramSize) := rfl

/-- The header of an application says what its install marked. -/
structure App.Ok (a : App) (file : AppfsFile) (dev : Device) : Prop where
  signature : file.signature ≠ appfsCreateSignature
  pages : ∃ dataPage, dev.memQuery file.ramStart.toNat = some dataPage ∧
    a.pages = freedPages file a.type a.page dataPage
  first : a.type = .ram → a.page ∈ a.pages
  named : a.type = .flash → appfsUtilGetflashpagetype file.name ≠ appfsMempagetypeFree

structure System.Inv (x : System) (dev : Device) : Prop where
  ok : ∀ a ∈ x.apps, a.Ok (x.store.files a.type a.page) dev
  marked : ∀ a ∈ x.apps, ∀ p ∈ a.pages, x.store.usage.pageUsage p ≠ appfsMempagetypeFree
  apart : x.OwnedOnce

namespace System.Inv

variable {x : System} {attr : InstallAttr} {code data : Place}

theorem init (h : x.Init) : x.Inv dev where
  ok a ha := by
    rw [h.2] at ha
    cases ha
  marked a ha := by
    rw [h.2] at ha
    cases ha
  apart := by
    rw [OwnedOnce, h.2]
    exact List.Pairwise.nil

/-- A new application starts on a page of its own. -/
theorem not_at (hx : x.Inv dev) (h : Installed dev x.store attr code data) {a : App} (ha : a ∈ x.apps) :
    ¬a.At attr.type code.page := by
  rintro ⟨htype, hpage⟩
  cases hattr : attr.type with
  | flash =>
    have hfind := h.code_found
    rw [hattr] at hfind
    have hnamed := (hx.ok a ha).named (htype.trans hattr)
    rw [htype, hattr, hpage] at hnamed
    exact hnamed (findProtectableFree_flash hfind)
  | ram =>
    have hfirst := (hx.ok a ha).first (htype.trans hattr)
    have hmem : a.page ∈ attr.codePages code ++ attr.dataPages data := by
      apply List.mem_append_left
      rw [InstallAttr.codePages, hattr, hpage]
      have := h.codePages_pos hattr
      rw [List.mem_range'_1]
      omega
    exact hx.marked a ha a.page hfirst (appfsRamGetusage_eq_some (h.found_free hmem)).2

theorem writeHeader_other {s : Store} {type : MemType} {page : Nat} {file : AppfsFile} {a : App} (ha : ¬a.At type page) :
    (s.writeHeader type page file).files a.type a.page = s.files a.type a.page := by
  show Function.update s.files type (Function.update (s.files type) page file) a.type a.page = _
  by_cases htype : a.type = type
  · rw [htype, Function.update_self, Function.update_of_ne fun hpage => ha ⟨htype, hpage⟩]
  · rw [Function.update_of_ne htype]

/-- The new application. -/
theorem installed_ok (h : Installed dev x.store attr code data) :
    App.Ok ⟨attr.type, code.page, attr.codePages code ++ attr.dataPages data⟩ (attr.dest code data) dev where
  signature := by
    show attr.file.signature ≠ _
    rw [h.signature]
    decide
  pages := by
    obtain ⟨_, _, haddr, _⟩ := findProtectableFree_ram h.data_found
    obtain ⟨hquery, hlt⟩ := dev.memQuery_of_getRamPageAddr haddr
    refine ⟨data.page, ?_, ?_⟩
    · show dev.memQuery (BitVec.ofNat 32 data.addr).toNat = _
      rw [BitVec.toNat_ofNat, Nat.mod_eq_of_lt hlt]
      exact hquery
    · show attr.codePages code ++ attr.dataPages data = freedPages (attr.dest code data) attr.type code.page data.page
      unfold freedPages InstallAttr.codePages
      cases htype : attr.type with
      | flash => rfl
      | ram =>
        simp only
        rw [← (h.code_row htype).2.2]
        rfl
  first htype := by
    apply List.mem_append_left
    have hattr : attr.type = .ram := htype
    have := h.codePages_pos hattr
    show code.page ∈ attr.codePages code
    rw [InstallAttr.codePages, hattr, List.mem_range'_1]
    omega
  named _ := finishName_ne_free _

theorem installed (hx : x.Inv dev) (h : Installed dev x.store attr code data) :
    System.Inv ⟨installedStore x.store attr code data,
      ⟨attr.type, code.page, attr.codePages code ++ attr.dataPages data⟩ :: x.apps⟩ dev where
  ok a ha := by
    rcases List.mem_cons.mp ha with rfl | ha
    · have hself : (installedStore x.store attr code data).files attr.type code.page = attr.dest code data := by
        unfold installedStore writeHeader
        simp only
        rw [Function.update_self, Function.update_self]
      simp only
      rw [hself]
      exact installed_ok h
    · have hother : (installedStore x.store attr code data).files a.type a.page =
          ((x.store.markCode attr code).markData attr data).files a.type a.page := writeHeader_other (hx.not_at h ha)
      have hmark : (x.store.markCode attr code).files = x.store.files := by
        unfold markCode
        cases attr.type <;> rfl
      show a.Ok ((installedStore x.store attr code data).files a.type a.page) dev
      rw [hother]
      show a.Ok ((x.store.markCode attr code).files a.type a.page) dev
      rw [hmark]
      exact hx.ok a ha
  marked a ha p hp := by
    rcases List.mem_cons.mp ha with rfl | ha
    · exact h.pageUsage_of_mem hp
    · by_cases hnew : p ∈ attr.codePages code ++ attr.dataPages data
      · exact h.pageUsage_of_mem hnew
      · show (installedStore x.store attr code data).usage.pageUsage p ≠ _
        rw [h.pageUsage_of_not_mem hnew]
        exact hx.marked a ha p hp
  apart := by
    refine List.pairwise_cons.mpr ⟨fun a ha p hp hpa => ?_, hx.apart⟩
    exact hx.marked a ha p hpa (appfsRamGetusage_eq_some (h.found_free hp)).2

end System.Inv

/-! ### Unlinking -/

section

variable {x : System} {type : MemType} {name : List UInt8} {erased : Nat → Option AppfsFile} {page : Nat}

theorem unlinkData_of_app {a : App} {file : AppfsFile} (ha : a.Ok file dev) (s : Store) :
    ∃ dataPage, a.pages = freedPages file a.type a.page dataPage ∧
      s.unlinkData dev file = (s.appfsRamSetusage dataPage file.ramSize, .ok ()) := by
  obtain ⟨dataPage, hquery, hpages⟩ := ha.pages
  refine ⟨dataPage, hpages, ?_⟩
  unfold unlinkData
  rw [if_pos ha.signature, hquery]

theorem unlinkData_of_dataFile {file : AppfsFile} (hsig : file.signature = appfsCreateSignature) (s : Store) :
    s.unlinkData dev file = (s, .ok ()) := by
  unfold unlinkData
  rw [if_neg (not_not.mpr hsig)]

/-- What a careful unlink of the file at `page` does to the store. -/
structure Unlinked (x : System) (type : MemType) (page : Nat) (s' : Store) : Prop where
  files : ∀ b ∈ x.apps, ¬b.At type page → s'.files b.type b.page = x.store.files b.type b.page
  freed : ∀ a ∈ x.apps, a.At type page → ∀ p, s'.usage.pageUsage p =
    if p ∈ a.pages then appfsMempagetypeFree else x.store.usage.pageUsage p
  kept : (∀ a ∈ x.apps, ¬a.At type page) → s'.usage = x.store.usage

/-- The pages of flash are erased, then the data of an application is freed. -/
theorem unlink_flash (hx : x.Inv dev) (endPage : Nat)
    (hfile : (∃ a ∈ x.apps, a.At .flash page) ∨ (x.store.files .flash page).signature = appfsCreateSignature)
    (herased : ∀ a ∈ x.apps, a.type = .flash → a.page ≠ page → erased a.page = none) :
    ∃ s', (x.store.appfsUtilErasepages page endPage erased).unlinkData dev (x.store.files .flash page) = (s', .ok ()) ∧
      Unlinked x .flash page s' := by
  have hfiles : ∀ b ∈ x.apps, ¬b.At .flash page →
      (x.store.appfsUtilErasepages page endPage erased).files b.type b.page = x.store.files b.type b.page := by
    intro b hb hnot
    unfold appfsUtilErasepages
    simp only
    by_cases htype : b.type = .flash
    · rw [htype, Function.update_self, herased b hb htype fun hpage => hnot ⟨htype, hpage⟩, Option.getD_none, ite_self]
    · rw [Function.update_of_ne htype]
  by_cases happ : ∃ a ∈ x.apps, a.At .flash page
  · obtain ⟨a, ha, htype, rfl⟩ := happ
    have hok := hx.ok a ha
    rw [htype] at hok
    obtain ⟨dataPage, _, hdata⟩ := unlinkData_of_app hok (x.store.appfsUtilErasepages a.page endPage erased)
    refine ⟨_, hdata, hfiles, fun b hb hat p => ?_, fun hnone => absurd ⟨htype, rfl⟩ (hnone a ha)⟩
    have hokb := hx.ok b hb
    rw [hat.1, hat.2] at hokb
    obtain ⟨dataPage', hpages, hdata'⟩ := unlinkData_of_app hokb (x.store.appfsUtilErasepages a.page endPage erased)
    rw [hdata] at hdata'
    have hstore := (Prod.mk.inj hdata').1
    rw [hstore]
    show ((x.store.appfsUtilErasepages a.page endPage erased).usage.appfsRamSetrange dataPage' _ _).pageUsage p = _
    rw [pageUsage_appfsRamSetrange, hpages, hat.1, freedPages_flash]
    rfl
  · have hsig := hfile.resolve_left happ
    refine ⟨_, unlinkData_of_dataFile hsig _, hfiles, fun a ha hat => absurd ⟨a, ha, hat⟩ happ, fun _ => rfl⟩

/-- The code and then the data of an application in RAM are freed. -/
theorem unlink_ram (hx : x.Inv dev) (happ : ∃ a ∈ x.apps, a.At .ram page) :
    ∃ s', (x.store.appfsRamSetusage page (mpuGetnextpowerof2
      ((x.store.files .ram page).codeSize + (x.store.files .ram page).dataSize))).unlinkData dev
        (x.store.files .ram page) = (s', .ok ()) ∧ Unlinked x .ram page s' := by
  obtain ⟨a, ha, htype, rfl⟩ := happ
  have hok := hx.ok a ha
  rw [htype] at hok
  obtain ⟨dataPage, _, hdata⟩ := unlinkData_of_app hok (x.store.appfsRamSetusage a.page (mpuGetnextpowerof2
    ((x.store.files .ram a.page).codeSize + (x.store.files .ram a.page).dataSize)))
  refine ⟨_, hdata, fun _ _ _ => rfl, fun b hb hat p => ?_, fun hnone => absurd ⟨htype, rfl⟩ (hnone a ha)⟩
  have hokb := hx.ok b hb
  rw [hat.1, hat.2] at hokb
  obtain ⟨dataPage', hpages, hdata'⟩ := unlinkData_of_app hokb (x.store.appfsRamSetusage a.page (mpuGetnextpowerof2
    ((x.store.files .ram a.page).codeSize + (x.store.files .ram a.page).dataSize)))
  rw [hdata] at hdata'
  have hstore := (Prod.mk.inj hdata').1
  rw [hstore]
  unfold appfsRamSetusage
  rw [pageUsage_appfsRamSetrange, pageUsage_appfsRamSetrange, hpages, hat.1, hat.2, freedPages_ram]
  simp only [List.mem_append]
  by_cases hd : p ∈ List.range' dataPage' (setrangePages (x.store.files .ram a.page).ramSize)
  · rw [if_pos hd, if_pos (.inr hd)]
    rfl
  · rw [if_neg hd]
    by_cases hcode : p ∈ List.range' a.page (setrangePages (mpuGetnextpowerof2
        ((x.store.files .ram a.page).codeSize + (x.store.files .ram a.page).dataSize)))
    · rw [if_pos hcode, if_pos (.inl hcode)]
      rfl
    · rw [if_neg hcode, if_neg (not_or.mpr ⟨hcode, hd⟩)]

/-- A careful unlink leaves the store alone or frees what it found. -/
theorem unlink_cases (hx : x.Inv dev) (hc : CarefulUnlink dev x type name erased) :
    (∃ e, x.store.unlink dev type name erased = (x.store, .error e)) ∨
      ∃ page s', x.store.appfsUtilLookupname dev name type (dev.pageBound type) 0 = some page ∧
        x.store.unlink dev type name erased = (s', .ok ()) ∧ Unlinked x type page s' := by
  unfold unlink
  cases hname : isSys name || isFree name with
  | true => exact .inl ⟨_, rfl⟩
  | false =>
    simp only [Bool.false_eq_true, ite_false]
    cases hlookup : x.store.appfsUtilLookupname dev name type (dev.pageBound type) 0 with
    | none => exact .inl ⟨_, rfl⟩
    | some page =>
      obtain ⟨hfile, herased⟩ := hc hname page hlookup
      cases type with
      | flash =>
        simp only
        cases hend : endPageLoop dev ((x.store.files .flash page).codeSize + (x.store.files .flash page).dataSize).toNat
            (dev.pageBound .flash + 1) (Device.getFlashPageSize page) page with
        | none => exact .inl ⟨_, rfl⟩
        | some endPage =>
          obtain ⟨s', hs', hspec⟩ := unlink_flash hx endPage (hfile.imp_right And.right) herased
          exact .inr ⟨page, s', rfl, hs', hspec⟩
      | ram =>
        obtain ⟨s', hs', hspec⟩ := unlink_ram hx (hfile.resolve_right fun h => nomatch h.1)
        exact .inr ⟨page, s', rfl, hs', hspec⟩

theorem System.Inv.unlinked {s' : Store} (hx : x.Inv dev) (h : Unlinked x type page s') :
    System.Inv ⟨s', x.apps.filter fun a => ¬a.At type page⟩ dev where
  ok a ha := by
    obtain ⟨ha, hnot⟩ := List.mem_filter.mp ha
    show a.Ok (s'.files a.type a.page) dev
    rw [h.files a ha (by simpa using hnot)]
    exact hx.ok a ha
  marked a ha p hp := by
    obtain ⟨ha, hnot⟩ := List.mem_filter.mp ha
    have hnot : ¬a.At type page := by simpa using hnot
    have hmarked := hx.marked a ha p hp
    show s'.usage.pageUsage p ≠ _
    by_cases happ : ∃ b ∈ x.apps, b.At type page
    · obtain ⟨b, hb, hat⟩ := happ
      have hne : a ≠ b := by
        rintro rfl
        exact hnot hat
      have hsymm : Std.Symm fun a b : App => a.pages.Disjoint b.pages := ⟨fun _ _ hab _ hp hq => hab hq hp⟩
      have hdisjoint : a.pages.Disjoint b.pages := hx.apart.forall ha hb hne
      rw [h.freed b hb hat p, if_neg fun hpb => hdisjoint hp hpb]
      exact hmarked
    · rw [h.kept fun b hb hat => happ ⟨b, hb, hat⟩]
      exact hmarked
  apart := hx.apart.filter _

end

/-! ### Runs -/

/-- A careful step keeps the invariant, and what it does to the table is in order. -/
theorem System.Inv.step {x x' : System} {a : Action} {e : Option Event} (hx : x.Inv dev)
    (hc : Careful dev symbols x a) (hs : x.step dev symbols a = some (x', e)) : x'.Inv dev ∧ ∀ e' ∈ e, e'.Ok := by
  cases a with
  | install attr io =>
    rcases install_cases hc with ⟨err, hrun⟩ | ⟨code, data, hin, hrun⟩
    · simp only [System.step, hrun] at hs
      obtain ⟨rfl, rfl⟩ := Prod.mk.inj (Option.some.inj hs)
      exact ⟨hx, fun e' he' => by obtain rfl := Option.some.inj he'; rfl⟩
    · simp only [System.step, hrun] at hs
      obtain ⟨rfl, rfl⟩ := Prod.mk.inj (Option.some.inj hs)
      exact ⟨hx.installed hin, fun e' he' => by obtain rfl := Option.some.inj he'; exact hin.event_ok⟩
  | unlink type name erased =>
    rcases unlink_cases hx hc with ⟨err, hrun⟩ | ⟨page, s', hlookup, hrun, hun⟩
    · simp only [System.step, hrun] at hs
      obtain ⟨rfl, rfl⟩ := Prod.mk.inj (Option.some.inj hs)
      exact ⟨hx, fun e' he' => nomatch he'⟩
    · simp only [System.step, hrun, hlookup] at hs
      obtain ⟨rfl, rfl⟩ := Prod.mk.inj (Option.some.inj hs)
      refine ⟨hx.unlinked hun, fun e' he' => ?_⟩
      obtain ⟨app, hfind, rfl⟩ := Option.map_eq_some_iff.mp he'
      have hat := List.find?_some hfind
      exact hun.freed app (List.mem_of_find?_eq_some hfind) (by simpa using hat)
  | write files =>
    obtain ⟨rfl, rfl⟩ := Prod.mk.inj (Option.some.inj hs)
    refine ⟨⟨fun a ha => ?_, hx.marked, hx.apart⟩, fun e' he' => nomatch he'⟩
    show a.Ok (files a.type a.page) dev
    rw [hc a ha]
    exact hx.ok a ha

/-- In a run of careful steps every page has at most one owner, and all installs and unlinks are in order. -/
theorem ramPagesOwned_of_careful (dev : Device) (symbols : List (BitVec 32)) :
    RamPagesOwned dev symbols (Careful dev symbols) := by
  intro x₀ x es h0 hrun
  have hinv := hrun.invariant (fun es x => x.Inv dev ∧ ∀ e ∈ es, e.Ok) ⟨.init h0, fun e he => nomatch he⟩ ?_
  · exact ⟨hinv.1.apart, hinv.2⟩
  · intro es x a x' e hi hok hs
    obtain ⟨hx', he⟩ := hi.1.step hok hs
    refine ⟨hx', fun e' he' => ?_⟩
    rcases List.mem_append.mp he' with hold | hnew
    · exact hi.2 e' hold
    · exact he e' (Option.mem_toList.mp hnew)

/-! ### Two runs -/

def smallDevice : Device where
  flashSize := 0x8000
  sramSize := 0x2000
  ahbSramSize := 0
  sram_le := by decide
  ahb_lt := by decide

def erasedFile : AppfsFile where
  name := Vector.replicate nameMax 0xFF
  codeStart := 0xFFFFFFFF
  codeSize := 0xFFFFFFFF
  ramStart := 0xFFFFFFFF
  ramSize := 0xFFFFFFFF
  dataSize := 0xFFFFFFFF
  options := 0xFFFFFFFF
  signature := 0xFFFFFFFF

def emptySystem : System where
  store := { usage := fun _ => 0, files := fun _ _ => erasedFile }
  apps := []

theorem emptySystem_init : emptySystem.Init := by
  refine ⟨fun p => ?_, rfl⟩
  show (0#32 >>> (p % 16 * 2)) &&& appfsMempagetypeMask = 0#32
  rw [BitVec.zero_ushiftRight, BitVec.zero_and]

/-- An image of 100 bytes of code, in one part, with a name of one letter. -/
def image (letter : UInt8) (options ramSize : BitVec 32) : InstallAttr where
  nbyte := 100
  file :=
    { name := (Vector.replicate nameMax 0).set 0 letter
      codeStart := 0
      codeSize := 100
      ramStart := 0
      ramSize := ramSize
      dataSize := 0
      options := options
      signature := 0x00000132 }
  words := []

/-- An application in RAM. -/
def ramImage : InstallAttr := image 0x61 0 1000

theorem careful_ramImage : CarefulInstall smallDevice [] emptySystem.store ramImage none := by
  intro _ _ code hcode
  have hfind : emptySystem.store.findProtectableFree smallDevice ramImage.type ramImage.codeSize =
      some ⟨0, 0x10000000, [0]⟩ := by decide
  rw [hfind] at hcode
  obtain rfl := Option.some.inj hcode
  have hdata : (emptySystem.store.markCode ramImage ⟨0, 0x10000000, [0]⟩).findProtectableFree smallDevice .ram
      ramImage.file.ramSize = some ⟨1, 0x10000400, [1]⟩ := by decide
  refine ⟨fun _ => ⟨⟨0, by decide, by decide⟩, _, hdata⟩, fun data _ => ⟨⟨0, by decide, by decide⟩, rfl, ?_, rfl⟩⟩
  decide

/-- Two pages are marked for the application in RAM. -/
theorem ramPagesOwned_ramImage : ∃ x e, System.step smallDevice [] emptySystem (.install ramImage none) = some (x, e) ∧
    x.apps = [⟨.ram, 0, [0, 1]⟩] ∧ x.OwnedOnce ∧ ∀ e' ∈ e.toList, e'.Ok := by
  have happs : (System.step smallDevice [] emptySystem (.install ramImage none)).map (fun r => r.1.apps) =
      some [⟨.ram, 0, [0, 1]⟩] := by decide
  obtain ⟨⟨x, e⟩, hs, hx⟩ := Option.map_eq_some_iff.mp happs
  have hcareful : Careful smallDevice [] emptySystem (.install ramImage none) := careful_ramImage
  have hrun : Run (System.step smallDevice []) (Careful smallDevice []) emptySystem ([] ++ e.toList) x :=
    Run.snoc Run.nil hcareful hs
  have hok := ramPagesOwned_of_careful smallDevice [] emptySystem x _ emptySystem_init hrun
  exact ⟨x, e, hs, hx, hok.1, hok.2⟩

/-- Three applications in flash take the first four pages of RAM, the first two are unlinked and a fourth wants three
kilobytes. -/
def threeAndAFourth : List Action :=
  [.install (image 0x61 1 2048) none, .install (image 0x62 1 1024) none, .install (image 0x63 1 1024) none,
    .unlink .flash [0x61] (fun _ => some erasedFile), .unlink .flash [0x62] (fun _ => some erasedFile),
    .install (image 0x64 1 3072) none]

/-- The fourth application is given the page of the third. -/
theorem not_ramPagesOwned : ¬RamPagesOwned smallDevice [] fun _ _ => True := by
  intro h
  have happs : (Run.replay (System.step smallDevice []) emptySystem threeAndAFourth).map (fun r => r.1.apps) =
      some [⟨.flash, 0, [0, 1, 2, 3]⟩, ⟨.flash, 2, [3]⟩] := by decide
  obtain ⟨⟨x, es⟩, hs, hx⟩ := Option.map_eq_some_iff.mp happs
  have howned := (h emptySystem x es emptySystem_init (Run.of_replay hs (Run.allOk_true _ _))).1
  have hx : x.apps = [⟨.flash, 0, [0, 1, 2, 3]⟩, ⟨.flash, 2, [3]⟩] := hx
  rw [System.OwnedOnce, hx] at howned
  have hdisjoint := (List.pairwise_cons.mp howned).1 _ (List.mem_singleton_self _)
  exact hdisjoint (a := 3) (by decide) (by decide)

end Appfs

end CoActionOS
