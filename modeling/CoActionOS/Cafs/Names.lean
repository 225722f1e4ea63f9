import CoActionOS.Cafs.Closing

/-!
# Names of files

`Namespace` is the file system with the account that its callers could keep: which handles were opened with `O_CREAT`,
and which paths such a handle has made visible without an `unlink` since.  The calls are those that deal with names, and
they come in any order, with any number of handles.

`soundNames_of_careful` says that names stay unique and are found again as long as no call stores another name than the
path it was given, makes a second file of a name that is in flight, or comes upon one of the failures of reclamation and
of the search for a block.
-/

namespace CoActionOS.Cafs

open Cmd

/-! ### What a caller sees -/

/-- `cl_dir_exists`: whether the path exists, or only its parent. -/
def clDirExists (g : Geometry) (path : List UInt8) : Cmd St Bool := do
  return (← clDirLookup g path).isSome

/-- The entries of the list of serial numbers. -/
def snEntries (g : Geometry) : Cmd St (List SnItem) := do
  let l ← clSnlistInit g
  let r : Sum Empty (Next × ClList × List SnItem) ←
    whileItem g (fun l L => pure (.next (l, L ++ [SnItem.ofBytes l.item]))) loopFuel l []
  match r with
  | .inr (_, _, L) => return L

/-- The name in a header, up to the zero behind it. -/
def storedName (block : Bytes) : List UInt8 := (HdrOpen.ofBytes (blockData block)).name.takeWhile (· ≠ 0)

structure Namespace where
  fs : Fs
  /-- the path that a handle was opened with, if `O_CREAT` was among the flags -/
  created : Nat → Option Path
  /-- the paths that exist, as far as callers have been told -/
  promised : List Path

inductive NameCall
  | open (path : Path) (flags : OpenFlags)
  | close (fd : Nat)
  | unlink (path : Path)

namespace Namespace

open Function

/-- The account of an open. -/
def opened (n : Namespace) (path : Path) (flags : OpenFlags) (fs : Fs) : Option FsRet → Namespace
  | some (.opened fd) => { n with fs := fs, created := update n.created fd (if flags.creat then some path else none) }
  | _ => { n with fs := fs }

def closed (n : Namespace) (fd : Nat) (fs : Fs) : Option FsRet → Namespace
  | some .done => ⟨fs, update n.created fd none, (n.created fd).toList ++ n.promised⟩
  | _ => { n with fs := fs, created := update n.created fd none }

def unlinked (n : Namespace) (path : Path) (fs : Fs) : Option FsRet → Namespace
  | some .done => { n with fs := fs, promised := n.promised.filter fun p => p.chars ≠ path.chars }
  | _ => { n with fs := fs }

def step (g : Geometry) (n : Namespace) : NameCall → Option (Namespace × Option FsRet)
  | .open path flags => (n.fs.step g (.open path flags)).map fun (fs, r) => (n.opened path flags fs r, r)
  | .close fd => (n.fs.step g (.close fd)).map fun (fs, r) => (n.closed fd fs r, r)
  | .unlink path => (n.fs.step g (.unlink path)).map fun (fs, r) => (n.unlinked path fs r, r)

/-! ### Names that are unique and found again -/

structure Sound (g : Geometry) (n : Namespace) : Prop where
  /-- no two closed entries have headers with the same name -/
  unique : ∃ L, snEntries g n.fs.st = .ok L n.fs.st ∧ ∀ (i j : Nat) (a b : SnItem), L[i]? = some a → L[j]? = some b →
    a.status = SnStatus.closed → b.status = SnStatus.closed → a.serialno ≠ clSerialnoList →
    b.serialno ≠ clSerialnoList →
    storedName (blk n.fs.st.flash a.block) = storedName (blk n.fs.st.flash b.block) → i = j
  exist : ∀ p ∈ n.promised, clDirExists g p.chars n.fs.st = .ok true n.fs.st

/-! ### Calls that keep to the names -/

/-- A file with this name can be looked up. -/
def visible (g : Geometry) (s : St) (path : Path) : Bool :=
  match snEntries g s with
  | .ok L _ => L.any fun i => i.status = SnStatus.closed && i.serialno ≠ clSerialnoList &&
      strncmpEq nameMax path.chars (blockData (blk s.flash i.block))
  | _ => false

/-- A handle will make a file with this name visible. -/
def inFlight (s : Fs) (path : Path) : Bool :=
  (List.range s.next).any fun fd =>
    match s.handle fd with
    | some h => h.amode.w && strncmpEq nameMax path.chars (blockData (blk s.st.flash h.hdrBlock))
    | none => false

/-- An open for writing has the blocks it needs.  One that makes a file stores the path itself, gets a serial number and
a header block, and the name is not in flight. -/
def Careful (g : Geometry) (n : Namespace) : NameCall → Prop
  | .open path flags =>
    Addressed path.chars ∧ (flags.creat = true → '/'.toUInt8 ∉ path.chars) ∧
      ((sysfsGetamode flags).w = true → Spare g 2 (blk n.fs.st.flash)) ∧
      (flags.creat = true → visible g n.fs.st path = false →
        n.fs.st.serialno + 1 < serialnoInvalid ∧
        AllocFits g (blk n.fs.st.flash) (n.fs.st.serialno + 1) blockInvalid ∧ inFlight n.fs path = false)
  | .close _ => True
  | .unlink path => Addressed path.chars

/-- A device that has just been formatted by a system without a handle. -/
def Formatted (g : Geometry) (n : Namespace) : Prop :=
  ∃ f, Fs.step g ⟨mounted f, fun _ => none, 0⟩ .mkfs = some (n.fs, some .done) ∧ n.created = (fun _ => none) ∧
    n.promised = []

end Namespace

variable {g : Geometry}

/-! ### Outcomes -/

theorem update_eq_some {α : Type} {f : Nat → Option α} {i j : Nat} {x : Option α} {a : α}
    (h : Function.update f i x j = some a) : j = i ∧ x = some a ∨ j ≠ i ∧ f j = some a := by
  by_cases hji : j = i
  · subst hji
    exact .inl ⟨rfl, (Function.update_self j x f).symm.trans h⟩
  · exact .inr ⟨hji, (Function.update_of_ne hji x f).symm.trans h⟩

theorem exists_of_wp {α : Type} {c : Cmd St α} {Q : α → St → Prop} {s : St} (h : wp c Q (fun _ => False) s) :
    ∃ a s', c s = .ok a s' ∧ Q a s' := by
  unfold Cmd.wp at h
  split at h
  · next a s' hc => exact ⟨a, s', hc, h⟩
  · exact h.elim
  · exact h.elim

section

variable {s : St} {sb : List Nat} {E : List Entry}

theorem Catalogue.snEntries_eq (h : Catalogue g s sb E) : snEntries g s = .ok (zeroEntry :: E.map Entry.item) s := by
  have hwp : wp (snEntries g) (fun L s' => s' = s ∧ L = zeroEntry :: E.map Entry.item) (fun _ => False) s := by
    rw [snEntries, wp_bind]
    apply wp_clSnlistInit h.tidy.up h.entries h.head
    intro l hc
    rw [wp_bind]
    apply wp_whileItem_read (fun k L => L = (zeroEntry :: E.map Entry.item).take k) h.tidy.up h.entries.list
    · rintro k l' _ hk rfl hgot
      rw [wp_pure]
      refine ⟨rfl, rfl, ?_⟩
      show _ ++ [SnItem.ofBytes l'.item] = _
      rw [hgot.entry h.entries.items hk, List.take_succ_eq_append_getElem hk]
    · rintro l' _ rfl _
      show wp (pure _) _ _ s
      rw [wp_pure]
      exact ⟨rfl, List.take_length⟩
    · exact Nat.zero_le _
    · exact hc
    · rfl
  obtain ⟨L, s', hok, rfl, rfl⟩ := exists_of_wp hwp
  exact hok

theorem storedName_eq {d : Bytes} {name : List UInt8} (h : Stored d name) (hname : PlainName name) :
    storedName d = name := by
  have hle : name.length ≤ 24 := hname.length_le
  have hsplit : slice (blockData d) 0 HdrOpen.nameSize =
      name ++ List.replicate (HdrOpen.nameSize - name.length) 0 := by
    apply List.ext_getElem
    · rw [length_slice, List.length_append, List.length_replicate]
      show 26 = name.length + (26 - name.length)
      omega
    · intro i hi hi'
      rw [getElem_slice, Nat.zero_add, h i (by rwa [length_slice] at hi)]
      by_cases hlt : i < name.length
      · rw [List.getElem_append_left hlt, List.getD_eq_getElem _ _ hlt]
      · rw [List.getElem_append_right (Nat.not_lt.mp hlt), List.getElem_replicate,
          List.getD_eq_default _ _ (Nat.not_lt.mp hlt)]
  have hpos : HdrOpen.nameSize - name.length = (25 - name.length) + 1 := by
    show 26 - name.length = _
    omega
  show (slice (blockData d) 0 HdrOpen.nameSize).takeWhile _ = name
  rw [hsplit, List.takeWhile_append_of_pos, hpos, List.replicate_succ, List.takeWhile_cons_of_neg (by simp),
    List.append_nil]
  intro x hx
  simpa using fun he : x = 0 => hname.noNul (he ▸ hx)

/-! ### Formatting -/

theorem wp_cafsLiteMkfs {f : Flash} :
    wp (cafsLiteMkfs g) (fun _ s => ∃ sb, Catalogue g s sb []) (fun _ => True) (mounted f) := by
  have hpos := g.scratch_fits
  have htotal : g.eraseable ≤ g.total := Nat.le_mul_of_pos_left _ g.sections_pos
  -- the erased device is ready and has room for the list
  have herased := ready_of_erased (g := g) (f := (mounted f).flash.erase 0 g.size) fun a ha => by
    rw [Flash.get_erase, if_pos ⟨Nat.zero_le a, by rwa [Nat.zero_add]⟩]
  have hlog : ((mounted f).wipe 0 g.size).LogOk := logOk_wipe fun _ he => absurd he List.not_mem_nil
  have htidy : Tidy g ((mounted f).wipe 0 g.size) := ⟨⟨rfl, hlog⟩, herased.tidy.blank, herased.tidy.scratch⟩
  have hfree : ∀ b < g.total, blk ((mounted f).wipe 0 g.size).flash b 5 = BlockStatus.free := by
    intro b hb
    rw [blk_of_lt (by decide)]
    show ((mounted f).flash.erase 0 g.size).get _ = _
    rw [Flash.get_erase, if_pos ⟨Nat.zero_le _, by rw [Nat.zero_add, g.size_eq]; omega⟩]
  have hfits : AllocFits g (blk ((mounted f).wipe 0 g.size).flash) clSerialnoList blockInvalid := by
    refine ⟨fun hread => hread.2.1 0 g.sections_pos 1 (by omega) ⟨?_, ?_, hfree 1 (by omega), ?_⟩, fun hno => ?_⟩
    · exact Nat.le_of_eq (by rw [Nat.zero_mul])
    · rw [Nat.zero_mul]
      show 1 < 1 + 0 + g.eraseable
      omega
    · intro c hc hc'
      rw [Nat.zero_mul] at hc
      have hc : 1 + 0 ≤ c := hc
      omega
    · exact absurd ⟨1, Nat.le_refl 1, by omega, hfree 1 (by omega)⟩ hno
  rw [cafsLiteMkfs, wp_bind, wp_modify, wp_bind, wp_attempt, wp_bind]
  show wp (clSerialnoMkfs g) _ _ ((mounted f).wipe 0 g.size)
  rw [clSerialnoMkfs, wp_bind]
  apply wp_clBlockAlloc_fits htidy (.inr rfl) hfits
  -- no block could be allocated: formatting fails
  · intro s' _
    show wp (_ >>= _) _ _ s'
    rw [wp_bind, wp_modify, wp_fail]
    trivial
  intro b s₁ h1
  rw [wp_bind]
  apply wp_clBlockSetstatus h1.tidy h1.lt
  · rw [h1.fresh, freshBlock_status]
    decide
  · decide
  intro s₂ h2
  rw [wp_bind, clDevSetlistBlock, wp_modify, wp_bind]
  have hlist : IsList g (blk s₂.flash) clSerialnoList BlockType.serialnoList [b] 0 :=
    (h1.isList (.inl rfl) (by decide)).congr fun c _ i hi => h2.get_of_lt (by simp; omega) c
  -- the block is the list of serial numbers, with no entry
  have hsn : SnList g (blk s₂.flash) [b] [] := by
    refine ⟨hlist, fun k hk => absurd hk (Nat.not_lt_zero k), fun c hc => ?_, fun _ hi => absurd hi List.not_mem_nil,
      fun _ hi => absurd hi List.not_mem_nil⟩
    rw [List.mem_singleton.mp hc]
    exact h2.get_add (i := 0) (by simp)
  have htidy2 : Tidy g { s₂ with listBlock := b } := ⟨⟨h2.tidy.up, h2.tidy.log⟩, h2.tidy.blank, h2.tidy.scratch⟩
  apply wp_clSerialnoAppend htidy2 hsn rfl (by decide) (by decide) (by decide) List.not_mem_nil
  · intro s' _
    show wp (_ >>= _) _ _ s'
    rw [wp_bind, wp_modify, wp_fail]
    trivial
  -- the entry for the list itself has been added
  intro more s' ht hf _ _ _ hentries
  rw [wp_pure]
  show wp (pure ()) _ _ s'
  rw [wp_pure]
  refine ⟨[b] ++ more, ?_⟩
  have hserial : s'.serialno = 0 := hf.ram.serialno.trans (h2.ram.serialno.trans h1.ram.serialno)
  exact
    { tidy := ht
      head := hf.ram.listBlock
      entries := hentries
      serials := fun _ he => absurd he List.not_mem_nil
      bound := by rw [hserial]; decide
      sound := fun _ he => absurd he List.not_mem_nil
      plain := fun _ he => absurd he List.not_mem_nil
      apart := fun j _ _ _ hj => absurd hj (by simp)
      names := fun _ he => absurd he List.not_mem_nil
      unique := fun j _ _ _ hj => absurd hj (by simp)
      holders := fun j _ _ _ _ hj => absurd hj (by simp) }

end

/-! ### The invariant -/

/-- What the calls keep: entries are settled but for those that handles hold, and callers have been told of files that
are there. -/
structure Namespace.Kept (g : Geometry) (n : Namespace) (sb : List Nat) (E : List Entry) : Prop where
  catalogue : Catalogue g n.fs.st sb E
  settled : ∀ e ∈ E, e.state = .closed ∨ e.state = .failed ∨ e.state = .dead ∨
    ∃ fd h, e.state = .held fd ∧ n.fs.handle fd = some h ∧ h.amode.w = true
  handles : ∀ fd h, n.fs.handle fd = some h → h.amode.w = true →
    ∃ k e, E[k]? = some e ∧ e.state = .held fd ∧ Holds h sb k e
  next : ∀ fd, n.fs.next ≤ fd → n.fs.handle fd = none
  created : ∀ fd p, n.created fd = some p → Addressed p.chars ∧ ∃ e ∈ E, e.state = .held fd ∧ e.name = p.chars
  promised : ∀ p ∈ n.promised, Addressed p.chars ∧ ∃ e ∈ E, e.state = .closed ∧ e.name = p.chars

/-- What a call makes of the entries. -/
inductive Namespace.Moves (n : Namespace) (E E' : List Entry) : NameCall → Prop
  | same {c : NameCall} (h : E' = E) : Moves n E E' c
  /-- no file can be found that could not be found before -/
  | grown {path : Path} {flags : OpenFlags} (new : List Entry) (h : E' = E ++ new)
      (hidden : ∀ e ∈ new, e.state ≠ .closed) : Moves n E E' (.open path flags)
  | replaced {fd k : Nat} {h : Handle} {e : Entry} (handle : n.fs.handle fd = some h) (writes : h.amode.w = true)
      (entry : E[k]? = some e) (held : e.state = .held fd) (hdr : h.hdrBlock = e.hdr)
      (serialno : h.segmentData.serialno = e.serialno) (replaced : Replaced E k e E') : Moves n E E' (.close fd)
  | struck {path : Path} {k : Nat} {e : Entry} (entry : E[k]? = some e) (closed : e.state = .closed)
      (name : e.name = path.chars)
      (unopened : ∀ x ∈ E, ¬(x.state.status = SnStatus.opened ∧ x.serialno = e.serialno))
      (h : E' = E.set k { e with state := .dead }) : Moves n E E' (.unlink path)

namespace Namespace.Kept

variable {n n' : Namespace} {sb : List Nat} {E : List Entry}

theorem handle_of_held (hn : n.Kept g sb E) {e : Entry} {fd : Nat} (he : e ∈ E) (hheld : e.state = .held fd) :
    ∃ h, n.fs.handle fd = some h ∧ h.amode.w = true := by
  rcases hn.settled e he with hstate | hstate | hstate | ⟨fd', h, hstate, hh⟩
  · exact nomatch hstate.symm.trans hheld
  · exact nomatch hstate.symm.trans hheld
  · exact nomatch hstate.symm.trans hheld
  · obtain rfl := EntryState.held.inj (hstate.symm.trans hheld)
    exact ⟨h, hh⟩

/-- The next handle is not held yet. -/
theorem not_held_next (hn : n.Kept g sb E) : ∀ e ∈ E, e.state ≠ .held n.fs.next := by
  intro e he hheld
  obtain ⟨h, hh, -⟩ := hn.handle_of_held he hheld
  exact nomatch (hn.next _ (Nat.le_refl _)).symm.trans hh

theorem holds_append {h : Handle} {k : Nat} {e : Entry} {V : Nat → Bytes} (hh : Holds h sb k e)
    (hentries : SnList g V sb (zeroEntry :: E.map Entry.item)) (hk : k < E.length) (more : List Nat) :
    Holds h (sb ++ more) k e := by
  have hfits := hentries.list.fits
  rw [List.length_cons, List.length_map] at hfits
  exact ⟨hh.hdr, hh.addr.trans (addrOf_append more (by omega)).symm, hh.serialno, hh.clean⟩

/-! ### What callers see -/

theorem sound (hn : n.Kept g sb E) : n.Sound g where
  unique := by
    refine ⟨_, hn.catalogue.snEntries_eq, fun i j a b hi hj ha hb hsna hsnb hname => ?_⟩
    -- closed entries with a serial number are those of files
    have hentry : ∀ (m : Nat) (x : SnItem), (zeroEntry :: E.map Entry.item)[m]? = some x → x.status = SnStatus.closed →
        x.serialno ≠ clSerialnoList → ∃ k e, m = k + 1 ∧ E[k]? = some e ∧ e.state = .closed ∧
          storedName (blk n.fs.st.flash x.block) = e.name := by
      intro m x hm hx hsn
      cases m with
      | zero =>
        obtain rfl : zeroEntry = x := Option.some.inj hm
        exact absurd rfl hsn
      | succ k =>
        rw [List.getElem?_cons_succ, List.getElem?_map, Option.map_eq_some_iff] at hm
        obtain ⟨e, hk, rfl⟩ := hm
        have he := List.mem_of_getElem? hk
        have hclosed : e.state = .closed := EntryState.status_eq_closed.mp hx
        have hplain := hn.catalogue.plain e he (by rw [hclosed]; rfl)
        exact ⟨k, e, rfl, hk, hclosed, storedName_eq (hn.catalogue.closedFile he hclosed).stored hplain⟩
    obtain ⟨k, e, rfl, hk, hclosed, he⟩ := hentry i a hi ha hsna
    obtain ⟨k', e', rfl, hk', hclosed', he'⟩ := hentry j b hj hb hsnb
    rw [he, he'] at hname
    have hserial := (hn.catalogue.names e (List.mem_of_getElem? hk) e' (List.mem_of_getElem? hk')
      (by rw [hclosed]; rfl) (by rw [hclosed']; rfl)).mp hname
    rw [hn.catalogue.unique k k' e e' hk hk' hclosed hclosed' hserial]
  exist p hp := by
    obtain ⟨haddressed, e, he, hclosed, hname⟩ := hn.promised p hp
    have hwp : wp (clDirExists g p.chars) (fun r s' => s' = n.fs.st ∧ r = true) (fun _ => False) n.fs.st := by
      rw [clDirExists, wp_bind]
      apply wp_clDirLookup hn.catalogue haddressed
      · intro _ _ _ _
        rw [wp_pure]
        exact ⟨rfl, rfl⟩
      · exact fun hnone => absurd hname (hnone e he hclosed)
    obtain ⟨r, s', hok, rfl, rfl⟩ := exists_of_wp hwp
    exact hok

theorem visible_eq_false (hn : n.Kept g sb E) {path : Path} (hpath : Addressed path.chars)
    (hnone : ∀ e ∈ E, e.state = .closed → e.name ≠ path.chars) : visible g n.fs.st path = false := by
  rw [visible, hn.catalogue.snEntries_eq]
  apply List.any_eq_false.mpr
  intro i hi hmatch
  simp only [Bool.and_eq_true, decide_eq_true_eq] at hmatch
  obtain ⟨⟨hstatus, hsn⟩, hname⟩ := hmatch
  rcases List.mem_cons.mp hi with rfl | hi
  · exact hsn rfl
  · obtain ⟨e, he, rfl⟩ := List.mem_map.mp hi
    have hclosed : e.state = .closed := EntryState.status_eq_closed.mp hstatus
    have hplain := hn.catalogue.plain e he (by rw [hclosed]; rfl)
    have hstored := (hn.catalogue.closedFile he hclosed).stored
    exact hnone e he hclosed ((hstored.strncmpEq_iff hplain hpath).mp hname).symm

/-- No entry has a name that is neither visible nor in flight. -/
theorem mayCreate (hn : n.Kept g sb E) {path : Path} (hpath : Addressed path.chars)
    (hnone : ∀ e ∈ E, e.state = .closed → e.name ≠ path.chars) (hserial : n.fs.st.serialno + 1 < serialnoInvalid)
    (hfits : AllocFits g (blk n.fs.st.flash) (n.fs.st.serialno + 1) blockInvalid)
    (hflight : inFlight n.fs path = false) : MayCreate g n.fs.st E path where
  serialno := hserial
  fits := hfits
  fresh e he hfile hname := by
    rcases hn.settled e he with hstate | hstate | hstate | ⟨fd, h, hstate, hh, hw⟩
    · exact hnone e he hstate hname
    · rw [hstate] at hfile
      exact nomatch hfile
    · rw [hstate] at hfile
      exact nomatch hfile
    · obtain ⟨k, e', hk, hheld', hholds⟩ := hn.handles fd h hh hw
      obtain ⟨j, hj⟩ := List.getElem?_of_mem he
      obtain rfl := hn.catalogue.holders j k e e' fd hj hk hstate hheld'
      obtain rfl := Option.some.inj (hj.symm.trans hk)
      have hlt : fd < n.fs.next := by
        by_contra hge
        exact nomatch (hn.next fd (Nat.not_lt.mp hge)).symm.trans hh
      have hstored := ((hn.catalogue.sound e he).file BlockStatus.opened (by rw [hstate]; rfl)).stored
      have hmatch := List.any_eq_false.mp hflight fd (List.mem_range.mpr hlt)
      rw [hh] at hmatch
      simp only [hw, Bool.true_and, hholds.hdr] at hmatch
      exact hmatch ((hstored.strncmpEq_iff (hn.catalogue.plain e he hfile) hpath).mpr hname.symm)

/-! ### One call -/

/-- An open that fails, or that does not write. -/
theorem unopened (hn : n.Kept g sb E) {s' : St} (h : Unopened g sb E s') {handle : Nat → Option Handle} {next : Nat}
    {created : Nat → Option Path} (hnext : ∀ fd, next ≤ fd → handle fd = none)
    (hhandle : ∀ fd h, n.fs.handle fd = some h → handle fd = some h)
    (hwrite : ∀ fd h, handle fd = some h → h.amode.w = true → n.fs.handle fd = some h)
    (hcreated : ∀ fd p, created fd = some p → n.created fd = some p) :
    ∃ sb' new, Namespace.Kept g ⟨⟨s', handle, next⟩, created, n.promised⟩ sb' (E ++ new) ∧
      ∀ e ∈ new, e.state ≠ .closed := by
  obtain ⟨more, new, hcat, hfailed⟩ := h
  refine ⟨sb ++ more, new, ⟨hcat, fun e he => ?_, fun fd h hh hw => ?_, hnext, fun fd p hp => ?_, fun p hp => ?_⟩, ?_⟩
  · rcases List.mem_append.mp he with he | he
    · rcases hn.settled e he with hstate | hstate | hstate | ⟨fd, h, hstate, hh, hw⟩
      · exact .inl hstate
      · exact .inr (.inl hstate)
      · exact .inr (.inr (.inl hstate))
      · exact .inr (.inr (.inr ⟨fd, h, hstate, hhandle fd h hh, hw⟩))
    · exact .inr (.inl (hfailed e he))
  · obtain ⟨k, e, hk, hheld, hholds⟩ := hn.handles fd h (hwrite fd h hh hw) hw
    have hlt := (List.getElem?_eq_some_iff.mp hk).1
    exact ⟨k, e, (List.getElem?_append_left hlt).trans hk, hheld,
      holds_append hholds hn.catalogue.entries hlt more⟩
  · obtain ⟨haddressed, e, he, hheld⟩ := hn.created fd p (hcreated fd p hp)
    exact ⟨haddressed, e, List.mem_append_left _ he, hheld⟩
  · obtain ⟨haddressed, e, he, hclosed⟩ := hn.promised p hp
    exact ⟨haddressed, e, List.mem_append_left _ he, hclosed⟩
  · intro e he hclosed
    exact nomatch (hfailed e he).symm.trans hclosed

/-- An open for writing. -/
theorem heldAt (hn : n.Kept g sb E) {s' : St} {path : Path} {h : Handle} {flags : OpenFlags}
    (hpath : Addressed path.chars) (hw : h.amode.w = true)
    (hheld : HeldAt g sb E n.fs.next path.chars h s') :
    ∃ sb' new, Namespace.Kept g ⟨⟨s', Function.update n.fs.handle n.fs.next (some h), n.fs.next + 1⟩,
      Function.update n.created n.fs.next (if flags.creat then some path else none), n.promised⟩ sb' (E ++ new) ∧
      ∀ e ∈ new, e.state ≠ .closed := by
  obtain ⟨more, e, hcat, hstate, hname, hholds⟩ := hheld.added
  refine ⟨sb ++ more, [e], ⟨hcat, fun x hx => ?_, fun fd h' hh' hw' => ?_, fun fd hfd => ?_, fun fd p hp => ?_,
    fun p hp => ?_⟩, fun x hx hclosed => ?_⟩
  · rcases List.mem_append.mp hx with hx | hx
    · rcases hn.settled x hx with hx' | hx' | hx' | ⟨fd, h', hx', hh', hw'⟩
      · exact .inl hx'
      · exact .inr (.inl hx')
      · exact .inr (.inr (.inl hx'))
      · have hne : fd ≠ n.fs.next := by
          rintro rfl
          exact hn.not_held_next x hx hx'
        exact .inr (.inr (.inr ⟨fd, h', hx', (Function.update_of_ne hne _ _).trans hh', hw'⟩))
    · obtain rfl := List.mem_singleton.mp hx
      exact .inr (.inr (.inr ⟨n.fs.next, h, hstate, Function.update_self _ _ _, hw⟩))
  · rcases update_eq_some hh' with ⟨rfl, heq⟩ | ⟨hfd, hh'⟩
    · obtain rfl := Option.some.inj heq
      exact ⟨E.length, e, by simp, hstate, hholds⟩
    · obtain ⟨k, x, hk, hheld', hholds'⟩ := hn.handles fd h' hh' hw'
      have hlt := (List.getElem?_eq_some_iff.mp hk).1
      exact ⟨k, x, (List.getElem?_append_left hlt).trans hk, hheld',
        holds_append hholds' hn.catalogue.entries hlt more⟩
  · show Function.update n.fs.handle n.fs.next (some h) fd = none
    have hle : n.fs.next + 1 ≤ fd := hfd
    rw [Function.update_of_ne (by omega)]
    exact hn.next fd (by omega)
  · rcases update_eq_some hp with ⟨rfl, heq⟩ | ⟨hfd, hp⟩
    · split_ifs at heq
      obtain rfl := Option.some.inj heq
      exact ⟨hpath, e, by simp, hstate, hname⟩
    · obtain ⟨haddressed, x, hx, hheld'⟩ := hn.created fd p hp
      exact ⟨haddressed, x, List.mem_append_left _ hx, hheld'⟩
  · obtain ⟨haddressed, x, hx, hclosed⟩ := hn.promised p hp
    exact ⟨haddressed, x, List.mem_append_left _ hx, hclosed⟩
  · obtain rfl := List.mem_singleton.mp hx
    exact nomatch hstate.symm.trans hclosed

theorem step_open (hn : n.Kept g sb E) {path : Path} {flags : OpenFlags} {r : Option FsRet}
    (hcareful : n.Careful g (.open path flags)) (hstep : n.step g (.open path flags) = some (n', r)) :
    ∃ sb' new, n'.Kept g sb' (E ++ new) ∧ ∀ e ∈ new, e.state ≠ .closed := by
  -- a file is made only by a call that may write
  obtain ⟨hpath, hplain, hspare, hcreate⟩ := hcareful
  have hcreat : (sysfsGetamode flags).w = false → flags.creat = false := by
    intro hw
    rw [sysfsGetamode, Bool.or_eq_false_iff, Bool.or_eq_false_iff] at hw
    exact hw.1.2
  have hwp : wp (cafsLiteOpen g path flags) (fun ret s' => ∀ fs' r',
      (Fs.ret ret { n.fs with st := s' } fun h s =>
        ({ s.setHandle s.next (some h) with next := s.next + 1 }, FsRet.opened s.next)) = (fs', r') →
      ∃ sb' new, (n.opened path flags fs' (some r')).Kept g sb' (E ++ new) ∧ ∀ e ∈ new, e.state ≠ .closed)
      (fun _ => False) n.fs.st := by
    apply hn.catalogue.wp_cafsLiteOpen hpath hplain hspare hn.not_held_next
    · intro hcreat' hnone
      obtain ⟨hserial, hfits, hflight⟩ := hcreate hcreat' (hn.visible_eq_false hpath hnone)
      exact hn.mayCreate hpath hnone hserial hfits hflight
    -- the call has failed
    · rintro err s' hu fs' r' heq
      obtain ⟨rfl, rfl⟩ := Prod.mk.inj heq
      exact hn.unopened hu hn.next (fun _ _ => id) (fun _ _ hh _ => hh) (fun _ _ => id)
    -- the file is open for reading
    · rintro h hw hamode fs' r' heq
      obtain ⟨rfl, rfl⟩ := Prod.mk.inj heq
      apply hn.unopened hn.catalogue.unopened
      · intro fd hfd
        have hle : n.fs.next + 1 ≤ fd := hfd
        exact (Function.update_of_ne (by omega) _ _).trans (hn.next fd (by omega))
      · intro fd h' hh'
        have hne : fd ≠ n.fs.next := by
          rintro rfl
          cases (hn.next _ (Nat.le_refl _)).symm.trans hh'
        exact (Function.update_of_ne hne _ _).trans hh'
      · intro fd h' hh' hw'
        rcases update_eq_some (f := n.fs.handle) hh' with ⟨-, hh'⟩ | ⟨-, hh'⟩
        · obtain rfl := Option.some.inj hh'
          rw [hamode, hw] at hw'
          cases hw'
        · exact hh'
      · intro fd p hp
        rcases update_eq_some (f := n.created) hp with ⟨-, hp⟩ | ⟨-, hp⟩
        · rw [hcreat hw] at hp
          cases hp
        · exact hp
    -- the file is open for writing, and an entry waits for the handle
    · rintro h s' hw hamode hheld fs' r' heq
      obtain ⟨rfl, rfl⟩ := Prod.mk.inj heq
      exact hn.heldAt hpath (by rw [hamode]; exact hw) hheld
  obtain ⟨ret, s', hok, hq⟩ := exists_of_wp hwp
  rw [Namespace.step, Fs.step, hok] at hstep
  obtain ⟨rfl, -⟩ := Prod.mk.inj (Option.some.inj hstep)
  exact hq _ _ rfl

/-- The entries of other handles are not touched by a close. -/
theorem closed (hn : n.Kept g sb E) {fd k : Nat} {e : Entry} {s' : St} {E' : List Entry}
    (hk : E[k]? = some e) (hheld : e.state = .held fd) (hcat : Catalogue g s' sb E') (hr : Replaced E k e E') :
    Namespace.Kept g ⟨{ ({ n.fs with st := s' } : Fs) with handle := Function.update n.fs.handle fd none },
      Function.update n.created fd none, (n.created fd).toList ++ n.promised⟩ sb E' where
  catalogue := hcat
  settled x hx := by
    obtain ⟨i, hi⟩ := List.getElem?_of_mem hx
    by_cases hik : i = k
    · subst hik
      obtain rfl := Option.some.inj (hr.entry.symm.trans hi)
      exact .inl rfl
    -- another entry is as it was, or its file has been replaced
    · rcases hr.others i hik with hsame | ⟨o, -, -, -, hdead⟩
      · rw [hsame] at hi
        rcases hn.settled x (List.mem_of_getElem? hi) with hx' | hx' | hx' | ⟨fd', h', hx', hh', hw'⟩
        · exact .inl hx'
        · exact .inr (.inl hx')
        · exact .inr (.inr (.inl hx'))
        · have hne : fd' ≠ fd := by
            rintro rfl
            exact hik (hn.catalogue.holders i k x e fd' hi hk hx' hheld)
          exact .inr (.inr (.inr ⟨fd', h', hx', (Function.update_of_ne hne _ _).trans hh', hw'⟩))
      · obtain rfl := Option.some.inj (hdead.symm.trans hi)
        exact .inr (.inr (.inl rfl))
  handles fd' h' hh' hw' := by
    obtain ⟨hne, hh⟩ : fd' ≠ fd ∧ n.fs.handle fd' = some h' := (update_eq_some hh').resolve_left fun h => nomatch h.2
    obtain ⟨j, x, hj, hheld', hholds⟩ := hn.handles fd' h' hh hw'
    -- the entry of another handle is not the one that is closed
    have hjk : j ≠ k := by
      rintro rfl
      obtain rfl := Option.some.inj (hj.symm.trans hk)
      exact hne (EntryState.held.inj (hheld'.symm.trans hheld))
    refine ⟨j, x, ?_, hheld', hholds⟩
    rcases hr.others j hjk with hsame | ⟨o, ho, hclosed, -, -⟩
    · exact hsame.trans hj
    · obtain rfl := Option.some.inj (hj.symm.trans ho)
      exact nomatch hclosed.symm.trans hheld'
  next fd' hfd' := by
    show Function.update n.fs.handle fd none fd' = none
    by_cases hne : fd' = fd
    · rw [hne, Function.update_self]
    · rw [Function.update_of_ne hne]
      exact hn.next fd' hfd'
  created fd' p hp := by
    obtain ⟨hne, hp⟩ : fd' ≠ fd ∧ n.created fd' = some p := (update_eq_some hp).resolve_left fun h => nomatch h.2
    obtain ⟨haddressed, x, hx, hheld', hname⟩ := hn.created fd' p hp
    obtain ⟨j, hj⟩ := List.getElem?_of_mem hx
    have hjk : j ≠ k := by
      rintro rfl
      obtain rfl := Option.some.inj (hj.symm.trans hk)
      exact hne (EntryState.held.inj (hheld'.symm.trans hheld))
    refine ⟨haddressed, x, ?_, hheld', hname⟩
    rcases hr.others j hjk with hsame | ⟨o, ho, hclosed, -, -⟩
    · exact List.mem_of_getElem? (hsame.trans hj)
    · obtain rfl := Option.some.inj (hj.symm.trans ho)
      exact nomatch hclosed.symm.trans hheld'
  promised p hp := by
    have hmem : ({ e with state := .closed } : Entry) ∈ E' := List.mem_of_getElem? hr.entry
    rcases List.mem_append.mp hp with hp | hp
    · -- the path that the handle was opened with
      obtain ⟨haddressed, x, hx, hheld', hname⟩ := hn.created fd p (Option.mem_toList.mp hp)
      obtain ⟨j, hj⟩ := List.getElem?_of_mem hx
      obtain rfl := hn.catalogue.holders j k x e fd hj hk hheld' hheld
      obtain rfl := Option.some.inj (hj.symm.trans hk)
      exact ⟨haddressed, _, hmem, rfl, hname⟩
    · obtain ⟨haddressed, x, hx, hclosed, hname⟩ := hn.promised p hp
      obtain ⟨j, hj⟩ := List.getElem?_of_mem hx
      -- the entry of a path that was promised before is closed, and so not the handle's
      have hjk : j ≠ k := by
        rintro rfl
        obtain rfl := Option.some.inj (hj.symm.trans hk)
        exact nomatch hclosed.symm.trans hheld
      rcases hr.others j hjk with hsame | ⟨o, ho, -, hserial, -⟩
      · exact ⟨haddressed, x, List.mem_of_getElem? (hsame.trans hj), hclosed, hname⟩
      · -- the file has been replaced by the one that the handle has written
        obtain rfl := Option.some.inj (hj.symm.trans ho)
        refine ⟨haddressed, _, hmem, rfl, ?_⟩
        have hname' := (hn.catalogue.names x hx e (List.mem_of_getElem? hk) (by rw [hclosed]; rfl)
          (by rw [hheld]; rfl)).mpr hserial
        exact hname'.symm.trans hname

theorem step_close (hn : n.Kept g sb E) {fd : Nat} {r : Option FsRet} (hstep : n.step g (.close fd) = some (n', r)) :
    ∃ sb' E', n'.Kept g sb' E' ∧ n.Moves E E' (.close fd) := by
  cases hh : n.fs.handle fd with
  | none =>
    rw [Namespace.step, Fs.step, hh] at hstep
    cases hstep
  | some h =>
    have hwp : wp (cafsLiteClose g h) (fun ret s' => ret = .ok () ∧ ∃ sb' E', Namespace.Kept g
        ⟨{ ({ n.fs with st := s' } : Fs) with handle := Function.update n.fs.handle fd none },
          Function.update n.created fd none, (n.created fd).toList ++ n.promised⟩ sb' E' ∧ n.Moves E E' (.close fd))
        (fun _ => False) n.fs.st := by
      apply wp_orErrno
      by_cases hw : h.amode.w = true
      -- the entry of the handle is closed, and takes the place of the file it replaces
      · obtain ⟨k, e, hk, hheld, hholds⟩ := hn.handles fd h hh hw
        apply hn.catalogue.wp_clFileClose hk hheld hholds hw
        exact fun s' E' hcat hr => ⟨rfl, sb, E', hn.closed hk hheld hcat hr,
          .replaced hh hw hk hheld hholds.hdr hholds.serialno hr⟩
      · -- no entry waits for a handle that only reads
        have hnone : n.created fd = none := by
          by_contra hne
          obtain ⟨p, hp⟩ := Option.ne_none_iff_exists'.mp hne
          obtain ⟨-, e, he, hheld, -⟩ := hn.created fd p hp
          obtain ⟨h', hh', hw'⟩ := hn.handle_of_held he hheld
          obtain rfl := Option.some.inj (hh.symm.trans hh')
          exact hw hw'
        have hfree : ∀ fd' h', n.fs.handle fd' = some h' → h'.amode.w = true → fd' ≠ fd := by
          rintro fd' h' hh' hw' rfl
          obtain rfl := Option.some.inj (hh.symm.trans hh')
          exact hw hw'
        rw [clFileClose, if_neg hw, wp_pure, hnone]
        refine ⟨rfl, sb, E, ⟨hn.catalogue, fun e he => ?_, fun fd' h' hh' hw' => ?_, fun fd' hfd' => ?_,
          fun fd' p hp => ?_, hn.promised⟩, .same rfl⟩
        · rcases hn.settled e he with hx | hx | hx | ⟨fd', h', hx, hh', hw'⟩
          · exact .inl hx
          · exact .inr (.inl hx)
          · exact .inr (.inr (.inl hx))
          · have hne := hfree fd' h' hh' hw'
            exact .inr (.inr (.inr ⟨fd', h', hx, (Function.update_of_ne hne _ _).trans hh', hw'⟩))
        · exact hn.handles fd' h' ((update_eq_some hh').resolve_left fun h => by cases h.2).2 hw'
        · show Function.update n.fs.handle fd none fd' = none
          by_cases hne : fd' = fd
          · rw [hne, Function.update_self]
          · rw [Function.update_of_ne hne]
            exact hn.next fd' hfd'
        · exact hn.created fd' p ((update_eq_some hp).resolve_left fun h => by cases h.2).2
    obtain ⟨ret, s', hok, rfl, hq⟩ := exists_of_wp hwp
    rw [Namespace.step, Fs.step, hh] at hstep
    simp only [hok] at hstep
    obtain ⟨rfl, -⟩ := Prod.mk.inj (Option.some.inj hstep)
    exact hq

theorem step_unlink (hn : n.Kept g sb E) {path : Path} {r : Option FsRet} (hpath : Addressed path.chars)
    (hstep : n.step g (.unlink path) = some (n', r)) :
    ∃ sb' E', n'.Kept g sb' E' ∧ n.Moves E E' (.unlink path) := by
  have hwp : wp (cafsLiteUnlink g path) (fun ret s' => ∀ fs' r',
      (Fs.ret ret { n.fs with st := s' } fun _ s => (s, FsRet.done)) = (fs', r') →
      ∃ sb' E', (n.unlinked path fs' (some r')).Kept g sb' E' ∧ n.Moves E E' (.unlink path))
      (fun _ => False) n.fs.st := by
    apply hn.catalogue.wp_cafsLiteUnlink hpath
    · rintro err fs' r' heq
      obtain ⟨rfl, rfl⟩ := Prod.mk.inj heq
      exact ⟨sb, E, hn, .same rfl⟩
    · rintro k e s' hk hclosed hname hunopened hcat fs' r' heq
      obtain ⟨rfl, rfl⟩ := Prod.mk.inj heq
      -- only the entry that is struck changes, and it was closed
      have hother : ∀ {j : Nat} {x : Entry}, E[j]? = some x → j ≠ k →
          (E.set k { e with state := .dead })[j]? = some x := by
        intro j x hj hne
        rwa [List.getElem?_set_ne hne.symm]
      have hkeep : ∀ {x : Entry} {fd : Nat}, x ∈ E → x.state = .held fd → x ∈ E.set k { e with state := .dead } := by
        intro x fd hx hheld
        obtain ⟨j, hj⟩ := List.getElem?_of_mem hx
        refine List.mem_of_getElem? (hother hj ?_)
        rintro rfl
        obtain rfl := Option.some.inj (hj.symm.trans hk)
        exact nomatch hclosed.symm.trans hheld
      refine ⟨sb, E.set k { e with state := .dead }, ⟨hcat, fun x hx => ?_, fun fd h hh hw => ?_, hn.next,
        fun fd p hp => ?_, fun p hp => ?_⟩, .struck hk hclosed hname hunopened rfl⟩
      · rcases List.mem_or_eq_of_mem_set hx with hx | rfl
        · exact hn.settled x hx
        · exact .inr (.inr (.inl rfl))
      · obtain ⟨j, x, hj, hheld, hholds⟩ := hn.handles fd h hh hw
        refine ⟨j, x, hother hj ?_, hheld, hholds⟩
        rintro rfl
        obtain rfl := Option.some.inj (hj.symm.trans hk)
        exact nomatch hclosed.symm.trans hheld
      · obtain ⟨haddressed, x, hx, hheld, hxname⟩ := hn.created fd p hp
        exact ⟨haddressed, x, hkeep hx hheld, hheld, hxname⟩
      -- the path itself is promised no more
      · obtain ⟨hp, hne⟩ := List.mem_filter.mp hp
        obtain ⟨haddressed, x, hx, hxclosed, hxname⟩ := hn.promised p hp
        obtain ⟨j, hj⟩ := List.getElem?_of_mem hx
        refine ⟨haddressed, x, List.mem_of_getElem? (hother hj ?_), hxclosed, hxname⟩
        rintro rfl
        obtain rfl := Option.some.inj (hj.symm.trans hk)
        exact absurd (hxname.symm.trans hname) (by simpa using hne)
  obtain ⟨ret, s', hok, hq⟩ := exists_of_wp hwp
  rw [Namespace.step, Fs.step, hok] at hstep
  obtain ⟨rfl, -⟩ := Prod.mk.inj (Option.some.inj hstep)
  exact hq _ _ rfl

theorem step (hn : n.Kept g sb E) {c : NameCall} {r : Option FsRet} (hcareful : n.Careful g c)
    (hstep : n.step g c = some (n', r)) : ∃ sb' E', n'.Kept g sb' E' ∧ n.Moves E E' c := by
  cases c with
  | «open» path flags =>
    obtain ⟨sb', new, hn', hhidden⟩ := hn.step_open hcareful hstep
    exact ⟨sb', E ++ new, hn', .grown new rfl hhidden⟩
  | close fd => exact hn.step_close hstep
  | unlink path => exact hn.step_unlink hcareful hstep

end Namespace.Kept

/-! ### Runs -/

theorem Namespace.Formatted.kept {n : Namespace} (h : n.Formatted g) : ∃ sb, n.Kept g sb [] := by
  obtain ⟨f, hmkfs, hcreated, hpromised⟩ := h
  have hwp := wp_cafsLiteMkfs (g := g) (f := f)
  unfold Cmd.wp at hwp
  rw [Fs.step] at hmkfs
  generalize cafsLiteMkfs g (mounted f) = o at hwp hmkfs
  cases o with
  | hang => exact nomatch hmkfs
  | error s' => exact absurd (Prod.mk.inj (Option.some.inj hmkfs)).2 (by simp)
  | ok a s' =>
    obtain ⟨sb, hcat⟩ := hwp
    obtain ⟨hfs, -⟩ := Prod.mk.inj (Option.some.inj hmkfs)
    refine ⟨sb, ?_, fun _ he => absurd he List.not_mem_nil, ?_, ?_, ?_, ?_⟩
    · rw [← hfs]
      exact hcat
    · intro fd h hh
      rw [← hfs] at hh
      exact absurd hh (Option.some_ne_none h).symm
    · intro fd _
      rw [← hfs]
      rfl
    · intro fd p hp
      rw [hcreated] at hp
      exact nomatch hp
    · intro p hp
      rw [hpromised] at hp
      exact absurd hp List.not_mem_nil

theorem Namespace.kept_of_careful {n₀ n : Namespace} {rs : List FsRet} (hformat : n₀.Formatted g)
    (hrun : Run (Namespace.step g) (Namespace.Careful g) n₀ rs n) : ∃ sb E, n.Kept g sb E := by
  apply Run.invariant (fun _ n => ∃ sb E, Namespace.Kept g n sb E) _ _ hrun
  · obtain ⟨sb, hn⟩ := hformat.kept
    exact ⟨sb, [], hn⟩
  · rintro rs n c n' r ⟨sb, E, hn⟩ hcareful hstep
    obtain ⟨sb', E', hn', -⟩ := hn.step hcareful hstep
    exact ⟨sb', E', hn'⟩

/-- Names stay unique and are found again in every run of careful calls. -/
theorem soundNames_of_careful {n₀ n : Namespace} {rs : List FsRet} (hformat : n₀.Formatted g)
    (hrun : Run (Namespace.step g) (Namespace.Careful g) n₀ rs n) : n.Sound g := by
  obtain ⟨sb, E, hn⟩ := Namespace.kept_of_careful hformat hrun
  exact hn.sound

/-! ### On a small device -/

def pathA : Path := ⟨[97], by decide, by decide⟩

def createFlags : OpenFlags := ⟨.wronly, true, false, false⟩

/-- The account after formatting an erased device. -/
def formatBlank (g : Geometry) : Option Namespace :=
  match Fs.step g ⟨mounted .blank, fun _ => none, 0⟩ .mkfs with
  | some (fs, some .done) => some ⟨fs, fun _ => none, []⟩
  | _ => none

theorem formatted_of_formatBlank {n : Namespace} (h : formatBlank g = some n) : n.Formatted g := by
  unfold formatBlank at h
  split at h
  · next fs hstep =>
    obtain rfl := Option.some.inj h
    exact ⟨.blank, hstep, rfl, rfl⟩
  · exact nomatch h

/-- What the first open needs: a block of another serial number and free blocks in the section. -/
def readyToCreate (n : Namespace) : Bool :=
  n.fs.st.serialno == 0 && n.fs.next == 0 && blk n.fs.st.flash 1 5 == BlockStatus.closed &&
    u32 (blk n.fs.st.flash 1) 0 == 0 && blk n.fs.st.flash 2 5 == BlockStatus.free &&
    decide (2 < (freeBlocks erasedSection (blk n.fs.st.flash)).card)

theorem careful_of_ready {n : Namespace} {flags : OpenFlags} (h : readyToCreate n = true) :
    n.Careful erasedSection (.open pathA flags) := by
  simp only [readyToCreate, Bool.and_eq_true, beq_iff_eq, decide_eq_true_eq] at h
  obtain ⟨⟨⟨⟨⟨hserial, hnext⟩, hclosed⟩, hzero⟩, hfree⟩, hcard⟩ := h
  have hslash : '/'.toUInt8 ∉ pathA.chars := by decide
  refine ⟨fun h => absurd h hslash, fun _ => hslash, fun _ hle => absurd hle (Nat.not_le.mpr hcard), fun _ _ => ?_⟩
  refine ⟨by rw [hserial]; decide, ⟨fun hread => ?_, fun hno => ?_⟩, ?_⟩
  · have hpassed := (hread.2.2 1 (by decide) (by decide)).2 (.inl hclosed)
    rw [hzero, hserial] at hpassed
    exact absurd hpassed (by decide)
  · exact absurd ⟨2, by decide, by decide, hfree⟩ hno
  · rw [Namespace.inFlight, hnext]
    rfl

theorem allOk_of_ready {n : Namespace} (h : readyToCreate n = true) :
    Run.AllOk (Namespace.step erasedSection) (Namespace.Careful erasedSection) n
      [.open pathA createFlags, .close 0] :=
  Run.allOk_cons (careful_of_ready h) fun _ => Run.allOk_cons trivial fun _ => trivial

/-- A file is made, and found again. -/
theorem soundNames_created : ∃ n₀ n rs, Namespace.Formatted erasedSection n₀ ∧
    Run (Namespace.step erasedSection) (Namespace.Careful erasedSection) n₀ rs n ∧ n.promised.map Path.chars = [[97]] ∧
    n.Sound erasedSection := by
  have hready : (formatBlank erasedSection).map readyToCreate = some true := by decide +kernel
  have hend : ((formatBlank erasedSection).bind fun n =>
      (Run.replay (Namespace.step erasedSection) n [.open pathA createFlags, .close 0]).map fun p =>
        p.1.promised.map Path.chars) = some [[97]] := by decide +kernel
  obtain ⟨n₀, hn₀, hready⟩ := Option.map_eq_some_iff.mp hready
  rw [hn₀, Option.bind_some] at hend
  obtain ⟨⟨n, rs⟩, hreplay, hpromised⟩ := Option.map_eq_some_iff.mp hend
  have hformat := formatted_of_formatBlank hn₀
  have hrun := Run.of_replay hreplay (allOk_of_ready hready)
  exact ⟨n₀, n, rs, hformat, hrun, hpromised, soundNames_of_careful hformat hrun⟩

/-- Two closed entries have headers with the same name. -/
def hasTwins (g : Geometry) (n : Namespace) : Bool :=
  match snEntries g n.fs.st with
  | .ok [_, a, b] _ =>
    a.status == SnStatus.closed && b.status == SnStatus.closed && a.serialno != clSerialnoList &&
      b.serialno != clSerialnoList && storedName (blk n.fs.st.flash a.block) == storedName (blk n.fs.st.flash b.block)
  | _ => false

theorem not_sound_of_hasTwins {n : Namespace} (h : hasTwins g n = true) : ¬n.Sound g := by
  intro hsound
  obtain ⟨L, hL, hunique⟩ := hsound.unique
  rw [hasTwins, hL] at h
  split at h
  · next z a b _ heq =>
    injection heq with heq
    subst heq
    simp only [Bool.and_eq_true, beq_iff_eq, bne_iff_ne] at h
    obtain ⟨⟨⟨⟨ha, hb⟩, hsna⟩, hsnb⟩, hname⟩ := h
    exact absurd (hunique 1 2 a b rfl rfl ha hb hsna hsnb hname) (by decide)
  · exact nomatch h

/-- Two handles make a file of the same name, and both become visible. -/
theorem not_soundNames : ¬∀ (g : Geometry) (n₀ n : Namespace) (rs : List FsRet), n₀.Formatted g →
    Run (Namespace.step g) (fun _ _ => True) n₀ rs n → n.Sound g := by
  intro h
  have hend : ((formatBlank erasedSection).bind fun n => (Run.replay (Namespace.step erasedSection) n
      [.open pathA createFlags, .open pathA createFlags, .close 0, .close 1]).map fun p =>
        hasTwins erasedSection p.1) = some true := by decide +kernel
  cases hn₀ : formatBlank erasedSection with
  | none =>
    rw [hn₀] at hend
    exact nomatch hend
  | some n₀ =>
    rw [hn₀, Option.bind_some] at hend
    obtain ⟨⟨n, rs⟩, hreplay, htwins⟩ := Option.map_eq_some_iff.mp hend
    have hrun := Run.of_replay hreplay (Run.allOk_true _ _)
    exact not_sound_of_hasTwins htwins (h erasedSection n₀ n rs (formatted_of_formatBlank hn₀) hrun)

end CoActionOS.Cafs
