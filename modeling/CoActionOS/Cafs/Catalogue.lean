import CoActionOS.Cafs.Fs
import CoActionOS.Cafs.Reclamation
import CoActionOS.Cafs.Volume

/-!
# The catalogue of files

As long as nothing is written to a file, it consists of its header and one empty list block.  `Entry` is what an entry
of the list of serial numbers stands for: a file that can be found, one that a handle is about to make visible, the
rest of an open that failed, or nothing any more.  `Catalogue` says that the medium holds the list with these entries
and that every file among them is intact; what the calls do to it are changes of single entries (`Catalogue.append`,
`Catalogue.update`).
-/

namespace CoActionOS.Cafs

open Cmd

variable {g : Geometry}

/-! ### Names -/

/-- The header of block `b` holds the name, filled up with zeros. -/
def Stored (d : Bytes) (name : List UInt8) : Prop := ∀ i < HdrOpen.nameSize, blockData d i = name.getD i 0

/-- A name that fits into a header and has no part of a path in front of it. -/
structure PlainName (name : List UInt8) : Prop where
  noNul : 0 ∉ name
  noSlash : '/'.toUInt8 ∉ name
  length_le : name.length ≤ nameMax

/-- A path the comparison with stored names sees enough of: a slash in it is among the characters that are compared. -/
def Addressed (path : List UInt8) : Prop := '/'.toUInt8 ∈ path → '/'.toUInt8 ∈ path.take nameMax

instance (path : List UInt8) : Decidable (Addressed path) := inferInstanceAs (Decidable (_ → _))

/-- The comparison is one of the first `n` characters. -/
theorem strncmpEq_iff {n : Nat} {path name : List UInt8} {d : Bytes} (hd : ∀ i < n, d i = name.getD i 0)
    (hpath : 0 ∉ path) (hname : 0 ∉ name) (hlen : name.length ≤ n) :
    strncmpEq n path d = true ↔ path.take n = name := by
  induction n generalizing path name d with
  | zero =>
    obtain rfl := List.eq_nil_of_length_eq_zero (Nat.le_zero.mp hlen)
    exact iff_of_true rfl List.take_zero
  | succ n ih =>
    have h0 := hd 0 (Nat.zero_lt_succ n)
    cases path with
    | nil =>
      rw [strncmpEq, h0, List.take_nil]
      cases name with
      | nil => exact iff_of_true rfl rfl
      | cons x name =>
        have hx : x ≠ 0 := fun h => hname (h ▸ List.mem_cons_self)
        refine iff_of_false (fun h => hx (beq_iff_eq.mp h)) ?_
        exact (List.cons_ne_nil x name).symm
    | cons c path =>
      have hc : c ≠ 0 := fun h => hpath (h ▸ List.mem_cons_self)
      rw [strncmpEq, h0, Bool.and_eq_true, beq_iff_eq, List.take_succ_cons]
      cases name with
      | nil => exact iff_of_false (fun h => hc h.1) (List.cons_ne_nil c _)
      | cons x name =>
        have htail : strncmpEq n path (fun i => d (i + 1)) = true ↔ path.take n = name :=
          ih (fun i hi => hd (i + 1) (by omega)) (fun h => hpath (List.mem_cons_of_mem _ h))
            (fun h => hname (List.mem_cons_of_mem _ h)) (by simpa using hlen)
        rw [List.cons.injEq, List.getD_cons_zero, htail]

theorem getfilenameFrom_of_noSlash {name path : List UInt8} (h : '/'.toUInt8 ∉ path) :
    getfilenameFrom name path = name := by
  induction path with
  | nil => rfl
  | cons c path ih =>
    rw [getfilenameFrom, if_neg fun hc : c = _ => h (hc ▸ List.mem_cons_self)]
    exact ih fun hmem => h (List.mem_cons_of_mem _ hmem)

/-- Without a slash the name that is stored is the path that is looked up. -/
theorem sysfsGetfilename_of_noSlash {path : List UInt8} (h : '/'.toUInt8 ∉ path) : sysfsGetfilename path = path :=
  getfilenameFrom_of_noSlash h

theorem Path.plainName (path : Path) (h : '/'.toUInt8 ∉ path.chars) : PlainName path.chars where
  noNul := path.noNul
  noSlash := h
  length_le := by
    have hfits := path.nameFits
    rwa [sysfsGetfilename_of_noSlash h] at hfits

theorem Path.take_eq_iff (path : Path) (h : Addressed path.chars) {name : List UInt8} (hname : PlainName name) :
    path.chars.take nameMax = name ↔ path.chars = name := by
  by_cases hslash : '/'.toUInt8 ∈ path.chars
  · refine iff_of_false (fun he => hname.noSlash ?_) (fun he => hname.noSlash ?_)
    · rw [← he]
      exact h hslash
    · rw [← he]
      exact hslash
  · rw [List.take_of_length_le (path.plainName hslash).length_le]

/-- A file is found under the name it is stored with. -/
theorem Stored.strncmpEq_iff {d : Bytes} {name : List UInt8} {path : Path} (h : Stored d name) (hname : PlainName name)
    (hpath : Addressed path.chars) : strncmpEq nameMax path.chars (blockData d) = true ↔ path.chars = name := by
  rw [← path.take_eq_iff hpath hname]
  exact Cafs.strncmpEq_iff (fun i hi => h i (by show i < 26; have : i < 24 := hi; omega)) path.noNul hname.noNul
    hname.length_le

theorem Stored.congr {d d' : Bytes} {name : List UInt8} (h : Stored d name)
    (hd : ∀ i, 6 ≤ i → i < 32 → d' i = d i) : Stored d' name := fun i hi => by
  have hi : i < 26 := hi
  rw [← h i hi]
  exact hd (6 + i) (by omega) (by omega)

/-! ### Files nothing has been written to -/

/-- A file with its header in `hdr` and one list block `list` without an item. -/
structure EmptyFile (g : Geometry) (V : Nat → Bytes) (sn : Nat) (st : UInt8) (hdr list : Nat) (name : List UInt8) :
    Prop where
  file : FileAt g V sn st hdr [list] []
  stored : Stored (V hdr) name

section

variable {V V' : Nat → Bytes} {sn hdr list : Nat} {st : UInt8} {name : List UInt8}

theorem EmptyFile.congr (h : EmptyFile g V sn st hdr list name) (hhdr : V' hdr = V hdr) (hlist : V' list = V list) :
    EmptyFile g V' sn st hdr list name := by
  refine ⟨h.file.congr hhdr fun b hb => ?_, ?_⟩
  · rw [List.mem_singleton.mp hb]
    exact hlist
  · rw [hhdr]
    exact h.stored

theorem EmptyFile.list_lt (h : EmptyFile g V sn st hdr list name) : list < g.total :=
  h.file.list.lt list (List.mem_singleton.mpr rfl)

theorem EmptyFile.ne (h : EmptyFile g V sn st hdr list name) : hdr ≠ list := fun he =>
  h.file.hdr_not_mem (List.mem_singleton.mpr he)

theorem EmptyFile.list_status (h : EmptyFile g V sn st hdr list name) : V list 5 = st :=
  h.file.listStatus list (List.mem_singleton.mpr rfl)

theorem EmptyFile.list_serialno (h : EmptyFile g V sn st hdr list name) : u32 (V list) 0 = sn :=
  h.file.list.serialno list (List.mem_singleton.mpr rfl)

end

/-! ### Entries -/

/-- What has become of an entry. -/
inductive EntryState
  /-- the file can be found -/
  | closed
  /-- the handle `fd` will make the file visible -/
  | held (fd : Nat)
  /-- that handle is being closed: the size has been written -/
  | sized
  | closing
  /-- the blocks have been closed, the entry not yet -/
  | marked
  /-- the file is going to be discarded, with its segments or without -/
  | leaving (segments : Bool)
  /-- its blocks have been discarded, the entry not yet -/
  | emptied (segments : Bool)
  /-- the open that made the entry has failed -/
  | failed
  | dead
  deriving DecidableEq

namespace EntryState

def status : EntryState → UInt8
  | closed => SnStatus.closed
  | held _ | sized | failed => SnStatus.opened
  | closing | marked => SnStatus.closing
  | leaving segments | emptied segments =>
    if segments then SnStatus.discarding else SnStatus.discardingHdrList
  | dead => SnStatus.dirty

/-- The status of the file's blocks, when there is a file. -/
def blockStatus : EntryState → Option UInt8
  | closed | marked | leaving _ => some BlockStatus.closed
  | held _ | sized | closing => some BlockStatus.opened
  | emptied _ | failed | dead => none

end EntryState

namespace EntryState

theorem status_eq_closed {x : EntryState} : x.status = SnStatus.closed ↔ x = .closed := by
  cases x with
  | leaving segments => cases segments <;> exact iff_of_false (by decide) (fun h => nomatch h)
  | emptied segments => cases segments <;> exact iff_of_false (by decide) (fun h => nomatch h)
  | closed => exact iff_of_true rfl rfl
  | held fd => exact iff_of_false (show SnStatus.opened ≠ SnStatus.closed by decide) (fun h => nomatch h)
  | _ => exact iff_of_false (by decide) (fun h => nomatch h)

theorem status_eq_opened {x : EntryState} :
    x.status = SnStatus.opened ↔ x = .sized ∨ x = .failed ∨ ∃ fd, x = .held fd := by
  cases x with
  | leaving segments => cases segments <;> exact iff_of_false (by decide) (by simp)
  | emptied segments => cases segments <;> exact iff_of_false (by decide) (by simp)
  | held fd => exact iff_of_true rfl (.inr (.inr ⟨fd, rfl⟩))
  | sized => exact iff_of_true rfl (.inl rfl)
  | failed => exact iff_of_true rfl (.inr (.inl rfl))
  | _ => exact iff_of_false (by decide) (by simp)

end EntryState

structure Entry where
  serialno : Nat
  hdr : Nat
  list : Nat
  name : List UInt8
  state : EntryState

namespace Entry

variable (e : Entry)

def item : SnItem := newEntry e.serialno e.hdr e.state.status

/-- The blocks of the entry. -/
def blocks : List Nat :=
  if e.state.blockStatus.isSome then [e.hdr, e.list]
  else if e.state = .failed then [e.hdr]
  else []

/-- The size is written when the file is closed. -/
def NoSize (d : Bytes) : Prop := ∀ i, 34 ≤ i → i < 38 → d i = 0xFF

/-- What the medium holds for the entry. -/
structure Sound (g : Geometry) (V : Nat → Bytes) : Prop where
  file : ∀ st, e.state.blockStatus = some st → EmptyFile g V e.serialno st e.hdr e.list e.name
  noSize : ∀ fd, e.state = .held fd → NoSize (V e.hdr)
  failed : e.state = .failed → e.hdr < g.total ∧ Live (V e.hdr) ∧ u32 (V e.hdr) 0 = e.serialno

end Entry

theorem EntryState.blockStatus_cases {x : EntryState} {st : UInt8} (h : x.blockStatus = some st) :
    st = BlockStatus.closed ∨ st = BlockStatus.opened := by
  cases x <;> simp only [EntryState.blockStatus, Option.some.injEq, reduceCtorEq] at h <;> simp [← h]

section

variable {V V' : Nat → Bytes} {e : Entry}

theorem Entry.mem_blocks_of_file {st : UInt8} (h : e.state.blockStatus = some st) : e.blocks = [e.hdr, e.list] := by
  unfold Entry.blocks
  rw [h]
  rfl

/-- The blocks of an entry are in use and carry its serial number. -/
theorem Entry.Sound.blocks (h : e.Sound g V) {c : Nat} (hc : c ∈ e.blocks) :
    c < g.total ∧ Live (V c) ∧ u32 (V c) 0 = e.serialno := by
  cases hstate : e.state.blockStatus with
  | some st =>
    have hf := h.file st hstate
    have hst := EntryState.blockStatus_cases hstate
    rw [Entry.mem_blocks_of_file hstate] at hc
    rcases List.mem_cons.mp hc with rfl | hc
    · exact ⟨hf.file.lt, by rw [Live, hf.file.status]; exact hst, hf.file.serialno⟩
    · obtain rfl := List.mem_singleton.mp hc
      exact ⟨hf.list_lt, by rw [Live, hf.list_status]; exact hst, hf.list_serialno⟩
  | none =>
    unfold Entry.blocks at hc
    rw [hstate] at hc
    simp only [Option.isSome_none, Bool.false_eq_true, if_false] at hc
    split_ifs at hc with hfailed
    · obtain rfl := List.mem_singleton.mp hc
      exact h.failed hfailed
    · exact absurd hc List.not_mem_nil

theorem Entry.Sound.congr (h : e.Sound g V) (hV : ∀ c ∈ e.blocks, V' c = V c) : e.Sound g V' where
  file st hst := by
    rw [Entry.mem_blocks_of_file hst] at hV
    exact (h.file st hst).congr (hV _ (by simp)) (hV _ (by simp))
  noSize fd hfd := by
    have hblock : e.state.blockStatus = some BlockStatus.opened := by rw [hfd]; rfl
    rw [Entry.mem_blocks_of_file hblock] at hV
    rw [hV _ (by simp)]
    exact h.noSize fd hfd
  failed hfailed := by
    have hmem : e.hdr ∈ e.blocks := by
      unfold Entry.blocks
      rw [hfailed]
      exact List.mem_singleton.mpr rfl
    rw [hV _ hmem]
    exact h.failed hfailed

end

/-! ### The catalogue -/

/-- The list of serial numbers holds these entries, and every file among them is intact. -/
structure Catalogue (g : Geometry) (s : St) (sb : List Nat) (E : List Entry) : Prop where
  tidy : Tidy g s
  head : s.listBlock = sb.headD 0
  entries : SnList g (blk s.flash) sb (zeroEntry :: E.map Entry.item)
  serials : ∀ e ∈ E, 1 ≤ e.serialno ∧ e.serialno ≤ s.serialno
  bound : s.serialno < serialnoInvalid
  sound : ∀ e ∈ E, e.Sound g (blk s.flash)
  plain : ∀ e ∈ E, e.state.blockStatus.isSome → PlainName e.name
  apart : ∀ (j k : Nat) (e e' : Entry), E[j]? = some e → E[k]? = some e' → j ≠ k → e.blocks.Disjoint e'.blocks
  /-- a serial number stands for a name -/
  names : ∀ e ∈ E, ∀ e' ∈ E, e.state.blockStatus.isSome → e'.state.blockStatus.isSome →
    (e.name = e'.name ↔ e.serialno = e'.serialno)
  unique : ∀ (j k : Nat) (e e' : Entry), E[j]? = some e → E[k]? = some e' → e.state = .closed → e'.state = .closed →
    e.serialno = e'.serialno → j = k
  holders : ∀ (j k : Nat) (e e' : Entry) (fd : Nat), E[j]? = some e → E[k]? = some e' → e.state = .held fd → e'.state = .held fd → j = k

section

variable {s s' : St} {sb : List Nat} {E : List Entry}

/-- The blocks of an entry do not belong to the list of serial numbers. -/
theorem Catalogue.not_mem (h : Catalogue g s sb E) {e : Entry} (he : e ∈ E) {c : Nat} (hc : c ∈ e.blocks) : c ∉ sb := by
  intro hmem
  have hserial := ((h.sound e he).blocks hc).2.2
  rw [h.entries.serialno_mem hmem] at hserial
  have hpos := (h.serials e he).1
  rw [← hserial] at hpos
  exact absurd hpos (by decide)

/-- Calls that leave the blocks of the catalogue alone leave the catalogue alone. -/
theorem Catalogue.frame {own : Nat → Prop} (h : Catalogue g s sb E) (ht : Tidy g s') (hf : Frame g own s s')
    (hsb : ∀ c ∈ sb, ¬own c) (hown : ∀ e ∈ E, ∀ c ∈ e.blocks, ¬own c) : Catalogue g s' sb E where
  tidy := ht
  head := hf.ram.listBlock.trans h.head
  entries := h.entries.frame hf hsb
  serials e he := by
    rw [hf.ram.serialno]
    exact h.serials e he
  bound := by
    rw [hf.ram.serialno]
    exact h.bound
  sound e he := (h.sound e he).congr fun c hc => by
    obtain ⟨hlt, hlive, -⟩ := (h.sound e he).blocks hc
    exact hf.keep c hlt hlive (hown e he c hc)
  plain := h.plain
  apart := h.apart
  names := h.names
  unique := h.unique
  holders := h.holders

/-- An entry of an open that has just begun. -/
theorem Catalogue.append {more : List Nat} {e : Entry} (h : Catalogue g s sb E) (ht : Tidy g s')
    (hf : Frame g (· ∈ sb) s s')
    (hentries : SnList g (blk s'.flash) (sb ++ more) (zeroEntry :: (E ++ [e]).map Entry.item))
    (hstate : e.state = .failed) (hserial : 1 ≤ e.serialno ∧ e.serialno ≤ s.serialno)
    (hsound : e.Sound g (blk s.flash)) (hapart : ∀ e' ∈ E, e'.blocks.Disjoint e.blocks) :
    Catalogue g s' (sb ++ more) (E ++ [e]) := by
  have hkeep : ∀ e' : Entry, e'.Sound g (blk s.flash) → 1 ≤ e'.serialno → e'.Sound g (blk s'.flash) := by
    intro e' hsound' hpos
    apply hsound'.congr
    intro c hc
    obtain ⟨hlt, hlive, hsn⟩ := hsound'.blocks hc
    exact keep_of_entries h.entries hf hlt hlive hsn (Nat.one_le_iff_ne_zero.mp hpos)
  have hnofile : ¬ e.state.blockStatus.isSome := by rw [hstate]; exact Bool.false_ne_true
  -- the new entry is none of those that the conditions on pairs are about
  have hsplit : ∀ {j : Nat} {e' : Entry}, (E ++ [e])[j]? = some e' →
      E[j]? = some e' ∨ j = E.length ∧ e' = e := by
    intro j e' hj
    rw [List.getElem?_append] at hj
    split_ifs at hj with hlt
    · exact .inl hj
    · have hj' : j - E.length < [e].length := by
        by_contra hge
        rw [List.getElem?_eq_none (Nat.not_lt.mp hge)] at hj
        exact absurd hj (by simp)
      rw [List.length_singleton] at hj'
      obtain rfl : j = E.length := by omega
      rw [Nat.sub_self] at hj
      exact .inr ⟨rfl, by simpa using hj.symm⟩
  refine
    { tidy := ht
      head := by rw [hf.ram.listBlock, h.entries.headD_append]; exact h.head
      entries := hentries
      serials := ?_
      bound := by rw [hf.ram.serialno]; exact h.bound
      sound := ?_
      plain := ?_
      apart := ?_
      names := ?_
      unique := ?_
      holders := ?_ }
  · intro e' he'
    rw [hf.ram.serialno]
    rcases List.mem_append.mp he' with he' | he'
    · exact h.serials e' he'
    · rw [List.mem_singleton.mp he']
      exact hserial
  · intro e' he'
    rcases List.mem_append.mp he' with he' | he'
    · exact hkeep e' (h.sound e' he') (h.serials e' he').1
    · rw [List.mem_singleton.mp he']
      exact hkeep e hsound hserial.1
  · intro e' he' hfile
    rcases List.mem_append.mp he' with he' | he'
    · exact h.plain e' he' hfile
    · rw [List.mem_singleton.mp he'] at hfile
      exact absurd hfile hnofile
  · intro j k e' e'' hj hk hne
    rcases hsplit hj with hj' | ⟨rfl, rfl⟩
    · rcases hsplit hk with hk' | ⟨rfl, rfl⟩
      · exact h.apart j k e' e'' hj' hk' hne
      · exact hapart e' (List.mem_of_getElem? hj')
    · rcases hsplit hk with hk' | ⟨rfl, rfl⟩
      · exact fun c hc hc' => hapart e'' (List.mem_of_getElem? hk') hc' hc
      · exact absurd rfl hne
  · intro e' he' e'' he'' hfile' hfile''
    rcases List.mem_append.mp he' with he' | he'
    · rcases List.mem_append.mp he'' with he'' | he''
      · exact h.names e' he' e'' he'' hfile' hfile''
      · rw [List.mem_singleton.mp he''] at hfile''
        exact absurd hfile'' hnofile
    · rw [List.mem_singleton.mp he'] at hfile'
      exact absurd hfile' hnofile
  · intro j k e' e'' hj hk hcl hcl' hsn
    rcases hsplit hj with hj | ⟨rfl, rfl⟩
    · rcases hsplit hk with hk | ⟨rfl, rfl⟩
      · exact h.unique j k e' e'' hj hk hcl hcl' hsn
      · exact nomatch hstate.symm.trans hcl'
    · exact nomatch hstate.symm.trans hcl
  · intro j k e' e'' fd hj hk hheld hheld'
    rcases hsplit hj with hj | ⟨rfl, rfl⟩
    · rcases hsplit hk with hk | ⟨rfl, rfl⟩
      · exact h.holders j k e' e'' fd hj hk hheld hheld'
      · exact nomatch hstate.symm.trans hheld'
    · exact nomatch hstate.symm.trans hheld

/-- One entry changes, and with it at most its own blocks. -/
structure Changes (g : Geometry) (E : List Entry) (k : Nat) (e e' : Entry) (V' : Nat → Bytes) : Prop where
  entry : E[k]? = some e
  serialno : e'.serialno = e.serialno
  sound : e'.Sound g V'
  plain : e'.state.blockStatus.isSome → PlainName e'.name
  apart : ∀ (j : Nat) (x : Entry), E[j]? = some x → j ≠ k → x.blocks.Disjoint e'.blocks
  names : ∀ x ∈ E, x.state.blockStatus.isSome → e'.state.blockStatus.isSome →
    (x.name = e'.name ↔ x.serialno = e'.serialno)
  unique : ∀ (j : Nat) (x : Entry), E[j]? = some x → j ≠ k → x.state = .closed → e'.state = .closed →
    x.serialno ≠ e'.serialno
  holders : ∀ (j : Nat) (x : Entry) (fd : Nat), E[j]? = some x → j ≠ k → x.state = .held fd → e'.state ≠ .held fd

theorem Catalogue.update {own : Nat → Prop} {k : Nat} {e e' : Entry} (h : Catalogue g s sb E) (ht : Tidy g s')
    (hf : Frame g own s s') (hc : Changes g E k e e' (blk s'.flash))
    (hown : ∀ (j : Nat) (x : Entry), E[j]? = some x → j ≠ k → ∀ c ∈ x.blocks, ¬own c)
    (hentries : SnList g (blk s'.flash) sb (zeroEntry :: (E.set k e').map Entry.item)) :
    Catalogue g s' sb (E.set k e') := by
  -- an entry of the new list is the one that changed or an old one
  have hsplit : ∀ {j : Nat} {x : Entry}, (E.set k e')[j]? = some x → j ≠ k ∧ E[j]? = some x ∨ j = k ∧ x = e' := by
    intro j x hj
    rw [List.getElem?_set] at hj
    split_ifs at hj with hkj hlt
    · exact .inr ⟨hkj.symm, (Option.some.inj hj).symm⟩
    · exact .inl ⟨fun he => hkj he.symm, hj⟩
  have hmem : ∀ {x : Entry}, x ∈ E.set k e' → x ∈ E ∨ x = e' := fun hx => List.mem_or_eq_of_mem_set hx
  refine
    { tidy := ht
      head := hf.ram.listBlock.trans h.head
      entries := hentries
      serials := ?_
      bound := by rw [hf.ram.serialno]; exact h.bound
      sound := ?_
      plain := ?_
      apart := ?_
      names := ?_
      unique := ?_
      holders := ?_ }
  · intro x hx
    rw [hf.ram.serialno]
    rcases hmem hx with hx | rfl
    · exact h.serials x hx
    · rw [hc.serialno]
      exact h.serials e (List.mem_of_getElem? hc.entry)
  · intro x hx
    obtain ⟨j, hj⟩ := List.getElem?_of_mem hx
    rcases hsplit hj with ⟨hjk, hj⟩ | ⟨rfl, rfl⟩
    -- the blocks of the other files are not written to
    · have hsound := h.sound x (List.mem_of_getElem? hj)
      apply hsound.congr
      intro c hcx
      obtain ⟨hlt, hlive, -⟩ := hsound.blocks hcx
      exact hf.keep c hlt hlive (hown j x hj hjk c hcx)
    · exact hc.sound
  · intro x hx hfile
    rcases hmem hx with hx | rfl
    · exact h.plain x hx hfile
    · exact hc.plain hfile
  · intro i j x y hi hj hne
    rcases hsplit hi with ⟨hik, hi'⟩ | ⟨rfl, rfl⟩
    · rcases hsplit hj with ⟨hjk, hj'⟩ | ⟨rfl, rfl⟩
      · exact h.apart i j x y hi' hj' hne
      · exact hc.apart i x hi' hik
    · rcases hsplit hj with ⟨hjk, hj'⟩ | ⟨rfl, rfl⟩
      · exact fun c hcx hcy => hc.apart j y hj' hjk hcy hcx
      · exact absurd rfl hne
  · intro x hx y hy hfx hfy
    rcases hmem hx with hx' | rfl
    · rcases hmem hy with hy' | rfl
      · exact h.names x hx' y hy' hfx hfy
      · exact hc.names x hx' hfx hfy
    · rcases hmem hy with hy' | rfl
      · have hiff := hc.names y hy' hfy hfx
        exact ⟨fun he => (hiff.mp he.symm).symm, fun he => (hiff.mpr he.symm).symm⟩
      · exact iff_of_true rfl rfl
  · intro i j x y hi hj hx hy hsn
    rcases hsplit hi with ⟨hik, hi'⟩ | ⟨rfl, rfl⟩
    · rcases hsplit hj with ⟨hjk, hj'⟩ | ⟨rfl, rfl⟩
      · exact h.unique i j x y hi' hj' hx hy hsn
      · exact absurd hsn (hc.unique i x hi' hik hx hy)
    · rcases hsplit hj with ⟨hjk, hj'⟩ | ⟨rfl, rfl⟩
      · exact absurd hsn.symm (hc.unique j y hj' hjk hy hx)
      · rfl
  · intro i j x y fd hi hj hx hy
    rcases hsplit hi with ⟨hik, hi'⟩ | ⟨rfl, rfl⟩
    · rcases hsplit hj with ⟨hjk, hj'⟩ | ⟨rfl, rfl⟩
      · exact h.holders i j x y fd hi' hj' hx hy
      · exact absurd hy (hc.holders i x fd hi' hik hx)
    · rcases hsplit hj with ⟨hjk, hj'⟩ | ⟨rfl, rfl⟩
      · exact absurd hx (hc.holders j y fd hj' hjk hy)
      · rfl

/-- A file only changes its state, and is not held by a handle afterwards. -/
theorem Catalogue.changes {k : Nat} {e : Entry} {x : EntryState} {V' : Nat → Bytes} (h : Catalogue g s sb E)
    (hk : E[k]? = some e) (hsound : Entry.Sound { e with state := x } g V')
    (hfile : x.blockStatus.isSome → e.state.blockStatus.isSome) (hheld : ∀ fd, x ≠ .held fd)
    (hfailed : x ≠ .failed)
    (hunique : x = .closed → ∀ (j : Nat) (y : Entry), E[j]? = some y → j ≠ k → y.state = .closed →
      y.serialno ≠ e.serialno) : Changes g E k e { e with state := x } V' where
  entry := hk
  serialno := rfl
  sound := hsound
  plain hx := h.plain e (List.mem_of_getElem? hk) (hfile hx)
  apart j y hj hjk := by
    intro c hc hc'
    refine h.apart j k y e hj hk hjk hc ?_
    cases hx : x.blockStatus with
    | none =>
      unfold Entry.blocks at hc'
      simp only [hx, Option.isSome_none, Bool.false_eq_true, if_false, if_neg hfailed] at hc'
      exact absurd hc' List.not_mem_nil
    | some st =>
      obtain ⟨st', hst'⟩ := Option.isSome_iff_exists.mp (hfile (by rw [hx]; rfl))
      rw [Entry.mem_blocks_of_file hst']
      rwa [Entry.mem_blocks_of_file (e := { e with state := x }) hx] at hc'
  names y hy hfy hx := h.names y hy e (List.mem_of_getElem? hk) hfy (hfile hx)
  unique j y hj hjk hy hx := hunique hx j y hj hjk hy
  holders _ _ fd _ _ _ := hheld fd

/-! ### Calls that read the list -/

variable {R : St → Prop}

/-- The first file with this name. -/
theorem wp_clDirLookup {path : Path} {Q : Option Nat → St → Prop} (h : Catalogue g s sb E)
    (hpath : Addressed path.chars)
    (hfound : ∀ e ∈ E, e.state = .closed → e.name = path.chars → Q (some e.serialno) s)
    (hnone : (∀ e ∈ E, e.state = .closed → e.name ≠ path.chars) → Q none s) :
    wp (clDirLookup g path.chars) Q R s := by
  rw [clDirLookup, wp_bind]
  apply wp_clSnlistInit h.tidy.up h.entries h.head
  intro l hc
  rw [wp_bind]
  apply wp_whileItem_read (fun k (_ : Unit) => ∀ (j : Nat) (e : Entry), j + 1 < k → E[j]? = some e →
    e.state = .closed → e.name ≠ path.chars) h.tidy.up h.entries.list
  · intro k l' t hk hI hgot
    have hitem := hgot.entry h.entries.items hk
    -- the entry for the list itself is passed over
    cases k with
    | zero =>
      have hzero : (SnItem.ofBytes l'.item).serialno = clSerialnoList := by
        rw [hitem]
        rfl
      rw [if_pos hzero, wp_pure]
      exact ⟨rfl, rfl, fun j e hj => absurd hj (by omega)⟩
    | succ k =>
      have hkE : k < E.length := by simpa using hk
      have hget : E[k]? = some E[k] := List.getElem?_eq_getElem hkE
      have hmem : E[k] ∈ E := List.getElem_mem hkE
      have hitem' : SnItem.ofBytes l'.item = E[k].item := by simpa using hitem
      have hserial : (SnItem.ofBytes l'.item).serialno ≠ clSerialnoList := by
        rw [hitem']
        exact Nat.one_le_iff_ne_zero.mp (h.serials _ hmem).1
      rw [if_neg hserial, hitem']
      have hstatus : E[k].item.status = SnStatus.closed ↔ E[k].state = .closed := EntryState.status_eq_closed
      -- the name is compared for a file that is closed only
      by_cases hclosed : E[k].state = .closed
      · have hfile := (h.sound _ hmem).file BlockStatus.closed (by rw [hclosed]; rfl)
        have hplain := h.plain _ hmem (by rw [hclosed]; rfl)
        rw [if_pos (hstatus.mpr hclosed), wp_bind, wp_attempt]
        apply wp_clBlockLoad h.tidy.up (Nat.lt_of_lt_of_le hfile.file.lt (Nat.le_add_right _ _))
        show wp (pure (if strncmpEq nameMax path.chars (blockData (blk s.flash E[k].hdr)) = true then _ else _)) _ R s
        rw [wp_pure]
        refine ⟨rfl, ?_⟩
        by_cases hname : path.chars = E[k].name
        · rw [if_pos ((hfile.stored.strncmpEq_iff hplain hpath).mpr hname)]
          have hle := (h.serials _ hmem).2
          have hbound := h.bound
          show wp (pure (if E[k].serialno = serialnoInvalid then none else some E[k].serialno)) Q R s
          rw [if_neg (by omega), wp_pure]
          exact hfound _ hmem hclosed hname.symm
        · rw [if_neg fun he => hname ((hfile.stored.strncmpEq_iff hplain hpath).mp he)]
          refine ⟨rfl, fun j e hj hje hcl => ?_⟩
          by_cases hjk : j = k
          · subst hjk
            obtain rfl := Option.some.inj (hget.symm.trans hje)
            exact fun he => hname he.symm
          · exact hI j e (by omega) hje hcl
      · rw [if_neg fun hst => hclosed (hstatus.mp hst), wp_pure]
        refine ⟨rfl, rfl, fun j e hj hje hcl => ?_⟩
        by_cases hjk : j = k
        · subst hjk
          obtain rfl := Option.some.inj (hget.symm.trans hje)
          exact absurd hcl hclosed
        · exact hI j e (by omega) hje hcl
  · intro l' _ hI _
    -- no entry was left at
    rw [wp_pure]
    apply hnone
    intro e he hcl
    obtain ⟨j, hj⟩ := List.getElem?_of_mem he
    have hlt : j < E.length := by
      by_contra hge
      rw [List.getElem?_eq_none (Nat.not_lt.mp hge)] at hj
      exact nomatch hj
    exact hI j e (by simpa using hlt) hj hcl
  · exact Nat.zero_le _
  · exact hc
  · intro j e hj
    omega

theorem getElem_cons_item {k : Nat} (hk : k < (zeroEntry :: E.map Entry.item).length) :
    (k = 0 ∧ (zeroEntry :: E.map Entry.item)[k] = zeroEntry) ∨
      ∃ j e, k = j + 1 ∧ E[j]? = some e ∧ (zeroEntry :: E.map Entry.item)[k] = e.item := by
  cases k with
  | zero => exact .inl ⟨rfl, rfl⟩
  | succ j =>
    have hj : j < E.length := by simpa using hk
    exact .inr ⟨j, E[j], rfl, List.getElem?_eq_getElem hj, by simp⟩

/-- An entry of a file with this serial number and status. -/
theorem wp_clSerialnoGet_entry {sn : Nat} {status : UInt8} {Q : Option (Nat × Nat) → St → Prop}
    (h : Catalogue g s sb E) (hsn : 1 ≤ sn)
    (hfound : ∀ k e, E[k]? = some e → e.state.status = status → e.serialno = sn →
      Q (some (e.hdr, addrOf sb (k + 1))) s)
    (hnone : (∀ e ∈ E, ¬(e.state.status = status ∧ e.serialno = sn)) → Q none s) :
    wp (clSerialnoGet g sn status) Q R s := by
  apply wp_clSerialnoGet h.tidy.up h.entries h.head
  · intro k hk hstatus hserial _
    rcases getElem_cons_item hk with ⟨rfl, hzero⟩ | ⟨j, e, rfl, hj, hitem⟩
    · rw [hzero] at hserial
      exact absurd (hsn.trans_eq hserial.symm) (by decide)
    · rw [hitem] at hstatus hserial ⊢
      exact hfound j e hj hstatus hserial
  · intro hno
    apply hnone
    intro e he
    exact hno e.item (List.mem_cons_of_mem _ (List.mem_map_of_mem he))

end

end CoActionOS.Cafs
