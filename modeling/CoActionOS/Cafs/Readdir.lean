import CoActionOS.Lib.Position
import CoActionOS.Cafs.Names

/-!
# Reading the directory

`readdir_r` returns the closed entry at a position that it only counts up, in a list whose entries are appended, closed
and struck between two calls.  `Listing` is one enumeration, from `opendir` until `readdir_r` fails, with calls of other
users of the files at any time.

`complete_of_undisturbed` says that the enumeration returns what exists all the time once as long as no close and no
`unlink` moves a file that stays across the position (`Listing.Undisturbed`).
-/

namespace CoActionOS.Cafs

open Cmd Position

/-! ### The calls -/

structure Dirent where
  name : List UInt8
  ino : Nat
  deriving DecidableEq, Repr

def cafsLiteOpendir (path : List UInt8) : Ret Unit := if path ≠ [] then .error (some .enotdir) else .ok ()

/-- The body of the loop in `cafs_lite_readdir_r`. -/
def readdirBody (g : Geometry) (loc : Nat) (l : ClList) (count : Nat) :
    Cmd St (Loop (ClList × Nat) (Option Dirent)) := do
  let item := SnItem.ofBytes l.item
  if item.status = SnStatus.closed ∧ item.serialno ≠ clSerialnoList then
    if count = loc then do
      match ← (clBlockLoad g item.block).attempt with
      | none => return .done none
      | some d => return .done (some ⟨storedName d, item.serialno⟩)
    else return .next (l, count + 1)
  else return .next (l, count)

/-- `none` is the return value -1. -/
def cafsLiteReaddirR (g : Geometry) (loc : Nat) : Cmd St (Option Dirent) := do
  match ← (clSnlistInit g).attempt with
  | none => return none
  | some l => do
    match ← whileItem g (readdirBody g loc) loopFuel l 0 with
    | .inl r => return r
    | .inr _ => return none

/-! ### An enumeration -/

def SnItem.isFile (i : SnItem) : Bool := i.status = SnStatus.closed ∧ i.serialno ≠ clSerialnoList

/-- The list of serial numbers, as far as it can be read. -/
def snItems (g : Geometry) (s : St) : List SnItem :=
  match snEntries g s with
  | .ok L _ => L
  | _ => []

/-- The files that exist, under their names and serial numbers. -/
def dirents (g : Geometry) (s : St) : List Dirent :=
  ((snItems g s).filter SnItem.isFile).map fun i => ⟨storedName (blk s.flash i.block), i.serialno⟩

/-- An enumeration with the account of what has existed since `opendir`. -/
structure Listing where
  names : Namespace
  /-- `dirp->loc` -/
  loc : Nat
  /-- `readdir_r` has failed -/
  ended : Bool
  returned : List Dirent
  /-- the files that have existed all the time -/
  always : List Dirent
  /-- the files that have existed at some time -/
  ever : List Dirent

namespace Listing

inductive Action
  | call (c : NameCall)
  | readdir

def opendir (g : Geometry) (n : Namespace) (path : List UInt8) : Option Listing :=
  match cafsLiteOpendir path with
  | .error _ => none
  | .ok () => some ⟨n, 0, false, [], dirents g n.fs.st, dirents g n.fs.st⟩

/-- The account of a call. -/
def called (g : Geometry) (x : Listing) (n : Namespace) : Listing :=
  { x with
    names := n
    always := x.always.filter (· ∈ dirents g n.fs.st)
    ever := x.ever ++ dirents g n.fs.st }

/-- The account of `readdir_r`, which moves the position only when it succeeds. -/
def listed (x : Listing) (r : Option Dirent) (s : St) : Listing :=
  let names := { x.names with fs := { x.names.fs with st := s } }
  match r with
  | some d => { x with names := names, loc := x.loc + 1, returned := x.returned ++ [d] }
  | none => { x with names := names, ended := true }

def step (g : Geometry) (x : Listing) : Action → Option (Listing × Option Dirent)
  | .call c => if x.ended then none else (x.names.step g c).map fun p => (x.called g p.1, none)
  | .readdir =>
    if x.ended then none
    else
      match cafsLiteReaddirR g x.loc x.names.fs.st with
      | .ok r s => some (x.listed r s, r)
      | _ => none

/-- Every file that existed all the time is returned once, and no other than one that existed. -/
structure Complete (g : Geometry) (x : Listing) : Prop where
  answers : ∃ r, cafsLiteReaddirR g x.loc x.names.fs.st = .ok r x.names.fs.st
  once : ∀ f ∈ x.always, x.returned.count f ≤ 1
  all : x.ended = true → ∀ f ∈ x.always, x.returned.count f = 1
  existed : ∀ f ∈ x.returned, f ∈ x.ever

/-! ### Calls that leave the enumeration alone -/

/-- The number of files in front of an entry, without another one of its serial number. -/
def filesBefore (L : List SnItem) (k sn : Nat) : Nat := L.countPBefore (fun i => i.isFile && i.serialno != sn) k

/-- Closing entry `k` moves no file across the position.  The file it replaces is on the same side of the position as
the entry; if there is none, no file has been returned from behind the entry. -/
def ClosesInPlace (g : Geometry) (s : St) (loc k : Nat) (i : SnItem) : Prop :=
  (∀ (p : Nat) (d : Dirent), (dirents g s)[p]? = some d → d.ino = i.serialno →
    (p < loc ↔ filesBefore (snItems g s) k i.serialno < loc)) ∧
  ((∀ d ∈ dirents g s, d.ino ≠ i.serialno) →
    loc ≤ filesBefore (snItems g s) k i.serialno ∨ (dirents g s).length < loc)

/-- A handle that writes is closed in place.  A file is removed only behind the position, or when no file is left behind
it, unless it is not removed at all because a handle writes to it. -/
def Undisturbed (g : Geometry) (x : Listing) : NameCall → Prop
  | .open _ _ => True
  | .close fd => ∀ (h : Handle) (k : Nat) (i : SnItem), x.names.fs.handle fd = some h → h.amode.w = true →
    (snItems g x.names.fs.st)[k]? = some i → i.status = SnStatus.opened → i.block = h.hdrBlock →
    ClosesInPlace g x.names.fs.st x.loc k i
  | .unlink path => (dirents g x.names.fs.st).length ≤ x.loc ∨
    ∀ (p : Nat) (d : Dirent), (dirents g x.names.fs.st)[p]? = some d → d.name = path.chars →
      x.loc ≤ p ∨ ∃ i ∈ snItems g x.names.fs.st, i.status = SnStatus.opened ∧ i.serialno = d.ino

def Careful (g : Geometry) (x : Listing) : Action → Prop
  | .call c => x.names.Careful g c ∧ x.Undisturbed g c
  | .readdir => True

end Listing

variable {g : Geometry}

/-! ### What the entries say -/

namespace Entry

def isFile (e : Entry) : Bool := e.state = .closed

def dirent (e : Entry) : Dirent := ⟨e.name, e.serialno⟩

theorem isFile_iff {e : Entry} : e.isFile = true ↔ e.state = .closed := decide_eq_true_iff

end Entry

/-- The files among the entries. -/
def listing (E : List Entry) : List Dirent := (E.filter Entry.isFile).map Entry.dirent

section

variable {s s' : St} {sb sb' : List Nat} {E E' : List Entry}

theorem snItems_eq (h : Catalogue g s sb E) : snItems g s = zeroEntry :: E.map Entry.item := by
  rw [snItems, h.snEntries_eq]

theorem isFile_item (h : Catalogue g s sb E) {e : Entry} (he : e ∈ E) : e.item.isFile = e.isFile := by
  have hserial : e.serialno ≠ clSerialnoList := Nat.one_le_iff_ne_zero.mp (h.serials e he).1
  refine decide_eq_decide.mpr ⟨fun hi => EntryState.status_eq_closed.mp hi.1, fun hi => ?_⟩
  exact ⟨EntryState.status_eq_closed.mpr hi, hserial⟩

theorem dirents_eq (h : Catalogue g s sb E) : dirents g s = listing E := by
  have hzero : zeroEntry.isFile = false := rfl
  rw [dirents, snItems_eq h, List.filter_cons_of_neg (by rw [hzero]; exact Bool.false_ne_true), List.filter_map,
    List.map_map, listing]
  have hfilter : E.filter (SnItem.isFile ∘ Entry.item) = E.filter Entry.isFile :=
    List.filter_congr fun e he => isFile_item h he
  rw [hfilter]
  apply List.map_congr_left
  intro e he
  obtain ⟨he, hfile⟩ := List.mem_filter.mp he
  have hclosed := Entry.isFile_iff.mp hfile
  have hname := storedName_eq (h.closedFile he hclosed).stored (h.plain e he (by rw [hclosed]; rfl))
  show Dirent.mk (storedName (blk s.flash e.hdr)) e.serialno = _
  rw [hname]
  rfl

theorem Catalogue.unique_dirent (h : Catalogue g s sb E) : Unique Entry.isFile Entry.dirent E := by
  intro i j x y hi hj hx hy hxy
  exact h.unique i j x y hi hj (Entry.isFile_iff.mp hx) (Entry.isFile_iff.mp hy) (Dirent.mk.inj hxy).2

/-- The other files in front of an entry, counted in the list of serial numbers. -/
theorem filesBefore_eq (h : Catalogue g s sb E) (k sn : Nat) :
    Listing.filesBefore (snItems g s) (k + 1) sn = E.countPBefore (fun e => e.isFile && e.serialno != sn) k := by
  have hzero : (zeroEntry.isFile && zeroEntry.serialno != sn) = false := rfl
  rw [Listing.filesBefore, snItems_eq h, List.countPBefore_cons_succ, hzero, if_neg Bool.false_ne_true]
  apply countPBefore_congr
  intro i
  rw [List.getElem?_map, Option.any_map]
  cases hi : E[i]? with
  | none => rfl
  | some e =>
    show (e.item.isFile && e.serialno != sn) = (e.isFile && e.serialno != sn)
    rw [isFile_item h (List.mem_of_getElem? hi)]

/-! ### What `readdir_r` returns -/

theorem wp_cafsLiteReaddirR {R : St → Prop} (h : Catalogue g s sb E) (loc : Nat) :
    wp (cafsLiteReaddirR g loc) (fun r s' => s' = s ∧ r = (listing E)[loc]?) R s := by
  rw [← dirents_eq h, dirents, List.getElem?_map, snItems_eq h, cafsLiteReaddirR, wp_bind, wp_attempt]
  apply wp_clSnlistInit h.tidy.up h.entries h.head
  intro l hc
  show wp (whileItem g _ loopFuel l 0 >>= _) _ R s
  rw [wp_bind]
  -- `count` is the number of files in front of item `k`
  apply wp_whileItem_read (fun k count => count = (zeroEntry :: E.map Entry.item).countPBefore SnItem.isFile k ∧
    count ≤ loc) h.tidy.up h.entries.list
  · rintro k l' t hk ⟨rfl, hle⟩ hgot
    have hget : (zeroEntry :: E.map Entry.item)[k]? = some (SnItem.ofBytes l'.item) := by
      rw [hgot.entry h.entries.items hk]
      exact List.getElem?_eq_getElem hk
    have hsucc := countPBefore_succ (p := SnItem.isFile) hget
    rw [readdirBody]
    by_cases hfile : (SnItem.ofBytes l'.item).isFile = true
    · have hitem := of_decide_eq_true hfile
      rw [if_pos hfile] at hsucc
      rw [if_pos hitem]
      by_cases hloc : (zeroEntry :: E.map Entry.item).countPBefore SnItem.isFile k = loc
      · have hfound := getElem?_filter_countPBefore hget hfile
        rw [hloc] at hfound
        have hlt : (SnItem.ofBytes l'.item).block < g.total := by
          rcases List.mem_cons.mp (List.mem_of_getElem? hget) with hzero | hmem
          · rw [hzero] at hitem
            exact absurd rfl hitem.2
          · obtain ⟨e, he, heq⟩ := List.mem_map.mp hmem
            rw [← heq] at hitem ⊢
            exact (h.closedFile he (EntryState.status_eq_closed.mp hitem.1)).file.lt
        rw [if_pos hloc, wp_bind, wp_attempt]
        apply wp_clBlockLoad h.tidy.up (Nat.lt_of_lt_of_le hlt (Nat.le_add_right _ _))
        show wp (pure _) _ R s
        rw [wp_pure]
        refine ⟨rfl, ?_⟩
        show wp (pure _) _ R s
        rw [wp_pure, hfound]
        exact ⟨rfl, rfl⟩
      · rw [if_neg hloc, wp_pure]
        exact ⟨rfl, rfl, hsucc.symm, by omega⟩
    · have hitem : ¬((SnItem.ofBytes l'.item).status = SnStatus.closed ∧
          (SnItem.ofBytes l'.item).serialno ≠ clSerialnoList) := fun hi => hfile (decide_eq_true hi)
      rw [if_neg hfile] at hsucc
      rw [if_neg hitem, wp_pure]
      exact ⟨rfl, rfl, hsucc.symm, hle⟩
  · rintro l' t ⟨rfl, hle⟩ _
    show wp (pure _) _ R s
    rw [wp_pure]
    refine ⟨rfl, ?_⟩
    rw [List.countPBefore_length, List.countP_eq_length_filter] at hle
    rw [List.getElem?_eq_none hle]
    rfl
  · exact Nat.zero_le _
  · exact hc
  · exact ⟨List.countPBefore_zero.symm, Nat.zero_le _⟩

theorem cafsLiteReaddirR_eq (h : Catalogue g s sb E) (loc : Nat) :
    cafsLiteReaddirR g loc s = .ok (listing E)[loc]? s := by
  obtain ⟨r, s', hok, rfl, rfl⟩ := exists_of_wp (wp_cafsLiteReaddirR h loc)
  exact hok

/-! ### What a call does to the listing -/

theorem listing_append {new : List Entry} (hhidden : ∀ e ∈ new, e.state ≠ .closed) :
    listing (E ++ new) = listing E := by
  have hnone : new.filter Entry.isFile = [] :=
    List.filter_eq_nil_iff.mpr fun e he hfile => hhidden e he (Entry.isFile_iff.mp hfile)
  rw [listing, List.filter_append, hnone, List.append_nil, listing]

/-- The older version of a file is struck when the new one is closed. -/
theorem Replaced.eq_set_set {k j : Nat} {e o : Entry} (hr : Replaced E k e E') (h : Catalogue g s sb E)
    (h' : Catalogue g s' sb' E') (hk : k < E.length) (hj : E[j]? = some o) (hold : o.state = .closed)
    (hserial : o.serialno = e.serialno) (hjk : j ≠ k) :
    E' = (E.set k { e with state := .closed }).set j { o with state := .dead } := by
  have hltj := (List.getElem?_eq_some_iff.mp hj).1
  apply List.ext_getElem?
  intro i
  by_cases hij : i = j
  · subst hij
    rw [List.getElem?_set_self (by rwa [List.length_set])]
    rcases hr.others i hjk with hsame | ⟨o', ho', -, -, hdead⟩
    · -- two closed entries would have one serial number
      exact absurd (h'.unique i k o _ (hsame.trans hj) hr.entry hold rfl hserial) hjk
    · obtain rfl := Option.some.inj (hj.symm.trans ho')
      exact hdead
  · rw [List.getElem?_set_ne (Ne.symm hij)]
    by_cases hik : i = k
    · rw [hik, List.getElem?_set_self hk]
      exact hr.entry
    · rw [List.getElem?_set_ne (Ne.symm hik)]
      rcases hr.others i hik with hsame | ⟨o', ho', hold', hserial', -⟩
      · exact hsame
      · exact absurd (h.unique i j o' o ho' hj hold' hold (hserial'.trans hserial.symm)) hij

theorem Replaced.eq_set {k : Nat} {e : Entry} (hr : Replaced E k e E') (hk : k < E.length)
    (hnone : ∀ o ∈ E, ¬(o.state = .closed ∧ o.serialno = e.serialno)) : E' = E.set k { e with state := .closed } := by
  apply List.ext_getElem?
  intro i
  by_cases hik : i = k
  · rw [hik, List.getElem?_set_self hk]
    exact hr.entry
  · rw [List.getElem?_set_ne (Ne.symm hik)]
    rcases hr.others i hik with hsame | ⟨o, ho, hold, hserial, -⟩
    · exact hsame
    · exact absurd ⟨hold, hserial⟩ (hnone o (List.mem_of_getElem? ho))

theorem getElem?_listing {k : Nat} {e : Entry} (hk : E[k]? = some e) (hclosed : e.state = .closed) :
    (listing E)[E.countPBefore Entry.isFile k]? = some e.dirent := by
  rw [listing, List.getElem?_map, getElem?_filter_countPBefore hk (Entry.isFile_iff.mpr hclosed)]
  rfl

/-- A close in place keeps the sides of the position. -/
theorem keepsSide_replaced {loc k fd : Nat} {e : Entry} (h : Catalogue g s sb E) (h' : Catalogue g s' sb' E')
    (hk : E[k]? = some e) (hheld : e.state = .held fd) (hr : Replaced E k e E')
    (hplace : Listing.ClosesInPlace g s loc (k + 1) e.item) : KeepsSide loc (listing E) (listing E') := by
  have hlt := (List.getElem?_eq_some_iff.mp hk).1
  have hunique := h.unique_dirent
  have hunique' := h'.unique_dirent
  have hopen : e.state ≠ .closed := fun hc => nomatch hheld.symm.trans hc
  have hfile : e.isFile = false := decide_eq_false hopen
  have hfile' : ({ e with state := .closed } : Entry).isFile = true := Entry.isFile_iff.mpr rfl
  obtain ⟨hreplace, hadd⟩ := hplace
  rw [dirents_eq h] at hreplace hadd
  rw [filesBefore_eq h] at hreplace hadd
  by_cases hold : ∃ (j : Nat) (o : Entry), E[j]? = some o ∧ o.state = .closed ∧ o.serialno = e.serialno
  · obtain ⟨j, o, hj, hclosed, hserial⟩ := hold
    have hjk : j ≠ k := by
      rintro rfl
      obtain rfl := Option.some.inj (hj.symm.trans hk)
      exact hopen hclosed
    obtain rfl := hr.eq_set_set h h' hlt hj hclosed hserial hjk
    -- the files in front of the entry are those of the list without the older version
    have hcount : E.countPBefore (fun x => x.isFile && x.serialno != e.item.serialno) k =
        (E.set j { o with state := .dead }).countPBefore Entry.isFile k := by
      apply countPBefore_congr
      intro i
      by_cases hij : i = j
      · subst hij
        rw [List.getElem?_set_self (List.getElem?_eq_some_iff.mp hj).1, hj]
        show (o.isFile && o.serialno != e.serialno) = _
        rw [hserial, bne_self_eq_false, Bool.and_false]
        rfl
      · rw [List.getElem?_set_ne (Ne.symm hij)]
        cases hi : E[i]? with
        | none => rfl
        | some x =>
          show (x.isFile && x.serialno != e.serialno) = x.isFile
          by_cases hx : x.isFile = true
          · have hne : x.serialno ≠ e.serialno := fun he =>
              hij (h.unique i j x o hi hj (Entry.isFile_iff.mp hx) hclosed (he.trans hserial.symm))
            rw [hx, bne_iff_ne.mpr hne]
            rfl
          · rw [Bool.not_eq_true] at hx
            rw [hx]
            rfl
    have hname := (h.names o (List.mem_of_getElem? hj) e (List.mem_of_getElem? hk) (by rw [hclosed]; rfl)
      (by rw [hheld]; rfl)).mpr hserial
    have hsame : o.dirent = ({ e with state := .closed } : Entry).dirent := Dirent.mk.injEq _ _ _ _ ▸ ⟨hname, hserial⟩
    apply keepsSide_move hunique hunique' hk hfile hfile' hj (Entry.isFile_iff.mpr hclosed) rfl hsame
    rw [← hcount]
    exact hreplace _ o.dirent (getElem?_listing hj hclosed) hserial
  · have hnone : ∀ o ∈ E, ¬(o.state = .closed ∧ o.serialno = e.serialno) := by
      intro o ho hc
      obtain ⟨j, hj⟩ := List.getElem?_of_mem ho
      exact hold ⟨j, o, hj, hc⟩
    obtain rfl := hr.eq_set hlt hnone
    have hcount : E.countPBefore (fun x => x.isFile && x.serialno != e.item.serialno) k =
        E.countPBefore Entry.isFile k := by
      apply countPBefore_congr
      intro i
      cases hi : E[i]? with
      | none => rfl
      | some x =>
        show (x.isFile && x.serialno != e.serialno) = x.isFile
        by_cases hx : x.isFile = true
        · have hne : x.serialno ≠ e.serialno := fun he =>
            hnone x (List.mem_of_getElem? hi) ⟨Entry.isFile_iff.mp hx, he⟩
          rw [hx, bne_iff_ne.mpr hne]
          rfl
        · rw [Bool.not_eq_true] at hx
          rw [hx]
          rfl
    have hother : ∀ x ∈ E, x.isFile = true → x.dirent ≠ ({ e with state := .closed } : Entry).dirent :=
      fun x hx hxf he => hnone x hx ⟨Entry.isFile_iff.mp hxf, (Dirent.mk.inj he).2⟩
    apply keepsSide_add hunique hunique' hk hfile hfile' hother
    rw [hcount] at hadd
    have hlength : (listing E).length = (E.filter Entry.isFile).length := List.length_map _
    rw [← hlength]
    apply hadd
    intro d hd he
    obtain ⟨i, x, hi, hx, rfl⟩ := mem_map_filter.mp hd
    exact hnone x (List.mem_of_getElem? hi) ⟨Entry.isFile_iff.mp hx, he⟩

/-- Removing a file that no handle writes to keeps the sides when the file, or no file, is behind the position. -/
theorem keepsSide_struck {loc k : Nat} {e : Entry} (h : Catalogue g s sb E)
    (h' : Catalogue g s' sb' (E.set k { e with state := .dead })) (hk : E[k]? = some e) (hclosed : e.state = .closed)
    (hunopened : ∀ x ∈ E, ¬(x.state.status = SnStatus.opened ∧ x.serialno = e.serialno))
    (hplace : (dirents g s).length ≤ loc ∨ ∀ (p : Nat) (d : Dirent), (dirents g s)[p]? = some d → d.name = e.name →
      loc ≤ p ∨ ∃ i ∈ snItems g s, i.status = SnStatus.opened ∧ i.serialno = d.ino) :
    KeepsSide loc (listing E) (listing (E.set k { e with state := .dead })) := by
  apply keepsSide_strike h.unique_dirent h'.unique_dirent hk (Entry.isFile_iff.mpr hclosed) rfl
  rw [dirents_eq h, snItems_eq h] at hplace
  rcases hplace with hle | hbehind
  · right
    rwa [listing, List.length_map] at hle
  · left
    refine (hbehind _ e.dirent (getElem?_listing hk hclosed) rfl).resolve_right ?_
    rintro ⟨i, hi, hstatus, hserial⟩
    rcases List.mem_cons.mp hi with rfl | hi
    · exact absurd hstatus (by decide)
    · obtain ⟨x, hx, rfl⟩ := List.mem_map.mp hi
      exact hunopened x hx ⟨hstatus, hserial⟩

end

namespace Listing

variable {n n' : Namespace} {x x' : Listing} {sb sb' : List Nat} {E E' : List Entry}

theorem keepsSide_of_undisturbed {c : NameCall} (hn : x.names.Kept g sb E) (hn' : n'.Kept g sb' E')
    (hmoves : x.names.Moves E E' c) (hc : x.Undisturbed g c) : KeepsSide x.loc (listing E) (listing E') := by
  cases hmoves with
  | same h =>
    rw [h]
    exact .refl _ _
  | grown new h hhidden =>
    rw [h, listing_append hhidden]
    exact .refl _ _
  | @replaced fd k h e hh hw hk hheld hhdr _ hr =>
    apply keepsSide_replaced hn.catalogue hn'.catalogue hk hheld hr
    apply hc h (k + 1) e.item hh hw
    · rw [snItems_eq hn.catalogue, List.getElem?_cons_succ, List.getElem?_map, hk]
      rfl
    · exact EntryState.status_eq_opened.mpr (.inr (.inr ⟨fd, hheld⟩))
    · exact hhdr.symm
  | @struck path k e hk hclosed hname hunopened h =>
    subst h
    apply keepsSide_struck hn.catalogue hn'.catalogue hk hclosed hunopened
    rw [hname]
    exact hc

/-! ### Runs -/

/-- What an enumeration keeps. -/
structure Kept (g : Geometry) (x : Listing) (sb : List Nat) (E : List Entry) : Prop where
  names : x.names.Kept g sb E
  enumerated : Enumerated (listing E) x.loc x.returned x.always x.ever
  behind : x.ended = true → (listing E)[x.loc]? = none

theorem Kept.start {path : List UInt8} (hn : n.Kept g sb E) (hopen : opendir g n path = some x) : x.Kept g sb E := by
  unfold opendir at hopen
  split at hopen
  · exact nomatch hopen
  · obtain rfl := Option.some.inj hopen
    rw [dirents_eq hn.catalogue]
    exact ⟨hn, .start _, fun h => nomatch h⟩

theorem Kept.call {c : NameCall} {d : Option Dirent} (hx : x.Kept g sb E) (hcareful : x.names.Careful g c)
    (hc : x.Undisturbed g c) (hstep : x.step g (.call c) = some (x', d)) : ∃ sb' E', x'.Kept g sb' E' := by
  rw [step] at hstep
  split_ifs at hstep with hended
  obtain ⟨⟨n', r⟩, hcall, heq⟩ := Option.map_eq_some_iff.mp hstep
  obtain ⟨rfl, -⟩ := Prod.mk.inj heq
  obtain ⟨sb', E', hn', hmoves⟩ := hx.names.step hcareful hcall
  refine ⟨sb', E', hn', ?_, fun h => absurd h hended⟩
  show Enumerated (listing E') x.loc x.returned (x.always.filter (· ∈ dirents g n'.fs.st))
    (x.ever ++ dirents g n'.fs.st)
  rw [dirents_eq hn'.catalogue]
  exact hx.enumerated.edit (keepsSide_of_undisturbed hx.names hn' hmoves hc)

theorem Kept.readdir {d : Option Dirent} (hx : x.Kept g sb E) (hstep : x.step g .readdir = some (x', d)) :
    x'.Kept g sb E := by
  rw [step, cafsLiteReaddirR_eq hx.names.catalogue] at hstep
  split_ifs at hstep with hended
  obtain ⟨rfl, -⟩ := Prod.mk.inj (Option.some.inj hstep)
  cases hd : (listing E)[x.loc]? with
  | none => exact ⟨hx.names, hx.enumerated, fun _ => hd⟩
  | some d =>
    exact ⟨hx.names, hx.enumerated.next hx.names.catalogue.unique_dirent.nodup hd, fun h => absurd h hended⟩

theorem Kept.complete (hx : x.Kept g sb E) : x.Complete g where
  answers := ⟨_, cafsLiteReaddirR_eq hx.names.catalogue _⟩
  once _ hf := hx.enumerated.count_le_one hf
  all hended _ hf := hx.enumerated.count_eq_one (hx.behind hended) hf
  existed := hx.enumerated.existed

end Listing

end CoActionOS.Cafs
