import CoActionOS.Appfs.Memory
import CoActionOS.Errno
import Mathlib.Data.List.Infix

/-!
# Paths

`sysfs_ispathinvalid` looks at the length, the names and the characters of a path; `sysfs_find` looks the path up in the
mount table, and `sysfs_stripmountpath` gives its file system the rest of it.

The loop over the names steps ahead before it looks at a character, so it counts from the second one, and after a
separator it counts the separator with the name.  What that comes to is `ispathinvalid_iff`.  The mount table is searched
for prefixes of the path as a string, which need not end where a name ends; `dispatch_iff` says when they do.
-/

namespace CoActionOS

namespace Sysfs

open Appfs (sysfsValid)

def slash : UInt8 := 0x2F

/-- The characters of a string in front of the terminating zero. -/
structure CString where
  chars : List UInt8
  nonzero : 0 ∉ chars

/-- The parts of a path between its separators. -/
def components (path : List UInt8) : List (List UInt8) := path.splitOn slash

/-- The components of a path that are not empty. -/
def names (path : List UInt8) : List (List UInt8) := (components path).filter fun name => !name.isEmpty

/-! ### Validation -/

namespace CString

variable (path : CString)

def strnlen (max : Nat) : Nat := min path.chars.length max

/-- `strspn(path, sysfs_validset)` -/
def strspn : Nat := (path.chars.takeWhile sysfsValid).length

end CString

/-- The loop of `isinvalid` at the characters that follow what `p` has stepped over: a name is too long. -/
def nameTooLong (nameMax : Nat) : Nat → List UInt8 → Bool
  | tmp, [] => decide (tmp > nameMax)
  | tmp, c :: cs =>
    if c = slash then if tmp > nameMax then true else nameTooLong nameMax 1 cs else nameTooLong nameMax (tmp + 1) cs

/-- The error number, if there is one.  There is no answer where the loop steps over the terminating zero. -/
def isinvalid (nameMax : Nat) (path : CString) (max : Nat) : Option (Option Errno) :=
  let len := path.strnlen max
  if len = max then some (some .enametoolong)
  else
    match path.chars with
    | [] => none
    | _ :: cs =>
      if nameTooLong nameMax 0 cs then some (some .enametoolong)
      else if len ≠ path.strspn then some (some .einval)
      else some none

def sysfsIspathinvalid (pathMax nameMax : Nat) (path : CString) : Option (Option Errno) := isinvalid nameMax path pathMax

/-- A path that may be used. -/
structure Admissible (pathMax nameMax : Nat) (path : CString) : Prop where
  length : path.chars.length < pathMax
  valid : ∀ c ∈ path.chars, sysfsValid c = true
  names : ∀ name ∈ components path.chars, name.length ≤ nameMax

/-- The path is looked at only up to its end, and reported valid exactly when it is admissible. -/
def Validates (pathMax nameMax : Nat) (path : CString) : Prop :=
  ∃ errno, sysfsIspathinvalid pathMax nameMax path = some errno ∧ (errno = none ↔ Admissible pathMax nameMax path)

/-- The miscounts of the loop do not matter: the string has a first character; it does not begin with a name that is one
character too long in front of names that are all shorter than is allowed; and where no name is too long, no name behind
the first that is counted is as long as is allowed. -/
structure CountsRight (nameMax : Nat) (path : List UInt8) : Prop where
  nonempty : path ≠ []
  first : (∀ name ∈ (components path).tail, name.length < nameMax) →
    ∀ name ∈ (components path).head?, name.length ≠ nameMax + 1
  later : (∀ name ∈ components path, name.length ≤ nameMax) →
    ∀ name ∈ (components path.tail).tail, name.length ≠ nameMax

theorem components_cons (c : UInt8) (cs : List UInt8) :
    components (c :: cs) = if c = slash then [] :: components cs else (components cs).modifyHead (c :: ·) := by
  unfold components
  rw [List.splitOn_cons_eq_if_modifyHead]
  simp only [beq_iff_eq]

theorem components_eq_cons (path : List UInt8) : ∃ first later, components path = first :: later :=
  List.exists_cons_of_ne_nil (List.splitOn_ne_nil slash path)

/-- The loop finds the first name too long with `tmp` more characters, and the names behind it with one more. -/
theorem nameTooLong_eq_false_iff {nameMax : Nat} (cs : List UInt8) : ∀ {tmp : Nat} {first : List UInt8}
    {later : List (List UInt8)}, components cs = first :: later →
      (nameTooLong nameMax tmp cs = false ↔
        tmp + first.length ≤ nameMax ∧ ∀ name ∈ later, name.length < nameMax) := by
  induction cs with
  | nil =>
    intro tmp first later hcs
    cases hcs
    simp [nameTooLong]
  | cons c cs ih =>
    intro tmp first later hcs
    obtain ⟨first', later', hcs'⟩ := components_eq_cons cs
    rw [components_cons, hcs'] at hcs
    unfold nameTooLong
    by_cases hc : c = slash
    · rw [if_pos hc] at hcs ⊢
      cases hcs
      rw [List.forall_mem_cons]
      by_cases htmp : tmp > nameMax
      · rw [if_pos htmp]
        simp only [List.length_nil, Nat.add_zero]
        exact iff_of_false (by exact nofun) fun hle => absurd hle.1 (Nat.not_le_of_lt htmp)
      · rw [if_neg htmp, ih hcs']
        simp only [List.length_nil, Nat.add_zero]
        rw [Nat.add_comm, Nat.succ_le_iff]
        exact (and_iff_right (Nat.le_of_not_lt htmp)).symm
    · rw [if_neg hc] at hcs ⊢
      cases hcs
      rw [ih hcs', List.length_cons, Nat.add_assoc, Nat.add_comm 1]

theorem strspn_eq_iff (path : CString) :
    path.chars.length = path.strspn ↔ ∀ c ∈ path.chars, sysfsValid c = true := by
  unfold CString.strspn
  rw [← List.takeWhile_eq_self_iff]
  constructor
  · intro hlen
    exact (List.takeWhile_prefix sysfsValid).eq_of_length hlen.symm
  · intro heq
    rw [heq]

/-- The loop finds no name too long exactly when none is, where the miscounts do not matter. -/
theorem nameTooLong_iff_of_countsRight {nameMax : Nat} {c : UInt8} {cs : List UInt8} :
    (nameTooLong nameMax 0 cs = false ↔ ∀ name ∈ components (c :: cs), name.length ≤ nameMax) ↔
      CountsRight nameMax (c :: cs) := by
  obtain ⟨first, later, hcs⟩ := components_eq_cons cs
  rw [nameTooLong_eq_false_iff cs hcs, Nat.zero_add]
  have hlater : (components (c :: cs).tail).tail = later := by
    rw [List.tail_cons, hcs, List.tail_cons]
  -- a leading slash makes an empty first component
  by_cases hc : c = slash
  · have hcons : components (c :: cs) = [] :: first :: later := by
      rw [components_cons, if_pos hc, hcs]
    have hlong : ∀ name ∈ (components (c :: cs)).head?, name.length ≠ nameMax + 1 := by
      intro name hname
      rw [hcons] at hname
      cases hname
      exact Nat.succ_ne_zero nameMax |>.symm
    rw [hcons, List.forall_mem_cons, List.forall_mem_cons]
    constructor
    · intro hiff
      refine ⟨List.cons_ne_nil _ _, fun _ => hlong, fun hall name hname heq => ?_⟩
      rw [hlater] at hname
      rw [hcons, List.forall_mem_cons, List.forall_mem_cons] at hall
      exact absurd ((hiff.mpr hall).2 name hname) (by omega)
    · intro hcounts
      constructor
      · rintro ⟨hfirst, hall⟩
        exact ⟨Nat.zero_le _, hfirst, fun name hname => Nat.le_of_lt (hall name hname)⟩
      · rintro ⟨hnil, hfirst, hall⟩
        refine ⟨hfirst, fun name hname => Nat.lt_of_le_of_ne (hall name hname) ?_⟩
        refine hcounts.later ?_ name (by rw [hlater]; exact hname)
        rw [hcons, List.forall_mem_cons, List.forall_mem_cons]
        exact ⟨hnil, hfirst, hall⟩
  -- the first byte is of the first component, which the loop counts without it
  · have hcons : components (c :: cs) = (c :: first) :: later := by
      rw [components_cons, if_neg hc, hcs]
      rfl
    rw [hcons, List.forall_mem_cons, List.length_cons]
    constructor
    · intro hiff
      refine ⟨List.cons_ne_nil _ _, fun hall name hname heq => ?_, fun hall name hname heq => ?_⟩
      · rw [hcons] at hall hname
        cases hname
        rw [List.length_cons] at heq
        have hle := (hiff.mp ⟨by omega, hall⟩).1
        omega
      · rw [hlater] at hname
        rw [hcons, List.forall_mem_cons, List.length_cons] at hall
        exact absurd ((hiff.mpr hall).2 name hname) (by omega)
    · intro hcounts
      constructor
      · rintro ⟨hfirst, hall⟩
        have hne := hcounts.first (by rw [hcons]; exact hall) (c :: first) (by rw [hcons]; rfl)
        rw [List.length_cons] at hne
        exact ⟨by omega, fun name hname => Nat.le_of_lt (hall name hname)⟩
      · rintro ⟨hfirst, hall⟩
        refine ⟨by omega, fun name hname => Nat.lt_of_le_of_ne (hall name hname) ?_⟩
        refine hcounts.later ?_ name (by rw [hlater]; exact hname)
        rw [hcons, List.forall_mem_cons, List.length_cons]
        exact ⟨hfirst, hall⟩

/-- `sysfs_ispathinvalid` says what it is to say of every path that is too long or has another character in it, and of
those whose names it counts right. -/
theorem ispathinvalid_iff (pathMax nameMax : Nat) (path : CString) :
    Validates pathMax nameMax path ↔
      pathMax ≤ path.chars.length ∨
        path.chars ≠ [] ∧ ((∀ c ∈ path.chars, sysfsValid c = true) → CountsRight nameMax path.chars) := by
  unfold Validates sysfsIspathinvalid isinvalid CString.strnlen
  by_cases hmax : pathMax ≤ path.chars.length
  · rw [if_pos (Nat.min_eq_right hmax)]
    refine iff_of_true ⟨_, rfl, iff_of_false (fun h => by cases h) fun hadm => ?_⟩ (.inl hmax)
    exact absurd hadm.length (Nat.not_lt_of_le hmax)
  · have hlen : min path.chars.length pathMax = path.chars.length := Nat.min_eq_left (by omega)
    simp only [hlen]
    rw [if_neg (by omega), or_iff_right hmax]
    cases hchars : path.chars with
    | nil => exact iff_of_false (by rintro ⟨_, ⟨⟩, -⟩) fun h => h.1 rfl
    | cons c cs =>
      have hadm : Admissible pathMax nameMax path ↔
          (∀ c ∈ path.chars, sysfsValid c = true) ∧ ∀ name ∈ components (c :: cs), name.length ≤ nameMax := by
        constructor
        · intro h
          exact ⟨h.valid, hchars ▸ h.names⟩
        · rintro ⟨hvalid, hnames⟩
          exact ⟨by omega, hvalid, hchars ▸ hnames⟩
      rw [and_iff_right (List.cons_ne_nil c cs), ← nameTooLong_iff_of_countsRight]
      have hspan := strspn_eq_iff path
      rw [hchars] at hadm hspan
      rw [hadm, ← hspan]
      rw [List.length_cons]
      by_cases hvalid : cs.length + 1 = path.strspn
      · cases hlong : nameTooLong nameMax 0 cs <;> simp [hvalid, hlong]
      · cases hlong : nameTooLong nameMax 0 cs <;> simp [hvalid, hlong]

/-- The empty string is looked at behind its end. -/
theorem not_validates : ¬ ∀ (pathMax nameMax : Nat) (path : CString), Validates pathMax nameMax path := by
  intro h
  obtain ⟨errno, heq, -⟩ := h 64 24 ⟨[], List.not_mem_nil⟩
  exact nomatch heq

/-! ### Dispatch -/

/-- An entry of the mount table. -/
structure SysfsT where
  mountPath : CString

/-- What the loop of `sysfs_find` asks of an entry. -/
def accepts (path : CString) (needsParent : Bool) (fs : SysfsT) : Bool :=
  fs.mountPath.chars.isPrefixOf path.chars &&
    (!needsParent || decide (path.chars.length > fs.mountPath.chars.length + 1) || path.chars.length == 1)

def sysfsFind (sysfsList : List SysfsT) (path : CString) (needsParent : Bool) : Option SysfsT :=
  sysfsList.find? (accepts path needsParent)

def sysfsStripmountpath (fs : SysfsT) (path : CString) : List UInt8 :=
  let path := path.chars.drop fs.mountPath.chars.length
  if path.head? = some slash then path.tail else path

/-- No component of the path has characters on both sides of this position. -/
def Boundary (path : List UInt8) (k : Nat) : Prop :=
  (path.take k).getLast? = some slash ∨ path.take k = [] ∨ path.drop k = [] ∨ (path.drop k).head? = some slash

/-- The mount path is `/`. -/
def SysfsT.IsRoot (fs : SysfsT) : Prop := fs.mountPath.chars = [slash]

/-- The file system is mounted on an ancestor of the path or on the path. -/
def SysfsT.Over (fs : SysfsT) (path : CString) : Prop := names fs.mountPath.chars <+: names path.chars

/-- A path that is under no other mount than the root goes to the root. -/
def RootLast (sysfsList : List SysfsT) (path : CString) (needsParent : Bool) : Prop :=
  (∃ fs ∈ sysfsList, fs.IsRoot) → (∀ fs ∈ sysfsList, fs.Over path → fs.IsRoot) →
    ∃ fs, sysfsFind sysfsList path needsParent = some fs ∧ fs.IsRoot

/-- What is to hold of the dispatch of two paths. -/
structure Dispatches (sysfsList : List SysfsT) (path path' : CString) (needsParent needsParent' : Bool) : Prop where
  boundary : ∀ fs ∈ sysfsFind sysfsList path needsParent, Boundary path.chars fs.mountPath.chars.length
  boundary' : ∀ fs ∈ sysfsFind sysfsList path' needsParent', Boundary path'.chars fs.mountPath.chars.length
  injective : ∀ fs ∈ sysfsFind sysfsList path needsParent, ∀ fs' ∈ sysfsFind sysfsList path' needsParent',
    names path.chars ≠ names path'.chars →
      fs ≠ fs' ∨ names (sysfsStripmountpath fs path) ≠ names (sysfsStripmountpath fs' path')
  root : RootLast sysfsList path needsParent
  root' : RootLast sysfsList path' needsParent'

/-- An entry whose mount path ends inside a name of the path comes after one that is accepted; and a name of one
character that is to have a parent is under another mount than the root. -/
structure Clear (sysfsList : List SysfsT) (path : CString) (needsParent : Bool) : Prop where
  earlier : ∀ before fs after, sysfsList = before ++ fs :: after → accepts path needsParent fs = true →
    ¬ Boundary path.chars fs.mountPath.chars.length → ∃ fs' ∈ before, accepts path needsParent fs' = true
  parent : needsParent = true → path.chars.length = 2 → (∃ fs ∈ sysfsList, fs.IsRoot) →
    ∃ fs ∈ sysfsList, fs.Over path ∧ ¬ fs.IsRoot

theorem names_append_slash (l r : List UInt8) : names (l ++ slash :: r) = names l ++ names r := by
  unfold names components
  rw [List.splitOn_append_cons_self, List.filter_append]

theorem names_cons_slash (r : List UInt8) : names (slash :: r) = names r := by
  have h := names_append_slash [] r
  rwa [List.nil_append] at h

theorem names_append_of_slash (l : List UInt8) : names (l ++ [slash]) = names l := by
  rw [names_append_slash]
  exact List.append_nil _

/-- At a boundary the names are those in front of it and those behind it. -/
theorem names_of_boundary {path : List UInt8} {k : Nat} (h : Boundary path k) :
    names path = names (path.take k) ++ names (path.drop k) := by
  conv_lhs => rw [← List.take_append_drop k path]
  rcases h with hlast | hnil | hnil | hhead
  · obtain ⟨l, hl⟩ := List.getLast?_eq_some_iff.mp hlast
    rw [hl, List.append_assoc, List.singleton_append, names_append_slash, names_append_of_slash]
  · rw [hnil]
    rfl
  · rw [hnil, List.append_nil]
    exact (List.append_nil _).symm
  · obtain ⟨r, hr⟩ := List.head?_eq_some_iff.mp hhead
    rw [hr, names_append_slash, names_cons_slash]

theorem names_stripmountpath (fs : SysfsT) (path : CString) :
    names (sysfsStripmountpath fs path) = names (path.chars.drop fs.mountPath.chars.length) := by
  unfold sysfsStripmountpath
  simp only
  split_ifs with hhead
  · obtain ⟨r, hr⟩ := List.head?_eq_some_iff.mp hhead
    rw [hr, List.tail_cons, names_cons_slash]
  · rfl

theorem prefix_of_accepts {path : CString} {needsParent : Bool} {fs : SysfsT} (h : accepts path needsParent fs = true) :
    fs.mountPath.chars <+: path.chars := by
  unfold accepts at h
  rw [Bool.and_eq_true, List.isPrefixOf_iff_prefix] at h
  exact h.1

/-- What is accepted at a boundary is over the path. -/
theorem names_of_accepts {path : CString} {needsParent : Bool} {fs : SysfsT} (h : accepts path needsParent fs = true)
    (hb : Boundary path.chars fs.mountPath.chars.length) :
    names path.chars = names fs.mountPath.chars ++ names (sysfsStripmountpath fs path) := by
  rw [names_of_boundary hb, names_stripmountpath, ← List.prefix_iff_eq_take.mp (prefix_of_accepts h)]

theorem Clear.boundary {sysfsList : List SysfsT} {path : CString} {needsParent : Bool}
    (h : Clear sysfsList path needsParent) {fs : SysfsT} (hfs : sysfsFind sysfsList path needsParent = some fs) :
    accepts path needsParent fs = true ∧ Boundary path.chars fs.mountPath.chars.length := by
  obtain ⟨haccepts, before, after, hlist, hbefore⟩ := List.find?_eq_some_iff_append.mp hfs
  refine ⟨haccepts, ?_⟩
  by_contra hb
  obtain ⟨fs', hmem, hfs'⟩ := h.earlier before fs after hlist haccepts hb
  have hno := hbefore fs' hmem
  rw [hfs'] at hno
  exact nomatch hno

/-- The root accepts every absolute path but a name of one character that is to have a parent. -/
theorem accepts_root {path : CString} {needsParent : Bool} {fs : SysfsT} (hroot : fs.IsRoot)
    (habs : path.chars.head? = some slash) :
    accepts path needsParent fs = true ↔ ¬ (needsParent = true ∧ path.chars.length = 2) := by
  obtain ⟨rest, hpath⟩ := List.head?_eq_some_iff.mp habs
  unfold accepts
  rw [hroot, hpath]
  cases needsParent with
  | false => simp
  | true =>
    have hlen : rest.length + 1 > 1 + 1 ∨ rest.length + 1 = 1 ↔ ¬ rest.length + 1 = 2 := by omega
    simpa using hlen

theorem clear_of_boundary {sysfsList : List SysfsT} {path : CString} {needsParent : Bool}
    (habs : path.chars.head? = some slash)
    (hboundary : ∀ fs ∈ sysfsFind sysfsList path needsParent, Boundary path.chars fs.mountPath.chars.length)
    (hroot : RootLast sysfsList path needsParent) : Clear sysfsList path needsParent where
  earlier before fs after hlist haccepts hb := by
    by_contra hnone
    refine hb (hboundary fs (List.find?_eq_some_iff_append.mpr ⟨haccepts, before, after, hlist, fun fs' hmem => ?_⟩))
    rw [Bool.not_eq_true', Bool.eq_false_iff]
    exact fun hfs' => hnone ⟨fs', hmem, hfs'⟩
  parent hneeds hlen hex := by
    by_contra hover
    push Not at hover
    obtain ⟨fs, hfs, hfsroot⟩ := hroot hex hover
    exact accepts_root hfsroot habs |>.mp (List.find?_some hfs) ⟨hneeds, hlen⟩

theorem Clear.rootLast {sysfsList : List SysfsT} {path : CString} {needsParent : Bool}
    (h : Clear sysfsList path needsParent) (habs : path.chars.head? = some slash) :
    RootLast sysfsList path needsParent := by
  rintro ⟨root, hmem, hroot⟩ hover
  have haccepts : accepts path needsParent root = true := by
    refine (accepts_root hroot habs).mpr fun hshort => ?_
    obtain ⟨fs, hfs, hfsover, hnot⟩ := h.parent hshort.1 hshort.2 ⟨root, hmem, hroot⟩
    exact hnot (hover fs hfs hfsover)
  cases hfind : sysfsFind sysfsList path needsParent with
  | none => exact absurd haccepts (List.find?_eq_none.mp hfind root hmem)
  | some fs =>
    obtain ⟨hfs, hb⟩ := h.boundary hfind
    refine ⟨fs, rfl, hover fs (List.mem_of_find?_eq_some hfind) ?_⟩
    unfold SysfsT.Over
    rw [names_of_accepts hfs hb]
    exact List.prefix_append _ _

/-- Two paths are dispatched by their names exactly when an entry that ends inside a name comes after one that is
accepted, and no name of one character is to have the root for its parent. -/
theorem dispatch_iff (sysfsList : List SysfsT) (path path' : CString) (needsParent needsParent' : Bool)
    (habs : path.chars.head? = some slash) (habs' : path'.chars.head? = some slash) :
    Dispatches sysfsList path path' needsParent needsParent' ↔
      Clear sysfsList path needsParent ∧ Clear sysfsList path' needsParent' := by
  constructor
  · intro h
    exact ⟨clear_of_boundary habs h.boundary h.root, clear_of_boundary habs' h.boundary' h.root'⟩
  · rintro ⟨h, h'⟩
    refine ⟨fun fs hfs => (h.boundary hfs).2, fun fs hfs => (h'.boundary hfs).2, fun fs hfs fs' hfs' hne => ?_,
      h.rootLast habs, h'.rootLast habs'⟩
    by_contra hsame
    push Not at hsame
    obtain ⟨rfl, hnames⟩ := hsame
    obtain ⟨haccepts, hb⟩ := h.boundary hfs
    obtain ⟨haccepts', hb'⟩ := h'.boundary hfs'
    apply hne
    rw [names_of_accepts haccepts hb, names_of_accepts haccepts' hb', hnames]

/-- `/home`, `/` and the paths `/home/work` and `/homework`. -/
def home : List UInt8 := [0x2F, 0x68, 0x6F, 0x6D, 0x65]
def work : List UInt8 := [0x77, 0x6F, 0x72, 0x6B]

def homeTable : List SysfsT := [⟨home, by decide⟩, ⟨[slash], by decide⟩]

def homeSlashWork : CString := ⟨home ++ slash :: work, by decide⟩
def homework : CString := ⟨home ++ work, by decide⟩
def workPath : CString := ⟨slash :: work, by decide⟩

theorem dispatch_iff_homeSlashWork :
    Dispatches homeTable homeSlashWork workPath true true ↔
      Clear homeTable homeSlashWork true ∧ Clear homeTable workPath true :=
  dispatch_iff homeTable homeSlashWork workPath true true rfl rfl

/-- `/home/work` and `/homework` are the same file of the file system on `/home`. -/
theorem not_dispatches : ¬ ∀ (sysfsList : List SysfsT) (path path' : CString) (needsParent needsParent' : Bool),
    path.chars.head? = some slash → path'.chars.head? = some slash → Admissible 64 24 path → Admissible 64 24 path' →
      Dispatches sysfsList path path' needsParent needsParent' := by
  intro h
  have hdispatch := h homeTable homeSlashWork homework true true rfl rfl
    ⟨by decide, List.all_eq_true.mp (by decide), by decide⟩ ⟨by decide, List.all_eq_true.mp (by decide), by decide⟩
  rcases hdispatch.injective _ rfl _ rfl (by decide) with hne | hne
  · exact hne rfl
  · exact hne (by decide)

end Sysfs

end CoActionOS
