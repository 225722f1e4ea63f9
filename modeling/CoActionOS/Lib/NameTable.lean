import Mathlib.Data.List.Count
import Mathlib.Data.List.Forall2
import Mathlib.Logic.Function.Basic

/-!
# Named objects in slots

A table of slots, in which an object has a name and a count of its handles.  A handle is the number of a slot; a slot
whose object is gone is used again.  `Shows` says what the table is by its names alone, `Sound` that every handle is one
of the object it was given for.

All that is done to such a table is to put another content into a slot, or at the end: `Shows.place` and `Sound.place`.
-/

namespace CoActionOS

namespace NameTable

open Function

structure Object (N V : Type*) where
  name : N
  holders : Nat
  /-- it goes with its last handle -/
  doomed : Bool
  value : V
  deriving DecidableEq, Repr

abbrev Slots (N V : Type*) := List (Option (Object N V))

variable {N V : Type*} {t : Slots N V} {i j : Nat} {o o' : Object N V} {n : N} {x : Option (Object N V)}

/-- The object in a slot. -/
def Live (t : Slots N V) (i : Nat) (o : Object N V) : Prop := t[i]? = some (some o)

theorem Live.eq (h : Live t i o) (h' : Live t i o') : o = o' :=
  Option.some.inj (Option.some.inj (h.symm.trans h'))

/-- Another content for a slot, or for the first one behind the end. -/
def place (t : Slots N V) (i : Nat) (x : Option (Object N V)) : Slots N V :=
  if i < t.length then t.set i x else t ++ [x]

theorem live_place (hi : i ≤ t.length) : Live (place t i x) j o ↔ if j = i then x = some o else Live t j o := by
  rw [Live, place]
  by_cases hlt : i < t.length
  · rw [if_pos hlt, List.getElem?_set]
    by_cases hj : j = i
    · subst hj
      simp [hlt]
    · rw [if_neg hj, if_neg (Ne.symm hj), Live]
  · obtain rfl : i = t.length := by omega
    rw [if_neg hlt]
    by_cases hj : j = t.length
    · subst hj
      simp
    · rw [if_neg hj, Live, List.getElem?_append]
      by_cases hjlt : j < t.length
      · rw [if_pos hjlt]
      · have hnone : t[j]? = none := List.getElem?_eq_none (by omega)
        have hnone' : [x][j - t.length]? = none := List.getElem?_eq_none (by simp; omega)
        rw [if_neg hjlt, hnone, hnone']

/-- No two objects have one name. -/
def Distinct (t : Slots N V) : Prop := ∀ i j o o', Live t i o → Live t j o' → o.name = o'.name → i = j

/-- The name is that of no other slot. -/
def Alone (t : Slots N V) (i : Nat) (n : N) : Prop := ∀ j o, Live t j o → (j = i ↔ o.name = n)

theorem Distinct.alone (h : Distinct t) (hlive : Live t i o) : Alone t i o.name := by
  intro j o' hj
  constructor
  · rintro rfl
    rw [hj.eq hlive]
  · intro hname
    exact h j i o' o hj hlive hname

theorem alone_of_new (hfree : ∀ o, ¬ Live t i o) (hnew : ∀ j o, Live t j o → o.name ≠ n) : Alone t i n := by
  intro j o hj
  exact iff_of_false (fun hji => hfree o (hji ▸ hj)) (hnew j o hj)

theorem Distinct.place (h : Distinct t) (hi : i ≤ t.length) (halone : Alone t i n) (hx : ∀ o, x = some o → o.name = n) :
    Distinct (place t i x) := by
  intro j l o o' hj hl hname
  rw [live_place hi] at hj hl
  split at hj <;> split at hl
  · next hji hli => rw [hji, hli]
  · next hji hli =>
    rw [hx o hj] at hname
    exact absurd ((halone l o' hl).mpr hname.symm) hli
  · next hji hli =>
    rw [hx o' hl] at hname
    exact absurd ((halone j o hj).mpr hname) hji
  · exact h j l o o' hj hl hname

/-- What there is under each name. -/
def Shows (t : Slots N V) (objects : N → Option (Object N V)) : Prop :=
  ∀ n o, objects n = some o ↔ ∃ i, Live t i o ∧ o.name = n

theorem Shows.place [DecidableEq N] {objects : N → Option (Object N V)} (h : Shows t objects) (hi : i ≤ t.length)
    (halone : Alone t i n) (hx : ∀ o, x = some o → o.name = n) : Shows (place t i x) (update objects n x) := by
  intro m o
  by_cases hm : m = n
  · subst hm
    rw [update_self]
    constructor
    · intro ho
      exact ⟨i, (live_place hi).mpr (by rwa [if_pos rfl]), hx o ho⟩
    · rintro ⟨j, hj, hname⟩
      rw [live_place hi] at hj
      split at hj
      · exact hj
      · next hji => exact absurd ((halone j o hj).mpr hname) hji
  · rw [update_of_ne hm, h m o]
    constructor
    · rintro ⟨j, hj, hname⟩
      have hji : j ≠ i := fun hji => hm (hname.symm.trans ((halone j o hj).mp hji))
      exact ⟨j, (live_place hi).mpr (by rwa [if_neg hji]), hname⟩
    · rintro ⟨j, hj, hname⟩
      rw [live_place hi] at hj
      split at hj
      · exact absurd (hname.symm.trans (hx o hj)) hm
      · exact ⟨j, hj, hname⟩

/-- The handles that are out, each with the name it was opened by. -/
abbrev Handles (N : Type*) := List (Nat × N)

/-- How many handles of a slot are out. -/
def Handles.count (held : Handles N) (i : Nat) : Nat := (held.map Prod.fst).count i

structure Sound (t : Slots N V) (held : Handles N) : Prop where
  distinct : Distinct t
  backed : ∀ i n, (i, n) ∈ held → ∃ o, Live t i o ∧ o.name = n
  counted : ∀ i o, Live t i o → o.holders = held.count i
  needed : ∀ i o, Live t i o → o.doomed = true → 0 < o.holders

theorem sound_nil : Sound ([] : Slots N V) [] := by
  refine ⟨?_, ?_, ?_, ?_⟩
  · intro i j o o' hi
    simp [Live] at hi
  · intro i n hmem
    exact absurd hmem List.not_mem_nil
  · intro i o hi
    simp [Live] at hi
  · intro i o hi
    simp [Live] at hi

theorem Sound.place {held held' : Handles N} (h : Sound t held) (hi : i ≤ t.length) (halone : Alone t i n)
    (hx : ∀ o, x = some o → o.name = n ∧ o.holders = held'.count i ∧ (o.doomed = true → 0 < o.holders))
    (hmem : ∀ j m, (j, m) ∈ held' → if j = i then m = n ∧ x ≠ none else (j, m) ∈ held)
    (hcount : ∀ j, j ≠ i → held'.count j = held.count j) : Sound (NameTable.place t i x) held' := by
  refine ⟨h.distinct.place hi halone fun o ho => (hx o ho).1, ?_, ?_, ?_⟩
  · intro j m hj
    have hcase := hmem j m hj
    split at hcase
    · next hji =>
      obtain ⟨rfl, hne⟩ := hcase
      obtain ⟨o, ho⟩ := Option.ne_none_iff_exists'.mp hne
      exact ⟨o, (live_place hi).mpr (by rwa [if_pos hji]), (hx o ho).1⟩
    · next hji =>
      obtain ⟨o, hlive, hname⟩ := h.backed j m hcase
      exact ⟨o, (live_place hi).mpr (by rwa [if_neg hji]), hname⟩
  · intro j o hj
    rw [live_place hi] at hj
    split at hj
    · next hji => rw [(hx o hj).2.1, hji]
    · next hji => rw [h.counted j o hj, hcount j hji]
  · intro j o hj hdoomed
    rw [live_place hi] at hj
    split at hj
    · exact (hx o hj).2.2 hdoomed
    · exact h.needed j o hj hdoomed

/-! ### What is done to an object -/

section

variable {held : Handles N}

theorem Handles.count_cons_self (held : Handles N) (i : Nat) (n : N) :
    Handles.count ((i, n) :: held) i = held.count i + 1 := by
  simp [Handles.count]

theorem Handles.count_cons_of_ne (held : Handles N) (n : N) (hji : j ≠ i) :
    Handles.count ((i, n) :: held) j = held.count j := by
  simp [Handles.count, Ne.symm hji]

theorem Sound.count_eq_zero (h : Sound t held) (hfree : ∀ o, ¬ Live t i o) : held.count i = 0 := by
  rw [Handles.count, List.count_eq_zero]
  intro hmem
  obtain ⟨⟨i', n⟩, hheld, rfl⟩ := List.mem_map.mp hmem
  obtain ⟨o, hlive, -⟩ := h.backed i' n hheld
  exact hfree o hlive

/-- An object is made, with its first handle. -/
theorem Sound.create (h : Sound t held) (hi : i ≤ t.length) (hfree : ∀ o, ¬ Live t i o)
    (hnew : ∀ j o, Live t j o → o.name ≠ n) (v : V) :
    Sound (NameTable.place t i (some ⟨n, 1, false, v⟩)) ((i, n) :: held) := by
  refine h.place hi (alone_of_new hfree hnew) ?_ ?_ ?_
  · rintro o ⟨⟩
    refine ⟨rfl, ?_, fun hdoomed => absurd hdoomed Bool.false_ne_true⟩
    rw [Handles.count_cons_self, h.count_eq_zero hfree]
  · intro j m hmem
    rcases List.mem_cons.mp hmem with heq | hmem
    · obtain ⟨rfl, rfl⟩ := Prod.mk.inj heq
      rw [if_pos rfl]
      exact ⟨rfl, Option.some_ne_none _⟩
    · obtain ⟨o, hlive, -⟩ := h.backed j m hmem
      have hji : j ≠ i := fun hji => hfree o (hji ▸ hlive)
      rw [if_neg hji]
      exact hmem
  · intro j hji
    exact Handles.count_cons_of_ne held n hji

theorem Live.le_length (h : Live t i o) : i ≤ t.length := Nat.le_of_lt (List.getElem?_eq_some_iff.mp h).1

theorem Sound.name_eq (h : Sound t held) (hlive : Live t i o) {m : N} (hmem : (i, m) ∈ held) : m = o.name := by
  obtain ⟨o', hlive', rfl⟩ := h.backed i m hmem
  rw [hlive'.eq hlive]

/-- The object gets one more handle. -/
theorem Sound.acquire (h : Sound t held) (hlive : Live t i o) :
    Sound (NameTable.place t i (some { o with holders := o.holders + 1 })) ((i, o.name) :: held) := by
  refine h.place hlive.le_length (h.distinct.alone hlive) ?_ ?_ ?_
  · rintro o' ⟨⟩
    refine ⟨rfl, ?_, fun _ => Nat.succ_pos _⟩
    rw [Handles.count_cons_self, ← h.counted i o hlive]
  · intro j m hmem
    split
    · next hji =>
      subst hji
      refine ⟨?_, Option.some_ne_none _⟩
      rcases List.mem_cons.mp hmem with heq | hmem
      · exact (Prod.mk.inj heq).2
      · exact h.name_eq hlive hmem
    · next hji =>
      rcases List.mem_cons.mp hmem with heq | hmem
      · exact absurd (Prod.mk.inj heq).1 hji
      · exact hmem
  · intro j hji
    exact Handles.count_cons_of_ne held o.name hji

/-- The handles stay as they are. -/
theorem Sound.alter (h : Sound t held) (hlive : Live t i o) (hname : o'.name = o.name)
    (hholders : o'.holders = o.holders) (hdoomed : o'.doomed = true → 0 < o.holders) :
    Sound (NameTable.place t i (some o')) held := by
  refine h.place hlive.le_length (h.distinct.alone hlive) ?_ ?_ fun _ _ => rfl
  · rintro o₁ ⟨⟩
    refine ⟨hname, ?_, ?_⟩
    · rw [hholders, h.counted i o hlive]
    · rwa [hholders]
  · intro j m hmem
    split
    · next hji =>
      subst hji
      exact ⟨h.name_eq hlive hmem, Option.some_ne_none _⟩
    · exact hmem

/-- An object that no handle is of is gone. -/
theorem Sound.remove (h : Sound t held) (hlive : Live t i o) (hzero : o.holders = 0) :
    Sound (NameTable.place t i none) held := by
  have hnone : ∀ m, (i, m) ∉ held := by
    intro m hmem
    have hcount : 0 < held.count i := List.count_pos_iff.mpr (List.mem_map.mpr ⟨_, hmem, rfl⟩)
    rw [← h.counted i o hlive, hzero] at hcount
    exact absurd hcount (Nat.lt_irrefl 0)
  refine h.place hlive.le_length (h.distinct.alone hlive) (fun o' ho' => absurd ho'.symm (Option.some_ne_none o')) ?_
    fun _ _ => rfl
  intro j m hmem
  have hji : j ≠ i := fun hji => hnone m (hji ▸ hmem)
  rw [if_neg hji]
  exact hmem

/-- The handle is given back. -/
def Handles.without [DecidableEq N] (held : Handles N) (i : Nat) (n : N) : Handles N := held.erase (i, n)

theorem Handles.count_without_self [DecidableEq N] (held : Handles N) (hmem : (i, n) ∈ held) :
    Handles.count (held.without i n) i + 1 = held.count i := by
  have hperm : (held.map Prod.fst).Perm (i :: (held.without i n).map Prod.fst) :=
    (List.perm_cons_erase hmem).map Prod.fst
  rw [Handles.count, Handles.count, hperm.count_eq, List.count_cons_self]

theorem Handles.count_without_of_ne [DecidableEq N] (held : Handles N) (hmem : (i, n) ∈ held) (hji : j ≠ i) :
    Handles.count (held.without i n) j = held.count j := by
  have hperm : (held.map Prod.fst).Perm (i :: (held.without i n).map Prod.fst) :=
    (List.perm_cons_erase hmem).map Prod.fst
  rw [Handles.count, Handles.count, hperm.count_eq, List.count_cons_of_ne (Ne.symm hji)]

/-- What is left of an object when a handle is given back. -/
def Object.released (o : Object N V) : Option (Object N V) :=
  if o.holders - 1 = 0 ∧ o.doomed = true then none else some { o with holders := o.holders - 1 }

theorem Sound.release [DecidableEq N] (h : Sound t held) (hlive : Live t i o) (hmem : (i, o.name) ∈ held) :
    Sound (NameTable.place t i o.released) (held.without i o.name) := by
  have hcount := Handles.count_without_self held hmem
  rw [← h.counted i o hlive] at hcount
  refine h.place hlive.le_length (h.distinct.alone hlive) ?_ ?_ ?_
  · intro o' ho'
    rw [Object.released] at ho'
    split at ho'
    · exact absurd ho'.symm (Option.some_ne_none o')
    · next hkeep =>
      obtain rfl := Option.some.inj ho'
      refine ⟨rfl, by simp only; omega, fun hdoomed => ?_⟩
      simp only at hdoomed ⊢
      rw [not_and] at hkeep
      exact Nat.pos_of_ne_zero fun hzero => hkeep hzero hdoomed
  · intro j m hm
    have hheld := List.mem_of_mem_erase hm
    split
    · next hji =>
      subst hji
      refine ⟨h.name_eq hlive hheld, fun hnone => ?_⟩
      -- an object that goes had one handle, and it is given back
      rw [Object.released] at hnone
      split at hnone
      · next hlast =>
        have hpos : 0 < Handles.count (held.without j o.name) j :=
          List.count_pos_iff.mpr (List.mem_map.mpr ⟨_, hm, rfl⟩)
        omega
      · exact absurd hnone (Option.some_ne_none _)
    · exact hheld
  · intro j hji
    exact Handles.count_without_of_ne held hmem hji

end

/-! ### A table behind a list of entries -/

section

variable {E : Type*} {R : E → Option (Object N V) → Prop} {l : List E} {e : E}

theorem forall₂_set (h : List.Forall₂ R l t) (he : R e x) (i : Nat) : List.Forall₂ R (l.set i e) (t.set i x) := by
  induction h generalizing i with
  | nil => exact List.Forall₂.nil
  | cons hhead htail ih =>
    cases i with
    | zero => exact List.Forall₂.cons he htail
    | succ i => exact List.Forall₂.cons hhead (ih i)

/-- Another entry in a list is another content for its slot. -/
theorem forall₂_modify (h : List.Forall₂ R l t) (hi : i < l.length) (f : E → E) (he : R (f l[i]) x) :
    List.Forall₂ R (l.modify i f) (place t i x) := by
  rw [List.modify_eq_set_get f hi, place, if_pos (h.length_eq ▸ hi)]
  exact forall₂_set h he i

theorem forall₂_append (h : List.Forall₂ R l t) (he : R e x) : List.Forall₂ R (l ++ [e]) (place t l.length x) := by
  rw [place, if_neg (by rw [h.length_eq]; exact Nat.lt_irrefl _)]
  exact List.rel_append h (List.Forall₂.cons he List.Forall₂.nil)

theorem Live.entry (hlive : Live t i o) (h : List.Forall₂ R l t) : ∃ hi : i < l.length, R l[i] (some o) := by
  obtain ⟨hi, hget⟩ := List.getElem?_eq_some_iff.mp hlive
  have hlength := h.length_eq
  refine ⟨by omega, ?_⟩
  have hrel := h.get (show i < l.length by omega) hi
  rw [List.get_eq_getElem, List.get_eq_getElem, hget] at hrel
  exact hrel

/-- A search in the list is one in the table. -/
theorem findIdx?_eq {p : E → Bool} {q : Option (Object N V) → Bool} (hpq : ∀ e x, R e x → p e = q x)
    (h : List.Forall₂ R l t) : l.findIdx? p = t.findIdx? q := by
  induction h with
  | nil => rfl
  | cons hhead htail ih => rw [List.findIdx?_cons, List.findIdx?_cons, hpq _ _ hhead, ih]

end

/-! ### Searches -/

section

variable [DecidableEq N] {held : Handles N}

/-- The first slot whose object has the name. -/
def find (t : Slots N V) (n : N) : Option Nat := t.findIdx? fun x => x.any fun o => o.name = n

theorem live_of_find (h : find t n = some i) : ∃ o, Live t i o ∧ o.name = n := by
  obtain ⟨hi, hname, -⟩ := List.findIdx?_eq_some_iff_getElem.mp h
  obtain ⟨o, ho, hname⟩ := (Option.any_eq_true _ _).mp hname
  exact ⟨o, List.getElem?_eq_some_iff.mpr ⟨hi, ho⟩, of_decide_eq_true hname⟩

theorem not_live_of_find (h : find t n = none) (i : Nat) (o : Object N V) (hi : Live t i o) : o.name ≠ n := by
  have hname := List.findIdx?_eq_none_iff.mp h (some o) (List.mem_of_getElem? hi)
  exact of_decide_eq_false hname

omit [DecidableEq N] in
/-- The first slot without an object. -/
theorem free_of_findIdx? (h : t.findIdx? (fun x => x.isNone) = some i) : i < t.length ∧ ∀ o, ¬ Live t i o := by
  obtain ⟨hi, hnone, -⟩ := List.findIdx?_eq_some_iff_getElem.mp h
  refine ⟨hi, fun o hlive => ?_⟩
  have ho : t[i] = some o := (List.getElem?_eq_some_iff.mp hlive).2
  rw [ho] at hnone
  exact Bool.false_ne_true hnone

/-! ### What is known by name -/

/-- The objects there are, and the handles that are out. -/
structure Account (N V : Type*) where
  objects : N → Option (Object N V)
  held : Handles N

def Account.empty : Account N V := ⟨fun _ => none, []⟩

def Account.put (a : Account N V) (n : N) (x : Option (Object N V)) (held : Handles N) : Account N V :=
  ⟨update a.objects n x, held⟩

/-- The name a handle was opened by. -/
def Handles.nameOf (held : Handles N) (i : Nat) : Option N := (held.find? fun p => p.1 = i).map Prod.snd

structure Tracks (t : Slots N V) (a : Account N V) : Prop where
  shows : Shows t a.objects
  sound : Sound t a.held

namespace Tracks

variable {a : Account N V}

omit [DecidableEq N] in
theorem empty : Tracks ([] : Slots N V) Account.empty := by
  refine ⟨fun n o => ⟨fun h => absurd h.symm (Option.some_ne_none o), ?_⟩, sound_nil⟩
  rintro ⟨i, hi, -⟩
  simp [Live] at hi

omit [DecidableEq N] in
theorem objects_eq (h : Tracks t a) (hlive : Live t i o) : a.objects o.name = some o :=
  (h.shows o.name o).mpr ⟨i, hlive, rfl⟩

theorem of_find (h : Tracks t a) (hfind : find t n = some i) : ∃ o, Live t i o ∧ o.name = n ∧ a.objects n = some o := by
  obtain ⟨o, hlive, rfl⟩ := live_of_find hfind
  exact ⟨o, hlive, rfl, h.objects_eq hlive⟩

theorem of_not_find (h : Tracks t a) (hfind : find t n = none) : a.objects n = none := by
  cases ho : a.objects n with
  | none => rfl
  | some o =>
    obtain ⟨i, hlive, hname⟩ := (h.shows n o).mp ho
    exact absurd hname (not_live_of_find hfind i o hlive)

omit [DecidableEq N] in
theorem of_held (h : Tracks t a) (hmem : (i, n) ∈ a.held) : ∃ o, Live t i o ∧ o.name = n ∧ a.objects n = some o := by
  obtain ⟨o, hlive, rfl⟩ := h.sound.backed i n hmem
  exact ⟨o, hlive, rfl, h.objects_eq hlive⟩

omit [DecidableEq N] in
/-- A handle is of an object exactly if it was opened by its name. -/
theorem held_iff (h : Tracks t a) (hlive : Live t i o) {m : N} (hmem : (j, m) ∈ a.held) : j = i ↔ m = o.name := by
  obtain ⟨o', hlive', hname⟩ := h.sound.backed j m hmem
  rw [← hname]
  exact h.sound.distinct.alone hlive j o' hlive'

omit [DecidableEq N] in
theorem nameOf_eq (h : Tracks t a) (hmem : (i, n) ∈ a.held) : a.held.nameOf i = some n := by
  obtain ⟨o, hlive, rfl⟩ := h.sound.backed i n hmem
  have hsome : (a.held.find? fun p => p.1 = i).isSome := by
    rw [List.find?_isSome]
    exact ⟨_, hmem, by simp⟩
  obtain ⟨⟨j, m⟩, hfind⟩ := Option.isSome_iff_exists.mp hsome
  have hj : j = i := by simpa using List.find?_some hfind
  have hm : m = o.name := (h.held_iff hlive (List.mem_of_find?_eq_some hfind)).mp hj
  rw [Handles.nameOf, hfind, ← hm]
  rfl

omit [DecidableEq N] in
/-- A slot without an object is one behind the end as well. -/
theorem vacant (h : Tracks t a) (hi : i ≤ t.length) (hfree : ∀ o, ¬ Live t i o) : Tracks (place t i none) a := by
  have hlive : ∀ j o, Live (place t i none) j o ↔ Live t j o := by
    intro j o
    rw [live_place hi]
    split
    · next hji =>
      subst hji
      exact iff_of_false (fun hnone => Option.some_ne_none o hnone.symm) (hfree o)
    · rfl
  refine ⟨fun n o => ?_, ?_⟩
  · rw [h.shows n o]
    simp only [hlive]
  · obtain ⟨hdistinct, hbacked, hcounted, hneeded⟩ := h.sound
    refine ⟨fun j l o o' => ?_, fun j n => ?_, fun j o => ?_, fun j o => ?_⟩
    · rw [hlive, hlive]
      exact hdistinct j l o o'
    · simp only [hlive]
      exact hbacked j n
    · rw [hlive]
      exact hcounted j o
    · rw [hlive]
      exact hneeded j o

theorem create (h : Tracks t a) (hi : i ≤ t.length) (hfree : ∀ o, ¬ Live t i o) (hnew : find t n = none) (v : V) :
    Tracks (place t i (some ⟨n, 1, false, v⟩)) (a.put n (some ⟨n, 1, false, v⟩) ((i, n) :: a.held)) :=
  ⟨h.shows.place hi (alone_of_new hfree (not_live_of_find hnew)) (by rintro o ⟨⟩; rfl),
    h.sound.create hi hfree (not_live_of_find hnew) v⟩

theorem acquire (h : Tracks t a) (hlive : Live t i o) :
    Tracks (place t i (some { o with holders := o.holders + 1 }))
      (a.put o.name (some { o with holders := o.holders + 1 }) ((i, o.name) :: a.held)) :=
  ⟨h.shows.place hlive.le_length (h.sound.distinct.alone hlive) (by rintro o' ⟨⟩; rfl), h.sound.acquire hlive⟩

theorem alter (h : Tracks t a) (hlive : Live t i o) (hname : o'.name = o.name) (hholders : o'.holders = o.holders)
    (hdoomed : o'.doomed = true → 0 < o.holders) : Tracks (place t i (some o')) (a.put o.name (some o') a.held) :=
  ⟨h.shows.place hlive.le_length (h.sound.distinct.alone hlive) (by rintro o₁ ⟨⟩; exact hname),
    h.sound.alter hlive hname hholders hdoomed⟩

theorem remove (h : Tracks t a) (hlive : Live t i o) (hzero : o.holders = 0) :
    Tracks (place t i none) (a.put o.name none a.held) :=
  ⟨h.shows.place hlive.le_length (h.sound.distinct.alone hlive) fun _ ho => absurd ho.symm (Option.some_ne_none _),
    h.sound.remove hlive hzero⟩

theorem release (h : Tracks t a) (hlive : Live t i o) (hmem : (i, o.name) ∈ a.held) :
    Tracks (place t i o.released) (a.put o.name o.released (a.held.without i o.name)) := by
  refine ⟨h.shows.place hlive.le_length (h.sound.distinct.alone hlive) fun o' ho' => ?_, h.sound.release hlive hmem⟩
  rw [Object.released] at ho'
  split at ho'
  · exact absurd ho'.symm (Option.some_ne_none _)
  · rw [← Option.some.inj ho']

end Tracks

end

end NameTable

end CoActionOS
