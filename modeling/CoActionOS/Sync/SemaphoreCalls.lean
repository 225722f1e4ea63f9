import CoActionOS.Sync.SemaphoreNames
import Mathlib.Tactic.SplitIfs

/-!
# The calls on named semaphores

`semaphores_by_name` says that the list is what its names make of it: however the calls of all processes follow each
other, each is answered as `Names` says, where handles of one name are one place and a semaphore goes with its last
handle.
-/

namespace CoActionOS

namespace Semaphore

open CString (text)
open NameTable

variable {list : List SemT} {name : List UInt8} {sem sem' : SemT} {i : Nat}

theorem text_copyName (entry : Vector UInt8 nameMax) (h : Fits name) : text (copyName entry name).toList = name := by
  obtain ⟨hzero, hlen⟩ := h
  have hget : ∀ j, j < nameMax - 1 → (copyName entry name).toList[j]? = some ((name[j]?).getD 0) := by
    intro j hj
    have hlt : j < nameMax := Nat.lt_of_lt_of_le hj (Nat.sub_le _ _)
    rw [copyName, Vector.toList_ofFn, List.getElem?_ofFn, dif_pos hlt, if_pos hj]
  apply CString.text_eq_of_getElem? hzero
  · intro j hj
    rw [hget j (Nat.lt_trans hj hlen), List.getElem?_eq_getElem hj, Option.getD_some]
  · rw [hget _ hlen, List.getElem?_eq_none (Nat.le_refl _), Option.getD_none]

theorem semFindNamed_eq (list : List SemT) (hzero : 0 ∉ name) (hlen : name.length < nameMax) :
    semFindNamed list name = find (slots list) name := by
  rw [semFindNamed, find, slots, List.findIdx?_map]
  congr 1
  funext sem
  rw [CString.strncmpEq_eq hzero hlen (Nat.le_of_eq Vector.length_toList), Function.comp_apply, SemT.view]
  by_cases hin : sem.isInitialized = 0
  · simp [hin]
  · simp [hin]

theorem findIdx?_free (list : List SemT) :
    (list.findIdx? fun sem => sem.isInitialized = 0) = (slots list).findIdx? fun x => x.isNone := by
  rw [slots, List.findIdx?_map]
  congr 1
  funext sem
  rw [Function.comp_apply, SemT.view]
  by_cases hin : sem.isInitialized = 0
  · simp [hin]
  · simp [hin]

theorem slots_set (h : i < list.length) (sem : SemT) : slots (list.set i sem) = place (slots list) i sem.view := by
  rw [place, if_pos (by rwa [slots, List.length_map]), slots, slots, List.map_set]

theorem slots_append (list : List SemT) (sem : SemT) :
    slots (list ++ [sem]) = place (slots list) list.length sem.view := by
  rw [place, if_neg (by rw [slots, List.length_map]; exact Nat.lt_irrefl _), slots, slots, List.map_append]
  rfl

/-! ### One call -/

/-- The list is what its names make of it. -/
structure Matches (list : List SemT) (a : Names) : Prop where
  tracks : Tracks (slots list) a.account
  memory : a.memory = list.map fun sem => (sem.pshared, sem.pid)
  counts : ∀ sem ∈ list, sem.Counts

variable {a : Names} {acc : Account (List UInt8) Content} {o : Object (List UInt8) Content} {pid : Int}

theorem view_eq_some_iff : sem.view = some o ↔ sem.isInitialized ≠ 0 ∧
    o = ⟨text sem.name.toList, sem.references.toNat, sem.isInitialized = 2,
      ⟨sem.value, sem.pshared, sem.pid, sem.mode⟩⟩ := by
  rw [SemT.view]
  by_cases hin : sem.isInitialized = 0
  · rw [if_pos hin]
    exact iff_of_false (fun h => absurd h.symm (Option.some_ne_none o)) fun h => h.1 hin
  · rw [if_neg hin, Option.some_inj, eq_comm]
    exact ⟨fun h => ⟨hin, h⟩, fun h => h.2⟩

theorem live_iff : Live (slots list) i o ↔ ∃ sem, list[i]? = some sem ∧ sem.view = some o := by
  rw [Live, slots, List.getElem?_map, Option.map_eq_some_iff]

theorem checkInitialized_eq (hview : sem.view = some o) :
    checkInitialized pid sem = if Names.denies pid o then some .eacces else none := by
  obtain ⟨hin, rfl⟩ := view_eq_some_iff.mp hview
  rw [checkInitialized, if_neg hin]
  rfl

theorem checked_eq {α : Type} (hsem : list[i]? = some sem) (hview : sem.view = some o)
    (f : SemT → SemT × Except Errno α) :
    checked list pid i f =
      if Names.denies pid o then (list, .error .eacces) else (list.set i (f sem).1, (f sem).2) := by
  rw [checked, hsem]
  simp only [checkInitialized_eq hview]
  by_cases hdeny : Names.denies pid o
  · simp only [if_pos hdeny]
  · simp only [if_neg hdeny]

theorem Matches.handle (h : Matches list a) (hheld : ∃ name, (i, name) ∈ a.account.held) :
    ∃ sem o, list[i]? = some sem ∧ sem.view = some o ∧ Live (slots list) i o ∧ (i, o.name) ∈ a.account.held ∧
      a.object i = some o := by
  obtain ⟨name, hmem⟩ := hheld
  obtain ⟨o, hlive, rfl, hobject⟩ := h.tracks.of_held hmem
  obtain ⟨sem, hsem, hview⟩ := live_iff.mp hlive
  refine ⟨sem, o, hsem, hview, hlive, hmem, ?_⟩
  rw [Names.object, h.tracks.nameOf_eq hmem]
  exact hobject

theorem Matches.set (h : Matches list a) (hsem : list[i]? = some sem) (sem' : SemT)
    (hpshared : sem'.pshared = sem.pshared) (hpid : sem'.pid = sem.pid) (hcounts : sem'.Counts)
    (htracks : Tracks (place (slots list) i sem'.view) acc) :
    Matches (list.set i sem') { a with account := acc } := by
  obtain ⟨hi, hget⟩ := List.getElem?_eq_some_iff.mp hsem
  refine ⟨by rwa [slots_set hi], ?_, ?_⟩
  · rw [h.memory, List.map_set, hpshared, hpid]
    refine (List.ext_getElem? fun j => ?_).symm
    rw [List.getElem?_set]
    split
    · next hij =>
      subst hij
      simp [hi, hget]
    · rfl
  · intro s hs
    rcases List.mem_or_eq_of_mem_set hs with hs | rfl
    · exact h.counts s hs
    · exact hcounts

/-- A call is answered as expected, and the list is still what its names make of it. -/
def StepsTo (list : List SemT) (a : Names) (c : Call) : Prop :=
  a.Expects c (exec list c).2 ∧ Matches (exec list c).1 (a.next c (exec list c).2)

theorem Matches.guarded {α : Type} {c : Call} {f : SemT → SemT × Except Errno α} {g : α → Reply}
    {r : Object (List UInt8) Content → Reply} (h : Matches list a) (hheld : ∃ name, (i, name) ∈ a.account.held)
    (hexec : exec list c = answer g (checked list pid i f))
    (hreply : ∀ sem o, sem.view = some o → .of g (f sem).2 = r o)
    (hexpects : ∀ reply, a.Guarded pid i r reply → a.Expects c reply) (hfailed : a.next c (.failed .eacces) = a)
    (hdone : ∀ sem o, list[i]? = some sem → sem.view = some o → Live (slots list) i o → (i, o.name) ∈ a.account.held →
      a.object i = some o → Matches (list.set i (f sem).1) (a.next c (r o))) : StepsTo list a c := by
  obtain ⟨sem, o, hsem, hview, hlive, hmem, hobject⟩ := h.handle hheld
  rw [StepsTo, hexec, checked_eq hsem hview]
  by_cases hdeny : Names.denies pid o
  · rw [if_pos hdeny]
    refine ⟨hexpects _ ⟨o, hobject, (if_pos hdeny).symm⟩, ?_⟩
    show Matches list (a.next c (.failed .eacces))
    rwa [hfailed]
  · rw [if_neg hdeny]
    refine ⟨hexpects _ ⟨o, hobject, (hreply sem o hview).trans (if_neg hdeny).symm⟩, ?_⟩
    show Matches (list.set i (f sem).1) (a.next c (.of g (f sem).2))
    rw [hreply sem o hview]
    exact hdone sem o hsem hview hlive hmem hobject

theorem view_closed (hcounts : sem.Counts) (hview : sem.view = some o) (hpos : 0 < o.holders) :
    sem.closed.view = o.released := by
  obtain ⟨hin, rfl⟩ := view_eq_some_iff.mp hview
  obtain ⟨hnonneg, -⟩ := hcounts hin
  have hpos : 0 < sem.references.toNat := hpos
  have hgt : sem.references > 0 := by omega
  have hpred : (sem.references - 1).toNat = sem.references.toNat - 1 := by omega
  have hzero : sem.references - 1 = 0 ↔ sem.references.toNat - 1 = 0 := by omega
  rw [SemT.closed, if_pos hgt, Object.released]
  by_cases hlast : sem.references.toNat - 1 = 0 ∧ sem.isInitialized = 2
  · rw [if_pos ⟨hzero.mpr hlast.1, hlast.2⟩, if_pos ⟨hlast.1, decide_eq_true hlast.2⟩]
    rfl
  · have hlast' : ¬ (sem.references - 1 = 0 ∧ sem.isInitialized = 2) := fun h => hlast ⟨hzero.mp h.1, h.2⟩
    have hkept : ¬ (sem.references.toNat - 1 = 0 ∧ decide (sem.isInitialized = 2) = true) :=
      fun h => hlast ⟨h.1, of_decide_eq_true h.2⟩
    simp only
    rw [if_neg hlast', if_neg hkept, ← hpred]
    exact view_eq_some_iff.mpr ⟨hin, rfl⟩

theorem counts_closed (hcounts : sem.Counts) : sem.closed.Counts := by
  simp only [SemT.Counts, SemT.closed] at hcounts ⊢
  grind

theorem closed_memory (sem : SemT) : sem.closed.pshared = sem.pshared ∧ sem.closed.pid = sem.pid := by
  simp only [SemT.closed]
  split_ifs <;> exact ⟨rfl, rfl⟩

theorem Matches.close (h : Matches list a) (hc : a.Permits (.close pid i)) : StepsTo list a (.close pid i) := by
  refine h.guarded hc rfl (fun _ _ _ => rfl) (fun _ hg => hg) rfl ?_
  intro sem o hsem hview hlive hmem hobject
  have hpos : 0 < o.holders := by
    rw [h.tracks.sound.counted i o hlive]
    exact List.count_pos_iff.mpr (List.mem_map.mpr ⟨_, hmem, rfl⟩)
  have hcounts := h.counts sem (List.mem_of_getElem? hsem)
  have hnext : a.next (.close pid i) .done = a.put o.name o.released (a.account.held.without i o.name) := by
    rw [Names.next, hobject]
  rw [hnext]
  refine h.set hsem _ (closed_memory sem).1 (closed_memory sem).2 (counts_closed hcounts) ?_
  rw [view_closed hcounts hview hpos]
  exact h.tracks.release hlive hmem

theorem Matches.getvalue (h : Matches list a) (hc : a.Permits (.getvalue pid i)) :
    StepsTo list a (.getvalue pid i) := by
  refine h.guarded hc rfl ?_ (fun _ hg => hg) rfl ?_
  · intro sem o hview
    obtain ⟨-, rfl⟩ := view_eq_some_iff.mp hview
    rfl
  · intro sem o hsem hview hlive hmem hobject
    obtain ⟨hi, rfl⟩ := List.getElem?_eq_some_iff.mp hsem
    rw [List.set_getElem_self]
    exact h

theorem view_setValue (hview : sem.view = some o) (f : UInt32 → UInt32) :
    { sem with value := f sem.value }.view = some { o with value := { o.value with value := f o.value.value } } := by
  obtain ⟨hin, rfl⟩ := view_eq_some_iff.mp hview
  exact view_eq_some_iff.mpr ⟨hin, rfl⟩

theorem Matches.setValue (h : Matches list a) (hsem : list[i]? = some sem) (hview : sem.view = some o)
    (hlive : Live (slots list) i o) (hobject : a.object i = some o) (f : UInt32 → UInt32) :
    Matches (list.set i { sem with value := f sem.value }) (a.setValue i f) := by
  rw [Names.setValue, hobject]
  refine h.set hsem _ rfl rfl (h.counts sem (List.mem_of_getElem? hsem)) ?_
  rw [view_setValue hview]
  exact h.tracks.alter hlive rfl rfl (h.tracks.sound.needed i o hlive)

theorem Matches.post (h : Matches list a) (hc : a.Permits (.post pid i)) : StepsTo list a (.post pid i) := by
  refine h.guarded hc rfl (fun _ _ _ => rfl) (fun _ hg => hg) rfl ?_
  intro sem o hsem hview hlive hmem hobject
  exact h.setValue hsem hview hlive hobject fun value => value + 1

theorem Matches.trywait (h : Matches list a) (hc : a.Permits (.trywait pid i)) : StepsTo list a (.trywait pid i) := by
  refine h.guarded hc rfl ?_ (fun _ hg => hg) rfl ?_
  · intro sem o hview
    obtain ⟨-, rfl⟩ := view_eq_some_iff.mp hview
    simp only [UInt32.pos_iff_ne_zero, gt_iff_lt]
    by_cases hvalue : sem.value = 0
    · simp [hvalue, Reply.of]
    · simp [hvalue, Reply.of]
  · intro sem o hsem hview hlive hmem hobject
    have hset := h.setValue hsem hview hlive hobject fun value => value - 1
    obtain ⟨-, rfl⟩ := view_eq_some_iff.mp hview
    simp only [UInt32.pos_iff_ne_zero, gt_iff_lt]
    by_cases hvalue : sem.value = 0
    · obtain ⟨hi, rfl⟩ := List.getElem?_eq_some_iff.mp hsem
      simp only [hvalue, ne_eq, not_true_eq_false, if_false, if_true, List.set_getElem_self]
      exact h
    · simp only [hvalue, ne_eq, not_false_eq_true, if_true, if_false]
      exact hset

theorem view_unlinked (hview : sem.view = some o) (hcounts : sem.Counts) :
    sem.unlinked.view = if o.holders = 0 then none else some { o with doomed := true } := by
  obtain ⟨hin, rfl⟩ := view_eq_some_iff.mp hview
  obtain ⟨hnonneg, -⟩ := hcounts hin
  have hzero : sem.references = 0 ↔ sem.references.toNat = 0 := by omega
  rw [SemT.unlinked]
  by_cases hnone : sem.references = 0
  · rw [if_pos hnone, if_pos (hzero.mp hnone)]
    rfl
  · rw [if_neg hnone, if_neg fun h => hnone (hzero.mpr h)]
    exact view_eq_some_iff.mpr ⟨show (2 : Int) ≠ 0 by decide, rfl⟩

theorem counts_unlinked (hcounts : sem.Counts) (hin : sem.isInitialized ≠ 0) : sem.unlinked.Counts := by
  intro h
  rw [SemT.unlinked] at h ⊢
  by_cases hnone : sem.references = 0
  · rw [if_pos hnone] at h
    exact absurd rfl h
  · rw [if_neg hnone]
    exact ⟨(hcounts hin).1, Or.inr rfl⟩

theorem unlinked_memory (sem : SemT) : sem.unlinked.pshared = sem.pshared ∧ sem.unlinked.pid = sem.pid := by
  rw [SemT.unlinked]
  split <;> exact ⟨rfl, rfl⟩

theorem length_toolong_iff : min name.length nameMax = nameMax ↔ nameMax ≤ name.length := by
  omega

theorem Matches.unlink (h : Matches list a) (hc : a.Permits (.unlink pid name)) :
    StepsTo list a (.unlink pid name) := by
  by_cases hlong : nameMax ≤ name.length
  · rw [StepsTo, exec, semUnlink, if_pos (length_toolong_iff.mpr hlong)]
    exact ⟨by rw [Names.Expects, if_pos hlong]; rfl, h⟩
  · have hfind := semFindNamed_eq list hc (Nat.lt_of_not_le hlong)
    rw [StepsTo, exec, semUnlink, if_neg fun hmin => hlong (length_toolong_iff.mp hmin), Names.Expects, if_neg hlong]
    cases hsem : semFindNamed list name with
    | none =>
      rw [hfind] at hsem
      rw [h.tracks.of_not_find hsem]
      exact ⟨rfl, h⟩
    | some i =>
      rw [hfind] at hsem
      obtain ⟨o, hlive, rfl, hobject⟩ := h.tracks.of_find hsem
      obtain ⟨sem, hsem, hview⟩ := live_iff.mp hlive
      have hcounts := h.counts sem (List.mem_of_getElem? hsem)
      simp only [hobject, checked_eq hsem hview]
      by_cases hdeny : Names.denies pid o
      · rw [if_pos hdeny, if_pos hdeny]
        exact ⟨rfl, h⟩
      · rw [if_neg hdeny, if_neg hdeny]
        refine ⟨rfl, ?_⟩
        have hnext : a.next (.unlink pid o.name) .done =
            a.put o.name (if o.holders = 0 then none else some { o with doomed := true }) a.account.held := by
          rw [Names.next, hobject]
        show Matches (list.set i sem.unlinked) (a.next (.unlink pid o.name) .done)
        rw [hnext]
        refine h.set hsem _ (unlinked_memory sem).1 (unlinked_memory sem).2
          (counts_unlinked hcounts (view_eq_some_iff.mp hview).1) ?_
        rw [view_unlinked hview hcounts]
        split
        · next hzero => exact h.tracks.remove hlive hzero
        · next hpos => exact h.tracks.alter hlive rfl rfl fun _ => Nat.pos_of_ne_zero hpos

theorem Matches.append (h : Matches list a) (sem : SemT) (hcounts : sem.Counts)
    (htracks : Tracks (place (slots list) list.length sem.view) acc) :
    Matches (list ++ [sem]) ⟨acc, a.memory ++ [(sem.pshared, sem.pid)]⟩ := by
  refine ⟨by rwa [slots_append], ?_, fun s hs => ?_⟩
  · rw [h.memory, List.map_append]
    rfl
  · rcases List.mem_append.mp hs with hs | hs
    · exact h.counts s hs
    · rw [List.mem_singleton.mp hs]
      exact hcounts

/-- The entry that `sem_open` fills. -/
def SemT.opened (entry : SemT) (name : List UInt8) (mode value : UInt32) : SemT :=
  { entry with isInitialized := 1, value, references := 1, mode, name := copyName entry.name name }

theorem view_opened (entry : SemT) (mode value : UInt32) (hname : Fits name) :
    (entry.opened name mode value).view = some ⟨name, 1, false, ⟨value, entry.pshared, entry.pid, mode⟩⟩ := by
  refine view_eq_some_iff.mpr ⟨show (1 : Int) ≠ 0 by decide, ?_⟩
  have htext : text (entry.opened name mode value).name.toList = name := text_copyName entry.name hname
  rw [htext]
  rfl

theorem SemT.counts_opened (entry : SemT) (name : List UInt8) (mode value : UInt32) :
    (entry.opened name mode value).Counts := fun _ => ⟨show (0 : Int) ≤ 1 by decide, Or.inl rfl⟩

theorem Matches.open_existing (h : Matches list a) {oflag : OFlag} {mode value : UInt32} {memory : Option SemT}
    (hlong : ¬ nameMax ≤ name.length) (hzero : 0 ∉ name) (hfind : semFindNamed list name = some i) :
    StepsTo list a (.open name oflag mode value memory) := by
  have hnamed := semFindNamed_eq list hzero (Nat.lt_of_not_le hlong)
  rw [StepsTo, exec, semOpen, if_neg fun hmin => hlong (length_toolong_iff.mp hmin), Names.Expects, if_neg hlong, hfind]
  rw [hnamed] at hfind
  obtain ⟨o, hlive, rfl, hobject⟩ := h.tracks.of_find hfind
  obtain ⟨sem, hsem, hview⟩ := live_iff.mp hlive
  simp only [hobject]
  by_cases hexcl : oflag.creat = true ∧ oflag.excl = true
  · rw [if_pos hexcl, if_pos (by simpa using hexcl)]
    exact ⟨rfl, h⟩
  · rw [if_neg hexcl, if_neg (by simpa using hexcl)]
    refine ⟨⟨i, rfl, fun j m hmem => h.tracks.held_iff hlive hmem⟩, ?_⟩
    obtain ⟨hi, rfl⟩ := List.getElem?_eq_some_iff.mp hsem
    have hnext : a.next (.open o.name oflag mode value memory) (.opened i) =
        a.put o.name (some { o with holders := o.holders + 1 }) ((i, o.name) :: a.account.held) := by
      rw [Names.next, hobject]
    have hmodify : (list.modify i fun new => { new with references := new.references + 1 }) =
        list.set i { list[i] with references := list[i].references + 1 } :=
      List.modify_eq_set_get _ hi
    show Matches (list.modify i fun new => { new with references := new.references + 1 })
      (a.next (.open o.name oflag mode value memory) (.opened i))
    rw [hnext, hmodify]
    obtain ⟨hin, ho⟩ := view_eq_some_iff.mp hview
    have hcounts := h.counts list[i] (List.getElem_mem hi) hin
    refine h.set hsem _ rfl rfl (fun _ => ⟨by simp only; omega, hcounts.2⟩) ?_
    have hview' : ({ list[i] with references := list[i].references + 1 } : SemT).view =
        some { o with holders := o.holders + 1 } := by
      refine view_eq_some_iff.mpr ⟨hin, ?_⟩
      rw [ho]
      simp only [Object.mk.injEq, and_true, true_and]
      omega
    rw [hview']
    exact h.tracks.acquire hlive

theorem Names.next_create (oflag : OFlag) (mode value : UInt32) (memory : Option SemT) {entries : List (Int × Int)}
    {entry : SemT} (hnone : a.account.objects name = none)
    (hentries : entries = if i < a.memory.length then a.memory
      else a.memory ++ (memory.map fun s => (s.pshared, s.pid)).toList)
    (hguard : entries[i]? = some (entry.pshared, entry.pid)) :
    a.next (.open name oflag mode value memory) (.opened i) =
      ⟨a.account.put name (some ⟨name, 1, false, ⟨value, entry.pshared, entry.pid, mode⟩⟩)
        ((i, name) :: a.account.held), entries⟩ := by
  rw [Names.next, hnone]
  simp only [← hentries, hguard, Option.getD_some]
  rfl

/-- An entry that is free is filled. -/
theorem Matches.fill (h : Matches list a) (oflag : OFlag) (mode value : UInt32) (memory : Option SemT)
    (hname : Fits name) (hnew : find (slots list) name = none)
    (hfree : list.findIdx? (fun sem => sem.isInitialized = 0) = some i) :
    (∀ j m, (j, m) ∈ a.account.held → j ≠ i) ∧
      Matches (list.modify i fun new => new.opened name mode value)
        (a.next (.open name oflag mode value memory) (.opened i)) := by
  rw [findIdx?_free] at hfree
  obtain ⟨hi, hvacant⟩ := free_of_findIdx? hfree
  rw [slots, List.length_map] at hi
  have hlength : a.memory.length = list.length := by rw [h.memory, List.length_map]
  have hguard : a.memory[i]? = some (list[i].pshared, list[i].pid) := by
    rw [h.memory, List.getElem?_map, List.getElem?_eq_getElem hi]
    rfl
  have hnext := Names.next_create oflag mode value memory (h.tracks.of_not_find hnew)
    (if_pos (by rwa [hlength])).symm hguard
  refine ⟨fun j m hmem hji => ?_, ?_⟩
  · obtain ⟨o, hlive, -⟩ := h.tracks.of_held hmem
    exact hvacant o (hji ▸ hlive)
  · rw [List.modify_eq_set_get _ hi, hnext]
    refine h.set (List.getElem?_eq_getElem hi) (list[i].opened name mode value) rfl rfl
      (list[i].counts_opened name mode value) ?_
    rw [view_opened list[i] mode value hname]
    exact h.tracks.create (by rw [slots, List.length_map]; exact Nat.le_of_lt hi) hvacant hnew _

/-- A new entry is filled. -/
theorem Matches.extend (h : Matches list a) (oflag : OFlag) (mode value : UInt32) (entry : SemT)
    (hname : Fits name) (hnew : find (slots list) name = none) :
    (∀ j m, (j, m) ∈ a.account.held → j ≠ list.length) ∧
      Matches ((list ++ [entry]).modify list.length fun new => new.opened name mode value)
        (a.next (.open name oflag mode value (some entry)) (.opened list.length)) := by
  have hlength : a.memory.length = list.length := by rw [h.memory, List.length_map]
  have hvacant : ∀ o, ¬ Live (slots list) list.length o := by
    intro o hlive
    rw [Live, slots, List.getElem?_eq_none (by rw [List.length_map])] at hlive
    exact absurd hlive.symm (Option.some_ne_none _)
  have hmodify : ((list ++ [entry]).modify list.length fun new => new.opened name mode value) =
      list ++ [entry.opened name mode value] := by
    rw [List.modify_eq_set_get _ (by simp)]
    simp
  have hguard : (a.memory ++ [(entry.pshared, entry.pid)])[list.length]? = some (entry.pshared, entry.pid) := by
    rw [← hlength, List.getElem?_append_right (Nat.le_refl _), Nat.sub_self]
    rfl
  have hnext := Names.next_create oflag mode value (some entry) (h.tracks.of_not_find hnew)
    (if_neg (by rw [hlength]; exact Nat.lt_irrefl _)).symm hguard
  refine ⟨fun j m hmem hji => ?_, ?_⟩
  · obtain ⟨o, hlive, -⟩ := h.tracks.of_held hmem
    exact hvacant o (hji ▸ hlive)
  · rw [hmodify, hnext]
    refine h.append (entry.opened name mode value) (entry.counts_opened name mode value) ?_
    rw [view_opened entry mode value hname]
    exact h.tracks.create (by rw [slots, List.length_map]) hvacant hnew _

theorem Matches.open_new (h : Matches list a) {oflag : OFlag} {mode value : UInt32} {memory : Option SemT}
    (hlong : ¬ nameMax ≤ name.length) (hname : Fits name) (hfind : semFindNamed list name = none) :
    StepsTo list a (.open name oflag mode value memory) := by
  have hnamed := semFindNamed_eq list hname.1 (Nat.lt_of_not_le hlong)
  rw [StepsTo, exec, semOpen, if_neg fun hmin => hlong (length_toolong_iff.mp hmin), Names.Expects, if_neg hlong, hfind]
  rw [hnamed] at hfind
  simp only [h.tracks.of_not_find hfind]
  by_cases hcreat : oflag.creat = true
  · rw [if_pos hcreat, if_pos hcreat, semFindFree]
    cases hfree : list.findIdx? fun sem => sem.isInitialized = 0 with
    | some i =>
      obtain ⟨hheld, hmatches⟩ := h.fill oflag mode value memory hname hfind hfree
      exact ⟨Or.inl ⟨i, rfl, hheld⟩, hmatches⟩
    | none =>
      cases memory with
      | none => exact ⟨Or.inr ⟨rfl, rfl⟩, h⟩
      | some entry =>
        obtain ⟨hheld, hmatches⟩ := h.extend oflag mode value entry hname hfind
        exact ⟨Or.inl ⟨list.length, rfl, hheld⟩, hmatches⟩
  · rw [if_neg hcreat, if_neg hcreat]
    exact ⟨rfl, h⟩

theorem Matches.open (h : Matches list a) {oflag : OFlag} {mode value : UInt32} {memory : Option SemT}
    (hc : a.Permits (.open name oflag mode value memory)) : StepsTo list a (.open name oflag mode value memory) := by
  obtain ⟨hzero, hroom⟩ := hc
  by_cases hlong : nameMax ≤ name.length
  · rw [StepsTo, exec, semOpen, if_pos (length_toolong_iff.mpr hlong)]
    exact ⟨by rw [Names.Expects, if_pos hlong]; rfl, h⟩
  · cases hfind : semFindNamed list name with
    | some i => exact h.open_existing hlong hzero hfind
    | none =>
      have hfits : Fits name := ⟨hzero, by rw [nameMax] at hlong hroom ⊢; omega⟩
      exact h.open_new hlong hfits hfind

theorem Matches.stepsTo (h : Matches list a) {c : Call} (hc : a.Permits c) : StepsTo list a c := by
  cases c with
  | «open» name oflag mode value memory => exact h.open hc
  | close pid sem => exact h.close hc
  | unlink pid name => exact h.unlink hc
  | getvalue pid sem => exact h.getvalue hc
  | trywait pid sem => exact h.trywait hc
  | post pid sem => exact h.post hc

theorem matches_empty : Matches [] Names.empty := ⟨Tracks.empty, rfl, fun _ h => absurd h List.not_mem_nil⟩

/-- Every call is answered as the names say, whatever was called before. -/
theorem semaphores_by_name (calls : List Call) : Faithful Names.empty [] calls := by
  have hrun : ∀ (calls : List Call) (list : List SemT) (a : Names), Matches list a → Faithful a list calls := by
    intro calls
    induction calls with
    | nil => exact fun _ _ _ => trivial
    | cons c cs ih =>
      intro list a h hc
      obtain ⟨hreply, hnext⟩ := h.stepsTo hc
      exact ⟨hreply, ih _ _ hnext⟩
  exact hrun calls [] Names.empty matches_empty

end Semaphore

end CoActionOS
