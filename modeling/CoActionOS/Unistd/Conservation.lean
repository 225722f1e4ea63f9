import CoActionOS.Lib.Run
import CoActionOS.Unistd.OpenFiles

/-!
# Conservation of descriptors

The descriptors in use are those that `_open` has returned and the process has not closed, in every run whose calls
avoid the paths that keep a slot: a directory asked for with `O_CREAT`, a clock that is set, a file that is no
program and the closing of a standard stream that has still to be opened.
-/

namespace CoActionOS

namespace Unistd

open Function

/-! ### The process -/

inductive Call
  | open (flags mode : Nat) (a : OpenAnswer)
  | close (fildes : Int) (a : StdioAnswer) (closed : Int)
  | settimeofday (a : OpenAnswer) (set : Int) (s : StdioAnswer) (closed : Int)
  | gettimeofday (a : OpenAnswer) (get : Int) (s : StdioAnswer) (closed : Int)
  | processStart (p : ProgramAnswer) (a : OpenAnswer) (s : StdioAnswer) (closed : Int)

/-- A call, the descriptor an `_open` has returned, and the descriptors in use before and after. -/
structure Event where
  call : Call
  result : Option Nat
  before : Finset Nat
  after : Finset Nat

/-- The table, and the descriptors the process was given and has not closed. -/
structure Process where
  table : OpenTable
  held : Finset Nat

def Process.start : Process := ⟨fun _ => ⟨0, 0, 0, 0⟩, ∅⟩

/-- The numbers left when one of them, if it is one, is given back. -/
def giveBack (fildes : Int) (held : Finset Nat) : Finset Nat :=
  if fildes < 0 then held else held.erase fildes.toNat

section

variable (l : Limits)

/-- The call, the table it leaves and the descriptor it returns to the process. -/
def Process.call (p : Process) : Call → OpenTable × Option Nat
  | .open flags mode a =>
    match openFile l flags mode a p.table with
    | (t, r) => (t, r.toOption)
  | .close fildes a closed => ((closeFile l fildes a closed p.table).1, none)
  | .settimeofday a set s closed => ((settimeofdayRtc l a set s closed p.table).1, none)
  | .gettimeofday a get s closed => ((gettimeofdayRtc l a get s closed p.table).1, none)
  | .processStart q a s closed => ((Unistd.processStart l q a s closed p.table).1, none)

def Process.holds (p : Process) (c : Call) (result : Option Nat) : Finset Nat :=
  match c, result with
  | .open .., some fildes => insert fildes p.held
  | .close fildes _ _, _ => giveBack fildes p.held
  | _, _ => p.held

def Process.step (p : Process) (c : Call) : Option (Process × Option Event) :=
  match p.call l c with
  | (t, result) =>
    some (⟨t, p.holds c result⟩, some ⟨c, result, p.table.used l.openMax, t.used l.openMax⟩)

/-- The number of a standard stream, which `_close` opens before it closes it. -/
def Limits.IsStdio (fildes : Int) : Prop :=
  (l.openMax : Int) ≤ fildes ∧ fildes.toNat &&& fildesStdioFlag ≠ 0 ∧
    (fildes.toNat = l.stdinFileno ∨ fildes.toNat = l.stdoutFileno ∨ fildes.toNat = l.stderrFileno)

/-- The calls that leave no slot behind. -/
def Process.Careful (p : Process) : Call → Prop
  | .open flags mode a => ¬ ReservesOnly l flags mode a p.table
  | .close fildes _ _ => ¬ l.IsStdio fildes
  | .settimeofday a set _ _ => set < 0 ∨ ¬ Opens l a p.table
  | .gettimeofday .. => True
  | .processStart q a _ _ => q.access < 0 ∨ q.read ≠ q.headerSize ∨ q.executable = true ∨ ¬ Opens l a p.table

instance (p : Process) : (c : Call) → Decidable (p.Careful l c)
  | .open .. => inferInstanceAs (Decidable (¬ _))
  | .close .. => inferInstanceAs (Decidable (¬ (_ ∧ _)))
  | .settimeofday .. => inferInstanceAs (Decidable (_ ∨ _))
  | .gettimeofday .. => .isTrue trivial
  | .processStart .. => inferInstanceAs (Decidable (_ ∨ _))

end

/-! ### The statement -/

/-- What a call may do to the set of descriptors in use. -/
def Event.Conserves (e : Event) : Prop :=
  match e.call, e.result with
  | .open .., some fildes => fildes ∉ e.before ∧ e.after = insert fildes e.before
  | .close fildes _ _, _ => e.after = giveBack fildes e.before
  | _, _ => e.after = e.before

/-- Every call conserves the descriptors, those in use are those the process holds, and there is room for another
while it holds fewer than `OPEN_MAX`. -/
structure Conserved (l : Limits) (es : List Event) (p : Process) : Prop where
  events : ∀ e ∈ es, e.Conserves
  used : p.table.used l.openMax = p.held
  room : p.held.card < l.openMax → p.table.freeSlot l.openMax 0 ≠ none

/-! ### The invariant -/

/-- No slot is reserved between the calls. -/
structure Process.Sound (l : Limits) (p : Process) : Prop where
  handle : ∀ i < l.openMax, p.table.handles i ≠ 0 → 2 ≤ p.table.handles i
  used : p.table.used l.openMax = p.held

section

variable {l : Limits} {p p' : Process} {c : Call} {e : Option Event}

theorem giveBack_of_notMem {held : Finset Nat} {fildes : Int} (h : 0 ≤ fildes → fildes.toNat ∉ held) :
    giveBack fildes held = held := by
  unfold giveBack
  split_ifs with hneg
  · rfl
  · exact Finset.erase_eq_of_notMem (h (Int.not_lt.mp hneg))

theorem Process.Sound.room (h : p.Sound l) (hcard : p.held.card < l.openMax) : p.table.freeSlot l.openMax 0 ≠ none := by
  intro hnone
  have hfull := freeSlot_eq_none hnone
  rw [h.used] at hfull
  rw [hfull, Finset.card_range] at hcard
  exact Nat.lt_irrefl _ hcard

/-- A call that leaves the handles as they were. -/
theorem Process.Sound.congr (h : p.Sound l) {t : OpenTable} (hhandles : t.handles = p.table.handles) :
    Process.Sound l ⟨t, p.held⟩ := by
  refine ⟨?_, (used_congr hhandles).trans h.used⟩
  show ∀ i < l.openMax, t.handles i ≠ 0 → 2 ≤ t.handles i
  rw [hhandles]
  exact h.handle

/-- `_close` frees the slot of an open descriptor and leaves the table alone for any other number. -/
theorem Process.Sound.closeFile (h : p.Sound l) {fildes : Int} (a : StdioAnswer) (closed : Int)
    (hstdio : ¬ l.IsStdio fildes) :
    (Unistd.closeFile l fildes a closed p.table).1.handles =
        (if 0 ≤ fildes ∧ fildes < l.openMax then update p.table.handles fildes.toNat 0 else p.table.handles) ∧
      (Unistd.closeFile l fildes a closed p.table).1.used l.openMax = giveBack fildes (p.table.used l.openMax) := by
  by_cases hneg : fildes < 0
  -- the number is negative, and the call fails
  · have hout : ¬ (0 ≤ fildes ∧ fildes < l.openMax) := fun hin => absurd hneg (Int.not_lt.mpr hin.1)
    have hclose : Unistd.closeFile l fildes a closed p.table = (p.table, -1) := by
      unfold Unistd.closeFile fildesIsBad
      rw [if_pos hneg]
    rw [hclose, if_neg hout]
    exact ⟨rfl, (giveBack_of_notMem fun hpos => absurd hneg (Int.not_lt.mpr hpos)).symm⟩
  · have hpos : 0 ≤ fildes := Int.not_lt.mp hneg
    obtain ⟨i, rfl⟩ := Int.eq_ofNat_of_zero_le hpos
    by_cases hlt : (i : Int) < l.openMax
    · have hi : i < l.openMax := Int.ofNat_lt.mp hlt
      rw [if_pos ⟨hpos, hlt⟩, Int.toNat_natCast]
      by_cases hzero : p.table.handles i = 0
      -- the slot is free, and the call fails
      · have hhandle : ¬ (p.table (i : Int).toNat).handle / 2 ≠ 0 := by
          show ¬ p.table.handles i / 2 ≠ 0
          rw [hzero]
          exact not_not.mpr rfl
        have hclose : Unistd.closeFile l i a closed p.table = (p.table, -1) := by
          unfold Unistd.closeFile fildesIsBad
          rw [if_neg hneg, if_pos hlt, if_neg hhandle]
        rw [hclose]
        exact ⟨(update_eq_self_iff.mpr hzero.symm).symm,
          (giveBack_of_notMem fun _ hmem => (mem_used.mp hmem).2 hzero).symm⟩
      -- the slot is in use
      · have hopen : 2 ≤ (p.table i).handle := h.handle i hi hzero
        rw [closeFile_of_open a closed hi hopen]
        refine ⟨handles_unistdResetFildes, ?_⟩
        unfold giveBack
        rw [if_neg hneg]
        exact used_erase handles_unistdResetFildes
    · have hout : ¬ (0 ≤ (i : Int) ∧ (i : Int) < l.openMax) := fun hin => hlt hin.2
      have hclose : Unistd.closeFile l i a closed p.table = (p.table, -1) := by
        unfold Unistd.closeFile fildesIsBad
        rw [if_neg hneg, if_neg hlt, Int.toNat_natCast]
        split_ifs with hflag
        -- past the table only the flagged standard streams are looked at, which `hstdio` rules out
        · have hnot : ¬ (i = l.stdinFileno ∨ i = l.stdoutFileno ∨ i = l.stderrFileno) :=
            fun hstream => hstdio ⟨Int.not_lt.mp hlt, hflag, hstream⟩
          unfold unistdInitStdio
          rw [if_neg hnot]
        · rfl
      rw [hclose, if_neg hout]
      refine ⟨rfl, (giveBack_of_notMem fun _ hmem => ?_).symm⟩
      rw [Int.toNat_natCast] at hmem
      exact hlt (Int.ofNat_lt.mpr (mem_used.mp hmem).1)

/-- One call keeps the invariant and conserves the descriptors. -/
theorem Process.Sound.step (h : p.Sound l) (hcare : p.Careful l c) (hstep : p.step l c = some (p', e)) :
    p'.Sound l ∧ ∀ e' ∈ e, e'.Conserves := by
  unfold Process.step at hstep
  cases c with
  | «open» flags mode a =>
    cases hopen : openFile l flags mode a p.table with
    | mk t r =>
      simp only [Process.call, hopen, Option.some.injEq, Prod.mk.injEq] at hstep
      obtain ⟨rfl, rfl⟩ := hstep
      rcases openFile_cases flags mode a hopen hcare with
        ⟨i, handle, rfl, hi, hzero, hhandle, hhandles⟩ | ⟨⟨err, rfl⟩, hhandles⟩
      -- the lowest free slot was taken
      · have hused := used_insert (h := handle) hi (by omega) hhandles
        refine ⟨⟨?_, ?_⟩, ?_⟩
        · intro j hj hne
          show 2 ≤ t.handles j
          change t.handles j ≠ 0 at hne
          rw [hhandles] at hne ⊢
          by_cases hji : j = i
          · rw [hji, update_self]
            exact hhandle
          · rw [update_of_ne hji] at hne ⊢
            exact h.handle j hj hne
        · show t.used l.openMax = insert i p.held
          rw [hused, h.used]
        · intro e' he'
          cases he'
          exact ⟨fun hmem => (mem_used.mp hmem).2 hzero, hused⟩
      -- the call failed, and no slot was taken
      · refine ⟨h.congr hhandles, ?_⟩
        intro e' he'
        cases he'
        exact used_congr hhandles
  | close fildes a closed =>
    obtain ⟨hhandles, hused⟩ := h.closeFile a closed hcare
    simp only [Process.call, Option.some.injEq, Prod.mk.injEq] at hstep
    obtain ⟨rfl, rfl⟩ := hstep
    refine ⟨⟨?_, ?_⟩, ?_⟩
    -- the slots that stay in use keep their handles
    · intro j hj hne
      simp only [hhandles] at hne ⊢
      split_ifs at hne ⊢
      · by_cases hji : j = fildes.toNat
        · rw [hji, update_self] at hne
          exact absurd rfl hne
        · rw [update_of_ne hji] at hne ⊢
          exact h.handle j hj hne
      · exact h.handle j hj hne
    · rw [hused, h.used]
      rfl
    · intro e' he'
      cases he'
      exact hused
  | settimeofday a set s closed =>
    have hhandles := handles_settimeofdayRtc a s closed hcare
    simp only [Process.call, Option.some.injEq, Prod.mk.injEq] at hstep
    obtain ⟨rfl, rfl⟩ := hstep
    refine ⟨h.congr hhandles, ?_⟩
    intro e' he'
    cases he'
    exact used_congr hhandles
  | gettimeofday a get s closed =>
    have hhandles := handles_gettimeofdayRtc (l := l) (t := p.table) a get s closed
    simp only [Process.call, Option.some.injEq, Prod.mk.injEq] at hstep
    obtain ⟨rfl, rfl⟩ := hstep
    refine ⟨h.congr hhandles, ?_⟩
    intro e' he'
    cases he'
    exact used_congr hhandles
  | processStart q a s closed =>
    have hhandles := handles_processStart a s closed hcare
    simp only [Process.call, Option.some.injEq, Prod.mk.injEq] at hstep
    obtain ⟨rfl, rfl⟩ := hstep
    refine ⟨h.congr hhandles, ?_⟩
    intro e' he'
    cases he'
    exact used_congr hhandles

end

theorem sound_start (l : Limits) : Process.start.Sound l := by
  have hzero : ∀ i, Process.start.table.handles i = 0 := fun _ => rfl
  refine ⟨fun i _ hne => absurd (hzero i) hne, ?_⟩
  apply Finset.eq_empty_of_forall_notMem
  intro i hi
  exact (mem_used.mp hi).2 (hzero i)

/-- The descriptors are conserved. -/
theorem conserved_of_careful (l : Limits) (es : List Event) (p : Process)
    (hrun : Run (Process.step l) (Process.Careful l) Process.start es p) : Conserved l es p := by
  have hinv : p.Sound l ∧ ∀ e ∈ es, e.Conserves := by
    apply Run.invariant (fun es p => p.Sound l ∧ ∀ e ∈ es, e.Conserves) _ _ hrun
    · exact ⟨sound_start l, fun e he => absurd he List.not_mem_nil⟩
    · intro es p c p' e h hcare hstep
      obtain ⟨hsound, hevent⟩ := h.1.step hcare hstep
      refine ⟨hsound, fun e' he' => ?_⟩
      rcases List.mem_append.mp he' with he' | he'
      · exact h.2 e' he'
      · exact hevent e' (Option.mem_toList.mp he')
  exact ⟨hinv.2, hinv.1.used, hinv.1.room⟩

/-- Every file opens, with the address `2`. -/
def answer : OpenAnswer := ⟨none, some 0, fun _ => some ⟨2, le_rfl⟩, 0⟩

def stdioAnswer : StdioAnswer := ⟨answer, answer, answer⟩

def smallLimits : Limits := ⟨4, 0x200, 0x201, 0x202⟩

/-- A file is opened, the time read, a clock refuses to be set, a program found in use, and the file closed. -/
def conservingCalls : List Call :=
  [.open oRdwr 0 answer, .gettimeofday answer 0 stdioAnswer 0, .settimeofday answer (-1) stdioAnswer 0,
    .processStart ⟨40, 0, 40, true, false, 7⟩ answer stdioAnswer 0, .close 0 stdioAnswer 0]

theorem conserved_conservingCalls : ∃ es p,
    Run (Process.step smallLimits) (Process.Careful smallLimits) Process.start es p ∧ es.length = 5 ∧
      Conserved smallLimits es p := by
  obtain ⟨p, es, hp, hlength⟩ : ∃ p es,
      Run.replay (Process.step smallLimits) Process.start conservingCalls = some (p, es) ∧ es.length = 5 :=
    ⟨_, _, rfl, rfl⟩
  have hcare : Run.AllOk (Process.step smallLimits) (Process.Careful smallLimits) Process.start conservingCalls := by
    decide
  have hrun := Run.of_replay hp hcare
  exact ⟨es, p, hrun, hlength, conserved_of_careful smallLimits es p hrun⟩

/-- A directory is asked for with `O_CREAT`: the call fails and its slot stays reserved. -/
theorem not_conserved : ¬ ∀ (l : Limits) (es : List Event) (p : Process),
    Run (Process.step l) (fun _ _ => True) Process.start es p → Conserved l es p := by
  intro h
  obtain ⟨p, es, hp, hused, hheld⟩ : ∃ p es,
      Run.replay (Process.step smallLimits) Process.start [.open oCreat sIfdir answer] = some (p, es) ∧
        0 ∈ p.table.used 4 ∧ p.held = ∅ := ⟨_, _, rfl, by decide, rfl⟩
  have hconserved := h smallLimits es p (Run.of_replay hp (Run.allOk_true _ _))
  have heq : p.table.used 4 = p.held := hconserved.used
  rw [heq, hheld] at hused
  exact Finset.notMem_empty 0 hused

end Unistd

end CoActionOS
