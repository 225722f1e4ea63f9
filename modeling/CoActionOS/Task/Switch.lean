import Mathlib.Data.List.Basic
import Mathlib.Data.List.Chain
import Mathlib.Logic.Function.Basic
import Mathlib.Tactic.IntervalCases

/-!
# The context switcher

`task_context_switcher` selects the next task of the table that executes and has time left in the round or is a FIFO task.  At the
end of the table it selects task 0, and if no executing task has time left it gives all of them the time of a new round.

FIFO tasks are asked for their time there, too, though they do not run on it.  `roundRobin_iff` says in which runs the others
go on nevertheless.
-/

namespace CoActionOS

namespace Task

open Function

/-! ### The code -/

/-- `SYSTICK_MIN_CYCLES` -/
def systickMinCycles : Int := 10000

/-- What the switcher uses of a `task_t`. -/
structure Row where
  exec : Bool
  isfifo : Bool
  rrTime : Int
  timer : BitVec 64

/-- The task table; `task_set_interval` has seen to it that the time of a round is not too short. -/
structure Table where
  total : Nat
  row : Nat → Row
  current : Nat
  rrReload : Int
  current_lt : current < total
  le_rrReload : systickMinCycles ≤ rrReload

/-- Time remains on the round robin. -/
def Row.hasTime (r : Row) : Bool := decide (systickMinCycles ≤ r.rrTime)

/-- The condition to be selected. -/
def Row.ready (r : Row) : Bool := r.exec && (r.hasTime || r.isfifo)

/-- The loop over the tasks from `i` on, with the number of them that are left in the table. -/
def select (row : Nat → Row) : Nat → Nat → Option Nat
  | 0, _ => none
  | left + 1, i => if (row i).ready then some i else select row left (i + 1)

namespace Table

variable (t : Table)

/-- Task 0 is refilled on its own. -/
def refillZero : Nat → Row :=
  if (t.row 0).rrTime < systickMinCycles then
    update t.row 0 { t.row 0 with rrTime := t.rrReload, timer := (t.row 0).timer + BitVec.ofInt 64 t.rrReload }
  else t.row

/-- The reload of a row. -/
def reload (r : Row) : Row :=
  if r.exec then { r with rrTime := t.rrReload, timer := r.timer + BitVec.ofInt 64 (t.rrReload - r.rrTime) } else r

/-- At the end of the table: "see if all tasks have used up their RR time". -/
def nextRound : Nat → Row :=
  let row := t.refillZero
  if (List.range' 1 (t.total - 1)).any fun i => (row i).exec && (row i).hasTime then row
  else fun i => if 1 ≤ i ∧ i < t.total then t.reload (row i) else row i

theorem select_lt {row : Nat → Row} {left i k : Nat} (h : select row left i = some k) : i ≤ k ∧ k < i + left := by
  induction left generalizing i with
  | zero => exact nomatch h
  | succ left ih =>
    unfold select at h
    split_ifs at h
    · obtain rfl := Option.some.inj h
      omega
    · have hrest := ih h
      omega

/-- `task_context_switcher` -/
def taskContextSwitcher : Table :=
  match h : select t.row (t.total - (t.current + 1)) (t.current + 1) with
  | some i =>
    { t with
      current := i
      current_lt := by
        have hi := select_lt h
        have hlt := t.current_lt
        omega }
  | none =>
    { t with
      row := t.nextRound
      current := 0
      current_lt := Nat.lt_of_le_of_lt (Nat.zero_le _) t.current_lt }

/-- One row is changed. -/
def setRow (id : Nat) (r : Row) : Table := { t with row := update t.row id r }

/-- `task_priv_switch_context`, with the value of the timer -/
def taskPrivSwitchContext (val : Fin (2 ^ 24)) : Table := t.setRow t.current { t.row t.current with rrTime := val }

/-- `task_set_interval`, from the clamping on -/
def taskSetInterval (reload : Nat) : Table :=
  { t with
    rrReload := if 0xFFFFFF < reload then 0xFFFFFF else if (reload : Int) < systickMinCycles then systickMinCycles else reload
    le_rrReload := by
      unfold systickMinCycles
      split_ifs <;> omega }

end Table

/-! ### Runs -/

/-- What happens in the system: the handlers of `PendSV` and of the tick, a task that yields, and the calls on the table. -/
inductive Action where
  | pendsv
  | systick (countflag : Bool)
  | switchContext (val : Fin (2 ^ 24))
  | setExec (id : Nat) (exec : Bool)
  | setFifo (id : Nat) (isfifo : Bool)
  | newTask (id : Nat) (exec isfifo : Bool)
  | setInterval (reload : Nat)

/-- A context switch. -/
structure Switch where
  before : Table
  after : Table

def switch (t : Table) : Table × Option Switch := (t.taskContextSwitcher, some ⟨t, t.taskContextSwitcher⟩)

def step (t : Table) : Action → Table × Option Switch
  | .pendsv => switch t
  | .systick countflag =>
    if countflag then switch (t.setRow t.current { t.row t.current with rrTime := 0 }) else (t, none)
  | .switchContext val => (t.taskPrivSwitchContext val, none)
  | .setExec id exec => (t.setRow id { t.row id with exec := exec }, none)
  | .setFifo id isfifo => (t.setRow id { t.row id with isfifo := isfifo }, none)
  | .newTask id exec isfifo => (t.setRow id ⟨exec, isfifo, t.rrReload, 0⟩, none)
  | .setInterval reload => (t.taskSetInterval reload, none)

/-- The switches of a run. -/
def switches : Table → List Action → List Switch
  | _, [] => []
  | t, a :: as => (step t a).2.toList ++ switches (step t a).1 as

/-! ### The statement -/

namespace Table

variable (t : Table)

/-- A task that is executing and is not a FIFO task. -/
def RoundRobin (i : Nat) : Prop := (1 ≤ i ∧ i < t.total) ∧ (t.row i).exec = true ∧ (t.row i).isfifo = false

/-- None of the tasks behind the current one is ready. -/
def AtEnd : Prop := ∀ i, t.current < i → i < t.total → (t.row i).ready = false

/-- At the end of the table, if there is a task to go on: either such a task has time left, or no task at all has. -/
def Feeds : Prop := t.AtEnd → (∃ i, t.RoundRobin i) →
  (∃ i, t.RoundRobin i ∧ (t.row i).hasTime = true) ∨
    ∀ i, 1 ≤ i → i < t.total → (t.row i).exec = true → (t.row i).hasTime = false

end Table

/-- The tasks take turns. -/
structure TakesTurns (es : List Switch) : Prop where
  /-- When task 0 is selected, one that can go on has time left. -/
  served : ∀ e ∈ es, e.after.current = 0 → (∃ i, e.before.RoundRobin i) →
    ∃ i, e.after.RoundRobin i ∧ (e.after.row i).hasTime = true
  /-- No task with time left is passed over. -/
  reached : ∀ e ∈ es, ∀ i, e.before.current < i → i < e.before.total → (e.before.row i).exec = true →
    (e.before.row i).hasTime = true → e.after.current ≠ 0 ∧ e.after.current ≤ i
  increasing : es.IsChain fun e e' => e'.after.current = 0 ∨ e.after.current < e'.after.current
  selected : ∀ e ∈ es, e.after.current ≠ 0 → (e.before.row e.after.current).isfifo = false →
    e.before.RoundRobin e.after.current ∧ (e.before.row e.after.current).hasTime = true
  zero : ∀ e ∈ es, e.after.current = 0 → (e.after.row 0).hasTime = true

/-! ### One switch -/

variable {t : Table}

theorem select_some {row : Nat → Row} {left i k : Nat} (h : select row left i = some k) :
    (row k).ready = true ∧ ∀ j, i ≤ j → j < k → (row j).ready = false := by
  induction left generalizing i with
  | zero => exact nomatch h
  | succ left ih =>
    unfold select at h
    split_ifs at h with hready
    · obtain rfl := Option.some.inj h
      exact ⟨hready, fun j hj hjk => absurd hjk (Nat.not_lt.mpr hj)⟩
    · obtain ⟨hk, hbefore⟩ := ih h
      refine ⟨hk, fun j hj hjk => ?_⟩
      rcases Nat.lt_or_eq_of_le hj with hlt | rfl
      · exact hbefore j hlt hjk
      · exact Bool.eq_false_iff.mpr hready

theorem select_none {row : Nat → Row} {left i : Nat} (h : select row left i = none) :
    ∀ j, i ≤ j → j < i + left → (row j).ready = false := by
  induction left generalizing i with
  | zero =>
    intro j hj hlt
    omega
  | succ left ih =>
    unfold select at h
    split_ifs at h with hready
    intro j hj hlt
    rcases Nat.lt_or_eq_of_le hj with hlt' | rfl
    · exact ih h j hlt' (by omega)
    · exact Bool.eq_false_iff.mpr hready

/-- Either the next ready task is selected and no row changes, or there is none and a round ends. -/
theorem taskContextSwitcher_cases (t : Table) :
    (∃ i, t.current < i ∧ i < t.total ∧ (t.row i).ready = true ∧ (∀ j, t.current < j → j < i → (t.row j).ready = false) ∧
      t.taskContextSwitcher.current = i ∧ t.taskContextSwitcher.row = t.row ∧ t.taskContextSwitcher.total = t.total) ∨
    (t.AtEnd ∧ t.taskContextSwitcher.current = 0 ∧ t.taskContextSwitcher.row = t.nextRound ∧
      t.taskContextSwitcher.total = t.total) := by
  have hlt := t.current_lt
  unfold Table.taskContextSwitcher
  split
  · next i h =>
    obtain ⟨hready, hbefore⟩ := select_some h
    have hi := Table.select_lt h
    exact Or.inl ⟨i, hi.1, by omega, hready, hbefore, rfl, rfl, rfl⟩
  · next h => exact Or.inr ⟨fun j hj hjt => select_none h j hj (by omega), rfl, rfl, rfl⟩

/-! ### The end of a round -/

namespace Table

theorem refillZero_of_pos {i : Nat} (hi : 1 ≤ i) : t.refillZero i = t.row i := by
  unfold refillZero
  split_ifs
  · exact update_of_ne (by omega) _ _
  · rfl

theorem hasTime_refillZero (t : Table) : (t.refillZero 0).hasTime = true := by
  unfold refillZero
  split_ifs with hused
  · rw [update_self]
    exact decide_eq_true t.le_rrReload
  · exact decide_eq_true (Int.not_lt.mp hused)

/-- Some task of the table executes and has time left. -/
def SomeTime (t : Table) : Prop := ∃ i, (1 ≤ i ∧ i < t.total) ∧ (t.row i).exec = true ∧ (t.row i).hasTime = true

theorem any_iff (t : Table) : ((List.range' 1 (t.total - 1)).any fun i => (t.refillZero i).exec && (t.refillZero i).hasTime) = true ↔
    t.SomeTime := by
  have hlt := t.current_lt
  unfold SomeTime
  rw [List.any_eq_true]
  constructor
  · rintro ⟨i, hi, htime⟩
    rw [List.mem_range'_1] at hi
    rw [refillZero_of_pos hi.1, Bool.and_eq_true] at htime
    exact ⟨i, ⟨hi.1, by omega⟩, htime⟩
  · rintro ⟨i, hi, htime⟩
    refine ⟨i, List.mem_range'_1.mpr ⟨hi.1, by omega⟩, ?_⟩
    rw [refillZero_of_pos hi.1, Bool.and_eq_true]
    exact htime

theorem nextRound_zero (t : Table) : t.nextRound 0 = t.refillZero 0 := by
  unfold nextRound
  split_ifs
  · rfl
  · rfl

theorem nextRound_of_someTime (h : t.SomeTime) {i : Nat} (hi : 1 ≤ i) : t.nextRound i = t.row i := by
  unfold nextRound
  rw [if_pos (t.any_iff.mpr h)]
  exact refillZero_of_pos hi

theorem nextRound_of_not (h : ¬ t.SomeTime) {i : Nat} (hi : 1 ≤ i) (hit : i < t.total) : t.nextRound i = t.reload (t.row i) := by
  unfold nextRound
  rw [if_neg fun hany => h (t.any_iff.mp hany), if_pos ⟨hi, hit⟩, refillZero_of_pos hi]

/-- The flags are not changed, and a task that is given a new round has time. -/
theorem reload_spec (t : Table) (r : Row) : (t.reload r).exec = r.exec ∧ (t.reload r).isfifo = r.isfifo ∧
    (r.exec = true → (t.reload r).hasTime = true) := by
  unfold reload
  split_ifs with hexec
  · exact ⟨rfl, rfl, fun _ => decide_eq_true t.le_rrReload⟩
  · exact ⟨rfl, rfl, fun h => absurd h hexec⟩

/-- Whether the tasks that can go on get time depends on all that execute. -/
theorem fed_iff (t : Table) {i : Nat} (hi : t.RoundRobin i) :
    (∃ i, ((1 ≤ i ∧ i < t.total) ∧ (t.nextRound i).exec = true ∧ (t.nextRound i).isfifo = false) ∧ (t.nextRound i).hasTime = true) ↔
      (∃ i, t.RoundRobin i ∧ (t.row i).hasTime = true) ∨
        ∀ i, 1 ≤ i → i < t.total → (t.row i).exec = true → (t.row i).hasTime = false := by
  by_cases hsome : t.SomeTime
  · constructor
    · rintro ⟨k, ⟨hk, hflags⟩, htime⟩
      rw [nextRound_of_someTime hsome hk.1] at hflags htime
      exact Or.inl ⟨k, ⟨hk, hflags⟩, htime⟩
    · rintro (⟨k, ⟨hk, hflags⟩, htime⟩ | hnone)
      · refine ⟨k, ⟨hk, ?_⟩, ?_⟩ <;> rw [nextRound_of_someTime hsome hk.1]
        · exact hflags
        · exact htime
      · obtain ⟨k, hk, hexec, htime⟩ := hsome
        rw [hnone k hk.1 hk.2 hexec] at htime
        exact nomatch htime
  · refine iff_of_true ⟨i, ⟨hi.1, ?_⟩, ?_⟩ (Or.inr fun k hk hkt hexec => ?_)
    · rw [nextRound_of_not hsome hi.1.1 hi.1.2, (t.reload_spec _).1, (t.reload_spec _).2.1]
      exact hi.2
    · rw [nextRound_of_not hsome hi.1.1 hi.1.2]
      exact (t.reload_spec _).2.2 hi.2.1
    · exact Bool.eq_false_iff.mpr fun htime => hsome ⟨k, ⟨hk, hkt⟩, hexec, htime⟩

end Table

/-! ### One switch meets what it should -/

/-- `TakesTurns` for one switch. -/
structure Turn (e : Switch) : Prop where
  reached : ∀ i, e.before.current < i → i < e.before.total → (e.before.row i).exec = true →
    (e.before.row i).hasTime = true → e.after.current ≠ 0 ∧ e.after.current ≤ i
  increasing : e.after.current = 0 ∨ e.before.current < e.after.current
  selected : e.after.current ≠ 0 → (e.before.row e.after.current).isfifo = false →
    e.before.RoundRobin e.after.current ∧ (e.before.row e.after.current).hasTime = true
  zero : e.after.current = 0 → (e.after.row 0).hasTime = true
  served_iff : (e.after.current = 0 → (∃ i, e.before.RoundRobin i) →
    ∃ i, e.after.RoundRobin i ∧ (e.after.row i).hasTime = true) ↔ e.before.Feeds

theorem ready_of_hasTime {r : Row} (hexec : r.exec = true) (htime : r.hasTime = true) : r.ready = true := by
  unfold Row.ready
  rw [hexec, htime]
  rfl

theorem turn (t : Table) : Turn ⟨t, t.taskContextSwitcher⟩ := by
  rcases taskContextSwitcher_cases t with ⟨i, hi, hit, hready, hbefore, hcurrent, hrow, htotal⟩ | ⟨hend, hcurrent, hrow, htotal⟩
  · have hne : t.taskContextSwitcher.current ≠ 0 := by omega
    refine ⟨fun j hj hjt hexec htime => ⟨hne, ?_⟩, Or.inr (hcurrent ▸ hi), fun _ hfifo => ?_, fun h => absurd h hne, ?_⟩
    · by_contra hlt
      have hj' := hbefore j hj (by rw [← hcurrent]; exact Nat.not_le.mp hlt)
      rw [ready_of_hasTime hexec htime] at hj'
      exact nomatch hj'
    · dsimp only at hfifo ⊢
      rw [hcurrent] at hfifo ⊢
      unfold Row.ready at hready
      rw [hfifo, Bool.or_false, Bool.and_eq_true] at hready
      exact ⟨⟨⟨by omega, hit⟩, hready.1, hfifo⟩, hready.2⟩
    · refine iff_of_true (fun h => absurd h hne) fun hend => ?_
      rw [hend i hi hit] at hready
      exact nomatch hready
  · refine ⟨fun j hj hjt hexec htime => ?_, Or.inl hcurrent, fun h => absurd hcurrent h, fun _ => ?_, ?_⟩
    · have hj' := hend j hj hjt
      rw [ready_of_hasTime hexec htime] at hj'
      exact nomatch hj'
    · dsimp only
      rw [hrow, Table.nextRound_zero]
      exact t.hasTime_refillZero
    · unfold Table.Feeds Table.RoundRobin
      dsimp only
      rw [hrow, htotal]
      constructor
      · rintro hserved - ⟨i, hi⟩
        exact (t.fed_iff hi).mp (hserved hcurrent ⟨i, hi⟩)
      · rintro hfeeds - ⟨i, hi⟩
        exact (t.fed_iff hi).mpr (hfeeds hend ⟨i, hi⟩)

/-! ### Runs of switches -/

/-- No other action makes a switch or moves the current task. -/
theorem step_cases (t : Table) (a : Action) : ((step t a).2 = none ∧ (step t a).1.current = t.current) ∨
    ∃ t' : Table, t'.current = t.current ∧ (step t a).2 = some ⟨t', t'.taskContextSwitcher⟩ ∧
      (step t a).1 = t'.taskContextSwitcher := by
  cases a with
  | pendsv => exact Or.inr ⟨t, rfl, rfl, rfl⟩
  | systick countflag =>
    cases countflag with
    | false => exact Or.inl ⟨rfl, rfl⟩
    | true => exact Or.inr ⟨t.setRow t.current { t.row t.current with rrTime := 0 }, rfl, rfl, rfl⟩
  | switchContext val => exact Or.inl ⟨rfl, rfl⟩
  | setExec id exec => exact Or.inl ⟨rfl, rfl⟩
  | setFifo id isfifo => exact Or.inl ⟨rfl, rfl⟩
  | newTask id exec isfifo => exact Or.inl ⟨rfl, rfl⟩
  | setInterval reload => exact Or.inl ⟨rfl, rfl⟩

theorem turn_of_mem {as : List Action} {e : Switch} (h : e ∈ switches t as) : Turn e := by
  induction as generalizing t with
  | nil => exact absurd h List.not_mem_nil
  | cons a as ih =>
    rcases List.mem_append.mp h with hnow | hlater
    · rcases step_cases t a with ⟨hnone, -⟩ | ⟨t', -, hsome, -⟩
      · rw [hnone] at hnow
        exact absurd hnow List.not_mem_nil
      · rw [hsome] at hnow
        obtain rfl := List.mem_singleton.mp hnow
        exact turn t'
    · exact ih hlater

/-- The next switch starts where the last one has stopped, and goes on from there. -/
theorem switches_spec (t : Table) (as : List Action) :
    (∀ e ∈ (switches t as).head?, e.before.current = t.current) ∧
      (switches t as).IsChain fun e e' => e'.after.current = 0 ∨ e.after.current < e'.after.current := by
  induction as generalizing t with
  | nil => exact ⟨fun e he => absurd he (by simp [switches]), List.isChain_nil⟩
  | cons a as ih =>
    obtain ⟨hhead, hchain⟩ := ih (step t a).1
    unfold switches
    rcases step_cases t a with ⟨hnone, hcurrent⟩ | ⟨t', hcurrent, hsome, hafter⟩
    · rw [hnone]
      exact ⟨fun e he => (hhead e he).trans hcurrent, hchain⟩
    · rw [hsome]
      refine ⟨fun e he => ?_, List.isChain_cons.mpr ⟨fun e he => ?_, hchain⟩⟩
      · obtain rfl := Option.some.inj he
        exact hcurrent
      · have hincreasing := (turn_of_mem (List.mem_of_mem_head? he)).increasing
        rw [hhead e he, hafter] at hincreasing
        exact hincreasing

/-- The tasks take turns in a run whose rounds end with time for them. -/
theorem takesTurns_iff (t : Table) (as : List Action) :
    TakesTurns (switches t as) ↔ ∀ e ∈ switches t as, e.before.Feeds := by
  have hturn : ∀ e ∈ switches t as, Turn e := fun e he => turn_of_mem he
  constructor
  · intro h e he
    exact (hturn e he).served_iff.mp (h.served e he)
  · intro h
    refine ⟨fun e he => (hturn e he).served_iff.mpr (h e he), fun e he => (hturn e he).reached, (switches_spec t as).2,
      fun e he => (hturn e he).selected, fun e he => (hturn e he).zero⟩

/-- A FIFO task that has yielded in time keeps a task without time from the next round. -/
def starving : Table where
  total := 3
  row i := if i = 1 then ⟨true, true, 20000, 0⟩ else ⟨true, false, 0, 0⟩
  current := 2
  rrReload := 50000
  current_lt := by decide
  le_rrReload := by decide

theorem not_takesTurns : ¬ ∀ (t : Table) (as : List Action), TakesTurns (switches t as) := by
  intro h
  obtain ⟨i, hi, htime⟩ := (h starving [.pendsv]).served _ List.mem_cons_self (by decide) ⟨2, by decide, rfl, rfl⟩
  have hpos : 1 ≤ i := hi.1.1
  have htotal : i < 3 := hi.1.2
  have hfifo := hi.2.2
  interval_cases i <;> revert htime hfifo <;> decide

end Task

end CoActionOS
