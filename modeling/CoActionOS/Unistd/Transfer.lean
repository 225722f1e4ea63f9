import CoActionOS.Errno
import CoActionOS.Lib.Run
import CoActionOS.Sched.Rows
import CoActionOS.Unistd.OpenFiles

/-!
# Transfers between a thread and a device driver

`device_data_transfer` hands an operation to a driver and sleeps until the driver calls back.  Whether a signal
interrupted the sleep is read off the unblock type of the thread, which the next call finds as the last one left it.

A run interleaves the steps of one thread with what the drivers answer and complete, with signals and with every other
event that wakes the thread.  The driver's answers are inputs, so a result about all runs is one about every driver.

* `keeps_of_careful`: no data is lost along a run whose steps keep the unblock type telling the truth.
* `not_keeps`: a signal that was delivered between two calls makes the second one throw away what it read.
-/

namespace CoActionOS

namespace Sched

/-- `priv_data_transfer_callback` for an operation of the task `tid`: every task blocked on `object` wakes up. -/
def privDataTransferCallback (s : Sched) (tid object : Nat) : Sched :=
  let newPriority := if tid < s.total && (s.table tid).enabled then (s.table tid).priority else -1
  let r := s.ids.foldl
    (fun (acc : Sched × Int) i =>
      if (acc.1.table i).enabled && (acc.1.table i).blockObject == object then
        (acc.1.schedPrivAssertActive i .transfer,
          if (acc.1.table i).priority > acc.2 then (acc.1.table i).priority else acc.2)
      else acc)
    (s, newPriority)
  r.1.schedPrivUpdateOnWake r.2

variable (s : Sched)

theorem table_wakeBlocked (object : Nat) (l : List Nat) (acc : Sched × Int) (i : Nat) :
    (l.foldl
      (fun (acc : Sched × Int) i =>
        if (acc.1.table i).enabled && (acc.1.table i).blockObject == object then
          (acc.1.schedPrivAssertActive i .transfer,
            if (acc.1.table i).priority > acc.2 then (acc.1.table i).priority else acc.2)
        else acc) acc).1.table i =
      if i ∈ l ∧ (acc.1.table i).enabled = true ∧ (acc.1.table i).blockObject = object then
        (acc.1.table i).woken .transfer
      else acc.1.table i := by
  induction l generalizing acc with
  | nil => simp
  | cons j l ih =>
    rw [List.foldl_cons, ih]
    by_cases hj : ((acc.1.table j).enabled && (acc.1.table j).blockObject == object) = true
    · rw [if_pos hj]
      simp only [Bool.and_eq_true, beq_iff_eq] at hj
      by_cases hij : i = j
      · subst hij
        -- a second visit would change nothing
        simp only [table_assertActive, if_true, SchedTask.woken_woken, ite_self, List.mem_cons, true_or, hj, and_self]
      · simp only [table_assertActive, hij, if_false, List.mem_cons, false_or]
    · rw [if_neg hj]
      simp only [Bool.and_eq_true, beq_iff_eq] at hj
      by_cases hij : i = j
      · subst hij
        simp only [hj, and_false, if_false]
      · simp only [List.mem_cons, hij, false_or]

theorem noExec_dataTransferCallback (tid object i : Nat) :
    ((s.privDataTransferCallback tid object).table i).noExec =
      (if i ∈ s.ids ∧ (s.table i).enabled = true ∧ (s.table i).blockObject = object then
        (s.table i).woken .transfer
      else s.table i).noExec := by
  unfold privDataTransferCallback
  simp only
  rw [(execOnly_updateOnWake _ _).noExec, table_wakeBlocked]

end Sched

namespace Unistd

/-- `O_NONBLOCK` and `S_IFCHR` -/
def oNonblock : Nat := 0x4000
def sIfchr : Nat := 0x2000

/-- What `priv_read` or `priv_write` says: the value it returns, `op.nbyte` at that moment and whether the driver keeps
the operation to complete it later. -/
structure DriverAnswer where
  ret : Int
  nbyte : Int
  keeps : Bool
  deriving DecidableEq, Repr

/-- `priv_device_data_transfer_t` with the open file and the mode that `device_data_transfer` looks at. -/
structure Transfer where
  file : Nat
  handle : Nat
  read : Nat
  flags : Nat
  mode : Int
  want : Int
  ret : Int
  nbyte : Int
  deriving DecidableEq, Repr

namespace Transfer

variable (p : Transfer)

/-- The address a thread blocks on: `handle + read`. -/
def object : Nat := p.handle + p.read

/-- `(mode & S_IFMT) == S_IFCHR` -/
def isChr : Bool := p.mode.toNat &&& sIfmt == sIfchr

/-- What the body of the loop in `device_data_transfer` decides after the privileged call. -/
inductive Outcome
  | interrupted
  | again
  | done (result : Int) (errno : Option Errno)
  deriving DecidableEq, Repr

/-- The tests after the privileged call; the error `none` is one the driver has set. -/
def outcome (unblockType : SchedUnblockType) : Outcome :=
  if unblockType = .signal then .interrupted
  else if 0 < p.ret then .done p.ret none
  else if p.ret = 0 then
    if 0 < p.nbyte then .done p.nbyte none
    else if p.nbyte = 0 then
      if p.flags &&& oNonblock ≠ 0 then .done (-1) (some .enodata) else .again
    else .done (-1) none
  else .done (-1) (if p.ret = -101010 then some .enxio else none)

/-- The position of the file moves by what was transferred, on anything but a character device. -/
def advance (files : OpenTable) (result : Int) : OpenTable :=
  if p.isChr = false ∧ 0 < result then files.setLoc p.file ((files p.file).loc + result) else files

end Transfer

/-- `priv_device_data_transfer` of the task `current`. -/
def privDeviceDataTransfer (s : Sched) (current : Nat) (p : Transfer) (a : DriverAnswer) : Sched × Transfer :=
  let p := { p with ret := a.ret, nbyte := a.nbyte }
  if p.ret = 0 ∧ 0 ≤ p.nbyte then
    ((s.modify current fun t => { t with blockObject := p.object }).schedPrivUpdateOnSleep current, p)
  else (s, p)

/-! ### The runs of a thread -/

/-- Where the thread is: outside of a transfer, about to make the privileged call, after it, or about to clear the
driver's action because a signal interrupted it. -/
inductive Phase
  | idle
  | starting (p : Transfer)
  | started (p : Transfer)
  | clearing (p : Transfer)
  deriving DecidableEq, Repr

namespace Phase

def transfer : Phase → Option Transfer
  | idle => none
  | starting p | started p | clearing p => some p

/-- The transfer that the driver has been asked for. -/
def asked : Phase → Option Transfer
  | started p => some p
  | _ => none

/-- The driver writes to `op.nbyte`. -/
def setNbyte (n : Int) : Phase → Phase
  | idle => idle
  | starting p => starting { p with nbyte := n }
  | started p => started { p with nbyte := n }
  | clearing p => clearing { p with nbyte := n }

end Phase

/-- The system as one of its threads sees it.

`held` says that a driver has the operation of the call under way; `late` lists what the calls returned that left an
operation with a driver.  `woken` and `performed` are for the statement only: a signal woke the thread while this
transfer was blocked, and the data that the driver has transferred for this call. -/
structure Thread where
  sched : Sched
  files : OpenTable
  phase : Phase
  held : Bool
  late : List Int
  woken : Bool
  performed : Option Int

inductive Action
  /-- The thread calls `read` or `write`; `get_mode` answers `mode`. -/
  | call (file read : Nat) (want mode : Int)
  /-- The privileged call; `none` when it could not be made. -/
  | start (a : Option DriverAnswer)
  /-- The driver completes the operation of the call under way; `none` is `DEVICE_OP_CANCELLED`. -/
  | complete (n : Option Int)
  | signal
  /-- Anything else that wakes the thread: a timer, another operation on the same device. -/
  | wake (u : SchedUnblockType)
  /-- The thread runs on after the privileged call. -/
  | resume
  /-- `unistd_clr_action`, after which the driver still has the operation or not. -/
  | cleared (keeps : Bool)
  /-- A driver completes the `k`-th operation that outlived its call.  The frame of that call is gone: it now reads as
  `object`, or it is the frame of the call under way. -/
  | late (k : Nat) (n : Option Int) (object : Option Nat)
  /-- Whatever the rest of the system does to other tasks and to open files. -/
  | other (sched : Sched) (files : OpenTable)

structure Return where
  result : Int
  errno : Option Errno
  woken : Bool
  performed : Option Int
  isChr : Bool
  before : Int
  after : Int
  deriving DecidableEq, Repr

inductive TransferEvent
  | returned (r : Return)
  | late (n result : Int)
  deriving DecidableEq, Repr

namespace Thread

variable (id : Nat) (s : Thread)

def task : SchedTask := s.sched.table id

/-- The call returns. -/
def ret (p : Transfer) (result : Int) (errno : Option Errno) : Thread × Option TransferEvent :=
  let files := p.advance s.files result
  ({ s with
      files := files
      phase := .idle
      held := false
      late := if s.held then s.late ++ [result] else s.late
      woken := false
      performed := none },
    some (.returned
      ⟨result, errno, s.woken, s.performed, p.isChr, (s.files p.file).loc, (files p.file).loc⟩))

/-- `args` as `device_data_transfer` sets it up. -/
def newTransfer (file read : Nat) (want mode : Int) : Transfer :=
  ⟨file, (s.files file).handle, read, (s.files file).flags, mode, want, -101010, want⟩

def step : Action → Option (Thread × Option TransferEvent)
  | .call file read want mode =>
    match s.phase with
    | .idle =>
      let p := s.newTransfer file read want mode
      if want = 0 then some (s.ret p 0 none)
      else if mode < 0 then some (s.ret p (-1) none)
      else some ({ s with phase := .starting p }, none)
    | _ => none
  | .start a =>
    match s.phase with
    | .starting p =>
      match a with
      | none => some ({ s with phase := .started { p with nbyte := p.want, ret := -101010 } }, none)
      | some a =>
        let r := privDeviceDataTransfer s.sched id p a
        some ({ s with
                  sched := r.1
                  phase := .started r.2
                  held := s.held || a.keeps
                  performed := if 0 < a.ret then some a.ret else s.performed }, none)
    | _ => none
  | .complete n =>
    match s.held, s.phase.transfer with
    | true, some p =>
      -- the callback overwrites `op.nbyte` only when the operation was cancelled
      some ({ s with
                sched := s.sched.privDataTransferCallback id p.object
                phase := s.phase.setNbyte (n.getD (-1))
                held := false
                performed := if 0 < n.getD (-1) then n else s.performed }, none)
    | _, _ => none
  | .signal =>
    some ({ s with
              sched := s.sched.signalPrivActivate id
              woken := s.woken || s.phase.asked.isSome && !(s.task id).active }, none)
  | .wake u =>
    if u = .signal then none else some ({ s with sched := s.sched.privWake id u }, none)
  | .resume =>
    match s.phase with
    | .started p =>
      if (s.task id).active then
        match p.outcome (s.task id).unblockType with
        | .interrupted => some ({ s with phase := .clearing p }, none)
        | .again => some ({ s with phase := .starting p }, none)
        | .done result errno => some (s.ret p result errno)
      else none
    | _ => none
  | .cleared keeps =>
    match s.phase with
    | .clearing p => some ({ s with held := s.held && keeps }.ret p (-1) (some .eintr))
    | _ => none
  | .late k n object =>
    match s.late[k]? with
    | none => none
    | some result =>
      match object, s.phase.transfer with
      | some object, _ =>
        some ({ s with
                  sched := s.sched.privDataTransferCallback id object
                  late := s.late.eraseIdx k }, some (.late (n.getD (-1)) result))
      | none, some p =>
        some ({ s with
                  sched := s.sched.privDataTransferCallback id p.object
                  phase := s.phase.setNbyte (n.getD (-1))
                  late := s.late.eraseIdx k }, some (.late (n.getD (-1)) result))
      | none, none => none
  | .other sched files =>
    if sched.total = s.sched.total ∧ (sched.table id).noExec = (s.task id).noExec then
      some ({ s with sched := sched, files := files }, none)
    else none

/-- The steps after which the unblock type still tells why the thread is awake, and no operation outlives its call with
data in it. -/
def Careful : Action → Prop
  -- an answer without a sleep finds the unblock type as the last wake-up left it
  | .start (some a) =>
    a.ret ≠ 0 ∨ a.nbyte < 0 → (s.task id).unblockType = .signal → s.woken = true ∧ a.ret ≤ 0
  | .start none => (s.task id).unblockType = .signal → s.woken = true
  -- a signal between the wake-up and the test of the unblock type
  | .signal =>
    s.phase.asked.isSome = true → (s.task id).active = true → s.woken = true ∧ s.performed = none
  -- data that arrives after a signal has woken the thread
  | .complete n =>
    0 < n.getD (-1) → s.phase.asked.map Transfer.ret = some 0 ∧
      ((s.task id).active = true → (s.task id).unblockType ≠ .signal)
  | .late _ n object => n.getD (-1) ≤ 0 ∧ (object = none → s.performed = none)
  | _ => True

instance : (a : Action) → Decidable (s.Careful id a)
  | .start (some _) => inferInstanceAs (Decidable (_ → _ → _))
  | .start none => inferInstanceAs (Decidable (_ → _))
  | .signal => inferInstanceAs (Decidable (_ → _ → _))
  | .complete _ => inferInstanceAs (Decidable (_ → _))
  | .late .. => inferInstanceAs (Decidable (_ ∧ _))
  | .call .. | .wake _ | .resume | .cleared _ | .other .. => .isTrue trivial

/-- A thread outside of a transfer, whatever woke it last. -/
structure Idle : Prop where
  mem : id ∈ s.sched.ids
  enabled : (s.task id).enabled = true
  active : (s.task id).active = true
  phase : s.phase = .idle
  held : s.held = false
  late : s.late = []
  woken : s.woken = false
  performed : s.performed = none

end Thread

/-! ### The statement -/

/-- A call is interrupted only by a signal that woke it, and returns what was transferred. -/
structure Return.Keeps (r : Return) : Prop where
  interrupted : r.errno = some .eintr → r.woken = true
  result : ∀ n, r.performed = some n → r.result = n
  loc : ∀ n, r.performed = some n → r.isChr = false → r.after = r.before + n

/-- An operation that is completed after its call with data is one whose call returned them. -/
def TransferEvent.Keeps : TransferEvent → Prop
  | .returned r => r.Keeps
  | .late n result => 0 < n → result = n

/-- Data that was transferred is returned as soon as the thread runs. -/
def Thread.Prompt (id : Nat) (s : Thread) : Prop :=
  ∀ n, s.performed = some n →
    ∃ s' r, s.step id .resume = some (s', some (.returned r)) ∧ r.performed = some n ∧ r.result = n

/-! ### The invariant -/

/-- What the row of the thread says about the transfer under way, phase by phase. -/
def PhaseSound (row : SchedTask) (held woken : Bool) (performed : Option Int) : Phase → Prop
  | .idle | .starting _ => row.active = true ∧ performed = none
  | .clearing _ => row.active = true ∧ performed = none ∧ woken = true
  | .started p =>
    (row.active = false → performed = none ∧ p.ret = 0 ∧ row.blockObject = p.object) ∧
      (row.active = true → row.unblockType = .signal → woken = true ∧ performed = none) ∧
      ∀ n, performed = some n → 0 < n ∧ (p.ret = n ∨ p.ret = 0 ∧ p.nbyte = n ∧ held = false)

structure Thread.Sound (id : Nat) (s : Thread) : Prop where
  mem : id ∈ s.sched.ids
  enabled : (s.task id).enabled = true
  phase : PhaseSound (s.task id) s.held s.woken s.performed s.phase

/-- What every step leads to. -/
structure StepSound (id : Nat) (r : Thread × Option TransferEvent) : Prop where
  sound : r.1.Sound id
  keeps : ∀ ev ∈ r.2, ev.Keeps

section

variable {row row' : SchedTask} {held woken : Bool} {performed : Option Int} {phase : Phase}

theorem PhaseSound.of_noExec (h : PhaseSound row held woken performed phase) (hrow : row'.noExec = row.noExec) :
    PhaseSound row' held woken performed phase := by
  have hactive := SchedTask.active_of_noExec hrow
  have htype := SchedTask.unblockType_of_noExec hrow
  have hobject := SchedTask.blockObject_of_noExec hrow
  cases phase <;> simpa only [PhaseSound, hactive, htype, hobject] using h

/-- Waking up for another reason than a signal is always sound. -/
theorem PhaseSound.wake (h : PhaseSound row held woken performed phase) {u : SchedUnblockType} (hu : u ≠ .signal) :
    PhaseSound (row.woken u) held woken performed phase := by
  cases phase with
  | idle => exact ⟨rfl, h.2⟩
  | starting p => exact ⟨rfl, h.2⟩
  | clearing p => exact ⟨rfl, h.2⟩
  | started p => exact ⟨fun hno => Bool.noConfusion hno, fun _ htype => absurd htype hu, h.2.2⟩

end

section

variable {id : Nat} {s : Thread} {r : Thread × Option TransferEvent}

theorem mem_ids_of_total {a b : Sched} (htotal : b.total = a.total) (hmem : id ∈ a.ids) : id ∈ b.ids := by
  rw [Sched.mem_ids] at hmem ⊢
  rwa [htotal]

theorem total_dataTransferCallback (a : Sched) (tid object : Nat) :
    (a.privDataTransferCallback tid object).total = a.total := by
  have hfold : ∀ (l : List Nat) (acc : Sched × Int),
      (l.foldl
        (fun (acc : Sched × Int) i =>
          if (acc.1.table i).enabled && (acc.1.table i).blockObject == object then
            (acc.1.schedPrivAssertActive i .transfer,
              if (acc.1.table i).priority > acc.2 then (acc.1.table i).priority else acc.2)
          else acc) acc).1.total = acc.1.total := by
    intro l
    induction l with
    | nil => intro acc; rfl
    | cons j l ih =>
      intro acc
      rw [List.foldl_cons, ih]
      split_ifs <;> rfl
  unfold Sched.privDataTransferCallback
  simp only
  rw [(Sched.execOnly_updateOnWake _ _).total, hfold]

namespace Thread.Sound

/-- A change of the row that is a wake-up for another reason than a signal, or none at all. -/
theorem congr (h : s.Sound id) {sched : Sched} (htotal : sched.total = s.sched.total)
    (hrow : (sched.table id).noExec = (s.task id).noExec ∨
      ∃ u, u ≠ .signal ∧ (sched.table id).noExec = ((s.task id).woken u).noExec) :
    id ∈ sched.ids ∧ (sched.table id).enabled = true ∧
      PhaseSound (sched.table id) s.held s.woken s.performed s.phase := by
  refine ⟨mem_ids_of_total htotal h.mem, ?_, ?_⟩
  · rcases hrow with hsame | ⟨u, -, hwoken⟩
    · exact (SchedTask.enabled_of_noExec hsame).trans h.enabled
    · exact (SchedTask.enabled_of_noExec hwoken).trans h.enabled
  · rcases hrow with hsame | ⟨u, hu, hwoken⟩
    · exact h.phase.of_noExec hsame
    · exact (h.phase.wake hu).of_noExec hwoken

/-- The callback wakes the thread or leaves its row alone. -/
theorem callback_row (object : Nat) :
    ((s.sched.privDataTransferCallback id object).table id).noExec = (s.task id).noExec ∨
      ∃ u, u ≠ SchedUnblockType.signal ∧
        ((s.sched.privDataTransferCallback id object).table id).noExec = ((s.task id).woken u).noExec := by
  rw [Sched.noExec_dataTransferCallback]
  split_ifs
  · exact .inr ⟨.transfer, SchedUnblockType.noConfusion, rfl⟩
  · exact .inl rfl

end Thread.Sound

/-! ### One step -/

namespace Transfer

variable {p : Transfer} {u : SchedUnblockType} {result : Int} {errno : Option Errno}

theorem outcome_signal : p.outcome u = .interrupted ↔ u = .signal := by
  constructor
  · intro hout
    by_contra hu
    unfold outcome at hout
    rw [if_neg hu] at hout
    split_ifs at hout
  · intro hu
    exact if_pos hu

theorem outcome_again (hout : p.outcome u = .again) : p.ret = 0 ∧ p.nbyte = 0 := by
  unfold outcome at hout
  split_ifs at hout with _ _ hret _ hnbyte
  exact ⟨hret, hnbyte⟩

theorem outcome_done (hout : p.outcome u = .done result errno) :
    errno ≠ some .eintr ∧ (0 < p.ret → result = p.ret) ∧ (p.ret = 0 → 0 < p.nbyte → result = p.nbyte) := by
  unfold outcome at hout
  split_ifs at hout with _ _ _ _ _ _ _ <;> obtain ⟨rfl, rfl⟩ := Outcome.done.inj hout <;>
    refine ⟨by simp, fun hret => ?_, fun hret hnbyte => ?_⟩ <;> omega

/-- Whatever the flags, a positive count is returned to a thread that was not interrupted. -/
theorem outcome_of_ret (hu : u ≠ .signal) (hret : 0 < p.ret) : p.outcome u = .done p.ret none := by
  unfold outcome
  rw [if_neg hu, if_pos hret]

theorem outcome_of_nbyte (hu : u ≠ .signal) (hret : p.ret = 0) (hnbyte : 0 < p.nbyte) :
    p.outcome u = .done p.nbyte none := by
  unfold outcome
  rw [if_neg hu, if_neg (by omega), if_pos hret, if_pos hnbyte]

theorem loc_advance (files : OpenTable) (hchr : p.isChr = false) (hresult : 0 < result) :
    (p.advance files result p.file).loc = (files p.file).loc + result := by
  unfold advance
  rw [if_pos ⟨hchr, hresult⟩]
  simp [OpenTable.setLoc]

end Transfer

namespace Thread

/-- A return to a running thread, from a transfer that was performed as the result says. -/
theorem Sound.ret (h : s.Sound id) (hactive : (s.task id).active = true) (p : Transfer) {result : Int}
    {errno : Option Errno} (hwoken : errno = some .eintr → s.woken = true)
    (hresult : ∀ n, s.performed = some n → 0 < n ∧ result = n) : StepSound id (s.ret p result errno) := by
  refine ⟨⟨h.mem, h.enabled, hactive, rfl⟩, ?_⟩
  intro ev hev
  obtain rfl := Option.mem_some.mp hev
  refine ⟨hwoken, fun n hn => (hresult n hn).2, fun n hn hchr => ?_⟩
  obtain ⟨hpos, rfl⟩ := hresult n hn
  exact Transfer.loc_advance s.files hchr hpos

theorem Sound.call (h : s.Sound id) {file read : Nat} {want mode : Int}
    (hstep : s.step id (.call file read want mode) = some r) : StepSound id r := by
  cases hphase : s.phase with
  | idle =>
    have hidle := h.phase
    rw [hphase] at hidle
    have hnone : ∀ result n : Int, s.performed = some n → 0 < n ∧ result = n := fun _ n hn => by simp [hidle.2] at hn
    simp only [step, hphase] at hstep
    split_ifs at hstep
    · rw [← Option.some.inj hstep]
      exact h.ret hidle.1 _ (fun hno => nomatch hno) (hnone _)
    · rw [← Option.some.inj hstep]
      exact h.ret hidle.1 _ (fun hno => nomatch hno) (hnone _)
    · rw [← Option.some.inj hstep]
      exact ⟨⟨h.mem, h.enabled, hidle⟩, fun ev hev => nomatch hev⟩
  | starting p => simp [step, hphase] at hstep
  | started p => simp [step, hphase] at hstep
  | clearing p => simp [step, hphase] at hstep

/-- The privileged call puts the thread to sleep or leaves its row alone. -/
theorem privDeviceDataTransfer_row (id : Nat) (a : Sched) (p : Transfer) (d : DriverAnswer) :
    (d.ret = 0 ∧ 0 ≤ d.nbyte ∧ ((privDeviceDataTransfer a id p d).1.table id).noExec =
        { a.table id with blockObject := p.object, active := false }.noExec) ∨
      ((d.ret ≠ 0 ∨ d.nbyte < 0) ∧ (privDeviceDataTransfer a id p d).1 = a) := by
  unfold privDeviceDataTransfer
  simp only
  split_ifs with hblock
  · refine .inl ⟨hblock.1, hblock.2, ?_⟩
    rw [Sched.noExec_updateOnSleep, if_pos rfl, Sched.table_modify_self]
    rfl
  · refine .inr ⟨?_, rfl⟩
    rcases not_and_or.mp hblock with hret | hnbyte
    · exact .inl hret
    · exact .inr (Int.not_le.mp hnbyte)

theorem privDeviceDataTransfer_total (id : Nat) (a : Sched) (p : Transfer) (d : DriverAnswer) :
    (privDeviceDataTransfer a id p d).1.total = a.total := by
  unfold privDeviceDataTransfer
  simp only
  split_ifs
  · exact (Sched.sameEpoch_updateOnSleep _ _).total
  · rfl

theorem privDeviceDataTransfer_snd (id : Nat) (a : Sched) (p : Transfer) (d : DriverAnswer) :
    (privDeviceDataTransfer a id p d).2 = { p with ret := d.ret, nbyte := d.nbyte } := by
  unfold privDeviceDataTransfer
  simp only
  split_ifs <;> rfl

theorem Sound.start (h : s.Sound id) {a : Option DriverAnswer} (hcare : s.Careful id (.start a))
    (hstep : s.step id (.start a) = some r) : StepSound id r := by
  cases hphase : s.phase with
  | idle => simp [step, hphase] at hstep
  | starting p =>
    have hstarting := h.phase
    rw [hphase] at hstarting
    obtain ⟨hactive, hnone⟩ := hstarting
    have hnotperformed : ∀ n, s.performed ≠ some n := fun n hn => by simp [hnone] at hn
    cases a with
    | none =>
      simp only [step, hphase] at hstep
      rw [← Option.some.inj hstep]
      refine ⟨⟨h.mem, h.enabled, ?_, ?_, ?_⟩, fun ev hev => nomatch hev⟩
      · intro hinactive
        exact Bool.noConfusion (hactive.symm.trans hinactive)
      · intro _ hsignal
        exact ⟨hcare hsignal, hnone⟩
      · intro n hn
        exact absurd hn (hnotperformed n)
    | some a =>
      simp only [step, hphase] at hstep
      rw [← Option.some.inj hstep]
      have hmem := mem_ids_of_total (privDeviceDataTransfer_total id s.sched p a) h.mem
      refine ⟨⟨hmem, ?_, ?_⟩, fun ev hev => nomatch hev⟩
      -- the thread sleeps until the driver signals, or goes on at once
      · rcases privDeviceDataTransfer_row id s.sched p a with ⟨-, -, hrow⟩ | ⟨-, hsame⟩
        · exact (SchedTask.enabled_of_noExec hrow).trans h.enabled
        · show ((privDeviceDataTransfer s.sched id p a).1.table id).enabled = true
          rw [hsame]
          exact h.enabled
      · show PhaseSound ((privDeviceDataTransfer s.sched id p a).1.table id) (s.held || a.keeps) s.woken
          (if 0 < a.ret then some a.ret else s.performed) (.started (privDeviceDataTransfer s.sched id p a).2)
        rw [privDeviceDataTransfer_snd]
        rcases privDeviceDataTransfer_row id s.sched p a with ⟨hret, -, hrow⟩ | ⟨hawake, hsame⟩
        · -- the thread sleeps, and nothing has been transferred yet
          have hperformed : (if 0 < a.ret then some a.ret else s.performed) = none := by
            rw [if_neg (by omega), hnone]
          rw [hperformed]
          refine PhaseSound.of_noExec ⟨fun _ => ⟨rfl, hret, rfl⟩, fun hno => Bool.noConfusion hno, ?_⟩ hrow
          intro n hn
          exact nomatch hn
        · rw [hsame]
          refine ⟨?_, ?_, ?_⟩
          · intro hinactive
            exact Bool.noConfusion (hactive.symm.trans hinactive)
          -- the driver has signalled already, with what it returned
          · intro _ hsignal
            obtain ⟨hwoken, hret⟩ := hcare hawake hsignal
            exact ⟨hwoken, by rw [if_neg (by omega), hnone]⟩
          · intro n hn
            split_ifs at hn with hpos
            · obtain rfl := Option.some.inj hn
              exact ⟨hpos, .inl rfl⟩
            · exact absurd hn (hnotperformed n)
  | started p => simp [step, hphase] at hstep
  | clearing p => simp [step, hphase] at hstep

/-- The driver's write to `op.nbyte` before it has transferred anything, or when it has said so already. -/
theorem phaseSound_setNbyte {row : SchedTask} {held held' woken : Bool} {performed : Option Int} {phase : Phase}
    (h : PhaseSound row held woken performed phase) (n : Int) (hfree : held = true ∨ performed = none) :
    PhaseSound row held' woken performed (phase.setNbyte n) := by
  cases phase with
  | idle => exact h
  | starting p => exact h
  | clearing p => exact h
  | started p =>
    refine ⟨h.1, h.2.1, fun m hm => ?_⟩
    obtain ⟨hpos, hret | ⟨-, -, hheld⟩⟩ := h.2.2 m hm
    · exact ⟨hpos, .inl hret⟩
    · rcases hfree with htrue | hnone
      · rw [hheld] at htrue
        exact Bool.noConfusion htrue
      · rw [hnone] at hm
        exact nomatch hm

/-- The completion of an operation leaves its thread awake, and not because of a signal. -/
theorem Sound.callback_awake (h : s.Sound id) {p : Transfer} (hstarted : s.phase = .started p)
    (htype : (s.task id).active = true → (s.task id).unblockType ≠ .signal) :
    ((s.sched.privDataTransferCallback id p.object).table id).active = true ∧
      ((s.sched.privDataTransferCallback id p.object).table id).unblockType ≠ .signal := by
  have hphase := h.phase
  rw [hstarted] at hphase
  have hrow := Sched.noExec_dataTransferCallback s.sched id p.object id
  rw [SchedTask.active_of_noExec hrow, SchedTask.unblockType_of_noExec hrow]
  split_ifs with hblocked
  · exact ⟨rfl, SchedUnblockType.noConfusion⟩
  · cases hactive : (s.task id).active with
    | true => exact ⟨hactive, htype hactive⟩
    | false =>
      obtain ⟨-, -, hobject⟩ := hphase.1 hactive
      exact absurd ⟨h.mem, h.enabled, hobject⟩ hblocked

theorem Sound.complete (h : s.Sound id) {n : Option Int} (hcare : s.Careful id (.complete n))
    (hstep : s.step id (.complete n) = some r) : StepSound id r := by
  cases hheld : s.held with
  | false => simp [step, hheld] at hstep
  | true =>
    cases htransfer : s.phase.transfer with
    | none => simp [step, hheld, htransfer] at hstep
    | some p =>
      simp only [step, hheld, htransfer] at hstep
      rw [← Option.some.inj hstep]
      obtain ⟨hmem, henabled, hphase⟩ :=
        h.congr (total_dataTransferCallback s.sched id p.object) (Sound.callback_row p.object)
      refine ⟨⟨hmem, henabled, ?_⟩, fun ev hev => nomatch hev⟩
      by_cases hpos : 0 < n.getD (-1)
      · -- the thread is asleep or was woken by something that is not a signal
        obtain ⟨hret, htype⟩ := hcare hpos
        obtain ⟨q, hasked, hret⟩ := Option.map_eq_some_iff.mp hret
        cases hstarted : s.phase with
        | idle => simp [hstarted, Phase.asked] at hasked
        | starting p' => simp [hstarted, Phase.asked] at hasked
        | clearing p' => simp [hstarted, Phase.asked] at hasked
        | started p' =>
          obtain rfl : p' = q := by simpa [hstarted, Phase.asked] using hasked
          obtain rfl : p' = p := by simpa [hstarted, Phase.transfer] using htransfer
          obtain ⟨hactive, hawake⟩ := h.callback_awake hstarted htype
          show PhaseSound ((s.sched.privDataTransferCallback id p'.object).table id) false s.woken
            (if 0 < n.getD (-1) then n else s.performed) (.started { p' with nbyte := n.getD (-1) })
          rw [if_pos hpos]
          refine ⟨?_, ?_, ?_⟩
          · intro hinactive
            exact Bool.noConfusion (hactive.symm.trans hinactive)
          · intro _ hsignal
            exact absurd hsignal hawake
          · intro m hm
            rw [hm, Option.getD_some] at hpos ⊢
            exact ⟨hpos, .inr ⟨hret, rfl, rfl⟩⟩
      · simp only [if_neg hpos]
        exact phaseSound_setNbyte hphase _ (.inl hheld)

theorem Sound.signal (h : s.Sound id) (hcare : s.Careful id .signal) (hstep : s.step id .signal = some r) :
    StepSound id r := by
  simp only [step] at hstep
  rw [← Option.some.inj hstep]
  have hrow := Sched.noExec_signal s.sched id id
  rw [if_pos rfl] at hrow
  have htotal := (Sched.activate_spec s.sched id).total
  refine ⟨⟨mem_ids_of_total htotal h.mem, (SchedTask.enabled_of_noExec hrow).trans h.enabled, ?_⟩,
    fun ev hev => nomatch hev⟩
  refine PhaseSound.of_noExec ?_ hrow
  have hphase := h.phase
  cases hp : s.phase with
  | idle =>
    rw [hp] at hphase
    exact ⟨rfl, hphase.2⟩
  | starting p =>
    rw [hp] at hphase
    exact ⟨rfl, hphase.2⟩
  | clearing p =>
    rw [hp] at hphase
    exact ⟨rfl, hphase.2.1, by simp [hphase.2.2]⟩
  | started p =>
    rw [hp] at hphase
    have hperformed : (s.woken || !(s.task id).active) = true ∧ s.performed = none := by
      cases hactive : (s.task id).active with
      | false => exact ⟨by simp, (hphase.1 hactive).1⟩
      | true =>
        obtain ⟨hwoken, hnone⟩ := hcare (by rw [hp]; rfl) hactive
        exact ⟨by simp [hwoken], hnone⟩
    refine ⟨fun hno => Bool.noConfusion hno, fun _ _ => ?_, hphase.2.2⟩
    simpa only [Phase.asked, Option.isSome_some, Bool.true_and] using hperformed

theorem Sound.wake (h : s.Sound id) {u : SchedUnblockType} (hstep : s.step id (.wake u) = some r) :
    StepSound id r := by
  simp only [step] at hstep
  split_ifs at hstep with hu
  rw [← Option.some.inj hstep]
  have hrow := Sched.noExec_wake s.sched id u id
  rw [if_pos rfl] at hrow
  obtain ⟨hmem, henabled, hphase⟩ := h.congr (Sched.sameEpoch_wake s.sched id u).total (.inr ⟨u, hu, hrow⟩)
  exact ⟨⟨hmem, henabled, hphase⟩, fun ev hev => nomatch hev⟩

theorem Sound.resume (h : s.Sound id) (hstep : s.step id .resume = some r) : StepSound id r := by
  cases hp : s.phase with
  | idle => simp [step, hp] at hstep
  | starting p => simp [step, hp] at hstep
  | clearing p => simp [step, hp] at hstep
  | started p =>
    obtain ⟨-, hsignal, hperformed⟩ : PhaseSound (s.task id) s.held s.woken s.performed (.started p) := hp ▸ h.phase
    simp only [step, hp] at hstep
    split_ifs at hstep with hactive
    cases hout : p.outcome (s.task id).unblockType with
    | interrupted =>
      obtain ⟨hwoken, hnone⟩ := hsignal hactive (Transfer.outcome_signal.mp hout)
      rw [hout] at hstep
      rw [← Option.some.inj hstep]
      exact ⟨⟨h.mem, h.enabled, hactive, hnone, hwoken⟩, fun ev hev => nomatch hev⟩
    | again =>
      obtain ⟨hret, hnbyte⟩ := Transfer.outcome_again hout
      have hnone : s.performed = none := by
        cases hn : s.performed with
        | none => rfl
        | some n =>
          have := hperformed n hn
          omega
      rw [hout] at hstep
      rw [← Option.some.inj hstep]
      exact ⟨⟨h.mem, h.enabled, hactive, hnone⟩, fun ev hev => nomatch hev⟩
    | done result errno =>
      obtain ⟨heintr, hret, hnbyte⟩ := Transfer.outcome_done hout
      rw [hout] at hstep
      rw [← Option.some.inj hstep]
      refine h.ret hactive p (fun hno => absurd hno heintr) fun n hn => ?_
      obtain ⟨hpos, rfl | ⟨hzero, rfl, -⟩⟩ := hperformed n hn
      · exact ⟨hpos, hret hpos⟩
      · exact ⟨hpos, hnbyte hzero hpos⟩

theorem Sound.cleared (h : s.Sound id) {keeps : Bool} (hstep : s.step id (.cleared keeps) = some r) :
    StepSound id r := by
  cases hp : s.phase with
  | idle => simp [step, hp] at hstep
  | starting p => simp [step, hp] at hstep
  | started p => simp [step, hp] at hstep
  | clearing p =>
    obtain ⟨hactive, hnone, hwoken⟩ : PhaseSound (s.task id) s.held s.woken s.performed (.clearing p) := hp ▸ h.phase
    simp only [step, hp] at hstep
    rw [← Option.some.inj hstep]
    have hheld : Sound id { s with held := s.held && keeps } := by
      refine ⟨h.mem, h.enabled, ?_⟩
      show PhaseSound (s.task id) (s.held && keeps) s.woken s.performed s.phase
      rw [hp]
      exact ⟨hactive, hnone, hwoken⟩
    rw [hp] at hheld
    exact hheld.ret hactive p (fun _ => hwoken) fun n hn => nomatch hnone.symm.trans hn

theorem Sound.late (h : s.Sound id) {k : Nat} {n : Option Int} {object : Option Nat}
    (hcare : s.Careful id (.late k n object)) (hstep : s.step id (.late k n object) = some r) : StepSound id r := by
  have hkeeps : ∀ result, TransferEvent.Keeps (.late (n.getD (-1)) result) := fun result hpos =>
    absurd hpos (Int.not_lt.mpr hcare.1)
  cases hlate : s.late[k]? with
  | none => simp [step, hlate] at hstep
  | some result =>
    cases object with
    | some object =>
      simp only [step, hlate] at hstep
      rw [← Option.some.inj hstep]
      obtain ⟨hmem, henabled, hphase⟩ :=
        h.congr (total_dataTransferCallback s.sched id object) (Sound.callback_row object)
      refine ⟨⟨hmem, henabled, hphase⟩, fun ev hev => ?_⟩
      obtain rfl := Option.mem_some.mp hev
      exact hkeeps result
    | none =>
      cases htransfer : s.phase.transfer with
      | none => simp [step, hlate, htransfer] at hstep
      | some p =>
        simp only [step, hlate, htransfer] at hstep
        rw [← Option.some.inj hstep]
        obtain ⟨hmem, henabled, hphase⟩ :=
          h.congr (total_dataTransferCallback s.sched id p.object) (Sound.callback_row p.object)
        refine ⟨⟨hmem, henabled, ?_⟩, fun ev hev => ?_⟩
        · exact phaseSound_setNbyte hphase _ (.inr (hcare.2 rfl))
        · obtain rfl := Option.mem_some.mp hev
          exact hkeeps result

theorem Sound.other (h : s.Sound id) {sched : Sched} {files : OpenTable}
    (hstep : s.step id (.other sched files) = some r) : StepSound id r := by
  simp only [step] at hstep
  split_ifs at hstep with hsame
  rw [← Option.some.inj hstep]
  obtain ⟨hmem, henabled, hphase⟩ := h.congr hsame.1 (.inl hsame.2)
  exact ⟨⟨hmem, henabled, hphase⟩, fun ev hev => nomatch hev⟩

/-- One careful step, whoever makes it. -/
theorem Sound.step (h : s.Sound id) {a : Action} (hcare : s.Careful id a) (hstep : s.step id a = some r) :
    StepSound id r := by
  cases a with
  | call => exact h.call hstep
  | start => exact h.start hcare hstep
  | complete => exact h.complete hcare hstep
  | signal => exact h.signal hcare hstep
  | wake => exact h.wake hstep
  | resume => exact h.resume hstep
  | cleared => exact h.cleared hstep
  | late => exact h.late hcare hstep
  | other => exact h.other hstep

theorem Sound.prompt (h : s.Sound id) : s.Prompt id := by
  intro n hn
  have hphase := h.phase
  cases hp : s.phase with
  | idle => rw [hp, hn] at hphase; exact nomatch hphase.2
  | starting p => rw [hp, hn] at hphase; exact nomatch hphase.2
  | clearing p => rw [hp, hn] at hphase; exact nomatch hphase.2.1
  | started p =>
    rw [hp] at hphase
    obtain ⟨hblocked, hsignal, hperformed⟩ := hphase
    have hactive : (s.task id).active = true := by
      by_contra hno
      exact nomatch hn.symm.trans (hblocked (Bool.eq_false_iff.mpr hno)).1
    have htype : (s.task id).unblockType ≠ .signal := fun hsig => nomatch hn.symm.trans (hsignal hactive hsig).2
    have hout : p.outcome (s.task id).unblockType = .done n none := by
      obtain ⟨hpos, rfl | ⟨hret, rfl, -⟩⟩ := hperformed n hn
      · exact Transfer.outcome_of_ret htype hpos
      · exact Transfer.outcome_of_nbyte htype hret hpos
    have hstep : s.step id .resume = some (s.ret p n none) := by
      simp only [Thread.step, hp, hactive, hout, if_true]
    exact ⟨_, _, hstep, hn, rfl⟩

theorem Idle.sound (h : s.Idle id) : s.Sound id := by
  refine ⟨h.mem, h.enabled, ?_⟩
  rw [h.phase]
  exact ⟨h.active, h.performed⟩

end Thread

end

/-- Whatever the drivers answer and whenever they complete what they were asked: along a run of careful steps a call is
interrupted only by a signal that woke it, and what was transferred is returned. -/
theorem keeps_of_careful (id : Nat) (s₀ s : Thread) (es : List TransferEvent)
    (hrun : Run (Thread.step id) (Thread.Careful id) s₀ es s) (hidle : s₀.Idle id) :
    (∀ ev ∈ es, ev.Keeps) ∧ s.Prompt id := by
  have hinv : s.Sound id ∧ ∀ ev ∈ es, ev.Keeps := by
    apply Run.invariant (fun es s => s.Sound id ∧ ∀ ev ∈ es, ev.Keeps) _ _ hrun
    · exact ⟨hidle.sound, fun ev hev => absurd hev List.not_mem_nil⟩
    · intro es s a s' e h hcare hstep
      have hnext := h.1.step hcare hstep
      refine ⟨hnext.sound, fun ev hev => ?_⟩
      rcases List.mem_append.mp hev with hold | hnew
      · exact h.2 ev hold
      · exact hnext.keeps ev (Option.mem_toList.mp hnew)
  exact ⟨hinv.2, hinv.1.prompt⟩

/-- The thread `1` of a system with two tasks, and a file at the address `8`. -/
def idleThread : Thread where
  sched :=
    { total := 3
      table := fun _ =>
        ⟨true, true, 1, true, false, false, .none, 0, ⟨schedTimevalSecInvalid, 0⟩, 1, 1⟩
      currentPriority := 1
      statusChanged := false
      usecondCounter := 0
      sleepOc := 0 }
  files := fun _ => ⟨0, 8, 0, 0⟩
  phase := .idle
  held := false
  late := []
  woken := false
  performed := none

theorem idle_idleThread : idleThread.Idle 1 := ⟨by decide, rfl, rfl, rfl, rfl, rfl, rfl, rfl⟩

/-- Five bytes at once, then three after a sleep that a signal does not end, then a sleep that one does. -/
def keptTransfers : List Action :=
  [.call 0 1 8 0x8000, .start (some ⟨5, 8, false⟩), .resume, .signal,
    .call 0 1 3 0x8000, .start (some ⟨0, 3, true⟩), .complete (some 3), .resume,
    .call 0 1 3 0x8000, .start (some ⟨0, 3, true⟩), .signal, .resume, .cleared false]

theorem keeps_keptTransfers : ∃ es s, Run (Thread.step 1) (Thread.Careful 1) idleThread es s ∧
    es = [.returned ⟨5, none, false, some 5, false, 0, 5⟩, .returned ⟨3, none, false, some 3, false, 5, 8⟩,
      .returned ⟨-1, some .eintr, true, none, false, 8, 8⟩] ∧
    (∀ ev ∈ es, ev.Keeps) ∧ s.Prompt 1 := by
  obtain ⟨s, es, hs, hes⟩ : ∃ s es, Run.replay (Thread.step 1) idleThread keptTransfers = some (s, es) ∧
      es = [.returned ⟨5, none, false, some 5, false, 0, 5⟩, .returned ⟨3, none, false, some 3, false, 5, 8⟩,
        .returned ⟨-1, some .eintr, true, none, false, 8, 8⟩] := ⟨_, _, rfl, rfl⟩
  have hcare : Run.AllOk (Thread.step 1) (Thread.Careful 1) idleThread keptTransfers := by decide
  have hrun := Run.of_replay hs hcare
  exact ⟨es, s, hrun, hes, keeps_of_careful 1 idleThread s es hrun idle_idleThread⟩

/-- A signal arrives between two calls; the next one reads five bytes at once, and says that it was interrupted. -/
theorem not_keeps : ¬ ∀ (id : Nat) (s₀ s : Thread) (es : List TransferEvent),
    Run (Thread.step id) (fun _ _ => True) s₀ es s → s₀.Idle id → (∀ ev ∈ es, ev.Keeps) ∧ s.Prompt id := by
  intro h
  obtain ⟨s, es, hs, hes⟩ : ∃ s es,
      Run.replay (Thread.step 1) idleThread
          [.signal, .call 0 1 8 0x8000, .start (some ⟨5, 8, false⟩), .resume, .cleared false] = some (s, es) ∧
        es = [.returned ⟨-1, some .eintr, false, some 5, false, 0, 0⟩] := ⟨_, _, rfl, rfl⟩
  obtain ⟨hkeeps, -⟩ := h 1 idleThread s es (Run.of_replay hs (Run.allOk_true _ _)) idle_idleThread
  have hreturn : Return.Keeps ⟨-1, some .eintr, false, some 5, false, 0, 0⟩ := hkeeps (.returned _) (by rw [hes]; simp)
  exact absurd (hreturn.result 5 rfl) (by decide)

end Unistd

end CoActionOS
