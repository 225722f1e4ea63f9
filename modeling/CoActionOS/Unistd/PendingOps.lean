import CoActionOS.Unistd.KeptOps

/-!
# Who owns a pending operation

A run interleaves the calls of any number of threads on one device with `ioctl`, `open`, signals and the data that
arrives.  A callback for an operation whose call has returned reads a stack frame that is gone, and the run ends there.

* `owned_of_careful`: along a run whose steps leave the pending operations to those who wait for them, every pending
  operation is that of a call under way, and every operation that was kept is resolved once, by its own callback.
* `not_owned`: a signal makes a read of the fifo return, and the fifo keeps the operation.
-/

namespace CoActionOS

namespace Unistd

open Function Hwdl

/-! ### The runs of the threads -/

/-- The threads that use one device.  The operation of the call that thread `t` is in is `op t`, and `next` is that of
the next call: a stack frame that is used again is another operation. -/
structure Users where
  sched : Sched
  device : Device
  handle : Nat
  phase : Nat → Phase
  op : Nat → Nat
  next : Nat

inductive UserAction
  /-- Thread `t` calls `read` or `write`; `get_mode` answers `mode`. -/
  | call (t file : Nat) (read : Bool) (flags : Nat) (want mode : Int)
  /-- The privileged call, with the bytes of a write and the answer of the device below. -/
  | start (t : Nat) (data : Nat → UInt8) (below : DriverAnswer)
  /-- The privileged call could not be made. -/
  | startFails (t : Nat)
  /-- The thread runs on after the privileged call. -/
  | resume (t : Nat)
  /-- `unistd_clr_action`, after which the call returns. -/
  | clear (t : Nat)
  | ioctl (t : Nat) (request : DeviceRequest)
  | «open» (t : Nat)
  | signal (t : Nat)
  /-- Data arrives at the device below. -/
  | dataReceived (bytes : List UInt8)
  /-- The device below completes the write of thread `t`. -/
  | written (t : Nat) (nbyte : Int)
  /-- Whatever the rest of the system does to threads that are in no call. -/
  | other (sched : Sched)

inductive OpEvent
  /-- The driver keeps the operation. -/
  | accepted (op : Nat)
  | completed (op : Nat)
  /-- The operation of a call of thread `caller` is cancelled by thread `actor`. -/
  | cancelled (op caller : Nat) (actor : Option Nat)
  deriving DecidableEq, Repr

def OpEvent.op : OpEvent → Nat
  | accepted op | completed op | cancelled op _ _ => op

namespace Users

variable (size : Nat) (s : Users)

/-- A thread that can take a step. -/
def runs (t : Nat) : Bool := decide (t ∈ s.sched.ids) && (s.sched.table t).enabled && (s.sched.table t).active

/-- The thread whose call has the operation on its stack. -/
def caller (op : Nat) : Option Nat := s.sched.ids.find? fun t => decide (s.phase t ≠ .idle ∧ s.op t = op)

/-- `priv_data_transfer_callback` for the transfer of thread `t`. -/
def called (t : Nat) (p : Transfer) (nbyte : Int) : Users :=
  { s with
    sched := s.sched.privDataTransferCallback t p.object
    phase := update s.phase t ((s.phase t).setNbyte nbyte) }

/-- The driver calls back, in a call of thread `actor` or in an interrupt. -/
def callback (actor : Option Nat) (c : Callback) : Option (Users × OpEvent) :=
  match s.caller c.op with
  | none => none
  | some t =>
    match (s.phase t).transfer with
    | none => none
    | some p =>
      some (s.called t p ((c.nbyte.map Int.ofNat).getD (-1)),
        if c.nbyte.isSome then .completed c.op else .cancelled c.op t actor)

def callbacks (actor : Option Nat) : Users → List Callback → Option (Users × List OpEvent)
  | s, [] => some (s, [])
  | s, c :: cs =>
    match s.callback actor c with
    | none => none
    | some (s, e) =>
      match callbacks actor s cs with
      | none => none
      | some (s, es) => some (s, e :: es)

/-- A call to the driver outside of a transfer. -/
def driverCall (actor : Option Nat) (r : Device × List Callback) : Option (Users × List OpEvent) :=
  { s with device := r.1 }.callbacks actor r.2

/-- `args` as `device_data_transfer` sets it up. -/
def newTransfer (file : Nat) (read : Bool) (flags : Nat) (want mode : Int) : Transfer :=
  ⟨file, s.handle, read.toNat, flags, mode, want, -101010, want⟩

/-- A call begins, with an operation of its own. -/
def newCall (t : Nat) (p : Transfer) : Users :=
  { s with
    phase := update s.phase t (.starting p)
    op := update s.op t s.next
    next := s.next + 1 }

/-- `args.op` for the driver. -/
def operation (t : Nat) (p : Transfer) (data : Nat → UInt8) : DeviceTransfer :=
  ⟨s.op t, p.want.toNat, data, decide (p.flags &&& oNonblock ≠ 0)⟩

def setPhase (t : Nat) (phase : Phase) : Users := { s with phase := update s.phase t phase }

/-- The privileged call of thread `t`. -/
def startTransfer (t : Nat) (p : Transfer) (data : Nat → UInt8) (below : DriverAnswer) :
    Option (Users × List OpEvent) :=
  let read := p.read == 1
  let r := s.device.transfer size read (s.operation t p data) p.want below
  match s.driverCall (some t) (r.1, r.2.1) with
  | none => none
  | some (s', es) =>
    let x := privDeviceDataTransfer s'.sched t { p with nbyte := p.want } r.2.2
    let kept := s.device.slot read ≠ some (s.op t) ∧ r.1.slot read = some (s.op t)
    some ({ s' with sched := x.1 }.setPhase t (.started x.2), if kept then es ++ [.accepted (s.op t)] else es)

def step : UserAction → Option (Users × Option (List OpEvent))
  | .call t file read flags want mode =>
    if s.runs t = true ∧ s.phase t = .idle then
      if want = 0 ∨ mode < 0 then some (s, none)
      else some (s.newCall t (s.newTransfer file read flags want mode), none)
    else none
  | .start t data below =>
    match s.phase t with
    | .starting p =>
      if s.runs t then (s.startTransfer size t p data below).map fun r => (r.1, some r.2) else none
    | _ => none
  | .startFails t =>
    match s.phase t with
    | .starting p =>
      if s.runs t then some (s.setPhase t (.started { p with nbyte := p.want, ret := -101010 }), none) else none
    | _ => none
  | .resume t =>
    match s.phase t with
    | .started p =>
      if s.runs t then
        match p.outcome (s.sched.table t).unblockType with
        | .interrupted => some (s.setPhase t (.clearing p), none)
        | .again => some (s.setPhase t (.starting p), none)
        | .done _ _ => some (s.setPhase t .idle, none)
      else none
    | _ => none
  | .clear t =>
    match s.phase t with
    | .clearing _ =>
      if s.runs t then
        (s.driverCall (some t) (s.device.clrAction size)).map fun r => (r.1.setPhase t .idle, some r.2)
      else none
    | _ => none
  | .ioctl t request =>
    if s.runs t = true ∧ s.phase t = .idle then
      (s.driverCall (some t) (s.device.ioctl size request)).map fun r => (r.1, some r.2)
    else none
  | .open t =>
    if s.runs t = true ∧ s.phase t = .idle then
      (s.driverCall (some t) (s.device.open size)).map fun r => (r.1, some r.2)
    else none
  | .signal t => some ({ s with sched := s.sched.signalPrivActivate t }, none)
  | .dataReceived bytes =>
    (s.driverCall none (s.device.dataReceived size bytes)).map fun r => (r.1, some r.2)
  | .written t nbyte =>
    match s.device, (s.phase t).transfer with
    | .rx _ _, some p =>
      if p.read = 0 then some (s.called t p nbyte, none) else none
    | _, _ => none
  | .other sched =>
    if sched.total = s.sched.total ∧
        ∀ t ∈ s.sched.ids, s.phase t ≠ .idle → (sched.table t).noExec = (s.sched.table t).noExec then
      some ({ s with sched := sched }, none)
    else none

/-- The steps that leave a pending operation to the call that waits for it: no request or `open` ends one, and a thread
that was interrupted finds only its own operation where the driver would cancel it, and not its own where it would
not. -/
def Careful : UserAction → Prop
  | .ioctl _ request => s.device.ends request = true → ∀ read, s.device.slot read = none
  | .open _ => s.device.clearsOnOpen = true → ∀ read, s.device.slot read = none
  | .clear t =>
    if s.device.cancels then ∀ op ∈ s.device.slot true, op = s.op t else ∀ read, s.device.slot read ≠ some (s.op t)
  | _ => True

instance : (a : UserAction) → Decidable (s.Careful a)
  | .ioctl .. | .open _ => inferInstanceAs (Decidable (_ → _))
  | .clear t =>
    inferInstanceAs (Decidable
      (if s.device.cancels then ∀ op ∈ s.device.slot true, op = s.op t else ∀ read, s.device.slot read ≠ some (s.op t)))
  | .call .. | .start .. | .startFails _ | .resume _ | .signal _ | .dataReceived _ | .written .. | .other _ =>
    .isTrue trivial

/-- No thread is in a call, and the driver keeps nothing.  A thread that is blocked on no object has a null pointer for
it, which the handle is not. -/
structure Init : Prop where
  handle : s.handle ≠ 0
  phase : ∀ t, s.phase t = .idle
  slot : ∀ read, s.device.slot read = none

end Users

/-! ### The statement -/

/-- The end of an operation: it is completed, or cancelled by its own caller. -/
def OpEvent.Resolves (op : Nat) : OpEvent → Prop
  | accepted _ => False
  | completed id => id = op
  | cancelled id caller actor => id = op ∧ actor = some caller

/-- What has become of an operation: the driver never kept it, keeps it now, or has kept it and called back once. -/
inductive Fate (op : Nat) (pending : Prop) : List OpEvent → Prop
  | never (h : ¬ pending) : Fate op pending []
  | kept (h : pending) : Fate op pending [.accepted op]
  | resolved {e : OpEvent} (h : ¬ pending) (he : e.Resolves op) : Fate op pending [.accepted op, e]

namespace Phase

/-- The call does not ask again for an operation that the driver has kept. -/
def Answered : Phase → Prop
  | idle | clearing _ => True
  | starting _ => False
  | started p => p.ret = 0 ∧ p.nbyte ≠ 0

/-- The thread sleeps until the driver calls back, or a signal has woken it. -/
def Waits (row : SchedTask) (read : Bool) : Phase → Prop
  | idle | starting _ => False
  | started p =>
    p.read = read.toNat ∧ p.ret = 0 ∧
      (row.active = false ∧ row.blockObject = p.object ∨ row.unblockType = .signal ∧ row.blockObject = 0)
  | clearing p => p.read = read.toNat

section

variable {phase : Phase} {row row' : SchedTask} {read : Bool}

theorem ne_idle {p : Transfer} (h : phase.transfer = some p) : phase ≠ idle := by
  rintro rfl
  exact nomatch h

theorem exists_transfer (h : phase ≠ idle) : ∃ p, phase.transfer = some p := by
  cases phase with
  | idle => exact absurd rfl h
  | starting p => exact ⟨p, rfl⟩
  | started p => exact ⟨p, rfl⟩
  | clearing p => exact ⟨p, rfl⟩

theorem transfer_setNbyte (n : Int) :
    (phase.setNbyte n).transfer = phase.transfer.map fun p => { p with nbyte := n } := by
  cases phase <;> rfl

theorem Waits.exists_transfer (h : phase.Waits row read) : ∃ p, phase.transfer = some p ∧ p.read = read.toNat := by
  cases phase with
  | idle => exact h.elim
  | starting p => exact h.elim
  | started p => exact ⟨p, rfl, h.1⟩
  | clearing p => exact ⟨p, rfl, h⟩

theorem Waits.ne_idle (h : phase.Waits row read) : phase ≠ idle := by
  obtain ⟨p, htransfer, -⟩ := h.exists_transfer
  exact Phase.ne_idle htransfer

theorem Waits.of_noExec (h : phase.Waits row read) (hrow : row'.noExec = row.noExec) : phase.Waits row' read := by
  have hactive := SchedTask.active_of_noExec hrow
  have htype := SchedTask.unblockType_of_noExec hrow
  have hobject := SchedTask.blockObject_of_noExec hrow
  cases phase with
  | started p => simpa only [Waits, hactive, htype, hobject] using h
  | _ => exact h

/-- The callback for another object leaves the thread asleep. -/
theorem Waits.callback {a : Sched} {t tid object : Nat} (h : phase.Waits (a.table t) read) (hobject : object ≠ 0)
    (hother : ∀ p, phase.transfer = some p → p.object ≠ object) :
    phase.Waits ((a.privDataTransferCallback tid object).table t) read := by
  cases phase with
  | idle => exact h
  | starting p => exact h
  | clearing p => exact h
  | started p =>
    have hblocked : (a.table t).blockObject ≠ object := by
      obtain ⟨-, -, ⟨-, hblock⟩ | ⟨-, hblock⟩⟩ := h
      · rw [hblock]
        exact hother p rfl
      · rw [hblock]
        exact hobject.symm
    have hrow := Sched.noExec_dataTransferCallback a tid object t
    rw [if_neg fun hwoken => hblocked hwoken.2.2] at hrow
    exact h.of_noExec hrow

/-- The driver's callback answers the call. -/
theorem Waits.answered (h : phase.Waits row read) {n : Int} (hn : n ≠ 0) : (phase.setNbyte n).Answered := by
  cases phase with
  | idle => exact h.elim
  | starting p => exact h.elim
  | started p => exact ⟨h.2.1, hn⟩
  | clearing p => trivial

end

end Phase

theorem Fate.congr {op : Nat} {pending pending' : Prop} {es : List OpEvent} (h : Fate op pending es)
    (hpending : pending' ↔ pending) : Fate op pending' es := by
  rw [propext hpending]
  exact h

namespace OpEvent.Resolves

variable {e : OpEvent} {op : Nat}

theorem op_eq (h : e.Resolves op) : e.op = op := by
  cases e with
  | accepted id => exact h.elim
  | completed id => exact h
  | cancelled id caller actor => exact h.1

theorem mem_accepted (h : e.Resolves op) {es : List OpEvent} {op' : Nat} (hmem : .accepted op' ∈ es ++ [e]) :
    .accepted op' ∈ es := by
  rcases List.mem_append.mp hmem with hold | hnew
  · exact hold
  · rw [← List.mem_singleton.mp hnew] at h
    exact h.elim

end OpEvent.Resolves

theorem toNat_inj : ∀ a b : Bool, a.toNat = b.toNat → a = b := by decide

namespace Users

/-- The calls under way, each with its own operation. -/
structure Calls (s : Users) : Prop where
  handle : s.handle ≠ 0
  mem : ∀ t, s.phase t ≠ .idle → t ∈ s.sched.ids
  fresh : ∀ t, s.phase t ≠ .idle → s.op t < s.next
  alone : ∀ t u, s.phase t ≠ .idle → s.phase u ≠ .idle → s.op t = s.op u → t = u
  object : ∀ t p, (s.phase t).transfer = some p → p.handle = s.handle ∧ p.read ≤ 1

/-- What holds between the steps. -/
structure Inv (es : List OpEvent) (s : Users) : Prop where
  calls : s.Calls
  new : ∀ e ∈ es, e.op < s.next
  writes : ∀ t p, (s.phase t).transfer = some p → p.read = 0 → .accepted (s.op t) ∈ es → s.device.isFifo = true
  waits : ∀ read op, s.device.slot read = some op → ∃ t, s.op t = op ∧ (s.phase t).Waits (s.sched.table t) read
  answered : ∀ t, .accepted (s.op t) ∈ es → (∃ read, s.device.slot read = some (s.op t)) ∨ (s.phase t).Answered
  fate : ∀ op, Fate op (∃ read, s.device.slot read = some op) (es.filter fun e => e.op = op)

/-- Every call under way was so before. -/
structure SameCalls (s s' : Users) : Prop where
  handle : s'.handle = s.handle
  op : s'.op = s.op
  next : s'.next = s.next
  total : s'.sched.total = s.sched.total
  isFifo : s'.device.isFifo = s.device.isFifo
  transfer : ∀ t p, (s'.phase t).transfer = some p →
    ∃ q, (s.phase t).transfer = some q ∧ p.handle = q.handle ∧ p.read = q.read

section

variable {size : Nat} {es : List OpEvent} {s s' : Users} {t : Nat}

theorem runs_mem (h : s.runs t = true) : t ∈ s.sched.ids := by
  simp only [runs, Bool.and_eq_true, decide_eq_true_eq] at h
  exact h.1.1

theorem runs_active (h : s.runs t = true) : (s.sched.table t).active = true := by
  simp only [runs, Bool.and_eq_true] at h
  exact h.2

theorem phase_setPhase_self (phase : Phase) : (s.setPhase t phase).phase t = phase := update_self _ _ _

theorem phase_setPhase_of_ne {u : Nat} (h : u ≠ t) (phase : Phase) : (s.setPhase t phase).phase u = s.phase u :=
  update_of_ne h _ _

theorem phase_called_self (p : Transfer) (n : Int) : (s.called t p n).phase t = (s.phase t).setNbyte n :=
  update_self _ _ _

theorem phase_called_of_ne {u : Nat} (h : u ≠ t) (p : Transfer) (n : Int) : (s.called t p n).phase u = s.phase u :=
  update_of_ne h _ _

theorem privDeviceDataTransfer_other {u : Nat} (hut : u ≠ t) (a : Sched) (p : Transfer) (d : DriverAnswer) :
    ((privDeviceDataTransfer a t p d).1.table u).noExec = (a.table u).noExec := by
  unfold privDeviceDataTransfer
  dsimp only
  split_ifs
  · rw [Sched.noExec_updateOnSleep, if_neg hut, Sched.table_modify_of_ne _ hut]
  · rfl

theorem newCall_cases (s : Users) (t : Nat) (p : Transfer) (u : Nat) :
    (u = t ∧ (s.newCall t p).phase u = .starting p ∧ (s.newCall t p).op u = s.next) ∨
      (u ≠ t ∧ (s.newCall t p).phase u = s.phase u ∧ (s.newCall t p).op u = s.op u) := by
  by_cases hut : u = t
  · subst hut
    exact .inl ⟨rfl, update_self _ _ _, update_self _ _ _⟩
  · exact .inr ⟨hut, update_of_ne hut _ _, update_of_ne hut _ _⟩

theorem SameCalls.ne_idle (h : s.SameCalls s') (hphase : s'.phase t ≠ .idle) : s.phase t ≠ .idle := by
  obtain ⟨p, htransfer⟩ := Phase.exists_transfer hphase
  obtain ⟨q, hq, -, -⟩ := h.transfer t p htransfer
  exact Phase.ne_idle hq

theorem Calls.of_same (h : s.Calls) (hsame : s.SameCalls s') : s'.Calls where
  handle := by
    rw [hsame.handle]
    exact h.handle
  mem t hphase := mem_ids_of_total hsame.total (h.mem t (hsame.ne_idle hphase))
  fresh t hphase := by
    rw [hsame.op, hsame.next]
    exact h.fresh t (hsame.ne_idle hphase)
  alone t u ht hu heq := by
    rw [hsame.op] at heq
    exact h.alone t u (hsame.ne_idle ht) (hsame.ne_idle hu) heq
  object t p htransfer := by
    obtain ⟨q, hq, hhandle, hread⟩ := hsame.transfer t p htransfer
    rw [hhandle, hread, hsame.handle]
    exact h.object t q hq

theorem Calls.object_eq (h : s.Calls) {p : Transfer} (htransfer : (s.phase t).transfer = some p) :
    p.object = s.handle + p.read := by
  unfold Transfer.object
  rw [(h.object t p htransfer).1]

theorem Calls.caller_eq (h : s.Calls) (hphase : s.phase t ≠ .idle) : s.caller (s.op t) = some t := by
  unfold caller
  cases hfind : s.sched.ids.find? fun u => decide (s.phase u ≠ .idle ∧ s.op u = s.op t) with
  | none =>
    have hnot := List.find?_eq_none.mp hfind t (h.mem t hphase)
    exact absurd (decide_eq_true ⟨hphase, rfl⟩) hnot
  | some u =>
    obtain ⟨hu, heq⟩ : s.phase u ≠ .idle ∧ s.op u = s.op t := by simpa using List.find?_some hfind
    rw [h.alone u t hu hphase heq]

theorem sameCalls_called {v : Device} {p : Transfer} (htransfer : (s.phase t).transfer = some p) (n : Int)
    (hkind : v.isFifo = s.device.isFifo) : s.SameCalls ({ s with device := v }.called t p n) := by
  refine ⟨rfl, rfl, rfl, total_dataTransferCallback _ _ _, hkind, fun u q hq => ?_⟩
  by_cases hut : u = t
  · subst hut
    rw [phase_called_self, Phase.transfer_setNbyte, htransfer] at hq
    obtain rfl := Option.some.inj hq
    exact ⟨p, htransfer, rfl, rfl⟩
  · rw [phase_called_of_ne hut] at hq
    exact ⟨q, hq, rfl, rfl⟩

namespace Inv

/-- The call whose operation is pending waits for it. -/
theorem waits_of_op (h : s.Inv es) {read : Bool} (hslot : s.device.slot read = some (s.op t))
    (hphase : s.phase t ≠ .idle) : (s.phase t).Waits (s.sched.table t) read := by
  obtain ⟨u, hu, hwaits⟩ := h.waits read (s.op t) hslot
  rwa [h.calls.alone u t hwaits.ne_idle hphase hu] at hwaits

/-- No operation is pending for reading and for writing. -/
theorem slot_inj (h : s.Inv es) {op : Nat} {read read' : Bool} (hslot : s.device.slot read = some op)
    (hslot' : s.device.slot read' = some op) : read = read' := by
  obtain ⟨u, rfl, hwaits⟩ := h.waits read op hslot
  obtain ⟨p, htransfer, hread⟩ := hwaits.exists_transfer
  obtain ⟨q, htransfer', hread'⟩ := (h.waits_of_op hslot' hwaits.ne_idle).exists_transfer
  obtain rfl := Option.some.inj (htransfer.symm.trans htransfer')
  exact toNat_inj read read' (hread.symm.trans hread')

/-- A step that leaves the pending operations alone. -/
theorem frame (h : s.Inv es) (hsame : s.SameCalls s') (hslot : s'.device.slot = s.device.slot)
    (hwaits : ∀ read t, s.device.slot read = some (s.op t) → (s.phase t).Waits (s.sched.table t) read →
      (s'.phase t).Waits (s'.sched.table t) read)
    (hanswered : ∀ t, .accepted (s.op t) ∈ es → (s.phase t).Answered → (s'.phase t).Answered) : s'.Inv es where
  calls := h.calls.of_same hsame
  new e he := by
    rw [hsame.next]
    exact h.new e he
  writes t p htransfer hread haccepted := by
    obtain ⟨q, hq, -, hread'⟩ := hsame.transfer t p htransfer
    rw [hsame.op] at haccepted
    rw [hsame.isFifo]
    exact h.writes t q hq (hread'.symm.trans hread) haccepted
  waits read op hpending := by
    rw [hslot] at hpending
    obtain ⟨u, rfl, hu⟩ := h.waits read op hpending
    exact ⟨u, congrFun hsame.op u, hwaits read u hpending hu⟩
  answered t haccepted := by
    rw [hsame.op] at haccepted ⊢
    rw [hslot]
    exact (h.answered t haccepted).imp_right (hanswered t haccepted)
  fate op := by
    rw [hslot]
    exact h.fate op

/-- A step of one thread. -/
theorem thread (h : s.Inv es) {sched : Sched} {phase : Phase} (htotal : sched.total = s.sched.total)
    (hrows : ∀ u, u ≠ t → (sched.table u).noExec = (s.sched.table u).noExec)
    (htransfer : ∀ p, phase.transfer = some p →
      ∃ q, (s.phase t).transfer = some q ∧ p.handle = q.handle ∧ p.read = q.read)
    (hwaits : ∀ read, s.device.slot read = some (s.op t) → (s.phase t).Waits (s.sched.table t) read →
      phase.Waits (sched.table t) read)
    (hanswered : .accepted (s.op t) ∈ es → (s.phase t).Answered → phase.Answered) :
    ({ s with sched := sched }.setPhase t phase).Inv es := by
  refine h.frame ⟨rfl, rfl, rfl, htotal, rfl, fun u p hp => ?_⟩ rfl (fun read u hslot hu => ?_) fun u haccepted hu => ?_
  · by_cases hut : u = t
    · subst hut
      rw [phase_setPhase_self] at hp
      exact htransfer p hp
    · rw [phase_setPhase_of_ne hut] at hp
      exact ⟨p, hp, rfl, rfl⟩
  · by_cases hut : u = t
    · subst hut
      rw [phase_setPhase_self]
      exact hwaits read hslot hu
    · rw [phase_setPhase_of_ne hut]
      exact hu.of_noExec (hrows u hut)
  · by_cases hut : u = t
    · subst hut
      rw [phase_setPhase_self]
      exact hanswered haccepted hu
    · rw [phase_setPhase_of_ne hut]
      exact hu

/-- The fates after one pending operation was resolved. -/
theorem fate_resolved (h : s.Inv es) {v : Device} {read : Bool} {op : Nat} {e : OpEvent}
    (hslot : s.device.slot read = some op) (hslot' : v.slot = update s.device.slot read none) (he : e.Resolves op)
    (op' : Nat) : Fate op' (∃ read', v.slot read' = some op') ((es ++ [e]).filter fun e => e.op = op') := by
  rw [List.filter_append, List.filter_singleton]
  by_cases hop : op' = op
  · subst hop
    have hnot : ¬ ∃ read', v.slot read' = some op' := by
      rintro ⟨read', hpending⟩
      obtain ⟨hne, hold⟩ := (slot_removed hslot').mp hpending
      exact hne (h.slot_inj hold hslot)
    have hfate := h.fate op'
    rw [decide_eq_true he.op_eq]
    generalize es.filter (fun e => decide (e.op = op')) = l at hfate ⊢
    cases hfate with
    | never hno => exact absurd ⟨read, hslot⟩ hno
    | kept => exact .resolved hnot he
    | resolved hno => exact absurd ⟨read, hslot⟩ hno
  · rw [decide_eq_false fun heq => hop (heq.symm.trans he.op_eq), cond_false, List.append_nil]
    refine (h.fate op').congr ⟨?_, ?_⟩
    · rintro ⟨read', hpending⟩
      exact ⟨read', ((slot_removed hslot').mp hpending).2⟩
    · rintro ⟨read', hold⟩
      have hne : read' ≠ read := by
        rintro rfl
        exact hop (Option.some.inj (hold.symm.trans hslot))
      exact ⟨read', (slot_removed hslot').mpr ⟨hne, hold⟩⟩

/-- A thread that waits for another operation sleeps on. -/
theorem waits_called (h : s.Inv es) {p : Transfer} {u : Nat} {read read' : Bool} {n : Int}
    (htransfer : (s.phase t).transfer = some p) (hread : p.read = read.toNat) (hne : read' ≠ read) (hut : u ≠ t)
    (hwaits : (s.phase u).Waits (s.sched.table u) read') :
    ((s.called t p n).phase u).Waits ((s.called t p n).sched.table u) read' := by
  rw [phase_called_of_ne hut]
  obtain ⟨q, hq, hread'⟩ := hwaits.exists_transfer
  refine hwaits.callback ?_ fun q' hq' hobject => ?_
  · rw [h.calls.object_eq htransfer]
    exact Nat.ne_of_gt (Nat.add_pos_left (Nat.pos_of_ne_zero h.calls.handle) _)
  · obtain rfl := Option.some.inj (hq.symm.trans hq')
    rw [h.calls.object_eq htransfer, h.calls.object_eq hq, hread, hread'] at hobject
    exact hne (toNat_inj read' read (Nat.add_left_cancel hobject))

/-- The call whose operation was resolved is answered, and no other loses what it waits for. -/
theorem answered_called (h : s.Inv es) {v : Device} (p : Transfer) {read : Bool} {n : Int}
    (hslot : s.device.slot read = some (s.op t)) (hslot' : v.slot = update s.device.slot read none)
    (hwaits : (s.phase t).Waits (s.sched.table t) read) (hn : n ≠ 0) (u : Nat) (haccepted : .accepted (s.op u) ∈ es) :
    (∃ read', v.slot read' = some (s.op u)) ∨ ((s.called t p n).phase u).Answered := by
  by_cases hut : u = t
  · subst hut
    rw [phase_called_self]
    exact .inr (hwaits.answered hn)
  · rw [phase_called_of_ne hut]
    by_cases hidle : s.phase u = .idle
    · rw [hidle]
      exact .inr trivial
    · rcases h.answered u haccepted with ⟨read', hold⟩ | hanswered
      · have hne : read' ≠ read := by
          rintro rfl
          exact hut (h.calls.alone u t hidle hwaits.ne_idle (Option.some.inj (hold.symm.trans hslot)))
        exact .inl ⟨read', (slot_removed hslot').mpr ⟨hne, hold⟩⟩
      · exact .inr hanswered

/-- A callback to the call that waits for it. -/
theorem callback (h : s.Inv es) {v : Device} {read : Bool} {nbyte : Option Nat} {actor : Option Nat}
    (hslot : s.device.slot read = some (s.op t)) (hwaits : (s.phase t).Waits (s.sched.table t) read)
    (hslot' : v.slot = update s.device.slot read none) (hkind : v.isFifo = s.device.isFifo) (hnbyte : nbyte ≠ some 0)
    (hactor : nbyte = none → actor = some t) :
    ∃ s' e, { s with device := v }.callback actor ⟨s.op t, nbyte⟩ = some (s', e) ∧ s'.Inv (es ++ [e]) ∧
      s.SameCalls s' ∧ s'.device = v ∧ ∀ u p, s.phase u = .starting p → s'.phase u = .starting p := by
  obtain ⟨p, htransfer, hread⟩ := hwaits.exists_transfer
  have hcaller : { s with device := v }.caller (s.op t) = some t := h.calls.caller_eq hwaits.ne_idle
  let n : Int := (nbyte.map Int.ofNat).getD (-1)
  have hn : n ≠ 0 := by
    cases nbyte with
    | none => exact fun hzero => absurd hzero (by decide)
    | some k => exact fun hzero => hnbyte (congrArg some (Int.ofNat_eq_zero.mp hzero))
  let e : OpEvent := if nbyte.isSome then .completed (s.op t) else .cancelled (s.op t) t actor
  have he : e.Resolves (s.op t) := by
    cases nbyte with
    | none => exact ⟨rfl, hactor rfl⟩
    | some k => exact rfl
  have hsame : s.SameCalls ({ s with device := v }.called t p n) := sameCalls_called htransfer n hkind
  refine ⟨{ s with device := v }.called t p n, e, ?_, ⟨h.calls.of_same hsame, ?_, ?_, ?_, ?_, ?_⟩, hsame, rfl, ?_⟩
  · unfold Users.callback
    simp only [hcaller, htransfer]
    rfl
  · intro e' he'
    rcases List.mem_append.mp he' with hold | hnew
    · exact h.new e' hold
    · rw [List.mem_singleton.mp hnew, he.op_eq]
      exact h.calls.fresh t hwaits.ne_idle
  · intro u q hq hzero haccepted
    obtain ⟨q', hq', -, hread'⟩ := hsame.transfer u q hq
    exact hkind.trans (h.writes u q' hq' (hread'.symm.trans hzero) (he.mem_accepted haccepted))
  · intro read' op hpending
    obtain ⟨hne, hold⟩ := (slot_removed hslot').mp hpending
    obtain ⟨u, rfl, hwaits'⟩ := h.waits read' op hold
    have hut : u ≠ t := by
      rintro rfl
      exact hne (h.slot_inj hold hslot)
    exact ⟨u, rfl, h.waits_called htransfer hread hne hut hwaits'⟩
  · intro u haccepted
    exact h.answered_called p hslot hslot' hwaits hn u (he.mem_accepted haccepted)
  · exact h.fate_resolved hslot hslot' he
  · intro u q hq
    have hut : u ≠ t := by
      rintro rfl
      rw [hq] at hwaits
      exact hwaits.elim
    exact (phase_called_of_ne (s := s) hut p n).trans hq

/-- A call to the driver that completes an operation at most. -/
theorem driverCall (h : s.Inv es) {r : Device × List Callback} (hcompletes : s.device.Completes r.1 r.2)
    (hkind : r.1.isFifo = s.device.isFifo) (actor : Option Nat) :
    ∃ s' es', s.driverCall actor r = some (s', es') ∧ s'.Inv (es ++ es') ∧ s.SameCalls s' ∧ s'.device = r.1 ∧
      ∀ u p, s.phase u = .starting p → s'.phase u = .starting p := by
  unfold Users.driverCall
  cases hcompletes with
  | none hslot hcs =>
    rw [hcs]
    have hsame : s.SameCalls { s with device := r.1 } := ⟨rfl, rfl, rfl, rfl, hkind, fun u p hp => ⟨p, hp, rfl, rfl⟩⟩
    refine ⟨_, [], rfl, ?_, hsame, rfl, fun u p hp => hp⟩
    rw [List.append_nil]
    exact h.frame hsame hslot (fun _ _ _ hwaits => hwaits) fun _ _ hanswered => hanswered
  | one read op n hslot hslot' hn hcs =>
    obtain ⟨t, rfl, hwaits⟩ := h.waits read op hslot
    obtain ⟨s', e, hcallback, hinv, hsame, hdevice, hstarting⟩ :=
      @callback _ _ _ h r.1 read (some n) actor hslot hwaits hslot' hkind
        (fun hzero => Nat.ne_of_gt hn (Option.some.inj hzero)) (fun hno => nomatch hno)
    refine ⟨s', [e], ?_, hinv, hsame, hdevice, hstarting⟩
    rw [hcs]
    simp only [callbacks, hcallback]

/-- A call to the driver outside of a transfer. -/
theorem driverStep (h : s.Inv es) {r : Device × List Callback} (hcompletes : s.device.Completes r.1 r.2)
    (hkind : r.1.isFifo = s.device.isFifo) {actor : Option Nat} {e : Option (List OpEvent)}
    (hstep : ((s.driverCall actor r).map fun r => (r.1, some r.2)) = some (s', e)) : s'.Inv (es ++ e.getD []) := by
  obtain ⟨s₁, es₁, hcall, hinv, -⟩ := h.driverCall hcompletes hkind actor
  rw [hcall] at hstep
  obtain ⟨rfl, rfl⟩ := Prod.mk.inj (Option.some.inj hstep)
  exact hinv

/-- The privileged call is made, and the driver has not kept the operation. -/
theorem started (h : s.Inv es) {p q : Transfer} {sched : Sched} (hphase : s.phase t = .starting p)
    (htotal : sched.total = s.sched.total) (hrows : ∀ u, u ≠ t → (sched.table u).noExec = (s.sched.table u).noExec)
    (hhandle : q.handle = p.handle) (hread : q.read = p.read) :
    ({ s with sched := sched }.setPhase t (.started q)).Inv es := by
  refine h.thread htotal hrows ?_ ?_ ?_
  · intro q' hq'
    obtain rfl := Option.some.inj hq'
    exact ⟨p, by rw [hphase]; rfl, hhandle, hread⟩
  · intro read _ hwaits
    rw [hphase] at hwaits
    exact hwaits.elim
  · intro _ hanswered
    rw [hphase] at hanswered
    exact hanswered.elim

/-- A call returns whose operation is not pending. -/
theorem returns (h : s.Inv es) (hslot : ∀ read, s.device.slot read ≠ some (s.op t)) : (s.setPhase t .idle).Inv es :=
  h.thread rfl (fun _ _ => rfl) (fun _ hq => nomatch hq) (fun read hpending _ => absurd hpending (hslot read))
    fun _ _ => trivial

/-- A call begins, with an operation of its own. -/
theorem newCall (h : s.Inv es) {p : Transfer} (hidle : s.phase t = .idle) (hmem : t ∈ s.sched.ids)
    (hp : p.handle = s.handle ∧ p.read ≤ 1) : (s.newCall t p).Inv es := by
  have hnew : .accepted s.next ∉ es := fun haccepted => Nat.lt_irrefl _ (h.new _ haccepted)
  have hfresh : ∀ u, s.phase u ≠ .idle → s.op u ≠ s.next := fun u hbusy => Nat.ne_of_lt (h.calls.fresh u hbusy)
  refine ⟨⟨h.calls.handle, ?_, ?_, ?_, ?_⟩, fun e he => Nat.lt_succ_of_lt (h.new e he), ?_, ?_, ?_, h.fate⟩
  · intro u hbusy
    rcases newCall_cases s t p u with ⟨rfl, -⟩ | ⟨-, hphase, -⟩
    · exact hmem
    · exact h.calls.mem u (hphase ▸ hbusy)
  · intro u hbusy
    rcases newCall_cases s t p u with ⟨rfl, -, hop⟩ | ⟨-, hphase, hop⟩
    · rw [hop]
      exact Nat.lt_succ_self _
    · rw [hop]
      exact Nat.lt_succ_of_lt (h.calls.fresh u (hphase ▸ hbusy))
  · intro u v hu hv heq
    rcases newCall_cases s t p u with ⟨hut, -, hop⟩ | ⟨-, hphase, hop⟩ <;>
      rcases newCall_cases s t p v with ⟨hvt, -, hop'⟩ | ⟨-, hphase', hop'⟩
    · exact hut.trans hvt.symm
    · exact absurd (hop'.symm.trans (heq.symm.trans hop)) (hfresh v (hphase' ▸ hv))
    · exact absurd (hop.symm.trans (heq.trans hop')) (hfresh u (hphase ▸ hu))
    · exact h.calls.alone u v (hphase ▸ hu) (hphase' ▸ hv) (hop.symm.trans (heq.trans hop'))
  · intro u q hq
    rcases newCall_cases s t p u with ⟨rfl, hphase, -⟩ | ⟨-, hphase, -⟩
    · rw [hphase] at hq
      obtain rfl := Option.some.inj hq
      exact hp
    · exact h.calls.object u q (hphase ▸ hq)
  · intro u q hq hzero haccepted
    rcases newCall_cases s t p u with ⟨rfl, -, hop⟩ | ⟨-, hphase, hop⟩
    · exact absurd (hop ▸ haccepted) hnew
    · exact h.writes u q (hphase ▸ hq) hzero (hop ▸ haccepted)
  · intro read op hslot
    obtain ⟨u, hu, hwaits⟩ := h.waits read op hslot
    rcases newCall_cases s t p u with ⟨rfl, -, -⟩ | ⟨-, hphase, hop⟩
    · exact absurd hidle hwaits.ne_idle
    · exact ⟨u, hop.trans hu, hphase.symm ▸ hwaits⟩
  · intro u haccepted
    rcases newCall_cases s t p u with ⟨rfl, -, hop⟩ | ⟨-, hphase, hop⟩
    · exact absurd (hop ▸ haccepted) hnew
    · rw [hop] at haccepted ⊢
      rw [hphase]
      exact h.answered u haccepted

theorem unaccepted (h : s.Inv es) {p : Transfer} (hphase : s.phase t = .starting p) : .accepted (s.op t) ∉ es := by
  have hbusy : s.phase t ≠ .idle := by
    rw [hphase]
    exact Phase.noConfusion
  intro haccepted
  rcases h.answered t haccepted with ⟨read, hslot⟩ | hanswered
  · have hwaits := h.waits_of_op hslot hbusy
    rw [hphase] at hwaits
    exact hwaits.elim
  · rw [hphase] at hanswered
    exact hanswered.elim

/-- The fates after one more operation was kept. -/
theorem fate_accepted (h : s.Inv es) {v : Device} {read : Bool} {op : Nat} (hslot : s.device.slot read = none)
    (hslot' : v.slot = update s.device.slot read (some op)) (hnew : .accepted op ∉ es) (op' : Nat) :
    Fate op' (∃ read', v.slot read' = some op') ((es ++ [OpEvent.accepted op]).filter fun e => e.op = op') := by
  rw [List.filter_append, List.filter_singleton]
  by_cases hop : op' = op
  · subst hop
    have hpending : ∃ read', v.slot read' = some op' := ⟨read, (slot_added hslot hslot').mpr (.inl ⟨rfl, rfl⟩)⟩
    have hfate := h.fate op'
    have hnot : OpEvent.accepted op' ∉ es.filter fun e => e.op = op' := fun hmem => hnew (List.mem_filter.mp hmem).1
    rw [decide_eq_true (show (OpEvent.accepted op').op = op' from rfl)]
    generalize es.filter (fun e => decide (e.op = op')) = l at hfate hnot ⊢
    cases hfate with
    | never => exact .kept hpending
    | kept => exact absurd List.mem_cons_self hnot
    | resolved => exact absurd List.mem_cons_self hnot
  · rw [decide_eq_false (show ¬ (OpEvent.accepted op).op = op' from fun heq => hop heq.symm), cond_false,
      List.append_nil]
    refine (h.fate op').congr (exists_congr fun read' => ?_)
    rw [slot_added hslot hslot']
    exact or_iff_right fun hadded => hop hadded.2

/-- The driver keeps the operation of a call, which goes to sleep. -/
theorem kept (h : s.Inv es) {v : Device} {p q : Transfer} {sched : Sched} {read : Bool}
    (hphase : s.phase t = .starting p) (htotal : sched.total = s.sched.total)
    (hrows : ∀ u, u ≠ t → (sched.table u).noExec = (s.sched.table u).noExec)
    (hhandle : q.handle = p.handle) (hread : q.read = p.read)
    (hwaits : (Phase.started q).Waits (sched.table t) read) (hkind : v.isFifo = s.device.isFifo)
    (hslot : s.device.slot read = none) (hslot' : v.slot = update s.device.slot read (some (s.op t))) :
    ({ s with sched := sched, device := v }.setPhase t (.started q)).Inv (es ++ [OpEvent.accepted (s.op t)]) := by
  have hbusy : s.phase t ≠ .idle := by
    rw [hphase]
    exact Phase.noConfusion
  have hsame : s.SameCalls ({ s with sched := sched, device := v }.setPhase t (.started q)) := by
    refine ⟨rfl, rfl, rfl, htotal, hkind, fun u p' hp' => ?_⟩
    by_cases hut : u = t
    · subst hut
      rw [phase_setPhase_self] at hp'
      obtain rfl := Option.some.inj hp'
      exact ⟨p, by rw [hphase]; rfl, hhandle, hread⟩
    · rw [phase_setPhase_of_ne hut] at hp'
      exact ⟨p', hp', rfl, rfl⟩
  -- the operation of another call was accepted before
  have hold : ∀ {u}, s.phase u ≠ .idle → u ≠ t → .accepted (s.op u) ∈ es ++ [.accepted (s.op t)] →
      .accepted (s.op u) ∈ es := by
    intro u hu hut hmem
    rcases List.mem_append.mp hmem with hold | hnew
    · exact hold
    · exact absurd (h.calls.alone u t hu hbusy (OpEvent.accepted.inj (List.mem_singleton.mp hnew))) hut
  refine ⟨h.calls.of_same hsame, ?_, ?_, ?_, ?_, h.fate_accepted hslot hslot' (h.unaccepted hphase)⟩
  · intro e he
    rcases List.mem_append.mp he with hmem | hnew
    · exact h.new e hmem
    · rw [List.mem_singleton.mp hnew]
      exact h.calls.fresh t hbusy
  · intro u p' hp' hzero haccepted
    by_cases hut : u = t
    · subst hut
      rw [phase_setPhase_self] at hp'
      obtain rfl := Option.some.inj hp'
      -- only the fifo keeps a write
      obtain ⟨q', hq', hreads⟩ := hwaits.exists_transfer
      obtain rfl := Option.some.inj hq'
      obtain rfl : read = false := toNat_inj read false (hreads.symm.trans hzero)
      exact isFifo_of_slot ((slot_added hslot hslot').mpr (.inl ⟨rfl, rfl⟩))
    · rw [phase_setPhase_of_ne hut] at hp'
      exact hkind.trans (h.writes u p' hp' hzero (hold (Phase.ne_idle hp') hut haccepted))
  · intro read' op hpending
    rcases (slot_added hslot hslot').mp hpending with ⟨rfl, rfl⟩ | hpending
    · refine ⟨t, rfl, ?_⟩
      rw [phase_setPhase_self]
      exact hwaits
    · obtain ⟨u, rfl, hwaits'⟩ := h.waits read' op hpending
      refine ⟨u, rfl, ?_⟩
      have hut : u ≠ t := by
        rintro rfl
        rw [hphase] at hwaits'
        exact hwaits'.elim
      rw [phase_setPhase_of_ne hut]
      exact hwaits'.of_noExec (hrows u hut)
  · intro u haccepted
    by_cases hut : u = t
    · subst hut
      exact .inl ⟨read, (slot_added hslot hslot').mpr (.inl ⟨rfl, rfl⟩)⟩
    · rw [phase_setPhase_of_ne hut]
      by_cases hidle : s.phase u = .idle
      · rw [hidle]
        exact .inr trivial
      · refine (h.answered u (hold hidle hut haccepted)).imp_left fun hpending => ?_
        obtain ⟨read', hpending⟩ := hpending
        exact ⟨read', (slot_added hslot hslot').mpr (.inr hpending)⟩

theorem startTransfer (h : s.Inv es) {p : Transfer} {data : Nat → UInt8} {below : DriverAnswer} {es' : List OpEvent}
    (hphase : s.phase t = .starting p) (hstart : s.startTransfer size t p data below = some (s', es')) :
    s'.Inv (es ++ es') := by
  have hbusy : s.phase t ≠ .idle := by
    rw [hphase]
    exact Phase.noConfusion
  have hread : p.read = (p.read == 1).toNat := by
    have hle := (h.calls.object t p (by rw [hphase]; rfl)).2
    obtain hzero | hone : p.read = 0 ∨ p.read = 1 := by omega
    · rw [hzero]
      rfl
    · rw [hone]
      rfl
  have htransfers := @transfers_transfer size s.device (p.read == 1) (s.operation t p data) p.want below
  have hkind := @isFifo_transfer size s.device (p.read == 1) (s.operation t p data) p.want below
  unfold Users.startTransfer at hstart
  dsimp only at hstart
  generalize s.device.transfer size (p.read == 1) (s.operation t p data) p.want below = r at hstart htransfers hkind
  obtain ⟨v, cs, a⟩ := r
  dsimp only at hstart htransfers hkind
  cases htransfers with
  | answered hcompletes =>
    obtain ⟨s₁, es₁, hcall, hinv, hsame, hdevice, hstarting⟩ := @driverCall _ _ h (v, cs) hcompletes hkind (some t)
    have hphase₁ := hstarting t p hphase
    have hnot : ¬ (s.device.slot (p.read == 1) ≠ some (s.op t) ∧ v.slot (p.read == 1) = some (s.op t)) := by
      rintro ⟨-, hslot⟩
      rw [← hsame.op, ← show s₁.device = v from hdevice] at hslot
      have hwaits := hinv.waits_of_op hslot (by rw [hphase₁]; exact Phase.noConfusion)
      rw [hphase₁] at hwaits
      exact hwaits.elim
    rw [hcall] at hstart
    dsimp only at hstart
    rw [if_neg hnot] at hstart
    obtain ⟨rfl, rfl⟩ := Prod.mk.inj (Option.some.inj hstart)
    refine hinv.started hphase₁ (Thread.privDeviceDataTransfer_total _ _ _ _)
      (fun u hut => privDeviceDataTransfer_other hut _ _ _) ?_ ?_ <;> rw [Thread.privDeviceDataTransfer_snd]
  | kept hslot hslot' hcs hret hnbyte =>
    have hcall : s.driverCall (some t) (v, cs) = some ({ s with device := v }, []) := by
      rw [hcs]
      rfl
    have hkept : s.device.slot (p.read == 1) ≠ some (s.op t) ∧ v.slot (p.read == 1) = some (s.op t) := by
      rw [hslot, hslot', update_self]
      exact ⟨fun hno => (nomatch hno), rfl⟩
    rw [hcall] at hstart
    dsimp only at hstart
    rw [if_pos hkept, List.nil_append] at hstart
    obtain ⟨rfl, rfl⟩ := Prod.mk.inj (Option.some.inj hstart)
    -- the thread sleeps
    obtain ⟨-, -, hrow⟩ | ⟨hawake, -⟩ := Thread.privDeviceDataTransfer_row t s.sched { p with nbyte := p.want } a
    · refine h.kept hphase (Thread.privDeviceDataTransfer_total _ _ _ _)
        (fun u hut => privDeviceDataTransfer_other hut _ _ _) ?_ ?_ ?_ hkind hslot hslot'
      · rw [Thread.privDeviceDataTransfer_snd]
      · rw [Thread.privDeviceDataTransfer_snd]
      · rw [Thread.privDeviceDataTransfer_snd]
        refine Phase.Waits.of_noExec ⟨hread, hret, .inl ⟨rfl, ?_⟩⟩ hrow
        rfl
    · omega

/-! ### One step -/

theorem call (h : s.Inv es) {file flags : Nat} {read : Bool} {want mode : Int} {e : Option (List OpEvent)}
    (hstep : s.step size (.call t file read flags want mode) = some (s', e)) : s'.Inv (es ++ e.getD []) := by
  simp only [step] at hstep
  split_ifs at hstep with hruns hreturns
  · obtain ⟨rfl, rfl⟩ := Prod.mk.inj (Option.some.inj hstep)
    rw [Option.getD_none, List.append_nil]
    exact h
  · obtain ⟨rfl, rfl⟩ := Prod.mk.inj (Option.some.inj hstep)
    rw [Option.getD_none, List.append_nil]
    exact h.newCall hruns.2 (runs_mem hruns.1) ⟨rfl, Bool.toNat_le read⟩

theorem startFails (h : s.Inv es) {e : Option (List OpEvent)}
    (hstep : s.step size (.startFails t) = some (s', e)) : s'.Inv (es ++ e.getD []) := by
  simp only [step] at hstep
  cases hphase : s.phase t with
  | starting p =>
    rw [hphase] at hstep
    dsimp only at hstep
    split_ifs at hstep
    obtain ⟨rfl, rfl⟩ := Prod.mk.inj (Option.some.inj hstep)
    rw [Option.getD_none, List.append_nil]
    exact h.started hphase rfl (fun _ _ => rfl) rfl rfl
  | _ => simp [hphase] at hstep

theorem start (h : s.Inv es) {data : Nat → UInt8} {below : DriverAnswer} {e : Option (List OpEvent)}
    (hstep : s.step size (.start t data below) = some (s', e)) : s'.Inv (es ++ e.getD []) := by
  simp only [step] at hstep
  cases hphase : s.phase t with
  | starting p =>
    rw [hphase] at hstep
    dsimp only at hstep
    split_ifs at hstep with hruns
    obtain ⟨⟨s₁, es₁⟩, hstart, heq⟩ := Option.map_eq_some_iff.mp hstep
    obtain ⟨rfl, rfl⟩ := Prod.mk.inj heq
    exact h.startTransfer hphase hstart
  | _ => simp [hphase] at hstep

theorem resume (h : s.Inv es) {e : Option (List OpEvent)} (hstep : s.step size (.resume t) = some (s', e)) :
    s'.Inv (es ++ e.getD []) := by
  simp only [step] at hstep
  cases hphase : s.phase t with
  | started p =>
    rw [hphase] at hstep
    dsimp only at hstep
    split_ifs at hstep with hruns
    -- who waits for a pending operation runs because of a signal
    have hsignal : ∀ {read}, (s.phase t).Waits (s.sched.table t) read →
        p.read = read.toNat ∧ p.outcome (s.sched.table t).unblockType = .interrupted := by
      intro read hwaits
      rw [hphase] at hwaits
      obtain ⟨hread, -, ⟨hinactive, -⟩ | ⟨htype, -⟩⟩ := hwaits
      · rw [runs_active hruns] at hinactive
        exact nomatch hinactive
      · exact ⟨hread, Transfer.outcome_signal.mpr htype⟩
    cases hout : p.outcome (s.sched.table t).unblockType with
    | interrupted =>
      rw [hout] at hstep
      obtain ⟨rfl, rfl⟩ := Prod.mk.inj (Option.some.inj hstep)
      rw [Option.getD_none, List.append_nil]
      refine h.thread rfl (fun _ _ => rfl) ?_ (fun read _ hwaits => (hsignal hwaits).1) fun _ _ => trivial
      intro q hq
      obtain rfl := Option.some.inj hq
      exact ⟨p, by rw [hphase]; rfl, rfl, rfl⟩
    | again =>
      rw [hout] at hstep
      obtain ⟨rfl, rfl⟩ := Prod.mk.inj (Option.some.inj hstep)
      rw [Option.getD_none, List.append_nil]
      refine h.thread rfl (fun _ _ => rfl) ?_ (fun read _ hwaits => ?_) fun _ hanswered => ?_
      · intro q hq
        obtain rfl := Option.some.inj hq
        exact ⟨p, by rw [hphase]; rfl, rfl, rfl⟩
      · exact nomatch hout.symm.trans (hsignal hwaits).2
      · rw [hphase] at hanswered
        exact hanswered.2 (Transfer.outcome_again hout).2
    | done result errno =>
      rw [hout] at hstep
      obtain ⟨rfl, rfl⟩ := Prod.mk.inj (Option.some.inj hstep)
      rw [Option.getD_none, List.append_nil]
      refine h.thread rfl (fun _ _ => rfl) (fun q hq => nomatch hq) (fun read _ hwaits => ?_) fun _ _ => trivial
      exact nomatch hout.symm.trans (hsignal hwaits).2
  | _ => simp [hphase] at hstep

theorem ioctl (h : s.Inv es) {request : DeviceRequest} {e : Option (List OpEvent)}
    (hcareful : s.Careful (.ioctl t request)) (hstep : s.step size (.ioctl t request) = some (s', e)) :
    s'.Inv (es ++ e.getD []) := by
  simp only [step] at hstep
  split_ifs at hstep
  exact h.driverStep (completes_ioctl hcareful) (isFifo_ioctl request) hstep

theorem «open» (h : s.Inv es) {e : Option (List OpEvent)} (hcareful : s.Careful (.open t))
    (hstep : s.step size (.open t) = some (s', e)) : s'.Inv (es ++ e.getD []) := by
  simp only [step] at hstep
  split_ifs at hstep
  exact h.driverStep (completes_open hcareful) isFifo_open hstep

theorem dataReceived (h : s.Inv es) {bytes : List UInt8} {e : Option (List OpEvent)}
    (hstep : s.step size (.dataReceived bytes) = some (s', e)) : s'.Inv (es ++ e.getD []) :=
  h.driverStep (completes_dataReceived bytes) (isFifo_dataReceived bytes) hstep

theorem signal (h : s.Inv es) {e : Option (List OpEvent)} (hstep : s.step size (.signal t) = some (s', e)) :
    s'.Inv (es ++ e.getD []) := by
  simp only [step] at hstep
  obtain ⟨rfl, rfl⟩ := Prod.mk.inj (Option.some.inj hstep)
  rw [Option.getD_none, List.append_nil]
  have hrow := fun u => Sched.noExec_signal s.sched t u
  refine h.frame ⟨rfl, rfl, rfl, (Sched.activate_spec s.sched t).total, rfl, fun u p hp => ⟨p, hp, rfl, rfl⟩⟩ rfl
    (fun read u _ hwaits => ?_) fun _ _ hanswered => hanswered
  by_cases hut : u = t
  · subst hut
    -- the signal is now why the thread is awake
    refine Phase.Waits.of_noExec ?_ ((hrow u).trans (congrArg SchedTask.noExec (if_pos rfl)))
    cases hphase : s.phase u with
    | started p =>
      rw [hphase] at hwaits
      exact ⟨hwaits.1, hwaits.2.1, .inr ⟨rfl, rfl⟩⟩
    | _ =>
      rw [hphase] at hwaits
      exact hwaits
  · exact hwaits.of_noExec ((hrow u).trans (congrArg SchedTask.noExec (if_neg hut)))

theorem written (h : s.Inv es) {nbyte : Int} {e : Option (List OpEvent)}
    (hstep : s.step size (.written t nbyte) = some (s', e)) : s'.Inv (es ++ e.getD []) := by
  simp only [step] at hstep
  cases hdevice : s.device with
  | fifo f => simp [hdevice] at hstep
  | rx d f =>
    cases htransfer : (s.phase t).transfer with
    | none => simp [hdevice, htransfer] at hstep
    | some p =>
      rw [hdevice, htransfer] at hstep
      dsimp only at hstep
      split_ifs at hstep with hwrite
      obtain ⟨rfl, rfl⟩ := Prod.mk.inj (Option.some.inj hstep)
      rw [Option.getD_none, List.append_nil]
      have hsame : s.SameCalls (s.called t p nbyte) := sameCalls_called htransfer nbyte rfl
      -- the driver keeps reads only
      have hread : ∀ {read op}, s.device.slot read = some op → read ≠ false := by
        rintro read op hslot rfl
        rw [hdevice] at hslot
        exact nomatch hslot
      refine h.frame hsame rfl (fun read u hslot hwaits => ?_) fun u haccepted hanswered => ?_
      · refine @waits_called es s t h p u false read nbyte htransfer hwrite (hread hslot) ?_ hwaits
        rintro rfl
        obtain ⟨q, hq, hqread⟩ := hwaits.exists_transfer
        obtain rfl := Option.some.inj (htransfer.symm.trans hq)
        exact hread hslot (toNat_inj read false (hqread.symm.trans hwrite))
      · by_cases hut : u = t
        · subst hut
          have hfifo := h.writes u p htransfer hwrite haccepted
          rw [hdevice] at hfifo
          exact nomatch hfifo
        · rw [phase_called_of_ne hut]
          exact hanswered

theorem other (h : s.Inv es) {sched : Sched} {e : Option (List OpEvent)}
    (hstep : s.step size (.other sched) = some (s', e)) : s'.Inv (es ++ e.getD []) := by
  simp only [step] at hstep
  split_ifs at hstep with hsame
  obtain ⟨rfl, rfl⟩ := Prod.mk.inj (Option.some.inj hstep)
  rw [Option.getD_none, List.append_nil]
  refine h.frame ⟨rfl, rfl, rfl, hsame.1, rfl, fun u p hp => ⟨p, hp, rfl, rfl⟩⟩ rfl (fun read u _ hwaits => ?_)
    fun _ _ hanswered => hanswered
  exact hwaits.of_noExec (hsame.2 u (h.calls.mem u hwaits.ne_idle) hwaits.ne_idle)

theorem clear (h : s.Inv es) {e : Option (List OpEvent)} (hcareful : s.Careful (.clear t))
    (hstep : s.step size (.clear t) = some (s', e)) : s'.Inv (es ++ e.getD []) := by
  simp only [step] at hstep
  cases hphase : s.phase t with
  | clearing p =>
    rw [hphase] at hstep
    dsimp only at hstep
    split_ifs at hstep
    have hbusy : s.phase t ≠ .idle := by
      rw [hphase]
      exact Phase.noConfusion
    rcases clrAction_cases s.device size with ⟨hslot, hcs, hnone⟩ | ⟨hcancels, op, hslot, hslot', hcs⟩
    · -- nothing was pending that the driver would cancel
      have hnot : ∀ read, s.device.slot read ≠ some (s.op t) := by
        intro read hpending
        simp only [Careful] at hcareful
        split_ifs at hcareful with hcancels
        · rw [hnone hcancels read] at hpending
          exact nomatch hpending
        · exact hcareful read hpending
      obtain ⟨s₁, es₁, hcall, hinv, hsame, hdevice, -⟩ :=
        h.driverCall (.none hslot hcs) isFifo_clrAction (some t)
      rw [hcall] at hstep
      obtain ⟨rfl, rfl⟩ := Prod.mk.inj (Option.some.inj hstep)
      refine hinv.returns fun read hpending => ?_
      rw [hdevice, hslot, hsame.op] at hpending
      exact hnot read hpending
    · -- the operation of the thread is cancelled
      simp only [Careful, hcancels, if_true] at hcareful
      obtain rfl := hcareful op hslot
      obtain ⟨s₁, e₁, hcallback, hinv, hsame, hdevice, -⟩ :=
        @callback _ _ _ h _ true none (some t) hslot (h.waits_of_op hslot hbusy) hslot' isFifo_clrAction
          (fun hno => nomatch hno) fun _ => rfl
      have hcall : s.driverCall (some t) (s.device.clrAction size) = some (s₁, [e₁]) := by
        unfold Users.driverCall
        rw [hcs]
        simp only [callbacks, hcallback]
      rw [hcall] at hstep
      obtain ⟨rfl, rfl⟩ := Prod.mk.inj (Option.some.inj hstep)
      refine hinv.returns fun read hpending => ?_
      rw [hdevice, hsame.op] at hpending
      obtain ⟨hne, hold⟩ := (slot_removed hslot').mp hpending
      exact hne (h.slot_inj hold hslot)
  | _ => simp [hphase] at hstep

/-- A careful step, whoever makes it. -/
theorem step (h : s.Inv es) {a : UserAction} {e : Option (List OpEvent)} (hcareful : s.Careful a)
    (hstep : s.step size a = some (s', e)) : s'.Inv (es ++ e.getD []) := by
  cases a with
  | call => exact h.call hstep
  | start => exact h.start hstep
  | startFails => exact h.startFails hstep
  | resume => exact h.resume hstep
  | clear => exact h.clear hcareful hstep
  | ioctl => exact h.ioctl hcareful hstep
  | «open» => exact h.open hcareful hstep
  | signal => exact h.signal hstep
  | dataReceived => exact h.dataReceived hstep
  | written => exact h.written hstep
  | other => exact h.other hstep

end Inv

theorem Init.inv (h : s.Init) : s.Inv [] := by
  have hidle : ∀ {u p}, (s.phase u).transfer = some p → False := fun hp => Phase.ne_idle hp (h.phase _)
  refine ⟨⟨h.handle, ?_, ?_, ?_, ?_⟩, ?_, ?_, ?_, ?_, ?_⟩
  · exact fun u hbusy => absurd (h.phase u) hbusy
  · exact fun u hbusy => absurd (h.phase u) hbusy
  · exact fun u _ hbusy => absurd (h.phase u) hbusy
  · exact fun u p hp => (hidle hp).elim
  · exact fun e he => absurd he List.not_mem_nil
  · exact fun u p hp => (hidle hp).elim
  · exact fun read op hslot => nomatch (h.slot read).symm.trans hslot
  · exact fun u haccepted => absurd haccepted List.not_mem_nil
  · exact fun op => .never fun hpending => hpending.elim fun read hslot => nomatch (h.slot read).symm.trans hslot

end

end Users

end Unistd

end CoActionOS
