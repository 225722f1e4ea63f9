import CoActionOS.Signal.Basic
import Mathlib.Algebra.BigOperators.Group.List.Basic

/-!
# What becomes of a pending signal

Four steps can go wrong.  A mask change that unblocks a pending signal does not deliver it.  A call that has cleared a
signal goes to sleep if the process has no table of signal information, and otherwise returns the entry, whose
`si_signo` is the code of the delivery.  The two accesses of an update of `sigpending` lose what a handler has entered
between them, and a handler that waits itself may take the signal that a call below it has found.

A thread that takes none of these loses no pending signal and answers none twice (`pending_conserved_iff`).
-/

namespace CoActionOS

namespace Signal

open Function

/-! ### The statement -/

/-- A thread with the account of its pending signals: how often each has been cleared, how often a call has returned
it, and which were pending and not blocked after the last mask change.  No step delivers a pending signal, so that
returning it is the only answer. -/
structure Ledger where
  thread : Thread
  cleared : Nat → Nat
  answered : Int → Nat
  exposed : Sigset

/-- The signal that a call returns: its `*sig`, or the `si_signo` of its `*info`. -/
def Event.answer : Event → Option Int
  | .waited _ (.sig i) => some i
  | .waited _ (.info si) => some si.siSigno
  | _ => none

def Event.changesMask : Event → Bool
  | .sigmask (.ok _) => true
  | _ => false

/-- The signal that has been cleared and is about to be returned. -/
def Frame.holds : Frame → Nat → Nat
  | .got _ i, j => if i = j then 1 else 0
  | _, _ => 0

/-- How many calls of a thread are about to return signal `j`. -/
def heldBy (stack : List Frame) (j : Nat) : Nat := (stack.map fun f => f.holds j).sum

namespace Ledger

variable (l : Ledger)

def start (s : Thread) : Ledger := ⟨s, fun _ => 0, fun _ => 0, 0⟩

/-- The account after a step to `s'` observed as `e`. -/
def note (s' : Thread) (e : Option Event) : Ledger where
  thread := s'
  cleared i := l.cleared i + (l.thread.sigpending.getLsbD i && !s'.sigpending.getLsbD i).toNat
  answered :=
    match e.bind Event.answer with
    | some n => update l.answered n (l.answered n + 1)
    | none => l.answered
  exposed := if e.any Event.changesMask then s'.sigpending &&& ~~~s'.sigmask else l.exposed

def step (a : Action) : Option (Ledger × Option Event) :=
  (l.thread.step a).map fun p => (l.note p.1 p.2, p.2)

/-- Every bit that was cleared has been returned by one call or is about to be, and the last mask change has left no
signal both pending and unblocked. -/
structure Conserved : Prop where
  cleared : ∀ i : Nat, l.cleared i = l.answered i + heldBy l.thread.stack i
  exposed : l.exposed = 0

end Ledger

/-- The call tells the signal that it has cleared. -/
def Thread.Tells (s : Thread) (w : Wait) (i : Nat) : Prop :=
  w.call = .sigwait ∨ s.siginfos.map (fun infos => (infos i).siSigno) = some (i : Int)

/-- The steps that keep the account: a mask change unblocks nothing that is pending, `sigpending` holds nothing new when
it is written and still holds the signal that is cleared, and a call tells the signal it has taken. -/
def Thread.Keeps (s : Thread) : Action → Prop
  | .exec =>
    match s.stack with
    | .setMask mask :: _ => s.sigpending &&& ~~~mask = 0
    | .store _ i loaded :: _ => s.sigpending.getLsbD i ∧ s.sigpending &&& ~~~(loaded ||| sigbit i) = 0
    | .setPending i loaded :: _ => s.sigpending &&& ~~~(loaded ||| sigbit i) = 0
    | .got w i :: _ => s.Tells w i
    | _ => True
  | _ => True

instance (s : Thread) (w : Wait) (i : Nat) : Decidable (s.Tells w i) := inferInstanceAs (Decidable (_ ∨ _))

instance (s : Thread) : (a : Action) → Decidable (s.Keeps a)
  | .exec => by
    unfold Thread.Keeps
    dsimp only
    split <;> infer_instance
  | .deliver _ | .pthreadSigmask .. | .wait _ | .resume .. | .ret | .env .. => .isTrue trivial

/-! ### Bits -/

theorem getLsbD_sigbit (i j : Nat) : (sigbit i).getLsbD j = (decide (i < 32) && decide (i = j)) :=
  BitVec.getLsbD_twoPow i j

/-- Clearing a bit leaves the others. -/
theorem getLsbD_and_not_sigbit (x : Sigset) (i j : Nat) :
    (x &&& ~~~sigbit i).getLsbD j = (x.getLsbD j && decide (i ≠ j)) := by
  by_cases hj : j < 32
  · rw [BitVec.getLsbD_and, BitVec.getLsbD_not, getLsbD_sigbit, decide_eq_true hj, Bool.true_and]
    by_cases hij : i = j
    · rw [hij, decide_eq_true hj, Bool.true_and, decide_not]
    · rw [decide_eq_false hij, Bool.and_false, decide_eq_true hij, Bool.not_false]
  · rw [BitVec.getLsbD_of_ge _ _ (Nat.le_of_not_lt hj), BitVec.getLsbD_of_ge _ _ (Nat.le_of_not_lt hj), Bool.false_and]

theorem getLsbD_or_sigbit (x : Sigset) {i j : Nat} (h : i ≠ j) :
    (x ||| sigbit i).getLsbD j = x.getLsbD j := by
  rw [BitVec.getLsbD_or, getLsbD_sigbit, decide_eq_false h, Bool.and_false, Bool.or_false]

/-- Nothing of `x` is outside `y`. -/
theorem and_not_eq_zero_iff {x y : Sigset} :
    x &&& ~~~y = 0 ↔ ∀ j, x.getLsbD j = true → y.getLsbD j = true := by
  constructor
  · intro h j hx
    have hj : j < 32 := BitVec.lt_of_getLsbD hx
    have hbit := congrArg (fun z : Sigset => z.getLsbD j) h
    simp only [BitVec.getLsbD_and, BitVec.getLsbD_not, hx, hj, decide_true, Bool.true_and, BitVec.ofNat_eq_ofNat,
      BitVec.getLsbD_zero] at hbit
    simpa using hbit
  · intro h
    refine BitVec.eq_of_getLsbD_eq fun j hj => ?_
    simp only [BitVec.getLsbD_and, BitVec.getLsbD_not, hj, decide_true, Bool.true_and, BitVec.ofNat_eq_ofNat,
      BitVec.getLsbD_zero]
    cases hx : x.getLsbD j with
    | false => rfl
    | true => rw [h j hx]; rfl

/-! ### Signal zero -/

/-- A frame is about a signal, and has not read signal `0` as pending. -/
def Frame.Ok : Frame → Prop
  | .clear _ i | .got _ i | .pend i => i ≠ 0
  | .store _ i loaded | .setPending i loaded => i ≠ 0 ∧ loaded.getLsbD 0 = false
  | .handler d | .test d | .act d => d.siSigno ≠ 0
  | _ => True

/-- Signal `0`, which `check_pending_set` uses to say that it has found nothing, is not pending. -/
structure Thread.Ok (s : Thread) : Prop where
  pending : s.sigpending.getLsbD 0 = false
  frames : ∀ f ∈ s.stack, f.Ok

theorem lowest_spec {mask : Sigset} {i : Nat} (h : Thread.lowest mask = some i) : mask.getLsbD i = true := by
  have hne := List.find?_some h
  by_contra hclear
  have hzero : mask &&& sigbit i = 0 := by
    refine BitVec.eq_of_getLsbD_eq fun j _ => ?_
    rw [BitVec.getLsbD_and, getLsbD_sigbit]
    by_cases hij : i = j
    · rw [← hij, Bool.eq_false_iff.mpr hclear, Bool.false_and]
      exact BitVec.getLsbD_zero.symm
    · rw [decide_eq_false hij, Bool.and_false, Bool.and_false]
      exact BitVec.getLsbD_zero.symm
  rw [hzero] at hne
  exact absurd hne (by decide)

namespace Thread

variable {s s' : Thread} {e : Option Event} {f : Frame} {rest stack : List Frame}

theorem Ok.enter (h : s.Ok) (hframes : ∀ f ∈ stack, f.Ok) : (s.enter stack).Ok := ⟨h.pending, hframes⟩

theorem ok_cons (hf : f.Ok) (hrest : ∀ f ∈ rest, f.Ok) : ∀ g ∈ f :: rest, g.Ok :=
  List.forall_mem_cons.mpr ⟨hf, hrest⟩

theorem Ok.defaultAction (h : s.Ok) (hrest : ∀ f ∈ rest, f.Ok) (signo : Nat) :
    (s.defaultAction signo rest).1.Ok := by
  unfold Thread.defaultAction
  dsimp only
  split
  · exact h.enter (ok_cons trivial hrest)
  · exact h.enter (ok_cons trivial hrest)
  all_goals exact h.enter hrest

theorem Ok.act (h : s.Ok) (hrest : ∀ f ∈ rest, f.Ok) (d : Delivery) : (s.act d rest).1.Ok := by
  unfold Thread.act
  split
  · exact h.defaultAction hrest d.siSigno
  · split
    · exact h.defaultAction hrest d.siSigno
    · exact h.enter hrest
    · exact h.enter (ok_cons trivial hrest)

theorem Ok.answer (h : s.Ok) (hrest : ∀ f ∈ rest, f.Ok) (w : Wait) (i : Nat) : (s.answer w i rest).1.Ok := by
  unfold Thread.answer
  split_ifs
  · exact h.enter (ok_cons trivial hrest)
  · cases w.call <;> cases s.siginfos
    all_goals first | exact h.enter hrest | exact h.enter (ok_cons trivial hrest)

theorem Ok.execFrame (h : s.Ok) (hf : f.Ok) (hrest : ∀ f ∈ rest, f.Ok)
    (hs : s.execFrame rest f = some (s', e)) : s'.Ok := by
  have hstore : ∀ (x : Sigset) (i : Nat), x.getLsbD 0 = false → (x &&& ~~~sigbit i).getLsbD 0 = false := by
    intro x i hx
    rw [getLsbD_and_not_sigbit, hx, Bool.false_and]
  cases f with
  | code => exact nomatch hs
  | asleep w => exact nomatch hs
  | exiting status => exact nomatch hs
  | setMask mask =>
    cases hs
    exact ⟨h.pending, hrest⟩
  | check w =>
    simp only [Thread.execFrame] at hs
    split at hs
    · next i hi =>
      cases hs
      refine h.enter (ok_cons ?_ hrest)
      -- signal zero is never pending, so the one that is found is another
      rintro rfl
      split_ifs at hi
      have hbit := lowest_spec hi
      rw [BitVec.getLsbD_and, h.pending, Bool.false_and] at hbit
      exact absurd hbit (by decide)
    · cases hs
      exact h.enter (ok_cons trivial hrest)
  | clear w i =>
    cases hs
    exact h.enter (ok_cons ⟨hf, h.pending⟩ hrest)
  | store w i loaded =>
    cases hs
    exact ⟨hstore loaded i hf.2, ok_cons (f := .got w i) hf.1 hrest⟩
  | got w i =>
    have hs' : (s.answer w i rest).1 = s' := congrArg Prod.fst (Option.some.inj hs)
    rw [← hs']
    exact h.answer hrest w i
  | block w =>
    cases hs
    exact h.enter (ok_cons trivial hrest)
  | handler d =>
    simp only [Thread.execFrame] at hs
    split_ifs at hs
    · cases hs
      exact ⟨h.pending, ok_cons (f := .test d) hf hrest⟩
    · cases hs
      exact h.enter hrest
  | test d =>
    simp only [Thread.execFrame] at hs
    split_ifs at hs
    · cases hs
      exact h.enter hrest
    · cases hs
      exact h.enter (ok_cons (f := .pend d.siSigno) hf hrest)
    · cases hs
      exact h.enter (ok_cons (f := .act d) hf hrest)
  | pend signo =>
    cases hs
    exact h.enter (ok_cons ⟨hf, h.pending⟩ hrest)
  | setPending signo loaded =>
    cases hs
    refine ⟨?_, hrest⟩
    exact (getLsbD_or_sigbit loaded hf.1).trans hf.2
  | act d =>
    have hs' : (s.act d rest).1 = s' := congrArg Prod.fst (Option.some.inj hs)
    rw [← hs']
    exact h.act hrest d

theorem Ok.step {a : Action} (h : s.Ok) (hs : s.step a = some (s', e)) : s'.Ok := by
  have hframes := h.frames
  cases a with
  | deliver d =>
    simp only [Thread.step] at hs
    split_ifs at hs with hd
    cases hs
    exact h.enter (ok_cons (f := .handler d) hd hframes)
  | pthreadSigmask how set =>
    simp only [Thread.step] at hs
    split at hs
    · split at hs
      · cases hs
        exact h.enter (ok_cons trivial hframes)
      · cases hs
        exact h
    · exact nomatch hs
  | wait w =>
    simp only [Thread.step] at hs
    split at hs
    · cases hs
      exact h.enter (ok_cons trivial hframes)
    · exact nomatch hs
  | exec =>
    simp only [Thread.step] at hs
    split at hs
    · next f rest hstack =>
      rw [hstack] at hframes
      obtain ⟨hf, hrest⟩ := List.forall_mem_cons.mp hframes
      exact h.execFrame hf hrest hs
    · exact nomatch hs
  | resume sigcaught unblockType =>
    simp only [Thread.step] at hs
    split at hs
    · next w rest hstack =>
      rw [hstack] at hframes
      obtain ⟨-, hrest⟩ := List.forall_mem_cons.mp hframes
      unfold Thread.wakeUp at hs
      split_ifs at hs
      · cases hs
        exact h.enter hrest
      · cases hs
        exact h.enter hrest
      · cases hs
        exact h.enter (ok_cons trivial hrest)
    · exact nomatch hs
  | ret =>
    simp only [Thread.step] at hs
    split at hs
    · next f rest hstack =>
      rw [hstack] at hframes
      cases hs
      exact h.enter (List.forall_mem_cons.mp hframes).2
    · exact nomatch hs
  | env siginfos sigactions =>
    cases hs
    exact ⟨h.pending, hframes⟩

end Thread

/-! ### Steps that the account does not see -/

theorem heldBy_cons (f : Frame) (rest : List Frame) (j : Nat) :
    heldBy (f :: rest) j = f.holds j + heldBy rest j := rfl

theorem heldBy_of_holds {f : Frame} (rest : List Frame) (h : f.holds = fun _ => 0) :
    heldBy (f :: rest) = heldBy rest := by
  funext j
  rw [heldBy_cons, h, Nat.zero_add]

/-- The frames whose next step the account sees. -/
def Frame.Loud : Frame → Prop
  | .setMask _ | .store .. | .got .. | .setPending .. => True
  | _ => False

structure Quiet (s s' : Thread) (e : Option Event) : Prop where
  pending : s'.sigpending = s.sigpending
  held : heldBy s'.stack = heldBy s.stack
  answer : e.bind Event.answer = none
  mask : e.any Event.changesMask = false

namespace Thread

variable {s s' : Thread} {e : Option Event} {f : Frame} {rest stack : List Frame}

theorem quiet_enter (hheld : heldBy stack = heldBy s.stack) : Quiet s (s.enter stack) none := ⟨rfl, hheld, rfl, rfl⟩

theorem quiet_defaultAction (hheld : heldBy rest = heldBy s.stack) (signo : Nat) :
    Quiet s (s.defaultAction signo rest).1 (s.defaultAction signo rest).2 := by
  unfold Thread.defaultAction
  dsimp only
  split
  · exact ⟨rfl, (heldBy_of_holds rest rfl).trans hheld, rfl, rfl⟩
  · exact ⟨rfl, (heldBy_of_holds rest rfl).trans hheld, rfl, rfl⟩
  all_goals exact ⟨rfl, hheld, rfl, rfl⟩

theorem quiet_act (hheld : heldBy rest = heldBy s.stack) (d : Delivery) :
    Quiet s (s.act d rest).1 (s.act d rest).2 := by
  unfold Thread.act
  split
  · exact quiet_defaultAction hheld d.siSigno
  · split
    · exact quiet_defaultAction hheld d.siSigno
    · exact quiet_enter hheld
    · exact ⟨rfl, (heldBy_of_holds rest rfl).trans hheld, rfl, rfl⟩

theorem quiet_execFrame (hstack : s.stack = f :: rest) (hf : ¬ f.Loud) (hs : s.execFrame rest f = some (s', e)) :
    Quiet s s' e := by
  have hrest : f.holds = (fun _ => 0) → heldBy rest = heldBy s.stack := by
    -- a frame that holds no signal may come and go
    intro h
    rw [hstack, heldBy_of_holds rest h]
  have hcons : ∀ g : Frame, f.holds = (fun _ => 0) → g.holds = (fun _ => 0) →
      heldBy (g :: rest) = heldBy s.stack := fun g h hg => (heldBy_of_holds rest hg).trans (hrest h)
  cases f with
  | code => exact nomatch hs
  | asleep w => exact nomatch hs
  | exiting status => exact nomatch hs
  -- these four are the loud ones
  | setMask mask => exact absurd trivial hf
  | store w i loaded => exact absurd trivial hf
  | got w i => exact absurd trivial hf
  | setPending signo loaded => exact absurd trivial hf
  | check w =>
    simp only [Thread.execFrame] at hs
    split at hs
    · cases hs
      exact quiet_enter (hcons _ rfl rfl)
    · cases hs
      exact quiet_enter (hcons _ rfl rfl)
  | clear w i =>
    cases hs
    exact quiet_enter (hcons _ rfl rfl)
  | block w =>
    cases hs
    exact quiet_enter (hcons _ rfl rfl)
  | handler d =>
    simp only [Thread.execFrame] at hs
    split_ifs at hs
    · cases hs
      exact ⟨rfl, hcons (.test d) rfl rfl, rfl, rfl⟩
    · cases hs
      exact quiet_enter (hrest rfl)
  | test d =>
    simp only [Thread.execFrame] at hs
    split_ifs at hs
    · cases hs
      exact quiet_enter (hrest rfl)
    · cases hs
      exact quiet_enter (hcons _ rfl rfl)
    · cases hs
      exact quiet_enter (hcons _ rfl rfl)
  | pend signo =>
    cases hs
    exact quiet_enter (hcons _ rfl rfl)
  | act d =>
    have hquiet := quiet_act (hrest rfl) d
    simp only [Thread.execFrame, Option.some.injEq] at hs
    rwa [hs] at hquiet

/-- Only the frame that executes is seen. -/
theorem quiet_step {a : Action} (hexec : a = .exec → ∀ f rest, s.stack = f :: rest → ¬ f.Loud)
    (hs : s.step a = some (s', e)) : Quiet s s' e := by
  cases a with
  | deliver d =>
    simp only [Thread.step] at hs
    split_ifs at hs
    cases hs
    exact quiet_enter (heldBy_of_holds s.stack rfl)
  | pthreadSigmask how set =>
    simp only [Thread.step] at hs
    split at hs
    · split at hs
      · cases hs
        exact quiet_enter (heldBy_of_holds s.stack rfl)
      · cases hs
        exact ⟨rfl, rfl, rfl, rfl⟩
    · exact nomatch hs
  | wait w =>
    simp only [Thread.step] at hs
    split at hs
    · cases hs
      exact quiet_enter (heldBy_of_holds s.stack rfl)
    · exact nomatch hs
  | exec =>
    simp only [Thread.step] at hs
    split at hs
    · next f rest hstack => exact quiet_execFrame hstack (hexec rfl f rest hstack) hs
    · exact nomatch hs
  | resume sigcaught unblockType =>
    simp only [Thread.step] at hs
    split at hs
    · next w rest hstack =>
      have hheld : heldBy rest = heldBy s.stack := by rw [hstack, heldBy_of_holds rest rfl]
      unfold Thread.wakeUp at hs
      split_ifs at hs
      · cases hs
        exact ⟨rfl, hheld, rfl, rfl⟩
      · cases hs
        exact ⟨rfl, hheld, rfl, rfl⟩
      · cases hs
        exact quiet_enter ((heldBy_of_holds rest rfl).trans hheld)
    · exact nomatch hs
  | ret =>
    simp only [Thread.step] at hs
    split at hs
    · next f rest hstack =>
      cases hs
      refine quiet_enter ?_
      rw [hstack]
      exact (heldBy_of_holds (f :: rest) rfl).symm
    · exact nomatch hs
  | env siginfos sigactions =>
    cases hs
    exact ⟨rfl, rfl, rfl, rfl⟩

end Thread

/-! ### The account -/

namespace Ledger

variable {l : Ledger} {s' : Thread} {e : Option Event} {rest : List Frame}

/-- A bit is not cleared by a step that leaves `sigpending` as it is. -/
theorem cleared_note_of_eq (h : s'.sigpending = l.thread.sigpending) (i : Nat) :
    (l.note s' e).cleared i = l.cleared i := by
  have hnone : (l.thread.sigpending.getLsbD i && !s'.sigpending.getLsbD i) = false := by rw [h, Bool.and_not_self]
  change l.cleared i + (l.thread.sigpending.getLsbD i && !s'.sigpending.getLsbD i).toNat = _
  rw [hnone]
  rfl

theorem answered_note (h : e.bind Event.answer = none) : (l.note s' e).answered = l.answered := by
  unfold note
  rw [h]

theorem exposed_note (h : e.any Event.changesMask = false) : (l.note s' e).exposed = l.exposed := by
  unfold note
  rw [h]
  rfl

theorem conserved_of_quiet (h : l.Conserved) (hq : Quiet l.thread s' e) : (l.note s' e).Conserved := by
  refine ⟨fun i => ?_, (exposed_note hq.mask).trans h.exposed⟩
  rw [cleared_note_of_eq hq.pending, answered_note hq.answer, h.cleared i, ← hq.held]
  rfl

theorem conserved_setMask_iff {mask : Sigset} (h : l.Conserved) (hstack : l.thread.stack = .setMask mask :: rest)
    (hs : l.thread.execFrame rest (.setMask mask) = some (s', e)) :
    (l.note s' e).Conserved ↔ l.thread.sigpending &&& ~~~mask = 0 := by
  have hpending : s'.sigpending = l.thread.sigpending := by
    cases hs
    rfl
  have hcleared := cleared_note_of_eq (e := e) hpending
  cases hs
  refine ⟨fun hc => hc.exposed, fun hkeeps => ⟨fun i => ?_, hkeeps⟩⟩
  rw [hcleared, h.cleared i, hstack, heldBy_of_holds rest rfl]
  rfl

theorem conserved_setPending_iff {signo : Nat} {loaded : Sigset} (h : l.Conserved)
    (hstack : l.thread.stack = .setPending signo loaded :: rest)
    (hs : l.thread.execFrame rest (.setPending signo loaded) = some (s', e)) :
    (l.note s' e).Conserved ↔ l.thread.sigpending &&& ~~~(loaded ||| sigbit signo) = 0 := by
  cases hs
  have hheld : heldBy rest = heldBy l.thread.stack := by rw [hstack, heldBy_of_holds rest rfl]
  rw [and_not_eq_zero_iff]
  constructor
  · intro hc i hi
    have hcleared := hc.cleared i
    change l.cleared i + (l.thread.sigpending.getLsbD i && !(loaded ||| sigbit signo).getLsbD i).toNat =
      l.answered i + heldBy rest i at hcleared
    rw [hheld, ← h.cleared i, hi, Bool.true_and] at hcleared
    have hzero := Nat.left_eq_add.mp hcleared.symm
    by_contra hlost
    rw [Bool.eq_false_iff.mpr hlost] at hzero
    exact absurd hzero (by decide)
  · intro hkeeps
    refine ⟨fun i => ?_, h.exposed⟩
    change l.cleared i + (l.thread.sigpending.getLsbD i && !(loaded ||| sigbit signo).getLsbD i).toNat =
      l.answered i + heldBy rest i
    rw [hheld, ← h.cleared i]
    cases hi : l.thread.sigpending.getLsbD i with
    | false => rfl
    | true =>
      rw [hkeeps i hi]
      rfl

/-- The store of `check_pending_set` clears the one signal that it then holds. -/
theorem conserved_store_iff {w : Wait} {n : Nat} {loaded : Sigset} (h : l.Conserved)
    (hstack : l.thread.stack = .store w n loaded :: rest)
    (hs : l.thread.execFrame rest (.store w n loaded) = some (s', e)) :
    (l.note s' e).Conserved ↔
      l.thread.sigpending.getLsbD n ∧ l.thread.sigpending &&& ~~~(loaded ||| sigbit n) = 0 := by
  cases hs
  have hheld : heldBy rest = heldBy l.thread.stack := by rw [hstack, heldBy_of_holds rest rfl]
  have hexact : (l.note { l.thread with sigpending := loaded &&& ~~~sigbit n, stack := .got w n :: rest } none).Conserved ↔
      ∀ i, (l.thread.sigpending.getLsbD i && !(loaded.getLsbD i && decide (n ≠ i))).toNat = if n = i then 1 else 0 := by
    have hcleared : ∀ i, (l.cleared i + (l.thread.sigpending.getLsbD i && !(loaded &&& ~~~sigbit n).getLsbD i).toNat =
        l.answered i + heldBy (.got w n :: rest) i) ↔
        (l.thread.sigpending.getLsbD i && !(loaded.getLsbD i && decide (n ≠ i))).toNat = if n = i then 1 else 0 := by
      intro i
      rw [getLsbD_and_not_sigbit, heldBy_cons, hheld, Nat.add_left_comm, ← h.cleared i, Nat.add_comm (Frame.holds _ _),
        Nat.add_left_cancel_iff]
      rfl
    exact ⟨fun hc i => (hcleared i).mp (hc.cleared i), fun hall => ⟨fun i => (hcleared i).mpr (hall i), h.exposed⟩⟩
  rw [hexact, and_not_eq_zero_iff]
  constructor
  · intro hall
    refine ⟨?_, fun i hi => ?_⟩
    · have hn := hall n
      rw [if_pos rfl] at hn
      cases hbit : l.thread.sigpending.getLsbD n with
      | true => rfl
      | false =>
        rw [hbit, Bool.false_and] at hn
        exact absurd hn (by decide)
    · by_cases hni : n = i
      · rw [← hni] at hi ⊢
        rw [BitVec.getLsbD_or, getLsbD_sigbit, decide_eq_true (BitVec.lt_of_getLsbD hi), decide_eq_true rfl]
        exact Bool.or_true _
      · have hn := hall i
        rw [if_neg hni, hi, decide_eq_true hni] at hn
        rw [getLsbD_or_sigbit loaded hni]
        simpa using hn
  · rintro ⟨hpending, hrest⟩ i
    by_cases hni : n = i
    · rw [if_pos hni, ← hni, hpending, decide_eq_false (not_not_intro rfl), Bool.and_false]
      rfl
    · rw [if_neg hni, decide_eq_true hni, Bool.and_true]
      cases hi : l.thread.sigpending.getLsbD i with
      | false => rfl
      | true =>
        have hloaded := hrest i hi
        rw [getLsbD_or_sigbit loaded hni] at hloaded
        rw [hloaded]
        rfl

/-- A call that leaves with the signal it holds must leave with that signal. -/
theorem conserved_of_leave_iff {w : Wait} {n : Nat} (h : l.Conserved) (hstack : l.thread.stack = .got w n :: rest)
    (hpending : s'.sigpending = l.thread.sigpending) (hheld : heldBy s'.stack = heldBy rest)
    (hmask : e.any Event.changesMask = false) :
    (l.note s' e).Conserved ↔ e.bind Event.answer = some (n : Int) := by
  have hcleared : ∀ i, (l.note s' e).cleared i = l.answered i + ((if n = i then 1 else 0) + heldBy rest i) := by
    intro i
    rw [cleared_note_of_eq hpending, h.cleared i, hstack]
    rfl
  constructor
  · intro hc
    have hn := hc.cleared n
    rw [hcleared n, if_pos rfl] at hn
    change _ = (l.note s' e).answered n + heldBy s'.stack n at hn
    rw [hheld, ← Nat.add_assoc, Nat.add_right_cancel_iff] at hn
    cases hm : e.bind Event.answer with
    | none =>
      rw [answered_note hm] at hn
      exact absurd hn (Nat.succ_ne_self _)
    | some m =>
      by_contra hne
      have hother : (l.note s' e).answered n = l.answered n := by
        unfold note
        rw [hm]
        exact update_of_ne (fun heq => hne (congrArg some heq.symm)) _ _
      rw [hother] at hn
      exact absurd hn (Nat.succ_ne_self _)
  · intro hm
    refine ⟨fun i => ?_, (exposed_note hmask).trans h.exposed⟩
    have hanswered : (l.note s' e).answered = update l.answered n (l.answered n + 1) := by
      unfold note
      rw [hm]
    rw [hcleared i, hanswered]
    change _ = _ + heldBy s'.stack i
    rw [hheld, ← Nat.add_assoc]
    by_cases hni : n = i
    · rw [if_pos hni, ← hni, update_self]
    · rw [if_neg hni, update_of_ne (fun heq => hni (Int.ofNat_inj.mp heq).symm), Nat.add_zero]

theorem conserved_got_iff {w : Wait} {n : Nat} (h : l.Conserved) (hn : n ≠ 0)
    (hstack : l.thread.stack = .got w n :: rest) (hs : l.thread.execFrame rest (.got w n) = some (s', e)) :
    (l.note s' e).Conserved ↔ l.thread.Tells w n := by
  simp only [Thread.execFrame, Thread.answer, if_neg hn, Option.some.injEq] at hs
  unfold Thread.Tells
  have hleave : ∀ stack ev, (l.thread.enter stack, ev) = (s', e) → heldBy stack = heldBy rest →
      ev.any Event.changesMask = false → ((l.note s' e).Conserved ↔ ev.bind Event.answer = some (n : Int)) := by
    intro stack ev heq hheld hmask
    obtain ⟨rfl, rfl⟩ := Prod.mk.inj heq
    exact conserved_of_leave_iff h hstack rfl hheld hmask
  cases hcall : w.call with
  | sigwait =>
    rw [hcall] at hs
    rw [hleave rest _ hs rfl rfl]
    exact iff_of_true rfl (.inl rfl)
  | sigtimedwait | sigwaitinfo =>
    rw [hcall] at hs
    cases hinfos : l.thread.siginfos with
    | none =>
      simp only [hinfos] at hs
      rw [hleave _ _ hs (heldBy_of_holds rest rfl) rfl]
      exact iff_of_false (by exact nofun) (by rintro (h | h) <;> exact nomatch h)
    | some infos =>
      simp only [hinfos] at hs
      rw [hleave rest _ hs rfl rfl]
      exact ⟨.inr, fun ht => ht.resolve_left (by exact nofun)⟩

theorem conserved_step_iff {l' : Ledger} {a : Action} (hok : l.thread.Ok) (h : l.Conserved)
    (hs : l.step a = some (l', e)) : l'.Conserved ↔ l.thread.Keeps a := by
  simp only [step, Option.map_eq_some_iff] at hs
  obtain ⟨⟨s', e'⟩, hstep, hl⟩ := hs
  cases hl
  by_cases hquiet : a = .exec → ∀ f rest, l.thread.stack = f :: rest → ¬ f.Loud
  · refine iff_of_true (conserved_of_quiet h (Thread.quiet_step hquiet hstep)) ?_
    cases a with
    | exec =>
      simp only [Thread.Keeps]
      split
      all_goals first | trivial | next hstack => exact absurd trivial (hquiet rfl _ _ hstack)
    | deliver _ | pthreadSigmask _ _ | wait _ | resume _ _ | ret | env _ _ => trivial
  · push Not at hquiet
    obtain ⟨rfl, f, rest, hstack, hloud⟩ := hquiet
    have hf : f.Ok := hok.frames f (hstack ▸ List.mem_cons_self)
    simp only [Thread.step, hstack] at hstep
    simp only [Thread.Keeps, hstack]
    cases f with
    | setMask mask => exact conserved_setMask_iff h hstack hstep
    | store w i loaded => exact conserved_store_iff h hstack hstep
    | setPending signo loaded => exact conserved_setPending_iff h hstack hstep
    | got w i => exact conserved_got_iff h hf hstack hstep
    | code | check _ | clear _ _ | block _ | asleep _ | handler _ | test _ | pend _ | act _ | exiting _ =>
      exact hloud.elim

/-! ### Whole runs -/

/-- After a run whose steps keep the account it is right, and it is so after one more step exactly if that step keeps
it. -/
theorem pending_conserved_iff (s₀ : Thread) (l : Ledger) (es : List Event) (h₀ : s₀.sigpending.getLsbD 0 = false)
    (hcode : s₀.stack = [.code]) (hrun : Run step (fun l a => l.thread.Keeps a) (start s₀) es l) :
    l.Conserved ∧ ∀ a l' e, l.step a = some (l', e) → (l'.Conserved ↔ l.thread.Keeps a) := by
  have hinv : l.thread.Ok ∧ l.Conserved := by
    apply Run.invariant (fun _ l => l.thread.Ok ∧ l.Conserved) _ _ hrun
    · refine ⟨⟨h₀, fun f hf => ?_⟩, fun i => ?_, rfl⟩
      · change f ∈ s₀.stack at hf
        rw [hcode, List.mem_singleton] at hf
        rw [hf]
        trivial
      · change 0 = 0 + heldBy s₀.stack i
        rw [hcode]
        rfl
    · intro es l a l' e h hkeeps hs
      refine ⟨?_, (conserved_step_iff h.1 h.2 hs).mpr hkeeps⟩
      simp only [step, Option.map_eq_some_iff] at hs
      obtain ⟨⟨s', e'⟩, hstep, hl⟩ := hs
      cases hl
      exact h.1.step hstep
  exact ⟨hinv.2, fun a l' e hs => conserved_step_iff hinv.1 hinv.2 hs⟩

/-- A thread that executes the program, with signal `19` blocked. -/
def blocking (siginfos : Option (Nat → Siginfo)) : Thread := ⟨sigbit 19, 0, siginfos, none, [.code]⟩

/-- Signal `19` is delivered while it is blocked, and a call of `sigwait` takes it. -/
def deliverThenWait : List Action :=
  .deliver ⟨0, 19, 1, 0⟩ :: List.replicate 4 .exec ++ .wait ⟨.sigwait, sigbit 19⟩ :: List.replicate 4 .exec

theorem pending_conserved_iff_deliverThenWait : ∃ l es,
    Run step (fun l a => l.thread.Keeps a) (start (blocking none)) es l ∧ l.Conserved ∧ l.answered 19 = 1 := by
  obtain ⟨l, es, hreplay, hanswered⟩ : ∃ l es,
      Run.replay step (start (blocking none)) deliverThenWait = some (l, es) ∧ l.answered 19 = 1 := ⟨_, _, rfl, rfl⟩
  have hkeeps : Run.AllOk step (fun l a => l.thread.Keeps a) (start (blocking none)) deliverThenWait := by decide
  have hrun := Run.of_replay hreplay hkeeps
  exact ⟨l, es, hrun, (pending_conserved_iff (blocking none) l es rfl rfl hrun).1, hanswered⟩

/-- A pending signal is unblocked, and stays pending. -/
theorem not_pending_conserved : ¬ ∀ (s₀ : Thread) (l : Ledger) (es : List Event), s₀.sigpending = 0 → s₀.stack = [.code] →
    Run step (fun _ _ => True) (start s₀) es l → l.Conserved := by
  intro h
  obtain ⟨l, es, hreplay, hexposed⟩ : ∃ l es,
      Run.replay step (start (blocking none))
        (.deliver ⟨0, 19, 1, 0⟩ :: List.replicate 4 .exec ++ [.pthreadSigmask .sigUnblock (sigbit 19), .exec]) =
          some (l, es) ∧ l.exposed ≠ 0 := ⟨_, _, rfl, by decide⟩
  exact hexposed (h _ l es rfl rfl (Run.of_replay hreplay (Run.allOk_true _ _))).exposed

end Ledger

end Signal

end CoActionOS
