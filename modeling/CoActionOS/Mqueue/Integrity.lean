import CoActionOS.Mqueue.Order
import CoActionOS.Mqueue.Threads
import CoActionOS.Sched.Rows
import Mathlib.Data.List.Nodup

/-!
# Messages between threads

An entry is claimed and released inside the privileged calls, but its bytes and its priority are written after
the claim and read after the release.  Messages arrive whole in every run in which no receive is given an entry
whose sender is still writing and no send is given one from which a receive is still reading.

The invariant says for every message where it is: in an entry, with a thread that is receiving it, or returned.
-/

namespace CoActionOS

namespace Mqueue

open Function

/-! ### The statement -/

/-- The thread has yet to write bytes or the priority of the message in entry `i`. -/
def Pc.fills (i : Nat) : Pc → Prop
  | .copyIn _ j _ _ | .setPrio _ j _ => j = i
  | _ => False

/-- The thread has yet to read the priority or bytes of entry `i`. -/
def Pc.drains (i : Nat) : Pc → Prop
  | .getPrio j _ _ | .copyOut j _ _ _ _ => j = i
  | _ => False

instance (i : Nat) (pc : Pc) : Decidable (pc.fills i) := by
  cases pc <;> unfold Pc.fills <;> infer_instance

instance (i : Nat) (pc : Pc) : Decidable (pc.drains i) := by
  cases pc <;> unfold Pc.drains <;> infer_instance

/-- A receive is not given an entry that is being filled, a send not one that is being read. -/
def System.Undisturbed (s : System) : Action → Prop
  | .exec t _ =>
    match s.pc t with
    | .test (.receive c) _ =>
      s.mq.curMsgs ≠ 0 → ∀ i ∈ s.mq.best.current, (s.mq.msgTable i).size ≤ c.msgLen →
        ∀ t' ∈ s.sched.ids, ¬ (s.pc t').fills i
    | .test (.send c) _ =>
      s.mq.curMsgs < s.mq.maxMsgs → c.msg ≠ [] → ∀ i ∈ s.mq.firstFree,
        ∀ t' ∈ s.sched.ids, ¬ (s.pc t').drains i
    | _ => True
  | _ => True

instance (s : System) : (a : Action) → Decidable (s.Undisturbed a)
  | .call _ _ => .isTrue trivial
  | .env _ => .isTrue trivial
  | .exec t _ => by
    dsimp only [System.Undisturbed]
    exact match s.pc t with
      | .test (.send _) _ => inferInstance
      | .test (.receive _) _ => inferInstance
      | .idle | .copyIn .. | .setPrio .. | .readAge .. | .incAge .. | .setAge .. | .getPrio .. | .copyOut .. |
        .block _ | .asleep _ | .scan .. | .wake .. | .done _ => .isTrue trivial

def Event.claimedId : Event → Option Nat
  | .claimed id _ _ _ => some id
  | .returned _ _ => none

def Event.receivedId : Event → Option Nat
  | .returned _ (.received id _ _) => some id
  | _ => none

/-- Where a message is. -/
inductive Stage
  | stored (i : Nat)
  | held (t : Nat)
  | returned
  deriving DecidableEq, Repr

/-- The message a receive has taken. -/
def Result.received? : Result → Option Nat
  | .received id _ _ => some id
  | _ => none

def Pc.holds : Pc → Option Nat
  | .getPrio _ id _ | .copyOut _ id _ _ _ => some id
  | .scan r _ _ _ | .wake r _ | .done r => r.received?
  | _ => none

/-- The entry holds the priority and the bytes of a message. -/
def Message.Carries (m : Message) (msg : List UInt8) (p : UInt32) : Prop :=
  m.prio = intOf p.toNat ∧ m.data.take msg.length = msg

def ResultSound (es : List Event) (t : Nat) : Result → Prop
  | .sent id size => ∃ msg p, .claimed id t msg p ∈ es ∧ size = msg.length
  | .received id msg q => ∃ t' p, .claimed id t' msg p ∈ es ∧ ∀ x, q = some x → x = p
  | .failed _ => True

/-- The part of a sender's state that all its writes share. -/
structure Filling (es : List Event) (s : System) (t : Nat) (c : SendCall) (i id : Nat) : Prop where
  claimed : .claimed id t c.msg c.msgPrio ∈ es
  owner : s.owner i = id
  size : (s.mq.msgTable i).size = c.msg.length
  nonempty : 0 < c.msg.length
  fits : c.msg.length ≤ s.mq.maxSize

/-- A receiver has taken message `id`, which is still in the entry. -/
structure Draining (es : List Event) (s : System) (i id size : Nat) (msg : List UInt8) (p : UInt32) : Prop where
  claimed : ∃ t', .claimed id t' msg p ∈ es
  free : (s.mq.msgTable i).size = 0
  size : size = msg.length
  carries : (s.mq.msgTable i).Carries msg p

def PcSound (es : List Event) (s : System) (t : Nat) : Pc → Prop
  | .idle => True
  | .test c _ | .block c | .asleep c => s.refusal c = none
  | .copyIn c i id k =>
    Filling es s t c i id ∧ k < c.msg.length ∧ (s.mq.msgTable i).data.take k = c.msg.take k
  | .setPrio c i id => Filling es s t c i id ∧ (s.mq.msgTable i).data.take c.msg.length = c.msg
  | .readAge c _ id | .incAge c _ id _ | .setAge c _ id _ => .claimed id t c.msg c.msgPrio ∈ es
  | .getPrio i id size => ∃ msg p, Draining es s i id size msg p ∧ 0 < size
  | .copyOut i id size q got =>
    ∃ msg p, Draining es s i id size msg p ∧ got.length < size ∧ got = msg.take got.length ∧
      ∀ x, q = some x → x = p
  | .scan r _ _ _ | .wake r _ | .done r => ResultSound es t r

structure Sound (stage : Nat → Stage) (es : List Event) (s : System) : Prop where
  serial : ∀ id t msg p, .claimed id t msg p ∈ es → id < s.serial
  claimedOnce : (es.filterMap Event.claimedId).Nodup
  bytes : ∀ i, (s.mq.msgTable i).data.length = s.mq.maxSize
  stored : ∀ i, (s.mq.msgTable i).size ≠ 0 → stage (s.owner i) = .stored i ∧
    ∃ t msg p, .claimed (s.owner i) t msg p ∈ es ∧ (s.mq.msgTable i).size = msg.length ∧
      ((∀ t', ¬ (s.pc t').fills i) → (s.mq.msgTable i).Carries msg p)
  idle : ∀ t, t ∉ s.sched.ids → s.pc t = .idle
  threads : ∀ t, PcSound es s t (s.pc t)
  alone : ∀ i t t', (s.pc t).fills i → (s.pc t').fills i → t = t'
  held : ∀ t id, (s.pc t).holds = some id → stage id = .held t
  returned : ∀ e ∈ es, ∀ id, e.receivedId = some id → stage id = .returned
  receivedOnce : (es.filterMap Event.receivedId).Nodup
  results : ∀ t r, .returned t r ∈ es → ResultSound es t r

section

variable {stage : Nat → Stage} {es : List Event} {s : System}

theorem ResultSound.mono {es es' : List Event} (hes : ∀ e ∈ es, e ∈ es') {t : Nat} {r : Result}
    (h : ResultSound es t r) : ResultSound es' t r := by
  cases r with
  | sent id size =>
    obtain ⟨msg, p, he, hsize⟩ := h
    exact ⟨msg, p, hes _ he, hsize⟩
  | received id msg q =>
    obtain ⟨t', p, he, hq⟩ := h
    exact ⟨t', p, hes _ he, hq⟩
  | failed errno => trivial

/-- A task that is none is idle, whichever thread takes a step. -/
theorem Sound.idle_of_other (h : Sound stage es s) {s' : System} {t : Nat} (ht : t ∈ s.sched.ids)
    (hids : s'.sched.ids = s.sched.ids) (hother : ∀ t', t' ≠ t → s'.pc t' = s.pc t') {t' : Nat}
    (ht' : t' ∉ s'.sched.ids) : s'.pc t' = .idle := by
  rw [hids] at ht'
  rw [hother t' fun heq => ht' (heq ▸ ht)]
  exact h.idle t' ht'

/-- An entry that nobody fills was filled by nobody before the step, if not by the thread that takes it. -/
theorem not_fills_of_other {s s' : System} {t i : Nat} (hother : ∀ t', t' ≠ t → s'.pc t' = s.pc t')
    (hself : ¬ (s.pc t).fills i) (hnone : ∀ t', ¬ (s'.pc t').fills i) (t' : Nat) : ¬ (s.pc t').fills i := by
  intro hf
  by_cases htt : t' = t
  · exact hself (htt ▸ hf)
  · exact hnone t' (by rw [hother t' htt]; exact hf)

/-- A thread that fills or reads no entry that changes stays sound. -/
theorem PcSound.mono {es es' : List Event} {s s' : System} (hes : ∀ e ∈ es, e ∈ es')
    (hmax : s'.mq.maxSize = s.mq.maxSize) {t : Nat} {pc : Pc}
    (hentry : ∀ i, pc.fills i ∨ pc.drains i → s'.owner i = s.owner i ∧
      (s'.mq.msgTable i).size = (s.mq.msgTable i).size ∧ (s'.mq.msgTable i).prio = (s.mq.msgTable i).prio ∧
      (s'.mq.msgTable i).data = (s.mq.msgTable i).data)
    (h : PcSound es s t pc) : PcSound es' s' t pc := by
  have hrefusal : ∀ c, s'.refusal c = s.refusal c := by
    intro c
    cases c with
    | send c => simp only [System.refusal, hmax]
    | receive c => rfl
  have hfill : ∀ c i id, s'.owner i = s.owner i → (s'.mq.msgTable i).size = (s.mq.msgTable i).size →
      Filling es s t c i id → Filling es' s' t c i id := by
    intro c i id howner hsize hf
    exact ⟨hes _ hf.claimed, howner.trans hf.owner, hsize.trans hf.size, hf.nonempty, hmax.symm ▸ hf.fits⟩
  have hdrain : ∀ i id size msg p, (s'.mq.msgTable i).size = (s.mq.msgTable i).size →
      (s'.mq.msgTable i).prio = (s.mq.msgTable i).prio → (s'.mq.msgTable i).data = (s.mq.msgTable i).data →
      Draining es s i id size msg p → Draining es' s' i id size msg p := by
    intro i id size msg p hsize hprio hdata hd
    obtain ⟨t', hclaimed⟩ := hd.claimed
    refine ⟨⟨t', hes _ hclaimed⟩, hsize.trans hd.free, hd.size, hprio.trans hd.carries.1, ?_⟩
    rw [hdata]
    exact hd.carries.2
  cases pc with
  | idle => trivial
  | test c again => exact (hrefusal c).trans h
  | block c => exact (hrefusal c).trans h
  | asleep c => exact (hrefusal c).trans h
  | copyIn c i id k =>
    obtain ⟨howner, hsize, _, hdata⟩ := hentry i (.inl rfl)
    exact ⟨hfill c i id howner hsize h.1, h.2.1, hdata.symm ▸ h.2.2⟩
  | setPrio c i id =>
    obtain ⟨howner, hsize, _, hdata⟩ := hentry i (.inl rfl)
    exact ⟨hfill c i id howner hsize h.1, hdata.symm ▸ h.2⟩
  | readAge c i id => exact hes _ h
  | incAge c i id age => exact hes _ h
  | setAge c i id age => exact hes _ h
  | getPrio i id size =>
    obtain ⟨_, hsize, hprio, hdata⟩ := hentry i (.inr rfl)
    obtain ⟨msg, p, hd, hpos⟩ := h
    exact ⟨msg, p, hdrain i id size msg p hsize hprio hdata hd, hpos⟩
  | copyOut i id size q got =>
    obtain ⟨_, hsize, hprio, hdata⟩ := hentry i (.inr rfl)
    obtain ⟨msg, p, hd, hrest⟩ := h
    exact ⟨msg, p, hdrain i id size msg p hsize hprio hdata hd, hrest⟩
  | scan r n priority newThread => exact ResultSound.mono hes h
  | wake r m => exact ResultSound.mono hes h
  | done r => exact ResultSound.mono hes h

/-- A thread that fills an entry has its message there; one that reads an entry has released it. -/
theorem Sound.size_of_fills (h : Sound stage es s) {t i : Nat} (hf : (s.pc t).fills i) :
    (s.mq.msgTable i).size ≠ 0 := by
  have ht := h.threads t
  cases hpc : s.pc t <;> rw [hpc] at hf ht <;> try exact absurd hf id
  case copyIn c j id k =>
    obtain rfl : j = i := hf
    rw [ht.1.size]
    exact Nat.ne_of_gt ht.1.nonempty
  case setPrio c j id =>
    obtain rfl : j = i := hf
    rw [ht.1.size]
    exact Nat.ne_of_gt ht.1.nonempty

theorem Sound.size_of_drains (h : Sound stage es s) {t i : Nat} (hd : (s.pc t).drains i) :
    (s.mq.msgTable i).size = 0 := by
  have ht := h.threads t
  cases hpc : s.pc t <;> rw [hpc] at hd ht <;> try exact absurd hd id
  case getPrio j id size =>
    obtain rfl : j = i := hd
    obtain ⟨_, _, hdrain, _⟩ := ht
    exact hdrain.free
  case copyOut j id size q got =>
    obtain rfl : j = i := hd
    obtain ⟨_, _, hdrain, _⟩ := ht
    exact hdrain.free

/-- The message a thread holds was claimed. -/
theorem Sound.claimed_of_holds (h : Sound stage es s) {t id : Nat} (hh : (s.pc t).holds = some id) :
    ∃ t' msg p, .claimed id t' msg p ∈ es := by
  have ht := h.threads t
  have hresult : ∀ r : Result, r.received? = some id → ResultSound es t r →
      ∃ t' msg p, .claimed id t' msg p ∈ es := by
    intro r hr hs
    cases r with
    | sent _ _ => cases hr
    | failed _ => cases hr
    | received id' msg q =>
      obtain rfl := Option.some.inj hr
      obtain ⟨t', p, he, _⟩ := hs
      exact ⟨t', msg, p, he⟩
  cases hpc : s.pc t <;> rw [hpc] at hh ht <;> try (cases hh; done)
  case getPrio j id' size =>
    obtain rfl := Option.some.inj hh
    obtain ⟨msg, p, hd, _⟩ := ht
    obtain ⟨t', he⟩ := hd.claimed
    exact ⟨t', msg, p, he⟩
  case copyOut j id' size q got =>
    obtain rfl := Option.some.inj hh
    obtain ⟨msg, p, hd, _⟩ := ht
    obtain ⟨t', he⟩ := hd.claimed
    exact ⟨t', msg, p, he⟩
  case scan r n priority newThread => exact hresult r hh ht
  case wake r m => exact hresult r hh ht
  case done r => exact hresult r hh ht

/-- A thread goes on: it may write only to the entry it fills, and leaves it only with the message complete. -/
theorem Sound.advance (h : Sound stage es s) {s' : System} {t : Nat} {pc' : Pc} (ht : t ∈ s.sched.ids)
    (hids : s'.sched.ids = s.sched.ids) (hserial : s'.serial = s.serial) (howner : s'.owner = s.owner)
    (hpc : s'.pc = update s.pc t pc') (hmax : s'.mq.maxSize = s.mq.maxSize)
    (hsize : ∀ i, (s'.mq.msgTable i).size = (s.mq.msgTable i).size)
    (hbytes : ∀ i, (s'.mq.msgTable i).data.length = (s.mq.msgTable i).data.length)
    (hsame : ∀ i, ¬ (s.pc t).fills i → (s'.mq.msgTable i).prio = (s.mq.msgTable i).prio ∧
      (s'.mq.msgTable i).data = (s.mq.msgTable i).data)
    (hfills : ∀ i, pc'.fills i → (s.pc t).fills i)
    (hleft : ∀ i, (s.pc t).fills i → ¬ pc'.fills i → ∃ t' msg p, .claimed (s.owner i) t' msg p ∈ es ∧
      (s.mq.msgTable i).size = msg.length ∧ (s'.mq.msgTable i).Carries msg p)
    (hholds : pc'.holds = (s.pc t).holds) (hsound : PcSound es s' t pc') : Sound stage es s' := by
  have hself : s'.pc t = pc' := by rw [hpc, update_self]
  have hother : ∀ t', t' ≠ t → s'.pc t' = s.pc t' := fun t' hne => by rw [hpc, update_of_ne hne]
  have hback : ∀ i t', (s'.pc t').fills i → (s.pc t').fills i := by
    intro i t' hf
    by_cases htt : t' = t
    · subst htt
      exact hfills i (hself ▸ hf)
    · exact hother t' htt ▸ hf
  refine
    { serial := hserial ▸ h.serial
      claimedOnce := h.claimedOnce
      bytes := fun i => (hbytes i).trans ((h.bytes i).trans hmax.symm)
      stored := ?_
      idle := ?_
      threads := ?_
      alone := fun i t₁ t₂ h₁ h₂ => h.alone i t₁ t₂ (hback i t₁ h₁) (hback i t₂ h₂)
      held := ?_
      returned := h.returned
      receivedOnce := h.receivedOnce
      results := h.results }
  · intro i hne
    rw [hsize] at hne ⊢
    rw [howner]
    obtain ⟨hstage, t', msg, p, hclaimed, hlen, hcarries⟩ := h.stored i hne
    refine ⟨hstage, ?_⟩
    by_cases hft : (s.pc t).fills i
    · by_cases hft' : pc'.fills i
      · exact ⟨t', msg, p, hclaimed, hlen, fun hnone => absurd (hself ▸ hft') (hnone t)⟩
      · obtain ⟨t', msg, p, hclaimed, hlen, hcarries⟩ := hleft i hft hft'
        exact ⟨t', msg, p, hclaimed, hlen, fun _ => hcarries⟩
    · refine ⟨t', msg, p, hclaimed, hlen, fun hnone => ?_⟩
      obtain ⟨hprio, hdata⟩ := hsame i hft
      have hold : (s.mq.msgTable i).Carries msg p := hcarries (not_fills_of_other hother hft hnone)
      exact ⟨hprio.trans hold.1, by rw [hdata]; exact hold.2⟩
  · exact fun t' ht' => h.idle_of_other ht hids hother ht'
  · intro t'
    by_cases htt : t' = t
    · rw [htt, hself]
      exact hsound
    · rw [hother t' htt]
      apply PcSound.mono (fun e he => he) hmax _ (h.threads t')
      intro i htouch
      -- the entry the other thread is at is not the one this thread fills
      have hnot : ¬ (s.pc t).fills i := by
        intro hf
        rcases htouch with hf' | hd
        · exact htt (h.alone i t' t hf' hf)
        · exact h.size_of_fills hf (h.size_of_drains hd)
      exact ⟨by rw [howner], hsize i, hsame i hnot⟩
  · intro t' id hh
    by_cases htt : t' = t
    · subst htt
      rw [hself, hholds] at hh
      exact h.held t' id hh
    · rw [hother t' htt] at hh
      exact h.held t' id hh

/-- A step that changes no entry. -/
theorem Sound.advance_idle (h : Sound stage es s) {s' : System} {t : Nat} {pc' : Pc} (ht : t ∈ s.sched.ids)
    (hids : s'.sched.ids = s.sched.ids) (hserial : s'.serial = s.serial) (howner : s'.owner = s.owner)
    (hpc : s'.pc = update s.pc t pc') (hmax : s'.mq.maxSize = s.mq.maxSize)
    (htable : s'.mq.msgTable = s.mq.msgTable) (hidle : ∀ i, ¬ (s.pc t).fills i) (hfills : ∀ i, ¬ pc'.fills i)
    (hholds : pc'.holds = (s.pc t).holds) (hsound : PcSound es s' t pc') : Sound stage es s' :=
  h.advance ht hids hserial howner hpc hmax (fun i => by rw [htable]) (fun i => by rw [htable])
    (fun i _ => by rw [htable]; exact ⟨rfl, rfl⟩) (fun i hf => absurd hf (hfills i))
    (fun i hf => absurd hf (hidle i)) hholds hsound

/-- `id` is not the number of a message that was claimed. -/
theorem Sound.ne_serial (h : Sound stage es s) {id t : Nat} {msg : List UInt8} {p : UInt32}
    (he : .claimed id t msg p ∈ es) : id ≠ s.serial :=
  Nat.ne_of_lt (h.serial id t msg p he)

/-- An event that is not counted. -/
theorem filterMap_append_of_none {f : Event → Option Nat} {e : Event} (he : f e = none) :
    (es ++ [e]).filterMap f = es.filterMap f := by
  rw [List.filterMap_append, List.filterMap_cons_none he, List.filterMap_nil, List.append_nil]

theorem Sound.serial_notMem (h : Sound stage es s) : s.serial ∉ es.filterMap Event.claimedId := by
  intro hmem
  obtain ⟨e, he, hid⟩ := List.mem_filterMap.mp hmem
  cases e with
  | claimed id t msg p =>
    obtain rfl := Option.some.inj hid
    exact h.ne_serial he rfl
  | returned t r => cases hid

/-- The messages of the events that returned one were claimed. -/
theorem Sound.claimed_of_received (h : Sound stage es s) {e : Event} (he : e ∈ es) {id : Nat}
    (hid : e.receivedId = some id) : ∃ t msg p, .claimed id t msg p ∈ es := by
  cases e with
  | claimed _ _ _ _ => cases hid
  | returned t r =>
    cases r with
    | sent _ _ => cases hid
    | failed _ => cases hid
    | received id' msg q =>
      obtain rfl := Option.some.inj hid
      obtain ⟨t', p, hclaimed, _⟩ := h.results t _ he
      exact ⟨t', msg, p, hclaimed⟩

theorem Sound.mem_ids (h : Sound stage es s) {t : Nat} (hne : s.pc t ≠ .idle) : t ∈ s.sched.ids := by
  by_contra hnot
  exact hne (h.idle t hnot)

theorem Pc.ne_idle_of_fills {i : Nat} {pc : Pc} (hf : pc.fills i) : pc ≠ .idle := by
  rintro rfl
  exact hf

theorem Pc.ne_idle_of_drains {i : Nat} {pc : Pc} (hd : pc.drains i) : pc ≠ .idle := by
  rintro rfl
  exact hd

/-- A send is given an entry. -/
theorem Sound.claim (h : Sound stage es s) {s' : System} {t i : Nat} {c : SendCall} {again : Bool}
    (hpc : s.pc t = .test (.send c) again) (hfree : (s.mq.msgTable i).size = 0) (hpos : 0 < c.msg.length)
    (hdrains : ∀ t' ∈ s.sched.ids, ¬ (s.pc t').drains i) (hids : s'.sched.ids = s.sched.ids)
    (hmq : s'.mq = s.mq.claim i c.msg.length) (hserial : s'.serial = s.serial + 1)
    (howner : s'.owner = update s.owner i s.serial)
    (hpc' : s'.pc = update s.pc t (.copyIn c i s.serial 0)) :
    Sound (update stage s.serial (.stored i)) (es ++ [.claimed s.serial t c.msg c.msgPrio]) s' := by
  have ht : t ∈ s.sched.ids := h.mem_ids (by rw [hpc]; exact fun hc => by cases hc)
  have hmem : ∀ e ∈ es, e ∈ es ++ [.claimed s.serial t c.msg c.msgPrio] :=
    fun e he => List.mem_append_left _ he
  have hnew : .claimed s.serial t c.msg c.msgPrio ∈ es ++ [.claimed s.serial t c.msg c.msgPrio] :=
    List.mem_append_right _ List.mem_cons_self
  -- the message fits, since the call was not refused
  have hfits : c.msg.length ≤ s.mq.maxSize := by
    have hrefusal : s.refusal (.send c) = none := by
      have hsound := h.threads t
      rw [hpc] at hsound
      exact hsound
    unfold System.refusal at hrefusal
    dsimp only at hrefusal
    split_ifs at hrefusal with hrdwr hlen
    exact Nat.le_of_not_lt hlen
  have hmax : s'.mq.maxSize = s.mq.maxSize := by rw [hmq]; rfl
  have hentry : ∀ j, j ≠ i → s'.mq.msgTable j = s.mq.msgTable j := by
    intro j hj
    rw [hmq]
    exact update_of_ne hj _ _
  have hslot : s'.mq.msgTable i = { s.mq.msgTable i with size := c.msg.length } := by
    rw [hmq]
    exact update_self ..
  have howneri : s'.owner i = s.serial := by rw [howner, update_self]
  have hownerj : ∀ j, j ≠ i → s'.owner j = s.owner j := fun j hj => by rw [howner, update_of_ne hj]
  have hself : s'.pc t = .copyIn c i s.serial 0 := by rw [hpc', update_self]
  have hother : ∀ t', t' ≠ t → s'.pc t' = s.pc t' := fun t' hne => by rw [hpc', update_of_ne hne]
  refine
    { serial := ?_
      claimedOnce := ?_
      bytes := ?_
      stored := ?_
      idle := ?_
      threads := ?_
      alone := ?_
      held := ?_
      returned := ?_
      receivedOnce := ?_
      results := ?_ }
  · intro id t' msg p he
    rw [hserial]
    rcases List.mem_append.mp he with he | he
    · exact Nat.lt_succ_of_lt (h.serial id t' msg p he)
    · obtain ⟨rfl, -⟩ : id = s.serial ∧ _ := by simpa using he
      exact Nat.lt_succ_self _
  · rw [List.filterMap_append]
    exact List.nodup_append_comm.mp (List.nodup_cons.mpr ⟨h.serial_notMem, h.claimedOnce⟩)
  · intro j
    rw [hmax]
    by_cases hj : j = i
    · rw [hj, hslot]
      exact h.bytes i
    · rw [hentry j hj]
      exact h.bytes j
  · intro j hne
    by_cases hj : j = i
    -- the entry that is claimed, which is being filled
    · rw [hj, howneri, update_self]
      refine ⟨rfl, t, c.msg, c.msgPrio, hnew, by rw [hslot], fun hnone => ?_⟩
      exact absurd (by rw [hself]; exact rfl) (hnone t)
    -- an entry the call leaves as it was
    · rw [hentry j hj] at hne ⊢
      rw [hownerj j hj]
      obtain ⟨hstage, t', msg, p, hclaimed, hlen, hcarries⟩ := h.stored j hne
      refine ⟨by rw [update_of_ne (h.ne_serial hclaimed)]; exact hstage, t', msg, p, hmem _ hclaimed, hlen,
        fun hnone => hcarries (not_fills_of_other hother ?_ hnone)⟩
      rw [hpc]
      exact id
  · exact fun t' ht' => h.idle_of_other ht hids hother ht'
  · intro t'
    by_cases htt : t' = t
    · rw [htt, hself]
      exact ⟨⟨hnew, howneri, by rw [hslot], hpos, hmax ▸ hfits⟩, hpos, rfl⟩
    -- another thread has nothing to do with the entry that is claimed
    · rw [hother t' htt]
      apply PcSound.mono hmem hmax _ (h.threads t')
      intro j htouch
      have hj : j ≠ i := by
        rintro rfl
        rcases htouch with hf | hd
        · exact h.size_of_fills hf hfree
        · exact hdrains t' (h.mem_ids (Pc.ne_idle_of_drains hd)) hd
      rw [hentry j hj]
      exact ⟨hownerj j hj, rfl, rfl, rfl⟩
  · have hone : ∀ j t₁, (s'.pc t₁).fills j → t₁ = t ∧ j = i ∨ j ≠ i ∧ (s.pc t₁).fills j := by
      intro j t₁ hf
      by_cases htt : t₁ = t
      · rw [htt, hself] at hf
        exact .inl ⟨htt, hf.symm⟩
      · rw [hother t₁ htt] at hf
        exact .inr ⟨fun hji => h.size_of_fills (hji ▸ hf) hfree, hf⟩
    intro j t₁ t₂ h₁ h₂
    rcases hone j t₁ h₁ with ⟨e₁, hi₁⟩ | ⟨hi₁, hf₁⟩ <;> rcases hone j t₂ h₂ with ⟨e₂, hi₂⟩ | ⟨hi₂, hf₂⟩
    · exact e₁.trans e₂.symm
    · exact absurd hi₁ hi₂
    · exact absurd hi₂ hi₁
    · exact h.alone j t₁ t₂ hf₁ hf₂
  · intro t' id hh
    by_cases htt : t' = t
    · rw [htt, hself] at hh
      cases hh
    · rw [hother t' htt] at hh
      obtain ⟨t₁, msg, p, hclaimed⟩ := h.claimed_of_holds hh
      rw [update_of_ne (h.ne_serial hclaimed)]
      exact h.held t' id hh
  · intro e he id hid
    rcases List.mem_append.mp he with he | he
    · obtain ⟨t₁, msg, p, hclaimed⟩ := h.claimed_of_received he hid
      rw [update_of_ne (h.ne_serial hclaimed)]
      exact h.returned e he id hid
    · obtain rfl := List.mem_singleton.mp he
      cases hid
  · rw [filterMap_append_of_none rfl]
    exact h.receivedOnce
  · intro t' r he
    rcases List.mem_append.mp he with he | he
    · exact (h.results t' r he).mono hmem
    · cases List.mem_singleton.mp he

/-- A receive takes the message of an entry that is complete. -/
theorem Sound.take (h : Sound stage es s) {s' : System} {t i : Nat} {c : MqCall} {again : Bool} {pc' : Pc}
    (hpc : s.pc t = .test c again) (hsize : (s.mq.msgTable i).size ≠ 0)
    (hfills : ∀ t' ∈ s.sched.ids, ¬ (s.pc t').fills i) (hids : s'.sched.ids = s.sched.ids)
    (hmq : s'.mq = s.mq.release i) (hserial : s'.serial = s.serial) (howner : s'.owner = s.owner)
    (hpc' : s'.pc = update s.pc t pc')
    (hread : pc' = .getPrio i (s.owner i) (s.mq.msgTable i).size ∨
      pc' = .copyOut i (s.owner i) (s.mq.msgTable i).size none []) :
    Sound (update stage (s.owner i) (.held t)) es s' := by
  have ht : t ∈ s.sched.ids := h.mem_ids (by rw [hpc]; exact fun hc => by cases hc)
  have hmax : s'.mq.maxSize = s.mq.maxSize := by rw [hmq]; rfl
  have hentry : ∀ j, j ≠ i → s'.mq.msgTable j = s.mq.msgTable j := by
    intro j hj
    rw [hmq]
    exact update_of_ne hj _ _
  have hslot : s'.mq.msgTable i = { s.mq.msgTable i with size := 0 } := by
    rw [hmq]
    exact update_self ..
  have hself : s'.pc t = pc' := by rw [hpc', update_self]
  have hother : ∀ t', t' ≠ t → s'.pc t' = s.pc t' := fun t' hne => by rw [hpc', update_of_ne hne]
  have hnofill : ∀ j, ¬ pc'.fills j := by
    intro j hf
    rcases hread with rfl | rfl <;> exact hf
  have hholds : pc'.holds = some (s.owner i) := by
    rcases hread with rfl | rfl <;> rfl
  have hback : ∀ j t', (s'.pc t').fills j → t' ≠ t ∧ (s.pc t').fills j := by
    intro j t' hf
    by_cases htt : t' = t
    · rw [htt, hself] at hf
      exact absurd hf (hnofill j)
    · exact ⟨htt, hother t' htt ▸ hf⟩
  obtain ⟨hstage, t₀, msg, p, hclaimed, hlen, hcarries⟩ := h.stored i hsize
  -- nobody fills the entry, so that its message is complete
  have hcomplete : (s.mq.msgTable i).Carries msg p :=
    hcarries fun t' hf => hfills t' (h.mem_ids (Pc.ne_idle_of_fills hf)) hf
  have hdrain : Draining es s' i (s.owner i) (s.mq.msgTable i).size msg p := by
    refine ⟨⟨t₀, hclaimed⟩, by rw [hslot], hlen, ?_⟩
    rw [hslot]
    exact hcomplete
  refine
    { serial := hserial ▸ h.serial
      claimedOnce := h.claimedOnce
      bytes := ?_
      stored := ?_
      idle := ?_
      threads := ?_
      alone := fun j t₁ t₂ h₁ h₂ => h.alone j t₁ t₂ (hback j t₁ h₁).2 (hback j t₂ h₂).2
      held := ?_
      returned := ?_
      receivedOnce := h.receivedOnce
      results := h.results }
  · intro j
    rw [hmax]
    by_cases hj : j = i
    · rw [hj, hslot]
      exact h.bytes i
    · rw [hentry j hj]
      exact h.bytes j
  · intro j hne
    have hj : j ≠ i := by
      rintro rfl
      rw [hslot] at hne
      exact hne rfl
    rw [hentry j hj] at hne ⊢
    rw [howner]
    obtain ⟨hstagej, t', msg', p', hclaimed', hlen', hcarries'⟩ := h.stored j hne
    -- no other entry holds that message
    have hij : s.owner j ≠ s.owner i := by
      intro heq
      rw [heq, hstage] at hstagej
      exact hj (Stage.stored.inj hstagej).symm
    refine ⟨by rw [update_of_ne hij]; exact hstagej, t', msg', p', hclaimed', hlen',
      fun hnone => hcarries' (not_fills_of_other hother ?_ hnone)⟩
    rw [hpc]
    exact id
  · exact fun t' ht' => h.idle_of_other ht hids hother ht'
  · intro t'
    by_cases htt : t' = t
    · rw [htt, hself]
      have hpos : 0 < (s.mq.msgTable i).size := Nat.pos_of_ne_zero hsize
      rcases hread with rfl | rfl
      · exact ⟨msg, p, hdrain, hpos⟩
      · exact ⟨msg, p, hdrain, hpos, rfl, fun _ hx => by cases hx⟩
    · rw [hother t' htt]
      apply PcSound.mono (fun e he => he) hmax _ (h.threads t')
      intro j htouch
      have hj : j ≠ i := by
        rintro rfl
        rcases htouch with hf | hd
        · exact hfills t' (h.mem_ids (Pc.ne_idle_of_fills hf)) hf
        · exact hsize (h.size_of_drains hd)
      rw [hentry j hj]
      exact ⟨by rw [howner], rfl, rfl, rfl⟩
  · intro t' id hh
    by_cases htt : t' = t
    · rw [htt, hself, hholds] at hh
      obtain rfl := Option.some.inj hh
      rw [update_self, htt]
    · rw [hother t' htt] at hh
      have hheld := h.held t' id hh
      -- the message another thread has is not the one that leaves the queue
      have hne : id ≠ s.owner i := by
        rintro rfl
        rw [hstage] at hheld
        cases hheld
      rw [update_of_ne hne]
      exact hheld
  · intro e he id hid
    have hreturned := h.returned e he id hid
    have hne : id ≠ s.owner i := by
      rintro rfl
      rw [hstage] at hreturned
      cases hreturned
    rw [update_of_ne hne]
    exact hreturned

/-- A call returns. -/
theorem Sound.finish (h : Sound stage es s) {t : Nat} {r : Result} (hpc : s.pc t = .done r) :
    ∃ stage', Sound stage' (es ++ [.returned t r]) (s.setPc t .idle) := by
  have ht : t ∈ s.sched.ids := h.mem_ids (by rw [hpc]; exact fun hc => by cases hc)
  have hmem : ∀ e ∈ es, e ∈ es ++ [.returned t r] := fun e he => List.mem_append_left _ he
  have hr : ResultSound es t r := by
    have hsound := h.threads t
    rw [hpc] at hsound
    exact hsound
  have hself : (s.setPc t .idle).pc t = .idle := update_self ..
  have hother : ∀ t', t' ≠ t → (s.setPc t .idle).pc t' = s.pc t' := fun t' hne => update_of_ne hne _ _
  have hheld : ∀ id, r.received? = some id → stage id = .held t := by
    intro id hid
    apply h.held t id
    rw [hpc]
    exact hid
  have hnot : ∀ t' j, (s.setPc t .idle).pc t' |>.fills j → t' ≠ t ∧ (s.pc t').fills j := by
    intro t' j hf
    by_cases htt : t' = t
    · rw [htt, hself] at hf
      exact absurd hf id
    · exact ⟨htt, hother t' htt ▸ hf⟩
  -- the message of the call, if it has one, changes hands
  refine ⟨fun id => if r.received? = some id then .returned else stage id, ?_⟩
  refine
    { serial := ?_
      claimedOnce := ?_
      bytes := h.bytes
      stored := ?_
      idle := ?_
      threads := ?_
      alone := fun j t₁ t₂ h₁ h₂ => h.alone j t₁ t₂ (hnot t₁ j h₁).2 (hnot t₂ j h₂).2
      held := ?_
      returned := ?_
      receivedOnce := ?_
      results := ?_ }
  · intro id t' msg p he
    rcases List.mem_append.mp he with he | he
    · exact h.serial id t' msg p he
    · cases List.mem_singleton.mp he
  · rw [filterMap_append_of_none rfl]
    exact h.claimedOnce
  · intro j hne
    obtain ⟨hstage, t', msg, p, hclaimed, hlen, hcarries⟩ := h.stored j hne
    have hid : r.received? ≠ some (s.owner j) := by
      intro hid
      rw [hheld _ hid] at hstage
      cases hstage
    refine ⟨(if_neg hid).trans hstage, t', msg, p, hmem _ hclaimed, hlen,
      fun hnone => hcarries (not_fills_of_other hother ?_ hnone)⟩
    rw [hpc]
    exact id
  · have hids : (s.setPc t .idle).sched.ids = s.sched.ids := rfl
    exact fun t' ht' => h.idle_of_other ht hids hother ht'
  · intro t'
    by_cases htt : t' = t
    · rw [htt, hself]
      trivial
    · rw [hother t' htt]
      refine PcSound.mono hmem ?_ ?_ (h.threads t')
      · rfl
      · exact fun j _ => ⟨rfl, rfl, rfl, rfl⟩
  · intro t' id hh
    by_cases htt : t' = t
    · rw [htt, hself] at hh
      cases hh
    · rw [hother t' htt] at hh
      have hstage := h.held t' id hh
      rw [if_neg ?_]
      · exact hstage
      · intro hid
        rw [hheld id hid] at hstage
        exact htt (Stage.held.inj hstage).symm
  · intro e he id hid
    rcases List.mem_append.mp he with he | he
    · rw [h.returned e he id hid]
      exact ite_self _
    · obtain rfl := List.mem_singleton.mp he
      have hreceived : r.received? = some id := by
        cases r with
        | sent _ _ => cases hid
        | received _ _ _ => exact hid
        | failed _ => cases hid
      rw [if_pos hreceived]
  · cases r with
    | sent _ _ =>
      rw [filterMap_append_of_none rfl]
      exact h.receivedOnce
    | failed _ =>
      rw [filterMap_append_of_none rfl]
      exact h.receivedOnce
    | received id msg q =>
      rw [List.filterMap_append]
      have hnotin : id ∉ es.filterMap Event.receivedId := by
        intro hin
        obtain ⟨e, he, hid⟩ := List.mem_filterMap.mp hin
        have hreturned := h.returned e he id hid
        rw [hheld id rfl] at hreturned
        cases hreturned
      exact List.nodup_append_comm.mp (List.nodup_cons.mpr ⟨hnotin, h.receivedOnce⟩)
  · intro t' r' he
    rcases List.mem_append.mp he with he | he
    · exact (h.results t' r' he).mono hmem
    · cases List.mem_singleton.mp he
      exact hr.mono hmem

/-! ### The statements of a call -/

/-- The claim of an entry for no bytes leaves the table as it was. -/
theorem claim_zero {mq : Mq} {i : Nat} (hfree : (mq.msgTable i).size = 0) :
    (mq.claim i 0).msgTable = mq.msgTable := by
  have hsame : { mq.msgTable i with size := 0 } = mq.msgTable i := by rw [← hfree]
  show update mq.msgTable i { mq.msgTable i with size := 0 } = mq.msgTable
  rw [hsame, update_eq_self]

theorem Sound.test (h : Sound stage es s) {t : Nat} {c : MqCall} {again : Bool}
    (hpc : s.pc t = .test c again) (now : Nat) (hok : s.Undisturbed (.exec t now)) :
    ∃ stage', Sound stage' (es ++ (s.stepTest t c).2.toList) (s.stepTest t c).1 := by
  have ht : t ∈ s.sched.ids := h.mem_ids (by rw [hpc]; exact fun hc => by cases hc)
  have hrefusal : s.refusal c = none := by
    have hsound := h.threads t
    rw [hpc] at hsound
    exact hsound
  have hidle : ∀ i, ¬ (s.pc t).fills i := fun i hf => by rw [hpc] at hf; exact hf
  have hholds : (s.pc t).holds = none := by rw [hpc]; rfl
  -- the call fails or goes on to block
  have hgo : ∀ (s' : System) (pc' : Pc), s' = { s with mq := s'.mq }.setPc t pc' →
      s'.mq.maxSize = s.mq.maxSize → s'.mq.msgTable = s.mq.msgTable →
      (pc' = .block c ∨ ∃ e, pc' = .done (.failed e)) → Sound stage es s' := by
    intro s' pc' hs' hmax htable hcase
    have hsame : s'.refusal c = none := by
      rw [← hrefusal]
      cases c with
      | send c => simp only [System.refusal, hmax]
      | receive c => rfl
    have hids : s'.sched.ids = s.sched.ids := by rw [hs']; rfl
    have hserial : s'.serial = s.serial := by rw [hs']; rfl
    have howner : s'.owner = s.owner := by rw [hs']; rfl
    have hpc' : s'.pc = update s.pc t pc' := by rw [hs']; rfl
    rcases hcase with rfl | ⟨e, rfl⟩
    · refine h.advance_idle ht hids hserial howner hpc' hmax htable hidle ?_ ?_ hsame
      · exact fun i hf => hf
      · exact hholds.symm
    · refine h.advance_idle ht hids hserial howner hpc' hmax htable hidle ?_ ?_ trivial
      · exact fun i hf => hf
      · exact hholds.symm
  cases c with
  | send c =>
    rcases privSend_cases s.mq c.msg.length with ⟨i, hroom, hfirst, hcall⟩ | ⟨args, hsize, hcall⟩
    · obtain ⟨-, hfree⟩ := firstFree_spec hfirst
      by_cases hpos : 0 < c.msg.length
      · have hsent : (c.msg.length : Int) > 0 := by omega
        have hdrains : ∀ t' ∈ s.sched.ids, ¬ (s.pc t').drains i := by
          simp only [System.Undisturbed, hpc] at hok
          exact hok hroom (List.ne_nil_of_length_pos hpos) i hfirst
        simp only [System.stepTest, hcall, if_pos hsent]
        exact ⟨_, h.claim hpc hfree hpos hdrains rfl rfl rfl rfl rfl⟩
      · have hzero : c.msg.length = 0 := by omega
        have hsent : ¬ (c.msg.length : Int) > 0 := by omega
        have htable : (s.mq.claim i c.msg.length).msgTable = s.mq.msgTable := by
          rw [hzero]
          exact claim_zero hfree
        simp only [System.stepTest, hcall, if_neg hsent]
        refine ⟨stage, ?_⟩
        split_ifs
        · rw [Option.toList_none, List.append_nil]
          exact hgo _ _ rfl rfl htable (.inr ⟨_, rfl⟩)
        · rw [Option.toList_none, List.append_nil]
          exact hgo _ _ rfl rfl htable (.inl rfl)
    · have hsent : ¬ args.size > 0 := by omega
      simp only [System.stepTest, hcall, if_neg hsent]
      refine ⟨stage, ?_⟩
      split_ifs
      · rw [Option.toList_none, List.append_nil]
        exact hgo _ _ rfl rfl rfl (.inr ⟨_, rfl⟩)
      · rw [Option.toList_none, List.append_nil]
        exact hgo _ _ rfl rfl rfl (.inl rfl)
  | receive c =>
    rcases privReceive_cases s.mq c.msgLen with ⟨i, hcur, hbest, hlen, hcall⟩ | ⟨args, hsize, hcall⟩
    · obtain ⟨-, hsize⟩ := best_spec hbest
      have hgot : ((s.mq.msgTable i).size : Int) > 0 := by omega
      have hfills : ∀ t' ∈ s.sched.ids, ¬ (s.pc t').fills i := by
        simp only [System.Undisturbed, hpc] at hok
        exact hok hcur i hbest hlen
      simp only [System.stepTest, hcall, if_pos hgot, Int.toNat_natCast]
      split_ifs
      · rw [Option.toList_none, List.append_nil]
        exact ⟨_, h.take hpc hsize hfills rfl rfl rfl rfl rfl (.inl rfl)⟩
      · rw [Option.toList_none, List.append_nil]
        exact ⟨_, h.take hpc hsize hfills rfl rfl rfl rfl rfl (.inr rfl)⟩
    · have hgot : ¬ args.size > 0 := by omega
      simp only [System.stepTest, hcall, if_neg hgot]
      refine ⟨stage, ?_⟩
      split_ifs
      · rw [Option.toList_none, List.append_nil]
        exact hgo _ _ rfl rfl rfl (.inr ⟨_, rfl⟩)
      · rw [Option.toList_none, List.append_nil]
        exact hgo _ _ rfl rfl rfl (.inr ⟨_, rfl⟩)
      · rw [Option.toList_none, List.append_nil]
        exact hgo _ _ rfl rfl rfl (.inl rfl)

/-- One more byte of a copy. -/
theorem take_succ_set {l msg : List UInt8} {k : Nat} (hk : k < msg.length) (hl : k < l.length)
    (h : l.take k = msg.take k) : (l.set k (msg.getD k 0)).take (k + 1) = msg.take (k + 1) := by
  have hget : msg.getD k 0 = msg[k] := by
    rw [List.getD_eq_getElem?_getD, List.getElem?_eq_getElem hk, Option.getD_some]
  rw [List.take_add_one, List.take_add_one, List.take_set_of_le (Nat.le_refl k), h, List.getElem?_set_self hl,
    List.getElem?_eq_getElem hk, hget]

theorem Sound.copyIn (h : Sound stage es s) {t : Nat} {c : SendCall} {i id k : Nat}
    (hpc : s.pc t = .copyIn c i id k) : Sound stage es (s.stepCopyIn t c i id k) := by
  have ht : t ∈ s.sched.ids := h.mem_ids (by rw [hpc]; exact fun hc => by cases hc)
  obtain ⟨hfill, hk, hdata⟩ : PcSound es s t (.copyIn c i id k) := by
    have hsound := h.threads t
    rw [hpc] at hsound
    exact hsound
  set m := s.mq.msgTable i with hm
  set m' : Message := { m with data := m.data.set k (c.msg.getD k 0) } with hm'
  have hlen : k < m.data.length := by
    rw [hm, h.bytes i]
    exact Nat.lt_of_lt_of_le hk hfill.fits
  -- one byte more is that of the message
  have hdata' : m'.data.take (k + 1) = c.msg.take (k + 1) := take_succ_set hk hlen hdata
  have htable : ∀ j, (s.stepCopyIn t c i id k).mq.msgTable j = if j = i then m' else s.mq.msgTable j := by
    intro j
    show update s.mq.msgTable i m' j = _
    exact update_apply ..
  have hfills : ∀ j, (s.pc t).fills j ↔ i = j := by
    intro j
    rw [hpc]
    exact Iff.rfl
  have hfill' : Filling es (s.stepCopyIn t c i id k) t c i id := by
    refine ⟨hfill.claimed, hfill.owner, ?_, hfill.nonempty, hfill.fits⟩
    rw [htable, if_pos rfl]
    exact hfill.size
  refine h.advance ht rfl rfl rfl rfl rfl ?_ ?_ ?_ ?_ ?_ ?_ ?_
  · intro j
    rw [htable]
    split_ifs with hj
    · rw [hj]
    · rfl
  · intro j
    rw [htable]
    split_ifs with hj
    · rw [hj]
      exact List.length_set
    · rfl
  · intro j hj
    rw [hfills] at hj
    rw [htable, if_neg (Ne.symm hj)]
    exact ⟨rfl, rfl⟩
  · intro j hf
    rw [hfills]
    split_ifs at hf
    · exact hf
    · exact hf
  · intro j hf hnot
    rw [hfills] at hf
    split_ifs at hnot
    · exact absurd hf hnot
    · exact absurd hf hnot
  · rw [hpc]
    split_ifs <;> rfl
  · split_ifs with hmore
    · refine ⟨hfill', hmore, ?_⟩
      rw [htable, if_pos rfl]
      exact hdata'
    · have hall : k + 1 = c.msg.length := by omega
      refine ⟨hfill', ?_⟩
      rw [htable, if_pos rfl, ← hall, hdata', hall, List.take_length]

/-- The priority makes the message complete. -/
theorem Sound.setPrio (h : Sound stage es s) {t : Nat} {c : SendCall} {i id : Nat}
    (hpc : s.pc t = .setPrio c i id) :
    Sound stage es ({ s with mq := s.mq.setPrio i c.msgPrio }.setPc t (.readAge c i id)) := by
  have ht : t ∈ s.sched.ids := h.mem_ids (by rw [hpc]; exact fun hc => by cases hc)
  obtain ⟨hfill, hdata⟩ : PcSound es s t (.setPrio c i id) := by
    have hsound := h.threads t
    rw [hpc] at hsound
    exact hsound
  have hself : (s.mq.setPrio i c.msgPrio).msgTable i =
      { s.mq.msgTable i with prio := intOf c.msgPrio.toNat } := update_self ..
  have hother : ∀ j, j ≠ i → (s.mq.setPrio i c.msgPrio).msgTable j = s.mq.msgTable j :=
    fun j hj => update_of_ne hj _ _
  have hfills : ∀ j, (s.pc t).fills j ↔ i = j := by
    intro j
    rw [hpc]
    exact Iff.rfl
  refine h.advance ht rfl rfl rfl rfl rfl ?_ ?_ ?_ (fun j hf => False.elim hf) ?_ ?_ hfill.claimed
  · intro j
    show ((s.mq.setPrio i c.msgPrio).msgTable j).size = _
    by_cases hj : j = i
    · rw [hj, hself]
    · rw [hother j hj]
  · intro j
    show ((s.mq.setPrio i c.msgPrio).msgTable j).data.length = _
    by_cases hj : j = i
    · rw [hj, hself]
    · rw [hother j hj]
  · intro j hj
    rw [hfills] at hj
    show ((s.mq.setPrio i c.msgPrio).msgTable j).prio = _ ∧ ((s.mq.setPrio i c.msgPrio).msgTable j).data = _
    rw [hother j (Ne.symm hj)]
    exact ⟨rfl, rfl⟩
  · intro j hf _
    obtain rfl := (hfills j).mp hf
    refine ⟨t, c.msg, c.msgPrio, hfill.owner.symm ▸ hfill.claimed, hfill.size, ?_⟩
    show ((s.mq.setPrio i c.msgPrio).msgTable i).Carries c.msg c.msgPrio
    rw [hself]
    exact ⟨rfl, hdata⟩
  · rw [hpc]
    rfl

/-- The age of an entry is no part of its message. -/
theorem Sound.setAge (h : Sound stage es s) {t : Nat} {c : SendCall} {i id : Nat} {age : Int}
    (hpc : s.pc t = .setAge c i id age) :
    Sound stage es ({ s with mq := s.mq.setEntry i { s.mq.msgTable i with age := age } }.setPc t
      (System.startScan (.sent id c.msg.length))) := by
  have ht : t ∈ s.sched.ids := h.mem_ids (by rw [hpc]; exact fun hc => by cases hc)
  have hclaimed : .claimed id t c.msg c.msgPrio ∈ es := by
    have hsound := h.threads t
    rw [hpc] at hsound
    exact hsound
  have htable : ∀ j, update s.mq.msgTable i { s.mq.msgTable i with age := age } j =
      if j = i then { s.mq.msgTable i with age := age } else s.mq.msgTable j :=
    fun j => update_apply ..
  have hnofill : ∀ j, ¬ (s.pc t).fills j := fun j hf => by rw [hpc] at hf; exact hf
  refine h.advance ht rfl rfl rfl rfl rfl ?_ ?_ ?_ (fun j hf => False.elim hf)
    (fun j hf => absurd hf (hnofill j)) ?_ ⟨c.msg, c.msgPrio, hclaimed, rfl⟩
  · intro j
    show (update s.mq.msgTable i _ j).size = _
    rw [htable]
    split_ifs with hj
    · rw [hj]
    · rfl
  · intro j
    show (update s.mq.msgTable i _ j).data.length = _
    rw [htable]
    split_ifs with hj
    · rw [hj]
    · rfl
  · intro j _
    show (update s.mq.msgTable i _ j).prio = _ ∧ (update s.mq.msgTable i _ j).data = _
    rw [htable]
    split_ifs with hj
    · rw [hj]
      exact ⟨rfl, rfl⟩
    · exact ⟨rfl, rfl⟩
  · rw [hpc]
    rfl

theorem Sound.copyOut (h : Sound stage es s) {t i id size : Nat} {q : Option UInt32} {got : List UInt8}
    (hpc : s.pc t = .copyOut i id size q got) : Sound stage es (s.stepCopyOut t i id size q got) := by
  have ht : t ∈ s.sched.ids := h.mem_ids (by rw [hpc]; exact fun hc => by cases hc)
  obtain ⟨msg, p, hdrain, hless, hgot, hq⟩ : PcSound es s t (.copyOut i id size q got) := by
    have hsound := h.threads t
    rw [hpc] at hsound
    exact hsound
  have hk : got.length < msg.length := hdrain.size ▸ hless
  -- the next byte of the entry is the next byte of the message
  have hbyte : (s.mq.msgTable i).data.getD got.length 0 = msg.getD got.length 0 := by
    conv_rhs => rw [← hdrain.carries.2]
    rw [List.getD_eq_getElem?_getD, List.getD_eq_getElem?_getD, List.getElem?_take_of_lt hk]
  have hgot' : got ++ [(s.mq.msgTable i).data.getD got.length 0] =
      msg.take (got ++ [(s.mq.msgTable i).data.getD got.length 0]).length := by
    rw [List.length_append, List.length_singleton, List.take_add_one, ← hgot, hbyte,
      List.getElem?_eq_getElem hk, List.getD_eq_getElem?_getD, List.getElem?_eq_getElem hk]
    rfl
  have hidle : ∀ j, ¬ (s.pc t).fills j := fun j hf => by rw [hpc] at hf; exact hf
  unfold System.stepCopyOut
  dsimp only
  split_ifs with hmore
  · refine h.advance_idle ht rfl rfl rfl rfl rfl rfl hidle (fun j hf => hf) ?_ ?_
    · rw [hpc]
      rfl
    · refine ⟨msg, p, ?_, hmore, hgot', hq⟩
      exact ⟨hdrain.claimed, hdrain.free, hdrain.size, hdrain.carries⟩
  · refine h.advance_idle ht rfl rfl rfl rfl rfl rfl hidle (fun j hf => hf) ?_ ?_
    · rw [hpc]
      rfl
    · obtain ⟨t', hclaimed⟩ := hdrain.claimed
      have hall : (got ++ [(s.mq.msgTable i).data.getD got.length 0]).length = msg.length := by
        rw [List.length_append, List.length_singleton] at hmore ⊢
        have hsize := hdrain.size
        omega
      have hmsg : got ++ [(s.mq.msgTable i).data.getD got.length 0] = msg := by
        rw [hall, List.take_length] at hgot'
        exact hgot'
      show ResultSound es t (.received id (got ++ [(s.mq.msgTable i).data.getD got.length 0]) q)
      rw [hmsg]
      exact ⟨t', p, hclaimed, hq⟩

/-- A statement that changes no entry and leaves the message of the call where it is. -/
theorem Sound.goOn (h : Sound stage es s) {s' : System} {t : Nat} {pc pc' : Pc} (hpc : s.pc t = pc)
    (hids : s'.sched.ids = s.sched.ids) (hserial : s'.serial = s.serial) (howner : s'.owner = s.owner)
    (hpc' : s'.pc = update s.pc t pc') (hmax : s'.mq.maxSize = s.mq.maxSize)
    (htable : s'.mq.msgTable = s.mq.msgTable) (hne : pc ≠ .idle) (hidle : ∀ i, ¬ pc.fills i)
    (hfills : ∀ i, ¬ pc'.fills i) (hholds : pc'.holds = pc.holds)
    (hsound : PcSound es s t pc → PcSound es s' t pc') :
    ∃ stage', Sound stage' (es ++ (none : Option Event).toList) s' := by
  have ht : t ∈ s.sched.ids := h.mem_ids (hpc.symm ▸ hne)
  have hold : PcSound es s t pc := hpc ▸ h.threads t
  rw [Option.toList_none, List.append_nil]
  exact ⟨stage, h.advance_idle ht hids hserial howner hpc' hmax htable (hpc.symm ▸ hidle) hfills
    (hpc.symm ▸ hholds) (hsound hold)⟩

/-- A statement of a call. -/
theorem Sound.exec (h : Sound stage es s) {t : Nat} (now : Nat) (hok : s.Undisturbed (.exec t now)) :
    ∃ stage', Sound stage' (es ++ (s.stepExec t now).2.toList) (s.stepExec t now).1 := by
  unfold System.stepExec
  cases hpc : s.pc t with
  | idle => exact ⟨stage, by rw [Option.toList_none, List.append_nil]; exact h⟩
  | test c again => exact h.test hpc now hok
  | copyIn c i id k => exact ⟨stage, by rw [Option.toList_none, List.append_nil]; exact h.copyIn hpc⟩
  | setPrio c i id => exact ⟨stage, by rw [Option.toList_none, List.append_nil]; exact h.setPrio hpc⟩
  | setAge c i id age => exact ⟨stage, by rw [Option.toList_none, List.append_nil]; exact h.setAge hpc⟩
  | copyOut i id size q got =>
    exact ⟨stage, by rw [Option.toList_none, List.append_nil]; exact h.copyOut hpc⟩
  | done r => exact h.finish hpc
  | readAge c i id =>
    exact h.goOn hpc rfl rfl rfl rfl rfl rfl (fun hc => by cases hc) (fun _ hf => hf) (fun _ hf => hf) rfl
      fun hs => hs
  | incAge c i id age =>
    exact h.goOn hpc rfl rfl rfl rfl rfl rfl (fun hc => by cases hc) (fun _ hf => hf) (fun _ hf => hf) rfl
      fun hs => hs
  | getPrio i id size =>
    refine h.goOn hpc rfl rfl rfl rfl rfl rfl (fun hc => by cases hc) (fun _ hf => hf) (fun _ hf => hf) rfl ?_
    rintro ⟨msg, p, hdrain, hpos⟩
    refine ⟨msg, p, ⟨hdrain.claimed, hdrain.free, hdrain.size, hdrain.carries⟩, hpos, rfl, ?_⟩
    intro x hx
    obtain rfl := Option.some.inj hx
    rw [hdrain.carries.1, unsignedOf_intOf]
  | block c =>
    exact h.goOn hpc (Sched.sameEpoch_timedblock s.sched t s.address _ now).ids rfl rfl rfl rfl rfl
      (fun hc => by cases hc) (fun _ hf => hf) (fun _ hf => hf) rfl fun hs => hs
  | asleep c =>
    dsimp only
    split_ifs
    · exact h.goOn hpc rfl rfl rfl rfl rfl rfl (fun hc => by cases hc) (fun _ hf => hf) (fun _ hf => hf) rfl
        fun _ => trivial
    · exact h.goOn hpc rfl rfl rfl rfl rfl rfl (fun hc => by cases hc) (fun _ hf => hf) (fun _ hf => hf) rfl
        fun hs => hs
  | scan r n priority newThread =>
    dsimp only
    split_ifs
    · exact h.goOn hpc rfl rfl rfl rfl rfl rfl (fun hc => by cases hc) (fun _ hf => hf) (fun _ hf => hf) rfl
        fun hs => hs
    · cases newThread with
      | none =>
        exact h.goOn hpc rfl rfl rfl rfl rfl rfl (fun hc => by cases hc) (fun _ hf => hf) (fun _ hf => hf) rfl
          fun hs => hs
      | some m =>
        exact h.goOn hpc rfl rfl rfl rfl rfl rfl (fun hc => by cases hc) (fun _ hf => hf) (fun _ hf => hf) rfl
          fun hs => hs
  | wake r m =>
    exact h.goOn hpc (Sched.sameEpoch_wake s.sched m .mq).ids rfl rfl rfl rfl rfl (fun hc => by cases hc)
      (fun _ hf => hf) (fun _ hf => hf) rfl fun hs => hs

/-- A call begins. -/
theorem Sound.call (h : Sound stage es s) {t : Nat} (ht : t ∈ s.sched.ids) (hpc : s.pc t = .idle)
    {pc' : Pc} (hfills : ∀ i, ¬ pc'.fills i) (hholds : pc'.holds = none) (hsound : PcSound es s t pc') :
    Sound stage es (s.setPc t pc') := by
  refine h.advance_idle ht rfl rfl rfl rfl rfl rfl (fun i hf => ?_) hfills ?_ ?_
  · rw [hpc] at hf
    exact hf
  · rw [hpc, hholds]
    rfl
  · refine PcSound.mono (fun e he => he) ?_ ?_ hsound
    · rfl
    · exact fun i _ => ⟨rfl, rfl, rfl, rfl⟩

/-- The scheduler tables change. -/
theorem Sound.env (h : Sound stage es s) {sched : Sched} (hids : sched.ids = s.sched.ids) :
    Sound stage es { s with sched := sched } := by
  refine
  { serial := h.serial
    claimedOnce := h.claimedOnce
    bytes := h.bytes
    stored := h.stored
    idle := fun t ht => h.idle t (hids ▸ ht)
    threads := ?_
    alone := h.alone
    held := h.held
    returned := h.returned
    receivedOnce := h.receivedOnce
    results := h.results }
  intro t
  refine PcSound.mono (fun e he => he) ?_ ?_ (h.threads t)
  · rfl
  · exact fun i _ => ⟨rfl, rfl, rfl, rfl⟩

end

/-! ### Whole runs -/

theorem Sound.step {stage : Nat → Stage} {es : List Event} {s s' : System} {a : Action} {e : Option Event}
    (h : Sound stage es s) (hok : s.Undisturbed a) (hstep : s.step a = some (s', e)) :
    ∃ stage', Sound stage' (es ++ e.toList) s' := by
  cases a with
  | call t c =>
    simp only [System.step] at hstep
    split_ifs at hstep with hcall
    obtain ⟨ht, _, _, hpc⟩ := hcall
    cases hrefusal : s.refusal c with
    | none =>
      rw [hrefusal] at hstep
      cases hstep
      rw [Option.toList_none, List.append_nil]
      exact ⟨stage, h.call ht hpc (fun _ hf => hf) rfl hrefusal⟩
    | some err =>
      rw [hrefusal] at hstep
      cases hstep
      rw [Option.toList_none, List.append_nil]
      exact ⟨stage, h.call ht hpc (fun _ hf => hf) rfl trivial⟩
  | exec t now =>
    simp only [System.step] at hstep
    split_ifs at hstep
    have hafter := h.exec now hok
    rw [Option.some.inj hstep] at hafter
    exact hafter
  | env sched =>
    simp only [System.step] at hstep
    split_ifs at hstep with htotal
    cases hstep
    rw [Option.toList_none, List.append_nil]
    exact ⟨stage, h.env (by unfold Sched.ids; rw [htotal])⟩

theorem sound_initial {attr : MqAttr} {s : System} (h : s.Initial attr) : Sound (fun _ => .returned) [] s := by
  have hnew := h.mq
  unfold mqOpenNew at hnew
  split_ifs at hnew
  have hmq := (Except.ok.inj hnew).symm
  have hsize : ∀ i, (s.mq.msgTable i).size = 0 := fun i => by rw [hmq]
  refine
    { serial := fun _ _ _ _ he => absurd he List.not_mem_nil
      claimedOnce := List.nodup_nil
      bytes := fun i => by rw [hmq]; exact List.length_replicate
      stored := fun i hne => absurd (hsize i) hne
      idle := fun t _ => h.pc t
      threads := fun t => by rw [h.pc t]; trivial
      alone := fun i t t' hf => by rw [h.pc t] at hf; exact absurd hf fun hf => hf
      held := fun t id hh => by rw [h.pc t] at hh; cases hh
      returned := fun _ he => absurd he List.not_mem_nil
      receivedOnce := List.nodup_nil
      results := fun _ _ he => absurd he List.not_mem_nil }

end Mqueue

end CoActionOS
