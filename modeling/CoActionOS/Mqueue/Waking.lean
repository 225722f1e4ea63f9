import CoActionOS.Mqueue.Order
import CoActionOS.Mqueue.Threads
import CoActionOS.Sched.Rows
import Mathlib.Data.Finset.Card
import Mathlib.Data.Finset.Range

/-!
# Threads that are left blocked

A call tests the queue and blocks in two privileged calls, and a call that has succeeded wakes one of the
threads blocked on the queue, whichever role it has.  No thread is left blocked while it could go on in every
run in which no thread blocks on a queue that has changed since its test, no wake goes to a thread of one role
while one of the other could go on, and every receive takes a message that is there.

The invariant is that somebody still owes the wake-up: for every blocked thread that could go on there is a
token, a thread that will find it or another one, or that was woken to use what it waits for.
-/

namespace CoActionOS

namespace Mqueue

open Function

/-! ### The statement -/

inductive Role
  | sender
  | receiver
  deriving DecidableEq, Repr

instance : Fintype Role := ⟨{.sender, .receiver}, fun r => by cases r <;> decide⟩

def MqCall.role : MqCall → Role
  | send _ => .sender
  | receive _ => .receiver

/-- What threads of a role wait for: a free entry or a message. -/
def Mq.Ready (mq : Mq) : Role → Prop
  | .sender => ∃ i < mq.maxMsgs, (mq.msgTable i).size = 0
  | .receiver => ∃ i < mq.maxMsgs, (mq.msgTable i).size ≠ 0

instance (mq : Mq) : (r : Role) → Decidable (mq.Ready r)
  | .sender => inferInstanceAs (Decidable (∃ i < mq.maxMsgs, _))
  | .receiver => inferInstanceAs (Decidable (∃ i < mq.maxMsgs, _))

/-- The thread is in the privileged call that blocks it. -/
def Pc.sleeps (r : Role) : Pc → Bool
  | .asleep c => c.role == r
  | _ => false

/-- The thread is blocked on the queue. -/
def System.Blocked (s : System) (r : Role) (t : Nat) : Prop :=
  (s.pc t).sleeps r = true ∧ (s.sched.table t).active = false

instance (s : System) (r : Role) (t : Nat) : Decidable (s.Blocked r t) :=
  inferInstanceAs (Decidable (_ ∧ _))

/-- The calls and the steps of runs in which no wake-up is lost.  Calls have no timeouts and nothing else touches
the scheduler tables. -/
def System.Careful (s : System) : Action → Prop
  | .env _ => False
  | .call _ c =>
    c.absTimeout = none ∧
      match c with
      | .send c => c.msg ≠ [] ∧ c.msgPrio.toNat < 2 ^ 31
      | .receive c => s.mq.maxSize ≤ c.msgLen
  | .exec t _ =>
    match s.pc t with
    | .block c => ¬ s.mq.Ready c.role
    | .wake _ m =>
      ∀ r r', s.Blocked r m → r' ≠ r → s.mq.Ready r' → ∀ t' ∈ s.sched.ids, ¬ s.Blocked r' t'
    | _ => True

instance (s : System) : (a : Action) → Decidable (s.Careful a)
  | .env _ => .isFalse id
  | .call _ (.send _) => inferInstanceAs (Decidable (_ ∧ _ ∧ _))
  | .call _ (.receive _) => inferInstanceAs (Decidable (_ ∧ _))
  | .exec t _ => by
    dsimp only [System.Careful]
    exact match s.pc t with
      | .block _ => inferInstance
      | .wake .. => inferInstance
      | .idle | .test .. | .copyIn .. | .setPrio .. | .readAge .. | .incAge .. | .setAge .. | .getPrio .. | .copyOut .. |
        .asleep _ | .scan .. | .done _ => .isTrue trivial

/-- Calls that block, without timeouts, and nothing else that touches the scheduler tables. -/
def Action.Plain : Action → Prop
  | .env _ => False
  | .call _ c => c.absTimeout = none ∧ c.nonblock = false
  | .exec _ _ => True

instance : (a : Action) → Decidable a.Plain
  | .env _ => .isFalse id
  | .call _ _ => inferInstanceAs (Decidable (_ ∧ _))
  | .exec _ _ => .isTrue trivial

/-- The entries that are taken. -/
def Mq.taken (mq : Mq) : Finset Nat := (Finset.range mq.maxMsgs).filter fun i => (mq.msgTable i).size ≠ 0

theorem mem_taken {mq : Mq} {i : Nat} : i ∈ mq.taken ↔ i < mq.maxMsgs ∧ (mq.msgTable i).size ≠ 0 := by
  rw [Mq.taken, Finset.mem_filter, Finset.mem_range]

/-- The count is right, the messages fit and their priorities are not negative. -/
structure Mq.Tidy (mq : Mq) : Prop where
  count : mq.curMsgs = mq.taken.card
  fits : ∀ i, (mq.msgTable i).size ≤ mq.maxSize
  prio : ∀ i, 0 ≤ (mq.msgTable i).prio

section

variable {mq : Mq}

theorem taken_claim {i n : Nat} (hi : i < mq.maxMsgs) (hn : n ≠ 0) : (mq.claim i n).taken = insert i mq.taken := by
  ext j
  rw [Finset.mem_insert, mem_taken, mem_taken]
  show j < mq.maxMsgs ∧ (update mq.msgTable i _ j).size ≠ 0 ↔ _
  by_cases hj : j = i
  · subst hj
    rw [update_self]
    exact ⟨fun _ => .inl rfl, fun _ => ⟨hi, hn⟩⟩
  · rw [update_of_ne hj]
    exact ⟨.inr, fun h => h.resolve_left hj⟩

theorem taken_release (i : Nat) : (mq.release i).taken = mq.taken.erase i := by
  ext j
  rw [Finset.mem_erase, mem_taken, mem_taken]
  show j < mq.maxMsgs ∧ (update mq.msgTable i _ j).size ≠ 0 ↔ _
  by_cases hj : j = i
  · subst hj
    rw [update_self]
    exact ⟨fun h => absurd rfl h.2, fun h => absurd rfl h.1⟩
  · rw [update_of_ne hj]
    exact ⟨fun h => ⟨hj, h⟩, fun h => h.2⟩

theorem Mq.Tidy.claim (h : mq.Tidy) {i n : Nat} (hi : i < mq.maxMsgs) (hfree : (mq.msgTable i).size = 0)
    (hn : n ≠ 0) (hle : n ≤ mq.maxSize) : (mq.claim i n).Tidy := by
  have hrow : ∀ j, (mq.claim i n).msgTable j =
      if j = i then { mq.msgTable i with size := n } else mq.msgTable j := fun j => update_apply ..
  refine ⟨?_, fun j => ?_, fun j => ?_⟩
  · have hnot : i ∉ mq.taken := fun hmem => (mem_taken.mp hmem).2 hfree
    rw [taken_claim hi hn, Finset.card_insert_of_notMem hnot, ← h.count]
    rfl
  · rw [hrow]
    split_ifs
    · exact hle
    · exact h.fits j
  · rw [hrow]
    split_ifs
    · exact h.prio i
    · exact h.prio j

theorem Mq.Tidy.release (h : mq.Tidy) {i : Nat} (hi : i < mq.maxMsgs) (hsize : (mq.msgTable i).size ≠ 0) :
    (mq.release i).Tidy := by
  have hrow : ∀ j, (mq.release i).msgTable j =
      if j = i then { mq.msgTable i with size := 0 } else mq.msgTable j := fun j => update_apply ..
  refine ⟨?_, fun j => ?_, fun j => ?_⟩
  · rw [taken_release, Finset.card_erase_of_mem (mem_taken.mpr ⟨hi, hsize⟩), ← h.count]
    rfl
  · rw [hrow]
    split_ifs
    · exact Nat.zero_le _
    · exact h.fits j
  · rw [hrow]
    split_ifs
    · exact h.prio i
    · exact h.prio j

/-- An entry that is taken is found. -/
theorem Mq.Tidy.best_ne_none (h : mq.Tidy) {i : Nat} (hi : i < mq.maxMsgs) (hsize : (mq.msgTable i).size ≠ 0) :
    mq.best.current ≠ none := by
  have hfound : ∀ (l : List Nat) (b : Best), b.current ≠ none →
      (l.foldl (fun (b : Best) j => b.visit j (mq.msgTable j)) b).current ≠ none := by
    intro l
    induction l with
    | nil => exact fun b hb => hb
    | cons j l ih =>
      intro b hb
      rw [List.foldl_cons]
      apply ih
      rcases visit_cases b j (mq.msgTable j) with hv | ⟨-, hv⟩
      · rw [hv]
        exact hb
      · rw [hv]
        exact Option.some_ne_none _
  have hvisit : ∀ (l : List Nat) (b : Best), i ∈ l → b.current ≠ none ∨ b.maxPrio = -1 →
      (l.foldl (fun (b : Best) j => b.visit j (mq.msgTable j)) b).current ≠ none := by
    intro l
    induction l with
    | nil => exact fun b hmem => absurd hmem List.not_mem_nil
    | cons j l ih =>
      intro b hmem hb
      rcases hb with hb | hb
      · exact hfound (j :: l) b hb
      · rw [List.foldl_cons]
        by_cases hj : j = i
        · subst hj
          apply hfound
          have hahead : (mq.msgTable j).prio > b.maxPrio := by
            have := h.prio j
            omega
          unfold Best.visit
          rw [if_pos hsize, if_pos hahead]
          exact Option.some_ne_none _
        · apply ih _ ((List.mem_cons.mp hmem).resolve_left (Ne.symm hj))
          rcases visit_cases b j (mq.msgTable j) with hv | ⟨-, hv⟩
          · exact .inr (by rw [hv]; exact hb)
          · exact .inl (by rw [hv]; exact Option.some_ne_none _)
  exact hvisit mq.entries _ (List.mem_range.mpr hi) (.inr rfl)

/-- A receive with room for any message takes one, or there is none. -/
theorem Mq.Tidy.privReceive (h : mq.Tidy) {msgLen : Nat} (hlen : mq.maxSize ≤ msgLen) :
    (∃ i < mq.maxMsgs, (mq.msgTable i).size ≠ 0 ∧
      privReceive mq msgLen = (mq.release i, ⟨(mq.msgTable i).size, i, none⟩)) ∨
    ¬ mq.Ready .receiver ∧ ∃ i, privReceive mq msgLen = (mq, ⟨0, i, none⟩) := by
  by_cases hcur : mq.curMsgs = 0
  · right
    refine ⟨?_, 0, ?_⟩
    · rintro ⟨i, hi, hsize⟩
      have hempty : mq.taken = ∅ := Finset.card_eq_zero.mp (h.count.symm.trans hcur)
      exact absurd (mem_taken.mpr ⟨hi, hsize⟩) (by rw [hempty]; exact Finset.notMem_empty i)
    · unfold Mqueue.privReceive
      rw [if_neg (not_not.mpr hcur)]
  · obtain ⟨j, hj⟩ : mq.taken.Nonempty := by
      rw [← Finset.card_pos, ← h.count]
      omega
    obtain ⟨hjmax, hjsize⟩ := mem_taken.mp hj
    cases hbest : mq.best.current with
    | none => exact absurd hbest (h.best_ne_none hjmax hjsize)
    | some i =>
      obtain ⟨himax, hisize⟩ := best_spec hbest
      refine .inl ⟨i, himax, hisize, ?_⟩
      have hroom : ¬ msgLen < (mq.msgTable i).size := by
        have := h.fits i
        omega
      unfold Mqueue.privReceive
      rw [if_pos hcur, hbest]
      dsimp only
      rw [if_neg hroom]

/-- A send claims a free entry, or there is none. -/
theorem Mq.Tidy.privSend (h : mq.Tidy) (msgLen : Nat) :
    (∃ i < mq.maxMsgs, (mq.msgTable i).size = 0 ∧ privSend mq msgLen = (mq.claim i msgLen, ⟨msgLen, i, none⟩)) ∨
    ¬ mq.Ready .sender ∧ ∃ i, privSend mq msgLen = (mq, ⟨0, i, none⟩) := by
  by_cases hroom : mq.curMsgs < mq.maxMsgs
  · cases hfree : mq.firstFree with
    | none =>
      right
      refine ⟨?_, mq.maxMsgs, ?_⟩
      · rintro ⟨i, hi, hsize⟩
        have hnot := List.find?_eq_none.mp hfree i (List.mem_range.mpr hi)
        exact hnot (decide_eq_true hsize)
      · unfold Mqueue.privSend
        rw [if_pos hroom, hfree]
    | some i =>
      obtain ⟨hi, hsize⟩ := firstFree_spec hfree
      refine .inl ⟨i, hi, hsize, ?_⟩
      unfold Mqueue.privSend
      rw [if_pos hroom, hfree]
  · right
    refine ⟨?_, 0, ?_⟩
    · rintro ⟨i, hi, hsize⟩
      -- an entry that is free is missing from a full count
      have hsub : mq.taken ⊆ (Finset.range mq.maxMsgs).erase i := by
        intro j hj
        obtain ⟨hjmax, hjsize⟩ := mem_taken.mp hj
        exact Finset.mem_erase.mpr ⟨fun heq => hjsize (heq ▸ hsize), Finset.mem_range.mpr hjmax⟩
      have hcard := Finset.card_le_card hsub
      rw [Finset.card_erase_of_mem (Finset.mem_range.mpr hi), Finset.card_range, ← h.count] at hcard
      omega
    · unfold Mqueue.privSend
      rw [if_neg hroom]

end

/-! ### The invariant -/

/-- The thread is blocked on the queue in either role. -/
def System.Sleeps (s : System) (m : Nat) : Prop := ∃ r, s.Blocked r m

/-- Thread `t'`, which is at `pc`, will wake a thread of its own accord or was woken as one of role `r`.  A scan
that has found nothing yet still has row `t` before it. -/
def System.Owes (s : System) (r : Role) (t t' : Nat) : Pc → Prop
  | .copyIn .. | .setPrio .. | .readAge .. | .incAge .. | .setAge .. | .getPrio .. | .copyOut .. => True
  | .scan _ n priority none => priority = schedLowestPriority - 1 ∧ n ≤ t
  | .scan _ _ _ (some m) => s.Sleeps m
  | .wake _ m => s.Sleeps m
  | .asleep c => c.role = r ∧ (s.sched.table t').active = true
  | .test c again => c.role = r ∧ again = true
  | .idle | .block _ | .done _ => False

/-- What is owed stays owed while whoever sleeps goes on sleeping and the thread itself is not put to sleep. -/
theorem System.Owes.mono {s s' : System} {r : Role} {t t' : Nat} {pc : Pc} (ho : s.Owes r t t' pc)
    (hsleeps : ∀ m, s.Sleeps m → s'.Sleeps m)
    (hactive : (s.sched.table t').active = true → (s'.sched.table t').active = true) : s'.Owes r t t' pc := by
  cases pc with
  | scan res n priority newThread =>
    cases newThread with
    | none => exact ho
    | some m => exact hsleeps m ho
  | wake res m => exact hsleeps m ho
  | asleep c => exact ⟨ho.1, hactive ho.2⟩
  | _ => exact ho

/-- What the calls of these runs carry with them. -/
def Mq.Admits (mq : Mq) : MqCall → Prop
  | .send c => c.msg ≠ [] ∧ c.msgPrio.toNat < 2 ^ 31 ∧ c.msg.length ≤ mq.maxSize
  | .receive c => mq.maxSize ≤ c.msgLen

def Mq.Admitted (mq : Mq) : Pc → Prop
  | .test c _ | .block c | .asleep c => mq.Admits c
  | .copyIn c .. | .setPrio c .. => c.msgPrio.toNat < 2 ^ 31
  | _ => True

structure System.Wakeful (s : System) : Prop where
  address : s.address ≠ 0
  tidy : s.mq.Tidy
  idle : ∀ t, t ∉ s.sched.ids → s.pc t = .idle
  enabled : ∀ t, s.pc t ≠ .idle → (s.sched.table t).enabled = true
  priority : ∀ t ∈ s.sched.ids, schedLowestPriority ≤ (s.sched.table t).attrPriority
  admitted : ∀ t, s.mq.Admitted (s.pc t)
  onQueue : ∀ t, (s.sched.table t).blockObject = s.address →
    (∃ c, s.pc t = .asleep c) ∧ (s.sched.table t).active = false
  sleeping : ∀ t c, s.pc t = .asleep c → (s.sched.table t).active = false →
    (s.sched.table t).blockObject = s.address
  woken : ∀ t c, s.pc t = .asleep c → (s.sched.table t).active = true → (s.sched.table t).unblockType = .mq
  owed : ∀ r t, s.Blocked r t → s.mq.Ready r → ∃ t', s.Owes r t t' (s.pc t')

/-- The thread executes a statement. -/
structure System.Runs (s : System) (u : Nat) : Prop where
  mem : u ∈ s.sched.ids
  enabled : (s.sched.table u).enabled = true
  active : (s.sched.table u).active = true

section

variable {s : System}

theorem System.Blocked.asleep {r : Role} {t : Nat} (h : s.Blocked r t) : ∃ c, s.pc t = .asleep c ∧ c.role = r := by
  obtain ⟨hsleeps, -⟩ := h
  cases hpc : s.pc t with
  | asleep c =>
    rw [hpc] at hsleeps
    exact ⟨c, rfl, by simpa [Pc.sleeps] using hsleeps⟩
  | _ =>
    rw [hpc] at hsleeps
    cases hsleeps

theorem blocked_of_asleep {t : Nat} {c : MqCall} (hpc : s.pc t = .asleep c)
    (hactive : (s.sched.table t).active = false) : s.Blocked c.role t := by
  refine ⟨?_, hactive⟩
  rw [hpc]
  simp [Pc.sleeps]

/-- A thread goes on without touching the scheduler tables: it owes the wake-ups afterwards, or did not before. -/
theorem System.Wakeful.advance (h : s.Wakeful) {s' : System} {u : Nat} {pc' : Pc}
    (hrun : s.Runs u) (hsched : s'.sched = s.sched) (haddress : s'.address = s.address)
    (hpc : s'.pc = update s.pc u pc') (hmax : s'.mq.maxSize = s.mq.maxSize) (htidy : s'.mq.Tidy)
    (hadmitted : s.mq.Admitted pc') (hasleep : ∀ c, pc' ≠ .asleep c)
    (howes : ∀ r t, s.Blocked r t → s'.mq.Ready r →
      s.Owes r t u pc' ∨ s.mq.Ready r ∧ ¬ s.Owes r t u (s.pc u)) : s'.Wakeful := by
  obtain ⟨hu, henabled, hactive⟩ := hrun
  have hself : s'.pc u = pc' := by rw [hpc, update_self]
  have hother : ∀ t, t ≠ u → s'.pc t = s.pc t := fun t ht => by rw [hpc, update_of_ne ht]
  have hadmit : ∀ pc, s.mq.Admitted pc → s'.mq.Admitted pc := by
    intro pc hpc
    have hcall : ∀ c, s.mq.Admits c → s'.mq.Admits c := by
      intro c hc
      cases c with
      | send c => exact ⟨hc.1, hc.2.1, hmax.symm ▸ hc.2.2⟩
      | receive c => exact show s'.mq.maxSize ≤ c.msgLen from hmax.symm ▸ hc
    cases pc <;> first | exact hpc | exact hcall _ hpc
  -- a thread that runs is not on the queue
  have hoff : (s.sched.table u).blockObject ≠ s.address := by
    intro hobject
    rw [(h.onQueue u hobject).2] at hactive
    cases hactive
  have hblocked : ∀ r t, s'.Blocked r t ↔ s.Blocked r t := by
    intro r t
    unfold System.Blocked
    rw [hsched]
    by_cases ht : t = u
    · subst ht
      rw [hactive]
      exact ⟨fun hb => absurd hb.2 (by decide), fun hb => absurd hb.2 (by decide)⟩
    · rw [hother t ht]
  have hsleeps : ∀ m, s'.Sleeps m ↔ s.Sleeps m := fun m => exists_congr fun r => hblocked r m
  have howes' : ∀ r t t' pc, s.Owes r t t' pc → s'.Owes r t t' pc := fun r t t' pc ho =>
    ho.mono (fun m => (hsleeps m).mpr) fun hawake => by rw [hsched]; exact hawake
  refine
    { address := haddress ▸ h.address
      tidy := htidy
      idle := ?_
      enabled := ?_
      priority := by rw [hsched]; exact h.priority
      admitted := ?_
      onQueue := ?_
      sleeping := ?_
      woken := ?_
      owed := ?_ }
  · intro t ht
    rw [hsched] at ht
    rw [hother t fun heq => ht (heq ▸ hu)]
    exact h.idle t ht
  · intro t ht
    rw [hsched]
    by_cases htu : t = u
    · rw [htu]
      exact henabled
    · rw [hother t htu] at ht
      exact h.enabled t ht
  · intro t
    by_cases htu : t = u
    · rw [htu, hself]
      exact hadmit pc' hadmitted
    · rw [hother t htu]
      exact hadmit _ (h.admitted t)
  · intro t hobject
    rw [hsched, haddress] at hobject
    have htu : t ≠ u := fun heq => hoff (heq ▸ hobject)
    rw [hother t htu, hsched]
    exact h.onQueue t hobject
  · intro t c hc
    have htu : t ≠ u := fun heq => hasleep c (by rw [← hself, ← heq]; exact hc)
    rw [hother t htu] at hc
    rw [hsched, haddress]
    exact h.sleeping t c hc
  · intro t c hc
    have htu : t ≠ u := fun heq => hasleep c (by rw [← hself, ← heq]; exact hc)
    rw [hother t htu] at hc
    rw [hsched]
    exact h.woken t c hc
  -- a wake-up is owed by this thread, or by the one that owed it before
  · intro r t hb hr
    rw [hblocked] at hb
    rcases howes r t hb hr with ho | ⟨hr, hnot⟩
    · exact ⟨u, hself.symm ▸ howes' r t u pc' ho⟩
    · obtain ⟨t', ho⟩ := h.owed r t hb hr
      have htu : t' ≠ u := fun heq => hnot (heq ▸ ho)
      exact ⟨t', (hother t' htu).symm ▸ howes' r t t' _ ho⟩

/-- What threads wait for depends on the sizes of the entries only. -/
theorem ready_congr {mq mq' : Mq} (hmsgs : mq'.maxMsgs = mq.maxMsgs)
    (hsize : ∀ i, (mq'.msgTable i).size = (mq.msgTable i).size) (r : Role) : mq'.Ready r ↔ mq.Ready r := by
  cases r with
  | sender => exact exists_congr fun i => by rw [hmsgs, hsize]
  | receiver => exact exists_congr fun i => by rw [hmsgs, hsize]

/-- The sizes and the count stay, and no priority turns negative. -/
theorem Mq.Tidy.congr {mq mq' : Mq} (h : mq.Tidy) (hmsgs : mq'.maxMsgs = mq.maxMsgs)
    (hmax : mq'.maxSize = mq.maxSize) (hcur : mq'.curMsgs = mq.curMsgs)
    (hsize : ∀ i, (mq'.msgTable i).size = (mq.msgTable i).size)
    (hprio : ∀ i, 0 ≤ (mq'.msgTable i).prio) : mq'.Tidy := by
  refine ⟨?_, fun i => ?_, hprio⟩
  · have htaken : mq'.taken = mq.taken := by
      ext i
      rw [mem_taken, mem_taken, hmsgs, hsize]
    rw [hcur, htaken, h.count]
  · rw [hsize, hmax]
    exact h.fits i

/-- A step on the way from the send or receive step to the scan. -/
theorem System.Wakeful.fly (h : s.Wakeful) {s' : System} {u : Nat} {pc' : Pc}
    (hrun : s.Runs u) (hsched : s'.sched = s.sched) (haddress : s'.address = s.address)
    (hpc : s'.pc = update s.pc u pc') (hmax : s'.mq.maxSize = s.mq.maxSize) (htidy : s'.mq.Tidy)
    (hadmitted : s.mq.Admitted pc') (hasleep : ∀ c, pc' ≠ .asleep c) (hflies : ∀ r t, t ∈ s.sched.ids → s.Owes r t u pc') : s'.Wakeful := by
  apply h.advance hrun hsched haddress hpc hmax htidy hadmitted hasleep
  intro r t hb _
  left
  apply hflies r t
  obtain ⟨c, hc, -⟩ := hb.asleep
  by_contra hnot
  rw [h.idle t hnot] at hc
  cases hc

/-- The start of a scan. -/
theorem owes_startScan (r : Role) {t : Nat} (ht : t ∈ s.sched.ids) (u : Nat) (res : Result) :
    s.Owes r t u (System.startScan res) :=
  ⟨rfl, (Sched.mem_ids _ |>.mp ht).1⟩

/-- The send step. -/
theorem System.Wakeful.send (h : s.Wakeful) {u : Nat} {c : SendCall} {again : Bool}
    (hrun : s.Runs u) (hpc : s.pc u = .test (.send c) again) :
    (s.stepTest u (.send c)).1.Wakeful := by
  obtain ⟨hmsg, hprio, hfits⟩ : s.mq.Admits (.send c) := by
    have hadmitted := h.admitted u
    rw [hpc] at hadmitted
    exact hadmitted
  have hlen : c.msg.length ≠ 0 := fun hz => hmsg (List.eq_nil_of_length_eq_zero hz)
  rcases h.tidy.privSend c.msg.length with ⟨i, hi, hfree, hcall⟩ | ⟨hfull, i, hcall⟩
  · have hsent : (c.msg.length : Int) > 0 := by omega
    simp only [System.stepTest, hcall, if_pos hsent]
    exact h.fly hrun rfl rfl rfl rfl (h.tidy.claim hi hfree hlen hfits) hprio (fun _ hc => by cases hc)
      fun _ _ _ => trivial
  · -- a thread woken for a free entry that is gone again owes nothing
    have howes : ∀ pc' : Pc, ∀ r t, s.Blocked r t → s.mq.Ready r →
        s.Owes r t u pc' ∨ s.mq.Ready r ∧ ¬ s.Owes r t u (s.pc u) := by
      intro pc' r t _ hr
      refine .inr ⟨hr, fun ho => ?_⟩
      rw [hpc] at ho
      obtain rfl : Role.sender = r := ho.1
      exact hfull hr
    have hsent : ¬ (0 : Int) > 0 := by decide
    simp only [System.stepTest, hcall, if_neg hsent]
    split_ifs
    · exact h.advance hrun rfl rfl rfl rfl h.tidy trivial (fun _ hc => by cases hc) (howes _)
    · exact h.advance hrun rfl rfl rfl rfl h.tidy ⟨hmsg, hprio, hfits⟩ (fun _ hc => by cases hc)
        (howes _)

/-- The receive step. -/
theorem System.Wakeful.receive (h : s.Wakeful) {u : Nat} {c : ReceiveCall} {again : Bool}
    (hrun : s.Runs u) (hpc : s.pc u = .test (.receive c) again) :
    (s.stepTest u (.receive c)).1.Wakeful := by
  have hroom : s.mq.maxSize ≤ c.msgLen := by
    have hadmitted := h.admitted u
    rw [hpc] at hadmitted
    exact hadmitted
  rcases h.tidy.privReceive hroom with ⟨i, hi, hsize, hcall⟩ | ⟨hempty, i, hcall⟩
  · have hgot : ((s.mq.msgTable i).size : Int) > 0 := by omega
    simp only [System.stepTest, hcall, if_pos hgot]
    split_ifs
    · exact h.fly hrun rfl rfl rfl rfl (h.tidy.release hi hsize) trivial (fun _ hc => by cases hc)
        fun _ _ _ => trivial
    · exact h.fly hrun rfl rfl rfl rfl (h.tidy.release hi hsize) trivial (fun _ hc => by cases hc)
        fun _ _ _ => trivial
  · have howes : ∀ pc' : Pc, ∀ r t, s.Blocked r t → s.mq.Ready r →
        s.Owes r t u pc' ∨ s.mq.Ready r ∧ ¬ s.Owes r t u (s.pc u) := by
      intro pc' r t _ hr
      refine .inr ⟨hr, fun ho => ?_⟩
      rw [hpc] at ho
      obtain rfl : Role.receiver = r := ho.1
      exact hempty hr
    have hgot : ¬ (0 : Int) > 0 := by decide
    simp only [System.stepTest, hcall, if_neg hgot]
    split_ifs
    · exact h.advance hrun rfl rfl rfl rfl h.tidy trivial (fun _ hc => by cases hc) (howes _)
    · exact h.advance hrun rfl rfl rfl rfl h.tidy hroom (fun _ hc => by cases hc) (howes _)

/-- An entry is rewritten without a change of its size. -/
theorem Mq.Tidy.setEntry {mq : Mq} (h : mq.Tidy) {i : Nat} {m : Message} (hsize : m.size = (mq.msgTable i).size)
    (hprio : 0 ≤ m.prio) : (mq.setEntry i m).Tidy := by
  have hrow : ∀ j, (mq.setEntry i m).msgTable j = if j = i then m else mq.msgTable j := fun j => update_apply ..
  refine h.congr rfl rfl rfl (fun j => ?_) (fun j => ?_)
  · rw [hrow]
    split_ifs with hj
    · rw [hj, hsize]
    · rfl
  · rw [hrow]
    split_ifs
    · exact hprio
    · exact h.prio j

theorem System.Wakeful.copyIn (h : s.Wakeful) {u : Nat} {c : SendCall} {i id k : Nat}
    (hrun : s.Runs u) (hpc : s.pc u = .copyIn c i id k) :
    (s.stepCopyIn u c i id k).Wakeful := by
  have hprio : c.msgPrio.toNat < 2 ^ 31 := by
    have hadmitted := h.admitted u
    rw [hpc] at hadmitted
    exact hadmitted
  have htidy : (s.stepCopyIn u c i id k).mq.Tidy := h.tidy.setEntry rfl (h.tidy.prio i)
  refine h.fly hrun rfl rfl rfl rfl htidy ?_ ?_ ?_
  · split_ifs
    · exact hprio
    · exact hprio
  · intro c'
    split_ifs <;> exact fun hc => by cases hc
  · intro r t _
    split_ifs <;> trivial

theorem System.Wakeful.copyOut (h : s.Wakeful) {u : Nat} (hrun : s.Runs u) (i id size : Nat)
    (q : Option UInt32) (got : List UInt8) :
    (s.stepCopyOut u i id size q got).Wakeful := by
  unfold System.stepCopyOut
  dsimp only
  split_ifs
  · exact h.fly hrun rfl rfl rfl rfl h.tidy trivial (fun _ hc => by cases hc) fun _ _ _ => trivial
  · exact h.fly hrun rfl rfl rfl rfl h.tidy trivial (fun _ hc => by cases hc)
      fun r _ ht => owes_startScan r ht u _

/-- A row that the scan takes is that of a thread blocked on the queue. -/
theorem System.Wakeful.sleeps_of_row (h : s.Wakeful) {n : Nat}
    (hobject : (s.sched.table n).blockObject = s.address) : s.Sleeps n := by
  obtain ⟨⟨c, hc⟩, hactive⟩ := h.onQueue n hobject
  exact ⟨c.role, blocked_of_asleep hc hactive⟩

/-- One row of the scan: a blocked thread at that row is not passed over without another being found. -/
theorem System.Wakeful.scan (h : s.Wakeful) {u : Nat} {res : Result} {n : Nat} {priority : Int}
    {newThread : Option Nat} (hrun : s.Runs u)
    (hpc : s.pc u = .scan res n priority newThread) :
    (s.setPc u (.scan res (n + 1) (visitBlocked s.sched.table s.address n (priority, newThread)).1
      (visitBlocked s.sched.table s.address n (priority, newThread)).2)).Wakeful := by
  refine h.advance hrun rfl rfl rfl rfl h.tidy trivial (fun _ hc => by cases hc) ?_
  intro r t hb hr
  by_cases ho : s.Owes r t u (s.pc u)
  · left
    rw [hpc] at ho
    unfold visitBlocked
    by_cases hrow : (s.sched.table n).enabled ∧ (s.sched.table n).blockObject = s.address ∧
        ¬ (s.sched.table n).active ∧ (s.sched.table n).attrPriority > priority
    · rw [if_pos hrow]
      exact h.sleeps_of_row hrow.2.1
    · rw [if_neg hrow]
      cases newThread with
      | some m => exact ho
      | none =>
        obtain ⟨rfl, hle⟩ : priority = schedLowestPriority - 1 ∧ n ≤ t := ho
        refine ⟨rfl, ?_⟩
        -- row `n` is not that of the blocked thread, which the scan would have taken
        have hnt : n ≠ t := by
          rintro rfl
          obtain ⟨c, hc, -⟩ := hb.asleep
          have hids : n ∈ s.sched.ids := by
            by_contra hnot
            rw [h.idle n hnot] at hc
            cases hc
          apply hrow
          refine ⟨h.enabled n (by rw [hc]; exact fun hc => by cases hc), h.sleeping n c hc hb.2, ?_, ?_⟩
          · rw [hb.2]
            exact Bool.false_ne_true
          · have := h.priority n hids
            omega
        omega
  · exact .inr ⟨hr, ho⟩

/-- The end of the scan. -/
theorem System.Wakeful.scanned (h : s.Wakeful) {u : Nat} {res : Result} {n : Nat} {priority : Int}
    {newThread : Option Nat} (hrun : s.Runs u)
    (hpc : s.pc u = .scan res n priority newThread) (hn : ¬ n < s.sched.total) {pc' : Pc}
    (hpc' : pc' = match newThread with | some m => .wake res m | none => .done res) :
    (s.setPc u pc').Wakeful := by
  cases newThread with
  | some m =>
    subst hpc'
    refine h.advance hrun rfl rfl rfl rfl h.tidy trivial (fun _ hc => by cases hc) ?_
    intro r t _ hr
    by_cases ho : s.Owes r t u (s.pc u)
    · left
      rw [hpc] at ho
      exact ho
    · exact .inr ⟨hr, ho⟩
  | none =>
    subst hpc'
    refine h.advance hrun rfl rfl rfl rfl h.tidy trivial (fun _ hc => by cases hc) ?_
    intro r t hb hr
    refine .inr ⟨hr, fun ho => ?_⟩
    rw [hpc] at ho
    obtain ⟨-, hle⟩ : priority = schedLowestPriority - 1 ∧ n ≤ t := ho
    obtain ⟨c, hc, -⟩ := hb.asleep
    have hids : t ∈ s.sched.ids := by
      by_contra hnot
      rw [h.idle t hnot] at hc
      cases hc
    have := (Sched.mem_ids _ |>.mp hids).2
    omega

theorem System.Wakeful.mem_ids (h : s.Wakeful) {t : Nat} (hne : s.pc t ≠ .idle) : t ∈ s.sched.ids := by
  by_contra hnot
  exact hne (h.idle t hnot)

/-- A step that leaves the rows alone but that of `x`, and the threads where they are but `u`. -/
structure System.Moves (s s' : System) (x u : Nat) (row : SchedTask) (pc : Pc) : Prop where
  address : s'.address = s.address
  mq : s'.mq = s.mq
  ids : s'.sched.ids = s.sched.ids
  rows : ∀ i, i ≠ x → (s'.sched.table i).noExec = (s.sched.table i).noExec
  own : (s'.sched.table x).noExec = row.noExec
  self : s'.pc u = pc
  other : ∀ t, t ≠ u → s'.pc t = s.pc t

namespace System.Moves

variable {s' : System} {x u : Nat} {row : SchedTask} {pc : Pc} (c : s.Moves s' x u row pc)

include c

theorem active {i : Nat} (hi : i ≠ x) : (s'.sched.table i).active = (s.sched.table i).active :=
  SchedTask.active_of_noExec (c.rows i hi)

theorem blockObject {i : Nat} (hi : i ≠ x) : (s'.sched.table i).blockObject = (s.sched.table i).blockObject :=
  SchedTask.blockObject_of_noExec (c.rows i hi)

theorem idle (h : s.Wakeful) (hu : u ∈ s.sched.ids) {t : Nat} (ht : t ∉ s'.sched.ids) : s'.pc t = .idle := by
  rw [c.ids] at ht
  rw [c.other t fun heq => ht (heq ▸ hu)]
  exact h.idle t ht

theorem enabled (h : s.Wakeful) (henabled : (s.sched.table u).enabled = true)
    (hrow : row.enabled = (s.sched.table x).enabled) {t : Nat} (ht : s'.pc t ≠ .idle) : (s'.sched.table t).enabled = true := by
  have hold : (s.sched.table t).enabled = true := by
    by_cases htu : t = u
    · exact htu ▸ henabled
    · exact h.enabled t (c.other t htu ▸ ht)
  by_cases htx : t = x
  · rw [htx, SchedTask.enabled_of_noExec c.own, hrow]
    exact htx ▸ hold
  · rw [SchedTask.enabled_of_noExec (c.rows t htx)]
    exact hold

theorem priority (h : s.Wakeful) (hrow : row.attrPriority = (s.sched.table x).attrPriority) {t : Nat}
    (ht : t ∈ s'.sched.ids) : schedLowestPriority ≤ (s'.sched.table t).attrPriority := by
  rw [c.ids] at ht
  by_cases htx : t = x
  · rw [htx, SchedTask.attrPriority_of_noExec c.own, hrow]
    exact h.priority x (htx ▸ ht)
  · rw [SchedTask.attrPriority_of_noExec (c.rows t htx)]
    exact h.priority t ht

theorem admitted (h : s.Wakeful) (hself : s.mq.Admitted pc) (t : Nat) : s'.mq.Admitted (s'.pc t) := by
  rw [c.mq]
  by_cases htu : t = u
  · rw [htu, c.self]
    exact hself
  · rw [c.other t htu]
    exact h.admitted t

/-- Nobody but the thread of the row ceases to sleep. -/
theorem sleeps {k : Nat} (hx : k ≠ x) (hu : k ≠ u) (hk : s.Sleeps k) : s'.Sleeps k := by
  obtain ⟨r, hb⟩ := hk
  refine ⟨r, ?_⟩
  unfold System.Blocked at hb ⊢
  rw [c.other k hu, c.active hx]
  exact hb

end System.Moves

/-! ### A thread blocks -/

section

variable {s' : System} {u : Nat} {c : MqCall} {row : SchedTask} (b : s.Moves s' u u row (.asleep c))

include b

theorem System.Moves.blocked_cases {r : Role} {t : Nat} (hb : s'.Blocked r t) :
    t ≠ u ∧ s.Blocked r t ∨ t = u ∧ r = c.role := by
  by_cases ht : t = u
  · subst ht
    obtain ⟨c', hc', hrole⟩ := hb.asleep
    rw [b.self] at hc'
    cases hc'
    exact .inr ⟨rfl, hrole.symm⟩
  · refine .inl ⟨ht, ?_⟩
    unfold System.Blocked at hb ⊢
    rw [b.other t ht, b.active ht] at hb
    exact hb

/-- The thread that blocks owed nothing. -/
theorem System.Moves.owed_block (h : s.Wakeful) (hactive : (s.sched.table u).active = true) (hpc : s.pc u = .block c)
    {r : Role} {t : Nat} (hb : s.Blocked r t) (hr : s.mq.Ready r) : ∃ t', s'.Owes r t t' (s'.pc t') := by
  obtain ⟨t', ho⟩ := h.owed r t hb hr
  have htu : t' ≠ u := by
    rintro rfl
    rw [hpc] at ho
    exact ho
  refine ⟨t', ?_⟩
  rw [b.other t' htu]
  refine ho.mono (fun k hk => ?_) fun hawake => (b.active htu).trans hawake
  have hku : k ≠ u := by
    rintro rfl
    obtain ⟨r', hbk⟩ := hk
    exact absurd (hactive.symm.trans hbk.2) (by decide)
  exact b.sleeps hku hku hk

end

/-- A thread blocks on a queue in which what it waits for is not there. -/
theorem System.Wakeful.block (h : s.Wakeful) {u : Nat} {c : MqCall} (hrun : s.Runs u)
    (hpc : s.pc u = .block c) (hready : ¬ s.mq.Ready c.role) (absTime : SchedTimeval) (now : Nat) :
    ({ s with sched := s.sched.schedPrivTimedblock u s.address absTime now }.setPc u (.asleep c)).Wakeful := by
  obtain ⟨hu, henabled, hactive⟩ := hrun
  set s' := { s with sched := s.sched.schedPrivTimedblock u s.address absTime now }.setPc u (.asleep c) with hs'
  have b : s.Moves s' u u ((s.sched.table u).timedblocked s.address absTime s.sched.usecondCounter now) (.asleep c) := {
    address := rfl
    mq := rfl
    ids := (Sched.sameEpoch_timedblock s.sched u s.address absTime now).ids
    rows := fun i hi => (Sched.noExec_timedblock s.sched u s.address absTime now i).trans (congrArg SchedTask.noExec (if_neg hi))
    own := (Sched.noExec_timedblock s.sched u s.address absTime now u).trans (congrArg SchedTask.noExec (if_pos rfl))
    self := update_self ..
    other := fun t ht => update_of_ne ht _ _ }
  have hasleep : (s'.sched.table u).active = false := by
    rw [SchedTask.active_of_noExec b.own]
    show ((s.sched.table u).active && (decide (s.address = 0) && _)) = false
    rw [decide_eq_false h.address, Bool.false_and, Bool.and_false]
  exact {
    address := h.address
    tidy := h.tidy
    idle := fun t => b.idle h hu
    enabled := fun t => b.enabled h henabled rfl
    priority := fun t => b.priority h rfl
    admitted := b.admitted h (by
      have hadmitted := h.admitted u
      rw [hpc] at hadmitted
      exact hadmitted)
    onQueue := fun t hobject => by
      by_cases htu : t = u
      · rw [htu]
        exact ⟨⟨c, b.self⟩, hasleep⟩
      · rw [b.blockObject htu] at hobject
        rw [b.other t htu, b.active htu]
        exact h.onQueue t hobject
    sleeping := fun t c' hc' hinactive => by
      by_cases htu : t = u
      · rw [htu, SchedTask.blockObject_of_noExec b.own]
        rfl
      · rw [b.other t htu] at hc'
        rw [b.active htu] at hinactive
        rw [b.blockObject htu]
        exact h.sleeping t c' hc' hinactive
    woken := fun t c' hc' hawake => by
      by_cases htu : t = u
      · rw [htu, hasleep] at hawake
        cases hawake
      · rw [b.other t htu] at hc'
        rw [b.active htu] at hawake
        rw [SchedTask.unblockType_of_noExec (b.rows t htu)]
        exact h.woken t c' hc' hawake
    owed := fun r t hb hr => by
      rcases b.blocked_cases hb with ⟨-, hb⟩ | ⟨-, rfl⟩
      · exact b.owed_block h hactive hpc hb hr
      · exact absurd hr hready }

/-! ### A thread is woken -/

section

variable {s' : System} {u m : Nat} {res : Result} (w : s.Moves s' m u ((s.sched.table m).woken .mq) (.done res))

include w

theorem System.Moves.woken_active : (s'.sched.table m).active = true := SchedTask.active_of_noExec w.own

theorem System.Moves.ne_of_inactive {t : Nat} (hinactive : (s'.sched.table t).active = false) : t ≠ m := by
  rintro rfl
  exact absurd (w.woken_active.symm.trans hinactive) (by decide)

theorem System.Moves.asleep_of {t : Nat} {c : MqCall} (hc : s'.pc t = .asleep c) : s.pc t = .asleep c := by
  by_cases ht : t = u
  · rw [ht, w.self] at hc
    cases hc
  · exact w.other t ht ▸ hc

theorem System.Moves.blocked_of {r : Role} {t : Nat} (hb : s'.Blocked r t) : t ≠ m ∧ s.Blocked r t := by
  obtain ⟨c, hc, rfl⟩ := hb.asleep
  have ht := w.ne_of_inactive hb.2
  refine ⟨ht, blocked_of_asleep (w.asleep_of hc) ?_⟩
  rw [← w.active ht]
  exact hb.2

/-- The thread that is woken takes over what was owed to its role. -/
theorem System.Moves.owes_woken (hpc : s.pc u = .wake res m) {r : Role} {t : Nat} (hb : s.Blocked r m) :
    s'.Owes r t m (s'.pc m) := by
  obtain ⟨c, hc, hrole⟩ := hb.asleep
  have hmu : m ≠ u := by
    rintro rfl
    rw [hpc] at hc
    cases hc
  rw [w.other m hmu, hc]
  exact ⟨hrole, w.woken_active⟩

/-- The thread was woken by another call in the meantime: nothing was owed through this one. -/
theorem System.Moves.owed_awake (h : s.Wakeful) (hpc : s.pc u = .wake res m) (hawake : ¬ s.Sleeps m) {r : Role} {t : Nat}
    (hb : s.Blocked r t) (hr : s.mq.Ready r) : ∃ t', s'.Owes r t t' (s'.pc t') := by
  obtain ⟨t', ho⟩ := h.owed r t hb hr
  have htu : t' ≠ u := by
    rintro rfl
    rw [hpc] at ho
    exact hawake ho
  refine ⟨t', ?_⟩
  rw [w.other t' htu]
  refine ho.mono (fun k hk => ?_) fun hactive => ?_
  · have hkm : k ≠ m := fun heq => hawake (heq ▸ hk)
    have hku : k ≠ u := by
      rintro rfl
      obtain ⟨r', hbk⟩ := hk
      obtain ⟨c, hc, -⟩ := hbk.asleep
      rw [hpc] at hc
      cases hc
    exact w.sleeps hkm hku hk
  · by_cases htm : t' = m
    · rw [htm]
      exact w.woken_active
    · exact (w.active htm).trans hactive

end

/-- The wake call.  If the thread it names is still blocked that thread takes over what was owed to its role, and
nothing was owed to the other. -/
theorem System.Wakeful.wake (h : s.Wakeful) {u m : Nat} {res : Result} (hrun : s.Runs u)
    (hpc : s.pc u = .wake res m)
    (hcare : ∀ r r', s.Blocked r m → r' ≠ r → s.mq.Ready r' → ∀ t' ∈ s.sched.ids, ¬ s.Blocked r' t') :
    ({ s with sched := s.sched.privWakeBlocked m }.setPc u (.done res)).Wakeful := by
  obtain ⟨hu, henabled, hactive⟩ := hrun
  set s' := { s with sched := s.sched.privWakeBlocked m }.setPc u (.done res) with hs'
  have w : s.Moves s' m u ((s.sched.table m).woken .mq) (.done res) := {
    address := rfl
    mq := rfl
    ids := (Sched.sameEpoch_wake s.sched m .mq).ids
    rows := fun i hi => (Sched.noExec_wake s.sched m .mq i).trans (congrArg SchedTask.noExec (if_neg hi))
    own := (Sched.noExec_wake s.sched m .mq m).trans (congrArg SchedTask.noExec (if_pos rfl))
    self := update_self ..
    other := fun t ht => update_of_ne ht _ _ }
  exact {
    address := h.address
    tidy := h.tidy
    idle := fun t => w.idle h hu
    enabled := fun t => w.enabled h henabled rfl
    priority := fun t => w.priority h rfl
    admitted := w.admitted h trivial
    onQueue := fun t hobject => by
      -- the thread that is woken is on the queue no more
      have htm : t ≠ m := by
        rintro rfl
        rw [SchedTask.blockObject_of_noExec w.own] at hobject
        exact h.address hobject.symm
      rw [w.blockObject htm] at hobject
      obtain ⟨⟨c, hc⟩, hinactive⟩ := h.onQueue t hobject
      have htu : t ≠ u := by
        rintro rfl
        rw [hpc] at hc
        cases hc
      rw [w.other t htu, w.active htm]
      exact ⟨⟨c, hc⟩, hinactive⟩
    sleeping := fun t c hc hinactive => by
      have htm := w.ne_of_inactive hinactive
      rw [w.active htm] at hinactive
      rw [w.blockObject htm]
      exact h.sleeping t c (w.asleep_of hc) hinactive
    woken := fun t c hc hawake => by
      by_cases htm : t = m
      · rw [htm, SchedTask.unblockType_of_noExec w.own]
        rfl
      · rw [w.active htm] at hawake
        rw [SchedTask.unblockType_of_noExec (w.rows t htm)]
        exact h.woken t c (w.asleep_of hc) hawake
    owed := fun r t hb hr => by
      obtain ⟨-, hb⟩ := w.blocked_of hb
      have ht : t ∈ s.sched.ids := by
        obtain ⟨c, hc, -⟩ := hb.asleep
        exact h.mem_ids (by rw [hc]; exact fun hc => by cases hc)
      by_cases hsleep : s.Sleeps m
      · obtain ⟨r', hbm⟩ := hsleep
        have hrole : r = r' := by
          by_contra hdiff
          exact hcare r' r hbm hdiff hr t ht hb
        subst hrole
        exact ⟨m, w.owes_woken hpc hbm⟩
      · exact w.owed_awake h hpc hsleep hb hr }

/-- A statement of a call. -/
theorem System.Wakeful.exec (h : s.Wakeful) {u : Nat} (hrun : s.Runs u) (now : Nat)
    (hcare : s.Careful (.exec u now)) : (s.stepExec u now).1.Wakeful := by
  have hadmitted := h.admitted u
  unfold System.stepExec
  cases hpc : s.pc u with
  | idle => exact h
  | test c again =>
    cases c with
    | send c => exact h.send hrun hpc
    | receive c => exact h.receive hrun hpc
  | copyIn c i id k => exact h.copyIn hrun hpc
  | setPrio c i id =>
    rw [hpc] at hadmitted
    have hprio : 0 ≤ intOf c.msgPrio.toNat := by
      rw [intOf_of_lt hadmitted]
      omega
    exact h.fly hrun rfl rfl rfl rfl (h.tidy.setEntry rfl hprio) trivial (fun _ hc => by cases hc)
      fun _ _ _ => trivial
  | readAge c i id =>
    exact h.fly hrun rfl rfl rfl rfl h.tidy trivial (fun _ hc => by cases hc) fun _ _ _ => trivial
  | incAge c i id age =>
    exact h.fly hrun rfl rfl rfl rfl (h.tidy.congr rfl rfl rfl (fun _ => rfl) h.tidy.prio) trivial
      (fun _ hc => by cases hc) fun _ _ _ => trivial
  | setAge c i id age =>
    exact h.fly hrun rfl rfl rfl rfl (h.tidy.setEntry rfl (h.tidy.prio i)) trivial (fun _ hc => by cases hc)
      fun r _ ht => owes_startScan r ht u _
  | getPrio i id size =>
    exact h.fly hrun rfl rfl rfl rfl h.tidy trivial (fun _ hc => by cases hc) fun _ _ _ => trivial
  | copyOut i id size q got => exact h.copyOut hrun i id size q got
  | block c =>
    have hready : ¬ s.mq.Ready c.role := by
      simp only [System.Careful, hpc] at hcare
      exact hcare
    exact h.block hrun hpc hready _ now
  | asleep c =>
    have hsleep : ¬ (s.sched.table u).unblockType = .sleep := by
      rw [h.woken u c hpc hrun.active]
      exact fun hc => by cases hc
    dsimp only
    rw [if_neg hsleep]
    rw [hpc] at hadmitted
    refine h.advance hrun rfl rfl rfl rfl h.tidy hadmitted (fun _ hc => by cases hc) ?_
    intro r t _ hr
    by_cases ho : s.Owes r t u (s.pc u)
    · rw [hpc] at ho
      exact .inl ⟨ho.1, rfl⟩
    · exact .inr ⟨hr, ho⟩
  | scan res n priority newThread =>
    dsimp only
    split_ifs with hn
    · exact h.scan hrun hpc
    · cases newThread with
      | none => exact h.scanned hrun hpc hn rfl
      | some m => exact h.scanned hrun hpc hn rfl
  | wake res m =>
    have hcall : ∀ r r', s.Blocked r m → r' ≠ r → s.mq.Ready r' → ∀ t' ∈ s.sched.ids, ¬ s.Blocked r' t' := by
      simp only [System.Careful, hpc] at hcare
      exact hcare
    exact h.wake hrun hpc hcall
  | done res =>
    refine h.advance hrun rfl rfl rfl rfl h.tidy trivial (fun _ hc => by cases hc) ?_
    intro r t _ hr
    refine .inr ⟨hr, fun ho => ?_⟩
    rw [hpc] at ho
    exact ho

/-- A call begins. -/
theorem System.Wakeful.call (h : s.Wakeful) {u : Nat} (hrun : s.Runs u) (hpc : s.pc u = .idle) {pc' : Pc}
    (hadmitted : s.mq.Admitted pc') (hasleep : ∀ c, pc' ≠ .asleep c) : (s.setPc u pc').Wakeful := by
  refine h.advance hrun rfl rfl rfl rfl h.tidy hadmitted hasleep ?_
  intro r t _ hr
  refine .inr ⟨hr, fun ho => ?_⟩
  rw [hpc] at ho
  exact ho

end

/-! ### Whole runs -/

theorem System.Wakeful.step {s s' : System} {a : Action} {e : Option Event} (h : s.Wakeful) (hcare : s.Careful a)
    (hstep : s.step a = some (s', e)) : s'.Wakeful := by
  cases a with
  | call t c =>
    simp only [System.step] at hstep
    split_ifs at hstep with hcall
    obtain ⟨ht, henabled, hactive, hpc⟩ := hcall
    have hrun : s.Runs t := ⟨ht, henabled, hactive⟩
    cases hrefusal : s.refusal c with
    | none =>
      rw [hrefusal] at hstep
      cases hstep
      refine h.call hrun hpc ?_ fun _ hc => by cases hc
      obtain ⟨-, hcare⟩ := hcare
      cases c with
      | receive c => exact hcare
      | send c =>
        simp only [System.refusal] at hrefusal
        split_ifs at hrefusal with hrdwr hlen
        exact ⟨hcare.1, hcare.2, Nat.le_of_not_lt hlen⟩
    | some err =>
      rw [hrefusal] at hstep
      cases hstep
      exact h.call hrun hpc trivial fun _ hc => by cases hc
  | exec t now =>
    simp only [System.step] at hstep
    split_ifs at hstep with hexec
    obtain ⟨henabled, hactive, hne⟩ := hexec
    have hafter := h.exec ⟨h.mem_ids hne, henabled, hactive⟩ now hcare
    rw [Option.some.inj hstep] at hafter
    exact hafter
  | env sched => exact absurd hcare id

end Mqueue

end CoActionOS
