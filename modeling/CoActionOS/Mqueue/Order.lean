import CoActionOS.Lib.PriorityQueue
import CoActionOS.Mqueue.Basic
import Mathlib.Data.List.Nodup
import Mathlib.Data.List.Perm.Subperm
import Mathlib.Data.Nat.Basic
import Mathlib.Tactic.Common

/-!
# A queue used by one thread

What a message queue is for is a bounded stable priority queue (`Queue`).  The table refines it as long as,
at every receive, the message that is due stands out in the `int`s that hold priorities and ages: a priority
above `INT_MAX` turns negative there, and the running age wraps.

The refinement relation `Refines` keeps for every stored message the entry it is in.
-/

namespace CoActionOS

namespace Mqueue

open Function PriorityQueue

/-! ### Bounded stable priority queues -/

/-- A message that was the `seq`-th to be sent. -/
structure Stored where
  seq : Nat
  msgPrio : UInt32
  msg : List UInt8
  deriving DecidableEq, Repr

/-- `stored` is in the order the messages were sent in. -/
structure Queue where
  capacity : Nat
  sent : Nat
  stored : List Stored
  deriving DecidableEq, Repr

inductive Op
  | send (msg : List UInt8) (msgPrio : UInt32)
  | receive (msgLen : Nat)
  deriving DecidableEq, Repr

/-- The message fits the queue, the buffer holds any message. -/
def Op.Fits (maxSize : Nat) : Op → Prop
  | .send msg _ => 1 ≤ msg.length ∧ msg.length ≤ maxSize
  | .receive msgLen => maxSize ≤ msgLen

def Op.receives : Op → Bool
  | .send .. => false
  | .receive _ => true

instance (maxSize : Nat) : (op : Op) → Decidable (op.Fits maxSize)
  | .send .. => inferInstanceAs (Decidable (_ ∧ _))
  | .receive _ => inferInstanceAs (Decidable (_ ≤ _))

namespace Queue

/-- The message that is due, and the others. -/
def due (q : Queue) : Option (Stored × List Stored) := dequeue (fun m => m.msgPrio.toNat) q.stored

def apply (q : Queue) : Op → Queue × Reply
  | .send msg msgPrio =>
    if q.stored.length < q.capacity then
      ({ q with sent := q.sent + 1, stored := q.stored ++ [⟨q.sent, msgPrio, msg⟩] }, .sent msg.length)
    else (q, .failed (some .eagain))
  | .receive _ =>
    match q.due with
    | none => (q, .failed (some .eagain))
    | some (m, rest) => ({ q with stored := rest }, .received m.msg m.msgPrio)

/-- The message that is due is older than those of its priority also by the age in an `int`, and its priority
is one that an `int` holds.  A priority of `UINT_MAX` is taken for `-1`, which is found as long as no stored
priority is non-negative. -/
def Ordered (q : Queue) : Prop :=
  match q.due with
  | none => True
  | some (m, rest) =>
    (∀ m' ∈ rest, m'.msgPrio = m.msgPrio → intOf m.seq < intOf m'.seq) ∧
      (m.msgPrio.toNat < 2 ^ 31 ∨
        m.msgPrio.toNat = 2 ^ 32 - 1 ∧ intOf m.seq ≠ intMax ∧ ∀ m' ∈ rest, 2 ^ 31 ≤ m'.msgPrio.toNat)

instance (q : Queue) : Decidable q.Ordered :=
  match h : q.due with
  | none => .isTrue (by unfold Ordered; rw [h]; trivial)
  | some (m, rest) =>
    decidable_of_iff
      ((∀ m' ∈ rest, m'.msgPrio = m.msgPrio → intOf m.seq < intOf m'.seq) ∧
        (m.msgPrio.toNat < 2 ^ 31 ∨
          m.msgPrio.toNat = 2 ^ 32 - 1 ∧ intOf m.seq ≠ intMax ∧ ∀ m' ∈ rest, 2 ^ 31 ≤ m'.msgPrio.toNat))
      (by unfold Ordered; rw [h])

/-- The queue is ordered whenever a message is received. -/
def OrderedAll : Queue → List Op → Prop
  | _, [] => True
  | q, op :: ops => (op.receives = true → q.Ordered) ∧ OrderedAll (q.apply op).1 ops

instance decidableOrderedAll : (q : Queue) → (ops : List Op) → Decidable (OrderedAll q ops)
  | _, [] => inferInstanceAs (Decidable True)
  | q, op :: ops =>
    @instDecidableAnd _ _ (inferInstanceAs (Decidable (_ → _))) (decidableOrderedAll (q.apply op).1 ops)

end Queue

/-- A call with a descriptor for reading and writing that does not block. -/
def Mq.apply (mq : Mq) : Op → Mq × Reply
  | .send msg msgPrio => mqTimedsend (some ⟨true, true⟩) mq msg msgPrio
  | .receive msgLen => mqTimedreceive (some ⟨true, true⟩) mq msgLen

theorem intOf_of_lt {n : Nat} (h : n < 2 ^ 31) : intOf n = n := by
  unfold intOf
  rw [Nat.mod_eq_of_lt (by omega), if_pos h]

theorem intOf_of_ge {n : Nat} (h : 2 ^ 31 ≤ n) (hlt : n < 2 ^ 32) : intOf n = (n : Int) - 2 ^ 32 := by
  unfold intOf
  rw [Nat.mod_eq_of_lt hlt, if_neg (by omega)]

theorem intOf_le (n : Nat) : intOf n ≤ intMax := by
  unfold intOf intMax
  split_ifs <;> omega

/-- The running age counts the messages modulo `2 ^ 32`. -/
theorem intOf_succ (n : Nat) : intOf ((intOf n + 1) % 2 ^ 32).toNat = intOf (n + 1) := by
  have hmod : ((intOf n + 1) % 2 ^ 32).toNat = (n + 1) % 2 ^ 32 := by
    unfold intOf
    split_ifs <;> omega
  rw [hmod]
  unfold intOf
  rw [Nat.mod_mod]

theorem unsignedOf_intOf (p : UInt32) : unsignedOf (intOf p.toNat) = p := by
  have hlt := p.toNat_lt
  have hmod : (intOf p.toNat % 2 ^ 32).toNat = p.toNat := by
    unfold intOf
    split_ifs <;> omega
  unfold unsignedOf
  rw [hmod, UInt32.ofNat_toNat]

/-! ### The search for the message that is due -/

/-- An entry of this priority and age comes before what was found so far. -/
def Ahead (m : Message) (maxPrio maxAge : Int) : Prop :=
  maxPrio < m.prio ∨ m.prio = maxPrio ∧ m.age < maxAge

theorem visit_of_ahead {b : Best} {m : Message} (i : Nat) (hsize : m.size ≠ 0)
    (h : Ahead m b.maxPrio b.maxAge) : b.visit i m = ⟨m.prio, m.age, some i⟩ := by
  unfold Best.visit
  rw [if_pos hsize]
  rcases h with h | ⟨heq, hage⟩
  · rw [if_pos h]
  · rw [if_neg (by omega), if_pos heq, if_pos hage]

theorem visit_of_behind {m m' : Message} (i j : Nat) (h : Ahead m m'.prio m'.age) :
    Best.visit ⟨m.prio, m.age, some i⟩ j m' = ⟨m.prio, m.age, some i⟩ := by
  unfold Best.visit
  dsimp only
  rcases h with h | ⟨heq, hage⟩
  · rw [if_neg (show ¬ m'.prio > m.prio by omega), if_neg (show m'.prio ≠ m.prio by omega)]
    exact ite_self _
  · rw [if_neg (show ¬ m'.prio > m.prio by omega), if_pos heq.symm,
      if_neg (show ¬ m'.age < m.age by omega)]
    exact ite_self _

/-- Once the entry ahead of all others is found it stays. -/
theorem foldl_visit_found {table : Nat → Message} {i : Nat} (l : List Nat)
    (hall : ∀ j ∈ l, (table j).size ≠ 0 → j ≠ i → Ahead (table i) (table j).prio (table j).age) :
    l.foldl (fun (b : Best) j => b.visit j (table j)) ⟨(table i).prio, (table i).age, some i⟩ =
      ⟨(table i).prio, (table i).age, some i⟩ := by
  induction l with
  | nil => rfl
  | cons j l ih =>
    have hvisit : Best.visit ⟨(table i).prio, (table i).age, some i⟩ j (table j) =
        ⟨(table i).prio, (table i).age, some i⟩ := by
      by_cases hji : j = i
      · rw [hji]
        unfold Best.visit
        simp only [gt_iff_lt, ite_self]
      · by_cases hsize : (table j).size = 0
        · unfold Best.visit
          rw [if_neg (not_not.mpr hsize)]
        · exact visit_of_behind i j (hall j List.mem_cons_self hsize hji)
    rw [List.foldl_cons, hvisit]
    exact ih fun j hj => hall j (List.mem_cons_of_mem _ hj)

/-- The entry ahead of the starting values and of all others is found. -/
theorem foldl_visit {table : Nat → Message} {i : Nat} (hsize : (table i).size ≠ 0) (l : List Nat)
    (hi : i ∈ l)
    (hall : ∀ j ∈ l, (table j).size ≠ 0 → j ≠ i → Ahead (table i) (table j).prio (table j).age)
    (b : Best) (hb : Ahead (table i) b.maxPrio b.maxAge) :
    (l.foldl (fun (b : Best) j => b.visit j (table j)) b).current = some i := by
  induction l generalizing b with
  | nil => exact absurd hi List.not_mem_nil
  | cons j l ih =>
    have hl : ∀ j ∈ l, (table j).size ≠ 0 → j ≠ i → Ahead (table i) (table j).prio (table j).age :=
      fun j hj => hall j (List.mem_cons_of_mem _ hj)
    rw [List.foldl_cons]
    by_cases hji : j = i
    · rw [hji, visit_of_ahead i hsize hb, foldl_visit_found l hl]
    · have hil : i ∈ l := (List.mem_cons.mp hi).resolve_left (Ne.symm hji)
      -- what the other entry leaves is still behind the one that is due
      apply ih hil hl
      rcases visit_cases b j (table j) with h | ⟨hj, h⟩
      · rw [h]
        exact hb
      · rw [h]
        exact hall j List.mem_cons_self hj hji

/-! ### The table refines the queue -/

/-- An entry that holds message `m`. -/
structure Message.Holds (e : Message) (m : Stored) : Prop where
  prio : e.prio = intOf m.msgPrio.toNat
  size : e.size = m.msg.length
  age : e.age = intOf m.seq
  data : e.data.take m.msg.length = m.msg

/-- `places` are the stored messages, each with the entry it is in. -/
structure Refines (mq : Mq) (q : Queue) (places : List (Nat × Stored)) : Prop where
  stored : places.map Prod.snd = q.stored
  capacity : q.capacity = mq.maxMsgs
  curMsgs : mq.curMsgs = q.stored.length
  age : mq.age = intOf q.sent
  nodup : (places.map Prod.fst).Nodup
  holds : ∀ p ∈ places, p.1 < mq.maxMsgs ∧ (mq.msgTable p.1).Holds p.2
  used : ∀ p ∈ places, p.2.msg ≠ [] ∧ p.2.msg.length ≤ mq.maxSize
  occupied : ∀ i < mq.maxMsgs, (mq.msgTable i).size ≠ 0 → i ∈ places.map Prod.fst

section

variable {mq : Mq} {q : Queue} {places : List (Nat × Stored)}

/-- While messages are missing an entry is free. -/
theorem Refines.exists_free (h : Refines mq q places) (hlt : mq.curMsgs < mq.maxMsgs) :
    ∃ i ∈ mq.entries, (mq.msgTable i).size = 0 := by
  by_contra hnone
  have hsub : List.range mq.maxMsgs ⊆ places.map Prod.fst := by
    intro i hi
    exact h.occupied i (List.mem_range.mp hi) fun hz => hnone ⟨i, hi, hz⟩
  have hlen := (List.subperm_of_subset List.nodup_range hsub).length_le
  rw [List.length_range, List.length_map, ← List.length_map (f := Prod.snd), h.stored, ← h.curMsgs] at hlen
  omega

theorem Refines.not_mem_of_free (h : Refines mq q places) {i : Nat} (hfree : (mq.msgTable i).size = 0) :
    i ∉ places.map Prod.fst := by
  intro hi
  obtain ⟨p, hp, rfl⟩ := List.mem_map.mp hi
  exact (h.used p hp).1 (List.eq_nil_of_length_eq_zero ((h.holds p hp).2.size ▸ hfree))

theorem Refines.size_ne_zero (h : Refines mq q places) {p : Nat × Stored} (hp : p ∈ places) :
    (mq.msgTable p.1).size ≠ 0 := by
  rw [(h.holds p hp).2.size]
  exact fun hz => (h.used p hp).1 (List.eq_nil_of_length_eq_zero hz)

/-- The entry a message was put in: the size from the privileged call, the rest from the statements after it. -/
theorem filled_eq (i : Nat) (msg : List UInt8) (msgPrio : UInt32) :
    (((mq.claim i msg.length).copyIn i msg).setPrio i msgPrio).setAge i =
      { mq with
        curMsgs := mq.curMsgs + 1
        age := intOf ((mq.age + 1) % 2 ^ 32).toNat
        msgTable := update mq.msgTable i
          ⟨intOf msgPrio.toNat, msg.length, mq.age, msg ++ (mq.msgTable i).data.drop msg.length⟩ } := by
  simp only [Mq.setAge, Mq.setPrio, Mq.copyIn, Mq.claim, Mq.setEntry, update_self, update_idem]

theorem Refines.send (h : Refines mq q places) {msg : List UInt8} (msgPrio : UInt32)
    (hfits : (Op.send msg msgPrio).Fits mq.maxSize) :
    (mq.apply (.send msg msgPrio)).2 = (q.apply (.send msg msgPrio)).2 ∧
      ∃ places', Refines (mq.apply (.send msg msgPrio)).1 (q.apply (.send msg msgPrio)).1 places' := by
  obtain ⟨hpos, hle⟩ := hfits
  have hsize : ¬ mq.maxSize < msg.length := by omega
  simp only [Mq.apply, mqTimedsend, Queue.apply, if_true, if_neg hsize]
  by_cases hroom : mq.curMsgs < mq.maxMsgs
  · obtain ⟨j, hj, hfreej⟩ := h.exists_free hroom
    obtain ⟨i, hi⟩ : ∃ i, mq.firstFree = some i := by
      rw [← Option.isSome_iff_exists, Mq.firstFree, List.find?_isSome]
      exact ⟨j, hj, decide_eq_true hfreej⟩
    obtain ⟨himax, hfree⟩ := firstFree_spec hi
    have hnew := h.not_mem_of_free hfree
    have hroomq : q.stored.length < q.capacity := by
      rw [h.capacity, ← h.curMsgs]
      exact hroom
    have hcall : privSend mq msg.length = (mq.claim i msg.length, ⟨msg.length, i, none⟩) := by
      unfold privSend
      rw [if_pos hroom, hi]
    have hsent : (msg.length : Int) > 0 := by omega
    rw [hcall, if_pos hroomq]
    simp only [if_pos hsent, Int.toNat_natCast, filled_eq]
    refine ⟨trivial, places ++ [(i, ⟨q.sent, msgPrio, msg⟩)], ?_, h.capacity, ?_, ?_, ?_, ?_, ?_, ?_⟩
    · rw [List.map_append, h.stored, List.map_singleton]
    · rw [h.curMsgs, List.length_append, List.length_singleton]
    · rw [h.age]
      exact intOf_succ q.sent
    · rw [List.map_append, List.map_singleton]
      exact List.nodup_append_comm.mp (List.nodup_cons.mpr ⟨hnew, h.nodup⟩)
    · intro p hp
      rcases List.mem_append.mp hp with hp | hp
      · have hne : p.1 ≠ i := fun heq => hnew (heq ▸ List.mem_map_of_mem hp)
        dsimp only
        rw [update_of_ne hne]
        exact h.holds p hp
      · obtain rfl := List.mem_singleton.mp hp
        dsimp only
        rw [update_self]
        exact ⟨himax, rfl, rfl, h.age, List.take_left⟩
    · intro p hp
      rcases List.mem_append.mp hp with hp | hp
      · exact h.used p hp
      · obtain rfl := List.mem_singleton.mp hp
        refine ⟨?_, hle⟩
        rintro rfl
        exact absurd hpos (by decide)
    · intro k hk hsizek
      rw [List.map_append, List.mem_append, List.map_singleton, List.mem_singleton]
      by_cases hki : k = i
      · exact .inr hki
      · dsimp only at hsizek
        rw [update_of_ne hki] at hsizek
        exact .inl (h.occupied k hk hsizek)
  · have hroomq : ¬ q.stored.length < q.capacity := by
      rw [h.capacity, ← h.curMsgs]
      exact hroom
    have hcall : privSend mq msg.length = (mq, ⟨0, 0, none⟩) := by
      unfold privSend
      rw [if_neg hroom]
    rw [hcall, if_neg hroomq]
    exact ⟨rfl, places, h⟩

/-- What `priv_receive` looks for is the entry of the message that is due. -/
theorem Refines.best_eq (h : Refines mq q places) (hord : q.Ordered) {m : Stored} {rest : List Stored}
    (hdue : q.due = some (m, rest)) {pl pr : List (Nat × Stored)} {i : Nat}
    (hplaces : places = pl ++ (i, m) :: pr) (hrest : rest = (pl ++ pr).map Prod.snd)
    (hmax : ∀ m' ∈ rest, m'.msgPrio.toNat ≤ m.msgPrio.toNat) : mq.best.current = some i := by
  have himem : (i, m) ∈ places := by
    rw [hplaces]
    exact List.mem_append_right _ List.mem_cons_self
  obtain ⟨himax, hholds⟩ := h.holds (i, m) himem
  unfold Queue.Ordered at hord
  rw [hdue] at hord
  obtain ⟨hage, hprio⟩ := hord
  have hlt := m.msgPrio.toNat_lt
  apply foldl_visit (h.size_ne_zero himem) mq.entries (List.mem_range.mpr himax)
  · intro j hj hsize hne
    obtain ⟨p, hp, rfl⟩ := List.mem_map.mp (h.occupied j (List.mem_range.mp hj) hsize)
    have hprest : p.2 ∈ rest := by
      rw [hrest]
      apply List.mem_map_of_mem
      rw [hplaces, List.mem_append, List.mem_cons] at hp
      rcases hp with hp | rfl | hp
      · exact List.mem_append_left _ hp
      · exact absurd rfl hne
      · exact List.mem_append_right _ hp
    have hother := (h.holds p hp).2
    have hle := hmax p.2 hprest
    unfold Ahead
    rw [hholds.prio, hholds.age, hother.prio, hother.age]
    rcases Nat.lt_or_ge p.2.msgPrio.toNat m.msgPrio.toNat with hless | hge
    · left
      rcases hprio with hpos | ⟨hall, _, hneg⟩
      · rw [intOf_of_lt hpos, intOf_of_lt (by omega)]
        omega
      · have := hneg p.2 hprest
        rw [intOf_of_ge (by omega) hlt, intOf_of_ge this (by omega)]
        omega
    · have heq : p.2.msgPrio = m.msgPrio := UInt32.toNat_inj.mp (by omega)
      exact .inr ⟨by rw [heq], hage p.2 hprest heq⟩
  · unfold Ahead
    rw [hholds.prio, hholds.age]
    rcases hprio with hpos | ⟨hall, hne, _⟩
    · left
      rw [intOf_of_lt hpos]
      show (-1 : Int) < _
      omega
    · right
      rw [intOf_of_ge (by omega) hlt]
      refine ⟨show _ = (-1 : Int) by omega, Int.lt_iff_le_and_ne.mpr ⟨intOf_le m.seq, hne⟩⟩

theorem Refines.receive (h : Refines mq q places) (hord : q.Ordered) {msgLen : Nat}
    (hfits : (Op.receive msgLen).Fits mq.maxSize) :
    (mq.apply (.receive msgLen)).2 = (q.apply (.receive msgLen)).2 ∧
      ∃ places', Refines (mq.apply (.receive msgLen)).1 (q.apply (.receive msgLen)).1 places' := by
  simp only [Mq.apply, mqTimedreceive, Queue.apply]
  cases hdue : q.due with
  | none =>
    have hnil : q.stored = [] := (dequeue_eq_none_iff _ _).mp hdue
    have hcall : privReceive mq msgLen = (mq, ⟨0, 0, none⟩) := by
      unfold privReceive
      rw [if_neg (not_not.mpr (by rw [h.curMsgs, hnil]; rfl))]
    rw [hcall]
    exact ⟨rfl, places, h⟩
  | some p =>
    obtain ⟨m, rest⟩ := p
    obtain ⟨l, r, hstored, hrest, hl, hr⟩ := dequeue_spec _ hdue
    obtain ⟨pl, pmr, hplaces, hpl, hpmr⟩ := List.map_eq_append_iff.mp (h.stored.trans hstored)
    obtain ⟨⟨i, m'⟩, pr, rfl, hm, hpr⟩ := List.map_eq_cons_iff.mp hpmr
    obtain rfl : m' = m := hm
    have hrest' : rest = (pl ++ pr).map Prod.snd := by
      rw [hrest, List.map_append, hpl, hpr]
    -- the search of the table finds the entry of the message that is due
    have hbest : mq.best.current = some i := by
      apply h.best_eq hord hdue hplaces hrest'
      intro x hx
      rw [hrest] at hx
      rcases List.mem_append.mp hx with hx | hx
      · exact Nat.le_of_lt (hl x hx)
      · exact hr x hx
    have himem : (i, m') ∈ places := by
      rw [hplaces]
      exact List.mem_append_right _ List.mem_cons_self
    obtain ⟨himax, hholds⟩ := h.holds (i, m') himem
    obtain ⟨hne, hlen⟩ := h.used (i, m') himem
    have hpos : 0 < m'.msg.length := List.length_pos_of_ne_nil hne
    have hcur : mq.curMsgs ≠ 0 := by
      rw [h.curMsgs, hstored, List.length_append, List.length_cons]
      omega
    have hbuffer : ¬ msgLen < (mq.msgTable i).size := by
      have hle : mq.maxSize ≤ msgLen := hfits
      rw [hholds.size]
      omega
    have hcall : privReceive mq msgLen = (mq.release i, ⟨m'.msg.length, i, none⟩) := by
      unfold privReceive
      rw [if_pos hcur, hbest]
      dsimp only
      rw [if_neg hbuffer, hholds.size]
    have hgot : (m'.msg.length : Int) > 0 := by omega
    have hslot : (List.map Prod.fst (pl ++ (i, m') :: pr)).Nodup := hplaces ▸ h.nodup
    rw [List.map_append, List.map_cons, List.nodup_middle, List.nodup_cons, ← List.map_append] at hslot
    obtain ⟨hgone, hnodup⟩ := hslot
    have hsub : ∀ p ∈ pl ++ pr, p ∈ places := by
      intro p hp
      rw [hplaces, List.mem_append, List.mem_cons]
      rcases List.mem_append.mp hp with hp | hp
      · exact .inl hp
      · exact .inr (.inr hp)
    rw [hcall]
    simp only [if_pos hgot, Int.toNat_natCast, Mq.release, Mq.setEntry, update_self]
    refine ⟨?_, pl ++ pr, hrest'.symm, h.capacity, ?_, h.age, hnodup, ?_, fun p hp => h.used p (hsub p hp), ?_⟩
    · rw [hholds.data, hholds.prio, unsignedOf_intOf]
    · show mq.curMsgs - 1 = rest.length
      rw [h.curMsgs, hstored, hrest, List.length_append, List.length_append, List.length_cons]
      omega
    -- the other entries are not touched
    · intro p hp
      have hpi : p.1 ≠ i := by
        intro heq
        rw [← heq] at hgone
        exact hgone (List.mem_map.mpr ⟨p, hp, rfl⟩)
      dsimp only
      rw [update_of_ne hpi]
      exact h.holds p (hsub p hp)
    · intro k hk hsizek
      dsimp only at hsizek
      have hki : k ≠ i := by
        rintro rfl
        rw [update_self] at hsizek
        exact hsizek rfl
      rw [update_of_ne hki] at hsizek
      have hk' := h.occupied k hk hsizek
      rw [hplaces, List.map_append, List.map_cons, List.mem_append, List.mem_cons] at hk'
      rw [List.map_append, List.mem_append]
      rcases hk' with hk' | hk' | hk'
      · exact .inl hk'
      · exact absurd hk' hki
      · exact .inr hk'

/-- A call on the table and on the queue. -/
theorem Refines.apply (h : Refines mq q places) {op : Op} (hfits : op.Fits mq.maxSize)
    (hord : op.receives = true → q.Ordered) :
    (mq.apply op).2 = (q.apply op).2 ∧ ∃ places', Refines (mq.apply op).1 (q.apply op).1 places' := by
  cases op with
  | send msg msgPrio => exact h.send msgPrio hfits
  | receive msgLen => exact h.receive (hord rfl) hfits

end

/-- No call changes the size of the messages a queue takes. -/
theorem maxSize_apply (mq : Mq) (op : Op) : (mq.apply op).1.maxSize = mq.maxSize := by
  cases op with
  | send msg msgPrio =>
    have hpriv : (privSend mq msg.length).1.maxSize = mq.maxSize := by
      unfold privSend
      split_ifs
      · split <;> rfl
      · rfl
    simp only [Mq.apply, mqTimedsend, if_true]
    split_ifs
    · rfl
    · exact hpriv
    · exact hpriv
  | receive msgLen =>
    have hpriv : (privReceive mq msgLen).1.maxSize = mq.maxSize := by
      unfold privReceive
      split_ifs
      · split
        · dsimp only
          split_ifs <;> rfl
        · rfl
      · rfl
    simp only [Mq.apply, mqTimedreceive, if_true]
    split_ifs
    · exact hpriv
    · exact hpriv
    · exact hpriv

/-! ### Queues that stay ordered -/

/-- Priorities up to `MQ_PRIO_MAX`. -/
def Op.PrioFits : Op → Prop
  | .send _ msgPrio => msgPrio.toNat < 2 ^ 31
  | .receive _ => True

/-- The messages are stored in the order of their numbers, with priorities up to `MQ_PRIO_MAX`. -/
structure Queue.Sorted (q : Queue) : Prop where
  sorted : q.stored.Pairwise (fun m m' => m.seq < m'.seq)
  seq : ∀ m ∈ q.stored, m.seq < q.sent
  prio : ∀ m ∈ q.stored, m.msgPrio.toNat < 2 ^ 31

/-- The queue stays sorted and at most one more message is sent. -/
theorem Queue.Sorted.apply {q : Queue} (h : q.Sorted) {op : Op} (hop : op.PrioFits) :
    (q.apply op).1.Sorted ∧ (q.apply op).1.sent ≤ q.sent + 1 := by
  cases op with
  | send msg msgPrio =>
    unfold Queue.apply
    split_ifs with hroom
    · refine ⟨⟨?_, ?_, ?_⟩, Nat.le_refl _⟩
      · rw [List.pairwise_append]
        refine ⟨h.sorted, List.pairwise_singleton _ _, fun m hm m' hm' => ?_⟩
        obtain rfl := List.mem_singleton.mp hm'
        exact h.seq m hm
      · intro m hm
        rcases List.mem_append.mp hm with hm | hm
        · exact Nat.lt_succ_of_lt (h.seq m hm)
        · obtain rfl := List.mem_singleton.mp hm
          exact Nat.lt_succ_self _
      · intro m hm
        rcases List.mem_append.mp hm with hm | hm
        · exact h.prio m hm
        · obtain rfl := List.mem_singleton.mp hm
          exact hop
    · exact ⟨h, Nat.le_succ _⟩
  | receive msgLen =>
    unfold Queue.apply
    cases hdue : q.due with
    | none => exact ⟨h, Nat.le_succ _⟩
    | some p =>
      obtain ⟨m, rest⟩ := p
      obtain ⟨l, r, hstored, hrest, _, _⟩ := dequeue_spec _ hdue
      have hsub : rest.Sublist q.stored := by
        rw [hstored, hrest]
        exact List.Sublist.append_left (List.sublist_cons_self m r) l
      exact ⟨⟨h.sorted.sublist hsub, fun m hm => h.seq m (hsub.subset hm),
        fun m hm => h.prio m (hsub.subset hm)⟩, Nat.le_succ _⟩

/-- While fewer than `2 ^ 31` messages were sent the ages keep the order. -/
theorem Queue.Sorted.ordered {q : Queue} (h : q.Sorted) (hsent : q.sent ≤ 2 ^ 31) : q.Ordered := by
  unfold Queue.Ordered
  cases hdue : q.due with
  | none => trivial
  | some p =>
    obtain ⟨m, rest⟩ := p
    obtain ⟨l, r, hstored, hrest, hl, _⟩ := dequeue_spec _ hdue
    have hm : m ∈ q.stored := by
      rw [hstored]
      exact List.mem_append_right _ List.mem_cons_self
    refine ⟨?_, .inl (h.prio m hm)⟩
    intro m' hm' heq
    rw [hrest] at hm'
    rcases List.mem_append.mp hm' with hm' | hm'
    · exact absurd (hl m' hm') (by rw [heq]; exact Nat.lt_irrefl _)
    · have hlt : m.seq < m'.seq := by
        have hsorted := h.sorted
        rw [hstored, List.pairwise_append, List.pairwise_cons] at hsorted
        exact hsorted.2.1.1 m' hm'
      have hseq := h.seq m' (by rw [hstored]; exact List.mem_append_right _ (List.mem_cons_of_mem _ hm'))
      rw [intOf_of_lt (by omega), intOf_of_lt (by omega)]
      omega

/-- A queue used with priorities up to `MQ_PRIO_MAX` for at most `2 ^ 31` messages. -/
theorem Queue.Sorted.orderedAll {q : Queue} (h : q.Sorted) (ops : List Op) (hops : ∀ op ∈ ops, op.PrioFits)
    (hsent : q.sent + ops.length ≤ 2 ^ 31) : q.OrderedAll ops := by
  induction ops generalizing q with
  | nil => trivial
  | cons op ops ih =>
    obtain ⟨h', hle⟩ := h.apply (hops op List.mem_cons_self)
    rw [List.length_cons] at hsent
    exact ⟨fun _ => h.ordered (by omega),
      ih h' (fun op' hop' => hops op' (List.mem_cons_of_mem _ hop')) (by omega)⟩

theorem refines_new {attr : MqAttr} {allocated : Bool} {mq : Mq} (hnew : mqOpenNew attr allocated = .ok mq) :
    Refines mq ⟨attr.mqMaxmsg.toNat, 0, []⟩ [] := by
  unfold mqOpenNew at hnew
  split_ifs at hnew
  obtain rfl := Except.ok.inj hnew
  exact
    { stored := rfl
      capacity := rfl
      curMsgs := rfl
      age := rfl
      nodup := List.nodup_nil
      holds := fun _ hp => absurd hp List.not_mem_nil
      used := fun _ hp => absurd hp List.not_mem_nil
      occupied := fun _ _ hsize => absurd rfl hsize }

end Mqueue

end CoActionOS
