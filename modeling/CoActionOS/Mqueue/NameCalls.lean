import CoActionOS.Mqueue.Names

/-!
# The calls on message queues

`queues_by_name` says that the list is what its names make of it: however the calls of all processes follow each other,
each is answered as `Channels` says.  A queue goes with its last descriptor, and until then every message that was sent
is received once, the oldest of the highest priority first, by whatever descriptors of its name.
-/

namespace CoActionOS

namespace Mqueue

open CString (text)
open NameTable

/-! ### One queue -/

namespace Names

/-- The table of a queue is what was sent by its name. -/
structure Follows (mq : Mq) (c : Channel) : Prop where
  maxSize : mq.maxSize = c.maxSize
  sorted : c.queue.Sorted
  refines : ∃ places, Refines mq c.queue places

variable {mq : Mq} {c : Channel} {msg : List UInt8} {msgPrio : UInt32} {msgLen : Nat} {flags : MqFlags}

/-- The flags of a descriptor only tell whether to wait. -/
theorem mqTimedsend_of_rdwr (hrdwr : flags.rdwr = true) (hsize : ¬ mq.maxSize < msg.length) :
    mqTimedsend (some flags) mq msg msgPrio =
      ((mq.apply (.send msg msgPrio)).1,
        if (mq.apply (.send msg msgPrio)).2 = .failed (some .eagain) then waits flags
        else (mq.apply (.send msg msgPrio)).2) := by
  simp only [Mq.apply, mqTimedsend, if_pos hrdwr, if_true, if_neg hsize]
  by_cases hsent : (privSend mq msg.length).2.size > 0
  · simp only [if_pos hsent, reduceCtorEq, if_false]
  · simp only [if_neg hsent, if_true, waits]
    split <;> rfl

theorem Follows.send (h : Follows mq c) (hpos : 1 ≤ msg.length) (hprio : msgPrio.toNat < 2 ^ 31) :
    (mqTimedsend (some flags) mq msg msgPrio).2 = (c.send flags msg msgPrio).2 ∧
      Follows (mqTimedsend (some flags) mq msg msgPrio).1 (c.send flags msg msgPrio).1 := by
  rw [Channel.send]
  by_cases hrdwr : flags.rdwr = true
  · by_cases hsize : c.maxSize < msg.length
    · rw [if_pos hrdwr, if_pos hsize, mqTimedsend]
      simp only [if_pos hrdwr, h.maxSize, if_pos hsize]
      exact ⟨trivial, h⟩
    · obtain ⟨places, hrefines⟩ := h.refines
      have hsize' : ¬ mq.maxSize < msg.length := by rwa [h.maxSize]
      obtain ⟨hreply, places', hrefines'⟩ := hrefines.send msgPrio ⟨hpos, Nat.le_of_not_lt hsize'⟩
      have hsorted := (h.sorted.apply (show (Op.send msg msgPrio).PrioFits from hprio)).1
      have hmax : (mq.apply (.send msg msgPrio)).1.maxSize = c.maxSize := (maxSize_apply mq _).trans h.maxSize
      rw [if_pos hrdwr, if_neg hsize, mqTimedsend_of_rdwr hrdwr hsize', hreply]
      by_cases hroom : c.queue.stored.length < c.queue.capacity
      · rw [if_pos hroom]
        refine ⟨?_, hmax, hsorted, places', hrefines'⟩
        simp only [Queue.apply, if_pos hroom, reduceCtorEq, if_false]
      · have hfull : c.queue.apply (.send msg msgPrio) = (c.queue, .failed (some .eagain)) := by
          rw [Queue.apply, if_neg hroom]
        rw [hfull] at hrefines' ⊢
        rw [if_neg hroom]
        refine ⟨?_, hmax, h.sorted, places', hrefines'⟩
        simp only [if_true]
  · rw [if_neg hrdwr, mqTimedsend]
    simp only [if_neg hrdwr]
    exact ⟨trivial, h⟩

/-- The message that is due is in the entry that `priv_receive` finds. -/
theorem Follows.due (h : Follows mq c) (hsent : c.queue.sent ≤ 2 ^ 31) {m : Stored} {rest : List Stored}
    (hdue : c.queue.due = some (m, rest)) :
    ∃ i, mq.curMsgs ≠ 0 ∧ mq.best.current = some i ∧ (mq.msgTable i).size = m.msg.length ∧
      m.msg.length ≤ mq.maxSize ∧ 0 < m.msg.length := by
  obtain ⟨places, hrefines⟩ := h.refines
  have hreply := (hrefines.receive (h.sorted.ordered hsent) (Nat.le_refl mq.maxSize)).1
  rw [Queue.apply, hdue, Mq.apply, mqTimedreceive] at hreply
  rcases privReceive_cases mq mq.maxSize with ⟨i, hcur, hbest, -, hcall⟩ | ⟨args, hsize, hcall⟩
  · obtain ⟨hi, hne⟩ := best_spec hbest
    obtain ⟨⟨j, m'⟩, hmem, hj⟩ := List.mem_map.mp (hrefines.occupied i hi hne)
    obtain rfl : j = i := hj
    have hholds := (hrefines.holds _ hmem).2
    obtain ⟨hnil, hle⟩ := hrefines.used _ hmem
    -- what is answered is the message of the entry
    have hpos : ((mq.msgTable j).size : Int) > 0 := by omega
    simp only [hcall, if_pos hpos, Mq.release, Mq.setEntry, Function.update_self, Int.toNat_natCast,
      Reply.received.injEq] at hreply
    have hmsg : m'.msg = m.msg := by
      rw [← hreply.1, hholds.size, hholds.data]
    refine ⟨j, hcur, hbest, ?_, ?_, ?_⟩
    · rw [hholds.size, hmsg]
    · rwa [← hmsg]
    · rw [← hmsg]
      exact List.length_pos_iff.mpr hnil
  · -- a call that receives nothing does not answer a message
    have hnot : ¬ args.size > 0 := by omega
    simp only [hcall, if_neg hnot] at hreply
    split_ifs at hreply

theorem Follows.receive (h : Follows mq c) (hsent : c.queue.sent ≤ 2 ^ 31) :
    (mqTimedreceive (some flags) mq msgLen).2 = (c.receive flags msgLen).2 ∧
      Follows (mqTimedreceive (some flags) mq msgLen).1 (c.receive flags msgLen).1 := by
  obtain ⟨places, hrefines⟩ := h.refines
  rw [Channel.receive]
  cases hdue : c.queue.due with
  | none =>
    have hnil : c.queue.stored = [] := (PriorityQueue.dequeue_eq_none_iff _ _).mp hdue
    have hcall : privReceive mq msgLen = (mq, ⟨0, 0, none⟩) := by
      rw [privReceive, if_neg (not_not.mpr (by rw [hrefines.curMsgs, hnil]; rfl))]
    simp only [mqTimedreceive, hcall, waits, gt_iff_lt, Int.lt_irrefl, if_false]
    split
    · exact ⟨rfl, h⟩
    · exact ⟨rfl, h⟩
  | some p =>
    obtain ⟨m, rest⟩ := p
    obtain ⟨i, hcur, hbest, hsize, hle, hpos⟩ := h.due hsent hdue
    dsimp only
    by_cases hshort : msgLen < m.msg.length
    · have hcall : privReceive mq msgLen = (mq, ⟨-1, i, some .emsgsize⟩) := by
        rw [privReceive, if_pos hcur, hbest]
        simp only [hsize, if_pos hshort]
      rw [if_pos hshort, mqTimedreceive]
      simp only [hcall]
      exact ⟨rfl, h⟩
    · -- a buffer that is long enough is as good as one for any message
      have hcall : ∀ len, ¬ len < m.msg.length → privReceive mq len = (mq.release i, ⟨m.msg.length, i, none⟩) := by
        intro len hlen
        rw [privReceive, if_pos hcur, hbest]
        simp only [hsize, if_neg hlen]
      have hgot : (m.msg.length : Int) > 0 := by omega
      have hsame : mqTimedreceive (some flags) mq msgLen = mq.apply (.receive mq.maxSize) := by
        rw [Mq.apply, mqTimedreceive, mqTimedreceive]
        simp only [hcall msgLen hshort, hcall mq.maxSize (by omega), if_pos hgot]
      obtain ⟨hreply, places', hrefines'⟩ := hrefines.receive (h.sorted.ordered hsent) (Nat.le_refl mq.maxSize)
      have hsorted := (h.sorted.apply (show (Op.receive mq.maxSize).PrioFits from trivial)).1
      have happly : c.queue.apply (.receive mq.maxSize) =
          ({ c.queue with stored := rest }, .received m.msg m.msgPrio) := by
        rw [Queue.apply, hdue]
      rw [happly] at hreply hrefines' hsorted
      rw [if_neg hshort, hsame]
      exact ⟨hreply, (maxSize_apply mq _).trans h.maxSize, hsorted, places', hrefines'⟩

theorem follows_new {attr : MqAttr} {allocated : Bool} (hnew : mqOpenNew attr allocated = .ok mq) :
    Follows mq (.new attr) := by
  refine ⟨?_, ⟨List.Pairwise.nil, ?_, ?_⟩, [], refines_new hnew⟩
  · unfold mqOpenNew at hnew
    split_ifs at hnew
    obtain rfl := Except.ok.inj hnew
    rfl
  · exact fun _ hm => absurd hm List.not_mem_nil
  · exact fun _ hm => absurd hm List.not_mem_nil

end Names

/-! ### The list -/

variable {list : List MqT} {name : List UInt8}

theorem text_copyName (entry : Vector UInt8 nameMax) (hzero : 0 ∉ name) (hlen : name.length < nameMax) :
    text (copyName entry name).toList = name := by
  have hget : ∀ j, j < name.length + 1 → (copyName entry name).toList[j]? = some ((name[j]?).getD 0) := by
    intro j hj
    have hlt : j < nameMax := by omega
    rw [copyName, Vector.toList_ofFn, List.getElem?_ofFn, dif_pos hlt, if_pos hj]
  apply CString.text_eq_of_getElem? hzero
  · intro j hj
    rw [hget j (by omega), List.getElem?_eq_getElem hj, Option.getD_some]
  · rw [hget _ (Nat.lt_succ_self _), List.getElem?_eq_none (Nat.le_refl _), Option.getD_none]

namespace Names

/-- The object that an entry is. -/
structure Serves (entry : MqT) (o : Object (List UInt8) Channel) : Prop where
  name : text entry.name.toList = o.name
  refs : entry.refs = o.holders
  unlinked : o.doomed = true ↔ entry.unlinkOnClose = 1
  queue : ∃ mq, entry.queue = some mq ∧ Follows mq o.value

def Represents (entry : MqT) : Option (Object (List UInt8) Channel) → Prop
  | none => entry.queue = none
  | some o => Serves entry o

theorem mqFindNamed_eq {t : Slots (List UInt8) Channel} (h : List.Forall₂ Represents list t) (hzero : 0 ∉ name)
    (hlen : name.length < nameMax) : mqFindNamed list name = find t name := by
  apply findIdx?_eq _ h
  intro entry x hx
  rw [CString.strncmpEq_eq hzero hlen (Nat.le_of_eq Vector.length_toList)]
  cases x with
  | none =>
    have hqueue : entry.queue = none := hx
    rw [hqueue]
    rfl
  | some o =>
    obtain ⟨mq, hqueue, -⟩ := hx.queue
    rw [hqueue, hx.name]
    rfl

theorem findIdx?_free {t : Slots (List UInt8) Channel} (h : List.Forall₂ Represents list t) :
    (list.findIdx? fun mq => mq.queue.isNone) = t.findIdx? fun x => x.isNone := by
  apply findIdx?_eq _ h
  intro entry x hx
  cases x with
  | none =>
    have hqueue : entry.queue = none := hx
    rw [hqueue]
    rfl
  | some o =>
    obtain ⟨mq, hqueue, -⟩ := hx.queue
    rw [hqueue]
    rfl

/-- The list is what its names make of it. -/
def Matches (list : List MqT) (a : Channels) : Prop := ∃ t, List.Forall₂ Represents list t ∧ Tracks t a

/-- A call is answered as expected, and the list is still what its names make of it. -/
def StepsTo (list : List MqT) (a : Channels) (c : Call) : Prop :=
  a.Expects c (exec list c).2 ∧ Matches (exec list c).1 (a.next c (exec list c).2)

variable {a : Channels} {i : Nat}

/-- The entry of a descriptor that is out. -/
theorem Matches.handle (h : Matches list a) (hheld : ∃ name, (i, name) ∈ a.held) :
    ∃ (hi : i < list.length) (o : _) (t : _), List.Forall₂ Represents list t ∧ Tracks t a ∧ Live t i o ∧
      (i, o.name) ∈ a.held ∧ a.object i = some o ∧ Serves list[i] o := by
  obtain ⟨t, hlist, htracks⟩ := h
  obtain ⟨name, hmem⟩ := hheld
  obtain ⟨o, hlive, rfl, hobject⟩ := htracks.of_held hmem
  obtain ⟨hi, hserves⟩ := hlive.entry hlist
  refine ⟨hi, o, t, hlist, htracks, hlive, hmem, ?_, hserves⟩
  rw [Channels.object, htracks.nameOf_eq hmem]
  exact hobject

/-- Another entry for a descriptor that is out. -/
theorem Matches.modify {t : Slots (List UInt8) Channel} (hlist : List.Forall₂ Represents list t)
    (hi : i < list.length) {f : MqT → MqT} {x : Option (Object (List UInt8) Channel)} (hx : Represents (f list[i]) x)
    (htracks : Tracks (place t i x) a) : Matches (list.modify i f) a :=
  ⟨_, forall₂_modify hlist hi f hx, htracks⟩

theorem represents_closed {entry : MqT} {o : Object (List UInt8) Channel} (h : Serves entry o)
    (hpos : 0 < o.holders) : Represents entry.closed o.released := by
  have hrefs := h.refs
  have hgt : entry.refs > 0 := by omega
  have hzero : entry.refs - 1 = 0 ↔ o.holders - 1 = 0 := by omega
  rw [MqT.closed, if_pos hgt, Object.released]
  simp only
  by_cases hlast : o.holders - 1 = 0 ∧ o.doomed = true
  · rw [if_pos hlast, if_pos ⟨hzero.mpr hlast.1, h.unlinked.mp hlast.2⟩]
    rfl
  · rw [if_neg hlast, if_neg fun hboth => hlast ⟨hzero.mp hboth.1, h.unlinked.mpr hboth.2⟩]
    refine ⟨h.name, ?_, h.unlinked, h.queue⟩
    simp only
    omega

theorem Matches.close (h : Matches list a) {mqdes : Option Mqdes} (hc : a.Permits (.close mqdes)) :
    StepsTo list a (.close mqdes) := by
  cases mqdes with
  | none => exact ⟨rfl, h⟩
  | some mqdes =>
    obtain ⟨hi, o, t, hlist, htracks, hlive, hmem, hobject, hserves⟩ := h.handle hc
    have hpos : 0 < o.holders := by
      rw [htracks.sound.counted _ o hlive]
      exact List.count_pos_iff.mpr (List.mem_map.mpr ⟨_, hmem, rfl⟩)
    have hnext : a.next (.close (some mqdes)) .done = a.put o.name o.released (a.held.without mqdes.mq o.name) := by
      rw [Channels.next, hobject]
    refine ⟨rfl, ?_⟩
    show Matches (list.modify mqdes.mq MqT.closed) (a.next (.close (some mqdes)) .done)
    rw [hnext]
    exact Matches.modify hlist hi (represents_closed hserves hpos) (htracks.release hlive hmem)

theorem queueAt_eq (hi : i < list.length) : queueAt list i = list[i].queue := by
  rw [queueAt, List.getElem?_eq_getElem hi]
  rfl

theorem Follows.stat (h : Follows mq c) : (⟨mq.maxMsgs, mq.maxSize, mq.curMsgs, flags⟩ : MqStat) = c.stat flags := by
  obtain ⟨places, hrefines⟩ := h.refines
  rw [Channel.stat, hrefines.capacity, hrefines.curMsgs, h.maxSize]

theorem Matches.getattr (h : Matches list a) {mqdes : Mqdes} (hc : a.Permits (.getattr mqdes)) :
    StepsTo list a (.getattr mqdes) := by
  obtain ⟨hi, o, t, hlist, htracks, hlive, hmem, hobject, hserves⟩ := h.handle hc
  obtain ⟨mq, hqueue, hfollows⟩ := hserves.queue
  refine ⟨⟨o, hobject, ?_⟩, h⟩
  rw [← hfollows.stat]
  show Answer.of .stat (mqGetattr list mqdes) = _
  rw [mqGetattr, queueAt_eq hi, hqueue]
  rfl

/-- A call on the queue of a descriptor that is out. -/
theorem Matches.onQueue (h : Matches list a) {mqdes : Mqdes} (hheld : ∃ name, (mqdes.mq, name) ∈ a.held)
    (call : Mqd → Mq → Mq × Reply) (spec : Channel → Channel × Reply)
    (hcall : ∀ o mq, a.object mqdes.mq = some o → Follows mq o.value →
      (call (some mqdes.flags) mq).2 = (spec o.value).2 ∧ Follows (call (some mqdes.flags) mq).1 (spec o.value).1) :
    (∃ o, a.object mqdes.mq = some o ∧ (Mqueue.onQueue list (some mqdes) call).2 = (spec o.value).2) ∧
      Matches (Mqueue.onQueue list (some mqdes) call).1 (a.setValue mqdes.mq fun c => (spec c).1) := by
  obtain ⟨hi, o, t, hlist, htracks, hlive, hmem, hobject, hserves⟩ := h.handle hheld
  obtain ⟨mq, hqueue, hfollows⟩ := hserves.queue
  obtain ⟨hreply, hafter⟩ := hcall o mq hobject hfollows
  simp only [Mqueue.onQueue, queueAt_eq hi, hqueue]
  refine ⟨⟨o, hobject, hreply⟩, ?_⟩
  rw [Channels.setValue, hobject]
  exact Matches.modify hlist hi (x := some { o with value := (spec o.value).1 })
    ⟨hserves.name, hserves.refs, hserves.unlinked, _, rfl, hafter⟩
    (htracks.alter hlive rfl rfl (htracks.sound.needed _ o hlive))

theorem Matches.send (h : Matches list a) {mqdes : Option Mqdes} (hc : a.Permits (.send mqdes msg msgPrio)) :
    StepsTo list a (.send mqdes msg msgPrio) := by
  cases mqdes with
  | none => exact ⟨rfl, h⟩
  | some mqdes =>
    obtain ⟨hheld, hpos, hprio⟩ := hc
    obtain ⟨⟨o, hobject, hreply⟩, hmatches⟩ :=
      h.onQueue hheld (fun mqd mq => mqTimedsend mqd mq msg msgPrio) (fun c => c.send mqdes.flags msg msgPrio)
        fun o mq _ hfollows => hfollows.send hpos hprio
    exact ⟨⟨o, hobject, congrArg Answer.reply hreply⟩, hmatches⟩

theorem Matches.receive (h : Matches list a) {mqdes : Option Mqdes} (hc : a.Permits (.receive mqdes msgLen)) :
    StepsTo list a (.receive mqdes msgLen) := by
  cases mqdes with
  | none => exact ⟨rfl, h⟩
  | some mqdes =>
    obtain ⟨hheld, hsent⟩ := hc
    obtain ⟨⟨o, hobject, hreply⟩, hmatches⟩ :=
      h.onQueue hheld (fun mqd mq => mqTimedreceive mqd mq msgLen) (fun c => c.receive mqdes.flags msgLen)
        fun o mq hobject hfollows => hfollows.receive (hsent o hobject)
    exact ⟨⟨o, hobject, congrArg Answer.reply hreply⟩, hmatches⟩

theorem represents_unlinked {entry : MqT} {o : Object (List UInt8) Channel} (h : Serves entry o) :
    Represents entry.unlinked (if o.holders = 0 then none else some { o with doomed := true }) := by
  have hrefs := h.refs
  have hzero : entry.refs = 0 ↔ o.holders = 0 := by omega
  rw [MqT.unlinked]
  by_cases hnone : o.holders = 0
  · rw [if_pos hnone, if_pos (hzero.mpr hnone)]
    rfl
  · rw [if_neg hnone, if_neg fun hrefs => hnone (hzero.mp hrefs)]
    exact ⟨h.name, h.refs, iff_of_true rfl rfl, h.queue⟩

theorem length_toolong_iff : min name.length nameMax = nameMax ↔ nameMax ≤ name.length := by
  omega

theorem Matches.unlink (h : Matches list a) (hc : a.Permits (.unlink name)) : StepsTo list a (.unlink name) := by
  by_cases hlong : nameMax ≤ name.length
  · rw [StepsTo, exec, mqUnlink, if_pos (length_toolong_iff.mpr hlong), Channels.Expects, if_pos hlong]
    exact ⟨rfl, h⟩
  · obtain ⟨t, hlist, htracks⟩ := h
    have hfind := mqFindNamed_eq hlist hc (Nat.lt_of_not_le hlong)
    rw [StepsTo, exec, mqUnlink, if_neg fun hmin => hlong (length_toolong_iff.mp hmin), Channels.Expects,
      if_neg hlong, hfind]
    cases hnamed : find t name with
    | none =>
      rw [htracks.of_not_find hnamed]
      exact ⟨rfl, t, hlist, htracks⟩
    | some i =>
      obtain ⟨o, hlive, rfl, hobject⟩ := htracks.of_find hnamed
      obtain ⟨hi, hserves⟩ := hlive.entry hlist
      have hnext : a.next (.unlink o.name) .done =
          a.put o.name (if o.holders = 0 then none else some { o with doomed := true }) a.held := by
        rw [Channels.next, hobject]
      rw [hobject]
      refine ⟨rfl, ?_⟩
      show Matches (list.modify i MqT.unlinked) (a.next (.unlink o.name) .done)
      rw [hnext]
      refine Matches.modify hlist hi (represents_unlinked hserves) ?_
      split
      · next hzero => exact htracks.remove hlive hzero
      · next hpos => exact htracks.alter hlive rfl rfl fun _ => Nat.pos_of_ne_zero hpos

/-! ### Opening -/

section

variable {oflag : OFlag} {mode : UInt32} {attr : MqAttr} {memory : Option MqT} {allocated : Bool}

theorem Matches.open_existing (h : Matches list a) (hlong : ¬ nameMax ≤ name.length) (hzero : 0 ∉ name)
    (hfind : mqFindNamed list name = some i) : StepsTo list a (.open name oflag mode attr memory allocated) := by
  rw [StepsTo, exec, mqOpen, if_neg fun hmin => hlong (length_toolong_iff.mp hmin), Channels.Expects, if_neg hlong,
    hfind]
  obtain ⟨t, hlist, htracks⟩ := h
  rw [mqFindNamed_eq hlist hzero (Nat.lt_of_not_le hlong)] at hfind
  obtain ⟨o, hlive, rfl, hobject⟩ := htracks.of_find hfind
  obtain ⟨hi, hserves⟩ := hlive.entry hlist
  simp only [hobject]
  by_cases hexcl : oflag.creat = true ∧ oflag.excl = true
  · rw [if_pos hexcl, if_pos (by simpa using hexcl)]
    exact ⟨rfl, t, hlist, htracks⟩
  · rw [if_neg hexcl, if_neg (by simpa using hexcl)]
    refine ⟨⟨i, rfl, fun j m hmem => htracks.held_iff hlive hmem⟩, ?_⟩
    have hnext : a.next (.open o.name oflag mode attr memory allocated)
        (.opened ⟨i, ⟨oflag.wronly || oflag.rdwr, oflag.nonblock⟩⟩) =
          a.put o.name (some { o with holders := o.holders + 1 }) ((i, o.name) :: a.held) := by
      rw [Channels.next, hobject]
    show Matches (list.modify i fun new => { new with refs := new.refs + 1 })
      (a.next (.open o.name oflag mode attr memory allocated)
        (.opened ⟨i, ⟨oflag.wronly || oflag.rdwr, oflag.nonblock⟩⟩))
    rw [hnext]
    refine Matches.modify hlist hi (x := some { o with holders := o.holders + 1 }) ?_ (htracks.acquire hlive)
    refine ⟨hserves.name, ?_, hserves.unlinked, hserves.queue⟩
    simp only [hserves.refs]
    omega

/-- A free entry that is filled has a queue if there is memory for one. -/
theorem represents_opened (entry : MqT) (mode : UInt32) (allocated : Bool) (hzero : 0 ∉ name)
    (hlen : name.length < nameMax) (hvalid : ¬ (attr.mqMaxmsg ≤ 0 ∨ attr.mqMsgsize ≤ 0)) :
    Represents (entry.opened name mode attr allocated)
      (if allocated = true then some ⟨name, 1, false, .new attr⟩ else none) := by
  cases allocated with
  | true =>
    obtain ⟨mq, hmq⟩ : ∃ mq, mqOpenNew attr true = .ok mq := by
      rw [mqOpenNew, if_neg hvalid]
      exact ⟨_, rfl⟩
    refine ⟨text_copyName entry.name hzero hlen, rfl, ?_, mq, ?_, follows_new hmq⟩
    · exact iff_of_false Bool.false_ne_true (show (0 : Int) ≠ 1 by decide)
    · rw [MqT.opened, hmq]
      rfl
  | false =>
    show (mqOpenNew attr false).toOption = none
    rw [mqOpenNew, if_neg hvalid]
    rfl

/-- A free slot is filled, or stays free when there is no memory for a table. -/
theorem tracks_opened {t : Slots (List UInt8) Channel} (allocated : Bool) (attr : MqAttr) (htracks : Tracks t a)
    (hi : i ≤ t.length) (hvacant : ∀ o, ¬ Live t i o) (hnew : find t name = none) :
    Tracks (place t i (if allocated = true then some ⟨name, 1, false, .new attr⟩ else none))
      (if allocated = true then a.put name (some ⟨name, 1, false, .new attr⟩) ((i, name) :: a.held) else a) := by
  cases allocated with
  | true => exact htracks.create hi hvacant hnew _
  | false => exact htracks.vacant hi hvacant

/-- The answer of `mq_open` when it has an entry for a new queue, and what is known then. -/
theorem stepsTo_opened {t : Slots (List UInt8) Channel} (htracks : Tracks t a) (hi : i ≤ t.length)
    (hvacant : ∀ o, ¬ Live t i o) (hnew : find t name = none) (hvalid : ¬ (attr.mqMaxmsg ≤ 0 ∨ attr.mqMsgsize ≤ 0))
    (hlist : List.Forall₂ Represents list
      (place t i (if allocated = true then some ⟨name, 1, false, .new attr⟩ else none))) (flags : MqFlags) :
    ((allocated = true ∧
        ∃ mq, Answer.of .opened ((mqOpenNew attr allocated).map fun _ => ⟨i, flags⟩) = .opened ⟨mq, flags⟩ ∧
          ∀ j m, (j, m) ∈ a.held → j ≠ mq) ∨
      ((memory.isNone = true ∨ allocated = false) ∧
        Answer.of .opened ((mqOpenNew attr allocated).map fun _ => ⟨i, flags⟩) = .failed .enomem)) ∧
    Matches list (a.next (.open name oflag mode attr memory allocated)
      (Answer.of .opened ((mqOpenNew attr allocated).map fun _ => ⟨i, flags⟩))) := by
  have hmade := tracks_opened allocated attr htracks hi hvacant hnew
  rw [mqOpenNew, if_neg hvalid]
  cases allocated with
  | true =>
    refine ⟨Or.inl ⟨rfl, i, rfl, fun j m hmem hji => ?_⟩, ?_⟩
    · obtain ⟨o, hlive, -⟩ := htracks.of_held hmem
      exact hvacant o (hji ▸ hlive)
    · have hnext : a.next (.open name oflag mode attr memory true) (.opened ⟨i, flags⟩) =
          a.put name (some ⟨name, 1, false, .new attr⟩) ((i, name) :: a.held) := by
        rw [Channels.next, htracks.of_not_find hnew]
      show Matches list (a.next (.open name oflag mode attr memory true) (.opened ⟨i, flags⟩))
      rw [hnext]
      exact ⟨_, hlist, hmade⟩
  | false => exact ⟨Or.inr ⟨Or.inr rfl, rfl⟩, _, hlist, hmade⟩

theorem Matches.open_new (h : Matches list a) (hlong : ¬ nameMax ≤ name.length) (hzero : 0 ∉ name)
    (hfind : mqFindNamed list name = none) : StepsTo list a (.open name oflag mode attr memory allocated) := by
  have hlen := Nat.lt_of_not_le hlong
  rw [StepsTo, exec, mqOpen, if_neg fun hmin => hlong (length_toolong_iff.mp hmin), Channels.Expects, if_neg hlong,
    hfind]
  obtain ⟨t, hlist, htracks⟩ := h
  rw [mqFindNamed_eq hlist hzero hlen] at hfind
  simp only [htracks.of_not_find hfind]
  by_cases hcreat : oflag.creat = true
  · rw [if_pos hcreat, if_pos hcreat]
    by_cases hvalid : attr.mqMaxmsg ≤ 0 ∨ attr.mqMsgsize ≤ 0
    · rw [if_pos hvalid, if_pos hvalid]
      exact ⟨rfl, t, hlist, htracks⟩
    · rw [if_neg hvalid, if_neg hvalid, mqFindFree]
      cases hfree : list.findIdx? fun mq => mq.queue.isNone with
      | some i =>
        rw [findIdx?_free hlist] at hfree
        obtain ⟨hi, hvacant⟩ := free_of_findIdx? hfree
        have hi' : i < list.length := hlist.length_eq ▸ hi
        have hopened := forall₂_modify hlist hi' (fun new => new.opened name mode attr allocated)
          (represents_opened list[i] mode allocated hzero hlen hvalid)
        exact stepsTo_opened htracks (Nat.le_of_lt hi) hvacant hfind hvalid hopened _
      | none =>
        cases memory with
        | none => exact ⟨Or.inr ⟨Or.inl rfl, rfl⟩, t, hlist, htracks⟩
        | some entry =>
          have hvacant : ∀ o, ¬ Live t list.length o := by
            intro o hlive
            have hlt := (List.getElem?_eq_some_iff.mp hlive).1
            rw [hlist.length_eq] at hlt
            exact absurd hlt (Nat.lt_irrefl _)
          have hmodify : ((list ++ [entry]).modify list.length fun new => new.opened name mode attr allocated) =
              list ++ [entry.opened name mode attr allocated] := by
            rw [List.modify_eq_set_get _ (by simp)]
            simp
          have hopened := forall₂_append hlist (represents_opened entry mode allocated hzero hlen hvalid)
          rw [← hmodify] at hopened
          exact stepsTo_opened htracks (Nat.le_of_eq hlist.length_eq) hvacant hfind hvalid hopened _
  · rw [if_neg hcreat, if_neg hcreat]
    exact ⟨rfl, t, hlist, htracks⟩

theorem Matches.open (h : Matches list a) (hc : a.Permits (.open name oflag mode attr memory allocated)) :
    StepsTo list a (.open name oflag mode attr memory allocated) := by
  by_cases hlong : nameMax ≤ name.length
  · rw [StepsTo, exec, mqOpen, if_pos (length_toolong_iff.mpr hlong)]
    exact ⟨by rw [Channels.Expects, if_pos hlong]; rfl, h⟩
  · cases hfind : mqFindNamed list name with
    | some i => exact h.open_existing hlong hc hfind
    | none => exact h.open_new hlong hc hfind

end

theorem Matches.stepsTo (h : Matches list a) {c : Call} (hc : a.Permits c) : StepsTo list a c := by
  cases c with
  | «open» name oflag mode attr memory allocated => exact h.open hc
  | close mqdes => exact h.close hc
  | unlink name => exact h.unlink hc
  | getattr mqdes => exact h.getattr hc
  | send mqdes msg msgPrio => exact h.send hc
  | receive mqdes msgLen => exact h.receive hc

theorem matches_empty : Matches [] Account.empty := ⟨[], List.Forall₂.nil, Tracks.empty⟩

end Names

end Mqueue

end CoActionOS
