import CoActionOS.Mqueue.Waking
import Mathlib.Data.UInt

/-!
# How many messages a queue holds

A size of zero marks a free entry, is what `priv_send` reports when it has found none, and is a length a message may
have: a message of no bytes is counted in `cur_msgs` and leaves its entry free, and the call that sends it goes round
its loop.  `priv_receive` looks for a priority above `-1`, while priorities from `2 ^ 31` on are stored as negative
numbers: it then counts messages and finds none.

These two are all that can go wrong (`occupied_iff`): the count is that of the entries in use, and a send adds one
message, in every run without such a send and such a receive.
-/

namespace CoActionOS

namespace Mqueue

open Function

/-! ### The statement -/

/-- A queue shared by threads, and for each thread how many free entries its steps have filled since it was called. -/
structure Ledger where
  system : System
  added : Nat → Nat

namespace Ledger

variable (l : Ledger)

/-- What the step of a thread enters. -/
def note (s' : System) : Action → Nat → Nat
  | .call t _ => update l.added t 0
  | .exec t _ => update l.added t (l.added t + (s'.mq.taken \ l.system.mq.taken).card)
  | .env _ => l.added

/-- No call has been made. -/
def start (s : System) : Ledger := ⟨s, fun _ => 0⟩

def step (a : Action) : Option (Ledger × Option Event) :=
  (l.system.step a).map fun p => (⟨p.1, l.note p.1 a⟩, p.2)

/-- The count is right, a send that ends well has filled one entry and every other call none, and no receive fails
with `EIO`. -/
structure Occupied : Prop where
  count : l.system.mq.curMsgs = l.system.mq.taken.card
  le : l.system.mq.curMsgs ≤ l.system.mq.maxMsgs
  sent : ∀ t id n, l.system.pc t = .done (.sent id n) → l.added t = 1
  received : ∀ t id msg p, l.system.pc t = .done (.received id msg p) → l.added t = 0
  failed : ∀ t e, l.system.pc t = .done (.failed e) → l.added t = 0 ∧ e ≠ some .eio

end Ledger

/-- Some message in the table is ahead of what `priv_receive` starts with: its priority is not negative as an `int`,
or is `-1` with an age below `INT_MAX`. -/
def Mq.Visible (mq : Mq) : Prop :=
  ∃ i < mq.maxMsgs, (mq.msgTable i).size ≠ 0 ∧ Ahead (mq.msgTable i) (-1) intMax

instance (mq : Mq) : Decidable mq.Visible :=
  inferInstanceAs (Decidable (∃ i < mq.maxMsgs, _ ∧ (_ ∨ _ ∧ _)))

/-- A message of no bytes is sent to a full queue only, and a receive that counts messages sees one. -/
def System.Counts (s : System) : Action → Prop
  | .exec t _ =>
    match s.pc t with
    | .test (.send c) _ => c.msg = [] → s.mq.maxMsgs ≤ s.mq.curMsgs
    | .test (.receive _) _ => s.mq.curMsgs ≠ 0 → s.mq.Visible
    | _ => True
  | _ => True

instance (s : System) : (a : Action) → Decidable (s.Counts a)
  | .call _ _ => .isTrue trivial
  | .env _ => .isTrue trivial
  | .exec t _ => by
    dsimp only [System.Counts]
    exact match s.pc t with
      | .test (.send _) _ => inferInstance
      | .test (.receive _) _ => inferInstance
      | .idle | .copyIn .. | .setPrio .. | .readAge .. | .incAge .. | .setAge .. | .getPrio .. | .copyOut .. |
        .block _ | .asleep _ | .scan .. | .wake .. | .done _ => .isTrue trivial

/-! ### The search -/

theorem foldl_visit_ne_none {table : Nat → Message} (l : List Nat) {b : Best} (hb : b.current ≠ none) :
    (l.foldl (fun (b : Best) j => b.visit j (table j)) b).current ≠ none := by
  induction l generalizing b with
  | nil => exact hb
  | cons j l ih =>
    rw [List.foldl_cons]
    apply ih
    rcases visit_cases b j (table j) with hv | ⟨-, hv⟩
    · rw [hv]
      exact hb
    · rw [hv]
      exact Option.some_ne_none _

/-- An entry that is not ahead of the starting values is passed over. -/
theorem visit_start {m : Message} (i : Nat) (h : ¬ (m.size ≠ 0 ∧ Ahead m (-1) intMax)) :
    Best.visit ⟨-1, intMax, none⟩ i m = ⟨-1, intMax, none⟩ := by
  unfold Best.visit
  split_ifs with hsize hprio heq hage
  · exact absurd ⟨hsize, .inl hprio⟩ h
  · exact absurd ⟨hsize, .inr ⟨heq, hage⟩⟩ h
  · rfl
  · rfl
  · rfl

theorem foldl_visit_start {table : Nat → Message} (l : List Nat) :
    (l.foldl (fun (b : Best) j => b.visit j (table j)) ⟨-1, intMax, none⟩).current ≠ none ↔
      ∃ i ∈ l, (table i).size ≠ 0 ∧ Ahead (table i) (-1) intMax := by
  induction l with
  | nil => exact iff_of_false (fun h => h rfl) fun ⟨i, hi, _⟩ => absurd hi List.not_mem_nil
  | cons j l ih =>
    rw [List.foldl_cons]
    by_cases hj : (table j).size ≠ 0 ∧ Ahead (table j) (-1) intMax
    · refine iff_of_true ?_ ⟨j, List.mem_cons_self, hj⟩
      rw [visit_of_ahead j hj.1 hj.2]
      exact foldl_visit_ne_none l (Option.some_ne_none j)
    · rw [visit_start j hj, ih]
      constructor
      · rintro ⟨i, hi, h⟩
        exact ⟨i, List.mem_cons_of_mem j hi, h⟩
      · rintro ⟨i, hi, h⟩
        rcases List.mem_cons.mp hi with rfl | hi
        · exact absurd h hj
        · exact ⟨i, hi, h⟩

theorem best_ne_none_iff {mq : Mq} : mq.best.current ≠ none ↔ mq.Visible := by
  unfold Mq.best Mq.Visible
  rw [foldl_visit_start]
  simp only [Mq.entries, List.mem_range]

/-! ### The entries in use -/

section

variable {mq mq' : Mq}

theorem taken_congr (hmsgs : mq'.maxMsgs = mq.maxMsgs)
    (hsize : ∀ i, (mq'.msgTable i).size = (mq.msgTable i).size) : mq'.taken = mq.taken := by
  ext i
  rw [mem_taken, mem_taken, hmsgs, hsize]

theorem taken_card_le : mq.taken.card ≤ mq.maxMsgs := by
  have hle := Finset.card_filter_le (Finset.range mq.maxMsgs) fun i => (mq.msgTable i).size ≠ 0
  rw [Finset.card_range] at hle
  exact hle

end

/-- A receive that sees a message, or counts none, does not fail with `EIO`. -/
theorem privReceive_of_visible {mq : Mq} (h : mq.curMsgs ≠ 0 → mq.Visible) (msgLen : Nat) :
    (∃ i < mq.maxMsgs, (mq.msgTable i).size ≠ 0 ∧
      privReceive mq msgLen = (mq.release i, ⟨(mq.msgTable i).size, i, none⟩)) ∨
    ∃ args, args.size ≤ 0 ∧ args.errno ≠ some .eio ∧ privReceive mq msgLen = (mq, args) := by
  unfold privReceive
  split_ifs with hcur
  · have hfound := best_ne_none_iff.mpr (h hcur)
    cases hbest : mq.best.current with
    | none => exact absurd hbest hfound
    | some i =>
      obtain ⟨hi, hsize⟩ := best_spec hbest
      dsimp only
      split_ifs with hlen
      · exact .inr ⟨_, show (-1 : Int) ≤ 0 by decide, by exact nofun, rfl⟩
      · exact .inl ⟨i, hi, hsize, rfl⟩
  · exact .inr ⟨_, Int.le_refl 0, by exact nofun, rfl⟩

def Result.entries : Result → Nat
  | .sent .. => 1
  | _ => 0

/-- How many entries a call has filled; nothing is said of a thread that is in no call. -/
def Pc.entries : Pc → Option Nat
  | .idle => none
  | .test .. | .getPrio .. | .copyOut .. | .block _ | .asleep _ => some 0
  | .copyIn .. | .setPrio .. | .readAge .. | .incAge .. | .setAge .. => some 1
  | .scan r .. | .wake r _ | .done r => some r.entries

/-- The call is not going to fail with `EIO`. -/
def Pc.NoEio : Pc → Prop
  | .scan r .. | .wake r _ | .done r => r ≠ .failed (some .eio)
  | _ => True

namespace Ledger

structure Accounted (l : Ledger) : Prop where
  count : l.system.mq.curMsgs = l.system.mq.taken.card
  added : ∀ t n, (l.system.pc t).entries = some n → l.added t = n
  noEio : ∀ t, (l.system.pc t).NoEio

variable {l : Ledger}

theorem Accounted.occupied (h : l.Accounted) : l.Occupied where
  count := h.count
  le := h.count ▸ taken_card_le
  sent := fun t id n hpc => h.added t 1 (by rw [hpc]; rfl)
  received := fun t id msg p hpc => h.added t 0 (by rw [hpc]; rfl)
  failed := fun t e hpc => by
    have hno := h.noEio t
    rw [hpc] at hno
    exact ⟨h.added t 0 (by rw [hpc]; rfl), fun he => hno (by rw [he])⟩

/-- A statement of thread `t`. -/
theorem Accounted.advance (h : l.Accounted) {s' : System} {t now : Nat} {pc' : Pc}
    (hpc : s'.pc = update l.system.pc t pc') (hcount : s'.mq.curMsgs = s'.mq.taken.card)
    (hadded : ∀ n, pc'.entries = some n → l.added t + (s'.mq.taken \ l.system.mq.taken).card = n)
    (hno : pc'.NoEio) : Accounted ⟨s', l.note s' (.exec t now)⟩ where
  count := hcount
  added := fun u n hn => by
    change update l.added t _ u = n
    dsimp only at hn
    rw [hpc] at hn
    by_cases hu : u = t
    · subst hu
      rw [update_self] at hn ⊢
      exact hadded n hn
    · rw [update_of_ne hu] at hn ⊢
      exact h.added u n hn
  noEio := fun u => by
    dsimp only
    rw [hpc]
    by_cases hu : u = t
    · subst hu
      rw [update_self]
      exact hno
    · rw [update_of_ne hu]
      exact h.noEio u

/-- A statement that leaves the sizes alone. -/
theorem Accounted.fly (h : l.Accounted) {s' : System} {t now : Nat} {pc' : Pc}
    (hpc : s'.pc = update l.system.pc t pc') (hmsgs : s'.mq.maxMsgs = l.system.mq.maxMsgs)
    (hcur : s'.mq.curMsgs = l.system.mq.curMsgs)
    (hsize : ∀ i, (s'.mq.msgTable i).size = (l.system.mq.msgTable i).size)
    (hentries : ∀ n, pc'.entries = some n → (l.system.pc t).entries = some n) (hno : pc'.NoEio) :
    Accounted ⟨s', l.note s' (.exec t now)⟩ := by
  have htaken := taken_congr hmsgs hsize
  refine h.advance hpc ?_ (fun n hn => ?_) hno
  · rw [hcur, htaken]
    exact h.count
  · rw [htaken, Finset.sdiff_self, Finset.card_empty]
    exact h.added t n (hentries n hn)

theorem size_setEntry {mq : Mq} {i : Nat} {m : Message} (h : m.size = (mq.msgTable i).size) (j : Nat) :
    ((mq.setEntry i m).msgTable j).size = (mq.msgTable j).size := by
  change (update mq.msgTable i m j).size = _
  by_cases hj : j = i
  · rw [hj, update_self, h]
  · rw [update_of_ne hj]

/-- The send step. -/
theorem Accounted.send (h : l.Accounted) {t now : Nat} {c : SendCall} {again : Bool}
    (hpc : l.system.pc t = .test (.send c) again) (hcounts : c.msg = [] → l.system.mq.maxMsgs ≤ l.system.mq.curMsgs) :
    Accounted ⟨(l.system.stepTest t (.send c)).1, l.note (l.system.stepTest t (.send c)).1 (.exec t now)⟩ := by
  have hentries : (l.system.pc t).entries = some 0 := by rw [hpc]; rfl
  rcases privSend_cases l.system.mq c.msg.length with ⟨i, hroom, hfree, hcall⟩ | ⟨args, hargs, hcall⟩
  · have hmsg : c.msg ≠ [] := fun hnil => absurd (hcounts hnil) (by omega)
    have hlen : c.msg.length ≠ 0 := fun hz => hmsg (List.eq_nil_of_length_eq_zero hz)
    have hsent : (c.msg.length : Int) > 0 := by omega
    obtain ⟨hi, hsize⟩ := firstFree_spec hfree
    have hnot : i ∉ l.system.mq.taken := fun hmem => (mem_taken.mp hmem).2 hsize
    have htaken : (l.system.mq.claim i c.msg.length).taken = insert i l.system.mq.taken := taken_claim hi hlen
    simp only [System.stepTest, hcall, if_pos hsent]
    refine h.advance rfl ?_ (fun n hn => ?_) trivial
    · rw [htaken, Finset.card_insert_of_notMem hnot, ← h.count]
      rfl
    · obtain rfl := Option.some.inj hn
      rw [htaken, Finset.insert_sdiff_of_notMem _ hnot, Finset.sdiff_self, h.added t 0 hentries]
      rfl
  · have hsent : ¬ args.size > 0 := by omega
    simp only [System.stepTest, hcall, if_neg hsent]
    split_ifs
    · exact h.fly rfl rfl rfl (fun _ => rfl) (fun n hn => hentries.trans hn)
        fun he => by cases he
    · exact h.fly rfl rfl rfl (fun _ => rfl) (fun n hn => hentries.trans hn) trivial

/-- The receive step. -/
theorem Accounted.receive (h : l.Accounted) {t now : Nat} {c : ReceiveCall} {again : Bool}
    (hpc : l.system.pc t = .test (.receive c) again) (hcounts : l.system.mq.curMsgs ≠ 0 → l.system.mq.Visible) :
    Accounted ⟨(l.system.stepTest t (.receive c)).1,
      l.note (l.system.stepTest t (.receive c)).1 (.exec t now)⟩ := by
  have hentries : (l.system.pc t).entries = some 0 := by rw [hpc]; rfl
  rcases privReceive_of_visible hcounts c.msgLen with ⟨i, hi, hsize, hcall⟩ | ⟨args, hargs, herrno, hcall⟩
  · have hmem : i ∈ l.system.mq.taken := mem_taken.mpr ⟨hi, hsize⟩
    have hgot : ((l.system.mq.msgTable i).size : Int) > 0 := by omega
    have hcount : (l.system.mq.release i).curMsgs = (l.system.mq.release i).taken.card := by
      rw [taken_release, Finset.card_erase_of_mem hmem, ← h.count]
      rfl
    have hadded : l.added t + ((l.system.mq.release i).taken \ l.system.mq.taken).card = 0 := by
      rw [taken_release, Finset.sdiff_eq_empty_iff_subset.mpr (Finset.erase_subset _ _), h.added t 0 hentries]
      rfl
    simp only [System.stepTest, hcall, if_pos hgot]
    split_ifs
    · exact h.advance rfl hcount (fun n hn => hadded.trans (Option.some.inj hn)) trivial
    · exact h.advance rfl hcount (fun n hn => hadded.trans (Option.some.inj hn)) trivial
  · have hgot : ¬ args.size > 0 := by omega
    simp only [System.stepTest, hcall, if_neg hgot]
    split_ifs
    · exact h.fly rfl rfl rfl (fun _ => rfl) (fun n hn => hentries.trans hn)
        fun he => herrno (Result.failed.inj he)
    · exact h.fly rfl rfl rfl (fun _ => rfl) (fun n hn => hentries.trans hn)
        fun he => by cases he
    · exact h.fly rfl rfl rfl (fun _ => rfl) (fun n hn => hentries.trans hn) trivial

/-- A statement of a call. -/
theorem Accounted.exec (h : l.Accounted) {t : Nat} (now : Nat) (hcounts : l.system.Counts (.exec t now)) :
    Accounted ⟨(l.system.stepExec t now).1, l.note (l.system.stepExec t now).1 (.exec t now)⟩ := by
  have hno := h.noEio t
  unfold System.stepExec
  cases hpc : l.system.pc t with
  | idle =>
    have hidle : l.system.pc = update l.system.pc t .idle := (update_eq_self_iff.mpr hpc.symm).symm
    exact h.fly hidle rfl rfl (fun _ => rfl) (by exact nofun) trivial
  | test c again =>
    simp only [System.Counts, hpc] at hcounts
    cases c with
    | send c => exact h.send hpc hcounts
    | receive c => exact h.receive hpc hcounts
  | copyIn c i id k =>
    -- every byte written is one of the entry that was claimed
    refine h.fly rfl rfl rfl (size_setEntry rfl) (fun n hn => ?_) ?_
    · rw [hpc]
      split_ifs at hn <;> exact hn
    · split_ifs <;> trivial
  | setPrio c i id =>
    exact h.fly rfl rfl rfl (size_setEntry rfl) (fun n hn => by rw [hpc]; exact hn) trivial
  | readAge c i id => exact h.fly rfl rfl rfl (fun _ => rfl) (fun n hn => by rw [hpc]; exact hn) trivial
  | incAge c i id age => exact h.fly rfl rfl rfl (fun _ => rfl) (fun n hn => by rw [hpc]; exact hn) trivial
  | setAge c i id age =>
    exact h.fly rfl rfl rfl (size_setEntry rfl) (fun n hn => by rw [hpc]; exact hn) (by exact nofun)
  | getPrio i id size => exact h.fly rfl rfl rfl (fun _ => rfl) (fun n hn => by rw [hpc]; exact hn) trivial
  | copyOut i id size q got =>
    refine h.fly rfl rfl rfl (fun _ => rfl) (fun n hn => ?_) ?_
    · rw [hpc]
      split_ifs at hn <;> exact hn
    · split_ifs
      · trivial
      · exact nofun
  | block c => exact h.fly rfl rfl rfl (fun _ => rfl) (fun n hn => by rw [hpc]; exact hn) trivial
  | asleep c =>
    dsimp only
    split_ifs
    · exact h.fly rfl rfl rfl (fun _ => rfl) (fun n hn => by rw [hpc]; exact hn) (by exact nofun)
    · exact h.fly rfl rfl rfl (fun _ => rfl) (fun n hn => by rw [hpc]; exact hn) trivial
  | scan res n priority newThread =>
    rw [hpc] at hno
    dsimp only
    split_ifs
    · exact h.fly rfl rfl rfl (fun _ => rfl) (fun n hn => by rw [hpc]; exact hn) hno
    · cases newThread with
      | none => exact h.fly rfl rfl rfl (fun _ => rfl) (fun n hn => by rw [hpc]; exact hn) hno
      | some m => exact h.fly rfl rfl rfl (fun _ => rfl) (fun n hn => by rw [hpc]; exact hn) hno
  | wake res m =>
    rw [hpc] at hno
    exact h.fly rfl rfl rfl (fun _ => rfl) (fun n hn => by rw [hpc]; exact hn) hno
  | done res => exact h.fly rfl rfl rfl (fun _ => rfl) (by exact nofun) trivial

/-- A call is refused for its descriptor or its length. -/
theorem refusal_ne_eio (s : System) (c : MqCall) : s.refusal c ≠ some .eio := by
  cases c with
  | send c =>
    unfold System.refusal
    dsimp only
    split_ifs <;> exact nofun
  | receive c => exact nofun

theorem Accounted.step {l' : Ledger} {a : Action} {e : Option Event} (h : l.Accounted)
    (hcounts : l.system.Counts a) (hstep : l.step a = some (l', e)) : l'.Accounted := by
  obtain ⟨⟨s', e'⟩, hs, hl⟩ := Option.map_eq_some_iff.mp hstep
  obtain rfl := (Prod.mk.inj hl).1
  cases a with
  | call t c =>
    simp only [System.step] at hs
    split_ifs at hs with hcall
    have hcalled : ∀ pc', pc'.entries = some 0 → pc'.NoEio →
        Accounted ⟨l.system.setPc t pc', l.note (l.system.setPc t pc') (.call t c)⟩ := by
      intro pc' hentries hno
      refine ⟨h.count, fun u n hn => ?_, fun u => ?_⟩
      · change update l.added t 0 u = n
        change (update l.system.pc t pc' u).entries = some n at hn
        by_cases hu : u = t
        · subst hu
          rw [update_self] at hn ⊢
          exact Option.some.inj (hentries.symm.trans hn)
        · rw [update_of_ne hu] at hn ⊢
          exact h.added u n hn
      · change (update l.system.pc t pc' u).NoEio
        by_cases hu : u = t
        · rw [hu, update_self]
          exact hno
        · rw [update_of_ne hu]
          exact h.noEio u
    cases hrefusal : l.system.refusal c with
    | none =>
      rw [hrefusal] at hs
      obtain rfl := (Prod.mk.inj (Option.some.inj hs)).1
      exact hcalled _ rfl trivial
    | some err =>
      rw [hrefusal] at hs
      obtain rfl := (Prod.mk.inj (Option.some.inj hs)).1
      refine hcalled _ rfl fun he => refusal_ne_eio l.system c ?_
      rw [hrefusal]
      exact Result.failed.inj he
  | exec t now =>
    simp only [System.step] at hs
    split_ifs at hs
    obtain rfl := (Prod.ext_iff.mp (Option.some.inj hs)).1
    exact h.exec now hcounts
  | env sched =>
    simp only [System.step] at hs
    split_ifs at hs
    obtain rfl := (Prod.mk.inj (Option.some.inj hs)).1
    exact ⟨h.count, h.added, h.noEio⟩

end Ledger

end Mqueue

end CoActionOS
