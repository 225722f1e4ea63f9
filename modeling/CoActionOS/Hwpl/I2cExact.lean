import CoActionOS.Hwpl.I2c
import CoActionOS.Lib.Bytes

/-!
# The transfers of the I2C port

A transfer is followed through its phases: it has `Begun`, it has been `Opened` with the address and the pointer, a read has
`Turned` round, and then it is `Writing` or `Reading`.  For each of them there is a lemma on what the next interrupt makes of
it.  Together they say that the transfer `Leads` to a port that is ready, through all that the bus may answer.

A write with a pointer of two bytes is `Stuck` as long as the slave acknowledges what it gets.
-/

namespace CoActionOS

namespace Hwpl

open Function
open Bytes (ofBitVec_extractLsb' ofBitVec_setWidth)

variable {p q : I2cPort} {d : I2cLocal} {attr : I2cReqattr} {op : I2cOp} {dop : I2cRequest} {n m : Nat} {stat : I2cStat}
  {e : I2cEvent} {pro : List I2cEvent}

/-! ### The handler -/

/-- The statuses that end a transfer. -/
def I2cStat.Fails : I2cStat → Prop
  | .slaWNack | .dataNack | .slaRNack | .arbitrationLost => True
  | _ => False

namespace I2cLocal

@[simp] theorem execCallback_buf (d : I2cLocal) : d.execCallback.buf = d.buf := by
  unfold execCallback
  cases d.callback <;> by_cases he : d.err = 0 <;> simp [he]

@[simp] theorem execCallback_sta (d : I2cLocal) : d.execCallback.sta = d.sta := by
  unfold execCallback
  cases d.callback <;> by_cases he : d.err = 0 <;> simp [he]

@[simp] theorem execCallback_sto (d : I2cLocal) : d.execCallback.sto = d.sto := by
  unfold execCallback
  cases d.callback <;> by_cases he : d.err = 0 <;> simp [he]

theorem execCallback_state (d : I2cLocal) : d.execCallback.state = d.state ||| i2cDoneFlag := by
  unfold execCallback
  cases d.callback <;> by_cases he : d.err = 0 <;> simp [he]

theorem execCallback_calls (d : I2cLocal) : d.execCallback.calls = d.calls + if d.callback.isSome then 1 else 0 := by
  unfold execCallback
  cases d.callback <;> by_cases he : d.err = 0 <;> simp [he]

@[simp] theorem execCallback_done (d : I2cLocal) : d.execCallback.done = true := by
  rw [done, execCallback_state, decide_eq_true_iff, BitVec.and_or_distrib_right, BitVec.and_self]
  intro hzero
  exact absurd (BitVec.or_eq_zero_iff.mp hzero).2 (by decide)

theorem handle_of_fails (d : I2cLocal) (h : stat.Fails) :
    ∃ err, d.handle stat = { d with size := 0, sto := true, err := err, state := i2cDoneFlag } := by
  cases stat with
  | slaWNack => exact ⟨_, rfl⟩
  | dataNack => exact ⟨_, rfl⟩
  | slaRNack => exact ⟨_, rfl⟩
  | arbitrationLost => exact ⟨_, rfl⟩
  | _ => exact h.elim

theorem done_of_state {s : BitVec 8} (h : d.state = s) (hs : s &&& i2cDoneFlag ≠ 0 := by decide) : d.done = true := by
  rw [done, h]
  exact decide_eq_true hs

theorem not_done_of_state {s : BitVec 8} (h : d.state = s) (hs : s &&& i2cDoneFlag = 0 := by decide) : d.done = false := by
  rw [done, h]
  exact decide_eq_false (not_not.mpr hs)

end I2cLocal

namespace I2cPort

theorem take_of_not_done (h : (p.latch e).handle stat = d) (hdone : d.done = false) (hsto : d.sto = false) :
    p.take stat e = ⟨d, stat.phase, p.trace ++ [e]⟩ := by
  have hisr : (p.latch e).isr stat = d := by
    rw [I2cLocal.isr, h, hdone]
    rfl
  unfold take
  simp only [hisr, hsto, Bool.false_eq_true, if_false]

theorem take_of_done (h : (p.latch e).handle stat = d) (hdone : d.done = true) (hsto : d.sto = true) :
    p.take stat e = ⟨{ d.execCallback with sto := false }, .idle, p.trace ++ [e, .stop]⟩ := by
  have hisr : (p.latch e).isr stat = d.execCallback := by rw [I2cLocal.isr, h, hdone, if_pos rfl]
  unfold take
  simp only [hisr, I2cLocal.execCallback_sto, hsto, if_true]

theorem ready_take (h : (p.latch e).handle stat = d) (hdone : d.done = true) (hsto : d.sto = true) (hsta : d.sta = false) :
    (p.take stat e).Ready := by
  rw [take_of_done h hdone hsto]
  exact ⟨I2cLocal.execCallback_done _, rfl, (I2cLocal.execCallback_sta _).trans hsta, rfl⟩

theorem not_ready_of_phase (h : p.phase ≠ .idle) : ¬ p.Ready := fun hready => h hready.idle

theorem not_ready_of_sta (h : p.d.sta = true) : ¬ p.Ready := fun hready => Bool.false_ne_true (hready.sta.symm.trans h)

theorem interrupt_of_ready (hp : p.Ready) (a : I2cAnswer) : p.interrupt a = p := by
  rw [interrupt, if_pos ⟨hp.idle, hp.sta⟩]

theorem interrupt_of_report {a : I2cAnswer} (hgoes : p.phase ≠ .idle ∨ p.d.sta = true) (h : p.report a = (stat, e)) :
    p.interrupt a = p.take stat e := by
  have hgo : ¬ (p.phase = .idle ∧ p.d.sta = false) := by
    rintro ⟨hidle, hsta⟩
    rcases hgoes with hphase | hset
    · exact hphase hidle
    · exact Bool.false_ne_true (hsta.symm.trans hset)
  rw [interrupt, if_neg hgo, h]

/-! ### One interrupt -/

/-- The transfer goes on: the callback has not been called yet, and nothing is stored where it must not. -/
structure Underway (op : I2cOp) (dop : I2cRequest) (n : Nat) (p : I2cPort) : Prop where
  callback : p.d.callback = dop.callback
  calls : p.d.calls = 0
  sto : p.d.sto = false
  kept : ∀ i, op = .write ∨ n ≤ i → p.d.buf i = dop.buf i

/-- The transfer ends, and the callback is called. -/
theorem leads_ended (h : (p.latch e).handle stat = d) (hdone : d.done = true) (hsto : d.sto = true) (hsta : d.sta = false)
    (hcallback : d.callback = dop.callback) (hcalls : d.calls = 0)
    (hwritten : op = .write → Unbroken (p.trace ++ [e, .stop]) → p.trace ++ [e, .stop] =
      attr.prologue op dop.loc ++ (List.range n).map (fun i => .sent (dop.buf i)) ++ [.stop])
    (hstored : op = .read → Unbroken (p.trace ++ [e, .stop]) → ∃ bs : List UInt8, bs.length = n ∧
      p.trace ++ [e, .stop] = attr.prologue op dop.loc ++ bs.map .received ++ [.stop] ∧
        ∀ i (hi : i < bs.length), d.buf i = bs[i])
    (hkept : ∀ i, op = .write ∨ n ≤ i → d.buf i = dop.buf i) :
    Leads interrupt Ready (Transferred attr op dop n) (p.take stat e) := by
  refine .here (ready_take h hdone hsto hsta) ?_
  rw [take_of_done h hdone hsto]
  have hbuf : d.execCallback.buf = d.buf := I2cLocal.execCallback_buf d
  refine ⟨?_, hwritten, fun hop hun => ?_, fun i hi => ?_⟩
  · show I2cLocal.calls (I2cLocal.execCallback _) = _
    rw [I2cLocal.execCallback_calls, hcalls, hcallback, Nat.zero_add]
  · obtain ⟨bs, hlength, htrace, hbs⟩ := hstored hop hun
    exact ⟨bs, hlength, htrace, fun i hi => (congrFun hbuf i).trans (hbs i hi)⟩
  · exact (congrFun hbuf i).trans (hkept i hi)

theorem leads_failed (hu : Underway op dop n p) (hsta : p.d.sta = false) (hstat : stat.Fails) (r : I2cReaction) :
    Leads interrupt Ready (Transferred attr op dop n) (p.take stat (.failed r)) := by
  obtain ⟨err, hhandle⟩ := (p.latch (.failed r)).handle_of_fails hstat
  have hbroken : ¬ Unbroken (p.trace ++ [.failed r, .stop]) := fun hun => hun r (by simp)
  exact leads_ended hhandle (I2cLocal.done_of_state (s := i2cDoneFlag) rfl) rfl hsta hu.callback hu.calls
    (fun _ hun => absurd hun hbroken) (fun _ hun => absurd hun hbroken) hu.kept

theorem leads_start {Q : I2cPort → Prop} (hphase : p.phase = .idle) (hsta : p.d.sta = true)
    (h : Leads interrupt Ready Q (p.take .start .start)) : Leads interrupt Ready Q p := by
  refine .next (not_ready_of_sta hsta) fun a => ?_
  rw [interrupt_of_report (Or.inr hsta) (show p.report a = (.start, .start) by rw [report, if_pos hsta, if_pos hphase])]
  exact h

theorem leads_restart {Q : I2cPort → Prop} (hphase : p.phase ≠ .idle) (hsta : p.d.sta = true)
    (h : Leads interrupt Ready Q (p.take .restart .start)) : Leads interrupt Ready Q p := by
  refine .next (not_ready_of_sta hsta) fun a => ?_
  rw [interrupt_of_report (Or.inr hsta) (show p.report a = (.restart, .start) by rw [report, if_pos hsta, if_neg hphase])]
  exact h

/-- A byte is sent; if that fails, so does the transfer. -/
theorem leads_sent (hu : Underway op dop n p) (hphase : p.phase ≠ .idle) (hsta : p.d.sta = false) (nack : I2cStat)
    (hack : ∀ a, a.reaction = .ack → p.report a = (stat, .sent p.d.dat))
    (hnack : ∀ a, a.reaction = .nack → p.report a = (nack, .failed .nack)) (hfails : nack.Fails)
    (hlost : ∀ a, a.reaction = .lost → p.report a = (.arbitrationLost, .failed .lost))
    (h : Leads interrupt Ready (Transferred attr op dop n) (p.take stat (.sent p.d.dat))) :
    Leads interrupt Ready (Transferred attr op dop n) p := by
  refine .next (not_ready_of_phase hphase) fun a => ?_
  cases ha : a.reaction with
  | ack =>
    rw [interrupt_of_report (Or.inl hphase) (hack a ha)]
    exact h
  | nack =>
    rw [interrupt_of_report (Or.inl hphase) (hnack a ha)]
    exact leads_failed hu hsta hfails .nack
  | lost =>
    rw [interrupt_of_report (Or.inl hphase) (hlost a ha)]
    exact leads_failed hu hsta (show I2cStat.Fails .arbitrationLost from trivial) .lost

theorem leads_slaW (hu : Underway op dop n p) (hphase : p.phase = .address) (hsta : p.d.sta = false)
    (heven : p.d.dat.toNat % 2 = 0)
    (h : Leads interrupt Ready (Transferred attr op dop n) (p.take .slaWAck (.sent p.d.dat))) :
    Leads interrupt Ready (Transferred attr op dop n) p := by
  refine leads_sent hu (by simp [hphase]) hsta .slaWNack ?_ ?_ trivial ?_ h <;>
    exact fun a ha => by simp [report, hsta, hphase, ha, heven]

theorem leads_slaR (hu : Underway op dop n p) (hphase : p.phase = .address) (hsta : p.d.sta = false)
    (hodd : p.d.dat.toNat % 2 = 1)
    (h : Leads interrupt Ready (Transferred attr op dop n) (p.take .slaRAck (.sent p.d.dat))) :
    Leads interrupt Ready (Transferred attr op dop n) p := by
  refine leads_sent hu (by simp [hphase]) hsta .slaRNack ?_ ?_ trivial ?_ h <;>
    exact fun a ha => by simp [report, hsta, hphase, ha, hodd]

theorem leads_transmit (hu : Underway op dop n p) (hphase : p.phase = .transmit) (hsta : p.d.sta = false)
    (h : Leads interrupt Ready (Transferred attr op dop n) (p.take .dataAck (.sent p.d.dat))) :
    Leads interrupt Ready (Transferred attr op dop n) p := by
  refine leads_sent hu (by simp [hphase]) hsta .dataNack ?_ ?_ trivial ?_ h <;>
    exact fun a ha => by simp [report, hsta, hphase, ha]

/-- A byte is received and acknowledged. -/
theorem leads_receive {Q : I2cPort → Prop} (hphase : p.phase = .receive) (hsta : p.d.sta = false) (haa : p.d.aa = true)
    (h : ∀ b, Leads interrupt Ready Q (p.take .receivedAck (.received b))) : Leads interrupt Ready Q p := by
  refine .next (not_ready_of_phase (by simp [hphase])) fun a => ?_
  rw [interrupt_of_report (Or.inl (by simp [hphase]))
    (show p.report a = (.receivedAck, .received a.byte) by simp [report, hsta, hphase, haa])]
  exact h a.byte

/-- The last byte is not acknowledged. -/
theorem leads_receive_last (hu : Underway op dop n p) (hphase : p.phase = .receive) (hsta : p.d.sta = false)
    (haa : p.d.aa = false)
    (h : ∀ b, Leads interrupt Ready (Transferred attr op dop n) (p.take .receivedNack (.received b))) :
    Leads interrupt Ready (Transferred attr op dop n) p := by
  refine .next (not_ready_of_phase (by simp [hphase])) fun a => ?_
  by_cases ha : a.reaction = .lost
  · rw [interrupt_of_report (Or.inl (by simp [hphase]))
      (show p.report a = (.arbitrationLost, .failed .lost) by simp [report, hsta, hphase, haa, ha])]
    exact leads_failed hu hsta (show I2cStat.Fails .arbitrationLost from trivial) .lost
  · rw [interrupt_of_report (Or.inl (by simp [hphase]))
      (show p.report a = (.receivedNack, .received a.byte) by simp [report, hsta, hphase, haa, ha])]
    exact h a.byte

/-! ### Writing -/

/-- `i` bytes of the buffer have been put in `DAT`, after the pointer. -/
structure Writing (attr : I2cReqattr) (dop : I2cRequest) (n i : Nat) (p : I2cPort) : Prop
    extends Underway .write dop n p where
  phase : p.phase = .transmit
  sta : p.d.sta = false
  state : p.d.state = i2cStateWrOp
  size : p.d.size + i = n
  data : p.d.data = i
  trace : p.trace ++ [.sent p.d.dat] = attr.prologue .write dop.loc ++ (List.range i).map fun j => .sent (dop.buf j)

theorem handle_dataAck_of_wr (h : d.state = i2cStateWrOp) : d.handle .dataAck =
    if d.size ≠ 0 then { d with dat := d.buf d.data, data := d.data + 1, aa := true, size := d.size - 1 }
    else { d with sto := true, aa := true, state := i2cStateNone ||| i2cDoneFlag } := by
  have h16 : ¬ (d.state = i2cStateRd16Op ∨ d.state = i2cStateWr16Op) := by
    rw [h]
    decide
  have hrd : ¬ d.state = i2cStateRdOp := by
    rw [h]
    decide
  rw [I2cLocal.handle, if_neg h16, if_neg hrd]

theorem Writing.next {i : Nat} (hw : Writing attr dop n i p) (h0 : p.d.size ≠ 0) :
    Writing attr dop n (i + 1) (p.take .dataAck (.sent p.d.dat)) ∧
      (p.take .dataAck (.sent p.d.dat)).d.size = p.d.size - 1 := by
  have hhandle : (p.latch (.sent p.d.dat)).handle .dataAck = _ := (handle_dataAck_of_wr hw.state).trans (if_pos h0)
  rw [take_of_not_done hhandle (I2cLocal.not_done_of_state hw.state) hw.sto]
  have hsize := hw.size
  have hlast : p.d.buf p.d.data = dop.buf i := by rw [hw.kept _ (Or.inl rfl), hw.data]
  have hdata : p.d.data + 1 = i + 1 := congrArg (· + 1) hw.data
  refine ⟨⟨⟨hw.callback, hw.calls, hw.sto, hw.kept⟩, rfl, hw.sta, hw.state, ?_, hdata, ?_⟩, rfl⟩
  · show p.d.size - 1 + (i + 1) = n
    omega
  · show p.trace ++ [.sent p.d.dat] ++ [.sent (p.d.buf p.d.data)] = _
    rw [hw.trace, hlast, List.range_succ, List.map_append, List.append_assoc]
    rfl

theorem Writing.ends {i : Nat} (hw : Writing attr dop n i p) (h0 : p.d.size = 0) :
    Leads interrupt Ready (Transferred attr .write dop n) (p.take .dataAck (.sent p.d.dat)) := by
  have hhandle : (p.latch (.sent p.d.dat)).handle .dataAck = _ :=
    (handle_dataAck_of_wr hw.state).trans (if_neg (not_not.mpr h0))
  have hin : i = n := by
    have hsize := hw.size
    omega
  refine leads_ended hhandle (I2cLocal.done_of_state (s := i2cStateNone ||| i2cDoneFlag) rfl) rfl hw.sta hw.callback
    hw.calls (fun _ _ => ?_) (fun hop => nomatch hop) hw.kept
  have htrace := hw.trace
  rw [hin] at htrace
  rw [← htrace, List.append_assoc]
  rfl

/-- The slave gets the bytes that are left. -/
theorem leads_writing (k : Nat) : ∀ {p : I2cPort} {i : Nat}, p.d.size = k → Writing attr dop n i p →
    Leads interrupt Ready (Transferred attr .write dop n) p := by
  induction k with
  | zero => exact fun hk hw => leads_transmit hw.toUnderway hw.phase hw.sta (hw.ends hk)
  | succ k ih =>
    intro p i hk hw
    obtain ⟨hnext, hsize⟩ := hw.next (by omega)
    exact leads_transmit hw.toUnderway hw.phase hw.sta (ih (by omega) hnext)

/-! ### Reading -/

/-- The bytes `bs` have been stored.  Of a count of `0`, too, one byte is received. -/
structure Reading (attr : I2cReqattr) (dop : I2cRequest) (n : Nat) (bs : List UInt8) (p : I2cPort) : Prop
    extends Underway .read dop n p where
  phase : p.phase = .receive
  sta : p.d.sta = false
  state : p.d.state = i2cStateNone
  size : max 1 p.d.size + bs.length = n
  data : p.d.data = bs.length
  aa : p.d.aa = decide (p.d.size > 1)
  trace : p.trace = attr.prologue .read dop.loc ++ bs.map .received
  stored : ∀ i (hi : i < bs.length), p.d.buf i = bs[i]

theorem update_length_stored {f : Nat → UInt8} {bs : List UInt8} (h : ∀ i (hi : i < bs.length), f i = bs[i])
    (b : UInt8) : ∀ i (hi : i < (bs ++ [b]).length), update f bs.length b i = (bs ++ [b])[i] := by
  intro i hi
  rw [List.length_append, List.length_singleton] at hi
  by_cases hlast : i = bs.length
  · subst hlast
    simp
  · rw [update_of_ne hlast, List.getElem_append_left (by omega)]
    exact h i (by omega)

/-- A byte that is received changes nothing behind the request. -/
theorem Reading.kept_update {bs : List UInt8} (hr : Reading attr dop n bs p) (b : UInt8) (i : Nat)
    (hi : I2cOp.read = .write ∨ n ≤ i) : update p.d.buf p.d.data b i = dop.buf i := by
  have htotal := hr.size
  have hn : n ≤ i := hi.resolve_left (by decide)
  rw [update_of_ne]
  · exact hr.kept i hi
  · rw [hr.data]
    omega

theorem Reading.next {bs : List UInt8} (hr : Reading attr dop n bs p) (hsize : 1 < p.d.size) (b : UInt8) :
    Reading attr dop n (bs ++ [b]) (p.take .receivedAck (.received b)) ∧
      (p.take .receivedAck (.received b)).d.size = p.d.size - 1 := by
  have hstate : ((p.latch (.received b)).handle .receivedAck).state = i2cStateNone := hr.state
  rw [take_of_not_done rfl (I2cLocal.not_done_of_state hstate) hr.sto]
  have htotal := hr.size
  refine ⟨⟨⟨hr.callback, hr.calls, hr.sto, hr.kept_update b⟩, rfl, hr.sta, hr.state, ?_, ?_, rfl, ?_, ?_⟩, rfl⟩
  · show max 1 (p.d.size - 1) + (bs ++ [b]).length = n
    rw [List.length_append, List.length_singleton]
    omega
  · show p.d.data + 1 = (bs ++ [b]).length
    rw [hr.data, List.length_append, List.length_singleton]
  · show p.trace ++ [.received b] = _
    rw [hr.trace, List.map_append, List.append_assoc]
    rfl
  · show ∀ i (hi : i < (bs ++ [b]).length), update p.d.buf p.d.data b i = (bs ++ [b])[i]
    rw [hr.data]
    exact update_length_stored hr.stored b

theorem Reading.ends {bs : List UInt8} (hr : Reading attr dop n bs p) (hsize : ¬ 1 < p.d.size) (b : UInt8) :
    Leads interrupt Ready (Transferred attr .read dop n) (p.take .receivedNack (.received b)) := by
  have htotal := hr.size
  refine leads_ended rfl (I2cLocal.done_of_state (s := i2cStateNone ||| i2cDoneFlag) rfl) rfl hr.sta hr.callback hr.calls
    (fun hop => nomatch hop) (fun _ _ => ⟨bs ++ [b], ?_, ?_, ?_⟩) (hr.kept_update b)
  · rw [List.length_append, List.length_singleton]
    omega
  · rw [hr.trace, List.map_append]
    simp
  · show ∀ i (hi : i < (bs ++ [b]).length), update p.d.buf p.d.data b i = (bs ++ [b])[i]
    rw [hr.data]
    exact update_length_stored hr.stored b

theorem Reading.leads_last {bs : List UInt8} (hr : Reading attr dop n bs p) (hsize : ¬ 1 < p.d.size) :
    Leads interrupt Ready (Transferred attr .read dop n) p := by
  have haa : p.d.aa = false := by
    rw [hr.aa]
    exact decide_eq_false hsize
  exact leads_receive_last hr.toUnderway hr.phase hr.sta haa (hr.ends hsize)

/-- What is left is received. -/
theorem leads_reading (k : Nat) : ∀ {p : I2cPort} {bs : List UInt8}, p.d.size ≤ k → Reading attr dop n bs p →
    Leads interrupt Ready (Transferred attr .read dop n) p := by
  induction k with
  | zero =>
    intro p bs hk hr
    exact hr.leads_last (by omega)
  | succ k ih =>
    intro p bs hk hr
    by_cases hsize : 1 < p.d.size
    · have haa : p.d.aa = true := by
        rw [hr.aa]
        exact decide_eq_true hsize
      refine leads_receive hr.phase hr.sta haa fun b => ?_
      obtain ⟨hnext, hless⟩ := hr.next hsize b
      exact ih (by omega) hnext
    · exact hr.leads_last hsize

/-! ### The address and the pointer -/

theorem addr_even (attr : I2cReqattr) : attr.addr.toNat % 2 = 0 := by
  rw [I2cReqattr.addr, UInt8.toNat_ofNat']
  omega

theorem addr_odd (attr : I2cReqattr) : (attr.addr ||| 1).toNat % 2 = 1 := by
  have hbit : (attr.addr ||| 1).toNat.testBit 0 = true := by
    rw [UInt8.toNat_or, Nat.testBit_or]
    simp
  rw [Nat.testBit_zero] at hbit
  exact of_decide_eq_true hbit

/-- `ptrs` have been put in `DAT`, after the address. -/
structure Opened (attr : I2cReqattr) (op : I2cOp) (dop : I2cRequest) (n : Nat) (state : BitVec 8) (ptrs : List UInt8)
    (p : I2cPort) : Prop extends Underway op dop n p where
  phase : p.phase = .transmit
  sta : p.d.sta = false
  addr : p.d.addr = attr.addr
  state : p.d.state = state
  size : p.d.size = dop.nbyte % 2 ^ 16
  data : p.d.data = 0
  trace : p.trace ++ [.sent p.d.dat] = .start :: (attr.addr :: ptrs).map .sent

/-- The address for a read has been put in `DAT`. -/
structure Turned (attr : I2cReqattr) (dop : I2cRequest) (n : Nat) (p : I2cPort) : Prop
    extends Underway .read dop n p where
  phase : p.phase = .address
  sta : p.d.sta = false
  dat : p.d.dat = attr.addr ||| 1
  state : p.d.state = i2cStateNone
  size : p.d.size = dop.nbyte % 2 ^ 16
  data : p.d.data = 0
  trace : p.trace ++ [.sent p.d.dat] = attr.prologue .read dop.loc

theorem leads_turned (ht : Turned attr dop n p) (hn : max 1 (dop.nbyte % 2 ^ 16) = n) :
    Leads interrupt Ready (Transferred attr .read dop n) p := by
  refine leads_slaR ht.toUnderway ht.phase ht.sta (by rw [ht.dat]; exact addr_odd attr) ?_
  have hstate : ((p.latch (.sent p.d.dat)).handle .slaRAck).state = i2cStateNone := ht.state
  rw [take_of_not_done rfl (I2cLocal.not_done_of_state hstate) ht.sto]
  set q : I2cPort := ⟨(p.latch (.sent p.d.dat)).handle .slaRAck, .receive, p.trace ++ [.sent p.d.dat]⟩
  have hr : Reading attr dop n [] q := by
    refine ⟨⟨ht.callback, ht.calls, ht.sto, ht.kept⟩, rfl, ht.sta, ht.state, ?_, ht.data, rfl, ?_, ?_⟩
    · show max 1 p.d.size + 0 = n
      rw [ht.size, hn]
      rfl
    · show p.trace ++ [.sent p.d.dat] = attr.prologue .read dop.loc ++ []
      rw [ht.trace, List.append_nil]
    · exact fun i hi => absurd hi (Nat.not_lt_zero i)
  exact leads_reading (dop.nbyte % 2 ^ 16) (Nat.le_of_eq ht.size) hr

/-- A start in the state that says that bytes are received next. -/
theorem turned_take (hu : Underway .read dop n p) (haddr : p.d.addr = attr.addr) (hstate : p.d.state = i2cStateNone)
    (hsize : p.d.size = dop.nbyte % 2 ^ 16) (hdata : p.d.data = 0)
    (htrace : p.trace ++ [.start, .sent (attr.addr ||| 1)] = attr.prologue .read dop.loc)
    (hstat : stat = .start ∨ stat = .restart) : Turned attr dop n (p.take stat .start) := by
  have hhandle : (p.latch .start).handle stat = { p.d with err := 0, dat := p.d.addr ||| 1, aa := true, sta := false } := by
    have hnone : (p.latch .start).state = i2cStateNone := hstate
    rcases hstat with rfl | rfl <;> rw [I2cLocal.handle, if_pos hnone] <;> rfl
  have hphase : stat.phase = .address := by rcases hstat with rfl | rfl <;> rfl
  rw [take_of_not_done hhandle (I2cLocal.not_done_of_state hstate) hu.sto]
  refine ⟨⟨hu.callback, hu.calls, hu.sto, hu.kept⟩, hphase, rfl, congrArg (· ||| 1) haddr, hstate, hsize, hdata, ?_⟩
  rw [← htrace, ← haddr, List.append_assoc]
  rfl

/-- After the pointer, a read starts again. -/
theorem leads_opened_read {ptrs : List UInt8} (ho : Opened attr .read dop n i2cStateRdOp ptrs p)
    (hpro : attr.prologue .read dop.loc = .start :: (attr.addr :: ptrs).map .sent ++ [.start, .sent (attr.addr ||| 1)])
    (hn : max 1 (dop.nbyte % 2 ^ 16) = n) : Leads interrupt Ready (Transferred attr .read dop n) p := by
  refine leads_transmit ho.toUnderway ho.phase ho.sta ?_
  have hhandle : (p.latch (.sent p.d.dat)).handle .dataAck =
      { p.d with aa := true, sta := true, state := i2cStateNone } := by
    have hstate : (p.latch (.sent p.d.dat)).state = i2cStateRdOp := ho.state
    rw [I2cLocal.handle, if_neg (by rw [hstate]; decide), if_pos hstate]
    rfl
  rw [take_of_not_done hhandle (I2cLocal.not_done_of_state (s := i2cStateNone) rfl) ho.sto]
  refine leads_restart (fun h => nomatch h) rfl (leads_turned ?_ hn)
  refine turned_take ⟨ho.callback, ho.calls, ho.sto, ho.kept⟩ ho.addr rfl ho.size ho.data ?_ (Or.inr rfl)
  rw [hpro, ← ho.trace]

/-- After the first byte of a pointer of two, the second one is sent. -/
theorem leads_opened_read16 {b : UInt8} (ho : Opened attr .read dop n i2cStateRd16Op [b] p)
    (hpro : attr.prologue .read dop.loc =
      .start :: (attr.addr :: [b, p.d.ptrLow]).map .sent ++ [.start, .sent (attr.addr ||| 1)])
    (hn : max 1 (dop.nbyte % 2 ^ 16) = n) : Leads interrupt Ready (Transferred attr .read dop n) p := by
  refine leads_transmit ho.toUnderway ho.phase ho.sta ?_
  have hhandle : (p.latch (.sent p.d.dat)).handle .dataAck =
      { p.d with dat := p.d.ptrLow, aa := true, state := i2cStateRdOp } := by
    have hstate : (p.latch (.sent p.d.dat)).state = i2cStateRd16Op := ho.state
    rw [I2cLocal.handle, if_pos (Or.inl hstate), if_pos hstate]
    rfl
  rw [take_of_not_done hhandle (I2cLocal.not_done_of_state (s := i2cStateRdOp) rfl) ho.sto]
  refine leads_opened_read ⟨⟨ho.callback, ho.calls, ho.sto, ho.kept⟩, rfl, ho.sta, ho.addr, rfl, ho.size, ho.data, ?_⟩
    hpro hn
  rw [ho.trace]
  rfl

/-- The transfer has been accepted. -/
structure Begun (attr : I2cReqattr) (op : I2cOp) (dop : I2cRequest) (n : Nat) (state : BitVec 8) (p : I2cPort) : Prop
    extends Underway op dop n p where
  phase : p.phase = .idle
  sta : p.d.sta = true
  addr : p.d.addr = attr.addr
  state : p.d.state = state
  size : p.d.size = dop.nbyte % 2 ^ 16
  data : p.d.data = 0
  trace : p.trace = []

/-- The start, the address and the first byte of the pointer. -/
theorem leads_begun {state : BitVec 8} (hb : Begun attr op dop n state p) (hnone : state ≠ i2cStateNone)
    (hdone : state &&& i2cDoneFlag = 0)
    (h : ∀ q : I2cPort, q.d.ptr = p.d.ptr → Opened attr op dop n state [p.d.ptrHigh] q →
      Leads interrupt Ready (Transferred attr op dop n) q) :
    Leads interrupt Ready (Transferred attr op dop n) p := by
  refine leads_start hb.phase hb.sta ?_
  have hhandle : (p.latch .start).handle .start = { p.d with err := 0, dat := p.d.addr, aa := true, sta := false } := by
    have hstate : (p.latch .start).state = state := hb.state
    rw [I2cLocal.handle, if_neg (by rw [hstate]; exact hnone)]
    rfl
  rw [take_of_not_done hhandle (I2cLocal.not_done_of_state hb.state hdone) hb.sto]
  refine leads_slaW ⟨hb.callback, hb.calls, hb.sto, hb.kept⟩ rfl rfl ?_ ?_
  · show p.d.addr.toNat % 2 = 0
    rw [hb.addr]
    exact addr_even attr
  rw [take_of_not_done rfl]
  · refine h _ rfl ⟨⟨hb.callback, hb.calls, hb.sto, hb.kept⟩, rfl, rfl, hb.addr, hb.state, hb.size, hb.data, ?_⟩
    show p.trace ++ [.start] ++ [.sent p.d.addr] ++ [.sent p.d.ptrHigh] = _
    rw [hb.trace, hb.addr]
    rfl
  · exact I2cLocal.not_done_of_state hb.state hdone
  · exact hb.sto

/-! ### Transfers that end -/

/-- How many bytes are transferred. -/
def count (op : I2cOp) (nbyte : Nat) : Nat := if op = .write then nbyte % 2 ^ 16 else max 1 (nbyte % 2 ^ 16)

theorem leads_write (hb : Begun attr .write dop (count .write dop.nbyte) i2cStateWrOp p)
    (hpro : attr.prologue .write dop.loc = .start :: (attr.addr :: [p.d.ptrHigh]).map .sent) :
    Leads interrupt Ready (Transferred attr .write dop (count .write dop.nbyte)) p := by
  refine leads_begun hb (by decide) (by decide) fun q _ ho => ?_
  refine leads_writing q.d.size (i := 0) rfl ⟨ho.toUnderway, ho.phase, ho.sta, ho.state, ho.size, ho.data, ?_⟩
  rw [ho.trace, hpro]
  rfl

theorem leads_read (hb : Begun attr .read dop (count .read dop.nbyte) i2cStateRdOp p)
    (hpro : attr.prologue .read dop.loc =
      .start :: (attr.addr :: [p.d.ptrHigh]).map .sent ++ [.start, .sent (attr.addr ||| 1)]) :
    Leads interrupt Ready (Transferred attr .read dop (count .read dop.nbyte)) p :=
  leads_begun hb (by decide) (by decide) fun _ _ ho => leads_opened_read ho hpro rfl

theorem leads_read16 (hb : Begun attr .read dop (count .read dop.nbyte) i2cStateRd16Op p)
    (hpro : attr.prologue .read dop.loc =
      .start :: (attr.addr :: [p.d.ptrHigh, p.d.ptrLow]).map .sent ++ [.start, .sent (attr.addr ||| 1)]) :
    Leads interrupt Ready (Transferred attr .read dop (count .read dop.nbyte)) p := by
  refine leads_begun hb (by decide) (by decide) fun q hptr ho => leads_opened_read16 ho ?_ rfl
  rw [I2cLocal.ptrLow, hptr]
  exact hpro

theorem leads_readOnly (hb : Begun attr .read dop (count .read dop.nbyte) i2cStateNone p)
    (hpro : attr.prologue .read dop.loc = [.start, .sent (attr.addr ||| 1)]) :
    Leads interrupt Ready (Transferred attr .read dop (count .read dop.nbyte)) p := by
  refine leads_start hb.phase hb.sta (leads_turned ?_ rfl)
  refine turned_take hb.toUnderway hb.addr hb.state hb.size hb.data ?_ (Or.inl rfl)
  rw [hb.trace, hpro]
  rfl

/-- What `i2c_transfer` has set before it looks at the kind of the transfer. -/
def cleared (d : I2cLocal) (attr : I2cReqattr) (dop : I2cRequest) : I2cLocal :=
  { d with
    callback := dop.callback, state := d.state &&& ~~~i2cDoneFlag, addr := UInt8.ofNat (attr.slaveAddr <<< 1), data := 0
    buf := dop.buf, ret := dop.nbyte, calls := 0 }

/-- What is accepted has begun, whatever else has been set. -/
theorem begun_of_cleared (op : I2cOp) (hp : p.Ready) {s : BitVec 8} (hd : d = { cleared p.d attr dop with
    size := dop.nbyte % 2 ^ 16, sta := true, state := s, ptr := d.ptr }) (n : Nat) :
    Begun attr op dop n s ⟨d, p.phase, []⟩ := by
  rw [hd]
  refine ⟨⟨rfl, rfl, hp.sto, fun _ _ => rfl⟩, hp.idle, rfl, ?_, rfl, rfl, rfl, rfl⟩
  show UInt8.ofNat (attr.slaveAddr <<< 1) = UInt8.ofNat (2 * attr.slaveAddr)
  rw [Nat.shiftLeft_eq, Nat.mul_comm]

theorem transfer_of_ready (attr : I2cReqattr) (op : I2cOp) (hp : p.Ready) (h0 : dop.nbyte ≠ 0) : p.transfer attr op dop =
    match attr.transfer, op with
    | .normal, op => (⟨{ cleared p.d attr dop with
        ptr := dop.loc.setWidth 8 ++ p.d.ptr.setWidth 8, size := dop.nbyte % 2 ^ 16, sta := true
        state := if op = .write then i2cStateWrOp else i2cStateRdOp }, p.phase, []⟩, none)
    | .normal16, op => (⟨{ cleared p.d attr dop with
        ptr := dop.loc.setWidth 16, size := dop.nbyte % 2 ^ 16, sta := true
        state := if op = .write then i2cStateWr16Op else i2cStateRd16Op }, p.phase, []⟩, none)
    | .readOnly, .read => (⟨{ cleared p.d attr dop with
        size := dop.nbyte % 2 ^ 16, state := i2cStateNone, sta := true }, p.phase, []⟩, none)
    | .readOnly, .write => (⟨{ cleared p.d attr dop with size := dop.nbyte % 2 ^ 16 }, p.phase, []⟩, some .einval)
    | .unknown _, _ => (⟨cleared p.d attr dop, p.phase, []⟩, some .einval) := by
  have hdone : ¬ ¬ p.d.done = true := not_not.mpr hp.done
  rw [transfer, if_pos hp.done, I2cLocal.i2cTransfer, if_neg hdone, if_neg h0]
  obtain ⟨transfer, slaveAddr⟩ := attr
  cases transfer <;> cases op <;> rfl

theorem leads_transferred (hp : p.Ready) (h0 : dop.nbyte ≠ 0) (hworks : attr.Works op) :
    (p.transfer attr op dop).2 = none ∧
      Leads interrupt Ready (Transferred attr op dop (count op dop.nbyte)) (p.transfer attr op dop).1 := by
  rw [transfer_of_ready attr op hp h0]
  obtain ⟨transfer, slaveAddr⟩ := attr
  cases transfer with
  | normal =>
    refine ⟨rfl, ?_⟩
    have hhigh : ∀ x : BitVec 8,
        (⟨BitVec.extractLsb' 8 8 (dop.loc.setWidth 8 ++ x)⟩ : UInt8) = UInt8.ofNat dop.loc.toNat := by
      intro x
      rw [BitVec.extractLsb'_append_eq_left, ofBitVec_setWidth]
    cases op with
    | write =>
      refine leads_write (begun_of_cleared .write hp rfl _) ?_
      rw [I2cLocal.ptrHigh, hhigh]
      rfl
    | read =>
      refine leads_read (begun_of_cleared .read hp rfl _) ?_
      rw [I2cLocal.ptrHigh, hhigh]
      rfl
  | normal16 =>
    cases op with
    | write => exact nomatch hworks
    | read =>
      refine ⟨rfl, leads_read16 (begun_of_cleared .read hp rfl _) ?_⟩
      have hhigh : UInt8.ofNat ((dop.loc.setWidth 16).toNat / 2 ^ 8) = UInt8.ofNat (dop.loc.toNat / 2 ^ 8) := by
        apply UInt8.toNat_inj.mp
        rw [BitVec.toNat_setWidth, UInt8.toNat_ofNat', UInt8.toNat_ofNat']
        omega
      have hlow : UInt8.ofNat ((dop.loc.setWidth 16).toNat / 2 ^ 0) = UInt8.ofNat dop.loc.toNat := by
        apply UInt8.toNat_inj.mp
        rw [BitVec.toNat_setWidth, UInt8.toNat_ofNat', UInt8.toNat_ofNat']
        omega
      rw [I2cLocal.ptrHigh, I2cLocal.ptrLow, ofBitVec_extractLsb', ofBitVec_extractLsb', hhigh, hlow]
      rfl
  | readOnly =>
    cases op with
    | write => exact nomatch hworks
    | read => exact ⟨rfl, leads_readOnly (begun_of_cleared .read hp rfl _) rfl⟩
  | unknown value => exact hworks.elim

/-! ### Transfers that do not -/

/-- The second byte of the pointer is sent, again and again. -/
structure Stuck (p : I2cPort) : Prop where
  state : p.d.state = i2cStateWr16Op
  sto : p.d.sto = false
  going : p.phase = .idle ∧ p.d.sta = true ∧ p.d.addr.toNat % 2 = 0 ∨
    p.phase = .address ∧ p.d.sta = false ∧ p.d.dat.toNat % 2 = 0 ∨ p.phase = .transmit ∧ p.d.sta = false

theorem Stuck.not_ready (hs : Stuck p) : ¬ p.Ready := fun hready =>
  Bool.false_ne_true ((I2cLocal.not_done_of_state hs.state).symm.trans hready.done)

theorem Stuck.acknowledged (hs : Stuck p) : Stuck (p.interrupt ⟨.ack, 0⟩) := by
  have hdone := I2cLocal.not_done_of_state hs.state
  obtain ⟨hphase, hsta, heven⟩ | ⟨hphase, hsta, heven⟩ | ⟨hphase, hsta⟩ := hs.going
  · have hhandle : (p.latch .start).handle .start = { p.d with err := 0, dat := p.d.addr, aa := true, sta := false } := by
      have hstate : (p.latch .start).state = i2cStateWr16Op := hs.state
      rw [I2cLocal.handle, if_neg (by rw [hstate]; decide)]
      rfl
    rw [interrupt_of_report (Or.inr hsta) (show p.report _ = (.start, .start) by rw [report, if_pos hsta, if_pos hphase]),
      take_of_not_done hhandle hdone hs.sto]
    exact ⟨hs.state, hs.sto, Or.inr (Or.inl ⟨rfl, rfl, heven⟩)⟩
  · have hgoes : p.phase ≠ .idle ∨ p.d.sta = true := Or.inl (by rw [hphase]; decide)
    rw [interrupt_of_report hgoes (show p.report _ = (.slaWAck, .sent p.d.dat) by simp [report, hphase, hsta, heven]),
      take_of_not_done rfl]
    · exact ⟨hs.state, hs.sto, Or.inr (Or.inr ⟨rfl, hsta⟩)⟩
    · exact hdone
    · exact hs.sto
  · have hgoes : p.phase ≠ .idle ∨ p.d.sta = true := Or.inl (by rw [hphase]; decide)
    have hhandle : (p.latch (.sent p.d.dat)).handle .dataAck = { p.d with dat := p.d.ptrLow, aa := true } := by
      have hstate : (p.latch (.sent p.d.dat)).state = i2cStateWr16Op := hs.state
      rw [I2cLocal.handle, if_pos (Or.inr hstate), if_neg (by rw [hstate]; decide)]
      rfl
    rw [interrupt_of_report hgoes (show p.report _ = (.dataAck, .sent p.d.dat) by simp [report, hphase, hsta]),
      take_of_not_done hhandle hdone hs.sto]
    exact ⟨hs.state, hs.sto, Or.inr (Or.inr ⟨rfl, hsta⟩)⟩

theorem Stuck.not_leads {Q : I2cPort → Prop} (hs : Stuck p) : ¬ Leads interrupt Ready Q p := by
  intro h
  have hkeep : ∀ q : I2cPort, ¬ q.Ready → Stuck q → ∃ a, Stuck (q.interrupt a) := fun q _ hq => ⟨_, hq.acknowledged⟩
  obtain ⟨q, hready, _, hq⟩ := h.exists_run hkeep hs
  exact hq.not_ready hready

theorem Begun.stuck (hb : Begun attr op dop n i2cStateWr16Op p) : Stuck p :=
  ⟨hb.state, hb.sto, Or.inl ⟨hb.phase, hb.sta, by rw [hb.addr]; exact addr_even attr⟩⟩

/-- What is acknowledged does not break the transfer. -/
theorem unbroken_acknowledged (h : Unbroken p.trace) : Unbroken (p.interrupt ⟨.ack, 0⟩).trace := by
  unfold interrupt
  split_ifs with hidle
  · exact h
  · have hevent : ∀ r, (p.report ⟨.ack, 0⟩).2 ≠ .failed r := by
      intro r
      by_cases hsta : p.d.sta = true
      · rw [report, if_pos hsta]
        exact fun hr => nomatch hr
      · rw [report, if_neg hsta]
        cases p.phase <;> cases p.d.aa <;> exact fun hr => nomatch hr
    intro r hr
    unfold take at hr
    dsimp only at hr
    split_ifs at hr
    · simp only [List.mem_append, List.mem_cons, List.not_mem_nil, or_false] at hr
      rcases hr with hr | hr | hr
      · exact h r hr
      · exact hevent r hr.symm
      · exact nomatch hr
    · simp only [List.mem_append, List.mem_singleton] at hr
      rcases hr with hr | hr
      · exact h r hr
      · exact hevent r hr.symm

/-- A transfer is of one number of bytes only. -/
theorem eq_of_leads (h : Leads interrupt Ready (Transferred attr op dop n) p)
    (h' : Leads interrupt Ready (Transferred attr op dop m) p) (hun : Unbroken p.trace) : n = m := by
  have hkeep : ∀ q : I2cPort, ¬ q.Ready → Unbroken q.trace → ∃ a, Unbroken (q.interrupt a).trace :=
    fun q _ hq => ⟨_, unbroken_acknowledged hq⟩
  obtain ⟨q, _, ⟨hq, hq'⟩, hqun⟩ := (h.and h').exists_run hkeep hun
  cases op with
  | write =>
    have htrace := congrArg List.length ((hq.written rfl hqun).symm.trans (hq'.written rfl hqun))
    simp only [List.length_append, List.length_map, List.length_range] at htrace
    omega
  | read =>
    obtain ⟨bs, hlength, htrace, -⟩ := hq.stored rfl hqun
    obtain ⟨bs', hlength', htrace', -⟩ := hq'.stored rfl hqun
    have hsame := congrArg List.length (htrace.symm.trans htrace')
    simp only [List.length_append, List.length_map] at hsame
    omega

theorem count_eq_iff (op : I2cOp) {nbyte : Nat} (h0 : nbyte ≠ 0) : count op nbyte = nbyte ↔ nbyte < 2 ^ 16 := by
  unfold count
  split_ifs <;> omega

/-- The done flag is cleared before a transfer is refused. -/
theorem done_transfer (attr : I2cReqattr) (op : I2cOp) (hp : p.Ready) (h0 : dop.nbyte ≠ 0) :
    (p.transfer attr op dop).1.d.done = false ∧ (p.transfer attr op dop).1.d.sto = false := by
  have hcleared : (cleared p.d attr dop).done = false := by
    refine I2cLocal.not_done_of_state (s := p.d.state &&& ~~~i2cDoneFlag) rfl ?_
    rw [BitVec.and_assoc]
    simp
  rw [transfer_of_ready attr op hp h0]
  obtain ⟨transfer, slaveAddr⟩ := attr
  cases transfer with
  | normal =>
    cases op with
    | write => exact ⟨I2cLocal.not_done_of_state (s := i2cStateWrOp) rfl, hp.sto⟩
    | read => exact ⟨I2cLocal.not_done_of_state (s := i2cStateRdOp) rfl, hp.sto⟩
  | normal16 =>
    cases op with
    | write => exact ⟨I2cLocal.not_done_of_state (s := i2cStateWr16Op) rfl, hp.sto⟩
    | read => exact ⟨I2cLocal.not_done_of_state (s := i2cStateRd16Op) rfl, hp.sto⟩
  | readOnly =>
    cases op with
    | write => exact ⟨hcleared, hp.sto⟩
    | read => exact ⟨I2cLocal.not_done_of_state (s := i2cStateNone) rfl, hp.sto⟩
  | unknown value => exact ⟨hcleared, hp.sto⟩

theorem transfersExactly_of_fits (hp : p.Ready) (h0 : dop.nbyte ≠ 0) (hfits : attr.Fits op dop) :
    TransfersExactly attr op dop p := by
  obtain ⟨hnone, hleads⟩ := leads_transferred hp h0 hfits.1
  rw [(count_eq_iff op h0).mpr hfits.2] at hleads
  unfold TransfersExactly
  generalize p.transfer attr op dop = r at hnone hleads
  obtain ⟨q, e⟩ := r
  cases hnone
  exact hleads

/-- A kind of transfer that works is of the wrong number of bytes; another one is refused, or never ends. -/
theorem fits_of_transfersExactly (hp : p.Ready) (h0 : dop.nbyte ≠ 0) (h : TransfersExactly attr op dop p) :
    attr.Fits op dop := by
  have hbusy := (done_transfer attr op hp h0).1
  by_cases hworks : attr.Works op
  · refine ⟨hworks, (count_eq_iff op h0).mp ?_⟩
    obtain ⟨hnone, hleads⟩ := leads_transferred hp h0 hworks
    have htrace : (p.transfer attr op dop).1.trace = [] := by
      rw [transfer, if_pos hp.done]
    unfold TransfersExactly at h
    generalize p.transfer attr op dop = r at hnone hleads h htrace
    obtain ⟨q, e⟩ := r
    cases hnone
    have hempty : q.trace = [] := htrace
    refine eq_of_leads hleads h fun r hr => ?_
    rw [hempty] at hr
    exact absurd hr List.not_mem_nil
  · exfalso
    unfold TransfersExactly at h
    have htransfer := transfer_of_ready attr op hp h0
    obtain ⟨transfer, slaveAddr⟩ := attr
    cases transfer with
    | normal => exact hworks trivial
    | normal16 =>
      cases op with
      | write =>
        rw [htransfer] at h
        exact (begun_of_cleared .write hp rfl 0).stuck.not_leads h
      | read => exact hworks rfl
    | readOnly =>
      cases op with
      | write =>
        rw [htransfer] at h hbusy
        exact Bool.false_ne_true (hbusy.symm.trans h.done)
      | read => exact hworks rfl
    | unknown value =>
      rw [htransfer] at h hbusy
      exact Bool.false_ne_true (hbusy.symm.trans h.done)

/-! ### Runs -/

/-- The port is ready, or gets ready and refuses transfers until then. -/
def Sound (p : I2cPort) : Prop :=
  p.Ready ∨ p.d.done = false ∧ p.d.sto = false ∧ Leads interrupt Ready (fun _ => True) p

/-- The handler sets the done flag if it stops the bus, and only then. -/
theorem handle_cases (hdone : d.done = false) (hsto : d.sto = false) (stat : I2cStat) :
    (d.handle stat).done = false ∧ (d.handle stat).sto = false ∨
      (d.handle stat).done = true ∧ (d.handle stat).sto = true ∧ (d.handle stat).sta = d.sta := by
  cases stat with
  | dataAck =>
    rw [I2cLocal.handle]
    split_ifs with h16 hrd16 hrd hsize
    · exact Or.inl ⟨I2cLocal.not_done_of_state (s := i2cStateRdOp) rfl, hsto⟩
    · exact Or.inl ⟨hdone, hsto⟩
    · exact Or.inl ⟨I2cLocal.not_done_of_state (s := i2cStateNone) rfl, hsto⟩
    · exact Or.inl ⟨hdone, hsto⟩
    · exact Or.inr ⟨I2cLocal.done_of_state (s := i2cStateNone ||| i2cDoneFlag) rfl, rfl, rfl⟩
  | slaWNack => exact Or.inr ⟨I2cLocal.done_of_state (s := i2cDoneFlag) rfl, rfl, rfl⟩
  | dataNack => exact Or.inr ⟨I2cLocal.done_of_state (s := i2cDoneFlag) rfl, rfl, rfl⟩
  | slaRNack => exact Or.inr ⟨I2cLocal.done_of_state (s := i2cDoneFlag) rfl, rfl, rfl⟩
  | arbitrationLost => exact Or.inr ⟨I2cLocal.done_of_state (s := i2cDoneFlag) rfl, rfl, rfl⟩
  | busError => exact Or.inr ⟨I2cLocal.done_of_state (s := i2cDoneFlag) rfl, rfl, rfl⟩
  | receivedNack =>
    exact Or.inr ⟨I2cLocal.done_of_state (s := i2cStateNone ||| i2cDoneFlag) rfl, rfl, rfl⟩
  | _ => exact Or.inl ⟨hdone, hsto⟩

theorem latch_done (p : I2cPort) (e : I2cEvent) : (p.latch e).done = p.d.done := by cases e <;> rfl

theorem latch_sto (p : I2cPort) (e : I2cEvent) : (p.latch e).sto = p.d.sto := by cases e <;> rfl

theorem latch_sta (p : I2cPort) (e : I2cEvent) : (p.latch e).sta = p.d.sta := by cases e <;> rfl

/-- A start does not end a transfer, and otherwise no start is asked for when it ends. -/
theorem take_cases (hdone : p.d.done = false) (hsto : p.d.sto = false)
    (hstart : p.d.sta = true → (p.take stat e).d.done = false) :
    (p.take stat e).Ready ∨ (p.take stat e).d.done = false ∧ (p.take stat e).d.sto = false := by
  have hcases := handle_cases ((p.latch_done e).trans hdone) ((p.latch_sto e).trans hsto) stat
  rcases hcases with ⟨hnot, hsto'⟩ | ⟨hd, hs, hsta⟩
  · right
    rw [take_of_not_done rfl hnot hsto']
    exact ⟨hnot, hsto'⟩
  · left
    refine ready_take rfl hd hs (hsta.trans ((p.latch_sta e).trans ?_))
    by_contra hset
    have hend := hstart (eq_true_of_ne_false hset)
    rw [take_of_done rfl hd hs] at hend
    exact Bool.false_ne_true (hend.symm.trans (I2cLocal.execCallback_done _))

theorem interrupt_cases (hdone : p.d.done = false) (hsto : p.d.sto = false) (a : I2cAnswer) :
    (p.interrupt a).Ready ∨ (p.interrupt a).d.done = false ∧ (p.interrupt a).d.sto = false := by
  by_cases hidle : p.phase = .idle ∧ p.d.sta = false
  · rw [interrupt, if_pos hidle]
    exact Or.inr ⟨hdone, hsto⟩
  · rw [interrupt, if_neg hidle]
    refine take_cases hdone hsto fun hsta => ?_
    rw [report, if_pos hsta]
    have hhandle : ∀ stat, stat = .start ∨ stat = .restart →
        ((p.latch .start).handle stat).done = false ∧ ((p.latch .start).handle stat).sto = false := by
      rintro _ (rfl | rfl) <;> exact ⟨hdone, hsto⟩
    have hstat : (if p.phase = .idle then I2cStat.start else .restart) = .start ∨
        (if p.phase = .idle then I2cStat.start else .restart) = .restart := by
      split_ifs
      · exact Or.inl rfl
      · exact Or.inr rfl
    obtain ⟨hnot, hsto'⟩ := hhandle _ hstat
    rw [take_of_not_done rfl hnot hsto']
    exact hnot

theorem Sound.interrupt (hs : Sound p) (a : I2cAnswer) : Sound (p.interrupt a) := by
  rcases hs with hready | ⟨hdone, hsto, hleads⟩
  · rw [interrupt_of_ready hready]
    exact Or.inl hready
  · rcases interrupt_cases hdone hsto a with hready | ⟨hdone', hsto'⟩
    · exact Or.inl hready
    · exact Or.inr ⟨hdone', hsto', hleads.answered (fun _ a hready => interrupt_of_ready hready a) a⟩

theorem Sound.transfer (hs : Sound p) (h0 : dop.nbyte ≠ 0) (hfits : attr.Fits op dop) :
    Sound (p.transfer attr op dop).1 := by
  rcases hs with hready | hbusy
  · obtain ⟨hdone, hsto⟩ := done_transfer attr op hready h0
    exact Or.inr ⟨hdone, hsto, (leads_transferred hready h0 hfits.1).2.mono fun _ _ _ => trivial⟩
  · have hdone : ¬ p.d.done = true := by
      rw [hbusy.1]
      exact Bool.false_ne_true
    rw [I2cPort.transfer, if_neg hdone]
    exact Or.inr hbusy

theorem Sound.leads (hs : Sound p) : Leads I2cPort.interrupt Ready (fun _ => True) p := by
  rcases hs with hready | ⟨-, -, hleads⟩
  · exact .here hready trivial
  · exact hleads

theorem sound_of_run {es : List Empty} (hp : p.Ready) (hrun : Run I2cPort.step AsksFitting p es q) : Sound q := by
  refine hrun.invariant (fun _ q => Sound q) (Or.inl hp) fun _ s a s' _ hs hok hstep => ?_
  cases a with
  | transfer attr op dop =>
    cases hstep
    exact hs.transfer hok.1 hok.2
  | interrupt a =>
    cases hstep
    exact hs.interrupt a

end I2cPort

/-- A transfer is right, whatever happens on the bus, exactly if there is such a kind, it is not a write with a pointer of two
bytes and the count fits in 16 bits.  If all that are asked for are of that sort, then the port, whatever has happened before,
always gets ready again. -/
theorem transfersExactly_iff (p : I2cPort) (hp : p.Ready) :
    (∀ attr op dop, dop.nbyte ≠ 0 → (TransfersExactly attr op dop p ↔ attr.Fits op dop)) ∧
      ∀ es q, Run I2cPort.step I2cPort.AsksFitting p es q → Leads I2cPort.interrupt I2cPort.Ready (fun _ => True) q :=
  ⟨fun _ _ _ h0 => ⟨I2cPort.fits_of_transfersExactly hp h0, I2cPort.transfersExactly_of_fits hp h0⟩,
    fun _ _ hrun => (I2cPort.sound_of_run hp hrun).leads⟩

/-- The port after `hwpl_i2c_setattr`. -/
def setPort : I2cPort where
  d :=
    { data := 0, size := 0, ptr := 0, addr := 0, state := i2cDoneFlag, err := 0, ret := 0, callback := none, dat := 0
      aa := false, sta := false, sto := false, buf := fun _ => 0, calls := 0 }
  phase := .idle
  trace := []

theorem ready_setPort : setPort.Ready := ⟨by decide, rfl, rfl, rfl⟩

/-- Four bytes. -/
def fourBytes : I2cRequest := ⟨0x10, 4, fun i => UInt8.ofNat i, some 0⟩

theorem transfersExactly_setPort : TransfersExactly ⟨.normal, 0x50⟩ .write fourBytes setPort :=
  ((transfersExactly_iff setPort ready_setPort).1 ⟨.normal, 0x50⟩ .write fourBytes (by decide)).mpr ⟨trivial, by decide⟩

/-- A write that is refused, because there is only reading, leaves a port that refuses everything. -/
theorem not_transfersExactly : ¬ ∀ p : I2cPort, p.Ready →
    ∀ attr op dop, dop.nbyte ≠ 0 → TransfersExactly attr op dop p := by
  intro h
  have hready : (setPort.transfer ⟨.readOnly, 0x50⟩ .write fourBytes).1.Ready :=
    h setPort ready_setPort ⟨.readOnly, 0x50⟩ .write fourBytes (by decide)
  exact absurd hready.done (by decide)

end Hwpl

end CoActionOS
