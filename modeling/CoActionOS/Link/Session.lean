import CoActionOS.Link.Local
import CoActionOS.Link.Lossless
import Mathlib.Data.List.GetD
import Mathlib.Tactic.IntervalCases

/-!
# Calls against turns

A call of the host against one turn of the device's loop, with the device's system behind it.  `Answers` says
of the rest of a call and the rest of a turn that they end with an outcome; its rules follow the two backwards,
from the reply to the operation that is sent, one for each thing that a handler does.  `AnswersTurn` is the
same for a whole turn, and `answersTurn_of_op` takes it back to the command.
-/

namespace CoActionOS

namespace Link

open Proc Surroundings

variable {S : Type}

/-! ### Words in packed structures -/

theorem wordAt_wordBytes (pre post : List UInt8) (w : Word) :
    wordAt (pre ++ (wordBytes w ++ post)) pre.length = w := by
  have hget : ∀ i < 4, (pre ++ (wordBytes w ++ post)).getD (pre.length + i) 0 =
      (wordBytes w).getD i 0 := by
    intro i hi
    have hlen : (wordBytes w).length = 4 := rfl
    rw [List.getD_append_right _ _ _ _ (Nat.le_add_right _ _), Nat.add_sub_cancel_left,
      List.getD_append _ _ _ _ (by omega)]
  have hlt := w.isLt
  unfold wordAt
  rw [show pre.length = pre.length + 0 from rfl, hget 0 (by omega), hget 1 (by omega),
    hget 2 (by omega), hget 3 (by omega)]
  apply BitVec.eq_of_toNat_eq
  simp only [wordBytes, List.getD_cons_zero, List.getD_cons_succ, BitVec.toNat_ofNat,
    UInt8.toNat_ofNat']
  omega

theorem replyOf_bytes (r : LinkReply) (more : List UInt8) :
    (⟨wordAt (r.bytes ++ more) 0, wordAt (r.bytes ++ more) 4⟩ : LinkReply) = r := by
  have herr := wordAt_wordBytes [] (wordBytes r.errNumber ++ more) r.err
  have hnum := wordAt_wordBytes (wordBytes r.err) more r.errNumber
  unfold LinkReply.bytes
  rw [List.append_assoc, show (4 : Nat) = (wordBytes r.err).length from rfl, hnum]
  rw [show (0 : Nat) = ([] : List UInt8).length from rfl, ← List.nil_append (wordBytes r.err ++ _), herr]

/-! ### Programs that have something left to do -/

section

variable {α ι ρ : Type}

theorem open_call (i : ι) (k : ρ → Proc ι ρ α) : (call i k).Open := fun _ h => by cases h

theorem open_write (bs : List UInt8) (k : Int → Proc ι ρ α) : (write bs k).Open :=
  fun _ h => by cases h

theorem open_slaveReceive (g : Except (UInt8 × Nat) LinkPkt → Proc ι ρ α) :
    (slaveReceive.bind g).Open :=
  fun _ h => by cases h

theorem open_slaveread (nbyte : Int) (callback : Option (List UInt8 → Proc ι ρ Int)) :
    (linkProtocolSlaveread nbyte callback).Open := by
  unfold linkProtocolSlaveread
  cases nbyte.toNat with
  | zero => exact open_slaveReceive _
  | succ turns => exact open_slaveReceive _

theorem open_slavewrite (buf : List UInt8) (nbyte : Int) :
    (linkProtocolSlavewrite buf nbyte none : Proc ι ρ Int).Open := by
  unfold linkProtocolSlavewrite
  cases nbyte.toNat with
  | zero => exact open_write _ _
  | succ turns => exact open_write _ _

end

theorem open_noteErrno {failed : Bool} {d : LinkData} {α : Type} {k : LinkData → Dev α}
    (hk : ∀ d', d'.op = d.op → (k d').Open) : ((noteErrno failed d).bind k).Open := by
  unfold noteErrno
  cases failed with
  | true => exact open_call _ _
  | false => exact hk d rfl

theorem open_finish {d : LinkData} (hcmd : d.cmd ≠ 0) : (finish d).Open := by
  unfold finish
  rw [if_pos hcmd]
  exact (open_slavewrite _ _).bind _

theorem open_receiveInto {α : Type} (capacity : Nat) (nbyte : Int) (k : Transfer → Dev α) :
    (receiveInto capacity nbyte k).Open :=
  (open_slaveread nbyte none).bind _

theorem open_linkCmd (pathMax : Nat) (phyHandle : Word) (cmd : Nat) (d : LinkData) (hpos : 0 < cmd)
    (hlt : cmd < linkCmdTotal) : (linkCmd pathMax phyHandle cmd d).Open := by
  have hrefuse : (refuseHandle d).Open := open_call _ _
  have hclose : ∀ c, (if d.word 0 = phyHandle then refuseHandle d else perform c isNegative d).Open := by
    intro c
    split_ifs
    · exact hrefuse
    · exact open_call _ _
  have hread : (linkCmdRead phyHandle d).Open := by
    unfold linkCmdRead
    split_ifs
    · exact hrefuse
    · apply Open.bind
      unfold linkProtocolSlavewrite
      cases (d.word 1).toInt.toNat with
      | zero => exact open_call _ _
      | succ turns => exact open_call _ _
  have hwrite : (linkCmdWrite phyHandle d).Open := by
    unfold linkCmdWrite
    split_ifs
    · exact hrefuse
    · exact (open_slaveread _ _).bind _
  unfold linkCmdTotal at hlt
  interval_cases cmd
  case «1» => exact open_call _ _
  case «2» => exact open_call _ _
  case «3» => exact hread
  case «4» => exact hwrite
  case «6» => exact hclose _
  case «9» => exact open_call _ _
  case «11» => exact open_call _ _
  case «15» => exact open_call _ _
  case «16» => exact open_call _ _
  all_goals exact open_receiveInto _ _ _

/-! ### The device's system behind the link -/

/-- The device's side of the channel: `fill` is no call of the system, which answers the others. -/
def systemSide (sys : DeviceSystem S) : Surroundings DevCall DevResult S where
  answer s c :=
    match c with
    | .fill _ _ => (s, default)
    | c => sys s c
  patience := slaveTimeout - 1

section

variable (sys : DeviceSystem S)

/-- The two programs come to an end that meets `Post`, the device's system being in state `s` at first. -/
abbrev Meets {α β : Type} (Post : α → Unit → β → S → Prop) (p : Host α) (s : S) (q : Dev β) : Prop :=
  Dialogue hostSide (systemSide sys) Post () p s q

/-- The rest `k` of a call and the rest `q` of the turn that carries it out.  However the two sides go on,
they go on from this outcome: the host with a result that reports it, the device in its state, with a reply
that is an error if it is one, and nothing under way. -/
def Answers (k : Host HostRet) (s : S) (q : Dev LinkData) (outcome : S × HostRet) : Prop :=
  ∀ (α β : Type) (Post : α → Unit → β → S → Prop) (f : HostRet → Host α) (g : LinkData → Dev β),
    (∀ r d, r.Reports outcome.2 → isNegative d.reply.err = decide (outcome.2.ret < 0) →
      Meets sys Post (f r) outcome.1 (g d)) →
    Meets sys Post (k.bind f) s (q.bind g)

/-- What `noteErrno` leaves. -/
def noted (failed : Bool) (d : LinkData) (s : S) : S × LinkData :=
  if failed then ((sys s .errno).1, d.setErrNumber (sys s .errno).2.ret) else (s, d)

/-- What `perform` leaves. -/
def performed (c : DevCall) (failed : Word → Bool) (d : LinkData) (s : S) : S × LinkData :=
  noted sys (failed (sys s c).2.ret) (d.setErr (sys s c).2.ret) (sys s c).1

end

variable {sys : DeviceSystem S} {s : S} {o : S × HostRet} {k : Host HostRet} {d : LinkData}

@[simp] theorem op_noted (failed : Bool) : (noted sys failed d s).2.op = d.op := by
  cases failed <;> rfl

@[simp] theorem err_noted (failed : Bool) : (noted sys failed d s).2.reply.err = d.reply.err := by
  cases failed <;> rfl

@[simp] theorem op_performed (c : DevCall) (failed : Word → Bool) :
    (performed sys c failed d s).2.op = d.op :=
  op_noted _

@[simp] theorem err_performed (c : DevCall) (failed : Word → Bool) :
    (performed sys c failed d s).2.reply.err = (sys s c).2.ret :=
  err_noted _

theorem cmd_of_op {d' : LinkData} (h : d'.op = d.op) : d'.cmd = d.cmd := by
  unfold LinkData.cmd
  rw [h]

/-! ### One step of a turn -/

theorem answers_noteErrno {failed : Bool} {e : LinkData → Dev LinkData}
    (hopen : ∀ d', d'.op = d.op → (e d').Open)
    (h : Answers sys k (noted sys failed d s).1 (e (noted sys failed d s).2) o) :
    Answers sys k s ((noteErrno failed d).bind e) o := by
  intro α β Post f g hnext
  have hend := h α β Post f g hnext
  cases failed with
  | false => exact hend
  | true => exact hend.call_right ((hopen (d.setErrNumber (sys s .errno).2.ret) rfl).bind g)

theorem answers_call {c : DevCall} {e : DevResult → Dev LinkData}
    (hc : (systemSide sys).answer s c = sys s c) (hopen : (e (sys s c).2).Open)
    (h : Answers sys k (sys s c).1 (e (sys s c).2) o) : Answers sys k s (call c e) o := by
  intro α β Post f g hnext
  apply Dialogue.call_right
  · rw [hc]
    exact h α β Post f g hnext
  · rw [hc]
    exact hopen.bind g

theorem answers_perform {c : DevCall} {failed : Word → Bool} {e : LinkData → Dev LinkData}
    (hc : (systemSide sys).answer s c = sys s c) (hopen : ∀ d', d'.op = d.op → (e d').Open)
    (h : Answers sys k (performed sys c failed d s).1 (e (performed sys c failed d s).2) o) :
    Answers sys k s ((perform c failed d).bind e) o := by
  apply answers_call hc
  · exact open_noteErrno hopen
  · exact answers_noteErrno hopen h

theorem answers_wait {ms : Nat} {q : Dev LinkData} (h : Answers sys k s q o) :
    Answers sys (wait ms k) s q o := by
  intro α β Post f g hnext
  exact (h α β Post f g hnext).wait

/-- The host's bytes come into an array of the handler. -/
theorem answers_masterwrite {op : List UInt8} {k : Int → Host HostRet} {capacity : Nat} {nbyte : Int}
    {k' : Transfer → Dev LinkData} {e : LinkData → Dev LinkData}
    (hn : nbyte = op.length ∨ op.length < linkPacketDataSize)
    (hopen : ((k' ⟨op.length, op⟩).bind e).Open)
    (h : Answers sys (k op.length) s ((k' ⟨op.length, op⟩).bind e) o) :
    Answers sys ((linkProtocolMasterwrite op op.length).bind k) s
      ((receiveInto capacity nbyte k').bind e) o := by
  intro α β Post f g hnext
  unfold receiveInto
  rw [Proc.bind_assoc, Proc.bind_assoc, Proc.bind_assoc]
  apply dialogue_write rfl rfl hn
  have hend := h α β Post f g hnext
  rw [Proc.bind_assoc] at hend
  apply Dialogue.call_right
  · exact hend
  · rw [← Proc.bind_assoc]
    exact hopen.bind g

theorem answers_receiveInto {op : List UInt8} {onFailure : OnFailure} {capacity : Nat} {nbyte : Int}
    {k' : Transfer → Dev LinkData} {e : LinkData → Dev LinkData}
    (hn : nbyte = op.length ∨ op.length < linkPacketDataSize)
    (hopen : ((k' ⟨op.length, op⟩).bind e).Open)
    (h : Answers sys k s ((k' ⟨op.length, op⟩).bind e) o) :
    Answers sys (request op onFailure k) s ((receiveInto capacity nbyte k').bind e) o := by
  apply answers_masterwrite hn hopen
  rw [if_neg (by omega)]
  exact h

theorem toInt_ofNat {n : Nat} (hn : n < 2 ^ 31) : (BitVec.ofNat 32 n : Word).toInt = n := by
  rw [BitVec.toInt_ofNat']
  apply Int.bmod_eq_of_le <;> omega

theorem toInt_pathSize {pathMax : Nat} {path : List UInt8} (hfits : PathFits pathMax path) :
    (pathSize path).toInt = ((pathBytes path).length : Int) := by
  unfold pathSize pathBytes
  rw [toInt_ofNat hfits.2, List.length_append, List.length_singleton]

theorem ofInt_length_pathBytes (path : List UInt8) :
    BitVec.ofInt 32 (pathBytes path).length = pathSize path := by
  unfold pathSize pathBytes
  rw [BitVec.ofInt_natCast, List.length_append, List.length_singleton]

theorem answers_path {pathMax : Nat} {path : List UInt8} {size : Word} {onFailure : OnFailure}
    {k' : Transfer → Dev LinkData} {e : LinkData → Dev LinkData} (hfits : PathFits pathMax path)
    (hsize : size = pathSize path)
    (hopen : ((k' ⟨(pathBytes path).length, pathBytes path⟩).bind e).Open)
    (h : Answers sys k s ((k' ⟨(pathBytes path).length, pathBytes path⟩).bind e) o) :
    Answers sys (sendPath path onFailure k) s ((receiveInto pathMax size.toInt k').bind e) o :=
  answers_receiveInto (.inl (hsize ▸ toInt_pathSize hfits)) hopen h

/-- A reply is sent, perhaps with more after it, and read. -/
theorem answers_reply {onFailure : OnFailure} {k : LinkReply → Host HostRet} {more : List UInt8}
    {nbyte : Int} {e : Int → Dev LinkData} (hn : nbyte = (d.reply.bytes ++ more).length)
    (hshort : (d.reply.bytes ++ more).length < linkPacketDataSize)
    (h : Answers sys (k d.reply) s (e nbyte) o) :
    Answers sys (readReply onFailure k) s
      ((linkProtocolSlavewrite (d.reply.bytes ++ more) nbyte none).bind e) o := by
  intro α β Post f g hnext
  unfold readReply
  subst hn
  rw [Proc.bind_assoc, Proc.bind_assoc]
  apply dialogue_read rfl (.inr hshort)
  dsimp only
  rw [if_neg (by omega), replyOf_bytes]
  exact h α β Post f g hnext

theorem answers_sendReply {onFailure : OnFailure} {k : LinkReply → Host HostRet} {e : Int → Dev LinkData}
    (h : Answers sys (k d.reply) s (e 8) o) :
    Answers sys (readReply onFailure k) s ((sendReply d).bind e) o := by
  have hshort : (d.reply.bytes ++ []).length < linkPacketDataSize := by
    rw [List.append_nil]
    exact (by decide : 8 < linkPacketDataSize)
  have hreply : Answers sys (readReply onFailure k) s
      ((linkProtocolSlavewrite (d.reply.bytes ++ []) 8 none).bind e) o := answers_reply rfl hshort h
  rw [List.append_nil] at hreply
  exact hreply

/-- The device's bytes are sent and read. -/
theorem answers_data {buf : List UInt8} {nbyte nbyte' : Int} {onFailure : OnFailure}
    {k : List UInt8 → Host HostRet} {e : Int → Dev LinkData} (hlen : nbyte' = buf.length)
    (hn : nbyte = buf.length ∨ buf.length < linkPacketDataSize)
    (h : Answers sys (k buf) s (e buf.length) o) :
    Answers sys (readData nbyte onFailure k) s ((linkProtocolSlavewrite buf nbyte' none).bind e) o := by
  intro α β Post f g hnext
  unfold readData
  subst hlen
  rw [Proc.bind_assoc, Proc.bind_assoc]
  apply dialogue_read rfl hn
  dsimp only
  rw [if_neg (by omega)]
  exact h α β Post f g hnext

/-- Both sides are through. -/
theorem answers_ret {r : HostRet} (hr : r.Reports o.2)
    (hneg : isNegative d.reply.err = decide (o.2.ret < 0)) : Answers sys (ret r) o.1 (ret d) o := by
  intro α β Post f g hnext
  exact hnext r d hr hneg

/-- The reply of a command that has not sent it. -/
theorem answers_finish {onFailure : OnFailure} {k : LinkReply → Host HostRet} (hcmd : d.cmd ≠ 0)
    (h : Answers sys (k d.reply) s (ret d.clearCmd) o) :
    Answers sys (readReply onFailure k) s (finish d) o := by
  unfold finish
  rw [if_pos hcmd]
  exact answers_sendReply h

/-! ### The operation -/

/-- A call, or what it sends and expects, against one turn of the device's loop. -/
def AnswersTurn (sys : DeviceSystem S) (pathMax : Nat) (phyHandle : Word) (k : Host HostRet) (s : S)
    (ls : LinkState) (o : S × HostRet) : Prop :=
  ∀ (α β : Type) (Post : α → Unit → β → S → Prop) (f : HostRet → Host α) (g : LinkState → Dev β),
    (∀ r ls', r.Reports o.2 → isNegative ls'.data.reply.err = decide (o.2.ret < 0) →
      Meets sys Post (f r) o.1 (g ls')) →
    Meets sys Post (k.bind f) s ((linkUpdate pathMax phyHandle ls).bind g)

theorem length_flatMap_wordBytes (words : List Word) :
    (words.flatMap wordBytes).length = 4 * words.length := by
  induction words with
  | nil => rfl
  | cons w words ih =>
    rw [List.flatMap_cons, List.length_append, ih, List.length_cons]
    change 4 + 4 * words.length = _
    omega

theorem wordAt_flatMap (cmd : UInt8) (words : List Word) (post : List UInt8) (i : Nat)
    (hi : i < words.length) :
    wordAt (cmd :: (words.flatMap wordBytes ++ post)) (1 + 4 * i) = words[i] := by
  have hsplit : words = words.take i ++ words[i] :: words.drop (i + 1) := by
    rw [List.getElem_cons_drop, List.take_append_drop]
  have hpre : (cmd :: (words.take i).flatMap wordBytes).length = 1 + 4 * i := by
    rw [List.length_cons, length_flatMap_wordBytes, List.length_take_of_le hi.le]
    omega
  have hat := wordAt_wordBytes (cmd :: (words.take i).flatMap wordBytes)
    ((words.drop (i + 1)).flatMap wordBytes ++ post) words[i]
  rw [hpre] at hat
  conv_lhs => rw [hsplit]
  rw [List.flatMap_append, List.flatMap_cons, List.append_assoc, List.append_assoc]
  exact hat

/-- The device has the command and its words, whatever it finds after them. -/
theorem prefix_fillPacket {size : Nat} {words : List Word} (junk packet : List UInt8) (cmd : UInt8)
    (hwords : 1 + 4 * words.length ≤ size) (hsize : size ≤ linkOpSize) :
    cmd :: words.flatMap wordBytes <+:
      (fillPacket packet (opBytes junk size cmd words)).take linkOpSize := by
  have hlen : (cmd :: words.flatMap wordBytes).length ≤ size := by
    rw [List.length_cons, length_flatMap_wordBytes]
    omega
  have hop : cmd :: words.flatMap wordBytes <+: opBytes junk size cmd words := by
    unfold opBytes sized
    rw [List.prefix_take_iff]
    refine ⟨?_, hlen⟩
    rw [← List.cons_append, List.append_assoc]
    exact List.prefix_append _ _
  unfold fillPacket
  rw [List.prefix_take_iff, List.prefix_take_iff]
  unfold linkOpSize linkMaxTransferSize at *
  exact ⟨⟨hop.trans (List.prefix_append _ _), by omega⟩, by omega⟩

/-- The operation, with its `n` words, comes, and the device takes up the command. -/
theorem answersTurn_of_op {pathMax : Nat} {phyHandle : Word} {junk : List UInt8} {size n : Nat} {cmd : UInt8}
    {words : List Word} {onFailure : OnFailure} {ls : LinkState} (hn : words.length = n)
    (hcmd : 0 < cmd.toNat ∧ cmd.toNat < linkCmdTotal) (hsize : 1 + 4 * n ≤ size ∧ size ≤ linkOpSize)
    (h : ∀ d : LinkData, d.cmd ≠ 0 → (∀ i w, words[i]? = some w → d.word i = w) →
      d.reply = ls.data.reply →
      Answers sys k s ((linkCmd pathMax phyHandle cmd.toNat d).bind finish) o) :
    AnswersTurn sys pathMax phyHandle (request (opBytes junk size cmd words) onFailure k) s ls o := by
  intro α β Post f g hnext
  obtain ⟨hwords, hsize⟩ := hsize
  have hlen : (opBytes junk size cmd words).length = size := length_sized _ _
  obtain ⟨post, hpost⟩ := prefix_fillPacket junk ls.packet cmd
    (hn.symm ▸ hwords) hsize
  have hshort : (opBytes junk size cmd words).length < linkPacketDataSize := by
    unfold linkOpSize at hsize
    unfold linkPacketDataSize
    omega
  have hget : ∀ i w, words[i]? = some w →
      wordAt (cmd :: (words.flatMap wordBytes ++ post)) (1 + 4 * i) = w := by
    intro i w hw
    obtain ⟨hi, rfl⟩ := List.getElem?_eq_some_iff.mp hw
    exact wordAt_flatMap cmd words post i hi
  unfold request linkUpdate receiveInto
  rw [Proc.bind_assoc, Proc.bind_assoc]
  apply dialogue_write rfl rfl (.inr hshort)
  have hd := h { ls.data with op := (fillPacket ls.packet (opBytes junk size cmd words)).take linkOpSize }
  unfold LinkData.cmd LinkData.word at hd
  rw [← hpost] at hd
  have hne : cmd ≠ 0 := by
    rintro rfl
    exact absurd hcmd.1 (by decide)
  specialize hd hne hget rfl
  dsimp only [call_bind, ret_bind]
  rw [if_neg (by omega), if_neg (by omega)]
  unfold serve LinkData.cmd
  rw [← hpost]
  have hlt : (cmd :: words.flatMap wordBytes ++ post).getD 0 0 = cmd := rfl
  dsimp only
  rw [hlt, if_pos hcmd.2, Proc.bind_assoc]
  have hend := hd α β Post f (fun d => g ⟨fillPacket ls.packet (opBytes junk size cmd words), d⟩)
    fun r d hr hneg => hnext r _ hr hneg
  apply Dialogue.call_right
  · exact hend
  · exact (((open_linkCmd pathMax phyHandle cmd.toNat _ hcmd.1 hcmd.2).bind _).bind _)

end Link

end CoActionOS
