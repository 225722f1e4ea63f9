import CoActionOS.Bootloader.Commands

/-!
# What an answer depends on

The reply of the bootloader outlives the commands and each handler assigns a part of it, on some of its paths.  The
answer to a command is the same after every history that leaves the flash the same for the commands that assign all
of the reply, or send none: the serial number, an unknown command number, a reset.
-/

namespace CoActionOS

namespace Bootloader

open Proc Link

/-! ### The statement -/

/-- The states of the loop after a start at `b₀`, over any commands and whatever the host sends. -/
inductive Reachable (board : Board) (b₀ : Boot) : Boot → Prop
  | start : Reachable board b₀ b₀
  | turn {b b' : Boot} (u : Locals) (rom : Rom) (env : Env Unit) :
      Reachable board b₀ b → ((linkUpdate board u rom b).run env).value = some b' → Reachable board b₀ b'

/-- The packets that answer a command. -/
def answer (board : Board) (op : List UInt8) (b : Boot) (u : Locals) (rom : Rom) (env : Env Unit) : List (List UInt8) :=
  ((serve board u rom { b with op := op }).run env).written

/-- The answer to the command does not depend on what came before, nor on memory that was never assigned. -/
def AnswersAlike (board : Board) (op : List UInt8) : Prop :=
  ∀ b₀ b₁ b₂, Reachable board b₀ b₁ → Reachable board b₀ b₂ → b₁.memory = b₂.memory →
    ∀ u₁ u₂ rom env, answer board op b₁ u₁ rom env = answer board op b₂ u₂ rom env

/-- The handler of the command leaves nothing of the reply as it was. -/
def Assigns (op : List UInt8) : Prop :=
  op.getD 0 0 ≠ 2 ∧ op.getD 0 0 ≠ 3 ∨ op.getD 0 0 = 2 ∧ wordAt op 5 = iBootloaderReset

instance (op : List UInt8) : Decidable (Assigns op) :=
  inferInstanceAs (Decidable (_ ∨ _))

/-! ### What is sent -/

section

variable {ι ρ α β : Type} [Inhabited ρ]

theorem written_bind (p : Proc ι ρ α) (f : α → Proc ι ρ β) (env : Env ρ) :
    ((p.bind f).run env).written = (p.run env).written ++ ((f (p.run env).value).run (p.run env).env).written := by
  rw [run_bind]
  unfold Finished.written
  rw [after_events, List.filterMap_append]

theorem written_ret (a : α) (env : Env ρ) : ((ret a : Proc ι ρ α).run env).written = [] := rfl

end

/-- A reply is one packet, whether or not it can be sent. -/
theorem written_sendReply (b : Boot) (env : Env Unit) :
    ((sendReply b).run env).written = [packetBytes b.reply.bytes] := by
  have hdata : (b.reply.bytes.drop 0).take 8 = b.reply.bytes := rfl
  have hturn : sendReply b = write (packetBytes b.reply.bytes) fun sent =>
      if sent ≠ 8 + linkPacketHeaderSize then ret (-1) else ret 8 := by
    unfold sendReply linkProtocolSlavewrite
    rfl
  rw [hturn]
  unfold run
  rw [written_after_wrote]
  dsimp only
  split_ifs <;> rfl

theorem packetBytes_reply_injective {r r' : LinkReply} (h : packetBytes r.bytes = packetBytes r'.bytes) :
    r.bytes = r'.bytes := by
  unfold packetBytes at h
  simp only [List.cons.injEq, true_and] at h
  have hlength : r.bytes.length = r'.bytes.length := rfl
  exact (List.append_inj h.2 hlength).1

theorem packetBytes_reply_ne {r r' : LinkReply} (h : r.bytes ≠ r'.bytes) : packetBytes r.bytes ≠ packetBytes r'.bytes :=
  fun heq => h (packetBytes_reply_injective heq)

theorem written_finish {b : Boot} (h : b.cmd ≠ 0) (env : Env Unit) :
    ((finish (some b)).run env).written = [packetBytes b.reply.bytes] := by
  rw [finish_of_cmd h, written_bind, written_sendReply, written_ret]
  rfl

/-! ### Answers that are determined -/

/-- The states agree in the command and the reply. -/
structure Alike (b b' : Boot) : Prop where
  op : b.op = b'.op
  reply : b.reply = b'.reply

section

variable {board : Board} {b b' : Boot}

theorem Alike.sendReply_eq (h : Alike b b') : sendReply b = sendReply b' := by
  unfold sendReply
  rw [h.reply]

theorem Alike.finish (h : Alike b b') (env : Env Unit) :
    ((finish (some b)).run env).written = ((finish (some b')).run env).written := by
  have hcmd : b.cmd = b'.cmd := by
    unfold Boot.cmd
    rw [h.op]
  unfold Bootloader.finish
  dsimp only
  rw [hcmd]
  split_ifs
  · rw [written_bind, written_bind, h.sendReply_eq, written_ret, written_ret]
  · rfl

theorem Alike.clearCmd (h : Alike b b') : Alike b.clearCmd b'.clearCmd := by
  refine ⟨?_, h.reply⟩
  show b.op.set 0 0 = b'.op.set 0 0
  rw [h.op]

/-- The serial number is sent under a reply all of which is assigned. -/
theorem written_readserialno (hop : b.op = b'.op) (env : Env Unit) :
    (((linkCmdReadserialno board b).bind finish).run env).written =
      (((linkCmdReadserialno board b').bind finish).run env).written := by
  unfold linkCmdReadserialno
  dsimp only
  generalize BitVec.ofNat 32 (serialnoDigits board).length = n
  have hreply : Alike ((b.setErr n).setErrNumber 0) ((b'.setErr n).setErrNumber 0) := ⟨hop, rfl⟩
  rw [Proc.bind_assoc, Proc.bind_assoc, written_bind (sendReply _), written_bind (sendReply _), hreply.sendReply_eq]
  congr 1
  generalize ((sendReply ((b'.setErr n).setErrNumber 0)).run env).value = sent
  generalize ((sendReply ((b'.setErr n).setErrNumber 0)).run env).env = env'
  split_ifs
  · exact hreply.finish env'
  · rw [Proc.bind_assoc, Proc.bind_assoc, written_bind (linkProtocolSlavewrite ..),
      written_bind (linkProtocolSlavewrite ..), hreply.reply]
    congr 1
    split_ifs
    · exact hreply.finish _
    · exact hreply.clearCmd.finish _

end

section

variable {board : Board} {op : List UInt8} (b : Boot) (u : Locals) (rom : Rom) (env : Env Unit)

theorem answer_none (hcmd : op.getD 0 0 = 0) : answer board op b u rom env = [] := by
  have hcmd' : ({ b with op := op } : Boot).cmd = 0 := hcmd
  unfold answer
  rw [serve_none hcmd', written_ret]

theorem answer_unknown (hcmd : linkBootloaderCmdTotal ≤ (op.getD 0 0).toNat) :
    answer board op b u rom env = [packetBytes (LinkReply.bytes ⟨-1, errInval⟩)] := by
  have hcmd' : linkBootloaderCmdTotal ≤ ({ b with op := op } : Boot).cmd.toNat := hcmd
  have hne : ((({ b with op := op } : Boot).setErr (-1)).setErrNumber errInval).cmd ≠ 0 := by
    intro hzero
    have hop : op.getD 0 0 = 0 := hzero
    rw [hop] at hcmd
    exact absurd hcmd (by decide)
  unfold answer
  rw [serve_unknown hcmd', written_finish hne]
  rfl

theorem answer_reset (hcmd : op.getD 0 0 = 2) (hrequest : wordAt op 5 = iBootloaderReset) :
    answer board op b u rom env = [] := by
  have hcmd' : ({ b with op := op } : Boot).cmd = 2 := hcmd
  have hrequest' : ({ b with op := op } : Boot).word 1 = iBootloaderReset := hrequest
  unfold answer
  rw [serve_ioctl hcmd', linkCmdIoctl_reset hrequest']
  rfl

end

/-- The commands that assign all of the reply are answered alike. -/
theorem answersAlike_of_assigns {board : Board} {op : List UInt8} (h : Assigns op) : AnswersAlike board op := by
  intro b₀ b₁ b₂ _ _ _ u₁ u₂ rom env
  rcases h with ⟨hioctl, hread⟩ | ⟨hcmd, hrequest⟩
  · by_cases hnone : op.getD 0 0 = 0
    · rw [answer_none b₁ u₁ rom env hnone, answer_none b₂ u₂ rom env hnone]
    · by_cases hserialno : op.getD 0 0 = 1
      · have h₁ : ({ b₁ with op := op } : Boot).cmd = 1 := hserialno
        have h₂ : ({ b₂ with op := op } : Boot).cmd = 1 := hserialno
        unfold answer
        rw [serve_readserialno h₁, serve_readserialno h₂]
        have hop : ({ b₁ with op := op } : Boot).op = ({ b₂ with op := op } : Boot).op := rfl
        exact written_readserialno hop env
      · have htotal : linkBootloaderCmdTotal ≤ (op.getD 0 0).toNat := by
          generalize op.getD 0 0 = cmd at hioctl hread hnone hserialno ⊢
          have hne : ∀ n : Nat, cmd ≠ UInt8.ofNat n → cmd.toNat ≠ n := by
            intro n hcmd heq
            exact hcmd (by rw [← heq, UInt8.ofNat_toNat])
          have h0 := hne 0 hnone
          have h1 := hne 1 hserialno
          have h2 := hne 2 hioctl
          have h3 := hne 3 hread
          show 4 ≤ cmd.toNat
          omega
        rw [answer_unknown b₁ u₁ rom env htotal, answer_unknown b₂ u₂ rom env htotal]
  · rw [answer_reset b₁ u₁ rom env hcmd hrequest, answer_reset b₂ u₂ rom env hcmd hrequest]

/-! ### Answers that are not -/

section

variable {board : Board} {op : List UInt8} (b : Boot) (u : Locals) (rom : Rom) (env : Env Unit)

/-- The number of bytes read is sent with the error number of an earlier reply. -/
theorem answer_read (hcmd : op.getD 0 0 = 3) :
    answer board op b u rom env =
      ((readFlash board b.memory (wordAt op 1).toNat (wordAt op 5).toInt).run env).written ++
        [packetBytes (LinkReply.bytes
          ⟨BitVec.ofInt 32 ((readFlash board b.memory (wordAt op 1).toNat (wordAt op 5).toInt).run env).value,
            b.reply.errNumber⟩)] := by
  have hcmd' : ({ b with op := op } : Boot).cmd = 3 := hcmd
  have hne : ∀ n, (({ b with op := op } : Boot).setErr n).cmd ≠ 0 := by
    intro n hzero
    have hop : op.getD 0 0 = 0 := hzero
    rw [hop] at hcmd
    exact absurd hcmd (by decide)
  unfold answer
  rw [serve_read hcmd']
  unfold linkCmdRead
  rw [Proc.bind_assoc, written_bind]
  congr 1
  rw [ret_bind, written_finish (hne _)]
  rfl

theorem written_erase {b : Boot} (h : b.cmd = 0) : ((finish (b.erase board rom)).run env).written = [] := by
  unfold Boot.erase
  cases eraseFlash board.flashSize rom.erased ⟨b.memory, b.errno⟩ with
  | none => rfl
  | some e =>
    have hsent : ({ b with memory := e.memory, errno := e.errno } : Boot).cmd = 0 := h
    dsimp only
    rw [finish_of_sent hsent, written_ret]

/-- The reply to an erase is the one of an earlier command. -/
theorem answer_erase (hcmd : op.getD 0 0 = 2) (hrequest : wordAt op 5 = iBootloaderErase) :
    answer board op b u rom env = [packetBytes b.reply.bytes] := by
  have hcmd' : ({ b with op := op } : Boot).cmd = 2 := hcmd
  have hrequest' : ({ b with op := op } : Boot).word 1 = iBootloaderErase := hrequest
  have hsent : ({ b with op := op } : Boot).clearCmd.cmd = 0 := by
    show (op.set 0 0).getD 0 0 = 0
    cases op <;> rfl
  unfold answer
  rw [serve_ioctl hcmd', linkCmdIoctl_erase hrequest', Proc.bind_assoc, written_bind, written_sendReply, ret_bind,
    written_erase rom _ hsent]
  rfl

/-- The reply to the attributes is the one of an earlier command, when they could be sent. -/
theorem answer_getattr (hcmd : op.getD 0 0 = 2) (hrequest : wordAt op 5 = iBootloaderGetattr) :
    ∃ sent, answer board op b u rom ⟨[], [], []⟩ = [sent, packetBytes b.noteErrno.reply.bytes] := by
  have hcmd' : ({ b with op := op } : Boot).cmd = 2 := hcmd
  have hrequest' : ({ b with op := op } : Boot).word 1 = iBootloaderGetattr := hrequest
  have hvalue : ((linkProtocolSlavewrite (attrBytes board u) 24 none : Program Int).run ⟨[], [], []⟩).value = 24 := rfl
  have hwritten : ((linkProtocolSlavewrite (attrBytes board u) 24 none : Program Int).run ⟨[], [], []⟩).written =
      [packetBytes (attrBytes board u)] := rfl
  have hne : ({ b with op := op } : Boot).noteErrno.cmd ≠ 0 := by
    rw [Boot.noteErrno_cmd, hcmd']
    decide
  refine ⟨packetBytes (attrBytes board u), ?_⟩
  unfold answer
  rw [serve_ioctl hcmd', linkCmdIoctl_getattr hrequest', Proc.bind_assoc, written_bind, hwritten, hvalue, ret_bind,
    if_neg (by decide), written_finish hne]
  unfold Boot.noteErrno
  split_ifs <;> rfl

/-- The reply to a page that did not come is the one of an earlier command. -/
theorem answer_writepage (hcmd : op.getD 0 0 = 2) (hrequest : wordAt op 5 = iBootloaderWritepage) :
    ∃ sent, answer board op b u rom ⟨[none], [], []⟩ = [sent, packetBytes b.noteErrno.reply.bytes] := by
  have hcmd' : ({ b with op := op } : Boot).cmd = 2 := hcmd
  have hrequest' : ({ b with op := op } : Boot).word 1 = iBootloaderWritepage := hrequest
  have hvalue : ((linkProtocolSlaveread 1032 none : Program Transfer).run ⟨[none], [], []⟩).value = ⟨-1, []⟩ := rfl
  have hwritten : ((linkProtocolSlaveread 1032 none : Program Transfer).run ⟨[none], [], []⟩).written =
      [ackBytes linkPacketNack 0] := rfl
  have hne : ({ b with op := op } : Boot).noteErrno.cmd ≠ 0 := by
    rw [Boot.noteErrno_cmd, hcmd']
    decide
  refine ⟨ackBytes linkPacketNack 0, ?_⟩
  unfold answer
  rw [serve_ioctl hcmd', linkCmdIoctl_writepage hrequest', Proc.bind_assoc, written_bind, hwritten, hvalue,
    if_pos (by decide), ret_bind, written_finish hne]
  unfold Boot.noteErrno
  split_ifs <;> rfl

/-- `EINVAL` is replaced by whatever `errno` has been set to. -/
theorem answer_unknownRequest (hcmd : op.getD 0 0 = 2) (herase : wordAt op 5 ≠ iBootloaderErase)
    (hgetattr : wordAt op 5 ≠ iBootloaderGetattr) (hreset : wordAt op 5 ≠ iBootloaderReset)
    (hwritepage : wordAt op 5 ≠ iBootloaderWritepage) :
    answer board op b u rom env = [packetBytes (LinkReply.bytes ⟨-1, b.errno⟩)] := by
  have hcmd' : ({ b with op := op } : Boot).cmd = 2 := hcmd
  have hne : ((({ b with op := op } : Boot).setErrNumber errInval).setErr (-1)).noteErrno.cmd ≠ 0 := by
    rw [Boot.noteErrno_cmd]
    show op.getD 0 0 ≠ 0
    rw [hcmd]
    decide
  have hword : ({ b with op := op } : Boot).word 1 = wordAt op 5 := rfl
  rw [← hword] at herase hgetattr hreset hwritepage
  unfold answer
  rw [serve_ioctl hcmd', linkCmdIoctl_unknown herase hgetattr hreset hwritepage, ret_bind, written_finish hne]
  rfl

end

/-! ### Two histories -/

section

variable (board : Board)

/-- After a start, with the flash erased. -/
def blank : Boot := ⟨List.replicate 13 0, ⟨0, 0⟩, fun _ => 0xFF, 0⟩

def noLocals : Locals := ⟨0, []⟩

def goodRom : Rom := ⟨fun _ => true, true⟩

/-- An unknown command number was refused. -/
def afterUnknown : Boot := { blank with reply := ⟨-1, errInval⟩ }

theorem reachable_afterUnknown : Reachable board blank afterUnknown := by
  refine .turn noLocals goodRom ⟨[some (packetBytes (4 :: List.replicate 12 0))], [], []⟩ .start ?_
  rfl

/-- A page of the bootloader itself was to be written: only the head of the request came. -/
def afterWritepage : Boot :=
  { blank with
    op := [0, 0, 0, 0, 0, 0x03, 0x62, 0x08, 0x44, 0, 0, 0, 0]
    reply := ⟨-1, errRofs⟩
    errno := errRofs }

theorem reachable_afterWritepage : Reachable board blank afterWritepage := by
  refine .turn noLocals goodRom
    ⟨[some (packetBytes [2, 0, 0, 0, 0, 0x03, 0x62, 0x08, 0x44, 0, 0, 0, 0]),
      some (packetBytes (List.replicate 8 0))], [], []⟩ .start ?_
  rfl

/-- A command that leaves some of the reply as it was is not answered alike. -/
theorem not_answersAlike {op : List UInt8} (h : ¬ Assigns op) : ¬ AnswersAlike board op := by
  intro halike
  have hunknown := halike blank blank afterUnknown .start (reachable_afterUnknown board) rfl noLocals noLocals goodRom
  have hnote : packetBytes blank.noteErrno.reply.bytes ≠ packetBytes afterUnknown.noteErrno.reply.bytes := by decide
  by_cases hioctl : op.getD 0 0 = 2
  · by_cases herase : wordAt op 5 = iBootloaderErase
    · have hanswer := hunknown ⟨[], [], []⟩
      rw [answer_erase _ _ _ _ hioctl herase, answer_erase _ _ _ _ hioctl herase] at hanswer
      exact absurd hanswer (by decide)
    by_cases hgetattr : wordAt op 5 = iBootloaderGetattr
    · have hanswer := hunknown ⟨[], [], []⟩
      obtain ⟨sent, hsent⟩ := answer_getattr blank noLocals goodRom hioctl hgetattr
      obtain ⟨sent', hsent'⟩ := answer_getattr afterUnknown noLocals goodRom hioctl hgetattr
      rw [hsent, hsent'] at hanswer
      exact hnote (List.cons.inj (List.cons.inj hanswer).2).1
    by_cases hwritepage : wordAt op 5 = iBootloaderWritepage
    · have hanswer := hunknown ⟨[none], [], []⟩
      obtain ⟨sent, hsent⟩ := answer_writepage blank noLocals goodRom hioctl hwritepage
      obtain ⟨sent', hsent'⟩ := answer_writepage afterUnknown noLocals goodRom hioctl hwritepage
      rw [hsent, hsent'] at hanswer
      exact hnote (List.cons.inj (List.cons.inj hanswer).2).1
    · -- what is left of the request is unknown: the error number is the one a refused page has set
      have hreset : wordAt op 5 ≠ iBootloaderReset := fun hreset => h (.inr ⟨hioctl, hreset⟩)
      have hanswer := halike blank blank afterWritepage .start (reachable_afterWritepage board) rfl noLocals noLocals
        goodRom ⟨[], [], []⟩
      rw [answer_unknownRequest _ _ _ _ hioctl herase hgetattr hreset hwritepage,
        answer_unknownRequest _ _ _ _ hioctl herase hgetattr hreset hwritepage] at hanswer
      exact absurd hanswer (by decide)
  · have hread : op.getD 0 0 = 3 := by_contra fun hread => h (.inl ⟨hioctl, hread⟩)
    have hanswer := hunknown ⟨[], [], []⟩
    rw [answer_read _ _ _ _ hread, answer_read _ _ _ _ hread] at hanswer
    have hreply := (List.cons.inj (List.append_inj' hanswer rfl).2).1
    have hbytes := packetBytes_reply_injective hreply
    have herrno : wordBytes 0 = wordBytes errInval := (List.append_inj' hbytes rfl).2
    exact absurd herrno (by decide)

/-- The answer to a command is independent of the history exactly if its handler assigns all of the reply. -/
theorem answersAlike_iff (op : List UInt8) : AnswersAlike board op ↔ Assigns op :=
  ⟨fun halike => by_contra fun h => not_answersAlike board h halike, answersAlike_of_assigns⟩

/-- After an unknown command number the erase request is answered with `EINVAL`, after nothing with success. -/
theorem not_answersAlike_erase :
    ¬ AnswersAlike ⟨0x40000, 0x4000, 0x132, fun _ => 0⟩ [2, 0, 0, 0, 0, 0x00, 0x62, 0, 0, 0, 0, 0, 0] :=
  not_answersAlike _ (by decide)

end

end Bootloader

end CoActionOS
