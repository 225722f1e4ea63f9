import CoActionOS.Link.Receive

/-!
# What the commands store

Each command of the device stays inside the arrays it receives into exactly when the packets that arrive
fit, `CommandFits`.
-/

namespace CoActionOS

namespace Link

open Proc

variable {α : Type}

/-- Nothing is stored in an array. -/
def StoresNothing (e : Event DevCall) : Prop := ∀ capacity bs, e ≠ .called (.fill capacity bs)

/-- Every array that something is stored in has room for it. -/
def InBounds (o : Finished DevCall DevResult α) : Prop :=
  ∀ capacity bs, Event.called (.fill capacity bs) ∈ o.events → bs.length ≤ capacity

def Quiet (p : Dev α) : Prop := p.Always StoresNothing fun _ => True

theorem Quiet.bind {β : Type} {p : Dev α} {f : α → Dev β} (hp : Quiet p) (hf : ∀ a, Quiet (f a)) :
    Quiet (p.bind f) :=
  Always.bind hp fun a _ => hf a

theorem quiet_ret (a : α) : Quiet (ret a) := trivial

theorem quiet_call {c : DevCall} {k : DevResult → Dev α} (hc : ∀ capacity bs, c ≠ .fill capacity bs)
    (hk : ∀ r, Quiet (k r)) : Quiet (call c k) :=
  ⟨fun capacity bs h => hc capacity bs (by injection h), hk⟩

theorem quiet_write {bs : List UInt8} {k : Int → Dev α} (hk : ∀ n, Quiet (k n)) :
    Quiet (write bs k) :=
  ⟨fun _ _ h => (by cases h), hk⟩

theorem inBounds_quiet {p : Dev α} (h : Quiet p) (env : Env DevResult) : InBounds (p.run env) :=
  fun capacity bs he => absurd rfl ((Always.run h env).1 _ he capacity bs)

theorem inBounds_after_quiet {es : List (Event DevCall)} {o : Finished DevCall DevResult α}
    (hes : ∀ e ∈ es, StoresNothing e) : InBounds (o.after es) ↔ InBounds o := by
  constructor
  · exact fun h capacity bs he => h capacity bs (List.mem_append_right es he)
  · intro h capacity bs he
    rcases List.mem_append.mp he with he | he
    · exact absurd rfl (hes _ he capacity bs)
    · exact h capacity bs he

/-! ### Programs that store nothing in an array -/

theorem quiet_slaveread {callback : Option (List UInt8 → Dev Int)} {nbyte : Int}
    (hcallback : ∀ c ∈ callback, ∀ bs, Quiet (c bs)) :
    Quiet (linkProtocolSlaveread nbyte callback) :=
  always_slaveread (fun _ _ _ _ h => by cases h) (fun _ _ _ _ _ h => by cases h) hcallback

theorem quiet_slavewrite {buf : List UInt8} {nbyte : Int}
    {callback : Option (Nat → Dev (Int × List UInt8))}
    (hcallback : ∀ c ∈ callback, ∀ n, Quiet (c n)) :
    Quiet (linkProtocolSlavewrite buf nbyte callback) := by
  have hturn : ∀ (next : Nat → Dev Int) bytes, (∀ b, Quiet (next b)) →
      Quiet (slavewriteTurn callback buf nbyte bytes next) := by
    intro next bytes hnext
    have hsend : ∀ data : List UInt8, Quiet (write (packetBytes data) fun sent =>
        if sent ≠ data.length + linkPacketHeaderSize then ret (-1)
        else if ((bytes + data.length : Nat) : Int) < nbyte ∧ data.length = linkPacketDataSize then
          next (bytes + data.length)
        else ret (bytes + data.length : Nat)) := by
      intro data
      apply quiet_write
      intro sent
      split_ifs
      · exact quiet_ret _
      · exact hnext _
      · exact quiet_ret _
    cases callback with
    | none => exact hsend _
    | some callback =>
      apply (hcallback callback rfl _).bind
      intro got
      split_ifs
      · exact hsend _
      · exact hsend _
  unfold linkProtocolSlavewrite
  generalize nbyte.toNat = turns
  generalize (0 : Nat) = bytes
  induction turns generalizing bytes with
  | zero => exact hturn _ bytes fun _ => quiet_ret _
  | succ turns ih => exact hturn _ bytes ih

theorem quiet_send (buf : List UInt8) (nbyte : Int) : Quiet (linkProtocolSlavewrite buf nbyte none) :=
  quiet_slavewrite fun _ h => absurd h (by simp)

theorem quiet_noteErrno (failed : Bool) (d : LinkData) : Quiet (noteErrno failed d) := by
  unfold noteErrno
  split_ifs
  · exact quiet_call (fun _ _ h => by cases h) fun _ => quiet_ret _
  · exact quiet_ret _

theorem quiet_perform {c : DevCall} {failed : Word → Bool} {d : LinkData}
    (hc : ∀ capacity bs, c ≠ .fill capacity bs) : Quiet (perform c failed d) :=
  quiet_call hc fun _ => quiet_noteErrno _ _

theorem quiet_ioctlRespond (buf : List UInt8) (d : LinkData) : Quiet (ioctlRespond buf d) := by
  unfold ioctlRespond
  split_ifs
  · exact (quiet_send _ _).bind fun _ => quiet_noteErrno _ _
  · exact quiet_noteErrno _ _

theorem quiet_ioctlExecute (phyHandle : Word) (ioBuf : Option (List UInt8)) (d : LinkData) :
    Quiet (ioctlExecute phyHandle ioBuf d) := by
  unfold ioctlExecute
  split_ifs
  · exact quiet_ioctlRespond _ _
  · exact quiet_call (fun _ _ h => by cases h) fun _ => quiet_ioctlRespond _ _
  · cases ioBuf with
    | none => exact quiet_ioctlRespond _ _
    | some buf => exact quiet_call (fun _ _ h => by cases h) fun _ => quiet_ioctlRespond _ _

/-! ### Transfers into an array -/

/-- What arrives at a transfer of `nbyte` bytes fits in `capacity` bytes. -/
def TransferFits (capacity : Nat) (nbyte : Int) (reads : Reads) : Prop :=
  PacketsFit (slaveReceive : Dev _) capacity nbyte nbyte.toNat 0 reads

/-- The transfer of `nbyte` bytes, alone. -/
def transferred (nbyte : Int) (env : Env DevResult) : Finished DevCall DevResult Transfer :=
  (linkProtocolSlaveread nbyte none).run env

theorem inBounds_receiveInto (capacity : Nat) (nbyte : Int) (k : Transfer → Dev α)
    (env : Env DevResult) :
    InBounds ((receiveInto capacity nbyte k).run env) ↔
      TransferFits capacity nbyte env.reads ∧
        InBounds ((k (transferred nbyte env).value).run (transferred nbyte env).env.answer.2) := by
  have hquiet : Quiet (linkProtocolSlaveread nbyte none) :=
    quiet_slaveread fun _ h => absurd h (by simp)
  unfold receiveInto transferred
  rw [run_bind, inBounds_after_quiet (Always.run hquiet env).1]
  unfold TransferFits
  rw [← stored_slaveread]
  simp only [Proc.run]
  constructor
  · intro h
    refine ⟨h capacity _ (List.mem_cons_self ..), fun c bs he => h c bs (List.mem_cons_of_mem _ he)⟩
  · rintro ⟨hfits, h⟩ c bs he
    rcases List.mem_cons.mp he with he | he
    · simp only [Event.called.injEq, DevCall.fill.injEq] at he
      obtain ⟨rfl, rfl⟩ := he
      exact hfits
    · exact h c bs he

theorem inBounds_receiveInto_quiet {capacity : Nat} {nbyte : Int} {k : Transfer → Dev α}
    (hk : ∀ t, Quiet (k t)) (env : Env DevResult) :
    InBounds ((receiveInto capacity nbyte k).run env) ↔ TransferFits capacity nbyte env.reads := by
  rw [inBounds_receiveInto]
  exact and_iff_left (inBounds_quiet (hk _) _)

/-! ### The commands -/

/-- What arrives for a command fits in the arrays that the command receives it into.  The array of an
ioctl comes from `malloc`; `link` takes its second path only after a first one of the size announced. -/
def CommandFits (pathMax cmd : Nat) (d : LinkData) (env : Env DevResult) : Prop :=
  match cmd with
  | 2 =>
    ioctlW (d.word 1) = true →
      TransferFits (if env.answer.1.ret = 0 then 0 else ioctlSize (d.word 1)) (ioctlSize (d.word 1))
        env.reads
  | 5 | 8 | 10 | 12 | 13 | 14 | 18 | 19 | 20 | 21 => TransferFits pathMax (d.word 0).toInt env.reads
  | 7 =>
    TransferFits pathMax (d.word 0).toInt env.reads ∧
      (BitVec.ofInt 32 (transferred (d.word 0).toInt env).value.ret = d.word 0 →
        TransferFits pathMax (d.word 1).toInt (transferred (d.word 0).toInt env).env.reads)
  | 17 =>
    TransferFits pathMax (d.word 0).toInt env.reads ∧
      TransferFits pathMax (d.word 1).toInt (transferred (d.word 0).toInt env).env.reads
  | _ => True

theorem inBounds_pathCommand {pathMax : Nat} {size : Word} {c : List UInt8 → DevCall}
    {failed : Word → Bool} {d : LinkData} (hc : ∀ path capacity bs, c path ≠ .fill capacity bs)
    (env : Env DevResult) :
    InBounds ((pathCommand pathMax size c failed d).run env) ↔
      TransferFits pathMax size.toInt env.reads :=
  inBounds_receiveInto_quiet (fun _ => quiet_perform (hc _)) env

theorem inBounds_attrCommand {pathMax : Nat} {c : List UInt8 → DevCall} {d : LinkData}
    (hc : ∀ path capacity bs, c path ≠ .fill capacity bs) (env : Env DevResult) :
    InBounds ((attrCommand pathMax c d).run env) ↔
      TransferFits pathMax (d.word 0).toInt env.reads := by
  apply inBounds_receiveInto_quiet
  intro path
  dsimp only
  generalize (if BitVec.ofInt 32 path.ret ≠ d.word 0 then d.setErr (-1) else d) = d'
  split_ifs
  · exact quiet_ret _
  · exact quiet_perform (hc _)

theorem inBounds_unlink (pathMax : Nat) (d : LinkData) (env : Env DevResult) :
    InBounds ((linkCmdUnlink pathMax d).run env) ↔
      TransferFits pathMax (d.word 0).toInt env.reads := by
  apply inBounds_receiveInto_quiet
  intro path
  split_ifs
  · exact quiet_ret _
  · exact quiet_perform fun _ _ h => by cases h

theorem inBounds_stat (pathMax : Nat) (d : LinkData) (env : Env DevResult) :
    InBounds ((linkCmdStat pathMax d).run env) ↔
      TransferFits pathMax (d.word 0).toInt env.reads := by
  apply inBounds_receiveInto_quiet
  intro path
  apply quiet_call fun _ _ h => by cases h
  intro r
  apply (quiet_noteErrno _ _).bind
  intro d'
  apply (quiet_send _ _).bind
  intro n
  split_ifs
  · exact quiet_ret _
  · exact (quiet_send _ _).bind fun _ => quiet_ret _

theorem inBounds_link (pathMax : Nat) (d : LinkData) (env : Env DevResult) :
    InBounds ((linkCmdLink pathMax d).run env) ↔ CommandFits pathMax 7 d env := by
  unfold linkCmdLink CommandFits
  rw [inBounds_receiveInto]
  apply and_congr_right
  intro _
  dsimp only
  split_ifs with hsize
  · rw [inBounds_receiveInto_quiet, Env.reads_answer]
    · exact ⟨fun h _ => h, fun h => h hsize⟩
    · exact fun _ => quiet_call (fun _ _ h => by cases h) fun _ => quiet_noteErrno _ _
  · exact ⟨fun _ h => absurd h hsize, fun _ => inBounds_quiet (quiet_ret _) _⟩

theorem inBounds_rename (pathMax : Nat) (d : LinkData) (env : Env DevResult) :
    InBounds ((linkCmdRename pathMax d).run env) ↔ CommandFits pathMax 17 d env := by
  unfold linkCmdRename CommandFits
  rw [inBounds_receiveInto]
  apply and_congr_right
  intro _
  rw [inBounds_receiveInto_quiet, Env.reads_answer, LinkData.word_setErr]
  intro pathNew
  dsimp only
  generalize (ite (BitVec.ofInt 32 pathNew.ret ≠ _) _ _ : LinkData) = d'
  split_ifs
  · exact quiet_ret _
  · exact quiet_perform fun _ _ h => by cases h

theorem inBounds_ioctl (pathMax : Nat) (phyHandle : Word) (d : LinkData) (env : Env DevResult) :
    InBounds ((linkCmdIoctl phyHandle d).run env) ↔ CommandFits pathMax 2 d env := by
  have hcall : ∀ o : Finished DevCall DevResult LinkData,
      InBounds (o.after [.called (.malloc (ioctlSize (d.word 1)))]) ↔ InBounds o := by
    intro o
    apply inBounds_after_quiet
    intro e he capacity bs h
    rw [List.mem_singleton.mp he] at h
    cases h
  unfold linkCmdIoctl CommandFits
  dsimp only [Proc.run]
  rw [hcall]
  by_cases hw : ioctlW (d.word 1) = true
  · rw [if_pos hw, inBounds_receiveInto_quiet, Env.reads_answer]
    · exact ⟨fun h _ => h, fun h => h hw⟩
    · intro t
      by_cases ht : t.ret = -1
      · rw [if_pos ht]
        exact quiet_ret _
      · rw [if_neg ht]
        exact quiet_ioctlExecute _ _ _
  · rw [if_neg hw]
    exact ⟨fun _ h => absurd h hw, fun _ => inBounds_quiet (quiet_ioctlExecute _ _ _) _⟩

theorem quiet_read (phyHandle : Word) (d : LinkData) : Quiet (linkCmdRead phyHandle d) := by
  unfold linkCmdRead
  split_ifs
  · exact quiet_noteErrno _ _
  · apply Quiet.bind _ fun _ => quiet_noteErrno _ _
    apply quiet_slavewrite
    intro c hc n
    simp only [Option.mem_def, Option.some.injEq] at hc
    rw [← hc]
    exact quiet_call (fun _ _ h => by cases h) fun _ => quiet_ret _

theorem quiet_writeCommand (phyHandle : Word) (d : LinkData) : Quiet (linkCmdWrite phyHandle d) := by
  unfold linkCmdWrite
  split_ifs
  · exact quiet_noteErrno _ _
  · apply Quiet.bind _ fun _ => quiet_noteErrno _ _
    apply quiet_slaveread
    intro c hc bs
    simp only [Option.mem_def, Option.some.injEq] at hc
    rw [← hc]
    exact quiet_call (fun _ _ h => by cases h) fun _ => quiet_ret _

theorem quiet_fstat (d : LinkData) : Quiet (linkCmdFstat d) := by
  apply quiet_call fun _ _ h => by cases h
  intro r
  apply (quiet_noteErrno _ _).bind
  intro d'
  apply (quiet_send _ _).bind
  intro n
  split_ifs
  · exact quiet_ret _
  · exact (quiet_send _ _).bind fun _ => quiet_ret _

theorem quiet_readdir (d : LinkData) : Quiet (linkCmdReaddir d) := by
  apply quiet_call fun _ _ h => by cases h
  intro r
  apply (quiet_noteErrno _ _).bind
  intro d'
  apply (quiet_send _ _).bind
  intro n
  split_ifs
  · exact quiet_ret _
  · exact quiet_ret _
  · exact (quiet_send _ _).bind fun _ => quiet_ret _

theorem quiet_readserialno (d : LinkData) : Quiet (linkCmdReadserialno d) := by
  apply quiet_call fun _ _ h => by cases h
  intro r
  apply (quiet_send _ _).bind
  intro n
  split_ifs
  · exact quiet_ret _
  · apply (quiet_send _ _).bind
    intro m
    split_ifs <;> exact quiet_ret _

theorem quiet_close (phyHandle : Word) (d : LinkData) : Quiet (linkCmdClose phyHandle d) := by
  unfold linkCmdClose
  split_ifs
  · exact quiet_noteErrno _ _
  · exact quiet_perform fun _ _ h => by cases h

/-- A command that takes no path and no data stores nothing. -/
theorem inBounds_linkCmd (pathMax : Nat) (phyHandle : Word) (cmd : Nat) (d : LinkData)
    (env : Env DevResult) :
    InBounds ((linkCmd pathMax phyHandle cmd d).run env) ↔ CommandFits pathMax cmd d env := by
  have htrue : ∀ {p : Dev LinkData}, Quiet p → (InBounds (p.run env) ↔ True) := fun hp =>
    iff_true_intro (inBounds_quiet hp env)
  unfold linkCmd
  split
  case h_1 => exact htrue (quiet_readserialno d)
  case h_2 => exact inBounds_ioctl pathMax phyHandle d env
  case h_3 => exact htrue (quiet_read phyHandle d)
  case h_4 => exact htrue (quiet_writeCommand phyHandle d)
  case h_5 => exact inBounds_pathCommand (fun _ _ _ h => by cases h) env
  case h_6 => exact htrue (quiet_close phyHandle d)
  case h_7 => exact inBounds_link pathMax d env
  case h_8 => exact inBounds_unlink pathMax d env
  case h_9 => exact htrue (quiet_perform fun _ _ h => by cases h)
  case h_10 => exact inBounds_stat pathMax d env
  case h_11 => exact htrue (quiet_fstat d)
  case h_12 => exact inBounds_pathCommand (fun _ _ _ h => by cases h) env
  case h_13 => exact inBounds_pathCommand (fun _ _ _ h => by cases h) env
  case h_14 => exact inBounds_pathCommand (fun _ _ _ h => by cases h) env
  case h_15 => exact htrue (quiet_readdir d)
  case h_16 => exact htrue (quiet_perform fun _ _ h => by cases h)
  case h_17 => exact inBounds_rename pathMax d env
  case h_18 => exact inBounds_attrCommand (fun _ _ _ h => by cases h) env
  case h_19 => exact inBounds_attrCommand (fun _ _ _ h => by cases h) env
  case h_20 => exact inBounds_pathCommand (fun _ _ _ h => by cases h) env
  case h_21 => exact inBounds_pathCommand (fun _ _ _ h => by cases h) env
  case h_22 =>
    unfold CommandFits
    split
    all_goals first
      | exact absurd rfl (by assumption)
      | exact htrue (quiet_ret d)

/-! ### All receive paths -/

/-- The transfers stay inside the caller's buffer, and the commands inside their arrays, exactly when
the packets that arrive fit; `link_protocol_wait_packet` always stays behind the start byte and inside
the packet. -/
theorem staysInside_iff {ι ρ : Type} [Inhabited ρ] (nbyte : Nat) (start : UInt8) (timeout : Nat)
    (env : Env ρ) (pathMax : Nat) (phyHandle : Word) (cmd : Nat) (d : LinkData)
    (envDev : Env DevResult) :
    (((linkProtocolSlaveread nbyte none : Proc ι ρ _).run env).value.stored.length ≤ nbyte ↔
      PacketsFit (slaveReceive : Proc ι ρ _) nbyte nbyte nbyte 0 env.reads) ∧
    (((linkProtocolMasterread nbyte : Proc ι ρ _).run env).value.stored.length ≤ nbyte ↔
      PacketsFit (masterReceive : Proc ι ρ _) nbyte nbyte nbyte 0 env.reads) ∧
    (∀ e ∈ ((linkProtocolWaitPacket start timeout : Proc ι ρ _).run env).events,
      ∃ dst n, e = .read dst n ∧ 1 ≤ dst ∧ dst + n ≤ linkPktSize) ∧
    (InBounds ((linkCmd pathMax phyHandle cmd d).run envDev) ↔ CommandFits pathMax cmd d envDev) := by
  refine ⟨stored_slaveread nbyte nbyte env, stored_masterread nbyte nbyte env, ?_,
    inBounds_linkCmd pathMax phyHandle cmd d envDev⟩
  have hreads : (linkProtocolWaitPacket start timeout : Proc ι ρ _).Always
      (fun e => ∃ dst n, e = .read dst n ∧ 1 ≤ dst ∧ dst + n ≤ linkPktSize) _ :=
    always_waitPacket start timeout fun dst n hdst hn => ⟨dst, n, rfl, hdst, hn⟩
  exact (hreads.run env).1

/-- Two full packets are stored in a buffer of 64 bytes. -/
theorem not_staysInside :
    ¬ ∀ (nbyte : Nat) (env : Env DevResult),
      ((linkProtocolSlaveread nbyte none : Dev _).run env).value.stored.length ≤ nbyte := by
  intro h
  have h64 := h 64 ⟨List.replicate 2 (some (packetBytes (List.replicate 60 0))), [], []⟩
  revert h64
  decide

end Link

end CoActionOS
