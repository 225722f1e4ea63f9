import CoActionOS.Link.Device
import Mathlib.Order.Basic
import Mathlib.Order.Lattice
import Mathlib.Tactic.SplitIfs

/-!
# What the receiving functions store

`link_protocol_wait_packet` stays inside its packet, whatever arrives.  The transfers copy a packet before
they compare the number of bytes with the size of the buffer, so they stay inside it exactly when every
packet fits in what is left of it, `PacketsFit`; the same holds of the arrays that the commands of the
device receive a path or data into.
-/

namespace CoActionOS

namespace Link

open Proc

variable {ι ρ : Type}

/-! ### Waiting for bytes -/

theorem always_readSome {P : Event ι → Prop} (dst n left : Nat) (hP : P (.read dst n)) :
    (readSome dst n left : Proc ι ρ _).Always P
      fun r => ∀ bs, r = .ok bs → bs ≠ [] ∧ bs.length ≤ n := by
  induction left with
  | zero => exact fun bs h => absurd h (by simp)
  | succ left ih =>
    refine ⟨hP, fun bs h => absurd h (by simp), fun bs hbs => ?_⟩
    cases bs with
    | nil => exact ih
    | cons b bs =>
      intro bs' h
      simp only [Except.ok.injEq] at h
      subst h
      exact ⟨by simp, hbs⟩

/-- The reads go up to the end of what is needed. -/
theorem always_readAll {P : Event ι → Prop} (timeout turns dst need : Nat) (acc : List UInt8)
    (hturns : need ≤ turns) (hP : ∀ d m, dst ≤ d → d + m = dst + need → P (.read d m)) :
    (readAll timeout turns dst need acc : Proc ι ρ _).Always P
      fun r => ∀ bs, r = .ok bs → bs.length = acc.length + need := by
  induction turns generalizing dst need acc with
  | zero =>
    intro bs h
    simp only [Except.ok.injEq] at h
    subst h
    omega
  | succ turns ih =>
    unfold readAll
    split_ifs with hneed
    · intro bs h
      simp only [Except.ok.injEq] at h
      subst h
      omega
    · apply (always_readSome dst need timeout (hP dst need le_rfl rfl)).bind
      intro r hr
      cases r with
      | error e => exact fun bs h => absurd h (by simp)
      | ok bs =>
        obtain ⟨hne, hlen⟩ := hr bs rfl
        have hpos := List.length_pos_iff.mpr hne
        apply (ih (dst + bs.length) (need - bs.length) (acc ++ bs) (by omega) ?_).mono
        · intro r h bs' hr'
          rw [h bs' hr', List.length_append]
          omega
        · intro d m hd hm
          exact hP d m (by omega) (by omega)

/-- `sizeof(link_pkt_t)` -/
def linkPktSize : Nat := 63

theorem always_waitStart {P : Event ι → Prop} (timeout : Nat) (hP : P (.read 0 1)) :
    (linkProtocolWaitStart timeout : Proc ι ρ _).Always P
      fun r => ∀ start, r = .ok start → start = linkPacketStart := by
  apply (always_readSome 0 1 timeout hP).bind
  intro r _
  cases r with
  | error e => exact fun start h => absurd h (by simp)
  | ok bs =>
    simp only
    split_ifs with hstart
    · exact fun start h => absurd h (by simp)
    · intro start h
      simp only [Except.ok.injEq] at h
      rw [← h]
      exact not_not.mp hstart

/-- Whatever arrives, the bytes after the start byte go to the size, the data and the checksum of the
packet. -/
theorem always_waitPacket {P : Event ι → Prop} (start : UInt8) (timeout : Nat)
    (hP : ∀ d m, 1 ≤ d → d + m ≤ linkPktSize → P (.read d m)) :
    (linkProtocolWaitPacket start timeout : Proc ι ρ _).Always P
      fun r => ∀ pkt, r = .ok pkt → pkt.data.length = pkt.size.toNat := by
  apply (always_readSome 1 1 timeout (hP 1 1 le_rfl (by decide))).bind
  intro r _
  cases r with
  | error e => exact fun pkt h => absurd h (by simp)
  | ok bs =>
    simp only
    split_ifs with hsize
    · exact fun pkt h => absurd h (by simp)
    · have hle : (bs.headD 0).toNat ≤ 60 := not_lt.mp hsize
      apply (always_readAll timeout _ 2 ((bs.headD 0).toNat + 1) [] le_rfl ?_).bind
      · intro r hr
        cases r with
        | error e => exact fun pkt h => absurd h (by simp)
        | ok rest =>
          intro pkt h
          simp only [Except.ok.injEq] at h
          have hlen := hr rest rfl
          rw [List.length_nil, Nat.zero_add] at hlen
          rw [← h, List.length_take, hlen]
          exact min_eq_left (Nat.le_succ _)
      · intro d m hd hm
        apply hP d m (by omega)
        unfold linkPktSize
        omega

/-! ### A packet -/

/-- The receiving function only reads, and the data of a packet is as long as its size says. -/
def Receives {ε : Type} (receive : Proc ι ρ (Except ε LinkPkt)) : Prop :=
  receive.Always (fun e => ∃ dst n, e = .read dst n)
    fun r => ∀ pkt, r = .ok pkt → pkt.data.length = pkt.size.toNat

theorem receives_slave : Receives (slaveReceive : Proc ι ρ _) := by
  apply (always_waitStart slaveTimeout ⟨0, 1, rfl⟩).bind
  intro r _
  cases r with
  | error e => exact fun pkt h => absurd h (by simp)
  | ok start =>
    apply (always_waitPacket start slaveTimeout fun d m _ _ => ⟨d, m, rfl⟩).bind
    intro r hr
    cases r with
    | error e => exact fun pkt h => absurd h (by simp)
    | ok pkt =>
      simp only
      split_ifs
      · exact fun pkt h => absurd h (by simp)
      · intro pkt' h
        simp only [Except.ok.injEq] at h
        rw [← h]
        exact hr pkt rfl
      · exact fun pkt h => absurd h (by simp)

theorem receives_master : Receives (masterReceive : Proc ι ρ _) := by
  apply (always_waitStart masterTimeout ⟨0, 1, rfl⟩).bind
  intro r _
  cases r with
  | error e => exact fun pkt h => absurd h (by simp)
  | ok start =>
    apply (always_waitPacket start masterTimeout fun d m _ _ => ⟨d, m, rfl⟩).bind
    intro r hr
    cases r with
    | error e => exact fun pkt h => absurd h (by simp)
    | ok pkt =>
      simp only
      split_ifs
      · intro pkt' h
        simp only [Except.ok.injEq] at h
        rw [← h]
        exact hr pkt rfl
      · exact fun pkt h => absurd h (by simp)

/-- What a channel brings: the results of the reads. -/
abbrev Reads : Type := List (Option (List UInt8))

variable [Inhabited ρ] {ε : Type}

/-- The size of the next packet, and what comes after it; `none` if no packet arrives intact. -/
def arrival (receive : Proc ι ρ (Except ε LinkPkt)) (reads : Reads) : Option (Nat × Reads) :=
  match (receive.run ⟨reads, [], []⟩).value with
  | .error _ => none
  | .ok pkt => some (pkt.size.toNat, (receive.run ⟨reads, [], []⟩).env.reads)

/-- The packet that arrives next, if any, fits in what is left of `capacity` bytes, of which `bytes` are
used; `next` is about the packets after it, which a transfer of `nbyte` bytes takes only after a full
packet. -/
def PacketFits (receive : Proc ι ρ (Except ε LinkPkt)) (capacity : Nat) (nbyte : Int) (bytes : Nat)
    (reads : Reads) (next : Nat → Reads → Prop) : Prop :=
  ∀ p ∈ arrival receive reads, bytes + p.1 ≤ capacity ∧
    (((bytes + p.1 : Nat) : Int) < nbyte ∧ p.1 = linkPacketDataSize → next (bytes + p.1) p.2)

/-- Every packet that the transfer takes fits. -/
def PacketsFit (receive : Proc ι ρ (Except ε LinkPkt)) (capacity : Nat) (nbyte : Int) :
    (turns bytes : Nat) → Reads → Prop
  | 0, bytes, reads => PacketFits receive capacity nbyte bytes reads fun _ _ => True
  | turns + 1, bytes, reads =>
    PacketFits receive capacity nbyte bytes reads (PacketsFit receive capacity nbyte turns)

/-! ### The two transfers -/

/-- One turn of a transfer takes the packet that arrives, and ends the transfer if none does. -/
def TakesPacket (receive : Proc ι ρ (Except ε LinkPkt))
    (turn : Nat → List UInt8 → (Nat → List UInt8 → Proc ι ρ Transfer) → Proc ι ρ Transfer)
    (nbyte : Int) : Prop :=
  ∀ bytes stored next env,
    (arrival receive env.reads = none → ((turn bytes stored next).run env).value.stored = stored) ∧
    ∀ size rest, arrival receive env.reads = some (size, rest) →
      ∃ data env', data.length = size ∧ env'.reads = rest ∧
        ((turn bytes stored next).run env).value =
          if ((bytes + size : Nat) : Int) < nbyte ∧ size = linkPacketDataSize then
            ((next (bytes + size) (stored ++ data)).run env').value
          else ⟨(bytes + size : Nat), stored ++ data⟩

theorem takesPacket_of_value {receive : Proc ι ρ (Except ε LinkPkt)} (hrec : Receives receive)
    (env : Env ρ) :
    (arrival receive env.reads = none → ∃ e, (receive.run env).value = .error e) ∧
    ∀ size rest, arrival receive env.reads = some (size, rest) →
      ∃ pkt, (receive.run env).value = .ok pkt ∧ pkt.size.toNat = size ∧ pkt.data.length = size ∧
        (receive.run env).env.reads = rest := by
  obtain ⟨hvalue, hreads⟩ := hrec.run_congr (show (⟨env.reads, [], []⟩ : Env ρ).reads = env.reads from rfl)
  have hdata := (hrec.run env).2
  unfold arrival
  rw [hvalue, hreads]
  cases hres : (receive.run env).value with
  | error e => exact ⟨fun _ => ⟨e, rfl⟩, fun _ _ h => absurd h (by simp)⟩
  | ok pkt =>
    refine ⟨fun h => absurd h (by simp), fun size rest h => ?_⟩
    simp only [Option.some.injEq, Prod.mk.injEq] at h
    obtain ⟨rfl, rfl⟩ := h
    exact ⟨pkt, rfl, rfl, hdata pkt hres, rfl⟩

theorem takesPacket_slave (nbyte : Int) :
    TakesPacket (slaveReceive : Proc ι ρ _) (slavereadTurn none nbyte) nbyte := by
  intro bytes stored next env
  obtain ⟨hnone, hsome⟩ :=
    takesPacket_of_value (receives_slave : Receives (slaveReceive : Proc ι ρ _)) env
  constructor
  · intro h
    obtain ⟨⟨checksum, ms⟩, he⟩ := hnone h
    unfold slavereadTurn
    rw [run_bind, he]
    rfl
  · intro size rest h
    obtain ⟨pkt, hpkt, hsize, hdata, hreads⟩ := hsome size rest h
    have hrest : (((slaveReceive : Proc ι ρ _).run env).env.write 2).2.reads = rest := by
      rw [Env.reads_write, hreads]
    refine ⟨pkt.data, _, hdata, hrest, ?_⟩
    unfold slavereadTurn
    rw [run_bind, hpkt]
    simp only [after_value, Proc.run, hsize]
    split_ifs <;> rfl

theorem takesPacket_master (nbyte : Int) :
    TakesPacket (masterReceive : Proc ι ρ _) (masterreadTurn nbyte) nbyte := by
  intro bytes stored next env
  obtain ⟨hnone, hsome⟩ :=
    takesPacket_of_value (receives_master : Receives (masterReceive : Proc ι ρ _)) env
  constructor
  · intro h
    obtain ⟨e, he⟩ := hnone h
    unfold masterreadTurn
    rw [run_bind, he]
    rfl
  · intro size rest h
    obtain ⟨pkt, hpkt, hsize, hdata, hreads⟩ := hsome size rest h
    refine ⟨pkt.data, _, hdata, hreads, ?_⟩
    unfold masterreadTurn
    rw [run_bind, hpkt]
    simp only [after_value, hsize]
    split_ifs <;> rfl

/-- The loop of a transfer. -/
def transferLoop
    (turn : Nat → List UInt8 → (Nat → List UInt8 → Proc ι ρ Transfer) → Proc ι ρ Transfer) :
    (turns bytes : Nat) → List UInt8 → Proc ι ρ Transfer
  | 0, bytes, stored => turn bytes stored fun b s => ret ⟨b, s⟩
  | turns + 1, bytes, stored => turn bytes stored (transferLoop turn turns)

omit [Inhabited ρ] in
theorem slavereadLoop_eq (callback : Option (List UInt8 → Proc ι ρ Int)) (nbyte : Int)
    (turns bytes : Nat) (stored : List UInt8) :
    slavereadLoop callback nbyte turns bytes stored =
      transferLoop (slavereadTurn callback nbyte) turns bytes stored := by
  induction turns generalizing bytes stored with
  | zero => rfl
  | succ turns ih =>
    unfold slavereadLoop transferLoop
    congr 1
    ext b s
    exact ih b s

omit [Inhabited ρ] in
theorem masterreadLoop_eq (nbyte : Int) (turns bytes : Nat) (stored : List UInt8) :
    (masterreadLoop nbyte turns bytes stored : Proc ι ρ Transfer) =
      transferLoop (masterreadTurn nbyte) turns bytes stored := by
  induction turns generalizing bytes stored with
  | zero => rfl
  | succ turns ih =>
    unfold masterreadLoop transferLoop
    congr 1
    ext b s
    exact ih b s

section transferLoop

variable {receive : Proc ι ρ (Except ε LinkPkt)} {nbyte : Int}
  {turn : Nat → List UInt8 → (Nat → List UInt8 → Proc ι ρ Transfer) → Proc ι ρ Transfer}

theorem stored_turn (h : TakesPacket receive turn nbyte) {bytes capacity : Nat}
    {stored : List UInt8} {next : Nat → List UInt8 → Proc ι ρ Transfer} {env : Env ρ}
    (hstored : stored.length = bytes) (hbytes : bytes ≤ capacity)
    (hgrows : ∀ b s env, s.length ≤ ((next b s).run env).value.stored.length)
    {fits : Nat → Reads → Prop}
    (hnext : ∀ b s env, s.length = b → b ≤ capacity →
      (((next b s).run env).value.stored.length ≤ capacity ↔ fits b env.reads)) :
    ((turn bytes stored next).run env).value.stored.length ≤ capacity ↔
      PacketFits receive capacity nbyte bytes env.reads fits := by
  obtain ⟨hnone, hsome⟩ := h bytes stored next env
  unfold PacketFits
  cases harr : arrival receive env.reads with
  | none =>
    rw [hnone harr, hstored]
    simp [hbytes]
  | some p =>
    obtain ⟨size, rest⟩ := p
    obtain ⟨data, env', hdata, rfl, hvalue⟩ := hsome size rest harr
    have hlen : (stored ++ data).length = bytes + size := by
      rw [List.length_append, hstored, hdata]
    rw [hvalue]
    simp only [Option.mem_def, Option.some.injEq, forall_eq']
    split_ifs with hmore
    · constructor
      · intro hle
        have hfit : bytes + size ≤ capacity := by
          rw [← hlen]
          exact (hgrows _ _ _).trans hle
        exact ⟨hfit, fun _ => (hnext _ _ _ hlen hfit).mp hle⟩
      · rintro ⟨hfit, hfits⟩
        exact (hnext _ _ _ hlen hfit).mpr (hfits hmore)
    · show (stored ++ data).length ≤ capacity ↔ _
      rw [hlen]
      exact ⟨fun hle => ⟨hle, fun hm => absurd hm hmore⟩, fun hfit => hfit.1⟩

theorem grows_transferLoop (h : TakesPacket receive turn nbyte) (turns bytes : Nat)
    (stored : List UInt8) (env : Env ρ) :
    stored.length ≤ ((transferLoop turn turns bytes stored).run env).value.stored.length := by
  have hturn : ∀ (next : Nat → List UInt8 → Proc ι ρ Transfer) bytes stored env,
      (∀ b s env, s.length ≤ ((next b s).run env).value.stored.length) →
      stored.length ≤ ((turn bytes stored next).run env).value.stored.length := by
    intro next bytes stored env hnext
    obtain ⟨hnone, hsome⟩ := h bytes stored next env
    cases harr : arrival receive env.reads with
    | none => rw [hnone harr]
    | some p =>
      obtain ⟨data, env', _, _, hvalue⟩ := hsome p.1 p.2 harr
      have hle : stored.length ≤ (stored ++ data).length := by
        rw [List.length_append]
        exact Nat.le_add_right _ _
      rw [hvalue]
      split_ifs
      · exact hle.trans (hnext _ _ _)
      · exact hle
  induction turns generalizing bytes stored env with
  | zero => exact hturn _ bytes stored env fun b s env => le_rfl
  | succ turns ih => exact hturn _ bytes stored env ih

/-- A transfer stays inside its buffer exactly when the packets fit. -/
theorem stored_transferLoop (h : TakesPacket receive turn nbyte) (capacity turns bytes : Nat)
    (stored : List UInt8) (env : Env ρ) (hstored : stored.length = bytes) (hbytes : bytes ≤ capacity) :
    ((transferLoop turn turns bytes stored).run env).value.stored.length ≤ capacity ↔
      PacketsFit receive capacity nbyte turns bytes env.reads := by
  induction turns generalizing bytes stored env with
  | zero =>
    apply stored_turn h hstored hbytes
    · exact fun b s env => le_rfl
    · intro b s env hs hb
      show s.length ≤ capacity ↔ True
      rw [hs]
      exact iff_true_intro hb
  | succ turns ih =>
    apply stored_turn h hstored hbytes
    · exact grows_transferLoop h turns
    · exact fun b s env hs hb => ih b s env hs hb

end transferLoop

theorem stored_slaveread (capacity : Nat) (nbyte : Int) (env : Env ρ) :
    ((linkProtocolSlaveread nbyte none : Proc ι ρ _).run env).value.stored.length ≤ capacity ↔
      PacketsFit (slaveReceive : Proc ι ρ _) capacity nbyte nbyte.toNat 0 env.reads := by
  unfold linkProtocolSlaveread
  rw [slavereadLoop_eq]
  exact stored_transferLoop (takesPacket_slave nbyte) capacity nbyte.toNat 0 [] env rfl
    (Nat.zero_le _)

theorem stored_masterread (capacity : Nat) (nbyte : Int) (env : Env ρ) :
    ((linkProtocolMasterread nbyte : Proc ι ρ _).run env).value.stored.length ≤ capacity ↔
      PacketsFit (masterReceive : Proc ι ρ _) capacity nbyte nbyte.toNat 0 env.reads := by
  unfold linkProtocolMasterread
  rw [masterreadLoop_eq]
  exact stored_transferLoop (takesPacket_master nbyte) capacity nbyte.toNat 0 [] env rfl
    (Nat.zero_le _)

/-! ### What the device writes while it receives -/

section always

variable {P : Event ι → Prop} {callback : Option (List UInt8 → Proc ι ρ Int)}

omit [Inhabited ρ] in
theorem always_slavereadTurn {nbyte : Int} {bytes : Nat} {stored : List UInt8}
    {next : Nat → List UInt8 → Proc ι ρ Transfer} (hread : ∀ dst n, P (.read dst n))
    (hwrite : ∀ ack checksum, ack = linkPacketAck ∨ ack = linkPacketNack →
      P (.wrote (ackBytes ack checksum)))
    (hcallback : ∀ c ∈ callback, ∀ bs, (c bs).Always P fun _ => True)
    (hnext : ∀ b s, (next b s).Always P fun _ => True) :
    (slavereadTurn callback nbyte bytes stored next).Always P fun _ => True := by
  have hreads : ∀ e : Event ι, (∃ dst n, e = .read dst n) → P e := by
    rintro e ⟨dst, n, rfl⟩
    exact hread dst n
  apply (receives_slave.mono_event hreads).bind
  intro r _
  cases r with
  -- the packet is refused
  | error e => exact ⟨hwrite _ _ (.inr rfl), fun _ => trivial⟩
  | ok pkt =>
    -- the next packet is asked for while this one was full
    have hloop : ∀ s, Always P (if ((bytes + pkt.size.toNat : Nat) : Int) < nbyte ∧
        pkt.size.toNat = linkPacketDataSize then next (bytes + pkt.size.toNat) s
        else ret ⟨(bytes + pkt.size.toNat : Nat), s⟩) fun _ => True := by
      intro s
      split_ifs
      · exact hnext _ _
      · exact trivial
    cases callback with
    | none => exact ⟨hwrite _ _ (.inl rfl), fun _ => hloop _⟩
    | some callback =>
      apply (hcallback callback rfl pkt.data).bind
      intro taken _
      dsimp only
      -- the callback may refuse the data
      by_cases htaken : taken < 0
      · rw [if_pos htaken]
        exact ⟨hwrite _ _ (.inr rfl), fun _ => trivial⟩
      · rw [if_neg htaken]
        refine ⟨hwrite _ _ (.inl rfl), fun sent => ?_⟩
        beta_reduce
        -- the acknowledgement may not get through
        by_cases hsent : sent < 0
        · rw [if_pos hsent]
          exact trivial
        · rw [if_neg hsent]
          exact hloop stored

omit [Inhabited ρ] in
/-- Besides what its callback does, `link_protocol_slaveread` reads, and writes acknowledgements. -/
theorem always_slaveread {nbyte : Int} (hread : ∀ dst n, P (.read dst n))
    (hwrite : ∀ ack checksum, ack = linkPacketAck ∨ ack = linkPacketNack →
      P (.wrote (ackBytes ack checksum)))
    (hcallback : ∀ c ∈ callback, ∀ bs, (c bs).Always P fun _ => True) :
    (linkProtocolSlaveread nbyte callback).Always P fun _ => True := by
  unfold linkProtocolSlaveread
  rw [slavereadLoop_eq]
  generalize nbyte.toNat = turns
  generalize (0 : Nat) = bytes
  generalize ([] : List UInt8) = stored
  induction turns generalizing bytes stored with
  | zero => exact always_slavereadTurn hread hwrite hcallback fun _ _ => trivial
  | succ turns ih => exact always_slavereadTurn hread hwrite hcallback ih

end always

end Link

end CoActionOS
