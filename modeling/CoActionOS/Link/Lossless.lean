import CoActionOS.Lib.Dialogue
import CoActionOS.Link.Packets

/-!
# Transfers over a channel that loses nothing

A packet or an acknowledgement that is under way is taken whole by the function that waits for it,
however it is cut into reads.  From this the two transfers are followed packet by packet, each from the
rest of the transfer.
-/

namespace CoActionOS

namespace Link

open Proc Surroundings

variable {ι ρ α S : Type} {w : Surroundings ι ρ S} {s : S}

/-! ### Taking bytes -/

theorem takes_readSome {r dst n : Nat} {g : Except Int (List UInt8) → Proc ι ρ α} {bs : List UInt8}
    {p : Party ι ρ α S} (hpos : 0 < n) (hn : n ≤ bs.length)
    (hg : ∀ got rest, bs = got ++ rest → got ≠ [] → got.length ≤ n →
      w.Takes (w.fresh s (g (.ok got))) rest p) :
    w.Takes ⟨r, s, (readSome dst n (r + 1)).bind g⟩ bs p := by
  induction r with
  | zero =>
    refine .read hpos hn ?_ fun r₀ hr => absurd hr (by omega)
    intro got rest hbs hne hlen
    cases got with
    | nil => exact absurd rfl hne
    | cons b got => exact hg (b :: got) rest hbs hne hlen
  | succ r ih =>
    refine .read hpos hn ?_ ?_
    · intro got rest hbs hne hlen
      cases got with
      | nil => exact absurd rfl hne
      | cons b got => exact hg (b :: got) rest hbs hne hlen
    · rintro r₀ hr
      obtain rfl : r = r₀ := by omega
      exact .wait ih

variable {timeout : Nat}

theorem takes_readAll (ht : timeout = w.patience + 1) (turns dst : Nat) (acc bs : List UInt8)
    (hturns : bs.length ≤ turns) (g : Except Int (List UInt8) → Proc ι ρ α) :
    w.Takes (w.fresh s ((readAll timeout turns dst bs.length acc).bind g)) bs
      (w.fresh s (g (.ok (acc ++ bs)))) := by
  induction turns generalizing dst acc bs with
  | zero =>
    obtain rfl := List.length_eq_zero_iff.mp (Nat.le_zero.mp hturns)
    rw [List.append_nil]
    exact .here
  | succ turns ih =>
    unfold readAll
    by_cases hzero : bs.length = 0
    · obtain rfl := List.length_eq_zero_iff.mp hzero
      rw [if_pos hzero, List.append_nil]
      exact .here
    · rw [if_neg hzero, Proc.bind_assoc, ht]
      apply takes_readSome (Nat.pos_of_ne_zero hzero) le_rfl
      intro got rest hbs hne hlen
      have hpos := List.length_pos_iff.mpr hne
      have hrest : bs.length - got.length = rest.length := by
        rw [hbs, List.length_append]
        omega
      dsimp only
      rw [hrest, ← ht, hbs, ← List.append_assoc]
      exact ih (dst + got.length) (acc ++ got) rest (by omega)

theorem takes_readOne (ht : timeout = w.patience + 1) (dst : Nat) (b : UInt8)
    (g : Except Int (List UInt8) → Proc ι ρ α) :
    w.Takes (w.fresh s ((readSome dst 1 timeout).bind g)) [b] (w.fresh s (g (.ok [b]))) := by
  rw [ht]
  apply takes_readSome Nat.one_pos le_rfl
  intro got rest hbs hne _
  cases got with
  | nil => exact absurd rfl hne
  | cons b' got =>
    obtain ⟨rfl, hnil⟩ := List.cons.inj hbs
    obtain ⟨rfl, rfl⟩ := List.append_eq_nil_iff.mp hnil.symm
    exact .here

theorem takes_waitStart (ht : timeout = w.patience + 1) (g : Except Int UInt8 → Proc ι ρ α) :
    w.Takes (w.fresh s ((linkProtocolWaitStart timeout).bind g)) [linkPacketStart]
      (w.fresh s (g (.ok linkPacketStart))) := by
  unfold linkProtocolWaitStart
  rw [Proc.bind_assoc]
  exact takes_readOne ht 0 linkPacketStart _

theorem takes_waitPacket (ht : timeout = w.patience + 1) {data : List UInt8} (start checksum : UInt8)
    (hdata : data.length ≤ linkPacketDataSize) (g : Except Int LinkPkt → Proc ι ρ α) :
    w.Takes (w.fresh s ((linkProtocolWaitPacket start timeout).bind g))
      ([UInt8.ofNat data.length] ++ (data ++ [checksum]))
      (w.fresh s (g (.ok ⟨start, UInt8.ofNat data.length, data, checksum⟩))) := by
  unfold linkProtocolWaitPacket
  rw [Proc.bind_assoc]
  apply (takes_readOne ht 1 _ _).trans
  have hlen : (data ++ [checksum]).length = data.length + 1 := by
    rw [List.length_append, List.length_singleton]
  have htake : (data ++ [checksum]).take data.length = data := List.take_left
  have hget : (data ++ [checksum]).getD data.length 0 = checksum := by simp
  simp only [List.headD_cons, toNat_size hdata, if_neg (not_lt.mpr hdata)]
  rw [Proc.bind_assoc, ← hlen]
  apply (takes_readAll ht _ 2 [] (data ++ [checksum]) le_rfl _).congr
  dsimp only [List.nil_append, ret_bind]
  rw [htake, hget]

theorem packetBytes_eq (data : List UInt8) :
    packetBytes data =
      [linkPacketStart] ++ ([UInt8.ofNat data.length] ++ (data ++ [checksumOf data])) := rfl

theorem takes_slaveReceive (ht : slaveTimeout = w.patience + 1) {data : List UInt8}
    (hdata : data.length ≤ linkPacketDataSize) (g : Except (UInt8 × Nat) LinkPkt → Proc ι ρ α) :
    w.Takes (w.fresh s (slaveReceive.bind g)) (packetBytes data)
      (w.fresh s (g (.ok (packetOf data)))) := by
  unfold slaveReceive
  rw [Proc.bind_assoc, packetBytes_eq]
  apply (takes_waitStart ht _).trans
  dsimp only
  rw [Proc.bind_assoc]
  apply (takes_waitPacket ht linkPacketStart (checksumOf data) hdata _).congr
  have hok := checksumIsok_packetOf hdata
  unfold packetOf at hok ⊢
  dsimp only
  rw [if_neg (not_not.mpr rfl), hok, if_pos rfl]
  rfl

theorem takes_masterReceive (ht : masterTimeout = w.patience + 1) {data : List UInt8}
    (hdata : data.length ≤ linkPacketDataSize) (g : Except Int LinkPkt → Proc ι ρ α) :
    w.Takes (w.fresh s (masterReceive.bind g)) (packetBytes data)
      (w.fresh s (g (.ok (packetOf data)))) := by
  unfold masterReceive
  rw [Proc.bind_assoc, packetBytes_eq]
  apply (takes_waitStart ht _).trans
  dsimp only
  rw [Proc.bind_assoc]
  apply (takes_waitPacket ht linkPacketStart (checksumOf data) hdata _).congr
  have hok := checksumIsok_packetOf hdata
  unfold packetOf at hok ⊢
  dsimp only
  rw [hok, if_pos rfl]
  rfl

theorem takes_waitAck (ht : masterTimeout = w.patience + 1) (ack checksum : UInt8)
    (g : Int → Proc ι ρ α) :
    w.Takes (w.fresh s ((waitAck checksum masterTimeout).bind g)) (ackBytes ack checksum)
      (w.fresh s (g (ack.toNat : Int))) := by
  unfold waitAck
  rw [Proc.bind_assoc]
  apply (takes_readAll ht 2 0 [] (ackBytes ack checksum) le_rfl _).congr
  have hsum : (ackBytes ack checksum).getD 1 0 = checksum := rfl
  dsimp only [List.nil_append]
  rw [hsum, if_neg (not_not.mpr rfl)]
  rfl

/-! ### A packet, an acknowledgement -/

section

variable {ι' ρ' β S' : Type} {v : Surroundings ι' ρ' S'} {Post : α → S → β → S' → Prop} {s' : S'}
  {data : List UInt8}

theorem packetBytes_ne_nil (data : List UInt8) : packetBytes data ≠ [] := List.cons_ne_nil _ _

theorem dialogue_packetOut (hv : slaveTimeout = v.patience + 1)
    (hdata : data.length ≤ linkPacketDataSize) {k : Int → Proc ι ρ α}
    {g : Except (UInt8 × Nat) LinkPkt → Proc ι' ρ' β}
    (h : Dialogue w v Post s (k ((data.length + linkPacketHeaderSize : Nat) : Int)) s'
      (g (.ok (packetOf data)))) (hopen : (g (.ok (packetOf data))).Open) :
    Dialogue w v Post s (write (packetBytes data) k) s' (slaveReceive.bind g) := by
  rw [← length_packetBytes] at h
  exact h.send hopen (packetBytes_ne_nil data) (takes_slaveReceive hv hdata g)

theorem dialogue_packetIn (hw : masterTimeout = w.patience + 1)
    (hdata : data.length ≤ linkPacketDataSize) {k : Int → Proc ι' ρ' β}
    {g : Except Int LinkPkt → Proc ι ρ α}
    (h : Dialogue w v Post s (g (.ok (packetOf data))) s'
      (k ((data.length + linkPacketHeaderSize : Nat) : Int))) :
    Dialogue w v Post s (masterReceive.bind g) s' (write (packetBytes data) k) := by
  rw [← length_packetBytes] at h
  exact h.send_right (packetBytes_ne_nil data) (takes_masterReceive hw hdata g)

theorem dialogue_ack (hw : masterTimeout = w.patience + 1) {ack checksum : UInt8}
    {f : Int → Proc ι ρ α} {k : Int → Proc ι' ρ' β}
    (h : Dialogue w v Post s (f (ack.toNat : Int)) s' (k 2)) :
    Dialogue w v Post s ((waitAck checksum masterTimeout).bind f) s'
      (write (ackBytes ack checksum) k) :=
  h.send_right (List.cons_ne_nil _ _) (takes_waitAck hw ack checksum f)

/-! ### The two transfers -/

/-- The host sends a packet, which the device acknowledges and goes on as `q`. -/
theorem dialogue_writeTurn (hv : slaveTimeout = v.patience + 1) {buf : List UInt8} {nbyte : Int}
    {bytes : Nat} {next : Nat → Proc ι ρ Int} {f : Int → Proc ι ρ α}
    {g : Except (UInt8 × Nat) LinkPkt → Proc ι' ρ' β} {q : Proc ι' ρ' β} {s₁ : S'}
    (hdata : (buf.drop bytes).take (packetSize nbyte bytes) = data)
    (hlen : data.length ≤ linkPacketDataSize) (hopen : (g (.ok (packetOf data))).Open)
    (hg : ∀ f : Int → Proc ι ρ α, Dialogue w v Post s (f (linkPacketAck.toNat : Int)) s₁ q →
      Dialogue w v Post s ((waitAck (checksumOf data) masterTimeout).bind f) s'
        (g (.ok (packetOf data))))
    (h : Dialogue w v Post s
      ((if ((bytes + packetSize nbyte bytes : Nat) : Int) < nbyte ∧
          packetSize nbyte bytes = linkPacketDataSize then next (bytes + packetSize nbyte bytes)
        else ret (bytes + packetSize nbyte bytes : Nat)).bind f) s₁ q) :
    Dialogue w v Post s ((masterwriteTurn buf nbyte bytes next).bind f) s' (slaveReceive.bind g) := by
  subst hdata
  apply dialogue_packetOut hv hlen _ hopen
  dsimp only
  rw [if_neg (not_not.mpr (Int.natCast_add _ _)), Proc.bind_assoc]
  apply hg
  rw [if_neg (by decide)]
  exact h

/-- A device without callback acknowledges every packet. -/
theorem dialogue_slavereadTurn (hw : masterTimeout = w.patience + 1)
    (hv : slaveTimeout = v.patience + 1) {buf : List UInt8} {nbyte nbyte' : Int} {bytes : Nat}
    {stored : List UInt8} {next : Nat → Proc ι ρ Int}
    {next' : Nat → List UInt8 → Proc ι' ρ' Transfer} {f : Int → Proc ι ρ α}
    {g : Transfer → Proc ι' ρ' β}
    (hdata : (buf.drop bytes).take (packetSize nbyte bytes) = data)
    (hlen : data.length ≤ linkPacketDataSize)
    (h : Dialogue w v Post s
      ((if ((bytes + packetSize nbyte bytes : Nat) : Int) < nbyte ∧
          packetSize nbyte bytes = linkPacketDataSize then next (bytes + packetSize nbyte bytes)
        else ret (bytes + packetSize nbyte bytes : Nat)).bind f) s'
      ((if ((bytes + data.length : Nat) : Int) < nbyte' ∧ data.length = linkPacketDataSize then
          next' (bytes + data.length) (stored ++ data)
        else ret ⟨(bytes + data.length : Nat), stored ++ data⟩).bind g)) :
    Dialogue w v Post s ((masterwriteTurn buf nbyte bytes next).bind f) s'
      ((slavereadTurn none nbyte' bytes stored next').bind g) := by
  unfold slavereadTurn
  rw [Proc.bind_assoc]
  apply dialogue_writeTurn hv hdata hlen (fun _ h => by cases h) _ h
  intro f hf
  apply dialogue_ack hw
  unfold packetOf
  dsimp only
  rw [toNat_size hlen]
  exact hf

theorem take_append_packet {buf : List UInt8} {bytes : Nat} (hbytes : bytes ≤ buf.length) :
    buf.take bytes ++ (buf.drop bytes).take (packetSize buf.length bytes) =
        buf.take (bytes + packetSize buf.length bytes) ∧
      ((buf.drop bytes).take (packetSize buf.length bytes)).length = packetSize buf.length bytes := by
  have hsize := packetSize_eq hbytes
  refine ⟨List.take_add.symm, ?_⟩
  rw [List.length_take, List.length_drop]
  omega

/-- The packet from `bytes` on is the last one, which ends both loops, or a full one, after which both go on. -/
theorem packet_last_or_full {buf : List UInt8} {nbyte : Int} {bytes : Nat} (hbytes : bytes ≤ buf.length)
    (hn : nbyte = buf.length ∨ buf.length < linkPacketDataSize) :
    bytes + packetSize buf.length bytes = buf.length ∧
        ¬((buf.length : Int) < nbyte ∧ packetSize buf.length bytes = linkPacketDataSize) ∨
      linkPacketDataSize < buf.length - bytes ∧ nbyte = buf.length ∧
        packetSize buf.length bytes = linkPacketDataSize := by
  have hsize := packetSize_eq hbytes
  by_cases hlast : buf.length - bytes ≤ linkPacketDataSize
  · left
    have hend : bytes + packetSize buf.length bytes = buf.length := by
      rw [hsize, min_eq_left hlast]
      omega
    refine ⟨hend, ?_⟩
    rintro ⟨hlt, hfull⟩
    rcases hn with rfl | hshort
    · omega
    · omega
  · right
    refine ⟨not_le.mp hlast, hn.resolve_right (by omega), ?_⟩
    rw [hsize, min_eq_right (by omega)]

/-- Two loops that take a full packet in each turn, with `turns` and `turns'` left: a property that each turn
hands on holds from the start. -/
theorem turns_of_turn {len : Nat} {nbyte : Int} {P : Nat → Nat → Nat → Prop}
    (hlast : ∀ turns' bytes, bytes ≤ len → len - bytes ≤ linkPacketDataSize → P 0 turns' bytes)
    (halone : ∀ turns bytes, bytes ≤ len → nbyte ≠ len → P (turns + 1) 0 bytes)
    (hturn : ∀ turns turns' bytes, bytes ≤ len →
      (linkPacketDataSize < len - bytes → nbyte = len → P turns turns' (bytes + linkPacketDataSize)) →
      P (turns + 1) (turns' + 1) bytes) :
    ∀ turns turns' bytes, bytes ≤ len → len - bytes ≤ turns → (nbyte = len → turns' = turns) →
      P turns turns' bytes := by
  intro turns
  induction turns with
  | zero =>
    intro turns' bytes hbytes hturns _
    exact hlast turns' bytes hbytes (by omega)
  | succ turns ih =>
    intro turns' bytes hbytes hturns heq
    cases turns' with
    | zero => exact halone turns bytes hbytes fun hn => absurd (heq hn) (by omega)
    | succ turns' =>
      apply hturn turns turns' bytes hbytes
      intro hmore hn
      apply ih turns' (bytes + linkPacketDataSize)
      · omega
      · unfold linkPacketDataSize at hmore ⊢
        omega
      · intro hn
        exact Nat.succ.inj (heq hn)

/-- A turn of the transfer of `buf`, to a device that expects as many bytes or gets less than a full
packet. -/
theorem dialogue_write_turn (hw : masterTimeout = w.patience + 1) (hv : slaveTimeout = v.patience + 1)
    {buf : List UInt8} {nbyte : Int} {bytes : Nat} {next : Nat → Proc ι ρ Int}
    {next' : Nat → List UInt8 → Proc ι' ρ' Transfer} {f : Int → Proc ι ρ α}
    {g : Transfer → Proc ι' ρ' β} (hbytes : bytes ≤ buf.length)
    (hn : nbyte = buf.length ∨ buf.length < linkPacketDataSize)
    (hmore : linkPacketDataSize < buf.length - bytes → nbyte = buf.length →
      Dialogue w v Post s ((next (bytes + linkPacketDataSize)).bind f) s'
        ((next' (bytes + linkPacketDataSize) (buf.take (bytes + linkPacketDataSize))).bind g))
    (h : Dialogue w v Post s (f buf.length) s' (g ⟨buf.length, buf⟩)) :
    Dialogue w v Post s ((masterwriteTurn buf buf.length bytes next).bind f) s'
      ((slavereadTurn none nbyte bytes (buf.take bytes) next').bind g) := by
  have hsize := packetSize_eq hbytes
  obtain ⟨hstored, hlen⟩ := take_append_packet hbytes
  apply dialogue_slavereadTurn hw hv rfl
  · rw [hlen, hsize]
    exact min_le_right _ _
  rw [hlen, hstored]
  rcases packet_last_or_full hbytes hn with ⟨hend, hstop⟩ | ⟨hleft, rfl, hfull⟩
  · rw [hend, if_neg (by omega), if_neg hstop, List.take_length]
    exact h
  · have hlt : ((bytes + linkPacketDataSize : Nat) : Int) < buf.length := by omega
    rw [hfull, if_pos ⟨hlt, rfl⟩, if_pos ⟨hlt, rfl⟩]
    exact hmore hleft rfl

/-- The host's data arrives whole, and both sides go on. -/
theorem dialogue_write (hw : masterTimeout = w.patience + 1) (hv : slaveTimeout = v.patience + 1)
    {buf : List UInt8} {nbyte : Int} {f : Int → Proc ι ρ α} {g : Transfer → Proc ι' ρ' β}
    (hn : nbyte = buf.length ∨ buf.length < linkPacketDataSize)
    (h : Dialogue w v Post s (f buf.length) s' (g ⟨buf.length, buf⟩)) :
    Dialogue w v Post s ((linkProtocolMasterwrite buf buf.length).bind f) s'
      ((linkProtocolSlaveread nbyte none).bind g) := by
  have hloop : ∀ turns turns' bytes, bytes ≤ buf.length → buf.length - bytes ≤ turns →
      (nbyte = buf.length → turns' = turns) →
      Dialogue w v Post s ((masterwriteLoop buf buf.length turns bytes).bind f) s'
        ((slavereadLoop none nbyte turns' bytes (buf.take bytes)).bind g) := by
    apply turns_of_turn
    · intro turns' bytes hbytes hleft
      cases turns' with
      | zero => exact dialogue_write_turn hw hv hbytes hn (fun hmore => absurd hmore (not_lt.mpr hleft)) h
      | succ turns' => exact dialogue_write_turn hw hv hbytes hn (fun hmore => absurd hmore (not_lt.mpr hleft)) h
    · intro turns bytes hbytes hne
      exact dialogue_write_turn hw hv hbytes hn (fun _ hn => absurd hn hne) h
    · intro turns turns' bytes hbytes hnext
      exact dialogue_write_turn hw hv hbytes hn hnext h
  apply hloop buf.length nbyte.toNat 0 (Nat.zero_le _) le_rfl
  rintro rfl
  exact Int.toNat_natCast _

/-- The device sends a packet and the host takes it. -/
theorem dialogue_masterreadTurn (hw : masterTimeout = w.patience + 1) {nbyte : Int} {bytes : Nat}
    {stored : List UInt8} {next : Nat → List UInt8 → Proc ι ρ Transfer} {f : Transfer → Proc ι ρ α}
    {k : Int → Proc ι' ρ' β} (hlen : data.length ≤ linkPacketDataSize)
    (h : Dialogue w v Post s
      ((if ((bytes + data.length : Nat) : Int) < nbyte ∧ data.length = linkPacketDataSize then
          next (bytes + data.length) (stored ++ data)
        else ret ⟨(bytes + data.length : Nat), stored ++ data⟩).bind f) s'
      (k ((data.length + linkPacketHeaderSize : Nat) : Int))) :
    Dialogue w v Post s ((masterreadTurn nbyte bytes stored next).bind f) s'
      (write (packetBytes data) k) := by
  unfold masterreadTurn
  rw [Proc.bind_assoc]
  apply dialogue_packetIn hw hlen
  unfold packetOf
  dsimp only
  rw [toNat_size hlen]
  exact h

theorem dialogue_read_turn (hw : masterTimeout = w.patience + 1) {buf : List UInt8} {nbyte : Int}
    {bytes : Nat} {next : Nat → List UInt8 → Proc ι ρ Transfer} {next' : Nat → Proc ι' ρ' Int}
    {f : Transfer → Proc ι ρ α} {g : Int → Proc ι' ρ' β} (hbytes : bytes ≤ buf.length)
    (hn : nbyte = buf.length ∨ buf.length < linkPacketDataSize)
    (hmore : linkPacketDataSize < buf.length - bytes → nbyte = buf.length →
      Dialogue w v Post s
        ((next (bytes + linkPacketDataSize) (buf.take (bytes + linkPacketDataSize))).bind f) s'
        ((next' (bytes + linkPacketDataSize)).bind g))
    (h : Dialogue w v Post s (f ⟨buf.length, buf⟩) s' (g buf.length)) :
    Dialogue w v Post s ((masterreadTurn nbyte bytes (buf.take bytes) next).bind f) s'
      ((slavewriteTurn none buf buf.length bytes next').bind g) := by
  have hsize := packetSize_eq hbytes
  obtain ⟨hstored, hlen⟩ := take_append_packet hbytes
  apply dialogue_masterreadTurn hw
  · rw [hlen, hsize]
    exact min_le_right _ _
  dsimp only
  rw [if_neg (not_not.mpr (Int.natCast_add _ _)), hlen, hstored]
  rcases packet_last_or_full hbytes hn with ⟨hend, hstop⟩ | ⟨hleft, rfl, hfull⟩
  · rw [hend, if_neg hstop, if_neg (by omega), List.take_length]
    exact h
  · have hlt : ((bytes + linkPacketDataSize : Nat) : Int) < buf.length := by omega
    rw [hfull, if_pos ⟨hlt, rfl⟩, if_pos ⟨hlt, rfl⟩]
    exact hmore hleft rfl

/-- The device's data arrives whole, and both sides go on. -/
theorem dialogue_read (hw : masterTimeout = w.patience + 1) {buf : List UInt8} {nbyte : Int}
    {f : Transfer → Proc ι ρ α} {g : Int → Proc ι' ρ' β}
    (hn : nbyte = buf.length ∨ buf.length < linkPacketDataSize)
    (h : Dialogue w v Post s (f ⟨buf.length, buf⟩) s' (g buf.length)) :
    Dialogue w v Post s ((linkProtocolMasterread nbyte).bind f) s'
      ((linkProtocolSlavewrite buf buf.length none).bind g) := by
  have hloop : ∀ turns turns' bytes, bytes ≤ buf.length → buf.length - bytes ≤ turns →
      (nbyte = buf.length → turns' = turns) →
      Dialogue w v Post s ((masterreadLoop nbyte turns' bytes (buf.take bytes)).bind f) s'
        ((slavewriteLoop none buf buf.length turns bytes).bind g) := by
    apply turns_of_turn
    · intro turns' bytes hbytes hleft
      cases turns' with
      | zero => exact dialogue_read_turn hw hbytes hn (fun hmore => absurd hmore (not_lt.mpr hleft)) h
      | succ turns' => exact dialogue_read_turn hw hbytes hn (fun hmore => absurd hmore (not_lt.mpr hleft)) h
    · intro turns bytes hbytes hne
      exact dialogue_read_turn hw hbytes hn (fun _ hn => absurd hn hne) h
    · intro turns turns' bytes hbytes hnext
      exact dialogue_read_turn hw hbytes hn hnext h
  apply hloop buf.length nbyte.toNat 0 (Nat.zero_le _) le_rfl
  rintro rfl
  exact Int.toNat_natCast _

end

/-! ### Both directions, alone -/

/-- The host's side of the channel: nothing is called, and an answer is waited for 2000 times. -/
def hostSide : Surroundings Unit Unit Unit := ⟨fun _ _ => ((), ()), masterTimeout - 1⟩

def deviceSide : Surroundings Unit Unit Unit := ⟨fun _ _ => ((), ()), slaveTimeout - 1⟩

/-- The two programs, with nothing under way. -/
def meeting {α β : Type} (p : Host α) (q : Proc Unit Unit β) : Talk Unit Unit α Unit Unit Unit β Unit :=
  ⟨hostSide.fresh () p, deviceSide.fresh () q, [], []⟩

/-- Every run of either transfer of a buffer comes to an end, and is then closed: both sides have returned
the number of bytes, the receiver has the bytes, and nothing is left in the channels.  The host is the
last to return. -/
theorem transfer_lossless (buf : List UInt8) :
    Talk.Completes hostSide deviceSide
      (fun (sent : Int) _ (received : Transfer) _ =>
        sent = buf.length ∧ received = ⟨buf.length, buf⟩)
      Talk.LeftOpen
      (meeting (linkProtocolMasterwrite buf buf.length) (linkProtocolSlaveread buf.length none)) ∧
    Talk.Completes hostSide deviceSide
      (fun (received : Transfer) _ (sent : Int) _ =>
        sent = buf.length ∧ received = ⟨buf.length, buf⟩)
      Talk.LeftOpen
      (meeting (linkProtocolMasterread buf.length) (linkProtocolSlavewrite buf buf.length none)) := by
  constructor
  · apply Talk.Ends.completes
    rw [← bind_ret (linkProtocolMasterwrite buf buf.length),
      ← bind_ret (linkProtocolSlaveread buf.length none)]
    exact dialogue_write rfl rfl (.inl rfl) (.closed ⟨rfl, rfl⟩)
  · apply Talk.Ends.completes
    rw [← bind_ret (linkProtocolMasterread buf.length),
      ← bind_ret (linkProtocolSlavewrite buf buf.length none)]
    exact dialogue_read rfl (.inl rfl) (.closed ⟨rfl, rfl⟩)

end Link

end CoActionOS
