import CoActionOS.Link.Commands

/-!
# Remote reads and writes

The device reads and writes a file packet by packet, with a call of its system for each.  The two loops of a
transfer have the same number of turns left; a turn is one call, one packet and, for a write, its
acknowledgement.
-/

namespace CoActionOS

namespace Link

open Proc Surroundings

variable {S : Type} {sys : DeviceSystem S} {s : S} {o : S × HostRet} {d : LinkData}

/-! ### Reading and writing -/

section

variable {phyHandle fildes : Word} {nbyte : Nat} {onFailure onFailure' : OnFailure} {α β : Type}
  {Post : α → Unit → β → S → Prop}

theorem packetSize_le {bytes : Nat} (h : bytes ≤ nbyte) :
    packetSize nbyte bytes ≤ linkPacketDataSize ∧ bytes + packetSize nbyte bytes ≤ nbyte := by
  rw [packetSize_eq h]
  omega

/-- A turn of `readLoop`; `next` is the rest of it. -/
def readTurn (sys : DeviceSystem S) (fildes : Word) (nbyte bytes : Nat) (data : List UInt8) (s : S)
    (next : Nat → List UInt8 → S → S × HostRet) : S × HostRet :=
  let (s, r) := sys s (.read fildes (packetSize nbyte bytes))
  if isNegative r.ret then
    if bytes = 0 then DeviceSystem.failure sys linkDevError [] s else (s, ⟨bytes, none, data⟩)
  else if bytes + r.ret.toNat < nbyte ∧ r.ret.toNat = linkPacketDataSize then
    next (bytes + r.ret.toNat) (data ++ sized r.ret.toNat r.data) s
  else (s, ⟨(bytes + r.ret.toNat : Nat), none, data ++ sized r.ret.toNat r.data⟩)

theorem readLoop_zero (bytes : Nat) (data : List UInt8) (s : S) :
    DeviceSystem.readLoop sys fildes nbyte 0 bytes data s =
      readTurn sys fildes nbyte bytes data s fun bytes data s => (s, ⟨bytes, none, data⟩) := rfl

theorem readLoop_succ (turns bytes : Nat) (data : List UInt8) (s : S) :
    DeviceSystem.readLoop sys fildes nbyte (turns + 1) bytes data s =
      readTurn sys fildes nbyte bytes data s (DeviceSystem.readLoop sys fildes nbyte turns) := rfl

theorem toInt_toNat_of_not_negative {w : Word} (h : isNegative w = false) : w.toInt.toNat = w.toNat := by
  have hpos := of_decide_eq_false h
  rw [BitVec.toInt_eq_toNat_cond] at hpos ⊢
  split_ifs at hpos ⊢ <;> omega

/-- A packet of the device's, and what both loops make of it. -/
theorem meets_readPacket {bytes : Nat} {data stored : List UInt8} {s : S}
    {next : Nat → List UInt8 → Host Transfer} {next' : Nat → Dev Int} {f : Transfer → Host α}
    {g : Int → Dev β} (hlen : data.length ≤ linkPacketDataSize)
    (hnext : data.length = linkPacketDataSize → bytes + data.length < nbyte →
      Meets sys Post ((next (bytes + data.length) (stored ++ data)).bind f) s
        ((next' (bytes + data.length)).bind g))
    (hlast : ¬(bytes + data.length < nbyte ∧ data.length = linkPacketDataSize) →
      Meets sys Post (f ⟨(bytes + data.length : Nat), stored ++ data⟩) s (g (bytes + data.length : Nat))) :
    Meets sys Post ((masterreadTurn nbyte bytes stored next).bind f) s
      ((write (packetBytes data) fun sent =>
        if sent ≠ data.length + linkPacketHeaderSize then ret (-1)
        else if ((bytes + data.length : Nat) : Int) < nbyte ∧ data.length = linkPacketDataSize then
          next' (bytes + data.length)
        else ret (bytes + data.length : Nat)).bind g) := by
  apply dialogue_masterreadTurn rfl hlen
  dsimp only
  rw [if_neg (not_not.mpr (Int.natCast_add _ _))]
  by_cases hmore : ((bytes + data.length : Nat) : Int) < nbyte ∧ data.length = linkPacketDataSize
  · rw [if_pos hmore, if_pos hmore]
    exact hnext hmore.2 (by omega)
  · rw [if_neg hmore, if_neg hmore]
    exact hlast fun h => hmore ⟨by omega, h.2⟩

/-- A read of the device's, a packet, and what both loops make of it. -/
theorem meets_readTurn {bytes : Nat} {stored : List UInt8} {s : S} {next : Nat → List UInt8 → Host Transfer}
    {next' : Nat → Dev Int} {next'' : Nat → List UInt8 → S → S × HostRet} {f : Transfer → Host α}
    {g : Int → Dev β} (hbytes : bytes ≤ nbyte)
    (hfirst : isNegative (sys s (.read fildes (packetSize nbyte bytes))).2.ret = true → bytes ≠ 0)
    (hlen : isNegative (sys s (.read fildes (packetSize nbyte bytes))).2.ret = false →
      (sys s (.read fildes (packetSize nbyte bytes))).2.ret.toNat ≤ packetSize nbyte bytes)
    (hnext : ∀ stored', (sys s (.read fildes (packetSize nbyte bytes))).2.ret.toNat = linkPacketDataSize →
      bytes + linkPacketDataSize < nbyte →
      isNegative (sys s (.read fildes (packetSize nbyte bytes))).2.ret = false →
      Meets sys Post
        (f ⟨(next'' (bytes + linkPacketDataSize) stored' (sys s (.read fildes (packetSize nbyte bytes))).1).2.ret,
          (next'' (bytes + linkPacketDataSize) stored' (sys s (.read fildes (packetSize nbyte bytes))).1).2.data⟩)
        (next'' (bytes + linkPacketDataSize) stored' (sys s (.read fildes (packetSize nbyte bytes))).1).1
        (g (next'' (bytes + linkPacketDataSize) stored' (sys s (.read fildes (packetSize nbyte bytes))).1).2.ret) →
      Meets sys Post ((next (bytes + linkPacketDataSize) stored').bind f)
        (sys s (.read fildes (packetSize nbyte bytes))).1 ((next' (bytes + linkPacketDataSize)).bind g))
    (h : Meets sys Post
      (f ⟨(readTurn sys fildes nbyte bytes stored s next'').2.ret,
        (readTurn sys fildes nbyte bytes stored s next'').2.data⟩)
      (readTurn sys fildes nbyte bytes stored s next'').1
      (g (readTurn sys fildes nbyte bytes stored s next'').2.ret)) :
    Meets sys Post ((masterreadTurn nbyte bytes stored next).bind f) s
      ((slavewriteTurn (some (readDeviceCallback fildes)) [] nbyte bytes next').bind g) := by
  obtain ⟨hsize, hend⟩ := packetSize_le hbytes
  have hne : linkPacketDataSize ≠ 0 := by decide
  unfold readTurn at h
  have hanswer : (systemSide sys).answer s (.read fildes (packetSize nbyte bytes)) =
      sys s (.read fildes (packetSize nbyte bytes)) := rfl
  generalize hr : sys s (.read fildes (packetSize nbyte bytes)) = r at *
  dsimp only at h
  unfold slavewriteTurn
  apply Dialogue.call_right
  · rw [hanswer]
    dsimp only [ret_bind]
    cases hneg : isNegative r.2.ret with
    | true =>
      rw [if_pos (of_decide_eq_true hneg)]
      rw [hneg, if_pos rfl, if_neg (hfirst hneg)] at h
      apply meets_readPacket (Nat.zero_le _)
      · exact fun hfull => absurd hfull.symm hne
      · intro _
        rw [List.append_nil]
        exact h
    | false =>
      rw [if_neg (of_decide_eq_false hneg), toInt_toNat_of_not_negative hneg]
      rw [hneg, if_neg Bool.false_ne_true] at h
      have hle := hlen hneg
      apply meets_readPacket
      · rw [length_sized]
        omega
      · rw [length_sized]
        intro hfull hmore
        rw [if_pos ⟨hmore, hfull⟩] at h
        rw [hfull] at hmore h ⊢
        exact hnext _ hfull hmore hneg h
      · rw [length_sized]
        intro hstop
        rw [if_neg hstop] at h
        exact h
  · rw [hanswer]
    apply Open.bind
    dsimp only [ret_bind]
    by_cases hneg : r.2.ret.toInt < 0
    · rw [if_pos hneg]
      exact open_write _ _
    · rw [if_neg hneg]
      exact open_write _ _

section

variable {turns bytes : Nat} {s : S}

theorem first_of_reads (h : DeviceSystem.ReadsSound sys fildes nbyte turns bytes s) :
    isNegative (sys s (.read fildes (packetSize nbyte bytes))).2.ret = true → bytes ≠ 0 := by
  intro hneg
  unfold DeviceSystem.ReadsSound at h
  dsimp only at h
  rwa [if_pos hneg] at h

theorem len_of_reads (h : DeviceSystem.ReadsSound sys fildes nbyte turns bytes s) :
    isNegative (sys s (.read fildes (packetSize nbyte bytes))).2.ret = false →
      (sys s (.read fildes (packetSize nbyte bytes))).2.ret.toNat ≤ packetSize nbyte bytes := by
  intro hneg
  unfold DeviceSystem.ReadsSound at h
  dsimp only at h
  rw [hneg, if_neg Bool.false_ne_true] at h
  exact h.1

theorem next_of_reads (h : DeviceSystem.ReadsSound sys fildes nbyte (turns + 1) bytes s)
    (hneg : isNegative (sys s (.read fildes (packetSize nbyte bytes))).2.ret = false)
    (hfull : (sys s (.read fildes (packetSize nbyte bytes))).2.ret.toNat = linkPacketDataSize)
    (hmore : bytes + linkPacketDataSize < nbyte) :
    DeviceSystem.ReadsSound sys fildes nbyte turns (bytes + linkPacketDataSize)
      (sys s (.read fildes (packetSize nbyte bytes))).1 := by
  unfold DeviceSystem.ReadsSound at h
  dsimp only at h
  rw [hneg, if_neg Bool.false_ne_true, hfull] at h
  exact h.2 ⟨hmore, rfl⟩

/-- The loop goes on after a full packet, or ends with what has come. -/
theorem readTurn_cases {data : List UInt8} {next : Nat → List UInt8 → S → S × HostRet}
    (hbytes : bytes ≤ nbyte) (h : DeviceSystem.ReadsSound sys fildes nbyte turns bytes s) :
    (isNegative (sys s (.read fildes (packetSize nbyte bytes))).2.ret = false ∧
        (sys s (.read fildes (packetSize nbyte bytes))).2.ret.toNat = linkPacketDataSize ∧
        bytes + linkPacketDataSize < nbyte ∧
        ∃ data', readTurn sys fildes nbyte bytes data s next =
          next (bytes + linkPacketDataSize) data' (sys s (.read fildes (packetSize nbyte bytes))).1) ∨
      ∃ n data', n ≤ nbyte ∧
        readTurn sys fildes nbyte bytes data s next =
          ((sys s (.read fildes (packetSize nbyte bytes))).1, ⟨(n : Nat), none, data'⟩) := by
  have hfirst := first_of_reads h
  have hlen := len_of_reads h
  have hsize := (packetSize_le hbytes).2
  unfold readTurn
  generalize sys s (.read fildes (packetSize nbyte bytes)) = r at *
  dsimp only
  cases hneg : isNegative r.2.ret with
  | true =>
    rw [if_pos rfl, if_neg (hfirst hneg)]
    exact .inr ⟨bytes, data, hbytes, rfl⟩
  | false =>
    have hle := hlen hneg
    rw [if_neg Bool.false_ne_true]
    split_ifs with hmore
    · obtain ⟨hlt, hfull⟩ := hmore
      rw [hfull] at hlt ⊢
      exact .inl ⟨rfl, rfl, hlt, _, rfl⟩
    · exact .inr ⟨bytes + r.2.ret.toNat, _, by omega, rfl⟩

end

/-- The loops of `link_read` and `link_cmd_read`, each with as many turns left.  The device's reads are those of
`readLoop`, and so are the bytes that come. -/
theorem meets_readLoop (turns bytes : Nat) (stored : List UInt8) (s : S) (hbytes : bytes ≤ nbyte)
    (hsound : DeviceSystem.ReadsSound sys fildes nbyte turns bytes s) {f : Transfer → Host α}
    {g : Int → Dev β}
    (h : Meets sys Post
      (f ⟨(DeviceSystem.readLoop sys fildes nbyte turns bytes stored s).2.ret,
        (DeviceSystem.readLoop sys fildes nbyte turns bytes stored s).2.data⟩)
      (DeviceSystem.readLoop sys fildes nbyte turns bytes stored s).1
      (g (DeviceSystem.readLoop sys fildes nbyte turns bytes stored s).2.ret)) :
    Meets sys Post ((masterreadLoop nbyte turns bytes stored).bind f) s
      ((slavewriteLoop (some (readDeviceCallback fildes)) [] nbyte turns bytes).bind g) := by
  induction turns generalizing bytes stored s with
  | zero =>
    rw [readLoop_zero] at h
    apply meets_readTurn hbytes (first_of_reads hsound) (len_of_reads hsound) _ h
    exact fun _ _ _ _ hnext => hnext
  | succ turns ih =>
    rw [readLoop_succ] at h
    apply meets_readTurn hbytes (first_of_reads hsound) (len_of_reads hsound) _ h
    intro stored' hfull hmore hneg hnext
    exact ih _ stored' _ hmore.le (next_of_reads hsound hneg hfull hmore) hnext

/-- What is read never exceeds what was asked for, and is no error. -/
theorem readLoop_spec (turns bytes : Nat) (stored : List UInt8) (s : S) (hbytes : bytes ≤ nbyte)
    (hsound : DeviceSystem.ReadsSound sys fildes nbyte turns bytes s) :
    ∃ n : Nat, n ≤ nbyte ∧ (DeviceSystem.readLoop sys fildes nbyte turns bytes stored s).2.ret = n ∧
      (DeviceSystem.readLoop sys fildes nbyte turns bytes stored s).2.errno = none := by
  induction turns generalizing bytes stored s with
  | zero =>
    rw [readLoop_zero]
    rcases readTurn_cases hbytes hsound with ⟨_, _, hmore, data', heq⟩ | ⟨n, data', hn, heq⟩
    · rw [heq]
      exact ⟨_, hmore.le, rfl, rfl⟩
    · rw [heq]
      exact ⟨n, hn, rfl, rfl⟩
  | succ turns ih =>
    rw [readLoop_succ]
    rcases readTurn_cases hbytes hsound with ⟨hneg, hfull, hmore, data', heq⟩ | ⟨n, data', hn, heq⟩
    · rw [heq]
      exact ih _ data' _ hmore.le (next_of_reads hsound hneg hfull hmore)
    · rw [heq]
      exact ⟨n, hn, rfl, rfl⟩

/-- The bytes, then the reply with their number. -/
theorem answers_read (hword : d.word 0 = fildes) (hsize : d.word 1 = BitVec.ofNat 32 nbyte)
    (hcmd : d.cmd ≠ 0) (hphy : fildes ≠ phyHandle) (hnbyte : nbyte < 2 ^ 31)
    (hsound : DeviceSystem.ReadsSound sys fildes nbyte nbyte 0 s) :
    Answers sys
      (readData nbyte onFailure fun data =>
        readReply onFailure' fun reply => ret { report reply with data := data }) s
      ((linkCmdRead phyHandle d).bind finish)
      (DeviceSystem.readLoop sys fildes nbyte nbyte 0 [] s) := by
  obtain ⟨n, hn, hret, herrno⟩ := readLoop_spec nbyte 0 [] s (Nat.zero_le _) hsound
  have hint : (BitVec.ofInt 32 (n : Int) : Word).toInt = n := by
    rw [BitVec.ofInt_natCast]
    exact toInt_ofNat (by omega)
  have hpos : isNegative (BitVec.ofInt 32 (n : Int)) = false := by
    unfold isNegative
    rw [hint]
    exact decide_eq_false (by omega)
  have hend : Answers sys
      (readReply onFailure' fun reply => ret
        { report reply with data := (DeviceSystem.readLoop sys fildes nbyte nbyte 0 [] s).2.data })
      (DeviceSystem.readLoop sys fildes nbyte nbyte 0 [] s).1 (finish (d.setErr (BitVec.ofInt 32 n)))
      (DeviceSystem.readLoop sys fildes nbyte nbyte 0 [] s) := by
    apply answers_finish
    · exact hcmd
    · apply answers_ret
      · refine ⟨hint.trans hret.symm, rfl, fun e he => ?_⟩
        rw [herrno] at he
        cases he
      · rw [hret]
        exact hpos.trans (decide_eq_false (by omega)).symm
  intro α β Post f g hnext
  unfold linkCmdRead readData linkProtocolMasterread linkProtocolSlavewrite
  rw [hword, if_neg hphy, hsize, toInt_ofNat hnbyte, Int.toNat_natCast, Proc.bind_assoc, Proc.bind_assoc,
    Proc.bind_assoc]
  apply meets_readLoop _ _ _ _ (Nat.zero_le _) hsound
  rw [hret]
  dsimp only
  rw [if_neg (by omega), hpos]
  exact hend α β Post f g hnext

end

section

variable {phyHandle fildes : Word} {buf : List UInt8} {onFailure onFailure' : OnFailure} {α β : Type}
  {Post : α → Unit → β → S → Prop}

/-- The bytes of the packet from `bytes` on. -/
def writeData (buf : List UInt8) (bytes : Nat) : List UInt8 := (buf.drop bytes).take linkPacketDataSize

theorem writeData_eq {bytes : Nat} (hbytes : bytes ≤ buf.length) :
    (buf.drop bytes).take (packetSize buf.length bytes) = writeData buf bytes ∧
      packetSize buf.length bytes = (writeData buf bytes).length := by
  have hlen : (writeData buf bytes).length = packetSize buf.length bytes := by
    unfold writeData
    rw [packetSize_eq hbytes, List.length_take, List.length_drop, min_comm]
  refine ⟨?_, hlen.symm⟩
  rw [← hlen]
  unfold writeData
  rw [List.length_take, ← List.take_take, List.take_length]

/-- A packet of the host's, the device's write, and its acknowledgement. -/
theorem meets_writeTurn {bytes : Nat} {stored : List UInt8} {s : S} {next : Nat → Host Int}
    {next' : Nat → List UInt8 → Dev Transfer} {f : Int → Host α} {g : Transfer → Dev β}
    (hbytes : bytes ≤ buf.length)
    (hfailed : isNegative (sys s (.write fildes (writeData buf bytes))).2.ret = true →
      buf.length ≤ bytes + linkPacketDataSize ∧
      Meets sys Post (f buf.length) (sys s (.write fildes (writeData buf bytes))).1 (g ⟨-1, stored⟩))
    (hlast : isNegative (sys s (.write fildes (writeData buf bytes))).2.ret = false →
      buf.length ≤ bytes + linkPacketDataSize →
      Meets sys Post (f buf.length) (sys s (.write fildes (writeData buf bytes))).1
        (g ⟨buf.length, stored⟩))
    (hnext : isNegative (sys s (.write fildes (writeData buf bytes))).2.ret = false →
      bytes + linkPacketDataSize < buf.length →
      Meets sys Post ((next (bytes + linkPacketDataSize)).bind f)
        (sys s (.write fildes (writeData buf bytes))).1
        ((next' (bytes + linkPacketDataSize) stored).bind g)) :
    Meets sys Post ((masterwriteTurn buf buf.length bytes next).bind f) s
      ((slavereadTurn (some (writeDeviceCallback fildes)) buf.length bytes stored next').bind g) := by
  obtain ⟨hdata, hsize⟩ := writeData_eq hbytes
  have hpacket : packetSize buf.length bytes = min (buf.length - bytes) linkPacketDataSize := packetSize_eq hbytes
  have hlen : (writeData buf bytes).length ≤ linkPacketDataSize := by
    rw [← hsize, hpacket]
    exact min_le_right _ _
  have hwhole : buf.length ≤ bytes + linkPacketDataSize → bytes + (writeData buf bytes).length = buf.length := by
    omega
  have hanswer : (systemSide sys).answer s (.write fildes (writeData buf bytes)) =
      sys s (.write fildes (writeData buf bytes)) := rfl
  generalize hr : sys s (.write fildes (writeData buf bytes)) = r at *
  unfold masterwriteTurn slavereadTurn
  dsimp only
  rw [Proc.bind_assoc, hdata, hsize]
  apply dialogue_packetOut rfl hlen
  · dsimp only
    rw [if_neg (not_not.mpr (Int.natCast_add _ _)), Proc.bind_assoc]
    unfold packetOf
    dsimp only
    rw [toNat_size hlen]
    apply Dialogue.call_right
    · rw [hanswer]
      dsimp only [ret_bind]
      cases hneg : isNegative r.2.ret with
      | true =>
        obtain ⟨hend, hmeets⟩ := hfailed hneg
        rw [if_pos (of_decide_eq_true hneg)]
        apply dialogue_ack rfl
        rw [if_neg (Int.not_lt.mpr (Int.natCast_nonneg _)), if_neg (by omega), hwhole hend]
        exact hmeets
      | false =>
        rw [if_neg (of_decide_eq_false hneg)]
        apply dialogue_ack rfl
        dsimp only
        rw [if_neg (Int.not_lt.mpr (Int.natCast_nonneg _)), if_neg (by decide : ¬(2 : Int) < 0)]
        by_cases hmore : bytes + linkPacketDataSize < buf.length
        · have hfull : (writeData buf bytes).length = linkPacketDataSize := by omega
          rw [hfull, if_pos ⟨by omega, rfl⟩, if_pos ⟨by omega, rfl⟩]
          exact hnext hneg hmore
        · rw [hwhole (by omega), if_neg (by omega), if_neg (by omega)]
          exact hlast hneg (by omega)
    · rw [hanswer]
      apply Open.bind
      dsimp only [ret_bind]
      by_cases hneg : r.2.ret.toInt < 0
      · rw [if_pos hneg]
        exact open_write _ _
      · rw [if_neg hneg]
        exact open_write _ _
  · exact open_call _ _

/-- The end of `writeLoop`: the last write has failed, or all is written. -/
inductive WriteEnds (sys : DeviceSystem S) (buf : List UInt8) (s : S) : Int → S × HostRet → Prop
  | failed : WriteEnds sys buf s (-1) (DeviceSystem.failure sys linkDevError [] s)
  | done : WriteEnds sys buf s buf.length (s, ⟨buf.length, none, []⟩)

section

variable {turns bytes : Nat} {s : S}

theorem failed_of_writes (h : DeviceSystem.WritesSound sys fildes buf turns bytes s)
    (hneg : isNegative (sys s (.write fildes (writeData buf bytes))).2.ret = true) :
    buf.length ≤ bytes + linkPacketDataSize ∧
      DeviceSystem.writeLoop sys fildes buf turns bytes s =
        DeviceSystem.failure sys linkDevError [] (sys s (.write fildes (writeData buf bytes))).1 := by
  unfold writeData at hneg ⊢
  constructor
  · unfold DeviceSystem.WritesSound at h
    dsimp only at h
    rwa [if_pos hneg] at h
  · unfold DeviceSystem.writeLoop
    dsimp only
    rw [if_pos hneg]

theorem ret_of_writes (h : DeviceSystem.WritesSound sys fildes buf turns bytes s)
    (hneg : isNegative (sys s (.write fildes (writeData buf bytes))).2.ret = false) :
    (sys s (.write fildes (writeData buf bytes))).2.ret.toNat = (writeData buf bytes).length := by
  unfold writeData at hneg ⊢
  unfold DeviceSystem.WritesSound at h
  dsimp only at h
  rw [hneg, if_neg Bool.false_ne_true] at h
  exact h.1

theorem length_writeData (buf : List UInt8) (bytes : Nat) :
    (writeData buf bytes).length = min linkPacketDataSize (buf.length - bytes) := by
  unfold writeData
  rw [List.length_take, List.length_drop]

theorem last_of_writes (h : DeviceSystem.WritesSound sys fildes buf turns bytes s)
    (hneg : isNegative (sys s (.write fildes (writeData buf bytes))).2.ret = false)
    (hbytes : bytes ≤ buf.length) (hlast : buf.length ≤ bytes + linkPacketDataSize) :
    DeviceSystem.writeLoop sys fildes buf turns bytes s =
      ((sys s (.write fildes (writeData buf bytes))).1, ⟨buf.length, none, []⟩) := by
  have hret := ret_of_writes h hneg
  have hlen := length_writeData buf bytes
  have hend : bytes + (writeData buf bytes).length = buf.length := by omega
  unfold DeviceSystem.writeLoop
  change (if isNegative (sys s (.write fildes (writeData buf bytes))).2.ret = true then _
    else if (sys s (.write fildes (writeData buf bytes))).2.ret.toNat = (writeData buf bytes).length ∧
      bytes + (sys s (.write fildes (writeData buf bytes))).2.ret.toNat < buf.length then _
    else ((sys s (.write fildes (writeData buf bytes))).1,
      (⟨((bytes + (sys s (.write fildes (writeData buf bytes))).2.ret.toNat : Nat) : Int), none, []⟩ :
        HostRet))) = _
  rw [hneg, if_neg Bool.false_ne_true, hret, hend, if_neg (by omega)]

theorem next_of_writes (h : DeviceSystem.WritesSound sys fildes buf (turns + 1) bytes s)
    (hneg : isNegative (sys s (.write fildes (writeData buf bytes))).2.ret = false)
    (hmore : bytes + linkPacketDataSize < buf.length) :
    DeviceSystem.WritesSound sys fildes buf turns (bytes + linkPacketDataSize)
        (sys s (.write fildes (writeData buf bytes))).1 ∧
      DeviceSystem.writeLoop sys fildes buf (turns + 1) bytes s =
        DeviceSystem.writeLoop sys fildes buf turns (bytes + linkPacketDataSize)
          (sys s (.write fildes (writeData buf bytes))).1 := by
  have hret := ret_of_writes h hneg
  have hlen : (writeData buf bytes).length = linkPacketDataSize := by
    rw [length_writeData]
    omega
  rw [hlen] at hret
  unfold writeData at hneg hret hlen ⊢
  constructor
  · unfold DeviceSystem.WritesSound at h
    dsimp only at h
    rw [hneg, if_neg Bool.false_ne_true, hlen] at h
    exact h.2 hmore
  · conv_lhs => unfold DeviceSystem.writeLoop
    dsimp only
    rw [hneg, if_neg Bool.false_ne_true, hret, hlen, if_pos ⟨rfl, hmore⟩]

end

/-- The loops of `link_write` and `link_cmd_write`: the device's writes are those of `writeLoop`. -/
theorem meets_writeLoop (turns bytes : Nat) (stored : List UInt8) (s : S) (hbytes : bytes ≤ buf.length)
    (hturns : buf.length - bytes ≤ turns)
    (hsound : DeviceSystem.WritesSound sys fildes buf turns bytes s) {f : Int → Host α}
    {g : Transfer → Dev β}
    (h : ∀ t s', WriteEnds sys buf s' t.ret (DeviceSystem.writeLoop sys fildes buf turns bytes s) →
      Meets sys Post (f buf.length) s' (g t)) :
    Meets sys Post ((masterwriteLoop buf buf.length turns bytes).bind f) s
      ((slavereadLoop (some (writeDeviceCallback fildes)) buf.length turns bytes stored).bind g) := by
  induction turns generalizing bytes stored s with
  | zero =>
    apply meets_writeTurn hbytes
    · intro hneg
      obtain ⟨hend, heq⟩ := failed_of_writes hsound hneg
      exact ⟨hend, h _ _ (heq ▸ .failed)⟩
    · intro hneg hlast
      exact h _ _ (last_of_writes hsound hneg hbytes hlast ▸ .done)
    · intro _ hmore
      omega
  | succ turns ih =>
    apply meets_writeTurn hbytes
    · intro hneg
      obtain ⟨hend, heq⟩ := failed_of_writes hsound hneg
      exact ⟨hend, h _ _ (heq ▸ .failed)⟩
    · intro hneg hlast
      exact h _ _ (last_of_writes hsound hneg hbytes hlast ▸ .done)
    · intro hneg hmore
      obtain ⟨hrest, heq⟩ := next_of_writes hsound hneg hmore
      apply ih _ stored _ hmore.le _ hrest
      · intro t s' hend
        exact h t s' (heq ▸ hend)
      · unfold linkPacketDataSize at *
        omega

/-- The reply to a write. -/
theorem answers_writeReply (onFailure : OnFailure) {ret : Int} (hcmd : d.cmd ≠ 0) (hlen : buf.length < 2 ^ 31)
    (h : WriteEnds sys buf s ret o) :
    Answers sys
      (readReply onFailure fun reply => Proc.ret
        (if isNegative reply.err then ⟨linkDevError, some reply.errNumber, []⟩ else report reply)) s
      ((noteErrno (isNegative (BitVec.ofInt 32 ret)) (d.setErr (BitVec.ofInt 32 ret))).bind finish) o := by
  cases h with
  | failed =>
    have hneg : isNegative (BitVec.ofInt 32 (-1)) = true := by decide
    rw [hneg]
    apply answers_noteErrno
    · intro d' hop
      apply open_finish
      rw [cmd_of_op hop]
      exact hcmd
    · apply answers_finish
      · exact hcmd
      · have herr : isNegative (noted sys true (d.setErr (BitVec.ofInt 32 (-1))) s).2.reply.err = true := hneg
        rw [herr, if_pos rfl]
        apply answers_ret (o := (_, _))
        · exact ⟨rfl, rfl, fun e he => he⟩
        · exact herr
  | done =>
    have hint : (BitVec.ofInt 32 (buf.length : Int) : Word).toInt = buf.length := by
      rw [BitVec.ofInt_natCast]
      exact toInt_ofNat hlen
    have hneg : isNegative (BitVec.ofInt 32 (buf.length : Int)) = false := by
      unfold isNegative
      rw [hint]
      exact decide_eq_false (by omega)
    have herr : isNegative (d.setErr (BitVec.ofInt 32 (buf.length : Int))).reply.err = false := hneg
    rw [hneg]
    change Answers sys _ s (finish (d.setErr (BitVec.ofInt 32 (buf.length : Int)))) _
    apply answers_finish
    · exact hcmd
    · rw [herr, if_neg Bool.false_ne_true]
      apply answers_ret (o := (_, _))
      · refine ⟨hint, rfl, fun e he => ?_⟩
        cases he
      · exact herr.trans (decide_eq_false (Int.not_lt.mpr (Int.natCast_nonneg _))).symm

theorem answers_write (hword : d.word 0 = fildes) (hsize : d.word 1 = BitVec.ofNat 32 buf.length)
    (hcmd : d.cmd ≠ 0) (hphy : fildes ≠ phyHandle) (hlen : buf.length < 2 ^ 31)
    (hsound : DeviceSystem.WritesSound sys fildes buf buf.length 0 s) :
    Answers sys
      (request buf onFailure
        (readReply onFailure' fun reply => ret
          (if isNegative reply.err then ⟨linkDevError, some reply.errNumber, []⟩ else report reply))) s
      ((linkCmdWrite phyHandle d).bind finish)
      (DeviceSystem.writeLoop sys fildes buf buf.length 0 s) := by
  intro α β Post f g hnext
  unfold linkCmdWrite request linkProtocolMasterwrite linkProtocolSlaveread
  rw [hword, if_neg hphy, hsize, toInt_ofNat hlen, Int.toNat_natCast, Proc.bind_assoc, Proc.bind_assoc,
    Proc.bind_assoc]
  apply meets_writeLoop _ _ _ _ (Nat.zero_le _) le_rfl hsound
  intro t s' hend
  rw [if_neg (by omega)]
  have hanswers := answers_writeReply onFailure' hcmd hlen hend α β Post f g hnext
  rw [Proc.bind_assoc] at hanswers
  exact hanswers

end

end Link

end CoActionOS
