import CoActionOS.Link.Packets
import CoActionOS.Link.Receive

/-!
# Refused packets

The host sends the packets of its buffer one at a time and waits for the answer of each.  `wait_ack`
compares the checksum in the answer with that of the packet, and returns the byte that says how the
packet was received.  Both values of that byte are positive, so a refusal is reported exactly when some
answer does not carry its packet's checksum.
-/

namespace CoActionOS

namespace Link

open Proc

/-- The loop of `wait_ack`. -/
def readAck : Host (Except Int (List UInt8)) := readAll masterTimeout 2 0 2 []

/-- The answer that comes next, if both its bytes come in time. -/
def nextAnswer (reads : Reads) : Option (List UInt8 × Reads) :=
  match (readAck.run ⟨reads, [], []⟩).value with
  | .error _ => none
  | .ok bs => some (bs, (readAck.run ⟨reads, [], []⟩).env.reads)

/-- The answers to the packets, if every packet is sent whole and is answered in time with its own
checksum. -/
def accepted : List (List UInt8) → Env Unit → Option (List (List UInt8))
  | [], _ => some []
  | data :: rest, env =>
    if (env.write (data.length + linkPacketHeaderSize)).1 ≠ data.length + linkPacketHeaderSize then none
    else
      match nextAnswer env.reads with
      | none => none
      | some (answer, reads) =>
        if answer.getD 1 0 ≠ checksumOf data then none
        else
          (accepted rest
            { (env.write (data.length + linkPacketHeaderSize)).2 with reads := reads }).map (answer :: ·)

/-! ### The bytes of the answers -/

section content

variable {ι ρ : Type} [Inhabited ρ]

theorem content_readSome (dst n left : Nat) (env : Env ρ) (bs : List UInt8)
    (h : ((readSome dst n left : Proc ι ρ _).run env).value = .ok bs) :
    env.content = bs ++ ((readSome dst n left : Proc ι ρ _).run env).env.content := by
  induction left generalizing env with
  | zero => exact absurd h (by simp [readSome, Proc.run])
  | succ left ih =>
    have hread := env.content_read n
    simp only [readSome, Proc.run, after_value, after_env] at h ⊢
    generalize hres : (env.read n).1 = res at h hread ⊢
    rcases res with _ | _ | ⟨b, bs'⟩
    · exact absurd h (by simp [Proc.run])
    · rw [← hread]
      exact ih _ h
    · simp only [Proc.run, Except.ok.injEq] at h
      rw [← hread, ← h]
      rfl

theorem content_readAll (timeout turns dst need : Nat) (acc : List UInt8) (env : Env ρ)
    (bs : List UInt8)
    (h : ((readAll timeout turns dst need acc : Proc ι ρ _).run env).value = .ok bs) :
    acc ++ env.content =
      bs ++ ((readAll timeout turns dst need acc : Proc ι ρ _).run env).env.content := by
  induction turns generalizing dst need acc env with
  | zero =>
    simp only [readAll, Proc.run, Except.ok.injEq] at h
    rw [← h]
    rfl
  | succ turns ih =>
    unfold readAll at h ⊢
    by_cases hneed : need = 0
    · simp only [if_pos hneed, Proc.run, Except.ok.injEq] at h ⊢
      rw [← h]
    · simp only [if_neg hneed] at h ⊢
      rw [run_bind] at h ⊢
      simp only [after_value, after_env] at h ⊢
      have hsome := content_readSome (ι := ι) dst need timeout env
      cases hres : ((readSome dst need timeout : Proc ι ρ _).run env).value with
      | error e =>
        rw [hres] at h
        exact absurd h (by simp [Proc.run])
      | ok got =>
        rw [hres] at h
        rw [hsome got hres, ← List.append_assoc]
        exact ih _ _ _ _ h

omit [Inhabited ρ] in
theorem error_readSome (dst n left : Nat) :
    (readSome dst n left : Proc ι ρ _).Always (fun _ => True) fun r => ∀ e, r = .error e → e < 0 := by
  have herror : ∀ (e₀ e : Int), e₀ < 0 → (.error e₀ : Except Int (List UInt8)) = .error e → e < 0 := by
    intro e₀ e hneg h
    simp only [Except.error.injEq] at h
    rwa [← h]
  induction left with
  | zero => exact fun e => herror linkProtError e (by decide)
  | succ left ih =>
    refine ⟨trivial, fun e => herror linkPhyError e (by decide), fun bs _ => ?_⟩
    cases bs with
    | nil => exact ih
    | cons b bs => exact fun e h => absurd h (by simp)

omit [Inhabited ρ] in
theorem error_readAll (timeout turns dst need : Nat) (acc : List UInt8) :
    (readAll timeout turns dst need acc : Proc ι ρ _).Always (fun _ => True)
      fun r => ∀ e, r = .error e → e < 0 := by
  induction turns generalizing dst need acc with
  | zero => exact fun e h => absurd h (by simp)
  | succ turns ih =>
    unfold readAll
    split_ifs
    · exact fun e h => absurd h (by simp)
    · apply (error_readSome dst need timeout).bind
      intro r hr
      cases r with
      | error e => exact fun e' h => hr e' (by simpa using h)
      | ok bs => exact ih _ _ _

end content

/-! ### The loop of the host -/

theorem receives_readAck :
    readAck.Always (fun e => ∃ dst n, e = .read dst n) fun r => ∀ bs, r = .ok bs → bs.length = 2 :=
  always_readAll masterTimeout 2 0 2 [] le_rfl fun d m _ _ => ⟨d, m, rfl⟩

theorem nextAnswer_spec (env : Env Unit) :
    (nextAnswer env.reads = none → ∃ e < 0, (readAck.run env).value = .error e) ∧
    ∀ answer rest, nextAnswer env.reads = some (answer, rest) →
      (readAck.run env).value = .ok answer ∧ (readAck.run env).env = { env with reads := rest } ∧
        answer.length = 2 ∧ env.content = answer ++ ({ env with reads := rest } : Env Unit).content := by
  obtain ⟨hvalue, hreads⟩ := receives_readAck.run_congr (show (⟨env.reads, [], []⟩ : Env Unit).reads =
    env.reads from rfl)
  obtain ⟨hwrites, hanswers⟩ := receives_readAck.run_frame env
  unfold nextAnswer
  rw [hvalue, hreads]
  cases hres : (readAck.run env).value with
  | error e =>
    exact ⟨fun _ => ⟨e, ((error_readAll _ _ _ _ _).run env).2 e hres, rfl⟩,
      fun _ _ h => absurd h (by simp)⟩
  | ok bs =>
    refine ⟨fun h => absurd h (by simp), fun answer rest h => ?_⟩
    simp only [Option.some.injEq, Prod.mk.injEq] at h
    obtain ⟨rfl, rfl⟩ := h
    have henv : (readAck.run env).env = { env with reads := (readAck.run env).env.reads } := by
      rw [← hwrites, ← hanswers]
    have hcontent := content_readAll masterTimeout 2 0 2 [] env bs hres
    refine ⟨rfl, henv, (receives_readAck.run env).2 bs hres, ?_⟩
    rw [← henv]
    exact hcontent

theorem waitAck_spec (checksum : UInt8) (env : Env Unit) :
    (nextAnswer env.reads = none → ((waitAck checksum masterTimeout : Host Int).run env).value < 0) ∧
    ∀ answer rest, nextAnswer env.reads = some (answer, rest) →
      ((waitAck checksum masterTimeout : Host Int).run env).env = { env with reads := rest } ∧
        ((waitAck checksum masterTimeout : Host Int).run env).value =
          if answer.getD 1 0 ≠ checksum then linkProtError else ((answer.getD 0 0).toNat : Int) := by
  obtain ⟨hnone, hsome⟩ := nextAnswer_spec env
  have hrun : ((waitAck checksum masterTimeout : Host Int)) = readAck.bind fun
      | .error e => ret e
      | .ok bs =>
        if bs.getD 1 0 ≠ checksum then ret linkProtError else ret ((bs.getD 0 0).toNat : Int) := rfl
  rw [hrun]
  constructor
  · intro h
    obtain ⟨e, hneg, he⟩ := hnone h
    rw [run_bind, he]
    exact hneg
  · intro answer rest h
    obtain ⟨hvalue, henv, _, _⟩ := hsome answer rest h
    rw [run_bind, hvalue, henv]
    simp only [after_value, after_env]
    split_ifs <;> exact ⟨rfl, rfl⟩

theorem receives_waitAck (checksum : UInt8) :
    (waitAck checksum masterTimeout : Host Int).Always (fun e => ∃ dst n, e = .read dst n)
      fun _ => True := by
  apply receives_readAck.bind
  intro r _
  cases r with
  | error e => trivial
  | ok bs =>
    dsimp only
    split_ifs <;> trivial

/-- The program sends the packets in turn, and succeeds with `n` exactly when they are accepted. -/
def SendsAll (n : Nat) (ps : List (List UInt8)) (p : Host Int) : Prop :=
  ∀ env, (accepted ps env = none → (p.run env).value < 0) ∧
    ∀ answers, accepted ps env = some answers →
      (p.run env).value = n ∧ (p.run env).written = ps.map packetBytes

theorem sendsAll_ret (n : Nat) : SendsAll n [] (ret n) :=
  fun _ => ⟨fun h => absurd h (by simp [accepted]), fun _ _ => ⟨rfl, rfl⟩⟩

theorem sendsAll_turn {buf data : List UInt8} {nbyte : Int} {bytes n : Nat} {ps : List (List UInt8)}
    {next : Nat → Host Int} (hdata : (buf.drop bytes).take (packetSize nbyte bytes) = data)
    (hnext : SendsAll n ps
      (if ((bytes + packetSize nbyte bytes : Nat) : Int) < nbyte ∧
          packetSize nbyte bytes = linkPacketDataSize then next (bytes + packetSize nbyte bytes)
        else ret (bytes + packetSize nbyte bytes : Nat))) :
    SendsAll n (data :: ps) (masterwriteTurn buf nbyte bytes next) := by
  intro env
  unfold masterwriteTurn accepted
  simp only [hdata, Proc.run, after_value]
  rw [length_packetBytes]
  have hreads := env.reads_write (data.length + linkPacketHeaderSize)
  generalize env.write (data.length + linkPacketHeaderSize) = w at hreads ⊢
  rw [← hreads]
  by_cases hsent : w.1 = data.length + linkPacketHeaderSize
  · rw [if_neg (not_not.mpr hsent), if_neg (not_not.mpr (by exact_mod_cast hsent)), written_after_wrote]
    -- the packet has been sent, and the host waits for its answer
    obtain ⟨hnone, hsome⟩ := waitAck_spec (checksumOf data) w.2
    have hquiet := (receives_waitAck (checksumOf data)).run w.2
    rw [show linkChecksum (UInt8.ofNat data.length) data = checksumOf data from rfl, run_bind,
      written_after_reads hquiet.1]
    simp only [after_value]
    cases hans : nextAnswer w.2.reads with
    | none =>
      rw [if_pos (hnone hans)]
      exact ⟨fun _ => hnone hans, fun _ h => absurd h (by simp)⟩
    | some p =>
      obtain ⟨henv, hvalue⟩ := hsome p.1 p.2 hans
      dsimp only
      by_cases hsum : p.1.getD 1 0 = checksumOf data
      -- the answer has the checksum of the packet: the loop goes on
      · rw [if_neg (not_not.mpr hsum)] at hvalue ⊢
        rw [hvalue, if_neg (not_lt.mpr (Int.natCast_nonneg _)), henv]
        obtain ⟨hfail, hok⟩ := hnext { w.2 with reads := p.2 }
        constructor
        · intro h
          exact hfail (Option.map_eq_none_iff.mp h)
        · intro answers h
          obtain ⟨answers', h', _⟩ := Option.map_eq_some_iff.mp h
          obtain ⟨hval, hwritten⟩ := hok answers' h'
          rw [hwritten]
          exact ⟨hval, rfl⟩
      · rw [if_pos hsum] at hvalue ⊢
        rw [hvalue]
        exact ⟨fun _ => (by decide : linkProtError < 0), fun _ h => absurd h (by simp)⟩
  · rw [if_pos hsent, if_pos (by exact_mod_cast hsent)]
    exact ⟨fun _ => (by decide : linkPhyError < 0), fun _ h => absurd h (by simp)⟩

/-- The whole loop; each turn leaves less to be sent. -/
theorem sendsAll_loop (buf : List UInt8) (turns bytes : Nat) (hbytes : bytes ≤ buf.length)
    (hturns : buf.length - bytes ≤ turns) :
    SendsAll buf.length (packets (buf.drop bytes)) (masterwriteLoop buf buf.length turns bytes) := by
  have hsize := packetSize_eq hbytes
  have hlen : (buf.drop bytes).length = buf.length - bytes := List.length_drop
  have hlast : ∀ next, (buf.drop bytes).length ≤ linkPacketDataSize →
      SendsAll buf.length [buf.drop bytes] (masterwriteTurn buf buf.length bytes next) := by
    intro next hle
    have hrest : packetSize buf.length bytes = buf.length - bytes := by
      rw [hsize, min_eq_left (by omega)]
    apply sendsAll_turn
    · rw [hrest, ← hlen, List.take_length]
    · have hend : bytes + packetSize buf.length bytes = buf.length := by omega
      rw [hend, if_neg (by omega)]
      exact sendsAll_ret _
  by_cases hle : (buf.drop bytes).length ≤ linkPacketDataSize
  · rw [packets_of_le hle]
    cases turns with
    | zero => exact hlast _ hle
    | succ turns => exact hlast _ hle
  · have hlt := not_le.mp hle
    have hfull : packetSize buf.length bytes = linkPacketDataSize := by
      rw [hsize, min_eq_right (by omega)]
    rw [packets_of_lt hlt]
    cases turns with
    | zero => omega
    | succ turns =>
      apply sendsAll_turn
      · rw [hfull]
      · rw [hfull, if_pos ⟨by omega, rfl⟩, List.drop_drop]
        apply sendsAll_loop buf turns
        · omega
        · unfold linkPacketDataSize at *
          omega

theorem accepted_spec {ps : List (List UInt8)} {env : Env Unit} {answers : List (List UInt8)}
    (h : accepted ps env = some answers) :
    answers.length = ps.length ∧ (∀ a ∈ answers, a.length = 2) ∧ answers.flatten <+: env.content := by
  induction ps generalizing env answers with
  | nil =>
    simp only [accepted, Option.some.injEq] at h
    subst h
    exact ⟨rfl, by simp, List.nil_prefix⟩
  | cons data ps ih =>
    unfold accepted at h
    split_ifs at h
    cases hans : nextAnswer env.reads with
    | none =>
      rw [hans] at h
      exact absurd h (by simp)
    | some p =>
      obtain ⟨_, _, htwo, hcontent⟩ := (nextAnswer_spec env).2 p.1 p.2 hans
      rw [hans] at h
      dsimp only at h
      split_ifs at h
      obtain ⟨answers', h', rfl⟩ := Option.map_eq_some_iff.mp h
      obtain ⟨hlen, hall, htaken⟩ := ih h'
      refine ⟨by simp [hlen], ?_, ?_⟩
      · intro a ha
        rcases List.mem_cons.mp ha with rfl | ha
        · exact htwo
        · exact hall a ha
      · rw [hcontent, List.flatten_cons]
        exact (List.prefix_append_right_inj _).mpr htaken

/-- Pairs of bytes that stand one after the other are told apart again. -/
theorem prefix_of_flatten {xs ys : List (List UInt8)} (hxs : ∀ x ∈ xs, x.length = 2)
    (hys : ∀ y ∈ ys, y.length = 2) (h : xs.flatten <+: ys.flatten) : xs <+: ys := by
  induction xs generalizing ys with
  | nil => exact List.nil_prefix
  | cons x xs ih =>
    have hx := hxs x List.mem_cons_self
    cases ys with
    | nil =>
      have hle := h.length_le
      rw [List.flatten_cons, List.length_append] at hle
      simp [hx] at hle
    | cons y ys =>
      have hy := hys y List.mem_cons_self
      rw [List.flatten_cons, List.flatten_cons] at h
      obtain ⟨t, ht⟩ := h
      rw [List.append_assoc] at ht
      obtain ⟨hxy, hrest⟩ := List.append_inj ht (by omega)
      rw [hxy, List.prefix_cons_inj]
      exact ih (fun x' hx' => hxs x' (List.mem_cons_of_mem _ hx'))
        (fun y' hy' => hys y' (List.mem_cons_of_mem _ hy')) ⟨t, hrest⟩

/-! ### Both sides -/

/-- Any data callback: it is asked, and its surroundings answer. -/
def dataCallback (data : List UInt8) : Proc (List UInt8) Int Int := call data ret

/-- What the device answers in a sequence of transfers, each with its `nbyte`, whatever arrives and
whatever its callback says. -/
def slaveAnswers (transfers : List (Int × Env Int)) : List (List UInt8) :=
  transfers.flatMap fun t => ((linkProtocolSlaveread t.1 (some dataCallback)).run t.2).written

theorem slaveAnswers_spec {transfers : List (Int × Env Int)} {a : List UInt8}
    (h : a ∈ slaveAnswers transfers) :
    ∃ checksum, a = ackBytes linkPacketAck checksum ∨ a = ackBytes linkPacketNack checksum := by
  obtain ⟨t, _, ha⟩ := List.mem_flatMap.mp h
  obtain ⟨e, he, hwrote⟩ := List.mem_filterMap.mp ha
  have hP : (linkProtocolSlaveread t.1 (some dataCallback)).Always
      (fun e => ∀ bs, e = .wrote bs → ∃ checksum, bs = ackBytes linkPacketAck checksum ∨
        bs = ackBytes linkPacketNack checksum) fun _ => True := by
    apply always_slaveread
    · exact fun _ _ _ h => by cases h
    · rintro ack checksum (rfl | rfl) bs hbs
      · exact ⟨checksum, .inl (by injection hbs with hbs; exact hbs.symm)⟩
      · exact ⟨checksum, .inr (by injection hbs with hbs; exact hbs.symm)⟩
    · intro c hc bs
      simp only [Option.mem_def, Option.some.injEq] at hc
      rw [← hc]
      exact ⟨fun _ h => (by cases h), fun _ => trivial⟩
  cases e with
  | wrote bs =>
    simp only [Option.some.injEq] at hwrote
    rw [← hwrote]
    exact (hP.run t.2).1 _ he bs rfl
  | read dst n => exact absurd hwrote (by simp)
  | called i => exact absurd hwrote (by simp)

/-- The transfer succeeds only if each packet sent was acknowledged, and fails if one was refused. -/
def RefusalReported (sent answers : List (List UInt8)) (ret : Int) : Prop :=
  (0 ≤ ret → ∀ k < sent.length, ∃ checksum, answers[k]? = some (ackBytes linkPacketAck checksum)) ∧
    ((∃ k < sent.length, ∃ checksum, answers[k]? = some (ackBytes linkPacketNack checksum)) → ret < 0)

/-- With the answers arriving in order, perhaps not all of them, a refusal is reported exactly when not
every packet is answered with its own checksum, or none of these answers is a refusal. -/
theorem refusalReported_iff (buf : List UInt8) (transfers : List (Int × Env Int)) (env : Env Unit)
    (hchannel : env.content <+: (slaveAnswers transfers).flatten) :
    RefusalReported ((linkProtocolMasterwrite buf buf.length : Host Int).run env).written
        (slaveAnswers transfers) ((linkProtocolMasterwrite buf buf.length : Host Int).run env).value ↔
      ∀ answers ∈ accepted (packets buf) env, ∀ a ∈ answers, a.getD 0 0 ≠ linkPacketNack := by
  obtain ⟨hnone, hsome⟩ := sendsAll_loop buf buf.length 0 (Nat.zero_le _) (Nat.le_refl _) env
  unfold RefusalReported linkProtocolMasterwrite
  rw [Int.toNat_natCast]
  rw [List.drop_zero] at hnone hsome
  cases hacc : accepted (packets buf) env with
  | none =>
    -- an answer is missing, and the transfer has failed
    have hneg := hnone hacc
    exact ⟨fun _ _ h => absurd h (by simp), fun _ =>
      ⟨fun hpos => absurd hneg (not_lt.mpr hpos), fun _ => hneg⟩⟩
  | some answers =>
    obtain ⟨hvalue, hwritten⟩ := hsome answers hacc
    obtain ⟨hlen, htwo, htaken⟩ := accepted_spec hacc
    -- the answers taken are the first that the device has sent
    have hpre : answers <+: slaveAnswers transfers := by
      apply prefix_of_flatten htwo _ (htaken.trans hchannel)
      intro y hy
      obtain ⟨checksum, rfl | rfl⟩ := slaveAnswers_spec hy <;> rfl
    obtain ⟨later, hlater⟩ := hpre
    have hget : ∀ k < answers.length, (slaveAnswers transfers)[k]? = answers[k]? := by
      intro k hk
      rw [← hlater, List.getElem?_append_left hk]
    -- each of them acknowledges or refuses
    have hform : ∀ a ∈ answers, ∃ checksum,
        a = ackBytes linkPacketAck checksum ∨ a = ackBytes linkPacketNack checksum := by
      intro a ha
      apply slaveAnswers_spec
      rw [← hlater]
      exact List.mem_append_left later ha
    rw [hvalue, hwritten, List.length_map, ← hlen]
    constructor
    · rintro ⟨hack, _⟩ _ ⟨⟩ a ha
      obtain ⟨k, hk, rfl⟩ := List.mem_iff_getElem.mp ha
      obtain ⟨checksum, hk'⟩ := hack (Int.natCast_nonneg _) k hk
      rw [hget k hk, List.getElem?_eq_getElem hk, Option.some.injEq] at hk'
      rw [hk']
      exact (by decide : linkPacketAck ≠ linkPacketNack)
    · intro hno
      have hack : ∀ k < answers.length, ∃ checksum,
          (slaveAnswers transfers)[k]? = some (ackBytes linkPacketAck checksum) := by
        intro k hk
        have hmem : answers[k] ∈ answers := List.getElem_mem hk
        rw [hget k hk, List.getElem?_eq_getElem hk]
        obtain ⟨checksum, h | h⟩ := hform _ hmem
        · exact ⟨checksum, by rw [h]⟩
        · exact absurd (by rw [h]; rfl) (hno answers rfl _ hmem)
      refine ⟨fun _ => hack, ?_⟩
      rintro ⟨k, hk, c, hnack⟩
      obtain ⟨checksum, hk'⟩ := hack k hk
      rw [hk'] at hnack
      exact absurd hnack (by simp [ackBytes, linkPacketAck, linkPacketNack])

/-- A packet of one byte that the callback takes. -/
theorem refusalReported_one :
    RefusalReported
        ((linkProtocolMasterwrite [2] ([2] : List UInt8).length : Host Int).run
          ⟨[some (ackBytes linkPacketAck 3)], [], []⟩).written
        (slaveAnswers [(1, ⟨[some (packetBytes [2])], [], [1]⟩)])
        ((linkProtocolMasterwrite [2] ([2] : List UInt8).length : Host Int).run
          ⟨[some (ackBytes linkPacketAck 3)], [], []⟩).value ↔
      ∀ answers ∈ accepted (packets [2]) ⟨[some (ackBytes linkPacketAck 3)], [], []⟩,
        ∀ a ∈ answers, a.getD 0 0 ≠ linkPacketNack :=
  refusalReported_iff [2] [(1, ⟨[some (packetBytes [2])], [], [1]⟩)] _ (by decide)

/-- The callback refuses the packet, which is answered with the packet's own checksum. -/
theorem not_refusalReported :
    ¬ ∀ (buf : List UInt8) (transfers : List (Int × Env Int)) (env : Env Unit),
      env.content <+: (slaveAnswers transfers).flatten →
      RefusalReported ((linkProtocolMasterwrite buf buf.length : Host Int).run env).written
        (slaveAnswers transfers)
        ((linkProtocolMasterwrite buf buf.length : Host Int).run env).value := by
  intro h
  have hrefused := (h [2] [(1, ⟨[some (packetBytes [2])], [], [-1]⟩)]
    ⟨[some (ackBytes linkPacketNack 3)], [], []⟩ (by decide)).2 ⟨0, by decide, 3, by decide⟩
  exact absurd hrefused (by decide)

end Link

end CoActionOS
