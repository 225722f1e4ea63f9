import CoActionOS.Isp.WriteData
import Mathlib.Data.Nat.Digits.Lemmas

/-!
# What the target has accepted

At the head of the loop of `lpc_write_data` the target has accepted the verified bytes and has collected the lines
sent since.  So every byte that is verified has been accepted; those of the last lines are not verified where the data
end with a full line that is not the twentieth.
-/

namespace CoActionOS

namespace Isp

/-! ### Lines and sums -/

theorem blank_le_lengthChar (n : Nat) : 0x20 ≤ (lengthChar n).toNat := by
  rw [lengthChar, toNat_lowSix]
  omega

theorem length_uuEncodeLine {bs : List UInt8} (h : bs.length ≤ 45) : (uuEncodeLine bs).length ≤ 70 := by
  have hwords := length_uuEncodeWords bs
  unfold groups at hwords
  unfold uuEncodeLine
  rw [List.length_cons, List.length_append]
  show (uuEncodeWords bs).length + 2 + 1 ≤ 70
  omega

/-- A text without control characters is a line with its end. -/
theorem isLine_of_text (text : List UInt8) (h : ∀ c ∈ text, 0x20 ≤ c.toNat) : IsLine (text ++ [13, 10]) := by
  refine ⟨⟨text ++ [13], by rw [List.append_assoc]; rfl, ?_⟩, ?_⟩
  · intro hmem
    rcases List.mem_append.mp hmem with hmem | hmem
    · exact absurd (h _ hmem) (by decide)
    · exact absurd (List.mem_singleton.mp hmem) (by decide)
  · intro hmem
    rcases List.mem_append.mp hmem with hmem | hmem
    · exact absurd (h _ hmem) (by decide)
    · exact absurd hmem (by decide)

theorem isLine_uuEncodeLine (bs : List UInt8) : IsLine (uuEncodeLine bs) := by
  refine isLine_of_text (lengthChar bs.length :: uuEncodeWords bs) fun c hc => ?_
  rcases List.mem_cons.mp hc with rfl | hc
  · exact blank_le_lengthChar _
  · exact Nat.le_of_lt (mem_uuEncodeWords hc)

theorem mem_decimal {n : Nat} {c : UInt8} (h : c ∈ decimal n) : 0x20 ≤ c.toNat := by
  unfold decimal at h
  split_ifs at h
  · rw [List.mem_singleton.mp h]
    decide
  · obtain ⟨d, hd, rfl⟩ := List.mem_map.mp h
    have hlt := Nat.digits_lt_base (by decide) (List.mem_reverse.mp hd)
    rw [UInt8.toNat_ofNat']
    omega

theorem length_decimal {n : Nat} (h : n < 10 ^ 10) : (decimal n).length ≤ 10 := by
  unfold decimal
  split_ifs with hzero
  · decide
  · rw [List.length_map, List.length_reverse]
    exact (Nat.digits_length_le_iff (by decide) n).mpr h

theorem isLine_sumLine (n : Nat) : IsLine (sumLine n) := isLine_of_text _ fun _ hc => mem_decimal hc

/-- The line that an answer with the echo of the sum makes. -/
theorem isLine_echoed (n : Nat) (answer : List UInt8) (h : ∀ c ∈ answer, 0x20 ≤ c.toNat) :
    IsLine (decimal n ++ 13 :: (answer ++ [13, 10])) := by
  refine ⟨⟨decimal n ++ 13 :: (answer ++ [13]), ?_, ?_⟩, ?_⟩
  · rw [List.append_assoc, List.cons_append, List.append_assoc]
    rfl
  · intro hmem
    rcases List.mem_append.mp hmem with hmem | hmem
    · exact absurd (mem_decimal hmem) (by decide)
    · rcases List.mem_append.mp ((List.mem_cons.mp hmem).resolve_left (by decide)) with hmem | hmem
      · exact absurd (h _ hmem) (by decide)
      · exact absurd (List.mem_singleton.mp hmem) (by decide)
  · intro hmem
    rcases List.mem_append.mp hmem with hmem | hmem
    · exact absurd (mem_decimal hmem) (by decide)
    · rcases List.mem_append.mp ((List.mem_cons.mp hmem).resolve_left (by decide)) with hmem | hmem
      · exact absurd (h _ hmem) (by decide)
      · exact absurd hmem (by decide)

theorem byteSum_append (as bs : List UInt8) : byteSum (as ++ bs) = byteSum as + byteSum bs := by
  unfold byteSum
  rw [List.map_append, List.sum_append]

theorem byteSum_le (bs : List UInt8) : byteSum bs ≤ 255 * bs.length := by
  induction bs with
  | nil => exact Nat.le_refl _
  | cons b bs ih =>
    have hb := b.toNat_lt
    have hsum : byteSum (b :: bs) = b.toNat + byteSum bs := List.sum_cons
    rw [hsum, List.length_cons]
    omega

/-! ### The answer to a sum -/

section

variable {ch : Channel} {echo : Bool} {grants : Nat → Bool} {w : Wire Target}

variable (echo) in
/-- What the host makes of the answer is what the target has sent. -/
theorem checksumOk_answer (granted : Bool) (hprompt : ch.Prompt) {n : Nat} (hn : n < 10 ^ 10)
    (hin : w.incoming = (if echo then decimal n ++ [13] else []) ++ if granted then okLine else resendLine) :
    let r := checksumOk ch echo n w
    r.2 = granted ∧ r.1.target = w.target ∧ r.1.writes = w.writes ∧ (granted = true → r.1.incoming = []) := by
  have hlen := length_decimal hn
  cases echo with
  | true =>
    have hechoed : checksumOk ch true n w =
        ((lpcWaitResponse ch (decimal n ++ 13 :: okLine) quickTimeout w).1,
          decide ((lpcWaitResponse ch (decimal n ++ 13 :: okLine) quickTimeout w).2 = 0)) := rfl
    rw [hechoed]
    dsimp only
    -- the sum and the answer come back as one line
    have hok : IsLine (decimal n ++ 13 :: okLine) := isLine_echoed n [79, 75] (by simp)
    have hframe := lpcWaitResponse_frame ch (decimal n ++ 13 :: okLine) quickTimeout w
    rw [if_pos rfl, List.append_assoc, List.singleton_append] at hin
    cases granted with
    | true =>
      rw [if_pos rfl] at hin
      obtain ⟨hempty, hret⟩ := lpcWaitResponse_line quickTimeout hprompt hok hin
        (by rw [List.length_append]; show _ + 5 ≤ 70; omega) (by rw [List.length_append]; show _ + 5 < 2 ^ 32; omega)
      exact ⟨decide_eq_true hret, hframe.1, hframe.2, fun _ => hempty⟩
    | false =>
      rw [if_neg Bool.false_ne_true] at hin
      have hline : IsLine w.incoming := by
        rw [hin]
        exact isLine_echoed n [82, 69, 83, 69, 78, 68] (by simp)
      -- it is not the line that the host waits for
      have hother : ¬ decimal n ++ 13 :: okLine <+: w.incoming := by
        rw [hin, List.prefix_append_right_inj]
        decide
      have hret := lpcWaitResponse_other ch quickTimeout hline
        (by rw [hin, List.length_append, List.length_append]; exact Nat.add_lt_add_left (by decide) _) hother
        (by rw [List.length_append]; show _ + 5 < 2 ^ 32; omega)
      refine ⟨decide_eq_false ?_, hframe.1, hframe.2, fun h => absurd h Bool.false_ne_true⟩
      rw [hret]
      decide
  | false =>
    have hsilent : checksumOk ch false n w =
        ((getLine ch 1024 timeout w).1, decide (cString (getLine ch 1024 timeout w).2.buf = okLine)) := rfl
    rw [hsilent]
    dsimp only
    have hframe := (getLine_spec ch 1024 timeout w).2
    rw [if_neg Bool.false_ne_true, List.nil_append] at hin
    -- the answer comes as a line of its own
    have hline : IsLine w.incoming := by
      rw [hin]
      cases granted with
      | true => exact isLine_of_text [79, 75] (by simp)
      | false => exact isLine_of_text [82, 69, 83, 69, 78, 68] (by simp)
    have hshort : w.incoming.length ≤ 8 := by
      rw [hin]
      cases granted <;> decide
    obtain ⟨hempty, hread⟩ := getLine_line 1024 timeout hprompt hline (by omega)
      (by unfold timeout; omega)
    refine ⟨?_, hframe.1, hframe.2, fun _ => hempty⟩
    rw [hread]
    dsimp only
    rw [hline.cString_terminated, hin]
    cases granted <;> decide

/-- Nothing fails and no block is asked for again. -/
structure AllGood (ch : Channel) (grants : Nat → Bool) : Prop where
  accepts : ∀ k, ch.accepts k = true
  grants : ∀ k, grants k = true

theorem write_accepted {σ : Type} {hear : List UInt8 → σ → σ × List UInt8} {w : Wire σ} (h : ch.accepts w.writes = true)
    (bs : List UInt8) : w.write hear ch bs =
      (⟨(hear bs w.target).1, w.incoming ++ (hear bs w.target).2, w.reads, w.writes + 1⟩, (bs.length : Int)) := if_pos h

theorem write_refused {σ : Type} {hear : List UInt8 → σ → σ × List UInt8} {w : Wire σ} (h : ch.accepts w.writes = false)
    (bs : List UInt8) : w.write hear ch bs = ({ w with writes := w.writes + 1 }, -1) :=
  if_neg (ne_true_of_eq_false h)

/-- The answer that the target sends, and the target after it. -/
theorem hear_sum {t : Target} (hdue : t.SumDue) (echo : Bool) (grants : Nat → Bool) :
    t.hear echo grants (sumLine (byteSum t.pending)) =
      (⟨t.size, if grants t.sums then t.accepted ++ t.pending else t.accepted, [], 0, t.sums + 1⟩,
        (if echo then decimal (byteSum t.pending) ++ [13] else []) ++ if grants t.sums then okLine else resendLine) := by
  have hecho : (sumLine (byteSum t.pending)).dropLast = decimal (byteSum t.pending) ++ [13] := by
    unfold sumLine
    rw [show ([13, 10] : List UInt8) = [13] ++ [10] from rfl, ← List.append_assoc, List.dropLast_concat]
  unfold Target.hear
  rw [if_pos hdue, hecho]
  by_cases hgrants : grants t.sums = true
  · have hall : t.Grants grants (sumLine (byteSum t.pending)) := ⟨rfl, hgrants⟩
    rw [if_pos hall, hgrants, if_pos rfl, if_pos rfl]
  · have hnone : ¬ t.Grants grants (sumLine (byteSum t.pending)) := fun h => hgrants h.2
    rw [if_neg hnone, if_neg hgrants, if_neg hgrants]

variable (echo grants) in
/-- The block is accepted, or has to be sent again. -/
theorem sendChecksum_cases {p : Progress} (hprompt : ch.Prompt) (hin : w.incoming = []) (hdue : w.target.SumDue)
    (hsum : p.checksum = byteSum w.target.pending) (hlen : w.target.pending.length ≤ 900) :
    let r := sendChecksum (Target.hear echo grants) ch echo p w
    let t := w.target
    (r.2 = .done (-1) ∧ ¬ AllGood ch grants) ∨
    (r.2 = .next ⟨p.written, p.written, 0, 0, 0⟩ ∧ r.1.incoming = [] ∧
      r.1.target = ⟨t.size, t.accepted ++ t.pending, [], 0, t.sums + 1⟩) ∨
    (p.retry ≠ 2 ∧ r.2 = .next ⟨p.verified, p.verified, 0, 0, p.retry + 1⟩ ∧ r.1.incoming = [] ∧
      r.1.target = ⟨t.size, t.accepted, [], 0, t.sums + 1⟩ ∧ ¬ AllGood ch grants) := by
  dsimp only
  unfold sendChecksum
  dsimp only
  cases haccepts : ch.accepts w.writes with
  | false =>
    rw [write_refused haccepts]
    dsimp only
    rw [if_pos (by omega)]
    exact .inl ⟨rfl, fun hgood => Bool.false_ne_true (haccepts.symm.trans (hgood.accepts _))⟩
  | true =>
    have hsmall : byteSum w.target.pending < 10 ^ 10 := by
      have := byteSum_le w.target.pending
      omega
    rw [write_accepted haccepts, hsum, hear_sum hdue, hin, List.nil_append]
    dsimp only
    rw [if_neg (not_not.mpr rfl)]
    -- the target as it is once it has heard the sum
    obtain ⟨t, ht⟩ : ∃ t : Target, t = ⟨w.target.size,
        if grants w.target.sums then w.target.accepted ++ w.target.pending else w.target.accepted, [], 0,
        w.target.sums + 1⟩ := ⟨_, rfl⟩
    rw [← ht]
    obtain ⟨w₁, hw₁⟩ : ∃ w₁ : Wire Target, w₁ = ⟨t, (if echo then decimal (byteSum w.target.pending) ++ [13] else []) ++
        if grants w.target.sums then okLine else resendLine, w.reads, w.writes + 1⟩ := ⟨_, rfl⟩
    rw [← hw₁]
    obtain ⟨hval, htarget, -, hempty⟩ := checksumOk_answer (w := w₁) echo (grants w.target.sums)
      hprompt hsmall (by rw [hw₁])
    have htarget₁ : w₁.target = t := by rw [hw₁]
    generalize checksumOk ch echo (byteSum w.target.pending) w₁ = r at hval htarget hempty ⊢
    obtain ⟨w₂, ok⟩ := r
    dsimp only at hval htarget hempty ⊢
    subst hval
    cases hgranted : grants w.target.sums with
    | true =>
      rw [if_pos hgranted] at ht
      exact .inr (.inl ⟨rfl, hempty hgranted, by rw [htarget, htarget₁, ht]⟩)
    | false =>
      rw [if_neg (ne_true_of_eq_false hgranted)] at ht
      -- the block is to be sent again, if it can be
      have hnone : ¬ AllGood ch grants := fun hgood => Bool.false_ne_true (hgranted.symm.trans (hgood.grants _))
      obtain ⟨hflushed, hkept⟩ := flush_frame ch w₂
      dsimp only
      generalize w₂.flush ch = r at hflushed hkept ⊢
      obtain ⟨w₃, err⟩ := r
      dsimp only at hflushed hkept ⊢
      split_ifs with herr hretry
      · exact .inl ⟨rfl, hnone⟩
      · exact .inl ⟨rfl, hnone⟩
      · exact .inr (.inr ⟨by omega, rfl, hflushed, by rw [hkept, htarget, htarget₁, ht], hnone⟩)

/-! ### The loop -/

variable {src : List UInt8}

/-- The target has accepted what is verified and has collected the lines sent since. -/
structure Synced (src : List UInt8) (p : Progress) (w : Wire Target) : Prop where
  lines : p.line < 20
  retry : p.retry < 3
  written : p.written = p.verified + 45 * p.line
  le : p.written ≤ src.length
  block : 900 ∣ p.verified ∨ p.verified = src.length ∧ ¬ 45 ∣ src.length
  checksum : p.checksum = byteSum w.target.pending
  incoming : w.incoming = []
  size : w.target.size = src.length
  accepted : w.target.accepted = src.take p.verified
  pending : w.target.pending = (src.drop p.verified).take (45 * p.line)
  collected : w.target.lines = p.line

/-- What becomes smaller with every turn. -/
def Progress.rest (src : List UInt8) (p : Progress) : Nat :=
  63 * (src.length - p.verified) + 21 * (3 - p.retry) + (20 - p.line)

variable (echo grants) in
/-- The line of a turn, and the wire after the target has taken it. -/
theorem writeTurn_eq {p : Progress} (hprompt : ch.Prompt) (h : Synced src p w) (hmore : p.written < src.length)
    (haccepts : ch.accepts w.writes = true) :
    let bytes := (src.drop p.written).take (lineSize src p)
    let p' : Progress := ⟨p.written + lineSize src p, p.verified, p.line + 1, p.checksum + byteSum bytes, p.retry⟩
    ∃ w', w'.incoming = [] ∧ w'.writes = w.writes + 1 ∧
      w'.target = { w.target with pending := w.target.pending ++ bytes, lines := w.target.lines + 1 } ∧
      writeTurn (Target.hear echo grants) ch echo src p w =
        if p.line + 1 = 20 ∨ lineSize src p ≠ 45 then sendChecksum (Target.hear echo grants) ch echo p' w'
        else (w', .next p') := by
  have hsize : lineSize src p ≤ 45 := by
    unfold lineSize
    split_ifs <;> omega
  have hbytes : ((src.drop p.written).take (lineSize src p)).length ≤ 45 := Nat.le_trans (List.length_take_le _ _) hsize
  have hlen := length_uuEncodeLine hbytes
  -- no sum is due in front of the line
  have hdue : ¬ w.target.SumDue := by
    have haccepted : w.target.accepted.length ≤ p.verified := by
      rw [h.accepted]
      exact List.length_take_le _ _
    have hpending : w.target.pending.length ≤ 45 * p.line := by
      rw [h.pending]
      exact List.length_take_le _ _
    have hlines := h.lines
    have hwritten := h.written
    rw [← h.collected] at hlines
    rintro (hfull | ⟨-, hall⟩)
    · omega
    · rw [h.size] at hall
      omega
  have hear : w.target.hear echo grants (uuEncodeLine ((src.drop p.written).take (lineSize src p))) =
      ({ w.target with
          pending := w.target.pending ++ (src.drop p.written).take (lineSize src p), lines := w.target.lines + 1 },
        if echo then uuEncodeLine ((src.drop p.written).take (lineSize src p)) else []) := by
    unfold Target.hear
    rw [if_neg hdue, lineBytes_encode hbytes]
  have hline := isLine_uuEncodeLine ((src.drop p.written).take (lineSize src p))
  unfold writeTurn
  dsimp only
  rw [write_accepted haccepts, hear, h.incoming, List.nil_append]
  dsimp only
  cases echo with
  | true =>
    rw [if_pos rfl, if_pos rfl]
    obtain ⟨w₁, hw₁⟩ : ∃ w₁ : Wire Target, w₁ = ⟨{ w.target with
        pending := w.target.pending ++ (src.drop p.written).take (lineSize src p), lines := w.target.lines + 1 },
        uuEncodeLine ((src.drop p.written).take (lineSize src p)), w.reads, w.writes + 1⟩ := ⟨_, rfl⟩
    rw [← hw₁]
    -- the host waits for its own line
    obtain ⟨hempty, -⟩ := lpcWaitResponse_line (w := w₁) quickTimeout hprompt hline (by rw [hw₁]) hlen
      (Nat.lt_of_le_of_lt hlen (by decide))
    obtain ⟨htarget, hwrites⟩ := lpcWaitResponse_frame ch
      (uuEncodeLine ((src.drop p.written).take (lineSize src p))) quickTimeout w₁
    refine ⟨_, hempty, hwrites.trans (by rw [hw₁]), htarget.trans (by rw [hw₁]), ?_⟩
    exact if_neg (not_not.mpr rfl)
  | false =>
    refine ⟨_, ?_, ?_, ?_, if_neg (not_not.mpr rfl)⟩
    · rfl
    · rfl
    · rfl

theorem lineSize_eq (src : List UInt8) (p : Progress) : lineSize src p = min 45 (src.length - p.written) := by
  unfold lineSize
  split_ifs <;> omega

/-- What the target has after a line. -/
theorem pending_append {k v n : Nat} (hk : k = v + 45 * n) (size : Nat) :
    (src.drop v).take (45 * n) ++ (src.drop k).take size = (src.drop v).take (45 * n + size) := by
  rw [List.take_add, List.drop_drop, hk]

theorem accepted_append (k n : Nat) : src.take k ++ (src.drop k).take n = src.take (k + n) := List.take_add.symm

variable (echo grants) in
/-- A turn fails or leads to the head of the loop again, and one never leads there for ever. -/
theorem writeTurn_cases {p : Progress} (hprompt : ch.Prompt) (h : Synced src p w) (hmore : p.written < src.length) :
    let r := writeTurn (Target.hear echo grants) ch echo src p w
    (r.2 = .done (-1) ∧ ¬ AllGood ch grants) ∨
    ∃ p', r.2 = .next p' ∧ Synced src p' r.1 ∧ p'.rest src < p.rest src := by
  have hsize := lineSize_eq src p
  have hlines := h.lines
  have hretry := h.retry
  have hwritten := h.written
  dsimp only
  cases haccepts : ch.accepts w.writes with
  | false =>
    unfold writeTurn
    dsimp only
    rw [write_refused haccepts]
    dsimp only
    rw [if_pos (by omega)]
    exact .inl ⟨rfl, fun hgood => Bool.false_ne_true (haccepts.symm.trans (hgood.accepts _))⟩
  | true =>
    obtain ⟨w', hin, -, htarget, heq⟩ := writeTurn_eq echo grants hprompt h hmore haccepts
    rw [heq]
    have hpending : w'.target.pending = (src.drop p.verified).take (45 * p.line + lineSize src p) := by
      rw [htarget]
      show w.target.pending ++ _ = _
      rw [h.pending, pending_append hwritten]
    have hsum : p.checksum + byteSum ((src.drop p.written).take (lineSize src p)) = byteSum w'.target.pending := by
      rw [htarget, h.checksum, ← byteSum_append]
    -- bytes are left, so that those verified end with a block
    have hblock : 900 ∣ p.verified := h.block.resolve_right fun hend => by omega
    by_cases hcheck : p.line + 1 = 20 ∨ lineSize src p ≠ 45
    · rw [if_pos hcheck]
      -- the block ends with the line, so that the target waits for the sum
      have hdue : w'.target.SumDue := by
        rw [htarget]
        show w.target.lines + 1 = 20 ∨ 0 < w.target.lines + 1 ∧
          w.target.size ≤ w.target.accepted.length + (w.target.pending ++ _).length
        rw [h.collected, h.size, h.accepted, h.pending, pending_append hwritten, List.length_take, List.length_take,
          List.length_drop]
        omega
      have hlen : w'.target.pending.length ≤ 900 := by
        rw [hpending, List.length_take]
        omega
      rcases sendChecksum_cases echo grants
        (p := ⟨p.written + lineSize src p, p.verified, p.line + 1,
          p.checksum + byteSum ((src.drop p.written).take (lineSize src p)), p.retry⟩)
        hprompt hin hdue hsum hlen with hfail | ⟨hnext, hin', htarget'⟩ | ⟨htwice, hnext, hin', htarget', -⟩
      · exact .inl hfail
      -- the block is accepted: fewer bytes are left
      · refine .inr ⟨_, hnext, ⟨show 0 < 20 by decide, show 0 < 3 by decide, rfl, ?_, ?_, ?_, hin', ?_, ?_, ?_, ?_⟩, ?_⟩
        · show p.written + lineSize src p ≤ src.length
          omega
        · show 900 ∣ p.written + lineSize src p ∨ p.written + lineSize src p = src.length ∧ ¬ 45 ∣ src.length
          omega
        · rw [htarget']
          rfl
        · rw [htarget', htarget]
          exact h.size
        · rw [htarget', htarget]
          show w.target.accepted ++ (w.target.pending ++ _) = _
          rw [h.accepted, h.pending, pending_append hwritten, accepted_append, hwritten, Nat.add_assoc]
        · rw [htarget']
          rfl
        · rw [htarget']
        · show 63 * (src.length - (p.written + lineSize src p)) + 21 * 3 + 20 < _
          unfold Progress.rest
          omega
      -- the block is sent again: fewer times are left
      · refine .inr ⟨_, hnext, ⟨show 0 < 20 by decide, ?_, rfl, ?_, .inl hblock, ?_, hin', ?_, ?_, ?_, ?_⟩, ?_⟩
        · dsimp only at htwice ⊢
          omega
        · show p.verified ≤ src.length
          omega
        · rw [htarget']
          rfl
        · rw [htarget', htarget]
          exact h.size
        · rw [htarget', htarget]
          exact h.accepted
        · rw [htarget']
          rfl
        · rw [htarget']
        · show 63 * (src.length - p.verified) + 21 * (3 - (p.retry + 1)) + 20 < _
          unfold Progress.rest
          omega
    · rw [if_neg hcheck]
      -- the block goes on: fewer lines are left
      refine .inr ⟨_, rfl, ⟨?_, hretry, ?_, ?_, .inl hblock, hsum, hin, ?_, ?_, ?_, ?_⟩, ?_⟩
      · show p.line + 1 < 20
        omega
      · show p.written + lineSize src p = p.verified + 45 * (p.line + 1)
        omega
      · show p.written + lineSize src p ≤ src.length
        omega
      · rw [htarget]
        exact h.size
      · rw [htarget]
        exact h.accepted
      · rw [hpending, Nat.mul_succ]
        have hfull : lineSize src p = 45 := by omega
        rw [hfull]
      · rw [htarget]
        show w.target.lines + 1 = p.line + 1
        rw [h.collected]
      · show 63 * (src.length - p.verified) + 21 * (3 - p.retry) + (20 - (p.line + 1)) < _
        unfold Progress.rest
        omega

/-- The data end with a line that is not full, or with the twentieth of a block. -/
def EndsBlock (n : Nat) : Prop := ¬ 45 ∣ n ∨ 900 ∣ n

/-- Where the loop ends without a failure. -/
theorem Synced.accepted_iff {p : Progress} (h : Synced src p w) (hend : p.written = src.length) :
    w.target.accepted = src ↔ EndsBlock src.length := by
  have hwritten := h.written
  have hlines := h.lines
  have hblock := h.block
  unfold EndsBlock
  rw [h.accepted]
  constructor
  · intro hall
    have hlen : min p.verified src.length = src.length := by rw [← List.length_take, hall]
    omega
  · intro hgood
    exact List.take_of_length_le (by omega)

theorem writeLoop_cases {p : Progress} {turns : Nat} (hprompt : ch.Prompt) (h : Synced src p w)
    (hmore : p.written < src.length) (hturns : p.rest src ≤ turns + 20) :
    let r := writeLoop (Target.hear echo grants) ch echo src turns p w
    (r.2 = some (-1) ∧ ¬ AllGood ch grants) ∨
    (r.2 = some (src.length : Int) ∧ (r.1.target.accepted = src ↔ EndsBlock src.length)) := by
  induction turns generalizing p w with
  | zero =>
    have hwritten := h.written
    have hretry := h.retry
    unfold Progress.rest at hturns
    omega
  | succ turns ih =>
    have hturn := writeTurn_cases echo grants hprompt h hmore
    unfold writeLoop
    generalize writeTurn (Target.hear echo grants) ch echo src p w = r at hturn ⊢
    obtain ⟨w', turn⟩ := r
    dsimp only at hturn ⊢
    rcases hturn with ⟨rfl, hbad⟩ | ⟨p', rfl, hsynced, hrest⟩
    · exact .inl ⟨rfl, hbad⟩
    · dsimp only
      split_ifs with hmore'
      · exact ih hsynced hmore' (by omega)
      · have hend : p'.written = src.length := Nat.le_antisymm hsynced.le (Nat.not_lt.mp hmore')
        refine .inr ⟨?_, hsynced.accepted_iff hend⟩
        rw [hend]

/-- A target that has been told to take `size` bytes and has heard nothing since. -/
def ready (size reads writes : Nat) : Wire Target := ⟨⟨size, [], [], 0, 0⟩, [], reads, writes⟩

theorem lpcWriteData_cases (echo : Bool) (grants : Nat → Bool) (reads writes : Nat) (hprompt : ch.Prompt) (hne : src ≠ []) :
    let r := lpcWriteData (Target.hear echo grants) ch echo src (ready src.length reads writes)
    (r.2 = some (-1) ∧ ¬ AllGood ch grants) ∨
    (r.2 = some (src.length : Int) ∧ (r.1.target.accepted = src ↔ EndsBlock src.length)) := by
  have hpos := List.length_pos_iff.mpr hne
  refine writeLoop_cases hprompt ⟨by decide, by decide, rfl, Nat.zero_le _, .inl (Nat.dvd_zero _), rfl, rfl, rfl, rfl, rfl,
    rfl⟩ hpos ?_
  show 63 * (src.length - 0) + 21 * 3 + 20 ≤ 63 * (src.length + 1) + 20
  omega

end

end Isp

end CoActionOS
