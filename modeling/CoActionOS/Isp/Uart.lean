import CoActionOS.Isp.UuEncode
import Mathlib.Data.List.TakeWhile
import Mathlib.Tactic.SplitIfs

/-!
# Reading lines

The UART between the host and the target, and the functions of `LpcPhy` that read a line from it.  What the target
sends comes in pieces: a read finds as many bytes as the channel says, of those that have been sent and not read.
-/

namespace CoActionOS

namespace Isp

/-- How many bytes a read finds, if it does not fail, and whether a write or a flush succeeds. -/
structure Channel where
  chunk : Nat → Option Nat
  accepts : Nat → Bool

/-- The target, what it has sent and the host has not read yet, and the number of operations so far. -/
structure Wire (σ : Type) where
  target : σ
  incoming : List UInt8
  reads : Nat
  writes : Nat

/-- `TIMEOUT` -/
def timeout : Nat := 400

/-- `QUICK_TIMEOUT` -/
def quickTimeout : Nat := 10

/-- What `get_line` returns and what it has stored in the buffer, the terminator included. -/
structure Line where
  ret : Int
  buf : List UInt8

/-- `start[i+1] = 0` -/
def terminated (i : Nat) (got : List UInt8) : List UInt8 := got.take (i + 1) ++ 0 :: got.drop (i + 2)

/-- The string that stands in a buffer of zeros. -/
def cString (buf : List UInt8) : List UInt8 := buf.takeWhile fun c => c ≠ 0

section

variable {σ : Type} (hear : List UInt8 → σ → σ × List UInt8) (ch : Channel)

/-- `uart->write`; a target hears what is written and may send something in return. -/
def Wire.write (bs : List UInt8) (w : Wire σ) : Wire σ × Int :=
  if ch.accepts w.writes then
    (⟨(hear bs w.target).1, w.incoming ++ (hear bs w.target).2, w.reads, w.writes + 1⟩, bs.length)
  else ({ w with writes := w.writes + 1 }, -1)

/-- `uart->read` -/
def Wire.read (n : Nat) (w : Wire σ) : Wire σ × Option (List UInt8) :=
  match ch.chunk w.reads with
  | none => ({ w with reads := w.reads + 1 }, none)
  | some c =>
    ({ w with incoming := w.incoming.drop (min c n), reads := w.reads + 1 }, some (w.incoming.take (min c n)))

/-- `uart->flush` -/
def Wire.uartFlush (w : Wire σ) : Wire σ × Int :=
  ({ w with incoming := [], writes := w.writes + 1 }, if ch.accepts w.writes then 0 else -1)

/-- The loop of `flush`; each turn but the last takes a byte. -/
def Wire.drain : (turns : Nat) → Wire σ → Wire σ
  | 0, w => w
  | turns + 1, w =>
    match w.read ch 64 with
    | (w, none) => w
    | (w, some bs) => if bs = [] then w else Wire.drain turns w

/-- `LpcPhy::flush` -/
def Wire.flush (w : Wire σ) : Wire σ × Int := (w.drain ch (w.incoming.length + 1)).uartFlush ch

/-- The loop of `get_line`, which ends when `max_wait` reads have brought no line. -/
def getLineLoop (nbyte : Nat) : (turns : Nat) → List UInt8 → Wire σ → Wire σ × Line
  | 0, got, w => (w, ⟨0, got⟩)
  | turns + 1, got, w =>
    match w.read ch (min 64 (nbyte - got.length)) with
    | (w, none) => (w, ⟨-1, got⟩)
    | (w, some bs) =>
      let got := got ++ bs
      match got.findIdx? (· == 10) with
      | some i => (w, ⟨(i + 1 : Nat), terminated i got⟩)
      | none =>
        if turns = 0 then (w, ⟨0, got⟩)
        else if got.length < nbyte then getLineLoop nbyte turns got w
        else (w, ⟨got.length, got⟩)

/-- `LpcPhy::get_line` -/
def getLine (nbyte maxWait : Nat) (w : Wire σ) : Wire σ × Line := getLineLoop ch nbyte maxWait [] w

/-- `LpcPhy::lpc_wait_response`; a negative number is a large one to `strncmp`. -/
def lpcWaitResponse (response : List UInt8) (maxWait : Nat) (w : Wire σ) : Wire σ × Int :=
  match getLine ch response.length maxWait w with
  | (w, line) =>
    if line.ret = 0 then (w, -1)
    else
      let n := (line.ret % 2 ^ 32).toNat
      (w, if (cString line.buf).take n = response.take n then 0 else -1)

/-! ### What a line leaves -/

variable {ch} {w : Wire σ}

theorem read_incoming {n : Nat} {bs : List UInt8} {w' : Wire σ} (h : w.read ch n = (w', some bs)) :
    bs ++ w'.incoming = w.incoming ∧ w'.target = w.target ∧ w'.writes = w.writes ∧ bs.length ≤ n := by
  unfold Wire.read at h
  split at h
  · cases h
  · next c _ =>
    cases h
    refine ⟨List.take_append_drop _ _, rfl, rfl, ?_⟩
    rw [List.length_take]
    omega

theorem read_none {n : Nat} {w' : Wire σ} (h : w.read ch n = (w', none)) :
    w'.incoming = w.incoming ∧ w'.target = w.target ∧ w'.writes = w.writes := by
  unfold Wire.read at h
  split at h
  · cases h
    exact ⟨rfl, rfl, rfl⟩
  · cases h

/-- A line ends with a newline, or the buffer is full or no more comes. -/
structure LineRead (nbyte : Nat) (got : List UInt8) (line : Line) : Prop where
  fits : got.length ≤ nbyte
  ends : (∃ i, got.findIdx? (· == 10) = some i ∧ line = ⟨(i + 1 : Nat), terminated i got⟩) ∨
    line.buf = got ∧ (line.ret = 0 ∨ line.ret = -1 ∨ line.ret = nbyte)

theorem getLineLoop_spec (nbyte turns : Nat) (got : List UInt8) (w : Wire σ) (hgot : got.length ≤ nbyte) :
    let r := getLineLoop ch nbyte turns got w
    (∃ bs, bs ++ r.1.incoming = w.incoming ∧ LineRead nbyte (got ++ bs) r.2) ∧
      r.1.target = w.target ∧ r.1.writes = w.writes := by
  induction turns generalizing got w with
  | zero =>
    refine ⟨⟨[], rfl, ?_, .inr ⟨(List.append_nil _).symm, .inl rfl⟩⟩, rfl, rfl⟩
    rw [List.append_nil]
    exact hgot
  | succ turns ih =>
    unfold getLineLoop
    split
    · next w' heq =>
      obtain ⟨hin, htarget, hwrites⟩ := read_none heq
      refine ⟨⟨[], hin, ?_, .inr ⟨(List.append_nil _).symm, .inr (.inl rfl)⟩⟩, htarget, hwrites⟩
      rw [List.append_nil]
      exact hgot
    · next w' bs heq =>
      obtain ⟨hin, htarget, hwrites, hlen⟩ := read_incoming heq
      have hfits : (got ++ bs).length ≤ nbyte := by
        rw [List.length_append]
        omega
      dsimp only
      split
      · next i hi => exact ⟨⟨bs, hin, hfits, .inl ⟨i, hi, rfl⟩⟩, htarget, hwrites⟩
      · split_ifs with hturns hmore
        · exact ⟨⟨bs, hin, hfits, .inr ⟨rfl, .inl rfl⟩⟩, htarget, hwrites⟩
        · obtain ⟨⟨bs', hin', hread⟩, htarget', hwrites'⟩ := ih (got ++ bs) w' hfits
          refine ⟨⟨bs ++ bs', ?_, ?_⟩, htarget'.trans htarget, hwrites'.trans hwrites⟩
          · rw [List.append_assoc, hin', hin]
          · rw [← List.append_assoc]
            exact hread
        · have hfull : (got ++ bs).length = nbyte := by omega
          refine ⟨⟨bs, hin, hfits, .inr ⟨rfl, .inr (.inr ?_)⟩⟩, htarget, hwrites⟩
          rw [hfull]

/-- The UART brings what has been sent: no read fails, and ten of them bring a line. -/
def Channel.Prompt (ch : Channel) : Prop := ∀ k, ∃ c, ch.chunk k = some c ∧ 7 ≤ c

/-- A line ends with its only newline. -/
structure IsLine (l : List UInt8) : Prop where
  newline : ∃ body, l = body ++ [10] ∧ 10 ∉ body
  zero : 0 ∉ l

theorem IsLine.findIdx {l : List UInt8} (h : IsLine l) : l.findIdx? (· == 10) = some (l.length - 1) := by
  obtain ⟨body, rfl, hbody⟩ := h.newline
  rw [List.findIdx?_append, List.findIdx?_eq_none_iff.mpr]
  · rw [List.length_append, List.length_singleton]
    simp
  · intro c hc
    exact beq_eq_false_iff_ne.mpr fun heq => hbody (heq ▸ hc)

theorem IsLine.cString_terminated {l : List UInt8} (h : IsLine l) : cString (terminated (l.length - 1) l) = l := by
  obtain ⟨body, rfl, -⟩ := h.newline
  have hlen : (body ++ [(10 : UInt8)]).length - 1 + 1 = (body ++ [(10 : UInt8)]).length := by
    rw [List.length_append, List.length_singleton]
    rfl
  unfold terminated cString
  rw [hlen, List.take_length, List.takeWhile_append_of_pos]
  · rw [List.takeWhile_cons_of_neg (by simp), List.append_nil]
  · intro c hc
    exact decide_eq_true fun heq => h.zero (heq ▸ hc)

/-- A part of a line that is not all of it has no newline. -/
theorem IsLine.findIdx_prefix {l got rest : List UInt8} (h : IsLine l) (heq : got ++ rest = l) (hne : rest ≠ []) :
    got.findIdx? (· == 10) = none := by
  obtain ⟨body, rfl, hbody⟩ := h.newline
  apply List.findIdx?_eq_none_iff.mpr
  intro c hc
  have hmem : c ∈ body := by
    rcases List.append_eq_append_iff.mp heq with ⟨as, hbody', -⟩ | ⟨bs, hgot, hrest⟩
    · rw [hbody']
      exact List.mem_append_left _ hc
    · rw [hgot] at hc
      cases bs with
      | nil =>
        rw [List.append_nil] at hc
        exact hc
      | cons b bs =>
        rw [List.cons_append, List.cons.injEq] at hrest
        exact absurd (List.append_eq_nil_iff.mp hrest.2.symm).2 hne
  exact beq_eq_false_iff_ne.mpr fun heq => hbody (heq ▸ hmem)

theorem getLineLoop_line (hprompt : ch.Prompt) {l : List UInt8} (hl : IsLine l) {nbyte turns : Nat} {got : List UInt8}
    (heq : got ++ w.incoming = l) (hne : w.incoming ≠ []) (hbyte : l.length ≤ nbyte)
    (hturns : w.incoming.length ≤ 7 * turns) :
    let r := getLineLoop ch nbyte turns got w
    r.1.incoming = [] ∧ r.2 = ⟨l.length, terminated (l.length - 1) l⟩ := by
  induction turns generalizing got w with
  | zero => exact absurd (List.length_eq_zero_iff.mp (by omega)) hne
  | succ turns ih =>
    obtain ⟨c, hc, hseven⟩ := hprompt w.reads
    have hlen : got.length + w.incoming.length = l.length := by rw [← heq, List.length_append]
    have hpos := List.length_pos_iff.mpr hne
    have hread : w.read ch (min 64 (nbyte - got.length)) =
        ({ w with incoming := w.incoming.drop (min c (min 64 (nbyte - got.length))), reads := w.reads + 1 },
          some (w.incoming.take (min c (min 64 (nbyte - got.length))))) := by
      unfold Wire.read
      rw [hc]
    unfold getLineLoop
    rw [hread]
    dsimp only
    by_cases hall : w.incoming.length ≤ min c (min 64 (nbyte - got.length))
    · rw [List.take_of_length_le hall, heq, hl.findIdx, List.drop_eq_nil_of_le hall]
      refine ⟨rfl, ?_⟩
      dsimp only
      rw [Nat.sub_add_cancel (by omega)]
    · have hrest : w.incoming.drop (min c (min 64 (nbyte - got.length))) ≠ [] := by
        intro hnil
        have := List.drop_eq_nil_iff.mp hnil
        omega
      have heq' : (got ++ w.incoming.take (min c (min 64 (nbyte - got.length)))) ++
          w.incoming.drop (min c (min 64 (nbyte - got.length))) = l := by
        rw [List.append_assoc, List.take_append_drop, heq]
      rw [hl.findIdx_prefix heq' hrest]
      dsimp only
      rw [if_neg (by omega), if_pos (by rw [List.length_append, List.length_take]; omega)]
      exact ih heq' hrest (by dsimp only; rw [List.length_drop]; omega)

/-- A line that is there is read. -/
theorem getLine_line (nbyte maxWait : Nat) (hprompt : ch.Prompt) (hl : IsLine w.incoming)
    (hbyte : w.incoming.length ≤ nbyte) (hwait : w.incoming.length ≤ 7 * maxWait) :
    let r := getLine ch nbyte maxWait w
    r.1.incoming = [] ∧ r.2 = ⟨w.incoming.length, terminated (w.incoming.length - 1) w.incoming⟩ := by
  refine getLineLoop_line hprompt hl rfl ?_ hbyte hwait
  obtain ⟨body, hbody, -⟩ := hl.newline
  rw [hbody]
  exact List.append_ne_nil_of_right_ne_nil _ (List.cons_ne_nil _ _)

variable (ch) in
theorem getLine_spec (nbyte maxWait : Nat) (w : Wire σ) :
    let r := getLine ch nbyte maxWait w
    (∃ bs, bs ++ r.1.incoming = w.incoming ∧ LineRead nbyte bs r.2) ∧ r.1.target = w.target ∧ r.1.writes = w.writes :=
  getLineLoop_spec nbyte maxWait [] w (Nat.zero_le _)

variable (ch) in
theorem lpcWaitResponse_frame (response : List UInt8) (maxWait : Nat) (w : Wire σ) :
    (lpcWaitResponse ch response maxWait w).1.target = w.target ∧
      (lpcWaitResponse ch response maxWait w).1.writes = w.writes := by
  have hline := (getLine_spec ch response.length maxWait w).2
  unfold lpcWaitResponse
  generalize getLine ch response.length maxWait w = r at hline ⊢
  obtain ⟨w', line⟩ := r
  dsimp only at hline ⊢
  split_ifs
  · exact hline
  · exact hline
  · exact hline

/-- The response that is waited for is taken. -/
theorem lpcWaitResponse_line (maxWait : Nat) (hprompt : ch.Prompt) {response : List UInt8} (hl : IsLine response)
    (hin : w.incoming = response) (hwait : response.length ≤ 7 * maxWait) (hsize : response.length < 2 ^ 32) :
    (lpcWaitResponse ch response maxWait w).1.incoming = [] ∧ (lpcWaitResponse ch response maxWait w).2 = 0 := by
  subst hin
  obtain ⟨hempty, hline⟩ := getLine_line w.incoming.length maxWait hprompt hl (Nat.le_refl w.incoming.length) hwait
  have hpos : 0 < w.incoming.length := by
    obtain ⟨body, hbody, -⟩ := hl.newline
    rw [hbody, List.length_append, List.length_singleton]
    omega
  have hmod : (((w.incoming.length : Nat) : Int) % 2 ^ 32).toNat = w.incoming.length := by omega
  unfold lpcWaitResponse
  generalize getLine ch w.incoming.length maxWait w = r at hempty hline ⊢
  obtain ⟨w', line⟩ := r
  dsimp only at hempty hline ⊢
  rw [hline]
  dsimp only
  rw [if_neg (by omega), hl.cString_terminated, hmod]
  exact ⟨hempty, if_pos rfl⟩

theorem cString_of_zero {l : List UInt8} (h : 0 ∉ l) : cString l = l :=
  List.takeWhile_eq_self_iff.mpr fun _ hc => decide_eq_true fun heq => h (heq ▸ hc)

variable (ch) in
/-- Another line, which the response is not the beginning of, is not taken for it. -/
theorem lpcWaitResponse_other {response : List UInt8} (maxWait : Nat) (hl : IsLine w.incoming)
    (hlonger : response.length < w.incoming.length) (hother : ¬ response <+: w.incoming)
    (hsize : response.length < 2 ^ 32) : (lpcWaitResponse ch response maxWait w).2 = -1 := by
  obtain ⟨⟨got, hgot, hfits, hends⟩, -⟩ := getLine_spec ch response.length maxWait w
  have hrest : (getLine ch response.length maxWait w).1.incoming ≠ [] := by
    intro hnil
    rw [hnil, List.append_nil] at hgot
    rw [hgot] at hfits
    omega
  have hzero : cString got = got :=
    cString_of_zero fun hmem => hl.zero (hgot ▸ List.mem_append_left _ hmem)
  obtain ⟨hbuf, hret⟩ := hends.resolve_left (by
    rintro ⟨i, hi, -⟩
    rw [hl.findIdx_prefix hgot hrest] at hi
    cases hi)
  unfold lpcWaitResponse
  generalize getLine ch response.length maxWait w = r at hgot hbuf hret ⊢
  obtain ⟨w', line⟩ := r
  dsimp only at hgot hbuf hret ⊢
  rw [hbuf, hzero]
  split_ifs with hnone hsame
  · rfl
  · exfalso
    have hn : response.length ≤ (line.ret % 2 ^ 32).toNat := by omega
    rw [List.take_of_length_le hn, List.take_of_length_le (Nat.le_trans hfits hn)] at hsame
    rw [hsame] at hgot
    exact hother ⟨_, hgot⟩
  · rfl

theorem drain_frame (turns : Nat) (w : Wire σ) :
    (w.drain ch turns).target = w.target ∧ (w.drain ch turns).writes = w.writes := by
  induction turns generalizing w with
  | zero => exact ⟨rfl, rfl⟩
  | succ turns ih =>
    unfold Wire.drain
    split
    · next w' heq => exact (read_none heq).2
    · next w' bs heq =>
      obtain ⟨-, htarget, hwrites, -⟩ := read_incoming heq
      split_ifs
      · exact ⟨htarget, hwrites⟩
      · exact ⟨(ih w').1.trans htarget, (ih w').2.trans hwrites⟩

variable (ch) in
/-- Nothing is left to read, and the target has not heard of it. -/
theorem flush_frame (w : Wire σ) : (w.flush ch).1.incoming = [] ∧ (w.flush ch).1.target = w.target :=
  ⟨rfl, (drain_frame _ w).1⟩

end

end Isp

end CoActionOS
