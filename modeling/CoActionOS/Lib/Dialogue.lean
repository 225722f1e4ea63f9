import CoActionOS.Lib.Proc
import Mathlib.Logic.Relation

/-!
# Two programs that talk to each other

Two parties are joined by two channels that lose nothing and keep the order.  A read returns any part of
what is in the channel, up to the number of bytes asked for, or nothing; but a party does not read
nothing more than `patience` times in a row, which says that what is on its way arrives in time.

`Ends` says that every run of the two ends, with both programs returned and both channels empty.  It is
proved backwards: `Ends.expand` puts before a party what it does to take the bytes that have been sent to
it, `Ends.send` a message that the other party takes.  In a `Dialogue` the left party returns last.
-/

namespace CoActionOS

open Proc hiding wait

variable {ι ρ α S ι' ρ' β S' : Type}

/-- What is read of `bs ++ more` is part of `bs` if no more is asked for. -/
theorem eq_append_of_le {bs more got rest : List UInt8} (h : bs ++ more = got ++ rest)
    (hlen : got.length ≤ bs.length) : ∃ left, bs = got ++ left ∧ rest = left ++ more := by
  refine ⟨bs.drop got.length, ?_, ?_⟩
  · conv_lhs => rw [← List.take_append_drop got.length bs]
    rw [← List.take_append_of_le_length hlen, h, List.take_left]
  · rw [← List.drop_append_of_le_length hlen, h, List.drop_left]

structure Party (ι ρ α S : Type) where
  /-- How many times in a row the party may still read nothing. -/
  patience : Nat
  state : S
  prog : Proc ι ρ α

/-- How the calls of a party are answered, and how often in a row it may read nothing. -/
structure Surroundings (ι ρ S : Type) where
  answer : S → ι → S × ρ
  patience : Nat

namespace Surroundings

variable (w : Surroundings ι ρ S)

/-- A party that has just read something. -/
def fresh (s : S) (p : Proc ι ρ α) : Party ι ρ α S := ⟨w.patience, s, p⟩

/-- `w.Moves p inbox p' rest out`: a step of the party leaves `rest` of its channel and sends `out`.
Discarding what has arrived may spare what is still on its way. -/
inductive Moves : Party ι ρ α S → List UInt8 → Party ι ρ α S → List UInt8 → List UInt8 → Prop
  | take {r s dst n k} {got rest : List UInt8} : got ≠ [] → got.length ≤ n →
      Moves ⟨r, s, read dst n k⟩ (got ++ rest) (w.fresh s (k (some got))) rest []
  | empty {r s dst n k inbox} :
      Moves ⟨r + 1, s, read dst n k⟩ inbox ⟨r, s, k (some [])⟩ inbox []
  | write {r s bs k inbox} :
      Moves ⟨r, s, write bs k⟩ inbox ⟨r, s, k bs.length⟩ inbox bs
  | wait {r s ms k inbox} : Moves ⟨r, s, Proc.wait ms k⟩ inbox ⟨r, s, k⟩ inbox []
  | flush {r s k} {gone rest : List UInt8} :
      Moves ⟨r, s, flush k⟩ (gone ++ rest) ⟨r, s, k⟩ rest []
  | call {r s i k inbox} :
      Moves ⟨r, s, call i k⟩ inbox ⟨r, (w.answer s i).1, k (w.answer s i).2⟩ inbox []

/-- Without sending anything the party takes exactly these bytes, however they come, and is then `p'`.
It never asks for more than is left of them. -/
inductive Takes : Party ι ρ α S → List UInt8 → Party ι ρ α S → Prop
  | here {p} : Takes p [] p
  | wait {r s ms k bs p'} : Takes ⟨r, s, k⟩ bs p' → Takes ⟨r, s, Proc.wait ms k⟩ bs p'
  | call {r s i k bs p'} : Takes ⟨r, (w.answer s i).1, k (w.answer s i).2⟩ bs p' →
      Takes ⟨r, s, call i k⟩ bs p'
  | read {r s dst n k} {bs : List UInt8} {p'} : 0 < n → n ≤ bs.length →
      (∀ got rest, bs = got ++ rest → got ≠ [] → got.length ≤ n →
        Takes (w.fresh s (k (some got))) rest p') →
      (∀ r₀, r = r₀ + 1 → Takes ⟨r₀, s, k (some [])⟩ bs p') → Takes ⟨r, s, read dst n k⟩ bs p'

variable {w}

theorem Moves.read_cases {r s dst n} {k : Option (List UInt8) → Proc ι ρ α} {inbox p rest out}
    (h : w.Moves ⟨r, s, read dst n k⟩ inbox p rest out) :
    out = [] ∧
      ((∃ got, inbox = got ++ rest ∧ got ≠ [] ∧ got.length ≤ n ∧ p = w.fresh s (k (some got))) ∨
        ∃ r₀, r = r₀ + 1 ∧ rest = inbox ∧ p = ⟨r₀, s, k (some [])⟩) := by
  cases h with
  | take hgot hlen => exact ⟨rfl, .inl ⟨_, rfl, hgot, hlen, rfl⟩⟩
  | empty => exact ⟨rfl, .inr ⟨_, rfl, rfl, rfl⟩⟩

theorem Takes.congr {p p' p'' : Party ι ρ α S} {bs : List UInt8} (h : w.Takes p bs p')
    (hp : p' = p'') : w.Takes p bs p'' :=
  hp ▸ h

theorem Takes.trans {p p' p'' : Party ι ρ α S} {bs bs' : List UInt8} (h : w.Takes p bs p')
    (h' : w.Takes p' bs' p'') : w.Takes p (bs ++ bs') p'' := by
  induction h with
  | here => exact h'
  | wait _ ih => exact .wait (ih h')
  | call _ ih => exact .call (ih h')
  | @read r s dst n k bs p' hpos hn _ _ ihgot ihnone =>
    have hle : n ≤ (bs ++ bs').length := by
      rw [List.length_append]
      exact Nat.le_add_right_of_le hn
    refine .read hpos hle ?_ fun r₀ hr => ihnone r₀ hr h'
    intro got rest hbs hgot hlen
    obtain ⟨left, hleft, hrest⟩ := eq_append_of_le hbs (Nat.le_trans hlen hn)
    rw [hrest]
    exact ihgot got left hleft hgot hlen h'

end Surroundings

/-- The two parties and what is under way to each. -/
structure Talk (ι ρ α S ι' ρ' β S' : Type) where
  left : Party ι ρ α S
  right : Party ι' ρ' β S'
  toLeft : List UInt8
  toRight : List UInt8

namespace Talk

variable (w : Surroundings ι ρ S) (v : Surroundings ι' ρ' S') (Post : α → S → β → S' → Prop)

inductive Step : Talk ι ρ α S ι' ρ' β S' → Talk ι ρ α S ι' ρ' β S' → Prop
  | left {c l inbox out} : w.Moves c.left c.toLeft l inbox out →
      Step c ⟨l, c.right, inbox, c.toRight ++ out⟩
  | right {c r inbox out} : v.Moves c.right c.toRight r inbox out →
      Step c ⟨c.left, r, c.toLeft ++ out, inbox⟩

/-- Both programs have returned and nothing is under way. -/
inductive Closed : Talk ι ρ α S ι' ρ' β S' → Prop
  | intro {r a s r' b s'} : Post a s b s' → Closed ⟨⟨r, s, ret a⟩, ⟨r', s', ret b⟩, [], []⟩

variable (Until : Talk ι ρ α S ι' ρ' β S' → Prop)

/-- Every run from here comes to an end, is then closed, and meets `Until` before that. -/
inductive Ends : Talk ι ρ α S ι' ρ' β S' → Prop
  | closed {c} : Closed Post c → Ends c
  | step {c} : Until c → (∃ c', Step w v c c') → (∀ c', Step w v c c' → Ends c') → Ends c

/-- No run from here is infinite; each can go on until it is closed, and meets `Until` before that. -/
def Completes (c : Talk ι ρ α S ι' ρ' β S') : Prop :=
  Acc (fun c' c => Step w v c c') c ∧
    ∀ c', Relation.ReflTransGen (Step w v) c c' →
      Closed Post c' ∨ (Until c' ∧ ∃ c'', Step w v c' c'')

/-- The same seen from the other side. -/
def swap (c : Talk ι ρ α S ι' ρ' β S') : Talk ι' ρ' β S' ι ρ α S :=
  ⟨c.right, c.left, c.toRight, c.toLeft⟩

variable {w v Post Until} {c c' : Talk ι ρ α S ι' ρ' β S'}

theorem Step.swap (h : Step w v c c') : Step v w c.swap c'.swap := by
  cases h with
  | left h => exact .right h
  | right h => exact .left h

theorem Closed.swap (h : Closed Post c) : Closed (fun b s' a s => Post a s b s') c.swap := by
  cases h with
  | intro h => exact .intro h

theorem Ends.swap (h : Ends w v Post Until c) :
    Ends v w (fun b s' a s => Post a s b s') (fun c => Until c.swap) c.swap := by
  induction h with
  | closed h => exact .closed h.swap
  | step hc hex _ ih =>
    obtain ⟨c', hstep⟩ := hex
    exact .step hc ⟨c'.swap, hstep.swap⟩ fun c'' h => ih c''.swap h.swap

theorem Ends.completes (h : Ends w v Post Until c) : Completes w v Post Until c := by
  induction h with
  | @closed c h =>
    have hstuck : ∀ c', ¬ Step w v c c' := by
      intro c' hstep
      cases h with
      | intro h =>
        cases hstep with
        | left hmove => cases hmove
        | right hmove => cases hmove
    refine ⟨.intro c fun c' hstep => absurd hstep (hstuck c'), fun c' hrun => .inl ?_⟩
    rcases Relation.ReflTransGen.cases_head hrun with rfl | ⟨c₁, hstep, _⟩
    · exact h
    · exact absurd hstep (hstuck c₁)
  | @step c hc hex _ ih =>
    refine ⟨.intro c fun c' hstep => (ih c' hstep).1, fun c' hrun => ?_⟩
    rcases Relation.ReflTransGen.cases_head hrun with rfl | ⟨c₁, hstep, hrest⟩
    · exact .inr ⟨hc, hex⟩
    · exact (ih c₁ hstep).2 c' hrest

/-- Along what the left party does to take its bytes the right party may move as well. -/
theorem Ends.of_takes {l l' : Party ι ρ α S} {r : Party ι' ρ' β S'} {bs toLeft toRight : List UInt8}
    (htakes : w.Takes l bs l') (hhere : Ends w v Post Until ⟨l', r, toLeft, toRight⟩)
    (huntil : ∀ l bs, l.prog.Open → Until ⟨l, r, bs ++ toLeft, toRight⟩)
    (hright : ∀ l bs r' inbox out, w.Takes l bs l' → v.Moves r toRight r' inbox out →
      Ends w v Post Until ⟨l, r', bs ++ toLeft ++ out, inbox⟩) :
    Ends w v Post Until ⟨l, r, bs ++ toLeft, toRight⟩ := by
  induction htakes with
  | here => exact hhere
  | wait htakes ih =>
    refine .step (huntil _ _ fun _ h => by cases h) ⟨_, .left .wait⟩ fun c' hstep => ?_
    cases hstep with
    | left hmove =>
      cases hmove
      simp only [List.append_nil]
      exact ih hhere hright
    | right hmove => exact hright _ _ _ _ _ (.wait htakes) hmove
  | call htakes ih =>
    refine .step (huntil _ _ fun _ h => by cases h) ⟨_, .left .call⟩ fun c' hstep => ?_
    cases hstep with
    | left hmove =>
      cases hmove
      simp only [List.append_nil]
      exact ih hhere hright
    | right hmove => exact hright _ _ _ _ _ (.call htakes) hmove
  | @read r₀ s dst n k bs p' hpos hn hgot hnone ihgot ihnone =>
    have hmove : ∃ p rest, w.Moves ⟨r₀, s, read dst n k⟩ (bs ++ toLeft) p rest [] := by
      cases bs with
      | nil => exact absurd hn (by simp; omega)
      | cons b bs =>
        have htake : w.Moves ⟨r₀, s, read dst n k⟩ ([b] ++ (bs ++ toLeft)) _ _ [] :=
          .take (List.cons_ne_nil b []) hpos
        exact ⟨_, _, htake⟩
    obtain ⟨p, rest, hmove⟩ := hmove
    refine .step (huntil _ _ fun _ h => by cases h) ⟨_, .left hmove⟩ fun c' hstep => ?_
    cases hstep with
    | left hmove =>
      obtain ⟨rfl, ⟨got, hinbox, hne, hlen, rfl⟩ | ⟨r₁, hr, rfl, rfl⟩⟩ := hmove.read_cases
      · obtain ⟨left, hbs, rfl⟩ := eq_append_of_le hinbox (Nat.le_trans hlen hn)
        simp only [List.append_nil]
        exact ihgot got left hbs hne hlen hhere hright
      · simp only [List.append_nil]
        exact ihnone r₁ hr hhere hright
    | right hmove => exact hright _ _ _ _ _ (.read hpos hn hgot hnone) hmove

/-- If all ends well from where the left party has taken some bytes, it does from before that. -/
theorem Ends.expand (h : Ends w v Post Until c) {l : Party ι ρ α S} {bs : List UInt8}
    (htakes : w.Takes l bs c.left)
    (huntil : ∀ c' l bs, c'.left = c.left → Ends w v Post Until c' → l.prog.Open →
      Until { c' with left := l, toLeft := bs ++ c'.toLeft }) :
    Ends w v Post Until { c with left := l, toLeft := bs ++ c.toLeft } := by
  induction h generalizing l bs with
  | @closed c h =>
    apply Ends.of_takes htakes (.closed h)
    · exact fun l bs hopen => huntil c l bs rfl (.closed h) hopen
    · intro l bs r' inbox out _ hmove
      cases h with
      | intro _ => cases hmove
  | @step c hc hex hall ih =>
    apply Ends.of_takes htakes (.step hc hex hall)
    · exact fun l bs hopen => huntil c l bs rfl (.step hc hex hall) hopen
    · intro l bs r' inbox out htakes' hmove
      rw [List.append_assoc]
      exact ih _ (.right hmove) htakes' huntil

/-- The left party sends a message while the right party, which takes it, may have begun to wait. -/
theorem Ends.send {r₀ : Nat} {s : S} {bs : List UInt8} {k : Int → Proc ι ρ α}
    {r r' : Party ι' ρ' β S'} (hne : bs ≠ []) (htakes : v.Takes r bs r')
    (huntil : ∀ r, r.prog.Open → Until ⟨⟨r₀, s, write bs k⟩, r, [], []⟩)
    (hsent : ∀ r, v.Takes r bs r' → Ends w v Post Until ⟨⟨r₀, s, k bs.length⟩, r, [], bs⟩) :
    Ends w v Post Until ⟨⟨r₀, s, write bs k⟩, r, [], []⟩ := by
  have hwrite : ∀ r, v.Takes r bs r' → ∀ l inbox out,
      w.Moves ⟨r₀, s, write bs k⟩ [] l inbox out → Ends w v Post Until ⟨l, r, inbox, [] ++ out⟩ := by
    intro r htakes l inbox out hmove
    cases hmove
    exact hsent r htakes
  induction htakes with
  | here => exact absurd rfl hne
  | wait htakes ih =>
    refine .step (huntil _ fun _ h => by cases h) ⟨_, .left .write⟩ fun c' hstep => ?_
    cases hstep with
    | left hmove => exact hwrite _ (.wait htakes) _ _ _ hmove
    | right hmove =>
      cases hmove
      exact ih hne huntil hsent hwrite
  | call htakes ih =>
    refine .step (huntil _ fun _ h => by cases h) ⟨_, .left .write⟩ fun c' hstep => ?_
    cases hstep with
    | left hmove => exact hwrite _ (.call htakes) _ _ _ hmove
    | right hmove =>
      cases hmove
      exact ih hne huntil hsent hwrite
  | read hpos hn hgot hnone _ ihnone =>
    refine .step (huntil _ fun _ h => by cases h) ⟨_, .left .write⟩ fun c' hstep => ?_
    cases hstep with
    | left hmove => exact hwrite _ (.read hpos hn hgot hnone) _ _ _ hmove
    | right hmove =>
      obtain ⟨rfl, ⟨got, hinbox, hgot', _, _⟩ | ⟨r₁, hr, rfl, rfl⟩⟩ := hmove.read_cases
      · exact absurd (List.append_eq_nil_iff.mp hinbox.symm).1 hgot'
      · exact ihnone r₁ hr hne huntil hsent hwrite

/-- The left program has not returned. -/
def LeftOpen (c : Talk ι ρ α S ι' ρ' β S') : Prop := c.left.prog.Open

end Talk

/-- The two programs, started with nothing under way, come to an end that meets `Post`; when the left one
returns, all is over. -/
def Dialogue (w : Surroundings ι ρ S) (v : Surroundings ι' ρ' S') (Post : α → S → β → S' → Prop)
    (s : S) (p : Proc ι ρ α) (s' : S') (q : Proc ι' ρ' β) : Prop :=
  Talk.Ends w v Post Talk.LeftOpen ⟨w.fresh s p, v.fresh s' q, [], []⟩

namespace Dialogue

open Talk

variable {w : Surroundings ι ρ S} {v : Surroundings ι' ρ' S'} {Post : α → S → β → S' → Prop}
  {s : S} {s' : S'}

theorem closed {a : α} {b : β} (h : Post a s b s') : Dialogue w v Post s (ret a) s' (ret b) :=
  Ends.closed (.intro h)

theorem expand_left {c : Talk ι ρ α S ι' ρ' β S'} (h : Ends w v Post LeftOpen c) {l : Party ι ρ α S}
    {bs : List UInt8} (htakes : w.Takes l bs c.left) :
    Ends w v Post LeftOpen { c with left := l, toLeft := bs ++ c.toLeft } :=
  h.expand htakes fun _ _ _ _ _ hopen => hopen

/-- The left program must not return while the right one has not, so the right one has to be open after
what it takes. -/
theorem expand_right {c : Talk ι ρ α S ι' ρ' β S'} (h : Ends w v Post LeftOpen c)
    (hopen : c.right.prog.Open) {r : Party ι' ρ' β S'} {bs : List UInt8}
    (htakes : v.Takes r bs c.right) :
    Ends w v Post LeftOpen { c with right := r, toRight := bs ++ c.toRight } := by
  apply Ends.swap (h.swap.expand htakes _)
  intro c' r bs hright h _
  cases h with
  | closed h =>
    cases h with
    | intro _ =>
      rw [← show _ = c.right from hright] at hopen
      exact absurd rfl (hopen _)
  | step hc _ _ => exact hc

theorem send {bs : List UInt8} {k : Int → Proc ι ρ α} {q q' : Proc ι' ρ' β} {s₁ : S'}
    (h : Dialogue w v Post s (k bs.length) s₁ q') (hopen : q'.Open) (hne : bs ≠ [])
    (htakes : v.Takes (v.fresh s' q) bs (v.fresh s₁ q')) :
    Dialogue w v Post s (write bs k) s' q := by
  apply Ends.send hne htakes
  · exact fun _ _ _ h => by cases h
  · intro r htakes
    have hsent := expand_right h hopen htakes
    rwa [List.append_nil] at hsent

theorem send_right {bs : List UInt8} {k : Int → Proc ι' ρ' β} {p p' : Proc ι ρ α} {s₁ : S}
    (h : Dialogue w v Post s₁ p' s' (k bs.length)) (hne : bs ≠ [])
    (htakes : w.Takes (w.fresh s p) bs (w.fresh s₁ p')) :
    Dialogue w v Post s p s' (write bs k) := by
  have hswap : Ends v w (fun b s' a s => Post a s b s') (fun c => LeftOpen c.swap)
      ⟨v.fresh s' (write bs k), w.fresh s p, [], []⟩ := by
    apply Ends.send hne htakes
    · exact fun _ hopen => hopen
    · intro l htakes
      have hsent := expand_left h htakes
      rw [List.append_nil] at hsent
      exact hsent.swap
  exact hswap.swap

theorem wait {ms : Nat} {k : Proc ι ρ α} {q : Proc ι' ρ' β} (h : Dialogue w v Post s k s' q) :
    Dialogue w v Post s (Proc.wait ms k) s' q :=
  expand_left h (.wait .here)

theorem call_right {i : ι'} {p : Proc ι ρ α} {k : ρ' → Proc ι' ρ' β}
    (h : Dialogue w v Post s p (v.answer s' i).1 (k (v.answer s' i).2))
    (hopen : (k (v.answer s' i).2).Open) : Dialogue w v Post s p s' (call i k) :=
  expand_right h hopen (.call .here)

end Dialogue

end CoActionOS
