import Mathlib.Logic.Basic

/-!
# Coming to rest

`step s a` is the state after the environment answered `a` in the state `s`.  `Leads step rest Q s` says that from `s` the
system comes to rest after finitely many answers, whatever these are, and that `Q` holds when it does.

`Leads.exists_run` follows one line of answers to the state of rest.  It is how a state is shown not to lead to rest, by an
invariant that some answer always keeps.
-/

namespace CoActionOS

variable {σ α : Type*}

/-- Whatever is answered, the system comes to rest in a state that satisfies `Q`. -/
inductive Leads (step : σ → α → σ) (rest Q : σ → Prop) : σ → Prop
  | here {s : σ} : rest s → Q s → Leads step rest Q s
  | next {s : σ} : ¬ rest s → (∀ a, Leads step rest Q (step s a)) → Leads step rest Q s

namespace Leads

variable {step : σ → α → σ} {rest Q R : σ → Prop} {s : σ}

theorem mono (hQR : ∀ s, rest s → Q s → R s) (h : Leads step rest Q s) : Leads step rest R s := by
  induction h with
  | here hrest hQ => exact here hrest (hQR _ hrest hQ)
  | next hrest _ ih => exact next hrest ih

theorem and (hQ : Leads step rest Q s) (hR : Leads step rest R s) : Leads step rest (fun s => Q s ∧ R s) s := by
  induction hQ with
  | here hrest hQ =>
    cases hR with
    | here _ hR => exact here hrest ⟨hQ, hR⟩
    | next hnot _ => exact absurd hrest hnot
  | next hnot _ ih =>
    cases hR with
    | here hrest _ => exact absurd hrest hnot
    | next _ hall => exact next hnot fun a => ih a (hall a)

/-- A step leads on, if a system at rest takes none. -/
theorem answered (hstep : ∀ s a, rest s → step s a = s) (h : Leads step rest Q s) (a : α) : Leads step rest Q (step s a) := by
  cases h with
  | here hrest hQ =>
    rw [hstep s a hrest]
    exact here hrest hQ
  | next _ hall => exact hall a

/-- Answers that keep an invariant lead to a state of rest that satisfies it. -/
theorem exists_run {Inv : σ → Prop} (hinv : ∀ s, ¬ rest s → Inv s → ∃ a, Inv (step s a)) (h : Leads step rest Q s) :
    Inv s → ∃ s', rest s' ∧ Q s' ∧ Inv s' := by
  induction h with
  | @here s hrest hQ => exact fun hs => ⟨s, hrest, hQ, hs⟩
  | next hnot _ ih =>
    intro hs
    obtain ⟨a, ha⟩ := hinv _ hnot hs
    exact ih a ha

end Leads

end CoActionOS
