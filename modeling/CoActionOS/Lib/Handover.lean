import Mathlib.Logic.Relation

/-!
# Handing a token along chosen successors

Somebody owns a token; some have chosen a successor (`next`) to pass it to, and some have given it up
and wait (`gone`).  `Apart` says that the choices run in no circle and that no chain of choices leads
from the owner to one who waits.  So as long as choices are only made among those who have not chosen
themselves, the token never comes back to one who waits.
-/

namespace CoActionOS

open Relation

variable {T : Type*} {next next' : T → T → Prop} {owner : Option T} {gone gone' : T → Prop}
  {t u v w : T}

/-! ### A new choice -/

/-- A chain with the new choice ends where an old chain does, or at the one newly chosen. -/
theorem reach_of_added (hsink : ∀ y, ¬next v y) (hne : u ≠ v)
    (hadd : ∀ x y, next' x y → next x y ∨ (x = u ∧ y = v)) (h : ReflTransGen next' w t) :
    ReflTransGen next w t ∨ t = v := by
  induction h with
  | refl => exact Or.inl .refl
  | @tail b c _ hbc ih =>
    rcases hadd b c hbc with hold | ⟨_, rfl⟩
    · rcases ih with hb | rfl
      · exact Or.inl (hb.tail hold)
      · exact absurd hold (hsink c)
    · exact Or.inr rfl

theorem acyclic_of_added (hacyclic : ∀ x, ¬TransGen next x x) (hsink : ∀ y, ¬next v y) (hne : u ≠ v)
    (hadd : ∀ x y, next' x y → next x y ∨ (x = u ∧ y = v)) : ∀ x, ¬TransGen next' x x := by
  intro x hx
  obtain ⟨b, hxb, hbx⟩ := TransGen.tail'_iff.mp hx
  rcases reach_of_added hsink hne hadd hxb with hb | rfl
  · rcases hadd b x hbx with hold | ⟨rfl, rfl⟩
    · exact hacyclic x (TransGen.tail' hb hold)
    · -- a chain that leaves the one newly chosen is empty
      rcases hb.cases_head with heq | ⟨c, hc, _⟩
      · exact hne heq.symm
      · exact hsink c hc
  · rcases hadd b x hbx with hold | ⟨heq, _⟩
    · exact hsink x hold
    · exact hne heq.symm

/-! ### Owner, choices and waiters -/

structure Apart (next : T → T → Prop) (owner : Option T) (gone : T → Prop) : Prop where
  acyclic : ∀ x, ¬TransGen next x x
  unreachable : ∀ w t, owner = some w → gone t → ¬ReflTransGen next w t

namespace Apart

theorem mono (h : Apart next owner gone) (hnext : ∀ x y, next' x y → next x y)
    (hgone : ∀ x, gone' x → gone x) : Apart next' owner gone' where
  acyclic x hx := h.acyclic x (TransGen.mono hnext _ _ hx)
  unreachable w t hw ht hreach := h.unreachable w t hw (hgone t ht) (ReflTransGen.mono hnext _ _ hreach)

/-- `u` chooses `v`, who has chosen nobody and does not wait. -/
theorem choose (h : Apart next owner gone) (hsink : ∀ y, ¬next v y) (hne : u ≠ v) (hv : ¬gone v)
    (hadd : ∀ x y, next' x y → next x y ∨ (x = u ∧ y = v)) (hgone : ∀ x, gone' x → gone x) :
    Apart next' owner gone' where
  acyclic := acyclic_of_added h.acyclic hsink hne hadd
  unreachable w t hw ht hreach := by
    rcases reach_of_added hsink hne hadd hreach with hold | rfl
    · exact h.unreachable w t hw (hgone t ht) hold
    · exact hv (hgone t ht)

/-- The token is put down. -/
theorem free (h : Apart next owner gone) (hnext : ∀ x y, next' x y → next x y) :
    Apart next' none gone' where
  acyclic x hx := h.acyclic x (TransGen.mono hnext _ _ hx)
  unreachable w t hw := absurd hw (by simp)

/-- Somebody who has chosen nobody and does not wait gets the token. -/
theorem take (h : Apart next owner gone) (hsink : ∀ y, ¬next v y) (hv : ¬gone v)
    (hnext : ∀ x y, next' x y → next x y) (hgone : ∀ x, gone' x → gone x) :
    Apart next' (some v) gone' where
  acyclic x hx := h.acyclic x (TransGen.mono hnext _ _ hx)
  unreachable w t hw ht hreach := by
    obtain rfl := Option.some.inj hw
    rcases (ReflTransGen.mono hnext _ _ hreach).cases_head with rfl | ⟨c, hc, _⟩
    · exact hv (hgone _ ht)
    · exact hsink c hc

/-- The owner passes the token to the one it has chosen and waits. -/
theorem pass (h : Apart next (some t) gone) (hchosen : next t v)
    (hnext : ∀ x y, next' x y → next x y) (hgone : ∀ x, gone' x → gone x ∨ x = t) :
    Apart next' (some v) gone' where
  acyclic x hx := h.acyclic x (TransGen.mono hnext _ _ hx)
  unreachable w x hw hx hreach := by
    obtain rfl := Option.some.inj hw
    have hold := ReflTransGen.mono hnext _ _ hreach
    rcases hgone x hx with hx | rfl
    · exact h.unreachable t x rfl hx (.head hchosen hold)
    · exact h.acyclic x (TransGen.head' hchosen hold)

end Apart

end CoActionOS
