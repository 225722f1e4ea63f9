import Mathlib.Logic.Basic

/-!
# The passes of a loop

`pass s` is one pass of a loop: it goes on in another state, or leaves the loop with a result.  `Passes pass s n r` says that
the loop that is entered in `s` goes on `n` times and then leaves with `r`.

`Passes.of_recursion` is the rule for total correctness: a function that follows the passes, with a bound that each pass
lowers, is what the loop leaves with.
-/

namespace CoActionOS

variable {σ ρ : Type*}

inductive Passes (pass : σ → σ ⊕ ρ) : σ → Nat → ρ → Prop
  | leave {s : σ} {r : ρ} : pass s = .inr r → Passes pass s 0 r
  | again {s s' : σ} {n : Nat} {r : ρ} : pass s = .inl s' → Passes pass s' n r → Passes pass s (n + 1) r

namespace Passes

variable {pass : σ → σ ⊕ ρ}

theorem of_recursion (Inv : σ → Prop) (bound : σ → Nat) (f : σ → ρ)
    (hagain : ∀ s s', Inv s → pass s = .inl s' → Inv s' ∧ bound s' < bound s ∧ f s = f s')
    (hleave : ∀ s r, Inv s → pass s = .inr r → f s = r) {s : σ} (hs : Inv s) :
    ∃ n, n ≤ bound s ∧ Passes pass s n (f s) := by
  -- the induction is on the bound
  induction hb : bound s using Nat.strongRecOn generalizing s with
  | _ b ih =>
    cases hpass : pass s with
    | inl s' =>
      obtain ⟨hs', hlt, heq⟩ := hagain s s' hs hpass
      obtain ⟨n, hn, hrest⟩ := ih (bound s') (hb ▸ hlt) hs' rfl
      refine ⟨n + 1, by omega, ?_⟩
      rw [heq]
      exact again hpass hrest
    | inr r =>
      refine ⟨0, Nat.zero_le b, ?_⟩
      rw [hleave s r hs hpass]
      exact leave hpass

end Passes

end CoActionOS
