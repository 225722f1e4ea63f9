import Mathlib.Data.Fintype.Powerset
import Mathlib.Data.Set.Insert
import Mathlib.Data.Set.Finite.Lemmas
import Mathlib.Logic.Relation

/-!
# Searches that follow two neighbours

A search that goes on from each new node with one neighbour of a first kind and then with one of a second kind.  Both are chosen
when it comes to the node, so the second one can have been reached from the first one when its turn comes.

`Sweep.closed` says when nothing is passed over.
-/

namespace CoActionOS

variable {α : Type*}

/-- From a node, or from none, the search takes what is reached from one set to another. -/
inductive Sweep (first second : Set α → α → α → Prop) : Set α → Option α → Set α → Prop
  | none {V : Set α} : Sweep first second V none V
  | reached {V : Set α} {v : α} (h : v ∈ V) : Sweep first second V (some v) V
  | visit {V V₁ V₂ : Set α} {v : α} {o₁ o₂ : Option α} (h : v ∉ V) (h₁ : ∀ u, o₁ = some u ↔ first V v u)
      (h₂ : ∀ u, o₂ = some u ↔ second V v u) (hfirst : Sweep first second (insert v V) o₁ V₁)
      (hsecond : Sweep first second V₁ o₂ V₂) : Sweep first second V (some v) V₂

namespace Sweep

variable {first second : Set α → α → α → Prop} {V V' : Set α} {o : Option α} {v : α}

theorem subset (h : Sweep first second V o V') : V ⊆ V' := by
  induction h with
  | none => exact Set.Subset.rfl
  | reached _ => exact Set.Subset.rfl
  | visit _ _ _ _ _ ihfirst ihsecond => exact (Set.subset_insert _ _).trans (ihfirst.trans ihsecond)

theorem mem (h : Sweep first second V (some v) V') : v ∈ V' := by
  cases h with
  | reached h => exact h
  | visit _ _ _ hfirst hsecond => exact hsecond.subset (hfirst.subset (Set.mem_insert _ _))

/-- What is reached has a path to it. -/
theorem reachable {r : α → α → Prop} (hfirst : ∀ V v u, first V v u → r v u) (hsecond : ∀ V v u, second V v u → r v u)
    (h : Sweep first second V o V') : ∀ u ∈ V', u ∈ V ∨ ∃ v, o = some v ∧ Relation.ReflTransGen r v u := by
  induction h with
  | none => exact fun u hu => .inl hu
  | reached _ => exact fun u hu => .inl hu
  | @visit V V₁ V₂ v o₁ o₂ _ h₁ h₂ _ _ ihfirst ihsecond =>
    intro u hu
    rcases ihsecond u hu with hu | ⟨v', ho, hpath⟩
    · rcases ihfirst u hu with hu | ⟨v', ho, hpath⟩
      · rcases Set.mem_insert_iff.mp hu with rfl | hu
        · exact .inr ⟨u, rfl, .refl⟩
        · exact .inl hu
      · exact .inr ⟨v, rfl, .head (hfirst V v v' ((h₁ v').mp ho)) hpath⟩
    · exact .inr ⟨v, rfl, .head (hsecond V v v' ((h₂ v').mp ho)) hpath⟩

/-- Where each neighbour that is not yet reached is one that is followed, no neighbour is left out. -/
theorem closed {P : α → Prop} {r : α → α → Prop} (hfirst : ∀ V v u, first V v u → r v u)
    (hsecond : ∀ V v u, second V v u → r v u) (hP : ∀ v u, P v → r v u → P u)
    (hfollowed : ∀ V v u, P v → r v u → u ∉ V → first V v u ∨ second V v u) (h : Sweep first second V o V')
    (ho : ∀ v, o = some v → P v) : ∀ v ∈ V', v ∉ V → ∀ u, r v u → u ∈ V' := by
  induction h with
  | none => exact fun v hv hnot => absurd hv hnot
  | reached _ => exact fun v hv hnot => absurd hv hnot
  | @visit V V₁ V₂ w o₁ o₂ _ h₁ h₂ hs₁ hs₂ ihfirst ihsecond =>
    have hw := ho w rfl
    intro v hv hnot u hu
    by_cases hv₁ : v ∈ V₁
    · by_cases hvw : v = w
      · subst hvw
        by_cases huV : u ∈ V
        · exact hs₂.subset (hs₁.subset (Set.mem_insert_of_mem _ huV))
        · rcases hfollowed V v u hw hu huV with hone | htwo
          · obtain rfl := (h₁ u).mpr hone
            exact hs₂.subset hs₁.mem
          · obtain rfl := (h₂ u).mpr htwo
            exact hs₂.mem
      · have hnew : v ∉ insert w V := fun h => (Set.mem_insert_iff.mp h).elim hvw hnot
        exact hs₂.subset (ihfirst (fun u hone => hP w u hw (hfirst V w u ((h₁ u).mp hone))) v hv₁ hnew u hu)
    · exact ihsecond (fun u htwo => hP w u hw (hsecond V w u ((h₂ u).mp htwo))) v hv hv₁ u hu

theorem exists_choice {p : α → Prop} (h : ∀ u u', p u → p u' → u = u') : ∃ o : Option α, ∀ u, o = some u ↔ p u := by
  by_cases hex : ∃ u, p u
  · obtain ⟨u, hu⟩ := hex
    refine ⟨some u, fun u' => ⟨fun heq => ?_, fun hu' => congrArg some (h u u' hu hu')⟩⟩
    obtain rfl := Option.some.inj heq
    exact hu
  · exact ⟨.none, fun u => ⟨fun heq => absurd heq (by simp), fun hu => absurd ⟨u, hu⟩ hex⟩⟩

/-- Every search of finitely many nodes comes to an end. -/
theorem exists_sweep [Finite α] (hfirst : ∀ V v u u', first V v u → first V v u' → u = u')
    (hsecond : ∀ V v u u', second V v u → second V v u' → u = u') (V : Set α) (o : Option α) :
    ∃ V', Sweep first second V o V' := by
  induction V using WellFoundedGT.induction generalizing o with
  | _ V ih =>
    cases o with
    | none => exact ⟨V, .none⟩
    | some v =>
      by_cases hv : v ∈ V
      · exact ⟨V, .reached hv⟩
      · have hlt : V < insert v V := Set.ssubset_insert hv
        obtain ⟨o₁, h₁⟩ := exists_choice (hfirst V v)
        obtain ⟨o₂, h₂⟩ := exists_choice (hsecond V v)
        obtain ⟨V₁, hs₁⟩ := ih _ hlt o₁
        obtain ⟨V₂, hs₂⟩ := ih _ (lt_of_lt_of_le hlt hs₁.subset) o₂
        exact ⟨V₂, .visit hv h₁ h₂ hs₁ hs₂⟩

end Sweep

end CoActionOS
