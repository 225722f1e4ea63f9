import Mathlib.Logic.Basic
import Mathlib.Data.List.Basic

/-!
# Runs of a labelled transition function

`step s a = some (s', e)` reads: in state `s` the action `a` is enabled, leads to `s'` and is
observed as `e`.  `Run step ok s₀ es s` is a finite run from `s₀` to `s` that was observed as `es`
and whose every step met the side condition `ok`.

`Run.invariant` is the induction every safety theorem of the development uses; `Run.of_replay`
turns a computed replay into a run, which is how concrete runs are exhibited.
-/

namespace CoActionOS

variable {σ α ε : Type*}

/-- A run from `s₀` all of whose steps meet `ok`, with the events observed on the way. -/
inductive Run (step : σ → α → Option (σ × Option ε)) (ok : σ → α → Prop) (s₀ : σ) :
    List ε → σ → Prop
  | nil : Run step ok s₀ [] s₀
  | snoc {es : List ε} {s s' : σ} {a : α} {e : Option ε} :
      Run step ok s₀ es s → ok s a → step s a = some (s', e) → Run step ok s₀ (es ++ e.toList) s'

namespace Run

variable {step : σ → α → Option (σ × Option ε)} {ok ok' : σ → α → Prop} {s₀ s : σ} {es : List ε}

/-- What holds at the start and is kept by every step that meets `ok` holds after every run. -/
theorem invariant (Inv : List ε → σ → Prop) (h0 : Inv [] s₀)
    (hstep : ∀ es s a s' e, Inv es s → ok s a → step s a = some (s', e) → Inv (es ++ e.toList) s')
    (hrun : Run step ok s₀ es s) : Inv es s := by
  induction hrun with
  | nil => exact h0
  | snoc _ hok hs ih => exact hstep _ _ _ _ _ ih hok hs

theorem mono (himp : ∀ s a, ok s a → ok' s a) (hrun : Run step ok s₀ es s) :
    Run step ok' s₀ es s := by
  induction hrun with
  | nil => exact nil
  | snoc _ hok hs ih => exact snoc ih (himp _ _ hok) hs

/-- What holds of every event of a list and of one more, in view of what came before. -/
theorem forall_split_snoc {P : List ε → ε → Prop} {e : ε}
    (h : ∀ before e' after, es = before ++ e' :: after → P before e') (he : P es e) :
    ∀ before e' after, es ++ [e] = before ++ e' :: after → P before e' := by
  intro before e' after heq
  rcases List.append_eq_append_iff.mp heq with ⟨l, hbefore, hrest⟩ | ⟨l, hes, hrest⟩
  · cases l with
    | nil =>
      rw [List.append_nil] at hbefore
      cases hrest
      rw [hbefore]
      exact he
    | cons e'' l => simp at hrest
  · cases l with
    | nil =>
      rw [List.append_nil] at hes
      cases hrest
      rw [← hes]
      exact he
    | cons e'' l =>
      cases hrest
      exact h before e' l hes

/-- Replay a list of actions, collecting the events. -/
def replay (step : σ → α → Option (σ × Option ε)) : σ → List α → Option (σ × List ε)
  | s, [] => some (s, [])
  | s, a :: as =>
    match step s a with
    | none => none
    | some (s', e) =>
      match replay step s' as with
      | none => none
      | some (s'', es) => some (s'', e.toList ++ es)

theorem cons {a : α} {s₁ : σ} {e : Option ε} (hok : ok s₀ a) (hs : step s₀ a = some (s₁, e))
    (hrun : Run step ok s₁ es s) : Run step ok s₀ (e.toList ++ es) s := by
  induction hrun with
  | nil =>
    have h : Run step ok s₀ ([] ++ e.toList) s₁ := snoc nil hok hs
    rwa [List.append_nil, ← List.nil_append e.toList]
  | snoc _ hok' hs' ih =>
    rw [← List.append_assoc]
    exact snoc ih hok' hs'

/-- Every step of the replay meets `ok`. -/
def AllOk (step : σ → α → Option (σ × Option ε)) (ok : σ → α → Prop) : σ → List α → Prop
  | _, [] => True
  | s, a :: as =>
    ok s a ∧
      match step s a with
      | none => True
      | some (s', _) => AllOk step ok s' as

/-- A replay is checked step by step. -/
instance decidableAllOk [∀ s a, Decidable (ok s a)] :
    (s : σ) → (as : List α) → Decidable (AllOk step ok s as)
  | _, [] => inferInstanceAs (Decidable True)
  | s, a :: as =>
    @instDecidableAnd _ _ inferInstance
      (match step s a with
      | none => inferInstanceAs (Decidable True)
      | some (s', _) => decidableAllOk s' as)

/-- The later steps meet `ok` whatever the first one does. -/
theorem allOk_cons {a : α} {as : List α} (ha : ok s a) (has : ∀ s', AllOk step ok s' as) : AllOk step ok s (a :: as) := by
  refine ⟨ha, ?_⟩
  cases step s a with
  | none => trivial
  | some p => exact has p.1

theorem allOk_true (s : σ) (as : List α) : AllOk step (fun _ _ => True) s as := by
  induction as generalizing s with
  | nil => trivial
  | cons a as ih => exact allOk_cons trivial ih

/-- A replay whose steps meet `ok` is a run. -/
theorem of_replay {as : List α} (h : replay step s₀ as = some (s, es))
    (hok : AllOk step ok s₀ as) : Run step ok s₀ es s := by
  induction as generalizing s₀ es with
  | nil =>
    simp only [replay, Option.some.injEq, Prod.mk.injEq] at h
    obtain ⟨rfl, rfl⟩ := h
    exact nil
  | cons a as ih =>
    simp only [replay] at h
    obtain ⟨hoka, hrest⟩ := hok
    split at h
    · exact absurd h (by simp)
    · next s₁ e hs =>
      rw [hs] at hrest
      split at h
      · exact absurd h (by simp)
      · next s₂ es₂ hr =>
        simp only [Option.some.injEq, Prod.mk.injEq] at h
        obtain ⟨rfl, rfl⟩ := h
        exact cons hoka hs (ih hr hrest)

end Run

end CoActionOS
