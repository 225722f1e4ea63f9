import Mathlib.Logic.Basic

/-!
# Commands with a state, an error return and loops that may not end

`Cmd σ α` models a C function that works on a state `σ`: it returns a value, returns an error code
(the state keeps what was done before), or does not return.  `wp c Q R s` says that `c` returns when
it is called in `s`, that `Q` holds of the value and the state if it succeeds, and `R` of the state
if it fails.
-/

namespace CoActionOS

variable {σ α β : Type}

inductive Outcome (σ α : Type)
  | ok (a : α) (s : σ)
  | error (s : σ)
  | hang

def Outcome.returns : Outcome σ α → Bool
  | .ok _ _ => true
  | _ => false

theorem Outcome.exists_of_returns {o : Outcome σ α} (h : o.returns = true) : ∃ a s, o = .ok a s := by
  cases o with
  | ok a s => exact ⟨a, s, rfl⟩
  | error s => exact nomatch h
  | hang => exact nomatch h

def Cmd (σ α : Type) : Type := σ → Outcome σ α

namespace Cmd

protected def pure (a : α) : Cmd σ α := fun s => .ok a s

protected def bind (c : Cmd σ α) (k : α → Cmd σ β) : Cmd σ β := fun s =>
  match c s with
  | .ok a s => k a s
  | .error s => .error s
  | .hang => .hang

instance : Monad (Cmd σ) where
  pure := Cmd.pure
  bind := Cmd.bind

def fail : Cmd σ α := fun s => .error s

def hang : Cmd σ α := fun _ => .hang

def read (f : σ → α) : Cmd σ α := fun s => .ok (f s) s

def modify (f : σ → σ) : Cmd σ Unit := fun s => .ok () (f s)

/-- The caller looks at the return code itself. -/
def attempt (c : Cmd σ α) : Cmd σ (Option α) := fun s =>
  match c s with
  | .ok a s => .ok (some a) s
  | .error s => .ok none s
  | .hang => .hang

/-- A statement that is executed only if `p` holds. -/
def when (p : Prop) [Decidable p] (c : Cmd σ Unit) : Cmd σ Unit := if p then c else pure ()

/-! ### Weakest preconditions -/

def wp (c : Cmd σ α) (Q : α → σ → Prop) (R : σ → Prop) (s : σ) : Prop :=
  match c s with
  | .ok a s => Q a s
  | .error s => R s
  | .hang => False

variable {c : Cmd σ α} {Q Q' : α → σ → Prop} {R R' : σ → Prop} {s : σ}

theorem wp_mono (h : wp c Q R s) (hQ : ∀ a s', Q a s' → Q' a s') (hR : ∀ s', R s' → R' s') :
    wp c Q' R' s := by
  unfold wp at h ⊢
  split at h
  · exact hQ _ _ h
  · exact hR _ h
  · exact h

/-- The two results of a call can be shown apart. -/
theorem wp_and (h : wp c Q R s) (h' : wp c Q' R' s) :
    wp c (fun a s' => Q a s' ∧ Q' a s') (fun s' => R s' ∧ R' s') s := by
  unfold wp at h h' ⊢
  cases hc : c s with
  | ok a s' =>
    rw [hc] at h h'
    exact ⟨h, h'⟩
  | error s' =>
    rw [hc] at h h'
    exact ⟨h, h'⟩
  | hang =>
    rw [hc] at h
    exact h

@[simp] theorem wp_pure (a : α) : wp (pure a) Q R s ↔ Q a s := Iff.rfl

@[simp] theorem wp_bind {k : α → Cmd σ β} {Q : β → σ → Prop} :
    wp (c >>= k) Q R s ↔ wp c (fun a s' => wp (k a) Q R s') R s := by
  show wp (Cmd.bind c k) Q R s ↔ _
  unfold wp Cmd.bind
  cases c s with
  | ok a s' => exact Iff.rfl
  | error s' => exact Iff.rfl
  | hang => exact Iff.rfl

@[simp] theorem wp_fail : wp (fail : Cmd σ α) Q R s ↔ R s := Iff.rfl

@[simp] theorem wp_read (f : σ → α) : wp (read f) Q R s ↔ Q (f s) s := Iff.rfl

@[simp] theorem wp_modify (f : σ → σ) {Q : Unit → σ → Prop} :
    wp (modify f) Q R s ↔ Q () (f s) := Iff.rfl

@[simp] theorem wp_attempt {Q : Option α → σ → Prop} :
    wp (attempt c) Q R s ↔ wp c (fun a s' => Q (some a) s') (fun s' => Q none s') s := by
  unfold wp attempt
  cases c s with
  | ok a s' => exact Iff.rfl
  | error s' => exact Iff.rfl
  | hang => exact Iff.rfl

theorem wp_when {p : Prop} [Decidable p] {c : Cmd σ Unit} {Q : Unit → σ → Prop}
    (hc : p → wp c Q R s) (hQ : ¬p → Q () s) : wp (when p c) Q R s := by
  rw [when]
  split
  · next h => exact hc h
  · next h => exact hQ h

/-- Sequencing with a specification of the first call. -/
theorem wp_then {k : α → Cmd σ β} {Q : α → σ → Prop} {Q' : β → σ → Prop} (h : wp c Q R s)
    (hk : ∀ a s', Q a s' → wp (k a) Q' R' s') (hR : ∀ s', R s' → R' s') :
    wp (c >>= k) Q' R' s :=
  wp_bind.mpr (wp_mono h hk hR)

theorem wp_of_eq_ok {a : α} {s' : σ} (h : c s = .ok a s') (hQ : Q a s') : wp c Q R s := by
  unfold wp
  rw [h]
  exact hQ

theorem wp_ok {a : α} {s' : σ} (h : wp c Q R s) (hc : c s = .ok a s') : Q a s' := by
  unfold wp at h
  rw [hc] at h
  exact h

theorem wp_error {s' : σ} (h : wp c Q R s) (hc : c s = .error s') : R s' := by
  unfold wp at h
  rw [hc] at h
  exact h

theorem eq_ok_of_wp {a : α} {s' : σ} (h : wp c (fun b s₁ => b = a ∧ s₁ = s') (fun _ => False) s) :
    c s = .ok a s' := by
  unfold wp at h
  split at h
  · next hc =>
    obtain ⟨rfl, rfl⟩ := h
    exact hc
  · exact h.elim
  · exact h.elim

/-- A call that can fail for one reason only. -/
theorem exists_or_of_wp (h : wp c Q R s) :
    (∃ a s', c s = .ok a s' ∧ Q a s') ∨ ∃ s', c s = .error s' ∧ R s' := by
  unfold wp at h
  split at h
  · next a s' hc => exact Or.inl ⟨a, s', hc, h⟩
  · next s' hc => exact Or.inr ⟨s', hc, h⟩
  · exact h.elim

/-! ### Sequencing -/

theorem pure_then (a : α) (k : α → Cmd σ β) : (pure a : Cmd σ α) >>= k = k a := rfl

theorem then_assoc {γ : Type} (c : Cmd σ α) (k : α → Cmd σ β) (k' : β → Cmd σ γ) :
    c >>= k >>= k' = c >>= fun a => k a >>= k' := by
  funext s
  show Cmd.bind (Cmd.bind c k) k' s = Cmd.bind c (fun a => Cmd.bind (k a) k') s
  unfold Cmd.bind
  cases c s <;> rfl

theorem then_congr {c : Cmd σ α} {k k' : α → Cmd σ β} (h : ∀ a, k a = k' a) : c >>= k = c >>= k' := by
  rw [show k = k' from funext h]

theorem then_of_ok {k : α → Cmd σ β} {a : α} {s' : σ} (h : c s = .ok a s') : (c >>= k) s = k a s' := by
  show Cmd.bind c k s = _
  unfold Cmd.bind
  rw [h]

theorem then_eq_ok {k : α → Cmd σ β} {b : β} {s' : σ} (h : (c >>= k) s = .ok b s') :
    ∃ a s₁, c s = .ok a s₁ ∧ k a s₁ = .ok b s' := by
  have h : Cmd.bind c k s = .ok b s' := h
  unfold Cmd.bind at h
  cases hc : c s with
  | ok a s₁ =>
    rw [hc] at h
    exact ⟨a, s₁, rfl, h⟩
  | error s₁ =>
    rw [hc] at h
    cases h
  | hang =>
    rw [hc] at h
    cases h

/-! ### What a command returns -/

/-- If `c` returns a value, `P` holds of it, whatever the state. -/
def Yields (c : Cmd σ α) (P : α → Prop) : Prop := ∀ s a s', c s = .ok a s' → P a

theorem Yields.pure {P : α → Prop} {a : α} (h : P a) : Yields (Pure.pure a : Cmd σ α) P := by
  intro s a' s' hc
  obtain ⟨rfl, rfl⟩ := Outcome.ok.inj hc
  exact h

theorem Yields.bind {P : α → Prop} {P' : β → Prop} {k : α → Cmd σ β} (h : Yields c P)
    (hk : ∀ a, P a → Yields (k a) P') : Yields (c >>= k) P' := by
  intro s b s' hb
  obtain ⟨a, s₁, hc, hka⟩ := then_eq_ok hb
  exact hk a (h s a s₁ hc) s₁ b s' hka

/-- Nothing is known of the value of the first call. -/
theorem Yields.after {P : β → Prop} {k : α → Cmd σ β} (hk : ∀ a, Yields (k a) P) : Yields (c >>= k) P :=
  Yields.bind (P := fun _ => True) (fun _ _ _ _ => trivial) fun a _ => hk a

theorem Yields.mono {P P' : α → Prop} (h : Yields c P) (himp : ∀ a, P a → P' a) : Yields c P' :=
  fun s a s' hc => himp a (h s a s' hc)

/-! ### Partial correctness -/

/-- If `c` returns a value, `Q` holds of it and the state. -/
def wlp (c : Cmd σ α) (Q : α → σ → Prop) (s : σ) : Prop := ∀ a s', c s = .ok a s' → Q a s'

theorem wlp_of_wp (h : wp c Q R s) : wlp c Q s := fun _ _ hc => wp_ok h hc

theorem wlp_mono (h : wlp c Q s) (hQ : ∀ a s', Q a s' → Q' a s') : wlp c Q' s :=
  fun a s' hc => hQ a s' (h a s' hc)

theorem Yields.wlp {P : α → Prop} (h : Yields c P) : wlp c (fun a _ => P a) s := h s

theorem wlp_pure {a : α} (h : Q a s) : wlp (Pure.pure a) Q s := wlp_of_wp ((wp_pure (R := fun _ => True) a).mpr h)

theorem wlp_bind {k : α → Cmd σ β} {Q : β → σ → Prop} (h : wlp c (fun a s' => wlp (k a) Q s') s) :
    wlp (c >>= k) Q s := by
  intro b s' hb
  obtain ⟨a, s₁, hc, hk⟩ := then_eq_ok hb
  exact h a s₁ hc b s' hk

/-- The caller goes on after an error. -/
theorem wlp_attempt {Q : Option α → σ → Prop}
    (h : wp c (fun a s' => Q (some a) s') (fun s' => Q none s') s) : wlp c.attempt Q s :=
  wlp_of_wp (R := fun _ => True) (wp_attempt.mpr h)

/-! ### Commands that only look at the state -/

/-- However `c` returns, the state is as it was. -/
structure Looks (c : Cmd σ α) : Prop where
  ok : ∀ s a s', c s = .ok a s' → s' = s
  error : ∀ s s', c s = .error s' → s' = s

theorem Looks.pure (a : α) : Looks (Pure.pure a : Cmd σ α) where
  ok _ _ _ h := (Outcome.ok.inj h).2.symm
  error _ _ h := nomatch h

theorem Looks.fail : Looks (fail : Cmd σ α) where
  ok _ _ _ h := nomatch h
  error _ _ h := (Outcome.error.inj h).symm

theorem Looks.hang : Looks (hang : Cmd σ α) where
  ok _ _ _ h := nomatch h
  error _ _ h := nomatch h

theorem Looks.bind {k : α → Cmd σ β} (hc : Looks c) (hk : ∀ a, Looks (k a)) : Looks (c >>= k) where
  ok s b s' h := by
    obtain ⟨a, s₁, hs, hka⟩ := then_eq_ok h
    rw [(hk a).ok s₁ b s' hka, hc.ok s a s₁ hs]
  error s s' h := by
    have h : Cmd.bind c k s = .error s' := h
    unfold Cmd.bind at h
    cases hs : c s with
    | ok a s₁ =>
      rw [hs] at h
      rw [(hk a).error s₁ s' h, hc.ok s a s₁ hs]
    | error s₁ =>
      rw [hs] at h
      obtain rfl := Outcome.error.inj h
      exact hc.error s _ hs
    | hang =>
      rw [hs] at h
      cases h

theorem Looks.attempt (hc : Looks c) : Looks c.attempt where
  ok s a s' h := by
    unfold Cmd.attempt at h
    cases hs : c s with
    | ok a' s₁ =>
      rw [hs] at h
      obtain ⟨-, rfl⟩ := Outcome.ok.inj h
      exact hc.ok s a' _ hs
    | error s₁ =>
      rw [hs] at h
      obtain ⟨-, rfl⟩ := Outcome.ok.inj h
      exact hc.error s _ hs
    | hang =>
      rw [hs] at h
      cases h
  error s s' h := by
    unfold Cmd.attempt at h
    cases hs : c s with
    | ok a' s₁ =>
      rw [hs] at h
      cases h
    | error s₁ =>
      rw [hs] at h
      cases h
    | hang =>
      rw [hs] at h
      cases h

end Cmd

end CoActionOS
