import Mathlib.Order.Basic
import Mathlib.Order.MinMax
import Mathlib.Logic.Function.Basic

/-!
# Priority ceilings

Threads hold locks, every lock has a ceiling, and a thread's running priority is kept by three
operations that each overwrite one or two priorities.  `Holding.Met` is the ceiling discipline: a
thread runs at or above its base priority and the ceilings of the locks it holds, and at its base
priority when it holds none.

Acquiring a free lock always keeps the discipline.  Releasing one keeps it under a condition on the
other locks of the two threads involved, which is exact (`Holding.met_release_iff`).
-/

namespace CoActionOS

open Function

variable {T M P : Type*} [DecidableEq T] [DecidableEq M] [LinearOrder P]

/-- Threads `T` with base and running priorities, locks `M` with ceilings and holders. -/
@[ext]
structure Holding (T M P : Type*) where
  base : T → P
  prio : T → P
  ceiling : M → P
  owner : M → Option T

namespace Holding

variable (h : Holding T M P)

/-- The ceiling discipline. -/
def Met : Prop :=
  ∀ t, h.base t ≤ h.prio t ∧ (∀ m, h.owner m = some t → h.ceiling m ≤ h.prio t) ∧
    ((∀ m, h.owner m ≠ some t) → h.prio t = h.base t)

/-- Thread `t` takes the free lock `m` and is raised to its ceiling. -/
def acquire (t : T) (m : M) : Holding T M P :=
  { h with
    prio := update h.prio t (max (h.prio t) (h.ceiling m))
    owner := update h.owner m (some t) }

/-- Thread `t` falls back to its base priority and gives the lock `m` to `heir`, whose priority
becomes the ceiling. -/
def release (t : T) (m : M) (heir : Option T) : Holding T M P :=
  { h with
    prio := fun u =>
      if heir = some u then h.ceiling m else if u = t then h.base t else h.prio u
    owner := update h.owner m heir }

/-- Thread `t` starts again with base priority `p`. -/
def restart (t : T) (p : P) : Holding T M P :=
  { h with base := update h.base t p, prio := update h.prio t p }

/-- The other locks of `t` need no more than its base priority, and the heir and its other locks need
no more than the ceiling of `m`. -/
def ReleaseSafe (t : T) (m : M) (heir : Option T) : Prop :=
  (∀ m', m' ≠ m → h.owner m' = some t → h.ceiling m' ≤ h.base t) ∧
    ∀ n, heir = some n → h.base n ≤ h.ceiling m ∧ ∀ m', h.owner m' = some n →
      h.ceiling m' ≤ h.ceiling m

variable {h} {t : T} {m : M} {heir : Option T}

theorem Met.acquire (hmet : h.Met) (hfree : h.owner m = none) : (h.acquire t m).Met := by
  intro u
  obtain ⟨hbase, hceil, hnone⟩ := hmet u
  simp only [Holding.acquire]
  rcases eq_or_ne u t with rfl | hu
  · rw [update_self]
    refine ⟨hbase.trans (le_max_left _ _), ?_, fun hno => absurd (update_self m (some u) h.owner)
      (hno m)⟩
    intro k hk
    rcases eq_or_ne k m with rfl | hkm
    · exact le_max_right _ _
    · rw [update_of_ne hkm] at hk
      exact (hceil k hk).trans (le_max_left _ _)
  · rw [update_of_ne hu]
    refine ⟨hbase, ?_, ?_⟩
    · intro k hk
      rcases eq_or_ne k m with rfl | hkm
      · rw [update_self, Option.some.injEq] at hk
        exact absurd hk.symm hu
      · rw [update_of_ne hkm] at hk
        exact hceil k hk
    · intro hno
      apply hnone
      intro k
      rcases eq_or_ne k m with rfl | hkm
      · rw [hfree]
        simp
      · have hk := hno k
        rwa [update_of_ne hkm] at hk

omit [DecidableEq T] [LinearOrder P] in
/-- What the other locks say about a thread survives the release of a lock that is not its own. -/
theorem none_of_release {u : T} (hu : h.owner m ≠ some u)
    (hno : ∀ k, update h.owner m heir k ≠ some u) : ∀ k, h.owner k ≠ some u := by
  intro k
  rcases eq_or_ne k m with rfl | hkm
  · exact hu
  · have hk := hno k
    rwa [update_of_ne hkm] at hk

theorem Met.release (hmet : h.Met) (hown : h.owner m = some t) (hsafe : h.ReleaseSafe t m heir) :
    (h.release t m heir).Met := by
  intro u
  obtain ⟨hbase, hceil, hnone⟩ := hmet u
  obtain ⟨hself, hheir⟩ := hsafe
  simp only [Holding.release]
  by_cases hu : heir = some u
  · -- the heir runs at the ceiling
    obtain ⟨hle, hothers⟩ := hheir u hu
    rw [if_pos hu]
    refine ⟨hle, ?_, fun hno => absurd ((update_self m heir h.owner).trans hu) (hno m)⟩
    intro k hk
    rcases eq_or_ne k m with rfl | hkm
    · exact le_refl _
    · rw [update_of_ne hkm] at hk
      exact hothers k hk
  · rw [if_neg hu]
    rcases eq_or_ne u t with rfl | hut
    · rw [if_pos rfl]
      refine ⟨le_refl _, ?_, fun _ => rfl⟩
      intro k hk
      rcases eq_or_ne k m with rfl | hkm
      · rw [update_self] at hk
        exact absurd hk hu
      · rw [update_of_ne hkm] at hk
        exact hself k hkm hk
    · rw [if_neg hut]
      refine ⟨hbase, ?_, fun hno => hnone (none_of_release ?_ hno)⟩
      · intro k hk
        rcases eq_or_ne k m with rfl | hkm
        · rw [update_self] at hk
          exact absurd hk hu
        · rw [update_of_ne hkm] at hk
          exact hceil k hk
      · rw [hown, ne_eq, Option.some.injEq]
        exact Ne.symm hut

/-- Releasing to somebody else keeps the discipline exactly when it is safe. -/
theorem met_release_iff (hmet : h.Met) (hown : h.owner m = some t) (hne : heir ≠ some t) :
    (h.release t m heir).Met ↔ h.ReleaseSafe t m heir := by
  constructor
  · intro hafter
    refine ⟨?_, ?_⟩
    · intro k hkm hk
      have hle := (hafter t).2.1 k ((update_of_ne hkm _ _).trans hk)
      simpa [Holding.release, hne] using hle
    · rintro n rfl
      have hn : n ≠ t := fun heq => hne (congrArg some heq)
      obtain ⟨hle, hceil, _⟩ := hafter n
      simp only [Holding.release, ite_true] at hle hceil
      refine ⟨hle, fun k hk => hceil k ?_⟩
      have hkm : k ≠ m := by
        rintro rfl
        rw [hown, Option.some.injEq] at hk
        exact hn hk.symm
      rw [update_of_ne hkm]
      exact hk
  · exact hmet.release hown

omit [DecidableEq M] in
theorem Met.restart {p : P} (hmet : h.Met) (hle : ∀ m, h.owner m = some t → h.ceiling m ≤ p) :
    (h.restart t p).Met := by
  intro u
  obtain ⟨hbase, hceil, hnone⟩ := hmet u
  simp only [Holding.restart]
  rcases eq_or_ne u t with rfl | hu
  · rw [update_self, update_self]
    exact ⟨le_refl _, hle, fun _ => rfl⟩
  · rw [update_of_ne hu, update_of_ne hu]
    exact ⟨hbase, hceil, hnone⟩

end Holding

end CoActionOS
