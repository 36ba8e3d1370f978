import Mathlib.Logic.Relation

/-!
Transition systems over an arbitrary state type: the states a run can reach,
inductive invariants, and the rule that lets a property proved of one step
speak about every run.
-/

namespace Posh.Lib

universe u

/-- A transition system: where runs may start and what one step may do. -/
structure Transition (σ : Type u) where
  init : σ → Prop
  step : σ → σ → Prop

namespace Transition

variable {σ : Type u} {M : Transition σ}

/-- `M.Runs s t`: some finite run of `M` leads from `s` to `t`. -/
abbrev Runs (M : Transition σ) : σ → σ → Prop :=
  Relation.ReflTransGen M.step

/-- The states some run from an initial state reaches. -/
def Reachable (M : Transition σ) (s : σ) : Prop :=
  ∃ s₀, M.init s₀ ∧ M.Runs s₀ s

theorem Reachable.of_init {s : σ} (h : M.init s) : M.Reachable s :=
  ⟨s, h, .refl⟩

theorem Reachable.tail {s t : σ} (h : M.Reachable s) (step : M.step s t) :
    M.Reachable t := by
  obtain ⟨s₀, init, run⟩ := h
  exact ⟨s₀, init, run.tail step⟩

theorem Reachable.runs {s t : σ} (h : M.Reachable s) (run : M.Runs s t) :
    M.Reachable t := by
  obtain ⟨s₀, init, before⟩ := h
  exact ⟨s₀, init, before.trans run⟩

/-- A step-preserved property survives a whole run. -/
theorem runs_preserve {I : σ → Prop} (step : ∀ s t, I s → M.step s t → I t)
    {s t : σ} (run : M.Runs s t) (h : I s) : I t := by
  induction run with
  | refl => exact h
  | tail _ last ih => exact step _ _ ih last

/-- Induction over the reachable states, where the state before a step may be
assumed reachable itself. -/
theorem Reachable.induct {I : σ → Prop} (base : ∀ s, M.init s → I s)
    (step : ∀ s t, M.Reachable s → I s → M.step s t → I t) {s : σ} (h : M.Reachable s) :
    I s := by
  obtain ⟨s₀, init, run⟩ := h
  induction run with
  | refl => exact base s₀ init
  | tail before last ih => exact step _ _ ⟨s₀, init, before⟩ ih last

/-- `I` is an inductive invariant of `M`. -/
structure Invariant (M : Transition σ) (I : σ → Prop) : Prop where
  base : ∀ s, M.init s → I s
  step : ∀ s t, I s → M.step s t → I t

theorem Invariant.reachable {I : σ → Prop} (inv : M.Invariant I) {s : σ}
    (h : M.Reachable s) : I s := by
  obtain ⟨s₀, init, run⟩ := h
  exact runs_preserve inv.step run (inv.base s₀ init)

end Transition

end Posh.Lib
