import Posh.Lib.Checked

/-!
Programs that commute with a change of their state.

`Along φ x y` says that `y` runs as `x` does when states are seen through `φ`: it
panics in the same way, or its result is the image of the other's. `Paired R x y` says
the same of a relation.
-/

namespace Posh.Lib

universe u v

variable {α β σ τ : Type u} {γ : Type v}

def Along (φ : α → β) (x : Checked α) (y : Checked β) : Prop :=
  y = φ <$> x

namespace Along

variable {φ : α → β} {ψ : σ → τ}

theorem ok (a : α) : Along φ (.ok a) (.ok (φ a)) :=
  rfl

theorem error (p : Panic) : Along φ (.error p) (.error p) :=
  rfl

theorem of_eq {a : α} {b : β} (h : b = φ a) : Along φ (.ok a) (.ok b) := by
  rw [h]
  exact ok a

theorem bind {x : Checked α} {y : Checked β} {f : α → Checked σ} {g : β → Checked τ}
    (h : Along φ x y) (rest : ∀ a, Along ψ (f a) (g (φ a))) : Along ψ (x >>= f) (y >>= g) := by
  cases h
  cases x with
  | error p => rfl
  | ok a => exact rest a

/-- A step that does not depend on the change. -/
theorem same {x : Checked α} {f : α → Checked σ} {g : α → Checked τ}
    (rest : ∀ a, Along ψ (f a) (g a)) : Along ψ (x >>= f) (x >>= g) := by
  cases x with
  | error p => rfl
  | ok a => exact rest a

theorem ite {c : Prop} [Decidable c] {x x' : Checked α} {y y' : Checked β} (yes : Along φ x y)
    (no : Along φ x' y') : Along φ (if c then x else x') (if c then y else y') := by
  split
  · exact yes
  · exact no

theorem forEach {xs : List γ} {f : γ → α → Checked α} {g : γ → β → Checked β}
    (step : ∀ c a, Along φ (f c a) (g c (φ a))) (a : α) :
    Along φ (Lib.forEach xs a f) (Lib.forEach xs (φ a) g) := by
  induction xs generalizing a with
  | nil => exact ok a
  | cons c rest ih => exact (step c a).bind ih

theorem forRange {lo hi : Nat} {f : Nat → α → Checked α} {g : Nat → β → Checked β}
    (step : ∀ i a, Along φ (f i a) (g i (φ a))) (a : α) :
    Along φ (Lib.forRange lo hi a f) (Lib.forRange lo hi (φ a) g) :=
  forEach step a

end Along

/-- Both panic in the same way, or their results are related. -/
inductive Paired (R : α → β → Prop) : Checked α → Checked β → Prop where
  | ok {a : α} {b : β} (h : R a b) : Paired R (.ok a) (.ok b)
  | error (p : Panic) : Paired R (.error p) (.error p)

namespace Paired

variable {R : α → β → Prop} {S : σ → τ → Prop} {x : Checked α} {y : Checked β}

theorem bind {f : α → Checked σ} {g : β → Checked τ} (h : Paired R x y)
    (rest : ∀ a b, R a b → Paired S (f a) (g b)) : Paired S (x >>= f) (y >>= g) := by
  cases h with
  | ok related => exact rest _ _ related
  | error p => exact .error p

theorem mono {R' : α → β → Prop} (h : Paired R x y) (imp : ∀ a b, R a b → R' a b) :
    Paired R' x y := by
  cases h with
  | ok related => exact .ok (imp _ _ related)
  | error p => exact .error p

/-- The first runs as far as the second does. -/
theorem guarded {c : Prop} (h : Paired R x y) (runs : c → ∃ b, y = .ok b) :
    Guarded c x fun a => ∃ b, y = .ok b ∧ R a b := by
  cases h with
  | ok related => exact .ok ⟨_, rfl, related⟩
  | error p =>
    refine .error fun holds => ?_
    obtain ⟨b, returned⟩ := runs holds
    cases returned

/-- What is the same for related results. -/
theorem map_eq {δ : Type u} {f : α → δ} {g : β → δ} (h : Paired R x y)
    (same : ∀ a b, R a b → f a = g b) : f <$> x = g <$> y := by
  cases h with
  | ok related => exact congrArg Except.ok (same _ _ related)
  | error p => rfl

end Paired

end Posh.Lib
