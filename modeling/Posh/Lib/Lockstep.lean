import Posh.Lib.Checked

/-!
Programs that may panic, two at a time.

`Lockstep c x y R` says that both `x` and `y` panic only where `c` fails, and that what they
return is related by `R`. The rules follow those for one program: what is shown of one step of
both carries over to sequences and to loops that take their steps together.
-/

namespace Posh.Lib

universe u

variable {α β γ δ σ τ : Type u}

/-- `x` and `y` panic only where `c` fails, and the values they return are related. -/
def Lockstep (c : Prop) (x : Checked α) (y : Checked β) (R : α → β → Prop) : Prop :=
  Guarded c x fun a => Guarded c y (R a)

namespace Lockstep

variable {c : Prop} {x : Checked α} {y : Checked β} {R S : α → β → Prop}

theorem ok {a : α} {b : β} (h : R a b) : Lockstep c (.ok a) (.ok b) R :=
  h

theorem pure {a : α} {b : β} (h : R a b) : Lockstep c (Pure.pure a) (Pure.pure b) R :=
  h

theorem mono (h : Lockstep c x y R) (imp : ∀ a b, R a b → S a b) : Lockstep c x y S :=
  Guarded.mono h fun a related => Guarded.mono related (imp a)

theorem of_guarded {p : α → Prop} {q : β → Prop} (hx : Guarded c x p) (hy : Guarded c y q) :
    Lockstep c x y fun a b => p a ∧ q b :=
  hx.mono fun _ holds => hy.mono fun _ holds' => ⟨holds, holds'⟩

theorem bind {f : α → Checked γ} {g : β → Checked δ} {T : γ → δ → Prop}
    (h : Lockstep c x y R) (steps : ∀ a b, R a b → Lockstep c (f a) (g b) T) :
    Lockstep c (x >>= f) (y >>= g) T := by
  cases x with
  | error panic => exact Guarded.error h
  | ok a =>
    cases y with
    | ok b => exact steps a b h
    | error panic =>
      change Guarded c (f a) fun _ => ¬ c
      cases f a with
      | ok d => exact h
      | error panic' => exact h

/-- What each of two values satisfies, when they are related. -/
theorem of_eq_ok (h : Lockstep c x y R) {a : α} {b : β} (hx : x = .ok a) (hy : y = .ok b) :
    R a b :=
  (Guarded.of_eq_ok h hx).of_eq_ok hy

/-- Where nothing panics, both return. -/
theorem returns (h : Lockstep c x y R) (holds : c) : ∃ a b, x = .ok a ∧ y = .ok b := by
  obtain ⟨a, hx, related⟩ := Guarded.yields h holds
  obtain ⟨b, hy, -⟩ := Guarded.yields related holds
  exact ⟨a, b, hx, hy⟩

/-- Counting loops that take each pass together. -/
theorem forRange_index {lo hi : Nat} {s : σ} {t : τ} {f : Nat → σ → Checked σ}
    {g : Nat → τ → Checked τ} {I : Nat → σ → τ → Prop} (le : lo ≤ hi) (start : I lo s t)
    (step : ∀ i s t, lo ≤ i → i < hi → I i s t → Lockstep c (f i s) (g i t) (I (i + 1))) :
    Lockstep c (forRange lo hi s f) (forRange lo hi t g) (I hi) := by
  obtain ⟨n, rfl⟩ := Nat.exists_eq_add_of_le le
  unfold forRange
  rw [Nat.add_sub_cancel_left]
  clear le
  induction n generalizing lo s t with
  | zero => exact .ok start
  | succ n ih =>
    rw [List.range'_succ]
    refine (step lo s t (Nat.le_refl lo) (by omega) start).bind fun s' t' keeps => ?_
    have rest : Lockstep c (forEach (List.range' (lo + 1) n) s' f)
        (forEach (List.range' (lo + 1) n) t' g) (I (lo + 1 + n)) :=
      ih keeps fun i s t low high => step i s t (by omega) (by omega)
    rwa [Nat.add_right_comm] at rest

end Lockstep

end Posh.Lib
