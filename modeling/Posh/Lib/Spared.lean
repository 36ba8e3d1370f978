import Posh.Lib.Fallible

/-!
Panics of one kind.

`Spared bad x p` says that `x` does not panic in a way that is `bad`, whatever other panics
it may end in, and that a value it returns satisfies `p`. The rules are those of programs
that do not panic, without the duty to show that they return.
-/

namespace Posh.Lib

universe u v

/-- `x` has no bad panic, and a value it returns satisfies `p`. -/
def Spared {α : Type u} (bad : Panic → Prop) (x : Checked α) (p : α → Prop) : Prop :=
  match x with
  | .ok a => p a
  | .error e => ¬ bad e

namespace Spared

variable {α β : Type u} {γ : Type v} {bad : Panic → Prop} {x : Checked α} {p q : α → Prop}

theorem pure {a : α} (h : p a) : Spared bad (Pure.pure a) p :=
  h

theorem ok {a : α} (h : p a) : Spared bad (.ok a) p :=
  h

theorem of_yields (h : Yields x p) : Spared bad x p := by
  obtain ⟨a, rfl, holds⟩ := h
  exact holds

theorem mono (h : Spared bad x p) (imp : ∀ a, p a → q a) : Spared bad x q := by
  cases x with
  | ok a => exact imp a h
  | error e => exact h

theorem bind {f : α → Checked β} {r : β → Prop} (h : Spared bad x p)
    (rest : ∀ a, p a → Spared bad (f a) r) : Spared bad (x >>= f) r := by
  cases x with
  | ok a => exact rest a h
  | error e => exact h

theorem and (hp : Spared bad x p) (hq : Guarded False x q) :
    Spared bad x fun a => p a ∧ q a := by
  cases x with
  | ok a => exact ⟨hp, hq⟩
  | error e => exact hp

/-- What is returned is what is returned. -/
theorem and_eq (h : Spared bad x p) : Spared bad x fun a => p a ∧ x = .ok a := by
  cases x with
  | ok a => exact ⟨h, rfl⟩
  | error e => exact h

theorem of_eq_ok (h : Spared bad x p) {a : α} (eq : x = .ok a) : p a := by
  subst eq
  exact h

theorem of_eq_error (h : Spared bad x p) {e : Panic} (eq : x = .error e) : ¬ bad e := by
  subst eq
  exact h

/-- Where every panic is bad, there is none. -/
theorem yields (h : Spared bad x p) (all : ∀ e, bad e) : Yields x p := by
  cases x with
  | ok a => exact ⟨a, rfl, h⟩
  | error e => exact absurd (all e) h

theorem forEach {xs : List γ} {s : α} {f : γ → α → Checked α} {I : α → Prop} (start : I s)
    (step : ∀ a ∈ xs, ∀ s, I s → Spared bad (f a s) I) : Spared bad (Lib.forEach xs s f) I := by
  induction xs generalizing s with
  | nil => exact .ok start
  | cons a rest ih =>
    refine (step a List.mem_cons_self s start).bind fun s' keeps => ih keeps ?_
    intro b mem
    exact step b (List.mem_cons_of_mem a mem)

theorem forRange {lo hi : Nat} {s : α} {f : Nat → α → Checked α} {I : α → Prop} (start : I s)
    (step : ∀ i s, I s → Spared bad (f i s) I) : Spared bad (Lib.forRange lo hi s f) I :=
  forEach start fun i _ s keeps => step i s keeps

section Index

variable (safe : ¬ bad .index)

include safe

theorem getAt (xs : List α) (i : Nat) : Spared bad (Lib.getAt xs i) fun _ => True := by
  unfold Lib.getAt
  split
  · exact .ok trivial
  · exact safe

theorem setAt (xs : List α) (i : Nat) (a : α) :
    Spared bad (Lib.setAt xs i a) (·.length = xs.length) := by
  unfold Lib.setAt
  split
  · exact .ok List.length_set
  · exact safe

theorem slice (xs : List α) (lo hi : Nat) :
    Spared bad (Lib.slice xs lo hi) fun part =>
      part.length = hi - lo ∧ lo ≤ hi ∧ hi ≤ xs.length := by
  unfold Lib.slice
  split
  · rename_i inside
    refine .ok ⟨?_, inside⟩
    rw [List.length_drop, List.length_take, Nat.min_eq_left inside.2]
  · exact safe

end Index

theorem unwrap (safe : ¬ bad .missing) (x : Option α) :
    Spared bad (Lib.unwrap x) fun a => x = some a := by
  cases x with
  | some a => exact .ok rfl
  | none => exact safe

/-- What has no bad panic, and satisfies nothing in particular. -/
theorem skip {f : α → Checked β} {r : β → Prop} (h : Spared bad x p)
    (rest : ∀ a, Spared bad (f a) r) : Spared bad (x >>= f) r :=
  h.bind fun a _ => rest a

end Spared

/-- The same of a program that may return an error. -/
def SparedResult {ε α : Type} (bad : Panic → Prop) (x : Fallible ε α) (p : α → Prop) : Prop :=
  match x with
  | .ok a => p a
  | .fail _ => True
  | .panic e => ¬ bad e

namespace SparedResult

variable {ε α β γ : Type} {bad : Panic → Prop} {x : Fallible ε α} {p q : α → Prop}

theorem pure {a : α} (h : p a) : SparedResult bad (Pure.pure a : Fallible ε α) p :=
  h

theorem fail (e : ε) : SparedResult bad (.fail e : Fallible ε α) p :=
  trivial

theorem of_returns (h : Returns True x p) : SparedResult bad x p := by
  cases x with
  | ok a => exact h
  | fail e => trivial
  | panic e => exact absurd trivial h

theorem lift {y : Checked α} (h : Spared bad y p) :
    SparedResult bad (liftM y : Fallible ε α) p := by
  cases y with
  | ok a => exact h
  | error e => exact h

theorem ofOption {e : ε} {o : Option α} (h : ∀ a, o = some a → p a) :
    SparedResult bad (Fallible.ofOption e o) p := by
  cases o with
  | none => trivial
  | some a => exact h a rfl

theorem mono (h : SparedResult bad x p) (imp : ∀ a, p a → q a) : SparedResult bad x q := by
  cases x with
  | ok a => exact imp a h
  | fail e => trivial
  | panic e => exact h

theorem bind {f : α → Fallible ε β} {r : β → Prop} (h : SparedResult bad x p)
    (rest : ∀ a, p a → SparedResult bad (f a) r) : SparedResult bad (x >>= f) r := by
  cases x with
  | ok a => exact rest a h
  | fail e => trivial
  | panic e => exact h

/-- A loop over indices, whose invariant speaks about the index. -/
theorem forRange {n : Nat} {s : α} {f : Nat → α → Fallible ε α} {I : Nat → α → Prop}
    (start : I 0 s) (step : ∀ i < n, ∀ s, I i s → SparedResult bad (f i s) (I (i + 1))) :
    SparedResult bad (Fallible.forEach (List.range n) s f) (I n) := by
  have loop (before rest : List Nat) (s : α) (all : List.range n = before ++ rest)
      (now : I before.length s) : SparedResult bad (Fallible.forEach rest s f) (I n) := by
    induction rest generalizing before s with
    | nil =>
      have count := congrArg List.length all
      rw [List.append_nil, List.length_range] at count
      exact count ▸ now
    | cons i rest ih =>
      obtain ⟨rfl, inside⟩ := range_eq_append all
      refine (step _ inside s now).bind fun s' next => ?_
      refine ih (before ++ [before.length]) s' (by rw [all, List.append_assoc]; rfl) ?_
      rwa [List.length_append]
  exact loop [] _ s rfl start

/-- What is returned is what is returned. -/
theorem and_eq (h : SparedResult bad x p) : SparedResult bad x fun a => p a ∧ x = .ok a := by
  cases x with
  | ok a => exact ⟨h, rfl⟩
  | fail e => trivial
  | panic e => exact h

theorem result (h : SparedResult bad x p) :
    Spared bad x.result fun r => ∀ a, r = .ok a → p a := by
  cases x with
  | ok a => exact .ok fun b eq => (Except.ok.inj eq) ▸ h
  | fail e => exact .ok nofun
  | panic e => exact h

end SparedResult

end Posh.Lib
