import Posh.Lib.Checked

/-!
Programs that return an error or panic: the `Result` functions of a language whose
arithmetic and indexing are checked.

`Returns x p` says that `x` does not panic, and that a value it returns satisfies
`p`; an error satisfies it vacuously.
-/

namespace Posh.Lib

universe u

/-- A value, an error of type `ε`, or a panic. -/
inductive Fallible (ε : Type) (α : Type u) where
  | ok (a : α)
  | fail (e : ε)
  | panic (p : Panic)
deriving DecidableEq, Repr

variable {ε : Type} {α β σ γ : Type}

namespace Fallible

def bind (x : Fallible ε α) (f : α → Fallible ε β) : Fallible ε β :=
  match x with
  | .ok a => f a
  | .fail e => .fail e
  | .panic p => .panic p

instance : Monad (Fallible ε) where
  pure := .ok
  bind := Fallible.bind

def ofChecked : Checked α → Fallible ε α
  | .ok a => .ok a
  | .error p => .panic p

instance : MonadLift Checked (Fallible ε) := ⟨ofChecked⟩

/-- `x.ok_or(e)?` -/
def ofOption (e : ε) : Option α → Fallible ε α
  | some a => .ok a
  | none => .fail e

theorem ok_bind (a : α) (f : α → Fallible ε β) : (Fallible.ok a >>= f) = f a :=
  rfl

theorem lift_ok_bind (a : α) (f : α → Fallible ε β) :
    ((liftM (Except.ok a : Checked α) : Fallible ε α) >>= f) = f a :=
  rfl

theorem fail_bind (e : ε) (f : α → Fallible ε β) : (Fallible.fail e >>= f) = Fallible.fail e :=
  rfl

/-- What the caller of a `Result` function matches on. -/
def result : Fallible ε α → Checked (Except ε α)
  | .ok a => .ok (.ok a)
  | .fail e => .ok (.error e)
  | .panic p => .error p

/-- `for a in xs { s = f(a, s)? }` -/
def forEach (xs : List γ) (s : σ) (f : γ → σ → Fallible ε σ) : Fallible ε σ :=
  match xs with
  | [] => .ok s
  | a :: rest => f a s >>= fun s => forEach rest s f

end Fallible

/-- `x` panics only where `c` fails, and a value it returns satisfies `p`. -/
def Returns (c : Prop) (x : Fallible ε α) (p : α → Prop) : Prop :=
  match x with
  | .ok a => p a
  | .fail _ => True
  | .panic _ => ¬ c

namespace Returns

variable {c d : Prop} {x : Fallible ε α} {p q : α → Prop}

theorem pure {a : α} (h : p a) : Returns c (Pure.pure a : Fallible ε α) p :=
  h

theorem fail (e : ε) : Returns c (.fail e : Fallible ε α) p :=
  trivial

theorem bind {f : α → Fallible ε β} {r : β → Prop} (hx : Returns c x p)
    (hf : ∀ a, p a → Returns c (f a) r) : Returns c (x >>= f) r := by
  cases x with
  | ok a => exact hf a hx
  | fail e => trivial
  | panic p => exact hx

theorem mono (hx : Returns c x p) (imp : ∀ a, p a → q a) : Returns c x q := by
  cases x with
  | ok a => exact imp a hx
  | fail e => trivial
  | panic p => exact hx

theorem lift {y : Checked α} (hy : Guarded c y p) : Returns c (liftM y : Fallible ε α) p := by
  cases y with
  | ok a => exact hy
  | error e => exact hy

theorem ofOption {e : ε} {o : Option α} (h : ∀ a, o = some a → p a) :
    Returns c (Fallible.ofOption e o) p := by
  cases o with
  | none => trivial
  | some a => exact h a rfl

/-- The caller of a function that may fail sees a value or an error. -/
theorem result (hx : Returns c x p) : Guarded c x.result fun r => ∀ a, r = .ok a → p a := by
  cases x with
  | ok a => exact .ok fun b eq => (Except.ok.inj eq) ▸ hx
  | fail e => exact .ok nofun
  | panic p => exact hx

/-- Whatever `x` returns. -/
theorem skip {f : α → Fallible ε β} {r : β → Prop} (rest : ∀ a, Returns False (f a) r) :
    Returns False (x >>= f) r := by
  cases x with
  | ok a => exact rest a
  | fail e => trivial
  | panic p => exact not_false

/-- A loop keeps what each of its steps keeps. -/
theorem forEach {xs : List γ} {f : γ → α → Fallible ε α} {I : List γ → α → Prop} {s : α}
    (start : I [] s)
    (step : ∀ before a after s, xs = before ++ a :: after → I before s →
      Returns c (f a s) (I (before ++ [a]))) :
    Returns c (Fallible.forEach xs s f) (I xs) := by
  have loop (before rest : List γ) (s : α) (all : xs = before ++ rest) (now : I before s) :
      Returns c (Fallible.forEach rest s f) (I xs) := by
    induction rest generalizing before s with
    | nil =>
      rw [List.append_nil] at all
      exact all ▸ now
    | cons a rest ih =>
      refine (step before a rest s all now).bind fun s' next => ?_
      exact ih (before ++ [a]) s' (by rw [all, List.append_assoc]; rfl) next
  exact loop [] xs s rfl start

theorem trivial (x : Fallible ε α) : Returns False x fun _ => True := by
  cases x with
  | ok a => exact True.intro
  | fail e => exact True.intro
  | panic p => exact not_false

end Returns

/-- `x` returns a value, and the value satisfies `p`. -/
def Gives (x : Fallible ε α) (p : α → Prop) : Prop :=
  ∃ a, x = .ok a ∧ p a

namespace Gives

variable {x : Fallible ε α} {p q : α → Prop}

theorem ok {a : α} (h : p a) : Gives (.ok a : Fallible ε α) p :=
  ⟨a, rfl, h⟩

theorem pure {a : α} (h : p a) : Gives (Pure.pure a : Fallible ε α) p :=
  ⟨a, rfl, h⟩

theorem bind {f : α → Fallible ε β} {r : β → Prop} (hx : Gives x p)
    (hf : ∀ a, p a → Gives (f a) r) : Gives (x >>= f) r := by
  obtain ⟨a, rfl, ha⟩ := hx
  exact hf a ha

theorem mono (hx : Gives x p) (imp : ∀ a, p a → q a) : Gives x q := by
  obtain ⟨a, eq, ha⟩ := hx
  exact ⟨a, eq, imp a ha⟩

theorem lift {y : Checked α} (hy : Yields y p) : Gives (liftM y : Fallible ε α) p := by
  obtain ⟨a, rfl, ha⟩ := hy
  exact ⟨a, rfl, ha⟩

/-- A loop keeps what each of its steps keeps. -/
theorem forEach {xs : List γ} {f : γ → α → Fallible ε α} {I : List γ → α → Prop} {s : α}
    (start : I [] s)
    (step : ∀ before a after s, xs = before ++ a :: after → I before s →
      Gives (f a s) (I (before ++ [a]))) :
    Gives (Fallible.forEach xs s f) (I xs) := by
  have loop (before rest : List γ) (s : α) (all : xs = before ++ rest) (now : I before s) :
      Gives (Fallible.forEach rest s f) (I xs) := by
    induction rest generalizing before s with
    | nil =>
      rw [List.append_nil] at all
      exact .ok (all ▸ now)
    | cons a rest ih =>
      refine (step before a rest s all now).bind fun s' next => ?_
      exact ih (before ++ [a]) s' (by rw [all, List.append_assoc]; rfl) next
  exact loop [] xs s rfl start

end Gives

/-! ### Loops over indices -/

/-- The place of an element in `0..n` is its value. -/
theorem range_eq_append {n i : Nat} {before after : List Nat}
    (all : List.range n = before ++ i :: after) : i = before.length ∧ i < n := by
  have place : (List.range n)[before.length]? = some i := by simp [all]
  have inside : before.length < n := by
    have := congrArg List.length all
    simp only [List.length_range, List.length_append, List.length_cons] at this
    omega
  rw [List.getElem?_range inside] at place
  exact ⟨(Option.some.inj place).symm, (Option.some.inj place) ▸ inside⟩

section Range

variable {c : Prop} {n : Nat} {s : α} {f g : Nat → α → Fallible ε α} {I : Nat → α → Prop}

theorem Gives.forRange (start : I 0 s)
    (step : ∀ i < n, ∀ s, I i s → Gives (f i s) (I (i + 1))) :
    Gives (Fallible.forEach (List.range n) s f) (I n) := by
  have loop : Gives (Fallible.forEach (List.range n) s f) (I (List.range n).length) := by
    refine Gives.forEach (I := fun before => I before.length) start fun before i after s all now => ?_
    obtain ⟨rfl, inside⟩ := range_eq_append all
    rw [List.length_append]
    exact step _ inside s now
  rwa [List.length_range] at loop

theorem Returns.forRange (start : I 0 s)
    (step : ∀ i < n, ∀ s, I i s → Returns c (f i s) (I (i + 1))) :
    Returns c (Fallible.forEach (List.range n) s f) (I n) := by
  have loop : Returns c (Fallible.forEach (List.range n) s f) (I (List.range n).length) := by
    refine Returns.forEach (I := fun before => I before.length) start
      fun before i after s all now => ?_
    obtain ⟨rfl, inside⟩ := range_eq_append all
    rw [List.length_append]
    exact step _ inside s now
  rwa [List.length_range] at loop

/-- Two loops are one where their steps are, on every state that comes up. -/
theorem Fallible.forRange_congr (start : I 0 s) (same : ∀ i < n, ∀ s, I i s → f i s = g i s)
    (step : ∀ i < n, ∀ s, I i s → Returns False (g i s) (I (i + 1))) :
    Fallible.forEach (List.range n) s f = Fallible.forEach (List.range n) s g := by
  have loop (before rest : List Nat) (s : α) (all : List.range n = before ++ rest)
      (now : I before.length s) : Fallible.forEach rest s f = Fallible.forEach rest s g := by
    induction rest generalizing before s with
    | nil => rfl
    | cons i rest ih =>
      obtain ⟨rfl, inside⟩ := range_eq_append all
      rw [Fallible.forEach, Fallible.forEach, same _ inside s now]
      have next := step _ inside s now
      cases stepped : g before.length s with
      | fail e => rfl
      | panic p => rfl
      | ok s' =>
        rw [stepped] at next
        refine ih (before ++ [before.length]) s' (by rw [all, List.append_assoc]; rfl) ?_
        rwa [List.length_append]
  exact loop [] _ s rfl start

end Range

end Posh.Lib
