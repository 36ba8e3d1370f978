import Posh.Lib.Fallible

/-!
A program watched by another.

The watcher does what the program does and checks more on the way: that sums and products
fit their machine words, that a buffer keeps its limit, that a loop ends in time.
`Mirrors` says that no check of either fails, so that both return the same, and that what
they return satisfies a property. The rules walk through both side by side; where only the
watcher does something, it has to succeed.
-/

namespace Posh.Lib

variable {ε ε' : Type} {α β σ γ : Type} {emb : ε → ε'}

/-- `x` returns what `y` returns, with errors named by `emb`; neither panics. -/
inductive Mirrors (emb : ε → ε') : Fallible ε' α → Fallible ε α → (α → Prop) → Prop where
  | ok {a : α} {p : α → Prop} (holds : p a) : Mirrors emb (.ok a) (.ok a) p
  | fail (e : ε) {p : α → Prop} : Mirrors emb (.fail (emb e)) (.fail e) p

/-- The same outcome with errors named by `emb`. -/
def Fallible.renamed (emb : ε → ε') : Fallible ε α → Fallible ε' α
  | .ok a => .ok a
  | .fail e => .fail (emb e)
  | .panic p => .panic p

namespace Mirrors

variable {x : Fallible ε' α} {y : Fallible ε α} {p q : α → Prop}

theorem pure {a : α} (h : p a) : Mirrors emb (Pure.pure a) (Pure.pure a) p :=
  .ok h

theorem mono (h : Mirrors emb x y p) (imp : ∀ a, p a → q a) : Mirrors emb x y q := by
  cases h with
  | ok holds => exact .ok (imp _ holds)
  | fail e => exact .fail e

theorem bind {f : α → Fallible ε' β} {g : α → Fallible ε β} {r : β → Prop}
    (h : Mirrors emb x y p) (rest : ∀ a, p a → Mirrors emb (f a) (g a) r) :
    Mirrors emb (x >>= f) (y >>= g) r := by
  cases h with
  | ok holds => exact rest _ holds
  | fail e => exact .fail e

/-- A checked step of both. -/
theorem lift {c : Checked α} (h : Yields c p) :
    Mirrors emb (liftM c : Fallible ε' α) (liftM c : Fallible ε α) p := by
  obtain ⟨a, rfl, holds⟩ := h
  exact .ok holds

/-- A checked step of the watcher alone. -/
theorem watch {c : Checked γ} {v : γ} {f : γ → Fallible ε' α} (h : c = .ok v)
    (rest : Mirrors emb (f v) y p) : Mirrors emb (liftM c >>= f) y p := by
  subst h
  exact rest

theorem ofOption {e : ε} {o : Option α} (h : ∀ a, o = some a → p a) :
    Mirrors emb (Fallible.ofOption (emb e) o) (Fallible.ofOption e o) p := by
  cases o with
  | none => exact .fail e
  | some a => exact .ok (h a rfl)

/-- What the watcher does not look into. -/
theorem renamed (h : Returns True y p) : Mirrors emb (y.renamed emb) y p := by
  cases y with
  | ok a => exact .ok h
  | fail e => exact .fail e
  | panic e => exact absurd trivial h

/-- A loop, each step of which mirrors the other's. -/
theorem forEach {xs : List γ} {f : γ → α → Fallible ε' α} {g : γ → α → Fallible ε α}
    {I : List γ → α → Prop} {s : α} (start : I [] s)
    (step : ∀ before a after s, xs = before ++ a :: after → I before s →
      Mirrors emb (f a s) (g a s) (I (before ++ [a]))) :
    Mirrors emb (Fallible.forEach xs s f) (Fallible.forEach xs s g) (I xs) := by
  have loop (before rest : List γ) (s : α) (all : xs = before ++ rest) (now : I before s) :
      Mirrors emb (Fallible.forEach rest s f) (Fallible.forEach rest s g) (I xs) := by
    induction rest generalizing before s with
    | nil =>
      rw [List.append_nil] at all
      exact .ok (all ▸ now)
    | cons a rest ih =>
      refine (step before a rest s all now).bind fun s' next => ?_
      exact ih (before ++ [a]) s' (by rw [all, List.append_assoc]; rfl) next
  exact loop [] xs s rfl start

theorem forRange {n : Nat} {s : α} {f : Nat → α → Fallible ε' α} {g : Nat → α → Fallible ε α}
    {I : Nat → α → Prop} (start : I 0 s)
    (step : ∀ i < n, ∀ s, I i s → Mirrors emb (f i s) (g i s) (I (i + 1))) :
    Mirrors emb (Fallible.forEach (List.range n) s f) (Fallible.forEach (List.range n) s g)
      (I n) := by
  have loop : Mirrors emb (Fallible.forEach (List.range n) s f) (Fallible.forEach (List.range n) s g)
      (I (List.range n).length) := by
    refine forEach (I := fun before => I before.length) start fun before i after s all now => ?_
    obtain ⟨rfl, inside⟩ := range_eq_append all
    rw [List.length_append]
    exact step _ inside s now
  rwa [List.length_range] at loop

/-- Both return the same value or the same error. -/
theorem outcome (h : Mirrors emb x y p) :
    (∃ a, x = .ok a ∧ y = .ok a ∧ p a) ∨ ∃ e, x = .fail (emb e) ∧ y = .fail e := by
  cases h with
  | ok holds => exact .inl ⟨_, rfl, rfl, holds⟩
  | fail e => exact .inr ⟨e, rfl, rfl⟩

/-- The program does not panic. -/
theorem returns (h : Mirrors emb x y p) : Returns True y p := by
  cases h with
  | ok holds => exact holds
  | fail e => trivial

/-- Where the program is known to return a value. -/
theorem of_ok {a : α} (h : Mirrors emb x (.ok a) p) : x = .ok a ∧ p a := by
  cases h with
  | ok holds => exact ⟨rfl, holds⟩

end Mirrors

/-- `value << amount`, none of the bits lost. -/
def shl (bits value amount : Nat) : Checked Nat :=
  if amount < bits ∧ value * 2 ^ amount < 2 ^ bits then .ok (value * 2 ^ amount)
  else .error .overflow

theorem shl_eq_ok {bits value amount : Nat} (inside : amount < bits)
    (fits : value * 2 ^ amount < 2 ^ bits) : shl bits value amount = .ok (value * 2 ^ amount) :=
  if_pos ⟨inside, fits⟩

end Posh.Lib
