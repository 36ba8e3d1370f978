import Mathlib.Algebra.Group.Nat.Defs
import Mathlib.Data.List.Basic

/-!
Programs that may panic.

`Checked` is the result of a computation that stops on an index out of range, a
slice off a boundary, arithmetic that leaves its type, or a missing value. The
primitive operations check what a debug build checks; `Yields x p` says that `x`
does not panic and that its value satisfies `p`, and the rules below carry it
through sequencing, indexing, arithmetic and loops.
-/

namespace Posh.Lib

universe u v

inductive Panic where
  /-- An index, or the end of a slice, past the end. -/
  | index
  /-- A string slice off a character boundary. -/
  | boundary
  /-- Arithmetic that leaves its type. -/
  | overflow
  /-- `unwrap` of nothing. -/
  | missing
  /-- `clamp` between bounds out of order. -/
  | bounds
deriving DecidableEq, Repr

abbrev Checked (α : Type u) := Except Panic α

variable {α β : Type u} {σ : Type u} {γ : Type v}

/-- `x` does not panic, and its value satisfies `p`. -/
def Yields (x : Checked α) (p : α → Prop) : Prop :=
  ∃ a, x = .ok a ∧ p a

namespace Yields

variable {x : Checked α} {p q : α → Prop}

theorem ok {a : α} (h : p a) : Yields (.ok a) p :=
  ⟨a, rfl, h⟩

theorem pure {a : α} (h : p a) : Yields (Pure.pure a) p :=
  ⟨a, rfl, h⟩

theorem mono (hx : Yields x p) (imp : ∀ a, p a → q a) : Yields x q := by
  obtain ⟨a, rfl, ha⟩ := hx
  exact ⟨a, rfl, imp a ha⟩

theorem bind {f : α → Checked β} {r : β → Prop} (hx : Yields x p)
    (hf : ∀ a, p a → Yields (f a) r) : Yields (x >>= f) r := by
  obtain ⟨a, rfl, ha⟩ := hx
  exact hf a ha

theorem and (hp : Yields x p) (hq : Yields x q) : Yields x fun a => p a ∧ q a := by
  obtain ⟨a, rfl, ha⟩ := hp
  obtain ⟨b, same, hb⟩ := hq
  cases same
  exact ⟨a, rfl, ha, hb⟩

/-- What a computation yields holds of the value it returns. -/
theorem of_eq_ok (hx : Yields x p) {a : α} (eq : x = .ok a) : p a := by
  obtain ⟨b, rfl, hb⟩ := hx
  cases eq
  exact hb

end Yields

/-- `x` panics only where `c` fails, and a value it returns satisfies `p`. -/
def Guarded (c : Prop) (x : Checked α) (p : α → Prop) : Prop :=
  match x with
  | .ok a => p a
  | .error _ => ¬ c

instance {c : Prop} [Decidable c] {x : Checked α} {p : α → Prop} [DecidablePred p] :
    Decidable (Guarded c x p) :=
  match x with
  | .ok a => inferInstanceAs (Decidable (p a))
  | .error _ => inferInstanceAs (Decidable (¬ c))

namespace Guarded

variable {c d : Prop} {x : Checked α} {p q : α → Prop}

theorem ok {a : α} (h : p a) : Guarded c (.ok a) p :=
  h

theorem pure {a : α} (h : p a) : Guarded c (Pure.pure a) p :=
  h

theorem error {e : Panic} (h : ¬ c) : Guarded c (.error e) p :=
  h

theorem mono (hx : Guarded c x p) (imp : ∀ a, p a → q a) : Guarded c x q := by
  cases x with
  | ok a => exact imp a hx
  | error e => exact hx

theorem weaken (hx : Guarded c x p) (imp : d → c) : Guarded d x p := by
  cases x with
  | ok a => exact hx
  | error e => exact fun holds => hx (imp holds)

theorem bind {f : α → Checked β} {r : β → Prop} (hx : Guarded c x p)
    (hf : ∀ a, p a → Guarded c (f a) r) : Guarded c (x >>= f) r := by
  cases x with
  | ok a => exact hf a hx
  | error e => exact hx

/-- Whatever a computation does, a value it returns satisfies nothing in particular. -/
theorem trivial (x : Checked α) : Guarded False x fun _ => True := by
  cases x with
  | ok a => exact True.intro
  | error e => exact id

theorem and (hp : Guarded c x p) (hq : Guarded c x q) : Guarded c x fun a => p a ∧ q a := by
  cases x with
  | ok a => exact ⟨hp, hq⟩
  | error e => exact hp

/-- Besides, the value satisfies what it does whether or not anything panics. -/
theorem besides (hp : Guarded c x p) (hq : Guarded False x q) :
    Guarded c x fun a => p a ∧ q a := by
  cases x with
  | ok a => exact ⟨hp, hq⟩
  | error e => exact hp

/-- What is guaranteed under an assumption. -/
theorem imp (h : d → Guarded False x p) : Guarded False x fun a => d → p a := by
  cases x with
  | ok a => exact h
  | error e => exact id

/-- What is guaranteed for every index. -/
theorem all {ι : Type} {r : ι → α → Prop} (h : ∀ i, Guarded False x (r i)) :
    Guarded False x fun a => ∀ i, r i a := by
  cases x with
  | ok a => exact h
  | error e => exact id

theorem of_yields (hx : Yields x p) : Guarded c x p := by
  obtain ⟨a, rfl, ha⟩ := hx
  exact ha

/-- Where nothing panics, a value is returned. -/
theorem yields (hx : Guarded c x p) (holds : c) : Yields x p := by
  cases x with
  | ok a => exact ⟨a, rfl, hx⟩
  | error e => exact absurd holds hx

/-- What is guaranteed of a value holds of one that is yielded. -/
theorem and_yields (hy : Yields x p) (hx : Guarded c x q) : Yields x fun a => p a ∧ q a := by
  obtain ⟨a, rfl, ha⟩ := hy
  exact ⟨a, rfl, ha, hx⟩

/-- What a computation guarantees holds of the value it returns. -/
theorem of_eq_ok (hx : Guarded c x p) {a : α} (eq : x = .ok a) : p a := by
  subst eq
  exact hx

end Guarded

theorem yields_iff {x : Checked α} {p : α → Prop} : Yields x p ↔ Guarded True x p :=
  ⟨.of_yields, fun h => h.yields trivial⟩

/-- Both halves of a sequence that returns have returned. -/
theorem eq_ok_of_bind {α β : Type u} {x : Checked α} {f : α → Checked β} {b : β}
    (h : x >>= f = .ok b) : ∃ a, x = .ok a ∧ f a = .ok b := by
  cases x with
  | ok a => exact ⟨a, rfl, h⟩
  | error panic => cases h

/-! ### Arithmetic -/

/-- `a - b` in an unsigned type. -/
def sub (a b : Nat) : Checked Nat :=
  if b ≤ a then .ok (a - b) else .error .overflow

/-- `a + b` in an unsigned type of `bits` bits. -/
def add (bits a b : Nat) : Checked Nat :=
  if a + b < 2 ^ bits then .ok (a + b) else .error .overflow

/-- `a * b` in an unsigned type of `bits` bits. -/
def mul (bits a b : Nat) : Checked Nat :=
  if a * b < 2 ^ bits then .ok (a * b) else .error .overflow

/-- `a.saturating_add(b)` in an unsigned type of `bits` bits. -/
def satAdd (bits a b : Nat) : Nat :=
  min (a + b) (2 ^ bits - 1)

@[simp] theorem sub_eq_ok {a b : Nat} (h : b ≤ a) : sub a b = .ok (a - b) :=
  if_pos h

@[simp] theorem add_eq_ok {bits a b : Nat} (h : a + b < 2 ^ bits) : add bits a b = .ok (a + b) :=
  if_pos h

@[simp] theorem mul_eq_ok {bits a b : Nat} (h : a * b < 2 ^ bits) : mul bits a b = .ok (a * b) :=
  if_pos h

theorem Yields.sub {a b : Nat} (h : b ≤ a) : Yields (Lib.sub a b) (· = a - b) :=
  ⟨a - b, sub_eq_ok h, rfl⟩

theorem Yields.add {bits a b : Nat} (h : a + b < 2 ^ bits) :
    Yields (Lib.add bits a b) (· = a + b) :=
  ⟨a + b, add_eq_ok h, rfl⟩

theorem Yields.mul {bits a b : Nat} (h : a * b < 2 ^ bits) :
    Yields (Lib.mul bits a b) (· = a * b) :=
  ⟨a * b, mul_eq_ok h, rfl⟩

theorem Guarded.sub {a b : Nat} : Guarded (b ≤ a) (Lib.sub a b) fun r => r = a - b ∧ b ≤ a := by
  unfold Lib.sub
  split
  · rename_i le
    exact .ok ⟨rfl, le⟩
  · rename_i lt
    exact .error lt

theorem Guarded.add {bits a b : Nat} :
    Guarded (a + b < 2 ^ bits) (Lib.add bits a b) fun r => r = a + b ∧ a + b < 2 ^ bits := by
  unfold Lib.add
  split
  · rename_i fits
    exact .ok ⟨rfl, fits⟩
  · rename_i large
    exact .error large

theorem Guarded.mul {bits a b : Nat} :
    Guarded (a * b < 2 ^ bits) (Lib.mul bits a b) fun r => r = a * b ∧ a * b < 2 ^ bits := by
  unfold Lib.mul
  split
  · rename_i fits
    exact .ok ⟨rfl, fits⟩
  · rename_i large
    exact .error large

/-! ### Vectors -/

/-- `xs[i]` -/
def getAt (xs : List α) (i : Nat) : Checked α :=
  match xs[i]? with
  | some a => .ok a
  | none => .error .index

/-- `xs[i] = a` -/
def setAt (xs : List α) (i : Nat) (a : α) : Checked (List α) :=
  if i < xs.length then .ok (xs.set i a) else .error .index

/-- `xs.remove(i)`: the element and the rest. -/
def removeAt (xs : List α) (i : Nat) : Checked (α × List α) :=
  match xs[i]? with
  | some a => .ok (a, xs.eraseIdx i)
  | none => .error .index

/-- `xs.insert(i, a)` -/
def insertAt (xs : List α) (i : Nat) (a : α) : Checked (List α) :=
  if i ≤ xs.length then .ok (xs.insertIdx i a) else .error .index

/-- `xs[lo..hi]` -/
def slice (xs : List α) (lo hi : Nat) : Checked (List α) :=
  if lo ≤ hi ∧ hi ≤ xs.length then .ok ((xs.take hi).drop lo) else .error .index

/-- `x.unwrap()` -/
def unwrap (x : Option α) : Checked α :=
  match x with
  | some a => .ok a
  | none => .error .missing

theorem getAt_eq_ok {xs : List α} {i : Nat} (h : i < xs.length) : getAt xs i = .ok xs[i] := by
  simp [getAt, h]

theorem Yields.getAt {xs : List α} {i : Nat} (h : i < xs.length) :
    Yields (Lib.getAt xs i) fun a => xs[i]? = some a ∧ a ∈ xs :=
  ⟨xs[i], getAt_eq_ok h, by simp [h], List.getElem_mem h⟩

theorem Yields.setAt {xs : List α} {i : Nat} {a : α} (h : i < xs.length) :
    Yields (Lib.setAt xs i a) (· = xs.set i a) :=
  ⟨xs.set i a, if_pos h, rfl⟩

theorem Yields.removeAt {xs : List α} {i : Nat} (h : i < xs.length) :
    Yields (Lib.removeAt xs i) fun r => xs[i]? = some r.1 ∧ r.1 ∈ xs ∧ r.2 = xs.eraseIdx i :=
  ⟨(xs[i], xs.eraseIdx i), by simp [Lib.removeAt, h], by simp [h], List.getElem_mem h, rfl⟩

theorem Yields.insertAt {xs : List α} {i : Nat} {a : α} (h : i ≤ xs.length) :
    Yields (Lib.insertAt xs i a) (· = xs.insertIdx i a) :=
  ⟨xs.insertIdx i a, if_pos h, rfl⟩

theorem Yields.slice {xs : List α} {lo hi : Nat} (le : lo ≤ hi) (inside : hi ≤ xs.length) :
    Yields (Lib.slice xs lo hi) (· = (xs.take hi).drop lo) :=
  ⟨_, if_pos ⟨le, inside⟩, rfl⟩

theorem Yields.unwrap {x : Option α} {a : α} (found : x = some a) : Yields (Lib.unwrap x) (· = a) := by
  subst found
  exact ⟨a, rfl, rfl⟩

theorem Guarded.getAt {xs : List α} {i : Nat} :
    Guarded (i < xs.length) (Lib.getAt xs i) fun a => xs[i]? = some a := by
  unfold Lib.getAt
  cases found : xs[i]? with
  | some a => exact .ok rfl
  | none => exact .error (Nat.not_lt.mpr (List.getElem?_eq_none_iff.mp found))

theorem Guarded.setAt {xs : List α} {i : Nat} {a : α} :
    Guarded (i < xs.length) (Lib.setAt xs i a) (· = xs.set i a) := by
  unfold Lib.setAt
  split
  · exact .ok rfl
  · rename_i outside
    exact .error outside

theorem Guarded.removeAt {xs : List α} {i : Nat} :
    Guarded (i < xs.length) (Lib.removeAt xs i) fun r => r.1 ∈ xs ∧ r.2 = xs.eraseIdx i := by
  unfold Lib.removeAt
  cases found : xs[i]? with
  | some a => exact .ok ⟨List.mem_of_getElem? found, rfl⟩
  | none => exact .error (Nat.not_lt.mpr (List.getElem?_eq_none_iff.mp found))

theorem Guarded.insertAt {xs : List α} {i : Nat} {a : α} :
    Guarded (i ≤ xs.length) (Lib.insertAt xs i a) (· = xs.insertIdx i a) := by
  unfold Lib.insertAt
  split
  · exact .ok rfl
  · rename_i outside
    exact .error outside

theorem Guarded.unwrap {x : Option α} :
    Guarded (x.isSome = true) (Lib.unwrap x) fun a => x = some a := by
  cases x with
  | some a => exact .ok rfl
  | none => exact .error nofun

/-! ### Loops -/

/-- `for a in xs { s = f(a, s) }` -/
def forEach (xs : List γ) (s : σ) (f : γ → σ → Checked σ) : Checked σ :=
  match xs with
  | [] => .ok s
  | a :: rest => f a s >>= fun s => forEach rest s f

/-- `for i in lo..hi { s = f(i, s) }` -/
def forRange (lo hi : Nat) (s : σ) (f : Nat → σ → Checked σ) : Checked σ :=
  forEach (List.range' lo (hi - lo)) s f

theorem forEach_append (xs ys : List γ) (s : σ) (f : γ → σ → Checked σ) :
    forEach (xs ++ ys) s f = forEach xs s f >>= fun s => forEach ys s f := by
  induction xs generalizing s with
  | nil => rfl
  | cons x xs ih =>
    change (f x s >>= _) = ((f x s >>= _) >>= _)
    rw [bind_assoc]
    exact congrArg _ (funext ih)

/-- The last pass of a counting loop. -/
theorem forRange_succ (n : Nat) (s : σ) (f : Nat → σ → Checked σ) :
    forRange 0 (n + 1) s f = forRange 0 n s f >>= f n := by
  unfold forRange
  rw [Nat.sub_zero, Nat.sub_zero, List.range'_concat, forEach_append]
  refine congrArg _ (funext fun s => ?_)
  rw [Nat.one_mul, Nat.zero_add]
  exact bind_pure _

/-- A loop keeps what each of its passes keeps. -/
theorem Yields.forEach {xs : List γ} {s : σ} {f : γ → σ → Checked σ} {I : σ → Prop}
    (start : I s) (step : ∀ a ∈ xs, ∀ s, I s → Yields (f a s) I) :
    Yields (Lib.forEach xs s f) I := by
  induction xs generalizing s with
  | nil => exact .ok start
  | cons a rest ih =>
    refine (step a List.mem_cons_self s start).bind fun s' keeps => ih keeps ?_
    intro b mem
    exact step b (List.mem_cons_of_mem a mem)

theorem Yields.forRange {lo hi : Nat} {s : σ} {f : Nat → σ → Checked σ} {I : σ → Prop}
    (start : I s) (step : ∀ i s, lo ≤ i → i < hi → I s → Yields (f i s) I) :
    Yields (Lib.forRange lo hi s f) I := by
  refine Yields.forEach start ?_
  intro i mem s keeps
  rw [List.mem_range'_1] at mem
  exact step i s mem.1 (by omega) keeps

theorem Guarded.forEach {c : Prop} {xs : List γ} {s : σ} {f : γ → σ → Checked σ} {I : σ → Prop}
    (start : I s) (step : ∀ a ∈ xs, ∀ s, I s → Guarded c (f a s) I) :
    Guarded c (Lib.forEach xs s f) I := by
  induction xs generalizing s with
  | nil => exact .ok start
  | cons a rest ih =>
    refine (step a List.mem_cons_self s start).bind fun s' keeps => ih keeps ?_
    intro b mem
    exact step b (List.mem_cons_of_mem a mem)

theorem Guarded.forRange {c : Prop} {lo hi : Nat} {s : σ} {f : Nat → σ → Checked σ}
    {I : σ → Prop} (start : I s) (step : ∀ i s, lo ≤ i → i < hi → I s → Guarded c (f i s) I) :
    Guarded c (Lib.forRange lo hi s f) I := by
  refine Guarded.forEach start ?_
  intro i mem s keeps
  rw [List.mem_range'_1] at mem
  exact step i s mem.1 (by omega) keeps

/-- Every pass of a loop starts from a state that meets a condition. -/
def EachPass (cond : γ → σ → Prop) (f : γ → σ → Checked σ) (xs : List γ) (s : σ) : Prop :=
  match xs with
  | [] => True
  | a :: rest => cond a s ∧ Guarded False (f a s) (EachPass cond f rest)

instance decidableEachPass {cond : γ → σ → Prop} [∀ a s, Decidable (cond a s)]
    {f : γ → σ → Checked σ} : ∀ xs s, Decidable (EachPass cond f xs s)
  | [], _ => inferInstanceAs (Decidable True)
  | a :: rest, s =>
      have : ∀ s, Decidable (EachPass cond f rest s) := decidableEachPass rest
      inferInstanceAs (Decidable (cond a s ∧ Guarded False (f a s) (EachPass cond f rest)))

/-- A loop keeps what its passes keep under the condition they all meet. -/
theorem EachPass.forEach {c : Prop} {cond : γ → σ → Prop} {f : γ → σ → Checked σ} {I : σ → Prop}
    {xs : List γ} {s : σ} (each : EachPass cond f xs s) (start : I s)
    (step : ∀ a ∈ xs, ∀ s, I s → cond a s → Guarded c (f a s) I) :
    Guarded c (Lib.forEach xs s f) I := by
  induction xs generalizing s with
  | nil => exact .ok start
  | cons a rest ih =>
    obtain ⟨met, later⟩ := each
    refine ((step a List.mem_cons_self s start met).besides later).bind ?_
    rintro s' ⟨keeps, each'⟩
    refine ih each' keeps ?_
    intro b mem
    exact step b (List.mem_cons_of_mem a mem)

/-- A counting loop whose invariant speaks about the counter. -/
theorem Guarded.forRange_index {c : Prop} {lo hi : Nat} {s : σ} {f : Nat → σ → Checked σ}
    {I : Nat → σ → Prop} (le : lo ≤ hi) (start : I lo s)
    (step : ∀ i s, lo ≤ i → i < hi → I i s → Guarded c (f i s) (I (i + 1))) :
    Guarded c (Lib.forRange lo hi s f) (I hi) := by
  obtain ⟨n, rfl⟩ := Nat.exists_eq_add_of_le le
  unfold Lib.forRange
  rw [Nat.add_sub_cancel_left]
  clear le
  induction n generalizing lo s with
  | zero => exact .ok start
  | succ n ih =>
    rw [List.range'_succ]
    refine (step lo s (Nat.le_refl lo) (by omega) start).bind fun s' keeps => ?_
    have rest : Guarded c (Lib.forEach (List.range' (lo + 1) n) s' f) (I (lo + 1 + n)) :=
      ih keeps fun i s low high => step i s (by omega) (by omega)
    rwa [Nat.add_right_comm] at rest

theorem Yields.forRange_index {lo hi : Nat} {s : σ} {f : Nat → σ → Checked σ}
    {I : Nat → σ → Prop} (le : lo ≤ hi) (start : I lo s)
    (step : ∀ i s, lo ≤ i → i < hi → I i s → Yields (f i s) (I (i + 1))) :
    Yields (Lib.forRange lo hi s f) (I hi) :=
  yields_iff.mpr (.forRange_index le start fun i s low high keeps =>
    yields_iff.mp (step i s low high keeps))

/-- What each element of a collected list satisfies. -/
theorem Guarded.mapM {xs : List γ} {f : γ → Checked α} {p : α → Prop}
    (each : ∀ x ∈ xs, Guarded False (f x) p) :
    Guarded False (xs.mapM f) fun out => ∀ a ∈ out, p a := by
  induction xs with
  | nil =>
    rw [List.mapM_nil]
    exact .pure fun a mem => absurd mem List.not_mem_nil
  | cons x rest ih =>
    rw [List.mapM_cons]
    refine (each x List.mem_cons_self).bind ?_
    intro a holds
    refine (ih fun y mem => each y (List.mem_cons_of_mem x mem)).bind ?_
    intro out all
    refine .pure ?_
    intro a' mem
    rcases List.mem_cons.mp mem with rfl | mem
    · exact holds
    · exact all a' mem

/-- The elements of a vector, each by its index. -/
theorem mapM_getElem? {α : Type u} (before xs : List α) :
    (List.range' before.length xs.length).mapM (fun i => unwrap (before ++ xs)[i]?) = .ok xs := by
  induction xs generalizing before with
  | nil => rfl
  | cons x xs ih =>
    have rest := ih (before ++ [x])
    rw [List.length_append, List.append_assoc] at rest
    have here : unwrap (before ++ x :: xs)[before.length]? = .ok x := by simp [unwrap]
    rw [List.length_cons, List.range'_succ, List.mapM_cons, here]
    have later : List.mapM (fun i => unwrap (before ++ x :: xs)[i]?)
        (List.range' (before.length + 1) xs.length) = .ok xs := rest
    rw [later]
    rfl

end Posh.Lib
