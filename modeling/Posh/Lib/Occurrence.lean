import Mathlib.Data.List.Infix
import Mathlib.Order.Bounds.Basic

/-!
Where one of several keys occurs in a stream that is still growing.

`Dead keys s` says that no key begins `s`, and none will whatever follows. A reader that
hands on only what lies in front of dead places finds the leftmost occurrence.
-/

namespace Posh.Lib

universe u

variable {α : Type u}

/-- A key begins `s`. -/
def Begins (keys : List (List α)) (s : List α) : Prop :=
  ∃ key ∈ keys, key <+: s

/-- No key begins `s`, nor does `s` begin one. -/
def Dead (keys : List (List α)) (s : List α) : Prop :=
  ∀ key ∈ keys, ¬ key <+: s ∧ ¬ s <+: key

/-- Each of the first `n` places of `s` is dead. -/
def DeadUpTo (keys : List (List α)) (n : Nat) (s : List α) : Prop :=
  ∀ i < n, Dead keys (s.drop i)

variable {keys : List (List α)} {s t : List α} {n : Nat}

theorem Dead.append (dead : Dead keys s) : Dead keys (s ++ t) := by
  intro key mem
  refine ⟨fun begins => ?_, fun begins => ?_⟩
  · rcases List.prefix_or_prefix_of_prefix begins (List.prefix_append s t) with within | longer
    · exact (dead key mem).1 within
    · exact (dead key mem).2 longer
  · exact (dead key mem).2 ((List.prefix_append s t).trans begins)

theorem Dead.not_begins (dead : Dead keys s) : ¬ Begins keys s := by
  rintro ⟨key, mem, begins⟩
  exact (dead key mem).1 begins

namespace DeadUpTo

theorem append (dead : DeadUpTo keys n s) (inside : n ≤ s.length) : DeadUpTo keys n (s ++ t) := by
  intro i lt
  rw [List.drop_append_of_le_length (Nat.le_of_lt (Nat.lt_of_lt_of_le lt inside))]
  exact (dead i lt).append

theorem cons {a : α} (first : Dead keys (a :: s)) (dead : DeadUpTo keys n s) :
    DeadUpTo keys (n + 1) (a :: s) := by
  intro i lt
  cases i with
  | zero => exact first
  | succ i => exact dead i (Nat.lt_of_succ_lt_succ lt)

/-- Dead places before and behind a cut. -/
theorem cut {front back : List α} (dead : DeadUpTo keys front.length (front ++ back))
    (later : DeadUpTo keys n back) : DeadUpTo keys (front.length + n) (front ++ back) := by
  intro i lt
  by_cases before : i < front.length
  · exact dead i before
  · have place : (front ++ back).drop i = back.drop (i - front.length) := by
      rw [List.drop_append, List.drop_eq_nil_of_le (Nat.not_lt.mp before), List.nil_append]
    rw [place]
    exact later _ (by omega)

/-- A key behind dead places is the leftmost. -/
theorem least (dead : DeadUpTo keys n s) (begins : Begins keys (s.drop n)) :
    IsLeast {i | Begins keys (s.drop i)} n := by
  refine ⟨begins, ?_⟩
  intro i occurs
  by_contra lt
  exact (dead i (Nat.not_le.mp lt)).not_begins occurs

end DeadUpTo

/-- A key lies somewhere in `s` exactly if it begins a rest of `s`. -/
theorem infix_iff_begins : (∃ key ∈ keys, key <:+: s) ↔ ∃ i, Begins keys (s.drop i) := by
  constructor
  · rintro ⟨key, mem, front, back, rfl⟩
    refine ⟨front.length, key, mem, back, ?_⟩
    rw [List.append_assoc, List.drop_left' rfl]
  · rintro ⟨i, key, mem, begins⟩
    exact ⟨key, mem, begins.isInfix.trans (List.drop_suffix i s).isInfix⟩

end Posh.Lib
