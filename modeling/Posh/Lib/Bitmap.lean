import Mathlib.Data.Set.Insert

/-!
Bitmaps that trail a moving top: bit `i` of a word stands for the number `i` below the
top, so that a word of `w` bits remembers a set of numbers as far as the last `w` of them.
-/

namespace Posh.Lib

variable {w : Nat}

/-- The word is the set as seen from its top. -/
def Trails (top : Nat) (bits : BitVec w) (s : Set Nat) : Prop :=
  ∀ i < w, bits.getLsbD i = true ↔ ∃ n ∈ s, n + i = top

namespace Trails

variable {top : Nat} {bits : BitVec w} {s : Set Nat}

/-- The test of one bit with a mask. -/
theorem mask_ne_zero {i : Nat} (inside : i < w) :
    bits &&& (1#w <<< i) ≠ 0 ↔ bits.getLsbD i = true := by
  constructor
  · intro some_
    by_contra unset
    refine some_ (BitVec.eq_of_getLsbD_eq fun j _ => ?_)
    by_cases same : j = i
    · simp [same, unset]
    · rw [← BitVec.twoPow_eq]
      simp [Ne.symm same]
  · intro set zero
    have bit := congrArg (·.getLsbD i) zero
    rw [← BitVec.twoPow_eq] at bit
    simp only [BitVec.getLsbD_and, set, BitVec.getLsbD_twoPow, inside] at bit
    simp at bit

/-- A word with its lowest bit set holds a set of one number. -/
theorem singleton (top : Nat) : Trails top 1#w {top} := by
  intro i inside
  simp only [Set.mem_singleton_iff, exists_eq_left]
  by_cases first : i = 0
  · subst first
    simp [inside]
  · simp [first]

/-- Shifted, the word trails a later top. -/
theorem shift (h : Trails top bits s) (below : ∀ n ∈ s, n ≤ top) (k : Nat) :
    Trails (top + k) (bits <<< k) s := by
  intro i inside
  rw [BitVec.getLsbD_shiftLeft]
  by_cases early : i < k
  · simp only [early, decide_true, Bool.not_true, Bool.and_false, Bool.false_and]
    constructor
    · exact nofun
    · rintro ⟨n, mem, eq⟩
      have := below n mem
      omega
  · have seen := h (i - k) (by omega)
    simp only [inside, early, decide_true, decide_false, Bool.not_false, Bool.true_and, seen]
    constructor
    · rintro ⟨n, mem, eq⟩
      exact ⟨n, mem, by omega⟩
    · rintro ⟨n, mem, eq⟩
      exact ⟨n, mem, by omega⟩

/-- Shifted out of the word, nothing is left. -/
theorem shift_out (below : ∀ n ∈ s, n ≤ top) {k : Nat} (far : w ≤ k) : Trails (top + k) 0#w s := by
  intro i inside
  constructor
  · simp
  · rintro ⟨n, mem, eq⟩
    have := below n mem
    omega

/-- One more number marked. -/
theorem mark (h : Trails top bits s) {n i : Nat} (here : n + i = top) :
    Trails top (bits ||| (1#w <<< i)) (insert n s) := by
  intro j inside
  rw [BitVec.getLsbD_or, ← BitVec.twoPow_eq, BitVec.getLsbD_twoPow]
  simp only [Bool.or_eq_true, Bool.and_eq_true, decide_eq_true_eq, h j inside, Set.mem_insert_iff,
    exists_eq_or_imp]
  constructor
  · rintro (old | ⟨_, rfl⟩)
    · exact .inr old
    · exact .inl here
  · rintro (new | old)
    · exact .inr ⟨by omega, by omega⟩
    · exact .inl old

/-- Within reach of the word a number is in the set if its bit is set. -/
theorem mem_iff (h : Trails top bits s) {n i : Nat} (here : n + i = top) (inside : i < w) :
    bits.getLsbD i = true ↔ n ∈ s := by
  rw [h i inside]
  constructor
  · rintro ⟨m, mem, eq⟩
    have same : m = n := by omega
    exact same ▸ mem
  · exact fun mem => ⟨n, mem, here⟩

end Trails

end Posh.Lib
