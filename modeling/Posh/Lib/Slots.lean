import Mathlib.Data.List.Basic
import Mathlib.Data.Set.Insert

/-!
Slots that are filled from a list of pieces, each piece into the slot at its place: the
store of a reassembly whose pieces arrive in any order.
-/

namespace Posh.Lib

variable {α : Type} {pieces : List α} {slots : List (Option α)}

/-- The slots hold the pieces at the places of `there`, and nothing else. -/
structure Hold (pieces : List α) (there : Set Nat) (slots : List (Option α)) : Prop where
  inside : slots.length ≤ pieces.length
  value : ∀ (i : Nat) (x : α), slots[i]? = some (some x) → pieces[i]? = some x
  filled : ∀ i : Nat, (∃ x, slots[i]? = some (some x)) ↔ i ∈ there

namespace Hold

variable {there : Set Nat}

theorem nil (pieces : List α) : Hold pieces ∅ [] where
  inside := Nat.zero_le _
  value := by simp
  filled := by simp

theorem lt_of_mem (h : Hold pieces there slots) {i : Nat} (mem : i ∈ there) : i < slots.length := by
  obtain ⟨x, found⟩ := (h.filled i).mpr mem
  exact (List.getElem?_eq_some_iff.mp found).1

/-- Empty slots appended. -/
theorem grow (h : Hold pieces there slots) {k : Nat} (fits : slots.length + k ≤ pieces.length) :
    Hold pieces there (slots ++ List.replicate k none) := by
  have same (i : Nat) (x : α) :
      (slots ++ List.replicate k none)[i]? = some (some x) ↔ slots[i]? = some (some x) := by
    by_cases early : i < slots.length
    · rw [List.getElem?_append_left early]
    · rw [List.getElem?_append_right (Nat.le_of_not_lt early), List.getElem?_replicate,
        List.getElem?_eq_none (Nat.le_of_not_lt early)]
      simp
  constructor
  · simpa using fits
  · intro i x found
    exact h.value i x ((same i x).mp found)
  · intro i
    simp only [same, h.filled i]

/-- One more piece, at its place. -/
theorem put (h : Hold pieces there slots) {i : Nat} {x : α} (piece : pieces[i]? = some x)
    (inside : i < slots.length) : Hold pieces (insert i there) (slots.set i (some x)) := by
  constructor
  · simpa using h.inside
  · intro j y found
    by_cases same : i = j
    · subst same
      rw [List.getElem?_set_self inside] at found
      rw [piece]
      exact Option.some.inj found
    · rw [List.getElem?_set_ne same] at found
      exact h.value j y found
  · intro j
    by_cases same : i = j
    · subst same
      simp [List.getElem?_set_self inside]
    · rw [List.getElem?_set_ne same, h.filled j, Set.mem_insert_iff]
      exact ⟨.inr, fun mem => mem.resolve_left (Ne.symm same)⟩

/-- A piece that is there already. -/
theorem again (h : Hold pieces there slots) {i : Nat} (mem : i ∈ there) :
    Hold pieces (insert i there) slots := by
  rwa [Set.insert_eq_of_mem mem]

/-- Slots that are all filled, one for each piece, are the pieces. -/
theorem complete (h : Hold pieces there slots) (all : slots.countP Option.isSome = slots.length)
    (length : slots.length = pieces.length) : slots = pieces.map some := by
  refine List.ext_getElem? fun i => ?_
  by_cases inside : i < slots.length
  · have set := List.countP_eq_length.mp all slots[i] (List.getElem_mem inside)
    obtain ⟨x, eq⟩ := Option.isSome_iff_exists.mp set
    have found : slots[i]? = some (some x) := by rw [List.getElem?_eq_getElem inside, eq]
    rw [found, List.getElem?_map, h.value i x found]
    rfl
  · have outside : pieces.length ≤ i := by omega
    rw [List.getElem?_eq_none (Nat.le_of_not_lt inside), List.getElem?_map,
      List.getElem?_eq_none outside]
    rfl

/-- All pieces are there when each slot is filled. -/
theorem forall_mem_iff (h : Hold pieces there slots) :
    (∀ i < pieces.length, i ∈ there) ↔
      slots.countP Option.isSome = slots.length ∧ slots.length = pieces.length := by
  constructor
  · intro all
    have length : slots.length = pieces.length := by
      rcases Nat.eq_zero_or_pos pieces.length with none | some_
      · have := h.inside
        omega
      · have := h.lt_of_mem (all (pieces.length - 1) (by omega))
        have := h.inside
        omega
    refine ⟨List.countP_eq_length.mpr fun slot mem => ?_, length⟩
    obtain ⟨i, inside, rfl⟩ := List.getElem_of_mem mem
    obtain ⟨x, found⟩ := (h.filled i).mpr (all i (by omega))
    rw [List.getElem?_eq_getElem inside] at found
    rw [Option.some.inj found]
    rfl
  · rintro ⟨all, length⟩ i inside
    have same := h.complete all length
    refine (h.filled i).mp ⟨pieces[i], ?_⟩
    rw [same, List.getElem?_map, List.getElem?_eq_getElem inside]
    rfl

end Hold

/-- The number of filled slots after an empty one is filled. -/
theorem countP_isSome_set {i : Nat} (empty : slots[i]? = some none) (x : α) :
    (slots.set i (some x)).countP Option.isSome = slots.countP Option.isSome + 1 := by
  obtain ⟨inside, eq⟩ := List.getElem?_eq_some_iff.mp empty
  rw [List.countP_set inside, eq]
  simp

end Posh.Lib
