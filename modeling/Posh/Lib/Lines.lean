import Mathlib.Data.List.Basic

/-!
Lists of lines, each ended by a separator of its own.
-/

namespace Posh.Lib

universe u

variable {α : Type u} {sep : α}

/-- A list is split at its first separator in one way. -/
theorem first_inj {front front' rest rest' : List α} (bare : sep ∉ front) (bare' : sep ∉ front')
    (same : front ++ sep :: rest = front' ++ sep :: rest') : front = front' ∧ rest = rest' := by
  rcases List.append_eq_append_iff.mp same with ⟨more, rfl, tail⟩ | ⟨more, rfl, tail⟩
  · cases more with
    | nil => exact ⟨(List.append_nil front).symm, (List.cons.inj tail).2⟩
    | cons x more =>
      obtain ⟨rfl, -⟩ := List.cons.inj tail
      exact absurd (List.mem_append_right _ List.mem_cons_self) bare'
  · cases more with
    | nil => exact ⟨List.append_nil front', (List.cons.inj tail).2.symm⟩
    | cons x more =>
      obtain ⟨rfl, -⟩ := List.cons.inj tail
      exact absurd (List.mem_append_right _ List.mem_cons_self) bare

theorem mem_intercalate {x : α} {pieces : List (List α)} (mem : x ∈ [sep].intercalate pieces) :
    x = sep ∨ ∃ piece ∈ pieces, x ∈ piece := by
  induction pieces with
  | nil => cases mem
  | cons piece pieces ih =>
    by_cases last : pieces = []
    · rw [last, List.intercalate_singleton] at mem
      exact .inr ⟨piece, List.mem_cons_self, mem⟩
    · rw [List.intercalate_cons_of_ne_nil last] at mem
      rcases List.mem_append.mp mem with front | later
      · rcases List.mem_append.mp front with here | between
        · exact .inr ⟨piece, List.mem_cons_self, here⟩
        · exact .inl (List.mem_singleton.mp between)
      · exact (ih later).imp_right fun ⟨p, inside, mem⟩ => ⟨p, List.mem_cons_of_mem _ inside, mem⟩

/-- The lines in a row, each with `sep` behind it. -/
def ended (sep : α) (lines : List (List α)) : List α :=
  lines.flatMap (· ++ [sep])

theorem ended_cons (line : List α) (lines : List (List α)) :
    ended sep (line :: lines) = line ++ sep :: ended sep lines := by
  unfold ended
  rw [List.flatMap_cons, List.append_assoc]
  rfl

/-- As many lines as are known to come, and the rest, are read off in one way. -/
theorem ended_append_inj {lines lines' : List (List α)} {rest rest' : List α}
    (bare : ∀ line ∈ lines, sep ∉ line) (bare' : ∀ line ∈ lines', sep ∉ line)
    (count : lines.length = lines'.length)
    (same : ended sep lines ++ rest = ended sep lines' ++ rest') : lines = lines' ∧ rest = rest' := by
  induction lines generalizing lines' with
  | nil =>
    obtain rfl := List.length_eq_zero_iff.mp count.symm
    exact ⟨rfl, same⟩
  | cons line lines ih =>
    cases lines' with
    | nil => cases count
    | cons line' lines' =>
      simp only [List.mem_cons, forall_eq_or_imp] at bare bare'
      rw [ended_cons, ended_cons, List.append_assoc, List.append_assoc] at same
      obtain ⟨rfl, later⟩ := first_inj bare.1 bare'.1 same
      obtain ⟨rfl, rest_eq⟩ := ih bare.2 bare'.2 (Nat.succ.inj count) later
      exact ⟨rfl, rest_eq⟩

/-- All lines are read off in one way. -/
theorem ended_inj {lines lines' : List (List α)} (bare : ∀ line ∈ lines, sep ∉ line)
    (bare' : ∀ line ∈ lines', sep ∉ line) (same : ended sep lines = ended sep lines') :
    lines = lines' := by
  induction lines generalizing lines' with
  | nil =>
    cases lines' with
    | nil => rfl
    | cons line' lines' =>
      rw [ended_cons] at same
      exact absurd same.symm (by simp [ended])
  | cons line lines ih =>
    cases lines' with
    | nil =>
      rw [ended_cons] at same
      exact absurd same (by simp [ended])
    | cons line' lines' =>
      simp only [List.mem_cons, forall_eq_or_imp] at bare bare'
      rw [ended_cons, ended_cons] at same
      obtain ⟨rfl, later⟩ := first_inj bare.1 bare'.1 same
      rw [ih bare.2 bare'.2 later]

end Posh.Lib
