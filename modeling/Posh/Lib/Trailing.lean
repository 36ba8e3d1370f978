import Mathlib.Data.List.DropRight
import Mathlib.Data.List.Forall2

/-!
Lists up to a tail of negligible elements: `l.rdropWhile p` is the canonical form,
and the operations that only add, remove or change such a tail do not change it.
-/

namespace Posh.Lib

universe u v

variable {α : Type u} {β : Type v} {p : α → Bool} {q : β → Bool}

theorem rdropWhile_append {b : List α} (l : List α) (negligible : ∀ x ∈ b, p x = true) :
    (l ++ b).rdropWhile p = l.rdropWhile p := by
  induction b using List.reverseRecOn with
  | nil => rw [List.append_nil]
  | append_singleton b x ih =>
    rw [← List.append_assoc, List.rdropWhile_concat_pos p _ x (negligible x (by simp))]
    exact ih fun y mem => negligible y (List.mem_append_left [x] mem)

/-- A list is its canonical form and a negligible tail. -/
theorem exists_tail (p : α → Bool) (l : List α) :
    ∃ b, l = l.rdropWhile p ++ b ∧ ∀ x ∈ b, p x = true :=
  ⟨l.rtakeWhile p, List.rdropWhile_append_rtakeWhile.symm, fun _ mem => List.mem_rtakeWhile_imp mem⟩

/-- Elements that stay negligible under a map may be dropped before it. -/
theorem rdropWhile_map {f : α → β} (stays : ∀ a, p a = true → q (f a) = true) (l : List α) :
    ((l.rdropWhile p).map f).rdropWhile q = (l.map f).rdropWhile q := by
  obtain ⟨b, split, negligible⟩ := exists_tail p l
  rw [congrArg (List.map f) split, List.map_append, rdropWhile_append]
  intro y mem
  obtain ⟨x, memX, rfl⟩ := List.mem_map.mp mem
  exact stays x (negligible x memX)

theorem rdropWhile_drop (p : α → Bool) (n : Nat) (l : List α) :
    (l.drop n).rdropWhile p = (l.rdropWhile p).drop n := by
  obtain ⟨b, split, negligible⟩ := exists_tail p l
  rw [congrArg (List.drop n) split, List.drop_append,
    rdropWhile_append _ fun x mem => negligible x (List.mem_of_mem_drop mem)]
  rw [List.rdropWhile_eq_self_iff]
  intro some last
  have nonempty : l.rdropWhile p ≠ [] := by
    intro empty
    rw [empty, List.drop_nil] at some
    exact some rfl
  rw [List.getLast_drop] at last
  exact List.rdropWhile_last_not p l nonempty last

end Posh.Lib
