import Posh.Lib.Bytes
import Posh.Lib.Fallible

/-!
Readers of byte strings: a reader takes the whole string and tells where it stopped.

A reader is `Local` when it looks at nothing behind the place it stops at. A local reader
finds the same at the head of a longer string, and fails on a string that was cut off
before that place.
-/

namespace Posh.Lib

variable {ε : Type} {α : Type}

structure Local (read : Bytes → Fallible ε (α × Nat)) : Prop where
  total : ∀ data p, read data ≠ .panic p
  inside : ∀ {data a stop}, read data = .ok (a, stop) → stop ≤ data.length
  extend : ∀ {data a stop} more, read data = .ok (a, stop) → read (data ++ more) = .ok (a, stop)

/-- A string that holds the place where the reader stops reads as the whole does. -/
theorem Local.prefix_cases {read : Bytes → Fallible ε (α × Nat)} (h : Local read)
    {front back : Bytes} {a : α} {stop : Nat} (whole : read (front ++ back) = .ok (a, stop)) :
    (∃ e, read front = .fail e) ∨ read front = .ok (a, stop) := by
  cases eq : read front with
  | fail e => exact .inl ⟨e, rfl⟩
  | panic p => exact absurd eq (h.total front p)
  | ok r =>
    obtain ⟨b, stop'⟩ := r
    exact .inr ((h.extend back eq).symm.trans whole)

/-! ### Fields -/

/-- `data.get(lo..hi)` -/
def getRange (data : Bytes) (lo hi : Nat) : Option Bytes :=
  if lo ≤ hi ∧ hi ≤ data.length then some ((data.take hi).drop lo) else none

theorem take_drop_middle {before field rest : Bytes} {lo hi : Nat} (start : before.length = lo)
    (stop : lo + field.length = hi) : ((before ++ field ++ rest).take hi).drop lo = field := by
  have front : (before ++ field ++ rest).take hi = before ++ field :=
    List.take_left' (by simpa [start] using stop)
  rw [front, List.drop_left' start]

theorem slice_middle {data field : Bytes} (before rest : Bytes) {lo hi : Nat}
    (split : data = before ++ field ++ rest) (start : before.length = lo)
    (stop : lo + field.length = hi) : slice data lo hi = .ok field := by
  subst split
  rw [slice, if_pos, take_drop_middle start stop]
  simp only [List.length_append]
  omega

theorem getRange_middle {data field : Bytes} (before rest : Bytes) {lo hi : Nat}
    (split : data = before ++ field ++ rest) (start : before.length = lo)
    (stop : lo + field.length = hi) : getRange data lo hi = some field := by
  subst split
  rw [getRange, if_pos, take_drop_middle start stop]
  simp only [List.length_append]
  omega

theorem getRange_append {data field : Bytes} {lo hi : Nat} (more : Bytes)
    (found : getRange data lo hi = some field) : getRange (data ++ more) lo hi = some field := by
  unfold getRange at found ⊢
  split at found
  · rename_i inside
    rw [if_pos ⟨inside.1, by simp; omega⟩, List.take_append_of_le_length inside.2]
    exact found
  · cases found

theorem le_of_getRange {data field : Bytes} {lo hi : Nat}
    (found : getRange data lo hi = some field) : hi ≤ data.length := by
  unfold getRange at found
  split at found
  · rename_i inside
    exact inside.2
  · cases found

end Posh.Lib
