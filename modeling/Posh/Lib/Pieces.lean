import Posh.Lib.Bytes

/-!
Records of one length in a buffer: the `i`-th piece of a list, and what writing one piece
does to the others.
-/

namespace Posh.Lib

variable {α β : Type} {n : Nat}

/-- The `i`-th of the pieces of length `n`. -/
def piece (n : Nat) (xs : List α) (i : Nat) : List α :=
  (xs.drop (i * n)).take n

/-- The piece at an offset is written over. -/
def splice (xs : List α) (at_ : Nat) (new : List α) : List α :=
  xs.take at_ ++ new ++ xs.drop (at_ + new.length)

theorem length_piece {xs : List α} {i : Nat} (inside : (i + 1) * n ≤ xs.length) :
    (piece n xs i).length = n := by
  rw [Nat.succ_mul] at inside
  simp only [piece, List.length_take, List.length_drop]
  omega

theorem drop_take_eq_piece (n : Nat) (xs : List α) (i : Nat) :
    (xs.take (i * n + n)).drop (i * n) = piece n xs i := by
  rw [piece, List.drop_take, Nat.add_sub_cancel_left]

theorem getElem?_piece (n : Nat) (xs : List α) (i k : Nat) :
    (piece n xs i)[k]? = if k < n then xs[i * n + k]? else none := by
  simp [piece, List.getElem?_take]

theorem length_splice {xs new : List α} {at_ : Nat} (inside : at_ + new.length ≤ xs.length) :
    (splice xs at_ new).length = xs.length := by
  simp only [splice, List.length_append, List.length_take, List.length_drop]
  omega

theorem getElem?_splice {xs new : List α} {at_ : Nat} (inside : at_ + new.length ≤ xs.length)
    (k : Nat) : (splice xs at_ new)[k]? =
      if at_ ≤ k ∧ k < at_ + new.length then new[k - at_]? else xs[k]? := by
  have before : (xs.take at_).length = at_ := by
    rw [List.length_take]
    omega
  unfold splice
  by_cases first : k < at_
  · rw [List.append_assoc, List.getElem?_append_left (by omega), List.getElem?_take_of_lt first,
      if_neg (by omega)]
  · by_cases last : k < at_ + new.length
    · rw [List.append_assoc, List.getElem?_append_right (by omega),
        List.getElem?_append_left (by omega), before, if_pos ⟨by omega, last⟩]
    · have rest : (xs.take at_ ++ new).length = at_ + new.length := by
        rw [List.length_append, before]
      rw [List.getElem?_append_right (by omega), rest, List.getElem?_drop, if_neg (by omega)]
      congr 1
      omega

/-- Writing one piece leaves the others. -/
theorem piece_splice {xs new : List α} {i : Nat} (size : new.length = n)
    (inside : (i + 1) * n ≤ xs.length) (j : Nat) :
    piece n (splice xs (i * n) new) j = if j = i then new else piece n xs j := by
  rw [Nat.succ_mul] at inside
  refine List.ext_getElem? fun k => ?_
  rw [getElem?_piece, getElem?_splice (by omega), size]
  rcases Nat.lt_trichotomy j i with earlier | rfl | later
  · have apart := Nat.mul_le_mul_right n (show j + 1 ≤ i from earlier)
    rw [Nat.succ_mul] at apart
    rw [if_neg (show j ≠ i by omega), getElem?_piece]
    split
    · rw [if_neg (by omega)]
    · rfl
  · rw [if_pos (rfl : j = j)]
    split
    · rw [if_pos (by omega)]
      congr 1
      omega
    · exact (List.getElem?_eq_none (by omega)).symm
  · have apart := Nat.mul_le_mul_right n (show i + 1 ≤ j from later)
    rw [Nat.succ_mul] at apart
    rw [if_neg (show j ≠ i by omega), getElem?_piece]
    split
    · rw [if_neg (by omega)]
    · rfl

/-- The pieces of what was put together from pieces. -/
theorem piece_flatMap {xs : List β} {f : β → List α} (size : ∀ x ∈ xs, (f x).length = n)
    {i : Nat} (inside : i < xs.length) : piece n (xs.flatMap f) i = f xs[i] := by
  induction xs generalizing i with
  | nil => cases inside
  | cons x xs ih =>
    have first := size x List.mem_cons_self
    unfold piece at ih ⊢
    cases i with
    | zero =>
      rw [List.flatMap_cons, Nat.zero_mul, List.drop_zero, List.take_left' first]
      rfl
    | succ i =>
      have skipped : (f x ++ xs.flatMap f).drop ((i + 1) * n) = (xs.flatMap f).drop (i * n) := by
        rw [Nat.succ_mul, Nat.add_comm, ← List.drop_drop, List.drop_left' first]
      rw [List.flatMap_cons, skipped]
      exact ih (fun x mem => size x (List.mem_cons_of_mem _ mem)) (Nat.lt_of_succ_lt_succ inside)

/-- The first pieces are the front of the buffer. -/
theorem flatMap_piece (xs : List α) (k : Nat) :
    (List.range k).flatMap (piece n xs) = xs.take (k * n) := by
  induction k with
  | zero => simp
  | succ k ih =>
    rw [List.range_succ, List.flatMap_append, ih, List.flatMap_singleton, Nat.succ_mul,
      List.take_add, piece]

theorem chunksExact_eq_pieces {xs : List α} {k : Nat} (some_ : 0 < n) (whole : xs.length = k * n) :
    chunksExact n xs = (List.range k).map (piece n xs) := by
  have size : ∀ i ∈ List.range k, (piece n xs i).length = n := by
    intro i mem
    refine length_piece ?_
    rw [whole]
    exact Nat.mul_le_mul_right n (List.mem_range.mp mem)
  have pieces := chunksExact_flatMap some_ size
  rwa [flatMap_piece, ← whole, List.take_length] at pieces

end Posh.Lib
