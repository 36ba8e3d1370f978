import Posh.Lib.BitString

/-!
Canonical Huffman codes: code words given by their lengths alone.

Symbol `s` has a code word of `lengths[s]` bits, none if that is 0. The words of one length
are consecutive numbers in the order of their symbols, and the first word of each length
follows the last shorter one. `kraft` counts how much of the code space is taken, and `place`
numbers the symbols by length and value.
-/

namespace Posh.Lib.CanonicalCode

variable (lengths : List Nat)

/-- The length of a symbol's code word, 0 for a symbol without one. -/
def width (sym : Nat) : Nat :=
  lengths[sym]?.getD 0

/-- How many code words have the given length. -/
def used (l : Nat) : Nat :=
  if l = 0 then 0 else lengths.count l

/-- The first code word of each length. -/
def firstCode : Nat → Nat
  | 0 => 0
  | l + 1 => (firstCode l + used lengths l) * 2

/-- How many symbols before this one have code words of the same length. -/
def rank (sym : Nat) : Nat :=
  (lengths.take sym).count (width lengths sym)

/-- The code word of a symbol, as a number. -/
def code (sym : Nat) : Nat :=
  firstCode lengths (width lengths sym) + rank lengths sym

/-- The code word of a symbol, most significant bit first. -/
def word (sym : Nat) : List Bool :=
  highBits (width lengths sym) (code lengths sym)

/-- How many words of the given length begin with a code word. -/
def kraft (l : Nat) : Nat :=
  (lengths.map fun l' => if l' = 0 ∨ l < l' then 0 else 2 ^ (l - l')).sum

/-- How many code words are shorter. -/
def start : Nat → Nat
  | 0 => 0
  | l + 1 => start l + used lengths l

/-- The place of a symbol among all that have code words, by length and value. -/
def place (sym : Nat) : Nat :=
  start lengths (width lengths sym) + rank lengths sym

variable {lengths} {sym sym' l l' : Nat}

/-! ### The code space -/

theorem kraft_zero : kraft lengths 0 = 0 := by
  unfold kraft
  induction lengths with
  | nil => rfl
  | cons l rest ih =>
    rw [List.map_cons, List.sum_cons, ih, if_pos (by omega)]

theorem kraft_succ (l : Nat) :
    kraft lengths (l + 1) = kraft lengths l * 2 + used lengths (l + 1) := by
  unfold kraft used
  rw [if_neg (Nat.succ_ne_zero l)]
  induction lengths with
  | nil => rfl
  | cons l' rest ih =>
    rw [List.map_cons, List.sum_cons, List.map_cons, List.sum_cons, ih, List.count_cons]
    rcases Nat.lt_trichotomy l' (l + 1) with shorter | same | longer
    · have other : (l' == l + 1) = false := by simpa using shorter.ne
      rw [other]
      by_cases unused : l' = 0
      · simp [unused]
      · rw [if_neg (by omega), if_neg (by omega), show l + 1 - l' = l - l' + 1 by omega, pow_succ]
        simp only [Bool.false_eq_true, if_false]
        ring
    · simp [same]
      ring
    · have other : (l' == l + 1) = false := by simpa using longer.ne'
      rw [other, if_pos (by omega), if_pos (by omega)]
      simp

/-- The code words up to a length fill what lies before the next one. -/
theorem firstCode_add_used (l : Nat) :
    firstCode lengths l + used lengths l = kraft lengths l := by
  induction l with
  | zero => rw [kraft_zero]; rfl
  | succ l ih => rw [firstCode, ih, kraft_succ]

theorem kraft_scale (le : l ≤ l') : kraft lengths l * 2 ^ (l' - l) ≤ kraft lengths l' := by
  obtain ⟨d, rfl⟩ := Nat.exists_eq_add_of_le le
  rw [Nat.add_sub_cancel_left]
  induction d with
  | zero => simp
  | succ d ih =>
    have later := ih (Nat.le_add_right l d)
    rw [← Nat.add_assoc, kraft_succ, pow_succ, ← Nat.mul_assoc]
    omega

/-- Where the code space is not exceeded at a length, it is not at a shorter one. -/
theorem kraft_le (room : kraft lengths l' ≤ 2 ^ l') (le : l ≤ l') : kraft lengths l ≤ 2 ^ l := by
  have scaled := (kraft_scale le).trans room
  obtain ⟨d, rfl⟩ := Nat.exists_eq_add_of_le le
  rw [Nat.add_sub_cancel_left, pow_add] at scaled
  exact Nat.le_of_mul_le_mul_right scaled (Nat.two_pow_pos d)

/-- Longer words take nothing of the code space where there are none. -/
theorem kraft_of_bounded (bounded : ∀ l' ∈ lengths, l' ≤ l) (le : l ≤ l') :
    kraft lengths l' = kraft lengths l * 2 ^ (l' - l) := by
  obtain ⟨d, rfl⟩ := Nat.exists_eq_add_of_le le
  rw [Nat.add_sub_cancel_left]
  induction d with
  | zero => simp
  | succ d ih =>
    have unused : used lengths (l + d + 1) = 0 := by
      unfold used
      rw [if_neg (Nat.succ_ne_zero _), List.count_eq_zero]
      intro mem
      have := bounded _ mem
      omega
    rw [← Nat.add_assoc, kraft_succ, unused, ih (Nat.le_add_right l d), pow_succ, Nat.add_zero,
      Nat.mul_assoc]

/-! ### Code words -/

theorem getElem?_of_width (some_ : width lengths sym ≠ 0) :
    lengths[sym]? = some (width lengths sym) := by
  unfold width at some_ ⊢
  cases found : lengths[sym]? with
  | none => simp [found] at some_
  | some l => rfl

/-- Symbols of the same length have their places in a row. -/
theorem rank_lt_used (some_ : width lengths sym ≠ 0) :
    rank lengths sym < used lengths (width lengths sym) := by
  have here := getElem?_of_width some_
  obtain ⟨inside, eq⟩ := List.getElem?_eq_some_iff.mp here
  unfold used rank
  rw [if_neg some_]
  have split := List.take_append_drop sym lengths
  rw [List.drop_eq_getElem_cons inside, eq] at split
  calc (lengths.take sym).count (width lengths sym)
      < (lengths.take sym).count (width lengths sym) +
          (width lengths sym :: lengths.drop (sym + 1)).count (width lengths sym) := by
        rw [List.count_cons_self]
        omega
    _ = lengths.count (width lengths sym) := by
        rw [← List.count_append, split]

theorem code_lt_kraft (some_ : width lengths sym ≠ 0) :
    code lengths sym < kraft lengths (width lengths sym) := by
  have before := rank_lt_used some_
  rw [← firstCode_add_used]
  unfold code
  omega

/-- A code word begins with no shorter one. -/
theorem kraft_le_prefix (shorter : l < width lengths sym) :
    kraft lengths l ≤ code lengths sym / 2 ^ (width lengths sym - l) := by
  rw [Nat.le_div_iff_mul_le (Nat.two_pow_pos _)]
  obtain ⟨d, eq⟩ := Nat.exists_eq_add_of_lt shorter
  have scaled : kraft lengths l * 2 ^ d ≤ kraft lengths (l + d) := by
    have scaled : _ ≤ kraft lengths (l + d) := kraft_scale (Nat.le_add_right l d)
    rwa [Nat.add_sub_cancel_left] at scaled
  have first : kraft lengths (l + d) * 2 ≤ code lengths sym := by
    unfold code
    rw [eq, firstCode, firstCode_add_used]
    omega
  rw [show width lengths sym - l = d + 1 by omega, pow_succ, ← Nat.mul_assoc]
  omega

/-! ### The symbols in order -/

theorem start_mono (le : l ≤ l') : start lengths l ≤ start lengths l' := by
  induction le with
  | refl => exact Nat.le_refl _
  | step _ ih => exact ih.trans (Nat.le_add_right _ _)

theorem place_lt_start (some_ : width lengths sym ≠ 0) (shorter : width lengths sym < l) :
    place lengths sym < start lengths l := by
  have before := rank_lt_used some_
  have next : start lengths (width lengths sym + 1) ≤ start lengths l := start_mono shorter
  rw [start] at next
  unfold place
  omega

theorem rank_lt_rank (some_ : width lengths sym ≠ 0)
    (same : width lengths sym = width lengths sym') (lt : sym < sym') :
    rank lengths sym < rank lengths sym' := by
  have here := getElem?_of_width some_
  obtain ⟨inside, eq⟩ := List.getElem?_eq_some_iff.mp here
  unfold rank
  rw [← same]
  have more : (lengths.take (sym + 1)).count (width lengths sym) ≤
      (lengths.take sym').count (width lengths sym) :=
    (List.take_sublist_take_left lt).count_le _
  rw [List.take_succ_eq_append_getElem inside, List.count_append, eq,
    List.count_singleton_self] at more
  omega

/-- No two symbols have the same place. -/
theorem place_injective (some_ : width lengths sym ≠ 0) (some' : width lengths sym' ≠ 0)
    (same : place lengths sym = place lengths sym') : sym = sym' := by
  rcases Nat.lt_trichotomy (width lengths sym) (width lengths sym') with shorter | eq | longer
  · have before := place_lt_start some_ shorter
    unfold place at same before
    omega
  · unfold place at same
    rw [eq] at same
    rcases Nat.lt_trichotomy sym sym' with lt | eq' | gt
    · have before := rank_lt_rank some_ eq lt
      omega
    · exact eq'
    · have before := rank_lt_rank some' eq.symm gt
      omega
  · have before := place_lt_start some' longer
    unfold place at same before
    omega

theorem start_eq_countP (l : Nat) :
    start lengths l = lengths.countP fun l' => l' ≠ 0 ∧ l' < l := by
  induction l with
  | zero =>
    refine (List.countP_eq_zero.mpr fun l' _ => ?_).symm
    simp
  | succ l ih =>
    rw [start, ih]
    unfold used
    clear ih
    induction lengths with
    | nil => simp
    | cons l' rest ih =>
      rw [List.countP_cons, List.countP_cons, List.count_cons, ← ih]
      by_cases none : l = 0
      · simp [none]
      · simp only [if_neg none, beq_iff_eq, decide_eq_true_eq]
        split_ifs <;> omega

/-- As many symbols have code words as there are lengths other than 0. -/
theorem start_eq (bounded : ∀ l' ∈ lengths, l' < l) :
    start lengths l = (lengths.filter (· ≠ 0)).length := by
  rw [start_eq_countP, List.countP_eq_length_filter]
  congr 1
  refine List.filter_congr fun l' mem => ?_
  simp [bounded l' mem]

end Posh.Lib.CanonicalCode
