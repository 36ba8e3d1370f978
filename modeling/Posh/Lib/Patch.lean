import Mathlib.Data.List.Basic
import Posh.Lib.Checked

/-!
Bounded forward scans, and replacing the middle of a list: when two lists agree
on a prefix and a suffix that do not overlap, splicing the second one's middle
into the first gives the second.
-/

namespace Posh.Lib

universe u

variable {α : Type u}

/-- `while i < limit && p i { i += 1 }`, where `budget` counts the iterations
still allowed before `limit`. -/
def scanWhile (p : Nat → Bool) : (budget i : Nat) → Nat
  | 0, i => i
  | budget + 1, i => if p i then scanWhile p budget (i + 1) else i

theorem scanWhile_le (p : Nat → Bool) (budget i : Nat) : scanWhile p budget i ≤ i + budget := by
  induction budget generalizing i with
  | zero => exact Nat.le_refl i
  | succ budget ih =>
    unfold scanWhile
    split
    · have := ih (i + 1)
      omega
    · omega

/-- Every position the scan passed satisfies the test. -/
theorem scanWhile_holds {p : Nat → Bool} {budget i k : Nat} (low : i ≤ k)
    (high : k < scanWhile p budget i) : p k = true := by
  induction budget generalizing i with
  | zero => exact absurd high (by simp [scanWhile]; omega)
  | succ budget ih =>
    unfold scanWhile at high
    split at high
    · rename_i holds
      rcases Nat.eq_or_lt_of_le low with rfl | later
      · exact holds
      · exact ih later high
    · omega

/-- A scan whose test holds everywhere uses its whole budget. -/
theorem scanWhile_all {p : Nat → Bool} {budget i : Nat}
    (holds : ∀ k, i ≤ k → k < i + budget → p k = true) : scanWhile p budget i = i + budget := by
  induction budget generalizing i with
  | zero => rfl
  | succ budget ih =>
    have here : p i = true := holds i (Nat.le_refl i) (by omega)
    have rest := ih (i := i + 1) fun k low high => holds k (by omega) (by omega)
    simp only [scanWhile, here, if_true, rest]
    omega

/-- The same scan with a test that may panic. -/
def scanChecked (test : Nat → Checked Bool) : (budget i : Nat) → Checked Nat
  | 0, i => return i
  | budget + 1, i => do
      if ← test i then scanChecked test budget (i + 1) else return i

theorem scanChecked_eq {test : Nat → Checked Bool} {p : Nat → Bool} {budget i : Nat}
    (agree : ∀ k, i ≤ k → k < i + budget → test k = .ok (p k)) :
    scanChecked test budget i = .ok (scanWhile p budget i) := by
  induction budget generalizing i with
  | zero => rfl
  | succ budget ih =>
    have rest := ih (i := i + 1) fun k low high => agree k (by omega) (by omega)
    rw [scanChecked, scanWhile, agree i (Nat.le_refl i) (by omega)]
    cases p i with
    | true => exact rest
    | false => rfl

/-- Lists agreeing below `n` have the same first `n` elements. -/
theorem take_eq_of_getElem? {xs ys : List α} {n : Nat}
    (agree : ∀ k, k < n → xs[k]? = ys[k]?) : xs.take n = ys.take n := by
  apply List.ext_getElem?
  intro k
  rcases Nat.lt_or_ge k n with inside | outside
  · rw [List.getElem?_take_of_lt inside, List.getElem?_take_of_lt inside, agree k inside]
  · rw [List.getElem?_take_eq_none outside, List.getElem?_take_eq_none outside]

/-- Lists agreeing on their last `n` positions have the same last `n` elements. -/
theorem drop_eq_of_getElem? {xs ys : List α} {n : Nat} (hx : n ≤ xs.length) (hy : n ≤ ys.length)
    (agree : ∀ k, k < n → xs[xs.length - 1 - k]? = ys[ys.length - 1 - k]?) :
    xs.drop (xs.length - n) = ys.drop (ys.length - n) := by
  apply List.ext_getElem?
  intro k
  rw [List.getElem?_drop, List.getElem?_drop]
  rcases Nat.lt_or_ge k n with inside | outside
  · have := agree (n - 1 - k) (by omega)
    rwa [show xs.length - 1 - (n - 1 - k) = xs.length - n + k by omega,
      show ys.length - 1 - (n - 1 - k) = ys.length - n + k by omega] at this
  · rw [List.getElem?_eq_none (by omega), List.getElem?_eq_none (by omega)]

/-- Splicing `new`'s middle between the ends it shares with `old` rebuilds `new`. -/
theorem splice_middle {old new : List α} {front back : Nat}
    (front_eq : old.take front = new.take front)
    (back_eq : old.drop (old.length - back) = new.drop (new.length - back))
    (fits : front + back ≤ new.length) :
    old.take front ++ (new.drop front).take (new.length - back - front) ++
      old.drop (old.length - back) = new := by
  have tail : new.drop (new.length - back) =
      (new.drop front).drop (new.length - back - front) := by
    rw [List.drop_drop]
    congr 1
    omega
  rw [front_eq, back_eq, tail, List.append_assoc, List.take_append_drop, List.take_append_drop]

end Posh.Lib
