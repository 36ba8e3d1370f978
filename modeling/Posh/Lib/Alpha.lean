import Mathlib.Algebra.Order.Floor.Semifield
import Mathlib.Data.Rat.Floor
import Mathlib.Tactic.FieldSimp
import Mathlib.Tactic.Linarith

/-!
Straight alpha: layers whose colours are given apart from how much they cover, and what
one laid over another looks like, as fractions of full coverage and full intensity and in
`n` equal steps of these.
-/

namespace Posh.Lib.Alpha

variable {n s sa d da : ℕ}

/-- How much a layer that covers `sa` and one beneath it that covers `da` cover together. -/
def cover (sa da : ℚ) : ℚ :=
  sa + da * (1 - sa)

/-- A channel of a layer over one beneath it. -/
def overlaid (s sa d da : ℚ) : ℚ :=
  (s * sa + d * (da * (1 - sa))) / cover sa da

section Unit

variable {s sa d da : ℚ}

theorem cover_nonneg (hs : 0 ≤ sa) (hs' : sa ≤ 1) (hd : 0 ≤ da) : 0 ≤ cover sa da :=
  add_nonneg hs (mul_nonneg hd (sub_nonneg.mpr hs'))

theorem cover_le_one (hs' : sa ≤ 1) (hd' : da ≤ 1) : cover sa da ≤ 1 := by
  have := mul_le_mul_of_nonneg_right hd' (sub_nonneg.mpr hs')
  unfold cover
  linarith

/-- What is seen is no brighter than the brighter of the two. -/
theorem overlaid_le_one (hs : 0 ≤ sa) (hs' : sa ≤ 1) (hd : 0 ≤ da) (bright : s ≤ 1)
    (bright' : d ≤ 1) : overlaid s sa d da ≤ 1 := by
  refine div_le_one_of_le₀ ?_ (cover_nonneg hs hs' hd)
  have upper := mul_le_mul_of_nonneg_right bright hs
  have lower := mul_le_mul_of_nonneg_right bright' (mul_nonneg hd (sub_nonneg.mpr hs'))
  unfold cover
  linarith

end Unit

/-- In steps of `1 / n`, rounded down. -/
theorem floor_cover (some_ : 0 < n) (le : sa ≤ n) :
    ⌊(n : ℚ) * cover (sa / n) (da / n)⌋₊ = (sa * n + da * (n - sa)) / n := by
  have nonzero : (n : ℚ) ≠ 0 := by exact_mod_cast some_.ne'
  have exact_ : (n : ℚ) * cover (sa / n) (da / n) = ((sa * n + da * (n - sa) : ℕ) : ℚ) / (n : ℕ) := by
    push_cast [Nat.cast_sub le]
    unfold cover
    field_simp
  rw [exact_, Nat.floor_div_eq_div]

theorem floor_overlaid (some_ : 0 < n) (le : sa ≤ n) :
    ⌊(n : ℚ) * overlaid (s / n) (sa / n) (d / n) (da / n)⌋₊ =
      (s * sa * n + d * da * (n - sa)) / (sa * n + da * (n - sa)) := by
  have nonzero : (n : ℚ) ≠ 0 := by exact_mod_cast some_.ne'
  have covered : cover (sa / n) (da / n) = ((sa * n + da * (n - sa) : ℕ) : ℚ) / (n * n) := by
    push_cast [Nat.cast_sub le]
    unfold cover
    field_simp
  have exact_ : (n : ℚ) * overlaid (s / n) (sa / n) (d / n) (da / n) =
      ((s * sa * n + d * da * (n - sa) : ℕ) : ℚ) / ((sa * n + da * (n - sa) : ℕ) : ℚ) := by
    unfold overlaid
    rw [covered]
    by_cases bare : ((sa * n + da * (n - sa) : ℕ) : ℚ) = 0
    · rw [bare]
      simp
    · push_cast [Nat.cast_sub le] at bare ⊢
      field_simp
  rw [exact_, Nat.floor_div_eq_div]

end Posh.Lib.Alpha
