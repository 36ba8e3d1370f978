import Posh.Remote.Sync

/-!
Diffs with every index checked.

`make_diff` and `apply_diff` as the source indexes and slices. Neither goes out of range,
whatever the strings are, so that they are the functions without checks.
-/

namespace Posh.Remote

open Posh.Lib

namespace Indexed

/-- `old[i] == new[j]` -/
def sameAt (old new : Bytes) (i j : Nat) : Checked Bool := do
  let a ← getAt old i
  let b ← getAt new j
  return a == b

/-- `old[old.len() - 1 - suffix] == new[new.len() - 1 - suffix]` -/
def sameFromEnd (old new : Bytes) (suffix : Nat) : Checked Bool := do
  let i ← sub (← sub old.length 1) suffix
  let j ← sub (← sub new.length 1) suffix
  sameAt old new i j

def makeDiff (old new : Bytes) : Checked Bytes := do
  let maxPrefix := min old.length new.length
  let front ← scanChecked (fun i => sameAt old new i i) maxPrefix 0
  let maxSuffix ← sub maxPrefix front
  let back ← scanChecked (sameFromEnd old new) maxSuffix 0
  let middle ← slice new front (← sub new.length back)
  return leBytes 4 front ++ leBytes 4 back ++ middle

def applyDiff (old diff : Bytes) : Checked (Option Bytes) := do
  if diff.length < 8 then return none
  else
    let front := ofLeBytes (← slice diff 0 4)
    let back := ofLeBytes (← slice diff 4 8)
    -- both come from a `u32`
    if (← add 64 front back) > old.length then return none
    else
      let middle ← slice diff 8 diff.length
      let first ← slice old 0 front
      let last ← slice old (← sub old.length back) old.length
      return some (first ++ middle ++ last)

variable {old new : Bytes}

theorem sameAt_eq_ok {i j : Nat} (left : i < old.length) (right : j < new.length) :
    sameAt old new i j = .ok (old[i]? == new[j]?) := by
  unfold sameAt
  rw [getAt_eq_ok left, getAt_eq_ok right, List.getElem?_eq_getElem left,
    List.getElem?_eq_getElem right]
  rfl

theorem makeDiff_eq (old new : Bytes) : makeDiff old new = .ok (Remote.makeDiff old new) := by
  have le := diffPrefix_le old new
  have apart := diffPrefix_add_diffSuffix_le old new
  have front : scanChecked (fun i => sameAt old new i i) (min old.length new.length) 0 =
      .ok (diffPrefix old new) :=
    scanChecked_eq fun k _ inside => sameAt_eq_ok (by omega) (by omega)
  have back : scanChecked (sameFromEnd old new) (min old.length new.length - diffPrefix old new) 0 =
      .ok (diffSuffix old new) := by
    refine scanChecked_eq fun k _ inside => ?_
    unfold sameFromEnd
    rw [sub_eq_ok (show 1 ≤ old.length by omega), sub_eq_ok (show 1 ≤ new.length by omega)]
    change sub (old.length - 1) k >>= (fun i => sub (new.length - 1) k >>= sameAt old new i) = _
    rw [sub_eq_ok (by omega), sub_eq_ok (by omega)]
    exact sameAt_eq_ok (by omega) (by omega)
  have middle : slice new (diffPrefix old new) (new.length - diffSuffix old new) =
      .ok ((new.drop (diffPrefix old new)).take
        (new.length - diffSuffix old new - diffPrefix old new)) := by
    rw [slice, if_pos ⟨by omega, by omega⟩, List.drop_take]
  unfold makeDiff
  dsimp only
  rw [front]
  change sub _ _ >>= _ = _
  rw [sub_eq_ok le]
  change scanChecked _ _ _ >>= _ = _
  rw [back]
  change sub _ _ >>= (fun j => slice new (diffPrefix old new) j >>= _) = _
  rw [sub_eq_ok (by omega)]
  change slice _ _ _ >>= _ = _
  rw [middle]
  rfl

theorem applyDiff_eq (old diff : Bytes) : applyDiff old diff = .ok (Remote.applyDiff old diff) := by
  unfold applyDiff Remote.applyDiff
  split
  · rfl
  · rename_i long
    have first : slice diff 0 4 = .ok (diff.take 4) := if_pos ⟨by omega, by omega⟩
    have second : slice diff 4 8 = .ok ((diff.drop 4).take 4) := by
      rw [slice, if_pos ⟨by omega, by omega⟩, List.drop_take]
    rw [first]
    change slice _ _ _ >>= _ = _
    rw [second]
    have front := ofLeBytes_lt (diff.take 4)
    have back := ofLeBytes_lt ((diff.drop 4).take 4)
    rw [List.length_take, Nat.min_eq_left (by omega)] at front
    rw [List.length_take, List.length_drop, Nat.min_eq_left (by omega)] at back
    change add _ _ _ >>= _ = _
    rw [add_eq_ok (by omega)]
    dsimp only
    change (if _ > old.length then _ else _) = _
    split
    · rfl
    · rename_i inside
      have middle : slice diff 8 diff.length = .ok (diff.drop 8) := by
        rw [slice, if_pos ⟨by omega, Nat.le_refl _⟩, List.take_length]
      have head : slice old 0 (ofLeBytes (diff.take 4)) = .ok (old.take (ofLeBytes (diff.take 4))) :=
        if_pos ⟨Nat.zero_le _, by omega⟩
      have tail : slice old (old.length - ofLeBytes ((diff.drop 4).take 4)) old.length =
          .ok (old.drop (old.length - ofLeBytes ((diff.drop 4).take 4))) := by
        rw [slice, if_pos ⟨by omega, Nat.le_refl _⟩, List.take_length]
      rw [middle]
      change slice _ _ _ >>= _ = _
      rw [head]
      change sub _ _ >>= (fun i => slice old i old.length >>= _) = _
      rw [sub_eq_ok (by omega)]
      change slice _ _ _ >>= _ = _
      rw [tail]
      rfl

/-- A diff rebuilds the string it was made for, its prefix and suffix overlap in neither
string, and no string at all makes `apply_diff` read out of range. -/
theorem diff_round_trip (small : old.length < 2 ^ 32) :
    (∃ diff, makeDiff old new = .ok diff ∧ applyDiff old diff = .ok (some new)) ∧
      diffPrefix old new + diffSuffix old new ≤ old.length ∧
      diffPrefix old new + diffSuffix old new ≤ new.length ∧
      ∀ base diff, ∃ result, applyDiff base diff = .ok result := by
  have apart := diffPrefix_add_diffSuffix_le old new
  refine ⟨⟨_, makeDiff_eq old new, ?_⟩, by omega, by omega, fun base diff => ⟨_, applyDiff_eq base diff⟩⟩
  rw [applyDiff_eq, applyDiff_makeDiff small]

/-- The first and the last byte are shared. -/
theorem diff_round_trip_repeated :
    (∃ diff, makeDiff [7, 7, 7] [7, 7] = .ok diff ∧ applyDiff [7, 7, 7] diff = .ok (some [7, 7])) ∧
      diffPrefix [7, 7, 7] [7, 7] + diffSuffix [7, 7, 7] [7, 7] ≤ 3 ∧
      diffPrefix [7, 7, 7] [7, 7] + diffSuffix [7, 7, 7] [7, 7] ≤ 2 ∧
      ∀ base diff, ∃ result, applyDiff base diff = .ok result :=
  diff_round_trip (by decide)

end Indexed

end Posh.Remote
