import Posh.Term.Grid

/-!
The row under the cursor while the height of the grid changes.

Rows that show nothing leave at the bottom, then rows leave at the top, the cursor's own
among them when the grid still shows something too far below it. A grid that grows keeps
the cursor on its row.
-/

namespace Posh.Term

open Posh.Lib

namespace Screen

/-- A row that shows something. -/
def Shown (r : Row) : Prop :=
  r.isDumpSkippable = false

variable {grid : List Row} {row col lo hi rows cols : Nat} {state : Screen × (Nat × Nat)}

/-- The rows `lo` to `hi` of `grid` are left, with the cursor that was on row `row`. The
rows below them show nothing; and rows left at the top only when the last one that is
left shows something. -/
structure Kept (grid : List Row) (row col lo hi : Nat) (state : Screen × (Nat × Nat)) : Prop where
  rows : state.1.grid = (grid.take hi).drop lo
  cursor : state.2 = (row - lo, col)
  inside : row < hi
  ordered : lo ≤ hi
  within : hi ≤ grid.length
  below : ∀ i r, hi ≤ i → grid[i]? = some r → ¬ Shown r
  last : 0 < lo → ∃ r, grid[hi - 1]? = some r ∧ Shown r

theorem Kept.length (h : Kept grid row col lo hi state) : state.1.grid.length = hi - lo := by
  have within := h.within
  rw [h.rows, List.length_drop, List.length_take]
  omega

theorem Kept.getElem? (h : Kept grid row col lo hi state) {i : Nat} (inside : lo + i < hi) :
    state.1.grid[i]? = grid[lo + i]? := by
  rw [h.rows, List.getElem?_drop, List.getElem?_take_of_lt inside]

theorem Kept.getLast? (h : Kept grid row col lo hi state) (some_ : lo < hi) :
    state.1.grid.getLast? = grid[hi - 1]? := by
  rw [List.getLast?_eq_getElem?, h.length, h.getElem? (by omega)]
  congr 1
  omega

/-- A pass of the shrinking loop. -/
theorem shrinkPass_kept (h : Kept grid row col lo hi state) {r : Row} (isRow : grid[row]? = some r)
    (shown : Shown r) (two : lo + 1 < hi) :
    Yields (shrinkPass true state) fun state' =>
      ∃ lo' hi', Kept grid row col lo' hi' state' ∧ hi' - lo' = hi - lo - 1 := by
  obtain ⟨s, cursor⟩ := state
  have length := h.length
  have inside := h.inside
  have within := h.within
  obtain ⟨last, isLast⟩ : ∃ last, grid[hi - 1]? = some last :=
    ⟨_, List.getElem?_eq_getElem (by omega)⟩
  have bottom : s.grid.getLast? = some last := (h.getLast? (by omega)).trans isLast
  have cursor_eq : cursor = (row - lo, col) := h.cursor
  have rows_eq : s.grid = (grid.take hi).drop lo := h.rows
  dsimp only at length
  unfold shrinkPass
  refine (Yields.sub (by omega)).bind ?_
  rintro end_ rfl
  dsimp only
  rw [bottom, Option.map_some, Option.getD_some, length, cursor_eq]
  dsimp only
  split
  · rename_i blank
    obtain ⟨skippable, further⟩ := blank
    -- nothing has left at the top yet
    have first : lo = 0 := by
      by_contra moved
      obtain ⟨r', isLast', shown'⟩ := h.last (Nat.pos_of_ne_zero moved)
      rw [isLast] at isLast'
      cases isLast'
      exact absurd skippable (by rw [shown']; exact nofun)
    subst first
    refine .pure ⟨0, hi - 1, ⟨?_, rfl, by omega, Nat.zero_le _, by omega, ?_, ?_⟩, by omega⟩
    · dsimp only
      rw [rows_eq, List.drop_zero, List.drop_zero, List.dropLast_eq_take, List.take_take,
        List.length_take]
      congr 1
      omega
    · intro i r' from_ isRow'
      rcases Nat.eq_or_lt_of_le from_ with rfl | later
      · rw [isLast] at isRow'
        cases isRow'
        intro shown'
        rw [shown'] at skippable
        cases skippable
      · exact h.below i r' (by omega) isRow'
    · exact fun moved => absurd moved (Nat.lt_irrefl 0)
  · rename_i leaves
    rw [if_pos rfl]
    refine (Yields.removeAt (by omega)).bind ?_
    rintro ⟨top, rest⟩ ⟨-, -, rfl⟩
    refine .pure ⟨lo + 1, hi, ⟨?_, ?_, inside, by omega, within, h.below, ?_⟩, by omega⟩
    · dsimp only
      rw [grid_pushScrollback, rows_eq]
      dsimp only
      rw [List.eraseIdx_zero, List.tail_drop]
    · dsimp only
      rw [Nat.sub_sub]
    · intro _
      by_cases moved : 0 < lo
      · exact h.last moved
      · refine ⟨last, isLast, ?_⟩
        by_cases hard : last.isDumpSkippable = true
        · -- the cursor is on the last row
          have at_end : row = hi - 1 := by
            by_contra other
            exact leaves ⟨hard, by omega⟩
          rw [← at_end, isRow] at isLast
          cases isLast
          exact shown
        · exact Bool.eq_false_iff.mpr hard

/-- The shrinking loop. -/
theorem shrink_kept {r : Row} (isRow : grid[row]? = some r) (shown : Shown r) (rows_pos : 0 < rows)
    (start : Kept grid row col 0 grid.length state) :
    Yields (forRange 0 (state.1.grid.length - rows) state fun _ => shrinkPass true) fun state' =>
      ∃ lo hi, Kept grid row col lo hi state' ∧ hi - lo = min grid.length rows := by
  have length := start.length
  refine (Yields.forRange_index (I := fun k state' => ∃ lo hi, Kept grid row col lo hi state' ∧
    hi - lo = grid.length - k) (Nat.zero_le _) ⟨0, grid.length, start, rfl⟩ ?_).mono ?_
  · rintro k state' _ more ⟨lo, hi, kept, height⟩
    have ordered := kept.ordered
    refine (shrinkPass_kept kept isRow shown (by omega)).mono ?_
    rintro state'' ⟨lo', hi', kept', height'⟩
    exact ⟨lo', hi', kept', by omega⟩
  · rintro state' ⟨lo, hi, kept, height⟩
    exact ⟨lo, hi, kept, by omega⟩

/-- A pass of the growing loop leaves the cursor on its row. -/
theorem growPass_row (cols : Nat) {r : Row} (isRow : state.1.grid[state.2.1]? = some r)
    (small : state.1.grid.length < 2 ^ 16) :
    (growPass cols true state).1.grid[(growPass cols true state).2.1]? = some r ∧
      (growPass cols true state).2.2 = state.2.2 ∧
      (growPass cols true state).1.grid.length = state.1.grid.length + 1 := by
  obtain ⟨s, cursor⟩ := state
  have inside := (List.getElem?_eq_some_iff.mp isRow).1
  unfold growPass
  dsimp only at inside small isRow ⊢
  rw [if_pos rfl]
  split
  · rename_i newest _
    have down : satAdd 16 cursor.1 1 = cursor.1 + 1 := by
      unfold satAdd
      omega
    dsimp only
    rw [down, List.getElem?_cons_succ]
    exact ⟨isRow, rfl, rfl⟩
  · dsimp only
    rw [List.getElem?_append_left inside, List.length_append]
    exact ⟨isRow, rfl, rfl⟩

theorem grow_row {r : Row} (isRow : state.1.grid[state.2.1]? = some r) (small : rows < 2 ^ 16) :
    Yields (forRange 0 (rows - state.1.grid.length) state fun _ state =>
        return growPass cols true state) fun state' =>
      state'.1.grid[state'.2.1]? = some r ∧ state'.2.2 = state.2.2 ∧
        state'.1.grid.length = max state.1.grid.length rows := by
  refine (Yields.forRange_index (I := fun k state' => state'.1.grid[state'.2.1]? = some r ∧
    state'.2.2 = state.2.2 ∧ state'.1.grid.length = state.1.grid.length + k) (Nat.zero_le _)
    ⟨isRow, rfl, rfl⟩ ?_).mono ?_
  · rintro k state' _ more ⟨isRow', same, height⟩
    obtain ⟨isRow'', same', height'⟩ := growPass_row cols isRow' (by omega)
    exact .pure ⟨isRow'', same'.trans same, by omega⟩
  · rintro state' ⟨isRow', same, height⟩
    exact ⟨isRow', same, by omega⟩

/-- What a change of height leaves under the cursor: its row when nothing is shown `rows`
or more rows below it, and else a row further down. -/
structure Under (rows : Nat) (before after : Screen × (Nat × Nat)) : Prop where
  height : after.1.grid.length = rows
  col : after.2.2 = before.2.2
  inside : after.2.1 < rows
  stays : (∀ i r, before.2.1 + rows ≤ i → before.1.grid[i]? = some r → ¬ Shown r) →
    after.1.grid[after.2.1]? = before.1.grid[before.2.1]?
  leaves : (∃ i r, before.2.1 + rows ≤ i ∧ before.1.grid[i]? = some r ∧ Shown r) →
    ∃ i, before.2.1 < i ∧ after.1.grid[after.2.1]? = before.1.grid[i]?

theorem heights_under (cols : Nat) {r : Row} (isRow : state.1.grid[state.2.1]? = some r) (shown : Shown r)
    (rows_pos : 0 < rows) (rows_lt : rows < 2 ^ 16) :
    Yields (do
      let state ← forRange 0 (state.1.grid.length - rows) state fun _ => shrinkPass true
      forRange 0 (rows - state.1.grid.length) state fun _ state => return growPass cols true state)
      (Under rows state) := by
  have inside := (List.getElem?_eq_some_iff.mp isRow).1
  have start : Kept state.1.grid state.2.1 state.2.2 0 state.1.grid.length state := by
    refine ⟨?_, rfl, inside, Nat.zero_le _, Nat.le_refl _, ?_, ?_⟩
    · rw [List.take_length, List.drop_zero]
    · intro i r' beyond isRow'
      exact absurd (List.getElem?_eq_some_iff.mp isRow').1 (Nat.not_lt.mpr beyond)
    · exact fun moved => absurd moved (Nat.lt_irrefl 0)
  refine (shrink_kept isRow shown rows_pos start).bind ?_
  rintro state₁ ⟨lo, hi, kept, height⟩
  have within := kept.within
  have inside₁ := kept.inside
  have length := kept.length
  have cursor : state₁.2.1 = state.2.1 - lo := congrArg Prod.fst kept.cursor
  have col : state₁.2.2 = state.2.2 := by rw [kept.cursor]
  have under : state₁.1.grid[state₁.2.1]? = state.1.grid[max state.2.1 lo]? := by
    rw [cursor, kept.getElem? (by omega)]
    congr 1
    omega
  obtain ⟨r₁, isRow₁⟩ : ∃ r₁, state₁.1.grid[state₁.2.1]? = some r₁ :=
    ⟨_, List.getElem?_eq_getElem (by omega)⟩
  refine (grow_row isRow₁ rows_lt).mono ?_
  rintro state' ⟨isRow', same, height'⟩
  have here : state'.1.grid[state'.2.1]? = state.1.grid[max state.2.1 lo]? :=
    (isRow'.trans isRow₁.symm).trans under
  have total : state'.1.grid.length = rows := by omega
  refine ⟨total, same.trans col, ?_, ?_, ?_⟩
  · rw [← total]
    exact (List.getElem?_eq_some_iff.mp isRow').1
  · intro blank
    have first : lo ≤ state.2.1 := by
      by_contra moved
      obtain ⟨r', isLast, shown'⟩ := kept.last (by omega)
      exact blank (hi - 1) r' (by omega) isLast shown'
    rw [here, Nat.max_eq_left first]
  · rintro ⟨i, r', far, isRow'', shown'⟩
    have before : i < hi := by
      by_contra beyond
      exact kept.below i r' (Nat.not_lt.mp beyond) isRow'' shown'
    have index := (List.getElem?_eq_some_iff.mp isRow'').1
    refine ⟨lo, by omega, ?_⟩
    rw [here, Nat.max_eq_right (by omega)]

end Screen

end Posh.Term
