import Posh.Remote.Display
import Posh.Remote.Noticed

/-!
The frame of a picture that has not changed.

A terminal's snapshot has the shape it says it has, and no character reaches past its row.
The renderer walks over such a snapshot, when it is what the tty shows already, without
writing anything.
-/

namespace Posh.Remote

open Posh.Lib Posh.Term

/-! ### Snapshots of a terminal -/

/-- What the renderer asks of a snapshot's cells: the size they are said to have, and that
no character reaches past its row. -/
structure Snapshot.Shaped (s : Snapshot) : Prop where
  height : s.cells.length = s.rows
  width : ∀ row ∈ s.cells, row.length = s.cols
  wrapped : s.wrapped.length = s.rows
  cols_lt : s.cols < 2 ^ 16
  narrow : ∀ row ∈ s.cells, ∀ c ∈ row, c.width ≤ 2
  edge : ∀ row ∈ s.cells, Edge row

theorem fromTerm_shaped {t : Terminal} (kept : Kept t) :
    Yields (Snapshot.fromTerm t) Snapshot.Shaped := by
  obtain ⟨rows, cols, sound⟩ := kept.formed
  have sized := sound.scr
  have narrow : t.scr.Every (Screen.Cells (Cell.Within t.nextHyperlink)) := by
    unfold Terminal.scr
    split
    · exact kept.linked.alt
    · exact kept.linked.primary
  have rows_pos := sized.rows_pos
  have cols_pos := sized.cols_pos
  unfold Snapshot.fromTerm
  rw [Screen.visibleRows_eq (sized.height.trans sized.rows_eq.symm)]
  refine (Yields.sub (by rw [sized.rows_eq]; exact rows_pos)).bind ?_
  rintro lastRow rfl
  refine (Yields.sub (by rw [sized.cols_eq]; exact cols_pos)).bind ?_
  rintro lastCol rfl
  refine .pure ⟨?_, ?_, ?_, ?_, ?_, ?_⟩
  · exact (List.length_map _).trans (sized.height.trans sized.rows_eq.symm)
  · intro row mem
    obtain ⟨r, inside, rfl⟩ := List.mem_map.mp mem
    exact (sized.grid r inside).trans sized.cols_eq.symm
  · exact (List.length_map _).trans (sized.height.trans sized.rows_eq.symm)
  · exact sized.cols_eq ▸ sized.cols_lt
  · intro row mem c inRow
    obtain ⟨r, inside, rfl⟩ := List.mem_map.mp mem
    exact (narrow.grid r inside c inRow).width
  · intro row mem
    obtain ⟨r, inside, rfl⟩ := List.mem_map.mp mem
    exact kept.edged.scr.grid r inside

/-! ### The frame of an unchanged picture -/

namespace Display

variable {s : Snapshot}

/-- The loop over a row that has not changed. -/
structure Skipping (frame : FrameState) (cols : Nat) (st : RowState) : Prop where
  frame : st.frame = frame
  clear : st.clearCount = 0
  wrote : st.wroteLastCell = false
  inside : st.frameX ≤ cols

theorem putCell_skips (shaped : s.Shaped) {frame : FrameState} {y : Nat} {row : List Cell}
    (mem : row ∈ s.cells) {rowWrap : Bool} {st : RowState} (skipping : Skipping frame s.cols st)
    (left : st.frameX < s.cols) :
    Yields (st.putCell true s y row row rowWrap) (Skipping frame s.cols) := by
  have width := shaped.width row mem
  unfold RowState.putCell
  refine (Yields.getAt (by rw [width]; exact left)).bind ?_
  rintro cell ⟨found, inRow⟩
  rw [if_pos ⟨rfl, skipping.clear, found⟩]
  have next : st.frameX + cellWidth cell ≤ s.cols := by
    have narrow := shaped.narrow row mem cell inRow
    unfold cellWidth
    by_cases last : st.frameX + 1 = s.cols
    · have edge : cell.width ≠ 2 := by
        refine shaped.edge row mem cell ?_
        rw [List.getLast?_eq_getElem?, width, ← last]
        exact found
      omega
    · omega
  have cols_lt := shaped.cols_lt
  refine (Yields.add (by omega)).bind ?_
  rintro x rfl
  exact .pure ⟨skipping.frame, skipping.clear, skipping.wrote, next⟩

theorem putCells_skips (shaped : s.Shaped) {frame : FrameState} {y : Nat} {row : List Cell}
    (mem : row ∈ s.cells) {rowWrap : Bool} (fuel : Nat) {st : RowState}
    (skipping : Skipping frame s.cols st) :
    Yields (st.putCells true s y row row rowWrap fuel) (Skipping frame s.cols) := by
  induction fuel generalizing st with
  | zero => exact .ok skipping
  | succ fuel ih =>
    unfold RowState.putCells
    split
    · rename_i left
      exact (putCell_skips shaped mem skipping left).bind fun _ => ih
    · exact .ok skipping

theorem putRow_skips (shaped : s.Shaped) (frame : FrameState) {y : Nat} {row : List Cell}
    (found : s.cells[y]? = some row) : putRow true s y row false frame = .ok (frame, false) := by
  have y_lt : y < s.wrapped.length := by
    rw [shaped.wrapped, ← shaped.height]
    exact (List.getElem?_eq_some_iff.mp found).1
  obtain ⟨rowWrap, wrapped, _⟩ := Yields.getAt y_lt
  obtain ⟨st, put, skipping⟩ : Yields
      (RowState.putCells true s y row row rowWrap s.cols { frame }) (Skipping frame s.cols) :=
    putCells_skips shaped (List.mem_of_getElem? found) s.cols ⟨rfl, rfl, rfl, Nat.zero_le _⟩
  have clear : st.clearEnd s y rowWrap = st := by
    unfold RowState.clearEnd
    rw [skipping.clear]
    rfl
  unfold putRow getAt
  rw [found]
  change (getAt s.wrapped y >>= fun rowWrap => _) = _
  rw [wrapped]
  change (RowState.putCells true s y row row rowWrap s.cols { frame } >>= fun st => _) = _
  rw [put]
  change (if _ then _ else _) = _
  rw [clear, skipping.wrote, skipping.frame]
  rfl

theorem putRows_skips (shaped : s.Shaped) (frame : FrameState) (rest : List (List Cell)) {y : Nat}
    (left : s.cells.drop y = rest) : putRows true s y rest false frame = .ok frame := by
  induction rest generalizing y with
  | nil => rfl
  | cons row rest ih =>
    have found : s.cells[y]? = some row := by
      rw [← List.head?_drop, left]
      rfl
    have later : s.cells.drop (y + 1) = rest := by
      rw [← List.drop_drop, left]
      rfl
    unfold putRows
    rw [putRow_skips shaped frame found]
    exact ih later

/-- No line of an unchanged picture has moved. -/
theorem findScroll_same (shaped : s.Shaped) :
    findScroll s s s.cells (List.range s.rows) = .ok (0, 0) := by
  cases rows : s.rows with
  | zero => rfl
  | succ n =>
    have first : 0 < s.cells.length := by
      rw [shaped.height, rows]
      exact Nat.succ_pos n
    have wrap : 0 < s.wrapped.length := by
      rw [shaped.wrapped, rows]
      exact Nat.succ_pos n
    have same : sameRow s s s.cells 0 0 = .ok true := by
      unfold sameRow
      rw [getAt_eq_ok first, getAt_eq_ok wrap]
      change (if s.cells[0] = s.cells[0] then _ else _) = _
      rw [if_pos rfl]
      simp [wrap]
    rw [List.range_succ_eq_map]
    unfold findScroll
    rw [same]
    rfl

theorem shownRows_same (shaped : s.Shaped) (blankRow : List Cell) :
    shownRows true s s blankRow = s.cells := by
  unfold shownRows
  rw [← shaped.height]
  refine List.ext_getElem (by simp) ?_
  intro i low high
  simp [high]

theorem paint_same (shaped : s.Shaped) (frame : FrameState) : paint true s s frame = .ok frame := by
  unfold paint scrollShortcut
  dsimp only
  rw [shownRows_same shaped, findScroll_same shaped]
  exact putRows_skips shaped frame s.cells List.drop_zero

/-- An unchanged picture is brought to itself by nothing. -/
theorem newFrame_same (shaped : s.Shaped) (grab : Bool) : newFrame true s s grab = .ok [] := by
  have covered : paintsOver true s s = true := by simp [paintsOver]
  have header : frameHeader true s s { cursorVisible := s.cursorVisible } =
      { cursorVisible := s.cursorVisible } := by simp [frameHeader]
  have cursor : frameCursor true s (frameStart true s { cursorVisible := s.cursorVisible }) =
      frameStart true s { cursorVisible := s.cursorVisible } := by
    simp [frameCursor, frameStart, FrameState.updateStyle, FrameState.updateLink]
  have modes : pasteAndKeys true s s ++ mouseModeSync true s s grab ++ focusAndScroll true s s ++
      mouseEncodingSync true s s grab = [] := by
    simp [pasteAndKeys, mouseModeSync, focusAndScroll, mouseEncodingSync]
  unfold newFrame
  dsimp only
  rw [covered, header, paint_same shaped]
  change Except.ok _ = _
  rw [cursor, modes]
  rfl

end Display

end Posh.Remote
