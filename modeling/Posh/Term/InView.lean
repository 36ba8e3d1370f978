import Posh.Term.CursorRow
import Posh.Term.Rows
import Posh.Term.Seating

/-!
The cursor stays on its text across a resize, or loses it.

After the width has changed the cursor is on its character again, at the place where the
character is laid out. The height then pushes its row out of the grid when the grid shows
something as many rows further down as it is to have.
-/

namespace Posh.Term

open Posh.Lib

namespace Screen

variable {s : Screen} {rows cols height row start n link : Nat} {placed : List Placed}
  {full grid : List Row}

/-- The cells of the scrollback and the grid at a width: where they stand, or where they
are laid out. -/
def placedAt (cols : Nat) (s : Screen) : List Placed :=
  if cols = s.cols then standing s.text else laidOut cols s.text

/-- The linked cell is laid out, and nothing that is shown is `rows` or more rows below
it, but for what is a whole screen below. -/
def KeepsInView (link rows cols : Nat) (s : Screen) : Prop :=
  ∃ e ∈ s.placedAt cols, e.cell.hyperlink = link ∧
    ∀ e' ∈ s.placedAt cols, e'.cell.isDumpSkippable = false →
      e'.row < e.row + rows ∨ e.row + s.rows ≤ e'.row

instance : Decidable (s.KeepsInView link rows cols) := by
  unfold KeepsInView
  infer_instance

/-! ### What the rows show -/

/-- The rows show what is placed, with the spacers of wide characters, and blanks. -/
structure Shows (placed : List Placed) (rows : List Row) : Prop where
  there : ∀ e ∈ placed, ∃ r, rows[e.row]? = some r ∧ r.cells[e.col]? = some e.cell
  only : ∀ i r x, rows[i]? = some r → x ∈ r.cells → x = Cell.blank {} ∨
    ∃ e ∈ placed, e.row = i ∧ (x = e.cell ∨ x = e.cell.spacer)

theorem shows_standing (rows : List Row) : Shows (standing rows) rows := by
  constructor
  · exact fun e mem => mem_standing.mp mem
  · intro i r x isRow mem
    obtain ⟨k, isCell⟩ := List.mem_iff_getElem?.mp mem
    exact .inr ⟨⟨i, k, x⟩, mem_standing.mpr ⟨r, isRow, isCell⟩, rfl, .inl rfl⟩

theorem getElem?_above {i : Nat} {r : Row} (isRow : full[i]? = some r) :
    (above full)[i]? = some r.cells := by
  have inside := (List.getElem?_eq_some_iff.mp isRow).1
  unfold above
  rw [List.getElem?_append_left (by rw [List.length_map]; exact inside), List.getElem?_map, isRow]
  rfl

theorem shows_laidOut {old : List Row} (h : Displays (seatRows cols old) (above full)) :
    Shows (laidOut cols old) full := by
  constructor
  · intro e mem
    obtain ⟨inside, glyph⟩ := List.mem_filter.mp mem
    obtain ⟨cells, isRow, isCell⟩ := h.there e inside (of_decide_eq_true glyph)
    unfold above at isRow
    rw [Displays.getElem?_init, List.length_map] at isRow
    split at isRow
    · rw [List.getElem?_map] at isRow
      obtain ⟨r, fullRow, rfl⟩ := Option.map_eq_some_iff.mp isRow
      exact ⟨r, fullRow, isCell⟩
    · split at isRow
      · cases isRow
        cases isCell
      · cases isRow
  · intro i r x isRow mem
    rcases h.only i r.cells x (getElem?_above isRow) mem with blank | ⟨e, inside, row, glyph, shown⟩
    · exact .inl blank
    · exact .inr ⟨e, List.mem_filter.mpr ⟨inside, decide_eq_true glyph⟩, row, shown⟩

/-- A row that shows something shows something that is placed there. -/
theorem Shows.exists_shown (h : Shows placed full) {i : Nat} {r : Row} (isRow : full[i]? = some r)
    (shown : Shown r) : ∃ e ∈ placed, e.row = i ∧ e.cell.isDumpSkippable = false := by
  obtain ⟨x, mem, hard⟩ : ∃ x ∈ r.cells, x.isDumpSkippable = false := by
    have some_ := shown
    unfold Shown Row.isDumpSkippable at some_
    rw [List.all_eq_false] at some_
    obtain ⟨x, mem, hard⟩ := some_
    exact ⟨x, mem, Bool.eq_false_iff.mpr hard⟩
  rcases h.only i r x isRow mem with rfl | ⟨e, inside, row, rfl | rfl⟩
  · cases hard
  · exact ⟨e, inside, row, hard⟩
  · refine ⟨e, inside, row, ?_⟩
    by_contra soft
    have skippable := Bool.not_eq_false _ ▸ soft
    unfold Cell.isDumpSkippable at skippable hard
    simp only [Bool.and_eq_true] at skippable
    have spacer : e.cell.spacer.isBlank = true := rfl
    have style : e.cell.spacer.style = e.cell.style := rfl
    have hyperlink : e.cell.spacer.hyperlink = e.cell.hyperlink := rfl
    rw [spacer, style, hyperlink, skippable.1.2, skippable.2] at hard
    cases hard

theorem Shows.shown (h : Shows placed full) {e : Placed} (mem : e ∈ placed)
    (hard : e.cell.isDumpSkippable = false) : ∃ r, full[e.row]? = some r ∧ Shown r := by
  obtain ⟨r, isRow, isCell⟩ := h.there e mem
  refine ⟨r, isRow, ?_⟩
  unfold Shown Row.isDumpSkippable
  rw [List.all_eq_false]
  exact ⟨e.cell, List.mem_of_getElem? isCell, by rw [hard]; exact Bool.false_ne_true⟩

/-- A linked cell of a row is placed there, or is the spacer of one that is. -/
theorem Shows.linked (h : Shows placed full) (some_ : link ≠ 0) {i : Nat} {r : Row} {x : Cell}
    (isRow : full[i]? = some r) (mem : x ∈ r.cells) (linked : x.hyperlink = link) :
    ∃ e ∈ placed, e.row = i ∧ e.cell.hyperlink = link := by
  rcases h.only i r x isRow mem with rfl | ⟨e, inside, row, rfl | rfl⟩
  · exact absurd linked.symm some_
  · exact ⟨e, inside, row, linked⟩
  · exact ⟨e, inside, row, linked⟩

/-! ### The width -/

/-- The grid is cut from `full` at row `start`, with row `row` in it. -/
structure Cut (cols height row : Nat) (full : List Row) (start n : Nat) (grid : List Row) : Prop where
  low : start ≤ row
  high : row < n
  within : n ≤ full.length
  short : n ≤ start + height
  whole : n = full.length ∨ n = start + height ∧ start = row
  grid : grid = (full.take n).drop start ++
    List.replicate (height - (n - start)) (Row.blank cols {})

theorem Cut.getElem? (h : Cut cols height row full start n grid) {i : Nat} (inside : start + i < n) :
    grid[i]? = full[start + i]? := by
  have within := h.within
  rw [h.grid, List.getElem?_append_left (by rw [List.length_drop, List.length_take]; omega),
    List.getElem?_drop, List.getElem?_take_of_lt inside]

theorem Cut.length (h : Cut cols height row full start n grid) : grid.length = height := by
  have within := h.within
  have short := h.short
  rw [h.grid, List.length_append, List.length_drop, List.length_take, List.length_replicate]
  omega

/-- A row past the cut shows nothing. -/
theorem Cut.blank (h : Cut cols height row full start n grid) {i : Nat} {r : Row}
    (past : n ≤ start + i) (isRow : grid[i]? = some r) : r = Row.blank cols {} := by
  have within := h.within
  rw [h.grid, List.getElem?_append_right (by rw [List.length_drop, List.length_take]; omega)]
    at isRow
  exact List.eq_of_mem_replicate (List.mem_of_getElem? isRow)

theorem Cut.mem (h : Cut cols height row full start n grid) {r : Row} (mem : r ∈ grid) :
    r ∈ full ∨ r = Row.blank cols {} := by
  rw [h.grid] at mem
  rcases List.mem_append.mp mem with old | new
  · exact .inl (List.mem_of_mem_take (List.mem_of_mem_drop old))
  · exact .inr (List.eq_of_mem_replicate new)

/-- What the width half leaves: a grid cut from rows that show what is placed, with the
cursor on its character when that is laid out. -/
structure Reset (s : Screen) (cols : Nat) (c : Cell) (after : Screen × (Nat × Nat)) (full : List Row)
    (start n row : Nat) : Prop where
  cut : Cut cols s.rows row full start n after.1.grid
  shows : Shows (s.placedAt cols) full
  row_eq : after.2.1 = row - start
  scrollback : ∀ r ∈ after.1.scrollback, r ∈ full
  found : cols = s.cols ∨ c.width ≠ 0 ∧ max c.width 1 ≤ cols →
    ∃ e ∈ s.placedAt cols, e.cell = c ∧ e.row = row ∧ e.col = after.2.2

theorem text_row {row : Nat} {r : Row} (isRow : s.grid[row]? = some r) :
    s.text[s.scrollback.length + row]? = some r := by
  unfold text
  rw [List.getElem?_append_right (Nat.le_add_right _ _), Nat.add_sub_cancel_left, isRow]

theorem reflowWidth_reset (h : s.Sized rows cols) {newCols : Nat} (pos : 0 < newCols)
    (newCols_lt : newCols < 2 ^ 16) (other : newCols ≠ s.cols) {cursor : Nat × Nat} {r : Row} {c : Cell}
    (isRow : s.grid[cursor.1]? = some r) (isCell : r.cells[cursor.2]? = some c)
    (hard : c.isDumpSkippable = false) :
    Yields (s.reflowWidth newCols cursor) fun state =>
      ∃ full start n row, Reset s newCols c state full start n row := by
  have rows_eq := h.rows_eq
  have height := h.height
  have rows_lt := h.rows_lt
  have rows_pos := h.rows_pos
  have onScreen := (List.getElem?_eq_some_iff.mp isRow).1
  unfold reflowWidth
  dsimp only
  change Yields (forEach (logicalLines (dropBlankRows (s.text.length - _) s.text)) _ _ >>= _) _
  obtain ⟨cursorAbs, isAbs⟩ : ∃ a, a = s.scrollback.length + cursor.1 := ⟨_, rfl⟩
  have textRow := text_row isRow
  have whole : s.text.length = s.scrollback.length + rows := by
    rw [text, List.length_append, height]
  rw [← isAbs] at textRow ⊢
  obtain ⟨old, blanks, isOld, split, inside, skippable⟩ :=
    dropBlankRows_upTo (show cursorAbs < s.text.length by omega)
  rw [isOld]
  have oldRow : old[cursorAbs]? = some r := by
    rw [← textRow, split, List.getElem?_append_left inside]
  have flatRow : (logicalLines old).flatten[cursorAbs - 0]? = some r := by
    rw [flatten_logicalLines]
    exact oldRow
  refine ((rewrapLines_text cursorAbs cursor.2 pos (logicalLines old) 0 [] none
    (areLines_logicalLines old) Uniform.nil).and (rewrapLines_seated cursorAbs cursor.2 pos
      (logicalLines old) 0 [] none (areLines_logicalLines old) Uniform.nil ?_)).bind ?_
  · intro r' _ isRow'
    rw [flatRow] at isRow'
    cases isRow'
    exact ⟨c, isCell, hard⟩
  rintro ⟨i, full, newCursor⟩ ⟨⟨added, isFull, uniform, -, -, somewhere⟩, displays, found⟩
  dsimp only at isFull somewhere displays found
  rw [List.nil_append] at isFull
  subst isFull
  obtain ⟨curAbs, col, place, within, -⟩ := somewhere (Nat.zero_le _)
    (by rw [flatten_logicalLines, Nat.zero_add]; exact inside) rfl
  rw [List.length_nil, Nat.zero_add] at place
  subst place
  have laid : Displays (seatRows newCols s.text) (above full) := by
    rw [split, seatRows_append _ skippable]
    exact displays [] Displays.nil
  have shows_ : Shows (laidOut newCols s.text) full := shows_laidOut laid
  -- the rows kept, and where the grid starts among them
  obtain ⟨n, isN⟩ : ∃ n, n = if curAbs < full.length - s.rows then curAbs + s.rows else full.length :=
    ⟨_, rfl⟩
  have kept : (if curAbs < full.length - s.rows then full.take (curAbs + s.rows) else full) =
      full.take n := by
    rw [isN]
    split
    · rfl
    · rw [List.take_length]
  obtain ⟨start, isStart⟩ : ∃ start, start =
    (if curAbs < full.length - s.rows then curAbs else full.length - s.rows) := ⟨_, rfl⟩
  simp only [Option.getD_some, kept, ← isStart]
  have bounds : start ≤ curAbs ∧ curAbs < n ∧ n ≤ full.length ∧ n ≤ start + s.rows ∧
      (n = full.length ∨ n = start + s.rows ∧ start = curAbs) := by
    rw [isN, isStart]
    split
    · omega
    · omega
  obtain ⟨low, high, n_le, short, whole_⟩ := bounds
  have taken : (full.take n).length = n := by
    rw [List.length_take]
    omega
  have cut_length : ((full.take n).drop start).length = n - start := by
    rw [List.length_drop, taken]
  rw [if_neg (by omega)]
  refine (Yields.sub low).bind ?_
  rintro row rfl
  have placed_eq : s.placedAt newCols = laidOut newCols s.text := if_neg other
  refine .pure ⟨full, start, n, curAbs, ⟨low, high, n_le, short, whole_, ?_⟩, ?_, ?_, ?_, ?_⟩
  · dsimp only
    rw [cut_length]
  · rw [placed_eq]
    exact shows_
  · exact Nat.mod_eq_of_lt (by omega)
  · intro r' mem
    exact List.mem_of_mem_take (List.mem_of_mem_take (List.mem_of_mem_drop mem))
  · rintro (same | ⟨glyph, fits⟩)
    · exact absurd same other
    · obtain ⟨e, mem, cell, place⟩ := found r c (Nat.zero_le _) flatRow isCell glyph fits
      have inText : e ∈ laidOut newCols s.text := by
        refine List.mem_filter.mpr ⟨?_, decide_eq_true (by rw [cell]; exact glyph)⟩
        rw [split, seatRows_append _ skippable]
        exact mem
      obtain ⟨r', isRow', isCell'⟩ := shows_.there e inText
      have wide : r'.cells.length = newCols := uniform r' (List.mem_of_getElem? isRow')
      have col_lt := (List.getElem?_eq_some_iff.mp isCell').1
      cases place
      refine ⟨e, ?_, cell, rfl, (Nat.mod_eq_of_lt (by omega)).symm⟩
      rw [placed_eq]
      exact inText

/-- The width half of a resize. -/
theorem resizeCols_reset (h : s.Sized rows cols) {newCols : Nat} (pos : 0 < newCols)
    (newCols_lt : newCols < 2 ^ 16) {cursor : Nat × Nat} {r : Row} {c : Cell}
    (isRow : s.grid[cursor.1]? = some r) (isCell : r.cells[cursor.2]? = some c)
    (hard : c.isDumpSkippable = false) :
    Yields (s.resizeCols newCols true cursor) fun state =>
      ∃ full start n row, Reset s newCols c state full start n row := by
  have height := h.height
  have rows_eq := h.rows_eq
  have onScreen := (List.getElem?_eq_some_iff.mp isRow).1
  unfold resizeCols
  split
  · rename_i same
    have placed_eq : s.placedAt newCols = standing s.text := if_pos same
    have length : s.text.length = s.scrollback.length + rows := by
      unfold text
      rw [List.length_append, height]
    refine .pure ⟨s.text, s.scrollback.length, s.text.length, s.scrollback.length + cursor.1,
      ⟨Nat.le_add_right _ _, by omega, Nat.le_refl _, by omega, .inl rfl, ?_⟩, ?_, ?_, ?_, ?_⟩
    · have none : s.rows - (s.text.length - s.scrollback.length) = 0 := by omega
      rw [none, List.take_length, List.replicate_zero, List.append_nil]
      unfold text
      rw [List.drop_left]
    · rw [placed_eq]
      exact shows_standing s.text
    · exact (Nat.add_sub_cancel_left _ _).symm
    · exact fun r' mem => List.mem_append_left _ mem
    · intro _
      refine ⟨⟨s.scrollback.length + cursor.1, cursor.2, c⟩, ?_, rfl, rfl, rfl⟩
      rw [placed_eq]
      exact mem_standing.mpr ⟨r, text_row isRow, isCell⟩
  · rename_i other
    rw [if_pos rfl]
    refine ((reflowWidth_reset h pos newCols_lt other isRow isCell hard).and
      (reflowWidth_yields h pos newCols_lt)).bind ?_
    rintro ⟨s', cursor'⟩ ⟨⟨full, start, n, row, reset⟩, sized⟩
    refine (Yields.sub pos).bind ?_
    rintro edge rfl
    refine .pure ⟨full, start, n, row, reset.cut, reset.shows, reset.row_eq, reset.scrollback, ?_⟩
    intro laid
    obtain ⟨e, mem, cell, row_eq, col⟩ := reset.found laid
    refine ⟨e, mem, cell, row_eq, ?_⟩
    obtain ⟨r', isRow', isCell'⟩ := reset.shows.there e mem
    have low := reset.cut.low
    have high := reset.cut.high
    have isRow'' : s'.grid[e.row - start]? = some r' := by
      rw [reset.cut.getElem? (by omega), Nat.add_sub_cancel' (by omega), isRow']
    have wide : r'.cells.length = newCols := sized.grid r' (List.mem_of_getElem? isRow'')
    have col_lt := (List.getElem?_eq_some_iff.mp isCell').1
    dsimp only at col ⊢
    omega

/-! ### Height and width -/

/-- Of the cells that are placed no other is linked like the only linked one of the text. -/
theorem placedAt_only {c : Cell} (linked : c.hyperlink ≠ 0)
    (only : (lineCells s.text).filter (·.hyperlink = c.hyperlink) = [c]) {e e' : Placed}
    (mem : e ∈ s.placedAt cols) (mem' : e' ∈ s.placedAt cols) (link : e.cell.hyperlink = c.hyperlink)
    (link' : e'.cell.hyperlink = c.hyperlink) : e = e' ∧ e.cell = c := by
  have blank : decide ((Cell.blank {}).hyperlink = c.hyperlink) = false :=
    decide_eq_false (Ne.symm linked)
  have few : List.Sublist (((s.placedAt cols).map Placed.cell).filter (·.hyperlink = c.hyperlink))
      [c] := by
    rw [← only]
    unfold placedAt
    split
    · rw [cells_standing]
    · exact filter_laidOut (fun x => decide (x.hyperlink = c.hyperlink)) blank s.text
  rw [List.filter_map] at few
  have inside : e ∈ (s.placedAt cols).filter fun e => decide (e.cell.hyperlink = c.hyperlink) :=
    List.mem_filter.mpr ⟨mem, decide_eq_true link⟩
  have inside' : e' ∈ (s.placedAt cols).filter fun e => decide (e.cell.hyperlink = c.hyperlink) :=
    List.mem_filter.mpr ⟨mem', decide_eq_true link'⟩
  constructor
  · have single : ((s.placedAt cols).filter fun e =>
        decide (e.cell.hyperlink = c.hyperlink)).length ≤ 1 := by
      have length := few.length_le
      rwa [List.length_map, List.length_singleton] at length
    obtain ⟨i, i_lt, rfl⟩ := List.mem_iff_getElem.mp inside
    obtain ⟨j, j_lt, rfl⟩ := List.mem_iff_getElem.mp inside'
    have first : i = j := by omega
    subst first
    rfl
  · exact List.mem_singleton.mp (few.subset (List.mem_map_of_mem inside))

theorem hard_of_linked {c : Cell} (linked : c.hyperlink ≠ 0) : c.isDumpSkippable = false := by
  unfold Cell.isDumpSkippable
  rw [show (c.hyperlink == 0) = false from beq_false_of_ne linked, Bool.and_false]

/-- A row without linked cells. -/
def Unlinked (link : Nat) (cells : List Cell) : Prop :=
  ∀ x ∈ cells, x.hyperlink ≠ link

theorem unlinked_blanks (some_ : link ≠ 0) (n : Nat) (style : Style) :
    Unlinked link (List.replicate n (Cell.blank style)) := by
  intro x mem
  rw [List.eq_of_mem_replicate mem]
  exact Ne.symm some_

/-- Where the linked cell is not laid out, no row is left with it. -/
theorem Reset.unlinked {c : Cell} {after : Screen × (Nat × Nat)}
    (h : Reset s cols c after full start n row) (some_ : link ≠ 0)
    (lost : ∀ e ∈ s.placedAt cols, e.cell.hyperlink ≠ link) : after.1.Every (Unlinked link) := by
  have rows_ (r : Row) (mem : r ∈ full) : Unlinked link r.cells := by
    intro x inside linked
    obtain ⟨i, isRow⟩ := List.mem_iff_getElem?.mp mem
    obtain ⟨e, mem, -, link_eq⟩ := h.shows.linked some_ isRow inside linked
    exact lost e mem link_eq
  constructor
  · intro r mem
    rcases h.cut.mem mem with old | rfl
    · exact rows_ r old
    · exact unlinked_blanks some_ _ _
  · exact fun r mem => rows_ r (h.scrollback r mem)

/-- Under the cursor after a resize, which clamps it to the grid. -/
def underClamped (rows cols : Nat) (state : Screen × (Nat × Nat)) : Option Cell :=
  state.1.cell (min state.2.1 (rows - 1)) (min state.2.2 (cols - 1))

/-- The linked cell is under the cursor exactly when it is kept in view. -/
theorem resize_follows (h : s.Sized rows cols) {newRows newCols : Nat} (rows_pos : 0 < newRows)
    (cols_pos : 0 < newCols) (newRows_lt : newRows < 2 ^ 16) (newCols_lt : newCols < 2 ^ 16)
    {cursor : Nat × Nat} {r : Row} {c : Cell} (isRow : s.grid[cursor.1]? = some r)
    (isCell : r.cells[cursor.2]? = some c) (linked : c.hyperlink ≠ 0)
    (only : (lineCells s.text).filter (·.hyperlink = c.hyperlink) = [c]) :
    Yields (s.resize newRows newCols cursor true) fun state =>
      (∃ x, underClamped newRows newCols state = some x ∧ x.hyperlink = c.hyperlink) ↔
        s.KeepsInView c.hyperlink newRows newCols := by
  have hard := hard_of_linked linked
  have reset_yields := resizeCols_reset h cols_pos newCols_lt isRow isCell hard
  by_cases laid : newCols = s.cols ∨ c.width ≠ 0 ∧ max c.width 1 ≤ newCols
  · unfold resize
    dsimp only
    rw [Nat.max_eq_left rows_pos, Nat.max_eq_left cols_pos]
    refine (reset_yields.and (resizeCols_yields h cols_pos newCols_lt)).bind ?_
    rintro state ⟨⟨full, start, n, row, reset⟩, sized⟩
    obtain ⟨e, mem, rfl, rfl, col⟩ := reset.found laid
    obtain ⟨r₁, fullRow, fullCell⟩ := reset.shows.there e mem
    obtain ⟨r₂, fullRow', shown⟩ := reset.shows.shown mem hard
    rw [fullRow] at fullRow'
    cases fullRow'
    have low := reset.cut.low
    have high := reset.cut.high
    have short := reset.cut.short
    have gridRow : state.1.grid[state.2.1]? = some r₁ := by
      rw [reset.row_eq, reset.cut.getElem? (by omega), Nat.add_sub_cancel' low, fullRow]
    have col_lt : state.2.2 < newCols := by
      have wide : r₁.cells.length = newCols := sized.grid r₁ (List.mem_of_getElem? gridRow)
      have inside := (List.getElem?_eq_some_iff.mp fullCell).1
      omega
    have under := heights_under newCols gridRow shown rows_pos newRows_lt
    rw [← bind_assoc]
    refine under.bind ?_
    rintro ⟨s', cursor'⟩ after
    refine (Yields.sub rows_pos).bind ?_
    rintro edge rfl
    have inside := after.inside
    have cursor_row : min (min cursor'.1 (newRows - 1)) (newRows - 1) = cursor'.1 := by
      dsimp only at inside
      omega
    have same_col : cursor'.2 = e.col := after.col.trans col.symm
    have cursor_col : min cursor'.2 (newCols - 1) = e.col := by omega
    refine .pure ?_
    unfold underClamped Screen.cell
    dsimp only
    rw [cursor_row, cursor_col]
    constructor
    · rintro ⟨x, isX, link⟩
      refine ⟨e, mem, rfl, ?_⟩
      intro e' mem' hard'
      by_contra far
      obtain ⟨r', isRow', shown'⟩ := reset.shows.shown mem' hard'
      have beyond := (List.getElem?_eq_some_iff.mp isRow').1
      have within : e'.row < n := by
        rcases reset.cut.whole with all | ⟨cut, first⟩ <;> omega
      have pushed : state.1.grid[e'.row - start]? = some r' := by
        rw [reset.cut.getElem? (by omega), Nat.add_sub_cancel' (by omega), isRow']
      obtain ⟨i, further, moved⟩ := after.leaves ⟨e'.row - start, r', by
        rw [reset.row_eq]
        omega, pushed, shown'⟩
      rw [reset.row_eq] at further
      dsimp only at moved
      rw [moved] at isX
      obtain ⟨r'', isRow'', isX⟩ := Option.bind_eq_some_iff.mp isX
      have inRow := List.mem_of_getElem? isX
      by_cases blank : n ≤ start + i
      · rw [reset.cut.blank blank isRow''] at inRow
        exact unlinked_blanks linked _ _ x inRow link
      · rw [reset.cut.getElem? (Nat.not_le.mp blank)] at isRow''
        obtain ⟨e₂, mem₂, row₂, link₂⟩ := reset.shows.linked linked isRow'' inRow link
        obtain ⟨rfl, -⟩ := placedAt_only linked only mem mem₂ rfl link₂
        omega
    · rintro ⟨e₂, mem₂, link₂, near⟩
      obtain ⟨rfl, -⟩ := placedAt_only linked only mem mem₂ rfl link₂
      have kept := after.stays ?_
      · dsimp only at kept
        rw [kept, gridRow]
        exact ⟨e.cell, fullCell, rfl⟩
      · intro i r' far gridRow' shown'
        rw [reset.row_eq] at far
        by_cases blank : n ≤ start + i
        · rw [reset.cut.blank blank gridRow'] at shown'
          have skippable := skippable_blank 1 newCols _ (List.mem_singleton_self _)
          rw [shown'] at skippable
          cases skippable
        · rw [reset.cut.getElem? (Nat.not_le.mp blank)] at gridRow'
          obtain ⟨e', mem', row', hard'⟩ := reset.shows.exists_shown gridRow' shown'
          have placed_near := near e' mem' hard'
          omega
  · have lost : ∀ e ∈ s.placedAt newCols, e.cell.hyperlink ≠ c.hyperlink := by
      intro e mem link
      obtain ⟨-, rfl⟩ := placedAt_only linked only mem mem link link
      by_cases same : newCols = s.cols
      · exact laid (.inl same)
      · have placed_eq : s.placedAt newCols = laidOut newCols s.text := if_neg same
        rw [placed_eq] at mem
        exact laid (.inr (laidOut_fits cols_pos mem))
    have unlinked : Yields (s.resizeCols (max newCols 1) true cursor)
        (·.1.Every (Unlinked c.hyperlink)) := by
      rw [Nat.max_eq_left cols_pos]
      refine reset_yields.mono ?_
      rintro state ⟨full, start, n, row, reset⟩
      exact reset.unlinked linked lost
    have rest : Guarded False (s.resize newRows newCols cursor true)
        (·.1.Every (Unlinked c.hyperlink)) :=
      resize_every (unlinked_blanks linked) (Guarded.of_yields unlinked)
    refine (Guarded.and_yields (resize_yields h newRows_lt newCols_lt) rest).mono ?_
    rintro state ⟨-, every⟩
    constructor
    · rintro ⟨x, isX, link⟩
      obtain ⟨r', isRow', isX⟩ := Option.bind_eq_some_iff.mp isX
      exact absurd link (every.grid r' (List.mem_of_getElem? isRow') x (List.mem_of_getElem? isX))
    · rintro ⟨e, mem, link, -⟩
      exact absurd link (lost e mem)

end Screen

/-! ### The terminal -/

namespace Terminal

variable {t : Terminal} {rows cols : Nat} {c : Cell}

/-- The cell the cursor stands on. -/
def underCursor (t : Terminal) : Option Cell :=
  t.scr.cell t.cursor.row t.cursor.col

theorem resize_follows {K : Parser → GraphicsState → Prop} (h : t.Sound K rows cols)
    (primary : t.altActive = false) (here : t.underCursor = some c) (linked : c.hyperlink ≠ 0)
    (only : (Screen.lineCells t.history).filter (·.hyperlink = c.hyperlink) = [c])
    {newRows newCols : Nat} (rows_pos : 0 < newRows) (cols_pos : 0 < newCols)
    (newRows_lt : newRows < 2 ^ 16) (newCols_lt : newCols < 2 ^ 16) :
    Yields (t.resize newRows newCols) fun t' =>
      (∃ x, t'.underCursor = some x ∧ x.hyperlink = c.hyperlink) ↔
        t.primary.KeepsInView c.hyperlink newRows newCols := by
  have onPrimary : t.primary.cell t.cursor.row t.cursor.col = some c := by
    unfold underCursor scr at here
    rwa [primary] at here
  obtain ⟨r, isRow, isCell⟩ := Option.bind_eq_some_iff.mp onPrimary
  unfold resize
  dsimp only
  rw [Nat.max_eq_left rows_pos, Nat.max_eq_left cols_pos]
  split
  · rename_i same
    refine .ok ⟨fun _ => ?_, fun _ => ⟨c, here, rfl⟩⟩
    have standing_eq : t.primary.placedAt newCols = standing t.primary.text := if_pos same.2
    refine ⟨⟨t.primary.scrollback.length + t.cursor.row, t.cursor.col, c⟩, ?_, rfl, ?_⟩
    · rw [standing_eq]
      exact mem_standing.mpr ⟨r, Screen.text_row isRow, isCell⟩
    · intro e' _ _
      have same_rows : newRows = t.primary.rows := same.1
      dsimp only
      omega
  · have cursor : (if t.altActive = true then (0, 0) else (t.cursor.row, t.cursor.col)) =
        (t.cursor.row, t.cursor.col) := by
      rw [primary]
      rfl
    rw [cursor]
    have follows := Screen.resize_follows h.primary rows_pos cols_pos newRows_lt newCols_lt
      (show t.primary.grid[(t.cursor.row, t.cursor.col).1]? = some r from isRow)
      (show r.cells[(t.cursor.row, t.cursor.col).2]? = some c from isCell) linked only
    refine follows.bind ?_
    rintro ⟨primary', primaryCur⟩ follows
    refine (Screen.resize_yields h.alt newRows_lt newCols_lt).bind ?_
    rintro ⟨alt', altCur⟩ _
    refine (Yields.sub rows_pos).bind ?_
    rintro lastRow rfl
    refine (Yields.sub cols_pos).bind ?_
    rintro lastCol rfl
    refine .pure (Iff.trans ?_ follows)
    unfold underCursor scr
    dsimp only
    rw [primary]
    exact Iff.rfl

/-- A cursor on the only cell with its link is on it after a resize if and only if the
cell is laid out at the new width and nothing shown is too far below it. -/
theorem cursor_follows_iff (h : session.Reachable t) (primary : t.altActive = false)
    (here : t.underCursor = some c) (linked : c.hyperlink ≠ 0)
    (only : (Screen.lineCells t.history).filter (·.hyperlink = c.hyperlink) = [c])
    {newRows newCols : Nat} (rows_pos : 0 < newRows) (cols_pos : 0 < newCols)
    (newRows_lt : newRows < 2 ^ 16) (newCols_lt : newCols < 2 ^ 16) :
    Yields (t.resize newRows newCols) fun t' =>
      (∃ x, t'.underCursor = some x ∧ x.hyperlink = c.hyperlink) ↔
        t.primary.KeepsInView c.hyperlink newRows newCols := by
  obtain ⟨rows, cols, sound⟩ := wellFormed_invariant.reachable h
  exact resize_follows sound primary here linked only rows_pos cols_pos newRows_lt newCols_lt

/-- A linked letter with the cursor on it, and another letter in the row below. -/
def linkedBytes : List UInt8 :=
  [0x1B, 0x5D, 0x38, 0x3B, 0x3B, 0x75, 0x1B, 0x5C, 0x41, 0x1B, 0x5D, 0x38, 0x3B, 0x3B, 0x1B, 0x5C,
    0x0D, 0x0A, 0x42, 0x1B, 0x5B, 0x48]

set_option maxRecDepth 8000 in
/-- In two columns it is kept in view in three rows, and not in one. -/
theorem linkedBytes_reached : ∃ t c, session.Reachable t ∧ t.altActive = false ∧
    t.cursor.pendingWrap = false ∧ t.underCursor = some c ∧ c.isBlank = false ∧ c.hyperlink ≠ 0 ∧
    (Screen.lineCells t.history).filter (·.hyperlink = c.hyperlink) = [c] ∧
    t.primary.KeepsInView c.hyperlink 3 2 ∧ ¬ t.primary.KeepsInView c.hyperlink 1 2 := by
  have fresh : session.Reachable (new 2 2) :=
    .of_init ⟨2, 2, DEFAULT_SCROLLBACK, by decide, by decide, by decide, by decide, rfl⟩
  obtain ⟨t, eq⟩ : ∃ t, (new 2 2).process (fun _ => none) linkedBytes = .ok t := ⟨_, rfl⟩
  have reached : session.Reachable t := fresh.tail ⟨.process (fun _ => none) _, trivial, eq⟩
  cases eq
  exact ⟨_, _, reached, rfl, rfl, rfl, rfl, by decide, rfl, by decide, by decide⟩

theorem cursor_follows_taller : ∃ t c, session.Reachable t ∧ t.underCursor = some c ∧
    Yields (t.resize 3 2) fun t' => ∃ x, t'.underCursor = some x ∧ x.hyperlink = c.hyperlink := by
  obtain ⟨t, c, reached, primary, -, here, -, linked, only, kept, -⟩ := linkedBytes_reached
  refine ⟨t, c, reached, here, ?_⟩
  have follows := cursor_follows_iff reached primary here linked only (show 0 < 3 by decide)
    (show 0 < 2 by decide) (by decide) (by decide)
  exact follows.mono fun _ iff => iff.mpr kept

/-- A grid of one row does not keep the cursor's row when the row below shows something. -/
theorem cursor_loses_text : ¬ ∀ (t : Terminal) (c : Cell) (rows cols : Nat), session.Reachable t →
    t.altActive = false → t.cursor.pendingWrap = false → t.underCursor = some c →
    c.isBlank = false → c.hyperlink ≠ 0 →
    (Screen.lineCells t.history).filter (·.hyperlink = c.hyperlink) = [c] →
    1 ≤ rows → 2 ≤ cols → rows < 2 ^ 16 → cols < 2 ^ 16 →
    Yields (t.resize rows cols) fun t' => ∃ x, t'.underCursor = some x ∧ x.hyperlink = c.hyperlink := by
  intro all
  obtain ⟨t, c, reached, primary, unwrapped, here, some_, linked, only, -, lost⟩ := linkedBytes_reached
  have stays := all t c 1 2 reached primary unwrapped here some_ linked only (by decide) (by decide)
    (by decide) (by decide)
  obtain ⟨_, _, sound⟩ := wellFormed_invariant.reachable reached
  have follows := resize_follows sound primary here linked only (show 0 < 1 by decide)
    (show 0 < 2 by decide) (by decide) (by decide)
  obtain ⟨t', eq, holds⟩ := stays
  exact lost ((follows.of_eq_ok eq).mp holds)

end Terminal

end Posh.Term
