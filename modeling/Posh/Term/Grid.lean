import Mathlib.Data.List.InsertIdx
import Posh.Term.Screen

/-!
The shape of a screen: `rows` rows of `cols` cells, a scrollback of rows just as
wide, and never more of them than the cap. Every operation on a screen of some
shape succeeds and leaves a screen of that shape; a resize leaves the new one.
-/

namespace Posh.Term

open Posh.Lib

/-- Every row has exactly `cols` cells. -/
def Uniform (cols : Nat) (rows : List Row) : Prop :=
  ∀ r ∈ rows, r.cells.length = cols

namespace Uniform

variable {cols : Nat} {rows more : List Row} {r : Row}

theorem nil : Uniform cols [] :=
  fun _ h => absurd h List.not_mem_nil

theorem singleton (hr : r.cells.length = cols) : Uniform cols [r] :=
  fun _ h => (List.mem_singleton.mp h) ▸ hr

theorem append (h : Uniform cols rows) (h' : Uniform cols more) : Uniform cols (rows ++ more) :=
  fun r mem => (List.mem_append.mp mem).elim (h r) (h' r)

theorem cons (hr : r.cells.length = cols) (h : Uniform cols rows) : Uniform cols (r :: rows) :=
  (singleton hr).append h

theorem of_subset (h : Uniform cols rows) (sub : more ⊆ rows) : Uniform cols more :=
  fun r mem => h r (sub mem)

theorem set (h : Uniform cols rows) (i : Nat) (hr : r.cells.length = cols) :
    Uniform cols (rows.set i r) := by
  intro r' mem
  rcases List.mem_or_eq_of_mem_set mem with old | rfl
  · exact h r' old
  · exact hr

theorem eraseIdx (h : Uniform cols rows) (i : Nat) : Uniform cols (rows.eraseIdx i) :=
  h.of_subset (List.eraseIdx_subset)

theorem insertIdx (h : Uniform cols rows) (i : Nat) (hr : r.cells.length = cols) :
    Uniform cols (rows.insertIdx i r) := by
  intro r' mem
  by_cases inside : i ≤ rows.length
  · rcases (List.mem_insertIdx inside).mp mem with rfl | old
    · exact hr
    · exact h r' old
  · rw [List.insertIdx_of_length_lt (by omega)] at mem
    exact h r' mem

theorem blank (cols : Nat) (style : Style) : (Row.blank cols style).cells.length = cols :=
  List.length_replicate

theorem replicate (n cols : Nat) (style : Style) :
    Uniform cols (List.replicate n (Row.blank cols style)) :=
  fun _ mem => (List.eq_of_mem_replicate mem) ▸ blank cols style

end Uniform

theorem Row.length_resizeWidth (cols : Nat) (row : Row) :
    (row.resizeWidth cols).cells.length = cols := by
  unfold resizeWidth
  by_cases narrower : cols < row.cells.length
  · rw [if_pos narrower]
    have taken : (row.cells.take cols).length = cols := by
      rw [List.length_take]
      omega
    dsimp only
    split
    · rename_i last isLast
      have some : row.cells.take cols ≠ [] := by
        rintro empty
        rw [empty] at isLast
        cases isLast
      split
      · rw [List.length_append, List.length_dropLast, taken, List.length_singleton]
        have := List.length_pos_iff.mpr some
        omega
      · exact taken
    · exact taken
  · rw [if_neg narrower, List.length_append, List.length_replicate]
    omega

/-- The shape of a screen. -/
structure Screen.Sized (s : Screen) (rows cols : Nat) : Prop where
  rows_eq : s.rows = rows
  cols_eq : s.cols = cols
  rows_pos : 0 < rows
  cols_pos : 0 < cols
  rows_lt : rows < 2 ^ 16
  cols_lt : cols < 2 ^ 16
  height : s.grid.length = rows
  grid : Uniform cols s.grid
  scrollback : Uniform cols s.scrollback
  cap : s.scrollback.length ≤ s.maxScrollback

namespace Screen

variable {s : Screen} {rows cols : Nat}

/-- Replacing the grid by another of the same shape keeps the shape. -/
theorem Sized.withGrid (h : s.Sized rows cols) {grid : List Row} (height : grid.length = rows)
    (uniform : Uniform cols grid) : { s with grid }.Sized rows cols :=
  { h with height := height, grid := uniform }

theorem sized_new {rows cols : Nat} (rows_lt : rows < 2 ^ 16) (cols_lt : cols < 2 ^ 16)
    (maxScrollback : Nat) : (new rows cols maxScrollback).Sized (max rows 1) (max cols 1) where
  rows_eq := rfl
  cols_eq := rfl
  rows_pos := by omega
  cols_pos := by omega
  rows_lt := by omega
  cols_lt := by omega
  height := List.length_replicate
  grid := Uniform.replicate _ _ _
  scrollback := Uniform.nil
  cap := Nat.zero_le _

theorem modifyRow_yields (h : s.Sized rows cols) {row : Nat} {f : Row → Checked Row}
    (keeps : ∀ r : Row, r.cells.length = cols → Yields (f r) fun r' => r'.cells.length = cols) :
    Yields (s.modifyRow row f) (·.Sized rows cols) := by
  have pos := h.rows_pos
  have height := h.height
  unfold modifyRow
  refine (Yields.sub (by omega)).bind ?_
  rintro last rfl
  refine (Yields.getAt (by omega)).bind ?_
  rintro old ⟨_, mem⟩
  refine (keeps old (h.grid old mem)).bind ?_
  intro new width
  exact .pure (h.withGrid (by rw [List.length_set, height]) (h.grid.set _ width))

theorem modifyCell_yields (h : s.Sized rows cols) {row col : Nat} {f : Cell → Cell} :
    Yields (s.modifyCell row col f) (·.Sized rows cols) := by
  have pos := h.cols_pos
  have cols_eq := h.cols_eq
  refine modifyRow_yields h ?_
  intro r width
  refine (Yields.sub (by omega)).bind ?_
  rintro last rfl
  refine (Yields.getAt (by omega)).bind ?_
  rintro old _
  exact .pure (by rw [List.length_set, width])

theorem setCell_yields (h : s.Sized rows cols) {row col : Nat} {c : Cell} :
    Yields (s.setCell row col c) (·.Sized rows cols) :=
  modifyCell_yields h

theorem setWrapped_yields (h : s.Sized rows cols) {row : Nat} {wrapped : Bool} :
    Yields (s.setWrapped row wrapped) (·.Sized rows cols) :=
  modifyRow_yields h fun _ width => .pure width

/-- What the loops that move rows keep between two passes: everything about the
shape but the height of the grid. -/
structure Loose (s : Screen) (rows cols : Nat) : Prop where
  rows_eq : s.rows = rows
  cols_eq : s.cols = cols
  grid : Uniform cols s.grid
  scrollback : Uniform cols s.scrollback
  cap : s.scrollback.length ≤ s.maxScrollback

theorem Sized.loose (h : s.Sized rows cols) : s.Loose rows cols :=
  ⟨h.rows_eq, h.cols_eq, h.grid, h.scrollback, h.cap⟩

theorem Loose.sized (h : s.Loose rows cols) (rows_pos : 0 < rows) (cols_pos : 0 < cols)
    (rows_lt : rows < 2 ^ 16) (cols_lt : cols < 2 ^ 16) (height : s.grid.length = rows) :
    s.Sized rows cols :=
  ⟨h.rows_eq, h.cols_eq, rows_pos, cols_pos, rows_lt, cols_lt, height, h.grid, h.scrollback, h.cap⟩

theorem Loose.withGrid (h : s.Loose rows cols) {grid : List Row} (uniform : Uniform cols grid) :
    { s with grid }.Loose rows cols :=
  { h with grid := uniform }

@[simp] theorem grid_pushScrollback (save : Bool) (row : Row) (s : Screen) :
    (s.pushScrollback save row).grid = s.grid := by
  unfold pushScrollback
  split <;> rfl

/-- A saved row enters the scrollback, which stays within its cap. -/
theorem Loose.pushScrollback (h : s.Loose rows cols) (save : Bool) {row : Row}
    (width : row.cells.length = cols) : (s.pushScrollback save row).Loose rows cols := by
  unfold Screen.pushScrollback
  split
  · have cap := h.cap
    refine ⟨h.rows_eq, h.cols_eq, h.grid, ?_, ?_⟩
    · refine Uniform.append ?_ (Uniform.singleton width)
      split
      · exact h.scrollback.of_subset (List.drop_subset 1 s.scrollback)
      · exact h.scrollback
    · dsimp only
      split
      · rw [List.length_append, List.length_drop, List.length_singleton]
        omega
      · rw [List.length_append, List.length_singleton]
        omega
  · exact h

theorem scrollUp_yields (h : s.Sized rows cols) {top bot n : Nat} {save : Bool} {style : Style} :
    Yields (s.scrollUp top bot n save style) (·.Sized rows cols) := by
  have pos := h.rows_pos
  have height := h.height
  unfold scrollUp
  refine (Yields.sub (by omega)).bind ?_
  rintro last rfl
  dsimp only
  split
  · exact .pure h
  · refine Yields.forRange h ?_
    intro i s _ _ h
    have height := h.height
    refine (Yields.removeAt (by omega)).bind ?_
    rintro ⟨row, rest⟩ ⟨_, mem, rfl⟩
    have length : (s.grid.eraseIdx top).length = rows - 1 := by
      rw [List.length_eraseIdx_of_lt (by omega), height]
    have moved := (h.loose.withGrid (h.grid.eraseIdx top)).pushScrollback save (h.grid row mem)
    have fresh := (Uniform.blank _ style).trans moved.cols_eq
    simp only [grid_pushScrollback]
    refine (Yields.insertAt (by omega)).bind ?_
    rintro grid rfl
    refine .pure ((moved.withGrid ((h.grid.eraseIdx top).insertIdx _ fresh)).sized
      h.rows_pos h.cols_pos h.rows_lt h.cols_lt ?_)
    rw [List.length_insertIdx_of_le_length (by omega), length]
    omega

theorem scrollDown_yields (h : s.Sized rows cols) {top bot n : Nat} {style : Style} :
    Yields (s.scrollDown top bot n style) (·.Sized rows cols) := by
  have pos := h.rows_pos
  have height := h.height
  unfold scrollDown
  refine (Yields.sub (by omega)).bind ?_
  rintro last rfl
  dsimp only
  split
  · exact .pure h
  · refine Yields.forRange h ?_
    intro i s _ _ h
    have height := h.height
    refine (Yields.removeAt (by omega)).bind ?_
    rintro ⟨row, rest⟩ ⟨_, _, rfl⟩
    have length (i : Nat) (inside : i < rows) : (s.grid.eraseIdx i).length = rows - 1 := by
      rw [List.length_eraseIdx_of_lt (by omega), height]
    dsimp only
    refine (Yields.insertAt (by rw [length _ (by omega)]; omega)).bind ?_
    rintro grid rfl
    have fresh := (Uniform.blank _ style).trans h.cols_eq
    refine .pure (h.withGrid ?_ ((h.grid.eraseIdx _).insertIdx _ fresh))
    rw [List.length_insertIdx_of_le_length (by rw [length _ (by omega)]; omega),
      length _ (by omega)]
    omega

theorem clearScrollback_sized (h : s.Sized rows cols) : s.clearScrollback.Sized rows cols :=
  { h with scrollback := Uniform.nil, cap := Nat.zero_le _ }

theorem clearGrid_sized (h : s.Sized rows cols) (style : Style) :
    (s.clearGrid style).Sized rows cols := by
  refine h.withGrid (by rw [List.length_map, h.height]) ?_
  intro r mem
  obtain ⟨_, _, rfl⟩ := List.mem_map.mp mem
  exact (Uniform.blank _ style).trans h.cols_eq

/-! ### Reflow -/

namespace Rewrap

/-- Finished rows are full, the current one has room, and has some to spare when
more cells follow. -/
structure Fits (width : Nat) (more : Bool) (st : Rewrap) : Prop where
  newRows : Uniform width st.newRows
  cur : st.cur.length ≤ width
  room : more = true → st.cur.length < width

variable {width : Nat} {more : Bool} {st : Rewrap}

/-- The last row is filled up with blanks. -/
theorem Fits.lastRow_cells (fits : st.Fits width more) : (st.lastRow width).cells =
    st.cur ++ List.replicate (width - st.cur.length) (Cell.blank {}) := by
  have short := fits.cur
  refine List.take_of_length_le ?_
  rw [List.length_append, List.length_replicate]
  omega

theorem fits_flushFull (pos : 0 < width) (rows : Uniform width st.newRows)
    (cur : st.cur.length ≤ width) : (st.flushFull width more).Fits width more := by
  unfold flushFull
  split
  · rename_i full
    exact ⟨rows.append (Uniform.singleton full.1), Nat.zero_le _, fun _ => pos⟩
  · rename_i unfilled
    refine ⟨rows, cur, ?_⟩
    intro follows
    exact Nat.lt_of_le_of_ne cur fun full => unfilled ⟨full, follows⟩

theorem length_flushFull (width : Nat) (more : Bool) (st : Rewrap) :
    st.newRows.length ≤ (st.flushFull width more).newRows.length := by
  unfold flushFull
  split
  · simp [flush]
  · exact Nat.le_refl _

theorem length_lastRow (cur : st.cur.length ≤ width) :
    (st.lastRow width).cells.length = width := by
  simp only [lastRow, List.length_take, List.length_append, List.length_replicate]
  omega

theorem fits_spacer (h : st.Fits width true) {cursorOff : Option Nat} {j : Nat} :
    Yields (rewrapSpacer width cursorOff j st) fun st' =>
      st'.Fits width true ∧ st'.newRows = st.newRows := by
  have room := h.room rfl
  unfold rewrapSpacer
  split
  · refine (Yields.sub (by omega)).bind ?_
    rintro last rfl
    exact .pure ⟨⟨h.newRows, h.cur, h.room⟩, rfl⟩
  · exact .pure ⟨h, rfl⟩

theorem fits_unfit (h : st.Fits width true) {cursorOff : Option Nat} {j : Nat} :
    (rewrapUnfit width cursorOff j more st).Fits width more ∧
      st.newRows.length ≤ (rewrapUnfit width cursorOff j more st).newRows.length := by
  have room := h.room rfl
  have added (st' : Rewrap) (same : st'.newRows = st.newRows ∧ st'.cur = st.cur) :
      ({ st' with cur := st'.cur ++ [Cell.blank {}] }.flushFull width more).Fits width more ∧
        st.newRows.length ≤
          ({ st' with cur := st'.cur ++ [Cell.blank {}] }.flushFull width more).newRows.length := by
    obtain ⟨rows, cur⟩ := same
    rw [rows, cur]
    refine ⟨fits_flushFull (by omega) h.newRows ?_, length_flushFull width more
      { newRows := st.newRows, cur := st.cur ++ [Cell.blank {}], newCursor := st'.newCursor }⟩
    rw [List.length_append, List.length_singleton]
    exact room
  unfold rewrapUnfit
  dsimp only
  split
  · exact added (st.placeCursor _) ⟨rfl, rfl⟩
  · exact added st ⟨rfl, rfl⟩

theorem fits_makeRoom (h : st.Fits width true) {w : Nat} (fits : w ≤ width) :
    Uniform width (makeRoom width w st).newRows ∧
      (makeRoom width w st).cur.length + w ≤ width ∧
      st.newRows.length ≤ (makeRoom width w st).newRows.length := by
  unfold makeRoom
  split
  · have cur := h.cur
    refine ⟨h.newRows.append (Uniform.singleton ?_), by simpa [flush] using fits,
      by simp [flush, pad]⟩
    simp only [pad, List.length_append, List.length_replicate]
    omega
  · exact ⟨h.newRows, by omega, Nat.le_refl _⟩

theorem followCursor_spec (cursorOff : Option Nat) (j w : Nat) (st : Rewrap) :
    (followCursor cursorOff j w st).newRows = st.newRows ∧
      (followCursor cursorOff j w st).cur = st.cur := by
  unfold followCursor
  split
  · split <;> exact ⟨rfl, rfl⟩
  · exact ⟨rfl, rfl⟩

theorem fits_head (h : st.Fits width true) {cursorOff : Option Nat} {j : Nat} {head : Cell}
    (fits : max head.width 1 ≤ width) :
    (rewrapHead width cursorOff j head more st).Fits width more ∧
      st.newRows.length ≤ (rewrapHead width cursorOff j head more st).newRows.length := by
  obtain ⟨rows, room, le⟩ := fits_makeRoom h fits
  obtain ⟨sameRows, sameCur⟩ := followCursor_spec cursorOff j (max head.width 1)
    (makeRoom width (max head.width 1) st)
  unfold rewrapHead
  dsimp only
  refine ⟨fits_flushFull (by omega) (sameRows ▸ rows) ?_,
    Nat.le_trans (sameRows ▸ le) (length_flushFull _ _ _)⟩
  dsimp only
  rw [List.length_append, sameCur]
  split
  · rw [List.length_cons, List.length_singleton]
    omega
  · rw [List.length_singleton]
    omega

end Rewrap

/-- The cells still to be placed. -/
def leftOver (skip : Bool) (cells : List Cell) : List Cell :=
  if skip then cells.drop 1 else cells

theorem rewrapCells_yields {width : Nat} {cursorOff : Option Nat} (pos : 0 < width) :
    ∀ (cells : List Cell) (j : Nat) (skip : Bool) (st : Rewrap),
      st.Fits width (!(leftOver skip cells).isEmpty) →
      Yields (rewrapCells width cursorOff cells j skip st) fun st' =>
        st'.Fits width false ∧ st.newRows.length ≤ st'.newRows.length
  | [], j, skip, st, h => by
      unfold rewrapCells
      exact .pure ⟨⟨h.newRows, h.cur, nofun⟩, Nat.le_refl _⟩
  | _ :: rest, j, true, st, h => by
      unfold rewrapCells
      exact rewrapCells_yields pos rest (j + 1) false st h
  | cell :: rest, j, false, st, h => by
      have fits : st.Fits width true := h
      unfold rewrapCells
      dsimp only
      split
      · refine (Rewrap.fits_spacer fits).bind ?_
        rintro st' ⟨fits', same⟩
        rw [← same]
        exact rewrapCells_yields pos rest (j + 1) false st'
          ⟨fits'.newRows, fits'.cur, fun _ => fits'.room rfl⟩
      · split
        · obtain ⟨fits', le⟩ := Rewrap.fits_unfit fits
          refine (rewrapCells_yields pos rest (j + 1) _ _ fits').mono ?_
          exact fun st' h => ⟨h.1, Nat.le_trans le h.2⟩
        · rename_i narrow
          obtain ⟨fits', le⟩ := Rewrap.fits_head fits (Nat.not_lt.mp narrow)
          refine (rewrapCells_yields pos rest (j + 1) _ _ fits').mono ?_
          exact fun st' h => ⟨h.1, Nat.le_trans le h.2⟩

theorem rewrapLine_yields {width cursorAbs cursorCol : Nat} {line : List Row}
    {state : Nat × List Row × Option (Nat × Nat)} (pos : 0 < width)
    (uniform : Uniform width state.2.1) :
    Yields (rewrapLine width cursorAbs cursorCol line state) fun state' =>
      Uniform width state'.2.1 := by
  obtain ⟨i, newRows, newCursor⟩ := state
  unfold rewrapLine
  dsimp only
  have fresh (more : Bool) : ({ newRows, newCursor } : Rewrap).Fits width more :=
    ⟨uniform, Nat.zero_le _, fun _ => pos⟩
  refine (rewrapCells_yields pos _ 0 false _ (fresh _)).bind ?_
  rintro st ⟨fits, le⟩
  dsimp only at le ⊢
  have rows := fits.newRows.append (Uniform.singleton (Rewrap.length_lastRow fits.cur))
  have length : (st.newRows ++ [st.lastRow width]).length = st.newRows.length + 1 := by simp
  refine (Yields.getAt (by omega)).bind ?_
  rintro first ⟨_, mem⟩
  refine (Yields.setAt (by omega)).bind ?_
  rintro rows' rfl
  have marked := rows.set newRows.length
    (r := { first with mark := lineMark line }) (rows first mem)
  split
  · refine (Yields.sub (by rw [List.length_set]; omega)).bind ?_
    rintro last rfl
    refine (Yields.getAt (by rw [List.length_set]; omega)).bind ?_
    rintro lastRow _
    refine (Yields.sub pos).bind ?_
    rintro edge rfl
    exact .pure marked
  · exact .pure marked

theorem reflowWidth_yields (h : s.Sized rows cols) {newCols : Nat} (pos : 0 < newCols)
    (newCols_lt : newCols < 2 ^ 16) {cursor : Nat × Nat} :
    Yields (s.reflowWidth newCols cursor) (·.1.Sized rows newCols) := by
  have rows_eq := h.rows_eq
  unfold reflowWidth
  dsimp only
  refine (Yields.forEach (I := fun state => Uniform newCols state.2.1) Uniform.nil
    fun line _ state uniform => rewrapLine_yields pos uniform).bind ?_
  rintro ⟨i, newRows, newCursor⟩ uniform
  obtain ⟨curAbs, curCol⟩ := newCursor.getD (0, 0)
  dsimp only at uniform ⊢
  -- the kept rows, and where the grid starts among them
  obtain ⟨kept, isKept⟩ : ∃ kept, kept =
    (if curAbs < newRows.length - s.rows then newRows.take (curAbs + s.rows) else newRows) := ⟨_, rfl⟩
  obtain ⟨start, isStart⟩ : ∃ start, start =
    (if curAbs < newRows.length - s.rows then curAbs else newRows.length - s.rows) := ⟨_, rfl⟩
  rw [← isKept, ← isStart]
  have subset : kept ⊆ newRows := by
    rw [isKept]
    split
    · exact List.take_subset _ _
    · exact List.Subset.refl _
  have bounds : start ≤ kept.length ∧ kept.length ≤ start + rows ∧ start ≤ curAbs := by
    rw [isKept, isStart]
    split
    · rw [List.length_take]
      omega
    · omega
  rw [if_neg (by omega)]
  refine (Yields.sub bounds.2.2).bind ?_
  rintro row rfl
  refine .pure ⟨rows_eq, rfl, h.rows_pos, pos, h.rows_lt, newCols_lt, ?_, ?_, ?_, ?_⟩
  · simp only [List.length_append, List.length_replicate, List.length_drop]
    omega
  · exact (uniform.of_subset (List.Subset.trans (List.drop_subset _ _) subset)).append
      (Uniform.replicate _ _ _)
  · exact uniform.of_subset (List.Subset.trans (List.drop_subset _ _)
      (List.Subset.trans (List.take_subset _ _) subset))
  · dsimp only
    rw [List.length_drop]
    omega

/-! ### Resize -/

theorem resizeCols_yields (h : s.Sized rows cols) {newCols : Nat} (pos : 0 < newCols)
    (newCols_lt : newCols < 2 ^ 16) {reflow : Bool} {cursor : Nat × Nat} :
    Yields (s.resizeCols newCols reflow cursor) (·.1.Sized rows newCols) := by
  unfold resizeCols
  split
  · rename_i same
    rw [same, h.cols_eq]
    exact .pure h
  · have resized : Yields (if reflow then s.reflowWidth newCols cursor
        else pure ({ s with
            grid := s.grid.map (Row.resizeWidth newCols),
            scrollback := s.scrollback.map (Row.resizeWidth newCols), cols := newCols },
          cursor)) (·.1.Sized rows newCols) := by
      split
      · exact reflowWidth_yields h pos newCols_lt
      · have uniform (rs : List Row) : Uniform newCols (rs.map (Row.resizeWidth newCols)) := by
          intro r mem
          obtain ⟨old, _, rfl⟩ := List.mem_map.mp mem
          exact Row.length_resizeWidth newCols old
        exact .pure ⟨h.rows_eq, rfl, h.rows_pos, pos, h.rows_lt, newCols_lt,
          (List.length_map _).trans h.height, uniform _, uniform _,
          by rw [List.length_map]; exact h.cap⟩
    refine resized.bind ?_
    rintro ⟨s', cursor'⟩ sized
    refine (Yields.sub pos).bind ?_
    rintro edge rfl
    exact .pure sized

theorem shrinkPass_yields {reflow : Bool} {state : Screen × (Nat × Nat)}
    (h : state.1.Loose rows cols) (some : 0 < state.1.grid.length) :
    Yields (shrinkPass reflow state) fun state' =>
      state'.1.Loose rows cols ∧ state'.1.grid.length = state.1.grid.length - 1 := by
  obtain ⟨s, cursor⟩ := state
  have shorter : { s with grid := s.grid.dropLast }.Loose rows cols ∧
      s.grid.dropLast.length = s.grid.length - 1 :=
    ⟨h.withGrid (h.grid.of_subset (List.dropLast_subset _)), List.length_dropLast⟩
  unfold shrinkPass
  refine (Yields.sub some).bind ?_
  rintro last rfl
  dsimp only
  split
  · exact .pure shorter
  · split
    · refine (Yields.removeAt some).bind ?_
      rintro ⟨row, rest⟩ ⟨_, mem, rfl⟩
      refine .pure ⟨(h.withGrid (h.grid.eraseIdx 0)).pushScrollback true (h.grid row mem), ?_⟩
      dsimp only
      rw [grid_pushScrollback, List.length_eraseIdx_of_lt some]
    · exact .pure shorter

theorem growPass_spec {reflow : Bool} {state : Screen × (Nat × Nat)}
    (h : state.1.Loose rows cols) :
    (growPass cols reflow state).1.Loose rows cols ∧
      (growPass cols reflow state).1.grid.length = state.1.grid.length + 1 := by
  obtain ⟨s, cursor⟩ := state
  unfold growPass
  dsimp only
  split
  · rename_i row newest
    have last : s.scrollback.getLast? = some row := by
      cases reflow with
      | true => exact newest
      | false => cases newest
    have mem : row ∈ s.scrollback := List.mem_of_getLast? last
    exact ⟨⟨h.rows_eq, h.cols_eq, h.grid.cons (h.scrollback row mem),
      h.scrollback.of_subset (List.dropLast_subset _),
      Nat.le_trans (by simp) h.cap⟩, rfl⟩
  · exact ⟨h.withGrid (h.grid.append (Uniform.singleton (Uniform.blank cols {}))),
      by simp⟩

theorem resize_yields (h : s.Sized rows cols) {newRows newCols : Nat} (newRows_lt : newRows < 2 ^ 16)
    (newCols_lt : newCols < 2 ^ 16) {cursor : Nat × Nat} {reflow : Bool} :
    Yields (s.resize newRows newCols cursor reflow) fun state =>
      state.1.Sized (max newRows 1) (max newCols 1) := by
  have posRows : 0 < max newRows 1 := by omega
  have posCols : 0 < max newCols 1 := by omega
  unfold resize
  dsimp only
  refine (resizeCols_yields h posCols (by omega)).bind ?_
  intro state sized
  -- the shrinking loop removes what is over, the growing loop adds what is missing
  refine (Yields.forRange_index (I := fun k state' => state'.1.Loose rows (max newCols 1) ∧
    state'.1.grid.length = state.1.grid.length - k) (Nat.zero_le _) ⟨sized.loose, rfl⟩ ?_).bind ?_
  · rintro k state' _ more ⟨loose, height⟩
    refine (shrinkPass_yields loose (by omega)).mono ?_
    rintro state'' ⟨loose', height'⟩
    exact ⟨loose', by omega⟩
  rintro state₁ ⟨loose₁, height₁⟩
  refine (Yields.forRange_index (I := fun k state' => state'.1.Loose rows (max newCols 1) ∧
    state'.1.grid.length = state₁.1.grid.length + k) (Nat.zero_le _) ⟨loose₁, rfl⟩ ?_).bind ?_
  · rintro k state' _ more ⟨loose, height⟩
    obtain ⟨loose', height'⟩ := growPass_spec loose
    exact .pure ⟨loose', by omega⟩
  rintro ⟨s', cursor'⟩ ⟨loose', height'⟩
  refine (Yields.sub (by omega)).bind ?_
  rintro edge rfl
  have height : s'.grid.length = max newRows 1 := by
    dsimp only at height'
    omega
  exact .pure ⟨rfl, loose'.cols_eq, posRows, posCols, by omega, by omega, height, loose'.grid,
    loose'.scrollback, loose'.cap⟩

end Screen

end Posh.Term
