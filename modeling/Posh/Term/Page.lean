import Mathlib.Data.List.DropRight
import Posh.Term.WideCells

/-!
A grid that is written from its first row on.

The rows above the current one are finished, those below are bare, and the current row has
got its first cells. A page keeps the rows that have scrolled off the grid too, so that
writing only ever appends.
-/

namespace Posh.Term

open Posh.Lib

structure Page where
  /-- Finished rows, oldest first. -/
  above : List Row := []
  /-- What the current row has got. -/
  here : List Cell := []
  /-- Its other cells are blanks of this style. -/
  fill : Style := {}
  wrapped : Bool := false
  mark : Option SemanticMark := none
  below : List Row
deriving DecidableEq, Repr

/-- A row that nothing has been written to. -/
structure Row.Bare (cols : Nat) (r : Row) : Prop where
  cells : r.cells = List.replicate cols (Cell.blank {})
  wrapped : r.wrapped = false

/-- The cells of a character: one, and its spacer if it is wide. -/
def Cell.spread (cell : Cell) : List Cell :=
  if cell.width = 2 then [cell, cell.spacer] else [cell]

/-- A cell with one more mark. -/
def Cell.marked (c : Char) (cell : Cell) : Cell :=
  { cell with extra := cell.extra ++ [c] }

namespace Page

variable {rows cols : Nat} {p : Page} {s : Screen}

/-- The current row. -/
def row (cols : Nat) (p : Page) : Row where
  cells := p.here ++ List.replicate (cols - p.here.length) (Cell.blank p.fill)
  wrapped := p.wrapped
  mark := p.mark

/-- The number of rows that have scrolled off. -/
def gone (rows : Nat) (p : Page) : Nat :=
  p.above.length + 1 + p.below.length - rows

def grid (rows cols : Nat) (p : Page) : List Row :=
  p.above.drop (p.gone rows) ++ p.row cols :: p.below

/-- The screen the page is written on. -/
def screen (s : Screen) (p : Page) : Screen :=
  { s with
    grid := p.grid s.rows s.cols
    scrollback := (s.scrollback ++ p.above.take (p.gone s.rows)).rtake s.maxScrollback }

/-- The page in a grid of this size. -/
structure Fits (rows cols : Nat) (p : Page) : Prop where
  above : Uniform cols p.above
  here : p.here.length ≤ cols
  below : ∀ r ∈ p.below, r.Bare cols
  short : p.below.length < rows
  tall : rows ≤ p.above.length + 1 + p.below.length

/-- Other cells in the current row. -/
def write (here : List Cell) (p : Page) : Page :=
  { p with here }

/-- The index of the current row. -/
def index (rows : Nat) (p : Page) : Nat :=
  rows - 1 - p.below.length

namespace Fits

theorem index_lt (h : p.Fits rows cols) : p.index rows < rows := by
  have := h.short
  unfold index
  omega

theorem length_row (h : p.Fits rows cols) : (p.row cols).cells.length = cols := by
  have := h.here
  unfold row
  rw [List.length_append, List.length_replicate]
  omega

theorem gone_le (h : p.Fits rows cols) : p.gone rows ≤ p.above.length := by
  have := h.short
  unfold gone
  omega

/-- The rows of the grid above the current one. -/
theorem length_drop (h : p.Fits rows cols) : (p.above.drop (p.gone rows)).length = p.index rows := by
  have := h.short
  have := h.tall
  rw [List.length_drop]
  unfold gone index
  omega

theorem length_grid (h : p.Fits rows cols) : (p.grid rows cols).length = rows := by
  have := h.short
  unfold grid
  rw [List.length_append, h.length_drop, List.length_cons]
  unfold index
  omega

theorem getElem?_grid (h : p.Fits rows cols) : (p.grid rows cols)[p.index rows]? = some (p.row cols) := by
  unfold grid
  rw [← h.length_drop, List.getElem?_append_right (Nat.le_refl _), Nat.sub_self]
  rfl

theorem bare_uniform (h : p.Fits rows cols) : Uniform cols p.below := by
  intro r mem
  rw [(h.below r mem).cells, List.length_replicate]

theorem sized (h : p.Fits rows cols) (sized : s.Sized rows cols) : (p.screen s).Sized rows cols := by
  obtain rfl := sized.rows_eq
  obtain rfl := sized.cols_eq
  refine ⟨rfl, rfl, sized.rows_pos, sized.cols_pos, sized.rows_lt, sized.cols_lt, h.length_grid,
    ?_, ?_, ?_⟩
  · refine Uniform.append (h.above.of_subset (List.drop_subset _ _)) ?_
    intro r mem
    rcases List.mem_cons.mp mem with rfl | below
    · exact h.length_row
    · exact h.bare_uniform r below
  · have all : Uniform s.cols (s.scrollback ++ p.above.take (p.gone s.rows)) :=
      Uniform.append sized.scrollback (h.above.of_subset (List.take_subset _ _))
    exact all.of_subset (List.drop_subset _ _)
  · unfold Page.screen List.rtake
    dsimp only
    rw [List.length_drop]
    omega

/-- Another version of the current row. -/
theorem modify_grid (h : p.Fits rows cols) (f : Row → Row) :
    (p.grid rows cols).modify (p.index rows) f =
      p.above.drop (p.gone rows) ++ f (p.row cols) :: p.below := by
  unfold grid
  rw [← h.length_drop]
  exact List.modifyTailIdx_add (List.modifyHead f) 0 _ _

theorem withCells (h : p.Fits rows cols) (sized : s.Sized rows cols) (here : List Cell) :
    (p.screen s).withCells (p.index rows) ((p.write here).row cols).cells =
      (p.write here).screen s := by
  obtain rfl := sized.rows_eq
  obtain rfl := sized.cols_eq
  have modified := h.modify_grid fun r => { r with cells := ((p.write here).row s.cols).cells }
  unfold Screen.withCells Page.screen
  dsimp only
  rw [modified]
  rfl

/-- A change of the current row. -/
theorem modifyRow (h : p.Fits rows cols) (sized : s.Sized rows cols) {p' : Page} {f : Row → Row}
    (above : p'.above = p.above) (below : p'.below = p.below)
    (changed : f (p.row cols) = p'.row cols) :
    (p.screen s).modifyRow (p.index rows) (fun r => return f r) = .ok (p'.screen s) := by
  obtain rfl := sized.rows_eq
  obtain rfl := sized.cols_eq
  have height := (h.sized sized).height
  have inside := h.index_lt
  have modified := h.modify_grid f
  have gone : p'.gone s.rows = p.gone s.rows := by
    unfold gone
    rw [above, below]
  have row : Yields ((p.screen s).modifyRow (p.index s.rows) fun r => return f r) fun s' =>
      s' = p'.screen s := by
    refine (Yields.sub (by omega)).bind ?_
    rintro last rfl
    rw [height, Nat.min_eq_left (by omega)]
    refine (Yields.getAt (by omega)).bind ?_
    rintro old ⟨found, _⟩
    refine .pure ?_
    have set_eq : (p.screen s).grid.set (p.index s.rows) (f old) =
        (p.grid s.rows s.cols).modify (p.index s.rows) f := by
      rw [List.modify_eq_set_getElem?]
      change _ = ((fun r => (p.screen s).grid.set _ _) <$> (p.screen s).grid[_]?).getD _
      rw [found]
      rfl
    rw [set_eq, modified, changed]
    unfold screen grid
    rw [gone, above, below]
  obtain ⟨_, eq, rfl⟩ := row
  exact eq

theorem cellsAt (h : p.Fits rows cols) (sized : s.Sized rows cols) :
    (p.screen s).cellsAt (p.index rows) = (p.row cols).cells := by
  obtain rfl := sized.rows_eq
  obtain rfl := sized.cols_eq
  exact Screen.cellsAt_of_getElem? h.getElem?_grid

end Fits

/-! ### Writing -/

/-- The character `cell` is written. -/
def put (cell : Cell) (p : Page) : Page :=
  p.write (p.here ++ cell.spread)

/-- The current row is finished: the next one is bare, or enters the grid with the
background of the pen. -/
def next (cols : Nat) (style : Style) (p : Page) : Page :=
  match p.below with
  | r :: rest => { above := p.above ++ [p.row cols], mark := r.mark, below := rest }
  | [] => { above := p.above ++ [p.row cols], fill := style, below := [] }

theorem here_next (cols : Nat) (style : Style) (p : Page) : (p.next cols style).here = [] := by
  unfold next
  split <;> rfl

/-- The page before the next character: a full row wraps. -/
def wrap (cols : Nat) (style : Style) (p : Page) : Page :=
  if p.here.length = cols then next cols style { p with wrapped := true } else p

theorem length_spread_marked (c : Char) (cell : Cell) : (cell.marked c).spread.length = cell.spread.length := by
  unfold Cell.spread
  change List.length (if cell.width = 2 then _ else _) = _
  split <;> rfl

/-- A mark for the last character. -/
theorem modify_row {before : List Cell} {cell : Cell} (here : p.here = before ++ cell.spread) (c : Char) :
    (p.row cols).cells.modify before.length (Cell.marked c) =
      ((p.write (before ++ (cell.marked c).spread)).row cols).cells := by
  have length : (before ++ (cell.marked c).spread).length = p.here.length := by
    rw [here, List.length_append, List.length_append, length_spread_marked]
  unfold row write
  dsimp only
  rw [length, here, List.append_assoc, List.append_assoc]
  refine Eq.trans (List.modifyTailIdx_add (List.modifyHead (Cell.marked c)) 0 _ _) ?_
  unfold Cell.spread
  change _ = _ ++ ((if cell.width = 2 then _ else _) ++ _)
  split <;> rfl

/-- The last cell of the current row: the spacer of a wide character, else the character. -/
theorem widthAt_last {before : List Cell} {cell : Cell} {w : Nat} (width : cell.width = w)
    (visible : w = 1 ∨ w = 2) (here : p.here = before ++ cell.spread) :
    widthAt (p.row cols).cells (before.length + w - 1) = some (if w = 2 then 0 else 1) := by
  unfold row
  dsimp only
  rw [here, List.append_assoc, Nat.add_sub_assoc (by omega), widthAt_append_right]
  unfold Cell.spread
  rcases visible with rfl | rfl
  · rw [if_neg (by omega)]
    exact congrArg some width
  · rw [if_pos width]
    rfl

/-- The first blank of the current row becomes a cell. -/
theorem set_row (room : p.here.length < cols) (c : Cell) :
    (p.row cols).cells.set p.here.length c = ((p.write (p.here ++ [c])).row cols).cells := by
  have more : cols - p.here.length = cols - (p.here.length + 1) + 1 := by omega
  unfold row write
  dsimp only
  rw [List.set_append_right _ _ (Nat.le_refl _), Nat.sub_self, more, List.replicate_succ,
    List.set_cons_zero, List.length_append, List.length_singleton, List.append_assoc]
  rfl

/-- Its blanks are no halves of wide characters. -/
theorem widthAt_row {i : Nat} (past : p.here.length ≤ i) (inside : i < cols) :
    widthAt (p.row cols).cells i = some 1 := by
  obtain ⟨k, rfl⟩ := Nat.exists_eq_add_of_le past
  unfold row
  dsimp only
  rw [widthAt_append_right, widthAt_replicate, if_pos (by omega)]
  rfl

theorem cleaned_row (style : Style) {w : Nat} (room : p.here.length + w ≤ cols) (pos : p.here.length < cols) :
    cleaned style p.here.length w (p.row cols).cells = (p.row cols).cells := by
  induction w with
  | zero =>
    unfold cleaned cleanedLeft
    rw [widthAt_row (Nat.le_refl _) pos, if_neg (fun cut => by cases cut.1)]
  | succ w ih =>
    unfold cleaned cleanedRight
    rw [ih (by omega), widthAt_row (by omega) (by omega), if_neg (fun cut => by cases cut.1)]

theorem length_spread {cell : Cell} {w : Nat} (width : cell.width = w) (visible : w = 1 ∨ w = 2) :
    cell.spread.length = w := by
  unfold Cell.spread
  rcases visible with rfl | rfl
  · rw [width]
    rfl
  · rw [if_pos width]
    rfl

theorem Fits.write (h : p.Fits rows cols) {here : List Cell} (room : here.length ≤ cols) :
    (p.write here).Fits rows cols :=
  { h with here := room }

theorem length_put {cell : Cell} {w : Nat} (width : cell.width = w) (visible : w = 1 ∨ w = 2) :
    (p.put cell).here.length = p.here.length + w := by
  change (p.here ++ cell.spread).length = _
  rw [List.length_append, length_spread width visible]

theorem Fits.put (h : p.Fits rows cols) {cell : Cell} {w : Nat} (width : cell.width = w)
    (visible : w = 1 ∨ w = 2) (room : p.here.length + w ≤ cols) : (p.put cell).Fits rows cols :=
  h.write (by rw [← length_put width visible] at room; exact room)

theorem Fits.next (h : p.Fits rows cols) (style : Style) : (p.next cols style).Fits rows cols := by
  have finished : Uniform cols (p.above ++ [p.row cols]) :=
    Uniform.append h.above (Uniform.singleton h.length_row)
  have short := h.short
  have tall := h.tall
  have bare := h.below
  unfold Page.next
  split
  · rename_i r rest below
    rw [below, List.length_cons] at short tall
    refine ⟨finished, Nat.zero_le _, ?_, by dsimp only; omega, ?_⟩
    · intro r' mem
      exact bare r' (below ▸ List.mem_cons_of_mem _ mem)
    · rw [List.length_append, List.length_singleton]
      dsimp only
      omega
  · rename_i below
    rw [below, List.length_nil] at short tall
    refine ⟨finished, Nat.zero_le _, nofun, short, ?_⟩
    rw [List.length_append, List.length_singleton, List.length_nil]
    omega

theorem Fits.wrap (h : p.Fits rows cols) (style : Style) : (p.wrap cols style).Fits rows cols := by
  unfold Page.wrap
  split
  · have wrapped : ({ p with wrapped := true } : Page).Fits rows cols := { h with }
    exact wrapped.next style
  · exact h

/-! ### Moving down -/

/-- The next row of the grid is bare already. -/
theorem screen_next_below (h : p.Fits rows cols) (sized : s.Sized rows cols) (inside : p.below ≠ [])
    (style : Style) : (p.next cols style).screen s = p.screen s := by
  obtain rfl := sized.rows_eq
  obtain rfl := sized.cols_eq
  have gone_le := h.gone_le
  unfold next
  split
  · rename_i r rest below
    have bare := h.below r (below ▸ List.mem_cons_self)
    have same : gone s.rows
        { above := p.above ++ [p.row s.cols], mark := r.mark, below := rest } = p.gone s.rows := by
      unfold gone
      rw [below]
      dsimp only
      rw [List.length_append, List.length_singleton, List.length_cons]
      omega
    have row_eq : row s.cols
        { above := p.above ++ [p.row s.cols], mark := r.mark, below := rest } = r := by
      obtain ⟨cells, wrapped, mark⟩ := r
      obtain ⟨rfl, rfl⟩ := bare
      rfl
    unfold screen grid
    rw [same, row_eq, below]
    dsimp only
    rw [List.drop_append_of_le_length gone_le, List.take_append_of_le_length gone_le,
      List.append_assoc]
    rfl
  · rename_i none
    exact absurd none inside

/-- A row pushed into a ring that holds the last rows of a list. -/
theorem rtake_push (rows : List Row) (r : Row) (n : Nat) :
    (if (rows.rtake (n + 1)).length ≥ n + 1 then (rows.rtake (n + 1)).drop 1
      else rows.rtake (n + 1)) ++ [r] = (rows ++ [r]).rtake (n + 1) := by
  rw [List.rtake_concat_succ]
  unfold List.rtake
  rw [List.length_drop]
  split
  · rw [List.drop_drop]
    congr 2
    omega
  · have short : rows.length ≤ n := by omega
    rw [Nat.sub_eq_zero_of_le short, Nat.sub_eq_zero_of_le (by omega)]

theorem pushScrollback_ring {save : Bool} (saved : save = true ∨ s.maxScrollback = 0) {rows : List Row}
    (ring : s.scrollback = rows.rtake s.maxScrollback) (r : Row) :
    s.pushScrollback save r = { s with scrollback := (rows ++ [r]).rtake s.maxScrollback } := by
  unfold Screen.pushScrollback
  cases max : s.maxScrollback with
  | zero =>
    rw [if_neg (fun pushed => by omega), List.rtake_zero]
    rw [max, List.rtake_zero] at ring
    rw [← max, ← ring]
  | succ n =>
    have isSaved : save = true := saved.resolve_right (by omega)
    rw [max] at ring
    rw [if_pos ⟨isSaved, Nat.succ_pos n⟩, ← rtake_push, ← ring]

/-- One row off the grid, and a blank one into it. -/
theorem scrollUp_one (sized : s.Sized rows cols) {r : Row} {rest : List Row}
    (grid : s.grid = r :: rest) (save : Bool) (style : Style) :
    s.scrollUp 0 (rows - 1) 1 save style =
      .ok { s.pushScrollback save r with grid := rest ++ [Row.blank cols style] } := by
  have height := sized.height
  have pos := sized.rows_pos
  have length : rest.length = rows - 1 := by
    rw [grid, List.length_cons] at height
    omega
  have pushed : (Screen.pushScrollback save r { s with grid := rest }).grid = rest :=
    Screen.grid_pushScrollback save r _
  have scrolled : Yields (s.scrollUp 0 (rows - 1) 1 save style) fun s' =>
      s' = { s.pushScrollback save r with grid := rest ++ [Row.blank cols style] } := by
    unfold Screen.scrollUp
    refine (Yields.sub (by omega)).bind ?_
    rintro last rfl
    dsimp only
    rw [if_neg (Nat.not_lt_zero _), height, show max (min 1 (min (rows - 1) (rows - 1) - 0 + 1)) 1 = 1 by omega,
      Nat.min_self]
    change Yields ((removeAt s.grid 0 >>= _) >>= pure) _
    rw [bind_pure, grid]
    change Yields (insertAt (Screen.pushScrollback save r { s with grid := rest }).grid (rows - 1)
      (Row.blank (Screen.pushScrollback save r { s with grid := rest }).cols style) >>= _) _
    rw [Screen.grid_pushScrollback]
    refine (Yields.insertAt (show rows - 1 ≤ rest.length by omega)).bind ?_
    rintro grid' rfl
    refine .pure ?_
    have inserted : rest.insertIdx (rows - 1) (Row.blank cols style) = rest ++ [Row.blank cols style] := by
      rw [← length, List.insertIdx_length_self]
    unfold Screen.pushScrollback
    split
    · dsimp only
      rw [sized.cols_eq, inserted]
    · dsimp only
      rw [sized.cols_eq, inserted]
  obtain ⟨_, eq, rfl⟩ := scrolled
  exact eq

/-- The first row of the grid leaves it for the next one. -/
theorem scrollUp_page (h : p.Fits rows cols) (sized : s.Sized rows cols) (last : p.below = [])
    {save : Bool} (saved : save = true ∨ s.maxScrollback = 0) (style : Style) :
    (p.screen s).scrollUp 0 (rows - 1) 1 save style = .ok ((p.next cols style).screen s) := by
  obtain rfl := sized.rows_eq
  obtain rfl := sized.cols_eq
  have tall := h.tall
  have pos := sized.rows_pos
  rw [last, List.length_nil] at tall
  have gone_eq : p.gone s.rows = p.above.length + 1 - s.rows := by
    unfold gone
    rw [last]
    rfl
  have gone_le := h.gone_le
  have length : (p.above ++ [p.row s.cols]).length = p.above.length + 1 := List.length_append
  have inside : p.gone s.rows < (p.above ++ [p.row s.cols]).length := by omega
  have grid_eq : (p.screen s).grid = (p.above ++ [p.row s.cols])[p.gone s.rows] ::
      (p.above ++ [p.row s.cols]).drop (p.gone s.rows + 1) := by
    rw [List.getElem_cons_drop, List.drop_append_of_le_length gone_le]
    unfold screen grid
    rw [last]
  have next_eq : p.next s.cols style =
      { above := p.above ++ [p.row s.cols], fill := style, below := [] } := by
    unfold next
    rw [last]
  have next_gone : (p.next s.cols style).gone s.rows = p.gone s.rows + 1 := by
    rw [next_eq, gone_eq]
    unfold gone
    dsimp only
    rw [length, List.length_nil]
    omega
  have ring : (p.screen s).scrollback =
      (s.scrollback ++ p.above.take (p.gone s.rows)).rtake (p.screen s).maxScrollback := rfl
  have taken : (p.above ++ [p.row s.cols]).take (p.gone s.rows + 1) =
      p.above.take (p.gone s.rows) ++ [(p.above ++ [p.row s.cols])[p.gone s.rows]] := by
    rw [List.take_succ_eq_append_getElem inside, List.take_append_of_le_length gone_le]
  rw [scrollUp_one (h.sized sized) grid_eq, pushScrollback_ring (s := p.screen s) saved ring,
    List.append_assoc, ← taken]
  unfold screen grid
  rw [next_gone, next_eq]
  rfl

end Page

end Posh.Term
