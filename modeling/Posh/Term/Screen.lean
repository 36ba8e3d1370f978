import Posh.Lib.Checked
import Posh.Term.Cell

/-!
The screen grid with its scrollback (`screen.rs`).

Rows, columns and counts are natural numbers; a cast to `u16` is `asU16`. Every
index, insertion, removal and subtraction is checked. A `while` loop that adds or
removes one row a pass is a loop over the number of passes.
-/

namespace Posh.Term

open Posh.Lib

/-- `x as u16` -/
def asU16 (x : Nat) : Nat :=
  x % 2 ^ 16

/-- OSC 133 shell-integration mark of a row. -/
inductive SemanticMark where
  | promptStart
  | inputStart
  | outputStart
  | commandEnd
deriving DecidableEq, Repr

structure Row where
  cells : List Cell := []
  /-- Soft-wraps onto the next row. -/
  wrapped : Bool := false
  mark : Option SemanticMark := none
deriving DecidableEq, Repr

namespace Row

def blank (cols : Nat) (style : Style) : Row :=
  { cells := List.replicate cols (Cell.blank style) }

def resizeWidth (cols : Nat) (row : Row) : Row :=
  if cols < row.cells.length then
    let cells := row.cells.take cols
    match cells.getLast? with
    | some last =>
        -- a wide head whose spacer was cut off cannot render
        if last.width = 2 then { row with cells := cells.dropLast ++ [Cell.blank {}] }
        else { row with cells }
    | none => { row with cells }
  else
    { row with
      cells := row.cells ++ List.replicate (cols - row.cells.length) (Cell.blank {}) }

def isDumpSkippable (row : Row) : Bool :=
  row.cells.all Cell.isDumpSkippable

end Row

structure Screen where
  rows : Nat
  cols : Nat
  grid : List Row
  /-- Oldest row first. -/
  scrollback : List Row := []
  maxScrollback : Nat
deriving DecidableEq, Repr

namespace Screen

def new (rows cols maxScrollback : Nat) : Screen :=
  let rows := max rows 1
  let cols := max cols 1
  { rows, cols, grid := List.replicate rows (Row.blank cols {}), maxScrollback }

def cell (row col : Nat) (s : Screen) : Option Cell :=
  s.grid[row]?.bind (·.cells[col]?)

def row (row : Nat) (s : Screen) : Option Row :=
  s.grid[row]?

/-- The rows of the grid, each by its index. -/
def visibleRows (s : Screen) : Checked (List Row) :=
  (List.range s.rows).mapM fun r => unwrap (s.row r)

/-- A write through `row_mut`. -/
def modifyRow (row : Nat) (f : Row → Checked Row) (s : Screen) : Checked Screen := do
  let last ← sub s.grid.length 1
  let old ← getAt s.grid (min row last)
  let new ← f old
  return { s with grid := s.grid.set (min row last) new }

/-- A write through `cell_mut`. -/
def modifyCell (row col : Nat) (f : Cell → Cell) (s : Screen) : Checked Screen :=
  s.modifyRow row fun r => do
    let last ← sub s.cols 1
    let old ← getAt r.cells (min col last)
    return { r with cells := r.cells.set (min col last) (f old) }

def setCell (row col : Nat) (c : Cell) (s : Screen) : Checked Screen :=
  s.modifyCell row col fun _ => c

def setWrapped (row : Nat) (wrapped : Bool) (s : Screen) : Checked Screen :=
  s.modifyRow row fun r => return { r with wrapped }

/-- A row leaving the grid at the top enters the scrollback ring, if it is saved. -/
def pushScrollback (save : Bool) (row : Row) (s : Screen) : Screen :=
  if save ∧ s.maxScrollback > 0 then
    let kept := if s.scrollback.length ≥ s.maxScrollback then s.scrollback.drop 1 else s.scrollback
    { s with scrollback := kept ++ [row] }
  else s

/-- Scrolls rows `top..=bot` up by `n`, with blank rows entering at the bottom. -/
def scrollUp (top bot n : Nat) (save : Bool) (style : Style) (s : Screen) : Checked Screen := do
  let last ← sub s.grid.length 1
  let bot := min bot last
  if top > bot then return s
  forRange 0 (max (min n (bot - top + 1)) 1) s fun _ s => do
    let (row, rest) ← removeAt s.grid top
    let s := { s with grid := rest }.pushScrollback save row
    let grid ← insertAt s.grid bot (Row.blank s.cols style)
    return { s with grid }

/-- Scrolls rows `top..=bot` down by `n`, with blank rows entering at the top. -/
def scrollDown (top bot n : Nat) (style : Style) (s : Screen) : Checked Screen := do
  let last ← sub s.grid.length 1
  let bot := min bot last
  if top > bot then return s
  forRange 0 (max (min n (bot - top + 1)) 1) s fun _ s => do
    let (_, rest) ← removeAt s.grid bot
    let grid ← insertAt rest top (Row.blank s.cols style)
    return { s with grid }

def clearScrollback (s : Screen) : Screen :=
  { s with scrollback := [] }

def clearGrid (style : Style) (s : Screen) : Screen :=
  { s with grid := s.grid.map fun _ => Row.blank s.cols style }

/-! ### Reflow -/

/-- Drops trailing blank rows, as long as more than `old.length - budget` are left. -/
def dropBlankRows : (budget : Nat) → List Row → List Row
  | 0, old => old
  | budget + 1, old =>
      match old.getLast? with
      | some last =>
          if last.isDumpSkippable && !last.wrapped then dropBlankRows budget old.dropLast else old
      | none => old

/-- The rows of each logical line: a row belongs with the next while it soft-wraps. -/
def logicalLines : List Row → List (List Row)
  | [] => []
  | row :: rest =>
      match logicalLines rest with
      | [] => [[row]]
      | line :: lines => if row.wrapped then (row :: line) :: lines else [row] :: line :: lines

def lineCells (line : List Row) : List Cell :=
  line.flatMap (·.cells)

def lineMark (line : List Row) : Option SemanticMark :=
  line.findSome? (·.mark)

/-- Where the cursor stands within the logical line whose first row is row `i`. -/
def lineCursor (cursorAbs cursorCol i : Nat) (line : List Row) : Option Nat :=
  if i ≤ cursorAbs ∧ cursorAbs < i + line.length then
    some ((lineCells (line.take (cursorAbs - i))).length + cursorCol)
  else none

/-- The number of cells up to the last one that shows something. -/
def shownLength (cells : List Cell) : Nat :=
  cells.length - (cells.reverse.takeWhile Cell.isDumpSkippable).length

/-- The line without trailing blanks, but never cut before the cursor's cell. -/
def trimLine (cursorOff : Option Nat) (cells : List Cell) : List Cell :=
  cells.take (max (shownLength cells) (cursorOff.elim 0 (· + 1)))

/-- What rewrapping one line builds: the finished rows, the row being filled and
the cursor's new place once it is known. -/
structure Rewrap where
  newRows : List Row := []
  cur : List Cell := []
  newCursor : Option (Nat × Nat) := none
deriving DecidableEq, Repr

namespace Rewrap

/-- Finishes the current row as soft-wrapped. -/
def flush (st : Rewrap) : Rewrap :=
  { st with newRows := st.newRows ++ [{ cells := st.cur, wrapped := true }], cur := [] }

/-- Finishes a full row when more of the line follows. -/
def flushFull (width : Nat) (more : Bool) (st : Rewrap) : Rewrap :=
  if st.cur.length = width ∧ more then st.flush else st

/-- Pads the current row to its full width. -/
def pad (width : Nat) (st : Rewrap) : Rewrap :=
  { st with cur := st.cur ++ List.replicate (width - st.cur.length) (Cell.blank {}) }

/-- `cur.resize(width, blank)` as the line's last row. -/
def lastRow (width : Nat) (st : Rewrap) : Row :=
  { cells := (st.cur ++ List.replicate (width - st.cur.length) (Cell.blank {})).take width }

def placeCursor (col : Nat) (st : Rewrap) : Rewrap :=
  { st with newCursor := some (st.newRows.length, asU16 col) }

end Rewrap

/-- A spacer of the old line: re-synthesized after its head, so only the cursor
can stand on it. -/
def rewrapSpacer (width : Nat) (cursorOff : Option Nat) (j : Nat) (st : Rewrap) : Checked Rewrap := do
  if cursorOff = some j ∧ st.newCursor.isNone then
    let last ← sub width 1
    return st.placeCursor (min st.cur.length last)
  else return st

/-- A wide character in a grid one column wide: it becomes a blank. -/
def rewrapUnfit (width : Nat) (cursorOff : Option Nat) (j : Nat) (more : Bool) (st : Rewrap) :
    Rewrap :=
  let st :=
    if cursorOff = some j ∨ cursorOff = some (j + 1) then st.placeCursor st.cur.length else st
  { st with cur := st.cur ++ [Cell.blank {}] }.flushFull width more

/-- A character that would straddle the edge leaves padding behind and starts the
next row. -/
def makeRoom (width w : Nat) (st : Rewrap) : Rewrap :=
  if st.cur.length + w > width then (st.pad width).flush else st

/-- The cursor follows the character at index `j` it stands on. -/
def followCursor (cursorOff : Option Nat) (j w : Nat) (st : Rewrap) : Rewrap :=
  match cursorOff with
  | some off =>
      if off = j ∨ w = 2 ∧ off = j + 1 then st.placeCursor (st.cur.length + (off - j)) else st
  | none => st

/-- A character that fits. -/
def rewrapHead (width : Nat) (cursorOff : Option Nat) (j : Nat) (head : Cell) (more : Bool)
    (st : Rewrap) : Rewrap :=
  let w := max head.width 1
  let st := followCursor cursorOff j w (makeRoom width w st)
  { st with cur := st.cur ++ if w = 2 then [head, head.spacer] else [head] }.flushFull width more

/-- The rewrap loop over the cells from index `j` on; `skip` says that the next
cell is a spacer its head has already consumed. -/
def rewrapCells (width : Nat) (cursorOff : Option Nat) :
    List Cell → (j : Nat) → (skip : Bool) → Rewrap → Checked Rewrap
  | [], _, _, st => return st
  | _ :: rest, j, true, st => rewrapCells width cursorOff rest (j + 1) false st
  | cell :: rest, j, false, st =>
      let spacerNext := rest.head?.any (·.width = 0)
      if cell.width = 0 then do
        let st ← rewrapSpacer width cursorOff j st
        rewrapCells width cursorOff rest (j + 1) false st
      else if max cell.width 1 > width then
        let more := !(if spacerNext then rest.drop 1 else rest).isEmpty
        rewrapCells width cursorOff rest (j + 1) spacerNext
          (rewrapUnfit width cursorOff j more st)
      else
        let skip := decide (cell.width = 2) && spacerNext
        let more := !(if skip then rest.drop 1 else rest).isEmpty
        rewrapCells width cursorOff rest (j + 1) skip (rewrapHead width cursorOff j cell more st)

/-- Rewraps one logical line; the rows so far and the cursor go through. -/
def rewrapLine (width cursorAbs cursorCol : Nat) (line : List Row)
    (state : Nat × List Row × Option (Nat × Nat)) :
    Checked (Nat × List Row × Option (Nat × Nat)) := do
  let (i, newRows, newCursor) := state
  let cursorOff := lineCursor cursorAbs cursorCol i line
  let st ← rewrapCells width cursorOff (trimLine cursorOff (lineCells line)) 0 false
    { newRows, newCursor }
  let firstNew := newRows.length
  let rows := st.newRows ++ [st.lastRow width]
  let first ← getAt rows firstNew
  let rows ← setAt rows firstNew { first with mark := lineMark line }
  if cursorOff.isSome ∧ st.newCursor.isNone then
    -- the cursor's cell vanished: park it at the end of the rewrapped line
    let last ← sub rows.length 1
    let lastRow ← getAt rows last
    let edge ← sub width 1
    return (i + line.length, rows, some (last, asU16 (min (shownLength lastRow.cells) edge)))
  else return (i + line.length, rows, st.newCursor)

/-- Rewraps every logical line to `newCols`, keeping the cursor on its cell. -/
def reflowWidth (newCols : Nat) (cursor : Nat × Nat) (s : Screen) : Checked (Screen × (Nat × Nat)) := do
  let cursorAbs := s.scrollback.length + cursor.1
  let old := s.scrollback ++ s.grid
  let old := dropBlankRows (old.length - (cursorAbs + 1)) old
  let (_, newRows, newCursor) ←
    forEach (logicalLines old) (0, [], none) (rewrapLine newCols cursorAbs cursor.2)
  let (curAbs, curCol) := newCursor.getD (0, 0)
  let start := newRows.length - s.rows
  -- keep the cursor on screen even if rows below it overflow
  let newRows := if curAbs < start then newRows.take (curAbs + s.rows) else newRows
  let start := if curAbs < start then curAbs else start
  if start > newRows.length then throw .index
  let grid := newRows.drop start
  let scrollback := newRows.take start
  let grid := grid ++ List.replicate (s.rows - grid.length) (Row.blank newCols {})
  let row ← sub curAbs start
  return ({ s with
      grid, cols := newCols,
      scrollback := scrollback.drop (scrollback.length - s.maxScrollback) },
    (asU16 row, curCol))

/-! ### Resize -/

/-- One pass of the shrinking loop: a blank last row below the cursor goes first,
then the first row, into the scrollback. -/
def shrinkPass (reflow : Bool) (state : Screen × (Nat × Nat)) : Checked (Screen × (Nat × Nat)) := do
  let (s, cursor) := state
  let end_ ← sub s.grid.length 1
  let cursorAtEnd := cursor.1 ≥ end_
  let bottomBlank := (s.grid.getLast?.map Row.isDumpSkippable).getD true
  if bottomBlank ∧ ¬ cursorAtEnd then return ({ s with grid := s.grid.dropLast }, cursor)
  else if reflow then
    let (row, rest) ← removeAt s.grid 0
    return ({ s with grid := rest }.pushScrollback true row, (cursor.1 - 1, cursor.2))
  else return ({ s with grid := s.grid.dropLast }, cursor)

/-- One pass of the growing loop: the newest scrollback row comes back, or a blank
row is added below. -/
def growPass (cols : Nat) (reflow : Bool) (state : Screen × (Nat × Nat)) : Screen × (Nat × Nat) :=
  let (s, cursor) := state
  match if reflow then s.scrollback.getLast? else none with
  | some row =>
      ({ s with grid := row :: s.grid, scrollback := s.scrollback.dropLast },
        (satAdd 16 cursor.1 1, cursor.2))
  | none => ({ s with grid := s.grid ++ [Row.blank cols {}] }, cursor)

/-- The width half of `resize`. -/
def resizeCols (cols : Nat) (reflow : Bool) (cursor : Nat × Nat) (s : Screen) :
    Checked (Screen × (Nat × Nat)) := do
  if cols = s.cols then return (s, cursor)
  let (s, cursor) ←
    (if reflow then s.reflowWidth cols cursor
    else
      pure ({ s with
          grid := s.grid.map (Row.resizeWidth cols),
          scrollback := s.scrollback.map (Row.resizeWidth cols), cols },
        cursor))
  let edge ← sub cols 1
  return (s, (cursor.1, min cursor.2 edge))

def resize (rows cols : Nat) (cursor : Nat × Nat) (reflow : Bool) (s : Screen) :
    Checked (Screen × (Nat × Nat)) := do
  let rows := max rows 1
  let cols := max cols 1
  let state ← s.resizeCols cols reflow cursor
  let state ← forRange 0 (state.1.grid.length - rows) state fun _ => shrinkPass reflow
  let (s, cursor) ← forRange 0 (rows - state.1.grid.length) state fun _ state =>
    return growPass cols reflow state
  let edge ← sub rows 1
  return ({ s with rows }, (min cursor.1 edge, cursor.2))

end Screen

end Posh.Term
