import Posh.Lib.AssocMap
import Posh.Term.Osc

/-!
Snapshots (`remote/display.rs`): a frozen picture of what a terminal shows, onto which
overlays draw before it is rendered.
-/

namespace Posh.Remote

open Posh.Lib Posh.Term

def blankCell : Cell := .blank {}

structure Snapshot where
  rows : Nat
  cols : Nat
  cells : List (List Cell)
  cursorRow : Nat
  cursorCol : Nat
  wrapped : List Bool := []
  cursorVisible : Bool := true
  title : List Char := []
  bellCount : Nat := 0
  clipboardSeq : Nat := 0
  clipboardKinds : List Char := ['c']
  clipboard : Bytes := []
  reverseVideo : Bool := false
  bracketedPaste : Bool := false
  focusReporting : Bool := false
  alternateScroll : Bool := false
  appCursorKeys : Bool := false
  appKeypad : Bool := false
  /-- 0 for off, else the DECSET number. -/
  mouseMode : Nat := 0
  /-- 0 for the default encoding, else the DECSET number. -/
  mouseEncoding : Nat := 0
  /-- The URIs of the links that `cells` carry. -/
  hyperlinks : AssocMap (List Char) := []
deriving DecidableEq, Repr

namespace Snapshot

def blank (rows cols : Nat) : Snapshot :=
  let rows := max rows 1
  let cols := max cols 1
  { rows, cols, cells := List.replicate rows (List.replicate cols blankCell), cursorRow := 0,
    cursorCol := 0, wrapped := List.replicate rows false }

/-- The links of a row that are not in `hyperlinks` yet. -/
def collectLinks (term : Terminal) (hyperlinks : AssocMap (List Char)) (cell : Cell) :
    AssocMap (List Char) :=
  if cell.hyperlink ≠ 0 ∧ (hyperlinks.lookup cell.hyperlink).isNone then
    match term.hyperlinks.lookup cell.hyperlink with
    | some h => hyperlinks.insert cell.hyperlink h.uri
    | none => hyperlinks
  else hyperlinks

def fromTerm (term : Terminal) : Checked Snapshot := do
  let grid ← term.scr.visibleRows
  let lastRow ← sub term.scr.rows 1
  let lastCol ← sub term.scr.cols 1
  return {
    rows := term.scr.rows
    cols := term.scr.cols
    cells := grid.map Row.cells
    wrapped := grid.map Row.wrapped
    cursorRow := min term.cursor.row lastRow
    cursorCol := min term.cursor.col lastCol
    cursorVisible := term.modes.cursorVisible
    title := term.title
    bellCount := term.bellCount
    clipboardSeq := term.clipboardSeq
    clipboardKinds := term.clipboardKinds
    clipboard := term.selection (term.clipboardKinds.head?.getD 'c')
    reverseVideo := term.modes.reverseVideo
    bracketedPaste := term.modes.bracketedPaste
    focusReporting := term.modes.focusReporting
    alternateScroll := term.modes.alternateScroll
    appCursorKeys := term.modes.cursorKeys
    appKeypad := term.modes.keypadApp
    mouseMode := term.modes.mouseMode.decset.getD 0
    mouseEncoding := term.modes.mouseProtocol.decset.getD 0
    hyperlinks := (grid.flatMap Row.cells).foldl (collectLinks term) [] }

def cell (row col : Nat) (fb : Snapshot) : Option Cell :=
  fb.cells[row]?.bind (·[col]?)

/-- `if let Some(cell) = fb.cell_mut(row, col) { *cell = f(cell) }` -/
def modifyCell (row col : Nat) (f : Cell → Cell) (fb : Snapshot) : Snapshot :=
  { fb with cells := fb.cells.modify row (·.modify col f) }

/-- The URI of a link, empty for none. -/
def linkUri (id : Nat) (s : Snapshot) : List Char :=
  if id = 0 then [] else (s.hyperlinks.lookup id).getD []

end Snapshot

end Posh.Remote
