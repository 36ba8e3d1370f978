import Posh.Remote.Snapshot
import Posh.Term.Dump

/-!
The display renderer (`remote/display.rs`): from the previous snapshot and the next
one, the escape stream that morphs the outer terminal from one to the other.

Rows are painted by a diff of their cells, with the pen, the open link and the cursor
tracked; modes are written where they changed. Positions are `i32` in the source and
stay small; -1 stands for one that is not known.
-/

namespace Posh.Remote.Display

open Posh.Lib Posh.Term

/-! ### The escape-stream builder -/

/-- `link` is the URI of the open hyperlink, empty for none. -/
structure FrameState where
  out : List Char := []
  x : Int := 0
  y : Int := 0
  style : Style := {}
  link : List Char := []
  cursorVisible : Bool
deriving DecidableEq, Repr

namespace FrameState

def append (s : List Char) (frame : FrameState) : FrameState :=
  { frame with out := frame.out ++ s }

def appendN (n : Nat) (ch : Char) (frame : FrameState) : FrameState :=
  frame.append (List.replicate n ch)

def appendCell (cell : Cell) (frame : FrameState) : FrameState :=
  frame.append ((if cell.ch = '\x00' then ' ' else cell.ch) :: cell.extra)

def updateStyle (style : Style) (force : Bool) (frame : FrameState) : FrameState :=
  if force ∨ frame.style ≠ style then
    { frame.append (emitSgr style) with style }
  else frame

def updateLink (uri : List Char) (force : Bool) (frame : FrameState) : FrameState :=
  if force ∨ frame.link ≠ uri then
    { frame.append ("\x1b]8;;".toList ++ uri ++ "\x1b\\".toList) with link := uri }
  else frame

/-- EL and ECH erase only with the default pen and no open link. -/
def canUseErase (frame : FrameState) : Bool :=
  frame.style = {} && frame.link.isEmpty

def appendMove (y x : Int) (frame : FrameState) : FrameState :=
  let lastX := frame.x
  let lastY := frame.y
  let frame := { frame with x, y }
  let known := lastX ≠ -1 ∧ lastY ≠ -1
  if known ∧ x = 0 ∧ y - lastY ≥ 0 ∧ y - lastY < 5 then
    let frame := if lastX ≠ 0 then frame.append ['\r'] else frame
    frame.appendN (y - lastY).toNat '\n'
  else if known ∧ y = lastY ∧ x - lastX < 0 ∧ x - lastX > -5 then
    frame.appendN (lastX - x).toNat '\x08'
  else
    frame.append ("\x1b[".toList ++ Terminal.decimalInt (y + 1) ++ ";".toList ++
      Terminal.decimalInt (x + 1) ++ "H".toList)

/-- Hides the cursor before a jump. -/
def appendSilentMove (y x : Int) (frame : FrameState) : FrameState :=
  if frame.x = x ∧ frame.y = y then frame
  else
    let frame :=
      if frame.cursorVisible then
        { frame.append "\x1b[?25l".toList with cursorVisible := false }
      else frame
    frame.appendMove y x

end FrameState

def cellWidth (cell : Cell) : Nat :=
  max cell.width 1

/-! ### Rows -/

/-- The loop of `put_row`. -/
structure RowState where
  frame : FrameState
  frameX : Nat := 0
  /-- The length of the run of blank cells that is pending. -/
  clearCount : Nat := 0
  wroteLastCell : Bool := false
  blankStyle : Style := {}
  blankLink : Nat := 0
deriving DecidableEq, Repr

namespace RowState

/-- The pen at the start of the pending run. -/
def toRun (f : Snapshot) (y : Nat) (s : RowState) : FrameState :=
  ((s.frame.appendSilentMove y (s.frameX - s.clearCount)).updateStyle s.blankStyle false).updateLink
    (f.linkUri s.blankLink) false

/-- The pending run as spaces. -/
def spaces (frame : FrameState) (s : RowState) : FrameState :=
  { frame.appendN s.clearCount ' ' with x := s.frameX }

/-- A pending run within the row. -/
def flushBlank (f : Snapshot) (y : Nat) (s : RowState) : RowState :=
  let frame := s.toRun f y
  let frame :=
    if frame.canUseErase ∧ s.clearCount > 4 then
      frame.append ("\x1b[".toList ++ decimal s.clearCount ++ "X".toList)
    else s.spaces frame
  { s with frame, clearCount := 0 }

def drawCell (f : Snapshot) (y : Nat) (rowWrap : Bool) (cell : Cell) (s : RowState) :
    Checked RowState := do
  let w := cellWidth cell
  let next ← add 16 s.frameX w
  let frame :=
    if rowWrap ∧ next ≥ f.cols then { s.frame with x := -1, y := -1 } else s.frame
  let frame := frame.appendSilentMove y s.frameX
  let frame := frame.updateStyle cell.style false
  let frame := frame.updateLink (f.linkUri cell.hyperlink) false
  let frame := frame.appendCell cell
  return { s with
    frame := { frame with x := frame.x + w }
    frameX := next
    wroteLastCell := s.wroteLastCell || next ≥ f.cols }

/-- One pass of the loop. -/
def putCell (init : Bool) (f : Snapshot) (y : Nat) (row oldCells : List Cell) (rowWrap : Bool)
    (s : RowState) : Checked RowState := do
  let cell ← getAt row s.frameX
  if init ∧ s.clearCount = 0 ∧ oldCells[s.frameX]? = some cell then
    let next ← add 16 s.frameX (cellWidth cell)
    return { s with frameX := next }
  else if cell.width = 0 then
    let next ← add 16 s.frameX 1
    return { s with frameX := next }
  else
    let s :=
      if cell.isBlank ∧ s.clearCount = 0 then
        { s with blankStyle := cell.style, blankLink := cell.hyperlink }
      else s
    if cell.isBlank ∧ cell.style = s.blankStyle ∧ cell.hyperlink = s.blankLink then
      let next ← add 16 s.frameX 1
      return { s with clearCount := s.clearCount + 1, frameX := next }
    else if s.clearCount > 0 then
      let s := s.flushBlank f y
      -- another blank, in a different style or link, restarts the run
      if cell.isBlank then
        let next ← add 16 s.frameX 1
        return { s with
          blankStyle := cell.style, blankLink := cell.hyperlink, clearCount := 1, frameX := next }
      else s.drawCell f y rowWrap cell
    else s.drawCell f y rowWrap cell

/-- The loop; each pass moves right, so `fuel` passes cover a row of `fuel` columns. -/
def putCells (init : Bool) (f : Snapshot) (y : Nat) (row oldCells : List Cell) (rowWrap : Bool) :
    (fuel : Nat) → RowState → Checked RowState
  | 0, s => .ok s
  | fuel + 1, s =>
      if s.frameX < f.cols then do
        let s ← s.putCell init f y row oldCells rowWrap
        putCells init f y row oldCells rowWrap fuel s
      else .ok s

/-- A run that reaches the end of the line. -/
def clearEnd (f : Snapshot) (y : Nat) (rowWrap : Bool) (s : RowState) : RowState :=
  if s.clearCount > 0 then
    let frame := s.toRun f y
    if frame.canUseErase ∧ ¬ rowWrap then { s with frame := frame.append "\x1b[K".toList }
    else { s with frame := s.spaces frame, wroteLastCell := true }
  else s

end RowState

/-- The first column, which the wrap of the row before has brought the cursor to. -/
def putWrapped (f : Snapshot) (row : List Cell) (frame : FrameState) : Checked RowState := do
  let cell ← getAt row 0
  let frame := frame.updateStyle cell.style false
  let frame := frame.updateLink (f.linkUri cell.hyperlink) false
  let frame := frame.appendCell cell
  let w := cellWidth cell
  return { frame := { frame with x := frame.x + w }, frameX := w }

/-- Diffs one row; true when the cursor was left wrapped onto the next. -/
def putRow (init : Bool) (f : Snapshot) (y : Nat) (oldCells : List Cell) (wrap : Bool)
    (frame : FrameState) : Checked (FrameState × Bool) := do
  let row ← getAt f.cells y
  let rowWrap ← getAt f.wrapped y
  let s ← (if wrap then putWrapped f row frame else pure { frame })
  let s ← s.putCells init f y row oldCells rowWrap f.cols
  let s := s.clearEnd f y rowWrap
  if !(s.wroteLastCell && y + 1 < f.rows) then return (s.frame, false)
  else if rowWrap then return ({ s.frame with x := 0, y := s.frame.y + 1 }, true)
  else return ({ s.frame.append "\r\n".toList with x := 0, y := s.frame.y + 1 }, false)

/-- The rows from `y` on. -/
def putRows (init : Bool) (f : Snapshot) : (y : Nat) → List (List Cell) → (wrap : Bool) →
    FrameState → Checked FrameState
  | _, [], _, frame => .ok frame
  | y, oldCells :: rest, wrap, frame => do
      let (frame, wrap) ← putRow init f y oldCells wrap frame
      putRows init f (y + 1) rest wrap frame

/-! ### The scroll shortcut -/

/-- Row `newY` of the frame is what row `oldY` of the outer terminal shows. -/
def sameRow (last f : Snapshot) (rows : List (List Cell)) (newY oldY : Nat) : Checked Bool := do
  let new ← getAt f.cells newY
  let old ← getAt rows oldY
  if new = old then do
    let wrapped ← getAt f.wrapped newY
    return wrapped == last.wrapped[oldY]?.getD false
  else return false

/-- How far down the match goes on. -/
def matchDown (last f : Snapshot) (rows : List (List Cell)) (linesScrolled : Nat) :
    (heights : List Nat) → (scrollHeight : Nat) → Checked Nat
  | [], scrollHeight => .ok scrollHeight
  | regionHeight :: rest, scrollHeight => do
      let same ← sameRow last f rows regionHeight (linesScrolled + regionHeight)
      if same then matchDown last f rows linesScrolled rest (regionHeight + 1)
      else return scrollHeight

/-- The lines the display has moved up by and the height of what moved, 0 for none. -/
def findScroll (last f : Snapshot) (rows : List (List Cell)) : List Nat → Checked (Nat × Nat)
  | [] => .ok (0, 0)
  | row :: rest => do
      let same ← sameRow last f rows 0 row
      if !same then findScroll last f rows rest
      -- row 0 is where it was
      else if row = 0 then return (0, 0)
      else do
        let scrollHeight ← matchDown last f rows row (List.range' 1 (f.rows - row - 1)) 1
        return (row, scrollHeight)

/-- The scroll of the outer terminal. -/
def scrollFrame (f : Snapshot) (linesScrolled scrollHeight : Nat) (frame : FrameState) :
    FrameState :=
  let frame := (frame.updateStyle {} true).updateLink [] true
  let bottomMargin := linesScrolled + scrollHeight - 1
  if scrollHeight + linesScrolled = f.rows ∧ frame.y + 1 = f.rows then
    { (frame.append ['\r']).appendN linesScrolled '\n' with x := 0 }
  else
    let frame := frame.append ("\x1b[".toList ++ decimal 1 ++ ";".toList ++
      decimal (bottomMargin + 1) ++ "r".toList)
    let frame := { frame with x := -1, y := -1 }
    let frame := (frame.appendSilentMove bottomMargin 0).appendN linesScrolled '\n'
    { frame.append "\x1b[r".toList with x := -1, y := -1 }

/-- The scroll of the rows the outer terminal shows. -/
def scrollRows (linesScrolled bottomMargin : Nat) (blankRow : List Cell) (rows : List (List Cell)) :
    Checked (List (List Cell)) :=
  forRange 0 (bottomMargin + 1) rows fun i rows => do
    let row ← (if i + linesScrolled ≤ bottomMargin then getAt rows (i + linesScrolled)
      else pure blankRow)
    setAt rows i row

/-- The frame, the rows and the first row left to paint. -/
def scrollShortcut (last f : Snapshot) (blankRow : List Cell) (rows : List (List Cell))
    (frame : FrameState) : Checked (FrameState × List (List Cell) × Nat) := do
  let (linesScrolled, scrollHeight) ← findScroll last f rows (List.range f.rows)
  if scrollHeight > 0 then
    let rows ← scrollRows linesScrolled (linesScrolled + scrollHeight - 1) blankRow rows
    return (scrollFrame f linesScrolled scrollHeight frame, rows, asU16 scrollHeight)
  else return (frame, rows, 0)

/-! ### Frames -/

/-- `if flag { set } else { reset }` -/
def setting (flag : Bool) (set reset : String) : List Char :=
  if flag then set.toList else reset.toList

/-- The title, the bell, a copy and reverse video. -/
def frameHeader (init : Bool) (last f : Snapshot) (frame : FrameState) : FrameState :=
  let frame :=
    if !init ∨ f.title ≠ last.title then
      frame.append ("\x1b]0;".toList ++ f.title ++ "\x07".toList)
    else frame
  let frame := if f.bellCount ≠ last.bellCount then frame.append ['\x07'] else frame
  let frame :=
    if f.clipboardSeq ≠ last.clipboardSeq then
      frame.append ("\x1b]52;".toList ++ f.clipboardKinds ++ ";".toList ++
        Base64.encode f.clipboard ++ "\x1b\\".toList)
    else frame
  if !init ∨ f.reverseVideo ≠ last.reverseVideo then
    frame.append (setting f.reverseVideo "\x1b[?5h" "\x1b[?5l")
  else frame

/-- Whether the frame paints over what the outer terminal shows, or over a cleared one. -/
def paintsOver (initialized : Bool) (last f : Snapshot) : Bool :=
  initialized && f.rows == last.rows && f.cols == last.cols

def frameStart (init : Bool) (last : Snapshot) (frame : FrameState) : FrameState :=
  if !init then
    let frame := frame.append "\x1b[r\x1b[0m\x1b[H\x1b[2J".toList
    let frame := { frame with x := 0, y := 0, style := {} }
    { frame.append "\x1b[?25l".toList with cursorVisible := false }
  else { frame with x := last.cursorCol, y := last.cursorRow }

/-- What the outer terminal shows, row by row. -/
def shownRows (init : Bool) (last f : Snapshot) (blankRow : List Cell) : List (List Cell) :=
  (List.range f.rows).map fun y => if init then last.cells[y]?.getD blankRow else blankRow

def paint (init : Bool) (last f : Snapshot) (frame : FrameState) : Checked FrameState := do
  let blankRow := List.replicate f.cols blankCell
  let rows := shownRows init last f blankRow
  let (frame, rows, frameY) ← (if init then scrollShortcut last f blankRow rows frame
    else pure (frame, rows, 0))
  putRows init f frameY (rows.drop frameY) false frame

/-- The cursor's place and visibility, and the pen in its default state. -/
def frameCursor (init : Bool) (f : Snapshot) (frame : FrameState) : FrameState :=
  let frame :=
    if !init ∨ frame.y ≠ f.cursorRow ∨ frame.x ≠ f.cursorCol then
      frame.appendMove f.cursorRow f.cursorCol
    else frame
  let frame :=
    if !init ∨ f.cursorVisible ≠ frame.cursorVisible then
      { frame.append (setting f.cursorVisible "\x1b[?25h" "\x1b[?25l") with
        cursorVisible := f.cursorVisible }
    else frame
  (frame.updateStyle {} (!init)).updateLink [] (!init)

def pasteAndKeys (init : Bool) (last f : Snapshot) : List Char :=
  (if !init ∨ f.bracketedPaste ≠ last.bracketedPaste then
    setting f.bracketedPaste "\x1b[?2004h" "\x1b[?2004l" else []) ++
  (if !init ∨ f.appCursorKeys ≠ last.appCursorKeys then
    setting f.appCursorKeys "\x1b[?1h" "\x1b[?1l" else []) ++
  (if !init ∨ f.appKeypad ≠ last.appKeypad then setting f.appKeypad "\x1b=" "\x1b>" else [])

/-- The frame's own mouse mode is off and the wheel is grabbed. -/
def wantGrab (f : Snapshot) (grab : Bool) : Bool :=
  f.mouseMode == 0 && grab

def mouseModeSync (init : Bool) (last f : Snapshot) (grab : Bool) : List Char :=
  if !init ∨ f.mouseMode ≠ last.mouseMode then
    if f.mouseMode = 0 then
      if wantGrab f grab then "\x1b[?1003l\x1b[?1002l\x1b[?9l\x1b[?1000h\x1b[?1006h".toList
      else "\x1b[?1003l\x1b[?1002l\x1b[?1000l\x1b[?9l".toList
    else
      (if init ∧ last.mouseMode ≠ 0 then
        "\x1b[?".toList ++ decimal last.mouseMode ++ "l".toList else []) ++
      ("\x1b[?".toList ++ decimal f.mouseMode ++ "h".toList)
  else []

def focusAndScroll (init : Bool) (last f : Snapshot) : List Char :=
  (if !init ∨ f.focusReporting ≠ last.focusReporting then
    setting f.focusReporting "\x1b[?1004h" "\x1b[?1004l" else []) ++
  (if !init ∨ f.alternateScroll ≠ last.alternateScroll then
    setting f.alternateScroll "\x1b[?1007h" "\x1b[?1007l" else [])

def mouseEncodingSync (init : Bool) (last f : Snapshot) (grab : Bool) : List Char :=
  if !init ∨ f.mouseEncoding ≠ last.mouseEncoding then
    if f.mouseEncoding = 0 then
      if !wantGrab f grab then "\x1b[?1016l\x1b[?1006l\x1b[?1005l".toList else []
    else
      (if init ∧ last.mouseEncoding ≠ 0 then
        "\x1b[?".toList ++ decimal last.mouseEncoding ++ "l".toList else []) ++
      ("\x1b[?".toList ++ decimal f.mouseEncoding ++ "h".toList)
  else []

/-- The escape stream that morphs a terminal showing `last` into one showing `f`; not
`initialized`, whatever the terminal shows. -/
def newFrame (initialized : Bool) (last f : Snapshot) (grab : Bool) : Checked Bytes := do
  let frame := frameHeader initialized last f { cursorVisible := last.cursorVisible }
  -- a size change forces a full repaint, and all modes after it are written
  let init := paintsOver initialized last f
  let frame ← paint init last f (frameStart init last frame)
  let frame := frameCursor init f frame
  let modes := pasteAndKeys init last f ++ mouseModeSync init last f grab ++
    focusAndScroll init last f ++ mouseEncodingSync init last f grab
  return toUtf8 (frame.out ++ modes)

end Posh.Remote.Display
