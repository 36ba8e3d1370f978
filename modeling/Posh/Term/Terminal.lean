import Posh.Term.Graphics
import Posh.Term.KittyStack
import Posh.Term.Modes
import Posh.Term.Parser
import Posh.Term.Screen
import Posh.Term.Wcwidth

/-!
The terminal (`terminal.rs`): its state, printing, the control characters, the
escape sequences, the resets and the resize.

Columns, rows and their sums are checked as `u16`; the counters of type `u64`
(`generation`, `bellCount`, `clipboardSeq`) are natural numbers. A method that
changes the terminal takes it last and returns the changed one.
-/

namespace Posh.Term

open Posh.Lib

inductive CursorShape where
  | block
  | underline
  | bar
deriving DecidableEq, Repr

/-- Public cursor snapshot. -/
structure Cursor where
  row : Nat
  col : Nat
  visible : Bool
  shape : CursorShape
deriving DecidableEq, Repr

/-- G0/G1 designated character set. -/
inductive Charset where
  | ascii
  | decSpecial
  | uk
deriving DecidableEq, Repr

structure CursorState where
  row : Nat := 0
  col : Nat := 0
  pendingWrap : Bool := false
  style : Style := {}
  hyperlink : Nat := 0
  g0 : Charset := .ascii
  g1 : Charset := .ascii
  /-- 0 = G0 active, 1 = G1 active. -/
  shift : Nat := 0
deriving DecidableEq, Repr

/-- One XTPUSHCOLORS entry. -/
structure ColorStackEntry where
  palette : List Rgb
  fg : Option Rgb
  bg : Option Rgb
  cursor : Option Rgb
deriving DecidableEq, Repr

structure SavedCursor where
  cursor : CursorState := {}
  origin : Bool := false
deriving DecidableEq, Repr

structure Hyperlink where
  id : List Char
  uri : List Char
deriving DecidableEq, Repr

/-- A just-processed control that changes which screen the byte stream draws on. -/
inductive ScreenSwitch where
  | alt
  | reset
deriving DecidableEq, Repr

structure Terminal where
  parser : Parser := {}
  primary : Screen
  alt : Screen
  altActive : Bool := false
  cursor : CursorState := {}
  savedPrimary : SavedCursor := {}
  savedAlt : SavedCursor := {}
  modes : Modes := {}
  /-- Scroll region, 0-based inclusive. -/
  scrollTop : Nat := 0
  scrollBot : Nat
  tabs : List Bool
  title : List Char := []
  iconTitle : List Char := []
  generation : Nat := 0
  responses : Bytes := []
  bellCount : Nat := 0
  pwd : List Char := []
  palette : List Rgb := defaultPalette
  fgColor : Option Rgb := none
  bgColor : Option Rgb := none
  cursorColor : Option Rgb := none
  clipboard : Bytes := []
  clipboardSeq : Nat := 0
  clipboardKinds : List Char := ['c']
  primarySelection : Bytes := []
  selectSelection : Bytes := []
  colorStack : List ColorStackEntry := []
  lastTextSize : Option (List Char) := none
  hyperlinks : AssocMap Hyperlink := []
  nextHyperlink : Nat := 0
  cursorStyleRaw : Nat := 0
  kittyPrimary : KittyKeyStack := {}
  kittyAlt : KittyKeyStack := {}
  graphics : GraphicsState := {}
  lastNotification : Option (List Char) := none
  pointerShape : List Char := []
  lastPrinted : Option Char := none
  screenSwitch : Option ScreenSwitch := none

def defaultTabs (cols : Nat) : List Bool :=
  (List.range cols).map (· % 8 = 0)

def charsetFor (f : UInt8) : Charset :=
  if f.toNat = '0'.toNat then .decSpecial
  else if f.toNat = 'A'.toNat then .uk
  else .ascii

/-- `n` in hexadecimal, padded with zeros to `width` digits. -/
def hexPadded (width n : Nat) : List Char :=
  let digits := Nat.toDigits 16 n
  List.replicate (width - digits.length) '0' ++ digits

/-- DEC Special Graphics, `ESC ( 0`. -/
def decSpecial (c : Char) : Char :=
  match c with
  | '\x60' => '◆'
  | 'a' => '▒'
  | 'b' => '␉'
  | 'c' => '␌'
  | 'd' => '␍'
  | 'e' => '␊'
  | 'f' => '°'
  | 'g' => '±'
  | 'h' => '␤'
  | 'i' => '␋'
  | 'j' => '┘'
  | 'k' => '┐'
  | 'l' => '┌'
  | 'm' => '└'
  | 'n' => '┼'
  | 'o' => '⎺'
  | 'p' => '⎻'
  | 'q' => '─'
  | 'r' => '⎼'
  | 's' => '⎽'
  | 't' => '├'
  | 'u' => '┤'
  | 'v' => '┴'
  | 'w' => '┬'
  | 'x' => '│'
  | 'y' => '≤'
  | 'z' => '≥'
  | '\x7b' => 'π'
  | '|' => '≠'
  | '\x7d' => '£'
  | '~' => '·'
  | '_' => ' '
  | _ => c

namespace Terminal

/-- A cap on the rows of scrollback of a terminal that is given none. -/
def DEFAULT_SCROLLBACK : Nat := 10000

def withScrollback (rows cols scrollback : Nat) : Terminal :=
  let rows := max rows 1
  let cols := max cols 1
  { primary := Screen.new rows cols scrollback, alt := Screen.new rows cols 0,
    scrollBot := rows - 1, tabs := defaultTabs cols }

def new (rows cols : Nat) : Terminal :=
  withScrollback rows cols DEFAULT_SCROLLBACK

/-! ### Screen plumbing -/

def rows (t : Terminal) : Nat :=
  t.primary.rows

def cols (t : Terminal) : Nat :=
  t.primary.cols

/-- The active screen. -/
def scr (t : Terminal) : Screen :=
  if t.altActive then t.alt else t.primary

/-- A change of the active screen, through `scr_mut`. -/
def modifyScr (f : Screen → Checked Screen) (t : Terminal) : Checked Terminal := do
  let s ← f t.scr
  return if t.altActive then { t with alt := s } else { t with primary := s }

/-- Erase style: background-color-erase keeps the pen's background. -/
def blankStyle (t : Terminal) : Style :=
  { bg := t.cursor.style.bg }

def touch (t : Terminal) : Terminal :=
  { t with generation := t.generation + 1 }

def respond (s : List Char) (t : Terminal) : Terminal :=
  { t with responses := t.responses ++ toUtf8 s }

/-- The scroll region clamped to the current grid. -/
def region (t : Terminal) : Checked (Nat × Nat) := do
  let last ← sub t.rows 1
  return (min t.scrollTop last, min t.scrollBot last)

def lastRow (t : Terminal) : Checked Nat :=
  sub t.rows 1

def lastCol (t : Terminal) : Checked Nat :=
  sub t.cols 1

/-! ### Moving down and up -/

def scrollUpN (n : Nat) (t : Terminal) : Checked Terminal := do
  let (top, bot) ← t.region
  let last ← t.lastRow
  let save := !t.altActive && top == 0 && bot == last
  let t ← t.modifyScr (·.scrollUp top bot n save t.blankStyle)
  return t.touch

def scrollDownN (n : Nat) (t : Terminal) : Checked Terminal := do
  let (top, bot) ← t.region
  let t ← t.modifyScr (·.scrollDown top bot n t.blankStyle)
  return t.touch

/-- IND: down one line, scrolling at the bottom margin. -/
def index (t : Terminal) : Checked Terminal := do
  let t := { t with cursor.pendingWrap := false }
  let (_, bot) ← t.region
  if t.cursor.row = bot then
    let t ← t.scrollUpN 1
    return t.touch
  else
    let below ← add 16 t.cursor.row 1
    return (if below < t.rows then { t with cursor.row := below } else t).touch

/-- RI: up one line, scrolling at the top margin. -/
def reverseIndex (t : Terminal) : Checked Terminal := do
  let t := { t with cursor.pendingWrap := false }
  let (top, _) ← t.region
  if t.cursor.row = top then
    let t ← t.scrollDownN 1
    return t.touch
  else return { t with cursor.row := t.cursor.row - 1 }.touch

def linefeed (t : Terminal) : Checked Terminal := do
  let t ← t.index
  return if t.modes.lnm then { t with cursor.col := 0 } else t

/-- The next tab stop right of `col`, or the last column; `fuel` bounds the columns
passed. -/
def nextTab (tabs : List Bool) (cols : Nat) : (fuel col : Nat) → Checked Nat
  | 0, col => return col
  | fuel + 1, col => do
      let next ← add 16 col 1
      if next < cols then
        if tabs.getD next false then return next else nextTab tabs cols fuel next
      else return col

/-- The next tab stop left of `col`, or column 0. -/
def prevTab (tabs : List Bool) : (col : Nat) → Nat
  | 0 => 0
  | col + 1 => if tabs.getD col false then col else prevTab tabs col

def horizontalTab (t : Terminal) : Checked Terminal := do
  let col ← nextTab t.tabs t.cols t.cols t.cursor.col
  return { t with cursor.col := col, cursor.pendingWrap := false }.touch

def backTab (t : Terminal) : Terminal :=
  { t with cursor.col := prevTab t.tabs t.cursor.col, cursor.pendingWrap := false }.touch

/-- A tab stop at the cursor, set or removed. -/
def setTab (on : Bool) (t : Terminal) : Terminal :=
  { t with tabs := t.tabs.set t.cursor.col on }

def execute (b : UInt8) (t : Terminal) : Checked Terminal :=
  match b.toNat with
  | 0x07 => .ok { t with bellCount := t.bellCount + 1 }.touch
  | 0x08 => .ok { t with cursor.col := t.cursor.col - 1, cursor.pendingWrap := false }.touch
  | 0x09 => t.horizontalTab
  | 0x0A | 0x0B | 0x0C => t.linefeed
  | 0x0D => .ok { t with cursor.col := 0, cursor.pendingWrap := false }.touch
  | 0x0E => .ok { t with cursor.shift := 1 }
  | 0x0F => .ok { t with cursor.shift := 0 }
  | 0x84 => t.index
  | 0x85 => { t with cursor.col := 0 }.index
  | 0x88 => .ok (t.setTab true)
  | 0x8D => t.reverseIndex
  | _ => .ok t

/-! ### Printing -/

def mapCharset (c : Char) (t : Terminal) : Char :=
  match if t.cursor.shift = 1 then t.cursor.g1 else t.cursor.g0 with
  | .ascii => c
  | .uk => if c = '#' then '£' else c
  | .decSpecial => decSpecial c

def cellWidth (row col : Nat) (t : Terminal) : Option Nat :=
  (t.scr.cell row col).map (·.width)

/-- Attaches a zero-width character to the previously printed cell. -/
def combine (c : Char) (t : Terminal) : Checked Terminal :=
  if !t.cursor.pendingWrap && t.cursor.col == 0 then .ok t
  else do
    let row := t.cursor.row
    let col := if t.cursor.pendingWrap then t.cursor.col else t.cursor.col - 1
    -- from a wide spacer back to its head
    let col := if t.cellWidth row col = some 0 ∧ col > 0 then col - 1 else col
    let t ← t.modifyScr (·.modifyCell row col fun cell => { cell with extra := cell.extra ++ [c] })
    return t.touch

/-- Marks the cursor's row as soft-wrapped and goes on at the start of the next. -/
def wrapLine (t : Terminal) : Checked Terminal := do
  let t ← t.modifyScr (·.setWrapped t.cursor.row true)
  { t with cursor.col := 0 }.index

/-- The wrap that a print at the last column left pending. -/
def wrapPending (t : Terminal) : Checked Terminal :=
  if t.cursor.pendingWrap then
    let t := { t with cursor.pendingWrap := false }
    if t.modes.autowrap then t.wrapLine else .ok t
  else .ok t

/-- Makes a character of width `w` fit: a wide one that would straddle the edge
blanks the last cell and wraps, or backs up when autowrap is off. `none` if there
is no room at all. -/
def fitWide (w : Nat) (t : Terminal) : Checked (Option Terminal) := do
  let next ← (if w = 2 then add 16 t.cursor.col 1 else pure 0)
  if w = 2 ∧ next ≥ t.cols then
    if t.modes.autowrap then
      let t ← t.modifyScr (·.setCell t.cursor.row t.cursor.col (Cell.blank t.blankStyle))
      let t ← t.wrapLine
      return some t
    else if t.cols ≥ 2 then
      let col ← sub t.cols 2
      return some { t with cursor.col := col }
    else return none
  else return some t

/-- Blanks the orphaned half of a wide character at one column. -/
def repairCell (row : Nat) (style : Style) (c : Nat) (t : Terminal) : Checked Terminal := do
  let orphaned ← (match (t.cellWidth row c).getD 1 with
    | 2 => do
        let next ← add 16 c 1
        return decide (next ≥ t.cols) || t.cellWidth row next != some 0
    | 0 => pure (c == 0 || t.cellWidth row (c - 1) != some 2)
    | _ => pure false)
  if orphaned then t.modifyScr (·.setCell row c (Cell.blank style)) else return t

/-- Blanks orphaned halves of wide characters after a structural edit of a row. -/
def repairWideHalves (row : Nat) (t : Terminal) : Checked Terminal :=
  forRange 0 t.cols t fun c t' => t'.repairCell row t.blankStyle c

/-- Insert mode: the cells from the cursor on make room for `w` blanks. -/
def insertBlanks (row col n : Nat) (t : Terminal) : Checked Terminal := do
  let blank := Cell.blank t.blankStyle
  let t ← t.modifyScr (·.modifyRow row fun r => do
    let cells ← forRange 0 n r.cells fun _ cells => insertAt cells.dropLast col blank
    return { r with cells })
  t.repairWideHalves row

/-- Blanks the halves of wide characters that a write at `col..col + w` corrupts. -/
def cleanWide (row col w : Nat) (t : Terminal) : Checked Terminal := do
  let style := t.blankStyle
  let t ← (if t.cellWidth row col = some 0 ∧ col > 0 then
      t.modifyScr (·.setCell row (col - 1) (Cell.blank style))
    else pure t)
  forRange 0 w t fun i t => do
    let c ← add 16 col i
    if c ≥ t.cols then return t
    if t.cellWidth row c = some 2 then
      let next ← add 16 c 1
      if next < t.cols then t.modifyScr (·.setCell row next (Cell.blank style)) else return t
    else return t

/-- Writes a character of width `w` at the cursor, and moves the cursor past it. -/
def putChar (c : Char) (w : Nat) (t : Terminal) : Checked Terminal := do
  let row := t.cursor.row
  let col := t.cursor.col
  let t ← (if t.modes.insert then t.insertBlanks row col w else pure t)
  let t ← t.cleanWide row col w
  let cell : Cell :=
    { ch := c, style := t.cursor.style, width := w, hyperlink := t.cursor.hyperlink }
  let t ← t.modifyScr (·.setCell row col cell)
  let t ← (if w = 2 then do
      let next ← add 16 col 1
      t.modifyScr (·.setCell row next cell.spacer)
    else pure t)
  let newCol ← add 16 col w
  if newCol ≥ t.cols then
    let last ← t.lastCol
    return { t with
      cursor.col := last, cursor.pendingWrap := t.modes.autowrap || t.cursor.pendingWrap }
  else return { t with cursor.col := newCol }

/-- A character of width 1 or 2. -/
def printWide (c : Char) (w : Nat) (t : Terminal) : Checked Terminal := do
  let t := { t.touch with lastPrinted := some c }
  let t ← t.wrapPending
  match ← t.fitWide w with
  | some t => t.putChar c w
  | none => return t

def print (c : Char) (t : Terminal) : Checked Terminal :=
  -- decoded C1 code points act as controls
  if 0x80 ≤ c.toNat ∧ c.toNat < 0xA0 then t.execute (UInt8.ofNat c.toNat)
  else
    let c := t.mapCharset c
    let w := wcwidth c
    if w = 0 then t.combine c else t.printWide c w

/-! ### Saved cursors -/

/-- The saved cursor of the active screen. -/
def saved (t : Terminal) : SavedCursor :=
  if t.altActive then t.savedAlt else t.savedPrimary

def setSaved (saved : SavedCursor) (t : Terminal) : Terminal :=
  if t.altActive then { t with savedAlt := saved } else { t with savedPrimary := saved }

def saveCursor (t : Terminal) : Terminal :=
  t.setSaved { cursor := t.cursor, origin := t.modes.origin }

def clampToRegionIfOrigin (t : Terminal) : Checked Terminal :=
  if t.modes.origin then do
    let (top, bot) ← t.region
    if top ≤ bot then return { t with cursor.row := min (max t.cursor.row top) bot }
    else throw .bounds
  else .ok t

/-- The cursor within the grid. -/
def clampCursor (t : Terminal) : Checked Terminal := do
  let lastRow ← t.lastRow
  let lastCol ← t.lastCol
  return { t with cursor.row := min t.cursor.row lastRow, cursor.col := min t.cursor.col lastCol }

def restoreCursor (t : Terminal) : Checked Terminal := do
  let saved := t.saved
  let t := { t with cursor := saved.cursor, modes.origin := saved.origin }
  let t ← t.clampCursor
  let t ← t.clampToRegionIfOrigin
  return t.touch

/-- CUP/HVP: origin-mode-aware absolute positioning. -/
def moveTo (row col : Nat) (t : Terminal) : Checked Terminal := do
  let (top, bot) ← t.region
  let lastRow ← t.lastRow
  let row := if t.modes.origin then min (satAdd 16 top row) bot else min row lastRow
  let lastCol ← t.lastCol
  return { t with cursor.row := row, cursor.col := min col lastCol, cursor.pendingWrap := false }.touch

/-! ### Resets -/

def wholeRegion (t : Terminal) : Checked Terminal := do
  let last ← t.lastRow
  return { t with scrollTop := 0, scrollBot := last }

def decaln (t : Terminal) : Checked Terminal := do
  let t ← t.wholeRegion
  let t := { t with
    modes.origin := false, cursor.row := 0, cursor.col := 0, cursor.pendingWrap := false }
  let rows := t.rows
  let cols := t.cols
  let t ← forRange 0 rows t fun r t => forRange 0 cols t fun c t =>
    t.modifyScr (·.setCell r c { ch := 'E', width := 1 })
  return t.touch

def fullReset (t : Terminal) : Checked Terminal := do
  let last ← t.lastRow
  return { t with
    screenSwitch := some .reset
    altActive := false
    primary := t.primary.clearGrid {}
    alt := t.alt.clearGrid {}
    cursor := {}
    savedPrimary := {}
    savedAlt := {}
    modes := {}
    scrollTop := 0
    scrollBot := last
    tabs := defaultTabs t.cols
    palette := defaultPalette
    fgColor := none
    bgColor := none
    cursorColor := none
    cursorStyleRaw := 0
    kittyPrimary := t.kittyPrimary.reset
    kittyAlt := t.kittyAlt.reset
    graphics := t.graphics.reset
    lastPrinted := none
    colorStack := []
    lastTextSize := none }.touch

/-- The kitty stack of the active screen. -/
def kittyStack (t : Terminal) : KittyKeyStack :=
  if t.altActive then t.kittyAlt else t.kittyPrimary

def modifyKitty (f : KittyKeyStack → KittyKeyStack) (t : Terminal) : Terminal :=
  if t.altActive then { t with kittyAlt := f t.kittyAlt }
  else { t with kittyPrimary := f t.kittyPrimary }

/-- DECSTR. -/
def softReset (t : Terminal) : Checked Terminal := do
  let t := { t with modes := { t.modes with
    cursorVisible := true, origin := false, insert := false, autowrap := false, cursorKeys := false,
    keypadApp := false } }
  let t ← t.wholeRegion
  let t := { t with
    cursor := { t.cursor with
      style := {}, hyperlink := 0, pendingWrap := false, g0 := .ascii, g1 := .ascii, shift := 0 }
    cursorStyleRaw := 0 }
  return ((t.setSaved {}).modifyKitty (·.reset)).touch

/-- The alternate screen cleared with the pen's background. -/
def clearAlt (t : Terminal) : Terminal :=
  { t with alt := t.alt.clearGrid t.blankStyle }

def enterAlt (mode : Nat) (t : Terminal) : Terminal :=
  let t := if mode = 1049 then t.saveCursor else t
  let t := { t with altActive := true }
  if mode = 1049 then t.clearAlt else t

def leaveAlt (mode : Nat) (t : Terminal) : Checked Terminal :=
  let t := if mode = 1047 then t.clearAlt else t
  let t := { t with altActive := false }
  if mode = 1049 then t.restoreCursor else .ok t

/-- Alt-screen switching for modes 47 / 1047 / 1049. -/
def setAltScreen (mode : Nat) (on : Bool) (t : Terminal) : Checked Terminal := do
  let t := { t with screenSwitch := some .alt }
  let t ← (if on && !t.altActive then pure (t.enterAlt mode)
    else if !on && t.altActive then t.leaveAlt mode
    else pure t)
  let last ← t.lastRow
  return { t with cursor.pendingWrap := false, cursor.row := min t.cursor.row last }.touch

/-! ### Resize -/

def resize (rows cols : Nat) (t : Terminal) : Checked Terminal :=
  let rows := max rows 1
  let cols := max cols 1
  if rows = t.rows ∧ cols = t.cols then .ok t
  else do
    let here := (t.cursor.row, t.cursor.col)
    let (primary, primaryCur) ←
      t.primary.resize rows cols (if t.altActive then (0, 0) else here) true
    let (alt, altCur) ← t.alt.resize rows cols (if t.altActive then here else (0, 0)) false
    let cur := if t.altActive then altCur else primaryCur
    let lastRow ← sub rows 1
    let lastCol ← sub cols 1
    let tabs := defaultTabs cols
    return { t with
      primary, alt
      cursor := { t.cursor with
        row := min cur.1 lastRow, col := min cur.2 lastCol, pendingWrap := false }
      scrollTop := 0
      scrollBot := lastRow
      -- custom stops within the previous width stay
      tabs := t.tabs.take cols ++ tabs.drop t.tabs.length }.touch

/-- DECCOLM: 132 or 80 columns, if allowed. -/
def setDeccolm (set : Bool) (t : Terminal) : Checked Terminal :=
  if !t.modes.allowDeccolm then .ok t
  else do
    let t := { t with modes.deccolm := set }
    let t ← t.resize t.rows (if set then 132 else 80)
    let t ← t.wholeRegion
    let t ← (if t.modes.noClearOnDeccolm then pure t
      else t.modifyScr fun s => return s.clearGrid t.blankStyle)
    return { t with cursor.row := 0, cursor.col := 0, cursor.pendingWrap := false }.touch

/-! ### Escape sequences -/

def deviceAttributes : List Char :=
  "\x1b[?62;22c".toList

def escDispatch (intermediates : Bytes) (finalByte : UInt8) (t : Terminal) : Checked Terminal :=
  match intermediates.head?.map fun i => Char.ofNat i.toNat with
  | none =>
      match Char.ofNat finalByte.toNat with
      | '7' => .ok t.saveCursor
      | '8' => t.restoreCursor
      | 'D' => t.index
      | 'E' => { t with cursor.col := 0 }.index
      | 'H' => .ok (t.setTab true)
      | 'M' => t.reverseIndex
      | 'c' => t.fullReset
      | '=' => .ok { t with modes.keypadApp := true }.touch
      | '>' => .ok { t with modes.keypadApp := false }.touch
      | 'Z' => .ok (t.respond deviceAttributes)
      | _ => .ok t
  | some '#' => if finalByte.toNat = '8'.toNat then t.decaln else .ok t
  | some '(' => .ok { t with cursor.g0 := charsetFor finalByte }
  | some ')' => .ok { t with cursor.g1 := charsetFor finalByte }
  | _ => .ok t

/-! ### Observers -/

/-- The public cursor. -/
def cursorView (t : Terminal) : Cursor :=
  { row := t.cursor.row
    col := t.cursor.col
    visible := t.modes.cursorVisible
    shape := match t.cursorStyleRaw with
      | 3 | 4 => .underline
      | 5 | 6 => .bar
      | _ => .block }

/-- A cell's hyperlink id as its URI. -/
def hyperlink (id : Nat) (t : Terminal) : Option (List Char) :=
  (t.hyperlinks.lookup id).map (·.uri)

def kittyFlags (t : Terminal) : UInt8 :=
  t.kittyStack.flags

end Terminal

end Posh.Term
