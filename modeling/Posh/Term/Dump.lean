import Posh.Term.Terminal

/-!
Serialization (`dump.rs`): the escape stream that reproduces a terminal, its
single-screen variant and the repaint that stands for a screen switch.

A function that appends to `out` in the source returns what it appends.
-/

namespace Posh.Term

open Posh.Lib

/-- `text` when `flag` is set. -/
def textIf (flag : Bool) (text : String) : List Char :=
  if flag then text.toList else []

/-! ### SGR -/

/-- The SGR parameters of a colour: `base` and `bright` start those of the first
sixteen indices, `extended` those of the longer forms. -/
def colorParams (base bright extended : Nat) (c : Color) : List Char :=
  match c with
  | .default => []
  | .indexed i =>
      if i.toNat < 8 then ";".toList ++ decimal (base + i.toNat)
      else if i.toNat < 16 then ";".toList ++ decimal (bright + i.toNat - 8)
      else ";".toList ++ decimal extended ++ ";5;".toList ++ decimal i.toNat
  | .rgb r g b =>
      ";".toList ++ decimal extended ++ ";2;".toList ++ decimal r.toNat ++ ";".toList ++
        decimal g.toNat ++ ";".toList ++ decimal b.toNat

def underlineParams : UnderlineStyle → List Char
  | .none => []
  | .single => ";4".toList
  | .double => ";4:2".toList
  | .curly => ";4:3".toList
  | .dotted => ";4:4".toList
  | .dashed => ";4:5".toList

def underlineColorParams (c : Color) : List Char :=
  match c with
  | .default => []
  | .indexed i => ";58:5:".toList ++ decimal i.toNat
  | .rgb r g b =>
      ";58:2:".toList ++ decimal r.toNat ++ ":".toList ++ decimal g.toNat ++ ":".toList ++
        decimal b.toNat

/-- The SGR parameters that reproduce `style` from a reset state. -/
def sgrParams (style : Style) : List Char :=
  "0".toList ++ textIf style.bold ";1" ++ textIf style.dim ";2" ++ textIf style.italic ";3" ++
    underlineParams style.underline ++ textIf style.blink ";5" ++ textIf style.inverse ";7" ++
    textIf style.invisible ";8" ++ textIf style.strikethrough ";9" ++
    colorParams 30 90 38 style.fg ++ colorParams 40 100 48 style.bg ++
    underlineColorParams style.underlineColor

def emitSgr (style : Style) : List Char :=
  "\x1b[".toList ++ sgrParams style ++ "m".toList

/-- The DECSCA toggle. -/
def emitProtect (isProtected : Bool) : List Char :=
  if isProtected then "\x1b[1\"q".toList else "\x1b[0\"q".toList

/-- `CSI row ; col H` -/
def emitPosition (row col : Nat) : List Char :=
  "\x1b[".toList ++ decimal row ++ ";".toList ++ decimal col ++ "H".toList

/-! ### The pen -/

/-- The pen while cells are emitted, for minimal transitions. -/
structure EmitState where
  style : Style := {}
  hyperlink : Nat := 0
deriving DecidableEq, Repr

/-- What is written, and the pen after it. -/
abbrev Emit := List Char × EmitState

namespace Terminal

def emitHyperlink (id : Nat) (t : Terminal) : List Char :=
  match t.hyperlinks.lookup id with
  | some h =>
      if id ≠ 0 then
        let params := if h.id.isEmpty then [] else "id=".toList ++ h.id
        "\x1b]8;".toList ++ params ++ ";".toList ++ h.uri ++ "\x1b\\".toList
      else "\x1b]8;;\x1b\\".toList
  | none => "\x1b]8;;\x1b\\".toList

/-- Moves the pen to a style and a link: DECSCA first, so that the comparison after
it sees only SGR attributes. -/
def emitPen (style : Style) (hyperlink : Nat) (st : EmitState) (t : Terminal) : Emit :=
  let protect :=
    if style.isProtected ≠ st.style.isProtected then emitProtect style.isProtected else []
  let sgr :=
    if style ≠ { st.style with isProtected := style.isProtected } then emitSgr style else []
  let link := if hyperlink ≠ st.hyperlink then t.emitHyperlink hyperlink else []
  (protect ++ sgr ++ link, { style, hyperlink })

/-- The character of a cell, a space when it was never written. -/
def shownChar (cell : Cell) : Char :=
  if cell.ch = '\x00' then ' ' else cell.ch

def emitCell (cell : Cell) (st : EmitState) (t : Terminal) : Emit :=
  if cell.width = 0 then ([], st)
  else
    let (pen, st) := t.emitPen cell.style cell.hyperlink st
    (pen ++ shownChar cell :: cell.extra, st)

def emitCells : List Cell → EmitState → Terminal → Emit
  | [], st, _ => ([], st)
  | cell :: rest, st, t =>
      let (here, st) := t.emitCell cell st
      let (after, st) := emitCells rest st t
      (here ++ after, st)

def emitMark (mark : Option SemanticMark) : List Char :=
  match mark with
  | none => []
  | some .promptStart => "\x1b]133;A\x1b\\".toList
  | some .inputStart => "\x1b]133;B\x1b\\".toList
  | some .outputStart => "\x1b]133;C\x1b\\".toList
  | some .commandEnd => "\x1b]133;D\x1b\\".toList

/-- The cells of a row that are printed: all of a wrapped row, else up to the last one
that shows something. -/
def shownCells (row : Row) : List Cell :=
  if row.wrapped then row.cells else row.cells.take (Screen.shownLength row.cells)

def emitRow (row : Row) (st : EmitState) (t : Terminal) : Emit :=
  let (cells, st) := t.emitCells (shownCells row) st
  (emitMark row.mark ++ cells, st)

def resetPen (st : EmitState) : Emit :=
  let protect := if st.style.isProtected then emitProtect false else []
  let sgr := if ({ st.style with isProtected := false } : Style) ≠ {} then "\x1b[0m".toList else []
  let link := if st.hyperlink ≠ 0 then "\x1b]8;;\x1b\\".toList else []
  (protect ++ sgr ++ link, {})

/-- The rows of a grid in flow order, so that soft-wrap flags regenerate. -/
def drawRows : List Row → EmitState → Terminal → Emit
  | [], st, _ => ([], st)
  | row :: rest, st, t =>
      let (here, st) := t.emitRow row st
      let newline := if row.wrapped || rest.isEmpty then [] else "\r\n".toList
      let (below, st) := drawRows rest st t
      (here ++ newline ++ below, st)

def drawGrid (grid : Screen) (st : EmitState) (t : Terminal) : Checked Emit := do
  let rows ← grid.visibleRows
  return t.drawRows rows st

/-- A row of the scrollback replay, with the pen reset before a newline. -/
def replayRow (row : Row) (newline : Bool) (st : EmitState) (t : Terminal) : Emit :=
  let (here, st) := t.emitRow row st
  if newline then
    let (reset, st) := resetPen st
    (here ++ reset ++ "\r\n".toList, st)
  else (here, st)

/-- Scrollback and grid as one flow; the last row of all opens no new line. -/
def replayRows : List Row → EmitState → Terminal → Emit
  | [], st, _ => ([], st)
  | row :: rest, st, t =>
      let (here, st) := t.replayRow row (!row.wrapped && !rest.isEmpty) st
      let (below, st) := replayRows rest st t
      (here ++ below, st)

/-! ### Colours, titles and modes -/

def dumpSpec (c : Rgb) : List Char :=
  "rgb:".toList ++ hexPadded 2 c.1.toNat ++ "/".toList ++ hexPadded 2 c.2.1.toNat ++ "/".toList ++
    hexPadded 2 c.2.2.toNat

def dumpDynamic (code : String) : Option Rgb → List Char
  | some c => "\x1b]".toList ++ code.toList ++ ";".toList ++ dumpSpec c ++ "\x1b\\".toList
  | none => []

def dumpPalette : (i : Nat) → List Rgb → List Char
  | _, [] => []
  | i, c :: rest =>
      (if c ≠ defaultPaletteEntry (i % 256) then
        "\x1b]4;".toList ++ decimal i ++ ";".toList ++ dumpSpec c ++ "\x1b\\".toList
      else []) ++ dumpPalette (i + 1) rest

def dumpColors (t : Terminal) : List Char :=
  dumpPalette 0 t.palette ++ dumpDynamic "10" t.fgColor ++ dumpDynamic "11" t.bgColor ++
    dumpDynamic "12" t.cursorColor

def dumpTitles (t : Terminal) : List Char :=
  if !t.title.isEmpty && t.title == t.iconTitle then
    "\x1b]0;".toList ++ t.title ++ "\x07".toList
  else
    (if t.title.isEmpty then [] else "\x1b]2;".toList ++ t.title ++ "\x07".toList) ++
      (if t.iconTitle.isEmpty then [] else "\x1b]1;".toList ++ t.iconTitle ++ "\x07".toList)

def dumpPwd (t : Terminal) : List Char :=
  if t.pwd.isEmpty then [] else "\x1b]7;file://".toList ++ t.pwd ++ "\x1b\\".toList

def dumpKitty (k : KittyKeyStack) : List Char :=
  k.entries.flatMap fun f => "\x1b[>".toList ++ decimal f.toNat ++ "u".toList

/-- The designations and the shift of the character sets. -/
def dumpCharsets (t : Terminal) : List Char :=
  (match t.cursor.g0 with
    | .decSpecial => "\x1b(0".toList
    | .uk => "\x1b(A".toList
    | .ascii => []) ++
    (match t.cursor.g1 with
      | .decSpecial => "\x1b)0".toList
      | .uk => "\x1b)A".toList
      | .ascii => []) ++
    textIf (t.cursor.shift == 1) "\x0e"

/-- DECSTBM, unless the region is the whole grid. -/
def dumpRegion (t : Terminal) : Checked (List Char) := do
  let (top, bot) ← t.region
  let last ← t.lastRow
  if top ≠ 0 ∨ bot ≠ last then
    let top ← add 16 top 1
    let bot ← add 16 bot 1
    return "\x1b[".toList ++ decimal top ++ ";".toList ++ decimal bot ++ "r".toList
  else return []

/-- The tab stops from column `i` on, set one by one. -/
def dumpTabStops : (i : Nat) → List Bool → List Char
  | _, [] => []
  | i, tab :: rest =>
      (if tab then emitPosition 1 (i + 1) ++ "\x1bH".toList else []) ++ dumpTabStops (i + 1) rest

def dumpTabs (t : Terminal) : List Char :=
  if t.tabs = defaultTabs t.tabs.length then []
  else "\x1b[3g".toList ++ dumpTabStops 0 t.tabs

/-- The DECCOLM family, before the region and the cursor, which it resets. -/
def dumpDeccolm (t : Terminal) : List Char :=
  textIf (t.modes.allowDeccolm || t.modes.deccolm) "\x1b[?40h" ++
    (if t.modes.deccolm && t.cols == 132 then
      "\x1b[?95h\x1b[?3h".toList ++ textIf (!t.modes.noClearOnDeccolm) "\x1b[?95l"
    else textIf t.modes.noClearOnDeccolm "\x1b[?95h") ++
    textIf (t.modes.deccolm && !t.modes.allowDeccolm) "\x1b[?40l"

/-- DECSET of a mouse mode or encoding. -/
def dumpDecset : Option Nat → List Char
  | some n => "\x1b[?".toList ++ decimal n ++ "h".toList
  | none => []

def dumpModes (t : Terminal) : Checked (List Char) := do
  let region ← t.dumpRegion
  return t.dumpDeccolm ++ region ++ textIf t.modes.origin "\x1b[?6h" ++ t.dumpTabs ++
    t.dumpCharsets ++ textIf t.modes.cursorKeys "\x1b[?1h" ++
    textIf (!t.modes.autowrap) "\x1b[?7l" ++ textIf t.modes.reverseVideo "\x1b[?5h" ++
    textIf (!t.modes.autorepeat) "\x1b[?8l" ++ textIf t.modes.cursorBlink "\x1b[?12h" ++
    textIf t.modes.bracketedPaste "\x1b[?2004h" ++ textIf t.modes.focusReporting "\x1b[?1004h" ++
    textIf t.modes.alternateScroll "\x1b[?1007h" ++ textIf t.modes.synchronized "\x1b[?2026h" ++
    textIf t.modes.insert "\x1b[4h" ++ textIf t.modes.lnm "\x1b[20h" ++
    textIf t.modes.keypadApp "\x1b=" ++ dumpDecset t.modes.mouseMode.decset ++
    dumpDecset t.modes.mouseProtocol.decset ++ dumpKitty t.kittyStack

/-! ### The cursor -/

/-- A wide character armed the pending wrap: the cursor is on its spacer. -/
def widePending (t : Terminal) : Bool :=
  t.cursor.pendingWrap && t.cursor.col > 0 && t.cellWidth t.cursor.row t.cursor.col == some 0

/-- The cell printed again to arm the pending wrap, with the pen restored around it. -/
def reprint (cell : Cell) (pen : Style) : List Char :=
  if cell.width = 1 ∨ cell.width = 2 then
    let toggle := decide (cell.style.isProtected ≠ pen.isProtected)
    let change := decide ({ cell.style with isProtected := pen.isProtected } ≠ pen)
    (if toggle then emitProtect cell.style.isProtected else []) ++
      (if change then emitSgr cell.style else []) ++ shownChar cell :: cell.extra ++
      (if change then emitSgr pen else []) ++ (if toggle then emitProtect pen.isProtected else [])
  else []

def dumpCursor (st : EmitState) (t : Terminal) : Checked (List Char) := do
  let shape :=
    if t.cursorStyleRaw ≠ 0 then "\x1b[".toList ++ decimal t.cursorStyleRaw ++ " q".toList else []
  let (pen, _) := t.emitPen t.cursor.style t.cursor.hyperlink st
  let (regionTop, _) ← t.region
  let top := if t.modes.origin then regionTop else 0
  let printCol := if t.widePending then t.cursor.col - 1 else t.cursor.col
  let row ← add 16 (t.cursor.row - top) 1
  let col ← add 16 printCol 1
  let again :=
    if t.cursor.pendingWrap then
      match t.scr.cell t.cursor.row printCol with
      | some cell => reprint cell t.cursor.style
      | none => []
    else []
  return shape ++ pen ++ emitPosition row col ++ again ++ textIf (!t.modes.cursorVisible) "\x1b[?25l"

/-! ### Graphics -/

def formatKey (f : ImageFormat) : Nat :=
  if f = .rgb then 24 else 32

/-- The digits of an `i32`. -/
def decimalInt (n : Int) : List Char :=
  if n < 0 then '-' :: decimal n.natAbs else decimal n.natAbs

/-- `,key=value` -/
def keyValue (key : String) (value : List Char) : List Char :=
  ",".toList ++ key.toList ++ "=".toList ++ value

/-- Chunks of a payload after the first: `m=1` until the last. -/
def emitContinuations : List (List Char) → List Char
  | [] => []
  | chunk :: rest =>
      "\x1b_Gm=".toList ++ (if rest.isEmpty then "0".toList else "1".toList) ++ ";".toList ++
        chunk ++ "\x1b\\".toList ++ emitContinuations rest

def CHUNK : Nat := 4096

/-- One data-bearing command, its payload in chunks. -/
def emitApcChunks (keys : List Char) (data : Bytes) : List Char :=
  let payload := Base64.encode data
  match payload.toChunks CHUNK with
  | first :: second :: rest =>
      "\x1b_G".toList ++ keys ++ ",m=1;".toList ++ first ++ "\x1b\\".toList ++
        emitContinuations (second :: rest)
  | _ => "\x1b_G".toList ++ keys ++ ";".toList ++ payload ++ "\x1b\\".toList

def imageKeys (img : Image) (id : Nat) : List Char :=
  "a=t,q=2".toList ++ keyValue "f" (decimal (formatKey img.format)) ++
    keyValue "s" (decimal img.width) ++ keyValue "v" (decimal img.height) ++
    keyValue "i" (decimal id) ++
    if img.number ≠ 0 then keyValue "I" (decimal img.number) else []

def frameKeys (fr : Frame) (id : Nat) : List Char :=
  "a=f,q=2".toList ++ keyValue "i" (decimal id) ++ keyValue "r" (decimal fr.number) ++
    keyValue "f" (decimal (formatKey fr.format)) ++ keyValue "s" (decimal fr.width) ++
    keyValue "v" (decimal fr.height) ++ keyValue "x" (decimal fr.x) ++
    keyValue "y" (decimal fr.y) ++ keyValue "z" (decimalInt fr.gapMs) ++
    keyValue "c" (decimal fr.baseFrame) ++ textIf fr.replace ",X=1"

def emitAnimation (anim : AnimationState) (id : Nat) : List Char :=
  "\x1b_Ga=a,q=2".toList ++ keyValue "i" (decimal id) ++ keyValue "s" (decimal anim.state) ++
    keyValue "v" (decimal anim.loops) ++ keyValue "c" (decimal anim.currentFrame) ++
    "\x1b\\".toList

/-- An image with its frames and its play state. -/
def emitImage (g : GraphicsState) (id : Nat) (img : Image) : List Char :=
  emitApcChunks (imageKeys img id) img.data ++
    ((g.frames.lookup id).getD []).flatMap (fun fr => emitApcChunks (frameKeys fr id) fr.data) ++
    ((g.animations.lookup id).elim [] (emitAnimation · id))

/-- The parent of a relative placement is still there. -/
def parentAlive (g : GraphicsState) (p : Placement) : Bool :=
  p.parentImage ≠ 0 && (g.findPlacement p.parentImage p.parentPlacement).isSome

def placementKeys (p : Placement) (alive : Bool) : List Char :=
  "a=p,q=2".toList ++ keyValue "i" (decimal p.imageId) ++ keyValue "p" (decimal p.placementId) ++
    keyValue "x" (decimal p.srcX) ++ keyValue "y" (decimal p.srcY) ++
    keyValue "w" (decimal p.srcW) ++ keyValue "h" (decimal p.srcH) ++
    keyValue "c" (decimal p.cols) ++ keyValue "r" (decimal p.rows) ++
    keyValue "z" (decimalInt p.z) ++ keyValue "X" (decimal p.cellX) ++
    keyValue "Y" (decimal p.cellY) ++
    (if alive then
      keyValue "P" (decimal p.parentImage) ++ keyValue "Q" (decimal p.parentPlacement) ++
        keyValue "H" (decimalInt p.hOff) ++ keyValue "V" (decimalInt p.vOff)
    else []) ++ textIf p.unicode ",U=1"

/-- A placement, anchored by the cursor unless its parent or the text places it. -/
def emitPlacement (g : GraphicsState) (p : Placement) : Checked (List Char) := do
  let alive := parentAlive g p
  let anchor ← (if !alive && !p.unicode then do
      let row ← add 16 p.row 1
      let col ← add 16 p.col 1
      pure (emitPosition row col)
    else pure [])
  return anchor ++ "\x1b_G".toList ++ placementKeys p alive ++ "\x1b\\".toList

def dumpPlacements (t : Terminal) : Checked (List Char) :=
  forEach t.graphics.placements [] fun p out => do
    let here ← emitPlacement t.graphics p
    return out ++ here

/-- Images in the order of their ids. -/
def sortedImages (g : GraphicsState) : List (Nat × Image) :=
  g.images.mergeSort fun a b => a.1 ≤ b.1

def dumpGraphics (t : Terminal) : Checked (List Char) := do
  let placements ← t.dumpPlacements
  return (sortedImages t.graphics).flatMap (fun (id, img) => emitImage t.graphics id img) ++
    placements

/-! ### The dumps -/

/-- The alternate screen's keyboard stack, replayed on a visit to that screen. -/
def seedAltKitty (t : Terminal) : List Char :=
  if !t.altActive && !t.kittyAlt.entries.isEmpty then
    "\x1b[?1049h".toList ++ dumpKitty t.kittyAlt ++ "\x1b[?1049l".toList
  else []

/-- The primary screen: the grid from home, or scrollback and grid as one flow. -/
def dumpPrimary (st : EmitState) (t : Terminal) : Checked Emit :=
  if t.primary.scrollback.length > 0 then do
    let rows ← t.primary.visibleRows
    return t.replayRows (t.primary.scrollback ++ rows) st
  else do
    let (grid, st) ← t.drawGrid t.primary st
    return ("\x1b[H".toList ++ grid, st)

/-- The switch to the alternate screen, with the primary's cursor parked where the
save expects it. -/
def dumpAlt (st : EmitState) (t : Terminal) : Checked Emit :=
  if t.altActive then do
    let (reset, st) := resetPen st
    let row ← add 16 t.savedPrimary.cursor.row 1
    let col ← add 16 t.savedPrimary.cursor.col 1
    let (grid, st) ← t.drawGrid t.alt st
    return (reset ++ emitPosition row col ++ dumpKitty t.kittyPrimary ++ "\x1b[?1049h".toList ++ grid,
      st)
  else return ([], st)

def dumpVtImpl (flat : Bool) (t : Terminal) : Checked (List Char) := do
  let header := t.dumpColors ++ t.dumpTitles ++ t.dumpPwd
  let (screens, st) ← (if flat then do
      let (grid, st) ← t.drawGrid t.scr {}
      pure ("\x1b[H".toList ++ grid, st)
    else do
      let (primary, st) ← t.dumpPrimary {}
      let (alt, st) ← t.dumpAlt st
      pure (t.seedAltKitty ++ primary ++ alt, st))
  let graphics ← t.dumpGraphics
  let modes ← t.dumpModes
  let cursor ← t.dumpCursor st
  return header ++ screens ++ graphics ++ modes ++ cursor

/-- The escape stream that reproduces the terminal on a fresh one of the same size. -/
def dumpVt (t : Terminal) : Checked Bytes :=
  toUtf8 <$> t.dumpVtImpl false

/-- The active grid only, without switching the target's buffers. -/
def dumpVtFlat (t : Terminal) : Checked Bytes :=
  toUtf8 <$> t.dumpVtImpl true

/-- Hides the cursor and normalizes the target to a drawable state. -/
def switchPrologue : List Char :=
  "\x1b[?25l\x1b[r\x1b[?6l\x1b(B\x0f\x1b[4l\x1b[?7h\x1b[0m\x1b[0\"q\x1b]8;;\x1b\\\x1b[2J\x1b[H".toList

/-- The repaint that stands for the application's own screen switch. -/
def dumpScreenSwitch (t : Terminal) : Checked Bytes := do
  let (grid, st) ← t.drawGrid t.scr {}
  let region ← t.dumpRegion
  let placements ← t.dumpPlacements
  let cursor ← t.dumpCursor st
  return toUtf8 (switchPrologue ++ grid ++ region ++ textIf t.modes.origin "\x1b[?6h" ++
    t.dumpCharsets ++ textIf t.modes.insert "\x1b[4h" ++ textIf (!t.modes.autowrap) "\x1b[?7l" ++
    placements ++ cursor ++ textIf t.modes.cursorVisible "\x1b[?25h")

/-! ### Plain text -/

/-- `char::is_whitespace` -/
def isWhitespace (c : Char) : Bool :=
  let n := c.toNat
  9 ≤ n && n ≤ 13 || n == 0x20 || n == 0x85 || n == 0xA0 || n == 0x1680 ||
    0x2000 ≤ n && n ≤ 0x200A || n == 0x2028 || n == 0x2029 || n == 0x202F || n == 0x205F ||
    n == 0x3000

def trimEnd (s : List Char) : List Char :=
  (s.reverse.dropWhile isWhitespace).reverse

/-- The characters of a row. -/
def rowText (row : Row) : List Char :=
  row.cells.flatMap fun cell => if cell.width = 0 then [] else shownChar cell :: cell.extra

/-- The rows joined across soft wraps, each line trimmed; `line` is the current one. -/
def textLines (line : List Char) : List Row → List Char
  | [] => if line.isEmpty then [] else trimEnd line ++ ['\n']
  | row :: rest =>
      let line := line ++ rowText row
      if row.wrapped then textLines line rest else trimEnd line ++ '\n' :: textLines [] rest

/-- Plain text of the scrollback and the visible screen. -/
def dumpText (t : Terminal) : Checked (List Char) := do
  let rows ← t.scr.visibleRows
  return textLines [] (t.primary.scrollback ++ rows)

end Terminal

end Posh.Term
