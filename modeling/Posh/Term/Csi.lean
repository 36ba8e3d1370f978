import Posh.Term.Terminal

/-!
CSI sequences (`csi.rs`): cursor moves, erasing and editing, modes, reports, the
colour stack and SGR.

The dispatch is split by the private marker and the first intermediate byte.
-/

namespace Posh.Term

open Posh.Lib

/-! ### SGR -/

def clampByte (v : Nat) : UInt8 :=
  UInt8.ofNat (min v 255)

/-- The first subparameter of a parameter, 0 if it has none. -/
def firstPart (p : List Nat) : Nat :=
  p.head?.getD 0

/-- The colour of SGR 38/48/58, in the colon form (subparameters of `p`) or the
semicolon form (the parameters after it), and how many of those it takes. -/
def extendedColor (p : List Nat) (rest : Params) : Option Color × Nat :=
  if p.length > 1 then
    match p with
    | _ :: 5 :: i :: _ => (some (.indexed (clampByte i)), 0)
    | _ :: 2 :: _ :: r :: g :: b :: _ => (some (.rgb (clampByte r) (clampByte g) (clampByte b)), 0)
    | [_, 2, r, g, b] => (some (.rgb (clampByte r) (clampByte g) (clampByte b)), 0)
    | _ => (none, 0)
  else
    let get (k : Nat) : Nat := (rest[k]?.bind (·.head?)).getD 0
    match rest[0]?.bind (·.head?) with
    | some 5 => (some (.indexed (clampByte (get 1))), 2)
    | some 2 => (some (.rgb (clampByte (get 1)) (clampByte (get 2)) (clampByte (get 3))), 4)
    | _ => (none, 0)

/-- SGR 4 with a colon subparameter selects the underline style. -/
def underlineOf : Option Nat → UnderlineStyle
  | none => .single
  | some 0 => .none
  | some 1 => .single
  | some 2 => .double
  | some 3 => .curly
  | some 4 => .dotted
  | some 5 => .dashed
  | some _ => .single

/-- One SGR parameter: the style it leaves, and how many of the following
parameters it takes. -/
def sgrParam (p : List Nat) (rest : Params) (style : Style) : Style × Nat :=
  let n := firstPart p
  match n with
  | 0 => ({}, 0)
  | 1 => ({ style with bold := true }, 0)
  | 2 => ({ style with dim := true }, 0)
  | 3 => ({ style with italic := true }, 0)
  | 4 => ({ style with underline := underlineOf p[1]? }, 0)
  | 5 | 6 => ({ style with blink := true }, 0)
  | 7 => ({ style with inverse := true }, 0)
  | 8 => ({ style with invisible := true }, 0)
  | 9 => ({ style with strikethrough := true }, 0)
  | 21 => ({ style with underline := .double }, 0)
  | 22 => ({ style with bold := false, dim := false }, 0)
  | 23 => ({ style with italic := false }, 0)
  | 24 => ({ style with underline := .none }, 0)
  | 25 => ({ style with blink := false }, 0)
  | 27 => ({ style with inverse := false }, 0)
  | 28 => ({ style with invisible := false }, 0)
  | 29 => ({ style with strikethrough := false }, 0)
  | 38 =>
      let (color, consumed) := extendedColor p rest
      ({ style with fg := color.getD style.fg }, consumed)
  | 39 => ({ style with fg := .default }, 0)
  | 48 =>
      let (color, consumed) := extendedColor p rest
      ({ style with bg := color.getD style.bg }, consumed)
  | 49 => ({ style with bg := .default }, 0)
  | 58 =>
      let (color, consumed) := extendedColor p rest
      ({ style with underlineColor := color.getD style.underlineColor }, consumed)
  | 59 => ({ style with underlineColor := .default }, 0)
  | _ =>
      if 30 ≤ n ∧ n ≤ 37 then ({ style with fg := .indexed (UInt8.ofNat (n - 30)) }, 0)
      else if 40 ≤ n ∧ n ≤ 47 then ({ style with bg := .indexed (UInt8.ofNat (n - 40)) }, 0)
      else if 90 ≤ n ∧ n ≤ 97 then ({ style with fg := .indexed (UInt8.ofNat (n - 90 + 8)) }, 0)
      else if 100 ≤ n ∧ n ≤ 107 then ({ style with bg := .indexed (UInt8.ofNat (n - 100 + 8)) }, 0)
      else (style, 0)

/-- The SGR loop; `skip` parameters were taken by a colour before them. -/
def sgrLoop : (skip : Nat) → Params → Style → Style
  | _, [], style => style
  | skip + 1, _ :: rest, style => sgrLoop skip rest style
  | 0, p :: rest, style =>
      let (style, consumed) := sgrParam p rest style
      sgrLoop consumed rest style

namespace Terminal

/-- DECSCA protection is not an SGR attribute: SGR 0 keeps it. -/
def sgr (params : Params) (t : Terminal) : Terminal :=
  let isProtected := t.cursor.style.isProtected
  if params.isEmpty then { t with cursor.style := { isProtected } }
  else { t with cursor.style := { sgrLoop 0 params t.cursor.style with isProtected } }.touch

/-! ### Cursor moves -/

def cursorUp (n : Nat) (t : Terminal) : Checked Terminal := do
  let (top, _) ← t.region
  let limit := if t.cursor.row ≥ top then top else 0
  return { t with cursor.row := max (t.cursor.row - n) limit, cursor.pendingWrap := false }.touch

def cursorDown (n : Nat) (t : Terminal) : Checked Terminal := do
  let (_, bot) ← t.region
  let limit ← (if t.cursor.row ≤ bot then pure bot else t.lastRow)
  return { t with
    cursor.row := min (satAdd 16 t.cursor.row n) limit, cursor.pendingWrap := false }.touch

def setCol (col : Nat) (t : Terminal) : Checked Terminal := do
  let last ← t.lastCol
  return { t with cursor.col := min col last, cursor.pendingWrap := false }.touch

def cursorRight (n : Nat) (t : Terminal) : Checked Terminal :=
  t.setCol (satAdd 16 t.cursor.col n)

def cursorLeft (n : Nat) (t : Terminal) : Terminal :=
  { t with cursor.col := t.cursor.col - n, cursor.pendingWrap := false }.touch

/-- CHA / HPA -/
def columnAbsolute (params : Params) (t : Terminal) : Checked Terminal := do
  let col ← sub (paramOr params 0 1) 1
  t.setCol col

/-- CUP / HVP -/
def cursorPosition (params : Params) (t : Terminal) : Checked Terminal := do
  let row ← sub (paramOr params 0 1) 1
  let col ← sub (paramOr params 1 1) 1
  t.moveTo row col

/-- VPA -/
def rowAbsolute (params : Params) (t : Terminal) : Checked Terminal := do
  let row ← sub (paramOr params 0 1) 1
  let (top, _) ← t.region
  let row := if t.modes.origin then satAdd 16 top row else row
  let last ← t.lastRow
  let t ← { t with cursor.row := min row last }.clampToRegionIfOrigin
  return { t with cursor.pendingWrap := false }.touch

/-- VPR -/
def rowRelative (n : Nat) (t : Terminal) : Checked Terminal := do
  let last ← t.lastRow
  return { t with
    cursor.row := min (satAdd 16 t.cursor.row n) last, cursor.pendingWrap := false }.touch

/-- DECSTBM: an oversized bottom clamps to the last row. -/
def setRegion (params : Params) (t : Terminal) : Checked Terminal := do
  let top ← sub (paramOr params 0 1) 1
  let bot ← sub (paramOr params 1 t.rows) 1
  let last ← t.lastRow
  let bot := min bot last
  let within := { t with scrollTop := top, scrollBot := bot }
  if top < bot then within.moveTo 0 0 else return t

/-! ### Erasing and editing -/

/-- One cell of ED/EL; the selective forms skip protected cells. -/
def eraseCell (row col : Nat) (style : Style) (selective : Bool) (t : Terminal) : Checked Terminal :=
  t.modifyScr (·.modifyCell row col fun cell =>
    if selective && cell.style.isProtected then cell else Cell.blank style)

/-- Erases the cells `lo..hi` of a row. -/
def eraseCells (row lo hi : Nat) (style : Style) (selective : Bool) (t : Terminal) :
    Checked Terminal :=
  forRange lo hi t fun c t => t.eraseCell row c style selective

def setRowWrapped (row : Nat) (wrapped : Bool) (t : Terminal) : Checked Terminal :=
  t.modifyScr (·.setWrapped row wrapped)

def eraseRow (row : Nat) (style : Style) (selective : Bool) (t : Terminal) : Checked Terminal :=
  if selective then do
    let t ← t.eraseCells row 0 t.cols style true
    t.setRowWrapped row false
  else t.modifyScr (·.modifyRow row fun _ => return Row.blank t.cols style)

/-- Erases the rows `lo..hi`. -/
def eraseRows (lo hi : Nat) (style : Style) (selective : Bool) (t : Terminal) : Checked Terminal :=
  forRange lo hi t fun r t => t.eraseRow r style selective

def eraseDisplay (mode : Nat) (selective : Bool) (t : Terminal) : Checked Terminal := do
  let style := t.blankStyle
  let row := t.cursor.row
  let col := t.cursor.col
  let rows := t.rows
  let t := { t with cursor.pendingWrap := false }
  let t ← (match mode with
    | 0 => do
        let t ← t.eraseCells row col t.cols style selective
        let t ← t.setRowWrapped row false
        let below ← add 16 row 1
        t.eraseRows below rows style selective
    | 1 => do
        let t ← t.eraseRows 0 row style selective
        t.eraseCells row 0 (col + 1) style selective
    | 2 => t.eraseRows 0 rows style selective
    | 3 => t.modifyScr fun s => return s.clearScrollback
    | _ => pure t)
  return t.touch

def eraseLine (mode : Nat) (selective : Bool) (t : Terminal) : Checked Terminal := do
  let style := t.blankStyle
  let row := t.cursor.row
  let col := t.cursor.col
  let t := { t with cursor.pendingWrap := false }
  match mode with
  | 0 =>
      let last ← t.lastCol
      let t ← t.eraseCells row col (last + 1) style selective
      let t ← t.setRowWrapped row false
      return t.touch
  | 1 =>
      let t ← t.eraseCells row 0 (col + 1) style selective
      return t.touch
  | 2 =>
      let last ← t.lastCol
      let t ← t.eraseCells row 0 (last + 1) style selective
      let t ← t.setRowWrapped row false
      return t.touch
  | _ => return t

def insertLines (n : Nat) (t : Terminal) : Checked Terminal := do
  let (top, bot) ← t.region
  let row := t.cursor.row
  if row < top ∨ row > bot then return t
  else
    let t ← t.modifyScr (·.scrollDown row bot n t.blankStyle)
    return { t with cursor.col := 0, cursor.pendingWrap := false }.touch

def deleteLines (n : Nat) (t : Terminal) : Checked Terminal := do
  let (top, bot) ← t.region
  let row := t.cursor.row
  if row < top ∨ row > bot then return t
  else
    let t ← t.modifyScr (·.scrollUp row bot n false t.blankStyle)
    return { t with cursor.col := 0, cursor.pendingWrap := false }.touch

def insertChars (n : Nat) (t : Terminal) : Checked Terminal := do
  let row := t.cursor.row
  let col := t.cursor.col
  let blank := Cell.blank t.blankStyle
  let t ← t.modifyScr (·.modifyRow row fun r => do
    let cells ← forRange 0 (min n (asU16 r.cells.length)) r.cells fun _ cells =>
      insertAt cells.dropLast col blank
    return { r with cells })
  let t ← t.repairWideHalves row
  return { t with cursor.pendingWrap := false }.touch

def deleteChars (n : Nat) (t : Terminal) : Checked Terminal := do
  let row := t.cursor.row
  let col := t.cursor.col
  let blank := Cell.blank t.blankStyle
  let t ← t.modifyScr (·.modifyRow row fun r => do
    let cells ← forRange 0 (min n (asU16 r.cells.length)) r.cells fun _ cells =>
      if col < cells.length then do
        let (_, rest) ← removeAt cells col
        return rest ++ [blank]
      else return cells
    return { r with cells })
  let t ← t.repairWideHalves row
  return { t with cursor.pendingWrap := false }.touch

def eraseChars (n : Nat) (t : Terminal) : Checked Terminal := do
  let row := t.cursor.row
  let col := t.cursor.col
  let style := t.blankStyle
  let t ← forRange col (min (satAdd 16 col n) t.cols) t fun c t =>
    t.modifyScr (·.setCell row c (Cell.blank style))
  let t ← t.repairWideHalves row
  return { t with cursor.pendingWrap := false }.touch

/-- REP: repeats the preceding graphic character. -/
def «repeat» (n : Nat) (t : Terminal) : Checked Terminal :=
  match t.lastPrinted with
  | some c => do
      let cap ← mul 32 t.cols t.rows
      forRange 0 (min n cap) t fun _ t => t.print c
  | none => .ok t

/-- TBC -/
def clearTabs (mode : Nat) (t : Terminal) : Terminal :=
  match mode with
  | 0 => t.setTab false
  | 3 => { t with tabs := t.tabs.map fun _ => false }
  | _ => t

/-! ### Modes -/

def setAnsiMode (params : Params) (set : Bool) (t : Terminal) : Terminal :=
  let modes := params.foldl (fun modes p =>
    match firstPart p with
    | 4 => { modes with insert := set }
    | 20 => { modes with lnm := set }
    | _ => modes) t.modes
  { t with modes }.touch

/-- A mouse mode when set, none when reset. -/
def mouseModeIf (set : Bool) (mode : MouseMode) : MouseMode :=
  if set then mode else .none

def mouseProtocolIf (set : Bool) (protocol : MouseProtocol) : MouseProtocol :=
  if set then protocol else .normal

def setDecMode (n : Nat) (set : Bool) (t : Terminal) : Checked Terminal := do
  let t ← (match n with
    | 1 => pure { t with modes.cursorKeys := set }
    | 3 => t.setDeccolm set
    | 5 => pure { t with modes.reverseVideo := set }
    | 6 => { t with modes.origin := set }.moveTo 0 0
    | 7 => pure { t with
        modes.autowrap := set, cursor.pendingWrap := set && t.cursor.pendingWrap }
    | 8 => pure { t with modes.autorepeat := set }
    | 9 => pure { t with modes.mouseMode := mouseModeIf set .x10 }
    | 12 => pure { t with modes.cursorBlink := set }
    | 25 => pure { t with modes.cursorVisible := set }
    | 40 => pure { t with modes.allowDeccolm := set }
    | 95 => pure { t with modes.noClearOnDeccolm := set }
    | 47 | 1047 | 1049 => t.setAltScreen n set
    | 66 => pure { t with modes.keypadApp := set }
    | 1000 => pure { t with modes.mouseMode := mouseModeIf set .normal }
    | 1002 => pure { t with modes.mouseMode := mouseModeIf set .buttonEvent }
    | 1003 => pure { t with modes.mouseMode := mouseModeIf set .anyEvent }
    | 1004 => pure { t with modes.focusReporting := set }
    | 1007 => pure { t with modes.alternateScroll := set }
    | 1005 => pure { t with modes.mouseProtocol := mouseProtocolIf set .utf8 }
    | 1006 => pure { t with modes.mouseProtocol := mouseProtocolIf set .sgr }
    | 1016 => pure { t with modes.mouseProtocol := mouseProtocolIf set .sgrPixel }
    | 1048 => if set then pure t.saveCursor else t.restoreCursor
    | 2004 => pure { t with modes.bracketedPaste := set }
    | 2026 => pure { t with modes.synchronized := set }
    | _ => pure t)
  return t.touch

def setDecModes (params : Params) (set : Bool) (t : Terminal) : Checked Terminal :=
  forEach params t fun p t => t.setDecMode (firstPart p) set

/-- DECRQM reply value: 1 = set, 2 = reset, 0 = not recognized. -/
def decModeStatus (n : Nat) (t : Terminal) : Nat :=
  let b (v : Bool) : Nat := if v then 1 else 2
  match n with
  | 1 => b t.modes.cursorKeys
  | 3 => b t.modes.deccolm
  | 5 => b t.modes.reverseVideo
  | 6 => b t.modes.origin
  | 7 => b t.modes.autowrap
  | 8 => b t.modes.autorepeat
  | 9 => b (t.modes.mouseMode == .x10)
  | 12 => b t.modes.cursorBlink
  | 25 => b t.modes.cursorVisible
  | 40 => b t.modes.allowDeccolm
  | 95 => b t.modes.noClearOnDeccolm
  | 47 | 1047 | 1049 => b t.altActive
  | 66 => b t.modes.keypadApp
  | 1000 => b (t.modes.mouseMode == .normal)
  | 1002 => b (t.modes.mouseMode == .buttonEvent)
  | 1003 => b (t.modes.mouseMode == .anyEvent)
  | 1004 => b t.modes.focusReporting
  | 1007 => b t.modes.alternateScroll
  | 1005 => b (t.modes.mouseProtocol == .utf8)
  | 1006 => b (t.modes.mouseProtocol == .sgr)
  | 1016 => b (t.modes.mouseProtocol == .sgrPixel)
  | 1048 => 2
  | 2004 => b t.modes.bracketedPaste
  | 2026 => b t.modes.synchronized
  | _ => 0

/-! ### Reports -/

def decrqmDec (n : Nat) (t : Terminal) : Terminal :=
  t.respond ("\x1b[?".toList ++ decimal n ++ ";".toList ++ decimal (t.decModeStatus n) ++
    "$y".toList)

def decrqmAnsi (n : Nat) (t : Terminal) : Terminal :=
  let status := match n with
    | 4 => if t.modes.insert then 1 else 2
    | 20 => if t.modes.lnm then 1 else 2
    | _ => 0
  t.respond ("\x1b[".toList ++ decimal n ++ ";".toList ++ decimal status ++ "$y".toList)

/-- DSR -/
def statusReport (mode : Nat) (t : Terminal) : Checked Terminal :=
  match mode with
  | 5 => .ok (t.respond "\x1b[0n".toList)
  | 6 => do
      let (top, _) ← t.region
      let row ← add 16 (t.cursor.row - if t.modes.origin then top else 0) 1
      let col ← add 16 t.cursor.col 1
      return t.respond ("\x1b[".toList ++ decimal row ++ ";".toList ++ decimal col ++ "R".toList)
  | _ => .ok t

/-- DECXCPR -/
def extendedCursorReport (t : Terminal) : Checked Terminal := do
  let row ← add 16 t.cursor.row 1
  let col ← add 16 t.cursor.col 1
  return t.respond ("\x1b[?".toList ++ decimal row ++ ";".toList ++ decimal col ++ "R".toList)

/-- XTWINOPS reports; pixel sizes use the placeholder cell size. -/
def windowOps (op : Nat) (t : Terminal) : Checked Terminal :=
  match op with
  | 14 => do
      let height ← mul 32 t.rows CELL_H
      let width ← mul 32 t.cols CELL_W
      return t.respond ("\x1b[4;".toList ++ decimal height ++ ";".toList ++ decimal width ++
        "t".toList)
  | 16 =>
      .ok (t.respond ("\x1b[6;".toList ++ decimal CELL_H ++ ";".toList ++ decimal CELL_W ++
        "t".toList))
  | 18 =>
      .ok (t.respond ("\x1b[8;".toList ++ decimal t.rows ++ ";".toList ++ decimal t.cols ++
        "t".toList))
  | _ => .ok t

/-! ### Colour stack -/

/-- XTPUSHCOLORS: past ten entries the oldest is dropped. -/
def pushColors (t : Terminal) : Terminal :=
  let kept := if t.colorStack.length ≥ 10 then t.colorStack.drop 1 else t.colorStack
  { t with colorStack := kept ++
      [{ palette := t.palette, fg := t.fgColor, bg := t.bgColor, cursor := t.cursorColor }] }

/-- XTPOPCOLORS -/
def popColors (t : Terminal) : Terminal :=
  match t.colorStack.getLast? with
  | some e =>
      { t with
        colorStack := t.colorStack.dropLast, palette := e.palette, fgColor := e.fg, bgColor := e.bg,
        cursorColor := e.cursor }.touch
  | none => t

/-- XTREPORTCOLORS -/
def reportColors (t : Terminal) : Terminal :=
  let n := decimal t.colorStack.length
  t.respond ("\x1b[?".toList ++ n ++ ";".toList ++ n ++ "#Q".toList)

/-! ### Dispatch -/

/-- Sequences without private marker and intermediates. -/
def csiPlain (params : Params) (final : Char) (t : Terminal) : Checked Terminal :=
  match final with
  | 'A' => t.cursorUp (paramOr params 0 1)
  | 'B' => t.cursorDown (paramOr params 0 1)
  | 'C' => t.cursorRight (paramOr params 0 1)
  | 'D' => .ok (t.cursorLeft (paramOr params 0 1))
  | 'E' => do
      let t ← t.cursorDown (paramOr params 0 1)
      return { t with cursor.col := 0 }
  | 'F' => do
      let t ← t.cursorUp (paramOr params 0 1)
      return { t with cursor.col := 0 }
  | 'G' | '\x60' => t.columnAbsolute params
  | 'H' | 'f' => t.cursorPosition params
  | 'I' => forRange 0 (paramOr params 0 1) t fun _ t => t.horizontalTab
  | 'J' => t.eraseDisplay (param params 0 0) false
  | 'K' => t.eraseLine (param params 0 0) false
  | 'L' => t.insertLines (paramOr params 0 1)
  | 'M' => t.deleteLines (paramOr params 0 1)
  | 'P' => t.deleteChars (paramOr params 0 1)
  | 'S' => t.scrollUpN (paramOr params 0 1)
  | 'T' => t.scrollDownN (paramOr params 0 1)
  | 'X' => t.eraseChars (paramOr params 0 1)
  | 'Z' => forRange 0 (paramOr params 0 1) t fun _ t => return t.backTab
  | '@' => t.insertChars (paramOr params 0 1)
  | 'a' => t.cursorRight (paramOr params 0 1)
  | 'b' => t.repeat (paramOr params 0 1)
  | 'c' => .ok (if param params 0 0 = 0 then t.respond deviceAttributes else t)
  | 'd' => t.rowAbsolute params
  | 'e' => t.rowRelative (paramOr params 0 1)
  | 'g' => .ok (t.clearTabs (param params 0 0))
  | 'h' => .ok (t.setAnsiMode params true)
  | 'l' => .ok (t.setAnsiMode params false)
  | 'm' => .ok (t.sgr params)
  | 'n' => t.statusReport (param params 0 0)
  | 'r' => t.setRegion params
  | 's' => .ok t.saveCursor
  | 'u' => t.restoreCursor
  | 't' => t.windowOps (param params 0 0)
  | _ => .ok t

/-- Sequences with the private marker `?`. -/
def csiQuestion (params : Params) (final : Char) (t : Terminal) : Checked Terminal :=
  match final with
  | 'J' => t.eraseDisplay (param params 0 0) true
  | 'K' => t.eraseLine (param params 0 0) true
  | 'h' => t.setDecModes params true
  | 'l' => t.setDecModes params false
  | 'n' => if param params 0 0 = 6 then t.extendedCursorReport else .ok t
  | 'u' => .ok (t.respond ("\x1b[?".toList ++ decimal t.kittyFlags.toNat ++ "u".toList))
  | _ => .ok t

/-- Sequences with one of the private markers `>`, `<` and `=`. -/
def csiMarked (params : Params) (marker final : Char) (t : Terminal) : Terminal :=
  match marker, final with
  | '>', 'c' => t.respond "\x1b[>1;10;0c".toList
  | '>', 'q' => t.respond "\x1bP>|posh-term 0.1.0\x1b\\".toList
  | '>', 'u' => t.modifyKitty (·.push (UInt8.ofNat (param params 0 0)))
  | '<', 'u' => t.modifyKitty (·.pop (paramOr params 0 1))
  | '=', 'u' => t.modifyKitty (·.set (UInt8.ofNat (param params 0 0)) (paramOr params 1 1))
  | _, _ => t

/-- Sequences with an intermediate byte and no private marker. -/
def csiWith (params : Params) (intermediate final : Char) (t : Terminal) : Checked Terminal :=
  match intermediate, final with
  | '$', 'p' => .ok (t.decrqmAnsi (param params 0 0))
  | '!', 'p' => t.softReset
  | '\"', 'q' => .ok { t with cursor.style.isProtected := param params 0 0 == 1 }
  | '#', 'P' => .ok t.pushColors
  | '#', 'Q' => .ok t.popColors
  | '#', 'R' => .ok t.reportColors
  | ' ', 'q' =>
      let n := param params 0 0
      .ok (if n ≤ 6 then { t with cursorStyleRaw := n }.touch else t)
  | _, _ => .ok t

def csiDispatch (params : Params) (intermediates : Bytes) (marker finalByte : UInt8) (t : Terminal) :
    Checked Terminal :=
  let final := Char.ofNat finalByte.toNat
  let marker := Char.ofNat marker.toNat
  match intermediates.head?.map fun i => Char.ofNat i.toNat with
  | none =>
      match marker with
      | '\x00' => t.csiPlain params final
      | '?' => t.csiQuestion params final
      | c => .ok (t.csiMarked params c final)
  | some i =>
      match marker, i with
      | '\x00', i => t.csiWith params i final
      | '?', '$' => .ok (if final = 'p' then t.decrqmDec (param params 0 0) else t)
      | _, _ => .ok t

end Terminal

end Posh.Term
