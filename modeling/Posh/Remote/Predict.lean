import Posh.Remote.Snapshot
import Posh.Term.Wcwidth

/-!
Speculative local echo (`remote/predict.rs`): keystrokes are echoed as overlay
cells and cursor positions that belong to epochs, and acknowledged server frames
confirm or cull them.

Epochs, byte offsets and clocks are `u64` in the source and grow by additions
only; they are natural numbers here, and `U64_MAX` is what the source resets them
to. Indexing and `u16` arithmetic are checked. The counters only the statistics
read are left out.
-/

namespace Posh.Remote

open Posh.Lib Posh.Term

def U64_MAX : Nat := 2 ^ 64 - 1

def SRTT_TRIGGER_LOW : Nat := 20
def SRTT_TRIGGER_HIGH : Nat := 30
def FLAG_TRIGGER_LOW : Nat := 50
def FLAG_TRIGGER_HIGH : Nat := 80
def GLITCH_THRESHOLD : Nat := 250
def GLITCH_REPAIR_COUNT : Nat := 10
def GLITCH_REPAIR_MININTERVAL : Nat := 150
def GLITCH_FLAG_THRESHOLD : Nat := 5000

inductive DisplayPreference where
  | always
  | never
  | adaptive
  | experimental
deriving DecidableEq, Repr

inductive Validity where
  | pending
  | correct
  | correctNoCredit
  | incorrectOrExpired
  | inactive
deriving DecidableEq, Repr

/-- Glyphs match, ignoring renditions. -/
def contentsMatch (a b : Cell) : Bool :=
  (a.isBlank && b.isBlank) || (a.ch == b.ch && a.extra == b.extra)

structure OverlayCell where
  active : Bool
  tentativeUntilEpoch : Nat
  expirationFrame : Nat
  predictionTime : Nat
  col : Nat
  unknown : Bool
  replacement : Cell
  /-- No credit for predictions that match what was already there. -/
  originalContents : List Cell
deriving DecidableEq, Repr

namespace OverlayCell

def new (col tentative : Nat) : OverlayCell where
  active := false
  tentativeUntilEpoch := tentative
  expirationFrame := 0
  predictionTime := U64_MAX
  col := col
  unknown := false
  replacement := blankCell
  originalContents := []

def tentative (confirmedEpoch : Nat) (c : OverlayCell) : Bool :=
  c.tentativeUntilEpoch > confirmedEpoch

def reset (c : OverlayCell) : OverlayCell :=
  { c with
    active := false, unknown := false, tentativeUntilEpoch := U64_MAX, expirationFrame := U64_MAX,
    originalContents := [] }

def resetWithOrig (c : OverlayCell) : OverlayCell :=
  if !c.active || c.unknown then c.reset
  else { c.reset with originalContents := c.originalContents ++ [c.replacement] }

def expire (expirationFrame now : Nat) (c : OverlayCell) : OverlayCell :=
  { c with expirationFrame, predictionTime := now }

def getValidity (fb : Snapshot) (row lateAck : Nat) (c : OverlayCell) : Checked Validity :=
  if !c.active then .ok .inactive
  else if row ≥ fb.rows ∨ c.col ≥ fb.cols then .ok .incorrectOrExpired
  else if lateAck < c.expirationFrame then .ok .pending
  else if c.unknown then .ok .correctNoCredit
  else if c.replacement.isBlank then .ok .correctNoCredit
  else do
    let current ← unwrap (fb.cell row c.col)
    if contentsMatch current c.replacement then
      if c.originalContents.any (contentsMatch · c.replacement) then return .correctNoCredit
      else return .correct
    else return .incorrectOrExpired

def underlined (c : Cell) : Cell :=
  { c with style.underline := .single }

def apply (confirmedEpoch row : Nat) (flag : Bool) (fb : Snapshot) (c : OverlayCell) : Snapshot :=
  if !c.active ∨ row ≥ fb.rows ∨ c.col ≥ fb.cols then fb
  else if c.tentative confirmedEpoch then fb
  else
    let currentBlank := ((fb.cell row c.col).map Cell.isBlank).getD true
    let flag := if c.replacement.isBlank && currentBlank then false else flag
    if c.unknown then
      if flag ∧ c.col ≠ fb.cols - 1 then fb.modifyCell row c.col underlined else fb
    else if fb.cell row c.col ≠ some c.replacement then
      fb.modifyCell row c.col fun _ => if flag then underlined c.replacement else c.replacement
    else fb

/-- The cell becomes the prediction of `epoch` for what was `orig`; what it now
predicts is set by the caller. -/
def predict (epoch expiration now : Nat) (orig : Cell) (c : OverlayCell) : OverlayCell :=
  let c := { c.resetWithOrig with active := true, tentativeUntilEpoch := epoch }
  let c := c.expire expiration now
  { c with originalContents := c.originalContents ++ [orig] }

/-- The glyph a neighbour is to take over, `none` if that is unknown. -/
def shifted (fb : Snapshot) (row col : Nat) (neighbour : OverlayCell) : Option Cell :=
  if neighbour.active then if neighbour.unknown then none else some neighbour.replacement
  else fb.cell row col

/-- `unknown` or the glyph taken over from the neighbour. -/
def takeOver (glyph : Option Cell) (c : OverlayCell) : OverlayCell :=
  match glyph with
  | none => { c with unknown := true }
  | some replacement => { c with unknown := false, replacement }

end OverlayCell

structure OverlayRow where
  rowNum : Nat
  cells : List OverlayCell
deriving DecidableEq, Repr

structure CursorPrediction where
  active : Bool
  tentativeUntilEpoch : Nat
  expirationFrame : Nat
  row : Nat
  col : Nat
deriving DecidableEq, Repr

namespace CursorPrediction

def tentative (confirmedEpoch : Nat) (c : CursorPrediction) : Bool :=
  c.tentativeUntilEpoch > confirmedEpoch

def getValidity (fb : Snapshot) (lateAck : Nat) (c : CursorPrediction) : Validity :=
  if !c.active then .inactive
  else if c.row ≥ fb.rows ∨ c.col ≥ fb.cols then .incorrectOrExpired
  else if lateAck ≥ c.expirationFrame then
    if fb.cursorRow = c.row ∧ fb.cursorCol = c.col then .correct else .incorrectOrExpired
  else .pending

def apply (confirmedEpoch : Nat) (fb : Snapshot) (c : CursorPrediction) : Snapshot :=
  if !c.active || c.tentative confirmedEpoch then fb
  else if c.row < fb.rows ∧ c.col < fb.cols then
    { fb with cursorRow := c.row, cursorCol := c.col }
  else fb

end CursorPrediction

/-! ### The parser of the user's keystrokes -/

inductive InputAction where
  | print (ch : Char)
  | execute (b : UInt8)
  | escDispatch
  | csiDispatch (finalByte : UInt8)
  | none
deriving DecidableEq, Repr

inductive ParseState where
  | ground
  | esc
  | csi
  | utf8 (need : Nat)
deriving DecidableEq, Repr

structure InputParser where
  state : ParseState := .ground
  utf8 : Bytes := []
deriving DecidableEq, Repr

namespace InputParser

def startUtf8 (b : UInt8) (need : Nat) (_ : InputParser) : InputParser :=
  { state := .utf8 need, utf8 := [b] }

def inputGround (b : UInt8) (p : InputParser) : InputParser × InputAction :=
  let n := b.toNat
  if n = 0x1B then ({ p with state := .esc }, .none)
  else if n ≤ 0x1F then (p, .execute b)
  else if n ≤ 0x7F then (p, .print (Char.ofNat n))
  else if 0xC2 ≤ n ∧ n ≤ 0xDF then (p.startUtf8 b 1, .none)
  else if 0xE0 ≤ n ∧ n ≤ 0xEF then (p.startUtf8 b 2, .none)
  else if 0xF0 ≤ n ∧ n ≤ 0xF4 then (p.startUtf8 b 3, .none)
  else (p, .execute b)

def input (b : UInt8) (p : InputParser) : Checked (InputParser × InputAction) :=
  let n := b.toNat
  match p.state with
  | .ground => .ok (inputGround b p)
  | .esc =>
      -- application cursor keys, `ESC O`, count as CSI
      if n = '['.toNat ∨ n = 'O'.toNat then .ok ({ p with state := .csi }, .none)
      else .ok ({ p with state := .ground }, .escDispatch)
  | .csi =>
      if 0x20 ≤ n ∧ n ≤ 0x3F then .ok (p, .none)
      else if 0x40 ≤ n ∧ n ≤ 0x7E then .ok ({ p with state := .ground }, .csiDispatch b)
      else .ok ({ p with state := .ground }, .execute b)
  | .utf8 need =>
      if isContinuation b then
        if p.utf8.length < 4 then
          let p := { p with utf8 := p.utf8 ++ [b] }
          if need = 1 then
            match fromUtf8 p.utf8 with
            | some s => .ok ({ p with state := .ground }, .print (s.head?.getD ' '))
            | Option.none => .ok ({ p with state := .ground }, .execute 0)
          else do
            let need ← sub need 1
            return ({ p with state := .utf8 need }, .none)
        else .error .index
      else .ok (inputGround b { p with state := .ground })

end InputParser

/-! ### The engine -/

structure PredictionEngine where
  parser : InputParser := {}
  overlays : List OverlayRow := []
  cursors : List CursorPrediction := []
  localFrameSent : Nat := 0
  localFrameAcked : Nat := 0
  localFrameLateAcked : Nat := 0
  predictionEpoch : Nat := 1
  confirmedEpoch : Nat := 0
  /-- Underline displayed predictions. -/
  flagging : Bool := false
  /-- Show predictions because of a slow link. -/
  srttTrigger : Bool := false
  /-- Show predictions because one took too long. -/
  glitchTrigger : Nat := 0
  lastQuickConfirmation : Nat := 0
  sendInterval : Nat := 250
  lastHeight : Nat := 0
  lastWidth : Nat := 0
  displayPreference : DisplayPreference
  predictOverwrite : Bool
deriving DecidableEq, Repr

namespace PredictionEngine

def new (displayPreference : DisplayPreference) (predictOverwrite : Bool) : PredictionEngine :=
  { displayPreference, predictOverwrite }

def setLocalFrameSent (x : Nat) (e : PredictionEngine) : PredictionEngine :=
  { e with localFrameSent := x }

def setLocalFrameAcked (x : Nat) (e : PredictionEngine) : PredictionEngine :=
  { e with localFrameAcked := max e.localFrameAcked x }

def setLocalFrameLateAcked (x : Nat) (e : PredictionEngine) : PredictionEngine :=
  { e with localFrameLateAcked := max e.localFrameLateAcked x }

def setSendInterval (x : Nat) (e : PredictionEngine) : PredictionEngine :=
  { e with sendInterval := x }

/-- Any prediction outstanding at all? -/
def active (e : PredictionEngine) : Bool :=
  !e.cursors.isEmpty || e.overlays.any fun row => row.cells.any (·.active)

def shown (e : PredictionEngine) : Bool :=
  match e.displayPreference with
  | .never => false
  | .always | .experimental => true
  | .adaptive => e.srttTrigger || e.glitchTrigger > 0

def becomeTentative (e : PredictionEngine) : PredictionEngine :=
  if e.displayPreference ≠ .experimental then
    { e with predictionEpoch := e.predictionEpoch + 1 }
  else e

def reset (e : PredictionEngine) : PredictionEngine :=
  { e with cursors := [], overlays := [] }.becomeTentative

/-- `self.cursor()` -/
def cursor (e : PredictionEngine) : Checked CursorPrediction :=
  unwrap e.cursors.getLast?

/-- `let c = self.cursor(); *c = f(c)` -/
def modifyCursor (f : CursorPrediction → CursorPrediction) (e : PredictionEngine) :
    Checked PredictionEngine := do
  let last ← e.cursor
  return { e with cursors := e.cursors.dropLast ++ [f last] }

def initCursor (fb : Snapshot) (e : PredictionEngine) : PredictionEngine :=
  if e.cursors.getLast?.any (·.tentativeUntilEpoch = e.predictionEpoch) then e
  else
    -- from the last predicted position, or from the frame's
    let (row, col) :=
      (e.cursors.getLast?.map fun c => (c.row, c.col)).getD (fb.cursorRow, fb.cursorCol)
    { e with
      cursors := e.cursors ++ [{
        active := true, tentativeUntilEpoch := e.predictionEpoch,
        expirationFrame := e.localFrameSent + 1, row, col }] }

/-- The index of the overlay row, which is made if it does not exist. -/
def getOrMakeRow (rowNum numCols : Nat) (e : PredictionEngine) : Nat × PredictionEngine :=
  match e.overlays.findIdx? (·.rowNum = rowNum) with
  | some idx => (idx, e)
  | none =>
      let cells := (List.range numCols).map fun i => OverlayCell.new i e.predictionEpoch
      (e.overlays.length, { e with overlays := e.overlays ++ [⟨rowNum, cells⟩] })

/-- Writes to the cells of the overlay row `idx`. -/
def withRow (idx : Nat) (f : List OverlayCell → Checked (List OverlayCell))
    (e : PredictionEngine) : Checked PredictionEngine := do
  let row ← getAt e.overlays idx
  let cells ← f row.cells
  let overlays ← setAt e.overlays idx { row with cells }
  return { e with overlays }

def killEpoch (fb : Snapshot) (epoch : Nat) (e : PredictionEngine) : Checked PredictionEngine := do
  let before ← sub epoch 1
  let cursors := e.cursors.filter fun c => !c.tentative before
  let fresh : CursorPrediction :=
    { active := true, tentativeUntilEpoch := e.predictionEpoch,
      expirationFrame := e.localFrameSent + 1, row := fb.cursorRow, col := fb.cursorCol }
  let overlays := e.overlays.map fun row =>
    { row with cells := row.cells.map fun c => if c.tentative before then c.reset else c }
  return { e with cursors := cursors ++ [fresh], overlays }.becomeTentative

/-- Overlays the surviving predictions onto a framebuffer snapshot. -/
def apply (e : PredictionEngine) (fb : Snapshot) : Snapshot :=
  if !e.shown then fb
  else
    let fb := e.cursors.foldl (fun fb c => c.apply e.confirmedEpoch fb) fb
    e.overlays.foldl (fun fb row =>
      row.cells.foldl (fun fb c => c.apply e.confirmedEpoch row.rowNum e.flagging fb) fb) fb

/-! ### Culling -/

/-- What the scan over the overlay cells accumulates. -/
structure Scan where
  confirmedEpoch : Nat
  glitchTrigger : Nat
  lastQuick : Nat
  killEpochs : List Nat := []
  /-- A prediction the user can see was wrong: the scan is over. -/
  doReset : Bool := false
deriving DecidableEq, Repr

/-- The row's later cells take the rendition of the confirmed one. -/
def restyle (style : Style) (j : Nat) (cells : List OverlayCell) : List OverlayCell :=
  cells.take j ++ (cells.drop j).map fun k => { k with replacement.style := style }

/-- One cell of the scan. -/
def scanCell (fb : Snapshot) (rowNum lateAck now : Nat) (experimental : Bool) (j : Nat)
    (s : List OverlayCell × Scan) : Checked (List OverlayCell × Scan) :=
  if s.2.doReset then .ok s
  else do
    let (cells, scan) := s
    let cell ← getAt cells j
    let validity ← cell.getValidity fb rowNum lateAck
    match validity with
    | .incorrectOrExpired =>
        if experimental then
          let cells ← setAt cells j cell.reset
          return (cells, scan)
        else if cell.tentative scan.confirmedEpoch then
          return (cells, { scan with killEpochs := scan.killEpochs ++ [cell.tentativeUntilEpoch] })
        else return (cells, { scan with doReset := true })
    | .correct =>
        let scan := { scan with
          confirmedEpoch := max scan.confirmedEpoch cell.tentativeUntilEpoch }
        -- quick confirmations slowly repair the glitch trigger
        let scan :=
          if now - cell.predictionTime < GLITCH_THRESHOLD ∧ scan.glitchTrigger > 0 ∧
              now - GLITCH_REPAIR_MININTERVAL ≥ scan.lastQuick then
            { scan with glitchTrigger := scan.glitchTrigger - 1, lastQuick := now }
          else scan
        let cells :=
          match fb.cell rowNum cell.col with
          | some actual => restyle actual.style j cells
          | none => cells
        let cell ← getAt cells j
        let cells ← setAt cells j cell.reset
        return (cells, scan)
    | .correctNoCredit =>
        let cells ← setAt cells j cell.reset
        return (cells, scan)
    | .pending =>
        let outstanding := now - cell.predictionTime
        let scan :=
          if outstanding ≥ GLITCH_FLAG_THRESHOLD then
            { scan with glitchTrigger := GLITCH_REPAIR_COUNT * 2 }
          else if outstanding ≥ GLITCH_THRESHOLD ∧ scan.glitchTrigger < GLITCH_REPAIR_COUNT then
            { scan with glitchTrigger := GLITCH_REPAIR_COUNT }
          else scan
        return (cells, scan)
    | .inactive => return (cells, scan)

def scanRow (fb : Snapshot) (lateAck now : Nat) (experimental : Bool) (row : OverlayRow)
    (scan : Scan) : Checked (OverlayRow × Scan) := do
  let (cells, scan) ← forRange 0 row.cells.length (row.cells, scan)
    (scanCell fb row.rowNum lateAck now experimental)
  return ({ row with cells }, scan)

def scanRows (fb : Snapshot) (lateAck now : Nat) (experimental : Bool) :
    List OverlayRow → Scan → Checked (List OverlayRow × Scan)
  | [], scan => .ok ([], scan)
  | row :: rest, scan => do
      let (row, scan) ← scanRow fb lateAck now experimental row scan
      if scan.doReset then return (row :: rest, scan)
      else
        let (rest, scan) ← scanRows fb lateAck now experimental rest scan
        return (row :: rest, scan)

/-- The triggers that `cull` updates before it scans. -/
def updateTriggers (e : PredictionEngine) : PredictionEngine :=
  let srttTrigger :=
    if e.sendInterval > SRTT_TRIGGER_HIGH then true
    else if e.srttTrigger ∧ e.sendInterval ≤ SRTT_TRIGGER_LOW ∧ !e.active then false
    else e.srttTrigger
  let flagging :=
    if e.sendInterval > FLAG_TRIGGER_HIGH then true
    else if e.sendInterval ≤ FLAG_TRIGGER_LOW then false
    else e.flagging
  { e with srttTrigger, flagging := if e.glitchTrigger > GLITCH_REPAIR_COUNT then true else flagging }

/-- The second half of `cull`: the cursor predictions. -/
def cullCursors (fb : Snapshot) (lateAck : Nat) (e : PredictionEngine) : PredictionEngine :=
  let pending (e : PredictionEngine) : PredictionEngine :=
    { e with cursors := e.cursors.filter (·.getValidity fb lateAck = .pending) }
  if e.cursors.getLast?.any (·.getValidity fb lateAck = .incorrectOrExpired) then
    if e.displayPreference = .experimental then pending { e with cursors := [] } else e.reset
  else pending e

/-- Validates predictions against the latest server framebuffer. -/
def cull (fb : Snapshot) (now : Nat) (e : PredictionEngine) : Checked PredictionEngine :=
  if e.displayPreference = .never then .ok e
  else do
    let e :=
      if e.lastHeight ≠ fb.rows ∨ e.lastWidth ≠ fb.cols then
        { e with lastHeight := fb.rows, lastWidth := fb.cols }.reset
      else e
    let e := e.updateTriggers
    let lateAck := e.localFrameLateAcked
    let (overlays, scan) ← scanRows fb lateAck now (e.displayPreference = .experimental)
      (e.overlays.filter (·.rowNum < fb.rows))
      { confirmedEpoch := e.confirmedEpoch, glitchTrigger := e.glitchTrigger,
        lastQuick := e.lastQuickConfirmation }
    let e := { e with
      overlays, confirmedEpoch := scan.confirmedEpoch, glitchTrigger := scan.glitchTrigger,
      lastQuickConfirmation := scan.lastQuick }
    if scan.doReset then return e.reset
    else
      let e ← forEach scan.killEpochs e (killEpoch fb)
      return e.cullCursors fb lateAck

/-! ### Keystrokes -/

def newlineCarriageReturn (fb : Snapshot) (now : Nat) (e : PredictionEngine) :
    Checked PredictionEngine := do
  let e := e.initCursor fb
  let e ← e.modifyCursor fun c => { c with col := 0 }
  let c ← e.cursor
  let last ← sub fb.rows 1
  if c.row = last then
    -- the scroll is not predicted: a blank last row is
    let epoch := e.predictionEpoch
    let expiration := e.localFrameSent + 1
    let (idx, e) := e.getOrMakeRow c.row fb.cols
    e.withRow idx fun cells => .ok <| cells.map fun cell =>
      { ({ cell with active := true, tentativeUntilEpoch := epoch } : OverlayCell).expire
          expiration now with
        unknown := false, replacement := blankCell }
  else
    let down ← add 16 c.row 1
    e.modifyCursor fun c => { c with row := down }

/-- Column `i` takes over what column `i - 1` shows. -/
def shiftRight (fb : Snapshot) (row width epoch expiration now i : Nat)
    (cells : List OverlayCell) : Checked (List OverlayCell) := do
  let left ← getAt cells (i - 1)
  let prevState := left.shifted fb row (i - 1)
  let orig := (fb.cell row i).getD blankCell
  let cell ← getAt cells i
  let cell := cell.predict epoch expiration now orig
  setAt cells i (if i = width - 1 then { cell with unknown := true } else cell.takeOver prevState)

/-- The predicted glyph itself, in the rendition of its left neighbour. -/
def putGlyph (ch : Char) (fb : Snapshot) (row col epoch expiration now : Nat)
    (cells : List OverlayCell) : Checked (List OverlayCell) := do
  let style ← (if col > 0 then do
      let left ← getAt cells (col - 1)
      if left.active && !left.unknown then pure left.replacement.style
      else pure (((fb.cell row (col - 1)).map (·.style)).getD {})
    else pure {})
  let orig := (fb.cell row col).getD blankCell
  let cell ← getAt cells col
  let cell := cell.predict epoch expiration now orig
  setAt cells col { cell with unknown := false, replacement := { ch, style, width := 1 } }

def handleBackspace (fb : Snapshot) (now : Nat) (e : PredictionEngine) :
    Checked PredictionEngine := do
  let e := e.initCursor fb
  let c ← e.cursor
  let row := c.row
  let col := c.col
  if col = 0 then return e
  else
    let expiration := e.localFrameSent + 1
    let newCol := col - 1
    let e ← e.modifyCursor fun c => { c with col := newCol, expirationFrame := expiration }
    let epoch := e.predictionEpoch
    let width := fb.cols
    let overwrite := e.predictOverwrite
    let (idx, e) := e.getOrMakeRow row width
    e.withRow idx fun cells =>
      if overwrite then do
        let orig := (fb.cell row newCol).getD blankCell
        let cell ← getAt cells newCol
        let cell := cell.predict epoch expiration now orig
        setAt cells newCol
          { cell with replacement := { orig with ch := ' ', extra := [], width := 1 } }
      else
        -- shift the rest of the row left; the last columns are unknown
        forRange newCol width cells fun i cells => do
          let second ← add 16 i 2
          let nextState ← (if second < width then do
              let right ← getAt cells (i + 1)
              pure (right.shifted fb row (i + 1))
            else pure none)
          let orig := (fb.cell row i).getD blankCell
          let cell ← getAt cells i
          setAt cells i ((cell.predict epoch expiration now orig).takeOver nextState)

def handlePrint (ch : Char) (fb : Snapshot) (now : Nat) (e : PredictionEngine) :
    Checked PredictionEngine :=
  if ch.toNat = 0x7F then e.handleBackspace fb now
  else if ch.toNat < 0x20 ∨ wcwidth ch ≠ 1 then
    -- unknown or wide: not predicted
    .ok e.becomeTentative
  else do
    let e := e.initCursor fb
    let c ← e.cursor
    let row := c.row
    let col := c.col
    if row ≥ fb.rows ∨ col ≥ fb.cols then return e
    else
      let expiration := e.localFrameSent + 1
      let width := fb.cols
      -- the last column is tricky: applications wrap differently
      let e := if col + 1 ≥ width then e.becomeTentative else e
      let epoch := e.predictionEpoch
      let rightmost := if e.predictOverwrite then col else width - 1
      let (idx, e) := e.getOrMakeRow row width
      let e ← e.withRow idx fun cells => do
        let cells ← forEach (List.range' (col + 1) (rightmost - col)).reverse cells
          (shiftRight fb row width epoch expiration now)
        putGlyph ch fb row col epoch expiration now cells
      let e ← e.modifyCursor fun c => { c with expirationFrame := expiration }
      if col + 1 < width then e.modifyCursor fun c => { c with col := col + 1 }
      else e.becomeTentative.newlineCarriageReturn fb now

/-- The predicted cursor moves within its row, if `move` finds it a column. -/
def handleArrow (move : Nat → Checked (Option Nat)) (fb : Snapshot) (e : PredictionEngine) :
    Checked PredictionEngine := do
  let e := e.initCursor fb
  let c ← e.cursor
  let next ← move c.col
  match next with
  | some col => e.modifyCursor fun c => { c with col, expirationFrame := e.localFrameSent + 1 }
  | none => return e

def rightArrow (fb : Snapshot) (e : PredictionEngine) : Checked PredictionEngine :=
  e.handleArrow (fun col => do
    let next ← add 16 col 1
    return if next < fb.cols then some next else none) fb

def leftArrow (fb : Snapshot) (e : PredictionEngine) : Checked PredictionEngine :=
  e.handleArrow (fun col => .ok (if col > 0 then some (col - 1) else none)) fb

/-- Feeds one user keystroke byte; `fb` is the locally displayed frame. -/
def newUserByte (byte : UInt8) (fb : Snapshot) (now : Nat) (e : PredictionEngine) :
    Checked PredictionEngine :=
  if e.displayPreference = .never then .ok e
  else do
    let e :=
      if e.displayPreference = .experimental then { e with predictionEpoch := e.confirmedEpoch }
      else e
    let e ← e.cull fb now
    let (parser, action) ← e.parser.input byte
    let e := { e with parser }
    match action with
    | .print ch => e.handlePrint ch fb now
    | .execute b =>
        if b.toNat = 0x0D then e.becomeTentative.newlineCarriageReturn fb now
        else return e.becomeTentative
    | .escDispatch => return e.becomeTentative
    | .csiDispatch finalByte =>
        if finalByte.toNat = 'C'.toNat then e.rightArrow fb
        else if finalByte.toNat = 'D'.toNat then e.leftArrow fb
        else return e.becomeTentative
    | .none => return e

end PredictionEngine

end Posh.Remote
