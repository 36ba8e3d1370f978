import Posh.Term.Csi
import Posh.Term.Dcs
import Posh.Term.Osc

/-!
Processing of the byte stream (`Terminal::process`): each byte advances the parser,
and every action it completes is dispatched.

`files` is the file system that graphics transmissions by name read while a byte is
processed.
-/

namespace Posh.Term

open Posh.Lib

/-- What reading a file yields. -/
abbrev Files := List Char → Option Bytes

namespace Terminal

/-- The cursor after an image: past its bottom right corner, within the grid. -/
def advanceCursor (extent : Nat × Nat) (t : Terminal) : Checked Terminal := do
  let (cols, rows) := extent
  let down := min (rows - 1) 65535
  let right := min cols 65535
  let lastRow ← t.lastRow
  let lastCol ← t.lastCol
  return { t with
    cursor.row := min (satAdd 16 t.cursor.row down) lastRow
    cursor.col := min (satAdd 16 t.cursor.col right) lastCol
    cursor.pendingWrap := false }

/-- Kitty graphics: payloads that start with `G`. -/
def apcDispatch (files : Files) (data : Bytes) (t : Terminal) : Checked Terminal :=
  match data with
  | [] => return t
  | b :: rest =>
      if b.toNat = 'G'.toNat then do
        let (graphics, resp, advance) ←
          t.graphics.dispatch files rest (t.cursor.row, t.cursor.col)
        let t := { t with graphics }
        let t := resp.elim t (t.respond ·)
        let t ← (match advance with
          | some extent => t.advanceCursor extent
          | none => pure t)
        return t.touch
      else return t

def dispatch (files : Files) (action : Action) (t : Terminal) : Checked Terminal :=
  match action with
  | .print c => t.print c
  | .execute b => t.execute b
  | .csi params intermediates marker finalByte =>
      t.csiDispatch params intermediates marker finalByte
  | .esc intermediates finalByte => t.escDispatch intermediates finalByte
  | .osc data bel => t.oscDispatch data bel
  | .dcs _ intermediates finalByte data => t.dcsDispatch intermediates finalByte data
  | .apc data => t.apcDispatch files data

/-- One byte of the stream. -/
def processByte (files : Files) (b : UInt8) (t : Terminal) : Checked Terminal := do
  let (parser, actions) ← t.parser.advance b
  forEach actions { t with parser } fun action t => t.dispatch files action

def process (files : Files) (bytes : Bytes) (t : Terminal) : Checked Terminal :=
  forEach bytes t fun b t => t.processByte files b

/-- The replies waiting, and the terminal without them. -/
def takeResponses (t : Terminal) : Bytes × Terminal :=
  (t.responses, { t with responses := [] })

/-- The pending screen switch, and the terminal without it. -/
def takeScreenSwitch (t : Terminal) : Option ScreenSwitch × Terminal :=
  (t.screenSwitch, { t with screenSwitch := none })

def midEscape (t : Terminal) : Bool :=
  t.parser.midEscape

end Terminal

end Posh.Term
