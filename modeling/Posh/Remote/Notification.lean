import Posh.Remote.Snapshot
import Posh.Term.Wcwidth

/-!
The status banner (`NotificationEngine` of `remote/display.rs`): a message, or how long
the server has been silent, across the top of the screen.
-/

namespace Posh.Remote

open Posh.Lib Posh.Term

/-- Milliseconds of silence before the banner appears. -/
def SERVER_LATE_AFTER : Nat := 6500

/-- A message without expiration is permanent. -/
structure NotificationEngine where
  lastWordFromServer : Nat
  message : List Char := []
  messageExpiration : Option Nat := some 0
deriving DecidableEq, Repr

/-- `{:02}` -/
def twoDigits (n : Nat) : List Char :=
  if n < 10 then '0' :: decimal n else decimal n

def humanReadableDuration (numSeconds : Nat) : List Char :=
  if numSeconds < 60 then decimal numSeconds ++ " seconds".toList
  else if numSeconds < 3600 then
    decimal (numSeconds / 60) ++ ":".toList ++ twoDigits (numSeconds % 60)
  else
    decimal (numSeconds / 3600) ++ ":".toList ++ twoDigits (numSeconds / 60 % 60) ++ ":".toList ++
      twoDigits (numSeconds % 60)

def barStyle : Style :=
  { inverse := true, bold := true }

/-- The text of the banner in the top row, from column `col` on. -/
def drawBanner (cols : Nat) : List Char → (col : Nat) → List Cell → Checked (List Cell)
  | [], _, row => .ok row
  | ch :: rest, col, row =>
      let w := wcwidth ch
      if w = 0 then drawBanner cols rest col row
      else do
        let next ← add 16 col w
        if next > cols then return row
        else
          let row ← setAt row col { ch, style := barStyle, width := w }
          let row ← (if w = 2 then setAt row (col + 1) { style := barStyle } else pure row)
          drawBanner cols rest next row

namespace NotificationEngine

def new (now : Nat) : NotificationEngine :=
  { lastWordFromServer := now }

def serverHeard (now : Nat) (n : NotificationEngine) : NotificationEngine :=
  { n with lastWordFromServer := now }

def serverLate (now : Nat) (n : NotificationEngine) : Bool :=
  now - n.lastWordFromServer > SERVER_LATE_AFTER

def setMessage (message : List Char) (permanent : Bool) (now : Nat) (n : NotificationEngine) :
    NotificationEngine :=
  { n with message, messageExpiration := if permanent then none else some (now + 1000) }

/-- Clears a message that has expired. -/
def adjust (now : Nat) (n : NotificationEngine) : NotificationEngine :=
  match n.messageExpiration with
  | some expiry => if now ≥ expiry then { n with message := [] } else n
  | none => n

def bannerText (now : Nat) (n : NotificationEngine) : List Char :=
  let sinceHeard := (now - n.lastWordFromServer) / 1000
  let keystroke := " [To quit: Ctrl-^ .]".toList
  if n.message.isEmpty then
    "posh: Last contact ".toList ++ humanReadableDuration sinceHeard ++ " ago.".toList ++ keystroke
  else if !n.serverLate now then "posh: ".toList ++ n.message ++ keystroke
  else
    "posh: ".toList ++ n.message ++ " (".toList ++ humanReadableDuration sinceHeard ++
      " without contact.)".toList ++ keystroke

/-- Draws the banner over the top row. -/
def apply (now : Nat) (n : NotificationEngine) (fb : Snapshot) : Checked Snapshot :=
  if n.message.isEmpty && !n.serverLate now then .ok fb
  else do
    -- the cursor is hidden where it is under the bar
    let fb := if fb.cursorRow = 0 then { fb with cursorVisible := false } else fb
    let top ← getAt fb.cells 0
    let wrapped ← setAt fb.wrapped 0 false
    let bar := top.map fun _ => Cell.blank barStyle
    let bar ← drawBanner fb.cols (n.bannerText now) 0 bar
    let cells ← setAt fb.cells 0 bar
    return { fb with cells, wrapped }

/-- A banner of an empty message, from a server that is not late, is none. -/
theorem apply_quiet {now : Nat} {n : NotificationEngine} (silent : n.message = [])
    (heard : n.serverLate now = false) (fb : Snapshot) :
    (n.adjust now).apply now fb = .ok fb := by
  have adjusted : (n.adjust now).message = [] ∧ (n.adjust now).serverLate now = false := by
    unfold adjust
    split
    · split
      · exact ⟨rfl, heard⟩
      · exact ⟨silent, heard⟩
    · exact ⟨silent, heard⟩
  unfold apply
  rw [adjusted.1, adjusted.2]
  rfl

end NotificationEngine

end Posh.Remote
