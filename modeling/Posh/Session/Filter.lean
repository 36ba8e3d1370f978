import Posh.Term.Dump
import Posh.Term.Numbers
import Posh.Term.Process

/-!
The screen-switch filter of the session daemon (`daemon.rs`): the output broadcast to
attached clients, with the application's screen switches taken out and a repaint put
in for each.

What `feed` appends to `out` is kept in `Broadcast.out`.
-/

namespace Posh.Session

open Posh.Lib Posh.Term

/-- Sent in place of a full reset. -/
def RIS_SUBSTITUTE : List Char :=
  ["\x1b[!p",
    "\x1b[?1000l", "\x1b[?1002l", "\x1b[?1003l", "\x1b[?9l", "\x1b[?1005l", "\x1b[?1006l", "\x1b[?1016l",
    "\x1b[?2004l", "\x1b[?1004l", "\x1b[?1007l", "\x1b[?12l", "\x1b[?25h", "\x1b[?1l", "\x1b[?5l", "\x1b[?8h",
    "\x1b[?2026l", "\x1b>", "\x1b[20l", "\x1b[4l", "\x1b]104\x07", "\x1b]110\x07", "\x1b]111\x07",
    "\x1b]112\x07"].flatMap String.toList

/-- `ESC [ ?` -/
def PRIVATE_CSI : Bytes := [0x1B, 0x5B, 0x3F]

/-- The parameters that switch no screens; none when one is not a number. -/
def keptParts : List Bytes → Option (List Bytes)
  | [] => some []
  | part :: rest =>
      if part.all isAsciiDigit then do
        let s ← fromUtf8 part
        let n := (fromStrRadix (2 ^ 32 - 1) 10 s).getD 0
        let kept ← keptParts rest
        return if n = 47 ∨ n = 1047 ∨ n = 1049 then kept else part :: kept
      else none

/-- A DECSET or DECRST sequence without its screen modes, if anything remains of it. -/
def stripAltScreenParams (seq : Bytes) : Option Bytes := do
  let body ← seq.dropPrefix? PRIVATE_CSI
  let finalByte ← body.getLast?
  if finalByte = 0x68 ∨ finalByte = 0x6C then do
    let kept ← keptParts (body.dropLast.splitOn 0x3B)
    if kept.isEmpty then none
    else return PRIVATE_CSI ++ [0x3B].intercalate kept ++ [finalByte]
  else none

structure ScreenSwitchFilter where
  held : Bytes := []
deriving DecidableEq, Repr

def MAX_HELD : Nat := 4096

/-- The filter, the model it feeds and the broadcast so far. -/
structure Broadcast where
  filter : ScreenSwitchFilter := {}
  term : Terminal
  out : Bytes := []

/-- What stands for the modes that `seq` sets. -/
def modesOf (kind : ScreenSwitch) (seq : Bytes) : Bytes :=
  match kind with
  | .reset => toUtf8 RIS_SUBSTITUTE
  | .alt => (stripAltScreenParams seq).getD []

namespace Broadcast

/-- The switch that `seq` completed is replaced. -/
def substitute (kind : ScreenSwitch) (seq : Bytes) (s : Broadcast) : Checked Broadcast := do
  let repaint ← s.term.dumpScreenSwitch
  return { s with filter.held := [], out := s.out ++ modesOf kind seq ++ repaint }

/-- What is held is forwarded. -/
def flush (s : Broadcast) : Broadcast :=
  { s with filter.held := [], out := s.out ++ s.filter.held }

def feedByte (files : Files) (b : UInt8) (s : Broadcast) : Checked Broadcast := do
  let held := s.filter.held ++ [b]
  let term ← s.term.process files [b]
  let (kind, term) := term.takeScreenSwitch
  let s := { s with filter.held := held, term }
  match kind with
  | some kind => s.substitute kind held
  | none =>
      if !term.midEscape then return s.flush
      else if held.length > MAX_HELD then return s.flush
      else return s

/-- One chunk; without a byte that could begin a sequence it is forwarded as it is. -/
def feed (files : Files) (chunk : Bytes) (s : Broadcast) : Checked Broadcast :=
  if s.filter.held.isEmpty && !s.term.midEscape &&
      !chunk.any (fun b => b == 0x1B || b == 0x9B) then do
    let term ← s.term.process files chunk
    return { s with term, out := s.out ++ chunk }
  else forEach chunk s fun b s => s.feedByte files b

end Broadcast

/-- A chunk read from the PTY, and the files there are while it is processed. -/
structure PtyRead where
  files : Files
  chunk : Bytes

/-- The chunks of a stream, one after the other. -/
def Broadcast.feedAll (reads : List PtyRead) (s : Broadcast) : Checked Broadcast :=
  forEach reads s fun r s => s.feed r.files r.chunk

end Posh.Session
