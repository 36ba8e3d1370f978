import Posh.Lib.Bytes
import Posh.Lib.Checked
import Posh.Lib.Utf8

/-!
The wheel grab's input filter (`remote/client.rs`): a byte-fed state machine that takes
SGR mouse reports out of the input, writes arrow keys for the wheel and drops the rest.

Bytes of a report in progress are held back; where the match fails they are handed on as
they were.
-/

namespace Posh.Remote

open Posh.Lib

/-- Longest report that is held back. -/
def MAX_MOUSE_SEQ : Nat := 32

inductive MouseState where
  | ground
  /-- `ESC` was read. -/
  | esc
  /-- `ESC [` was read. -/
  | bracket
  /-- `ESC [ <` was read, and parameters are. -/
  | body
deriving DecidableEq, Repr

/-- `pending` holds the bytes of the report in progress. -/
structure MouseFilter where
  state : MouseState := .ground
  pending : Bytes := []
deriving DecidableEq, Repr

def arrowUp (appCursorKeys : Bool) : Bytes :=
  toUtf8 (if appCursorKeys then "\x1bOA".toList else "\x1b[A".toList)

def arrowDown (appCursorKeys : Bool) : Bytes :=
  toUtf8 (if appCursorKeys then "\x1bOB".toList else "\x1b[B".toList)

/-- The first parameter of a report, if it is a `u32`. -/
def buttonCode (body : Bytes) : Option Nat :=
  (fromUtf8 (body.takeWhile (·.toNat ≠ ';'.toNat))).bind (fromStrRadix (2 ^ 32 - 1) 10)

namespace MouseFilter

/-- `self.flush(out)`: what is held back turned out to be no report. -/
def flush (out : Bytes) (f : MouseFilter) : MouseFilter × Bytes :=
  ({}, out ++ f.pending)

/-- Hands back what is held, when the grab ends. -/
def takePending (f : MouseFilter) : Bytes × MouseFilter :=
  (f.pending, {})

def stepGround (b : UInt8) (out : Bytes) (f : MouseFilter) : MouseFilter × Bytes :=
  if b.toNat = 0x1B then ({ state := .esc, pending := f.pending ++ [b] }, out)
  else (f, out ++ [b])

/-- The match fails at `b`, which is read again from the ground state. -/
def restart (b : UInt8) (out : Bytes) (f : MouseFilter) : MouseFilter × Bytes :=
  let (f, out) := f.flush out
  f.stepGround b out

def step (appCursorKeys : Bool) (b : UInt8) (out : Bytes) (f : MouseFilter) :
    Checked (MouseFilter × Bytes) :=
  match f.state with
  | .ground => .ok (f.stepGround b out)
  | .esc =>
      if b.toNat = '['.toNat then .ok ({ state := .bracket, pending := f.pending ++ [b] }, out)
      else .ok (f.restart b out)
  | .bracket =>
      if b.toNat = '<'.toNat then .ok ({ state := .body, pending := f.pending ++ [b] }, out)
      else .ok (f.restart b out)
  | .body =>
      if b.toNat = 'M'.toNat ∨ b.toNat = 'm'.toNat then do
        let body ← slice f.pending 3 f.pending.length
        let arrow :=
          match buttonCode body with
          | some 64 => arrowUp appCursorKeys
          | some 65 => arrowDown appCursorKeys
          | _ => []
        return ({}, out ++ arrow)
      else if ('0'.toNat ≤ b.toNat ∧ b.toNat ≤ '9'.toNat) ∨ b.toNat = ';'.toNat then
        let f := { f with pending := f.pending ++ [b] }
        if f.pending.length > MAX_MOUSE_SEQ then .ok (f.flush out) else .ok (f, out)
      else .ok (f.restart b out)

/-- One batch of input, rewritten. -/
def feed (appCursorKeys : Bool) (buf : Bytes) (f : MouseFilter) : Checked (MouseFilter × Bytes) :=
  forEach buf (f, []) fun b s => s.1.step appCursorKeys b s.2

/-- A wheel report among other input, and one that is cut off. -/
example : feed false (toUtf8 "a\x1b[<64;1;1Mb\x1b[<6".toList) {} =
    .ok ({ state := .body, pending := toUtf8 "\x1b[<6".toList }, toUtf8 "a\x1b[Ab".toList) := by
  decide

end MouseFilter

end Posh.Remote
