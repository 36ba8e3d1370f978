import Mathlib.Data.List.Basic

/-!
Terminal mode state (`modes.rs`): DEC private and ANSI modes.
-/

namespace Posh.Term

inductive MouseMode where
  | none
  | x10
  | normal
  | buttonEvent
  | anyEvent
deriving DecidableEq, Repr

/-- The DECSET parameter that enables a mouse mode. -/
def MouseMode.decset : MouseMode → Option Nat
  | .none => .none
  | .x10 => some 9
  | .normal => some 1000
  | .buttonEvent => some 1002
  | .anyEvent => some 1003

inductive MouseProtocol where
  | normal
  | utf8
  | sgr
  | sgrPixel
deriving DecidableEq, Repr

/-- The DECSET parameter that selects a coordinate encoding. -/
def MouseProtocol.decset : MouseProtocol → Option Nat
  | .normal => none
  | .utf8 => some 1005
  | .sgr => some 1006
  | .sgrPixel => some 1016

structure Modes where
  cursorKeys : Bool := false
  origin : Bool := false
  autowrap : Bool := true
  cursorVisible : Bool := true
  bracketedPaste : Bool := false
  focusReporting : Bool := false
  alternateScroll : Bool := false
  synchronized : Bool := false
  insert : Bool := false
  lnm : Bool := false
  autorepeat : Bool := true
  keypadApp : Bool := false
  reverseVideo : Bool := false
  cursorBlink : Bool := false
  deccolm : Bool := false
  allowDeccolm : Bool := false
  noClearOnDeccolm : Bool := false
  mouseMode : MouseMode := .none
  mouseProtocol : MouseProtocol := .normal
deriving DecidableEq, Repr

end Posh.Term
