import Posh.Lib.Utf8

/-!
The escape-sequence parser (`parser.rs`): VT500 states with incremental UTF-8
decoding.

`advance` returns the parser after one byte and the actions the byte completes.
The UTF-8 buffer is the list of the bytes it holds, in an array of four.
-/

namespace Posh.Term

open Posh.Lib

def MAX_PARAMS : Nat := 32
def MAX_SUBPARAMS : Nat := 16
def MAX_INTERMEDIATES : Nat := 2
def MAX_OSC : Nat := 4 * 1024 * 1024
def MAX_DCS : Nat := 64 * 1024
def MAX_APC : Nat := 96 * 1024 * 1024

abbrev Params := List (List Nat)

inductive Action where
  | print (c : Char)
  | execute (b : UInt8)
  /-- `marker` is the private marker byte, or 0. -/
  | csi (params : Params) (intermediates : Bytes) (marker finalByte : UInt8)
  | esc (intermediates : Bytes) (finalByte : UInt8)
  /-- `bel`: terminated by BEL rather than ST. -/
  | osc (data : Bytes) (bel : Bool)
  | dcs (params : Params) (intermediates : Bytes) (finalByte : UInt8) (data : Bytes)
  | apc (data : Bytes)
deriving DecidableEq, Repr

namespace Parser

inductive State where
  | ground
  | escape
  | escapeIntermediate
  | csiEntry
  | csiParam
  | csiIntermediate
  | csiIgnore
  | oscString
  | dcsEntry
  | dcsParam
  | dcsIntermediate
  | dcsPassthrough
  | dcsIgnore
  | sosPmString
  | apcString
deriving DecidableEq, Repr

end Parser

structure Parser where
  state : Parser.State := .ground
  utf8 : Bytes := []
  utf8Need : Nat := 0
  params : Params := []
  curParts : List Nat := []
  curVal : Nat := 0
  partSeen : Bool := false
  intermediates : Bytes := []
  marker : UInt8 := 0
  dcsFinal : UInt8 := 0
  stringBuf : Bytes := []
  stringOverflow : Bool := false
deriving DecidableEq, Repr

namespace Parser

/-- The states from which a screen switch can still dispatch. -/
def midEscape (p : Parser) : Bool :=
  p.state matches .escape | .escapeIntermediate | .csiEntry | .csiParam | .csiIntermediate

def clear (p : Parser) : Parser :=
  { p with
    params := [], curParts := [], curVal := 0, partSeen := false, intermediates := [], marker := 0 }

def startString (state : State) (p : Parser) : Parser :=
  { p with stringBuf := [], stringOverflow := false, state }

def utf8Reset (p : Parser) : Parser :=
  { p with utf8 := [], utf8Need := 0 }

/-- `self.utf8[self.utf8_len] = b`, which is now one longer. -/
def utf8Push (b : UInt8) (p : Parser) : Checked Parser :=
  if p.utf8.length < 4 then .ok { p with utf8 := p.utf8 ++ [b] } else .error .index

/-- The replacement character. -/
def REPLACEMENT : Char := Char.ofNat 0xFFFD

def c1 (b : UInt8) (p : Parser) : Parser × List Action :=
  match b.toNat with
  | 0x90 => ({ p.clear with state := .dcsEntry }, [])
  | 0x98 | 0x9E => (p.startString .sosPmString, [])
  | 0x9B => ({ p.clear with state := .csiEntry }, [])
  | 0x9C => ({ p with state := .ground }, [])
  | 0x9D => (p.startString .oscString, [])
  | 0x9F => (p.startString .apcString, [])
  | _ => (p, [.execute b])

/-- A ground byte that no pending UTF-8 sequence takes. -/
def groundByte (b : UInt8) (p : Parser) : Parser × List Action :=
  let n := b.toNat
  if n = 0x1B then ({ p with state := .escape }, [])
  else if n ≤ 0x1F then (p, [.execute b])
  else if n ≤ 0x7E then (p, [.print (Char.ofNat n)])
  else if n = 0x7F then (p, [])
  else if n ≤ 0x9F then c1 b p
  else if n ≤ 0xBF then (p, [.print REPLACEMENT])
  else if 0xC2 ≤ n ∧ n ≤ 0xDF then ({ p with utf8 := [b], utf8Need := 1 }, [])
  else if 0xE0 ≤ n ∧ n ≤ 0xEF then ({ p with utf8 := [b], utf8Need := 2 }, [])
  else if 0xF0 ≤ n ∧ n ≤ 0xF4 then ({ p with utf8 := [b], utf8Need := 3 }, [])
  else (p, [.print REPLACEMENT])

def ground (b : UInt8) (p : Parser) : Checked (Parser × List Action) :=
  if p.utf8Need > 0 then
    if isContinuation b then do
      let p ← p.utf8Push b
      let need ← sub p.utf8Need 1
      let p := { p with utf8Need := need }
      if need = 0 then
        match fromUtf8 p.utf8 with
        | some s =>
            let c ← unwrap s.head?
            return (p.utf8Reset, [.print c])
        | none => return (p.utf8Reset, [.print REPLACEMENT])
      else return (p, [])
    else
      -- malformed: a replacement, and this byte again
      let (p, actions) := groundByte b p.utf8Reset
      .ok (p, .print REPLACEMENT :: actions)
  else .ok (groundByte b p)

/-- The bytes every state that is neither ground nor a string treats alike. -/
def anywhere (b : UInt8) (p : Parser) : Option (Parser × List Action) :=
  let n := b.toNat
  if n = 0x1B then some ({ p with state := .escape }, [])
  else if n = 0x18 ∨ n = 0x1A then some ({ p with state := .ground }, [.execute b])
  else if 0x80 ≤ n ∧ n ≤ 0x9F then some (c1 b { p with state := .ground })
  else none

def pushIntermediate (b : UInt8) (p : Parser) : Parser :=
  if p.intermediates.length < MAX_INTERMEDIATES then
    { p with intermediates := p.intermediates ++ [b] }
  else p

theorem pushIntermediate_state (b : UInt8) (p : Parser) :
    (p.pushIntermediate b).state = p.state := by
  unfold pushIntermediate
  split <;> rfl

def escape (b : UInt8) (p : Parser) : Parser × List Action :=
  let n := b.toNat
  match anywhere b p with
  | some out => out
  | none =>
      if n ≤ 0x1F then (p, [.execute b])
      else if n ≤ 0x2F then
        ({ p.clear with intermediates := [b], state := .escapeIntermediate }, [])
      else if n = '['.toNat then ({ p.clear with state := .csiEntry }, [])
      else if n = ']'.toNat then (p.startString .oscString, [])
      else if n = 'P'.toNat then ({ p.clear with state := .dcsEntry }, [])
      else if n = '_'.toNat then (p.startString .apcString, [])
      else if n = 'X'.toNat ∨ n = '^'.toNat then (p.startString .sosPmString, [])
      else if n ≤ 0x7E then ({ p with state := .ground }, [.esc [] b])
      else (p, [])

def escapeIntermediate (b : UInt8) (p : Parser) : Parser × List Action :=
  let n := b.toNat
  match anywhere b p with
  | some out => out
  | none =>
      if n ≤ 0x1F then (p, [.execute b])
      else if n ≤ 0x2F then (p.pushIntermediate b, [])
      else if n ≤ 0x7E then
        ({ p with intermediates := [], state := .ground }, [.esc p.intermediates b])
      else (p, [])

def paramDigit (b : UInt8) (p : Parser) : Checked Parser := do
  let digit ← sub b.toNat '0'.toNat
  let shifted ← mul 32 p.curVal 10
  let value ← add 32 shifted digit
  return { p with curVal := min value 65535, partSeen := true }

def paramColon (p : Parser) : Parser :=
  { p with
    curParts :=
      if p.curParts.length < MAX_SUBPARAMS then p.curParts ++ [p.curVal % 2 ^ 16] else p.curParts,
    curVal := 0, partSeen := true }

/-- The list of parameters with one more, if there is room. -/
def pushParam (parts : List Nat) (params : Params) : Params :=
  if params.length < MAX_PARAMS then params ++ [parts] else params

def paramSemicolon (p : Parser) : Parser :=
  { p with
    params := pushParam (p.curParts ++ [p.curVal % 2 ^ 16]) p.params, curParts := [], curVal := 0,
    partSeen := true }

/-- The parameters of the finished sequence, and the parser without them. -/
def takeParams (p : Parser) : Params × Parser :=
  let params :=
    if p.partSeen || !p.curParts.isEmpty then
      pushParam (p.curParts ++ [p.curVal % 2 ^ 16]) p.params
    else p.params
  (params, { p with params := [], curParts := [], curVal := 0, partSeen := false })

def csiDispatch (b : UInt8) (p : Parser) : Parser × List Action :=
  let (params, p) := p.takeParams
  ({ p with intermediates := [], state := .ground }, [.csi params p.intermediates p.marker b])

/-- The bytes of a parameter list, shared by the CSI and DCS states. -/
def paramByte (b : UInt8) (next : State) (p : Parser) : Checked (Parser × List Action) := do
  let p ← (if b.toNat = ':'.toNat then pure p.paramColon
    else if b.toNat = ';'.toNat then pure p.paramSemicolon
    else p.paramDigit b)
  return ({ p with state := next }, [])

def csiEntry (b : UInt8) (p : Parser) : Checked (Parser × List Action) :=
  let n := b.toNat
  match anywhere b p with
  | some out => .ok out
  | none =>
      if n ≤ 0x1F then .ok (p, [.execute b])
      else if n ≤ 0x2F then
        .ok ({ p with intermediates := p.intermediates ++ [b], state := .csiIntermediate }, [])
      else if n ≤ ';'.toNat then paramByte b .csiParam p
      else if n ≤ 0x3F then .ok ({ p with marker := b, state := .csiParam }, [])
      else if n ≤ 0x7E then .ok (csiDispatch b p)
      else .ok (p, [])

def csiParam (b : UInt8) (p : Parser) : Checked (Parser × List Action) :=
  let n := b.toNat
  match anywhere b p with
  | some out => .ok out
  | none =>
      if n ≤ 0x1F then .ok (p, [.execute b])
      else if n ≤ 0x2F then .ok ({ p.pushIntermediate b with state := .csiIntermediate }, [])
      else if n ≤ ';'.toNat then paramByte b .csiParam p
      else if n ≤ 0x3F then .ok ({ p with state := .csiIgnore }, [])
      else if n ≤ 0x7E then .ok (csiDispatch b p)
      else .ok (p, [])

def csiIntermediate (b : UInt8) (p : Parser) : Parser × List Action :=
  let n := b.toNat
  match anywhere b p with
  | some out => out
  | none =>
      if n ≤ 0x1F then (p, [.execute b])
      else if n ≤ 0x2F then (p.pushIntermediate b, [])
      else if n ≤ 0x3F then ({ p with state := .csiIgnore }, [])
      else if n ≤ 0x7E then csiDispatch b p
      else (p, [])

def csiIgnore (b : UInt8) (p : Parser) : Parser × List Action :=
  let n := b.toNat
  match anywhere b p with
  | some out => out
  | none =>
      if n ≤ 0x1F then (p, [.execute b])
      else if 0x40 ≤ n ∧ n ≤ 0x7E then ({ p.clear with state := .ground }, [])
      else (p, [])

def pushStringByte (b : UInt8) (cap : Nat) (p : Parser) : Parser :=
  if p.stringBuf.length < cap then { p with stringBuf := p.stringBuf ++ [b] }
  else { p with stringOverflow := true }

theorem pushStringByte_state (b : UInt8) (cap : Nat) (p : Parser) :
    (p.pushStringByte b cap).state = p.state := by
  unfold pushStringByte
  split <;> rfl

/-- The finished string as an action, unless it overflowed. -/
def finishString (action : Bytes → Action) (p : Parser) : Parser × List Action :=
  ({ p with stringBuf := [], stringOverflow := false },
    if p.stringOverflow then [] else [action p.stringBuf])

def finishOsc (bel : Bool) (p : Parser) : Parser × List Action :=
  let (p, actions) := p.finishString fun data => .osc data bel
  ({ p with state := .ground }, actions)

def oscString (b : UInt8) (p : Parser) : Parser × List Action :=
  let n := b.toNat
  if n = 0x07 then finishOsc true p
  else if n = 0x1B then
    let (p, actions) := finishOsc false p
    ({ p with state := .escape }, actions)
  else if n = 0x18 ∨ n = 0x1A then ({ p with state := .ground }, [])
  else if n ≤ 0x1F then (p, [])
  else (p.pushStringByte b MAX_OSC, [])

def apcString (b : UInt8) (p : Parser) : Parser × List Action :=
  let n := b.toNat
  if n = 0x1B then
    let (p, actions) := p.finishString .apc
    ({ p with state := .escape }, actions)
  else if n = 0x18 ∨ n = 0x1A then ({ p with state := .ground }, [])
  else (p.pushStringByte b MAX_APC, [])

def sosPm (b : UInt8) (p : Parser) : Parser × List Action :=
  let n := b.toNat
  if n = 0x1B then ({ p with state := .escape }, [])
  else if n = 0x18 ∨ n = 0x1A ∨ n = 0x9C then ({ p with state := .ground }, [])
  else (p, [])

def dcsHook (b : UInt8) (p : Parser) : Parser :=
  { p with dcsFinal := b, stringBuf := [], stringOverflow := false, state := .dcsPassthrough }

def dcsEntry (b : UInt8) (p : Parser) : Checked (Parser × List Action) :=
  let n := b.toNat
  match anywhere b p with
  | some out => .ok out
  | none =>
      if n ≤ 0x1F then .ok (p, [])
      else if n ≤ 0x2F then
        .ok ({ p with intermediates := p.intermediates ++ [b], state := .dcsIntermediate }, [])
      else if n ≤ ';'.toNat then paramByte b .dcsParam p
      else if n ≤ 0x3F then .ok ({ p with marker := b, state := .dcsParam }, [])
      else if n ≤ 0x7E then .ok (p.dcsHook b, [])
      else .ok (p, [])

def dcsParam (b : UInt8) (p : Parser) : Checked (Parser × List Action) :=
  let n := b.toNat
  match anywhere b p with
  | some out => .ok out
  | none =>
      if n ≤ 0x1F then .ok (p, [])
      else if n ≤ 0x2F then .ok ({ p.pushIntermediate b with state := .dcsIntermediate }, [])
      else if n ≤ ';'.toNat then paramByte b .dcsParam p
      else if n ≤ 0x3F then .ok ({ p with state := .dcsIgnore }, [])
      else if n ≤ 0x7E then .ok (p.dcsHook b, [])
      else .ok (p, [])

def dcsIntermediate (b : UInt8) (p : Parser) : Parser × List Action :=
  let n := b.toNat
  match anywhere b p with
  | some out => out
  | none =>
      if n ≤ 0x1F then (p, [])
      else if n ≤ 0x2F then (p.pushIntermediate b, [])
      else if n ≤ 0x3F then ({ p with state := .dcsIgnore }, [])
      else if n ≤ 0x7E then (p.dcsHook b, [])
      else (p, [])

def dcsUnhook (p : Parser) : Parser × List Action :=
  if p.stringOverflow then ({ p with stringBuf := [], stringOverflow := false }.clear, [])
  else
    let (params, p') := p.takeParams
    ({ p' with stringBuf := [], stringOverflow := false }.clear,
      [.dcs params p.intermediates p.dcsFinal p.stringBuf])

def dcsPassthrough (b : UInt8) (p : Parser) : Parser × List Action :=
  let n := b.toNat
  if n = 0x1B then
    let (p, actions) := p.dcsUnhook
    ({ p with state := .escape }, actions)
  else if n = 0x9C then
    let (p, actions) := p.dcsUnhook
    ({ p with state := .ground }, actions)
  else if n = 0x18 ∨ n = 0x1A then ({ p.clear with stringBuf := [], state := .ground }, [])
  else (p.pushStringByte b MAX_DCS, [])

def dcsIgnore (b : UInt8) (p : Parser) : Parser × List Action :=
  let n := b.toNat
  if n = 0x1B then ({ p with state := .escape }, [])
  else if n = 0x18 ∨ n = 0x1A ∨ n = 0x9C then ({ p with state := .ground }, [])
  else (p, [])

def advance (b : UInt8) (p : Parser) : Checked (Parser × List Action) :=
  match p.state with
  | .ground => ground b p
  | .escape => .ok (escape b p)
  | .escapeIntermediate => .ok (escapeIntermediate b p)
  | .csiEntry => csiEntry b p
  | .csiParam => csiParam b p
  | .csiIntermediate => .ok (csiIntermediate b p)
  | .csiIgnore => .ok (csiIgnore b p)
  | .oscString => .ok (oscString b p)
  | .dcsEntry => dcsEntry b p
  | .dcsParam => dcsParam b p
  | .dcsIntermediate => .ok (dcsIntermediate b p)
  | .dcsPassthrough => .ok (dcsPassthrough b p)
  | .dcsIgnore => .ok (dcsIgnore b p)
  | .sosPmString => .ok (sosPm b p)
  | .apcString => .ok (apcString b p)

end Parser

/-- First subparameter of `params[i]`, or `default`. -/
def param (params : Params) (i default : Nat) : Nat :=
  (params[i]?.bind (·.head?)).getD default

/-- Like `param`, with 0 standing for `default`. -/
def paramOr (params : Params) (i default : Nat) : Nat :=
  if param params i 0 = 0 then default else param params i 0

end Posh.Term
