import Posh.Lib.Utf8

/-!
The JSON reader of the recording format (`json.rs`): a recursive-descent parser
over a byte cursor.

The type `f64` is a parameter with the operations the recorder and its reader use.
An error carries what its message shows.
-/

namespace Posh.Rec

open Posh.Lib

/-- What the recorder and its reader use of `f64`. -/
structure F64 (F : Type) where
  /-- `format!("{t}")` -/
  display : F → List Char
  /-- `s.parse::<f64>()` -/
  parse : List Char → Option F
  /-- `t.is_finite()` -/
  isFinite : F → Bool
  /-- `n.fract() == 0.0` -/
  isInteger : F → Bool
  /-- `n >= 0.0 && n <= u16::MAX as f64` -/
  inU16 : F → Bool
  /-- `n as u16` -/
  toU16 : F → UInt16
  /-- `0.0` -/
  zero : F
  /-- `0.1` -/
  tenth : F

namespace Json

/-- A parsed JSON value. -/
inductive Value (F : Type) where
  | null
  | bool (b : Bool)
  | num (n : F)
  | str (s : List Char)
  | arr (items : List (Value F))
  /-- Insertion-ordered fields. -/
  | obj (fields : List (List Char × Value F))

inductive Error where
  /-- "unexpected byte {b} at {pos}" -/
  | unexpectedByte (b : UInt8) (pos : Nat)
  /-- "unexpected end of input" -/
  | unexpectedEnd
  /-- "expected object key at byte {pos}" -/
  | expectedKey (pos : Nat)
  /-- "expected ':' after key {key}" -/
  | expectedColon (key : List Char)
  /-- "expected ',' or '}' in object, got {got}" -/
  | inObject (got : Option UInt8)
  /-- "expected ',' or ']' in array, got {got}" -/
  | inArray (got : Option UInt8)
  /-- "unterminated string" -/
  | unterminatedString
  /-- "unterminated escape" -/
  | unterminatedEscape
  /-- "invalid escape \{b}" -/
  | invalidEscape (b : UInt8)
  /-- "invalid UTF-8 in string" -/
  | invalidUtf8
  /-- "truncated \u escape" -/
  | truncatedUnicode
  /-- "invalid hex digit {b}" -/
  | invalidHexDigit (b : UInt8)
  /-- "invalid number {s}" -/
  | invalidNumber (s : List Char)
  /-- "invalid literal at byte {pos}" -/
  | invalidLiteral (pos : Nat)
  /-- "trailing data at byte {pos}" -/
  | trailingData (pos : Nat)
  /-- The nesting went deeper than there are bytes: no error of the source. -/
  | outOfFuel
deriving DecidableEq, Repr

namespace Value

variable {F : Type} (f64 : F64 F)

def asF64 : Value F → Option F
  | num n => some n
  | _ => none

/-- An integer-valued number within `u16` range. -/
def asU16 : Value F → Option UInt16
  | num n => if f64.isInteger n && f64.inU16 n then some (f64.toU16 n) else none
  | _ => none

def asStr : Value F → Option (List Char)
  | str s => some s
  | _ => none

def asArray : Value F → Option (List (Value F))
  | arr a => some a
  | _ => none

/-- An object field by key: first match wins. -/
def get (key : List Char) : Value F → Option (Value F)
  | obj fields => (fields.find? fun (k, _) => k == key).map (·.2)
  | _ => none

end Value

/-- The bytes from the cursor on, and the cursor. -/
structure Parser where
  rest : Bytes
  pos : Nat := 0
deriving DecidableEq, Repr

namespace Parser

def peek (p : Parser) : Option UInt8 :=
  p.rest.head?

/-- The cursor `n` bytes on. -/
def skip (n : Nat) (p : Parser) : Parser :=
  { rest := p.rest.drop n, pos := p.pos + n }

def bump (p : Parser) : Option UInt8 × Parser :=
  (p.peek, if p.peek.isSome then p.skip 1 else p)

def isWs (b : UInt8) : Bool :=
  b.toNat == 0x20 || b.toNat == 0x09 || b.toNat == 0x0A || b.toNat == 0x0D

def skipWs (p : Parser) : Parser :=
  p.skip (p.rest.takeWhile isWs).length

/-! ### Strings -/

def hexDigit (b : UInt8) : Option Nat :=
  let n := b.toNat
  if 0x30 ≤ n ∧ n ≤ 0x39 then some (n - 0x30)
  else if 0x61 ≤ n ∧ n ≤ 0x66 then some (n - 0x61 + 10)
  else if 0x41 ≤ n ∧ n ≤ 0x46 then some (n - 0x41 + 10)
  else none

/-- The hex digits of a `\u` escape, `n` of them still to come after the value `v`. -/
def hexDigits : (n v : Nat) → Parser → Except Error (Nat × Parser)
  | 0, v, p => return (v, p)
  | n + 1, v, p =>
      match p.bump with
      | (none, _) => throw .truncatedUnicode
      | (some b, p) =>
          match hexDigit b with
          | none => throw (.invalidHexDigit b)
          | some d => hexDigits n (v * 16 + d) p

def parseHex4 (p : Parser) : Except Error (Nat × Parser) :=
  hexDigits 4 0 p

def REPLACEMENT : Char :=
  Char.ofNat 0xFFFD

/-- `char::from_u32(n).unwrap_or('\u{FFFD}')` -/
def charOr (n : Nat) : Char :=
  if n.isValidChar then Char.ofNat n else REPLACEMENT

/-- The code units after a `\u`, a high and a low surrogate joined. -/
def parseUnicodeEscape (p : Parser) : Except Error (Char × Parser) := do
  let (hi, p) ← p.parseHex4
  if 0xD800 ≤ hi ∧ hi ≤ 0xDBFF then
    if p.peek = some 0x5C ∧ p.rest[1]? = some 0x75 then
      let (lo, p) ← (p.skip 2).parseHex4
      if 0xDC00 ≤ lo ∧ lo ≤ 0xDFFF then
        return (charOr (0x10000 + (hi - 0xD800) * 1024 + (lo - 0xDC00)), p)
      else return (REPLACEMENT, p)
    else return (REPLACEMENT, p)
  else if 0xDC00 ≤ hi ∧ hi ≤ 0xDFFF then return (REPLACEMENT, p)
  else return (charOr hi, p)

/-- What a `\` stands before: the bytes it means. -/
def parseEscape (p : Parser) : Except Error (Bytes × Parser) :=
  match p.bump with
  | (none, _) => throw .unterminatedEscape
  | (some e, p) =>
      match Char.ofNat e.toNat with
      | '\"' => return ([0x22], p)
      | '\\' => return ([0x5C], p)
      | '/' => return ([0x2F], p)
      | 'b' => return ([0x08], p)
      | 'f' => return ([0x0C], p)
      | 'n' => return ([0x0A], p)
      | 'r' => return ([0x0D], p)
      | 't' => return ([0x09], p)
      | 'u' => do
          let (ch, p) ← p.parseUnicodeEscape
          return (String.utf8EncodeChar ch, p)
      | _ => throw (.invalidEscape e)

/-- The bytes of a string up to its closing quote; `fuel` bounds its bytes. -/
def stringLoop : (fuel : Nat) → Parser → Bytes → Except Error (Bytes × Parser)
  | 0, _, _ => throw .unterminatedString
  | fuel + 1, p, out =>
      match p.bump with
      | (none, _) => throw .unterminatedString
      | (some b, p) =>
          if b.toNat = 0x22 then return (out, p)
          else if b.toNat = 0x5C then do
            let (bytes, p) ← p.parseEscape
            stringLoop fuel p (out ++ bytes)
          else stringLoop fuel p (out ++ [b])

def parseString (p : Parser) : Except Error (List Char × Parser) := do
  let p := p.skip 1
  let (out, p) ← stringLoop p.rest.length p []
  match fromUtf8 out with
  | some s => return (s, p)
  | none => throw .invalidUtf8

/-! ### Values -/

def isDigit (b : UInt8) : Bool :=
  0x30 ≤ b.toNat && b.toNat ≤ 0x39

/-- The bytes a number is made of. -/
def isNumberByte (b : UInt8) : Bool :=
  isDigit b || b.toNat == '.'.toNat || b.toNat == 'e'.toNat || b.toNat == 'E'.toNat ||
    b.toNat == '+'.toNat || b.toNat == '-'.toNat

variable {F : Type} (f64 : F64 F)

def parseNumber (p : Parser) : Except Error (Value F × Parser) :=
  let sign := if p.peek = some 0x2D then 1 else 0
  let n := sign + ((p.rest.drop sign).takeWhile isNumberByte).length
  let s := (p.rest.take n).map fun b => Char.ofNat b.toNat
  match f64.parse s with
  | some v => return (.num v, p.skip n)
  | none => throw (.invalidNumber s)

def parseBool (p : Parser) : Except Error (Value F × Parser) :=
  if (toUtf8 "true".toList).isPrefixOf p.rest then return (.bool true, p.skip 4)
  else if (toUtf8 "false".toList).isPrefixOf p.rest then return (.bool false, p.skip 5)
  else throw (.invalidLiteral p.pos)

def parseNull (p : Parser) : Except Error (Value F × Parser) :=
  if (toUtf8 "null".toList).isPrefixOf p.rest then return (.null, p.skip 4)
  else throw (.invalidLiteral p.pos)

mutual

def parseValue : (fuel : Nat) → Parser → Except Error (Value F × Parser)
  | 0, _ => throw .outOfFuel
  | fuel + 1, p =>
      match p.peek with
      | none => throw .unexpectedEnd
      | some b =>
          match Char.ofNat b.toNat with
          | '\x7b' => parseObject fuel p
          | '[' => parseArray fuel p
          | '\"' => do
              let (s, p) ← p.parseString
              return (.str s, p)
          | 't' | 'f' => p.parseBool
          | 'n' => p.parseNull
          | c =>
              if c = '-' ∨ isDigit b then p.parseNumber f64
              else throw (.unexpectedByte b p.pos)

def parseObject : (fuel : Nat) → Parser → Except Error (Value F × Parser)
  | 0, _ => throw .outOfFuel
  | fuel + 1, p =>
      let p := (p.skip 1).skipWs
      if p.peek = some 0x7D then return (.obj [], p.skip 1)
      else objectLoop fuel p []

/-- The fields of an object from its next key on. -/
def objectLoop : (fuel : Nat) → Parser → List (List Char × Value F) →
    Except Error (Value F × Parser)
  | 0, _, _ => throw .outOfFuel
  | fuel + 1, p, out => do
      let p := p.skipWs
      if p.peek ≠ some 0x22 then throw (.expectedKey p.pos)
      else
        let (key, p) ← p.parseString
        match p.skipWs.bump with
        | (some 0x3A, p) =>
            let (val, p) ← parseValue fuel p.skipWs
            match p.skipWs.bump with
            | (some 0x2C, p) => objectLoop fuel p (out ++ [(key, val)])
            | (some 0x7D, p) => return (.obj (out ++ [(key, val)]), p)
            | (other, _) => throw (.inObject other)
        | _ => throw (.expectedColon key)

def parseArray : (fuel : Nat) → Parser → Except Error (Value F × Parser)
  | 0, _ => throw .outOfFuel
  | fuel + 1, p =>
      let p := (p.skip 1).skipWs
      if p.peek = some 0x5D then return (.arr [], p.skip 1)
      else arrayLoop fuel p []

/-- The items of an array from the next one on. -/
def arrayLoop : (fuel : Nat) → Parser → List (Value F) → Except Error (Value F × Parser)
  | 0, _, _ => throw .outOfFuel
  | fuel + 1, p, out => do
      let (val, p) ← parseValue fuel p.skipWs
      match p.skipWs.bump with
      | (some 0x2C, p) => arrayLoop fuel p (out ++ [val])
      | (some 0x5D, p) => return (.arr (out ++ [val]), p)
      | (other, _) => throw (.inArray other)

end

end Parser

/-- A complete JSON value. A value, a container and its loop each take a unit of
fuel for a byte at most, so the fuel never runs out. -/
def parse {F : Type} (f64 : F64 F) (input : List Char) : Except Error (Value F) := do
  let p : Parser := { rest := toUtf8 input }
  let (v, p) ← Parser.parseValue f64 (3 * p.rest.length + 3) p.skipWs
  let p := p.skipWs
  if p.rest ≠ [] then throw (.trailingData p.pos) else return v

end Json

end Posh.Rec
