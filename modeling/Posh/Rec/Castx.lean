import Mathlib.Data.List.DropRight
import Posh.Lib.Utf8Prefix
import Posh.Rec.Json
import Posh.Term.Osc

/-!
The recording format (`castx.rs`): the header and events of a recording, its reader,
and the streaming recorder.

A recording is line-delimited JSON, a superset of asciinema v2. The recorder writes to
a buffer in memory.
-/

namespace Posh.Rec

open Posh.Lib Posh.Term

/-- The posh-rec header extension. -/
structure PoshRec where
  v : UInt16
  emuRev : List Char
deriving DecidableEq, Repr

structure Header where
  version : UInt16
  /-- Terminal width in columns. -/
  width : UInt16
  /-- Terminal height in rows. -/
  height : UInt16
  poshRec : Option PoshRec := none
deriving DecidableEq, Repr

/-- An event's type letter. -/
inductive EventCode where
  | output
  | input
  | resize
  | marker
  | unknown (c : Char)
deriving DecidableEq, Repr

namespace EventCode

def fromLetter (s : List Char) : EventCode :=
  match s.head? with
  | some 'o' => .output
  | some 'i' => .input
  | some 'r' => .resize
  | some 'm' => .marker
  | some c => .unknown c
  | none => .unknown '\x00'

def letter : EventCode → Char
  | .output => 'o'
  | .input => 'i'
  | .resize => 'r'
  | .marker => 'm'
  | .unknown c => c

end EventCode

/-- One recorded event: `[time, code, data]`. -/
structure Event (F : Type) where
  time : F
  code : EventCode
  data : List Char

/-! ### Reading -/

inductive LineError where
  | json (e : Json.Error)
  /-- "header `version` is not an integer" -/
  | versionNotInteger
  /-- "unsupported asciinema version {version}" -/
  | unsupportedVersion (version : UInt16)
  /-- "event is not a JSON array" -/
  | notArray
  /-- "event array needs at least [time, code]" -/
  | tooShort
  /-- "event time is not a number" -/
  | timeNotNumber
  /-- "event code is not a string" -/
  | codeNotString
deriving DecidableEq, Repr

inductive ReadError where
  /-- "empty recording: no header line" -/
  | empty
  /-- "line {line}: {error}" -/
  | at (line : Nat) (error : LineError)
deriving DecidableEq, Repr

/-- `char::is_whitespace` -/
def isWhitespace (c : Char) : Bool :=
  let n := c.toNat
  (0x09 ≤ n && n ≤ 0x0D) || n == 0x20 || n == 0x85 || n == 0xA0 || n == 0x1680 ||
    (0x2000 ≤ n && n ≤ 0x200A) || n == 0x2028 || n == 0x2029 || n == 0x202F || n == 0x205F ||
    n == 0x3000

/-- `str::trim` -/
def trim (s : List Char) : List Char :=
  (s.dropWhile isWhitespace).rdropWhile isWhitespace

/-- `s.strip_suffix('\r').unwrap_or(s)` -/
def stripCr (s : List Char) : List Char :=
  if s.getLast? = some '\r' then s.dropLast else s

section

variable {F : Type} (f64 : F64 F)

def parsePoshRec (v : Json.Value F) : Option PoshRec := do
  let version ← (v.get "v".toList).bind (·.asU16 f64)
  let emuRev ← (v.get "emu_rev".toList).bind (·.asStr)
  return { v := version, emuRev }

def parseHeader (v : Json.Value F) : Except LineError Header := do
  let version ← (match v.get "version".toList with
    | some val =>
        match val.asU16 f64 with
        | some n => pure n
        | none => throw .versionNotInteger
    | none => pure 2)
  if version ≠ 2 then throw (.unsupportedVersion version)
  else
    let width := ((v.get "width".toList).bind (·.asU16 f64)).getD 80
    let height := ((v.get "height".toList).bind (·.asU16 f64)).getD 24
    let poshRec := (v.get "posh_rec".toList).bind (parsePoshRec f64)
    return { version, width, height, poshRec }

def parseEvent (v : Json.Value F) : Except LineError (Event F) :=
  match v.asArray with
  | none => throw .notArray
  | some (first :: second :: rest) =>
      match first.asF64 with
      | none => throw .timeNotNumber
      | some time =>
          match second.asStr with
          | none => throw .codeNotString
          | some letter =>
              let data := (rest.head?.bind (·.asStr)).getD []
              return { time, code := .fromLetter letter, data }
  | some _ => throw .tooShort

/-- The lines of a recording still to be read. -/
structure Reader where
  lines : List (List Char)
  lineNo : Nat := 0
deriving DecidableEq, Repr

namespace Reader

def new (src : List Char) : Reader :=
  { lines := src.splitOn '\n' }

/-- The next line that is not blank. -/
def nextLine : (lines : List (List Char)) → (lineNo : Nat) → Option (List Char) × Reader
  | [], lineNo => (none, { lines := [], lineNo })
  | raw :: lines, lineNo =>
      let line := stripCr raw
      if (trim line).isEmpty then nextLine lines (lineNo + 1)
      else (some line, { lines, lineNo := lineNo + 1 })

/-- A line parsed, its errors with its number. -/
def parseLine {α : Type} (f : Json.Value F → Except LineError α) (line : List Char) (lineNo : Nat) :
    Except ReadError α :=
  match Json.parse f64 line with
  | .error e => .error (.at lineNo (.json e))
  | .ok v => (f v).mapError (.at lineNo)

/-- The header: the first non-blank line. -/
def header (r : Reader) : Except ReadError Header × Reader :=
  match nextLine r.lines r.lineNo with
  | (some line, r) => (parseLine f64 (parseHeader f64) line r.lineNo, r)
  | (none, r) => (.error .empty, r)

/-- The next event, `none` at the end of the input. -/
def nextEvent (r : Reader) : Option (Except ReadError (Event F)) × Reader :=
  match nextLine r.lines r.lineNo with
  | (some line, r) => (some (parseLine f64 parseEvent line r.lineNo), r)
  | (none, r) => (none, r)

end Reader

end

/-! ### Writing -/

/-- One character of a JSON string. -/
def escapeChar (ch : Char) : List Char :=
  match ch with
  | '\"' => "\\\"".toList
  | '\\' => "\\\\".toList
  | '\n' => "\\n".toList
  | '\r' => "\\r".toList
  | '\t' => "\\t".toList
  | '\x08' => "\\b".toList
  | '\x0c' => "\\f".toList
  | c => if c.toNat < 0x20 then "\\u".toList ++ hexPadded 4 c.toNat else [c]

/-- A string as a JSON string. -/
def jsonString (s : List Char) : List Char :=
  ['\"'] ++ s.flatMap escapeChar ++ ['\"']

/-- A header as one JSON line. -/
def writeHeader (h : Header) : List Char :=
  "\x7b\"version\":".toList ++ decimal h.version.toNat ++ ",\"width\":".toList ++
    decimal h.width.toNat ++ ",\"height\":".toList ++ decimal h.height.toNat ++
    (match h.poshRec with
      | some pr =>
          ",\"posh_rec\":\x7b\"v\":".toList ++ decimal pr.v.toNat ++ ",\"emu_rev\":".toList ++
            jsonString pr.emuRev ++ "\x7d".toList
      | none => []) ++ "\x7d".toList

variable {F : Type} (f64 : F64 F)

/-- The shortest decimal that reads back as `t`. -/
def formatTime (t : F) : List Char :=
  f64.display t

/-- An event as one JSON line. -/
def writeEvent (e : Event F) : List Char :=
  "[".toList ++ formatTime f64 e.time ++ ",".toList ++ jsonString [e.code.letter] ++
    ",".toList ++ jsonString e.data ++ "]".toList

/-- The streaming writer. -/
structure Recorder (F : Type) where
  writer : Bytes := []
  pending : Bytes := []
  lastTime : F

namespace Recorder

def new : Recorder F :=
  { lastTime := f64.zero }

/-- The header line. -/
def writeHeader (header : Header) (r : Recorder F) : Recorder F :=
  { r with writer := r.writer ++ toUtf8 (Rec.writeHeader header) ++ toUtf8 ['\n'] }

def writeLine (time : F) (code : EventCode) (data : List Char) (r : Recorder F) : Recorder F :=
  { r with writer := r.writer ++ toUtf8 (writeEvent f64 { time, code, data }) ++ toUtf8 ['\n'] }

/-- The loop of `flush_complete`; `fuel` bounds the ill-formed sequences. -/
def flushCompleteLoop (time : F) : (fuel : Nat) → Recorder F → Recorder F
  | 0, r => r
  | fuel + 1, r =>
      match validUpTo r.pending with
      | (s, []) =>
          if s.isEmpty then r else { writeLine f64 time .output s r with pending := [] }
      | (s, tail) =>
          match errorLen tail with
          | none =>
              -- the end of a character is missing: hold its beginning
              if s.isEmpty then r else { writeLine f64 time .output s r with pending := tail }
          | some bad =>
              flushCompleteLoop time fuel
                { writeLine f64 time .output (s ++ [Json.Parser.REPLACEMENT]) r with
                  pending := tail.drop bad }

/-- `o` events for every complete run of UTF-8, an incomplete tail held. -/
def flushComplete (time : F) (r : Recorder F) : Recorder F :=
  flushCompleteLoop f64 time (r.pending.length + 1) r

/-- What is held goes out, lossily, as one `o` event. -/
def flushHeld (time : F) (r : Recorder F) : Recorder F :=
  if r.pending.isEmpty then r
  else writeLine f64 time .output (fromUtf8Lossy r.pending) { r with pending := [] }

def output (time : F) (bytes : Bytes) (r : Recorder F) : Recorder F :=
  flushComplete f64 time { r with lastTime := time, pending := r.pending ++ bytes }

/-- An `r` event with asciinema's `COLSxROWS`. -/
def resize (time : F) (cols rows : UInt16) (r : Recorder F) : Recorder F :=
  writeLine f64 time .resize (decimal cols.toNat ++ "x".toList ++ decimal rows.toNat)
    (flushHeld f64 time { r with lastTime := time })

def input (time : F) (bytes : Bytes) (r : Recorder F) : Recorder F :=
  writeLine f64 time .input (fromUtf8Lossy bytes) (flushHeld f64 time { r with lastTime := time })

def finish (r : Recorder F) : Recorder F :=
  flushHeld f64 r.lastTime r

end Recorder

end Posh.Rec
