import Posh.Term.Dump
import Posh.Term.Osc

/-!
DCS strings (`dcs.rs`): DECRQSS and XTGETTCAP.
-/

namespace Posh.Term

open Posh.Lib

/-- The bytes of the pairs of hex digits of `s`, taken from byte `i` on. -/
def hexDecodeLoop (s : List Char) : (pairs i : Nat) → Fallible Unit Bytes
  | 0, _ => return []
  | pairs + 1, i => do
      let v ← hexField s i 2
      let rest ← hexDecodeLoop s pairs (i + 2)
      return UInt8.ofNat v :: rest

def hexDecode (s : List Char) : Fallible Unit (List Char) := do
  if utf8Length s % 2 ≠ 0 then .fail ()
  else
    let out ← hexDecodeLoop s (utf8Length s / 2) 0
    Fallible.ofOption () (fromUtf8 out)

def upperDigit (n : Nat) : Char :=
  if n < 10 then Char.ofNat ('0'.toNat + n) else Char.ofNat ('A'.toNat + n - 10)

def hexEncode (s : List Char) : List Char :=
  (toUtf8 s).flatMap fun b => [upperDigit (b.toNat / 16), upperDigit (b.toNat % 16)]

/-- The value of a terminfo capability, empty for a flag. -/
def capability (name : List Char) : Option (List Char) :=
  if name = "colors".toList ∨ name = "Co".toList then some "256".toList
  else if name = "RGB".toList ∨ name = "Tc".toList then some []
  else none

namespace Terminal

/-- The setting DECRQSS asks for. -/
def requestedSetting (data : Bytes) (t : Terminal) : Checked (Option (List Char)) :=
  if data = toUtf8 "m".toList then return some (sgrParams t.cursor.style ++ "m".toList)
  else if data = toUtf8 " q".toList then return some (decimal t.cursorStyleRaw ++ " q".toList)
  else if data = toUtf8 "r".toList then do
    let (top, bot) ← t.region
    let top ← add 16 top 1
    let bot ← add 16 bot 1
    return some (decimal top ++ ";".toList ++ decimal bot ++ "r".toList)
  else return none

def decrqss (data : Bytes) (t : Terminal) : Checked Terminal := do
  let resp ← t.requestedSetting data
  match resp with
  | some v => return t.respond ("\x1bP1$r".toList ++ v ++ "\x1b\\".toList)
  | none => return t.respond "\x1bP0$r\x1b\\".toList

/-- The reply to one name of an XTGETTCAP query. -/
def capabilityReply (nameHex : List Char) : Checked (List Char) := do
  let decoded ← (hexDecode nameHex).result
  match decoded with
  | .error _ => return "\x1bP0+r".toList ++ nameHex ++ "\x1b\\".toList
  | .ok name =>
      match capability name with
      | some [] => return "\x1bP1+r".toList ++ hexEncode name ++ "\x1b\\".toList
      | some v =>
          return "\x1bP1+r".toList ++ hexEncode name ++ "=".toList ++ hexEncode v ++ "\x1b\\".toList
      | none => return "\x1bP0+r".toList ++ hexEncode name ++ "\x1b\\".toList

def xtgettcap (data : Bytes) (t : Terminal) : Checked Terminal :=
  match fromUtf8 data with
  | none => return t
  | some s => forEach (s.splitOn ';') t fun nameHex t => do
      let reply ← capabilityReply nameHex
      return t.respond reply

def dcsDispatch (intermediates : Bytes) (finalByte : UInt8) (data : Bytes) (t : Terminal) :
    Checked Terminal :=
  match intermediates.head?.map fun i => Char.ofNat i.toNat with
  | some '$' => if finalByte.toNat = 'q'.toNat then t.decrqss data else return t
  | some '+' => if finalByte.toNat = 'q'.toNat then t.xtgettcap data else return t
  | _ => return t

end Terminal

end Posh.Term
