import Posh.Lib.Utf8

/-!
Standard-alphabet base64 (`base64.rs`), used by OSC 52 and kitty graphics.
-/

namespace Posh.Term

open Posh.Lib

namespace Base64

def ALPHABET : List Char :=
  "ABCDEFGHIJKLMNOPQRSTUVWXYZabcdefghijklmnopqrstuvwxyz0123456789+/".toList

/-- `ALPHABET[n & 0x3f]` -/
def letter (n : Nat) : Char :=
  ALPHABET.getD (n % 64) '='

def encode : Bytes → List Char
  | b0 :: b1 :: b2 :: rest =>
      let n := b0.toNat * 2 ^ 16 + b1.toNat * 2 ^ 8 + b2.toNat
      letter (n / 2 ^ 18) :: letter (n / 2 ^ 12) :: letter (n / 2 ^ 6) :: letter n :: encode rest
  | [b0, b1] =>
      let n := b0.toNat * 2 ^ 16 + b1.toNat * 2 ^ 8
      [letter (n / 2 ^ 18), letter (n / 2 ^ 12), letter (n / 2 ^ 6), '=']
  | [b0] =>
      let n := b0.toNat * 2 ^ 16
      [letter (n / 2 ^ 18), letter (n / 2 ^ 12), '=', '=']
  | [] => []

def decodeDigit (b : UInt8) : Option Nat :=
  let n := b.toNat
  if 'A'.toNat ≤ n ∧ n ≤ 'Z'.toNat then some (n - 'A'.toNat)
  else if 'a'.toNat ≤ n ∧ n ≤ 'z'.toNat then some (n - 'a'.toNat + 26)
  else if '0'.toNat ≤ n ∧ n ≤ '9'.toNat then some (n - '0'.toNat + 52)
  else if n = '+'.toNat then some 62
  else if n = '/'.toNat then some 63
  else none

/-- `u8::is_ascii_whitespace` -/
def isAsciiWhitespace (b : UInt8) : Bool :=
  b.toNat ∈ [0x20, 0x09, 0x0A, 0x0C, 0x0D]

/-- The loop of `decode`: the accumulator holds `bits` bits, fewer than eight. -/
def decodeLoop (acc bits : Nat) (done : Bool) : Bytes → Option Bytes
  | [] => some []
  | b :: rest =>
      if isAsciiWhitespace b then decodeLoop acc bits done rest
      else if b.toNat = '='.toNat then decodeLoop acc bits true rest
      else if done then none
      else
        match decodeDigit b with
        | none => none
        | some digit =>
            let acc := acc * 64 + digit
            let bits := bits + 6
            if bits ≥ 8 then
              (decodeLoop (acc % 2 ^ (bits - 8)) (bits - 8) done rest).map
                (UInt8.ofNat (acc / 2 ^ (bits - 8)) :: ·)
            else decodeLoop acc bits done rest

/-- Decodes, ignoring whitespace and tolerating missing padding. -/
def decode (data : Bytes) : Option Bytes :=
  decodeLoop 0 0 false data

end Base64

end Posh.Term
