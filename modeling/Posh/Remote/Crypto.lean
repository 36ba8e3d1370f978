import Posh.Lib.Bitmap
import Posh.Lib.Bytes

/-!
Datagram encryption (`remote/crypto.rs`): sealing, opening, and the window that keeps
replayed datagrams out.

The cipher under one key is a parameter. A sealed datagram is its nonce value, big-endian,
and the cipher's output; the nonce value holds the direction in its top bit and the
sequence number below.
-/

namespace Posh.Remote

open Posh.Lib

/-- The AEAD under one key. -/
structure Aead where
  encrypt : (nonce plaintext : Bytes) → Option Bytes
  decrypt : (nonce ciphertext : Bytes) → Option Bytes

def NONCE_PREFIX_LEN : Nat := 8
def TAG_LEN : Nat := 16
def SEAL_OVERHEAD : Nat := NONCE_PREFIX_LEN + TAG_LEN

def DIRECTION_MASK : UInt64 := (1 : UInt64) <<< 63
def SEQUENCE_MASK : UInt64 := ~~~DIRECTION_MASK

inductive Direction where
  | toServer
  | toClient
deriving DecidableEq, Repr

namespace Direction

def bit : Direction → UInt64
  | toClient => DIRECTION_MASK
  | toServer => 0

/-- The direction of the other end. -/
def opposite : Direction → Direction
  | toClient => toServer
  | toServer => toClient

/-- The direction a nonce value carries. -/
def ofValue (val : UInt64) : Direction :=
  if val &&& DIRECTION_MASK ≠ 0 then toClient else toServer

end Direction

/-- The nonce value, padded to 96 bits. -/
def nonceBytes (val : UInt64) : Bytes :=
  List.replicate 4 0 ++ beBytes NONCE_PREFIX_LEN val.toNat

/-- Rejects sequence numbers below the highest seen, except inside a 64-entry reorder
window tracked by bitmap. -/
structure ReplayWindow where
  highest : UInt64 := 0
  bitmap : BitVec 64 := 0
  initialized : Bool := false
deriving DecidableEq, Repr

def ReplayWindow.check (seq : UInt64) (w : ReplayWindow) : Except String Unit × ReplayWindow :=
  if !w.initialized then (.ok (), { highest := seq, bitmap := 1#64, initialized := true })
  else if seq > w.highest then
    let shift := seq - w.highest
    let bitmap := if shift ≥ 64 then 0#64 else w.bitmap <<< shift.toNat
    (.ok (), { w with bitmap := bitmap ||| 1#64, highest := seq })
  else
    let diff := w.highest - seq
    if diff ≥ 64 then (.error "sequence number too old", w)
    else if w.bitmap &&& (1#64 <<< diff.toNat) ≠ 0 then (.error "replayed sequence number", w)
    else (.ok (), { w with bitmap := w.bitmap ||| (1#64 <<< diff.toNat) })

structure Session where
  sendDir : Direction
  /-- A `u64` that only counts up. -/
  nextSeq : Nat := 0
  replay : ReplayWindow := {}
deriving DecidableEq, Repr

namespace Session

variable (aead : Aead)

def seal_ (plaintext : Bytes) (s : Session) : Except String Bytes × Session :=
  let val := s.sendDir.bit ||| (UInt64.ofNat s.nextSeq &&& SEQUENCE_MASK)
  let s := { s with nextSeq := s.nextSeq + 1 }
  match aead.encrypt (nonceBytes val) plaintext with
  | some ciphertext => (.ok (beBytes NONCE_PREFIX_LEN val.toNat ++ ciphertext), s)
  | none => (.error "encryption failed", s)

/-- The nonce value at the head of a datagram. -/
def nonceValue (datagram : Bytes) : UInt64 :=
  UInt64.ofNat (ofBeBytes (datagram.take NONCE_PREFIX_LEN))

/-- Authenticates and decrypts a datagram from the peer: not one of our own direction, and
no replay. The window is asked only after the authentication, so that forged datagrams
cannot poison it. -/
def open_ (datagram : Bytes) (s : Session) : Except String (UInt64 × Bytes) × Session :=
  if datagram.length < SEAL_OVERHEAD then (.error "datagram too short", s)
  else
    let val := nonceValue datagram
    if Direction.ofValue val = s.sendDir then (.error "wrong packet direction", s)
    else
      match aead.decrypt (nonceBytes val) (datagram.drop NONCE_PREFIX_LEN) with
      | none => (.error "authentication failed", s)
      | some plaintext =>
          let seq := val &&& SEQUENCE_MASK
          match s.replay.check seq with
          | (.error e, replay) => (.error e, { s with replay })
          | (.ok (), replay) => (.ok (seq, plaintext), { s with replay })

end Session

end Posh.Remote
