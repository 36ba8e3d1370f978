import Posh.Lib.Bytes
import Posh.Lib.Patch

/-!
The state-synchronization building blocks of `remote/sync.rs`: the prefix/suffix
binary diff, the frames and messages the two ends exchange, the echo-ack tracker
and the cumulative input stream.

Byte offsets, frame numbers and clocks are `u64` in the source and grow by
additions only; they are natural numbers here. The two lengths a diff carries
are `u32`, and `makeDiff` truncates them as the source's casts do.
-/

namespace Posh.Remote

open Posh.Lib

/-! ### Prefix/suffix binary diff

`[u32 LE prefix][u32 LE suffix][middle bytes]`, where prefix and suffix are
shared with the base and the middle replaces the rest. -/

/-- Length of the common prefix `make_diff` counts. -/
def diffPrefix (old new : Bytes) : Nat :=
  scanWhile (fun i => old[i]? == new[i]?) (min old.length new.length) 0

/-- Length of the common suffix `make_diff` counts, never reaching into the prefix. -/
def diffSuffix (old new : Bytes) : Nat :=
  scanWhile (fun i => old[old.length - 1 - i]? == new[new.length - 1 - i]?)
    (min old.length new.length - diffPrefix old new) 0

def makeDiff (old new : Bytes) : Bytes :=
  let front := diffPrefix old new
  let back := diffSuffix old new
  leBytes 4 front ++ leBytes 4 back ++ (new.drop front).take (new.length - back - front)

def applyDiff (old diff : Bytes) : Option Bytes :=
  if diff.length < 8 then none
  else
    let front := ofLeBytes (diff.take 4)
    let back := ofLeBytes ((diff.drop 4).take 4)
    if front + back > old.length then none
    else some (old.take front ++ diff.drop 8 ++ old.drop (old.length - back))

theorem diffPrefix_le (old new : Bytes) : diffPrefix old new ≤ min old.length new.length := by
  simpa [diffPrefix] using scanWhile_le (fun i => old[i]? == new[i]?) (min old.length new.length) 0

/-- The counted prefix and suffix overlap in neither string. -/
theorem diffPrefix_add_diffSuffix_le (old new : Bytes) :
    diffPrefix old new + diffSuffix old new ≤ min old.length new.length := by
  have front := diffPrefix_le old new
  have back := scanWhile_le (fun i => old[old.length - 1 - i]? == new[new.length - 1 - i]?)
    (min old.length new.length - diffPrefix old new) 0
  unfold diffSuffix
  omega

theorem take_diffPrefix (old new : Bytes) :
    old.take (diffPrefix old new) = new.take (diffPrefix old new) := by
  refine take_eq_of_getElem? fun k inside => ?_
  simpa using scanWhile_holds (Nat.zero_le k) inside

theorem drop_diffSuffix (old new : Bytes) :
    old.drop (old.length - diffSuffix old new) = new.drop (new.length - diffSuffix old new) := by
  have bound := diffPrefix_add_diffSuffix_le old new
  refine drop_eq_of_getElem? (by omega) (by omega) fun k inside => ?_
  simpa using scanWhile_holds (Nat.zero_le k) inside

/-- What `apply_diff` makes of a header and a middle. -/
theorem applyDiff_header (old middle : Bytes) (front back : Nat) :
    applyDiff old (leBytes 4 front ++ leBytes 4 back ++ middle) =
      if front % 2 ^ 32 + back % 2 ^ 32 > old.length then none
      else some (old.take (front % 2 ^ 32) ++ middle ++
        old.drop (old.length - back % 2 ^ 32)) := by
  have first : (leBytes 4 front ++ leBytes 4 back ++ middle).take 4 = leBytes 4 front := by
    rw [List.append_assoc, List.take_append_of_le_length (by simp), List.take_of_length_le (by simp)]
  have second : ((leBytes 4 front ++ leBytes 4 back ++ middle).drop 4).take 4 = leBytes 4 back := by
    rw [List.append_assoc, List.drop_append_of_le_length (by simp), List.drop_of_length_le (by simp),
      List.nil_append, List.take_append_of_le_length (by simp), List.take_of_length_le (by simp)]
  have rest : (leBytes 4 front ++ leBytes 4 back ++ middle).drop 8 = middle := by
    rw [List.drop_append_of_le_length (by simp), List.drop_of_length_le (by simp), List.nil_append]
  have long : ¬ (leBytes 4 front ++ leBytes 4 back ++ middle).length < 8 := by
    simp only [List.length_append, length_leBytes]
    omega
  simp only [applyDiff, if_neg long, first, second, rest, ofLeBytes_leBytes]
  norm_num

/-- A diff against the base it is applied to rebuilds its target. -/
theorem applyDiff_makeDiff {old new : Bytes} (small : old.length < 2 ^ 32) :
    applyDiff old (makeDiff old new) = some new := by
  have bound := diffPrefix_add_diffSuffix_le old new
  have front : diffPrefix old new % 2 ^ 32 = diffPrefix old new := Nat.mod_eq_of_lt (by omega)
  have back : diffSuffix old new % 2 ^ 32 = diffSuffix old new := Nat.mod_eq_of_lt (by omega)
  simp only [makeDiff, applyDiff_header, front, back]
  rw [if_neg (by omega), splice_middle (take_diffPrefix old new) (drop_diffSuffix old new) (by omega)]

/-! ### Frames and messages -/

structure Cap where
  id : UInt8
  payload : Bytes
deriving DecidableEq, Repr

def CAP_PROTOCOL_VERSION : UInt8 := 0
def CAP_EXIT_STATUS : UInt8 := 1
def PROTOCOL_VERSION : UInt8 := 1

/-- `caps::own_table`. -/
def ownTable (extra : List Cap) : List Cap :=
  ⟨CAP_PROTOCOL_VERSION, [PROTOCOL_VERSION]⟩ :: extra

/-- `caps::find`. -/
def findCap (caps : List Cap) (id : UInt8) : Option Cap :=
  caps.find? (·.id == id)

def FLAG_SHUTDOWN : UInt8 := 1
def CLIENT_FLAG_SHUTDOWN : UInt8 := 1

inductive FrameBody where
  | full (bytes : Bytes)
  | diff (base : Nat) (diff : Bytes)
  | empty
deriving DecidableEq, Repr

structure ServerFrame where
  flags : UInt8
  caps : List Cap
  frameNum : Nat
  /-- Input-stream offset received (clears the client's outbox). -/
  inputAck : Nat
  echoAck : Nat
  body : FrameBody
deriving DecidableEq, Repr

structure ClientMessage where
  flags : UInt8
  caps : List Cap
  ackedFrame : Nat
  rows : Nat
  cols : Nat
  inputBase : Nat
  input : Bytes
deriving DecidableEq, Repr

/-! ### Echo acks -/

/-- Milliseconds after which written input counts as echoed. -/
def ECHO_TIMEOUT : Nat := 50

structure EchoAck where
  /-- `(offset, written_at)`, oldest first. -/
  pending : List (Nat × Nat) := []
  acked : Nat := 0
deriving DecidableEq, Repr

namespace EchoAck

def record (e : EchoAck) (offset now : Nat) : EchoAck :=
  let newest := (e.pending.getLast?.map (·.1)).getD e.acked
  if offset > newest then { e with pending := e.pending ++ [(offset, now)] } else e

/-- `update`'s loop: entries at least `ECHO_TIMEOUT` old advance the ack. -/
def drain (now acked : Nat) (changed : Bool) : List (Nat × Nat) → EchoAck × Bool
  | [] => (⟨[], acked⟩, changed)
  | (offset, written) :: rest =>
      if now - written < ECHO_TIMEOUT then (⟨(offset, written) :: rest, acked⟩, changed)
      else drain now offset true rest

def update (e : EchoAck) (now : Nat) : EchoAck × Bool :=
  drain now e.acked false e.pending

/-- Time until the next pending entry matures. -/
def waitTime (now : Nat) (e : EchoAck) : Option Nat :=
  e.pending.head?.map fun (_, written) => written + ECHO_TIMEOUT - now

end EchoAck

/-! ### The cumulative input stream -/

/-- Client side: the unacked tail and the offset of its first byte. -/
structure InputOutbox where
  base : Nat := 0
  buf : Bytes := []
deriving DecidableEq, Repr

namespace InputOutbox

def push (o : InputOutbox) (bytes : Bytes) : InputOutbox :=
  { o with buf := o.buf ++ bytes }

def ack (o : InputOutbox) (upto : Nat) : InputOutbox :=
  if upto > o.base then
    let n := min (upto - o.base) o.buf.length
    ⟨o.base + n, o.buf.drop n⟩
  else o

def endOffset (o : InputOutbox) : Nat := o.base + o.buf.length

def pending (o : InputOutbox) : Bytes := o.buf

def isEmpty (o : InputOutbox) : Bool := o.buf.isEmpty

end InputOutbox

/-- Server side: the next expected input offset. -/
structure InputInbox where
  next : Nat := 0
deriving DecidableEq, Repr

/-- The not-yet-applied suffix of a message's input, if there is one. -/
def InputInbox.accept (i : InputInbox) (base : Nat) (data : Bytes) : InputInbox × Option Bytes :=
  if base > i.next then (i, none)
  else
    let skip := i.next - base
    if skip ≥ data.length then (i, none) else (⟨base + data.length⟩, some (data.drop skip))

end Posh.Remote
