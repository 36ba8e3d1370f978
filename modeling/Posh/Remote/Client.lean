import Posh.Remote.Server

/-!
The remote client's side of the synchronization (`remote/client.rs`): how a
server frame changes the local terminal model, and the message that answers it.
Rendering, predictions and the status banner read this state and never write
it; they are left out.
-/

namespace Posh.Remote

open Posh.Lib

structure Client (T : Type) where
  serverTerm : T
  rows : Nat
  cols : Nat
  appliedNum : Nat := 0
  appliedData : Bytes := []
  outbox : InputOutbox := {}
  flags : UInt8 := 0
  shutdownSeen : Bool := false
  exitStatus : Int := 0
  /-- Log: every byte pushed into the outbox. -/
  pushed : Bytes := []

namespace Client

variable {T : Type} [Emulator T]

/-- The state `client_loop` starts from. -/
def start (rows cols : Nat) : Client T :=
  { serverTerm := Emulator.withScrollback rows cols 0, rows, cols }

/-- The dump a frame stands for, or the reply when it stands for none: an empty
frame wants no ack, a diff against a state not held wants our (stale) ack. -/
def frameBytes (frame : ServerFrame) (c : Client T) : Except Bool Bytes :=
  match frame.body with
  | .empty => .error false
  | .full bytes => .ok bytes
  | .diff base diff =>
      if base ≠ c.appliedNum then .error true
      else
        match applyDiff c.appliedData diff with
        | some bytes => .ok bytes
        | none => .error true

/-- A fresh terminal fed the dump, clamped back to the real tty's size. -/
def install (num : Nat) (bytes : Bytes) (c : Client T) : Client T :=
  let term : T := Emulator.process (Emulator.withScrollback c.rows c.cols 0) bytes
  let term :=
    if Emulator.rows term ≠ c.rows ∨ Emulator.cols term ≠ c.cols then
      Emulator.resize term c.rows c.cols
    else term
  { c with serverTerm := term, appliedNum := num, appliedData := bytes }

/-- Applies a frame to the local terminal model; the Boolean is true when an ack
should go out. -/
def applyFrame (frame : ServerFrame) (c : Client T) : Client T × Bool :=
  if frame.frameNum < c.appliedNum then (c, true)
  else
    match frameBytes frame c with
    | .error reply => (c, reply)
    | .ok bytes =>
        if frame.frameNum = c.appliedNum then (c, true)
        else (install frame.frameNum bytes c, true)

/-- The acks and the shutdown announcement every frame carries. -/
def noteFrame (frame : ServerFrame) (c : Client T) : Client T :=
  let c := { c with outbox := c.outbox.ack frame.inputAck }
  if frame.flags &&& FLAG_SHUTDOWN ≠ 0 then
    { c with
      shutdownSeen := true,
      exitStatus :=
        match (findCap frame.caps CAP_EXIT_STATUS).bind (·.payload.head?) with
        | some code => code.toNat
        | none => c.exitStatus }
  else c

/-- Handles one decoded server frame. -/
def processFrame (frame : ServerFrame) (c : Client T) : Client T × Bool :=
  applyFrame frame (noteFrame frame c)

/-- The message `send_message` sends. -/
def message (c : Client T) : ClientMessage :=
  { flags := c.flags
    caps := ownTable [⟨CAP_EXIT_STATUS, []⟩]
    ackedFrame := c.appliedNum
    rows := c.rows
    cols := c.cols
    inputBase := c.outbox.base
    input := c.outbox.pending }

/-- Keystrokes entering the reliable input stream. -/
def push (bytes : Bytes) (c : Client T) : Client T :=
  { c with outbox := c.outbox.push bytes, pushed := c.pushed ++ bytes }

end Client

end Posh.Remote
