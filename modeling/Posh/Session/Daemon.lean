import Posh.Session.Backlog
import Posh.Session.Filter

/-!
The loop of the session daemon (`daemon_loop`): one iteration as a function of the daemon's
state and of what the iteration finds ready.

What sockets and the PTY deliver appears as the fields of `Turn`. The recording, the log and
the input written to the PTY leave no trace in the state and are not modelled; the record
`Tag::Info` asks for is a parameter.
-/

namespace Posh.Session

open Posh.Lib Posh.Term

structure Daemon where
  term : Terminal
  clients : List ClientConn := []
  filter : ScreenSwitchFilter := {}
  hasPtyOutput : Bool := false
  /-- The size last set on the PTY. -/
  ptySize : Nat × Nat

/-- What reading a client's socket returned. -/
inductive SocketRead where
  | data (bytes : Bytes)
  | eof
  | wouldBlock
  | failed
deriving DecidableEq, Repr

/-- What writing to a client's socket returned. -/
inductive SocketWrite where
  | wrote (n : Nat)
  | wouldBlock
  | failed
deriving DecidableEq, Repr

/-- What `poll` reported for a client: a read if it is readable, a write if it is writable. -/
structure ConnEvents where
  read : Option SocketRead := none
  write : Option SocketWrite := none
  hangup : Bool := false
deriving DecidableEq, Repr

/-- What reading the PTY returned. -/
inductive PtyEvent where
  | idle
  | data (read : PtyRead)
  | closed

inductive PollResult where
  | ready
  | interrupted
  | failed
deriving DecidableEq, Repr

/-- What one iteration finds. -/
structure Turn where
  sigterm : Bool := false
  poll : PollResult := .ready
  listenerFailed : Bool := false
  accepted : Bool := false
  pty : PtyEvent := .idle
  /-- By the place of the client in the list that was polled. -/
  revents : Nat → ConnEvents := fun _ => {}

/-! ### The shared window size -/

/-- Elementwise minimum size across all clients that have reported one. -/
def minClientSize (clients : List ClientConn) : Option (Nat × Nat) :=
  clients.foldl
    (fun acc c =>
      if c.rows = 0 ∨ c.cols = 0 then acc
      else
        match acc with
        | none => some (c.rows, c.cols)
        | some (r, w) => some (min r c.rows, min w c.cols))
    none

def applyClientSize (d : Daemon) : Checked Daemon :=
  match minClientSize d.clients with
  | some (rows, cols) => do
      let term ← d.term.resize rows cols
      return { d with ptySize := (rows, cols), term }
  | none => return d

/-! ### A client's turn -/

/-- A client while its events are handled. -/
structure Visit where
  conn : ClientConn
  remove : Bool := false
  resized : Bool := false
  needsReplay : Bool := false
  detachAll : Bool := false
  kill : Bool := false

namespace Visit

/-- No more frames of this client are taken. -/
def breaksOff (v : Visit) : Bool :=
  v.remove || v.detachAll || v.kill

/-- The size a client reports. -/
def report (payload : Bytes) (v : Visit) : Visit :=
  match decodeResize payload with
  | some (rows, cols) => { v with conn := { v.conn with rows, cols }, resized := true }
  | none => v

def queue (tag : Tag) (payload : Bytes) (v : Visit) : Visit :=
  { v with conn := v.conn.queue tag payload }

/-- One frame of a client. -/
def handle (info : Bytes) (d : Daemon) (frame : Frame) (v : Visit) : Checked Visit :=
  match frame.tag with
  | .input => return v
  | .init => return { v.report frame.payload with needsReplay := d.hasPtyOutput }
  | .resize => return v.report frame.payload
  | .detach => return { v with remove := true }
  | .detachAll => return { v with detachAll := true }
  | .kill => return { v with kill := true }
  | .info => return v.queue .info info
  | .history => do
      let out ←
        (if decodeHistoryFormat frame.payload then d.term.dumpVt
        else toUtf8 <$> d.term.dumpText)
      return v.queue .history out
  | .run => return v.queue .ack []
  | .output | .ack | .exit => return v

/-- The frames a client has sent, as far as they are complete. Each takes bytes from the
buffer (`FrameBuffer.next_shrinks`), so that `fuel` of their number is enough. -/
def frames (info : Bytes) (d : Daemon) : (fuel : Nat) → Visit → Checked Visit
  | 0, v => return v
  | fuel + 1, v =>
      match v.conn.readBuf.next with
      | (.ok none, readBuf) => return { v with conn := { v.conn with readBuf } }
      | (.error _, readBuf) => return { v with conn := { v.conn with readBuf }, remove := true }
      | (.ok (some frame), readBuf) => do
          let v ← handle info d frame { v with conn := { v.conn with readBuf } }
          if v.breaksOff then return v else frames info d fuel v

def readable (info : Bytes) (d : Daemon) (read : SocketRead) (v : Visit) : Checked Visit :=
  match read with
  | .eof | .failed => return { v with remove := true }
  | .wouldBlock => frames info d (v.conn.readBuf.unread.length + 1) v
  | .data bytes =>
      let v := { v with conn := { v.conn with readBuf := v.conn.readBuf.feed bytes } }
      frames info d (v.conn.readBuf.unread.length + 1) v

def writable (write : SocketWrite) (v : Visit) : Visit :=
  if v.remove || v.conn.writeBuf.isEmpty then v
  else
    match write with
    | .wrote n => { v with conn := v.conn.write n }
    | .wouldBlock => v
    | .failed => { v with remove := true }

end Visit

/-- A client's events are handled. -/
def visit (info : Bytes) (d : Daemon) (revents : ConnEvents) (conn : ClientConn) : Checked Visit := do
  let v ←
    (match revents.read with
    | some read => ({ conn } : Visit).readable info d read
    | none => return { conn })
  if v.kill then return v
  else
    let v :=
      match revents.write with
      | some write => v.writable write
      | none => v
    return if revents.hangup then { v with remove := true } else v

/-! ### The iteration -/

namespace Daemon

/-- Drops stuck readers. -/
def dropSlow (d : Daemon) : Daemon :=
  { d with clients := d.clients.filter ClientConn.retained }

def accept (d : Daemon) : Daemon :=
  { d with clients := d.clients ++ [{}] }

/-- PTY output into the terminal model and to all clients. -/
def readPty (read : PtyRead) (d : Daemon) : Checked Daemon := do
  let s ← ({ filter := d.filter, term := d.term } : Broadcast).feed read.files read.chunk
  return { d with
    term := { s.term with responses := [] }
    filter := s.filter
    hasPtyOutput := true
    clients := if s.out.isEmpty then d.clients else d.clients.map (·.queue .output s.out) }

/-- What follows a client's visit: it leaves, the size is set, the screen is replayed. -/
def settle (i : Nat) (v : Visit) (d : Daemon) : Checked Daemon := do
  let d ←
    (if v.remove then do
      let (_, clients) ← removeAt d.clients i
      pure { d with clients }
    else pure d)
  let d ← (if v.remove || v.resized then applyClientSize d else pure d)
  if v.needsReplay && !v.remove && i < d.clients.length then do
    let dump ← d.term.dumpVtFlat
    return { d with clients := d.clients.modify i (·.queue .output dump) }
  else return d

/-- The polled clients from the last to the first; `none` when the loop is left. -/
def walk (info : Nat → Bytes) (revents : Nat → ConnEvents) : (i : Nat) → Daemon →
    Checked (Option Daemon)
  | 0, d => return some d
  | i + 1, d => do
      let conn ← getAt d.clients i
      let v ← visit (info (d.clients.length - 1)) d (revents i) conn
      if v.kill then return none
      else if v.detachAll then return some { d with clients := [] }
      else
        let clients ← setAt d.clients i v.conn
        let d ← settle i v { d with clients }
        walk info revents i d

/-- One iteration; `none` when the loop is left. -/
def iterate (info : Nat → Bytes) (turn : Turn) (d : Daemon) : Checked (Option Daemon) :=
  if turn.sigterm then return none
  else
    let d := d.dropSlow
    let polled := d.clients.length
    match turn.poll with
    | .interrupted => return some d
    | .failed => return none
    | .ready =>
        if turn.listenerFailed then return none
        else
          let d := if turn.accepted then d.accept else d
          match turn.pty with
          | .closed => return none
          | .idle => walk info turn.revents (min d.clients.length polled) d
          | .data read => do
              let d ← d.readPty read
              walk info turn.revents (min d.clients.length polled) d

/-- The daemon as `daemon_main` starts it. -/
def start : Daemon :=
  { term := Terminal.withScrollback 24 80 SCROLLBACK, ptySize := (24, 80) }

/-- The daemon's loop as a transition system. -/
def system (info : Nat → Bytes) : Transition Daemon where
  init d := d = start
  step d d' := ∃ turn, d.iterate info turn = .ok (some d')

end Daemon

end Posh.Session
