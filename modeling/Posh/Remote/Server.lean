import Posh.Remote.Sync

/-!
The roaming server (`remote/server.rs`): one pass of `server_loop` as a function
of the server's state and of what the pass reads from its surroundings.

The terminal is a parameter: the loop only feeds it bytes, resizes it, compares
its generation and dumps it. Clocks, the connection's pacing, the PTY and the
reaped child appear as the fields of `Tick`. Three fields of the state,
`produced`, `accepted` and `ptyInput`, are logs the source does not keep: the data
of every frame in order, the input `accept` returned, and what the PTY took of it.
-/

namespace Posh.Remote

open Posh.Lib

/-- What the sync layer uses of `posh_term::Terminal`. -/
class Emulator (T : Type) where
  new : (rows cols : Nat) → T
  withScrollback : (rows cols scrollback : Nat) → T
  process : T → Bytes → T
  resize : T → (rows cols : Nat) → T
  takeResponses : T → Bytes × T
  generation : T → Nat
  dumpVt : T → Bytes
  rows : T → Nat
  cols : T → Nat

def HEARTBEAT_INTERVAL : Nat := 3000
def SHUTDOWN_GRACE : Nat := 10000
def PEER_TIMEOUT : Nat := 60000

structure FrameState where
  num : Nat
  data : Bytes
deriving DecidableEq, Repr

structure Server (T : Type) where
  term : T
  inbox : InputInbox := {}
  echo : EchoAck := {}
  current : FrameState := ⟨0, []⟩
  ackedNum : Nat := 0
  /-- `none`: the acked frame's bytes are gone and a full dump must be sent. -/
  ackedData : Option Bytes := some []
  outstanding : List FrameState := []
  lastGen : Nat
  lastSend : Nat := 0
  lastHeard : Nat
  clientSize : Nat × Nat
  ptyOpen : Bool := true
  shutdown : Bool := false
  shutdownAt : Nat := 0
  exitStatus : Option Int := none
  peerWantsExit : Bool := false
  forceAck : Bool := false
  forceFrame : Bool := false
  /-- Log: the data of frames `0, 1, …, current.num`. -/
  produced : List Bytes := [[]]
  /-- Log: the bytes the inbox accepted. -/
  accepted : Bytes := []
  /-- Log: the bytes written to the PTY as input. -/
  ptyInput : Bytes := []

/-- What reading the PTY returned. -/
inductive PtyRead where
  | idle
  | data (bytes : Bytes)
  | closed
deriving DecidableEq, Repr

/-- A decoded client message with what surrounds its handling: the clock, and how
many bytes of new input `write_all_retry` gets rid of before it gives up. -/
structure Delivery where
  msg : ClientMessage
  at_ : Nat
  ptyTakes : Nat

/-- Timeouts of the environment, in milliseconds; 0 disables one. -/
structure ServerConfig where
  networkTmout : Nat := 0
  signalTmout : Nat := 0

/-- What one pass of the loop reads from its surroundings. -/
structure Tick where
  now : Nat
  hasRemote : Bool
  signalled : Bool := false
  interrupted : Bool := false
  pollFails : Bool := false
  pty : PtyRead := .idle
  ptyAt : Nat := 0
  /-- The exit code `try_reap` finds when the PTY closes, and when a frame is sent. -/
  reapAtClose : Option Int := none
  reapAtSend : Option Int := none
  deliveries : List Delivery := []
  sendAt : Nat
  sendInterval : Nat
  rto : Nat
  gateAt : Nat := 0

/-- Why the loop was left. -/
inductive Exit where
  | networkTimeout
  | signalTimeout
  | unreachable
  | pollError
  | confirmed
  | graceOver
deriving DecidableEq, Repr

namespace Server

variable {T : Type} [Emulator T]

/-- The state `server_loop` starts from. -/
def start (rows cols now : Nat) : Server T :=
  let term : T := Emulator.new rows cols
  { term, lastGen := Emulator.generation term, lastHeard := now, clientSize := (rows, cols) }

/-- Shell output into the terminal model, or the end of the shell. -/
def readPty (tick : Tick) (s : Server T) : Server T :=
  if !s.ptyOpen then s
  else
    match tick.pty with
    | .idle => s
    | .data bytes =>
        { s with term := (Emulator.takeResponses (Emulator.process s.term bytes)).2 }
    | .closed =>
        if s.shutdown then { s with ptyOpen := false }
        else
          { s with
            ptyOpen := false, shutdown := true, shutdownAt := tick.ptyAt, forceFrame := true,
            exitStatus := tick.reapAtClose }

/-- The first half of `handle_client_message`: adopt the client's window size. -/
def adoptSize (msg : ClientMessage) (s : Server T) : Server T :=
  if msg.rows > 0 ∧ msg.cols > 0 ∧ (msg.rows, msg.cols) ≠ s.clientSize then
    { s with
      clientSize := (msg.rows, msg.cols), term := Emulator.resize s.term msg.rows msg.cols }
  else s

def handleClientMessage (d : Delivery) (s : Server T) : Server T :=
  let s := adoptSize d.msg s
  match s.inbox.accept d.msg.inputBase d.msg.input with
  | (inbox, none) => { s with inbox }
  | (inbox, some newInput) =>
      { s with
        inbox,
        accepted := s.accepted ++ newInput,
        ptyInput := if s.ptyOpen then s.ptyInput ++ newInput.take d.ptyTakes else s.ptyInput,
        echo := s.echo.record inbox.next d.at_,
        forceAck := true }

def updateAcks (msg : ClientMessage) (s : Server T) : Server T :=
  if msg.ackedFrame ≤ s.ackedNum ∨ msg.ackedFrame > s.current.num then s
  else
    { s with
      ackedNum := msg.ackedFrame,
      ackedData :=
        if msg.ackedFrame = s.current.num then some s.current.data
        else (s.outstanding.find? (·.num == msg.ackedFrame)).map (·.data),
      outstanding := s.outstanding.filter (·.num ≥ msg.ackedFrame) }

/-- Everything the loop does with one assembled, decoded client message. -/
def receive (s : Server T) (d : Delivery) : Server T :=
  let s := { s with
    lastHeard := d.at_,
    peerWantsExit := s.peerWantsExit || (findCap d.msg.caps CAP_EXIT_STATUS).isSome }
  let s := handleClientMessage d s
  let s :=
    if d.msg.flags &&& CLIENT_FLAG_SHUTDOWN ≠ 0 ∧ !s.shutdown then
      { s with shutdown := true, shutdownAt := d.at_, forceFrame := true }
    else s
  updateAcks d.msg s

/-- What a pass decides to send. -/
inductive Sending where
  | nothing
  | frame
  | ackOnly
deriving DecidableEq, Repr

/-- A fresh frame, a retransmission, a heartbeat, a prompt ack or nothing. -/
def schedule (tick : Tick) (s : Server T) : Server T × Sending :=
  if (Emulator.generation s.term ≠ s.lastGen ∨ s.forceFrame) ∧
      tick.sendAt - s.lastSend ≥ tick.sendInterval then
    let outstanding := s.outstanding ++ [s.current]
    let data := Emulator.dumpVt s.term
    ({ s with
        lastGen := Emulator.generation s.term, forceFrame := false,
        outstanding := if outstanding.length > 8 then outstanding.drop 1 else outstanding,
        current := ⟨s.current.num + 1, data⟩, produced := s.produced ++ [data] },
      .frame)
  else if s.ackedNum < s.current.num ∧ tick.sendAt - s.lastSend ≥ tick.rto then (s, .frame)
  else if tick.sendAt - s.lastSend ≥ HEARTBEAT_INTERVAL then (s, .ackOnly)
  else if s.forceAck ∧ s.ackedNum ≥ s.current.num then (s, .ackOnly)
  else (s, .nothing)

/-- The body of a frame that carries the current state. -/
def stateBody (s : Server T) : FrameBody :=
  match s.ackedData with
  | some base =>
      let diff := makeDiff base s.current.data
      if diff.length + 8 < s.current.data.length then .diff s.ackedNum diff
      else .full s.current.data
  | none => .full s.current.data

def frameCaps (s : Server T) : List Cap :=
  match s.exitStatus with
  | some code =>
      if s.shutdown && s.peerWantsExit then
        ownTable [⟨CAP_EXIT_STATUS, [UInt8.ofNat (max 0 (min code 255)).toNat]⟩]
      else []
  | none => []

/-- `echo.update` at the top of frame production: an advanced echo ack is worth a frame. -/
def updateEcho (tick : Tick) (s : Server T) : Server T :=
  let (echo, moved) := s.echo.update tick.sendAt
  { s with echo, forceAck := s.forceAck || moved }

/-- The bookkeeping of a pass that sends something. -/
def beforeSend (tick : Tick) (s : Server T) : Server T :=
  { s with
    forceAck := false, lastSend := tick.sendAt,
    exitStatus := if s.shutdown && s.exitStatus.isNone then tick.reapAtSend else s.exitStatus }

/-- The frame a server sends: its current state, or only the acks. -/
def frame (sending : Sending) (s : Server T) : ServerFrame where
  flags := if s.shutdown then FLAG_SHUTDOWN else 0
  caps := frameCaps s
  frameNum := s.current.num
  inputAck := s.inbox.next
  echoAck := s.echo.acked
  body := if sending = .frame then stateBody s else .empty

/-- Frame production and (re)transmission. -/
def transmit (tick : Tick) (s : Server T) : Server T × Option ServerFrame :=
  let s := updateEcho tick s
  if !(tick.hasRemote && tick.sendAt - s.lastHeard < PEER_TIMEOUT) then (s, none)
  else
    let out := schedule tick s
    if out.2 = .nothing then (out.1, none)
    else (beforeSend tick out.1, some (frame out.2 (beforeSend tick out.1)))

/-- The shutdown handshake is over: the final state is confirmed. -/
def confirmed (s : Server T) : Bool :=
  !s.forceFrame && !s.forceAck && Emulator.generation s.term == s.lastGen &&
    s.ackedNum ≥ s.current.num && s.echo.acked ≥ s.inbox.next

/-- How a pass ends: the state it leaves, what it sent, and why it left the loop. -/
structure PassResult (T : Type) where
  server : Server T
  sent : Option ServerFrame := none
  exit : Option Exit := none

/-- The ways a pass ends before it reads the PTY or the network: the loop is left
(`some exit`), or an interrupted poll starts over (`none`). -/
def stops (cfg : ServerConfig) (tick : Tick) (s : Server T) : Option (Option Exit) :=
  if cfg.networkTmout > 0 ∧ tick.now - s.lastHeard ≥ cfg.networkTmout then
    some (some .networkTimeout)
  else if tick.signalled ∧ cfg.signalTmout > 0 ∧ tick.now - s.lastHeard ≥ cfg.signalTmout then
    some (some .signalTimeout)
  else if !(tick.hasRemote && tick.now - s.lastHeard < PEER_TIMEOUT) && s.shutdown then
    some (some .unreachable)
  else if tick.interrupted then some none
  else if tick.pollFails then some (some .pollError)
  else none

/-- One pass of `server_loop`. -/
def pass (cfg : ServerConfig) (tick : Tick) (s : Server T) : PassResult T :=
  match stops cfg tick s with
  | some exit => { server := s, exit }
  | none =>
      let out := transmit tick (tick.deliveries.foldl receive (readPty tick s))
      { server := out.1
        sent := out.2
        exit :=
          if !out.1.shutdown then none
          else if confirmed out.1 then some .confirmed
          else if tick.gateAt - out.1.shutdownAt ≥ SHUTDOWN_GRACE then some .graceOver
          else none }

/-- The client messages a pass reads. -/
def reads (cfg : ServerConfig) (tick : Tick) (s : Server T) : List ClientMessage :=
  if (stops cfg tick s).isSome then [] else tick.deliveries.map (·.msg)

end Server

end Posh.Remote
