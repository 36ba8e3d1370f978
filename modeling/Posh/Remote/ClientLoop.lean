import Posh.Lib.Transition
import Posh.Remote.Display
import Posh.Remote.MouseFilter
import Posh.Remote.Notification
import Posh.Remote.Predict
import Posh.Remote.Sync
import Posh.Term.Process

/-!
The remote client's event loop (`remote/client.rs`): keystrokes, server frames, signals and
ticks, and the frame that a tick composes from the server's screen and the overlays.

A tick where nothing can have changed composes nothing. The connection and what it sends are
left out here, and so are the statistics. One clock reading stands for those of one event.
-/

namespace Posh.Remote

open Posh.Lib Posh.Term

/-- Ctrl-^ -/
def ESCAPE_KEY : UInt8 := 0x1E

def ESCAPE_PASS_KEY : UInt8 := 0x5E

def ESCAPE_KEY_HELP : List Char :=
  "Commands: Ctrl-Z suspends, \".\" quits, \"^\" gives literal Ctrl-^".toList

inductive GrabMouse where
  | off
  | on
deriving DecidableEq, Repr

structure ClientState where
  outbox : InputOutbox := {}
  rows : UInt16
  cols : UInt16
  flags : UInt8 := 0
  appliedNum : Nat := 0
  appliedData : Bytes := []
  /-- The server's screen, rebuilt from the latest frame applied. -/
  serverTerm : Terminal
  /-- What the tty shows. -/
  lastDrawn : Snapshot
  /-- False where the state of the tty is unknown: the next frame repaints it. -/
  initialized : Bool := false
  predict : PredictionEngine
  notify : NotificationEngine
  grabMouse : GrabMouse
  mouseFilter : MouseFilter := {}
  quitPending : Bool := false
  shutdownRequested : Bool := false
  shutdownRequestedAt : Nat := 0
  shutdownSeen : Bool := false
  exitStatus : Int := 0
  /-- `applied_num` and the terminal's generation at the last compose. -/
  lastRenderState : Nat × Nat := (U64_MAX, U64_MAX)
  /-- An overlay was live at the last compose. -/
  lastRenderOverlays : Bool := false
  /-- The local of `drive_client`: a frame has been received. -/
  heard : Bool := false

namespace ClientState

/-- The state `client_loop` starts from. -/
def start (rows cols : UInt16) (prediction : DisplayPreference) (predictOverwrite : Bool)
    (grabMouse : GrabMouse) (now : Nat) : ClientState where
  rows := rows
  cols := cols
  serverTerm := .withScrollback rows.toNat cols.toNat 0
  lastDrawn := .blank rows.toNat cols.toNat
  predict := .new prediction predictOverwrite
  notify := .new now
  grabMouse := grabMouse

/-- The wheel is grabbed: the policy is on, and the application has no mouse mode of its own. -/
def grabActive (st : ClientState) : Bool :=
  st.grabMouse == .on && st.serverTerm.modes.mouseMode == .none

def setMessage (message : List Char) (permanent : Bool) (now : Nat) (st : ClientState) :
    ClientState :=
  { st with notify := st.notify.setMessage message permanent now }

def requestShutdown (now : Nat) (st : ClientState) : ClientState :=
  if st.shutdownRequested then st
  else
    { st with
      shutdownRequested := true
      shutdownRequestedAt := now
      flags := st.flags ||| CLIENT_FLAG_SHUTDOWN }.setMessage
        "Exiting on user request...".toList true now

/-! ### Signals -/

def resized (rows cols : UInt16) (st : ClientState) : ClientState :=
  { st with rows, cols, predict := st.predict.reset, initialized := false }

/-- What is left of the state after a stop and a resume that the client itself asked for. -/
def suspend (st : ClientState) : ClientState :=
  { st with predict := st.predict.reset, initialized := false }

/-! ### Keystrokes -/

/-- One byte of the input stream, predicted unless it belongs to a paste. -/
def push (paste : Bool) (now : Nat) (byte : UInt8) (st : ClientState) : Checked ClientState := do
  let predict ← (if paste then pure st.predict
    else (st.predict.setLocalFrameSent st.outbox.endOffset).newUserByte byte st.lastDrawn now)
  return { st with predict, outbox := st.outbox.push [byte] }

/-- The byte after the escape key. -/
def quitSequence (paste : Bool) (now : Nat) (byte : UInt8) (st : ClientState) :
    Checked ClientState :=
  if byte.toNat = '.'.toNat then return st.requestShutdown now
  else do
    let st ← (if byte = 0x1A then pure st.suspend
      else if byte = ESCAPE_KEY ∨ byte = ESCAPE_PASS_KEY then st.push paste now ESCAPE_KEY
      else do
        -- anything else is sent literally, the escape key before it
        let st ← st.push paste now ESCAPE_KEY
        st.push paste now byte)
    return if st.notify.message = ESCAPE_KEY_HELP then st.setMessage [] false now else st

/-- The Boolean is true when anything needs sending. -/
def userByte (paste : Bool) (now : Nat) (byte : UInt8) (s : ClientState × Bool) :
    Checked (ClientState × Bool) :=
  let (st, dirty) := s
  if st.quitPending then do
    let st ← { st with quitPending := false }.quitSequence paste now byte
    return (st, true)
  else if byte = ESCAPE_KEY then
    return ({ st with quitPending := true }.setMessage ESCAPE_KEY_HELP true now, dirty)
  else do
    -- Ctrl-L asks for a repaint of the outer terminal
    let st := if byte = 0x0C then { st with initialized := false } else st
    let st ← st.push paste now byte
    return (st, true)

/-- What the mouse filter makes of the input; it hands back what it holds once the grab is over. -/
def filterInput (buf : Bytes) (st : ClientState) : Checked (ClientState × Bytes) :=
  if st.grabActive then do
    let (mouseFilter, buf) ← st.mouseFilter.feed st.serverTerm.modes.cursorKeys buf
    return ({ st with mouseFilter }, buf)
  else
    let (pending, mouseFilter) := st.mouseFilter.takePending
    return ({ st with mouseFilter }, pending ++ buf)

def processUserInput (buf : Bytes) (now : Nat) (st : ClientState) :
    Checked (ClientState × Bool) := do
  let (st, buf) ← st.filterInput buf
  let paste : Bool := buf.length > 100
  let st := if paste then { st with predict := st.predict.reset } else st
  forEach buf (st, false) (userByte paste now)

/-- A relation that holds along every change a keystroke makes. -/
structure Follows (R : ClientState → ClientState → Prop) : Prop where
  trans : ∀ {st st' st''}, R st st' → R st' st'' → R st st''
  push : ∀ paste now byte st, Guarded False (push paste now byte st) (R st)
  shutdown : ∀ now st, R st (requestShutdown now st)
  /-- The tty is not known any more. -/
  unknown : ∀ (st : ClientState), R st { st with initialized := false }
  other : ∀ (st : ClientState) predict notify mouseFilter quitPending,
    R st { st with predict, notify, mouseFilter, quitPending }

section Input

variable {R : ClientState → ClientState → Prop} {st st' : ClientState}

theorem Follows.then (h : Follows R) (first : R st st') {x : Checked ClientState}
    (hx : Guarded False x (R st')) : Guarded False x (R st) :=
  hx.mono fun _ => h.trans first

theorem Follows.quitSequence (h : Follows R) (paste : Bool) (now : Nat) (byte : UInt8)
    (st : ClientState) : Guarded False (st.quitSequence paste now byte) (R st) := by
  unfold ClientState.quitSequence
  split
  · exact .pure (h.shutdown now st)
  refine Guarded.bind (p := R st) ?_ ?_
  · split
    · exact .pure (h.trans (h.unknown st) (h.other _ _ _ _ _))
    split
    · exact h.push paste now _ st
    · refine (h.push paste now _ st).bind ?_
      intro st₁ first
      exact h.then first (h.push paste now byte st₁)
  · intro st₁ first
    refine .pure ?_
    split
    · exact h.trans first (h.other st₁ _ _ _ _)
    · exact first

theorem Follows.userByte (h : Follows R) (paste : Bool) (now : Nat) (byte : UInt8) (dirty : Bool)
    (st : ClientState) :
    Guarded False (userByte paste now byte (st, dirty)) fun out => R st out.1 := by
  unfold ClientState.userByte
  dsimp only
  split
  · refine (h.then (h.other st _ _ _ _) (h.quitSequence paste now byte _)).bind ?_
    intro st₁ first
    exact .pure first
  split
  · exact .pure (h.other st _ _ _ _)
  · refine Guarded.bind (p := R st) ?_ fun st₁ first => .pure first
    split
    · exact h.then (h.unknown st) (h.push paste now byte _)
    · exact h.push paste now byte st

theorem Follows.processUserInput (h : Follows R) (buf : Bytes) (now : Nat) (st : ClientState) :
    Guarded False (st.processUserInput buf now) fun out => R st out.1 := by
  unfold ClientState.processUserInput
  have filtered : Guarded False (st.filterInput buf) fun out => R st out.1 := by
    unfold filterInput
    split
    · apply (Guarded.trivial _).bind
      rintro ⟨mouseFilter, buf⟩ _
      exact .pure (h.other st _ _ _ _)
    · exact .pure (h.other st _ _ _ _)
  refine filtered.bind ?_
  rintro ⟨st₁, buf⟩ first
  refine Guarded.forEach (I := fun out : ClientState × Bool => R st out.1) ?_ ?_
  · dsimp only
    split
    · exact h.trans first (h.other st₁ _ _ _ _)
    · exact first
  · rintro byte _ ⟨st₂, dirty⟩ second
    exact (h.userByte _ now byte dirty st₂).mono fun _ => h.trans second

end Input

/-! ### Server frames -/

/-- A fresh terminal fed the dump, clamped back to the size of the tty. -/
def install (files : Files) (num : Nat) (bytes : Bytes) (st : ClientState) :
    Checked ClientState := do
  let term ← (Terminal.withScrollback st.rows.toNat st.cols.toNat 0).process files bytes
  let term ← (if term.rows ≠ st.rows.toNat ∨ term.cols ≠ st.cols.toNat then
      term.resize st.rows.toNat st.cols.toNat
    else pure term)
  return { st with serverTerm := term, appliedNum := num, appliedData := bytes }

/-- The dump a frame stands for, or the reply when it stands for none. -/
def frameBytes (frame : ServerFrame) (st : ClientState) : Except Bool Bytes :=
  match frame.body with
  | .empty => .error false
  | .full bytes => .ok bytes
  | .diff base diff =>
      if base ≠ st.appliedNum then .error true
      else
        match applyDiff st.appliedData diff with
        | some bytes => .ok bytes
        | none => .error true

/-- The Boolean is true when an ack should go out. -/
def applyFrame (files : Files) (frame : ServerFrame) (st : ClientState) :
    Checked (ClientState × Bool) :=
  if frame.frameNum < st.appliedNum then return (st, true)
  else
    match frameBytes frame st with
    | .error reply => return (st, reply)
    | .ok bytes =>
        if frame.frameNum = st.appliedNum then return (st, true)
        else do
          let st ← st.install files frame.frameNum bytes
          return (st, true)

/-- The acks and the shutdown announcement every frame carries. -/
def noteFrame (frame : ServerFrame) (sendInterval now : Nat) (st : ClientState) : ClientState :=
  let predict := (st.predict.setLocalFrameAcked frame.inputAck).setLocalFrameLateAcked frame.echoAck
  let st := { st with
    notify := st.notify.serverHeard now
    outbox := st.outbox.ack frame.inputAck
    predict := predict.setSendInterval sendInterval }
  if frame.flags &&& FLAG_SHUTDOWN ≠ 0 then
    { st with
      shutdownSeen := true,
      exitStatus :=
        match (findCap frame.caps CAP_EXIT_STATUS).bind (·.payload.head?) with
        | some code => code.toNat
        | none => st.exitStatus }
  else st

def processFrame (files : Files) (frame : ServerFrame) (sendInterval now : Nat) (st : ClientState) :
    Checked (ClientState × Bool) :=
  (st.noteFrame frame sendInterval now).applyFrame files frame

/-- The first frame takes down the hint that nothing has been received. -/
def firstContact (now : Nat) (st : ClientState) : ClientState :=
  if st.heard then st
  else if "Nothing received".toList.isPrefixOf st.notify.message then
    { st with heard := true }.setMessage [] false now
  else { st with heard := true }

/-! ### Ticks -/

/-- The hint that nothing has been received, 250 ms after the loop has started. -/
def hint (port started now : Nat) (st : ClientState) : ClientState :=
  if !st.heard ∧ now - started ≥ 250 ∧ st.notify.message.isEmpty then
    st.setMessage ("Nothing received from server on UDP port ".toList ++ decimal port ++
      ".".toList) true now
  else st

def modelState (st : ClientState) : Nat × Nat :=
  (st.appliedNum, st.serverTerm.generation)

/-- Any overlay live: predictions, a message, or the banner of a late server. -/
def overlaysLive (now : Nat) (st : ClientState) : Bool :=
  st.predict.active || !st.notify.message.isEmpty || st.notify.serverLate now

/-- Nothing can have changed since the last compose. -/
def idle (now : Nat) (st : ClientState) : Bool :=
  st.initialized && st.modelState == st.lastRenderState && !st.overlaysLive now &&
    !st.lastRenderOverlays

/-- The full path of `compose_frame`: the server's screen under the predictions and the banner,
and the stream that brings the tty to it. -/
def composeFull (now : Nat) (st : ClientState) : Checked (Bytes × ClientState) := do
  let st := { st with
    lastRenderState := st.modelState, lastRenderOverlays := st.overlaysLive now }
  let base ← Snapshot.fromTerm st.serverTerm
  let predict ← st.predict.cull base now
  let next := predict.apply base
  let notify := st.notify.adjust now
  let next ← notify.apply now next
  let bytes ← Display.newFrame st.initialized st.lastDrawn next st.grabActive
  return (bytes, { st with predict, notify, initialized := true, lastDrawn := next })

def composeFrame (now : Nat) (st : ClientState) : Checked (Bytes × ClientState) :=
  if st.idle now then return ([], st) else st.composeFull now

end ClientState

/-! ### Runs -/

/-- What a pass of `drive_client` handles; the input read is empty at its end. -/
inductive ClientEvent where
  | winch (rows cols : UInt16)
  | terminate (now : Nat)
  | resume
  | input (buf : Bytes) (now : Nat)
  | frame (files : Files) (frame : ServerFrame) (sendInterval now : Nat)
  | hint (port started now : Nat)
  | tick (now : Nat)

namespace ClientEvent

def apply (event : ClientEvent) (st : ClientState) : Checked ClientState :=
  match event with
  | .winch rows cols => return st.resized rows cols
  | .terminate now => return st.requestShutdown now
  | .resume => return { st with initialized := false }
  | .input buf now => do
      if buf.isEmpty then return st.requestShutdown now
      else
        let (st, _) ← st.processUserInput buf now
        return st
  | .frame files received sendInterval now => do
      let (st, _) ← (st.firstContact now).processFrame files received sendInterval now
      return st
  | .hint port started now => return st.hint port started now
  | .tick now => do
      let (_, st) ← st.composeFrame now
      return st

end ClientEvent

/-- Events in any order, as long as none of them panics. -/
def clientLoop : Transition ClientState where
  init st := ∃ rows cols prediction predictOverwrite grabMouse now,
    st = ClientState.start rows cols prediction predictOverwrite grabMouse now
  step st st' := ∃ event : ClientEvent, event.apply st = .ok st'

end Posh.Remote
