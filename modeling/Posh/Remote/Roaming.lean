import Posh.Lib.Transition
import Posh.Lib.Window
import Posh.Remote.Client

/-!
The roaming server and its client over a network that loses, duplicates and
reorders: both ends' steps as one transition system.

`toClient` and `toServer` hold everything ever sent. A delivery reads any entry
and removes none, so a message may arrive any number of times, in any order, or
never. The second half says what each function of the server does to the frame
window and to the input stream; every invariant is derived from these lemmas.
-/

namespace Posh.Remote

open Posh.Lib

structure Roaming (T : Type) where
  server : Server T
  client : Client T
  toClient : List ServerFrame := []
  toServer : List ClientMessage := []
  serverExit : Option Exit := none

namespace Roaming

variable {T : Type} [Emulator T]

/-- The server's pass over `tick`, with what it sends put on the network. -/
def afterPass (cfg : ServerConfig) (tick : Tick) (r : Roaming T) : Roaming T :=
  let out := r.server.pass cfg tick
  { r with
    server := out.server, toClient := r.toClient ++ out.sent.toList, serverExit := out.exit }

inductive Step (cfg : ServerConfig) : Roaming T → Roaming T → Prop where
  /-- The server runs one pass of its loop on client messages that were sent. -/
  | serverPass {r : Roaming T} (tick : Tick) :
      r.serverExit = none → (∀ d ∈ tick.deliveries, d.msg ∈ r.toServer) →
      Step cfg r (r.afterPass cfg tick)
  /-- A frame that was sent reaches the client. -/
  | clientFrame {r : Roaming T} (frame : ServerFrame) :
      frame ∈ r.toClient →
      Step cfg r { r with client := (r.client.processFrame frame).1 }
  | clientSend {r : Roaming T} :
      Step cfg r { r with toServer := r.toServer ++ [r.client.message] }
  | clientPush {r : Roaming T} (bytes : Bytes) :
      Step cfg r { r with client := r.client.push bytes }
  /-- The client's window changes size, or the user asks to quit. -/
  | clientEnv {r : Roaming T} (rows cols : Nat) (flags : UInt8) :
      Step cfg r { r with client := { r.client with rows, cols, flags } }

/-- Both ends as they start. -/
def start (rows cols now clientRows clientCols : Nat) : Roaming T :=
  { server := Server.start rows cols now, client := Client.start clientRows clientCols }

/-- The roaming session as a transition system. -/
def system (T : Type) [Emulator T] (cfg : ServerConfig) : Transition (Roaming T) where
  init r := ∃ rows cols now clientRows clientCols, r = start rows cols now clientRows clientCols
  step := Step cfg

end Roaming

/-! ### What the server's functions do to the frame window -/

namespace Server

variable {T : Type} [Emulator T]

/-- The part of the server that frame synchronization is about. -/
def window (s : Server T) : Window Bytes where
  num := s.current.num
  data := s.current.data
  acked := s.ackedNum
  held := s.ackedData
  kept := s.outstanding.map fun f => (f.num, f.data)
  log := s.produced

omit [Emulator T] in
/-- A state is sent in full, or as a diff against the acked data still held. -/
theorem stateBody_cases (s : Server T) :
    s.stateBody = .full s.current.data ∨
      ∃ base, s.ackedData = some base ∧
        s.stateBody = .diff s.ackedNum (makeDiff base s.current.data) := by
  unfold stateBody
  split
  · rename_i base held
    dsimp only
    split
    · exact .inr ⟨base, held, rfl⟩
    · exact .inl rfl
  · exact .inl rfl

@[simp] theorem window_readPty (tick : Tick) (s : Server T) :
    (s.readPty tick).window = s.window := by
  unfold readPty
  split
  · rfl
  · cases tick.pty with
    | idle => rfl
    | data bytes => rfl
    | closed =>
      simp only
      split <;> rfl

@[simp] theorem window_adoptSize (msg : ClientMessage) (s : Server T) :
    (s.adoptSize msg).window = s.window := by
  unfold adoptSize
  split <;> rfl

@[simp] theorem window_handleClientMessage (d : Delivery) (s : Server T) :
    (s.handleClientMessage d).window = s.window := by
  unfold handleClientMessage
  dsimp only
  split <;> exact window_adoptSize d.msg s

omit [Emulator T] in
theorem window_updateAcks (msg : ClientMessage) (s : Server T) :
    (s.updateAcks msg).window = s.window.ack msg.ackedFrame := by
  unfold updateAcks Window.ack
  by_cases ignored : msg.ackedFrame ≤ s.ackedNum ∨ msg.ackedFrame > s.current.num
  · rw [if_pos ignored, if_pos (by exact ignored)]
  · have fresh : ¬ (msg.ackedFrame ≤ s.window.acked ∨ msg.ackedFrame > s.window.num) := ignored
    rw [if_neg ignored, if_neg fresh]
    simp only [window, List.find?_map, List.filter_map, Option.map_map, Function.comp_def]

@[simp] theorem window_receive (s : Server T) (d : Delivery) :
    (s.receive d).window = s.window.ack d.msg.ackedFrame := by
  unfold receive
  rw [window_updateAcks]
  congr 1
  split
  · exact window_handleClientMessage d _
  · exact window_handleClientMessage d _

theorem window_receives (ds : List Delivery) (s : Server T) :
    (ds.foldl receive s).window = s.window.acks (ds.map (·.msg.ackedFrame)) := by
  induction ds generalizing s with
  | nil => rfl
  | cons d ds ih =>
    rw [List.foldl_cons, ih, window_receive]
    rfl

/-- A pass produces at most one frame, whose data is the terminal's dump. -/
theorem window_schedule (tick : Tick) (s : Server T) :
    (s.schedule tick).1.window = s.window ∨
      (s.schedule tick).1.window = s.window.produce 8 (Emulator.dumpVt s.term) ∧
        (s.schedule tick).2 = .frame := by
  unfold schedule
  split
  · refine .inr ⟨?_, rfl⟩
    by_cases full : (s.outstanding ++ [s.current]).length > 8
    · have full' : (s.window.kept ++ [(s.window.num, s.window.data)]).length > 8 := by
        simpa [window] using full
      simp only [Window.produce, if_pos full']
      simp only [window, if_pos full, List.map_drop, List.map_append, List.map_cons, List.map_nil]
    · have full' : ¬ (s.window.kept ++ [(s.window.num, s.window.data)]).length > 8 := by
        simpa [window] using full
      simp only [Window.produce, if_neg full']
      simp only [window, if_neg full, List.map_append, List.map_cons, List.map_nil]
  · left
    split
    · rfl
    · split
      · rfl
      · split <;> rfl

/-- The frame a server in state `s` writes. -/
structure Writes (s : Server T) (frame : ServerFrame) : Prop where
  frameNum : frame.frameNum = s.current.num
  inputAck : frame.inputAck = s.inbox.next
  body : frame.body = .empty ∨ frame.body = s.stateBody

omit [Emulator T] in
@[simp] theorem window_updateEcho (tick : Tick) (s : Server T) :
    (s.updateEcho tick).window = s.window := rfl

omit [Emulator T] in
@[simp] theorem window_beforeSend (tick : Tick) (s : Server T) :
    (s.beforeSend tick).window = s.window := rfl

theorem window_transmit (tick : Tick) (s : Server T) :
    (s.transmit tick).1.window = s.window ∨
      (s.transmit tick).1.window = s.window.produce 8 (Emulator.dumpVt s.term) := by
  have outcome := (window_schedule tick (s.updateEcho tick)).imp id And.left
  unfold transmit
  dsimp only
  split
  · exact .inl rfl
  · split
    · exact outcome
    · exact outcome

theorem writes_transmit {tick : Tick} {s : Server T} {frame : ServerFrame}
    (sent : (s.transmit tick).2 = some frame) : Writes (s.transmit tick).1 frame := by
  unfold transmit at sent ⊢
  dsimp only at sent ⊢
  split at sent
  · cases sent
  · rename_i active
    rw [if_neg active]
    split at sent
    · cases sent
    · rename_i sending
      rw [if_neg sending]
      cases sent
      refine ⟨rfl, rfl, ?_⟩
      unfold Server.frame
      dsimp only
      split
      · exact .inr rfl
      · exact .inl rfl

/-- A pass either stops before it reads anything, or hands the state it reached
by reading the PTY and its deliveries to `transmit`. -/
theorem pass_cases (cfg : ServerConfig) (tick : Tick) (s : Server T) :
    ((s.pass cfg tick).server = s ∧ (s.pass cfg tick).sent = none ∧ s.reads cfg tick = []) ∨
      (s.pass cfg tick).server = (transmit tick (tick.deliveries.foldl receive (s.readPty tick))).1 ∧
        (s.pass cfg tick).sent =
          (transmit tick (tick.deliveries.foldl receive (s.readPty tick))).2 ∧
        s.reads cfg tick = tick.deliveries.map (·.msg) := by
  unfold pass reads
  cases s.stops cfg tick with
  | some exit => exact .inl ⟨rfl, rfl, rfl⟩
  | none => exact .inr ⟨rfl, rfl, rfl⟩

/-- The window after a pass: the acknowledgements it read, then at most one
produced state. -/
theorem window_pass (cfg : ServerConfig) (tick : Tick) (s : Server T) :
    (s.pass cfg tick).server.window = s.window.acks ((s.reads cfg tick).map (·.ackedFrame)) ∨
      ∃ data, (s.pass cfg tick).server.window =
        (s.window.acks ((s.reads cfg tick).map (·.ackedFrame))).produce 8 data := by
  rcases pass_cases cfg tick s with ⟨same, _, none⟩ | ⟨server, _, all⟩
  · rw [same, none]
    exact .inl rfl
  · rw [server, all, List.map_map]
    have read := window_receives tick.deliveries (s.readPty tick)
    rw [window_readPty] at read
    rcases window_transmit tick (tick.deliveries.foldl receive (s.readPty tick)) with kept | fresh
    · exact .inl (kept.trans read)
    · exact .inr ⟨_, read ▸ fresh⟩

omit [Emulator T] in
theorem reads_subset {cfg : ServerConfig} {tick : Tick} {s : Server T} {m : ClientMessage}
    (read : m ∈ s.reads cfg tick) : ∃ d ∈ tick.deliveries, d.msg = m := by
  unfold reads at read
  split at read
  · exact absurd read List.not_mem_nil
  · exact List.mem_map.mp read

theorem writes_pass {cfg : ServerConfig} {tick : Tick} {s : Server T} {frame : ServerFrame}
    (sent : (s.pass cfg tick).sent = some frame) : Writes (s.pass cfg tick).server frame := by
  rcases pass_cases cfg tick s with ⟨_, none, _⟩ | ⟨server, out, _⟩
  · rw [none] at sent
    cases sent
  · rw [server]
    exact writes_transmit (out ▸ sent)

end Server

/-! ### What the client does with a frame -/

namespace Client

variable {T : Type} [Emulator T]

omit [Emulator T] in
@[simp] theorem applied_noteFrame (frame : ServerFrame) (c : Client T) :
    (c.noteFrame frame).appliedNum = c.appliedNum ∧
      (c.noteFrame frame).appliedData = c.appliedData := by
  unfold noteFrame
  dsimp only
  split <;> exact ⟨rfl, rfl⟩

omit [Emulator T] in
theorem frameBytes_ok {frame : ServerFrame} {c : Client T} {bytes : Bytes}
    (ok : c.frameBytes frame = .ok bytes) :
    frame.body = .full bytes ∨
      ∃ diff, frame.body = .diff c.appliedNum diff ∧ applyDiff c.appliedData diff = some bytes := by
  unfold frameBytes at ok
  split at ok
  · cases ok
  · rename_i body
    cases ok
    exact .inl body
  · rename_i base diff body
    split at ok
    · cases ok
    · rename_i held
      rw [Decidable.not_not.mp held] at body
      split at ok
      · rename_i applied
        cases ok
        exact .inr ⟨diff, body, applied⟩
      · cases ok

/-- A frame either leaves the applied state alone or installs the data it
carries, under its own number, which is then the greatest applied so far. -/
theorem applied_cases (frame : ServerFrame) (c : Client T) :
    ((c.processFrame frame).1.appliedNum = c.appliedNum ∧
        (c.processFrame frame).1.appliedData = c.appliedData) ∨
      c.appliedNum < frame.frameNum ∧ (c.processFrame frame).1.appliedNum = frame.frameNum ∧
        (frame.body = .full (c.processFrame frame).1.appliedData ∨
          ∃ diff, frame.body = .diff c.appliedNum diff ∧
            applyDiff c.appliedData diff = some (c.processFrame frame).1.appliedData) := by
  obtain ⟨num, data⟩ := applied_noteFrame frame c
  unfold processFrame applyFrame
  split
  · exact .inl ⟨num, data⟩
  · rename_i current
    split
    · exact .inl ⟨num, data⟩
    · rename_i bytes ok
      split
      · exact .inl ⟨num, data⟩
      · rename_i new
        have body := frameBytes_ok ok
        rw [num, data] at body
        rw [num] at current new
        exact .inr ⟨by omega, rfl, body⟩

/-- Every frame that carries a state is answered. -/
theorem reply_of_state {frame : ServerFrame} {c : Client T} (state : frame.body ≠ .empty) :
    (c.processFrame frame).2 = true := by
  unfold processFrame applyFrame
  split
  · rfl
  · split
    · rename_i reply none
      unfold frameBytes at none
      split at none
      · rename_i empty
        exact absurd empty state
      · cases none
      · split at none
        · cases none
          rfl
        · split at none
          · cases none
          · cases none
            rfl
    · split <;> rfl

/-- A newer frame whose bytes the client can rebuild is applied. -/
theorem applied_of_frameBytes {frame : ServerFrame} {c : Client T} (bytes : Bytes)
    (newer : c.appliedNum < frame.frameNum) (ok : (c.noteFrame frame).frameBytes frame = .ok bytes) :
    (c.processFrame frame).1.appliedNum = frame.frameNum := by
  have num := (applied_noteFrame frame c).1
  unfold processFrame applyFrame
  rw [if_neg (by omega), ok]
  simp only
  rw [if_neg (by omega)]
  rfl

end Client

/-! ### Any sequence of dumps -/

/-- An emulator that ignores what it is fed and shows the next slide of a fixed
sequence each time. -/
structure Slides (script : Nat → Bytes) where
  shown : Nat

instance (script : Nat → Bytes) : Emulator (Slides script) where
  new _ _ := ⟨0⟩
  withScrollback _ _ _ := ⟨0⟩
  process t _ := ⟨t.shown + 1⟩
  resize t _ _ := t
  takeResponses t := ([], t)
  generation t := t.shown
  dumpVt t := script t.shown
  rows _ := 24
  cols _ := 80

/-- A pass at time `at_` that reads `read` from the PTY and `msgs` from the client. -/
def plainTick (at_ : Nat) (read : PtyRead) (msgs : List ClientMessage) : Tick where
  now := at_
  hasRemote := true
  pty := read
  deliveries := msgs.map fun msg => ⟨msg, at_, 0⟩
  sendAt := at_
  sendInterval := 20
  rto := 50

end Posh.Remote
