import Posh.Remote.InputStream
import Posh.Remote.Agreement

/-!
The roaming session together with what its present state no longer shows: the
server as it was when it produced its current frame, the terminals it has had
since, the frames the client handled, the frames that show a finished shell and
the writes of input to the PTY.

The record is kept beside the session and read by nothing in it: a recorded run
is a run (`Recorded.Step.run`), and every run can be recorded (`exists_recorded`).
-/

namespace Posh.Remote

open Posh.Lib

/-- A write of input to the PTY: what `write_all_retry` was given, and how many
bytes it got rid of before it gave up. -/
structure PtyWrite where
  given : Bytes
  takes : Nat
deriving DecidableEq, Repr

def PtyWrite.written (w : PtyWrite) : Bytes := w.given.take w.takes

/-- A frame the client handled, and the number of the state it held then. -/
structure Handled where
  frame : ServerFrame
  held : Nat
deriving DecidableEq, Repr

structure History (T : Type) where
  /-- The server right after the pass that produced its current frame. -/
  producer : Server T
  /-- Every terminal the server has had since that pass. -/
  since : List T := []
  /-- The frames the client handled, oldest first. -/
  received : List Handled := []
  /-- Number and terminal of each frame produced with the PTY closed. -/
  finals : List (Nat × T) := []
  /-- The new input of each message accepted with the PTY open. -/
  writes : List PtyWrite := []

/-- A session and its record. -/
structure Recorded (T : Type) where
  run : Roaming T
  past : History T

namespace Server

variable {T : Type} [Emulator T]

/-- The state a pass that is not stopped reaches before it may send. -/
def afterReads (tick : Tick) (s : Server T) : Server T :=
  tick.deliveries.foldl receive (s.readPty tick)

/-- The terminals a pass goes through. -/
def terminals (tick : Tick) (s : Server T) : List T :=
  (tick.deliveries.scanl receive (s.readPty tick)).map (·.term)

/-- The write to the PTY that handling `d` makes, if it makes one. -/
def inputWrite (d : Delivery) (s : Server T) : List PtyWrite :=
  match (s.inbox.accept d.msg.inputBase d.msg.input).2 with
  | some newInput => if s.ptyOpen then [⟨newInput, d.ptyTakes⟩] else []
  | none => []

def inputWrites : List Delivery → Server T → List PtyWrite
  | [], _ => []
  | d :: rest, s => s.inputWrite d ++ inputWrites rest (s.receive d)

end Server

namespace History

variable {T : Type} [Emulator T]

/-- The record after a pass of the server in state `s`. -/
def afterPass (cfg : ServerConfig) (tick : Tick) (s : Server T) (h : History T) : History T :=
  if (s.stops cfg tick).isSome then h
  else
    let out := (s.pass cfg tick).server
    let h := { h with writes := h.writes ++ Server.inputWrites tick.deliveries (s.readPty tick) }
    if out.current.num = s.current.num then { h with since := h.since ++ s.terminals tick }
    else
      { h with
        producer := out, since := [],
        finals := if out.ptyOpen then h.finals else h.finals ++ [(out.current.num, out.term)] }

/-- The record after the client in state `c` handled `frame`. -/
def receive (frame : ServerFrame) (c : Client T) (h : History T) : History T :=
  { h with received := h.received ++ [⟨frame, c.appliedNum⟩] }

end History

namespace Recorded

variable {T : Type} [Emulator T]

inductive Step (cfg : ServerConfig) : Recorded T → Recorded T → Prop where
  | serverPass {w : Recorded T} (tick : Tick) :
      w.run.serverExit = none → (∀ d ∈ tick.deliveries, d.msg ∈ w.run.toServer) →
      Step cfg w ⟨w.run.afterPass cfg tick, w.past.afterPass cfg tick w.run.server⟩
  | clientFrame {w : Recorded T} (frame : ServerFrame) :
      frame ∈ w.run.toClient →
      Step cfg w
        ⟨{ w.run with client := (w.run.client.processFrame frame).1 },
          w.past.receive frame w.run.client⟩
  | clientSend {w : Recorded T} :
      Step cfg w
        ⟨{ w.run with toServer := w.run.toServer ++ [w.run.client.message] }, w.past⟩
  | clientPush {w : Recorded T} (bytes : Bytes) :
      Step cfg w ⟨{ w.run with client := w.run.client.push bytes }, w.past⟩
  | clientEnv {w : Recorded T} (rows cols : Nat) (flags : UInt8) :
      Step cfg w
        ⟨{ w.run with client := { w.run.client with rows, cols, flags } }, w.past⟩

/-- A session as it starts: frame 0 is the empty state both ends begin with. -/
def start (rows cols now clientRows clientCols : Nat) : Recorded T :=
  ⟨Roaming.start rows cols now clientRows clientCols, { producer := Server.start rows cols now }⟩

/-- The recorded session as a transition system. -/
def system (T : Type) [Emulator T] (cfg : ServerConfig) : Transition (Recorded T) where
  init w := ∃ rows cols now clientRows clientCols, w = start rows cols now clientRows clientCols
  step := Step cfg

variable {cfg : ServerConfig}

theorem Step.run {w w' : Recorded T} (step : Step cfg w w') : Roaming.Step cfg w.run w'.run := by
  cases step with
  | serverPass tick running sent => exact .serverPass tick running sent
  | clientFrame frame sent => exact .clientFrame frame sent
  | clientSend => exact .clientSend
  | clientPush bytes => exact .clientPush bytes
  | clientEnv rows cols flags => exact .clientEnv rows cols flags

/-- Forgetting the record of a recorded run leaves a run. -/
theorem reachable_run {w : Recorded T} (reach : (system T cfg).Reachable w) :
    (Roaming.system T cfg).Reachable w.run := by
  refine reach.induct (I := fun w => (Roaming.system T cfg).Reachable w.run) ?_ ?_
  · rintro w ⟨rows, cols, now, clientRows, clientCols, rfl⟩
    exact .of_init ⟨rows, cols, now, clientRows, clientCols, rfl⟩
  · intro w w' _ before step
    exact before.tail step.run

/-- Every run has a record. -/
theorem exists_recorded {r : Roaming T} (reach : (Roaming.system T cfg).Reachable r) :
    ∃ past, (system T cfg).Reachable ⟨r, past⟩ := by
  refine reach.induct (I := fun r => ∃ past, (system T cfg).Reachable ⟨r, past⟩) ?_ ?_
  · rintro r ⟨rows, cols, now, clientRows, clientCols, rfl⟩
    exact ⟨_, .of_init ⟨rows, cols, now, clientRows, clientCols, rfl⟩⟩
  · rintro r r' _ ⟨past, before⟩ step
    cases step with
    | serverPass tick running sent => exact ⟨_, before.tail (.serverPass tick running sent)⟩
    | clientFrame frame sent => exact ⟨_, before.tail (.clientFrame frame sent)⟩
    | clientSend => exact ⟨_, before.tail .clientSend⟩
    | clientPush bytes => exact ⟨_, before.tail (.clientPush bytes)⟩
    | clientEnv rows cols flags => exact ⟨_, before.tail (.clientEnv rows cols flags)⟩

end Recorded

/-! ### What reading does to the server's announcements -/

/-- `after` is `before` after any number of resizes. -/
abbrev Resized {T : Type} [Emulator T] : T → T → Prop :=
  Relation.ReflTransGen fun before after => ∃ rows cols, after = Emulator.resize before rows cols

/-- The generation only ever counts up. -/
structure CountsUp (T : Type) [Emulator T] : Prop where
  process : ∀ (t : T) bytes, Emulator.generation t ≤ Emulator.generation (Emulator.process t bytes)
  takeResponses : ∀ t : T, Emulator.generation t ≤ Emulator.generation (Emulator.takeResponses t).2
  resize : ∀ (t : T) rows cols,
    Emulator.generation t ≤ Emulator.generation (Emulator.resize t rows cols)

namespace Server

variable {T : Type} [Emulator T]

/-- How the server may change while it reads the PTY and its messages. -/
structure Follows (before after : Server T) : Prop where
  current : after.current = before.current
  lastGen : after.lastGen = before.lastGen
  shutdown : before.shutdown = true → after.shutdown = true
  forceFrame : before.forceFrame = true → after.forceFrame = true
  /-- A shutdown that begins asks for one more frame. -/
  begun : after.shutdown = true → before.shutdown = true ∨ after.forceFrame = true
  /-- A PTY once closed stays closed. -/
  ptyOpen : after.ptyOpen = true → before.ptyOpen = true
  /-- Once it is closed the shutdown has begun. -/
  closed : after.ptyOpen = false → before.ptyOpen = false ∨ after.shutdown = true
  generation : CountsUp T → Emulator.generation before.term ≤ Emulator.generation after.term
  /-- No output reaches the terminal of a closed PTY. -/
  resized : before.ptyOpen = false → Resized before.term after.term

theorem Follows.refl (s : Server T) : Follows s s where
  current := rfl
  lastGen := rfl
  shutdown := id
  forceFrame := id
  begun := .inl
  ptyOpen := id
  closed := .inl
  generation := fun _ => Nat.le_refl _
  resized := fun _ => .refl

theorem Follows.trans {a b c : Server T} (first : Follows a b) (second : Follows b c) :
    Follows a c where
  current := second.current.trans first.current
  lastGen := second.lastGen.trans first.lastGen
  shutdown := fun h => second.shutdown (first.shutdown h)
  forceFrame := fun h => second.forceFrame (first.forceFrame h)
  begun := fun h => (second.begun h).elim
    (fun h => (first.begun h).imp id second.forceFrame) .inr
  ptyOpen := fun h => first.ptyOpen (second.ptyOpen h)
  closed := fun h => (second.closed h).elim
    (fun h => (first.closed h).imp id second.shutdown) .inr
  generation := fun counts => (first.generation counts).trans (second.generation counts)
  resized := fun shut => (first.resized shut).trans
    (second.resized (Bool.eq_false_iff.mpr fun h => Bool.eq_false_iff.mp shut (first.ptyOpen h)))

theorem follows_readPty (tick : Tick) (s : Server T) : Follows s (s.readPty tick) := by
  unfold readPty
  split
  · exact .refl s
  · rename_i isOpen
    cases tick.pty with
    | idle => exact .refl s
    | data bytes =>
      exact ⟨rfl, rfl, id, id, .inl, id, .inl,
        fun counts => (counts.process s.term bytes).trans (counts.takeResponses _),
        fun shut => absurd shut (by simpa using isOpen)⟩
    | closed =>
      simp only
      split
      · rename_i already
        exact ⟨rfl, rfl, id, id, .inl, nofun, fun _ => .inr already, fun _ => Nat.le_refl _,
          fun _ => .refl⟩
      · exact ⟨rfl, rfl, fun _ => rfl, fun _ => rfl, fun _ => .inr rfl, nofun, fun _ => .inr rfl,
          fun _ => Nat.le_refl _, fun _ => .refl⟩

theorem follows_adoptSize (msg : ClientMessage) (s : Server T) :
    Follows s (s.adoptSize msg) := by
  unfold adoptSize
  split
  · exact ⟨rfl, rfl, id, id, .inl, id, .inl, fun counts => counts.resize s.term _ _,
      fun _ => .single ⟨_, _, rfl⟩⟩
  · exact .refl s

theorem follows_handleClientMessage (d : Delivery) (s : Server T) :
    Follows s (s.handleClientMessage d) := by
  have sized := follows_adoptSize d.msg s
  unfold handleClientMessage
  dsimp only
  split
  · exact sized.trans ⟨rfl, rfl, id, id, .inl, id, .inl, fun _ => Nat.le_refl _, fun _ => .refl⟩
  · exact sized.trans ⟨rfl, rfl, id, id, .inl, id, .inl, fun _ => Nat.le_refl _, fun _ => .refl⟩

theorem follows_updateAcks (msg : ClientMessage) (s : Server T) :
    Follows s (s.updateAcks msg) := by
  unfold updateAcks
  split
  · exact .refl s
  · exact ⟨rfl, rfl, id, id, .inl, id, .inl, fun _ => Nat.le_refl _, fun _ => .refl⟩

theorem follows_receive (s : Server T) (d : Delivery) : Follows s (s.receive d) := by
  let noted : Server T := { s with
    lastHeard := d.at_
    peerWantsExit := s.peerWantsExit || (findCap d.msg.caps CAP_EXIT_STATUS).isSome }
  have heard : Follows s noted :=
    ⟨rfl, rfl, id, id, .inl, id, .inl, fun _ => Nat.le_refl _, fun _ => .refl⟩
  have handled := heard.trans (follows_handleClientMessage d noted)
  have quits (s : Server T) :
      Follows s { s with shutdown := true, shutdownAt := d.at_, forceFrame := true } :=
    ⟨rfl, rfl, fun _ => rfl, fun _ => rfl, fun _ => .inr rfl, id, .inl, fun _ => Nat.le_refl _,
      fun _ => .refl⟩
  unfold receive
  dsimp only
  split
  · exact (handled.trans (quits _)).trans (follows_updateAcks d.msg _)
  · exact handled.trans (follows_updateAcks d.msg _)

theorem follows_receives (ds : List Delivery) (s : Server T) : Follows s (ds.foldl receive s) := by
  induction ds generalizing s with
  | nil => exact .refl s
  | cons d ds ih => exact (follows_receive s d).trans (ih (s.receive d))

theorem follows_afterReads (tick : Tick) (s : Server T) : Follows s (s.afterReads tick) :=
  (follows_readPty tick s).trans (follows_receives tick.deliveries _)

/-- Every terminal a pass goes through lies between its first and its last. -/
theorem generation_terminals (counts : CountsUp T) {tick : Tick} {s : Server T} {t : T}
    (mem : t ∈ s.terminals tick) :
    Emulator.generation s.term ≤ Emulator.generation t ∧
      Emulator.generation t ≤ Emulator.generation (s.afterReads tick).term := by
  have along (ds : List Delivery) (s : Server T)
      (mem : t ∈ (ds.scanl receive s).map (·.term)) :
      Emulator.generation s.term ≤ Emulator.generation t ∧
        Emulator.generation t ≤ Emulator.generation (ds.foldl receive s).term := by
    induction ds generalizing s with
    | nil =>
      rw [List.scanl_nil, List.map_singleton, List.mem_singleton] at mem
      rw [mem]
      exact ⟨Nat.le_refl _, Nat.le_refl _⟩
    | cons d ds ih =>
      rw [List.scanl_cons, List.map_cons, List.mem_cons] at mem
      rcases mem with rfl | later
      · exact ⟨Nat.le_refl _, (follows_receives (d :: ds) s).generation counts⟩
      · obtain ⟨low, high⟩ := ih (s.receive d) later
        exact ⟨((follows_receive s d).generation counts).trans low, high⟩
  obtain ⟨low, high⟩ := along tick.deliveries (s.readPty tick) mem
  exact ⟨((follows_readPty tick s).generation counts).trans low, high⟩

/-! ### What sending does to them -/

/-- What `transmit` never changes. -/
structure Keeps (before after : Server T) : Prop where
  term : after.term = before.term
  inbox : after.inbox = before.inbox
  ptyOpen : after.ptyOpen = before.ptyOpen
  shutdown : after.shutdown = before.shutdown

/-- The frame shown is the one already current. -/
structure Repeats (before after : Server T) : Prop where
  current : after.current = before.current
  lastGen : after.lastGen = before.lastGen
  forceFrame : after.forceFrame = before.forceFrame

/-- A new frame is current, made of the terminal as it is. -/
structure Produces (before after : Server T) : Prop where
  current : after.current = ⟨before.current.num + 1, Emulator.dumpVt before.term⟩
  lastGen : after.lastGen = Emulator.generation before.term
  forceFrame : after.forceFrame = false

theorem schedule_cases (tick : Tick) (s : Server T) :
    Keeps s (s.schedule tick).1 ∧
      (Repeats s (s.schedule tick).1 ∨
        Produces s (s.schedule tick).1 ∧ (s.schedule tick).2 = .frame) := by
  unfold schedule
  split
  · exact ⟨⟨rfl, rfl, rfl, rfl⟩, .inr ⟨⟨rfl, rfl, rfl⟩, rfl⟩⟩
  · refine ⟨?_, .inl ?_⟩
    · split
      · exact ⟨rfl, rfl, rfl, rfl⟩
      · split
        · exact ⟨rfl, rfl, rfl, rfl⟩
        · split <;> exact ⟨rfl, rfl, rfl, rfl⟩
    · split
      · exact ⟨rfl, rfl, rfl⟩
      · split
        · exact ⟨rfl, rfl, rfl⟩
        · split <;> exact ⟨rfl, rfl, rfl⟩

theorem transmit_cases (tick : Tick) (s : Server T) :
    Keeps s (s.transmit tick).1 ∧
      (Repeats s (s.transmit tick).1 ∨
        Produces s (s.transmit tick).1 ∧ ∃ frame, (s.transmit tick).2 = some frame) := by
  obtain ⟨⟨term, inbox, ptyOpen, shutdown⟩, outcome⟩ := schedule_cases tick (s.updateEcho tick)
  unfold transmit
  dsimp only
  split
  · exact ⟨⟨rfl, rfl, rfl, rfl⟩, .inl ⟨rfl, rfl, rfl⟩⟩
  · split
    · rename_i silent
      refine ⟨⟨term, inbox, ptyOpen, shutdown⟩, ?_⟩
      rcases outcome with ⟨current, lastGen, forceFrame⟩ | ⟨_, frame⟩
      · exact .inl ⟨current, lastGen, forceFrame⟩
      · rw [frame] at silent
        cases silent
    · refine ⟨⟨term, inbox, ptyOpen, shutdown⟩, ?_⟩
      rcases outcome with ⟨current, lastGen, forceFrame⟩ | ⟨⟨current, lastGen, forceFrame⟩, _⟩
      · exact .inl ⟨current, lastGen, forceFrame⟩
      · exact .inr ⟨⟨current, lastGen, forceFrame⟩, _, rfl⟩

/-- Every frame sent during a shutdown announces it. -/
theorem flags_transmit {tick : Tick} {s : Server T} {frame : ServerFrame}
    (sent : (s.transmit tick).2 = some frame) (shutdown : (s.transmit tick).1.shutdown = true) :
    frame.flags &&& FLAG_SHUTDOWN ≠ 0 := by
  unfold transmit at sent shutdown
  dsimp only at sent shutdown
  split at sent
  · cases sent
  · rename_i active
    rw [if_neg active] at shutdown
    split at sent
    · cases sent
    · rename_i sending
      rw [if_neg sending] at shutdown
      cases sent
      unfold Server.frame
      dsimp only
      rw [if_pos shutdown]
      decide

/-- A pass that is not stopped transmits what it reached by reading. -/
theorem pass_of_not_stops {cfg : ServerConfig} {tick : Tick} {s : Server T}
    (runs : (s.stops cfg tick).isSome = false) :
    (s.pass cfg tick).server = ((s.afterReads tick).transmit tick).1 ∧
      (s.pass cfg tick).sent = ((s.afterReads tick).transmit tick).2 := by
  unfold pass
  cases stopped : s.stops cfg tick with
  | some exit =>
    rw [stopped] at runs
    cases runs
  | none => exact ⟨rfl, rfl⟩

theorem pass_of_stops {cfg : ServerConfig} {tick : Tick} {s : Server T}
    (stopped : (s.stops cfg tick).isSome = true) :
    (s.pass cfg tick).server = s ∧ (s.pass cfg tick).sent = none := by
  obtain ⟨exit, found⟩ := Option.isSome_iff_exists.mp stopped
  unfold pass
  rw [found]
  exact ⟨rfl, rfl⟩

end Server

/-- What one pass from `s` does to the server and to the record `h`. -/
inductive Passed {T : Type} [Emulator T] (tick : Tick) (s : Server T) (h : History T) :
    Server T → Option ServerFrame → History T → Prop where
  /-- The pass stopped before it read anything. -/
  | stopped : Passed tick s h s none h
  /-- The current frame stays. -/
  | repeats {s' : Server T} {sent : Option ServerFrame} {h' : History T} :
      (s.afterReads tick).Keeps s' → (s.afterReads tick).Repeats s' →
      h'.producer = h.producer → h'.since = h.since ++ s.terminals tick → h'.finals = h.finals →
      Passed tick s h s' sent h'
  /-- The pass produces a frame and sends it. -/
  | produces {s' : Server T} (frame : ServerFrame) {h' : History T} :
      (s.afterReads tick).Keeps s' → (s.afterReads tick).Produces s' →
      h'.producer = s' → h'.since = [] →
      h'.finals = (if s'.ptyOpen then h.finals else h.finals ++ [(s'.current.num, s'.term)]) →
      Passed tick s h s' (some frame) h'

theorem History.passed {T : Type} [Emulator T] (cfg : ServerConfig) (tick : Tick) (s : Server T)
    (h : History T) :
    Passed tick s h (s.pass cfg tick).server (s.pass cfg tick).sent (h.afterPass cfg tick s) ∧
      (h.afterPass cfg tick s).received = h.received := by
  unfold afterPass
  cases runs : (s.stops cfg tick).isSome with
  | true =>
    obtain ⟨server, sent⟩ := Server.pass_of_stops runs
    rw [server, sent]
    exact ⟨.stopped, rfl⟩
  | false =>
    obtain ⟨server, sent⟩ := Server.pass_of_not_stops runs
    obtain ⟨keeps, outcome⟩ := Server.transmit_cases tick (s.afterReads tick)
    have num := congrArg FrameState.num (Server.follows_afterReads tick s).current
    rw [if_neg Bool.false_ne_true]
    dsimp only
    rw [server, sent]
    rcases outcome with same | ⟨fresh, frame, out⟩
    · have same_num := (congrArg FrameState.num same.current).trans num
      rw [if_pos same_num]
      exact ⟨.repeats keeps same rfl rfl rfl, rfl⟩
    · have next : ((s.afterReads tick).transmit tick).1.current.num ≠ s.current.num := by
        have produced := congrArg FrameState.num fresh.current
        dsimp only at produced
        omega
      rw [if_neg next, out]
      exact ⟨.produces frame keeps fresh rfl rfl rfl, rfl⟩

end Posh.Remote
