import Posh.Remote.Shutdown

/-!
What of the client's input reaches the application.

The inbox moves past a message before its new bytes are written, and
`write_all_retry` drops by design what a stopped reader does not take in time. So
the acknowledged offset counts accepted bytes, and the PTY has received them less
what each timed-out write gave up on.
-/

namespace Posh.Remote

open Posh.Lib

/-- No byte of the write was given up on. -/
def PtyWrite.Complete (w : PtyWrite) : Prop := w.written = w.given

instance (w : PtyWrite) : Decidable w.Complete := inferInstanceAs (Decidable (_ = _))

theorem PtyWrite.length_written_le (w : PtyWrite) : w.written.length ≤ w.given.length :=
  List.length_take_le' w.takes w.given

theorem PtyWrite.complete_of_length_le {w : PtyWrite}
    (all : w.given.length ≤ w.written.length) : w.Complete :=
  (List.take_prefix w.takes w.given).eq_of_length (Nat.le_antisymm w.length_written_le all)

/-- The bytes a sequence of writes was given, and those it wrote. -/
def givenBytes (ws : List PtyWrite) : Bytes := ws.flatMap (·.given)
def writtenBytes (ws : List PtyWrite) : Bytes := ws.flatMap (·.written)

theorem length_writtenBytes_le (ws : List PtyWrite) :
    (writtenBytes ws).length ≤ (givenBytes ws).length := by
  induction ws with
  | nil => exact Nat.le_refl _
  | cons w ws ih =>
    have first := w.length_written_le
    simp only [writtenBytes, givenBytes, List.flatMap_cons, List.length_append] at ih ⊢
    omega

/-- Nothing was dropped exactly when every write was complete. -/
theorem givenBytes_le_iff (ws : List PtyWrite) :
    (givenBytes ws).length ≤ (writtenBytes ws).length ↔ ∀ w ∈ ws, w.Complete := by
  constructor
  · intro all
    induction ws with
    | nil => exact fun _ mem => absurd mem List.not_mem_nil
    | cons w ws ih =>
      have first := w.length_written_le
      have rest := length_writtenBytes_le ws
      simp only [writtenBytes, givenBytes, List.flatMap_cons, List.length_append] at all rest ih
      intro v mem
      rcases List.mem_cons.mp mem with rfl | later
      · exact PtyWrite.complete_of_length_le (by omega)
      · exact ih (by omega) v later
  · intro complete
    have same : writtenBytes ws = givenBytes ws := List.flatMap_congr complete
    exact Nat.le_of_eq (congrArg List.length same).symm

namespace Server

variable {T : Type} [Emulator T]

@[simp] theorem ptyInput_readPty (tick : Tick) (s : Server T) :
    (s.readPty tick).ptyInput = s.ptyInput := by
  unfold readPty
  split
  · rfl
  · cases tick.pty with
    | idle => rfl
    | data bytes => rfl
    | closed =>
      simp only
      split <;> rfl

@[simp] theorem ptyInput_transmit (tick : Tick) (s : Server T) :
    (s.transmit tick).1.ptyInput = s.ptyInput := by
  have scheduled (s : Server T) : (s.schedule tick).1.ptyInput = s.ptyInput := by
    unfold schedule
    split
    · rfl
    · split
      · rfl
      · split
        · rfl
        · split <;> rfl
  unfold transmit
  dsimp only
  split
  · rfl
  · split <;> exact scheduled _

/-- With the PTY open, a delivery accepts what its write is given. -/
theorem write_receive {d : Delivery} {s : Server T} (isOpen : s.ptyOpen = true) :
    (s.receive d).accepted = s.accepted ++ givenBytes (s.inputWrite d) ∧
      (s.receive d).ptyInput = s.ptyInput ++ writtenBytes (s.inputWrite d) := by
  have handled (s' : Server T) (same : s'.inbox = s.inbox) (stillOpen : s'.ptyOpen = true) :
      (s'.handleClientMessage d).accepted = s'.accepted ++ givenBytes (s.inputWrite d) ∧
        (s'.handleClientMessage d).ptyInput = s'.ptyInput ++ writtenBytes (s.inputWrite d) := by
    have sized : (s'.adoptSize d.msg).inbox = s'.inbox ∧
        (s'.adoptSize d.msg).accepted = s'.accepted ∧
        (s'.adoptSize d.msg).ptyInput = s'.ptyInput ∧
        (s'.adoptSize d.msg).ptyOpen = s'.ptyOpen := by
      unfold adoptSize
      split <;> exact ⟨rfl, rfl, rfl, rfl⟩
    obtain ⟨inbox, accepted, ptyInput, ptyOpen⟩ := sized
    unfold handleClientMessage inputWrite
    dsimp only
    rw [inbox, same]
    match s.inbox.accept d.msg.inputBase d.msg.input with
    | (next, none) => simp [givenBytes, writtenBytes, accepted, ptyInput]
    | (next, some newInput) =>
      simp [givenBytes, writtenBytes, PtyWrite.written, accepted, ptyInput, ptyOpen, isOpen,
        stillOpen]
  have acked (s : Server T) : (s.updateAcks d.msg).accepted = s.accepted ∧
      (s.updateAcks d.msg).ptyInput = s.ptyInput := by
    unfold updateAcks
    split <;> exact ⟨rfl, rfl⟩
  unfold receive
  dsimp only
  rw [(acked _).1, (acked _).2]
  split
  · exact handled _ rfl isOpen
  · exact handled _ rfl isOpen

theorem write_receives {ds : List Delivery} {s : Server T}
    (isOpen : (ds.foldl receive s).ptyOpen = true) :
    (ds.foldl receive s).accepted = s.accepted ++ givenBytes (inputWrites ds s) ∧
      (ds.foldl receive s).ptyInput = s.ptyInput ++ writtenBytes (inputWrites ds s) := by
  induction ds generalizing s with
  | nil => simp [inputWrites, givenBytes, writtenBytes]
  | cons d ds ih =>
    obtain ⟨accepted, ptyInput⟩ := ih isOpen
    obtain ⟨first, written⟩ :=
      write_receive (d := d) ((follows_receives (d :: ds) s).ptyOpen isOpen)
    rw [List.foldl_cons, accepted, ptyInput, first, written]
    simp [inputWrites, givenBytes, writtenBytes]

end Server

/-- While the PTY is open, the record of writes accounts for every accepted byte. -/
def Accounts {T : Type} (w : Recorded T) : Prop :=
  w.run.server.ptyOpen = true →
    w.run.server.accepted = givenBytes w.past.writes ∧
      w.run.server.ptyInput = writtenBytes w.past.writes

namespace Recorded

variable {T : Type} [Emulator T] {cfg : ServerConfig}

theorem writes_afterPass {tick : Tick} {s : Server T} {h : History T}
    (runs : (s.stops cfg tick).isSome = false) :
    (h.afterPass cfg tick s).writes =
      h.writes ++ Server.inputWrites tick.deliveries (s.readPty tick) := by
  unfold History.afterPass
  rw [if_neg (by rw [runs]; exact Bool.false_ne_true)]
  dsimp only
  split <;> rfl

theorem accounts_pass {w : Recorded T} (tick : Tick) (h : Accounts w) :
    Accounts ⟨w.run.afterPass cfg tick, w.past.afterPass cfg tick w.run.server⟩ := by
  unfold Accounts Roaming.afterPass
  dsimp only
  intro isOpen
  cases runs : (w.run.server.stops cfg tick).isSome with
  | true =>
    have same : w.past.afterPass cfg tick w.run.server = w.past := if_pos runs
    rw [(Server.pass_of_stops runs).1] at isOpen ⊢
    rw [same]
    exact h isOpen
  | false =>
    rw [writes_afterPass runs]
    rw [(Server.pass_of_not_stops runs).1] at isOpen ⊢
    rw [(Server.transmit_cases tick _).1.ptyOpen] at isOpen
    rw [(Server.input_transmit tick _).2, Server.ptyInput_transmit]
    have before := (Server.follows_afterReads tick w.run.server).ptyOpen isOpen
    obtain ⟨accepted, ptyInput⟩ := h before
    obtain ⟨taken, written⟩ := Server.write_receives isOpen
    unfold Server.afterReads
    rw [taken, written, (Server.input_readPty tick w.run.server).2, Server.ptyInput_readPty,
      accepted, ptyInput]
    simp [givenBytes, writtenBytes]

theorem accounts_invariant : (system T cfg).Invariant Accounts where
  base := by
    rintro w ⟨rows, cols, now, clientRows, clientCols, rfl⟩ _
    exact ⟨rfl, rfl⟩
  step := by
    intro w w' h step
    cases step with
    | serverPass tick => exact accounts_pass tick h
    | clientFrame frame => exact h
    | clientSend => exact h
    | clientPush bytes => exact h
    | clientEnv rows cols flags => exact h

/-- With the PTY open, the accepted input is the client's stream up to the
acknowledged offset, given to one write per accepted message, and the PTY has
received what those writes wrote. That is a prefix of the stream which reaches
the acknowledged offset exactly when no write gave up on a byte. -/
theorem ptyInput_writes {w : Recorded T} (reach : (system T cfg).Reachable w)
    (isOpen : w.run.server.ptyOpen = true) :
    w.run.client.pushed.take w.run.server.inbox.next = givenBytes w.past.writes ∧
      (givenBytes w.past.writes).length = w.run.server.inbox.next ∧
      w.run.server.ptyInput = writtenBytes w.past.writes ∧
      (∀ frame ∈ w.run.toClient, frame.inputAck ≤ w.run.server.inbox.next) ∧
      ((w.run.server.ptyInput <+: w.run.client.pushed ∧
          w.run.server.inbox.next ≤ w.run.server.ptyInput.length) ↔
        ∀ write ∈ w.past.writes, write.Complete) := by
  have delivers := Roaming.delivers_invariant.reachable (reachable_run reach)
  obtain ⟨accepted, written⟩ := accounts_invariant.reachable reach isOpen
  have stream : w.run.client.pushed.take w.run.server.inbox.next = givenBytes w.past.writes :=
    delivers.took.accepted.symm.trans accepted
  have length : (givenBytes w.past.writes).length = w.run.server.inbox.next := by
    rw [← stream, List.length_take]
    exact Nat.min_eq_left delivers.took.inside
  refine ⟨stream, length, written, delivers.acks, ?_⟩
  rw [← givenBytes_le_iff, length, written]
  constructor
  · rintro ⟨_, reaches⟩
    exact reaches
  · intro reaches
    have complete := (givenBytes_le_iff w.past.writes).mp (length ▸ reaches)
    have same : writtenBytes w.past.writes = givenBytes w.past.writes :=
      List.flatMap_congr complete
    rw [same, ← stream]
    exact ⟨List.take_prefix _ _, stream ▸ length ▸ Nat.le_refl _⟩

section Runs

/-- A client that typed `ab`. -/
def typing : Client (Slides fun _ => []) := (Client.start 24 80).push [0x61, 0x62]

/-- The server's pass that reads `ab` and writes `takes` bytes of it. -/
def typingTick (takes : Nat) : Tick :=
  { plainTick 100 .idle [] with deliveries := [⟨typing.message, 100, takes⟩] }

/-- After that pass and one that reads and writes `c` as well. -/
def typed (takes : Nat) : Recorded (Slides fun _ => []) :=
  let w₀ : Recorded (Slides fun _ => []) := start 24 80 0 24 80
  let client := typing.push [0x63]
  let run := { w₀.run with client, toServer := [typing.message, client.message] }
  let tick := { plainTick 200 .idle [] with deliveries := [⟨client.message, 200, 1⟩] }
  let past := w₀.past.afterPass {} (typingTick takes) run.server
  let run' := run.afterPass {} (typingTick takes)
  ⟨run'.afterPass {} tick, past.afterPass {} tick run'.server⟩

theorem typed_reachable (takes : Nat)
    (running : ((Server.start 24 80 0 : Server (Slides fun _ => [])).pass {}
      (typingTick takes)).exit = none) : (system _ {}).Reachable (typed takes) := by
  have reach₀ : (system (Slides fun _ => []) {}).Reachable (start 24 80 0 24 80) :=
    .of_init ⟨24, 80, 0, 24, 80, rfl⟩
  have sent := (((reach₀.tail (.clientPush [0x61, 0x62])).tail .clientSend).tail
    (.clientPush [0x63])).tail .clientSend
  refine (sent.tail (.serverPass _ rfl ?_)).tail (.serverPass _ running ?_)
  · intro d mem
    rw [List.mem_singleton.mp mem]
    exact List.mem_cons_self
  · intro d mem
    rw [List.mem_singleton.mp mem]
    exact List.mem_cons_of_mem _ List.mem_cons_self

/-- A write cut after its first byte: the rest of it is acknowledged, and the
next message is written behind the gap. -/
theorem ptyInput_gap : ¬ ∀ w : Recorded (Slides fun _ => []), (system _ {}).Reachable w →
    w.run.server.ptyOpen = true → w.run.server.ptyInput <+: w.run.client.pushed ∧
      ∀ frame ∈ w.run.toClient, frame.inputAck ≤ w.run.server.ptyInput.length := by
  intro always
  have kept := (always (typed 1) (typed_reachable 1 (by decide)) (by decide)).1
  exact absurd kept (by decide)

/-- Both writes complete. -/
theorem ptyInput_writes_all : (system _ {}).Reachable (typed 2) ∧
    (typed 2).run.server.ptyInput <+: (typed 2).run.client.pushed ∧
      (typed 2).run.server.inbox.next ≤ (typed 2).run.server.ptyInput.length := by
  obtain ⟨_, _, _, _, exact_⟩ := ptyInput_writes (typed_reachable 2 (by decide)) (by decide)
  exact ⟨typed_reachable 2 (by decide), exact_.mpr (by decide)⟩

end Runs

end Recorded

end Posh.Remote
