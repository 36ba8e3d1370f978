import Posh.Remote.History

/-!
Leaving through the shutdown handshake: what the server's gate, which reads only
its own variables, says about the client.

A shutdown that begins forces a frame, so a frame is either still owed or was
produced after the shutdown began and carries the flag whenever it is sent. The
gate opens once none is owed and the current one is acked, and only a client
that applied a frame acks it.
-/

namespace Posh.Remote

open Posh.Lib

/-- The frame announces that the server is shutting down. -/
def ServerFrame.Announces (frame : ServerFrame) : Prop :=
  frame.flags &&& FLAG_SHUTDOWN ≠ 0

namespace Client

variable {T : Type} [Emulator T]

/-- The client has seen the shutdown once it handled a frame that announces it. -/
theorem shutdownSeen_processFrame (frame : ServerFrame) (c : Client T) :
    (c.processFrame frame).1.shutdownSeen = true ↔ c.shutdownSeen = true ∨ frame.Announces := by
  have noted : (c.noteFrame frame).shutdownSeen = true ↔
      c.shutdownSeen = true ∨ frame.Announces := by
    unfold noteFrame ServerFrame.Announces
    dsimp only
    split
    · rename_i flag
      simp [flag]
    · rename_i flag
      simp [flag]
  have applied (c : Client T) : (c.applyFrame frame).1.shutdownSeen = c.shutdownSeen := by
    unfold applyFrame
    split
    · rfl
    · split
      · rfl
      · split <;> rfl
  unfold processFrame
  rw [applied]
  exact noted

end Client

/-- What the record says about a session's shutdown. -/
structure Announced {T : Type} [Emulator T] (w : Recorded T) : Prop where
  current : w.past.producer.current = w.run.server.current
  lastGen : w.run.server.lastGen = Emulator.generation w.past.producer.term
  /-- A frame announcing the shutdown is owed, or the current one does. -/
  owed : w.run.server.shutdown = true →
    w.run.server.forceFrame = true ∨ w.past.producer.shutdown = true
  begun : w.past.producer.shutdown = true → w.run.server.shutdown = true
  numbered : w.past.producer.shutdown = true → 0 < w.run.server.current.num
  flagged : w.past.producer.shutdown = true → ∀ frame ∈ w.run.toClient,
    frame.frameNum = w.run.server.current.num → frame.Announces
  received : ∀ p ∈ w.past.received, p.frame ∈ w.run.toClient
  applied : w.run.client.appliedNum = 0 ∨
    ∃ p ∈ w.past.received, p.frame.frameNum = w.run.client.appliedNum
  seen : w.run.client.shutdownSeen = true ↔ ∃ p ∈ w.past.received, p.frame.Announces
  between : CountsUp T →
    Emulator.generation w.past.producer.term ≤ Emulator.generation w.run.server.term ∧
      ∀ t ∈ w.past.since, Emulator.generation w.past.producer.term ≤ Emulator.generation t ∧
        Emulator.generation t ≤ Emulator.generation w.run.server.term
  gate : w.run.serverExit = some .confirmed →
    w.run.server.shutdown = true ∧ w.run.server.confirmed = true

namespace Recorded

variable {T : Type} [Emulator T] {cfg : ServerConfig}

theorem announced_start (rows cols now clientRows clientCols : Nat) :
    Announced (start rows cols now clientRows clientCols : Recorded T) where
  current := rfl
  lastGen := rfl
  owed := nofun
  begun := nofun
  numbered := nofun
  flagged := nofun
  received := fun _ mem => absurd mem List.not_mem_nil
  applied := .inl rfl
  seen := by
    constructor
    · intro seen
      cases seen
    · rintro ⟨_, mem, _⟩
      exact absurd mem List.not_mem_nil
  between := fun _ => ⟨Nat.le_refl _, fun _ mem => absurd mem List.not_mem_nil⟩
  gate := nofun

/-- A pass that leaves through the handshake found its gate open. -/
theorem gate_of_pass {tick : Tick} {s : Server T}
    (exit : (s.pass cfg tick).exit = some .confirmed) :
    (s.pass cfg tick).server.shutdown = true ∧ (s.pass cfg tick).server.confirmed = true := by
  unfold Server.pass at exit ⊢
  cases stopped : s.stops cfg tick with
  | some why =>
    -- none of the early ways out is the handshake
    rw [stopped] at exit
    unfold Server.stops at stopped
    dsimp only at exit
    rw [exit] at stopped
    split at stopped
    · cases stopped
    · split at stopped
      · cases stopped
      · split at stopped
        · cases stopped
        · split at stopped
          · cases stopped
          · split at stopped <;> cases stopped
  | none =>
    rw [stopped] at exit
    dsimp only at exit ⊢
    split at exit
    · cases exit
    · rename_i shutting
      split at exit
      · rename_i confirmed
        exact ⟨by simpa using shutting, confirmed⟩
      · split at exit <;> cases exit

/-- Every frame a pass sends during a shutdown announces it. -/
theorem announces_of_pass {tick : Tick} {s : Server T} {frame : ServerFrame}
    (sent : (s.pass cfg tick).sent = some frame)
    (shutting : (s.pass cfg tick).server.shutdown = true) : frame.Announces := by
  cases runs : (s.stops cfg tick).isSome with
  | true =>
    rw [(Server.pass_of_stops runs).2] at sent
    cases sent
  | false =>
    obtain ⟨server, out⟩ := Server.pass_of_not_stops runs
    exact Server.flags_transmit (out ▸ sent) (server ▸ shutting)

theorem announced_passed {w : Recorded T} {tick : Tick} {s' : Server T} {past' : History T}
    {sent : Option ServerFrame} {exit : Option Exit} (nums : ∀ frame ∈ w.run.toClient,
      frame.frameNum ≤ w.run.server.current.num) (h : Announced w)
    (passed : Passed tick w.run.server w.past s' sent past')
    (received : past'.received = w.past.received)
    (announces : ∀ frame, sent = some frame → s'.shutdown = true → frame.Announces)
    (gate : exit = some .confirmed → s'.shutdown = true ∧ s'.confirmed = true) :
    Announced ⟨{ w.run with
      server := s', toClient := w.run.toClient ++ sent.toList, serverExit := exit }, past'⟩ := by
  have follows := Server.follows_afterReads tick w.run.server
  have handled : ∀ p ∈ past'.received, p.frame ∈ w.run.toClient ++ sent.toList := by
    intro p mem
    rw [received] at mem
    exact List.mem_append_left _ (h.received p mem)
  cases passed with
  | stopped =>
    have silent : w.run.toClient ++ (none : Option ServerFrame).toList = w.run.toClient :=
      List.append_nil _
    exact ⟨h.current, h.lastGen, h.owed, h.begun, h.numbered, by rw [silent]; exact h.flagged,
      handled, h.applied, h.seen, h.between, gate⟩
  | repeats keeps same producer since =>
    have current := same.current.trans follows.current
    refine ⟨?_, ?_, ?_, ?_, ?_, ?_, handled, ?_, ?_, ?_, gate⟩
    · rw [producer, h.current, current]
    · rw [producer, ← h.lastGen]
      exact same.lastGen.trans follows.lastGen
    · intro shutting
      rw [keeps.shutdown] at shutting
      rw [same.forceFrame, producer]
      rcases follows.begun shutting with before | owed
      · exact (h.owed before).imp follows.forceFrame id
      · exact .inl owed
    · intro begun
      rw [keeps.shutdown]
      exact follows.shutdown (h.begun (producer ▸ begun))
    · intro begun
      rw [current]
      exact h.numbered (producer ▸ begun)
    · intro begun frame mem num
      have shutting : s'.shutdown = true := by
        rw [keeps.shutdown]
        exact follows.shutdown (h.begun (producer ▸ begun))
      rcases List.mem_append.mp mem with old | new
      · exact h.flagged (producer ▸ begun) frame old (num.trans (congrArg FrameState.num current))
      · exact announces frame (Option.mem_toList.mp new) shutting
    · rw [received]
      exact h.applied
    · rw [received]
      exact h.seen
    · intro counts
      obtain ⟨toNow, each⟩ := h.between counts
      rw [producer, since, keeps.term]
      have later := follows.generation counts
      refine ⟨toNow.trans later, ?_⟩
      intro t mem
      rcases List.mem_append.mp mem with old | new
      · exact ⟨(each t old).1, (each t old).2.trans later⟩
      · obtain ⟨low, high⟩ := Server.generation_terminals counts new
        exact ⟨toNow.trans low, high⟩
  | produces frame keeps fresh producer since =>
    have num : s'.current.num = w.run.server.current.num + 1 := by
      rw [fresh.current, follows.current]
    refine ⟨?_, ?_, ?_, ?_, ?_, ?_, handled, ?_, ?_, ?_, gate⟩
    · rw [producer]
    · rw [producer, keeps.term]
      exact fresh.lastGen
    · intro shutting
      rw [producer]
      exact .inr shutting
    · intro begun
      rw [producer] at begun
      exact begun
    · intro _
      rw [num]
      exact Nat.succ_pos _
    · intro begun other mem same
      rcases List.mem_append.mp mem with old | new
      · -- no older frame has the new number
        have older := nums other old
        dsimp only at same
        omega
      · exact announces other (Option.mem_toList.mp new) (producer ▸ begun)
    · rw [received]
      exact h.applied
    · rw [received]
      exact h.seen
    · intro _
      rw [producer, since]
      exact ⟨Nat.le_refl _, fun _ mem => absurd mem List.not_mem_nil⟩

theorem announced_frame {w : Recorded T} {frame : ServerFrame} (h : Announced w)
    (sent : frame ∈ w.run.toClient) :
    Announced ⟨{ w.run with client := (w.run.client.processFrame frame).1 },
      w.past.receive frame w.run.client⟩ := by
  refine ⟨h.current, h.lastGen, h.owed, h.begun, h.numbered, h.flagged, ?_, ?_, ?_, h.between,
    h.gate⟩
  · intro other mem
    rcases List.mem_append.mp mem with old | new
    · exact h.received other old
    · rw [List.mem_singleton.mp new]
      exact sent
  · rcases w.run.client.applied_cases frame with ⟨num, _⟩ | ⟨_, num, _⟩
    · dsimp only
      rw [num]
      refine h.applied.imp id ?_
      rintro ⟨other, mem, same⟩
      exact ⟨other, List.mem_append_left _ mem, same⟩
    · exact .inr ⟨_, List.mem_append_right _ (List.mem_singleton.mpr rfl), num.symm⟩
  · dsimp only
    rw [Client.shutdownSeen_processFrame, h.seen]
    constructor
    · rintro (⟨other, mem, flag⟩ | flag)
      · exact ⟨other, List.mem_append_left _ mem, flag⟩
      · exact ⟨_, List.mem_append_right _ (List.mem_singleton.mpr rfl), flag⟩
    · rintro ⟨other, mem, flag⟩
      rcases List.mem_append.mp mem with old | new
      · exact .inl ⟨other, old, flag⟩
      · rw [List.mem_singleton.mp new] at flag
        exact .inr flag

theorem announced_step {w w' : Recorded T} (agrees : Agrees w.run) (h : Announced w)
    (step : Step cfg w w') : Announced w' := by
  cases step with
  | serverPass tick running sent =>
      obtain ⟨passed, received⟩ := w.past.passed cfg tick w.run.server
      exact announced_passed agrees.nums h passed received
        (fun _ sent shutting => announces_of_pass sent shutting) gate_of_pass
  | clientFrame frame sent => exact announced_frame h sent
  | clientSend =>
      exact ⟨h.current, h.lastGen, h.owed, h.begun, h.numbered, h.flagged, h.received, h.applied,
        h.seen, h.between, h.gate⟩
  | clientPush bytes =>
      exact ⟨h.current, h.lastGen, h.owed, h.begun, h.numbered, h.flagged, h.received, h.applied,
        h.seen, h.between, h.gate⟩
  | clientEnv rows cols flags =>
      exact ⟨h.current, h.lastGen, h.owed, h.begun, h.numbered, h.flagged, h.received, h.applied,
        h.seen, h.between, h.gate⟩

theorem announced_of_reachable {w : Recorded T} (reach : (system T cfg).Reachable w) :
    Announced w := by
  refine reach.induct ?_ ?_
  · rintro w ⟨rows, cols, now, clientRows, clientCols, rfl⟩
    exact announced_start rows cols now clientRows clientCols
  · intro w w' before h step
    exact announced_step (Roaming.agrees_invariant.reachable (reachable_run before)) h step

/-- A server that leaves through the handshake leaves a client that applied its
current frame. That frame was produced after the shutdown began, the client has
handled a frame that announces it, the terminal's generation has not moved since,
and the echo ack covers every accepted byte. -/
theorem shutdown_confirmed {w : Recorded T} (reach : (system T cfg).Reachable w)
    (left : w.run.serverExit = some .confirmed) :
    w.run.client.appliedNum = w.run.server.current.num ∧
      (Small w.run.server.produced → w.run.client.appliedData = w.run.server.current.data) ∧
      (w.past.producer.shutdown = true ∧ w.past.producer.current = w.run.server.current) ∧
      (w.run.client.shutdownSeen = true ∧
        ∃ p ∈ w.past.received,
          p.frame.frameNum = w.run.server.current.num ∧ p.frame.Announces) ∧
      Emulator.generation w.past.producer.term = Emulator.generation w.run.server.term ∧
      (CountsUp T → ∀ t ∈ w.past.since,
        Emulator.generation t = Emulator.generation w.run.server.term) ∧
      w.run.server.accepted = w.run.client.pushed.take w.run.server.inbox.next ∧
      w.run.server.inbox.next ≤ w.run.server.echo.acked := by
  have agrees := Roaming.agrees_invariant.reachable (reachable_run reach)
  have delivers := Roaming.delivers_invariant.reachable (reachable_run reach)
  have h := announced_of_reachable reach
  obtain ⟨shutting, open_⟩ := h.gate left
  simp only [Server.confirmed, Bool.and_eq_true, Bool.not_eq_true', beq_iff_eq,
    decide_eq_true_eq] at open_
  obtain ⟨⟨⟨⟨notOwed, _⟩, unmoved⟩, acked⟩, echoed⟩ := open_
  have producer : w.past.producer.shutdown = true := by
    rcases h.owed shutting with owed | producer
    · rw [notOwed] at owed
      cases owed
    · exact producer
  -- acked ≤ applied ≤ current, and the gate closes the circle
  have applied : w.run.client.appliedNum = w.run.server.current.num := by
    have low := agrees.acked_le
    have high := agrees.applied_le
    omega
  have handled : ∃ p ∈ w.past.received, p.frame.frameNum = w.run.server.current.num ∧
      p.frame.Announces := by
    rcases h.applied with first | ⟨p, mem, num⟩
    · have positive := h.numbered producer
      omega
    · have num' := num.trans applied
      exact ⟨p, mem, num', h.flagged producer p.frame (h.received p mem) num'⟩
  have generation := (unmoved.trans h.lastGen).symm
  obtain ⟨p, mem, num, announces⟩ := handled
  refine ⟨applied, ?_, ⟨producer, h.current⟩, ⟨h.seen.mpr ⟨p, mem, announces⟩, p, mem, num,
    announces⟩, generation, ?_, delivers.took.accepted, echoed⟩
  · intro small
    have shown := agrees.applied small
    rw [applied] at shown
    exact (Option.some.inj (shown.symm.trans agrees.window.current))
  · intro counts t mem
    obtain ⟨low, high⟩ := (h.between counts).2 t mem
    omega

/-- A shell that exits at once: its last frame, the ack, and the gate. -/
theorem shutdown_confirmed_exit : ∃ w : Recorded (Slides fun _ => [0x41]),
    (system _ {}).Reachable w ∧ w.run.serverExit = some .confirmed ∧
      w.run.server.current.num = 1 ∧ w.run.client.appliedNum = 1 ∧
      w.run.client.shutdownSeen = true := by
  let w₀ : Recorded (Slides fun _ => [0x41]) := start 24 80 0 24 80
  let closing := plainTick 100 .closed []
  let w₁ : Recorded (Slides _) :=
    ⟨w₀.run.afterPass {} closing, w₀.past.afterPass {} closing w₀.run.server⟩
  let frame : ServerFrame := ⟨FLAG_SHUTDOWN, [], 1, 0, 0, .full [0x41]⟩
  let w₂ : Recorded (Slides _) :=
    ⟨{ w₁.run with client := (w₁.run.client.processFrame frame).1 }, w₁.past.receive frame w₁.run.client⟩
  let w₃ : Recorded (Slides _) :=
    ⟨{ w₂.run with toServer := w₂.run.toServer ++ [w₂.run.client.message] }, w₂.past⟩
  let acking := plainTick 200 .idle [w₂.run.client.message]
  let w₄ : Recorded (Slides _) :=
    ⟨w₃.run.afterPass {} acking, w₃.past.afterPass {} acking w₃.run.server⟩
  have reach₀ : (system _ {}).Reachable w₀ := .of_init ⟨24, 80, 0, 24, 80, rfl⟩
  have reach₁ : (system _ {}).Reachable w₁ :=
    reach₀.tail (.serverPass closing rfl fun _ mem => absurd mem List.not_mem_nil)
  have sent : frame ∈ w₁.run.toClient := List.mem_singleton.mpr rfl
  have reach₃ : (system _ {}).Reachable w₃ := (reach₁.tail (.clientFrame frame sent)).tail .clientSend
  have acked : ∀ d ∈ acking.deliveries, d.msg ∈ w₃.run.toServer := by
    intro d mem
    rw [List.mem_singleton.mp mem]
    exact List.mem_singleton.mpr rfl
  have reach₄ : (system _ {}).Reachable w₄ := reach₃.tail (.serverPass acking rfl acked)
  have left : w₄.run.serverExit = some .confirmed := by decide
  have num : w₄.run.server.current.num = 1 := by decide
  obtain ⟨applied, _, _, ⟨seen, _⟩, _⟩ := shutdown_confirmed reach₄ left
  exact ⟨w₄, reach₄, left, num, applied.trans num, seen⟩

end Recorded

end Posh.Remote
