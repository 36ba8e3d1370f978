import Posh.Remote.Agreement

/-!
The synchronization cannot settle into disagreement.

A diff against a base the client does not hold is dropped, but the client answers
it with the number it does hold; once the server has read that answer its base is
the client's state (or its data is gone and it sends full dumps), so the next
frame that carries a state is applied.
-/

namespace Posh.Remote

open Posh.Lib

namespace Roaming

variable {T : Type} [Emulator T] {cfg : ServerConfig}

/-- A stretch of server passes during which the client does nothing; the list
holds the client messages the passes read, in order. -/
inductive ServerRun (cfg : ServerConfig) (r : Roaming T) :
    List ClientMessage → Roaming T → Prop where
  | refl : ServerRun cfg r [] r
  | pass {read : List ClientMessage} {r' : Roaming T} (tick : Tick) :
      ServerRun cfg r read r' → r'.serverExit = none →
      (∀ d ∈ tick.deliveries, d.msg ∈ r'.toServer) →
      ServerRun cfg r (read ++ r'.server.reads cfg tick) (r'.afterPass cfg tick)

/-- The session just after the client handled `frame` and sent its answer. -/
def answered (frame : ServerFrame) (r : Roaming T) : Roaming T :=
  let client := (r.client.processFrame frame).1
  { r with client, toServer := r.toServer ++ [client.message] }

/-- A client that holds the server's base applies any frame carrying a newer state. -/
theorem applies_of_acked {s : Server T} {c : Client T} {frame : ServerFrame}
    (sound : s.window.Sound) (small : Small s.produced) (writes : s.Writes frame)
    (state : frame.body ≠ .empty) (acked : s.ackedNum = c.appliedNum)
    (applied : s.produced[c.appliedNum]? = some c.appliedData)
    (behind : c.appliedNum < s.current.num) :
    (c.processFrame frame).1.appliedNum = frame.frameNum := by
  obtain ⟨num, data⟩ := Client.applied_noteFrame frame c
  have newer : c.appliedNum < frame.frameNum := writes.frameNum ▸ behind
  have body := writes.body.resolve_left state
  rcases s.stateBody_cases with full | ⟨base, held, diff⟩
  · refine Client.applied_of_frameBytes s.current.data newer ?_
    unfold Client.frameBytes
    rw [body, full]
  · refine Client.applied_of_frameBytes s.current.data newer ?_
    have same : base = c.appliedData :=
      Option.some.inj ((sound.held base held).symm.trans ((congrArg (s.produced[·]?) acked).trans applied))
    have shorter : base.length < 2 ^ 32 := small base (List.mem_of_getElem? (sound.held base held))
    unfold Client.frameBytes
    rw [body, diff]
    simp only [num, data, acked, ne_eq, not_true, if_false, ← same, applyDiff_makeDiff shorter]

/-- While only the server moves, the client stays what it was; once one of its
current acks has been read, the server's base is its state. -/
theorem serverRun_effect {r r' : Roaming T} {read : List ClientMessage} (h : Agrees r)
    (run : ServerRun cfg r read r') :
    Agrees r' ∧ r'.client = r.client ∧ r.server.current.num ≤ r'.server.current.num ∧
      ((∃ m ∈ read, m.ackedFrame = r.client.appliedNum) →
        r'.server.ackedNum = r.client.appliedNum) := by
  induction run with
  | refl => exact ⟨h, rfl, Nat.le_refl _, fun ⟨_, mem, _⟩ => absurd mem List.not_mem_nil⟩
  | @pass read r' tick _ _ sent ih =>
      obtain ⟨agrees, client, num_le, acked⟩ := ih
      have effect := passEffect cfg tick agrees.window agrees.acked_le
        agrees.applied_le fun d hd => agrees.acks d.msg (sent d hd)
      refine ⟨agrees_pass tick agrees sent, client, num_le.trans effect.num_le, ?_⟩
      rintro ⟨m, mem, eq⟩
      rw [← client] at eq acked ⊢
      refine effect.acked_eq ?_
      rcases List.mem_append.mp mem with earlier | now
      · exact .inl (acked ⟨m, earlier, eq⟩)
      · exact .inr ⟨m, now, eq⟩

/-- A client that is behind, drops the next frame that carries a state, answers
it, and drops the next one after the server has read the answer. -/
def Stuck {T : Type} [Emulator T] (r : Roaming T) : Prop :=
  r.client.appliedNum < r.server.current.num ∧ r.serverExit = none ∧
    ∃ at_ frame at₂ frame₂,
      let out := r.client.processFrame frame
      let r₁ := (r.afterPass {} (plainTick at_ .idle [])).answered frame
      (r.server.pass {} (plainTick at_ .idle [])).sent = some frame ∧ frame.body ≠ .empty ∧
        out.1.appliedNum ≠ frame.frameNum ∧ r₁.serverExit = none ∧
        (r₁.server.pass {} (plainTick at₂ .idle [out.1.message])).sent = some frame₂ ∧
        frame₂.body ≠ .empty ∧ (out.1.processFrame frame₂).1.appliedNum ≠ frame₂.frameNum

/-- Three dumps whose first diff rebuilds something wrong, to which the second
diff does not apply. -/
structure Misfit (a b c wrong : Bytes) : Prop where
  full : ¬ (makeDiff [] a).length + 8 < a.length
  first : (makeDiff a b).length + 8 < b.length
  second : (makeDiff b c).length + 8 < c.length
  rebuilt : applyDiff a (makeDiff a b) = some wrong
  refused : applyDiff wrong (makeDiff b c) = none

section Misfit

variable (a b c wrong : Bytes)

/-- The slides `a`, `b`, `c`. -/
def script : Nat → Bytes
  | 1 => a
  | 2 => b
  | 3 => c
  | _ => []

/-- The server after showing `a` to nobody, `b` to a client holding `a`, and `c`
to a client claiming to hold `b`. -/
def shownA : Server (Slides (script a b c)) where
  term := ⟨1⟩
  current := ⟨1, a⟩
  outstanding := [⟨0, []⟩]
  lastGen := 1
  lastSend := 100
  lastHeard := 0
  clientSize := (24, 80)
  produced := [[], a]

def shownB : Server (Slides (script a b c)) where
  term := ⟨2⟩
  current := ⟨2, b⟩
  ackedNum := 1
  ackedData := some a
  outstanding := [⟨1, a⟩]
  lastGen := 2
  lastSend := 200
  lastHeard := 200
  clientSize := (24, 80)
  peerWantsExit := true
  produced := [[], a, b]

/-- `sent` is when `c` was last sent, `heard` when the client was last heard. -/
def shownC (sent heard : Nat) : Server (Slides (script a b c)) where
  term := ⟨3⟩
  current := ⟨3, c⟩
  ackedNum := 2
  ackedData := some b
  outstanding := [⟨2, b⟩]
  lastGen := 3
  lastSend := sent
  lastHeard := heard
  clientSize := (24, 80)
  peerWantsExit := true
  produced := [[], a, b, c]

def holding (num : Nat) (data : Bytes) : Client (Slides (script a b c)) where
  serverTerm := ⟨if num = 0 then 0 else 1⟩
  rows := 24
  cols := 80
  appliedNum := num
  appliedData := data

def stateFrame (s : Server (Slides (script a b c))) : ServerFrame :=
  ⟨0, [], s.current.num, 0, 0, s.stateBody⟩

/-- The session in which the client took the wrong data for `b`. -/
def misled : Roaming (Slides (script a b c)) where
  server := shownC a b c 300 300
  client := holding a b c 2 wrong
  toClient := [stateFrame a b c (shownA a b c), stateFrame a b c (shownB a b c),
    stateFrame a b c (shownC a b c 300 300)]
  toServer := [(holding a b c 1 a).message, (holding a b c 2 wrong).message]

variable {a b c wrong}

theorem stateBody_shownA (h : Misfit a b c wrong) : (shownA a b c).stateBody = .full a := by
  unfold Server.stateBody
  simp [shownA, h.full]

theorem stateBody_shownB (h : Misfit a b c wrong) :
    (shownB a b c).stateBody = .diff 1 (makeDiff a b) := by
  unfold Server.stateBody
  simp [shownB, h.first]

theorem stateBody_shownC (h : Misfit a b c wrong) (sent heard : Nat) :
    (shownC a b c sent heard).stateBody = .diff 2 (makeDiff b c) := by
  unfold Server.stateBody
  simp [shownC, h.second]

/-- A delivered ack of frame `num` reaches the server's state through `updateAcks` only. -/
theorem receive_holding (s : Server (Slides (script a b c))) (num at_ : Nat) (data : Bytes)
    (size : s.clientSize = (24, 80)) (next : s.inbox = {}) :
    s.receive ⟨(holding a b c num data).message, at_, 0⟩ =
      ({ s with lastHeard := at_, peerWantsExit := true } : Server _).updateAcks
        (holding a b c num data).message := by
  simp [Server.receive, Server.handleClientMessage, Server.adoptSize, InputInbox.accept, holding, Client.message,
    findCap, ownTable, InputOutbox.pending, CLIENT_FLAG_SHUTDOWN, CAP_EXIT_STATUS,
    CAP_PROTOCOL_VERSION, size, next]

/-- The server reads the ack of `a` and then shows `b`. -/
theorem pass_shownA : (shownA a b c).pass {} (plainTick 200 (.data []) [(holding a b c 1 a).message]) =
    { server := shownB a b c, sent := some (stateFrame a b c (shownB a b c)) } := by
  have go : (shownA a b c).stops {}
      (plainTick 200 (.data []) [(holding a b c 1 a).message]) = none := by
    simp [Server.stops, plainTick, shownA, PEER_TIMEOUT]
  unfold Server.pass
  rw [go]
  simp only [plainTick, List.map_cons, List.map_nil, List.foldl_cons, List.foldl_nil]
  rw [receive_holding _ _ _ _ rfl rfl]
  simp [Server.readPty, shownA, Emulator.process, Emulator.takeResponses, Server.updateAcks, holding,
    Client.message, Server.transmit, Server.updateEcho, EchoAck.update, EchoAck.drain, PEER_TIMEOUT,
    Server.schedule, Emulator.generation, Emulator.dumpVt, script, Server.beforeSend, shownB,
    Server.frame, stateFrame, Server.frameCaps]

/-- The server reads the ack of `b` and then shows `c`. -/
theorem pass_shownB :
    (shownB a b c).pass {} (plainTick 300 (.data []) [(holding a b c 2 wrong).message]) =
      { server := shownC a b c 300 300, sent := some (stateFrame a b c (shownC a b c 300 300)) } := by
  have go : (shownB a b c).stops {}
      (plainTick 300 (.data []) [(holding a b c 2 wrong).message]) = none := by
    simp [Server.stops, plainTick, shownB, PEER_TIMEOUT]
  unfold Server.pass
  rw [go]
  simp only [plainTick, List.map_cons, List.map_nil, List.foldl_cons, List.foldl_nil]
  rw [receive_holding _ _ _ _ rfl rfl]
  simp [Server.readPty, shownB, Emulator.process, Emulator.takeResponses, Server.updateAcks, holding,
    Client.message, Server.transmit, Server.updateEcho, EchoAck.update, EchoAck.drain, PEER_TIMEOUT,
    Server.schedule, Emulator.generation, Emulator.dumpVt, script, Server.beforeSend, shownC,
    Server.frame, stateFrame, Server.frameCaps]

/-- With no new ack, the server sends `c` again. -/
theorem pass_shownC : (shownC a b c 300 300).pass {} (plainTick 400 .idle []) =
    { server := shownC a b c 400 300, sent := some (stateFrame a b c (shownC a b c 400 300)) } := by
  have go : (shownC a b c 300 300).stops {} (plainTick 400 .idle []) = none := by
    simp [Server.stops, plainTick, shownC, PEER_TIMEOUT]
  unfold Server.pass
  rw [go]
  simp only [plainTick, List.map_nil, List.foldl_nil]
  simp [Server.readPty, shownC, Server.transmit, Server.updateEcho, EchoAck.update, EchoAck.drain,
    PEER_TIMEOUT, Server.schedule, Emulator.generation, Server.beforeSend, Server.frame, stateFrame,
    Server.frameCaps]

/-- The ack of `b` is no news. -/
theorem pass_again :
    (shownC a b c 400 300).pass {} (plainTick 500 .idle [(holding a b c 2 wrong).message]) =
      { server := shownC a b c 500 500, sent := some (stateFrame a b c (shownC a b c 500 500)) } := by
  have go : (shownC a b c 400 300).stops {}
      (plainTick 500 .idle [(holding a b c 2 wrong).message]) = none := by
    simp [Server.stops, plainTick, shownC, PEER_TIMEOUT]
  unfold Server.pass
  rw [go]
  simp only [plainTick, List.map_cons, List.map_nil, List.foldl_cons, List.foldl_nil]
  rw [receive_holding _ _ _ _ rfl rfl]
  simp [Server.readPty, shownC, Server.updateAcks, holding, Client.message, Server.transmit,
    Server.updateEcho, EchoAck.update, EchoAck.drain, PEER_TIMEOUT, Server.schedule,
    Emulator.generation, Server.beforeSend, Server.frame, stateFrame, Server.frameCaps]

theorem apply_full (h : Misfit a b c wrong) :
    ((holding a b c 0 []).processFrame (stateFrame a b c (shownA a b c))).1 = holding a b c 1 a := by
  simp only [stateFrame, stateBody_shownA h]
  with_unfolding_all rfl

theorem apply_wrong (h : Misfit a b c wrong) :
    ((holding a b c 1 a).processFrame (stateFrame a b c (shownB a b c))).1 =
      holding a b c 2 wrong := by
  simp only [stateFrame, stateBody_shownB h]
  simp [Client.processFrame, Client.noteFrame, Client.applyFrame, Client.frameBytes, holding, h.rebuilt,
    shownB, InputOutbox.ack, Client.install, Emulator.rows, Emulator.cols, Emulator.process,
    Emulator.withScrollback]

theorem apply_none (h : Misfit a b c wrong) (sent heard : Nat) :
    (holding a b c 2 wrong).processFrame (stateFrame a b c (shownC a b c sent heard)) =
      (holding a b c 2 wrong, true) := by
  simp only [stateFrame, stateBody_shownC h]
  simp [Client.processFrame, Client.noteFrame, Client.applyFrame, Client.frameBytes, holding, h.refused,
    shownC, InputOutbox.ack]

theorem reachable_misled (h : Misfit a b c wrong) :
    (system (Slides (script a b c)) {}).Reachable (misled a b c wrong) := by
  let r₀ : Roaming (Slides (script a b c)) := start 24 80 0 24 80
  let f₁ := stateFrame a b c (shownA a b c)
  let f₂ := stateFrame a b c (shownB a b c)
  have reach₀ : (system _ {}).Reachable r₀ := .of_init ⟨24, 80, 0, 24, 80, rfl⟩
  -- `a` is shown, sent in full, applied and acked
  have reach₁ := reach₀.tail (.serverPass (plainTick 100 (.data []) []) rfl (by simp [plainTick]))
  have pass₁ : r₀.afterPass {} (plainTick 100 (.data []) []) =
      ⟨shownA a b c, holding a b c 0 [], [f₁], [], none⟩ := rfl
  rw [pass₁] at reach₁
  have reach₂ := (reach₁.tail (.clientFrame f₁ (by simp))).tail .clientSend
  simp only [f₁, apply_full h] at reach₂
  -- `b` is sent as a diff that rebuilds `wrong`, which the client acks as `b`
  have reach₃ := reach₂.tail
    (.serverPass (plainTick 200 (.data []) [(holding a b c 1 a).message]) rfl (by simp [plainTick]))
  simp only [afterPass, pass_shownA] at reach₃
  have reach₄ := (reach₃.tail (.clientFrame f₂ (by simp [f₂]))).tail .clientSend
  simp only [f₂, apply_wrong h] at reach₄
  have reach₅ := reach₄.tail
    (.serverPass (plainTick 300 (.data []) [(holding a b c 2 wrong).message]) rfl
      (by simp [plainTick]))
  rw [afterPass, pass_shownB] at reach₅
  exact reach₅

theorem stuck_misled (h : Misfit a b c wrong) : Stuck (misled a b c wrong) := by
  refine ⟨by simp [misled, holding, shownC], rfl, 400, stateFrame a b c (shownC a b c 400 300), 500,
    stateFrame a b c (shownC a b c 500 500), ?_⟩
  simp only [misled, afterPass, answered, pass_shownC, apply_none h, pass_again]
  simp only [stateFrame, stateBody_shownC h]
  simp [holding, shownC]

end Misfit

/-- A list that starts with all of `old` has it as the prefix, and no suffix. -/
theorem makeDiff_extends (old rest : Bytes) :
    makeDiff old (old ++ rest) = leBytes 4 old.length ++ leBytes 4 0 ++ rest := by
  have front : diffPrefix old (old ++ rest) = old.length := by
    unfold diffPrefix
    rw [scanWhile_all, Nat.zero_add, List.length_append, Nat.min_eq_left (Nat.le_add_right _ _)]
    intro k _ inside
    rw [List.getElem?_append_left (by simp at inside; omega), beq_self_eq_true]
  have back : diffSuffix old (old ++ rest) = 0 := by
    have := diffPrefix_add_diffSuffix_le old (old ++ rest)
    omega
  simp [makeDiff, front, back]

/-- A list that is all of a prefix of `old` is sent as its length alone. -/
theorem makeDiff_shrinks (new rest : Bytes) :
    makeDiff (new ++ rest) new = leBytes 4 new.length ++ leBytes 4 0 := by
  have front : diffPrefix (new ++ rest) new = new.length := by
    unfold diffPrefix
    rw [scanWhile_all, Nat.zero_add, List.length_append, Nat.min_eq_right (Nat.le_add_right _ _)]
    intro k _ inside
    rw [List.getElem?_append_left (by simp at inside; omega), beq_self_eq_true]
  have back : diffSuffix (new ++ rest) new = 0 := by
    have := diffPrefix_add_diffSuffix_le (new ++ rest) new
    omega
  simp [makeDiff, front, back]

/-- Zeros up to the limit of the header, one byte more, and one byte less. -/
theorem misfit_zeros {n : Nat} (limit : n = 2 ^ 32) :
    Misfit (List.replicate n 0) (List.replicate n 0 ++ [1]) (List.replicate (n - 1) 0) [1] where
  full := by
    have whole := makeDiff_extends [] (List.replicate n 0)
    rw [List.nil_append] at whole
    rw [whole, List.length_append, List.length_replicate]
    omega
  first := by
    rw [makeDiff_extends]
    simp only [List.length_append, length_leBytes, List.length_replicate, List.length_singleton]
    omega
  second := by
    have split : List.replicate n (0 : UInt8) = List.replicate (n - 1) 0 ++ [0] := by
      rw [← List.replicate_succ', Nat.sub_add_cancel (by omega)]
    rw [split, List.append_assoc, makeDiff_shrinks]
    simp only [List.length_append, length_leBytes, List.length_replicate]
    omega
  rebuilt := by
    have wraps : n % 2 ^ 32 = 0 := by omega
    rw [makeDiff_extends, applyDiff_header, List.length_replicate, wraps]
    simp
  refused := by
    have split : List.replicate n (0 : UInt8) = List.replicate (n - 1) 0 ++ [0] := by
      rw [← List.replicate_succ', Nat.sub_add_cancel (by omega)]
    have middle := applyDiff_header [1] [] (n - 1) 0
    rw [List.append_nil] at middle
    rw [split, List.append_assoc, makeDiff_shrinks, List.length_replicate, middle, if_pos]
    rw [List.length_singleton, Nat.mod_eq_of_lt (by omega)]
    omega

end Roaming

end Posh.Remote
