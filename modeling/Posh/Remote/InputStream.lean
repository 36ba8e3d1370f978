import Posh.Remote.Roaming

/-!
Keystrokes arrive exactly once and in order.

The client's outbox holds everything pushed from its base on, a message carries a
slice of that stream at its offset, and an input ack never exceeds what the inbox
has accepted. `Delivers` states this for the two ends and for everything on the
network, stale or not.
-/

namespace Posh.Remote

open Posh.Lib

/-- `data` is what `stream` holds from offset `base` on, or the start of it. -/
def Slice (stream : Bytes) (base : Nat) (data : Bytes) : Prop :=
  data <+: stream.drop base

theorem Slice.append {stream data : Bytes} {base : Nat} (h : Slice stream base data)
    (inside : base ≤ stream.length) (more : Bytes) : Slice (stream ++ more) base data := by
  unfold Slice
  rw [List.drop_append_of_le_length inside]
  exact h.trans (List.prefix_append _ _)

/-- The inbox's account of the stream: it accepted exactly the first `next` bytes. -/
structure Took (stream : Bytes) (next : Nat) (accepted : Bytes) : Prop where
  inside : next ≤ stream.length
  accepted : accepted = stream.take next

theorem Took.isPrefix {stream accepted : Bytes} {next : Nat} (h : Took stream next accepted) :
    accepted <+: stream :=
  h.accepted ▸ List.take_prefix next stream

theorem Took.append {stream accepted : Bytes} {next : Nat} (h : Took stream next accepted)
    (more : Bytes) : Took (stream ++ more) next accepted where
  inside := by
    rw [List.length_append]
    exact Nat.le_add_right_of_le h.inside
  accepted := by rw [List.take_append_of_le_length h.inside, h.accepted]

/-- `accept` moves forward only, and what it returns continues the stream. -/
theorem InputInbox.accept_slice {stream accepted data : Bytes} {base : Nat} {i : InputInbox}
    (took : Took stream i.next accepted) (slice : Slice stream base data)
    (inside : base ≤ stream.length) :
    i.next ≤ (i.accept base data).1.next ∧
      Took stream (i.accept base data).1.next (accepted ++ (i.accept base data).2.getD []) := by
  have same : Took stream i.next (accepted ++ []) := by simpa using took
  unfold accept
  split
  · exact ⟨Nat.le_refl _, same⟩
  · rename_i gapless
    dsimp only
    split
    · exact ⟨Nat.le_refl _, same⟩
    · rename_i fresh
      have long := slice.length_le
      rw [List.length_drop] at long
      refine ⟨by dsimp only; omega, by dsimp only; omega, ?_⟩
      -- the suffix the inbox has not seen starts where the accepted part ends
      have rest : data.drop (i.next - base) =
          (stream.drop i.next).take (base + data.length - i.next) := by
        rw [List.prefix_iff_eq_take.mp slice, List.drop_take, List.drop_drop,
          Nat.add_sub_cancel' (by omega), List.length_take, List.length_drop]
        congr 1
        omega
      have total : base + data.length = i.next + (base + data.length - i.next) := by omega
      rw [Option.getD_some, rest, took.accepted, ← List.take_add, ← total]

namespace Server

variable {T : Type} [Emulator T]

/-- A delivery touches the input stream through `accept` alone. -/
theorem input_receive (s : Server T) (d : Delivery) :
    (s.receive d).inbox = (s.inbox.accept d.msg.inputBase d.msg.input).1 ∧
      (s.receive d).accepted =
        s.accepted ++ (s.inbox.accept d.msg.inputBase d.msg.input).2.getD [] := by
  have handled (s : Server T) :
      (s.handleClientMessage d).inbox = (s.inbox.accept d.msg.inputBase d.msg.input).1 ∧
        (s.handleClientMessage d).accepted =
          s.accepted ++ (s.inbox.accept d.msg.inputBase d.msg.input).2.getD [] := by
    have sized : (s.adoptSize d.msg).inbox = s.inbox ∧
        (s.adoptSize d.msg).accepted = s.accepted := by
      unfold adoptSize
      split <;> exact ⟨rfl, rfl⟩
    unfold handleClientMessage
    dsimp only
    rw [sized.1]
    match s.inbox.accept d.msg.inputBase d.msg.input with
    | (next, none) => exact ⟨rfl, sized.2.trans (List.append_nil _).symm⟩
    | (next, some newInput) => exact ⟨rfl, congrArg (· ++ newInput) sized.2⟩
  have acked (s : Server T) :
      (s.updateAcks d.msg).inbox = s.inbox ∧ (s.updateAcks d.msg).accepted = s.accepted := by
    unfold updateAcks
    split <;> exact ⟨rfl, rfl⟩
  unfold receive
  dsimp only
  rw [(acked _).1, (acked _).2]
  split <;> exact handled _

theorem input_readPty (tick : Tick) (s : Server T) :
    (s.readPty tick).inbox = s.inbox ∧ (s.readPty tick).accepted = s.accepted := by
  unfold readPty
  split
  · exact ⟨rfl, rfl⟩
  · cases tick.pty with
    | idle => exact ⟨rfl, rfl⟩
    | data bytes => exact ⟨rfl, rfl⟩
    | closed =>
      simp only
      split <;> exact ⟨rfl, rfl⟩

theorem input_transmit (tick : Tick) (s : Server T) :
    (s.transmit tick).1.inbox = s.inbox ∧ (s.transmit tick).1.accepted = s.accepted := by
  have scheduled (s : Server T) : (s.schedule tick).1.inbox = s.inbox ∧
      (s.schedule tick).1.accepted = s.accepted := by
    unfold schedule
    split
    · exact ⟨rfl, rfl⟩
    · split
      · exact ⟨rfl, rfl⟩
      · split
        · exact ⟨rfl, rfl⟩
        · split <;> exact ⟨rfl, rfl⟩
  unfold transmit
  dsimp only
  split
  · exact ⟨rfl, rfl⟩
  · split <;> exact scheduled _

theorem input_receives {stream : Bytes} {ds : List Delivery}
    (slices : ∀ d ∈ ds, Slice stream d.msg.inputBase d.msg.input ∧ d.msg.inputBase ≤ stream.length)
    {s : Server T} (took : Took stream s.inbox.next s.accepted) :
    s.inbox.next ≤ (ds.foldl receive s).inbox.next ∧
      Took stream (ds.foldl receive s).inbox.next (ds.foldl receive s).accepted := by
  induction ds generalizing s with
  | nil => exact ⟨Nat.le_refl _, took⟩
  | cons d ds ih =>
    obtain ⟨slice, inside⟩ := slices d List.mem_cons_self
    obtain ⟨inbox, accepted⟩ := s.input_receive d
    obtain ⟨forward, took'⟩ := InputInbox.accept_slice took slice inside
    rw [← inbox, ← accepted] at took'
    rw [← inbox] at forward
    obtain ⟨forward', took''⟩ := ih (fun d' hd' => slices d' (List.mem_cons_of_mem d hd')) took'
    exact ⟨forward.trans forward', took''⟩

/-- A pass extends what the inbox accepted along the stream its messages are slices of. -/
theorem input_pass {stream : Bytes} (cfg : ServerConfig) {tick : Tick}
    (slices : ∀ d ∈ tick.deliveries,
      Slice stream d.msg.inputBase d.msg.input ∧ d.msg.inputBase ≤ stream.length)
    {s : Server T} (took : Took stream s.inbox.next s.accepted) :
    s.inbox.next ≤ (s.pass cfg tick).server.inbox.next ∧
      Took stream (s.pass cfg tick).server.inbox.next (s.pass cfg tick).server.accepted := by
  rcases pass_cases cfg tick s with ⟨same, _, _⟩ | ⟨server, _, _⟩
  · rw [same]
    exact ⟨Nat.le_refl _, took⟩
  · obtain ⟨inbox, accepted⟩ := s.input_readPty tick
    rw [server, (input_transmit tick _).1, (input_transmit tick _).2]
    have read := input_receives slices (s := s.readPty tick) (by rwa [inbox, accepted])
    rwa [inbox] at read

end Server

namespace Client

variable {T : Type} [Emulator T]

/-- A frame touches the outbox through its input ack alone. -/
theorem input_processFrame (frame : ServerFrame) (c : Client T) :
    (c.processFrame frame).1.outbox = c.outbox.ack frame.inputAck ∧
      (c.processFrame frame).1.pushed = c.pushed := by
  have noted (c : Client T) : (c.noteFrame frame).outbox = c.outbox.ack frame.inputAck ∧
      (c.noteFrame frame).pushed = c.pushed := by
    unfold noteFrame
    dsimp only
    split <;> exact ⟨rfl, rfl⟩
  unfold processFrame applyFrame
  split
  · exact noted c
  · split
    · exact noted c
    · split
      · exact noted c
      · exact noted c

end Client

/-- The outbox holds the pushed bytes from its base on. -/
structure Holds (pushed : Bytes) (o : InputOutbox) : Prop where
  inside : o.base ≤ pushed.length
  buf : o.buf = pushed.drop o.base

theorem Holds.endOffset {pushed : Bytes} {o : InputOutbox} (h : Holds pushed o) :
    o.endOffset = pushed.length := by
  have := h.inside
  rw [InputOutbox.endOffset, h.buf, List.length_drop]
  omega

theorem Holds.slice {pushed : Bytes} {o : InputOutbox} (h : Holds pushed o) :
    Slice pushed o.base o.pending := by
  rw [InputOutbox.pending, h.buf]
  exact List.prefix_rfl

theorem Holds.push {pushed : Bytes} {o : InputOutbox} (h : Holds pushed o) (bytes : Bytes) :
    Holds (pushed ++ bytes) (o.push bytes) where
  inside := by
    rw [List.length_append]
    exact Nat.le_add_right_of_le h.inside
  buf := by rw [InputOutbox.push, h.buf, List.drop_append_of_le_length h.inside]

/-- An ack drops exactly the bytes below it, as far as there are any. -/
theorem Holds.ack {pushed : Bytes} {o : InputOutbox} (h : Holds pushed o) (upto : Nat) :
    Holds pushed (o.ack upto) ∧ o.base ≤ (o.ack upto).base ∧
      (o.ack upto).base ≤ max o.base upto := by
  have inside := h.inside
  unfold InputOutbox.ack
  split
  · have length : o.buf.length = pushed.length - o.base := by rw [h.buf, List.length_drop]
    refine ⟨⟨by dsimp only; omega, ?_⟩, by dsimp only; omega, by dsimp only; omega⟩
    dsimp only
    rw [h.buf, List.drop_drop]
  · exact ⟨h, Nat.le_refl _, by omega⟩

structure Delivers {T : Type} (r : Roaming T) : Prop where
  took : Took r.client.pushed r.server.inbox.next r.server.accepted
  holds : Holds r.client.pushed r.client.outbox
  base_le : r.client.outbox.base ≤ r.server.inbox.next
  msgs : ∀ m ∈ r.toServer, Slice r.client.pushed m.inputBase m.input ∧
    m.inputBase ≤ r.client.pushed.length
  acks : ∀ frame ∈ r.toClient, frame.inputAck ≤ r.server.inbox.next

namespace Roaming

variable {T : Type} [Emulator T] {cfg : ServerConfig}

theorem delivers_start (rows cols now clientRows clientCols : Nat) :
    Delivers (start rows cols now clientRows clientCols : Roaming T) where
  took := ⟨Nat.le_refl 0, rfl⟩
  holds := ⟨Nat.le_refl 0, rfl⟩
  base_le := Nat.le_refl 0
  msgs := fun _ h => absurd h List.not_mem_nil
  acks := fun _ h => absurd h List.not_mem_nil

theorem delivers_step {r r' : Roaming T} (h : Delivers r) (step : Step cfg r r') :
    Delivers r' := by
  cases step with
  | serverPass tick _ sent =>
      obtain ⟨forward, took⟩ := Server.input_pass cfg
        (fun d hd => h.msgs d.msg (sent d hd)) h.took
      refine ⟨took, h.holds, h.base_le.trans forward, h.msgs, ?_⟩
      intro frame mem
      rcases List.mem_append.mp mem with old | new
      · exact (h.acks frame old).trans forward
      · exact Nat.le_of_eq (Server.writes_pass (Option.mem_toList.mp new)).inputAck
  | clientFrame frame sent =>
      obtain ⟨outbox, pushed⟩ := r.client.input_processFrame frame
      obtain ⟨holds, _, base_le⟩ := h.holds.ack frame.inputAck
      rw [← outbox] at holds base_le
      rw [← pushed] at holds
      have acked := h.acks frame sent
      have before := h.base_le
      exact ⟨pushed ▸ h.took, holds, by dsimp only; omega, pushed ▸ h.msgs, h.acks⟩
  | clientSend =>
      refine ⟨h.took, h.holds, h.base_le, ?_, h.acks⟩
      intro m mem
      rcases List.mem_append.mp mem with old | new
      · exact h.msgs m old
      · rw [List.mem_singleton.mp new]
        exact ⟨h.holds.slice, h.holds.inside⟩
  | clientPush bytes =>
      refine ⟨h.took.append bytes, h.holds.push bytes, h.base_le, ?_, h.acks⟩
      intro m mem
      obtain ⟨slice, inside⟩ := h.msgs m mem
      refine ⟨slice.append inside bytes, ?_⟩
      rw [Client.push, List.length_append]
      exact Nat.le_add_right_of_le inside
  | clientEnv rows cols flags =>
      exact ⟨h.took, h.holds, h.base_le, h.msgs, h.acks⟩

theorem delivers_invariant : (system T cfg).Invariant Delivers where
  base := by
    rintro r ⟨rows, cols, now, clientRows, clientCols, rfl⟩
    exact delivers_start rows cols now clientRows clientCols
  step := fun _ _ h step => delivers_step h step

/-- Whatever the network does, the accepted input is a prefix of the pushed input,
the inbox expects a byte between the outbox's base and its end, and no frame
ever sent makes the client discard a byte the inbox has not accepted. -/
theorem input_exactly_once {r : Roaming T} (reach : (system T cfg).Reachable r) :
    r.server.accepted = r.client.pushed.take r.server.inbox.next ∧
      r.server.accepted <+: r.client.pushed ∧
      r.client.outbox.base ≤ r.server.inbox.next ∧
      r.server.inbox.next ≤ r.client.outbox.endOffset ∧
      ∀ frame, (frame ∈ r.toClient ∨ r.server.Writes frame) →
        let outbox := (r.client.processFrame frame).1.outbox
        outbox.base ≤ r.server.inbox.next ∧ outbox.buf = r.client.pushed.drop outbox.base := by
  have h := delivers_invariant.reachable reach
  refine ⟨h.took.accepted, h.took.isPrefix, h.base_le, h.holds.endOffset ▸ h.took.inside, ?_⟩
  intro frame sent
  have acked : frame.inputAck ≤ r.server.inbox.next := by
    rcases sent with old | new
    · exact h.acks frame old
    · exact Nat.le_of_eq new.inputAck
  obtain ⟨holds, _, base_le⟩ := h.holds.ack frame.inputAck
  have before := h.base_le
  dsimp only
  rw [(r.client.input_processFrame frame).1]
  exact ⟨by omega, holds.buf⟩

/-- Two overlapping copies of a keystroke message, the older one read last. -/
theorem input_exactly_once_overlap : ∃ r : Roaming (Slides fun _ => []),
    (system _ {}).Reachable r ∧ r.client.pushed = [0x61, 0x62] ∧
      r.server.accepted <+: r.client.pushed ∧ r.server.inbox.next = 2 := by
  let r₀ : Roaming (Slides fun _ => []) := start 24 80 0 24 80
  let r₁ : Roaming (Slides _) := { r₀ with client := r₀.client.push [0x61] }
  let r₂ : Roaming (Slides _) := { r₁ with toServer := r₁.toServer ++ [r₁.client.message] }
  let r₃ : Roaming (Slides _) := { r₂ with client := r₂.client.push [0x62] }
  let r₄ : Roaming (Slides _) := { r₃ with toServer := r₃.toServer ++ [r₃.client.message] }
  let tick := plainTick 100 .idle [r₃.client.message, r₁.client.message]
  have reach₀ : (system _ {}).Reachable r₀ := .of_init ⟨24, 80, 0, 24, 80, rfl⟩
  have reach₁ : (system _ {}).Reachable r₁ := reach₀.tail (.clientPush [0x61])
  have reach₂ : (system _ {}).Reachable r₂ := reach₁.tail .clientSend
  have reach₃ : (system _ {}).Reachable r₃ := reach₂.tail (.clientPush [0x62])
  have reach₄ : (system _ {}).Reachable r₄ := reach₃.tail .clientSend
  have sent : ∀ d ∈ tick.deliveries, d.msg ∈ r₄.toServer := by
    intro d mem
    rcases List.mem_pair.mp mem with rfl | rfl
    · exact List.mem_pair.mpr (.inr rfl)
    · exact List.mem_pair.mpr (.inl rfl)
  have reach₅ : (system _ {}).Reachable (r₄.afterPass {} tick) :=
    reach₄.tail (.serverPass tick rfl sent)
  exact ⟨_, reach₅, rfl, (input_exactly_once reach₅).2.1, by decide⟩

end Roaming

end Posh.Remote
