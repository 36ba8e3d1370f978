import Posh.Remote.Client
import Posh.Remote.ClientLoop
import Posh.Term.Dump

/-!
The client loop moves as the client of the synchronization protocol does.

The protocol is about any emulator. The terminal is one, as long as it does not panic, and
on what the protocol reads of it the loop handles frames, pushes input and changes its size
and flags as the protocol's client does.
-/

namespace Posh.Remote

open Posh.Lib Posh.Term

/-- The terminal as the protocol uses it; what panics leaves it as it is. -/
@[reducible] def emulator (files : Files) : Emulator Terminal where
  new rows cols := .new rows cols
  withScrollback := .withScrollback
  process t bytes := (t.process files bytes).toOption.getD t
  resize t rows cols := (t.resize rows cols).toOption.getD t
  takeResponses := Terminal.takeResponses
  generation := Terminal.generation
  dumpVt t := t.dumpVt.toOption.getD []
  rows := Terminal.rows
  cols := Terminal.cols

/-- What a client of the protocol does of itself or is sent. -/
inductive ClientMove : Client Terminal → Client Terminal → Prop where
  | frame (files : Files) (frame : ServerFrame) (c : Client Terminal) :
      ClientMove c (@Client.processFrame _ (emulator files) frame c).1
  | push (bytes : Bytes) (c : Client Terminal) : ClientMove c (c.push bytes)
  | env (rows cols : Nat) (flags : UInt8) (c : Client Terminal) :
      ClientMove c { c with rows, cols, flags }

abbrev ClientMoves : Client Terminal → Client Terminal → Prop :=
  Relation.ReflTransGen ClientMove

namespace ClientState

variable {st st' : ClientState} {pushed : Bytes}

/-- What the protocol reads of the loop's state, and all the input there has been. -/
def client (pushed : Bytes) (st : ClientState) : Client Terminal where
  serverTerm := st.serverTerm
  rows := st.rows.toNat
  cols := st.cols.toNat
  appliedNum := st.appliedNum
  appliedData := st.appliedData
  outbox := st.outbox
  flags := st.flags
  shutdownSeen := st.shutdownSeen
  exitStatus := st.exitStatus
  pushed := pushed

/-! ### Frames -/

theorem install_client (files : Files) (num : Nat) (bytes : Bytes)
    (installed : st.install files num bytes = .ok st') :
    @Client.install _ (emulator files) num bytes (st.client pushed) = st'.client pushed := by
  obtain ⟨term, processed, rest⟩ := eq_ok_of_bind installed
  have fed : @Emulator.process _ (emulator files)
      (@Emulator.withScrollback _ (emulator files) st.rows.toNat st.cols.toNat 0) bytes = term :=
    congrArg (fun r : Checked Terminal => r.toOption.getD _) processed
  obtain ⟨clamped, resized, rest⟩ := eq_ok_of_bind rest
  cases rest
  have shown : (if @Emulator.rows _ (emulator files) term ≠ st.rows.toNat ∨
      @Emulator.cols _ (emulator files) term ≠ st.cols.toNat then
        @Emulator.resize _ (emulator files) term st.rows.toNat st.cols.toNat
      else term) = clamped := by
    change (if term.rows ≠ _ ∨ term.cols ≠ _ then (Except.toOption _).getD _ else _) = _
    split at resized
    · rename_i different
      rw [if_pos different, resized]
      rfl
    · rename_i same
      cases resized
      rw [if_neg same]
  unfold Client.install client
  dsimp only
  rw [fed, shown]

theorem applyFrame_client (files : Files) (frame : ServerFrame) {out : ClientState × Bool}
    (applied : st.applyFrame files frame = .ok out) :
    @Client.applyFrame _ (emulator files) frame (st.client pushed) =
      (out.1.client pushed, out.2) := by
  have same : Client.frameBytes frame (st.client pushed) = frameBytes frame st := rfl
  unfold applyFrame at applied
  unfold Client.applyFrame
  rw [same]
  change (if frame.frameNum < st.appliedNum then _ else _) = _
  split at applied
  · rename_i stale
    cases applied
    rw [if_pos stale]
  rename_i recent
  rw [if_neg recent]
  cases held : frameBytes frame st with
  | error reply =>
    rw [held] at applied
    cases applied
    rfl
  | ok bytes =>
    rw [held] at applied
    change (if frame.frameNum = st.appliedNum then _ else _) = _
    dsimp only at applied
    split at applied
    · rename_i again
      cases applied
      rw [if_pos again]
    · rename_i newer
      obtain ⟨st', installed, rest⟩ := eq_ok_of_bind applied
      cases rest
      rw [if_neg newer, install_client files frame.frameNum bytes installed]

theorem noteFrame_client (frame : ServerFrame) (sendInterval now : Nat) (st : ClientState) :
    Client.noteFrame frame (st.client pushed) =
      (st.noteFrame frame sendInterval now).client pushed := by
  unfold Client.noteFrame noteFrame client
  dsimp only
  split
  · rfl
  · rfl

/-- The loop handles a frame as the protocol's client does. -/
theorem processFrame_client (files : Files) (frame : ServerFrame) (sendInterval now : Nat)
    {out : ClientState × Bool}
    (processed : st.processFrame files frame sendInterval now = .ok out) :
    @Client.processFrame _ (emulator files) frame (st.client pushed) =
      (out.1.client pushed, out.2) := by
  unfold Client.processFrame
  rw [noteFrame_client frame sendInterval now]
  exact applyFrame_client files frame processed

/-! ### Everything else -/

/-- The protocol's client moves from one state to the other, on what the input so far and
some more is. -/
def Moves (st st' : ClientState) : Prop :=
  ∀ pushed, ∃ more, ClientMoves (st.client pushed) (st'.client (pushed ++ more))

theorem Moves.refl (st : ClientState) : st.Moves st := fun pushed => by
  refine ⟨[], ?_⟩
  rw [List.append_nil]

theorem Moves.trans {st'' : ClientState} (h : st.Moves st') (h' : st'.Moves st'') :
    st.Moves st'' := by
  intro pushed
  obtain ⟨more, moves⟩ := h pushed
  obtain ⟨more', moves'⟩ := h' (pushed ++ more)
  refine ⟨more ++ more', moves.trans ?_⟩
  rw [← List.append_assoc]
  exact moves'

/-- A change the protocol does not see. -/
theorem moves_of_eq (same : ∀ pushed, st'.client pushed = st.client pushed) : st.Moves st' := by
  intro pushed
  refine ⟨[], ?_⟩
  rw [List.append_nil, same]

theorem moves_of_move (move : ∀ pushed, ClientMove (st.client pushed) (st'.client pushed)) :
    st.Moves st' := by
  intro pushed
  refine ⟨[], .single ?_⟩
  rw [List.append_nil]
  exact move pushed

theorem requestShutdown_moves (now : Nat) (st : ClientState) :
    st.Moves (st.requestShutdown now) := by
  unfold requestShutdown
  split
  · exact .refl st
  · exact moves_of_move fun _ => .env _ _ _ _

theorem moves_follows : Follows Moves where
  trans := .trans
  push paste now byte st := by
    unfold push
    apply (Guarded.trivial _).bind
    intro predict _
    exact .pure fun pushed => ⟨[byte], .single (.push [byte] _)⟩
  shutdown := requestShutdown_moves
  unknown _ := moves_of_eq fun _ => rfl
  other _ _ _ _ _ := moves_of_eq fun _ => rfl

theorem composeFrame_moves (now : Nat) (st : ClientState) :
    Guarded False (st.composeFrame now) fun out => st.Moves out.2 := by
  unfold composeFrame
  split
  · exact .pure (.refl st)
  · unfold composeFull
    iterate 4
      apply (Guarded.trivial _).bind
      intro _ _
    exact .pure (moves_of_eq fun _ => rfl)

end ClientState

variable {st st' : ClientState}

theorem ClientEvent.apply_moves (event : ClientEvent) (st : ClientState) :
    Guarded False (event.apply st) st.Moves := by
  cases event with
  | winch rows cols => exact .pure (ClientState.moves_of_move fun _ => .env _ _ _ _)
  | terminate now => exact .pure (st.requestShutdown_moves now)
  | resume => exact .pure (ClientState.moves_of_eq fun _ => rfl)
  | input buf now =>
    unfold ClientEvent.apply
    dsimp only
    split
    · exact .pure (st.requestShutdown_moves now)
    · refine (ClientState.moves_follows.processUserInput buf now st).bind ?_
      rintro ⟨st', _⟩ moves
      exact .pure moves
  | frame files received sendInterval now =>
    have contact : st.Moves (st.firstContact now) := by
      unfold ClientState.firstContact
      repeat' split
      all_goals exact ClientState.moves_of_eq fun _ => rfl
    unfold ClientEvent.apply
    dsimp only
    cases processed : (st.firstContact now).processFrame files received sendInterval now with
    | error panic => exact .error id
    | ok out =>
      refine .pure (contact.trans (ClientState.moves_of_move fun pushed => ?_))
      have move := ClientMove.frame files received ((st.firstContact now).client pushed)
      rw [ClientState.processFrame_client files received sendInterval now processed] at move
      exact move
  | hint port started now =>
    refine .pure ?_
    unfold ClientState.hint
    split
    · exact ClientState.moves_of_eq fun _ => rfl
    · exact .refl st
  | tick now =>
    refine (st.composeFrame_moves now).bind ?_
    rintro ⟨_, st'⟩ moves
    exact .pure moves

/-- A run of the client loop is a run of the protocol's client from its first state, over the
input there has been. -/
theorem clientLoop_refines (reachable : clientLoop.Reachable st) :
    ∃ rows cols pushed, ClientMoves (@Client.start _ (emulator fun _ => none) rows cols)
      (st.client pushed) := by
  obtain ⟨st₀, ⟨rows, cols, prediction, predictOverwrite, grabMouse, now, rfl⟩, runs⟩ := reachable
  have moves := clientLoop.runs_preserve (I := ClientState.Moves
      (.start rows cols prediction predictOverwrite grabMouse now))
    (fun _ _ moves ⟨event, applied⟩ => moves.trans ((event.apply_moves _).of_eq_ok applied))
    runs (.refl _)
  obtain ⟨pushed, moves⟩ := moves []
  exact ⟨rows.toNat, cols.toNat, pushed, moves⟩

end Posh.Remote
