import Posh.Remote.ClientLoop
import Posh.Remote.Repaint

/-!
The idle fast path of the client's renderer.

A tick composes nothing where no frame was applied since the last compose, and no overlay
was live then or is now. The server's screen changes with the frame number only, so that it
is what the tty shows; overlays that are not live draw nothing; and the frame of an
unchanged picture is empty.
-/

namespace Posh.Remote

open Posh.Lib Posh.Term

/-! ### Predictions that are not active -/

namespace PredictionEngine

variable {e : PredictionEngine} {fb : Snapshot}

/-- No prediction is outstanding. -/
structure Inactive (e : PredictionEngine) : Prop where
  cursors : e.cursors = []
  overlays : ∀ row ∈ e.overlays, ∀ c ∈ row.cells, c.active = false

theorem inactive_of_active (active : e.active = false) : e.Inactive := by
  obtain ⟨cursors, overlays⟩ := Bool.or_eq_false_iff.mp active
  refine ⟨by simpa using cursors, ?_⟩
  intro row mem c inRow
  simpa using List.any_eq_false.mp (by simpa using List.any_eq_false.mp overlays row mem) c inRow

theorem scanCell_inactive {cells : List OverlayCell} {scan : Scan}
    (inactive : ∀ c ∈ cells, c.active = false) (running : scan.doReset = false)
    {rowNum lateAck now j : Nat} {experimental : Bool} (j_lt : j < cells.length) :
    scanCell fb rowNum lateAck now experimental j (cells, scan) = .ok (cells, scan) := by
  have validity : cells[j].getValidity fb rowNum lateAck = .ok .inactive := by
    unfold OverlayCell.getValidity
    rw [inactive cells[j] (List.getElem_mem j_lt)]
    rfl
  unfold scanCell
  dsimp only
  rw [if_neg (by simp [running]), getAt_eq_ok j_lt]
  change (cells[j].getValidity fb rowNum lateAck >>= fun validity => _) = _
  rw [validity]
  rfl

theorem scanRows_inactive {rows : List OverlayRow} {scan : Scan}
    (inactive : ∀ row ∈ rows, ∀ c ∈ row.cells, c.active = false) (running : scan.doReset = false)
    {lateAck now : Nat} {experimental : Bool} :
    scanRows fb lateAck now experimental rows scan = .ok (rows, scan) := by
  induction rows with
  | nil => rfl
  | cons row rest ih =>
    obtain ⟨out, scanned, rfl⟩ : Yields (forRange 0 row.cells.length (row.cells, scan)
        (scanCell fb row.rowNum lateAck now experimental)) (· = (row.cells, scan)) := by
      refine Yields.forRange rfl ?_
      rintro j _ _ j_lt rfl
      exact ⟨_, scanCell_inactive (inactive row List.mem_cons_self) running j_lt, rfl⟩
    have rest := ih fun r mem => inactive r (List.mem_cons_of_mem row mem)
    unfold scanRows scanRow
    rw [scanned]
    change (if scan.doReset = true then _ else _) = _
    rw [if_neg (by simp [running]), rest]
    rfl

theorem reset_inactive (e : PredictionEngine) : e.reset.Inactive := by
  unfold reset becomeTentative
  split
  · exact ⟨rfl, fun _ mem => absurd mem List.not_mem_nil⟩
  · exact ⟨rfl, fun _ mem => absurd mem List.not_mem_nil⟩

theorem cullCursors_inactive (inactive : e.Inactive) (lateAck : Nat) :
    (e.cullCursors fb lateAck).Inactive := by
  unfold cullCursors
  dsimp only
  rw [inactive.cursors, if_neg (by simp)]
  exact ⟨rfl, inactive.overlays⟩

/-- Nothing is culled where nothing is predicted. -/
theorem cull_inactive (inactive : e.Inactive) (now : Nat) : Yields (e.cull fb now) Inactive := by
  unfold cull
  split
  · exact .ok inactive
  dsimp only
  generalize resized : (if e.lastHeight ≠ fb.rows ∨ e.lastWidth ≠ fb.cols then
    { e with lastHeight := fb.rows, lastWidth := fb.cols }.reset else e) = e'
  have calm : e'.Inactive := by
    rw [← resized]
    split
    · exact reset_inactive _
    · exact inactive
  have kept : ∀ row ∈ e'.updateTriggers.overlays.filter (·.rowNum < fb.rows), ∀ c ∈ row.cells,
      c.active = false := fun row mem => calm.overlays row (List.mem_of_mem_filter mem)
  rw [scanRows_inactive kept rfl]
  refine .pure (cullCursors_inactive ?_ _)
  constructor
  · exact calm.cursors
  · exact kept

/-- Nothing is drawn where nothing is predicted. -/
theorem apply_inactive (inactive : e.Inactive) (fb : Snapshot) : e.apply fb = fb := by
  have row_same (row : OverlayRow) (mem : row ∈ e.overlays) : row.cells.foldl (fun fb c =>
      c.apply e.confirmedEpoch row.rowNum e.flagging fb) fb = fb := by
    refine List.foldlRecOn row.cells _ (motive := (· = fb)) rfl ?_
    rintro _ rfl c inRow
    unfold OverlayCell.apply
    rw [if_pos (.inl (by simp [inactive.overlays row mem c inRow]))]
  unfold apply
  split
  · rfl
  rw [inactive.cursors]
  refine List.foldlRecOn e.overlays _ (motive := (· = fb)) rfl ?_
  rintro _ rfl row mem
  exact row_same row mem

end PredictionEngine

/-! ### The idle test -/

namespace ClientState

variable {st st' : ClientState} {now : Nat}

/-- Nothing the idle test compares has changed, and the tty is known at most where it was. -/
structure Leaves (st st' : ClientState) : Prop where
  serverTerm : st'.serverTerm = st.serverTerm
  appliedNum : st'.appliedNum = st.appliedNum
  lastDrawn : st'.lastDrawn = st.lastDrawn
  state : st'.lastRenderState = st.lastRenderState
  overlays : st'.lastRenderOverlays = st.lastRenderOverlays
  initialized : st'.initialized = true → st.initialized = true

theorem Leaves.refl (st : ClientState) : st.Leaves st :=
  ⟨rfl, rfl, rfl, rfl, rfl, id⟩

theorem Leaves.trans {st'' : ClientState} (h : st.Leaves st') (h' : st'.Leaves st'') :
    st.Leaves st'' :=
  ⟨h'.serverTerm.trans h.serverTerm, h'.appliedNum.trans h.appliedNum,
    h'.lastDrawn.trans h.lastDrawn, h'.state.trans h.state, h'.overlays.trans h.overlays,
    fun known => h.initialized (h'.initialized known)⟩

theorem requestShutdown_leaves (now : Nat) (st : ClientState) :
    st.Leaves (st.requestShutdown now) := by
  unfold requestShutdown
  split
  · exact .refl st
  · exact ⟨rfl, rfl, rfl, rfl, rfl, id⟩

theorem leaves_follows : Follows Leaves where
  trans := .trans
  push paste now byte st := by
    unfold push
    apply (Guarded.trivial _).bind
    intro predict _
    exact .pure ⟨rfl, rfl, rfl, rfl, rfl, id⟩
  shutdown := requestShutdown_leaves
  unknown _ := ⟨rfl, rfl, rfl, rfl, rfl, nofun⟩
  other _ _ _ _ _ := ⟨rfl, rfl, rfl, rfl, rfl, id⟩

theorem noteFrame_leaves (frame : ServerFrame) (sendInterval now : Nat) (st : ClientState) :
    st.Leaves (st.noteFrame frame sendInterval now) := by
  unfold noteFrame
  dsimp only
  split
  · exact ⟨rfl, rfl, rfl, rfl, rfl, id⟩
  · exact ⟨rfl, rfl, rfl, rfl, rfl, id⟩

theorem firstContact_leaves (now : Nat) (st : ClientState) : st.Leaves (st.firstContact now) := by
  unfold firstContact
  split
  · exact .refl st
  split
  · exact ⟨rfl, rfl, rfl, rfl, rfl, id⟩
  · exact ⟨rfl, rfl, rfl, rfl, rfl, id⟩

theorem hint_leaves (port started now : Nat) (st : ClientState) :
    st.Leaves (st.hint port started now) := by
  unfold hint
  split
  · exact ⟨rfl, rfl, rfl, rfl, rfl, id⟩
  · exact .refl st

/-- The screen is a terminal's, and where a compose without overlays has drawn it, it is
what the tty shows, until a later frame is applied. -/
structure Current (st : ClientState) : Prop where
  reachable : usage.Reachable st.serverTerm
  composed : st.initialized = true → st.lastRenderState.1 ≤ st.appliedNum
  drawn : st.initialized = true → st.lastRenderOverlays = false →
    st.lastRenderState.1 = st.appliedNum → Snapshot.fromTerm st.serverTerm = .ok st.lastDrawn

theorem Leaves.current (h : st.Leaves st') (current : st.Current) : st'.Current := by
  obtain ⟨serverTerm, appliedNum, lastDrawn, state, overlays, initialized⟩ := h
  refine ⟨serverTerm ▸ current.reachable, fun known => ?_, fun known quiet same => ?_⟩
  · rw [state, appliedNum]
    exact current.composed (initialized known)
  · rw [serverTerm, lastDrawn]
    rw [overlays] at quiet
    rw [state, appliedNum] at same
    exact current.drawn (initialized known) quiet same

/-- A frame that is applied is later than the last compose. -/
theorem install_current (current : st.Current) (files : Files) {num : Nat}
    (later : st.appliedNum < num) (bytes : Bytes) :
    Guarded False (st.install files num bytes) Current := by
  have fresh : usage.Reachable (.withScrollback st.rows.toNat st.cols.toNat 0) :=
    .of_init ⟨st.rows, st.cols, 0, rfl⟩
  have filled : Guarded False
      ((Terminal.withScrollback st.rows.toNat st.cols.toNat 0).process files bytes)
      usage.Reachable := by
    cases processed : Terminal.process files bytes _ with
    | error panic => exact .error id
    | ok term => exact .ok (fresh.runs (process_runs files bytes processed))
  refine filled.bind ?_
  intro term filled
  refine Guarded.bind (p := usage.Reachable) ?_ ?_
  · split
    · cases clamped : term.resize st.rows.toNat st.cols.toNat with
      | error panic => exact .error id
      | ok term' => exact .ok (filled.tail ⟨.resize st.rows st.cols, clamped⟩)
    · exact .pure filled
  · intro term' reachable
    refine .pure ⟨reachable, fun known => ?_, fun known _ same => ?_⟩
    · exact Nat.le_trans (current.composed known) (Nat.le_of_lt later)
    · have composed := current.composed known
      change st.lastRenderState.1 = num at same
      omega

theorem applyFrame_current (current : st.Current) (files : Files) (frame : ServerFrame) :
    Guarded False (st.applyFrame files frame) fun out => out.1.Current := by
  unfold applyFrame
  split
  · exact .pure current
  rename_i recent
  split
  · exact .pure current
  split
  · exact .pure current
  · rename_i different
    refine (install_current current files (by omega) _).bind ?_
    intro st₁ current₁
    exact .pure current₁

/-- Where no overlay is live, the frame is the server's screen. -/
theorem overlays_quiet (quiet : st.overlaysLive now = false) (base : Snapshot) :
    Yields (st.predict.cull base now) fun predict => predict.apply base = base ∧
      (st.notify.adjust now).apply now base = .ok base := by
  obtain ⟨shown, heard⟩ := Bool.or_eq_false_iff.mp quiet
  obtain ⟨active, message⟩ := Bool.or_eq_false_iff.mp shown
  have silent : st.notify.message = [] := by simpa using message
  have inactive := PredictionEngine.inactive_of_active active
  refine (PredictionEngine.cull_inactive inactive now).mono ?_
  intro predict inactive
  exact ⟨PredictionEngine.apply_inactive inactive base,
    NotificationEngine.apply_quiet silent heard base⟩

theorem composeFull_current (current : st.Current) (now : Nat) :
    Guarded False (st.composeFull now) fun out => out.2.Current := by
  unfold composeFull
  dsimp only
  cases shot : Snapshot.fromTerm st.serverTerm with
  | error panic => exact .error id
  | ok base =>
    change Guarded False (st.predict.cull base now >>= fun predict => _) _
    cases live : st.overlaysLive now with
    | true =>
      apply (Guarded.trivial _).bind
      intro predict _
      apply (Guarded.trivial _).bind
      intro next _
      apply (Guarded.trivial _).bind
      intro bytes _
      exact .pure ⟨current.reachable, fun _ => Nat.le_refl _, nofun⟩
    | false =>
      refine (Guarded.of_yields (overlays_quiet live base)).bind ?_
      rintro predict ⟨applied, adjusted⟩
      rw [applied, adjusted]
      refine Guarded.bind (p := (· = base)) (.ok rfl) ?_
      rintro _ rfl
      apply (Guarded.trivial _).bind
      intro bytes _
      exact .pure ⟨current.reachable, fun _ => Nat.le_refl _, fun _ _ _ => shot⟩

theorem composeFrame_current (current : st.Current) (now : Nat) :
    Guarded False (st.composeFrame now) fun out => out.2.Current := by
  unfold composeFrame
  split
  · exact .pure current
  · exact composeFull_current current now

theorem current_start (rows cols : UInt16) (prediction : DisplayPreference)
    (predictOverwrite : Bool) (grabMouse : GrabMouse) (now : Nat) :
    (start rows cols prediction predictOverwrite grabMouse now).Current :=
  ⟨.of_init ⟨rows, cols, 0, rfl⟩, nofun, nofun⟩

end ClientState

section Runs

variable {st : ClientState}

theorem ClientEvent.apply_current (current : st.Current) (event : ClientEvent) :
    Guarded False (event.apply st) ClientState.Current := by
  have left {st' : ClientState} (leaves : st.Leaves st') : st'.Current := leaves.current current
  cases event with
  | winch rows cols => exact .pure (left ⟨rfl, rfl, rfl, rfl, rfl, nofun⟩)
  | terminate now => exact .pure (left (st.requestShutdown_leaves now))
  | resume => exact .pure (left ⟨rfl, rfl, rfl, rfl, rfl, nofun⟩)
  | input buf now =>
    unfold ClientEvent.apply
    dsimp only
    split
    · exact .pure (left (st.requestShutdown_leaves now))
    · refine (ClientState.leaves_follows.processUserInput buf now st).bind ?_
      rintro ⟨st', _⟩ leaves
      exact .pure (left leaves)
  | frame files received sendInterval now =>
    have noted := (st.firstContact_leaves now).trans
      (ClientState.noteFrame_leaves received sendInterval now _)
    refine (ClientState.applyFrame_current (left noted) files received).bind ?_
    rintro ⟨st', _⟩ current'
    exact .pure current'
  | hint port started now => exact .pure (left (st.hint_leaves port started now))
  | tick now =>
    refine (ClientState.composeFrame_current current now).bind ?_
    rintro ⟨_, st'⟩ current'
    exact .pure current'

theorem current_invariant : clientLoop.Invariant ClientState.Current where
  base := by
    rintro st ⟨rows, cols, prediction, predictOverwrite, grabMouse, now, rfl⟩
    exact ClientState.current_start ..
  step st st' current := by
    rintro ⟨event, applied⟩
    exact (event.apply_current current).of_eq_ok applied

/-- The idle test, on a client's screen. -/
theorem composeFull_idle (current : st.Current) {now : Nat} (idle : st.idle now = true) :
    Snapshot.fromTerm st.serverTerm = .ok st.lastDrawn ∧
      Yields (st.composeFull now) fun out => out.1 = [] := by
  unfold ClientState.idle at idle
  simp only [Bool.and_eq_true, Bool.not_eq_true', beq_iff_eq] at idle
  obtain ⟨⟨⟨known, same⟩, quiet⟩, before⟩ := idle
  have drawn := current.drawn known before (by rw [← same]; rfl)
  have shaped := (fromTerm_shaped (kept_invariant.reachable current.reachable)).of_eq_ok drawn
  refine ⟨drawn, ?_⟩
  obtain ⟨predict, culled, applied, adjusted⟩ := ClientState.overlays_quiet quiet st.lastDrawn
  unfold ClientState.composeFull
  dsimp only
  rw [drawn]
  change Yields (st.predict.cull st.lastDrawn now >>= fun predict => _) _
  rw [culled]
  change Yields ((st.notify.adjust now).apply now (predict.apply st.lastDrawn) >>= fun next => _) _
  rw [applied, adjusted]
  change Yields (Display.newFrame st.initialized st.lastDrawn st.lastDrawn _ >>= fun bytes => _) _
  rw [known, Display.newFrame_same shaped]
  exact .ok rfl

/-- The idle fast path agrees with the full render: a terminal's snapshot is brought to itself
by the empty stream, and whenever a client in a state it can reach takes the early exit, what
its screen shows is what it has drawn, and the full path would write nothing. -/
theorem idle_agrees :
    (∀ t, usage.Reachable t → ∃ s, Snapshot.fromTerm t = .ok s ∧
      ∀ grab, Display.newFrame true s s grab = .ok []) ∧
    (∀ st, clientLoop.Reachable st → ∀ now, st.idle now = true →
      st.composeFrame now = .ok ([], st) ∧ Snapshot.fromTerm st.serverTerm = .ok st.lastDrawn ∧
      ∃ st', st.composeFull now = .ok ([], st')) := by
  refine ⟨fun t reachable => ?_, fun st reachable now idle => ?_⟩
  · obtain ⟨s, shot, shaped⟩ := fromTerm_shaped (kept_invariant.reachable reachable)
    exact ⟨s, shot, Display.newFrame_same shaped⟩
  · have current := current_invariant.reachable reachable
    obtain ⟨drawn, ⟨_, st'⟩, full, rfl⟩ := composeFull_idle current idle
    exact ⟨if_pos idle, drawn, st', full⟩

/-- A client that has drawn its empty screen. -/
theorem idle_agrees_start :
    ∃ bytes st, (ClientState.start 1 2 .never false .off 0).composeFrame 0 = .ok (bytes, st) ∧
      bytes ≠ [] ∧ st.idle 1 = true ∧ ∃ st', st.composeFull 1 = .ok ([], st') := by
  obtain ⟨⟨bytes, st⟩, drawn⟩ : ∃ out,
      (ClientState.start 1 2 .never false .off 0).composeFrame 0 = .ok out := ⟨_, rfl⟩
  have started : clientLoop.Reachable (.start 1 2 .never false .off 0) :=
    .of_init ⟨1, 2, .never, false, .off, 0, rfl⟩
  have ticked : (ClientEvent.tick 0).apply (.start 1 2 .never false .off 0) = .ok st := by
    unfold ClientEvent.apply
    dsimp only
    rw [drawn]
    rfl
  have reachable := started.tail ⟨.tick 0, ticked⟩
  have idle : st.idle 1 = true := by
    cases drawn
    rfl
  refine ⟨bytes, st, drawn, ?_, idle, (idle_agrees.2 st reachable 1 idle).2.2⟩
  cases drawn
  exact nofun

end Runs

end Posh.Remote
