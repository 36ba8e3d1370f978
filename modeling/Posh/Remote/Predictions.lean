import Posh.Remote.Culling

/-!
Predictions over whole runs.

Whatever is typed, acknowledged and culled, an engine never panics, its overlay rows are as
wide as the frame at every keystroke, and what it predicted is gone once the frame behind it
has been answered.
-/

namespace Posh.Remote

open Posh.Lib Posh.Term

namespace PredictionEngine

variable {L : Limits} {e : PredictionEngine} {fb : Snapshot}

/-! ### One event -/

/-- The engine as a key finds it, when it has been culled. -/
def atKey (fb : Snapshot) (now : Nat) (e : PredictionEngine) : Checked PredictionEngine :=
  (if e.displayPreference = .experimental then { e with predictionEpoch := e.confirmedEpoch }
    else e).cull fb now

/-- The predictions for `fb` after a cull. -/
theorem Shaped.cull (h : e.Shaped L) (sized : fb.Sized) (now : Nat) :
    Yields (e.cull fb now) (Shaped (L.resize fb)) := by
  have retired := cull_retired fb now (p := True)
    (fun _ => ⟨sized.cursorRow_lt, sized.cursorCol_lt⟩) h.toFits fun _ => h.inside
  exact (retired.yields sized.toMatches).mono fun _ left => ⟨left.toFits, left.inside trivial⟩

theorem Shaped.atKey (h : e.Shaped L) (sized : fb.Sized) (now : Nat) :
    Yields (e.atKey fb now) (Shaped (L.resize fb)) := by
  unfold PredictionEngine.atKey
  split
  · have start : ({ e with predictionEpoch := e.confirmedEpoch } : PredictionEngine).Shaped L :=
      ⟨⟨h.distinct, h.rows, h.cursors, h.driven⟩, h.inside⟩
    exact start.cull sized now
  · exact h.cull sized now

/-- The key parser has no part in where the cursor is. -/
theorem Clear.withParser (h : e.Clear fb) (parser : InputParser) :
    ({ e with parser } : PredictionEngine).Clear fb := by
  have same : (({ e with parser } : PredictionEngine).initCursor fb).cursors =
      (e.initCursor fb).cursors := by
    unfold PredictionEngine.initCursor
    dsimp only
    split <;> rfl
  intro insert c last
  rw [same] at last
  exact h insert c last

theorem newUserByte_shaped (h : e.Shaped L) (sized : fb.Sized) (byte : UInt8) (now : Nat)
    (clear : L.narrow → ∀ e₁ parser ch, e.atKey fb now = .ok e₁ →
      e₁.parser.input byte = .ok (parser, .print ch) → e₁.Clear fb) :
    Yields (e.newUserByte byte fb now) (Shaped (L.resize fb)) := by
  obtain ⟨-, -, -, -, preference, -⟩ := h.driven
  obtain ⟨e₁, culled, shaped⟩ := h.atKey sized now
  have suit : (L.resize fb).Suit fb := ⟨sized, rfl, rfl⟩
  unfold newUserByte
  rw [if_neg preference]
  change Yields (e.atKey fb now >>= _) _
  rw [culled]
  obtain ⟨height, width, sent, room, preference₁, buffered⟩ := shaped.driven
  obtain ⟨⟨parser, action⟩, read, buffered'⟩ := InputParser.input_buffered byte buffered
  change Yields (e₁.parser.input byte >>= _) _
  have parsed : ({ e₁ with parser } : PredictionEngine).Shaped (L.resize fb) :=
    ⟨⟨shaped.distinct, shaped.rows, shaped.cursors,
      ⟨height, width, sent, room, preference₁, buffered'⟩⟩, shaped.inside⟩
  have ended := parsed.becomeTentative
  refine Yields.bind (p := (· = (parser, action))) ⟨_, read, rfl⟩ ?_
  rintro _ rfl
  cases action with
  | print ch =>
    exact handlePrint_shaped suit ch now parsed fun holds =>
      (clear holds e₁ parser ch culled read).withParser parser
  | execute b =>
    dsimp only
    split
    · exact (newlineCarriageReturn_ready suit now ended.toFits ended.inside).mono
        fun _ ready => ready.shaped
    · exact .pure ended
  | escDispatch => exact .pure ended
  | csiDispatch finalByte =>
    dsimp only
    split
    · exact rightArrow_shaped suit parsed
    split
    · exact leftArrow_shaped suit parsed
    · exact .pure ended
  | none => exact .pure parsed

namespace Event

/-- The frame, if there is one, is as the engine expects it. -/
def Sized (ev : Event) : Prop :=
  ∀ fb ∈ ev.frame, fb.Sized

/-- What holds of the predictions behind the event. -/
def limits (ev : Event) (L : Limits) : Limits :=
  match ev with
  | .key _ fb _ => L.resize fb
  | .cull fb _ => L.resize fb
  | .sent x => { L with sent := x, bound := max L.bound (x + 1) }
  | _ => L

/-- A key that prints or erases a character is typed where that moves no wide character. -/
def Clear (ev : Event) (e : PredictionEngine) : Prop :=
  ∀ byte fb now e₁ parser ch, ev = .key byte fb now → e.atKey fb now = .ok e₁ →
    e₁.parser.input byte = .ok (parser, .print ch) → e₁.Clear fb

end Event

/-- Each event keeps the shape of the predictions. -/
theorem perform_shaped {ev : Event} (h : e.Shaped L) (sized : ev.Sized)
    (clear : L.narrow → ev.Clear e) : Yields (ev.perform e) (Shaped (ev.limits L)) := by
  obtain ⟨height, width, sent, room, preference, buffered⟩ := h.driven
  cases ev with
  | key byte fb now =>
    exact newUserByte_shaped h (sized fb rfl) byte now
      fun holds e₁ parser ch culled read => clear holds byte fb now e₁ parser ch rfl culled read
  | cull fb now => exact h.cull (sized fb rfl) now
  | sent x =>
    have grown : L.bound ≤ max L.bound (x + 1) := Nat.le_max_left _ _
    refine .ok ⟨⟨h.distinct, ?_, ?_, ?_⟩, h.inside⟩
    · intro r mem
      obtain ⟨row_lt, aligned⟩ := h.rows r mem
      exact ⟨row_lt, aligned.cols, fun c inside active => (aligned.expires c inside active).trans grown,
        aligned.narrow⟩
    · exact fun c mem => (h.cursors c mem).trans grown
    · exact ⟨height, width, rfl, Nat.le_max_right _ _, preference, buffered⟩
  | acked x => exact .ok ⟨⟨h.distinct, h.rows, h.cursors, h.driven⟩, h.inside⟩
  | lateAcked x => exact .ok ⟨⟨h.distinct, h.rows, h.cursors, h.driven⟩, h.inside⟩
  | interval x => exact .ok ⟨⟨h.distinct, h.rows, h.cursors, h.driven⟩, h.inside⟩
  | reset =>
    obtain ⟨fits, inside⟩ := fits_reset h.driven
    exact .ok ⟨fits, inside⟩

/-- An engine that never predicts. -/
structure Quiet (e : PredictionEngine) : Prop where
  preference : e.displayPreference = .never
  overlays : e.overlays = []
  cursors : e.cursors = []

theorem Quiet.perform (h : e.Quiet) (ev : Event) : Yields (ev.perform e) Quiet := by
  cases ev with
  | key byte fb now => exact ⟨e, if_pos h.preference, h⟩
  | cull fb now => exact ⟨e, if_pos h.preference, h⟩
  | sent x => exact .ok ⟨h.preference, h.overlays, h.cursors⟩
  | acked x => exact .ok ⟨h.preference, h.overlays, h.cursors⟩
  | lateAcked x => exact .ok ⟨h.preference, h.overlays, h.cursors⟩
  | interval x => exact .ok ⟨h.preference, h.overlays, h.cursors⟩
  | reset =>
    refine .ok ?_
    unfold reset becomeTentative
    split <;> exact ⟨h.preference, rfl, rfl⟩

theorem Quiet.atKey (h : e.Quiet) (fb : Snapshot) (now : Nat) : e.atKey fb now = .ok e := by
  unfold PredictionEngine.atKey
  rw [if_neg (by simp [h.preference])]
  exact if_pos h.preference

/-- A new engine has made no predictions. -/
theorem new_quiet_or_shaped (preference : DisplayPreference) (overwrite narrow : Bool) :
    (new preference overwrite).Quiet ∨
      (new preference overwrite).Shaped ⟨0, 0, 0, 1, narrow = true⟩ := by
  by_cases never : preference = .never
  · exact .inl ⟨never, rfl, rfl⟩
  · have buffered : ({} : InputParser).Buffered :=
      InputParser.buffered_of_ground fun need state => by cases state
    exact .inr ⟨⟨List.nodup_nil, fun _ mem => absurd mem List.not_mem_nil,
      fun _ mem => absurd mem List.not_mem_nil, rfl, rfl, rfl, Nat.le_refl _, never, buffered⟩,
      fun _ mem => absurd mem List.not_mem_nil⟩

/-! ### Every run -/

/-- An engine as its client drives it, with frames of any size. -/
def client : Transition PredictionEngine where
  init e := ∃ preference overwrite, e = new preference overwrite
  step e e' := ∃ ev : Event, ev.Sized ∧ ev.perform e = .ok e'

theorem client_shaped :
    client.Invariant fun e => e.Quiet ∨ ∃ L, ¬ L.narrow ∧ e.Shaped L := by
  refine ⟨?_, ?_⟩
  · rintro _ ⟨preference, overwrite, rfl⟩
    exact (new_quiet_or_shaped preference overwrite false).imp_right
      fun shaped => ⟨_, Bool.false_ne_true, shaped⟩
  · rintro e e' (quiet | ⟨L, wide, shaped⟩) ⟨ev, sized, done⟩
    · exact .inl ((quiet.perform ev).of_eq_ok done)
    · refine .inr ⟨ev.limits L, ?_, ?_⟩
      · cases ev <;> exact wide
      · exact (perform_shaped shaped sized fun holds => absurd holds wide).of_eq_ok done

/-- The overlay rows are as wide as the frame, column by column, and the cursors stand in it. -/
structure Framed (fb : Snapshot) (e : PredictionEngine) : Prop where
  columns : ∀ r ∈ e.overlays, r.cells.map (·.col) = List.range fb.cols
  cursors : ∀ c ∈ e.cursors, c.row < fb.rows ∧ c.col < fb.cols

theorem Shaped.framed (h : e.Shaped (L.resize fb)) : e.Framed fb :=
  ⟨fun r mem => (h.rows r mem).2.cols, h.inside⟩

theorem Quiet.framed (h : e.Quiet) (fb : Snapshot) : e.Framed fb := by
  refine ⟨?_, ?_⟩
  · rw [h.overlays]
    exact fun r mem => absurd mem List.not_mem_nil
  · rw [h.cursors]
    exact fun c mem => absurd mem List.not_mem_nil

/-- Whatever is typed, acknowledged and culled: nothing panics, no row has two overlay rows,
and at a keystroke the overlay rows and cursors are those of the displayed frame, when the key
finds them and when it has been handled. -/
theorem predictions_framed (reach : client.Reachable e) :
    (e.overlays.map (·.rowNum)).Nodup ∧
      ∀ ev : Event, ev.Sized → ∃ e', ev.perform e = .ok e' ∧
        ∀ byte fb now, ev = .key byte fb now →
          ∃ e₁, e.atKey fb now = .ok e₁ ∧ e₁.Framed fb ∧ e'.Framed fb := by
  rcases client_shaped.reachable reach with quiet | ⟨L, wide, shaped⟩
  · refine ⟨quiet.overlays ▸ List.nodup_nil, ?_⟩
    intro ev sized
    obtain ⟨e', done, quiet'⟩ := quiet.perform ev
    exact ⟨e', done, fun byte fb now _ =>
      ⟨e, quiet.atKey fb now, quiet.framed fb, quiet'.framed fb⟩⟩
  · refine ⟨shaped.distinct, ?_⟩
    intro ev sized
    obtain ⟨e', done, shaped'⟩ := perform_shaped shaped sized fun holds => absurd holds wide
    refine ⟨e', done, ?_⟩
    rintro byte fb now rfl
    obtain ⟨e₁, culled, shaped₁⟩ := shaped.atKey (sized fb rfl) now
    exact ⟨e₁, culled, shaped₁.framed, shaped'.framed⟩

theorem blankLine_sized : blankLine.Sized :=
  ⟨⟨rfl, by decide⟩, by decide, by decide, by decide, by decide⟩

theorem echoed_sized : echoed.Sized :=
  ⟨⟨rfl, by decide⟩, by decide, by decide, by decide, by decide⟩

/-- An `x`, and a Backspace once it has been echoed. -/
theorem predictions_framed_erased :
    ∃ e e', (Event.key 0x78 blankLine 5).perform (new .always false) = .ok e ∧
      (e.overlays.map (·.rowNum)).Nodup ∧ (Event.key 0x7F echoed 20).perform e = .ok e' ∧
      e'.Framed echoed := by
  obtain ⟨e, typed, -⟩ := ok_of_any
    (x := (Event.key 0x78 blankLine 5).perform (new .always false)) (p := fun _ => true)
    (by decide +kernel)
  have sized : (Event.key 0x78 blankLine 5).Sized := fun _ mem => by
    cases mem
    exact blankLine_sized
  have sized' : (Event.key 0x7F echoed 20).Sized := fun _ mem => by
    cases mem
    exact echoed_sized
  have reach : client.Reachable e :=
    Transition.Reachable.tail (.of_init ⟨.always, false, rfl⟩) ⟨_, sized, typed⟩
  obtain ⟨distinct, performs⟩ := predictions_framed reach
  obtain ⟨e', done, framed⟩ := performs _ sized'
  obtain ⟨_, -, -, framed'⟩ := framed _ _ _ rfl
  exact ⟨e, e', typed, distinct, done, framed'⟩

/-- Frames that the client has numbered in the order it sent them. -/
def forward : Transition PredictionEngine where
  init e := ∃ preference overwrite, e = new preference overwrite
  step e e' := ∃ ev : Event, ev.Sized ∧ (∀ x, ev = .sent x → e.localFrameSent ≤ x) ∧
    ev.perform e = .ok e'

/-- Each prediction is answered by the frame behind the last one sent, at the latest. -/
theorem forward_shaped :
    forward.Invariant fun e => e.Quiet ∨ ∃ L, ¬ L.narrow ∧ L.bound = L.sent + 1 ∧ e.Shaped L := by
  refine ⟨?_, ?_⟩
  · rintro _ ⟨preference, overwrite, rfl⟩
    exact (new_quiet_or_shaped preference overwrite false).imp_right
      fun shaped => ⟨_, Bool.false_ne_true, rfl, shaped⟩
  · rintro e e' (quiet | ⟨L, wide, bound, shaped⟩) ⟨ev, sized, later, done⟩
    · exact .inl ((quiet.perform ev).of_eq_ok done)
    · refine .inr ⟨ev.limits L, ?_, ?_, ?_⟩
      · cases ev <;> exact wide
      · cases ev with
        | sent x =>
          obtain ⟨-, -, sent, -⟩ := shaped.driven
          have le := later x rfl
          simp only [Event.limits]
          omega
        | _ => exact bound
      · exact (perform_shaped shaped sized fun holds => absurd holds wide).of_eq_ok done

/-- No prediction is outstanding. -/
structure Idle (e : PredictionEngine) : Prop where
  cells : ∀ r ∈ e.overlays, ∀ c ∈ r.cells, c.active = false
  cursors : e.cursors = []

/-- Without predictions, what is shown is the frame. -/
theorem Idle.apply (h : e.Idle) (fb : Snapshot) : e.apply fb = fb := by
  have keeps (cells : List OverlayCell) (idle : ∀ c ∈ cells, c.active = false) (row : Nat) :
      cells.foldl (fun fb c => c.apply e.confirmedEpoch row e.flagging fb) fb = fb := by
    induction cells with
    | nil => rfl
    | cons c rest ih =>
      obtain ⟨inactive, others⟩ := List.forall_mem_cons.mp idle
      have same : c.apply e.confirmedEpoch row e.flagging fb = fb := by
        unfold OverlayCell.apply
        exact if_pos (.inl (by simp [inactive]))
      rw [List.foldl_cons, same]
      exact ih others
  unfold PredictionEngine.apply
  split
  · rfl
  rw [h.cursors]
  have cells := h.cells
  generalize e.overlays = rows at cells ⊢
  induction rows with
  | nil => rfl
  | cons r rest ih =>
    obtain ⟨first, others⟩ := List.forall_mem_cons.mp cells
    dsimp only [List.foldl_nil] at ih ⊢
    rw [List.foldl_cons, keeps r.cells first r.rowNum]
    exact ih others

/-- Once the frame behind the last one sent has been answered, a cull against any frame leaves
no prediction, and what is shown is the frame. -/
theorem predictions_retire (reach : forward.Reachable e)
    (late : e.localFrameSent + 1 ≤ e.localFrameLateAcked) (fb : Snapshot) (now : Nat) :
    (fb.Matches → ∃ e', e.cull fb now = .ok e') ∧
      ∀ e', e.cull fb now = .ok e' → e'.Idle ∧ ∀ shown, e'.apply shown = shown := by
  suffices culled : Guarded fb.Matches (e.cull fb now) Idle by
    refine ⟨fun sized => ?_, fun e' done => ?_⟩
    · obtain ⟨e', done, -⟩ := culled.yields sized
      exact ⟨e', done⟩
    · have idle := culled.of_eq_ok done
      exact ⟨idle, idle.apply⟩
  rcases forward_shaped.reachable reach with quiet | ⟨L, -, bound, shaped⟩
  · have same : e.cull fb now = .ok e := if_pos quiet.preference
    rw [same]
    refine .ok ⟨?_, quiet.cursors⟩
    rw [quiet.overlays]
    exact fun r mem => absurd mem List.not_mem_nil
  · obtain ⟨-, -, sent, -⟩ := shaped.driven
    refine (cull_retired fb now (p := False) False.elim shaped.toFits False.elim).mono ?_
    intro e' left
    refine ⟨?_, ?_⟩
    · intro r mem c inside
      by_contra active
      rw [Bool.not_eq_false] at active
      have expires := (left.rows r mem).2.expires c inside active
      change c.expirationFrame ≤ L.bound at expires
      have early := (left.settled r mem c inside active).resolve_right List.not_mem_nil
      omega
    · refine List.eq_nil_iff_forall_not_mem.mpr fun c mem => ?_
      have expires := left.cursors c mem
      change c.expirationFrame ≤ L.bound at expires
      have early := left.awaited c mem
      omega

/-- An `x` that the application did not echo. -/
theorem predictions_retire_unechoed :
    ∃ e e', (Event.key 0x78 blankLine 5).perform (new .always false) = .ok e ∧
      e.active = true ∧ (e.setLocalFrameLateAcked 1).cull blankLine 20 = .ok e' ∧ e'.Idle ∧
      e'.apply blankLine = blankLine := by
  obtain ⟨e, typed, outstanding⟩ := ok_of_any
    (x := (Event.key 0x78 blankLine 5).perform (new .always false))
    (p := fun e => e.active && e.localFrameSent == 0) (by decide +kernel)
  rw [Bool.and_eq_true, beq_iff_eq] at outstanding
  obtain ⟨active, first⟩ := outstanding
  have sized : (Event.key 0x78 blankLine 5).Sized := fun _ mem => by
    cases mem
    exact blankLine_sized
  have reach : forward.Reachable e :=
    Transition.Reachable.tail (.of_init ⟨.always, false, rfl⟩)
      ⟨_, sized, (fun _ eq => by cases eq), typed⟩
  have answered : forward.Reachable (e.setLocalFrameLateAcked 1) :=
    reach.tail ⟨.lateAcked 1, (fun _ mem => by cases mem), (fun _ eq => by cases eq), rfl⟩
  have late : (e.setLocalFrameLateAcked 1).localFrameSent + 1 ≤
      (e.setLocalFrameLateAcked 1).localFrameLateAcked := by
    simp [setLocalFrameLateAcked, first]
  obtain ⟨returns, left⟩ := predictions_retire answered late blankLine 20
  obtain ⟨e', culled⟩ := returns blankLine_sized.toMatches
  obtain ⟨idle, same⟩ := left e' culled
  exact ⟨e, e', typed, active, culled, idle, same blankLine⟩

end PredictionEngine

end Posh.Remote
