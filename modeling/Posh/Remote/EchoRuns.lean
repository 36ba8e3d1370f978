import Posh.Remote.Epochs

/-!
Runs of the prediction engine, and what it shows in them.

Whatever is typed, acknowledged and culled, in any order, an epoch is confirmed
only by a prediction of it that came true. So what is typed behind the end of an
epoch stays hidden until a prediction of a later epoch has come true.
-/

namespace Posh.Remote

open Posh.Lib Posh.Term

namespace PredictionEngine

/-- What the client does to its engine. -/
inductive Event where
  | key (byte : UInt8) (fb : Snapshot) (now : Nat)
  | cull (fb : Snapshot) (now : Nat)
  | sent (x : Nat)
  | acked (x : Nat)
  | lateAcked (x : Nat)
  | interval (x : Nat)
  | reset

namespace Event

def perform (ev : Event) (e : PredictionEngine) : Checked PredictionEngine :=
  match ev with
  | .key byte fb now => e.newUserByte byte fb now
  | .cull fb now => e.cull fb now
  | .sent x => .ok (e.setLocalFrameSent x)
  | .acked x => .ok (e.setLocalFrameAcked x)
  | .lateAcked x => .ok (e.setLocalFrameLateAcked x)
  | .interval x => .ok (e.setSendInterval x)
  | .reset => .ok e.reset

/-- The frame the event culls against. -/
def frame : Event → Option Snapshot
  | .key _ fb _ => some fb
  | .cull fb _ => some fb
  | _ => none

end Event

/-- The predicted cursor stands in the last column, where printing wraps. -/
def Wraps (fb : Snapshot) (e : PredictionEngine) : Prop :=
  ∃ c, (e.initCursor fb).cursor = .ok c ∧ c.row < fb.rows ∧ c.col < fb.cols ∧
    fb.cols ≤ c.col + 1

/-- The keystrokes behind which a new epoch begins: control characters, escape keys
and what is not predicted, and a wrap. -/
def EndsEpoch (fb : Snapshot) (e : PredictionEngine) : InputAction → Prop
  | .print ch => ch.toNat ≠ 0x7F ∧ (ch.toNat < 0x20 ∨ wcwidth ch ≠ 1 ∨ e.Wraps fb)
  | .execute _ => True
  | .escDispatch => True
  | .csiDispatch finalByte => finalByte.toNat ≠ 'C'.toNat ∧ finalByte.toNat ≠ 'D'.toNat
  | .none => False

def Event.EndsEpoch (ev : Event) (e : PredictionEngine) : Prop :=
  match ev with
  | .key byte fb now => ∃ e₁ parser action, e.cull fb now = .ok e₁ ∧
      e₁.parser.input byte = .ok (parser, action) ∧
      PredictionEngine.EndsEpoch fb { e₁ with parser } action
  | .reset => True
  | _ => False

/-- An engine that predicts, adaptively or always, as its client drives it. -/
def system : Transition PredictionEngine where
  init e := ∃ preference overwrite,
    (preference = .adaptive ∨ preference = .always) ∧ e = new preference overwrite
  step e e' := ∃ ev : Event, ev.perform e = .ok e'

/-- An outstanding prediction of the epoch comes true in `fb`. -/
def ConfirmsEpoch (fb : Snapshot) (epoch : Nat) (e : PredictionEngine) : Prop :=
  ∃ row cell, e.Holds row cell ∧ cell.Confirms fb row e.localFrameLateAcked ∧
    cell.tentativeUntilEpoch = epoch

/-- Somewhere between `before` and `after` an epoch from `before`'s current one on
was confirmed. -/
def ConfirmedSince (before after : PredictionEngine) : Prop :=
  ∃ a b, ∃ ev : Event, ∃ fb, system.Runs before a ∧ ev.perform a = .ok b ∧ system.Runs b after ∧
    ev.frame = some fb ∧ before.predictionEpoch ≤ b.confirmedEpoch ∧
    a.ConfirmsEpoch fb b.confirmedEpoch

/-! ### Every run -/

/-- No epoch is ahead of the current one. -/
structure Valid (e : PredictionEngine) : Prop where
  preference : e.displayPreference = .adaptive ∨ e.displayPreference = .always
  confirmed : e.confirmedEpoch ≤ e.predictionEpoch
  cells : ∀ row cell, e.Holds row cell → cell.tentativeUntilEpoch ≤ e.predictionEpoch
  cursors : ∀ c ∈ e.cursors, c.tentativeUntilEpoch ≤ e.predictionEpoch

variable {e e' : PredictionEngine} {ev : Event}

/-- What one event does: it descends, and confirms at most what its frame confirms. -/
structure Advances (ev : Event) (before after : PredictionEngine) : Prop
    extends Descends before after where
  confirmed : after.confirmedEpoch = before.confirmedEpoch ∨
    before.confirmedEpoch < after.confirmedEpoch ∧ ∃ fb, ev.frame = some fb ∧
      before.ConfirmsEpoch fb after.confirmedEpoch

theorem Culls.advances {fb : Snapshot} (h : Culls fb e e') (frame : ev.frame = some fb) :
    Advances ev e e' :=
  ⟨h.toDescends, h.confirmed.imp id fun ⟨higher, row, cell, held, confirms⟩ =>
    ⟨higher, fb, frame, row, cell, held, confirms⟩⟩

theorem Types.advances (h : e.Types e') : Advances ev e e' :=
  ⟨h.toDescends, .inl h.confirmed⟩

theorem perform_advances (normal : e.displayPreference ≠ .experimental)
    (done : ev.perform e = .ok e') : Advances ev e e' := by
  cases ev with
  | key byte fb now =>
    exact ((newUserByte_culls byte fb now normal).of_eq_ok done).advances rfl
  | cull fb now => exact ((cull_culls fb now e).of_eq_ok done).advances rfl
  | sent x =>
    cases done
    exact Types.advances (types_of_cursors rfl (fun _ mem => .inl mem) rfl (Nat.le_refl _) rfl)
  | acked x =>
    cases done
    exact Types.advances (types_of_cursors rfl (fun _ mem => .inl mem) rfl (Nat.le_refl _) rfl)
  | lateAcked x =>
    cases done
    exact Types.advances (types_of_cursors rfl (fun _ mem => .inl mem) rfl (Nat.le_refl _) rfl)
  | interval x =>
    cases done
    exact Types.advances (types_of_cursors rfl (fun _ mem => .inl mem) rfl (Nat.le_refl _) rfl)
  | reset =>
    cases done
    exact (reset_types e).advances

theorem Valid.normal (h : e.Valid) : e.displayPreference ≠ .experimental := by
  rcases h.preference with adaptive | always
  · simp [adaptive]
  · simp [always]

/-- A confirmed epoch was at most the current one when it was confirmed. -/
theorem Valid.confirmed_le (h : e.Valid) (step : Advances ev e e') :
    e'.confirmedEpoch ≤ e.predictionEpoch := by
  rcases step.confirmed with same | ⟨_, _, _, row, cell, held, _, epoch⟩
  · rw [same]
    exact h.confirmed
  · rw [← epoch]
    exact h.cells row cell held

theorem Valid.advances (h : e.Valid) (step : Advances ev e e') : e'.Valid where
  preference := step.preference ▸ h.preference
  confirmed := (h.confirmed_le step).trans step.epoch
  cells := by
    intro row cell held
    rcases step.cells row cell held with ⟨old, old_held, continues⟩ | ⟨_, high⟩
    · rw [continues.epoch]
      exact (h.cells row old old_held).trans step.epoch
    · exact high
  cursors := by
    intro c mem
    rcases step.cursors c mem with old | ⟨_, high⟩
    · exact (h.cursors c old).trans step.epoch
    · exact high

theorem valid_invariant : system.Invariant Valid where
  base := by
    rintro e ⟨preference, overwrite, normal, rfl⟩
    refine ⟨normal, Nat.zero_le _, ?_, fun _ mem => absurd mem List.not_mem_nil⟩
    rintro row cell ⟨r, mem, _⟩
    exact absurd mem List.not_mem_nil
  step := by
    rintro e e' h ⟨ev, done⟩
    exact h.advances (perform_advances h.normal done)

/-! ### Over a run -/

/-- What a run does to a valid engine: it stays valid, and descends. -/
theorem runs_descend (h : e.Valid) (run : system.Runs e e') : e'.Valid ∧ e.Descends e' := by
  induction run with
  | refl => exact ⟨h, .refl e⟩
  | tail _ step ih =>
    obtain ⟨valid, descends⟩ := ih
    obtain ⟨ev, done⟩ := step
    have advances := perform_advances valid.normal done
    exact ⟨valid.advances advances, descends.trans advances.toDescends⟩

/-- Behind the end of an epoch, a later one is confirmed only by a prediction of it. -/
theorem confirmedSince_of_runs (h : e.Valid) (ended : e.confirmedEpoch < e.predictionEpoch)
    (run : system.Runs e e') :
    e'.confirmedEpoch < e.predictionEpoch ∨ ConfirmedSince e e' := by
  induction run with
  | refl => exact .inl ended
  | tail before step ih =>
    rename_i a b
    obtain ⟨ev, done⟩ := step
    rcases ih with hidden | ⟨x, y, ev', fb, start, confirms, rest, frame⟩
    · have valid := (runs_descend h before).1
      have advances := perform_advances valid.normal done
      by_cases still : b.confirmedEpoch < e.predictionEpoch
      · exact .inl still
      · right
        rcases advances.confirmed with same | ⟨_, fb, frame, confirms⟩
        · exact absurd (same ▸ hidden) still
        · exact ⟨a, b, ev, fb, before, done, .refl, frame, Nat.not_lt.mp still, confirms⟩
    · exact .inr ⟨x, y, ev', fb, start, confirms, rest.tail ⟨ev, done⟩, frame⟩

/-! ### The ends of epochs -/

theorem becomeTentative_epoch (normal : e.displayPreference ≠ .experimental) :
    e.becomeTentative.predictionEpoch = e.predictionEpoch + 1 := by
  unfold becomeTentative
  rw [if_pos normal]

theorem modifyCursor_epoch (f : CursorPrediction → CursorPrediction) (e : PredictionEngine) :
    Guarded False (e.modifyCursor f) fun e' => e'.predictionEpoch = e.predictionEpoch := by
  unfold modifyCursor
  apply (Guarded.trivial e.cursor).bind
  intro last _
  exact .pure rfl

theorem withRow_epoch (idx : Nat) (f : List OverlayCell → Checked (List OverlayCell))
    (e : PredictionEngine) :
    Guarded False (e.withRow idx f) fun e' => e'.predictionEpoch = e.predictionEpoch := by
  unfold withRow
  apply (Guarded.trivial (getAt e.overlays idx)).bind
  intro row _
  apply (Guarded.trivial (f row.cells)).bind
  intro cells _
  apply (Guarded.trivial (setAt e.overlays idx { row with cells })).bind
  intro overlays _
  exact .pure rfl

/-- Printing what is not predicted, or what wraps, ends the epoch. -/
theorem handlePrint_ends (normal : e.displayPreference ≠ .experimental) {fb : Snapshot} {now : Nat}
    {ch : Char} (ends : EndsEpoch fb e (.print ch)) :
    Guarded False (e.handlePrint ch fb now) fun e' =>
      e.predictionEpoch < e'.predictionEpoch := by
  obtain ⟨notDelete, why⟩ := ends
  unfold handlePrint
  rw [if_neg notDelete]
  by_cases unpredicted : ch.toNat < 0x20 ∨ wcwidth ch ≠ 1
  · rw [if_pos unpredicted]
    refine .ok ?_
    rw [becomeTentative_epoch normal]
    exact Nat.lt_succ_self _
  · rw [if_neg unpredicted]
    obtain ⟨low, narrow⟩ := not_or.mp unpredicted
    obtain ⟨c, isLast, row_lt, col_lt, wraps⟩ := (why.resolve_left low).resolve_left narrow
    have typing := initCursor_typing fb (Types.refl e)
    have bumped : e.predictionEpoch < (e.initCursor fb).becomeTentative.predictionEpoch := by
      rw [becomeTentative_epoch (typing.preference ▸ normal)]
      exact Nat.lt_succ_of_le typing.epoch
    have inside : ¬ (c.row ≥ fb.rows ∨ c.col ≥ fb.cols) := by omega
    dsimp only
    rw [isLast]
    refine Guarded.bind (p := fun c' => c' = c) (.ok rfl) ?_
    rintro _ rfl
    rw [if_neg inside, if_pos wraps]
    refine Guarded.bind (withRow_epoch _ _ _) ?_
    intro e₁ same₁
    rw [epoch_getOrMakeRow] at same₁
    refine Guarded.bind (modifyCursor_epoch _ e₁) ?_
    intro e₂ same₂
    rw [if_neg (Nat.not_lt.mpr wraps)]
    refine (newlineCarriageReturn_typing fb now (becomeTentative_types e₂)).mono ?_
    intro e₃ later
    rw [← same₁, ← same₂] at bumped
    exact Nat.lt_of_lt_of_le bumped later.epoch

/-- The keystrokes of `EndsEpoch`, and a reset, begin an epoch that is not confirmed. -/
theorem endsEpoch_unconfirmed (h : e.Valid) (ends : ev.EndsEpoch e) (done : ev.perform e = .ok e') :
    e'.confirmedEpoch < e'.predictionEpoch := by
  have advances := perform_advances h.normal done
  suffices ended : e.predictionEpoch < e'.predictionEpoch from
    Nat.lt_of_le_of_lt (h.confirmed_le advances) ended
  cases ev with
  | key byte fb now =>
    obtain ⟨e₁, parser, action, culled, parsed, ends⟩ := ends
    have culls := (cull_culls fb now e).of_eq_ok culled
    have normal : ({ e₁ with parser } : PredictionEngine).displayPreference ≠ .experimental :=
      fun eq => h.normal (culls.preference ▸ eq)
    have predicts : e.displayPreference ≠ .never := by
      rcases h.preference with adaptive | always
      · simp [adaptive]
      · simp [always]
    have bumped : e.predictionEpoch <
        ({ e₁ with parser } : PredictionEngine).becomeTentative.predictionEpoch := by
      rw [becomeTentative_epoch normal]
      exact Nat.lt_succ_of_le culls.epoch
    change e.newUserByte byte fb now = .ok e' at done
    unfold newUserByte at done
    rw [if_neg predicts] at done
    dsimp only at done
    rw [if_neg h.normal, culled] at done
    change (e₁.parser.input byte >>= _) = _ at done
    rw [parsed] at done
    cases action with
    | print ch =>
      have ended := (handlePrint_ends normal ends).of_eq_ok done
      exact Nat.lt_of_le_of_lt culls.epoch ended
    | execute b =>
      simp only [bind, Except.bind] at done
      split at done
      · have typing := (newlineCarriageReturn_typing fb now (Types.refl _)).of_eq_ok done
        exact Nat.lt_of_lt_of_le bumped typing.epoch
      · cases done
        exact bumped
    | escDispatch =>
      cases done
      exact bumped
    | csiDispatch finalByte =>
      simp only [bind, Except.bind] at done
      rw [if_neg ends.1, if_neg ends.2] at done
      cases done
      exact bumped
    | none => exact ends.elim
  | reset =>
    cases done
    have next : e.reset.predictionEpoch = e.predictionEpoch + 1 :=
      becomeTentative_epoch (e := { e with cursors := [], overlays := [] }) h.normal
    rw [next]
    exact Nat.lt_succ_self _
  | cull fb now => exact ends.elim
  | sent x => exact ends.elim
  | acked x => exact ends.elim
  | lateAcked x => exact ends.elim
  | interval x => exact ends.elim

/-! ### What is shown -/

theorem cell_modifyCell {row col r c : Nat} (f : Cell → Cell) (fb : Snapshot)
    (elsewhere : ¬ (row = r ∧ col = c)) : (fb.modifyCell row col f).cell r c = fb.cell r c := by
  unfold Snapshot.cell Snapshot.modifyCell
  simp only [List.getElem?_modify]
  by_cases same : row = r
  · have differs : col ≠ c := fun eq => elsewhere ⟨same, eq⟩
    cases fb.cells[r]? with
    | none => simp
    | some cells => simp [same, differs]
  · simp [same]

/-- Drawing a cell changes that cell only, and only if its epoch is confirmed. -/
theorem cell_apply (confirmedEpoch row : Nat) (flag : Bool) (fb : Snapshot) (cell : OverlayCell)
    (r c : Nat) :
    (cell.apply confirmedEpoch row flag fb).cell r c = fb.cell r c ∨
      row = r ∧ cell.col = c ∧ cell.active = true ∧
        cell.tentativeUntilEpoch ≤ confirmedEpoch := by
  unfold OverlayCell.apply
  split
  · exact .inl rfl
  rename_i visible
  split
  · exact .inl rfl
  rename_i confirmed
  by_cases here : row = r ∧ cell.col = c
  · obtain ⟨active, _⟩ := not_or.mp visible
    refine .inr ⟨here.1, here.2, by simpa using active, ?_⟩
    simpa [OverlayCell.tentative] using confirmed
  · left
    dsimp only
    generalize (if (cell.replacement.isBlank &&
      ((fb.cell row cell.col).map Cell.isBlank).getD true) = true then false else flag) = flagged
    split
    · split
      · exact cell_modifyCell _ fb here
      · rfl
    split
    · exact cell_modifyCell _ fb here
    · rfl

theorem cursor_apply (confirmedEpoch row : Nat) (flag : Bool) (fb : Snapshot) (cell : OverlayCell) :
    (cell.apply confirmedEpoch row flag fb).cursorRow = fb.cursorRow ∧
      (cell.apply confirmedEpoch row flag fb).cursorCol = fb.cursorCol := by
  unfold OverlayCell.apply
  dsimp only
  split
  · exact ⟨rfl, rfl⟩
  split
  · exact ⟨rfl, rfl⟩
  generalize (if (cell.replacement.isBlank &&
    ((fb.cell row cell.col).map Cell.isBlank).getD true) = true then false else flag) = flagged
  split
  · split <;> exact ⟨rfl, rfl⟩
  · split <;> exact ⟨rfl, rfl⟩

/-- A cell drawn by `apply` shows an outstanding prediction of a confirmed epoch. -/
def ShowsCell (row col : Nat) (e : PredictionEngine) : Prop :=
  ∃ cell, e.Holds row cell ∧ cell.col = col ∧ cell.tentativeUntilEpoch ≤ e.confirmedEpoch

/-- A cursor moved by `apply` stands where a prediction of a confirmed epoch puts it. -/
def ShowsCursor (row col : Nat) (e : PredictionEngine) : Prop :=
  ∃ c ∈ e.cursors, c.row = row ∧ c.col = col ∧ c.active = true ∧
    c.tentativeUntilEpoch ≤ e.confirmedEpoch

/-- The frame's own cells and cursor, except where a confirmed epoch's predictions are. -/
structure Shows (e : PredictionEngine) (fb fb' : Snapshot) : Prop where
  cells : ∀ row col, fb'.cell row col = fb.cell row col ∨ e.ShowsCell row col
  cursor : fb'.cursorRow = fb.cursorRow ∧ fb'.cursorCol = fb.cursorCol ∨
    e.ShowsCursor fb'.cursorRow fb'.cursorCol

theorem apply_shows (e : PredictionEngine) (fb : Snapshot) : e.Shows fb (e.apply fb) := by
  unfold apply
  split
  · exact ⟨fun _ _ => .inl rfl, .inl ⟨rfl, rfl⟩⟩
  have cursors (cs : List CursorPrediction) (mine : cs ⊆ e.cursors) (fb' : Snapshot)
      (h : e.Shows fb fb') :
      e.Shows fb (cs.foldl (fun fb c => c.apply e.confirmedEpoch fb) fb') := by
    induction cs generalizing fb' with
    | nil => exact h
    | cons c cs ih =>
      refine ih (List.Subset.trans (List.subset_cons_self c cs) mine) _ ?_
      change e.Shows fb (c.apply e.confirmedEpoch fb')
      unfold CursorPrediction.apply
      split
      · exact h
      rename_i visible
      split
      · refine ⟨h.cells, .inr ⟨c, mine List.mem_cons_self, rfl, rfl, ?_⟩⟩
        simpa [CursorPrediction.tentative] using visible
      · exact h
  have cells (r : OverlayRow) (mine : r ∈ e.overlays) (cs : List OverlayCell)
      (inside : cs ⊆ r.cells) (fb' : Snapshot) (h : e.Shows fb fb') :
      e.Shows fb (cs.foldl (fun fb c => c.apply e.confirmedEpoch r.rowNum e.flagging fb) fb') := by
    induction cs generalizing fb' with
    | nil => exact h
    | cons c cs ih =>
      refine ih (List.Subset.trans (List.subset_cons_self c cs) inside) _ ⟨?_, ?_⟩
      · intro row col
        rcases cell_apply e.confirmedEpoch r.rowNum e.flagging fb' c row col with
          same | ⟨num, at_col, active, confirmed⟩
        · rw [same]
          exact h.cells row col
        · exact .inr ⟨c, ⟨r, mine, num, inside List.mem_cons_self, active⟩, at_col, confirmed⟩
      · obtain ⟨row, col⟩ := cursor_apply e.confirmedEpoch r.rowNum e.flagging fb' c
        rw [row, col]
        exact h.cursor
  have rows (rs : List OverlayRow) (mine : rs ⊆ e.overlays) (fb' : Snapshot) (h : e.Shows fb fb') :
      e.Shows fb (rs.foldl (fun fb row => row.cells.foldl
        (fun fb c => c.apply e.confirmedEpoch row.rowNum e.flagging fb) fb) fb') := by
    induction rs generalizing fb' with
    | nil => exact h
    | cons r rs ih =>
      exact ih (List.Subset.trans (List.subset_cons_self r rs) mine) _
        (cells r (mine List.mem_cons_self) r.cells (List.Subset.refl _) fb' h)
  have start : e.Shows fb fb := ⟨fun _ _ => .inl rfl, .inl ⟨rfl, rfl⟩⟩
  exact rows e.overlays (List.Subset.refl _) _ (cursors e.cursors (List.Subset.refl _) fb start)

/-- Whatever is typed, acknowledged and culled: no epoch ahead of the current one is
confirmed; the confirmed epoch rises only, and only to that of a prediction which
the culled frame confirms; `apply` shows predictions of confirmed epochs only; and
behind the end of an epoch every prediction is either an older one or of a later
epoch, which is not shown before some prediction of a later epoch was confirmed. -/
theorem echo_contained (reach : system.Reachable e) :
    e.confirmedEpoch ≤ e.predictionEpoch ∧
      (∀ (ev : Event) e', ev.perform e = .ok e' → e.confirmedEpoch ≤ e'.confirmedEpoch ∧
        (e.confirmedEpoch < e'.confirmedEpoch →
          ∃ fb, ev.frame = some fb ∧ e.ConfirmsEpoch fb e'.confirmedEpoch)) ∧
      (∀ fb, e.Shows fb (e.apply fb)) ∧
      ∀ (ev : Event) e₁ e₂, ev.EndsEpoch e → ev.perform e = .ok e₁ → system.Runs e₁ e₂ →
        (∀ row cell, e₂.Holds row cell →
          (∃ old, e₁.Holds row old ∧ old.Continues cell ∧
            old.tentativeUntilEpoch < e₁.predictionEpoch) ∨
          e₁.predictionEpoch ≤ cell.tentativeUntilEpoch ∧
            (cell.tentativeUntilEpoch ≤ e₂.confirmedEpoch → ConfirmedSince e₁ e₂)) ∧
        ∀ c ∈ e₂.cursors, c ∈ e₁.cursors ∧ c.tentativeUntilEpoch < e₁.predictionEpoch ∨
          e₁.predictionEpoch ≤ c.tentativeUntilEpoch ∧
            (c.tentativeUntilEpoch ≤ e₂.confirmedEpoch → ConfirmedSince e₁ e₂) := by
  have valid := valid_invariant.reachable reach
  refine ⟨valid.confirmed, ?_, apply_shows e, ?_⟩
  · intro ev e' done
    rcases (perform_advances valid.normal done).confirmed with same | ⟨higher, confirms⟩
    · rw [same]
      exact ⟨Nat.le_refl _, fun raised => absurd raised (Nat.lt_irrefl _)⟩
    · exact ⟨Nat.le_of_lt higher, fun _ => confirms⟩
  · intro ev e₁ e₂ ends done run
    have valid₁ := valid.advances (perform_advances valid.normal done)
    have unconfirmed := endsEpoch_unconfirmed valid ends done
    have descends := (runs_descend valid₁ run).2
    have since (epoch : Nat) (later : e₁.predictionEpoch ≤ epoch)
        (shown : epoch ≤ e₂.confirmedEpoch) : ConfirmedSince e₁ e₂ := by
      rcases confirmedSince_of_runs valid₁ unconfirmed run with hidden | confirmed
      · omega
      · exact confirmed
    constructor
    · intro row cell held
      rcases descends.cells row cell held with ⟨old, old_held, continues⟩ | ⟨later, _⟩
      · by_cases older : old.tentativeUntilEpoch < e₁.predictionEpoch
        · exact .inl ⟨old, old_held, continues, older⟩
        · have later : e₁.predictionEpoch ≤ cell.tentativeUntilEpoch :=
            continues.epoch ▸ Nat.not_lt.mp older
          exact .inr ⟨later, since _ later⟩
      · exact .inr ⟨later, since _ later⟩
    · intro c mem
      rcases descends.cursors c mem with old | ⟨later, _⟩
      · by_cases older : c.tentativeUntilEpoch < e₁.predictionEpoch
        · exact .inl ⟨old, older⟩
        · exact .inr ⟨Nat.not_lt.mp older, since _ (Nat.not_lt.mp older)⟩
      · exact .inr ⟨later, since _ later⟩

/-- A list of events is a run of any system that allows each of them. -/
theorem runs_of_events {M : Transition PredictionEngine} {evs : List Event}
    (steps : ∀ ev ∈ evs, ∀ e e', ev.perform e = .ok e' → M.step e e')
    (done : forEach evs e Event.perform = .ok e') : M.Runs e e' := by
  induction evs generalizing e with
  | nil =>
    cases done
    exact .refl
  | cons ev evs ih =>
    obtain ⟨first, others⟩ := List.forall_mem_cons.mp steps
    change (ev.perform e >>= _) = _ at done
    cases perform : ev.perform e with
    | error panic =>
      rw [perform] at done
      cases done
    | ok next =>
      rw [perform] at done
      exact .head (first e next perform) (ih others done)

theorem ok_of_any {α : Type} {x : Checked α} {p : α → Bool} (h : x.toOption.any p = true) :
    ∃ a, x = .ok a ∧ p a = true := by
  cases x with
  | error panic => exact absurd h nofun
  | ok a => exact ⟨a, rfl, h⟩

def blankLine : Snapshot :=
  { rows := 1, cols := 3, cells := [[blankCell, blankCell, blankCell]]
    cursorRow := 0, cursorCol := 0 }

/-- The line once the server has echoed an `x`. -/
def echoed : Snapshot :=
  { blankLine with
    cells := [[{ blankCell with ch := 'x' }, blankCell, blankCell]], cursorCol := 1 }

/-- An Enter and an `x`, which its echo confirms. -/
theorem echo_contained_typed :
    ∃ e e', forEach [.key 0x0D blankLine 5, .key 0x78 blankLine 10, .lateAcked 1]
        (new .always false) Event.perform = .ok e ∧
      (Event.cull echoed 20).perform e = .ok e' ∧
      e.confirmedEpoch < e'.confirmedEpoch ∧ e.confirmedEpoch ≤ e.predictionEpoch ∧
      e.ConfirmsEpoch echoed e'.confirmedEpoch := by
  obtain ⟨e, typed, more⟩ := ok_of_any
    (x := forEach [.key 0x0D blankLine 5, .key 0x78 blankLine 10, .lateAcked 1]
      (new .always false) Event.perform)
    (p := fun e => ((Event.cull echoed 20).perform e).toOption.any fun e' =>
      e.confirmedEpoch < e'.confirmedEpoch) (by decide +kernel)
  obtain ⟨e', culled, raised⟩ := ok_of_any more
  have contained := echo_contained ⟨_, ⟨.always, false, .inr rfl, rfl⟩,
    runs_of_events (fun ev _ _ _ done => ⟨ev, done⟩) typed⟩
  have raised : e.confirmedEpoch < e'.confirmedEpoch := by simpa using raised
  obtain ⟨fb, frame, confirms⟩ := (contained.2.1 _ _ culled).2 raised
  cases frame
  exact ⟨e, e', typed, culled, raised, contained.1, confirms⟩

end PredictionEngine

end Posh.Remote
