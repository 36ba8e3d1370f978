import Posh.Lib.Transition
import Posh.Remote.Predict

/-!
Epochs contain speculative echo.

A prediction belongs to the epoch it was typed in, and is shown once that epoch is
confirmed. `Descends` says what any operation does to the outstanding
predictions: each one afterwards was there before, up to its rendition, or belongs
to an epoch that had not ended before. Only `cull` confirms an epoch, and only
that of a cell whose prediction came true against what was there (`Confirms`).
-/

namespace Posh.Remote

open Posh.Lib Posh.Term

/-! ### Cells -/

namespace OverlayCell

/-- The same prediction, perhaps in another rendition. -/
structure Continues (old new : OverlayCell) : Prop where
  active : old.active = true
  epoch : new.tentativeUntilEpoch = old.tentativeUntilEpoch
  expiration : new.expirationFrame = old.expirationFrame
  col : new.col = old.col
  unknown : new.unknown = old.unknown
  glyph : ∃ style, new.replacement = { old.replacement with style }
  originals : new.originalContents = old.originalContents

theorem Continues.refl {c : OverlayCell} (active : c.active = true) : c.Continues c :=
  ⟨active, rfl, rfl, rfl, rfl, ⟨c.replacement.style, rfl⟩, rfl⟩

theorem Continues.trans {a b c : OverlayCell} (first : a.Continues b) (second : b.Continues c) :
    a.Continues c := by
  obtain ⟨style, first_glyph⟩ := first.glyph
  obtain ⟨style', second_glyph⟩ := second.glyph
  exact ⟨first.active, second.epoch.trans first.epoch, second.expiration.trans first.expiration,
    second.col.trans first.col, second.unknown.trans first.unknown,
    ⟨style', by rw [second_glyph, first_glyph]⟩, second.originals.trans first.originals⟩

/-- The frame shows the predicted glyph, which is not blank and was not there when
it was predicted, and the application has answered the keystroke. -/
structure Confirms (fb : Snapshot) (row lateAck : Nat) (c : OverlayCell) : Prop where
  active : c.active = true
  row_lt : row < fb.rows
  col_lt : c.col < fb.cols
  expired : c.expirationFrame ≤ lateAck
  known : c.unknown = false
  glyph : c.replacement.isBlank = false
  shown : ∃ current, fb.cell row c.col = some current ∧ contentsMatch current c.replacement = true
  changed : ∀ original ∈ c.originalContents, contentsMatch original c.replacement = false

/-- `Correct` is the verdict on cells that confirm their epoch, and on no others. -/
theorem confirms_of_getValidity {fb : Snapshot} {row lateAck : Nat} {c : OverlayCell}
    (correct : c.getValidity fb row lateAck = .ok .correct) : c.Confirms fb row lateAck := by
  unfold getValidity at correct
  by_cases active : c.active = true
  · rw [if_neg (by simp [active])] at correct
    by_cases outside : row ≥ fb.rows ∨ c.col ≥ fb.cols
    · rw [if_pos outside] at correct
      cases correct
    · rw [if_neg outside] at correct
      obtain ⟨row_lt, col_lt⟩ := not_or.mp outside
      by_cases early : lateAck < c.expirationFrame
      · rw [if_pos early] at correct
        cases correct
      · rw [if_neg early] at correct
        cases unknown : c.unknown with
        | true =>
          rw [unknown, if_pos rfl] at correct
          cases correct
        | false =>
          rw [unknown, if_neg Bool.false_ne_true] at correct
          cases blank : c.replacement.isBlank with
          | true =>
            rw [blank, if_pos rfl] at correct
            cases correct
          | false =>
            rw [blank, if_neg Bool.false_ne_true] at correct
            cases found : fb.cell row c.col with
            | none =>
              rw [found] at correct
              cases correct
            | some current =>
              rw [found] at correct
              simp only [unwrap, bind, Except.bind] at correct
              split at correct
              · rename_i same
                split at correct
                · cases correct
                · rename_i credit
                  refine ⟨active, Nat.not_le.mp row_lt, Nat.not_le.mp col_lt, Nat.not_lt.mp early,
                    unknown, blank, ⟨current, found, same⟩, ?_⟩
                  simpa using credit
              · cases correct
  · rw [if_pos (by simp [active])] at correct
    cases correct

/-- Confirmation does not look at renditions. -/
theorem Confirms.of_continues {fb : Snapshot} {row lateAck : Nat} {old new : OverlayCell}
    (h : new.Confirms fb row lateAck) (same : old.Continues new) : old.Confirms fb row lateAck := by
  obtain ⟨style, glyph⟩ := same.glyph
  have shown := h.shown
  have blank := h.glyph
  have changed := h.changed
  rw [glyph] at shown blank changed
  rw [same.col] at shown
  rw [same.originals] at changed
  exact ⟨same.active, h.row_lt, same.col ▸ h.col_lt, same.expiration ▸ h.expired,
    same.unknown ▸ h.known, blank, shown, changed⟩

@[simp] theorem epoch_predict (epoch expiration now : Nat) (orig : Cell) (c : OverlayCell) :
    (c.predict epoch expiration now orig).tentativeUntilEpoch = epoch := rfl

@[simp] theorem epoch_takeOver (glyph : Option Cell) (c : OverlayCell) :
    (c.takeOver glyph).tentativeUntilEpoch = c.tentativeUntilEpoch := by
  cases glyph <;> rfl

end OverlayCell

/-! ### What operations do to the outstanding predictions -/

namespace PredictionEngine

/-- The engine holds `cell` as an outstanding prediction for a cell of row `row`. -/
def Holds (e : PredictionEngine) (row : Nat) (cell : OverlayCell) : Prop :=
  ∃ r ∈ e.overlays, r.rowNum = row ∧ cell ∈ r.cells ∧ cell.active = true

theorem Holds.active {e : PredictionEngine} {row : Nat} {cell : OverlayCell}
    (held : e.Holds row cell) : cell.active = true := by
  obtain ⟨_, _, _, _, active⟩ := held
  exact active

/-- Every prediction held by `after` was held by `before`, or belongs to an epoch
from `before`'s current one on. -/
structure Descends (before after : PredictionEngine) : Prop where
  preference : after.displayPreference = before.displayPreference
  epoch : before.predictionEpoch ≤ after.predictionEpoch
  cells : ∀ row cell, after.Holds row cell →
    (∃ old, before.Holds row old ∧ old.Continues cell) ∨
      before.predictionEpoch ≤ cell.tentativeUntilEpoch ∧
        cell.tentativeUntilEpoch ≤ after.predictionEpoch
  cursors : ∀ c ∈ after.cursors, c ∈ before.cursors ∨
    before.predictionEpoch ≤ c.tentativeUntilEpoch ∧
      c.tentativeUntilEpoch ≤ after.predictionEpoch

theorem Descends.refl (e : PredictionEngine) : e.Descends e where
  preference := rfl
  epoch := Nat.le_refl _
  cells := fun _ cell held => .inl ⟨cell, held, .refl held.active⟩
  cursors := fun _ mem => .inl mem

theorem Descends.trans {a b c : PredictionEngine} (first : a.Descends b) (second : b.Descends c) :
    a.Descends c where
  preference := second.preference.trans first.preference
  epoch := first.epoch.trans second.epoch
  cells := by
    intro row cell held
    rcases second.cells row cell held with ⟨mid, mid_held, continues⟩ | ⟨low, high⟩
    · rcases first.cells row mid mid_held with ⟨old, old_held, before⟩ | ⟨low, high⟩
      · exact .inl ⟨old, old_held, before.trans continues⟩
      · rw [← continues.epoch] at low high
        exact .inr ⟨low, high.trans second.epoch⟩
    · exact .inr ⟨first.epoch.trans low, high⟩
  cursors := by
    intro cursor mem
    rcases second.cursors cursor mem with before | ⟨low, high⟩
    · rcases first.cursors cursor before with old | ⟨low, high⟩
      · exact .inl old
      · exact .inr ⟨low, high.trans second.epoch⟩
    · exact .inr ⟨first.epoch.trans low, high⟩

/-- What typing does: it descends, and confirms nothing. -/
structure Types (before after : PredictionEngine) : Prop extends Descends before after where
  confirmed : after.confirmedEpoch = before.confirmedEpoch

theorem Types.refl (e : PredictionEngine) : e.Types e :=
  ⟨.refl e, rfl⟩

theorem Types.trans {a b c : PredictionEngine} (first : a.Types b) (second : b.Types c) :
    a.Types c :=
  ⟨first.toDescends.trans second.toDescends, second.confirmed.trans first.confirmed⟩

/-- An engine with the same cells, whose cursors are old or of the current epoch. -/
theorem types_of_cursors {e e' : PredictionEngine} (overlays : e'.overlays = e.overlays)
    (cursors : ∀ c ∈ e'.cursors, c ∈ e.cursors ∨ c.tentativeUntilEpoch = e.predictionEpoch)
    (preference : e'.displayPreference = e.displayPreference)
    (epoch : e.predictionEpoch ≤ e'.predictionEpoch)
    (confirmed : e'.confirmedEpoch = e.confirmedEpoch) : e.Types e' := by
  refine ⟨⟨preference, epoch, ?_, ?_⟩, confirmed⟩
  · intro row cell held
    have active := held.active
    unfold Holds at held
    rw [overlays] at held
    exact .inl ⟨cell, held, .refl active⟩
  · intro c mem
    rcases cursors c mem with old | current
    · exact .inl old
    · rw [current]
      exact .inr ⟨Nat.le_refl _, epoch⟩

theorem becomeTentative_types (e : PredictionEngine) : e.Types e.becomeTentative := by
  unfold becomeTentative
  split
  · exact types_of_cursors rfl (fun _ mem => .inl mem) rfl (Nat.le_succ _) rfl
  · exact .refl e

theorem reset_types (e : PredictionEngine) : e.Types e.reset := by
  have emptied : e.Types { e with cursors := [], overlays := [] } := by
    refine ⟨⟨rfl, Nat.le_refl _, ?_, ?_⟩, rfl⟩
    · rintro row cell ⟨r, mem, _⟩
      exact absurd mem List.not_mem_nil
    · intro c mem
      exact absurd mem List.not_mem_nil
  exact emptied.trans (becomeTentative_types _)

/-- Typing since `before` has left a cursor of its own as the last one. -/
structure Typing (before e : PredictionEngine) : Prop extends Types before e where
  last : ∀ c ∈ e.cursors.getLast?, before.predictionEpoch ≤ c.tentativeUntilEpoch ∧
    c.tentativeUntilEpoch ≤ e.predictionEpoch

variable {before e : PredictionEngine}

theorem initCursor_typing (fb : Snapshot) (h : before.Types e) :
    before.Typing (e.initCursor fb) := by
  unfold initCursor
  split
  · rename_i fresh
    refine ⟨h, ?_⟩
    intro c last
    rw [last] at fresh
    have same : c.tentativeUntilEpoch = e.predictionEpoch := by simpa using fresh
    rw [same]
    exact ⟨h.epoch, Nat.le_refl _⟩
  · refine ⟨h.trans (types_of_cursors rfl ?_ rfl (Nat.le_refl _) rfl), ?_⟩
    · intro c mem
      rcases List.mem_append.mp mem with old | new
      · exact .inl old
      · rw [List.mem_singleton.mp new]
        exact .inr rfl
    · intro c last
      rw [List.getLast?_append_of_ne_nil _ (List.cons_ne_nil _ _), List.getLast?_singleton] at last
      cases last
      exact ⟨h.epoch, Nat.le_refl _⟩

theorem Typing.becomeTentative (h : before.Typing e) : before.Typing e.becomeTentative := by
  have types := becomeTentative_types e
  refine ⟨h.toTypes.trans types, ?_⟩
  have cursors : e.becomeTentative.cursors = e.cursors := by
    unfold PredictionEngine.becomeTentative
    split <;> rfl
  rw [cursors]
  intro c last
  obtain ⟨low, high⟩ := h.last c last
  exact ⟨low, high.trans types.epoch⟩

/-- Moving the last cursor keeps its epoch. -/
theorem Typing.modifyCursor (h : before.Typing e) {f : CursorPrediction → CursorPrediction}
    (keeps : ∀ c, (f c).tentativeUntilEpoch = c.tentativeUntilEpoch) :
    Guarded False (e.modifyCursor f) before.Typing := by
  unfold PredictionEngine.modifyCursor PredictionEngine.cursor
  apply (Guarded.unwrap.weaken False.elim).bind
  intro last isLast
  have between := h.last last isLast
  rw [← keeps last] at between
  refine .pure ⟨⟨⟨h.preference, h.epoch, h.cells, ?_⟩, h.confirmed⟩, ?_⟩
  · intro c mem
    rcases List.mem_append.mp mem with old | new
    · exact h.cursors c (List.dropLast_subset _ old)
    · rw [List.mem_singleton.mp new]
      exact .inr between
  · intro c isLast'
    rw [List.getLast?_append_of_ne_nil _ (List.cons_ne_nil _ _), List.getLast?_singleton] at isLast'
    cases isLast'
    exact between

/-- Cells that are old, or belong to an epoch from `low` to `high`. -/
def Fresh (low high : Nat) (cells cells' : List OverlayCell) : Prop :=
  ∀ c ∈ cells', c.active = true → c ∈ cells ∨ low ≤ c.tentativeUntilEpoch ∧ c.tentativeUntilEpoch ≤ high

theorem Fresh.refl {low high : Nat} (cells : List OverlayCell) : Fresh low high cells cells :=
  fun _ mem _ => .inl mem

theorem Fresh.set {low high : Nat} {cells cells' : List OverlayCell} {i : Nat} {cell : OverlayCell}
    (h : Fresh low high cells cells') (lower : low ≤ cell.tentativeUntilEpoch)
    (upper : cell.tentativeUntilEpoch ≤ high) : Fresh low high cells (cells'.set i cell) := by
  intro c mem active
  rcases List.mem_or_eq_of_mem_set mem with old | rfl
  · exact h c old active
  · exact .inr ⟨lower, upper⟩

theorem Typing.getOrMakeRow (h : before.Typing e) (rowNum numCols : Nat) :
    before.Typing (e.getOrMakeRow rowNum numCols).2 := by
  unfold PredictionEngine.getOrMakeRow
  split
  · exact h
  · refine ⟨⟨⟨h.preference, h.epoch, ?_, h.cursors⟩, h.confirmed⟩, h.last⟩
    rintro row cell ⟨r, mem, num, inside, active⟩
    rcases List.mem_append.mp mem with old | new
    · exact h.cells row cell ⟨r, old, num, inside, active⟩
    · -- the cells of a new row are inactive
      rw [List.mem_singleton.mp new] at inside
      obtain ⟨i, _, rfl⟩ := List.mem_map.mp inside
      cases active

/-- Writing to a row predicts in the epochs since `before`. -/
theorem Typing.withRow (h : before.Typing e) {idx : Nat}
    {f : List OverlayCell → Checked (List OverlayCell)}
    (writes : ∀ cells, Guarded False (f cells)
      (Fresh before.predictionEpoch e.predictionEpoch cells)) :
    Guarded False (e.withRow idx f) before.Typing := by
  unfold PredictionEngine.withRow
  apply (Guarded.getAt.weaken False.elim).bind
  intro r found
  apply (writes r.cells).bind
  intro cells fresh
  apply (Guarded.setAt.weaken False.elim).bind
  rintro overlays rfl
  refine .pure ⟨⟨⟨h.preference, h.epoch, ?_, h.cursors⟩, h.confirmed⟩, h.last⟩
  rintro row cell ⟨r', mem, num, inside, active⟩
  rcases List.mem_or_eq_of_mem_set mem with old | rfl
  · exact h.cells row cell ⟨r', old, num, inside, active⟩
  · rcases fresh cell inside active with old | between
    · exact h.cells row cell ⟨r, List.mem_of_getElem? found, num, old, active⟩
    · exact .inr between

@[simp] theorem epoch_getOrMakeRow (rowNum numCols : Nat) (e : PredictionEngine) :
    (e.getOrMakeRow rowNum numCols).2.predictionEpoch = e.predictionEpoch := by
  unfold PredictionEngine.getOrMakeRow
  split <;> rfl

/-! ### Keystrokes -/

theorem newlineCarriageReturn_typing (fb : Snapshot) (now : Nat) (h : before.Types e) :
    Guarded False (e.newlineCarriageReturn fb now) before.Typing := by
  unfold newlineCarriageReturn
  refine Guarded.bind ((initCursor_typing fb h).modifyCursor ?_) ?_
  · exact fun _ => rfl
  intro e typing
  apply (Guarded.trivial e.cursor).bind
  intro c _
  apply (Guarded.trivial (sub fb.rows 1)).bind
  intro last _
  dsimp only
  split
  · apply (typing.getOrMakeRow c.row fb.cols).withRow
    intro cells
    refine .ok ?_
    intro cell mem _
    obtain ⟨old, _, rfl⟩ := List.mem_map.mp mem
    right
    simp only [OverlayCell.expire, epoch_getOrMakeRow]
    exact ⟨typing.epoch, Nat.le_refl _⟩
  · apply (Guarded.trivial (add 16 c.row 1)).bind
    intro down _
    apply typing.modifyCursor
    exact fun _ => rfl

section Cells

variable {low high epoch : Nat} {cells₀ : List OverlayCell}

theorem shiftRight_fresh (lower : low ≤ epoch) (upper : epoch ≤ high) (fb : Snapshot)
    (row width expiration now i : Nat) {cells : List OverlayCell}
    (h : Fresh low high cells₀ cells) :
    Guarded False (shiftRight fb row width epoch expiration now i cells)
      (Fresh low high cells₀) := by
  unfold shiftRight
  apply (Guarded.trivial (getAt cells (i - 1))).bind
  intro left _
  apply (Guarded.trivial (getAt cells i)).bind
  intro cell _
  apply (Guarded.setAt.weaken False.elim).mono
  rintro _ rfl
  apply h.set
  · split <;> simpa using lower
  · split <;> simpa using upper

theorem putGlyph_fresh (lower : low ≤ epoch) (upper : epoch ≤ high) (ch : Char) (fb : Snapshot)
    (row col expiration now : Nat) {cells : List OverlayCell} (h : Fresh low high cells₀ cells) :
    Guarded False (putGlyph ch fb row col epoch expiration now cells)
      (Fresh low high cells₀) := by
  unfold putGlyph
  apply (Guarded.trivial _).bind
  intro style _
  apply (Guarded.trivial (getAt cells col)).bind
  intro cell _
  apply (Guarded.setAt.weaken False.elim).mono
  rintro _ rfl
  exact h.set lower upper

end Cells

theorem handleBackspace_typing (fb : Snapshot) (now : Nat) (h : before.Types e) :
    Guarded False (e.handleBackspace fb now) before.Typing := by
  have typing := initCursor_typing fb h
  unfold handleBackspace
  dsimp only
  apply (Guarded.trivial _).bind
  intro c _
  split
  · exact .pure typing
  · refine Guarded.bind (typing.modifyCursor ?_) ?_
    · exact fun _ => rfl
    intro e typing
    apply (typing.getOrMakeRow c.row fb.cols).withRow
    intro cells
    rw [epoch_getOrMakeRow]
    split
    · apply (Guarded.trivial _).bind
      intro cell _
      apply (Guarded.setAt.weaken False.elim).mono
      rintro _ rfl
      exact (Fresh.refl cells).set typing.epoch (Nat.le_refl _)
    · apply Guarded.forEach (Fresh.refl cells)
      intro i _ cells' fresh
      apply (Guarded.trivial (add 16 i 2)).bind
      intro second _
      apply (Guarded.trivial _).bind
      intro nextState _
      apply (Guarded.trivial (getAt cells' i)).bind
      intro cell _
      apply (Guarded.setAt.weaken False.elim).mono
      rintro _ rfl
      apply fresh.set
      · simpa using typing.epoch
      · simp

theorem handlePrint_typing (ch : Char) (fb : Snapshot) (now : Nat) (h : before.Types e) :
    Guarded False (e.handlePrint ch fb now) before.Types := by
  unfold handlePrint
  split
  · exact (handleBackspace_typing fb now h).mono fun _ typing => typing.toTypes
  split
  · exact .ok (h.trans (becomeTentative_types e))
  · have typing := initCursor_typing fb h
    dsimp only
    apply (Guarded.trivial _).bind
    intro c _
    split
    · exact .pure typing.toTypes
    · have bumped : before.Typing (if c.col + 1 ≥ fb.cols then (e.initCursor fb).becomeTentative
          else e.initCursor fb) := by
        split
        · exact typing.becomeTentative
        · exact typing
      generalize (if c.col + 1 ≥ fb.cols then (e.initCursor fb).becomeTentative
        else e.initCursor fb) = e' at bumped ⊢
      refine Guarded.bind ((bumped.getOrMakeRow c.row fb.cols).withRow ?_) ?_
      · intro cells
        rw [epoch_getOrMakeRow]
        refine Guarded.bind (p := Fresh before.predictionEpoch e'.predictionEpoch cells)
          (Guarded.forEach (Fresh.refl cells) ?_) ?_
        · intro i _ cells' fresh
          exact shiftRight_fresh bumped.epoch (Nat.le_refl _) fb c.row fb.cols _ now i fresh
        · intro cells' fresh
          exact putGlyph_fresh bumped.epoch (Nat.le_refl _) ch fb c.row c.col _ now fresh
      · intro e typing
        refine Guarded.bind (typing.modifyCursor ?_) ?_
        · exact fun _ => rfl
        intro e typing
        split
        · refine Guarded.mono (typing.modifyCursor ?_) fun _ typing => typing.toTypes
          exact fun _ => rfl
        · exact (newlineCarriageReturn_typing fb now typing.becomeTentative.toTypes).mono
            fun _ typing => typing.toTypes

theorem handleArrow_typing (move : Nat → Checked (Option Nat)) (fb : Snapshot)
    (h : before.Types e) : Guarded False (e.handleArrow move fb) before.Types := by
  have typing := initCursor_typing fb h
  unfold handleArrow
  dsimp only
  apply (Guarded.trivial _).bind
  intro c _
  apply (Guarded.trivial (move c.col)).bind
  intro next _
  cases next with
  | some col =>
    refine Guarded.mono (typing.modifyCursor ?_) fun _ typing => typing.toTypes
    exact fun _ => rfl
  | none => exact .pure typing.toTypes

/-! ### Culling -/

section Scan

variable {fb : Snapshot} {lateAck now : Nat} {experimental : Bool}

/-- What the scan of the row that held `cells` knows: its cells continue those, and
the confirmed epoch, once `confirmed`, has moved only to one of theirs. -/
structure Scanned (fb : Snapshot) (rowNum lateAck : Nat) (cells : List OverlayCell)
    (confirmed : Nat) (s : List OverlayCell × Scan) : Prop where
  kept : ∀ c ∈ s.1, c.active = true → ∃ old ∈ cells, old.Continues c
  confirmed : s.2.confirmedEpoch = confirmed ∨ confirmed < s.2.confirmedEpoch ∧
    ∃ old ∈ cells, old.Confirms fb rowNum lateAck ∧ old.tentativeUntilEpoch = s.2.confirmedEpoch

variable {rowNum confirmed : Nat} {cells₀ : List OverlayCell}

theorem Scanned.setReset {cells : List OverlayCell} {scan : Scan} {i : Nat} {c : OverlayCell}
    (h : Scanned fb rowNum lateAck cells₀ confirmed (cells, scan)) :
    Scanned fb rowNum lateAck cells₀ confirmed (cells.set i c.reset, scan) := by
  refine ⟨?_, h.confirmed⟩
  intro c' mem active
  rcases List.mem_or_eq_of_mem_set mem with old | rfl
  · exact h.kept c' old active
  · cases active

theorem Scanned.withScan {cells : List OverlayCell} {scan scan' : Scan}
    (h : Scanned fb rowNum lateAck cells₀ confirmed (cells, scan))
    (same : scan'.confirmedEpoch = scan.confirmedEpoch) :
    Scanned fb rowNum lateAck cells₀ confirmed (cells, scan') := by
  refine ⟨h.kept, ?_⟩
  dsimp only
  rw [same]
  exact h.confirmed

theorem Scanned.restyle {cells : List OverlayCell} {scan : Scan}
    (h : Scanned fb rowNum lateAck cells₀ confirmed (cells, scan)) (style : Style) (j : Nat) :
    Scanned fb rowNum lateAck cells₀ confirmed (restyle style j cells, scan) := by
  refine ⟨?_, h.confirmed⟩
  intro c mem active
  rcases List.mem_append.mp mem with front | back
  · exact h.kept c (List.mem_of_mem_take front) active
  · obtain ⟨k, inside, rfl⟩ := List.mem_map.mp back
    obtain ⟨old, old_mem, continues⟩ := h.kept k (List.mem_of_mem_drop inside) active
    exact ⟨old, old_mem, continues.trans ⟨active, rfl, rfl, rfl, rfl, ⟨style, rfl⟩, rfl⟩⟩

/-- A cell that came true raises the confirmed epoch to its own. -/
theorem Scanned.confirm {cells : List OverlayCell} {scan : Scan} {c : OverlayCell}
    (h : Scanned fb rowNum lateAck cells₀ confirmed (cells, scan)) (mem : c ∈ cells)
    (confirms : c.Confirms fb rowNum lateAck) :
    Scanned fb rowNum lateAck cells₀ confirmed
      (cells, { scan with confirmedEpoch := max scan.confirmedEpoch c.tentativeUntilEpoch }) := by
  refine ⟨h.kept, ?_⟩
  dsimp only
  by_cases raised : scan.confirmedEpoch < c.tentativeUntilEpoch
  · obtain ⟨old, old_mem, continues⟩ := h.kept c mem confirms.active
    rw [Nat.max_eq_right (Nat.le_of_lt raised)]
    have floor : confirmed ≤ scan.confirmedEpoch := by
      rcases h.confirmed with same | ⟨higher, _⟩
      · exact Nat.le_of_eq same.symm
      · exact Nat.le_of_lt higher
    exact .inr ⟨Nat.lt_of_le_of_lt floor raised, old, old_mem, confirms.of_continues continues,
      continues.epoch.symm⟩
  · rw [Nat.max_eq_left (Nat.not_lt.mp raised)]
    exact h.confirmed

theorem scanCell_scanned (j : Nat) {s : List OverlayCell × Scan}
    (h : Scanned fb rowNum lateAck cells₀ confirmed s) :
    Guarded False (scanCell fb rowNum lateAck now experimental j s)
      (Scanned fb rowNum lateAck cells₀ confirmed) := by
  obtain ⟨cells, scan⟩ := s
  unfold scanCell
  split
  · exact .ok h
  · apply (Guarded.getAt.weaken False.elim).bind
    intro cell found
    cases verdict : cell.getValidity fb rowNum lateAck with
    | error e => exact .error id
    | ok validity =>
      apply Guarded.bind (p := fun v => v = validity) (.ok rfl)
      rintro validity rfl
      cases validity with
      | incorrectOrExpired =>
        dsimp only
        split
        · apply (Guarded.setAt.weaken False.elim).bind
          rintro _ rfl
          exact .pure h.setReset
        split
        · exact .pure (h.withScan rfl)
        · exact .pure (h.withScan rfl)
      | correct =>
        have confirms := OverlayCell.confirms_of_getValidity verdict
        have raised := h.confirm (List.mem_of_getElem? found) confirms
        dsimp only
        apply Guarded.bind (Guarded.trivial _)
        intro cell' _
        apply (Guarded.setAt.weaken False.elim).bind
        rintro _ rfl
        refine .pure (Scanned.setReset (Scanned.withScan ?_ (?_ : _ = Scan.confirmedEpoch
          { scan with confirmedEpoch := max scan.confirmedEpoch cell.tentativeUntilEpoch })))
        · split
          · exact raised.restyle _ j
          · exact raised
        · split <;> rfl
      | correctNoCredit =>
        apply (Guarded.setAt.weaken False.elim).bind
        rintro _ rfl
        exact .pure h.setReset
      | pending =>
        refine .pure (h.withScan ?_)
        split
        · rfl
        · split <;> rfl
      | inactive => exact .pure h

/-- The same of the scan over a whole overlay. -/
structure ScannedRows (fb : Snapshot) (lateAck : Nat) (rows : List OverlayRow) (confirmed : Nat)
    (s : List OverlayRow × Scan) : Prop where
  kept : ∀ row' ∈ s.1, ∃ row ∈ rows, row'.rowNum = row.rowNum ∧
    ∀ c ∈ row'.cells, c.active = true → ∃ old ∈ row.cells, old.Continues c
  confirmed : s.2.confirmedEpoch = confirmed ∨ confirmed < s.2.confirmedEpoch ∧
    ∃ row ∈ rows, ∃ old ∈ row.cells, old.Confirms fb row.rowNum lateAck ∧
      old.tentativeUntilEpoch = s.2.confirmedEpoch

theorem scanRow_scanned (row : OverlayRow) (scan : Scan) :
    Guarded False (scanRow fb lateAck now experimental row scan) fun s =>
      s.1.rowNum = row.rowNum ∧
        Scanned fb row.rowNum lateAck row.cells scan.confirmedEpoch (s.1.cells, s.2) := by
  have start : Scanned fb row.rowNum lateAck row.cells scan.confirmedEpoch (row.cells, scan) :=
    ⟨fun c mem active => ⟨c, mem, .refl active⟩, .inl rfl⟩
  unfold scanRow
  refine Guarded.bind (Guarded.forEach start fun j _ s scanned => scanCell_scanned j scanned) ?_
  rintro ⟨cells, scan'⟩ scanned
  exact .pure ⟨rfl, scanned⟩

theorem scanRows_scanned (rows : List OverlayRow) (scan : Scan) :
    Guarded False (scanRows fb lateAck now experimental rows scan)
      (ScannedRows fb lateAck rows scan.confirmedEpoch) := by
  have untouched (row : OverlayRow) : row.rowNum = row.rowNum ∧
      ∀ c ∈ row.cells, c.active = true → ∃ old ∈ row.cells, old.Continues c :=
    ⟨rfl, fun c mem active => ⟨c, mem, .refl active⟩⟩
  induction rows generalizing scan with
  | nil => exact .ok ⟨fun _ mem => absurd mem List.not_mem_nil, .inl rfl⟩
  | cons row rest ih =>
    refine Guarded.bind (scanRow_scanned row scan) ?_
    rintro ⟨row', scan'⟩ ⟨num, scanned⟩
    have first : scan'.confirmedEpoch = scan.confirmedEpoch ∨
        scan.confirmedEpoch < scan'.confirmedEpoch ∧ ∃ r ∈ row :: rest, ∃ old ∈ r.cells,
          old.Confirms fb r.rowNum lateAck ∧ old.tentativeUntilEpoch = scan'.confirmedEpoch := by
      rcases scanned.confirmed with same | ⟨higher, old, mem, confirms⟩
      · exact .inl same
      · exact .inr ⟨higher, row, List.mem_cons_self, old, mem, confirms⟩
    dsimp only
    split
    · refine .pure ⟨?_, first⟩
      intro r mem
      rcases List.mem_cons.mp mem with rfl | later
      · exact ⟨row, List.mem_cons_self, num, scanned.kept⟩
      · exact ⟨r, List.mem_cons_of_mem _ later, untouched r⟩
    · refine Guarded.bind (ih scan') ?_
      rintro ⟨rest', scan''⟩ scannedRest
      refine .pure ⟨?_, ?_⟩
      · intro r mem
        rcases List.mem_cons.mp mem with rfl | later
        · exact ⟨row, List.mem_cons_self, num, scanned.kept⟩
        · obtain ⟨old, old_mem, kept⟩ := scannedRest.kept r later
          exact ⟨old, List.mem_cons_of_mem _ old_mem, kept⟩
      · rcases scannedRest.confirmed with same | ⟨higher, r, mem, old, inside, confirms⟩
        · dsimp only at same ⊢
          rw [same]
          exact first
        · right
          have floor : scan.confirmedEpoch ≤ scan'.confirmedEpoch := by
            rcases first with same | ⟨raised, _⟩
            · exact Nat.le_of_eq same.symm
            · exact Nat.le_of_lt raised
          exact ⟨Nat.lt_of_le_of_lt floor higher, r, List.mem_cons_of_mem _ mem, old, inside,
            confirms⟩

end Scan

theorem killEpoch_types (fb : Snapshot) (epoch : Nat) (e : PredictionEngine) :
    Guarded False (e.killEpoch fb epoch) e.Types := by
  unfold killEpoch
  apply (Guarded.trivial (sub epoch 1)).bind
  intro floor _
  refine .pure (Types.trans ?_ (becomeTentative_types _))
  refine ⟨⟨rfl, Nat.le_refl _, ?_, ?_⟩, rfl⟩
  · rintro row cell ⟨r, mem, num, inside, active⟩
    obtain ⟨old, old_mem, rfl⟩ := List.mem_map.mp mem
    obtain ⟨c, c_mem, rfl⟩ := List.mem_map.mp inside
    split at active
    · cases active
    · rename_i kept
      rw [if_neg kept]
      exact .inl ⟨c, ⟨old, old_mem, num, c_mem, active⟩, .refl active⟩
  · intro c mem
    rcases List.mem_append.mp mem with old | new
    · exact .inl (List.mem_filter.mp old).1
    · rw [List.mem_singleton.mp new]
      exact .inr ⟨Nat.le_refl _, Nat.le_refl _⟩

theorem cullCursors_types (fb : Snapshot) (lateAck : Nat) (e : PredictionEngine) :
    e.Types (e.cullCursors fb lateAck) := by
  unfold cullCursors
  dsimp only
  split
  · split
    · exact types_of_cursors rfl (fun _ mem => absurd mem List.not_mem_nil) rfl (Nat.le_refl _) rfl
    · exact reset_types e
  · exact types_of_cursors rfl (fun _ mem => .inl (List.mem_filter.mp mem).1) rfl (Nat.le_refl _) rfl

/-- What culling against `fb` does: it descends, and raises the confirmed epoch at
most to that of a prediction which `fb` confirms. -/
structure Culls (fb : Snapshot) (before after : PredictionEngine) : Prop
    extends Descends before after where
  confirmed : after.confirmedEpoch = before.confirmedEpoch ∨
    before.confirmedEpoch < after.confirmedEpoch ∧ ∃ row cell, before.Holds row cell ∧
      cell.Confirms fb row before.localFrameLateAcked ∧
      cell.tentativeUntilEpoch = after.confirmedEpoch

theorem Types.culls {before after : PredictionEngine} (h : before.Types after) (fb : Snapshot) :
    Culls fb before after :=
  ⟨h.toDescends, .inl h.confirmed⟩

theorem Culls.types {fb : Snapshot} {a b c : PredictionEngine} (first : Culls fb a b)
    (second : b.Types c) : Culls fb a c := by
  refine ⟨first.toDescends.trans second.toDescends, ?_⟩
  rw [second.confirmed]
  exact first.confirmed

/-- A change of size forgets every prediction before the scan. -/
theorem sized_types (fb : Snapshot) (e : PredictionEngine) :
    let e' := if e.lastHeight ≠ fb.rows ∨ e.lastWidth ≠ fb.cols then
      { e with lastHeight := fb.rows, lastWidth := fb.cols }.reset else e
    e.Types e' ∧ e'.overlays ⊆ e.overlays ∧ e'.localFrameLateAcked = e.localFrameLateAcked := by
  dsimp only
  split
  · refine ⟨Types.trans ?_ (reset_types _), ?_, ?_⟩
    · exact types_of_cursors rfl (fun _ mem => .inl mem) rfl (Nat.le_refl _) rfl
    · unfold reset becomeTentative
      split <;> exact List.nil_subset _
    · unfold reset becomeTentative
      split <;> rfl
  · exact ⟨.refl e, List.Subset.refl _, rfl⟩

theorem cull_culls (fb : Snapshot) (now : Nat) (e : PredictionEngine) :
    Guarded False (e.cull fb now) (Culls fb e) := by
  unfold cull
  split
  · exact .ok ((Types.refl e).culls fb)
  · obtain ⟨sized, overlays, lateAck⟩ := sized_types fb e
    dsimp only
    generalize (if e.lastHeight ≠ fb.rows ∨ e.lastWidth ≠ fb.cols then
      { e with lastHeight := fb.rows, lastWidth := fb.cols }.reset else e) = e₁ at sized overlays lateAck ⊢
    refine Guarded.bind (scanRows_scanned _ _) ?_
    rintro ⟨rows, scan⟩ scanned
    have culled : Culls fb e { e₁.updateTriggers with
        overlays := rows, confirmedEpoch := scan.confirmedEpoch,
        glitchTrigger := scan.glitchTrigger, lastQuickConfirmation := scan.lastQuick } := by
      refine ⟨⟨sized.preference, sized.epoch, ?_, sized.cursors⟩, ?_⟩
      · rintro row cell ⟨r, mem, num, inside, active⟩
        obtain ⟨old, old_mem, same, kept⟩ := scanned.kept r mem
        obtain ⟨c, c_mem, continues⟩ := kept cell inside active
        have old_row := overlays (List.mem_filter.mp old_mem).1
        exact .inl ⟨c, ⟨old, old_row, same.symm.trans num, c_mem, continues.active⟩, continues⟩
      · rcases scanned.confirmed with same | ⟨higher, r, mem, old, inside, confirms, epoch⟩
        · exact .inl (same.trans sized.confirmed)
        · have old_row := overlays (List.mem_filter.mp mem).1
          have confirms' : old.Confirms fb r.rowNum e.localFrameLateAcked := lateAck ▸ confirms
          exact .inr ⟨sized.confirmed ▸ higher, r.rowNum, old,
            ⟨r, old_row, rfl, inside, confirms.active⟩, confirms', epoch⟩
    dsimp only
    split
    · exact .pure (culled.types (reset_types _))
    · refine Guarded.bind (Guarded.forEach culled ?_) ?_
      · intro epoch _ e' culled'
        exact (killEpoch_types fb epoch e').mono fun _ types => culled'.types types
      · intro e' culled'
        exact .pure (culled'.types (cullCursors_types fb _ e'))

theorem newUserByte_culls (byte : UInt8) (fb : Snapshot) (now : Nat) {e : PredictionEngine}
    (normal : e.displayPreference ≠ .experimental) :
    Guarded False (e.newUserByte byte fb now) (Culls fb e) := by
  unfold newUserByte
  split
  · exact .ok ((Types.refl e).culls fb)
  · dsimp only
    refine Guarded.bind (cull_culls fb now e) ?_
    intro e₁ culled
    refine Guarded.bind (Guarded.trivial _) ?_
    rintro ⟨parser, action⟩ _
    have parsed : e₁.Types { e₁ with parser } :=
      types_of_cursors rfl (fun _ mem => .inl mem) rfl (Nat.le_refl _) rfl
    have ended := culled.types (parsed.trans (becomeTentative_types _))
    cases action with
    | print ch =>
      exact (handlePrint_typing ch fb now parsed).mono fun _ types => culled.types types
    | execute b =>
      dsimp only
      split
      · exact (newlineCarriageReturn_typing fb now (parsed.trans (becomeTentative_types _))).mono
          fun _ typing => culled.types typing.toTypes
      · exact .pure ended
    | escDispatch => exact .pure ended
    | csiDispatch finalByte =>
      dsimp only
      split
      · exact (handleArrow_typing _ fb parsed).mono fun _ types => culled.types types
      split
      · exact (handleArrow_typing _ fb parsed).mono fun _ types => culled.types types
      · exact .pure ended
    | none => exact .pure (culled.types parsed)

end PredictionEngine

end Posh.Remote
