import Posh.Remote.Overlays

/-!
Culling retires predictions.

The scan of `cull` judges each cell in its row's order. Behind it a cell is inactive, is still
to be answered, or belongs to an epoch that is about to be killed; the kills then leave only
the cells that are still to be answered. `Culled` says what is left, for the frame that was
culled against.
-/

namespace Posh.Remote

open Posh.Lib Posh.Term

namespace OverlayCell

/-- Which cells a verdict leaves alone. -/
structure Judged (lateAck : Nat) (c : OverlayCell) (v : Validity) : Prop where
  pending : v = .pending → lateAck < c.expirationFrame
  inactive : v = .inactive → c.active = false

theorem getValidity_judged (fb : Snapshot) (row lateAck : Nat) (c : OverlayCell) :
    Guarded fb.Matches (c.getValidity fb row lateAck) (c.Judged lateAck) := by
  have judged {v : Validity} (late : v ≠ .pending) (active : v ≠ .inactive) : c.Judged lateAck v :=
    ⟨fun eq => absurd eq late, fun eq => absurd eq active⟩
  have wrong : c.Judged lateAck .incorrectOrExpired := judged (by decide) (by decide)
  have kept : c.Judged lateAck .correctNoCredit := judged (by decide) (by decide)
  unfold getValidity
  split
  · rename_i inactive
    refine .ok ⟨?_, fun _ => by simpa using inactive⟩
    intro eq
    cases eq
  split
  · exact .ok wrong
  rename_i inside
  obtain ⟨row_lt, col_lt⟩ := not_or.mp inside
  split
  · rename_i early
    refine .ok ⟨fun _ => early, ?_⟩
    intro eq
    cases eq
  split
  · exact .ok kept
  split
  · exact .ok kept
  have shown : Guarded fb.Matches (unwrap (fb.cell row c.col)) fun _ => True := by
    refine (Guarded.unwrap.weaken fun sized => ?_).mono fun _ _ => trivial
    obtain ⟨cell, found⟩ := sized.cell (Nat.not_le.mp row_lt) (Nat.not_le.mp col_lt)
    rw [found]
    rfl
  refine shown.bind fun current _ => ?_
  split
  · split
    · exact .pure kept
    · exact .pure (judged (by decide) (by decide))
  · exact .pure wrong

/-- A cell the scan has passed: it is inactive, still to be answered, or condemned. -/
def Settled (lateAck : Nat) (kills : List Nat) (c : OverlayCell) : Prop :=
  c.active = true → lateAck < c.expirationFrame ∨ c.tentativeUntilEpoch ∈ kills

theorem Settled.mono {lateAck : Nat} {kills kills' : List Nat} {c : OverlayCell}
    (h : c.Settled lateAck kills) (sub : kills ⊆ kills') : c.Settled lateAck kills' :=
  fun active => (h active).imp_right fun condemned => sub condemned

theorem settled_reset (lateAck : Nat) (kills : List Nat) (c : OverlayCell) :
    c.reset.Settled lateAck kills :=
  fun active => by cases active

end OverlayCell

/-- The frame's size, for the predictions of `L`. -/
def Limits.resize (fb : Snapshot) (L : Limits) : Limits :=
  { L with rows := fb.rows, cols := fb.cols }

namespace PredictionEngine

variable {L : Limits} {e : PredictionEngine} {fb : Snapshot}

/-! ### The scan -/

section Scan

variable {lateAck now rowNum n : Nat} {experimental : Bool} {kills₀ : List Nat}

/-- The scan of a row has come to column `n`. -/
structure Scanning (L : Limits) (lateAck : Nat) (kills₀ : List Nat) (n : Nat)
    (s : List OverlayCell × Scan) : Prop where
  aligned : Aligned L s.1
  epochs : ∀ k ∈ s.2.killEpochs, 1 ≤ k
  kept : kills₀ ⊆ s.2.killEpochs
  settled : s.2.doReset = false → ∀ i < n, ∀ c ∈ s.1[i]?, c.Settled lateAck s.2.killEpochs

/-- The cell at hand is left as it is. -/
theorem Scanning.pass {s : List OverlayCell × Scan} (h : Scanning L lateAck kills₀ n s)
    {scan : Scan} (epochs : ∀ k ∈ scan.killEpochs, 1 ≤ k) (kept : s.2.killEpochs ⊆ scan.killEpochs)
    (same : scan.doReset = false → s.2.doReset = false)
    (settled : scan.doReset = false → ∀ c ∈ s.1[n]?, c.Settled lateAck scan.killEpochs) :
    Scanning L lateAck kills₀ (n + 1) (s.1, scan) := by
  refine ⟨h.aligned, epochs, fun k mem => kept (h.kept mem), ?_⟩
  intro going i le c found
  rcases Nat.lt_succ_iff_lt_or_eq.mp le with before | rfl
  · exact (h.settled (same going) i before c found).mono kept
  · exact settled going c found

/-- The cell at hand is reset. -/
theorem Scanning.setReset {s : List OverlayCell × Scan} (h : Scanning L lateAck kills₀ n s)
    {c : OverlayCell} (found : s.1[n]? = some c) :
    Scanning L lateAck kills₀ (n + 1) (s.1.set n c.reset, s.2) := by
  refine ⟨h.aligned.setReset found, h.epochs, h.kept, ?_⟩
  intro going i le x there
  rcases Nat.lt_succ_iff_lt_or_eq.mp le with before | rfl
  · rw [List.getElem?_set_ne (Nat.ne_of_gt before)] at there
    exact h.settled going i before x there
  · obtain ⟨inside, -⟩ := List.getElem?_eq_some_iff.mp found
    rw [List.getElem?_set_self inside] at there
    cases there
    exact OverlayCell.settled_reset _ _ c

/-- Renditions change from the cell at hand on. -/
theorem Scanning.restyle {s : List OverlayCell × Scan} (h : Scanning L lateAck kills₀ n s)
    (style : Style) : Scanning L lateAck kills₀ n (restyle style n s.1, s.2) := by
  refine ⟨h.aligned.restyle style n, h.epochs, h.kept, ?_⟩
  intro going i before x there
  unfold PredictionEngine.restyle at there
  by_cases inside : i < s.1.length
  · rw [List.getElem?_append_left (by rw [List.length_take]; omega),
      List.getElem?_take_of_lt before] at there
    exact h.settled going i before x there
  · rw [List.getElem?_eq_none] at there
    · cases there
    · rw [List.length_append, List.length_map, List.length_take, List.length_drop]
      omega

theorem Scanning.withScan {s : List OverlayCell × Scan} (h : Scanning L lateAck kills₀ n s)
    {scan : Scan} (kills : scan.killEpochs = s.2.killEpochs) (going : scan.doReset = s.2.doReset) :
    Scanning L lateAck kills₀ n (s.1, scan) := by
  refine ⟨h.aligned, ?_, ?_, ?_⟩
  · rw [kills]
    exact h.epochs
  · rw [kills]
    exact h.kept
  · rw [kills, going]
    exact h.settled

theorem scanCell_scanning {s : List OverlayCell × Scan} (inside : n < s.1.length)
    (h : Scanning L lateAck kills₀ n s) :
    Guarded fb.Matches (scanCell fb rowNum lateAck now experimental n s)
      (Scanning L lateAck kills₀ (n + 1)) := by
  obtain ⟨cells, scan⟩ := s
  unfold scanCell
  split
  · rename_i stopped
    refine .ok (h.pass h.epochs (List.Subset.refl _) id ?_)
    intro going
    rw [stopped] at going
    cases going
  refine (Guarded.of_yields (Yields.getAt inside)).bind ?_
  rintro cell ⟨found, mem⟩
  have set (cell' : OverlayCell) (cells' : List OverlayCell) (length : cells'.length = cells.length) :
      Guarded fb.Matches (setAt cells' n cell') (· = cells'.set n cell') :=
    .of_yields (.setAt (length ▸ inside))
  have left {scan' : Scan} (kills : scan'.killEpochs = scan.killEpochs)
      (going : scan'.doReset = scan.doReset) (settled : cell.Settled lateAck scan.killEpochs) :
      Scanning L lateAck kills₀ (n + 1) (cells, scan') := by
    refine h.pass (kills ▸ h.epochs) (kills ▸ List.Subset.refl _) (going ▸ id) ?_
    intro _ c there
    rw [Option.mem_def, found] at there
    cases there
    rw [kills]
    exact settled
  refine (OverlayCell.getValidity_judged fb rowNum lateAck cell).bind ?_
  intro verdict judged
  cases verdict with
  | incorrectOrExpired =>
    dsimp only
    split
    · refine (set _ cells rfl).bind ?_
      rintro _ rfl
      exact .pure (h.setReset found)
    split
    · -- the epoch of the cell is condemned
      rename_i tentative
      have later : scan.confirmedEpoch < cell.tentativeUntilEpoch := by
        simpa [OverlayCell.tentative] using tentative
      refine .pure (h.pass ?_ (List.subset_append_left _ _) id ?_)
      · intro k condemned
        rcases List.mem_append.mp condemned with old | new
        · exact h.epochs k old
        · rw [List.mem_singleton.mp new]
          exact Nat.one_le_of_lt later
      · intro _ c there
        rw [Option.mem_def, found] at there
        cases there
        exact fun _ => .inr (List.mem_append_right _ (List.mem_singleton.mpr rfl))
    · refine .pure (h.pass h.epochs (List.Subset.refl _) (fun going => by cases going) ?_)
      intro going
      cases going
  | correct =>
    have finish {cells' : List OverlayCell} {scan' : Scan}
        (styled : Scanning L lateAck kills₀ n (cells', scan))
        (kills : scan'.killEpochs = scan.killEpochs) (going : scan'.doReset = scan.doReset) :
        Guarded fb.Matches (getAt cells' n >>= fun cell => setAt cells' n cell.reset >>= fun cells =>
          pure (cells, scan')) (Scanning L lateAck kills₀ (n + 1)) := by
      have length : cells'.length = cells.length :=
        styled.aligned.length.trans h.aligned.length.symm
      refine (Guarded.of_yields (Yields.getAt (length ▸ inside))).bind ?_
      rintro cell' ⟨found', -⟩
      refine (set _ cells' length).bind ?_
      rintro _ rfl
      exact .pure ((styled.withScan kills going).setReset found')
    dsimp only
    cases fb.cell rowNum cell.col with
    | some actual =>
      refine finish (h.restyle actual.style) ?_ ?_
      · split <;> rfl
      · split <;> rfl
    | none =>
      refine finish h ?_ ?_
      · split <;> rfl
      · split <;> rfl
  | correctNoCredit =>
    refine (set _ cells rfl).bind ?_
    rintro _ rfl
    exact .pure (h.setReset found)
  | pending =>
    refine .pure (left ?_ ?_ fun _ => .inl (judged.pending rfl))
    · split
      · rfl
      · split <;> rfl
    · split
      · rfl
      · split <;> rfl
  | inactive =>
    refine .pure (left rfl rfl ?_)
    rw [OverlayCell.Settled, judged.inactive rfl]
    exact fun active => by cases active

/-- The scan has passed the rows that held `rows`. -/
structure Swept (L : Limits) (lateAck : Nat) (kills₀ : List Nat) (rows : List OverlayRow)
    (s : List OverlayRow × Scan) : Prop where
  nums : s.1.map (·.rowNum) = rows.map (·.rowNum)
  aligned : ∀ r ∈ s.1, Aligned L r.cells
  epochs : ∀ k ∈ s.2.killEpochs, 1 ≤ k
  kept : kills₀ ⊆ s.2.killEpochs
  settled : s.2.doReset = false → ∀ r ∈ s.1, ∀ c ∈ r.cells, c.Settled lateAck s.2.killEpochs

theorem scanRow_swept {row : OverlayRow} {scan : Scan} (aligned : Aligned L row.cells)
    (epochs : ∀ k ∈ scan.killEpochs, 1 ≤ k) :
    Guarded fb.Matches (scanRow fb lateAck now experimental row scan) fun s =>
      Swept L lateAck scan.killEpochs [row] ([s.1], s.2) := by
  have start : Scanning L lateAck scan.killEpochs 0 (row.cells, scan) :=
    ⟨aligned, epochs, List.Subset.refl _, fun _ i before => absurd before (Nat.not_lt_zero i)⟩
  unfold scanRow
  refine Guarded.bind (Guarded.forRange_index (Nat.zero_le _) start ?_) ?_
  · intro n s _ before scanning
    exact scanCell_scanning (scanning.aligned.length.trans aligned.length.symm ▸ before) scanning
  rintro ⟨cells, scan'⟩ done
  have length : cells.length = row.cells.length := done.aligned.length.trans aligned.length.symm
  refine .pure ⟨rfl, ?_, done.epochs, done.kept, ?_⟩
  · intro r mem
    rw [List.mem_singleton.mp mem]
    exact done.aligned
  · intro going r mem c inside
    rw [List.mem_singleton.mp mem] at inside
    obtain ⟨i, before, rfl⟩ := List.mem_iff_getElem.mp inside
    exact done.settled going i (length ▸ before) _ (List.getElem?_eq_getElem before)

theorem scanRows_swept {rows : List OverlayRow} {scan : Scan}
    (aligned : ∀ r ∈ rows, Aligned L r.cells) (epochs : ∀ k ∈ scan.killEpochs, 1 ≤ k) :
    Guarded fb.Matches (scanRows fb lateAck now experimental rows scan)
      (Swept L lateAck scan.killEpochs rows) := by
  induction rows generalizing scan with
  | nil =>
    exact .ok ⟨rfl, aligned, epochs, List.Subset.refl _, fun _ r mem => absurd mem List.not_mem_nil⟩
  | cons row rest ih =>
    have others := fun r mem => aligned r (List.mem_cons_of_mem row mem)
    unfold scanRows
    refine (scanRow_swept (aligned row List.mem_cons_self) epochs).bind ?_
    rintro ⟨row', scan'⟩ first
    have num : row'.rowNum = row.rowNum := List.head_eq_of_cons_eq first.nums
    have row_aligned := first.aligned row' List.mem_cons_self
    dsimp only
    split
    · rename_i stopped
      refine .pure ⟨?_, ?_, first.epochs, first.kept, ?_⟩
      · rw [List.map_cons, List.map_cons, num]
      · exact List.forall_mem_cons.mpr ⟨row_aligned, others⟩
      · intro going
        rw [stopped] at going
        cases going
    · rename_i unstopped
      refine (ih others first.epochs).bind ?_
      rintro ⟨rest', scan''⟩ later
      refine .pure ⟨?_, ?_, later.epochs, fun k mem => later.kept (first.kept mem), ?_⟩
      · rw [List.map_cons, List.map_cons, num, later.nums]
      · exact List.forall_mem_cons.mpr ⟨row_aligned, later.aligned⟩
      · intro going
        refine List.forall_mem_cons.mpr ⟨?_, later.settled going⟩
        intro c mem
        have passed := first.settled (Bool.eq_false_iff.mpr unstopped) row' List.mem_cons_self c mem
        exact passed.mono later.kept

end Scan

/-! ### What is left -/

/-- The engine behind the scan, when the epochs `kills` are still to be killed; the cursors
stand in the frame under the assumption `p`. -/
structure Culled (L : Limits) (lateAck : Nat) (p : Prop) (kills : List Nat) (e : PredictionEngine) :
    Prop extends Fits L e where
  settled : ∀ r ∈ e.overlays, ∀ c ∈ r.cells, c.Settled lateAck kills
  inside : p → e.Inside L

/-- The engine behind a cull: each prediction is still to be answered. -/
structure Retired (L : Limits) (lateAck : Nat) (p : Prop) (e : PredictionEngine) : Prop
    extends Culled L lateAck p [] e where
  awaited : ∀ c ∈ e.cursors, lateAck < c.expirationFrame

/-- Whatever is asked of predictions, there are none. -/
theorem retired_reset (lateAck : Nat) (p : Prop) (driven : e.Driven L) :
    e.reset.Retired L lateAck p := by
  obtain ⟨fits, inside⟩ := fits_reset driven
  have empty : e.reset.overlays = [] ∧ e.reset.cursors = [] := by
    unfold PredictionEngine.reset PredictionEngine.becomeTentative
    split <;> exact ⟨rfl, rfl⟩
  refine ⟨⟨fits, ?_, fun _ => inside⟩, ?_⟩
  · rw [empty.1]
    exact fun r mem => absurd mem List.not_mem_nil
  · rw [empty.2]
    exact fun c mem => absurd mem List.not_mem_nil

theorem Culled.becomeTentative {lateAck : Nat} {p : Prop} {kills : List Nat}
    (h : e.Culled L lateAck p kills) : e.becomeTentative.Culled L lateAck p kills := by
  refine ⟨h.toFits.becomeTentative, ?_, fun holds => (h.inside holds).becomeTentative⟩
  unfold PredictionEngine.becomeTentative
  split <;> exact h.settled

section Kill

variable {lateAck epoch : Nat} {p : Prop} {kills : List Nat}

/-- Killing an epoch resets what it condemned. -/
theorem killEpoch_culled (positive : 1 ≤ epoch)
    (place : p → fb.cursorRow < L.rows ∧ fb.cursorCol < L.cols)
    (h : e.Culled L lateAck p (epoch :: kills)) :
    Yields (e.killEpoch fb epoch) (Culled L lateAck p kills) := by
  unfold killEpoch
  refine (Yields.sub positive).bind ?_
  rintro _ rfl
  refine .pure (Culled.becomeTentative ⟨⟨?_, ?_, ?_, h.driven⟩, ?_, ?_⟩)
  · rw [List.map_map]
    exact h.distinct
  · intro r mem
    obtain ⟨r₀, mem₀, rfl⟩ := List.mem_map.mp mem
    obtain ⟨row_lt, aligned⟩ := h.rows r₀ mem₀
    refine ⟨row_lt, aligned.map ?_ ?_ ?_⟩
    · intro c
      split <;> rfl
    · intro c inside
      split
      · intro active
        cases active
      · exact aligned.expires c inside
    · intro holds c inside
      split
      · intro active
        cases active
      · exact aligned.narrow holds c inside
  · intro c mem
    rcases List.mem_append.mp mem with old | new
    · exact h.cursors c (List.mem_filter.mp old).1
    · rw [List.mem_singleton.mp new]
      exact h.sent
  · intro r mem c inside
    obtain ⟨r₀, mem₀, rfl⟩ := List.mem_map.mp mem
    obtain ⟨c₀, inside₀, rfl⟩ := List.mem_map.mp inside
    split
    · exact OverlayCell.settled_reset _ _ c₀
    · rename_i kept
      intro active
      refine (h.settled r₀ mem₀ c₀ inside₀ active).imp_right fun condemned => ?_
      refine (List.mem_cons.mp condemned).resolve_left fun same => kept ?_
      rw [OverlayCell.tentative, decide_eq_true_eq, same]
      omega
  · intro holds c mem
    rcases List.mem_append.mp mem with old | new
    · exact h.inside holds c (List.mem_filter.mp old).1
    · rw [List.mem_singleton.mp new]
      exact place holds

theorem killEpochs_culled (positive : ∀ k ∈ kills, 1 ≤ k)
    (place : p → fb.cursorRow < L.rows ∧ fb.cursorCol < L.cols)
    (h : e.Culled L lateAck p kills) :
    Yields (forEach kills e (killEpoch fb)) (Culled L lateAck p []) := by
  induction kills generalizing e with
  | nil => exact .ok h
  | cons epoch rest ih =>
    obtain ⟨first, others⟩ := List.forall_mem_cons.mp positive
    exact (killEpoch_culled first place h).bind fun _ killed => ih others killed

/-- Of the cursors, those that are still to be answered are left. -/
theorem cullCursors_retired (h : e.Culled L lateAck p []) :
    (e.cullCursors fb lateAck).Retired L lateAck p := by
  have pending {cursors : List CursorPrediction} (sub : cursors ⊆ e.cursors) :
      ({ e with cursors := cursors.filter (·.getValidity fb lateAck = .pending) } :
        PredictionEngine).Retired L lateAck p := by
    refine ⟨⟨⟨h.distinct, h.rows, ?_, h.driven⟩, h.settled, ?_⟩, ?_⟩
    · exact fun c mem => h.cursors c (sub (List.mem_filter.mp mem).1)
    · exact fun holds c mem => h.inside holds c (sub (List.mem_filter.mp mem).1)
    · intro c mem
      have judged := of_decide_eq_true (List.mem_filter.mp mem).2
      unfold CursorPrediction.getValidity at judged
      split at judged
      · cases judged
      split at judged
      · cases judged
      split at judged
      · split at judged <;> cases judged
      · rename_i early
        exact Nat.not_le.mp early
  unfold cullCursors
  dsimp only
  split
  · split
    · exact pending (List.nil_subset _)
    · exact retired_reset lateAck p h.driven
  · exact pending (List.Subset.refl _)

end Kill

/-- A frame of another size is begun without predictions. -/
theorem Fits.resize (h : e.Fits L) {p : Prop} (inside : p → e.Inside L) (fb : Snapshot) :
    let e' := if e.lastHeight ≠ fb.rows ∨ e.lastWidth ≠ fb.cols then
      { e with lastHeight := fb.rows, lastWidth := fb.cols }.reset else e
    e'.Fits (L.resize fb) ∧ (p → e'.Inside (L.resize fb)) := by
  obtain ⟨height, width, sent, room, preference, buffered⟩ := h.driven
  dsimp only
  split
  · have driven : ({ e with lastHeight := fb.rows, lastWidth := fb.cols } :
        PredictionEngine).Driven (L.resize fb) := ⟨rfl, rfl, sent, room, preference, buffered⟩
    obtain ⟨fits, inside⟩ := fits_reset driven
    exact ⟨fits, fun _ => inside⟩
  · rename_i same
    obtain ⟨rows, cols⟩ := not_or.mp same
    have same : L.resize fb = L := by
      unfold Limits.resize
      rw [← not_not.mp rows, ← not_not.mp cols, height, width]
    rw [same]
    exact ⟨h, inside⟩

/-- Culling fits the predictions to the frame, and leaves those still to be answered. -/
theorem cull_retired (fb : Snapshot) (now : Nat) {p : Prop}
    (place : p → fb.cursorRow < fb.rows ∧ fb.cursorCol < fb.cols) (h : e.Fits L)
    (inside : p → e.Inside L) :
    Guarded fb.Matches (e.cull fb now)
      (Retired (L.resize fb) e.localFrameLateAcked p) := by
  obtain ⟨-, -, -, -, preference, -⟩ := h.driven
  obtain ⟨fits, inside⟩ := h.resize inside fb
  have lateAck := (sized_types fb e).2.2
  unfold cull
  rw [if_neg preference]
  dsimp only
  generalize (if e.lastHeight ≠ fb.rows ∨ e.lastWidth ≠ fb.cols then
    { e with lastHeight := fb.rows, lastWidth := fb.cols }.reset else e) = e₁
    at fits inside lateAck ⊢
  rw [← lateAck]
  have aligned : ∀ r ∈ e₁.updateTriggers.overlays.filter (·.rowNum < fb.rows),
      Aligned (L.resize fb) r.cells :=
    fun r mem => (fits.rows r (List.mem_filter.mp mem).1).2
  refine Guarded.bind (scanRows_swept aligned ?_) ?_
  · exact fun k mem => absurd mem List.not_mem_nil
  rintro ⟨rows, scan⟩ swept
  have nums : ∀ r ∈ rows, r.rowNum < fb.rows := by
    intro r mem
    have mem' : r.rowNum ∈ rows.map (·.rowNum) := List.mem_map_of_mem mem
    rw [swept.nums] at mem'
    obtain ⟨r₀, mem₀, num⟩ := List.mem_map.mp mem'
    rw [← num]
    exact of_decide_eq_true (List.mem_filter.mp mem₀).2
  have left : ({ e₁.updateTriggers with
      overlays := rows, confirmedEpoch := scan.confirmedEpoch,
      glitchTrigger := scan.glitchTrigger, lastQuickConfirmation := scan.lastQuick } :
      PredictionEngine).Fits (L.resize fb) := by
    refine ⟨?_, fun r mem => ⟨nums r mem, swept.aligned r mem⟩, fits.cursors, fits.driven⟩
    rw [swept.nums]
    exact fits.distinct.sublist (List.filter_sublist.map _)
  dsimp only
  split
  · exact .pure (retired_reset _ p left.driven)
  · rename_i going
    have culled := killEpochs_culled swept.epochs place
      ⟨left, swept.settled (Bool.eq_false_iff.mpr going), inside⟩
    refine (Guarded.of_yields culled).bind ?_
    intro e₂ culled
    exact .pure (cullCursors_retired culled)

end PredictionEngine

end Posh.Remote
