import Posh.Remote.Verdicts
import Mathlib.Data.List.Induction

/-!
The cull that `cull` is ported from (`zz-mosh/src/frontend/terminaloverlay.cc`).

There a wrong tentative prediction kills its epoch on the spot, before the next cell is
examined; `cull` collects the epochs and kills them behind the scan.
-/

namespace Posh.Remote

open Posh.Lib Posh.Term

namespace PredictionEngine

/-- The last cursor prediction was wrong, so that everything is reset. -/
def cursorWrong (fb : Snapshot) (lateAck : Nat) (e : PredictionEngine) : Bool :=
  e.cursors.getLast?.any (·.getValidity fb lateAck = .incorrectOrExpired) &&
    e.displayPreference ≠ .experimental

/-- The size and the triggers, which `cull` looks at first. -/
def updateSize (fb : Snapshot) (e : PredictionEngine) : PredictionEngine :=
  let e :=
    if e.lastHeight ≠ fb.rows ∨ e.lastWidth ≠ fb.cols then
      { e with lastHeight := fb.rows, lastWidth := fb.cols }.reset
    else e
  e.updateTriggers

/-- The rest of `cull`, and whether a wrong prediction made it reset. -/
def cullPredictions (fb : Snapshot) (now : Nat) (e : PredictionEngine) :
    Checked (PredictionEngine × Bool) := do
  let lateAck := e.localFrameLateAcked
  let (overlays, scan) ← scanRows fb lateAck now (e.displayPreference = .experimental)
    (e.overlays.filter (·.rowNum < fb.rows))
    { confirmedEpoch := e.confirmedEpoch, glitchTrigger := e.glitchTrigger,
      lastQuick := e.lastQuickConfirmation }
  let e := { e with
    overlays, confirmedEpoch := scan.confirmedEpoch, glitchTrigger := scan.glitchTrigger,
    lastQuickConfirmation := scan.lastQuick }
  if scan.doReset then return (e.reset, true)
  else
    let e ← forEach scan.killEpochs e (killEpoch fb)
    return (e.cullCursors fb lateAck, e.cursorWrong fb lateAck)

/-- `cull`, and whether a wrong prediction made it reset. -/
def cullReports (fb : Snapshot) (now : Nat) (e : PredictionEngine) :
    Checked (PredictionEngine × Bool) :=
  if e.displayPreference = .never then .ok (e, false)
  else (e.updateSize fb).cullPredictions fb now

theorem cull_eq_reports (fb : Snapshot) (now : Nat) (e : PredictionEngine) :
    e.cull fb now = e.cullReports fb now >>= fun r => pure r.1 := by
  unfold cull cullReports cullPredictions updateSize
  split
  · rfl
  · simp only [bind_assoc]
    refine congrArg _ (funext fun r => ?_)
    split
    · rfl
    · rw [bind_assoc]
      rfl

end PredictionEngine

/-! ### The reference -/

namespace TerminalOverlay

/-- A confirmed prediction that came quickly cures the glitch trigger a little. -/
def repairGlitch (now : Nat) (cell : OverlayCell) (e : PredictionEngine) : PredictionEngine :=
  if now - cell.predictionTime < GLITCH_THRESHOLD ∧ e.glitchTrigger > 0 ∧
      now - GLITCH_REPAIR_MININTERVAL ≥ e.lastQuickConfirmation then
    { e with glitchTrigger := e.glitchTrigger - 1, lastQuickConfirmation := now }
  else e

/-- A prediction that takes long to be confirmed is a glitch. -/
def flagGlitch (now : Nat) (cell : OverlayCell) (e : PredictionEngine) : PredictionEngine :=
  if now - cell.predictionTime ≥ GLITCH_FLAG_THRESHOLD then
    { e with glitchTrigger := GLITCH_REPAIR_COUNT * 2 }
  else if now - cell.predictionTime ≥ GLITCH_THRESHOLD ∧ e.glitchTrigger < GLITCH_REPAIR_COUNT then
    { e with glitchTrigger := GLITCH_REPAIR_COUNT }
  else e

/-- `j->reset()` -/
def resetCell (j : Nat) (cells : List OverlayCell) : Checked (List OverlayCell) := do
  let cell ← getAt cells j
  setAt cells j cell.reset

/-- The cell `j` of the overlay row `i`. The flag says that `cull` has reset and returned. -/
def cullCell (fb : Snapshot) (lateAck now : Nat) (experimental : Bool) (i j : Nat)
    (s : PredictionEngine × Bool) : Checked (PredictionEngine × Bool) :=
  if s.2 then .ok s
  else do
    let e := s.1
    let row ← getAt e.overlays i
    let cell ← getAt row.cells j
    let validity ← cell.getValidity fb row.rowNum lateAck
    match validity with
    | .incorrectOrExpired =>
        if cell.tentative e.confirmedEpoch then
          if experimental then
            let e ← e.withRow i (resetCell j)
            return (e, false)
          else
            let e ← e.killEpoch fb cell.tentativeUntilEpoch
            return (e, false)
        else if experimental then
          let e ← e.withRow i (resetCell j)
          return (e, false)
        else return (e.reset, true)
    | .correct =>
        let e :=
          if cell.tentativeUntilEpoch > e.confirmedEpoch then
            { e with confirmedEpoch := cell.tentativeUntilEpoch }
          else e
        let e := repairGlitch now cell e
        let e ← e.withRow i fun cells =>
          -- the rest of the row is matched to the actual renditions
          resetCell j <| (fb.cell row.rowNum cell.col).elim cells fun actual =>
            PredictionEngine.restyle actual.style j cells
        return (e, false)
    | .correctNoCredit =>
        let e ← e.withRow i (resetCell j)
        return (e, false)
    | .pending => return (flagGlitch now cell e, false)
    | .inactive => return (e, false)

/-- The rows from `i` on, of which there are `left`. -/
def cullRows (fb : Snapshot) (lateAck now : Nat) (experimental : Bool) (left i : Nat)
    (e : PredictionEngine) : Checked (PredictionEngine × Bool) :=
  match left with
  | 0 => .ok (e, false)
  | left + 1 => do
      let row ← getAt e.overlays i
      if row.rowNum ≥ fb.rows then
        cullRows fb lateAck now experimental left i { e with overlays := e.overlays.eraseIdx i }
      else
        let s ← forRange 0 row.cells.length (e, false) (cullCell fb lateAck now experimental i)
        if s.2 then return s
        else cullRows fb lateAck now experimental left (i + 1) s.1

/-- `PredictionEngine::cull`, and whether a wrong prediction made it reset. Its `kill_epoch`,
`reset`, `get_validity`, triggers and cursor predictions are those of the port. -/
def cull (fb : Snapshot) (now : Nat) (e : PredictionEngine) : Checked (PredictionEngine × Bool) :=
  if e.displayPreference = .never then .ok (e, false)
  else do
    let e := e.updateSize fb
    let lateAck := e.localFrameLateAcked
    let s ← cullRows fb lateAck now (e.displayPreference = .experimental) e.overlays.length 0 e
    if s.2 then return s
    else return (s.1.cullCursors fb lateAck, s.1.cursorWrong fb lateAck)

end TerminalOverlay

/-! ### Kills -/

/-- A cell once the epochs have been killed. -/
def OverlayCell.killed (kills : List Nat) (c : OverlayCell) : OverlayCell :=
  if Outcome.Condemned kills c.tentativeUntilEpoch then c.reset else c

def OverlayRow.killed (kills : List Nat) (r : OverlayRow) : OverlayRow :=
  { r with cells := r.cells.map (OverlayCell.killed kills) }

namespace OverlayCell

variable {kills : List Nat} {c : OverlayCell}

theorem killed_of_condemned (dead : Outcome.Condemned kills c.tentativeUntilEpoch) :
    c.killed kills = c.reset :=
  if_pos dead

theorem killed_of_living (living : ¬ Outcome.Condemned kills c.tentativeUntilEpoch) :
    c.killed kills = c :=
  if_neg living

theorem killed_reset (kills : List Nat) (c : OverlayCell) : c.reset.killed kills = c.reset := by
  unfold killed
  split <;> rfl

theorem reset_killed (kills : List Nat) (c : OverlayCell) : (c.killed kills).reset = c.reset := by
  unfold killed
  split <;> rfl

theorem killed_nil (c : OverlayCell) : c.killed [] = c :=
  killed_of_living fun ⟨_, mem, _⟩ => absurd mem List.not_mem_nil

theorem killed_append (kills : List Nat) (k : Nat) (c : OverlayCell) :
    c.killed (kills ++ [k]) = (c.killed kills).killed [k] := by
  by_cases dead : Outcome.Condemned kills c.tentativeUntilEpoch
  · rw [killed_of_condemned dead, killed_reset, killed_of_condemned]
    exact Outcome.condemned_append.mpr (.inl dead)
  rw [killed_of_living dead]
  by_cases later : k ≤ c.tentativeUntilEpoch
  · rw [killed_of_condemned (Outcome.condemned_append.mpr (.inr later)),
      killed_of_condemned ⟨k, List.mem_singleton.mpr rfl, later⟩]
  · rw [killed_of_living, killed_of_living]
    · rintro ⟨k', mem, le⟩
      rw [List.mem_singleton.mp mem] at le
      exact later le
    · exact fun condemned => (Outcome.condemned_append.mp condemned).elim dead later

end OverlayCell

namespace OverlayRow

theorem killed_nil (r : OverlayRow) : r.killed [] = r := by
  unfold killed
  rw [List.map_congr_left (g := id) fun c _ => OverlayCell.killed_nil c, List.map_id]

theorem killed_append (kills : List Nat) (k : Nat) (r : OverlayRow) :
    r.killed (kills ++ [k]) = (r.killed kills).killed [k] := by
  unfold killed
  rw [List.map_map]
  exact congrArg _ (List.map_congr_left fun c _ => OverlayCell.killed_append kills k c)

end OverlayRow

namespace PredictionEngine

/-- The engine once the epoch has been killed. -/
def killed (fb : Snapshot) (e : PredictionEngine) (epoch : Nat) : PredictionEngine :=
  let fresh : CursorPrediction :=
    { active := true, tentativeUntilEpoch := e.predictionEpoch,
      expirationFrame := e.localFrameSent + 1, row := fb.cursorRow, col := fb.cursorCol }
  let kept := e.cursors.filter fun c => !c.tentative (epoch - 1)
  { e with
    cursors := kept ++ [fresh], overlays := e.overlays.map (OverlayRow.killed [epoch]) }.becomeTentative

theorem killEpoch_eq {epoch : Nat} (positive : 1 ≤ epoch) (fb : Snapshot) (e : PredictionEngine) :
    e.killEpoch fb epoch = .ok (e.killed fb epoch) := by
  have same (c : OverlayCell) :
      (if c.tentative (epoch - 1) then c.reset else c) = c.killed [epoch] := by
    have iff : Outcome.Condemned [epoch] c.tentativeUntilEpoch ↔ c.tentative (epoch - 1) = true := by
      unfold Outcome.Condemned OverlayCell.tentative
      rw [decide_eq_true_eq]
      simp only [List.mem_singleton, exists_eq_left]
      omega
    unfold OverlayCell.killed
    exact if_congr iff.symm rfl rfl
  unfold killEpoch killed
  rw [sub_eq_ok positive]
  change Except.ok _ = Except.ok _
  simp only [same]
  rfl

theorem killEpochs_eq {kills : List Nat} (positive : ∀ k ∈ kills, 1 ≤ k) (fb : Snapshot)
    (e : PredictionEngine) : forEach kills e (killEpoch fb) = .ok (kills.foldl (killed fb) e) := by
  induction kills generalizing e with
  | nil => rfl
  | cons k rest ih =>
    obtain ⟨first, others⟩ := List.forall_mem_cons.mp positive
    change (e.killEpoch fb k >>= _) = _
    rw [killEpoch_eq first]
    exact ih others _

/-- Kills do not look at what the scan has found out. -/
theorem killed_with (fb : Snapshot) (e : PredictionEngine) (epoch : Nat) (overlays : List OverlayRow)
    (confirmedEpoch glitchTrigger lastQuickConfirmation : Nat) :
    ({ e with overlays, confirmedEpoch, glitchTrigger, lastQuickConfirmation } :
      PredictionEngine).killed fb epoch =
      { e.killed fb epoch with
        overlays := overlays.map (OverlayRow.killed [epoch]), confirmedEpoch, glitchTrigger,
        lastQuickConfirmation } := by
  unfold killed becomeTentative
  dsimp only
  split <;> rfl

/-- What the scan has found out so far, on top of the engine `base`. -/
def withScan (overlays : List OverlayRow) (scan : Scan) (base : PredictionEngine) :
    PredictionEngine :=
  { base with
    overlays, confirmedEpoch := scan.confirmedEpoch, glitchTrigger := scan.glitchTrigger,
    lastQuickConfirmation := scan.lastQuick }

theorem killEpochs_withScan (fb : Snapshot) (base : PredictionEngine) (overlays : List OverlayRow)
    (scan : Scan) (kills : List Nat) :
    kills.foldl (killed fb) (base.withScan overlays scan) =
      (kills.foldl (killed fb) base).withScan (overlays.map (OverlayRow.killed kills)) scan := by
  induction kills using List.reverseRecOn with
  | nil =>
    have same : overlays.map (OverlayRow.killed []) = overlays := by
      rw [List.map_congr_left (g := id) fun r _ => OverlayRow.killed_nil r, List.map_id]
    rw [same]
    rfl
  | append_singleton kills k ih =>
    rw [List.foldl_append, List.foldl_append, ih]
    change killed fb (withScan _ _ _) k = _
    unfold withScan
    rw [killed_with, List.map_map]
    have same : OverlayRow.killed [k] ∘ OverlayRow.killed kills = OverlayRow.killed (kills ++ [k]) :=
      funext fun r => (OverlayRow.killed_append kills k r).symm
    rw [same]
    rfl

end PredictionEngine

/-! ### One step of the reference -/

namespace TerminalOverlay

open PredictionEngine

variable {fb : Snapshot} {lateAck now i j : Nat} {e : PredictionEngine} {r : OverlayRow}
  {c : OverlayCell}

/-- The engine behind a verdict on the cell `c`, in column `j` of the overlay row `i`. -/
def After (fb : Snapshot) (e : PredictionEngine) (i : Nat) (r : OverlayRow) (c : OverlayCell)
    (v : Validity) (j : Nat) (s : PredictionEngine × Bool) : Prop :=
  if v = .incorrectOrExpired then
    if e.confirmedEpoch < c.tentativeUntilEpoch then
      s = (e.killed fb c.tentativeUntilEpoch, false)
    else s = (e.reset, true)
  else ∃ glitchTrigger lastQuickConfirmation, s = ({ e with
    overlays := e.overlays.set i { r with cells := retire fb r.rowNum c v j r.cells }
    confirmedEpoch :=
      if v = .correct then max e.confirmedEpoch c.tentativeUntilEpoch else e.confirmedEpoch
    glitchTrigger, lastQuickConfirmation }, false)

theorem resetCell_eq {cells : List OverlayCell} (inside : j < cells.length) :
    resetCell j cells = .ok (cells.modify j (·.reset)) := by
  unfold resetCell
  rw [getAt_eq_ok inside]
  change setAt cells j cells[j].reset = _
  rw [List.modify_eq_set_getElem?, List.getElem?_eq_getElem inside]
  exact if_pos inside

theorem withRow_eq (found : e.overlays[i]? = some r)
    {f : List OverlayCell → Checked (List OverlayCell)} {cells : List OverlayCell}
    (writes : f r.cells = .ok cells) :
    e.withRow i f = .ok { e with overlays := e.overlays.set i { r with cells } } := by
  obtain ⟨inside, eq⟩ := List.getElem?_eq_some_iff.mp found
  unfold withRow
  rw [getAt_eq_ok inside, eq]
  change (f r.cells >>= _) = _
  rw [writes]
  change (setAt e.overlays i { r with cells } >>= _) = _
  unfold setAt
  rw [if_pos inside]
  rfl

/-- The row is as it was. -/
theorem set_same (found : e.overlays[i]? = some r) : e.overlays.set i r = e.overlays := by
  obtain ⟨inside, rfl⟩ := List.getElem?_eq_some_iff.mp found
  exact List.set_getElem_self inside

theorem cullCell_after (foundRow : e.overlays[i]? = some r) (found : r.cells[j]? = some c) :
    Guarded fb.Matches (cullCell fb lateAck now false i j (e, false)) fun s =>
      ∃ v, c.getValidity fb r.rowNum lateAck = .ok v ∧ After fb e i r c v j s := by
  obtain ⟨inside, eq⟩ := List.getElem?_eq_some_iff.mp foundRow
  obtain ⟨inside', eq'⟩ := List.getElem?_eq_some_iff.mp found
  unfold cullCell
  rw [if_neg Bool.false_ne_true]
  dsimp only
  rw [getAt_eq_ok inside, eq]
  change Guarded _ (getAt r.cells j >>= _) _
  rw [getAt_eq_ok inside', eq']
  change Guarded _ (c.getValidity fb r.rowNum lateAck >>= _) _
  refine Guarded.bind (OverlayCell.getValidity_guarded fb r.rowNum lateAck c) ?_
  intro v verdict
  cases v with
  | incorrectOrExpired =>
    dsimp only
    by_cases later : e.confirmedEpoch < c.tentativeUntilEpoch
    · rw [if_pos (by simpa [OverlayCell.tentative] using later), if_neg Bool.false_ne_true,
        killEpoch_eq (Nat.one_le_of_lt later)]
      refine .pure ⟨_, verdict, ?_⟩
      unfold After
      rw [if_pos rfl, if_pos later]
    · rw [if_neg (by simpa [OverlayCell.tentative] using later), if_neg Bool.false_ne_true]
      refine .pure ⟨_, verdict, ?_⟩
      unfold After
      rw [if_pos rfl, if_neg later]
  | correct =>
    have raised : (if c.tentativeUntilEpoch > e.confirmedEpoch then
        { e with confirmedEpoch := c.tentativeUntilEpoch } else e) =
        { e with confirmedEpoch := max e.confirmedEpoch c.tentativeUntilEpoch } := by
      split
      · rename_i higher
        rw [Nat.max_eq_right (Nat.le_of_lt higher)]
      · rename_i lower
        rw [Nat.max_eq_left (Nat.not_lt.mp lower)]
    dsimp only
    rw [raised]
    generalize repaired : repairGlitch now c
      { e with confirmedEpoch := max e.confirmedEpoch c.tentativeUntilEpoch } = e'
    have same : ∃ glitchTrigger lastQuickConfirmation, e' = { e with
        confirmedEpoch := max e.confirmedEpoch c.tentativeUntilEpoch, glitchTrigger,
        lastQuickConfirmation } := by
      rw [← repaired]
      unfold repairGlitch
      split <;> exact ⟨_, _, rfl⟩
    obtain ⟨glitchTrigger, lastQuickConfirmation, same⟩ := same
    have rows : e'.overlays[i]? = some r := by
      rw [same]
      exact foundRow
    have writes : resetCell j ((fb.cell r.rowNum c.col).elim r.cells fun actual =>
        restyle actual.style j r.cells) = .ok (retire fb r.rowNum c .correct j r.cells) := by
      refine resetCell_eq ?_
      cases fb.cell r.rowNum c.col with
      | none => exact inside'
      | some actual => exact (length_restyle actual.style j r.cells).symm ▸ inside'
    have written : e'.withRow i (fun cells => resetCell j ((fb.cell r.rowNum c.col).elim cells
        fun actual => restyle actual.style j cells)) =
        .ok { e' with overlays := e'.overlays.set i { r with
          cells := retire fb r.rowNum c .correct j r.cells } } := withRow_eq rows writes
    rw [written]
    refine .pure ⟨_, verdict, ?_⟩
    subst same
    unfold After
    rw [if_neg (by decide)]
    exact ⟨_, _, rfl⟩
  | correctNoCredit =>
    dsimp only
    rw [withRow_eq foundRow (resetCell_eq inside')]
    refine .pure ⟨_, verdict, ?_⟩
    unfold After
    rw [if_neg (by decide)]
    exact ⟨_, _, rfl⟩
  | pending =>
    refine .pure ⟨_, verdict, ?_⟩
    unfold After
    rw [if_neg (by decide)]
    dsimp only [retire]
    rw [set_same foundRow]
    unfold flagGlitch
    split
    · exact ⟨_, _, rfl⟩
    · split <;> exact ⟨_, _, rfl⟩
  | inactive =>
    refine .pure ⟨_, verdict, ?_⟩
    unfold After
    rw [if_neg (by decide)]
    dsimp only [retire]
    rw [set_same foundRow]
    exact ⟨_, _, rfl⟩

end TerminalOverlay

end Posh.Remote
