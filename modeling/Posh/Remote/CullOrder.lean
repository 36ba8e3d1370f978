import Posh.Lib.Lockstep
import Posh.Remote.Predictions
import Posh.Remote.TerminalOverlay

/-!
`cull` against the cull it is ported from.

As long as no kill comes too late, the reference's engine is what the port's becomes once its
kills are carried out (`Follows`), cell by cell. Behind a kill that comes too late the two
never come to the same. So they agree exactly where `KillsInTime`.
-/

namespace Posh.Remote

open Posh.Lib Posh.Term

namespace TerminalOverlay

open PredictionEngine

variable {fb : Snapshot} {lateAck now i j : Nat} {e : PredictionEngine} {r : OverlayRow}
  {c : OverlayCell}

/-! ### In lockstep -/

section Lockstep

variable {base : PredictionEngine} {past rest overlays : List OverlayRow} {scan : Scan}
  {cells : List OverlayCell} {kills : List Nat} {fs : List Finding} {t : PredictionEngine × Bool}

theorem killed_restyle (style : Style) (j : Nat) (cells : List OverlayCell) :
    (restyle style j cells).map (OverlayCell.killed kills) =
      restyle style j (cells.map (OverlayCell.killed kills)) := by
  unfold restyle
  rw [List.map_append, List.map_take, List.map_map, ← List.map_drop, List.map_map]
  refine congrArg _ (List.map_congr_left fun c _ => ?_)
  simp only [Function.comp, OverlayCell.killed]
  split <;> rfl

theorem killed_modify (j : Nat) (cells : List OverlayCell) :
    (cells.modify j (·.reset)).map (OverlayCell.killed kills) =
      (cells.map (OverlayCell.killed kills)).modify j (·.reset) := by
  apply List.ext_getElem?
  intro k
  simp only [List.getElem?_map, List.getElem?_modify, Option.map_eq_map, Option.map_map]
  refine congrArg (Option.map · _) (funext fun c => ?_)
  simp only [Function.comp]
  split
  · rw [OverlayCell.killed_reset, OverlayCell.reset_killed]
  · rfl

/-- A verdict does the same to a row before and behind the kills. -/
theorem killed_retire (fb : Snapshot) (row : Nat) (c : OverlayCell) (v : Validity) (j : Nat)
    (cells : List OverlayCell) :
    (retire fb row c v j cells).map (OverlayCell.killed kills) =
      retire fb row c v j (cells.map (OverlayCell.killed kills)) := by
  unfold retire
  split
  · rw [killed_modify]
    cases fb.cell row c.col with
    | none => rfl
    | some actual =>
      exact congrArg (List.modify · j OverlayCell.reset) (killed_restyle actual.style j cells)
  · exact killed_modify j cells
  · rfl

/-- A cell that is killed anyway may be reset before. -/
theorem killed_modify_condemned (found : cells[j]? = some c)
    (dead : Outcome.Condemned kills c.tentativeUntilEpoch) :
    (cells.modify j (·.reset)).map (OverlayCell.killed kills) =
      cells.map (OverlayCell.killed kills) := by
  apply List.ext_getElem?
  intro k
  simp only [List.getElem?_map, List.getElem?_modify, Option.map_eq_map, Option.map_map]
  by_cases same : j = k
  · subst same
    rw [found]
    simp only [Option.map_some, Function.comp, if_true, OverlayCell.killed_reset,
      OverlayCell.killed_of_condemned dead]
  · refine congrArg (Option.map · _) (funext fun c => ?_)
    simp only [Function.comp, if_neg same]

/-- The reference has killed what the port has condemned so far. -/
structure Follows (fb : Snapshot) (base : PredictionEngine) (overlays : List OverlayRow)
    (scan : Scan) (e : PredictionEngine) : Prop where
  epochs : ∀ k ∈ scan.killEpochs, 1 ≤ k
  same : ∃ scan' : Scan, scan'.confirmedEpoch = scan.confirmedEpoch ∧
    e = (scan.killEpochs.foldl (PredictionEngine.killed fb) base).withScan
      (overlays.map (OverlayRow.killed scan.killEpochs)) scan'

/-- Both are to be reset, and nothing has been condemned before. -/
structure Stopped (base : PredictionEngine) (scan : Scan) (e : PredictionEngine) : Prop where
  kills : scan.killEpochs = []
  same : ∃ overlays, ∃ scan' : Scan, scan'.confirmedEpoch = scan.confirmedEpoch ∧
    e = (base.withScan overlays scan').reset

/-- The port, with `fs` still to be judged, and the reference have come to the same. -/
def Together (fb : Snapshot) (base : PredictionEngine) (overlays : List OverlayRow)
    (fs : List Finding) (scan : Scan) (t : PredictionEngine × Bool) : Prop :=
  if scan.doReset = true then t.2 = true ∧ Stopped base scan t.1
  else t.2 = false ∧ Follows fb base overlays scan t.1 ∧
    Undisturbed scan.confirmedEpoch scan.killEpochs fs

theorem Together.of_going {e : PredictionEngine} (follows : Follows fb base overlays scan e)
    (going : scan.doReset = false)
    (timely : Undisturbed scan.confirmedEpoch scan.killEpochs fs) :
    Together fb base overlays fs scan (e, false) := by
  unfold Together
  rw [if_neg (by simp [going])]
  exact ⟨rfl, follows, timely⟩

/-- The reference's cell where the port's stands. -/
theorem Follows.found (h : Follows fb base (past ++ { r with cells } :: rest) scan e)
    (found : cells[j]? = some c) :
    let r' : OverlayRow := ({ r with cells } : OverlayRow).killed scan.killEpochs
    e.confirmedEpoch = scan.confirmedEpoch ∧ e.overlays[past.length]? = some r' ∧
      r'.rowNum = r.rowNum ∧ r'.cells[j]? = some (c.killed scan.killEpochs) := by
  obtain ⟨scan', confirmed, rfl⟩ := h.same
  refine ⟨confirmed, ?_, rfl, ?_⟩
  · change (List.map _ _)[past.length]? = _
    simp
  · change (List.map _ cells)[j]? = _
    rw [List.getElem?_map, found]
    rfl

/-- The row at hand is rewritten. -/
theorem set_row (past rest : List OverlayRow) (r r' : OverlayRow) (kills : List Nat) :
    ((past ++ r :: rest).map (OverlayRow.killed kills)).set past.length r' =
      past.map (OverlayRow.killed kills) ++ r' :: rest.map (OverlayRow.killed kills) := by
  rw [List.map_append, List.map_cons, List.set_append_right _ _ (by rw [List.length_map]),
    List.length_map, Nat.sub_self, List.set_cons_zero]

/-- Both go on after a verdict that is not against the cell. -/
theorem Follows.retire (h : Follows fb base (past ++ { r with cells } :: rest) scan e)
    {v v' : Validity} {c' : OverlayCell} {scan₂ : Scan} {t : PredictionEngine × Bool}
    (kills : scan₂.killEpochs = scan.killEpochs) (going : scan₂.doReset = false)
    (raised : ∃ glitchTrigger lastQuickConfirmation, t = ({ e with
      overlays := e.overlays.set past.length { r with
        cells := retire fb r.rowNum c' v' j (cells.map (OverlayCell.killed scan.killEpochs)) }
      confirmedEpoch := scan₂.confirmedEpoch, glitchTrigger, lastQuickConfirmation }, false))
    (same : (PredictionEngine.retire fb r.rowNum c v j cells).map (OverlayCell.killed scan.killEpochs) =
      PredictionEngine.retire fb r.rowNum c' v' j (cells.map (OverlayCell.killed scan.killEpochs)))
    (timely : Undisturbed scan₂.confirmedEpoch scan.killEpochs fs) :
    Together fb base
      (past ++ { r with cells := PredictionEngine.retire fb r.rowNum c v j cells } :: rest) fs
      scan₂ t := by
  obtain ⟨glitchTrigger, lastQuickConfirmation, rfl⟩ := raised
  obtain ⟨scan', -, rfl⟩ := h.same
  refine .of_going ⟨kills ▸ h.epochs, ⟨scan₂.confirmedEpoch, glitchTrigger,
    lastQuickConfirmation, [], false⟩, rfl, ?_⟩ going (kills ▸ timely)
  dsimp only [PredictionEngine.withScan]
  rw [kills, set_row, ← same, List.map_append, List.map_cons]
  rfl

/-- An epoch is condemned by the one and killed by the other. -/
theorem Follows.kill {overlays : List OverlayRow} (h : Follows fb base overlays scan e)
    {epoch : Nat} (later : 1 ≤ epoch) :
    Follows fb base overlays { scan with killEpochs := scan.killEpochs ++ [epoch] }
      (PredictionEngine.killed fb e epoch) := by
  obtain ⟨scan', confirmed, rfl⟩ := h.same
  refine ⟨?_, scan', confirmed, ?_⟩
  · intro k mem
    rcases List.mem_append.mp mem with old | new
    · exact h.epochs k old
    · rw [List.mem_singleton.mp new]
      exact later
  · have killed := killEpochs_withScan fb (scan.killEpochs.foldl (PredictionEngine.killed fb) base)
      (overlays.map (OverlayRow.killed scan.killEpochs)) scan' [epoch]
    have rows : (overlays.map (OverlayRow.killed scan.killEpochs)).map (OverlayRow.killed [epoch]) =
        overlays.map (OverlayRow.killed (scan.killEpochs ++ [epoch])) := by
      rw [List.map_map]
      exact List.map_congr_left fun r _ => (OverlayRow.killed_append _ _ r).symm
    rw [rows, ← List.foldl_append] at killed
    exact killed

/-- One cell, judged by both. -/
theorem cell_together (found : cells[j]? = some c)
    (together : Together fb base (past ++ { r with cells } :: rest)
      (c.finding fb r.rowNum lateAck :: fs) scan t) :
    Lockstep fb.Matches (scanCell fb r.rowNum lateAck now false j (cells, scan))
      (cullCell fb lateAck now false past.length j t) fun s t' =>
        (∃ v, s.1 = retire fb r.rowNum c v j cells) ∧
          Together fb base (past ++ { r with cells := s.1 } :: rest) fs s.2 t' := by
  unfold Together at together
  split at together
  · rename_i stopped
    obtain ⟨ended, stop⟩ := together
    have still : cullCell fb lateAck now false past.length j t = .ok t := if_pos ended
    rw [scanCell_of_reset stopped, still]
    refine .ok ⟨⟨.pending, rfl⟩, ?_⟩
    unfold Together
    rw [if_pos stopped]
    exact ⟨ended, stop⟩
  rename_i going
  have going : scan.doReset = false := Bool.eq_false_iff.mpr going
  obtain ⟨e, ended⟩ := t
  obtain ⟨rfl, follows, timely⟩ := together
  obtain ⟨confirmed, foundRow, num, foundCell⟩ := follows.found found
  refine Guarded.mono (scanCell_after going found) ?_
  rintro ⟨_, scan₂⟩ ⟨v, verdict, rfl, after⟩
  refine Guarded.mono (cullCell_after foundRow foundCell) ?_
  rintro t' ⟨v', verdict', after'⟩
  refine ⟨⟨v, rfl⟩, ?_⟩
  have right : (c.finding fb r.rowNum lateAck).correct ↔ v = .correct :=
    ⟨fun correct => Except.ok.inj (verdict.symm.trans correct), fun eq => verdict.trans (congrArg _ eq)⟩
  have wrong : (c.finding fb r.rowNum lateAck).wrong ↔ v = .incorrectOrExpired :=
    ⟨fun wrong => Except.ok.inj (verdict.symm.trans wrong), fun eq => verdict.trans (congrArg _ eq)⟩
  rw [Undisturbed, if_congr right rfl rfl, if_congr wrong rfl rfl] at timely
  change if v = .correct then ¬ Outcome.Condemned _ c.tentativeUntilEpoch ∧ _ else
    if v = .incorrectOrExpired then if scan.confirmedEpoch < c.tentativeUntilEpoch then
      ¬ Outcome.Condemned _ c.tentativeUntilEpoch ∧ _ else _ else _ at timely
  unfold Scan.After at after
  unfold After at after'
  rw [confirmed] at after'
  by_cases dead : Outcome.Condemned scan.killEpochs c.tentativeUntilEpoch
  · -- the port still judges a cell that the reference has killed
    rw [OverlayCell.killed_of_condemned dead] at verdict' after'
    have inactive : v' = .inactive := by
      have reset : c.reset.getValidity fb r.rowNum lateAck = .ok .inactive := rfl
      exact Except.ok.inj (verdict'.symm.trans reset)
    subst inactive
    have notCorrect : v ≠ .correct := by
      rintro rfl
      exact timely.1 dead
    have notWrong : v ≠ .incorrectOrExpired := by
      rintro rfl
      rw [if_neg (by decide), if_pos rfl] at timely
      split at timely
      · exact timely.1 dead
      · rw [timely] at dead
        obtain ⟨k, mem, -⟩ := dead
        exact absurd mem List.not_mem_nil
    rw [if_neg notCorrect, if_neg notWrong] at timely
    rw [if_neg notWrong] at after
    rw [if_neg (by decide), if_neg (by decide)] at after'
    rw [if_neg notCorrect] at after
    obtain ⟨glitchTrigger, lastQuick, rfl⟩ := after
    refine follows.retire rfl going after' ?_ timely
    cases v with
    | correctNoCredit => exact killed_modify_condemned found dead
    | incorrectOrExpired => exact absurd rfl notWrong
    | correct => exact absurd rfl notCorrect
    | pending => rfl
    | inactive => rfl
  rw [OverlayCell.killed_of_living dead] at verdict' after'
  have same : v' = v := Except.ok.inj (verdict'.symm.trans verdict)
  subst same
  by_cases against : v' = .incorrectOrExpired
  · subst against
    rw [if_neg (by decide), if_pos rfl] at timely
    rw [if_pos rfl] at after after'
    by_cases later : scan.confirmedEpoch < c.tentativeUntilEpoch
    · rw [if_pos later] at after after' timely
      subst after after'
      exact .of_going (follows.kill (Nat.one_le_of_lt later)) going timely.2
    · rw [if_neg later] at after after' timely
      obtain ⟨scan', confirmed', rfl⟩ := follows.same
      subst after after'
      unfold Together
      rw [if_pos rfl]
      refine ⟨rfl, timely, (past ++ { r with cells } :: rest).map (OverlayRow.killed []), scan',
        confirmed', ?_⟩
      rw [timely]
      rfl
  · rw [if_neg against] at after after' timely
    obtain ⟨glitchTrigger, lastQuick, rfl⟩ := after
    refine follows.retire rfl going after' (killed_retire _ _ _ _ _ _) ?_
    split at timely
    · rename_i correct
      rw [if_pos correct]
      exact timely.2
    · rename_i other
      rw [if_neg other]
      exact timely

/-- One row, scanned by both. -/
theorem row_together (together : Together fb base (past ++ r :: rest)
      (r.findings fb lateAck ++ fs) scan t) :
    Lockstep fb.Matches (scanRow fb lateAck now false r scan)
      (forRange 0 r.cells.length t (cullCell fb lateAck now false past.length)) fun s t' =>
        Together fb base (past ++ s.1 :: rest) fs s.2 t' := by
  let left (n : Nat) (s : List OverlayCell × Scan) (t : PredictionEngine × Bool) : Prop :=
    s.1.length = r.cells.length ∧ Together fb base (past ++ { r with cells := s.1 } :: rest)
      ((s.1.drop n).map (·.finding fb r.rowNum lateAck) ++ fs) s.2 t
  have start : left 0 (r.cells, scan) t := ⟨rfl, together⟩
  unfold scanRow
  rw [← bind_pure (forRange 0 r.cells.length t _)]
  refine (Lockstep.forRange_index (Nat.zero_le _) start ?_).bind ?_
  · rintro n ⟨cells, scan⟩ t - before ⟨length, together⟩
    have inside : n < cells.length := length ▸ before
    dsimp only at together
    rw [List.drop_eq_getElem_cons inside, List.map_cons, List.cons_append] at together
    refine (cell_together (List.getElem?_eq_getElem inside) together).mono ?_
    rintro ⟨_, scan'⟩ t' ⟨⟨v, rfl⟩, together'⟩
    refine ⟨(length_retire _ _ _ _ _ _).trans length, ?_⟩
    dsimp only at together' ⊢
    rw [finding_retire]
    exact together'
  · rintro ⟨cells, scan'⟩ t' ⟨length, together'⟩
    refine .pure ?_
    dsimp only at length together' ⊢
    rw [← length, List.drop_length, List.map_nil, List.nil_append] at together'
    exact together'

theorem Together.of_stopped (together : Together fb base overlays fs scan t)
    (stopped : scan.doReset = true) (overlays' : List OverlayRow) (fs' : List Finding) :
    t.2 = true ∧ Together fb base overlays' fs' scan t := by
  unfold Together at together ⊢
  rw [if_pos stopped] at together ⊢
  exact ⟨together.1, together⟩

theorem Together.going (together : Together fb base overlays fs scan t)
    (going : scan.doReset = false) : t.2 = false ∧ Follows fb base overlays scan t.1 ∧
      Undisturbed scan.confirmedEpoch scan.killEpochs fs := by
  unfold Together at together
  rwa [if_neg (by simp [going])] at together

/-- The findings of the scan, in its order. -/
def findings (fb : Snapshot) (lateAck : Nat) (rows : List OverlayRow) : List Finding :=
  (rows.filter (·.rowNum < fb.rows)).flatMap (·.findings fb lateAck)

/-- All rows, those outside the frame left out by both. -/
theorem rows_together (going : scan.doReset = false) (follows : Follows fb base (past ++ rest) scan e)
    (timely : Undisturbed scan.confirmedEpoch scan.killEpochs (findings fb lateAck rest)) :
    Lockstep fb.Matches (scanRows fb lateAck now false (rest.filter (·.rowNum < fb.rows)) scan)
      (cullRows fb lateAck now false rest.length past.length e) fun s t =>
        Together fb base (past ++ s.1) [] s.2 t := by
  induction rest generalizing past scan e with
  | nil => exact .ok (.of_going follows going trivial)
  | cons r rest ih =>
    have found : e.overlays[past.length]? = some (r.killed scan.killEpochs) := by
      obtain ⟨scan', -, rfl⟩ := follows.same
      change (List.map _ _)[past.length]? = _
      simp
    obtain ⟨inside, eq⟩ := List.getElem?_eq_some_iff.mp found
    have length : (r.killed scan.killEpochs).cells.length = r.cells.length := List.length_map _
    rw [List.length_cons]
    unfold cullRows
    rw [getAt_eq_ok inside, eq]
    change Lockstep _ _ (if r.rowNum ≥ fb.rows then _ else forRange 0 _ _ _ >>= _) _
    by_cases within : r.rowNum < fb.rows
    · rw [List.filter_cons_of_pos (by simpa using within), if_neg (Nat.not_le.mpr within), length]
      unfold findings at timely
      rw [List.filter_cons_of_pos (by simpa using within), List.flatMap_cons] at timely
      unfold scanRows
      refine (row_together (.of_going follows going timely)).bind ?_
      rintro ⟨r', scan'⟩ t together
      dsimp only at together ⊢
      cases stop : scan'.doReset with
      | true =>
        obtain ⟨ended, still⟩ := together.of_stopped stop
          (past ++ r' :: rest.filter (·.rowNum < fb.rows)) []
        rw [if_pos rfl, if_pos ended]
        exact .pure still
      | false =>
        obtain ⟨ended, follows', timely'⟩ := together.going stop
        have follows' : Follows fb base ((past ++ [r']) ++ rest) scan' t.1 := by
          rw [List.append_assoc]
          exact follows'
        have later := ih stop follows' timely'
        rw [List.length_append, List.length_singleton] at later
        rw [if_neg Bool.false_ne_true, if_neg (by simp [ended]),
          ← bind_pure (cullRows fb lateAck now false rest.length (past.length + 1) t.1)]
        refine later.bind ?_
        rintro ⟨rest', scan''⟩ t' together'
        refine .pure ?_
        rw [List.append_assoc] at together'
        exact together'
    · have outside : (decide (r.rowNum < fb.rows)) = false := by simpa using within
      rw [List.filter_cons_of_neg (by simp [outside]), if_pos (Nat.not_lt.mp within)]
      unfold findings at timely
      rw [List.filter_cons_of_neg (by simp [outside])] at timely
      refine ih going ⟨follows.epochs, ?_⟩ timely
      obtain ⟨scan', confirmed, rfl⟩ := follows.same
      refine ⟨scan', confirmed, ?_⟩
      have erased : ((past ++ r :: rest).map (OverlayRow.killed scan.killEpochs)).eraseIdx
          past.length = (past ++ rest).map (OverlayRow.killed scan.killEpochs) := by
        rw [List.map_append, List.map_cons, List.eraseIdx_append_of_length_le
          (by rw [List.length_map]), List.length_map, Nat.sub_self, List.eraseIdx_zero,
          List.tail_cons, ← List.map_append]
      rw [← erased]
      rfl

end Lockstep

/-! ### The reference by itself -/

/-- What the reference finds where the scan without kills finds `f`. -/
def Stands (kills : List Nat) (f g : Finding) : Prop :=
  if Outcome.Condemned kills f.epoch then g.verdict = .ok .inactive else g = f

theorem Stands.killed {kills : List Nat} {f : Finding} {row : Nat}
    (h : Stands kills f (c.finding fb row lateAck)) (k : Nat) :
    Stands (kills ++ [k]) f ((c.killed [k]).finding fb row lateAck) := by
  have condemned : Outcome.Condemned [k] c.tentativeUntilEpoch ↔ k ≤ c.tentativeUntilEpoch := by
    unfold Outcome.Condemned
    simp
  unfold Stands at h ⊢
  by_cases dead : Outcome.Condemned kills f.epoch
  · rw [if_pos dead] at h
    rw [if_pos (Outcome.condemned_append.mpr (.inl dead))]
    unfold OverlayCell.killed
    split
    · rfl
    · exact h
  rw [if_neg dead] at h
  subst h
  change ¬ Outcome.Condemned kills c.tentativeUntilEpoch at dead
  change if Outcome.Condemned (kills ++ [k]) c.tentativeUntilEpoch then _ else _
  by_cases later : k ≤ c.tentativeUntilEpoch
  · rw [if_pos (Outcome.condemned_append.mpr (.inr later)),
      OverlayCell.killed_of_condemned (condemned.mpr later)]
    rfl
  · rw [if_neg fun both => (Outcome.condemned_append.mp both).elim dead later,
      OverlayCell.killed_of_living fun both => later (condemned.mp both)]

/-- The row `r` of the reference, from column `n` on, where the port has `r₀`. -/
structure Laid (fb : Snapshot) (lateAck n : Nat) (kills : List Nat) (r₀ r : OverlayRow) : Prop where
  num : r.rowNum = r₀.rowNum
  length : r.cells.length = r₀.cells.length
  stands : List.Forall₂ (Stands kills) ((r₀.findings fb lateAck).drop n)
    ((r.findings fb lateAck).drop n)

theorem Laid.refl (fb : Snapshot) (lateAck : Nat) (r : OverlayRow) : Laid fb lateAck 0 [] r r := by
  refine ⟨rfl, rfl, List.forall₂_same.mpr fun f _ => ?_⟩
  unfold Stands
  rw [if_neg fun ⟨_, mem, _⟩ => absurd mem List.not_mem_nil]

theorem Laid.killed {n : Nat} {kills : List Nat} {r₀ r : OverlayRow} (h : Laid fb lateAck n kills r₀ r)
    (k : Nat) : Laid fb lateAck n (kills ++ [k]) r₀ (r.killed [k]) := by
  refine ⟨h.num, (List.length_map _).trans h.length, ?_⟩
  have stands := h.stands
  unfold OverlayRow.findings at stands ⊢
  change List.Forall₂ _ _ (((r.cells.map (OverlayCell.killed [k])).map
    (·.finding fb r.rowNum lateAck)).drop n)
  simp only [← List.map_drop, List.map_map] at stands ⊢
  refine List.forall₂_map_right_iff.mpr ((List.forall₂_map_right_iff.mp stands).imp ?_)
  exact fun f c stands => stands.killed k

/-- The cell at hand of the reference. -/
theorem Laid.here {n : Nat} {kills : List Nat} {r₀ r : OverlayRow}
    (h : Laid fb lateAck n kills r₀ r) {f : Finding}
    (found : (r₀.findings fb lateAck)[n]? = some f) :
    ∃ c, r.cells[n]? = some c ∧ Stands kills f (c.finding fb r.rowNum lateAck) := by
  obtain ⟨bound, eq⟩ := List.getElem?_eq_some_iff.mp found
  have inside : n < r.cells.length := by
    rw [OverlayRow.findings, List.length_map] at bound
    exact h.length ▸ bound
  have bound' : n < (r.findings fb lateAck).length := by
    rw [OverlayRow.findings, List.length_map]
    exact inside
  have same : (r.findings fb lateAck)[n] = r.cells[n].finding fb r.rowNum lateAck :=
    List.getElem_map _
  have stands := h.stands
  rw [List.drop_eq_getElem_cons bound, List.drop_eq_getElem_cons bound', eq, same] at stands
  exact ⟨r.cells[n], List.getElem?_eq_getElem inside, (List.forall₂_cons.mp stands).1⟩

/-- Retiring the cell at hand leaves those behind it. -/
theorem Laid.retire {n : Nat} {kills : List Nat} {r₀ r : OverlayRow}
    (h : Laid fb lateAck n kills r₀ r) (c : OverlayCell) (v : Validity) :
    Laid fb lateAck (n + 1) kills r₀
      { r with cells := retire fb r.rowNum c v n r.cells } := by
  refine ⟨h.num, (length_retire _ _ _ _ _ _).trans h.length, ?_⟩
  have behind := List.forall₂_drop 1 h.stands
  rw [List.drop_drop, List.drop_drop] at behind
  have same := finding_retire fb r.rowNum lateAck c v n r.cells
  rw [List.map_drop, List.map_drop] at same
  unfold OverlayRow.findings at behind ⊢
  dsimp only
  rw [same]
  exact behind

/-- The engine and the flag come to the outcome, `begun` epochs behind those there were. -/
structure Tally (begun : Nat) (o : Outcome) (t : PredictionEngine × Bool) : Prop where
  confirmed : t.1.confirmedEpoch = o.confirmed
  epoch : t.1.predictionEpoch = begun + o.kills.length + if o.reset then 1 else 0
  reset : t.2 = o.reset
  normal : t.1.displayPreference ≠ .experimental

/-- The rows of the reference from column `n` of the row `i` on. -/
def Standing (fb : Snapshot) (lateAck n i : Nat) (r₀ : OverlayRow) (rest₀ : List OverlayRow)
    (kills : List Nat) (overlays : List OverlayRow) : Prop :=
  ∃ past r rest, overlays = past ++ r :: rest ∧ past.length = i ∧ Laid fb lateAck n kills r₀ r ∧
    List.Forall₂ (Laid fb lateAck 0 kills) rest₀ rest

section Tally

variable {begun n : Nat} {o : Outcome} {r₀ : OverlayRow} {rest₀ rest : List OverlayRow}

theorem predictionEpoch_killed (fb : Snapshot) (normal : e.displayPreference ≠ .experimental)
    (k : Nat) : (e.killed fb k).predictionEpoch = e.predictionEpoch + 1 ∧
      (e.killed fb k).displayPreference = e.displayPreference ∧
      (e.killed fb k).confirmedEpoch = e.confirmedEpoch ∧
      (e.killed fb k).overlays = e.overlays.map (OverlayRow.killed [k]) := by
  unfold PredictionEngine.killed becomeTentative
  dsimp only
  rw [if_pos normal]
  exact ⟨rfl, rfl, rfl, rfl⟩

theorem predictionEpoch_reset (normal : e.displayPreference ≠ .experimental) :
    e.reset.predictionEpoch = e.predictionEpoch + 1 ∧
      e.reset.displayPreference = e.displayPreference ∧
      e.reset.confirmedEpoch = e.confirmedEpoch := by
  unfold PredictionEngine.reset becomeTentative
  rw [if_pos normal]
  exact ⟨rfl, rfl, rfl⟩

/-- One cell of the reference, judged unless it has been killed. -/
theorem cell_tally (tally : Tally begun o (e, false)) (going : o.reset = false)
    {f : Finding} (found : (r₀.findings fb lateAck)[n]? = some f)
    (standing : Standing fb lateAck n i r₀ rest₀ o.kills e.overlays) :
    Guarded fb.Matches (cullCell fb lateAck now false i n (e, false)) fun t =>
      Tally begun (o.judgeLiving f) t ∧ ((o.judgeLiving f).reset = false →
        Standing fb lateAck (n + 1) i r₀ rest₀ (o.judgeLiving f).kills t.1.overlays) := by
  obtain ⟨past, r, rest, rows, rfl, laid, later⟩ := standing
  obtain ⟨c, foundCell, stands⟩ := laid.here found
  have foundRow : e.overlays[past.length]? = some r := by
    rw [rows]
    simp
  refine (cullCell_after foundRow foundCell).mono ?_
  rintro ⟨e', stopped⟩ ⟨v, verdict, after⟩
  unfold After at after
  have rows' (v : Validity) : e.overlays.set past.length
      { r with cells := retire fb r.rowNum c v n r.cells } =
      past ++ { r with cells := retire fb r.rowNum c v n r.cells } :: rest := by
    rw [rows, List.set_append_right _ _ (Nat.le_refl _), Nat.sub_self, List.set_cons_zero]
  unfold Stands at stands
  by_cases dead : Outcome.Condemned o.kills f.epoch
  · rw [if_pos dead] at stands
    have inactive : v = .inactive := Except.ok.inj (verdict.symm.trans stands)
    subst inactive
    rw [if_neg (by decide), if_neg (by decide)] at after
    obtain ⟨glitchTrigger, lastQuickConfirmation, same⟩ := after
    cases same
    rw [Outcome.judgeLiving_of_condemned dead]
    refine ⟨⟨tally.confirmed, tally.epoch, tally.reset, tally.normal⟩, fun _ => ?_⟩
    exact ⟨past, _, rest, rows' .inactive, rfl, laid.retire c .inactive, later⟩
  rw [if_neg dead] at stands
  subst stands
  rw [Outcome.judgeLiving_of_living dead]
  by_cases against : v = .incorrectOrExpired
  · subst against
    have wrong : (c.finding fb r.rowNum lateAck).wrong := verdict
    rw [if_pos rfl, tally.confirmed] at after
    by_cases tentative : o.confirmed < c.tentativeUntilEpoch
    · rw [if_pos tentative] at after
      cases after
      rw [Outcome.judge_of_condemned going wrong tentative]
      obtain ⟨epoch, preference, confirmed, overlays⟩ :=
        predictionEpoch_killed fb tally.normal c.tentativeUntilEpoch
      refine ⟨⟨confirmed.trans tally.confirmed, ?_, tally.reset, preference ▸ tally.normal⟩,
        fun _ => ⟨past.map (OverlayRow.killed [c.tentativeUntilEpoch]),
          r.killed [c.tentativeUntilEpoch], rest.map (OverlayRow.killed [c.tentativeUntilEpoch]), ?_,
          List.length_map _, ?_, ?_⟩⟩
      · have before := tally.epoch
        dsimp only at before ⊢
        rw [epoch, before, List.length_append, List.length_singleton]
        omega
      · dsimp only
        rw [overlays, rows, List.map_append, List.map_cons]
      · exact (laid.retire c .incorrectOrExpired).killed c.tentativeUntilEpoch
      · exact List.forall₂_map_right_iff.mpr (later.imp fun _ _ laid => laid.killed _)
    · rw [if_neg tentative] at after
      cases after
      have shown : (c.finding fb r.rowNum lateAck).epoch ≤ o.confirmed := Nat.not_lt.mp tentative
      rw [Outcome.judge_of_shown going wrong shown]
      obtain ⟨epoch, preference, confirmed⟩ := predictionEpoch_reset tally.normal
      refine ⟨⟨confirmed.trans tally.confirmed, ?_, rfl, preference ▸ tally.normal⟩, fun stays => ?_⟩
      · have before := tally.epoch
        dsimp only at before ⊢
        rw [epoch, before, going, if_pos rfl, if_neg Bool.false_ne_true]
      · cases stays
  · rw [if_neg against] at after
    obtain ⟨glitchTrigger, lastQuickConfirmation, same⟩ := after
    cases same
    have notWrong : ¬ (c.finding fb r.rowNum lateAck).wrong := fun wrong =>
      against (Except.ok.inj (verdict.symm.trans wrong))
    by_cases correct : v = .correct
    · subst correct
      have right : (c.finding fb r.rowNum lateAck).correct := verdict
      rw [Outcome.judge_of_correct going right]
      refine ⟨⟨?_, tally.epoch, tally.reset, tally.normal⟩,
        fun _ => ⟨past, _, rest, rows' .correct, rfl, laid.retire c .correct, later⟩⟩
      have confirmed := tally.confirmed
      dsimp only at confirmed ⊢
      rw [if_pos rfl, confirmed]
      rfl
    · have notRight : ¬ (c.finding fb r.rowNum lateAck).correct := fun right =>
        correct (Except.ok.inj (verdict.symm.trans right))
      rw [Outcome.judge_of_neither notRight notWrong]
      refine ⟨⟨?_, tally.epoch, tally.reset, tally.normal⟩,
        fun _ => ⟨past, _, rest, rows' v, rfl, laid.retire c v, later⟩⟩
      rw [if_neg correct]
      exact tally.confirmed

/-- A row of the reference comes to what its findings come to, when kills are done on the spot. -/
theorem row_tally (tally : Tally begun o (e, false))
    (standing : Standing fb lateAck 0 i r₀ rest₀ o.kills e.overlays) :
    Guarded fb.Matches
      (forRange 0 r₀.cells.length (e, false) (cullCell fb lateAck now false i)) fun t =>
        Tally begun (o.immediate (r₀.findings fb lateAck)) t ∧
          ((o.immediate (r₀.findings fb lateAck)).reset = false → ∃ past r rest,
            t.1.overlays = past ++ r :: rest ∧ past.length = i ∧ List.Forall₂
              (Laid fb lateAck 0 (o.immediate (r₀.findings fb lateAck)).kills) rest₀ rest) := by
  let left (n : Nat) (t : PredictionEngine × Bool) : Prop :=
    ∃ o' : Outcome, o'.immediate ((r₀.findings fb lateAck).drop n) =
        o.immediate (r₀.findings fb lateAck) ∧ Tally begun o' t ∧
      (o'.reset = false → Standing fb lateAck n i r₀ rest₀ o'.kills t.1.overlays)
  have start : left 0 (e, false) := ⟨o, rfl, tally, fun _ => standing⟩
  have length : (r₀.findings fb lateAck).length = r₀.cells.length := List.length_map _
  refine (Guarded.forRange_index (Nat.zero_le _) start ?_).mono ?_
  · rintro n ⟨e, stopped⟩ - before ⟨o', same, tally, standing⟩
    have inside : n < (r₀.findings fb lateAck).length := length ▸ before
    cases ended : o'.reset with
    | true =>
      have stop : stopped = true := tally.reset.trans ended
      have still : cullCell fb lateAck now false i n (e, stopped) = .ok (e, stopped) := if_pos stop
      rw [still]
      refine .ok ⟨o', ?_, tally, fun going => by cases ended.symm.trans going⟩
      rw [Outcome.immediate_of_reset ended] at same ⊢
      exact same
    | false =>
      have stop : stopped = false := tally.reset.trans ended
      subst stop
      refine (cell_tally tally ended (List.getElem?_eq_getElem inside) (standing ended)).mono ?_
      rintro t ⟨tally', standing'⟩
      refine ⟨_, ?_, tally', standing'⟩
      rw [← same, List.drop_eq_getElem_cons inside, Outcome.immediate_cons]
  · rintro t ⟨o', same, tally, standing⟩
    rw [← length, List.drop_length] at same
    change o' = _ at same
    subst same
    refine ⟨tally, fun going => ?_⟩
    obtain ⟨past, r, rest, rows, at_, -, later⟩ := standing going
    exact ⟨past, r, rest, rows, at_, later⟩

/-- So does the whole overlay. -/
theorem rows_tally {past : List OverlayRow} (tally : Tally begun o (e, false))
    (going : o.reset = false) (rows : e.overlays = past ++ rest)
    (laid : List.Forall₂ (Laid fb lateAck 0 o.kills) rest₀ rest) :
    Guarded fb.Matches (cullRows fb lateAck now false rest₀.length past.length e)
      (Tally begun (o.immediate (findings fb lateAck rest₀))) := by
  induction rest₀ generalizing past rest o e with
  | nil => exact .ok tally
  | cons r₀ rest₀ ih =>
    obtain ⟨r, rest', first, later, rfl⟩ := List.forall₂_cons_left_iff.mp laid
    have inside : past.length < e.overlays.length := by
      rw [rows, List.length_append, List.length_cons]
      omega
    have here : e.overlays[past.length] = r := by simp [rows]
    rw [List.length_cons]
    unfold cullRows
    rw [getAt_eq_ok inside, here]
    change Guarded _ (if r.rowNum ≥ fb.rows then _ else forRange 0 _ _ _ >>= _) _
    rw [first.num, first.length]
    by_cases within : r₀.rowNum < fb.rows
    · unfold findings
      rw [if_neg (Nat.not_le.mpr within), List.filter_cons_of_pos (by simpa using within),
        List.flatMap_cons, Outcome.immediate_append]
      have standing : Standing fb lateAck 0 past.length r₀ rest₀ o.kills e.overlays :=
        ⟨past, r, rest', rows, rfl, first, later⟩
      refine (row_tally tally standing).bind ?_
      rintro ⟨e', stopped⟩ ⟨tally', left⟩
      cases ended : (o.immediate (r₀.findings fb lateAck)).reset with
      | true =>
        have stop : stopped = true := tally'.reset.trans ended
        rw [if_pos stop, Outcome.immediate_of_reset ended]
        exact .pure tally'
      | false =>
        have stop : stopped = false := tally'.reset.trans ended
        subst stop
        obtain ⟨past', r', rest'', rows', length, later'⟩ := left ended
        have rows' : e'.overlays = (past' ++ [r']) ++ rest'' := by
          rw [List.append_assoc]
          exact rows'
        have done := ih tally' ended rows' later'
        rw [List.length_append, List.length_singleton, length] at done
        rw [if_neg Bool.false_ne_true]
        exact done
    · have outside : (decide (r₀.rowNum < fb.rows)) = false := by simpa using within
      unfold findings
      rw [if_pos (Nat.not_lt.mp within), List.filter_cons_of_neg (by simp [outside])]
      refine ih ⟨tally.confirmed, tally.epoch, tally.reset, tally.normal⟩ going ?_ later
      dsimp only
      rw [rows, List.eraseIdx_append_of_length_le (Nat.le_refl _), Nat.sub_self,
        List.eraseIdx_zero, List.tail_cons]

end Tally

/-! ### Both culls -/

/-- The engines are the same in what the culls decide, and both or neither have reset. -/
structure Agrees (a b : PredictionEngine × Bool) : Prop where
  overlays : a.1.overlays = b.1.overlays
  cursors : a.1.cursors = b.1.cursors
  predictionEpoch : a.1.predictionEpoch = b.1.predictionEpoch
  confirmedEpoch : a.1.confirmedEpoch = b.1.confirmedEpoch
  resets : a.2 = b.2

/-- The confirmed epoch, and how many epochs have begun since there were `begun`: one for each
kill, and one for a reset. -/
structure Counted (begun confirmed kills : Nat) (a : PredictionEngine × Bool) : Prop where
  confirmed : a.1.confirmedEpoch = confirmed
  epoch : a.1.predictionEpoch = begun + kills + if a.2 then 1 else 0

/-- The engine of the reference behind its scan, with the cursor predictions culled. -/
def finish (fb : Snapshot) (lateAck : Nat) (s : PredictionEngine × Bool) : PredictionEngine × Bool :=
  if s.2 then s else (s.1.cullCursors fb lateAck, s.1.cursorWrong fb lateAck)

section Counted

variable {base : PredictionEngine}

theorem cullCursors_counted (normal : e.displayPreference ≠ .experimental) (fb : Snapshot)
    (lateAck : Nat) {begun confirmed kills : Nat} (epoch : e.predictionEpoch = begun + kills)
    (same : e.confirmedEpoch = confirmed) :
    Counted begun confirmed kills (e.cullCursors fb lateAck, e.cursorWrong fb lateAck) := by
  unfold cullCursors cursorWrong
  cases wrong : e.cursors.getLast?.any (·.getValidity fb lateAck = .incorrectOrExpired) with
  | true =>
    obtain ⟨begins, -, keeps⟩ := predictionEpoch_reset normal
    dsimp only
    rw [if_pos rfl, if_neg normal]
    refine ⟨keeps.trans same, ?_⟩
    dsimp only
    rw [begins, epoch, if_pos (by simpa using normal)]
  | false =>
    dsimp only
    rw [if_neg Bool.false_ne_true]
    refine ⟨same, ?_⟩
    dsimp only
    rw [epoch, Bool.false_and, if_neg Bool.false_ne_true, Nat.add_zero]

/-- What a deferred scan condemns, it has found tentative. -/
theorem deferred_positive {o : Outcome} (positive : ∀ k ∈ o.kills, 1 ≤ k) (fs : List Finding) :
    ∀ k ∈ (o.deferred fs).kills, 1 ≤ k := by
  induction fs generalizing o with
  | nil => exact positive
  | cons f rest ih =>
    refine ih (o := o.judge f) ?_
    unfold Outcome.judge
    split
    · exact positive
    split
    · exact positive
    split
    · split
      · rename_i tentative
        intro k mem
        rcases List.mem_append.mp mem with old | new
        · exact positive k old
        · rw [List.mem_singleton.mp new]
          exact Nat.one_le_of_lt tentative
      · exact positive
    · exact positive

theorem predictionEpoch_kills (fb : Snapshot) (normal : base.displayPreference ≠ .experimental)
    (kills : List Nat) :
    (kills.foldl (PredictionEngine.killed fb) base).predictionEpoch =
        base.predictionEpoch + kills.length ∧
      (kills.foldl (PredictionEngine.killed fb) base).displayPreference = base.displayPreference := by
  induction kills generalizing base with
  | nil => exact ⟨rfl, rfl⟩
  | cons k rest ih =>
    obtain ⟨begins, preference, -, -⟩ := predictionEpoch_killed fb normal k
    have normal' : (base.killed fb k).displayPreference ≠ .experimental := preference ▸ normal
    obtain ⟨epoch, kept⟩ := ih normal'
    rw [List.foldl_cons, epoch, kept, begins, preference, List.length_cons]
    exact ⟨by omega, rfl⟩

/-- What the scans start from. -/
def firstScan (e : PredictionEngine) : Scan :=
  { confirmedEpoch := e.confirmedEpoch, glitchTrigger := e.glitchTrigger,
    lastQuick := e.lastQuickConfirmation }

theorem cullPredictions_counted (normal : base.displayPreference ≠ .experimental) (now : Nat) :
    let o := (firstScan base).outcome.deferred (findings fb base.localFrameLateAcked base.overlays)
    Guarded fb.Matches (base.cullPredictions fb now)
      (Counted base.predictionEpoch o.confirmed o.carriedOut.length) := by
  intro o
  have scanned := scanRows_deferred fb base.localFrameLateAcked now
    (base.overlays.filter (·.rowNum < fb.rows)) (firstScan base)
  unfold cullPredictions
  dsimp only
  rw [decide_eq_false normal]
  refine scanned.bind ?_
  rintro ⟨rows, scan⟩ outcome
  have outcome : scan.outcome = o := outcome
  have positive : ∀ k ∈ o.kills, 1 ≤ k :=
    deferred_positive (o := (firstScan base).outcome) (fun k mem => absurd mem List.not_mem_nil) _
  rw [← outcome] at positive ⊢
  dsimp only
  cases stop : scan.doReset with
  | true =>
    rw [if_pos rfl]
    obtain ⟨begins, -, keeps⟩ := predictionEpoch_reset (e := base.withScan rows scan) normal
    have reset : scan.outcome.reset = true := stop
    refine .pure ⟨keeps, ?_⟩
    unfold Outcome.carriedOut
    rw [if_pos reset]
    exact begins
  | false =>
    rw [if_neg Bool.false_ne_true]
    change Guarded _ (forEach scan.killEpochs (base.withScan rows scan) _ >>= _) _
    have positive : ∀ k ∈ scan.killEpochs, 1 ≤ k := positive
    rw [killEpochs_eq positive, killEpochs_withScan]
    obtain ⟨epoch, preference⟩ := predictionEpoch_kills fb normal scan.killEpochs
    unfold Outcome.carriedOut
    rw [if_neg (by simp [Scan.outcome, stop])]
    refine .pure (cullCursors_counted ?_ fb _ epoch rfl)
    exact preference ▸ normal

/-- The part of the reference behind its triggers. -/
theorem cullRows_counted (normal : base.displayPreference ≠ .experimental) (now : Nat) :
    let o := (firstScan base).outcome.immediate (findings fb base.localFrameLateAcked base.overlays)
    Guarded fb.Matches (cullRows fb base.localFrameLateAcked now false base.overlays.length 0 base)
      fun s => Counted base.predictionEpoch o.confirmed o.kills.length
        (finish fb base.localFrameLateAcked s) := by
  intro o
  have tally : Tally base.predictionEpoch (firstScan base).outcome (base, false) :=
    ⟨rfl, rfl, rfl, normal⟩
  have laid : List.Forall₂ (Laid fb base.localFrameLateAcked 0 []) base.overlays base.overlays :=
    List.forall₂_same.mpr fun r _ => Laid.refl fb base.localFrameLateAcked r
  refine Guarded.mono (rows_tally tally rfl (List.nil_append _).symm laid) ?_
  rintro ⟨e, stopped⟩ counted
  have epoch := counted.epoch
  have reset := counted.reset
  dsimp only at epoch reset
  rw [← reset] at epoch
  cases stopped with
  | true => exact ⟨counted.confirmed, epoch⟩
  | false =>
    rw [if_neg Bool.false_ne_true] at epoch
    exact cullCursors_counted counted.normal fb _ epoch counted.confirmed

end Counted

/-! ### The same engine -/

/-- No kill of the scan of `base` comes too late. -/
def Timely (fb : Snapshot) (base : PredictionEngine) : Prop :=
  Undisturbed base.confirmedEpoch [] (findings fb base.localFrameLateAcked base.overlays)

theorem reset_agrees (base : PredictionEngine) {scan scan' : Scan} (rows rows' : List OverlayRow)
    (same : scan.confirmedEpoch = scan'.confirmedEpoch) :
    Agrees ((base.withScan rows scan).reset, true) ((base.withScan rows' scan').reset, true) := by
  unfold PredictionEngine.reset becomeTentative
  dsimp only [PredictionEngine.withScan]
  by_cases experimental : base.displayPreference = .experimental
  · simp only [experimental, ne_eq, not_true_eq_false, if_false]
    exact ⟨rfl, rfl, rfl, same, rfl⟩
  · simp only [experimental, ne_eq, not_false_eq_true, if_true]
    exact ⟨rfl, rfl, rfl, same, rfl⟩

/-- The glitch trigger has no part in what becomes of the cursors. -/
theorem cullCursors_agrees {base : PredictionEngine} {scan scan' : Scan} (rows : List OverlayRow)
    (same : scan.confirmedEpoch = scan'.confirmedEpoch) (fb : Snapshot) (lateAck : Nat) :
    Agrees
      ((base.withScan rows scan).cullCursors fb lateAck,
        (base.withScan rows scan).cursorWrong fb lateAck)
      ((base.withScan rows scan').cullCursors fb lateAck,
        (base.withScan rows scan').cursorWrong fb lateAck) := by
  unfold cullCursors
  dsimp only [PredictionEngine.withScan]
  by_cases wrong : base.cursors.getLast?.any (·.getValidity fb lateAck = .incorrectOrExpired)
  · by_cases experimental : base.displayPreference = .experimental
    · simp only [wrong, experimental, if_true]
      exact ⟨rfl, rfl, rfl, same, rfl⟩
    · have reset := reset_agrees base rows rows same
      simp only [wrong, experimental, if_true, if_false]
      exact ⟨reset.overlays, reset.cursors, reset.predictionEpoch, reset.confirmedEpoch, rfl⟩
  · simp only [wrong]
    exact ⟨rfl, rfl, rfl, same, rfl⟩

/-- The two culls behind the triggers. -/
theorem cullPredictions_agrees {base : PredictionEngine}
    (normal : base.displayPreference ≠ .experimental) (fb : Snapshot) (now : Nat) :
    Lockstep fb.Matches (base.cullPredictions fb now)
      (cullRows fb base.localFrameLateAcked now false base.overlays.length 0 base) fun a s =>
        Agrees a (finish fb base.localFrameLateAcked s) ↔ Timely fb base := by
  by_cases timely : Timely fb base
  · have rows : base.overlays.map (OverlayRow.killed []) = base.overlays := by
      rw [List.map_congr_left (g := id) fun r _ => OverlayRow.killed_nil r, List.map_id]
    have follows : Follows fb base ([] ++ base.overlays) (firstScan base) base := by
      refine ⟨fun k mem => absurd mem List.not_mem_nil, firstScan base, rfl, ?_⟩
      change _ = base.withScan (base.overlays.map (OverlayRow.killed [])) (firstScan base)
      rw [rows]
      rfl
    unfold cullPredictions
    dsimp only
    rw [decide_eq_false normal, ← bind_pure (cullRows fb _ now false _ 0 base)]
    refine (rows_together rfl follows timely).bind ?_
    rintro ⟨rows, scan⟩ ⟨e, stopped⟩ together
    dsimp only at together ⊢
    cases stop : scan.doReset with
    | true =>
      unfold Together at together
      rw [if_pos stop] at together
      obtain ⟨rfl, -, overlays, scan', confirmed, rfl⟩ := together
      rw [if_pos rfl]
      refine .pure ⟨fun _ => timely, fun _ => ?_⟩
      exact reset_agrees base rows overlays confirmed.symm
    | false =>
      obtain ⟨rfl, follows, -⟩ := together.going stop
      obtain ⟨scan', confirmed, rfl⟩ := follows.same
      rw [if_neg Bool.false_ne_true]
      change Lockstep _ (forEach scan.killEpochs (base.withScan rows scan) _ >>= _) _ _
      rw [killEpochs_eq follows.epochs, killEpochs_withScan]
      refine .pure ⟨fun _ => timely, fun _ => ?_⟩
      exact cullCursors_agrees _ confirmed.symm fb _
  · refine (Lockstep.of_guarded (cullPredictions_counted normal now)
      (cullRows_counted normal now)).mono ?_
    rintro a s ⟨port, reference⟩
    refine ⟨fun agrees => ?_, fun holds => absurd holds timely⟩
    have kills := port.epoch
    rw [agrees.predictionEpoch, agrees.resets] at kills
    have same := reference.epoch
    have agree : Outcome.Agree _ _ :=
      ⟨port.confirmed.symm.trans (agrees.confirmedEpoch.trans reference.confirmed),
        Nat.add_left_cancel (Nat.add_right_cancel (kills.symm.trans same))⟩
    exact Outcome.undisturbed_of_agree rfl (fun k mem => absurd mem List.not_mem_nil) agree

/-- No kill comes too late: the size of the frame has changed, so that there is nothing to scan;
or behind each wrong tentative prediction, and before the scan is over, no cell of its epoch or
a later one is right or wrong, and no wrong cell forces a reset. -/
def KillsInTime (fb : Snapshot) (e : PredictionEngine) : Prop :=
  e.lastHeight = fb.rows → e.lastWidth = fb.cols → Timely fb e

instance (fb : Snapshot) (e : PredictionEngine) : Decidable (KillsInTime fb e) :=
  inferInstanceAs (Decidable (_ → _ → Undisturbed _ _ _))

/-- Where the size has not changed, the scan is of the engine's own predictions. -/
theorem timely_updateSize (fb : Snapshot) (e : PredictionEngine) :
    Timely fb (e.updateSize fb) ↔ KillsInTime fb e := by
  unfold KillsInTime updateSize
  dsimp only
  split
  · rename_i changed
    have empty : Timely fb ({ e with lastHeight := fb.rows, lastWidth := fb.cols } :
        PredictionEngine).reset.updateTriggers := by
      unfold PredictionEngine.reset becomeTentative
      split <;> exact trivial
    refine ⟨fun _ height width => ?_, fun _ => empty⟩
    exact absurd changed (by simp [height, width])
  · rename_i same
    obtain ⟨height, width⟩ := not_or.mp same
    exact ⟨fun timely _ _ => timely, fun timely => timely (not_not.mp height) (not_not.mp width)⟩

theorem displayPreference_updateSize (fb : Snapshot) (e : PredictionEngine) :
    (e.updateSize fb).displayPreference = e.displayPreference := by
  unfold updateSize PredictionEngine.reset becomeTentative
  dsimp only
  split
  · split <;> rfl
  · rfl

/-- For every engine that typing can lead to, and every frame: both culls return where the frame
has the cells its size says, and they leave the same predictions and epochs, and reset in the
same cases, exactly where no kill comes too late. -/
theorem cull_agrees (reach : client.Reachable e) (normal : e.displayPreference ≠ .experimental)
    (fb : Snapshot) (now : Nat) :
    (fb.Matches → ∃ a b, e.cullReports fb now = .ok a ∧ cull fb now e = .ok b) ∧
      ∀ a b, e.cullReports fb now = .ok a → cull fb now e = .ok b →
        e.cull fb now = .ok a.1 ∧ (Agrees a b ↔ KillsInTime fb e) := by
  suffices both : Lockstep fb.Matches (e.cullReports fb now) (cull fb now e) fun a b =>
      Agrees a b ↔ KillsInTime fb e by
    refine ⟨both.returns, fun a b port reference => ⟨?_, both.of_eq_ok port reference⟩⟩
    rw [cull_eq_reports, port]
    rfl
  unfold cullReports cull
  by_cases never : e.displayPreference = .never
  · rw [if_pos never, if_pos never]
    have timely : KillsInTime fb e := by
      rcases client_shaped.reachable reach with quiet | ⟨L, -, shaped⟩
      · intro _ _
        unfold Timely findings
        rw [quiet.overlays]
        trivial
      · obtain ⟨-, -, -, -, predicts, -⟩ := shaped.driven
        exact absurd never predicts
    exact .ok ⟨fun _ => timely, fun _ => ⟨rfl, rfl, rfl, rfl, rfl⟩⟩
  · have normal' : (e.updateSize fb).displayPreference ≠ .experimental := by
      rw [displayPreference_updateSize]
      exact normal
    rw [if_neg never, if_neg never, ← timely_updateSize]
    dsimp only
    rw [decide_eq_false normal', ← bind_pure (cullPredictions fb now (e.updateSize fb))]
    refine (cullPredictions_agrees normal' fb now).bind ?_
    rintro a ⟨e', stopped⟩ agrees
    unfold finish at agrees
    dsimp only at agrees ⊢
    cases stopped with
    | true => exact .pure agrees
    | false => exact .pure agrees

/-- The line once the server has echoed an `a` and a `b`. -/
def twoEchoed : Snapshot :=
  { blankLine with
    cells := [[{ blankCell with ch := 'a' }, { blankCell with ch := 'b' }, blankCell]],
    cursorCol := 2 }

/-- An `a` and a `b` that the server echoes. -/
theorem cull_agrees_echoed :
    ∃ e a b, forEach [.key 0x61 blankLine 5, .key 0x62 blankLine 10, .lateAcked 1]
        (new .always true) Event.perform = .ok e ∧
      e.cullReports twoEchoed 20 = .ok a ∧ cull twoEchoed 20 e = .ok b ∧ Agrees a b := by
  obtain ⟨e, typed, fits⟩ := ok_of_any
    (x := forEach [.key 0x61 blankLine 5, .key 0x62 blankLine 10, .lateAcked 1]
      (new .always true) Event.perform)
    (p := fun e => decide (e.displayPreference ≠ .experimental ∧ KillsInTime twoEchoed e))
    (by decide +kernel)
  obtain ⟨normal, timely⟩ := of_decide_eq_true fits
  have sized : ∀ ev ∈ [Event.key 0x61 blankLine 5, .key 0x62 blankLine 10, .lateAcked 1],
      ev.Sized := by
    intro ev mem fb frame
    rcases List.mem_cons.mp mem with rfl | mem
    · cases frame
      exact blankLine_sized
    rcases List.mem_cons.mp mem with rfl | mem
    · cases frame
      exact blankLine_sized
    · rw [List.mem_singleton.mp mem] at frame
      cases frame
  have reach : client.Reachable e := Transition.Reachable.runs (.of_init ⟨.always, true, rfl⟩)
    (runs_of_events (fun ev mem _ _ done => ⟨ev, sized ev mem, done⟩) typed)
  obtain ⟨returns, agrees⟩ := cull_agrees reach normal twoEchoed 20
  obtain ⟨a, b, port, reference⟩ := returns ⟨rfl, by decide⟩
  exact ⟨e, a, b, typed, port, reference, (agrees a b port reference).2.mpr timely⟩

/-- The server shows `xb` where `ab` was typed. -/
def misread : Snapshot :=
  { blankLine with
    cells := [[{ blankCell with ch := 'x' }, { blankCell with ch := 'b' }, blankCell]],
    cursorCol := 2 }

/-- An `a` that was wrong condemns its epoch; the `b` behind it confirms the epoch all the same. -/
theorem cull_confirms_killed :
    ∃ e a b, forEach [.key 0x61 blankLine 5, .sent 1, .key 0x62 blankLine 10, .sent 2, .lateAcked 2]
        (new .always true) Event.perform = .ok e ∧ misread.Matches ∧
      e.cullReports misread 20 = .ok a ∧ cull misread 20 e = .ok b ∧ ¬ Agrees a b := by
  obtain ⟨e, typed, later⟩ := ok_of_any
    (x := forEach [.key 0x61 blankLine 5, .sent 1, .key 0x62 blankLine 10, .sent 2, .lateAcked 2]
      (new .always true) Event.perform)
    (p := fun e => (e.cullReports misread 20).toOption.any fun a =>
      (cull misread 20 e).toOption.any fun b => a.1.confirmedEpoch ≠ b.1.confirmedEpoch)
    (by decide +kernel)
  obtain ⟨a, port, later⟩ := ok_of_any later
  obtain ⟨b, reference, differ⟩ := ok_of_any later
  have differ : a.1.confirmedEpoch ≠ b.1.confirmedEpoch := by simpa using differ
  exact ⟨e, a, b, typed, ⟨rfl, by decide⟩, port, reference, fun agrees =>
    differ agrees.confirmedEpoch⟩

end TerminalOverlay

end Posh.Remote
