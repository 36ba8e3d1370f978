import Posh.Remote.Culling

/-!
What a scan over the predictions decides.

A `Finding` is a cell as the scan judges it. `deferred` folds the findings as `cull` does: the
epochs it condemns are killed once the scan is over. `immediate` folds them with each kill
done on the spot, so that the cells of a condemned epoch are not judged any more. Where the
two come to the same, nothing was `Disturbed`.
-/

namespace Posh.Remote

open Posh.Lib Posh.Term

/-- A cell as a scan judges it. -/
structure Finding where
  epoch : Nat
  verdict : Checked Validity
deriving DecidableEq

namespace Finding

def correct (f : Finding) : Prop := f.verdict = .ok .correct

def wrong (f : Finding) : Prop := f.verdict = .ok .incorrectOrExpired

instance (f : Finding) : Decidable f.correct := inferInstanceAs (Decidable (_ = _))

instance (f : Finding) : Decidable f.wrong := inferInstanceAs (Decidable (_ = _))

end Finding

/-- What a scan has come to: the epoch it confirms, those it condemns in their order, and
whether a prediction that the user can see was wrong. -/
structure Outcome where
  confirmed : Nat
  kills : List Nat := []
  reset : Bool := false
deriving DecidableEq, Repr

namespace Outcome

/-- A cell is judged. -/
def judge (o : Outcome) (f : Finding) : Outcome :=
  if o.reset then o
  else if f.correct then { o with confirmed := max o.confirmed f.epoch }
  else if f.wrong then
    if o.confirmed < f.epoch then { o with kills := o.kills ++ [f.epoch] }
    else { o with reset := true }
  else o

/-- The cell's epoch, or an earlier one, is condemned. -/
def Condemned (kills : List Nat) (epoch : Nat) : Prop :=
  ∃ k ∈ kills, k ≤ epoch

instance (kills : List Nat) (epoch : Nat) : Decidable (Condemned kills epoch) :=
  inferInstanceAs (Decidable (∃ k ∈ kills, k ≤ epoch))

/-- A cell is judged unless it has been killed. -/
def judgeLiving (o : Outcome) (f : Finding) : Outcome :=
  if Condemned o.kills f.epoch then o else o.judge f

def deferred (o : Outcome) (fs : List Finding) : Outcome :=
  fs.foldl judge o

def immediate (o : Outcome) (fs : List Finding) : Outcome :=
  fs.foldl judgeLiving o

/-- The kills that are carried out when they wait for the end of the scan. -/
def carriedOut (o : Outcome) : List Nat :=
  if o.reset then [] else o.kills

end Outcome

open Outcome in
/-- No kill comes too late: behind a condemned cell, and before the scan is over, each cell of
its epoch or a later one is neither right nor wrong, and none forces a reset. -/
def Undisturbed (confirmed : Nat) (kills : List Nat) : List Finding → Prop
  | [] => True
  | f :: rest =>
    if f.correct then ¬ Condemned kills f.epoch ∧ Undisturbed (max confirmed f.epoch) kills rest
    else if f.wrong then
      if confirmed < f.epoch then
        ¬ Condemned kills f.epoch ∧ Undisturbed confirmed (kills ++ [f.epoch]) rest
      else kills = []
    else Undisturbed confirmed kills rest

instance decidableUndisturbed (confirmed : Nat) (kills : List Nat) :
    (fs : List Finding) → Decidable (Undisturbed confirmed kills fs)
  | [] => inferInstanceAs (Decidable True)
  | f :: rest =>
    have _ := decidableUndisturbed (max confirmed f.epoch) kills rest
    have _ := decidableUndisturbed confirmed (kills ++ [f.epoch]) rest
    have _ := decidableUndisturbed confirmed kills rest
    inferInstanceAs (Decidable (if f.correct then _ ∧ _ else if f.wrong then
      if confirmed < f.epoch then _ ∧ _ else kills = [] else _))

namespace Outcome

variable {o : Outcome} {f : Finding} {fs : List Finding}

@[simp] theorem deferred_cons (o : Outcome) (f : Finding) (fs : List Finding) :
    o.deferred (f :: fs) = (o.judge f).deferred fs := rfl

@[simp] theorem immediate_cons (o : Outcome) (f : Finding) (fs : List Finding) :
    o.immediate (f :: fs) = (o.judgeLiving f).immediate fs := rfl

theorem deferred_append (o : Outcome) (fs gs : List Finding) :
    o.deferred (fs ++ gs) = (o.deferred fs).deferred gs :=
  List.foldl_append

theorem immediate_append (o : Outcome) (fs gs : List Finding) :
    o.immediate (fs ++ gs) = (o.immediate fs).immediate gs :=
  List.foldl_append

/-! ### One cell -/

theorem judge_of_reset (stopped : o.reset = true) (f : Finding) : o.judge f = o :=
  if_pos stopped

theorem judge_of_correct (going : o.reset = false) (correct : f.correct) :
    o.judge f = { o with confirmed := max o.confirmed f.epoch } := by
  unfold judge
  rw [if_neg (by simp [going]), if_pos correct]

theorem judge_of_condemned (going : o.reset = false) (wrong : f.wrong)
    (later : o.confirmed < f.epoch) : o.judge f = { o with kills := o.kills ++ [f.epoch] } := by
  have other : ¬ f.correct := fun correct => by cases correct.symm.trans wrong
  unfold judge
  rw [if_neg (by simp [going]), if_neg other, if_pos wrong, if_pos later]

theorem judge_of_shown (going : o.reset = false) (wrong : f.wrong)
    (shown : f.epoch ≤ o.confirmed) : o.judge f = { o with reset := true } := by
  have other : ¬ f.correct := fun correct => by cases correct.symm.trans wrong
  unfold judge
  rw [if_neg (by simp [going]), if_neg other, if_pos wrong, if_neg (Nat.not_lt.mpr shown)]

theorem judge_of_neither (right : ¬ f.correct) (wrong : ¬ f.wrong) : o.judge f = o := by
  unfold judge
  rw [if_neg right, if_neg wrong]
  split <;> rfl

theorem judgeLiving_of_condemned (killed : Condemned o.kills f.epoch) : o.judgeLiving f = o :=
  if_pos killed

theorem judgeLiving_of_living (living : ¬ Condemned o.kills f.epoch) :
    o.judgeLiving f = o.judge f :=
  if_neg living

theorem deferred_of_reset (stopped : o.reset = true) (fs : List Finding) : o.deferred fs = o := by
  induction fs with
  | nil => rfl
  | cons f rest ih => rw [deferred_cons, judge_of_reset stopped, ih]

theorem immediate_of_reset (stopped : o.reset = true) (fs : List Finding) :
    o.immediate fs = o := by
  induction fs with
  | nil => rfl
  | cons f rest ih =>
    have same : o.judgeLiving f = o := by
      unfold judgeLiving
      rw [judge_of_reset stopped, ite_self]
    rw [immediate_cons, same, ih]

theorem condemned_append {kills : List Nat} {epoch k : Nat} :
    Condemned (kills ++ [k]) epoch ↔ Condemned kills epoch ∨ k ≤ epoch := by
  unfold Condemned
  simp [or_and_right, exists_or]

/-! ### Behind the first disturbance -/

/-- Confirmation only rises. -/
theorem confirmed_le_deferred (o : Outcome) (fs : List Finding) :
    o.confirmed ≤ (o.deferred fs).confirmed := by
  induction fs generalizing o with
  | nil => exact Nat.le_refl _
  | cons f rest ih =>
    refine Nat.le_trans ?_ (ih (o.judge f))
    unfold judge
    split
    · exact Nat.le_refl _
    split
    · exact Nat.le_max_left _ _
    split
    · split <;> exact Nat.le_refl _
    · exact Nat.le_refl _

/-- A condemned epoch is not confirmed when its cells are killed on the spot. -/
theorem immediate_lt {k : Nat} (killed : k ∈ o.kills) (unconfirmed : o.confirmed < k)
    (fs : List Finding) : (o.immediate fs).confirmed < k := by
  induction fs generalizing o with
  | nil => exact unconfirmed
  | cons f rest ih =>
    rw [immediate_cons]
    by_cases dead : Condemned o.kills f.epoch
    · rw [judgeLiving_of_condemned dead]
      exact ih killed unconfirmed
    rw [judgeLiving_of_living dead]
    have earlier : f.epoch < k := Nat.not_le.mp fun le => dead ⟨k, killed, le⟩
    unfold judge
    split
    · exact ih killed unconfirmed
    split
    · exact ih killed (Nat.max_lt.mpr ⟨unconfirmed, earlier⟩)
    split
    · split
      · exact ih (List.mem_append_left _ killed) unconfirmed
      · exact ih killed unconfirmed
    · exact ih killed unconfirmed

/-- The two scans confirm the same epoch, and kill as many. -/
structure Agree (d i : Outcome) : Prop where
  confirmed : d.confirmed = i.confirmed
  kills : d.carriedOut.length = i.kills.length

/-- A cell of a condemned epoch that comes true confirms it only where the kill is deferred. -/
theorem not_agree_of_correct {d i : Outcome} {k : Nat} (killed : k ∈ i.kills)
    (unconfirmed : i.confirmed < k) (later : k ≤ f.epoch) (going : d.reset = false)
    (correct : f.correct) (fs : List Finding) :
    ¬ (d.deferred (f :: fs)).Agree (i.immediate (f :: fs)) := by
  intro same
  have low := immediate_lt killed unconfirmed (f :: fs)
  have high := confirmed_le_deferred (d.judge f) fs
  rw [judge_of_correct going correct] at high
  have raised : f.epoch ≤ (d.deferred (f :: fs)).confirmed := by
    rw [deferred_cons, judge_of_correct going correct]
    exact (Nat.le_max_right _ _).trans high
  have eq := same.confirmed
  omega

/-- Once more epochs are condemned where kills are deferred, the scans never match again. -/
theorem not_agree_of_more {d i : Outcome} (same : d.confirmed = i.confirmed)
    (going : d.reset = false) (going' : i.reset = false)
    (more : i.kills.length < d.kills.length) (some_ : i.kills ≠ [])
    (later : ∀ k ∈ i.kills, i.confirmed < k) (fs : List Finding) :
    ¬ (d.deferred fs).Agree (i.immediate fs) := by
  induction fs generalizing d i with
  | nil =>
    intro agree
    have kills := agree.kills
    simp only [deferred, immediate, List.foldl_nil, carriedOut, going, Bool.false_eq_true,
      if_false] at kills
    omega
  | cons f rest ih =>
    by_cases dead : Condemned i.kills f.epoch
    · obtain ⟨k, killed, le⟩ := dead
      by_cases correct : f.correct
      · exact not_agree_of_correct killed (later k killed) le going correct rest
      rw [deferred_cons, immediate_cons, judgeLiving_of_condemned ⟨k, killed, le⟩]
      by_cases wrong : f.wrong
      · have unconfirmed : d.confirmed < f.epoch := by
          have lt := later k killed
          omega
        rw [judge_of_condemned going wrong unconfirmed]
        refine ih same going going' ?_ some_ later
        dsimp only
        rw [List.length_append]
        omega
      · rw [judge_of_neither correct wrong]
        exact ih same going going' more some_ later
    · rw [deferred_cons, immediate_cons, judgeLiving_of_living dead]
      by_cases correct : f.correct
      · rw [judge_of_correct going correct, judge_of_correct going' correct]
        refine ih ?_ going going' more some_ ?_
        · dsimp only
          rw [same]
        · intro k killed
          exact Nat.max_lt.mpr ⟨later k killed, Nat.not_le.mp fun le => dead ⟨k, killed, le⟩⟩
      by_cases wrong : f.wrong
      · by_cases tentative : i.confirmed < f.epoch
        · rw [judge_of_condemned going wrong (same ▸ tentative),
            judge_of_condemned going' wrong tentative]
          refine ih same going going' ?_ (by simp) ?_
          · dsimp only
            rw [List.length_append, List.length_append]
            exact Nat.add_lt_add_right more _
          · intro k mem
            rcases List.mem_append.mp mem with old | new
            · exact later k old
            · rw [List.mem_singleton.mp new]
              exact tentative
        · -- both reset, but only one has killed before
          have shown := Nat.not_lt.mp tentative
          rw [judge_of_shown going wrong (same ▸ shown), judge_of_shown going' wrong shown,
            deferred_of_reset rfl, immediate_of_reset rfl]
          intro agree
          exact some_ (List.eq_nil_of_length_eq_zero agree.kills.symm)
      · rw [judge_of_neither correct wrong, judge_of_neither correct wrong]
        exact ih same going going' more some_ later

/-- Scans that come to the same were undisturbed. -/
theorem undisturbed_of_agree (going : o.reset = false) (later : ∀ k ∈ o.kills, o.confirmed < k)
    (same : (o.deferred fs).Agree (o.immediate fs)) : Undisturbed o.confirmed o.kills fs := by
  induction fs generalizing o with
  | nil => trivial
  | cons f rest ih =>
    unfold Undisturbed
    split
    · rename_i correct
      have living : ¬ Condemned o.kills f.epoch := by
        rintro ⟨k, killed, le⟩
        exact not_agree_of_correct killed (later k killed) le going correct rest same
      rw [deferred_cons, immediate_cons, judgeLiving_of_living living,
        judge_of_correct going correct] at same
      refine ⟨living, ih (o := { o with confirmed := max o.confirmed f.epoch }) going ?_ same⟩
      intro k killed
      exact Nat.max_lt.mpr ⟨later k killed, Nat.not_le.mp fun le => living ⟨k, killed, le⟩⟩
    rename_i right
    split
    · rename_i wrong
      split
      · rename_i tentative
        have living : ¬ Condemned o.kills f.epoch := by
          rintro ⟨k, killed, le⟩
          rw [deferred_cons, immediate_cons, judge_of_condemned going wrong tentative,
            judgeLiving_of_condemned ⟨k, killed, le⟩] at same
          have more : o.kills.length < (o.kills ++ [f.epoch]).length := by
            rw [List.length_append]
            exact Nat.lt_succ_self _
          exact not_agree_of_more (d := { o with kills := o.kills ++ [f.epoch] }) (i := o) rfl
            going going more (List.ne_nil_of_mem killed) later rest same
        rw [deferred_cons, immediate_cons, judgeLiving_of_living living,
          judge_of_condemned going wrong tentative] at same
        refine ⟨living, ih (o := { o with kills := o.kills ++ [f.epoch] }) going ?_ same⟩
        intro k mem
        rcases List.mem_append.mp mem with old | new
        · exact later k old
        · rw [List.mem_singleton.mp new]
          exact tentative
      · rename_i shown
        have shown := Nat.not_lt.mp shown
        have living : ¬ Condemned o.kills f.epoch := by
          rintro ⟨k, killed, le⟩
          have lt := later k killed
          omega
        rw [deferred_cons, immediate_cons, judgeLiving_of_living living,
          judge_of_shown going wrong shown, deferred_of_reset rfl, immediate_of_reset rfl] at same
        exact List.eq_nil_of_length_eq_zero same.kills.symm
    · rename_i wrong
      rw [deferred_cons, immediate_cons, judge_of_neither right wrong] at same
      have skip : o.judgeLiving f = o := by
        unfold judgeLiving
        rw [judge_of_neither right wrong, ite_self]
      rw [skip] at same
      exact ih going later same

end Outcome

/-! ### The scan of `cull` -/

namespace OverlayCell

/-- The cell as the scan of its row judges it. -/
def finding (fb : Snapshot) (row lateAck : Nat) (c : OverlayCell) : Finding :=
  ⟨c.tentativeUntilEpoch, c.getValidity fb row lateAck⟩

theorem getValidity_guarded (fb : Snapshot) (row lateAck : Nat) (c : OverlayCell) :
    Guarded fb.Matches (c.getValidity fb row lateAck) fun v => c.getValidity fb row lateAck = .ok v := by
  have judged := getValidity_judged fb row lateAck c
  cases verdict : c.getValidity fb row lateAck with
  | ok v => exact rfl
  | error panic =>
    rw [verdict] at judged
    exact judged

end OverlayCell

namespace OverlayRow

/-- The findings in a row, in the order of the scan. -/
def findings (fb : Snapshot) (lateAck : Nat) (r : OverlayRow) : List Finding :=
  r.cells.map (·.finding fb r.rowNum lateAck)

end OverlayRow

namespace PredictionEngine

variable {fb : Snapshot} {row lateAck now j : Nat} {cells : List OverlayCell} {c : OverlayCell}

def Scan.outcome (scan : Scan) : Outcome :=
  ⟨scan.confirmedEpoch, scan.killEpochs, scan.doReset⟩

/-- What a verdict on the cell `c`, in column `j`, does to its row. -/
def retire (fb : Snapshot) (row : Nat) (c : OverlayCell) (v : Validity) (j : Nat)
    (cells : List OverlayCell) : List OverlayCell :=
  match v with
  | .correct =>
      ((fb.cell row c.col).elim cells fun actual => restyle actual.style j cells).modify j (·.reset)
  | .correctNoCredit => cells.modify j (·.reset)
  | _ => cells

theorem length_restyle (style : Style) (j : Nat) (cells : List OverlayCell) :
    (restyle style j cells).length = cells.length := by
  unfold restyle
  rw [List.length_append, List.length_map, ← List.length_append, List.take_append_drop]

theorem length_retire (fb : Snapshot) (row : Nat) (c : OverlayCell) (v : Validity) (j : Nat)
    (cells : List OverlayCell) : (retire fb row c v j cells).length = cells.length := by
  unfold retire
  split
  · rw [List.length_modify]
    cases fb.cell row c.col with
    | none => rfl
    | some actual => exact length_restyle _ _ _
  · rw [List.length_modify]
  · rfl

/-- Behind a cell that is judged, the findings stay. -/
theorem finding_retire (fb : Snapshot) (row lateAck : Nat) (c : OverlayCell) (v : Validity)
    (j : Nat) (cells : List OverlayCell) :
    ((retire fb row c v j cells).drop (j + 1)).map (·.finding fb row lateAck) =
      (cells.drop (j + 1)).map (·.finding fb row lateAck) := by
  have behind (cells : List OverlayCell) :
      (cells.modify j (·.reset)).drop (j + 1) = cells.drop (j + 1) :=
    List.drop_modify_of_lt _ _ _ _ (Nat.lt_succ_self j)
  unfold retire
  split
  · rw [behind]
    cases fb.cell row c.col with
    | none => rfl
    | some actual =>
      change ((restyle actual.style j cells).drop (j + 1)).map _ = _
      apply List.ext_getElem?
      intro k
      unfold restyle
      simp only [List.getElem?_map, List.getElem?_drop]
      by_cases inside : j ≤ cells.length
      · rw [List.getElem?_append_right (by rw [List.length_take]; omega), List.length_take,
          List.getElem?_map, List.getElem?_drop, Option.map_map]
        have at_ : j + (j + 1 + k - min j cells.length) = j + 1 + k := by omega
        rw [at_]
        rfl
      · rw [List.getElem?_eq_none, List.getElem?_eq_none]
        · omega
        · rw [List.length_append, List.length_map, List.length_take, List.length_drop]
          omega
  · rw [behind]
  · rfl

/-- The scan behind a verdict. -/
def Scan.After (scan : Scan) (c : OverlayCell) (v : Validity) (scan' : Scan) : Prop :=
  if v = .incorrectOrExpired then
    if scan.confirmedEpoch < c.tentativeUntilEpoch then
      scan' = { scan with killEpochs := scan.killEpochs ++ [c.tentativeUntilEpoch] }
    else scan' = { scan with doReset := true }
  else ∃ glitchTrigger lastQuick, scan' = { scan with
    confirmedEpoch :=
      if v = .correct then max scan.confirmedEpoch c.tentativeUntilEpoch else scan.confirmedEpoch
    glitchTrigger, lastQuick }

theorem scanCell_after {scan : Scan} (going : scan.doReset = false) (found : cells[j]? = some c) :
    Guarded fb.Matches (scanCell fb row lateAck now false j (cells, scan)) fun s =>
      ∃ v, c.getValidity fb row lateAck = .ok v ∧ s.1 = retire fb row c v j cells ∧
        scan.After c v s.2 := by
  obtain ⟨inside, eq⟩ := List.getElem?_eq_some_iff.mp found
  have set (cells' : List OverlayCell) (length : cells'.length = cells.length) :
      Guarded fb.Matches (getAt cells' j >>= fun c' => setAt cells' j c'.reset)
        (· = cells'.modify j (·.reset)) := by
    have inside' : j < cells'.length := length ▸ inside
    rw [getAt_eq_ok inside']
    refine (Guarded.of_yields (Yields.setAt inside')).mono ?_
    rintro _ rfl
    rw [List.modify_eq_set_getElem?, List.getElem?_eq_getElem inside']
    rfl
  unfold scanCell
  rw [if_neg (by simp [going])]
  dsimp only
  rw [getAt_eq_ok inside, eq]
  change Guarded _ (c.getValidity fb row lateAck >>= _) _
  refine Guarded.bind (OverlayCell.getValidity_guarded fb row lateAck c) ?_
  intro v verdict
  have clear : setAt cells j c.reset = getAt cells j >>= fun c' => setAt cells j c'.reset := by
    rw [getAt_eq_ok inside, eq]
    rfl
  cases v with
  | incorrectOrExpired =>
    dsimp only
    rw [if_neg Bool.false_ne_true]
    by_cases later : scan.confirmedEpoch < c.tentativeUntilEpoch
    · rw [if_pos (by simpa [OverlayCell.tentative] using later)]
      refine .pure ⟨_, verdict, rfl, ?_⟩
      unfold Scan.After
      rw [if_pos rfl, if_pos later]
    · rw [if_neg (by simpa [OverlayCell.tentative] using later)]
      refine .pure ⟨_, verdict, rfl, ?_⟩
      unfold Scan.After
      rw [if_pos rfl, if_neg later]
  | correct =>
    have after (scan' : Scan) (glitchTrigger lastQuick : Nat) (same : scan' = { scan with
        confirmedEpoch := max scan.confirmedEpoch c.tentativeUntilEpoch, glitchTrigger, lastQuick }) :
        scan.After c .correct scan' := by
      unfold Scan.After
      rw [if_neg (by decide)]
      exact ⟨glitchTrigger, lastQuick, same⟩
    have finish (cells' : List OverlayCell) (length : cells'.length = cells.length) {scan' : Scan}
        (scanned : scan.After c .correct scan') (same : cells'.modify j (·.reset) =
          retire fb row c .correct j cells) :
        Guarded fb.Matches (getAt cells' j >>= fun c' => setAt cells' j c'.reset >>= fun cells =>
          pure (cells, scan')) fun s => ∃ v, c.getValidity fb row lateAck = .ok v ∧
            s.1 = retire fb row c v j cells ∧ scan.After c v s.2 := by
      rw [← bind_assoc]
      refine (set cells' length).bind ?_
      rintro _ rfl
      exact .pure ⟨_, verdict, same, scanned⟩
    have scanned : scan.After c .correct (if now - c.predictionTime < GLITCH_THRESHOLD ∧
        scan.glitchTrigger > 0 ∧ now - GLITCH_REPAIR_MININTERVAL ≥ scan.lastQuick then
      { scan with
        confirmedEpoch := max scan.confirmedEpoch c.tentativeUntilEpoch,
        glitchTrigger := scan.glitchTrigger - 1, lastQuick := now }
      else { scan with
        confirmedEpoch := max scan.confirmedEpoch c.tentativeUntilEpoch }) := by
      split
      · exact after _ _ _ rfl
      · exact after _ _ _ rfl
    dsimp only
    cases shown : fb.cell row c.col with
    | some actual =>
      refine finish _ (length_restyle _ _ _) scanned ?_
      unfold retire
      rw [shown]
      rfl
    | none =>
      refine finish _ rfl scanned ?_
      unfold retire
      rw [shown]
      rfl
  | correctNoCredit =>
    dsimp only
    rw [clear]
    refine (set cells rfl).bind ?_
    rintro _ rfl
    refine .pure ⟨_, verdict, rfl, ?_⟩
    unfold Scan.After
    rw [if_neg (by decide)]
    exact ⟨_, _, rfl⟩
  | pending =>
    refine .pure ⟨_, verdict, rfl, ?_⟩
    unfold Scan.After
    rw [if_neg (by decide)]
    split
    · exact ⟨_, _, rfl⟩
    · split <;> exact ⟨_, _, rfl⟩
  | inactive =>
    refine .pure ⟨_, verdict, rfl, ?_⟩
    unfold Scan.After
    rw [if_neg (by decide)]
    exact ⟨_, _, rfl⟩

/-- What a verdict comes to, for the outcome of the scan. -/
theorem Scan.After.outcome {scan scan' : Scan} {v : Validity} (h : scan.After c v scan')
    (going : scan.doReset = false) (verdict : c.getValidity fb row lateAck = .ok v) :
    scan'.outcome = scan.outcome.judge (c.finding fb row lateAck) := by
  unfold Scan.After at h
  have stays : scan.outcome.reset = false := going
  split at h
  · rename_i wrong
    subst wrong
    have wrong : (c.finding fb row lateAck).wrong := verdict
    split at h
    · rename_i later
      subst h
      exact (Outcome.judge_of_condemned stays wrong later).symm
    · rename_i shown
      subst h
      have shown : (c.finding fb row lateAck).epoch ≤ scan.outcome.confirmed := Nat.not_lt.mp shown
      exact (Outcome.judge_of_shown stays wrong shown).symm
  · rename_i right
    obtain ⟨glitchTrigger, lastQuick, rfl⟩ := h
    have notWrong : ¬ (c.finding fb row lateAck).wrong := fun wrong =>
      right (Except.ok.inj (verdict.symm.trans wrong))
    split
    · rename_i correct
      subst correct
      have correct : (c.finding fb row lateAck).correct := verdict
      exact (Outcome.judge_of_correct stays correct).symm
    · rename_i other
      have notCorrect : ¬ (c.finding fb row lateAck).correct := fun correct =>
        other (Except.ok.inj (verdict.symm.trans correct))
      exact (Outcome.judge_of_neither notCorrect notWrong).symm

theorem scanCell_of_reset {scan : Scan} (stopped : scan.doReset = true) :
    scanCell fb row lateAck now false j (cells, scan) = .ok (cells, scan) :=
  if_pos stopped

/-- The scan of a row comes to what its findings come to. -/
theorem scanRow_deferred (fb : Snapshot) (lateAck now : Nat) (r : OverlayRow) (scan : Scan) :
    Guarded fb.Matches (scanRow fb lateAck now false r scan) fun s =>
      s.2.outcome = scan.outcome.deferred (r.findings fb lateAck) := by
  let left (n : Nat) (s : List OverlayCell × Scan) : Prop :=
    s.1.length = r.cells.length ∧
      s.2.outcome.deferred ((s.1.drop n).map (·.finding fb r.rowNum lateAck)) =
        scan.outcome.deferred (r.findings fb lateAck)
  have start : left 0 (r.cells, scan) := ⟨rfl, rfl⟩
  unfold scanRow
  refine Guarded.bind (Guarded.forRange_index (Nat.zero_le _) start ?_) ?_
  · rintro n ⟨cells, scan'⟩ - before ⟨length, same⟩
    have inside : n < cells.length := length ▸ before
    cases going : scan'.doReset with
    | true =>
      rw [scanCell_of_reset going]
      refine .ok ⟨length, ?_⟩
      rw [Outcome.deferred_of_reset going] at same ⊢
      exact same
    | false =>
      have found : cells[n]? = some cells[n] := List.getElem?_eq_getElem inside
      refine (scanCell_after going found).mono ?_
      rintro ⟨cells', scan''⟩ ⟨v, verdict, rfl, after⟩
      refine ⟨(length_retire _ _ _ _ _ _).trans length, ?_⟩
      dsimp only at same ⊢
      rw [finding_retire, after.outcome going verdict, ← same, List.drop_eq_getElem_cons inside,
        List.map_cons, Outcome.deferred_cons]
  · rintro ⟨cells, scan'⟩ ⟨length, same⟩
    refine .pure ?_
    dsimp only at length same ⊢
    rw [← length, List.drop_length] at same
    exact same

/-- So does the scan of an overlay. -/
theorem scanRows_deferred (fb : Snapshot) (lateAck now : Nat) (rows : List OverlayRow) (scan : Scan) :
    Guarded fb.Matches (scanRows fb lateAck now false rows scan) fun s =>
      s.2.outcome = scan.outcome.deferred (rows.flatMap (·.findings fb lateAck)) := by
  induction rows generalizing scan with
  | nil => exact .ok rfl
  | cons r rest ih =>
    unfold scanRows
    refine (scanRow_deferred fb lateAck now r scan).bind ?_
    rintro ⟨r', scan'⟩ first
    rw [List.flatMap_cons, Outcome.deferred_append, ← first]
    dsimp only
    split
    · rename_i stopped
      exact .pure (Outcome.deferred_of_reset stopped _).symm
    · refine (ih scan').bind ?_
      rintro ⟨rest', scan''⟩ later
      exact .pure later

end PredictionEngine

end Posh.Remote
