import Posh.Term.Process
import Posh.Term.RowEdits

/-!
Controls that rearrange rows.

Most controls write into no row: they move rows, drop them, make blank ones, or leave both
screens alone. Whatever holds of blank rows and of every row before holds of every row after
them.
-/

namespace Posh.Term

open Posh.Lib

namespace Terminal

variable {t t' t'' : Terminal}

/-- Every row is one of the terminal before, or a blank one. -/
def Rearranges (t t' : Terminal) : Prop :=
  ∀ P : List Cell → Prop, (∀ n style, P (List.replicate n (Cell.blank style))) →
    t.EveryRow P → t'.EveryRow P

theorem Rearranges.refl (t : Terminal) : t.Rearranges t :=
  fun _ _ => id

theorem Rearranges.trans (h : t.Rearranges t') (h' : t'.Rearranges t'') : t.Rearranges t'' :=
  fun P blank every => h' P blank (h P blank every)

/-- A change of other fields. -/
theorem rearranges_of_eq (screens : (t'.primary, t'.alt) = (t.primary, t.alt)) :
    t.Rearranges t' := by
  obtain ⟨primary, alt⟩ := Prod.mk.inj screens
  intro P _ every
  exact ⟨primary ▸ every.primary, alt ▸ every.alt⟩

theorem Rearranges.then {x : Checked Terminal} (h : t.Rearranges t')
    (hx : Guarded False x t'.Rearranges) : Guarded False x t.Rearranges :=
  hx.mono fun _ => h.trans

/-- A touch at the end. -/
theorem rearranges_touch {x : Checked Terminal} (hx : Guarded False x t.Rearranges) :
    Guarded False (x >>= fun t => return t.touch) t.Rearranges :=
  hx.bind fun _ rearranges => .pure (rearranges.trans (rearranges_of_eq rfl))

/-- The wrap settled, and a touch, at the end. -/
theorem rearranges_settle {x : Checked Terminal} (hx : Guarded False x t.Rearranges) :
    Guarded False (x >>= fun t => return { t with cursor.pendingWrap := false }.touch)
      t.Rearranges :=
  hx.bind fun _ rearranges => .pure (rearranges.trans (rearranges_of_eq rfl))

/-- An operation of the active screen that moves rows. -/
theorem moveRows_rearranges (t : Terminal) {f : Screen → Checked Screen}
    (keeps : ∀ P : List Cell → Prop, (∀ n style, P (List.replicate n (Cell.blank style))) →
      t.scr.Every P → Guarded False (f t.scr) (·.Every P)) :
    Guarded False (t.modifyScr f) t.Rearranges :=
  .all fun P => .imp fun blank => .imp fun every =>
    modifyScr_everyRow every (keeps P blank every.scr)

/-! ### Moving down and up -/

theorem scrollUpN_rearranges (n : Nat) (t : Terminal) :
    Guarded False (t.scrollUpN n) t.Rearranges := by
  unfold scrollUpN
  apply (Guarded.trivial _).bind
  rintro ⟨top, bot⟩ _
  apply (Guarded.trivial _).bind
  intro last _
  exact rearranges_touch (moveRows_rearranges t fun P blank every =>
    Screen.scrollUp_every blank every)

theorem scrollDownN_rearranges (n : Nat) (t : Terminal) :
    Guarded False (t.scrollDownN n) t.Rearranges := by
  unfold scrollDownN
  apply (Guarded.trivial _).bind
  rintro ⟨top, bot⟩ _
  exact rearranges_touch (moveRows_rearranges t fun P blank every =>
    Screen.scrollDown_every blank every)

theorem index_rearranges (t : Terminal) : Guarded False t.index t.Rearranges := by
  have still : t.Rearranges { t with cursor.pendingWrap := false } := rearranges_of_eq rfl
  unfold index
  apply (Guarded.trivial _).bind
  rintro ⟨top, bot⟩ _
  dsimp only
  split
  · exact rearranges_touch (still.then (scrollUpN_rearranges 1 _))
  · apply (Guarded.trivial _).bind
    intro below _
    refine .pure ?_
    split
    · exact rearranges_of_eq rfl
    · exact rearranges_of_eq rfl

theorem reverseIndex_rearranges (t : Terminal) : Guarded False t.reverseIndex t.Rearranges := by
  have still : t.Rearranges { t with cursor.pendingWrap := false } := rearranges_of_eq rfl
  unfold reverseIndex
  apply (Guarded.trivial _).bind
  rintro ⟨top, bot⟩ _
  dsimp only
  split
  · exact rearranges_touch (still.then (scrollDownN_rearranges 1 _))
  · exact .pure (rearranges_of_eq rfl)

theorem linefeed_rearranges (t : Terminal) : Guarded False t.linefeed t.Rearranges := by
  refine (index_rearranges t).bind ?_
  intro t' rearranges
  refine .pure (rearranges.trans ?_)
  split
  · exact rearranges_of_eq rfl
  · exact .refl t'

theorem horizontalTab_rearranges (t : Terminal) : Guarded False t.horizontalTab t.Rearranges := by
  unfold horizontalTab
  apply (Guarded.trivial _).bind
  intro col _
  exact .pure (rearranges_of_eq rfl)

theorem execute_rearranges (b : UInt8) (t : Terminal) :
    Guarded False (t.execute b) t.Rearranges := by
  have home : t.Rearranges { t with cursor.col := 0 } := rearranges_of_eq rfl
  unfold execute
  split
  · exact .ok (rearranges_of_eq rfl)
  · exact .ok (rearranges_of_eq rfl)
  · exact horizontalTab_rearranges t
  · exact linefeed_rearranges t
  · exact linefeed_rearranges t
  · exact linefeed_rearranges t
  · exact .ok (rearranges_of_eq rfl)
  · exact .ok (rearranges_of_eq rfl)
  · exact .ok (rearranges_of_eq rfl)
  · exact index_rearranges t
  · exact home.then (index_rearranges _)
  · exact .ok (rearranges_of_eq rfl)
  · exact reverseIndex_rearranges t
  · exact .ok (.refl t)

/-- The row that wraps keeps its cells. -/
theorem wrapLine_rearranges (t : Terminal) : Guarded False t.wrapLine t.Rearranges := by
  refine (moveRows_rearranges t fun P _ every => Screen.setWrapped_every every).bind ?_
  intro t' rearranges
  have home : t'.Rearranges { t' with cursor.col := 0 } := rearranges_of_eq rfl
  exact (rearranges.trans home).then (index_rearranges _)

theorem wrapPending_rearranges (t : Terminal) : Guarded False t.wrapPending t.Rearranges := by
  have still : t.Rearranges { t with cursor.pendingWrap := false } := rearranges_of_eq rfl
  unfold wrapPending
  split
  · dsimp only
    split
    · exact still.then (wrapLine_rearranges _)
    · exact .ok still
  · exact .ok (.refl t)

/-! ### Cursors and resets -/

theorem setSaved_rearranges (saved : SavedCursor) (t : Terminal) :
    t.Rearranges (t.setSaved saved) := by
  unfold setSaved
  split
  · exact rearranges_of_eq rfl
  · exact rearranges_of_eq rfl

theorem clampToRegionIfOrigin_rearranges (t : Terminal) :
    Guarded False t.clampToRegionIfOrigin t.Rearranges := by
  unfold clampToRegionIfOrigin
  split
  · apply (Guarded.trivial _).bind
    rintro ⟨top, bot⟩ _
    dsimp only
    split
    · exact .pure (rearranges_of_eq rfl)
    · exact .error id
  · exact .ok (.refl t)

theorem clampCursor_rearranges (t : Terminal) : Guarded False t.clampCursor t.Rearranges := by
  unfold clampCursor
  apply (Guarded.trivial _).bind
  intro lastRow _
  apply (Guarded.trivial _).bind
  intro lastCol _
  exact .pure (rearranges_of_eq rfl)

theorem restoreCursor_rearranges (t : Terminal) : Guarded False t.restoreCursor t.Rearranges := by
  have restored : t.Rearranges
      { t with cursor := t.saved.cursor, modes.origin := t.saved.origin } := rearranges_of_eq rfl
  unfold restoreCursor
  refine (restored.then (clampCursor_rearranges _)).bind ?_
  intro t₁ rearranges₁
  exact rearranges_touch (rearranges₁.then (clampToRegionIfOrigin_rearranges t₁))

theorem moveTo_rearranges (row col : Nat) (t : Terminal) :
    Guarded False (t.moveTo row col) t.Rearranges := by
  unfold moveTo
  apply (Guarded.trivial _).bind
  rintro ⟨top, bot⟩ _
  apply (Guarded.trivial _).bind
  intro lastRow _
  apply (Guarded.trivial _).bind
  intro lastCol _
  exact .pure (rearranges_of_eq rfl)

theorem wholeRegion_rearranges (t : Terminal) : Guarded False t.wholeRegion t.Rearranges := by
  unfold wholeRegion
  apply (Guarded.trivial _).bind
  intro last _
  exact .pure (rearranges_of_eq rfl)

theorem fullReset_rearranges (t : Terminal) : Guarded False t.fullReset t.Rearranges := by
  unfold fullReset
  apply (Guarded.trivial _).bind
  intro last _
  refine .pure ?_
  intro P blank every
  exact ⟨every.primary.clearGrid blank {}, every.alt.clearGrid blank {}⟩

theorem modifyKitty_rearranges (f : KittyKeyStack → KittyKeyStack) (t : Terminal) :
    t.Rearranges (t.modifyKitty f) := by
  unfold modifyKitty
  split
  · exact rearranges_of_eq rfl
  · exact rearranges_of_eq rfl

theorem softReset_rearranges (t : Terminal) : Guarded False t.softReset t.Rearranges := by
  have reset : t.Rearranges { t with modes := { t.modes with
      cursorVisible := true, origin := false, insert := false, autowrap := false,
      cursorKeys := false, keypadApp := false } } := rearranges_of_eq rfl
  unfold softReset
  refine (reset.then (wholeRegion_rearranges _)).bind ?_
  intro t₁ rearranges₁
  have cleared : t₁.Rearranges { t₁ with
      cursor := { t₁.cursor with
        style := {}, hyperlink := 0, pendingWrap := false, g0 := .ascii, g1 := .ascii, shift := 0 }
      cursorStyleRaw := 0 } := rearranges_of_eq rfl
  have forgot := (rearranges₁.trans cleared).trans (setSaved_rearranges {} _)
  exact .pure (forgot.trans ((modifyKitty_rearranges (·.reset) _).trans (rearranges_of_eq rfl)))

theorem clearAlt_rearranges (t : Terminal) : t.Rearranges t.clearAlt :=
  fun _ blank every => ⟨every.primary, every.alt.clearGrid blank _⟩

theorem enterAlt_rearranges (mode : Nat) (t : Terminal) : t.Rearranges (t.enterAlt mode) := by
  have saved : t.Rearranges (if mode = 1049 then t.saveCursor else t) := by
    split
    · exact setSaved_rearranges _ t
    · exact .refl t
  unfold enterAlt
  dsimp only
  generalize (if mode = 1049 then t.saveCursor else t) = t₁ at saved
  have entered : t.Rearranges { t₁ with altActive := true } := saved.trans (rearranges_of_eq rfl)
  split
  · exact entered.trans (clearAlt_rearranges _)
  · exact entered

theorem leaveAlt_rearranges (mode : Nat) (t : Terminal) :
    Guarded False (t.leaveAlt mode) t.Rearranges := by
  have cleared : t.Rearranges (if mode = 1047 then t.clearAlt else t) := by
    split
    · exact clearAlt_rearranges t
    · exact .refl t
  unfold leaveAlt
  dsimp only
  generalize (if mode = 1047 then t.clearAlt else t) = t₁ at cleared
  have left : t.Rearranges { t₁ with altActive := false } := cleared.trans (rearranges_of_eq rfl)
  split
  · exact left.then (restoreCursor_rearranges _)
  · exact .ok left

theorem setAltScreen_rearranges (mode : Nat) (on : Bool) (t : Terminal) :
    Guarded False (t.setAltScreen mode on) t.Rearranges := by
  have marked : t.Rearranges { t with screenSwitch := some .alt } := rearranges_of_eq rfl
  unfold setAltScreen
  dsimp only
  refine Guarded.bind (p := t.Rearranges) ?_ ?_
  · split
    · exact .pure (marked.trans (enterAlt_rearranges mode _))
    split
    · exact marked.then (leaveAlt_rearranges mode _)
    · exact .pure marked
  · intro t₁ rearranges₁
    apply (Guarded.trivial _).bind
    intro last _
    exact .pure (rearranges₁.trans (rearranges_of_eq rfl))

/-! ### Control sequences -/

theorem setCol_rearranges (col : Nat) (t : Terminal) :
    Guarded False (t.setCol col) t.Rearranges := by
  unfold setCol
  apply (Guarded.trivial _).bind
  intro last _
  exact .pure (rearranges_of_eq rfl)

theorem cursorUp_rearranges (n : Nat) (t : Terminal) :
    Guarded False (t.cursorUp n) t.Rearranges := by
  unfold cursorUp
  apply (Guarded.trivial _).bind
  rintro ⟨top, bot⟩ _
  exact .pure (rearranges_of_eq rfl)

theorem cursorDown_rearranges (n : Nat) (t : Terminal) :
    Guarded False (t.cursorDown n) t.Rearranges := by
  unfold cursorDown
  apply (Guarded.trivial _).bind
  rintro ⟨top, bot⟩ _
  apply (Guarded.trivial _).bind
  intro limit _
  exact .pure (rearranges_of_eq rfl)

theorem rowAbsolute_rearranges (params : Params) (t : Terminal) :
    Guarded False (t.rowAbsolute params) t.Rearranges := by
  unfold rowAbsolute
  apply (Guarded.trivial _).bind
  intro row _
  apply (Guarded.trivial _).bind
  rintro ⟨top, bot⟩ _
  apply (Guarded.trivial _).bind
  intro last _
  have moved (row : Nat) : t.Rearranges { t with cursor.row := row } := rearranges_of_eq rfl
  exact rearranges_settle ((moved _).then (clampToRegionIfOrigin_rearranges _))

theorem setRegion_rearranges (params : Params) (t : Terminal) :
    Guarded False (t.setRegion params) t.Rearranges := by
  unfold setRegion
  apply (Guarded.trivial _).bind
  intro top _
  apply (Guarded.trivial _).bind
  intro bot _
  apply (Guarded.trivial _).bind
  intro last _
  dsimp only
  split
  · have narrowed (bot : Nat) : t.Rearranges { t with scrollTop := top, scrollBot := bot } :=
      rearranges_of_eq rfl
    exact (narrowed _).then (moveTo_rearranges 0 0 _)
  · exact .pure (.refl t)

theorem setRowWrapped_rearranges (row : Nat) (wrapped : Bool) (t : Terminal) :
    Guarded False (t.setRowWrapped row wrapped) t.Rearranges :=
  moveRows_rearranges t fun _ _ every => Screen.setWrapped_every every

theorem insertLines_rearranges (n : Nat) (t : Terminal) :
    Guarded False (t.insertLines n) t.Rearranges := by
  unfold insertLines
  apply (Guarded.trivial _).bind
  rintro ⟨top, bot⟩ _
  dsimp only
  split
  · exact .pure (.refl t)
  · refine (moveRows_rearranges t fun P blank every => Screen.scrollDown_every blank every).bind ?_
    intro t₁ rearranges₁
    exact .pure (rearranges₁.trans (rearranges_of_eq rfl))

theorem deleteLines_rearranges (n : Nat) (t : Terminal) :
    Guarded False (t.deleteLines n) t.Rearranges := by
  unfold deleteLines
  apply (Guarded.trivial _).bind
  rintro ⟨top, bot⟩ _
  dsimp only
  split
  · exact .pure (.refl t)
  · refine (moveRows_rearranges t fun P blank every => Screen.scrollUp_every blank every).bind ?_
    intro t₁ rearranges₁
    exact .pure (rearranges₁.trans (rearranges_of_eq rfl))

theorem sgr_rearranges (params : Params) (t : Terminal) : t.Rearranges (t.sgr params) := by
  unfold sgr
  dsimp only
  split
  · exact rearranges_of_eq rfl
  · exact rearranges_of_eq rfl

theorem clearTabs_rearranges (mode : Nat) (t : Terminal) : t.Rearranges (t.clearTabs mode) := by
  unfold clearTabs
  split
  · exact rearranges_of_eq rfl
  · exact rearranges_of_eq rfl
  · exact .refl t

theorem statusReport_rearranges (mode : Nat) (t : Terminal) :
    Guarded False (t.statusReport mode) t.Rearranges := by
  unfold statusReport
  split
  · exact .ok (rearranges_of_eq rfl)
  · apply (Guarded.trivial _).bind
    rintro ⟨top, bot⟩ _
    apply (Guarded.trivial _).bind
    intro row _
    apply (Guarded.trivial _).bind
    intro col _
    exact .pure (rearranges_of_eq rfl)
  · exact .ok (.refl t)

theorem extendedCursorReport_rearranges (t : Terminal) :
    Guarded False t.extendedCursorReport t.Rearranges := by
  unfold extendedCursorReport
  apply (Guarded.trivial _).bind
  intro row _
  apply (Guarded.trivial _).bind
  intro col _
  exact .pure (rearranges_of_eq rfl)

theorem windowOps_rearranges (op : Nat) (t : Terminal) :
    Guarded False (t.windowOps op) t.Rearranges := by
  unfold windowOps
  split
  · apply (Guarded.trivial _).bind
    intro height _
    apply (Guarded.trivial _).bind
    intro width _
    exact .pure (rearranges_of_eq rfl)
  · exact .ok (rearranges_of_eq rfl)
  · exact .ok (rearranges_of_eq rfl)
  · exact .ok (.refl t)

theorem popColors_rearranges (t : Terminal) : t.Rearranges t.popColors := by
  unfold popColors
  split
  · exact rearranges_of_eq rfl
  · exact .refl t

theorem csiMarked_rearranges (params : Params) (marker final : Char) (t : Terminal) :
    t.Rearranges (t.csiMarked params marker final) := by
  unfold csiMarked
  split
  · exact rearranges_of_eq rfl
  · exact rearranges_of_eq rfl
  · exact modifyKitty_rearranges _ t
  · exact modifyKitty_rearranges _ t
  · exact modifyKitty_rearranges _ t
  · exact .refl t

theorem csiWith_rearranges (params : Params) (intermediate final : Char) (t : Terminal) :
    Guarded False (t.csiWith params intermediate final) t.Rearranges := by
  unfold csiWith
  split
  · exact .ok (rearranges_of_eq rfl)
  · exact softReset_rearranges t
  · exact .ok (rearranges_of_eq rfl)
  · exact .ok (rearranges_of_eq rfl)
  · exact .ok (popColors_rearranges t)
  · exact .ok (rearranges_of_eq rfl)
  · dsimp only
    split
    · exact .ok (rearranges_of_eq rfl)
    · exact .ok (.refl t)
  · exact .ok (.refl t)

/-! ### Strings -/

theorem setPaletteColor_rearranges (bel : Bool) (idx spec : List Char) (t : Terminal) :
    Guarded False (t.setPaletteColor bel idx spec) t.Rearranges := by
  unfold setPaletteColor
  split
  · exact .pure (.refl t)
  split
  · exact .pure (.refl t)
  split
  · apply (Guarded.trivial _).bind
    intro color _
    apply (Guarded.trivial _).bind
    intro report _
    exact .pure (rearranges_of_eq rfl)
  · apply (Guarded.trivial _).bind
    intro parsed _
    split
    · apply (Guarded.trivial _).bind
      intro palette _
      exact .pure (rearranges_of_eq rfl)
    · exact .pure (.refl t)

theorem oscPalette_rearranges (bel : Bool) : ∀ (parts : List (List Char)) (t : Terminal),
    Guarded False (oscPalette bel parts t) t.Rearranges
  | [], t => .pure (.refl t)
  | [_], t => .pure (.refl t)
  | idx :: spec :: rest, t => by
    refine (setPaletteColor_rearranges bel idx spec t).bind ?_
    intro t' rearranges
    exact rearranges.then (oscPalette_rearranges bel rest t')

theorem oscDynamicColor_rearranges (code : Nat) (rest : List Char) (bel : Bool) (t : Terminal) :
    Guarded False (t.oscDynamicColor code rest bel) t.Rearranges := by
  have set (color : Option Rgb) : t.Rearranges (t.setDynamicColor code color).touch := by
    unfold setDynamicColor
    split <;> exact rearranges_of_eq rfl
  unfold oscDynamicColor
  split
  · apply (Guarded.trivial _).bind
    intro report _
    exact .pure (rearranges_of_eq rfl)
  · apply (Guarded.trivial _).bind
    intro parsed _
    split
    · exact .pure (set _)
    · exact .pure (.refl t)

theorem oscResetPalette_rearranges (rest : List Char) (t : Terminal) :
    Guarded False (t.oscResetPalette rest) t.Rearranges := by
  unfold oscResetPalette
  split
  · exact .pure (rearranges_of_eq rfl)
  · apply (Guarded.trivial _).bind
    intro palette _
    exact .pure (rearranges_of_eq rfl)

theorem oscClipboard_rearranges (rest : List Char) (bel : Bool) (t : Terminal) :
    Guarded False (t.oscClipboard rest bel) t.Rearranges := by
  have stored (data : Bytes) (kinds : List Char) :
      t.Rearranges (kinds.foldl (setSelection data) t) := by
    refine List.foldlRecOn kinds (setSelection data) (.refl t) ?_
    intro t' rearranges kind _
    refine rearranges.trans ?_
    unfold setSelection
    split <;> exact rearranges_of_eq rfl
  unfold oscClipboard
  dsimp only
  split
  · apply (Guarded.trivial _).bind
    intro kind _
    exact .pure (rearranges_of_eq rfl)
  · split
    · exact .pure ((stored _ _).trans (rearranges_of_eq rfl))
    · exact .pure (.refl t)

theorem oscHyperlink_rearranges (rest : List Char) (t : Terminal) :
    Guarded False (t.oscHyperlink rest) t.Rearranges := by
  unfold oscHyperlink
  generalize (splitOnce ';' rest).getD ([], rest) = split_
  obtain ⟨params, uri⟩ := split_
  dsimp only
  split
  · exact .pure (rearranges_of_eq rfl)
  split
  · exact .pure (rearranges_of_eq rfl)
  · apply (Guarded.trivial _).bind
    intro next _
    exact .pure (rearranges_of_eq rfl)

theorem oscPromptMark_rearranges (rest : List Char) (t : Terminal) :
    Guarded False (t.oscPromptMark rest) t.Rearranges := by
  unfold oscPromptMark
  split
  · exact .pure (.refl t)
  · refine rearranges_touch (moveRows_rearranges t fun P _ every => ?_)
    exact Screen.modifyRow_every every fun _ _ holds => .pure holds

/-- All but OSC 66, which prints its text. -/
theorem oscCommand_rearranges {code : Nat} (other : code ≠ 66) (rest : List Char) (bel : Bool)
    (t : Terminal) : Guarded False (t.oscCommand code rest bel) t.Rearranges := by
  unfold oscCommand
  split
  · exact .pure (rearranges_of_eq rfl)
  · exact .pure (rearranges_of_eq rfl)
  · exact .pure (rearranges_of_eq rfl)
  · exact oscPalette_rearranges bel _ t
  · apply (Guarded.trivial _).bind
    intro pwd _
    exact .pure (rearranges_of_eq rfl)
  · exact oscHyperlink_rearranges rest t
  · exact .pure (rearranges_of_eq rfl)
  · exact oscDynamicColor_rearranges _ rest bel t
  · exact oscDynamicColor_rearranges _ rest bel t
  · exact oscDynamicColor_rearranges _ rest bel t
  · exact .pure (rearranges_of_eq rfl)
  · exact oscClipboard_rearranges rest bel t
  · exact absurd rfl other
  · exact .pure (rearranges_of_eq rfl)
  · exact oscResetPalette_rearranges rest t
  · exact .pure (rearranges_of_eq rfl)
  · exact .pure (rearranges_of_eq rfl)
  · exact .pure (rearranges_of_eq rfl)
  · exact oscPromptMark_rearranges rest t
  · exact .pure (.refl t)

theorem dcsDispatch_rearranges (intermediates : Bytes) (finalByte : UInt8) (data : Bytes)
    (t : Terminal) :
    Guarded False (t.dcsDispatch intermediates finalByte data) t.Rearranges := by
  unfold dcsDispatch
  split
  · split
    · unfold decrqss
      apply (Guarded.trivial _).bind
      intro resp _
      split
      · exact .pure (rearranges_of_eq rfl)
      · exact .pure (rearranges_of_eq rfl)
    · exact .pure (.refl t)
  · split
    · unfold xtgettcap
      split
      · exact .pure (.refl t)
      · refine Guarded.forEach (.refl t) ?_
        intro nameHex _ t' rearranges
        apply (Guarded.trivial _).bind
        intro reply _
        exact .pure (rearranges.trans (rearranges_of_eq rfl))
    · exact .pure (.refl t)
  · exact .pure (.refl t)

theorem apcDispatch_rearranges (files : Files) (data : Bytes) (t : Terminal) :
    Guarded False (t.apcDispatch files data) t.Rearranges := by
  unfold apcDispatch
  split
  · exact .pure (.refl t)
  split
  · apply (Guarded.trivial _).bind
    rintro ⟨graphics, resp, advance⟩ _
    have answered :
        t.Rearranges (resp.elim { t with graphics } ({ t with graphics }.respond ·)) := by
      cases resp with
      | none => exact rearranges_of_eq rfl
      | some reply => exact rearranges_of_eq rfl
    refine rearranges_touch ?_
    split
    · unfold advanceCursor
      apply (Guarded.trivial _).bind
      intro lastRow _
      apply (Guarded.trivial _).bind
      intro lastCol _
      exact .pure (answered.trans (rearranges_of_eq rfl))
    · exact .pure answered
  · exact .pure (.refl t)

end Terminal

end Posh.Term
