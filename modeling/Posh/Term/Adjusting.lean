import Posh.Term.Runs
import Posh.Term.Settings

/-!
What any stream does to the settings.

Every action and every resize takes the settings of a terminal through steps of their machine,
whatever else it does to the terminal.
-/

namespace Posh.Term

open Posh.Lib

/-! ### Screens -/

namespace Screen

/-- The height and the cap, which drawing leaves alone. -/
def frame (s : Screen) : Nat × Nat :=
  (s.rows, s.maxScrollback)

variable {s : Screen}

theorem modifyRow_still (row : Nat) (f : Row → Checked Row) (s : Screen) :
    Guarded False (s.modifyRow row f) (·.frame = s.frame) := by
  unfold modifyRow
  refine (Guarded.trivial _).bind fun last _ => (Guarded.trivial _).bind fun old _ => ?_
  exact (Guarded.trivial _).bind fun new _ => .pure rfl

theorem pushScrollback_still (save : Bool) (row : Row) (s : Screen) :
    (s.pushScrollback save row).frame = s.frame := by
  unfold pushScrollback
  split <;> rfl

theorem scrollUp_still (top bot n : Nat) (save : Bool) (style : Style) (s : Screen) :
    Guarded False (s.scrollUp top bot n save style) (·.frame = s.frame) := by
  unfold scrollUp
  refine (Guarded.trivial _).bind fun last _ => ?_
  dsimp only
  split
  · exact .pure rfl
  · refine Guarded.forRange rfl fun i s' _ _ same => ?_
    refine (Guarded.trivial _).bind fun removed _ => (Guarded.trivial _).bind fun grid _ => ?_
    exact .pure ((pushScrollback_still save removed.1 { s' with grid := removed.2 }).trans same)

theorem scrollDown_still (top bot n : Nat) (style : Style) (s : Screen) :
    Guarded False (s.scrollDown top bot n style) (·.frame = s.frame) := by
  unfold scrollDown
  refine (Guarded.trivial _).bind fun last _ => ?_
  dsimp only
  split
  · exact .pure rfl
  · refine Guarded.forRange rfl fun i s' _ _ same => ?_
    refine (Guarded.trivial _).bind fun removed _ => (Guarded.trivial _).bind fun grid _ => ?_
    exact .pure same

theorem shrinkPass_still (reflow : Bool) (state : Screen × (Nat × Nat)) :
    Guarded False (shrinkPass reflow state) (·.1.frame = state.1.frame) := by
  unfold shrinkPass
  refine (Guarded.trivial _).bind fun last _ => ?_
  dsimp only
  split
  · exact .pure rfl
  split
  · refine (Guarded.trivial _).bind fun removed _ => ?_
    exact .pure (pushScrollback_still true removed.1 { state.1 with grid := removed.2 })
  · exact .pure rfl

theorem growPass_still (cols : Nat) (reflow : Bool) (state : Screen × (Nat × Nat)) :
    (growPass cols reflow state).1.frame = state.1.frame := by
  unfold growPass
  dsimp only
  split <;> rfl

theorem reflowWidth_still (cols : Nat) (cursor : Nat × Nat) (s : Screen) :
    Guarded False (s.reflowWidth cols cursor) (·.1.frame = s.frame) := by
  unfold reflowWidth
  refine (Guarded.trivial _).bind fun state _ => ?_
  dsimp only
  split
  all_goals
    split
    · exact .error id
    · exact (Guarded.trivial _).bind fun row _ => .pure rfl

theorem resizeCols_still (cols : Nat) (reflow : Bool) (cursor : Nat × Nat) (s : Screen) :
    Guarded False (s.resizeCols cols reflow cursor) (·.1.frame = s.frame) := by
  unfold resizeCols
  split
  · exact .pure rfl
  have resized : Guarded False (if reflow then s.reflowWidth cols cursor
      else pure ({ s with
        grid := s.grid.map (Row.resizeWidth cols),
        scrollback := s.scrollback.map (Row.resizeWidth cols), cols }, cursor))
      (·.1.frame = s.frame) := by
    split
    · exact reflowWidth_still cols cursor s
    · exact .pure rfl
  refine resized.bind fun state same => ?_
  exact (Guarded.trivial _).bind fun edge _ => .pure same

theorem resize_frame (rows cols : Nat) (cursor : Nat × Nat) (reflow : Bool) (s : Screen) :
    Guarded False (s.resize rows cols cursor reflow) (·.1.frame = (max rows 1, s.maxScrollback)) := by
  unfold resize
  dsimp only
  refine (resizeCols_still (max cols 1) reflow cursor s).bind fun fitted same => ?_
  have shrunk : Guarded False (forRange 0 (fitted.1.grid.length - max rows 1) fitted fun _ =>
      shrinkPass reflow) (·.1.frame = s.frame) :=
    Guarded.forRange same fun _ state _ _ same =>
      (shrinkPass_still reflow state).mono fun _ kept => kept.trans same
  refine shrunk.bind fun fitted same => ?_
  have grown : Guarded False (forRange 0 (max rows 1 - fitted.1.grid.length) fitted fun _ state =>
      return growPass (max cols 1) reflow state) (·.1.frame = s.frame) :=
    Guarded.forRange (I := fun (state : Screen × (Nat × Nat)) => state.1.frame = s.frame) same
      fun _ state _ _ same => .pure ((growPass_still (max cols 1) reflow state).trans same)
  refine grown.bind fun fitted same => ?_
  refine (Guarded.trivial _).bind fun edge _ => .pure ?_
  exact congrArg (Prod.mk _) (congrArg Prod.snd same)

end Screen

namespace Terminal

variable {t t' t'' : Terminal}

def settings (t : Terminal) : Settings where
  rows := t.rows
  top := t.scrollTop
  bot := t.scrollBot
  shift := t.cursor.shift
  savedPrimary := t.savedPrimary.cursor.shift
  savedAlt := t.savedAlt.cursor.shift
  shape := t.cursorStyleRaw
  cap := t.alt.maxScrollback
  keysPrimary := t.kittyPrimary
  keysAlt := t.kittyAlt

/-- The settings go from those of `t` to those of `t'` by steps of the machine. -/
def Adjusts (t t' : Terminal) : Prop :=
  Relation.ReflTransGen Settings.Change t.settings t'.settings

namespace Adjusts

theorem refl (t : Terminal) : t.Adjusts t :=
  Relation.ReflTransGen.refl

theorem trans (h : t.Adjusts t') (h' : t'.Adjusts t'') : t.Adjusts t'' :=
  Relation.ReflTransGen.trans h h'

/-- A change of other fields. -/
theorem of_eq (same : t'.settings = t.settings) : t.Adjusts t' := by
  unfold Adjusts
  rw [same]

theorem one (change : Settings.Change t.settings t'.settings) : t.Adjusts t' :=
  .single change

theorem «then» {x : Checked Terminal} (h : t.Adjusts t') (hx : Guarded False x t'.Adjusts) :
    Guarded False x t.Adjusts :=
  hx.mono fun _ => h.trans

/-- A change of other fields at the end. -/
theorem ends {x : Checked Terminal} (hx : Guarded False x t.Adjusts) {f : Terminal → Terminal}
    (same : ∀ t', (f t').settings = t'.settings) : Guarded False (x >>= fun t' => return f t') t.Adjusts :=
  hx.bind fun t' h => .pure (h.trans (of_eq (same t')))

end Adjusts

/-- What is done to the cells of the active screen. -/
theorem modifyScr_adjusts (t : Terminal) {f : Screen → Checked Screen}
    (still : Guarded False (f t.scr) (·.frame = t.scr.frame)) :
    Guarded False (t.modifyScr f) t.Adjusts := by
  refine still.bind fun s same => .pure (.of_eq ?_)
  unfold scr at same
  split
  · rename_i alt
    rw [if_pos alt] at same
    have cap : s.maxScrollback = t.alt.maxScrollback := congrArg Prod.snd same
    unfold settings
    rw [← cap]
    rfl
  · rename_i primary
    rw [if_neg primary] at same
    have rows : s.rows = t.primary.rows := congrArg Prod.fst same
    unfold settings Terminal.rows
    rw [← rows]

theorem modifyRow_adjusts (row : Nat) (f : Row → Checked Row) (t : Terminal) :
    Guarded False (t.modifyScr (·.modifyRow row f)) t.Adjusts :=
  modifyScr_adjusts t (Screen.modifyRow_still row f t.scr)

theorem setCell_adjusts (row col : Nat) (c : Cell) (t : Terminal) :
    Guarded False (t.modifyScr (·.setCell row col c)) t.Adjusts :=
  modifyRow_adjusts row _ t

theorem setWrapped_adjusts (row : Nat) (wrapped : Bool) (t : Terminal) :
    Guarded False (t.setRowWrapped row wrapped) t.Adjusts :=
  modifyRow_adjusts row _ t

/-! ### Moving down and up -/

theorem scrollUpN_adjusts (n : Nat) (t : Terminal) : Guarded False (t.scrollUpN n) t.Adjusts := by
  unfold scrollUpN
  refine (Guarded.trivial _).bind fun region _ => (Guarded.trivial _).bind fun last _ => ?_
  exact Adjusts.ends (modifyScr_adjusts t (Screen.scrollUp_still ..)) fun _ => rfl

theorem scrollDownN_adjusts (n : Nat) (t : Terminal) : Guarded False (t.scrollDownN n) t.Adjusts := by
  unfold scrollDownN
  refine (Guarded.trivial _).bind fun region _ => ?_
  exact Adjusts.ends (modifyScr_adjusts t (Screen.scrollDown_still ..)) fun _ => rfl

theorem index_adjusts (t : Terminal) : Guarded False t.index t.Adjusts := by
  have still : t.Adjusts { t with cursor.pendingWrap := false } := .of_eq rfl
  unfold index
  refine (Guarded.trivial _).bind fun region _ => ?_
  dsimp only
  split
  · exact Adjusts.ends (still.then (scrollUpN_adjusts 1 _)) fun _ => rfl
  · refine (Guarded.trivial _).bind fun below _ => .pure ?_
    split <;> exact .of_eq rfl

theorem reverseIndex_adjusts (t : Terminal) : Guarded False t.reverseIndex t.Adjusts := by
  have still : t.Adjusts { t with cursor.pendingWrap := false } := .of_eq rfl
  unfold reverseIndex
  refine (Guarded.trivial _).bind fun region _ => ?_
  dsimp only
  split
  · exact Adjusts.ends (still.then (scrollDownN_adjusts 1 _)) fun _ => rfl
  · exact .pure (.of_eq rfl)

theorem linefeed_adjusts (t : Terminal) : Guarded False t.linefeed t.Adjusts := by
  refine Adjusts.ends (index_adjusts t) fun t' => ?_
  split <;> rfl

theorem horizontalTab_adjusts (t : Terminal) : Guarded False t.horizontalTab t.Adjusts := by
  unfold horizontalTab
  exact (Guarded.trivial _).bind fun col _ => .pure (.of_eq rfl)

theorem execute_adjusts (b : UInt8) (t : Terminal) : Guarded False (t.execute b) t.Adjusts := by
  have home : t.Adjusts { t with cursor.col := 0 } := .of_eq rfl
  unfold execute
  split
  · exact .ok (.of_eq rfl)
  · exact .ok (.of_eq rfl)
  · exact horizontalTab_adjusts t
  · exact linefeed_adjusts t
  · exact linefeed_adjusts t
  · exact linefeed_adjusts t
  · exact .ok (.of_eq rfl)
  · exact .ok (.one (.shift (Nat.le_refl 1)))
  · exact .ok (.one (.shift (Nat.zero_le 1)))
  · exact index_adjusts t
  · exact home.then (index_adjusts _)
  · exact .ok (.of_eq rfl)
  · exact reverseIndex_adjusts t
  · exact .ok (.refl t)

/-! ### Printing -/

theorem combine_adjusts (c : Char) (t : Terminal) : Guarded False (t.combine c) t.Adjusts := by
  unfold combine
  split
  · exact .ok (.refl t)
  · exact Adjusts.ends (modifyRow_adjusts _ _ t) fun _ => rfl

theorem wrapLine_adjusts (t : Terminal) : Guarded False t.wrapLine t.Adjusts := by
  refine (modifyRow_adjusts _ _ t).bind fun t' adjusts => ?_
  have home : t'.Adjusts { t' with cursor.col := 0 } := .of_eq rfl
  exact (adjusts.trans home).then (index_adjusts _)

theorem wrapPending_adjusts (t : Terminal) : Guarded False t.wrapPending t.Adjusts := by
  have still : t.Adjusts { t with cursor.pendingWrap := false } := .of_eq rfl
  unfold wrapPending
  split
  · dsimp only
    split
    · exact still.then (wrapLine_adjusts _)
    · exact .ok still
  · exact .ok (.refl t)

theorem repairCell_adjusts (row : Nat) (style : Style) (c : Nat) (t : Terminal) :
    Guarded False (t.repairCell row style c) t.Adjusts := by
  unfold repairCell
  refine (Guarded.trivial _).bind fun orphaned _ => ?_
  split
  · exact setCell_adjusts row c _ t
  · exact .pure (.refl t)

theorem repairWideHalves_adjusts (row : Nat) (t : Terminal) :
    Guarded False (t.repairWideHalves row) t.Adjusts :=
  Guarded.forRange (.refl t) fun c t' _ _ adjusts => adjusts.then (repairCell_adjusts row _ c t')

theorem insertBlanks_adjusts (row col n : Nat) (t : Terminal) :
    Guarded False (t.insertBlanks row col n) t.Adjusts := by
  refine (modifyRow_adjusts row _ t).bind fun t' adjusts => ?_
  exact adjusts.then (repairWideHalves_adjusts row t')

theorem cleanWide_adjusts (row col w : Nat) (t : Terminal) :
    Guarded False (t.cleanWide row col w) t.Adjusts := by
  unfold cleanWide
  refine Guarded.bind (p := t.Adjusts) ?_ fun t₁ adjusts₁ => ?_
  · split
    · exact setCell_adjusts row _ _ t
    · exact .pure (.refl t)
  refine Guarded.forRange adjusts₁ fun i t₂ _ _ adjusts₂ => ?_
  refine (Guarded.trivial _).bind fun c _ => ?_
  split
  · exact .pure adjusts₂
  split
  · refine (Guarded.trivial _).bind fun next _ => ?_
    split
    · exact adjusts₂.then (setCell_adjusts row _ _ t₂)
    · exact .pure adjusts₂
  · exact .pure adjusts₂

theorem fitWide_adjusts (w : Nat) (t : Terminal) :
    Guarded False (t.fitWide w) fun fitted => ∀ t' ∈ fitted, t.Adjusts t' := by
  have one {t₁ : Terminal} (adjusts : t.Adjusts t₁) : ∀ t' ∈ some t₁, t.Adjusts t' := by
    rintro _ ⟨⟩
    exact adjusts
  unfold fitWide
  refine (Guarded.trivial _).bind fun next _ => ?_
  split
  · split
    · refine (setCell_adjusts _ _ _ t).bind fun t₁ adjusts₁ => ?_
      exact (adjusts₁.then (wrapLine_adjusts t₁)).bind fun t₂ adjusts₂ => .pure (one adjusts₂)
    split
    · exact (Guarded.trivial _).bind fun col _ => .pure (one (.of_eq rfl))
    · exact .pure fun _ mem => absurd mem (Option.not_mem_none _)
  · exact .pure (one (.refl t))

theorem putChar_adjusts (c : Char) (w : Nat) (t : Terminal) :
    Guarded False (t.putChar c w) t.Adjusts := by
  unfold putChar
  dsimp only
  refine Guarded.bind (p := t.Adjusts) ?_ fun t₁ adjusts₁ => ?_
  · split
    · exact insertBlanks_adjusts _ _ _ t
    · exact .pure (.refl t)
  refine (adjusts₁.then (cleanWide_adjusts _ _ w t₁)).bind fun t₂ adjusts₂ => ?_
  refine (adjusts₂.then (setCell_adjusts _ _ _ t₂)).bind fun t₃ adjusts₃ => ?_
  refine Guarded.bind (p := t.Adjusts) ?_ fun t₄ adjusts₄ => ?_
  · split
    · exact (Guarded.trivial _).bind fun next _ => adjusts₃.then (setCell_adjusts _ _ _ t₃)
    · exact .pure adjusts₃
  refine (Guarded.trivial _).bind fun newCol _ => ?_
  split
  · exact (Guarded.trivial _).bind fun last _ => .pure (adjusts₄.trans (.of_eq rfl))
  · exact .pure (adjusts₄.trans (.of_eq rfl))

theorem print_adjusts (c : Char) (t : Terminal) : Guarded False (t.print c) t.Adjusts := by
  unfold print
  split
  · exact execute_adjusts _ t
  dsimp only
  split
  · exact combine_adjusts _ t
  have noted : t.Adjusts { t.touch with lastPrinted := some (t.mapCharset c) } := .of_eq rfl
  unfold printWide
  dsimp only
  refine (noted.then (wrapPending_adjusts _)).bind fun t₁ adjusts₁ => ?_
  refine (fitWide_adjusts _ t₁).bind fun fitted adjusts => ?_
  cases fitted with
  | none => exact .pure adjusts₁
  | some t₂ => exact (adjusts₁.trans (adjusts t₂ rfl)).then (putChar_adjusts _ _ t₂)

/-! ### Cursors and resets -/

theorem lastRow_eq (t : Terminal) : Guarded False t.lastRow (· = t.settings.rows - 1) :=
  (Guarded.sub.weaken False.elim).mono fun _ => And.left

theorem saveCursor_adjusts (t : Terminal) : t.Adjusts t.saveCursor := by
  unfold saveCursor setSaved
  split
  · exact .one .saveAlt
  · exact .one .savePrimary

theorem forget_adjusts (t : Terminal) : t.Adjusts (t.setSaved {}) := by
  unfold setSaved
  split
  · exact .one .forgetAlt
  · exact .one .forgetPrimary

theorem clampToRegionIfOrigin_adjusts (t : Terminal) :
    Guarded False t.clampToRegionIfOrigin t.Adjusts := by
  unfold clampToRegionIfOrigin
  split
  · refine (Guarded.trivial _).bind fun region _ => ?_
    dsimp only
    split
    · exact .pure (.of_eq rfl)
    · exact .error id
  · exact .ok (.refl t)

theorem clampCursor_adjusts (t : Terminal) : Guarded False t.clampCursor t.Adjusts := by
  unfold clampCursor
  exact (Guarded.trivial _).bind fun lastRow _ => (Guarded.trivial _).bind fun lastCol _ =>
    .pure (.of_eq rfl)

theorem restoreCursor_adjusts (t : Terminal) : Guarded False t.restoreCursor t.Adjusts := by
  have restored : t.Adjusts { t with cursor := t.saved.cursor, modes.origin := t.saved.origin } := by
    unfold saved
    split
    · exact .one .restoreAlt
    · exact .one .restorePrimary
  unfold restoreCursor
  refine (restored.then (clampCursor_adjusts _)).bind fun t₁ adjusts₁ => ?_
  exact Adjusts.ends (adjusts₁.then (clampToRegionIfOrigin_adjusts t₁)) fun _ => rfl

theorem moveTo_adjusts (row col : Nat) (t : Terminal) : Guarded False (t.moveTo row col) t.Adjusts := by
  unfold moveTo
  refine (Guarded.trivial _).bind fun region _ => (Guarded.trivial _).bind fun lastRow _ => ?_
  exact (Guarded.trivial _).bind fun lastCol _ => .pure (.of_eq rfl)

theorem wholeRegion_adjusts (t : Terminal) : Guarded False t.wholeRegion t.Adjusts := by
  refine (lastRow_eq t).bind fun last eq => .pure (.one ?_)
  subst eq
  exact .whole

theorem decaln_adjusts (t : Terminal) : Guarded False t.decaln t.Adjusts := by
  unfold decaln
  refine (wholeRegion_adjusts t).bind fun t₁ adjusts₁ => ?_
  have homed : t.Adjusts { t₁ with
      modes.origin := false, cursor.row := 0, cursor.col := 0, cursor.pendingWrap := false } :=
    adjusts₁.trans (.of_eq rfl)
  refine Adjusts.ends (Guarded.forRange homed fun r t₂ _ _ adjusts₂ => ?_) fun _ => rfl
  exact Guarded.forRange adjusts₂ fun c t₃ _ _ adjusts₃ => adjusts₃.then (setCell_adjusts r c _ t₃)

theorem fullReset_adjusts (t : Terminal) : Guarded False t.fullReset t.Adjusts := by
  refine (lastRow_eq t).bind fun last eq => .pure ?_
  subst eq
  have whole := Relation.ReflTransGen.single (Settings.Change.whole (s := t.settings))
  have cursors := ((whole.tail (.shift (Nat.zero_le 1))).tail .forgetPrimary).tail .forgetAlt
  have keys := (cursors.tail (.keysPrimary .reset)).tail (.keysAlt .reset)
  exact keys.tail (.shape (Nat.zero_le 6))

theorem modifyKitty_adjusts (op : KeyOp) (t : Terminal) : t.Adjusts (t.modifyKitty op.apply) := by
  unfold modifyKitty
  split
  · exact .one (.keysAlt op)
  · exact .one (.keysPrimary op)

theorem softReset_adjusts (t : Terminal) : Guarded False t.softReset t.Adjusts := by
  have reset : t.Adjusts { t with modes := { t.modes with
      cursorVisible := true, origin := false, insert := false, autowrap := false,
      cursorKeys := false, keypadApp := false } } := .of_eq rfl
  unfold softReset
  refine (reset.then (wholeRegion_adjusts _)).bind fun t₁ adjusts₁ => .pure ?_
  have cleared : t₁.Adjusts { t₁ with
      cursor := { t₁.cursor with
        style := {}, hyperlink := 0, pendingWrap := false, g0 := .ascii, g1 := .ascii, shift := 0 }
      cursorStyleRaw := 0 } :=
    (Relation.ReflTransGen.single (.shift (Nat.zero_le 1))).tail (.shape (Nat.zero_le 6))
  have forgot := (adjusts₁.trans cleared).trans (forget_adjusts _)
  exact (forgot.trans (modifyKitty_adjusts .reset _)).trans (.of_eq rfl)

theorem enterAlt_adjusts (mode : Nat) (t : Terminal) : t.Adjusts (t.enterAlt mode) := by
  have saved : t.Adjusts (if mode = 1049 then t.saveCursor else t) := by
    split
    · exact saveCursor_adjusts t
    · exact .refl t
  unfold enterAlt
  dsimp only
  generalize (if mode = 1049 then t.saveCursor else t) = t₁ at saved
  split
  · exact saved.trans (.of_eq rfl)
  · exact saved.trans (.of_eq rfl)

theorem leaveAlt_adjusts (mode : Nat) (t : Terminal) : Guarded False (t.leaveAlt mode) t.Adjusts := by
  have left : t.Adjusts { if mode = 1047 then t.clearAlt else t with altActive := false } := by
    refine .of_eq ?_
    split <;> rfl
  unfold leaveAlt
  dsimp only
  split
  · exact left.then (restoreCursor_adjusts _)
  · exact .ok left

theorem setAltScreen_adjusts (mode : Nat) (on : Bool) (t : Terminal) :
    Guarded False (t.setAltScreen mode on) t.Adjusts := by
  have marked : t.Adjusts { t with screenSwitch := some .alt } := .of_eq rfl
  unfold setAltScreen
  dsimp only
  refine Guarded.bind (p := t.Adjusts) ?_ fun t₁ adjusts₁ => ?_
  · split
    · exact .pure (marked.trans (enterAlt_adjusts mode _))
    split
    · exact marked.then (leaveAlt_adjusts mode _)
    · exact .pure marked
  · exact (Guarded.trivial _).bind fun last _ => .pure (adjusts₁.trans (.of_eq rfl))

theorem resize_adjusts (rows cols : Nat) (t : Terminal) :
    Guarded False (t.resize rows cols) t.Adjusts := by
  unfold resize
  dsimp only
  split
  · exact .ok (.refl t)
  refine (Screen.resize_frame (max rows 1) (max cols 1) _ true t.primary).bind fun primary height => ?_
  refine (Screen.resize_frame (max rows 1) (max cols 1) _ false t.alt).bind fun alt cap => ?_
  refine Guarded.bind (Guarded.sub.weaken False.elim) fun last eq => ?_
  refine (Guarded.trivial _).bind fun lastCol _ => .pure (.one ?_)
  have rows_eq : primary.1.rows = max rows 1 :=
    (congrArg Prod.fst height).trans (Nat.max_eq_left (Nat.le_max_right rows 1))
  have cap_eq : alt.1.maxScrollback = t.alt.maxScrollback := congrArg Prod.snd cap
  have changed := Settings.Change.resize (s := t.settings) (max rows 1)
  rw [← eq.1] at changed
  unfold settings touch Terminal.rows
  dsimp only
  rw [rows_eq, cap_eq]
  exact changed

theorem setDeccolm_adjusts (set : Bool) (t : Terminal) :
    Guarded False (t.setDeccolm set) t.Adjusts := by
  unfold setDeccolm
  split
  · exact .ok (.refl t)
  have noted : t.Adjusts { t with modes.deccolm := set } := .of_eq rfl
  refine (noted.then (resize_adjusts _ _ _)).bind fun t₁ adjusts₁ => ?_
  refine (adjusts₁.then (wholeRegion_adjusts t₁)).bind fun t₂ adjusts₂ => ?_
  refine Adjusts.ends ?_ fun _ => rfl
  split
  · exact .pure adjusts₂
  · exact adjusts₂.then (modifyScr_adjusts t₂ (.pure rfl))

/-! ### Control sequences -/

theorem setCol_adjusts (col : Nat) (t : Terminal) : Guarded False (t.setCol col) t.Adjusts := by
  unfold setCol
  exact (Guarded.trivial _).bind fun last _ => .pure (.of_eq rfl)

theorem cursorUp_adjusts (n : Nat) (t : Terminal) : Guarded False (t.cursorUp n) t.Adjusts := by
  unfold cursorUp
  exact (Guarded.trivial _).bind fun region _ => .pure (.of_eq rfl)

theorem cursorDown_adjusts (n : Nat) (t : Terminal) : Guarded False (t.cursorDown n) t.Adjusts := by
  unfold cursorDown
  exact (Guarded.trivial _).bind fun region _ => (Guarded.trivial _).bind fun limit _ =>
    .pure (.of_eq rfl)

theorem rowAbsolute_adjusts (params : Params) (t : Terminal) :
    Guarded False (t.rowAbsolute params) t.Adjusts := by
  unfold rowAbsolute
  refine (Guarded.trivial _).bind fun row _ => (Guarded.trivial _).bind fun region _ => ?_
  refine (Guarded.trivial _).bind fun last _ => ?_
  have moved (row : Nat) : t.Adjusts { t with cursor.row := row } := .of_eq rfl
  exact Adjusts.ends ((moved _).then (clampToRegionIfOrigin_adjusts _)) fun _ => rfl

/-- Of the regions asked for only those of two rows or more are set. -/
theorem setRegion_adjusts (params : Params) (t : Terminal) :
    Guarded False (t.setRegion params) t.Adjusts := by
  unfold setRegion
  refine (Guarded.trivial _).bind fun top _ => (Guarded.trivial _).bind fun bot _ => ?_
  refine (Guarded.trivial _).bind fun last _ => ?_
  dsimp only
  split
  · rename_i ordered
    have narrowed : t.Adjusts { t with scrollTop := top, scrollBot := min bot last } :=
      .one (.region ordered)
    exact narrowed.then (moveTo_adjusts 0 0 _)
  · exact .pure (.refl t)

theorem eraseCells_adjusts (row lo hi : Nat) (style : Style) (selective : Bool) (t : Terminal) :
    Guarded False (t.eraseCells row lo hi style selective) t.Adjusts :=
  Guarded.forRange (.refl t) fun _ t' _ _ adjusts => adjusts.then (modifyRow_adjusts row _ t')

theorem eraseRow_adjusts (row : Nat) (style : Style) (selective : Bool) (t : Terminal) :
    Guarded False (t.eraseRow row style selective) t.Adjusts := by
  unfold eraseRow
  split
  · refine (eraseCells_adjusts row 0 _ style true t).bind fun t' adjusts => ?_
    exact adjusts.then (setWrapped_adjusts row false t')
  · exact modifyRow_adjusts row _ t

theorem eraseRows_adjusts (lo hi : Nat) (style : Style) (selective : Bool) (t : Terminal) :
    Guarded False (t.eraseRows lo hi style selective) t.Adjusts :=
  Guarded.forRange (.refl t) fun r t' _ _ adjusts => adjusts.then (eraseRow_adjusts r style selective t')

theorem eraseDisplay_adjusts (mode : Nat) (selective : Bool) (t : Terminal) :
    Guarded False (t.eraseDisplay mode selective) t.Adjusts := by
  have still : t.Adjusts { t with cursor.pendingWrap := false } := .of_eq rfl
  unfold eraseDisplay
  dsimp only
  refine Adjusts.ends ?_ fun _ => rfl
  split
  · refine (still.then (eraseCells_adjusts _ _ _ _ selective _)).bind fun t₁ adjusts₁ => ?_
    refine (adjusts₁.then (setWrapped_adjusts _ false t₁)).bind fun t₂ adjusts₂ => ?_
    exact (Guarded.trivial _).bind fun below _ =>
      adjusts₂.then (eraseRows_adjusts _ _ _ selective t₂)
  · refine (still.then (eraseRows_adjusts _ _ _ selective _)).bind fun t₁ adjusts₁ => ?_
    exact adjusts₁.then (eraseCells_adjusts _ _ _ _ selective t₁)
  · exact still.then (eraseRows_adjusts _ _ _ selective _)
  · exact still.then (modifyScr_adjusts _ (.pure rfl))
  · exact .pure still

theorem eraseLine_adjusts (mode : Nat) (selective : Bool) (t : Terminal) :
    Guarded False (t.eraseLine mode selective) t.Adjusts := by
  have still : t.Adjusts { t with cursor.pendingWrap := false } := .of_eq rfl
  have erased (lo hi : Nat) : Guarded False (do
      let t₁ ← { t with cursor.pendingWrap := false }.eraseCells t.cursor.row lo hi t.blankStyle
        selective
      let t₂ ← t₁.setRowWrapped t.cursor.row false
      return t₂.touch) t.Adjusts := by
    refine (still.then (eraseCells_adjusts _ lo hi _ selective _)).bind fun t₁ adjusts₁ => ?_
    exact Adjusts.ends (adjusts₁.then (setWrapped_adjusts _ false t₁)) fun _ => rfl
  unfold eraseLine
  dsimp only
  split
  · exact (Guarded.trivial _).bind fun last _ => erased _ _
  · exact Adjusts.ends (still.then (eraseCells_adjusts _ _ _ _ selective _)) fun _ => rfl
  · exact (Guarded.trivial _).bind fun last _ => erased _ _
  · exact .pure still

theorem insertLines_adjusts (n : Nat) (t : Terminal) : Guarded False (t.insertLines n) t.Adjusts := by
  unfold insertLines
  refine (Guarded.trivial _).bind fun region _ => ?_
  dsimp only
  split
  · exact .pure (.refl t)
  · exact Adjusts.ends (modifyScr_adjusts t (Screen.scrollDown_still ..)) fun _ => rfl

theorem deleteLines_adjusts (n : Nat) (t : Terminal) : Guarded False (t.deleteLines n) t.Adjusts := by
  unfold deleteLines
  refine (Guarded.trivial _).bind fun region _ => ?_
  dsimp only
  split
  · exact .pure (.refl t)
  · exact Adjusts.ends (modifyScr_adjusts t (Screen.scrollUp_still ..)) fun _ => rfl

/-- The halves repaired and the wrap settled at the end of an edit of a row. -/
theorem edit_adjusts {x : Checked Terminal} (hx : Guarded False x t.Adjusts) (row : Nat) :
    Guarded False (x >>= fun t => do
      let t ← t.repairWideHalves row
      return { t with cursor.pendingWrap := false }.touch) t.Adjusts := by
  refine hx.bind fun t₁ adjusts₁ => ?_
  exact Adjusts.ends (adjusts₁.then (repairWideHalves_adjusts row t₁)) fun _ => rfl

theorem insertChars_adjusts (n : Nat) (t : Terminal) : Guarded False (t.insertChars n) t.Adjusts :=
  edit_adjusts (modifyRow_adjusts _ _ t) _

theorem deleteChars_adjusts (n : Nat) (t : Terminal) : Guarded False (t.deleteChars n) t.Adjusts :=
  edit_adjusts (modifyRow_adjusts _ _ t) _

theorem eraseChars_adjusts (n : Nat) (t : Terminal) : Guarded False (t.eraseChars n) t.Adjusts :=
  edit_adjusts (Guarded.forRange (.refl t) fun c t' _ _ adjusts =>
    adjusts.then (setCell_adjusts _ c _ t')) _

theorem repeat_adjusts (n : Nat) (t : Terminal) : Guarded False (t.repeat n) t.Adjusts := by
  unfold «repeat»
  split
  · refine (Guarded.trivial _).bind fun cap _ => ?_
    exact Guarded.forRange (.refl t) fun _ t' _ _ adjusts => adjusts.then (print_adjusts _ t')
  · exact .ok (.refl t)

theorem setDecMode_adjusts (n : Nat) (set : Bool) (t : Terminal) :
    Guarded False (t.setDecMode n set) t.Adjusts := by
  unfold setDecMode
  refine Adjusts.ends ?_ fun _ => rfl
  split
  case h_2 => exact setDeccolm_adjusts set t
  case h_4 =>
    have noted : t.Adjusts { t with modes.origin := set } := .of_eq rfl
    exact noted.then (moveTo_adjusts 0 0 _)
  case h_12 => exact setAltScreen_adjusts 47 set t
  case h_13 => exact setAltScreen_adjusts 1047 set t
  case h_14 => exact setAltScreen_adjusts 1049 set t
  case h_24 =>
    split
    · exact .pure (saveCursor_adjusts t)
    · exact restoreCursor_adjusts t
  case h_27 => exact .pure (.refl t)
  all_goals exact .pure (.of_eq rfl)

theorem setDecModes_adjusts (params : Params) (set : Bool) (t : Terminal) :
    Guarded False (t.setDecModes params set) t.Adjusts :=
  Guarded.forEach (.refl t) fun p _ t' adjusts => adjusts.then (setDecMode_adjusts (firstPart p) set t')

theorem csiPlain_adjusts (params : Params) (final : Char) (t : Terminal) :
    Guarded False (t.csiPlain params final) t.Adjusts := by
  unfold csiPlain
  split
  · exact cursorUp_adjusts _ t
  · exact cursorDown_adjusts _ t
  · exact setCol_adjusts _ t
  · exact .ok (.of_eq rfl)
  · exact Adjusts.ends (cursorDown_adjusts _ t) fun _ => rfl
  · exact Adjusts.ends (cursorUp_adjusts _ t) fun _ => rfl
  · exact (Guarded.trivial _).bind fun col _ => setCol_adjusts col t
  · exact (Guarded.trivial _).bind fun col _ => setCol_adjusts col t
  · exact (Guarded.trivial _).bind fun row _ => (Guarded.trivial _).bind fun col _ =>
      moveTo_adjusts row col t
  · exact (Guarded.trivial _).bind fun row _ => (Guarded.trivial _).bind fun col _ =>
      moveTo_adjusts row col t
  · exact Guarded.forRange (.refl t) fun _ t' _ _ adjusts => adjusts.then (horizontalTab_adjusts t')
  · exact eraseDisplay_adjusts _ false t
  · exact eraseLine_adjusts _ false t
  · exact insertLines_adjusts _ t
  · exact deleteLines_adjusts _ t
  · exact deleteChars_adjusts _ t
  · exact scrollUpN_adjusts _ t
  · exact scrollDownN_adjusts _ t
  · exact eraseChars_adjusts _ t
  · exact Guarded.forRange (.refl t) fun _ t' _ _ adjusts => .pure (adjusts.trans (.of_eq rfl))
  · exact insertChars_adjusts _ t
  · exact setCol_adjusts _ t
  · exact repeat_adjusts _ t
  · refine .ok ?_
    split
    · exact .of_eq rfl
    · exact .refl t
  · exact rowAbsolute_adjusts params t
  · exact (Guarded.trivial _).bind fun last _ => .pure (.of_eq rfl)
  · refine .ok ?_
    unfold clearTabs
    split <;> exact .of_eq rfl
  · exact .ok (.of_eq rfl)
  · exact .ok (.of_eq rfl)
  · refine .ok ?_
    unfold sgr
    dsimp only
    split <;> exact .of_eq rfl
  · unfold statusReport
    split
    · exact .ok (.of_eq rfl)
    · exact (Guarded.trivial _).bind fun region _ => (Guarded.trivial _).bind fun row _ =>
        (Guarded.trivial _).bind fun col _ => .pure (.of_eq rfl)
    · exact .ok (.refl t)
  · exact setRegion_adjusts params t
  · exact .ok (saveCursor_adjusts t)
  · exact restoreCursor_adjusts t
  · unfold windowOps
    split
    · exact (Guarded.trivial _).bind fun height _ => (Guarded.trivial _).bind fun width _ =>
        .pure (.of_eq rfl)
    · exact .ok (.of_eq rfl)
    · exact .ok (.of_eq rfl)
    · exact .ok (.refl t)
  · exact .ok (.refl t)

theorem csiQuestion_adjusts (params : Params) (final : Char) (t : Terminal) :
    Guarded False (t.csiQuestion params final) t.Adjusts := by
  unfold csiQuestion
  split
  · exact eraseDisplay_adjusts _ true t
  · exact eraseLine_adjusts _ true t
  · exact setDecModes_adjusts params true t
  · exact setDecModes_adjusts params false t
  · split
    · unfold extendedCursorReport
      exact (Guarded.trivial _).bind fun row _ => (Guarded.trivial _).bind fun col _ =>
        .pure (.of_eq rfl)
    · exact .ok (.refl t)
  · exact .ok (.of_eq rfl)
  · exact .ok (.refl t)

theorem csiMarked_adjusts (params : Params) (marker final : Char) (t : Terminal) :
    t.Adjusts (t.csiMarked params marker final) := by
  unfold csiMarked
  split
  · exact .of_eq rfl
  · exact .of_eq rfl
  · exact modifyKitty_adjusts (.push _) t
  · exact modifyKitty_adjusts (.pop _) t
  · exact modifyKitty_adjusts (.set _ _) t
  · exact .refl t

theorem csiWith_adjusts (params : Params) (intermediate final : Char) (t : Terminal) :
    Guarded False (t.csiWith params intermediate final) t.Adjusts := by
  unfold csiWith
  split
  · exact .ok (.of_eq rfl)
  · exact softReset_adjusts t
  · exact .ok (.of_eq rfl)
  · exact .ok (.of_eq rfl)
  · refine .ok ?_
    unfold popColors
    split <;> exact .of_eq rfl
  · exact .ok (.of_eq rfl)
  · dsimp only
    split
    · rename_i known
      exact .ok (.one (.shape known))
    · exact .ok (.refl t)
  · exact .ok (.refl t)

theorem csiDispatch_adjusts (params : Params) (intermediates : Bytes) (marker finalByte : UInt8)
    (t : Terminal) :
    Guarded False (t.csiDispatch params intermediates marker finalByte) t.Adjusts := by
  unfold csiDispatch
  dsimp only
  split
  · split
    · exact csiPlain_adjusts params _ t
    · exact csiQuestion_adjusts params _ t
    · exact .ok (csiMarked_adjusts params _ _ t)
  · split
    · exact csiWith_adjusts params _ _ t
    · refine .ok ?_
      split <;> exact .of_eq rfl
    · exact .ok (.refl t)

theorem escDispatch_adjusts (intermediates : Bytes) (finalByte : UInt8) (t : Terminal) :
    Guarded False (t.escDispatch intermediates finalByte) t.Adjusts := by
  have homed : t.Adjusts { t with cursor.col := 0 } := .of_eq rfl
  unfold escDispatch
  split
  · split
    · exact .ok (saveCursor_adjusts t)
    · exact restoreCursor_adjusts t
    · exact index_adjusts t
    · exact homed.then (index_adjusts _)
    · exact .ok (.of_eq rfl)
    · exact reverseIndex_adjusts t
    · exact fullReset_adjusts t
    · exact .ok (.of_eq rfl)
    · exact .ok (.of_eq rfl)
    · exact .ok (.of_eq rfl)
    · exact .ok (.refl t)
  · split
    · exact decaln_adjusts t
    · exact .ok (.refl t)
  · exact .ok (.of_eq rfl)
  · exact .ok (.of_eq rfl)
  · exact .ok (.refl t)

/-! ### Strings -/

theorem oscPalette_adjusts (bel : Bool) : ∀ (parts : List (List Char)) (t : Terminal),
    Guarded False (oscPalette bel parts t) t.Adjusts
  | [], t => .pure (.refl t)
  | [_], t => .pure (.refl t)
  | idx :: spec :: rest, t => by
    have colored : Guarded False (t.setPaletteColor bel idx spec) t.Adjusts := by
      unfold setPaletteColor
      repeat' first
        | exact .pure (.of_eq rfl)
        | split
        | refine (Guarded.trivial _).bind fun _ _ => ?_
    exact colored.bind fun t' adjusts => adjusts.then (oscPalette_adjusts bel rest t')

theorem oscClipboard_adjusts (rest : List Char) (bel : Bool) (t : Terminal) :
    Guarded False (t.oscClipboard rest bel) t.Adjusts := by
  have stored (data : Bytes) (kinds : List Char) : t.Adjusts (kinds.foldl (setSelection data) t) := by
    refine List.foldlRecOn kinds (setSelection data) (.refl t) fun t' adjusts kind _ => ?_
    refine adjusts.trans ?_
    unfold setSelection
    split <;> exact .of_eq rfl
  unfold oscClipboard
  dsimp only
  split
  · exact (Guarded.trivial _).bind fun kind _ => .pure (.of_eq rfl)
  · split
    · exact .pure ((stored _ _).trans (.of_eq rfl))
    · exact .pure (.refl t)

theorem oscTextSize_adjusts (rest : List Char) (t : Terminal) :
    Guarded False (t.oscTextSize rest) t.Adjusts := by
  have noted : t.Adjusts { t with lastTextSize := some rest } := .of_eq rfl
  unfold oscTextSize
  dsimp only
  split
  · exact .pure noted
  refine Guarded.bind (p := t.Adjusts) (Guarded.forEach noted fun c _ t' adjusts =>
    adjusts.then (print_adjusts c t')) fun t₁ adjusts₁ => ?_
  split
  · exact (Guarded.trivial _).bind fun last _ => .pure (adjusts₁.trans (.of_eq rfl))
  · exact .pure (adjusts₁.trans (.of_eq rfl))

theorem oscDynamicColor_adjusts (code : Nat) (rest : List Char) (bel : Bool) (t : Terminal) :
    Guarded False (t.oscDynamicColor code rest bel) t.Adjusts := by
  have set (color : Option Rgb) : t.Adjusts (t.setDynamicColor code color).touch := by
    unfold setDynamicColor
    split <;> exact .of_eq rfl
  unfold oscDynamicColor
  split
  · exact (Guarded.trivial _).bind fun report _ => .pure (.of_eq rfl)
  · refine (Guarded.trivial _).bind fun parsed _ => ?_
    split
    · exact .pure (set _)
    · exact .pure (.refl t)

theorem oscHyperlink_adjusts (rest : List Char) (t : Terminal) :
    Guarded False (t.oscHyperlink rest) t.Adjusts := by
  unfold oscHyperlink
  dsimp only
  split
  · exact .pure (.of_eq rfl)
  split
  · exact .pure (.of_eq rfl)
  · exact (Guarded.trivial _).bind fun next _ => .pure (.of_eq rfl)

theorem oscDispatch_adjusts (data : Bytes) (bel : Bool) (t : Terminal) :
    Guarded False (t.oscDispatch data bel) t.Adjusts := by
  unfold oscDispatch
  dsimp only
  split
  case h_2 => exact .pure (.refl t)
  unfold oscCommand
  split
  case h_4 => exact oscPalette_adjusts bel _ t
  case h_5 => exact (Guarded.trivial _).bind fun pwd _ => .pure (.of_eq rfl)
  case h_6 => exact oscHyperlink_adjusts _ t
  case h_8 => exact oscDynamicColor_adjusts _ _ bel t
  case h_9 => exact oscDynamicColor_adjusts _ _ bel t
  case h_10 => exact oscDynamicColor_adjusts _ _ bel t
  case h_12 => exact oscClipboard_adjusts _ bel t
  case h_13 => exact oscTextSize_adjusts _ t
  case h_15 =>
    unfold oscResetPalette
    split
    · exact .pure (.of_eq rfl)
    · exact (Guarded.trivial _).bind fun palette _ => .pure (.of_eq rfl)
  case h_19 =>
    unfold oscPromptMark
    split
    · exact .pure (.refl t)
    · exact Adjusts.ends (modifyRow_adjusts _ _ t) fun _ => rfl
  all_goals exact .pure (.of_eq rfl)

theorem dcsDispatch_adjusts (intermediates : Bytes) (finalByte : UInt8) (data : Bytes) (t : Terminal) :
    Guarded False (t.dcsDispatch intermediates finalByte data) t.Adjusts := by
  unfold dcsDispatch
  split
  · split
    · unfold decrqss
      refine (Guarded.trivial _).bind fun resp _ => ?_
      split <;> exact .pure (.of_eq rfl)
    · exact .pure (.refl t)
  · split
    · unfold xtgettcap
      split
      · exact .pure (.refl t)
      · refine Guarded.forEach (.refl t) fun nameHex _ t' adjusts => ?_
        exact (Guarded.trivial _).bind fun reply _ => .pure (adjusts.trans (.of_eq rfl))
    · exact .pure (.refl t)
  · exact .pure (.refl t)

theorem apcDispatch_adjusts (files : Files) (data : Bytes) (t : Terminal) :
    Guarded False (t.apcDispatch files data) t.Adjusts := by
  unfold apcDispatch
  split
  · exact .pure (.refl t)
  split
  · refine (Guarded.trivial _).bind fun out _ => ?_
    have answered : t.Adjusts
        (out.2.1.elim { t with graphics := out.1 } ({ t with graphics := out.1 }.respond ·)) := by
      refine .of_eq ?_
      cases out.2.1 <;> rfl
    refine Adjusts.ends ?_ fun _ => rfl
    split
    · unfold advanceCursor
      exact (Guarded.trivial _).bind fun lastRow _ => (Guarded.trivial _).bind fun lastCol _ =>
        .pure (answered.trans (.of_eq rfl))
    · exact .pure answered
  · exact .pure (.refl t)

/-! ### Runs -/

theorem dispatch_adjusts (files : Files) (action : Action) (t : Terminal) :
    Guarded False (t.dispatch files action) t.Adjusts := by
  cases action with
  | print c => exact print_adjusts c t
  | execute b => exact execute_adjusts b t
  | csi params intermediates marker finalByte =>
    exact csiDispatch_adjusts params intermediates marker finalByte t
  | esc intermediates finalByte => exact escDispatch_adjusts intermediates finalByte t
  | osc data bel => exact oscDispatch_adjusts data bel t
  | dcs params intermediates finalByte data => exact dcsDispatch_adjusts intermediates finalByte data t
  | apc data => exact apcDispatch_adjusts files data t

theorem process_adjusts (files : Files) (bytes : Bytes) (t : Terminal) :
    Guarded False (t.process files bytes) t.Adjusts := by
  refine Guarded.forEach (.refl t) fun b _ t₁ adjusts₁ => ?_
  refine (Guarded.trivial _).bind fun advanced _ => ?_
  have parsed : t.Adjusts { t₁ with parser := advanced.1 } := adjusts₁.trans (.of_eq rfl)
  exact Guarded.forEach parsed fun action _ t₂ adjusts₂ =>
    adjusts₂.then (dispatch_adjusts files action t₂)

theorem step_adjusts (step : session.step t t') : t.Adjusts t' := by
  obtain ⟨e, -, eq⟩ := step
  cases e with
  | process files bytes => exact (process_adjusts files bytes t).of_eq_ok eq
  | resize rows cols => exact (resize_adjusts rows cols t).of_eq_ok eq

theorem steady_invariant : session.Invariant (·.settings.Steady) where
  base := by
    rintro t ⟨rows, cols, scrollback, -, -, -, -, rfl⟩
    have whole : max rows 1 - 1 = max (max rows 1) 1 - 1 := by
      rw [Nat.max_eq_left (Nat.le_max_right rows 1)]
    exact ⟨.inr ⟨rfl, whole⟩, Nat.zero_le 1, Nat.zero_le 1, Nat.zero_le 1, Nat.zero_le 6, rfl,
      Settings.pushed_nil, Settings.pushed_nil⟩
  step _ _ steady step := Settings.steady_of_changes (step_adjusts step) steady

theorem steady_of_reachable (reachable : session.Reachable t) : t.settings.Steady :=
  steady_invariant.reachable reachable

theorem masked_le {flags : UInt8} (masked : Settings.Masked flags) : flags.toNat ≤ 0x1f := by
  have bits := congrArg UInt8.toNat masked
  rw [UInt8.toNat_and] at bits
  rw [← bits]
  exact Nat.and_le_right

/-- In every state a session reaches, the scroll region has two rows or more or is the whole grid;
the character sets in force and saved are G0 or G1; the shape of the cursor is one DECSCUSR knows;
the alternate screen has no scrollback; and the keyboard stacks hold at most 128 entries, each of
the five flags. -/
theorem settings_steady (reachable : session.Reachable t) :
    (t.scrollTop < t.scrollBot ∨ t.scrollTop = 0 ∧ t.scrollBot = t.rows - 1) ∧
    (t.cursor.shift ≤ 1 ∧ t.savedPrimary.cursor.shift ≤ 1 ∧ t.savedAlt.cursor.shift ≤ 1) ∧
    t.cursorStyleRaw ≤ 6 ∧
    (t.alt.maxScrollback = 0 ∧ t.alt.scrollback = []) ∧
    ∀ k ∈ [t.kittyPrimary, t.kittyAlt],
      k.stack.length ≤ KittyKeyStack.MAX_STACK ∧ ∀ flags ∈ k.stack, flags.toNat ≤ 0x1f := by
  have steady := steady_of_reachable reachable
  obtain ⟨rows, cols, sound⟩ := wellFormed_invariant.reachable reachable
  have few : t.alt.scrollback.length ≤ 0 := steady.cap ▸ sound.alt.cap
  refine ⟨steady.region, ⟨steady.shift, steady.savedPrimary, steady.savedAlt⟩, steady.shape,
    ⟨steady.cap, List.length_eq_zero_iff.mp (Nat.le_zero.mp few)⟩, ?_⟩
  rintro k mem
  have pushed : Pushed k := by
    rcases List.mem_cons.mp mem with rfl | last
    · exact steady.keysPrimary
    · rw [List.mem_singleton.mp last]
      exact steady.keysAlt
  exact ⟨pushed.few, fun flags inside => masked_le (pushed.masked flags inside)⟩

/-- A region past the end of the grid, and more flags than there are. -/
theorem settings_steady_pushed : ∃ t,
    (new 3 2).process (fun _ => none) (toUtf8 "\x1b[2;9r\x1b[>255u".toList) = .ok t ∧
    t.scrollTop < t.scrollBot ∧ t.kittyPrimary.stack ≠ [] ∧
    ∀ flags ∈ t.kittyPrimary.stack, flags.toNat ≤ 0x1f := by
  have fresh : session.Reachable (new 3 2) :=
    .of_init ⟨3, 2, DEFAULT_SCROLLBACK, by decide, by decide, by decide, by decide, rfl⟩
  obtain ⟨t, eq⟩ : ∃ t, (new 3 2).process (fun _ => none)
      (toUtf8 "\x1b[2;9r\x1b[>255u".toList) = .ok t := ⟨_, rfl⟩
  obtain ⟨region, -, -, -, keys⟩ :=
    settings_steady (fresh.tail ⟨.process (fun _ => none) _, trivial, eq⟩)
  obtain ⟨top, some⟩ : t.scrollTop = 1 ∧ t.kittyPrimary.stack ≠ [] := by
    cases eq
    exact ⟨rfl, List.cons_ne_nil _ _⟩
  refine ⟨t, eq, ?_, some, (keys _ (.head _)).2⟩
  rcases region with rows | whole
  · exact rows
  · exact absurd (top.symm.trans whole.1) Nat.one_ne_zero

end Terminal

end Posh.Term
