import Posh.Term.Csi
import Posh.Term.Sound

/-!
CSI sequences keep a terminal well formed and do not panic, whatever their
parameters.
-/

namespace Posh.Term

open Posh.Lib

namespace Terminal

variable {K : Parser → GraphicsState → Prop} {rows cols : Nat} {t : Terminal}

/-! ### Cursor moves -/

theorem cursorUp_yields (h : t.Sound K rows cols) (n : Nat) :
    Yields (t.cursorUp n) (·.Sound K rows cols) := by
  have row_lt := h.cursor_row
  refine (region_yields h).bind ?_
  rintro _ rfl
  refine .pure (h.moved rfl ?_ h.cursor_col)
  change max (t.cursor.row - n) (if t.cursor.row ≥ t.scrollTop then t.scrollTop else 0) < rows
  split
  · omega
  · omega

theorem cursorDown_yields (h : t.Sound K rows cols) (n : Nat) :
    Yields (t.cursorDown n) (·.Sound K rows cols) := by
  have bot_lt : t.scrollBot < rows := h.bot_lt
  have rows_pos := h.rows_pos
  have limited : Yields (if t.cursor.row ≤ t.scrollBot then pure t.scrollBot else t.lastRow)
      (· < rows) := by
    split
    · exact .pure bot_lt
    · refine (lastRow_yields h).mono ?_
      rintro last rfl
      omega
  refine (region_yields h).bind ?_
  rintro _ rfl
  refine limited.bind ?_
  intro limit below
  exact .pure (h.moved rfl (Nat.lt_of_le_of_lt (Nat.min_le_right _ _) below) h.cursor_col)

theorem setCol_yields (h : t.Sound K rows cols) (col : Nat) :
    Yields (t.setCol col) (·.Sound K rows cols) := by
  have pos := h.cols_pos
  refine (lastCol_yields h).bind ?_
  rintro last rfl
  refine .pure (h.moved rfl h.cursor_row ?_)
  change min col (cols - 1) < cols
  omega

theorem sound_cursorLeft (h : t.Sound K rows cols) (n : Nat) :
    (t.cursorLeft n).Sound K rows cols :=
  h.moved rfl h.cursor_row (Nat.lt_of_le_of_lt (Nat.sub_le _ _) h.cursor_col)

/-- A parameter that defaults to a positive number is positive. -/
theorem paramOr_pos (params : Params) (i : Nat) {default : Nat} (pos : 0 < default) :
    0 < paramOr params i default := by
  unfold paramOr
  split
  · exact pos
  · omega

theorem columnAbsolute_yields (h : t.Sound K rows cols) (params : Params) :
    Yields (t.columnAbsolute params) (·.Sound K rows cols) := by
  refine (Yields.sub (paramOr_pos params 0 Nat.one_pos)).bind ?_
  intro col _
  exact setCol_yields h col

theorem cursorPosition_yields (h : t.Sound K rows cols) (params : Params) :
    Yields (t.cursorPosition params) (·.Sound K rows cols) := by
  refine (Yields.sub (paramOr_pos params 0 Nat.one_pos)).bind ?_
  intro row _
  refine (Yields.sub (paramOr_pos params 1 Nat.one_pos)).bind ?_
  intro col _
  exact moveTo_yields h row col

theorem rowAbsolute_yields (h : t.Sound K rows cols) (params : Params) :
    Yields (t.rowAbsolute params) (·.Sound K rows cols) := by
  have pos := h.rows_pos
  refine (Yields.sub (paramOr_pos params 0 Nat.one_pos)).bind ?_
  intro row _
  refine (region_yields h).bind ?_
  rintro _ rfl
  refine (lastRow_yields h).bind ?_
  rintro last rfl
  have moved (row : Nat) : { t with cursor.row := min row (rows - 1) }.Sound K rows cols := by
    refine h.moved rfl ?_ h.cursor_col
    change min row (rows - 1) < rows
    omega
  refine (clampToRegionIfOrigin_yields (moved _)).bind ?_
  rintro t' ⟨sound, _⟩
  exact .pure sound

theorem rowRelative_yields (h : t.Sound K rows cols) (n : Nat) :
    Yields (t.rowRelative n) (·.Sound K rows cols) := by
  have pos := h.rows_pos
  refine (lastRow_yields h).bind ?_
  rintro last rfl
  refine .pure (h.moved rfl ?_ h.cursor_col)
  change min (satAdd 16 t.cursor.row n) (rows - 1) < rows
  omega

theorem setRegion_yields (h : t.Sound K rows cols) (params : Params) :
    Yields (t.setRegion params) (·.Sound K rows cols) := by
  have pos := h.rows_pos
  have rows_eq := h.rows_eq
  refine (Yields.sub (paramOr_pos params 0 Nat.one_pos)).bind ?_
  intro top _
  refine (Yields.sub (paramOr_pos params 1 (by omega))).bind ?_
  intro bot _
  refine (lastRow_yields h).bind ?_
  rintro last rfl
  dsimp only
  split
  · rename_i ordered
    have narrowed : { t with scrollTop := top, scrollBot := min bot (rows - 1) }.Sound K rows cols :=
      { h with
        ordered := Nat.le_of_lt ordered
        bot_lt := Nat.lt_of_le_of_lt (Nat.min_le_right _ _) (Nat.sub_lt pos Nat.one_pos) }
    exact moveTo_yields narrowed 0 0
  · exact .pure h

/-! ### Erasing and editing -/

theorem eraseCells_yields (h : t.Sound K rows cols) {row lo hi : Nat} {style : Style}
    {selective : Bool} :
    Yields (t.eraseCells row lo hi style selective) (·.Sound K rows cols) := by
  refine Yields.forRange h ?_
  intro c t' _ _ sound
  exact (modifyScr_yields sound (Screen.modifyCell_yields sound.scr)).mono fun _ => And.left

theorem setRowWrapped_yields (h : t.Sound K rows cols) {row : Nat} {wrapped : Bool} :
    Yields (t.setRowWrapped row wrapped) (·.Sound K rows cols) :=
  (modifyScr_yields h (Screen.setWrapped_yields h.scr)).mono fun _ => And.left

theorem eraseRow_yields (h : t.Sound K rows cols) {row : Nat} {style : Style} {selective : Bool} :
    Yields (t.eraseRow row style selective) (·.Sound K rows cols) := by
  unfold eraseRow
  split
  · refine (eraseCells_yields h).bind ?_
    intro t' sound
    exact setRowWrapped_yields sound
  · refine (modifyScr_yields h (Screen.modifyRow_yields h.scr ?_)).mono fun _ => And.left
    intro r _
    exact .pure ((Uniform.blank _ style).trans h.cols_eq)

theorem eraseRows_yields (h : t.Sound K rows cols) {lo hi : Nat} {style : Style}
    {selective : Bool} :
    Yields (t.eraseRows lo hi style selective) (·.Sound K rows cols) :=
  Yields.forRange h fun _ _ _ _ sound => eraseRow_yields sound

theorem eraseDisplay_yields (h : t.Sound K rows cols) (mode : Nat) (selective : Bool) :
    Yields (t.eraseDisplay mode selective) (·.Sound K rows cols) := by
  have row_lt := h.cursor_row
  have small := h.rows_small
  have still : { t with cursor.pendingWrap := false }.Sound K rows cols := h
  refine Yields.bind (p := (·.Sound K rows cols)) ?_ fun t' sound => .pure sound
  split
  · refine (eraseCells_yields still).bind ?_
    intro t₁ sound₁
    refine (setRowWrapped_yields sound₁).bind ?_
    intro t₂ sound₂
    refine (Yields.add (by omega)).bind ?_
    intro below _
    exact eraseRows_yields sound₂
  · refine (eraseRows_yields still).bind ?_
    intro t₁ sound₁
    exact eraseCells_yields sound₁
  · exact eraseRows_yields still
  · refine (modifyScr_yields still ?_).mono fun _ => And.left
    exact .pure (Screen.clearScrollback_sized still.scr)
  · exact .pure still

theorem eraseLine_yields (h : t.Sound K rows cols) (mode : Nat) (selective : Bool) :
    Yields (t.eraseLine mode selective) (·.Sound K rows cols) := by
  have still : { t with cursor.pendingWrap := false }.Sound K rows cols := h
  unfold eraseLine
  dsimp only
  split
  · refine (lastCol_yields still).bind ?_
    rintro last rfl
    refine (eraseCells_yields still).bind ?_
    intro t₁ sound₁
    refine (setRowWrapped_yields sound₁).bind ?_
    intro t₂ sound₂
    exact .pure sound₂
  · refine (eraseCells_yields still).bind ?_
    intro t₁ sound₁
    exact .pure sound₁
  · refine (lastCol_yields still).bind ?_
    rintro last rfl
    refine (eraseCells_yields still).bind ?_
    intro t₁ sound₁
    refine (setRowWrapped_yields sound₁).bind ?_
    intro t₂ sound₂
    exact .pure sound₂
  · exact .pure still

theorem insertLines_yields (h : t.Sound K rows cols) (n : Nat) :
    Yields (t.insertLines n) (·.Sound K rows cols) := by
  refine (region_yields h).bind ?_
  rintro _ rfl
  dsimp only
  split
  · exact .pure h
  · refine (modifyScr_yields h (Screen.scrollDown_yields h.scr)).bind ?_
    rintro t' ⟨sound, _⟩
    exact .pure (sound.moved rfl sound.cursor_row sound.cols_pos)

theorem deleteLines_yields (h : t.Sound K rows cols) (n : Nat) :
    Yields (t.deleteLines n) (·.Sound K rows cols) := by
  refine (region_yields h).bind ?_
  rintro _ rfl
  dsimp only
  split
  · exact .pure h
  · refine (modifyScr_yields h (Screen.scrollUp_yields h.scr)).bind ?_
    rintro t' ⟨sound, _⟩
    exact .pure (sound.moved rfl sound.cursor_row sound.cols_pos)

/-- What an edit of one row's cells does to the terminal. -/
theorem editRow_yields (h : t.Sound K rows cols) {row : Nat} {f : Row → Checked Row}
    (keeps : ∀ r : Row, r.cells.length = cols → Yields (f r) fun r' => r'.cells.length = cols) :
    Yields (do
      let t ← t.modifyScr (·.modifyRow row f)
      let t ← t.repairWideHalves row
      return { t with cursor.pendingWrap := false }.touch) (·.Sound K rows cols) := by
  refine (modifyScr_yields h (Screen.modifyRow_yields h.scr keeps)).bind ?_
  rintro t₁ ⟨sound₁, _⟩
  refine (repairWideHalves_yields sound₁).bind ?_
  intro t₂ sound₂
  exact .pure sound₂

theorem insertChars_yields (h : t.Sound K rows cols) (n : Nat) :
    Yields (t.insertChars n) (·.Sound K rows cols) := by
  refine editRow_yields h ?_
  intro r width
  exact (insertCells_yields h.cursor_col width).bind fun _ width => .pure width

theorem deleteCells_yields {cells : List Cell} {col n : Nat} {blank : Cell}
    (width : cells.length = cols) :
    Yields (forRange 0 n cells fun _ cells =>
      if col < cells.length then do
        let (_, rest) ← removeAt cells col
        return rest ++ [blank]
      else return cells) (·.length = cols) := by
  refine Yields.forRange width ?_
  intro _ cells _ _ width
  split
  · rename_i inside
    refine (Yields.removeAt inside).bind ?_
    rintro ⟨_, rest⟩ ⟨_, _, rfl⟩
    refine .pure ?_
    rw [List.length_append, List.length_eraseIdx_of_lt inside, List.length_singleton]
    omega
  · exact .pure width

theorem deleteChars_yields (h : t.Sound K rows cols) (n : Nat) :
    Yields (t.deleteChars n) (·.Sound K rows cols) := by
  refine editRow_yields h ?_
  intro r width
  exact (deleteCells_yields width).bind fun _ width => .pure width

theorem eraseChars_yields (h : t.Sound K rows cols) (n : Nat) :
    Yields (t.eraseChars n) (·.Sound K rows cols) := by
  refine Yields.bind (p := (·.Sound K rows cols)) ?_ ?_
  · refine Yields.forRange h ?_
    intro c t' _ _ sound
    exact (setCell_yields sound).mono fun _ => And.left
  · intro t₁ sound₁
    refine (repairWideHalves_yields sound₁).bind ?_
    intro t₂ sound₂
    exact .pure sound₂

theorem repeat_yields (h : t.Sound K rows cols) (n : Nat) :
    Yields (t.repeat n) (·.Sound K rows cols) := by
  have area : t.cols * t.rows < 2 ^ 32 := by
    rw [h.cols_eq, h.rows_eq]
    calc cols * rows < 2 ^ 16 * 2 ^ 16 := Nat.mul_lt_mul'' h.cols_small h.rows_small
      _ = 2 ^ 32 := by norm_num
  unfold «repeat»
  split
  · refine (Yields.mul area).bind ?_
    intro cap _
    exact Yields.forRange h fun _ _ _ _ sound => print_yields sound _
  · exact .ok h

theorem sound_clearTabs (h : t.Sound K rows cols) (mode : Nat) :
    (t.clearTabs mode).Sound K rows cols := by
  unfold clearTabs
  split
  · exact sound_setTab h false
  · exact { h with tabs := (List.length_map _).trans h.tabs }
  · exact h

/-! ### Modes -/

theorem setDecMode_yields (h : t.Sound K rows cols) (n : Nat) (set : Bool) :
    Yields (t.setDecMode n set) (·.WellFormed K) := by
  have wf := h.wellFormed
  refine Yields.bind (p := (·.WellFormed K)) ?_ fun t' wf => .pure wf
  split
  case h_2 => exact setDeccolm_yields h set
  case h_4 =>
    have origin : { t with modes.origin := set }.Sound K rows cols := h
    exact wellFormed_of_yields (moveTo_yields origin 0 0)
  case h_5 => exact .pure (Sound.wellFormed (h.moved rfl h.cursor_row h.cursor_col))
  case h_12 | h_13 | h_14 => exact (setAltScreen_yields h _ set).mono fun _ h => h.1.wellFormed
  case h_24 =>
    split
    · exact .pure (sound_saveCursor h).wellFormed
    · exact (restoreCursor_yields h).mono fun _ h => h.1.wellFormed
  -- the other modes are flags the shape does not depend on
  all_goals exact .pure wf

theorem setDecModes_yields (h : t.WellFormed K) (params : Params) (set : Bool) :
    Yields (t.setDecModes params set) (·.WellFormed K) := by
  refine Yields.forEach h ?_
  rintro p _ t' ⟨rows, cols, sound⟩
  exact setDecMode_yields sound _ set

/-! ### Reports -/

theorem statusReport_yields (h : t.Sound K rows cols) (mode : Nat) :
    Yields (t.statusReport mode) (·.Sound K rows cols) := by
  have row_lt := h.cursor_row
  have col_lt := h.cursor_col
  have rows_small := h.rows_small
  have cols_small := h.cols_small
  unfold statusReport
  split
  · exact .ok h
  · refine (region_yields h).bind ?_
    rintro _ rfl
    refine (Yields.add (by omega)).bind ?_
    intro row _
    refine (Yields.add (by omega)).bind ?_
    intro col _
    exact .pure h
  · exact .ok h

theorem extendedCursorReport_yields (h : t.Sound K rows cols) :
    Yields t.extendedCursorReport (·.Sound K rows cols) := by
  have row_lt := h.cursor_row
  have col_lt := h.cursor_col
  have rows_small := h.rows_small
  have cols_small := h.cols_small
  refine (Yields.add (by omega)).bind ?_
  intro row _
  refine (Yields.add (by omega)).bind ?_
  intro col _
  exact .pure h

theorem windowOps_yields (h : t.Sound K rows cols) (op : Nat) :
    Yields (t.windowOps op) (·.Sound K rows cols) := by
  have rows_small := h.rows_small
  have cols_small := h.cols_small
  have rows_eq := h.rows_eq
  have cols_eq := h.cols_eq
  unfold windowOps
  split
  · refine (Yields.mul (by rw [rows_eq]; unfold CELL_H; omega)).bind ?_
    intro height _
    refine (Yields.mul (by rw [cols_eq]; unfold CELL_W; omega)).bind ?_
    intro width _
    exact .pure h
  · exact .ok h
  · exact .ok h
  · exact .ok h

theorem sound_pushColors (h : t.Sound K rows cols) : t.pushColors.Sound K rows cols := by
  refine { h with colorStack := ?_ }
  intro e mem
  rcases List.mem_append.mp mem with old | new
  · split at old
    · exact h.colorStack e (List.mem_of_mem_drop old)
    · exact h.colorStack e old
  · rw [List.mem_singleton.mp new]
    exact h.palette

theorem sound_popColors (h : t.Sound K rows cols) : t.popColors.Sound K rows cols := by
  unfold popColors
  split
  · rename_i e last
    exact { h with
      palette := h.colorStack e (List.mem_of_getLast? last)
      colorStack := fun e' mem => h.colorStack e' (List.dropLast_subset _ mem) }
  · exact h

/-! ### Dispatch -/

theorem sound_sgr (h : t.Sound K rows cols) (params : Params) : (t.sgr params).Sound K rows cols := by
  unfold sgr
  dsimp only
  split
  · exact h.moved rfl h.cursor_row h.cursor_col
  · exact h.moved rfl h.cursor_row h.cursor_col

theorem csiPlain_yields (h : t.Sound K rows cols) (params : Params) (final : Char) :
    Yields (t.csiPlain params final) (·.Sound K rows cols) := by
  unfold csiPlain
  split
  · exact cursorUp_yields h _
  · exact cursorDown_yields h _
  · exact setCol_yields h _
  · exact .ok (sound_cursorLeft h _)
  · exact (cursorDown_yields h _).bind fun t' sound => .pure (sound_home sound)
  · exact (cursorUp_yields h _).bind fun t' sound => .pure (sound_home sound)
  · exact columnAbsolute_yields h params
  · exact columnAbsolute_yields h params
  · exact cursorPosition_yields h params
  · exact cursorPosition_yields h params
  · exact Yields.forRange h fun _ _ _ _ sound => horizontalTab_yields sound
  · exact eraseDisplay_yields h _ false
  · exact eraseLine_yields h _ false
  · exact insertLines_yields h _
  · exact deleteLines_yields h _
  · exact deleteChars_yields h _
  · exact (scrollUpN_yields h).mono fun _ => And.left
  · exact (scrollDownN_yields h).mono fun _ => And.left
  · exact eraseChars_yields h _
  · exact Yields.forRange h fun _ _ _ _ sound => .pure (sound_backTab sound)
  · exact insertChars_yields h _
  · exact setCol_yields h _
  · exact repeat_yields h _
  · refine .ok ?_
    split
    · exact h
    · exact h
  · exact rowAbsolute_yields h params
  · exact rowRelative_yields h _
  · exact .ok (sound_clearTabs h _)
  · exact .ok h
  · exact .ok h
  · exact .ok (sound_sgr h params)
  · exact statusReport_yields h _
  · exact setRegion_yields h params
  · exact .ok (sound_saveCursor h)
  · exact (restoreCursor_yields h).mono fun _ => And.left
  · exact windowOps_yields h _
  · exact .ok h

theorem csiQuestion_yields (h : t.Sound K rows cols) (params : Params) (final : Char) :
    Yields (t.csiQuestion params final) (·.WellFormed K) := by
  unfold csiQuestion
  split
  · exact wellFormed_of_yields (eraseDisplay_yields h _ true)
  · exact wellFormed_of_yields (eraseLine_yields h _ true)
  · exact setDecModes_yields h.wellFormed params true
  · exact setDecModes_yields h.wellFormed params false
  · split
    · exact wellFormed_of_yields (extendedCursorReport_yields h)
    · exact .ok h.wellFormed
  · exact .ok ((show Sound K rows cols _ from h).wellFormed)
  · exact .ok h.wellFormed

theorem sound_csiMarked (h : t.Sound K rows cols) (params : Params) (marker final : Char) :
    (t.csiMarked params marker final).Sound K rows cols := by
  unfold csiMarked
  split
  · exact h
  · exact h
  · exact sound_modifyKitty h _
  · exact sound_modifyKitty h _
  · exact sound_modifyKitty h _
  · exact h

theorem csiWith_yields (h : t.Sound K rows cols) (params : Params) (intermediate final : Char) :
    Yields (t.csiWith params intermediate final) (·.Sound K rows cols) := by
  unfold csiWith
  split
  · exact .ok h
  · exact softReset_yields h
  · exact .ok (h.moved rfl h.cursor_row h.cursor_col)
  · exact .ok (sound_pushColors h)
  · exact .ok (sound_popColors h)
  · exact .ok h
  · dsimp only
    split
    · exact .ok h
    · exact .ok h
  · exact .ok h

/-- No CSI sequence panics, and each leaves a well-formed terminal. -/
theorem csiDispatch_yields (h : t.WellFormed K) (params : Params) (intermediates : Bytes)
    (marker finalByte : UInt8) :
    Yields (t.csiDispatch params intermediates marker finalByte) (·.WellFormed K) := by
  obtain ⟨rows, cols, sound⟩ := h
  unfold csiDispatch
  dsimp only
  split
  · split
    · exact wellFormed_of_yields (csiPlain_yields sound params _)
    · exact csiQuestion_yields sound params _
    · exact .ok (sound_csiMarked sound params _ _).wellFormed
  · split
    · exact wellFormed_of_yields (csiWith_yields sound params _ _)
    · refine .ok ?_
      split
      · exact (show Sound K rows cols _ from sound).wellFormed
      · exact sound.wellFormed
    · exact .ok sound.wellFormed

end Terminal

end Posh.Term
