import Posh.Term.Grid
import Posh.Term.Terminal

/-!
The well-formed terminals: two screens of one shape, the cursor inside it, an
ordered scroll region, a tab stop for every column, saved cursors that any screen
can hold and palettes of 256 colours.

The invariant speaks about a terminal only through its `layout`, so that a change of
any other field keeps it by definition. `K` stands for what is known of the parser
and of the graphics store, which the operations on the grid leave alone.
-/

namespace Posh.Term

open Posh.Lib

/-- The fields the invariant is about. -/
structure Layout where
  primary : Screen
  alt : Screen
  row : Nat
  col : Nat
  top : Nat
  bot : Nat
  tabs : List Bool
  savedPrimary : SavedCursor
  savedAlt : SavedCursor
  palette : List Rgb
  colorStack : List ColorStackEntry
  parser : Parser
  graphics : GraphicsState

/-- A saved cursor whose one-based coordinates are still `u16`s. -/
def SavedCursor.Small (s : SavedCursor) : Prop :=
  s.cursor.row + 1 < 2 ^ 16 ∧ s.cursor.col + 1 < 2 ^ 16

structure Layout.Valid (K : Parser → GraphicsState → Prop) (rows cols : Nat) (l : Layout) :
    Prop where
  primary : l.primary.Sized rows cols
  alt : l.alt.Sized rows cols
  row_lt : l.row < rows
  col_lt : l.col < cols
  ordered : l.top ≤ l.bot
  bot_lt : l.bot < rows
  tabs : l.tabs.length = cols
  savedPrimary : l.savedPrimary.Small
  savedAlt : l.savedAlt.Small
  palette : l.palette.length = 256
  colorStack : ∀ e ∈ l.colorStack, e.palette.length = 256
  known : K l.parser l.graphics

@[simp] theorem length_defaultTabs (cols : Nat) : (defaultTabs cols).length = cols := by
  simp [defaultTabs]

theorem length_defaultPalette : defaultPalette.length = 256 := by
  simp [defaultPalette]

theorem SavedCursor.small_default : SavedCursor.Small {} :=
  ⟨by decide, by decide⟩

namespace Terminal

def layout (t : Terminal) : Layout where
  primary := t.primary
  alt := t.alt
  row := t.cursor.row
  col := t.cursor.col
  top := t.scrollTop
  bot := t.scrollBot
  tabs := t.tabs
  savedPrimary := t.savedPrimary
  savedAlt := t.savedAlt
  palette := t.palette
  colorStack := t.colorStack
  parser := t.parser
  graphics := t.graphics

/-- A well-formed terminal of `rows` rows and `cols` columns. -/
def Sound (K : Parser → GraphicsState → Prop) (rows cols : Nat) (t : Terminal) : Prop :=
  t.layout.Valid K rows cols

variable {K : Parser → GraphicsState → Prop} {rows cols : Nat} {t t' : Terminal}

theorem sized_max {rows cols : Nat} (rows_lt : rows < 2 ^ 16) (cols_lt : cols < 2 ^ 16)
    (scrollback : Nat) :
    (Screen.new (max rows 1) (max cols 1) scrollback).Sized (max rows 1) (max cols 1) := by
  have sized := Screen.sized_new (show max rows 1 < 2 ^ 16 by omega)
    (show max cols 1 < 2 ^ 16 by omega) scrollback
  rwa [Nat.max_eq_left (Nat.le_max_right rows 1), Nat.max_eq_left (Nat.le_max_right cols 1)] at sized

theorem sound_withScrollback (known : K {} {}) {rows cols : Nat} (rows_lt : rows < 2 ^ 16)
    (cols_lt : cols < 2 ^ 16) (scrollback : Nat) :
    (withScrollback rows cols scrollback).Sound K (max rows 1) (max cols 1) where
  primary := sized_max rows_lt cols_lt scrollback
  alt := sized_max rows_lt cols_lt 0
  row_lt := Nat.lt_of_lt_of_le Nat.one_pos (Nat.le_max_right _ _)
  col_lt := Nat.lt_of_lt_of_le Nat.one_pos (Nat.le_max_right _ _)
  ordered := Nat.zero_le _
  bot_lt := Nat.sub_lt (Nat.lt_of_lt_of_le Nat.one_pos (Nat.le_max_right _ _)) Nat.one_pos
  tabs := length_defaultTabs _
  savedPrimary := SavedCursor.small_default
  savedAlt := SavedCursor.small_default
  palette := length_defaultPalette
  colorStack := nofun
  known := known

namespace Sound

theorem rows_eq (h : t.Sound K rows cols) : t.rows = rows :=
  h.primary.rows_eq

theorem cols_eq (h : t.Sound K rows cols) : t.cols = cols :=
  h.primary.cols_eq

theorem rows_pos (h : t.Sound K rows cols) : 0 < rows :=
  h.primary.rows_pos

theorem cols_pos (h : t.Sound K rows cols) : 0 < cols :=
  h.primary.cols_pos

theorem rows_small (h : t.Sound K rows cols) : rows < 2 ^ 16 :=
  h.primary.rows_lt

theorem cols_small (h : t.Sound K rows cols) : cols < 2 ^ 16 :=
  h.primary.cols_lt

theorem cursor_row (h : t.Sound K rows cols) : t.cursor.row < rows :=
  h.row_lt

theorem cursor_col (h : t.Sound K rows cols) : t.cursor.col < cols :=
  h.col_lt

/-- A terminal that differs, as far as the invariant sees, in the cursor only. -/
theorem moved (h : t.Sound K rows cols)
    (same : t'.layout = { t.layout with row := t'.cursor.row, col := t'.cursor.col })
    (row_lt : t'.cursor.row < rows) (col_lt : t'.cursor.col < cols) : t'.Sound K rows cols := by
  unfold Sound
  rw [same]
  exact { h with row_lt := row_lt, col_lt := col_lt }

theorem scr (h : t.Sound K rows cols) : t.scr.Sized rows cols := by
  unfold Terminal.scr
  split
  · exact h.alt
  · exact h.primary

end Sound

theorem lastRow_yields (h : t.Sound K rows cols) : Yields t.lastRow (· = rows - 1) := by
  have pos := h.rows_pos
  have eq := h.rows_eq
  rw [← eq]
  exact Yields.sub (by omega)

theorem lastCol_yields (h : t.Sound K rows cols) : Yields t.lastCol (· = cols - 1) := by
  have pos := h.cols_pos
  have eq := h.cols_eq
  rw [← eq]
  exact Yields.sub (by omega)

/-- The region of a well-formed terminal is already within the grid. -/
theorem region_yields (h : t.Sound K rows cols) :
    Yields t.region (· = (t.scrollTop, t.scrollBot)) := by
  have bot_lt : t.scrollBot < rows := h.bot_lt
  have ordered : t.scrollTop ≤ t.scrollBot := h.ordered
  have eq := h.rows_eq
  refine (Yields.sub (by omega)).bind ?_
  rintro last rfl
  exact .pure (by rw [Nat.min_eq_left (by omega), Nat.min_eq_left (by omega)])

/-! ### Screen plumbing -/

/-- An operation that keeps the shape of the active screen keeps the terminal well
formed, and does not touch the cursor. -/
theorem modifyScr_yields (h : t.Sound K rows cols) {f : Screen → Checked Screen}
    (keeps : Yields (f t.scr) (·.Sized rows cols)) :
    Yields (t.modifyScr f) fun t' => t'.Sound K rows cols ∧ t'.cursor = t.cursor := by
  refine keeps.bind ?_
  intro s sized
  refine .pure ?_
  by_cases alt : t.altActive = true
  · rw [if_pos alt]
    exact ⟨{ h with alt := sized }, rfl⟩
  · rw [if_neg alt]
    exact ⟨{ h with primary := sized }, rfl⟩

theorem setCell_yields (h : t.Sound K rows cols) {row col : Nat} {c : Cell} :
    Yields (t.modifyScr (·.setCell row col c)) fun t' =>
      t'.Sound K rows cols ∧ t'.cursor = t.cursor :=
  modifyScr_yields h (Screen.setCell_yields h.scr)

/-! ### Moving down and up -/

theorem scrollUpN_yields (h : t.Sound K rows cols) {n : Nat} :
    Yields (t.scrollUpN n) fun t' => t'.Sound K rows cols ∧ t'.cursor = t.cursor := by
  refine (region_yields h).bind ?_
  rintro _ rfl
  refine (lastRow_yields h).bind ?_
  rintro last rfl
  refine (modifyScr_yields h (Screen.scrollUp_yields h.scr)).bind ?_
  rintro t' ⟨sound, same⟩
  exact .pure ⟨sound, same⟩

theorem scrollDownN_yields (h : t.Sound K rows cols) {n : Nat} :
    Yields (t.scrollDownN n) fun t' => t'.Sound K rows cols ∧ t'.cursor = t.cursor := by
  refine (region_yields h).bind ?_
  rintro _ rfl
  refine (modifyScr_yields h (Screen.scrollDown_yields h.scr)).bind ?_
  rintro t' ⟨sound, same⟩
  exact .pure ⟨sound, same⟩

/-- IND keeps the column. -/
theorem index_yields (h : t.Sound K rows cols) :
    Yields t.index fun t' => t'.Sound K rows cols ∧ t'.cursor.col = t.cursor.col := by
  have rows_eq := h.rows_eq
  have rows_small := h.rows_small
  have row_lt := h.cursor_row
  have still : { t with cursor.pendingWrap := false }.Sound K rows cols := h
  unfold index
  refine (region_yields still).bind ?_
  rintro _ rfl
  dsimp only
  split
  · refine (scrollUpN_yields still).bind ?_
    rintro t' ⟨sound, same⟩
    refine .pure ⟨sound, ?_⟩
    change t'.cursor.col = t.cursor.col
    rw [same]
  · refine (Yields.add (by omega)).bind ?_
    rintro below rfl
    refine .pure ?_
    split
    · rename_i inside
      exact ⟨still.moved rfl (rows_eq ▸ inside) h.cursor_col, rfl⟩
    · exact ⟨still, rfl⟩

theorem reverseIndex_yields (h : t.Sound K rows cols) :
    Yields t.reverseIndex (·.Sound K rows cols) := by
  have row_lt := h.cursor_row
  have still : { t with cursor.pendingWrap := false }.Sound K rows cols := h
  unfold reverseIndex
  refine (region_yields still).bind ?_
  rintro _ rfl
  dsimp only
  split
  · refine (scrollDownN_yields still).bind ?_
    rintro t' ⟨sound, _⟩
    exact .pure sound
  · exact .pure (still.moved rfl (Nat.lt_of_le_of_lt (Nat.sub_le _ _) row_lt) h.cursor_col)

theorem linefeed_yields (h : t.Sound K rows cols) : Yields t.linefeed (·.Sound K rows cols) := by
  refine (index_yields h).bind ?_
  rintro t' ⟨sound, _⟩
  refine .pure ?_
  split
  · exact sound.moved rfl sound.cursor_row sound.cols_pos
  · exact sound

theorem nextTab_yields {tabs : List Bool} (small : cols < 2 ^ 16) (fuel : Nat) {col : Nat}
    (inside : col < cols) : Yields (nextTab tabs cols fuel col) (· < cols) := by
  induction fuel generalizing col with
  | zero => exact .pure inside
  | succ fuel ih =>
    refine (Yields.add (by omega)).bind ?_
    rintro next rfl
    split
    · rename_i more
      split
      · exact .pure more
      · exact ih more
    · exact .pure inside

theorem prevTab_le (tabs : List Bool) (col : Nat) : prevTab tabs col ≤ col := by
  induction col with
  | zero => exact Nat.le_refl _
  | succ col ih =>
    unfold prevTab
    split
    · omega
    · omega

theorem horizontalTab_yields (h : t.Sound K rows cols) :
    Yields t.horizontalTab (·.Sound K rows cols) := by
  have col_lt := h.cursor_col
  unfold horizontalTab
  rw [h.cols_eq]
  refine (nextTab_yields h.cols_small cols col_lt).bind ?_
  intro col inside
  exact .pure (h.moved rfl h.cursor_row inside)

theorem sound_backTab (h : t.Sound K rows cols) : t.backTab.Sound K rows cols :=
  h.moved rfl h.cursor_row (Nat.lt_of_le_of_lt (prevTab_le _ _) h.cursor_col)

theorem sound_setTab (h : t.Sound K rows cols) (on : Bool) : (t.setTab on).Sound K rows cols :=
  { h with tabs := (List.length_set ..).trans h.tabs }

theorem sound_home (h : t.Sound K rows cols) : { t with cursor.col := 0 }.Sound K rows cols :=
  h.moved rfl h.cursor_row h.cols_pos

theorem execute_yields (h : t.Sound K rows cols) (b : UInt8) :
    Yields (t.execute b) (·.Sound K rows cols) := by
  unfold execute
  split
  · exact .ok h
  · exact .ok (h.moved rfl h.cursor_row (Nat.lt_of_le_of_lt (Nat.sub_le _ _) h.cursor_col))
  · exact horizontalTab_yields h
  · exact linefeed_yields h
  · exact linefeed_yields h
  · exact linefeed_yields h
  · exact .ok (h.moved rfl h.cursor_row h.cols_pos)
  · exact .ok h
  · exact .ok h
  · exact (index_yields h).mono fun _ => And.left
  · exact (index_yields (sound_home h)).mono fun _ => And.left
  · exact .ok (sound_setTab h true)
  · exact reverseIndex_yields h
  · exact .ok h

/-! ### Printing -/

theorem combine_yields (h : t.Sound K rows cols) (c : Char) :
    Yields (t.combine c) (·.Sound K rows cols) := by
  unfold combine
  split
  · exact .ok h
  · refine (modifyScr_yields h (Screen.modifyCell_yields h.scr)).bind ?_
    rintro t' ⟨sound, _⟩
    exact .pure sound

theorem wrapLine_yields (h : t.Sound K rows cols) :
    Yields t.wrapLine fun t' => t'.Sound K rows cols ∧ t'.cursor.col = 0 := by
  refine (modifyScr_yields h (Screen.setWrapped_yields h.scr)).bind ?_
  rintro t' ⟨sound, _⟩
  exact index_yields (sound_home sound)

theorem wrapPending_yields (h : t.Sound K rows cols) :
    Yields t.wrapPending (·.Sound K rows cols) := by
  have still : { t with cursor.pendingWrap := false }.Sound K rows cols := h
  unfold wrapPending
  dsimp only
  split
  · split
    · exact (wrapLine_yields still).mono fun _ => And.left
    · exact .ok still
  · exact .ok h

/-- After making room the character's end is still a column number. -/
theorem fitWide_yields (h : t.Sound K rows cols) {w : Nat} (w_le : w ≤ 2) :
    Yields (t.fitWide w) fun fit => ∀ t', fit = some t' →
      t'.Sound K rows cols ∧ t'.cursor.col + w < 2 ^ 16 := by
  have col_lt := h.cursor_col
  have small := h.cols_small
  have cols_eq := h.cols_eq
  have next : Yields (if w = 2 then add 16 t.cursor.col 1 else pure 0) fun next =>
      w = 2 → next = t.cursor.col + 1 := by
    split
    · exact (Yields.add (by omega)).mono fun _ eq _ => eq
    · rename_i narrow
      exact .pure fun wide => absurd wide narrow
  refine next.bind ?_
  intro next isNext
  split
  · split
    · refine (setCell_yields h).bind ?_
      rintro t₁ ⟨sound₁, _⟩
      refine (wrapLine_yields sound₁).bind ?_
      rintro t₂ ⟨sound₂, col₂⟩
      refine .pure ?_
      rintro t' same
      cases same
      exact ⟨sound₂, by omega⟩
    · split
      · refine (Yields.sub (by omega)).bind ?_
        rintro col rfl
        refine .pure ?_
        rintro t' same
        cases same
        refine ⟨h.moved rfl h.cursor_row ?_, ?_⟩
        · change t.cols - 2 < cols
          omega
        · change t.cols - 2 + w < 2 ^ 16
          omega
      · refine .pure ?_
        rintro t' same
        cases same
  · rename_i fits
    refine .pure ?_
    rintro t' same
    cases same
    refine ⟨h, ?_⟩
    by_cases wide : w = 2
    · have := isNext wide
      omega
    · omega

theorem cellWidth_eq (row col : Nat) (t : Terminal) :
    t.cellWidth row col = (t.scr.cell row col).map (·.width) :=
  rfl

theorem repairCell_yields (h : t.Sound K rows cols) {row c : Nat} {style : Style} (inside : c < cols) :
    Yields (t.repairCell row style c) (·.Sound K rows cols) := by
  have small := h.cols_small
  unfold repairCell
  refine Yields.bind (p := fun _ => True) ?_ fun orphaned _ => ?_
  · split
    · exact (Yields.add (by omega)).bind fun _ _ => .pure trivial
    · exact .pure trivial
    · exact .pure trivial
  · split
    · exact (setCell_yields h).mono fun _ => And.left
    · exact .pure h

theorem repairWideHalves_yields (h : t.Sound K rows cols) {row : Nat} :
    Yields (t.repairWideHalves row) (·.Sound K rows cols) := by
  unfold repairWideHalves
  rw [h.cols_eq]
  exact Yields.forRange h fun c t' _ inside sound => repairCell_yields sound inside

theorem insertCells_yields {cells : List Cell} {col n : Nat} {blank : Cell} (inside : col < cols)
    (width : cells.length = cols) :
    Yields (forRange 0 n cells fun _ cells => insertAt cells.dropLast col blank)
      (·.length = cols) := by
  refine Yields.forRange width ?_
  intro _ cells _ _ width
  have shorter : cells.dropLast.length = cols - 1 := by rw [List.length_dropLast, width]
  refine (Yields.insertAt (by omega)).mono ?_
  rintro cells' rfl
  rw [List.length_insertIdx_of_le_length (by omega)]
  omega

theorem insertBlanks_yields (h : t.Sound K rows cols) {row col n : Nat} (inside : col < cols) :
    Yields (t.insertBlanks row col n) (·.Sound K rows cols) := by
  refine (modifyScr_yields h (Screen.modifyRow_yields h.scr ?_)).bind ?_
  · intro r width
    exact (insertCells_yields inside width).bind fun _ width => .pure width
  · rintro t' ⟨sound, _⟩
    exact repairWideHalves_yields sound

theorem cleanWide_yields (h : t.Sound K rows cols) {row col w : Nat} (fits : col + w < 2 ^ 16) :
    Yields (t.cleanWide row col w) (·.Sound K rows cols) := by
  have first : Yields (if t.cellWidth row col = some 0 ∧ col > 0 then
      t.modifyScr (·.setCell row (col - 1) (Cell.blank t.blankStyle)) else pure t)
      (·.Sound K rows cols) := by
    split
    · exact (setCell_yields h).mono fun _ => And.left
    · exact .pure h
  refine first.bind ?_
  intro t₁ sound₁
  refine Yields.forRange sound₁ ?_
  intro i t' _ lt sound
  have small := sound.cols_small
  have cols_eq := sound.cols_eq
  refine (Yields.add (by omega)).bind ?_
  rintro c rfl
  split
  · exact .pure sound
  · rename_i inside
    split
    · refine (Yields.add (by omega)).bind ?_
      rintro next rfl
      split
      · exact (setCell_yields sound).mono fun _ => And.left
      · exact .pure sound
    · exact .pure sound

theorem putChar_yields (h : t.Sound K rows cols) {c : Char} {w : Nat}
    (fits : t.cursor.col + w < 2 ^ 16) : Yields (t.putChar c w) (·.Sound K rows cols) := by
  have inserted : Yields (if t.modes.insert then t.insertBlanks t.cursor.row t.cursor.col w else pure t)
      (·.Sound K rows cols) := by
    split
    · exact insertBlanks_yields h h.cursor_col
    · exact .pure h
  refine inserted.bind ?_
  intro t₁ sound₁
  refine (cleanWide_yields sound₁ fits).bind ?_
  intro t₂ sound₂
  refine (setCell_yields sound₂).bind ?_
  rintro t₃ ⟨sound₃, _⟩
  have spaced (cell : Cell) : Yields (if w = 2 then do
        let next ← add 16 t.cursor.col 1
        t₃.modifyScr (·.setCell t.cursor.row next cell)
      else pure t₃) (·.Sound K rows cols) := by
    split
    · refine (Yields.add (by omega)).bind ?_
      rintro next rfl
      exact (setCell_yields sound₃).mono fun _ => And.left
    · exact .pure sound₃
  refine (spaced _).bind ?_
  intro t₄ sound₄
  have cols_eq := sound₄.cols_eq
  have pos := sound₄.cols_pos
  refine (Yields.add fits).bind ?_
  rintro newCol rfl
  split
  · refine (lastCol_yields sound₄).bind ?_
    rintro last rfl
    refine .pure (sound₄.moved rfl sound₄.cursor_row ?_)
    change cols - 1 < cols
    omega
  · rename_i inside
    refine .pure (sound₄.moved rfl sound₄.cursor_row ?_)
    change t.cursor.col + w < cols
    omega

theorem printWide_yields (h : t.Sound K rows cols) {c : Char} {w : Nat} (w_le : w ≤ 2) :
    Yields (t.printWide c w) (·.Sound K rows cols) := by
  have noted : { t.touch with lastPrinted := some c }.Sound K rows cols := h
  refine (wrapPending_yields noted).bind ?_
  intro t₁ sound₁
  refine (fitWide_yields sound₁ w_le).bind ?_
  intro fit spec
  cases fit with
  | none => exact .pure sound₁
  | some t₂ =>
    obtain ⟨sound₂, fits⟩ := spec t₂ rfl
    exact putChar_yields sound₂ fits

theorem print_yields (h : t.Sound K rows cols) (c : Char) :
    Yields (t.print c) (·.Sound K rows cols) := by
  unfold print
  split
  · exact execute_yields h _
  · dsimp only
    split
    · exact combine_yields h _
    · exact printWide_yields h (wcwidth_le _)

/-! ### Saved cursors -/

/-- Under origin mode the cursor is within the scroll region. -/
def InRegion (t : Terminal) : Prop :=
  t.modes.origin = true → t.scrollTop ≤ t.cursor.row ∧ t.cursor.row ≤ t.scrollBot

theorem sound_setSaved (h : t.Sound K rows cols) {saved : SavedCursor} (small : saved.Small) :
    (t.setSaved saved).Sound K rows cols := by
  unfold setSaved
  split
  · exact { h with savedAlt := small }
  · exact { h with savedPrimary := small }

theorem sound_saveCursor (h : t.Sound K rows cols) : t.saveCursor.Sound K rows cols := by
  have row_lt := h.cursor_row
  have col_lt := h.cursor_col
  have rows_small := h.rows_small
  have cols_small := h.cols_small
  refine sound_setSaved h ⟨?_, ?_⟩
  · change t.cursor.row + 1 < 2 ^ 16
    omega
  · change t.cursor.col + 1 < 2 ^ 16
    omega

theorem clampToRegionIfOrigin_yields (h : t.Sound K rows cols) :
    Yields t.clampToRegionIfOrigin fun t' => t'.Sound K rows cols ∧ t'.InRegion := by
  have ordered : t.scrollTop ≤ t.scrollBot := h.ordered
  have bot_lt : t.scrollBot < rows := h.bot_lt
  unfold clampToRegionIfOrigin
  split
  · refine (region_yields h).bind ?_
    rintro _ rfl
    dsimp only
    rw [if_pos ordered]
    refine .pure ⟨h.moved rfl ?_ h.cursor_col, ?_⟩
    · change min (max t.cursor.row t.scrollTop) t.scrollBot < rows
      omega
    · intro _
      change t.scrollTop ≤ min (max t.cursor.row t.scrollTop) t.scrollBot ∧
        min (max t.cursor.row t.scrollTop) t.scrollBot ≤ t.scrollBot
      omega
  · rename_i absolute
    exact .ok ⟨h, fun origin => absurd origin absolute⟩

/-- Any cursor is brought back into the grid, and under origin mode into the region. -/
theorem clamped_yields (h : t.Sound K rows cols) (cursor : CursorState) (origin : Bool) :
    Yields ({ t with cursor := cursor, modes.origin := origin }.clampCursor) fun t' =>
      t'.Sound K rows cols ∧ t'.scrollTop = t.scrollTop ∧ t'.scrollBot = t.scrollBot := by
  have rows_pos := h.rows_pos
  have cols_pos := h.cols_pos
  refine (lastRow_yields h).bind ?_
  rintro lastRow rfl
  refine (lastCol_yields h).bind ?_
  rintro lastCol rfl
  refine .pure ⟨h.moved rfl ?_ ?_, rfl, rfl⟩
  · change min cursor.row (rows - 1) < rows
    omega
  · change min cursor.col (cols - 1) < cols
    omega

theorem restoreCursor_yields (h : t.Sound K rows cols) :
    Yields t.restoreCursor fun t' => t'.Sound K rows cols ∧ t'.InRegion := by
  refine (clamped_yields h t.saved.cursor t.saved.origin).bind ?_
  rintro t₁ ⟨sound₁, _⟩
  refine (clampToRegionIfOrigin_yields sound₁).bind ?_
  rintro t₂ ⟨sound₂, inside⟩
  exact .pure ⟨sound₂, inside⟩

theorem moveTo_yields (h : t.Sound K rows cols) (row col : Nat) :
    Yields (t.moveTo row col) (·.Sound K rows cols) := by
  have bot_lt : t.scrollBot < rows := h.bot_lt
  have rows_pos := h.rows_pos
  have cols_pos := h.cols_pos
  refine (region_yields h).bind ?_
  rintro _ rfl
  refine (lastRow_yields h).bind ?_
  rintro lastRow rfl
  refine (lastCol_yields h).bind ?_
  rintro lastCol rfl
  refine .pure (h.moved rfl ?_ ?_)
  · change (if t.modes.origin then min (satAdd 16 t.scrollTop row) t.scrollBot
      else min row (rows - 1)) < rows
    split
    · omega
    · omega
  · change min col (cols - 1) < cols
    omega

/-! ### Resets -/

theorem wholeRegion_yields (h : t.Sound K rows cols) :
    Yields t.wholeRegion fun t' => t'.Sound K rows cols ∧ t'.cursor = t.cursor := by
  have rows_pos := h.rows_pos
  refine (lastRow_yields h).bind ?_
  rintro last rfl
  exact .pure ⟨{ h with
    ordered := Nat.zero_le _, bot_lt := Nat.sub_lt rows_pos Nat.one_pos }, rfl⟩

theorem decaln_yields (h : t.Sound K rows cols) : Yields t.decaln (·.Sound K rows cols) := by
  refine (wholeRegion_yields h).bind ?_
  rintro t₁ ⟨sound₁, _⟩
  have home : { t₁ with
      modes.origin := false, cursor.row := 0, cursor.col := 0, cursor.pendingWrap := false }.Sound
        K rows cols :=
    sound₁.moved rfl sound₁.rows_pos sound₁.cols_pos
  refine Yields.bind (p := (·.Sound K rows cols)) (Yields.forRange home ?_) ?_
  · intro r t' _ _ sound
    refine Yields.forRange sound ?_
    intro c t' _ _ sound
    exact (setCell_yields sound).mono fun _ => And.left
  · intro t' sound
    exact .pure sound

theorem fullReset_yields (reset : ∀ p g, K p g → K p {}) (h : t.Sound K rows cols) :
    Yields t.fullReset (·.Sound K rows cols) := by
  have rows_pos := h.rows_pos
  refine (lastRow_yields h).bind ?_
  rintro last rfl
  refine .pure ?_
  exact
    { primary := Screen.clearGrid_sized h.primary _
      alt := Screen.clearGrid_sized h.alt _
      row_lt := rows_pos
      col_lt := h.cols_pos
      ordered := Nat.zero_le _
      bot_lt := Nat.sub_lt rows_pos Nat.one_pos
      tabs := (length_defaultTabs _).trans h.cols_eq
      savedPrimary := SavedCursor.small_default
      savedAlt := SavedCursor.small_default
      palette := length_defaultPalette
      colorStack := nofun
      known := reset _ _ h.known }

theorem sound_modifyKitty (h : t.Sound K rows cols) (f : KittyKeyStack → KittyKeyStack) :
    (t.modifyKitty f).Sound K rows cols := by
  unfold modifyKitty
  split
  · exact h
  · exact h

theorem softReset_yields (h : t.Sound K rows cols) : Yields t.softReset (·.Sound K rows cols) := by
  have modes : { t with modes := { t.modes with
    cursorVisible := true, origin := false, insert := false, autowrap := false, cursorKeys := false,
    keypadApp := false } }.Sound K rows cols := h
  refine (wholeRegion_yields modes).bind ?_
  rintro t₁ ⟨sound₁, _⟩
  refine .pure (sound_modifyKitty (sound_setSaved ?_ SavedCursor.small_default) _)
  exact sound₁.moved rfl sound₁.cursor_row sound₁.cursor_col

theorem sound_clearAlt (h : t.Sound K rows cols) : t.clearAlt.Sound K rows cols :=
  { h with alt := Screen.clearGrid_sized h.alt _ }

theorem sound_enterAlt (h : t.Sound K rows cols) (mode : Nat) :
    (t.enterAlt mode).Sound K rows cols := by
  unfold enterAlt
  dsimp only
  by_cases saves : mode = 1049
  · rw [if_pos saves, if_pos saves]
    have active : { t.saveCursor with altActive := true }.Sound K rows cols := sound_saveCursor h
    exact sound_clearAlt active
  · rw [if_neg saves, if_neg saves]
    exact h

/-- Leaving the alternate screen through 1049 restores the primary's cursor. -/
theorem leaveAlt_yields (h : t.Sound K rows cols) (mode : Nat) :
    Yields (t.leaveAlt mode) fun t' =>
      t'.Sound K rows cols ∧ (mode = 1049 → t'.InRegion) := by
  have cleared : (if mode = 1047 then t.clearAlt else t).Sound K rows cols := by
    split
    · exact sound_clearAlt h
    · exact h
  have left : { (if mode = 1047 then t.clearAlt else t) with altActive := false }.Sound K rows cols :=
    cleared
  unfold leaveAlt
  dsimp only
  by_cases restores : mode = 1049
  · rw [if_pos restores]
    exact (restoreCursor_yields left).mono fun _ h => ⟨h.1, fun _ => h.2⟩
  · rw [if_neg restores]
    exact .ok ⟨left, fun same => absurd same restores⟩

/-- A screen switch keeps the terminal well formed, and restores within the region. -/
theorem setAltScreen_yields (h : t.Sound K rows cols) (mode : Nat) (on : Bool) :
    Yields (t.setAltScreen mode on) fun t' => t'.Sound K rows cols ∧
      (mode = 1049 → on = false → t.altActive = true → t'.InRegion) := by
  have noted : { t with screenSwitch := some .alt }.Sound K rows cols := h
  have switched : Yields (if on && !t.altActive then
      pure ({ t with screenSwitch := some .alt }.enterAlt mode)
    else if !on && t.altActive then { t with screenSwitch := some .alt }.leaveAlt mode
    else (pure { t with screenSwitch := some .alt } : Checked Terminal)) fun t' =>
      t'.Sound K rows cols ∧ (mode = 1049 → on = false → t.altActive = true → t'.InRegion) := by
    split
    · rename_i entering
      exact .pure ⟨sound_enterAlt noted mode, fun _ off => by simp [off] at entering⟩
    · split
      · exact (leaveAlt_yields noted mode).mono fun _ h => ⟨h.1, fun same _ _ => h.2 same⟩
      · rename_i stays
        refine .pure ⟨noted, ?_⟩
        intro _ off active
        simp [off, active] at stays
  refine switched.bind ?_
  rintro t' ⟨sound, inside⟩
  have row_lt := sound.cursor_row
  refine (lastRow_yields sound).bind ?_
  rintro last rfl
  have same : min t'.cursor.row (rows - 1) = t'.cursor.row := by omega
  refine .pure ⟨sound.moved rfl ?_ sound.cursor_col, ?_⟩
  · change min t'.cursor.row (rows - 1) < rows
    omega
  · intro mode_eq off active origin
    change t'.scrollTop ≤ min t'.cursor.row (rows - 1) ∧ min t'.cursor.row (rows - 1) ≤ t'.scrollBot
    rw [same]
    exact inside mode_eq off active origin

/-! ### Resize -/

theorem length_keptTabs {tabs : List Bool} {cols : Nat} :
    (tabs.take cols ++ (defaultTabs cols).drop tabs.length).length = cols := by
  rw [List.length_append, List.length_take, List.length_drop, length_defaultTabs]
  omega

theorem resize_yields (h : t.Sound K rows cols) {newRows newCols : Nat}
    (newRows_lt : newRows < 2 ^ 16) (newCols_lt : newCols < 2 ^ 16) :
    Yields (t.resize newRows newCols) (·.Sound K (max newRows 1) (max newCols 1)) := by
  have posRows : 0 < max newRows 1 := by omega
  have posCols : 0 < max newCols 1 := by omega
  unfold resize
  dsimp only
  split
  · rename_i same
    rw [h.rows_eq, h.cols_eq] at same
    rw [same.1, same.2]
    exact .ok h
  · refine (Screen.resize_yields h.primary (show max newRows 1 < 2 ^ 16 by omega)
      (show max newCols 1 < 2 ^ 16 by omega)).bind ?_
    rintro ⟨primary, primaryCur⟩ sizedPrimary
    refine (Screen.resize_yields h.alt (show max newRows 1 < 2 ^ 16 by omega)
      (show max newCols 1 < 2 ^ 16 by omega)).bind ?_
    rintro ⟨alt, altCur⟩ sizedAlt
    rw [Nat.max_eq_left (Nat.le_max_right newRows 1),
      Nat.max_eq_left (Nat.le_max_right newCols 1)] at sizedPrimary sizedAlt
    refine (Yields.sub posRows).bind ?_
    rintro lastRow rfl
    refine (Yields.sub posCols).bind ?_
    rintro lastCol rfl
    refine .pure ?_
    exact { h with
      primary := sizedPrimary
      alt := sizedAlt
      row_lt := Nat.lt_of_le_of_lt (Nat.min_le_right _ _) (Nat.sub_lt posRows Nat.one_pos)
      col_lt := Nat.lt_of_le_of_lt (Nat.min_le_right _ _) (Nat.sub_lt posCols Nat.one_pos)
      ordered := Nat.zero_le _
      bot_lt := Nat.sub_lt posRows Nat.one_pos
      tabs := length_keptTabs }

/-- A terminal well formed for some size. -/
def WellFormed (K : Parser → GraphicsState → Prop) (t : Terminal) : Prop :=
  ∃ rows cols, t.Sound K rows cols

theorem Sound.wellFormed (h : t.Sound K rows cols) : t.WellFormed K :=
  ⟨rows, cols, h⟩

/-- What keeps the size leaves a well-formed terminal. -/
theorem wellFormed_of_yields {x : Checked Terminal} (h : Yields x (·.Sound K rows cols)) :
    Yields x (·.WellFormed K) :=
  h.mono fun _ sound => sound.wellFormed

theorem setDeccolm_yields (h : t.Sound K rows cols) (set : Bool) :
    Yields (t.setDeccolm set) (·.WellFormed K) := by
  have noted : { t with modes.deccolm := set }.Sound K rows cols := h
  have rows_eq := h.rows_eq
  have rows_small := h.rows_small
  unfold setDeccolm
  split
  · exact .ok h.wellFormed
  · have cols_lt : (if set then 132 else 80) < 2 ^ 16 := by split <;> omega
    refine (resize_yields noted (show t.rows < 2 ^ 16 by omega) cols_lt).bind ?_
    intro t₁ sound₁
    refine (wholeRegion_yields sound₁).bind ?_
    rintro t₂ ⟨sound₂, _⟩
    have cleared : Yields (if t₂.modes.noClearOnDeccolm then pure t₂
        else t₂.modifyScr fun s => return s.clearGrid t₂.blankStyle)
        (·.Sound K (max t.rows 1) (max (if set then 132 else 80) 1)) := by
      split
      · exact .pure sound₂
      · refine (modifyScr_yields sound₂ ?_).mono fun _ => And.left
        exact .pure (Screen.clearGrid_sized sound₂.scr _)
    refine cleared.bind ?_
    intro t₃ sound₃
    exact .pure (Sound.wellFormed (sound₃.moved rfl sound₃.rows_pos sound₃.cols_pos))

/-! ### Escape sequences -/

theorem escDispatch_yields (reset : ∀ p g, K p g → K p {}) (h : t.Sound K rows cols)
    (intermediates : Bytes) (finalByte : UInt8) :
    Yields (t.escDispatch intermediates finalByte) (·.Sound K rows cols) := by
  unfold escDispatch
  split
  · split
    · exact .ok (sound_saveCursor h)
    · exact (restoreCursor_yields h).mono fun _ => And.left
    · exact (index_yields h).mono fun _ => And.left
    · exact (index_yields (sound_home h)).mono fun _ => And.left
    · exact .ok (sound_setTab h true)
    · exact reverseIndex_yields h
    · exact fullReset_yields reset h
    · exact .ok h
    · exact .ok h
    · exact .ok h
    · exact .ok h
  · split
    · exact decaln_yields h
    · exact .ok h
  · exact .ok h
  · exact .ok h
  · exact .ok h

end Terminal

end Posh.Term
