import Posh.Term.Rearming
import Posh.Term.Runs
import Posh.Term.Setup

/-!
A dump replayed.

The header, the rows, the modes and the cursor one after the other: each leaves alone what those
before it have set.
-/

namespace Posh.Term

open Posh.Lib

/-- What a dump sets before it draws. -/
structure Profile where
  palette : List Rgb
  fgColor : Option Rgb
  bgColor : Option Rgb
  cursorColor : Option Rgb
  title : List Char
  iconTitle : List Char
  pwd : List Char
  kittyAlt : KittyKeyStack
  altActive : Bool

namespace Terminal

variable {K : Parser → GraphicsState → Prop} {files : Files} {t t' u v v' base : Terminal}
  {text more : List Char} {rows cols : Nat} {st : EmitState} {pen pen' : Pen}

def profile (t : Terminal) : Profile where
  palette := t.palette
  fgColor := t.fgColor
  bgColor := t.bgColor
  cursorColor := t.cursorColor
  title := t.title
  iconTitle := t.iconTitle
  pwd := t.pwd
  kittyAlt := t.kittyAlt
  altActive := t.altActive

/-- The screen that is not shown. -/
def parked (t : Terminal) : Screen :=
  if t.altActive then t.primary else t.alt

/-- What no repaint touches: all but the screen that is shown, the cursor, the setup, the links and
the notes of the emulator. -/
def aside (t : Terminal) : Terminal :=
  { t with
    parser := {}, primary := t.parked, alt := t.parked, cursor := {}, modes := {}, scrollTop := 0
    scrollBot := 0, tabs := [], hyperlinks := [], nextHyperlink := 0, cursorStyleRaw := 0
    generation := 0, lastPrinted := none }

theorem aside_framed (base t : Terminal) : (framed base t).aside = t.aside := by
  unfold framed aside parked
  by_cases alt : t.altActive = true
  · simp only [if_pos alt]
  · simp only [if_neg alt]

/-- What is drawn leaves the terminal well formed. -/
theorem Draws.sound (sound : v.Sound Unknown rows cols) (draws : Draws files text v v')
    (height : v'.rows = v.rows) (width : v'.cols = v.cols) : v'.Sound Unknown rows cols := by
  obtain ⟨actions, -, does⟩ := draws
  have all : Guarded False (v.acts files actions) (·.WellFormed Unknown) :=
    Guarded.forEach sound.wellFormed fun action _ t formed =>
      dispatch_guarded (fun _ _ _ => trivial) formed False.elim fun _ _ _ _ =>
        (Guarded.trivial _).mono fun _ => id
  obtain ⟨rows', cols', sound'⟩ := all.of_eq_ok does
  have rows_eq : rows' = rows := sound'.rows_eq.symm.trans (height.trans sound.rows_eq)
  have cols_eq : cols' = cols := sound'.cols_eq.symm.trans (width.trans sound.cols_eq)
  rwa [rows_eq, cols_eq] at sound'

/-! ### The cursor -/

variable (files) in
/-- The shape of the cursor; the default one is not written. -/
theorem draws_shape {n : Nat} (valid : n ≤ 6) (v : Terminal) :
    ∃ g, Draws files (if n ≠ 0 then "\x1b[".toList ++ decimal n ++ " q".toList else []) v
      { v with cursorStyleRaw := if n = 0 then v.cursorStyleRaw else n, generation := g } := by
  by_cases none : n = 0
  · refine ⟨v.generation, ?_⟩
    rw [if_neg (not_not.mpr none), if_pos none]
    exact .literal rfl ⟨rfl, rfl⟩ rfl
  · refine ⟨v.generation + 1, ?_⟩
    rw [if_pos none, if_neg none]
    interval_cases n
    · exact absurd rfl none
    all_goals exact .literal rfl ⟨rfl, rfl⟩ rfl

variable (files) in
theorem draws_hide (on : Bool) (v : Terminal) :
    ∃ g, Draws files (textIf (!on) "\x1b[?25l") v
      { v with modes.cursorVisible := v.modes.cursorVisible && on, generation := g } := by
  cases on with
  | true =>
    have same : { v with modes.cursorVisible := v.modes.cursorVisible && true, generation := v.generation } = v :=
      congrArg (fun on => { v with modes.cursorVisible := on }) (Bool.and_true _)
    refine ⟨v.generation, ?_⟩
    rw [same]
    exact .literal rfl ⟨rfl, rfl⟩ rfl
  | false =>
    refine ⟨v.generation + 1, ?_⟩
    rw [Bool.and_false]
    exact .literal rfl ⟨rfl, rfl⟩ rfl

variable (files) in
/-- CUP to a cell of the grid, relative to the region under origin mode. -/
theorem draws_cup (height : v.rows = rows) (width : v.cols = cols) (tall : rows < 65536)
    (wide : cols < 65536) (bot_lt : v.scrollBot < rows) {row col : Nat} (row_lt : row < rows)
    (col_lt : col < cols) (inside : v.modes.origin = true → v.scrollTop ≤ row ∧ row ≤ v.scrollBot) :
    ∃ g, Draws files (emitPosition (row - (if v.modes.origin then v.scrollTop else 0) + 1) (col + 1)) v
      { v with cursor.row := row, cursor.col := col, cursor.pendingWrap := false, generation := g } := by
  have moved := moveTo_eq (row - (if v.modes.origin then v.scrollTop else 0)) col v
    (by rw [height]; omega) (by rw [width]; omega)
  rw [height, width] at moved
  refine ⟨v.generation + 1, draws_position (by omega) (by omega) (moved.trans ?_)⟩
  have there : (if v.modes.origin then
      min (satAdd 16 (min v.scrollTop (rows - 1)) (row - (if v.modes.origin then v.scrollTop else 0)))
        (min v.scrollBot (rows - 1))
      else min (row - (if v.modes.origin then v.scrollTop else 0)) (rows - 1)) = row := by
    unfold satAdd
    cases origin : v.modes.origin with
    | false =>
      rw [if_neg Bool.false_ne_true, if_neg Bool.false_ne_true]
      omega
    | true =>
      obtain ⟨low, high⟩ := inside origin
      rw [if_pos rfl, if_pos rfl]
      omega
  have column : min col (cols - 1) = col := by omega
  rw [there, column]
  rfl

/-- The pieces of the cursor's text. -/
theorem dumpCursor_eq (sound : u.Sound K rows cols) (st : EmitState) :
    u.dumpCursor st = .ok
      ((if u.cursorStyleRaw ≠ 0 then "\x1b[".toList ++ decimal u.cursorStyleRaw ++ " q".toList else []) ++
        (u.emitPen u.cursor.style u.cursor.hyperlink st).1 ++
        emitPosition (u.cursor.row - (if u.modes.origin then u.scrollTop else 0) + 1) (u.dumpedCol + 1) ++
        u.again ++ textIf (!u.modes.cursorVisible) "\x1b[?25l") := by
  have ordered : u.scrollTop ≤ u.scrollBot := sound.ordered
  have bot_lt : u.scrollBot < rows := sound.bot_lt
  have row_lt := sound.cursor_row
  have col_lt := sound.cursor_col
  have tall := sound.rows_small
  have wide := sound.cols_small
  have top : min u.scrollTop (rows - 1) = u.scrollTop := by omega
  have near : u.dumpedCol ≤ u.cursor.col := by
    unfold dumpedCol
    split <;> omega
  unfold dumpCursor
  rw [region_eq u (by rw [sound.rows_eq]; omega), sound.rows_eq, top]
  change (add 16 (u.cursor.row - (if u.modes.origin then u.scrollTop else 0)) 1 >>= fun _ =>
    add 16 u.dumpedCol 1 >>= _) = _
  rw [add_eq_ok (by omega)]
  change (add 16 u.dumpedCol 1 >>= _) = _
  rw [add_eq_ok (by omega)]
  unfold again dumpedCol
  cases u.scr.cell u.cursor.row (if u.widePending then u.cursor.col - 1 else u.cursor.col) with
  | none => rfl
  | some cell => rfl

/-- What the text of the cursor of `u` makes of the terminal `v` that has drawn the screen. -/
structure Pointed (u v v' : Terminal) : Prop where
  aside : v'.aside = v.aside
  size : v'.rows = v.rows ∧ v'.cols = v.cols
  setup : v'.setup =
    v.setup.withModes { v.modes with cursorVisible := v.modes.cursorVisible && u.modes.cursorVisible }
  shape : v'.cursorStyleRaw = if u.cursorStyleRaw = 0 then v.cursorStyleRaw else u.cursorStyleRaw
  row : v'.cursor.row = u.cursor.row
  col : v'.cursor.col = u.cursor.col
  pending : v'.cursor.pendingWrap = u.cursor.pendingWrap
  style : v'.cursor.style = u.cursor.style
  link : (v'.hyperlinks.lookup v'.cursor.hyperlink).map (·.uri) =
    (u.hyperlinks.lookup u.cursor.hyperlink).map (·.uri)
  grows : v.ownPen.Grows v'.ownPen
  scrollback : v'.scr.scrollback = v.scr.scrollback
  copied : Copied u v'.ownPen u.scr.grid v'.scr.grid

/-- What the text of the cursor asks of the terminal it is of. -/
structure Pointable (u : Terminal) : Prop where
  shape : u.cursorStyleRaw ≤ 6
  inside : u.modes.origin = true → u.scrollTop ≤ u.cursor.row ∧ u.cursor.row ≤ u.scrollBot
  printed : Screen.Cells Cell.Printed (u.rowCells u.cursor.row)
  tidy : Tidy (u.rowCells u.cursor.row)
  drawable : ∀ c ∈ glyphs (u.rowCells u.cursor.row), Drawable u c
  linkable : u.Linkable u.cursor.hyperlink
  rearmed : u.cursor.pendingWrap = true → u.Rearmed

variable (files) in
/-- The cursor, in a terminal with the region and the character sets of `u`. -/
theorem draws_dumpCursor (catalogued : u.Catalogued) (graphic : u.Graphic) (uSound : u.Sound K rows cols)
    (pointable : u.Pointable) (sound : v.Sound Unknown rows cols) (top : v.scrollTop = u.scrollTop)
    (bot : v.scrollBot = u.scrollBot) (origin : v.modes.origin = u.modes.origin)
    (autowrap : v.modes.autowrap = u.modes.autowrap) (insert : v.modes.insert = u.modes.insert)
    (charset : ∀ c, v.mapCharset c = u.mapCharset c) (follows : v.ownPen.Follows u.hyperlinks st)
    (copied : Copied u v.ownPen u.scr.grid v.scr.grid) :
    ∃ cursor v', u.dumpCursor st = .ok cursor ∧ Draws files cursor v v' ∧ Pointed u v v' := by
  obtain ⟨pen', repens, follows', grows⟩ : ∃ pen',
      Repens files (u.emitPen u.cursor.style u.cursor.hyperlink st).1 v.ownPen pen' ∧
        pen'.Follows u.hyperlinks ⟨u.cursor.style, u.cursor.hyperlink⟩ ∧ v.ownPen.Grows pen' :=
    repens_emitPen catalogued graphic follows u.cursor.style pointable.linkable
  have row_lt := uSound.cursor_row
  have col_lt : u.dumpedCol < cols := by
    have := uSound.cursor_col
    unfold dumpedCol
    split <;> omega
  have inside : v.modes.origin = true → v.scrollTop ≤ u.cursor.row ∧ u.cursor.row ≤ v.scrollBot := by
    rw [origin, top, bot]
    exact pointable.inside
  obtain ⟨g, shaped⟩ := draws_shape files pointable.shape v
  let formed : Terminal := { v with
    cursorStyleRaw := if u.cursorStyleRaw = 0 then v.cursorStyleRaw else u.cursorStyleRaw, generation := g }
  obtain ⟨g', penned⟩ := repens formed rfl
  let drawn : Terminal := formed.withPen pen' g'
  obtain ⟨g₃, placed⟩ := draws_cup files (show drawn.rows = rows from sound.rows_eq) sound.cols_eq
    uSound.rows_small uSound.cols_small sound.bot_lt row_lt col_lt inside
  have offset : (if drawn.modes.origin then drawn.scrollTop else 0) =
      if u.modes.origin then u.scrollTop else 0 := by
    rw [← origin, ← top]
    rfl
  rw [offset] at placed
  let there : Terminal := { drawn with
    cursor.row := u.cursor.row, cursor.col := u.dumpedCol, cursor.pendingWrap := false, generation := g₃ }
  have soundThere : there.Sound Unknown rows cols := { sound with row_lt, col_lt }
  obtain ⟨rearmed, printed, again⟩ := draws_again files uSound pointable.printed pointable.tidy
    pointable.drawable pointable.rearmed soundThere rfl rfl rfl autowrap insert charset follows'
    (copied.grow grows)
  obtain ⟨g₄, hidden⟩ := draws_hide files u.modes.cursorVisible rearmed
  refine ⟨_, _, dumpCursor_eq uSound st,
    (((shaped.append penned).append placed).append printed).append hidden, ?_⟩
  have pen : rearmed.ownPen = pen' := again.pen
  have same {α : Type} (f : Terminal → α) : f (framed there rearmed) = f there := congrArg f again.frame
  have link := follows'.link
  rw [← pen] at grows link
  exact {
    aside := by
      have same : (framed there rearmed).aside = there.aside := congrArg Terminal.aside again.frame
      rw [aside_framed] at same
      exact same
    size := again.size
    setup := congrArg (fun s : Setup =>
      s.withModes { s.modes with cursorVisible := s.modes.cursorVisible && u.modes.cursorVisible })
      (same Terminal.setup)
    shape := same Terminal.cursorStyleRaw
    row := again.row
    col := again.col
    pending := again.pending
    style := (congrArg Pen.style pen).trans follows'.style
    link
    grows
    scrollback := again.scrollback
    copied := again.copied }

/-! ### The modes and the cursor -/

/-- The setup after a replay. DECCOLM stays unset where the width is not 132. -/
def replayedSetup (u : Terminal) : Setup :=
  u.setup.withModes { u.modes with deccolm := u.modes.deccolm && u.cols == 132 }

/-- What the end of the dump of `u` makes of the terminal `v` that has read all before it. -/
structure Closed (u v v' : Terminal) : Prop where
  size : v'.rows = v.rows ∧ v'.cols = v.cols
  setup : v'.setup = u.replayedSetup
  row : v'.cursor.row = u.cursor.row
  col : v'.cursor.col = u.cursor.col
  pending : v'.cursor.pendingWrap = u.cursor.pendingWrap
  style : v'.cursor.style = u.cursor.style
  link : (v'.hyperlinks.lookup v'.cursor.hyperlink).map (·.uri) =
    (u.hyperlinks.lookup u.cursor.hyperlink).map (·.uri)
  shape : v'.cursorStyleRaw = u.cursorStyleRaw
  keys : v'.kittyPrimary = u.kittyStack
  profile : v'.profile = v.profile
  grows : v.ownPen.Grows v'.ownPen
  scrollback : v'.scr.scrollback = v.scr.scrollback
  copied : Copied u v'.ownPen u.scr.grid v'.scr.grid

variable (files) in
/-- The modes and the cursor, on a new setup. -/
theorem draws_closing (catalogued : u.Catalogued) (graphic : u.Graphic) (uSound : u.Sound K rows cols)
    (settled : u.setup.Settled rows) (pushed : Pushed u.kittyStack) (pointable : u.Pointable)
    (sound : v.Sound Unknown rows cols) (fresh : v.setup = .fresh rows cols) (primary : v.altActive = false)
    (keys : v.kittyPrimary = {}) (shape : v.cursorStyleRaw = 0) (follows : v.ownPen.Follows u.hyperlinks st)
    (copied : Copied u v.ownPen u.scr.grid v.scr.grid) :
    ∃ modes cursor v', u.dumpModes = .ok modes ∧ u.dumpCursor st = .ok cursor ∧
      Draws files (modes ++ cursor) v v' ∧ Closed u v v' := by
  obtain ⟨text, eq, arranges⟩ : ∃ text, u.dumpModes = .ok (text ++ dumpKitty u.kittyStack) ∧
      Arranges files rows cols text (.fresh rows cols) u.dumpedSetup :=
    arranges_dumpModes uSound settled
  obtain ⟨at_, arranged⟩ := arranges v sound.rows_eq sound.cols_eq fresh
  let arrayed : Terminal := v.withSetup u.dumpedSetup at_
  let keyed : Terminal := { arrayed with kittyPrimary := u.kittyStack }
  have onPrimary : ¬ arrayed.altActive = true := by
    rw [show arrayed.altActive = false from primary]
    exact Bool.false_ne_true
  have pushes : Draws files (dumpKitty u.kittyStack) arrayed keyed := by
    have pushed : Draws files (dumpKitty u.kittyStack) arrayed (arrayed.modifyKitty fun _ => u.kittyStack) :=
      draws_dumpKitty pushed ((if_neg onPrimary).trans keys)
    rwa [show (arrayed.modifyKitty fun _ => u.kittyStack) = keyed from if_neg onPrimary] at pushed
  have soundKeyed : keyed.Sound Unknown rows cols := Draws.sound sound (arranged.append pushes) rfl rfl
  obtain ⟨cursor, v', written, draws, pointed⟩ := draws_dumpCursor files catalogued graphic uSound pointable
    soundKeyed rfl rfl rfl rfl rfl (fun c => rfl) follows copied
  refine ⟨_, _, v', eq, written, (arranged.append pushes).append draws, ?_⟩
  have same {α : Type} (f : Terminal → α) : f v'.aside = f keyed.aside := congrArg f pointed.aside
  have usual : v'.cursorStyleRaw = if u.cursorStyleRaw = 0 then 0 else u.cursorStyleRaw :=
    pointed.shape.trans (by rw [show keyed.cursorStyleRaw = 0 from shape])
  exact {
    size := pointed.size
    setup := pointed.setup
    row := pointed.row
    col := pointed.col
    pending := pointed.pending
    style := pointed.style
    link := pointed.link
    shape := by
      rw [usual]
      split
      · rename_i none
        exact none.symm
      · rfl
    keys := same Terminal.kittyPrimary
    profile := same Terminal.profile
    grows := pointed.grows
    scrollback := pointed.scrollback
    copied := pointed.copied }

end Terminal

end Posh.Term
