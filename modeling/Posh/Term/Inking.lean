import Posh.Term.Draws
import Posh.Term.Links
import Posh.Term.Page

/-!
A terminal that writes a page.

`Inked base p pen t` says that the terminal `t` is `base` with the page `p` on its active
screen, the pen `pen` and the cursor in the current row. Each step of a drawing leads from one
such terminal to another, so that whatever a drawing does not touch is that of `base`.
-/

namespace Posh.Term

open Posh.Lib

/-- The style and the link that are written with, and the links that are known. -/
structure Pen where
  style : Style := {}
  link : Nat := 0
  links : AssocMap Hyperlink := []
  next : Nat := 0

/-- The cell of a character that the pen writes. -/
def Pen.cell (c : Char) (w : Nat) (pen : Pen) : Cell :=
  { ch := c, style := pen.style, width := w, hyperlink := pen.link }

/-- The style of the blanks that enter the grid. -/
def Pen.blank (pen : Pen) : Style :=
  { bg := pen.style.bg }

namespace Terminal

variable {rows cols : Nat} {base t t' : Terminal} {p : Page} {pen : Pen}

/-- The terminal with what a drawing changes taken from `base`. -/
def framed (base t : Terminal) : Terminal :=
  { t with
    primary := if t.altActive then t.primary else base.primary
    alt := if t.altActive then base.alt else t.alt
    cursor := { t.cursor with
      row := base.cursor.row
      col := base.cursor.col
      pendingWrap := base.cursor.pendingWrap
      style := base.cursor.style
      hyperlink := base.cursor.hyperlink }
    hyperlinks := base.hyperlinks
    nextHyperlink := base.nextHyperlink
    generation := base.generation
    lastPrinted := base.lastPrinted }

structure Inked (base : Terminal) (p : Page) (pen : Pen) (t : Terminal) : Prop where
  frame : framed base t = base
  scr : t.scr = p.screen base.scr
  row : t.cursor.row = p.index base.rows
  style : t.cursor.style = pen.style
  link : t.cursor.hyperlink = pen.link
  links : t.hyperlinks = pen.links
  next : t.nextHyperlink = pen.next

/-- The cursor is after what the current row has got. -/
structure Drawn (base : Terminal) (p : Page) (pen : Pen) (t : Terminal) : Prop
    extends Inked base p pen t where
  col : t.cursor.col = min p.here.length (base.cols - 1)
  pending : t.cursor.pendingWrap = decide (p.here.length = base.cols)

/-- A terminal to draw on: the whole grid scrolls, the alternate screen without a scrollback,
and a character is written as it is. -/
structure Canvas (rows cols : Nat) (t : Terminal) : Prop where
  sound : t.Sound Unknown rows cols
  top : t.scrollTop = 0
  bot : t.scrollBot = rows - 1
  autowrap : t.modes.autowrap = true
  overwrite : t.modes.insert = false
  ascii : ∀ c, t.mapCharset c = c
  ring : t.altActive = true → t.alt.maxScrollback = 0

namespace Inked

/-- What a drawing does not change. -/
theorem same (h : Inked base p pen t) {α : Type} (f : Terminal → α) (kept : f (framed base t) = f t) :
    f t = f base :=
  kept.symm.trans (congrArg f h.frame)

theorem altActive (h : Inked base p pen t) : t.altActive = base.altActive :=
  h.same (·.altActive) rfl

theorem modes (h : Inked base p pen t) : t.modes = base.modes :=
  h.same (·.modes) rfl

/-- The other screen is that of the base. -/
theorem primary (h : Inked base p pen t) (alt : base.altActive = true) : t.primary = base.primary := by
  have same := congrArg Terminal.primary h.frame
  unfold framed at same
  dsimp only at same
  rwa [if_pos (h.altActive.trans alt)] at same

theorem alt (h : Inked base p pen t) (alt : base.altActive = false) : t.alt = base.alt := by
  have same := congrArg Terminal.alt h.frame
  unfold framed at same
  dsimp only at same
  rwa [if_neg (by rw [h.altActive, alt]; exact Bool.false_ne_true)] at same

theorem sound (h : Inked base p pen t) (sound : base.Sound Unknown rows cols)
    (fits : p.Fits rows cols) (within : t.cursor.col < cols) : t.Sound Unknown rows cols := by
  have scr := h.scr
  have sized := fits.sized sound.scr
  have row : t.cursor.row < rows := by
    rw [h.row, sound.rows_eq]
    exact fits.index_lt
  have screens : t.primary.Sized rows cols ∧ t.alt.Sized rows cols := by
    rw [← scr] at sized
    cases active : base.altActive with
    | true =>
      unfold Terminal.scr at sized
      rw [if_pos (h.altActive.trans active)] at sized
      exact ⟨h.primary active ▸ sound.primary, sized⟩
    | false =>
      unfold Terminal.scr at sized
      rw [if_neg (by rw [h.altActive, active]; exact Bool.false_ne_true)] at sized
      exact ⟨sized, h.alt active ▸ sound.alt⟩
  exact {
    primary := screens.1
    alt := screens.2
    row_lt := row
    col_lt := within
    ordered := by
      change t.scrollTop ≤ t.scrollBot
      rw [h.same (·.scrollTop) rfl, h.same (·.scrollBot) rfl]
      exact sound.ordered
    bot_lt := by
      change t.scrollBot < rows
      rw [h.same (·.scrollBot) rfl]
      exact sound.bot_lt
    tabs := (congrArg List.length (h.same (·.tabs) rfl)).trans sound.tabs
    savedPrimary := by
      change t.savedPrimary.Small
      rw [h.same (·.savedPrimary) rfl]
      exact sound.savedPrimary
    savedAlt := by
      change t.savedAlt.Small
      rw [h.same (·.savedAlt) rfl]
      exact sound.savedAlt
    palette := (congrArg List.length (h.same (·.palette) rfl)).trans sound.palette
    colorStack := by
      change ∀ e ∈ t.colorStack, _
      rw [h.same (·.colorStack) rfl]
      exact sound.colorStack
    known := trivial }

end Inked

/-! ### Cells of the current row -/

theorem framed_withCells (base t : Terminal) (row : Nat) (cells : List Cell) :
    framed base (t.withCells row cells) = framed base t := by
  unfold withCells framed
  by_cases alt : t.altActive = true
  · simp only [if_pos alt]
  · simp only [if_neg alt]

theorem links_withCells (t : Terminal) (row : Nat) (cells : List Cell) :
    ((t.withCells row cells).hyperlinks, (t.withCells row cells).nextHyperlink) =
      (t.hyperlinks, t.nextHyperlink) := by
  unfold withCells
  split <;> rfl

theorem Inked.rowCells (h : Inked base p pen t) (sound : base.Sound Unknown rows cols)
    (fits : p.Fits rows cols) : t.rowCells (p.index rows) = (p.row cols).cells := by
  unfold Terminal.rowCells
  rw [h.scr]
  exact fits.cellsAt sound.scr

/-- Other cells written to the current row. -/
theorem Inked.withCells (h : Inked base p pen t) (sound : base.Sound Unknown rows cols)
    (fits : p.Fits rows cols) (here : List Cell) :
    Inked base (p.write here) pen
      (t.withCells (p.index rows) ((p.write here).row cols).cells) where
  frame := (framed_withCells base t _ _).trans h.frame
  scr := by
    rw [scr_withCells, h.scr]
    exact fits.withCells sound.scr here
  row := by
    rw [cursor_withCells]
    exact h.row
  style := by
    rw [cursor_withCells]
    exact h.style
  link := by
    rw [cursor_withCells]
    exact h.link
  links := (Prod.mk.inj (links_withCells t _ _)).1.trans h.links
  next := (Prod.mk.inj (links_withCells t _ _)).2.trans h.next

/-! ### Printing -/

theorem Drawn.col_lt (h : Drawn base p pen t) (canvas : Canvas rows cols base) : t.cursor.col < cols := by
  have pos := canvas.sound.cols_pos
  have cols_eq := canvas.sound.cols_eq
  have col := h.col
  omega

/-- The first blank of the current row becomes a cell. -/
theorem Inked.setCell (h : Inked base p pen t) (canvas : Canvas rows cols base)
    (fits : p.Fits rows cols) (within : t.cursor.col < cols) (room : p.here.length < cols)
    (c : Cell) :
    Yields (t.modifyScr (·.setCell (p.index rows) p.here.length c)) fun t' =>
      Inked base (p.write (p.here ++ [c])) pen t' ∧ t'.cursor = t.cursor := by
  have sound := h.sound canvas.sound fits within
  rw [setCell_eq sound fits.index_lt room, h.rowCells canvas.sound fits, Page.set_row room]
  exact .ok ⟨h.withCells canvas.sound fits _, cursor_withCells⟩

/-- The cells of a character. -/
theorem Inked.setCells (h : Inked base p pen t) (canvas : Canvas rows cols base)
    (fits : p.Fits rows cols) (within : t.cursor.col < cols) (cell : Cell) {w : Nat}
    (width : cell.width = w) (visible : w = 1 ∨ w = 2) (room : p.here.length + w ≤ cols) :
    Yields (do
        let t ← t.modifyScr (·.setCell (p.index rows) p.here.length cell)
        if w = 2 then do
          let next ← add 16 p.here.length 1
          t.modifyScr (·.setCell (p.index rows) next cell.spacer)
        else pure t) fun t' =>
      Inked base (p.put cell) pen t' ∧ t'.cursor = t.cursor := by
  have small := canvas.sound.cols_small
  refine (h.setCell canvas fits within (by omega) cell).bind ?_
  rintro t₁ ⟨inked, cursor⟩
  rcases visible with rfl | rfl
  · have narrow : cell.spread = [cell] := if_neg (by omega)
    rw [if_neg (by decide)]
    unfold Page.put
    rw [narrow]
    exact .pure ⟨inked, cursor⟩
  · have wide : cell.spread = [cell] ++ [cell.spacer] := if_pos width
    have length : (p.write (p.here ++ [cell])).here.length = p.here.length + 1 :=
      List.length_append
    rw [if_pos rfl]
    refine (Yields.add (by omega)).bind ?_
    rintro next rfl
    have headFits : (p.write (p.here ++ [cell])).Fits rows cols :=
      fits.write (show (p.write (p.here ++ [cell])).here.length ≤ cols by omega)
    have second := inked.setCell canvas headFits (cursor ▸ within) (by omega) cell.spacer
    rw [length] at second
    refine second.mono ?_
    rintro t₂ ⟨inked, cursor'⟩
    unfold Page.put
    rw [wide, ← List.append_assoc]
    exact ⟨inked, cursor'.trans cursor⟩

/-- A character that fits into the current row. -/
theorem Drawn.putChar (h : Drawn base p pen t) (canvas : Canvas rows cols base)
    (fits : p.Fits rows cols) (c : Char) {w : Nat} (visible : w = 1 ∨ w = 2)
    (room : p.here.length + w ≤ cols) :
    Yields (t.putChar c w) (Drawn base (p.put (pen.cell c w)) pen) := by
  have rows_eq := canvas.sound.rows_eq
  have cols_eq := canvas.sound.cols_eq
  have small := canvas.sound.cols_small
  have within := h.col_lt canvas
  have sound := h.toInked.sound canvas.sound fits within
  have row : t.cursor.row = p.index rows := rows_eq ▸ h.row
  have col : t.cursor.col = p.here.length := by
    have := h.col
    omega
  have length : (p.put (pen.cell c w)).here.length = p.here.length + w :=
    Page.length_put rfl visible
  have putFits : (p.put (pen.cell c w)).Fits rows cols := fits.put rfl visible room
  have written := h.toInked.setCells canvas fits within (pen.cell c w) rfl visible room
  unfold Terminal.putChar
  dsimp only
  rw [h.modes, canvas.overwrite, if_neg Bool.false_ne_true, row, col]
  change Yields (t.cleanWide (p.index rows) p.here.length w >>= _) _
  rw [cleanWide_eq sound fits.index_lt (by omega) (by omega), h.rowCells canvas.sound fits,
    Page.cleaned_row _ room (by omega), ← h.rowCells canvas.sound fits, withCells_rowCells]
  change Yields (t.modifyScr (·.setCell (p.index rows) p.here.length
    { ch := c, style := t.cursor.style, width := w, hyperlink := t.cursor.hyperlink }) >>= _) _
  rw [h.style, h.link, ← bind_assoc]
  refine written.bind ?_
  rintro t' ⟨inked, cursor⟩
  refine (Yields.add (by omega)).bind ?_
  rintro newCol rfl
  have sound' := inked.sound canvas.sound putFits (cursor ▸ h.col_lt canvas)
  rw [sound'.cols_eq]
  split
  · rename_i full
    refine (lastCol_yields sound').bind ?_
    rintro last rfl
    refine .pure { inked with col := ?_, pending := ?_ }
    · dsimp only
      omega
    · dsimp only
      rw [inked.modes, canvas.autowrap, length, Bool.true_or, eq_comm, decide_eq_true_eq]
      omega
  · rename_i room
    refine .pure { inked with col := ?_, pending := ?_ }
    · dsimp only
      omega
    · dsimp only
      rw [cursor, h.pending, length]
      refine decide_eq_decide.mpr ?_
      omega

/-! ### Moving down -/

/-- A change of the active screen. -/
theorem Inked.modifyScr (h : Inked base p pen t) {f : Screen → Checked Screen} {p' : Page}
    (changed : f (p.screen base.scr) = .ok (p'.screen base.scr))
    (index : p'.index base.rows = p.index base.rows) :
    Yields (t.modifyScr f) fun t' => Inked base p' pen t' ∧ t'.cursor = t.cursor := by
  unfold Terminal.modifyScr
  rw [h.scr, changed]
  have row := h.row.trans index.symm
  refine .ok ?_
  by_cases alt : t.altActive = true
  · rw [if_pos alt]
    refine ⟨⟨?_, if_pos alt, row, h.style, h.link, h.links, h.next⟩, rfl⟩
    refine Eq.trans ?_ h.frame
    unfold framed
    simp only [if_pos alt]
  · rw [if_neg alt]
    refine ⟨⟨?_, if_neg alt, row, h.style, h.link, h.links, h.next⟩, rfl⟩
    refine Eq.trans ?_ h.frame
    unfold framed
    simp only [if_neg alt]

/-- A cursor that moved within the row, or a bump of the generation. -/
theorem Inked.touch (h : Inked base p pen t) : Inked base p pen t.touch :=
  ⟨h.frame, h.scr, h.row, h.style, h.link, h.links, h.next⟩

theorem Inked.settle (h : Inked base p pen t) : Inked base p pen { t with cursor.pendingWrap := false } :=
  ⟨h.frame, h.scr, h.row, h.style, h.link, h.links, h.next⟩

theorem Inked.home (h : Inked base p pen t) : Inked base p pen { t with cursor.col := 0 } :=
  ⟨h.frame, h.scr, h.row, h.style, h.link, h.links, h.next⟩

/-- At the bottom margin the grid scrolls. -/
theorem Inked.scrollUpN (h : Inked base p pen t) (canvas : Canvas rows cols base)
    (fits : p.Fits rows cols) (within : t.cursor.col < cols) (last : p.below = []) :
    Yields (t.scrollUpN 1) fun t' => Inked base (p.next cols pen.blank) pen t' ∧
      t'.cursor = t.cursor := by
  have sound := h.sound canvas.sound fits within
  have top : t.scrollTop = 0 := (h.same (·.scrollTop) rfl).trans canvas.top
  have bot : t.scrollBot = rows - 1 := (h.same (·.scrollBot) rfl).trans canvas.bot
  have style : t.blankStyle = pen.blank := congrArg (fun style : Style => ({ bg := style.bg } : Style)) h.style
  unfold Terminal.scrollUpN
  refine (region_yields sound).bind ?_
  rintro _ rfl
  refine (lastRow_yields sound).bind ?_
  rintro _ rfl
  rw [top, bot, style, h.altActive]
  dsimp only
  have saved : (!base.altActive && 0 == 0 && rows - 1 == rows - 1) = true ∨
      base.scr.maxScrollback = 0 := by
    cases alt : base.altActive with
    | true =>
      refine .inr ?_
      unfold Terminal.scr
      rw [if_pos alt]
      exact canvas.ring alt
    | false =>
      exact .inl (beq_self_eq_true (rows - 1))
  have scrolled := Page.scrollUp_page fits canvas.sound.scr last saved pen.blank
  have index : (p.next cols pen.blank).index base.rows = p.index base.rows := by
    unfold Page.index Page.next
    rw [last]
  refine (h.modifyScr scrolled index).bind ?_
  rintro t' ⟨inked, cursor⟩
  exact .pure ⟨inked.touch, cursor⟩

/-- The row that IND leads to. -/
theorem Inked.index (h : Inked base p pen t) (canvas : Canvas rows cols base)
    (fits : p.Fits rows cols) (within : t.cursor.col < cols) :
    Yields t.index fun t' => Inked base (p.next cols pen.blank) pen t' ∧
      t'.cursor.col = t.cursor.col ∧ t'.cursor.pendingWrap = false := by
  have base_rows := canvas.sound.rows_eq
  have short := fits.short
  have settled := h.settle
  have sound := settled.sound canvas.sound fits within
  have row : t.cursor.row = rows - 1 - p.below.length := base_rows ▸ h.row
  have bot : t.scrollBot = rows - 1 := (h.same (·.scrollBot) rfl).trans canvas.bot
  unfold Terminal.index
  dsimp only
  refine (region_yields sound).bind ?_
  rintro _ rfl
  dsimp only
  split
  · rename_i last
    have last := last.trans bot
    have empty : p.below = [] := List.length_eq_zero_iff.mp (by omega)
    refine (settled.scrollUpN canvas fits within empty).bind ?_
    rintro t' ⟨inked, cursor⟩
    refine .pure ⟨inked.touch, ?_, ?_⟩
    · exact congrArg (·.col) cursor
    · exact congrArg (·.pendingWrap) cursor
  · rename_i inside
    have inside : t.cursor.row ≠ rows - 1 := fun last => inside (last.trans bot.symm)
    have more : p.below ≠ [] := fun empty => inside (by rw [row, empty]; rfl)
    have some_ := List.length_pos_iff.mpr more
    refine (Yields.add (by have := canvas.sound.rows_small; omega)).bind ?_
    rintro below rfl
    have height : t.rows = rows := sound.rows_eq
    have lower : t.cursor.row + 1 < t.rows := by omega
    split
    · refine .pure ⟨?_, rfl, rfl⟩
      refine Inked.touch ⟨h.frame, ?_, ?_, h.style, h.link, h.links, h.next⟩
      · rw [Page.screen_next_below fits canvas.sound.scr more]
        exact h.scr
      · have length : (p.next cols pen.blank).below.length + 1 = p.below.length := by
          unfold Page.next
          split
          · rename_i below
            rw [below]
            rfl
          · contradiction
        dsimp only
        unfold Page.index
        omega
    · rename_i past
      exact absurd lower past

/-- At the start of a row. -/
theorem Inked.drawn (h : Inked base p pen t) (canvas : Canvas rows cols base) (here : p.here = [])
    (col : t.cursor.col = 0) (pending : t.cursor.pendingWrap = false) : Drawn base p pen t where
  toInked := h
  col := by
    rw [col, here]
    exact (Nat.zero_min _).symm
  pending := by
    have pos := canvas.sound.cols_pos
    have cols_eq := canvas.sound.cols_eq
    rw [pending, here, List.length_nil, eq_comm, decide_eq_false_iff_not]
    omega

/-- The end of a row that is not wrapped. -/
theorem Drawn.newline (h : Drawn base p pen t) (canvas : Canvas rows cols base)
    (fits : p.Fits rows cols) (files : Files) :
    Yields (t.acts files [.execute 0x0D, .execute 0x0A]) (Drawn base (p.next cols pen.blank) pen) := by
  have pos := canvas.sound.cols_pos
  have home := h.toInked.settle.home
  change Yields (Terminal.linefeed { t with cursor.col := 0, cursor.pendingWrap := false }.touch >>= pure) _
  rw [bind_pure]
  refine (home.touch.index canvas fits pos).bind ?_
  rintro t' ⟨inked, col, pending⟩
  have drawn := inked.drawn canvas (Page.here_next cols pen.blank p) col pending
  split
  · exact .pure (inked.home.drawn canvas (Page.here_next cols pen.blank p) rfl pending)
  · exact .pure drawn

/-- The end of a row that is wrapped. -/
theorem Inked.wrapLine (h : Inked base p pen t) (canvas : Canvas rows cols base)
    (fits : p.Fits rows cols) :
    Yields t.wrapLine (Drawn base (Page.next cols pen.blank { p with wrapped := true }) pen) := by
  have pos := canvas.sound.cols_pos
  have row : t.cursor.row = p.index rows := canvas.sound.rows_eq ▸ h.row
  have wrapped : ({ p with wrapped := true } : Page).Fits rows cols := { fits with }
  have flagged : (p.screen base.scr).setWrapped (p.index rows) true =
      .ok (Page.screen base.scr { p with wrapped := true }) :=
    fits.modifyRow canvas.sound.scr rfl rfl rfl
  rw [← row] at flagged
  unfold Terminal.wrapLine
  refine (h.modifyScr (f := (·.setWrapped t.cursor.row true)) flagged rfl).bind ?_
  rintro t₁ ⟨inked, cursor⟩
  refine (inked.home.index canvas wrapped pos).mono ?_
  rintro t₂ ⟨inked, col, pending⟩
  exact inked.drawn canvas (Page.here_next cols pen.blank _) col pending

/-- A full row is left before anything more is printed. -/
theorem Drawn.wrapPending (h : Drawn base p pen t) (canvas : Canvas rows cols base)
    (fits : p.Fits rows cols) :
    Yields t.wrapPending (Drawn base (p.wrap cols pen.blank) pen) := by
  have cols_eq := canvas.sound.cols_eq
  have autowrap : t.modes.autowrap = true := by
    rw [h.modes]
    exact canvas.autowrap
  unfold Terminal.wrapPending Page.wrap
  rw [h.pending, cols_eq]
  by_cases full : p.here.length = cols
  · rw [if_pos (decide_eq_true full), if_pos full]
    dsimp only
    rw [if_pos autowrap]
    exact h.toInked.settle.wrapLine canvas fits
  · rw [if_neg (by rw [decide_eq_false full]; exact Bool.false_ne_true), if_neg full]
    exact .ok h

/-! ### Characters -/

/-- A character of its own width, printed. -/
theorem Drawn.print (h : Drawn base p pen t) (canvas : Canvas rows cols base)
    (fits : p.Fits rows cols) {c : Char} (control : ¬ (0x80 ≤ c.toNat ∧ c.toNat < 0xA0)) {w : Nat}
    (width : wcwidth c = w) (visible : w = 1 ∨ w = 2)
    (room : (p.wrap cols pen.blank).here.length + w ≤ cols) :
    Yields (t.print c) (Drawn base ((p.wrap cols pen.blank).put (pen.cell c w)) pen) := by
  have char : t.mapCharset c = c := (h.same (·.mapCharset c) rfl).trans (canvas.ascii c)
  have small := canvas.sound.cols_small
  unfold Terminal.print
  rw [if_neg control]
  dsimp only
  rw [char, width, if_neg (by omega)]
  have start : Drawn base p pen { t.touch with lastPrinted := some c } :=
    ⟨⟨h.frame, h.scr, h.row, h.style, h.link, h.links, h.next⟩, h.col, h.pending⟩
  unfold printWide
  refine (start.wrapPending canvas fits).bind ?_
  intro t₁ drawn
  have wrapped := fits.wrap pen.blank
  have within := drawn.col_lt canvas
  have col : t₁.cursor.col ≤ (p.wrap cols pen.blank).here.length := by
    rw [drawn.col]
    exact Nat.min_le_left _ _
  refine Yields.bind (p := (· = some t₁)) ?_ ?_
  · unfold fitWide
    rcases visible with rfl | rfl
    · exact .ok rfl
    · rw [if_pos rfl]
      refine (Yields.add (by omega)).bind ?_
      rintro next rfl
      have width : t₁.cols = cols := (drawn.toInked.sound canvas.sound wrapped within).cols_eq
      rw [if_neg (by omega)]
      exact .ok rfl
  · rintro _ rfl
    exact drawn.putChar canvas wrapped c visible room

/-- A mark for the last character. -/
theorem Drawn.combine (h : Drawn base p pen t) (canvas : Canvas rows cols base)
    (fits : p.Fits rows cols) {before : List Cell} {cell : Cell} {w : Nat} (width : cell.width = w)
    (visible : w = 1 ∨ w = 2) (here : p.here = before ++ cell.spread) (c : Char) :
    Yields (t.combine c) (Drawn base (p.write (before ++ (cell.marked c).spread)) pen) := by
  have rows_eq := canvas.sound.rows_eq
  have cols_eq := canvas.sound.cols_eq
  have room := fits.here
  have within := h.col_lt canvas
  have sound := h.toInked.sound canvas.sound fits within
  have row : t.cursor.row = p.index rows := rows_eq ▸ h.row
  have col := h.col
  have length : p.here.length = before.length + w := by
    rw [here, List.length_append, Page.length_spread width visible]
  have marked : (before ++ (cell.marked c).spread).length = p.here.length := by
    rw [here, List.length_append, List.length_append, Page.length_spread_marked]
  -- the cell before the cursor, which a pending wrap has left on it
  have at_ : (if t.cursor.pendingWrap then t.cursor.col else t.cursor.col - 1) =
      before.length + w - 1 := by
    rw [h.pending]
    split
    · rename_i full
      have full := of_decide_eq_true full
      omega
    · rename_i short
      have short : p.here.length ≠ base.cols := fun full => short (decide_eq_true full)
      omega
  have some_ : (!t.cursor.pendingWrap && t.cursor.col == 0) = false := by
    rw [h.pending]
    by_cases full : p.here.length = base.cols
    · rw [decide_eq_true full]
      rfl
    · rw [decide_eq_false full, Bool.not_false, Bool.true_and, beq_eq_false_iff_ne]
      omega
  have last : t.cellWidth t.cursor.row (before.length + w - 1) = some (if w = 2 then 0 else 1) := by
    rw [cellWidth_eq_widthAt, row, h.rowCells canvas.sound fits]
    exact Page.widthAt_last width visible here
  have head : (if t.cellWidth t.cursor.row (before.length + w - 1) = some 0 ∧ before.length + w - 1 > 0 then
      before.length + w - 1 - 1 else before.length + w - 1) = before.length := by
    rw [last]
    rcases visible with rfl | rfl
    · rw [if_neg (fun spacer => by cases spacer.1)]
      omega
    · rw [if_pos ⟨rfl, by omega⟩]
      omega
  unfold Terminal.combine
  rw [some_, if_neg Bool.false_ne_true]
  dsimp only
  rw [at_, head, row, modifyCell_eq sound fits.index_lt (by omega), h.rowCells canvas.sound fits]
  change Yields (pure (t.withCells (p.index rows)
    ((p.row cols).cells.modify before.length (Cell.marked c))).touch) _
  rw [Page.modify_row here]
  refine .pure ⟨(h.toInked.withCells canvas.sound fits _).touch, ?_, ?_⟩
  · exact (congrArg (·.col) cursor_withCells).trans (col.trans (by rw [← marked]))
  · exact (congrArg (·.pendingWrap) cursor_withCells).trans (h.pending.trans (by rw [← marked]))

end Terminal

end Posh.Term
