import Posh.Term.Flow

/-!
The last character of a row printed again.

A dump arms a pending wrap by printing the character before it again. The cells come out as they
were, but for the number of their link.
-/

namespace Posh.Term

open Posh.Lib

/-- Overwriting the last character of a row leaves the cells before it. -/
theorem cleaned_edge (style : Style) (w : Nat) {before last : List Cell}
    (head : widthAt (before ++ last) before.length ≠ some 0) :
    ∃ last', cleaned style before.length w (before ++ last) = before ++ last' ∧
      last'.length = last.length := by
  induction w with
  | zero =>
    unfold cleaned cleanedLeft
    rw [if_neg fun cut => head cut.1]
    exact ⟨last, rfl, rfl⟩
  | succ w ih =>
    obtain ⟨last', eq, length⟩ := ih
    unfold cleaned cleanedRight
    rw [eq]
    split
    · rw [List.set_append_right _ _ (by omega)]
      exact ⟨_, rfl, by rw [List.length_set, length]⟩
    · exact ⟨last', rfl, length⟩

/-- A row that is full. -/
theorem Page.row_full (here : List Cell) :
    (({ here, below := [] } : Page).row here.length).cells = here := by
  change here ++ List.replicate (here.length - here.length) _ = here
  rw [Nat.sub_self]
  exact List.append_nil _

theorem widthAt_edge {before : List Cell} {cell : Cell} {w : Nat} (width : cell.width = w)
    (visible : w = 1 ∨ w = 2) :
    widthAt (before ++ cell.spread) (before.length + w - 1) = some (if w = 2 then 0 else 1) := by
  let p : Page := { here := before ++ cell.spread, below := [] }
  have found : widthAt (p.row (before ++ cell.spread).length).cells (before.length + w - 1) =
      some (if w = 2 then 0 else 1) := Page.widthAt_last width visible rfl
  rwa [Page.row_full] at found

theorem modify_edge (before : List Cell) (cell : Cell) (c : Char) :
    (before ++ cell.spread).modify before.length (Cell.marked c) =
      before ++ (cell.marked c).spread := by
  let p : Page := { here := before ++ cell.spread, below := [] }
  have length : (before ++ (cell.marked c).spread).length = (before ++ cell.spread).length := by
    rw [List.length_append, List.length_append, Page.length_spread_marked]
  have changed : (p.row (before ++ cell.spread).length).cells.modify before.length (Cell.marked c) =
      ((p.write (before ++ (cell.marked c).spread)).row (before ++ cell.spread).length).cells :=
    Page.modify_row rfl c
  rw [Page.row_full, ← length] at changed
  exact changed.trans (Page.row_full _)

namespace Terminal

variable {K : Parser → GraphicsState → Prop} {files : Files} {t u v : Terminal} {rows cols : Nat}
  {before : List Cell} {cell : Cell} {w : Nat}

/-- The terminal with `cell` printed at the end of the cursor's row, after the cells `before`. -/
def printedLast (before : List Cell) (cell : Cell) (g : Nat) (last : Option Char) (t : Terminal) : Terminal :=
  { t with
    cursor.col := t.cols - 1, cursor.pendingWrap := true, generation := g
    lastPrinted := last }.withCells t.cursor.row (before ++ cell.spread)

/-- The cursor stands where the last character of its row begins. -/
structure AtLast (rows cols : Nat) (before : List Cell) (w : Nat) (t : Terminal) : Prop where
  sound : t.Sound Unknown rows cols
  cells : ∃ last, t.rowCells t.cursor.row = before ++ last ∧ last.length = w
  head : widthAt (t.rowCells t.cursor.row) before.length ≠ some 0
  visible : w = 1 ∨ w = 2
  col : t.cursor.col = before.length
  settled : t.cursor.pendingWrap = false
  autowrap : t.modes.autowrap = true
  overwrite : t.modes.insert = false

theorem AtLast.edge (h : AtLast rows cols before w t) : before.length + w = cols := by
  obtain ⟨last, eq, length⟩ := h.cells
  have width := length_rowCells h.sound h.sound.cursor_row
  rw [eq, List.length_append, length] at width
  exact width

/-- A row whose last character is another one. -/
theorem setCells_edge (sound : t.Sound Unknown rows cols) {row : Nat} (inside : row < rows)
    {last : List Cell} (there : t.rowCells row = before ++ last) (length : last.length = w)
    (width : cell.width = w) (visible : w = 1 ∨ w = 2) :
    (do
      let t ← t.modifyScr (·.setCell row before.length cell)
      if w = 2 then do
        let next ← add 16 before.length 1
        t.modifyScr (·.setCell row next cell.spacer)
      else pure t) = .ok (t.withCells row (before ++ cell.spread)) := by
  have long := length_rowCells sound inside
  have small := sound.cols_small
  rw [there, List.length_append, length] at long
  have set : (before ++ last).set before.length cell = before ++ last.set 0 cell := by
    rw [List.set_append_right _ _ (Nat.le_refl _), Nat.sub_self]
  have sound' : (t.withCells row (before ++ last.set 0 cell)).Sound Unknown rows cols :=
    sound.withCells (by rw [List.length_append, List.length_set, length, long])
  rw [setCell_eq sound inside (by omega), there, set]
  change (if w = 2 then _ else _) = _
  rcases visible with rfl | rfl
  · obtain ⟨c, rfl⟩ := List.length_eq_one_iff.mp length
    have one : cell.spread = [cell] := if_neg (by omega)
    rw [if_neg (by decide), one]
    rfl
  · obtain ⟨c, c', rfl⟩ := List.length_eq_two.mp length
    have two : cell.spread = [cell, cell.spacer] := if_pos width
    have set' : (before ++ [cell, c']).set (before.length + 1) cell.spacer =
        before ++ [cell, cell.spacer] := by
      rw [List.set_append_right _ _ (by omega), Nat.add_sub_cancel_left]
      rfl
    have second : (t.withCells row (before ++ [cell, c'])).modifyScr
        (·.setCell row (before.length + 1) cell.spacer) =
          .ok (t.withCells row (before ++ [cell, cell.spacer])) := by
      have within : before.length + 1 < cols := by omega
      refine (setCell_eq sound' inside within cell.spacer).trans ?_
      rw [rowCells_withCells sound inside, withCells_withCells]
      exact congrArg (fun cells => Except.ok (t.withCells row cells)) set'
    rw [if_pos rfl, add_eq_ok (by omega), two]
    exact second

theorem withCells_cursor (row : Nat) (cells : List Cell) (col : Nat) (pending : Bool) (t : Terminal) :
    { t.withCells row cells with
      cursor := { (t.withCells row cells).cursor with col := col, pendingWrap := pending } } =
      { t with cursor.col := col, cursor.pendingWrap := pending }.withCells row cells := by
  unfold withCells
  by_cases alt : t.altActive = true
  · simp only [if_pos alt]
  · simp only [if_neg alt]

theorem touch_withCells (row : Nat) (cells : List Cell) (t : Terminal) :
    (t.withCells row cells).touch = t.touch.withCells row cells := by
  unfold withCells touch
  by_cases alt : t.altActive = true
  · simp only [if_pos alt]
  · simp only [if_neg alt]

/-- The last character printed again, and the wrap pending. -/
theorem print_last (h : AtLast rows cols before w t) {c : Char} (control : ¬ IsC1 c)
    (same : t.mapCharset c = c) (width : wcwidth c = w) :
    t.print c = .ok (t.printedLast before
      { ch := c, style := t.cursor.style, width := w, hyperlink := t.cursor.hyperlink }
      (t.generation + 1) (some c)) := by
  have edge := h.edge
  have small := h.sound.cols_small
  have inside := h.sound.cursor_row
  have cols_eq := h.sound.cols_eq
  have visible := h.visible
  obtain ⟨last, there, length⟩ := h.cells
  let cell : Cell :=
    { ch := c, style := t.cursor.style, width := w, hyperlink := t.cursor.hyperlink }
  let noted : Terminal := { t with generation := t.generation + 1, lastPrinted := some c }
  have sound : noted.Sound Unknown rows cols := h.sound
  have wrap : noted.wrapPending = .ok noted := by
    unfold wrapPending
    rw [if_neg (by rw [show noted.cursor.pendingWrap = false from h.settled]; exact Bool.false_ne_true)]
  have fit : noted.fitWide w = .ok (some noted) := by
    have next : add 16 noted.cursor.col 1 = .ok (before.length + 1) := by
      rw [show noted.cursor.col = before.length from h.col]
      exact add_eq_ok (by omega)
    have room : ¬ (w = 2 ∧ before.length + 1 ≥ noted.cols) := by
      rw [show noted.cols = cols from cols_eq]
      omega
    unfold fitWide
    rcases visible with rfl | rfl
    · rfl
    · rw [if_pos rfl, next]
      change (if 2 = 2 ∧ before.length + 1 ≥ noted.cols then _ else _) = _
      rw [if_neg room]
      rfl
  have head : widthAt (before ++ last) before.length ≠ some 0 := there ▸ h.head
  obtain ⟨last', cleaned, length'⟩ := cleaned_edge noted.blankStyle w head
  have clean : noted.cleanWide t.cursor.row before.length w =
      .ok (noted.withCells t.cursor.row (before ++ last')) := by
    rw [cleanWide_eq sound inside (by omega) (by omega),
      show noted.rowCells t.cursor.row = before ++ last from there, cleaned]
  have sound' : (noted.withCells t.cursor.row (before ++ last')).Sound Unknown rows cols :=
    sound.withCells (by rw [List.length_append, length', length, edge])
  have written := setCells_edge sound' inside (rowCells_withCells sound inside)
    (length'.trans length) (show cell.width = w from rfl) visible
  rw [withCells_withCells] at written
  have put : Yields (noted.putChar c w)
      (· = t.printedLast before cell (t.generation + 1) (some c)) := by
    have past : (noted.withCells t.cursor.row (before ++ cell.spread)).cols ≤ cols := by
      rw [cols_withCells, show noted.cols = cols from cols_eq]
    have wraps : (noted.withCells t.cursor.row (before ++ cell.spread)).modes.autowrap = true := by
      rw [modes_withCells]
      exact h.autowrap
    have lastCol : (noted.withCells t.cursor.row (before ++ cell.spread)).lastCol = .ok (cols - 1) := by
      unfold lastCol
      rw [cols_withCells, show noted.cols = cols from cols_eq, sub_eq_ok (by omega)]
    have cells : Yields (do
        let t' ← (noted.withCells t.cursor.row (before ++ last')).modifyScr
          (·.setCell t.cursor.row before.length cell)
        if w = 2 then do
          let next ← add 16 before.length 1
          t'.modifyScr (·.setCell t.cursor.row next cell.spacer)
        else pure t') (· = noted.withCells t.cursor.row (before ++ cell.spread)) :=
      ⟨_, written, rfl⟩
    unfold putChar
    dsimp only
    rw [show noted.modes.insert = false from h.overwrite, if_neg Bool.false_ne_true,
      show noted.cursor.col = before.length from h.col]
    change Yields (noted.cleanWide t.cursor.row before.length w >>= _) _
    rw [clean]
    change Yields ((noted.withCells t.cursor.row (before ++ last')).modifyScr
      (·.setCell t.cursor.row before.length {
        ch := c
        style := (noted.withCells t.cursor.row (before ++ last')).cursor.style
        width := w
        hyperlink := (noted.withCells t.cursor.row (before ++ last')).cursor.hyperlink }) >>= _) _
    rw [cursor_withCells, ← bind_assoc]
    refine cells.bind ?_
    rintro _ rfl
    refine (Yields.add (by omega)).bind ?_
    rintro newCol rfl
    rw [edge, if_pos past, lastCol]
    refine .ok ?_
    rw [wraps, Bool.true_or]
    unfold printedLast
    rw [cols_eq]
    exact withCells_cursor ..
  obtain ⟨_, put, rfl⟩ := put
  have control : ¬ (0x80 ≤ c.toNat ∧ c.toNat < 0xA0) := control
  unfold print
  rw [if_neg control]
  dsimp only
  rw [same, width, if_neg (by omega)]
  unfold printWide
  change (noted.wrapPending >>= _) = _
  rw [wrap]
  change (noted.fitWide w >>= _) = _
  rw [fit]
  exact put

/-- A mark for the character printed last. -/
theorem combine_last (sound : t.Sound Unknown rows cols) (edge : before.length + w = cols)
    (width : cell.width = w) (visible : w = 1 ∨ w = 2) (g : Nat) (last : Option Char) (c : Char) :
    (t.printedLast before cell g last).combine c =
      .ok (t.printedLast before (cell.marked c) (g + 1) last) := by
  have inside := sound.cursor_row
  have cols_eq := sound.cols_eq
  let moved : Terminal := { t with
    cursor.col := t.cols - 1, cursor.pendingWrap := true, generation := g, lastPrinted := last }
  have soundMoved : moved.Sound Unknown rows cols :=
    sound.moved rfl inside (show t.cols - 1 < cols by omega)
  have long : (before ++ cell.spread).length = cols := by
    rw [List.length_append, Page.length_spread width visible, edge]
  have sound' : (t.printedLast before cell g last).Sound Unknown rows cols := soundMoved.withCells long
  have cells : (t.printedLast before cell g last).rowCells t.cursor.row = before ++ cell.spread :=
    rowCells_withCells soundMoved inside
  have cursor : (t.printedLast before cell g last).cursor = moved.cursor := cursor_withCells
  have lastWidth : (t.printedLast before cell g last).cellWidth t.cursor.row (t.cols - 1) =
      some (if w = 2 then 0 else 1) := by
    have at_ : t.cols - 1 = before.length + w - 1 := by omega
    rw [cellWidth_eq_widthAt, cells, at_]
    exact widthAt_edge width visible
  have head : (if (t.printedLast before cell g last).cellWidth t.cursor.row (t.cols - 1) = some 0 ∧
      t.cols - 1 > 0 then t.cols - 1 - 1 else t.cols - 1) = before.length := by
    rw [lastWidth]
    rcases visible with rfl | rfl
    · rw [if_neg (fun spacer => by cases spacer.1)]
      omega
    · rw [if_pos ⟨rfl, by omega⟩]
      omega
  unfold combine
  rw [cursor]
  change (if (!true && _) = true then _ else _) = _
  rw [Bool.not_true, Bool.false_and, if_neg Bool.false_ne_true]
  dsimp only
  rw [if_pos rfl, head]
  change (do
    let t' ← (t.printedLast before cell g last).modifyScr (·.modifyCell t.cursor.row before.length
      (Cell.marked c))
    return t'.touch) = _
  rw [modifyCell_eq sound' inside (by omega), cells, modify_edge]
  change Except.ok ((moved.withCells t.cursor.row _).withCells t.cursor.row _).touch = _
  rw [withCells_withCells, touch_withCells]
  rfl

/-! ### What is written -/

theorem mapCharset_printedLast (g : Nat) (last : Option Char) (c : Char) :
    (t.printedLast before cell g last).mapCharset c = t.mapCharset c := by
  unfold mapCharset printedLast
  rw [cursor_withCells]

/-- The marks of a character printed last. -/
theorem draws_marks (sound : t.Sound Unknown rows cols) (edge : before.length + w = cols)
    (visible : w = 1 ∨ w = 2) {marks : List Char} (prints : ∀ c ∈ marks, Prints c)
    (zero : ∀ c ∈ marks, wcwidth c = 0) (same : ∀ c ∈ marks, t.mapCharset c = c) (width : cell.width = w)
    (g : Nat) (last : Option Char) :
    ∃ g', Draws files marks (t.printedLast before cell g last)
      (t.printedLast before { cell with extra := cell.extra ++ marks } g' last) := by
  induction marks generalizing cell g with
  | nil =>
    refine ⟨g, ?_⟩
    rw [List.append_nil]
    exact .literal rfl ⟨rfl, rfl⟩ rfl
  | cons c marks ih =>
    have first : Draws files [c] (t.printedLast before cell g last)
        (t.printedLast before (cell.marked c) (g + 1) last) := by
      have control : ¬ (0x80 ≤ c.toNat ∧ c.toNat < 0xA0) := (prints c List.mem_cons_self).control
      refine .one (prints c List.mem_cons_self).reads ?_
      change (t.printedLast before cell g last).print c = _
      unfold print
      rw [if_neg control]
      dsimp only
      rw [mapCharset_printedLast, same c List.mem_cons_self, zero c List.mem_cons_self, if_pos rfl]
      exact combine_last sound edge width visible g last c
    have all : (cell.marked c).extra ++ marks = cell.extra ++ c :: marks := by
      unfold Cell.marked
      rw [List.append_assoc]
      rfl
    have width' : (cell.marked c).width = w := width
    obtain ⟨g', later⟩ := ih (fun x mem => prints x (List.mem_cons_of_mem _ mem))
      (fun x mem => zero x (List.mem_cons_of_mem _ mem)) (fun x mem => same x (List.mem_cons_of_mem _ mem))
      width' (g + 1)
    rw [all] at later
    exact ⟨g', first.append later⟩

/-- The cell of `c` as the pen of `t` writes it. -/
def ownCell (c : Cell) (t : Terminal) : Cell :=
  { c with style := t.cursor.style, hyperlink := t.cursor.hyperlink }

variable (files) in
/-- A character with its marks printed at the end of the row. -/
theorem draws_last {c : Cell} (h : AtLast rows cols before c.width t) (drawable : Drawable u c)
    (same : ∀ x ∈ c.ch :: c.extra, t.mapCharset x = x) :
    ∃ g, Draws files (shownChar c :: c.extra) t (t.printedLast before (t.ownCell c) g (some c.ch)) := by
  let plain : Cell :=
    { ch := c.ch, style := t.cursor.style, width := c.width, hyperlink := t.cursor.hyperlink }
  have width : plain.width = c.width := rfl
  have char : Draws files [c.ch] t (t.printedLast before plain (t.generation + 1) (some c.ch)) :=
    .one drawable.char.reads (print_last h drawable.char.control (same _ List.mem_cons_self)
      drawable.printed.width.symm)
  obtain ⟨g, marks⟩ : ∃ g, Draws files c.extra
      (t.printedLast before plain (t.generation + 1) (some c.ch))
      (t.printedLast before { plain with extra := plain.extra ++ c.extra } g (some c.ch)) :=
    draws_marks h.sound h.edge drawable.visible drawable.marks
      (fun x mem => (drawable.printed.marks x mem).1) (fun x mem => same x (List.mem_cons_of_mem _ mem))
      width _ _
  rw [drawable.shownChar]
  exact ⟨g, char.append marks⟩

/-! ### The pen around it -/

theorem Style.unprotected_iff (a b : Style) :
    { a with isProtected := b.isProtected } = b ↔ a = { b with isProtected := a.isProtected } := by
  cases a
  cases b
  simp

variable (files) in
/-- To the style of a cell. -/
theorem repens_there (style : Style) (pen : Pen) :
    Repens files
      ((if decide (style.isProtected ≠ pen.style.isProtected) then emitProtect style.isProtected else []) ++
        if decide ({ style with isProtected := pen.style.isProtected } ≠ pen.style) then emitSgr style else [])
      pen { pen with style } := by
  have styled : Repens files _ pen { pen with style } := repens_style style pen
  have same : decide ({ style with isProtected := pen.style.isProtected } ≠ pen.style) =
      decide (style ≠ { pen.style with isProtected := style.isProtected }) :=
    decide_eq_decide.mpr (not_congr (Style.unprotected_iff style pen.style))
  rw [same]
  simpa only [decide_eq_true_eq] using styled

variable (files) in
/-- And back. -/
theorem repens_back (style : Style) (pen : Pen) :
    Repens files
      ((if decide ({ style with isProtected := pen.style.isProtected } ≠ pen.style)
          then emitSgr pen.style else []) ++
        if decide (style.isProtected ≠ pen.style.isProtected) then emitProtect pen.style.isProtected else [])
      { pen with style } pen := by
  have styled : Repens files (if decide ({ style with isProtected := pen.style.isProtected } ≠ pen.style)
      then emitSgr pen.style else []) { pen with style }
        { pen with style := { pen.style with isProtected := style.isProtected } } := by
    split
    · exact repens_emitSgr pen.style _
    · rename_i same
      have same := Decidable.not_not.mp (of_decide_eq_false (Bool.eq_false_iff.mpr same))
      rw [← (Style.unprotected_iff style pen.style).mp same]
      exact .nil _
  refine styled.append ?_
  split
  · exact repens_emitProtect pen.style.isProtected _
  · rename_i same
    have same := Decidable.not_not.mp (of_decide_eq_false (Bool.eq_false_iff.mpr same))
    rw [same]
    exact .nil _

theorem ownPen_printedLast (g : Nat) (last : Option Char) (t : Terminal) :
    (t.printedLast before cell g last).ownPen = t.ownPen := by
  unfold printedLast withCells
  split <;> rfl

/-- The pen changed before the character is printed, and back after it. -/
theorem withPen_printedLast (pen : Pen) (g g' g'' : Nat) (last : Option Char) (t : Terminal) :
    ((t.withPen pen g).printedLast before cell g' last).withPen t.ownPen g'' =
      t.printedLast before cell g'' last := by
  unfold printedLast withCells
  by_cases alt : t.altActive = true
  · rw [if_pos (show (t.withPen pen g).altActive = true from alt), if_pos alt]
    rfl
  · rw [if_neg (show ¬ (t.withPen pen g).altActive = true from alt), if_neg alt]
    rfl

variable (files) in
/-- The character printed again in its own style, with the pen as before. -/
theorem draws_reprint {c : Cell} (h : AtLast rows cols before c.width v) (drawable : Drawable u c)
    (same : ∀ x ∈ c.ch :: c.extra, v.mapCharset x = x) :
    ∃ g, Draws files (reprint c v.cursor.style) v
      (v.printedLast before { c with hyperlink := v.cursor.hyperlink } g (some c.ch)) := by
  obtain ⟨inked, eq⟩ : ∃ inked : Pen, inked = { v.ownPen with style := c.style } := ⟨_, rfl⟩
  obtain ⟨g, there⟩ := repens_there files c.style v.ownPen v rfl
  rw [← eq] at there
  have h' : AtLast rows cols before c.width (v.withPen inked g) :=
    ⟨h.sound, h.cells, h.head, h.visible, h.col, h.settled, h.autowrap, h.overwrite⟩
  have cell : (v.withPen inked g).ownCell c = { c with hyperlink := v.cursor.hyperlink } := by
    rw [eq]
    rfl
  obtain ⟨g', char⟩ := draws_last files h' drawable same
  rw [cell] at char
  have own : ((v.withPen inked g).printedLast before { c with hyperlink := v.cursor.hyperlink } g'
      (some c.ch)).ownPen = inked := ownPen_printedLast ..
  obtain ⟨g'', back⟩ := repens_back files c.style v.ownPen _ (own.trans eq)
  rw [withPen_printedLast] at back
  unfold reprint
  rw [if_pos drawable.visible]
  refine ⟨g'', ?_⟩
  have all := (there.append char).append back
  simp only [List.append_assoc, List.cons_append] at all ⊢
  exact all

/-! ### The copy of the row -/

section

variable {pen : Pen} {done copies : List Row}

/-- A row of the copy written again with the looks it had. -/
theorem Copied.modify (h : Copied u pen done copies) {row : Nat} {r : Row} (found : done[row]? = some r)
    {cells : List Cell} (looks : cells.map (Cell.look pen.links) = r.cells.map (Cell.look u.hyperlinks))
    (known : ∀ c ∈ cells, c.hyperlink ≤ pen.next) :
    Copied u pen done (copies.modify row fun copy => { copy with cells }) where
  looks := by
    rw [← h.looks]
    apply List.ext_getElem?
    intro i
    rw [List.getElem?_map, List.getElem?_map, List.getElem?_modify]
    by_cases here : row = i
    · subst here
      have same := congrArg (·[row]?) h.looks
      simp only [List.getElem?_map, found, Option.map_some] at same
      obtain ⟨copy, at_, look⟩ := Option.map_eq_some_iff.mp same
      rw [at_]
      have wrapped : copy.wrapped = r.wrapped := congrArg Prod.snd look
      simp only [if_true, Option.map_some, Option.map_eq_map, look]
      change some (cells.map _, copy.wrapped) = some (r.cells.map _, r.wrapped)
      rw [looks, wrapped]
    · simp only [if_neg here, id_map']
  known := by
    intro x mem c inside
    obtain ⟨i, found⟩ := List.mem_iff_getElem?.mp mem
    rw [List.getElem?_modify] at found
    obtain ⟨copy, at_, rfl⟩ := Option.map_eq_some_iff.mp found
    split at inside
    · exact known c inside
    · exact h.known copy (List.mem_iff_getElem?.mpr ⟨i, at_⟩) c inside

/-- The copy of a row of the grid. -/
theorem Copied.row (h : Copied u pen u.scr.grid v.scr.grid) {row : Nat} (inside : row < u.scr.grid.length) :
    ∃ r ∈ u.scr.grid[row]?, ∃ r' ∈ v.scr.grid[row]?, u.rowCells row = r.cells ∧ v.rowCells row = r'.cells ∧
      r'.look pen.links = r.look u.hyperlinks := by
  have at_ : u.scr.grid[row]? = some (u.scr.grid.get ⟨row, inside⟩) := List.getElem?_eq_getElem inside
  have copy := congrArg (·[row]?) h.looks
  simp only [List.getElem?_map, at_, Option.map_some] at copy
  obtain ⟨r', at', look⟩ := Option.map_eq_some_iff.mp copy
  exact ⟨_, at_, r', at', Screen.cellsAt_of_getElem? at_, Screen.cellsAt_of_getElem? at', look⟩

theorem Copied.withCells (h : Copied u pen u.scr.grid v.scr.grid) {row : Nat}
    (inside : row < u.scr.grid.length) {cells : List Cell}
    (looks : cells.map (Cell.look pen.links) = (u.rowCells row).map (Cell.look u.hyperlinks))
    (known : ∀ c ∈ cells, c.hyperlink ≤ pen.next) :
    Copied u pen u.scr.grid (v.scr.withCells row cells).grid := by
  obtain ⟨r, at_, -, -, same, -⟩ := h.row inside
  exact h.modify at_ (same ▸ looks) known

theorem Copied.known_rowCells (h : Copied u pen done v.scr.grid) (row : Nat) :
    ∀ c ∈ v.rowCells row, c.hyperlink ≤ pen.next := by
  intro c mem
  cases found : v.scr.grid[row]? with
  | none =>
    have none : v.rowCells row = [] := by
      unfold rowCells Screen.cellsAt
      rw [found]
      rfl
    rw [none] at mem
    cases mem
  | some r =>
    have cells : v.rowCells row = r.cells := Screen.cellsAt_of_getElem? found
    exact h.known r (List.mem_of_getElem? found) c (cells ▸ mem)

/-- The copy of a row ends in a copy of its last character. -/
theorem Copied.split_last (h : Copied u pen u.scr.grid v.scr.grid) {row : Nat}
    (inside : row < u.scr.grid.length) {before : List Cell} {c : Cell} (visible : c.width = 1 ∨ c.width = 2)
    (split : u.rowCells row = before ++ c.spread) :
    ∃ before' last, v.rowCells row = before' ++ last ∧ before'.length = before.length ∧
      last.length = c.width ∧ widthAt (before' ++ last) before'.length ≠ some 0 ∧
      before'.map (Cell.look pen.links) = before.map (Cell.look u.hyperlinks) := by
  obtain ⟨r, -, r', -, same, same', look⟩ := h.row inside
  have looks : r'.cells.map (Cell.look pen.links) = r.cells.map (Cell.look u.hyperlinks) :=
    congrArg Prod.fst look
  rw [← same, split, List.map_append] at looks
  obtain ⟨before', last, split', looksBefore, looksLast⟩ := List.map_eq_append_iff.mp looks
  refine ⟨before', last, same'.trans split', ?_, ?_, ?_, looksBefore⟩
  · have length := congrArg List.length looksBefore
    rwa [List.length_map, List.length_map] at length
  · have length := congrArg List.length looksLast
    rwa [List.length_map, List.length_map, Page.length_spread rfl visible] at length
  · have first := congrArg (fun looks : List Look => looks[0]?.map (·.width)) looksLast
    have one : c.spread[0]?.map ((·.width) ∘ Cell.look u.hyperlinks) = some c.width := by
      unfold Cell.spread
      split <;> rfl
    simp only [List.getElem?_map, Option.map_map] at first
    have width : widthAt (before' ++ last) before'.length = some c.width := by
      unfold widthAt
      rw [List.getElem?_append_right (Nat.le_refl _), Nat.sub_self]
      exact first.trans one
    rw [width]
    intro zero
    have zero := Option.some.inj zero
    omega

end

/-- The last character of a tidy row. -/
theorem exists_last {cells : List Cell} (printed : Screen.Cells Cell.Printed cells) (tidy : Tidy cells)
    (pos : 0 < cells.length) :
    ∃ before, ∃ c ∈ glyphs cells, (c.width = 1 ∨ c.width = 2) ∧ cells = before ++ c.spread := by
  have some_ : glyphs cells ≠ [] := by
    intro none
    have empty : cells = [] := by
      rw [tidy, none]
      rfl
    rw [empty] at pos
    exact Nat.lt_irrefl 0 pos
  have mem : (glyphs cells).getLast some_ ∈ glyphs cells := List.getLast_mem some_
  refine ⟨spread (glyphs cells).dropLast, _, mem, glyphs_visible printed mem, ?_⟩
  have split : glyphs cells = (glyphs cells).dropLast ++ [(glyphs cells).getLast some_] :=
    (List.dropLast_append_getLast some_).symm
  have single : spread [(glyphs cells).getLast some_] = Cell.spread _ := List.append_nil _
  rw [← single, ← spread_append, ← split]
  exact tidy

/-! ### The wrap armed again -/

/-- The column that a dump brings the cursor to: the head's where the cursor is on a spacer. -/
def dumpedCol (t : Terminal) : Nat :=
  if t.widePending then t.cursor.col - 1 else t.cursor.col

/-- What a dump prints again there. -/
def again (t : Terminal) : List Char :=
  if t.cursor.pendingWrap then
    ((t.scr.cell t.cursor.row t.dumpedCol).map (reprint · t.cursor.style)).getD []
  else []

/-- Where a wrap is pending, the character before it comes out as it was when it is printed again:
at the edge, neither inserted nor mapped to another, with the link that is open. -/
structure Rearmed (t : Terminal) : Prop where
  edge : t.cursor.col + 1 = t.cols
  autowrap : t.modes.autowrap = true
  overwrite : t.modes.insert = false
  same : ∀ c ∈ t.scr.cell t.cursor.row t.dumpedCol, (∀ x ∈ c.ch :: c.extra, t.mapCharset x = x) ∧
    (t.hyperlinks.lookup c.hyperlink).map (·.uri) = (t.hyperlinks.lookup t.cursor.hyperlink).map (·.uri)

/-- The character before a pending wrap, and where it begins. -/
theorem dumpedCol_last (sound : u.Sound K rows cols) (pending : u.cursor.pendingWrap = true)
    (rearmed : u.Rearmed) {before : List Cell} {c : Cell} (visible : c.width = 1 ∨ c.width = 2)
    (split : u.rowCells u.cursor.row = before ++ c.spread) :
    u.dumpedCol = before.length ∧ u.scr.cell u.cursor.row before.length = some c := by
  have long := length_rowCells sound sound.cursor_row
  have edge := rearmed.edge
  rw [sound.cols_eq] at edge
  rw [split, List.length_append, Page.length_spread rfl visible] at long
  have head : u.scr.cell u.cursor.row before.length = some c := by
    rw [← getElem?_rowCells, split, List.getElem?_append_right (Nat.le_refl _), Nat.sub_self]
    unfold Cell.spread
    split <;> rfl
  refine ⟨?_, head⟩
  have last : u.cellWidth u.cursor.row u.cursor.col = some (if c.width = 2 then 0 else 1) := by
    have at_ : u.cursor.col = before.length + c.width - 1 := by omega
    rw [cellWidth_eq_widthAt, split, at_]
    exact widthAt_edge rfl visible
  unfold dumpedCol widePending
  rw [pending, last]
  rcases visible with narrow | wide
  · have no : (true && decide (u.cursor.col > 0) &&
        (some (if c.width = 2 then 0 else 1) == some 0 : Bool)) = false := by
      rw [narrow, Bool.and_eq_false_iff]
      exact .inr rfl
    rw [no, if_neg Bool.false_ne_true]
    omega
  · rw [wide, if_pos rfl, beq_self_eq_true, Bool.and_true, Bool.true_and]
    rw [if_pos (decide_eq_true (by omega))]
    omega

/-- `v'` is the copy `v` of `u` with the cursor, and the wrap pending, as `u` has them. -/
structure Again (u v v' : Terminal) : Prop where
  frame : framed v v' = v
  pen : v'.ownPen = v.ownPen
  row : v'.cursor.row = u.cursor.row
  col : v'.cursor.col = u.cursor.col
  pending : v'.cursor.pendingWrap = u.cursor.pendingWrap
  size : v'.rows = v.rows ∧ v'.cols = v.cols
  scrollback : v'.scr.scrollback = v.scr.scrollback
  copied : Copied u v'.ownPen u.scr.grid v'.scr.grid

theorem framed_self (t : Terminal) : framed t t = t := by
  unfold framed
  split <;> rfl

theorem framed_printedLast (g : Nat) (last : Option Char) (t : Terminal) :
    framed t (t.printedLast before cell g last) = t := by
  unfold printedLast
  rw [framed_withCells]
  unfold framed
  split <;> rfl

theorem cursor_printedLast (g : Nat) (last : Option Char) (t : Terminal) :
    (t.printedLast before cell g last).cursor =
      { t.cursor with col := t.cols - 1, pendingWrap := true } :=
  cursor_withCells

theorem size_printedLast (g : Nat) (last : Option Char) (t : Terminal) :
    (t.printedLast before cell g last).rows = t.rows ∧ (t.printedLast before cell g last).cols = t.cols := by
  unfold printedLast withCells
  split
  · exact ⟨rfl, rfl⟩
  · exact ⟨rfl, rfl⟩

theorem again_settled (settled : u.cursor.pendingWrap = false) :
    u.again = [] ∧ u.dumpedCol = u.cursor.col := by
  unfold again dumpedCol widePending
  rw [settled, if_neg Bool.false_ne_true, Bool.false_and, Bool.false_and, if_neg Bool.false_ne_true]
  exact ⟨rfl, rfl⟩

variable (files) in
theorem draws_again (uSound : u.Sound K rows cols)
    (printed : Screen.Cells Cell.Printed (u.rowCells u.cursor.row)) (tidy : Tidy (u.rowCells u.cursor.row))
    (drawable : ∀ c ∈ glyphs (u.rowCells u.cursor.row), Drawable u c)
    (rearmed : u.cursor.pendingWrap = true → u.Rearmed) (sound : v.Sound Unknown rows cols)
    (row : v.cursor.row = u.cursor.row) (col : v.cursor.col = u.dumpedCol)
    (settled : v.cursor.pendingWrap = false) (autowrap : v.modes.autowrap = u.modes.autowrap)
    (insert : v.modes.insert = u.modes.insert) (charset : ∀ c, v.mapCharset c = u.mapCharset c)
    (follows : v.ownPen.Follows u.hyperlinks ⟨u.cursor.style, u.cursor.hyperlink⟩)
    (copied : Copied u v.ownPen u.scr.grid v.scr.grid) :
    ∃ v', Draws files u.again v v' ∧ Again u v v' := by
  cases pending : u.cursor.pendingWrap with
  | false =>
    obtain ⟨nothing, there⟩ := again_settled pending
    rw [nothing]
    refine ⟨v, .literal rfl ⟨rfl, rfl⟩ rfl, ?_⟩
    exact ⟨framed_self v, rfl, row, col.trans there, settled.trans pending.symm, ⟨rfl, rfl⟩, rfl, copied⟩
  | true =>
    have rearmed := rearmed pending
    have inside := uSound.cursor_row
    have width := length_rowCells uSound inside
    have pos := uSound.cols_pos
    obtain ⟨before, c, mem, visible, split⟩ := exists_last printed tidy (by omega)
    obtain ⟨there, found⟩ := dumpedCol_last uSound pending rearmed visible split
    have same := rearmed.same c (by rw [there]; exact found)
    have tall : u.cursor.row < u.scr.grid.length := by
      rw [uSound.scr.height]
      exact inside
    obtain ⟨before', last, cells', length, lengthLast, head, looksBefore⟩ :=
      copied.split_last tall visible split
    have atLast : AtLast rows cols before' c.width v := {
      sound
      cells := ⟨last, row ▸ cells', lengthLast⟩
      head := by rwa [row, cells']
      visible
      col := by rw [col, there, length]
      settled
      autowrap := autowrap.trans rearmed.autowrap
      overwrite := insert.trans rearmed.overwrite }
    have chars (x : Char) (inside : x ∈ c.ch :: c.extra) : v.mapCharset x = x :=
      (charset x).trans (same.1 x inside)
    obtain ⟨g, draws⟩ := draws_reprint files atLast (drawable c mem) chars
    have text : u.again = reprint c v.cursor.style := by
      have style : v.cursor.style = u.cursor.style := follows.style
      unfold again
      rw [pending, if_pos rfl, there, found, style]
      rfl
    -- the character printed again has the link of the pen
    have written : Pen.Follows u.hyperlinks ⟨c.style, c.hyperlink⟩ { v.ownPen with style := c.style } :=
      { follows with style := rfl, link := follows.link.trans same.2.symm }
    have resembles := resembles_cell written
    have modified : (v.printedLast before' { c with hyperlink := v.cursor.hyperlink } g (some c.ch)).scr =
        v.scr.withCells v.cursor.row (before' ++ Cell.spread { c with hyperlink := v.cursor.hyperlink }) :=
      scr_withCells
    have edge := rearmed.edge
    refine ⟨_, text ▸ draws, framed_printedLast _ _ v, ownPen_printedLast _ _ v, ?_, ?_, ?_,
      size_printedLast _ _ v, ?_, ?_⟩
    · rw [cursor_printedLast]
      exact row
    · rw [cursor_printedLast]
      change v.cols - 1 = u.cursor.col
      rw [sound.cols_eq, ← uSound.cols_eq]
      omega
    · rw [cursor_printedLast]
      exact pending.symm
    · rw [modified]
      rfl
    · rw [ownPen_printedLast, modified, row]
      refine copied.withCells tall ?_ ?_
      · rw [List.map_append, split, List.map_append]
        exact congrArg₂ _ looksBefore resembles.looks
      · intro x mem
        rcases List.mem_append.mp mem with earlier | new
        · exact copied.known_rowCells u.cursor.row x (cells' ▸ List.mem_append_left _ earlier)
        · exact resembles.known x new

end Terminal

end Posh.Term
