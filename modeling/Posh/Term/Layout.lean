import Posh.Term.Resize

/-!
Where the cells of a line come to lie at another width.

A cell is placed at a row and a column. Each character takes the next columns of its
row, or the first ones of the next row when it would straddle the edge; the spacer right
after a wide character goes with it, and a stray spacer takes no column. Rewrapping puts
the cells where they are placed, and fills up with blanks.
-/

namespace Posh.Term

open Posh.Lib

/-- A cell shown at a place. -/
structure Placed where
  row : Nat
  col : Nat
  cell : Cell
deriving DecidableEq, Repr

/-- The cells of a line without the spacer right after each wide character; `skip` says
that the first one is such a spacer. -/
def unpaired (width : Nat) : (skip : Bool) → List Cell → List Cell
  | _, [] => []
  | true, _ :: rest => unpaired width false rest
  | false, c :: rest =>
      c :: unpaired width
        (decide (c.width = 2 ∨ max c.width 1 > width) && rest.head?.any (·.width = 0)) rest

/-- The place of a cell, when the line before it ends at the place `p`. -/
def seat (width : Nat) (p : Nat × Nat) (c : Cell) : Nat × Nat :=
  if p.2 + max c.width 1 > width then (p.1 + 1, 0) else p

/-- Where the line ends with a cell placed at `p`. -/
def seatEnd (p : Nat × Nat) (c : Cell) : Nat × Nat :=
  (p.1, p.2 + if c.width = 0 then 0 else c.columns)

/-- The cells of a line, each at its place. -/
def seats (width : Nat) : Nat × Nat → List Cell → List Placed
  | _, [] => []
  | p, c :: rest =>
      let q := seat width p c
      ⟨q.1, q.2, c⟩ :: seats width (seatEnd q c) rest

/-- The row a line ends on. -/
def lastSeat (width : Nat) : Nat × Nat → List Cell → Nat
  | p, [] => p.1
  | p, c :: rest => lastSeat width (seatEnd (seat width p c) c) rest

/-- Lines below each other, the first from row `row` on. -/
def seatLines (width : Nat) : (row : Nat) → List (List Cell) → List Placed
  | _, [] => []
  | row, line :: lines =>
      seats width (row, 0) line ++ seatLines width (lastSeat width (row, 0) line + 1) lines

/-- A logical line as it is laid out: without trailing blanks and without the spacers of
its wide characters. -/
def laidLine (width : Nat) (cells : List Cell) : List Cell :=
  (unpaired width false (cells.rdropWhile Cell.isDumpSkippable)).map (fit width)

/-- Rows laid out at a width. -/
def seatRows (width : Nat) (rows : List Row) : List Placed :=
  seatLines width 0 ((Screen.logicalLines rows).map fun line =>
    laidLine width (Screen.lineCells line))

/-- The characters of rows laid out at a width. -/
def laidOut (width : Nat) (rows : List Row) : List Placed :=
  (seatRows width rows).filter (·.cell.width ≠ 0)

/-- The cells of rows, each where it stands. -/
def standing (rows : List Row) : List Placed :=
  rows.zipIdx.flatMap fun (r, i) => r.cells.zipIdx.map fun (c, k) => ⟨i, k, c⟩

section Seats

variable {width : Nat}

/-- A place at the edge of a row is the start of the next one. -/
theorem seat_edge {c : Cell} (fits : max c.width 1 ≤ width) (row : Nat) :
    seat width (row, width) c = seat width (row + 1, 0) c := by
  unfold seat
  rw [if_pos (by dsimp only; omega), if_neg (by dsimp only; omega)]

theorem seats_edge {cells : List Cell} (fits : ∀ c ∈ cells, max c.width 1 ≤ width) (row : Nat) :
    seats width (row, width) cells = seats width (row + 1, 0) cells := by
  cases cells with
  | nil => rfl
  | cons c rest =>
    unfold seats
    rw [seat_edge (fits c List.mem_cons_self)]

theorem lastSeat_edge {c : Cell} (fits : max c.width 1 ≤ width) (row : Nat) (rest : List Cell) :
    lastSeat width (row, width) (c :: rest) = lastSeat width (row + 1, 0) (c :: rest) := by
  unfold lastSeat
  rw [seat_edge fits]

theorem le_lastSeat (cells : List Cell) : ∀ p, p.1 ≤ lastSeat width p cells := by
  induction cells with
  | nil => exact fun p => Nat.le_refl _
  | cons c rest ih =>
    intro p
    have further : p.1 ≤ (seat width p c).1 := by
      unfold seat
      split
      · exact Nat.le_succ _
      · exact Nat.le_refl _
    exact Nat.le_trans further (ih (seatEnd (seat width p c) c))

theorem cells_seats (cells : List Cell) : ∀ p, (seats width p cells).map Placed.cell = cells := by
  induction cells with
  | nil => exact fun _ => rfl
  | cons c rest ih => exact fun p => congrArg (c :: ·) (ih _)

theorem cells_seatLines (lines : List (List Cell)) :
    ∀ row, (seatLines width row lines).map Placed.cell = lines.flatten := by
  induction lines with
  | nil => exact fun _ => rfl
  | cons line lines ih =>
    intro row
    unfold seatLines
    rw [List.map_append, cells_seats, ih]
    rfl

/-- Empty lines at the end show nothing. -/
theorem seatLines_concat_nil (lines : List (List Cell)) :
    ∀ row, seatLines width row (lines ++ [[]]) = seatLines width row lines := by
  induction lines with
  | nil => exact fun _ => rfl
  | cons line lines ih =>
    intro row
    rw [List.cons_append, seatLines, seatLines, ih]

theorem unpaired_sublist (cells : List Cell) :
    ∀ skip, List.Sublist (unpaired width skip cells) cells := by
  induction cells with
  | nil => intro skip; cases skip <;> exact .slnil
  | cons c rest ih =>
    intro skip
    cases skip with
    | true => exact .cons _ (ih false)
    | false => exact .cons_cons _ (ih _)

/-- Rows that show nothing add nothing to the layout. -/
theorem seatRows_append {blanks : List Row} (rows : List Row)
    (skippable : ∀ r ∈ blanks, r.isDumpSkippable = true) :
    seatRows width (rows ++ blanks) = seatRows width rows := by
  induction blanks using List.reverseRecOn with
  | nil => rw [List.append_nil]
  | append_singleton blanks row ih =>
    have blank := mem_of_skippable (skippable row (by simp))
    have added (line : List Row) : laidLine width (Screen.lineCells (line ++ [row])) =
        laidLine width (Screen.lineCells line) := by
      have cells : Screen.lineCells (line ++ [row]) = Screen.lineCells line ++ row.cells := by
        simp [Screen.lineCells]
      unfold laidLine
      rw [cells, rdropWhile_append _ blank]
    rw [← List.append_assoc, ← ih fun r mem => skippable r (List.mem_append_left [row] mem)]
    unfold seatRows
    rcases Screen.logicalLines_concat (rows ++ blanks) row with alone | ⟨init, line, before, after⟩
    · have empty : laidLine width (Screen.lineCells [row]) = [] := added []
      rw [alone, List.map_append, List.map_singleton, empty, seatLines_concat_nil]
    · rw [before, after, List.map_append, List.map_append, List.map_singleton, List.map_singleton,
        added]

theorem max_fit_le (pos : 0 < width) (c : Cell) : max (fit width c).width 1 ≤ width := by
  unfold fit
  split
  · exact pos
  · omega

theorem fits_laid (pos : 0 < width) (cells : List Cell) :
    ∀ c ∈ cells.map (fit width), max c.width 1 ≤ width := by
  intro c mem
  obtain ⟨c', -, rfl⟩ := List.mem_map.mp mem
  exact max_fit_le pos c'

/-- A property that blanks lack singles out no more characters when a line is laid out. -/
theorem filter_laidLine (P : Cell → Bool) (blank : P (Cell.blank {}) = false) (cells : List Cell) :
    List.Sublist ((laidLine width cells).filter P) (cells.filter P) := by
  have fitted (line : List Cell) : List.Sublist ((line.map (fit width)).filter P) (line.filter P) := by
    induction line with
    | nil => exact .slnil
    | cons c rest ih =>
      rw [List.map_cons, List.filter_cons, List.filter_cons]
      unfold fit
      by_cases unfit : max c.width 1 > width
      · rw [if_pos unfit, blank, if_neg Bool.false_ne_true]
        split
        · exact .cons _ ih
        · exact ih
      · rw [if_neg unfit]
        split
        · exact .cons_cons _ ih
        · exact ih
  have trimmed : List.Sublist (unpaired width false (cells.rdropWhile Cell.isDumpSkippable)) cells :=
    (unpaired_sublist _ false).trans (List.rdropWhile_prefix ..).sublist
  exact (fitted _).trans (trimmed.filter P)

theorem filter_laidOut (P : Cell → Bool) (blank : P (Cell.blank {}) = false) (rows : List Row) :
    List.Sublist (((laidOut width rows).map Placed.cell).filter P)
      ((Screen.lineCells rows).filter P) := by
  have whole : List.Sublist ((laidOut width rows).map Placed.cell)
      ((seatRows width rows).map Placed.cell) := List.filter_sublist.map _
  have lines (lines : List (List Row)) :
      List.Sublist ((lines.map fun line => laidLine width (Screen.lineCells line)).flatten.filter P)
        ((Screen.lineCells lines.flatten).filter P) := by
    induction lines with
    | nil => exact .slnil
    | cons line lines ih =>
      have cells : Screen.lineCells (line :: lines).flatten =
          Screen.lineCells line ++ Screen.lineCells lines.flatten := by
        simp [Screen.lineCells]
      rw [List.map_cons, List.flatten_cons, List.filter_append, cells, List.filter_append]
      exact (filter_laidLine P blank _).append ih
  have all := lines (Screen.logicalLines rows)
  rw [Screen.flatten_logicalLines] at all
  refine (whole.filter P).trans ?_
  unfold seatRows
  rw [cells_seatLines]
  exact all

/-- What is laid out fits. -/
theorem laidOut_fits (pos : 0 < width) {rows : List Row} {e : Placed} (mem : e ∈ laidOut width rows) :
    e.cell.width ≠ 0 ∧ max e.cell.width 1 ≤ width := by
  obtain ⟨inside, glyph⟩ := List.mem_filter.mp mem
  refine ⟨of_decide_eq_true glyph, ?_⟩
  have cell : e.cell ∈ (seatRows width rows).map Placed.cell := List.mem_map_of_mem inside
  unfold seatRows at cell
  rw [cells_seatLines] at cell
  obtain ⟨line, isLine, within⟩ := List.mem_flatten.mp cell
  obtain ⟨rows', -, rfl⟩ := List.mem_map.mp isLine
  exact fits_laid pos _ _ within

end Seats

theorem mem_standing {rows : List Row} {e : Placed} :
    e ∈ standing rows ↔ ∃ r, rows[e.row]? = some r ∧ r.cells[e.col]? = some e.cell := by
  unfold standing
  rw [List.mem_flatMap]
  constructor
  · rintro ⟨⟨r, i⟩, isRow, mem⟩
    obtain ⟨⟨c, k⟩, isCell, rfl⟩ := List.mem_map.mp mem
    exact ⟨r, List.mem_zipIdx_iff_getElem?.mp isRow, List.mem_zipIdx_iff_getElem?.mp isCell⟩
  · rintro ⟨r, isRow, isCell⟩
    exact ⟨(r, e.row), List.mem_zipIdx_iff_getElem?.mpr isRow,
      List.mem_map.mpr ⟨(e.cell, e.col), List.mem_zipIdx_iff_getElem?.mpr isCell, rfl⟩⟩

theorem cells_standing (rows : List Row) :
    (standing rows).map Placed.cell = Screen.lineCells rows := by
  have cells (r : Row) (i : Nat) :
      (r.cells.zipIdx.map fun (c, k) => (⟨i, k, c⟩ : Placed)).map Placed.cell = r.cells := by
    rw [List.map_map]
    exact List.zipIdx_map_fst 0 r.cells
  have rows_ (rows : List Row) (n : Nat) : ((rows.zipIdx n).flatMap fun (r, i) =>
      r.cells.zipIdx.map fun (c, k) => (⟨i, k, c⟩ : Placed)).map Placed.cell =
        Screen.lineCells rows := by
    induction rows generalizing n with
    | nil => rfl
    | cons r rest ih =>
      rw [List.zipIdx_cons, List.flatMap_cons, List.map_append, cells, ih]
      rfl
  exact rows_ rows 0

namespace Screen

namespace Rewrap

variable {st st' : Rewrap} {placed : List Placed} {width : Nat}

/-- The rows so far, the one being filled last. -/
def rows (st : Rewrap) : List (List Cell) :=
  st.newRows.map (·.cells) ++ [st.cur]

/-- Where the line so far ends. -/
def place (st : Rewrap) : Nat × Nat :=
  (st.newRows.length, st.cur.length)

end Rewrap

/-- The rows show what is placed in them, each character with its spacer, and blanks. -/
structure Displays (placed : List Placed) (rows : List (List Cell)) : Prop where
  there : ∀ e ∈ placed, e.cell.width ≠ 0 →
    ∃ cells, rows[e.row]? = some cells ∧ cells[e.col]? = some e.cell
  only : ∀ i cells x, rows[i]? = some cells → x ∈ cells → x = Cell.blank {} ∨
    ∃ e ∈ placed, e.row = i ∧ e.cell.width ≠ 0 ∧ (x = e.cell ∨ x = e.cell.spacer)

namespace Displays

variable {placed : List Placed} {rows : List (List Cell)} {cells : List Cell}

theorem nil : Displays [] [[]] := by
  constructor
  · exact fun e mem => absurd mem List.not_mem_nil
  · intro i cells x eq mem
    cases i with
    | zero =>
      cases eq
      exact absurd mem List.not_mem_nil
    | succ i => cases eq

/-- An empty row below. -/
theorem newRow (h : Displays placed rows) : Displays placed (rows ++ [[]]) := by
  constructor
  · intro e mem glyph
    obtain ⟨cells, row, cell⟩ := h.there e mem glyph
    have inside := (List.getElem?_eq_some_iff.mp row).1
    exact ⟨cells, (List.getElem?_append_left inside).trans row, cell⟩
  · intro i cells x row mem
    rw [List.getElem?_append] at row
    split at row
    · exact h.only i cells x row mem
    · have last := List.mem_of_getElem? row
      rw [List.mem_singleton.mp last] at mem
      exact absurd mem List.not_mem_nil

theorem getElem?_init {rows : List (List Cell)} {last : List Cell} {i : Nat} :
    (rows ++ [last])[i]? = if i < rows.length then rows[i]?
      else if i = rows.length then some last else none := by
  rw [List.getElem?_append]
  split
  · rfl
  · split
    · rename_i eq
      rw [eq, Nat.sub_self]
      rfl
    · exact List.getElem?_eq_none (by rw [List.length_singleton]; omega)

/-- More cells in the last row: blanks, or a character and its spacer. -/
theorem extend (h : Displays placed (rows ++ [cells])) {more : List Cell} {added : List Placed}
    (there : ∀ e ∈ added, e.cell.width ≠ 0 → e.row = rows.length ∧
      (cells ++ more)[e.col]? = some e.cell)
    (only : ∀ x ∈ more, x = Cell.blank {} ∨ ∃ e ∈ added, e.row = rows.length ∧ e.cell.width ≠ 0 ∧
      (x = e.cell ∨ x = e.cell.spacer)) :
    Displays (placed ++ added) (rows ++ [cells ++ more]) := by
  constructor
  · intro e mem glyph
    rcases List.mem_append.mp mem with old | new
    · obtain ⟨cells', row, cell⟩ := h.there e old glyph
      rw [getElem?_init] at row
      by_cases before : e.row < rows.length
      · rw [if_pos before] at row
        exact ⟨cells', by rw [getElem?_init, if_pos before, row], cell⟩
      · rw [if_neg before] at row
        by_cases last : e.row = rows.length
        · rw [if_pos last] at row
          cases row
          have inside := (List.getElem?_eq_some_iff.mp cell).1
          refine ⟨cells ++ more, by rw [getElem?_init, if_neg before, if_pos last], ?_⟩
          rw [List.getElem?_append_left inside, cell]
        · rw [if_neg last] at row
          cases row
    · obtain ⟨last, cell⟩ := there e new glyph
      exact ⟨cells ++ more, by rw [getElem?_init, if_neg (by omega), if_pos last], cell⟩
  · intro i cells' x row mem
    have older (h : x = Cell.blank {} ∨ ∃ e ∈ placed, e.row = i ∧ e.cell.width ≠ 0 ∧
        (x = e.cell ∨ x = e.cell.spacer)) : x = Cell.blank {} ∨
        ∃ e ∈ placed ++ added, e.row = i ∧ e.cell.width ≠ 0 ∧ (x = e.cell ∨ x = e.cell.spacer) := by
      rcases h with blank | ⟨e, inside, shown⟩
      · exact .inl blank
      · exact .inr ⟨e, List.mem_append_left _ inside, shown⟩
    rw [getElem?_init] at row
    by_cases before : i < rows.length
    · rw [if_pos before] at row
      exact older (h.only i cells' x (by rw [getElem?_init, if_pos before, row]) mem)
    · rw [if_neg before] at row
      by_cases last : i = rows.length
      · rw [if_pos last] at row
        cases row
        rcases List.mem_append.mp mem with old | new
        · exact older (h.only i cells x (by rw [getElem?_init, if_neg before, if_pos last]) old)
        · rcases only x new with blank | ⟨e, inside, row, shown⟩
          · exact .inl blank
          · exact .inr ⟨e, List.mem_append_right _ inside, row.trans last.symm, shown⟩
      · rw [if_neg last] at row
        cases row

/-- Blanks show nothing more. -/
theorem blanks (h : Displays placed (rows ++ [cells])) (n : Nat) :
    Displays placed (rows ++ [cells ++ List.replicate n (Cell.blank {})]) := by
  have more := @extend _ _ _ h (List.replicate n (Cell.blank {})) []
    (fun e mem => absurd mem List.not_mem_nil)
    (fun x mem => .inl (List.eq_of_mem_replicate mem))
  rwa [List.append_nil] at more

/-- A cell placed after the last one of the last row, with its spacer or without. -/
theorem push (h : Displays placed (rows ++ [cells])) {c : Cell} (glyph : c.width ≠ 0)
    {more : List Cell} (shown : more = [c] ∨ more = [c, c.spacer]) :
    Displays (placed ++ [⟨rows.length, cells.length, c⟩]) (rows ++ [cells ++ more]) := by
  apply h.extend
  · intro e mem _
    rw [List.mem_singleton.mp mem]
    refine ⟨rfl, ?_⟩
    dsimp only
    rw [List.getElem?_append_right (Nat.le_refl _), Nat.sub_self]
    rcases shown with rfl | rfl <;> rfl
  · intro x mem
    refine .inr ⟨_, List.mem_singleton_self _, rfl, glyph, ?_⟩
    rcases shown with rfl | rfl
    · exact .inl (List.mem_singleton.mp mem)
    · rcases List.mem_cons.mp mem with head | rest
      · exact .inl head
      · exact .inr (List.mem_singleton.mp rest)

/-- A stray spacer is placed and not shown. -/
theorem stray (h : Displays placed rows) {e : Placed} (spacer : e.cell.width = 0) :
    Displays (placed ++ [e]) rows := by
  constructor
  · intro e' mem glyph
    rcases List.mem_append.mp mem with old | new
    · exact h.there e' old glyph
    · rw [List.mem_singleton.mp new] at glyph
      exact absurd spacer glyph
  · intro i cells x row mem
    rcases h.only i cells x row mem with blank | ⟨e', inside, shown⟩
    · exact .inl blank
    · exact .inr ⟨e', List.mem_append_left _ inside, shown⟩

end Displays

end Screen

end Posh.Term
