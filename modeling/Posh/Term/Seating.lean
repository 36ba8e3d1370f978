import Posh.Term.Layout

/-!
Rewrapping puts the cells where they are laid out.

Each step of the loop over a line places one cell of it; the cursor's place is that of
the cell it is on. Line by line this makes the rows that the screen is cut from.
-/

namespace Posh.Term

open Posh.Lib

namespace Screen

namespace Rewrap

variable {width j off : Nat} {more : Bool} {cursorOff : Option Nat} {st st' st₁ : Rewrap}
  {placed : List Placed} {c : Cell} {line : List Cell}

/-! ### Steps -/

theorem rows_flush (st : Rewrap) : st.flush.rows = st.rows ++ [[]] := by
  unfold rows flush
  rw [List.map_append]
  rfl

theorem rows_pad (width : Nat) (st : Rewrap) : (st.pad width).rows =
    st.newRows.map (·.cells) ++ [st.cur ++ List.replicate (width - st.cur.length) (Cell.blank {})] :=
  rfl

theorem displays_makeRoom (h : Displays placed st.rows) (w : Nat) :
    Displays placed (makeRoom width w st).rows := by
  unfold makeRoom
  split
  · rw [rows_flush, rows_pad]
    exact (h.blanks _).newRow
  · exact h

theorem place_makeRoom (c : Cell) (st : Rewrap) :
    (makeRoom width (max c.width 1) st).place = seat width st.place c := by
  unfold makeRoom seat place
  by_cases straddles : st.cur.length + max c.width 1 > width
  · rw [if_pos straddles, if_pos straddles]
    unfold flush pad
    rw [List.length_append]
    rfl
  · rw [if_neg straddles, if_neg straddles]

theorem displays_flushFull (h : Displays placed st.rows) (more : Bool) :
    Displays placed (st.flushFull width more).rows := by
  unfold flushFull
  split
  · rw [rows_flush]
    exact h.newRow
  · exact h

/-- The next cell goes to the end of the row, or to the next row when it is full. -/
def Follows (width : Nat) (more : Bool) (p p' : Nat × Nat) : Prop :=
  p' = p ∨ more = true ∧ p.2 = width ∧ p' = (p.1 + 1, 0)

theorem follows_flushFull (width : Nat) (more : Bool) (st : Rewrap) :
    Follows width more st.place (st.flushFull width more).place := by
  unfold flushFull
  split
  · rename_i full
    refine .inr ⟨full.2, full.1, ?_⟩
    unfold flush place
    rw [List.length_append]
    rfl
  · exact .inl rfl

theorem Follows.seats {p p' : Nat × Nat} (h : Follows width more p p')
    (fits : ∀ c ∈ line, max c.width 1 ≤ width) : seats width p' line = seats width p line := by
  rcases h with rfl | ⟨-, edge, rfl⟩
  · rfl
  · obtain ⟨row, col⟩ := p
    cases edge
    exact (seats_edge fits row).symm

theorem Follows.lastSeat {p p' : Nat × Nat} (h : Follows width more p p')
    (fits : ∀ c ∈ line, max c.width 1 ≤ width) (follows : more = true → line ≠ []) :
    lastSeat width p' line = lastSeat width p line := by
  rcases h with rfl | ⟨rest, edge, rfl⟩
  · rfl
  · obtain ⟨row, col⟩ := p
    cases edge
    cases line with
    | nil => exact absurd rfl (follows rest)
    | cons c rest => exact (lastSeat_edge (fits c List.mem_cons_self) row rest).symm

/-- One cell of the line is placed: `st₁` comes after `st`. -/
structure Seats (width : Nat) (more : Bool) (c : Cell) (st st₁ : Rewrap) : Prop where
  shown : ∀ placed, Displays placed st.rows →
    Displays (placed ++ [⟨(seat width st.place c).1, (seat width st.place c).2, c⟩]) st₁.rows
  place : Follows width more (seatEnd (seat width st.place c) c) st₁.place

/-- A character put after the last one, when there is room. -/
theorem seats_push (glyph : c.width ≠ 0) {cells : List Cell}
    (shown : cells = [c] ∨ cells = [c, c.spacer]) (columns : cells.length = c.columns)
    (seated : st'.place = seat width st.place c)
    (kept : ∀ placed, Displays placed st.rows → Displays placed st'.rows) :
    Seats width more c st ({ st' with cur := st'.cur ++ cells }.flushFull width more) := by
  constructor
  · intro placed h
    apply displays_flushFull
    have pushed := (kept placed h).push glyph shown
    rw [List.length_map] at pushed
    rw [← seated]
    exact pushed
  · have after := follows_flushFull width more { st' with cur := st'.cur ++ cells }
    have place : ({ st' with cur := st'.cur ++ cells } : Rewrap).place =
        seatEnd (seat width st.place c) c := by
      rw [← seated]
      unfold seatEnd Rewrap.place
      rw [if_neg glyph, List.length_append, columns]
    rwa [place] at after

theorem seats_head (glyph : c.width ≠ 0) :
    Seats width more c st (rewrapHead width cursorOff j c more st) := by
  unfold rewrapHead
  dsimp only
  obtain ⟨rows, cur⟩ := followCursor_spec cursorOff j (max c.width 1)
    (makeRoom width (max c.width 1) st)
  have w_eq : max c.width 1 = c.width := by omega
  apply seats_push glyph
  · rw [w_eq]
    split
    · exact .inr rfl
    · exact .inl rfl
  · rw [w_eq]
    unfold Cell.columns
    split <;> rfl
  · rw [← place_makeRoom]
    unfold Rewrap.place
    rw [rows, cur]
  · intro placed shown
    have roomy : Displays placed (makeRoom width (max c.width 1) st).rows :=
      displays_makeRoom shown _
    unfold Rewrap.rows at roomy ⊢
    rwa [rows, cur]

/-- With room in the row a blank goes next. -/
theorem seats_unfit (h : st.Fits width true) :
    Seats width more (Cell.blank {}) st (rewrapUnfit width cursorOff j more st) := by
  have room := h.room rfl
  have here : seat width st.place (Cell.blank {}) = st.place := by
    refine if_neg ?_
    change ¬ st.cur.length + 1 > width
    omega
  unfold rewrapUnfit
  dsimp only
  split
  · exact seats_push Nat.one_ne_zero (.inl rfl) rfl here.symm fun _ shown => shown
  · exact seats_push Nat.one_ne_zero (.inl rfl) rfl here.symm fun _ shown => shown

/-! ### The cursor -/

theorem newCursor_flushFull (more : Bool) (st : Rewrap) :
    (st.flushFull width more).newCursor = st.newCursor := by
  unfold flushFull
  split <;> rfl

theorem newCursor_makeRoom (w : Nat) (st : Rewrap) :
    (makeRoom width w st).newCursor = st.newCursor := by
  unfold makeRoom
  split <;> rfl

/-- A head after the cursor's cell leaves the cursor alone. -/
theorem newCursor_head_after (passed : off < j) :
    (rewrapHead width (some off) j c more st).newCursor = st.newCursor := by
  unfold rewrapHead
  dsimp only
  rw [newCursor_flushFull]
  dsimp only
  unfold followCursor
  dsimp only
  rw [if_neg (by omega), newCursor_makeRoom]

/-- The head that the cursor is on takes it along. -/
theorem newCursor_head_here : (rewrapHead width (some j) j c more st).newCursor =
    some ((seat width st.place c).1, asU16 (seat width st.place c).2) := by
  unfold rewrapHead
  dsimp only
  rw [newCursor_flushFull]
  dsimp only
  unfold followCursor
  dsimp only
  rw [if_pos (.inl rfl), Nat.sub_self, Nat.add_zero, ← place_makeRoom]
  rfl

theorem newCursor_unfit_after (passed : off < j) :
    (rewrapUnfit width (some off) j more st).newCursor = st.newCursor := by
  unfold rewrapUnfit
  dsimp only
  rw [newCursor_flushFull]
  have elsewhere : ¬ (some off = some j ∨ some off = some (j + 1)) := by
    rintro (here | next)
    · cases here
      exact Nat.lt_irrefl _ passed
    · cases next
      omega
  rw [if_neg elsewhere]

/-- A spacer changes the cursor only when it is on it. -/
theorem spacer_spec (h : st.Fits width true) :
    Yields (rewrapSpacer width cursorOff j st) fun st₁ => st₁.Fits width true ∧
      st₁.newRows = st.newRows ∧ st₁.cur = st.cur ∧
      (cursorOff ≠ some j → st₁.newCursor = st.newCursor) := by
  have room := h.room rfl
  unfold rewrapSpacer
  split
  · rename_i here
    refine (Yields.sub (by omega)).bind ?_
    rintro last rfl
    exact .pure ⟨⟨h.newRows, h.cur, h.room⟩, rfl, rfl, fun other => absurd here.1 other⟩
  · exact .pure ⟨h, rfl, rfl, fun _ => rfl⟩

end Rewrap

/-! ### A line -/

theorem unpaired_ne_nil {width : Nat} {skip : Bool} {cells : List Cell}
    (some_ : (!(leftOver skip cells).isEmpty) = true) : unpaired width skip cells ≠ [] := by
  unfold leftOver at some_
  cases cells with
  | nil => cases skip <;> cases some_
  | cons c rest =>
    cases skip with
    | false => exact List.cons_ne_nil _ _
    | true =>
      cases rest with
      | nil => cases some_
      | cons d rest => exact List.cons_ne_nil _ _

/-- The cells from index `j` on are placed after those before, and the cursor where its
character is. -/
structure Seated (width : Nat) (cursorOff : Option Nat) (cells : List Cell) (j : Nat) (line : List Cell)
    (st st' : Rewrap) : Prop where
  shown : ∀ placed, Displays placed st.rows →
    Displays (placed ++ seats width st.place line) st'.rows
  row : st'.newRows.length = lastSeat width st.place line
  before : ∀ off, cursorOff = some off → off < j → st'.newCursor = st.newCursor
  found : ∀ off c, cursorOff = some off → j ≤ off → cells[off - j]? = some c → c.width ≠ 0 →
    max c.width 1 ≤ width →
    ∃ e ∈ seats width st.place line, e.cell = c ∧ st'.newCursor = some (e.row, asU16 e.col)

theorem Seated.cons {width j : Nat} {cursorOff : Option Nat} {more : Bool} {cell c : Cell}
    {rest line : List Cell} {st st₁ st' : Rewrap} (first : Rewrap.Seats width more c st st₁)
    (h : Seated width cursorOff rest (j + 1) line st₁ st')
    (fits : ∀ c ∈ line, max c.width 1 ≤ width) (follows : more = true → line ≠ [])
    (before : ∀ off, cursorOff = some off → off < j → st₁.newCursor = st.newCursor)
    (here : cursorOff = some j → cell.width ≠ 0 → max cell.width 1 ≤ width → c = cell ∧
      st₁.newCursor = some ((seat width st.place c).1, asU16 (seat width st.place c).2)) :
    Seated width cursorOff (cell :: rest) j (c :: line) st st' := by
  have after := first.place.seats fits
  have split : seats width st.place (c :: line) =
      ⟨(seat width st.place c).1, (seat width st.place c).2, c⟩ :: seats width st₁.place line := by
    rw [after]
    rfl
  constructor
  · intro placed shown
    rw [split, ← List.singleton_append, ← List.append_assoc]
    exact h.shown _ (first.shown placed shown)
  · rw [h.row, first.place.lastSeat fits follows]
    rfl
  · intro off isOff passed
    rw [h.before off isOff (Nat.lt_succ_of_lt passed), before off isOff passed]
  · intro off c' isOff from_ isCell glyph within
    rw [split]
    rcases Nat.eq_or_lt_of_le from_ with rfl | later
    · rw [Nat.sub_self] at isCell
      cases isCell
      obtain ⟨rfl, placed⟩ := here isOff glyph within
      refine ⟨_, List.mem_cons_self, rfl, ?_⟩
      rw [h.before j isOff (Nat.lt_succ_self j), placed]
    · obtain ⟨n, isN⟩ : ∃ n, off - j = n + 1 := ⟨off - j - 1, by omega⟩
      rw [isN, List.getElem?_cons_succ] at isCell
      have same : off - (j + 1) = n := by omega
      obtain ⟨e, mem, cell, place⟩ := h.found off c' isOff later (same ▸ isCell) glyph within
      exact ⟨e, List.mem_cons_of_mem _ mem, cell, place⟩

/-- A spacer that went with its head. -/
theorem Seated.skip {width j : Nat} {cursorOff : Option Nat} {cell : Cell} {rest line : List Cell}
    {st st' : Rewrap} (h : Seated width cursorOff rest (j + 1) line st st') (spacer : cell.width = 0) :
    Seated width cursorOff (cell :: rest) j line st st' := by
  refine ⟨h.shown, h.row, ?_, ?_⟩
  · exact fun off isOff passed => h.before off isOff (Nat.lt_succ_of_lt passed)
  · intro off c isOff from_ isCell glyph within
    rcases Nat.eq_or_lt_of_le from_ with rfl | later
    · rw [Nat.sub_self] at isCell
      cases isCell
      exact absurd spacer glyph
    · obtain ⟨n, isN⟩ : ∃ n, off - j = n + 1 := ⟨off - j - 1, by omega⟩
      rw [isN, List.getElem?_cons_succ] at isCell
      have same : off - (j + 1) = n := by omega
      exact h.found off c isOff later (same ▸ isCell) glyph within

theorem rewrapCells_seated {width : Nat} {cursorOff : Option Nat} (pos : 0 < width) :
    ∀ (cells : List Cell) (j : Nat) (skip : Bool) (st : Rewrap),
      (skip = true → cells.head?.any (·.width = 0) = true) →
      st.Fits width (!(leftOver skip cells).isEmpty) →
      Yields (rewrapCells width cursorOff cells j skip st) fun st' => st'.Fits width false ∧
        Seated width cursorOff cells j ((unpaired width skip cells).map (fit width)) st st'
  | [], j, skip, st, _, h => by
      have nothing : unpaired width skip [] = [] := by cases skip <;> rfl
      rw [nothing]
      refine .pure ⟨⟨h.newRows, h.cur, fun more => absurd more Bool.false_ne_true⟩, ?_, rfl, fun _ _ _ => rfl, ?_⟩
      · intro placed shown
        rw [List.map_nil, seats, List.append_nil]
        exact shown
      · intro off c _ _ isCell
        cases isCell
  | cell :: rest, j, true, st, spacer, h => by
      unfold rewrapCells
      have zero : cell.width = 0 := by simpa using spacer rfl
      refine (rewrapCells_seated pos rest (j + 1) false st (fun skip => absurd skip Bool.false_ne_true) h).mono ?_
      exact fun st' seated => ⟨seated.1, seated.2.skip zero⟩
  | cell :: rest, j, false, st, _, h => by
      have fits : st.Fits width true := h
      have room := fits.room rfl
      have laid := fits_laid pos
      unfold rewrapCells unpaired
      rw [List.map_cons]
      dsimp only
      split
      · rename_i zero
        have alone : (decide (cell.width = 2 ∨ max cell.width 1 > width) &&
            rest.head?.any (·.width = 0)) = false := by
          rw [decide_eq_false (by omega), Bool.false_and]
        have whole : fit width cell = cell := if_neg (by omega)
        rw [alone, whole]
        refine (Rewrap.spacer_spec fits).bind ?_
        rintro st₁ ⟨fits₁, rows, cur, elsewhere⟩
        refine (rewrapCells_seated pos rest (j + 1) false st₁
          (fun skip => absurd skip Bool.false_ne_true)
          ⟨fits₁.newRows, fits₁.cur, fun _ => fits₁.room rfl⟩).mono ?_
        rintro st' ⟨fits', seated⟩
        have here : seat width st.place cell = st.place := by
          refine if_neg ?_
          change ¬ st.cur.length + max cell.width 1 > width
          omega
        have place : st₁.place = st.place := by
          unfold Rewrap.place
          rw [rows, cur]
        refine ⟨fits', seated.cons (⟨?_, ?_⟩ : Rewrap.Seats width false _ st st₁) (laid _)
          (fun skip => absurd skip Bool.false_ne_true) ?_ ?_⟩
        · intro placed shown
          have kept : Displays placed st₁.rows := by
            unfold Rewrap.rows at shown ⊢
            rwa [rows, cur]
          exact kept.stray zero
        · left
          rw [here, place]
          unfold seatEnd
          rw [if_pos zero]
          rfl
        · intro off isOff passed
          apply elsewhere
          rw [isOff]
          intro same
          cases same
          exact Nat.lt_irrefl _ passed
        · exact fun _ glyph => absurd zero glyph
      · rename_i glyph
        split
        · rename_i unfit
          have both : (decide (cell.width = 2 ∨ max cell.width 1 > width) &&
              rest.head?.any (·.width = 0)) = rest.head?.any (·.width = 0) := by
            rw [decide_eq_true (.inr unfit), Bool.true_and]
          have blanked : fit width cell = Cell.blank {} := if_pos unfit
          rw [both, blanked]
          refine (rewrapCells_seated pos rest (j + 1) _ _ id (Rewrap.fits_unfit fits).1).mono ?_
          rintro st' ⟨fits', seated⟩
          refine ⟨fits', seated.cons (Rewrap.seats_unfit fits) (laid _) ?_ ?_ ?_⟩
          · intro some_ empty
            exact unpaired_ne_nil some_ (List.map_eq_nil_iff.mp empty)
          · rintro off rfl passed
            exact Rewrap.newCursor_unfit_after passed
          · intro _ _ within
            omega
        · rename_i within
          have pair : decide (cell.width = 2 ∨ max cell.width 1 > width) = decide (cell.width = 2) := by
            rw [decide_eq_decide]
            exact ⟨fun h => h.resolve_right within, .inl⟩
          have whole : fit width cell = cell := if_neg within
          rw [pair, whole]
          refine (rewrapCells_seated pos rest (j + 1) _ _ (fun skip => ((Bool.and_eq_true ..).mp skip).2)
            (Rewrap.fits_head fits (Nat.not_lt.mp within)).1).mono ?_
          rintro st' ⟨fits', seated⟩
          refine ⟨fits', seated.cons (Rewrap.seats_head glyph) (laid _) ?_ ?_ ?_⟩
          · intro some_ empty
            exact unpaired_ne_nil some_ (List.map_eq_nil_iff.mp empty)
          · rintro off rfl passed
            exact Rewrap.newCursor_head_after passed
          · rintro rfl _ _
            exact ⟨rfl, Rewrap.newCursor_head_here⟩

/-! ### Lines -/

/-- What a line shows is not trimmed away. -/
theorem getElem?_shown {cells : List Cell} {off : Nat} {c : Cell} (isCell : cells[off]? = some c)
    (hard : c.isDumpSkippable = false) :
    (cells.rdropWhile Cell.isDumpSkippable)[off]? = some c := by
  obtain ⟨tail, split, skippable⟩ := exists_tail Cell.isDumpSkippable cells
  rw [split] at isCell
  by_cases inside : off < (cells.rdropWhile Cell.isDumpSkippable).length
  · rwa [List.getElem?_append_left inside] at isCell
  · rw [List.getElem?_append_right (Nat.not_lt.mp inside)] at isCell
    have soft := skippable c (List.mem_of_getElem? isCell)
    rw [hard] at soft
    cases soft

/-- A line is trimmed to what it shows, when the cursor is not past that. -/
theorem trimLine_shown {cursorOff : Option Nat} {cells : List Cell}
    (shown : ∀ off, cursorOff = some off →
      ∃ c, cells[off]? = some c ∧ c.isDumpSkippable = false) :
    trimLine cursorOff cells = cells.rdropWhile Cell.isDumpSkippable := by
  have short : cursorOff.elim 0 (· + 1) ≤ shownLength cells := by
    rw [length_shown]
    cases cursorOff with
    | none => exact Nat.zero_le _
    | some off =>
      obtain ⟨c, isCell, hard⟩ := shown off rfl
      exact (List.getElem?_eq_some_iff.mp (getElem?_shown isCell hard)).1
  unfold trimLine
  rw [Nat.max_eq_left short, length_shown]
  exact (List.prefix_iff_eq_take.mp (List.rdropWhile_prefix ..)).symm

theorem getElem?_lineCells {line : List Row} {k col : Nat} {row : Row} {c : Cell}
    (isRow : (line)[k]? = some row) (isCell : row.cells[col]? = some c) :
    (lineCells line)[(lineCells (line.take k)).length + col]? = some c := by
  obtain ⟨inside, isRow⟩ := List.getElem?_eq_some_iff.mp isRow
  have split : line = line.take k ++ row :: line.drop (k + 1) := by
    rw [← isRow, ← List.drop_eq_getElem_cons inside, List.take_append_drop]
  have cells : lineCells line =
      lineCells (line.take k) ++ (row.cells ++ lineCells (line.drop (k + 1))) := by
    conv_lhs => rw [split]
    simp [lineCells]
  have within := (List.getElem?_eq_some_iff.mp isCell).1
  rw [cells, List.getElem?_append_right (Nat.le_add_right _ _), Nat.add_sub_cancel_left,
    List.getElem?_append_left within, isCell]

/-- Marking a row leaves its cells. -/
theorem cells_setMark {rows : List Row} {k : Nat} {first : Row} (mark : Option SemanticMark)
    (isFirst : rows[k]? = some first) :
    (rows.set k { first with mark }).map (·.cells) = rows.map (·.cells) := by
  apply List.ext_getElem?
  intro i
  rw [List.map_set, List.getElem?_set, List.getElem?_map]
  by_cases here : k = i
  · subst here
    rw [if_pos rfl, List.length_map, if_pos (List.getElem?_eq_some_iff.mp isFirst).1, isFirst]
    rfl
  · simp [here]

/-- The rows below which the next line begins. -/
def above (rows : List Row) : List (List Cell) :=
  rows.map (·.cells) ++ [[]]

/-- A logical line is laid out below the rows so far, and the cursor on it is where its
character is. -/
structure LineSeated (width : Nat) (cursorOff : Option Nat) (cells : List Cell)
    (newRows rows : List Row) (newCursor : Option (Nat × Nat)) : Prop where
  shown : ∀ placed, Displays placed (above newRows) →
    Displays (placed ++ seats width (newRows.length, 0) (laidLine width cells)) (above rows)
  row : rows.length = lastSeat width (newRows.length, 0) (laidLine width cells) + 1
  found : ∀ off c, cursorOff = some off → cells[off]? = some c → c.width ≠ 0 →
    max c.width 1 ≤ width → ∃ e ∈ seats width (newRows.length, 0) (laidLine width cells),
      e.cell = c ∧ newCursor = some (e.row, asU16 e.col)

theorem rewrapLine_seated {width : Nat} (cursorAbs cursorCol i : Nat) (line : List Row)
    {newRows : List Row} (newCursor : Option (Nat × Nat)) (pos : 0 < width)
    (uniform : Uniform width newRows)
    (shown : ∀ off, lineCursor cursorAbs cursorCol i line = some off →
      ∃ c, (lineCells line)[off]? = some c ∧ c.isDumpSkippable = false) :
    Yields (rewrapLine width cursorAbs cursorCol line (i, newRows, newCursor)) fun state =>
      LineSeated width (lineCursor cursorAbs cursorCol i line) (lineCells line) newRows state.2.1
        state.2.2 := by
  unfold rewrapLine
  dsimp only
  obtain ⟨off, isOff⟩ : ∃ off, off = lineCursor cursorAbs cursorCol i line := ⟨_, rfl⟩
  rw [← isOff] at shown ⊢
  rw [trimLine_shown shown]
  have fresh (more : Bool) : ({ newRows, newCursor } : Rewrap).Fits width more :=
    ⟨uniform, Nat.zero_le _, fun _ => pos⟩
  refine (rewrapCells_seated pos _ 0 false _ nofun (fresh _)).bind ?_
  rintro st ⟨fits, seated⟩
  have last_cells := fits.lastRow_cells
  have height : (st.newRows ++ [st.lastRow width]).length = st.newRows.length + 1 := by simp
  have le : newRows.length ≤ st.newRows.length := by
    rw [seated.row]
    exact le_lastSeat _ (newRows.length, 0)
  refine (Yields.getAt (by omega)).bind ?_
  rintro first ⟨isFirst, -⟩
  refine (Yields.setAt (by omega)).bind ?_
  rintro rows rfl
  have cells := cells_setMark (lineMark line) isFirst
  have result (place : Option (Nat × Nat))
      (kept : ∀ off', off = some off' → st.newCursor ≠ none → place = st.newCursor) :
      LineSeated width off (lineCells line) newRows
        ((st.newRows ++ [st.lastRow width]).set newRows.length { first with mark := lineMark line })
        place := by
    constructor
    · intro placed before
      have after := ((seated.shown placed before).blanks (width - st.cur.length)).newRow
      unfold above
      rw [cells, List.map_append, List.map_singleton, last_cells]
      exact after
    · rw [List.length_set, height, seated.row]
      rfl
    · intro off' c isOff isCell glyph within
      have inside : (List.rdropWhile Cell.isDumpSkippable (lineCells line))[off' - 0]? = some c := by
        obtain ⟨c', same, hard⟩ := shown off' isOff
        rw [isCell] at same
        cases same
        exact getElem?_shown isCell hard
      obtain ⟨e, mem, cell, place'⟩ := seated.found off' c isOff (Nat.zero_le _) inside glyph within
      refine ⟨e, mem, cell, ?_⟩
      rw [kept off' isOff (by rw [place']; exact nofun), place']
  split
  · rename_i vanished
    refine (Yields.sub (by rw [List.length_set]; omega)).bind ?_
    rintro last rfl
    refine (Yields.getAt (by rw [List.length_set]; omega)).bind ?_
    rintro lastRow _
    refine (Yields.sub pos).bind ?_
    rintro edge rfl
    refine .pure (result _ ?_)
    intro _ _ placed
    exact absurd (Option.isNone_iff_eq_none.mp vanished.2) placed
  · exact .pure (result _ fun _ _ _ => rfl)

/-- Logical lines are laid out below the rows so far, and the cursor where its character
is. -/
theorem rewrapLines_seated {width : Nat} (cursorAbs cursorCol : Nat) (pos : 0 < width) :
    ∀ (lines : List (List Row)) (i : Nat) (newRows : List Row) (newCursor : Option (Nat × Nat)),
      AreLines lines → Uniform width newRows →
      (∀ row, i ≤ cursorAbs → lines.flatten[cursorAbs - i]? = some row →
        ∃ c, row.cells[cursorCol]? = some c ∧ c.isDumpSkippable = false) →
      Yields (forEach lines (i, newRows, newCursor) (rewrapLine width cursorAbs cursorCol))
        fun state =>
          (∀ placed, Displays placed (above newRows) →
            Displays (placed ++ seatLines width newRows.length
              (lines.map fun line => laidLine width (lineCells line))) (above state.2.1)) ∧
          (∀ row c, i ≤ cursorAbs → lines.flatten[cursorAbs - i]? = some row →
            row.cells[cursorCol]? = some c → c.width ≠ 0 → max c.width 1 ≤ width →
            ∃ e ∈ seatLines width newRows.length
              (lines.map fun line => laidLine width (lineCells line)),
              e.cell = c ∧ state.2.2 = some (e.row, asU16 e.col))
  | [], i, newRows, newCursor, _, _, _ => by
      refine .pure ⟨fun placed shown => ?_, fun row c _ isRow => ?_⟩
      · rw [List.map_nil, seatLines, List.append_nil]
        exact shown
      · cases isRow
  | line :: lines, i, newRows, newCursor, areLines, uniform, shown => by
      obtain ⟨isLine, done, areLines'⟩ := areLines_tail areLines
      -- the cursor's row within this line
      have here {off : Nat} (isOff : lineCursor cursorAbs cursorCol i line = some off) :
          i ≤ cursorAbs ∧ ∃ row, (line)[cursorAbs - i]? = some row ∧
            off = (lineCells (line.take (cursorAbs - i))).length + cursorCol := by
        unfold lineCursor at isOff
        split at isOff
        · rename_i within
          cases isOff
          exact ⟨within.1, _, List.getElem?_eq_getElem (by omega), rfl⟩
        · cases isOff
      have first_row {row : Row} {k : Nat} (isRow : (line)[k]? = some row) :
          (line :: lines).flatten[k]? = some row := by
        rw [List.flatten_cons, List.getElem?_append_left (List.getElem?_eq_some_iff.mp isRow).1,
          isRow]
      have later_row {k : Nat} : (line :: lines).flatten[line.length + k]? = lines.flatten[k]? := by
        rw [List.flatten_cons, List.getElem?_append_right (Nat.le_add_right _ _),
          Nat.add_sub_cancel_left]
      refine ((rewrapLine_text cursorAbs cursorCol i line newCursor pos uniform).and
        (rewrapLine_seated cursorAbs cursorCol i line newCursor pos uniform ?_)).bind ?_
      · intro off isOff
        obtain ⟨from_, row, isRow, rfl⟩ := here isOff
        obtain ⟨c, isCell, hard⟩ := shown row from_ (first_row isRow)
        exact ⟨c, getElem?_lineCells isRow isCell, hard⟩
      rintro ⟨i', rows, cursor⟩ ⟨⟨added, rfl, rfl, uniform', -, absent, -⟩, seated⟩
      dsimp only at absent seated
      refine ((rewrapLines_text cursorAbs cursorCol pos lines _ _ cursor areLines' uniform').and
        (rewrapLines_seated cursorAbs cursorCol pos lines _ _ cursor areLines' uniform' ?_)).mono ?_
      · intro row from_ isRow
        apply shown row (by omega)
        rw [← isRow, ← later_row]
        congr 1
        omega
      rintro state ⟨⟨-, -, -, -, before, -⟩, shown_rest, found_rest⟩
      rw [List.map_cons, seatLines]
      have below : lastSeat width (newRows.length, 0) (laidLine width (lineCells line)) + 1 =
          (newRows ++ added).length := seated.row.symm
      rw [below]
      constructor
      · intro placed displays
        rw [← List.append_assoc]
        exact shown_rest _ (seated.shown placed displays)
      · intro row c from_ isRow isCell glyph within
        by_cases inside : cursorAbs < i + line.length
        · have isOff : lineCursor cursorAbs cursorCol i line =
              some ((lineCells (line.take (cursorAbs - i))).length + cursorCol) :=
            if_pos ⟨from_, inside⟩
          have isRow' : (line)[cursorAbs - i]? = some row := by
            rw [← isRow, List.flatten_cons, List.getElem?_append_left (by omega)]
          obtain ⟨e, mem, cell, place⟩ := seated.found _ c isOff (getElem?_lineCells isRow' isCell)
            glyph within
          refine ⟨e, List.mem_append_left _ mem, cell, ?_⟩
          rw [before inside, place]
        · obtain ⟨e, mem, cell, place⟩ := found_rest row c (by omega)
            (by rw [← later_row, ← isRow]; congr 1; omega) isCell glyph within
          exact ⟨e, List.mem_append_right _ mem, cell, place⟩

end Screen

end Posh.Term
