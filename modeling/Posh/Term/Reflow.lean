import Posh.Term.Grid
import Posh.Term.Lines

/-!
What rewrapping does to the text: a character that would straddle the edge of the
grid leaves blanks behind, a wide character becomes a blank in a grid one column
wide, and nothing else.
-/

namespace Posh.Term

open Posh.Lib

/-- A character that fits no row of the grid becomes a blank. -/
def fit (width : Nat) (c : Cell) : Cell :=
  if max c.width 1 > width then Cell.blank {} else c

/-- The columns a character takes. -/
def Cell.columns (c : Cell) : Nat :=
  if c.width = 2 then 2 else 1

/-- Characters laid out from column `col` on: one that would straddle the edge leaves
blanks behind and goes to the next row. -/
def layOut (width : Nat) : (col : Nat) → List Cell → List Cell
  | _, [] => []
  | col, c :: rest =>
      if col + c.width > width then
        List.replicate (width - col) (Cell.blank {}) ++ c :: layOut width c.columns rest
      else c :: layOut width (col + c.columns) rest

/-- A line's text in a grid of `width` columns. -/
def fittedLine (width : Nat) (line : List Cell) : List Cell :=
  trimBlanks (layOut width 0 (line.map (fit width)))

/-- The text in a grid of `width` columns. -/
def fittedText (width : Nat) (text : List (List Cell)) : List (List Cell) :=
  (text.map (fittedLine width)).rdropWhile List.isEmpty

theorem isBlank_fit {width : Nat} {c : Cell} (blank : c.isBlank = true) :
    (fit width c).isBlank = true := by
  unfold fit
  split
  · rfl
  · exact blank

theorem width_fit {width : Nat} {c : Cell} (pos : 0 < width) (glyph : c.width ≠ 0) :
    0 < (fit width c).width ∧ (fit width c).width ≤ width := by
  unfold fit
  split
  · exact ⟨Nat.one_pos, pos⟩
  · omega

section LayOut

variable {width : Nat}

/-- Being at the edge of a row is being at the start of the next one. -/
theorem layOut_edge {cells : List Cell}
    (fits : ∀ c ∈ cells, 0 < c.width ∧ c.width ≤ width) :
    layOut width width cells = layOut width 0 cells := by
  cases cells with
  | nil => rfl
  | cons c rest =>
    obtain ⟨pos, le⟩ := fits c List.mem_cons_self
    unfold layOut
    rw [if_pos (by omega), if_neg (by omega), Nat.sub_self, Nat.zero_add]
    rfl

theorem layOut_append (cells more : List Cell) :
    ∀ col, ∃ col', layOut width col (cells ++ more) =
      layOut width col cells ++ layOut width col' more := by
  induction cells with
  | nil => exact fun col => ⟨col, rfl⟩
  | cons c rest ih =>
    intro col
    rw [List.cons_append, layOut, layOut]
    split
    · obtain ⟨col', eq⟩ := ih c.columns
      exact ⟨col', by rw [eq, List.append_assoc, List.cons_append]⟩
    · obtain ⟨col', eq⟩ := ih (col + c.columns)
      exact ⟨col', by rw [eq, List.cons_append]⟩

theorem layOut_blank {cells : List Cell} (blank : ∀ c ∈ cells, c.isBlank = true) :
    ∀ col, ∀ c ∈ layOut width col cells, c.isBlank = true := by
  induction cells with
  | nil =>
    intro _ c mem
    cases mem
  | cons first rest ih =>
    have here := blank first List.mem_cons_self
    have later := ih fun c mem => blank c (List.mem_cons_of_mem first mem)
    intro col c mem
    unfold layOut at mem
    split at mem
    · rcases List.mem_append.mp mem with pad | mem
      · rw [List.eq_of_mem_replicate pad]
        rfl
      · rcases List.mem_cons.mp mem with rfl | mem
        · exact here
        · exact later _ c mem
    · rcases List.mem_cons.mp mem with rfl | mem
      · exact here
      · exact later _ c mem

/-- Where no character is wide, nothing is inserted. -/
theorem layOut_narrow (pos : 0 < width) {cells : List Cell} (narrow : ∀ c ∈ cells, c.width = 1) :
    ∀ col ≤ width, layOut width col cells = cells := by
  induction cells with
  | nil => exact fun _ _ => rfl
  | cons c rest ih =>
    intro col le
    have single := narrow c List.mem_cons_self
    have columns : c.columns = 1 := by simp [Cell.columns, single]
    have rest_same := ih fun c' mem => narrow c' (List.mem_cons_of_mem c mem)
    unfold layOut
    rw [single, columns]
    split
    · have edge : width - col = 0 := by omega
      rw [edge, rest_same 1 pos]
      rfl
    · rw [rest_same (col + 1) (by omega)]

end LayOut

/-- Trailing blanks do not matter for the text of a line. -/
theorem fittedLine_append (width : Nat) {blanks : List Cell} (line : List Cell)
    (blank : ∀ c ∈ blanks, c.isBlank = true) :
    fittedLine width (line ++ blanks) = fittedLine width line := by
  unfold fittedLine
  rw [List.map_append]
  obtain ⟨col, eq⟩ := layOut_append (line.map (fit width)) (blanks.map (fit width)) 0
  rw [eq, trimBlanks_append]
  apply layOut_blank
  intro c mem
  obtain ⟨c', mem', rfl⟩ := List.mem_map.mp mem
  exact isBlank_fit (blank c' mem')

theorem fittedLine_trimBlanks (width : Nat) (line : List Cell) :
    fittedLine width (trimBlanks line) = fittedLine width line := by
  obtain ⟨blanks, split, blank⟩ := exists_tail Cell.isBlank line
  rw [congrArg (fittedLine width) split, fittedLine_append width _ blank]
  rfl

/-- A line of narrow characters is the same at every width. -/
theorem fittedLine_narrow {width : Nat} (pos : 0 < width) {line : List Cell}
    (narrow : ∀ c ∈ line, c.width = 1) : fittedLine width line = trimBlanks line := by
  have same : line.map (fit width) = line := by
    refine (List.map_congr_left ?_).trans (List.map_id line)
    intro c mem
    refine if_neg ?_
    rw [narrow c mem]
    omega
  unfold fittedLine
  rw [same, layOut_narrow pos narrow 0 (Nat.zero_le _)]

/-! ### One line -/

namespace Screen

namespace Rewrap

variable {cursorOff : Option Nat} {st st' st'' : Rewrap} {g g' : List Cell}

/-- `st'` is `st` with more soft-wrapped rows and the glyphs `g` added; a line without
the cursor leaves its place alone, and the cursor's line finds it from its own first
row on. -/
structure Grown (cursorOff : Option Nat) (g : List Cell) (st st' : Rewrap) : Prop where
  rows : ∃ more, st'.newRows = st.newRows ++ more ∧ (∀ r ∈ more, r.wrapped = true) ∧
    glyphs (lineCells more ++ st'.cur) = glyphs st.cur ++ g
  absent : cursorOff = none → st'.newCursor = st.newCursor
  place : ∀ base, base ≤ st.newRows.length →
    (∀ p, st.newCursor = some p → base ≤ p.1 ∧ p.1 ≤ st.newRows.length) →
    ∀ p, st'.newCursor = some p → base ≤ p.1 ∧ p.1 ≤ st'.newRows.length

theorem Grown.trans (h : Grown cursorOff g st st') (h' : Grown cursorOff g' st' st'') :
    Grown cursorOff (g ++ g') st st'' := by
  obtain ⟨more, rows, soft, text⟩ := h.rows
  obtain ⟨more', rows', soft', text'⟩ := h'.rows
  refine ⟨⟨more ++ more', ?_, ?_, ?_⟩, ?_, ?_⟩
  · rw [rows', rows, List.append_assoc]
  · intro r mem
    exact (List.mem_append.mp mem).elim (soft r) (soft' r)
  · have joined : lineCells (more ++ more') = lineCells more ++ lineCells more' :=
      List.flatMap_append
    rw [glyphs_append] at text
    rw [joined, List.append_assoc, glyphs_append, text', ← List.append_assoc, text,
      List.append_assoc]
  · exact fun none => (h'.absent none).trans (h.absent none)
  · intro base le place
    refine h'.place base ?_ (h.place base le place)
    rw [rows, List.length_append]
    omega

/-- A step that changes neither the rows nor the cursor. -/
theorem grown_cur (rows : st'.newRows = st.newRows) (cursor : st'.newCursor = st.newCursor)
    (text : glyphs st'.cur = glyphs st.cur ++ g) : Grown cursorOff g st st' := by
  refine ⟨⟨[], by rw [rows, List.append_nil], ?_, text⟩, fun _ => cursor, ?_⟩
  · intro r mem
    cases mem
  · intro base _ place
    rw [cursor, rows]
    exact place

/-- A step that only places the cursor, on the row being filled. -/
theorem grown_place {off col : Nat} : Grown (some off) [] st (st.placeCursor col) := by
  refine ⟨⟨[], by simp [placeCursor], ?_, by simp [placeCursor, lineCells]⟩, nofun, ?_⟩
  · intro r mem
    cases mem
  · intro base le _ p eq
    cases eq
    exact ⟨le, Nat.le_refl _⟩

theorem grown_flush : Grown cursorOff [] st st.flush := by
  refine ⟨⟨[{ cells := st.cur, wrapped := true }], rfl, ?_, ?_⟩, fun _ => rfl, ?_⟩
  · intro r mem
    rw [List.mem_singleton.mp mem]
  · simp [flush, lineCells]
  · intro base le place p eq
    obtain ⟨low, high⟩ := place p eq
    refine ⟨low, Nat.le_trans high ?_⟩
    simp [flush]

theorem grown_flushFull {width : Nat} {more : Bool} :
    Grown cursorOff [] st (st.flushFull width more) := by
  unfold flushFull
  split
  · exact grown_flush
  · exact grown_cur rfl rfl (List.append_nil _).symm

/-- Cells added to the current row, which is finished when it is full. -/
theorem grown_push (width : Nat) (more : Bool) (cells : List Cell) :
    Grown cursorOff (glyphs cells) st
      ({ st with cur := st.cur ++ cells }.flushFull width more) := by
  rw [← List.append_nil (glyphs cells)]
  have pushed : Grown cursorOff (glyphs cells) st { st with cur := st.cur ++ cells } :=
    grown_cur rfl rfl (glyphs_append _ _)
  exact pushed.trans grown_flushFull

theorem grown_spacer {width j : Nat} :
    Guarded False (rewrapSpacer width cursorOff j st) fun st' =>
      Grown cursorOff [] st st' ∧ st'.cur = st.cur := by
  unfold rewrapSpacer
  split
  · rename_i here
    rw [here.1]
    refine (Guarded.trivial _).bind ?_
    intro last _
    exact .pure ⟨grown_place, rfl⟩
  · exact .pure ⟨grown_cur rfl rfl (List.append_nil _).symm, rfl⟩

theorem grown_unfit {width j : Nat} {more : Bool} :
    Grown cursorOff [Cell.blank {}] st (rewrapUnfit width cursorOff j more st) := by
  have placed : Grown cursorOff [] st (if cursorOff = some j ∨ cursorOff = some (j + 1) then
      st.placeCursor st.cur.length else st) := by
    split
    · rename_i here
      rcases here with here | here
      · rw [here]
        exact grown_place
      · rw [here]
        exact grown_place
    · exact grown_cur rfl rfl (List.append_nil _).symm
  exact placed.trans (grown_push width more [Cell.blank {}])

/-- The room left in the current row is filled with blanks when the character does
not fit there. -/
theorem grown_makeRoom (width w : Nat) :
    Grown cursorOff
      (if st.cur.length + w > width then
        List.replicate (width - st.cur.length) (Cell.blank {}) else [])
      st (makeRoom width w st) := by
  unfold makeRoom
  split
  · have padded : Grown cursorOff (List.replicate (width - st.cur.length) (Cell.blank {})) st
        (st.pad width) := by
      refine grown_cur rfl rfl ?_
      simp only [pad, glyphs_append, glyphs_blanks]
    rw [← List.append_nil (List.replicate _ _)]
    exact padded.trans grown_flush
  · exact grown_cur rfl rfl (List.append_nil _).symm

theorem length_makeRoom (width w : Nat) :
    (makeRoom width w st).cur.length =
      if st.cur.length + w > width then 0 else st.cur.length := by
  unfold makeRoom
  split
  · rfl
  · rfl

theorem grown_follow (j w : Nat) : Grown cursorOff [] st (followCursor cursorOff j w st) := by
  have still : Grown cursorOff [] st st := grown_cur rfl rfl (List.append_nil _).symm
  unfold followCursor
  cases cursorOff with
  | none => exact still
  | some off =>
    dsimp only
    split
    · exact grown_place
    · exact still

theorem grown_head {width j : Nat} {head : Cell} {more : Bool} (glyph : head.width ≠ 0) :
    Grown cursorOff
      ((if st.cur.length + head.width > width then
        List.replicate (width - st.cur.length) (Cell.blank {}) else []) ++ [head])
      st (rewrapHead width cursorOff j head more st) := by
  have w_eq : max head.width 1 = head.width := by omega
  have shown (w : Nat) :
      glyphs (if w = 2 then [head, head.spacer] else [head]) = [head] := by
    split
    · simp [glyphs, Cell.spacer, glyph]
    · simp [glyphs, glyph]
  unfold rewrapHead
  dsimp only
  rw [w_eq]
  refine (grown_makeRoom width head.width).trans ?_
  have followed : Grown cursorOff [] (makeRoom width head.width st)
      (followCursor cursorOff j head.width (makeRoom width head.width st)) :=
    grown_follow j head.width
  have pushed := followed.trans (grown_push width more
    (if head.width = 2 then [head, head.spacer] else [head]))
  rwa [shown, List.nil_append] at pushed

/-- Finishing a full row is going on at the start of the next one. -/
theorem layOut_flushFull {width : Nat} {more : Bool} {cells : List Cell}
    (fits : ∀ c ∈ cells, 0 < c.width ∧ c.width ≤ width) :
    layOut width (st.flushFull width more).cur.length cells =
      layOut width st.cur.length cells := by
  unfold flushFull
  split
  · rename_i full
    rw [full.1, layOut_edge fits]
    rfl
  · rfl

theorem layOut_unfit {width j : Nat} {more : Bool} {cells : List Cell}
    (fits : ∀ c ∈ cells, 0 < c.width ∧ c.width ≤ width) :
    layOut width (rewrapUnfit width cursorOff j more st).cur.length cells =
      layOut width (st.cur.length + 1) cells := by
  unfold rewrapUnfit
  dsimp only
  rw [layOut_flushFull fits]
  split
  · rw [List.length_append, List.length_singleton]
    rfl
  · rw [List.length_append, List.length_singleton]

theorem layOut_head {width j : Nat} {head : Cell} {more : Bool} {cells : List Cell}
    (glyph : head.width ≠ 0) (fits : ∀ c ∈ cells, 0 < c.width ∧ c.width ≤ width) :
    layOut width (rewrapHead width cursorOff j head more st).cur.length cells =
      layOut width
        ((if st.cur.length + head.width > width then 0 else st.cur.length) + head.columns) cells := by
  have w_eq : max head.width 1 = head.width := by omega
  have columns : (if head.width = 2 then [head, head.spacer] else [head]).length =
      head.columns := by
    unfold Cell.columns
    split
    · rfl
    · rfl
  unfold rewrapHead
  dsimp only
  rw [layOut_flushFull fits, w_eq, List.length_append, (followCursor_spec ..).2, length_makeRoom,
    columns]

end Rewrap

theorem glyphs_cons_spacer {c : Cell} (cells : List Cell) (spacer : c.width = 0) :
    glyphs (c :: cells) = glyphs cells := by
  simp [glyphs, spacer]

theorem glyphs_cons_glyph {c : Cell} (cells : List Cell) (glyph : c.width ≠ 0) :
    glyphs (c :: cells) = c :: glyphs cells := by
  simp [glyphs, glyph]

/-- A spacer taken with its head shows nothing. -/
theorem glyphs_leftOver {skip : Bool} {cells : List Cell}
    (spacer : skip = true → cells.head?.any (·.width = 0) = true) :
    glyphs (leftOver skip cells) = glyphs cells := by
  unfold leftOver
  cases skip with
  | false => rfl
  | true =>
    cases cells with
    | nil => rfl
    | cons c cells =>
      have width := spacer rfl
      simp only [List.head?_cons, Option.any_some, decide_eq_true_eq] at width
      exact (glyphs_cons_spacer cells width).symm

/-- What is left of a line fits the grid once it is made to. -/
theorem fits_glyphs {width : Nat} (pos : 0 < width) (cells : List Cell) :
    ∀ c ∈ (glyphs cells).map (fit width), 0 < c.width ∧ c.width ≤ width := by
  intro c mem
  obtain ⟨c', mem', rfl⟩ := List.mem_map.mp mem
  have glyph := (List.mem_filter.mp mem').2
  exact width_fit pos (of_decide_eq_true glyph)

/-- Rewrapping a line lays its glyphs out at the new width. -/
theorem rewrapCells_text {width : Nat} {cursorOff : Option Nat} (pos : 0 < width) :
    ∀ (cells : List Cell) (j : Nat) (skip : Bool) (st : Rewrap),
      st.Fits width (!(leftOver skip cells).isEmpty) →
      Yields (rewrapCells width cursorOff cells j skip st) fun st' =>
        st'.Fits width false ∧ Rewrap.Grown cursorOff
          (layOut width st.cur.length ((glyphs (leftOver skip cells)).map (fit width))) st st'
  | [], _, skip, st, h => by
      have nothing : leftOver skip [] = [] := by cases skip <;> rfl
      rw [nothing]
      exact .pure ⟨⟨h.newRows, h.cur, nofun⟩,
        Rewrap.grown_cur rfl rfl (List.append_nil _).symm⟩
  | _ :: rest, j, true, st, h => by
      unfold rewrapCells
      exact rewrapCells_text pos rest (j + 1) false st h
  | cell :: rest, j, false, st, h => by
      have fits : st.Fits width true := h
      unfold rewrapCells
      change Yields _ fun st' => st'.Fits width false ∧ Rewrap.Grown cursorOff
        (layOut width st.cur.length ((glyphs (cell :: rest)).map (fit width))) st st'
      dsimp only
      split
      · rename_i spacer
        rw [glyphs_cons_spacer rest spacer]
        refine (Guarded.and_yields (Rewrap.fits_spacer fits) Rewrap.grown_spacer).bind ?_
        rintro st₁ ⟨⟨fits₁, _⟩, grown₁, same⟩
        refine (rewrapCells_text pos rest (j + 1) false st₁
          ⟨fits₁.newRows, fits₁.cur, fun _ => fits₁.room rfl⟩).mono ?_
        rintro st₂ ⟨fits₂, grown₂⟩
        rw [same] at grown₂
        exact ⟨fits₂, grown₁.trans grown₂⟩
      · rename_i glyph
        rw [glyphs_cons_glyph rest glyph, List.map_cons]
        have placed := fits_glyphs pos rest
        split
        · rename_i unfit
          have blanked : fit width cell = Cell.blank {} := if_pos unfit
          have room := fits.room rfl
          refine (rewrapCells_text pos rest (j + 1) _ _ (Rewrap.fits_unfit fits).1).mono ?_
          rintro st₂ ⟨fits₂, grown₂⟩
          rw [glyphs_leftOver id, Rewrap.layOut_unfit placed] at grown₂
          refine ⟨fits₂, ?_⟩
          rw [blanked]
          unfold layOut
          rw [if_neg (show ¬ st.cur.length + (Cell.blank {}).width > width by
            exact Nat.not_lt.mpr room)]
          exact Rewrap.grown_unfit.trans grown₂
        · rename_i fits_cell
          have same : fit width cell = cell := if_neg fits_cell
          refine (rewrapCells_text pos rest (j + 1) _ _
            (Rewrap.fits_head fits (Nat.not_lt.mp fits_cell)).1).mono ?_
          rintro st₂ ⟨fits₂, grown₂⟩
          rw [glyphs_leftOver fun skip => ((Bool.and_eq_true ..).mp skip).2,
            Rewrap.layOut_head glyph placed] at grown₂
          refine ⟨fits₂, ?_⟩
          rw [same]
          unfold layOut
          have grown := (Rewrap.grown_head glyph).trans grown₂
          split
          · rename_i straddles
            rw [if_pos straddles, if_pos straddles, Nat.zero_add, List.append_assoc] at grown
            exact grown
          · rename_i room
            rw [if_neg room, if_neg room] at grown
            exact grown

theorem length_shown (cells : List Cell) :
    shownLength cells = (cells.rdropWhile Cell.isDumpSkippable).length := by
  have whole := congrArg List.length (List.takeWhile_append_dropWhile
    (p := Cell.isDumpSkippable) (l := cells.reverse))
  unfold shownLength List.rdropWhile
  rw [List.length_append, List.length_reverse] at whole
  rw [List.length_reverse]
  omega

/-- Trimming a line cuts off only cells that show nothing. -/
theorem trimLine_split (cursorOff : Option Nat) (cells : List Cell) :
    ∃ rest, cells = trimLine cursorOff cells ++ rest ∧ ∀ c ∈ rest, c.isDumpSkippable = true := by
  obtain ⟨tail, split, skippable⟩ := exists_tail Cell.isDumpSkippable cells
  have shown := length_shown cells
  obtain ⟨n, isN⟩ : ∃ n, n = max (shownLength cells) (cursorOff.elim 0 (· + 1)) := ⟨_, rfl⟩
  have enough : (cells.rdropWhile Cell.isDumpSkippable).length ≤ n := by
    rw [isN, ← shown]
    exact Nat.le_max_left ..
  have cut : cells.drop n = tail.drop (n - (cells.rdropWhile Cell.isDumpSkippable).length) := by
    rw [congrArg (List.drop n) split, List.drop_append, List.drop_eq_nil_of_le enough,
      List.nil_append]
  refine ⟨cells.drop n, ?_, ?_⟩
  · rw [isN]
    exact (List.take_append_drop ..).symm
  · intro c mem
    rw [cut] at mem
    exact skippable c (List.mem_of_mem_drop mem)

/-- What rewrapping makes of a logical line: again one finished line. -/
structure Rewraps (width : Nat) (line added : List Row) : Prop where
  isLine : IsLine added
  finished : Finished added
  text : lineGlyphs added = fittedLine width (glyphs (lineCells line))

theorem fittedLine_trimLine {width : Nat} {line : List Row} (cursorOff : Option Nat) :
    fittedLine width (glyphs (trimLine cursorOff (lineCells line))) =
      fittedLine width (glyphs (lineCells line)) := by
  obtain ⟨rest, split, skippable⟩ := trimLine_split cursorOff (lineCells line)
  rw [congrArg glyphs split, glyphs_append, fittedLine_append]
  exact blank_glyphs skippable

/-- The rows of a line with the line's mark on the first of them. -/
def markFirst (mark : Option SemanticMark) (rows : List Row) : List Row :=
  rows.modifyHead fun r => { r with mark }

theorem lineCells_markFirst (mark : Option SemanticMark) (rows : List Row) :
    lineCells (markFirst mark rows) = lineCells rows := by
  cases rows with
  | nil => rfl
  | cons r rows => rfl

theorem isLine_markFirst {mark : Option SemanticMark} {rows : List Row} (h : IsLine rows) :
    IsLine (markFirst mark rows) := by
  obtain ⟨init, last, rfl, soft⟩ := h
  cases init with
  | nil => exact ⟨[], { last with mark }, rfl, nofun⟩
  | cons r init =>
    refine ⟨{ r with mark } :: init, last, rfl, ?_⟩
    intro r' mem
    rcases List.mem_cons.mp mem with rfl | mem
    · exact soft r List.mem_cons_self
    · exact soft r' (List.mem_cons_of_mem r mem)

theorem finished_markFirst {mark : Option SemanticMark} {rows : List Row} (h : Finished rows) :
    Finished (markFirst mark rows) := by
  cases rows with
  | nil => exact h
  | cons r rows =>
    cases rows with
    | nil =>
      intro row eq
      cases eq
      exact h r rfl
    | cons r' rows => exact h

/-- Writing the mark into the rows collected so far. -/
theorem set_markFirst {rows added : List Row} {first : Row} (mark : Option SemanticMark)
    (isFirst : (rows ++ added)[rows.length]? = some first) :
    (rows ++ added).set rows.length { first with mark } = rows ++ markFirst mark added := by
  rw [List.getElem?_append_right (Nat.le_refl _), Nat.sub_self] at isFirst
  rw [List.set_append_right _ _ (Nat.le_refl _), Nat.sub_self]
  cases added with
  | nil => rfl
  | cons r added =>
    cases isFirst
    rfl

theorem rewrapLine_text {width : Nat} (cursorAbs cursorCol i : Nat) (line : List Row)
    {newRows : List Row} (newCursor : Option (Nat × Nat)) (pos : 0 < width)
    (uniform : Uniform width newRows) :
    Yields (rewrapLine width cursorAbs cursorCol line (i, newRows, newCursor)) fun state =>
      ∃ added, state.1 = i + line.length ∧ state.2.1 = newRows ++ added ∧
        Uniform width (newRows ++ added) ∧ Rewraps width line added ∧
        (lineCursor cursorAbs cursorCol i line = none → state.2.2 = newCursor) ∧
        (lineCursor cursorAbs cursorCol i line ≠ none → newCursor = none →
          ∃ p, state.2.2 = some p ∧ newRows.length ≤ p.1 ∧
            p.1 < newRows.length + added.length) := by
  unfold rewrapLine
  dsimp only
  obtain ⟨off, isOff⟩ : ∃ off, off = lineCursor cursorAbs cursorCol i line := ⟨_, rfl⟩
  rw [← isOff]
  have fresh (more : Bool) : ({ newRows, newCursor } : Rewrap).Fits width more :=
    ⟨uniform, Nat.zero_le _, fun _ => pos⟩
  refine (rewrapCells_text pos (trimLine off (lineCells line)) 0 false _ (fresh _)).bind ?_
  rintro st ⟨fits, grown⟩
  obtain ⟨more, rows, soft, text⟩ := grown.rows
  dsimp only at rows text
  have last_cells := fits.lastRow_cells
  -- the rows of this line, before the first one is marked
  obtain ⟨added, isAdded⟩ : ∃ added, added = more ++ [st.lastRow width] := ⟨_, rfl⟩
  have collected : st.newRows ++ [st.lastRow width] = newRows ++ added := by
    rw [rows, isAdded, List.append_assoc]
  have isLine : IsLine added := ⟨more, st.lastRow width, isAdded, soft⟩
  have finished : Finished added := isAdded ▸ finished_concat more rfl
  have shown : lineGlyphs added = fittedLine width (glyphs (trimLine off (lineCells line))) := by
    have cells : lineCells added = lineCells more ++ (st.lastRow width).cells := by
      rw [isAdded]
      simp [lineCells]
    unfold lineGlyphs
    rw [cells, last_cells, ← List.append_assoc, glyphs_append, text, glyphs_blanks]
    refine trimBlanks_append _ ?_
    intro c mem
    rw [List.eq_of_mem_replicate mem]
    rfl
  have rewraps (mark : Option SemanticMark) : Rewraps width line (markFirst mark added) := by
    refine ⟨isLine_markFirst isLine, finished_markFirst finished, ?_⟩
    have same : lineGlyphs (markFirst mark added) = lineGlyphs added := by
      unfold lineGlyphs
      rw [lineCells_markFirst]
    rw [same, shown, fittedLine_trimLine]
  have uniform' : Uniform width (newRows ++ added) := by
    rw [← collected]
    exact fits.newRows.append (Uniform.singleton (Rewrap.length_lastRow fits.cur))
  have length : (newRows ++ added).length = newRows.length + added.length := List.length_append
  have nonempty : 0 < added.length := by
    rw [isAdded, List.length_append, List.length_singleton]
    omega
  have height : st.newRows.length + 1 = newRows.length + added.length := by
    rw [← length, ← collected, List.length_append, List.length_singleton]
  rw [collected]
  refine (Yields.getAt (by omega)).bind ?_
  rintro first ⟨isFirst, mem⟩
  refine (Yields.setAt (by omega)).bind ?_
  rintro rows' rfl
  have marked := set_markFirst (lineMark line) isFirst
  have uniform_marked : Uniform width (newRows ++ markFirst (lineMark line) added) := by
    rw [← marked]
    exact uniform'.set _ (uniform' first mem)
  have same_length : (markFirst (lineMark line) added).length = added.length := by
    unfold markFirst
    cases added with
    | nil => rfl
    | cons r added => rfl
  rw [marked]
  split
  · rename_i vanished
    refine (Yields.sub (by rw [List.length_append, same_length]; omega)).bind ?_
    rintro last rfl
    refine (Yields.getAt (by rw [List.length_append, same_length]; omega)).bind ?_
    rintro lastRow _
    refine (Yields.sub pos).bind ?_
    rintro edge rfl
    refine .pure ⟨markFirst (lineMark line) added, rfl, rfl, uniform_marked, rewraps _, ?_, ?_⟩
    · intro absent
      rw [absent] at vanished
      cases vanished.1
    · intro _ _
      refine ⟨_, rfl, ?_, ?_⟩
      · rw [List.length_append, same_length]
        omega
      · rw [List.length_append, same_length]
        omega
  · rename_i found
    refine .pure ⟨markFirst (lineMark line) added, rfl, rfl, uniform_marked, rewraps _,
      grown.absent, ?_⟩
    intro here none
    have placed : st.newCursor.isNone ≠ true := by
      intro isNone
      exact found ⟨Option.isSome_iff_ne_none.mpr here, isNone⟩
    obtain ⟨p, isPlace⟩ : ∃ p, st.newCursor = some p := by
      cases cursor : st.newCursor with
      | none => exact absurd (by rw [cursor]; rfl) placed
      | some p => exact ⟨p, rfl⟩
    have place := grown.place newRows.length (Nat.le_refl _)
      (fun p eq => by rw [none] at eq; cases eq) p isPlace
    refine ⟨p, isPlace, place.1, ?_⟩
    rw [same_length]
    omega

end Screen

end Posh.Term
