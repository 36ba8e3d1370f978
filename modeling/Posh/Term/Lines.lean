import Posh.Lib.Trailing
import Posh.Term.Screen

/-!
The text of a list of rows: its logical lines, without spacers, trailing blanks and
trailing empty lines.
-/

namespace Posh.Term

open Posh.Lib

/-- The cells that show something of their own: all but the spacers. -/
def glyphs (cells : List Cell) : List Cell :=
  cells.filter (·.width ≠ 0)

/-- Cells without trailing blanks. -/
def trimBlanks (cells : List Cell) : List Cell :=
  cells.rdropWhile Cell.isBlank

/-- The text of one logical line. -/
def lineGlyphs (line : List Row) : List Cell :=
  trimBlanks (glyphs (Screen.lineCells line))

/-- The logical lines, trailing blanks and trailing empty lines ignored. -/
def logicalText (rows : List Row) : List (List Cell) :=
  ((Screen.logicalLines rows).map lineGlyphs).rdropWhile List.isEmpty

/-- Rows without trailing rows that show nothing. -/
def stripRows (rows : List Row) : List Row :=
  rows.rdropWhile Row.isDumpSkippable

/-- The number of the logical line that row `i` belongs to. -/
def lineIndex (rows : List Row) (i : Nat) : Nat :=
  (rows.take i).countP (!·.wrapped)

@[simp] theorem glyphs_append (cells cells' : List Cell) :
    glyphs (cells ++ cells') = glyphs cells ++ glyphs cells' :=
  List.filter_append ..

theorem glyphs_blanks (n : Nat) (style : Style) :
    glyphs (List.replicate n (Cell.blank style)) = List.replicate n (Cell.blank style) := by
  unfold glyphs
  rw [List.filter_eq_self]
  intro c mem
  rw [List.eq_of_mem_replicate mem]
  rfl

/-- A cell a dump may skip is blank. -/
theorem isBlank_of_skippable {c : Cell} (skippable : c.isDumpSkippable = true) :
    c.isBlank = true := by
  unfold Cell.isDumpSkippable at skippable
  rw [Bool.and_eq_true, Bool.and_eq_true] at skippable
  exact skippable.1.1

theorem trimBlanks_append {cells : List Cell} (kept : List Cell)
    (blank : ∀ c ∈ cells, c.isBlank = true) : trimBlanks (kept ++ cells) = trimBlanks kept :=
  rdropWhile_append kept blank

theorem blank_glyphs {cells : List Cell} (skippable : ∀ c ∈ cells, c.isDumpSkippable = true) :
    ∀ c ∈ glyphs cells, c.isBlank = true :=
  fun c mem => isBlank_of_skippable (skippable c (List.mem_of_mem_filter mem))

theorem mem_of_skippable {row : Row} (skippable : row.isDumpSkippable = true) :
    ∀ c ∈ row.cells, c.isDumpSkippable = true :=
  List.all_eq_true.mp skippable

/-! ### Logical lines -/

namespace Screen

variable {rows more : List Row} {row : Row}

theorem logicalLines_ne_nil (some : rows ≠ []) : logicalLines rows ≠ [] := by
  cases rows with
  | nil => exact absurd rfl some
  | cons row rest =>
    unfold logicalLines
    split
    · exact List.cons_ne_nil _ _
    · split
      · exact List.cons_ne_nil _ _
      · exact List.cons_ne_nil _ _

theorem logicalLines_cons {line : List Row} {lines : List (List Row)}
    (after : logicalLines rows = line :: lines) :
    logicalLines (row :: rows) =
      if row.wrapped then (row :: line) :: lines else [row] :: line :: lines := by
  rw [logicalLines, after]

/-- Rows that end with a finished line. -/
def Finished (rows : List Row) : Prop :=
  ∀ row, rows.getLast? = some row → row.wrapped = false

theorem finished_concat (rows : List Row) (last : row.wrapped = false) :
    Finished (rows ++ [row]) := by
  intro row' eq
  rw [List.getLast?_concat] at eq
  cases eq
  exact last

/-- Lines do not run across the end of a finished line. -/
theorem logicalLines_append (done : Finished rows) :
    logicalLines (rows ++ more) = logicalLines rows ++ logicalLines more := by
  induction rows with
  | nil => rfl
  | cons row rest ih =>
    cases rest with
    | nil =>
      have last := done row rfl
      rw [List.cons_append, List.nil_append]
      cases lines : logicalLines more with
      | nil => simp [logicalLines, lines]
      | cons line lines' => simp [logicalLines, lines, last]
    | cons row' rest =>
      have done' : Finished (row' :: rest) := by
        intro last eq
        exact done last (by rw [List.getLast?_cons_cons, eq])
      have joined := ih done'
      have some : logicalLines (row' :: rest) ≠ [] := logicalLines_ne_nil (List.cons_ne_nil _ _)
      cases lines : logicalLines (row' :: rest) with
      | nil => exact absurd lines some
      | cons line lines' =>
        have joined := (congrArg (· ++ logicalLines more) lines) ▸ joined
        rw [List.cons_append, logicalLines_cons joined, logicalLines_cons lines]
        split
        · rfl
        · rfl

/-- Soft-wrapped rows and the row they end with are one line. -/
theorem logicalLines_single (soft : ∀ r ∈ rows, r.wrapped = true) :
    logicalLines (rows ++ [row]) = [rows ++ [row]] := by
  induction rows with
  | nil => rfl
  | cons first rest ih =>
    have rest_soft := ih fun r mem => soft r (List.mem_cons_of_mem first mem)
    rw [List.cons_append, logicalLines, rest_soft]
    dsimp only
    rw [if_pos (soft first List.mem_cons_self)]

theorem flatten_logicalLines (rows : List Row) : (logicalLines rows).flatten = rows := by
  induction rows with
  | nil => rfl
  | cons row rest ih =>
    unfold logicalLines
    cases lines : logicalLines rest with
    | nil =>
      rw [lines] at ih
      simp [← ih]
    | cons line lines' =>
      rw [lines] at ih
      dsimp only
      split
      · simp only [List.flatten_cons, List.cons_append] at ih ⊢
        rw [ih]
      · simp only [List.flatten_cons, List.singleton_append] at ih ⊢
        rw [ih]

/-- Soft-wrapped rows and one more. -/
def IsLine (line : List Row) : Prop :=
  ∃ init last, line = init ++ [last] ∧ ∀ r ∈ init, r.wrapped = true

theorem isLine_cons {line : List Row} (soft : row.wrapped = true) (h : IsLine line) :
    IsLine (row :: line) := by
  obtain ⟨init, last, rfl, inner⟩ := h
  refine ⟨row :: init, last, rfl, ?_⟩
  intro r mem
  rcases List.mem_cons.mp mem with rfl | mem
  · exact soft
  · exact inner r mem

/-- Lines, all of them finished but perhaps the last one. -/
def AreLines : List (List Row) → Prop
  | [] => True
  | [line] => IsLine line
  | line :: next :: lines => IsLine line ∧ Finished line ∧ AreLines (next :: lines)

theorem areLines_logicalLines (rows : List Row) : AreLines (logicalLines rows) := by
  induction rows with
  | nil => trivial
  | cons row rest ih =>
    have single (row : Row) : IsLine [row] := ⟨[], row, rfl, nofun⟩
    unfold logicalLines
    cases lines : logicalLines rest with
    | nil => exact single row
    | cons line lines' =>
      rw [lines] at ih
      dsimp only
      split
      · rename_i soft
        cases lines' with
        | nil => exact isLine_cons soft ih
        | cons next lines'' =>
          refine ⟨isLine_cons soft ih.1, ?_, ih.2.2⟩
          obtain ⟨⟨init, last, rfl, _⟩, finished, _⟩ := ih
          rw [← List.cons_append]
          exact finished_concat _ (finished last List.getLast?_concat)
      · rename_i hard
        exact ⟨single row, finished_concat [] (Bool.eq_false_iff.mpr hard), ih⟩

/-- A row more at the end is a line of its own, or belongs to the last one. -/
theorem logicalLines_concat (rows : List Row) (row : Row) :
    logicalLines (rows ++ [row]) = logicalLines rows ++ [[row]] ∨
      ∃ init line, logicalLines rows = init ++ [line] ∧
        logicalLines (rows ++ [row]) = init ++ [line ++ [row]] := by
  induction rows with
  | nil => exact Or.inl rfl
  | cons first rest ih =>
    rw [List.cons_append, logicalLines, logicalLines]
    rcases ih with alone | ⟨init, line, before, after⟩
    · rw [alone]
      cases lines : logicalLines rest with
      | nil =>
        dsimp only [List.nil_append]
        split
        · exact Or.inr ⟨[], [first], rfl, rfl⟩
        · exact Or.inl rfl
      | cons line lines' =>
        dsimp only [List.cons_append]
        split
        · exact Or.inl rfl
        · exact Or.inl rfl
    · rw [before, after]
      cases init with
      | nil =>
        dsimp only [List.nil_append]
        split
        · exact Or.inr ⟨[], first :: line, rfl, rfl⟩
        · exact Or.inr ⟨[[first]], line, rfl, rfl⟩
      | cons line' init' =>
        dsimp only [List.cons_append]
        split
        · exact Or.inr ⟨(first :: line') :: init', line, rfl, rfl⟩
        · exact Or.inr ⟨[first] :: line' :: init', line, rfl, rfl⟩

end Screen

/-! ### Blank rows -/

/-- A row that shows nothing adds nothing to the text. -/
theorem logicalText_concat {row : Row} (rows : List Row) (skippable : row.isDumpSkippable = true) :
    logicalText (rows ++ [row]) = logicalText rows := by
  have blank := blank_glyphs (mem_of_skippable skippable)
  have added (line : List Row) : lineGlyphs (line ++ [row]) = lineGlyphs line := by
    have cells : Screen.lineCells (line ++ [row]) = Screen.lineCells line ++ row.cells := by
      simp [Screen.lineCells]
    unfold lineGlyphs
    rw [cells, glyphs_append]
    exact trimBlanks_append _ blank
  unfold logicalText
  rcases Screen.logicalLines_concat rows row with alone | ⟨init, line, before, after⟩
  · have empty : lineGlyphs [row] = [] := added []
    rw [alone, List.map_append, List.map_singleton, empty]
    exact rdropWhile_append _ fun line mem => by rw [List.mem_singleton.mp mem]; rfl
  · rw [before, after, List.map_append, List.map_append, List.map_singleton, List.map_singleton,
      added]

theorem logicalText_append {blanks : List Row} (rows : List Row)
    (skippable : ∀ r ∈ blanks, r.isDumpSkippable = true) :
    logicalText (rows ++ blanks) = logicalText rows := by
  induction blanks using List.reverseRecOn with
  | nil => rw [List.append_nil]
  | append_singleton blanks row ih =>
    rw [← List.append_assoc, logicalText_concat _ (skippable row (by simp))]
    exact ih fun r mem => skippable r (List.mem_append_left [row] mem)

/-- The text depends only on the rows up to the last one that shows something. -/
theorem logicalText_stripRows (rows : List Row) : logicalText (stripRows rows) = logicalText rows := by
  obtain ⟨blanks, split, skippable⟩ := exists_tail Row.isDumpSkippable rows
  rw [congrArg logicalText split, logicalText_append _ skippable]
  rfl

end Posh.Term
