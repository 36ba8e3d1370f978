import Posh.Term.RowEdits
import Posh.Term.Tiles

/-!
Rows of whole characters.

A wide character takes two cells, its head and a spacer after it. A row is whole when every
head has its spacer and every spacer its head. Moving rows, rewrapping them and repairing a
row leave whole rows; a write leaves one when it takes both halves of a pair or neither.
-/

namespace Posh.Term

open Posh.Lib

/-- The width of the cell in a column. -/
def widthAt (cells : List Cell) (i : Nat) : Option Nat :=
  (cells[i]?).map (·.width)

/-- Each wide cell is followed by a spacer, and each spacer follows a wide cell. -/
structure Whole (cells : List Cell) : Prop where
  first : widthAt cells 0 ≠ some 0
  pairs : ∀ i, widthAt cells i = some 2 ↔ widthAt cells (i + 1) = some 0

open Screen

variable {a b cells : List Cell} {c : Cell} {i j : Nat} {style : Style}

theorem widthAt_past (past : cells.length ≤ i) : widthAt cells i = none := by
  unfold widthAt
  rw [List.getElem?_eq_none past]
  rfl

theorem lt_of_widthAt {w : Nat} (found : widthAt cells i = some w) : i < cells.length := by
  by_contra past
  rw [widthAt_past (Nat.not_lt.mp past)] at found
  cases found

theorem widthAt_append_left (inside : i < a.length) : widthAt (a ++ b) i = widthAt a i := by
  unfold widthAt
  rw [List.getElem?_append_left inside]

theorem widthAt_append_right (i : Nat) : widthAt (a ++ b) (a.length + i) = widthAt b i := by
  unfold widthAt
  rw [List.getElem?_append_right (Nat.le_add_right _ _), Nat.add_sub_cancel_left]

theorem widthAt_set (inside : i < cells.length) (j : Nat) :
    widthAt (cells.set i c) j = if i = j then some c.width else widthAt cells j := by
  unfold widthAt
  rw [List.getElem?_set]
  by_cases here : i = j
  · rw [if_pos here, if_pos here, if_pos inside]
    rfl
  · rw [if_neg here, if_neg here]

theorem widthAt_take (n : Nat) : widthAt (cells.take n) i = if i < n then widthAt cells i else none := by
  unfold widthAt
  rw [List.getElem?_take]
  split <;> rfl

theorem widthAt_replicate (n : Nat) :
    widthAt (List.replicate n c) i = if i < n then some c.width else none := by
  unfold widthAt
  rw [List.getElem?_replicate]
  split <;> rfl

/-! ### Whole rows -/

theorem whole_of_widths (same : ∀ i, widthAt b i = widthAt a i) (h : Whole a) : Whole b := by
  constructor
  · rw [same]
    exact h.first
  · intro i
    rw [same, same]
    exact h.pairs i

theorem whole_nil : Whole [] where
  first := nofun
  pairs _ := ⟨nofun, nofun⟩

theorem whole_replicate (zero : c.width ≠ 0) (two : c.width ≠ 2) (n : Nat) :
    Whole (List.replicate n c) := by
  have narrow (i w : Nat) (width : w = 0 ∨ w = 2) : widthAt (List.replicate n c) i ≠ some w := by
    rw [widthAt_replicate]
    split
    · intro same
      have := Option.some.inj same
      omega
    · exact nofun
  refine ⟨narrow 0 0 (.inl rfl), fun i => ?_⟩
  exact iff_of_false (narrow i 2 (.inr rfl)) (narrow (i + 1) 0 (.inl rfl))

theorem whole_blanks (n : Nat) (style : Style) : Whole (List.replicate n (Cell.blank style)) :=
  whole_replicate (show (1 : Nat) ≠ 0 by decide) (show (1 : Nat) ≠ 2 by decide) n

theorem whole_wide (wide : c.width = 2) : Whole [c, c.spacer] := by
  constructor
  · intro same
    cases wide.symm.trans (Option.some.inj same)
  · intro i
    match i with
    | 0 => exact iff_of_true (congrArg some wide) rfl
    | 1 => exact iff_of_false nofun nofun
    | i + 2 => exact iff_of_false nofun nofun

theorem Whole.append (ha : Whole a) (hb : Whole b) : Whole (a ++ b) := by
  constructor
  · cases a with
    | nil => exact hb.first
    | cons c rest => exact ha.first
  · intro i
    rcases Nat.lt_trichotomy (i + 1) a.length with inside | edge | past
    · rw [widthAt_append_left (by omega), widthAt_append_left inside]
      exact ha.pairs i
    · -- the last cell of the first row is no head, and the first of the second no spacer
      rw [widthAt_append_left (by omega), edge, ← Nat.add_zero a.length, widthAt_append_right]
      refine iff_of_false ?_ hb.first
      rw [ha.pairs i, widthAt_past (by omega)]
      exact nofun
    · obtain ⟨k, rfl⟩ := Nat.exists_eq_add_of_le (show a.length ≤ i by omega)
      rw [Nat.add_assoc, widthAt_append_right, widthAt_append_right]
      exact hb.pairs k

theorem whole_tiled : Tiled Whole where
  nil := whole_nil
  append := Whole.append
  blanks := whole_blanks
  narrow _ zero two := whole_replicate zero two 1
  wide _ := whole_wide

/-- The columns before one that holds no spacer. -/
theorem Whole.take (h : Whole cells) {n : Nat} (uncut : widthAt cells n ≠ some 0) :
    Whole (cells.take n) := by
  constructor
  · rw [widthAt_take]
    split
    · exact h.first
    · exact nofun
  · intro i
    rw [widthAt_take, widthAt_take]
    by_cases inside : i + 1 < n
    · rw [if_pos (by omega), if_pos inside]
      exact h.pairs i
    · rw [if_neg inside]
      refine iff_of_false ?_ nofun
      split
      · have edge : i + 1 = n := by omega
        rw [h.pairs i, edge]
        exact uncut
      · exact nofun

theorem resizeWidth_whole {r : Row} (h : Whole r.cells) (cols : Nat) :
    Whole (r.resizeWidth cols).cells := by
  unfold Row.resizeWidth
  split
  · rename_i narrower
    have length : (r.cells.take cols).length = cols := by
      rw [List.length_take]
      omega
    dsimp only
    split
    · rename_i last found
      rw [List.getLast?_eq_getElem?, length] at found
      have isLast : widthAt (r.cells.take cols) (cols - 1) = some last.width := by
        unfold widthAt
        rw [found]
        rfl
      have inside := lt_of_widthAt isLast
      rw [widthAt_take, if_pos (by omega)] at isLast
      split
      · rename_i wide
        have uncut : widthAt r.cells (cols - 1) ≠ some 0 := by
          rw [isLast, wide]
          decide
        rw [List.dropLast_eq_take, length, List.take_take, Nat.min_eq_left (by omega)]
        exact (h.take uncut).append (whole_blanks 1 {})
      · rename_i narrow
        refine h.take ?_
        intro spacer
        have edge : cols - 1 + 1 = cols := by omega
        rw [← edge, ← h.pairs, isLast] at spacer
        exact narrow (Option.some.inj spacer)
    · rename_i none
      rw [List.getLast?_eq_none_iff] at none
      dsimp only
      rw [none]
      exact whole_nil
  · exact h.append (whole_blanks _ {})

theorem Screen.resize_whole {s : Screen} (h : s.Every Whole) {rows cols : Nat} {cursor : Nat × Nat}
    {reflow : Bool} : Guarded False (s.resize rows cols cursor reflow) (·.1.Every Whole) :=
  resize_laid whole_tiled (fun _ cols whole => resizeWidth_whole whole cols) h

/-! ### Repairs -/

/-- A half of a wide character without the other one. -/
def Orphaned (cells : List Cell) (i : Nat) : Prop :=
  widthAt cells i = some 2 ∧ widthAt cells (i + 1) ≠ some 0 ∨
    widthAt cells i = some 0 ∧ (i = 0 ∨ widthAt cells (i - 1) ≠ some 2)

instance (cells : List Cell) (i : Nat) : Decidable (Orphaned cells i) := by
  unfold Orphaned
  infer_instance

/-- Blanks the column if it holds an orphaned half. -/
def repaired (style : Style) (i : Nat) (cells : List Cell) : List Cell :=
  if Orphaned cells i then cells.set i (Cell.blank style) else cells

/-- The row is whole as far as the column. -/
structure WholeTo (n : Nat) (cells : List Cell) : Prop where
  first : 0 < n → widthAt cells 0 ≠ some 0
  heads : ∀ i < n, widthAt cells i = some 2 → widthAt cells (i + 1) = some 0
  spacers : ∀ i, i + 1 < n → widthAt cells (i + 1) = some 0 → widthAt cells i = some 2

theorem length_repaired (style : Style) (i : Nat) (cells : List Cell) :
    (repaired style i cells).length = cells.length := by
  unfold repaired
  split
  · exact List.length_set
  · rfl

theorem wholeTo_repaired {n : Nat} (h : WholeTo n cells) : WholeTo (n + 1) (repaired style n cells) := by
  have first := h.first
  have heads := h.heads
  have spacers := h.spacers
  unfold repaired
  split
  · rename_i orphaned
    have inside : n < cells.length := by
      rcases orphaned with ⟨wide, _⟩ | ⟨spacer, _⟩
      · exact lt_of_widthAt wide
      · exact lt_of_widthAt spacer
    have after := widthAt_set (c := Cell.blank style) inside
    have one : (Cell.blank style).width = 1 := rfl
    rw [one] at after
    unfold Orphaned at orphaned
    constructor
    · intro _
      rw [after]
      grind
    · intro i lt
      rw [after, after]
      grind
    · intro i lt
      rw [after, after]
      grind
  · rename_i fine
    unfold Orphaned at fine
    constructor
    · intro _
      grind
    · intro i lt
      grind
    · intro i lt
      grind

/-- The first columns, each repaired in turn. -/
def repairedTo (style : Style) : (n : Nat) → List Cell → List Cell
  | 0, cells => cells
  | n + 1, cells => repaired style n (repairedTo style n cells)

theorem length_repairedTo (style : Style) (n : Nat) (cells : List Cell) :
    (repairedTo style n cells).length = cells.length := by
  induction n with
  | zero => rfl
  | succ n ih =>
    rw [repairedTo, length_repaired, ih]

theorem wholeTo_repairedTo (style : Style) (n : Nat) (cells : List Cell) :
    WholeTo n (repairedTo style n cells) := by
  induction n with
  | zero => exact ⟨nofun, nofun, nofun⟩
  | succ n ih => exact wholeTo_repaired ih

/-- Whatever the row was. -/
theorem whole_repairedTo (style : Style) (cells : List Cell) :
    Whole (repairedTo style cells.length cells) := by
  have length := length_repairedTo style cells.length cells
  obtain ⟨first, heads, spacers⟩ := wholeTo_repairedTo style cells.length cells
  generalize repairedTo style cells.length cells = out at length first heads spacers
  constructor
  · intro spacer
    exact first (length ▸ lt_of_widthAt spacer) spacer
  · intro i
    constructor
    · intro wide
      exact heads i (length ▸ lt_of_widthAt wide) wide
    · intro spacer
      exact spacers i (length ▸ lt_of_widthAt spacer) spacer

/-! ### Writes -/

/-- Blanks the head of a spacer in the column. -/
def cleanedLeft (style : Style) (col : Nat) (cells : List Cell) : List Cell :=
  if widthAt cells col = some 0 ∧ col > 0 then cells.set (col - 1) (Cell.blank style) else cells

/-- Blanks the spacer of a head in the column. -/
def cleanedRight (style : Style) (i : Nat) (cells : List Cell) : List Cell :=
  if widthAt cells i = some 2 ∧ i + 1 < cells.length then cells.set (i + 1) (Cell.blank style)
  else cells

/-- Blanks the halves that a write to the `w` columns from `col` on leaves behind. -/
def cleaned (style : Style) (col : Nat) : (w : Nat) → List Cell → List Cell
  | 0, cells => cleanedLeft style col cells
  | w + 1, cells => cleanedRight style (col + w) (cleaned style col w cells)

theorem length_cleaned (style : Style) (col w : Nat) (cells : List Cell) :
    (cleaned style col w cells).length = cells.length := by
  induction w with
  | zero =>
    unfold cleaned cleanedLeft
    split
    · exact List.length_set
    · rfl
  | succ w ih =>
    unfold cleaned cleanedRight
    split
    · rw [List.length_set, ih]
    · exact ih

theorem widthAt_cleanedLeft {col : Nat} (inside : col < cells.length) :
    widthAt (cleanedLeft style col cells) j =
      if widthAt cells col = some 0 ∧ col > 0 ∧ j + 1 = col then some 1 else widthAt cells j := by
  unfold cleanedLeft
  split
  · rw [widthAt_set (by omega)]
    have one : (Cell.blank style).width = 1 := rfl
    rw [one]
    grind
  · grind

theorem widthAt_cleanedRight :
    widthAt (cleanedRight style i cells) j =
      if widthAt cells i = some 2 ∧ i + 1 < cells.length ∧ j = i + 1 then some 1
      else widthAt cells j := by
  unfold cleanedRight
  split
  · rename_i cut
    rw [widthAt_set cut.2]
    have one : (Cell.blank style).width = 1 := rfl
    rw [one]
    grind
  · grind

/-- A narrow character over whatever was there. -/
theorem whole_putNarrow (h : Whole cells) {col : Nat} (inside : col < cells.length)
    (zero : c.width ≠ 0) (two : c.width ≠ 2) : Whole ((cleaned style col 1 cells).set col c) := by
  have first := h.first
  have pairs := h.pairs
  have length := length_cleaned style col 1 cells
  have widths (j : Nat) : widthAt ((cleaned style col 1 cells).set col c) j =
      if col = j then some c.width
      else if widthAt (cleanedLeft style col cells) col = some 2 ∧ col + 1 < cells.length ∧
        j = col + 1 then some 1
      else widthAt (cleanedLeft style col cells) j := by
    have left : (cleanedLeft style col cells).length = cells.length := length_cleaned style col 0 cells
    rw [widthAt_set (by omega)]
    unfold cleaned
    rw [Nat.add_zero, widthAt_cleanedRight, cleaned, left]
  simp only [widthAt_cleanedLeft inside] at widths
  have past (j : Nat) (out : cells.length ≤ j) : widthAt cells j = none := widthAt_past out
  constructor
  · rw [widths]
    grind
  · intro j
    rw [widths, widths]
    grind

/-- A wide character and its spacer. -/
theorem whole_putWide (h : Whole cells) {col : Nat} (inside : col + 1 < cells.length)
    (wide : c.width = 2) :
    Whole (((cleaned style col 2 cells).set col c).set (col + 1) c.spacer) := by
  have first := h.first
  have pairs := h.pairs
  have left : (cleanedLeft style col cells).length = cells.length := length_cleaned style col 0 cells
  have right : (cleaned style col 1 cells).length = cells.length := length_cleaned style col 1 cells
  have length := length_cleaned style col 2 cells
  have zero : c.spacer.width = 0 := rfl
  have widths (j : Nat) : widthAt (((cleaned style col 2 cells).set col c).set (col + 1) c.spacer) j =
      if col + 1 = j then some 0
      else if col = j then some 2
      else widthAt (cleanedRight style (col + 1) (cleanedRight style col (cleanedLeft style col cells))) j := by
    rw [widthAt_set (by rw [List.length_set]; omega), widthAt_set (by omega), wide, zero]
    rfl
  have right' : (cleanedRight style col (cleanedLeft style col cells)).length = cells.length := right
  simp only [widthAt_cleanedRight, widthAt_cleanedLeft (show col < cells.length by omega), left,
    right'] at widths
  have past (j : Nat) (out : cells.length ≤ j) : widthAt cells j = none := widthAt_past out
  constructor
  · rw [widths]
    grind
  · intro j
    rw [widths, widths]
    grind

/-- A write that the width of the cell survives. -/
theorem Screen.modifyCell_whole {s : Screen} (h : s.Every Whole) {row col : Nat} {f : Cell → Cell}
    (width : ∀ c, (f c).width = c.width) :
    Guarded False (s.modifyCell row col f) (·.Every Whole) := by
  refine modifyRow_every h ?_
  intro r _ whole
  apply (Guarded.trivial _).bind
  intro last _
  refine (Guarded.getAt.weaken False.elim).bind ?_
  intro old found
  refine .pure (whole_of_widths (fun i => ?_) whole)
  rw [widthAt_set (List.getElem?_eq_some_iff.mp found).1, width]
  split
  · rename_i here
    rw [← here, widthAt, found]
    rfl
  · rfl

/-- A blank in the last column, when that holds no spacer. -/
theorem whole_blankLast (h : Whole cells) (last : i + 1 = cells.length)
    (uncut : widthAt cells i ≠ some 0) : Whole (cells.set i (Cell.blank style)) := by
  have first := h.first
  have pairs := h.pairs
  have inside : i < cells.length := by omega
  have one : (Cell.blank style).width = 1 := rfl
  have past : widthAt cells (i + 1) = none := widthAt_past (by omega)
  constructor
  · rw [widthAt_set inside, one]
    grind
  · intro j
    rw [widthAt_set inside, widthAt_set inside, one]
    grind

/-- Cells blanked: both halves of each pair, or neither. -/
theorem whole_erased (h : Whole cells) {erases : Nat → Cell → Bool}
    (uncut : ∀ i c d, cells[i]? = some c → c.width = 2 → cells[i + 1]? = some d →
      erases i c = erases (i + 1) d) :
    Whole (cells.mapIdx fun i c => if erases i c then Cell.blank style else c) := by
  have widths (i : Nat) : widthAt (cells.mapIdx fun i c =>
      if erases i c then Cell.blank style else c) i =
        (cells[i]?).map fun c => if erases i c then 1 else c.width := by
    unfold widthAt
    rw [List.getElem?_mapIdx, Option.map_map]
    refine congrArg (Option.map · _) (funext fun c => ?_)
    rw [Function.comp_apply]
    split <;> rfl
  have first := h.first
  unfold widthAt at first
  constructor
  · rw [widths]
    intro spacer
    obtain ⟨c, found, zero⟩ := Option.map_eq_some_iff.mp spacer
    rw [found] at first
    split at zero
    · cases zero
    · exact first (congrArg some zero)
  · intro i
    have pair := h.pairs i
    unfold widthAt at pair
    rw [widths, widths]
    cases head : cells[i]? with
    | none =>
      have past : cells[i + 1]? = none :=
        List.getElem?_eq_none (Nat.le_succ_of_le (List.getElem?_eq_none_iff.mp head))
      rw [past]
      exact iff_of_false nofun nofun
    | some c =>
      rw [head] at pair
      cases next : cells[i + 1]? with
      | none =>
        rw [next] at pair
        simp only [Option.map_some, Option.map_none, Option.some.injEq] at pair ⊢
        refine iff_of_false ?_ nofun
        intro wide
        split at wide
        · cases wide
        · cases pair.mp wide
      | some d =>
        rw [next] at pair
        have same := uncut i c d head
        simp only [Option.map_some, Option.some.injEq] at pair ⊢
        grind

end Posh.Term
