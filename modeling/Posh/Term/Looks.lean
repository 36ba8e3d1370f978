import Posh.Lib.Trailing
import Posh.Term.Dump
import Posh.Term.Lines
import Posh.Term.Page
import Posh.Term.Printed

/-!
What a row looks like, and the characters it is drawn by.

A tidy row is its characters, each wide one followed by its own spacer. A dump writes the
characters that show something; the rest of the row is left blank.
-/

namespace Posh.Term

open Posh.Lib

/-- What is seen of a cell: its link is followed to the URI. -/
structure Look where
  ch : Char
  extra : List Char
  width : Nat
  style : Style
  uri : Option (List Char)
deriving DecidableEq, Repr

def Look.blank (style : Style) : Look :=
  { ch := ' ', extra := [], width := 1, style, uri := none }

def Cell.look (links : AssocMap Hyperlink) (c : Cell) : Look where
  ch := c.ch
  extra := c.extra
  width := c.width
  style := c.style
  uri := (links.lookup c.hyperlink).map (·.uri)

/-- What is seen of a row, and whether it goes on below. -/
def Row.look (links : AssocMap Hyperlink) (r : Row) : List Look × Bool :=
  (r.cells.map (Cell.look links), r.wrapped)

/-- The cells of some characters. -/
def spread (characters : List Cell) : List Cell :=
  characters.flatMap Cell.spread

/-- The row is its characters, each wide one before its own spacer. -/
def Tidy (cells : List Cell) : Prop :=
  cells = spread (glyphs cells)

instance (cells : List Cell) : Decidable (Tidy cells) :=
  inferInstanceAs (Decidable (_ = _))

/-- The characters that a dump writes of a row. -/
def Row.drawn (r : Row) : List Cell :=
  glyphs (Terminal.shownCells r)

variable {links : AssocMap Hyperlink} {cells : List Cell} {c : Cell} {r : Row}

theorem spread_cons (c : Cell) (rest : List Cell) : spread (c :: rest) = Cell.spread c ++ spread rest :=
  List.flatMap_cons

theorem spread_append (a b : List Cell) : spread (a ++ b) = spread a ++ spread b :=
  List.flatMap_append

theorem glyphs_visible (printed : Screen.Cells Cell.Printed cells) (mem : c ∈ glyphs cells) :
    c.width = 1 ∨ c.width = 2 := by
  obtain ⟨inside, visible⟩ := List.mem_filter.mp mem
  have visible := of_decide_eq_true visible
  have le := wcwidth_le c.ch
  rw [← (printed c inside).width] at le
  omega

/-! ### What is written of a row -/

theorem take_shownLength (cells : List Cell) :
    cells.take (Screen.shownLength cells) = cells.rdropWhile Cell.isDumpSkippable := by
  have split := List.rdropWhile_append_rtakeWhile (p := Cell.isDumpSkippable) (l := cells)
  have length := congrArg List.length split
  rw [List.length_append] at length
  have tail : (cells.rtakeWhile Cell.isDumpSkippable).length =
      (cells.reverse.takeWhile Cell.isDumpSkippable).length := List.length_reverse
  have shown : Screen.shownLength cells = (cells.rdropWhile Cell.isDumpSkippable).length := by
    unfold Screen.shownLength
    omega
  rw [shown]
  exact (List.prefix_iff_eq_take.mp (List.rdropWhile_prefix Cell.isDumpSkippable _)).symm

/-- A wide character shows something. -/
theorem not_skippable_of_wide (printed : c.Printed) (wide : c.width = 2) : c.isDumpSkippable = false := by
  have width := printed.width
  rw [wide] at width
  have shown : (c.ch == ' ' || c.ch == '\x00') = false := by
    rw [Bool.or_eq_false_iff, beq_eq_false_iff_ne, beq_eq_false_iff_ne]
    constructor
    · intro blank
      rw [blank] at width
      revert width
      decide
    · intro blank
      rw [blank] at width
      revert width
      decide
  unfold Cell.isDumpSkippable Cell.isBlank
  rw [shown]
  rfl

theorem glyphs_cell (visible : c.width = 1 ∨ c.width = 2) : glyphs (Cell.spread c) = [c] := by
  unfold Cell.spread
  split
  · exact List.filter_cons_of_pos (decide_eq_true (by omega))
  · exact List.filter_cons_of_pos (decide_eq_true (by omega))

theorem glyphs_spread {characters : List Cell}
    (visible : ∀ c ∈ characters, c.width = 1 ∨ c.width = 2) :
    glyphs (spread characters) = characters := by
  induction characters with
  | nil => rfl
  | cons c rest ih =>
    have first := glyphs_cell (visible c List.mem_cons_self)
    have later := ih fun x mem => visible x (List.mem_cons_of_mem _ mem)
    rw [spread_cons]
    unfold glyphs at *
    rw [List.filter_append, first, later]
    rfl

/-- Of the cells up to the last one that shows something, the characters are those up to the
last one that does. -/
theorem glyphs_rdropWhile {characters : List Cell} (printed : ∀ c ∈ characters, c.Printed)
    (visible : ∀ c ∈ characters, c.width = 1 ∨ c.width = 2) :
    glyphs ((spread characters).rdropWhile Cell.isDumpSkippable) =
      characters.rdropWhile Cell.isDumpSkippable := by
  induction characters using List.reverseRecOn with
  | nil => rfl
  | append_singleton before c ih =>
    have last : c ∈ before ++ [c] := List.mem_append_right _ List.mem_cons_self
    have all := glyphs_spread visible
    have earlier := ih (fun x mem => printed x (List.mem_append_left _ mem))
      fun x mem => visible x (List.mem_append_left _ mem)
    have single : spread [c] = Cell.spread c := List.append_nil _
    rw [spread_append, single] at all ⊢
    rcases visible c last with narrow | wide
    · have one : Cell.spread c = [c] := if_neg (by omega)
      rw [one] at all ⊢
      by_cases blank : c.isDumpSkippable = true
      · rw [List.rdropWhile_concat_pos _ _ _ blank, List.rdropWhile_concat_pos _ _ _ blank, earlier]
      · rw [List.rdropWhile_concat_neg _ _ _ blank, List.rdropWhile_concat_neg _ _ _ blank, all]
    · have shown : ¬ c.isDumpSkippable = true := by
        rw [not_skippable_of_wide (printed c last) wide]
        exact Bool.false_ne_true
      have two : Cell.spread c = [c] ++ [c.spacer] := if_pos wide
      rw [List.rdropWhile_concat_neg _ _ _ shown, two, ← List.append_assoc]
      rw [two, ← List.append_assoc] at all
      by_cases blank : c.spacer.isDumpSkippable = true
      · rw [List.rdropWhile_concat_pos _ _ _ blank, List.rdropWhile_concat_neg _ _ _ shown, ← all]
        exact ((glyphs_append _ _).trans (List.append_nil _)).symm
      · rw [List.rdropWhile_concat_neg _ _ _ blank, all]

/-- The characters that a dump writes of a row that is not wrapped. -/
theorem Row.drawn_eq (printed : Screen.Cells Cell.Printed r.cells) (tidy : Tidy r.cells)
    (ends : r.wrapped = false) : r.drawn = (glyphs r.cells).rdropWhile Cell.isDumpSkippable := by
  unfold Row.drawn Terminal.shownCells
  rw [ends, if_neg Bool.false_ne_true, take_shownLength]
  have written : glyphs ((spread (glyphs r.cells)).rdropWhile Cell.isDumpSkippable) =
      (glyphs r.cells).rdropWhile Cell.isDumpSkippable :=
    glyphs_rdropWhile (fun c mem => printed c (List.mem_filter.mp mem).1)
      fun c mem => glyphs_visible printed mem
  have cells_eq : spread (glyphs r.cells) = r.cells := tidy.symm
  rwa [cells_eq] at written

theorem Row.drawn_wrapped (goes : r.wrapped = true) : r.drawn = glyphs r.cells := by
  unfold Row.drawn Terminal.shownCells
  rw [if_pos goes]

/-- A cell that shows nothing, if it is no spacer. -/
theorem look_skippable (none : links.lookup 0 = none) (printed : c.Printed) (visible : c.width ≠ 0)
    (skippable : c.isDumpSkippable = true) : c.look links = Look.blank {} := by
  have narrow : c.width = 1 := by
    have le := wcwidth_le c.ch
    rw [← printed.width] at le
    have wide : c.width ≠ 2 := fun wide => by
      rw [not_skippable_of_wide printed wide] at skippable
      cases skippable
    omega
  have char : c.ch ≠ '\x00' := by
    intro zero
    have width := printed.width
    rw [zero, narrow] at width
    revert width
    decide
  unfold Cell.isDumpSkippable Cell.isBlank Style.isDefault at skippable
  simp only [Bool.and_eq_true, Bool.or_eq_true, beq_iff_eq, List.isEmpty_iff, decide_eq_true_eq]
    at skippable
  obtain ⟨⟨⟨blank, extra⟩, style⟩, link⟩ := skippable
  have space := blank.resolve_right char
  unfold Cell.look Look.blank
  rw [space, extra, narrow, style, link, none]
  rfl

/-- What a row looks like: its written characters, and blanks. -/
theorem Row.look_drawn (none : links.lookup 0 = none) (printed : Screen.Cells Cell.Printed r.cells)
    (tidy : Tidy r.cells) :
    r.cells.map (Cell.look links) = (spread r.drawn).map (Cell.look links) ++
      List.replicate (r.cells.length - (spread r.drawn).length) (Look.blank {}) := by
  cases wrapped : r.wrapped with
  | true =>
    have same : spread r.drawn = r.cells := by
      rw [Row.drawn_wrapped wrapped]
      exact tidy.symm
    rw [same, Nat.sub_self]
    exact (List.append_nil _).symm
  | false =>
    have written := Row.drawn_eq printed tidy wrapped
    obtain ⟨rest, split, skippable⟩ := exists_tail Cell.isDumpSkippable (glyphs r.cells)
    rw [← written] at split
    have visible (c : Cell) (mem : c ∈ rest) : c ∈ glyphs r.cells := by
      rw [split]
      exact List.mem_append_right _ mem
    have printed_rest (c : Cell) (mem : c ∈ rest) : c.Printed :=
      printed c (List.mem_filter.mp (visible c mem)).1
    have cells_eq : r.cells = spread r.drawn ++ spread rest := by
      rw [← spread_append, ← split]
      exact tidy
    have blank (c : Cell) (mem : c ∈ rest) : c.look links = Look.blank {} :=
      look_skippable none (printed_rest c mem)
        (of_decide_eq_true (List.mem_filter.mp (visible c mem)).2) (skippable c mem)
    have narrow : spread rest = rest := by
      have one (c : Cell) (mem : c ∈ rest) : c.spread = [c] := by
        refine if_neg fun wide => ?_
        have shows := not_skippable_of_wide (printed_rest c mem) wide
        rw [skippable c mem] at shows
        cases shows
      unfold spread
      rw [List.flatMap_congr one]
      exact List.flatMap_singleton' rest
    have blanks : rest.map (Cell.look links) = List.replicate rest.length (Look.blank {}) := by
      rw [List.eq_replicate_iff]
      refine ⟨List.length_map _, ?_⟩
      intro l mem
      obtain ⟨c, inside, rfl⟩ := List.mem_map.mp mem
      exact blank c inside
    rw [cells_eq, narrow, List.map_append, blanks, List.length_append, Nat.add_sub_cancel_left]

end Posh.Term
