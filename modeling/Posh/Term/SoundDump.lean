import Posh.Term.Dump
import Posh.Term.Rows
import Posh.Term.Sound

/-!
When a dump of a well-formed terminal does not panic: every coordinate it writes is counted
from one, so that a placement that it anchors by itself may not lie in the last row or column
that there is a number for. Such a placement comes of offsets from a parent that is gone.
-/

namespace Posh.Term

open Posh.Lib

namespace Terminal

variable {K : Parser → GraphicsState → Prop} {rows cols : Nat} {t : Terminal} {st : EmitState}

/-- The cell of a placement that is anchored has one-based coordinates. -/
def Anchored (t : Terminal) : Prop :=
  ∀ p ∈ t.graphics.placements, parentAlive t.graphics p = false → p.unicode = false →
    p.row + 1 < 2 ^ 16 ∧ p.col + 1 < 2 ^ 16

theorem emitPlacement_yields {g : GraphicsState} {p : Placement}
    (anchored : parentAlive g p = false → p.unicode = false →
      p.row + 1 < 2 ^ 16 ∧ p.col + 1 < 2 ^ 16) :
    Yields (emitPlacement g p) fun _ => True := by
  unfold emitPlacement
  refine Yields.bind (p := fun _ => True) ?_ fun anchor _ => .pure trivial
  split
  · rename_i alone
    rw [Bool.and_eq_true, Bool.not_eq_true', Bool.not_eq_true'] at alone
    obtain ⟨row_lt, col_lt⟩ := anchored alone.1 alone.2
    refine (Yields.add row_lt).bind fun row _ => ?_
    exact (Yields.add col_lt).bind fun col _ => .pure trivial
  · exact .pure trivial

theorem dumpPlacements_yields (anchored : t.Anchored) : Yields t.dumpPlacements fun _ => True := by
  refine Yields.forEach trivial fun p mem out _ => ?_
  exact (emitPlacement_yields (anchored p mem)).bind fun here _ => .pure trivial

theorem dumpGraphics_yields (anchored : t.Anchored) : Yields t.dumpGraphics fun _ => True :=
  (dumpPlacements_yields anchored).bind fun _ _ => .pure trivial

theorem visibleRows_yields {s : Screen} (sized : s.Sized rows cols) :
    Yields s.visibleRows fun _ => True :=
  ⟨s.grid, Screen.visibleRows_eq (sized.height.trans sized.rows_eq.symm), trivial⟩

theorem drawGrid_yields {grid : Screen} (sized : grid.Sized rows cols) :
    Yields (t.drawGrid grid st) fun _ => True :=
  (visibleRows_yields sized).bind fun _ _ => .pure trivial

theorem dumpRegion_yields (h : t.Sound K rows cols) : Yields t.dumpRegion fun _ => True := by
  have ordered : t.scrollTop ≤ t.scrollBot := h.ordered
  have bot_lt : t.scrollBot < rows := h.bot_lt
  have rows_small := h.rows_small
  unfold dumpRegion
  refine (region_yields h).bind ?_
  rintro _ rfl
  refine (lastRow_yields h).bind ?_
  rintro last rfl
  split
  · refine (Yields.add (by omega)).bind fun top _ => ?_
    exact (Yields.add (by omega)).bind fun bot _ => .pure trivial
  · exact .pure trivial

theorem dumpModes_yields (h : t.Sound K rows cols) : Yields t.dumpModes fun _ => True :=
  (dumpRegion_yields h).bind fun _ _ => .pure trivial

theorem dumpCursor_yields (h : t.Sound K rows cols) : Yields (t.dumpCursor st) fun _ => True := by
  have row_lt := h.cursor_row
  have col_lt := h.cursor_col
  have rows_small := h.rows_small
  have cols_small := h.cols_small
  unfold dumpCursor
  dsimp only
  refine (region_yields h).bind ?_
  rintro _ rfl
  refine (Yields.add (by omega)).bind fun row _ => ?_
  refine (Yields.add ?_).bind fun col _ => .pure trivial
  split <;> omega

/-! ### The dumps -/

theorem dumpPrimary_yields (h : t.Sound K rows cols) : Yields (t.dumpPrimary st) fun _ => True := by
  unfold dumpPrimary
  split
  · exact (visibleRows_yields h.primary).bind fun _ _ => .pure trivial
  · exact (drawGrid_yields h.primary).bind fun _ _ => .pure trivial

/-- The cursor saved on the primary screen is parked where it was. -/
theorem dumpAlt_yields (h : t.Sound K rows cols) : Yields (t.dumpAlt st) fun _ => True := by
  have saved : t.savedPrimary.Small := h.savedPrimary
  unfold dumpAlt
  split
  · refine (Yields.add saved.1).bind fun row _ => (Yields.add saved.2).bind fun col _ => ?_
    exact (drawGrid_yields h.alt).bind fun _ _ => .pure trivial
  · exact .pure trivial

theorem dumpVtImpl_yields (h : t.Sound K rows cols) (anchored : t.Anchored) (flat : Bool) :
    Yields (t.dumpVtImpl flat) fun _ => True := by
  unfold dumpVtImpl
  refine Yields.bind (p := fun _ => True) ?_ fun (screens, st) _ => ?_
  · split
    · exact (drawGrid_yields h.scr).bind fun _ _ => .pure trivial
    · refine (dumpPrimary_yields h).bind fun (primary, st) _ => ?_
      exact (dumpAlt_yields h).bind fun (alt, st) _ => .pure trivial
  · refine (dumpGraphics_yields anchored).bind fun graphics _ => ?_
    refine (dumpModes_yields h).bind fun modes _ => ?_
    exact (dumpCursor_yields h).bind fun cursor _ => .pure trivial

theorem dumpVt_yields (h : t.Sound K rows cols) (anchored : t.Anchored) :
    Yields t.dumpVt fun _ => True := by
  obtain ⟨out, eq, -⟩ := dumpVtImpl_yields h anchored false
  exact ⟨toUtf8 out, by rw [dumpVt, eq]; rfl, trivial⟩

theorem dumpVtFlat_yields (h : t.Sound K rows cols) (anchored : t.Anchored) :
    Yields t.dumpVtFlat fun _ => True := by
  obtain ⟨out, eq, -⟩ := dumpVtImpl_yields h anchored true
  exact ⟨toUtf8 out, by rw [dumpVtFlat, eq]; rfl, trivial⟩

theorem dumpScreenSwitch_yields (h : t.Sound K rows cols) (anchored : t.Anchored) :
    Yields t.dumpScreenSwitch fun _ => True := by
  unfold dumpScreenSwitch
  refine (drawGrid_yields h.scr).bind fun (grid, st) _ => ?_
  refine (dumpRegion_yields h).bind fun region _ => ?_
  refine (dumpPlacements_yields anchored).bind fun placements _ => ?_
  exact (dumpCursor_yields h).bind fun cursor _ => .pure trivial

theorem dumpText_yields (h : t.Sound K rows cols) : Yields t.dumpText fun _ => True :=
  (visibleRows_yields h.scr).bind fun _ _ => .pure trivial

end Terminal

end Posh.Term
