import Posh.Term.Grid
import Posh.Term.Rows

/-!
Rows laid with whole characters.

A resize that rewraps makes each row anew from blanks, narrow characters and wide ones with
their spacers. A property of rows that these have, and that rows put end to end keep, holds
of all rows then, whatever held before.
-/

namespace Posh.Term

open Posh.Lib

namespace Screen

/-- What rows laid with whole characters satisfy. -/
structure Tiled (P : List Cell → Prop) : Prop where
  nil : P []
  append : ∀ {a b : List Cell}, P a → P b → P (a ++ b)
  blanks : ∀ n style, P (List.replicate n (Cell.blank style))
  narrow : ∀ c : Cell, c.width ≠ 0 → c.width ≠ 2 → P [c]
  wide : ∀ c : Cell, c.width = 2 → P [c, c.spacer]

/-- What rewrapping has laid so far. -/
structure Laid (P : List Cell → Prop) (st : Rewrap) : Prop where
  rows : ∀ r ∈ st.newRows, P r.cells
  cur : P st.cur

variable {P : List Cell → Prop} {s : Screen} {st : Rewrap}

namespace Laid

theorem flush (tiled : Tiled P) (h : Laid P st) : Laid P st.flush := by
  refine ⟨?_, tiled.nil⟩
  intro r mem
  rcases List.mem_append.mp mem with old | new
  · exact h.rows r old
  · rw [List.mem_singleton.mp new]
    exact h.cur

theorem flushFull (tiled : Tiled P) (h : Laid P st) (width : Nat) (more : Bool) :
    Laid P (st.flushFull width more) := by
  unfold Rewrap.flushFull
  split
  · exact h.flush tiled
  · exact h

theorem push (tiled : Tiled P) (h : Laid P st) {cells : List Cell} (holds : P cells) :
    Laid P { st with cur := st.cur ++ cells } :=
  ⟨h.rows, tiled.append h.cur holds⟩

theorem makeRoom (tiled : Tiled P) (h : Laid P st) (width w : Nat) :
    Laid P (Screen.makeRoom width w st) := by
  unfold Screen.makeRoom
  split
  · exact (h.push tiled (tiled.blanks _ {})).flush tiled
  · exact h

/-- The cursor's place is no part of the rows. -/
theorem of_eq {st' : Rewrap} (h : Laid P st)
    (same : st'.newRows = st.newRows ∧ st'.cur = st.cur) : Laid P st' := by
  obtain ⟨rows, cur⟩ := same
  exact ⟨rows ▸ h.rows, cur ▸ h.cur⟩

theorem spacer (h : Laid P st) {width j : Nat} {cursorOff : Option Nat} :
    Guarded False (rewrapSpacer width cursorOff j st) (Laid P) := by
  unfold rewrapSpacer
  split
  · apply (Guarded.trivial _).bind
    intro last _
    exact .pure (h.of_eq ⟨rfl, rfl⟩)
  · exact .pure h

theorem unfit (tiled : Tiled P) (h : Laid P st) {width j : Nat} {cursorOff : Option Nat}
    {more : Bool} : Laid P (rewrapUnfit width cursorOff j more st) := by
  have placed : Laid P (if cursorOff = some j ∨ cursorOff = some (j + 1) then
      st.placeCursor st.cur.length else st) := by
    split
    · exact h.of_eq ⟨rfl, rfl⟩
    · exact h
  exact flushFull tiled (placed.push tiled (tiled.blanks 1 {})) width more

theorem head (tiled : Tiled P) (h : Laid P st) {width j : Nat} {cursorOff : Option Nat}
    {cell : Cell} (glyph : cell.width ≠ 0) {more : Bool} :
    Laid P (rewrapHead width cursorOff j cell more st) := by
  have placed := (h.makeRoom tiled width (max cell.width 1)).of_eq
    (Rewrap.followCursor_spec cursorOff j (max cell.width 1) _)
  refine flushFull tiled (placed.push tiled ?_) width more
  split
  · rename_i wide
    exact tiled.wide cell (by omega)
  · rename_i narrow
    exact tiled.narrow cell glyph (by omega)

end Laid

theorem rewrapCells_laid (tiled : Tiled P) {width : Nat} {cursorOff : Option Nat}
    {cells : List Cell} {j : Nat} {skip : Bool} (h : Laid P st) :
    Guarded False (rewrapCells width cursorOff cells j skip st) (Laid P) := by
  induction cells generalizing j skip st with
  | nil => exact .pure h
  | cons cell rest ih =>
    cases skip with
    | true => exact ih h
    | false =>
      unfold rewrapCells
      dsimp only
      split
      · exact h.spacer.bind fun _ h => ih h
      · rename_i glyph
        split
        · exact ih (h.unfit tiled)
        · exact ih (h.head tiled glyph)

/-- The rows of a line, as wide as the screen. -/
theorem rewrapLine_laid (tiled : Tiled P) {width cursorAbs cursorCol : Nat} {line : List Row}
    (pos : 0 < width) {state : Nat × List Row × Option (Nat × Nat)}
    (uniform : Uniform width state.2.1) (holds : ∀ r ∈ state.2.1, P r.cells) :
    Guarded False (rewrapLine width cursorAbs cursorCol line state) fun out =>
      ∀ r ∈ out.2.1, P r.cells := by
  obtain ⟨i, newRows, newCursor⟩ := state
  unfold rewrapLine
  dsimp only
  have fresh (more : Bool) : ({ newRows, newCursor } : Rewrap).Fits width more :=
    ⟨uniform, Nat.zero_le _, fun _ => pos⟩
  have started : Laid P { newRows, newCursor } := ⟨holds, tiled.nil⟩
  refine Guarded.bind ((rewrapCells_laid tiled started).and
    (.of_yields (rewrapCells_yields pos _ 0 false _ (fresh _)))) ?_
  rintro st ⟨laid, fits, _⟩
  have rows : ∀ r ∈ st.newRows ++ [st.lastRow width], P r.cells := by
    intro r mem
    rcases List.mem_append.mp mem with old | new
    · exact laid.rows r old
    · rw [List.mem_singleton.mp new, fits.lastRow_cells]
      exact tiled.append laid.cur (tiled.blanks _ {})
  refine (Guarded.getAt.weaken False.elim).bind ?_
  intro first found
  refine (Guarded.setAt.weaken False.elim).bind ?_
  rintro _ rfl
  have marked : ∀ r ∈ (st.newRows ++ [st.lastRow width]).set newRows.length
      { first with mark := lineMark line }, P r.cells := by
    intro r mem
    rcases List.mem_or_eq_of_mem_set mem with old | rfl
    · exact rows r old
    · exact rows first (List.mem_of_getElem? found)
  split
  · apply (Guarded.trivial _).bind
    intro last _
    apply (Guarded.trivial _).bind
    intro lastRow _
    apply (Guarded.trivial _).bind
    intro edge _
    exact .pure marked
  · exact .pure marked

theorem reflowWidth_laid (tiled : Tiled P) {newCols : Nat} (pos : 0 < newCols)
    {cursor : Nat × Nat} : Guarded False (s.reflowWidth newCols cursor) (·.1.Every P) := by
  refine reflowWidth_cut tiled.blanks ?_
  intro lines _
  refine Guarded.mono (p := fun out => Uniform newCols out.2.1 ∧ ∀ r ∈ out.2.1, P r.cells) ?_
    fun _ => And.right
  refine Guarded.forEach (I := fun (out : Nat × List Row × Option (Nat × Nat)) =>
    Uniform newCols out.2.1 ∧ ∀ r ∈ out.2.1, P r.cells) ⟨nofun, nofun⟩ ?_
  rintro line _ state ⟨uniform, holds⟩
  exact (Guarded.of_yields (rewrapLine_yields pos uniform)).and
    (rewrapLine_laid tiled pos uniform holds)

/-- A resize of rows laid with whole characters, where cutting a row keeps them whole. -/
theorem resize_laid (tiled : Tiled P)
    (cut : ∀ (r : Row) (cols : Nat), P r.cells → P (r.resizeWidth cols).cells) (h : s.Every P)
    {rows cols : Nat} {cursor : Nat × Nat} {reflow : Bool} :
    Guarded False (s.resize rows cols cursor reflow) (·.1.Every P) := by
  have pos : 0 < max cols 1 := Nat.lt_of_lt_of_le Nat.one_pos (Nat.le_max_right _ _)
  refine resize_every tiled.blanks ?_
  exact resizeCols_ways h (reflowWidth_laid tiled pos) fun r holds => cut r _ holds

end Screen

end Posh.Term
