import Mathlib.Data.List.InsertIdx
import Posh.Term.Lines

/-!
What every row of a screen satisfies.

Scrolling, clearing and the height half of a resize only move rows and make blank
ones, so they keep whatever holds of the rows and of blank rows. A property of the
single cells is kept by rewrapping too.
-/

namespace Posh.Term

open Posh.Lib

/-- Every row, the scrollback's included, satisfies `P`. -/
structure Screen.Every (P : List Cell → Prop) (s : Screen) : Prop where
  grid : ∀ r ∈ s.grid, P r.cells
  scrollback : ∀ r ∈ s.scrollback, P r.cells

namespace Screen

variable {P : List Cell → Prop} {s : Screen}

theorem every_new (blank : ∀ n style, P (List.replicate n (Cell.blank style)))
    (rows cols maxScrollback : Nat) : (new rows cols maxScrollback).Every P where
  grid := by
    intro r mem
    rw [List.eq_of_mem_replicate mem]
    exact blank _ _
  scrollback := nofun

theorem Every.withGrid (h : s.Every P) {grid : List Row} (rows : ∀ r ∈ grid, P r.cells) :
    { s with grid }.Every P :=
  ⟨rows, h.scrollback⟩

theorem modifyRow_every (h : s.Every P) {row : Nat} {f : Row → Checked Row}
    (keeps : ∀ r ∈ s.grid, P r.cells → Guarded False (f r) fun r' => P r'.cells) :
    Guarded False (s.modifyRow row f) (·.Every P) := by
  unfold modifyRow
  apply (Guarded.trivial _).bind
  intro last _
  refine (Guarded.getAt.weaken False.elim).bind ?_
  intro old found
  have mem := List.mem_of_getElem? found
  refine (keeps old mem (h.grid old mem)).bind ?_
  intro new holds
  refine .pure (h.withGrid ?_)
  intro r mem
  rcases List.mem_or_eq_of_mem_set mem with old | rfl
  · exact h.grid r old
  · exact holds

/-- The visible rows are rows of the grid. -/
theorem Every.visibleRows (h : s.Every P) :
    Guarded False s.visibleRows fun rows => ∀ r ∈ rows, P r.cells := by
  refine Guarded.mapM fun i _ => ?_
  refine (Guarded.unwrap.weaken False.elim).mono ?_
  intro r found
  exact h.grid r (List.mem_of_getElem? found)

/-- The visible rows are the grid. -/
theorem visibleRows_eq (height : s.grid.length = s.rows) : s.visibleRows = .ok s.grid := by
  unfold visibleRows
  rw [← height, List.range_eq_range']
  exact mapM_getElem? [] s.grid

theorem setWrapped_every (h : s.Every P) {row : Nat} {wrapped : Bool} :
    Guarded False (s.setWrapped row wrapped) (·.Every P) :=
  modifyRow_every h fun _ _ holds => .pure holds

theorem Every.pushScrollback (h : s.Every P) (save : Bool) {row : Row} (holds : P row.cells) :
    (s.pushScrollback save row).Every P := by
  unfold Screen.pushScrollback
  split
  · refine ⟨h.grid, ?_⟩
    intro r mem
    rcases List.mem_append.mp mem with kept | new
    · split at kept
      · exact h.scrollback r (List.mem_of_mem_drop kept)
      · exact h.scrollback r kept
    · rw [List.mem_singleton.mp new]
      exact holds
  · exact h

theorem scrollUp_every (blank : ∀ n style, P (List.replicate n (Cell.blank style)))
    (h : s.Every P) {top bot n : Nat} {save : Bool} {style : Style} :
    Guarded False (s.scrollUp top bot n save style) (·.Every P) := by
  unfold scrollUp
  apply (Guarded.trivial _).bind
  intro last _
  dsimp only
  split
  · exact .pure h
  · refine Guarded.forRange h ?_
    intro i s _ _ h
    refine (Guarded.removeAt.weaken False.elim).bind ?_
    rintro ⟨row, rest⟩ ⟨mem, rfl⟩
    have shorter : ∀ r ∈ s.grid.eraseIdx top, P r.cells :=
      fun r mem => h.grid r (List.mem_of_mem_eraseIdx mem)
    have moved := (h.withGrid shorter).pushScrollback save (h.grid row mem)
    refine (Guarded.insertAt.weaken False.elim).bind ?_
    rintro grid rfl
    refine .pure (moved.withGrid ?_)
    intro r mem
    rcases List.eq_or_mem_of_mem_insertIdx mem with rfl | old
    · exact blank _ _
    · exact moved.grid r old

theorem scrollDown_every (blank : ∀ n style, P (List.replicate n (Cell.blank style)))
    (h : s.Every P) {top bot n : Nat} {style : Style} :
    Guarded False (s.scrollDown top bot n style) (·.Every P) := by
  unfold scrollDown
  apply (Guarded.trivial _).bind
  intro last _
  dsimp only
  split
  · exact .pure h
  · refine Guarded.forRange h ?_
    intro i s _ _ h
    refine (Guarded.removeAt.weaken False.elim).bind ?_
    rintro ⟨row, rest⟩ ⟨_, rfl⟩
    refine (Guarded.insertAt.weaken False.elim).bind ?_
    rintro grid rfl
    refine .pure (h.withGrid ?_)
    intro r mem
    rcases List.eq_or_mem_of_mem_insertIdx mem with rfl | old
    · exact blank _ _
    · exact h.grid r (List.mem_of_mem_eraseIdx old)

theorem Every.clearScrollback (h : s.Every P) : s.clearScrollback.Every P :=
  ⟨h.grid, nofun⟩

theorem Every.clearGrid (blank : ∀ n style, P (List.replicate n (Cell.blank style)))
    (h : s.Every P) (style : Style) : (s.clearGrid style).Every P := by
  refine h.withGrid ?_
  intro r mem
  obtain ⟨_, _, rfl⟩ := List.mem_map.mp mem
  exact blank _ _

/-! ### Resize -/

theorem shrinkPass_every {reflow : Bool} {state : Screen × (Nat × Nat)} (h : state.1.Every P) :
    Guarded False (shrinkPass reflow state) (·.1.Every P) := by
  obtain ⟨s, cursor⟩ := state
  have shorter : { s with grid := s.grid.dropLast }.Every P :=
    h.withGrid fun r mem => h.grid r (List.dropLast_subset _ mem)
  unfold shrinkPass
  apply (Guarded.trivial _).bind
  intro end_ _
  dsimp only
  split
  · exact .pure shorter
  split
  · refine (Guarded.removeAt.weaken False.elim).bind ?_
    rintro ⟨row, rest⟩ ⟨mem, rfl⟩
    refine .pure (Every.pushScrollback (h.withGrid ?_) true (h.grid row mem))
    intro r mem
    exact h.grid r (List.mem_of_mem_eraseIdx mem)
  · exact .pure shorter

theorem growPass_every (blank : ∀ n style, P (List.replicate n (Cell.blank style)))
    {cols : Nat} {reflow : Bool} {state : Screen × (Nat × Nat)} (h : state.1.Every P) :
    (growPass cols reflow state).1.Every P := by
  obtain ⟨s, cursor⟩ := state
  unfold growPass
  dsimp only
  split
  · rename_i row found
    have mem : row ∈ s.scrollback := by
      split at found
      · exact List.mem_of_getLast? found
      · cases found
    refine ⟨?_, fun r mem => h.scrollback r (List.dropLast_subset _ mem)⟩
    intro r inside
    rcases List.mem_cons.mp inside with rfl | old
    · exact h.scrollback _ mem
    · exact h.grid r old
  · refine h.withGrid ?_
    intro r inside
    rcases List.mem_append.mp inside with old | new
    · exact h.grid r old
    · rw [List.mem_singleton.mp new]
      exact blank _ _

/-- A resize keeps what its width half keeps. -/
theorem resize_every (blank : ∀ n style, P (List.replicate n (Cell.blank style)))
    {rows cols : Nat} {cursor : Nat × Nat} {reflow : Bool}
    (width : Guarded False (s.resizeCols (max cols 1) reflow cursor) (·.1.Every P)) :
    Guarded False (s.resize rows cols cursor reflow) (·.1.Every P) := by
  unfold resize
  refine width.bind ?_
  intro state h
  have shrunk : Guarded False (forRange 0 (state.1.grid.length - max rows 1) state fun _ =>
      shrinkPass reflow) (·.1.Every P) :=
    Guarded.forRange h fun _ _ _ _ h => shrinkPass_every h
  refine shrunk.bind ?_
  intro state h
  have grown : Guarded False (forRange 0 (max rows 1 - state.1.grid.length) state fun _ state =>
      return growPass (max cols 1) reflow state) (·.1.Every P) :=
    Guarded.forRange (I := fun (state : Screen × (Nat × Nat)) => state.1.Every P) h fun _ _ _ _ h =>
      .pure (growPass_every blank h)
  refine grown.bind ?_
  rintro ⟨s, cursor⟩ h
  apply (Guarded.trivial _).bind
  intro edge _
  exact .pure ⟨h.grid, h.scrollback⟩

/-! ### Cell by cell -/

/-- Every cell satisfies `Q`. -/
def Cells (Q : Cell → Prop) (cells : List Cell) : Prop :=
  ∀ c ∈ cells, Q c

variable {Q : Cell → Prop}

theorem cells_nil : Cells Q [] :=
  fun _ mem => absurd mem List.not_mem_nil

theorem cells_blank (blank : ∀ style, Q (Cell.blank style)) (n : Nat) (style : Style) :
    Cells Q (List.replicate n (Cell.blank style)) := by
  intro c mem
  rw [List.eq_of_mem_replicate mem]
  exact blank style

theorem Cells.append {a b : List Cell} (ha : Cells Q a) (hb : Cells Q b) : Cells Q (a ++ b) := by
  intro c mem
  rcases List.mem_append.mp mem with left | right
  · exact ha c left
  · exact hb c right

/-- Blanks inserted into a row, each pushing its last cell out. -/
theorem insertBlanks_cells (blank : ∀ style, Q (Cell.blank style)) {cells : List Cell} {n col : Nat}
    {style : Style} (h : Cells Q cells) :
    Guarded False (forRange 0 n cells fun _ cells => insertAt cells.dropLast col (Cell.blank style))
      (Cells Q) := by
  refine Guarded.forRange h ?_
  intro i cells _ _ h
  refine (Guarded.insertAt.weaken False.elim).mono ?_
  rintro _ rfl c mem
  rcases List.eq_or_mem_of_mem_insertIdx mem with rfl | old
  · exact blank style
  · exact h c (List.dropLast_subset _ old)

/-- Cells deleted from a row, with blanks entering at its end. -/
theorem deleteCells_cells (blank : ∀ style, Q (Cell.blank style)) {cells : List Cell} {n col : Nat}
    {style : Style} (h : Cells Q cells) :
    Guarded False (forRange 0 n cells fun _ cells =>
      if col < cells.length then do
        let (_, rest) ← removeAt cells col
        return rest ++ [Cell.blank style]
      else return cells) (Cells Q) := by
  refine Guarded.forRange h ?_
  intro i cells _ _ h
  split
  · refine (Guarded.removeAt.weaken False.elim).bind ?_
    rintro ⟨_, rest⟩ ⟨_, rfl⟩
    refine .pure (Cells.append (fun c mem => h c (List.mem_of_mem_eraseIdx mem)) ?_)
    intro c mem
    rw [List.mem_singleton.mp mem]
    exact blank style
  · exact .pure h

theorem modifyCell_every (h : s.Every (Cells Q)) {row col : Nat} {f : Cell → Cell}
    (keeps : ∀ c, Q c → Q (f c)) : Guarded False (s.modifyCell row col f) (·.Every (Cells Q)) := by
  refine modifyRow_every h ?_
  intro r _ holds
  apply (Guarded.trivial _).bind
  intro last _
  refine (Guarded.getAt.weaken False.elim).bind ?_
  intro old found
  refine .pure ?_
  intro c mem
  rcases List.mem_or_eq_of_mem_set mem with kept | rfl
  · exact holds c kept
  · exact keeps old (holds old (List.mem_of_getElem? found))

/-- What rewrapping has built so far. -/
structure Built (Q : Cell → Prop) (st : Rewrap) : Prop where
  rows : ∀ r ∈ st.newRows, Cells Q r.cells
  cur : Cells Q st.cur

theorem Built.flush {st : Rewrap} (h : Built Q st) : Built Q st.flush := by
  refine ⟨?_, cells_nil⟩
  intro r mem
  rcases List.mem_append.mp mem with old | new
  · exact h.rows r old
  · rw [List.mem_singleton.mp new]
    exact h.cur

theorem Built.flushFull {st : Rewrap} (h : Built Q st) (width : Nat) (more : Bool) :
    Built Q (st.flushFull width more) := by
  unfold Rewrap.flushFull
  split
  · exact h.flush
  · exact h

theorem Built.push {st : Rewrap} (h : Built Q st) {cells : List Cell} (holds : Cells Q cells) :
    Built Q { st with cur := st.cur ++ cells } :=
  ⟨h.rows, h.cur.append holds⟩

theorem Built.makeRoom (blank : ∀ style, Q (Cell.blank style)) {st : Rewrap} (h : Built Q st)
    (width w : Nat) : Built Q (Screen.makeRoom width w st) := by
  unfold Screen.makeRoom
  split
  · exact (h.push (cells_blank blank _ {})).flush
  · exact h

theorem Built.placed {st : Rewrap} (h : Built Q st) (col : Nat) : Built Q (st.placeCursor col) :=
  ⟨h.rows, h.cur⟩

theorem Built.follow {st : Rewrap} (h : Built Q st) (cursorOff : Option Nat) (j w : Nat) :
    Built Q (followCursor cursorOff j w st) := by
  unfold followCursor
  split
  · split
    · exact h.placed _
    · exact h
  · exact h

theorem Built.spacer {st : Rewrap} (h : Built Q st) {width j : Nat} {cursorOff : Option Nat} :
    Guarded False (rewrapSpacer width cursorOff j st) (Built Q) := by
  unfold rewrapSpacer
  split
  · apply (Guarded.trivial _).bind
    intro last _
    exact .pure (h.placed _)
  · exact .pure h

theorem Built.unfit (blank : ∀ style, Q (Cell.blank style)) {st : Rewrap} (h : Built Q st)
    {width j : Nat} {cursorOff : Option Nat} {more : Bool} :
    Built Q (rewrapUnfit width cursorOff j more st) := by
  have placed : Built Q (if cursorOff = some j ∨ cursorOff = some (j + 1) then
      st.placeCursor st.cur.length else st) := by
    split
    · exact h.placed _
    · exact h
  refine Built.flushFull (placed.push ?_) width more
  intro c mem
  rw [List.mem_singleton.mp mem]
  exact blank {}

theorem Built.head (blank : ∀ style, Q (Cell.blank style)) (spacer : ∀ c, Q c → Q c.spacer)
    {st : Rewrap} (h : Built Q st) {width j : Nat} {cursorOff : Option Nat} {cell : Cell}
    (holds : Q cell) {more : Bool} : Built Q (rewrapHead width cursorOff j cell more st) := by
  refine Built.flushFull (((h.makeRoom blank width _).follow cursorOff j _).push ?_) width more
  split
  · intro c mem
    rcases List.mem_cons.mp mem with rfl | mem
    · exact holds
    · rw [List.mem_singleton.mp mem]
      exact spacer _ holds
  · intro c mem
    rw [List.mem_singleton.mp mem]
    exact holds

theorem rewrapCells_built (blank : ∀ style, Q (Cell.blank style)) (spacer : ∀ c, Q c → Q c.spacer)
    {width : Nat} {cursorOff : Option Nat} {cells : List Cell} (holds : Cells Q cells) {j : Nat}
    {skip : Bool} {st : Rewrap} (h : Built Q st) :
    Guarded False (rewrapCells width cursorOff cells j skip st) (Built Q) := by
  induction cells generalizing j skip st with
  | nil => exact .pure h
  | cons cell rest ih =>
    have more : Cells Q rest := fun c mem => holds c (List.mem_cons_of_mem _ mem)
    cases skip with
    | true => exact ih more h
    | false =>
      unfold rewrapCells
      dsimp only
      split
      · exact h.spacer.bind fun _ h => ih more h
      split
      · exact ih more (h.unfit blank)
      · exact ih more (h.head blank spacer (holds cell List.mem_cons_self))

theorem cells_lineCells {line : List Row} (h : ∀ r ∈ line, Cells Q r.cells) :
    Cells Q (lineCells line) := by
  intro c mem
  obtain ⟨r, inside, mem⟩ := List.mem_flatMap.mp mem
  exact h r inside c mem

theorem rewrapLine_every (blank : ∀ style, Q (Cell.blank style)) (spacer : ∀ c, Q c → Q c.spacer)
    {width cursorAbs cursorCol : Nat} {line : List Row} (holds : ∀ r ∈ line, Cells Q r.cells)
    {state : Nat × List Row × Option (Nat × Nat)} (h : ∀ r ∈ state.2.1, Cells Q r.cells) :
    Guarded False (rewrapLine width cursorAbs cursorCol line state) fun out =>
      ∀ r ∈ out.2.1, Cells Q r.cells := by
  obtain ⟨i, newRows, newCursor⟩ := state
  have trimmed : Cells Q (trimLine (lineCursor cursorAbs cursorCol i line) (lineCells line)) :=
    fun c mem => cells_lineCells holds c (List.mem_of_mem_take mem)
  unfold rewrapLine
  dsimp only
  have started : Built Q { newRows, newCursor } := ⟨h, cells_nil⟩
  refine (rewrapCells_built blank spacer trimmed started).bind ?_
  intro st built
  have rows : ∀ r ∈ st.newRows ++ [st.lastRow width], Cells Q r.cells := by
    intro r mem
    rcases List.mem_append.mp mem with old | new
    · exact built.rows r old
    · rw [List.mem_singleton.mp new]
      exact fun c mem => (built.cur.append (cells_blank blank _ {})) c (List.mem_of_mem_take mem)
  refine (Guarded.getAt.weaken False.elim).bind ?_
  intro first found
  refine (Guarded.setAt.weaken False.elim).bind ?_
  rintro marked rfl
  have marked : ∀ r ∈ (st.newRows ++ [st.lastRow width]).set newRows.length
      { first with mark := lineMark line }, Cells Q r.cells := by
    intro r mem
    rcases List.mem_or_eq_of_mem_set mem with old | rfl
    · exact rows r old
    · exact rows first (List.mem_of_getElem? found)
  split
  · apply (Guarded.trivial _).bind
    intro last _
    apply (Guarded.trivial _).bind
    intro lastRow _
    apply (Guarded.trivial _).bind
    intro edge _
    exact .pure marked
  · exact .pure marked

theorem mem_dropBlankRows {r : Row} : ∀ {budget : Nat} {old : List Row},
    r ∈ dropBlankRows budget old → r ∈ old
  | 0, _, mem => mem
  | budget + 1, old, mem => by
    unfold dropBlankRows at mem
    split at mem
    · split at mem
      · exact List.dropLast_subset _ (mem_dropBlankRows mem)
      · exact mem
    · exact mem

theorem mem_logicalLines {r : Row} {line : List Row} {rows : List Row}
    (inside : line ∈ logicalLines rows) (mem : r ∈ line) : r ∈ rows := by
  rw [← flatten_logicalLines rows]
  exact List.mem_flatten.mpr ⟨line, inside, mem⟩

/-- The screen is cut from the rewrapped rows, and filled up with blank ones. -/
theorem reflowWidth_cut {P : List Cell → Prop} (blank : ∀ n style, P (List.replicate n (Cell.blank style)))
    {newCols : Nat} {cursor : Nat × Nat}
    (rewrapped : ∀ lines : List (List Row), (∀ line ∈ lines, ∀ r ∈ line, r ∈ s.scrollback ++ s.grid) →
      Guarded False (forEach lines (0, [], none)
        (rewrapLine newCols (s.scrollback.length + cursor.1) cursor.2)) fun out =>
          ∀ r ∈ out.2.1, P r.cells) :
    Guarded False (s.reflowWidth newCols cursor) (·.1.Every P) := by
  unfold reflowWidth
  dsimp only
  refine (rewrapped _ fun line inside r mem =>
    mem_dropBlankRows (mem_logicalLines inside mem)).bind ?_
  rintro ⟨_, newRows, newCursor⟩ rows
  dsimp only
  generalize newCursor.getD (0, 0) = place
  have kept : ∀ r ∈ (if place.1 < newRows.length - s.rows then newRows.take (place.1 + s.rows)
      else newRows), P r.cells := by
    intro r mem
    split at mem
    · exact rows r (List.mem_of_mem_take mem)
    · exact rows r mem
  generalize (if place.1 < newRows.length - s.rows then newRows.take (place.1 + s.rows)
      else newRows) = kept_ at kept ⊢
  generalize (if place.1 < newRows.length - s.rows then place.1 else newRows.length - s.rows) = start
  split
  · exact .error id
  · apply (Guarded.trivial _).bind
    intro row _
    refine .pure ⟨?_, ?_⟩
    · intro r mem
      rcases List.mem_append.mp mem with old | new
      · exact kept r (List.mem_of_mem_drop old)
      · rw [List.eq_of_mem_replicate new]
        exact blank _ _
    · intro r mem
      exact kept r (List.mem_of_mem_take (List.mem_of_mem_drop mem))

theorem reflowWidth_every (blank : ∀ style, Q (Cell.blank style)) (spacer : ∀ c, Q c → Q c.spacer)
    (h : s.Every (Cells Q)) {newCols : Nat} {cursor : Nat × Nat} :
    Guarded False (s.reflowWidth newCols cursor) (·.1.Every (Cells Q)) := by
  refine reflowWidth_cut (cells_blank blank) ?_
  intro lines text
  refine Guarded.forEach (I := fun (out : Nat × List Row × Option (Nat × Nat)) =>
    ∀ r ∈ out.2.1, Cells Q r.cells) (fun _ mem => absurd mem List.not_mem_nil) ?_
  intro line inside state holds
  refine rewrapLine_every blank spacer ?_ holds
  intro r mem
  rcases List.mem_append.mp (text line inside r mem) with old | new
  · exact h.scrollback r old
  · exact h.grid r new

theorem resizeWidth_cells (blank : ∀ style, Q (Cell.blank style)) {r : Row} (h : Cells Q r.cells)
    (cols : Nat) : Cells Q (r.resizeWidth cols).cells := by
  have cut : Cells Q (r.cells.take cols) := fun c mem => h c (List.mem_of_mem_take mem)
  unfold Row.resizeWidth
  split
  · dsimp only
    split
    · split
      · refine Cells.append (fun c mem => cut c (List.dropLast_subset _ mem)) ?_
        intro c mem
        rw [List.mem_singleton.mp mem]
        exact blank {}
      · exact cut
    · exact cut
  · exact h.append (cells_blank blank _ {})

/-- The width half of a resize, by the two ways to do it. -/
theorem resizeCols_ways {P : List Cell → Prop} (h : s.Every P) {cols : Nat} {reflow : Bool}
    {cursor : Nat × Nat} (rewrap : Guarded False (s.reflowWidth cols cursor) (·.1.Every P))
    (cut : ∀ r : Row, P r.cells → P (r.resizeWidth cols).cells) :
    Guarded False (s.resizeCols cols reflow cursor) (·.1.Every P) := by
  unfold resizeCols
  split
  · exact .pure h
  have resized : Guarded False (if reflow then s.reflowWidth cols cursor
      else pure ({ s with
        grid := s.grid.map (Row.resizeWidth cols),
        scrollback := s.scrollback.map (Row.resizeWidth cols), cols }, cursor))
      (·.1.Every P) := by
    split
    · exact rewrap
    · refine .pure ⟨?_, ?_⟩
      · intro r mem
        obtain ⟨old, inside, rfl⟩ := List.mem_map.mp mem
        exact cut old (h.grid old inside)
      · intro r mem
        obtain ⟨old, inside, rfl⟩ := List.mem_map.mp mem
        exact cut old (h.scrollback old inside)
  refine resized.bind ?_
  rintro ⟨s', cursor'⟩ h'
  apply (Guarded.trivial _).bind
  intro edge _
  exact .pure h'

theorem resizeCols_every (blank : ∀ style, Q (Cell.blank style)) (spacer : ∀ c, Q c → Q c.spacer)
    (h : s.Every (Cells Q)) {cols : Nat} {reflow : Bool} {cursor : Nat × Nat} :
    Guarded False (s.resizeCols cols reflow cursor) (·.1.Every (Cells Q)) :=
  resizeCols_ways h (reflowWidth_every blank spacer h) fun _ holds =>
    resizeWidth_cells blank holds cols

end Screen

end Posh.Term
