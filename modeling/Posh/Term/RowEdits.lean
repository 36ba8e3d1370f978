import Posh.Term.Rows
import Posh.Term.Sound

/-!
Edits of one row.

What a control writes to one row of the active screen is a function of the row's cells: the
terminal after it is the one before with these cells in their place. Edits of the same row
make one edit, so that a loop over its columns is a function of its cells too.
-/

namespace Posh.Term

open Posh.Lib

/-! ### Rows of a screen -/

namespace Screen

variable {P : List Cell → Prop} {s : Screen} {rows cols row : Nat} {cells cells' : List Cell}

/-- The cells of a row of the grid. -/
def cellsAt (row : Nat) (s : Screen) : List Cell :=
  (s.grid[row]?.map (·.cells)).getD []

/-- The screen with other cells in a row of the grid. -/
def withCells (row : Nat) (cells : List Cell) (s : Screen) : Screen :=
  { s with grid := s.grid.modify row fun r => { r with cells } }

theorem cellsAt_of_getElem? {r : Row} (found : s.grid[row]? = some r) : s.cellsAt row = r.cells := by
  unfold cellsAt
  rw [found]
  rfl

theorem cellsAt_withCells (inside : row < s.grid.length) :
    (s.withCells row cells).cellsAt row = cells := by
  unfold cellsAt withCells
  dsimp only
  rw [List.getElem?_modify_eq, List.getElem?_eq_getElem inside]
  rfl

theorem cellsAt_withCells_ne {other : Nat} (ne : row ≠ other) :
    (s.withCells row cells).cellsAt other = s.cellsAt other := by
  unfold cellsAt withCells
  dsimp only
  rw [List.getElem?_modify_ne _ _ ne]

theorem withCells_withCells : (s.withCells row cells).withCells row cells' = s.withCells row cells' := by
  unfold withCells
  dsimp only
  rw [List.modify_modify_eq]
  rfl

theorem withCells_cellsAt : s.withCells row (s.cellsAt row) = s := by
  have same : s.grid.modify row (fun r => { r with cells := s.cellsAt row }) = s.grid := by
    apply List.ext_getElem?
    intro i
    rw [List.getElem?_modify]
    split
    · rename_i here
      subst here
      cases found : s.grid[row]? with
      | none => rfl
      | some r =>
        rw [Option.map_eq_map, Option.map_some, cellsAt_of_getElem? found]
    · exact id_map _
  unfold withCells
  rw [same]

theorem Sized.withCells (h : s.Sized rows cols) (width : cells.length = cols) :
    (s.withCells row cells).Sized rows cols := by
  refine h.withGrid (by rw [List.length_modify, h.height]) ?_
  intro r mem
  obtain ⟨i, found⟩ := List.mem_iff_getElem?.mp mem
  rw [List.getElem?_modify] at found
  obtain ⟨old, isOld, rfl⟩ := Option.map_eq_some_iff.mp found
  have inside := h.grid old (List.mem_of_getElem? isOld)
  split
  · exact width
  · exact inside

theorem length_cellsAt (h : s.Sized rows cols) (inside : row < rows) :
    (s.cellsAt row).length = cols := by
  have found := List.getElem?_eq_getElem (h.height.symm ▸ inside : row < s.grid.length)
  rw [cellsAt_of_getElem? found]
  exact h.grid _ (List.mem_of_getElem? found)

theorem Every.cellsAt (h : s.Every P) (inside : row < s.grid.length) : P (s.cellsAt row) := by
  have found := List.getElem?_eq_getElem inside
  rw [cellsAt_of_getElem? found]
  exact h.grid _ (List.mem_of_getElem? found)

theorem Every.withCells (h : s.Every P) (holds : P cells) : (s.withCells row cells).Every P := by
  refine h.withGrid ?_
  intro r mem
  obtain ⟨i, found⟩ := List.mem_iff_getElem?.mp mem
  rw [List.getElem?_modify] at found
  obtain ⟨old, isOld, rfl⟩ := Option.map_eq_some_iff.mp found
  split
  · exact holds
  · exact h.grid old (List.mem_of_getElem? isOld)

/-- A write to a row that changes its cells. -/
theorem modifyRow_eq (h : s.Sized rows cols) (inside : row < rows)
    (f : List Cell → Checked (List Cell)) :
    (s.modifyRow row fun r => do
      let cells ← f r.cells
      return { r with cells }) =
      f (s.cellsAt row) >>= fun cells => return s.withCells row cells := by
  have height := h.height
  have within : row < s.grid.length := by omega
  have found := List.getElem?_eq_getElem within
  have index : min row (s.grid.length - 1) = row := by omega
  unfold modifyRow
  rw [cellsAt_of_getElem? found]
  have last : sub s.grid.length 1 = .ok (s.grid.length - 1) := if_pos (by omega)
  have read : getAt s.grid row = .ok s.grid[row] := by
    unfold getAt
    rw [found]
  rw [last]
  change (getAt s.grid (min row (s.grid.length - 1)) >>= _) = _
  rw [index, read]
  change ((f s.grid[row].cells >>= _) >>= _) = _
  rw [bind_assoc]
  refine congrArg _ (funext fun cells => ?_)
  change Except.ok _ = Except.ok _
  unfold withCells
  rw [List.modify_eq_set_getElem? , found]
  rfl

theorem modifyCell_eq (h : s.Sized rows cols) (inside : row < rows) {col : Nat} (within : col < cols)
    (f : Cell → Cell) :
    s.modifyCell row col f = .ok (s.withCells row ((s.cellsAt row).modify col f)) := by
  have width := length_cellsAt h inside
  have cols_eq := h.cols_eq
  have inside' : col < (s.cellsAt row).length := by omega
  have found := List.getElem?_eq_getElem inside'
  have last : sub s.cols 1 = .ok (s.cols - 1) := if_pos (by omega)
  have index : min col (s.cols - 1) = col := by omega
  have read : getAt (s.cellsAt row) col = .ok (s.cellsAt row)[col] := by
    unfold getAt
    rw [found]
  have edit : s.modifyCell row col f = s.modifyRow row fun r => do
      let cells ← (do
        let old ← getAt r.cells col
        return r.cells.set col (f old))
      return { r with cells } := by
    unfold modifyCell
    rw [last]
    refine congrArg (s.modifyRow row) (funext fun r => ?_)
    change (getAt r.cells (min col (s.cols - 1)) >>= _) = _
    rw [index]
    cases getAt r.cells col <;> rfl
  rw [edit, modifyRow_eq h inside fun cells => do
    let old ← getAt cells col
    return cells.set col (f old), read]
  change Except.ok _ = Except.ok _
  rw [List.modify_eq_set_getElem?, found]
  rfl

/-- The cells `lo..hi`, each changed. -/
def changed (lo hi : Nat) (f : Cell → Cell) (cells : List Cell) : List Cell :=
  cells.mapIdx fun i c => if lo ≤ i ∧ i < hi then f c else c

theorem length_changed (lo hi : Nat) (f : Cell → Cell) (cells : List Cell) :
    (changed lo hi f cells).length = cells.length :=
  List.length_mapIdx

theorem changed_self (lo : Nat) (f : Cell → Cell) (cells : List Cell) :
    changed lo lo f cells = cells := by
  apply List.ext_getElem?
  intro i
  unfold changed
  rw [List.getElem?_mapIdx]
  cases cells[i]? with
  | none => rfl
  | some c =>
    rw [Option.map_some, if_neg (by omega)]

/-- All of them, into one cell. -/
theorem changed_all (c : Cell) (cells : List Cell) :
    changed 0 cells.length (fun _ => c) cells = List.replicate cells.length c := by
  apply List.ext_getElem?
  intro i
  unfold changed
  rw [List.getElem?_mapIdx, List.getElem?_replicate]
  by_cases inside : i < cells.length
  · rw [List.getElem?_eq_getElem inside, Option.map_some, if_pos ⟨Nat.zero_le i, inside⟩,
      if_pos inside]
  · rw [List.getElem?_eq_none (Nat.not_lt.mp inside), if_neg inside]
    rfl

theorem changed_succ {lo hi : Nat} (le : lo ≤ hi) (f : Cell → Cell) (cells : List Cell) :
    (changed lo hi f cells).modify hi f = changed lo (hi + 1) f cells := by
  apply List.ext_getElem?
  intro i
  unfold changed
  rw [List.getElem?_modify, List.getElem?_mapIdx, List.getElem?_mapIdx]
  cases cells[i]? with
  | none => rfl
  | some c =>
    simp only [Option.map_eq_map, Option.map_some]
    grind

end Screen

/-! ### Rows of a terminal -/

namespace Terminal

open Screen

variable {K : Parser → GraphicsState → Prop} {rows cols row col : Nat} {t : Terminal}
  {cells cells' : List Cell} {P : List Cell → Prop}

/-- The cells of a row of the active screen. -/
def rowCells (row : Nat) (t : Terminal) : List Cell :=
  t.scr.cellsAt row

/-- The terminal with other cells in a row of the active screen. -/
def withCells (row : Nat) (cells : List Cell) (t : Terminal) : Terminal :=
  if t.altActive then { t with alt := t.alt.withCells row cells }
  else { t with primary := t.primary.withCells row cells }

@[simp] theorem cursor_withCells : (t.withCells row cells).cursor = t.cursor := by
  unfold withCells
  split <;> rfl

@[simp] theorem modes_withCells : (t.withCells row cells).modes = t.modes := by
  unfold withCells
  split <;> rfl

@[simp] theorem altActive_withCells : (t.withCells row cells).altActive = t.altActive := by
  unfold withCells
  split <;> rfl

@[simp] theorem cols_withCells : (t.withCells row cells).cols = t.cols := by
  unfold withCells
  split <;> rfl

@[simp] theorem blankStyle_withCells : (t.withCells row cells).blankStyle = t.blankStyle := by
  unfold blankStyle
  rw [cursor_withCells]

theorem scr_withCells : (t.withCells row cells).scr = t.scr.withCells row cells := by
  unfold withCells scr
  by_cases alt : t.altActive = true
  · simp only [if_pos alt]
  · simp only [if_neg alt]

theorem withCells_withCells : (t.withCells row cells).withCells row cells' = t.withCells row cells' := by
  unfold withCells
  by_cases alt : t.altActive = true
  · simp only [if_pos alt, Screen.withCells_withCells]
  · simp only [if_neg alt, Screen.withCells_withCells]

theorem withCells_rowCells : t.withCells row (t.rowCells row) = t := by
  unfold withCells rowCells scr
  by_cases alt : t.altActive = true
  · simp only [if_pos alt, Screen.withCells_cellsAt]
  · simp only [if_neg alt, Screen.withCells_cellsAt]

theorem rowCells_withCells (h : t.Sound K rows cols) (inside : row < rows) :
    (t.withCells row cells).rowCells row = cells := by
  unfold rowCells
  rw [scr_withCells, cellsAt_withCells]
  rw [h.scr.height]
  exact inside

theorem rowCells_withCells_ne {other : Nat} (ne : row ≠ other) :
    (t.withCells row cells).rowCells other = t.rowCells other := by
  unfold rowCells
  rw [scr_withCells, cellsAt_withCells_ne ne]

theorem getElem?_rowCells (row col : Nat) (t : Terminal) :
    (t.rowCells row)[col]? = t.scr.cell row col := by
  unfold rowCells cellsAt cell
  cases t.scr.grid[row]? with
  | none => rfl
  | some r => rfl

theorem length_rowCells (h : t.Sound K rows cols) (inside : row < rows) :
    (t.rowCells row).length = cols :=
  length_cellsAt h.scr inside

theorem Sound.withCells (h : t.Sound K rows cols) (width : cells.length = cols) :
    (t.withCells row cells).Sound K rows cols := by
  unfold Terminal.withCells
  split
  · exact { h with alt := h.alt.withCells width }
  · exact { h with primary := h.primary.withCells width }

theorem modifyScr_eq {f : Screen → Checked Screen} {f' : Checked (List Cell)}
    (same : f t.scr = f' >>= fun cells => return t.scr.withCells row cells) :
    t.modifyScr f = f' >>= fun cells => return t.withCells row cells := by
  unfold modifyScr
  rw [same, bind_assoc]
  refine congrArg _ (funext fun cells => ?_)
  change Except.ok _ = Except.ok _
  unfold scr Terminal.withCells
  by_cases alt : t.altActive = true
  · simp only [if_pos alt]
  · simp only [if_neg alt]

/-- A write to a row changes its cells. -/
theorem modifyRow_eq (h : t.Sound K rows cols) (inside : row < rows)
    (f : List Cell → Checked (List Cell)) :
    t.modifyScr (·.modifyRow row fun r => do
      let cells ← f r.cells
      return { r with cells }) =
      f (t.rowCells row) >>= fun cells => return t.withCells row cells :=
  modifyScr_eq (Screen.modifyRow_eq h.scr inside f)

/-- What holds of the cells of every row after a change of the active screen. -/
theorem modifyScr_rowCells {f : Screen → Checked Screen} {r : Nat → Prop}
    (same : Guarded False (f t.scr) fun s => ∀ row, r row → s.cellsAt row = t.scr.cellsAt row) :
    Guarded False (t.modifyScr f) fun t' => ∀ row, r row → t'.rowCells row = t.rowCells row := by
  refine same.bind ?_
  intro s same
  refine .pure ?_
  intro row holds
  rw [← show s.cellsAt row = t.rowCells row from same row holds]
  unfold rowCells scr
  by_cases alt : t.altActive = true
  · simp only [if_pos alt]
  · simp only [if_neg alt]

/-- A write to a row leaves the other rows. -/
theorem modifyRow_others {row : Nat} (inside : row < t.scr.grid.length) (f : Row → Checked Row) :
    Guarded False (t.modifyScr (·.modifyRow row f)) fun t' =>
      ∀ other, row ≠ other → t'.rowCells other = t.rowCells other := by
  refine modifyScr_rowCells ?_
  refine (Guarded.sub.weaken False.elim).bind ?_
  rintro last ⟨rfl, _⟩
  apply (Guarded.trivial _).bind
  intro old _
  apply (Guarded.trivial _).bind
  intro new _
  refine .pure ?_
  intro other ne
  have index : min row (t.scr.grid.length - 1) = row := by omega
  unfold cellsAt
  dsimp only
  rw [index, List.getElem?_set_ne ne]

/-- A wrap flag is no cell. -/
theorem setWrapped_rowCells (row : Nat) (wrapped : Bool) (t : Terminal) :
    Guarded False (t.modifyScr (·.setWrapped row wrapped)) fun t' =>
      ∀ other, t'.rowCells other = t.rowCells other := by
  refine (modifyScr_rowCells (r := fun _ => True) ?_).mono fun _ same other => same other trivial
  apply (Guarded.trivial _).bind
  intro last _
  refine (Guarded.getAt.weaken False.elim).bind ?_
  intro old found
  refine .pure ?_
  intro other _
  unfold cellsAt
  dsimp only
  rw [List.getElem?_set]
  split
  · rename_i here
    rw [← here, found, if_pos (List.getElem?_eq_some_iff.mp found).1]
    rfl
  · rfl

theorem modifyCell_eq (h : t.Sound K rows cols) (inside : row < rows) (within : col < cols)
    (f : Cell → Cell) :
    t.modifyScr (·.modifyCell row col f) = .ok (t.withCells row ((t.rowCells row).modify col f)) := by
  have edited : t.scr.modifyCell row col f =
      (.ok ((t.rowCells row).modify col f) : Checked (List Cell)) >>= fun cells =>
        return t.scr.withCells row cells :=
    Screen.modifyCell_eq h.scr inside within f
  exact modifyScr_eq edited

/-- Cells of a row changed one after the other. -/
theorem modifyCells_eq (h : t.Sound K rows cols) (inside : row < rows) {lo hi : Nat} (le : lo ≤ hi)
    (within : hi ≤ cols) (f : Cell → Cell) :
    (forRange lo hi t fun c t => t.modifyScr (·.modifyCell row c f)) =
      .ok (t.withCells row (changed lo hi f (t.rowCells row))) := by
  have width := length_rowCells h inside
  have loop : Yields (forRange lo hi t fun c t => t.modifyScr (·.modifyCell row c f)) fun t' =>
      t' = t.withCells row (changed lo hi f (t.rowCells row)) := by
    refine Yields.forRange_index (I := fun c t' =>
      t' = t.withCells row (changed lo c f (t.rowCells row))) le ?_ ?_
    · rw [changed_self, withCells_rowCells]
    · rintro c _ from_ to_ rfl
      have sound : (t.withCells row (changed lo c f (t.rowCells row))).Sound K rows cols :=
        h.withCells (by rw [length_changed, width])
      rw [modifyCell_eq sound inside (by omega), rowCells_withCells h inside, withCells_withCells,
        changed_succ from_]
      exact .ok rfl
  obtain ⟨_, eq, rfl⟩ := loop
  exact eq

theorem setCells_eq (h : t.Sound K rows cols) (inside : row < rows) {lo hi : Nat} (le : lo ≤ hi)
    (within : hi ≤ cols) (c : Cell) :
    (forRange lo hi t fun i t => t.modifyScr (·.setCell row i c)) =
      .ok (t.withCells row (changed lo hi (fun _ => c) (t.rowCells row))) :=
  modifyCells_eq h inside le within fun _ => c

theorem setCell_eq (h : t.Sound K rows cols) (inside : row < rows) (within : col < cols) (c : Cell) :
    t.modifyScr (·.setCell row col c) = .ok (t.withCells row ((t.rowCells row).set col c)) := by
  have width := length_rowCells h inside
  have found : (t.rowCells row)[col]? = some ((t.rowCells row).get ⟨col, by omega⟩) :=
    List.getElem?_eq_getElem _
  have written : (t.rowCells row).modify col (fun _ => c) = (t.rowCells row).set col c := by
    rw [List.modify_eq_set_getElem?, found]
    rfl
  rw [← written]
  exact modifyCell_eq h inside within fun _ => c

/-! ### Every row -/

/-- Every row of either screen satisfies `P`. -/
structure EveryRow (P : List Cell → Prop) (t : Terminal) : Prop where
  primary : t.primary.Every P
  alt : t.alt.Every P

/-- Shown or scrolled off, on either screen. -/
theorem EveryRow.every (h : t.EveryRow P) : ∀ row ∈
    (t.primary.grid ++ t.primary.scrollback) ++ (t.alt.grid ++ t.alt.scrollback), P row.cells := by
  intro row mem
  rcases List.mem_append.mp mem with primary | alt
  · rcases List.mem_append.mp primary with shown | gone
    · exact h.primary.grid row shown
    · exact h.primary.scrollback row gone
  · rcases List.mem_append.mp alt with shown | gone
    · exact h.alt.grid row shown
    · exact h.alt.scrollback row gone

theorem EveryRow.scr (h : t.EveryRow P) : t.scr.Every P := by
  unfold Terminal.scr
  split
  · exact h.alt
  · exact h.primary

theorem EveryRow.rowCells (h : t.EveryRow P) (sound : t.Sound K rows cols) (inside : row < rows) :
    P (t.rowCells row) :=
  h.scr.cellsAt (sound.scr.height.symm ▸ inside)

theorem EveryRow.withCells (h : t.EveryRow P) (holds : P cells) :
    (t.withCells row cells).EveryRow P := by
  unfold Terminal.withCells
  split
  · exact ⟨h.primary, h.alt.withCells holds⟩
  · exact ⟨h.primary.withCells holds, h.alt⟩

theorem modifyScr_everyRow (h : t.EveryRow P) {f : Screen → Checked Screen}
    (keeps : Guarded False (f t.scr) (·.Every P)) :
    Guarded False (t.modifyScr f) (·.EveryRow P) := by
  refine keeps.bind ?_
  intro s every
  refine .pure ?_
  split
  · exact ⟨h.primary, every⟩
  · exact ⟨every, h.alt⟩

end Terminal

end Posh.Term
