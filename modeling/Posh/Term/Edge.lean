import Posh.Term.Sound
import Posh.Term.Tiles

/-!
No row ends in a wide character.

The spacer of a wide character is in the column after it, so that no wide character is in
the last column. Inserting cells may push one there; the repair of the row blanks it.
-/

namespace Posh.Term

open Posh.Lib

/-- The row does not end in a wide character. -/
def Edge (cells : List Cell) : Prop :=
  ∀ c ∈ cells.getLast?, c.width ≠ 2

theorem edge_nil : Edge [] := by
  intro c last
  cases last

theorem edge_concat {c : Cell} (narrow : c.width ≠ 2) (cells : List Cell) : Edge (cells ++ [c]) := by
  intro c' last
  rw [List.getLast?_concat] at last
  cases last
  exact narrow

theorem edge_replicate {c : Cell} (narrow : c.width ≠ 2) (n : Nat) : Edge (List.replicate n c) := by
  intro c' last
  rw [List.eq_of_mem_replicate (List.mem_of_getLast? last)]
  exact narrow

theorem edge_blanks (n : Nat) (style : Style) : Edge (List.replicate n (Cell.blank style)) :=
  edge_replicate (show (1 : Nat) ≠ 2 by decide) n

theorem Edge.append {a b : List Cell} (ha : Edge a) (hb : Edge b) : Edge (a ++ b) := by
  intro c last
  rw [List.getLast?_append] at last
  cases found : b.getLast? with
  | none =>
    rw [found] at last
    exact ha c last
  | some c' =>
    rw [found] at last
    cases last
    exact hb c found

/-- A write elsewhere, or of a narrow cell. -/
theorem Edge.set {cells : List Cell} (h : Edge cells) {i : Nat} {c : Cell}
    (narrow : i + 1 = cells.length → c.width ≠ 2) : Edge (cells.set i c) := by
  intro c' last
  rw [List.getLast?_eq_getElem?, List.length_set] at last
  by_cases here : i = cells.length - 1
  · obtain ⟨inside, same⟩ := List.getElem?_eq_some_iff.mp last
    rw [List.length_set] at inside
    subst here
    rw [List.getElem_set_self] at same
    rw [← same]
    exact narrow (by omega)
  · rw [List.getElem?_set_ne here] at last
    refine h c' ?_
    rw [List.getLast?_eq_getElem?]
    exact last

/-- The last cell is at the last column. -/
theorem edge_of_getElem {cells : List Cell} {cols : Nat} (length : cells.length = cols)
    (narrow : ∀ c, cells[cols - 1]? = some c → c.width ≠ 2) : Edge cells := by
  intro c last
  rw [List.getLast?_eq_getElem?, length] at last
  exact narrow c last

namespace Screen

variable {s : Screen}

/-! ### Writes -/

theorem modifyCell_edge (h : s.Every Edge) {row col : Nat} {f : Cell → Cell}
    (keeps : ∀ c : Cell, c.width ≠ 2 → (f c).width ≠ 2) :
    Guarded False (s.modifyCell row col f) (·.Every Edge) := by
  refine modifyRow_every h ?_
  intro r _ edge
  apply (Guarded.trivial _).bind
  intro last _
  refine (Guarded.getAt.weaken False.elim).bind ?_
  intro old found
  refine .pure (edge.set fun atEnd => keeps old (edge old ?_))
  rw [List.getLast?_eq_getElem?, ← atEnd]
  exact found

theorem setCell_edge (h : s.Every Edge) {row col : Nat} {c : Cell} (narrow : c.width ≠ 2) :
    Guarded False (s.setCell row col c) (·.Every Edge) :=
  modifyCell_edge h fun _ _ => narrow

/-- A write of one cell is a write to its row. -/
theorem setCell_spec (row col : Nat) (c : Cell) (s : Screen) :
    Guarded False (s.setCell row col c) fun s' => ∃ r,
      s.grid[min row (s.grid.length - 1)]? = some r ∧ min col (s.cols - 1) < r.cells.length ∧
      s' = { s with grid := s.grid.set (min row (s.grid.length - 1)) { r with
        cells := r.cells.set (min col (s.cols - 1)) c } } := by
  refine (Guarded.sub.weaken False.elim).bind ?_
  rintro last ⟨rfl, _⟩
  refine (Guarded.getAt.weaken False.elim).bind ?_
  intro r found
  refine Guarded.bind (p := fun r' => min col (s.cols - 1) < r.cells.length ∧
    r' = { r with cells := r.cells.set (min col (s.cols - 1)) c }) ?_ ?_
  · refine (Guarded.sub.weaken False.elim).bind ?_
    rintro last ⟨rfl, _⟩
    refine (Guarded.getAt.weaken False.elim).bind ?_
    intro old inside
    exact .pure ⟨(List.getElem?_eq_some_iff.mp inside).1, rfl⟩
  · rintro _ ⟨inside, rfl⟩
    exact .pure ⟨r, found, inside, rfl⟩

/-- A wide character and its spacer: where the character ends the row, the spacer is
written over it. -/
theorem setWide_edge (h : s.Every Edge) {row col : Nat} {head : Cell} :
    Guarded False (s.setCell row col head >>= fun s => s.setCell row (col + 1) head.spacer)
      (·.Every Edge) := by
  refine (setCell_spec row col head s).bind ?_
  rintro _ ⟨r, found, inside, rfl⟩
  refine (setCell_spec row (col + 1) head.spacer _).mono ?_
  rintro _ ⟨r', found', inside', rfl⟩
  dsimp only at found' inside' ⊢
  have index : min row (s.grid.length - 1) < s.grid.length :=
    (List.getElem?_eq_some_iff.mp found).1
  rw [List.length_set, List.getElem?_set_self index] at found'
  cases found'
  rw [List.length_set] at inside'
  rw [List.length_set, List.set_set]
  refine h.withGrid ?_
  intro r₂ mem
  rcases List.mem_or_eq_of_mem_set mem with old | rfl
  · exact h.grid r₂ old
  dsimp only
  have edge := h.grid r (List.mem_of_getElem? found)
  by_cases covers : min col (s.cols - 1) = min (col + 1) (s.cols - 1)
  · rw [covers, List.set_set]
    exact edge.set fun _ => show (0 : Nat) ≠ 2 by decide
  · refine Edge.set (edge.set fun atEnd => ?_) fun _ => show (0 : Nat) ≠ 2 by decide
    omega

/-! ### Resizes -/

theorem edge_tiled : Tiled Edge where
  nil := edge_nil
  append := Edge.append
  blanks := edge_blanks
  narrow _ _ narrow := edge_concat narrow []
  wide c _ := edge_concat (show (0 : Nat) ≠ 2 by decide) [c]

theorem resizeWidth_edge {r : Row} (h : Edge r.cells) (cols : Nat) :
    Edge (r.resizeWidth cols).cells := by
  unfold Row.resizeWidth
  split
  · dsimp only
    split
    · rename_i last found
      split
      · exact edge_concat (show (1 : Nat) ≠ 2 by decide) _
      · rename_i narrow
        intro c isLast
        rw [found] at isLast
        cases isLast
        exact narrow
    · rename_i none
      intro c isLast
      rw [none] at isLast
      cases isLast
  · exact h.append (edge_blanks _ {})

theorem resize_edge (h : s.Every Edge) {rows cols : Nat} {cursor : Nat × Nat} {reflow : Bool} :
    Guarded False (s.resize rows cols cursor reflow) (·.1.Every Edge) :=
  resize_laid edge_tiled (fun _ cols edge => resizeWidth_edge edge cols) h

/-! ### Insertions -/

/-- No row but `row` ends in a wide character. -/
structure EdgeBut (row : Nat) (s : Screen) : Prop where
  grid : ∀ i r, s.grid[i]? = some r → i ≠ row → Edge r.cells
  scrollback : ∀ r ∈ s.scrollback, Edge r.cells

theorem Every.edgeBut (h : s.Every Edge) (row : Nat) : s.EdgeBut row :=
  ⟨fun _ r found _ => h.grid r (List.mem_of_getElem? found), h.scrollback⟩

theorem EdgeBut.every {row : Nat} (h : s.EdgeBut row)
    (own : ∀ r, s.grid[row]? = some r → Edge r.cells) : s.Every Edge := by
  refine ⟨?_, h.scrollback⟩
  intro r mem
  obtain ⟨i, found⟩ := List.mem_iff_getElem?.mp mem
  by_cases same : i = row
  · exact own r (same ▸ found)
  · exact h.grid i r found same

theorem EdgeBut.setRow {row : Nat} (h : s.EdgeBut row) {r : Row} (edge : Edge r.cells) :
    { s with grid := s.grid.set row r }.Every Edge := by
  refine ⟨?_, h.scrollback⟩
  intro r' mem
  obtain ⟨i, found⟩ := List.mem_iff_getElem?.mp mem
  rw [List.getElem?_set] at found
  split at found
  · split at found
    · cases found
      exact edge
    · cases found
  · rename_i other
    exact h.grid i r' found (Ne.symm other)

/-- An edit of the row. -/
theorem EdgeBut.modifyRow {row : Nat} (h : s.EdgeBut row) (inside : row < s.grid.length)
    (f : Row → Checked Row) : Guarded False (s.modifyRow row f) (·.EdgeBut row) := by
  refine (Guarded.sub.weaken False.elim).bind ?_
  rintro last ⟨rfl, _⟩
  apply (Guarded.trivial _).bind
  intro old _
  apply (Guarded.trivial _).bind
  intro new _
  refine .pure ⟨?_, h.scrollback⟩
  intro i r found other
  have index : min row (s.grid.length - 1) = row := by omega
  rw [index, List.getElem?_set_ne (Ne.symm other)] at found
  exact h.grid i r found other

theorem EdgeBut.setBlank {row : Nat} (h : s.EdgeBut row) (r c : Nat) (style : Style) :
    Guarded False (s.setCell r c (Cell.blank style)) (·.EdgeBut row) := by
  refine (setCell_spec r c _ s).mono ?_
  rintro _ ⟨old, found, _, rfl⟩
  refine ⟨?_, h.scrollback⟩
  intro i r' at_ other
  dsimp only at at_
  rw [List.getElem?_set] at at_
  split at at_
  · rename_i same
    split at at_
    · cases at_
      have edge := h.grid i old (same ▸ found) other
      exact edge.set fun _ => show (1 : Nat) ≠ 2 by decide
    · cases at_
  · exact h.grid i r' at_ other

end Screen

namespace Terminal

variable {K : Parser → GraphicsState → Prop} {rows cols : Nat} {t t' : Terminal}

/-- No row of either screen ends in a wide character. -/
structure Edged (t : Terminal) : Prop where
  primary : t.primary.Every Edge
  alt : t.alt.Every Edge

theorem Edged.scr (h : t.Edged) : t.scr.Every Edge := by
  unfold Terminal.scr
  split
  · exact h.alt
  · exact h.primary

/-- Like `Edged`, the row `row` of the active screen aside. -/
structure EdgedBut (row : Nat) (t : Terminal) : Prop where
  active : t.scr.EdgeBut row
  primary : t.altActive = true → t.primary.Every Edge
  alt : t.altActive = false → t.alt.Every Edge

theorem Edged.but (h : t.Edged) (row : Nat) : t.EdgedBut row :=
  ⟨h.scr.edgeBut row, fun _ => h.primary, fun _ => h.alt⟩

theorem modifyScr_edged {row : Nat} (h : t.EdgedBut row) {f : Screen → Checked Screen}
    (keeps : Guarded False (f t.scr) (·.Every Edge)) : Guarded False (t.modifyScr f) (·.Edged) := by
  refine keeps.bind ?_
  intro s every
  refine .pure ?_
  cases alt : t.altActive with
  | true => exact ⟨h.primary alt, every⟩
  | false => exact ⟨every, h.alt alt⟩

theorem modifyScr_edgedBut {row : Nat} (h : t.EdgedBut row) {f : Screen → Checked Screen}
    (keeps : Guarded False (f t.scr) (·.EdgeBut row)) :
    Guarded False (t.modifyScr f) (·.EdgedBut row) := by
  refine keeps.bind ?_
  intro s but
  refine .pure ?_
  by_cases alt : t.altActive = true
  · rw [if_pos alt]
    refine ⟨?_, h.primary, fun not => absurd alt (by simp [show t.altActive = false from not])⟩
    rwa [Terminal.scr, if_pos (show ({ t with alt := s } : Terminal).altActive = true from alt)]
  · rw [if_neg alt]
    refine ⟨?_, fun not => absurd not alt, h.alt⟩
    rwa [Terminal.scr, if_neg (show ¬ ({ t with primary := s } : Terminal).altActive = true from alt)]

theorem repairCell_edgedBut {row : Nat} (h : t.EdgedBut row) (r : Nat) (style : Style) (c : Nat) :
    Guarded False (t.repairCell r style c) (·.EdgedBut row) := by
  unfold repairCell
  apply (Guarded.trivial _).bind
  intro orphaned _
  split
  · exact modifyScr_edgedBut h (h.active.setBlank r c style)
  · exact .pure h

/-- Where the active screen has no wide character in the last column of the row either. -/
theorem EdgedBut.edged {row : Nat} (h : t.EdgedBut row) (sound : t.Sound K rows cols)
    (narrow : t.cellWidth row (cols - 1) ≠ some 2) : t.Edged := by
  have active : t.scr.Every Edge := by
    refine h.active.every ?_
    intro r found
    refine edge_of_getElem (sound.scr.grid r (List.mem_of_getElem? found)) ?_
    intro c last wide
    refine narrow ?_
    rw [cellWidth_eq, Screen.cell, found, Option.bind_some, last, Option.map_some, wide]
  cases alt : t.altActive with
  | true =>
    refine ⟨h.primary alt, ?_⟩
    rwa [Terminal.scr, if_pos alt] at active
  | false =>
    refine ⟨?_, h.alt alt⟩
    rwa [Terminal.scr, if_neg (by simp [alt])] at active

/-- A wide character in the last column has no spacer, and is blanked. -/
theorem repairCell_edged {row : Nat} (h : t.EdgedBut row) (sound : t.Sound K rows cols)
    (style : Style) : Guarded False (t.repairCell row style (cols - 1)) (·.Edged) := by
  have pos := sound.cols_pos
  have cols_eq := sound.cols_eq
  unfold repairCell
  by_cases wide : t.cellWidth row (cols - 1) = some 2
  · rw [wide]
    refine Guarded.bind (p := (· = true)) ?_ ?_
    · refine (Guarded.add.weaken False.elim).bind ?_
      rintro next ⟨rfl, _⟩
      have atEdge : cols - 1 + 1 ≥ t.cols := by omega
      exact .pure (by rw [decide_eq_true atEdge, Bool.true_or])
    · rintro _ rfl
      rw [if_pos rfl]
      refine modifyScr_edged h ((Screen.setCell_spec row (cols - 1) _ t.scr).mono ?_)
      rintro _ ⟨r, found, inside, rfl⟩
      have inGrid : row < t.scr.grid.length := by
        rw [cellWidth_eq, Screen.cell] at wide
        cases shown : t.scr.grid[row]? with
        | none => simp [shown] at wide
        | some r => exact (List.getElem?_eq_some_iff.mp shown).1
      have index : min row (t.scr.grid.length - 1) = row := by omega
      have scr_cols := sound.scr.cols_eq
      have col : min (cols - 1) (t.scr.cols - 1) = cols - 1 := by omega
      have length := sound.scr.grid r (List.mem_of_getElem? found)
      rw [index, col]
      refine h.active.setRow (edge_of_getElem (show _ = cols from ?_) ?_)
      · rw [List.length_set]
        exact length
      · intro c last
        rw [List.getElem?_set_self (by omega)] at last
        cases last
        exact show (1 : Nat) ≠ 2 by decide
  · have edged := h.edged sound wide
    apply (Guarded.trivial _).bind
    intro orphaned _
    split
    · exact modifyScr_edged (edged.but row)
        (Screen.setCell_edge edged.scr (show (1 : Nat) ≠ 2 by decide))
    · exact .pure edged

theorem repairWideHalves_edged {row : Nat} (h : t.EdgedBut row) (sound : t.Sound K rows cols) :
    Guarded False (t.repairWideHalves row) (·.Edged) := by
  have pos := sound.cols_pos
  obtain ⟨last, rfl⟩ := Nat.exists_eq_add_one_of_ne_zero (Nat.ne_of_gt pos)
  unfold repairWideHalves
  rw [sound.cols_eq, forRange_succ]
  have before : Guarded False (forRange 0 last t fun c t' => t'.repairCell row t.blankStyle c)
      fun t' => t'.EdgedBut row ∧ t'.Sound K rows (last + 1) := by
    refine Guarded.forRange (I := fun (t' : Terminal) => t'.EdgedBut row ∧ t'.Sound K rows (last + 1))
      ⟨h, sound⟩ ?_
    rintro c t' _ lt ⟨but, sound⟩
    exact (repairCell_edgedBut but row _ c).and
      (.of_yields (repairCell_yields sound (Nat.lt_succ_of_lt lt)))
  refine before.bind ?_
  rintro t' ⟨but, sound⟩
  exact repairCell_edged but sound _

/-- An edit of a row of the grid and its repair. -/
theorem editRow_edged {row : Nat} (h : t.Edged) (sound : t.Sound K rows cols) (row_lt : row < rows)
    {f : Row → Checked Row} (sized : Yields (t.modifyScr (·.modifyRow row f)) (·.Sound K rows cols)) :
    Guarded False (t.modifyScr (·.modifyRow row f) >>= fun t => t.repairWideHalves row) (·.Edged) := by
  have inside : row < t.scr.grid.length := by
    rw [sound.scr.height]
    exact row_lt
  refine Guarded.bind ((modifyScr_edgedBut (h.but row)
    ((h.scr.edgeBut row).modifyRow inside f)).and (.of_yields sized)) ?_
  rintro t' ⟨but, sound⟩
  exact repairWideHalves_edged but sound

end Terminal

end Posh.Term
