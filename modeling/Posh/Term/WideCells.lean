import Posh.Term.Rearranging
import Posh.Term.Runs
import Posh.Term.Whole

/-!
Which controls leave the rows whole.

A control that edits a row repairs it, except for two. An erase takes the cells it reaches
one by one, and so it can take one half of a wide character. A wide character for which the
last column has no room blanks that column, which may hold a spacer; and in a grid one column
wide it leaves its spacer there and no head.
-/

namespace Posh.Term

open Posh.Lib

namespace Terminal

variable {K : Parser → GraphicsState → Prop} {rows cols row col : Nat} {t t' : Terminal}
  {cells : List Cell} {style : Style}

/-! ### Repairs -/

theorem cellWidth_eq_widthAt (row col : Nat) (t : Terminal) :
    t.cellWidth row col = widthAt (t.rowCells row) col := by
  unfold cellWidth Screen.cell rowCells Screen.cellsAt widthAt
  cases t.scr.grid[row]? with
  | none => rfl
  | some r => rfl

theorem repairCell_eq (h : t.Sound K rows cols) (inside : row < rows) {c : Nat} (within : c < cols)
    (style : Style) :
    t.repairCell row style c = .ok (t.withCells row (repaired style c (t.rowCells row))) := by
  have small := h.cols_small
  have cols_eq := h.cols_eq
  have width := length_rowCells h inside
  have kept : t.withCells row (t.rowCells row) = t := withCells_rowCells
  obtain ⟨w, found⟩ : ∃ w, widthAt (t.rowCells row) c = some w := by
    unfold widthAt
    rw [List.getElem?_eq_getElem (by omega)]
    exact ⟨_, rfl⟩
  have edge (past : c + 1 ≥ cols) : widthAt (t.rowCells row) (c + 1) = none :=
    widthAt_past (by omega)
  have repair : Yields (t.repairCell row style c) fun t' =>
      t' = t.withCells row (repaired style c (t.rowCells row)) := by
    unfold repairCell
    refine Yields.bind (p := fun orphaned => orphaned = true ↔ Orphaned (t.rowCells row) c) ?_ ?_
    · unfold Orphaned
      simp only [cellWidth_eq_widthAt, found, Option.getD_some]
      split
      · refine (Yields.add (by omega)).bind ?_
        rintro next rfl
        refine .pure ?_
        rw [cols_eq, Bool.or_eq_true, decide_eq_true_eq, bne_iff_ne]
        grind
      · refine .pure ?_
        rw [Bool.or_eq_true, beq_iff_eq, bne_iff_ne]
        grind
      · refine .pure ?_
        grind
    · intro orphaned isOrphaned
      unfold repaired
      split
      · rename_i cut
        rw [if_pos (isOrphaned.mp cut), setCell_eq h inside within]
        exact .ok rfl
      · rename_i fine
        rw [if_neg (mt isOrphaned.mpr fine), kept]
        exact .pure rfl
  obtain ⟨_, eq, rfl⟩ := repair
  exact eq

theorem repairWideHalves_eq (h : t.Sound K rows cols) (inside : row < rows) :
    t.repairWideHalves row =
      .ok (t.withCells row (repairedTo t.blankStyle cols (t.rowCells row))) := by
  have width := length_rowCells h inside
  have loop : Yields (t.repairWideHalves row) fun t' =>
      t' = t.withCells row (repairedTo t.blankStyle cols (t.rowCells row)) := by
    unfold repairWideHalves
    rw [h.cols_eq]
    refine Yields.forRange_index (I := fun c t' =>
      t' = t.withCells row (repairedTo t.blankStyle c (t.rowCells row))) (Nat.zero_le _) ?_ ?_
    · rw [repairedTo, withCells_rowCells]
    · rintro c _ _ to_ rfl
      have sound : (t.withCells row (repairedTo t.blankStyle c (t.rowCells row))).Sound K rows cols :=
        h.withCells (by rw [length_repairedTo, width])
      rw [repairCell_eq sound inside to_, rowCells_withCells h inside, withCells_withCells]
      exact .ok rfl
  obtain ⟨_, eq, rfl⟩ := loop
  exact eq

/-- A repaired row is whole, whatever was written to it. -/
theorem repairWideHalves_whole (h : t.Sound K rows cols) (inside : row < rows)
    (every : t.EveryRow Whole) (cells : List Cell) (width : cells.length = cols) :
    Yields ((t.withCells row cells).repairWideHalves row) (·.EveryRow Whole) := by
  have sound : (t.withCells row cells).Sound K rows cols := h.withCells width
  rw [repairWideHalves_eq sound inside, rowCells_withCells h inside, withCells_withCells]
  refine .ok (every.withCells ?_)
  rw [← width]
  exact whole_repairedTo _ cells

/-- An edit of a row, and the repair of its wide characters. -/
theorem editRow_whole (h : t.Sound K rows cols) (inside : row < rows) (every : t.EveryRow Whole)
    {f : List Cell → Checked (List Cell)}
    (sized : Yields (f (t.rowCells row)) (·.length = cols)) :
    Yields (t.modifyScr (·.modifyRow row fun r => do
      let cells ← f r.cells
      return { r with cells }) >>= fun t => t.repairWideHalves row) (·.EveryRow Whole) := by
  rw [modifyRow_eq h inside]
  refine (sized.bind (r := fun t' => ∃ cells : List Cell, cells.length = cols ∧
    t' = t.withCells row cells) fun cells width => .pure ⟨cells, width, rfl⟩).bind ?_
  rintro _ ⟨cells, width, rfl⟩
  exact repairWideHalves_whole h inside every cells width

/-! ### Printing -/

theorem cleanWide_eq (h : t.Sound K rows cols) (inside : row < rows) (within : col < cols) {w : Nat}
    (fits : col + w < 2 ^ 16) :
    t.cleanWide row col w =
      .ok (t.withCells row (cleaned t.blankStyle col w (t.rowCells row))) := by
  have width := length_rowCells h inside
  have clean : Yields (t.cleanWide row col w) fun t' =>
      t' = t.withCells row (cleaned t.blankStyle col w (t.rowCells row)) := by
    unfold cleanWide
    refine Yields.bind (p := fun t' =>
      t' = t.withCells row (cleanedLeft t.blankStyle col (t.rowCells row))) ?_ ?_
    · unfold cleanedLeft
      rw [cellWidth_eq_widthAt]
      split
      · rw [setCell_eq h inside (by omega)]
        exact .ok rfl
      · exact .pure withCells_rowCells.symm
    · rintro _ rfl
      refine Yields.forRange_index (I := fun i t' =>
        t' = t.withCells row (cleaned t.blankStyle col i (t.rowCells row))) (Nat.zero_le _) rfl ?_
      rintro i _ _ to_ rfl
      have length := length_cleaned t.blankStyle col i (t.rowCells row)
      have sound : (t.withCells row (cleaned t.blankStyle col i (t.rowCells row))).Sound K rows cols :=
        h.withCells (by omega)
      refine (Yields.add (by omega)).bind ?_
      rintro c rfl
      rw [cols_withCells, h.cols_eq, cleaned]
      unfold cleanedRight
      split
      · rename_i past
        rw [if_neg (fun cut => by have := lt_of_widthAt cut.1; omega)]
        exact .pure rfl
      · rw [cellWidth_eq_widthAt, rowCells_withCells h inside]
        split
        · rename_i wide
          refine (Yields.add (by have := h.cols_small; omega)).bind ?_
          rintro next rfl
          split
          · rename_i room
            rw [if_pos ⟨wide, by omega⟩, setCell_eq sound inside room, rowCells_withCells h inside,
              withCells_withCells]
            exact .ok rfl
          · rename_i full
            rw [if_neg (fun cut => full (by omega))]
            exact .pure rfl
        · rename_i narrow
          rw [if_neg (fun cut => narrow cut.1)]
          exact .pure rfl
  obtain ⟨_, eq, rfl⟩ := clean
  exact eq

theorem insertBlanks_whole (h : t.Sound K rows cols) (inside : row < rows) (within : col < cols)
    (every : t.EveryRow Whole) (n : Nat) :
    Yields (t.insertBlanks row col n) (·.EveryRow Whole) := by
  unfold insertBlanks
  dsimp only
  exact editRow_whole h inside every (f := fun cells => forRange 0 n cells fun _ cells =>
    insertAt cells.dropLast col (Cell.blank t.blankStyle))
    (insertCells_yields within (length_rowCells h inside))

/-- The cells of a character, over a row that is clean for them. -/
theorem setChar_whole (h : t.Sound K rows cols) (every : t.EveryRow Whole) (inside : row < rows)
    (within : col < cols) (style : Style) (head : Cell)
    (fits : head.width = 1 ∨ head.width = 2 ∧ col + 1 < cols) :
    Guarded False ((t.withCells row (cleaned style col head.width (t.rowCells row))).modifyScr
      (·.setCell row col head) >>= fun t =>
        if head.width = 2 then do
          let next ← add 16 col 1
          t.modifyScr (·.setCell row next head.spacer)
        else pure t) (·.EveryRow Whole) := by
  have whole := every.rowCells h inside
  have width := length_rowCells h inside
  have length := length_cleaned style col head.width (t.rowCells row)
  have sound : (t.withCells row (cleaned style col head.width (t.rowCells row))).Sound K rows cols :=
    h.withCells (length.trans width)
  rw [setCell_eq sound inside within, rowCells_withCells h inside, withCells_withCells]
  refine Guarded.bind (p := (· = t.withCells row ((cleaned style col head.width (t.rowCells row)).set
    col head))) (.ok rfl) ?_
  rintro _ rfl
  rcases fits with narrow | ⟨wide, room⟩
  · rw [if_neg (by omega), narrow]
    exact .pure (every.withCells (whole_putNarrow whole (by omega) (by omega) (by omega)))
  · rw [if_pos wide]
    refine (Guarded.add.weaken False.elim).bind ?_
    rintro next ⟨rfl, _⟩
    have sound' : (t.withCells row ((cleaned style col head.width (t.rowCells row)).set col
        head)).Sound K rows cols := h.withCells (by rw [List.length_set]; omega)
    rw [setCell_eq sound' inside room, rowCells_withCells h inside, withCells_withCells, wide]
    exact .ok (every.withCells (whole_putWide whole (by omega) wide))

/-- A character that fits before the edge. -/
theorem putChar_whole (h : t.Sound K rows cols) (every : t.EveryRow Whole) (c : Char) {w : Nat}
    (fits : w = 1 ∨ w = 2 ∧ t.cursor.col + 1 < cols) :
    Guarded False (t.putChar c w) (·.EveryRow Whole) := by
  have inside := h.cursor_row
  have within := h.cursor_col
  have small := h.cols_small
  have inserted : Yields (if t.modes.insert then t.insertBlanks t.cursor.row t.cursor.col w else pure t)
      fun t' => t'.EveryRow Whole ∧ t'.Sound K rows cols := by
    split
    · exact (insertBlanks_whole h inside within every w).and (insertBlanks_yields h within)
    · exact .pure ⟨every, h⟩
  unfold putChar
  dsimp only
  refine (Guarded.of_yields inserted).bind ?_
  rintro t₁ ⟨every₁, sound₁⟩
  refine Guarded.bind (p := (· = t₁.withCells t.cursor.row
    (cleaned t₁.blankStyle t.cursor.col w (t₁.rowCells t.cursor.row)))) ?_ ?_
  · rw [cleanWide_eq sound₁ inside within (by omega)]
    exact .ok rfl
  rintro _ rfl
  rw [← bind_assoc]
  refine Guarded.bind (p := (·.EveryRow Whole)) ?_ ?_
  · exact setChar_whole sound₁ every₁ inside within t₁.blankStyle
      { ch := c, style := _, width := w, hyperlink := _ } fits
  intro t₂ every₂
  apply (Guarded.trivial _).bind
  intro newCol _
  split
  · apply (Guarded.trivial _).bind
    intro last _
    exact .pure ⟨every₂.primary, every₂.alt⟩
  · exact .pure ⟨every₂.primary, every₂.alt⟩

/-- A wide character at the edge has a row to wrap to, and the column it blanks holds no
spacer. -/
def RoomAtEdge (t : Terminal) : Prop :=
  t.modes.autowrap = true → t.cols ≠ 1 ∧
    (t.cursor.col + 1 = t.cols → t.cellWidth t.cursor.row t.cursor.col ≠ some 0)

theorem fitWide_whole (h : t.Sound K rows cols) (every : t.EveryRow Whole) {w : Nat}
    (wide_or : w = 1 ∨ w = 2) (room : w = 2 → t.RoomAtEdge) :
    Guarded False (t.fitWide w) fun fitted => ∀ t' ∈ fitted,
      t'.EveryRow Whole ∧ t'.Sound K rows cols ∧ (w = 1 ∨ w = 2 ∧ t'.cursor.col + 1 < cols) := by
  have inside := h.cursor_row
  have within := h.cursor_col
  have cols_eq := h.cols_eq
  have width := length_rowCells h inside
  unfold fitWide
  refine Guarded.bind (p := fun next => w = 2 → next = t.cursor.col + 1) ?_ ?_
  · split
    · refine (Guarded.add.weaken False.elim).mono ?_
      rintro next ⟨rfl, _⟩ _
      rfl
    · rename_i narrow
      exact .pure fun wide => absurd wide narrow
  intro next isNext
  split
  · rename_i full
    have wide := full.1
    have edge : t.cursor.col + 1 = cols := by
      have := isNext wide
      omega
    split
    · rename_i autowrap
      obtain ⟨several, uncut⟩ := room wide autowrap
      rw [cellWidth_eq_widthAt] at uncut
      have blanked : (t.withCells t.cursor.row ((t.rowCells t.cursor.row).set t.cursor.col
          (Cell.blank t.blankStyle))).EveryRow Whole :=
        every.withCells (whole_blankLast (every.rowCells h inside) (edge.trans width.symm)
          (uncut (edge.trans cols_eq.symm)))
      have sound : (t.withCells t.cursor.row ((t.rowCells t.cursor.row).set t.cursor.col
          (Cell.blank t.blankStyle))).Sound K rows cols :=
        h.withCells (List.length_set.trans width)
      rw [setCell_eq h inside within]
      refine Guarded.bind (p := (· = t.withCells t.cursor.row ((t.rowCells t.cursor.row).set
        t.cursor.col (Cell.blank t.blankStyle)))) (.ok rfl) ?_
      rintro _ rfl
      refine Guarded.bind ((wrapLine_rearranges _).and (.of_yields (wrapLine_yields sound))) ?_
      rintro t₁ ⟨rearranges, sound₁, home⟩
      refine .pure ?_
      rintro _ ⟨⟩
      refine ⟨rearranges Whole whole_blanks blanked, sound₁, .inr ⟨wide, ?_⟩⟩
      omega
    split
    · refine (Guarded.sub.weaken False.elim).bind ?_
      rintro col ⟨rfl, _⟩
      refine .pure ?_
      rintro _ ⟨⟩
      refine ⟨⟨every.primary, every.alt⟩, h.moved rfl inside ?_, .inr ⟨wide, ?_⟩⟩
      · show t.cols - 2 < cols
        omega
      · show t.cols - 2 + 1 < cols
        omega
    · exact .pure fun _ mem => absurd mem (Option.not_mem_none _)
  · rename_i fits
    refine .pure ?_
    rintro _ ⟨⟩
    refine ⟨every, h, ?_⟩
    rcases wide_or with narrow | wide
    · exact .inl narrow
    · refine .inr ⟨wide, ?_⟩
      have := isNext wide
      omega

/-- A wide character is not printed over the spacer in the last column, nor where the grid is
one column wide, as long as lines wrap. -/
def PrintUncut (c : Char) (t : Terminal) : Prop :=
  wcwidth (t.mapCharset c) = 2 → t.modes.autowrap = true → t.cols ≠ 1 ∧
    (t.cursor.pendingWrap = false → t.cursor.col + 1 = t.cols →
      t.cellWidth t.cursor.row t.cursor.col ≠ some 0)

instance (c : Char) (t : Terminal) : Decidable (t.PrintUncut c) :=
  inferInstanceAs (Decidable (_ → _ → _ ∧ (_ → _ → _)))

theorem wrapPending_room (h : t.Sound K rows cols) (uncut : t.modes.autowrap = true → t.cols ≠ 1 ∧
    (t.cursor.pendingWrap = false → t.cursor.col + 1 = t.cols →
      t.cellWidth t.cursor.row t.cursor.col ≠ some 0)) :
    Guarded False t.wrapPending RoomAtEdge := by
  have cols_eq := h.cols_eq
  unfold wrapPending
  split
  · dsimp only
    split
    · rename_i autowrap
      have still : { t with cursor.pendingWrap := false }.Sound K rows cols := h
      have several := (uncut autowrap).1
      refine (Guarded.of_yields (wrapLine_yields still)).mono ?_
      rintro t' ⟨sound, home⟩ _
      have cols_eq' := sound.cols_eq
      exact ⟨by omega, by omega⟩
    · rename_i stays
      exact .ok fun autowrap => absurd autowrap stays
  · rename_i settled
    refine .ok fun autowrap => ?_
    obtain ⟨several, spacer⟩ := uncut autowrap
    exact ⟨several, spacer (by simpa using settled)⟩

theorem printWide_whole (h : t.Sound K rows cols) (every : t.EveryRow Whole) (c : Char) {w : Nat}
    (wide_or : w = 1 ∨ w = 2) (uncut : w = 2 → t.modes.autowrap = true → t.cols ≠ 1 ∧
      (t.cursor.pendingWrap = false → t.cursor.col + 1 = t.cols →
        t.cellWidth t.cursor.row t.cursor.col ≠ some 0)) :
    Guarded False (t.printWide c w) (·.EveryRow Whole) := by
  have noted : { t.touch with lastPrinted := some c }.Sound K rows cols := h
  have every' : { t.touch with lastPrinted := some c }.EveryRow Whole := ⟨every.primary, every.alt⟩
  unfold printWide
  refine Guarded.bind (((wrapPending_rearranges _).and (.of_yields (wrapPending_yields noted))).and
    (.imp fun wide => wrapPending_room noted (uncut wide))) ?_
  rintro t₁ ⟨⟨rearranges, sound₁⟩, room⟩
  have every₁ := rearranges Whole whole_blanks every'
  refine (fitWide_whole sound₁ every₁ wide_or room).bind ?_
  intro fitted holds
  cases fitted with
  | none => exact .pure every₁
  | some t₂ =>
    obtain ⟨every₂, sound₂, fits⟩ := holds t₂ rfl
    exact putChar_whole sound₂ every₂ c fits

theorem combine_whole (every : t.EveryRow Whole) (c : Char) :
    Guarded False (t.combine c) (·.EveryRow Whole) := by
  unfold combine
  split
  · exact .ok every
  · refine Guarded.bind (p := (·.EveryRow Whole)) (modifyScr_everyRow every ?_) ?_
    · exact Screen.modifyCell_whole every.scr fun _ => rfl
    · intro t' every'
      exact .pure ⟨every'.primary, every'.alt⟩

theorem print_whole (h : t.Sound K rows cols) (every : t.EveryRow Whole) {c : Char}
    (uncut : t.PrintUncut c) : Guarded False (t.print c) (·.EveryRow Whole) := by
  unfold print
  split
  · exact (execute_rearranges _ t).mono fun _ rearranges => rearranges Whole whole_blanks every
  · dsimp only
    split
    · exact combine_whole every _
    · rename_i glyph
      have le := wcwidth_le (t.mapCharset c)
      exact printWide_whole h every _ (by omega) uncut

/-! ### Erasing -/

/-- Whether an erase of the columns `lo..hi` takes the cell in a column. -/
def taken (lo hi : Nat) (selective : Bool) (i : Nat) (c : Cell) : Bool :=
  decide (lo ≤ i ∧ i < hi) && !(selective && c.style.isProtected)

/-- Both halves of each wide character of a row are taken, or neither. -/
def Uncut (lo hi : Nat) (selective : Bool) (cells : List Cell) : Prop :=
  ∀ i c d, cells[i]? = some c → c.width = 2 → cells[i + 1]? = some d →
    taken lo hi selective i c = taken lo hi selective (i + 1) d

/-- What an erase leaves: whole rows, and the cells of the other rows. -/
structure Erased (K : Parser → GraphicsState → Prop) (rows cols : Nat) (mine : Nat → Prop)
    (t t' : Terminal) : Prop where
  every : t'.EveryRow Whole
  sound : t'.Sound K rows cols
  others : ∀ row, ¬ mine row → t'.rowCells row = t.rowCells row

theorem Erased.refl (every : t.EveryRow Whole) (sound : t.Sound K rows cols) (mine : Nat → Prop) :
    Erased K rows cols mine t t :=
  ⟨every, sound, fun _ _ => rfl⟩

theorem eraseCells_erased (h : t.Sound K rows cols) (every : t.EveryRow Whole) (inside : row < rows)
    {lo hi : Nat} (le : lo ≤ hi) (within : hi ≤ cols) (style : Style) {selective : Bool}
    (uncut : Uncut lo hi selective (t.rowCells row)) :
    Guarded False (t.eraseCells row lo hi style selective) (Erased K rows cols (· = row) t) := by
  have width := length_rowCells h inside
  have blanked : Screen.changed lo hi (fun c =>
      if selective && c.style.isProtected then c else Cell.blank style) (t.rowCells row) =
      (t.rowCells row).mapIdx fun i c => if taken lo hi selective i c then Cell.blank style else c := by
    unfold Screen.changed taken
    refine congrArg (List.mapIdx · _) (funext fun i => funext fun c => ?_)
    by_cases inRange : lo ≤ i ∧ i < hi <;> cases guarded : (selective && c.style.isProtected) <;>
      simp [inRange, guarded]
  unfold eraseCells eraseCell
  rw [modifyCells_eq h inside le within]
  refine .ok ⟨every.withCells ?_, h.withCells (by rw [Screen.length_changed, width]), ?_⟩
  · rw [blanked]
    exact whole_erased (every.rowCells h inside) uncut
  · intro other ne
    exact rowCells_withCells_ne (Ne.symm ne)

theorem setRowWrapped_erased {mine : Nat → Prop} (h : Erased K rows cols mine t t') (row : Nat)
    (wrapped : Bool) :
    Guarded False (t'.setRowWrapped row wrapped) (Erased K rows cols mine t) := by
  refine ((setRowWrapped_rearranges row wrapped t').and ((setWrapped_rowCells row wrapped t').and
    (.of_yields (setRowWrapped_yields h.sound)))).mono ?_
  rintro t'' ⟨rearranges, same, sound⟩
  exact ⟨rearranges Whole whole_blanks h.every, sound, fun other out =>
    (same other).trans (h.others other out)⟩

theorem eraseRow_erased (h : t.Sound K rows cols) (every : t.EveryRow Whole) (inside : row < rows)
    (style : Style) {selective : Bool} (uncut : Uncut 0 cols selective (t.rowCells row)) :
    Guarded False (t.eraseRow row style selective) (Erased K rows cols (· = row) t) := by
  unfold eraseRow
  split
  · rename_i guarded
    rw [h.cols_eq]
    refine (eraseCells_erased h every inside (Nat.zero_le _) (Nat.le_refl _) style
      (guarded ▸ uncut)).bind ?_
    intro t₁ erased₁
    exact setRowWrapped_erased erased₁ row false
  · have within : row < t.scr.grid.length := h.scr.height.symm ▸ inside
    have blanked : Guarded False (t.modifyScr (·.modifyRow row fun _ => return Row.blank t.cols style))
        (·.EveryRow Whole) :=
      modifyScr_everyRow every (Screen.modifyRow_every every.scr fun _ _ _ =>
        .pure (whole_blanks t.cols style))
    have shaped : Yields (t.modifyScr (·.modifyRow row fun _ => return Row.blank t.cols style))
        (·.Sound K rows cols) :=
      (modifyScr_yields h (Screen.modifyRow_yields h.scr fun r _ =>
        .pure ((Uniform.blank _ style).trans h.cols_eq))).mono fun _ => And.left
    refine ((blanked.and (modifyRow_others within _)).and (.of_yields shaped)).mono ?_
    rintro t' ⟨⟨every', same⟩, sound⟩
    exact ⟨every', sound, fun other ne => same other (Ne.symm ne)⟩

theorem eraseRows_erased (h : t.Sound K rows cols) (every : t.EveryRow Whole) {lo hi : Nat}
    (le : lo ≤ hi) (inside : hi ≤ rows) (style : Style) {selective : Bool}
    (uncut : ∀ row, lo ≤ row → row < hi → Uncut 0 cols selective (t.rowCells row)) :
    Guarded False (t.eraseRows lo hi style selective)
      (Erased K rows cols (fun row => lo ≤ row ∧ row < hi) t) := by
  refine Guarded.forRange_index (I := fun i => Erased K rows cols (fun row => lo ≤ row ∧ row < i) t)
    le (.refl every h _) ?_
  intro row t' from_ to_ erased
  have same : t'.rowCells row = t.rowCells row := erased.others row (by omega)
  refine (eraseRow_erased erased.sound erased.every (by omega) style
    (same ▸ uncut row from_ to_)).mono ?_
  intro t'' erased'
  refine ⟨erased'.every, erased'.sound, ?_⟩
  intro other out
  rw [erased'.others other (by omega), erased.others other (by omega)]

/-- The cells that ED reaches, or EL where it is not of the display. -/
def reached (display : Bool) (mode row col : Nat) (t : Terminal) : Bool :=
  match display, mode with
  | true, 0 => decide (t.cursor.row < row) || row == t.cursor.row && decide (t.cursor.col ≤ col)
  | true, 1 => decide (row < t.cursor.row) || row == t.cursor.row && decide (col ≤ t.cursor.col)
  | true, 2 => true
  | false, 0 => row == t.cursor.row && decide (t.cursor.col ≤ col)
  | false, 1 => row == t.cursor.row && decide (col ≤ t.cursor.col)
  | false, 2 => row == t.cursor.row
  | _, _ => false

/-- Reached, and not spared by a selective erase. -/
def erases (display : Bool) (mode : Nat) (selective : Bool) (row col : Nat) (t : Terminal) : Bool :=
  t.reached display mode row col &&
    (t.scr.cell row col).any fun c => !(selective && c.style.isProtected)

/-- The erase takes both halves of each wide character, or neither. -/
def EraseUncut (display : Bool) (mode : Nat) (selective : Bool) (t : Terminal) : Prop :=
  ∀ row < t.rows, ∀ col < t.cols, t.cellWidth row col = some 2 →
    t.erases display mode selective row col = t.erases display mode selective row (col + 1)

instance (display : Bool) (mode : Nat) (selective : Bool) (t : Terminal) :
    Decidable (t.EraseUncut display mode selective) :=
  inferInstanceAs (Decidable (∀ row < t.rows, ∀ col < t.cols, _ → _))

theorem EraseUncut.inRow {display : Bool} {mode lo hi : Nat} {selective : Bool}
    (uncut : t.EraseUncut display mode selective) (h : t.Sound K rows cols) (inside : row < rows)
    (range : ∀ i < cols, t.reached display mode row i = decide (lo ≤ i ∧ i < hi)) :
    Uncut lo hi selective (t.rowCells row) := by
  have width := length_rowCells h inside
  intro i c d found wide next
  have i_lt := (List.getElem?_eq_some_iff.mp found).1
  have next_lt := (List.getElem?_eq_some_iff.mp next).1
  have pair := uncut row (h.rows_eq.symm ▸ inside) i (h.cols_eq.symm ▸ width ▸ i_lt)
    (by rw [cellWidth_eq_widthAt, widthAt, found, Option.map_some, wide])
  unfold erases at pair
  rw [← getElem?_rowCells, ← getElem?_rowCells, found, next, range i (width ▸ i_lt),
    range (i + 1) (width ▸ next_lt)] at pair
  exact pair

/-- The rows that are erased whole. -/
theorem EraseUncut.inRows {mode lo hi : Nat} {selective : Bool}
    (uncut : t.EraseUncut true mode selective) (h : t.Sound K rows cols) (inside : hi ≤ rows)
    (whole : ∀ row i, lo ≤ row → row < hi → t.reached true mode row i = true) :
    ∀ row, lo ≤ row → row < hi → Uncut 0 cols selective (t.rowCells row) := by
  intro row from_ to_
  refine uncut.inRow h (by omega) fun i within => ?_
  rw [whole row i from_ to_, decide_eq_true ⟨Nat.zero_le i, within⟩]

theorem eraseDisplay_whole (h : t.Sound K rows cols) (every : t.EveryRow Whole) {mode : Nat}
    {selective : Bool} (uncut : t.EraseUncut true mode selective) :
    Guarded False (t.eraseDisplay mode selective) (·.EveryRow Whole) := by
  have row_lt := h.cursor_row
  have col_lt := h.cursor_col
  have still : { t with cursor.pendingWrap := false }.Sound K rows cols := h
  have every' : { t with cursor.pendingWrap := false }.EveryRow Whole := ⟨every.primary, every.alt⟩
  have same (row : Nat) :
      { t with cursor.pendingWrap := false }.rowCells row = t.rowCells row := rfl
  unfold eraseDisplay
  dsimp only
  refine Guarded.bind (p := (·.EveryRow Whole)) ?_ fun t' every' =>
    .pure ⟨every'.primary, every'.alt⟩
  split
  · rw [still.cols_eq]
    refine (eraseCells_erased still every' row_lt (Nat.le_of_lt col_lt) (Nat.le_refl _) _ ?_).bind ?_
    · rw [same]
      refine uncut.inRow h row_lt fun i within => ?_
      unfold reached
      grind
    intro t₁ erased₁
    refine (setRowWrapped_erased erased₁ _ false).bind ?_
    intro t₂ erased₂
    refine (Guarded.add.weaken False.elim).bind ?_
    rintro below ⟨rfl, _⟩
    rw [h.rows_eq]
    refine (eraseRows_erased erased₂.sound erased₂.every (by omega) (Nat.le_refl _) _ ?_).mono
      fun _ erased => erased.every
    intro row from_ to_
    rw [erased₂.others row (by omega), same]
    refine uncut.inRows h (Nat.le_refl _) ?_ row from_ to_
    intro row i below _
    unfold reached
    grind
  · refine (eraseRows_erased still every' (Nat.zero_le _) (Nat.le_of_lt row_lt) _ ?_).bind ?_
    · intro row from_ to_
      rw [same]
      refine uncut.inRows h (Nat.le_of_lt row_lt) ?_ row from_ to_
      intro row i _ above
      unfold reached
      grind
    intro t₁ erased₁
    refine (eraseCells_erased erased₁.sound erased₁.every row_lt (Nat.zero_le _) col_lt _ ?_).mono
      fun _ erased => erased.every
    rw [erased₁.others _ (by omega), same]
    refine uncut.inRow h row_lt fun i within => ?_
    unfold reached
    grind
  · rw [h.rows_eq]
    refine (eraseRows_erased still every' (Nat.zero_le _) (Nat.le_refl _) _ ?_).mono
      fun _ erased => erased.every
    intro row from_ to_
    rw [same]
    exact uncut.inRows h (Nat.le_refl _) (fun _ _ _ _ => rfl) row from_ to_
  · exact modifyScr_everyRow every' (.pure every'.scr.clearScrollback)
  · exact .pure every'

theorem eraseLine_whole (h : t.Sound K rows cols) (every : t.EveryRow Whole) {mode : Nat}
    {selective : Bool} (uncut : t.EraseUncut false mode selective) :
    Guarded False (t.eraseLine mode selective) (·.EveryRow Whole) := by
  have row_lt := h.cursor_row
  have col_lt := h.cursor_col
  have cols_pos := h.cols_pos
  have still : { t with cursor.pendingWrap := false }.Sound K rows cols := h
  have every' : { t with cursor.pendingWrap := false }.EveryRow Whole := ⟨every.primary, every.alt⟩
  have erase {lo hi : Nat} (le : lo ≤ hi) (within : hi ≤ cols) (style : Style)
      (range : ∀ i < cols, t.reached false mode t.cursor.row i = decide (lo ≤ i ∧ i < hi)) :
      Guarded False ({ t with cursor.pendingWrap := false }.eraseCells t.cursor.row lo hi style selective)
        (Erased K rows cols (· = t.cursor.row) { t with cursor.pendingWrap := false }) :=
    eraseCells_erased still every' row_lt le within style (uncut.inRow h row_lt range)
  have flagged {t₁ : Terminal} (erased : Erased K rows cols (· = t.cursor.row)
      { t with cursor.pendingWrap := false } t₁) :
      Guarded False (t₁.setRowWrapped t.cursor.row false >>= fun t => return t.touch)
        (·.EveryRow Whole) :=
    (setRowWrapped_erased erased _ false).bind fun t₂ erased₂ =>
      .pure ⟨erased₂.every.primary, erased₂.every.alt⟩
  have edge : t.cols - 1 + 1 = cols := by
    have := h.cols_eq
    omega
  unfold eraseLine
  dsimp only
  split
  · refine (Guarded.sub.weaken False.elim).bind ?_
    rintro last ⟨rfl, _⟩
    refine Guarded.bind (erase (Nat.le_of_lt (edge ▸ col_lt)) (Nat.le_of_eq edge) _ ?_) fun t₁ =>
      flagged
    intro i _
    unfold reached
    grind
  · refine (erase (Nat.zero_le _) col_lt _ ?_).bind fun t₁ erased =>
      .pure ⟨erased.every.primary, erased.every.alt⟩
    intro i _
    unfold reached
    grind
  · refine (Guarded.sub.weaken False.elim).bind ?_
    rintro last ⟨rfl, _⟩
    refine Guarded.bind (erase (Nat.zero_le _) (Nat.le_of_eq edge) _ ?_) fun t₁ => flagged
    intro i _
    unfold reached
    grind
  · exact .pure every'

/-! ### Other edits -/

/-- The cursor's row edited and repaired, and the wrap settled. -/
theorem settled_whole {x : Checked Terminal} (hx : Yields x (·.EveryRow Whole)) :
    Guarded False (x >>= fun t => return { t with cursor.pendingWrap := false }.touch)
      (·.EveryRow Whole) :=
  (Guarded.of_yields hx).bind fun _ every => .pure ⟨every.primary, every.alt⟩

theorem insertChars_whole (h : t.Sound K rows cols) (every : t.EveryRow Whole) (n : Nat) :
    Guarded False (t.insertChars n) (·.EveryRow Whole) := by
  unfold insertChars
  dsimp only
  rw [← bind_assoc]
  refine settled_whole ?_
  exact editRow_whole h h.cursor_row every (f := fun cells =>
    forRange 0 (min n (asU16 cells.length)) cells fun _ cells =>
      insertAt cells.dropLast t.cursor.col (Cell.blank t.blankStyle))
    (insertCells_yields h.cursor_col (length_rowCells h h.cursor_row))

theorem deleteChars_whole (h : t.Sound K rows cols) (every : t.EveryRow Whole) (n : Nat) :
    Guarded False (t.deleteChars n) (·.EveryRow Whole) := by
  unfold deleteChars
  dsimp only
  rw [← bind_assoc]
  refine settled_whole ?_
  exact editRow_whole h h.cursor_row every (f := fun cells =>
    forRange 0 (min n (asU16 cells.length)) cells fun _ cells =>
      if t.cursor.col < cells.length then
        removeAt cells t.cursor.col >>= fun removed => return removed.2 ++ [Cell.blank t.blankStyle]
      else return cells)
    (deleteCells_yields (length_rowCells h h.cursor_row))

theorem eraseChars_whole (h : t.Sound K rows cols) (every : t.EveryRow Whole) (n : Nat) :
    Guarded False (t.eraseChars n) (·.EveryRow Whole) := by
  have row_lt := h.cursor_row
  have col_lt := h.cursor_col
  have small := h.cols_small
  have width := length_rowCells h row_lt
  have le : t.cursor.col ≤ min (satAdd 16 t.cursor.col n) t.cols := by
    rw [h.cols_eq]
    unfold satAdd
    omega
  have within : min (satAdd 16 t.cursor.col n) t.cols ≤ cols := by
    rw [h.cols_eq]
    exact Nat.min_le_right _ _
  unfold eraseChars
  dsimp only
  rw [← bind_assoc]
  refine settled_whole ?_
  rw [setCells_eq h row_lt le within]
  refine repairWideHalves_whole h row_lt every _ ?_
  rw [Screen.length_changed, width]

/-- A grid filled with one narrow character. -/
theorem fillGrid_whole (h : t.Sound K rows cols) (every : t.EveryRow Whole) {c : Cell}
    (zero : c.width ≠ 0) (two : c.width ≠ 2) :
    Guarded False (forRange 0 rows t fun row t => forRange 0 cols t fun col t =>
      t.modifyScr (·.setCell row col c)) (·.EveryRow Whole) := by
  refine (Guarded.forRange (I := fun (t' : Terminal) => t'.EveryRow Whole ∧ t'.Sound K rows cols)
    ⟨every, h⟩ ?_).mono fun _ => And.left
  rintro row t' _ inside ⟨every', sound'⟩
  have filled : Screen.changed 0 cols (fun _ => c) (t'.rowCells row) = List.replicate cols c := by
    rw [← length_rowCells sound' inside]
    exact Screen.changed_all c _
  rw [setCells_eq sound' inside (Nat.zero_le _) (Nat.le_refl _), filled]
  exact .ok ⟨every'.withCells (whole_replicate zero two _), sound'.withCells List.length_replicate⟩

theorem decaln_whole (h : t.Sound K rows cols) (every : t.EveryRow Whole) :
    Guarded False t.decaln (·.EveryRow Whole) := by
  unfold decaln
  refine Guarded.bind ((wholeRegion_rearranges t).and (.of_yields (wholeRegion_yields h))) ?_
  rintro t₁ ⟨rearranges₁, sound₁, _⟩
  have every₁ := rearranges₁ Whole whole_blanks every
  have homed : Terminal.Sound K rows cols { t₁ with
      modes.origin := false, cursor.row := 0, cursor.col := 0, cursor.pendingWrap := false } :=
    sound₁.moved rfl sound₁.rows_pos sound₁.cols_pos
  dsimp only
  rw [homed.rows_eq, homed.cols_eq]
  refine (fillGrid_whole homed ⟨every₁.primary, every₁.alt⟩ ?_ ?_).bind fun t' every' =>
    .pure ⟨every'.primary, every'.alt⟩
  · exact show (1 : Nat) ≠ 0 by decide
  · exact show (1 : Nat) ≠ 2 by decide

theorem resize_whole (every : t.EveryRow Whole) (rows cols : Nat) :
    Guarded False (t.resize rows cols) (·.EveryRow Whole) := by
  unfold resize
  dsimp only
  split
  · exact .ok every
  refine (Screen.resize_whole every.primary).bind ?_
  rintro ⟨primary, primaryCur⟩ whole_primary
  refine (Screen.resize_whole every.alt).bind ?_
  rintro ⟨alt, altCur⟩ whole_alt
  apply (Guarded.trivial _).bind
  intro lastRow _
  apply (Guarded.trivial _).bind
  intro lastCol _
  exact .pure ⟨whole_primary, whole_alt⟩

theorem setDeccolm_whole (every : t.EveryRow Whole) (set : Bool) :
    Guarded False (t.setDeccolm set) (·.EveryRow Whole) := by
  unfold setDeccolm
  split
  · exact .ok every
  have noted : { t with modes.deccolm := set }.EveryRow Whole := ⟨every.primary, every.alt⟩
  refine (resize_whole noted _ _).bind ?_
  intro t₁ every₁
  refine (wholeRegion_rearranges t₁).bind ?_
  intro t₂ rearranges₂
  have every₂ := rearranges₂ Whole whole_blanks every₁
  refine Guarded.bind (p := (·.EveryRow Whole)) ?_ fun t' every' =>
    .pure ⟨every'.primary, every'.alt⟩
  split
  · exact .pure every₂
  · exact modifyScr_everyRow every₂ (.pure (every₂.scr.clearGrid whole_blanks _))

/-- What a control that rearranges rows leaves. -/
theorem Rearranges.whole {x : Checked Terminal} (every : t.EveryRow Whole)
    (hx : Guarded False x t.Rearranges) : Guarded False x (·.EveryRow Whole) :=
  hx.mono fun _ rearranges => rearranges Whole whole_blanks every

theorem setDecMode_whole (every : t.EveryRow Whole) (n : Nat) (set : Bool) :
    Guarded False (t.setDecMode n set) (·.EveryRow Whole) := by
  unfold setDecMode
  refine Guarded.bind (p := (·.EveryRow Whole)) ?_ fun t' every' =>
    .pure ⟨every'.primary, every'.alt⟩
  split
  case h_2 => exact setDeccolm_whole every set
  case h_4 =>
    have noted : t.Rearranges { t with modes.origin := set } := rearranges_of_eq rfl
    exact Rearranges.whole every (noted.then (moveTo_rearranges 0 0 _))
  case h_12 => exact Rearranges.whole every (setAltScreen_rearranges 47 set t)
  case h_13 => exact Rearranges.whole every (setAltScreen_rearranges 1047 set t)
  case h_14 => exact Rearranges.whole every (setAltScreen_rearranges 1049 set t)
  case h_24 =>
    split
    · exact Rearranges.whole every (.pure (setSaved_rearranges _ t))
    · exact Rearranges.whole every (restoreCursor_rearranges t)
  case h_27 => exact .pure every
  all_goals exact .pure ⟨every.primary, every.alt⟩

end Terminal

end Posh.Term
