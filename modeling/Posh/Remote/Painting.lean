import Posh.Remote.Display
import Posh.Term.Writes

/-!
What painting a frame does to the outer terminal beside its grid.

Rows, scrolls and cursor moves leave its registers alone but for the cursor's
visibility, which the builder tracks.
-/

namespace Posh.Remote

open Posh.Lib Posh.Term

/-- A snapshot the renderer can render: its texts hold no control characters, its
mouse modes are ones there are, and its title is short enough for a control string. -/
structure Snapshot.Renderable (s : Snapshot) : Prop where
  cells : ∀ row ∈ s.cells, ∀ c ∈ row, c.Graphic
  hyperlinks : ∀ kv ∈ s.hyperlinks, ∀ c ∈ kv.2, Graphic c
  clipboardKinds : ∀ c ∈ s.clipboardKinds, Graphic c
  title : ∀ c ∈ s.title, Graphic c
  titleFits : utf8Length s.title + 2 ≤ MAX_OSC
  mouseMode : ∃ mode : MouseMode, s.mouseMode = mode.decset.getD 0
  mouseEncoding : ∃ protocol : MouseProtocol, s.mouseEncoding = protocol.decset.getD 0

/-- What a terminal shows can be rendered, if its title is short enough. -/
theorem fromTerm_renderable {t : Terminal} (graphic : t.Graphic)
    (fits : utf8Length t.title + 2 ≤ MAX_OSC) :
    Guarded False (Snapshot.fromTerm t) Snapshot.Renderable := by
  have active : t.scr.Every (Screen.Cells Cell.Graphic) := by
    unfold Terminal.scr
    split
    · exact graphic.alt
    · exact graphic.primary
  have links (cells : List Cell) (links : AssocMap (List Char))
      (before : ∀ kv ∈ links, ∀ c ∈ kv.2, Graphic c) :
      ∀ kv ∈ cells.foldl (Snapshot.collectLinks t) links, ∀ c ∈ kv.2, Graphic c := by
    induction cells generalizing links with
    | nil => exact before
    | cons cell rest ih =>
      refine ih _ ?_
      unfold Snapshot.collectLinks
      split
      · split
        · rename_i h found
          intro kv mem
          rcases List.mem_append.mp mem with old | new
          · exact before kv (List.mem_filter.mp old).1
          · rw [List.mem_singleton.mp new]
            obtain ⟨entry, inside, rfl⟩ := Option.map_eq_some_iff.mp found
            exact (graphic.hyperlinks entry (List.mem_of_find?_eq_some inside)).2
        · exact before
      · exact before
  unfold Snapshot.fromTerm
  refine active.visibleRows.bind ?_
  intro grid cells
  apply (Guarded.trivial _).bind
  intro lastRow _
  apply (Guarded.trivial _).bind
  intro lastCol _
  refine .pure ⟨?_, ?_, graphic.clipboardKinds, graphic.title, fits, ⟨_, rfl⟩, ⟨_, rfl⟩⟩
  · intro row mem
    obtain ⟨r, inside, rfl⟩ := List.mem_map.mp mem
    exact cells r inside
  · exact links _ [] fun _ mem => absurd mem List.not_mem_nil

theorem Snapshot.Renderable.linkUri {s : Snapshot} (h : s.Renderable) (id : Nat) :
    ∀ c ∈ s.linkUri id, Graphic c := by
  intro c mem
  unfold Snapshot.linkUri at mem
  split at mem
  · exact absurd mem List.not_mem_nil
  · unfold AssocMap.lookup at mem
    cases found : s.hyperlinks.find? (·.1 == id) with
    | none =>
      rw [found] at mem
      exact absurd mem List.not_mem_nil
    | some kv =>
      rw [found] at mem
      exact h.hyperlinks kv (List.mem_of_find?_eq_some found) c mem

namespace Display

variable {r₀ r : Registers} {frame : FrameState}

namespace FrameState

/-- The stream so far brings the registers from `r₀` to `r`, but for the cursor. -/
def Paints (r₀ r : Registers) (frame : FrameState) : Prop :=
  Brings frame.out r₀ (r.withCursor frame.cursorVisible)

theorem Paints.append (h : frame.Paints r₀ r) {text : List Char} (quiet : Quiet text) :
    (frame.append text).Paints r₀ r :=
  Brings.then (r := r.withCursor frame.cursorVisible) h quiet

/-- Other fields of the builder may change. -/
theorem Paints.of_eq {frame' : FrameState} (h : frame.Paints r₀ r) (out : frame'.out = frame.out)
    (visible : frame'.cursorVisible = frame.cursorVisible) : frame'.Paints r₀ r := by
  unfold Paints
  rw [out, visible]
  exact h

theorem Paints.cursor (h : frame.Paints r₀ r) {visible : Bool} {text : List Char}
    (writes : Writes text (·.withCursor visible)) :
    { frame.append text with cursorVisible := visible }.Paints r₀ r :=
  Brings.then (r := r.withCursor frame.cursorVisible) h writes

theorem Paints.appendN (h : frame.Paints r₀ r) (n : Nat) {ch : Char} (quiet : Quiet [ch]) :
    (frame.appendN n ch).Paints r₀ r :=
  h.append (quiet_replicate quiet n)

theorem Paints.appendCell (h : frame.Paints r₀ r) {cell : Cell} (graphic : cell.Graphic) :
    (frame.appendCell cell).Paints r₀ r :=
  h.append (quiet_shownChar graphic)

theorem Paints.updateStyle (h : frame.Paints r₀ r) (style : Style) (force : Bool) :
    (frame.updateStyle style force).Paints r₀ r := by
  unfold FrameState.updateStyle
  split
  · exact (h.append (quiet_emitSgr style)).of_eq rfl rfl
  · exact h

theorem Paints.updateLink (h : frame.Paints r₀ r) {uri : List Char} (graphic : ∀ c ∈ uri, Graphic c)
    (force : Bool) : (frame.updateLink uri force).Paints r₀ r := by
  have quiet : Quiet ("\x1b]8;;".toList ++ uri ++ "\x1b\\".toList) :=
    quiet_link [] (fun _ mem => absurd mem List.not_mem_nil) graphic
  unfold FrameState.updateLink
  split
  · exact (h.append quiet).of_eq rfl rfl
  · exact h

theorem Paints.closeLink (h : frame.Paints r₀ r) (force : Bool) :
    (frame.updateLink [] force).Paints r₀ r :=
  h.updateLink (fun _ mem => absurd mem List.not_mem_nil) force

theorem decimalInt_natCast (n : Nat) : Terminal.decimalInt n = decimal n := by
  unfold Terminal.decimalInt
  rw [if_neg (by omega), Int.natAbs_natCast]

theorem Paints.appendMove (h : frame.Paints r₀ r) (y x : Nat) :
    (frame.appendMove y x).Paints r₀ r := by
  have moved : { frame with x := (x : Int), y := (y : Int) }.Paints r₀ r := h.of_eq rfl rfl
  unfold FrameState.appendMove
  dsimp only
  split
  · refine Paints.appendN ?_ _ (quiet_control (by decide) (by decide))
    split
    · exact moved.append (quiet_control (by decide) (by decide))
    · exact moved
  split
  · exact moved.appendN _ (quiet_control (by decide) (by decide))
  · refine moved.append ?_
    have row : Terminal.decimalInt ((y : Int) + 1) = decimal (y + 1) := decimalInt_natCast (y + 1)
    have col : Terminal.decimalInt ((x : Int) + 1) = decimal (x + 1) := decimalInt_natCast (x + 1)
    rw [row, col]
    exact quiet_position (y + 1) (x + 1)

theorem writes_cursor (visible : Bool) :
    Writes (setting visible "\x1b[?25h" "\x1b[?25l") (·.withCursor visible) := by
  have writes := (writes_decset (n := 25) visible (by decide)).of_eq (g := (·.withCursor visible)) fun r => rfl
  cases visible with
  | false => exact writes
  | true => exact writes

theorem Paints.appendSilentMove (h : frame.Paints r₀ r) (y x : Nat) :
    (frame.appendSilentMove y x).Paints r₀ r := by
  unfold FrameState.appendSilentMove
  split
  · exact h
  · refine Paints.appendMove ?_ y x
    split
    · exact h.cursor (writes_cursor false)
    · exact h

end FrameState

/-! ### Rows -/

variable {f : Snapshot} {y : Nat}

namespace RowState

variable {s : RowState}

/-- The pending run lies in the columns passed. -/
structure Paints (r₀ r : Registers) (s : RowState) : Prop where
  frame : s.frame.Paints r₀ r
  run : s.clearCount ≤ s.frameX

theorem Paints.toRun (h : s.Paints r₀ r) (renderable : f.Renderable) : (s.toRun f y).Paints r₀ r := by
  have run := h.run
  have start : (s.frameX : Int) - s.clearCount = ((s.frameX - s.clearCount : Nat) : Int) := by omega
  unfold RowState.toRun
  rw [start]
  exact ((h.frame.appendSilentMove y _).updateStyle _ _).updateLink (renderable.linkUri _) _

theorem paints_spaces {frame : FrameState} (h : frame.Paints r₀ r) (s : RowState) :
    (s.spaces frame).Paints r₀ r :=
  (h.appendN _ (quiet_char (by decide))).of_eq rfl rfl

theorem Paints.flushBlank (h : s.Paints r₀ r) (renderable : f.Renderable) :
    (s.flushBlank f y).Paints r₀ r := by
  have toRun := h.toRun (y := y) renderable
  refine ⟨?_, Nat.zero_le _⟩
  unfold RowState.flushBlank
  dsimp only
  split
  · refine toRun.append ?_
    exact quiet_csi _ _ (paramChar_decimal _) (by decide) (by decide) (by decide)
  · exact paints_spaces toRun s

theorem Paints.drawCell (h : s.Paints r₀ r) (renderable : f.Renderable) {rowWrap : Bool} {cell : Cell}
    (graphic : cell.Graphic) : Guarded False (s.drawCell f y rowWrap cell) (·.Paints r₀ r) := by
  have run := h.run
  unfold RowState.drawCell
  refine (Guarded.add.weaken False.elim).bind ?_
  rintro next ⟨rfl, _⟩
  have placed : (if rowWrap ∧ s.frameX + cellWidth cell ≥ f.cols then
      { s.frame with x := -1, y := -1 } else s.frame).Paints r₀ r := by
    split
    · exact h.frame.of_eq rfl rfl
    · exact h.frame
  have moved := placed.appendSilentMove y s.frameX
  have penned := (moved.updateStyle cell.style false).updateLink (renderable.linkUri cell.hyperlink)
    false
  exact .pure ⟨(penned.appendCell graphic).of_eq rfl rfl, Nat.le_trans run (Nat.le_add_right _ _)⟩

theorem Paints.putCell (h : s.Paints r₀ r) (renderable : f.Renderable) {init : Bool}
    {row oldCells : List Cell} {rowWrap : Bool} (graphic : ∀ c ∈ row, c.Graphic) :
    Guarded False (s.putCell init f y row oldCells rowWrap) (·.Paints r₀ r) := by
  have run := h.run
  unfold RowState.putCell
  refine Guarded.bind (p := (· ∈ row)) ?_ ?_
  · exact (Guarded.getAt.weaken False.elim).mono fun c found => List.mem_of_getElem? found
  intro cell mem
  split
  · refine (Guarded.add.weaken False.elim).bind ?_
    rintro next ⟨rfl, _⟩
    exact .pure ⟨h.frame, Nat.le_trans run (Nat.le_add_right _ _)⟩
  split
  · refine (Guarded.add.weaken False.elim).bind ?_
    rintro next ⟨rfl, _⟩
    exact .pure ⟨h.frame, Nat.le_trans run (Nat.le_add_right _ _)⟩
  · have noted : (if cell.isBlank ∧ s.clearCount = 0 then
        { s with blankStyle := cell.style, blankLink := cell.hyperlink } else s).Paints r₀ r := by
      split
      · exact ⟨h.frame, h.run⟩
      · exact h
    generalize (if cell.isBlank ∧ s.clearCount = 0 then
        { s with blankStyle := cell.style, blankLink := cell.hyperlink } else s) = s' at noted
    have run' := noted.run
    dsimp only
    split
    · refine (Guarded.add.weaken False.elim).bind ?_
      rintro next ⟨rfl, _⟩
      exact .pure ⟨noted.frame, Nat.succ_le_succ run'⟩
    split
    · have flushed := noted.flushBlank (y := y) renderable
      split
      · refine (Guarded.add.weaken False.elim).bind ?_
        rintro next ⟨rfl, _⟩
        exact .pure ⟨flushed.frame, Nat.succ_le_succ (Nat.zero_le _)⟩
      · exact flushed.drawCell renderable (graphic cell mem)
    · exact noted.drawCell renderable (graphic cell mem)

theorem Paints.putCells (h : s.Paints r₀ r) (renderable : f.Renderable) {init : Bool}
    {row oldCells : List Cell} {rowWrap : Bool} (graphic : ∀ c ∈ row, c.Graphic) (fuel : Nat) :
    Guarded False (s.putCells init f y row oldCells rowWrap fuel) (·.Paints r₀ r) := by
  induction fuel generalizing s with
  | zero => exact .ok h
  | succ fuel ih =>
    unfold RowState.putCells
    split
    · exact (h.putCell renderable graphic).bind fun s' h' => ih h'
    · exact .ok h

/-- Every pass moves right. -/
theorem putCell_advances (init : Bool) (f : Snapshot) (y : Nat) (row oldCells : List Cell)
    (rowWrap : Bool) (s : RowState) :
    Guarded False (s.putCell init f y row oldCells rowWrap) (s.frameX < ·.frameX) := by
  have wide (cell : Cell) : 1 ≤ cellWidth cell := Nat.le_max_right _ _
  have draws (s : RowState) (cell : Cell) :
      Guarded False (s.drawCell f y rowWrap cell) (s.frameX < ·.frameX) := by
    unfold RowState.drawCell
    refine (Guarded.add.weaken False.elim).bind ?_
    rintro next ⟨rfl, _⟩
    exact .pure (Nat.lt_add_of_pos_right (wide cell))
  unfold RowState.putCell
  apply (Guarded.trivial _).bind
  intro cell _
  split
  · refine (Guarded.add.weaken False.elim).bind ?_
    rintro next ⟨rfl, _⟩
    exact .pure (Nat.lt_add_of_pos_right (wide cell))
  split
  · refine (Guarded.add.weaken False.elim).bind ?_
    rintro next ⟨rfl, _⟩
    exact .pure (Nat.lt_succ_self _)
  · have noted : (if cell.isBlank ∧ s.clearCount = 0 then
        { s with blankStyle := cell.style, blankLink := cell.hyperlink } else s).frameX = s.frameX := by
      split <;> rfl
    generalize (if cell.isBlank ∧ s.clearCount = 0 then
        { s with blankStyle := cell.style, blankLink := cell.hyperlink } else s) = s' at noted
    rw [← noted]
    dsimp only
    split
    · refine (Guarded.add.weaken False.elim).bind ?_
      rintro next ⟨rfl, _⟩
      exact .pure (Nat.lt_succ_self _)
    split
    · split
      · refine (Guarded.add.weaken False.elim).bind ?_
        rintro next ⟨rfl, _⟩
        exact .pure (Nat.lt_succ_self _)
      · exact draws (s'.flushBlank f y) cell
    · exact draws s' cell

/-- The passes reach the end of the row. -/
theorem putCells_covers (init : Bool) (f : Snapshot) (y : Nat) (row oldCells : List Cell)
    (rowWrap : Bool) {fuel : Nat} {s : RowState} (enough : f.cols ≤ s.frameX + fuel) :
    Guarded False (s.putCells init f y row oldCells rowWrap fuel) (f.cols ≤ ·.frameX) := by
  induction fuel generalizing s with
  | zero => exact .ok enough
  | succ fuel ih =>
    unfold RowState.putCells
    split
    · refine (putCell_advances init f y row oldCells rowWrap s).bind ?_
      intro s' advanced
      exact ih (by omega)
    · rename_i past
      exact .ok (Nat.not_lt.mp past)

theorem Paints.clearEnd (h : s.Paints r₀ r) (renderable : f.Renderable) (rowWrap : Bool) :
    (s.clearEnd f y rowWrap).frame.Paints r₀ r := by
  have toRun := h.toRun (y := y) renderable
  unfold RowState.clearEnd
  split
  · dsimp only
    split
    · exact toRun.append (quiet_csi [] _ (fun _ mem => absurd mem List.not_mem_nil)
        (by decide) (by decide) (by decide))
    · exact paints_spaces toRun s
  · exact h.frame

end RowState

theorem putWrapped_paints (h : frame.Paints r₀ r) (renderable : f.Renderable) {row : List Cell}
    (graphic : ∀ c ∈ row, c.Graphic) :
    Guarded False (putWrapped f row frame) (·.Paints r₀ r) := by
  unfold putWrapped
  refine Guarded.bind (p := (· ∈ row)) ?_ ?_
  · exact (Guarded.getAt.weaken False.elim).mono fun c found => List.mem_of_getElem? found
  intro cell mem
  have penned := (h.updateStyle cell.style false).updateLink (renderable.linkUri cell.hyperlink) false
  exact .pure ⟨(penned.appendCell (graphic cell mem)).of_eq rfl rfl, Nat.zero_le _⟩

theorem putRow_paints (h : frame.Paints r₀ r) (renderable : f.Renderable) (init : Bool)
    (oldCells : List Cell) (wrap : Bool) :
    Guarded False (putRow init f y oldCells wrap frame) (·.1.Paints r₀ r) := by
  unfold putRow
  refine Guarded.bind (p := (· ∈ f.cells)) ?_ ?_
  · exact (Guarded.getAt.weaken False.elim).mono fun c found => List.mem_of_getElem? found
  intro row mem
  have graphic := renderable.cells row mem
  apply (Guarded.trivial _).bind
  intro rowWrap _
  refine Guarded.bind (p := RowState.Paints r₀ r) ?_ ?_
  · split
    · exact putWrapped_paints h renderable graphic
    · exact .pure ⟨h, Nat.zero_le _⟩
  intro s start
  refine (start.putCells renderable graphic _).bind ?_
  intro s' done
  have ended := done.clearEnd (y := y) renderable rowWrap
  dsimp only
  split
  · exact .pure ended
  split
  · exact .pure (ended.of_eq rfl rfl)
  · have newline : Quiet "\r\n".toList :=
      quiet_control (c := '\r') (by decide) (by decide) |>.append
        (quiet_control (c := '\n') (by decide) (by decide))
    exact .pure ((ended.append newline).of_eq rfl rfl)

theorem putRows_paints (h : frame.Paints r₀ r) (renderable : f.Renderable) (init : Bool)
    (rows : List (List Cell)) (y : Nat) (wrap : Bool) :
    Guarded False (putRows init f y rows wrap frame) (·.Paints r₀ r) := by
  induction rows generalizing frame y wrap with
  | nil => exact .ok h
  | cons oldCells rest ih =>
    refine (putRow_paints h renderable init oldCells wrap).bind ?_
    rintro ⟨frame', wrap'⟩ h'
    exact ih h' (y + 1) wrap'

/-! ### Frames -/

theorem scrollFrame_paints (h : frame.Paints r₀ r) (linesScrolled scrollHeight : Nat) :
    (scrollFrame f linesScrolled scrollHeight frame).Paints r₀ r := by
  have penned := (h.updateStyle {} true).closeLink true
  have newline : Quiet ['\n'] := quiet_control (by decide) (by decide)
  unfold scrollFrame
  dsimp only
  split
  · have returned := penned.append (quiet_control (c := '\r') (by decide) (by decide))
    exact (returned.appendN linesScrolled newline).of_eq rfl rfl
  · have region := penned.append (quiet_region 1 (linesScrolled + scrollHeight - 1 + 1))
    have lost : { ((frame.updateStyle {} true).updateLink [] true).append
        ("\x1b[".toList ++ decimal 1 ++ ";".toList ++
          decimal (linesScrolled + scrollHeight - 1 + 1) ++ "r".toList) with
        x := -1, y := -1 }.Paints r₀ r :=
      region.of_eq rfl rfl
    have scrolled := (lost.appendSilentMove (linesScrolled + scrollHeight - 1) 0).appendN
      linesScrolled newline
    have whole : Quiet "\x1b[r".toList :=
      quiet_csi [] _ (fun _ mem => absurd mem List.not_mem_nil) (by decide) (by decide)
        (by decide)
    exact (scrolled.append whole).of_eq rfl rfl

theorem scrollShortcut_paints (h : frame.Paints r₀ r) (last f : Snapshot) (blankRow : List Cell)
    (rows : List (List Cell)) :
    Guarded False (scrollShortcut last f blankRow rows frame) (·.1.Paints r₀ r) := by
  unfold scrollShortcut
  apply (Guarded.trivial _).bind
  rintro ⟨linesScrolled, scrollHeight⟩ _
  dsimp only
  split
  · apply (Guarded.trivial _).bind
    intro rows' _
    exact .pure (scrollFrame_paints h linesScrolled scrollHeight)
  · exact .pure h

theorem paint_paints (h : frame.Paints r₀ r) (renderable : f.Renderable) (init : Bool)
    (last : Snapshot) : Guarded False (paint init last f frame) (·.Paints r₀ r) := by
  unfold paint
  refine Guarded.bind (p := fun out => out.1.Paints r₀ r) ?_ ?_
  · split
    · exact scrollShortcut_paints h last f _ _
    · exact .pure h
  rintro ⟨frame', rows, frameY⟩ h'
  exact putRows_paints h' renderable init _ _ _

/-- A clear screen leaves the registers alone. -/
theorem quiet_clear : Quiet "\x1b[r\x1b[0m\x1b[H\x1b[2J".toList := by
  have empty : ∀ c ∈ ([] : List Char), IsParamChar c := fun _ mem => absurd mem List.not_mem_nil
  have region := quiet_csi [] 'r' empty (by decide) (by decide) (by decide)
  have pen := quiet_csi ['0'] 'm' (forall_of_all rfl) (by decide) (by decide) (by decide)
  have home := quiet_csi [] 'H' empty (by decide) (by decide) (by decide)
  have erase := quiet_csi ['2'] 'J' (forall_of_all rfl) (by decide) (by decide) (by decide)
  exact ((region.append pen).append home).append erase

/-- Painting starts with the cursor as the outer terminal has it. -/
theorem frameStart_paints {last : Snapshot} (h : Brings frame.out r₀ r) (init : Bool)
    (tracked : init = true → r.withCursor frame.cursorVisible = r) :
    (frameStart init last frame).Paints r₀ r := by
  unfold frameStart
  cases init with
  | false =>
    have cleared : Brings (frame.out ++ "\x1b[r\x1b[0m\x1b[H\x1b[2J".toList) r₀ r :=
      Brings.then (r := r) h quiet_clear
    exact Brings.then (r := r) cleared (FrameState.writes_cursor false)
  | true =>
    change Brings frame.out r₀ (r.withCursor frame.cursorVisible)
    rw [tracked rfl]
    exact h

/-- At the end of a frame the cursor is as the frame has it. -/
theorem frameCursor_brings (h : frame.Paints r₀ r) (init : Bool) (f : Snapshot) :
    Brings (frameCursor init f frame).out r₀ (r.withCursor f.cursorVisible) := by
  unfold frameCursor
  extract_lets placed written shown
  have placed_paints : placed.Paints r₀ r := by
    change (if _ then _ else _ : FrameState).Paints r₀ r
    split
    · exact h.appendMove f.cursorRow f.cursorCol
    · exact h
  have shown_paints : shown.Paints r₀ r ∧ shown.cursorVisible = f.cursorVisible := by
    have changed := placed_paints.cursor (FrameState.writes_cursor f.cursorVisible)
    by_cases differs : !init ∨ f.cursorVisible ≠ placed.cursorVisible
    · have eq : shown = { written with cursorVisible := f.cursorVisible } := if_pos differs
      rw [eq]
      exact ⟨changed, rfl⟩
    · have eq : shown = placed := if_neg differs
      rw [not_or, not_not] at differs
      rw [eq]
      exact ⟨placed_paints, differs.2.symm⟩
  obtain ⟨paints, visible⟩ := shown_paints
  have penned := (paints.updateStyle {} (!init)).closeLink (!init)
  have still : ((shown.updateStyle {} (!init)).updateLink [] (!init)).cursorVisible =
      shown.cursorVisible := by
    unfold FrameState.updateLink FrameState.updateStyle
    split <;> split <;> rfl
  unfold FrameState.Paints at penned
  rw [still, visible] at penned
  exact penned

end Display

end Posh.Remote
