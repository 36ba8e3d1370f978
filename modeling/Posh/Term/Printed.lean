import Posh.Term.Rearranging
import Posh.Term.Streams

/-!
Cells hold what was printed.

A character is written into a cell of its own width, and a character of width zero into the
marks of a cell; no C1 control gets into either. The other controls make blanks, move cells or
drop them.
-/

namespace Posh.Term

open Posh.Lib

/-- A code point that acts as a C1 control. -/
def IsC1 (c : Char) : Prop :=
  0x80 ≤ c.toNat ∧ c.toNat < 0xA0

instance : DecidablePred IsC1 :=
  fun c => inferInstanceAs (Decidable (0x80 ≤ c.toNat ∧ c.toNat < 0xA0))

/-- A character in a cell of its own width, with its marks. -/
structure Cell.Printed (c : Cell) : Prop where
  width : c.width = wcwidth c.ch
  control : ¬ IsC1 c.ch
  marks : ∀ x ∈ c.extra, wcwidth x = 0 ∧ ¬ IsC1 x

theorem printed_blank (style : Style) : (Cell.blank style).Printed :=
  ⟨rfl, show ¬ IsC1 ' ' by decide, nofun⟩

theorem printed_spacer (c : Cell) : c.spacer.Printed :=
  ⟨rfl, show ¬ IsC1 '\x00' by decide, nofun⟩

theorem printed_char {c : Char} (control : ¬ IsC1 c) (style : Style) (hyperlink : Nat) :
    Cell.Printed { ch := c, style, width := wcwidth c, hyperlink } :=
  ⟨rfl, control, nofun⟩

theorem Cell.Printed.mark {cell : Cell} (h : cell.Printed) {c : Char} (zero : wcwidth c = 0)
    (control : ¬ IsC1 c) : Cell.Printed { cell with extra := cell.extra ++ [c] } := by
  refine ⟨h.width, h.control, fun x mem => ?_⟩
  rcases List.mem_append.mp mem with old | new
  · exact h.marks x old
  · rw [List.mem_singleton.mp new]
    exact ⟨zero, control⟩

theorem Cell.Printed.shows {c : Cell} (printed : c.Printed) (graphic : c.Graphic)
    (visible : c.width ≠ 0) : Term.Graphic c.ch ∧ c.ch ≠ '\x7f' := by
  rw [printed.width] at visible
  refine ⟨graphic.ch.resolve_left ?_, ?_⟩
  · intro zero
    rw [zero] at visible
    exact visible rfl
  · intro delete
    rw [delete] at visible
    exact visible rfl

theorem blanks_printed (n : Nat) (style : Style) :
    Screen.Cells Cell.Printed (List.replicate n (Cell.blank style)) :=
  Screen.cells_blank printed_blank n style

/-- Line drawing leads to no control. -/
theorem decSpecial_control {c : Char} (control : ¬ IsC1 c) : ¬ IsC1 (decSpecial c) := by
  unfold decSpecial
  split
  all_goals first
    | decide
    | exact control

namespace Terminal

open Screen

variable {t : Terminal}

/-- Every cell of either screen holds what was printed. -/
def Printed (t : Terminal) : Prop :=
  t.EveryRow (Cells Cell.Printed)

theorem Rearranges.printed {x : Checked Terminal} (h : t.Printed)
    (hx : Guarded False x t.Rearranges) : Guarded False x Printed :=
  hx.mono fun _ rearranges => rearranges _ blanks_printed h

/-- A change of other fields. -/
theorem Printed.of_eq (h : t.Printed) {t' : Terminal}
    (screens : (t'.primary, t'.alt) = (t.primary, t.alt)) : t'.Printed :=
  rearranges_of_eq screens _ blanks_printed h

theorem printed_touch {x : Checked Terminal} (hx : Guarded False x Printed) :
    Guarded False (x >>= fun t => return t.touch) Printed :=
  hx.bind fun _ printed => .pure (printed.of_eq rfl)

/-! ### Printing -/

theorem mapCharset_control {c : Char} (control : ¬ IsC1 c) (t : Terminal) :
    ¬ IsC1 (t.mapCharset c) := by
  unfold mapCharset
  split
  · exact control
  · split
    · decide
    · exact control
  · exact decSpecial_control control

theorem modifyCell_printed (h : t.Printed) (row col : Nat) {f : Cell → Cell}
    (keeps : ∀ c : Cell, c.Printed → (f c).Printed) :
    Guarded False (t.modifyScr (·.modifyCell row col f)) Printed :=
  modifyScr_everyRow h (modifyCell_every h.scr keeps)

theorem setCell_printed (h : t.Printed) (row col : Nat) {c : Cell} (printed : c.Printed) :
    Guarded False (t.modifyScr (·.setCell row col c)) Printed :=
  modifyCell_printed h row col fun _ _ => printed

theorem modifyRow_printed (h : t.Printed) (row : Nat) {f : List Cell → Checked (List Cell)}
    (keeps : ∀ cells, Cells Cell.Printed cells → Guarded False (f cells) (Cells Cell.Printed)) :
    Guarded False (t.modifyScr (·.modifyRow row fun r => do
      let cells ← f r.cells
      return { r with cells })) Printed :=
  modifyScr_everyRow h (modifyRow_every h.scr fun r _ cells =>
    (keeps r.cells cells).bind fun _ kept => .pure kept)

theorem repairCell_printed (h : t.Printed) (row : Nat) (style : Style) (c : Nat) :
    Guarded False (t.repairCell row style c) Printed := by
  apply (Guarded.trivial _).bind
  intro orphaned _
  split
  · exact setCell_printed h row c (printed_blank style)
  · exact .pure h

theorem repairWideHalves_printed (h : t.Printed) (row : Nat) :
    Guarded False (t.repairWideHalves row) Printed :=
  Guarded.forRange h fun c _ _ _ h => repairCell_printed h row _ c

theorem insertBlanks_printed (h : t.Printed) (row col n : Nat) :
    Guarded False (t.insertBlanks row col n) Printed := by
  refine (modifyRow_printed h row fun cells printed =>
    Screen.insertBlanks_cells printed_blank printed).bind ?_
  intro t' h'
  exact repairWideHalves_printed h' row

theorem cleanWide_printed (h : t.Printed) (row col w : Nat) :
    Guarded False (t.cleanWide row col w) Printed := by
  have cleared {t' : Terminal} (h' : t'.Printed) (c : Nat) :
      Guarded False (t'.modifyScr (·.setCell row c (Cell.blank t.blankStyle))) Printed :=
    setCell_printed h' row c (printed_blank _)
  unfold cleanWide
  dsimp only
  refine Guarded.bind (p := Printed) ?_ fun t' h' => Guarded.forRange h' ?_
  · split
    · exact cleared h _
    · exact .pure h
  · intro i t' _ _ h'
    apply (Guarded.trivial _).bind
    intro c _
    split
    · exact .pure h'
    · split
      · apply (Guarded.trivial _).bind
        intro next _
        split
        · exact cleared h' _
        · exact .pure h'
      · exact .pure h'

theorem combine_printed (h : t.Printed) {c : Char} (zero : wcwidth c = 0) (control : ¬ IsC1 c) :
    Guarded False (t.combine c) Printed := by
  unfold combine
  split
  · exact .ok h
  · exact printed_touch (modifyCell_printed h _ _ fun cell printed => printed.mark zero control)

theorem fitWide_printed (h : t.Printed) (w : Nat) :
    Guarded False (t.fitWide w) fun fitted => ∀ t' ∈ fitted, t'.Printed := by
  have some_ {t' : Terminal} (h' : t'.Printed) : ∀ t'' ∈ some t', t''.Printed := by
    rintro _ ⟨⟩
    exact h'
  unfold fitWide
  apply (Guarded.trivial _).bind
  intro next _
  split
  · split
    · refine (setCell_printed h _ _ (printed_blank _)).bind fun t₁ h₁ => ?_
      refine (Rearranges.printed h₁ (wrapLine_rearranges t₁)).bind fun t₂ h₂ => ?_
      exact .pure (some_ h₂)
    · split
      · apply (Guarded.trivial _).bind
        intro col _
        exact .pure (some_ (h.of_eq rfl))
      · exact .pure fun _ mem => absurd mem (Option.not_mem_none _)
  · exact .pure (some_ h)

theorem putChar_printed (h : t.Printed) {c : Char} (control : ¬ IsC1 c) :
    Guarded False (t.putChar c (wcwidth c)) Printed := by
  have cell := printed_char control t.cursor.style t.cursor.hyperlink
  unfold putChar
  dsimp only
  refine Guarded.bind (p := Printed) ?_ fun t₁ h₁ => ?_
  · split
    · exact insertBlanks_printed h _ _ _
    · exact .pure h
  refine (cleanWide_printed h₁ _ _ _).bind fun t₂ h₂ => ?_
  refine (setCell_printed h₂ _ _ (printed_char control _ _)).bind fun t₃ h₃ => ?_
  refine Guarded.bind (p := Printed) ?_ fun t₄ h₄ => ?_
  · split
    · apply (Guarded.trivial _).bind
      intro next _
      exact setCell_printed h₃ _ _ (printed_spacer _)
    · exact .pure h₃
  apply (Guarded.trivial _).bind
  intro newCol _
  split
  · apply (Guarded.trivial _).bind
    intro last _
    exact .pure (h₄.of_eq rfl)
  · exact .pure (h₄.of_eq rfl)

theorem print_printed (h : t.Printed) (c : Char) : Guarded False (t.print c) Printed := by
  unfold print
  split
  · exact Rearranges.printed h (execute_rearranges _ t)
  · rename_i control
    have mapped := mapCharset_control control t
    dsimp only
    split
    · rename_i zero
      exact combine_printed h zero mapped
    · have noted : { t.touch with lastPrinted := some (t.mapCharset c) }.Printed := h.of_eq rfl
      unfold printWide
      dsimp only
      refine (Rearranges.printed noted (wrapPending_rearranges _)).bind fun t₁ h₁ => ?_
      refine (fitWide_printed h₁ _).bind fun fitted kept => ?_
      cases fitted with
      | none => exact .pure h₁
      | some t₂ => exact putChar_printed (kept t₂ rfl) mapped

/-! ### Erasing and editing -/

theorem eraseCells_printed (h : t.Printed) (row lo hi : Nat) (style : Style) (selective : Bool) :
    Guarded False (t.eraseCells row lo hi style selective) Printed := by
  refine Guarded.forRange h fun c t' _ _ h' => modifyCell_printed h' row c fun cell printed => ?_
  split
  · exact printed
  · exact printed_blank style

theorem eraseRow_printed (h : t.Printed) (row : Nat) (style : Style) (selective : Bool) :
    Guarded False (t.eraseRow row style selective) Printed := by
  unfold eraseRow
  split
  · refine (eraseCells_printed h row 0 _ style true).bind fun t' h' => ?_
    exact Rearranges.printed h' (setRowWrapped_rearranges row false t')
  · exact modifyScr_everyRow h (modifyRow_every h.scr fun r _ _ => .pure (blanks_printed _ style))

theorem eraseRows_printed (h : t.Printed) (lo hi : Nat) (style : Style) (selective : Bool) :
    Guarded False (t.eraseRows lo hi style selective) Printed :=
  Guarded.forRange h fun r _ _ _ h' => eraseRow_printed h' r style selective

theorem eraseDisplay_printed (h : t.Printed) (mode : Nat) (selective : Bool) :
    Guarded False (t.eraseDisplay mode selective) Printed := by
  have still : { t with cursor.pendingWrap := false }.Printed := h.of_eq rfl
  unfold eraseDisplay
  dsimp only
  refine printed_touch ?_
  split
  · refine (eraseCells_printed still _ _ _ _ selective).bind fun t₁ h₁ => ?_
    refine (Rearranges.printed h₁ (setRowWrapped_rearranges _ false t₁)).bind fun t₂ h₂ => ?_
    apply (Guarded.trivial _).bind
    intro below _
    exact eraseRows_printed h₂ _ _ _ selective
  · refine (eraseRows_printed still _ _ _ selective).bind fun t₁ h₁ => ?_
    exact eraseCells_printed h₁ _ _ _ _ selective
  · exact eraseRows_printed still _ _ _ selective
  · exact modifyScr_everyRow still (.pure still.scr.clearScrollback)
  · exact .pure still

theorem eraseLine_printed (h : t.Printed) (mode : Nat) (selective : Bool) :
    Guarded False (t.eraseLine mode selective) Printed := by
  have still : { t with cursor.pendingWrap := false }.Printed := h.of_eq rfl
  have erased (lo hi : Nat) : Guarded False (do
      let t₁ ← { t with cursor.pendingWrap := false }.eraseCells t.cursor.row lo hi t.blankStyle
        selective
      let t₂ ← t₁.setRowWrapped t.cursor.row false
      return t₂.touch) Printed := by
    refine (eraseCells_printed still _ lo hi _ selective).bind fun t₁ h₁ => ?_
    exact printed_touch (Rearranges.printed h₁ (setRowWrapped_rearranges _ false t₁))
  unfold eraseLine
  dsimp only
  split
  · apply (Guarded.trivial _).bind
    intro last _
    exact erased _ _
  · exact printed_touch (eraseCells_printed still _ _ _ _ selective)
  · apply (Guarded.trivial _).bind
    intro last _
    exact erased _ _
  · exact .pure still

/-- The halves repaired and the wrap settled at the end of an edit of a row. -/
theorem edit_printed {x : Checked Terminal} (hx : Guarded False x Printed) (row : Nat) :
    Guarded False (x >>= fun t => do
      let t ← t.repairWideHalves row
      return { t with cursor.pendingWrap := false }.touch) Printed := by
  refine hx.bind fun t₁ h₁ => (repairWideHalves_printed h₁ row).bind fun t₂ h₂ => ?_
  exact .pure (h₂.of_eq rfl)

theorem insertChars_printed (h : t.Printed) (n : Nat) : Guarded False (t.insertChars n) Printed :=
  edit_printed (modifyRow_printed h _ (f := fun cells =>
    forRange 0 (min n (asU16 cells.length)) cells fun _ cells =>
      insertAt cells.dropLast t.cursor.col (Cell.blank t.blankStyle))
    fun _ printed => Screen.insertBlanks_cells printed_blank printed) _

theorem deleteChars_printed (h : t.Printed) (n : Nat) : Guarded False (t.deleteChars n) Printed :=
  edit_printed (modifyRow_printed h _ (f := fun cells =>
    forRange 0 (min n (asU16 cells.length)) cells fun _ cells =>
      if t.cursor.col < cells.length then
        removeAt cells t.cursor.col >>= fun removed => return removed.2 ++ [Cell.blank t.blankStyle]
      else return cells)
    fun _ printed => Screen.deleteCells_cells printed_blank printed) _

theorem eraseChars_printed (h : t.Printed) (n : Nat) : Guarded False (t.eraseChars n) Printed :=
  edit_printed (Guarded.forRange h fun c _ _ _ h' =>
    setCell_printed h' _ c (printed_blank t.blankStyle)) _

theorem repeat_printed (h : t.Printed) (n : Nat) : Guarded False (t.repeat n) Printed := by
  unfold «repeat»
  split
  · apply (Guarded.trivial _).bind
    intro cap _
    exact Guarded.forRange h fun _ _ _ _ h' => print_printed h' _
  · exact .ok h

theorem decaln_printed (h : t.Printed) : Guarded False t.decaln Printed := by
  have letter : Cell.Printed { ch := 'E', width := 1 } := ⟨rfl, by decide, nofun⟩
  unfold decaln
  refine (Rearranges.printed h (wholeRegion_rearranges t)).bind fun t₁ h₁ => ?_
  refine printed_touch (Guarded.forRange (h₁.of_eq rfl) fun r _ _ _ h₂ => ?_)
  exact Guarded.forRange h₂ fun c _ _ _ h₃ => setCell_printed h₃ r c letter

theorem resize_printed (h : t.Printed) (rows cols : Nat) :
    Guarded False (t.resize rows cols) Printed := by
  have resized {s : Screen} (every : s.Every (Cells Cell.Printed)) {cursor : Nat × Nat} {reflow : Bool} :
      Guarded False (s.resize (max rows 1) (max cols 1) cursor reflow)
        (·.1.Every (Cells Cell.Printed)) :=
    Screen.resize_every blanks_printed
      (Screen.resizeCols_every printed_blank (fun c _ => printed_spacer c) every)
  unfold resize
  dsimp only
  split
  · exact .ok h
  · refine (resized h.primary).bind ?_
    rintro ⟨primary, primaryCur⟩ primary_printed
    refine (resized h.alt).bind ?_
    rintro ⟨alt, altCur⟩ alt_printed
    apply (Guarded.trivial _).bind
    intro lastRow _
    apply (Guarded.trivial _).bind
    intro lastCol _
    exact .pure ⟨primary_printed, alt_printed⟩

theorem setDeccolm_printed (h : t.Printed) (set : Bool) : Guarded False (t.setDeccolm set) Printed := by
  unfold setDeccolm
  split
  · exact .ok h
  have noted : { t with modes.deccolm := set }.Printed := h.of_eq rfl
  refine (resize_printed noted _ _).bind fun t₁ h₁ => ?_
  refine (Rearranges.printed h₁ (wholeRegion_rearranges t₁)).bind fun t₂ h₂ => ?_
  refine Guarded.bind (p := Printed) ?_ fun t₃ h₃ => .pure (h₃.of_eq rfl)
  split
  · exact .pure h₂
  · exact modifyScr_everyRow h₂ (.pure (h₂.scr.clearGrid blanks_printed _))

/-! ### Dispatch -/

theorem setDecMode_printed (h : t.Printed) (n : Nat) (set : Bool) :
    Guarded False (t.setDecMode n set) Printed := by
  unfold setDecMode
  refine Guarded.bind (p := Printed) ?_ fun t' h' => .pure (h'.of_eq rfl)
  split
  case h_2 => exact setDeccolm_printed h set
  case h_4 =>
    have noted : t.Rearranges { t with modes.origin := set } := rearranges_of_eq rfl
    exact Rearranges.printed h (noted.then (moveTo_rearranges 0 0 _))
  case h_12 => exact Rearranges.printed h (setAltScreen_rearranges 47 set t)
  case h_13 => exact Rearranges.printed h (setAltScreen_rearranges 1047 set t)
  case h_14 => exact Rearranges.printed h (setAltScreen_rearranges 1049 set t)
  case h_24 =>
    split
    · exact Rearranges.printed h (.pure (setSaved_rearranges _ t))
    · exact Rearranges.printed h (restoreCursor_rearranges t)
  case h_27 => exact .pure h
  all_goals exact .pure (h.of_eq rfl)

theorem setDecModes_printed (h : t.Printed) (params : Params) (set : Bool) :
    Guarded False (t.setDecModes params set) Printed :=
  Guarded.forEach h fun p _ _ h' => setDecMode_printed h' (firstPart p) set

theorem csiPlain_printed (h : t.Printed) (params : Params) (final : Char) :
    Guarded False (t.csiPlain params final) Printed := by
  have moved {x : Checked Terminal} (hx : Guarded False x t.Rearranges) : Guarded False x Printed :=
    Rearranges.printed h hx
  unfold csiPlain
  split
  · exact moved (cursorUp_rearranges _ t)
  · exact moved (cursorDown_rearranges _ t)
  · exact moved (setCol_rearranges _ t)
  · exact .ok (h.of_eq rfl)
  · exact (moved (cursorDown_rearranges _ t)).bind fun _ h' => .pure (h'.of_eq rfl)
  · exact (moved (cursorUp_rearranges _ t)).bind fun _ h' => .pure (h'.of_eq rfl)
  · exact (Guarded.trivial _).bind fun col _ => moved (setCol_rearranges col t)
  · exact (Guarded.trivial _).bind fun col _ => moved (setCol_rearranges col t)
  · exact (Guarded.trivial _).bind fun row _ => (Guarded.trivial _).bind fun col _ =>
      moved (moveTo_rearranges row col t)
  · exact (Guarded.trivial _).bind fun row _ => (Guarded.trivial _).bind fun col _ =>
      moved (moveTo_rearranges row col t)
  · exact Guarded.forRange h fun _ t' _ _ h' => Rearranges.printed h' (horizontalTab_rearranges t')
  · exact eraseDisplay_printed h _ false
  · exact eraseLine_printed h _ false
  · exact moved (insertLines_rearranges _ t)
  · exact moved (deleteLines_rearranges _ t)
  · exact deleteChars_printed h _
  · exact moved (scrollUpN_rearranges _ t)
  · exact moved (scrollDownN_rearranges _ t)
  · exact eraseChars_printed h _
  · exact Guarded.forRange h fun _ _ _ _ h' => .pure (h'.of_eq rfl)
  · exact insertChars_printed h _
  · exact moved (setCol_rearranges _ t)
  · exact repeat_printed h _
  · refine .ok ?_
    split
    · exact h.of_eq rfl
    · exact h
  · exact moved (rowAbsolute_rearranges params t)
  · exact (Guarded.trivial _).bind fun last _ => .pure (h.of_eq rfl)
  · exact moved (.ok (clearTabs_rearranges _ t))
  · exact .ok (h.of_eq rfl)
  · exact .ok (h.of_eq rfl)
  · exact moved (.ok (sgr_rearranges params t))
  · exact moved (statusReport_rearranges _ t)
  · exact moved (setRegion_rearranges params t)
  · exact moved (.ok (setSaved_rearranges _ t))
  · exact moved (restoreCursor_rearranges t)
  · exact moved (windowOps_rearranges _ t)
  · exact .ok h

theorem csiQuestion_printed (h : t.Printed) (params : Params) (final : Char) :
    Guarded False (t.csiQuestion params final) Printed := by
  unfold csiQuestion
  split
  · exact eraseDisplay_printed h _ true
  · exact eraseLine_printed h _ true
  · exact setDecModes_printed h params true
  · exact setDecModes_printed h params false
  · split
    · exact Rearranges.printed h (extendedCursorReport_rearranges t)
    · exact .ok h
  · exact .ok (h.of_eq rfl)
  · exact .ok h

theorem csiDispatch_printed (h : t.Printed) (params : Params) (intermediates : Bytes)
    (marker finalByte : UInt8) :
    Guarded False (t.csiDispatch params intermediates marker finalByte) Printed := by
  unfold csiDispatch
  dsimp only
  split
  · split
    · exact csiPlain_printed h params _
    · exact csiQuestion_printed h params _
    · exact Rearranges.printed h (.ok (csiMarked_rearranges params _ _ t))
  · split
    · exact Rearranges.printed h (csiWith_rearranges params _ _ t)
    · refine .ok ?_
      split
      · exact h.of_eq rfl
      · exact h
    · exact .ok h

theorem escDispatch_printed (h : t.Printed) (intermediates : Bytes) (finalByte : UInt8) :
    Guarded False (t.escDispatch intermediates finalByte) Printed := by
  have moved {x : Checked Terminal} (hx : Guarded False x t.Rearranges) : Guarded False x Printed :=
    Rearranges.printed h hx
  have homed : t.Rearranges { t with cursor.col := 0 } := rearranges_of_eq rfl
  unfold escDispatch
  split
  · split
    · exact moved (.ok (setSaved_rearranges _ t))
    · exact moved (restoreCursor_rearranges t)
    · exact moved (index_rearranges t)
    · exact moved (homed.then (index_rearranges _))
    · exact .ok (h.of_eq rfl)
    · exact moved (reverseIndex_rearranges t)
    · exact moved (fullReset_rearranges t)
    · exact .ok (h.of_eq rfl)
    · exact .ok (h.of_eq rfl)
    · exact .ok (h.of_eq rfl)
    · exact .ok h
  · split
    · exact decaln_printed h
    · exact .ok h
  · exact .ok (h.of_eq rfl)
  · exact .ok (h.of_eq rfl)
  · exact .ok h

theorem oscTextSize_printed (h : t.Printed) (rest : List Char) :
    Guarded False (t.oscTextSize rest) Printed := by
  have noted : { t with lastTextSize := some rest }.Printed := h.of_eq rfl
  unfold oscTextSize
  generalize (splitOnce ';' rest).getD ([], rest) = parts
  obtain ⟨metadata, text⟩ := parts
  dsimp only
  split
  · exact .pure noted
  · refine (Guarded.forEach noted fun c _ _ h' => print_printed h' c).bind fun t₁ h₁ => ?_
    split
    · apply (Guarded.trivial _).bind
      intro last _
      exact .pure (h₁.of_eq rfl)
    · exact .pure (h₁.of_eq rfl)

theorem oscDispatch_printed (h : t.Printed) (data : Bytes) (bel : Bool) :
    Guarded False (t.oscDispatch data bel) Printed := by
  unfold oscDispatch
  dsimp only
  split
  · rename_i n _
    by_cases textSize : n = 66
    · subst textSize
      exact oscTextSize_printed h _
    · exact Rearranges.printed h (oscCommand_rearranges textSize _ bel t)
  · exact .pure h

theorem dispatch_printed (h : t.Printed) (files : Files) (action : Action) :
    Guarded False (t.dispatch files action) Printed := by
  cases action with
  | print c => exact print_printed h c
  | execute b => exact Rearranges.printed h (execute_rearranges b t)
  | csi params intermediates marker finalByte =>
    exact csiDispatch_printed h params intermediates marker finalByte
  | esc intermediates finalByte => exact escDispatch_printed h intermediates finalByte
  | osc data bel => exact oscDispatch_printed h data bel
  | dcs params intermediates finalByte data =>
    exact Rearranges.printed h (dcsDispatch_rearranges intermediates finalByte data t)
  | apc data => exact Rearranges.printed h (apcDispatch_rearranges files data t)

/-! ### Runs -/

theorem printed_invariant : session.Invariant Printed where
  base := by
    rintro t ⟨rows, cols, scrollback, -, -, -, -, rfl⟩
    exact ⟨Screen.every_new blanks_printed .., Screen.every_new blanks_printed ..⟩
  step := by
    rintro t t' h ⟨e, -, eq⟩
    cases e with
    | process files bytes =>
      have all : Guarded False (t.process files bytes) Printed := by
        refine Guarded.forEach h fun b _ t h => ?_
        apply (Guarded.trivial _).bind
        rintro ⟨parser, actions⟩ _
        exact Guarded.forEach (h.of_eq rfl) fun action _ t h => dispatch_printed h files action
      exact all.of_eq_ok eq
    | resize rows cols => exact (resize_printed h rows cols).of_eq_ok eq

/-- In every state a session reaches, each cell of either screen and of the scrollback has the
width of its character; where it shows one, that is no control, and its marks are characters of
width zero and no C0 or C1 controls. -/
theorem cells_show (h : session.Reachable t) :
    ∀ row ∈ (t.primary.grid ++ t.primary.scrollback) ++ (t.alt.grid ++ t.alt.scrollback),
      ∀ c ∈ row.cells, c.width = wcwidth c.ch ∧
        (c.width ≠ 0 → Term.Graphic c.ch ∧ c.ch ≠ '\x7f' ∧ ¬ IsC1 c.ch) ∧
        ∀ x ∈ c.extra, wcwidth x = 0 ∧ Term.Graphic x ∧ ¬ IsC1 x := by
  have printed : t.Printed := printed_invariant.reachable h
  have graphic : t.Graphic := (clean_invariant.reachable h).graphic
  have texts : t.EveryRow (Cells Cell.Graphic) := ⟨graphic.primary, graphic.alt⟩
  intro row mem c inside
  have p : c.Printed := printed.every row mem c inside
  have g : c.Graphic := texts.every row mem c inside
  refine ⟨p.width, fun visible => ?_, fun x mark => ?_⟩
  · obtain ⟨shown, delete⟩ := p.shows g visible
    exact ⟨shown, delete, p.control⟩
  · obtain ⟨zero, control⟩ := p.marks x mark
    exact ⟨zero, g.extra x mark, control⟩

/-- A letter with an accent. -/
theorem cells_show_accent : ∃ t, (new 1 2).process (fun _ => none) [0x65, 0xCC, 0x81] = .ok t ∧
    ∃ row ∈ t.primary.grid, ∃ c ∈ row.cells, c.extra ≠ [] ∧ ∀ x ∈ c.extra, wcwidth x = 0 := by
  have fresh : session.Reachable (new 1 2) :=
    .of_init ⟨1, 2, DEFAULT_SCROLLBACK, by decide, by decide, by decide, by decide, rfl⟩
  obtain ⟨t, eq⟩ : ∃ t, (new 1 2).process (fun _ => none) [0x65, 0xCC, 0x81] = .ok t := ⟨_, rfl⟩
  have shows := cells_show (fresh.tail ⟨.process (fun _ => none) _, trivial, eq⟩)
  obtain ⟨row, here, c, inside, marked⟩ :
      ∃ row ∈ t.primary.grid, ∃ c ∈ row.cells, c.extra ≠ [] := by
    cases eq
    exact ⟨_, .head _, _, .head _, List.cons_ne_nil _ _⟩
  refine ⟨t, eq, row, here, c, inside, marked, fun x mark => ?_⟩
  exact ((shows row (List.mem_append_left _ (List.mem_append_left _ here)) c inside).2.2 x mark).1

end Terminal

end Posh.Term
