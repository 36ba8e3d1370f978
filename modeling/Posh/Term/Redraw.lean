import Posh.Term.Escapes
import Posh.Term.Writes

/-!
What the repaint of a screen switch does to the terminal that reads it.

The repaint shows a grid of graphic cells and ends with the insert mode, the autowrap
and the cursor visibility of the terminal painted; the other modes it leaves alone.
-/

namespace Posh.Term

open Posh.Lib

variable {t : Terminal}

/-! ### Literal texts -/

/-- A fixed text is read once for all. -/
theorem writes_literal {text : List Char} {q : Parser} {actions : List Action}
    {f : Registers → Registers} (fed : Parser.feed (toUtf8 text) {} = .ok (q, actions))
    (ready : q.Ready) (does : ∀ r : Registers, r.afterAll actions = f r) : Writes text f :=
  ⟨actions, Parser.reads_of_feed fed ready, does⟩

theorem quiet_emitProtect (isProtected : Bool) : Quiet (emitProtect isProtected) := by
  cases isProtected with
  | false => exact writes_literal rfl ⟨rfl, rfl⟩ fun _ => rfl
  | true => exact writes_literal rfl ⟨rfl, rfl⟩ fun _ => rfl

theorem quiet_emitMark (mark : Option SemanticMark) : Quiet (Terminal.emitMark mark) := by
  cases mark with
  | none => exact quiet_nil
  | some mark =>
    cases mark with
    | promptStart => exact writes_literal rfl ⟨rfl, rfl⟩ fun _ => rfl
    | inputStart => exact writes_literal rfl ⟨rfl, rfl⟩ fun _ => rfl
    | outputStart => exact writes_literal rfl ⟨rfl, rfl⟩ fun _ => rfl
    | commandEnd => exact writes_literal rfl ⟨rfl, rfl⟩ fun _ => rfl

theorem quiet_closeLink : Quiet "\x1b]8;;\x1b\\".toList :=
  writes_literal rfl ⟨rfl, rfl⟩ fun _ => rfl

theorem quiet_newline : Quiet "\r\n".toList :=
  writes_literal rfl ⟨rfl, rfl⟩ fun _ => rfl

namespace Registers

/-- With insert mode, autowrap and cursor visibility set. -/
def withDrawing (insert autowrap visible : Bool) (r : Registers) : Registers :=
  { r with modes.insert := insert, modes.autowrap := autowrap, modes.cursorVisible := visible }

end Registers

theorem writes_switchPrologue :
    Writes Terminal.switchPrologue (·.withDrawing false true false) :=
  writes_literal rfl ⟨rfl, rfl⟩ fun _ => rfl

/-! ### Cells -/

namespace Terminal

theorem mem_of_lookup {α : Type} {m : AssocMap α} {key : Nat} {a : α}
    (found : m.lookup key = some a) : ∃ kv ∈ m, kv.2 = a := by
  obtain ⟨kv, at_, value⟩ := Option.map_eq_some_iff.mp found
  exact ⟨kv, List.mem_of_find?_eq_some at_, value⟩

theorem quiet_emitHyperlink (g : t.Graphic) (id : Nat) : Quiet (t.emitHyperlink id) := by
  unfold emitHyperlink
  cases found : t.hyperlinks.lookup id with
  | none => exact quiet_closeLink
  | some h =>
    obtain ⟨kv, inside, rfl⟩ := mem_of_lookup found
    obtain ⟨idGraphic, uriGraphic⟩ := g.hyperlinks kv inside
    dsimp only
    split
    · refine quiet_link _ ?_ uriGraphic
      split
      · exact fun _ mem => absurd mem List.not_mem_nil
      · intro c mem
        rcases List.mem_append.mp mem with key | value
        · exact forall_of_all (P := Term.Graphic) (s := "id=".toList) rfl c key
        · exact idGraphic c value
    · exact quiet_closeLink

theorem quiet_emitPen (g : t.Graphic) (style : Style) (hyperlink : Nat) (st : EmitState) :
    Quiet (t.emitPen style hyperlink st).1 :=
  ((quiet_if (quiet_emitProtect _)).append (quiet_if (quiet_emitSgr style))).append
    (quiet_if (quiet_emitHyperlink g hyperlink))

theorem quiet_emitCell (g : t.Graphic) {cell : Cell} (graphic : cell.Graphic) (st : EmitState) :
    Quiet (t.emitCell cell st).1 := by
  unfold emitCell
  split
  · exact quiet_nil
  · exact (quiet_emitPen g cell.style cell.hyperlink st).append (quiet_shownChar graphic)

theorem quiet_emitCells (g : t.Graphic) {cells : List Cell} (graphic : ∀ c ∈ cells, c.Graphic)
    (st : EmitState) : Quiet (t.emitCells cells st).1 := by
  induction cells generalizing st with
  | nil => exact quiet_nil
  | cons cell rest ih =>
    exact (quiet_emitCell g (graphic cell List.mem_cons_self) st).append
      (ih (fun c mem => graphic c (List.mem_cons_of_mem _ mem)) _)

theorem mem_shownCells {row : Row} {cell : Cell} (mem : cell ∈ shownCells row) :
    cell ∈ row.cells := by
  unfold shownCells at mem
  split at mem
  · exact mem
  · exact List.mem_of_mem_take mem

theorem quiet_emitRow (g : t.Graphic) {row : Row} (graphic : ∀ c ∈ row.cells, c.Graphic)
    (st : EmitState) : Quiet (t.emitRow row st).1 :=
  (quiet_emitMark row.mark).append
    (quiet_emitCells g (fun c mem => graphic c (mem_shownCells mem)) st)

theorem quiet_drawRows (g : t.Graphic) {rows : List Row}
    (graphic : ∀ r ∈ rows, ∀ c ∈ r.cells, c.Graphic) (st : EmitState) :
    Quiet (t.drawRows rows st).1 := by
  induction rows generalizing st with
  | nil => exact quiet_nil
  | cons row rest ih =>
    have here := quiet_emitRow g (graphic row List.mem_cons_self) st
    have below := ih (fun r mem => graphic r (List.mem_cons_of_mem _ mem)) (t.emitRow row st).2
    have newline : Quiet (if row.wrapped || rest.isEmpty then [] else "\r\n".toList) := by
      split
      · exact quiet_nil
      · exact quiet_newline
    exact (here.append newline).append below

theorem quiet_drawGrid (g : t.Graphic) {grid : Screen}
    (graphic : grid.Every (Screen.Cells Cell.Graphic)) (st : EmitState) :
    Guarded False (t.drawGrid grid st) fun out => Quiet out.1 := by
  refine graphic.visibleRows.bind ?_
  intro rows cells
  exact .pure (quiet_drawRows g cells st)

theorem Graphic.scr (g : t.Graphic) : t.scr.Every (Screen.Cells Cell.Graphic) := by
  unfold Terminal.scr
  split
  · exact g.alt
  · exact g.primary

/-! ### What follows the grid -/

theorem quiet_dumpRegion (t : Terminal) : Guarded False t.dumpRegion Quiet := by
  unfold dumpRegion
  apply (Guarded.trivial _).bind
  rintro ⟨top, bot⟩ _
  apply (Guarded.trivial _).bind
  intro last _
  split
  · apply (Guarded.trivial _).bind
    intro top' _
    apply (Guarded.trivial _).bind
    intro bot' _
    exact .pure (quiet_region top' bot')
  · exact .pure quiet_nil

theorem quiet_dumpCharsets (t : Terminal) : Quiet t.dumpCharsets := by
  have parts {first second : List Char} (quiet₁ : Quiet first) (quiet₂ : Quiet second) :
      Quiet (first ++ second ++ textIf (t.cursor.shift == 1) "\x0e") :=
    (quiet₁.append quiet₂).append (quiet_if (writes_literal rfl ⟨rfl, rfl⟩ fun _ => rfl))
  refine parts ?_ ?_
  · cases t.cursor.g0 with
    | decSpecial => exact writes_literal rfl ⟨rfl, rfl⟩ fun _ => rfl
    | uk => exact writes_literal rfl ⟨rfl, rfl⟩ fun _ => rfl
    | ascii => exact quiet_nil
  · cases t.cursor.g1 with
    | decSpecial => exact writes_literal rfl ⟨rfl, rfl⟩ fun _ => rfl
    | uk => exact writes_literal rfl ⟨rfl, rfl⟩ fun _ => rfl
    | ascii => exact quiet_nil

/-- The keys of a graphics command: literals and numbers. -/
theorem graphic_keyValue {key : String} {value : List Char} (keys : ∀ c ∈ key.toList, Term.Graphic c)
    (graphic : ∀ c ∈ value, Term.Graphic c) : ∀ c ∈ keyValue key value, Term.Graphic c := by
  intro c mem
  unfold keyValue at mem
  simp only [List.mem_append] at mem
  rcases mem with ((comma | key) | equals) | value
  · exact forall_of_all (P := Term.Graphic) (s := ",".toList) rfl c comma
  · exact keys c key
  · exact forall_of_all (P := Term.Graphic) (s := "=".toList) rfl c equals
  · exact graphic c value

theorem graphic_decimal (n : Nat) : ∀ c ∈ decimal n, Term.Graphic c := by
  intro c mem
  obtain ⟨low, -⟩ := paramChar_decimal n c mem
  exact Nat.le_trans (by decide) low

theorem graphic_decimalInt (n : Int) : ∀ c ∈ decimalInt n, Term.Graphic c := by
  unfold decimalInt
  split
  · intro c mem
    rcases List.mem_cons.mp mem with rfl | digit
    · decide
    · exact graphic_decimal _ c digit
  · exact graphic_decimal _

theorem graphic_append {a b : List Char} (ha : ∀ c ∈ a, Term.Graphic c)
    (hb : ∀ c ∈ b, Term.Graphic c) : ∀ c ∈ a ++ b, Term.Graphic c := by
  intro c mem
  rcases List.mem_append.mp mem with left | right
  · exact ha c left
  · exact hb c right

theorem graphic_placementKeys (p : Placement) (alive : Bool) :
    ∀ c ∈ placementKeys p alive, Term.Graphic c := by
  have literal (s : List Char) (checked : s.all (fun c => decide (Term.Graphic c)) = true) :
      ∀ c ∈ s, Term.Graphic c := forall_of_all checked
  have number (key : String) (n : Nat)
      (checked : key.toList.all (fun c => decide (Term.Graphic c)) = true) :
      ∀ c ∈ keyValue key (decimal n), Term.Graphic c :=
    graphic_keyValue (literal _ checked) (graphic_decimal n)
  have integer (key : String) (n : Int)
      (checked : key.toList.all (fun c => decide (Term.Graphic c)) = true) :
      ∀ c ∈ keyValue key (decimalInt n), Term.Graphic c :=
    graphic_keyValue (literal _ checked) (graphic_decimalInt n)
  have source := graphic_append (graphic_append (graphic_append (graphic_append (graphic_append
    (graphic_append (literal "a=p,q=2".toList rfl) (number "i" p.imageId rfl))
    (number "p" p.placementId rfl)) (number "x" p.srcX rfl)) (number "y" p.srcY rfl))
    (number "w" p.srcW rfl)) (number "h" p.srcH rfl)
  have placed := graphic_append (graphic_append (graphic_append (graphic_append (graphic_append
    source (number "c" p.cols rfl)) (number "r" p.rows rfl)) (integer "z" p.z rfl))
    (number "X" p.cellX rfl)) (number "Y" p.cellY rfl)
  have parent := graphic_append (graphic_append (graphic_append
    (number "P" p.parentImage rfl) (number "Q" p.parentPlacement rfl)) (integer "H" p.hOff rfl))
    (integer "V" p.vOff rfl)
  refine graphic_append (graphic_append placed ?_) ?_
  · split
    · exact parent
    · exact fun _ mem => absurd mem List.not_mem_nil
  · unfold textIf
    split
    · exact literal _ rfl
    · exact fun _ mem => absurd mem List.not_mem_nil

theorem quiet_emitPlacement (g : GraphicsState) (p : Placement) :
    Guarded False (emitPlacement g p) Quiet := by
  unfold emitPlacement
  refine Guarded.bind (p := Quiet) ?_ ?_
  · split
    · apply (Guarded.trivial _).bind
      intro row _
      apply (Guarded.trivial _).bind
      intro col _
      exact .pure (quiet_position row col)
    · exact .pure quiet_nil
  intro anchor quiet
  have keys : ∀ c ∈ 'G' :: placementKeys p (parentAlive g p), Term.Graphic c := by
    intro c mem
    rcases List.mem_cons.mp mem with rfl | key
    · decide
    · exact graphic_placementKeys p _ c key
  refine .pure ?_
  rw [List.append_assoc, List.append_assoc]
  refine quiet.append ?_
  have command := quiet_apc keys
  rwa [List.append_assoc] at command

theorem quiet_dumpPlacements (t : Terminal) : Guarded False t.dumpPlacements Quiet := by
  refine Guarded.forEach quiet_nil ?_
  intro p _ out quiet
  refine (quiet_emitPlacement t.graphics p).bind ?_
  intro here quiet_here
  exact .pure (quiet.append quiet_here)

/-! ### The cursor -/

theorem quiet_reprint {cell : Cell} (graphic : cell.Graphic) (pen : Style) :
    Quiet (reprint cell pen) := by
  unfold reprint
  split
  · have before := (quiet_if (c := decide (cell.style.isProtected ≠ pen.isProtected) = true)
      (quiet_emitProtect cell.style.isProtected)).append
      (quiet_if (c := decide ({ cell.style with isProtected := pen.isProtected } ≠ pen) = true)
        (quiet_emitSgr cell.style))
    exact ((before.append (quiet_shownChar graphic)).append (quiet_if (quiet_emitSgr pen))).append
      (quiet_if (quiet_emitProtect pen.isProtected))
  · exact quiet_nil

theorem graphic_cell (g : t.Graphic) {row col : Nat} {cell : Cell}
    (found : t.scr.cell row col = some cell) : cell.Graphic := by
  obtain ⟨r, at_row, at_col⟩ := Option.bind_eq_some_iff.mp found
  exact g.scr.grid r (List.mem_of_getElem? at_row) cell (List.mem_of_getElem? at_col)

/-- The cursor comes with its own visibility, if it is hidden. -/
theorem writes_dumpCursor (g : t.Graphic) (st : EmitState) :
    Guarded False (t.dumpCursor st) fun text =>
      Writes text fun r => if t.modes.cursorVisible then r else r.withCursor false := by
  have shape : Quiet (if t.cursorStyleRaw ≠ 0 then
      "\x1b[".toList ++ decimal t.cursorStyleRaw ++ " q".toList else []) :=
    quiet_if (quiet_csiWith (paramChar_decimal _) (by decide) (by decide) (by decide))
  have pen := quiet_emitPen g t.cursor.style t.cursor.hyperlink st
  have hidden : Writes (textIf (!t.modes.cursorVisible) "\x1b[?25l")
      fun r => if t.modes.cursorVisible then r else r.withCursor false := by
    cases t.modes.cursorVisible with
    | true => exact quiet_nil
    | false => exact writes_literal rfl ⟨rfl, rfl⟩ fun _ => rfl
  unfold dumpCursor
  apply (Guarded.trivial _).bind
  rintro ⟨top, bot⟩ _
  apply (Guarded.trivial _).bind
  intro row _
  apply (Guarded.trivial _).bind
  intro col _
  have parts {again : List Char} (quiet : Quiet again) :=
    (((shape.append pen).append (quiet_position row col)).append quiet).writes hidden
  refine .pure (parts ?_)
  split
  · split
    · rename_i cell found
      exact quiet_reprint (graphic_cell g found) _
    · exact quiet_nil
  · exact quiet_nil

/-! ### The repaint -/

/-- The repaint leaves insert mode, autowrap and the cursor as the painted terminal has
them, and the other modes alone. -/
theorem writes_dumpScreenSwitch (g : t.Graphic) :
    Guarded False t.dumpScreenSwitch fun bytes => ∃ text, bytes = toUtf8 text ∧
      (∃ rest, text = '\x1b' :: rest) ∧
      Writes text (·.withDrawing t.modes.insert t.modes.autowrap t.modes.cursorVisible) := by
  have insert : Writes (textIf t.modes.insert "\x1b[4h")
      fun r => if t.modes.insert then { r with modes.insert := true } else r := by
    cases t.modes.insert with
    | true => exact writes_literal rfl ⟨rfl, rfl⟩ fun _ => rfl
    | false => exact quiet_nil
  have autowrap : Writes (textIf (!t.modes.autowrap) "\x1b[?7l")
      fun r => if t.modes.autowrap then r else { r with modes.autowrap := false } := by
    cases t.modes.autowrap with
    | true => exact quiet_nil
    | false => exact writes_literal rfl ⟨rfl, rfl⟩ fun _ => rfl
  have shown : Writes (textIf t.modes.cursorVisible "\x1b[?25h")
      fun r => if t.modes.cursorVisible then r.withCursor true else r := by
    cases t.modes.cursorVisible with
    | true => exact writes_literal rfl ⟨rfl, rfl⟩ fun _ => rfl
    | false => exact quiet_nil
  have origin : Quiet (textIf t.modes.origin "\x1b[?6h") :=
    quiet_if (writes_literal rfl ⟨rfl, rfl⟩ fun _ => rfl)
  unfold dumpScreenSwitch
  refine (quiet_drawGrid g g.scr {}).bind ?_
  rintro ⟨grid, st⟩ quiet_grid
  refine (quiet_dumpRegion t).bind ?_
  intro region quiet_region
  refine (quiet_dumpPlacements t).bind ?_
  intro placements quiet_placements
  refine (writes_dumpCursor g st).bind ?_
  intro cursor writes_cursor
  refine .pure ⟨_, rfl, ⟨_, rfl⟩, ?_⟩
  have drawn := ((((writes_switchPrologue.quiet quiet_grid).quiet quiet_region).quiet origin).quiet
    (quiet_dumpCharsets t))
  have moded := ((drawn.append insert).append autowrap).quiet quiet_placements
  refine ((moded.append writes_cursor).append shown).of_eq ?_
  intro r
  cases t.modes.insert <;> cases t.modes.autowrap <;> cases t.modes.cursorVisible <;> rfl

end Terminal

end Posh.Term
