import Posh.Remote.Predictions

/-!
Wide characters under the predictions.

A wide character takes two cells, its head and a spacer, and a frame is drawn by advancing
over both at once. Predictions are made and shown cell by cell. `Seamless` says where that
goes well: at both ends of what the predictions cover. Where no wide glyph is ever moved by a
key, it is enough that each wide character of the frame is covered whole or not at all.
-/

namespace Posh.Remote

open Posh.Lib Posh.Term

namespace Snapshot

/-- The width of a cell, if the frame has it. -/
def width (row col : Nat) (fb : Snapshot) : Option Nat :=
  (fb.cell row col).map (·.width)

/-- Each wide character is a head and a spacer, side by side. -/
structure Paired (fb : Snapshot) : Prop where
  first : ∀ row, fb.width row 0 ≠ some 0
  pair : ∀ row col, fb.width row col = some 2 ↔ fb.width row (col + 1) = some 0

theorem cell_modifyCell_self (row col : Nat) (f : Cell → Cell) (fb : Snapshot) :
    (fb.modifyCell row col f).cell row col = (fb.cell row col).map f := by
  unfold Snapshot.cell Snapshot.modifyCell
  simp only [List.getElem?_modify]
  cases fb.cells[row]? with
  | none => rfl
  | some cells => simp

/-- Outside the frame there are no cells. -/
theorem Matches.width_eq_none {fb : Snapshot} {row col : Nat} (sized : fb.Matches) (outside : ¬ (row < fb.rows ∧ col < fb.cols)) :
    fb.width row col = none := by
  unfold Snapshot.width Snapshot.cell
  by_cases row_lt : row < fb.rows
  · have here : row < fb.cells.length := sized.height ▸ row_lt
    have width := sized.width _ (List.getElem_mem here)
    rw [List.getElem?_eq_getElem here, Option.bind_some, List.getElem?_eq_none (by omega)]
    rfl
  · rw [List.getElem?_eq_none (by have := sized.height; omega)]
    rfl

theorem Matches.modifyCell {fb : Snapshot} (h : fb.Matches) (row col : Nat) (f : Cell → Cell) :
    (fb.modifyCell row col f).Matches where
  height := (List.length_modify _ _ _).trans h.height
  width cells mem := by
    obtain ⟨i, inside, rfl⟩ := List.mem_iff_getElem.mp mem
    have old : i < fb.cells.length := by simpa [Snapshot.modifyCell] using inside
    have width := h.width _ (List.getElem_mem old)
    simp only [Snapshot.modifyCell, List.getElem_modify]
    split
    · rw [List.length_modify]
      exact width
    · exact width

end Snapshot

/-! ### What one cell draws -/

namespace OverlayCell

/-- The prediction is shown, and there is a glyph to show. -/
def draws (confirmedEpoch : Nat) (c : OverlayCell) : Bool :=
  c.active && !c.tentative confirmedEpoch && !c.unknown

/-- The glyph that a cell of an overlay row shows at the given place. -/
def glyphAt (confirmedEpoch row col : Nat) (p : Nat × OverlayCell) : Option Cell :=
  if p.1 = row ∧ p.2.col = col ∧ p.2.draws confirmedEpoch then some p.2.replacement else none

variable {confirmedEpoch row col : Nat} {flag : Bool} {fb : Snapshot} {c : OverlayCell}

/-- The size of the frame stays. -/
theorem apply_size (confirmedEpoch row : Nat) (flag : Bool) (sized : fb.Matches)
    (c : OverlayCell) :
    (c.apply confirmedEpoch row flag fb).Matches ∧
      (c.apply confirmedEpoch row flag fb).rows = fb.rows ∧
      (c.apply confirmedEpoch row flag fb).cols = fb.cols := by
  have unchanged : fb.Matches ∧ fb.rows = fb.rows ∧ fb.cols = fb.cols := ⟨sized, rfl, rfl⟩
  have changed (f : Cell → Cell) : (fb.modifyCell row c.col f).Matches ∧
      (fb.modifyCell row c.col f).rows = fb.rows ∧ (fb.modifyCell row c.col f).cols = fb.cols :=
    ⟨sized.modifyCell row c.col f, rfl, rfl⟩
  unfold OverlayCell.apply
  dsimp only
  split
  · exact unchanged
  split
  · exact unchanged
  generalize (if (c.replacement.isBlank &&
    ((fb.cell row c.col).map Cell.isBlank).getD true) = true then false else flag) = flagged
  split
  · split
    · exact changed _
    · exact unchanged
  · split
    · exact changed _
    · exact unchanged

/-- An underline does not change the width of a cell. -/
theorem width_underlined (c : Cell) : (underlined c).width = c.width :=
  rfl

/-- A cell that draws gives the cell of the frame the width of its glyph; the others leave the
width as it is. -/
theorem width_apply (sized : fb.Matches) (flag : Bool) (row_lt : row < fb.rows)
    (col_lt : col < fb.cols) (rowNum : Nat) (c : OverlayCell) :
    (c.apply confirmedEpoch rowNum flag fb).width row col =
      (((glyphAt confirmedEpoch row col (rowNum, c)).map (·.width)).or (fb.width row col)) := by
  unfold glyphAt
  by_cases here : rowNum = row ∧ c.col = col
  · obtain ⟨rfl, rfl⟩ := here
    obtain ⟨old, there⟩ := sized.cell row_lt col_lt
    have modified (f : Cell → Cell) :
        (fb.modifyCell rowNum c.col f).width rowNum c.col = some (f old).width := by
      unfold Snapshot.width
      rw [Snapshot.cell_modifyCell_self, there]
      rfl
    have kept : fb.width rowNum c.col = some old.width := by
      unfold Snapshot.width
      rw [there]
      rfl
    have inside : ¬ (rowNum ≥ fb.rows ∨ c.col ≥ fb.cols) := by omega
    unfold OverlayCell.apply draws
    dsimp only
    generalize (if (c.replacement.isBlank &&
      ((fb.cell rowNum c.col).map Cell.isBlank).getD true) = true then false else flag) = flagged
    cases active : c.active with
    | false => simp
    | true =>
      rw [if_neg (by simpa using inside)]
      cases tentative : c.tentative confirmedEpoch with
      | true => simp
      | false =>
        rw [if_neg Bool.false_ne_true]
        cases unknown : c.unknown with
        | true =>
          rw [if_pos rfl, kept]
          split
          · rw [modified, width_underlined]
            simp
          · simp [kept]
        | false =>
          rw [if_neg Bool.false_ne_true]
          split
          · rw [modified]
            cases flagged <;> simp [width_underlined]
          · rename_i same
            rw [not_not, there] at same
            rw [kept, Option.some.inj same]
            simp
  · have elsewhere : ¬ (rowNum = row ∧ c.col = col ∧ c.draws confirmedEpoch = true) :=
      fun drawn => here ⟨drawn.1, drawn.2.1⟩
    rw [if_neg elsewhere, Option.map_none, Option.none_or]
    unfold Snapshot.width
    rcases PredictionEngine.cell_apply confirmedEpoch rowNum flag fb c row col with same | ⟨rfl, rfl, -, -⟩
    · rw [same]
    · exact absurd ⟨rfl, rfl⟩ here

end OverlayCell

namespace PredictionEngine

variable {e : PredictionEngine} {fb : Snapshot} {row col : Nat}

/-! ### What all of them draw -/

/-- The predicted cells with their rows, in the order they are drawn in. -/
def overlayCells (e : PredictionEngine) : List (Nat × OverlayCell) :=
  e.overlays.flatMap fun r => r.cells.map fun c => (r.rowNum, c)

/-- The predicted glyph that covers a place of the frame: the last one drawn there. -/
def covering (fb : Snapshot) (row col : Nat) (e : PredictionEngine) : Option Cell :=
  if e.shown ∧ row < fb.rows ∧ col < fb.cols then
    (e.overlayCells.filterMap (OverlayCell.glyphAt e.confirmedEpoch row col)).getLast?
  else none

theorem width_foldl (confirmedEpoch : Nat) (flag : Bool) (cells : List (Nat × OverlayCell))
    {fb : Snapshot} (sized : fb.Matches) (row_lt : row < fb.rows) (col_lt : col < fb.cols) :
    (cells.foldl (fun fb p => p.2.apply confirmedEpoch p.1 flag fb) fb).width row col =
      (((cells.filterMap (OverlayCell.glyphAt confirmedEpoch row col)).getLast?.map (·.width)).or
        (fb.width row col)) := by
  induction cells generalizing fb with
  | nil => rfl
  | cons p rest ih =>
    obtain ⟨sized', rows, cols⟩ := p.2.apply_size confirmedEpoch p.1 flag sized
    rw [List.foldl_cons, ih sized' (rows ▸ row_lt) (cols ▸ col_lt),
      OverlayCell.width_apply sized flag row_lt col_lt]
    rw [List.filterMap_cons]
    cases OverlayCell.glyphAt confirmedEpoch row col (p.1, p.2) with
    | none => rfl
    | some glyph =>
      dsimp only
      rw [List.getLast?_cons]
      cases (rest.filterMap (OverlayCell.glyphAt confirmedEpoch row col)).getLast? <;> rfl

theorem foldl_size (confirmedEpoch : Nat) (flag : Bool) (cells : List (Nat × OverlayCell))
    {fb : Snapshot} (sized : fb.Matches) :
    (cells.foldl (fun fb p => p.2.apply confirmedEpoch p.1 flag fb) fb).Matches ∧
      (cells.foldl (fun fb p => p.2.apply confirmedEpoch p.1 flag fb) fb).rows = fb.rows ∧
      (cells.foldl (fun fb p => p.2.apply confirmedEpoch p.1 flag fb) fb).cols = fb.cols := by
  induction cells generalizing fb with
  | nil => exact ⟨sized, rfl, rfl⟩
  | cons p rest ih =>
    obtain ⟨sized', rows, cols⟩ := p.2.apply_size confirmedEpoch p.1 flag sized
    obtain ⟨sized'', rows', cols'⟩ := ih sized'
    exact ⟨sized'', rows'.trans rows, cols'.trans cols⟩

/-- The cursors do not change the cells. -/
theorem cursors_foldl (confirmedEpoch : Nat) (cursors : List CursorPrediction) (fb : Snapshot) :
    (cursors.foldl (fun fb c => c.apply confirmedEpoch fb) fb).cells = fb.cells ∧
      (cursors.foldl (fun fb c => c.apply confirmedEpoch fb) fb).rows = fb.rows ∧
      (cursors.foldl (fun fb c => c.apply confirmedEpoch fb) fb).cols = fb.cols := by
  induction cursors generalizing fb with
  | nil => exact ⟨rfl, rfl, rfl⟩
  | cons c rest ih =>
    obtain ⟨cells, rows, cols⟩ := ih (c.apply confirmedEpoch fb)
    have same : (c.apply confirmedEpoch fb).cells = fb.cells ∧
        (c.apply confirmedEpoch fb).rows = fb.rows ∧
        (c.apply confirmedEpoch fb).cols = fb.cols := by
      unfold CursorPrediction.apply
      split
      · exact ⟨rfl, rfl, rfl⟩
      · split <;> exact ⟨rfl, rfl, rfl⟩
    exact ⟨cells.trans same.1, rows.trans same.2.1, cols.trans same.2.2⟩

/-- The cells of all the rows, one after the other. -/
theorem apply_foldl (shown : e.shown = true) (fb : Snapshot) :
    e.apply fb = e.overlayCells.foldl
      (fun fb p => p.2.apply e.confirmedEpoch p.1 e.flagging fb)
      (e.cursors.foldl (fun fb c => c.apply e.confirmedEpoch fb) fb) := by
  unfold PredictionEngine.apply overlayCells
  rw [shown, List.foldl_flatMap]
  simp only [List.foldl_map]
  rfl

/-- The widths of what is shown: the glyph's where a glyph covers the frame, and the frame's
elsewhere. -/
theorem width_covering (sized : fb.Matches) (row col : Nat) :
    (e.apply fb).width row col =
      ((e.covering fb row col).map (·.width)).or (fb.width row col) := by
  unfold covering
  cases shown : e.shown with
  | false =>
    unfold PredictionEngine.apply
    simp [shown]
  | true =>
    rw [apply_foldl shown fb]
    obtain ⟨cells, rows, cols⟩ := cursors_foldl e.confirmedEpoch e.cursors fb
    generalize e.cursors.foldl (fun fb c => c.apply e.confirmedEpoch fb) fb = fb' at cells rows cols ⊢
    have sized' : fb'.Matches := ⟨by rw [cells, rows]; exact sized.height,
      by rw [cells, cols]; exact sized.width⟩
    have same : fb'.width row col = fb.width row col := by
      unfold Snapshot.width Snapshot.cell
      rw [cells]
    rw [← rows, ← cols, ← same]
    by_cases inside : row < fb'.rows ∧ col < fb'.cols
    · rw [if_pos ⟨rfl, inside⟩]
      exact width_foldl _ _ _ sized' inside.1 inside.2
    · rw [if_neg fun here => inside here.2, sized'.width_eq_none inside]
      obtain ⟨sized'', rows', cols'⟩ := foldl_size e.confirmedEpoch e.flagging e.overlayCells sized'
      exact sized''.width_eq_none (by rwa [rows', cols'])

/-! ### Where that is paired -/

/-- What the predictions cover fits together, and fits what they leave. -/
structure Seamless (fb : Snapshot) (e : PredictionEngine) : Prop where
  /-- Neighbouring glyphs are a head and its spacer, or neither of them. -/
  inner : ∀ row col left right, e.covering fb row col = some left →
    e.covering fb row (col + 1) = some right → (left.width = 2 ↔ right.width = 0)
  /-- The last glyph is a head where it covers one. -/
  last : ∀ row col left, e.covering fb row col = some left →
    e.covering fb row (col + 1) = none → (left.width = 2 ↔ fb.width row col = some 2)
  /-- The first glyph is a spacer where it covers one. -/
  first : ∀ row col right, e.covering fb row col = none →
    e.covering fb row (col + 1) = some right →
      (right.width = 0 ↔ fb.width row (col + 1) = some 0)
  edge : ∀ row right, e.covering fb row 0 = some right → right.width ≠ 0

/-- Each wide character of the frame is covered whole or not at all. -/
def CoversWhole (fb : Snapshot) (e : PredictionEngine) : Prop :=
  ∀ row col, fb.width row col = some 2 →
    ((e.covering fb row col).isSome ↔ (e.covering fb row (col + 1)).isSome)

theorem apply_paired_iff (sized : fb.Matches) (paired : fb.Paired) :
    (e.apply fb).Paired ↔ e.Seamless fb := by
  have shows := width_covering (e := e) sized
  constructor
  · rintro ⟨edge, pair⟩
    simp only [shows] at edge pair
    refine ⟨?_, ?_, ?_, ?_⟩
    · intro row col left right here next
      simpa [here, next] using pair row col
    · intro row col left here next
      simpa [here, next, paired.pair row col] using pair row col
    · intro row col right here next
      simpa [here, next, paired.pair row col, eq_comm, iff_comm] using pair row col
    · intro row right here
      simpa [here] using edge row
  · rintro ⟨inner, last, first, edge⟩
    refine ⟨?_, ?_⟩
    · intro row
      rw [shows]
      cases here : e.covering fb row 0 with
      | none => exact paired.first row
      | some right => simpa using edge row right here
    · intro row col
      rw [shows, shows]
      cases here : e.covering fb row col with
      | none =>
        cases next : e.covering fb row (col + 1) with
        | none => exact paired.pair row col
        | some right =>
          rw [Option.map_none, Option.none_or, paired.pair row col]
          simpa using (first row col right here next).symm
      | some left =>
        cases next : e.covering fb row (col + 1) with
        | none =>
          rw [Option.map_none, Option.none_or, ← paired.pair row col]
          simpa using last row col left here next
        | some right => simpa using inner row col left right here next

/-- Among narrow glyphs, a wide character of the frame must be covered whole. -/
theorem seamless_iff_coversWhole (paired : fb.Paired)
    (narrow : ∀ row col glyph, e.covering fb row col = some glyph → glyph.width = 1) :
    e.Seamless fb ↔ e.CoversWhole fb := by
  constructor
  · rintro ⟨-, last, first, -⟩ row col wide
    cases here : e.covering fb row col with
    | none =>
      cases next : e.covering fb row (col + 1) with
      | none => rfl
      | some right =>
        have spacer := (first row col right here next).mpr ((paired.pair row col).mp wide)
        have one := narrow row (col + 1) right next
        omega
    | some left =>
      cases next : e.covering fb row (col + 1) with
      | none =>
        have head := (last row col left here next).mpr wide
        have one := narrow row col left here
        omega
      | some right => exact Iff.rfl
  · intro whole
    refine ⟨?_, ?_, ?_, ?_⟩
    · intro row col left right here next
      have one := narrow row col left here
      have one' := narrow row (col + 1) right next
      omega
    · intro row col left here next
      have one := narrow row col left here
      refine ⟨fun wide => by omega, fun wide => ?_⟩
      have both := whole row col wide
      rw [here, next] at both
      simp at both
    · intro row col right here next
      have one := narrow row (col + 1) right next
      refine ⟨fun spacer => by omega, fun spacer => ?_⟩
      have both := whole row col ((paired.pair row col).mpr spacer)
      rw [here, next] at both
      simp at both
    · intro row right here
      have one := narrow row 0 right here
      omega

/-! ### Every run -/

/-- Typing against frames whose wide characters are paired. -/
def typing : Transition PredictionEngine where
  init e := ∃ preference overwrite, e = new preference overwrite
  step e e' := ∃ ev : Event, ev.Sized ∧ (∀ fb ∈ ev.frame, fb.Paired) ∧ ev.perform e = .ok e'

/-- Typing that moves no wide character. -/
def clearTyping : Transition PredictionEngine where
  init e := ∃ preference overwrite, e = new preference overwrite
  step e e' := ∃ ev : Event, ev.Sized ∧ (∀ fb ∈ ev.frame, fb.Paired) ∧ ev.Clear e ∧
    ev.perform e = .ok e'

theorem clearTyping_shaped :
    clearTyping.Invariant fun e => e.Quiet ∨ ∃ L, L.narrow ∧ e.Shaped L := by
  refine ⟨?_, ?_⟩
  · rintro _ ⟨preference, overwrite, rfl⟩
    exact (new_quiet_or_shaped preference overwrite true).imp_right
      fun shaped => ⟨_, rfl, shaped⟩
  · rintro e e' (quiet | ⟨L, narrow, shaped⟩) ⟨ev, sized, -, clear, done⟩
    · exact .inl ((quiet.perform ev).of_eq_ok done)
    · refine .inr ⟨ev.limits L, ?_, ?_⟩
      · cases ev <;> exact narrow
      · exact (perform_shaped shaped sized fun _ => clear).of_eq_ok done

/-- Such typing predicts narrow glyphs only. -/
theorem clearTyping_narrow (reach : clearTyping.Reachable e) {glyph : Cell}
    (covers : e.covering fb row col = some glyph) : glyph.width = 1 := by
  unfold covering at covers
  split at covers
  · obtain ⟨p, mem, glyphAt⟩ := List.mem_filterMap.mp (List.mem_of_getLast? covers)
    obtain ⟨r, inside, mem⟩ := List.mem_flatMap.mp mem
    obtain ⟨c, cell, rfl⟩ := List.mem_map.mp mem
    unfold OverlayCell.glyphAt OverlayCell.draws at glyphAt
    split at glyphAt
    · rename_i drawn
      cases glyphAt
      simp only [Bool.and_eq_true, Bool.not_eq_true'] at drawn
      obtain ⟨-, -, ⟨active, -⟩, known⟩ := drawn
      rcases clearTyping_shaped.reachable reach with quiet | ⟨L, narrow, shaped⟩
      · rw [quiet.overlays] at inside
        cases inside
      · exact (shaped.rows r inside).2.narrow narrow c cell active known
    · cases glyphAt
  · cases covers

/-- The wide characters of a frame stay paired under the predictions if and only if these are
seamless; after typing that moves no wide character, if and only if each wide character is
covered whole or not at all. -/
theorem overlay_paired_iff (sized : fb.Matches) (paired : fb.Paired) :
    ((e.apply fb).Paired ↔ e.Seamless fb) ∧
      (clearTyping.Reachable e → ((e.apply fb).Paired ↔ e.CoversWhole fb)) := by
  have seams := apply_paired_iff (e := e) sized paired
  refine ⟨seams, fun reach => seams.trans ?_⟩
  exact seamless_iff_coversWhole paired fun _ _ _ covers => clearTyping_narrow reach covers

/-- A frame with one row. -/
def oneLine (cells : List Cell) (cursorCol : Nat) : Snapshot :=
  { rows := 1, cols := cells.length, cells := [cells], cursorRow := 0, cursorCol }

/-- Each head has its spacer, in one row. -/
def PairedCells : List Cell → Prop
  | [] => True
  | [c] => c.width ≠ 2
  | c :: d :: rest => (c.width = 2 ↔ d.width = 0) ∧ PairedCells (d :: rest)

theorem PairedCells.pair {cells : List Cell} (h : PairedCells cells) (col : Nat) :
    cells[col]?.map (·.width) = some 2 ↔ cells[col + 1]?.map (·.width) = some 0 := by
  fun_induction PairedCells cells generalizing col with
  | case1 => simp
  | case2 c =>
    cases col with
    | zero => simpa using h
    | succ col => simp
  | case3 c d rest ih =>
    cases col with
    | zero => simpa using h.1
    | succ col => exact ih h.2 col

theorem oneLine_paired {cells : List Cell} (edge : ∀ c ∈ cells.head?, c.width ≠ 0)
    (pairs : PairedCells cells) (cursorCol : Nat) : (oneLine cells cursorCol).Paired := by
  have first (col : Nat) :
      (oneLine cells cursorCol).width 0 col = cells[col]?.map (·.width) := rfl
  have others (row col : Nat) : (oneLine cells cursorCol).width (row + 1) col = none := rfl
  refine ⟨fun row => ?_, fun row col => ?_⟩
  · cases row with
    | zero =>
      rw [first]
      cases cells with
      | nil => simp
      | cons c rest => simpa using edge c rfl
    | succ row => simp [others]
  · cases row with
    | zero =>
      rw [first, first]
      exact pairs.pair col
    | succ row => simp [others]

def wide : Cell := { ch := '\u4e2d', width := 2 }

/-- A wide character before the cursor. -/
def wideBefore : Snapshot :=
  oneLine [wide, .spacer wide, blankCell, blankCell] 2

theorem wideBefore_sized : wideBefore.Sized :=
  ⟨⟨rfl, by decide⟩, by decide, by decide, by decide, by decide⟩

theorem wideBefore_paired : wideBefore.Paired :=
  oneLine_paired (by simp [wide])
    (by simp [PairedCells, blankCell, Cell.blank, wide, Cell.spacer]) 2

/-- An `x` behind a wide character, shown at once. -/
theorem overlay_paired_behind :
    ∃ e, clearTyping.Reachable e ∧ (e.covering wideBefore 0 2).isSome = true ∧
      (e.apply wideBefore).Paired := by
  obtain ⟨e, typed, covers⟩ := ok_of_any
    (x := (Event.key 0x78 wideBefore 5).perform (new .experimental false))
    (p := fun e => ((e.covering wideBefore 0 2).isSome ∧ (e.covering wideBefore 0 0).isSome =
      (e.covering wideBefore 0 1).isSome))
    (by decide +kernel)
  obtain ⟨covers, whole⟩ := of_decide_eq_true covers
  obtain ⟨found, culled, at_⟩ := ok_of_any
    (x := (new .experimental false).atKey wideBefore 5)
    (p := fun e => (e.initCursor wideBefore).cursors.getLast?.all fun c =>
      c.row = 0 ∧ c.col = 2)
    (by decide +kernel)
  have clear : (Event.key 0x78 wideBefore 5).Clear (new .experimental false) := by
    rintro _ _ _ e₁ parser ch ⟨⟩ done - - c last i low high cell mem
    rw [culled] at done
    cases done
    rw [last] at at_
    obtain ⟨row, col⟩ := of_decide_eq_true at_
    rw [row] at mem
    rw [col] at low
    change i + 1 < 4 at high
    obtain rfl : i = 2 := by omega
    cases mem
    rfl
  have reach : clearTyping.Reachable e :=
    Transition.Reachable.tail (.of_init ⟨.experimental, false, rfl⟩)
      ⟨.key 0x78 wideBefore 5,
        by rintro fb ⟨⟩; exact wideBefore_sized,
        by rintro fb ⟨⟩; exact wideBefore_paired, clear, typed⟩
  refine ⟨e, reach, covers, ?_⟩
  refine ((overlay_paired_iff wideBefore_sized.toMatches wideBefore_paired).2 reach).mpr ?_
  intro row col head
  rcases row with _ | row
  · rcases col with _ | _ | _ | _ | col
    · rw [whole]
    · cases head
    · cases head
    · cases head
    · cases head
  · cases head

/-- A wide character behind a blank. -/
def wideBehind : Snapshot :=
  oneLine [blankCell, wide, .spacer wide, blankCell] 0

/-- The line once an `x` has been inserted. -/
def wideMoved : Snapshot :=
  oneLine [{ blankCell with ch := 'x' }, blankCell, wide, .spacer wide] 1

theorem wideBehind_sized : wideBehind.Sized :=
  ⟨⟨rfl, by decide⟩, by decide, by decide, by decide, by decide⟩

theorem wideMoved_sized : wideMoved.Sized :=
  ⟨⟨rfl, by decide⟩, by decide, by decide, by decide, by decide⟩

theorem wideBehind_paired : wideBehind.Paired :=
  oneLine_paired (by simp [blankCell, Cell.blank])
    (by simp [PairedCells, blankCell, Cell.blank, wide, Cell.spacer]) 0

theorem wideMoved_paired : wideMoved.Paired :=
  oneLine_paired (by simp [blankCell, Cell.blank])
    (by simp [PairedCells, blankCell, Cell.blank, wide, Cell.spacer]) 1

/-- An `x` that the server inserts, and an `a` behind it: the `a` moves the blank onto the head
of the wide character, and its spacer stays in the last column. -/
theorem overlay_tears_wide :
    ∃ e, typing.Reachable e ∧ wideMoved.Matches ∧ wideMoved.Paired ∧
      ¬ (e.apply wideMoved).Paired := by
  obtain ⟨e, typed, torn⟩ := ok_of_any
    (x := forEach [.key 0x78 wideBehind 5, .lateAcked 1, .key 0x61 wideMoved 20]
      (new .always false) Event.perform)
    (p := fun e => (e.apply wideMoved).width 0 2 = some 1 ∧ (e.apply wideMoved).width 0 3 = some 0)
    (by decide +kernel)
  obtain ⟨blank, alone⟩ := of_decide_eq_true torn
  have steps : ∀ ev ∈ [Event.key 0x78 wideBehind 5, .lateAcked 1, .key 0x61 wideMoved 20],
      ev.Sized ∧ ∀ fb ∈ ev.frame, fb.Paired := by
    intro ev mem
    rcases List.mem_cons.mp mem with rfl | mem
    · refine ⟨?_, ?_⟩
      · rintro fb ⟨⟩
        exact wideBehind_sized
      · rintro fb ⟨⟩
        exact wideBehind_paired
    rcases List.mem_cons.mp mem with rfl | mem
    · refine ⟨?_, ?_⟩
      · rintro fb ⟨⟩
      · rintro fb ⟨⟩
    · rw [List.mem_singleton.mp mem]
      refine ⟨?_, ?_⟩
      · rintro fb ⟨⟩
        exact wideMoved_sized
      · rintro fb ⟨⟩
        exact wideMoved_paired
  have reach : typing.Reachable e := Transition.Reachable.runs (.of_init ⟨.always, false, rfl⟩)
    (runs_of_events
      (fun ev mem _ _ done => ⟨ev, (steps ev mem).1, (steps ev mem).2, done⟩) typed)
  refine ⟨e, reach, wideMoved_sized.toMatches, wideMoved_paired, fun paired => ?_⟩
  have head := (paired.pair 0 2).mpr alone
  rw [blank] at head
  cases head

end PredictionEngine

end Posh.Remote
