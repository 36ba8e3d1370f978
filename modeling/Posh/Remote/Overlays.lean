import Posh.Remote.EchoRuns
import Mathlib.Data.List.Nodup

/-!
The shape of the predictions.

Rows and cursors are made from whatever frame is current, and used with later ones. `Fits`
says what stays true of them: each row has a cell for every column of the frame last seen,
and each prediction expires within `bound`. One walk over the engine's operations shows that
they keep it and do not panic.
-/

namespace Posh.Remote

open Posh.Lib Posh.Term

namespace Snapshot

/-- The cells are as many as the size says. -/
structure Matches (fb : Snapshot) : Prop where
  height : fb.cells.length = fb.rows
  width : ∀ row ∈ fb.cells, row.length = fb.cols

/-- A frame as the engine expects it: the cursor stands inside, and there is room to count two
columns past the last. -/
structure Sized (fb : Snapshot) : Prop extends Matches fb where
  cursorRow_lt : fb.cursorRow < fb.rows
  cursorCol_lt : fb.cursorCol < fb.cols
  rows_lt : fb.rows < 2 ^ 16
  cols_lt : fb.cols + 1 < 2 ^ 16

theorem Matches.cell {fb : Snapshot} (h : fb.Matches) {row col : Nat} (row_lt : row < fb.rows)
    (col_lt : col < fb.cols) : ∃ c, fb.cell row col = some c := by
  have here : row < fb.cells.length := h.height ▸ row_lt
  have width : fb.cells[row].length = fb.cols := h.width _ (List.getElem_mem here)
  refine ⟨fb.cells[row][col], ?_⟩
  unfold Snapshot.cell
  rw [List.getElem?_eq_getElem here, Option.bind_some, List.getElem?_eq_getElem]

end Snapshot

/-- The size of the frame that predictions are made for, the offset they are made at, and what
holds of all of them: they expire by `bound`, and the glyphs of `narrow` ones are one column
wide. -/
structure Limits where
  rows : Nat
  cols : Nat
  sent : Nat
  bound : Nat
  narrow : Prop

/-- A frame that the limits are about. -/
structure Limits.Suit (L : Limits) (fb : Snapshot) : Prop extends fb.Sized where
  rows_eq : fb.rows = L.rows
  cols_eq : fb.cols = L.cols

/-- The cells of an overlay row: one for each column. -/
structure Aligned (L : Limits) (cells : List OverlayCell) : Prop where
  cols : cells.map (·.col) = List.range L.cols
  expires : ∀ c ∈ cells, c.active = true → c.expirationFrame ≤ L.bound
  narrow : L.narrow → ∀ c ∈ cells, c.active = true → c.unknown = false → c.replacement.width = 1

namespace Aligned

variable {L : Limits} {cells : List OverlayCell} {i : Nat} {c : OverlayCell}

theorem length (h : Aligned L cells) : cells.length = L.cols := by
  have same := congrArg List.length h.cols
  rwa [List.length_map, List.length_range] at same

theorem col_of_getElem? (h : Aligned L cells) (found : cells[i]? = some c) : c.col = i := by
  have same := congrArg (·[i]?) h.cols
  have inside : i < L.cols := h.length ▸ (List.getElem?_eq_some_iff.mp found).1
  simp only [List.getElem?_map, found, Option.map_some, List.getElem?_range inside] at same
  exact Option.some.inj same

theorem set (h : Aligned L cells) (col : c.col = i)
    (expires : c.active = true → c.expirationFrame ≤ L.bound)
    (narrow : L.narrow → c.active = true → c.unknown = false → c.replacement.width = 1) :
    Aligned L (cells.set i c) where
  cols := by
    rw [List.map_set, h.cols, col]
    apply List.ext_getElem?
    intro k
    rw [List.getElem?_set]
    split
    · rename_i same
      subst same
      split
      · rename_i inside
        rw [List.length_range] at inside
        rw [List.getElem?_range inside]
      · rename_i outside
        rw [List.getElem?_eq_none (Nat.not_lt.mp outside)]
    · rfl
  expires x mem active := by
    rcases List.mem_or_eq_of_mem_set mem with old | rfl
    · exact h.expires x old active
    · exact expires active
  narrow holds x mem active known := by
    rcases List.mem_or_eq_of_mem_set mem with old | rfl
    · exact h.narrow holds x old active known
    · exact narrow holds active known

/-- A cell is replaced by one for the same column. -/
theorem setSame (h : Aligned L cells) (found : cells[i]? = some c) {c' : OverlayCell}
    (col : c'.col = c.col) (expires : c'.active = true → c'.expirationFrame ≤ L.bound)
    (narrow : L.narrow → c'.active = true → c'.unknown = false → c'.replacement.width = 1) :
    Aligned L (cells.set i c') :=
  h.set (col.trans (h.col_of_getElem? found)) expires narrow

theorem map (h : Aligned L cells) {f : OverlayCell → OverlayCell} (col : ∀ c, (f c).col = c.col)
    (expires : ∀ c ∈ cells, (f c).active = true → (f c).expirationFrame ≤ L.bound)
    (narrow : L.narrow → ∀ c ∈ cells, (f c).active = true → (f c).unknown = false →
      (f c).replacement.width = 1) : Aligned L (cells.map f) where
  cols := by
    rw [List.map_map, ← h.cols]
    exact List.map_congr_left fun c _ => col c
  expires x mem active := by
    obtain ⟨c, inside, rfl⟩ := List.mem_map.mp mem
    exact expires c inside active
  narrow holds x mem active known := by
    obtain ⟨c, inside, rfl⟩ := List.mem_map.mp mem
    exact narrow holds c inside active known

/-- The cells of a new row. -/
theorem new (epoch : Nat) :
    Aligned L ((List.range L.cols).map fun i => OverlayCell.new i epoch) where
  cols := by
    rw [List.map_map]
    exact List.map_id _
  expires c mem active := by
    obtain ⟨i, -, rfl⟩ := List.mem_map.mp mem
    cases active
  narrow _ c mem active := by
    obtain ⟨i, -, rfl⟩ := List.mem_map.mp mem
    cases active

/-- A cell that is reset. -/
theorem setReset (h : Aligned L cells) (found : cells[i]? = some c) :
    Aligned L (cells.set i c.reset) :=
  h.setSame found rfl (fun active => by cases active) (fun _ active => by cases active)

/-- The rendition is of no importance. -/
theorem restyle (h : Aligned L cells) (style : Style) (i : Nat) :
    Aligned L (PredictionEngine.restyle style i cells) := by
  have same (x : OverlayCell) (mem : x ∈ PredictionEngine.restyle style i cells) :
      ∃ c ∈ cells, x = { c with replacement.style := x.replacement.style } := by
    rcases List.mem_append.mp mem with early | late
    · exact ⟨x, List.mem_of_mem_take early, rfl⟩
    · obtain ⟨c, inside, rfl⟩ := List.mem_map.mp late
      exact ⟨c, List.mem_of_mem_drop inside, rfl⟩
  refine ⟨?_, ?_, ?_⟩
  · unfold PredictionEngine.restyle
    rw [List.map_append, List.map_map, ← h.cols]
    refine Eq.trans ?_ (congrArg _ (List.take_append_drop i cells))
    rw [List.map_append]
    rfl
  · intro x mem active
    obtain ⟨c, inside, eq⟩ := same x mem
    rw [eq] at active ⊢
    exact h.expires c inside active
  · intro holds x mem active known
    obtain ⟨c, inside, eq⟩ := same x mem
    rw [eq] at active known ⊢
    exact h.narrow holds c inside active known

end Aligned

/-! ### What may be predicted -/

namespace OverlayCell

/-- A glyph that a prediction takes over is one column wide, where that matters. -/
def Narrow (L : Limits) (glyph : Option Cell) : Prop :=
  L.narrow → ∀ c ∈ glyph, c.width = 1

@[simp] theorem col_predict (epoch expiration now : Nat) (orig : Cell) (c : OverlayCell) :
    (c.predict epoch expiration now orig).col = c.col := by
  unfold predict resetWithOrig
  dsimp only
  split <;> rfl

@[simp] theorem col_takeOver (glyph : Option Cell) (c : OverlayCell) :
    (c.takeOver glyph).col = c.col := by
  cases glyph <;> rfl

@[simp] theorem expirationFrame_takeOver (glyph : Option Cell) (c : OverlayCell) :
    (c.takeOver glyph).expirationFrame = c.expirationFrame := by
  cases glyph <;> rfl

/-- A glyph that is taken over is the neighbour's, or the frame's where that predicts nothing. -/
theorem narrow_shifted {L : Limits} {fb : Snapshot} {row col : Nat} {c : OverlayCell}
    (predicted : L.narrow → c.active = true → c.unknown = false → c.replacement.width = 1)
    (frame : Narrow L (fb.cell row col)) : Narrow L (c.shifted fb row col) := by
  intro holds glyph mem
  unfold shifted at mem
  split at mem
  · rename_i active
    split at mem
    · cases mem
    · rename_i known
      cases mem
      exact predicted holds active (Bool.eq_false_iff.mpr known)
  · exact frame holds glyph mem

end OverlayCell

namespace Aligned

variable {L : Limits} {cells : List OverlayCell} {i : Nat} {c : OverlayCell}

/-- A cell that takes over a glyph. -/
theorem setTakeOver (h : Aligned L cells) (found : cells[i]? = some c) {expiration : Nat}
    (expires : expiration ≤ L.bound) (epoch now : Nat) (orig : Cell) {glyph : Option Cell}
    (narrow : OverlayCell.Narrow L glyph) :
    Aligned L (cells.set i ((c.predict epoch expiration now orig).takeOver glyph)) := by
  refine h.setSame found ?_ (fun _ => ?_) (fun holds _ known => ?_)
  · rw [OverlayCell.col_takeOver, OverlayCell.col_predict]
  · rw [OverlayCell.expirationFrame_takeOver]
    exact expires
  · cases glyph with
    | none => cases known
    | some replacement => exact narrow holds replacement rfl

end Aligned

/-! ### The key parser -/

namespace InputParser

/-- The bytes of a character in progress leave room for those that are missing. -/
def Buffered (p : InputParser) : Prop :=
  ∀ need, p.state = .utf8 need → 1 ≤ need ∧ p.utf8.length + need ≤ 4

theorem buffered_of_ground {p : InputParser} (other : ∀ need, p.state ≠ .utf8 need) : p.Buffered :=
  fun need state => absurd state (other need)

theorem inputGround_buffered (b : UInt8) {p : InputParser} (ground : p.state = .ground) :
    (p.inputGround b).1.Buffered := by
  have still : p.Buffered := buffered_of_ground fun need state => by
    rw [ground] at state
    cases state
  have begun (need : Nat) (some_ : 1 ≤ need) (few : need ≤ 3) : (p.startUtf8 b need).Buffered := by
    rintro _ ⟨⟩
    exact ⟨some_, Nat.add_le_add_left few 1⟩
  unfold inputGround
  dsimp only
  split
  · exact buffered_of_ground fun need state => by cases state
  · split
    · exact still
    · split
      · exact still
      · split
        · exact begun 1 (by decide) (by decide)
        · split
          · exact begun 2 (by decide) (by decide)
          · split
            · exact begun 3 (by decide) (by decide)
            · exact still

/-- The parser stays inside its buffer. -/
theorem input_buffered {p : InputParser} (b : UInt8) (h : p.Buffered) :
    Yields (p.input b) fun r => r.1.Buffered := by
  have ended : ({ p with state := .ground } : InputParser).Buffered :=
    buffered_of_ground fun need state => by cases state
  unfold input
  dsimp only
  split
  · rename_i ground
    exact .ok (inputGround_buffered b ground)
  · split
    · exact .ok (buffered_of_ground fun need state => by cases state)
    · exact .ok ended
  · rename_i csi
    split
    · exact .ok h
    · split
      · exact .ok ended
      · exact .ok ended
  · rename_i need state
    obtain ⟨some_, room⟩ := h need state
    split
    · rw [if_pos (by omega)]
      split
      · split
        · exact .ok (buffered_of_ground fun need state => by cases state)
        · exact .ok (buffered_of_ground fun need state => by cases state)
      · rename_i more
        refine (Yields.sub some_).bind ?_
        rintro _ rfl
        refine .pure ?_
        rintro _ ⟨⟩
        rw [List.length_append]
        simp only [List.length_cons, List.length_nil]
        omega
    · exact .ok (inputGround_buffered b rfl)

end InputParser

namespace PredictionEngine

/-- What an engine that predicts is set to. -/
def Driven (L : Limits) (e : PredictionEngine) : Prop :=
  e.lastHeight = L.rows ∧ e.lastWidth = L.cols ∧ e.localFrameSent = L.sent ∧ L.sent + 1 ≤ L.bound ∧
    e.displayPreference ≠ .never ∧ e.parser.Buffered

/-- What holds of the predictions for a frame of the given size. -/
structure Fits (L : Limits) (e : PredictionEngine) : Prop where
  distinct : (e.overlays.map (·.rowNum)).Nodup
  rows : ∀ r ∈ e.overlays, r.rowNum < L.rows ∧ Aligned L r.cells
  cursors : ∀ c ∈ e.cursors, c.expirationFrame ≤ L.bound
  driven : e.Driven L

/-- The predicted cursors stand in the frame. -/
def Inside (L : Limits) (e : PredictionEngine) : Prop :=
  ∀ c ∈ e.cursors, c.row < L.rows ∧ c.col < L.cols

/-- The engine while a key is handled: there is a cursor to move. -/
structure Ready (L : Limits) (e : PredictionEngine) : Prop extends Fits L e where
  inside : Inside L e
  some_ : e.cursors ≠ []

variable {L : Limits} {e : PredictionEngine} {fb : Snapshot}

/-- A prediction that is made now. -/
theorem Driven.expires (h : e.Driven L) : e.localFrameSent + 1 ≤ L.bound := by
  obtain ⟨-, -, sent, room, -, -⟩ := h
  rw [sent]
  exact room

theorem Fits.sent (h : e.Fits L) : e.localFrameSent + 1 ≤ L.bound :=
  h.driven.expires

theorem Fits.becomeTentative (h : e.Fits L) : e.becomeTentative.Fits L := by
  unfold PredictionEngine.becomeTentative
  split
  · exact ⟨h.distinct, h.rows, h.cursors, h.driven⟩
  · exact h

theorem Inside.becomeTentative (h : e.Inside L) : e.becomeTentative.Inside L := by
  unfold PredictionEngine.becomeTentative
  split <;> exact h

theorem Ready.becomeTentative (h : e.Ready L) : e.becomeTentative.Ready L := by
  refine ⟨h.toFits.becomeTentative, h.inside.becomeTentative, ?_⟩
  unfold PredictionEngine.becomeTentative
  split <;> exact h.some_

/-- Without predictions every size fits. -/
theorem fits_reset (driven : e.Driven L) :
    e.reset.Fits L ∧ e.reset.Inside L := by
  have empty : ({ e with cursors := [], overlays := [] } : PredictionEngine).Fits L :=
    { distinct := List.nodup_nil
      rows := fun _ mem => absurd mem List.not_mem_nil
      cursors := fun _ mem => absurd mem List.not_mem_nil
      driven }
  have outside : ({ e with cursors := [], overlays := [] } : PredictionEngine).Inside L :=
    fun _ mem => absurd mem List.not_mem_nil
  exact ⟨empty.becomeTentative, outside.becomeTentative⟩

theorem Fits.initCursor (h : e.Fits L) (inside : e.Inside L) (row : fb.cursorRow < L.rows)
    (col : fb.cursorCol < L.cols) : (e.initCursor fb).Ready L := by
  unfold PredictionEngine.initCursor
  split
  · rename_i fresh
    refine ⟨h, inside, ?_⟩
    intro none
    rw [none] at fresh
    cases fresh
  · have place : ∀ at_ ∈ some ((e.cursors.getLast?.map fun c => (c.row, c.col)).getD
        (fb.cursorRow, fb.cursorCol)), at_.1 < L.rows ∧ at_.2 < L.cols := by
      rintro at_ ⟨⟩
      cases last : e.cursors.getLast? with
      | none => exact ⟨row, col⟩
      | some c => exact inside c (List.mem_of_getLast? last)
    have place := place _ rfl
    refine ⟨⟨h.distinct, h.rows, ?_, h.driven⟩, ?_, by simp⟩
    · intro c mem
      rcases List.mem_append.mp mem with old | new
      · exact h.cursors c old
      · rw [List.mem_singleton.mp new]
        exact h.sent
    · intro c mem
      rcases List.mem_append.mp mem with old | new
      · exact inside c old
      · rw [List.mem_singleton.mp new]
        exact place

/-- There is a cursor, and it stands in the frame. -/
theorem Ready.cursor (h : e.Ready L) :
    Yields e.cursor fun c => e.cursors.getLast? = some c ∧ c.row < L.rows ∧ c.col < L.cols ∧
      c.expirationFrame ≤ L.bound := by
  cases last : e.cursors.getLast? with
  | none => exact absurd (List.getLast?_eq_none_iff.mp last) h.some_
  | some c =>
    have mem := List.mem_of_getLast? last
    refine ⟨c, ?_, rfl, (h.inside c mem).1, (h.inside c mem).2, h.cursors c mem⟩
    unfold PredictionEngine.cursor
    rw [last]
    rfl

/-- The cursor is moved within the frame. -/
theorem Ready.modifyCursor (h : e.Ready L) {f : CursorPrediction → CursorPrediction}
    (keeps : ∀ c, e.cursors.getLast? = some c → c.row < L.rows → c.col < L.cols →
      c.expirationFrame ≤ L.bound →
      (f c).row < L.rows ∧ (f c).col < L.cols ∧ (f c).expirationFrame ≤ L.bound) :
    Yields (e.modifyCursor f) fun e' => e'.Ready L ∧ ∃ cursors, e' = { e with cursors } := by
  unfold PredictionEngine.modifyCursor
  refine h.cursor.bind ?_
  rintro c ⟨last, row, col, expires⟩
  obtain ⟨row', col', expires'⟩ := keeps c last row col expires
  refine .pure ⟨⟨⟨h.distinct, h.rows, ?_, h.driven⟩, ?_, by simp⟩, _, rfl⟩
  · intro x mem
    rcases List.mem_append.mp mem with old | new
    · exact h.cursors x (List.dropLast_subset _ old)
    · rw [List.mem_singleton.mp new]
      exact expires'
  · intro x mem
    rcases List.mem_append.mp mem with old | new
    · exact h.inside x (List.dropLast_subset _ old)
    · rw [List.mem_singleton.mp new]
      exact ⟨row', col'⟩

/-- The row that is found or made, and nothing else is changed. -/
theorem Fits.getOrMakeRow (h : e.Fits L) {rowNum : Nat} (row_lt : rowNum < L.rows) :
    (e.getOrMakeRow rowNum L.cols).2.Fits L ∧
      (∃ overlays, (e.getOrMakeRow rowNum L.cols).2 = { e with overlays }) ∧
      ∃ r, (e.getOrMakeRow rowNum L.cols).2.overlays[(e.getOrMakeRow rowNum L.cols).1]? = some r := by
  unfold PredictionEngine.getOrMakeRow
  split
  · rename_i idx found
    obtain ⟨inside, -, -⟩ := List.findIdx?_eq_some_iff_getElem.mp found
    exact ⟨h, ⟨_, rfl⟩, _, List.getElem?_eq_getElem inside⟩
  · rename_i none
    refine ⟨⟨?_, ?_, h.cursors, h.driven⟩, ⟨_, rfl⟩, ?_⟩
    · rw [List.map_append, List.map_singleton]
      refine List.nodup_append.mpr ⟨h.distinct, List.nodup_singleton _, ?_⟩
      intro x old y new same
      obtain ⟨r, mem, rfl⟩ := List.mem_map.mp old
      rw [List.mem_singleton.mp new] at same
      have other := List.findIdx?_eq_none_iff.mp none r mem
      rw [decide_eq_false_iff_not] at other
      exact other same
    · intro r mem
      rcases List.mem_append.mp mem with old | new
      · exact h.rows r old
      · rw [List.mem_singleton.mp new]
        exact ⟨row_lt, Aligned.new _⟩
    · exact ⟨_, List.getElem?_concat_length⟩

/-- The cells of a row are written. -/
theorem Fits.withRow (h : e.Fits L) {idx : Nat} {r : OverlayRow} (found : e.overlays[idx]? = some r)
    {f : List OverlayCell → Checked (List OverlayCell)}
    (writes : ∀ cells, Aligned L cells → Yields (f cells) (Aligned L)) :
    Yields (e.withRow idx f) fun e' => e'.Fits L ∧ ∃ overlays, e' = { e with overlays } := by
  obtain ⟨inside, eq⟩ := List.getElem?_eq_some_iff.mp found
  unfold PredictionEngine.withRow
  refine (Yields.getAt inside).bind ?_
  rintro r' ⟨found', mem⟩
  rw [found] at found'
  cases found'
  obtain ⟨row_lt, aligned⟩ := h.rows r mem
  refine (writes r.cells aligned).bind fun cells aligned' => ?_
  refine (Yields.setAt inside).bind ?_
  rintro _ rfl
  refine .pure ⟨⟨?_, ?_, h.cursors, h.driven⟩, _, rfl⟩
  · rw [List.map_set]
    have same : (e.overlays.map (·.rowNum)).set idx r.rowNum = e.overlays.map (·.rowNum) := by
      have inside' : idx < (e.overlays.map (·.rowNum)).length := by simpa using inside
      have num : (e.overlays.map (·.rowNum))[idx] = r.rowNum := by
        rw [List.getElem_map, eq]
      rw [← num]
      exact List.set_getElem_self _
    rw [same]
    exact h.distinct
  · intro x mem'
    rcases List.mem_or_eq_of_mem_set mem' with old | rfl
    · exact h.rows x old
    · exact ⟨row_lt, aligned'⟩

/-! ### Keys -/

theorem Fits.initCursor_suit (h : e.Fits L) (inside : e.Inside L) (suit : L.Suit fb) :
    (e.initCursor fb).Ready L :=
  h.initCursor inside (suit.rows_eq ▸ suit.cursorRow_lt) (suit.cols_eq ▸ suit.cursorCol_lt)

theorem newlineCarriageReturn_ready (suit : L.Suit fb) (now : Nat) (h : e.Fits L)
    (inside : e.Inside L) : Yields (e.newlineCarriageReturn fb now) (Ready L) := by
  unfold newlineCarriageReturn
  have ready := h.initCursor_suit inside suit
  have rows : 0 < fb.rows := Nat.zero_lt_of_lt suit.cursorRow_lt
  have cols : 0 < L.cols := suit.cols_eq ▸ Nat.zero_lt_of_lt suit.cursorCol_lt
  have start := ready.modifyCursor (f := fun c => { c with col := 0 })
    fun c _ row _ expires => ⟨row, cols, expires⟩
  refine start.bind ?_
  rintro e ⟨ready, -⟩
  refine ready.cursor.bind ?_
  rintro c ⟨last, row, col, expires⟩
  refine (Yields.sub rows).bind ?_
  rintro _ rfl
  dsimp only
  split
  · rw [suit.cols_eq]
    obtain ⟨fits, ⟨overlays, same⟩, r, found⟩ := ready.toFits.getOrMakeRow row
    refine (fits.withRow found ?_).mono ?_
    · intro cells aligned
      refine .ok (aligned.map (fun _ => rfl) (fun _ _ _ => ready.sent) fun _ _ _ _ _ => rfl)
    · rintro e' ⟨fits', overlays', rfl⟩
      refine ⟨fits', ?_, ?_⟩
      · rw [same]
        exact ready.inside
      · rw [same]
        exact ready.some_
  · rename_i above
    have room : c.row + 1 < 2 ^ 16 := by
      have bound := suit.rows_lt
      have eq := suit.rows_eq
      omega
    refine (Yields.add room).bind ?_
    rintro _ rfl
    refine (ready.modifyCursor fun c' last' row' col' expires' => ?_).mono fun _ done => done.1
    rw [last] at last'
    cases last'
    have eq := suit.rows_eq
    exact ⟨by dsimp only; omega, col', expires'⟩

/-- No wide character stands at or behind a column, the last one left out. -/
def NarrowFrom (fb : Snapshot) (row col : Nat) : Prop :=
  ∀ i, col ≤ i → i + 1 < fb.cols → ∀ c ∈ fb.cell row i, c.width = 1

section Cells

variable {cells : List OverlayCell} {row col width epoch expiration : Nat}

theorem shiftRight_aligned (h : Aligned L cells) (now : Nat) {i : Nat} (before : col < i)
    (inside : i < L.cols) (cols : fb.cols = L.cols) (expires : expiration ≤ L.bound)
    (narrow : L.narrow → NarrowFrom fb row col) :
    Yields (shiftRight fb row width epoch expiration now i cells) (Aligned L) := by
  unfold shiftRight
  have length := h.length
  refine (Yields.getAt (by omega)).bind ?_
  rintro left ⟨found, mem⟩
  refine (Yields.getAt (by omega)).bind ?_
  rintro cell ⟨there, -⟩
  refine (Yields.setAt (by omega)).mono ?_
  rintro _ rfl
  split
  · refine h.setSame there ?_ (fun _ => expires) (fun _ _ known => by cases known)
    simp
  · refine h.setTakeOver there expires epoch now _ (OverlayCell.narrow_shifted ?_ ?_)
    · exact fun holds active known => h.narrow holds left mem active known
    · exact fun holds => narrow holds (i - 1) (by omega) (by omega)

theorem putGlyph_aligned (h : Aligned L cells) (ch : Char) (now : Nat) (inside : col < L.cols)
    (expires : expiration ≤ L.bound) :
    Yields (putGlyph ch fb row col epoch expiration now cells) (Aligned L) := by
  unfold putGlyph
  have length := h.length
  have style : Yields (if col > 0 then do
      let left ← getAt cells (col - 1)
      if left.active && !left.unknown then pure left.replacement.style
      else pure (((fb.cell row (col - 1)).map (·.style)).getD {})
    else pure {} : Checked Style) fun _ => True := by
    split
    · refine (Yields.getAt (by omega)).bind ?_
      rintro left -
      split <;> exact .pure trivial
    · exact .pure trivial
  refine style.bind ?_
  rintro style -
  refine (Yields.getAt (by omega)).bind ?_
  rintro cell ⟨there, -⟩
  refine (Yields.setAt (by omega)).mono ?_
  rintro _ rfl
  refine h.setSame there ?_ (fun _ => expires) (fun _ _ _ => rfl)
  simp

end Cells

/-- No wide character of the frame would be moved by what is typed at the predicted cursor. -/
def Clear (fb : Snapshot) (e : PredictionEngine) : Prop :=
  e.predictOverwrite = false → ∀ c, (e.initCursor fb).cursors.getLast? = some c →
    NarrowFrom fb c.row c.col

theorem predictOverwrite_initCursor (fb : Snapshot) (e : PredictionEngine) :
    (e.initCursor fb).predictOverwrite = e.predictOverwrite := by
  unfold initCursor
  split <;> rfl

theorem predictOverwrite_becomeTentative (e : PredictionEngine) :
    e.becomeTentative.predictOverwrite = e.predictOverwrite := by
  unfold PredictionEngine.becomeTentative
  split <;> rfl

theorem handleBackspace_ready (suit : L.Suit fb) (now : Nat) (h : e.Fits L) (inside : e.Inside L)
    (clear : L.narrow → e.Clear fb) : Yields (e.handleBackspace fb now) (Ready L) := by
  have ready := h.initCursor_suit inside suit
  unfold handleBackspace
  refine ready.cursor.bind ?_
  rintro c ⟨last, row, col, -⟩
  dsimp only
  split
  · exact .pure ready
  · rename_i some_
    have start := ready.modifyCursor
      (f := fun c' => { c' with
        col := c.col - 1, expirationFrame := (e.initCursor fb).localFrameSent + 1 })
      fun c' _ row' _ _ => ⟨row', by dsimp only; omega, ready.sent⟩
    refine start.bind ?_
    rintro e' ⟨ready', cursors, same⟩
    rw [suit.cols_eq]
    obtain ⟨fits, ⟨overlays, made⟩, r, found⟩ := ready'.toFits.getOrMakeRow row
    refine (fits.withRow found ?_).mono ?_
    · intro cells aligned
      have length := aligned.length
      split
      · refine (Yields.getAt (by omega)).bind ?_
        rintro cell ⟨there, -⟩
        refine (Yields.setAt (by omega)).mono ?_
        rintro _ rfl
        refine aligned.setSame there ?_ (fun _ => ready.sent) (fun _ _ _ => rfl)
        simp
      · rename_i insert
        have narrow : L.narrow → NarrowFrom fb c.row c.col := by
          intro holds
          refine clear holds ?_ c last
          rw [← predictOverwrite_initCursor fb]
          rw [same] at insert
          exact Bool.eq_false_iff.mpr insert
        refine Yields.forRange aligned ?_
        intro i cells low high aligned
        have length := aligned.length
        have cols := suit.cols_eq
        have room : i + 2 < 2 ^ 16 := by
          have bound := suit.cols_lt
          omega
        refine (Yields.add room).bind ?_
        rintro _ rfl
        have next : Yields (if i + 2 < L.cols then do
            let right ← getAt cells (i + 1)
            pure (right.shifted fb c.row (i + 1))
          else pure none : Checked (Option Cell)) (OverlayCell.Narrow L) := by
          split
          · refine (Yields.getAt (by omega)).bind ?_
            rintro right ⟨-, mem⟩
            refine .pure (OverlayCell.narrow_shifted ?_ ?_)
            · exact fun holds active known => aligned.narrow holds right mem active known
            · exact fun holds => narrow holds (i + 1) (by omega) (by omega)
          · exact .pure fun _ glyph none => by cases none
        refine next.bind ?_
        intro glyph narrow
        refine (Yields.getAt (by omega)).bind ?_
        rintro cell ⟨there, -⟩
        refine (Yields.setAt (by omega)).mono ?_
        rintro _ rfl
        exact aligned.setTakeOver there ready.sent _ now _ narrow
    · rintro e'' ⟨fits', overlays', rfl⟩
      refine ⟨fits', ?_, ?_⟩
      · rw [made]
        exact ready'.inside
      · rw [made]
        exact ready'.some_

/-- The frame fits, and so do the cursors. -/
structure Shaped (L : Limits) (e : PredictionEngine) : Prop extends Fits L e where
  inside : Inside L e

theorem Ready.shaped (h : e.Ready L) : e.Shaped L :=
  ⟨h.toFits, h.inside⟩

theorem Shaped.becomeTentative (h : e.Shaped L) : e.becomeTentative.Shaped L :=
  ⟨h.toFits.becomeTentative, h.inside.becomeTentative⟩

theorem handlePrint_shaped (suit : L.Suit fb) (ch : Char) (now : Nat) (h : e.Shaped L)
    (clear : L.narrow → e.Clear fb) : Yields (e.handlePrint ch fb now) (Shaped L) := by
  unfold handlePrint
  split
  · exact (handleBackspace_ready suit now h.toFits h.inside clear).mono fun _ ready => ready.shaped
  split
  · exact .ok h.becomeTentative
  have ready := h.toFits.initCursor_suit h.inside suit
  refine ready.cursor.bind ?_
  rintro c ⟨last, row, col, -⟩
  dsimp only
  split
  · exact .pure ready.shaped
  have bumped : (if c.col + 1 ≥ fb.cols then (e.initCursor fb).becomeTentative
      else e.initCursor fb).Ready L ∧ (if c.col + 1 ≥ fb.cols then
      (e.initCursor fb).becomeTentative else e.initCursor fb).predictOverwrite =
        e.predictOverwrite := by
    split
    · exact ⟨ready.becomeTentative,
        (predictOverwrite_becomeTentative _).trans (predictOverwrite_initCursor fb e)⟩
    · exact ⟨ready, predictOverwrite_initCursor fb e⟩
  generalize (if c.col + 1 ≥ fb.cols then (e.initCursor fb).becomeTentative
    else e.initCursor fb) = e₁ at bumped ⊢
  obtain ⟨bumped, overwrite⟩ := bumped
  rw [suit.cols_eq]
  obtain ⟨fits, ⟨overlays, made⟩, r, found⟩ := bumped.toFits.getOrMakeRow row
  refine (fits.withRow found ?_).bind ?_
  · intro cells aligned
    refine Yields.bind (p := Aligned L) (Yields.forEach aligned ?_) ?_
    · intro i mem cells aligned
      obtain ⟨low, high⟩ := List.mem_range'_1.mp (List.mem_reverse.mp mem)
      split at high
      · omega
      · rename_i insert
        rw [overwrite] at insert
        have narrow := fun holds => clear holds (Bool.eq_false_iff.mpr insert) c last
        exact shiftRight_aligned aligned now low (by omega) suit.cols_eq ready.sent narrow
    · intro cells aligned
      exact putGlyph_aligned aligned ch now col ready.sent
  · rintro e₂ ⟨fits₂, overlays₂, same₂⟩
    have ready₂ : e₂.Ready L := by
      refine ⟨fits₂, ?_, ?_⟩
      · rw [same₂, made]
        exact bumped.inside
      · rw [same₂, made]
        exact bumped.some_
    have expire := ready₂.modifyCursor
      (f := fun c => { c with expirationFrame := (e.initCursor fb).localFrameSent + 1 })
      fun c _ row col _ => ⟨row, col, ready.sent⟩
    refine expire.bind ?_
    rintro e₃ ⟨ready₃, -⟩
    split
    · rename_i fits
      have move := ready₃.modifyCursor (f := fun c' => { c' with col := c.col + 1 })
        fun c' _ row _ expires => ⟨row, fits, expires⟩
      exact move.mono fun _ moved => moved.1.shaped
    · have ended := ready₃.becomeTentative
      exact (newlineCarriageReturn_ready suit now ended.toFits ended.inside).mono
        fun _ ready => ready.shaped

theorem handleArrow_shaped (suit : L.Suit fb) {move : Nat → Checked (Option Nat)}
    (moves : ∀ col < L.cols, Yields (move col) fun next => ∀ col' ∈ next, col' < L.cols)
    (h : e.Shaped L) : Yields (e.handleArrow move fb) (Shaped L) := by
  unfold handleArrow
  have ready := h.toFits.initCursor_suit h.inside suit
  refine ready.cursor.bind ?_
  rintro c ⟨-, -, col, -⟩
  refine (moves c.col col).bind ?_
  intro next inside
  cases next with
  | none => exact .pure ready.shaped
  | some col' =>
    have moved := ready.modifyCursor
      (f := fun c => { c with
        col := col', expirationFrame := (e.initCursor fb).localFrameSent + 1 })
      fun c _ row _ _ => ⟨row, inside col' rfl, ready.sent⟩
    exact moved.mono fun _ moved => moved.1.shaped

theorem rightArrow_shaped (suit : L.Suit fb) (h : e.Shaped L) :
    Yields (e.rightArrow fb) (Shaped L) := by
  refine handleArrow_shaped suit ?_ h
  intro col inside
  have room : col + 1 < 2 ^ 16 := by
    have bound := suit.cols_lt
    have eq := suit.cols_eq
    omega
  refine (Yields.add room).bind ?_
  rintro _ rfl
  refine .pure ?_
  intro col' mem
  split at mem
  · rename_i fits
    cases mem
    exact suit.cols_eq ▸ fits
  · cases mem

theorem leftArrow_shaped (suit : L.Suit fb) (h : e.Shaped L) :
    Yields (e.leftArrow fb) (Shaped L) := by
  refine handleArrow_shaped suit ?_ h
  intro col inside
  refine .ok ?_
  intro col' mem
  split at mem
  · cases mem
    omega
  · cases mem

end PredictionEngine

end Posh.Remote
