import Posh.Term.Reflow
import Posh.Term.Runs

/-!
What a resize keeps of the text: the logical lines at their new width, but for the
rows far below the cursor and the oldest rows past the scrollback cap.
-/

namespace Posh.Term

open Posh.Lib

/-! ### The lines before a row -/

section LineIndex

variable {a b line : List Row} {k : Nat}

theorem lineIndex_append_left (inside : k ≤ a.length) : lineIndex (a ++ b) k = lineIndex a k := by
  unfold lineIndex
  rw [List.take_append_of_le_length inside]

theorem lineIndex_append_right : lineIndex (a ++ b) (a.length + k) =
    lineIndex a a.length + lineIndex b k := by
  unfold lineIndex
  rw [List.take_length_add_append, List.countP_append, List.take_length]

/-- No line ends before the last row of a line. -/
theorem lineIndex_isLine (h : Screen.IsLine line) (inside : k < line.length) :
    lineIndex line k = 0 := by
  obtain ⟨init, last, rfl, soft⟩ := h
  rw [List.length_append, List.length_singleton] at inside
  unfold lineIndex
  rw [List.take_append_of_le_length (by omega), List.countP_eq_zero]
  intro r mem
  rw [soft r (List.mem_of_mem_take mem)]
  exact nofun

/-- A finished line is one line. -/
theorem lineIndex_finished (h : Screen.IsLine line) (done : Screen.Finished line) :
    lineIndex line line.length = 1 := by
  obtain ⟨init, last, rfl, soft⟩ := h
  have hard := done last List.getLast?_concat
  have none : init.countP (!·.wrapped) = 0 := by
    rw [List.countP_eq_zero]
    intro r mem
    rw [soft r mem]
    exact nofun
  unfold lineIndex
  rw [List.take_length, List.countP_append, none, List.countP_singleton, hard]
  rfl

end LineIndex

namespace Screen

/-- The scrollback and the grid below it. -/
def text (s : Screen) : List Row :=
  s.scrollback ++ s.grid

/-! ### All lines -/

theorem areLines_tail {line : List Row} {lines : List (List Row)} (h : AreLines (line :: lines)) :
    IsLine line ∧ (lines ≠ [] → Finished line) ∧ AreLines lines := by
  cases lines with
  | nil => exact ⟨h, absurd rfl, trivial⟩
  | cons next lines => exact ⟨h.1, fun _ => h.2.1, h.2.2⟩

theorem lineCursor_eq_none {cursorAbs cursorCol i : Nat} {line : List Row} :
    lineCursor cursorAbs cursorCol i line = none ↔
      ¬ (i ≤ cursorAbs ∧ cursorAbs < i + line.length) := by
  unfold lineCursor
  split
  · rename_i here
    exact ⟨nofun, absurd here⟩
  · rename_i elsewhere
    exact ⟨fun _ => elsewhere, fun _ => rfl⟩

/-- Rewrapping all lines fits each of them to the new width, and the cursor stays on
its line. -/
theorem rewrapLines_text {width : Nat} (cursorAbs cursorCol : Nat) (pos : 0 < width) :
    ∀ (lines : List (List Row)) (i : Nat) (newRows : List Row) (newCursor : Option (Nat × Nat)),
      AreLines lines → Uniform width newRows →
      Yields (forEach lines (i, newRows, newCursor) (rewrapLine width cursorAbs cursorCol))
        fun state => ∃ added, state.2.1 = newRows ++ added ∧ Uniform width (newRows ++ added) ∧
          (logicalLines added).map lineGlyphs =
            lines.map (fun line => fittedLine width (glyphs (lineCells line))) ∧
          (cursorAbs < i → state.2.2 = newCursor) ∧
          (i ≤ cursorAbs → cursorAbs < i + lines.flatten.length → newCursor = none →
            ∃ k col, state.2.2 = some (newRows.length + k, col) ∧ k < added.length ∧
              lineIndex added k = lineIndex lines.flatten (cursorAbs - i))
  | [], i, newRows, newCursor, _, uniform => by
      refine .pure ⟨[], (List.append_nil _).symm, (List.append_nil _).symm ▸ uniform, rfl,
        fun _ => rfl, ?_⟩
      intro low high
      exact absurd high (by simpa using low)
  | line :: lines, i, newRows, newCursor, areLines, uniform => by
      obtain ⟨isLine, done, areLines'⟩ := areLines_tail areLines
      refine (rewrapLine_text cursorAbs cursorCol i line newCursor pos uniform).bind ?_
      rintro ⟨i', rows, cursor⟩ ⟨added, rfl, rfl, uniform', rewraps, absent, found⟩
      dsimp only at absent found
      refine (rewrapLines_text cursorAbs cursorCol pos lines _ _ cursor areLines' uniform').mono ?_
      rintro state ⟨more, rows, uniform'', text, before, after⟩
      refine ⟨added ++ more, by rw [rows, List.append_assoc],
        by rw [← List.append_assoc]; exact uniform'', ?_, ?_, ?_⟩
      · obtain ⟨init, last, split, soft⟩ := rewraps.isLine
        have one : logicalLines added = [added] := by
          rw [split]
          exact logicalLines_single soft
        rw [logicalLines_append rewraps.finished, one, List.map_append, text, List.map_singleton,
          rewraps.text]
        rfl
      · intro passed
        rw [before (by omega), absent (lineCursor_eq_none.mpr (by omega))]
      · intro low high none
        rw [List.flatten_cons, List.length_append] at high
        rw [List.flatten_cons]
        by_cases here : cursorAbs < i + line.length
        · -- on this line
          have within : lineCursor cursorAbs cursorCol i line ≠ Option.none :=
            fun eq => lineCursor_eq_none.mp eq ⟨low, here⟩
          obtain ⟨p, isPlace, first, last⟩ := found within none
          refine ⟨p.1 - newRows.length, p.2, ?_, ?_, ?_⟩
          · rw [before here, isPlace, Nat.add_sub_cancel' first]
          · rw [List.length_append]
            omega
          · rw [lineIndex_append_left (by omega), lineIndex_append_left (by omega),
              lineIndex_isLine rewraps.isLine (by omega), lineIndex_isLine isLine (by omega)]
        · -- further down
          have beyond : ¬ (i ≤ cursorAbs ∧ cursorAbs < i + line.length) := fun h => here h.2
          obtain ⟨k, col, place, inside, index⟩ := after (by omega) (by omega)
            ((absent (lineCursor_eq_none.mpr beyond)).trans none)
          have follows : lines ≠ [] := by
            rintro rfl
            simp only [List.flatten_nil, List.length_nil] at high
            omega
          refine ⟨added.length + k, col, ?_, ?_, ?_⟩
          · rw [place, List.length_append, Nat.add_assoc]
          · rw [List.length_append]
            omega
          · have offset : cursorAbs - i = line.length + (cursorAbs - (i + line.length)) := by omega
            rw [offset, lineIndex_append_right, lineIndex_append_right, index,
              lineIndex_finished rewraps.isLine rewraps.finished,
              lineIndex_finished isLine (done follows)]

/-- The text of rows whose lines are fitted to a width. -/
theorem logicalText_fitted {width : Nat} {rows rows' : List Row}
    (fitted : (logicalLines rows').map lineGlyphs =
      (logicalLines rows).map fun line => fittedLine width (glyphs (lineCells line))) :
    logicalText rows' = fittedText width (logicalText rows) := by
  have lines : (logicalLines rows').map lineGlyphs =
      ((logicalLines rows).map lineGlyphs).map (fittedLine width) := by
    rw [fitted, List.map_map]
    refine List.map_congr_left fun line _ => ?_
    exact (fittedLine_trimBlanks width _).symm
  unfold logicalText fittedText
  rw [lines, rdropWhile_map]
  intro line empty
  rw [List.isEmpty_iff.mp empty]
  rfl

/-- Only rows that show nothing are dropped, and none of the first `old.length - budget`. -/
theorem dropBlankRows_split : ∀ (budget : Nat) (old : List Row),
    ∃ blanks, old = dropBlankRows budget old ++ blanks ∧ blanks.length ≤ budget ∧
      ∀ r ∈ blanks, r.isDumpSkippable = true
  | 0, old => ⟨[], (List.append_nil old).symm, Nat.le_refl 0, nofun⟩
  | budget + 1, old => by
      unfold dropBlankRows
      split
      · rename_i last isLast
        split
        · rename_i blank
          obtain ⟨blanks, split, few, skippable⟩ := dropBlankRows_split budget old.dropLast
          refine ⟨blanks ++ [last], ?_, ?_, ?_⟩
          · rw [← List.append_assoc, ← split]
            exact (List.dropLast_append_getLast? last isLast).symm
          · rw [List.length_append, List.length_singleton]
            omega
          · intro r mem
            rcases List.mem_append.mp mem with mem | mem
            · exact skippable r mem
            · rw [List.mem_singleton.mp mem]
              exact ((Bool.and_eq_true ..).mp blank).1
        · exact ⟨[], (List.append_nil old).symm, Nat.zero_le _, nofun⟩
      · exact ⟨[], (List.append_nil old).symm, Nat.zero_le _, nofun⟩

/-- The rows up to the `i`th stay. -/
theorem dropBlankRows_upTo {i : Nat} {rows : List Row} (inside : i < rows.length) :
    ∃ old blanks, dropBlankRows (rows.length - (i + 1)) rows = old ∧ rows = old ++ blanks ∧
      i < old.length ∧ ∀ r ∈ blanks, r.isDumpSkippable = true := by
  obtain ⟨blanks, split, few, skippable⟩ := dropBlankRows_split (rows.length - (i + 1)) rows
  refine ⟨_, blanks, rfl, split, ?_, skippable⟩
  have total := congrArg List.length split
  rw [List.length_append] at total
  omega

/-! ### Rewrapping a screen -/

/-- `full` is the text of `s` at `cols` columns. Of its rows those from row `n` on are
cut, if the width changes: a screenful below the line of row `cursorAbs`. -/
structure Rewrapped (s : Screen) (cols cursorAbs : Nat) (full : List Row) (n : Nat) : Prop where
  uniform : Uniform cols full
  text : logicalText full =
    if cols = s.cols then logicalText s.text else fittedText cols (logicalText s.text)
  cut : n < full.length → cols ≠ s.cols ∧
    ∃ c, n = c + s.rows ∧ lineIndex full c = lineIndex s.text cursorAbs

/-- The rows of `s` are those of `base` without the first `d`, which found no place in
the scrollback, and up to rows at the end that show nothing. -/
structure Rest (cap : Nat) (base : List Row) (s : Screen) (d : Nat) : Prop where
  kept : stripRows s.text = (stripRows base).drop d
  full : 0 < d → cap ≤ s.scrollback.length
  maxScrollback : s.maxScrollback = cap

variable {s : Screen} {rows cols cap d : Nat} {base : List Row}

theorem rest_self (s : Screen) : Rest s.maxScrollback s.text s 0 :=
  ⟨rfl, nofun, rfl⟩

/-- The rows that are left show what they showed before. -/
theorem logicalText_of_kept {text : List Row} (kept : stripRows text = (stripRows base).drop d) :
    logicalText text = logicalText (base.drop d) := by
  rw [← logicalText_stripRows, kept]
  unfold stripRows
  rw [← rdropWhile_drop]
  exact logicalText_stripRows _

theorem drop_take_append {α : Type} {d k : Nat} (l : List α) (le : d ≤ (l.take k).length) :
    (l.take k).drop d ++ l.drop k = l.drop d := by
  conv_rhs => rw [← List.take_append_drop k l, List.drop_append_of_le_length le]

theorem skippable_blank (n cols : Nat) :
    ∀ r ∈ List.replicate n (Row.blank cols {}), r.isDumpSkippable = true := by
  intro r mem
  rw [List.eq_of_mem_replicate mem]
  unfold Row.isDumpSkippable Row.blank
  rw [List.all_eq_true]
  intro c mem
  rw [List.eq_of_mem_replicate mem]
  rfl

theorem reflowWidth_text (h : s.Sized rows cols) {newCols : Nat} (pos : 0 < newCols)
    (other : newCols ≠ s.cols) {cursor : Nat × Nat} (onScreen : cursor.1 < rows) :
    Yields (s.reflowWidth newCols cursor) fun state => ∃ full n d,
      Rewrapped s newCols (s.scrollback.length + cursor.1) full n ∧
        Rest s.maxScrollback (full.take n) state.1 d := by
  have rows_eq := h.rows_eq
  have height := h.height
  have rows_pos := h.rows_pos
  unfold reflowWidth
  dsimp only
  change Yields (forEach (logicalLines (dropBlankRows (s.text.length - _) s.text)) _ _ >>= _) _
  obtain ⟨cursorAbs, isAbs⟩ : ∃ a, a = s.scrollback.length + cursor.1 := ⟨_, rfl⟩
  have whole : s.text.length = s.scrollback.length + rows := by
    rw [text, List.length_append, height]
  rw [← isAbs]
  obtain ⟨old, blanks, isOld, split, inside, skippable⟩ :=
    dropBlankRows_upTo (show cursorAbs < s.text.length by omega)
  rw [isOld]
  refine (rewrapLines_text cursorAbs cursor.2 pos (logicalLines old) 0 [] none
    (areLines_logicalLines old) Uniform.nil).bind ?_
  rintro ⟨i, full, newCursor⟩ ⟨added, isFull, uniform, lines, _, found⟩
  dsimp only at isFull found
  rw [List.nil_append] at isFull
  subst isFull
  obtain ⟨c, col, place, within, index⟩ := found (Nat.zero_le _)
    (by rw [flatten_logicalLines, Nat.zero_add]; exact inside) rfl
  rw [List.length_nil, Nat.zero_add] at place
  subst place
  -- the kept rows, and where the grid starts among them
  obtain ⟨n, isN⟩ : ∃ n, n = if c < full.length - s.rows then c + s.rows else full.length := ⟨_, rfl⟩
  have kept : (if c < full.length - s.rows then full.take (c + s.rows) else full) = full.take n := by
    rw [isN]
    split
    · rfl
    · rw [List.take_length]
  obtain ⟨start, isStart⟩ : ∃ start, start =
    (if c < full.length - s.rows then c else full.length - s.rows) := ⟨_, rfl⟩
  simp only [Option.getD_some, kept, ← isStart]
  have taken : (full.take n).length = min n full.length := List.length_take
  have bounds : start ≤ (full.take n).length ∧ start ≤ c := by
    rw [taken, isN, isStart]
    split
    · omega
    · omega
  rw [if_neg (by omega)]
  refine (Yields.sub bounds.2).bind ?_
  rintro row rfl
  have scrollback_length : ((full.take n).take start).length = start := by
    rw [List.length_take]
    omega
  refine .pure ⟨full, n, start - s.maxScrollback, ⟨uniform, ?_, ?_⟩, ?_, ?_, rfl⟩
  · rw [if_neg other, logicalText_fitted lines, split, logicalText_append _ skippable]
  · intro cut
    refine ⟨other, c, ?_, ?_⟩
    · rw [isN] at cut ⊢
      split
      · rfl
      · rename_i all
        rw [if_neg all] at cut
        exact absurd cut (Nat.lt_irrefl _)
    · rw [index, flatten_logicalLines, Nat.sub_zero, split,
        lineIndex_append_left (Nat.le_of_lt inside)]
  · unfold text stripRows
    dsimp only
    rw [scrollback_length, ← List.append_assoc,
      drop_take_append _ (by rw [scrollback_length]; exact Nat.sub_le _ _),
      rdropWhile_append _ (skippable_blank _ _), rdropWhile_drop]
  · intro past
    dsimp only
    rw [scrollback_length, List.length_drop, scrollback_length]
    omega

/-- The width half of a resize; nothing is rewrapped when the width stays. -/
theorem resizeCols_text (h : s.Sized rows cols) {newCols : Nat} (pos : 0 < newCols)
    {cursor : Nat × Nat} (onScreen : cursor.1 < rows) :
    Yields (s.resizeCols newCols true cursor) fun state => ∃ full n d,
      Rewrapped s newCols (s.scrollback.length + cursor.1) full n ∧
        Rest s.maxScrollback (full.take n) state.1 d := by
  unfold resizeCols
  split
  · rename_i same
    refine .pure ⟨s.text, s.text.length, 0, ⟨?_, (if_pos same).symm, fun cut => ?_⟩, ?_⟩
    · rw [same, h.cols_eq]
      exact h.scrollback.append h.grid
    · exact absurd cut (Nat.lt_irrefl _)
    · rw [List.take_length]
      exact rest_self s
  · rename_i other
    refine (reflowWidth_text h pos other onScreen).bind ?_
    rintro ⟨s', cursor'⟩ rewrapped
    refine (Yields.sub pos).bind ?_
    rintro edge rfl
    exact .pure rewrapped

/-! ### The height -/

/-- Taking away a last row that shows nothing. -/
theorem Rest.dropLast (h : Rest cap base s d)
    (blank : (s.grid.getLast?.map Row.isDumpSkippable).getD true = true) :
    Rest cap base { s with grid := s.grid.dropLast } d := by
  refine ⟨?_, h.full, h.maxScrollback⟩
  rw [← h.kept]
  cases isLast : s.grid.getLast? with
  | none =>
    rw [List.getLast?_eq_none_iff] at isLast
    unfold text
    rw [isLast]
    rfl
  | some last =>
    rw [isLast] at blank
    have split : s.text = { s with grid := s.grid.dropLast }.text ++ [last] := by
      unfold text
      rw [List.append_assoc, List.dropLast_append_getLast? last isLast]
    unfold stripRows
    rw [split, rdropWhile_append]
    intro r mem
    rw [List.mem_singleton.mp mem]
    exact blank

/-- Moving the first row of the grid into the scrollback. -/
theorem Rest.pushScrollback (h : Rest cap base s d) (within : s.scrollback.length ≤ cap)
    {row : Row} {grid : List Row} (isGrid : s.grid = row :: grid) :
    ∃ e, Rest cap base ({ s with grid }.pushScrollback true row) e := by
  obtain rfl := h.maxScrollback
  have dropped : stripRows (s.text.drop 1) = (stripRows base).drop (d + 1) := by
    unfold stripRows
    rw [rdropWhile_drop, ← List.drop_drop]
    exact congrArg (List.drop 1) h.kept
  unfold Screen.pushScrollback
  dsimp only
  split
  · rename_i saves
    split
    · rename_i crowded
      refine ⟨d + 1, ?_, ?_, rfl⟩
      · rw [← dropped]
        unfold text
        dsimp only
        rw [isGrid, List.drop_append_of_le_length (by omega), List.append_assoc]
        rfl
      · intro _
        dsimp only
        rw [List.length_append, List.length_drop, List.length_singleton]
        omega
    · refine ⟨d, ?_, ?_, rfl⟩
      · rw [← h.kept]
        unfold text
        dsimp only
        rw [isGrid, List.append_assoc]
        rfl
      · intro past
        dsimp only
        rw [List.length_append]
        exact Nat.le_add_right_of_le (h.full past)
  · rename_i lost
    have none : s.maxScrollback = 0 := by
      by_contra some
      exact lost ⟨rfl, Nat.pos_of_ne_zero some⟩
    have empty : s.scrollback = [] := List.length_eq_zero_iff.mp (by omega)
    refine ⟨d + 1, ?_, fun _ => none ▸ Nat.zero_le _, rfl⟩
    rw [← dropped]
    unfold text
    dsimp only
    rw [isGrid, empty]
    rfl

theorem shrinkPass_text {cursor : Nat × Nat} (h : Rest cap base s d)
    (within : s.scrollback.length ≤ cap) :
    Guarded False (shrinkPass true (s, cursor)) fun state => ∃ e, Rest cap base state.1 e := by
  unfold shrinkPass
  refine (Guarded.trivial _).bind ?_
  intro last _
  dsimp only
  split
  · rename_i blank
    exact .pure ⟨d, h.dropLast blank.1⟩
  · rw [if_pos rfl]
    cases isGrid : s.grid with
    | nil => exact .error id
    | cons row grid => exact .pure (h.pushScrollback within isGrid)

/-- Growing only moves rows between the scrollback and the grid, and adds blank ones. -/
theorem growPass_text (s : Screen) (cols : Nat) (cursor : Nat × Nat) :
    stripRows (growPass cols true (s, cursor)).1.text = stripRows s.text ∧
      s.text.length ≤ (growPass cols true (s, cursor)).1.text.length ∧
      (growPass cols true (s, cursor)).1.maxScrollback = s.maxScrollback := by
  unfold growPass
  dsimp only
  rw [if_pos rfl]
  cases newest : s.scrollback.getLast? with
  | some row =>
    have same : s.scrollback.dropLast ++ row :: s.grid = s.text := by
      unfold text
      rw [List.append_cons, List.dropLast_append_getLast? row newest]
    exact ⟨congrArg stripRows same, Nat.le_of_eq (congrArg List.length same).symm, rfl⟩
  | none =>
    unfold text stripRows
    dsimp only
    rw [← List.append_assoc, ← List.replicate_one, rdropWhile_append _ (skippable_blank 1 cols)]
    exact ⟨rfl, (List.sublist_append_left _ _).length_le, rfl⟩

/-- What a resize leaves of a screen's text. -/
theorem resize_text (h : s.Sized rows cols) {newRows newCols : Nat} (newCols_lt : newCols < 2 ^ 16)
    (pos : 0 < newCols) {cursor : Nat × Nat} (onScreen : cursor.1 < rows) :
    Yields (s.resize newRows newCols cursor true) fun state => ∃ full n d,
      Rewrapped s newCols (s.scrollback.length + cursor.1) full n ∧
        logicalText state.1.text = logicalText ((full.take n).drop d) ∧
        (0 < d → state.1.maxScrollback < state.1.text.length) := by
  unfold resize
  dsimp only
  rw [Nat.max_eq_left pos]
  refine ((resizeCols_yields h pos newCols_lt).and (resizeCols_text h pos onScreen)).bind ?_
  rintro state ⟨sized, full, n, d, rewrapped, rest⟩
  -- the shrinking loop drops the oldest rows past the cap, the growing loop none
  refine (Yields.forRange_index (I := fun k state' => state'.1.Loose rows newCols ∧
    state'.1.grid.length = state.1.grid.length - k ∧
      ∃ e, Rest s.maxScrollback (full.take n) state'.1 e) (Nat.zero_le _)
    ⟨sized.loose, rfl, d, rest⟩ ?_).bind ?_
  · rintro k ⟨s', cursor'⟩ _ more ⟨loose, height, e, rest'⟩
    have within := loose.cap
    rw [rest'.maxScrollback] at within
    refine (Guarded.and_yields (shrinkPass_yields loose (by omega))
      (shrinkPass_text rest' within)).mono ?_
    rintro state'' ⟨⟨loose', height'⟩, rest''⟩
    exact ⟨loose', by omega, rest''⟩
  rintro state₁ ⟨loose₁, height₁, e, rest₁⟩
  have dropped : 0 < e → s.maxScrollback < state₁.1.text.length := by
    intro past
    have full := rest₁.full past
    have height := sized.height
    have rows_pos := h.rows_pos
    unfold text
    rw [List.length_append]
    omega
  refine (Yields.forRange (I := fun state' => stripRows state'.1.text = stripRows state₁.1.text ∧
    state₁.1.text.length ≤ state'.1.text.length ∧
      state'.1.maxScrollback = state₁.1.maxScrollback) ⟨rfl, Nat.le_refl _, rfl⟩ ?_).bind ?_
  · rintro k ⟨s', cursor'⟩ _ _ ⟨same, longer, cap⟩
    obtain ⟨same', longer', cap'⟩ := growPass_text s' newCols cursor'
    exact .pure ⟨same'.trans same, Nat.le_trans longer longer', cap'.trans cap⟩
  rintro ⟨s', cursor'⟩ ⟨same, longer, cap⟩
  refine (Yields.sub (by omega)).bind ?_
  rintro edge rfl
  refine .pure ⟨full, n, e, rewrapped, logicalText_of_kept (same.trans rest₁.kept), fun past => ?_⟩
  dsimp only at cap ⊢
  rw [cap, rest₁.maxScrollback]
  exact Nat.lt_of_lt_of_le (dropped past) longer

end Screen

/-! ### The terminal -/

namespace Terminal

/-- The primary screen with what has scrolled off it. -/
def history (t : Terminal) : List Row :=
  t.primary.text

/-- The row of the history whose line a resize keeps in view: the cursor's, or the first
row of the primary grid while the alternate screen is active. -/
def historyRow (t : Terminal) : Nat :=
  t.primary.scrollback.length + if t.altActive then 0 else t.cursor.row

/-- What a resize to `cols` columns keeps. `full` is the history at the new width; its
rows from row `n` on are cut, and its first `d` rows are dropped. -/
structure Resized (t t' : Terminal) (cols : Nat) (full : List Row) (n d : Nat) : Prop where
  rewrapped : t.primary.Rewrapped cols t.historyRow full n
  kept : logicalText t'.history = logicalText ((full.take n).drop d)
  dropped : 0 < d → t'.primary.maxScrollback < t'.history.length

/-- A text without wide characters. -/
def Narrow (text : List (List Cell)) : Prop :=
  ∀ line ∈ text, ∀ c ∈ line, c.width = 1

theorem fittedText_narrow {width : Nat} (pos : 0 < width) {rows : List Row}
    (narrow : Narrow (logicalText rows)) :
    fittedText width (logicalText rows) = logicalText rows := by
  have same : (logicalText rows).map (fittedLine width) = logicalText rows := by
    refine (List.map_congr_left fun line mem => ?_).trans (List.map_id _)
    rw [fittedLine_narrow pos (narrow line mem)]
    obtain ⟨rows', _, rfl⟩ := List.mem_map.mp ((List.rdropWhile_prefix ..).subset mem)
    exact List.rdropWhile_idempotent ..
  unfold fittedText
  rw [same]
  exact List.rdropWhile_idempotent ..

variable {t t' : Terminal} {rows cols : Nat}

theorem resize_text {K : Parser → GraphicsState → Prop} (h : t.Sound K rows cols)
    {newRows newCols : Nat} (rows_pos : 0 < newRows) (cols_pos : 0 < newCols)
    (newRows_lt : newRows < 2 ^ 16) (newCols_lt : newCols < 2 ^ 16) :
    Yields (t.resize newRows newCols) fun t' => t'.Sound K newRows newCols ∧
      ∃ full n d, t.Resized t' newCols full n d := by
  have sound := resize_yields h newRows_lt newCols_lt
  rw [Nat.max_eq_left rows_pos, Nat.max_eq_left cols_pos] at sound
  refine sound.and ?_
  unfold resize
  dsimp only
  rw [Nat.max_eq_left rows_pos, Nat.max_eq_left cols_pos]
  split
  · rename_i same
    refine .ok ⟨t.history, t.history.length, 0, ⟨?_, ?_, ?_⟩, ?_, nofun⟩
    · have cols_eq : t.cols = cols := h.cols_eq
      rw [same.2, cols_eq]
      exact h.primary.scrollback.append h.primary.grid
    · exact (if_pos same.2).symm
    · exact fun cut => absurd cut (Nat.lt_irrefl _)
    · rw [List.take_length]
      rfl
  · have cursor_row : (if t.altActive then (0, 0) else (t.cursor.row, t.cursor.col)).1 =
        if t.altActive then 0 else t.cursor.row := apply_ite Prod.fst ..
    have onScreen : (if t.altActive then (0, 0) else (t.cursor.row, t.cursor.col)).1 < rows := by
      rw [cursor_row]
      split
      · exact h.primary.rows_pos
      · exact h.cursor_row
    refine (Screen.resize_text h.primary newCols_lt cols_pos onScreen).bind ?_
    rintro ⟨primary, primaryCur⟩ ⟨full, n, d, rewrapped, kept, dropped⟩
    rw [cursor_row] at rewrapped
    refine (Screen.resize_yields h.alt newRows_lt newCols_lt).bind ?_
    rintro ⟨alt, altCur⟩ _
    refine (Yields.sub rows_pos).bind ?_
    rintro lastRow rfl
    refine (Yields.sub cols_pos).bind ?_
    rintro lastCol rfl
    exact .pure ⟨full, n, d, rewrapped, kept, dropped⟩

/-- Where nothing is wide and nothing is cut or dropped, the lines stay what they are. -/
theorem Resized.lines {full : List Row} {n d : Nat} (h : t.Resized t' cols full n d)
    (cols_pos : 0 < cols) (narrow : Narrow (logicalText t.history)) (uncut : full.length ≤ n)
    (undropped : d = 0) : logicalText t'.history = logicalText t.history := by
  have fitted := fittedText_narrow cols_pos narrow
  rw [h.kept, undropped, List.drop_zero, List.take_of_length_le uncut, h.rewrapped.text]
  split
  · rfl
  · exact fitted

/-- The characters of a text. -/
def chars (text : List (List Cell)) : List (List Char) :=
  text.map (·.map (·.ch))

end Terminal

end Posh.Term
