import Posh.Term.Drawing

/-!
Rows drawn in flow order.

A row that is not wrapped ends in a new line. A wrapped one is written to its end, and the
first character of the next makes the terminal wrap.
-/

namespace Posh.Term

open Posh.Lib

namespace Terminal

variable {files : Files} {base t u : Terminal} {p p' : Page} {pen pen' : Pen} {st : EmitState}
  {rows cols : Nat}

/-! ### Marks -/

variable (files) in
/-- The mark of the current row. -/
theorem inks_emitMark (canvas : Canvas rows cols base) (fits : p.Fits rows cols)
    (mark : Option SemanticMark) (pen : Pen) :
    ∃ m, Inks files base (emitMark mark) p pen { p with mark := m } pen := by
  cases mark with
  | none => exact ⟨p.mark, .nil p pen⟩
  | some mark =>
    refine ⟨some mark, ?_⟩
    have marked {t : Terminal} (drawn : Drawn base p pen t) :
        Yields (t.modifyScr (·.modifyRow t.cursor.row fun r => return { r with mark := some mark }) >>=
          fun t => return t.touch) (Drawn base { p with mark := some mark } pen) := by
      have row : t.cursor.row = p.index rows := canvas.sound.rows_eq ▸ drawn.row
      have changed : (p.screen base.scr).modifyRow (p.index rows)
          (fun r => return { r with mark := some mark }) =
            .ok (Page.screen base.scr { p with mark := some mark }) :=
        fits.modifyRow canvas.sound.scr rfl rfl rfl
      rw [← row] at changed
      refine (drawn.toInked.modifyScr (f := (·.modifyRow t.cursor.row
        fun r => return { r with mark := some mark })) changed rfl).bind ?_
      rintro t' ⟨inked, cursor⟩
      refine .pure ⟨inked.touch, ?_, ?_⟩
      · exact (congrArg (·.col) cursor).trans drawn.col
      · exact (congrArg (·.pendingWrap) cursor).trans drawn.pending
    have written (kind : Char) (graphic : ∀ c ∈ "133".toList ++ ';' :: [kind], Term.Graphic c)
        (few : utf8Length ("133".toList ++ ';' :: [kind]) ≤ MAX_OSC)
        (named : promptMark [kind] = some mark) :
        Inks files base ("\x1b]".toList ++ ("133".toList ++ ';' :: [kind]) ++ "\x1b\\".toList) p pen
          { p with mark := some mark } pen := by
      intro t drawn
      obtain ⟨t', eq, drawn'⟩ := marked drawn
      refine ⟨t', draws_osc graphic few ?_, drawn'⟩
      rw [oscDispatch_code (by decide) rfl]
      change t.oscPromptMark [kind] = _
      unfold oscPromptMark
      rw [named]
      exact eq
    cases mark with
    | promptStart => exact written 'A' (forall_of_all rfl) (by decide) rfl
    | inputStart => exact written 'B' (forall_of_all rfl) (by decide) rfl
    | outputStart => exact written 'C' (forall_of_all rfl) (by decide) rfl
    | commandEnd => exact written 'D' (forall_of_all rfl) (by decide) rfl

/-! ### The characters of a row -/

theorem emitCells_glyphs (cells : List Cell) (st : EmitState) :
    u.emitCells cells st = u.emitCells (glyphs cells) st := by
  induction cells generalizing st with
  | nil => rfl
  | cons c rest ih =>
    by_cases spacer : c.width = 0
    · have skipped : glyphs (c :: rest) = glyphs rest :=
        List.filter_cons_of_neg (by rw [decide_eq_true_eq]; exact not_not.mpr spacer)
      have nothing : u.emitCell c st = ([], st) := if_pos spacer
      rw [skipped, emitCells, nothing]
      exact ih st
    · have kept : glyphs (c :: rest) = c :: glyphs rest :=
        List.filter_cons_of_pos (decide_eq_true spacer)
      rw [kept, emitCells, emitCells]
      dsimp only
      rw [ih]

/-- Characters that fit into the current row. -/
theorem inks_emitCells (canvas : Canvas rows cols base) (catalogued : u.Catalogued)
    (graphic : u.Graphic) {cs : List Cell} (drawable : ∀ c ∈ cs, Drawable u c)
    (follows : pen.Follows u.hyperlinks st) (fits : p.Fits rows cols)
    (room : p.here.length + (spread cs).length ≤ cols) :
    ∃ pen' copies, Inks files base (u.emitCells cs st).1 p pen (p.write (p.here ++ copies)) pen' ∧
      pen'.Follows u.hyperlinks (u.emitCells cs st).2 ∧ pen.Grows pen' ∧
      Resembles u pen' (spread cs) copies := by
  induction cs generalizing p pen st with
  | nil =>
    refine ⟨pen, [], ?_, follows, .refl pen, .nil⟩
    rw [List.append_nil]
    exact .nil p pen
  | cons c rest ih =>
    have first := drawable c List.mem_cons_self
    have length : c.spread.length = c.width := Page.length_spread rfl first.visible
    have visible := first.visible
    rw [spread_cons, List.length_append, length] at room
    have same : p.wrap cols (backdrop c) = p := if_neg (by omega)
    obtain ⟨pen₁, copies, inks, follows₁, grows, resembles⟩ :
        ∃ pen' copies, Inks files base (u.emitCell c st).1 p pen
            ((p.wrap cols (backdrop c)).write ((p.wrap cols (backdrop c)).here ++ copies)) pen' ∧
          pen'.Follows u.hyperlinks (u.emitCell c st).2 ∧ pen.Grows pen' ∧
          Resembles u pen' c.spread copies :=
      inks_emitCell canvas catalogued graphic follows fits first (by rw [same]; omega)
    rw [same] at inks
    have long : (p.here ++ copies).length = p.here.length + c.width := by
      rw [List.length_append, resembles.length, length]
    obtain ⟨pen₂, more, inks', follows₂, grows', resembles'⟩ :=
      ih (p := p.write (p.here ++ copies)) (fun x mem => drawable x (List.mem_cons_of_mem _ mem))
        follows₁ (fits.write (by omega)) (by change (p.here ++ copies).length + _ ≤ _; omega)
    refine ⟨pen₂, copies ++ more, ?_, follows₂, grows.trans grows', ?_⟩
    · rw [← List.append_assoc]
      exact inks.append inks'
    · rw [spread_cons]
      exact (resembles.grow grows').append resembles'

variable (files) in
/-- The characters of a row, from its start or after a full row. -/
theorem inks_line (canvas : Canvas rows cols base) (catalogued : u.Catalogued) (graphic : u.Graphic)
    {c : Cell} {cs : List Cell} (drawable : ∀ x ∈ c :: cs, Drawable u x)
    (follows : pen.Follows u.hyperlinks st) (fits : p.Fits rows cols)
    (start : p.here = [] ∨ p.here.length = cols) (room : (spread (c :: cs)).length ≤ cols) :
    ∃ pen' copies, Inks files base (u.emitCells (c :: cs) st).1 p pen
        ((p.wrap cols (backdrop c)).write copies) pen' ∧
      pen'.Follows u.hyperlinks (u.emitCells (c :: cs) st).2 ∧ pen.Grows pen' ∧
      Resembles u pen' (spread (c :: cs)) copies := by
  have first := drawable c List.mem_cons_self
  have length : c.spread.length = c.width := Page.length_spread rfl first.visible
  rw [spread_cons, List.length_append, length] at room
  have empty : (p.wrap cols (backdrop c)).here = [] := by
    unfold Page.wrap
    split
    · exact Page.here_next cols _ _
    · rename_i short
      exact start.resolve_right short
  obtain ⟨pen₁, copies, inks, follows₁, grows, resembles⟩ :
      ∃ pen' copies, Inks files base (u.emitCell c st).1 p pen
          ((p.wrap cols (backdrop c)).write ((p.wrap cols (backdrop c)).here ++ copies)) pen' ∧
        pen'.Follows u.hyperlinks (u.emitCell c st).2 ∧ pen.Grows pen' ∧
        Resembles u pen' c.spread copies :=
    inks_emitCell canvas catalogued graphic follows fits first
      (by rw [empty, List.length_nil]; omega)
  rw [empty, List.nil_append] at inks
  have long : copies.length = c.width := by rw [resembles.length, length]
  obtain ⟨pen₂, more, inks', follows₂, grows', resembles'⟩ :
      ∃ pen' more, Inks files base (u.emitCells cs (u.emitCell c st).2).1
          ((p.wrap cols (backdrop c)).write copies) pen₁
          ((p.wrap cols (backdrop c)).write (copies ++ more)) pen' ∧
        pen'.Follows u.hyperlinks (u.emitCells cs (u.emitCell c st).2).2 ∧ pen₁.Grows pen' ∧
        Resembles u pen' (spread cs) more :=
    inks_emitCells canvas catalogued graphic (fun x mem => drawable x (List.mem_cons_of_mem _ mem))
      follows₁ ((fits.wrap (backdrop c)).write (by omega))
      (by change copies.length + _ ≤ _; omega)
  refine ⟨pen₂, copies ++ more, inks.append inks', follows₂, grows.trans grows', ?_⟩
  rw [spread_cons]
  exact (resembles.grow grows').append resembles'

/-! ### One row -/

/-- A row that the replay of `u` can write. -/
structure Writable (u : Terminal) (cols : Nat) (r : Row) : Prop where
  length : r.cells.length = cols
  printed : Screen.Cells Cell.Printed r.cells
  tidy : Tidy r.cells
  drawable : ∀ c ∈ r.drawn, Drawable u c

/-- Rows that look like those of the terminal the dump is of. -/
structure Copied (u : Terminal) (pen : Pen) (done copies : List Row) : Prop where
  looks : copies.map (Row.look pen.links) = done.map (Row.look u.hyperlinks)
  known : ∀ r ∈ copies, ∀ c ∈ r.cells, c.hyperlink ≤ pen.next

namespace Copied

variable {done copies : List Row}

theorem length (h : Copied u pen done copies) : copies.length = done.length := by
  have same := congrArg List.length h.looks
  rwa [List.length_map, List.length_map] at same

theorem grow (h : Copied u pen done copies) (grows : pen.Grows pen') : Copied u pen' done copies where
  looks := by
    rw [← h.looks]
    refine List.map_congr_left fun r mem => ?_
    unfold Row.look
    refine congrArg (·, r.wrapped) (List.map_congr_left fun c inside => ?_)
    unfold Cell.look
    rw [grows.kept _ (h.known r mem c inside)]
  known r mem c inside := (h.known r mem c inside).trans grows.next

/-- One more row. -/
theorem snoc (h : Copied u pen done copies) {r copy : Row}
    (look : copy.look pen.links = r.look u.hyperlinks)
    (known : ∀ c ∈ copy.cells, c.hyperlink ≤ pen.next) : Copied u pen (done ++ [r]) (copies ++ [copy]) where
  looks := by
    rw [List.map_append, List.map_append, h.looks, List.map_singleton, List.map_singleton, look]
  known := by
    intro x mem
    rcases List.mem_append.mp mem with earlier | last
    · exact h.known x earlier
    · rw [List.mem_singleton.mp last]
      exact known

theorem drop (h : Copied u pen done copies) (n : Nat) : Copied u pen (done.drop n) (copies.drop n) where
  looks := by rw [List.map_drop, List.map_drop, h.looks]
  known r mem := h.known r (List.mem_of_mem_drop mem)

theorem take (h : Copied u pen done copies) (n : Nat) : Copied u pen (done.take n) (copies.take n) where
  looks := by rw [List.map_take, List.map_take, h.looks]
  known r mem := h.known r (List.mem_of_mem_take mem)

end Copied

/-- The rows `done` are drawn and the next one begins: in a row of its own, or at the end of
a full one that it will wrap. -/
inductive Begins (u : Terminal) (cols : Nat) (done : List Row) (p : Page) (pen : Pen) : Prop
  | fresh (here : p.here = []) (fill : p.fill = {}) (flag : p.wrapped = false)
      (above : Copied u pen done p.above)
  | joined (full : p.here.length = cols)
      (above : Copied u pen done (p.above ++ [{ p.row cols with wrapped := true }]))

/-- The characters of `r` are written in the current row. -/
structure Ends (u : Terminal) (cols : Nat) (done : List Row) (r : Row) (p : Page) (pen : Pen) : Prop where
  drawn : Copied u pen (done ++ [r]) (p.above ++ [{ p.row cols with wrapped := r.wrapped }])
  flag : p.wrapped = false
  full : r.wrapped = true → p.here.length = cols

/-- The rows below are those that no drawn row has come to. -/
def Level (rows : Nat) (p : Page) : Prop :=
  p.below.length = rows - 1 - p.above.length

theorem level_next (level : Level rows p) (style : Style) : Level rows (p.next cols style) := by
  unfold Level at *
  unfold Page.next
  split
  · rename_i below
    rw [below, List.length_cons] at level
    dsimp only
    rw [List.length_append, List.length_singleton]
    omega
  · rename_i below
    rw [below, List.length_nil] at level
    dsimp only
    rw [List.length_append, List.length_singleton, List.length_nil]
    omega

theorem level_wrap (level : Level rows p) (style : Style) : Level rows (p.wrap cols style) := by
  unfold Page.wrap
  split
  · exact level_next (p := { p with wrapped := true }) level style
  · exact level

/-- A row that begins with `first`, drawn after `k` others, looks as it should if a wrap has
led to it. -/
def Joins (rows cols k : Nat) (r : Row) : Prop :=
  ∃ first ∈ r.drawn.head?, k < rows ∨ backdrop first = {} ∨ (spread r.drawn).length = cols

theorem length_drawn {r : Row} (writable : Writable u cols r) : (spread r.drawn).length ≤ cols := by
  have looks : r.cells.map (Cell.look []) = _ := Row.look_drawn rfl writable.printed writable.tidy
  have length := congrArg List.length looks
  rw [List.length_append, List.length_map, List.length_map, List.length_replicate,
    writable.length] at length
  omega

theorem length_wrapped {r : Row} (writable : Writable u cols r) (goes : r.wrapped = true) :
    (spread r.drawn).length = cols := by
  rw [Row.drawn_wrapped goes, ← writable.tidy, writable.length]

/-- What a row of copies looks like. -/
theorem look_row {r : Row} (writable : Writable u cols r) (catalogued : u.Catalogued)
    (catalogue : Catalogue pen.links pen.next)
    (resembles : Resembles u pen (spread r.drawn) p.here)
    (fill : p.fill = {} ∨ (spread r.drawn).length = cols) :
    (p.row cols).cells.map (Cell.look pen.links) = r.cells.map (Cell.look u.hyperlinks) ∧
      ∀ c ∈ (p.row cols).cells, c.hyperlink ≤ pen.next := by
  have blank : Cell.look pen.links (Cell.blank p.fill) = Look.blank p.fill := by
    unfold Cell.look Cell.blank Look.blank
    rw [catalogue.lookup_zero]
    rfl
  have rest : List.replicate (cols - (spread r.drawn).length) (Look.blank p.fill) =
      List.replicate (cols - (spread r.drawn).length) (Look.blank {}) := by
    rcases fill with plain | full
    · rw [plain]
    · rw [full, Nat.sub_self]
      rfl
  unfold Page.row
  dsimp only
  constructor
  · rw [Row.look_drawn catalogued.lookup_zero writable.printed writable.tidy, List.map_append,
      resembles.looks, List.map_replicate, blank, resembles.length, writable.length, rest]
  · intro c mem
    rcases List.mem_append.mp mem with copy | filler
    · exact resembles.known c copy
    · rw [List.eq_of_mem_replicate filler]
      exact Nat.zero_le _

/-- The mark of the current row is not seen. -/
theorem Begins.mark {done : List Row} (begins : Begins u cols done p pen) (m : Option SemanticMark) :
    Begins u cols done { p with mark := m } pen := by
  cases begins with
  | fresh here fill flag above => exact .fresh here fill flag above
  | joined full above =>
    refine .joined full ⟨?_, ?_⟩
    · have looks := above.looks
      rw [List.map_append] at looks ⊢
      exact looks
    · intro r mem
      rcases List.mem_append.mp mem with earlier | last
      · exact above.known r (List.mem_append_left _ earlier)
      · rw [List.mem_singleton.mp last]
        exact above.known { p.row cols with wrapped := true }
          (List.mem_append_right _ (List.mem_singleton.mpr rfl))

/-- A row begins with the current row empty, or with a wrap. -/
theorem Begins.start {done : List Row} (begins : Begins u cols done p pen) :
    p.here = [] ∨ p.here.length = cols := by
  cases begins with
  | fresh here => exact .inl here
  | joined full => exact .inr full

/-- Before its first character, which may wrap. -/
theorem Begins.wrap {done : List Row} (begins : Begins u cols done p pen) (pos : 0 < cols)
    (level : Level rows p) (r : Row) {c : Cell} (first : r.drawn.head? = some c)
    (joins : p.here.length = cols → Joins rows cols done.length r) :
    Copied u pen done (p.wrap cols (backdrop c)).above ∧ (p.wrap cols (backdrop c)).wrapped = false ∧
      ((p.wrap cols (backdrop c)).fill = {} ∨ (spread r.drawn).length = cols) := by
  cases begins with
  | fresh here fill flag above =>
    have same : p.wrap cols (backdrop c) = p := if_neg (by rw [here, List.length_nil]; omega)
    rw [same]
    exact ⟨above, flag, .inl fill⟩
  | joined full above =>
    obtain ⟨c', mem, plain⟩ := joins full
    rw [first] at mem
    cases mem
    have count := above.length
    rw [List.length_append, List.length_singleton] at count
    have wrapped : p.wrap cols (backdrop c) =
        Page.next cols (backdrop c) { p with wrapped := true } := if_pos full
    unfold Level at level
    rw [wrapped]
    unfold Page.next
    split
    · exact ⟨above, rfl, .inl rfl⟩
    · rename_i below
      have none : p.below = [] := below
      rw [none, List.length_nil] at level
      refine ⟨above, rfl, ?_⟩
      rcases plain with inside | plain | whole
      · omega
      · exact .inl plain
      · exact .inr whole

/-- The row after its characters. -/
theorem ends_row {r : Row} (writable : Writable u cols r) (catalogued : u.Catalogued)
    (catalogue : Catalogue pen.links pen.next) {done : List Row} (above : Copied u pen done p.above)
    (flag : p.wrapped = false) (resembles : Resembles u pen (spread r.drawn) p.here)
    (fill : p.fill = {} ∨ (spread r.drawn).length = cols) : Ends u cols done r p pen := by
  obtain ⟨looks, known⟩ := look_row writable catalogued catalogue resembles fill
  refine ⟨above.snoc ?_ known, flag, ?_⟩
  · exact congrArg (·, r.wrapped) looks
  · intro goes
    rw [resembles.length]
    exact length_wrapped writable goes

/-- Before the row `r` is written, after the rows `done`. -/
structure Before (u : Terminal) (rows cols : Nat) (done : List Row) (r : Row) (st : EmitState)
    (p : Page) (pen : Pen) : Prop where
  follows : pen.Follows u.hyperlinks st
  fits : p.Fits rows cols
  level : Level rows p
  begins : Begins u cols done p pen
  joins : p.here.length = cols → Joins rows cols done.length r

structure After (u : Terminal) (rows cols : Nat) (done : List Row) (r : Row) (st : EmitState)
    (p : Page) (pen : Pen) : Prop where
  follows : pen.Follows u.hyperlinks st
  fits : p.Fits rows cols
  level : Level rows p
  ends : Ends u cols done r p pen

variable {done : List Row} {r : Row}

variable (files) in
theorem inks_emitRow (canvas : Canvas rows cols base) (catalogued : u.Catalogued)
    (graphic : u.Graphic) (writable : Writable u cols r) (before : Before u rows cols done r st p pen) :
    ∃ p' pen', Inks files base (u.emitRow r st).1 p pen p' pen' ∧
      After u rows cols done r (u.emitRow r st).2 p' pen' := by
  have pos := canvas.sound.cols_pos
  obtain ⟨m, marked⟩ := inks_emitMark files canvas before.fits r.mark pen
  have begins := before.begins.mark m
  have fits : ({ p with mark := m } : Page).Fits rows cols := { before.fits with }
  have emitted : u.emitRow r st =
      (emitMark r.mark ++ (u.emitCells r.drawn st).1, (u.emitCells r.drawn st).2) := by
    unfold emitRow Row.drawn
    rw [emitCells_glyphs]
  rw [emitted]
  cases drawn : r.drawn with
  | nil =>
    have nothing : spread r.drawn = [] := by
      rw [drawn]
      rfl
    refine ⟨_, pen, marked.append (.nil _ pen), before.follows, fits, before.level, ?_⟩
    cases begins with
    | fresh here fill flag above =>
      have resembles : Resembles u pen (spread r.drawn) p.here := by
        rw [nothing, show p.here = [] from here]
        exact .nil
      exact ends_row writable catalogued before.follows.catalogue above flag resembles (.inl fill)
    | joined full =>
      obtain ⟨c, mem, -⟩ := before.joins full
      rw [drawn] at mem
      cases mem
  | cons c cs =>
    have all := writable.drawable
    have room := length_drawn writable
    rw [drawn] at all room
    obtain ⟨pen', copies, inks, follows, grows, resembles⟩ :=
      inks_line files canvas catalogued graphic all before.follows fits begins.start room
    have first : r.drawn.head? = some c := by
      rw [drawn]
      rfl
    have level : Level rows ({ p with mark := m } : Page) := before.level
    obtain ⟨above, flag, fill⟩ := begins.wrap pos level r first before.joins
    have short : copies.length ≤ cols := by
      rw [resembles.length]
      exact room
    rw [← drawn] at resembles
    refine ⟨_, pen', marked.append inks, follows, (fits.wrap _).write short,
      level_wrap level _, ?_⟩
    exact ends_row writable catalogued follows.catalogue (above.grow grows) flag resembles fill

/-! ### From one row to the next -/

/-- A wrapped row stays where it is: the next one wraps. -/
theorem After.goes (after : After u rows cols done r st p pen) (goes : r.wrapped = true) {next : Row}
    (joins : Joins rows cols (done.length + 1) next) : Before u rows cols (done ++ [r]) next st p pen where
  follows := after.follows
  fits := after.fits
  level := after.level
  begins := by
    have drawn := after.ends.drawn
    rw [goes] at drawn
    exact .joined (after.ends.full goes) drawn
  joins _ := by
    rw [List.length_append]
    exact joins

/-- The rows drawn, with a row that is not wrapped as the last. -/
theorem After.rows_drawn (after : After u rows cols done r st p pen) (ends : r.wrapped = false) :
    Copied u pen (done ++ [r]) (p.above ++ [p.row cols]) := by
  have drawn := after.ends.drawn
  have same : { p.row cols with wrapped := r.wrapped } = p.row cols := by
    rw [ends, ← after.ends.flag]
    rfl
  rwa [same] at drawn

/-- A new line. -/
theorem After.newline (after : After u rows cols done r st p pen) (pos : 0 < cols)
    (ends : r.wrapped = false) (plain : p.below ≠ [] ∨ pen.blank = {}) (next : Row) :
    Before u rows cols (done ++ [r]) next st (p.next cols pen.blank) pen where
  follows := after.follows
  fits := after.fits.next _
  level := level_next after.level _
  begins := by
    have drawn := after.rows_drawn ends
    have above : (p.next cols pen.blank).above = p.above ++ [p.row cols] := by
      unfold Page.next
      split <;> rfl
    have flag : (p.next cols pen.blank).wrapped = false := by
      unfold Page.next
      split <;> rfl
    have fill : (p.next cols pen.blank).fill = {} := by
      unfold Page.next
      split
      · rfl
      · rename_i none
        exact plain.resolve_left (not_not.mpr none)
    exact .fresh (Page.here_next ..) fill flag (above ▸ drawn)
  joins full := by
    rw [Page.here_next, List.length_nil] at full
    omega

theorem inks_newline (canvas : Canvas rows cols base) (fits : p.Fits rows cols) :
    Inks files base "\r\n".toList p pen (p.next cols pen.blank) pen := by
  intro t drawn
  obtain ⟨t', eq, drawn'⟩ := drawn.newline canvas fits files
  exact ⟨t', .literal rfl ⟨rfl, rfl⟩ eq, drawn'⟩

/-! ### All rows -/

/-- Each wrapped row goes on in the next. -/
def Flows (rows cols : Nat) (all : List Row) : Prop :=
  ∀ i, ∀ r ∈ all[i]?, r.wrapped = true → ∃ next ∈ all[i + 1]?, Joins rows cols (i + 1) next

/-- Rows in flow order, with `ending` after each that is not wrapped but for the last. -/
def emitRows (ending : EmitState → Emit) : List Row → EmitState → Terminal → Emit
  | [], st, _ => ([], st)
  | row :: rest, st, t =>
      let (here, st) := t.emitRow row st
      let (gap, st) := if row.wrapped || rest.isEmpty then ([], st) else ending st
      let (below, st) := emitRows ending rest st t
      (here ++ gap ++ below, st)

theorem emitRows_last (ending : EmitState → Emit) (r : Row) (st : EmitState) :
    u.emitRows ending [r] st = u.emitRow r st := by
  rw [emitRows]
  dsimp only [emitRows]
  have last : (r.wrapped || ([] : List Row).isEmpty) = true := Bool.or_true _
  rw [if_pos last, List.append_nil, List.append_nil]

theorem emitRows_goes (ending : EmitState → Emit) (goes : r.wrapped = true) (rest : List Row)
    (st : EmitState) :
    u.emitRows ending (r :: rest) st =
      ((u.emitRow r st).1 ++ (u.emitRows ending rest (u.emitRow r st).2).1,
        (u.emitRows ending rest (u.emitRow r st).2).2) := by
  rw [emitRows]
  dsimp only
  rw [if_pos (by rw [goes, Bool.true_or]), List.append_nil]

theorem emitRows_ends (ending : EmitState → Emit) (ends : r.wrapped = false) (next : Row)
    (rest : List Row) (st : EmitState) :
    u.emitRows ending (r :: next :: rest) st =
      ((u.emitRow r st).1 ++ (ending (u.emitRow r st).2).1 ++
          (u.emitRows ending (next :: rest) (ending (u.emitRow r st).2).2).1,
        (u.emitRows ending (next :: rest) (ending (u.emitRow r st).2).2).2) := by
  rw [emitRows]
  dsimp only
  rw [if_neg (by rw [ends]; exact Bool.false_ne_true)]

theorem drawRows_eq (all : List Row) (st : EmitState) :
    u.drawRows all st = u.emitRows (fun st => ("\r\n".toList, st)) all st := by
  induction all generalizing st with
  | nil => rfl
  | cons r rest ih =>
    rw [drawRows, emitRows]
    dsimp only
    rw [ih]
    split
    · rfl
    · rfl

theorem replayRows_eq (all : List Row) (st : EmitState) :
    u.replayRows all st =
      u.emitRows (fun st => ((resetPen st).1 ++ "\r\n".toList, (resetPen st).2)) all st := by
  induction all generalizing st with
  | nil => rfl
  | cons r rest ih =>
    rw [replayRows, emitRows, replayRow]
    dsimp only
    rw [ih]
    cases r.wrapped <;> cases rest.isEmpty <;> simp

/-- What may end a row: it leads to the start of the next. -/
def LeadsOn (files : Files) (base u : Terminal) (rows cols count : Nat) (ending : EmitState → Emit) : Prop :=
  ∀ done r st p pen, After u rows cols done r st p pen → r.wrapped = false →
    done.length + 1 < count → ∀ next, ∃ p' pen',
      Inks files base (ending st).1 p pen p' pen' ∧
        Before u rows cols (done ++ [r]) next (ending st).2 p' pen'

/-- The rows one after the other. -/
theorem inks_emitRows (canvas : Canvas rows cols base) (catalogued : u.Catalogued)
    (graphic : u.Graphic) {all : List Row} (writable : ∀ r ∈ all, Writable u cols r)
    (flows : Flows rows cols all) {ending : EmitState → Emit}
    (leads : LeadsOn files base u rows cols all.length ending) {rest : List Row}
    (split : all = done ++ r :: rest) (before : Before u rows cols done r st p pen) :
    ∃ p' pen', Inks files base (u.emitRows ending (r :: rest) st).1 p pen p' pen' ∧
      pen'.Follows u.hyperlinks (u.emitRows ending (r :: rest) st).2 ∧ p'.Fits rows cols ∧
      Level rows p' ∧ Copied u pen' all (p'.above ++ [p'.row cols]) := by
  induction rest generalizing done r st p pen with
  | nil =>
    have mem : r ∈ all := by
      rw [split]
      exact List.mem_append_right _ List.mem_cons_self
    obtain ⟨p', pen', inks, after⟩ :=
      inks_emitRow files canvas catalogued graphic (writable r mem) before
    have ends : r.wrapped = false := by
      by_contra goes
      have here : r ∈ all[done.length]? := by
        rw [split, List.getElem?_append_right (Nat.le_refl _), Nat.sub_self]
        rfl
      obtain ⟨next, none, -⟩ := flows _ r here (Bool.eq_true_of_not_eq_false goes)
      rw [split, List.getElem?_eq_none (by rw [List.length_append, List.length_singleton])] at none
      cases none
    rw [emitRows_last]
    refine ⟨p', pen', inks, after.follows, after.fits, after.level, ?_⟩
    rw [split]
    exact after.rows_drawn ends
  | cons next rest ih =>
    have mem : r ∈ all := by
      rw [split]
      exact List.mem_append_right _ List.mem_cons_self
    obtain ⟨p₁, pen₁, inks, after⟩ :=
      inks_emitRow files canvas catalogued graphic (writable r mem) before
    have split' : all = (done ++ [r]) ++ next :: rest := by
      rw [split, List.append_assoc]
      rfl
    by_cases goes : r.wrapped = true
    · have here : r ∈ all[done.length]? := by
        rw [split, List.getElem?_append_right (Nat.le_refl _), Nat.sub_self]
        rfl
      obtain ⟨next', found, joins⟩ := flows _ r here goes
      rw [split, List.getElem?_append_right (show done.length ≤ done.length + 1 from Nat.le_succ _),
        Nat.add_sub_cancel_left] at found
      cases found
      obtain ⟨p', pen', inks', result⟩ := ih split' (after.goes goes joins)
      rw [emitRows_goes ending goes]
      exact ⟨p', pen', inks.append inks', result⟩
    · have ends := Bool.eq_false_iff.mpr goes
      have more : done.length + 1 < all.length := by
        rw [split, List.length_append, List.length_cons, List.length_cons]
        omega
      obtain ⟨p₂, pen₂, inks₂, before₂⟩ := leads done r _ p₁ pen₁ after ends more next
      obtain ⟨p', pen', inks', result⟩ := ih split' before₂
      rw [emitRows_ends ending ends]
      exact ⟨p', pen', (inks.append inks₂).append inks', result⟩

/-- In a grid the new line finds a row below. -/
theorem leadsOn_newline (canvas : Canvas rows cols base) {count : Nat} (few : count ≤ rows) :
    LeadsOn files base u rows cols count fun st => ("\r\n".toList, st) := by
  intro done r st p pen after ends more next
  have drawn := (after.rows_drawn ends).length
  have level := after.level
  have inside : p.below ≠ [] := by
    intro none
    unfold Level at level
    rw [none, List.length_nil] at level
    rw [List.length_append, List.length_append, List.length_singleton, List.length_singleton] at drawn
    omega
  exact ⟨_, pen, inks_newline canvas after.fits,
    after.newline canvas.sound.cols_pos ends (.inl inside) next⟩

/-- With the pen reset the new line scrolls in a plain row. -/
theorem leadsOn_reset (canvas : Canvas rows cols base) (catalogued : u.Catalogued) (count : Nat) :
    LeadsOn files base u rows cols count fun st =>
      ((resetPen st).1 ++ "\r\n".toList, (resetPen st).2) := by
  intro done r st p pen after ends _ next
  obtain ⟨pen', repens, follows, grows, plain⟩ :=
    repens_resetPen files catalogued after.follows
  have blank : pen'.blank = {} := by
    unfold Pen.blank
    rw [plain]
  have after' : After u rows cols done r (resetPen st).2 p pen' :=
    { after with
      follows
      ends := { after.ends with drawn := after.ends.drawn.grow grows } }
  exact ⟨_, pen', (repens.inks p).append (inks_newline canvas after.fits),
    after'.newline canvas.sound.cols_pos ends (.inr blank) next⟩

/-! ### On a blank screen -/

/-- A terminal whose active screen is blank, with the cursor in its first cell. -/
structure Clear (rows cols : Nat) (t : Terminal) : Prop extends Canvas rows cols t where
  bare : ∀ r ∈ t.scr.grid, r.Bare cols
  row : t.cursor.row = 0
  col : t.cursor.col = 0
  pending : t.cursor.pendingWrap = false

/-- The page that a blank screen is. -/
theorem Clear.page (clear : Clear rows cols base) :
    ∃ p : Page, Drawn base p base.ownPen base ∧ p.Fits rows cols ∧ Level rows p ∧ p.above = [] ∧
      Begins u cols [] p base.ownPen := by
  have sized := clear.sound.scr
  have pos := sized.rows_pos
  cases grid : base.scr.grid with
  | nil =>
    have height := sized.height
    rw [grid, List.length_nil] at height
    omega
  | cons first rest =>
    have height := sized.height
    rw [grid, List.length_cons] at height
    have bare := clear.bare first (grid ▸ List.mem_cons_self)
    let p : Page := { mark := first.mark, below := rest }
    have row : p.row cols = first := by
      obtain ⟨cells, wrapped, mark⟩ := first
      obtain ⟨rfl, rfl⟩ := bare
      rfl
    have gone : p.gone rows = 0 := by
      change 0 + 1 + rest.length - rows = 0
      omega
    have cap : base.scr.scrollback.rtake base.scr.maxScrollback = base.scr.scrollback := by
      unfold List.rtake
      rw [Nat.sub_eq_zero_of_le sized.cap]
      rfl
    have grid_eq : p.grid base.scr.rows base.scr.cols = base.scr.grid := by
      unfold Page.grid
      rw [sized.rows_eq, sized.cols_eq, gone, row, grid]
      rfl
    have screen : p.screen base.scr = base.scr := by
      have none_gone : p.gone base.scr.rows = 0 := by rw [sized.rows_eq, gone]
      unfold Page.screen
      rw [grid_eq, none_gone]
      change { base.scr with
        scrollback := (base.scr.scrollback ++ []).rtake base.scr.maxScrollback } = base.scr
      rw [List.append_nil, cap]
    have framed : framed base base = base := by
      unfold Terminal.framed
      split <;> rfl
    have inked : Inked base p base.ownPen base := {
      frame := framed
      scr := screen.symm
      row := by
        rw [clear.row]
        change 0 = base.rows - 1 - rest.length
        have rows_eq := clear.sound.rows_eq
        omega
      style := rfl
      link := rfl
      links := rfl
      next := rfl }
    refine ⟨p, inked.drawn clear.toCanvas rfl clear.col clear.pending, ?_, ?_, rfl, ?_⟩
    · refine ⟨nofun, Nat.zero_le _, ?_, ?_, ?_⟩
      · intro r mem
        exact clear.bare r (grid ▸ List.mem_cons_of_mem _ mem)
      · change rest.length < rows
        omega
      · change rows ≤ 0 + 1 + rest.length
        omega
    · change rest.length = rows - 1 - 0
      omega
    · exact .fresh rfl rfl rfl ⟨rfl, nofun⟩

/-- The terminal `t'`, which was `base`, shows the last of the rows `all` of `u`; those before
them have scrolled off. -/
structure Shows (u : Terminal) (rows cols : Nat) (all : List Row) (st : EmitState) (base t' : Terminal) :
    Prop where
  frame : framed base t' = base
  sound : t'.Sound Unknown rows cols
  follows : t'.ownPen.Follows u.hyperlinks st
  grid : Copied u t'.ownPen (all.drop (all.length - rows)) t'.scr.grid
  scrollback : ∃ gone, t'.scr.scrollback = (base.scr.scrollback ++ gone).rtake base.scr.maxScrollback ∧
    Copied u t'.ownPen (all.take (all.length - rows)) gone

/-- Rows written on a blank screen: the last ones are shown, and the others scroll off. -/
theorem draws_emitRows (clear : Clear rows cols base) (catalogued : u.Catalogued)
    (graphic : u.Graphic) (follows : base.ownPen.Follows u.hyperlinks st) {all : List Row}
    (tall : rows ≤ all.length) (writable : ∀ r ∈ all, Writable u cols r) (flows : Flows rows cols all)
    {ending : EmitState → Emit} (leads : LeadsOn files base u rows cols all.length ending) :
    ∃ t', Draws files (u.emitRows ending all st).1 base t' ∧
      Shows u rows cols all (u.emitRows ending all st).2 base t' := by
  have pos := clear.sound.rows_pos
  have width := clear.sound.cols_pos
  obtain ⟨p, drawn, fits, level, above, begins⟩ := clear.page (u := u)
  cases split : all with
  | nil =>
    rw [split, List.length_nil] at tall
    omega
  | cons r rest =>
    have joins (full : p.here.length = cols) : Joins rows cols ([] : List Row).length r := by
      cases begins with
      | fresh here =>
        rw [here, List.length_nil] at full
        omega
      | joined _ above' =>
        have length := above'.length
        rw [List.length_append, List.length_singleton, List.length_nil] at length
        omega
    obtain ⟨p', pen', inks, follows', fits', level', copied⟩ :=
      inks_emitRows clear.toCanvas catalogued graphic writable flows leads
        (List.nil_append (r :: rest) ▸ split) ⟨follows, fits, level, begins, joins⟩
    obtain ⟨t', draws, drawn'⟩ := inks base drawn
    have inked := drawn'.toInked
    have sized := clear.sound.scr
    have length := copied.length
    rw [List.length_append, List.length_singleton] at length
    have gone : p'.gone rows = all.length - rows := by
      unfold Level at level'
      unfold Page.gone
      omega
    have below : p'.below = [] := by
      unfold Level at level'
      exact List.length_eq_zero_iff.mp (by omega)
    have within : all.length - rows ≤ p'.above.length := by omega
    have rows_eq : base.scr.rows = rows := sized.rows_eq
    have cols_eq : base.scr.cols = cols := sized.cols_eq
    rw [← inked.ownPen] at follows' copied
    rw [← split]
    have grid : t'.scr.grid = (p'.above ++ [p'.row cols]).drop (all.length - rows) := by
      rw [inked.scr, List.drop_append_of_le_length within]
      unfold Page.screen Page.grid
      dsimp only
      rw [rows_eq, cols_eq, gone, below]
    have scrolled : t'.scr.scrollback = (base.scr.scrollback ++
        (p'.above ++ [p'.row cols]).take (all.length - rows)).rtake base.scr.maxScrollback := by
      rw [inked.scr, List.take_append_of_le_length within]
      unfold Page.screen
      dsimp only
      rw [rows_eq, gone]
    exact ⟨t', split ▸ draws, inked.frame, inked.sound clear.sound fits' (drawn'.col_lt clear.toCanvas),
      split ▸ follows', grid ▸ copied.drop _, _, scrolled, copied.take _⟩

end Terminal

end Posh.Term
