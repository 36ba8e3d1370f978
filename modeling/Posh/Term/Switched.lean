import Posh.Term.Mirrors

/-!
The repaint for a screen switch.

A terminal that has kept up with the session is brought into a state to draw in, the screen it shows
is cleared, and what the other screen of the session shows is drawn there. It keeps its own buffers.
-/

namespace Posh.Term

open Posh.Lib

/-- The setup that a repaint is drawn in. -/
def Setup.normal (rows : Nat) (s : Setup) : Setup :=
  { s with
    modes := { s.modes with cursorVisible := false, origin := false, insert := false, autowrap := true }
    scrollTop := 0, scrollBot := rows - 1, g0 := .ascii, shift := 0 }

namespace Terminal

variable {K : Parser → GraphicsState → Prop} {files : Files} {t t' u v v' : Terminal} {grid : List Row}
  {rows cols row : Nat} {style : Style} {s : Setup} {pen : Pen}

/-! ### Clearing the screen -/

/-- The terminal with another grid of the active screen. -/
def withGrid (grid : List Row) (t : Terminal) : Terminal :=
  if t.altActive then { t with alt.grid := grid } else { t with primary.grid := grid }

theorem scr_withGrid (grid : List Row) (t : Terminal) : (t.withGrid grid).scr = { t.scr with grid } := by
  unfold withGrid scr
  by_cases alt : t.altActive = true
  · simp only [if_pos alt]
  · simp only [if_neg alt]

@[simp] theorem rows_withGrid (grid : List Row) (t : Terminal) : (t.withGrid grid).rows = t.rows := by
  unfold withGrid
  split <;> rfl

@[simp] theorem cols_withGrid (grid : List Row) (t : Terminal) : (t.withGrid grid).cols = t.cols := by
  unfold withGrid
  split <;> rfl

@[simp] theorem cursor_withGrid (grid : List Row) (t : Terminal) : (t.withGrid grid).cursor = t.cursor := by
  unfold withGrid
  split <;> rfl

@[simp] theorem setup_withGrid (grid : List Row) (t : Terminal) : (t.withGrid grid).setup = t.setup := by
  unfold withGrid
  split <;> rfl

@[simp] theorem ownPen_withGrid (grid : List Row) (t : Terminal) : (t.withGrid grid).ownPen = t.ownPen := by
  unfold withGrid
  split <;> rfl

@[simp] theorem cursorStyleRaw_withGrid (grid : List Row) (t : Terminal) :
    (t.withGrid grid).cursorStyleRaw = t.cursorStyleRaw := by
  unfold withGrid
  split <;> rfl

theorem withGrid_withGrid (grid grid' : List Row) (t : Terminal) :
    (t.withGrid grid).withGrid grid' = t.withGrid grid' := by
  unfold withGrid
  by_cases alt : t.altActive = true
  · simp only [if_pos alt]
  · simp only [if_neg alt]

theorem withGrid_scr (t : Terminal) : t.withGrid t.scr.grid = t := by
  unfold withGrid scr
  by_cases alt : t.altActive = true
  · simp only [if_pos alt]
  · simp only [if_neg alt]

theorem aside_withGrid (grid : List Row) (t : Terminal) : (t.withGrid grid).aside = t.aside := by
  unfold withGrid aside parked
  by_cases alt : t.altActive = true
  · simp only [if_pos alt]
  · simp only [if_neg alt]

theorem modifyScr_withGrid {f : Screen → Checked Screen} (does : f t.scr = .ok { t.scr with grid }) :
    t.modifyScr f = .ok (t.withGrid grid) := by
  unfold modifyScr
  rw [does]
  unfold withGrid scr
  by_cases alt : t.altActive = true
  · simp only [if_pos alt]
    rfl
  · simp only [if_neg alt]
    rfl

theorem eraseRow_eq (inside : row < t.scr.grid.length) :
    t.eraseRow row style false = .ok (t.withGrid (t.scr.grid.set row (Row.blank t.cols style))) := by
  have low : min row (t.scr.grid.length - 1) = row := by omega
  have found : getAt t.scr.grid row = .ok t.scr.grid[row] := getAt_eq_ok inside
  have modified : t.scr.modifyRow row (fun _ => return Row.blank t.cols style) =
      .ok { t.scr with grid := t.scr.grid.set row (Row.blank t.cols style) } := by
    unfold Screen.modifyRow
    rw [sub_eq_ok (show 1 ≤ t.scr.grid.length by omega)]
    change (getAt t.scr.grid (min row (t.scr.grid.length - 1)) >>= _) = _
    rw [low, found]
    rfl
  unfold eraseRow
  rw [if_neg Bool.false_ne_true]
  exact modifyScr_withGrid modified

/-- All rows are blank. -/
theorem eraseRows_eq (height : t.scr.grid.length = rows) :
    t.eraseRows 0 rows style false = .ok (t.withGrid (List.replicate rows (Row.blank t.cols style))) := by
  let blank := Row.blank t.cols style
  let upTo (k : Nat) : Terminal := t.withGrid (List.replicate k blank ++ t.scr.grid.drop k)
  have loop : Yields (t.eraseRows 0 rows style false) (· = upTo rows) := by
    unfold eraseRows
    refine Yields.forRange_index (I := fun k t' => t' = upTo k) (Nat.zero_le rows) (withGrid_scr t).symm ?_
    rintro k _ - below rfl
    have inside : k < t.scr.grid.length := by omega
    have length : (List.replicate k blank).length = k := List.length_replicate
    have within : k < (upTo k).scr.grid.length := by
      rw [scr_withGrid, List.length_append, length, List.length_drop]
      omega
    refine ⟨_, eraseRow_eq within, ?_⟩
    rw [scr_withGrid, cols_withGrid, withGrid_withGrid]
    refine congrArg (t.withGrid ·) ?_
    rw [List.set_append_right _ _ (Nat.le_of_eq length), length, Nat.sub_self,
      List.drop_eq_getElem_cons inside, List.set_cons_zero, List.replicate_succ', List.append_assoc]
    rfl
  obtain ⟨t', eq, rfl⟩ := loop
  rw [eq]
  change Except.ok (t.withGrid _) = _
  rw [List.drop_eq_nil_of_le (Nat.le_of_eq height), List.append_nil]

theorem draws_clear (height : t.scr.grid.length = t.rows) :
    Draws files "\x1b[2J".toList t ({ t with cursor.pendingWrap := false, generation := t.generation + 1 }.withGrid
      (List.replicate t.rows (Row.blank t.cols t.blankStyle))) := by
  let calm : Terminal := { t with cursor.pendingWrap := false }
  have erased : calm.eraseRows 0 t.rows t.blankStyle false =
      .ok (calm.withGrid (List.replicate t.rows (Row.blank t.cols t.blankStyle))) := eraseRows_eq height
  refine .literal rfl ⟨rfl, rfl⟩ ?_
  change ((calm.eraseRows 0 t.rows t.blankStyle false >>= _) >>= _) = _
  rw [erased]
  unfold withGrid
  by_cases alt : t.altActive = true
  · simp only [if_pos alt, calm]
    rfl
  · simp only [if_neg alt, calm]
    rfl

/-! ### The prologue -/

/-- The region is the whole grid again. -/
theorem arranges_resetRegion (ordered : s.scrollTop ≤ s.scrollBot) (bot_lt : s.scrollBot < rows)
    (wide : 0 < cols) :
    Arranges files rows cols "\x1b[r".toList s { s with scrollTop := 0, scrollBot := rows - 1 } := by
  rintro t rfl rfl rfl
  have tall : 0 < t.rows := Nat.zero_lt_of_lt bot_lt
  let whole : Terminal := { t with scrollTop := 0, scrollBot := t.rows - 1 }
  have set : t.setRegion [] = if 0 < t.rows - 1 then whole.moveTo 0 0 else .ok t := by
    unfold setRegion lastRow
    change (sub t.rows 1 >>= _) = _
    rw [sub_eq_ok tall]
    change (if 0 < min (t.rows - 1) (t.rows - 1) then
      { t with scrollTop := 0, scrollBot := min (t.rows - 1) (t.rows - 1) }.moveTo 0 0 else Except.ok t) = _
    rw [Nat.min_self]
  by_cases several : 0 < t.rows - 1
  · rw [if_pos several] at set
    have moved := moveTo_eq 0 0 whole tall wide
    let row := if t.modes.origin then
      min (satAdd 16 (min 0 (t.rows - 1)) 0) (min (t.rows - 1) (t.rows - 1)) else min 0 (t.rows - 1)
    refine ⟨⟨row, min 0 (t.cols - 1), false, t.generation + 1⟩, .literal rfl ⟨rfl, rfl⟩ ?_⟩
    change (t.setRegion [] >>= _) = _
    rw [set, moved]
    rfl
  · rw [if_neg several] at set
    have top : 0 = t.scrollTop := by
      change t.scrollTop ≤ t.scrollBot at ordered
      change t.scrollBot < t.rows at bot_lt
      omega
    have bot : t.rows - 1 = t.scrollBot := by
      change t.scrollBot < t.rows at bot_lt
      omega
    refine ⟨⟨t.cursor.row, t.cursor.col, t.cursor.pendingWrap, t.generation⟩, .literal rfl ⟨rfl, rfl⟩ ?_⟩
    change (t.setRegion [] >>= _) = _
    rw [set, top, bot]
    rfl

/-- Origin mode is left, whatever it was. -/
theorem arranges_leaveOrigin (tall : 0 < rows) (wide : 0 < cols) (s : Setup) :
    Arranges files rows cols "\x1b[?6l".toList s { s with modes.origin := false } := by
  rintro t rfl rfl rfl
  have home := home_eq { t with modes.origin := false } tall wide rfl
  refine ⟨⟨0, 0, false, t.generation + 1 + 1⟩, .literal rfl ⟨rfl, rfl⟩ ?_⟩
  change (({ t with modes.origin := false }.moveTo 0 0 >>= _) >>= _) >>= _ = _
  rw [home]
  rfl

variable (files) in
theorem arranges_normal (ordered : s.scrollTop ≤ s.scrollBot) (bot_lt : s.scrollBot < rows) (wide : 0 < cols) :
    Arranges files rows cols
      ("\x1b[?25l".toList ++ "\x1b[r".toList ++ "\x1b[?6l".toList ++ "\x1b(B".toList ++ "\x0f".toList ++
        "\x1b[4l".toList ++ "\x1b[?7h".toList) s (s.normal rows) := by
  have tall : 0 < rows := Nat.zero_lt_of_lt bot_lt
  have hidden : Arranges files rows cols "\x1b[?25l".toList s { s with modes.cursorVisible := false } :=
    .literal (fun s => { s with modes.cursorVisible := false }) rfl ⟨rfl, rfl⟩ (fun t => ⟨_, _, _, _, rfl⟩) s
  have ascii (s : Setup) : Arranges files rows cols "\x1b(B".toList s { s with g0 := .ascii } :=
    .literal (fun s => { s with g0 := .ascii }) rfl ⟨rfl, rfl⟩ (fun t => ⟨_, _, _, _, rfl⟩) s
  have shifted (s : Setup) : Arranges files rows cols "\x0f".toList s { s with shift := 0 } :=
    .literal (fun s => { s with shift := 0 }) rfl ⟨rfl, rfl⟩ (fun t => ⟨_, _, _, _, rfl⟩) s
  have replaces (s : Setup) : Arranges files rows cols "\x1b[4l".toList s { s with modes.insert := false } :=
    .literal (fun s => { s with modes.insert := false }) rfl ⟨rfl, rfl⟩ (fun t => ⟨_, _, _, _, rfl⟩) s
  have wraps (s : Setup) : Arranges files rows cols "\x1b[?7h".toList s { s with modes.autowrap := true } :=
    .literal (fun s => { s with modes.autowrap := true }) rfl ⟨rfl, rfl⟩ (fun t => ⟨_, _, _, _, rfl⟩) s
  exact (((((hidden.append (arranges_resetRegion ordered bot_lt wide)).append
    (arranges_leaveOrigin tall wide _)).append (ascii _)).append (shifted _)).append (replaces _)).append (wraps _)

variable (files) in
/-- The default pen, without a link. -/
theorem repens_plain (pen : Pen) :
    Repens files ("\x1b[0m".toList ++ "\x1b[0\"q".toList ++ "\x1b]8;;\x1b\\".toList) pen
      { pen with style := {}, link := 0 } := by
  have plain : Repens files "\x1b[0m".toList pen { pen with style := { isProtected := pen.style.isProtected } } :=
    repens_emitSgr {} pen
  have open_ (pen : Pen) : Repens files "\x1b[0\"q".toList pen
      { pen with style := { pen.style with isProtected := false } } :=
    repens_emitProtect false pen
  exact (plain.append (open_ _)).append (repens_unlink _)

/-- What the prologue makes of the terminal `v`. -/
structure Normal (rows cols : Nat) (v v' : Terminal) : Prop where
  clear : Clear rows cols v'
  aside : v'.aside = v.aside
  setup : v'.setup = v.setup.normal rows
  pen : v'.ownPen = { v.ownPen with style := {}, link := 0 }
  shape : v'.cursorStyleRaw = v.cursorStyleRaw
  scrollback : v'.scr.scrollback = v.scr.scrollback

variable (files) in
theorem draws_prologue (sound : v.Sound Unknown rows cols)
    (ring : v.altActive = true → v.alt.maxScrollback = 0) :
    ∃ v', Draws files switchPrologue v v' ∧ Normal rows cols v v' := by
  have sized := sound.scr
  obtain ⟨at_, arranged⟩ := arranges_normal files sound.ordered sound.bot_lt sized.cols_pos v sound.rows_eq
    sound.cols_eq rfl
  let arrayed : Terminal := v.withSetup (v.setup.normal rows) at_
  obtain ⟨g, penned⟩ := repens_plain files arrayed.ownPen arrayed rfl
  let plain : Terminal := arrayed.withPen { arrayed.ownPen with style := {}, link := 0 } g
  have height : plain.scr.grid.length = plain.rows := sized.height.trans sound.rows_eq.symm
  let blanks : List Row := List.replicate plain.rows (Row.blank plain.cols plain.blankStyle)
  let calm : Terminal := { plain with cursor.pendingWrap := false, generation := plain.generation + 1 }
  have clears : Draws files "\x1b[2J".toList plain (calm.withGrid blanks) := draws_clear height
  have origin : (calm.withGrid blanks).modes.origin = false :=
    congrArg (fun s : Setup => s.modes.origin) (setup_withGrid blanks calm)
  have homes := draws_toHome files (show 0 < (calm.withGrid blanks).rows by
      rw [rows_withGrid]; exact sound.rows_eq ▸ sized.rows_pos)
    (show 0 < (calm.withGrid blanks).cols by rw [cols_withGrid]; exact sound.cols_eq ▸ sized.cols_pos) origin
  let homed : Terminal := { calm.withGrid blanks with
    cursor.row := 0, cursor.col := 0, cursor.pendingWrap := false
    generation := (calm.withGrid blanks).generation + 1 }
  have draws : Draws files switchPrologue v homed := ((arranged.append penned).append clears).append homes
  have setup : homed.setup = v.setup.normal rows := setup_withGrid blanks calm
  have screen : homed.scr = { v.scr with grid := blanks } := scr_withGrid blanks calm
  have rows_eq : homed.rows = v.rows := rows_withGrid blanks calm
  have cols_eq : homed.cols = v.cols := cols_withGrid blanks calm
  refine ⟨homed, draws, ?_⟩
  constructor
  · exact {
      sound := Draws.sound sound draws rows_eq cols_eq
      top := congrArg Setup.scrollTop setup
      bot := congrArg Setup.scrollBot setup
      autowrap := congrArg (fun s : Setup => s.modes.autowrap) setup
      overwrite := congrArg (fun s : Setup => s.modes.insert) setup
      ascii := by
        intro c
        unfold mapCharset
        rw [show homed.cursor.shift = 0 from congrArg Setup.shift setup,
          show homed.cursor.g0 = .ascii from congrArg Setup.g0 setup]
        rfl
      ring := by
        intro active
        have alt : (calm.withGrid blanks).altActive = v.altActive ∧
            (calm.withGrid blanks).alt.maxScrollback = v.alt.maxScrollback := by
          unfold withGrid
          split
          · exact ⟨rfl, rfl⟩
          · exact ⟨rfl, rfl⟩
        exact alt.2.trans (ring (alt.1.symm.trans active))
      bare := by
        intro r mem
        rw [screen] at mem
        rw [List.eq_of_mem_replicate mem]
        refine ⟨?_, rfl⟩
        change List.replicate v.cols (Cell.blank {}) = _
        rw [sound.cols_eq]
      row := rfl
      col := rfl
      pending := rfl }
  · exact aside_withGrid blanks calm
  · exact setup
  · exact ownPen_withGrid blanks calm
  · exact cursorStyleRaw_withGrid blanks calm
  · rw [screen]

/-! ### The repaint -/

/-- The setup after a repaint: what it needs to normalize comes from `u`, all else stays. -/
def repaintedSetup (u v : Terminal) : Setup :=
  { v.setup with
    modes := { v.modes with
      cursorVisible := u.modes.cursorVisible, origin := u.modes.origin, insert := u.modes.insert
      autowrap := u.modes.autowrap }
    scrollTop := u.scrollTop, scrollBot := u.scrollBot, g0 := u.cursor.g0, g1 := u.cursor.g1
    shift := u.cursor.shift }

/-- `v'` shows what `u` shows, and is `v` in all that a repaint does not touch. -/
structure Repainted (u v v' : Terminal) : Prop where
  aside : v'.aside = v.aside
  scrollback : v'.scr.scrollback = v.scr.scrollback
  grid : v'.scr.grid.map (Row.look v'.hyperlinks) = u.scr.grid.map (Row.look u.hyperlinks)
  row : v'.cursor.row = u.cursor.row
  col : v'.cursor.col = u.cursor.col
  pending : v'.cursor.pendingWrap = u.cursor.pendingWrap
  style : v'.cursor.style = u.cursor.style
  link : (v'.hyperlinks.lookup v'.cursor.hyperlink).map (·.uri) =
    (u.hyperlinks.lookup u.cursor.hyperlink).map (·.uri)
  setup : v'.setup = u.repaintedSetup v
  shape : v'.cursorStyleRaw = if u.cursorStyleRaw = 0 then v.cursorStyleRaw else u.cursorStyleRaw

/-- A normal terminal has numbers left for the links of `u`. -/
theorem Normal.follows (normal : Normal rows cols v v') (catalogued : v.Catalogued) (wanted : u.Catalogued)
    (room : v.nextHyperlink + u.nextHyperlink < 2 ^ 32) : v'.ownPen.Follows u.hyperlinks {} := by
  rw [normal.pen]
  exact {
    catalogue := catalogued
    known := Nat.zero_le _
    style := rfl
    link := by
      rw [wanted.lookup_zero]
      exact congrArg (Option.map _) (Catalogue.lookup_zero catalogued)
    room := by
      have missing := length_missing wanted { v.ownPen with style := {}, link := 0 }
      change _ + v.nextHyperlink < 2 ^ 32
      omega }

variable (files) in
/-- The grid drawn on a normal terminal. -/
theorem draws_normal (normal : Normal rows cols v v') (lawful : u.Lawful rows cols)
    (showable : u.Showable u.scr.grid) (height : u.rows = rows) (width : u.cols = cols)
    (follows : v'.ownPen.Follows u.hyperlinks {}) :
    ∃ text st v'', u.drawGrid u.scr {} = .ok (text, st) ∧ Draws files text v' v'' ∧
      Shows u rows cols u.scr.grid st v' v'' ∧ v''.scr.scrollback = v.scr.scrollback := by
  have sized := lawful.sound.scr
  have flows := showable.flows
  rw [height, width] at flows
  obtain ⟨v'', draws, shows⟩ := draws_emitRows normal.clear lawful.catalogued lawful.clean.graphic follows
    (Nat.le_of_eq sized.height.symm) (showable.writable lawful.spelled) flows
    (leadsOn_newline normal.clear.toCanvas (Nat.le_of_eq sized.height) : LeadsOn files v' u rows cols _ _)
  refine ⟨_, _, v'', ?_, draws, shows, ?_⟩
  · unfold drawGrid
    rw [Screen.visibleRows_eq (sized.height.trans sized.rows_eq.symm)]
    change Except.ok (u.drawRows u.scr.grid {}) = _
    rw [drawRows_eq]
  · obtain ⟨gone, scrolled, copied⟩ := shows.scrollback
    have none : gone = [] := by
      have length := copied.length
      rw [sized.height, Nat.sub_self] at length
      exact List.length_eq_zero_iff.mp length
    rw [scrolled, none, List.append_nil, ← normal.scrollback]
    unfold List.rtake
    rw [Nat.sub_eq_zero_of_le normal.clear.sound.scr.cap]
    rfl

variable (files) in
/-- The region and the modes of `u`, on a normal setup. -/
theorem arranges_repainted (lawful : u.Lawful rows cols) (set : v.cursor.g1 = u.cursor.g1) :
    ∃ region, u.dumpRegion = .ok region ∧ Arranges files rows cols
      (region ++ textIf u.modes.origin "\x1b[?6h" ++ u.dumpCharsets ++ textIf u.modes.insert "\x1b[4h" ++
        textIf (!u.modes.autowrap) "\x1b[?7l") (v.setup.normal rows)
      ((u.repaintedSetup v).withModes { (u.repaintedSetup v).modes with cursorVisible := false }) := by
  have sound := lawful.sound
  have tall := sound.scr.rows_pos
  have wide := sound.scr.cols_pos
  let start : Setup := v.setup.normal rows
  let regional : Setup := { start with scrollTop := u.scrollTop, scrollBot := u.scrollBot }
  let placed : Setup := { regional with modes.origin := u.modes.origin }
  let charted : Setup := { placed with g0 := u.cursor.g0, g1 := u.cursor.g1, shift := u.cursor.shift }
  let inserting : Setup := { charted with modes.insert := u.modes.insert }
  have region : Arranges files rows cols _ start regional := arranges_dumpRegion sound lawful.settled rfl rfl rfl
  have origin : Arranges files rows cols (textIf u.modes.origin "\x1b[?6h") regional placed :=
    arranges_origin u.modes.origin tall wide rfl
  have charsets : Arranges files rows cols u.dumpCharsets placed charted :=
    arranges_dumpCharsets u rfl (.inr set) rfl lawful.steady.shift
  have insert : Arranges files rows cols (textIf u.modes.insert "\x1b[4h") charted inserting :=
    .flag (fun on s => { s with modes.insert := on }) _ (.literal _ rfl ⟨rfl, rfl⟩ fun t => ⟨_, _, _, _, rfl⟩) rfl
  have autowrap : Arranges files rows cols (textIf (!u.modes.autowrap) "\x1b[?7l") inserting
      { inserting with modes.autowrap := u.modes.autowrap } :=
    .unflag (fun on s => { s with modes.autowrap := on }) _
      (.literal _ rfl ⟨rfl, rfl⟩ fun t => ⟨_, _, _, _, rfl⟩) rfl
  exact ⟨_, dumpRegion_eq sound, (((region.append origin).append charsets).append insert).append autowrap⟩

variable (files) in
theorem draws_show (on : Bool) (hidden : t.modes.cursorVisible = false) :
    ∃ g, Draws files (textIf on "\x1b[?25h") t { t with modes.cursorVisible := on, generation := g } := by
  cases on with
  | true => exact ⟨t.generation + 1, .literal rfl ⟨rfl, rfl⟩ rfl⟩
  | false =>
    have same : { t with modes.cursorVisible := false, generation := t.generation } = t :=
      congrArg (fun on => { t with modes.cursorVisible := on }) hidden.symm
    refine ⟨t.generation, ?_⟩
    rw [same]
    exact .literal rfl ⟨rfl, rfl⟩ rfl

variable {text region cursor : List Char} {st : EmitState}

theorem dumpScreenSwitch_eq (drawn : u.drawGrid u.scr {} = .ok (text, st)) (regional : u.dumpRegion = .ok region)
    (placements : u.graphics.placements = []) (written : u.dumpCursor st = .ok cursor) :
    u.dumpScreenSwitch = .ok (toUtf8 (switchPrologue ++ text ++
      (region ++ textIf u.modes.origin "\x1b[?6h" ++ u.dumpCharsets ++ textIf u.modes.insert "\x1b[4h" ++
        textIf (!u.modes.autowrap) "\x1b[?7l") ++ cursor ++ textIf u.modes.cursorVisible "\x1b[?25h")) := by
  have bare : u.dumpPlacements = .ok [] := by
    unfold dumpPlacements
    rw [placements]
    rfl
  unfold dumpScreenSwitch
  rw [drawn]
  change (u.dumpRegion >>= fun _ => u.dumpPlacements >>= fun _ => u.dumpCursor st >>= _) = _
  rw [regional, bare, written]
  change Except.ok _ = Except.ok _
  simp only [List.append_assoc, List.nil_append]

end Terminal

end Posh.Term
