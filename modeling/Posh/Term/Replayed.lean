import Posh.Term.Replaying

/-!
What a new terminal is after it has read a dump.
-/

namespace Posh.Term

open Posh.Lib

namespace Terminal

variable {K : Parser → GraphicsState → Prop} {files : Files} {t t' u v v' base : Terminal}
  {text more : List Char} {rows cols cap : Nat} {st : EmitState}

/-! ### A new terminal -/

/-- On the primary screen nothing has been drawn yet, and nothing is set up. -/
structure Untouched (rows cols cap : Nat) (v : Terminal) : Prop where
  primary : v.primary = Screen.new rows cols cap
  alt : v.alt = Screen.new rows cols 0
  cursor : v.cursor = {}
  setup : v.setup = .fresh rows cols
  savedPrimary : v.savedPrimary.Small
  savedAlt : v.savedAlt.Small
  palette : v.palette.length = 256
  colorStack : v.colorStack = []
  hyperlinks : v.hyperlinks = []
  nextHyperlink : v.nextHyperlink = 0
  onPrimary : v.altActive = false
  keys : v.kittyPrimary = {}
  shape : v.cursorStyleRaw = 0

theorem untouched_withScrollback (tall : 0 < rows) (wide : 0 < cols) (cap : Nat) :
    Untouched rows cols cap (withScrollback rows cols cap) := by
  have height : max rows 1 = rows := Nat.max_eq_left tall
  have width : max cols 1 = cols := Nat.max_eq_left wide
  unfold withScrollback
  rw [height, width]
  exact {
    primary := rfl, alt := rfl, cursor := rfl, setup := rfl, savedPrimary := SavedCursor.small_default
    savedAlt := SavedCursor.small_default, palette := length_defaultPalette, colorStack := rfl
    hyperlinks := rfl, nextHyperlink := rfl, onPrimary := rfl, keys := rfl, shape := rfl }

namespace Untouched

theorem ownPen (fresh : Untouched rows cols cap v) : v.ownPen = {} := by
  unfold Terminal.ownPen
  rw [fresh.cursor, fresh.hyperlinks, fresh.nextHyperlink]

theorem sound (fresh : Untouched rows cols cap v) (tall : 0 < rows) (wide : 0 < cols)
    (rows_lt : rows < 2 ^ 16) (cols_lt : cols < 2 ^ 16) : v.Sound Unknown rows cols := by
  have sized (cap : Nat) : (Screen.new rows cols cap).Sized rows cols := by
    have sized := Screen.sized_new rows_lt cols_lt cap
    rwa [Nat.max_eq_left tall, Nat.max_eq_left wide] at sized
  have top : v.scrollTop = 0 := congrArg Setup.scrollTop fresh.setup
  have bot : v.scrollBot = rows - 1 := congrArg Setup.scrollBot fresh.setup
  have tabs : v.tabs = defaultTabs cols := congrArg Setup.tabs fresh.setup
  exact {
    primary := by
      change v.primary.Sized rows cols
      rw [fresh.primary]
      exact sized cap
    alt := by
      change v.alt.Sized rows cols
      rw [fresh.alt]
      exact sized 0
    row_lt := by
      change v.cursor.row < rows
      rw [fresh.cursor]
      exact tall
    col_lt := by
      change v.cursor.col < cols
      rw [fresh.cursor]
      exact wide
    ordered := by
      change v.scrollTop ≤ v.scrollBot
      rw [top]
      exact Nat.zero_le _
    bot_lt := by
      change v.scrollBot < rows
      omega
    tabs := by
      change v.tabs.length = cols
      rw [tabs, length_defaultTabs]
    savedPrimary := fresh.savedPrimary
    savedAlt := fresh.savedAlt
    palette := fresh.palette
    colorStack := by
      change ∀ e ∈ v.colorStack, _
      rw [fresh.colorStack]
      nofun
    known := trivial }

theorem clear (fresh : Untouched rows cols cap v) (tall : 0 < rows) (wide : 0 < cols)
    (rows_lt : rows < 2 ^ 16) (cols_lt : cols < 2 ^ 16) : Clear rows cols v where
  sound := fresh.sound tall wide rows_lt cols_lt
  top := congrArg Setup.scrollTop fresh.setup
  bot := congrArg Setup.scrollBot fresh.setup
  autowrap := congrArg (fun s : Setup => s.modes.autowrap) fresh.setup
  overwrite := congrArg (fun s : Setup => s.modes.insert) fresh.setup
  ascii c := by
    unfold mapCharset
    rw [fresh.cursor]
    rfl
  ring active := by
    rw [fresh.onPrimary] at active
    cases active
  bare r mem := by
    have grid : v.scr.grid = List.replicate rows (Row.blank cols {}) := by
      unfold Terminal.scr
      rw [fresh.onPrimary, if_neg Bool.false_ne_true, fresh.primary]
      change List.replicate (max rows 1) (Row.blank (max cols 1) {}) = _
      rw [Nat.max_eq_left tall, Nat.max_eq_left wide]
    rw [grid] at mem
    rw [List.eq_of_mem_replicate mem]
    exact ⟨rfl, rfl⟩
  row := congrArg CursorState.row fresh.cursor
  col := congrArg CursorState.col fresh.cursor
  pending := congrArg CursorState.pendingWrap fresh.cursor

end Untouched

/-! ### The header -/

/-- What a dump asks of the colours, the titles and the directory. -/
structure Headed (u : Terminal) : Prop where
  palette : u.palette.length = 256
  title : Carried u.title
  icon : Carried u.iconTitle
  located : Located u

variable (files) in
theorem draws_header (headed : u.Headed) (tall : 0 < rows) (wide : 0 < cols) (cap : Nat) :
    ∃ v, Draws files (u.dumpColors ++ u.dumpTitles ++ u.dumpPwd) (withScrollback rows cols cap) v ∧
      Untouched rows cols cap v ∧ v.profile = { u.profile with kittyAlt := {}, altActive := false } := by
  obtain ⟨g, draws⟩ : Sets files (u.dumpColors ++ u.dumpTitles ++ u.dumpPwd)
      (withScrollback rows cols cap) { withScrollback rows cols cap with
        palette := u.palette, fgColor := u.fgColor, bgColor := u.bgColor, cursorColor := u.cursorColor
        title := u.title, iconTitle := u.iconTitle, pwd := u.pwd } :=
    sets_header rfl rfl rfl rfl rfl rfl rfl headed.palette headed.title headed.icon headed.located
  have new := untouched_withScrollback tall wide cap
  exact ⟨_, draws, { new with palette := headed.palette }, rfl⟩

/-! ### The alternate screen's keyboard stack -/

/-- A switch to the alternate screen, which is cleared. -/
theorem setAltScreen_enter (off : t.altActive = false) (tall : 0 < t.rows) :
    t.setAltScreen 1049 true = .ok { t with
      altActive := true, savedPrimary := ⟨t.cursor, t.modes.origin⟩, alt := t.alt.clearGrid t.blankStyle
      screenSwitch := some .alt, cursor.pendingWrap := false, cursor.row := min t.cursor.row (t.rows - 1)
      generation := t.generation + 1 } := by
  let noted : Terminal := { t with screenSwitch := some .alt }
  let entered : Terminal := { noted with
    altActive := true, savedPrimary := ⟨t.cursor, t.modes.origin⟩, alt := t.alt.clearGrid t.blankStyle }
  have saved : noted.saveCursor = { noted with savedPrimary := ⟨t.cursor, t.modes.origin⟩ } :=
    if_neg (by rw [show noted.altActive = false from off]; exact Bool.false_ne_true)
  have enters : noted.enterAlt 1049 = entered := by
    unfold enterAlt
    rw [if_pos rfl, if_pos rfl, saved]
    rfl
  have goes : (true && !noted.altActive) = true := by
    rw [show noted.altActive = false from off]
    rfl
  unfold setAltScreen
  change ((if (true && !noted.altActive) = true then pure (noted.enterAlt 1049) else _) >>= _) = _
  rw [if_pos goes, enters]
  change (entered.lastRow >>= _) = _
  unfold lastRow
  rw [sub_eq_ok (show 1 ≤ entered.rows from tall)]
  rfl

theorem clampCursor_eq (t : Terminal) (tall : 0 < t.rows) (wide : 0 < t.cols) :
    t.clampCursor = .ok { t with
      cursor.row := min t.cursor.row (t.rows - 1), cursor.col := min t.cursor.col (t.cols - 1) } := by
  unfold clampCursor lastRow lastCol
  rw [sub_eq_ok tall, sub_eq_ok wide]
  rfl

/-- And back, with the cursor of a new terminal. -/
theorem setAltScreen_leave (on : t.altActive = true) (tall : 0 < t.rows) (wide : 0 < t.cols)
    (saved : t.savedPrimary = {}) :
    t.setAltScreen 1049 false = .ok { t with
      altActive := false, cursor := {}, modes.origin := false, screenSwitch := some .alt
      generation := t.generation + 1 + 1 } := by
  let noted : Terminal := { t with screenSwitch := some .alt }
  let left : Terminal := { noted with altActive := false }
  let homed : Terminal := { left with cursor := {}, modes.origin := false }
  have stays : ¬ (false && !noted.altActive) = true := Bool.false_ne_true
  have goes : (!false && noted.altActive) = true := on
  have clamped : homed.clampCursor = .ok homed := by
    have eq := clampCursor_eq homed tall wide
    rw [show min homed.cursor.row (homed.rows - 1) = 0 from Nat.zero_min _,
      show min homed.cursor.col (homed.cols - 1) = 0 from Nat.zero_min _] at eq
    exact eq
  have restored : left.restoreCursor = .ok homed.touch := by
    have kept : left.saved = {} := saved
    unfold restoreCursor
    rw [kept]
    change (homed.clampCursor >>= _) = _
    rw [clamped]
    rfl
  unfold setAltScreen
  change ((if (false && !noted.altActive) = true then _ else
    if (!false && noted.altActive) = true then noted.leaveAlt 1049 else _) >>= _) = _
  rw [if_neg stays, if_pos goes]
  unfold leaveAlt
  change (left.restoreCursor >>= _) = _
  rw [restored]
  change (homed.touch.lastRow >>= _) = _
  unfold lastRow
  rw [sub_eq_ok (show 1 ≤ homed.touch.rows from tall)]
  have low : min homed.touch.cursor.row (homed.touch.rows - 1) = 0 := Nat.zero_min _
  change Except.ok { homed.touch with
    cursor := { homed.touch.cursor with
      pendingWrap := false, row := min homed.touch.cursor.row (homed.touch.rows - 1) } }.touch = _
  rw [low]
  rfl

theorem clearGrid_new (tall : 0 < rows) (wide : 0 < cols) (cap : Nat) :
    (Screen.new rows cols cap).clearGrid {} = Screen.new rows cols cap := by
  unfold Screen.new Screen.clearGrid
  rw [Nat.max_eq_left tall, Nat.max_eq_left wide, List.map_replicate]

theorem draws_enter (off : t.altActive = false) (tall : 0 < t.rows) :
    Draws files "\x1b[?1049h".toList t { t with
      altActive := true, savedPrimary := ⟨t.cursor, t.modes.origin⟩, alt := t.alt.clearGrid t.blankStyle
      screenSwitch := some .alt, cursor.pendingWrap := false, cursor.row := min t.cursor.row (t.rows - 1)
      generation := t.generation + 1 + 1 } := by
  refine .literal rfl ⟨rfl, rfl⟩ ?_
  change ((t.setAltScreen 1049 true >>= _) >>= _) >>= _ = _
  rw [setAltScreen_enter off tall]
  rfl

theorem draws_leave (on : t.altActive = true) (tall : 0 < t.rows) (wide : 0 < t.cols)
    (saved : t.savedPrimary = {}) :
    Draws files "\x1b[?1049l".toList t { t with
      altActive := false, cursor := {}, modes.origin := false, screenSwitch := some .alt
      generation := t.generation + 1 + 1 + 1 } := by
  refine .literal rfl ⟨rfl, rfl⟩ ?_
  change ((t.setAltScreen 1049 false >>= _) >>= _) >>= _ = _
  rw [setAltScreen_leave on tall wide saved]
  rfl

variable (files) in
/-- The visit to the alternate screen leaves the keyboard stack there, and nothing else. -/
theorem draws_seedAltKitty (fresh : Untouched rows cols cap v) (tall : 0 < rows) (wide : 0 < cols)
    (none : v.kittyAlt = {}) (pushed : Pushed u.kittyAlt) (active : u.altActive = false) :
    ∃ v', Draws files u.seedAltKitty v v' ∧ Untouched rows cols cap v' ∧
      v'.profile = { v.profile with kittyAlt := u.kittyAlt } := by
  by_cases empty : u.kittyAlt.entries.isEmpty = true
  · have skipped : u.seedAltKitty = [] := by
      unfold seedAltKitty
      rw [active, empty]
      rfl
    have same : u.kittyAlt = v.kittyAlt := by
      rw [none]
      exact congrArg KittyKeyStack.mk (List.isEmpty_iff.mp empty)
    refine ⟨v, ?_, fresh, ?_⟩
    · rw [skipped]
      exact .literal rfl ⟨rfl, rfl⟩ rfl
    · rw [same]
      rfl
  · have visits : u.seedAltKitty =
        "\x1b[?1049h".toList ++ dumpKitty u.kittyAlt ++ "\x1b[?1049l".toList := by
      unfold seedAltKitty
      rw [active, Bool.not_false, Bool.true_and, if_pos (by rw [Bool.not_eq_true _ |>.mp empty]; rfl)]
    have heightV : 0 < v.rows := by
      unfold Terminal.rows
      rw [fresh.primary]
      exact Nat.lt_of_lt_of_le Nat.zero_lt_one (Nat.le_max_right _ _)
    have widthV : 0 < v.cols := by
      unfold Terminal.cols
      rw [fresh.primary]
      exact Nat.lt_of_lt_of_le Nat.zero_lt_one (Nat.le_max_right _ _)
    have origin : v.modes.origin = false := congrArg (fun s : Setup => s.modes.origin) fresh.setup
    have saved : (⟨v.cursor, v.modes.origin⟩ : SavedCursor) = {} := by
      rw [fresh.cursor, origin]
    have plain : v.blankStyle = {} := by
      unfold blankStyle
      rw [fresh.cursor]
    have cleared : v.alt.clearGrid v.blankStyle = Screen.new rows cols 0 := by
      rw [fresh.alt, plain, clearGrid_new tall wide]
    have small : (⟨v.cursor, v.modes.origin⟩ : SavedCursor).Small := by
      rw [saved]
      exact SavedCursor.small_default
    let entered : Terminal := { v with
      altActive := true, savedPrimary := ⟨v.cursor, v.modes.origin⟩, alt := v.alt.clearGrid v.blankStyle
      screenSwitch := some .alt, cursor.pendingWrap := false, cursor.row := min v.cursor.row (v.rows - 1)
      generation := v.generation + 1 + 1 }
    have pushes : Draws files (dumpKitty u.kittyAlt) entered { entered with kittyAlt := u.kittyAlt } :=
      draws_dumpKitty pushed none
    have setup : ({ v.setup with
        modes.origin := false, g0 := .ascii, g1 := .ascii, shift := 0 } : Setup) = .fresh rows cols := by
      rw [fresh.setup]
      rfl
    rw [visits]
    refine ⟨_, ((draws_enter fresh.onPrimary heightV).append pushes).append
      (draws_leave rfl heightV widthV saved), ?_, ?_⟩
    · exact { fresh with
        alt := cleared
        cursor := rfl
        setup
        savedPrimary := small
        onPrimary := rfl }
    · exact congrArg (fun active => ({ v.profile with
        kittyAlt := u.kittyAlt, altActive := active } : Profile)) fresh.onPrimary.symm

/-! ### The rows -/

theorem length_missing (catalogued : u.Catalogued) (pen : Pen) :
    (pen.missing u.hyperlinks).length ≤ u.nextHyperlink := by
  have keys := congrArg List.length catalogued.keys
  rw [List.length_map, List.length_range'] at keys
  refine (List.length_filter_le _ _).trans ?_
  rw [AssocMap.values, List.length_map, keys]

/-- There are numbers for all links of `u`. -/
theorem Untouched.follows (fresh : Untouched rows cols cap v) (catalogued : u.Catalogued) :
    v.ownPen.Follows u.hyperlinks {} := by
  rw [fresh.ownPen]
  exact {
    catalogue := catalogue_nil
    known := Nat.le_refl 0
    style := rfl
    link := by
      rw [catalogued.lookup_zero]
      rfl
    room := Nat.lt_of_le_of_lt (length_missing catalogued {}) catalogued.small }

variable (files) in
theorem draws_toHome (tall : 0 < t.rows) (wide : 0 < t.cols) (origin : t.modes.origin = false) :
    Draws files "\x1b[H".toList t { t with
      cursor.row := 0, cursor.col := 0, cursor.pendingWrap := false, generation := t.generation + 1 } := by
  refine .literal rfl ⟨rfl, rfl⟩ ?_
  change (t.moveTo 0 0 >>= _) = _
  rw [home_eq t tall wide origin]
  rfl

variable (files) in
theorem draws_home (fresh : Untouched rows cols cap v) (tall : 0 < rows) (wide : 0 < cols)
    (rows_lt : rows < 2 ^ 16) (cols_lt : cols < 2 ^ 16) :
    ∃ v', Draws files "\x1b[H".toList v v' ∧ Untouched rows cols cap v' ∧ v'.profile = v.profile := by
  have sound := fresh.sound tall wide rows_lt cols_lt
  have origin : v.modes.origin = false := congrArg (fun s : Setup => s.modes.origin) fresh.setup
  have homes := draws_toHome files (show 0 < v.rows from sound.rows_eq ▸ tall)
    (show 0 < v.cols from sound.cols_eq ▸ wide) origin
  have start : { v.cursor with row := 0, col := 0, pendingWrap := false } = ({} : CursorState) := by
    rw [fresh.cursor]
  exact ⟨_, homes, { fresh with cursor := start, setup := fresh.setup }, rfl⟩

variable (files) in
/-- A grid drawn from home. -/
theorem draws_drawGrid (fresh : Untouched rows cols cap v) (catalogued : u.Catalogued)
    (graphic : u.Graphic) {s : Screen} (sized : s.Sized rows cols)
    (writable : ∀ r ∈ s.grid, Writable u cols r) (flows : Flows rows cols s.grid) :
    ∃ text st base v', u.drawGrid s {} = .ok (text, st) ∧ Draws files ("\x1b[H".toList ++ text) v v' ∧
      Untouched rows cols cap base ∧ base.profile = v.profile ∧ Shows u rows cols s.grid st base v' := by
  obtain ⟨base, homes, fresh', profile⟩ :=
    draws_home files fresh sized.rows_pos sized.cols_pos sized.rows_lt sized.cols_lt
  have clear := fresh'.clear sized.rows_pos sized.cols_pos sized.rows_lt sized.cols_lt
  obtain ⟨v', draws, shows⟩ := draws_emitRows clear catalogued graphic (fresh'.follows catalogued)
    (Nat.le_of_eq sized.height.symm) writable flows
    (leadsOn_newline clear.toCanvas (Nat.le_of_eq sized.height) : LeadsOn files base u rows cols _ _)
  refine ⟨_, _, base, v', ?_, homes.append draws, fresh', profile, shows⟩
  unfold drawGrid
  rw [Screen.visibleRows_eq (sized.height.trans sized.rows_eq.symm)]
  change Except.ok (u.drawRows s.grid {}) = _
  rw [drawRows_eq]

variable (files) in
/-- The scrollback and the grid of the primary screen. -/
theorem draws_dumpPrimary (fresh : Untouched rows cols cap v) (catalogued : u.Catalogued)
    (graphic : u.Graphic) (sized : u.primary.Sized rows cols)
    (writable : ∀ r ∈ u.primary.scrollback ++ u.primary.grid, Writable u cols r)
    (flows : Flows rows cols (u.primary.scrollback ++ u.primary.grid)) :
    ∃ text st base v', u.dumpPrimary {} = .ok (text, st) ∧ Draws files text v v' ∧
      Untouched rows cols cap base ∧ base.profile = v.profile ∧
      Shows u rows cols (u.primary.scrollback ++ u.primary.grid) st base v' := by
  cases above : u.primary.scrollback with
  | nil =>
    rw [above, List.nil_append] at writable flows
    obtain ⟨text, st, base, v', eq, drawn⟩ := draws_drawGrid files fresh catalogued graphic sized writable flows
    refine ⟨_, st, base, v', ?_, drawn⟩
    unfold dumpPrimary
    rw [above, if_neg (show ¬ ([] : List Row).length > 0 from Nat.lt_irrefl 0), eq]
    rfl
  | cons first rest =>
    rw [above] at writable flows
    have clear := fresh.clear sized.rows_pos sized.cols_pos sized.rows_lt sized.cols_lt
    obtain ⟨v', draws, shows⟩ := draws_emitRows clear catalogued graphic (fresh.follows catalogued)
      (by rw [List.length_append, sized.height]; exact Nat.le_add_left _ _) writable flows
      (leadsOn_reset clear.toCanvas catalogued _ : LeadsOn files v u rows cols _ _)
    refine ⟨_, _, v, v', ?_, draws, fresh, rfl, shows⟩
    unfold dumpPrimary
    rw [above, if_pos (show (first :: rest).length > 0 from Nat.zero_lt_succ _),
      Screen.visibleRows_eq (sized.height.trans sized.rows_eq.symm)]
    change Except.ok (u.replayRows (first :: rest ++ u.primary.grid) {}) = _
    rw [replayRows_eq]

end Terminal

end Posh.Term
