import Posh.Term.Header

/-!
What a dump writes of the modes: the scroll region, tab stops and character sets with them.

Each piece brings a terminal of the right size from one setup to the next, whatever it shows;
on the way the cursor moves.
-/

namespace Posh.Term

open Posh.Lib

namespace Parser

/-- Two numbers. -/
theorem paramsOf_pair {a b : Nat} (small : a ≤ 65535) (small' : b ≤ 65535) :
    paramsOf (toUtf8 (decimal a ++ (";".toList ++ decimal b))) = [[a], [b]] :=
  paramsOf_number small (adds_number small') (show 1 < MAX_PARAMS by decide)

end Parser

/-- What the modes of a dump set. -/
structure Setup where
  modes : Modes
  scrollTop : Nat
  scrollBot : Nat
  tabs : List Bool
  g0 : Charset
  g1 : Charset
  shift : Nat
deriving DecidableEq

/-- The setup of a new terminal. -/
def Setup.fresh (rows cols : Nat) : Setup where
  modes := {}
  scrollTop := 0
  scrollBot := rows - 1
  tabs := defaultTabs cols
  g0 := .ascii
  g1 := .ascii
  shift := 0

/-- A setup that control sequences can make. -/
structure Setup.Settled (rows : Nat) (s : Setup) : Prop where
  region : s.scrollTop < s.scrollBot ∨ s.scrollTop = 0 ∧ s.scrollBot = rows - 1
  shift : s.shift ≤ 1

/-- A setup with other modes. -/
def Setup.withModes (m : Modes) (s : Setup) : Setup :=
  { s with modes := m }

/-- The modes on the way from those of a new terminal to `m`: the first `k` that a dump writes. -/
def Modes.upTo (m : Modes) (k : Nat) (base : Modes) : Modes where
  origin := base.origin
  deccolm := base.deccolm
  allowDeccolm := base.allowDeccolm
  noClearOnDeccolm := base.noClearOnDeccolm
  cursorKeys := if 0 < k then m.cursorKeys else false
  autowrap := if 1 < k then m.autowrap else true
  reverseVideo := if 2 < k then m.reverseVideo else false
  autorepeat := if 3 < k then m.autorepeat else true
  cursorBlink := if 4 < k then m.cursorBlink else false
  bracketedPaste := if 5 < k then m.bracketedPaste else false
  focusReporting := if 6 < k then m.focusReporting else false
  alternateScroll := if 7 < k then m.alternateScroll else false
  synchronized := if 8 < k then m.synchronized else false
  insert := if 9 < k then m.insert else false
  lnm := if 10 < k then m.lnm else false
  keypadApp := if 11 < k then m.keypadApp else false
  mouseMode := if 12 < k then m.mouseMode else .none
  mouseProtocol := if 13 < k then m.mouseProtocol else .normal

namespace Terminal

variable {files : Files} {t t' u : Terminal} {text more : List Char} {rows cols : Nat}

def setup (t : Terminal) : Setup where
  modes := t.modes
  scrollTop := t.scrollTop
  scrollBot := t.scrollBot
  tabs := t.tabs
  g0 := t.cursor.g0
  g1 := t.cursor.g1
  shift := t.cursor.shift

/-- Where the cursor is, and the generation. -/
structure Place where
  row : Nat
  col : Nat
  pending : Bool
  generation : Nat

/-- Set up as `s`, with the cursor elsewhere. -/
def withSetup (s : Setup) (at_ : Place) (t : Terminal) : Terminal :=
  { t with
    modes := s.modes
    scrollTop := s.scrollTop
    scrollBot := s.scrollBot
    tabs := s.tabs
    cursor := { t.cursor with
      row := at_.row, col := at_.col, pendingWrap := at_.pending, g0 := s.g0, g1 := s.g1
      shift := s.shift }
    generation := at_.generation }

/-- A terminal of that size that reads `text` gets from setup `s` to `s'`; only its cursor moves
besides. -/
def Arranges (files : Files) (rows cols : Nat) (text : List Char) (s s' : Setup) : Prop :=
  ∀ t, t.rows = rows → t.cols = cols → t.setup = s → ∃ at_, Draws files text t (t.withSetup s' at_)

variable {s s' s'' : Setup}

namespace Arranges

theorem nil (s : Setup) : Arranges files rows cols [] s s := by
  rintro t - - rfl
  exact ⟨⟨t.cursor.row, t.cursor.col, t.cursor.pendingWrap, t.generation⟩, .literal rfl ⟨rfl, rfl⟩ rfl⟩

theorem append (h : Arranges files rows cols text s s') (h' : Arranges files rows cols more s' s'') :
    Arranges files rows cols (text ++ more) s s'' := by
  intro t height width own
  obtain ⟨at_, draws⟩ := h t height width own
  obtain ⟨at', draws'⟩ := h' (t.withSetup s' at_) height width rfl
  exact ⟨at', draws.append draws'⟩

/-- A fixed text, from any setup. -/
theorem literal {q : Parser} {actions : List Action} (f : Setup → Setup)
    (fed : Parser.feed (toUtf8 text) {} = .ok (q, actions)) (ready : q.Ready)
    (does : ∀ t : Terminal, ∃ row col pending g,
      t.acts files actions = .ok (t.withSetup (f t.setup) ⟨row, col, pending, g⟩)) (s : Setup) :
    Arranges files rows cols text s (f s) := by
  rintro t - - rfl
  obtain ⟨row, col, pending, g, eq⟩ := does t
  exact ⟨⟨row, col, pending, g⟩, .literal fed ready eq⟩

/-- What is written where a flag is to be set; where it is not, it is not set before. -/
theorem flag (put : Bool → Setup → Setup) (on : Bool) {set : String}
    (sets : ∀ s, Arranges files rows cols set.toList s (put true s)) (unset : put false s = s) :
    Arranges files rows cols (textIf on set) s (put on s) := by
  cases on with
  | true => exact sets s
  | false =>
    rw [unset]
    exact .nil s

/-- The same of what is set where the flag is not. -/
theorem unflag (put : Bool → Setup → Setup) (on : Bool) {reset : String}
    (resets : ∀ s, Arranges files rows cols reset.toList s (put false s)) (set : put true s = s) :
    Arranges files rows cols (textIf (!on) reset) s (put on s) := by
  cases on with
  | true =>
    rw [set]
    exact .nil s
  | false => exact resets s

end Arranges

/-! ### Flags -/

/-- A mouse mode, where there is none. -/
theorem arranges_mouseMode (mode : MouseMode) (unset : s.modes.mouseMode = .none) :
    Arranges files rows cols (dumpDecset mode.decset) s { s with modes.mouseMode := mode } := by
  cases mode with
  | none =>
    have same : s = { s with modes.mouseMode := .none } :=
      congrArg (fun mode => { s with modes.mouseMode := mode }) unset
    rw [← same]
    exact .nil s
  | x10 | normal | buttonEvent | anyEvent =>
    exact .literal (fun s => { s with modes.mouseMode := _ }) rfl ⟨rfl, rfl⟩
      (fun t => ⟨_, _, _, _, rfl⟩) s

/-- A mouse encoding other than the first one. -/
theorem arranges_mouseProtocol (protocol : MouseProtocol) (unset : s.modes.mouseProtocol = .normal) :
    Arranges files rows cols (dumpDecset protocol.decset) s { s with modes.mouseProtocol := protocol } := by
  cases protocol with
  | normal =>
    have same : s = { s with modes.mouseProtocol := .normal } :=
      congrArg (fun protocol => { s with modes.mouseProtocol := protocol }) unset
    rw [← same]
    exact .nil s
  | utf8 | sgr | sgrPixel =>
    exact .literal (fun s => { s with modes.mouseProtocol := _ }) rfl ⟨rfl, rfl⟩
      (fun t => ⟨_, _, _, _, rfl⟩) s

/-- The flags and the mouse modes, from a setup that has none of them. -/
theorem arranges_flags (m base : Modes) (s : Setup) :
    Arranges files rows cols
      (textIf m.cursorKeys "\x1b[?1h" ++ textIf (!m.autowrap) "\x1b[?7l" ++
        textIf m.reverseVideo "\x1b[?5h" ++ textIf (!m.autorepeat) "\x1b[?8l" ++
        textIf m.cursorBlink "\x1b[?12h" ++ textIf m.bracketedPaste "\x1b[?2004h" ++
        textIf m.focusReporting "\x1b[?1004h" ++ textIf m.alternateScroll "\x1b[?1007h" ++
        textIf m.synchronized "\x1b[?2026h" ++ textIf m.insert "\x1b[4h" ++ textIf m.lnm "\x1b[20h" ++
        textIf m.keypadApp "\x1b=" ++ dumpDecset m.mouseMode.decset ++
        dumpDecset m.mouseProtocol.decset) (s.withModes (m.upTo 0 base)) (s.withModes (m.upTo 14 base)) := by
  have cursorKeys : Arranges files rows cols (textIf m.cursorKeys "\x1b[?1h")
      (s.withModes (m.upTo 0 base)) (s.withModes (m.upTo 1 base)) :=
    .flag (fun on s => { s with modes.cursorKeys := on }) _
      (.literal _ rfl ⟨rfl, rfl⟩ fun t => ⟨_, _, _, _, rfl⟩) rfl
  have autowrap : Arranges files rows cols (textIf (!m.autowrap) "\x1b[?7l")
      (s.withModes (m.upTo 1 base)) (s.withModes (m.upTo 2 base)) :=
    .unflag (fun on s => { s with modes.autowrap := on }) _
      (.literal _ rfl ⟨rfl, rfl⟩ fun t => ⟨_, _, _, _, rfl⟩) rfl
  have reverseVideo : Arranges files rows cols (textIf m.reverseVideo "\x1b[?5h")
      (s.withModes (m.upTo 2 base)) (s.withModes (m.upTo 3 base)) :=
    .flag (fun on s => { s with modes.reverseVideo := on }) _
      (.literal _ rfl ⟨rfl, rfl⟩ fun t => ⟨_, _, _, _, rfl⟩) rfl
  have autorepeat : Arranges files rows cols (textIf (!m.autorepeat) "\x1b[?8l")
      (s.withModes (m.upTo 3 base)) (s.withModes (m.upTo 4 base)) :=
    .unflag (fun on s => { s with modes.autorepeat := on }) _
      (.literal _ rfl ⟨rfl, rfl⟩ fun t => ⟨_, _, _, _, rfl⟩) rfl
  have cursorBlink : Arranges files rows cols (textIf m.cursorBlink "\x1b[?12h")
      (s.withModes (m.upTo 4 base)) (s.withModes (m.upTo 5 base)) :=
    .flag (fun on s => { s with modes.cursorBlink := on }) _
      (.literal _ rfl ⟨rfl, rfl⟩ fun t => ⟨_, _, _, _, rfl⟩) rfl
  have bracketedPaste : Arranges files rows cols (textIf m.bracketedPaste "\x1b[?2004h")
      (s.withModes (m.upTo 5 base)) (s.withModes (m.upTo 6 base)) :=
    .flag (fun on s => { s with modes.bracketedPaste := on }) _
      (.literal _ rfl ⟨rfl, rfl⟩ fun t => ⟨_, _, _, _, rfl⟩) rfl
  have focusReporting : Arranges files rows cols (textIf m.focusReporting "\x1b[?1004h")
      (s.withModes (m.upTo 6 base)) (s.withModes (m.upTo 7 base)) :=
    .flag (fun on s => { s with modes.focusReporting := on }) _
      (.literal _ rfl ⟨rfl, rfl⟩ fun t => ⟨_, _, _, _, rfl⟩) rfl
  have alternateScroll : Arranges files rows cols (textIf m.alternateScroll "\x1b[?1007h")
      (s.withModes (m.upTo 7 base)) (s.withModes (m.upTo 8 base)) :=
    .flag (fun on s => { s with modes.alternateScroll := on }) _
      (.literal _ rfl ⟨rfl, rfl⟩ fun t => ⟨_, _, _, _, rfl⟩) rfl
  have synchronized : Arranges files rows cols (textIf m.synchronized "\x1b[?2026h")
      (s.withModes (m.upTo 8 base)) (s.withModes (m.upTo 9 base)) :=
    .flag (fun on s => { s with modes.synchronized := on }) _
      (.literal _ rfl ⟨rfl, rfl⟩ fun t => ⟨_, _, _, _, rfl⟩) rfl
  have insert : Arranges files rows cols (textIf m.insert "\x1b[4h")
      (s.withModes (m.upTo 9 base)) (s.withModes (m.upTo 10 base)) :=
    .flag (fun on s => { s with modes.insert := on }) _
      (.literal _ rfl ⟨rfl, rfl⟩ fun t => ⟨_, _, _, _, rfl⟩) rfl
  have lnm : Arranges files rows cols (textIf m.lnm "\x1b[20h")
      (s.withModes (m.upTo 10 base)) (s.withModes (m.upTo 11 base)) :=
    .flag (fun on s => { s with modes.lnm := on }) _
      (.literal _ rfl ⟨rfl, rfl⟩ fun t => ⟨_, _, _, _, rfl⟩) rfl
  have keypadApp : Arranges files rows cols (textIf m.keypadApp "\x1b=")
      (s.withModes (m.upTo 11 base)) (s.withModes (m.upTo 12 base)) :=
    .flag (fun on s => { s with modes.keypadApp := on }) _
      (.literal _ rfl ⟨rfl, rfl⟩ fun t => ⟨_, _, _, _, rfl⟩) rfl
  have mouseMode : Arranges files rows cols (dumpDecset m.mouseMode.decset)
      (s.withModes (m.upTo 12 base)) (s.withModes (m.upTo 13 base)) :=
    arranges_mouseMode m.mouseMode rfl
  have mouseProtocol : Arranges files rows cols (dumpDecset m.mouseProtocol.decset)
      (s.withModes (m.upTo 13 base)) (s.withModes (m.upTo 14 base)) :=
    arranges_mouseProtocol m.mouseProtocol rfl
  have keys := ((cursorKeys.append autowrap).append reverseVideo).append autorepeat
  have reports := ((((keys.append cursorBlink).append bracketedPaste).append focusReporting).append
    alternateScroll).append synchronized
  exact ((((reports.append insert).append lnm).append keypadApp).append mouseMode).append mouseProtocol

/-! ### Character sets -/

/-- The sets and the shift, from those of a new terminal; the second set may be there before. -/
theorem arranges_dumpCharsets (u : Terminal) (g0 : s.g0 = .ascii)
    (g1 : s.g1 = .ascii ∨ s.g1 = u.cursor.g1) (shift : s.shift = 0) (valid : u.cursor.shift ≤ 1) :
    Arranges files rows cols u.dumpCharsets s
      { s with g0 := u.cursor.g0, g1 := u.cursor.g1, shift := u.cursor.shift } := by
  obtain ⟨modes, top, bot, tabs, _, set, _⟩ := s
  subst g0 shift
  let at_ (g0 g1 : Charset) (shift : Nat) : Setup := ⟨modes, top, bot, tabs, g0, g1, shift⟩
  have shifted (g0 g1 : Charset) : Arranges files rows cols (textIf (u.cursor.shift == 1) "\x0e")
      (at_ g0 g1 0) (at_ g0 g1 u.cursor.shift) := by
    obtain none | one : u.cursor.shift = 0 ∨ u.cursor.shift = 1 := by omega
    · rw [none]
      exact .nil _
    · rw [one]
      exact .literal (fun s => { s with shift := 1 }) rfl ⟨rfl, rfl⟩ (fun t => ⟨_, _, _, _, rfl⟩) _
  unfold dumpCharsets
  refine ((?first : Arranges files rows cols _ (at_ .ascii set 0) (at_ u.cursor.g0 set 0)).append
    (?second : Arranges files rows cols _ _ (at_ u.cursor.g0 u.cursor.g1 0))).append (shifted _ _)
  case first =>
    cases u.cursor.g0 with
    | ascii => exact .nil _
    | decSpecial | uk =>
      exact .literal (fun s => { s with g0 := _ }) rfl ⟨rfl, rfl⟩ (fun t => ⟨_, _, _, _, rfl⟩) _
  case second =>
    cases second : u.cursor.g1 with
    | ascii =>
      have same : set = .ascii := g1.elim id fun same => same.trans second
      rw [same]
      exact .nil _
    | decSpecial | uk =>
      exact .literal (fun s => { s with g1 := _ }) rfl ⟨rfl, rfl⟩ (fun t => ⟨_, _, _, _, rfl⟩) _

/-! ### Region and tab stops -/

theorem region_eq (t : Terminal) (tall : 0 < t.rows) :
    t.region = .ok (min t.scrollTop (t.rows - 1), min t.scrollBot (t.rows - 1)) := by
  unfold region
  rw [sub_eq_ok tall]
  rfl

/-- Where CUP leads. -/
theorem moveTo_eq (row col : Nat) (t : Terminal) (tall : 0 < t.rows) (wide : 0 < t.cols) :
    t.moveTo row col = .ok { t with
      cursor.row := if t.modes.origin then
        min (satAdd 16 (min t.scrollTop (t.rows - 1)) row) (min t.scrollBot (t.rows - 1))
        else min row (t.rows - 1)
      cursor.col := min col (t.cols - 1)
      cursor.pendingWrap := false }.touch := by
  unfold moveTo lastRow lastCol
  rw [region_eq t tall, sub_eq_ok tall, sub_eq_ok wide]
  rfl

theorem home_eq (t : Terminal) (tall : 0 < t.rows) (wide : 0 < t.cols)
    (origin : t.modes.origin = false) :
    t.moveTo 0 0 =
      .ok { t with cursor.row := 0, cursor.col := 0, cursor.pendingWrap := false }.touch := by
  rw [moveTo_eq 0 0 t tall wide, origin, if_neg Bool.false_ne_true, Nat.zero_min, Nat.zero_min]

/-- The parameters of a sequence are the numbers written. -/
theorem paramOr_pair (a b default : Nat) :
    paramOr [[a + 1], [b + 1]] 0 default = a + 1 ∧ paramOr [[a + 1], [b + 1]] 1 default = b + 1 :=
  ⟨rfl, rfl⟩

/-- A control sequence with two numbers. -/
theorem draws_pair {a b : Nat} {final : Char} (a_lt : a < 65535) (b_lt : b < 65535)
    (isFinal : 0x40 ≤ final.toNat ∧ final.toNat ≤ 0x7E)
    (does : t.csiPlain [[a + 1], [b + 1]] final = .ok t') :
    Draws files ("\x1b[".toList ++ decimal (a + 1) ++ ";".toList ++ decimal (b + 1) ++ [final]) t t' := by
  have params := params_append (paramChar_decimal (a + 1)) (params_append
    (show ∀ c ∈ ";".toList, IsParamChar c from forall_of_all rfl) (paramChar_decimal (b + 1)))
  have draws : Draws files ("\x1b[".toList ++ (decimal (a + 1) ++ (";".toList ++ decimal (b + 1))) ++
      [final]) t t' := .csi params isFinal (Parser.paramsOf_pair a_lt b_lt) does
  simpa only [List.append_assoc] using draws

/-- CUP to a cell. -/
theorem draws_position {row col : Nat} (row_lt : row < 65535) (col_lt : col < 65535)
    (does : t.moveTo row col = .ok t') : Draws files (emitPosition (row + 1) (col + 1)) t t' := by
  refine draws_pair row_lt col_lt (by decide) ?_
  change t.cursorPosition _ = _
  unfold cursorPosition
  rw [(paramOr_pair row col 1).1, (paramOr_pair row col 1).2, sub_eq_ok (Nat.le_add_left 1 row),
    sub_eq_ok (Nat.le_add_left 1 col)]
  exact does

/-- The text of a region that is not the whole grid. -/
theorem arranges_region {top bot : Nat} (ordered : top < bot) (bot_lt : bot < rows)
    (tall : rows < 65536) (wide : 0 < cols) (origin : s.modes.origin = false) :
    Arranges files rows cols
      ("\x1b[".toList ++ decimal (top + 1) ++ ";".toList ++ decimal (bot + 1) ++ "r".toList) s
      { s with scrollTop := top, scrollBot := bot } := by
  rintro t rfl rfl rfl
  have home := home_eq { t with scrollTop := top, scrollBot := bot } (show 0 < t.rows by omega) wide origin
  refine ⟨⟨0, 0, false, t.generation + 1⟩, draws_pair (by omega) (by omega) (by decide) ?_⟩
  have inside : min bot (t.rows - 1) = bot := by omega
  change t.setRegion _ = _
  unfold setRegion lastRow
  rw [(paramOr_pair top bot _).1, (paramOr_pair top bot _).2, sub_eq_ok (Nat.le_add_left 1 top),
    sub_eq_ok (Nat.le_add_left 1 bot), sub_eq_ok (show 1 ≤ t.rows by omega)]
  change (if top < min bot (t.rows - 1) then
    { t with scrollTop := top, scrollBot := min bot (t.rows - 1) }.moveTo 0 0 else Except.ok t) = _
  rw [inside, if_pos ordered]
  exact home

/-- Origin mode, from a terminal without it. -/
theorem arranges_origin (on : Bool) (tall : 0 < rows) (wide : 0 < cols) (unset : s.modes.origin = false) :
    Arranges files rows cols (textIf on "\x1b[?6h") s { s with modes.origin := on } := by
  cases on with
  | false =>
    have same : s = { s with modes.origin := false } :=
      congrArg (fun origin => { s with modes.origin := origin }) unset
    rw [← same]
    exact .nil s
  | true =>
    rintro t rfl rfl rfl
    have moved := moveTo_eq 0 0 { t with modes.origin := true } tall wide
    refine ⟨⟨min (satAdd 16 (min t.scrollTop (t.rows - 1)) 0) (min t.scrollBot (t.rows - 1)),
      min 0 (t.cols - 1), false, t.generation + 1 + 1⟩, .literal rfl ⟨rfl, rfl⟩ ?_⟩
    change (({ t with modes.origin := true }.moveTo 0 0 >>= _) >>= _) >>= _ = _
    rw [moved]
    rfl

theorem draws_setTab (t : Terminal) : Draws files "\x1bH".toList t (t.setTab true) :=
  .literal rfl ⟨rfl, rfl⟩ rfl

/-- A tab stop at a column, whatever row the cursor goes to. -/
theorem arranges_tabStop {col : Nat} (inside : col < cols) (col_lt : cols < 65536) (tall : 0 < rows) :
    Arranges files rows cols (emitPosition 1 (col + 1) ++ "\x1bH".toList) s
      { s with tabs := s.tabs.set col true } := by
  rintro t rfl rfl rfl
  have wide : 0 < t.cols := Nat.zero_lt_of_lt inside
  have there : min col (t.cols - 1) = col := by omega
  have moved := moveTo_eq 0 col t tall wide
  rw [there] at moved
  exact ⟨⟨_, col, false, t.generation + 1⟩,
    (draws_position (show 0 < 65535 by decide) (by omega) moved).append (draws_setTab _)⟩

theorem set_append_replicate {done : List Bool} {n : Nat} (on : Bool) :
    (done ++ List.replicate (n + 1) false).set done.length on =
      done ++ on :: List.replicate n false := by
  rw [List.set_append_right _ _ (Nat.le_refl _), Nat.sub_self]
  rfl

/-- The stops from some column on, where there is none. -/
theorem arranges_dumpTabStops {tabs done : List Bool} (length : done.length + tabs.length = cols)
    (col_lt : cols < 65536) (tall : 0 < rows)
    (none : s.tabs = done ++ List.replicate tabs.length false) :
    Arranges files rows cols (dumpTabStops done.length tabs) s { s with tabs := done ++ tabs } := by
  induction tabs generalizing done s with
  | nil =>
    have same : { s with tabs := done ++ [] } = s := by
      rw [show done ++ [] = s.tabs from none.symm]
    rw [same]
    exact .nil s
  | cons tab rest ih =>
    rw [List.length_cons] at length
    have next : done ++ tab :: rest = (done ++ [tab]) ++ rest := by
      rw [List.append_assoc]
      rfl
    have count : (done ++ [tab]).length = done.length + 1 := List.length_append
    have first : Arranges files rows cols
        (if tab then emitPosition 1 (done.length + 1) ++ "\x1bH".toList else []) s
          { s with tabs := (done ++ [tab]) ++ List.replicate rest.length false } := by
      have stays : done ++ List.replicate (rest.length + 1) false =
          (done ++ [false]) ++ List.replicate rest.length false := by
        rw [List.append_assoc]
        rfl
      cases tab with
      | false =>
        have same : { s with tabs := (done ++ [false]) ++ List.replicate rest.length false } = s := by
          rw [← stays]
          exact congrArg (fun tabs => { s with tabs }) none.symm
        rw [same]
        exact .nil s
      | true =>
        have set : s.tabs.set done.length true = (done ++ [true]) ++ List.replicate rest.length false := by
          rw [none, List.length_cons, set_append_replicate, List.append_assoc]
          rfl
        rw [← set]
        exact arranges_tabStop (by omega) col_lt tall
    have later : Arranges files rows cols (dumpTabStops (done ++ [tab]).length rest)
        { s with tabs := (done ++ [tab]) ++ List.replicate rest.length false }
        { s with tabs := (done ++ [tab]) ++ rest } :=
      ih (by rw [count]; omega) rfl
    rw [next]
    rw [count] at later
    exact first.append later

theorem map_false (tabs : List Bool) : tabs.map (fun _ => false) = List.replicate tabs.length false :=
  List.map_const' ..

/-- The tab stops, from the default ones. -/
theorem arranges_dumpTabs (u : Terminal) (length : u.tabs.length = cols) (col_lt : cols < 65536)
    (tall : 0 < rows) (usual : s.tabs = defaultTabs cols) :
    Arranges files rows cols u.dumpTabs s { s with tabs := u.tabs } := by
  unfold dumpTabs
  split
  · rename_i same
    rw [length, ← usual] at same
    rw [same]
    exact .nil s
  · have cleared : Arranges files rows cols "\x1b[3g".toList s
        { s with tabs := s.tabs.map fun _ => false } :=
      .literal (fun s => { s with tabs := s.tabs.map fun _ => false }) rfl ⟨rfl, rfl⟩
        (fun t => ⟨_, _, _, _, rfl⟩) s
    refine cleared.append ?_
    have none : s.tabs.map (fun _ => false) = [] ++ List.replicate u.tabs.length false := by
      rw [map_false, usual, length]
      unfold defaultTabs
      rw [List.length_map, List.length_range, List.nil_append]
    have done : ([] : List Bool).length + u.tabs.length = cols := by
      rw [List.length_nil, Nat.zero_add, length]
    exact arranges_dumpTabStops done col_lt tall none

/-! ### The DECCOLM family -/

/-- 132 columns for a terminal that has as many: the resize does nothing, and what is shown is kept. -/
theorem arranges_columns (wide : cols = 132) (tall : 0 < rows) (allowed : s.modes.allowDeccolm = true)
    (kept : s.modes.noClearOnDeccolm = true) (top : s.scrollTop = 0) (bot : s.scrollBot = rows - 1) :
    Arranges files rows cols "\x1b[?3h".toList s { s with modes.deccolm := true } := by
  rintro t rfl width rfl
  have allowed : t.modes.allowDeccolm = true := allowed
  have kept : t.modes.noClearOnDeccolm = true := kept
  have top : 0 = t.scrollTop := top.symm
  have bot : t.rows - 1 = t.scrollBot := bot.symm
  let noted : Terminal := { t with modes.deccolm := true }
  have resized : noted.resize t.rows 132 = .ok noted :=
    if_pos ⟨Nat.max_eq_left tall, (show max 132 1 = t.cols by omega)⟩
  have whole : noted.wholeRegion = .ok noted := by
    unfold wholeRegion lastRow
    rw [sub_eq_ok (show 1 ≤ noted.rows from tall)]
    change Except.ok { noted with scrollTop := 0, scrollBot := t.rows - 1 } = _
    rw [top, bot]
  have does : t.setDeccolm true =
      .ok { noted with cursor.row := 0, cursor.col := 0, cursor.pendingWrap := false }.touch := by
    unfold setDeccolm
    rw [allowed]
    change (noted.resize t.rows 132 >>= _) = _
    rw [resized]
    change (noted.wholeRegion >>= _) = _
    rw [whole]
    change ((if t.modes.noClearOnDeccolm then (pure noted : Checked Terminal) else _) >>= _) = _
    rw [kept, if_pos rfl]
    rfl
  refine ⟨⟨0, 0, false, t.generation + 1 + 1⟩, .literal rfl ⟨rfl, rfl⟩ ?_⟩
  change ((t.setDeccolm true >>= _) >>= _) >>= _ = _
  rw [does]
  rfl

/-- The family, from a terminal with none of it. The mode itself is set only where the width is
that of the mode. -/
theorem arranges_dumpDeccolm (u : Terminal) (width : u.cols = cols) (tall : 0 < rows)
    (fresh : s.modes = {}) (top : s.scrollTop = 0) (bot : s.scrollBot = rows - 1) :
    Arranges files rows cols u.dumpDeccolm s { s with
      modes.allowDeccolm := u.modes.allowDeccolm
      modes.deccolm := u.modes.deccolm && u.cols == 132
      modes.noClearOnDeccolm := u.modes.noClearOnDeccolm } := by
  obtain ⟨modes, _, _, tabs, g0, g1, shift⟩ := s
  subst fresh top bot
  let at_ (allow wide keep : Bool) : Setup :=
    ⟨{ allowDeccolm := allow, deccolm := wide, noClearOnDeccolm := keep }, 0, rows - 1, tabs, g0, g1, shift⟩
  have allowing (allow : Bool) : Arranges files rows cols (textIf allow "\x1b[?40h")
      (at_ false false false) (at_ allow false false) :=
    .flag (fun on s => { s with modes.allowDeccolm := on }) allow
      (.literal _ rfl ⟨rfl, rfl⟩ fun t => ⟨_, _, _, _, rfl⟩) rfl
  have keeping (allow keep : Bool) : Arranges files rows cols (textIf keep "\x1b[?95h")
      (at_ allow false false) (at_ allow false keep) :=
    .flag (fun on s => { s with modes.noClearOnDeccolm := on }) keep
      (.literal _ rfl ⟨rfl, rfl⟩ fun t => ⟨_, _, _, _, rfl⟩) rfl
  have columns (wide : u.cols = 132) (keep : Bool) : Arranges files rows cols
      ("\x1b[?95h\x1b[?3h".toList ++ textIf (!keep) "\x1b[?95l") (at_ true false false)
      (at_ true true keep) := by
    have kept : Arranges files rows cols "\x1b[?95h".toList (at_ true false false) (at_ true false true) :=
      keeping true true
    have switched : Arranges files rows cols "\x1b[?3h".toList (at_ true false true) (at_ true true true) :=
      arranges_columns (width ▸ wide) tall rfl rfl rfl rfl
    refine (kept.append switched).append ?_
    exact .unflag (fun on s => { s with modes.noClearOnDeccolm := on }) keep
      (.literal _ rfl ⟨rfl, rfl⟩ fun t => ⟨_, _, _, _, rfl⟩) rfl
  have disallowing (allow wide keep : Bool) : Arranges files rows cols (textIf (!allow) "\x1b[?40l")
      (at_ true wide keep) (at_ allow wide keep) :=
    .unflag (fun on s => { s with modes.allowDeccolm := on }) allow
      (.literal _ rfl ⟨rfl, rfl⟩ fun t => ⟨_, _, _, _, rfl⟩) rfl
  unfold dumpDeccolm
  cases wide : u.modes.deccolm with
  | false =>
    rw [Bool.or_false]
    exact ((allowing _).append (keeping _ _)).append (.nil _)
  | true =>
    rw [Bool.or_true]
    refine ((allowing true).append ?_).append (disallowing _ _ _)
    by_cases same : u.cols = 132
    · rw [same]
      exact columns same _
    · have other : (u.cols == 132) = false := beq_eq_false_iff_ne.mpr same
      rw [other]
      exact keeping _ _

/-! ### The keyboard stack -/

theorem draws_push {flags : UInt8} (t : Terminal) :
    Draws files ("\x1b[>".toList ++ decimal flags.toNat ++ "u".toList) t
      (t.modifyKitty (·.push flags)) := by
  have small : flags.toNat ≤ 65535 := by
    have lt := flags.toNat_lt
    omega
  have spelled : Parser.paramsOf (toUtf8 (decimal flags.toNat)) = [[flags.toNat]] := by
    have read := Parser.paramsOf_number small .nil (show 0 < MAX_PARAMS by decide)
    rwa [List.append_nil] at read
  have bytes := paramBytes (paramChar_decimal flags.toNat)
  have reads : Parser.Reads (toUtf8 ("\x1b[>".toList ++ decimal flags.toNat ++ "u".toList))
      [.csi [[flags.toNat]] [] 0x3E 0x75] := by
    rw [toUtf8_append, toUtf8_append, List.append_assoc, ← spelled]
    exact (@Parser.continues_csiMarked _ 0x3E _ (by decide) bytes (by decide) (by decide)).reads
  refine .one reads ?_
  change Except.ok (t.modifyKitty (·.push (UInt8.ofNat flags.toNat))) = _
  rw [UInt8.ofNat_toNat]

/-- A stack that pushes make: not too long, and with no bits but those of the flags. -/
structure Pushed (k : KittyKeyStack) : Prop where
  few : k.stack.length ≤ KittyKeyStack.MAX_STACK
  masked : ∀ flags ∈ k.stack, flags &&& 0x1f = flags

theorem modifyKitty_modifyKitty (f g : KittyKeyStack → KittyKeyStack) (t : Terminal) :
    (t.modifyKitty f).modifyKitty g = t.modifyKitty fun k => g (f k) := by
  unfold modifyKitty
  split <;> rfl

/-- The entries pushed one after the other. -/
theorem draws_pushes {entries : List UInt8} {below : List UInt8} (pushed : Pushed ⟨below ++ entries⟩)
    (at_ : t.kittyStack = ⟨below⟩) :
    Draws files (entries.flatMap fun f => "\x1b[>".toList ++ decimal f.toNat ++ "u".toList) t
      (t.modifyKitty fun _ => ⟨below ++ entries⟩) := by
  induction entries generalizing below t with
  | nil =>
    have same : (t.modifyKitty fun _ => ⟨below ++ []⟩) = t := by
      rw [List.append_nil, ← at_]
      unfold modifyKitty kittyStack
      split <;> rfl
    rw [same]
    exact .literal rfl ⟨rfl, rfl⟩ rfl
  | cons flags rest ih =>
    have room : ¬ below.length ≥ KittyKeyStack.MAX_STACK := by
      have few := pushed.few
      rw [List.length_append, List.length_cons] at few
      omega
    have push : KittyKeyStack.push flags ⟨below⟩ = ⟨below ++ [flags]⟩ := by
      unfold KittyKeyStack.push
      dsimp only
      rw [if_neg room, pushed.masked flags (List.mem_append_right _ List.mem_cons_self)]
    have next : below ++ flags :: rest = (below ++ [flags]) ++ rest := by
      rw [List.append_assoc]
      rfl
    have stack : (t.modifyKitty (·.push flags)).kittyStack = ⟨below ++ [flags]⟩ := by
      rw [← push, ← at_]
      unfold modifyKitty kittyStack
      split <;> rfl
    have later := ih (t := t.modifyKitty (·.push flags)) (next ▸ pushed) stack
    rw [modifyKitty_modifyKitty, ← next] at later
    rw [List.flatMap_cons]
    exact (draws_push t).append later

/-- The stack over an empty one. -/
theorem draws_dumpKitty {k : KittyKeyStack} (pushed : Pushed k) (empty : t.kittyStack = {}) :
    Draws files (dumpKitty k) t (t.modifyKitty fun _ => k) := by
  have pushed : Pushed ⟨[] ++ k.entries⟩ := pushed
  exact draws_pushes pushed empty

/-! ### All modes -/

/-- The setup that a dump brings back. DECCOLM stays unset where the width is not 132. -/
def dumpedSetup (u : Terminal) : Setup :=
  u.setup.withModes { u.modes with
    deccolm := u.modes.deccolm && u.cols == 132, cursorVisible := true }

theorem dumpRegion_eq {K : Parser → GraphicsState → Prop} (sound : u.Sound K rows cols) :
    u.dumpRegion = .ok (if u.scrollTop ≠ 0 ∨ u.scrollBot ≠ rows - 1 then
      "\x1b[".toList ++ decimal (u.scrollTop + 1) ++ ";".toList ++ decimal (u.scrollBot + 1) ++ "r".toList
      else []) := by
  have ordered : u.scrollTop ≤ u.scrollBot := sound.ordered
  have bot_lt : u.scrollBot < rows := sound.bot_lt
  have small := sound.rows_small
  have top : min u.scrollTop (rows - 1) = u.scrollTop := by omega
  have bot : min u.scrollBot (rows - 1) = u.scrollBot := by omega
  unfold dumpRegion lastRow
  rw [region_eq u (by rw [sound.rows_eq]; omega), sound.rows_eq, sub_eq_ok (show 1 ≤ rows by omega), top, bot]
  change (if u.scrollTop ≠ 0 ∨ u.scrollBot ≠ rows - 1 then _ else _) = _
  split
  · rw [add_eq_ok (by omega), add_eq_ok (by omega)]
    rfl
  · rfl

/-- The region, over the whole grid. -/
theorem arranges_dumpRegion {K : Parser → GraphicsState → Prop} (sound : u.Sound K rows cols)
    (settled : u.setup.Settled rows) (top : s.scrollTop = 0) (bot : s.scrollBot = rows - 1)
    (origin : s.modes.origin = false) :
    Arranges files rows cols (if u.scrollTop ≠ 0 ∨ u.scrollBot ≠ rows - 1 then
      "\x1b[".toList ++ decimal (u.scrollTop + 1) ++ ";".toList ++ decimal (u.scrollBot + 1) ++ "r".toList
      else []) s { s with scrollTop := u.scrollTop, scrollBot := u.scrollBot } := by
  have bot_lt : u.scrollBot < rows := sound.bot_lt
  split
  · rename_i partly
    have ordered : u.scrollTop < u.scrollBot := settled.region.resolve_right fun whole =>
      partly.elim (fun top => top whole.1) (fun bot => bot whole.2)
    exact arranges_region ordered bot_lt sound.rows_small (Nat.zero_lt_of_lt sound.col_lt) origin
  · rename_i whole
    obtain ⟨top', bot'⟩ : u.scrollTop = 0 ∧ u.scrollBot = rows - 1 := by omega
    have same : { s with scrollTop := u.scrollTop, scrollBot := u.scrollBot } = s := by
      rw [top', bot', ← top, ← bot]
    rw [same]
    exact .nil s

/-- The modes of a dump bring a new terminal to the setup of the terminal it is of. -/
theorem arranges_dumpModes {K : Parser → GraphicsState → Prop} (sound : u.Sound K rows cols)
    (settled : u.setup.Settled rows) : ∃ text, u.dumpModes = .ok (text ++ dumpKitty u.kittyStack) ∧
      Arranges files rows cols text (.fresh rows cols) u.dumpedSetup := by
  have tall : 0 < rows := Nat.zero_lt_of_lt sound.bot_lt
  have width : u.cols = cols := sound.cols_eq
  let base : Modes := { u.modes with deccolm := u.modes.deccolm && u.cols == 132 }
  let columned : Modes := { base with origin := false }
  let start : Setup := ⟨u.modes.upTo 0 columned, 0, rows - 1, defaultTabs cols, .ascii, .ascii, 0⟩
  let regional : Setup := { start with scrollTop := u.scrollTop, scrollBot := u.scrollBot }
  let tabbed : Setup := { regional with modes := u.modes.upTo 0 base, tabs := u.tabs }
  have columns : Arranges files rows cols u.dumpDeccolm (.fresh rows cols) start :=
    arranges_dumpDeccolm u width tall rfl rfl rfl
  have region : Arranges files rows cols (if u.scrollTop ≠ 0 ∨ u.scrollBot ≠ rows - 1 then
      "\x1b[".toList ++ decimal (u.scrollTop + 1) ++ ";".toList ++ decimal (u.scrollBot + 1) ++ "r".toList
      else []) start regional :=
    arranges_dumpRegion sound settled rfl rfl rfl
  have origin : Arranges files rows cols (textIf u.modes.origin "\x1b[?6h") regional
      { regional with modes := u.modes.upTo 0 base } :=
    arranges_origin u.modes.origin tall (Nat.zero_lt_of_lt sound.col_lt) rfl
  have tabs : Arranges files rows cols u.dumpTabs { regional with modes := u.modes.upTo 0 base } tabbed :=
    arranges_dumpTabs u sound.tabs sound.cols_small tall rfl
  have charsets : Arranges files rows cols u.dumpCharsets tabbed
      { u.setup with modes := u.modes.upTo 0 base } :=
    arranges_dumpCharsets u rfl (.inl rfl) rfl settled.shift
  have flags : Arranges files rows cols _ (u.setup.withModes (u.modes.upTo 0 base)) u.dumpedSetup :=
    arranges_flags u.modes base u.setup
  refine ⟨_, ?_, ((((columns.append region).append origin).append tabs).append charsets).append flags⟩
  unfold dumpModes
  rw [dumpRegion_eq sound]
  change Except.ok _ = Except.ok _
  simp only [List.append_assoc]

end Terminal

end Posh.Term
