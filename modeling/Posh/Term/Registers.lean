import Posh.Term.Process
import Posh.Term.Rows
import Posh.Term.Texts

/-!
What a control does beside the grid.

The registers of a terminal are its parser, its title, its modes (origin mode aside,
which a restored cursor brings back) and the mark of a screen switch. What an action
does to them depends on the action and on them alone. The same pass shows that the
grid, the links and the repeated character never come to hold a control character.
-/

namespace Posh.Term

open Posh.Lib

/-! ### Registers -/

/-- The kitty keyboard stacks, and which of them is in force. -/
structure Keyboard where
  primary : KittyKeyStack := {}
  alt : KittyKeyStack := {}
  altActive : Bool := false
deriving DecidableEq, Repr

namespace Keyboard

/-- The stack of the active screen. -/
def active (k : Keyboard) : KittyKeyStack :=
  if k.altActive then k.alt else k.primary

def modify (f : KittyKeyStack → KittyKeyStack) (k : Keyboard) : Keyboard :=
  if k.altActive then { k with alt := f k.alt } else { k with primary := f k.primary }

end Keyboard

structure Registers where
  parser : Parser
  title : List Char
  /-- With origin mode reset. -/
  modes : Modes
  keyboard : Keyboard
  screenSwitch : Option ScreenSwitch
deriving DecidableEq, Repr

namespace Modes

def withoutOrigin (m : Modes) : Modes :=
  { m with origin := false }

/-- DECSET and DECRST of one mode. -/
def afterDec (n : Nat) (set : Bool) (m : Modes) : Modes :=
  match n with
  | 1 => { m with cursorKeys := set }
  | 3 => if m.allowDeccolm then { m with deccolm := set } else m
  | 5 => { m with reverseVideo := set }
  | 7 => { m with autowrap := set }
  | 8 => { m with autorepeat := set }
  | 9 => { m with mouseMode := Terminal.mouseModeIf set .x10 }
  | 12 => { m with cursorBlink := set }
  | 25 => { m with cursorVisible := set }
  | 40 => { m with allowDeccolm := set }
  | 95 => { m with noClearOnDeccolm := set }
  | 66 => { m with keypadApp := set }
  | 1000 => { m with mouseMode := Terminal.mouseModeIf set .normal }
  | 1002 => { m with mouseMode := Terminal.mouseModeIf set .buttonEvent }
  | 1003 => { m with mouseMode := Terminal.mouseModeIf set .anyEvent }
  | 1004 => { m with focusReporting := set }
  | 1007 => { m with alternateScroll := set }
  | 1005 => { m with mouseProtocol := Terminal.mouseProtocolIf set .utf8 }
  | 1006 => { m with mouseProtocol := Terminal.mouseProtocolIf set .sgr }
  | 1016 => { m with mouseProtocol := Terminal.mouseProtocolIf set .sgrPixel }
  | 2004 => { m with bracketedPaste := set }
  | 2026 => { m with synchronized := set }
  | _ => m

/-- SM and RM of one mode. -/
def afterAnsi (n : Nat) (set : Bool) (m : Modes) : Modes :=
  match n with
  | 4 => { m with insert := set }
  | 20 => { m with lnm := set }
  | _ => m

/-- DECSTR -/
def afterSoftReset (m : Modes) : Modes :=
  { m with
    cursorVisible := true, insert := false, autowrap := false, cursorKeys := false,
    keypadApp := false }

end Modes

/-- The modes of DECSET that switch screens. -/
def IsScreenMode (n : Nat) : Prop :=
  n = 47 ∨ n = 1047 ∨ n = 1049

instance : DecidablePred IsScreenMode :=
  fun n => inferInstanceAs (Decidable (n = 47 ∨ n = 1047 ∨ n = 1049))

namespace Registers

def afterDec (n : Nat) (set : Bool) (r : Registers) : Registers :=
  { r with
    modes := r.modes.afterDec n set
    keyboard := if IsScreenMode n then { r.keyboard with altActive := set } else r.keyboard
    screenSwitch := if IsScreenMode n then some .alt else r.screenSwitch }

theorem afterDec_deccolm (set : Bool) (r : Registers) :
    r.afterDec 3 set =
      { r with modes := if r.modes.allowDeccolm then { r.modes with deccolm := set } else r.modes } :=
  rfl

def afterDecs (params : Params) (set : Bool) (r : Registers) : Registers :=
  params.foldl (fun r p => r.afterDec (firstPart p) set) r

def afterAnsis (params : Params) (set : Bool) (r : Registers) : Registers :=
  { r with modes := params.foldl (fun m p => m.afterAnsi (firstPart p) set) r.modes }

/-- A sequence without marker and intermediates. -/
def afterPlain (params : Params) (final : Char) (r : Registers) : Registers :=
  match final with
  | 'h' => r.afterAnsis params true
  | 'l' => r.afterAnsis params false
  | _ => r

/-- A sequence with the private marker `?`. -/
def afterQuestion (params : Params) (final : Char) (r : Registers) : Registers :=
  match final with
  | 'h' => r.afterDecs params true
  | 'l' => r.afterDecs params false
  | _ => r

/-- A sequence with another private marker: pushes, pops and sets of keyboard flags. -/
def afterMarked (params : Params) (marker final : Char) (r : Registers) : Registers :=
  match marker, final with
  | '>', 'u' => { r with
      keyboard := r.keyboard.modify (·.push (UInt8.ofNat (param params 0 0))) }
  | '<', 'u' => { r with keyboard := r.keyboard.modify (·.pop (paramOr params 0 1)) }
  | '=', 'u' => { r with
      keyboard :=
        r.keyboard.modify (·.set (UInt8.ofNat (param params 0 0)) (paramOr params 1 1)) }
  | _, _ => r

/-- A sequence with an intermediate byte. -/
def afterWith (intermediate final : Char) (r : Registers) : Registers :=
  match intermediate, final with
  | '!', 'p' => { r with
      modes := r.modes.afterSoftReset, keyboard := r.keyboard.modify (·.reset) }
  | _, _ => r

def afterCsi (params : Params) (intermediates : Bytes) (marker finalByte : UInt8)
    (r : Registers) : Registers :=
  let final := Char.ofNat finalByte.toNat
  match intermediates.head?.map fun i => Char.ofNat i.toNat with
  | none =>
      match Char.ofNat marker.toNat with
      | '\x00' => r.afterPlain params final
      | '?' => r.afterQuestion params final
      | m => r.afterMarked params m final
  | some i =>
      match Char.ofNat marker.toNat, i with
      | '\x00', i => r.afterWith i final
      | _, _ => r

def afterEsc (intermediates : Bytes) (finalByte : UInt8) (r : Registers) : Registers :=
  match intermediates, Char.ofNat finalByte.toNat with
  | [], 'c' => { r with modes := {}, keyboard := {}, screenSwitch := some .reset }
  | [], '=' => { r with modes.keypadApp := true }
  | [], '>' => { r with modes.keypadApp := false }
  | _, _ => r

def afterOsc (data : Bytes) (r : Registers) : Registers :=
  let s := fromUtf8Lossy data
  let (code, rest) := (splitOnce ';' s).getD (s, [])
  match parseU16 code with
  | some 0 => { r with title := rest }
  | some 2 => { r with title := rest }
  | _ => r

/-- What one action does to the registers. -/
def after (r : Registers) : Action → Registers
  | .csi params intermediates marker finalByte => r.afterCsi params intermediates marker finalByte
  | .esc intermediates finalByte => r.afterEsc intermediates finalByte
  | .osc data _ => r.afterOsc data
  | _ => r

end Registers

/-! ### Graphic texts -/

structure Cell.Graphic (c : Cell) : Prop where
  ch : c.ch = '\x00' ∨ Term.Graphic c.ch
  extra : ∀ x ∈ c.extra, Term.Graphic x

def Hyperlink.Graphic (h : Hyperlink) : Prop :=
  (∀ c ∈ h.id, Term.Graphic c) ∧ ∀ c ∈ h.uri, Term.Graphic c

/-- The fields that hold characters. -/
structure Texts where
  primary : Screen
  alt : Screen
  hyperlinks : AssocMap Hyperlink
  lastPrinted : Option Char
  title : List Char
  clipboardKinds : List Char

structure Texts.Graphic (s : Texts) : Prop where
  primary : s.primary.Every (Screen.Cells Cell.Graphic)
  alt : s.alt.Every (Screen.Cells Cell.Graphic)
  hyperlinks : ∀ kv ∈ s.hyperlinks, kv.2.Graphic
  lastPrinted : ∀ c ∈ s.lastPrinted, Term.Graphic c
  title : ∀ c ∈ s.title, Term.Graphic c
  clipboardKinds : ∀ c ∈ s.clipboardKinds, Term.Graphic c

theorem graphic_blank (style : Style) : (Cell.blank style).Graphic :=
  ⟨.inr (show Graphic ' ' by decide), nofun⟩

theorem graphic_char (c : Char) (graphic : Graphic c) (width : Nat) :
    Cell.Graphic { ch := c, width } :=
  ⟨.inr graphic, fun _ mem => absurd mem List.not_mem_nil⟩

theorem graphic_spacer {c : Cell} (_ : c.Graphic) : c.spacer.Graphic :=
  ⟨.inl rfl, nofun⟩

namespace Terminal

variable {t t' : Terminal}

def registers (t : Terminal) : Registers where
  parser := t.parser
  title := t.title
  modes := t.modes.withoutOrigin
  keyboard := ⟨t.kittyPrimary, t.kittyAlt, t.altActive⟩
  screenSwitch := t.screenSwitch

def texts (t : Terminal) : Texts where
  primary := t.primary
  alt := t.alt
  hyperlinks := t.hyperlinks
  lastPrinted := t.lastPrinted
  title := t.title
  clipboardKinds := t.clipboardKinds

/-- No control character in what the terminal holds. -/
def Graphic (t : Terminal) : Prop :=
  t.texts.Graphic

/-- The registers are as before, and no control character got in. -/
structure Keeps (t t' : Terminal) : Prop where
  registers : t'.registers = t.registers
  graphic : t.Graphic → t'.Graphic

theorem Keeps.refl (t : Terminal) : t.Keeps t :=
  ⟨rfl, id⟩

theorem Keeps.trans {t'' : Terminal} (h : t.Keeps t') (h' : t'.Keeps t'') : t.Keeps t'' :=
  ⟨h'.registers.trans h.registers, fun g => h'.graphic (h.graphic g)⟩

/-- A change of other fields. -/
theorem keeps_of_eq (registers : t'.registers = t.registers) (texts : t'.texts = t.texts) :
    t.Keeps t' :=
  ⟨registers, fun g => show t'.texts.Graphic from texts ▸ g⟩

theorem keeps_home (t : Terminal) : t.Keeps { t with cursor.col := 0 } :=
  keeps_of_eq rfl rfl

/-- Goes on from a terminal that was kept. -/
theorem Keeps.then {x : Checked Terminal} (h : t.Keeps t') (hx : Guarded False x t'.Keeps) :
    Guarded False x t.Keeps :=
  hx.mono fun _ => h.trans

/-! ### Moving down and up -/

theorem modifyScr_keeps {f : Screen → Checked Screen}
    (keeps : t.scr.Every (Screen.Cells Cell.Graphic) →
      Guarded False (f t.scr) (·.Every (Screen.Cells Cell.Graphic))) :
    Guarded False (t.modifyScr f) t.Keeps := by
  unfold modifyScr
  cases result : f t.scr with
  | error panic => exact .error id
  | ok s =>
    refine .pure ⟨?_, ?_⟩
    · by_cases alt : t.altActive = true
      · rw [if_pos alt]
        rfl
      · rw [if_neg alt]
        rfl
    · intro g
      by_cases alt : t.altActive = true
      · have active : t.scr.Every (Screen.Cells Cell.Graphic) := by
          unfold scr
          rw [if_pos alt]
          exact g.alt
        have changed := (keeps active).of_eq_ok result
        rw [if_pos alt]
        exact { g with alt := changed }
      · have active : t.scr.Every (Screen.Cells Cell.Graphic) := by
          unfold scr
          rw [if_neg alt]
          exact g.primary
        have changed := (keeps active).of_eq_ok result
        rw [if_neg alt]
        exact { g with primary := changed }

theorem blanks_graphic (n : Nat) (style : Style) :
    Screen.Cells Cell.Graphic (List.replicate n (Cell.blank style)) :=
  Screen.cells_blank graphic_blank n style

theorem scrollUpN_keeps (n : Nat) (t : Terminal) : Guarded False (t.scrollUpN n) t.Keeps := by
  unfold scrollUpN
  apply (Guarded.trivial _).bind
  rintro ⟨top, bot⟩ _
  apply (Guarded.trivial _).bind
  intro last _
  refine (modifyScr_keeps fun h => Screen.scrollUp_every blanks_graphic h).bind ?_
  intro t' keeps
  exact .pure (keeps.trans (keeps_of_eq rfl rfl))

theorem scrollDownN_keeps (n : Nat) (t : Terminal) : Guarded False (t.scrollDownN n) t.Keeps := by
  unfold scrollDownN
  apply (Guarded.trivial _).bind
  rintro ⟨top, bot⟩ _
  refine (modifyScr_keeps fun h => Screen.scrollDown_every blanks_graphic h).bind ?_
  intro t' keeps
  exact .pure (keeps.trans (keeps_of_eq rfl rfl))

theorem index_keeps (t : Terminal) : Guarded False t.index t.Keeps := by
  have still : t.Keeps { t with cursor.pendingWrap := false } := keeps_of_eq rfl rfl
  unfold index
  apply (Guarded.trivial _).bind
  rintro ⟨top, bot⟩ _
  dsimp only
  split
  · refine (still.then (scrollUpN_keeps 1 _)).bind ?_
    intro t' keeps
    exact .pure (keeps.trans (keeps_of_eq rfl rfl))
  · apply (Guarded.trivial _).bind
    intro below _
    refine .pure ?_
    split
    · exact keeps_of_eq rfl rfl
    · exact keeps_of_eq rfl rfl

theorem reverseIndex_keeps (t : Terminal) : Guarded False t.reverseIndex t.Keeps := by
  have still : t.Keeps { t with cursor.pendingWrap := false } := keeps_of_eq rfl rfl
  unfold reverseIndex
  apply (Guarded.trivial _).bind
  rintro ⟨top, bot⟩ _
  dsimp only
  split
  · refine (still.then (scrollDownN_keeps 1 _)).bind ?_
    intro t' keeps
    exact .pure (keeps.trans (keeps_of_eq rfl rfl))
  · exact .pure (keeps_of_eq rfl rfl)

theorem linefeed_keeps (t : Terminal) : Guarded False t.linefeed t.Keeps := by
  refine (index_keeps t).bind ?_
  intro t' keeps
  refine .pure (keeps.trans ?_)
  split
  · exact keeps_of_eq rfl rfl
  · exact .refl t'

theorem horizontalTab_keeps (t : Terminal) : Guarded False t.horizontalTab t.Keeps := by
  unfold horizontalTab
  apply (Guarded.trivial _).bind
  intro col _
  exact .pure (keeps_of_eq rfl rfl)

theorem execute_keeps (b : UInt8) (t : Terminal) : Guarded False (t.execute b) t.Keeps := by
  unfold execute
  split
  · exact .ok (keeps_of_eq rfl rfl)
  · exact .ok (keeps_of_eq rfl rfl)
  · exact horizontalTab_keeps t
  · exact linefeed_keeps t
  · exact linefeed_keeps t
  · exact linefeed_keeps t
  · exact .ok (keeps_of_eq rfl rfl)
  · exact .ok (keeps_of_eq rfl rfl)
  · exact .ok (keeps_of_eq rfl rfl)
  · exact index_keeps t
  · exact (keeps_home t).then (index_keeps _)
  · exact .ok (keeps_of_eq rfl rfl)
  · exact reverseIndex_keeps t
  · exact .ok (.refl t)

/-! ### Printing -/

theorem setCell_keeps {row col : Nat} {c : Cell} (graphic : c.Graphic) (t : Terminal) :
    Guarded False (t.modifyScr (·.setCell row col c)) t.Keeps :=
  modifyScr_keeps fun h => Screen.modifyCell_every h fun _ _ => graphic

theorem setBlank_keeps {row col : Nat} (style : Style) (t : Terminal) :
    Guarded False (t.modifyScr (·.setCell row col (Cell.blank style))) t.Keeps :=
  setCell_keeps (graphic_blank style) t

theorem combine_keeps {c : Char} (graphic : Term.Graphic c) (t : Terminal) :
    Guarded False (t.combine c) t.Keeps := by
  unfold combine
  split
  · exact .ok (.refl t)
  · refine Guarded.bind (p := t.Keeps) (modifyScr_keeps fun h => Screen.modifyCell_every h ?_) ?_
    · intro cell holds
      refine ⟨holds.ch, ?_⟩
      intro x mem
      rcases List.mem_append.mp mem with old | new
      · exact holds.extra x old
      · rw [List.mem_singleton.mp new]
        exact graphic
    · intro t' keeps
      exact .pure (keeps.trans (keeps_of_eq rfl rfl))

theorem wrapLine_keeps (t : Terminal) : Guarded False t.wrapLine t.Keeps := by
  refine (modifyScr_keeps fun h => Screen.setWrapped_every h).bind ?_
  intro t' keeps
  exact (keeps.trans (keeps_home t')).then (index_keeps _)

theorem wrapPending_keeps (t : Terminal) : Guarded False t.wrapPending t.Keeps := by
  have still : t.Keeps { t with cursor.pendingWrap := false } := keeps_of_eq rfl rfl
  unfold wrapPending
  split
  · dsimp only
    split
    · exact still.then (wrapLine_keeps _)
    · exact .ok still
  · exact .ok (.refl t)

theorem fitWide_keeps (w : Nat) (t : Terminal) :
    Guarded False (t.fitWide w) fun fitted => ∀ t' ∈ fitted, t.Keeps t' := by
  unfold fitWide
  apply (Guarded.trivial _).bind
  intro next _
  split
  · split
    · refine (setBlank_keeps _ t).bind ?_
      intro t₁ keeps₁
      refine (keeps₁.then (wrapLine_keeps t₁)).bind ?_
      rintro t₂ keeps₂
      refine .pure ?_
      rintro _ ⟨⟩
      exact keeps₂
    split
    · apply (Guarded.trivial _).bind
      intro col _
      refine .pure ?_
      rintro _ ⟨⟩
      exact keeps_of_eq rfl rfl
    · exact .pure fun _ mem => absurd mem (Option.not_mem_none _)
  · refine .pure ?_
    rintro _ ⟨⟩
    exact .refl t

theorem repairCell_keeps (row : Nat) (style : Style) (c : Nat) (t : Terminal) :
    Guarded False (t.repairCell row style c) t.Keeps := by
  unfold repairCell
  apply (Guarded.trivial _).bind
  intro orphaned _
  split
  · exact setBlank_keeps style t
  · exact .pure (.refl t)

theorem repairWideHalves_keeps (row : Nat) (t : Terminal) :
    Guarded False (t.repairWideHalves row) t.Keeps :=
  Guarded.forRange (.refl t) fun c t' _ _ keeps => keeps.then (repairCell_keeps row _ c t')

theorem insertBlanks_keeps (row col n : Nat) (t : Terminal) :
    Guarded False (t.insertBlanks row col n) t.Keeps := by
  unfold insertBlanks
  refine Guarded.bind (p := t.Keeps) (modifyScr_keeps fun h => Screen.modifyRow_every h ?_) ?_
  · intro r _ holds
    exact (Screen.insertBlanks_cells graphic_blank holds).bind fun _ holds => .pure holds
  · intro t' keeps
    exact keeps.then (repairWideHalves_keeps row t')

theorem cleanWide_keeps (row col w : Nat) (t : Terminal) :
    Guarded False (t.cleanWide row col w) t.Keeps := by
  unfold cleanWide
  refine Guarded.bind (p := t.Keeps) ?_ ?_
  · split
    · exact setBlank_keeps _ t
    · exact .pure (.refl t)
  · intro t₁ keeps₁
    refine Guarded.forRange keeps₁ ?_
    intro i t₂ _ _ keeps₂
    apply (Guarded.trivial _).bind
    intro c _
    split
    · exact .pure keeps₂
    split
    · apply (Guarded.trivial _).bind
      intro next _
      split
      · exact keeps₂.then (setBlank_keeps _ t₂)
      · exact .pure keeps₂
    · exact .pure keeps₂

theorem putChar_keeps {c : Char} (graphic : Term.Graphic c) (w : Nat) (t : Terminal) :
    Guarded False (t.putChar c w) t.Keeps := by
  have cell : Cell.Graphic
      { ch := c, style := t.cursor.style, width := w, hyperlink := t.cursor.hyperlink } :=
    ⟨.inr graphic, nofun⟩
  unfold putChar
  dsimp only
  refine Guarded.bind (p := t.Keeps) ?_ ?_
  · split
    · exact insertBlanks_keeps _ _ w t
    · exact .pure (.refl t)
  intro t₁ keeps₁
  refine (keeps₁.then (cleanWide_keeps _ _ w t₁)).bind ?_
  intro t₂ keeps₂
  have styled : Cell.Graphic
      { ch := c, style := t₂.cursor.style, width := w, hyperlink := t₂.cursor.hyperlink } :=
    ⟨.inr graphic, nofun⟩
  refine (keeps₂.then (setCell_keeps styled t₂)).bind ?_
  intro t₃ keeps₃
  refine Guarded.bind (p := t.Keeps) ?_ ?_
  · split
    · apply (Guarded.trivial _).bind
      intro next _
      exact keeps₃.then (setCell_keeps (graphic_spacer styled) t₃)
    · exact .pure keeps₃
  intro t₄ keeps₄
  apply (Guarded.trivial _).bind
  intro newCol _
  split
  · apply (Guarded.trivial _).bind
    intro last _
    exact .pure (keeps₄.trans (keeps_of_eq rfl rfl))
  · exact .pure (keeps₄.trans (keeps_of_eq rfl rfl))

theorem printWide_keeps {c : Char} (graphic : Term.Graphic c) (w : Nat) (t : Terminal) :
    Guarded False (t.printWide c w) t.Keeps := by
  have noted : t.Keeps { t.touch with lastPrinted := some c } := by
    refine ⟨rfl, fun g => { g with lastPrinted := ?_ }⟩
    rintro _ ⟨⟩
    exact graphic
  unfold printWide
  refine (noted.then (wrapPending_keeps _)).bind ?_
  intro t₁ keeps₁
  refine (fitWide_keeps w t₁).bind ?_
  intro fitted keeps
  cases fitted with
  | none => exact .pure keeps₁
  | some t₂ => exact (keeps₁.trans (keeps t₂ rfl)).then (putChar_keeps graphic w t₂)

theorem graphic_decSpecial {c : Char} (graphic : Term.Graphic c) :
    Term.Graphic (decSpecial c) := by
  unfold decSpecial
  split
  all_goals first
    | exact graphic
    | decide

theorem graphic_mapCharset {c : Char} (graphic : Term.Graphic c) (t : Terminal) :
    Term.Graphic (t.mapCharset c) := by
  unfold mapCharset
  split
  · exact graphic
  · split
    · decide
    · exact graphic
  · exact graphic_decSpecial graphic

theorem print_keeps {c : Char} (graphic : Term.Graphic c) (t : Terminal) :
    Guarded False (t.print c) t.Keeps := by
  have mapped := graphic_mapCharset graphic t
  unfold print
  split
  · exact execute_keeps _ t
  · dsimp only
    split
    · exact combine_keeps mapped t
    · exact printWide_keeps mapped _ t

/-! ### Cursors, resets and resizes -/

theorem saveCursor_keeps (t : Terminal) : t.Keeps t.saveCursor := by
  unfold saveCursor setSaved
  split
  · exact keeps_of_eq rfl rfl
  · exact keeps_of_eq rfl rfl

theorem clampToRegionIfOrigin_keeps (t : Terminal) :
    Guarded False t.clampToRegionIfOrigin t.Keeps := by
  unfold clampToRegionIfOrigin
  split
  · apply (Guarded.trivial _).bind
    rintro ⟨top, bot⟩ _
    dsimp only
    split
    · exact .pure (keeps_of_eq rfl rfl)
    · exact .error id
  · exact .ok (.refl t)

theorem clampCursor_keeps (t : Terminal) : Guarded False t.clampCursor t.Keeps := by
  unfold clampCursor
  apply (Guarded.trivial _).bind
  intro lastRow _
  apply (Guarded.trivial _).bind
  intro lastCol _
  exact .pure (keeps_of_eq rfl rfl)

theorem restoreCursor_keeps (t : Terminal) : Guarded False t.restoreCursor t.Keeps := by
  have restored : t.Keeps { t with cursor := t.saved.cursor, modes.origin := t.saved.origin } :=
    keeps_of_eq rfl rfl
  unfold restoreCursor
  refine (restored.then (clampCursor_keeps _)).bind ?_
  intro t₁ keeps₁
  refine (keeps₁.then (clampToRegionIfOrigin_keeps t₁)).bind ?_
  intro t₂ keeps₂
  exact .pure (keeps₂.trans (keeps_of_eq rfl rfl))

theorem moveTo_keeps (row col : Nat) (t : Terminal) : Guarded False (t.moveTo row col) t.Keeps := by
  unfold moveTo
  apply (Guarded.trivial _).bind
  rintro ⟨top, bot⟩ _
  apply (Guarded.trivial _).bind
  intro lastRow _
  apply (Guarded.trivial _).bind
  intro lastCol _
  exact .pure (keeps_of_eq rfl rfl)

theorem wholeRegion_keeps (t : Terminal) : Guarded False t.wholeRegion t.Keeps := by
  unfold wholeRegion
  apply (Guarded.trivial _).bind
  intro last _
  exact .pure (keeps_of_eq rfl rfl)

theorem decaln_keeps (t : Terminal) : Guarded False t.decaln t.Keeps := by
  unfold decaln
  refine (wholeRegion_keeps t).bind ?_
  intro t₁ keeps₁
  have homed : t.Keeps { t₁ with
      modes.origin := false, cursor.row := 0, cursor.col := 0, cursor.pendingWrap := false } :=
    keeps₁.trans (keeps_of_eq rfl rfl)
  refine Guarded.bind (p := t.Keeps) ?_ fun t' keeps => .pure (keeps.trans (keeps_of_eq rfl rfl))
  refine Guarded.forRange homed ?_
  intro r t₂ _ _ keeps₂
  refine Guarded.forRange keeps₂ ?_
  intro c t₃ _ _ keeps₃
  exact keeps₃.then (setCell_keeps (graphic_char 'E' (by decide) 1) t₃)

theorem clearAlt_keeps (t : Terminal) : t.Keeps t.clearAlt :=
  ⟨rfl, fun g => { g with alt := g.alt.clearGrid blanks_graphic _ }⟩

theorem resize_keeps (rows cols : Nat) (t : Terminal) : Guarded False (t.resize rows cols) t.Keeps := by
  unfold resize
  dsimp only
  split
  · exact .ok (.refl t)
  have width (s : Screen) {cols : Nat} {cursor : Nat × Nat} {reflow : Bool}
      (h : s.Every (Screen.Cells Cell.Graphic)) :
      Guarded False (s.resizeCols cols reflow cursor) (·.1.Every (Screen.Cells Cell.Graphic)) :=
    Screen.resizeCols_every graphic_blank (fun _ => graphic_spacer) h
  refine Guarded.bind (.imp (d := t.Graphic) fun g =>
    Screen.resize_every blanks_graphic (width t.primary g.primary)) ?_
  rintro ⟨primary, primaryCur⟩ graphic_primary
  refine Guarded.bind (.imp (d := t.Graphic) fun g =>
    Screen.resize_every blanks_graphic (width t.alt g.alt)) ?_
  rintro ⟨alt, altCur⟩ graphic_alt
  apply (Guarded.trivial _).bind
  intro lastRow _
  apply (Guarded.trivial _).bind
  intro lastCol _
  exact .pure ⟨rfl, fun g =>
    { g with primary := graphic_primary g, alt := graphic_alt g }⟩

/-! ### Changes of the registers -/

/-- Does `f` to the registers, and lets no control character in. -/
structure Does (f : Registers → Registers) (t t' : Terminal) : Prop where
  registers : t'.registers = f t.registers
  graphic : t.Graphic → t'.Graphic

theorem Keeps.does (h : t.Keeps t') : t.Does id t' :=
  ⟨h.registers, h.graphic⟩

theorem Does.of_keeps {f : Registers → Registers} (h : t.Keeps t')
    (nothing : f t.registers = t.registers) : t.Does f t' :=
  ⟨h.registers.trans nothing.symm, h.graphic⟩

theorem Does.keeps {f : Registers → Registers} {t'' : Terminal} (h : t.Does f t')
    (h' : t'.Keeps t'') : t.Does f t'' :=
  ⟨h'.registers.trans h.registers, fun g => h'.graphic (h.graphic g)⟩

theorem Does.then {f g : Registers → Registers} {t'' : Terminal} (h : t.Does f t')
    (h' : t'.Does g t'') : t.Does (g ∘ f) t'' :=
  ⟨h'.registers.trans (congrArg g h.registers), fun graphic => h'.graphic (h.graphic graphic)⟩

theorem fullReset_does (t : Terminal) : Guarded False t.fullReset
    (t.Does fun r => { r with modes := {}, keyboard := {}, screenSwitch := some .reset }) := by
  unfold fullReset
  apply (Guarded.trivial _).bind
  intro last _
  refine .pure ⟨rfl, fun g => ?_⟩
  exact ⟨g.primary.clearGrid blanks_graphic _, g.alt.clearGrid blanks_graphic _, g.hyperlinks,
    fun _ mem => absurd mem (Option.not_mem_none _), g.title, g.clipboardKinds⟩

theorem modifyKitty_does (f : KittyKeyStack → KittyKeyStack) (t : Terminal) :
    t.Does (fun r => { r with keyboard := r.keyboard.modify f }) (t.modifyKitty f) := by
  unfold modifyKitty
  by_cases alt : t.altActive = true
  · rw [if_pos alt]
    refine ⟨?_, id⟩
    have modified : t.registers.keyboard.modify f =
        ⟨t.kittyPrimary, f t.kittyAlt, t.altActive⟩ := if_pos alt
    rw [modified]
    rfl
  · rw [if_neg alt]
    refine ⟨?_, id⟩
    have modified : t.registers.keyboard.modify f =
        ⟨f t.kittyPrimary, t.kittyAlt, t.altActive⟩ := if_neg alt
    rw [modified]
    rfl

theorem setSaved_keeps (saved : SavedCursor) (t : Terminal) : t.Keeps (t.setSaved saved) := by
  unfold setSaved
  split
  · exact keeps_of_eq rfl rfl
  · exact keeps_of_eq rfl rfl

theorem softReset_does (t : Terminal) : Guarded False t.softReset (t.Does fun r => { r with
    modes := r.modes.afterSoftReset, keyboard := r.keyboard.modify (·.reset) }) := by
  have reset : t.Does (fun r => { r with modes := r.modes.afterSoftReset }) { t with modes :=
      { t.modes with
        cursorVisible := true, origin := false, insert := false, autowrap := false,
        cursorKeys := false, keypadApp := false } } :=
    ⟨rfl, id⟩
  unfold softReset
  refine (wholeRegion_keeps _).bind ?_
  intro t₁ keeps₁
  have cleared : t₁.Keeps { t₁ with
      cursor := { t₁.cursor with
        style := {}, hyperlink := 0, pendingWrap := false, g0 := .ascii, g1 := .ascii, shift := 0 }
      cursorStyleRaw := 0 } := keeps_of_eq rfl rfl
  have forgot := (reset.keeps keeps₁).keeps (cleared.trans (setSaved_keeps {} _))
  have unstacked := forgot.then (modifyKitty_does (·.reset) _)
  exact .pure (unstacked.keeps (keeps_of_eq rfl rfl))

/-- The keyboard stacks stay where they are, and the other one comes into force. -/
theorem enterAlt_does (mode : Nat) (t : Terminal) :
    t.Does (fun r => { r with keyboard.altActive := true }) (t.enterAlt mode) := by
  have saved : t.Keeps (if mode = 1049 then t.saveCursor else t) := by
    split
    · exact saveCursor_keeps t
    · exact .refl t
  unfold enterAlt
  dsimp only
  generalize (if mode = 1049 then t.saveCursor else t) = t₁ at saved
  have flipped : t₁.Does (fun r => { r with keyboard.altActive := true })
      { t₁ with altActive := true } := ⟨rfl, id⟩
  have entered : t.Does (fun r => { r with keyboard.altActive := true })
      { t₁ with altActive := true } := saved.does.then flipped
  split
  · exact entered.keeps (clearAlt_keeps _)
  · exact entered

theorem leaveAlt_does (mode : Nat) (t : Terminal) : Guarded False (t.leaveAlt mode)
    (t.Does fun r => { r with keyboard.altActive := false }) := by
  have cleared : t.Keeps (if mode = 1047 then t.clearAlt else t) := by
    split
    · exact clearAlt_keeps t
    · exact .refl t
  unfold leaveAlt
  dsimp only
  generalize (if mode = 1047 then t.clearAlt else t) = t₁ at cleared
  have flipped : t₁.Does (fun r => { r with keyboard.altActive := false })
      { t₁ with altActive := false } := ⟨rfl, id⟩
  have left : t.Does (fun r => { r with keyboard.altActive := false })
      { t₁ with altActive := false } := cleared.does.then flipped
  split
  · exact (restoreCursor_keeps _).mono fun _ keeps => left.keeps keeps
  · exact .ok left

theorem setAltScreen_does (mode : Nat) (on : Bool) (t : Terminal) :
    Guarded False (t.setAltScreen mode on)
      (t.Does fun r => { r with keyboard.altActive := on, screenSwitch := some .alt }) := by
  have marked : t.Does (fun r => { r with screenSwitch := some .alt })
      { t with screenSwitch := some .alt } := ⟨rfl, id⟩
  unfold setAltScreen
  dsimp only
  refine Guarded.bind
    (p := t.Does fun r => { r with keyboard.altActive := on, screenSwitch := some .alt }) ?_ ?_
  · by_cases enters : (on && !t.altActive) = true
    · rw [if_pos enters]
      have set : on = true := by
        simp only [Bool.and_eq_true] at enters
        exact enters.1
      subst set
      exact .pure (marked.then (enterAlt_does mode _))
    rw [if_neg enters]
    by_cases leaves : (!on && t.altActive) = true
    · rw [if_pos leaves]
      have reset : on = false := by
        simp only [Bool.and_eq_true, Bool.not_eq_true'] at leaves
        exact leaves.1
      subst reset
      exact (leaveAlt_does mode _).mono fun _ does => marked.then does
    · rw [if_neg leaves]
      refine .pure ⟨?_, id⟩
      have still : t.altActive = on := by
        cases on <;> cases alt : t.altActive <;> simp [alt] at enters leaves ⊢
      have keyboard : ({ t.registers.keyboard with altActive := on } : Keyboard) =
          t.registers.keyboard := by
        rw [← still]
        rfl
      change _ = { t.registers with
        keyboard := { t.registers.keyboard with altActive := on }, screenSwitch := some .alt }
      rw [keyboard]
      rfl
  intro t₂ does₂
  apply (Guarded.trivial _).bind
  intro last _
  exact .pure (does₂.keeps (keeps_of_eq rfl rfl))

theorem setDeccolm_does (set : Bool) (t : Terminal) :
    Guarded False (t.setDeccolm set) (t.Does (·.afterDec 3 set)) := by
  unfold setDeccolm
  by_cases allowed : t.modes.allowDeccolm = true
  · have noted : t.Does (·.afterDec 3 set) { t with modes.deccolm := set } := by
      refine ⟨?_, id⟩
      rw [Registers.afterDec_deccolm, if_pos (show t.registers.modes.allowDeccolm = true from allowed)]
      rfl
    rw [if_neg (by simp [allowed])]
    refine (resize_keeps _ _ _).bind ?_
    intro t₁ keeps₁
    refine (keeps₁.then (wholeRegion_keeps t₁)).bind ?_
    intro t₂ keeps₂
    refine Guarded.bind (p := t.Does (·.afterDec 3 set)) ?_ fun t' does =>
      .pure (does.keeps (keeps_of_eq rfl rfl))
    split
    · exact .pure (noted.keeps keeps₂)
    · refine (modifyScr_keeps ?_).mono fun _ keeps => (noted.keeps keeps₂).keeps keeps
      intro active
      exact .pure (active.clearGrid blanks_graphic _)
  · rw [if_pos (by simp [allowed])]
    refine .ok (.of_keeps (.refl t) ?_)
    rw [Registers.afterDec_deccolm,
      if_neg (show ¬ t.registers.modes.allowDeccolm = true from allowed)]

theorem escDispatch_does (intermediates : Bytes) (finalByte : UInt8) (t : Terminal) :
    Guarded False (t.escDispatch intermediates finalByte)
      (t.Does (·.afterEsc intermediates finalByte)) := by
  have keeps_does {x : Checked Terminal} {f : Registers → Registers} (h : Guarded False x t.Keeps)
      (nothing : f t.registers = t.registers) : Guarded False x (t.Does f) :=
    h.mono fun _ keeps => .of_keeps keeps nothing
  unfold escDispatch
  cases intermediates with
  | nil =>
    unfold Registers.afterEsc
    dsimp only [List.head?_nil, Option.map_none]
    split
    case h_11 =>
      refine .ok (.of_keeps (.refl t) ?_)
      split
      all_goals first
        | rfl
        | contradiction
    all_goals rename_i eq
    all_goals simp only [eq]
    · exact .ok (.of_keeps (saveCursor_keeps t) rfl)
    · exact keeps_does (restoreCursor_keeps t) rfl
    · exact keeps_does (index_keeps t) rfl
    · exact keeps_does ((keeps_home t).then (index_keeps _)) rfl
    · exact .ok (.of_keeps (keeps_of_eq rfl rfl) rfl)
    · exact keeps_does (reverseIndex_keeps t) rfl
    · exact fullReset_does t
    · exact .ok ⟨rfl, id⟩
    · exact .ok ⟨rfl, id⟩
    · exact .ok (.of_keeps (keeps_of_eq rfl rfl) rfl)
  | cons i rest =>
    have nothing : t.registers.afterEsc (i :: rest) finalByte = t.registers := rfl
    dsimp only [List.head?_cons, Option.map_some]
    split
    · rename_i eq
      cases eq
    · split
      · exact keeps_does (decaln_keeps t) nothing
      · exact .ok (.of_keeps (.refl t) nothing)
    · exact .ok (.of_keeps (keeps_of_eq rfl rfl) nothing)
    · exact .ok (.of_keeps (keeps_of_eq rfl rfl) nothing)
    · exact .ok (.of_keeps (.refl t) nothing)

/-! ### Control sequences -/

theorem setCol_keeps (col : Nat) (t : Terminal) : Guarded False (t.setCol col) t.Keeps := by
  unfold setCol
  apply (Guarded.trivial _).bind
  intro last _
  exact .pure (keeps_of_eq rfl rfl)

theorem cursorUp_keeps (n : Nat) (t : Terminal) : Guarded False (t.cursorUp n) t.Keeps := by
  unfold cursorUp
  apply (Guarded.trivial _).bind
  rintro ⟨top, bot⟩ _
  exact .pure (keeps_of_eq rfl rfl)

theorem cursorDown_keeps (n : Nat) (t : Terminal) : Guarded False (t.cursorDown n) t.Keeps := by
  unfold cursorDown
  apply (Guarded.trivial _).bind
  rintro ⟨top, bot⟩ _
  apply (Guarded.trivial _).bind
  intro limit _
  exact .pure (keeps_of_eq rfl rfl)

theorem columnAbsolute_keeps (params : Params) (t : Terminal) :
    Guarded False (t.columnAbsolute params) t.Keeps := by
  unfold columnAbsolute
  apply (Guarded.trivial _).bind
  intro col _
  exact setCol_keeps col t

theorem cursorPosition_keeps (params : Params) (t : Terminal) :
    Guarded False (t.cursorPosition params) t.Keeps := by
  unfold cursorPosition
  apply (Guarded.trivial _).bind
  intro row _
  apply (Guarded.trivial _).bind
  intro col _
  exact moveTo_keeps row col t

theorem rowAbsolute_keeps (params : Params) (t : Terminal) :
    Guarded False (t.rowAbsolute params) t.Keeps := by
  unfold rowAbsolute
  apply (Guarded.trivial _).bind
  intro row _
  apply (Guarded.trivial _).bind
  rintro ⟨top, bot⟩ _
  apply (Guarded.trivial _).bind
  intro last _
  have moved (row : Nat) : t.Keeps { t with cursor.row := row } := keeps_of_eq rfl rfl
  refine ((moved _).then (clampToRegionIfOrigin_keeps _)).bind ?_
  intro t₁ keeps₁
  exact .pure (keeps₁.trans (keeps_of_eq rfl rfl))

theorem rowRelative_keeps (n : Nat) (t : Terminal) : Guarded False (t.rowRelative n) t.Keeps := by
  unfold rowRelative
  apply (Guarded.trivial _).bind
  intro last _
  exact .pure (keeps_of_eq rfl rfl)

theorem setRegion_keeps (params : Params) (t : Terminal) :
    Guarded False (t.setRegion params) t.Keeps := by
  unfold setRegion
  apply (Guarded.trivial _).bind
  intro top _
  apply (Guarded.trivial _).bind
  intro bot _
  apply (Guarded.trivial _).bind
  intro last _
  dsimp only
  have narrowed (bot : Nat) : t.Keeps { t with scrollTop := top, scrollBot := bot } :=
    keeps_of_eq rfl rfl
  split
  · exact (narrowed _).then (moveTo_keeps 0 0 _)
  · exact .pure (.refl t)

theorem eraseCells_keeps (row lo hi : Nat) (style : Style) (selective : Bool) (t : Terminal) :
    Guarded False (t.eraseCells row lo hi style selective) t.Keeps := by
  refine Guarded.forRange (.refl t) ?_
  intro c t' _ _ keeps
  refine keeps.then (modifyScr_keeps fun h => Screen.modifyCell_every h ?_)
  intro cell holds
  split
  · exact holds
  · exact graphic_blank style

theorem setRowWrapped_keeps (row : Nat) (wrapped : Bool) (t : Terminal) :
    Guarded False (t.setRowWrapped row wrapped) t.Keeps :=
  modifyScr_keeps fun h => Screen.setWrapped_every h

theorem eraseRow_keeps (row : Nat) (style : Style) (selective : Bool) (t : Terminal) :
    Guarded False (t.eraseRow row style selective) t.Keeps := by
  unfold eraseRow
  split
  · refine (eraseCells_keeps row 0 t.cols style true t).bind ?_
    intro t₁ keeps₁
    exact keeps₁.then (setRowWrapped_keeps row false t₁)
  · refine modifyScr_keeps fun h => Screen.modifyRow_every h ?_
    intro r _ _
    exact .pure (blanks_graphic t.cols style)

theorem eraseRows_keeps (lo hi : Nat) (style : Style) (selective : Bool) (t : Terminal) :
    Guarded False (t.eraseRows lo hi style selective) t.Keeps :=
  Guarded.forRange (.refl t) fun r t' _ _ keeps => keeps.then (eraseRow_keeps r style selective t')

theorem eraseDisplay_keeps (mode : Nat) (selective : Bool) (t : Terminal) :
    Guarded False (t.eraseDisplay mode selective) t.Keeps := by
  have still : t.Keeps { t with cursor.pendingWrap := false } := keeps_of_eq rfl rfl
  unfold eraseDisplay
  refine Guarded.bind (p := t.Keeps) ?_ fun t' keeps => .pure (keeps.trans (keeps_of_eq rfl rfl))
  split
  · refine (still.then (eraseCells_keeps _ _ _ _ selective _)).bind ?_
    intro t₁ keeps₁
    refine (keeps₁.then (setRowWrapped_keeps _ false t₁)).bind ?_
    intro t₂ keeps₂
    apply (Guarded.trivial _).bind
    intro below _
    exact keeps₂.then (eraseRows_keeps _ _ _ selective t₂)
  · refine (still.then (eraseRows_keeps _ _ _ selective _)).bind ?_
    intro t₁ keeps₁
    exact keeps₁.then (eraseCells_keeps _ _ _ _ selective t₁)
  · exact still.then (eraseRows_keeps _ _ _ selective _)
  · refine still.then (modifyScr_keeps fun h => ?_)
    exact .pure h.clearScrollback
  · exact .pure still

theorem eraseLine_keeps (mode : Nat) (selective : Bool) (t : Terminal) :
    Guarded False (t.eraseLine mode selective) t.Keeps := by
  have still : t.Keeps { t with cursor.pendingWrap := false } := keeps_of_eq rfl rfl
  unfold eraseLine
  dsimp only
  split
  · apply (Guarded.trivial _).bind
    intro last _
    refine (still.then (eraseCells_keeps _ _ _ _ selective _)).bind ?_
    intro t₁ keeps₁
    refine (keeps₁.then (setRowWrapped_keeps _ false t₁)).bind ?_
    intro t₂ keeps₂
    exact .pure (keeps₂.trans (keeps_of_eq rfl rfl))
  · refine (still.then (eraseCells_keeps _ _ _ _ selective _)).bind ?_
    intro t₁ keeps₁
    exact .pure (keeps₁.trans (keeps_of_eq rfl rfl))
  · apply (Guarded.trivial _).bind
    intro last _
    refine (still.then (eraseCells_keeps _ _ _ _ selective _)).bind ?_
    intro t₁ keeps₁
    refine (keeps₁.then (setRowWrapped_keeps _ false t₁)).bind ?_
    intro t₂ keeps₂
    exact .pure (keeps₂.trans (keeps_of_eq rfl rfl))
  · exact .pure still

theorem insertLines_keeps (n : Nat) (t : Terminal) : Guarded False (t.insertLines n) t.Keeps := by
  unfold insertLines
  apply (Guarded.trivial _).bind
  rintro ⟨top, bot⟩ _
  dsimp only
  split
  · exact .pure (.refl t)
  · refine (modifyScr_keeps fun h => Screen.scrollDown_every blanks_graphic h).bind ?_
    intro t₁ keeps₁
    exact .pure (keeps₁.trans (keeps_of_eq rfl rfl))

theorem deleteLines_keeps (n : Nat) (t : Terminal) : Guarded False (t.deleteLines n) t.Keeps := by
  unfold deleteLines
  apply (Guarded.trivial _).bind
  rintro ⟨top, bot⟩ _
  dsimp only
  split
  · exact .pure (.refl t)
  · refine (modifyScr_keeps fun h => Screen.scrollUp_every blanks_graphic h).bind ?_
    intro t₁ keeps₁
    exact .pure (keeps₁.trans (keeps_of_eq rfl rfl))

/-- An edit of the cells of one row. -/
theorem editRow_keeps {row : Nat} {f : Row → Checked Row} (t : Terminal)
    (keeps : ∀ r : Row, Screen.Cells Cell.Graphic r.cells →
      Guarded False (f r) fun r' => Screen.Cells Cell.Graphic r'.cells) :
    Guarded False (do
      let t ← t.modifyScr (·.modifyRow row f)
      let t ← t.repairWideHalves row
      return { t with cursor.pendingWrap := false }.touch) t.Keeps := by
  refine (modifyScr_keeps fun h => Screen.modifyRow_every h fun r _ holds => keeps r holds).bind ?_
  intro t₁ keeps₁
  refine (keeps₁.then (repairWideHalves_keeps row t₁)).bind ?_
  intro t₂ keeps₂
  exact .pure (keeps₂.trans (keeps_of_eq rfl rfl))

theorem insertChars_keeps (n : Nat) (t : Terminal) : Guarded False (t.insertChars n) t.Keeps := by
  refine editRow_keeps t ?_
  intro r holds
  exact (Screen.insertBlanks_cells graphic_blank holds).bind fun _ holds => .pure holds

theorem deleteChars_keeps (n : Nat) (t : Terminal) : Guarded False (t.deleteChars n) t.Keeps := by
  refine editRow_keeps t ?_
  intro r holds
  exact (Screen.deleteCells_cells graphic_blank holds).bind fun _ holds => .pure holds

theorem eraseChars_keeps (n : Nat) (t : Terminal) : Guarded False (t.eraseChars n) t.Keeps := by
  unfold eraseChars
  refine Guarded.bind (p := t.Keeps) ?_ ?_
  · refine Guarded.forRange (.refl t) ?_
    intro c t' _ _ keeps
    exact keeps.then (setBlank_keeps _ t')
  · intro t₁ keeps₁
    refine (keeps₁.then (repairWideHalves_keeps _ t₁)).bind ?_
    intro t₂ keeps₂
    exact .pure (keeps₂.trans (keeps_of_eq rfl rfl))

theorem repeat_keeps (n : Nat) (t : Terminal) :
    Guarded False (t.repeat n) (t.Graphic → t.Keeps ·) := by
  refine .imp fun g => ?_
  unfold «repeat»
  split
  · rename_i c last
    apply (Guarded.trivial _).bind
    intro cap _
    refine Guarded.forRange (.refl t) ?_
    intro i t' _ _ keeps
    exact keeps.then (print_keeps (g.lastPrinted c last) t')
  · exact .ok (.refl t)

theorem clearTabs_keeps (mode : Nat) (t : Terminal) : t.Keeps (t.clearTabs mode) := by
  unfold clearTabs
  split
  · exact keeps_of_eq rfl rfl
  · exact keeps_of_eq rfl rfl
  · exact .refl t

theorem statusReport_keeps (mode : Nat) (t : Terminal) :
    Guarded False (t.statusReport mode) t.Keeps := by
  unfold statusReport
  split
  · exact .ok (keeps_of_eq rfl rfl)
  · apply (Guarded.trivial _).bind
    rintro ⟨top, bot⟩ _
    apply (Guarded.trivial _).bind
    intro row _
    apply (Guarded.trivial _).bind
    intro col _
    exact .pure (keeps_of_eq rfl rfl)
  · exact .ok (.refl t)

theorem extendedCursorReport_keeps (t : Terminal) :
    Guarded False t.extendedCursorReport t.Keeps := by
  unfold extendedCursorReport
  apply (Guarded.trivial _).bind
  intro row _
  apply (Guarded.trivial _).bind
  intro col _
  exact .pure (keeps_of_eq rfl rfl)

theorem windowOps_keeps (op : Nat) (t : Terminal) : Guarded False (t.windowOps op) t.Keeps := by
  unfold windowOps
  split
  · apply (Guarded.trivial _).bind
    intro height _
    apply (Guarded.trivial _).bind
    intro width _
    exact .pure (keeps_of_eq rfl rfl)
  · exact .ok (keeps_of_eq rfl rfl)
  · exact .ok (keeps_of_eq rfl rfl)
  · exact .ok (.refl t)

theorem popColors_keeps (t : Terminal) : t.Keeps t.popColors := by
  unfold popColors
  split
  · exact keeps_of_eq rfl rfl
  · exact .refl t

theorem sgr_keeps (params : Params) (t : Terminal) : t.Keeps (t.sgr params) := by
  unfold sgr
  dsimp only
  split
  · exact keeps_of_eq rfl rfl
  · exact keeps_of_eq rfl rfl

theorem setDecMode_does (n : Nat) (set : Bool) (t : Terminal) :
    Guarded False (t.setDecMode n set) (t.Does (·.afterDec n set)) := by
  unfold setDecMode
  refine Guarded.bind (p := t.Does (·.afterDec n set)) ?_ fun t' does =>
    .pure (does.keeps (keeps_of_eq rfl rfl))
  split
  case h_2 => exact setDeccolm_does set t
  case h_4 =>
    have noted : t.Does (·.afterDec 6 set) { t with modes.origin := set } := ⟨rfl, id⟩
    exact (moveTo_keeps 0 0 _).mono fun _ keeps => noted.keeps keeps
  case h_12 => exact setAltScreen_does 47 set t
  case h_13 => exact setAltScreen_does 1047 set t
  case h_14 => exact setAltScreen_does 1049 set t
  case h_24 =>
    split
    · exact .pure (.of_keeps (saveCursor_keeps t) rfl)
    · exact (restoreCursor_keeps t).mono fun _ keeps => .of_keeps keeps rfl
  case h_27 =>
    refine .pure (.of_keeps (.refl t) ?_)
    have plain : ¬ IsScreenMode n := by
      rintro (rfl | rfl | rfl) <;> contradiction
    unfold Registers.afterDec Modes.afterDec
    rw [if_neg plain, if_neg plain]
    split
    all_goals first
      | rfl
      | contradiction
  all_goals exact .pure ⟨rfl, id⟩

theorem setDecModes_does (params : Params) (set : Bool) (t : Terminal) :
    Guarded False (t.setDecModes params set) (t.Does (·.afterDecs params set)) := by
  induction params generalizing t with
  | nil => exact .ok (.of_keeps (.refl t) rfl)
  | cons p rest ih =>
    refine (setDecMode_does (firstPart p) set t).bind ?_
    intro t₁ does₁
    exact (ih t₁).mono fun _ does => does₁.then does

theorem setAnsiMode_does (params : Params) (set : Bool) (t : Terminal) :
    t.Does (·.afterAnsis params set) (t.setAnsiMode params set) := by
  have origin (m : Modes) : (params.foldl (fun modes p => match firstPart p with
      | 4 => { modes with insert := set }
      | 20 => { modes with lnm := set }
      | _ => modes) m).withoutOrigin =
      params.foldl (fun m p => m.afterAnsi (firstPart p) set) m.withoutOrigin := by
    induction params generalizing m with
    | nil => rfl
    | cons p rest ih =>
      rw [List.foldl_cons, List.foldl_cons, ih]
      congr 1
      unfold Modes.afterAnsi
      split <;> rfl
  have registers := congrArg (fun modes => ({
    parser := t.parser, title := t.title, modes, keyboard := t.registers.keyboard
    screenSwitch := t.screenSwitch } : Registers))
    (origin t.modes)
  exact ⟨registers, id⟩

/-- What a sequence without marker and intermediates does. -/
theorem csiPlain_does (params : Params) (final : Char) {t : Terminal} (g : t.Graphic) :
    Guarded False (t.csiPlain params final) (t.Does (·.afterPlain params final)) := by
  have keeps_does {x : Checked Terminal} {f : Registers → Registers} (h : Guarded False x t.Keeps)
      (nothing : f t.registers = t.registers) : Guarded False x (t.Does f) :=
    h.mono fun _ keeps => .of_keeps keeps nothing
  unfold csiPlain
  split
  · exact keeps_does (cursorUp_keeps _ t) rfl
  · exact keeps_does (cursorDown_keeps _ t) rfl
  · exact keeps_does (setCol_keeps _ t) rfl
  · exact .ok (.of_keeps (keeps_of_eq rfl rfl) rfl)
  · exact keeps_does ((cursorDown_keeps _ t).bind fun t' keeps =>
      .pure (keeps.trans (keeps_home t'))) rfl
  · exact keeps_does ((cursorUp_keeps _ t).bind fun t' keeps =>
      .pure (keeps.trans (keeps_home t'))) rfl
  · exact keeps_does (columnAbsolute_keeps params t) rfl
  · exact keeps_does (columnAbsolute_keeps params t) rfl
  · exact keeps_does (cursorPosition_keeps params t) rfl
  · exact keeps_does (cursorPosition_keeps params t) rfl
  · exact keeps_does (Guarded.forRange (.refl t) fun _ t' _ _ keeps =>
      keeps.then (horizontalTab_keeps t')) rfl
  · exact keeps_does (eraseDisplay_keeps _ false t) rfl
  · exact keeps_does (eraseLine_keeps _ false t) rfl
  · exact keeps_does (insertLines_keeps _ t) rfl
  · exact keeps_does (deleteLines_keeps _ t) rfl
  · exact keeps_does (deleteChars_keeps _ t) rfl
  · exact keeps_does (scrollUpN_keeps _ t) rfl
  · exact keeps_does (scrollDownN_keeps _ t) rfl
  · exact keeps_does (eraseChars_keeps _ t) rfl
  · exact keeps_does (Guarded.forRange (.refl t) fun _ _ _ _ keeps =>
      .pure (keeps.trans (keeps_of_eq rfl rfl))) rfl
  · exact keeps_does (insertChars_keeps _ t) rfl
  · exact keeps_does (setCol_keeps _ t) rfl
  · exact keeps_does ((repeat_keeps _ t).mono fun _ keeps => keeps g) rfl
  · split
    · exact .ok (.of_keeps (keeps_of_eq rfl rfl) rfl)
    · exact .ok (.of_keeps (.refl t) rfl)
  · exact keeps_does (rowAbsolute_keeps params t) rfl
  · exact keeps_does (rowRelative_keeps _ t) rfl
  · exact .ok (.of_keeps (clearTabs_keeps _ t) rfl)
  · exact .ok (setAnsiMode_does params true t)
  · exact .ok (setAnsiMode_does params false t)
  · exact .ok (.of_keeps (sgr_keeps params t) rfl)
  · exact keeps_does (statusReport_keeps _ t) rfl
  · exact keeps_does (setRegion_keeps params t) rfl
  · exact .ok (.of_keeps (saveCursor_keeps t) rfl)
  · exact keeps_does (restoreCursor_keeps t) rfl
  · exact keeps_does (windowOps_keeps _ t) rfl
  · refine .ok (.of_keeps (.refl t) ?_)
    unfold Registers.afterPlain
    split
    all_goals first
      | rfl
      | contradiction

theorem csiQuestion_does (params : Params) (final : Char) (t : Terminal) :
    Guarded False (t.csiQuestion params final) (t.Does (·.afterQuestion params final)) := by
  have keeps_does {x : Checked Terminal} {f : Registers → Registers} (h : Guarded False x t.Keeps)
      (nothing : f t.registers = t.registers) : Guarded False x (t.Does f) :=
    h.mono fun _ keeps => .of_keeps keeps nothing
  unfold csiQuestion
  split
  · exact keeps_does (eraseDisplay_keeps _ true t) rfl
  · exact keeps_does (eraseLine_keeps _ true t) rfl
  · exact setDecModes_does params true t
  · exact setDecModes_does params false t
  · split
    · exact keeps_does (extendedCursorReport_keeps t) rfl
    · exact .ok (.of_keeps (.refl t) rfl)
  · exact .ok (.of_keeps (keeps_of_eq rfl rfl) rfl)
  · refine .ok (.of_keeps (.refl t) ?_)
    unfold Registers.afterQuestion
    split
    all_goals first
      | rfl
      | contradiction

theorem csiMarked_does (params : Params) (marker final : Char) (t : Terminal) :
    t.Does (·.afterMarked params marker final) (t.csiMarked params marker final) := by
  unfold csiMarked
  split
  · exact .of_keeps (keeps_of_eq rfl rfl) rfl
  · exact .of_keeps (keeps_of_eq rfl rfl) rfl
  · exact modifyKitty_does _ t
  · exact modifyKitty_does _ t
  · exact modifyKitty_does _ t
  · refine .of_keeps (.refl t) ?_
    unfold Registers.afterMarked
    split
    all_goals first
      | rfl
      | contradiction

theorem csiWith_does (params : Params) (intermediate final : Char) (t : Terminal) :
    Guarded False (t.csiWith params intermediate final) (t.Does (·.afterWith intermediate final)) := by
  unfold csiWith
  split
  · exact .ok (.of_keeps (keeps_of_eq rfl rfl) rfl)
  · exact softReset_does t
  · exact .ok (.of_keeps (keeps_of_eq rfl rfl) rfl)
  · exact .ok (.of_keeps (keeps_of_eq rfl rfl) rfl)
  · exact .ok (.of_keeps (popColors_keeps t) rfl)
  · exact .ok (.of_keeps (keeps_of_eq rfl rfl) rfl)
  · dsimp only
    split
    · exact .ok (.of_keeps (keeps_of_eq rfl rfl) rfl)
    · exact .ok (.of_keeps (.refl t) rfl)
  · refine .ok (.of_keeps (.refl t) ?_)
    unfold Registers.afterWith
    split
    all_goals first
      | rfl
      | contradiction

theorem csiDispatch_does (params : Params) (intermediates : Bytes) (marker finalByte : UInt8)
    {t : Terminal} (g : t.Graphic) :
    Guarded False (t.csiDispatch params intermediates marker finalByte)
      (t.Does (·.afterCsi params intermediates marker finalByte)) := by
  unfold csiDispatch Registers.afterCsi
  generalize Char.ofNat marker.toNat = m
  cases intermediates.head?.map fun i => Char.ofNat i.toNat with
  | none =>
    by_cases plain : m = '\x00'
    · subst plain
      exact csiPlain_does params _ g
    by_cases question : m = '?'
    · subst question
      exact csiQuestion_does params _ t
    · simp only
      exact .ok (csiMarked_does params m (Char.ofNat finalByte.toNat) t)
  | some i =>
    by_cases plain : m = '\x00'
    · subst plain
      exact csiWith_does params _ _ t
    · dsimp only
      split
      · exact absurd rfl plain
      · refine .ok (.of_keeps ?_ ?_)
        · split
          · exact keeps_of_eq rfl rfl
          · exact .refl t
        · split
          · contradiction
          · rfl
      · refine .ok (.of_keeps (.refl t) ?_)
        split
        · contradiction
        · rfl

end Terminal

end Posh.Term
