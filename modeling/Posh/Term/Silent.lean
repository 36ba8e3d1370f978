import Posh.Lib.Along
import Posh.Term.Dump
import Posh.Term.Process

/-!
What does not influence an action.

A terminal with replies waiting before its own, with another parser or with another
table of links does everything as it would without them: no function reads the replies,
each adds to their end, only the bytes of the stream advance the parser, and only OSC 8
looks at the links. No dump shows the replies.
-/

namespace Posh.Term

open Posh.Lib

namespace Terminal

/-- What waits before a terminal's own replies, and what takes the place of its parser
and of its links. -/
structure Dress where
  replies : Bytes := []
  parser : Option Parser := none
  links : Option (AssocMap Hyperlink × Nat) := none

variable {a : Dress}

def dressed (a : Dress) (t : Terminal) : Terminal :=
  { t with
    responses := a.replies ++ t.responses
    parser := a.parser.getD t.parser
    hyperlinks := (a.links.map (·.1)).getD t.hyperlinks
    nextHyperlink := (a.links.map (·.2)).getD t.nextHyperlink }

/-- Both run alike, the second dressed. -/
abbrev Alike (a : Dress) (x y : Checked Terminal) : Prop :=
  Along (dressed a) x y

theorem Alike.bind {x y : Checked Terminal} {f g : Terminal → Checked Terminal} (h : Alike a x y)
    (rest : ∀ t, Alike a (f t) (g (t.dressed a))) : Alike a (x >>= f) (y >>= g) :=
  Along.bind h rest

theorem ite_dressed {c : Prop} [Decidable c] {x y x' y' : Terminal}
    (yes : x' = x.dressed a) (no : y' = y.dressed a) :
    (if c then x' else y') = (if c then x else y).dressed a := by
  split
  · exact yes
  · exact no

theorem modifyScr_alike (f : Screen → Checked Screen) (t : Terminal) :
    Alike a (t.modifyScr f) ((t.dressed a).modifyScr f) := by
  exact .same fun s => .of_eq (ite_dressed rfl rfl)

theorem respond_dressed (s : List Char) (t : Terminal) :
    (t.dressed a).respond s = (t.respond s).dressed a := by
  unfold respond dressed
  rw [List.append_assoc]

/-! ### Moving and printing -/

theorem scrollUpN_alike (n : Nat) (t : Terminal) :
    Alike a (t.scrollUpN n) ((t.dressed a).scrollUpN n) := by
  refine .same fun region => .same fun last => ?_
  exact (modifyScr_alike _ t).bind fun t => .ok t.touch

theorem scrollDownN_alike (n : Nat) (t : Terminal) :
    Alike a (t.scrollDownN n) ((t.dressed a).scrollDownN n) := by
  refine .same fun region => ?_
  exact (modifyScr_alike _ t).bind fun t => .ok t.touch

theorem index_alike (t : Terminal) : Alike a t.index (t.dressed a).index := by
  refine .same fun region => .ite ?_ ?_
  · exact (scrollUpN_alike 1 { t with cursor.pendingWrap := false }).bind fun t => .ok t.touch
  · refine .same fun below => .of_eq ?_
    rw [apply_ite touch, apply_ite touch]
    exact ite_dressed rfl rfl

theorem reverseIndex_alike (t : Terminal) : Alike a t.reverseIndex (t.dressed a).reverseIndex := by
  refine .same fun region => .ite ?_ (.ok _)
  exact (scrollDownN_alike 1 { t with cursor.pendingWrap := false }).bind fun t => .ok t.touch

theorem linefeed_alike (t : Terminal) : Alike a t.linefeed (t.dressed a).linefeed :=
  (index_alike t).bind fun _ => .of_eq (ite_dressed rfl rfl)

theorem horizontalTab_alike (t : Terminal) :
    Alike a t.horizontalTab (t.dressed a).horizontalTab :=
  .same fun _ => .ok _

theorem execute_alike (b : UInt8) (t : Terminal) : Alike a (t.execute b) ((t.dressed a).execute b) := by
  unfold execute
  split
  case h_3 => exact horizontalTab_alike t
  case h_4 => exact linefeed_alike t
  case h_5 => exact linefeed_alike t
  case h_6 => exact linefeed_alike t
  case h_10 => exact index_alike t
  case h_11 => exact index_alike { t with cursor.col := 0 }
  case h_13 => exact reverseIndex_alike t
  all_goals exact .ok _

theorem combine_alike (c : Char) (t : Terminal) : Alike a (t.combine c) ((t.dressed a).combine c) := by
  unfold combine
  refine .ite (.ok t) ?_
  exact (modifyScr_alike _ t).bind fun t => .ok t.touch

theorem wrapLine_alike (t : Terminal) : Alike a t.wrapLine (t.dressed a).wrapLine :=
  (modifyScr_alike _ t).bind fun t => index_alike { t with cursor.col := 0 }

theorem wrapPending_alike (t : Terminal) : Alike a t.wrapPending (t.dressed a).wrapPending := by
  refine .ite (.ite ?_ (.ok _)) (.ok t)
  exact wrapLine_alike { t with cursor.pendingWrap := false }

theorem fitWide_alike (w : Nat) (t : Terminal) :
    Along (Option.map (dressed a)) (t.fitWide w) ((t.dressed a).fitWide w) := by
  refine .same fun next => .ite (.ite ?_ (.ite ?_ (.ok _))) (.ok _)
  · exact Along.bind (modifyScr_alike _ t) fun t => Along.bind (wrapLine_alike t) fun t => .ok _
  · exact .same fun col => .ok _

theorem repairCell_alike (row : Nat) (style : Style) (c : Nat) (t : Terminal) :
    Alike a (t.repairCell row style c) ((t.dressed a).repairCell row style c) :=
  .same fun _ => .ite (modifyScr_alike _ t) (.ok t)

theorem repairWideHalves_alike (row : Nat) (t : Terminal) :
    Alike a (t.repairWideHalves row) ((t.dressed a).repairWideHalves row) :=
  .forRange (fun c t' => repairCell_alike row t.blankStyle c t') t

theorem insertBlanks_alike (row col n : Nat) (t : Terminal) :
    Alike a (t.insertBlanks row col n) ((t.dressed a).insertBlanks row col n) :=
  (modifyScr_alike _ t).bind fun t => repairWideHalves_alike row t

theorem cleanWide_alike (row col w : Nat) (t : Terminal) :
    Alike a (t.cleanWide row col w) ((t.dressed a).cleanWide row col w) := by
  refine .bind (.ite (modifyScr_alike _ t) (.ok t)) fun t' => ?_
  refine .forRange (fun i t' => .same fun c => .ite (.ok t') (.ite ?_ (.ok t'))) t'
  exact .same fun next => .ite (modifyScr_alike _ t') (.ok t')

theorem putChar_alike (c : Char) (w : Nat) (t : Terminal) :
    Alike a (t.putChar c w) ((t.dressed a).putChar c w) := by
  refine .bind (.ite (insertBlanks_alike _ _ _ t) (.ok t)) fun t₁ => ?_
  refine (cleanWide_alike _ _ _ t₁).bind fun t₂ => ?_
  refine (modifyScr_alike _ t₂).bind fun t₃ => ?_
  refine .bind (.ite (.same fun next => modifyScr_alike _ t₃) (.ok t₃)) fun t₄ => ?_
  exact .same fun newCol => .ite (.same fun last => .ok _) (.ok _)

theorem printWide_alike (c : Char) (w : Nat) (t : Terminal) :
    Alike a (t.printWide c w) ((t.dressed a).printWide c w) := by
  refine (wrapPending_alike { t.touch with lastPrinted := some c }).bind fun t₁ => ?_
  refine (fitWide_alike w t₁).bind fun fitted => ?_
  cases fitted with
  | none => exact .ok t₁
  | some t₂ => exact putChar_alike c w t₂

theorem print_alike (c : Char) (t : Terminal) : Alike a (t.print c) ((t.dressed a).print c) :=
  .ite (execute_alike _ t) (.ite (combine_alike _ t) (printWide_alike _ _ t))

/-! ### Cursors and resets -/

theorem setSaved_dressed (saved : SavedCursor) (t : Terminal) :
    (t.dressed a).setSaved saved = (t.setSaved saved).dressed a :=
  ite_dressed rfl rfl

theorem saveCursor_dressed (t : Terminal) :
    (t.dressed a).saveCursor = t.saveCursor.dressed a :=
  setSaved_dressed _ t

theorem clampToRegionIfOrigin_alike (t : Terminal) :
    Alike a t.clampToRegionIfOrigin (t.dressed a).clampToRegionIfOrigin :=
  .ite (.same fun _ => .ite (.ok _) (.error _)) (.ok t)

theorem clampCursor_alike (t : Terminal) : Alike a t.clampCursor (t.dressed a).clampCursor :=
  .same fun _ => .same fun _ => .ok _

theorem restoreCursor_alike (t : Terminal) :
    Alike a t.restoreCursor (t.dressed a).restoreCursor := by
  refine (clampCursor_alike
    { t with cursor := t.saved.cursor, modes.origin := t.saved.origin }).bind fun t₁ => ?_
  exact (clampToRegionIfOrigin_alike t₁).bind fun t₂ => .ok t₂.touch

theorem moveTo_alike (row col : Nat) (t : Terminal) :
    Alike a (t.moveTo row col) ((t.dressed a).moveTo row col) :=
  .same fun _ => .same fun _ => .same fun _ => .ok _

theorem wholeRegion_alike (t : Terminal) : Alike a t.wholeRegion (t.dressed a).wholeRegion :=
  .same fun _ => .ok _

theorem decaln_alike (t : Terminal) : Alike a t.decaln (t.dressed a).decaln := by
  refine (wholeRegion_alike t).bind fun t₁ => ?_
  have filled (t₂ : Terminal) (rows cols : Nat) :
      Alike a
        (forRange 0 rows t₂ fun r t => forRange 0 cols t fun c t =>
          t.modifyScr (·.setCell r c { ch := 'E', width := 1 }))
        (forRange 0 rows (t₂.dressed a) fun r t => forRange 0 cols t fun c t =>
          t.modifyScr (·.setCell r c { ch := 'E', width := 1 })) :=
    .forRange (fun r t => .forRange (fun c t =>
      modifyScr_alike (·.setCell r c { ch := 'E', width := 1 }) t) t) t₂
  exact (filled
    { t₁ with modes.origin := false, cursor.row := 0, cursor.col := 0, cursor.pendingWrap := false }
    _ _).bind fun t₂ => .ok t₂.touch

theorem fullReset_alike (t : Terminal) : Alike a t.fullReset (t.dressed a).fullReset :=
  .same fun _ => .ok _

theorem modifyKitty_dressed (f : KittyKeyStack → KittyKeyStack) (t : Terminal) :
    (t.dressed a).modifyKitty f = (t.modifyKitty f).dressed a :=
  ite_dressed rfl rfl

theorem softReset_alike (t : Terminal) : Alike a t.softReset (t.dressed a).softReset := by
  refine (wholeRegion_alike { t with modes := { t.modes with
    cursorVisible := true, origin := false, insert := false, autowrap := false, cursorKeys := false,
    keypadApp := false } }).bind fun t₁ => .of_eq ?_
  have saved := @setSaved_dressed a {} { t₁ with
    cursor := { t₁.cursor with
      style := {}, hyperlink := 0, pendingWrap := false, g0 := .ascii, g1 := .ascii, shift := 0 }
    cursorStyleRaw := 0 }
  exact (congrArg (fun t => touch (t.modifyKitty (·.reset))) saved).trans
    (congrArg touch (modifyKitty_dressed _ _))

theorem enterAlt_dressed (mode : Nat) (t : Terminal) :
    (t.dressed a).enterAlt mode = (t.enterAlt mode).dressed a := by
  unfold enterAlt
  by_cases saves : mode = 1049
  · simp only [saves, if_true]
    rw [saveCursor_dressed]
    rfl
  · simp only [saves, if_false]
    rfl

theorem leaveAlt_alike (mode : Nat) (t : Terminal) :
    Alike a (t.leaveAlt mode) ((t.dressed a).leaveAlt mode) := by
  unfold leaveAlt
  by_cases clears : mode = 1047
  · simp only [clears, if_true]
    exact .ok _
  · simp only [clears, if_false]
    exact .ite (restoreCursor_alike { t with altActive := false }) (.ok _)

theorem setAltScreen_alike (mode : Nat) (on : Bool) (t : Terminal) :
    Alike a (t.setAltScreen mode on) ((t.dressed a).setAltScreen mode on) := by
  refine .bind (.ite (.of_eq (enterAlt_dressed mode { t with screenSwitch := some .alt }))
    (.ite (leaveAlt_alike mode { t with screenSwitch := some .alt }) (.ok _))) fun t₁ => ?_
  exact .same fun last => .ok _

theorem resize_alike (rows cols : Nat) (t : Terminal) :
    Alike a (t.resize rows cols) ((t.dressed a).resize rows cols) :=
  .ite (.ok t) (.same fun _ => .same fun _ => .same fun _ => .same fun _ => .ok _)

theorem setDeccolm_alike (set : Bool) (t : Terminal) :
    Alike a (t.setDeccolm set) ((t.dressed a).setDeccolm set) := by
  refine .ite (.ok t) ?_
  refine (resize_alike _ _ { t with modes.deccolm := set }).bind fun t₁ => ?_
  refine (wholeRegion_alike t₁).bind fun t₂ => ?_
  exact .bind (.ite (.ok t₂) (modifyScr_alike _ t₂)) fun t₃ => .ok _

theorem escDispatch_alike (intermediates : Bytes) (finalByte : UInt8) (t : Terminal) :
    Alike a (t.escDispatch intermediates finalByte)
      ((t.dressed a).escDispatch intermediates finalByte) := by
  unfold escDispatch
  split
  · split
    · exact .of_eq (saveCursor_dressed t)
    · exact restoreCursor_alike t
    · exact index_alike t
    · exact index_alike { t with cursor.col := 0 }
    · exact .ok _
    · exact reverseIndex_alike t
    · exact fullReset_alike t
    · exact .ok _
    · exact .ok _
    · exact .of_eq (respond_dressed _ t)
    · exact .ok t
  · exact .ite (decaln_alike t) (.ok t)
  · exact .ok _
  · exact .ok _
  · exact .ok t

/-! ### Control sequences -/

theorem sgr_dressed (params : Params) (t : Terminal) :
    (t.dressed a).sgr params = (t.sgr params).dressed a :=
  ite_dressed rfl rfl

theorem cursorUp_alike (n : Nat) (t : Terminal) : Alike a (t.cursorUp n) ((t.dressed a).cursorUp n) :=
  .same fun _ => .ok _

theorem cursorDown_alike (n : Nat) (t : Terminal) :
    Alike a (t.cursorDown n) ((t.dressed a).cursorDown n) :=
  .same fun _ => .same fun _ => .ok _

theorem setCol_alike (col : Nat) (t : Terminal) : Alike a (t.setCol col) ((t.dressed a).setCol col) :=
  .same fun _ => .ok _

theorem columnAbsolute_alike (params : Params) (t : Terminal) :
    Alike a (t.columnAbsolute params) ((t.dressed a).columnAbsolute params) :=
  .same fun col => setCol_alike col t

theorem cursorPosition_alike (params : Params) (t : Terminal) :
    Alike a (t.cursorPosition params) ((t.dressed a).cursorPosition params) :=
  .same fun row => .same fun col => moveTo_alike row col t

theorem rowAbsolute_alike (params : Params) (t : Terminal) :
    Alike a (t.rowAbsolute params) ((t.dressed a).rowAbsolute params) := by
  refine .same fun row => .same fun region => .same fun last => ?_
  exact (clampToRegionIfOrigin_alike { t with cursor.row := min _ last }).bind fun t₁ => .ok _

theorem rowRelative_alike (n : Nat) (t : Terminal) :
    Alike a (t.rowRelative n) ((t.dressed a).rowRelative n) :=
  .same fun _ => .ok _

theorem setRegion_alike (params : Params) (t : Terminal) :
    Alike a (t.setRegion params) ((t.dressed a).setRegion params) := by
  refine .same fun top => .same fun bot => .same fun last => .ite ?_ (.ok t)
  exact moveTo_alike 0 0 { t with scrollTop := top, scrollBot := min bot last }

theorem eraseCell_alike (row col : Nat) (style : Style) (selective : Bool) (t : Terminal) :
    Alike a (t.eraseCell row col style selective)
      ((t.dressed a).eraseCell row col style selective) :=
  modifyScr_alike _ t

theorem eraseCells_alike (row lo hi : Nat) (style : Style) (selective : Bool) (t : Terminal) :
    Alike a (t.eraseCells row lo hi style selective)
      ((t.dressed a).eraseCells row lo hi style selective) :=
  .forRange (fun c t => eraseCell_alike row c style selective t) t

theorem setRowWrapped_alike (row : Nat) (wrapped : Bool) (t : Terminal) :
    Alike a (t.setRowWrapped row wrapped) ((t.dressed a).setRowWrapped row wrapped) :=
  modifyScr_alike _ t

theorem eraseRow_alike (row : Nat) (style : Style) (selective : Bool) (t : Terminal) :
    Alike a (t.eraseRow row style selective) ((t.dressed a).eraseRow row style selective) := by
  refine .ite ?_ (modifyScr_alike _ t)
  exact (eraseCells_alike row 0 _ style true t).bind fun t₁ => setRowWrapped_alike row false t₁

theorem eraseRows_alike (lo hi : Nat) (style : Style) (selective : Bool) (t : Terminal) :
    Alike a (t.eraseRows lo hi style selective)
      ((t.dressed a).eraseRows lo hi style selective) :=
  .forRange (fun r t => eraseRow_alike r style selective t) t

theorem eraseDisplay_alike (mode : Nat) (selective : Bool) (t : Terminal) :
    Alike a (t.eraseDisplay mode selective) ((t.dressed a).eraseDisplay mode selective) := by
  refine Alike.bind ?_ fun t₁ => .ok t₁.touch
  split
  · refine (eraseCells_alike _ _ _ _ _ { t with cursor.pendingWrap := false }).bind fun t₁ => ?_
    refine (setRowWrapped_alike _ _ t₁).bind fun t₂ => .same fun below => ?_
    exact eraseRows_alike _ _ _ _ t₂
  · refine (eraseRows_alike _ _ _ _ { t with cursor.pendingWrap := false }).bind fun t₁ => ?_
    exact eraseCells_alike _ _ _ _ _ t₁
  · exact eraseRows_alike _ _ _ _ { t with cursor.pendingWrap := false }
  · exact modifyScr_alike _ { t with cursor.pendingWrap := false }
  · exact .ok _

theorem eraseLine_alike (mode : Nat) (selective : Bool) (t : Terminal) :
    Alike a (t.eraseLine mode selective) ((t.dressed a).eraseLine mode selective) := by
  unfold eraseLine
  dsimp only
  split
  · refine .same fun last => ?_
    refine (eraseCells_alike _ _ _ _ _ { t with cursor.pendingWrap := false }).bind fun t₁ => ?_
    exact (setRowWrapped_alike _ _ t₁).bind fun t₂ => .ok t₂.touch
  · refine (eraseCells_alike _ _ _ _ _ { t with cursor.pendingWrap := false }).bind fun t₁ => ?_
    exact .ok t₁.touch
  · refine .same fun last => ?_
    refine (eraseCells_alike _ _ _ _ _ { t with cursor.pendingWrap := false }).bind fun t₁ => ?_
    exact (setRowWrapped_alike _ _ t₁).bind fun t₂ => .ok t₂.touch
  · exact .ok _

theorem insertLines_alike (n : Nat) (t : Terminal) :
    Alike a (t.insertLines n) ((t.dressed a).insertLines n) :=
  .same fun _ => .ite (.ok t) ((modifyScr_alike _ t).bind fun _ => .ok _)

theorem deleteLines_alike (n : Nat) (t : Terminal) :
    Alike a (t.deleteLines n) ((t.dressed a).deleteLines n) :=
  .same fun _ => .ite (.ok t) ((modifyScr_alike _ t).bind fun _ => .ok _)

theorem insertChars_alike (n : Nat) (t : Terminal) :
    Alike a (t.insertChars n) ((t.dressed a).insertChars n) :=
  (modifyScr_alike _ t).bind fun t₁ => (repairWideHalves_alike _ t₁).bind fun _ => .ok _

theorem deleteChars_alike (n : Nat) (t : Terminal) :
    Alike a (t.deleteChars n) ((t.dressed a).deleteChars n) :=
  (modifyScr_alike _ t).bind fun t₁ => (repairWideHalves_alike _ t₁).bind fun _ => .ok _

theorem eraseChars_alike (n : Nat) (t : Terminal) :
    Alike a (t.eraseChars n) ((t.dressed a).eraseChars n) := by
  refine .bind (.forRange (fun c t₁ =>
    modifyScr_alike (·.setCell t.cursor.row c (Cell.blank t.blankStyle)) t₁) t) fun t₁ => ?_
  exact (repairWideHalves_alike _ t₁).bind fun _ => .ok _

theorem repeat_alike (n : Nat) (t : Terminal) :
    Alike a (t.repeat n) ((t.dressed a).repeat n) := by
  unfold «repeat»
  have printed : (t.dressed a).lastPrinted = t.lastPrinted := rfl
  rw [printed]
  cases t.lastPrinted with
  | none => exact .ok t
  | some c => exact .same fun cap => .forRange (fun _ t => print_alike c t) t

theorem clearTabs_dressed (mode : Nat) (t : Terminal) :
    (t.dressed a).clearTabs mode = (t.clearTabs mode).dressed a := by
  unfold clearTabs
  split <;> rfl

theorem setDecMode_alike (n : Nat) (set : Bool) (t : Terminal) :
    Alike a (t.setDecMode n set) ((t.dressed a).setDecMode n set) := by
  refine Alike.bind ?_ fun t₁ => .ok t₁.touch
  split
  case h_2 => exact setDeccolm_alike set t
  case h_4 => exact moveTo_alike 0 0 { t with modes.origin := set }
  case h_12 => exact setAltScreen_alike 47 set t
  case h_13 => exact setAltScreen_alike 1047 set t
  case h_14 => exact setAltScreen_alike 1049 set t
  case h_24 => exact .ite (.of_eq (saveCursor_dressed t)) (restoreCursor_alike t)
  all_goals exact .ok _

theorem setDecModes_alike (params : Params) (set : Bool) (t : Terminal) :
    Alike a (t.setDecModes params set) ((t.dressed a).setDecModes params set) :=
  .forEach (fun p t => setDecMode_alike (firstPart p) set t) t

theorem statusReport_alike (mode : Nat) (t : Terminal) :
    Alike a (t.statusReport mode) ((t.dressed a).statusReport mode) := by
  unfold statusReport
  split
  · exact .of_eq (respond_dressed _ t)
  · exact .same fun region => .same fun row => .same fun col => .of_eq (respond_dressed _ t)
  · exact .ok t

theorem extendedCursorReport_alike (t : Terminal) :
    Alike a t.extendedCursorReport (t.dressed a).extendedCursorReport :=
  .same fun _ => .same fun _ => .of_eq (respond_dressed _ t)

theorem windowOps_alike (op : Nat) (t : Terminal) :
    Alike a (t.windowOps op) ((t.dressed a).windowOps op) := by
  unfold windowOps
  split
  · exact .same fun height => .same fun width => .of_eq (respond_dressed _ t)
  · exact .of_eq (respond_dressed _ t)
  · exact .of_eq (respond_dressed _ t)
  · exact .ok t

theorem popColors_dressed (t : Terminal) :
    (t.dressed a).popColors = t.popColors.dressed a := by
  unfold popColors
  have stack : (t.dressed a).colorStack = t.colorStack := rfl
  rw [stack]
  cases t.colorStack.getLast? <;> rfl

theorem csiPlain_alike (params : Params) (final : Char) (t : Terminal) :
    Alike a (t.csiPlain params final) ((t.dressed a).csiPlain params final) := by
  unfold csiPlain
  split
  · exact cursorUp_alike _ t
  · exact cursorDown_alike _ t
  · exact setCol_alike _ t
  · exact .ok _
  · exact (cursorDown_alike _ t).bind fun _ => .ok _
  · exact (cursorUp_alike _ t).bind fun _ => .ok _
  · exact columnAbsolute_alike params t
  · exact columnAbsolute_alike params t
  · exact cursorPosition_alike params t
  · exact cursorPosition_alike params t
  · exact .forRange (fun _ t => horizontalTab_alike t) t
  · exact eraseDisplay_alike _ _ t
  · exact eraseLine_alike _ _ t
  · exact insertLines_alike _ t
  · exact deleteLines_alike _ t
  · exact deleteChars_alike _ t
  · exact scrollUpN_alike _ t
  · exact scrollDownN_alike _ t
  · exact eraseChars_alike _ t
  · exact .forRange (fun _ t => .ok t.backTab) t
  · exact insertChars_alike _ t
  · exact setCol_alike _ t
  · exact repeat_alike _ t
  · exact .of_eq (ite_dressed (respond_dressed _ t) rfl)
  · exact rowAbsolute_alike params t
  · exact rowRelative_alike _ t
  · exact .of_eq (clearTabs_dressed _ t)
  · exact .ok _
  · exact .ok _
  · exact .of_eq (sgr_dressed params t)
  · exact statusReport_alike _ t
  · exact setRegion_alike params t
  · exact .of_eq (saveCursor_dressed t)
  · exact restoreCursor_alike t
  · exact windowOps_alike _ t
  · exact .ok t

theorem csiQuestion_alike (params : Params) (final : Char) (t : Terminal) :
    Alike a (t.csiQuestion params final) ((t.dressed a).csiQuestion params final) := by
  unfold csiQuestion
  split
  · exact eraseDisplay_alike _ _ t
  · exact eraseLine_alike _ _ t
  · exact setDecModes_alike params true t
  · exact setDecModes_alike params false t
  · exact .ite (extendedCursorReport_alike t) (.ok t)
  · exact .of_eq (respond_dressed _ t)
  · exact .ok t

theorem csiMarked_dressed (params : Params) (marker final : Char) (t : Terminal) :
    (t.dressed a).csiMarked params marker final = (t.csiMarked params marker final).dressed a := by
  unfold csiMarked
  split
  · exact respond_dressed _ t
  · exact respond_dressed _ t
  · exact modifyKitty_dressed _ t
  · exact modifyKitty_dressed _ t
  · exact modifyKitty_dressed _ t
  · rfl

theorem csiWith_alike (params : Params) (intermediate final : Char) (t : Terminal) :
    Alike a (t.csiWith params intermediate final)
      ((t.dressed a).csiWith params intermediate final) := by
  unfold csiWith
  split
  · exact .of_eq (respond_dressed _ t)
  · exact softReset_alike t
  · exact .ok _
  · exact .ok _
  · exact .of_eq (popColors_dressed t)
  · exact .of_eq (respond_dressed _ t)
  · exact .of_eq (ite_dressed rfl rfl)
  · exact .ok t

theorem csiDispatch_alike (params : Params) (intermediates : Bytes) (marker finalByte : UInt8)
    (t : Terminal) :
    Alike a (t.csiDispatch params intermediates marker finalByte)
      ((t.dressed a).csiDispatch params intermediates marker finalByte) := by
  unfold csiDispatch
  dsimp only
  split
  · split
    · exact csiPlain_alike params _ t
    · exact csiQuestion_alike params _ t
    · exact .of_eq (csiMarked_dressed params _ _ t)
  · split
    · exact csiWith_alike params _ _ t
    · exact .of_eq (ite_dressed (respond_dressed _ t) rfl)
    · exact .ok t

/-! ### Control strings -/

theorem setPaletteColor_alike (bel : Bool) (idx spec : List Char) (t : Terminal) :
    Alike a (t.setPaletteColor bel idx spec) ((t.dressed a).setPaletteColor bel idx spec) := by
  unfold setPaletteColor
  split
  · exact .ok t
  · refine .ite (.ok t) (.ite ?_ ?_)
    · exact .same fun color => .same fun report => .of_eq (respond_dressed _ t)
    · refine .same fun parsed => ?_
      cases parsed with
      | ok rgb => exact .same fun palette => .ok _
      | error => exact .ok t

theorem oscPalette_alike (bel : Bool) (pairs : List (List Char)) (t : Terminal) :
    Alike a (oscPalette bel pairs t) (oscPalette bel pairs (t.dressed a)) := by
  induction pairs, t using oscPalette.induct with
  | case1 idx spec rest t ih => exact (setPaletteColor_alike bel idx spec t).bind ih
  | case2 pairs t short =>
    rcases pairs with - | ⟨idx, - | ⟨spec, rest⟩⟩
    · exact .ok t
    · exact .ok t
    · exact absurd rfl (short _ _ _)

theorem oscDynamicColor_alike (code : Nat) (rest : List Char) (bel : Bool) (t : Terminal) :
    Alike a (t.oscDynamicColor code rest bel) ((t.dressed a).oscDynamicColor code rest bel) := by
  have same : (t.dressed a).dynamicColor code = t.dynamicColor code := by
    unfold dynamicColor
    split <;> rfl
  have changed (color : Option Rgb) :
      (t.dressed a).setDynamicColor code color = (t.setDynamicColor code color).dressed a := by
    unfold setDynamicColor
    split <;> rfl
  unfold oscDynamicColor
  refine .ite ?_ (.same fun parsed => ?_)
  · rw [same]
    exact .same fun report => .of_eq (respond_dressed _ t)
  · cases parsed with
    | ok rgb => exact .of_eq (congrArg touch (changed (some rgb)))
    | error => exact .ok t

theorem oscResetPalette_alike (rest : List Char) (t : Terminal) :
    Alike a (t.oscResetPalette rest) ((t.dressed a).oscResetPalette rest) :=
  .ite (.ok _) (.same fun _ => .ok _)

theorem oscHyperlink_alike (own : a.links = none) (rest : List Char) (t : Terminal) :
    Alike a (t.oscHyperlink rest) ((t.dressed a).oscHyperlink rest) := by
  obtain ⟨replies, parser, links⟩ := a
  obtain rfl : links = none := own
  refine .ite (.ok _) ?_
  have known : (t.dressed ⟨replies, parser, none⟩).hyperlinks = t.hyperlinks := rfl
  rw [known]
  split
  · exact .ok _
  · exact .same fun next => .ok _

theorem setSelection_dressed (data : Bytes) (t : Terminal) (kind : Char) :
    setSelection data (t.dressed a) kind = (setSelection data t kind).dressed a := by
  unfold setSelection
  split <;> rfl

theorem oscClipboard_alike (rest : List Char) (bel : Bool) (t : Terminal) :
    Alike a (t.oscClipboard rest bel) ((t.dressed a).oscClipboard rest bel) := by
  refine .ite (.same fun kind => ?_) ?_
  · have same : (t.dressed a).selection kind = t.selection kind := by
      unfold selection
      split <;> rfl
    rw [same]
    exact .of_eq (respond_dressed _ t)
  · have stored (kinds : List Char) (data : Bytes) :
        kinds.foldl (setSelection data) (t.dressed a) =
          (kinds.foldl (setSelection data) t).dressed a := by
      induction kinds generalizing t with
      | nil => rfl
      | cons kind kinds ih => rw [List.foldl_cons, setSelection_dressed, ih, List.foldl_cons]
    split
    · refine .of_eq ?_
      rw [stored]
      rfl
    · exact .ok t

theorem oscTextSize_alike (rest : List Char) (t : Terminal) :
    Alike a (t.oscTextSize rest) ((t.dressed a).oscTextSize rest) := by
  refine .ite (.ok _) ?_
  refine Alike.bind (.forEach (fun ch t => print_alike ch t) { t with lastTextSize := some rest })
    fun t₁ => ?_
  split
  · exact .same fun last => .ok _
  · exact .ok _

theorem oscPromptMark_alike (rest : List Char) (t : Terminal) :
    Alike a (t.oscPromptMark rest) ((t.dressed a).oscPromptMark rest) := by
  unfold oscPromptMark
  split
  · exact .ok t
  · exact (modifyScr_alike _ t).bind fun t₁ => .ok t₁.touch

theorem oscCommand_alike {code : Nat} (own : code = 8 → a.links = none) (rest : List Char)
    (bel : Bool) (t : Terminal) :
    Alike a (t.oscCommand code rest bel) ((t.dressed a).oscCommand code rest bel) := by
  unfold oscCommand
  split
  case h_4 => exact oscPalette_alike bel _ t
  case h_5 => exact .same fun pwd => .ok _
  case h_6 => exact oscHyperlink_alike (own rfl) rest t
  case h_8 => exact oscDynamicColor_alike 10 rest bel t
  case h_9 => exact oscDynamicColor_alike 11 rest bel t
  case h_10 => exact oscDynamicColor_alike 12 rest bel t
  case h_12 => exact oscClipboard_alike rest bel t
  case h_13 => exact oscTextSize_alike rest t
  case h_15 => exact oscResetPalette_alike rest t
  case h_19 => exact oscPromptMark_alike rest t
  all_goals exact .ok _

/-- The command number of an OSC string. -/
def oscCode (data : Bytes) : Option Nat :=
  parseU16 ((splitOnce ';' (fromUtf8Lossy data)).getD (fromUtf8Lossy data, [])).1

theorem oscDispatch_alike {data : Bytes} (own : oscCode data = some 8 → a.links = none) (bel : Bool)
    (t : Terminal) : Alike a (t.oscDispatch data bel) ((t.dressed a).oscDispatch data bel) := by
  unfold oscDispatch
  dsimp only
  split
  · rename_i code eq
    exact oscCommand_alike (fun link => own (link ▸ eq)) _ bel t
  · exact .ok t

theorem decrqss_alike (data : Bytes) (t : Terminal) :
    Alike a (t.decrqss data) ((t.dressed a).decrqss data) := by
  refine .same fun resp => ?_
  split
  · exact .of_eq (respond_dressed _ t)
  · exact .of_eq (respond_dressed _ t)

theorem xtgettcap_alike (data : Bytes) (t : Terminal) :
    Alike a (t.xtgettcap data) ((t.dressed a).xtgettcap data) := by
  unfold xtgettcap
  split
  · exact .ok t
  · exact .forEach (fun name t => .same fun reply => .of_eq (respond_dressed reply t)) t

theorem dcsDispatch_alike (intermediates : Bytes) (finalByte : UInt8) (data : Bytes) (t : Terminal) :
    Alike a (t.dcsDispatch intermediates finalByte data)
      ((t.dressed a).dcsDispatch intermediates finalByte data) := by
  unfold dcsDispatch
  split
  · exact .ite (decrqss_alike data t) (.ok t)
  · exact .ite (xtgettcap_alike data t) (.ok t)
  · exact .ok t

theorem advanceCursor_alike (extent : Nat × Nat) (t : Terminal) :
    Alike a (t.advanceCursor extent) ((t.dressed a).advanceCursor extent) :=
  .same fun _ => .same fun _ => .ok _

theorem apcDispatch_alike (files : Files) (data : Bytes) (t : Terminal) :
    Alike a (t.apcDispatch files data) ((t.dressed a).apcDispatch files data) := by
  unfold apcDispatch
  split
  · exact .ok t
  · refine .ite (.same ?_) (.ok t)
    rintro ⟨graphics, resp, advance⟩
    have answered : resp.elim { t.dressed a with graphics } ({ t.dressed a with graphics }.respond ·) =
        (resp.elim { t with graphics } ({ t with graphics }.respond ·)).dressed a := by
      cases resp with
      | none => rfl
      | some reply => exact respond_dressed reply { t with graphics }
    dsimp only
    rw [answered]
    refine Alike.bind ?_ fun t₁ => .ok t₁.touch
    split
    · exact advanceCursor_alike _ _
    · exact .ok _

/-! ### The stream -/

/-- OSC 8. -/
def IsLinkAction (action : Action) : Prop :=
  ∃ data bel, action = .osc data bel ∧ oscCode data = some 8

theorem dispatch_alike (files : Files) {action : Action} (own : IsLinkAction action → a.links = none)
    (t : Terminal) : Alike a (t.dispatch files action) ((t.dressed a).dispatch files action) := by
  cases action with
  | print c => exact print_alike c t
  | execute b => exact execute_alike b t
  | csi params intermediates marker finalByte =>
    exact csiDispatch_alike params intermediates marker finalByte t
  | esc intermediates finalByte => exact escDispatch_alike intermediates finalByte t
  | osc data bel => exact oscDispatch_alike (fun link => own ⟨data, bel, rfl, link⟩) bel t
  | dcs params intermediates finalByte data =>
    exact dcsDispatch_alike intermediates finalByte data t
  | apc data => exact apcDispatch_alike files data t

/-- Another parser, and actions in order. -/
theorem dispatchAll_alike (files : Files) (own : a.links = none) (actions : List Action)
    (t : Terminal) :
    Alike a (forEach actions t fun action t => t.dispatch files action)
      (forEach actions (t.dressed a) fun action t => t.dispatch files action) :=
  .forEach (fun action t => @dispatch_alike a files action (fun _ => own) t) t

/-- The terminal with replies `r` waiting before its own. -/
abbrev withReplies (r : Bytes) (t : Terminal) : Terminal :=
  t.dressed { replies := r }

section

variable {r : Bytes}

theorem processByte_alike (files : Files) (b : UInt8) (t : Terminal) :
    Alike { replies := r } (t.processByte files b) ((t.withReplies r).processByte files b) := by
  refine Along.same ?_
  rintro ⟨parser, actions⟩
  exact dispatchAll_alike files rfl actions { t with parser }

/-- Output is processed alike whatever replies are waiting. -/
theorem process_alike (files : Files) (bytes : Bytes) (t : Terminal) :
    Alike { replies := r } (t.process files bytes) ((t.withReplies r).process files bytes) :=
  .forEach (fun b t => processByte_alike files b t) t

end

/-- The terminal without its replies. -/
def silent (t : Terminal) : Terminal :=
  { t with responses := [] }

theorem withReplies_silent (t : Terminal) : t.silent.withReplies t.responses = t := by
  unfold withReplies dressed silent
  dsimp only
  rw [List.append_nil]
  rfl

/-- A byte advances the parser, and no action that it completes does. -/
theorem processByte_advances (files : Files) (b : UInt8) (t : Terminal) :
    Guarded False (t.processByte files b) fun t' =>
      ∃ actions, t.parser.advance b = .ok (t'.parser, actions) := by
  unfold processByte
  cases step : t.parser.advance b with
  | error e => exact .error id
  | ok out =>
    obtain ⟨q, actions⟩ := out
    have alike := @dispatchAll_alike { parser := some q } files rfl actions { t with parser := q }
    change Guarded False (forEach actions { t with parser := q } _) _
    change forEach actions { t with parser := q } _ = _ <$> forEach actions { t with parser := q } _
      at alike
    cases done : forEach actions { t with parser := q } fun action t => t.dispatch files action with
    | error e => exact .error id
    | ok t' =>
      rw [done] at alike
      exact .ok ⟨actions, congrArg (fun p => Except.ok (p, actions))
        (congrArg Terminal.parser (Except.ok.inj alike)).symm⟩

/-- Terminals that differ in their replies only still do so after what is alike. -/
theorem paired_of_alike {f : Terminal → Checked Terminal}
    (alike : ∀ (r : Bytes) (t : Terminal), Alike { replies := r } (f t) (f (t.withReplies r)))
    {t u : Terminal} (same : t.silent = u.silent) :
    Paired (fun t u => t.silent = u.silent) (f t) (f u) := by
  have first := alike t.responses t.silent
  have second := alike u.responses u.silent
  rw [withReplies_silent] at first second
  rw [← same] at second
  rw [first, second]
  cases f t.silent with
  | ok t' => exact .ok rfl
  | error p => exact .error p

/-! ### Dumps -/

theorem emitCells_silent (cells : List Cell) (st : EmitState) (t : Terminal) :
    t.silent.emitCells cells st = t.emitCells cells st := by
  induction cells generalizing st with
  | nil => rfl
  | cons cell cells ih =>
    have here : t.silent.emitCell cell st = t.emitCell cell st := rfl
    rw [emitCells, emitCells, here]
    dsimp only
    rw [ih]

theorem emitRow_silent (row : Row) (st : EmitState) (t : Terminal) :
    t.silent.emitRow row st = t.emitRow row st := by
  rw [emitRow, emitRow, emitCells_silent]

theorem drawRows_silent (rows : List Row) (st : EmitState) (t : Terminal) :
    t.silent.drawRows rows st = t.drawRows rows st := by
  induction rows generalizing st with
  | nil => rfl
  | cons row rows ih =>
    rw [drawRows, drawRows, emitRow_silent]
    dsimp only
    rw [ih]

theorem replayRows_silent (rows : List Row) (st : EmitState) (t : Terminal) :
    t.silent.replayRows rows st = t.replayRows rows st := by
  induction rows generalizing st with
  | nil => rfl
  | cons row rows ih =>
    rw [replayRows, replayRows, replayRow, replayRow, emitRow_silent]
    dsimp only
    rw [ih]

theorem dumpVtImpl_silent (flat : Bool) (t : Terminal) :
    t.silent.dumpVtImpl flat = t.dumpVtImpl flat := by
  unfold dumpVtImpl dumpPrimary dumpAlt drawGrid
  simp only [drawRows_silent, replayRows_silent]
  rfl

end Terminal

end Posh.Term
