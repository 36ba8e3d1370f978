import Posh.Lib.Transition
import Posh.Remote.Snapshot
import Posh.Term.Runs
import Posh.Term.Touching

/-!
The generation notices every change a snapshot can show.

A control raises the generation or changes fields no snapshot reads. OSC 8 alone does
neither: it gives out a number without raising the generation, and a snapshot shows the
link of that number only where a cell carries it, which none does yet.
-/

namespace Posh.Remote

open Posh.Lib Posh.Term
open Posh.Term.Terminal

/-- While the generation stands still, so does the picture. -/
structure Reports (t t' : Terminal) : Prop where
  linked : t.Linked → t'.Linked
  edge : t.Edged → t'.Edged
  grows : t.generation ≤ t'.generation
  unseen : t.Linked → t'.generation = t.generation → Snapshot.fromTerm t' = Snapshot.fromTerm t

namespace Reports

variable {t t' t'' : Terminal}

theorem refl (t : Terminal) : Reports t t :=
  ⟨id, id, Nat.le_refl _, fun _ _ => rfl⟩

theorem trans (h : Reports t t') (h' : Reports t' t'') : Reports t t'' := by
  refine ⟨fun linked => h'.linked (h.linked linked), fun edged => h'.edge (h.edge edged),
    h.grows.trans h'.grows, ?_⟩
  intro linked still
  have grows := h.grows
  have grows' := h'.grows
  rw [h'.unseen (h.linked linked) (by omega), h.unseen linked (by omega)]

/-- What follows has to be seen only from where it starts. -/
theorem thenReports {x : Checked Terminal} (h : Reports t t') (hx : Guarded False x (Reports t')) :
    Guarded False x (Reports t) :=
  hx.mono fun _ => h.trans

theorem of_touches (h : t.Touches t') : Reports t t' := by
  have later := h.later
  exact ⟨h.edits.linked, h.edits.edge, Nat.le_of_lt later, fun _ still => by omega⟩

theorem of_mayTouch (h : t.MayTouch t') : Reports t t' := by
  rcases h with rfl | touches
  · exact .refl t'
  · exact .of_touches touches

/-- A change of fields no snapshot reads. -/
theorem of_edits (edits : t.Edits t') (same : Snapshot.fromTerm t' = Snapshot.fromTerm t) :
    Reports t t' :=
  ⟨edits.linked, edits.edge, edits.grows, fun _ _ => same⟩

theorem of_eq (linkage : t'.linkage = t.linkage) (generation : t'.generation = t.generation)
    (same : Snapshot.fromTerm t' = Snapshot.fromTerm t) : Reports t t' :=
  .of_edits (edits_of_eq linkage generation) same

theorem touch (h : Reports t t') : Reports t t'.touch :=
  h.trans (.of_touches (Edits.refl t').touch)

end Reports

section Controls

variable {K : Parser → GraphicsState → Prop} {rows cols : Nat} {t : Terminal}

theorem reports_of_touches {x : Checked Terminal} (hx : Guarded False x t.Touches) :
    Guarded False x (Reports t) :=
  hx.mono fun _ => .of_touches

theorem reports_of_mayTouch {x : Checked Terminal} (hx : Guarded False x t.MayTouch) :
    Guarded False x (Reports t) :=
  hx.mono fun _ => .of_mayTouch

theorem reports_respond (s : List Char) (t : Terminal) : Reports t (t.respond s) :=
  .of_eq rfl rfl rfl

theorem reports_setTab (on : Bool) (t : Terminal) : Reports t (t.setTab on) :=
  .of_eq rfl rfl rfl

theorem reports_saveCursor (t : Terminal) : Reports t t.saveCursor := by
  refine .of_edits (saveCursor_edits t) ?_
  unfold saveCursor setSaved
  split <;> rfl

theorem reports_modifyKitty (f : KittyKeyStack → KittyKeyStack) (t : Terminal) :
    Reports t (t.modifyKitty f) := by
  refine .of_edits (modifyKitty_edits f t) ?_
  unfold modifyKitty
  split <;> rfl

/-! ### Printing and escape sequences -/

theorem execute_reports (b : UInt8) (t : Terminal) : Guarded False (t.execute b) (Reports t) := by
  unfold execute
  split
  · exact .ok (.of_touches (touches_of_eq rfl rfl))
  · exact .ok (.of_touches (touches_of_eq rfl rfl))
  · exact reports_of_touches (horizontalTab_touches t)
  · exact reports_of_touches (linefeed_touches t)
  · exact reports_of_touches (linefeed_touches t)
  · exact reports_of_touches (linefeed_touches t)
  · exact .ok (.of_touches (touches_of_eq rfl rfl))
  · exact .ok (.of_eq rfl rfl rfl)
  · exact .ok (.of_eq rfl rfl rfl)
  · exact reports_of_touches (index_touches t)
  · exact reports_of_touches ((edits_home t).thenTouches (index_touches _))
  · exact .ok (reports_setTab true t)
  · exact reports_of_touches (reverseIndex_touches t)
  · exact .ok (.refl t)

theorem print_reports (sound : t.Sound K rows cols) (c : Char) :
    Guarded False (t.print c) (Reports t) := by
  unfold print
  split
  · exact execute_reports _ t
  · dsimp only
    split
    · exact reports_of_mayTouch (combine_mayTouch _ t)
    · exact reports_of_touches (printWide_touches sound _ (wcwidth_le _))

theorem escDispatch_reports (intermediates : Bytes) (finalByte : UInt8) (t : Terminal) :
    Guarded False (t.escDispatch intermediates finalByte) (Reports t) := by
  unfold escDispatch
  split
  · split
    · exact .ok (reports_saveCursor t)
    · exact reports_of_touches (restoreCursor_touches t)
    · exact reports_of_touches (index_touches t)
    · exact reports_of_touches ((edits_home t).thenTouches (index_touches _))
    · exact .ok (reports_setTab true t)
    · exact reports_of_touches (reverseIndex_touches t)
    · exact reports_of_touches (fullReset_touches t)
    · exact .ok (.of_touches (touches_of_eq rfl rfl))
    · exact .ok (.of_touches (touches_of_eq rfl rfl))
    · exact .ok (reports_respond _ t)
    · exact .ok (.refl t)
  · split
    · exact reports_of_touches (decaln_touches t)
    · exact .ok (.refl t)
  · exact .ok (.of_eq rfl rfl rfl)
  · exact .ok (.of_eq rfl rfl rfl)
  · exact .ok (.refl t)

/-! ### Control sequences -/

theorem print_reportsSound {t' : Terminal} (c : Char) (h : Reports t t' ∧ t'.Sound K rows cols) :
    Guarded False (t'.print c) fun t'' => Reports t t'' ∧ t''.Sound K rows cols :=
  (h.1.thenReports (print_reports h.2 c)).and (.of_yields (print_yields h.2 c))

theorem repeat_reports (sound : t.Sound K rows cols) (n : Nat) :
    Guarded False (t.repeat n) (Reports t) := by
  unfold «repeat»
  split
  · apply (Guarded.trivial _).bind
    intro cap _
    refine (Guarded.forRange (I := fun t' => Reports t t' ∧ t'.Sound K rows cols)
      ⟨.refl t, sound⟩ ?_).mono fun _ => And.left
    exact fun _ _ _ _ h => print_reportsSound _ h
  · exact .ok (.refl t)

theorem eraseLine_reports (mode : Nat) (selective : Bool) (t : Terminal) :
    Guarded False (t.eraseLine mode selective) (Reports t) := by
  refine (eraseLine_touches mode selective t).mono ?_
  rintro t' (rfl | touches)
  · exact .of_eq rfl rfl rfl
  · exact .of_touches touches

theorem clearTabs_reports (mode : Nat) (t : Terminal) : Reports t (t.clearTabs mode) := by
  unfold clearTabs
  split
  · exact reports_setTab false t
  · exact .of_eq rfl rfl rfl
  · exact .refl t

theorem sgr_reports (params : Params) (t : Terminal) : Reports t (t.sgr params) := by
  unfold sgr
  dsimp only
  split
  · exact .of_eq rfl rfl rfl
  · exact .of_touches (touches_of_eq rfl rfl)

theorem setDecModes_reports (params : Params) (set : Bool) (t : Terminal) :
    Guarded False (t.setDecModes params set) (Reports t) :=
  Guarded.forEach (.refl t) fun _ _ t' reports =>
    reports.thenReports (reports_of_touches (setDecMode_touches _ set t'))

theorem statusReport_reports (mode : Nat) (t : Terminal) :
    Guarded False (t.statusReport mode) (Reports t) := by
  unfold statusReport
  split
  · exact .ok (reports_respond _ t)
  · apply (Guarded.trivial _).bind
    rintro ⟨top, bot⟩ _
    apply (Guarded.trivial _).bind
    intro row _
    apply (Guarded.trivial _).bind
    intro col _
    exact .pure (reports_respond _ t)
  · exact .ok (.refl t)

theorem extendedCursorReport_reports (t : Terminal) :
    Guarded False t.extendedCursorReport (Reports t) := by
  unfold extendedCursorReport
  apply (Guarded.trivial _).bind
  intro row _
  apply (Guarded.trivial _).bind
  intro col _
  exact .pure (reports_respond _ t)

theorem windowOps_reports (op : Nat) (t : Terminal) :
    Guarded False (t.windowOps op) (Reports t) := by
  unfold windowOps
  split
  · apply (Guarded.trivial _).bind
    intro height _
    apply (Guarded.trivial _).bind
    intro width _
    exact .pure (reports_respond _ t)
  · exact .ok (reports_respond _ t)
  · exact .ok (reports_respond _ t)
  · exact .ok (.refl t)

theorem csiPlain_reports (sound : t.Sound K rows cols) (params : Params) (final : Char) :
    Guarded False (t.csiPlain params final) (Reports t) := by
  have home {x : Checked Terminal} (hx : Guarded False x t.Touches) :
      Guarded False (x >>= fun t => return { t with cursor.col := 0 }) (Reports t) :=
    hx.bind fun t' touches => .pure (.of_touches (touches.after (edits_home t')))
  unfold csiPlain
  split
  · exact reports_of_touches (cursorUp_touches _ t)
  · exact reports_of_touches (cursorDown_touches _ t)
  · exact reports_of_touches (setCol_touches _ t)
  · exact .ok (.of_touches (touches_of_eq rfl rfl))
  · exact home (cursorDown_touches _ t)
  · exact home (cursorUp_touches _ t)
  · exact reports_of_touches (columnAbsolute_touches params t)
  · exact reports_of_touches (columnAbsolute_touches params t)
  · exact reports_of_touches (cursorPosition_touches params t)
  · exact reports_of_touches (cursorPosition_touches params t)
  · exact Guarded.forRange (.refl t) fun _ t' _ _ reports =>
      reports.thenReports (reports_of_touches (horizontalTab_touches t'))
  · exact reports_of_touches (eraseDisplay_touches _ false t)
  · exact eraseLine_reports _ false t
  · exact reports_of_mayTouch (insertLines_mayTouch _ t)
  · exact reports_of_mayTouch (deleteLines_mayTouch _ t)
  · exact reports_of_touches (deleteChars_touches sound _)
  · exact reports_of_touches (scrollUpN_touches _ t)
  · exact reports_of_touches (scrollDownN_touches _ t)
  · exact reports_of_touches (eraseChars_touches _ t)
  · exact Guarded.forRange (.refl t) fun _ _ _ _ reports =>
      .pure (reports.trans (.of_touches (touches_of_eq rfl rfl)))
  · exact reports_of_touches (insertChars_touches sound _)
  · exact reports_of_touches (setCol_touches _ t)
  · exact repeat_reports sound _
  · split
    · exact .ok (reports_respond _ t)
    · exact .ok (.refl t)
  · exact reports_of_touches (rowAbsolute_touches params t)
  · exact reports_of_touches (rowRelative_touches _ t)
  · exact .ok (clearTabs_reports _ t)
  · exact .ok (.of_touches (setAnsiMode_touches params true t))
  · exact .ok (.of_touches (setAnsiMode_touches params false t))
  · exact .ok (sgr_reports params t)
  · exact statusReport_reports _ t
  · exact reports_of_mayTouch (setRegion_mayTouch params t)
  · exact .ok (reports_saveCursor t)
  · exact reports_of_touches (restoreCursor_touches t)
  · exact windowOps_reports _ t
  · exact .ok (.refl t)

theorem csiQuestion_reports (params : Params) (final : Char) (t : Terminal) :
    Guarded False (t.csiQuestion params final) (Reports t) := by
  unfold csiQuestion
  split
  · exact reports_of_touches (eraseDisplay_touches _ true t)
  · exact eraseLine_reports _ true t
  · exact setDecModes_reports params true t
  · exact setDecModes_reports params false t
  · split
    · exact extendedCursorReport_reports t
    · exact .ok (.refl t)
  · exact .ok (reports_respond _ t)
  · exact .ok (.refl t)

theorem csiMarked_reports (params : Params) (marker final : Char) (t : Terminal) :
    Reports t (t.csiMarked params marker final) := by
  unfold csiMarked
  split
  · exact reports_respond _ t
  · exact reports_respond _ t
  · exact reports_modifyKitty _ t
  · exact reports_modifyKitty _ t
  · exact reports_modifyKitty _ t
  · exact .refl t

theorem csiWith_reports (params : Params) (intermediate final : Char) (t : Terminal) :
    Guarded False (t.csiWith params intermediate final) (Reports t) := by
  unfold csiWith
  split
  · exact .ok (reports_respond _ t)
  · exact reports_of_touches (softReset_touches t)
  · exact .ok (.of_eq rfl rfl rfl)
  · exact .ok (.of_eq rfl rfl rfl)
  · exact .ok (.of_mayTouch (popColors_mayTouch t))
  · exact .ok (reports_respond _ t)
  · dsimp only
    split
    · exact .ok (.of_touches (touches_of_eq rfl rfl))
    · exact .ok (.refl t)
  · exact .ok (.refl t)

theorem csiDispatch_reports (sound : t.Sound K rows cols) (params : Params)
    (intermediates : Bytes) (marker finalByte : UInt8) :
    Guarded False (t.csiDispatch params intermediates marker finalByte) (Reports t) := by
  unfold csiDispatch
  dsimp only
  split
  · split
    · exact csiPlain_reports sound params _
    · exact csiQuestion_reports params _ t
    · exact .ok (csiMarked_reports params _ _ t)
  · split
    · exact csiWith_reports params _ _ t
    · split
      · exact .ok (reports_respond _ t)
      · exact .ok (.refl t)
    · exact .ok (.refl t)

/-! ### Strings -/

theorem setPaletteColor_reports (bel : Bool) (idx spec : List Char) (t : Terminal) :
    Guarded False (t.setPaletteColor bel idx spec) (Reports t) := by
  unfold setPaletteColor
  split
  · exact .pure (.refl t)
  split
  · exact .pure (.refl t)
  split
  · apply (Guarded.trivial _).bind
    intro color _
    apply (Guarded.trivial _).bind
    intro report _
    exact .pure (reports_respond _ t)
  · apply (Guarded.trivial _).bind
    intro parsed _
    split
    · apply (Guarded.trivial _).bind
      intro palette _
      exact .pure (.of_touches (touches_of_eq rfl rfl))
    · exact .pure (.refl t)

theorem oscPalette_reports (bel : Bool) (pairs : List (List Char)) (t : Terminal) :
    Guarded False (oscPalette bel pairs t) (Reports t) := by
  fun_induction oscPalette bel pairs t with
  | case1 idx spec rest t ih =>
    refine (setPaletteColor_reports bel idx spec t).bind ?_
    intro t' reports
    exact reports.thenReports (ih t')
  | case2 => exact .pure (.refl _)

theorem oscDynamicColor_reports (code : Nat) (rest : List Char) (bel : Bool) (t : Terminal) :
    Guarded False (t.oscDynamicColor code rest bel) (Reports t) := by
  have set (color : Option Rgb) : t.Edits (t.setDynamicColor code color) := by
    unfold setDynamicColor
    split <;> exact edits_of_eq rfl rfl
  unfold oscDynamicColor
  split
  · apply (Guarded.trivial _).bind
    intro report _
    exact .pure (reports_respond _ t)
  · apply (Guarded.trivial _).bind
    intro parsed _
    split
    · exact .pure (.of_touches (set _).touch)
    · exact .pure (.refl t)

theorem oscResetPalette_reports (rest : List Char) (t : Terminal) :
    Guarded False (t.oscResetPalette rest) (Reports t) := by
  unfold oscResetPalette
  split
  · exact .pure (.of_touches (touches_of_eq rfl rfl))
  · apply (Guarded.trivial _).bind
    intro palette _
    exact .pure (.of_touches (touches_of_eq rfl rfl))

theorem oscClipboard_reports (rest : List Char) (bel : Bool) (t : Terminal) :
    Guarded False (t.oscClipboard rest bel) (Reports t) := by
  have stored (data : Bytes) (kinds : List Char) :
      t.Edits (kinds.foldl (setSelection data) t) := by
    refine List.foldlRecOn kinds (setSelection data) (.refl t) ?_
    intro t' edits kind _
    refine edits.trans ?_
    unfold setSelection
    split <;> exact edits_of_eq rfl rfl
  unfold oscClipboard
  dsimp only
  split
  · apply (Guarded.trivial _).bind
    intro kind _
    exact .pure (reports_respond _ t)
  · split
    · exact .pure (.of_touches ((stored _ _).touches (touches_of_eq rfl rfl)))
    · exact .pure (.refl t)

theorem oscTextSize_reports (sound : t.Sound K rows cols) (rest : List Char) :
    Guarded False (t.oscTextSize rest) (Reports t) := by
  unfold oscTextSize
  generalize (splitOnce ';' rest).getD ([], rest) = split_
  obtain ⟨metadata, text⟩ := split_
  have noted : Reports t { t with lastTextSize := some rest } := .of_eq rfl rfl rfl
  dsimp only
  split
  · exact .pure noted
  · have printed : Guarded False (forEach text { t with lastTextSize := some rest } fun ch t =>
        t.print ch) (Reports t) :=
      (Guarded.forEach (I := fun t' => Reports t t' ∧ t'.Sound K rows cols) ⟨noted, sound⟩
        fun ch _ _ h => print_reportsSound ch h).mono fun _ => And.left
    refine printed.bind ?_
    intro t₁ reports₁
    split
    · apply (Guarded.trivial _).bind
      intro last _
      exact .pure (reports₁.trans (.of_touches (touches_of_eq rfl rfl)))
    · exact .pure reports₁.touch

theorem oscPromptMark_reports (rest : List Char) (t : Terminal) :
    Guarded False (t.oscPromptMark rest) (Reports t) := by
  unfold oscPromptMark
  split
  · exact .pure (.refl t)
  · refine reports_of_touches (touches_of_edits ((Edits.refl t).moveRows fun P _ every => ?_))
    exact Screen.modifyRow_every every fun _ _ holds => .pure holds

end Controls

/-! ### A new link -/

section Link

variable {K : Parser → GraphicsState → Prop} {rows cols : Nat} {t : Terminal} {n : Nat}

/-- The links of cells numbered up to `n` are collected from a table as without the entry
past `n`. -/
theorem collectLinks_insert {cells : List Cell} (within : Screen.Cells (Cell.Within n) cells)
    {key : Nat} (fresh : n < key) {h : Hyperlink} {u : Terminal}
    (table : u.hyperlinks = t.hyperlinks.insert key h) (found : AssocMap (List Char)) :
    cells.foldl (Snapshot.collectLinks u) found = cells.foldl (Snapshot.collectLinks t) found := by
  refine List.foldl_ext _ _ _ ?_
  intro found cell mem
  have known : cell.hyperlink ≤ n := (within cell mem).link
  have absent : cell.hyperlink ≠ key := by omega
  unfold Snapshot.collectLinks
  rw [table, AssocMap.lookup_insert, if_neg absent]

/-- No cell carries the link that is given out. -/
theorem reports_newLink (next : Nat) (later : t.nextHyperlink < next) (h : Hyperlink) :
    Reports t { t with
      nextHyperlink := next, hyperlinks := t.hyperlinks.insert next h
      cursor.hyperlink := next } := by
  refine ⟨fun linked => ?_, fun edged => ⟨edged.primary, edged.alt⟩, Nat.le_refl _,
    fun linked _ => ?_⟩
  · have more {k : Nat} (known : k ≤ t.nextHyperlink) : k ≤ next := by omega
    have known {c : Cell} (within : c.Within t.nextHyperlink) : c.Within next :=
      ⟨more within.link, within.width⟩
    have every {s : Screen} (h : s.Every (Screen.Cells (Cell.Within t.nextHyperlink))) :
        s.Every (Screen.Cells (Cell.Within next)) :=
      ⟨fun r mem c inside => known (h.grid r mem c inside),
        fun r mem c inside => known (h.scrollback r mem c inside)⟩
    refine ⟨every linked.primary, every linked.alt, Nat.le_refl _, more linked.savedPrimary,
      more linked.savedAlt, ?_⟩
    intro e mem
    rcases List.mem_append.mp mem with old | new
    · exact more (linked.hyperlinks e (List.mem_of_mem_filter old))
    · rw [List.mem_singleton.mp new]
  · have active : t.scr.Every (Screen.Cells (Cell.Within t.nextHyperlink)) := by
      unfold scr
      split
      · exact linked.alt
      · exact linked.primary
    have shown := active.visibleRows
    unfold Snapshot.fromTerm
    change (t.scr.visibleRows >>= _) = (t.scr.visibleRows >>= _)
    cases visible : t.scr.visibleRows with
    | error panic => rfl
    | ok grid =>
      have within : Screen.Cells (Cell.Within t.nextHyperlink) (grid.flatMap Row.cells) := by
        intro c mem
        obtain ⟨r, inside, mem⟩ := List.mem_flatMap.mp mem
        exact shown.of_eq_ok visible r inside c mem
      have same := collectLinks_insert (t := t) (u := { t with
        nextHyperlink := next, hyperlinks := t.hyperlinks.insert next h
        cursor.hyperlink := next }) within later rfl []
      dsimp only [Except.bind, bind]
      rw [same]
      rfl

theorem oscHyperlink_reports (rest : List Char) (t : Terminal) :
    Guarded False (t.oscHyperlink rest) (Reports t) := by
  unfold oscHyperlink
  generalize (splitOnce ';' rest).getD ([], rest) = split_
  obtain ⟨params, uri⟩ := split_
  dsimp only
  split
  · refine .pure ⟨fun linked => ?_, fun edged => ⟨edged.primary, edged.alt⟩, Nat.le_refl _,
      fun _ _ => rfl⟩
    exact { linked with cursor := Nat.zero_le _ }
  split
  · rename_i k h found
    refine .pure ⟨fun linked => ?_, fun edged => ⟨edged.primary, edged.alt⟩, Nat.le_refl _,
      fun _ _ => rfl⟩
    exact { linked with cursor := linked.hyperlinks _ (List.mem_of_find?_eq_some found) }
  · refine (Guarded.add.weaken False.elim).bind ?_
    rintro next ⟨rfl, _⟩
    exact .pure (reports_newLink _ (Nat.lt_succ_self _) _)

theorem oscCommand_reports (sound : t.Sound K rows cols) (code : Nat) (rest : List Char)
    (bel : Bool) : Guarded False (t.oscCommand code rest bel) (Reports t) := by
  unfold oscCommand
  split
  · exact .pure (.of_touches (touches_of_eq rfl rfl))
  · exact .pure (.of_touches (touches_of_eq rfl rfl))
  · exact .pure (.of_touches (touches_of_eq rfl rfl))
  · exact oscPalette_reports bel _ t
  · apply (Guarded.trivial _).bind
    intro pwd _
    exact .pure (.of_touches (touches_of_eq rfl rfl))
  · exact oscHyperlink_reports rest t
  · exact .pure (.of_touches (touches_of_eq rfl rfl))
  · exact oscDynamicColor_reports _ rest bel t
  · exact oscDynamicColor_reports _ rest bel t
  · exact oscDynamicColor_reports _ rest bel t
  · exact .pure (.of_eq rfl rfl rfl)
  · exact oscClipboard_reports rest bel t
  · exact oscTextSize_reports sound rest
  · exact .pure (.of_touches (touches_of_eq rfl rfl))
  · exact oscResetPalette_reports rest t
  · exact .pure (.of_eq rfl rfl rfl)
  · exact .pure (.of_eq rfl rfl rfl)
  · exact .pure (.of_eq rfl rfl rfl)
  · exact oscPromptMark_reports rest t
  · exact .pure (.refl t)

theorem oscDispatch_reports (sound : t.Sound K rows cols) (data : Bytes) (bel : Bool) :
    Guarded False (t.oscDispatch data bel) (Reports t) := by
  unfold oscDispatch
  dsimp only
  split
  · exact oscCommand_reports sound _ _ bel
  · exact .pure (.refl t)

theorem dcsDispatch_reports (intermediates : Bytes) (finalByte : UInt8) (data : Bytes)
    (t : Terminal) :
    Guarded False (t.dcsDispatch intermediates finalByte data) (Reports t) := by
  unfold dcsDispatch
  split
  · split
    · unfold decrqss
      apply (Guarded.trivial _).bind
      intro resp _
      split
      · exact .pure (reports_respond _ t)
      · exact .pure (reports_respond _ t)
    · exact .pure (.refl t)
  · split
    · unfold xtgettcap
      split
      · exact .pure (.refl t)
      · refine Guarded.forEach (.refl t) ?_
        intro nameHex _ t' reports
        apply (Guarded.trivial _).bind
        intro reply _
        exact .pure (reports.trans (reports_respond reply t'))
    · exact .pure (.refl t)
  · exact .pure (.refl t)

theorem apcDispatch_reports (files : Files) (data : Bytes) (t : Terminal) :
    Guarded False (t.apcDispatch files data) (Reports t) := by
  unfold apcDispatch
  split
  · exact .pure (.refl t)
  split
  · apply (Guarded.trivial _).bind
    rintro ⟨graphics, resp, advance⟩ _
    have stored : t.Edits { t with graphics } := edits_of_eq rfl rfl
    have answered : t.Edits (resp.elim { t with graphics } ({ t with graphics }.respond ·)) := by
      cases resp with
      | none => exact stored
      | some reply => exact stored.trans (edits_of_eq rfl rfl)
    refine reports_of_touches (touches_of_edits ?_)
    split
    · unfold advanceCursor
      apply (Guarded.trivial _).bind
      intro lastRow _
      apply (Guarded.trivial _).bind
      intro lastCol _
      exact .pure (answered.trans (edits_of_eq rfl rfl))
    · exact .pure answered
  · exact .pure (.refl t)

theorem dispatch_reports (h : t.WellFormed K) (files : Files) (action : Action) :
    Guarded False (t.dispatch files action) (Reports t) := by
  obtain ⟨rows, cols, sound⟩ := h
  cases action with
  | print c => exact print_reports sound c
  | execute b => exact execute_reports b t
  | csi params intermediates marker finalByte =>
    exact csiDispatch_reports sound params intermediates marker finalByte
  | esc intermediates finalByte => exact escDispatch_reports intermediates finalByte t
  | osc data bel => exact oscDispatch_reports sound data bel
  | dcs params intermediates finalByte data =>
    exact dcsDispatch_reports intermediates finalByte data t
  | apc data => exact apcDispatch_reports files data t

theorem processByte_reports (h : t.WellFormed Unknown) (files : Files) (b : UInt8) :
    Guarded False (t.processByte files b) fun t' => Reports t t' ∧ t'.WellFormed Unknown := by
  refine Guarded.and ?_ (processByte_keeps h files b)
  apply (Guarded.trivial _).bind
  rintro ⟨parser, actions⟩ _
  have parsed : Reports t { t with parser } := .of_eq rfl rfl rfl
  obtain ⟨rows, cols, sound⟩ := h
  have formed : { t with parser }.WellFormed Unknown :=
    ⟨rows, cols, { sound with known := trivial }⟩
  refine (Guarded.forEach (I := fun t' => Reports t t' ∧ t'.WellFormed Unknown) ⟨parsed, formed⟩
    ?_).mono fun _ => And.left
  rintro action _ t' ⟨reports, formed⟩
  exact (reports.thenReports (dispatch_reports formed files action)).and
    (dispatch_guarded (fun _ _ _ => trivial) formed False.elim fun _ _ _ _ =>
      (Guarded.trivial _).mono fun _ => id)

end Link

/-! ### Runs -/

/-- What the owner of a terminal does to it. -/
inductive Use where
  | byte (files : Files) (b : UInt8)
  | resize (rows cols : UInt16)
  | takeResponses
  | takeScreenSwitch

def Use.apply (use : Use) (t : Terminal) : Checked Terminal :=
  match use with
  | .byte files b => t.processByte files b
  | .resize rows cols => t.resize rows.toNat cols.toNat
  | .takeResponses => return t.takeResponses.2
  | .takeScreenSwitch => return t.takeScreenSwitch.2

/-- Uses of a terminal of any size in any order, as long as none of them panics. -/
def usage : Transition Terminal where
  init t := ∃ (rows cols : UInt16) (scrollback : Nat),
    t = withScrollback rows.toNat cols.toNat scrollback
  step t t' := ∃ use : Use, use.apply t = .ok t'

/-- Bytes processed are uses of the terminal. -/
theorem process_runs (files : Files) (bytes : Bytes) {t t' : Terminal}
    (processed : t.process files bytes = .ok t') : usage.Runs t t' := by
  induction bytes generalizing t with
  | nil =>
    cases processed
    exact .refl
  | cons b rest ih =>
    obtain ⟨t₁, first, others⟩ := eq_ok_of_bind processed
    exact .head ⟨.byte files b, first⟩ (ih others)

/-- What every use of a terminal keeps. -/
structure Kept (t : Terminal) : Prop where
  formed : t.WellFormed Unknown
  linked : t.Linked
  edged : t.Edged

section Runs

variable {t t' : Terminal}

theorem kept_withScrollback (rows cols : UInt16) (scrollback : Nat) :
    Kept (withScrollback rows.toNat cols.toNat scrollback) :=
  ⟨(sound_withScrollback trivial rows.toNat_lt cols.toNat_lt scrollback).wellFormed,
    linked_withScrollback _ _ _, edged_withScrollback _ _ _⟩

theorem Use.reports (h : t.WellFormed Unknown) (use : Use) :
    Guarded False (use.apply t) fun t' => Reports t t' ∧ t'.WellFormed Unknown := by
  obtain ⟨rows, cols, sound⟩ := h
  cases use with
  | byte files b => exact processByte_reports sound.wellFormed files b
  | resize rows cols =>
    refine (reports_of_mayTouch (resize_mayTouch _ _ t)).and (.of_yields ?_)
    exact (resize_yields sound rows.toNat_lt cols.toNat_lt).mono fun _ => Sound.wellFormed
  | takeResponses => exact .pure ⟨.of_eq rfl rfl rfl, rows, cols, { sound with }⟩
  | takeScreenSwitch => exact .pure ⟨.of_eq rfl rfl rfl, rows, cols, { sound with }⟩

theorem step_reports (kept : Kept t) (step : usage.step t t') : Reports t t' ∧ Kept t' := by
  obtain ⟨use, applied⟩ := step
  obtain ⟨reports, formed⟩ := (use.reports kept.formed).of_eq_ok applied
  exact ⟨reports, formed, reports.linked kept.linked, reports.edge kept.edged⟩

theorem kept_invariant : usage.Invariant Kept where
  base := by
    rintro t ⟨rows, cols, scrollback, rfl⟩
    exact kept_withScrollback rows cols scrollback
  step _ _ kept step := (step_reports kept step).2

/-- However long a terminal is used. -/
theorem runs_report (kept : Kept t) (runs : usage.Runs t t') : Reports t t' := by
  have both := usage.runs_preserve (I := fun t' => Reports t t' ∧ Kept t')
    (fun _ _ h step => ⟨h.1.trans (step_reports h.2 step).1, (step_reports h.2 step).2⟩)
    runs ⟨.refl t, kept⟩
  exact both.1

/-- Where the snapshots before and after a use differ, the generations do. -/
theorem change_noticed (reachable : usage.Reachable t) (use : Use) (applied : use.apply t = .ok t')
    (differs : Snapshot.fromTerm t' ≠ Snapshot.fromTerm t) : t'.generation ≠ t.generation := by
  intro still
  have kept := kept_invariant.reachable reachable
  exact differs ((step_reports kept ⟨use, applied⟩).1.unseen kept.linked still)

/-- A bell rung in a new terminal. -/
theorem change_noticed_bell : ∃ t, (Use.byte (fun _ => none) 0x07).apply (new 1 2) = .ok t ∧
    t.generation ≠ (new 1 2).generation := by
  obtain ⟨t, rung⟩ : ∃ t, (Use.byte (fun _ => none) 0x07).apply (new 1 2) = .ok t := ⟨_, rfl⟩
  refine ⟨t, rung, change_noticed (.of_init ⟨1, 2, DEFAULT_SCROLLBACK, rfl⟩) _ rung ?_⟩
  cases rung
  intro same
  have counts := congrArg (fun s => s.toOption.map Snapshot.bellCount) same
  exact absurd counts (by decide)

end Runs

end Posh.Remote
