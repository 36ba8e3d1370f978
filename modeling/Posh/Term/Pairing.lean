import Posh.Term.WideCells

/-!
Wide cells stay paired.

A byte stream leaves every row whole as long as none of its controls cuts a pair: no erase takes
one half of a wide character, and no wide character is printed where the blank it leaves behind
would take one.
-/

namespace Posh.Term

open Posh.Lib

namespace Terminal

variable {K : Parser → GraphicsState → Prop} {rows cols : Nat} {t : Terminal}

/-! ### Controls that cut no pair -/

/-- Each copy that REP prints. -/
def RepeatUncut (n : Nat) (t : Terminal) : Prop :=
  ∀ c ∈ t.lastPrinted,
    EachPass (fun _ => PrintUncut c) (fun _ => print c) (List.range' 0 (min n (t.cols * t.rows))) t

/-- Sequences without private marker and intermediates. -/
def PlainUncut (params : Params) (final : Char) (t : Terminal) : Prop :=
  (final = 'J' → t.EraseUncut true (param params 0 0) false) ∧
    (final = 'K' → t.EraseUncut false (param params 0 0) false) ∧
    (final = 'b' → t.RepeatUncut (paramOr params 0 1))

/-- Sequences with the private marker `?`. -/
def QuestionUncut (params : Params) (final : Char) (t : Terminal) : Prop :=
  (final = 'J' → t.EraseUncut true (param params 0 0) true) ∧
    (final = 'K' → t.EraseUncut false (param params 0 0) true)

def CsiUncut (params : Params) (intermediates : Bytes) (marker finalByte : UInt8) (t : Terminal) :
    Prop :=
  let final := Char.ofNat finalByte.toNat
  intermediates = [] →
    (Char.ofNat marker.toNat = '\x00' → t.PlainUncut params final) ∧
      (Char.ofNat marker.toNat = '?' → t.QuestionUncut params final)

/-- OSC 66 prints its text. -/
def OscUncut (data : Bytes) (t : Terminal) : Prop :=
  let s := fromUtf8Lossy data
  let (code, rest) := (splitOnce ';' s).getD (s, [])
  parseU16 code = some 66 →
    EachPass PrintUncut print ((splitOnce ';' rest).getD ([], rest)).2
      { t with lastTextSize := some rest }

def ActionUncut (action : Action) (t : Terminal) : Prop :=
  match action with
  | .print c => t.PrintUncut c
  | .csi params intermediates marker finalByte => t.CsiUncut params intermediates marker finalByte
  | .osc data _ => t.OscUncut data
  | _ => True

/-- No action that the byte completes cuts a pair. -/
def ByteUncut (files : Files) (b : UInt8) (t : Terminal) : Prop :=
  Guarded False (t.parser.advance b) fun (parser, actions) =>
    EachPass ActionUncut (dispatch files) actions { t with parser }

instance (n : Nat) (t : Terminal) : Decidable (t.RepeatUncut n) :=
  inferInstanceAs (Decidable (∀ c ∈ t.lastPrinted, EachPass _ _ _ t))

instance (params : Params) (final : Char) (t : Terminal) : Decidable (t.PlainUncut params final) :=
  inferInstanceAs (Decidable ((_ → EraseUncut _ _ _ t) ∧ (_ → EraseUncut _ _ _ t) ∧
    (_ → RepeatUncut _ t)))

instance (params : Params) (final : Char) (t : Terminal) :
    Decidable (t.QuestionUncut params final) :=
  inferInstanceAs (Decidable ((_ → EraseUncut _ _ _ t) ∧ (_ → EraseUncut _ _ _ t)))

instance (params : Params) (intermediates : Bytes) (marker finalByte : UInt8) (t : Terminal) :
    Decidable (t.CsiUncut params intermediates marker finalByte) :=
  inferInstanceAs (Decidable (_ → (_ → PlainUncut _ _ t) ∧ (_ → QuestionUncut _ _ t)))

instance (data : Bytes) (t : Terminal) : Decidable (t.OscUncut data) :=
  inferInstanceAs (Decidable (_ → EachPass PrintUncut print _ _))

instance : (action : Action) → (t : Terminal) → Decidable (t.ActionUncut action)
  | .print c, t => inferInstanceAs (Decidable (t.PrintUncut c))
  | .csi params intermediates marker finalByte, t =>
      inferInstanceAs (Decidable (t.CsiUncut params intermediates marker finalByte))
  | .osc data _, t => inferInstanceAs (Decidable (t.OscUncut data))
  | .execute _, _ | .esc _ _, _ | .dcs _ _ _ _, _ | .apc _, _ => inferInstanceAs (Decidable True)

instance (files : Files) (b : UInt8) (t : Terminal) : Decidable (t.ByteUncut files b) :=
  inferInstanceAs (Decidable (Guarded False _ fun out : Parser × List Action => EachPass _ _ out.2 _))

/-! ### Dispatch -/

theorem setDecModes_whole (every : t.EveryRow Whole) (params : Params) (set : Bool) :
    Guarded False (t.setDecModes params set) (·.EveryRow Whole) :=
  Guarded.forEach every fun p _ _ every => setDecMode_whole every (firstPart p) set

/-- Printing characters one after the other. -/
theorem prints_whole {γ : Type} (char : γ → Char) (h : t.Sound K rows cols)
    (every : t.EveryRow Whole) {xs : List γ}
    (uncut : EachPass (fun x => PrintUncut (char x)) (fun x => print (char x)) xs t) :
    Guarded False (forEach xs t fun x => print (char x)) (·.EveryRow Whole) := by
  refine (uncut.forEach (I := fun t' => t'.EveryRow Whole ∧ t'.Sound K rows cols) ⟨every, h⟩
    ?_).mono fun _ => And.left
  rintro x _ t' ⟨every', sound'⟩ met
  exact (print_whole sound' every' met).and (.of_yields (print_yields sound' _))

theorem repeat_whole (h : t.Sound K rows cols) (every : t.EveryRow Whole) {n : Nat}
    (uncut : t.RepeatUncut n) : Guarded False (t.repeat n) (·.EveryRow Whole) := by
  unfold «repeat»
  split
  · rename_i c last
    refine (Guarded.mul.weaken False.elim).bind ?_
    rintro cap ⟨rfl, _⟩
    exact prints_whole (fun _ => c) h every (uncut c last)
  · exact .ok every

theorem csiPlain_whole (h : t.Sound K rows cols) (every : t.EveryRow Whole) {params : Params}
    {final : Char} (uncut : t.PlainUncut params final) :
    Guarded False (t.csiPlain params final) (·.EveryRow Whole) := by
  have moved {x : Checked Terminal} (hx : Guarded False x t.Rearranges) :
      Guarded False x (·.EveryRow Whole) := Rearranges.whole every hx
  unfold csiPlain
  split
  · exact moved (cursorUp_rearranges _ t)
  · exact moved (cursorDown_rearranges _ t)
  · exact moved (setCol_rearranges _ t)
  · exact .ok ⟨every.primary, every.alt⟩
  · exact (moved (cursorDown_rearranges _ t)).bind fun _ every => .pure ⟨every.primary, every.alt⟩
  · exact (moved (cursorUp_rearranges _ t)).bind fun _ every => .pure ⟨every.primary, every.alt⟩
  · exact (Guarded.trivial _).bind fun col _ => moved (setCol_rearranges col t)
  · exact (Guarded.trivial _).bind fun col _ => moved (setCol_rearranges col t)
  · exact (Guarded.trivial _).bind fun row _ => (Guarded.trivial _).bind fun col _ =>
      moved (moveTo_rearranges row col t)
  · exact (Guarded.trivial _).bind fun row _ => (Guarded.trivial _).bind fun col _ =>
      moved (moveTo_rearranges row col t)
  · exact Guarded.forRange every fun _ t' _ _ every =>
      Rearranges.whole every (horizontalTab_rearranges t')
  · exact eraseDisplay_whole h every (uncut.1 rfl)
  · exact eraseLine_whole h every (uncut.2.1 rfl)
  · exact moved (insertLines_rearranges _ t)
  · exact moved (deleteLines_rearranges _ t)
  · exact deleteChars_whole h every _
  · exact moved (scrollUpN_rearranges _ t)
  · exact moved (scrollDownN_rearranges _ t)
  · exact eraseChars_whole h every _
  · exact Guarded.forRange every fun _ _ _ _ every => .pure ⟨every.primary, every.alt⟩
  · exact insertChars_whole h every _
  · exact moved (setCol_rearranges _ t)
  · exact repeat_whole h every (uncut.2.2 rfl)
  · refine .ok ?_
    split
    · exact ⟨every.primary, every.alt⟩
    · exact every
  · exact moved (rowAbsolute_rearranges params t)
  · exact (Guarded.trivial _).bind fun last _ => .pure ⟨every.primary, every.alt⟩
  · exact moved (.ok (clearTabs_rearranges _ t))
  · exact .ok ⟨every.primary, every.alt⟩
  · exact .ok ⟨every.primary, every.alt⟩
  · exact moved (.ok (sgr_rearranges params t))
  · exact moved (statusReport_rearranges _ t)
  · exact moved (setRegion_rearranges params t)
  · exact moved (.ok (setSaved_rearranges _ t))
  · exact moved (restoreCursor_rearranges t)
  · exact moved (windowOps_rearranges _ t)
  · exact .ok every

theorem csiQuestion_whole (h : t.Sound K rows cols) (every : t.EveryRow Whole) {params : Params}
    {final : Char} (uncut : t.QuestionUncut params final) :
    Guarded False (t.csiQuestion params final) (·.EveryRow Whole) := by
  unfold csiQuestion
  split
  · exact eraseDisplay_whole h every (uncut.1 rfl)
  · exact eraseLine_whole h every (uncut.2 rfl)
  · exact setDecModes_whole every params true
  · exact setDecModes_whole every params false
  · split
    · exact Rearranges.whole every (extendedCursorReport_rearranges t)
    · exact .ok every
  · exact .ok ⟨every.primary, every.alt⟩
  · exact .ok every

theorem csiDispatch_whole (h : t.Sound K rows cols) (every : t.EveryRow Whole) {params : Params}
    {intermediates : Bytes} {marker finalByte : UInt8}
    (uncut : t.CsiUncut params intermediates marker finalByte) :
    Guarded False (t.csiDispatch params intermediates marker finalByte) (·.EveryRow Whole) := by
  unfold csiDispatch
  dsimp only
  split
  · rename_i none_
    have bare : intermediates = [] := List.head?_eq_none_iff.mp (Option.map_eq_none_iff.mp none_)
    split
    · rename_i plain
      exact csiPlain_whole h every ((uncut bare).1 plain)
    · rename_i question
      exact csiQuestion_whole h every ((uncut bare).2 question)
    · exact Rearranges.whole every (.ok (csiMarked_rearranges params _ _ t))
  · split
    · exact Rearranges.whole every (csiWith_rearranges params _ _ t)
    · refine .ok ?_
      split
      · exact ⟨every.primary, every.alt⟩
      · exact every
    · exact .ok every

theorem escDispatch_whole (h : t.Sound K rows cols) (every : t.EveryRow Whole)
    (intermediates : Bytes) (finalByte : UInt8) :
    Guarded False (t.escDispatch intermediates finalByte) (·.EveryRow Whole) := by
  have moved {x : Checked Terminal} (hx : Guarded False x t.Rearranges) :
      Guarded False x (·.EveryRow Whole) := Rearranges.whole every hx
  have homed : t.Rearranges { t with cursor.col := 0 } := rearranges_of_eq rfl
  unfold escDispatch
  split
  · split
    · exact moved (.ok (setSaved_rearranges _ t))
    · exact moved (restoreCursor_rearranges t)
    · exact moved (index_rearranges t)
    · exact moved (homed.then (index_rearranges _))
    · exact .ok ⟨every.primary, every.alt⟩
    · exact moved (reverseIndex_rearranges t)
    · exact moved (fullReset_rearranges t)
    · exact .ok ⟨every.primary, every.alt⟩
    · exact .ok ⟨every.primary, every.alt⟩
    · exact .ok ⟨every.primary, every.alt⟩
    · exact .ok every
  · split
    · exact decaln_whole h every
    · exact .ok every
  · exact .ok ⟨every.primary, every.alt⟩
  · exact .ok ⟨every.primary, every.alt⟩
  · exact .ok every

theorem oscTextSize_whole (h : t.Sound K rows cols) (every : t.EveryRow Whole) {rest : List Char}
    (uncut : EachPass PrintUncut print ((splitOnce ';' rest).getD ([], rest)).2
      { t with lastTextSize := some rest }) :
    Guarded False (t.oscTextSize rest) (·.EveryRow Whole) := by
  have noted : { t with lastTextSize := some rest }.Sound K rows cols := h
  have every' : { t with lastTextSize := some rest }.EveryRow Whole := ⟨every.primary, every.alt⟩
  unfold oscTextSize
  generalize (splitOnce ';' rest).getD ([], rest) = parts at uncut ⊢
  obtain ⟨metadata, text⟩ := parts
  dsimp only at uncut ⊢
  split
  · exact .pure every'
  · refine (prints_whole id noted every' uncut).bind ?_
    intro t₁ every₁
    split
    · apply (Guarded.trivial _).bind
      intro last _
      exact .pure ⟨every₁.primary, every₁.alt⟩
    · exact .pure ⟨every₁.primary, every₁.alt⟩

theorem oscDispatch_whole (h : t.Sound K rows cols) (every : t.EveryRow Whole) {data : Bytes}
    (uncut : t.OscUncut data) (bel : Bool) :
    Guarded False (t.oscDispatch data bel) (·.EveryRow Whole) := by
  unfold OscUncut at uncut
  unfold oscDispatch
  dsimp only at uncut ⊢
  generalize (splitOnce ';' (fromUtf8Lossy data)).getD (fromUtf8Lossy data, []) = parts at uncut ⊢
  obtain ⟨code, rest⟩ := parts
  dsimp only at uncut ⊢
  cases parsed : parseU16 code with
  | none => exact .pure every
  | some n =>
    by_cases textSize : n = 66
    · subst textSize
      exact oscTextSize_whole h every (uncut parsed)
    · exact Rearranges.whole every (oscCommand_rearranges textSize rest bel t)

theorem dispatch_whole (h : t.Sound K rows cols) (every : t.EveryRow Whole) (files : Files)
    {action : Action} (uncut : t.ActionUncut action) :
    Guarded False (t.dispatch files action) (·.EveryRow Whole) := by
  cases action with
  | print c => exact print_whole h every uncut
  | execute b => exact Rearranges.whole every (execute_rearranges b t)
  | csi params intermediates marker finalByte => exact csiDispatch_whole h every uncut
  | esc intermediates finalByte => exact escDispatch_whole h every intermediates finalByte
  | osc data bel => exact oscDispatch_whole h every uncut bel
  | dcs params intermediates finalByte data =>
    exact Rearranges.whole every (dcsDispatch_rearranges intermediates finalByte data t)
  | apc data => exact Rearranges.whole every (apcDispatch_rearranges files data t)

end Terminal

/-! ### Runs -/

/-- No byte of the event cuts a pair. -/
def Event.Uncut (e : Event) (t : Terminal) : Prop :=
  match e with
  | .process files bytes => EachPass (Terminal.ByteUncut files) (Terminal.processByte files) bytes t
  | .resize _ _ => True

/-- Sessions whose controls cut no pair. -/
def uncut : Transition Terminal where
  init := Terminal.Fresh
  step t t' := ∃ e : Event, e.Admissible ∧ e.Uncut t ∧ e.apply t = .ok t'

namespace Terminal

variable {t : Terminal}

/-- Well-formed, and every row whole. -/
structure Paired (t : Terminal) : Prop where
  formed : t.WellFormed Unknown
  every : t.EveryRow Whole

theorem dispatch_paired (h : t.Paired) (files : Files) {action : Action}
    (uncut : t.ActionUncut action) : Guarded False (t.dispatch files action) Paired := by
  obtain ⟨⟨rows, cols, sound⟩, every⟩ := h
  have formed : Guarded False (t.dispatch files action) (·.WellFormed Unknown) :=
    dispatch_guarded (fun _ _ _ => trivial) sound.wellFormed False.elim fun _ _ _ _ =>
      (Guarded.trivial _).mono fun _ => id
  exact (formed.and (dispatch_whole sound every files uncut)).mono fun _ both => ⟨both.1, both.2⟩

theorem processByte_paired (h : t.Paired) {files : Files} {b : UInt8} (uncut : t.ByteUncut files b) :
    Guarded False (t.processByte files b) Paired := by
  unfold processByte
  refine Guarded.bind uncut ?_
  rintro ⟨parser, actions⟩ each
  obtain ⟨rows, cols, sound⟩ := h.formed
  have parsed : { t with parser }.Paired :=
    ⟨⟨rows, cols, { sound with known := trivial }⟩, ⟨h.every.primary, h.every.alt⟩⟩
  exact each.forEach parsed fun action _ _ paired met => dispatch_paired paired files met

theorem paired_invariant : uncut.Invariant Paired where
  base := by
    rintro t ⟨rows, cols, scrollback, _, rows_lt, _, cols_lt, rfl⟩
    exact ⟨(sound_withScrollback trivial rows_lt cols_lt scrollback).wellFormed,
      Screen.every_new whole_blanks .., Screen.every_new whole_blanks ..⟩
  step := by
    rintro t t' paired ⟨e, admissible, met, eq⟩
    cases e with
    | process files bytes =>
      have keeps : Guarded False (t.process files bytes) Paired :=
        EachPass.forEach met paired fun b _ _ paired met => processByte_paired paired met
      exact keeps.of_eq_ok eq
    | resize rows cols =>
      exact ⟨step_keeps paired.formed ⟨.resize rows cols, admissible, eq⟩,
        (resize_whole paired.every rows cols).of_eq_ok eq⟩

/-- In every state that a session reaches whose controls cut no pair, each wide cell has its
spacer and each spacer its wide cell. -/
theorem wide_paired (h : uncut.Reachable t) :
    ∀ row ∈ t.primary.grid ++ t.alt.grid, Whole row.cells := by
  obtain ⟨_, every⟩ := paired_invariant.reachable h
  intro row mem
  rcases List.mem_append.mp mem with primary | alt
  · exact every.primary.grid row primary
  · exact every.alt.grid row alt

/-- A wide character, and an erase behind it. -/
theorem wide_paired_erased :
    Yields ((new 1 3).process (fun _ => none) [0xE6, 0xBC, 0xA2, 0x1B, 0x5B, 0x4B]) fun t =>
      ∀ row ∈ t.primary.grid ++ t.alt.grid, Whole row.cells := by
  have fresh : uncut.Reachable (new 1 3) :=
    .of_init ⟨1, 3, DEFAULT_SCROLLBACK, by decide, by decide, by decide, by decide, rfl⟩
  have met : (Event.process (fun _ => none) [0xE6, 0xBC, 0xA2, 0x1B, 0x5B, 0x4B]).Uncut (new 1 3) :=
    show EachPass _ _ _ _ by decide +kernel
  obtain ⟨t, eq, _⟩ : Yields ((new 1 3).process (fun _ => none) [0xE6, 0xBC, 0xA2, 0x1B, 0x5B, 0x4B])
      fun _ => True := yields_iff.mpr (by decide +kernel)
  exact ⟨t, eq, wide_paired (fresh.tail ⟨.process (fun _ => none) _, trivial, met, eq⟩)⟩

/-- A wide character, and EL 1 with the cursor on its head. -/
theorem wide_torn : ¬ ∀ t, session.Reachable t →
    ∀ row ∈ t.primary.grid ++ t.alt.grid, Whole row.cells := by
  intro paired
  have fresh : session.Reachable (new 1 3) :=
    .of_init ⟨1, 3, DEFAULT_SCROLLBACK, by decide, by decide, by decide, by decide, rfl⟩
  obtain ⟨t, eq, spacer⟩ : Yields ((new 1 3).process (fun _ => none)
      [0xE6, 0xBC, 0xA2, 0x1B, 0x5B, 0x47, 0x1B, 0x5B, 0x31, 0x4B]) fun t =>
      ∃ row ∈ t.primary.grid, widthAt row.cells 0 = some 1 ∧ widthAt row.cells 1 = some 0 :=
    yields_iff.mpr (by decide +kernel)
  obtain ⟨row, mem, blank, spacer⟩ := spacer
  have whole := paired t (fresh.tail ⟨.process (fun _ => none) _, trivial, eq⟩) row
    (List.mem_append_left _ mem)
  have wide := (whole.pairs 0).mpr spacer
  rw [blank] at wide
  cases wide

end Terminal

end Posh.Term
