import Posh.Term.Reads
import Posh.Term.Registers
import Posh.Term.Runs

/-!
The registers over a stream.

What a stream does to them follows from the actions the parser reads in it; no
stream brings a control character into the grid.
-/

namespace Posh.Term

open Posh.Lib

namespace Terminal

variable {t t' : Terminal}

/-! ### Strings -/

theorem setPaletteColor_keeps (bel : Bool) (idx spec : List Char) (t : Terminal) :
    Guarded False (t.setPaletteColor bel idx spec) t.Keeps := by
  unfold setPaletteColor
  split
  · exact .pure (.refl t)
  split
  · exact .pure (.refl t)
  split
  · apply (Guarded.trivial _).bind
    intro color _
    apply (Guarded.trivial _).bind
    intro report _
    exact .pure (keeps_of_eq rfl rfl)
  · apply (Guarded.trivial _).bind
    intro parsed _
    split
    · apply (Guarded.trivial _).bind
      intro palette _
      exact .pure (keeps_of_eq rfl rfl)
    · exact .pure (.refl t)

theorem oscPalette_keeps (bel : Bool) : ∀ (parts : List (List Char)) (t : Terminal),
    Guarded False (oscPalette bel parts t) t.Keeps
  | [], t => .pure (.refl t)
  | [_], t => .pure (.refl t)
  | idx :: spec :: rest, t => by
    refine (setPaletteColor_keeps bel idx spec t).bind ?_
    intro t₁ keeps₁
    exact keeps₁.then (oscPalette_keeps bel rest t₁)

theorem setDynamicColor_keeps (code : Nat) (color : Option Rgb) (t : Terminal) :
    t.Keeps (t.setDynamicColor code color) := by
  unfold setDynamicColor
  split <;> exact keeps_of_eq rfl rfl

theorem oscDynamicColor_keeps (code : Nat) (rest : List Char) (bel : Bool) (t : Terminal) :
    Guarded False (t.oscDynamicColor code rest bel) t.Keeps := by
  unfold oscDynamicColor
  split
  · apply (Guarded.trivial _).bind
    intro report _
    exact .pure (keeps_of_eq rfl rfl)
  · apply (Guarded.trivial _).bind
    intro parsed _
    split
    · exact .pure ((setDynamicColor_keeps code _ t).trans (keeps_of_eq rfl rfl))
    · exact .pure (.refl t)

theorem oscResetPalette_keeps (rest : List Char) (t : Terminal) :
    Guarded False (t.oscResetPalette rest) t.Keeps := by
  unfold oscResetPalette
  split
  · exact .pure (keeps_of_eq rfl rfl)
  · apply (Guarded.trivial _).bind
    intro palette _
    exact .pure (keeps_of_eq rfl rfl)

theorem setSelection_keeps (data : Bytes) (kind : Char) (t : Terminal) :
    t.Keeps (setSelection data t kind) := by
  unfold setSelection
  split <;> exact keeps_of_eq rfl rfl

/-- Only the three slots are kept. -/
theorem clipboardTargets_graphic (sel : List Char) : ∀ c ∈ clipboardTargets sel, Term.Graphic c := by
  have named : ∀ c ∈ ['c', 'p', 's'], Term.Graphic c := forall_of_all rfl
  intro c mem
  unfold clipboardTargets at mem
  dsimp only at mem
  split at mem
  · rw [List.mem_singleton.mp mem]
    decide
  · exact named c (of_decide_eq_true (List.mem_filter.mp mem).2)

theorem oscClipboard_keeps (rest : List Char) (bel : Bool) (t : Terminal) :
    Guarded False (t.oscClipboard rest bel) t.Keeps := by
  have stored (data : Bytes) (kinds : List Char) : t.Keeps (kinds.foldl (setSelection data) t) := by
    induction kinds using List.reverseRecOn with
    | nil => exact .refl t
    | append_singleton kinds kind ih =>
      rw [List.foldl_append]
      exact ih.trans (setSelection_keeps data kind _)
  unfold oscClipboard
  dsimp only
  split
  · apply (Guarded.trivial _).bind
    intro kind _
    exact .pure (keeps_of_eq rfl rfl)
  · split
    · refine .pure ((stored _ _).trans ⟨rfl, fun g => ?_⟩)
      exact { g with clipboardKinds := clipboardTargets_graphic _ }
    · exact .pure (.refl t)

theorem oscTextSize_keeps {rest : List Char} (graphic : ∀ c ∈ rest, Term.Graphic c) (t : Terminal) :
    Guarded False (t.oscTextSize rest) t.Keeps := by
  have text_graphic : ∀ c ∈ ((splitOnce ';' rest).getD ([], rest)).2, Term.Graphic c :=
    fun c mem => graphic c (mem_of_splitOnce mem)
  have noted : t.Keeps { t with lastTextSize := some rest } := keeps_of_eq rfl rfl
  unfold oscTextSize
  generalize (splitOnce ';' rest).getD ([], rest) = parts at text_graphic ⊢
  obtain ⟨metadata, text⟩ := parts
  dsimp only
  split
  · exact .pure noted
  · refine Guarded.bind (p := t.Keeps) (Guarded.forEach noted ?_) ?_
    · intro c mem t' keeps
      exact keeps.then (print_keeps (text_graphic c mem) t')
    intro t₁ keeps₁
    split
    · apply (Guarded.trivial _).bind
      intro last _
      exact .pure (keeps₁.trans (keeps_of_eq rfl rfl))
    · exact .pure (keeps₁.trans (keeps_of_eq rfl rfl))

theorem oscPromptMark_keeps (rest : List Char) (t : Terminal) :
    Guarded False (t.oscPromptMark rest) t.Keeps := by
  unfold oscPromptMark
  split
  · exact .pure (.refl t)
  · refine Guarded.bind (p := t.Keeps) (modifyScr_keeps fun h => Screen.modifyRow_every h ?_) ?_
    · exact fun _ _ holds => .pure holds
    · intro t₁ keeps₁
      exact .pure (keeps₁.trans (keeps_of_eq rfl rfl))

/-- A link gets the characters of its string. -/
theorem oscHyperlink_keeps {rest : List Char} (graphic : ∀ c ∈ rest, Term.Graphic c) (t : Terminal) :
    Guarded False (t.oscHyperlink rest) t.Keeps := by
  have params_graphic : ∀ c ∈ ((splitOnce ';' rest).getD ([], rest)).1, Term.Graphic c :=
    fun c mem => graphic c (mem_of_splitOnce_fst mem)
  have uri_graphic : ∀ c ∈ ((splitOnce ';' rest).getD ([], rest)).2, Term.Graphic c :=
    fun c mem => graphic c (mem_of_splitOnce mem)
  unfold oscHyperlink
  generalize (splitOnce ';' rest).getD ([], rest) = parts at params_graphic uri_graphic ⊢
  obtain ⟨params, uri⟩ := parts
  dsimp only
  split
  · exact .pure (keeps_of_eq rfl rfl)
  split
  · exact .pure (keeps_of_eq rfl rfl)
  · apply (Guarded.trivial _).bind
    intro next _
    refine .pure ⟨rfl, fun g => { g with hyperlinks := ?_ }⟩
    intro kv mem
    rcases List.mem_append.mp mem with old | new
    · exact g.hyperlinks kv (List.mem_filter.mp old).1
    · rw [List.mem_singleton.mp new]
      refine ⟨?_, uri_graphic⟩
      intro c mem
      cases found : (params.splitOn ':').findSome? (stripPrefix "id=".toList) with
      | none =>
        rw [found] at mem
        exact absurd mem List.not_mem_nil
      | some id =>
        obtain ⟨part, inside, stripped⟩ := List.exists_of_findSome?_eq_some found
        rw [found, Option.getD_some] at mem
        exact params_graphic c (mem_of_mem_splitOn inside (mem_of_stripPrefix stripped mem))

theorem oscCommand_does {rest : List Char} (graphic : ∀ c ∈ rest, Term.Graphic c) (code : Nat)
    (bel : Bool) (t : Terminal) :
    Guarded False (t.oscCommand code rest bel) (t.Does fun r =>
      match code with
      | 0 => { r with title := rest }
      | 2 => { r with title := rest }
      | _ => r) := by
  have keeps_does {x : Checked Terminal} {f : Registers → Registers} (h : Guarded False x t.Keeps)
      (nothing : f t.registers = t.registers) : Guarded False x (t.Does f) :=
    h.mono fun _ keeps => .of_keeps keeps nothing
  unfold oscCommand
  split
  · exact .pure ⟨rfl, fun g => { g with title := graphic }⟩
  · exact .pure ⟨rfl, id⟩
  · exact .pure ⟨rfl, fun g => { g with title := graphic }⟩
  · exact keeps_does (oscPalette_keeps bel _ t) rfl
  · apply (Guarded.trivial _).bind
    intro pwd _
    exact .pure ⟨rfl, id⟩
  · exact keeps_does (oscHyperlink_keeps graphic t) rfl
  · exact .pure ⟨rfl, id⟩
  · exact keeps_does (oscDynamicColor_keeps _ rest bel t) rfl
  · exact keeps_does (oscDynamicColor_keeps _ rest bel t) rfl
  · exact keeps_does (oscDynamicColor_keeps _ rest bel t) rfl
  · exact .pure ⟨rfl, id⟩
  · exact keeps_does (oscClipboard_keeps rest bel t) rfl
  · exact keeps_does (oscTextSize_keeps graphic t) rfl
  · exact .pure ⟨rfl, id⟩
  · exact keeps_does (oscResetPalette_keeps rest t) rfl
  · exact .pure ⟨rfl, id⟩
  · exact .pure ⟨rfl, id⟩
  · exact .pure ⟨rfl, id⟩
  · exact keeps_does (oscPromptMark_keeps rest t) rfl
  · refine .pure (.of_keeps (.refl t) ?_)
    split
    all_goals first
      | rfl
      | contradiction

/-- The title is the text of OSC 0 and OSC 2. -/
theorem oscNumbered_does {rest : List Char} (graphic : ∀ c ∈ rest, Term.Graphic c)
    (code : Option Nat) (bel : Bool) (t : Terminal) :
    Guarded False (match code with
      | some code => t.oscCommand code rest bel
      | none => return t) (t.Does fun r =>
      match code with
      | some 0 => { r with title := rest }
      | some 2 => { r with title := rest }
      | _ => r) := by
  cases code with
  | none => exact .pure (Does.of_keeps (.refl t) rfl)
  | some code =>
    refine (oscCommand_does graphic code bel t).mono ?_
    intro t' does
    by_cases zero : code = 0
    · subst zero
      exact does
    by_cases two : code = 2
    · subst two
      exact does
    · refine ⟨does.registers.trans ?_, does.graphic⟩
      split
      · contradiction
      · contradiction
      · split
        · rename_i eq
          exact absurd (Option.some.inj eq) zero
        · rename_i eq
          exact absurd (Option.some.inj eq) two
        · rfl

theorem oscDispatch_does {data : Bytes} (graphic : ∀ b ∈ data, 0x20 ≤ b.toNat) (bel : Bool)
    (t : Terminal) : Guarded False (t.oscDispatch data bel) (t.Does (·.afterOsc data)) := by
  have rest_graphic : ∀ c ∈ ((splitOnce ';' (fromUtf8Lossy data)).getD (fromUtf8Lossy data, [])).2,
      Term.Graphic c := by
    intro c mem
    cases found : splitOnce ';' (fromUtf8Lossy data) with
    | none =>
      rw [found] at mem
      exact absurd mem List.not_mem_nil
    | some parts =>
      refine graphic_fromUtf8Lossy graphic c (@mem_of_splitOnce ';' _ _ [] ?_)
      rw [found] at mem ⊢
      exact mem
  exact oscNumbered_does rest_graphic _ bel t

theorem decrqss_keeps (data : Bytes) (t : Terminal) : Guarded False (t.decrqss data) t.Keeps := by
  unfold decrqss
  apply (Guarded.trivial _).bind
  intro resp _
  split
  · exact .pure (keeps_of_eq rfl rfl)
  · exact .pure (keeps_of_eq rfl rfl)

theorem xtgettcap_keeps (data : Bytes) (t : Terminal) :
    Guarded False (t.xtgettcap data) t.Keeps := by
  unfold xtgettcap
  split
  · exact .pure (.refl t)
  · refine Guarded.forEach (.refl t) ?_
    intro name _ t' keeps
    apply (Guarded.trivial _).bind
    intro reply _
    exact .pure (keeps.trans (keeps_of_eq rfl rfl))

theorem dcsDispatch_keeps (intermediates : Bytes) (finalByte : UInt8) (data : Bytes) (t : Terminal) :
    Guarded False (t.dcsDispatch intermediates finalByte data) t.Keeps := by
  unfold dcsDispatch
  split
  · split
    · exact decrqss_keeps data t
    · exact .pure (.refl t)
  · split
    · exact xtgettcap_keeps data t
    · exact .pure (.refl t)
  · exact .pure (.refl t)

theorem advanceCursor_keeps (extent : Nat × Nat) (t : Terminal) :
    Guarded False (t.advanceCursor extent) t.Keeps := by
  unfold advanceCursor
  dsimp only
  apply (Guarded.trivial _).bind
  intro lastRow _
  apply (Guarded.trivial _).bind
  intro lastCol _
  exact .pure (keeps_of_eq rfl rfl)

theorem apcDispatch_keeps (files : Files) (data : Bytes) (t : Terminal) :
    Guarded False (t.apcDispatch files data) t.Keeps := by
  unfold apcDispatch
  cases data with
  | nil => exact .pure (.refl t)
  | cons b rest =>
    dsimp only
    split
    · apply (Guarded.trivial _).bind
      rintro ⟨graphics, resp, advance⟩ _
      have answered : t.Keeps (resp.elim { t with graphics } ({ t with graphics }.respond ·)) := by
        cases resp with
        | none => exact keeps_of_eq rfl rfl
        | some _ => exact keeps_of_eq rfl rfl
      dsimp only
      refine Guarded.bind (p := t.Keeps) ?_ fun t' keeps => .pure (keeps.trans (keeps_of_eq rfl rfl))
      cases advance with
      | none => exact .pure answered
      | some extent => exact answered.then (advanceCursor_keeps extent _)
    · exact .pure (.refl t)

end Terminal

namespace Terminal

/-- Every action does to the registers what it does to them alone. -/
theorem dispatch_does (files : Files) {action : Action} (graphic : action.Graphic) {t : Terminal}
    (g : t.Graphic) : Guarded False (t.dispatch files action) (t.Does (·.after action)) := by
  cases action with
  | print c => exact (print_keeps graphic t).mono fun _ keeps => .of_keeps keeps rfl
  | execute b => exact (execute_keeps b t).mono fun _ keeps => .of_keeps keeps rfl
  | csi params intermediates marker finalByte =>
    exact csiDispatch_does params intermediates marker finalByte g
  | esc intermediates finalByte => exact escDispatch_does intermediates finalByte t
  | osc data bel => exact oscDispatch_does graphic bel t
  | dcs params intermediates finalByte data =>
    exact (dcsDispatch_keeps intermediates finalByte data t).mono fun _ keeps => .of_keeps keeps rfl
  | apc data => exact (apcDispatch_keeps files data t).mono fun _ keeps => .of_keeps keeps rfl

end Terminal

namespace Registers

/-- What a list of actions does, one after the other. -/
def afterAll (actions : List Action) (r : Registers) : Registers :=
  actions.foldl after r

theorem afterAll_append (before later : List Action) (r : Registers) :
    r.afterAll (before ++ later) = (r.afterAll before).afterAll later :=
  List.foldl_append

theorem afterDecs_withParser (params : Params) (set : Bool) (q : Parser) (r : Registers) :
    { r with parser := q }.afterDecs params set = { r.afterDecs params set with parser := q } := by
  induction params generalizing r with
  | nil => rfl
  | cons p rest ih => exact ih (r.afterDec (firstPart p) set)

/-- No action looks at the parser. -/
theorem after_withParser (action : Action) (q : Parser) (r : Registers) :
    { r with parser := q }.after action = { r.after action with parser := q } := by
  cases action with
  | csi params intermediates marker finalByte =>
    unfold after afterCsi
    dsimp only
    split
    · split
      · unfold afterPlain
        split <;> rfl
      · unfold afterQuestion
        split
        · exact afterDecs_withParser params true q r
        · exact afterDecs_withParser params false q r
        · rfl
      · unfold afterMarked
        split <;> rfl
    · split
      · unfold afterWith
        split <;> rfl
      · rfl
  | esc intermediates finalByte =>
    unfold after afterEsc
    dsimp only
    split <;> rfl
  | osc data bel =>
    unfold after afterOsc
    dsimp only
    split <;> rfl
  | print | execute | dcs | apc => rfl

theorem afterAll_withParser (actions : List Action) (q : Parser) (r : Registers) :
    { r with parser := q }.afterAll actions = { r.afterAll actions with parser := q } := by
  induction actions generalizing r with
  | nil => rfl
  | cons action rest ih =>
    change ({ r with parser := q }.after action).afterAll rest = _
    rw [after_withParser, ih]
    rfl

end Registers

namespace Terminal

/-- The stream before has brought no control characters in, and the parser none along. -/
structure Clean (t : Terminal) : Prop where
  graphic : t.Graphic
  parser : t.parser.Graphic

theorem dispatches_does (files : Files) {actions : List Action}
    (graphic : ∀ a ∈ actions, a.Graphic) {t : Terminal} (g : t.Graphic) :
    Guarded False (forEach actions t fun action t => t.dispatch files action) fun t' =>
      t'.registers = t.registers.afterAll actions ∧ t'.Graphic := by
  induction actions generalizing t with
  | nil => exact .ok ⟨rfl, g⟩
  | cons action rest ih =>
    refine (dispatch_does files (graphic action List.mem_cons_self) g).bind ?_
    intro t₁ does
    refine (ih (fun a mem => graphic a (List.mem_cons_of_mem _ mem)) (does.graphic g)).mono ?_
    rintro t₂ ⟨registers, graphic⟩
    refine ⟨registers.trans ?_, graphic⟩
    rw [does.registers]
    rfl

/-- One byte: the parser takes it, and what it completes acts on the registers. -/
theorem processByte_does (files : Files) {b : UInt8} {q : Parser} {actions : List Action}
    {t : Terminal} (step : t.parser.advance b = .ok (q, actions)) (clean : t.Clean) :
    Guarded False (t.processByte files b) fun t' =>
      t'.registers = { t.registers.afterAll actions with parser := q } ∧ t'.Clean := by
  have out := (Parser.advance_graphic clean.parser b).of_eq_ok step
  unfold processByte
  rw [step]
  refine (dispatches_does files out.2 (t := { t with parser := q }) clean.graphic).mono ?_
  rintro t' ⟨registers, graphic⟩
  have all : t'.registers = { t.registers.afterAll actions with parser := q } :=
    registers.trans (Registers.afterAll_withParser actions q t.registers)
  refine ⟨all, graphic, ?_⟩
  have same : t'.parser = q := congrArg Registers.parser all
  rw [same]
  exact out.1

/-- A stream: the registers after it follow from the actions the parser reads in it. -/
theorem process_does (files : Files) {bytes : Bytes} {q : Parser} {actions : List Action}
    {t : Terminal} (fed : t.parser.feed bytes = .ok (q, actions)) (clean : t.Clean) :
    Guarded False (t.process files bytes) fun t' =>
      t'.registers = { t.registers.afterAll actions with parser := q } ∧ t'.Clean := by
  induction bytes generalizing t actions with
  | nil =>
    cases fed
    exact .ok ⟨rfl, clean⟩
  | cons b rest ih =>
    obtain ⟨p, first, more, step, later, rfl⟩ := Parser.feed_cons_eq fed
    refine (processByte_does files step clean).bind ?_
    rintro t₁ ⟨registers₁, clean₁⟩
    have parser₁ : t₁.parser = p := congrArg Registers.parser registers₁
    refine (ih (by rw [parser₁]; exact later) clean₁).mono ?_
    rintro t₂ ⟨registers₂, clean₂⟩
    refine ⟨registers₂.trans ?_, clean₂⟩
    rw [registers₁, Registers.afterAll_withParser, Registers.afterAll_append]

/-- A stream that is processed is read by the parser. -/
theorem process_reads (files : Files) {bytes : Bytes} {t t' : Terminal} (clean : t.Clean)
    (processed : t.process files bytes = .ok t') :
    ∃ q actions, t.parser.feed bytes = .ok (q, actions) ∧
      t'.registers = { t.registers.afterAll actions with parser := q } ∧ t'.Clean := by
  have fed : ∃ q actions, t.parser.feed bytes = .ok (q, actions) := by
    induction bytes generalizing t with
    | nil => exact ⟨_, _, rfl⟩
    | cons b rest ih =>
      obtain ⟨t₁, first, later⟩ := eq_ok_of_bind processed
      cases step : t.parser.advance b with
      | error panic =>
        change t.processByte files b = .ok t₁ at first
        unfold processByte at first
        rw [step] at first
        cases first
      | ok out =>
        obtain ⟨registers₁, clean₁⟩ := (processByte_does files step clean).of_eq_ok first
        obtain ⟨q, more, fed⟩ := ih clean₁ later
        have parser₁ : t₁.parser = out.1 := congrArg Registers.parser registers₁
        rw [parser₁] at fed
        exact ⟨q, out.2 ++ more, Parser.feed_step step fed⟩
  obtain ⟨q, actions, fed⟩ := fed
  exact ⟨q, actions, fed, (process_does files fed clean).of_eq_ok processed⟩

/-- The action that the last byte of a string completes. -/
theorem process_last {files : Files} {bytes : Bytes} {b : UInt8} {q p : Parser} {a : Action}
    {t : Terminal} (fed : t.parser.feed bytes = .ok (q, [])) (last : q.advance b = .ok (p, [a])) :
    t.process files (bytes ++ [b]) = { t with parser := p }.dispatch files a := by
  induction bytes generalizing t with
  | nil =>
    cases fed
    change (t.processByte files b >>= pure) = _
    rw [bind_pure]
    unfold processByte
    rw [last]
    change ({ t with parser := p }.dispatch files a >>= pure) = _
    rw [bind_pure]
  | cons x rest ih =>
    obtain ⟨p₁, actions, more, step, later, none⟩ := Parser.feed_cons_eq fed
    obtain ⟨rfl, rfl⟩ := List.append_eq_nil_iff.mp none.symm
    have first : t.processByte files x = .ok { t with parser := p₁ } := by
      unfold processByte
      rw [step]
      rfl
    change (t.processByte files x >>= fun t => t.process files (rest ++ [b])) = _
    rw [first]
    exact ih (t := { t with parser := p₁ }) later

theorem process_append {files : Files} {a b : Bytes} {t t' : Terminal}
    (first : t.process files a = .ok t') : t.process files (a ++ b) = t'.process files b := by
  induction a generalizing t with
  | nil =>
    cases first
    rfl
  | cons x rest ih =>
    obtain ⟨t₁, here, later⟩ := eq_ok_of_bind first
    change t.processByte files x = .ok t₁ at here
    change (t.processByte files x >>= fun t => t.process files (rest ++ b)) = _
    rw [here]
    exact ih later

theorem clean_withScrollback (rows cols scrollback : Nat) :
    (withScrollback rows cols scrollback).Clean where
  parser := Parser.graphic_new
  graphic := {
    primary := Screen.every_new blanks_graphic ..
    alt := Screen.every_new blanks_graphic ..
    hyperlinks := fun _ mem => absurd mem List.not_mem_nil
    lastPrinted := fun _ mem => absurd mem (Option.not_mem_none _)
    title := fun _ mem => absurd mem List.not_mem_nil
    clipboardKinds := fun c mem => by
      rw [List.mem_singleton.mp mem]
      decide }

theorem clean_new (rows cols : Nat) : (new rows cols).Clean :=
  clean_withScrollback rows cols DEFAULT_SCROLLBACK

theorem clean_invariant : session.Invariant Clean where
  base := by
    rintro t ⟨rows, cols, scrollback, -, -, -, -, rfl⟩
    exact clean_withScrollback rows cols scrollback
  step := by
    rintro t t' clean ⟨e, -, eq⟩
    cases e with
    | process files bytes =>
      obtain ⟨-, -, -, -, clean'⟩ := process_reads files clean eq
      exact clean'
    | resize rows cols =>
      have keeps := (resize_keeps rows cols t).of_eq_ok eq
      have parser : t'.parser = t.parser := congrArg Registers.parser keeps.registers
      refine ⟨keeps.graphic clean.graphic, ?_⟩
      rw [parser]
      exact clean.parser

end Terminal

end Posh.Term
