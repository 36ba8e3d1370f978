import Posh.Term.ParserBounds
import Posh.Term.Runs
import Posh.Term.Sizes
import Posh.Term.SoundDump

/-!
Sessions in which nothing panics.

A terminal panics in the strings that come in and nowhere else: where a colour, a percent
escape or a hex name is cut inside a character, where a link or an image or a frame has no
number left, and where the sums and products of a graphics command leave their types. As long
as no string does this, the terminal takes every byte, every size and every dump.
-/

namespace Posh.Term

open Posh.Lib

namespace GraphicsState

open Graphics

variable {g : GraphicsState} {files : List Char → Option Bytes}

/-- What is measured is not overstated. -/
theorem Measurable.honest {build : Build} {cmd : Command} {payload : Bytes}
    (measurable : Measurable build files cmd payload) : ¬ Overstated files cmd payload := by
  rintro ⟨-, format, data, named, other, bytes, large, -⟩
  have small := measurable format data named bytes
  cases format with
  | png => exact other rfl
  | rgb => exact absurd large (Nat.not_le.mpr small)
  | rgba => exact absurd large (Nat.not_le.mpr small)

theorem dispatch_yields (h : g.Ledger SizedImage SizedFrame) {data : Bytes}
    (kept : data.length ≤ MAX_APC) {cursor : Nat × Nat}
    (fits : DispatchFits .debug files data cursor g) :
    Yields (g.dispatch files data cursor) (·.1.Ledger SizedImage SizedFrame) := by
  rw [← Build.debug_dispatch]
  have measures : Measures SizedImage SizedFrame := ⟨fun _ sized => sized.1, fun _ sized => sized⟩
  have spared : Spared (fun _ => True) (Build.debug.dispatch files data cursor g)
      (·.1.Ledger SizedImage SizedFrame) := by
    refine dispatch_spared h composes_sized (fun _ => measures) kept ?_ fun _ => fits
    intro cmd payload ends typed
    exact welcome_sized typed (fits.1 cmd payload ends).1.honest
  exact spared.yields fun _ => trivial

end GraphicsState

namespace Terminal

open Graphics GraphicsState

variable {t : Terminal} {files : Files}

/-- The parser is within its caps, and what the store holds is of its size. -/
def Measured (p : Parser) (g : GraphicsState) : Prop :=
  (∃ content, Heard.Kept ⟨p, content⟩) ∧ g.Ledger SizedImage SizedFrame

/-- What an action needs not to panic, the graphics store included. -/
def ActionFits (files : Files) (action : Action) (t : Terminal) : Prop :=
  t.ActionSafe action ∧ ∀ b rest, action = .apc (b :: rest) → b.toNat = 'G'.toNat →
    DispatchFits .debug files rest (t.cursor.row, t.cursor.col) t.graphics

/-- Every action that a byte completes has what it needs. -/
def ByteFits (files : Files) (b : UInt8) (t : Terminal) : Prop :=
  Guarded False (t.parser.advance b) fun (parser, actions) =>
    EachPass (ActionFits files) (dispatch files) actions { t with parser }

theorem dispatch_yields (h : t.WellFormed Measured) {action : Action} (within : action.Within)
    (fits : t.ActionFits files action) : Yields (t.dispatch files action) (·.WellFormed Measured) := by
  have reset (p : Parser) (g : GraphicsState) (known : Measured p g) : Measured p {} :=
    ⟨known.1, Build.ledger_empty _ _⟩
  refine yields_iff.mpr (dispatch_guarded reset h (fun _ => fits.1) ?_)
  rintro b rest rfl graphical
  obtain ⟨rows, cols, sound⟩ := h
  obtain ⟨kept, ledger⟩ := sound.known
  have short : rest.length ≤ MAX_APC := (Nat.le_succ _).trans within
  refine .of_yields ((GraphicsState.dispatch_yields ledger short (fits.2 b rest rfl graphical)).mono ?_)
  exact fun out ledger => ⟨kept, ledger⟩

theorem processByte_yields (h : t.WellFormed Measured) {b : UInt8} (fits : t.ByteFits files b) :
    Yields (t.processByte files b) (·.WellFormed Measured) := by
  obtain ⟨rows, cols, sound⟩ := h
  obtain ⟨⟨content, kept⟩, ledger⟩ := sound.known
  unfold processByte
  refine (Guarded.and_yields (Parser.advance_bounds kept.within kept.hears b) fits).bind ?_
  rintro ⟨parser, actions⟩ ⟨bounds, each⟩
  have parsed : { t with parser }.WellFormed Measured :=
    ⟨rows, cols, { sound with known := ⟨⟨_, bounds.within, bounds.hears⟩, ledger⟩ }⟩
  refine yields_iff.mpr (each.forEach parsed fun action mem t' formed met => ?_)
  exact yields_iff.mp (dispatch_yields formed (bounds.actions action mem) met)

end Terminal

/-! ### Runs -/

/-- No byte of the event panics. -/
def Event.Fits (e : Event) (t : Terminal) : Prop :=
  match e with
  | .process files bytes => EachPass (Terminal.ByteFits files) (Terminal.processByte files) bytes t
  | .resize _ _ => True

/-- Sessions in whose strings everything fits. -/
def fitting : Transition Terminal where
  init := Terminal.Fresh
  step t t' := ∃ e : Event, e.Admissible ∧ e.Fits t ∧ e.apply t = .ok t'

namespace Terminal

variable {t : Terminal}

theorem apply_yields (h : t.WellFormed Measured) {e : Event} (admissible : e.Admissible)
    (fits : e.Fits t) : Yields (e.apply t) (·.WellFormed Measured) := by
  cases e with
  | process files bytes =>
    refine yields_iff.mpr (EachPass.forEach fits h fun b _ t' formed met => ?_)
    exact yields_iff.mp (processByte_yields formed met)
  | resize rows cols =>
    obtain ⟨_, _, sound⟩ := h
    exact wellFormed_of_yields (resize_yields sound admissible.2.1 admissible.2.2.2)

theorem measured_invariant : fitting.Invariant (·.WellFormed Measured) where
  base := by
    rintro t ⟨rows, cols, scrollback, _, rows_lt, _, cols_lt, rfl⟩
    have known : Measured {} {} := ⟨⟨[], Parser.within_new, nofun⟩, Build.ledger_empty _ _⟩
    exact (sound_withScrollback known rows_lt cols_lt scrollback).wellFormed
  step := by
    rintro t t' formed ⟨e, admissible, fits, eq⟩
    exact (apply_yields formed admissible fits).of_eq_ok eq

/-- In every state that a session reaches in whose strings everything fits, no size panics and
no bytes do in whose strings everything fits either. Nor does a dump, if each placement that it
anchors is at a cell with one-based coordinates. -/
theorem never_panics (h : fitting.Reachable t) :
    (∀ e : Event, e.Admissible → e.Fits t → Yields (e.apply t) fun t' => fitting.Reachable t') ∧
      (t.Anchored → Yields t.dumpVt (fun _ => True) ∧ Yields t.dumpVtFlat (fun _ => True) ∧
        Yields t.dumpScreenSwitch fun _ => True) ∧
      Yields t.dumpText fun _ => True := by
  have formed := measured_invariant.reachable h
  obtain ⟨rows, cols, sound⟩ := formed
  refine ⟨fun e admissible fits => ?_, fun anchored => ?_, dumpText_yields sound⟩
  · obtain ⟨t', eq, -⟩ := apply_yields sound.wellFormed admissible fits
    exact ⟨t', eq, h.tail ⟨e, admissible, fits, eq⟩⟩
  · exact ⟨dumpVt_yields sound anchored, dumpVtFlat_yields sound anchored,
      dumpScreenSwitch_yields sound anchored⟩

/-- A letter, and a size that leaves room for it alone. -/
theorem never_panics_letter : ∃ t t', (new 2 3).process (fun _ => none) [0x61] = .ok t ∧
    t.resize 1 1 = .ok t' ∧ Yields t.dumpVt fun _ => True := by
  have fresh : fitting.Reachable (new 2 3) :=
    .of_init ⟨2, 3, DEFAULT_SCROLLBACK, by decide, by decide, by decide, by decide, rfl⟩
  have printed : ActionFits (fun _ => none) (.print 'a') (new 2 3) := ⟨trivial, nofun⟩
  have fits : (Event.process (fun _ => none) [0x61]).Fits (new 2 3) :=
    ⟨⟨printed, Guarded.trivial _⟩, Guarded.trivial _⟩
  obtain ⟨t, eq, bare⟩ : Yields ((new 2 3).process (fun _ => none) [0x61])
      fun t => t.graphics.placements = [] := yields_iff.mpr (by decide +kernel)
  obtain ⟨sizes, dumps, -⟩ := never_panics (fresh.tail ⟨.process (fun _ => none) _, trivial, fits, eq⟩)
  obtain ⟨t', resized, -⟩ := sizes (.resize 1 1) ⟨by decide, by decide, by decide, by decide⟩ trivial
  refine ⟨t, t', eq, resized, (dumps fun p mem => ?_).1⟩
  rw [bare] at mem
  cases mem

/-- A percent escape whose two bytes end inside a character. -/
theorem process_panics : ¬ ∀ t, session.Reachable t → ∀ e : Event, e.Admissible →
    Yields (e.apply t) fun _ => True := by
  intro total
  have fresh : session.Reachable (new 1 1) :=
    .of_init ⟨1, 1, DEFAULT_SCROLLBACK, by decide, by decide, by decide, by decide, rfl⟩
  have panics : ¬ Guarded True ((new 1 1).process (fun _ => none)
      (0x1B :: toUtf8 "]7;file://h/%aé".toList ++ [0x07])) fun _ => True := by decide +kernel
  exact panics (yields_iff.mp (total _ fresh (.process _ _) trivial))

end Terminal

end Posh.Term
