import Posh.Term.Redraw

/-!
Screen switches.

A screen switch is marked in the registers, and by nothing else; so a text that does
not mark one has none among its actions.
-/

namespace Posh.Term

open Posh.Lib

/-- DECSET or DECRST of a screen mode, or RIS. -/
def Action.Switches : Action → Prop
  | .csi params intermediates marker finalByte =>
      intermediates = [] ∧ marker = 0x3F ∧ (finalByte = 0x68 ∨ finalByte = 0x6C) ∧
        ∃ p ∈ params, IsScreenMode (firstPart p)
  | .esc intermediates finalByte => intermediates = [] ∧ finalByte = 0x63
  | _ => False

theorem Action.Switches.isSequence {a : Action} (h : a.Switches) : a.IsSequence := by
  cases a with
  | csi | esc => trivial
  | print | execute | osc | dcs | apc => exact h

namespace Registers

variable {r : Registers}

theorem afterDecs_screenSwitch (params : Params) (set : Bool) (r : Registers) :
    (r.afterDecs params set).screenSwitch =
      if ∃ p ∈ params, IsScreenMode (firstPart p) then some .alt else r.screenSwitch := by
  induction params generalizing r with
  | nil => rw [if_neg fun ⟨_, mem, _⟩ => absurd mem List.not_mem_nil]; rfl
  | cons p rest ih =>
    have step : (r.afterDecs (p :: rest) set).screenSwitch =
        ((r.afterDec (firstPart p) set).afterDecs rest set).screenSwitch := rfl
    rw [step, ih]
    by_cases here : IsScreenMode (firstPart p)
    · have any : ∃ q ∈ p :: rest, IsScreenMode (firstPart q) := ⟨p, List.mem_cons_self, here⟩
      rw [if_pos any]
      split
      · rfl
      · exact if_pos here
    · by_cases later : ∃ q ∈ rest, IsScreenMode (firstPart q)
      · obtain ⟨q, mem, screen⟩ := later
        rw [if_pos ⟨q, mem, screen⟩, if_pos ⟨q, List.mem_cons_of_mem _ mem, screen⟩]
      · have none : ¬ ∃ q ∈ p :: rest, IsScreenMode (firstPart q) := by
          rintro ⟨q, mem, screen⟩
          rcases List.mem_cons.mp mem with rfl | inside
          · exact here screen
          · exact later ⟨q, inside, screen⟩
        rw [if_neg later, if_neg none]
        exact if_neg here

/-- The characters the terminal compares are those of the bytes. -/
theorem char_eq {b : UInt8} {c : Char} (small : c.toNat < 256) :
    Char.ofNat b.toNat = c ↔ b = UInt8.ofNat c.toNat := by
  have bound := b.toNat_lt
  have value : (Char.ofNat b.toNat).toNat = b.toNat := toNat_ofNat (.inl (by omega))
  constructor
  · intro same
    rw [← same, value]
    exact (UInt8.ofNat_toNat).symm
  · intro same
    rw [same, toNat_ofNat_small small, Char.ofNat_toNat]

/-- What marks a switch: nothing but an action that switches. -/
theorem after_screenSwitch (a : Action) (none : ¬ a.Switches) (r : Registers) :
    (r.after a).screenSwitch = r.screenSwitch := by
  cases a with
  | csi params intermediates marker finalByte =>
    unfold after afterCsi
    dsimp only
    cases intermediates with
    | cons i rest =>
      dsimp only [List.head?_cons, Option.map_some]
      split
      · unfold afterWith
        split <;> rfl
      · rfl
    | nil =>
      dsimp only [List.head?_nil, Option.map_none]
      split
      · unfold afterPlain
        split <;> rfl
      · rename_i isMarker
        have marker_eq : marker = 0x3F := (char_eq (by decide)).mp isMarker
        have other (finalEq : finalByte = 0x68 ∨ finalByte = 0x6C) (set : Bool) :
            (r.afterDecs params set).screenSwitch = r.screenSwitch := by
          rw [afterDecs_screenSwitch, if_neg fun screen => none ⟨rfl, marker_eq, finalEq, screen⟩]
        unfold afterQuestion
        split
        · rename_i isSet
          exact other (.inl ((char_eq (by decide)).mp isSet)) true
        · rename_i isReset
          exact other (.inr ((char_eq (by decide)).mp isReset)) false
        · rfl
      · unfold afterMarked
        split <;> rfl
  | esc intermediates finalByte =>
    unfold after afterEsc
    dsimp only
    split
    · rename_i isReset
      exact absurd ⟨rfl, (char_eq (by decide)).mp isReset⟩ none
    · rfl
    · rfl
    · rfl
  | osc data bel =>
    unfold after afterOsc
    dsimp only
    split <;> rfl
  | print | execute | dcs | apc => rfl

/-- The kind of a switch. -/
def switchOf : Action → ScreenSwitch
  | .esc .. => .reset
  | _ => .alt

theorem after_switches (a : Action) (switches : a.Switches) (r : Registers) :
    (r.after a).screenSwitch = some (switchOf a) := by
  cases a with
  | csi params intermediates marker finalByte =>
    obtain ⟨rfl, rfl, rfl | rfl, screen⟩ := switches
    · change (r.afterDecs params true).screenSwitch = _
      rw [afterDecs_screenSwitch, if_pos screen]
      rfl
    · change (r.afterDecs params false).screenSwitch = _
      rw [afterDecs_screenSwitch, if_pos screen]
      rfl
  | esc intermediates finalByte =>
    obtain ⟨rfl, rfl⟩ := switches
    rfl
  | print | execute | osc | dcs | apc => exact absurd switches id

theorem afterAll_screenSwitch {actions : List Action} (none : ∀ a ∈ actions, ¬ a.Switches)
    (r : Registers) : (r.afterAll actions).screenSwitch = r.screenSwitch := by
  induction actions generalizing r with
  | nil => rfl
  | cons a rest ih =>
    change ((r.after a).afterAll rest).screenSwitch = _
    rw [ih (fun a' mem => none a' (List.mem_cons_of_mem _ mem)),
      after_screenSwitch a (none a List.mem_cons_self)]

/-- A mark once made stays. -/
theorem after_isSome (a : Action) (h : r.screenSwitch ≠ none) : (r.after a).screenSwitch ≠ none := by
  by_cases switches : a.Switches
  · rw [after_switches a switches]
    exact nofun
  · rw [after_screenSwitch a switches]
    exact h

theorem afterAll_isSome {actions : List Action} (h : r.screenSwitch ≠ none) :
    (r.afterAll actions).screenSwitch ≠ none := by
  induction actions generalizing r with
  | nil => exact h
  | cons a rest ih => exact ih (after_isSome a h)

/-- Without a mark there was no switch. -/
theorem no_switches {actions : List Action} (unmarked : (r.afterAll actions).screenSwitch = none) :
    ∀ a ∈ actions, ¬ a.Switches := by
  induction actions generalizing r with
  | nil => exact fun _ mem => absurd mem List.not_mem_nil
  | cons a rest ih =>
    change ((r.after a).afterAll rest).screenSwitch = none at unmarked
    have here : (r.after a).screenSwitch = none := by
      by_contra marked
      exact afterAll_isSome marked unmarked
    intro a' mem
    rcases List.mem_cons.mp mem with rfl | inside
    · intro switches
      rw [after_switches a' switches] at here
      cases here
    · exact ih unmarked a' inside

end Registers

/-- A text that leaves the mark of a switch alone has no switches. -/
theorem Writes.reads {text : List Char} {f : Registers → Registers} (h : Writes text f)
    (unmarked : ∀ r : Registers, r.screenSwitch = none → (f r).screenSwitch = none) :
    ∃ actions, Parser.Reads (toUtf8 text) actions ∧ (∀ a ∈ actions, ¬ a.Switches) ∧
      ∀ r : Registers, r.afterAll actions = f r := by
  obtain ⟨actions, reads, does⟩ := h
  refine ⟨actions, reads, ?_, does⟩
  let r : Registers := {
    parser := {}, title := [], modes := {}, keyboard := {}, screenSwitch := none }
  have after := unmarked r rfl
  rw [← does] at after
  exact Registers.no_switches after

end Posh.Term
