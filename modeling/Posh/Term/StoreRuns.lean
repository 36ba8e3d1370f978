import Posh.Term.Placements
import Posh.Term.Reactions
import Posh.Term.Runs

/-!
The graphics store of a terminal. The parser hands on no string that is longer than
`MAX_APC`, and nothing but the commands in these strings and resets changes the store, so
that a session's store is one that a run of commands reaches.
-/

namespace Posh.Term

open Posh.Lib

/-! ### Strings -/

namespace Parser

variable {p q : Parser} {b : UInt8}

/-- Neither the string being collected nor one handed on is longer than the longest kept. -/
def Bounded (out : Parser × List Action) : Prop :=
  out.1.stringBuf.length ≤ MAX_APC ∧ ∀ data, .apc data ∈ out.2 → data.length ≤ MAX_APC

theorem bounded_of_no_apc {actions : List Action} (h : q.stringBuf.length ≤ MAX_APC)
    (other : ∀ data, .apc data ∉ actions) : Bounded (q, actions) :=
  ⟨h, fun data mem => absurd mem (other data)⟩

theorem Plain.no_apc {actions : List Action} (plain : Plain b actions) (data : Bytes) :
    .apc data ∉ actions := by
  intro mem
  rcases plain _ mem with same | same | ⟨-, -, same⟩ <;> cases same

theorem finishString_bounded (h : p.stringBuf.length ≤ MAX_APC) {action : Bytes → Action}
    (kind : ∀ text data, action text = .apc data → text = data) {state : State} :
    Bounded ({ (p.finishString action).1 with state }, (p.finishString action).2) := by
  refine ⟨Nat.zero_le _, fun data mem => ?_⟩
  unfold finishString at mem
  dsimp only at mem
  split at mem
  · cases mem
  · rwa [kind _ _ (List.mem_singleton.mp mem).symm] at h

theorem pushStringByte_bounded (h : p.stringBuf.length ≤ MAX_APC) {cap : Nat} (small : cap ≤ MAX_APC) :
    Bounded (p.pushStringByte b cap, []) := by
  refine bounded_of_no_apc ?_ (by simp)
  unfold pushStringByte
  split
  · rw [List.length_append, List.length_singleton]
    omega
  · exact h

theorem dcsUnhook_bounded {state : State} :
    Bounded ({ p.dcsUnhook.1 with state }, p.dcsUnhook.2) := by
  unfold dcsUnhook
  split
  · exact bounded_of_no_apc (Nat.zero_le _) (by simp)
  · exact bounded_of_no_apc (Nat.zero_le _) (by simp)

theorem Reacts.bounded {out : Parser × List Action} (h : p.stringBuf.length ≤ MAX_APC)
    (reacts : Reacts b p out) : Bounded out := by
  cases reacts with
  | turns turn plain => exact bounded_of_no_apc h plain.no_apc
  | intermediate deeper =>
    rw [pushIntermediate_eq]
    exact bounded_of_no_apc h (by simp)
  | starts | hooks | aborts => exact bounded_of_no_apc (Nat.zero_le _) (by simp)
  | hears kind kept => exact pushStringByte_bounded h (cap_le kind)
  | finishes rests kind =>
    rcases kind with ⟨-, bel, rfl⟩ | ⟨-, rfl⟩
    · exact finishString_bounded h fun _ _ same => Action.noConfusion same
    · exact finishString_bounded h fun text data same => Action.apc.inj same
  | unhooks rests hooked => exact dcsUnhook_bounded
  | begins | opens | marks | first | digit | colon | semicolon | marker | escapes | escapesWith
  | dispatches | ends => exact bounded_of_no_apc h (by simp)

/-- A byte adds at most itself to the string, and what is handed on was collected. -/
theorem advance_bounded (h : p.stringBuf.length ≤ MAX_APC) (b : UInt8) :
    Guarded False (p.advance b) Bounded := by
  refine ((advance_advances b p).weaken False.elim).mono fun out advances => ?_
  cases advances with
  | reacts idle reacts => exact reacts.bounded h
  | continues | completes => exact bounded_of_no_apc h (by simp)
  | malformed ground reacts =>
    obtain ⟨kept, strings⟩ := reacts.bounded (p := p.utf8Reset) h
    refine ⟨kept, fun data mem => ?_⟩
    rcases List.mem_cons.mp mem with print | later
    · cases print
    · exact strings data later

end Parser

/-! ### Sessions -/

namespace Terminal

/-- The store is one that commands reach, and the parser's string is within its bound. -/
def Commanded (p : Parser) (g : GraphicsState) : Prop :=
  p.stringBuf.length ≤ MAX_APC ∧ GraphicsState.commands.Reachable g

variable {t : Terminal}

theorem processByte_commanded (h : t.WellFormed Commanded) (files : Files) (b : UInt8) :
    Guarded False (t.processByte files b) (·.WellFormed Commanded) := by
  obtain ⟨rows, cols, sound⟩ := h
  obtain ⟨small, reach⟩ := sound.known
  refine (Parser.advance_bounded small b).bind fun (parser, actions) ⟨kept, strings⟩ => ?_
  have parsed : { t with parser }.WellFormed Commanded :=
    ⟨rows, cols, { sound with known := ⟨kept, reach⟩ }⟩
  refine Guarded.forEach parsed fun action mem t' h => ?_
  have reset (p : Parser) (g : GraphicsState) (known : Commanded p g) : Commanded p {} :=
    ⟨known.1, .of_init rfl⟩
  refine dispatch_guarded reset h False.elim fun b rest eq _ => ?_
  obtain ⟨_, _, sound'⟩ := h
  obtain ⟨small', reach'⟩ := sound'.known
  have short : rest.length ≤ MAX_APC := by
    have whole := strings _ (eq ▸ mem)
    rw [List.length_cons] at whole
    omega
  cases dispatched : t'.graphics.dispatch files rest (t'.cursor.row, t'.cursor.col) with
  | error e => exact .error id
  | ok out => exact .ok ⟨small', reach'.tail (.inr ⟨_, _, _, _, short, dispatched⟩)⟩

/-- The graphics store of a session is one that a run of commands and resets reaches. -/
theorem graphics_reachable (h : session.Reachable t) : GraphicsState.commands.Reachable t.graphics := by
  have invariant : session.Invariant (·.WellFormed Commanded) := by
    constructor
    · rintro t ⟨rows, cols, scrollback, _, rows_lt, _, cols_lt, rfl⟩
      have known : Commanded (Terminal.withScrollback rows cols scrollback).parser
          (Terminal.withScrollback rows cols scrollback).graphics := ⟨Nat.zero_le _, .of_init rfl⟩
      exact (sound_withScrollback known rows_lt cols_lt scrollback).wellFormed
    · rintro t t' h ⟨e, admissible, eq⟩
      cases e with
      | process files bytes =>
        have keeps : Guarded False (t.process files bytes) (·.WellFormed Commanded) :=
          Guarded.forEach h fun b _ t' h => processByte_commanded h files b
        exact keeps.of_eq_ok eq
      | resize rows cols =>
        obtain ⟨_, _, sound⟩ := h
        exact ((resize_yields sound admissible.2.1 admissible.2.2.2).of_eq_ok eq).wellFormed
  obtain ⟨_, _, sound⟩ := invariant.reachable h
  exact sound.known.2

end Terminal

end Posh.Term
