import Posh.Lib.Utf8Prefix
import Posh.Term.Parser

/-!
What a byte does to the parser.

Fifteen states share one set of accumulators. `Advances` says once what a byte can do to them
and what it hands on, with the states in which it does; every invariant of the parser is a case
analysis of it.
-/

namespace Posh.Term

open Posh.Lib

namespace Parser

/-- The cap of the string that a state collects. SOS and PM strings are not kept. -/
def State.cap : State → Option Nat
  | .oscString => some MAX_OSC
  | .dcsPassthrough => some MAX_DCS
  | .apcString => some MAX_APC
  | .sosPmString => some 0
  | _ => none

/-- What a byte that does not end the string adds to it. -/
def State.kept (b : UInt8) : State → Bytes
  | .oscString => if b.toNat ≤ 0x1F then [] else [b]
  | .dcsPassthrough => [b]
  | .apcString => [b]
  | _ => []

/-- Where a sequence goes on after a byte of its numbers or intermediates. -/
inductive State.Deeper : State → State → Prop
  | escapeIntermediate : Deeper .escapeIntermediate .escapeIntermediate
  | csiFirst : Deeper .csiEntry .csiParam
  | csiNone : Deeper .csiEntry .csiIntermediate
  | csiParam : Deeper .csiParam .csiParam
  | csiIntermediate : Deeper .csiParam .csiIntermediate
  | csiLater : Deeper .csiIntermediate .csiIntermediate
  | dcsFirst : Deeper .dcsEntry .dcsParam
  | dcsNone : Deeper .dcsEntry .dcsIntermediate
  | dcsParam : Deeper .dcsParam .dcsParam
  | dcsIntermediate : Deeper .dcsParam .dcsIntermediate
  | dcsLater : Deeper .dcsIntermediate .dcsIntermediate

/-- The states that a byte turns to with nothing begun in them. -/
def State.Rests (b : UInt8) : State → Prop
  | .ground | .csiIgnore | .dcsIgnore => True
  | .escape => b.toNat = 0x1B
  | _ => False

/-- No more than a control, or a character by itself. -/
def Plain (b : UInt8) (actions : List Action) : Prop :=
  ∀ a ∈ actions, a = .execute b ∨ a = .print REPLACEMENT ∨
    0x20 ≤ b.toNat ∧ b.toNat ≤ 0x7E ∧ a = .print (Char.ofNat b.toNat)

/-- What a byte does where no character is begun. -/
inductive Reacts (b : UInt8) (p : Parser) : Parser × List Action → Prop
  | turns {state : State} {actions : List Action}
      (turn : state = p.state ∧ p.state.kept b = [] ∨ state.Rests b) (plain : Plain b actions) :
      Reacts b p ({ p with state }, actions)
  | begins {need : Nat} (ground : p.state = .ground) (lead : 0xC2 ≤ b.toNat) (few : need ≤ 3) :
      Reacts b p ({ p with utf8 := [b], utf8Need := need }, [])
  | opens {state : State} (outside : p.state.cap = none)
      (entry : state = .csiEntry ∧ (b.toNat = 0x9B ∨ p.state = .escape) ∨ state = .dcsEntry) :
      Reacts b p ({ p.clear with state }, [])
  | starts {state : State} (outside : p.state.cap = none)
      (string : state = .oscString ∨ state = .sosPmString ∨ state = .apcString) :
      Reacts b p (p.startString state, [])
  | marks (escape : p.state = .escape) :
      Reacts b p ({ p.clear with intermediates := [b], state := .escapeIntermediate }, [])
  | first {state : State} (entry : p.state = .csiEntry ∨ p.state = .dcsEntry)
      (deeper : p.state.Deeper state) :
      Reacts b p ({ p with intermediates := p.intermediates ++ [b], state }, [])
  | intermediate {state : State} (deeper : p.state.Deeper state) :
      Reacts b p ({ p.pushIntermediate b with state }, [])
  | digit {state : State} {value : Nat} (deeper : p.state.Deeper state) (small : value ≤ 65535) :
      Reacts b p ({ p with curVal := value, partSeen := true, state }, [])
  | colon {state : State} (deeper : p.state.Deeper state) :
      Reacts b p ({ p.paramColon with state }, [])
  | semicolon {state : State} (deeper : p.state.Deeper state) :
      Reacts b p ({ p.paramSemicolon with state }, [])
  | marker {state : State} (deeper : p.state.Deeper state) :
      Reacts b p ({ p with marker := b, state }, [])
  | escapes (escape : p.state = .escape) :
      Reacts b p ({ p with state := .ground }, [.esc [] b])
  | escapesWith (inside : p.state = .escapeIntermediate) :
      Reacts b p ({ p with intermediates := [], state := .ground }, [.esc p.intermediates b])
  | dispatches (inside : p.state = .csiEntry ∨ p.state = .csiParam ∨ p.state = .csiIntermediate) :
      Reacts b p (p.csiDispatch b)
  | ends (ignored : p.state = .csiIgnore) : Reacts b p ({ p.clear with state := .ground }, [])
  | hooks (outside : p.state.cap = none) : Reacts b p (p.dcsHook b, [])
  | hears {cap : Nat} (kind : p.state.cap = some cap) (kept : p.state.kept b = [b]) :
      Reacts b p (p.pushStringByte b cap, [])
  | finishes {action : Bytes → Action} {state : State} (rests : state.Rests b)
      (kind : p.state = .oscString ∧ (∃ bel, action = (.osc · bel)) ∨
        p.state = .apcString ∧ action = .apc) :
      Reacts b p ({ (p.finishString action).1 with state }, (p.finishString action).2)
  | unhooks {state : State} (rests : state.Rests b) (hooked : p.state = .dcsPassthrough) :
      Reacts b p ({ p.dcsUnhook.1 with state }, p.dcsUnhook.2)
  | aborts (hooked : p.state = .dcsPassthrough) :
      Reacts b p ({ p.clear with stringBuf := [], state := .ground }, [])

/-- What a byte does. -/
inductive Advances (b : UInt8) (p : Parser) : Parser × List Action → Prop
  | reacts {out : Parser × List Action} (idle : p.state = .ground → p.utf8Need = 0)
      (reacts : Reacts b p out) : Advances b p out
  | continues (ground : p.state = .ground) (pending : 0 < p.utf8Need) (byte : isContinuation b) :
      Advances b p ({ p with utf8 := p.utf8 ++ [b], utf8Need := p.utf8Need - 1 }, [])
  | completes {c : Char} (ground : p.state = .ground) (byte : isContinuation b)
      (decoded : c = REPLACEMENT ∨ ∃ s, fromUtf8 (p.utf8 ++ [b]) = some s ∧ s.head? = some c) :
      Advances b p (p.utf8Reset, [.print c])
  | malformed {q : Parser} {actions : List Action} (ground : p.state = .ground)
      (reacts : Reacts b p.utf8Reset (q, actions)) :
      Advances b p (q, .print REPLACEMENT :: actions)

/-- What the arithmetic and the UTF-8 buffer of the parser rest on. -/
structure Steady (p : Parser) : Prop where
  value : p.curVal ≤ 65535
  utf8 : p.utf8.length + p.utf8Need ≤ 4

variable {p : Parser} {b : UInt8}

/-! ### States -/

theorem State.Rests.outside {state : State} (rests : state.Rests b) : state.cap = none := by
  cases state
  case ground | escape | csiIgnore | dcsIgnore => rfl
  all_goals exact rests.elim

theorem State.Deeper.outside {s s' : State} (deeper : s.Deeper s') : s'.cap = none := by
  cases deeper <;> rfl

theorem cap_le {state : State} {cap : Nat} (kind : state.cap = some cap) : cap ≤ MAX_APC := by
  unfold State.cap at kind
  split at kind <;> cases kind <;> decide

theorem pushIntermediate_eq (b : UInt8) (p : Parser) : p.pushIntermediate b =
    { p with intermediates := (p.pushIntermediate b).intermediates } := by
  unfold pushIntermediate
  split <;> rfl

/-! ### Ground -/

theorem plain_nil : Plain b [] :=
  nofun

theorem plain_execute : Plain b [.execute b] := by
  intro a mem
  exact .inl (List.mem_singleton.mp mem)

/-- A byte that changes nothing. -/
theorem Reacts.stays {actions : List Action} (unkept : p.state.kept b = []) (plain : Plain b actions) :
    Reacts b p (p, actions) :=
  .turns (.inl ⟨rfl, unkept⟩) plain

theorem Reacts.rests {state : State} (rests : state.Rests b) : Reacts b p ({ p with state }, []) :=
  .turns (.inr rests) plain_nil

theorem kept_outside (outside : p.state.cap = none) : p.state.kept b = [] := by
  cases state : p.state
  all_goals
    rw [state] at outside
    first | rfl | cases outside

/-- A C1 control, in ground or where it ends a sequence. -/
theorem c1_reacts (outside : p.state.cap = none) {state : State}
    (turn : state = p.state ∨ state = .ground) : Reacts b p (c1 b { p with state }) := by
  unfold c1
  split
  · exact .opens outside (.inr rfl)
  · exact .starts outside (.inr (.inl rfl))
  · exact .starts outside (.inr (.inl rfl))
  · rename_i byte
    exact .opens outside (.inl ⟨rfl, .inl byte⟩)
  · exact .rests trivial
  · exact .starts outside (.inl rfl)
  · exact .starts outside (.inr (.inr rfl))
  · refine .turns ?_ plain_execute
    rcases turn with rfl | rfl
    · exact .inl ⟨rfl, kept_outside outside⟩
    · exact .inr trivial

theorem groundByte_reacts (ground : p.state = .ground) : Reacts b p (groundByte b p) := by
  have outside : p.state.cap = none := ground ▸ rfl
  have unkept : p.state.kept b = [] := ground ▸ rfl
  have replaced : Plain b [.print REPLACEMENT] := by
    intro a mem
    exact .inr (.inl (List.mem_singleton.mp mem))
  unfold groundByte
  dsimp only
  split
  · rename_i esc
    exact .rests esc
  split
  · exact .stays unkept plain_execute
  split
  · refine .stays unkept ?_
    intro a mem
    exact .inr (.inr ⟨by omega, by omega, List.mem_singleton.mp mem⟩)
  split
  · exact .stays unkept plain_nil
  split
  · exact c1_reacts outside (.inl rfl)
  split
  · exact .stays unkept replaced
  split
  · exact .begins ground (by omega) (by decide)
  split
  · exact .begins ground (by omega) (by decide)
  split
  · exact .begins ground (by omega) (by decide)
  · exact .stays unkept replaced

theorem isSome_head_of_fromUtf8 {bytes : Bytes} {s : List Char} (some_ : bytes ≠ [])
    (decoded : fromUtf8 bytes = some s) : s.head?.isSome = true := by
  rw [List.isSome_head?]
  rintro rfl
  exact some_ (toUtf8_of_fromUtf8 decoded).symm

theorem ground_advances (ground : p.state = .ground) :
    Guarded p.Steady (Parser.ground b p) (Advances b p) := by
  unfold Parser.ground
  split
  · rename_i pending
    split
    · rename_i byte
      unfold utf8Push
      split
      · refine Guarded.bind (p := fun need => need = p.utf8Need - 1)
          ((Guarded.sub.weaken fun _ => pending).mono fun _ => And.left) ?_
        rintro _ rfl
        dsimp only
        split
        · split
          · rename_i s decoded
            have head := isSome_head_of_fromUtf8 (List.concat_ne_nil b p.utf8) decoded
            refine (Guarded.unwrap.weaken fun _ => head).bind ?_
            intro c head
            exact .pure (.completes ground byte (.inr ⟨s, decoded, head⟩))
          · exact .pure (.completes ground byte (.inl rfl))
        · exact .pure (.continues ground pending byte)
      · rename_i full
        refine .error fun steady => full ?_
        have := steady.utf8
        omega
    · exact .ok (.malformed ground (groundByte_reacts ground))
  · rename_i idle
    exact .ok (.reacts (fun _ => by omega) (groundByte_reacts ground))

/-! ### Sequences -/

theorem anywhere_reacts (outside : p.state.cap = none) {out : Parser × List Action}
    (common : anywhere b p = some out) : Reacts b p out := by
  unfold anywhere at common
  dsimp only at common
  split at common
  · rename_i esc
    cases common
    exact .rests esc
  split at common
  · cases common
    exact .turns (.inr trivial) plain_execute
  split at common
  · cases common
    exact c1_reacts outside (.inr rfl)
  · cases common

/-- An intermediate in the state that goes on with them. -/
theorem gathers (deeper : p.state.Deeper p.state) : Reacts b p (p.pushIntermediate b, []) := by
  have same : p.pushIntermediate b = { p.pushIntermediate b with state := p.state } := by
    rw [← pushIntermediate_state b p]
  rw [same]
  exact .intermediate deeper

theorem escape_reacts (state : p.state = .escape) : Reacts b p (escape b p) := by
  have outside : p.state.cap = none := state ▸ rfl
  have unkept : p.state.kept b = [] := state ▸ rfl
  unfold escape
  dsimp only
  split
  · rename_i isOut
    exact anywhere_reacts outside isOut
  split
  · exact .stays unkept plain_execute
  split
  · exact .marks state
  split
  · exact .opens outside (.inl ⟨rfl, .inr state⟩)
  split
  · exact .starts outside (.inl rfl)
  split
  · exact .opens outside (.inr rfl)
  split
  · exact .starts outside (.inr (.inr rfl))
  split
  · exact .starts outside (.inr (.inl rfl))
  split
  · exact .escapes state
  · exact .stays unkept plain_nil

theorem escapeIntermediate_reacts (state : p.state = .escapeIntermediate) :
    Reacts b p (escapeIntermediate b p) := by
  have outside : p.state.cap = none := state ▸ rfl
  have unkept : p.state.kept b = [] := state ▸ rfl
  unfold escapeIntermediate
  dsimp only
  split
  · rename_i isOut
    exact anywhere_reacts outside isOut
  split
  · exact .stays unkept plain_execute
  split
  · exact gathers (state ▸ .escapeIntermediate)
  split
  · exact .escapesWith state
  · exact .stays unkept plain_nil

/-- A byte of the numbers, which the digits' arithmetic holds. -/
theorem paramByte_reacts {next : State} (deeper : p.state.Deeper next) (low : 0x2F < b.toNat)
    (high : b.toNat ≤ ';'.toNat) : Guarded p.Steady (paramByte b next p) (Reacts b p) := by
  have marks : ':'.toNat = 58 ∧ ';'.toNat = 59 ∧ '0'.toNat = 48 := by decide
  unfold paramByte
  split
  · exact .pure (.colon deeper)
  split
  · exact .pure (.semicolon deeper)
  refine Guarded.bind (p := fun q => ∃ v ≤ 65535, q = { p with curVal := v, partSeen := true }) ?_ ?_
  · unfold paramDigit
    refine (Guarded.sub.weaken fun _ => by omega).bind ?_
    rintro digit ⟨rfl, _⟩
    refine (Guarded.mul.weaken fun steady => ?_).bind ?_
    · have := steady.value
      omega
    rintro shifted ⟨rfl, _⟩
    refine (Guarded.add.weaken fun steady => ?_).bind ?_
    · have := steady.value
      omega
    rintro value ⟨rfl, _⟩
    exact .pure ⟨_, Nat.min_le_right _ _, rfl⟩
  · rintro _ ⟨v, small, rfl⟩
    exact .pure (.digit deeper small)

theorem csiEntry_reacts (state : p.state = .csiEntry) :
    Guarded p.Steady (csiEntry b p) (Reacts b p) := by
  have outside : p.state.cap = none := state ▸ rfl
  have unkept : p.state.kept b = [] := state ▸ rfl
  unfold csiEntry
  dsimp only
  split
  · rename_i isOut
    exact .ok (anywhere_reacts outside isOut)
  split
  · exact .ok (.stays unkept plain_execute)
  split
  · exact .ok (.first (.inl state) (state ▸ .csiNone))
  split
  · exact paramByte_reacts (state ▸ .csiFirst) (by omega) (by omega)
  split
  · exact .ok (.marker (state ▸ .csiFirst))
  split
  · exact .ok (.dispatches (.inl state))
  · exact .ok (.stays unkept plain_nil)

theorem csiParam_reacts (state : p.state = .csiParam) :
    Guarded p.Steady (csiParam b p) (Reacts b p) := by
  have outside : p.state.cap = none := state ▸ rfl
  have unkept : p.state.kept b = [] := state ▸ rfl
  unfold csiParam
  dsimp only
  split
  · rename_i isOut
    exact .ok (anywhere_reacts outside isOut)
  split
  · exact .ok (.stays unkept plain_execute)
  split
  · exact .ok (.intermediate (state ▸ .csiIntermediate))
  split
  · exact paramByte_reacts (state ▸ .csiParam) (by omega) (by omega)
  split
  · exact .ok (.rests trivial)
  split
  · exact .ok (.dispatches (.inr (.inl state)))
  · exact .ok (.stays unkept plain_nil)

theorem csiIntermediate_reacts (state : p.state = .csiIntermediate) :
    Reacts b p (csiIntermediate b p) := by
  have outside : p.state.cap = none := state ▸ rfl
  have unkept : p.state.kept b = [] := state ▸ rfl
  unfold csiIntermediate
  dsimp only
  split
  · rename_i isOut
    exact anywhere_reacts outside isOut
  split
  · exact .stays unkept plain_execute
  split
  · exact gathers (state ▸ .csiLater)
  split
  · exact .rests trivial
  split
  · exact .dispatches (.inr (.inr state))
  · exact .stays unkept plain_nil

theorem csiIgnore_reacts (state : p.state = .csiIgnore) : Reacts b p (csiIgnore b p) := by
  have outside : p.state.cap = none := state ▸ rfl
  have unkept : p.state.kept b = [] := state ▸ rfl
  unfold csiIgnore
  dsimp only
  split
  · rename_i isOut
    exact anywhere_reacts outside isOut
  split
  · exact .stays unkept plain_execute
  split
  · exact .ends state
  · exact .stays unkept plain_nil

theorem dcsEntry_reacts (state : p.state = .dcsEntry) :
    Guarded p.Steady (dcsEntry b p) (Reacts b p) := by
  have outside : p.state.cap = none := state ▸ rfl
  have unkept : p.state.kept b = [] := state ▸ rfl
  unfold dcsEntry
  dsimp only
  split
  · rename_i isOut
    exact .ok (anywhere_reacts outside isOut)
  split
  · exact .ok (.stays unkept plain_nil)
  split
  · exact .ok (.first (.inr state) (state ▸ .dcsNone))
  split
  · exact paramByte_reacts (state ▸ .dcsFirst) (by omega) (by omega)
  split
  · exact .ok (.marker (state ▸ .dcsFirst))
  split
  · exact .ok (.hooks outside)
  · exact .ok (.stays unkept plain_nil)

theorem dcsParam_reacts (state : p.state = .dcsParam) :
    Guarded p.Steady (dcsParam b p) (Reacts b p) := by
  have outside : p.state.cap = none := state ▸ rfl
  have unkept : p.state.kept b = [] := state ▸ rfl
  unfold dcsParam
  dsimp only
  split
  · rename_i isOut
    exact .ok (anywhere_reacts outside isOut)
  split
  · exact .ok (.stays unkept plain_nil)
  split
  · exact .ok (.intermediate (state ▸ .dcsIntermediate))
  split
  · exact paramByte_reacts (state ▸ .dcsParam) (by omega) (by omega)
  split
  · exact .ok (.rests trivial)
  split
  · exact .ok (.hooks outside)
  · exact .ok (.stays unkept plain_nil)

theorem dcsIntermediate_reacts (state : p.state = .dcsIntermediate) :
    Reacts b p (dcsIntermediate b p) := by
  have outside : p.state.cap = none := state ▸ rfl
  have unkept : p.state.kept b = [] := state ▸ rfl
  unfold dcsIntermediate
  dsimp only
  split
  · rename_i isOut
    exact anywhere_reacts outside isOut
  split
  · exact .stays unkept plain_nil
  split
  · exact gathers (state ▸ .dcsLater)
  split
  · exact .rests trivial
  split
  · exact .hooks outside
  · exact .stays unkept plain_nil

/-! ### Strings -/

theorem oscString_reacts (state : p.state = .oscString) : Reacts b p (oscString b p) := by
  have ended (bel : Bool) {next : State} (rests : next.Rests b) :
      Reacts b p ({ (p.finishString (.osc · bel)).1 with state := next },
        (p.finishString (.osc · bel)).2) :=
    .finishes rests (.inl ⟨state, bel, rfl⟩)
  unfold oscString
  dsimp only
  split
  · exact ended true trivial
  split
  · rename_i esc
    exact ended false esc
  split
  · exact .rests trivial
  split
  · rename_i control
    refine .stays ?_ plain_nil
    rw [state]
    exact if_pos control
  · rename_i text
    refine .hears (by rw [state]; rfl) ?_
    rw [state]
    exact if_neg text

theorem apcString_reacts (state : p.state = .apcString) : Reacts b p (apcString b p) := by
  unfold apcString
  dsimp only
  split
  · rename_i esc
    exact .finishes esc (.inr ⟨state, rfl⟩)
  split
  · exact .rests trivial
  · exact .hears (by rw [state]; rfl) (by rw [state]; rfl)

theorem dcsPassthrough_reacts (state : p.state = .dcsPassthrough) :
    Reacts b p (dcsPassthrough b p) := by
  unfold dcsPassthrough
  dsimp only
  split
  · rename_i esc
    exact .unhooks esc state
  split
  · exact .unhooks trivial state
  split
  · exact .aborts state
  · exact .hears (by rw [state]; rfl) (by rw [state]; rfl)

/-- A string of which nothing is kept. -/
theorem skipped_reacts (unkept : p.state.kept b = []) :
    Reacts b p (if b.toNat = 0x1B then ({ p with state := .escape }, [])
      else if b.toNat = 0x18 ∨ b.toNat = 0x1A ∨ b.toNat = 0x9C then ({ p with state := .ground }, [])
      else (p, [])) := by
  split
  · rename_i esc
    exact .rests esc
  split
  · exact .rests trivial
  · exact .stays unkept plain_nil

theorem advance_advances (b : UInt8) (p : Parser) : Guarded p.Steady (p.advance b) (Advances b p) := by
  have idle {out : Parser × List Action} (state : p.state ≠ .ground) (reacts : Reacts b p out) :
      Advances b p out := .reacts (fun ground => absurd ground state) reacts
  unfold advance
  cases state : p.state with
  | ground => exact ground_advances state
  | escape => exact .ok (idle (state ▸ nofun) (escape_reacts state))
  | escapeIntermediate => exact .ok (idle (state ▸ nofun) (escapeIntermediate_reacts state))
  | csiEntry => exact (csiEntry_reacts state).mono fun _ => idle (state ▸ nofun)
  | csiParam => exact (csiParam_reacts state).mono fun _ => idle (state ▸ nofun)
  | csiIntermediate => exact .ok (idle (state ▸ nofun) (csiIntermediate_reacts state))
  | csiIgnore => exact .ok (idle (state ▸ nofun) (csiIgnore_reacts state))
  | oscString => exact .ok (idle (state ▸ nofun) (oscString_reacts state))
  | dcsEntry => exact (dcsEntry_reacts state).mono fun _ => idle (state ▸ nofun)
  | dcsParam => exact (dcsParam_reacts state).mono fun _ => idle (state ▸ nofun)
  | dcsIntermediate => exact .ok (idle (state ▸ nofun) (dcsIntermediate_reacts state))
  | dcsPassthrough => exact .ok (idle (state ▸ nofun) (dcsPassthrough_reacts state))
  | dcsIgnore => exact .ok (idle (state ▸ nofun) (skipped_reacts (by rw [state]; rfl)))
  | sosPmString => exact .ok (idle (state ▸ nofun) (skipped_reacts (by rw [state]; rfl)))
  | apcString => exact .ok (idle (state ▸ nofun) (apcString_reacts state))

end Parser

end Posh.Term
