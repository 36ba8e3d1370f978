import Posh.Term.Reads

/-!
What of a parser the bytes to come depend on.

The fields a state does not use hold leftovers of what was parsed before. The view
of a parser is the parser without them: parsers of one view complete the same
actions for every stream, and have one view after it.
-/

namespace Posh.Term

open Posh.Lib

namespace Parser

/-- The state and the character begun. -/
def base (p : Parser) : Parser where
  state := p.state
  utf8 := match p.utf8Need with
    | 0 => []
    | _ + 1 => p.utf8
  utf8Need := p.utf8Need

/-- The parser without leftovers. -/
def view (p : Parser) : Parser :=
  match p.state with
  | .ground | .escape | .csiIgnore | .dcsIgnore | .sosPmString => p.base
  | .escapeIntermediate => { p.base with intermediates := p.intermediates }
  | .csiEntry | .csiParam | .csiIntermediate =>
      { p.base with
        params := p.params, curParts := p.curParts, curVal := p.curVal, partSeen := p.partSeen
        intermediates := p.intermediates, marker := p.marker }
  | .oscString | .apcString =>
      { p.base with stringBuf := p.stringBuf, stringOverflow := p.stringOverflow }
  | .dcsEntry | .dcsParam | .dcsIntermediate =>
      { p.base with
        params := p.params, curParts := p.curParts, curVal := p.curVal, partSeen := p.partSeen
        intermediates := p.intermediates }
  | .dcsPassthrough =>
      { p.base with
        params := p.params, curParts := p.curParts, curVal := p.curVal, partSeen := p.partSeen
        intermediates := p.intermediates, dcsFinal := p.dcsFinal, stringBuf := p.stringBuf
        stringOverflow := p.stringOverflow }

/-- What can be seen of a step: the view after it and its actions. -/
def seen (out : Parser × List Action) : Parser × List Action :=
  (out.1.view, out.2)

theorem seen_eq {p q : Parser} (same : p.view = q.view) (actions : List Action) :
    seen (p, actions) = seen (q, actions) :=
  congrArg (·, actions) same

variable {p q : Parser} {b : UInt8}

theorem view_state (p : Parser) : p.view.state = p.state := by
  unfold view
  split <;> rfl

theorem view_base (p : Parser) : p.view.base = p.base := by
  unfold view
  split <;> unfold base <;> cases p.utf8Need <;> rfl

theorem state_of_view (same : p.view = q.view) : p.state = q.state := by
  rw [← view_state p, ← view_state q, same]

theorem base_of_view (same : p.view = q.view) : p.base = q.base := by
  rw [← view_base p, ← view_base q, same]

/-- A change of state on both sides. -/
theorem base_withState (same : p.base = q.base) (s : State) :
    { p with state := s }.base = { q with state := s }.base :=
  congrArg (fun r : Parser => { r with state := s }) same

/-- One base, and one sequence so far. -/
structure SameSequence (p q : Parser) : Prop where
  base : p.base = q.base
  params : p.params = q.params
  curParts : p.curParts = q.curParts
  curVal : p.curVal = q.curVal
  partSeen : p.partSeen = q.partSeen
  intermediates : p.intermediates = q.intermediates

/-- One base, and one string so far. -/
structure SameString (p q : Parser) : Prop where
  base : p.base = q.base
  stringBuf : p.stringBuf = q.stringBuf
  stringOverflow : p.stringOverflow = q.stringOverflow

/-- The states that have collected nothing. -/
def State.Plain (s : State) : Prop :=
  s ∈ [State.ground, .escape, .csiIgnore, .dcsIgnore, .sosPmString]

instance : DecidablePred State.Plain :=
  fun s => inferInstanceAs (Decidable (s ∈ [State.ground, .escape, .csiIgnore, .dcsIgnore, .sosPmString]))

theorem view_plain (state : p.state.Plain) (same : p.base = q.base) : p.view = q.view := by
  have states : q.state = p.state := (congrArg Parser.state same).symm
  simp only [State.Plain, List.mem_cons, List.not_mem_nil, or_false] at state
  unfold view
  rw [states]
  rcases state with at_ | at_ | at_ | at_ | at_ <;> rw [at_] <;> exact same

theorem view_csi (h : SameSequence p q) (marker : p.marker = q.marker)
    (state : p.state = .csiEntry ∨ p.state = .csiParam ∨ p.state = .csiIntermediate) :
    p.view = q.view := by
  have states : q.state = p.state := (congrArg Parser.state h.base).symm
  unfold view
  rw [states, h.base, h.params, h.curParts, h.curVal, h.partSeen, h.intermediates, marker]
  rcases state with at_ | at_ | at_ <;> rw [at_]

theorem view_dcs (h : SameSequence p q)
    (state : p.state = .dcsEntry ∨ p.state = .dcsParam ∨ p.state = .dcsIntermediate) :
    p.view = q.view := by
  have states : q.state = p.state := (congrArg Parser.state h.base).symm
  unfold view
  rw [states, h.base, h.params, h.curParts, h.curVal, h.partSeen, h.intermediates]
  rcases state with at_ | at_ | at_ <;> rw [at_]

theorem view_string (h : SameString p q) (state : p.state = .oscString ∨ p.state = .apcString) :
    p.view = q.view := by
  have states : q.state = p.state := (congrArg Parser.state h.base).symm
  unfold view
  rw [states, h.base, h.stringBuf, h.stringOverflow]
  rcases state with at_ | at_ <;> rw [at_]

theorem view_intermediate (same : p.base = q.base) (inter : p.intermediates = q.intermediates)
    (state : p.state = .escapeIntermediate) : p.view = q.view := by
  have states : q.state = p.state := (congrArg Parser.state same).symm
  unfold view
  rw [states, same, inter, state]

theorem view_passthrough (h : SameSequence p q) (strings : SameString p q)
    (final : p.dcsFinal = q.dcsFinal) (state : p.state = .dcsPassthrough) : p.view = q.view := by
  have states : q.state = p.state := (congrArg Parser.state h.base).symm
  unfold view
  rw [states, h.base, h.params, h.curParts, h.curVal, h.partSeen, h.intermediates,
    strings.stringBuf, strings.stringOverflow, final, state]

/-! ### What a view shows -/

theorem sequence_of_csi (same : p.view = q.view)
    (state : p.state = .csiEntry ∨ p.state = .csiParam ∨ p.state = .csiIntermediate) :
    SameSequence p q ∧ p.marker = q.marker := by
  have states := state_of_view same
  have base := base_of_view same
  unfold view at same
  rw [← states] at same
  rcases state with at_ | at_ | at_
  all_goals
    rw [at_] at same
    have field {α : Type} (f : Parser → α) := congrArg f same
    exact ⟨⟨base, field params, field curParts, field curVal, field partSeen,
      field intermediates⟩, field marker⟩

theorem sequence_of_dcs (same : p.view = q.view)
    (state : p.state = .dcsEntry ∨ p.state = .dcsParam ∨ p.state = .dcsIntermediate) :
    SameSequence p q := by
  have states := state_of_view same
  have base := base_of_view same
  unfold view at same
  rw [← states] at same
  rcases state with at_ | at_ | at_
  all_goals
    rw [at_] at same
    have field {α : Type} (f : Parser → α) := congrArg f same
    exact ⟨base, field params, field curParts, field curVal, field partSeen, field intermediates⟩

theorem string_of_view (same : p.view = q.view)
    (state : p.state = .oscString ∨ p.state = .apcString) : SameString p q := by
  have states := state_of_view same
  have base := base_of_view same
  unfold view at same
  rw [← states] at same
  rcases state with at_ | at_
  all_goals
    rw [at_] at same
    have field {α : Type} (f : Parser → α) := congrArg f same
    exact ⟨base, field stringBuf, field stringOverflow⟩

theorem parts_of_passthrough (same : p.view = q.view) (state : p.state = .dcsPassthrough) :
    SameSequence p q ∧ SameString p q ∧ p.dcsFinal = q.dcsFinal := by
  have states := state_of_view same
  have base := base_of_view same
  unfold view at same
  rw [← states, state] at same
  have field {α : Type} (f : Parser → α) := congrArg f same
  exact ⟨⟨base, field params, field curParts, field curVal, field partSeen, field intermediates⟩,
    ⟨base, field stringBuf, field stringOverflow⟩, field dcsFinal⟩

/-! ### Ground -/

/-- A parser that has collected nothing comes to a state of that kind. -/
theorem seen_plain {s : State} (plain : s.Plain) (same : p.base = q.base) (state : p.state = s)
    (actions : List Action) : seen (p, actions) = seen (q, actions) :=
  seen_eq (view_plain (state ▸ plain) same) actions

theorem seen_withState {s : State} (plain : s.Plain) (same : p.base = q.base)
    (actions : List Action) :
    seen ({ p with state := s }, actions) = seen ({ q with state := s }, actions) :=
  seen_plain plain (base_withState same s) rfl actions

theorem need_of_base (same : p.base = q.base) : p.utf8Need = q.utf8Need := by
  have field := congrArg Parser.utf8Need same
  exact field

theorem utf8_of_base (same : p.base = q.base) (begun : 0 < p.utf8Need) : p.utf8 = q.utf8 := by
  have bytes := congrArg Parser.utf8 same
  unfold base at bytes
  rw [← need_of_base same] at bytes
  cases need : p.utf8Need with
  | zero => omega
  | succ n =>
    rw [need] at bytes
    exact bytes

/-- A new sequence and a new string. -/
theorem base_clear (same : p.base = q.base) : p.clear.base = q.clear.base :=
  same

theorem opens_sequence (same : p.base = q.base) (s : State) :
    SameSequence { p.clear with state := s } { q.clear with state := s } :=
  ⟨base_withState same s, rfl, rfl, rfl, rfl, rfl⟩

theorem opens_string (same : p.base = q.base) (s : State) :
    SameString (p.startString s) (q.startString s) :=
  ⟨base_withState same s, rfl, rfl⟩

theorem c1_seen (b : UInt8) (same : p.base = q.base) (state : p.state.Plain) :
    seen (c1 b p) = seen (c1 b q) := by
  unfold c1
  split
  · exact seen_eq (view_dcs (opens_sequence same .dcsEntry) (.inl rfl)) []
  · exact seen_plain (s := .sosPmString) (by decide) (opens_string same _).base rfl []
  · exact seen_plain (s := .sosPmString) (by decide) (opens_string same _).base rfl []
  · exact seen_eq (view_csi (opens_sequence same .csiEntry) rfl (.inl rfl)) []
  · exact seen_withState (by decide) same []
  · exact seen_eq (view_string (opens_string same .oscString) (.inl rfl)) []
  · exact seen_eq (view_string (opens_string same .apcString) (.inr rfl)) []
  · exact seen_plain state same rfl _

/-- A change of the character begun on both sides. -/
theorem base_withUtf8 (same : p.base = q.base) (utf8 : Bytes) (need : Nat) :
    { p with utf8, utf8Need := need }.base = { q with utf8, utf8Need := need }.base := by
  have states : p.state = q.state := by
    have field := congrArg Parser.state same
    exact field
  unfold base
  dsimp only
  rw [states]

/-- Both sides take one branch, and each branch is seen alike. -/
theorem seen_ite {c : Prop} [Decidable c] {yes no yes' no' : Parser × List Action}
    (then_ : seen yes = seen yes') (else_ : seen no = seen no') :
    seen (if c then yes else no) = seen (if c then yes' else no') := by
  by_cases holds : c
  · rw [if_pos holds, if_pos holds]
    exact then_
  · rw [if_neg holds, if_neg holds]
    exact else_

theorem groundByte_seen (b : UInt8) (same : p.base = q.base) (state : p.state = .ground) :
    seen (groundByte b p) = seen (groundByte b q) := by
  have plain : State.Plain .ground := by decide
  have still (actions : List Action) : seen (p, actions) = seen (q, actions) :=
    seen_plain plain same state actions
  have begun (need : Nat) : seen ({ p with utf8 := [b], utf8Need := need }, []) =
      seen ({ q with utf8 := [b], utf8Need := need }, []) :=
    seen_plain plain (base_withUtf8 same [b] need) state []
  unfold groundByte
  dsimp only
  refine seen_ite (seen_withState (by decide) same []) ?_
  refine seen_ite (still _) ?_
  refine seen_ite (still _) ?_
  refine seen_ite (still _) ?_
  refine seen_ite (c1_seen b same (state ▸ plain)) ?_
  refine seen_ite (still _) ?_
  refine seen_ite (begun 1) ?_
  refine seen_ite (begun 2) ?_
  exact seen_ite (begun 3) (still _)

theorem ground_seen (b : UInt8) (same : p.base = q.base) (state : p.state = .ground) :
    (ground b p).map seen = (ground b q).map seen := by
  have plain : State.Plain .ground := by decide
  have needs := need_of_base same
  have next (utf8 : Bytes) (need : Nat) (actions : List Action) :
      seen ({ p with utf8, utf8Need := need }, actions) =
        seen ({ q with utf8, utf8Need := need }, actions) :=
    seen_plain plain (base_withUtf8 same utf8 need) state actions
  by_cases begun : p.utf8Need > 0
  · have held := utf8_of_base same begun
    have begun' : q.utf8Need > 0 := needs ▸ begun
    unfold ground
    rw [if_pos begun, if_pos begun']
    by_cases cont : isContinuation b
    · rw [if_pos cont, if_pos cont]
      unfold utf8Push
      rw [← held]
      by_cases room : p.utf8.length < 4
      · rw [if_pos room, if_pos room]
        simp only [Bind.bind, Except.bind, ← needs,
          sub_eq_ok (show 1 ≤ p.utf8Need from begun)]
        by_cases last : p.utf8Need - 1 = 0
        · rw [if_pos last, if_pos last]
          cases fromUtf8 (p.utf8 ++ [b]) with
          | none => exact congrArg Except.ok (next [] 0 _)
          | some s =>
            dsimp only
            cases unwrap s.head? with
            | error panic => rfl
            | ok c => exact congrArg Except.ok (next [] 0 _)
        · rw [if_neg last, if_neg last]
          exact congrArg Except.ok (next (p.utf8 ++ [b]) _ [])
      · rw [if_neg room, if_neg room]
    · rw [if_neg cont, if_neg cont]
      have again := groundByte_seen b (p := p.utf8Reset) (q := q.utf8Reset)
        (base_withUtf8 same [] 0) state
      exact congrArg (fun out : Parser × List Action =>
        (Except.ok (out.1, .print REPLACEMENT :: out.2) : Checked _)) again
  · have whole : ¬ q.utf8Need > 0 := needs ▸ begun
    unfold ground
    rw [if_neg begun, if_neg whole]
    exact congrArg Except.ok (groundByte_seen b same state)

/-! ### Sequences -/

/-- Bytes that every sequence treats alike are seen alike. -/
theorem anywhere_seen (b : UInt8) (same : p.base = q.base) :
    (anywhere b p).map seen = (anywhere b q).map seen := by
  have plain : State.Plain .ground := by decide
  unfold anywhere
  dsimp only
  split
  · exact congrArg some (seen_withState (by decide) same [])
  split
  · exact congrArg some (seen_withState plain same _)
  split
  · exact congrArg some (c1_seen b (base_withState same .ground) plain)
  · rfl

/-- A handler of a state: what is common to all, then its own. -/
theorem handler_seen {x y : Parser × List Action} (same : p.base = q.base)
    (own : seen x = seen y) :
    seen (match anywhere b p with | some out => out | none => x) =
      seen (match anywhere b q with | some out => out | none => y) := by
  have common := anywhere_seen b same
  cases hp : anywhere b p with
  | none =>
    cases hq : anywhere b q with
    | none => exact own
    | some out' =>
      rw [hp, hq] at common
      cases common
  | some out =>
    cases hq : anywhere b q with
    | none =>
      rw [hp, hq] at common
      cases common
    | some out' =>
      rw [hp, hq] at common
      exact Option.some.inj common

/-- The same for a handler that can panic. -/
theorem checked_seen {x y : Checked (Parser × List Action)} (same : p.base = q.base)
    (own : x.map seen = y.map seen) :
    (match anywhere b p with | some out => Except.ok out | none => x).map seen =
      (match anywhere b q with | some out => Except.ok out | none => y).map seen := by
  have common := anywhere_seen b same
  cases hp : anywhere b p with
  | none =>
    cases hq : anywhere b q with
    | none => exact own
    | some out' =>
      rw [hp, hq] at common
      cases common
  | some out =>
    cases hq : anywhere b q with
    | none =>
      rw [hp, hq] at common
      cases common
    | some out' =>
      rw [hp, hq] at common
      exact congrArg Except.ok (Option.some.inj common)

theorem escape_seen (b : UInt8) (same : p.base = q.base) (state : p.state = .escape) :
    seen (escape b p) = seen (escape b q) := by
  have plain : State.Plain .escape := by decide
  unfold escape
  dsimp only
  refine handler_seen same ?_
  refine seen_ite (seen_plain plain same state _) ?_
  refine seen_ite ?_ ?_
  · refine seen_eq (view_intermediate ?_ ?_ rfl) []
    · exact base_withState same .escapeIntermediate
    · rfl
  refine seen_ite (seen_eq (view_csi (opens_sequence same .csiEntry) rfl (.inl rfl)) []) ?_
  refine seen_ite (seen_eq (view_string (opens_string same .oscString) (.inl rfl)) []) ?_
  refine seen_ite (seen_eq (view_dcs (opens_sequence same .dcsEntry) (.inl rfl)) []) ?_
  refine seen_ite (seen_eq (view_string (opens_string same .apcString) (.inr rfl)) []) ?_
  refine seen_ite (seen_plain (s := .sosPmString) (by decide) (opens_string same _).base rfl []) ?_
  exact seen_ite (seen_withState (by decide) same _) (seen_plain plain same state [])

theorem pushIntermediate_marker (b : UInt8) (p : Parser) :
    (p.pushIntermediate b).marker = p.marker := by
  unfold pushIntermediate
  split <;> rfl

theorem pushIntermediate_same (same : p.base = q.base) (inter : p.intermediates = q.intermediates) :
    (p.pushIntermediate b).base = (q.pushIntermediate b).base ∧
      (p.pushIntermediate b).intermediates = (q.pushIntermediate b).intermediates := by
  unfold pushIntermediate
  rw [← inter]
  split
  · exact ⟨same, rfl⟩
  · exact ⟨same, inter⟩

theorem escapeIntermediate_seen (b : UInt8) (same : p.view = q.view)
    (state : p.state = .escapeIntermediate) :
    seen (escapeIntermediate b p) = seen (escapeIntermediate b q) := by
  have base := base_of_view same
  have inter : p.intermediates = q.intermediates := by
    have states := state_of_view same
    unfold view at same
    rw [← states, state] at same
    have field := congrArg Parser.intermediates same
    exact field
  unfold escapeIntermediate
  dsimp only
  refine handler_seen base ?_
  split
  · exact seen_eq same _
  split
  · obtain ⟨base', inter'⟩ := pushIntermediate_same (b := b) base inter
    exact seen_eq (view_intermediate base' inter' ((pushIntermediate_state b p).trans state)) []
  split
  · rw [← inter]
    exact seen_plain (s := .ground) (by decide) (base_withState base .ground) rfl _
  · exact seen_eq same _

/-! ### Parameters -/

namespace SameSequence

/-- The sequence goes on in another state. -/
theorem withState (h : SameSequence p q) (s : State) :
    SameSequence { p with state := s } { q with state := s } :=
  ⟨base_withState h.base s, h.params, h.curParts, h.curVal, h.partSeen, h.intermediates⟩

theorem pushIntermediate (h : SameSequence p q) (b : UInt8) :
    SameSequence (p.pushIntermediate b) (q.pushIntermediate b) := by
  unfold Parser.pushIntermediate
  rw [← h.intermediates]
  split
  · exact ⟨h.base, h.params, h.curParts, h.curVal, h.partSeen, rfl⟩
  · exact h

theorem withIntermediate (h : SameSequence p q) (b : UInt8) :
    SameSequence { p with intermediates := p.intermediates ++ [b] }
      { q with intermediates := q.intermediates ++ [b] } :=
  ⟨h.base, h.params, h.curParts, h.curVal, h.partSeen,
    congrArg (fun bytes : Bytes => bytes ++ [b]) h.intermediates⟩

theorem takeParams (h : SameSequence p q) : p.takeParams.1 = q.takeParams.1 := by
  unfold Parser.takeParams
  rw [← h.params, ← h.curParts, ← h.curVal, ← h.partSeen]

/-- One more byte of a parameter list. -/
theorem paramByte (h : SameSequence p q) (b : UInt8) (next : State)
    (view : ∀ {p' q' : Parser}, SameSequence p' q' → p'.marker = p.marker →
      q'.marker = q.marker → p'.state = next → p'.view = q'.view) :
    (paramByte b next p).map seen = (Parser.paramByte b next q).map seen := by
  unfold Parser.paramByte
  split
  · refine congrArg Except.ok (seen_eq (view ?_ ?_ ?_ rfl) [])
    · unfold paramColon
      rw [← h.curParts, ← h.curVal]
      exact ⟨base_withState h.base next, h.params, rfl, rfl, rfl, h.intermediates⟩
    · rfl
    · rfl
  split
  · refine congrArg Except.ok (seen_eq (view ?_ ?_ ?_ rfl) [])
    · unfold paramSemicolon
      rw [← h.curParts, ← h.curVal, ← h.params]
      exact ⟨base_withState h.base next, rfl, rfl, rfl, rfl, h.intermediates⟩
    · rfl
    · rfl
  · unfold paramDigit
    rw [← h.curVal]
    cases sub b.toNat '0'.toNat with
    | error panic => rfl
    | ok digit =>
      simp only [Bind.bind, Except.bind]
      cases mul 32 p.curVal 10 with
      | error panic => rfl
      | ok shifted =>
        dsimp only
        cases add 32 shifted digit with
        | error panic => rfl
        | ok value =>
          refine congrArg Except.ok (seen_eq (view ?_ ?_ ?_ rfl) [])
          · exact ⟨base_withState h.base next, h.params, h.curParts, rfl, rfl, h.intermediates⟩
          · rfl
          · rfl

end SameSequence

theorem csiDispatch_seen (b : UInt8) (h : SameSequence p q) (marker : p.marker = q.marker) :
    seen (csiDispatch b p) = seen (csiDispatch b q) := by
  have actions : (csiDispatch b p).2 = (csiDispatch b q).2 := by
    change [Action.csi p.takeParams.1 p.intermediates p.marker b] =
      [Action.csi q.takeParams.1 q.intermediates q.marker b]
    rw [h.takeParams, h.intermediates, marker]
  have views : (csiDispatch b p).1.view = (csiDispatch b q).1.view :=
    view_plain (show State.Plain .ground by decide) (base_withState h.base .ground)
  unfold seen
  rw [actions, views]

theorem csiEntry_seen (b : UInt8) (same : p.view = q.view) (state : p.state = .csiEntry) :
    (csiEntry b p).map seen = (csiEntry b q).map seen := by
  obtain ⟨h, marker⟩ := sequence_of_csi same (.inl state)
  unfold csiEntry
  dsimp only
  refine checked_seen h.base ?_
  split
  · exact congrArg Except.ok (seen_eq same _)
  split
  · have next := (h.withIntermediate b).withState .csiIntermediate
    exact congrArg Except.ok (seen_eq (view_csi next marker (.inr (.inr rfl))) [])
  split
  · refine h.paramByte b .csiParam ?_
    intro p' q' h' marker_p marker_q state'
    exact view_csi h' (marker_p.trans (marker.trans marker_q.symm)) (.inr (.inl state'))
  split
  · have next := h.withState .csiParam
    refine congrArg Except.ok (seen_eq (view_csi ?_ ?_ (.inr (.inl rfl))) [])
    · exact ⟨next.base, h.params, h.curParts, h.curVal, h.partSeen, h.intermediates⟩
    · rfl
  split
  · exact congrArg Except.ok (csiDispatch_seen b h marker)
  · exact congrArg Except.ok (seen_eq same _)

theorem csiParam_seen (b : UInt8) (same : p.view = q.view) (state : p.state = .csiParam) :
    (csiParam b p).map seen = (csiParam b q).map seen := by
  obtain ⟨h, marker⟩ := sequence_of_csi same (.inr (.inl state))
  unfold csiParam
  dsimp only
  refine checked_seen h.base ?_
  split
  · exact congrArg Except.ok (seen_eq same _)
  split
  · have next := (h.pushIntermediate b).withState .csiIntermediate
    refine congrArg Except.ok (seen_eq (view_csi next ?_ (.inr (.inr rfl))) [])
    exact (pushIntermediate_marker b p).trans (marker.trans (pushIntermediate_marker b q).symm)
  split
  · refine h.paramByte b .csiParam ?_
    intro p' q' h' marker_p marker_q state'
    exact view_csi h' (marker_p.trans (marker.trans marker_q.symm)) (.inr (.inl state'))
  split
  · exact congrArg Except.ok (seen_withState (by decide) h.base [])
  split
  · exact congrArg Except.ok (csiDispatch_seen b h marker)
  · exact congrArg Except.ok (seen_eq same _)

theorem csiIntermediate_seen (b : UInt8) (same : p.view = q.view)
    (state : p.state = .csiIntermediate) :
    seen (csiIntermediate b p) = seen (csiIntermediate b q) := by
  obtain ⟨h, marker⟩ := sequence_of_csi same (.inr (.inr state))
  unfold csiIntermediate
  dsimp only
  refine handler_seen h.base ?_
  split
  · exact seen_eq same _
  split
  · refine seen_eq (view_csi (h.pushIntermediate b) ?_ (.inr (.inr ?_))) []
    · exact (pushIntermediate_marker b p).trans (marker.trans (pushIntermediate_marker b q).symm)
    · exact (pushIntermediate_state b p).trans state
  split
  · exact seen_withState (by decide) h.base []
  split
  · exact csiDispatch_seen b h marker
  · exact seen_eq same _

theorem csiIgnore_seen (b : UInt8) (same : p.base = q.base) (state : p.state = .csiIgnore) :
    seen (csiIgnore b p) = seen (csiIgnore b q) := by
  have plain : State.Plain .csiIgnore := by decide
  unfold csiIgnore
  dsimp only
  refine handler_seen same ?_
  split
  · exact seen_plain plain same state _
  split
  · exact seen_withState (by decide) (base_clear same) []
  · exact seen_plain plain same state []

/-! ### Strings -/

namespace SameString

theorem push (h : SameString p q) (b : UInt8) (cap : Nat) :
    SameString (p.pushStringByte b cap) (q.pushStringByte b cap) := by
  unfold pushStringByte
  rw [← h.stringBuf]
  split
  · exact ⟨h.base, rfl, h.stringOverflow⟩
  · exact ⟨h.base, rfl, rfl⟩

/-- The string ends, and nothing of it is left to be seen. -/
theorem finish (h : SameString p q) (action : Bytes → Action) {s : State} (plain : s.Plain) :
    seen ({ (p.finishString action).1 with state := s }, (p.finishString action).2) =
      seen ({ (q.finishString action).1 with state := s }, (q.finishString action).2) := by
  have actions : (p.finishString action).2 = (q.finishString action).2 := by
    unfold finishString
    rw [h.stringBuf, h.stringOverflow]
  rw [actions]
  refine seen_plain plain ?_ rfl _
  exact base_withState h.base s

end SameString

theorem oscString_seen (b : UInt8) (same : p.view = q.view) (state : p.state = .oscString) :
    seen (oscString b p) = seen (oscString b q) := by
  have h := string_of_view same (.inl state)
  unfold oscString
  dsimp only
  split
  · exact h.finish (.osc · true) (s := .ground) (by decide)
  split
  · exact h.finish (.osc · false) (s := .escape) (by decide)
  split
  · exact seen_withState (by decide) h.base []
  split
  · exact seen_eq same []
  · exact seen_eq (view_string (h.push b MAX_OSC)
      (.inl ((pushStringByte_state b MAX_OSC p).trans state))) []

theorem apcString_seen (b : UInt8) (same : p.view = q.view) (state : p.state = .apcString) :
    seen (apcString b p) = seen (apcString b q) := by
  have h := string_of_view same (.inr state)
  unfold apcString
  dsimp only
  split
  · exact h.finish .apc (s := .escape) (by decide)
  split
  · exact seen_withState (by decide) h.base []
  · exact seen_eq (view_string (h.push b MAX_APC)
      (.inr ((pushStringByte_state b MAX_APC p).trans state))) []

theorem sosPm_seen (b : UInt8) (same : p.base = q.base) (state : p.state = .sosPmString) :
    seen (sosPm b p) = seen (sosPm b q) := by
  unfold sosPm
  dsimp only
  split
  · exact seen_withState (by decide) same []
  split
  · exact seen_withState (by decide) same []
  · exact seen_plain (s := .sosPmString) (by decide) same state []

theorem dcsHook_seen (b : UInt8) (h : SameSequence p q) :
    seen (p.dcsHook b, []) = seen (q.dcsHook b, []) := by
  have next := h.withState .dcsPassthrough
  refine seen_eq (view_passthrough ?_ ?_ ?_ ?_) []
  · exact ⟨next.base, h.params, h.curParts, h.curVal, h.partSeen, h.intermediates⟩
  · exact ⟨next.base, rfl, rfl⟩
  · rfl
  · rfl

theorem dcsEntry_seen (b : UInt8) (same : p.view = q.view) (state : p.state = .dcsEntry) :
    (dcsEntry b p).map seen = (dcsEntry b q).map seen := by
  have h := sequence_of_dcs same (.inl state)
  unfold dcsEntry
  dsimp only
  refine checked_seen h.base ?_
  split
  · exact congrArg Except.ok (seen_eq same _)
  split
  · have next := (h.withIntermediate b).withState .dcsIntermediate
    exact congrArg Except.ok (seen_eq (view_dcs next (.inr (.inr rfl))) [])
  split
  · exact h.paramByte b .dcsParam fun h' _ _ state' => view_dcs h' (.inr (.inl state'))
  split
  · have next := h.withState .dcsParam
    refine congrArg Except.ok (seen_eq (view_dcs ?_ (.inr (.inl rfl))) [])
    exact ⟨next.base, h.params, h.curParts, h.curVal, h.partSeen, h.intermediates⟩
  split
  · exact congrArg Except.ok (dcsHook_seen b h)
  · exact congrArg Except.ok (seen_eq same _)

theorem dcsParam_seen (b : UInt8) (same : p.view = q.view) (state : p.state = .dcsParam) :
    (dcsParam b p).map seen = (dcsParam b q).map seen := by
  have h := sequence_of_dcs same (.inr (.inl state))
  unfold dcsParam
  dsimp only
  refine checked_seen h.base ?_
  split
  · exact congrArg Except.ok (seen_eq same _)
  split
  · have next := (h.pushIntermediate b).withState .dcsIntermediate
    exact congrArg Except.ok (seen_eq (view_dcs next (.inr (.inr rfl))) [])
  split
  · exact h.paramByte b .dcsParam fun h' _ _ state' => view_dcs h' (.inr (.inl state'))
  split
  · exact congrArg Except.ok (seen_withState (by decide) h.base [])
  split
  · exact congrArg Except.ok (dcsHook_seen b h)
  · exact congrArg Except.ok (seen_eq same _)

theorem dcsIntermediate_seen (b : UInt8) (same : p.view = q.view)
    (state : p.state = .dcsIntermediate) :
    seen (dcsIntermediate b p) = seen (dcsIntermediate b q) := by
  have h := sequence_of_dcs same (.inr (.inr state))
  unfold dcsIntermediate
  dsimp only
  refine handler_seen h.base ?_
  split
  · exact seen_eq same _
  split
  · exact seen_eq (view_dcs (h.pushIntermediate b)
      (.inr (.inr ((pushIntermediate_state b p).trans state)))) []
  split
  · exact seen_withState (by decide) h.base []
  split
  · exact dcsHook_seen b h
  · exact seen_eq same _

theorem dcsUnhook_seen {s : State} (plain : s.Plain) (h : SameSequence p q)
    (strings : SameString p q) (final : p.dcsFinal = q.dcsFinal) :
    seen ({ p.dcsUnhook.1 with state := s }, p.dcsUnhook.2) =
      seen ({ q.dcsUnhook.1 with state := s }, q.dcsUnhook.2) := by
  have actions : p.dcsUnhook.2 = q.dcsUnhook.2 := by
    unfold dcsUnhook
    rw [← strings.stringOverflow]
    split
    · rfl
    · change [Action.dcs p.takeParams.1 p.intermediates p.dcsFinal p.stringBuf] =
        [Action.dcs q.takeParams.1 q.intermediates q.dcsFinal q.stringBuf]
      rw [h.takeParams, h.intermediates, final, strings.stringBuf]
  have base (r : Parser) : { r.dcsUnhook.1 with state := s }.base = { r with state := s }.base := by
    unfold dcsUnhook
    split <;> rfl
  rw [actions]
  refine seen_plain plain ?_ rfl _
  rw [base p, base q]
  exact base_withState h.base s

theorem dcsPassthrough_seen (b : UInt8) (same : p.view = q.view)
    (state : p.state = .dcsPassthrough) :
    seen (dcsPassthrough b p) = seen (dcsPassthrough b q) := by
  obtain ⟨h, strings, final⟩ := parts_of_passthrough same state
  unfold dcsPassthrough
  dsimp only
  split
  · exact dcsUnhook_seen (by decide) h strings final
  split
  · exact dcsUnhook_seen (by decide) h strings final
  split
  · exact seen_plain (s := .ground) (by decide) (base_withState h.base .ground) rfl []
  · refine seen_eq (view_passthrough ?_ (strings.push b MAX_DCS) ?_ ?_) []
    · unfold pushStringByte
      rw [← strings.stringBuf]
      split
      · exact ⟨h.base, h.params, h.curParts, h.curVal, h.partSeen, h.intermediates⟩
      · exact ⟨h.base, h.params, h.curParts, h.curVal, h.partSeen, h.intermediates⟩
    · unfold pushStringByte
      rw [← strings.stringBuf]
      split
      · exact final
      · exact final
    · exact (pushStringByte_state b MAX_DCS p).trans state

theorem dcsIgnore_seen (b : UInt8) (same : p.base = q.base) (state : p.state = .dcsIgnore) :
    seen (dcsIgnore b p) = seen (dcsIgnore b q) := by
  unfold dcsIgnore
  dsimp only
  split
  · exact seen_withState (by decide) same []
  split
  · exact seen_withState (by decide) same []
  · exact seen_plain (s := .dcsIgnore) (by decide) same state []

/-! ### Streams -/

/-- Parsers of one view do the same with a byte. -/
theorem advance_view (b : UInt8) (same : p.view = q.view) :
    (p.advance b).map seen = (q.advance b).map seen := by
  have base := base_of_view same
  have states := state_of_view same
  unfold advance
  rw [← states]
  cases state : p.state with
  | ground => exact ground_seen b base state
  | escape => exact congrArg Except.ok (escape_seen b base state)
  | escapeIntermediate => exact congrArg Except.ok (escapeIntermediate_seen b same state)
  | csiEntry => exact csiEntry_seen b same state
  | csiParam => exact csiParam_seen b same state
  | csiIntermediate => exact congrArg Except.ok (csiIntermediate_seen b same state)
  | csiIgnore => exact congrArg Except.ok (csiIgnore_seen b base state)
  | oscString => exact congrArg Except.ok (oscString_seen b same state)
  | dcsEntry => exact dcsEntry_seen b same state
  | dcsParam => exact dcsParam_seen b same state
  | dcsIntermediate => exact congrArg Except.ok (dcsIntermediate_seen b same state)
  | dcsPassthrough => exact congrArg Except.ok (dcsPassthrough_seen b same state)
  | dcsIgnore => exact congrArg Except.ok (dcsIgnore_seen b base state)
  | sosPmString => exact congrArg Except.ok (sosPm_seen b base state)
  | apcString => exact congrArg Except.ok (apcString_seen b same state)

theorem advance_of_view {b : UInt8} {p' : Parser} {actions : List Action} (same : p.view = q.view)
    (step : p.advance b = .ok (p', actions)) :
    ∃ q', q.advance b = .ok (q', actions) ∧ p'.view = q'.view := by
  have alike := advance_view b same
  rw [step] at alike
  cases other : q.advance b with
  | error panic =>
    rw [other] at alike
    cases alike
  | ok out =>
    rw [other] at alike
    have both := Except.ok.inj alike
    refine ⟨out.1, ?_, congrArg Prod.fst both⟩
    rw [show actions = out.2 from congrArg Prod.snd both]

/-- Parsers of one view read the same in a stream. -/
theorem feed_of_view {bytes : Bytes} {p' : Parser} {actions : List Action} (same : p.view = q.view)
    (fed : feed bytes p = .ok (p', actions)) :
    ∃ q', feed bytes q = .ok (q', actions) ∧ p'.view = q'.view := by
  induction bytes generalizing p q actions with
  | nil =>
    cases fed
    exact ⟨q, rfl, same⟩
  | cons b rest ih =>
    obtain ⟨p₁, first, more, step, later, rfl⟩ := feed_cons_eq fed
    obtain ⟨q₁, step_q, same₁⟩ := advance_of_view same step
    obtain ⟨q', later_q, same'⟩ := ih same₁ later
    exact ⟨q', feed_step step_q later_q, same'⟩

end Parser

end Posh.Term
