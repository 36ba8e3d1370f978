import Posh.Term.Reactions
import Posh.Term.Views

/-!
Where sequences begin and end.

Outside ground no character is begun. A sequence is dispatched only from a state in
the middle of one, and leaves the parser ready; without ESC and the eight-bit CSI no
sequence begins.
-/

namespace Posh.Term

open Posh.Lib

/-- An escape or control sequence. -/
def Action.IsSequence : Action → Prop
  | .csi .. => True
  | .esc .. => True
  | _ => False

namespace Parser

/-- A character is begun in ground only. -/
def Settled (p : Parser) : Prop :=
  p.state ≠ .ground → p.utf8Need = 0

variable {p q : Parser} {b : UInt8} {actions : List Action}

theorem settled_new : Settled {} :=
  fun _ => rfl

theorem Ready.settled (h : Ready p) : p.Settled :=
  fun _ => h.whole

theorem Ready.midEscape (h : Ready p) : p.midEscape = false := by
  unfold Parser.midEscape
  rw [h.ground]

/-- No sequence among `actions`. -/
def NoSequence (actions : List Action) : Prop :=
  ∀ a ∈ actions, ¬ a.IsSequence

theorem noSequence_nil : NoSequence [] :=
  fun _ mem => absurd mem List.not_mem_nil

theorem noSequence_one {a : Action} (h : ¬ a.IsSequence) : NoSequence [a] := by
  intro a' mem
  rw [List.mem_singleton.mp mem]
  exact h

/-- What a byte does as far as sequences go. -/
structure Outcome (p : Parser) (b : UInt8) (out : Parser × List Action) : Prop where
  settled : out.1.Settled
  sequence : NoSequence out.2 ∨ p.midEscape = true ∧ Ready out.1 ∧ ∃ a, out.2 = [a]
  begins : b.toNat ≠ 0x1B → b.toNat ≠ 0x9B → p.midEscape = false → out.1.midEscape = false

namespace Outcome

/-- No sequence begins or ends. -/
theorem outside (whole : q.utf8Need = 0) (none : NoSequence actions)
    (mid : q.midEscape = false) : Outcome p b (q, actions) :=
  ⟨fun _ => whole, .inl none, fun _ _ _ => mid⟩

/-- A sequence goes on. -/
theorem within (mid : p.midEscape = true) (whole : q.utf8Need = 0) (none : NoSequence actions) :
    Outcome p b (q, actions) :=
  ⟨fun _ => whole, .inl none, fun _ _ not => absurd (mid.symm.trans not) nofun⟩

/-- A sequence begins. -/
theorem opens (byte : b.toNat = 0x1B ∨ b.toNat = 0x9B) (whole : q.utf8Need = 0)
    (none : NoSequence actions) : Outcome p b (q, actions) :=
  ⟨fun _ => whole, .inl none, fun esc csi _ => (byte.elim esc csi).elim⟩

/-- A sequence ends. -/
theorem dispatches {a : Action} (mid : p.midEscape = true) (ready : Ready q) :
    Outcome p b (q, [a]) :=
  ⟨ready.settled, .inr ⟨mid, ready, a, rfl⟩, fun _ _ not => absurd (mid.symm.trans not) nofun⟩

end Outcome

theorem Plain.noSequence (plain : Plain b actions) : NoSequence actions := by
  intro a mem
  rcases plain a mem with rfl | rfl | ⟨-, -, rfl⟩
  · exact id
  · exact id
  · exact id

theorem noSequence_finish (action : Bytes → Action) (h : ∀ data, ¬ (action data).IsSequence) :
    NoSequence (p.finishString action).2 := by
  unfold finishString
  split
  · exact noSequence_nil
  · exact noSequence_one (h _)

theorem dcsUnhook_outcome (whole : p.utf8Need = 0) :
    p.dcsUnhook.1.utf8Need = 0 ∧ NoSequence p.dcsUnhook.2 := by
  unfold dcsUnhook
  split
  · exact ⟨whole, noSequence_nil⟩
  · exact ⟨whole, noSequence_one id⟩

/-- A parser in the state of another is as far in a sequence. -/
theorem midEscape_of_state (state : q.state = p.state) : q.midEscape = p.midEscape := by
  unfold midEscape
  rw [state]

theorem State.Deeper.midEscape {state : State} (deeper : p.state.Deeper state)
    (same : q.state = state) : q.midEscape = p.midEscape := by
  unfold Parser.midEscape
  rw [same]
  generalize p.state = before at deeper
  cases deeper <;> rfl

namespace Outcome

/-- A byte of the numbers or intermediates. -/
theorem deeper {state : State} (whole : q.utf8Need = 0) (deeper : p.state.Deeper state)
    (same : q.state = state) : Outcome p b (q, []) :=
  ⟨fun _ => whole, .inl noSequence_nil, fun _ _ mid => (deeper.midEscape same).trans mid⟩

/-- Nothing is begun in the state turned to. -/
theorem rests {state : State} (whole : q.utf8Need = 0) (none : NoSequence actions)
    (rests : state.Rests b) : Outcome p b ({ q with state }, actions) := by
  cases state
  case ground | csiIgnore | dcsIgnore => exact .outside whole none rfl
  case escape => exact .opens (.inl rests) whole none
  all_goals exact rests.elim

end Outcome

/-- In a string no sequence goes on. -/
theorem midEscape_of_cap {cap : Nat} (kind : p.state.cap = some cap) : p.midEscape = false := by
  unfold midEscape
  generalize p.state = state at kind
  cases state
  case oscString | dcsPassthrough | sosPmString | apcString => rfl
  all_goals cases kind

theorem Reacts.outcome {out : Parser × List Action} (whole : p.utf8Need = 0)
    (reacts : Reacts b p out) : Outcome p b out := by
  have inside {state : State} (at_ : p.state = state)
      (sequence : ({ state } : Parser).midEscape = true) : p.midEscape = true :=
    (midEscape_of_state (q := p) (p := { state }) at_).trans sequence
  cases reacts with
  | turns turn plain =>
    rcases turn with ⟨rfl, -⟩ | rests
    · exact ⟨fun _ => whole, .inl plain.noSequence, fun _ _ mid => mid⟩
    · exact .rests whole plain.noSequence rests
  | begins ground lead few =>
    exact ⟨fun not => absurd ground not, .inl noSequence_nil, fun _ _ mid => mid⟩
  | opens outside entry =>
    rcases entry with ⟨rfl, byte | escape⟩ | rfl
    · exact .opens (.inr byte) whole noSequence_nil
    · exact .within (inside escape rfl) whole noSequence_nil
    · exact .outside whole noSequence_nil rfl
  | starts outside string =>
    rcases string with rfl | rfl | rfl
    · exact .outside whole noSequence_nil rfl
    · exact .outside whole noSequence_nil rfl
    · exact .outside whole noSequence_nil rfl
  | marks escape => exact .within (inside escape rfl) whole noSequence_nil
  | first entry deeper => exact .deeper whole deeper rfl
  | intermediate deeper =>
    rw [pushIntermediate_eq]
    exact .deeper whole deeper rfl
  | digit deeper small => exact .deeper whole deeper rfl
  | colon deeper => exact .deeper whole deeper rfl
  | semicolon deeper => exact .deeper whole deeper rfl
  | marker deeper => exact .deeper whole deeper rfl
  | escapes escape => exact .dispatches (inside escape rfl) ⟨rfl, whole⟩
  | escapesWith state => exact .dispatches (inside state rfl) ⟨rfl, whole⟩
  | dispatches state =>
    have mid : p.midEscape = true := by
      rcases state with entry | param | intermediate
      · exact inside entry rfl
      · exact inside param rfl
      · exact inside intermediate rfl
    exact .dispatches mid ⟨rfl, whole⟩
  | ends ignored => exact .outside whole noSequence_nil rfl
  | hooks outside => exact .outside whole noSequence_nil rfl
  | hears kind kept =>
    refine .outside ?_ noSequence_nil ?_
    · unfold pushStringByte
      split <;> exact whole
    · exact (midEscape_of_state (pushStringByte_state b _ p)).trans (midEscape_of_cap kind)
  | finishes rests kind =>
    refine .rests whole ?_ rests
    rcases kind with ⟨-, bel, rfl⟩ | ⟨-, rfl⟩
    · exact noSequence_finish _ fun _ => id
    · exact noSequence_finish _ fun _ => id
  | unhooks rests hooked =>
    obtain ⟨unhooked, none⟩ := dcsUnhook_outcome whole
    exact .rests unhooked none rests
  | aborts hooked => exact .outside whole noSequence_nil rfl

theorem advance_outcome (settled : p.Settled) (b : UInt8) :
    Guarded False (p.advance b) (Outcome p b) := by
  have outside (ground : p.state = .ground) : p.midEscape = false := by
    unfold midEscape
    rw [ground]
  refine ((advance_advances b p).weaken False.elim).mono fun out advances => ?_
  cases advances with
  | reacts idle reacts =>
    refine reacts.outcome ?_
    by_cases ground : p.state = .ground
    · exact idle ground
    · exact settled ground
  | continues ground pending byte =>
    exact ⟨fun not => absurd ground not, .inl noSequence_nil, fun _ _ mid => mid⟩
  | completes ground byte decoded => exact .outside rfl (noSequence_one id) (outside ground)
  | malformed ground reacts =>
    obtain ⟨settled, sequence, begins⟩ := reacts.outcome rfl
    rcases sequence with none | ⟨mid, -⟩
    · refine ⟨settled, .inl ?_, begins⟩
      intro a mem
      rcases List.mem_cons.mp mem with rfl | later
      · exact id
      · exact none a later
    · exact absurd (mid.symm.trans (outside ground)) nofun

/-! ### Streams -/

theorem feed_settled {bytes : Bytes} (settled : p.Settled) (fed : feed bytes p = .ok (q, actions)) :
    q.Settled := by
  induction bytes generalizing p actions with
  | nil =>
    cases fed
    exact settled
  | cons b rest ih =>
    obtain ⟨p₁, first, later, step, after, -⟩ := feed_cons_eq fed
    exact ih ((advance_outcome settled b).of_eq_ok step).settled after

/-- Without ESC and the eight-bit CSI a stream has no sequences. -/
theorem feed_outside {bytes : Bytes} (settled : p.Settled) (mid : p.midEscape = false)
    (none : ∀ b ∈ bytes, b.toNat ≠ 0x1B ∧ b.toNat ≠ 0x9B)
    (fed : feed bytes p = .ok (q, actions)) : NoSequence actions ∧ q.midEscape = false := by
  induction bytes generalizing p actions with
  | nil =>
    cases fed
    exact ⟨noSequence_nil, mid⟩
  | cons b rest ih =>
    obtain ⟨p₁, first, later, step, after, rfl⟩ := feed_cons_eq fed
    have outcome := (advance_outcome settled b).of_eq_ok step
    obtain ⟨esc, csi⟩ := none b List.mem_cons_self
    have none_first : NoSequence first := by
      rcases outcome.sequence with none | ⟨mid', -⟩
      · exact none
      · exact absurd (mid'.symm.trans mid) nofun
    obtain ⟨none_later, mid_q⟩ := ih outcome.settled (outcome.begins esc csi mid)
      (fun b mem => none b (List.mem_cons_of_mem _ mem)) after
    refine ⟨?_, mid_q⟩
    intro a mem
    rcases List.mem_append.mp mem with early | late
    · exact none_first a early
    · exact none_later a late

/-- ESC ends whatever was begun. -/
theorem advance_escape (settled : p.Settled) :
    ∃ q early, p.advance 0x1B = .ok (q, early) ∧ Escaped q ∧ NoSequence early := by
  have whole (state : p.state ≠ .ground) : p.utf8Need = 0 := settled state
  unfold advance
  cases state : p.state with
  | ground =>
    dsimp only
    unfold ground
    split
    · exact ⟨_, _, rfl, ⟨rfl, rfl⟩, noSequence_one id⟩
    · rename_i none
      exact ⟨_, _, rfl, ⟨rfl, show p.utf8Need = 0 by omega⟩, noSequence_nil⟩
  | oscString =>
    exact ⟨_, _, rfl, ⟨rfl, whole (by simp [state])⟩,
      noSequence_finish (.osc · false) fun _ => id⟩
  | apcString =>
    exact ⟨_, _, rfl, ⟨rfl, whole (by simp [state])⟩, noSequence_finish .apc fun _ => id⟩
  | dcsPassthrough =>
    obtain ⟨unhooked, none⟩ := dcsUnhook_outcome (whole (by simp [state]))
    exact ⟨_, _, rfl, ⟨rfl, unhooked⟩, none⟩
  | escape | escapeIntermediate | csiEntry | csiParam | csiIntermediate | csiIgnore | dcsEntry
  | dcsParam | dcsIntermediate | dcsIgnore | sosPmString =>
    exact ⟨_, _, rfl, ⟨rfl, whole (by simp [state])⟩, noSequence_nil⟩

/-- Ready parsers have one view. -/
theorem Ready.view (h : Ready p) : p.view = ({} : Parser).view := by
  unfold Parser.view base
  rw [h.ground, h.whole]

/-- What a text says is found by reading it once. -/
theorem reads_of_feed {bytes : Bytes} (fed : feed bytes {} = .ok (q, actions)) (ready : Ready q) :
    Reads bytes actions := by
  intro p ready_p
  obtain ⟨p', fed', same⟩ := feed_of_view ready_p.view.symm fed
  refine ⟨p', ⟨?_, ?_⟩, fed'⟩
  · rw [← state_of_view same]
    exact ready.ground
  · rw [← need_of_base (base_of_view same)]
    exact ready.whole

/-- A text that starts with ESC is read the same in the middle of anything. -/
theorem Reads.anywhere {rest : Bytes} (h : Reads (0x1B :: rest) actions) (settled : p.Settled) :
    ∃ early q, NoSequence early ∧ Ready q ∧ feed (0x1B :: rest) p = .ok (q, early ++ actions) := by
  obtain ⟨p₁, early, step, escaped, none⟩ := advance_escape settled
  have ready : Ready { p₁ with state := .ground } := ⟨rfl, escaped.whole⟩
  have same : ({ p₁ with state := .ground } : Parser).advance 0x1B = .ok (p₁, []) := by
    rw [ready.advance]
    refine congrArg (fun r : Parser => Except.ok (r, [])) ?_
    rw [← escaped.escape]
  obtain ⟨q, ready_q, fed⟩ := h _ ready
  obtain ⟨r, first, later, step', after, all⟩ := feed_cons_eq fed
  rw [same] at step'
  cases step'
  refine ⟨early, q, none, ready_q, ?_⟩
  rw [feed_step step after, all, List.nil_append]

end Parser

end Posh.Term
