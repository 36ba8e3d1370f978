import Posh.Rec.Paths
import Posh.Term.Sequences

/-!
Where the steps by escape sequences stop.

A step that begins between sequences and between characters stops there again exactly
where the bytes ahead let it: a run of characters must come to its ESC before any byte
0x9B, and a sequence must close without opening a control string and without being one
that the parser ignores.
-/

namespace Posh.Rec

open Posh.Lib Posh.Term
open Posh.Lib.Looping (Guards)

variable {F : Type} {f64 : F64 F} {near : F → F → F → Bool} {files : Files}

namespace Player

/-- The output still to be fed. -/
def ahead (p : Player F) : Bytes :=
  p.track.flat.drop p.cursor

/-- The output fed between two players. -/
def consumed (p q : Player F) : Bytes :=
  p.ahead.take (q.cursor - p.cursor)

/-- From `p` to `q` a whole escape sequence is consumed, or all characters up to the next
ESC; the parser is in ground and the cursor between characters. -/
structure Bounded (p q : Player F) : Prop where
  ground : q.term.parser.state = .ground
  whole : q.term.parser.utf8Need = 0
  between : ∀ b ∈ q.ahead.head?, isContinuation b = false
  consumes : Parser.WholeSequence p.term.parser (p.consumed q) ∨
    (∃ text, text ≠ [] ∧ '\x1b' ∉ text ∧ p.consumed q = toUtf8 text) ∧ q.ahead.head? = some 0x1B

/-- A step from `p` to `q` ends the output or stops where it should. -/
def Stops (p q : Player F) : Prop :=
  q.atEnd = false → p.Bounded q

/-- The bytes ahead let the next step stop where it should. -/
def Clears : Bytes → Prop
  | [] => True
  | b :: rest =>
      if b = 0x1B then Parser.Closes .escape rest
      else (b :: rest).find? introduces ≠ some 0x9B

def Clear (p : Player F) : Prop :=
  Clears p.ahead

instance : (bytes : Bytes) → Decidable (Clears bytes)
  | [] => .isTrue trivial
  | b :: rest => inferInstanceAs (Decidable
      (if b = 0x1B then Parser.Closes .escape rest else (b :: rest).find? introduces ≠ some 0x9B))

instance (p : Player F) : Decidable p.Clear :=
  inferInstanceAs (Decidable (Clears p.ahead))

/-- `ESC ]`, `ESC P`, `ESC _`, `ESC X` and `ESC ^` let no step stop where it should. -/
theorem not_clears_string {b : UInt8} {rest : Bytes} (opens : b ∈ [0x5D, 0x50, 0x5F, 0x58, 0x5E])
    (more : rest ≠ []) : ¬ Clears (0x1B :: b :: rest) := by
  have stopped (s : Parser.State) (string : Parser.State.escape.after b = s)
      (left : s.midEscape = false) (other : s ≠ .ground) : ¬ Clears (0x1B :: b :: rest) := by
    change ¬ Parser.Closes .escape (b :: rest)
    rw [Parser.Closes, string, left, if_neg Bool.false_ne_true]
    rintro (none | ⟨ground, -⟩)
    · exact more none
    · exact other ground
  simp only [List.mem_cons, List.not_mem_nil, or_false] at opens
  rcases opens with rfl | rfl | rfl | rfl | rfl
  · exact stopped .oscString (by decide) rfl nofun
  · exact stopped .dcsEntry (by decide) rfl nofun
  · exact stopped .apcString (by decide) rfl nofun
  · exact stopped .sosPmString (by decide) rfl nofun
  · exact stopped .sosPmString (by decide) rfl nofun

variable {script : Script F} {p q r : Player F}

/-! ### The bytes of a step -/

theorem ahead_eq_nil_iff : p.ahead = [] ↔ p.atEnd = true := by
  unfold ahead atEnd
  rw [List.drop_eq_nil_iff, decide_eq_true_iff]

theorem going_of_ahead {b : UInt8} {rest : Bytes} (next : p.ahead = b :: rest) :
    p.atEnd = false := by
  cases ended : p.atEnd with
  | false => rfl
  | true => cases (ahead_eq_nil_iff.mpr ended).symm.trans next

theorem introduces_iff {b : UInt8} : introduces b = true ↔ b = 0x1B ∨ b = 0x9B := by
  simp [introduces]

theorem consumed_self (p : Player F) : p.consumed p = [] := by
  unfold consumed
  rw [Nat.sub_self]
  rfl

theorem ahead_cons {b : UInt8} (track : r.track = q.track) (cursor : r.cursor = q.cursor + 1)
    (here : q.track.flat[q.cursor]? = some b) : q.ahead = b :: r.ahead := by
  obtain ⟨inside, rfl⟩ := List.getElem?_eq_some_iff.mp here
  unfold ahead
  rw [track, cursor]
  exact List.drop_eq_getElem_cons inside

theorem consumed_append {b : UInt8} (le : p.cursor ≤ q.cursor) (track : q.track = p.track)
    (cursor : r.cursor = q.cursor + 1) (here : q.track.flat[q.cursor]? = some b) :
    p.consumed r = p.consumed q ++ [b] := by
  have at_ : p.ahead[q.cursor - p.cursor]? = some b := by
    unfold ahead
    rw [List.getElem?_drop, Nat.add_sub_cancel' le, ← track]
    exact here
  unfold consumed
  rw [cursor, Nat.succ_sub le, List.take_add_one, at_]
  rfl

theorem consumed_ahead (le : p.cursor ≤ q.cursor) (track : q.track = p.track) :
    p.consumed q ++ q.ahead = p.ahead := by
  have rest : q.ahead = p.ahead.drop (q.cursor - p.cursor) := by
    unfold ahead
    rw [List.drop_drop, track, Nat.add_sub_cancel' le]
  rw [rest]
  exact List.take_append_drop _ _

/-- A byte more of a step from `p`. -/
theorem feedByte_consumes (h : p.Follows files script) (onward : p.Onward files script q)
    (going : q.atEnd = false) :
    Guarded False (q.feedByte files) fun (_, r) => p.Onward files script r ∧ p.cursor < r.cursor ∧
      ∃ b actions, q.term.parser.advance b = .ok (r.term.parser, actions) ∧
        q.ahead = b :: r.ahead ∧ p.consumed r = p.consumed q ++ [b] := by
  have fed := (feedByte_follows onward.follows going).weaken False.elim
  refine (fed.and (feedByte_advances going)).mono ?_
  rintro ⟨fed, r⟩ ⟨⟨-, later, cursor⟩, b, actions, here, step⟩
  dsimp only at later cursor step ⊢
  have le := onward.le
  exact ⟨onward.trans later, by omega, b, actions, step,
    ahead_cons (later.track_eq onward.follows) cursor here,
    consumed_append le (onward.track_eq h) cursor here⟩

/-! ### A sequence -/

/-- A step from `p` is in a sequence at `s`, or has just left it. -/
structure Inside (files : Files) (script : Script F) (p s : Player F) : Prop where
  onward : p.Onward files script s
  further : p.cursor < s.cursor
  whole : s.term.parser.utf8Need = 0
  through : Parser.Through p.term.parser (p.consumed s) s.term.parser
  clear : p.Clear ↔ if s.term.parser.state.midEscape then
      Parser.Closes s.term.parser.state s.ahead
    else Parser.Shut s.term.parser.state s.ahead

theorem sequence_inside (h : p.Follows files script) (start : p.Inside files script q) :
    Guards False (Looping.loop (sequenceTurn files) q) fun s => p.Inside files script s ∧
      (s.atEnd = true ∨ s.term.parser.state.midEscape = false) := by
  refine .loop (I := p.Inside files script) start fun s inside => ?_
  unfold sequenceTurn
  split
  · rename_i more
    simp only [Bool.and_eq_true, Bool.not_eq_true'] at more
    obtain ⟨going, mid⟩ := more
    change s.term.parser.state.midEscape = true at mid
    refine (feedByte_consumes h inside.onward going).bind ?_
    rintro ⟨fed, r⟩ ⟨onward, further, b, actions, step, ahead, consumed⟩
    obtain ⟨state, need⟩ := (Parser.advance_comes mid b).of_eq_ok step
    dsimp only at onward step state need
    refine .ok ⟨onward, further, need.trans inside.whole, ?_, ?_⟩
    · have unfinished : s.term.parser.state ≠ .ground := by
        intro ground
        rw [ground] at mid
        cases mid
      dsimp only
      rw [consumed]
      exact .next inside.through unfinished step
    · rw [inside.clear, if_pos mid, ahead, Parser.Closes, state]
  · rename_i done
    refine .ok ⟨inside, ?_⟩
    simp only [Bool.and_eq_true, Bool.not_eq_true', not_and, Bool.not_eq_true] at done
    by_cases ended : s.atEnd = true
    · exact .inl ended
    · exact .inr (done (by simpa using ended))

/-- A step over a sequence stops where it should if and only if the bytes ahead close it. -/
theorem sequence_stops {rest : Bytes} (escape : p.ahead = 0x1B :: rest)
    (inside : p.Inside files script q)
    (done : q.atEnd = true ∨ q.term.parser.state.midEscape = false) : p.Stops q ↔ p.Clear := by
  rw [inside.clear]
  cases going : q.atEnd with
  | true =>
    have none : q.ahead = [] := ahead_eq_nil_iff.mpr going
    refine ⟨fun _ => ?_, fun _ no => absurd (going.symm.trans no) Bool.true_eq_false.mp⟩
    rw [none]
    split
    · exact trivial
    · exact .inl rfl
  | false =>
    have left : q.term.parser.state.midEscape = false :=
      done.resolve_left (by rw [going]; exact Bool.false_ne_true)
    have some_ : q.ahead ≠ [] := fun none => by
      cases going.symm.trans (ahead_eq_nil_iff.mp none)
    rw [left, if_neg Bool.false_ne_true]
    constructor
    · intro stops
      exact .inr ⟨(stops going).ground, (stops going).between⟩
    · rintro (none | ⟨ground, between⟩) -
      · exact absurd none some_
      · refine ⟨ground, inside.whole, between, .inl ⟨?_, _, inside.through, ground⟩⟩
        have moved : 0 < q.cursor - p.cursor := Nat.sub_pos_of_lt inside.further
        obtain ⟨n, count⟩ := Nat.exists_eq_succ_of_ne_zero (Nat.ne_of_gt moved)
        rw [consumed, escape, count]
        rfl

/-! ### A run of characters -/

/-- A step from `p` is in a run of characters at `s`. -/
structure Running (files : Files) (script : Script F) (p s : Player F) : Prop where
  onward : p.Onward files script s
  fed : ∃ actions, p.term.parser.feed (p.consumed s) = .ok (s.term.parser, actions)
  ordinary : ∀ b ∈ p.consumed s, introduces b = false

theorem run_running (h : p.Follows files script) :
    Guards False (Looping.loop (runTurn files) p) fun s => p.Running files script s ∧
      ∀ b ∈ s.ahead.head?, introduces b = true := by
  have start : p.Running files script p :=
    ⟨.refl h, ⟨[], by rw [consumed_self]; rfl⟩, by rw [consumed_self]; exact nofun⟩
  refine .loop (I := p.Running files script) start fun s running => ?_
  unfold runTurn
  cases going : s.atEnd with
  | true =>
    refine .ok ⟨running, ?_⟩
    rw [ahead_eq_nil_iff.mpr going]
    exact nofun
  | false =>
    rw [if_neg Bool.false_ne_true]
    refine (Guarded.of_yields (.getAt (lt_of_going going))).bind fun b ⟨here, _⟩ => ?_
    have head : s.ahead.head? = some b := by
      unfold ahead
      rw [List.head?_drop, here]
    split
    · rename_i introducer
      refine .ok ⟨running, ?_⟩
      rw [head]
      rintro b' ⟨⟩
      exact introducer
    · rename_i ordinary
      refine (feedByte_consumes h running.onward going).bind ?_
      rintro ⟨fed, r⟩ ⟨onward, -, b', actions, step, ahead, consumed⟩
      rw [ahead] at head
      cases head
      obtain ⟨before, fed⟩ := running.fed
      refine .ok ⟨onward, ⟨before ++ actions, ?_⟩, ?_⟩
      · dsimp only at step ⊢
        rw [consumed]
        exact Parser.feed_append fed (Parser.feed_one step)
      · dsimp only
        rw [consumed]
        intro b' mem
        rcases List.mem_append.mp mem with old | new
        · exact running.ordinary b' old
        · cases List.mem_singleton.mp new
          simpa using ordinary

theorem find_consumed (running : p.Running files script q) (track : q.track = p.track) :
    p.ahead.find? introduces = q.ahead.find? introduces := by
  have none : (p.consumed q).find? introduces = none :=
    List.find?_eq_none.mpr fun b mem => by simp [running.ordinary b mem]
  rw [← consumed_ahead running.onward.le track, List.find?_append, none]
  rfl

/-- Between sequences and between characters. -/
structure Resting (files : Files) (script : Script F) (p : Player F) : Prop where
  follows : p.Follows files script
  ready : Parser.Ready p.term.parser
  text : ∃ text, p.ahead = toUtf8 text

theorem escape_mem_toUtf8 {text : List Char} (mem : '\x1b' ∈ text) : 0x1B ∈ toUtf8 text :=
  List.mem_flatMap.mpr ⟨'\x1b', mem, by decide⟩

/-- What is consumed before an ESC are whole characters. -/
theorem run_bounded {after : Bytes} (resting : p.Resting files script)
    (running : p.Running files script q) (further : p.cursor < q.cursor)
    (escape : q.ahead = 0x1B :: after) : p.Bounded q := by
  obtain ⟨text, spelled⟩ := resting.text
  have track := running.onward.track_eq resting.follows
  have whole := consumed_ahead running.onward.le track
  rw [escape, spelled] at whole
  obtain ⟨run, rest, -, consumed, -⟩ := exists_boundary whole (by decide)
  have ordinary : '\x1b' ∉ run := fun mem => by
    have passed := running.ordinary 0x1B (consumed ▸ escape_mem_toUtf8 mem)
    exact absurd passed (by decide)
  have some_ : run ≠ [] := by
    rintro rfl
    have count := congrArg List.length consumed
    have within := running.onward.follows.within
    rw [track] at within
    rw [Player.consumed, ahead, List.length_take, List.length_drop] at count
    change _ = 0 at count
    omega
  obtain ⟨actions, reads⟩ := Parser.ready_text ordinary
  obtain ⟨r, ready, fed⟩ := reads _ resting.ready
  obtain ⟨actions', fed'⟩ := running.fed
  rw [consumed, fed] at fed'
  cases fed'
  refine ⟨ready.ground, ready.whole, ?_, .inr ⟨⟨run, some_, ordinary, consumed⟩, ?_⟩⟩
  · rw [escape]
    rintro b ⟨⟩
    decide
  · rw [escape]
    rfl

/-- A step over characters stops where it should if and only if it comes to an ESC before
any byte 0x9B. -/
theorem run_stops {b : UInt8} {rest : Bytes} (resting : p.Resting files script)
    (first : p.ahead = b :: rest) (ordinary : b ≠ 0x1B) (running : p.Running files script q)
    (further : p.cursor < q.cursor) (done : ∀ b ∈ q.ahead.head?, introduces b = true) :
    p.Stops q ↔ p.Clear := by
  have clear : p.Clear ↔ q.ahead.find? introduces ≠ some 0x9B := by
    rw [← find_consumed running (running.onward.track_eq resting.follows)]
    unfold Clear
    rw [first, Clears, if_neg ordinary]
  rw [clear]
  cases next : q.ahead with
  | nil =>
    have ended := ahead_eq_nil_iff.mp next
    exact ⟨fun _ => nofun, fun _ going => by cases ended.symm.trans going⟩
  | cons b' after =>
    have introducer : introduces b' = true := done b' (by rw [next]; rfl)
    rw [List.find?_cons_of_pos introducer]
    rcases introduces_iff.mp introducer with rfl | rfl
    · exact ⟨fun _ => by decide, fun _ _ => run_bounded resting running further next⟩
    · refine ⟨fun stops => ?_, fun clear => absurd rfl clear⟩
      have between := (stops (going_of_ahead next)).between 0x9B (by rw [next]; rfl)
      exact absurd between (by decide)

/-! ### A step -/

theorem escape_inside {rest : Bytes} {fed : Bool} (resting : p.Resting files script)
    (first : p.ahead = 0x1B :: rest) (fedByte : p.feedByte files = .ok (fed, q)) :
    p.Inside files script q := by
  obtain ⟨onward, further, b, actions, step, ahead, consumed⟩ :=
    (feedByte_consumes resting.follows (.refl resting.follows) (going_of_ahead first)).of_eq_ok
      fedByte
  rw [first] at ahead
  obtain ⟨rfl, rfl⟩ := List.cons.inj ahead
  rw [resting.ready.advance] at step
  obtain ⟨parser, -⟩ := Prod.mk.inj (Except.ok.inj step)
  have state : q.term.parser.state = .escape := by
    rw [← parser]
  have whole : q.term.parser.utf8Need = 0 := by
    rw [← parser]
    exact resting.ready.whole
  refine ⟨onward, further, whole, ?_, ?_⟩
  · rw [consumed, consumed_self]
    exact .first ((resting.ready.advance 0x1B).trans (congrArg Except.ok (Prod.ext parser rfl)))
  · rw [state]
    unfold Clear
    rw [first]
    rfl

theorem stepEscape_stops (resting : p.Resting files script)
    (ended : (p.stepEscape files).Ends (true, r)) :
    p.Onward files script r ∧ (p.Stops r ↔ p.Clear) := by
  have h := resting.follows
  have moved := (stepEscape_advances h).ends ended
  obtain ⟨going, ended⟩ := ends_going ended
  obtain ⟨b, got, ended⟩ := Looping.ends_bind.mp ended
  have here : p.track.flat[p.cursor]? = some b :=
    Guarded.getAt.of_eq_ok (Looping.ends_ofChecked.mp got)
  obtain ⟨rest, first⟩ : ∃ rest, p.ahead = b :: rest := by
    obtain ⟨inside, rfl⟩ := List.getElem?_eq_some_iff.mp here
    exact ⟨_, List.drop_eq_getElem_cons inside⟩
  refine ⟨moved.1, ?_⟩
  split at ended
  · rename_i introducer
    have escape : b = 0x1B := by
      obtain ⟨text, spelled⟩ := resting.text
      have lead := lead_of_toUtf8 (spelled.symm.trans first)
      refine (introduces_iff.mp introducer).resolve_right ?_
      rintro rfl
      exact absurd lead (by decide)
    subst escape
    obtain ⟨⟨fed, q⟩, fedByte, ended⟩ := Looping.ends_bind.mp ended
    obtain ⟨s, looped, ended⟩ := Looping.ends_bind.mp ended
    cases Looping.ends_pure.mp ended
    have entered := escape_inside resting first (Looping.ends_ofChecked.mp fedByte)
    obtain ⟨inside, done⟩ := (sequence_inside h entered).ends looped
    exact sequence_stops first inside done
  · rename_i ordinary
    obtain ⟨s, looped, ended⟩ := Looping.ends_bind.mp ended
    cases Looping.ends_pure.mp ended
    obtain ⟨running, done⟩ := (run_running h).ends looped
    refine run_stops resting first ?_ running moved.2 done
    rintro rfl
    exact ordinary (by decide)

/-- Where a step has stopped as it should the next one begins. -/
theorem Bounded.resting (onward : p.Onward files script q) (bounded : p.Bounded q)
    (going : q.atEnd = false) (text : ∃ text, script.track.flat = toUtf8 text) :
    q.Resting files script := by
  refine ⟨onward.follows, ⟨bounded.ground, bounded.whole⟩, ?_⟩
  cases next : q.ahead with
  | nil => cases going.symm.trans (ahead_eq_nil_iff.mp next)
  | cons b after =>
    obtain ⟨text, spelled⟩ := text
    have whole : q.track.flat.take q.cursor ++ b :: after = toUtf8 text := by
      rw [← next, ← spelled, ← onward.follows.1]
      exact List.take_append_drop _ _
    obtain ⟨_, rest, -, -, ahead⟩ := exists_boundary whole (bounded.between b (by rw [next]; rfl))
    exact ⟨rest, ahead⟩

/-! ### Runs of steps -/

/-- A call for one step by escape sequences, which takes it. -/
def EscapeStep (f64 : F64 F) (near : F → F → F → Bool) (files : Files) (p q : Player F) : Prop :=
  (p.step f64 near files .escape 1).Ends (1, q)

/-- At the end of the output the call goes through the resizes that are left. -/
theorem EscapeStep.advances (h : p.Follows files script)
    (stepped : p.EscapeStep f64 near files q) :
    ∃ r, (p.stepEscape files).Ends (true, r) ∧ (r.atEnd = true ∧ q.atEnd = true ∨ q = r) := by
  unfold EscapeStep step at stepped
  obtain ⟨⟨taken, r⟩, first, second⟩ := Looping.ends_bind.mp stepped
  obtain ⟨q', flushed, last⟩ := Looping.ends_bind.mp second
  have flushed := Looping.ends_ofChecked.mp flushed
  cases Looping.ends_pure.mp last
  rw [steps] at first
  obtain ⟨⟨advanced, r'⟩, once, rest⟩ := Looping.ends_bind.mp first
  cases advanced with
  | false => cases Looping.ends_pure.mp rest
  | true =>
    cases Looping.ends_pure.mp rest
    have follows := ((stepEscape_advances h).ends once).1.follows
    refine ⟨r, once, ?_⟩
    cases ended : r.atEnd with
    | true =>
      obtain ⟨onward, cursor, -⟩ := (flushTrailingResizes_follows follows).of_eq_ok flushed
      refine .inl ⟨rfl, ?_⟩
      unfold atEnd at ended ⊢
      rw [onward.track_eq follows, cursor]
      exact ended
    | false =>
      rw [flushTrailingResizes, ended, if_neg Bool.false_ne_true] at flushed
      cases flushed
      exact .inr rfl

theorem EscapeStep.of_advance (ended : (p.stepEscape files).Ends (true, r))
    (flushed : r.flushTrailingResizes = .ok q) : p.EscapeStep f64 near files q := by
  have once : (p.steps f64 near files .escape 1 0).Ends (1, r) :=
    Looping.ends_bind.mpr ⟨(true, r), ended, Looping.ends_pure.mpr rfl⟩
  refine Looping.ends_bind.mpr ⟨(1, r), once, ?_⟩
  exact Looping.ends_bind.mpr ⟨q, Looping.ends_ofChecked.mpr flushed, Looping.ends_pure.mpr rfl⟩

theorem EscapeStep.going (h : p.Follows files script) (stepped : p.EscapeStep f64 near files q) :
    p.atEnd = false := by
  obtain ⟨r, ended, -⟩ := stepped.advances h
  exact (ends_going ended).1

theorem steps_chain {n before total : Nat} (h : p.Follows files script)
    (ended : (p.steps f64 near files .escape n before).Ends (total, r))
    (flushed : r.flushTrailingResizes = .ok q) :
    (total = before ∧ r = p) ∨ ∃ stops, total = before + stops.length + 1 ∧
      List.IsChain (EscapeStep f64 near files) (p :: (stops ++ [q])) := by
  induction n generalizing p before with
  | zero =>
    cases Looping.ends_pure.mp ended
    exact .inl ⟨rfl, rfl⟩
  | succ n ih =>
    rw [steps] at ended
    obtain ⟨⟨advanced, s⟩, once, rest⟩ := Looping.ends_bind.mp ended
    have moved := (stepEscape_advances h).ends once
    cases advanced with
    | false =>
      cases Looping.ends_pure.mp rest
      exact .inl ⟨rfl, moved.1⟩
    | true =>
      right
      rcases ih moved.1.follows rest with ⟨rfl, rfl⟩ | ⟨stops, count, chain⟩
      · have last : p.EscapeStep f64 near files q := .of_advance once flushed
        exact ⟨[], rfl, .cons_cons last (.singleton q)⟩
      · -- the run goes on behind `s`, so that no resizes are left to go through there
        obtain ⟨t, after, behind⟩ := List.exists_cons_of_ne_nil (List.append_ne_nil_of_right_ne_nil
          stops (List.cons_ne_nil q []))
        have more : s.atEnd = false := by
          rw [behind] at chain
          exact (List.isChain_cons_cons.mp chain).1.going moved.1.follows
        have still : s.flushTrailingResizes = .ok s := by
          unfold flushTrailingResizes
          rw [more]
          rfl
        refine ⟨s :: stops, ?_, .cons_cons (.of_advance once still) chain⟩
        rw [List.length_cons]
        omega

/-- A call for several steps goes through the stops of single ones. -/
theorem step_chain {n taken : Nat} (h : p.Follows files script)
    (ended : (p.step f64 near files .escape n).Ends (taken, q)) :
    taken = 0 ∨ ∃ stops, taken = stops.length + 1 ∧
      List.IsChain (EscapeStep f64 near files) (p :: (stops ++ [q])) := by
  unfold step at ended
  obtain ⟨⟨total, r⟩, first, second⟩ := Looping.ends_bind.mp ended
  obtain ⟨q', flushed, last⟩ := Looping.ends_bind.mp second
  cases Looping.ends_pure.mp last
  rcases steps_chain h first (Looping.ends_ofChecked.mp flushed) with ⟨none, -⟩ | ⟨stops, count, run⟩
  · exact .inl none
  · exact .inr ⟨stops, by omega, run⟩

theorem EscapeStep.onward (h : p.Follows files script) (stepped : p.EscapeStep f64 near files q) :
    p.Onward files script q :=
  ((step_follows h .escape 1).ends stepped).1

theorem EscapeStep.stops (resting : p.Resting files script)
    (stepped : p.EscapeStep f64 near files q) : p.Stops q ↔ p.Clear := by
  obtain ⟨r, ended, ⟨done, done'⟩ | rfl⟩ := stepped.advances resting.follows
  · have vacuous (s : Player F) (done : s.atEnd = true) : p.Stops s := fun going => by
      cases done.symm.trans going
    have stops := (stepEscape_stops resting ended).2
    exact ⟨fun _ => stops.mp (vacuous r done), fun _ => vacuous q done'⟩
  · exact (stepEscape_stops resting ended).2

/-- A run of steps stops everywhere where it should if and only if the bytes ahead of each
let it. -/
theorem chain_stops {stops : List (Player F)} (text : ∃ text, script.track.flat = toUtf8 text)
    (resting : p.Resting files script)
    (run : List.IsChain (EscapeStep f64 near files) (p :: stops)) :
    List.IsChain Stops (p :: stops) ↔ List.IsChain (fun p _ => p.Clear) (p :: stops) := by
  induction stops generalizing p with
  | nil => exact ⟨fun _ => .singleton _, fun _ => .singleton _⟩
  | cons q stops ih =>
    obtain ⟨stepped, rest⟩ := List.isChain_cons_cons.mp run
    have here := stepped.stops resting
    have onward := stepped.onward resting.follows
    rw [List.isChain_cons_cons, List.isChain_cons_cons, here]
    refine and_congr_right fun clear => ?_
    cases going : q.atEnd with
    | false =>
      have bounded := here.mpr clear going
      exact ih (bounded.resting onward going text) rest
    | true =>
      cases stops with
      | nil => exact ⟨fun _ => .singleton _, fun _ => .singleton _⟩
      | cons r stops =>
        cases going.symm.trans ((List.isChain_cons_cons.mp rest).1.going onward.follows)

section

variable {src : List Char} {header : Header} {events : List (Event F)}

/-- The output of a recording is a text. -/
theorem flat_text : ∃ text, (Script.ofEvents header events).track.flat = toUtf8 text := by
  rw [(Script.ofEvents header events).carries.flat]
  change ∃ text, Cue.flat (events.flatMap (·.cues)) = toUtf8 text
  induction events with
  | nil => exact ⟨[], rfl⟩
  | cons e events ih =>
    obtain ⟨text, later⟩ := ih
    rw [List.flatMap_cons, Cue.flat_append, later, Event.flat_cues]
    split
    · exact ⟨e.data ++ text, (toUtf8_append _ _).symm⟩
    · exact ⟨text, rfl⟩

theorem fromSource_resting (reads : Reads f64 src header events)
    (made : fromSource f64 src = .ok p) : p.Resting files (Script.ofEvents header events) := by
  cases (fromSource_reads reads).symm.trans made
  obtain ⟨text, spelled⟩ := @flat_text F header events
  exact ⟨fromSource_follows reads (fromSource_reads reads), Parser.ready_new, text, spelled⟩

/-- From the start of a recording, every step by escape sequences stops between sequences
and between characters, a whole sequence or run of characters consumed, or at the end, if
and only if the bytes ahead of each step let it. -/
theorem escape_stops_iff (reads : Reads f64 src header events)
    (made : fromSource f64 src = .ok p) {stops : List (Player F)}
    (run : List.IsChain (EscapeStep f64 near files) (p :: stops)) :
    List.IsChain Stops (p :: stops) ↔ List.IsChain (fun p _ => p.Clear) (p :: stops) :=
  chain_stops flat_text (fromSource_resting reads made) run

end

/-- Two characters, a sequence and a character. -/
def coloured : List (Event Seconds) :=
  [⟨.whole 0, .output, ['h', 'i', '\x1b', '[', '3', '1', 'm', '!']⟩]

/-- A title. -/
def titled : List (Event Seconds) :=
  [⟨.whole 0, .output, ['\x1b', ']', '2', ';', '!', '\x07']⟩]

theorem reads_output (data : List Char) :
    Reads Seconds.ops (recordingText Seconds.ops { version := 2, width := 20, height := 5 }
        [⟨.whole 0, .output, data⟩])
      { version := 2, width := 20, height := 5 } [⟨.whole 0, .output, data⟩] := by
  refine reads_recordingText Seconds.lawful rfl fun e mem => ?_
  cases List.mem_singleton.mp mem
  exact ⟨rfl, rfl⟩

theorem escape_stops_iff_coloured : ∃ p q r : Player Seconds,
    fromSource Seconds.ops (recordingText Seconds.ops { version := 2, width := 20, height := 5 }
      coloured) = .ok p ∧ q.cursor = 2 ∧ r.cursor = 7 ∧ List.IsChain Stops [p, q, r] := by
  obtain ⟨p, q, r, made, first, second, clear, clear', at_, at_'⟩ : ∃ p q r : Player Seconds,
      fromSource Seconds.ops (recordingText Seconds.ops { version := 2, width := 20, height := 5 }
        coloured) = .ok p ∧
      (p.step Seconds.ops Seconds.near (fun _ => none) .escape 1).run 3 = .ok (some (1, q)) ∧
      (q.step Seconds.ops Seconds.near (fun _ => none) .escape 1).run 5 = .ok (some (1, r)) ∧
      p.Clear ∧ q.Clear ∧ q.cursor = 2 ∧ r.cursor = 7 :=
    ⟨_, _, _, fromSource_reads (reads_output _), rfl, rfl, by decide +kernel,
      by decide +kernel, rfl, rfl⟩
  have run : List.IsChain (EscapeStep Seconds.ops Seconds.near fun _ => none) [p, q, r] :=
    .cons_cons ⟨3, first⟩ (.cons_cons ⟨5, second⟩ (.singleton r))
  exact ⟨p, q, r, made, at_, at_',
    (escape_stops_iff (reads_output _) made run).mpr (.cons_cons clear (.cons_cons clear' (.singleton r)))⟩

/-- The title is not consumed by one step. -/
theorem escape_stops_in_string :
    ¬ ∀ (src : List Char) (header : Header) (events : List (Event Seconds)) (p : Player Seconds)
        (stops : List (Player Seconds)),
      Reads Seconds.ops src header events → fromSource Seconds.ops src = .ok p →
      List.IsChain (EscapeStep Seconds.ops Seconds.near fun _ => none) (p :: stops) →
      List.IsChain Stops (p :: stops) := by
  intro all
  obtain ⟨p, q, made, stepped, disturbed⟩ : ∃ p q : Player Seconds,
      fromSource Seconds.ops (recordingText Seconds.ops { version := 2, width := 20, height := 5 }
        titled) = .ok p ∧
      (p.step Seconds.ops Seconds.near (fun _ => none) .escape 1).run 3 = .ok (some (1, q)) ∧
      ¬ p.Clear :=
    ⟨_, _, fromSource_reads (reads_output _), rfl, by decide⟩
  have run : List.IsChain (EscapeStep Seconds.ops Seconds.near fun _ => none) [p, q] :=
    .cons_cons ⟨3, stepped⟩ (.singleton q)
  have stops := all _ _ _ p [q] (reads_output _) made run
  have clear := (chain_stops flat_text (fromSource_resting (reads_output _) made) run).mp stops
  exact disturbed (List.isChain_cons_cons.mp clear).1

end Player

end Posh.Rec
