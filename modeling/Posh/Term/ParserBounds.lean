import Posh.Lib.Transition
import Posh.Term.Reactions

/-!
The parser's memory is bounded.

Whatever comes in, the parser holds so many numbers, intermediates and bytes and no more, and
hands no more on. `Heard` runs it beside what has come in of the string being collected: the
string handed on is all of it, and one that does not fit is not handed on.
-/

namespace Posh.Term

open Posh.Lib

/-- Parameters within the caps. -/
structure Capped (params : Params) : Prop where
  few : params.length ≤ MAX_PARAMS
  short : ∀ parts ∈ params, parts.length ≤ MAX_SUBPARAMS + 1
  small : ∀ parts ∈ params, ∀ v ∈ parts, v ≤ 65535

theorem capped_nil : Capped [] :=
  ⟨Nat.zero_le _, nofun, nofun⟩

theorem Capped.push {params : Params} (h : Capped params) {parts : List Nat}
    (short : parts.length ≤ MAX_SUBPARAMS + 1) (small : ∀ v ∈ parts, v ≤ 65535) :
    Capped (Parser.pushParam parts params) := by
  unfold Parser.pushParam
  split
  · rename_i room
    refine ⟨?_, ?_, ?_⟩
    · rw [List.length_append, List.length_singleton]
      exact room
    · intro parts' mem
      rcases List.mem_append.mp mem with old | new
      · exact h.short parts' old
      · rw [List.mem_singleton.mp new]
        exact short
    · intro parts' mem
      rcases List.mem_append.mp mem with old | new
      · exact h.small parts' old
      · rw [List.mem_singleton.mp new]
        exact small
  · exact h

/-- What an action hands on is within the caps. -/
def Action.Within : Action → Prop
  | .csi params intermediates _ _ =>
      Capped params ∧ intermediates.length ≤ MAX_INTERMEDIATES
  | .esc intermediates _ => intermediates.length ≤ MAX_INTERMEDIATES
  | .osc data _ => data.length ≤ MAX_OSC
  | .dcs params intermediates _ data =>
      Capped params ∧ intermediates.length ≤ MAX_INTERMEDIATES ∧ data.length ≤ MAX_DCS
  | .apc data => data.length ≤ MAX_APC
  | _ => True

/-- The string that an action hands on. -/
def Action.string? : Action → Option Bytes
  | .osc data _ => some data
  | .dcs _ _ _ data => some data
  | .apc data => some data
  | _ => none

namespace Parser

/-- The states in which nothing of a sequence has come in. -/
def State.opening (s : State) : Bool :=
  s matches .csiEntry | .dcsEntry

/-- The numbers and intermediates of a sequence. -/
structure Counted (params : Params) (parts : List Nat) (value : Nat) (intermediates : Bytes) :
    Prop where
  ready : Capped params
  short : parts.length ≤ MAX_SUBPARAMS
  small : ∀ v ∈ parts, v ≤ 65535
  bounded : value ≤ 65535
  few : intermediates.length ≤ MAX_INTERMEDIATES

/-- What the parser holds is within the caps. A string that was aborted may be left in the
buffer outside string states. -/
structure Within (p : Parser) : Prop where
  counted : Counted p.params p.curParts p.curVal p.intermediates
  entry : p.state.opening = true → p.intermediates = []
  utf8 : p.utf8.length + p.utf8Need ≤ 4
  string : ∀ cap ∈ p.state.cap, p.stringBuf.length ≤ cap
  left : p.stringBuf.length ≤ MAX_APC

variable {p q : Parser} {b : UInt8} {state : State} {out : Parser × List Action}

theorem Within.steady (h : p.Within) : p.Steady :=
  ⟨h.counted.bounded, h.utf8⟩

/-! ### Numbers -/

theorem counted_nil {intermediates : Bytes} (few : intermediates.length ≤ MAX_INTERMEDIATES) :
    Counted [] [] 0 intermediates :=
  ⟨capped_nil, Nat.zero_le _, nofun, Nat.zero_le _, few⟩

/-- The part being read, at the end of those before it. -/
theorem Within.lastPart (h : p.Within) :
    (p.curParts ++ [p.curVal % 2 ^ 16]).length ≤ MAX_SUBPARAMS + 1 ∧
      ∀ v ∈ p.curParts ++ [p.curVal % 2 ^ 16], v ≤ 65535 := by
  constructor
  · rw [List.length_append, List.length_singleton]
    exact Nat.succ_le_succ h.counted.short
  · intro v mem
    rcases List.mem_append.mp mem with old | new
    · exact h.counted.small v old
    · rw [List.mem_singleton.mp new]
      omega

theorem Within.pushed (h : p.Within) :
    Capped (pushParam (p.curParts ++ [p.curVal % 2 ^ 16]) p.params) :=
  h.counted.ready.push h.lastPart.1 h.lastPart.2

theorem Within.takeParams (h : p.Within) : Capped p.takeParams.1 := by
  unfold Parser.takeParams
  dsimp only
  split
  · exact h.pushed
  · exact h.counted.ready

/-! ### One byte -/

theorem State.Rests.quiet (rests : state.Rests b) : state.cap = none ∧ state.opening = false := by
  refine ⟨rests.outside, ?_⟩
  cases state
  case csiEntry | dcsEntry => exact rests.elim
  all_goals rfl

theorem State.Deeper.quiet {s s' : State} (deeper : s.Deeper s') :
    s'.cap = none ∧ s'.opening = false := by
  refine ⟨deeper.outside, ?_⟩
  cases deeper <;> rfl

theorem outside_of_none (cap : state.cap = none) {n : Nat} : ∀ c ∈ state.cap, n ≤ c := by
  intro c mem
  rw [cap] at mem
  cases mem

/-- Neither a string nor a fresh sequence. -/
theorem Within.turned (h : p.Within) (quiet : state.cap = none ∧ state.opening = false) :
    { p with state }.Within :=
  { h with
    entry := fun opening => absurd (quiet.2.symm.trans opening) Bool.false_ne_true
    string := outside_of_none quiet.1 }

/-- The numbers and intermediates changed on the way. -/
theorem Within.recounted (h : p.Within) (quiet : q.state.cap = none ∧ q.state.opening = false)
    (counted : Counted q.params q.curParts q.curVal q.intermediates)
    (utf8 : (q.utf8, q.utf8Need) = (p.utf8, p.utf8Need)) (string : q.stringBuf = p.stringBuf) :
    q.Within := by
  obtain ⟨bytes, need⟩ := Prod.mk.inj utf8
  refine ⟨counted, ?_, ?_, outside_of_none quiet.1, ?_⟩
  · intro opening
    exact absurd (quiet.2.symm.trans opening) Bool.false_ne_true
  · rw [bytes, need]
    exact h.utf8
  · rw [string]
    exact h.left

/-- One more intermediate, if there is room. -/
theorem pushIntermediate_few (few : p.intermediates.length ≤ MAX_INTERMEDIATES) :
    ∃ intermediates : Bytes, intermediates.length ≤ MAX_INTERMEDIATES ∧
      p.pushIntermediate b = { p with intermediates } := by
  unfold pushIntermediate
  split
  · rename_i room
    refine ⟨_, ?_, rfl⟩
    rw [List.length_append, List.length_singleton]
    exact room
  · exact ⟨_, few, rfl⟩

/-- The parts after a colon. -/
theorem Within.colon (h : p.Within) : p.paramColon.curParts.length ≤ MAX_SUBPARAMS ∧
    ∀ v ∈ p.paramColon.curParts, v ≤ 65535 := by
  unfold paramColon
  dsimp only
  split
  · rename_i room
    refine ⟨?_, h.lastPart.2⟩
    rw [List.length_append, List.length_singleton]
    exact room
  · exact ⟨h.counted.short, h.counted.small⟩

/-- A byte of the string, if there is room. -/
theorem Within.heard (h : p.Within) {cap : Nat} (kind : p.state.cap = some cap) :
    (p.pushStringByte b cap).Within := by
  unfold pushStringByte
  split
  · rename_i room
    have grown : (p.stringBuf ++ [b]).length ≤ cap := by
      rw [List.length_append, List.length_singleton]
      exact room
    refine { h with string := ?_, left := grown.trans (cap_le kind) }
    intro cap' mem
    cases kind.symm.trans mem
    exact grown
  · exact { h with }

/-- A fresh buffer, in any state. -/
theorem Within.emptied (h : p.Within) (opening : q.state.opening = true → q.intermediates = [])
    (counted : Counted q.params q.curParts q.curVal q.intermediates)
    (utf8 : (q.utf8, q.utf8Need) = (p.utf8, p.utf8Need)) (string : q.stringBuf = []) : q.Within := by
  obtain ⟨bytes, need⟩ := Prod.mk.inj utf8
  refine ⟨counted, opening, ?_, ?_, ?_⟩
  · rw [bytes, need]
    exact h.utf8
  · intro cap _
    rw [string]
    exact Nat.zero_le cap
  · rw [string]
    exact Nat.zero_le _

theorem reacts_within (h : p.Within) (reacts : Reacts b p out) : out.1.Within := by
  have counted := h.counted
  have cleared : Counted [] [] 0 ([] : Bytes) := counted_nil (Nat.zero_le _)
  cases reacts with
  | turns turn plain =>
    rcases turn with ⟨rfl, -⟩ | rests
    · exact h
    · exact h.turned rests.quiet
  | begins ground lead few =>
    exact { h with utf8 := Nat.add_comm 1 _ ▸ Nat.succ_le_succ few }
  | opens outside entry =>
    refine ⟨cleared, fun _ => rfl, h.utf8, outside_of_none ?_, h.left⟩
    rcases entry with ⟨rfl, -⟩ | rfl
    · rfl
    · rfl
  | starts outside string =>
    refine h.emptied ?_ counted rfl rfl
    rcases string with rfl | rfl | rfl <;> exact nofun
  | marks escape => exact h.recounted ⟨rfl, rfl⟩ (counted_nil (Nat.le_succ 1)) rfl rfl
  | first entry deeper =>
    have none_ : p.intermediates = [] := h.entry (by rcases entry with entry | entry <;> rw [entry] <;> rfl)
    refine h.recounted deeper.quiet { counted with few := ?_ } rfl rfl
    rw [none_]
    exact Nat.le_succ 1
  | intermediate deeper =>
    obtain ⟨intermediates, few, eq⟩ := pushIntermediate_few (b := b) counted.few
    rw [eq]
    exact h.recounted deeper.quiet { counted with few } rfl rfl
  | digit deeper small => exact h.recounted deeper.quiet { counted with bounded := small } rfl rfl
  | colon deeper =>
    exact h.recounted deeper.quiet ⟨counted.ready, h.colon.1, h.colon.2, Nat.zero_le _, counted.few⟩
      rfl rfl
  | semicolon deeper =>
    exact h.recounted deeper.quiet ⟨h.pushed, Nat.zero_le _, nofun, Nat.zero_le _,
      counted.few⟩ rfl rfl
  | marker deeper => exact h.recounted deeper.quiet counted rfl rfl
  | escapes escape => exact h.turned ⟨rfl, rfl⟩
  | escapesWith inside =>
    exact h.recounted ⟨rfl, rfl⟩ { counted with few := Nat.zero_le _ } rfl rfl
  | dispatches inside => exact h.recounted ⟨rfl, rfl⟩ cleared rfl rfl
  | ends ignored => exact h.recounted ⟨rfl, rfl⟩ cleared rfl rfl
  | hooks outside => exact h.emptied nofun counted rfl rfl
  | hears kind kept => exact h.heard kind
  | finishes rests kind =>
    exact h.emptied (fun opening => absurd (rests.quiet.2.symm.trans opening) Bool.false_ne_true)
      counted rfl rfl
  | unhooks rests hooked =>
    refine h.emptied (fun opening => absurd (rests.quiet.2.symm.trans opening) Bool.false_ne_true) ?_ ?_ ?_
    all_goals
      unfold dcsUnhook
      split
      · first | exact cleared | rfl
      · first | exact cleared | rfl
  | aborts hooked => exact h.emptied nofun cleared rfl rfl

theorem Plain.within {actions : List Action} (plain : Plain b actions) : ∀ a ∈ actions, a.Within := by
  intro a mem
  rcases plain a mem with rfl | rfl | ⟨-, -, rfl⟩
  · trivial
  · trivial
  · trivial

theorem within_one {a : Action} (h : a.Within) : ∀ a' ∈ [a], a'.Within := by
  intro a' mem
  rw [List.mem_singleton.mp mem]
  exact h

theorem reacts_actions (h : p.Within) (reacts : Reacts b p out) : ∀ a ∈ out.2, a.Within := by
  cases reacts with
  | turns turn plain => exact plain.within
  | escapes escape => exact within_one (Nat.zero_le _)
  | escapesWith inside => exact within_one h.counted.few
  | dispatches inside => exact within_one ⟨h.takeParams, h.counted.few⟩
  | finishes rests kind =>
    unfold finishString
    dsimp only
    split
    · exact nofun
    · rcases kind with ⟨state, bel, rfl⟩ | ⟨state, rfl⟩
      · exact within_one (h.string MAX_OSC (state ▸ rfl))
      · exact within_one h.left
  | unhooks rests hooked =>
    unfold dcsUnhook
    split
    · exact nofun
    · exact within_one ⟨h.takeParams, h.counted.few, h.string MAX_DCS (hooked ▸ rfl)⟩
  | _ => exact nofun

/-! ### What has come in of a string -/

/-- What has come in of the string being collected, after a byte that leads from `p` to `q`. -/
def hear (b : UInt8) (p q : Parser) (content : Bytes) : Bytes :=
  if q.state = p.state then content ++ p.state.kept b else []

/-- The buffer holds the content as far as it fits, and the flag tells whether it does. -/
def Hears (content : Bytes) (p : Parser) : Prop :=
  ∀ cap ∈ p.state.cap,
    p.stringBuf = content.take cap ∧ p.stringOverflow = decide (cap < content.length)

variable {content : Bytes}

theorem hears_outside (cap : q.state.cap = none) : Hears content q := by
  intro c mem
  rw [cap] at mem
  cases mem

/-- A string that begins has nothing in it. -/
theorem hears_fresh (other : q.state ≠ p.state) (buffer : q.stringBuf = [])
    (flag : q.stringOverflow = false) : Hears (hear b p q content) q := by
  unfold hear
  rw [if_neg other]
  intro cap _
  exact ⟨buffer.trans List.take_nil.symm, flag⟩

theorem Hears.push (h : Hears content p) {cap : Nat} (kind : p.state.cap = some cap)
    (kept : p.state.kept b = [b]) :
    Hears (hear b p (p.pushStringByte b cap) content) (p.pushStringByte b cap) := by
  obtain ⟨buffer, flag⟩ := h cap kind
  unfold hear
  rw [if_pos (pushStringByte_state b cap p), kept]
  intro cap' mem
  rw [pushStringByte_state] at mem
  cases kind.symm.trans mem
  have held : p.stringBuf.length = min cap content.length := by rw [buffer, List.length_take]
  have longer : (content ++ [b]).length = content.length + 1 := List.length_append
  rw [longer]
  unfold pushStringByte
  split
  · rename_i room
    have short : content.length < cap := by omega
    constructor
    · rw [List.take_of_length_le (by omega), buffer, List.take_of_length_le (by omega)]
    · rw [flag, decide_eq_decide]
      omega
  · rename_i full
    constructor
    · rw [List.take_append_of_le_length (by omega)]
      exact buffer
    · exact (decide_eq_true (by omega)).symm

/-- A string that is handed on is all that has come in of it, and it fits. -/
def Complete (content : Bytes) (p : Parser) (actions : List Action) : Prop :=
  ∀ a ∈ actions, ∀ data ∈ a.string?, data = content ∧ ∃ cap ∈ p.state.cap, data.length ≤ cap

theorem reacts_hears (h : Hears content p) (reacts : Reacts b p out) :
    Hears (hear b p out.1 content) out.1 := by
  cases reacts with
  | turns turn plain =>
    rcases turn with ⟨rfl, unkept⟩ | rests
    · unfold hear
      rw [if_pos rfl, unkept, List.append_nil]
      exact h
    · exact hears_outside rests.outside
  | begins ground lead few => exact hears_outside (by rw [ground]; rfl)
  | opens outside entry =>
    refine hears_outside ?_
    rcases entry with ⟨rfl, -⟩ | rfl
    · rfl
    · rfl
  | starts outside string =>
    refine hears_fresh ?_ rfl rfl
    intro same
    rw [← same] at outside
    rcases string with rfl | rfl | rfl <;> cases outside
  | marks escape => exact hears_outside rfl
  | first entry deeper => exact hears_outside deeper.outside
  | intermediate deeper => exact hears_outside deeper.outside
  | digit deeper small => exact hears_outside deeper.outside
  | colon deeper => exact hears_outside deeper.outside
  | semicolon deeper => exact hears_outside deeper.outside
  | marker deeper => exact hears_outside deeper.outside
  | escapes escape => exact hears_outside rfl
  | escapesWith inside => exact hears_outside rfl
  | dispatches inside => exact hears_outside rfl
  | ends ignored => exact hears_outside rfl
  | hooks outside =>
    refine hears_fresh ?_ rfl rfl
    intro same
    rw [← same] at outside
    cases outside
  | hears kind kept => exact h.push kind kept
  | finishes rests kind => exact hears_outside rests.outside
  | unhooks rests hooked => exact hears_outside rests.outside
  | aborts hooked => exact hears_outside rfl

theorem complete_of_none {actions : List Action} (none : ∀ a ∈ actions, a.string? = none) :
    Complete content p actions := by
  intro a mem data string
  rw [none a mem] at string
  cases string

/-- What is handed on where the flag is not set. -/
theorem Hears.complete (h : Hears content p) {cap : Nat} (kind : p.state.cap = some cap)
    (whole : p.stringOverflow = false) {a : Action} (string : a.string? = some p.stringBuf) :
    Complete content p [a] := by
  obtain ⟨buffer, flag⟩ := h cap kind
  have fits : content.length ≤ cap := by
    rw [whole] at flag
    exact Nat.not_lt.mp (of_decide_eq_false flag.symm)
  rw [List.take_of_length_le fits] at buffer
  intro a' mem data found
  rw [List.mem_singleton.mp mem, string] at found
  cases found
  exact ⟨buffer, cap, kind, buffer ▸ fits⟩

theorem reacts_complete (h : Hears content p) (reacts : Reacts b p out) : Complete content p out.2 := by
  cases reacts with
  | turns turn plain =>
    refine complete_of_none fun a mem => ?_
    rcases plain a mem with rfl | rfl | ⟨-, -, rfl⟩
    · rfl
    · rfl
    · rfl
  | escapes escape => exact complete_of_none fun a mem => by rw [List.mem_singleton.mp mem]; rfl
  | escapesWith inside => exact complete_of_none fun a mem => by rw [List.mem_singleton.mp mem]; rfl
  | dispatches inside => exact complete_of_none fun a mem => by rw [List.mem_singleton.mp mem]; rfl
  | finishes rests kind =>
    unfold finishString
    dsimp only
    split
    · exact complete_of_none nofun
    · rename_i whole
      rw [Bool.not_eq_true] at whole
      rcases kind with ⟨state, bel, rfl⟩ | ⟨state, rfl⟩
      · exact h.complete (congrArg State.cap state) whole rfl
      · exact h.complete (congrArg State.cap state) whole rfl
  | unhooks rests hooked =>
    unfold dcsUnhook
    split
    · exact complete_of_none nofun
    · rename_i whole
      rw [Bool.not_eq_true] at whole
      exact h.complete (congrArg State.cap hooked) whole rfl
  | _ => exact complete_of_none nofun

/-- What one byte does, the decoding of characters included. -/
structure Bounds (b : UInt8) (content : Bytes) (p : Parser) (out : Parser × List Action) : Prop where
  within : out.1.Within
  actions : ∀ a ∈ out.2, a.Within
  hears : Hears (hear b p out.1 content) out.1
  complete : Complete content p out.2

theorem bounds_of_reacts (h : p.Within) (hears : Hears content p) (reacts : Reacts b p out) :
    Bounds b content p out :=
  ⟨reacts_within h reacts, reacts_actions h reacts, reacts_hears hears reacts,
    reacts_complete hears reacts⟩

theorem advance_bounds (h : p.Within) (hears : Hears content p) (b : UInt8) :
    Yields (p.advance b) (Bounds b content p) := by
  refine ((advance_advances b p).yields h.steady).mono ?_
  intro out advances
  cases advances with
  | reacts idle reacts => exact bounds_of_reacts h hears reacts
  | continues ground pending byte =>
    refine ⟨{ h with utf8 := ?_ }, nofun, hears_outside (ground ▸ rfl), complete_of_none nofun⟩
    have := h.utf8
    show (p.utf8 ++ [b]).length + (p.utf8Need - 1) ≤ 4
    rw [List.length_append, List.length_singleton]
    omega
  | completes ground byte decoded =>
    refine ⟨{ h with utf8 := Nat.zero_le _ }, within_one trivial, hears_outside (ground ▸ rfl),
      complete_of_none fun a mem => ?_⟩
    rw [List.mem_singleton.mp mem]
    rfl
  | malformed ground reacts =>
    have reset : p.utf8Reset.Within := { h with utf8 := Nat.zero_le _ }
    have heard : Hears content p.utf8Reset := hears_outside (ground ▸ rfl)
    have bounds := bounds_of_reacts reset heard reacts
    refine ⟨bounds.within, ?_, bounds.hears, ?_⟩
    · exact List.forall_mem_cons.mpr ⟨trivial, bounds.actions⟩
    · refine List.forall_mem_cons.mpr ⟨?_, bounds.complete⟩
      exact nofun

theorem within_new : Within {} :=
  ⟨counted_nil (Nat.zero_le _), nofun, Nat.zero_le _, nofun, Nat.zero_le _⟩

end Parser

/-! ### Runs -/

/-- A parser, and what has come in of the string it collects. -/
structure Heard where
  parser : Parser := {}
  content : Bytes := []

namespace Heard

def advance (b : UInt8) (s : Heard) : Checked (Heard × List Action) := do
  let (parser, actions) ← s.parser.advance b
  return ({ parser, content := Parser.hear b s.parser parser s.content }, actions)

/-- Bytes one after the other, whatever they are. -/
def stream : Transition Heard where
  init s := s = {}
  step s s' := ∃ b actions, s.advance b = .ok (s', actions)

/-- Within the caps, and the buffer holds what has come in as far as it fits. -/
structure Kept (s : Heard) : Prop where
  within : s.parser.Within
  hears : Parser.Hears s.content s.parser

variable {s : Heard}

theorem advance_kept (h : s.Kept) (b : UInt8) :
    Yields (s.advance b) fun out => out.1.Kept ∧ (∀ a ∈ out.2, a.Within) ∧
      Parser.Complete s.content s.parser out.2 := by
  refine (Parser.advance_bounds h.within h.hears b).bind ?_
  rintro ⟨parser, actions⟩ bounds
  exact .pure ⟨⟨bounds.within, bounds.hears⟩, bounds.actions, bounds.complete⟩

theorem kept_invariant : stream.Invariant Kept where
  base := by
    rintro _ rfl
    exact ⟨Parser.within_new, nofun⟩
  step := by
    rintro s s' kept ⟨b, actions, eq⟩
    exact ((advance_kept kept b).of_eq_ok eq).1

/-- In every state that a stream reaches, the parser is within its caps, and no byte makes it
panic or hand on anything beyond them. A string that it hands on is all that has come in of it,
so that none that overflowed is handed on. -/
theorem parser_bounded (h : stream.Reachable s) :
    s.parser.Within ∧ ∀ b, Yields (s.advance b) fun out =>
      (∀ a ∈ out.2, a.Within) ∧ Parser.Complete s.content s.parser out.2 := by
  have kept := kept_invariant.reachable h
  exact ⟨kept.within, fun b => (advance_kept kept b).mono fun _ => And.right⟩

/-- A title that has begun, and the byte that ends it. -/
theorem parser_bounded_title : ∃ s, stream.Reachable s ∧ s.content = [0x32, 0x3B, 0x61] ∧
    s.parser.Within ∧ Yields (s.advance 0x07) fun out => out.2 = [.osc [0x32, 0x3B, 0x61] true] ∧
      ∀ a ∈ out.2, a.Within := by
  have fresh : stream.Reachable {} := .of_init rfl
  have title : stream.Reachable
      ⟨{ state := .oscString, stringBuf := [0x32, 0x3B, 0x61] }, [0x32, 0x3B, 0x61]⟩ :=
    ((((fresh.tail ⟨0x1B, _, rfl⟩).tail ⟨0x5D, _, rfl⟩).tail ⟨0x32, _, rfl⟩).tail
      ⟨0x3B, _, rfl⟩).tail ⟨0x61, _, rfl⟩
  obtain ⟨within, handed⟩ := parser_bounded title
  have ended : Yields (advance 0x07
      ⟨{ state := .oscString, stringBuf := [0x32, 0x3B, 0x61] }, [0x32, 0x3B, 0x61]⟩) fun out =>
      out.2 = [.osc [0x32, 0x3B, 0x61] true] :=
    ⟨_, rfl, rfl⟩
  exact ⟨_, title, rfl, within, ended.and ((handed 0x07).mono fun _ => And.left)⟩

end Heard

end Posh.Term
