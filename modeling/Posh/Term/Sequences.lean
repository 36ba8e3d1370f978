import Posh.Term.Decoding

/-!
Where an ESC or CSI sequence ends.

The state after a byte inside a sequence is settled by the state before it and the byte.
A sequence closes when it comes to ground, and not when it opens a control string or is
one that the parser ignores.
-/

namespace Posh.Term

open Posh.Lib

namespace Parser

namespace State

/-- From these a sequence goes on. -/
def midEscape (s : State) : Bool :=
  s matches .escape | .escapeIntermediate | .csiEntry | .csiParam | .csiIntermediate

/-- What a C1 control begins. -/
def afterC1 (n : Nat) : State :=
  match n with
  | 0x90 => .dcsEntry
  | 0x98 | 0x9E => .sosPmString
  | 0x9B => .csiEntry
  | 0x9D => .oscString
  | 0x9F => .apcString
  | _ => .ground

/-- The state after a byte of a sequence. -/
def after (s : State) (b : UInt8) : State :=
  let n := b.toNat
  if n = 0x1B then .escape
  else if n = 0x18 ∨ n = 0x1A then .ground
  else if 0x80 ≤ n ∧ n ≤ 0x9F then afterC1 n
  else if n ≤ 0x1F then s
  else
    match s with
    | .escape =>
        if n ≤ 0x2F then .escapeIntermediate
        else if n = '['.toNat then .csiEntry
        else if n = ']'.toNat then .oscString
        else if n = 'P'.toNat then .dcsEntry
        else if n = '_'.toNat then .apcString
        else if n = 'X'.toNat ∨ n = '^'.toNat then .sosPmString
        else if n ≤ 0x7E then .ground
        else s
    | .escapeIntermediate =>
        if n ≤ 0x2F then s
        else if n ≤ 0x7E then .ground
        else s
    | .csiEntry =>
        if n ≤ 0x2F then .csiIntermediate
        else if n ≤ ';'.toNat then .csiParam
        else if n ≤ 0x3F then .csiParam
        else if n ≤ 0x7E then .ground
        else s
    | .csiParam =>
        if n ≤ 0x2F then .csiIntermediate
        else if n ≤ ';'.toNat then s
        else if n ≤ 0x3F then .csiIgnore
        else if n ≤ 0x7E then .ground
        else s
    | .csiIntermediate =>
        if n ≤ 0x2F then s
        else if n ≤ 0x3F then .csiIgnore
        else if n ≤ 0x7E then .ground
        else s
    | s => s

end State

variable {p q : Parser} {b : UInt8} {actions : List Action}

/-- The parser is in `s`, and as far inside a character as `p`. -/
def Comes (p : Parser) (s : State) (out : Parser × List Action) : Prop :=
  out.1.state = s ∧ out.1.utf8Need = p.utf8Need

theorem Comes.ite {s s' : State} {x y : Parser × List Action} {c : Prop} [Decidable c]
    (yes : c → p.Comes s x) (no : ¬ c → p.Comes s' y) :
    p.Comes (if c then s else s') (if c then x else y) := by
  split
  · exact yes ‹_›
  · exact no ‹_›

theorem c1_comes (b : UInt8) (p : Parser) :
    p.Comes (.afterC1 b.toNat) (c1 b { p with state := .ground }) := by
  unfold Comes c1 State.afterC1
  split <;> simp_all [clear, startString]

/-- What every state treats alike; the rest is left to the state. -/
theorem anywhere_acts (b : UInt8) (p : Parser) (s' : State) :
    let after := if b.toNat = 0x1B then .escape
      else if b.toNat = 0x18 ∨ b.toNat = 0x1A then .ground
      else if 0x80 ≤ b.toNat ∧ b.toNat ≤ 0x9F then .afterC1 b.toNat
      else s'
    (∀ out, p.anywhere b = some out → p.Comes after out) ∧ (p.anywhere b = none → after = s') := by
  unfold anywhere
  dsimp only
  split
  · exact ⟨by rintro _ ⟨⟩; exact ⟨rfl, rfl⟩, nofun⟩
  · split
    · exact ⟨by rintro _ ⟨⟩; exact ⟨rfl, rfl⟩, nofun⟩
    · split
      · exact ⟨by rintro _ ⟨⟩; exact c1_comes b p, nofun⟩
      · exact ⟨nofun, fun _ => rfl⟩

theorem anywhere_comes {s' : State} {y : Parser × List Action} (b : UInt8) (p : Parser)
    (rest : p.Comes s' y) :
    p.Comes (if b.toNat = 0x1B then .escape
        else if b.toNat = 0x18 ∨ b.toNat = 0x1A then .ground
        else if 0x80 ≤ b.toNat ∧ b.toNat ≤ 0x9F then .afterC1 b.toNat
        else s')
      (match p.anywhere b with
        | some out => out
        | none => y) := by
  obtain ⟨acts, leaves⟩ := anywhere_acts b p s'
  cases done : p.anywhere b with
  | some out => exact acts out done
  | none =>
    rw [show _ = s' from leaves done]
    exact rest

theorem escape_comes (b : UInt8) (state : p.state = .escape) :
    p.Comes (State.escape.after b) (p.escape b) := by
  refine anywhere_comes b p ?_
  refine .ite (fun _ => ⟨state, rfl⟩) fun _ => ?_
  refine .ite (fun _ => ⟨rfl, rfl⟩) fun _ => ?_
  refine .ite (fun _ => ⟨rfl, rfl⟩) fun _ => ?_
  refine .ite (fun _ => ⟨rfl, rfl⟩) fun _ => ?_
  refine .ite (fun _ => ⟨rfl, rfl⟩) fun _ => ?_
  refine .ite (fun _ => ⟨rfl, rfl⟩) fun _ => ?_
  refine .ite (fun _ => ⟨rfl, rfl⟩) fun _ => ?_
  exact .ite (fun _ => ⟨rfl, rfl⟩) fun _ => ⟨state, rfl⟩

theorem pushIntermediate_comes (b : UInt8) (p : Parser) {s : State} (state : p.state = s) :
    p.Comes s (p.pushIntermediate b, []) := by
  refine ⟨(pushIntermediate_state b p).trans state, ?_⟩
  unfold pushIntermediate
  dsimp only
  split <;> rfl

theorem csiDispatch_comes (b : UInt8) (p : Parser) : p.Comes .ground (p.csiDispatch b) :=
  ⟨rfl, rfl⟩

theorem escapeIntermediate_comes (b : UInt8) (state : p.state = .escapeIntermediate) :
    p.Comes (State.escapeIntermediate.after b) (p.escapeIntermediate b) := by
  refine anywhere_comes b p ?_
  refine .ite (fun _ => ⟨state, rfl⟩) fun _ => ?_
  refine .ite (fun _ => pushIntermediate_comes b p state) fun _ => ?_
  exact .ite (fun _ => ⟨rfl, rfl⟩) fun _ => ⟨state, rfl⟩

theorem csiIntermediate_comes (b : UInt8) (state : p.state = .csiIntermediate) :
    p.Comes (State.csiIntermediate.after b) (p.csiIntermediate b) := by
  refine anywhere_comes b p ?_
  refine .ite (fun _ => ⟨state, rfl⟩) fun _ => ?_
  refine .ite (fun _ => pushIntermediate_comes b p state) fun _ => ?_
  refine .ite (fun _ => ⟨rfl, rfl⟩) fun _ => ?_
  exact .ite (fun _ => csiDispatch_comes b p) fun _ => ⟨state, rfl⟩

/-! Entering a parameter may panic. -/

theorem guarded_ite {s s' : State} {x y : Checked (Parser × List Action)} {c : Prop} [Decidable c]
    (yes : Guarded False x (p.Comes s)) (no : Guarded False y (p.Comes s')) :
    Guarded False (if c then x else y) (p.Comes (if c then s else s')) := by
  split
  · exact yes
  · exact no

theorem guarded_anywhere {s' : State} {y : Checked (Parser × List Action)} (b : UInt8) (p : Parser)
    (rest : Guarded False y (p.Comes s')) :
    Guarded False
      (match p.anywhere b with
        | some out => .ok out
        | none => y)
      (p.Comes (if b.toNat = 0x1B then .escape
        else if b.toNat = 0x18 ∨ b.toNat = 0x1A then .ground
        else if 0x80 ≤ b.toNat ∧ b.toNat ≤ 0x9F then .afterC1 b.toNat
        else s')) := by
  obtain ⟨acts, leaves⟩ := anywhere_acts b p s'
  cases done : p.anywhere b with
  | some out => exact .ok (acts out done)
  | none =>
    rw [show _ = s' from leaves done]
    exact rest

theorem paramByte_comes (b : UInt8) (next : State) (p : Parser) :
    Guarded False (paramByte b next p) (p.Comes next) := by
  have entered : Guarded False (if b.toNat = ':'.toNat then pure p.paramColon
      else if b.toNat = ';'.toNat then pure p.paramSemicolon
      else p.paramDigit b) fun q => q.utf8Need = p.utf8Need := by
    split
    · exact .pure rfl
    · split
      · exact .pure rfl
      · refine (Guarded.trivial _).bind fun digit _ => ?_
        refine (Guarded.trivial _).bind fun shifted _ => ?_
        exact (Guarded.trivial _).bind fun value _ => .pure rfl
  exact entered.bind fun q need => .pure ⟨rfl, need⟩

theorem csiEntry_comes (b : UInt8) (state : p.state = .csiEntry) :
    Guarded False (p.csiEntry b) (p.Comes (State.csiEntry.after b)) := by
  refine guarded_anywhere b p ?_
  refine guarded_ite (.ok ⟨state, rfl⟩) ?_
  refine guarded_ite (.ok ⟨rfl, rfl⟩) ?_
  refine guarded_ite (paramByte_comes b _ p) ?_
  refine guarded_ite (.ok ⟨rfl, rfl⟩) ?_
  exact guarded_ite (.ok (csiDispatch_comes b p)) (.ok ⟨state, rfl⟩)

theorem csiParam_comes (b : UInt8) (state : p.state = .csiParam) :
    Guarded False (p.csiParam b) (p.Comes (State.csiParam.after b)) := by
  refine guarded_anywhere b p ?_
  refine guarded_ite (.ok ⟨state, rfl⟩) ?_
  refine guarded_ite (.ok ⟨rfl, (pushIntermediate_comes b p rfl).2⟩) ?_
  refine guarded_ite (paramByte_comes b _ p) ?_
  refine guarded_ite (.ok ⟨rfl, rfl⟩) ?_
  exact guarded_ite (.ok (csiDispatch_comes b p)) (.ok ⟨state, rfl⟩)

/-- Inside a sequence the state after a byte is settled by the two. -/
theorem advance_comes (inside : p.state.midEscape = true) (b : UInt8) :
    Guarded False (p.advance b) (p.Comes (p.state.after b)) := by
  unfold advance
  cases state : p.state with
  | escape => exact .ok (escape_comes b state)
  | escapeIntermediate => exact .ok (escapeIntermediate_comes b state)
  | csiEntry => exact csiEntry_comes b state
  | csiParam => exact csiParam_comes b state
  | csiIntermediate => exact .ok (csiIntermediate_comes b state)
  | _ =>
    rw [state] at inside
    cases inside

/-! ### Whole sequences -/

/-- A stop in `s` with `rest` ahead: in ground and between characters, if not at the end. -/
def Shut (s : State) (rest : Bytes) : Prop :=
  rest = [] ∨ s = .ground ∧ ∀ b ∈ rest.head?, isContinuation b = false

/-- From `s` inside a sequence, the bytes ahead close it or end before. -/
def Closes : State → Bytes → Prop
  | _, [] => True
  | s, b :: rest => if (s.after b).midEscape then Closes (s.after b) rest else Shut (s.after b) rest

instance (s : State) (rest : Bytes) : Decidable (Shut s rest) :=
  inferInstanceAs (Decidable
    (rest = [] ∨ s = .ground ∧ ∀ b ∈ rest.head?, isContinuation b = false))

instance closes_decidable : (s : State) → (bytes : Bytes) → Decidable (Closes s bytes)
  | _, [] => .isTrue trivial
  | s, b :: rest =>
      have := closes_decidable (s.after b) rest
      inferInstanceAs (Decidable
        (if (s.after b).midEscape then Closes (s.after b) rest else Shut (s.after b) rest))

/-- The parser reads all of `bytes`, and is back in ground nowhere before their end. -/
inductive Through (p : Parser) : Bytes → Parser → Prop where
  | first {b : UInt8} {q : Parser} {actions : List Action} (step : p.advance b = .ok (q, actions)) :
      Through p [b] q
  | next {bytes : Bytes} {q r : Parser} {b : UInt8} {actions : List Action} (h : Through p bytes q)
      (unfinished : q.state ≠ .ground) (step : q.advance b = .ok (r, actions)) :
      Through p (bytes ++ [b]) r

/-- An ESC and all up to where the parser is back in ground. -/
def WholeSequence (p : Parser) (bytes : Bytes) : Prop :=
  bytes.head? = some 0x1B ∧ ∃ q, Through p bytes q ∧ q.state = .ground

/-! ### Ordinary characters -/

/-- After any character but ESC the parser is ready again. -/
theorem ready_char {c : Char} (ordinary : c ≠ '\x1b') :
    ∃ actions, Reads (String.utf8EncodeChar c) actions := by
  by_cases control : c.toNat < 0x20
  · have shape := encodes c
    generalize String.utf8EncodeChar c = bytes at shape
    cases shape with
    | @one b value ascii =>
      refine ⟨_, reads_control (b := b) (by omega) fun escape => ordinary ?_⟩
      rw [value] at escape
      exact Char.toNat_inj.mp escape
    | two _ _ _ wide => omega
    | three _ _ _ _ _ wide => omega
    | four _ _ _ _ _ _ wide => omega
  · by_cases delete : c.toNat = 0x7F
    · obtain rfl : c = '\x7f' := Char.toNat_inj.mp delete
      exact ⟨[], reads_delete⟩
    · exact ⟨_, reads_char (by omega) delete⟩

/-- A text without ESC is read from ground to ground. -/
theorem ready_text {text : List Char} (ordinary : '\x1b' ∉ text) :
    ∃ actions, Reads (toUtf8 text) actions := by
  induction text with
  | nil => exact ⟨[], .nil⟩
  | cons c text ih =>
    obtain ⟨first, here⟩ := @ready_char c (by rintro rfl; exact ordinary List.mem_cons_self)
    obtain ⟨more, later⟩ := ih fun mem => ordinary (List.mem_cons_of_mem c mem)
    exact ⟨first ++ more, here.append later⟩

end Parser

end Posh.Term
