import Posh.Session.Mirror

/-!
The outer terminal's keyboard flags beside the session's.

The session has a keyboard stack for each of its screens, and the outer terminal has the
one of the screen it stays on. A push, a pop or a set does the same to the stack in
force on both sides. A switch puts the other stack in force in the session only: the
substitute leaves the outer stack alone, unless it takes the place of a reset.
-/

namespace Posh.Term

open Posh.Lib

namespace Keyboard

theorem active_modify (f : KittyKeyStack → KittyKeyStack) (k : Keyboard) :
    (k.modify f).active = f k.active := by
  unfold modify active
  by_cases alt : k.altActive = true
  · rw [if_pos alt, if_pos alt, if_pos alt]
  · rw [if_neg alt, if_neg alt, if_neg alt]

/-- Another screen's stack comes into force, and it has the same entries. -/
theorem active_switched {k : Keyboard} {alt : Bool} (same : k.altActive ≠ alt → k.primary = k.alt) :
    { k with altActive := alt }.active = k.active := by
  by_cases stays : k.altActive = alt
  · rw [← stays]
  · have equal := same stays
    unfold active
    dsimp only
    rw [equal, ite_self, ite_self]

end Keyboard

namespace Registers

variable {r r' : Registers}

theorem afterDecs_keyboard {params : Params} (none : ∀ p ∈ params, ¬ IsScreenMode (firstPart p))
    (set : Bool) (r : Registers) : (r.afterDecs params set).keyboard = r.keyboard := by
  induction params generalizing r with
  | nil => rfl
  | cons p rest ih =>
    have here : (r.afterDec (firstPart p) set).keyboard = r.keyboard :=
      if_neg (none p List.mem_cons_self)
    exact (ih (fun q mem => none q (List.mem_cons_of_mem _ mem)) _).trans here

theorem afterDecs_switched {params : Params} (some_ : ∃ p ∈ params, IsScreenMode (firstPart p))
    (set : Bool) (r : Registers) :
    (r.afterDecs params set).keyboard = { r.keyboard with altActive := set } := by
  induction params generalizing r with
  | nil =>
    obtain ⟨p, mem, -⟩ := some_
    exact absurd mem List.not_mem_nil
  | cons p rest ih =>
    have step : (r.afterDecs (p :: rest) set).keyboard =
        ((r.afterDec (firstPart p) set).afterDecs rest set).keyboard := rfl
    rw [step]
    by_cases later : ∃ q ∈ rest, IsScreenMode (firstPart q)
    · rw [ih later]
      unfold afterDec
      dsimp only
      split <;> rfl
    · have here : IsScreenMode (firstPart p) := by
        obtain ⟨q, mem, screen⟩ := some_
        rcases List.mem_cons.mp mem with rfl | inside
        · exact screen
        · exact absurd ⟨q, inside, screen⟩ later
      rw [afterDecs_keyboard (fun q mem screen => later ⟨q, mem, screen⟩)]
      exact if_pos here

/-- An action that switches no screens changes the stack in force, whichever it is. -/
theorem after_keyboard (a : Action) (none : ¬ a.Switches) :
    ∃ f, ∀ r : Registers, (r.after a).keyboard = r.keyboard.modify f := by
  have nothing (k : Keyboard) : k.modify id = k := by
    unfold Keyboard.modify
    split <;> rfl
  cases a with
  | csi params intermediates marker finalByte =>
    unfold after afterCsi
    dsimp only
    cases intermediates with
    | cons i rest =>
      dsimp only [List.head?_cons, Option.map_some]
      split
      · unfold afterWith
        split
        · exact ⟨_, fun _ => rfl⟩
        · exact ⟨id, fun r => (nothing r.keyboard).symm⟩
      · exact ⟨id, fun r => (nothing r.keyboard).symm⟩
    | nil =>
      dsimp only [List.head?_nil, Option.map_none]
      split
      · refine ⟨id, fun r => ?_⟩
        rw [nothing]
        unfold afterPlain
        split <;> rfl
      · rename_i isMarker
        have marker_eq : marker = 0x3F := (char_eq (by decide)).mp isMarker
        have other (finalEq : finalByte = 0x68 ∨ finalByte = 0x6C) (set : Bool) (r : Registers) :
            (r.afterDecs params set).keyboard = r.keyboard := by
          apply afterDecs_keyboard
          intro p mem screen
          exact none ⟨rfl, marker_eq, finalEq, p, mem, screen⟩
        refine ⟨id, fun r => ?_⟩
        rw [nothing]
        unfold afterQuestion
        split
        · rename_i isSet
          exact other (.inl ((char_eq (by decide)).mp isSet)) true r
        · rename_i isReset
          exact other (.inr ((char_eq (by decide)).mp isReset)) false r
        · rfl
      · unfold afterMarked
        split
        · exact ⟨_, fun _ => rfl⟩
        · exact ⟨_, fun _ => rfl⟩
        · exact ⟨_, fun _ => rfl⟩
        · exact ⟨id, fun r => (nothing r.keyboard).symm⟩
  | esc intermediates finalByte =>
    refine ⟨id, fun r => ?_⟩
    rw [nothing]
    unfold after afterEsc
    dsimp only
    split
    · rename_i isReset
      exact absurd ⟨rfl, (char_eq (by decide)).mp isReset⟩ none
    · rfl
    · rfl
    · rfl
  | osc data bel =>
    refine ⟨id, fun r => ?_⟩
    rw [nothing]
    unfold after afterOsc
    dsimp only
    split <;> rfl
  | print | execute | dcs | apc => exact ⟨id, fun r => (nothing r.keyboard).symm⟩

/-- The same stack in force before, the same after. -/
theorem after_active {a : Action} (none : ¬ a.Switches)
    (same : r.keyboard.active = r'.keyboard.active) :
    (r.after a).keyboard.active = (r'.after a).keyboard.active := by
  obtain ⟨f, does⟩ := after_keyboard a none
  rw [does r, does r', Keyboard.active_modify, Keyboard.active_modify, same]

theorem afterAll_active {actions : List Action} (none : ∀ a ∈ actions, ¬ a.Switches)
    (same : r.keyboard.active = r'.keyboard.active) :
    (r.afterAll actions).keyboard.active = (r'.afterAll actions).keyboard.active := by
  induction actions generalizing r r' with
  | nil => exact same
  | cons a rest ih =>
    exact ih (fun a' mem => none a' (List.mem_cons_of_mem _ mem))
      (after_active (none a List.mem_cons_self) same)

/-- Only sequences change keyboard stacks. -/
theorem afterAll_keyboard_quiet {actions : List Action} (none : Parser.NoSequence actions)
    (r : Registers) : (r.afterAll actions).keyboard = r.keyboard := by
  induction actions generalizing r with
  | nil => rfl
  | cons a rest ih =>
    have here : (r.after a).keyboard = r.keyboard := by
      cases a with
      | csi | esc => exact absurd trivial (none _ List.mem_cons_self)
      | osc data bel =>
        unfold after afterOsc
        dsimp only
        split <;> rfl
      | print | execute | dcs | apc => rfl
    exact (ih (fun a mem => none a (List.mem_cons_of_mem _ mem)) (r.after a)).trans here

end Registers

end Posh.Term

namespace Posh.Session

open Posh.Lib Posh.Term Posh.Term.Parser

namespace Broadcast

variable {s s' : Broadcast} {q₀ : Parser} {r₀ : Registers} {kept : List Action}

/-- A byte that completes a move to the other screen comes while the two screens'
keyboard stacks have the same entries. -/
def SameStacks (s : Broadcast) (b : UInt8) : Prop :=
  ∀ p params finalByte, s.term.parser.advance b = .ok (p, [.csi params [] 0x3F finalByte]) →
    (Action.csi params [] 0x3F finalByte).Switches → s.term.altActive ≠ (finalByte == 0x68) →
    s.term.kittyPrimary = s.term.kittyAlt

/-- The stack that a switch leaves in force is the one its substitute leaves. -/
theorem brought_active {b : UInt8} {a : Action} {p : Parser} {f : Registers → Registers}
    {r : Registers} (step : s.term.parser.advance b = .ok (p, [a]))
    (level : s.SameStacks b) (switches : a.Switches)
    (brought : Brought (Registers.switchOf a) (s.filter.held ++ [b]) f)
    (same : r.keyboard.active = s.term.registers.keyboard.active) :
    (f r).keyboard.active = (s.term.registers.after a).keyboard.active := by
  generalize kind : Registers.switchOf a = k at brought
  have alt_case (alt : Registers.switchOf a = .alt) (unchanged : (f r).keyboard = r.keyboard) :
      (f r).keyboard.active = (s.term.registers.after a).keyboard.active := by
    obtain ⟨params, finalByte, rfl, setting⟩ := csi_of_switches switches alt
    have moved : (s.term.registers.after (.csi params [] 0x3F finalByte)).keyboard =
        { s.term.registers.keyboard with altActive := finalByte == 0x68 } := by
      rcases setting with rfl | rfl
      · exact Registers.afterDecs_switched switches.2.2.2 true _
      · exact Registers.afterDecs_switched switches.2.2.2 false _
    have still : { s.term.registers.keyboard with altActive := finalByte == 0x68 }.active =
        s.term.registers.keyboard.active :=
      Keyboard.active_switched (level p params finalByte step switches)
    rw [unchanged, moved, still]
    exact same
  cases brought with
  | reset =>
    cases a with
    | esc intermediates finalByte =>
      obtain ⟨rfl, rfl⟩ := switches
      exact Keyboard.active_modify _ _
    | csi => cases kind
    | print | execute | osc | dcs | apc => exact absurd switches id
  | stripped plain some_ =>
    exact alt_case kind (Registers.afterDecs_keyboard (remaining_params plain.digits some_) _ r)
  | nothing => exact alt_case kind rfl

/-- The parser at `q₀` and the registers `r₀` have the broadcast ahead of them; after it
the stack in force is the session's. -/
def SharesStack (q₀ : Parser) (r₀ : Registers) (s : Broadcast) : Prop :=
  ∃ q sent kept, Parser.feed s.out q₀ = .ok (q, sent) ∧ InStep q s kept ∧
    (r₀.afterAll sent).keyboard.active = s.term.registers.keyboard.active

/-- Every byte of a chunk meets the condition where it is fed. -/
def AllSameStacks (files : Files) : Bytes → Broadcast → Prop
  | [], _ => True
  | b :: rest, s =>
    s.SameStacks b ∧ ∀ s', s.feedByte files b = .ok s' → AllSameStacks files rest s'

/-- The keyboard stack in force. -/
def keysInForce : Part where
  see r := r.keyboard.active
  other _ _ _ := rfl
  quiet none r := congrArg Keyboard.active (Registers.afterAll_keyboard_quiet none r)
  along none same := Registers.afterAll_active none same

theorem SameStacks.restored {b : UInt8} (h : s.SameStacks b) : s.Restored keysInForce b := by
  intro _ _ _ _ _ _ _ advanced switches brought same
  have active := brought_active advanced h switches brought same
  exact active

theorem SharesStack.feed {files : Files} {chunk : Bytes} (h : SharesStack q₀ r₀ s)
    (level : AllSameStacks files chunk s) (fed : s.feed files chunk = .ok s') :
    SharesStack q₀ r₀ s' := by
  have heads (b : UInt8) (rest : Bytes) (s : Broadcast) (all : AllSameStacks files (b :: rest) s) :
      s.Restored keysInForce b ∧ ∀ s', s.feedByte files b = .ok s' → AllSameStacks files rest s' :=
    ⟨all.1.restored, all.2⟩
  exact Sees.feed heads h level fed

end Broadcast

/-! ### Runs -/

namespace Mirror

variable {m m' : Mirror} {rows cols : Nat}

/-- Every switch in a read is between stacks with the same entries. -/
def Level (r : PtyRead) (m : Mirror) : Prop :=
  Broadcast.AllSameStacks r.files r.chunk m.broadcast

/-- The outer terminal has read the broadcast, and its stack is the one in force in the
session. -/
structure InForce (m : Mirror) : Prop where
  clean : m.outer.Clean
  step : ∃ kept, Broadcast.InStep m.outer.parser m.broadcast kept
  stack : m.outer.registers.keyboard.active = m.session.registers.keyboard.active

theorem play_inForce {r : PtyRead} {files : Files} (h : m.InForce) (level : Level r m)
    (played : m.play r files = .ok m') : m'.InForce := by
  obtain ⟨kept, step⟩ := h.step
  obtain ⟨clean, step', stack⟩ := play_sees (P := Broadcast.keysInForce) h.clean step h.stack
    (fun before => Broadcast.SharesStack.feed before level) played
  exact ⟨clean, step', stack⟩

/-- Where every switch is between stacks with the same entries the outer terminal's
keyboard flags are the session's. -/
theorem key_flags_follow (h : (mirroring rows cols Level).Reachable m) :
    m.outer.kittyFlags = m.session.kittyFlags := by
  have inForce : m.InForce := by
    refine h.induct (I := InForce) ?_ ?_
    · rintro m rfl
      exact ⟨Terminal.clean_new rows cols, ⟨[], settled_new, settled_new, ⟨{}, rfl, rfl⟩,
        noSequence_nil, Terminal.clean_new rows cols, rfl⟩, rfl⟩
    · rintro m m' - inForce ⟨r, files, level, played⟩
      exact play_inForce inForce level played
  exact congrArg KittyKeyStack.flags inForce.stack

/-- A switch to the alternate screen, then a push. -/
def switchThenPush : PtyRead where
  files := fun _ => none
  chunk := [0x1B, 0x5B, 0x3F, 0x34, 0x37, 0x68, 0x1B, 0x5B, 0x3E, 0x31, 0x75]

/-- A push, then a switch to the alternate screen. -/
def pushThenSwitch : PtyRead where
  files := fun _ => none
  chunk := [0x1B, 0x5B, 0x3E, 0x31, 0x75, 0x1B, 0x5B, 0x3F, 0x34, 0x37, 0x68]

theorem key_flags_follow_push : ∃ m : Mirror, m.session.altActive = true ∧
    m.session.kittyFlags = 1 ∧ m.outer.kittyFlags = m.session.kittyFlags := by
  have fed : ∃ m, play switchThenPush (fun _ => none)
      { session := .new 1 2, outer := .new 1 2 } = .ok m ∧
      m.session.altActive = true ∧ m.session.kittyFlags = 1 :=
    ⟨_, rfl, rfl, rfl⟩
  obtain ⟨m, played, alt, flags⟩ := fed
  have level : Level switchThenPush { session := .new 1 2, outer := .new 1 2 } := by
    unfold Level
    iterate 5
      refine ⟨fun p params finalByte step => (by cases step), ?_⟩
      rintro s ⟨⟩
    constructor
    · intro p params finalByte step switches moves
      rfl
    · rintro s ⟨⟩
      iterate 5
        refine ⟨fun p params finalByte step => (by cases step), ?_⟩
        rintro s ⟨⟩
      trivial
  have reachable : (mirroring 1 2 Level).Reachable m :=
    .tail (.of_init rfl) ⟨switchThenPush, fun _ => none, level, played⟩
  exact ⟨m, alt, flags, key_flags_follow reachable⟩

/-- Flags pushed on the one screen stay with the outer terminal on the other. -/
theorem key_flags_lost : ¬ ∀ (rows cols : Nat) (m : Mirror),
    (mirroring rows cols fun _ _ => True).Reachable m → Ready m.session.parser →
    m.filter.held = [] → m.outer.kittyFlags = m.session.kittyFlags := by
  intro all
  have fed : ∃ m, play pushThenSwitch (fun _ => none)
      { session := .new 1 2, outer := .new 1 2 } = .ok m ∧ m.session.parser.state = .ground ∧
      m.session.parser.utf8Need = 0 ∧ m.filter.held = [] ∧
      m.session.kittyFlags = 0 ∧ m.outer.kittyFlags = 1 :=
    ⟨_, rfl, rfl, rfl, rfl, rfl, rfl⟩
  obtain ⟨m, played, ground, whole, empty, session, outer⟩ := fed
  have same := all 1 2 m (.tail (.of_init rfl) ⟨pushThenSwitch, fun _ => none, trivial, played⟩)
    ⟨ground, whole⟩ empty
  rw [session, outer] at same
  cases same

end Mirror

end Posh.Session
