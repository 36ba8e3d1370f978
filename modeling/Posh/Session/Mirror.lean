import Posh.Lib.Transition
import Posh.Session.Containment

/-!
The outer terminal's modes beside the session's.

Between switches both read the same sequences. A reset is replaced by the modes it
brings, and a plain DECSET or DECRST by the same one without its screen modes; any other
sequence that switches screens is dropped whole, and what it set beside the screen with
it, as far as the repaint does not set it again.
-/

namespace Posh.Term

open Posh.Lib

namespace Modes

/-- The modes an attached terminal has to share: all but origin mode, the cursor's blink
and column mode. -/
def shared (m : Modes) : Modes :=
  { m with
    origin := false, cursorBlink := false, deccolm := false, allowDeccolm := false
    noClearOnDeccolm := false }

/-- The shared modes that no repaint sets. -/
def carried (m : Modes) : Modes :=
  { m.shared with insert := true, autowrap := true, cursorVisible := true }

theorem shared_afterDec (n : Nat) (set : Bool) (m : Modes) :
    (m.afterDec n set).shared = (m.shared.afterDec n set).shared := by
  unfold afterDec
  split
  all_goals first
    | rfl
    | (split <;> rfl)

theorem shared_afterAnsi (n : Nat) (set : Bool) (m : Modes) :
    (m.afterAnsi n set).shared = (m.shared.afterAnsi n set).shared := by
  unfold afterAnsi
  split <;> rfl

/-- DECSET and DECRST of several modes. -/
def afterDecs (params : Params) (set : Bool) (m : Modes) : Modes :=
  params.foldl (fun m p => m.afterDec (firstPart p) set) m

theorem shared_congr {f : Modes → Modes} (h : ∀ m, (f m).shared = (f m.shared).shared)
    {m m' : Modes} (same : m.shared = m'.shared) : (f m).shared = (f m').shared := by
  rw [h m, h m', same]

theorem shared_afterDecs (params : Params) (set : Bool) {m m' : Modes}
    (same : m.shared = m'.shared) :
    (m.afterDecs params set).shared = (m'.afterDecs params set).shared := by
  induction params generalizing m m' with
  | nil => exact same
  | cons p rest ih => exact ih (shared_congr (shared_afterDec (firstPart p) set) same)

theorem shared_afterAnsis (params : Params) (set : Bool) {m m' : Modes}
    (same : m.shared = m'.shared) :
    (params.foldl (fun m p => m.afterAnsi (firstPart p) set) m).shared =
      (params.foldl (fun m p => m.afterAnsi (firstPart p) set) m').shared := by
  induction params generalizing m m' with
  | nil => exact same
  | cons p rest ih => exact ih (shared_congr (shared_afterAnsi (firstPart p) set) same)

/-- A screen mode is no other mode. -/
theorem afterDec_screen {n : Nat} (screen : IsScreenMode n) (set : Bool) (m : Modes) :
    m.afterDec n set = m := by
  rcases screen with rfl | rfl | rfl <;> rfl

/-- What the repaint sets it sets as it is in the session. -/
theorem shared_withDrawing {m m' : Modes} (same : m.carried = m'.carried) :
    { m with insert := m'.insert, autowrap := m'.autowrap
             cursorVisible := m'.cursorVisible }.shared = m'.shared := by
  have fields := same
  unfold carried shared at fields
  simp only [Modes.mk.injEq] at fields
  unfold shared
  simp only [Modes.mk.injEq]
  tauto

theorem carried_of_shared {m m' : Modes} (same : m.shared = m'.shared) :
    m.carried = m'.carried := by
  unfold carried
  rw [same]

end Modes

namespace Registers

variable {r r' : Registers}

theorem afterDecs_modes (params : Params) (set : Bool) (r : Registers) :
    (r.afterDecs params set).modes = r.modes.afterDecs params set := by
  induction params generalizing r with
  | nil => rfl
  | cons p rest ih => exact ih (r.afterDec (firstPart p) set)

/-- Only sequences change modes. -/
theorem after_quiet {a : Action} (none : ¬ a.IsSequence) (r : Registers) :
    (r.after a).modes = r.modes := by
  cases a with
  | csi | esc => exact absurd trivial none
  | osc data bel =>
    unfold after afterOsc
    dsimp only
    split <;> rfl
  | print | execute | dcs | apc => rfl

/-- An action does the same to the shared modes wherever they are the same. -/
theorem after_shared (a : Action) (same : r.modes.shared = r'.modes.shared) :
    (r.after a).modes.shared = (r'.after a).modes.shared := by
  have update (f : Modes → Modes) (h : ∀ m, (f m).shared = (f m.shared).shared) :
      (f r.modes).shared = (f r'.modes).shared := Modes.shared_congr h same
  cases a with
  | csi params intermediates marker finalByte =>
    unfold after afterCsi
    dsimp only
    split
    · split
      · unfold afterPlain
        split
        · exact Modes.shared_afterAnsis params true same
        · exact Modes.shared_afterAnsis params false same
        · exact same
      · unfold afterQuestion
        split
        · rw [afterDecs_modes, afterDecs_modes]
          exact Modes.shared_afterDecs params true same
        · rw [afterDecs_modes, afterDecs_modes]
          exact Modes.shared_afterDecs params false same
        · exact same
      · unfold afterMarked
        split <;> exact same
    · split
      · unfold afterWith
        split
        · exact update Modes.afterSoftReset fun _ => rfl
        · exact same
      · exact same
  | esc intermediates finalByte =>
    unfold after afterEsc
    dsimp only
    split
    · rfl
    · exact update (fun m => { m with keypadApp := true }) fun _ => rfl
    · exact update (fun m => { m with keypadApp := false }) fun _ => rfl
    · exact same
  | print | execute | osc | dcs | apc =>
    rw [after_quiet id, after_quiet id]
    exact same

theorem afterAll_shared (actions : List Action) (same : r.modes.shared = r'.modes.shared) :
    (r.afterAll actions).modes.shared = (r'.afterAll actions).modes.shared := by
  induction actions generalizing r r' with
  | nil => exact same
  | cons a rest ih => exact ih (after_shared a same)

theorem afterAll_quiet {actions : List Action} (none : Parser.NoSequence actions) (r : Registers) :
    (r.afterAll actions).modes = r.modes := by
  induction actions generalizing r with
  | nil => rfl
  | cons a rest ih =>
    exact (ih (fun a mem => none a (List.mem_cons_of_mem _ mem)) (r.after a)).trans
      (after_quiet (none a List.mem_cons_self) r)

end Registers

end Posh.Term

namespace Posh.Session

open Posh.Lib Posh.Term Posh.Term.Parser

/-! ### Numbers -/

/-- Numbers that are screen modes change no other mode. -/
theorem afterDecs_remaining (parts : List Bytes) (set : Bool) (m : Modes) :
    m.afterDecs ((remaining parts).map fun d => [clamped d]) set =
      m.afterDecs (parts.map fun d => [clamped d]) set := by
  induction parts generalizing m with
  | nil => rfl
  | cons part rest ih =>
    have step (m : Modes) (d : Bytes) (ds : List Bytes) :
        m.afterDecs ((d :: ds).map fun d => [clamped d]) set =
          (m.afterDec (clamped d) set).afterDecs (ds.map fun d => [clamped d]) set := rfl
    rw [step]
    by_cases screen : IsScreenMode (clamped part)
    · have skipped : remaining (part :: rest) = remaining rest :=
        List.filter_cons_of_neg (by simpa using screen)
      rw [skipped, Modes.afterDec_screen screen, ih]
    · have stays : remaining (part :: rest) = part :: remaining rest :=
        List.filter_cons_of_pos (by simpa using screen)
      rw [stays, step, ih]

/-- Few numbers are all parameters. -/
theorem afterDecs_numbers {parts : List Bytes}
    (digits : ∀ d ∈ parts, ∀ b ∈ d, isAsciiDigit b = true) (few : parts.length ≤ MAX_PARAMS) (set : Bool) (m : Modes) :
    m.afterDecs (paramsOf ([0x3B].intercalate parts)) set =
      m.afterDecs (parts.map fun d => [clamped d]) set := by
  cases parts with
  | nil => rfl
  | cons first rest =>
    by_cases empty : first :: rest = [[]]
    · rw [empty]
      rfl
    · rw [paramsOf_numbers digits empty, List.take_of_length_le (by simpa using few)]

/-! ### One step -/

theorem Plain.unique {seq : Bytes} {parts parts' : List Bytes} {x y : UInt8} (h : Plain seq parts x)
    (h' : Plain seq parts' y) : parts = parts' ∧ x = y := by
  have numbers {parts : List Bytes} {z : UInt8} (h : Plain seq parts z) :
      ([0x3B].intercalate parts).splitOn (0x3B : UInt8) = parts := by
    refine List.splitOn_intercalate _ ?_ h.some_
    intro d mem semicolon
    exact absurd (h.digits d mem _ semicolon) (by decide)
  have both := List.append_cancel_left (h.spelled.symm.trans h'.spelled)
  have bodies := List.append_inj' both rfl
  refine ⟨?_, List.singleton_inj.mp bodies.2⟩
  rw [← numbers h, ← numbers h', bodies.1]

/-- A part of the registers that quiet actions leave, and that what switches no screens
carries along wherever it is the same. -/
structure Part where
  {Seen : Type}
  see : Registers → Seen
  other : ∀ r parser screenSwitch, see { r with parser, screenSwitch } = see r
  quiet : ∀ {actions}, NoSequence actions → ∀ r, see (r.afterAll actions) = see r
  along : ∀ {actions r r'}, (∀ a ∈ actions, ¬ a.Switches) → see r = see r' →
    see (r.afterAll actions) = see (r'.afterAll actions)

namespace Broadcast

variable {s s' : Broadcast} {q₀ : Parser} {r₀ : Registers} {kept : List Action}

/-- What a DECSET or DECRST that switches screens sets beside them can be restored: it
is plain, with no more numbers than the parser takes, or what it sets the repaint sets
too or is set already. -/
def Restorable (s : Broadcast) (b : UInt8) : Prop :=
  ∀ p params finalByte, s.term.parser.advance b = .ok (p, [.csi params [] 0x3F finalByte]) →
    (Action.csi params [] 0x3F finalByte).Switches →
    (∃ parts, Plain (s.filter.held ++ [b]) parts finalByte ∧ parts.length ≤ MAX_PARAMS) ∨
      (∀ parts, ¬ Plain (s.filter.held ++ [b]) parts finalByte) ∧
        (s.term.modes.afterDecs params (finalByte == 0x68)).carried = s.term.modes.carried

/-- The parser takes from a plain sequence the numbers in it. -/
theorem params_of_plain {b : UInt8} {p : Parser} {params : Params} {finalByte x : UInt8}
    {parts : List Bytes} (h : InStep q₀ s kept)
    (step : s.term.parser.advance b = .ok (p, [.csi params [] 0x3F x]))
    (plain : Plain (s.filter.held ++ [b]) parts finalByte) :
    params = paramsOf ([0x3B].intercalate parts) ∧ x = finalByte := by
  obtain ⟨q₁, held, same⟩ := h.held
  obtain ⟨q₂, step', -⟩ := advance_of_view same.symm step
  have whole := feed_append held (feed_one step')
  have reads := reads_stripped plain.digits plain.finalByte
  rw [List.append_assoc, ← plain.spelled] at reads
  have spelled := plain.spelled
  obtain ⟨rest, escapes⟩ : ∃ rest, s.filter.held ++ [b] = 0x1B :: rest := ⟨_, spelled⟩
  rw [escapes] at reads whole
  obtain ⟨early, q, -, -, fed⟩ := reads.anywhere h.settled
  rw [whole] at fed
  have actions := congrArg Prod.snd (Except.ok.inj fed)
  have last := List.append_inj' actions rfl
  have action := List.singleton_inj.mp last.2
  cases action
  exact ⟨rfl, rfl⟩

/-- A switch that is no reset is a DECSET or DECRST. -/
theorem csi_of_switches {a : Action} (switches : a.Switches)
    (alt : Registers.switchOf a = .alt) :
    ∃ params finalByte, a = .csi params [] 0x3F finalByte ∧
      (finalByte = 0x68 ∨ finalByte = 0x6C) := by
  cases a with
  | csi params intermediates marker finalByte =>
    obtain ⟨rfl, rfl, setting, -⟩ := switches
    exact ⟨params, finalByte, rfl, setting⟩
  | esc => cases alt
  | print | execute | osc | dcs | apc => exact absurd switches id

theorem after_setting {params : Params} {finalByte : UInt8}
    (setting : finalByte = 0x68 ∨ finalByte = 0x6C) (r : Registers) :
    (r.after (.csi params [] 0x3F finalByte)).modes =
      r.modes.afterDecs params (finalByte == 0x68) := by
  rcases setting with rfl | rfl
  · exact Registers.afterDecs_modes params true r
  · exact Registers.afterDecs_modes params false r

/-- Where the condition holds, what the substitute does not restore is as it was. -/
theorem brought_carried {b : UInt8} {a : Action} {p : Parser} {f : Registers → Registers}
    {r : Registers} (h : InStep q₀ s kept) (step : s.term.parser.advance b = .ok (p, [a]))
    (restorable : s.Restorable b) (switches : a.Switches)
    (brought : Brought (Registers.switchOf a) (s.filter.held ++ [b]) f)
    (same : r.modes.shared = s.term.registers.modes.shared) :
    (f r).modes.carried = (s.term.registers.after a).modes.carried := by
  generalize kind : Registers.switchOf a = k at brought
  cases brought with
  | reset =>
    cases a with
    | esc intermediates finalByte =>
      obtain ⟨rfl, rfl⟩ := switches
      rfl
    | csi => cases kind
    | print | execute | osc | dcs | apc => exact absurd switches id
  | @stripped _ parts x plain some_ =>
    obtain ⟨params, finalByte, rfl, setting⟩ := csi_of_switches switches kind
    obtain ⟨rfl, rfl⟩ := params_of_plain h step plain
    obtain ⟨parts', plain', few⟩ | ⟨other, -⟩ := restorable p _ finalByte step switches
    · obtain ⟨rfl, -⟩ := plain.unique plain'
      have kept_digits : ∀ d ∈ remaining parts, ∀ b ∈ d, isAsciiDigit b = true :=
        fun d mem => plain.digits d (mem_remaining.mp mem).1
      have fewer : (remaining parts).length ≤ MAX_PARAMS :=
        Nat.le_trans (List.length_filter_le _ _) few
      apply Modes.carried_of_shared
      rw [Registers.afterDecs_modes, after_setting setting, afterDecs_numbers kept_digits fewer,
        afterDecs_remaining, afterDecs_numbers plain.digits few]
      exact Modes.shared_afterDecs _ _ same
    · exact absurd plain (other parts)
  | nothing none =>
    obtain ⟨params, finalByte, rfl, setting⟩ := csi_of_switches switches kind
    have before : r.modes.carried = s.term.registers.modes.carried := Modes.carried_of_shared same
    rw [after_setting setting, id, before]
    obtain ⟨parts, plain, few⟩ | ⟨-, still⟩ := restorable p params finalByte step switches
    · obtain ⟨rfl, -⟩ := params_of_plain h step plain
      have nothing : remaining parts = [] := by
        have stripped := plain.strip
        rw [none] at stripped
        unfold remainder at stripped
        split at stripped
        · assumption
        · cases stripped
      rw [afterDecs_numbers plain.digits few, ← afterDecs_remaining, nothing]
      rfl
    · have unchanged := Modes.shared_afterDecs params (finalByte == 0x68)
        (show s.term.registers.modes.shared = s.term.modes.shared from rfl)
      rw [Modes.carried_of_shared unchanged, still]
      rfl

/-- The parser at `q₀` and the registers `r₀` have the broadcast ahead of them; after it
the part that `P` sees is the session's. -/
def Sees (P : Part) (q₀ : Parser) (r₀ : Registers) (s : Broadcast) : Prop :=
  ∃ q sent kept, Parser.feed s.out q₀ = .ok (q, sent) ∧ InStep q s kept ∧
    P.see (r₀.afterAll sent) = P.see s.term.registers

/-- The substitute of a switch that `b` completes restores the part that `P` sees. -/
def Restored (P : Part) (s : Broadcast) (b : UInt8) : Prop :=
  ∀ {q kept p a f r}, InStep q s kept → s.term.parser.advance b = .ok (p, [a]) → a.Switches →
    Brought (Registers.switchOf a) (s.filter.held ++ [b]) f → P.see r = P.see s.term.registers →
    P.see ((f r).withDrawing (s.term.registers.after a).modes.insert
      (s.term.registers.after a).modes.autowrap (s.term.registers.after a).modes.cursorVisible) =
    P.see (s.term.registers.after a)

variable {P : Part}

theorem Sees.passes {bytes : Bytes} {actions sent : List Action} {q : Parser}
    (fed : Parser.feed s.out q₀ = .ok (q, sent)) (h : InStep q s kept)
    (same : P.see (r₀.afterAll sent) = P.see s.term.registers)
    (reading : Reading s bytes s' actions) (passes : Passes q s kept bytes s' actions) :
    Sees P q₀ r₀ s' := by
  obtain ⟨stays, appended, q', before, later, out, -, fed', step, all⟩ := passes
  refine ⟨q', sent ++ before, later, ?_, step, ?_⟩
  · rw [out]
    exact feed_append fed fed'
  · have unheld : P.see ((r₀.afterAll sent).afterAll (before ++ later)) =
        P.see (r₀.afterAll (sent ++ before)) := by
      rw [Registers.afterAll_append, P.quiet step.keeps, Registers.afterAll_append]
    have held : P.see ((r₀.afterAll sent).afterAll kept) = P.see s.term.registers := by
      rw [P.quiet h.keeps]
      exact same
    rw [← unheld, all, Registers.afterAll_append, reading.registers]
    exact (P.along stays held).trans (P.other _ _ _).symm

theorem Sees.feedByte {files : Files} {b : UInt8} (h : Sees P q₀ r₀ s) (restored : s.Restored P b)
    (fed : s.feedByte files b = .ok s') : Sees P q₀ r₀ s' := by
  obtain ⟨q, sent, kept, read, step, same⟩ := h
  obtain ⟨actions, reading, passes | ⟨a, rfl, replaces⟩⟩ := feedByte_steps step fed
  · exact .passes read step same reading passes
  · obtain ⟨switches, -, appended, q', early, after, f, out, fed', quiet, step', -, brought, does⟩ :=
      replaces
    refine ⟨q', sent ++ (early ++ after), [], ?_, step', ?_⟩
    · rw [out]
      exact feed_append read fed'
    · have unheld : P.see ((r₀.afterAll sent).afterAll early) = P.see s.term.registers := by
        rw [P.quiet quiet]
        exact same
      have session : s'.term.registers.modes = (s.term.registers.after a).modes := by
        rw [reading.registers]
        rfl
      have back := restored step (step_of_feed reading.fed) switches brought unheld
      rw [← session] at back
      rw [Registers.afterAll_append, Registers.afterAll_append, does, reading.registers]
      exact back.trans (P.other _ _ _).symm

section

variable {files : Files} {chunk : Bytes} {All : Bytes → Broadcast → Prop}
  (heads : ∀ b rest s, All (b :: rest) s → s.Restored P b ∧
    ∀ s', s.feedByte files b = .ok s' → All rest s')

include heads

theorem Sees.feedBytes (h : Sees P q₀ r₀ s) (all : All chunk s)
    (fed : forEach chunk s (fun b s => s.feedByte files b) = .ok s') : Sees P q₀ r₀ s' := by
  induction chunk generalizing s with
  | nil =>
    cases fed
    exact h
  | cons b rest ih =>
    obtain ⟨here, later⟩ := heads b rest s all
    obtain ⟨s₁, first, fed⟩ := eq_ok_of_bind fed
    exact ih (h.feedByte here first) (later s₁ first) fed

/-- A chunk whose every byte meets a condition where it is fed. -/
theorem Sees.feed (h : Sees P q₀ r₀ s) (all : All chunk s) (fed : s.feed files chunk = .ok s') :
    Sees P q₀ r₀ s' := by
  obtain ⟨q, sent, kept, read, step, same⟩ := h
  rcases feed_cases step fed with ⟨actions, reading, passes⟩ | fed
  · exact .passes read step same reading passes
  · exact Sees.feedBytes heads ⟨q, sent, kept, read, step, same⟩ all fed

end

/-- The parser at `q₀` and the registers `r₀` have the broadcast ahead of them; after it
the shared modes are the session's. -/
def Alongside (q₀ : Parser) (r₀ : Registers) (s : Broadcast) : Prop :=
  ∃ q sent kept, Parser.feed s.out q₀ = .ok (q, sent) ∧ InStep q s kept ∧
    (r₀.afterAll sent).modes.shared = s.term.registers.modes.shared

/-- Every byte of a chunk meets the condition where it is fed. -/
def AllRestorable (files : Files) : Bytes → Broadcast → Prop
  | [], _ => True
  | b :: rest, s =>
    s.Restorable b ∧ ∀ s', s.feedByte files b = .ok s' → AllRestorable files rest s'

/-- The modes an attached terminal has to share. -/
def sharedModes : Part where
  see r := r.modes.shared
  other _ _ _ := rfl
  quiet none r := congrArg Modes.shared (Registers.afterAll_quiet none r)
  along _ same := Registers.afterAll_shared _ same

theorem Restorable.restored {b : UInt8} (h : s.Restorable b) : s.Restored sharedModes b :=
  fun step advanced switches brought same =>
    Modes.shared_withDrawing (brought_carried step advanced h switches brought same)

theorem Alongside.feed {files : Files} {chunk : Bytes} (h : Alongside q₀ r₀ s)
    (restorable : AllRestorable files chunk s) (fed : s.feed files chunk = .ok s') :
    Alongside q₀ r₀ s' := by
  have heads (b : UInt8) (rest : Bytes) (s : Broadcast) (all : AllRestorable files (b :: rest) s) :
      s.Restored sharedModes b ∧ ∀ s', s.feedByte files b = .ok s' → AllRestorable files rest s' :=
    ⟨all.1.restored, all.2⟩
  exact Sees.feed heads h restorable fed

end Broadcast

/-! ### Runs -/

/-- A session and the terminal its broadcast is mirrored to. -/
structure Mirror where
  filter : ScreenSwitchFilter := {}
  session : Terminal
  outer : Terminal

namespace Mirror

variable {m m' : Mirror} {rows cols : Nat}

/-- The broadcast that a read starts from. -/
def broadcast (m : Mirror) : Broadcast :=
  { filter := m.filter, term := m.session }

/-- One read: the filter feeds the session, and the outer terminal processes what is
broadcast. -/
def play (r : PtyRead) (files : Files) (m : Mirror) : Checked Mirror := do
  let s ← m.broadcast.feed r.files r.chunk
  let outer ← m.outer.process files s.out
  return { filter := s.filter, session := s.term, outer }

/-- Reads one after another from fresh terminals of one size, each as `Meets` demands. -/
def mirroring (rows cols : Nat) (Meets : PtyRead → Mirror → Prop) : Transition Mirror where
  init m := m = { session := .new rows cols, outer := .new rows cols }
  step m m' := ∃ r files, Meets r m ∧ m.play r files = .ok m'

/-- Every switch in a read can be restored. -/
def Restores (r : PtyRead) (m : Mirror) : Prop :=
  Broadcast.AllRestorable r.files r.chunk m.broadcast

/-- The outer terminal has read the broadcast, and shares the session's modes. -/
structure Shares (m : Mirror) : Prop where
  clean : m.outer.Clean
  step : ∃ kept, Broadcast.InStep m.outer.parser m.broadcast kept
  modes : m.outer.modes.shared = m.session.modes.shared

/-- A read goes on from what the outer terminal has read, and from a part it shares. -/
theorem play_sees {r : PtyRead} {files : Files} {P : Part} {kept : List Action}
    (clean : m.outer.Clean) (step : Broadcast.InStep m.outer.parser m.broadcast kept)
    (same : P.see m.outer.registers = P.see m.session.registers)
    (feeds : ∀ {q₀ r₀ s}, Broadcast.Sees P q₀ r₀ m.broadcast →
      m.broadcast.feed r.files r.chunk = .ok s → Broadcast.Sees P q₀ r₀ s)
    (played : m.play r files = .ok m') :
    m'.outer.Clean ∧ (∃ kept, Broadcast.InStep m'.outer.parser m'.broadcast kept) ∧
      P.see m'.outer.registers = P.see m'.session.registers := by
  obtain ⟨s, fed, played⟩ := eq_ok_of_bind played
  obtain ⟨outer, processed, played⟩ := eq_ok_of_bind played
  cases played
  obtain ⟨q, sent, kept', read, step', same'⟩ :=
    feeds ⟨m.outer.parser, [], kept, rfl, step, same⟩ fed
  obtain ⟨registers, clean'⟩ := (Terminal.process_does files read clean).of_eq_ok processed
  have parser : outer.parser = q := congrArg Registers.parser registers
  refine ⟨clean', ⟨kept', ?_⟩, ?_⟩
  · rw [parser]
    exact ⟨step'.settled, step'.session, step'.held, step'.keeps, step'.clean, step'.unmarked⟩
  · dsimp only
    rw [registers]
    exact (P.other _ _ _).trans same'

theorem play_shares {r : PtyRead} {files : Files} (h : m.Shares) (restores : Restores r m)
    (played : m.play r files = .ok m') : m'.Shares := by
  obtain ⟨kept, step⟩ := h.step
  obtain ⟨clean, step', modes⟩ := play_sees (P := Broadcast.sharedModes) h.clean step h.modes
    (fun before => Broadcast.Alongside.feed before restores) played
  exact ⟨clean, step', modes⟩

/-- Where every switch can be restored the outer terminal shares the session's modes. -/
theorem modes_survive (h : (mirroring rows cols Restores).Reachable m) :
    m.outer.modes.shared = m.session.modes.shared := by
  have shares : m.Shares := by
    refine h.induct (I := Shares) ?_ ?_
    · rintro m rfl
      exact ⟨Terminal.clean_new rows cols, ⟨[], settled_new, settled_new, ⟨{}, rfl, rfl⟩,
        noSequence_nil, Terminal.clean_new rows cols, rfl⟩, rfl⟩
    · rintro m m' - shares ⟨r, files, restores, played⟩
      exact play_shares shares restores played
  exact shares.modes

/-- A DECSET of 47 and bracketed paste. -/
def plainSwitch : PtyRead where
  files := fun _ => none
  chunk := [0x1B, 0x5B, 0x3F, 0x34, 0x37, 0x3B, 0x32, 0x30, 0x30, 0x34, 0x68]

/-- The same sequence after the eight-bit CSI. -/
def eightBitSwitch : PtyRead where
  files := fun _ => none
  chunk := [0x9B, 0x3F, 0x34, 0x37, 0x3B, 0x32, 0x30, 0x30, 0x34, 0x68]

theorem modes_survive_plain : ∃ m : Mirror, m.session.modes.bracketedPaste = true ∧
    m.outer.modes.shared = m.session.modes.shared := by
  have fed : ∃ m, play plainSwitch (fun _ => none)
      { session := .new 1 2, outer := .new 1 2 } = .ok m ∧
      m.session.modes.bracketedPaste = true :=
    ⟨_, rfl, rfl⟩
  obtain ⟨m, played, paste⟩ := fed
  have restores : Restores plainSwitch { session := .new 1 2, outer := .new 1 2 } := by
    unfold Restores
    iterate 10
      refine ⟨fun p params finalByte step => (by cases step), ?_⟩
      rintro s ⟨⟩
    constructor
    · intro p params finalByte step switches
      cases step
      left
      have digits : ∀ d ∈ ([[0x34, 0x37], [0x32, 0x30, 0x30, 0x34]] : List Bytes),
          ∀ b ∈ d, isAsciiDigit b = true := by
        simp only [List.mem_cons, List.not_mem_nil, or_false, forall_eq_or_imp, forall_eq]
        exact ⟨⟨rfl, rfl⟩, rfl, rfl, rfl, rfl⟩
      exact ⟨_, ⟨rfl, digits, List.cons_ne_nil _ _, .inl rfl⟩, Nat.le_of_ble_eq_true rfl⟩
    · exact fun _ _ => trivial
  have reachable : (mirroring 1 2 Restores).Reachable m :=
    .tail (.of_init rfl) ⟨plainSwitch, fun _ => none, restores, played⟩
  exact ⟨m, paste, modes_survive reachable⟩

/-- A mode set beside the screen mode is lost when the sequence is not plain. -/
theorem modes_lost : ¬ ∀ (rows cols : Nat) (m : Mirror),
    (mirroring rows cols fun _ _ => True).Reachable m → Ready m.session.parser →
    m.filter.held = [] → m.outer.modes.shared = m.session.modes.shared := by
  intro all
  have fed : ∃ m, play eightBitSwitch (fun _ => none)
      { session := .new 1 2, outer := .new 1 2 } = .ok m ∧ m.session.parser.state = .ground ∧
      m.session.parser.utf8Need = 0 ∧ m.filter.held = [] ∧
      m.session.modes.bracketedPaste = true ∧ m.outer.modes.bracketedPaste = false :=
    ⟨_, rfl, rfl, rfl, rfl, rfl, rfl⟩
  obtain ⟨m, played, ground, whole, empty, set, unset⟩ := fed
  have same := all 1 2 m (.tail (.of_init rfl) ⟨eightBitSwitch, fun _ => none, trivial, played⟩)
    ⟨ground, whole⟩ empty
  have paste := congrArg (fun modes : Modes => modes.bracketedPaste) same
  change m.outer.modes.bracketedPaste = m.session.modes.bracketedPaste at paste
  rw [set, unset] at paste
  cases paste

end Mirror

end Posh.Session
