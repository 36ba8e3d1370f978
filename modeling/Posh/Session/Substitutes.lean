import Posh.Session.Stripping
import Posh.Term.Switches

/-!
The substitutes for screen switches.

Each begins with ESC, is read to its end and switches no screens itself. The one for
RIS brings the modes a reset brings, but for autowrap, which the repaint sets; the
one for a DECSET or DECRST sets the modes that were set beside the screen modes.
-/

namespace Posh.Session

open Posh.Lib Posh.Term Posh.Term.Parser

/-! ### The reset -/

/-- The modes that the substitute for RIS sets, and the keyboard flags it resets; the
repaint after it sets autowrap. -/
def afterRisSubstitute (r : Registers) : Registers :=
  { r with
    keyboard := r.keyboard.modify (·.reset)
    modes := {
      autowrap := false
      origin := r.modes.origin
      deccolm := r.modes.deccolm
      allowDeccolm := r.modes.allowDeccolm
      noClearOnDeccolm := r.modes.noClearOnDeccolm } }

/-- One sequence of the substitute, then the rest of it. -/
theorem writes_sequence {text : String} {rest : List String} {f g : Registers → Registers}
    (first : Writes text.toList f) (later : Writes (rest.flatMap String.toList) g) :
    Writes ((text :: rest).flatMap String.toList) (g ∘ f) := by
  rw [List.flatMap_cons]
  exact first.append later

theorem writes_colors : Writes
    (["\x1b]104\x07", "\x1b]110\x07", "\x1b]111\x07", "\x1b]112\x07"].flatMap String.toList) id :=
  writes_literal rfl ⟨rfl, rfl⟩ fun _ => rfl

theorem writes_keyboard : Writes
    (["\x1b[?2026l", "\x1b>", "\x1b[20l", "\x1b[4l", "\x1b]104\x07", "\x1b]110\x07", "\x1b]111\x07",
      "\x1b]112\x07"].flatMap String.toList)
    fun r => { r with modes := { r.modes with
      synchronized := false, keypadApp := false, lnm := false, insert := false } } := by
  have synchronized : Writes "\x1b[?2026l".toList fun r => { r with modes.synchronized := false } :=
    writes_literal rfl ⟨rfl, rfl⟩ fun _ => rfl
  have keypad : Writes "\x1b>".toList fun r => { r with modes.keypadApp := false } :=
    writes_literal rfl ⟨rfl, rfl⟩ fun _ => rfl
  have lnm : Writes "\x1b[20l".toList fun r => { r with modes.lnm := false } :=
    writes_literal rfl ⟨rfl, rfl⟩ fun _ => rfl
  have insert : Writes "\x1b[4l".toList fun r => { r with modes.insert := false } :=
    writes_literal rfl ⟨rfl, rfl⟩ fun _ => rfl
  refine Writes.of_eq (writes_sequence synchronized (writes_sequence keypad (writes_sequence lnm
    (writes_sequence insert writes_colors)))) ?_
  exact fun _ => rfl

/-- The rest of the substitute from the cursor keys on. -/
theorem writes_display : Writes
    (["\x1b[?25h", "\x1b[?1l", "\x1b[?5l", "\x1b[?8h", "\x1b[?2026l", "\x1b>", "\x1b[20l", "\x1b[4l",
      "\x1b]104\x07", "\x1b]110\x07", "\x1b]111\x07", "\x1b]112\x07"].flatMap String.toList)
    fun r => { r with modes := { r.modes with
      cursorVisible := true, cursorKeys := false, reverseVideo := false, autorepeat := true
      synchronized := false, keypadApp := false, lnm := false, insert := false } } := by
  have visible : Writes "\x1b[?25h".toList fun r => { r with modes.cursorVisible := true } :=
    writes_literal rfl ⟨rfl, rfl⟩ fun _ => rfl
  have keys : Writes "\x1b[?1l".toList fun r => { r with modes.cursorKeys := false } :=
    writes_literal rfl ⟨rfl, rfl⟩ fun _ => rfl
  have reverse : Writes "\x1b[?5l".toList fun r => { r with modes.reverseVideo := false } :=
    writes_literal rfl ⟨rfl, rfl⟩ fun _ => rfl
  have repeats : Writes "\x1b[?8h".toList fun r => { r with modes.autorepeat := true } :=
    writes_literal rfl ⟨rfl, rfl⟩ fun _ => rfl
  refine Writes.of_eq (writes_sequence visible (writes_sequence keys (writes_sequence reverse
    (writes_sequence repeats writes_keyboard)))) ?_
  exact fun _ => rfl

/-- The rest of it from bracketed paste on. -/
theorem writes_reports : Writes
    (["\x1b[?2004l", "\x1b[?1004l", "\x1b[?1007l", "\x1b[?12l", "\x1b[?25h", "\x1b[?1l", "\x1b[?5l",
      "\x1b[?8h", "\x1b[?2026l", "\x1b>", "\x1b[20l", "\x1b[4l", "\x1b]104\x07", "\x1b]110\x07",
      "\x1b]111\x07", "\x1b]112\x07"].flatMap String.toList)
    fun r => { r with modes := { r.modes with
      bracketedPaste := false, focusReporting := false, alternateScroll := false, cursorBlink := false
      cursorVisible := true, cursorKeys := false, reverseVideo := false, autorepeat := true
      synchronized := false, keypadApp := false, lnm := false, insert := false } } := by
  have paste : Writes "\x1b[?2004l".toList fun r => { r with modes.bracketedPaste := false } :=
    writes_literal rfl ⟨rfl, rfl⟩ fun _ => rfl
  have focus : Writes "\x1b[?1004l".toList fun r => { r with modes.focusReporting := false } :=
    writes_literal rfl ⟨rfl, rfl⟩ fun _ => rfl
  have scroll : Writes "\x1b[?1007l".toList fun r => { r with modes.alternateScroll := false } :=
    writes_literal rfl ⟨rfl, rfl⟩ fun _ => rfl
  have blink : Writes "\x1b[?12l".toList fun r => { r with modes.cursorBlink := false } :=
    writes_literal rfl ⟨rfl, rfl⟩ fun _ => rfl
  refine Writes.of_eq (writes_sequence paste (writes_sequence focus (writes_sequence scroll
    (writes_sequence blink writes_display)))) ?_
  exact fun _ => rfl

/-- The mouse goes off first, however it was on. -/
theorem writes_mouse {rest : List String} {f : Registers → Registers}
    (later : Writes (rest.flatMap String.toList) f) : Writes
      (("\x1b[?1000l" :: "\x1b[?1002l" :: "\x1b[?1003l" :: "\x1b[?9l" :: "\x1b[?1005l" :: "\x1b[?1006l" ::
        "\x1b[?1016l" :: rest).flatMap String.toList)
      fun r => f { r with modes.mouseMode := .none, modes.mouseProtocol := .normal } := by
  have normal : Writes "\x1b[?1000l".toList fun r => { r with modes.mouseMode := .none } :=
    writes_literal rfl ⟨rfl, rfl⟩ fun _ => rfl
  have button : Writes "\x1b[?1002l".toList fun r => { r with modes.mouseMode := .none } :=
    writes_literal rfl ⟨rfl, rfl⟩ fun _ => rfl
  have any : Writes "\x1b[?1003l".toList fun r => { r with modes.mouseMode := .none } :=
    writes_literal rfl ⟨rfl, rfl⟩ fun _ => rfl
  have x10 : Writes "\x1b[?9l".toList fun r => { r with modes.mouseMode := .none } :=
    writes_literal rfl ⟨rfl, rfl⟩ fun _ => rfl
  have utf8 : Writes "\x1b[?1005l".toList fun r => { r with modes.mouseProtocol := .normal } :=
    writes_literal rfl ⟨rfl, rfl⟩ fun _ => rfl
  have sgr : Writes "\x1b[?1006l".toList fun r => { r with modes.mouseProtocol := .normal } :=
    writes_literal rfl ⟨rfl, rfl⟩ fun _ => rfl
  have pixel : Writes "\x1b[?1016l".toList fun r => { r with modes.mouseProtocol := .normal } :=
    writes_literal rfl ⟨rfl, rfl⟩ fun _ => rfl
  have encodings := Writes.of_eq (writes_sequence utf8 (writes_sequence sgr
    (writes_sequence pixel later))) (g := fun r => f { r with modes.mouseProtocol := .normal })
    fun _ => rfl
  refine Writes.of_eq (writes_sequence normal (writes_sequence button (writes_sequence any
    (writes_sequence x10 encodings)))) ?_
  exact fun _ => rfl

theorem writes_risSubstitute : Writes RIS_SUBSTITUTE afterRisSubstitute := by
  have soft : Writes "\x1b[!p".toList fun r => { r with
      modes := r.modes.afterSoftReset, keyboard := r.keyboard.modify (·.reset) } :=
    writes_literal rfl ⟨rfl, rfl⟩ fun _ => rfl
  refine Writes.of_eq (writes_sequence soft (writes_mouse writes_reports)) ?_
  exact fun _ => rfl

/-! ### The stripped sequence -/

theorem reads_stripped {parts : List Bytes} {finalByte : UInt8}
    (digits : ∀ d ∈ parts, ∀ b ∈ d, isAsciiDigit b = true)
    (setting : finalByte = 0x68 ∨ finalByte = 0x6C) :
    Reads (PRIVATE_CSI ++ [0x3B].intercalate parts ++ [finalByte])
      [.csi (paramsOf ([0x3B].intercalate parts)) [] 0x3F finalByte] := by
  have isFinal : 0x40 ≤ finalByte.toNat ∧ finalByte.toNat ≤ 0x7E := by
    rcases setting with rfl | rfl <;> decide
  have reads := (@continues_csiMarked ([0x3B].intercalate parts) 0x3F finalByte (by decide)
    (paramBytes_numbers digits) isFinal.1 isFinal.2).reads
  rwa [List.append_assoc]

theorem mem_remaining {parts : List Bytes} {d : Bytes} :
    d ∈ remaining parts ↔ d ∈ parts ∧ ¬ IsScreenMode (clamped d) := by
  unfold remaining
  rw [List.mem_filter, decide_eq_true_eq]

/-- No number that is left is a screen mode. -/
theorem remaining_params {parts : List Bytes} (digits : ∀ d ∈ parts, ∀ b ∈ d, isAsciiDigit b = true)
    (some_ : remaining parts ≠ []) :
    ∀ p ∈ paramsOf ([0x3B].intercalate (remaining parts)), ¬ IsScreenMode (firstPart p) := by
  have kept : ∀ d ∈ remaining parts, ∀ b ∈ d, isAsciiDigit b = true :=
    fun d mem => digits d (mem_remaining.mp mem).1
  have none : ∀ d ∈ remaining parts, ¬ IsScreenMode (clamped d) := fun d mem => (mem_remaining.mp mem).2
  intro p mem
  cases eq : remaining parts with
  | nil => exact absurd eq some_
  | cons first rest =>
    rw [eq] at mem kept none
    by_cases empty : first :: rest = [[]]
    · rw [empty] at mem
      exact absurd mem List.not_mem_nil
    · rw [paramsOf_numbers kept empty] at mem
      obtain ⟨d, inside, rfl⟩ := List.mem_map.mp (List.mem_of_mem_take mem)
      exact none d inside

/-- A text that takes the place of a switch. -/
structure Substitute (bytes : Bytes) (f : Registers → Registers) : Prop where
  escapes : ∃ rest, bytes = 0x1B :: rest
  reads : ∃ actions, Reads bytes actions ∧ (∀ a ∈ actions, ¬ a.Switches) ∧
    ∀ r : Registers, r.afterAll actions = f r

theorem Substitute.append {a b : Bytes} {f g : Registers → Registers} (ha : Substitute a f)
    (hb : Substitute b g) : Substitute (a ++ b) (g ∘ f) := by
  obtain ⟨⟨rest, rfl⟩, before, reads_a, none_a, does_a⟩ := ha
  obtain ⟨-, after, reads_b, none_b, does_b⟩ := hb
  refine ⟨⟨rest ++ b, rfl⟩, before ++ after, reads_a.append reads_b, ?_, ?_⟩
  · intro a mem
    rcases List.mem_append.mp mem with early | late
    · exact none_a a early
    · exact none_b a late
  · intro r
    rw [Registers.afterAll_append, does_a, does_b]
    rfl

/-- A written text that begins with ESC and marks no switch. -/
theorem substitute_of_writes {text : List Char} {f : Registers → Registers}
    (writes : Writes ('\x1b' :: text) f)
    (unmarked : ∀ r : Registers, r.screenSwitch = none → (f r).screenSwitch = none) :
    Substitute (toUtf8 ('\x1b' :: text)) f :=
  ⟨⟨toUtf8 text, rfl⟩, writes.reads unmarked⟩

theorem substitute_reset : Substitute (modesOf .reset []) afterRisSubstitute :=
  substitute_of_writes writes_risSubstitute fun _ unmarked => unmarked

/-- The sequence without its screen modes, when something is left of it. -/
theorem substitute_stripped {parts : List Bytes} {finalByte : UInt8}
    (digits : ∀ d ∈ parts, ∀ b ∈ d, isAsciiDigit b = true)
    (setting : finalByte = 0x68 ∨ finalByte = 0x6C) (some_ : remaining parts ≠ []) :
    Substitute (PRIVATE_CSI ++ [0x3B].intercalate (remaining parts) ++ [finalByte])
      (·.afterDecs (paramsOf ([0x3B].intercalate (remaining parts))) (finalByte == 0x68)) := by
  have kept : ∀ d ∈ remaining parts, ∀ b ∈ d, isAsciiDigit b = true :=
    fun d mem => digits d (mem_remaining.mp mem).1
  refine ⟨⟨_, rfl⟩, _, reads_stripped kept setting, ?_, ?_⟩
  · intro a mem
    rw [List.mem_singleton.mp mem]
    rintro ⟨-, -, -, p, inside, screen⟩
    exact remaining_params digits some_ p inside screen
  · intro r
    rcases setting with rfl | rfl <;> rfl

theorem substitute_repaint {t : Terminal} (g : t.Graphic) :
    Guarded False t.dumpScreenSwitch fun bytes => Substitute bytes
      (·.withDrawing t.modes.insert t.modes.autowrap t.modes.cursorVisible) := by
  refine (Terminal.writes_dumpScreenSwitch g).mono ?_
  rintro bytes ⟨text, rfl, ⟨rest, rfl⟩, writes⟩
  exact substitute_of_writes writes fun _ unmarked => unmarked

end Posh.Session
