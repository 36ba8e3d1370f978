import Posh.Lib.Transition
import Posh.Term.Process
import Posh.Term.SoundCsi
import Posh.Term.SoundStrings

/-!
Runs of a terminal: chunks of the byte stream and resizes in any order. Every state
a run reaches is well formed.
-/

namespace Posh.Term

open Posh.Lib

namespace Terminal

variable {K : Parser → GraphicsState → Prop} {rows cols : Nat} {t : Terminal} {c : Prop}

/-! ### One byte -/

theorem advanceCursor_yields (h : t.Sound K rows cols) (extent : Nat × Nat) :
    Yields (t.advanceCursor extent) (·.Sound K rows cols) := by
  have rows_pos := h.rows_pos
  have cols_pos := h.cols_pos
  refine (lastRow_yields h).bind ?_
  rintro lastRow rfl
  refine (lastCol_yields h).bind ?_
  rintro lastCol rfl
  refine .pure (h.moved rfl ?_ ?_)
  · exact Nat.lt_of_le_of_lt (Nat.min_le_right _ _) (Nat.sub_lt rows_pos Nat.one_pos)
  · exact Nat.lt_of_le_of_lt (Nat.min_le_right _ _) (Nat.sub_lt cols_pos Nat.one_pos)

/-- A graphics command does to the terminal what it does to the store. -/
theorem apcDispatch_guarded (h : t.Sound K rows cols) {files : Files} {data : Bytes}
    (store : ∀ b rest, data = b :: rest → b.toNat = 'G'.toNat →
      Guarded c (t.graphics.dispatch files rest (t.cursor.row, t.cursor.col))
        fun out => K t.parser out.1) :
    Guarded c (t.apcDispatch files data) (·.Sound K rows cols) := by
  unfold apcDispatch
  cases data with
  | nil => exact .pure h
  | cons b rest =>
    dsimp only
    split
    · rename_i graphical
      refine (store b rest rfl graphical).bind ?_
      rintro ⟨graphics, resp, advance⟩ known
      have stored : { t with graphics }.Sound K rows cols := { h with known := known }
      have answered : (resp.elim { t with graphics } ({ t with graphics }.respond ·)).Sound
          K rows cols := by
        cases resp with
        | none => exact stored
        | some _ => exact stored
      dsimp only
      refine Guarded.bind (p := (·.Sound K rows cols)) ?_ fun _ sound => .pure sound
      cases advance with
      | none => exact .pure answered
      | some extent => exact .of_yields (advanceCursor_yields answered extent)
    · exact .pure h

/-- What an action needs not to panic, the graphics store aside. -/
def ActionSafe (action : Action) (t : Terminal) : Prop :=
  match action with
  | .osc data _ => t.OscSafe data
  | .dcs _ intermediates finalByte data => DcsSafe intermediates finalByte data
  | _ => True

theorem dispatch_guarded (reset : ∀ p g, K p g → K p {}) (h : t.WellFormed K) {files : Files}
    {action : Action} (safe : c → t.ActionSafe action)
    (store : ∀ b rest, action = .apc (b :: rest) → b.toNat = 'G'.toNat →
      Guarded c (t.graphics.dispatch files rest (t.cursor.row, t.cursor.col))
        fun out => K t.parser out.1) :
    Guarded c (t.dispatch files action) (·.WellFormed K) := by
  obtain ⟨rows, cols, sound⟩ := h
  cases action with
  | print ch => exact .of_yields (wellFormed_of_yields (print_yields sound ch))
  | execute b => exact .of_yields (wellFormed_of_yields (execute_yields sound b))
  | csi params intermediates marker finalByte =>
    exact .of_yields (csiDispatch_yields sound.wellFormed params intermediates marker finalByte)
  | esc intermediates finalByte =>
    exact .of_yields (wellFormed_of_yields (escDispatch_yields reset sound intermediates finalByte))
  | osc data bel =>
    exact ((oscDispatch_guarded sound data bel).weaken safe).mono fun _ => Sound.wellFormed
  | dcs params intermediates finalByte data =>
    exact ((dcsDispatch_guarded sound intermediates finalByte data).weaken safe).mono fun _ =>
      Sound.wellFormed
  | apc data =>
    exact (apcDispatch_guarded sound fun b rest eq => store b rest (by rw [eq])).mono fun _ =>
      Sound.wellFormed

end Terminal

/-! ### Runs -/

/-- What a session does to its terminal. -/
inductive Event where
  /-- A chunk of application output, with the file system graphics may read. -/
  | process (files : Files) (bytes : Bytes)
  | resize (rows cols : Nat)

namespace Event

/-- Sizes are positive `u16`s. -/
def Admissible : Event → Prop
  | .process _ _ => True
  | .resize rows cols => 0 < rows ∧ rows < 2 ^ 16 ∧ 0 < cols ∧ cols < 2 ^ 16

def apply (e : Event) (t : Terminal) : Checked Terminal :=
  match e with
  | .process files bytes => t.process files bytes
  | .resize rows cols => t.resize rows cols

end Event

/-- A terminal of any size and scrollback cap, as it is created. -/
def Terminal.Fresh (t : Terminal) : Prop :=
  ∃ rows cols scrollback, 0 < rows ∧ rows < 2 ^ 16 ∧ 0 < cols ∧ cols < 2 ^ 16 ∧
    t = Terminal.withScrollback rows cols scrollback

/-- Chunks and resizes in any order, as long as none of them panics. -/
def session : Transition Terminal where
  init := Terminal.Fresh
  step t t' := ∃ e : Event, e.Admissible ∧ e.apply t = .ok t'

namespace Terminal

variable {t : Terminal}

/-- Nothing is known of the parser and of the graphics store. -/
abbrev Unknown : Parser → GraphicsState → Prop :=
  fun _ _ => True

theorem processByte_keeps (h : t.WellFormed Unknown) (files : Files) (b : UInt8) :
    Guarded False (t.processByte files b) (·.WellFormed Unknown) := by
  refine (Guarded.trivial _).bind ?_
  rintro ⟨parser, actions⟩ _
  obtain ⟨rows, cols, sound⟩ := h
  have parsed : { t with parser }.WellFormed Unknown :=
    ⟨rows, cols, { sound with known := trivial }⟩
  refine Guarded.forEach parsed ?_
  intro action _ t' h
  exact dispatch_guarded (fun _ _ _ => trivial) h False.elim fun _ _ _ _ =>
    (Guarded.trivial _).mono fun _ => id

theorem step_keeps {t' : Terminal} (h : t.WellFormed Unknown) (step : session.step t t') :
    t'.WellFormed Unknown := by
  obtain ⟨e, admissible, eq⟩ := step
  cases e with
  | process files bytes =>
    have keeps : Guarded False (t.process files bytes) (·.WellFormed Unknown) :=
      Guarded.forEach h fun b _ t' h => processByte_keeps h files b
    exact keeps.of_eq_ok eq
  | resize rows cols =>
    obtain ⟨_, _, sound⟩ := h
    exact ((resize_yields sound admissible.2.1 admissible.2.2.2).of_eq_ok eq).wellFormed

theorem wellFormed_invariant : session.Invariant (·.WellFormed Unknown) where
  base := by
    rintro t ⟨rows, cols, scrollback, _, rows_lt, _, cols_lt, rfl⟩
    exact (sound_withScrollback trivial rows_lt cols_lt scrollback).wellFormed
  step _ _ := step_keeps

/-- Inside the grid, and under origin mode inside the scroll region. -/
def Restored (t : Terminal) : Prop :=
  t.cursor.row < t.rows ∧ t.cursor.col < t.cols ∧
    (t.modes.origin = true → t.scrollTop ≤ t.cursor.row ∧ t.cursor.row ≤ t.scrollBot)

theorem Sound.restored {K : Parser → GraphicsState → Prop} {rows cols : Nat}
    (h : t.Sound K rows cols) (inside : t.InRegion) : t.Restored := by
  refine ⟨?_, ?_, inside⟩
  · rw [h.rows_eq]
    exact h.cursor_row
  · rw [h.cols_eq]
    exact h.cursor_col

/-- In every state a session reaches the grids, the cursor, the scroll region, the tab
stops and the scrollback have the shape the terminal's size gives them, and restoring
a cursor lands within that shape. -/
theorem grid_wellFormed (h : session.Reachable t) :
    (t.primary.grid.length = t.rows ∧ t.alt.grid.length = t.rows) ∧
    (∀ row ∈ t.primary.grid ++ t.alt.grid, row.cells.length = t.cols) ∧
    (t.cursor.row < t.rows ∧ t.cursor.col < t.cols) ∧
    (t.scrollTop ≤ t.scrollBot ∧ t.scrollBot < t.rows) ∧
    t.tabs.length = t.cols ∧
    (t.primary.scrollback.length ≤ t.primary.maxScrollback ∧
      t.alt.scrollback.length ≤ t.alt.maxScrollback) ∧
    Yields (t.escDispatch [] 0x38) Restored ∧
    Yields (t.csiDispatch [] [] 0 0x75) Restored ∧
    Yields (t.setDecMode 1048 false) Restored ∧
    (t.altActive = true → Yields (t.setDecMode 1049 false) Restored) := by
  obtain ⟨rows, cols, sound⟩ := wellFormed_invariant.reachable h
  have restored : Yields t.restoreCursor Restored :=
    (restoreCursor_yields sound).mono fun _ h => h.1.restored h.2
  have left (active : t.altActive = true) : Yields (t.setAltScreen 1049 false) Restored :=
    (setAltScreen_yields sound 1049 false).mono fun _ h => h.1.restored (h.2 rfl rfl active)
  rw [sound.rows_eq, sound.cols_eq]
  refine ⟨⟨sound.primary.height, sound.alt.height⟩, ?_, ⟨sound.cursor_row, sound.cursor_col⟩,
    ⟨sound.ordered, sound.bot_lt⟩, sound.tabs, ⟨sound.primary.cap, sound.alt.cap⟩, restored,
    restored, restored.bind fun _ h => .pure h, fun active => (left active).bind fun _ h => .pure h⟩
  exact Uniform.append sound.primary.grid sound.alt.grid

/-- A cursor saved after a letter. -/
theorem grid_wellFormed_saved :
    ∃ t, (new 2 3).process (fun _ => none) [0x61, 0x1B, 0x37] = .ok t ∧
      Yields (t.escDispatch [] 0x38) Restored := by
  have fresh : session.Reachable (new 2 3) :=
    .of_init ⟨2, 3, DEFAULT_SCROLLBACK, by decide, by decide, by decide, by decide, rfl⟩
  obtain ⟨t, eq⟩ : ∃ t, (new 2 3).process (fun _ => none) [0x61, 0x1B, 0x37] = .ok t := ⟨_, rfl⟩
  refine ⟨t, eq, ?_⟩
  have shape := grid_wellFormed (fresh.tail ⟨.process (fun _ => none) _, trivial, eq⟩)
  exact shape.2.2.2.2.2.2.1
end Terminal

end Posh.Term
