import Posh.Lib.Transition
import Posh.Remote.Painting
import Posh.Term.Base64Codec

/-!
The modes of the outer terminal over a run of frames.

A frame writes the modes that changed since the previous snapshot. They follow the
snapshots through every run, the mouse encoding only where the wheel grab, which the
snapshots do not record, leaves it to be written.
-/

namespace Posh.Remote.Display

open Posh.Lib Posh.Term

/-- The grab policy is on and the snapshot has no mouse mode of its own. -/
def grabActive (policy : Bool) (f : Snapshot) : Bool :=
  policy && f.mouseMode == 0

/-- The title and modes a frame calls for, the wheel grab under `policy` included. -/
structure Synced (policy : Bool) (f : Snapshot) (title : List Char) (modes : Modes) : Prop where
  title : title = f.title
  reverseVideo : modes.reverseVideo = f.reverseVideo
  cursorKeys : modes.cursorKeys = f.appCursorKeys
  keypad : modes.keypadApp = f.appKeypad
  bracketedPaste : modes.bracketedPaste = f.bracketedPaste
  focusReporting : modes.focusReporting = f.focusReporting
  alternateScroll : modes.alternateScroll = f.alternateScroll
  cursorVisible : modes.cursorVisible = f.cursorVisible
  mouseMode : modes.mouseMode.decset.getD 0 =
    if f.mouseMode = 0 ∧ policy = true then 1000 else f.mouseMode
  mouseEncoding : modes.mouseProtocol.decset.getD 0 =
    if f.mouseMode = 0 ∧ policy = true then 1006 else f.mouseEncoding

/-- The encoding is written when it has to be: a grabbed wheel leaves SGR encoding
behind, and a frame writes its own only where it differs from the snapshot before. -/
def WritesEncoding (policy initialized : Bool) (last f : Snapshot) : Prop :=
  policy = true →
    if f.mouseMode = 0 then
      f.mouseEncoding = 0 ∨ f.mouseEncoding = 1006 ∨
        paintsOver initialized last f = true ∧ f.mouseEncoding = last.mouseEncoding
    else
      paintsOver initialized last f = true → last.mouseMode = 0 →
        f.mouseEncoding = last.mouseEncoding → f.mouseEncoding = 1006

variable {policy init : Bool} {last f : Snapshot} {out : List Char} {r₀ r : Registers}

/-- A register is written, or is already as wanted. -/
theorem brings_if {c : Prop} [Decidable c] {text : List Char} {g : Registers → Registers}
    (h : Brings out r₀ r) (writes : Writes text g) (already : ¬ c → g r = r) :
    Brings (out ++ if c then text else []) r₀ (g r) := by
  by_cases written : c
  · rw [if_pos written]
    exact h.then writes
  · rw [if_neg written, already written, List.append_nil]
    exact h

/-- A register shown as `old` is brought to `new`, unless it is that already. -/
theorem brings_changed {α : Type} [DecidableEq α] (new old : α) {now : α} {text : List Char}
    {g : Registers → Registers} (h : Brings out r₀ r) (writes : Writes text g)
    (shown : init = true → now = old) (already : now = new → g r = r) :
    Brings (out ++ if !init ∨ new ≠ old then text else []) r₀ (g r) := by
  refine brings_if h writes fun same => ?_
  rw [not_or, not_not] at same
  obtain ⟨initialized, same⟩ := same
  have current := shown (by simpa using initialized)
  exact already (current.trans same.symm)

theorem writes_setting {n : Nat} (flag : Bool) (set reset : String)
    (spelled : Parser.paramsOf (toUtf8 (decimal n)) = [[n]]) (on : set.toList = decset n true)
    (off : reset.toList = decset n false) : Writes (setting flag set reset) (·.afterDec n flag) := by
  cases flag with
  | false =>
    change Writes reset.toList _
    rw [off]
    exact writes_decset false spelled
  | true =>
    change Writes set.toList _
    rw [on]
    exact writes_decset true spelled

/-! ### The header -/

theorem quiet_copy (renderable : f.Renderable) :
    Quiet ("\x1b]52;".toList ++ f.clipboardKinds ++ ";".toList ++ Base64.encode f.clipboard ++
      "\x1b\\".toList) := by
  have graphic : ∀ c ∈ ['5', '2'] ++ ';' :: (f.clipboardKinds ++ ';' :: Base64.encode f.clipboard),
      Graphic c := by
    intro c mem
    simp only [List.mem_append, List.mem_cons, List.not_mem_nil, or_false] at mem
    rcases mem with (rfl | rfl) | rfl | kinds | rfl | data
    · decide
    · decide
    · decide
    · exact renderable.clipboardKinds c kinds
    · decide
    · exact (Base64.encode_plain _ c data).1
  have quiet := quiet_osc_st ['5', '2'] (n := 52) (by decide) (by decide) (by decide) graphic
  simpa [List.append_assoc] using quiet

/-- What the header does. -/
def withHeader (f : Snapshot) (r : Registers) : Registers :=
  { r with title := f.title, modes := { r.modes with reverseVideo := f.reverseVideo } }

theorem frameHeader_cursorVisible (init : Bool) (last f : Snapshot) (frame : FrameState) :
    (frameHeader init last f frame).cursorVisible = frame.cursorVisible := by
  unfold frameHeader FrameState.append
  dsimp only
  split <;> split <;> split <;> split <;> rfl

theorem frameHeader_brings (init : Bool) (last : Snapshot) (renderable : f.Renderable)
    (shown : init = true → r.title = last.title ∧ r.modes.reverseVideo = last.reverseVideo)
    (visible : Bool) :
    Brings (frameHeader init last f { cursorVisible := visible }).out r (withHeader f r) := by
  have titled := brings_changed f.title last.title (Brings.nil r)
    (writes_title renderable.title renderable.titleFits) (fun init => (shown init).1)
    fun now => by
      rw [← now]
  have rung := brings_if (c := f.bellCount ≠ last.bellCount) titled
    (quiet_control (c := '\x07') (by decide) (by decide)) fun _ => rfl
  have copied := brings_if (c := f.clipboardSeq ≠ last.clipboardSeq) rung (quiet_copy renderable)
    fun _ => rfl
  have reversed := brings_changed f.reverseVideo last.reverseVideo copied
    (writes_setting (n := 5) f.reverseVideo "\x1b[?5h" "\x1b[?5l" (by decide) rfl rfl)
    (fun init => (shown init).2) fun now => by
      rw [← now]
      rfl
  have eq : (frameHeader init last f { cursorVisible := visible }).out =
      (([] ++ if !init ∨ f.title ≠ last.title then
          "\x1b]0;".toList ++ f.title ++ "\x07".toList else []) ++
        (if f.bellCount ≠ last.bellCount then ['\x07'] else [])) ++
        (if f.clipboardSeq ≠ last.clipboardSeq then
          "\x1b]52;".toList ++ f.clipboardKinds ++ ";".toList ++ Base64.encode f.clipboard ++
            "\x1b\\".toList else []) ++
        (if !init ∨ f.reverseVideo ≠ last.reverseVideo then
          setting f.reverseVideo "\x1b[?5h" "\x1b[?5l" else []) := by
    unfold frameHeader FrameState.append
    dsimp only
    split <;> split <;> split <;> split <;> simp only [List.append_nil]
  rw [eq]
  exact reversed

/-! ### Modes -/

def withPasteAndKeys (f : Snapshot) (r : Registers) : Registers :=
  { r with modes := { r.modes with
      bracketedPaste := f.bracketedPaste, cursorKeys := f.appCursorKeys, keypadApp := f.appKeypad } }

theorem writes_keypad (app : Bool) : Writes (setting app "\x1b=" "\x1b>")
    fun r => { r with modes := { r.modes with keypadApp := app } } := by
  cases app with
  | false => exact writes_final (c := '>') (by decide) (by decide) (by decide)
  | true => exact writes_final (c := '=') (by decide) (by decide) (by decide)

theorem pasteAndKeys_brings (init : Bool) (last f : Snapshot) (h : Brings out r₀ r)
    (shown : init = true → r.modes.bracketedPaste = last.bracketedPaste ∧
      r.modes.cursorKeys = last.appCursorKeys ∧ r.modes.keypadApp = last.appKeypad) :
    Brings (out ++ pasteAndKeys init last f) r₀ (withPasteAndKeys f r) := by
  have pasted := brings_changed f.bracketedPaste last.bracketedPaste h
    (writes_setting (n := 2004) f.bracketedPaste "\x1b[?2004h" "\x1b[?2004l"
      (by decide) rfl rfl) (fun init => (shown init).1)
    fun now => by
      rw [← now]
      rfl
  have keyed := brings_changed f.appCursorKeys last.appCursorKeys pasted
    (writes_setting (n := 1) f.appCursorKeys "\x1b[?1h" "\x1b[?1l"
      (by decide) rfl rfl) (fun init => (shown init).2.1)
    fun now => by
      rw [← now]
      rfl
  have padded := brings_changed f.appKeypad last.appKeypad keyed
    (writes_keypad f.appKeypad) (fun init => (shown init).2.2)
    fun now => by
      rw [← now]
      rfl
  unfold pasteAndKeys
  rw [← List.append_assoc, ← List.append_assoc]
  exact padded

def withFocusAndScroll (f : Snapshot) (r : Registers) : Registers :=
  { r with modes := { r.modes with
      focusReporting := f.focusReporting, alternateScroll := f.alternateScroll } }

theorem focusAndScroll_brings (init : Bool) (last f : Snapshot) (h : Brings out r₀ r)
    (shown : init = true → r.modes.focusReporting = last.focusReporting ∧
      r.modes.alternateScroll = last.alternateScroll) :
    Brings (out ++ focusAndScroll init last f) r₀ (withFocusAndScroll f r) := by
  have focused := brings_changed f.focusReporting last.focusReporting h
    (writes_setting (n := 1004) f.focusReporting "\x1b[?1004h" "\x1b[?1004l"
      (by decide) rfl rfl) (fun init => (shown init).1)
    fun now => by
      rw [← now]
      rfl
  have scrolled := brings_changed f.alternateScroll last.alternateScroll focused
    (writes_setting (n := 1007) f.alternateScroll "\x1b[?1007h" "\x1b[?1007l"
      (by decide) rfl rfl) (fun init => (shown init).2)
    fun now => by
      rw [← now]
      rfl
  unfold focusAndScroll
  rw [← List.append_assoc]
  exact scrolled

/-! ### Mouse reporting -/

theorem mouseMode_eq {m m' : MouseMode} (same : m.decset.getD 0 = m'.decset.getD 0) : m = m' := by
  cases m <;> cases m' <;> first | rfl | exact absurd same (by decide)

theorem mouseProtocol_eq {p p' : MouseProtocol} (same : p.decset.getD 0 = p'.decset.getD 0) :
    p = p' := by
  cases p <;> cases p' <;> first | rfl | exact absurd same (by decide)

theorem mouseMode_zero {m : MouseMode} : m.decset.getD 0 = 0 ↔ m = .none := by
  cases m <;> decide

theorem mouseProtocol_zero {p : MouseProtocol} : p.decset.getD 0 = 0 ↔ p = .normal := by
  cases p <;> decide

/-- DECSET and DECRST of a mouse mode. -/
theorem writes_mouseMode {m : MouseMode} (some_ : m ≠ .none) (set : Bool) :
    Writes (decset (m.decset.getD 0) set)
      fun r => { r with modes := { r.modes with mouseMode := Terminal.mouseModeIf set m } } := by
  cases m with
  | none => contradiction
  | x10 => exact writes_decset set (by decide)
  | normal => exact writes_decset set (by decide)
  | buttonEvent => exact writes_decset set (by decide)
  | anyEvent => exact writes_decset set (by decide)

theorem writes_mouseProtocol {p : MouseProtocol} (some_ : p ≠ .normal) (set : Bool) :
    Writes (decset (p.decset.getD 0) set)
      fun r => { r with modes := { r.modes with
        mouseProtocol := Terminal.mouseProtocolIf set p } } := by
  cases p with
  | normal => contradiction
  | utf8 => exact writes_decset set (by decide)
  | sgr => exact writes_decset set (by decide)
  | sgrPixel => exact writes_decset set (by decide)

def withMouse (mode : MouseMode) (protocol : MouseProtocol) (r : Registers) : Registers :=
  { r with modes := { r.modes with mouseMode := mode, mouseProtocol := protocol } }

/-- The mouse mode a frame calls for. -/
def calledMode (policy : Bool) (m : MouseMode) : MouseMode :=
  if m = .none ∧ policy then .normal else m

/-- The wheel grab, after the higher tracking modes. -/
theorem writes_grab :
    Writes "\x1b[?1003l\x1b[?1002l\x1b[?9l\x1b[?1000h\x1b[?1006h".toList (withMouse .normal .sgr) := by
  have text : "\x1b[?1003l\x1b[?1002l\x1b[?9l\x1b[?1000h\x1b[?1006h".toList =
      decset 1003 false ++ decset 1002 false ++ decset 9 false ++ decset 1000 true ++
        decset 1006 true := by
    decide +kernel
  have cleared : Writes (decset 1003 false ++ decset 1002 false ++ decset 9 false)
      fun r => withMouse .none r.modes.mouseProtocol r :=
    (((writes_mouseMode (m := .anyEvent) nofun false).append
      (writes_mouseMode (m := .buttonEvent) nofun false)).append
      (writes_mouseMode (m := .x10) nofun false)).of_eq fun _ => rfl
  have grabbed := (cleared.append (writes_mouseMode (m := .normal) nofun true)).append
    (writes_mouseProtocol (p := .sgr) nofun true)
  rw [text]
  exact grabbed.of_eq fun _ => rfl

theorem writes_mouseOff :
    Writes "\x1b[?1003l\x1b[?1002l\x1b[?1000l\x1b[?9l".toList
      fun r => withMouse .none r.modes.mouseProtocol r := by
  have text : "\x1b[?1003l\x1b[?1002l\x1b[?1000l\x1b[?9l".toList =
      decset 1003 false ++ decset 1002 false ++ decset 1000 false ++ decset 9 false := by
    decide +kernel
  have cleared := ((writes_mouseMode (m := .anyEvent) nofun false).append
    (writes_mouseMode (m := .buttonEvent) nofun false)).append
    (writes_mouseMode (m := .normal) nofun false)
  rw [text]
  exact (cleared.append (writes_mouseMode (m := .x10) nofun false)).of_eq fun _ => rfl

theorem writes_encodingOff :
    Writes "\x1b[?1016l\x1b[?1006l\x1b[?1005l".toList
      fun r => withMouse r.modes.mouseMode .normal r := by
  have text : "\x1b[?1016l\x1b[?1006l\x1b[?1005l".toList =
      decset 1016 false ++ decset 1006 false ++ decset 1005 false := by
    decide +kernel
  have cleared := ((writes_mouseProtocol (p := .sgrPixel) nofun false).append
    (writes_mouseProtocol (p := .sgr) nofun false)).append
    (writes_mouseProtocol (p := .utf8) nofun false)
  rw [text]
  exact cleared.of_eq fun _ => rfl

variable {m lm : MouseMode} {e le : MouseProtocol} {protocol : MouseProtocol}

theorem wantGrab_eq (mode : f.mouseMode = m.decset.getD 0) :
    wantGrab f (grabActive policy f) = decide (m = .none ∧ policy = true) := by
  unfold wantGrab grabActive
  rw [mode]
  cases m <;> cases policy <;> decide

/-- The protocol after the mouse mode: SGR when the wheel was grabbed anew. -/
def grabbedProtocol (policy init : Bool) (m lm : MouseMode) (protocol : MouseProtocol) :
    MouseProtocol :=
  if (init = false ∨ m ≠ lm) ∧ m = .none ∧ policy = true then .sgr else protocol

/-- A value is written where it is not the one the outer terminal has been brought to. -/
theorem written_iff {α : Type} {value : α → Nat} (inj : ∀ {a b}, value a = value b → a = b)
    {x y : α} {now before : Nat} (current : now = value x) (last : init = true → before = value y) :
    (!init ∨ now ≠ before) ↔ (init = false ∨ x ≠ y) := by
  cases init with
  | false => simp
  | true =>
    rw [current, last rfl]
    have same : value x = value y ↔ x = y := ⟨inj, fun same => by rw [same]⟩
    simp [same]

theorem mouseModeSync_brings (policy : Bool) (h : Brings out r₀ r) (mode : f.mouseMode = m.decset.getD 0)
    (lastMode : init = true → last.mouseMode = lm.decset.getD 0)
    (shown : init = true → r.modes.mouseMode = calledMode policy lm) :
    Brings (out ++ mouseModeSync init last f (grabActive policy f)) r₀
      (withMouse (calledMode policy m)
        (grabbedProtocol policy init m lm r.modes.mouseProtocol) r) := by
  unfold mouseModeSync
  rw [wantGrab_eq mode]
  have renewed_iff := written_iff mouseMode_eq mode lastMode
  by_cases written : !init ∨ f.mouseMode ≠ last.mouseMode
  · rw [if_pos written]
    have renewed := renewed_iff.mp written
    by_cases off : m = .none
    · have zero : f.mouseMode = 0 := mode.trans (mouseMode_zero.mpr off)
      rw [if_pos zero]
      by_cases grabbed : policy = true
      · have called : calledMode policy m = .normal := if_pos ⟨off, grabbed⟩
        have protocol : grabbedProtocol policy init m lm r.modes.mouseProtocol = .sgr :=
          if_pos ⟨renewed, off, grabbed⟩
        rw [called, protocol, if_pos (decide_eq_true ⟨off, grabbed⟩)]
        exact h.then writes_grab
      · have called : calledMode policy m = .none := by
          unfold calledMode
          rw [if_neg fun both => grabbed both.2, off]
        have protocol : grabbedProtocol policy init m lm r.modes.mouseProtocol =
            r.modes.mouseProtocol :=
          if_neg fun all => grabbed all.2.2
        rw [called, protocol, if_neg (by simp [grabbed])]
        have cleared := h.then writes_mouseOff
        exact cleared
    · have nonzero : f.mouseMode ≠ 0 := fun zero => off (mouseMode_zero.mp (mode ▸ zero))
      have called : calledMode policy m = m := if_neg fun both => off both.1
      have protocol : grabbedProtocol policy init m lm r.modes.mouseProtocol =
          r.modes.mouseProtocol :=
        if_neg fun all => off all.2.1
      have reset : ∃ mode', Brings (out ++ if init ∧ last.mouseMode ≠ 0 then
          "\x1b[?".toList ++ decimal last.mouseMode ++ "l".toList else []) r₀
          (withMouse mode' r.modes.mouseProtocol r) := by
        by_cases other : init ∧ last.mouseMode ≠ 0
        · have some_ : lm ≠ .none := by
            rintro rfl
            exact other.2 (lastMode other.1)
          rw [if_pos other, lastMode other.1]
          have cleared := h.then (writes_mouseMode some_ false)
          exact ⟨.none, cleared⟩
        · rw [if_neg other, List.append_nil]
          exact ⟨r.modes.mouseMode, h⟩
      obtain ⟨mode', reset⟩ := reset
      rw [if_neg nonzero, called, protocol, ← List.append_assoc, mode]
      have renewed := reset.then (writes_mouseMode off true)
      exact renewed
  · rw [if_neg written, List.append_nil]
    have settled := mt renewed_iff.mpr written
    have protocol : grabbedProtocol policy init m lm r.modes.mouseProtocol =
        r.modes.mouseProtocol :=
      if_neg fun all => settled all.1
    rw [not_or, Bool.not_eq_false, not_not] at settled
    obtain ⟨old, still⟩ := settled
    rw [protocol, still, ← shown old]
    exact h

/-- The protocol after the mouse encoding. -/
def encodedProtocol (policy init : Bool) (m : MouseMode) (e le protocol : MouseProtocol) :
    MouseProtocol :=
  if init = false ∨ e ≠ le then
    if e = .normal then if m = .none ∧ policy = true then protocol else .normal
    else e
  else protocol

theorem mouseEncodingSync_brings (policy : Bool) (h : Brings out r₀ r) (mode : f.mouseMode = m.decset.getD 0)
    (encoding : f.mouseEncoding = e.decset.getD 0)
    (lastEncoding : init = true → last.mouseEncoding = le.decset.getD 0) :
    Brings (out ++ mouseEncodingSync init last f (grabActive policy f)) r₀
      (withMouse r.modes.mouseMode (encodedProtocol policy init m e le r.modes.mouseProtocol) r) := by
  unfold mouseEncodingSync encodedProtocol
  rw [wantGrab_eq mode]
  have renewed_iff := written_iff mouseProtocol_eq encoding lastEncoding
  by_cases written : !init ∨ f.mouseEncoding ≠ last.mouseEncoding
  · rw [if_pos written, if_pos (renewed_iff.mp written)]
    by_cases default : e = .normal
    · have zero : f.mouseEncoding = 0 := encoding.trans (mouseProtocol_zero.mpr default)
      rw [if_pos zero, if_pos default]
      by_cases grabbed : m = .none ∧ policy = true
      · rw [if_neg (by simp [grabbed]), if_pos grabbed, List.append_nil]
        exact h
      · rw [if_pos (by rw [decide_eq_false grabbed]; rfl), if_neg grabbed]
        have cleared := h.then writes_encodingOff
        exact cleared
    · have nonzero : f.mouseEncoding ≠ 0 :=
        fun zero => default (mouseProtocol_zero.mp (encoding ▸ zero))
      have reset : ∃ protocol, Brings (out ++ if init ∧ last.mouseEncoding ≠ 0 then
          "\x1b[?".toList ++ decimal last.mouseEncoding ++ "l".toList else []) r₀
          (withMouse r.modes.mouseMode protocol r) := by
        by_cases other : init ∧ last.mouseEncoding ≠ 0
        · have some_ : le ≠ .normal := by
            rintro rfl
            exact other.2 (lastEncoding other.1)
          rw [if_pos other, lastEncoding other.1]
          have cleared := h.then (writes_mouseProtocol some_ false)
          exact ⟨.normal, cleared⟩
        · rw [if_neg other, List.append_nil]
          exact ⟨r.modes.mouseProtocol, h⟩
      obtain ⟨protocol, reset⟩ := reset
      rw [if_neg nonzero, if_neg default, ← List.append_assoc, encoding]
      have renewed := reset.then (writes_mouseProtocol default true)
      exact renewed
  · rw [if_neg written, List.append_nil, if_neg (mt renewed_iff.mpr written)]
    exact h

/-- The encoding comes out as called for. -/
theorem encodedProtocol_eq (protocol : MouseProtocol) (mode : f.mouseMode = m.decset.getD 0)
    (encoding : f.mouseEncoding = e.decset.getD 0)
    (lastMouse : init = true → last.mouseMode = lm.decset.getD 0 ∧
      last.mouseEncoding = le.decset.getD 0) {initialized : Bool}
    (init_eq : paintsOver initialized last f = init)
    (writes : WritesEncoding policy initialized last f)
    (shown : init = true → protocol = if lm = .none ∧ policy = true then .sgr else le) :
    encodedProtocol policy init m e le (grabbedProtocol policy init m lm protocol) =
      if m = .none ∧ policy = true then .sgr else e := by
  have same_eq (old : init = true) : f.mouseEncoding = last.mouseEncoding ↔ e = le := by
    rw [encoding, (lastMouse old).2]
    exact ⟨mouseProtocol_eq, fun same => by rw [same]⟩
  have sgr_iff : f.mouseEncoding = 1006 ↔ e = .sgr := by
    rw [encoding]
    cases e <;> decide
  have normal_iff : f.mouseEncoding = 0 ↔ e = .normal := by
    rw [encoding]
    exact mouseProtocol_zero
  have off_iff : f.mouseMode = 0 ↔ m = .none := by
    rw [mode]
    exact mouseMode_zero
  have lastOff (old : init = true) (off : lm = .none) : last.mouseMode = 0 :=
    (lastMouse old).1.trans (mouseMode_zero.mpr off)
  unfold WritesEncoding at writes
  rw [init_eq, sgr_iff, normal_iff] at writes
  unfold encodedProtocol grabbedProtocol
  by_cases grabbed : m = .none ∧ policy = true
  · obtain ⟨off, on⟩ := grabbed
    have kept := writes on
    rw [if_pos (off_iff.mpr off)] at kept
    have current : (if (init = false ∨ m ≠ lm) ∧ m = .none ∧ policy = true then
        MouseProtocol.sgr else protocol) = .sgr := by
      by_cases renewed : init = false ∨ m ≠ lm
      · exact if_pos ⟨renewed, off, on⟩
      · rw [if_neg fun all => renewed all.1]
        rw [not_or, Bool.not_eq_false, not_not] at renewed
        rw [shown renewed.1, if_pos ⟨renewed.2 ▸ off, on⟩]
    have called : (if m = .none ∧ policy = true then MouseProtocol.sgr else e) = .sgr :=
      if_pos ⟨off, on⟩
    rw [current, called]
    by_cases written : init = false ∨ e ≠ le
    · rw [if_pos written]
      rcases kept with normal | sgr | ⟨old, same⟩
      · rw [if_pos normal, if_pos ⟨off, on⟩]
      · rw [sgr]
        rfl
      · rcases written with fresh | differs
        · rw [old] at fresh
          cases fresh
        · exact absurd ((same_eq old).mp same) differs
    · rw [if_neg written]
  · have called : (if m = .none ∧ policy = true then MouseProtocol.sgr else e) = e := if_neg grabbed
    have current : (if (init = false ∨ m ≠ lm) ∧ m = .none ∧ policy = true then
        MouseProtocol.sgr else protocol) = protocol :=
      if_neg fun all => grabbed all.2
    rw [current, called]
    by_cases written : init = false ∨ e ≠ le
    · rw [if_pos written]
      by_cases normal : e = .normal
      · rw [if_pos normal, if_neg grabbed, normal]
      · rw [if_neg normal]
    · rw [if_neg written]
      rw [not_or, Bool.not_eq_false, not_not] at written
      obtain ⟨old, same⟩ := written
      rw [shown old]
      by_cases before : lm = .none ∧ policy = true
      · have kept := writes before.2
        rw [if_neg fun zero => grabbed ⟨off_iff.mp zero, before.2⟩] at kept
        rw [if_pos before, kept old (lastOff old before.1) ((same_eq old).mpr same)]
      · rw [if_neg before, same]

/-! ### Frames -/

theorem calledMode_decset (policy : Bool) (m : MouseMode) :
    (calledMode policy m).decset.getD 0 =
      if m.decset.getD 0 = 0 ∧ policy = true then 1000 else m.decset.getD 0 := by
  cases m <;> cases policy <;> decide

theorem calledProtocol_decset (policy : Bool) (m : MouseMode) (e : MouseProtocol) :
    (if m = .none ∧ policy = true then MouseProtocol.sgr else e).decset.getD 0 =
      if m.decset.getD 0 = 0 ∧ policy = true then 1006 else e.decset.getD 0 := by
  by_cases grabbed : m = .none ∧ policy = true
  · rw [if_pos grabbed, if_pos ⟨mouseMode_zero.mpr grabbed.1, grabbed.2⟩]
    rfl
  · rw [if_neg grabbed, if_neg fun both => grabbed ⟨mouseMode_zero.mp both.1, both.2⟩]

/-- A frame brings the outer terminal's modes to what it calls for. -/
theorem newFrame_synced {initialized : Bool} (renderable : f.Renderable)
    (before : initialized = true → last.Renderable)
    (writes : WritesEncoding policy initialized last f) {r : Registers}
    (tracked : initialized = true → Synced policy last r.title r.modes) :
    Guarded False (newFrame initialized last f (grabActive policy f)) fun out =>
      ∃ actions, Parser.Reads out actions ∧
        Synced policy f (r.afterAll actions).title (r.afterAll actions).modes := by
  have over_initialized : paintsOver initialized last f = true → initialized = true := by
    intro paints
    unfold paintsOver at paints
    simp only [Bool.and_eq_true] at paints
    exact paints.1.1
  have header := frameHeader_brings initialized last renderable (r := r)
    (fun old => ⟨(tracked old).title, (tracked old).reverseVideo⟩) last.cursorVisible
  have visible := frameHeader_cursorVisible initialized last f { cursorVisible := last.cursorVisible }
  unfold newFrame
  generalize frameHeader initialized last f { cursorVisible := last.cursorVisible } = frame at header visible
  dsimp only
  generalize init_eq : paintsOver initialized last f = init at over_initialized
  have started := @frameStart_paints _ _ _ last header init fun old => by
    have cursor := (tracked (over_initialized old)).cursorVisible
    change r.modes.cursorVisible = last.cursorVisible at cursor
    rw [visible, ← cursor]
    rfl
  refine (paint_paints started renderable init last).bind ?_
  intro painted paints
  have placed := frameCursor_brings paints init f
  have pasted := pasteAndKeys_brings init last f placed fun old =>
    have was := tracked (over_initialized old)
    ⟨was.bracketedPaste, was.cursorKeys, was.keypad⟩
  obtain ⟨m, mode⟩ := renderable.mouseMode
  obtain ⟨e, encoding⟩ := renderable.mouseEncoding
  have lastMouse : ∃ lm : MouseMode, ∃ le : MouseProtocol, init = true →
      last.mouseMode = lm.decset.getD 0 ∧ last.mouseEncoding = le.decset.getD 0 := by
    cases init with
    | false => exact ⟨.none, .normal, nofun⟩
    | true =>
      have valid := before (over_initialized rfl)
      obtain ⟨lm, lastMode⟩ := valid.mouseMode
      obtain ⟨le, lastEncoding⟩ := valid.mouseEncoding
      exact ⟨lm, le, fun _ => ⟨lastMode, lastEncoding⟩⟩
  obtain ⟨lm, le, lastMouse⟩ := lastMouse
  have moused := mouseModeSync_brings policy pasted mode (fun old => (lastMouse old).1)
    fun old => by
      have was := (tracked (over_initialized old)).mouseMode
      rw [(lastMouse old).1, ← calledMode_decset] at was
      exact mouseMode_eq was
  have focused := focusAndScroll_brings init last f moused fun old =>
    have was := tracked (over_initialized old)
    ⟨was.focusReporting, was.alternateScroll⟩
  obtain ⟨actions, reads, after⟩ := mouseEncodingSync_brings policy focused mode encoding
    fun old => (lastMouse old).2
  have protocol := encodedProtocol_eq r.modes.mouseProtocol mode encoding lastMouse
    init_eq writes fun old => by
      have was := (tracked (over_initialized old)).mouseEncoding
      rw [(lastMouse old).1, (lastMouse old).2, ← calledProtocol_decset] at was
      exact mouseProtocol_eq was
  refine .pure ⟨actions, ?_, ?_⟩
  · simpa only [List.append_assoc] using reads
  · rw [after]
    exact {
      title := rfl, reverseVideo := rfl, cursorKeys := rfl, keypad := rfl, bracketedPaste := rfl
      focusReporting := rfl, alternateScroll := rfl, cursorVisible := rfl
      mouseMode := by
        rw [mode, ← calledMode_decset]
        rfl
      mouseEncoding := by
        rw [mode, encoding, ← calledProtocol_decset, ← protocol]
        rfl }

/-! ### Runs -/

/-- The last frame rendered, and the outer terminal after it. -/
structure Rendering where
  shown : Snapshot
  outer : Terminal

/-- A frame is rendered and read by the outer terminal. -/
def render (files : Files) (policy initialized : Bool) (last f : Snapshot) (outer : Terminal) :
    Checked Terminal := do
  let out ← newFrame initialized last f (grabActive policy f)
  outer.process files out

/-- Frames rendered one after another onto `outer`, the first uninitialised, each of
them as `Meets` demands. -/
def rendering (files : Files) (policy : Bool) (outer : Terminal)
    (Meets : Bool → Snapshot → Snapshot → Prop) : Transition Rendering where
  init s := ∃ last, Meets false last s.shown ∧
    render files policy false last s.shown outer = .ok s.outer
  step s s' := ∃ initialized, Meets initialized s.shown s'.shown ∧
    render files policy initialized s.shown s'.shown s.outer = .ok s'.outer

/-- Read to its end, with the modes the frame calls for. -/
structure Shows (policy : Bool) (s : Rendering) : Prop where
  renderable : s.shown.Renderable
  synced : Synced policy s.shown s.outer.title s.outer.modes
  ready : Parser.Ready s.outer.parser
  clean : s.outer.Clean

/-- Frames the outer terminal's modes follow. -/
def Follows (policy initialized : Bool) (last f : Snapshot) : Prop :=
  f.Renderable ∧ WritesEncoding policy initialized last f

theorem Synced.ofRegisters {t : Terminal} {r : Registers} {title : List Char} {modes : Modes}
    (h : Synced policy f title modes) (registers : t.registers = r) (titles : title = r.title)
    (same : modes = r.modes) : Synced policy f t.title t.modes := by
  subst titles same registers
  exact {
    title := h.title, reverseVideo := h.reverseVideo, cursorKeys := h.cursorKeys
    keypad := h.keypad, bracketedPaste := h.bracketedPaste, focusReporting := h.focusReporting
    alternateScroll := h.alternateScroll, cursorVisible := h.cursorVisible
    mouseMode := h.mouseMode, mouseEncoding := h.mouseEncoding }

theorem Synced.registers {t : Terminal} (h : Synced policy f t.title t.modes) :
    Synced policy f t.registers.title t.registers.modes where
  title := h.title
  reverseVideo := h.reverseVideo
  cursorKeys := h.cursorKeys
  keypad := h.keypad
  bracketedPaste := h.bracketedPaste
  focusReporting := h.focusReporting
  alternateScroll := h.alternateScroll
  cursorVisible := h.cursorVisible
  mouseMode := h.mouseMode
  mouseEncoding := h.mouseEncoding

/-- One frame. -/
theorem render_shows {files : Files} {initialized : Bool} {outer outer' : Terminal}
    (follows : Follows policy initialized last f) (ready : Parser.Ready outer.parser)
    (clean : outer.Clean) (before : initialized = true → Shows policy ⟨last, outer⟩)
    (rendered : render files policy initialized last f outer = .ok outer') :
    Shows policy ⟨f, outer'⟩ := by
  have step := newFrame_synced (r := outer.registers) follows.1
    (fun old => (before old).renderable) follows.2 fun old => (before old).synced.registers
  unfold render at rendered
  cases drawn : newFrame initialized last f (grabActive policy f) with
  | error panic =>
    rw [drawn] at rendered
    cases rendered
  | ok out =>
    obtain ⟨actions, reads, synced⟩ := step.of_eq_ok drawn
    obtain ⟨q, ready', fed⟩ := reads outer.parser ready
    rw [drawn] at rendered
    obtain ⟨registers, clean'⟩ := (Terminal.process_does files fed clean).of_eq_ok rendered
    have parser : outer'.parser = q := congrArg Registers.parser registers
    exact {
      renderable := follows.1
      synced := synced.ofRegisters registers rfl rfl
      ready := parser ▸ ready'
      clean := clean' }

/-- After each frame the outer terminal's modes are the ones the frame calls for. -/
theorem modes_follow {files : Files} {outer : Terminal} (ready : Parser.Ready outer.parser)
    (clean : outer.Clean) {s : Rendering}
    (h : (rendering files policy outer (Follows policy)).Reachable s) :
    Synced policy s.shown s.outer.title s.outer.modes := by
  have shows : Shows policy s := by
    refine Transition.Invariant.reachable (I := Shows policy) ⟨?_, ?_⟩ h
    · rintro s ⟨last, follows, rendered⟩
      exact render_shows follows ready clean nofun rendered
    · rintro s s' before ⟨initialized, follows, rendered⟩
      exact render_shows follows before.ready before.clean (fun _ => before) rendered
  exact shows.synced

/-! ### The stale encoding -/

/-- A prompt. -/
def prompt : Snapshot :=
  .blank 1 3

/-- An application takes the mouse, with the encoding `n`. -/
def taken (n : Nat) : Snapshot :=
  { prompt with mouseMode := 1000, mouseEncoding := n }

def noFiles : Files :=
  fun _ => none

theorem prompt_renderable : prompt.Renderable where
  cells := by
    intro row mem c inside
    rw [List.eq_of_mem_replicate mem] at inside
    rw [List.eq_of_mem_replicate inside]
    exact graphic_blank _
  hyperlinks := fun _ mem => absurd mem List.not_mem_nil
  clipboardKinds := forall_of_all rfl
  title := fun _ mem => absurd mem List.not_mem_nil
  titleFits := by decide
  mouseMode := ⟨.none, rfl⟩
  mouseEncoding := ⟨.normal, rfl⟩

theorem taken_renderable (protocol : MouseProtocol) : (taken (protocol.decset.getD 0)).Renderable :=
  { prompt_renderable with
    mouseMode := ⟨.normal, rfl⟩, mouseEncoding := ⟨protocol, rfl⟩ }

theorem prompt_follows : Follows true false prompt prompt := by
  refine ⟨prompt_renderable, fun _ => ?_⟩
  rw [if_pos (show prompt.mouseMode = 0 from rfl)]
  exact .inl rfl

theorem taken_follows : Follows true true prompt (taken 1006) := by
  refine ⟨taken_renderable .sgr, fun _ => ?_⟩
  rw [if_neg (show (taken 1006).mouseMode ≠ 0 by decide)]
  exact fun _ _ _ => rfl

/-- A prompt under the grab, then an application that takes the mouse. -/
def takeover (n : Nat) : Checked (Terminal × Terminal) := do
  let outer ← render noFiles true false prompt prompt (Terminal.new 1 3)
  let outer' ← render noFiles true true prompt (taken n) outer
  return (outer, outer')

theorem takeover_steps {n : Nat} {outer outer' : Terminal} (h : takeover n = .ok (outer, outer')) :
    render noFiles true false prompt prompt (Terminal.new 1 3) = .ok outer ∧
      render noFiles true true prompt (taken n) outer = .ok outer' := by
  obtain ⟨t, first, rest⟩ := eq_ok_of_bind h
  obtain ⟨t', second, last⟩ := eq_ok_of_bind rest
  cases last
  exact ⟨first, second⟩

/-- The protocol the outer terminal has after a takeover. -/
def takeoverProtocol (n : Nat) : Option MouseProtocol :=
  (takeover n).toOption.map fun outers => outers.2.modes.mouseProtocol

/-- An application that takes the mouse with the default encoding gets SGR reports. -/
theorem grab_leaves_sgr : takeoverProtocol 0 = some .sgr := by
  decide +kernel

theorem exists_takeover {n : Nat} {protocol : MouseProtocol}
    (h : takeoverProtocol n = some protocol) : ∃ outer outer', takeover n = .ok (outer, outer') ∧
      outer'.modes.mouseProtocol = protocol := by
  unfold takeoverProtocol at h
  cases run : takeover n with
  | error panic =>
    rw [run] at h
    cases h
  | ok outers =>
    rw [run] at h
    exact ⟨outers.1, outers.2, rfl, Option.some.inj h⟩

/-- The takeover with SGR reports asked for, which the grab had set. -/
theorem sgr_takeover : takeoverProtocol 1006 = some .sgr := by
  decide +kernel

theorem modes_follow_takeover : ∃ outer outer', takeover 1006 = .ok (outer, outer') ∧
    Synced true (taken 1006) outer'.title outer'.modes := by
  obtain ⟨outer, outer', run, _⟩ := exists_takeover sgr_takeover
  obtain ⟨first, second⟩ := takeover_steps run
  have start : (rendering noFiles true (Terminal.new 1 3) (Follows true)).init ⟨prompt, outer⟩ :=
    ⟨prompt, prompt_follows, first⟩
  have step : (rendering noFiles true (Terminal.new 1 3) (Follows true)).step ⟨prompt, outer⟩
      ⟨taken 1006, outer'⟩ :=
    ⟨true, taken_follows, second⟩
  have synced := modes_follow Parser.ready_new (Terminal.clean_new 1 3)
    ((Transition.Reachable.of_init start).tail step)
  exact ⟨outer, outer', run, synced⟩

/-- Not every frame is followed: the encoding of the grab outlives it. -/
theorem modes_stay_behind : ¬ ∀ (files : Files) (policy : Bool) (outer : Terminal) (s : Rendering),
    Parser.Ready outer.parser → outer.Clean →
      (rendering files policy outer fun _ _ f => f.Renderable).Reachable s →
        Synced policy s.shown s.outer.title s.outer.modes := by
  intro all
  obtain ⟨outer, outer', run, sgr⟩ := exists_takeover grab_leaves_sgr
  obtain ⟨first, second⟩ := takeover_steps run
  have start : (rendering noFiles true (Terminal.new 1 3) fun _ _ f => f.Renderable).init
      ⟨prompt, outer⟩ :=
    ⟨prompt, prompt_renderable, first⟩
  have step : (rendering noFiles true (Terminal.new 1 3) fun _ _ f => f.Renderable).step
      ⟨prompt, outer⟩ ⟨taken 0, outer'⟩ :=
    ⟨true, taken_renderable .normal, second⟩
  have synced := all noFiles true (Terminal.new 1 3) ⟨taken 0, outer'⟩ Parser.ready_new
    (Terminal.clean_new 1 3) ((Transition.Reachable.of_init start).tail step)
  have encoding : outer'.modes.mouseProtocol.decset.getD 0 = 0 := synced.mouseEncoding
  rw [sgr] at encoding
  exact absurd encoding (by decide)

end Posh.Remote.Display
