import Posh.Term.Dump
import Posh.Term.Streams

/-!
What a written text does to the registers of the terminal that reads it.

`Writes text f` says that a terminal in ground reads all of `text`, is in ground
again, and has done `f` to its registers. Rendered texts are put together from
controls, cells and sequences, and so are their effects; most pieces are quiet.
-/

namespace Posh.Term

open Posh.Lib

/-! ### Bytes of ASCII text -/

theorem toUtf8_singleton {c : Char} (ascii : c.toNat < 0x80) :
    ∃ b : UInt8, toUtf8 [c] = [b] ∧ b.toNat = c.toNat := by
  refine ⟨UInt8.ofNat c.toNat, toUtf8_ascii (by simpa using ascii), ?_⟩
  rw [UInt8.toNat_ofNat']
  omega

/-- What holds of the characters of an ASCII text holds of its bytes. -/
theorem bytes_of_chars {P : Nat → Prop} {s : List Char}
    (chars : ∀ c ∈ s, c.toNat < 0x80 ∧ P c.toNat) : ∀ b ∈ toUtf8 s, P b.toNat := by
  intro b mem
  obtain ⟨c, inside, byte⟩ := List.mem_flatMap.mp mem
  obtain ⟨ascii, holds⟩ := chars c inside
  obtain ⟨b', encoded, value⟩ := toUtf8_singleton ascii
  rw [toUtf8, List.flatMap_singleton] at encoded
  rw [encoded] at byte
  rw [List.mem_singleton.mp byte, value]
  exact holds

theorem graphic_toUtf8 {s : List Char} (graphic : ∀ c ∈ s, Graphic c) :
    ∀ b ∈ toUtf8 s, 0x20 ≤ b.toNat := by
  intro b mem
  obtain ⟨c, inside, byte⟩ := List.mem_flatMap.mp mem
  have := graphic c inside
  unfold Graphic at this
  rcases mem_utf8EncodeChar byte with same | high
  · omega
  · omega

/-- A character of a parameter list. -/
def IsParamChar (c : Char) : Prop :=
  0x30 ≤ c.toNat ∧ c.toNat ≤ 0x3B

instance : DecidablePred IsParamChar :=
  fun c => inferInstanceAs (Decidable (0x30 ≤ c.toNat ∧ c.toNat ≤ 0x3B))

theorem paramBytes {s : List Char} (params : ∀ c ∈ s, IsParamChar c) :
    ∀ b ∈ toUtf8 s, Parser.IsParamByte b := by
  have ascii : ∀ c ∈ s, c.toNat < 0x80 ∧ (0x30 ≤ c.toNat ∧ c.toNat ≤ 0x3B) := by
    intro c mem
    obtain ⟨low, high⟩ := params c mem
    exact ⟨by omega, low, high⟩
  exact bytes_of_chars (P := fun n => 0x30 ≤ n ∧ n ≤ 0x3B) ascii

theorem isDigit_decimal (n : Nat) : ∀ c ∈ decimal n, c.isDigit = true :=
  fun c mem => Nat.isDigit_of_mem_toDigits (by decide) (by decide) mem

theorem paramChar_decimal (n : Nat) : ∀ c ∈ decimal n, IsParamChar c := by
  intro c mem
  have digit := isDigit_decimal n c mem
  simp only [Char.isDigit, Bool.and_eq_true, decide_eq_true_eq, UInt32.le_iff_toNat_le] at digit
  obtain ⟨low, high⟩ := digit
  exact ⟨low, Nat.le_trans high (by decide)⟩

/-! ### Texts -/

/-- Written to a terminal in ground, `text` does `f` to the registers. -/
def Writes (text : List Char) (f : Registers → Registers) : Prop :=
  ∃ actions, Parser.Reads (toUtf8 text) actions ∧ ∀ r : Registers, r.afterAll actions = f r

/-- It leaves the registers alone. -/
def Quiet (text : List Char) : Prop :=
  Writes text id

theorem quiet_nil : Quiet [] :=
  ⟨[], .nil, fun _ => rfl⟩

theorem Writes.append {a b : List Char} {f g : Registers → Registers} (ha : Writes a f)
    (hb : Writes b g) : Writes (a ++ b) (g ∘ f) := by
  obtain ⟨before, reads_a, does_a⟩ := ha
  obtain ⟨later, reads_b, does_b⟩ := hb
  refine ⟨before ++ later, ?_, ?_⟩
  · rw [toUtf8_append]
    exact reads_a.append reads_b
  · intro r
    rw [Registers.afterAll_append, does_a, does_b]
    rfl

theorem Quiet.append {a b : List Char} (ha : Quiet a) (hb : Quiet b) : Quiet (a ++ b) :=
  Writes.append ha hb

theorem Writes.quiet {a b : List Char} {f : Registers → Registers} (ha : Writes a f)
    (hb : Quiet b) : Writes (a ++ b) f :=
  ha.append hb

theorem Quiet.writes {a b : List Char} {f : Registers → Registers} (ha : Quiet a)
    (hb : Writes b f) : Writes (a ++ b) f :=
  Writes.append ha hb

theorem Writes.of_eq {text : List Char} {f g : Registers → Registers} (h : Writes text f)
    (same : ∀ r, f r = g r) : Writes text g := by
  obtain ⟨actions, reads, does⟩ := h
  exact ⟨actions, reads, fun r => (does r).trans (same r)⟩

theorem quiet_if {c : Prop} [Decidable c] {text : List Char} (h : Quiet text) :
    Quiet (if c then text else []) := by
  split
  · exact h
  · exact quiet_nil

/-! ### Characters -/

/-- A control but ESC. -/
theorem quiet_control {c : Char} (control : c.toNat ≤ 0x1F) (escape : c.toNat ≠ 0x1B) : Quiet [c] := by
  obtain ⟨b, encoded, value⟩ := toUtf8_singleton (c := c) (by omega)
  refine ⟨[.execute b], ?_, fun _ => rfl⟩
  rw [encoded]
  exact Parser.reads_control (by omega) (by omega)

theorem quiet_char {c : Char} (graphic : Graphic c) : Quiet [c] := by
  by_cases delete : c = '\x7f'
  · subst delete
    exact ⟨[], Parser.reads_delete, fun _ => rfl⟩
  · have notDelete : c.toNat ≠ 0x7F := by
      intro same
      exact delete (Char.toNat_inj.mp same)
    refine ⟨[.print c], ?_, fun _ => rfl⟩
    rw [toUtf8, List.flatMap_singleton]
    exact Parser.reads_char graphic notDelete

theorem quiet_chars {s : List Char} (graphic : ∀ c ∈ s, Graphic c) : Quiet s := by
  induction s with
  | nil => exact quiet_nil
  | cons c s ih =>
    exact (quiet_char (graphic c List.mem_cons_self)).append
      (ih fun x mem => graphic x (List.mem_cons_of_mem _ mem))

theorem quiet_replicate {c : Char} (h : Quiet [c]) (n : Nat) : Quiet (List.replicate n c) := by
  induction n with
  | zero => exact quiet_nil
  | succ n ih => exact h.append ih

/-! ### Control sequences -/

theorem writes_csi {body : List Char} {final : Char} (params : ∀ c ∈ body, IsParamChar c)
    (isFinal : 0x40 ≤ final.toNat ∧ final.toNat ≤ 0x7E) :
    Writes ("\x1b[".toList ++ body ++ [final])
      (·.afterCsi (Parser.paramsOf (toUtf8 body)) [] 0 (UInt8.ofNat final.toNat)) := by
  obtain ⟨b, encoded, value⟩ := toUtf8_singleton (c := final) (by omega)
  have same : UInt8.ofNat final.toNat = b := by
    rw [← value]
    exact UInt8.ofNat_toNat
  refine ⟨[.csi (Parser.paramsOf (toUtf8 body)) [] 0 b], ?_, fun r => by rw [same]; rfl⟩
  rw [toUtf8_append, toUtf8_append, encoded, List.append_assoc]
  exact (Parser.continues_csi (paramBytes params) (by omega) (by omega)).reads

theorem writes_csiMarked {body : List Char} {final : Char} (params : ∀ c ∈ body, IsParamChar c)
    (isFinal : 0x40 ≤ final.toNat ∧ final.toNat ≤ 0x7E) :
    Writes ("\x1b[?".toList ++ body ++ [final])
      (·.afterCsi (Parser.paramsOf (toUtf8 body)) [] 0x3F (UInt8.ofNat final.toNat)) := by
  obtain ⟨b, encoded, value⟩ := toUtf8_singleton (c := final) (by omega)
  have same : UInt8.ofNat final.toNat = b := by
    rw [← value]
    exact UInt8.ofNat_toNat
  refine ⟨[.csi (Parser.paramsOf (toUtf8 body)) [] 0x3F b], ?_, fun r => by rw [same]; rfl⟩
  rw [toUtf8_append, toUtf8_append, encoded, List.append_assoc]
  exact (@Parser.continues_csiMarked _ 0x3F _ (by decide) (paramBytes params) (by omega)
    (by omega)).reads

/-- No mode is set or reset by a sequence without marker that is neither SM nor RM. -/
theorem afterCsi_other {final : Char} (params : Params) (small : final.toNat < 256)
    (set : final ≠ 'h') (reset : final ≠ 'l') (r : Registers) :
    r.afterCsi params [] 0 (UInt8.ofNat final.toNat) = r := by
  have same : Char.ofNat (UInt8.ofNat final.toNat).toNat = final := by
    rw [toNat_ofNat_small small, Char.ofNat_toNat]
  change r.afterPlain params _ = r
  rw [same]
  unfold Registers.afterPlain
  split
  · contradiction
  · contradiction
  · rfl

theorem quiet_csi (body : List Char) (final : Char) (params : ∀ c ∈ body, IsParamChar c)
    (isFinal : 0x40 ≤ final.toNat ∧ final.toNat ≤ 0x7E) (set : final ≠ 'h') (reset : final ≠ 'l') :
    Quiet ("\x1b[".toList ++ body ++ [final]) :=
  (writes_csi params isFinal).of_eq fun r => afterCsi_other _ (by omega) set reset r

/-- A sequence with an intermediate byte, DECSTR aside. -/
theorem quiet_csiWith {body : List Char} {i final : Char} (params : ∀ c ∈ body, IsParamChar c)
    (inter : 0x20 ≤ i.toNat ∧ i.toNat ≤ 0x2F) (isFinal : 0x40 ≤ final.toNat ∧ final.toNat ≤ 0x7E)
    (other : i ≠ '!') : Quiet ("\x1b[".toList ++ body ++ [i, final]) := by
  obtain ⟨b, encoded, value⟩ := toUtf8_singleton (c := final) (by omega)
  obtain ⟨i', encoded', value'⟩ := toUtf8_singleton (c := i) (by omega)
  refine ⟨[.csi (Parser.paramsOf (toUtf8 body)) [i'] 0 b], ?_, ?_⟩
  · have both : toUtf8 [i, final] = [i', b] := by
      change toUtf8 ([i] ++ [final]) = _
      rw [toUtf8_append, encoded, encoded']
      rfl
    rw [toUtf8_append, toUtf8_append, both, List.append_assoc]
    exact (Parser.continues_csiWith (paramBytes params) (by omega) (by omega) (by omega)).reads
  · intro r
    have same : Char.ofNat i'.toNat = i := by
      rw [value', Char.ofNat_toNat]
    change r.afterWith (Char.ofNat i'.toNat) (Char.ofNat b.toNat) = r
    rw [same]
    unfold Registers.afterWith
    split
    · contradiction
    · rfl

/-- DECSET and DECRST. -/
def decset (n : Nat) (set : Bool) : List Char :=
  "\x1b[?".toList ++ decimal n ++ [if set then 'h' else 'l']

theorem writes_decset {n : Nat} (set : Bool)
    (spelled : Parser.paramsOf (toUtf8 (decimal n)) = [[n]]) :
    Writes (decset n set) (·.afterDec n set) := by
  have final : 0x40 ≤ (if set then 'h' else 'l').toNat ∧ (if set then 'h' else 'l').toNat ≤ 0x7E := by
    cases set <;> decide
  refine (writes_csiMarked (paramChar_decimal n) final).of_eq ?_
  intro r
  rw [spelled]
  cases set <;> rfl

/-! ### Escape sequences -/

theorem writes_final {c : Char} (low : 0x30 ≤ c.toNat) (high : c.toNat ≤ 0x7E)
    (plain : c ∉ "[]P_X^".toList) :
    Writes ['\x1b', c] (·.afterEsc [] (UInt8.ofNat c.toNat)) := by
  obtain ⟨b, encoded, value⟩ := toUtf8_singleton (c := c) (by omega)
  have same : UInt8.ofNat c.toNat = b := by
    rw [← value]
    exact UInt8.ofNat_toNat
  refine ⟨[.esc [] b], ?_, fun r => by rw [same]; rfl⟩
  change Parser.Reads (toUtf8 (['\x1b'] ++ [c])) _
  rw [toUtf8_append, encoded]
  refine (Parser.continues_final (b := b) (by omega) (by omega) ?_).reads
  rw [value]
  intro mem
  obtain ⟨c', inside, eq⟩ := List.mem_map.mp mem
  exact plain (Char.toNat_inj.mp eq ▸ inside)

/-! ### Strings -/

theorem writes_osc {text : List Char} (graphic : ∀ c ∈ text, Graphic c) :
    Writes ("\x1b]".toList ++ text ++ "\x07".toList)
      fun r => if utf8Length text ≤ MAX_OSC then r.afterOsc (toUtf8 text) else r := by
  refine ⟨Parser.stringAction (toUtf8 text) MAX_OSC (.osc · true), ?_, ?_⟩
  · rw [toUtf8_append, toUtf8_append, List.append_assoc]
    exact (Parser.continues_osc (graphic_toUtf8 graphic)).reads
  · intro r
    unfold Parser.stringAction
    rw [length_toUtf8]
    split <;> rfl

theorem writes_osc_st {text : List Char} (graphic : ∀ c ∈ text, Graphic c) :
    Writes ("\x1b]".toList ++ text ++ "\x1b\\".toList)
      fun r => if utf8Length text ≤ MAX_OSC then r.afterOsc (toUtf8 text) else r := by
  refine ⟨Parser.stringAction (toUtf8 text) MAX_OSC (.osc · false) ++ [.esc [] 0x5C], ?_, ?_⟩
  · rw [toUtf8_append, toUtf8_append, List.append_assoc]
    exact (Parser.continues_osc_st (graphic_toUtf8 graphic)).reads
  · intro r
    unfold Parser.stringAction
    rw [length_toUtf8]
    split <;> rfl

/-- An APC string acts on graphics alone. -/
theorem quiet_apc {text : List Char} (graphic : ∀ c ∈ text, Graphic c) :
    Quiet ("\x1b_".toList ++ text ++ "\x1b\\".toList) := by
  refine ⟨Parser.stringAction (toUtf8 text) MAX_APC .apc ++ [.esc [] 0x5C], ?_, ?_⟩
  · rw [toUtf8_append, toUtf8_append, List.append_assoc]
    exact (Parser.continues_apc (graphic_toUtf8 graphic)).reads
  · intro r
    unfold Parser.stringAction
    split <;> rfl

/-- The number before the first semicolon is the command. -/
theorem afterOsc_toUtf8 (code : List Char) {rest : List Char} (absent : ';' ∉ code) (r : Registers) :
    r.afterOsc (toUtf8 (code ++ ';' :: rest)) =
      match parseU16 code with
      | some 0 => { r with title := rest }
      | some 2 => { r with title := rest }
      | _ => r := by
  unfold Registers.afterOsc
  dsimp only
  rw [fromUtf8Lossy_toUtf8, splitOnce_append absent]
  rfl

/-- OSC strings that do not set the title. -/
theorem quiet_osc_st (code : List Char) {rest : List Char} (absent : ';' ∉ code) {n : Nat}
    (command : parseU16 code = some n) (other : n ≠ 0 ∧ n ≠ 2)
    (graphic : ∀ c ∈ code ++ ';' :: rest, Graphic c) :
    Quiet ("\x1b]".toList ++ (code ++ ';' :: rest) ++ "\x1b\\".toList) := by
  refine (writes_osc_st graphic).of_eq ?_
  intro r
  rw [afterOsc_toUtf8 code absent, command]
  split
  · split
    · rename_i eq
      exact absurd (Option.some.inj eq) other.1
    · rename_i eq
      exact absurd (Option.some.inj eq) other.2
    · rfl
  · rfl

/-- A written title, if it fits. -/
theorem writes_title {title : List Char} (graphic : ∀ c ∈ title, Graphic c)
    (fits : utf8Length title + 2 ≤ MAX_OSC) :
    Writes ("\x1b]0;".toList ++ title ++ "\x07".toList) fun r => { r with title } := by
  have all : ∀ c ∈ '0' :: ';' :: title, Graphic c := by
    intro c mem
    simp only [List.mem_cons] at mem
    rcases mem with rfl | rfl | mem
    · decide
    · decide
    · exact graphic c mem
  refine (writes_osc all).of_eq ?_
  intro r
  have size : utf8Length ('0' :: ';' :: title) = utf8Length title + 2 := by
    have zero : Char.utf8Size '0' = 1 := by decide
    have semicolon : Char.utf8Size ';' = 1 := by decide
    rw [utf8Length_cons, utf8Length_cons, zero, semicolon]
    omega
  rw [size, if_pos fits]
  exact afterOsc_toUtf8 ['0'] (by decide) r

/-! ### Registers before and after -/

namespace Registers

def withCursor (visible : Bool) (r : Registers) : Registers :=
  { r with modes.cursorVisible := visible }

@[simp] theorem withCursor_withCursor (v v' : Bool) (r : Registers) :
    (r.withCursor v).withCursor v' = r.withCursor v' :=
  rfl

end Registers

/-- A terminal in ground with registers `r₀` reads `text` and then has registers `r`. -/
def Brings (text : List Char) (r₀ r : Registers) : Prop :=
  ∃ actions, Parser.Reads (toUtf8 text) actions ∧ r₀.afterAll actions = r

theorem Brings.nil (r : Registers) : Brings [] r r :=
  ⟨[], .nil, rfl⟩

theorem Brings.then {a b : List Char} {f : Registers → Registers} {r₀ r : Registers}
    (ha : Brings a r₀ r) (hb : Writes b f) : Brings (a ++ b) r₀ (f r) := by
  obtain ⟨before, reads_a, does_a⟩ := ha
  obtain ⟨later, reads_b, does_b⟩ := hb
  refine ⟨before ++ later, ?_, ?_⟩
  · rw [toUtf8_append]
    exact reads_a.append reads_b
  · rw [Registers.afterAll_append, does_a, does_b]

/-! ### Pieces of frames -/

/-- The parameters of a sequence put together from literals and numbers. -/
theorem params_append {a b : List Char} (ha : ∀ c ∈ a, IsParamChar c) (hb : ∀ c ∈ b, IsParamChar c) :
    ∀ c ∈ a ++ b, IsParamChar c := by
  intro c mem
  rcases List.mem_append.mp mem with left | right
  · exact ha c left
  · exact hb c right

theorem params_textIf (flag : Bool) (text : String) (h : ∀ c ∈ text.toList, IsParamChar c) :
    ∀ c ∈ textIf flag text, IsParamChar c := by
  unfold textIf
  split
  · exact h
  · exact fun c mem => absurd mem List.not_mem_nil

theorem params_colorParams (base bright extended : Nat) (c : Color) :
    ∀ ch ∈ colorParams base bright extended c, IsParamChar ch := by
  have semicolon : ∀ c ∈ ";".toList, IsParamChar c := forall_of_all rfl
  have indexed : ∀ c ∈ ";5;".toList, IsParamChar c := forall_of_all rfl
  have direct : ∀ c ∈ ";2;".toList, IsParamChar c := forall_of_all rfl
  have number := paramChar_decimal
  cases c with
  | default => exact fun c mem => absurd mem List.not_mem_nil
  | indexed i =>
    unfold colorParams
    dsimp only
    split
    · exact params_append semicolon (number _)
    split
    · exact params_append semicolon (number _)
    · exact params_append (params_append (params_append semicolon (number _)) indexed) (number _)
  | rgb r g b =>
    exact params_append (params_append (params_append (params_append (params_append (params_append
      (params_append semicolon (number _)) direct) (number _)) semicolon) (number _)) semicolon)
      (number _)

theorem params_underlineColorParams (c : Color) :
    ∀ ch ∈ underlineColorParams c, IsParamChar ch := by
  have indexed : ∀ c ∈ ";58:5:".toList, IsParamChar c := forall_of_all rfl
  have direct : ∀ c ∈ ";58:2:".toList, IsParamChar c := forall_of_all rfl
  have colon : ∀ c ∈ ":".toList, IsParamChar c := forall_of_all rfl
  have number := paramChar_decimal
  cases c with
  | default => exact fun c mem => absurd mem List.not_mem_nil
  | indexed i => exact params_append indexed (number _)
  | rgb r g b =>
    exact params_append (params_append (params_append (params_append (params_append direct
      (number _)) colon) (number _)) colon) (number _)

theorem params_sgrParams (style : Style) : ∀ c ∈ sgrParams style, IsParamChar c := by
  have underline : ∀ u, ∀ c ∈ underlineParams u, IsParamChar c := by
    intro u
    cases u <;> exact forall_of_all rfl
  have zero : ∀ c ∈ "0".toList, IsParamChar c := forall_of_all rfl
  have attributes := params_append (params_append (params_append (params_append (params_append
    (params_append (params_append (params_append (params_append zero
    (params_textIf style.bold ";1" (forall_of_all rfl)))
    (params_textIf style.dim ";2" (forall_of_all rfl)))
    (params_textIf style.italic ";3" (forall_of_all rfl)))
    (underline style.underline))
    (params_textIf style.blink ";5" (forall_of_all rfl)))
    (params_textIf style.inverse ";7" (forall_of_all rfl)))
    (params_textIf style.invisible ";8" (forall_of_all rfl)))
    (params_textIf style.strikethrough ";9" (forall_of_all rfl)))
    (params_colorParams 30 90 38 style.fg)
  exact params_append (params_append attributes (params_colorParams 40 100 48 style.bg))
    (params_underlineColorParams style.underlineColor)

theorem quiet_emitSgr (style : Style) : Quiet (emitSgr style) :=
  quiet_csi _ 'm' (params_sgrParams style) (by decide) (by decide) (by decide)

/-- An opened or closed link. -/
theorem quiet_link (params : List Char) {uri : List Char} (paramsGraphic : ∀ c ∈ params, Graphic c)
    (uriGraphic : ∀ c ∈ uri, Graphic c) :
    Quiet ("\x1b]8;".toList ++ params ++ ";".toList ++ uri ++ "\x1b\\".toList) := by
  have graphic : ∀ c ∈ ['8'] ++ ';' :: (params ++ ';' :: uri), Graphic c := by
    intro c mem
    simp only [List.mem_append, List.mem_cons, List.not_mem_nil, or_false] at mem
    rcases mem with rfl | rfl | inside | rfl | inside
    · decide
    · decide
    · exact paramsGraphic c inside
    · decide
    · exact uriGraphic c inside
  have quiet := quiet_osc_st ['8'] (n := 8) (by decide) (by decide) (by decide) graphic
  simpa [List.append_assoc] using quiet

theorem quiet_position (row col : Nat) :
    Quiet ("\x1b[".toList ++ decimal row ++ ";".toList ++ decimal col ++ "H".toList) := by
  have params := params_append (params_append (paramChar_decimal row)
    (show ∀ c ∈ ";".toList, IsParamChar c from forall_of_all rfl)) (paramChar_decimal col)
  have quiet := quiet_csi _ 'H' params (by decide) (by decide) (by decide)
  simpa [List.append_assoc] using quiet

theorem quiet_region (top bot : Nat) :
    Quiet ("\x1b[".toList ++ decimal top ++ ";".toList ++ decimal bot ++ "r".toList) := by
  have params := params_append (params_append (paramChar_decimal top)
    (show ∀ c ∈ ";".toList, IsParamChar c from forall_of_all rfl)) (paramChar_decimal bot)
  have quiet := quiet_csi _ 'r' params (by decide) (by decide) (by decide)
  simpa [List.append_assoc] using quiet

/-- The characters of a cell that is shown. -/
theorem graphic_shown {cell : Cell} (graphic : cell.Graphic) :
    ∀ c ∈ (if cell.ch = '\x00' then ' ' else cell.ch) :: cell.extra, Graphic c := by
  intro c mem
  rcases List.mem_cons.mp mem with rfl | extra
  · split
    · decide
    · rename_i written
      exact graphic.ch.resolve_left written
  · exact graphic.extra c extra

theorem quiet_shownChar {cell : Cell} (graphic : cell.Graphic) :
    Quiet ((if cell.ch = '\x00' then ' ' else cell.ch) :: cell.extra) :=
  quiet_chars (graphic_shown graphic)

end Posh.Term
