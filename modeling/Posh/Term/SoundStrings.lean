import Posh.Term.Dcs
import Posh.Term.Osc
import Posh.Term.Sound

/-!
OSC and DCS strings keep a terminal well formed, and when they do not panic: the
byte slices of the colour specs, of the percent escapes and of the hex names have to
end on character boundaries, and a new hyperlink needs a number.
-/

namespace Posh.Term

open Posh.Lib

/-! ### Fields of a string -/

/-- Byte `i` of `whole` is where `s` starts. -/
def StartsAt (whole : List Char) (i : Nat) (s : List Char) : Prop :=
  ∃ pre, whole = pre ++ s ∧ utf8Length pre = i

theorem StartsAt.whole (s : List Char) : StartsAt s 0 s :=
  ⟨[], rfl, rfl⟩

theorem StartsAt.advance {whole s part : List Char} {i n : Nat} (h : StartsAt whole i s)
    (taken : takeUtf8 s n = some part) : StartsAt whole (i + n) (s.drop part.length) := by
  obtain ⟨pre, split, length⟩ := h
  obtain ⟨size, split'⟩ := takeUtf8_spec taken
  refine ⟨pre ++ part, ?_, by rw [utf8Length_append, length, size]⟩
  rw [List.append_assoc, ← split', split]

theorem StartsAt.strSlice {whole s : List Char} {i : Nat} (h : StartsAt whole i s) (n : Nat) :
    Guarded ((takeUtf8 s n).isSome = true) (Lib.strSlice whole i (i + n))
      fun part => takeUtf8 s n = some part := by
  obtain ⟨pre, rfl, rfl⟩ := h
  rw [strSlice_append]
  cases taken : takeUtf8 s n with
  | some part => exact .ok rfl
  | none => exact .error nofun

/-- Each of the next `count` fields of `n` bytes ends on a character boundary, up to
the first one that is no hexadecimal number. -/
def fieldsClean (n : Nat) : (count : Nat) → List Char → Bool
  | 0, _ => true
  | count + 1, s =>
      match takeUtf8 s n with
      | some field =>
          (fromStrRadix 255 16 field).isNone || fieldsClean n count (s.drop field.length)
      | none => false

theorem hexField_returns {hex s : List Char} {i n count : Nat} {c : Prop}
    (start : StartsAt hex i s) (clean : c → fieldsClean n (count + 1) s = true) :
    Returns c (hexField hex i n) fun v => ∃ field, takeUtf8 s n = some field ∧
      fromStrRadix 255 16 field = some v ∧
      (c → fieldsClean n count (s.drop field.length) = true) := by
  have sliced : Guarded c (strSlice hex i (i + n)) fun part => takeUtf8 s n = some part := by
    refine (start.strSlice n).weaken ?_
    intro holds
    have clean := clean holds
    unfold fieldsClean at clean
    split at clean
    · rename_i taken
      rw [taken]
      rfl
    · cases clean
  refine (Returns.lift sliced).bind ?_
  intro field taken
  refine Returns.ofOption ?_
  intro v value
  refine ⟨field, taken, value, ?_⟩
  intro holds
  have clean := clean holds
  rw [fieldsClean, taken] at clean
  simpa [value] using clean

/-! ### Colour specs -/

/-- A `#` spec whose fields can be sliced as far as they are read. -/
def hashClean (hex : List Char) : Bool :=
  match utf8Length hex with
  | 3 => fieldsClean 1 3 hex
  | 6 => fieldsClean 2 3 hex
  | _ => true

def specClean (spec : List Char) : Bool :=
  match stripPrefix "rgb:".toList spec with
  | some _ => true
  | none => ((stripPrefix ['#'] spec).map hashClean).getD true

/-- A digit fits a byte when it is scaled. -/
theorem hexDigit_returns {hex s : List Char} {i count : Nat} {c : Prop}
    (start : StartsAt hex i s) (clean : c → fieldsClean 1 (count + 1) s = true) :
    Returns c (hexDigit hex i) fun _ => ∃ s', StartsAt hex (i + 1) s' ∧
      (c → fieldsClean 1 count s' = true) := by
  refine (hexField_returns start clean).bind ?_
  rintro v ⟨field, taken, value, clean'⟩
  have short : field.length ≤ 1 := by
    have := length_le_utf8Length field
    have := (takeUtf8_spec taken).1
    omega
  have small : v < 16 :=
    Nat.lt_of_lt_of_le (fromStrRadix_lt (by decide) value).1
      (Nat.pow_le_pow_right (by decide) short)
  refine (Returns.lift (.of_yields (Yields.mul (by omega)))).bind ?_
  intro byte _
  exact .pure ⟨_, start.advance taken, clean'⟩

theorem hashSpec_returns (hex : List Char) :
    Returns (hashClean hex = true) (hashSpec hex) fun _ => True := by
  unfold hashSpec hashClean
  generalize utf8Length hex = length
  match length with
  | 3 =>
    refine (hexDigit_returns (.whole hex) id).bind ?_
    rintro r ⟨s₁, start₁, clean₁⟩
    refine (hexDigit_returns start₁ clean₁).bind ?_
    rintro g ⟨s₂, start₂, clean₂⟩
    refine (hexDigit_returns start₂ clean₂).bind ?_
    intro b _
    exact .pure trivial
  | 6 =>
    refine (hexField_returns (.whole hex) id).bind ?_
    rintro r ⟨field₁, taken₁, _, clean₁⟩
    have start₁ := (StartsAt.whole hex).advance taken₁
    refine (hexField_returns start₁ clean₁).bind ?_
    rintro g ⟨field₂, taken₂, _, clean₂⟩
    refine (hexField_returns (start₁.advance taken₂) clean₂).bind ?_
    intro b _
    exact .pure trivial
  | 0 | 1 | 2 | 4 | 5 | _ + 7 => exact .fail ()

theorem colorChannel_returns (c : Prop) (chan : List Char) :
    Returns c (colorChannel chan) fun _ => True := by
  unfold colorChannel
  split
  · exact .fail ()
  · rename_i short
    have short : utf8Length chan ≤ 4 := by
      simp only [Bool.or_eq_true, decide_eq_true_eq, not_or, Nat.not_lt] at short
      exact short.2
    have pos : 0 < 2 ^ (4 * utf8Length chan) := Nat.two_pow_pos _
    have most : 2 ^ (4 * utf8Length chan) ≤ 2 ^ 16 := Nat.pow_le_pow_right (by decide) (by omega)
    refine Returns.bind (p := (· < 16 ^ 4)) (Returns.ofOption ?_) ?_
    · intro v value
      refine Nat.lt_of_lt_of_le (fromStrRadix_lt (by decide) value).1
        (Nat.pow_le_pow_right (by decide) ?_)
      exact Nat.le_trans (length_le_utf8Length chan) short
    · intro v small
      refine (Returns.lift (.of_yields (Yields.sub pos))).bind ?_
      rintro max rfl
      refine (Returns.lift (.of_yields (Yields.mul (by omega)))).bind ?_
      rintro scaled rfl
      refine (Returns.lift (.of_yields (Yields.add (by omega)))).bind ?_
      intro rounded _
      exact .pure trivial

theorem rgbSpec_returns (c : Prop) (rest : List Char) : Returns c (rgbSpec rest) fun _ => True := by
  unfold rgbSpec
  split
  · exact .fail ()
  · rename_i r chans _
    refine (colorChannel_returns c r).bind ?_
    intro r _
    cases chans with
    | nil => exact .fail ()
    | cons g chans =>
      refine (colorChannel_returns c g).bind ?_
      intro g _
      cases chans with
      | nil => exact .fail ()
      | cons b chans =>
        refine (colorChannel_returns c b).bind ?_
        intro b _
        split
        · exact .pure trivial
        · exact .fail ()

theorem parseColorSpec_returns (spec : List Char) :
    Returns (specClean spec = true) (parseColorSpec spec) fun _ => True := by
  unfold parseColorSpec specClean
  cases stripPrefix "rgb:".toList spec with
  | some rest => exact rgbSpec_returns _ rest
  | none =>
    cases stripPrefix ['#'] spec with
    | some hex => exact hashSpec_returns hex
    | none => exact .fail ()

/-! ### Percent escapes -/

/-- After every `%` that at least two bytes follow, those two end on a character
boundary. -/
def percentClean : List Char → Bool
  | [] => true
  | c :: rest =>
      (c != '%' || decide (utf8Length rest < 2) || (takeUtf8 rest 2).isSome) && percentClean rest

def uriClean (value : List Char) : Bool :=
  match stripPrefix "file://".toList value with
  | some rest => percentClean (rest.dropWhile (· ≠ '/'))
  | none => true

theorem percentClean_suffix {s : List Char} (pre : List Char)
    (clean : percentClean (pre ++ s) = true) : percentClean s = true := by
  induction pre with
  | nil => exact clean
  | cons c pre ih =>
    rw [List.cons_append, percentClean, Bool.and_eq_true] at clean
    exact ih clean.2

/-- The bytes an escape consumed are passed over. -/
theorem percentLoop_skip (whole : List Char) (i : Nat) (bytes rest : Bytes) :
    percentLoop whole i bytes.length (bytes ++ rest) =
      percentLoop whole (i + bytes.length) 0 rest := by
  induction bytes generalizing i with
  | nil => rfl
  | cons b bytes ih =>
    rw [List.cons_append, List.length_cons, percentLoop, ih]
    congr 1
    omega

/-- Bytes that are no `%` are copied. -/
theorem percentLoop_copy {whole : List Char} {i : Nat} {bytes rest : Bytes} {c : Prop}
    (plain : ∀ b ∈ bytes, b.toNat ≠ '%'.toNat)
    (after : Guarded c (percentLoop whole (i + bytes.length) 0 rest) fun _ => True) :
    Guarded c (percentLoop whole i 0 (bytes ++ rest)) fun _ => True := by
  induction bytes generalizing i with
  | nil => exact after
  | cons b bytes ih =>
    have other := plain b List.mem_cons_self
    rw [List.cons_append, percentLoop, if_neg fun h => other h.1]
    refine (Guarded.pure (p := (· = none)) rfl).bind ?_
    rintro _ rfl
    refine (ih (fun b' mem => plain b' (List.mem_cons_of_mem b mem)) ?_).bind fun _ _ =>
      .pure trivial
    rwa [List.length_cons, Nat.add_comm bytes.length 1, ← Nat.add_assoc] at after

theorem toUtf8_cons (c : Char) (s : List Char) :
    toUtf8 (c :: s) = String.utf8EncodeChar c ++ toUtf8 s :=
  rfl

theorem percentLoop_guarded {whole : List Char} {c : Prop} :
    ∀ (s : List Char) (i : Nat), StartsAt whole i s → (c → percentClean s = true) →
      Guarded c (percentLoop whole i 0 (toUtf8 s)) fun _ => True
  | [], _, _, _ => .pure trivial
  | ch :: rest, i, start, clean => by
      have next : StartsAt whole (i + ch.utf8Size) rest := by
        obtain ⟨pre, split, length⟩ := start
        exact ⟨pre ++ [ch], by simp [split], by simp [length]⟩
      have cleanRest (holds : c) : percentClean rest = true :=
        percentClean_suffix [ch] (clean holds)
      by_cases percent : ch = '%'
      · subst percent
        rw [toUtf8_cons]
        change Guarded c (percentLoop whole i 0 ('%'.toNat.toUInt8 :: toUtf8 rest)) _
        rw [percentLoop]
        refine Guarded.bind (p := fun escaped => ∀ v, escaped = some v →
          ∃ digits, takeUtf8 rest 2 = some digits) ?_ ?_
        · split
          · rename_i follows
            refine ((next.strSlice 2).weaken ?_).bind ?_
            · intro holds
              have clean := clean holds
              have long : ¬ utf8Length rest < 2 := by
                rw [← length_toUtf8]
                exact Nat.not_lt.mpr follows.2
              simp [percentClean, long] at clean
              exact clean.1
            · intro digits taken
              exact .pure fun _ _ => ⟨digits, taken⟩
          · exact .pure nofun
        · intro escaped taken
          cases escaped with
          | none =>
            exact (percentLoop_guarded rest _ next cleanRest).bind fun _ _ => .pure trivial
          | some v =>
            obtain ⟨digits, taken⟩ := taken v rfl
            obtain ⟨size, split⟩ := takeUtf8_spec taken
            have bytes : toUtf8 rest = toUtf8 digits ++ toUtf8 (rest.drop digits.length) := by
              rw [← toUtf8_append, ← split]
            have skipped := percentLoop_skip whole (i + 1) (toUtf8 digits)
              (toUtf8 (rest.drop digits.length))
            rw [length_toUtf8, size, ← bytes] at skipped
            have shorter : (rest.drop digits.length).length < ('%' :: rest).length := by
              rw [List.length_drop, List.length_cons]
              omega
            refine Guarded.bind (p := fun _ => True) ?_ fun _ _ => .pure trivial
            rw [skipped]
            refine percentLoop_guarded (rest.drop digits.length) _ (next.advance taken) ?_
            intro holds
            have cleanAll := cleanRest holds
            rw [split] at cleanAll
            exact percentClean_suffix digits cleanAll
      · rw [toUtf8_cons]
        refine percentLoop_copy ?_ ?_
        · intro b mem same
          rcases mem_utf8EncodeChar mem with ascii | high
          · exact percent (Char.toNat_inj.mp (ascii.symm.trans same))
          · rw [same] at high
            exact absurd high (by decide)
        · rw [String.length_utf8EncodeChar]
          exact percentLoop_guarded rest _ next cleanRest
  termination_by s => s.length

theorem percentDecode_guarded (s : List Char) :
    Guarded (percentClean s = true) (percentDecode s) fun _ => True :=
  (percentLoop_guarded s 0 (.whole s) id).bind fun _ _ => .pure trivial

theorem parseFileUri_guarded (value : List Char) :
    Guarded (uriClean value = true) (parseFileUri value) fun _ => True := by
  unfold parseFileUri uriClean
  cases stripPrefix "file://".toList value with
  | none => exact .pure trivial
  | some rest =>
    dsimp only
    split
    · exact (percentDecode_guarded ['/']).weaken fun _ => by decide
    · exact percentDecode_guarded _

/-! ### OSC -/

/-- The specs that the pairs of an OSC 4 set a colour from. -/
def paletteClean : List (List Char) → Prop
  | idx :: spec :: rest =>
      ((∃ i, parseU16 idx = some i ∧ i < 256) → specClean spec = true) ∧ paletteClean rest
  | _ => True

namespace Terminal

variable {K : Parser → GraphicsState → Prop} {rows cols : Nat} {t : Terminal}

/-- There is a number for the link of an OSC 8, if it needs one. -/
def LinkRoom (rest : List Char) (t : Terminal) : Prop :=
  let (params, uri) := (splitOnce ';' rest).getD ([], rest)
  let id := ((params.splitOn ':').findSome? (stripPrefix "id=".toList)).getD []
  uri.isEmpty = true ∨ (t.hyperlinks.any fun (_, h) => h.id == id && h.uri == uri) = true ∨
    t.nextHyperlink + 1 < 2 ^ 32

/-- An OSC command that does not panic. -/
def OscCommandSafe (code : Nat) (rest : List Char) (t : Terminal) : Prop :=
  match code with
  | 4 => paletteClean (rest.splitOn ';')
  | 7 => uriClean rest = true
  | 8 => t.LinkRoom rest
  | 10 | 11 | 12 => specClean rest = true
  | _ => True

/-- An OSC string that does not panic. -/
def OscSafe (data : Bytes) (t : Terminal) : Prop :=
  let s := fromUtf8Lossy data
  let (code, rest) := (splitOnce ';' s).getD (s, [])
  ∀ n, parseU16 code = some n → t.OscCommandSafe n rest

theorem formatRgb16_yields (c : Rgb) : Yields (formatRgb16 c) fun _ => True := by
  have fits (b : UInt8) : b.toNat * 257 < 2 ^ 16 := by
    have := b.toNat_lt
    omega
  refine (Yields.mul (fits _)).bind ?_
  intro r _
  refine (Yields.mul (fits _)).bind ?_
  intro g _
  refine (Yields.mul (fits _)).bind ?_
  intro b _
  exact .pure trivial

theorem sound_setPalette (h : t.Sound K rows cols) {palette : List Rgb}
    (length : palette.length = 256) : { t with palette }.Sound K rows cols :=
  { h with palette := length }

/-- One pair of OSC 4. -/
theorem setPaletteColor_guarded (h : t.Sound K rows cols) (bel : Bool) (idx spec : List Char) :
    Guarded ((∃ i, parseU16 idx = some i ∧ i < 256) → specClean spec = true)
      (t.setPaletteColor bel idx spec) (·.Sound K rows cols) := by
  have length : t.palette.length = 256 := h.palette
  unfold setPaletteColor
  cases index : parseU16 idx with
  | none => exact .pure h
  | some i =>
    dsimp only
    split
    · exact .pure h
    · rename_i inside
      split
      · refine .of_yields ?_
        refine (Yields.getAt (by omega)).bind ?_
        intro color _
        exact (formatRgb16_yields color).bind fun _ _ => .pure h
      · refine (((parseColorSpec_returns spec).result).weaken ?_).bind ?_
        · intro clean
          exact clean ⟨i, rfl, by omega⟩
        · intro parsed _
          cases parsed with
          | ok rgb =>
            refine .of_yields ((Yields.setAt (by omega)).bind ?_)
            rintro palette rfl
            exact .pure (sound_setPalette h ((List.length_set ..).trans length))
          | error _ => exact .pure h

theorem oscPalette_guarded (bel : Bool) :
    ∀ (parts : List (List Char)) {t : Terminal}, t.Sound K rows cols →
      Guarded (paletteClean parts) (oscPalette bel parts t) (·.Sound K rows cols)
  | idx :: spec :: rest, _, h => by
      refine ((setPaletteColor_guarded h bel idx spec).weaken And.left).bind ?_
      intro t' sound
      exact (oscPalette_guarded bel rest sound).weaken And.right
  | [_], _, h => .pure h
  | [], _, h => .pure h

theorem oscDynamicColor_guarded (h : t.Sound K rows cols) (code : Nat) (rest : List Char)
    (bel : Bool) :
    Guarded (specClean rest = true) (t.oscDynamicColor code rest bel) (·.Sound K rows cols) := by
  unfold oscDynamicColor
  split
  · exact .of_yields ((formatRgb16_yields _).bind fun _ _ => .pure h)
  · refine (parseColorSpec_returns rest).result.bind ?_
    intro parsed _
    cases parsed with
    | ok rgb =>
      refine .pure ?_
      unfold setDynamicColor
      split <;> exact h
    | error _ => exact .pure h

theorem oscResetPalette_yields (h : t.Sound K rows cols) (rest : List Char) :
    Yields (t.oscResetPalette rest) (·.Sound K rows cols) := by
  unfold oscResetPalette
  split
  · exact .pure (sound_setPalette h length_defaultPalette)
  · refine Yields.bind (p := (·.length = 256)) ?_ fun palette length =>
      .pure (sound_setPalette h length)
    refine Yields.forEach h.palette ?_
    intro part _ palette length
    split
    · split
      · refine (Yields.setAt (by omega)).mono ?_
        rintro palette' rfl
        rw [List.length_set, length]
      · exact .pure length
    · exact .pure length

theorem oscHyperlink_guarded (h : t.Sound K rows cols) (rest : List Char) :
    Guarded (t.LinkRoom rest) (t.oscHyperlink rest) (·.Sound K rows cols) := by
  have linked (n : Nat) : { t with cursor.hyperlink := n }.Sound K rows cols :=
    h.moved rfl h.cursor_row h.cursor_col
  unfold oscHyperlink LinkRoom
  generalize (splitOnce ';' rest).getD ([], rest) = parts
  obtain ⟨params, uri⟩ := parts
  dsimp only
  split
  · exact .pure (linked 0)
  · rename_i named
    split
    · exact .pure (linked _)
    · rename_i unknown
      refine (Guarded.add.weaken ?_).bind ?_
      · rintro (empty | known | room)
        · exact absurd empty named
        · rw [List.find?_eq_none] at unknown
          obtain ⟨entry, mem, same⟩ := List.any_eq_true.mp known
          exact absurd same (unknown entry mem)
        · exact room
      · intro next _
        exact .pure (h.moved rfl h.cursor_row h.cursor_col)

theorem sound_setSelection (h : t.Sound K rows cols) (data : Bytes) (kind : Char) :
    (setSelection data t kind).Sound K rows cols := by
  unfold setSelection
  split <;> exact h

theorem clipboardTargets_pos (sel : List Char) : 0 < (clipboardTargets sel).length := by
  unfold clipboardTargets
  dsimp only
  split
  · exact Nat.one_pos
  · rename_i several
    exact List.length_pos_iff.mpr fun empty => several (by rw [empty]; rfl)

theorem oscClipboard_yields (h : t.Sound K rows cols) (rest : List Char) (bel : Bool) :
    Yields (t.oscClipboard rest bel) (·.Sound K rows cols) := by
  unfold oscClipboard
  generalize (splitOnce ';' rest).getD ([], rest) = parts
  obtain ⟨sel, payload⟩ := parts
  dsimp only
  split
  · refine (Yields.getAt (clipboardTargets_pos sel)).bind ?_
    intro kind _
    exact .pure h
  · split
    · rename_i decoded _
      have stored (ks : List Char) : ∀ {t : Terminal}, t.Sound K rows cols →
          (ks.foldl (setSelection decoded) t).Sound K rows cols := by
        induction ks with
        | nil => exact id
        | cons k ks ih => exact fun h => ih (sound_setSelection h decoded k)
      exact .pure (stored (clipboardTargets sel) h)
    · exact .pure h

theorem oscTextSize_yields (h : t.Sound K rows cols) (rest : List Char) :
    Yields (t.oscTextSize rest) (·.Sound K rows cols) := by
  unfold oscTextSize
  generalize (splitOnce ';' rest).getD ([], rest) = parts
  obtain ⟨metadata, text⟩ := parts
  have noted : { t with lastTextSize := some rest }.Sound K rows cols := h
  dsimp only
  split
  · exact .pure noted
  · refine Yields.bind (p := (·.Sound K rows cols)) ?_ ?_
    · exact Yields.forEach noted fun ch _ t' sound => print_yields sound ch
    · intro t' sound
      have pos := sound.cols_pos
      split
      · refine (lastCol_yields sound).bind ?_
        rintro last rfl
        refine .pure (sound.moved rfl sound.cursor_row ?_)
        exact Nat.lt_of_le_of_lt (Nat.min_le_right _ _) (Nat.sub_lt pos Nat.one_pos)
      · exact .pure sound

theorem oscPromptMark_yields (h : t.Sound K rows cols) (rest : List Char) :
    Yields (t.oscPromptMark rest) (·.Sound K rows cols) := by
  unfold oscPromptMark
  split
  · exact .pure h
  · refine (modifyScr_yields h (Screen.modifyRow_yields h.scr ?_)).bind ?_
    · intro r width
      exact .pure width
    · rintro t' ⟨sound, _⟩
      exact .pure sound

theorem oscCommand_guarded (h : t.Sound K rows cols) {c : Prop} (code : Nat) (rest : List Char)
    (bel : Bool) (safe : c → t.OscCommandSafe code rest) :
    Guarded c (t.oscCommand code rest bel) (·.Sound K rows cols) := by
  unfold oscCommand
  split
  · exact .pure h
  · exact .pure h
  · exact .pure h
  · exact (oscPalette_guarded bel _ h).weaken safe
  · exact ((parseFileUri_guarded rest).weaken safe).bind fun _ _ => .pure h
  · exact (oscHyperlink_guarded h rest).weaken safe
  · exact .pure h
  · exact (oscDynamicColor_guarded h _ rest bel).weaken safe
  · exact (oscDynamicColor_guarded h _ rest bel).weaken safe
  · exact (oscDynamicColor_guarded h _ rest bel).weaken safe
  · exact .pure h
  · exact .of_yields (oscClipboard_yields h rest bel)
  · exact .of_yields (oscTextSize_yields h rest)
  · exact .pure h
  · exact .of_yields (oscResetPalette_yields h rest)
  · exact .pure h
  · exact .pure h
  · exact .pure h
  · exact .of_yields (oscPromptMark_yields h rest)
  · exact .pure h

/-- An OSC string leaves a well-formed terminal, and panics only if it is unsafe. -/
theorem oscDispatch_guarded (h : t.Sound K rows cols) (data : Bytes) (bel : Bool) :
    Guarded (t.OscSafe data) (t.oscDispatch data bel) (·.Sound K rows cols) := by
  unfold oscDispatch OscSafe
  generalize fromUtf8Lossy data = s
  dsimp only
  generalize (splitOnce ';' s).getD (s, []) = parts
  obtain ⟨code, rest⟩ := parts
  dsimp only
  cases number : parseU16 code with
  | none => exact .pure h
  | some n => exact oscCommand_guarded h n rest bel fun safe => safe n rfl

/-! ### DCS -/

/-- The names of an XTGETTCAP query that can be decoded or refused. -/
def DcsSafe (intermediates : Bytes) (finalByte : UInt8) (data : Bytes) : Prop :=
  intermediates.head?.map (fun i => Char.ofNat i.toNat) = some '+' →
    finalByte.toNat = 'q'.toNat → ∀ s, fromUtf8 data = some s → ∀ name ∈ s.splitOn ';',
      utf8Length name % 2 = 0 → fieldsClean 2 (utf8Length name / 2) name = true

theorem hexDecodeLoop_returns {whole : List Char} {c : Prop} (pairs : Nat) {s : List Char} {i : Nat}
    (start : StartsAt whole i s) (clean : c → fieldsClean 2 pairs s = true) :
    Returns c (hexDecodeLoop whole pairs i) fun _ => True := by
  induction pairs generalizing s i with
  | zero => exact .pure trivial
  | succ pairs ih =>
    refine (hexField_returns start clean).bind ?_
    rintro v ⟨field, taken, _, clean'⟩
    exact (ih (start.advance taken) clean').bind fun _ _ => .pure trivial

theorem hexDecode_returns (name : List Char) :
    Returns (utf8Length name % 2 = 0 → fieldsClean 2 (utf8Length name / 2) name = true)
      (hexDecode name) fun _ => True := by
  unfold hexDecode
  split
  · exact .fail ()
  · rename_i even
    have even : utf8Length name % 2 = 0 := by omega
    refine (hexDecodeLoop_returns _ (.whole name) fun clean => clean even).bind ?_
    intro out _
    exact .ofOption fun _ _ => trivial

theorem requestedSetting_yields (h : t.Sound K rows cols) (data : Bytes) :
    Yields (t.requestedSetting data) fun _ => True := by
  have ordered : t.scrollTop ≤ t.scrollBot := h.ordered
  have bot_lt : t.scrollBot < rows := h.bot_lt
  have small := h.rows_small
  unfold requestedSetting
  split
  · exact .pure trivial
  · split
    · exact .pure trivial
    · split
      · refine (region_yields h).bind ?_
        rintro _ rfl
        refine (Yields.add (by omega)).bind ?_
        intro top _
        refine (Yields.add (by omega)).bind ?_
        intro bot _
        exact .pure trivial
      · exact .pure trivial

theorem decrqss_yields (h : t.Sound K rows cols) (data : Bytes) :
    Yields (t.decrqss data) (·.Sound K rows cols) := by
  refine (requestedSetting_yields h data).bind ?_
  intro resp _
  cases resp with
  | some v => exact .pure h
  | none => exact .pure h

theorem xtgettcap_guarded (h : t.Sound K rows cols) (data : Bytes) :
    Guarded (∀ s, fromUtf8 data = some s → ∀ name ∈ s.splitOn ';',
        utf8Length name % 2 = 0 → fieldsClean 2 (utf8Length name / 2) name = true)
      (t.xtgettcap data) (·.Sound K rows cols) := by
  unfold xtgettcap
  cases text : fromUtf8 data with
  | none => exact .pure h
  | some s =>
    refine Guarded.forEach h ?_
    intro name mem t' sound
    refine Guarded.bind (p := fun _ => True) ?_ fun _ _ => .pure sound
    refine (((hexDecode_returns name).result).weaken fun clean => clean s rfl name mem).bind ?_
    intro decoded _
    cases decoded with
    | error _ => exact .pure trivial
    | ok name =>
      dsimp only
      split <;> exact .pure trivial

/-- A DCS string leaves a well-formed terminal, and panics only if it is unsafe. -/
theorem dcsDispatch_guarded (h : t.Sound K rows cols) (intermediates : Bytes) (finalByte : UInt8)
    (data : Bytes) :
    Guarded (DcsSafe intermediates finalByte data) (t.dcsDispatch intermediates finalByte data)
      (·.Sound K rows cols) := by
  unfold dcsDispatch
  split
  · split
    · exact .of_yields (decrqss_yields h data)
    · exact .pure h
  · rename_i plus
    split
    · rename_i final
      exact (xtgettcap_guarded h data).weaken fun safe => safe plus final
    · exact .pure h
  · exact .pure h

end Terminal

end Posh.Term
