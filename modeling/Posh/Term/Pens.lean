import Mathlib.Tactic.IntervalCases
import Posh.Term.Draws
import Posh.Term.Numbers

/-!
The pen a dump sets.

The SGR sequence of a style is read back as the style, but for its guard, and the DECSCA
toggle as the guard. So what `emit_pen` writes leaves a terminal's pen as the cell needs it.
-/

namespace Posh.Term

open Posh.Lib

/-! ### Parameter lists -/

namespace Parser

variable {p : Parser} {params : Params}

/-- The value of a number's digits, after `v`. -/
theorem foldl_ofDigitChars {s : List Char} (digits : ∀ c ∈ s, c.isDigit = true) (v : Nat) :
    (toUtf8 s).foldl (fun v b => v * 10 + (b.toNat - '0'.toNat)) v = Nat.ofDigitChars 10 s v := by
  induction s generalizing v with
  | nil => rfl
  | cons c s ih =>
    have digit := digits c List.mem_cons_self
    simp only [Char.isDigit, Bool.and_eq_true, decide_eq_true_eq, UInt32.le_iff_toNat_le] at digit
    have high : c.toNat ≤ 57 := digit.2
    obtain ⟨b, encoded, value⟩ := toUtf8_singleton (c := c) (by omega)
    change (toUtf8 ([c] ++ s)).foldl _ v = _
    rw [toUtf8_append, encoded, List.foldl_append, List.foldl_cons, List.foldl_nil,
      ih (fun c' mem => digits c' (List.mem_cons_of_mem c mem)), value, Nat.mul_comm]
    rfl

theorem decimalValue_decimal (n : Nat) : decimalValue (toUtf8 (decimal n)) = n :=
  (foldl_ofDigitChars (isDigit_decimal n) 0).trans Nat.ofDigitChars_ten_toDigits

theorem isAsciiDigit_decimal (n : Nat) : ∀ b ∈ toUtf8 (decimal n), isAsciiDigit b = true := by
  have ascii : ∀ c ∈ decimal n, c.toNat < 0x80 ∧ (0x30 ≤ c.toNat ∧ c.toNat ≤ 0x39) := by
    intro c mem
    have digit := isDigit_decimal n c mem
    simp only [Char.isDigit, Bool.and_eq_true, decide_eq_true_eq, UInt32.le_iff_toNat_le] at digit
    have low : 48 ≤ c.toNat := digit.1
    have high : c.toNat ≤ 57 := digit.2
    omega
  intro b mem
  have range := bytes_of_chars (P := fun n => 0x30 ≤ n ∧ n ≤ 0x39) ascii b mem
  simpa [isAsciiDigit] using range

/-- A number is collected as the part being read. -/
theorem foldl_decimal {n : Nat} (small : n ≤ 65535) (fresh : p.curVal = 0) :
    (toUtf8 (decimal n)).foldl paramStep p = { p with curVal := n, partSeen := true } := by
  rw [foldl_number (isAsciiDigit_decimal n) fresh]
  have value : clamped (toUtf8 (decimal n)) = n := by
    unfold clamped
    rw [decimalValue_decimal]
    exact Nat.min_eq_left small
  have some_ : (toUtf8 (decimal n)).isEmpty = false := by
    rw [List.isEmpty_eq_false_iff]
    intro empty
    have length := congrArg List.length empty
    rw [length_toUtf8] at length
    have pos := length_le_utf8Length (decimal n)
    have digits : 0 < (decimal n).length := List.length_pos_iff.mpr Nat.toDigits_ne_nil
    change utf8Length (decimal n) = 0 at length
    omega
  rw [value, some_]
  simp

/-- The parameters are `params` if the list ends here. -/
structure At (params : Params) (p : Parser) : Prop where
  seen : p.partSeen = true
  pushed : pushParam (p.curParts ++ [p.curVal % 2 ^ 16]) p.params = params

theorem At.takeParams (h : At params p) : p.takeParams.1 = params := by
  unfold Parser.takeParams
  dsimp only
  rw [h.seen, Bool.true_or, if_pos rfl, h.pushed]

/-- Parameters more, as many as there is room for. -/
def pushAll (groups params : Params) : Params :=
  groups.foldl (fun params group => pushParam group params) params

/-- After any parameter the text spells these parameters more. -/
def Adds (text : List Char) (groups : Params) : Prop :=
  ∀ p params, At params p → At (pushAll groups params) ((toUtf8 text).foldl paramStep p)

theorem Adds.nil : Adds [] [] :=
  fun _ _ h => h

theorem Adds.append {a b : List Char} {xs ys : Params} (ha : Adds a xs) (hb : Adds b ys) :
    Adds (a ++ b) (xs ++ ys) := by
  intro p params h
  rw [toUtf8_append, List.foldl_append]
  unfold pushAll
  rw [List.foldl_append]
  exact hb _ _ (ha p params h)

theorem Adds.of_eq {a b : List Char} {xs : Params} (h : Adds a xs) (same : a = b) : Adds b xs :=
  same ▸ h

theorem Adds.ite {c : Prop} [Decidable c] {a b : List Char} {xs ys : Params} (ha : Adds a xs)
    (hb : Adds b ys) : Adds (if c then a else b) (if c then xs else ys) := by
  split
  · exact ha
  · exact hb

/-- The numbers of one parameter, between colons. -/
def partsText : List Nat → List Char
  | [] => []
  | [n] => decimal n
  | n :: rest => decimal n ++ ':' :: partsText rest

theorem foldl_parts {parts : List Nat} (some_ : parts ≠ []) (small : ∀ n ∈ parts, n ≤ 65535)
    (fresh : p.curVal = 0) (room : p.curParts.length + parts.length ≤ MAX_SUBPARAMS) :
    ∃ q, (toUtf8 (partsText parts)).foldl paramStep p = q ∧ q.partSeen = true ∧
      q.params = p.params ∧ q.curParts ++ [q.curVal % 2 ^ 16] = p.curParts ++ parts := by
  induction parts generalizing p with
  | nil => exact absurd rfl some_
  | cons n rest ih =>
    have le := small n List.mem_cons_self
    cases rest with
    | nil =>
      refine ⟨_, foldl_decimal le fresh, rfl, rfl, ?_⟩
      dsimp only
      rw [Nat.mod_eq_of_lt (by omega)]
    | cons m rest =>
      rw [List.length_cons] at room
      have colon (q : Parser) : (toUtf8 [':']).foldl paramStep q = q.paramColon := rfl
      have split : partsText (n :: m :: rest) = decimal n ++ ([':'] ++ partsText (m :: rest)) := rfl
      rw [split, toUtf8_append, toUtf8_append, List.foldl_append, List.foldl_append,
        foldl_decimal le fresh, colon]
      have pushed : (if p.curParts.length < MAX_SUBPARAMS then p.curParts ++ [n % 2 ^ 16]
          else p.curParts) = p.curParts ++ [n] := by
        rw [if_pos (by omega), Nat.mod_eq_of_lt (by omega)]
      unfold paramColon
      dsimp only
      rw [pushed]
      obtain ⟨q, read, seen, params, parts⟩ :=
        @ih { p with curVal := 0, partSeen := true, curParts := p.curParts ++ [n] }
          (List.cons_ne_nil _ _) (fun k mem => small k (List.mem_cons_of_mem _ mem)) rfl (by
            dsimp only
            rw [List.length_append, List.length_singleton]
            omega)
      refine ⟨q, read, seen, params, parts.trans ?_⟩
      dsimp only
      rw [List.append_assoc]
      rfl

/-- A semicolon and one parameter. -/
theorem adds_group {parts : List Nat} (some_ : parts ≠ []) (small : ∀ n ∈ parts, n ≤ 65535)
    (few : parts.length ≤ MAX_SUBPARAMS) : Adds (';' :: partsText parts) [parts] := by
  intro p params h
  have semicolon : (toUtf8 [';']).foldl paramStep p =
      { p with params, curParts := [], curVal := 0, partSeen := true } := by
    change p.paramSemicolon = _
    unfold paramSemicolon
    rw [h.pushed]
  change At _ ((toUtf8 ([';'] ++ partsText parts)).foldl paramStep p)
  rw [toUtf8_append, List.foldl_append, semicolon]
  obtain ⟨q, read, seen, pushed, whole⟩ :=
    @foldl_parts { p with params, curParts := [], curVal := 0, partSeen := true } parts some_ small rfl
      (by rw [List.length_nil, Nat.zero_add]; exact few)
  rw [read]
  refine ⟨seen, ?_⟩
  rw [whole, pushed]
  rfl

theorem adds_number {n : Nat} (small : n ≤ 65535) : Adds (";".toList ++ decimal n) [[n]] :=
  adds_group (List.cons_ne_nil _ _) (fun k mem => (List.mem_singleton.mp mem).symm ▸ small)
    (show 1 ≤ MAX_SUBPARAMS by decide)

/-- A list of parameters from its first number on. -/
theorem paramsOf_number {n : Nat} {text : List Char} {groups : Params} (small : n ≤ 65535)
    (adds : Adds text groups) (few : groups.length < MAX_PARAMS) :
    paramsOf (toUtf8 (decimal n ++ text)) = [n] :: groups := by
  have first : At [[n]] ((toUtf8 (decimal n)).foldl paramStep {}) := by
    rw [foldl_decimal small rfl]
    refine ⟨rfl, ?_⟩
    dsimp only
    rw [Nat.mod_eq_of_lt (by omega)]
    rfl
  unfold paramsOf
  rw [toUtf8_append, List.foldl_append, (adds _ _ first).takeParams]
  unfold pushAll
  rw [pushParams_eq groups [[n]] (show 1 ≤ MAX_PARAMS by decide), List.singleton_append, List.take_of_length_le]
  exact few

end Parser

/-! ### SGR -/

/-- The parameters of a colour. -/
def colorGroups (base bright extended : Nat) : Color → Params
  | .default => []
  | .indexed i =>
      if i.toNat < 8 then [[base + i.toNat]]
      else if i.toNat < 16 then [[bright + i.toNat - 8]]
      else [[extended], [5], [i.toNat]]
  | .rgb r g b => [[extended], [2], [r.toNat], [g.toNat], [b.toNat]]

def underlineGroups : UnderlineStyle → Params
  | .none => []
  | .single => [[4]]
  | .double => [[4, 2]]
  | .curly => [[4, 3]]
  | .dotted => [[4, 4]]
  | .dashed => [[4, 5]]

def underlineColorGroups : Color → Params
  | .default => []
  | .indexed i => [[58, 5, i.toNat]]
  | .rgb r g b => [[58, 2, r.toNat, g.toNat, b.toNat]]

def groupIf (flag : Bool) (group : List Nat) : Params :=
  if flag then [group] else []

/-- The SGR parameters of a style, after the reset. -/
def sgrGroups (style : Style) : Params :=
  groupIf style.bold [1] ++ groupIf style.dim [2] ++ groupIf style.italic [3] ++
    underlineGroups style.underline ++ groupIf style.blink [5] ++ groupIf style.inverse [7] ++
    groupIf style.invisible [8] ++ groupIf style.strikethrough [9] ++
    colorGroups 30 90 38 style.fg ++ colorGroups 40 100 48 style.bg ++
    underlineColorGroups style.underlineColor

namespace Parser

theorem adds_colorParams {base bright extended : Nat} (small : base ≤ 1000 ∧ bright ≤ 1000)
    (few : extended ≤ 1000) (c : Color) :
    Adds (colorParams base bright extended c) (colorGroups base bright extended c) := by
  have number {n : Nat} (le : n ≤ 65535) : Adds (';' :: decimal n) [[n]] := adds_number le
  have form : Adds (';' :: decimal extended) [[extended]] := number (by omega)
  cases c with
  | default => exact .nil
  | indexed i =>
    have byte := i.toNat_lt
    unfold colorParams colorGroups
    dsimp only
    split
    · exact number (by omega)
    split
    · exact number (by omega)
    · have five : Adds [';', '5'] [[5]] := number (n := 5) (by decide)
      have index : Adds (';' :: decimal i.toNat) [[i.toNat]] := number (by omega)
      refine (form.append (five.append index)).of_eq ?_
      rw [List.append_assoc, List.append_assoc]
      rfl
  | rgb r g b =>
    have red := r.toNat_lt
    have green := g.toNat_lt
    have blue := b.toNat_lt
    have two : Adds [';', '2'] [[2]] := number (n := 2) (by decide)
    have channels := (number (n := r.toNat) (by omega)).append ((number (n := g.toNat)
      (by omega)).append (number (n := b.toNat) (by omega)))
    refine (form.append (two.append channels)).of_eq ?_
    unfold colorParams
    simp only [List.append_assoc]
    rfl

theorem adds_underlineParams (u : UnderlineStyle) : Adds (underlineParams u) (underlineGroups u) := by
  have style (k : Nat) (le : k ≤ 65535) : Adds (';' :: partsText [4, k]) [[4, k]] :=
    adds_group (List.cons_ne_nil _ _) (by simpa using le) (show 2 ≤ MAX_SUBPARAMS by decide)
  cases u with
  | none => exact .nil
  | single => exact adds_number (n := 4) (by decide)
  | double => exact style 2 (by decide)
  | curly => exact style 3 (by decide)
  | dotted => exact style 4 (by decide)
  | dashed => exact style 5 (by decide)

theorem adds_underlineColorParams (c : Color) :
    Adds (underlineColorParams c) (underlineColorGroups c) := by
  cases c with
  | default => exact .nil
  | indexed i =>
    have byte := i.toNat_lt
    have adds : Adds (';' :: partsText [58, 5, i.toNat]) [[58, 5, i.toNat]] :=
      adds_group (List.cons_ne_nil _ _) (by simp; omega) (show 3 ≤ MAX_SUBPARAMS by decide)
    exact adds
  | rgb r g b =>
    have red := r.toNat_lt
    have green := g.toNat_lt
    have blue := b.toNat_lt
    have adds : Adds (';' :: partsText [58, 2, r.toNat, g.toNat, b.toNat])
        [[58, 2, r.toNat, g.toNat, b.toNat]] :=
      adds_group (List.cons_ne_nil _ _) (by simp; omega) (show 5 ≤ MAX_SUBPARAMS by decide)
    refine adds.of_eq ?_
    unfold underlineColorParams partsText
    simp only [List.append_assoc]
    rfl

theorem adds_textIf (flag : Bool) {n : Nat} (small : n ≤ 65535) {text : String}
    (same : text.toList = ';' :: decimal n) : Adds (textIf flag text) (groupIf flag [n]) := by
  unfold textIf groupIf
  rw [same]
  exact (adds_number small).ite .nil

theorem length_groupIf (flag : Bool) (group : List Nat) : (groupIf flag group).length ≤ 1 := by
  cases flag with
  | true => exact Nat.le_refl 1
  | false => exact Nat.zero_le 1

theorem length_colorGroups (base bright extended : Nat) (c : Color) :
    (colorGroups base bright extended c).length ≤ 5 := by
  unfold colorGroups
  split
  · exact Nat.zero_le 5
  · split
    · exact Nat.le_of_ble_eq_true rfl
    split
    · exact Nat.le_of_ble_eq_true rfl
    · exact Nat.le_of_ble_eq_true rfl
  · exact Nat.le_refl 5

theorem length_sgrGroups (style : Style) : (sgrGroups style).length < MAX_PARAMS := by
  have bold := length_groupIf style.bold [1]
  have dim := length_groupIf style.dim [2]
  have italic := length_groupIf style.italic [3]
  have blink := length_groupIf style.blink [5]
  have inverse := length_groupIf style.inverse [7]
  have invisible := length_groupIf style.invisible [8]
  have strikethrough := length_groupIf style.strikethrough [9]
  have fg := length_colorGroups 30 90 38 style.fg
  have bg := length_colorGroups 40 100 48 style.bg
  have underline : (underlineGroups style.underline).length ≤ 1 := by
    cases style.underline <;> simp [underlineGroups]
  have color : (underlineColorGroups style.underlineColor).length ≤ 1 := by
    cases style.underlineColor <;> simp [underlineColorGroups]
  have room : 20 < MAX_PARAMS := by decide
  unfold sgrGroups
  simp only [List.length_append]
  omega

/-- The parameters of an emitted style are read as its groups. -/
theorem paramsOf_sgrParams (style : Style) :
    paramsOf (toUtf8 (sgrParams style)) = [0] :: sgrGroups style := by
  have flags := (((((((@adds_textIf style.bold 1 (by decide) ";1" rfl).append
    (@adds_textIf style.dim 2 (by decide) ";2" rfl)).append
    (@adds_textIf style.italic 3 (by decide) ";3" rfl)).append
    (adds_underlineParams style.underline)).append
    (@adds_textIf style.blink 5 (by decide) ";5" rfl)).append
    (@adds_textIf style.inverse 7 (by decide) ";7" rfl)).append
    (@adds_textIf style.invisible 8 (by decide) ";8" rfl)).append
    (@adds_textIf style.strikethrough 9 (by decide) ";9" rfl)
  have all := ((flags.append (@adds_colorParams 30 90 38 (by decide) (by decide) style.fg)).append
    (@adds_colorParams 40 100 48 (by decide) (by decide) style.bg)).append
    (adds_underlineColorParams style.underlineColor)
  have read := paramsOf_number (n := 0) (by decide) all (length_sgrGroups style)
  refine Eq.trans (congrArg (fun text => paramsOf (toUtf8 text)) ?_) read
  unfold sgrParams
  simp only [List.append_assoc]
  rfl

end Parser

/-- Whatever parameters follow, these ones do `f` to the style. -/
def Sets (groups : Params) (f : Style → Style) : Prop :=
  ∀ rest style, sgrLoop 0 (groups ++ rest) style = sgrLoop 0 rest (f style)

theorem Sets.append {xs ys : Params} {f g : Style → Style} (hx : Sets xs f) (hy : Sets ys g) :
    Sets (xs ++ ys) (g ∘ f) := by
  intro rest style
  rw [List.append_assoc, hx, hy]
  rfl

theorem sets_groupIf (flag : Bool) (group : List Nat) (f : Bool → Style → Style)
    (on : ∀ rest style, sgrParam group rest style = (f true style, 0))
    (off : ∀ style, f false style = style) : Sets (groupIf flag group) (f flag) := by
  intro rest style
  cases flag with
  | true =>
    change sgrLoop 0 (group :: rest) style = _
    rw [sgrLoop, on]
  | false =>
    rw [off]
    rfl

theorem sets_underlineGroups (u : UnderlineStyle) :
    Sets (underlineGroups u) (fun style => { style with
      underline := if u = .none then style.underline else u }) := by
  intro rest style
  cases u <;> rfl

theorem clampByte_toNat (i : UInt8) : clampByte i.toNat = i := by
  have byte := i.toNat_lt
  unfold clampByte
  rw [Nat.min_eq_left (by omega), UInt8.ofNat_toNat]

theorem sets_underlineColorGroups (c : Color) :
    Sets (underlineColorGroups c) (fun style => { style with
      underlineColor := if c = .default then style.underlineColor else c }) := by
  intro rest style
  cases c with
  | default => rfl
  | indexed i =>
    change sgrLoop 0 rest { style with underlineColor := .indexed (clampByte i.toNat) } = _
    rw [clampByte_toNat]
    rfl
  | rgb r g b =>
    change sgrLoop 0 rest { style with
      underlineColor := .rgb (clampByte r.toNat) (clampByte g.toNat) (clampByte b.toNat) } = _
    rw [clampByte_toNat, clampByte_toNat, clampByte_toNat]
    rfl

/-- Colours of the first sixteen, by the parameters of their own. -/
theorem sgrParam_fg {n : Nat} (low : 30 ≤ n) (high : n ≤ 37) (rest : Params) (style : Style) :
    sgrParam [n] rest style = ({ style with fg := .indexed (UInt8.ofNat (n - 30)) }, 0) := by
  interval_cases n <;> rfl

theorem sgrParam_brightFg {n : Nat} (low : 90 ≤ n) (high : n ≤ 97) (rest : Params) (style : Style) :
    sgrParam [n] rest style = ({ style with fg := .indexed (UInt8.ofNat (n - 90 + 8)) }, 0) := by
  interval_cases n <;> rfl

theorem sgrParam_bg {n : Nat} (low : 40 ≤ n) (high : n ≤ 47) (rest : Params) (style : Style) :
    sgrParam [n] rest style = ({ style with bg := .indexed (UInt8.ofNat (n - 40)) }, 0) := by
  interval_cases n <;> rfl

theorem sgrParam_brightBg {n : Nat} (low : 100 ≤ n) (high : n ≤ 107) (rest : Params) (style : Style) :
    sgrParam [n] rest style = ({ style with bg := .indexed (UInt8.ofNat (n - 100 + 8)) }, 0) := by
  interval_cases n <;> rfl

/-- A parameter that takes none of those after it. -/
theorem sets_one {group : List Nat} {f : Style → Style}
    (does : ∀ rest style, sgrParam group rest style = (f style, 0)) : Sets [group] f := by
  intro rest style
  change sgrLoop 0 (group :: rest) style = _
  rw [sgrLoop, does]

theorem sets_fgGroups (c : Color) :
    Sets (colorGroups 30 90 38 c) (fun style => { style with
      fg := if c = .default then style.fg else c }) := by
  intro rest style
  cases c with
  | default => rfl
  | indexed i =>
    unfold colorGroups
    dsimp only
    split
    · rw [sets_one (sgrParam_fg (by omega) (by omega)), Nat.add_sub_cancel_left, UInt8.ofNat_toNat]
      rfl
    split
    · rw [sets_one (sgrParam_brightFg (by omega) (by omega)),
        show 90 + i.toNat - 8 - 90 + 8 = i.toNat by omega, UInt8.ofNat_toNat]
      rfl
    · change sgrLoop 0 rest { style with fg := .indexed (clampByte i.toNat) } = _
      rw [clampByte_toNat]
      rfl
  | rgb r g b =>
    change sgrLoop 0 rest { style with
      fg := .rgb (clampByte r.toNat) (clampByte g.toNat) (clampByte b.toNat) } = _
    rw [clampByte_toNat, clampByte_toNat, clampByte_toNat]
    rfl

theorem sets_bgGroups (c : Color) :
    Sets (colorGroups 40 100 48 c) (fun style => { style with
      bg := if c = .default then style.bg else c }) := by
  intro rest style
  cases c with
  | default => rfl
  | indexed i =>
    unfold colorGroups
    dsimp only
    split
    · rw [sets_one (sgrParam_bg (by omega) (by omega)), Nat.add_sub_cancel_left, UInt8.ofNat_toNat]
      rfl
    split
    · rw [sets_one (sgrParam_brightBg (by omega) (by omega)),
        show 100 + i.toNat - 8 - 100 + 8 = i.toNat by omega, UInt8.ofNat_toNat]
      rfl
    · change sgrLoop 0 rest { style with bg := .indexed (clampByte i.toNat) } = _
      rw [clampByte_toNat]
      rfl
  | rgb r g b =>
    change sgrLoop 0 rest { style with
      bg := .rgb (clampByte r.toNat) (clampByte g.toNat) (clampByte b.toNat) } = _
    rw [clampByte_toNat, clampByte_toNat, clampByte_toNat]
    rfl

/-- The groups of a style, after a reset, leave the style but for its guard. -/
theorem sgrLoop_sgrGroups (style old : Style) :
    sgrLoop 0 ([0] :: sgrGroups style) old = { style with isProtected := false } := by
  have flags := (((((((
    sets_groupIf style.bold [1] (fun b s => { s with bold := b || s.bold })
      (fun _ _ => rfl) (fun _ => rfl)).append
    (sets_groupIf style.dim [2] (fun b s => { s with dim := b || s.dim })
      (fun _ _ => rfl) (fun _ => rfl))).append
    (sets_groupIf style.italic [3] (fun b s => { s with italic := b || s.italic })
      (fun _ _ => rfl) (fun _ => rfl))).append
    (sets_underlineGroups style.underline)).append
    (sets_groupIf style.blink [5] (fun b s => { s with blink := b || s.blink })
      (fun _ _ => rfl) (fun _ => rfl))).append
    (sets_groupIf style.inverse [7] (fun b s => { s with inverse := b || s.inverse })
      (fun _ _ => rfl) (fun _ => rfl))).append
    (sets_groupIf style.invisible [8] (fun b s => { s with invisible := b || s.invisible })
      (fun _ _ => rfl) (fun _ => rfl))).append
    (sets_groupIf style.strikethrough [9] (fun b s => { s with strikethrough := b || s.strikethrough })
      (fun _ _ => rfl) (fun _ => rfl))
  have all := ((flags.append (sets_fgGroups style.fg)).append (sets_bgGroups style.bg)).append
    (sets_underlineColorGroups style.underlineColor)
  have read := all [] {}
  rw [List.append_nil] at read
  have color (c : Color) : (if c = .default then .default else c) = c := by
    split
    · rename_i plain
      exact plain.symm
    · rfl
  have line (u : UnderlineStyle) : (if u = .none then .none else u) = u := by
    split
    · rename_i plain
      exact plain.symm
    · rfl
  refine Eq.trans read ?_
  simp only [Function.comp, sgrLoop, Bool.or_false, color, line]

namespace Terminal

variable {files : Files} {t : Terminal}

/-- The pen after the SGR sequence of a style. -/
def withStyle (style : Style) (t : Terminal) : Terminal :=
  { t with cursor.style := style }

theorem draws_emitSgr (style : Style) (t : Terminal) :
    Draws files (emitSgr style) t
      (t.withStyle { style with isProtected := t.cursor.style.isProtected }).touch := by
  refine .csi (params_sgrParams style) (by decide) (Parser.paramsOf_sgrParams style) ?_
  change Except.ok (t.sgr ([0] :: sgrGroups style)) = _
  unfold sgr
  dsimp only [List.isEmpty_cons]
  rw [if_neg Bool.false_ne_true, sgrLoop_sgrGroups]
  rfl

theorem draws_emitProtect (guard : Bool) (t : Terminal) :
    Draws files (emitProtect guard) t
      (t.withStyle { t.cursor.style with isProtected := guard }) := by
  cases guard with
  | false => exact .literal rfl ⟨rfl, rfl⟩ rfl
  | true => exact .literal rfl ⟨rfl, rfl⟩ rfl

/-- The toggle and the sequence of a style bring any pen to the style. -/
theorem process_pen (ready : t.parser.Ready) (style : Style) :
    ∃ q : Parser, q.Ready ∧
      t.process files (toUtf8 (emitProtect style.isProtected ++ emitSgr style)) =
        .ok { (t.withStyle style).touch with parser := q } := by
  have protect : Draws files (emitProtect style.isProtected) t _ :=
    draws_emitProtect style.isProtected t
  exact (protect.append (draws_emitSgr style _)).process ready

/-- The sequence of a style brings any pen to the style; only the protection stays. -/
theorem sgr_round_trip (ready : t.parser.Ready) (style : Style) :
    ∃ q : Parser, q.Ready ∧ ∃ t', t.process files (toUtf8 (emitSgr style)) = .ok t' ∧
      t' = { (t.withStyle { style with isProtected := t.cursor.style.isProtected }).touch with
        parser := q } ∧
      t'.cursor.style = { style with isProtected := t.cursor.style.isProtected } := by
  obtain ⟨q, ready_q, processed⟩ := (draws_emitSgr style t).process ready
  exact ⟨q, ready_q, _, processed, rfl, rfl⟩

/-- A curly underline in a colour, read by a protected red pen. -/
theorem sgr_round_trip_curly : ∃ t : Terminal, t.cursor.style =
      { fg := .indexed 1, isProtected := true } ∧
    ∃ q : Parser, q.Ready ∧ ∃ t', t.process (fun _ => none) (toUtf8 (emitSgr
        { bg := .rgb 1 2 3, underline := .curly, underlineColor := .indexed 200 })) = .ok t' ∧
      t'.cursor.style = { bg := .rgb 1 2 3, underline := .curly, underlineColor := .indexed 200
                          isProtected := true } := by
  refine ⟨(Terminal.new 1 2).withStyle { fg := .indexed 1, isProtected := true }, rfl, ?_⟩
  have ready : ((Terminal.new 1 2).withStyle { fg := .indexed 1, isProtected := true }).parser.Ready :=
    ⟨rfl, rfl⟩
  obtain ⟨q, ready_q, t', processed, -, pen⟩ := sgr_round_trip ready
    { bg := .rgb 1 2 3, underline := .curly, underlineColor := .indexed 200 }
  exact ⟨q, ready_q, t', processed, pen⟩

end Terminal

end Posh.Term
