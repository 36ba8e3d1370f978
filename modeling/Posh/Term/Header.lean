import Posh.Term.Drawing

/-!
What a dump writes before the screens: colours, titles and the directory.

Each piece sets its own fields to what they were, and nothing else but the generation.
-/

namespace Posh.Term

open Posh.Lib

/-! ### Colour specs -/

/-- What holds of each byte, checked one by one. -/
theorem forall_byte {P : Nat → Prop} [DecidablePred P]
    (checked : (List.range 256).all (fun n => decide (P n)) = true) {n : Nat} (small : n < 256) : P n :=
  of_decide_eq_true (List.all_eq_true.mp checked n (List.mem_range.mpr small))

theorem parseU16_decimal_byte {i : Nat} (small : i < 256) : parseU16 (decimal i) = some i :=
  forall_byte (P := fun i => parseU16 (decimal i) = some i) (by decide +kernel) small

theorem decimal_byte_plain {i : Nat} (small : i < 256) :
    (∀ c ∈ decimal i, c ≠ ';' ∧ Graphic c) ∧ utf8Length (decimal i) ≤ 3 := by
  have checked : (decimal i).all (fun c => decide (c ≠ ';' ∧ Graphic c)) = true ∧
      utf8Length (decimal i) ≤ 3 :=
    forall_byte (P := fun i => (decimal i).all (fun c => decide (c ≠ ';' ∧ Graphic c)) = true ∧
      utf8Length (decimal i) ≤ 3) (by decide +kernel) small
  exact ⟨forall_of_all checked.1, checked.2⟩

theorem colorChannel_byte (b : UInt8) : colorChannel (hexPadded 2 b.toNat) = pure b := by
  have read : colorChannel (hexPadded 2 b.toNat) = pure (UInt8.ofNat b.toNat) :=
    forall_byte (P := fun n => colorChannel (hexPadded 2 n) = pure (UInt8.ofNat n)) (by decide +kernel)
      b.toNat_lt
  rwa [UInt8.ofNat_toNat] at read

theorem hex_plain (b : UInt8) : (∀ c ∈ hexPadded 2 b.toNat, c ≠ '/' ∧ c ≠ ';' ∧ Graphic c) ∧
    utf8Length (hexPadded 2 b.toNat) = 2 := by
  have checked : (hexPadded 2 b.toNat).all (fun c => decide (c ≠ '/' ∧ c ≠ ';' ∧ Graphic c)) = true ∧
      utf8Length (hexPadded 2 b.toNat) = 2 :=
    forall_byte (P := fun n => (hexPadded 2 n).all (fun c => decide (c ≠ '/' ∧ c ≠ ';' ∧ Graphic c)) = true ∧
      utf8Length (hexPadded 2 n) = 2) (by decide +kernel) b.toNat_lt
  exact ⟨forall_of_all checked.1, checked.2⟩

theorem stripPrefix_append (p s : List Char) : stripPrefix p (p ++ s) = some s := by
  unfold stripPrefix
  rw [if_pos (List.isPrefixOf_iff_prefix.mpr (List.prefix_append p s)), List.drop_left]

/-- The parts of a text that no part contains the separator of. -/
theorem splitOn_three {sep : Char} {a b c : List Char} (first : sep ∉ a) (second : sep ∉ b)
    (third : sep ∉ c) : (a ++ [sep] ++ b ++ [sep] ++ c).splitOn sep = [a, b, c] := by
  have regroup : a ++ [sep] ++ b ++ [sep] ++ c = a ++ sep :: (b ++ sep :: c) := by
    simp only [List.append_assoc, List.cons_append, List.nil_append]
  rw [regroup, List.splitOn_append_cons_self_of_not_mem first,
    List.splitOn_append_cons_self_of_not_mem second, List.splitOn_eq_singleton third]

namespace Terminal

variable {files : Files} {t t' t'' u : Terminal} {text more : List Char}

theorem parseColorSpec_dumpSpec (c : Rgb) : parseColorSpec (dumpSpec c) = .ok c := by
  obtain ⟨r, g, b⟩ := c
  have split : ((hexPadded 2 r.toNat ++ ['/'] ++ hexPadded 2 g.toNat ++ ['/'] ++
      hexPadded 2 b.toNat).splitOn '/') =
        [hexPadded 2 r.toNat, hexPadded 2 g.toNat, hexPadded 2 b.toNat] :=
    splitOn_three (fun mem => ((hex_plain r).1 _ mem).1 rfl) (fun mem => ((hex_plain g).1 _ mem).1 rfl)
      (fun mem => ((hex_plain b).1 _ mem).1 rfl)
  have spelled : dumpSpec (r, g, b) = "rgb:".toList ++ (hexPadded 2 r.toNat ++ ['/'] ++
      hexPadded 2 g.toNat ++ ['/'] ++ hexPadded 2 b.toNat) := by
    change "rgb:".toList ++ hexPadded 2 r.toNat ++ ['/'] ++ hexPadded 2 g.toNat ++ ['/'] ++
      hexPadded 2 b.toNat = _
    simp only [List.append_assoc]
  unfold parseColorSpec
  rw [spelled, stripPrefix_append]
  unfold rgbSpec
  dsimp only
  rw [split]
  dsimp only
  rw [colorChannel_byte, colorChannel_byte, colorChannel_byte]
  rfl

/-- A spec is no query, and its characters may stand in OSC strings and between separators. -/
theorem dumpSpec_plain (c : Rgb) : dumpSpec c ≠ ['?'] ∧ (∀ x ∈ dumpSpec c, x ≠ ';' ∧ Term.Graphic x) ∧
    utf8Length (dumpSpec c) = 12 := by
  obtain ⟨r, g, b⟩ := c
  refine ⟨?_, ?_, ?_⟩
  · intro query
    have first := congrArg List.head? query
    cases first
  · have hex (n : UInt8) {x : Char} (mem : x ∈ hexPadded 2 n.toNat) : x ≠ ';' ∧ Term.Graphic x :=
      ((hex_plain n).1 x mem).2
    have fixed {s : List Char} (plain : s.all (fun x => decide (x ≠ ';' ∧ Term.Graphic x)) = true) {x : Char}
        (mem : x ∈ s) : x ≠ ';' ∧ Term.Graphic x :=
      of_decide_eq_true (List.all_eq_true.mp plain x mem)
    unfold dumpSpec
    intro x mem
    simp only [List.mem_append] at mem
    obtain ((((key | mem) | mem) | mem) | mem) | mem := mem
    · exact fixed rfl key
    · exact hex r mem
    · exact fixed rfl mem
    · exact hex g mem
    · exact fixed rfl mem
    · exact hex b mem
  · unfold dumpSpec
    dsimp only
    simp only [utf8Length_append, (hex_plain r).2, (hex_plain g).2, (hex_plain b).2]
    rfl

/-! ### Settings -/

/-- What `text` sets leads from `t` to `t'`, whatever the generation is then. -/
def Sets (files : Files) (text : List Char) (t t' : Terminal) : Prop :=
  ∃ g, Draws files text t { t' with generation := g }

namespace Sets

theorem nil (t : Terminal) : Sets files [] t t :=
  ⟨t.generation, .literal rfl ⟨rfl, rfl⟩ rfl⟩

/-- The generation reached is no matter for what follows. -/
theorem append (h : Sets files text t t') (h' : ∀ g, Sets files more { t' with generation := g } t'') :
    Sets files (text ++ more) t t'' := by
  obtain ⟨g, draws⟩ := h
  obtain ⟨g', draws'⟩ := h' g
  exact ⟨g', draws.append draws'⟩

theorem of_draws (h : Draws files text t t') : Sets files text t t' :=
  ⟨t'.generation, h⟩

end Sets

/-- A command whose string ST ends. -/
theorem sets_command {code rest : List Char} {n : Nat} (absent : ';' ∉ code)
    (command : parseU16 code = some n) (graphic : ∀ c ∈ code ++ ';' :: rest, Term.Graphic c)
    (fits : utf8Length (code ++ ';' :: rest) ≤ MAX_OSC) {g : Nat}
    (does : t.oscCommand n rest false = .ok { t' with generation := g }) :
    Sets files ("\x1b]".toList ++ (code ++ ';' :: rest) ++ "\x1b\\".toList) t t' :=
  ⟨g, draws_osc graphic fits ((oscDispatch_code absent command false t).trans does)⟩

/-! ### The palette -/

/-- One entry. -/
theorem sets_entry {i : Nat} (small : i < 256) (c : Rgb) (length : t.palette.length = 256) :
    Sets files ("\x1b]4;".toList ++ decimal i ++ ";".toList ++ dumpSpec c ++ "\x1b\\".toList) t
      { t with palette := t.palette.set i c } := by
  have index := (decimal_byte_plain small).1
  have spec := (dumpSpec_plain c).2.1
  have graphic : ∀ x ∈ ['4'] ++ ';' :: (decimal i ++ ';' :: dumpSpec c), Term.Graphic x := by
    intro x mem
    simp only [List.mem_append, List.mem_cons, List.not_mem_nil, or_false] at mem
    obtain rfl | rfl | inside | rfl | inside := mem
    · decide
    · decide
    · exact (index x inside).2
    · decide
    · exact (spec x inside).2
  have fits : utf8Length (['4'] ++ ';' :: (decimal i ++ ';' :: dumpSpec c)) ≤ MAX_OSC := by
    have short := (decimal_byte_plain small).2
    simp only [utf8Length_append, utf8Length_cons, utf8Length_nil, (dumpSpec_plain c).2.2]
    change 1 + 0 + (1 + (utf8Length (decimal i) + (1 + 12))) ≤ 4 * 1024 * 1024
    omega
  have split : (decimal i ++ ';' :: dumpSpec c).splitOn ';' = [decimal i, dumpSpec c] := by
    rw [List.splitOn_append_cons_self_of_not_mem fun mem => (index _ mem).1 rfl,
      List.splitOn_eq_singleton fun mem => (spec _ mem).1 rfl]
  have inside : i < t.palette.length := by
    rw [length]
    exact small
  have set : setAt t.palette i c = .ok (t.palette.set i c) := if_pos inside
  have sets : t.setPaletteColor false (decimal i) (dumpSpec c) =
      .ok { t with palette := t.palette.set i c, generation := t.generation + 1 } := by
    have large : ¬ i ≥ 256 := Nat.not_le.mpr small
    unfold setPaletteColor
    rw [parseU16_decimal_byte small]
    dsimp only
    rw [if_neg large, if_neg (dumpSpec_plain c).1, parseColorSpec_dumpSpec]
    change (setAt t.palette i c >>= _) = _
    rw [set]
    rfl
  have does : t.oscCommand 4 (decimal i ++ ';' :: dumpSpec c) false =
      .ok { t with palette := t.palette.set i c, generation := t.generation + 1 } := by
    change oscPalette false ((decimal i ++ ';' :: dumpSpec c).splitOn ';') t = _
    rw [split, oscPalette, sets]
    rfl
  have spelled : "\x1b]4;".toList ++ decimal i ++ ";".toList ++ dumpSpec c ++ "\x1b\\".toList =
      "\x1b]".toList ++ (['4'] ++ ';' :: (decimal i ++ ';' :: dumpSpec c)) ++ "\x1b\\".toList := by
    change ['\x1b', ']', '4', ';'] ++ decimal i ++ [';'] ++ dumpSpec c ++ _ =
      ['\x1b', ']'] ++ _ ++ _
    simp only [List.append_assoc, List.cons_append, List.nil_append]
  rw [spelled]
  exact sets_command (by decide) rfl graphic fits does

theorem getElem?_defaultPalette {i : Nat} (small : i < 256) :
    defaultPalette[i]? = some (defaultPaletteEntry i) := by
  unfold defaultPalette
  rw [List.getElem?_map, List.getElem?_range small]
  rfl

/-- From entry `i` on the palette is the default one: what is not written is there already. -/
theorem sets_dumpPalette {pals : List Rgb} {i : Nat} (length : t.palette.length = 256)
    (covered : i + pals.length = 256) (unset : t.palette.drop i = defaultPalette.drop i) :
    Sets files (dumpPalette i pals) t { t with palette := t.palette.take i ++ pals } := by
  induction pals generalizing i t with
  | nil =>
    have whole : t.palette.take i ++ [] = t.palette := by
      rw [List.append_nil]
      exact List.take_of_length_le (by rw [length, ← covered, List.length_nil]; omega)
    rw [whole]
    exact .nil t
  | cons c rest ih =>
    have small : i < 256 := by
      rw [List.length_cons] at covered
      omega
    have inside : i < t.palette.length := length.symm ▸ small
    have entry : Sets files (if c ≠ defaultPaletteEntry (i % 256) then
        "\x1b]4;".toList ++ decimal i ++ ";".toList ++ dumpSpec c ++ "\x1b\\".toList else []) t
          { t with palette := t.palette.set i c } := by
      split
      · exact sets_entry small c length
      · rename_i same
        have same := Decidable.not_not.mp same
        rw [Nat.mod_eq_of_lt small] at same
        have here : t.palette[i]? = some c := by
          have first := congrArg List.head? unset
          rw [List.head?_drop, List.head?_drop, getElem?_defaultPalette small] at first
          rw [first, same]
        have stays : t.palette.set i c = t.palette := by
          rw [List.getElem?_eq_getElem inside] at here
          rw [← Option.some.inj here, List.set_getElem_self]
        rw [stays]
        exact .nil t
    refine entry.append fun g => ?_
    have later : (t.palette.set i c).drop (i + 1) = defaultPalette.drop (i + 1) := by
      rw [List.drop_set_of_lt (by omega), ← List.drop_drop (j := i), unset, List.drop_drop]
    have sets := ih (t := { t with palette := t.palette.set i c, generation := g }) (i := i + 1)
      (by rw [List.length_set, length]) (by rw [List.length_cons] at covered; omega) later
    have done : (t.palette.set i c).take (i + 1) ++ rest = t.palette.take i ++ c :: rest := by
      rw [List.take_add_one, List.take_set_of_le (by omega), List.getElem?_set_self inside]
      rw [List.append_assoc]
      rfl
    change Sets files _ _ { t with palette := t.palette.take i ++ c :: rest }
    rw [← done]
    exact sets

/-! ### Dynamic colours -/

/-- A dynamic colour that is not set yet. -/
theorem sets_dumpDynamic (code : String) (n : Nat) (command : parseU16 code.toList = some n)
    (plain : ∀ c ∈ code.toList, c ≠ ';' ∧ Term.Graphic c) (short : utf8Length code.toList = 2)
    (kind : n = 10 ∨ n = 11 ∨ n = 12) (unset : t.dynamicColor n = none) (color : Option Rgb) :
    Sets files (dumpDynamic code color) t (t.setDynamicColor n color) := by
  cases color with
  | none =>
    have same : t.setDynamicColor n none = t := by
      rcases kind with rfl | rfl | rfl
      · exact congrArg (fun c => { t with fgColor := c }) unset.symm
      · exact congrArg (fun c => { t with bgColor := c }) unset.symm
      · exact congrArg (fun c => { t with cursorColor := c }) unset.symm
    rw [same]
    exact .nil t
  | some c =>
    have spec := dumpSpec_plain c
    have graphic : ∀ x ∈ code.toList ++ ';' :: dumpSpec c, Term.Graphic x := by
      intro x mem
      simp only [List.mem_append, List.mem_cons] at mem
      obtain inside | rfl | inside := mem
      · exact (plain x inside).2
      · decide
      · exact (spec.2.1 x inside).2
    have fits : utf8Length (code.toList ++ ';' :: dumpSpec c) ≤ MAX_OSC := by
      rw [utf8Length_append, utf8Length_cons, short, spec.2.2]
      decide
    have sets : t.oscDynamicColor n (dumpSpec c) false = .ok (t.setDynamicColor n (some c)).touch := by
      unfold oscDynamicColor
      rw [if_neg spec.1, parseColorSpec_dumpSpec]
      rfl
    have does : t.oscCommand n (dumpSpec c) false = .ok (t.setDynamicColor n (some c)).touch := by
      rcases kind with rfl | rfl | rfl
      · exact sets
      · exact sets
      · exact sets
    have spelled : dumpDynamic code (some c) =
        "\x1b]".toList ++ (code.toList ++ ';' :: dumpSpec c) ++ "\x1b\\".toList := by
      change "\x1b]".toList ++ code.toList ++ [';'] ++ dumpSpec c ++ "\x1b\\".toList = _
      simp only [List.append_assoc, List.cons_append, List.nil_append]
    rw [spelled]
    exact sets_command (fun mem => (plain _ mem).1 rfl) command graphic fits does

theorem sets_foreground (unset : t.fgColor = none) (color : Option Rgb) :
    Sets files (dumpDynamic "10" color) t { t with fgColor := color } :=
  sets_dumpDynamic "10" 10 rfl (forall_of_all rfl) rfl (.inl rfl) unset color

theorem sets_background (unset : t.bgColor = none) (color : Option Rgb) :
    Sets files (dumpDynamic "11" color) t { t with bgColor := color } :=
  sets_dumpDynamic "11" 11 rfl (forall_of_all rfl) rfl (.inr (.inl rfl)) unset color

theorem sets_cursorColor (unset : t.cursorColor = none) (color : Option Rgb) :
    Sets files (dumpDynamic "12" color) t { t with cursorColor := color } :=
  sets_dumpDynamic "12" 12 rfl (forall_of_all rfl) rfl (.inr (.inr rfl)) unset color

/-- The colours over default ones. -/
theorem sets_dumpColors (palette : t.palette = defaultPalette) (fg : t.fgColor = none)
    (bg : t.bgColor = none) (cursor : t.cursorColor = none) (length : u.palette.length = 256) :
    Sets files u.dumpColors t { t with
      palette := u.palette, fgColor := u.fgColor, bgColor := u.bgColor, cursorColor := u.cursorColor } := by
  have entries : Sets files (dumpPalette 0 u.palette) t { t with palette := u.palette } := by
    refine sets_dumpPalette ?_ (by rw [length]) (by rw [palette])
    rw [palette]
    unfold defaultPalette
    rw [List.length_map, List.length_range]
  have front : Sets files (dumpPalette 0 u.palette ++ dumpDynamic "10" u.fgColor) t
      { t with palette := u.palette, fgColor := u.fgColor } :=
    entries.append fun g => sets_foreground (t := { t with palette := u.palette, generation := g }) fg _
  have ground : Sets files (dumpPalette 0 u.palette ++ dumpDynamic "10" u.fgColor ++
      dumpDynamic "11" u.bgColor) t
      { t with palette := u.palette, fgColor := u.fgColor, bgColor := u.bgColor } :=
    front.append fun g => sets_background
      (t := { t with palette := u.palette, fgColor := u.fgColor, generation := g }) bg _
  exact ground.append fun g => sets_cursorColor (t := { t with
    palette := u.palette, fgColor := u.fgColor, bgColor := u.bgColor, generation := g }) cursor _

/-! ### Titles and directory -/

/-- A command whose string BEL ends. -/
theorem sets_belled {code rest : List Char} {n : Nat} (absent : ';' ∉ code)
    (command : parseU16 code = some n) (graphic : ∀ c ∈ code ++ ';' :: rest, Term.Graphic c)
    (fits : utf8Length (code ++ ';' :: rest) ≤ MAX_OSC) {g : Nat}
    (does : t.oscCommand n rest true = .ok { t' with generation := g }) :
    Sets files ("\x1b]".toList ++ (code ++ ';' :: rest) ++ "\x07".toList) t t' := by
  have reads : Parser.Reads (toUtf8 ("\x1b]".toList ++ (code ++ ';' :: rest) ++ "\x07".toList))
      [.osc (toUtf8 (code ++ ';' :: rest)) true] := by
    rw [toUtf8_append, toUtf8_append, List.append_assoc]
    have read := (Parser.continues_osc (graphic_toUtf8 graphic)).reads
    unfold Parser.stringAction at read
    rwa [length_toUtf8, if_pos fits] at read
  exact ⟨g, .one reads ((oscDispatch_code absent command true t).trans does)⟩

/-- A text that OSC can carry. -/
structure Carried (text : List Char) : Prop where
  graphic : ∀ c ∈ text, Term.Graphic c
  fits : utf8Length text + 2 ≤ MAX_OSC

/-- A title, by the digit of its command. -/
theorem sets_title {text : List Char} (carried : Carried text) {digit : Char} {n : Nat}
    (absent : digit ≠ ';') (command : parseU16 [digit] = some n) (graphic : Term.Graphic digit)
    (short : digit.utf8Size = 1) {g : Nat}
    (does : t.oscCommand n text true = .ok { t' with generation := g }) :
    Sets files (['\x1b', ']', digit, ';'] ++ text ++ "\x07".toList) t t' := by
  have all : ∀ c ∈ [digit] ++ ';' :: text, Term.Graphic c := by
    intro c mem
    simp only [List.mem_append, List.mem_cons, List.not_mem_nil, or_false] at mem
    obtain rfl | rfl | inside := mem
    · exact graphic
    · decide
    · exact carried.graphic c inside
  have fits : utf8Length ([digit] ++ ';' :: text) ≤ MAX_OSC := by
    have room := carried.fits
    simp only [utf8Length_append, utf8Length_cons, utf8Length_nil, short]
    change 1 + 0 + (1 + utf8Length text) ≤ MAX_OSC
    omega
  have separate : ';' ∉ [digit] := fun mem => absent (List.mem_singleton.mp mem).symm
  have sets : Sets files ("\x1b]".toList ++ ([digit] ++ ';' :: text) ++ "\x07".toList) t t' :=
    sets_belled separate command all fits does
  exact sets

/-- The titles over empty ones. -/
theorem sets_dumpTitles (title : t.title = []) (icon : t.iconTitle = []) (carried : Carried u.title)
    (carriedIcon : Carried u.iconTitle) :
    Sets files u.dumpTitles t { t with title := u.title, iconTitle := u.iconTitle } := by
  have titled : Sets files (if u.title.isEmpty then [] else "\x1b]2;".toList ++ u.title ++ "\x07".toList)
      t { t with title := u.title } := by
    split
    · rename_i empty
      have same : u.title = t.title := (List.isEmpty_iff.mp empty).trans title.symm
      rw [same]
      exact .nil t
    · exact sets_title carried (n := 2) (g := t.generation + 1) (by decide) rfl (by decide) rfl rfl
  have iconTitled (t : Terminal) (icon : t.iconTitle = []) :
      Sets files (if u.iconTitle.isEmpty then [] else "\x1b]1;".toList ++ u.iconTitle ++ "\x07".toList)
        t { t with iconTitle := u.iconTitle } := by
    split
    · rename_i empty
      have same : u.iconTitle = t.iconTitle := (List.isEmpty_iff.mp empty).trans icon.symm
      rw [same]
      exact .nil t
    · exact sets_title carriedIcon (n := 1) (g := t.generation + 1) (by decide) rfl (by decide) rfl rfl
  unfold dumpTitles
  split
  · rename_i same
    rw [Bool.and_eq_true, beq_iff_eq] at same
    rw [← same.2]
    exact sets_title carried (n := 0) (g := t.generation + 1) (by decide) rfl (by decide) rfl rfl
  · exact titled.append fun g => iconTitled { t with title := u.title, generation := g } icon

/-- The directory is read back as it is written. -/
structure Located (u : Terminal) : Prop where
  carried : Carried ("file://".toList ++ u.pwd)
  parsed : u.pwd ≠ [] → parseFileUri ("file://".toList ++ u.pwd) = .ok u.pwd

theorem sets_dumpPwd (pwd : t.pwd = []) (located : Located u) :
    Sets files u.dumpPwd t { t with pwd := u.pwd } := by
  unfold dumpPwd
  split
  · rename_i empty
    have same : u.pwd = t.pwd := (List.isEmpty_iff.mp empty).trans pwd.symm
    rw [same]
    exact .nil t
  · rename_i named
    have graphic : ∀ c ∈ ['7'] ++ ';' :: ("file://".toList ++ u.pwd), Term.Graphic c := by
      intro c mem
      rcases List.mem_append.mp mem with digit | mem
      · rw [List.mem_singleton.mp digit]
        decide
      · rcases List.mem_cons.mp mem with rfl | inside
        · decide
        · exact located.carried.graphic c inside
    have fits : utf8Length (['7'] ++ ';' :: ("file://".toList ++ u.pwd)) ≤ MAX_OSC := by
      have room := located.carried.fits
      rw [utf8Length_append, utf8Length_cons]
      change 1 + (1 + utf8Length ("file://".toList ++ u.pwd)) ≤ MAX_OSC
      omega
    have does : t.oscCommand 7 ("file://".toList ++ u.pwd) false =
        .ok { t with pwd := u.pwd, generation := t.generation + 1 } := by
      change (parseFileUri ("file://".toList ++ u.pwd) >>= _) = _
      rw [located.parsed fun empty => named (List.isEmpty_iff.mpr empty)]
      rfl
    exact sets_command (show ';' ∉ ['7'] by decide) rfl graphic fits does

/-- The header over a terminal that no such field is set of. -/
theorem sets_header (palette : t.palette = defaultPalette) (fg : t.fgColor = none)
    (bg : t.bgColor = none) (cursor : t.cursorColor = none) (title : t.title = [])
    (icon : t.iconTitle = []) (pwd : t.pwd = []) (length : u.palette.length = 256)
    (carried : Carried u.title) (carriedIcon : Carried u.iconTitle) (located : Located u) :
    Sets files (u.dumpColors ++ u.dumpTitles ++ u.dumpPwd) t { t with
      palette := u.palette, fgColor := u.fgColor, bgColor := u.bgColor, cursorColor := u.cursorColor
      title := u.title, iconTitle := u.iconTitle, pwd := u.pwd } := by
  have colors : Sets files u.dumpColors t { t with
      palette := u.palette, fgColor := u.fgColor, bgColor := u.bgColor, cursorColor := u.cursorColor } :=
    sets_dumpColors palette fg bg cursor length
  have titles : Sets files (u.dumpColors ++ u.dumpTitles) t { t with
      palette := u.palette, fgColor := u.fgColor, bgColor := u.bgColor, cursorColor := u.cursorColor
      title := u.title, iconTitle := u.iconTitle } :=
    colors.append fun g => sets_dumpTitles (t := { t with
      palette := u.palette, fgColor := u.fgColor, bgColor := u.bgColor, cursorColor := u.cursorColor
      generation := g }) title icon carried carriedIcon
  exact titles.append fun g => sets_dumpPwd (t := { t with
    palette := u.palette, fgColor := u.fgColor, bgColor := u.bgColor, cursorColor := u.cursorColor
    title := u.title, iconTitle := u.iconTitle, generation := g }) pwd located

end Terminal

end Posh.Term
