import Mathlib.Data.List.Basic

/-!
Cells, styles and colours of the screen model (`cell.rs`).
-/

namespace Posh.Term

abbrev Rgb := UInt8 × UInt8 × UInt8

inductive Color where
  | default
  | indexed (i : UInt8)
  | rgb (r g b : UInt8)
deriving DecidableEq, Repr

inductive UnderlineStyle where
  | none
  | single
  | double
  | curly
  | dotted
  | dashed
deriving DecidableEq, Repr

/-- The SGR attributes of a cell, plus the DECSCA guard. -/
structure Style where
  fg : Color := .default
  bg : Color := .default
  underlineColor : Color := .default
  bold : Bool := false
  dim : Bool := false
  italic : Bool := false
  underline : UnderlineStyle := .none
  blink : Bool := false
  inverse : Bool := false
  invisible : Bool := false
  strikethrough : Bool := false
  /-- Protected from selective erase. -/
  isProtected : Bool := false
deriving DecidableEq, Repr

def Style.isDefault (s : Style) : Bool :=
  s = {}

/-- `width` is 1 for normal cells, 2 for the head of a wide character and 0 for
the spacer after it; `hyperlink` is 0 for none. -/
structure Cell where
  ch : Char := '\x00'
  style : Style := {}
  width : Nat := 0
  extra : List Char := []
  hyperlink : Nat := 0
deriving DecidableEq, Repr

namespace Cell

/-- A space carrying `style`: the shape of an erased cell. -/
def blank (style : Style) : Cell :=
  { ch := ' ', style, width := 1 }

/-- The second half of the wide character `head`. -/
def spacer (head : Cell) : Cell :=
  { style := head.style, width := 0, hyperlink := head.hyperlink }

def isBlank (c : Cell) : Bool :=
  (c.ch == ' ' || c.ch == '\x00') && c.extra.isEmpty

/-- Can be skipped when drawing over a freshly cleared background. -/
def isDumpSkippable (c : Cell) : Bool :=
  c.isBlank && c.style.isDefault && c.hyperlink == 0

end Cell

/-! ### The default palette -/

def paletteBase : List (Nat × Nat × Nat) :=
  [(0, 0, 0), (205, 0, 0), (0, 205, 0), (205, 205, 0), (0, 0, 238), (205, 0, 205),
    (0, 205, 205), (229, 229, 229), (127, 127, 127), (255, 0, 0), (0, 255, 0), (255, 255, 0),
    (92, 92, 255), (255, 0, 255), (0, 255, 255), (255, 255, 255)]

/-- One step of the 6×6×6 colour cube. -/
def paletteScale (x : Nat) : Nat :=
  if x = 0 then 0 else 55 + 40 * x

/-- The channels of a slot, as `u8` arithmetic computes them. -/
def paletteChannels (i : Nat) : Nat × Nat × Nat :=
  if i ≤ 15 then paletteBase.getD i (0, 0, 0)
  else if i ≤ 231 then
    let v := i - 16
    (paletteScale (v / 36), paletteScale (v / 6 % 6), paletteScale (v % 6))
  else
    let g := 8 + 10 * (i - 232)
    (g, g, g)

/-- No slot's arithmetic leaves `u8`. -/
theorem paletteChannels_lt : ∀ i < 256, (paletteChannels i).1 < 256 ∧
    (paletteChannels i).2.1 < 256 ∧ (paletteChannels i).2.2 < 256 := by
  decide +kernel

def defaultPaletteEntry (i : Nat) : Rgb :=
  let (r, g, b) := paletteChannels i
  (UInt8.ofNat r, UInt8.ofNat g, UInt8.ofNat b)

def defaultPalette : List Rgb :=
  (List.range 256).map defaultPaletteEntry

end Posh.Term
