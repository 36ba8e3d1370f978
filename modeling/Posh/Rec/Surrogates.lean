import Mathlib.Data.List.Chain
import Posh.Rec.Codec

/-!
Code units in JSON strings.

A `\u` escape spells one unit of UTF-16. What a sequence of them stands for is said here
unit by unit: a high surrogate and the low one right behind it are one character, and any
other surrogate is replaced. The reader looks at the escape behind a high surrogate and
takes it whether or not it is the low half, so that a unit is lost wherever it is not.
-/

namespace Posh.Rec.Json

open Posh.Lib

/-! ### Strings as they are spelled -/

/-- A hexadecimal digit, in either case. -/
structure HexDigit where
  value : Fin 16
  upper : Bool := false
deriving DecidableEq, Repr

def HexDigit.char (d : HexDigit) : Char :=
  if d.value.val < 10 then Char.ofNat (0x30 + d.value)
  else if d.upper then Char.ofNat (0x37 + d.value)
  else Char.ofNat (0x57 + d.value)

/-- A `\u` escape. -/
structure CodeUnit where
  d3 : HexDigit
  d2 : HexDigit
  d1 : HexDigit
  d0 : HexDigit
deriving DecidableEq, Repr

namespace CodeUnit

def value (u : CodeUnit) : Nat :=
  ((u.d3.value.val * 16 + u.d2.value) * 16 + u.d1.value) * 16 + u.d0.value

def text (u : CodeUnit) : List Char :=
  ['\\', 'u', u.d3.char, u.d2.char, u.d1.char, u.d0.char]

abbrev High (u : CodeUnit) : Prop :=
  0xD800 ≤ u.value ∧ u.value ≤ 0xDBFF

abbrev Low (u : CodeUnit) : Prop :=
  0xDC00 ≤ u.value ∧ u.value ≤ 0xDFFF

/-- The character of a unit that stands alone. -/
def alone (u : CodeUnit) : Char :=
  if u.High ∨ u.Low then Char.ofNat 0xFFFD else Char.ofNat u.value

/-- The character of a high surrogate and a low one. -/
def join (high low : CodeUnit) : Char :=
  Char.ofNat (0x10000 + (high.value - 0xD800) * 0x400 + (low.value - 0xDC00))

theorem value_lt (u : CodeUnit) : u.value < 0x10000 := by
  unfold value
  omega

theorem High.not_low {u : CodeUnit} (high : u.High) : ¬ u.Low := by
  omega

end CodeUnit

/-- The letters behind a `\`, and what each means. -/
def shortEscapes : List (Char × Char) :=
  [('"', '"'), ('\\', '\\'), ('/', '/'), ('b', '\x08'), ('f', '\x0c'), ('n', '\n'), ('r', '\r'),
    ('t', '\t')]

/-- A character, a short escape or a code unit within a string. -/
inductive Piece where
  | char (c : Char) (quote : c ≠ '"') (backslash : c ≠ '\\')
  | short (letter c : Char) (known : (letter, c) ∈ shortEscapes)
  | unit (u : CodeUnit)
deriving DecidableEq

namespace Piece

def text : Piece → List Char
  | char c _ _ => [c]
  | short letter _ _ => ['\\', letter]
  | unit u => u.text

/-- A high surrogate is not followed by a unit other than a low one. -/
def Fits : Piece → Piece → Prop
  | unit u, unit v => u.High → v.Low
  | _, _ => True

instance : (p q : Piece) → Decidable (p.Fits q)
  | unit u, unit v => inferInstanceAs (Decidable (u.High → v.Low))
  | unit _, char _ _ _ | unit _, short _ _ _ | char _ _ _, _ | short _ _ _, _ =>
      inferInstanceAs (Decidable True)

end Piece

/-- The string literal. -/
def literal (pieces : List Piece) : List Char :=
  '"' :: (pieces.flatMap Piece.text ++ ['"'])

/-- The characters that the pieces stand for. -/
def decodeUtf16 : List Piece → List Char
  | [] => []
  | .char c _ _ :: rest => c :: decodeUtf16 rest
  | .short _ c _ :: rest => c :: decodeUtf16 rest
  | [.unit u] => [u.alone]
  | .unit u :: .unit v :: rest =>
      if u.High ∧ v.Low then u.join v :: decodeUtf16 rest
      else u.alone :: decodeUtf16 (.unit v :: rest)
  | .unit u :: p :: rest => u.alone :: decodeUtf16 (p :: rest)

/-- The same by the reader: what follows a high surrogate is taken with it. -/
def readUtf16 : List Piece → List Char
  | [] => []
  | .char c _ _ :: rest => c :: readUtf16 rest
  | .short _ c _ :: rest => c :: readUtf16 rest
  | [.unit u] => [u.alone]
  | .unit u :: .unit v :: rest =>
      if u.High then (if v.Low then u.join v else Char.ofNat 0xFFFD) :: readUtf16 rest
      else u.alone :: readUtf16 (.unit v :: rest)
  | .unit u :: p :: rest => u.alone :: readUtf16 (p :: rest)

/-! ### What the reader makes of them -/

namespace Parser

variable {text : List Char} {c : Char} {after rest : Bytes} {pos fuel : Nat}

/-- Before `after`, the loop reads the text as the character, in no more passes than bytes. -/
def ReadsBefore (text : List Char) (c : Char) (after : Bytes) : Prop :=
  ∃ k ≤ (toUtf8 text).length, ∀ fuel pos out,
    ∃ pos', stringLoop (fuel + k) { rest := toUtf8 text ++ after, pos } out =
      stringLoop fuel { rest := after, pos := pos' } (out ++ String.utf8EncodeChar c)

theorem ReadsChar.before (h : ReadsChar text c) (after : Bytes) : ReadsBefore text c after := by
  obtain ⟨k, few, reads⟩ := h
  exact ⟨k, few, fun fuel pos out => reads fuel pos after out⟩

/-- The rest of a string behind a character. -/
theorem ReadsBefore.leaves {out result : Bytes} {n : Nat} (h : ReadsBefore text c after)
    (enough : (toUtf8 text).length + n < fuel)
    (later : ∀ fuel pos, n < fuel →
      Leaves (stringLoop fuel { rest := after, pos } (out ++ String.utf8EncodeChar c)) result rest) :
    Leaves (stringLoop fuel { rest := toUtf8 text ++ after, pos } out) result rest := by
  obtain ⟨k, few, reads⟩ := h
  obtain ⟨pos', eq⟩ := reads (fuel - k) pos out
  rw [Nat.sub_add_cancel (by omega)] at eq
  rw [eq]
  exact later _ _ (by omega)

theorem readsChar_short {letter c : Char} (known : (letter, c) ∈ shortEscapes) :
    ReadsChar ['\\', letter] c := by
  simp only [shortEscapes, List.mem_cons, Prod.mk.injEq, List.not_mem_nil, or_false] at known
  rcases known with ⟨rfl, rfl⟩ | ⟨rfl, rfl⟩ | ⟨rfl, rfl⟩ | ⟨rfl, rfl⟩ | ⟨rfl, rfl⟩ | ⟨rfl, rfl⟩ |
    ⟨rfl, rfl⟩ | ⟨rfl, rfl⟩
  all_goals exact readsChar_escape rfl fun rest pos => .ok

/-! #### Code units -/

/-- The bytes of a digit. -/
def digitByte (d : HexDigit) : UInt8 :=
  UInt8.ofNat d.char.toNat

theorem hexDigit_digitByte (d : HexDigit) : hexDigit (digitByte d) = some d.value.val := by
  obtain ⟨value, upper⟩ := d
  have all : ∀ value : Fin 16, ∀ upper : Bool,
      hexDigit (digitByte { value, upper }) = some value.val := by decide
  exact all value upper

theorem digit_ascii (d : HexDigit) : d.char.toNat < 0x80 := by
  obtain ⟨value, upper⟩ := d
  have all : ∀ value : Fin 16, ∀ upper : Bool,
      (HexDigit.char { value, upper }).toNat < 0x80 := by decide
  exact all value upper

/-- The digits of a unit. -/
def digits (u : CodeUnit) : Bytes :=
  [digitByte u.d3, digitByte u.d2, digitByte u.d1, digitByte u.d0]

theorem toUtf8_unit (u : CodeUnit) : toUtf8 u.text = 0x5C :: 0x75 :: digits u := by
  unfold CodeUnit.text
  rw [toUtf8_ascii]
  · rfl
  · intro c mem
    simp only [List.mem_cons, List.not_mem_nil, or_false] at mem
    rcases mem with rfl | rfl | rfl | rfl | rfl | rfl
    · decide
    · decide
    all_goals exact digit_ascii _

theorem parseHex4_digits (u : CodeUnit) :
    Leaves (parseHex4 { rest := digits u ++ rest, pos }) u.value rest := by
  refine ⟨pos + 1 + 1 + 1 + 1, ?_⟩
  simp [parseHex4, hexDigits, digits, bump, peek, skip, hexDigit_digitByte, CodeUnit.value]
  rfl

/-- A unit that no surrogate follows, or that asks for none. -/
theorem parseUnicodeEscape_alone {u : CodeUnit}
    (apart : u.High → ∀ bytes, rest ≠ 0x5C :: 0x75 :: bytes) :
    Leaves (parseUnicodeEscape { rest := digits u ++ rest, pos }) u.alone rest := by
  refine (parseHex4_digits u).bind fun pos => ?_
  have small := u.value_lt
  unfold CodeUnit.alone
  dsimp only
  by_cases high : u.High
  · have last : ¬ (({ rest, pos } : Parser).peek = some 0x5C ∧ rest[1]? = some 0x75) := by
      rintro ⟨first, second⟩
      match rest with
      | [] => cases first
      | [_] => cases second
      | a :: b :: bytes =>
        obtain rfl : a = 0x5C := by simpa [peek] using first
        obtain rfl : b = 0x75 := by simpa using second
        exact apart high bytes rfl
    rw [if_pos high, if_neg last, if_pos (.inl high)]
    exact .ok
  · by_cases low : u.Low
    · rw [if_neg high, if_pos low, if_pos (.inr low)]
      exact .ok
    · have valid : u.value.isValidChar := by
        unfold Nat.isValidChar
        omega
      rw [if_neg high, if_neg low, if_neg (not_or.mpr ⟨high, low⟩), charOr, if_pos valid]
      exact .ok

/-- A high surrogate takes the unit behind it along. -/
theorem parseUnicodeEscape_pair {u v : CodeUnit} (high : u.High) :
    Leaves (parseUnicodeEscape { rest := digits u ++ 0x5C :: 0x75 :: (digits v ++ rest), pos })
      (if v.Low then u.join v else Char.ofNat 0xFFFD) rest := by
  refine (parseHex4_digits u).bind fun pos => ?_
  dsimp only
  rw [if_pos high, if_pos ⟨rfl, rfl⟩]
  refine (parseHex4_digits v).bind fun pos => ?_
  dsimp only
  by_cases low : v.Low
  · have valid : (0x10000 + (u.value - 0xD800) * 1024 + (v.value - 0xDC00)).isValidChar := by
      unfold Nat.isValidChar
      omega
    rw [if_pos low, if_pos low, charOr, if_pos valid]
    exact .ok
  · rw [if_neg low, if_neg low]
    exact .ok

theorem readsBefore_unit {u : CodeUnit} (apart : u.High → ∀ bytes, after ≠ 0x5C :: 0x75 :: bytes) :
    ReadsBefore u.text u.alone after := by
  refine ⟨1, by simp [toUtf8_unit], fun fuel pos out => ?_⟩
  rw [toUtf8_unit]
  exact stringLoop_escape fun pos => (parseUnicodeEscape_alone apart).bind fun pos => .ok

theorem readsBefore_pair {u v : CodeUnit} (high : u.High) :
    ReadsBefore (u.text ++ v.text) (if v.Low then u.join v else Char.ofNat 0xFFFD) after := by
  refine ⟨1, by simp [toUtf8_append, toUtf8_unit], fun fuel pos out => ?_⟩
  have spelled : toUtf8 (u.text ++ v.text) ++ after =
      0x5C :: ((0x75 :: digits u) ++ 0x5C :: 0x75 :: digits v) ++ after := by
    rw [toUtf8_append, toUtf8_unit, toUtf8_unit]
    rfl
  rw [spelled]
  refine stringLoop_escape fun pos => ?_
  rw [List.append_assoc]
  exact (parseUnicodeEscape_pair high).bind fun pos => .ok

/-- Before the text of pieces that do not begin with a unit, no `\u` stands. -/
theorem apart_pieces {pieces : List Piece} (other : ∀ v more, pieces ≠ .unit v :: more)
    (bytes : Bytes) : toUtf8 (pieces.flatMap Piece.text) ++ 0x22 :: rest ≠ 0x5C :: 0x75 :: bytes := by
  intro same
  cases pieces with
  | nil => cases same
  | cons piece more =>
    rw [List.flatMap_cons, toUtf8_append] at same
    cases piece with
    | unit v => exact other v more rfl
    | short letter c known =>
      simp only [shortEscapes, List.mem_cons, Prod.mk.injEq, List.not_mem_nil, or_false] at known
      rcases known with ⟨rfl, rfl⟩ | ⟨rfl, rfl⟩ | ⟨rfl, rfl⟩ | ⟨rfl, rfl⟩ | ⟨rfl, rfl⟩ | ⟨rfl, rfl⟩ |
        ⟨rfl, rfl⟩ | ⟨rfl, rfl⟩
      all_goals cases same
    | char c quote backslash =>
      have text : toUtf8 (Piece.text (.char c quote backslash)) = String.utf8EncodeChar c :=
        List.flatMap_singleton ..
      have some_ := encodes c
      rw [text] at same
      generalize enc : String.utf8EncodeChar c = first at same some_
      cases first with
      | nil => cases some_
      | cons b others =>
        obtain ⟨rfl, -⟩ := List.cons.inj same
        have mem : (0x5C : UInt8) ∈ String.utf8EncodeChar c := enc ▸ List.mem_cons_self
        rcases mem_utf8EncodeChar mem with value | high
        · exact backslash (Char.toNat_inj.mp value.symm)
        · exact absurd high (by decide)

/-- The closing quote. -/
theorem stringLoop_quote {out : Bytes} (enough : 0 < fuel) :
    Leaves (stringLoop fuel { rest := 0x22 :: rest, pos } out) out rest := by
  cases fuel with
  | zero => cases enough
  | succ fuel =>
    refine ⟨pos + 1, ?_⟩
    simp [stringLoop, bump, peek, skip]
    rfl

/-- The loop reads the pieces up to the closing quote. -/
theorem stringLoop_pieces (pieces : List Piece) {out : Bytes}
    (enough : (toUtf8 (pieces.flatMap Piece.text)).length < fuel) :
    Leaves (stringLoop fuel { rest := toUtf8 (pieces.flatMap Piece.text) ++ 0x22 :: rest, pos } out)
      (out ++ toUtf8 (readUtf16 pieces)) rest := by
  -- the characters one by one: what is read first, and what the later ones give
  have step {text : List Char} {c : Char} {more : List Piece} {s : List Char} {fuel pos : Nat}
      {out : Bytes} (reads : ReadsBefore text c (toUtf8 (more.flatMap Piece.text) ++ 0x22 :: rest))
      (enough : (toUtf8 (text ++ more.flatMap Piece.text)).length < fuel)
      (ih : ∀ {fuel pos : Nat} {out : Bytes}, (toUtf8 (more.flatMap Piece.text)).length < fuel →
        Leaves (stringLoop fuel { rest := toUtf8 (more.flatMap Piece.text) ++ 0x22 :: rest, pos } out)
          (out ++ toUtf8 s) rest) :
      Leaves (stringLoop fuel
        { rest := toUtf8 (text ++ more.flatMap Piece.text) ++ 0x22 :: rest, pos } out)
        (out ++ toUtf8 (c :: s)) rest := by
    rw [toUtf8_append, List.length_append] at enough
    rw [toUtf8_append, List.append_assoc]
    refine reads.leaves enough fun fuel pos enough => ?_
    have later := @ih fuel pos (out ++ String.utf8EncodeChar c) enough
    rwa [List.append_assoc] at later
  fun_induction readUtf16 pieces generalizing fuel pos out with
  | case1 =>
    rw [show toUtf8 [] = [] from rfl, List.append_nil]
    exact stringLoop_quote enough
  | case2 c quote backslash more ih => exact step ((readsChar_plain quote backslash).before _) enough ih
  | case3 letter c known more ih => exact step ((readsChar_short known).before _) enough ih
  | case4 u =>
    have alone : ReadsBefore u.text u.alone (toUtf8 (([] : List Piece).flatMap Piece.text) ++ 0x22 :: rest) :=
      readsBefore_unit fun _ => apart_pieces nofun
    refine step alone enough fun enough => ?_
    rw [show toUtf8 [] = [] from rfl, List.append_nil]
    exact stringLoop_quote enough
  | case5 u v more high ih =>
    rw [List.flatMap_cons, List.flatMap_cons, ← List.append_assoc] at enough ⊢
    exact step (readsBefore_pair high) enough ih
  | case6 u v more high ih =>
    exact step (readsBefore_unit fun high' => absurd high' high) enough ih
  | case7 u p more other ih =>
    refine step (readsBefore_unit fun _ => apart_pieces fun v more' same => ?_) enough ih
    exact other v (List.cons.inj same).1

end Parser

variable {F : Type} {f64 : F64 F}

/-- A literal is parsed, whatever its code units are. -/
theorem parse_literal (pieces : List Piece) :
    parse f64 (literal pieces) = .ok (.str (readUtf16 pieces)) := by
  have isText : toUtf8 (literal pieces) =
      0x22 :: (toUtf8 (pieces.flatMap Piece.text) ++ [0x22]) := by
    change toUtf8 (['"'] ++ (pieces.flatMap Piece.text ++ ['"'])) = _
    rw [toUtf8_append, toUtf8_append]
    rfl
  refine parse_of_leaves isText rfl (show 1 ≤ _ by omega) fun fuel pos enough => ?_
  obtain ⟨fuel, rfl⟩ := Nat.exists_eq_add_of_le' enough
  rw [isText, Parser.parseValue]
  have loop := @Parser.stringLoop_pieces [] (pos + 1)
    (toUtf8 (pieces.flatMap Piece.text) ++ [0x22]).length pieces [] (by simp)
  have read : Parser.Leaves (Parser.parseString
      { rest := 0x22 :: (toUtf8 (pieces.flatMap Piece.text) ++ [0x22]), pos }) (readUtf16 pieces) [] := by
    refine loop.bind fun pos => ?_
    dsimp only
    rw [List.nil_append, fromUtf8_toUtf8]
    exact .ok
  exact read.bind fun pos => .ok

/-! ### Where no unit is lost -/

/-- The units of a character in UTF-16. -/
def utf16Size (c : Char) : Nat :=
  if c.toNat < 0x10000 then 1 else 2

def utf16Length (s : List Char) : Nat :=
  (s.map utf16Size).sum

def Piece.size : Piece → Nat
  | char c _ _ | short _ c _ => utf16Size c
  | unit _ => 1

def sizes (pieces : List Piece) : Nat :=
  (pieces.map Piece.size).sum

@[simp] theorem utf16Length_nil : utf16Length [] = 0 :=
  rfl

@[simp] theorem utf16Length_cons (c : Char) (s : List Char) :
    utf16Length (c :: s) = utf16Size c + utf16Length s := by
  simp [utf16Length]

@[simp] theorem sizes_nil : sizes [] = 0 :=
  rfl

@[simp] theorem sizes_cons (piece : Piece) (pieces : List Piece) :
    sizes (piece :: pieces) = piece.size + sizes pieces := by
  simp [sizes]

namespace CodeUnit

@[simp] theorem size_alone (u : CodeUnit) : utf16Size u.alone = 1 := by
  have small := u.value_lt
  unfold alone
  split
  · rfl
  · rename_i other
    rw [utf16Size, toNat_ofNat_of_valid (by omega), if_pos small]

theorem size_join {u v : CodeUnit} (high : u.High) (low : v.Low) : utf16Size (u.join v) = 2 := by
  rw [utf16Size, join, toNat_ofNat_of_valid (by omega), if_neg (by omega)]

end CodeUnit

/-- Decoding keeps the number of units. -/
theorem utf16Length_decodeUtf16 (pieces : List Piece) :
    utf16Length (decodeUtf16 pieces) = sizes pieces := by
  fun_induction decodeUtf16 pieces with
  | case1 => rfl
  | case2 c quote backslash rest ih => simp [ih, Piece.size]
  | case3 letter c known rest ih => simp [ih, Piece.size]
  | case4 u => simp [Piece.size]
  | case5 u v rest pair ih =>
    simp [ih, Piece.size, CodeUnit.size_join pair.1 pair.2]
    omega
  | case6 u v rest pair ih => simp [ih, Piece.size]
  | case7 u p rest other ih => simp [ih, Piece.size]

/-- A piece that is no high surrogate takes nothing along. -/
theorem isChain_cons_of_fits {p : Piece} {pieces : List Piece} (any : ∀ q, p.Fits q)
    (rest : pieces.IsChain Piece.Fits) : (p :: pieces).IsChain Piece.Fits := by
  cases pieces with
  | nil => exact .singleton p
  | cons q pieces => exact .cons_cons (any q) rest

/-- The reader loses a unit unless each high surrogate that a unit follows has its low half. -/
theorem readUtf16_units (pieces : List Piece) :
    utf16Length (readUtf16 pieces) ≤ sizes pieces ∧
      (sizes pieces ≤ utf16Length (readUtf16 pieces) → pieces.IsChain Piece.Fits) := by
  have free {u : CodeUnit} (high : ¬ u.High) (q : Piece) : (Piece.unit u).Fits q := by
    cases q with
    | unit v => exact fun high' => absurd high' high
    | char c quote backslash => exact trivial
    | short letter c known => exact trivial
  fun_induction readUtf16 pieces with
  | case1 => exact ⟨Nat.le_refl 0, fun _ => .nil⟩
  | case2 c quote backslash rest ih =>
    simp only [utf16Length_cons, sizes_cons, Piece.size]
    refine ⟨by omega, fun same => isChain_cons_of_fits (fun _ => trivial) (ih.2 (by omega))⟩
  | case3 letter c known rest ih =>
    simp only [utf16Length_cons, sizes_cons, Piece.size]
    refine ⟨by omega, fun same => isChain_cons_of_fits (fun _ => trivial) (ih.2 (by omega))⟩
  | case4 u =>
    constructor
    · simp [Piece.size]
    · exact fun _ => .singleton _
  | case5 u v rest high ih =>
    simp only [utf16Length_cons, sizes_cons, Piece.size]
    by_cases low : v.Low
    · rw [if_pos low, CodeUnit.size_join high low]
      refine ⟨by omega, fun same => ?_⟩
      have alone : ¬ v.High := fun high' => high'.not_low low
      exact .cons_cons (fun _ => low) (isChain_cons_of_fits (free alone) (ih.2 (by omega)))
    · rw [if_neg low, show utf16Size (Char.ofNat 0xFFFD) = 1 from rfl]
      refine ⟨by omega, fun same => absurd same (by omega)⟩
  | case6 u v rest high ih =>
    simp only [utf16Length_cons, sizes_cons, Piece.size, CodeUnit.size_alone] at ih ⊢
    refine ⟨by omega, fun same => .cons_cons (free high _) (ih.2 (by omega))⟩
  | case7 u p rest other ih =>
    simp only [utf16Length_cons, sizes_cons, Piece.size, CodeUnit.size_alone] at ih ⊢
    have fits : (Piece.unit u).Fits p := by
      cases p with
      | unit v => exact absurd rfl (other v)
      | char c quote backslash => exact trivial
      | short letter c known => exact trivial
    refine ⟨by omega, fun same => .cons_cons fits (ih.2 (by omega))⟩

theorem readUtf16_of_chain {pieces : List Piece} (fits : pieces.IsChain Piece.Fits) :
    readUtf16 pieces = decodeUtf16 pieces := by
  fun_induction readUtf16 pieces with
  | case1 => rfl
  | case2 c quote backslash rest ih => rw [decodeUtf16, ih fits.tail]
  | case3 letter c known rest ih => rw [decodeUtf16, ih fits.tail]
  | case4 u => rfl
  | case5 u v rest high ih =>
    have low : v.Low := (List.isChain_cons_cons.mp fits).1 high
    have pair : u.High ∧ v.Low := ⟨high, low⟩
    rw [decodeUtf16, if_pos pair, if_pos low, ih fits.tail.tail]
  | case6 u v rest high ih =>
    rw [decodeUtf16, if_neg (fun pair => high pair.1), ih fits.tail]
  | case7 u p rest other ih => rw [decodeUtf16, ih fits.tail]; exact other

theorem readUtf16_eq_iff (pieces : List Piece) :
    readUtf16 pieces = decodeUtf16 pieces ↔ pieces.IsChain Piece.Fits := by
  constructor
  · intro same
    have length := utf16Length_decodeUtf16 pieces
    rw [← same] at length
    exact (readUtf16_units pieces).2 (Nat.le_of_eq length.symm)
  · exact readUtf16_of_chain

/-- A string is parsed as what its code units stand for just where every high surrogate
that another unit follows has its low half there. -/
theorem parse_unicode_iff (pieces : List Piece) :
    parse f64 (literal pieces) = .ok (.str (decodeUtf16 pieces)) ↔ pieces.IsChain Piece.Fits := by
  rw [parse_literal, ← readUtf16_eq_iff]
  simp

/-- `\uD83D\u0041`: the second unit is lost with the surrogate that has no other half. -/
theorem unit_lost : ¬ ∀ pieces : List Piece,
    parse Seconds.ops (literal pieces) = .ok (.str (decodeUtf16 pieces)) := by
  intro all
  have same := all [.unit ⟨⟨0xD, true⟩, ⟨8, true⟩, ⟨3, true⟩, ⟨0xD, true⟩⟩,
    .unit ⟨⟨0, true⟩, ⟨0, true⟩, ⟨4, true⟩, ⟨1, true⟩⟩]
  rw [parse_literal] at same
  injection same with same
  injection same with same
  exact absurd same (by decide)

end Posh.Rec.Json
