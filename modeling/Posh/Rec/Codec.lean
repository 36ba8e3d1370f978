import Posh.Rec.Player
import Posh.Rec.Spelling

/-!
A recording is read back as it was written: the header, then each event, a line each.
-/

namespace Posh.Rec

open Posh.Lib Posh.Term Json.Parser

variable {F : Type} {f64 : F64 F}

/-- What is documented of `f64`: a finite value is displayed as a decimal number that
parses to it, zero is finite, and a small integer is parsed exactly. -/
structure F64.Lawful (f64 : F64 F) : Prop where
  number : ∀ t, f64.isFinite t = true → IsNumber (f64.display t)
  round : ∀ t, f64.isFinite t = true → f64.parse (f64.display t) = some t
  zero : f64.isFinite f64.zero = true
  small : ∀ n : UInt16, ∃ v, f64.parse (decimal n.toNat) = some v ∧ f64.isInteger v = true ∧
    f64.inU16 v = true ∧ f64.toU16 v = n

/-! ### Numbers -/

theorem isNumber_decimal (n : Nat) : IsNumber (decimal n) := by
  have digit : ∀ c ∈ decimal n, c.isDigit = true := fun c mem =>
    Nat.isDigit_of_mem_toDigits (by decide) (by decide) mem
  have range (c : Char) (isDigit : c.isDigit = true) : 0x30 ≤ c.toNat ∧ c.toNat ≤ 0x39 := by
    simpa [Char.isDigit, UInt32.le_iff_toNat_le] using isDigit
  have byte (c : Char) (mem : c ∈ decimal n) :
      Json.Parser.isDigit (UInt8.ofNat c.toNat) = true := by
    obtain ⟨low, high⟩ := range c (digit c mem)
    unfold Json.Parser.isDigit
    rw [toNat_ofNat_small (by omega)]
    simp [low, high]
  constructor
  · intro c mem
    obtain ⟨low, high⟩ := range c (digit c mem)
    exact ⟨by omega, by simp [isNumberByte, byte c mem]⟩
  · cases digits : decimal n with
    | nil => exact absurd digits Nat.toDigits_ne_nil
    | cons c rest => exact ⟨c, rest, rfl, .inr (byte c (digits ▸ List.mem_cons_self))⟩

/-- Decimal digits are read as the number they write. -/
theorem fromStrRadix_digits {s : List Char} (digits : ∀ c ∈ s, c.isDigit = true) (some_ : s ≠ [])
    {max : Nat} (le : Nat.ofDigitChars 10 s 0 ≤ max) :
    fromStrRadix max 10 s = some (Nat.ofDigitChars 10 s 0) := by
  have range (c : Char) (isDigit : c.isDigit = true) : '0' ≤ c ∧ c ≤ '9' := by
    simpa [Char.isDigit, Char.le_def] using isDigit
  have values : s.mapM (digitOf 10) = some (s.map fun c => c.toNat - '0'.toNat) := by
    clear le some_
    induction s with
    | nil => rfl
    | cons c s ih =>
      have here := range c (digits c List.mem_cons_self)
      have small : c.toNat - '0'.toNat < 10 := by
        have high : c.toNat ≤ '9'.toNat := here.2
        have nine : '9'.toNat = 57 := rfl
        have zero : '0'.toNat = 48 := rfl
        omega
      have first : digitOf 10 c = some (c.toNat - '0'.toNat) := by
        unfold digitOf
        rw [if_pos here]
        exact if_pos small
      rw [List.mapM_cons, first, ih fun c' mem => digits c' (List.mem_cons_of_mem c mem)]
      rfl
  have value : (s.map fun c => c.toNat - '0'.toNat).foldl (fun v d => v * 10 + d) 0 =
      Nat.ofDigitChars 10 s 0 := by
    rw [List.foldl_map, Nat.ofDigitChars_eq_foldl]
    simp only [Nat.mul_comm 10]
  unfold fromStrRadix
  extract_lets unsigned
  have unsigned_eq : unsigned = s := by
    unfold unsigned
    split
    · exact absurd (digits _ List.mem_cons_self) (by decide)
    · rfl
  rw [unsigned_eq, if_neg (by simpa using some_), values, Option.bind_some]
  dsimp only
  rw [value, if_pos le]

theorem parseU16_decimal (n : UInt16) : parseU16 (decimal n.toNat) = some n.toNat := by
  have value : Nat.ofDigitChars 10 (decimal n.toNat) 0 = n.toNat := Nat.ofDigitChars_ten_toDigits
  have small := n.toNat_lt
  have digits : ∀ c ∈ decimal n.toNat, c.isDigit = true := fun c mem =>
    Nat.isDigit_of_mem_toDigits (by decide) (by decide) mem
  have parsed := fromStrRadix_digits digits Nat.toDigits_ne_nil (show _ ≤ 65535 by omega)
  rwa [value] at parsed

/-! ### Some floating-point numbers -/

/-- The whole numbers, and a tenth. -/
inductive Seconds where
  | whole (n : Nat)
  | tenth
deriving DecidableEq, Repr

namespace Seconds

def parse (s : List Char) : Option Seconds :=
  if s = "0.1".toList then some tenth
  else if s ≠ [] ∧ s.all (·.isDigit) = true then some (whole (Nat.ofDigitChars 10 s 0))
  else none

def ops : F64 Seconds where
  display
    | whole n => decimal n
    | tenth => "0.1".toList
  parse := parse
  isFinite _ := true
  isInteger
    | whole _ => true
    | tenth => false
  inU16
    | whole n => n ≤ 65535
    | tenth => true
  toU16
    | whole n => UInt16.ofNat n
    | tenth => 0
  zero := whole 0
  tenth := tenth

theorem parse_decimal (n : Nat) : parse (decimal n) = some (whole n) := by
  have digits : ∀ c ∈ decimal n, c.isDigit = true := fun c mem =>
    Nat.isDigit_of_mem_toDigits (by decide) (by decide) mem
  have other : decimal n ≠ "0.1".toList := by
    intro eq
    have dot : '.' ∈ decimal n := eq ▸ by decide
    exact absurd (digits '.' dot) (by decide)
  have value : Nat.ofDigitChars 10 (decimal n) 0 = n := Nat.ofDigitChars_ten_toDigits
  unfold parse
  rw [if_neg other, if_pos ⟨Nat.toDigits_ne_nil, List.all_eq_true.mpr digits⟩, value]

theorem lawful : ops.Lawful where
  number
    | whole n, _ => isNumber_decimal n
    | tenth, _ => ⟨fun c mem => by
        have digit : c = '0' ∨ c = '.' ∨ c = '1' := by simpa [ops] using mem
        rcases digit with rfl | rfl | rfl <;> exact ⟨by decide, rfl⟩, '0', _, rfl, .inr rfl⟩
  round
    | whole n, _ => parse_decimal n
    | tenth, _ => rfl
  zero := rfl
  small n := by
    refine ⟨whole n.toNat, parse_decimal n.toNat, rfl, ?_, ?_⟩
    · have small := n.toNat_lt
      exact decide_eq_true (show n.toNat ≤ 65535 by omega)
    · exact UInt16.ofNat_toNat

end Seconds

/-! ### Lines -/

/-- A complete value is parsed when the parser reads it off the text. -/
theorem parse_of_leaves {text : List Char} {v : Json.Value F} {need : Nat} {b : UInt8} {bytes : Bytes}
    (isText : toUtf8 text = b :: bytes) (dark : isWs b = false)
    (enough : need ≤ 3 * (toUtf8 text).length + 3)
    (reads : ∀ fuel pos, need ≤ fuel → Leaves (parseValue f64 fuel { rest := toUtf8 text, pos }) v []) :
    Json.parse f64 text = .ok v := by
  obtain ⟨pos, eq⟩ := reads _ 0 enough
  have start : ({ rest := toUtf8 text } : Json.Parser).skipWs = { rest := toUtf8 text } := by
    rw [isText]
    exact skipWs_of_head dark
  unfold Json.parse
  dsimp only
  rw [start, eq]
  rfl

theorem toUtf8_writeEvent (e : Event F) : toUtf8 (writeEvent f64 e) =
    0x5B :: (toUtf8 (f64.display e.time) ++ 0x2C :: (toUtf8 (jsonString [e.code.letter]) ++
      0x2C :: (toUtf8 (jsonString e.data) ++ [0x5D]))) := by
  unfold writeEvent formatTime
  simp only [toUtf8_append, List.append_assoc]
  rfl

/-- An event line is parsed as the array of its time, its letter and its data. -/
theorem parse_writeEvent (lawful : f64.Lawful) (e : Event F) (finite : f64.isFinite e.time = true) :
    Json.parse f64 (writeEvent f64 e) =
      .ok (.arr [.num e.time, .str [e.code.letter], .str e.data]) := by
  have time := spells_number (lawful.number _ finite) (lawful.round _ finite)
  have letter := @spells_string F f64 [e.code.letter]
  have data := @spells_string F f64 e.data
  refine parse_of_leaves (toUtf8_writeEvent e) rfl (show 6 ≤ _ by
    rw [toUtf8_writeEvent]
    simp) fun fuel pos enough => ?_
  obtain ⟨fuel, rfl⟩ := Nat.exists_eq_add_of_le' enough
  rw [toUtf8_writeEvent]
  refine parseValue_array time fun pos => ?_
  refine arrayLoop_next time (by omega) fun pos => ?_
  refine arrayLoop_next letter (by omega) fun pos => ?_
  exact arrayLoop_last data (by omega)

/-! ### The header -/

theorem spells_decimal (lawful : f64.Lawful) (n : UInt16) :
    ∃ v, Spells f64 1 (decimal n.toNat) (.num v) ∧ (Json.Value.num v).asU16 f64 = some n := by
  obtain ⟨v, parsed, integer, inside, value⟩ := lawful.small n
  refine ⟨v, spells_number (isNumber_decimal n.toNat) parsed, ?_⟩
  simp [Json.Value.asU16, integer, inside, value]

/-- The `posh_rec` record as written. -/
def poshRecText (pr : PoshRec) : List Char :=
  "\x7b\"v\":".toList ++ decimal pr.v.toNat ++ ",\"emu_rev\":".toList ++ jsonString pr.emuRev ++
    "\x7d".toList

theorem toUtf8_poshRecText (pr : PoshRec) : toUtf8 (poshRecText pr) =
    0x7B :: (toUtf8 (jsonString "v".toList) ++ 0x3A :: (toUtf8 (decimal pr.v.toNat) ++
      0x2C :: (toUtf8 (jsonString "emu_rev".toList) ++ 0x3A :: (toUtf8 (jsonString pr.emuRev) ++
        [0x7D])))) := by
  unfold poshRecText
  simp only [toUtf8_append, List.append_assoc]
  rfl

theorem spells_poshRec (lawful : f64.Lawful) (pr : PoshRec) :
    ∃ v, Spells f64 5 (poshRecText pr) v ∧ parsePoshRec f64 v = some pr := by
  obtain ⟨n, spells, value⟩ := spells_decimal lawful pr.v
  refine ⟨.obj [("v".toList, .num n), ("emu_rev".toList, .str pr.emuRev)], ⟨?_, ?_⟩, ?_⟩
  · intro fuel pos rest enough ends
    obtain ⟨fuel, rfl⟩ := Nat.exists_eq_add_of_le' enough
    rw [toUtf8_poshRecText]
    simp only [List.cons_append, List.append_assoc, List.nil_append]
    refine parseValue_object fun pos => ?_
    refine objectLoop_next spells (by omega) fun pos => ?_
    exact objectLoop_last (spells_string pr.emuRev) (by omega)
  · exact ⟨_, _, toUtf8_poshRecText pr, rfl, by decide⟩
  · unfold parsePoshRec
    simp [Json.Value.get, value, Json.Value.asStr]

/-- What of a header line follows its height. -/
def headerTail : Option PoshRec → Bytes
  | none => [0x7D]
  | some pr => 0x2C :: (toUtf8 (jsonString "posh_rec".toList) ++ 0x3A :: (toUtf8 (poshRecText pr) ++ [0x7D]))

theorem toUtf8_writeHeader (h : Header) : toUtf8 (writeHeader h) =
    0x7B :: (toUtf8 (jsonString "version".toList) ++ 0x3A :: (toUtf8 (decimal h.version.toNat) ++
      0x2C :: (toUtf8 (jsonString "width".toList) ++ 0x3A :: (toUtf8 (decimal h.width.toNat) ++
        0x2C :: (toUtf8 (jsonString "height".toList) ++ 0x3A :: (toUtf8 (decimal h.height.toNat) ++
          headerTail h.poshRec)))))) := by
  unfold writeHeader
  cases h.poshRec with
  | none =>
    simp only [toUtf8_append, List.append_assoc]
    rfl
  | some pr =>
    simp only [toUtf8_append, List.append_assoc, headerTail, toUtf8_poshRecText, List.cons_append,
      List.nil_append]
    rfl

theorem get_head (key : List Char) (val : Json.Value F) (rest : List (List Char × Json.Value F)) :
    (Json.Value.obj ((key, val) :: rest)).get key = some val := by
  simp [Json.Value.get]

/-- The fields of a header object are found by their names. -/
theorem parseHeader_obj {n₁ n₂ n₃ : F} {version width height : UInt16}
    {rest : List (List Char × Json.Value F)}
    (number : (Json.Value.num n₁).asU16 f64 = some version) (two : version = 2)
    (cols : (Json.Value.num n₂).asU16 f64 = some width)
    (rows : (Json.Value.num n₃).asU16 f64 = some height) :
    parseHeader f64 (.obj (("version".toList, .num n₁) :: ("width".toList, .num n₂) ::
      ("height".toList, .num n₃) :: rest)) = .ok
        ⟨version, width, height,
          ((Json.Value.obj rest).get "posh_rec".toList).bind (parsePoshRec f64)⟩ := by
  subst two
  unfold parseHeader
  rw [get_head]
  dsimp only
  rw [number]
  change Except.ok (⟨2, ((Json.Value.num n₂).asU16 f64).getD 80,
    ((Json.Value.num n₃).asU16 f64).getD 24, _⟩ : Header) = _
  rw [cols, rows]
  rfl

/-- A header line is read as the header it was written for. -/
theorem parse_writeHeader (lawful : f64.Lawful) (h : Header) (version : h.version = 2) :
    ∃ v, Json.parse f64 (writeHeader h) = .ok v ∧ parseHeader f64 v = .ok h := by
  obtain ⟨n₁, spells₁, value₁⟩ := spells_decimal lawful h.version
  obtain ⟨n₂, spells₂, value₂⟩ := spells_decimal lawful h.width
  obtain ⟨n₃, spells₃, value₃⟩ := spells_decimal lawful h.height
  have parses {v : Json.Value F} (tail : ∀ fuel pos, 7 ≤ fuel →
      Leaves (objectLoop f64 fuel
        { rest := toUtf8 (jsonString "height".toList) ++ 0x3A :: (toUtf8 (decimal h.height.toNat) ++
          headerTail h.poshRec), pos }
        [("version".toList, .num n₁), ("width".toList, .num n₂)]) v []) :
      Json.parse f64 (writeHeader h) = .ok v := by
    refine parse_of_leaves (toUtf8_writeHeader h) rfl (show 11 ≤ _ by
      rw [toUtf8_writeHeader]
      simp only [List.length_cons, List.length_append]
      omega) fun fuel pos enough => ?_
    obtain ⟨fuel, rfl⟩ := Nat.exists_eq_add_of_le' enough
    rw [toUtf8_writeHeader]
    refine parseValue_object fun pos => ?_
    refine objectLoop_next spells₁ (by omega) fun pos => ?_
    refine objectLoop_next spells₂ (by omega) fun pos => ?_
    exact tail _ pos (by omega)
  obtain ⟨number, width, height, poshRec⟩ := h
  dsimp only at *
  subst version
  cases poshRec with
  | none =>
    refine ⟨.obj [("version".toList, .num n₁), ("width".toList, .num n₂),
      ("height".toList, .num n₃)], parses fun fuel pos enough => ?_, ?_⟩
    · obtain ⟨fuel, rfl⟩ := Nat.exists_eq_add_of_le' enough
      exact objectLoop_last spells₃ (by omega)
    · exact parseHeader_obj value₁ rfl value₂ value₃
  | some pr =>
    obtain ⟨v, spells, value⟩ := spells_poshRec lawful pr
    refine ⟨.obj [("version".toList, .num n₁), ("width".toList, .num n₂), ("height".toList, .num n₃),
      ("posh_rec".toList, v)], parses fun fuel pos enough => ?_, ?_⟩
    · obtain ⟨fuel, rfl⟩ := Nat.exists_eq_add_of_le' enough
      refine objectLoop_next spells₃ (by omega) fun pos => ?_
      exact objectLoop_last spells (by omega)
    · refine (parseHeader_obj value₁ rfl value₂ value₃).trans ?_
      change Except.ok (⟨2, width, height, parsePoshRec f64 v⟩ : Header) = _
      rw [value]

/-! ### The file -/

/-- A line that is no blank and that neither breaks nor ends in a carriage return. -/
structure IsLine (line : List Char) : Prop where
  unbroken : '\n' ∉ line
  dark : ∃ c rest, line = c :: rest ∧ isWhitespace c = false
  ends : line.getLast? ≠ some '\r'

theorem newline_not_mem_jsonString (s : List Char) : '\n' ∉ jsonString s := by
  have control : ∀ n < 0x20, '\n' ∉ "\\u".toList ++ hexPadded 4 n := by decide
  have one (c : Char) : '\n' ∉ escapeChar c := by
    unfold escapeChar
    split
    case h_8 newline _ _ _ _ =>
      split
      · rename_i small
        exact control _ small
      · exact fun mem => newline (List.mem_singleton.mp mem).symm
    all_goals decide
  intro mem
  unfold jsonString at mem
  rw [List.mem_append, List.mem_append] at mem
  rcases mem with (quote | inside) | quote
  · exact absurd quote (by decide)
  · obtain ⟨c, -, mem⟩ := List.mem_flatMap.mp inside
    exact one c mem
  · exact absurd quote (by decide)

theorem newline_not_mem_number {text : List Char} (number : IsNumber text) : '\n' ∉ text := by
  intro mem
  exact absurd (number.chars _ mem) (by decide)

theorem isLine_writeEvent (lawful : f64.Lawful) {e : Event F} (finite : f64.isFinite e.time = true) :
    IsLine (writeEvent f64 e) := by
  constructor
  · intro mem
    unfold writeEvent formatTime at mem
    simp only [List.mem_append] at mem
    rcases mem with ((((((lit | time) | lit) | letter) | lit) | data) | lit)
    · exact absurd lit (by decide)
    · exact newline_not_mem_number (lawful.number _ finite) time
    · exact absurd lit (by decide)
    · exact newline_not_mem_jsonString _ letter
    · exact absurd lit (by decide)
    · exact newline_not_mem_jsonString _ data
    · exact absurd lit (by decide)
  · exact ⟨'[', _, rfl, by decide⟩
  · unfold writeEvent
    rw [List.getLast?_append]
    change some ']' ≠ some '\r'
    decide

theorem isLine_writeHeader (h : Header) : IsLine (writeHeader h) := by
  have digits (n : Nat) : '\n' ∉ decimal n := newline_not_mem_number (isNumber_decimal n)
  constructor
  · intro mem
    unfold writeHeader at mem
    simp only [List.mem_append] at mem
    rcases mem with ((((((lit | number) | lit) | number) | lit) | number) | rec_) | lit
    · exact absurd lit (by decide)
    · exact digits _ number
    · exact absurd lit (by decide)
    · exact digits _ number
    · exact absurd lit (by decide)
    · exact digits _ number
    · split at rec_
      · simp only [List.mem_append] at rec_
        rcases rec_ with (((lit | number) | lit) | emu) | lit
        · exact absurd lit (by decide)
        · exact digits _ number
        · exact absurd lit (by decide)
        · exact newline_not_mem_jsonString _ emu
        · exact absurd lit (by decide)
      · cases rec_
    · exact absurd lit (by decide)
  · exact ⟨'\x7b', _, rfl, by decide⟩
  · unfold writeHeader
    rw [List.getLast?_append]
    change some '\x7d' ≠ some '\r'
    decide

theorem nextLine_line {line : List Char} (isLine : IsLine line) (lines : List (List Char))
    (lineNo : Nat) :
    Reader.nextLine (line :: lines) lineNo = (some line, { lines, lineNo := lineNo + 1 }) := by
  obtain ⟨c, rest, rfl, dark⟩ := isLine.dark
  have kept : stripCr (c :: rest) = c :: rest := if_neg isLine.ends
  have some_ : (trim (c :: rest)).isEmpty = false := by
    unfold trim
    rw [List.dropWhile_cons, if_neg (by rw [dark]; exact Bool.false_ne_true)]
    rw [List.isEmpty_eq_false_iff, ne_eq, List.rdropWhile_eq_nil_iff]
    intro all
    rw [all c List.mem_cons_self] at dark
    cases dark
  unfold Reader.nextLine
  rw [kept]
  dsimp only
  rw [some_, if_neg Bool.false_ne_true]

/-- The text of a recording. -/
def recordingText (f64 : F64 F) (h : Header) (events : List (Event F)) : List Char :=
  writeHeader h ++ '\n' :: events.flatMap fun e => writeEvent f64 e ++ ['\n']

theorem splitOn_lines {lines : List (List Char)} (unbroken : ∀ line ∈ lines, '\n' ∉ line) :
    (lines.flatMap fun line => line ++ ['\n']).splitOn '\n' = lines ++ [[]] := by
  induction lines with
  | nil => rfl
  | cons line lines ih =>
    rw [List.flatMap_cons, List.append_assoc, List.singleton_append, List.splitOn_append_cons_self,
      List.splitOn_eq_singleton (unbroken line List.mem_cons_self),
      ih fun line' mem => unbroken line' (List.mem_cons_of_mem line mem)]
    rfl

/-- The events the reader returns as they were written. -/
def Event.Recorded (f64 : F64 F) (e : Event F) : Prop :=
  f64.isFinite e.time = true ∧ EventCode.fromLetter [e.code.letter] = e.code

theorem nextEvent_writeEvent (lawful : f64.Lawful) {e : Event F} (recorded : e.Recorded f64)
    (lines : List (List Char)) (lineNo : Nat) :
    Reader.nextEvent f64 { lines := writeEvent f64 e :: lines, lineNo } =
      (some (.ok e), { lines, lineNo := lineNo + 1 }) := by
  unfold Reader.nextEvent
  rw [nextLine_line (isLine_writeEvent lawful recorded.1)]
  dsimp only
  unfold Reader.parseLine
  rw [parse_writeEvent lawful e recorded.1]
  simp [parseEvent, Json.Value.asArray, Json.Value.asF64, Json.Value.asStr, recorded.2, Except.mapError]
  rfl

end Posh.Rec
