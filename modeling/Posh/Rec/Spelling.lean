import Posh.Rec.Castx

/-!
What the JSON reader reads of the texts the writers write.

A text spells a value when the parser, with enough fuel, reads the value off its front
whatever follows, and stops right behind it.
-/

namespace Posh.Rec.Json

open Posh.Lib Posh.Term

namespace Parser

variable {α β : Type} {rest rest' : Bytes} {pos fuel : Nat}

/-- The result is `a`, and the parser stands before `rest`. -/
def Leaves (x : Except Error (α × Parser)) (a : α) (rest : Bytes) : Prop :=
  ∃ pos, x = .ok (a, { rest, pos })

theorem Leaves.ok {a : α} : Leaves (.ok (a, { rest, pos })) a rest :=
  ⟨pos, rfl⟩

theorem Leaves.bind {x : Except Error (α × Parser)} {a : α} {b : β}
    {f : α × Parser → Except Error (β × Parser)} (h : Leaves x a rest)
    (next : ∀ pos, Leaves (f (a, { rest, pos })) b rest') : Leaves (x >>= f) b rest' := by
  obtain ⟨pos, rfl⟩ := h
  exact next pos

/-! ### White space -/

theorem skipWs_of_head {b : UInt8} (dark : isWs b = false) :
    ({ rest := b :: rest, pos } : Parser).skipWs = { rest := b :: rest, pos } := by
  simp [skipWs, skip, dark]

/-! ### Strings -/

/-- A byte of a string that stands for itself. -/
def Plain (b : UInt8) : Prop :=
  b.toNat ≠ 0x22 ∧ b.toNat ≠ 0x5C

theorem stringLoop_plain {bytes out : Bytes} (plain : ∀ b ∈ bytes, Plain b) :
    ∃ pos', stringLoop (fuel + bytes.length) { rest := bytes ++ rest, pos } out =
      stringLoop fuel { rest, pos := pos' } (out ++ bytes) := by
  induction bytes generalizing pos out with
  | nil => exact ⟨pos, by simp⟩
  | cons b bytes ih =>
    obtain ⟨quote, backslash⟩ := plain b List.mem_cons_self
    obtain ⟨pos', rest_eq⟩ := @ih (pos + 1) (out ++ [b]) fun b' mem =>
      plain b' (List.mem_cons_of_mem b mem)
    refine ⟨pos', ?_⟩
    rw [List.append_assoc] at rest_eq
    rw [List.length_cons, ← Nat.add_assoc, stringLoop]
    simpa [bump, peek, skip, quote, backslash] using rest_eq

/-- An escape sequence in a string. -/
theorem stringLoop_escape {escape bytes out : Bytes}
    (reads : ∀ pos, Leaves (parseEscape { rest := escape ++ rest, pos }) bytes rest) :
    ∃ pos', stringLoop (fuel + 1) { rest := 0x5C :: escape ++ rest, pos } out =
      stringLoop fuel { rest, pos := pos' } (out ++ bytes) := by
  obtain ⟨pos', eq⟩ := reads (pos + 1)
  refine ⟨pos', ?_⟩
  rw [stringLoop]
  simp [bump, peek, skip, eq, bind, Except.bind]

/-- The loop reads a character of `n` bytes of text, in at most as many passes. -/
def ReadsChar (text : List Char) (c : Char) : Prop :=
  ∃ k ≤ (toUtf8 text).length, ∀ (fuel pos : Nat) (rest out : Bytes),
    ∃ pos', stringLoop (fuel + k) { rest := toUtf8 text ++ rest, pos } out =
      stringLoop fuel { rest, pos := pos' } (out ++ String.utf8EncodeChar c)

theorem readsChar_escape {e : UInt8} {text : List Char} {c : Char}
    (spelled : toUtf8 text = [0x5C, e])
    (reads : ∀ rest pos, Leaves (parseEscape { rest := e :: rest, pos }) (String.utf8EncodeChar c) rest) :
    ReadsChar text c := by
  refine ⟨1, by simp [spelled], fun fuel pos rest out => ?_⟩
  rw [spelled]
  exact @stringLoop_escape rest pos fuel [e] _ out fun pos => reads rest pos

/-- The hex digit of a value below sixteen. -/
def hexByte (d : Nat) : UInt8 :=
  UInt8.ofNat (if d < 10 then 0x30 + d else 0x57 + d)

theorem hexDigit_hexByte {d : Nat} (small : d < 16) : hexDigit (hexByte d) = some d := by
  have all : ∀ d < 16, hexDigit (hexByte d) = some d := by decide
  exact all d small

theorem toUtf8_control {n : Nat} (small : n < 0x20) :
    toUtf8 ("\\u".toList ++ hexPadded 4 n) =
      [0x5C, 0x75, hexByte 0, hexByte 0, hexByte (n / 16), hexByte (n % 16)] := by
  have all : ∀ n < 0x20, toUtf8 ("\\u".toList ++ hexPadded 4 n) =
      [0x5C, 0x75, hexByte 0, hexByte 0, hexByte (n / 16), hexByte (n % 16)] := by decide
  exact all n small

theorem parseHex4_hexBytes {a b c d : Nat} (ha : a < 16) (hb : b < 16) (hc : c < 16) (hd : d < 16) :
    Leaves (parseHex4 { rest := hexByte a :: hexByte b :: hexByte c :: hexByte d :: rest, pos })
      (((a * 16 + b) * 16 + c) * 16 + d) rest := by
  refine ⟨pos + 1 + 1 + 1 + 1, ?_⟩
  simp [parseHex4, hexDigits, bump, peek, skip, hexDigit_hexByte, ha, hb, hc, hd]
  rfl

/-- A code unit that is no surrogate. -/
theorem parseUnicodeEscape_spec {p : Parser} {c : Char} (small : c.toNat < 0xD800)
    (digits : Leaves p.parseHex4 c.toNat rest) : Leaves p.parseUnicodeEscape c rest := by
  refine digits.bind fun pos => ?_
  have valid : c.toNat.isValidChar := Or.inl small
  dsimp only
  rw [if_neg (by omega), if_neg (by omega), charOr, if_pos valid, Char.ofNat_toNat]
  exact .ok

theorem readsChar_control {c : Char} (small : c.toNat < 0x20) :
    ReadsChar ("\\u".toList ++ hexPadded 4 c.toNat) c := by
  refine ⟨1, by rw [toUtf8_control small]; simp, fun fuel pos rest out => ?_⟩
  rw [toUtf8_control small]
  refine @stringLoop_escape rest pos fuel
    [0x75, hexByte 0, hexByte 0, hexByte (c.toNat / 16), hexByte (c.toNat % 16)] _ out fun pos => ?_
  have digits := @parseHex4_hexBytes rest (pos + 1) 0 0 (c.toNat / 16) (c.toNat % 16)
    (by decide) (by decide) (by omega) (by omega)
  have value : ((0 * 16 + 0) * 16 + c.toNat / 16) * 16 + c.toNat % 16 = c.toNat := by omega
  rw [value] at digits
  exact (parseUnicodeEscape_spec (by omega) digits).bind fun pos => .ok

theorem readsChar_plain {c : Char} (quote : c ≠ '\"') (backslash : c ≠ '\\') : ReadsChar [c] c := by
  have text : toUtf8 [c] = String.utf8EncodeChar c := List.flatMap_singleton ..
  refine ⟨(String.utf8EncodeChar c).length, by rw [text], fun fuel pos rest out => ?_⟩
  rw [text]
  apply stringLoop_plain
  intro b mem
  have ne (d : Char) (other : c ≠ d) : c.toNat ≠ d.toNat := fun same => other (Char.toNat_inj.mp same)
  have := ne _ quote
  have := ne _ backslash
  rcases mem_utf8EncodeChar mem with same | high
  · exact ⟨by rw [same]; assumption, by rw [same]; assumption⟩
  · exact ⟨by omega, by omega⟩

/-- Every character is read back from its escape. -/
theorem readsChar_escapeChar (c : Char) : ReadsChar (escapeChar c) c := by
  unfold escapeChar
  split
  · exact readsChar_escape rfl fun rest pos => .ok
  · exact readsChar_escape rfl fun rest pos => .ok
  · exact readsChar_escape rfl fun rest pos => .ok
  · exact readsChar_escape rfl fun rest pos => .ok
  · exact readsChar_escape rfl fun rest pos => .ok
  · exact readsChar_escape rfl fun rest pos => .ok
  · exact readsChar_escape rfl fun rest pos => .ok
  · rename_i quote backslash _ _ _ _ _
    split
    · rename_i small
      exact readsChar_control small
    · exact readsChar_plain quote backslash

theorem stringLoop_escaped (s : List Char) {out : Bytes}
    (enough : (toUtf8 (s.flatMap escapeChar)).length < fuel) :
    Leaves (stringLoop fuel { rest := toUtf8 (s.flatMap escapeChar) ++ 0x22 :: rest, pos } out)
      (out ++ toUtf8 s) rest := by
  induction s generalizing fuel pos out with
  | nil =>
    cases fuel with
    | zero => cases enough
    | succ fuel =>
      refine ⟨pos + 1, ?_⟩
      simp [toUtf8, stringLoop, bump, peek, skip]
      rfl
  | cons c s ih =>
    rw [List.flatMap_cons, toUtf8_append] at enough ⊢
    rw [List.length_append] at enough
    obtain ⟨k, few, reads⟩ := readsChar_escapeChar c
    obtain ⟨pos', eq⟩ := reads (fuel - k) pos (toUtf8 (s.flatMap escapeChar) ++ 0x22 :: rest) out
    rw [Nat.sub_add_cancel (by omega)] at eq
    rw [List.append_assoc, eq]
    have := @ih pos' (fuel - k) (out ++ String.utf8EncodeChar c) (by omega)
    rwa [List.append_assoc] at this

theorem toUtf8_jsonString (s : List Char) :
    toUtf8 (jsonString s) = 0x22 :: (toUtf8 (s.flatMap escapeChar) ++ [0x22]) := by
  unfold jsonString
  rw [toUtf8_append, toUtf8_append]
  rfl

/-- A string is read back from what is written for it. -/
theorem parseString_jsonString (s : List Char) :
    Leaves (parseString { rest := toUtf8 (jsonString s) ++ rest, pos }) s rest := by
  rw [toUtf8_jsonString]
  have loop := @stringLoop_escaped rest (pos + 1)
    (toUtf8 (s.flatMap escapeChar) ++ 0x22 :: rest).length s [] (by simp)
  unfold parseString
  have start : ({ rest := (0x22 :: (toUtf8 (s.flatMap escapeChar) ++ [0x22])) ++ rest, pos } : Parser).skip 1 =
      { rest := toUtf8 (s.flatMap escapeChar) ++ 0x22 :: rest, pos := pos + 1 } := by
    simp [skip]
  rw [start]
  refine loop.bind fun pos => ?_
  dsimp only
  rw [List.nil_append, fromUtf8_toUtf8]
  exact .ok

/-! ### Numbers -/

/-- A character a number is made of. -/
def IsNumberChar (c : Char) : Prop :=
  c.toNat < 0x80 ∧ isNumberByte (UInt8.ofNat c.toNat) = true

instance : DecidablePred IsNumberChar :=
  fun c => inferInstanceAs (Decidable (c.toNat < 0x80 ∧ _))

/-- A text the parser takes for a number. -/
structure IsNumber (text : List Char) : Prop where
  chars : ∀ c ∈ text, IsNumberChar c
  first : ∃ c rest, text = c :: rest ∧ (c = '-' ∨ isDigit (UInt8.ofNat c.toNat) = true)

/-- Where a value ends. -/
def Ends (rest : Bytes) : Prop :=
  ∀ b, rest.head? = some b → b = 0x2C ∨ b = 0x5D ∨ b = 0x7D

theorem takeWhile_number {bytes : Bytes} (number : ∀ b ∈ bytes, isNumberByte b = true)
    (ends : Ends rest) : (bytes ++ rest).takeWhile isNumberByte = bytes := by
  rw [List.takeWhile_append_of_pos number]
  cases rest with
  | nil => simp
  | cons b rest =>
    have stop : isNumberByte b = false := by
      rcases ends b rfl with rfl | rfl | rfl <;> rfl
    rw [List.takeWhile_cons, if_neg (by rw [stop]; exact Bool.false_ne_true), List.append_nil]

/-- A number is read as far as it goes. -/
theorem parseNumber_spec {F : Type} {f64 : F64 F} {text : List Char} {v : F} (number : IsNumber text)
    (value : f64.parse text = some v) (ends : Ends rest) :
    Leaves (parseNumber f64 { rest := toUtf8 text ++ rest, pos }) (.num v) rest := by
  have ascii : toUtf8 text = text.map fun c => UInt8.ofNat c.toNat :=
    toUtf8_ascii fun c mem => (number.chars c mem).1
  have bytes : ∀ b ∈ toUtf8 text, isNumberByte b = true := by
    intro b mem
    rw [ascii] at mem
    obtain ⟨c, inside, rfl⟩ := List.mem_map.mp mem
    exact (number.chars c inside).2
  have back : (toUtf8 text).map (fun b => Char.ofNat b.toNat) = text := by
    rw [ascii, List.map_map]
    conv_rhs => rw [← List.map_id text]
    refine List.map_congr_left fun c mem => ?_
    have small := (number.chars c mem).1
    change Char.ofNat (UInt8.ofNat c.toNat).toNat = c
    rw [toNat_ofNat_small (by omega), Char.ofNat_toNat]
  obtain ⟨c, more, isText, -⟩ := number.first
  have some_ : toUtf8 text ≠ [] := by
    rw [ascii, isText]
    exact List.cons_ne_nil _ _
  generalize toUtf8 text = all at bytes back some_
  obtain ⟨b, others, rfl⟩ := List.exists_cons_of_ne_nil some_
  have length (sign : Nat) (first : sign ≤ 1) :
      sign + (((b :: others ++ rest).drop sign).takeWhile isNumberByte).length = others.length + 1 := by
    rcases Nat.le_one_iff_eq_zero_or_eq_one.mp first with rfl | rfl
    · rw [List.drop_zero, takeWhile_number bytes ends, List.length_cons, Nat.zero_add]
    · rw [List.cons_append, List.drop_succ_cons, List.drop_zero,
        takeWhile_number (fun b' mem => bytes b' (List.mem_cons_of_mem b mem)) ends, Nat.add_comm]
  unfold parseNumber
  dsimp only
  rw [length _ (by split <;> decide), List.take_left' (by rfl), back, value]
  refine ⟨pos + (others.length + 1), ?_⟩
  rw [skip, List.drop_left' (by rfl)]
  rfl

/-! ### Values -/

variable {F : Type} {f64 : F64 F}

/-- With `need` fuel the parser reads the value off the front of any text. -/
structure Spells (f64 : F64 F) (need : Nat) (text : List Char) (v : Value F) : Prop where
  reads : ∀ {fuel pos : Nat} {rest : Bytes}, need ≤ fuel → Ends rest →
    Leaves (parseValue f64 fuel { rest := toUtf8 text ++ rest, pos }) v rest
  starts : ∃ b bytes, toUtf8 text = b :: bytes ∧ isWs b = false ∧ b ≠ 0x5D

theorem peek_jsonString (s : List Char) :
    ({ rest := toUtf8 (jsonString s) ++ rest, pos } : Parser).peek = some 0x22 := by
  rw [toUtf8_jsonString]
  rfl

theorem spells_string (s : List Char) : Spells f64 1 (jsonString s) (.str s) := by
  constructor
  · intro fuel pos rest enough ends
    cases fuel with
    | zero => cases enough
    | succ fuel =>
      rw [parseValue, peek_jsonString]
      exact (parseString_jsonString s).bind fun pos => .ok
  · exact ⟨_, _, toUtf8_jsonString s, rfl, by decide⟩

theorem isWs_number {b : UInt8} (number : isNumberByte b = true) : isWs b = false := by
  simp only [isNumberByte, isDigit, Bool.or_eq_true, Bool.and_eq_true, decide_eq_true_eq,
    beq_iff_eq] at number
  simp only [isWs, Bool.or_eq_false_iff, beq_eq_false_iff_ne]
  have dot : '.'.toNat = 0x2E := rfl
  have e : 'e'.toNat = 0x65 := rfl
  have E : 'E'.toNat = 0x45 := rfl
  have plus : '+'.toNat = 0x2B := rfl
  have minus : '-'.toNat = 0x2D := rfl
  omega

theorem spells_number {text : List Char} {v : F} (number : IsNumber text)
    (value : f64.parse text = some v) : Spells f64 1 text (.num v) := by
  obtain ⟨c, more, isText, first⟩ := number.first
  obtain ⟨small, numberByte⟩ := number.chars c (isText ▸ List.mem_cons_self)
  have bytes : toUtf8 text = UInt8.ofNat c.toNat :: toUtf8 more := by
    rw [isText]
    change String.utf8EncodeChar c ++ toUtf8 more = _
    rw [utf8EncodeChar_ascii small]
    rfl
  have back : Char.ofNat (UInt8.ofNat c.toNat).toNat = c := by
    rw [toNat_ofNat_small (by omega), Char.ofNat_toNat]
  constructor
  · intro fuel pos rest enough ends
    cases fuel with
    | zero => cases enough
    | succ fuel =>
      have read : Leaves (parseNumber f64 { rest := toUtf8 text ++ rest, pos }) (.num v) rest :=
        parseNumber_spec number value ends
      have peeked : ({ rest := toUtf8 text ++ rest, pos } : Parser).peek = some (UInt8.ofNat c.toNat) := by
        rw [bytes]
        rfl
      have other (d : Char) (no : d ≠ '-' ∧ isDigit (UInt8.ofNat d.toNat) = false) : c ≠ d := by
        rintro rfl
        rcases first with rfl | digit
        · exact no.1 rfl
        · rw [no.2] at digit
          cases digit
      rw [parseValue, peeked]
      dsimp only
      rw [back]
      split
      · exact absurd rfl (other _ (by decide))
      · exact absurd rfl (other _ (by decide))
      · exact absurd rfl (other _ (by decide))
      · exact absurd rfl (other _ (by decide))
      · exact absurd rfl (other _ (by decide))
      · exact absurd rfl (other _ (by decide))
      · rwa [if_pos first]
  · refine ⟨_, _, bytes, isWs_number numberByte, ?_⟩
    intro bracket
    rw [bracket] at numberByte
    cases numberByte

/-- A spelled value stands where white space would be skipped. -/
theorem Spells.skipWs {need : Nat} {text : List Char} {v : Value F} (h : Spells f64 need text v) :
    ({ rest := toUtf8 text ++ rest, pos } : Parser).skipWs = { rest := toUtf8 text ++ rest, pos } := by
  obtain ⟨b, bytes, eq, dark, -⟩ := h.starts
  rw [eq]
  exact skipWs_of_head dark

theorem ends_cons {b : UInt8} (delimiter : b = 0x2C ∨ b = 0x5D ∨ b = 0x7D) : Ends (b :: rest) := by
  intro b' first
  cases first
  exact delimiter

section

variable {need : Nat} {text : List Char} {v a : Value F} {out : List (Value F)}

/-! ### Arrays -/

theorem arrayLoop_next (h : Spells f64 need text v) (enough : need ≤ fuel)
    (next : ∀ pos, Leaves (arrayLoop f64 fuel { rest := rest', pos } (out ++ [v])) a rest) :
    Leaves (arrayLoop f64 (fuel + 1) { rest := toUtf8 text ++ 0x2C :: rest', pos } out) a rest := by
  rw [arrayLoop, h.skipWs]
  refine (h.reads enough (ends_cons (.inl rfl))).bind fun pos => ?_
  dsimp only
  rw [skipWs_of_head rfl]
  exact next _

theorem arrayLoop_last (h : Spells f64 need text v) (enough : need ≤ fuel) :
    Leaves (arrayLoop f64 (fuel + 1) { rest := toUtf8 text ++ 0x5D :: rest, pos } out)
      (.arr (out ++ [v])) rest := by
  rw [arrayLoop, h.skipWs]
  refine (h.reads enough (ends_cons (.inr (.inl rfl)))).bind fun pos => ?_
  dsimp only
  rw [skipWs_of_head rfl]
  exact .ok

theorem parseValue_array (h : Spells f64 need text v)
    (loop : ∀ pos, Leaves (arrayLoop f64 fuel { rest := toUtf8 text ++ rest', pos } []) a rest) :
    Leaves (parseValue f64 (fuel + 2) { rest := 0x5B :: (toUtf8 text ++ rest'), pos }) a rest := by
  obtain ⟨b, bytes, isText, dark, open_⟩ := h.starts
  rw [parseValue]
  change Leaves (parseArray f64 (fuel + 1) _) _ _
  rw [parseArray]
  have start : (({ rest := 0x5B :: (toUtf8 text ++ rest'), pos } : Parser).skip 1).skipWs =
      { rest := toUtf8 text ++ rest', pos := pos + 1 } := h.skipWs
  have peeked : ({ rest := toUtf8 text ++ rest', pos := pos + 1 } : Parser).peek = some b := by
    rw [isText]
    rfl
  rw [start, peeked, if_neg (fun closed => open_ (Option.some.inj closed))]
  exact loop _

/-! ### Objects -/

variable {key : List Char} {fields : List (List Char × Value F)}

/-- A field is read up to what ends it. -/
theorem objectLoop_field (h : Spells f64 need text v) (enough : need ≤ fuel) {b : UInt8}
    (delimiter : b = 0x2C ∨ b = 0x5D ∨ b = 0x7D) :
    ∃ pos', objectLoop f64 (fuel + 1)
        { rest := toUtf8 (jsonString key) ++ 0x3A :: (toUtf8 text ++ b :: rest'), pos } fields =
      match ({ rest := b :: rest', pos := pos' } : Parser).skipWs.bump with
      | (some 0x2C, p) => objectLoop f64 fuel p (fields ++ [(key, v)])
      | (some 0x7D, p) => .ok (.obj (fields ++ [(key, v)]), p)
      | (other, _) => .error (.inObject other) := by
  obtain ⟨pos₁, keyRead⟩ := @parseString_jsonString
    (0x3A :: (toUtf8 text ++ b :: rest')) pos key
  obtain ⟨pos₂, valueRead⟩ := @h.reads fuel (pos₁ + 1) (b :: rest') enough (ends_cons delimiter)
  have opens : ({ rest := toUtf8 (jsonString key) ++ 0x3A :: (toUtf8 text ++ b :: rest'), pos } :
      Parser).skipWs = { rest := toUtf8 (jsonString key) ++ 0x3A :: (toUtf8 text ++ b :: rest'), pos } := by
    rw [toUtf8_jsonString]
    exact skipWs_of_head rfl
  refine ⟨pos₂, ?_⟩
  rw [objectLoop, opens]
  dsimp only
  rw [if_neg (not_not_intro (peek_jsonString key)), keyRead]
  have colon : ({ rest := 0x3A :: (toUtf8 text ++ b :: rest'), pos := pos₁ } : Parser).skipWs.bump =
      (some 0x3A, { rest := toUtf8 text ++ b :: rest', pos := pos₁ + 1 }) := by
    rw [skipWs_of_head rfl]
    rfl
  simp only [bind, Except.bind, colon, h.skipWs, valueRead]
  rfl

theorem objectLoop_next (h : Spells f64 need text v) (enough : need ≤ fuel)
    (next : ∀ pos, Leaves (objectLoop f64 fuel { rest := rest', pos } (fields ++ [(key, v)])) a rest) :
    Leaves (objectLoop f64 (fuel + 1)
      { rest := toUtf8 (jsonString key) ++ 0x3A :: (toUtf8 text ++ 0x2C :: rest'), pos } fields) a rest := by
  obtain ⟨pos', eq⟩ : ∃ pos', objectLoop f64 (fuel + 1) _ fields = _ :=
    objectLoop_field h enough (.inl rfl)
  rw [eq, skipWs_of_head rfl]
  exact next _

theorem objectLoop_last (h : Spells f64 need text v) (enough : need ≤ fuel) :
    Leaves (objectLoop f64 (fuel + 1)
      { rest := toUtf8 (jsonString key) ++ 0x3A :: (toUtf8 text ++ 0x7D :: rest), pos } fields)
      (.obj (fields ++ [(key, v)])) rest := by
  obtain ⟨pos', eq⟩ : ∃ pos', objectLoop f64 (fuel + 1) _ fields = _ :=
    objectLoop_field h enough (.inr (.inr rfl))
  rw [eq, skipWs_of_head rfl]
  exact .ok

theorem parseValue_object
    (loop : ∀ pos, Leaves (objectLoop f64 fuel { rest := toUtf8 (jsonString key) ++ rest', pos } []) a rest) :
    Leaves (parseValue f64 (fuel + 2)
      { rest := 0x7B :: (toUtf8 (jsonString key) ++ rest'), pos }) a rest := by
  rw [parseValue]
  change Leaves (parseObject f64 (fuel + 1) _) _ _
  rw [parseObject]
  have start : (({ rest := 0x7B :: (toUtf8 (jsonString key) ++ rest'), pos } : Parser).skip 1).skipWs =
      { rest := toUtf8 (jsonString key) ++ rest', pos := pos + 1 } := by
    rw [toUtf8_jsonString]
    exact skipWs_of_head rfl
  rw [start, peek_jsonString, if_neg (by decide)]
  exact loop _

end

end Parser

end Posh.Rec.Json
