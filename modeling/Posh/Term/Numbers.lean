import Posh.Term.Reads
import Posh.Term.Texts

/-!
The parameters a list of decimal numbers spells: the first of them, each as large as a
parameter gets.
-/

namespace Posh.Term

open Posh.Lib

/-- `u8::is_ascii_digit` -/
def isAsciiDigit (b : UInt8) : Bool :=
  0x30 ≤ b.toNat && b.toNat ≤ 0x39

/-- The number that `digits` spells. -/
def decimalValue (digits : Bytes) : Nat :=
  digits.foldl (fun v b => v * 10 + (b.toNat - '0'.toNat)) 0

namespace Parser

/-- A number as a parameter holds it. -/
def clamped (digits : Bytes) : Nat :=
  min (decimalValue digits) 65535

theorem clamped_lt (digits : Bytes) : clamped digits % 2 ^ 16 = clamped digits := by
  unfold clamped
  omega

variable {p : Parser}

theorem isDigit_range {b : UInt8} (digit : isAsciiDigit b = true) :
    0x30 ≤ b.toNat ∧ b.toNat ≤ 0x39 := by
  simpa [isAsciiDigit] using digit

theorem paramStep_digit {b : UInt8} (digit : isAsciiDigit b = true) (p : Parser) :
    p.paramStep b =
      { p with curVal := min (p.curVal * 10 + (b.toNat - '0'.toNat)) 65535, partSeen := true } := by
  obtain ⟨low, high⟩ := isDigit_range digit
  have colon : ':'.toNat = 0x3A := rfl
  have semicolon : ';'.toNat = 0x3B := rfl
  unfold paramStep
  rw [if_neg (by omega), if_neg (by omega)]

/-- Digits are collected one by one. -/
theorem foldl_digits {digits : Bytes} (all : ∀ b ∈ digits, isAsciiDigit b = true) {v : Nat}
    (val : p.curVal = min v 65535) :
    digits.foldl paramStep p =
      { p with
        curVal := min (digits.foldl (fun v b => v * 10 + (b.toNat - '0'.toNat)) v) 65535
        partSeen := p.partSeen || !digits.isEmpty } := by
  induction digits generalizing p v with
  | nil => simp [← val]
  | cons b rest ih =>
    have step := paramStep_digit (all b List.mem_cons_self) p
    rw [List.foldl_cons, step]
    rw [ih (v := v * 10 + (b.toNat - '0'.toNat)) (fun b mem => all b (List.mem_cons_of_mem _ mem))]
    · simp
    · dsimp only
      rw [val]
      omega

theorem foldl_number {digits : Bytes} (all : ∀ b ∈ digits, isAsciiDigit b = true)
    (val : p.curVal = 0) :
    digits.foldl paramStep p =
      { p with curVal := clamped digits, partSeen := p.partSeen || !digits.isEmpty } :=
  foldl_digits all (by rw [val]; rfl)

theorem pushParams_eq (parts params : Params) (room : params.length ≤ MAX_PARAMS) :
    parts.foldl (fun params part => pushParam part params) params =
      (params ++ parts).take MAX_PARAMS := by
  induction parts generalizing params with
  | nil =>
    rw [List.append_nil, List.take_of_length_le room]
    rfl
  | cons part rest ih =>
    rw [List.foldl_cons]
    by_cases fits : params.length < MAX_PARAMS
    · have pushed : pushParam part params = params ++ [part] := if_pos fits
      have still : (params ++ [part]).length ≤ MAX_PARAMS := by
        rw [List.length_append]
        exact fits
      rw [pushed, ih _ still, List.append_assoc, List.singleton_append]
    · have pushed : pushParam part params = params := if_neg fits
      have full : MAX_PARAMS = params.length := by omega
      rw [pushed, ih _ room, full, List.take_left, List.take_left]

theorem intercalate_cons_cons (sep first second : Bytes) (rest : List Bytes) :
    sep.intercalate (first :: second :: rest) = first ++ sep ++ sep.intercalate (second :: rest) := by
  simp [List.intercalate, List.append_assoc]

/-- Numbers between semicolons are parameters. -/
theorem takeParams_numbers {first : Bytes} {rest : List Bytes}
    (digits : ∀ d ∈ first :: rest, ∀ b ∈ d, isAsciiDigit b = true) (parts : p.curParts = [])
    (val : p.curVal = 0) (seen : p.partSeen = true ∨ first :: rest ≠ [[]]) :
    (takeParams (([0x3B].intercalate (first :: rest)).foldl paramStep p)).1 =
      ((first :: rest).map fun d => [clamped d]).foldl (fun params part => pushParam part params)
        p.params := by
  induction rest generalizing p first with
  | nil =>
    have number := foldl_number (digits first List.mem_cons_self) val
    have whole : [(0x3B : UInt8)].intercalate [first] = first := by simp [List.intercalate]
    rw [whole, number]
    have part_seen : (p.partSeen || !first.isEmpty) = true := by
      rcases seen with seen | seen
      · rw [seen, Bool.true_or]
      · cases first with
        | nil => exact absurd rfl seen
        | cons b d => simp
    unfold takeParams
    dsimp only
    rw [part_seen, Bool.true_or, if_pos rfl, parts, clamped_lt]
    rfl
  | cons second rest ih =>
    have number := foldl_number (digits first List.mem_cons_self) val
    have semicolon (q : Parser) : [(0x3B : UInt8)].foldl paramStep q = q.paramSemicolon := rfl
    rw [intercalate_cons_cons, List.foldl_append, List.foldl_append, number, semicolon,
      ih (fun d mem => digits d (List.mem_cons_of_mem _ mem)) rfl rfl (.inl rfl)]
    rw [List.map_cons (l := second :: rest), List.foldl_cons (l := List.map _ (second :: rest))]
    refine congrArg (fun params => List.foldl _ params _) ?_
    change pushParam (p.curParts ++ [clamped first % 2 ^ 16]) p.params = _
    rw [parts, clamped_lt]
    rfl

/-- The parameters that numbers spell. -/
theorem paramsOf_numbers {first : Bytes} {rest : List Bytes}
    (digits : ∀ d ∈ first :: rest, ∀ b ∈ d, isAsciiDigit b = true) (some_ : first :: rest ≠ [[]]) :
    paramsOf ([0x3B].intercalate (first :: rest)) =
      ((first :: rest).map fun d => [clamped d]).take MAX_PARAMS := by
  unfold paramsOf
  rw [takeParams_numbers digits rfl rfl (.inr some_), pushParams_eq _ _ (by decide)]
  rfl

/-- The bytes of a list of numbers are bytes of a parameter list. -/
theorem paramBytes_numbers {parts : List Bytes} (digits : ∀ d ∈ parts, ∀ b ∈ d, isAsciiDigit b = true) :
    ∀ b ∈ [0x3B].intercalate parts, IsParamByte b := by
  induction parts with
  | nil => exact fun _ mem => absurd mem List.not_mem_nil
  | cons first rest ih =>
    have range : ∀ b ∈ first, IsParamByte b := by
      intro b mem
      obtain ⟨low, high⟩ := isDigit_range (digits first List.mem_cons_self b mem)
      exact ⟨low, by omega⟩
    cases rest with
    | nil => simpa [List.intercalate] using range
    | cons second rest =>
      intro b mem
      rw [intercalate_cons_cons, List.mem_append, List.mem_append] at mem
      rcases mem with (number | semicolon) | later
      · exact range b number
      · rw [List.mem_singleton.mp semicolon]
        decide
      · exact ih (fun d mem => digits d (List.mem_cons_of_mem _ mem)) b later

/-! ### Digits as text -/

/-- ASCII digits are the encoding of characters. -/
theorem toUtf8_digits {part : Bytes} (digits : ∀ b ∈ part, isAsciiDigit b = true) :
    toUtf8 (part.map fun b => Char.ofNat b.toNat) = part := by
  induction part with
  | nil => rfl
  | cons b rest ih =>
    obtain ⟨low, high⟩ := isDigit_range (digits b List.mem_cons_self)
    have value : (Char.ofNat b.toNat).toNat = b.toNat := toNat_ofNat (.inl (by omega))
    have encoded : String.utf8EncodeChar (Char.ofNat b.toNat) = [b] := by
      have shape := encodes (Char.ofNat b.toNat)
      generalize String.utf8EncodeChar (Char.ofNat b.toNat) = bytes at shape
      cases shape with
      | one same => rw [UInt8.toNat_inj.mp (same.trans value)]
      | two _ _ _ wide => omega
      | three _ _ _ _ _ wide => omega
      | four _ _ _ _ _ _ wide => omega
    have later := ih fun b mem => digits b (List.mem_cons_of_mem _ mem)
    change String.utf8EncodeChar _ ++ toUtf8 (rest.map _) = _
    rw [encoded, later]
    rfl

theorem fromUtf8_digits {part : Bytes} (digits : ∀ b ∈ part, isAsciiDigit b = true) :
    fromUtf8 part = some (part.map fun b => Char.ofNat b.toNat) := by
  have whole := fromUtf8_toUtf8 (part.map fun b => Char.ofNat b.toNat)
  rwa [toUtf8_digits digits] at whole

theorem digitOf_digit {b : UInt8} (digit : isAsciiDigit b = true) :
    digitOf 10 (Char.ofNat b.toNat) = some (b.toNat - '0'.toNat) := by
  obtain ⟨low, high⟩ := isDigit_range digit
  have value : (Char.ofNat b.toNat).toNat = b.toNat := toNat_ofNat (.inl (by omega))
  have zero : '0'.toNat = 0x30 := rfl
  have range : '0' ≤ Char.ofNat b.toNat ∧ Char.ofNat b.toNat ≤ '9' := by
    constructor
    · change '0'.toNat ≤ (Char.ofNat b.toNat).toNat
      omega
    · change (Char.ofNat b.toNat).toNat ≤ '9'.toNat
      rw [value]
      exact high
  unfold digitOf
  rw [if_pos range, value]
  dsimp only
  rw [if_pos (by omega)]

theorem mapM_digits {part : Bytes} (digits : ∀ b ∈ part, isAsciiDigit b = true) :
    (part.map fun b => Char.ofNat b.toNat).mapM (digitOf 10) =
      some (part.map fun b => b.toNat - '0'.toNat) := by
  induction part with
  | nil => rfl
  | cons b rest ih =>
    rw [List.map_cons, List.mapM_cons, digitOf_digit (digits b List.mem_cons_self),
      ih fun b mem => digits b (List.mem_cons_of_mem _ mem)]
    rfl

theorem decimalValue_eq (part : Bytes) :
    (part.map fun b => b.toNat - '0'.toNat).foldl (fun v d => v * 10 + d) 0 = decimalValue part := by
  rw [List.foldl_map]
  rfl

/-- `part.parse::<u32>()` -/
theorem fromStrRadix_digits {part : Bytes} (digits : ∀ b ∈ part, isAsciiDigit b = true) :
    (fromStrRadix (2 ^ 32 - 1) 10 (part.map fun b => Char.ofNat b.toNat)).getD 0 =
      if decimalValue part ≤ 2 ^ 32 - 1 then decimalValue part else 0 := by
  cases part with
  | nil => rfl
  | cons b rest =>
    have digit := digits b List.mem_cons_self
    obtain ⟨low, high⟩ := isDigit_range digit
    have value : (Char.ofNat b.toNat).toNat = b.toNat := toNat_ofNat (.inl (by omega))
    have noPlus : Char.ofNat b.toNat ≠ '+' := by
      intro same
      have := congrArg Char.toNat same
      rw [value] at this
      have plus : '+'.toNat = 0x2B := rfl
      omega
    have all := mapM_digits digits
    rw [List.map_cons] at all ⊢
    unfold fromStrRadix
    split
    · rename_i eq
      exact absurd (List.cons.inj eq).1 noPlus
    · dsimp only
      rw [if_neg (by simp), all, Option.bind_some, decimalValue_eq]
      split <;> rfl

end Parser

end Posh.Term
