import Posh.Lib.Sextets
import Posh.Lib.Utf8Codec
import Posh.Term.Base64

/-!
What base64 texts decode to.

A letter is a sextet. An encoding is the letters of the sextets, and padding; decoding
makes octets of the sextets it comes to, so that it undoes encoding. What it is given
besides letters is white space or padding, and adds nothing.
-/

namespace Posh.Term

open Posh.Lib

namespace Base64

/-! ### Letters -/

/-- The byte of a letter. -/
def letterByte (d : Nat) : UInt8 :=
  UInt8.ofNat (letter d).toNat

theorem letter_ascii : ∀ d < 64, (letter d).toNat < 0x80 := by
  decide +kernel

/-- A letter is no white space, no padding, and the digit it is the letter of. -/
theorem letterByte_reads : ∀ d < 64, isAsciiWhitespace (letterByte d) = false ∧
    (letterByte d).toNat ≠ '='.toNat ∧ decodeDigit (letterByte d) = some d := by
  decide +kernel

theorem decodeDigit_lt {b : UInt8} {d : Nat} (digit : decodeDigit b = some d) : d < 64 := by
  unfold decodeDigit at digit
  dsimp only at digit
  have values : 'A'.toNat = 65 ∧ 'Z'.toNat = 90 ∧ 'a'.toNat = 97 ∧ 'z'.toNat = 122 ∧
      '0'.toNat = 48 ∧ '9'.toNat = 57 := by decide
  split at digit
  · cases digit
    omega
  · split at digit
    · cases digit
      omega
    · split at digit
      · cases digit
        omega
      · split at digit
        · cases digit
          omega
        · split at digit
          · cases digit
            omega
          · cases digit

/-- A digit has one letter. -/
theorem letterByte_of_digit {b : UInt8} {d : Nat} (digit : decodeDigit b = some d) :
    letterByte d = b := by
  have all : ∀ n < 256, (decodeDigit (UInt8.ofNat n)).all
      (fun d => letterByte d == UInt8.ofNat n) = true := by decide +kernel
  have one := all b.toNat b.toNat_lt
  rw [UInt8.ofNat_toNat, digit] at one
  exact beq_iff_eq.mp one

theorem letter_mod (n : Nat) : letter (n % 64) = letter n := by
  unfold letter
  rw [Nat.mod_mod]

theorem letter_inj {m n : Nat} (hm : m < 64) (hn : n < 64) (same : letter m = letter n) : m = n := by
  have first := (letterByte_reads m hm).2.2
  have second := (letterByte_reads n hn).2.2
  unfold letterByte at first second
  rw [same, second] at first
  exact (Option.some.inj first).symm

theorem map_letter_inj {ms ns : List Nat} (hm : ∀ d ∈ ms, d < 64) (hn : ∀ d ∈ ns, d < 64)
    (same : ms.map letter = ns.map letter) : ms = ns := by
  induction ms generalizing ns with
  | nil => exact (List.map_eq_nil_iff.mp same.symm).symm
  | cons m ms ih =>
    cases ns with
    | nil => cases same
    | cons n ns =>
      simp only [List.mem_cons, forall_eq_or_imp] at hm hn
      obtain ⟨first, rest⟩ := List.cons.inj same
      rw [letter_inj hm.1 hn.1 first, ih hm.2 hn.2 rest]

/-! ### Encoding -/

/-- The padding behind the last letter. -/
def padding (bytes : Bytes) : List Char :=
  List.replicate ((3 - bytes.length % 3) % 3) '='

theorem encode_eq (bytes : Bytes) : encode bytes = (sextets bytes).map letter ++ padding bytes := by
  have congr {m n : Nat} (same : m % 64 = n % 64) : letter m = letter n := by
    rw [← letter_mod m, same, letter_mod]
  induction bytes using sextets.induct with
  | case1 b0 b1 b2 rest ih =>
    have h0 := b0.toNat_lt
    have h1 := b1.toNat_lt
    have h2 := b2.toNat_lt
    have same : padding (b0 :: b1 :: b2 :: rest) = padding rest := by
      unfold padding
      simp only [List.length_cons]
      congr 1
      omega
    rw [encode, sextets, same, ih]
    change _ = _ :: _ :: _ :: _ :: _
    congr 1
    · exact congr (by omega)
    congr 1
    · exact congr (by omega)
    congr 1
    · exact congr (by omega)
    congr 1
    exact congr (by omega)
  | case2 b0 b1 =>
    have h0 := b0.toNat_lt
    have h1 := b1.toNat_lt
    rw [encode, sextets]
    change _ = [_, _, _, '=']
    congr 1
    · exact congr (by omega)
    congr 1
    · exact congr (by omega)
    congr 1
    exact congr (by omega)
  | case3 b0 =>
    have h0 := b0.toNat_lt
    rw [encode, sextets]
    change _ = [_, _, '=', '=']
    congr 1
    · exact congr (by omega)
    congr 1
    exact congr (by omega)
  | case4 => rfl

/-- What an encoding is written with. -/
theorem mem_encode {bytes : Bytes} {c : Char} (mem : c ∈ encode bytes) :
    c = '=' ∨ ∃ d < 64, c = letter d := by
  rw [encode_eq] at mem
  rcases List.mem_append.mp mem with text | pad
  · obtain ⟨d, inside, rfl⟩ := List.mem_map.mp text
    exact .inr ⟨d, sextets_lt bytes d inside, rfl⟩
  · exact .inl (List.mem_replicate.mp pad).2

/-- A character of a command's text: it prints, and does not end the part it is in. -/
def IsPlain (c : Char) : Prop :=
  0x20 ≤ c.toNat ∧ c.toNat < 0x80 ∧ c.toNat ≠ ';'.toNat

instance : DecidablePred IsPlain :=
  fun c => inferInstanceAs (Decidable (0x20 ≤ c.toNat ∧ c.toNat < 0x80 ∧ c.toNat ≠ ';'.toNat))

theorem letter_plain : ∀ d < 64, IsPlain (letter d) := by
  decide +kernel

theorem encode_plain (bytes : Bytes) : ∀ c ∈ encode bytes, IsPlain c := by
  intro c mem
  rcases mem_encode mem with rfl | ⟨d, small, rfl⟩
  · decide
  · exact letter_plain d small

/-! ### Decoding -/

/-- The digits among some bytes. -/
def digits (data : Bytes) : List Nat :=
  data.filterMap decodeDigit

/-- A digit in the loop. -/
theorem decodeLoop_digit {acc bits d : Nat} {b : UInt8} {rest : Bytes}
    (digit : decodeDigit b = some d) : decodeLoop acc bits false (b :: rest) =
      if bits + 6 ≥ 8 then
        (decodeLoop ((acc * 64 + d) % 2 ^ (bits + 6 - 8)) (bits + 6 - 8) false rest).map
          (UInt8.ofNat ((acc * 64 + d) / 2 ^ (bits + 6 - 8)) :: ·)
      else decodeLoop (acc * 64 + d) (bits + 6) false rest := by
  obtain ⟨space, pad, -⟩ := letterByte_reads d (decodeDigit_lt digit)
  rw [letterByte_of_digit digit] at space pad
  rw [decodeLoop, space, if_neg Bool.false_ne_true, if_neg pad, if_neg Bool.false_ne_true, digit]

/-- What decodes at all is the octets of its digits. -/
theorem decodeLoop_eq {acc bits : Nat} {done : Bool} {data out : Bytes}
    (decoded : decodeLoop acc bits done data = some out) :
    out = accumulate acc bits (digits data) := by
  induction data generalizing acc bits done out with
  | nil =>
    cases decoded
    rfl
  | cons b rest ih =>
    cases digit : decodeDigit b with
    | none =>
      have same : digits (b :: rest) = digits rest := List.filterMap_cons_none digit
      rw [same]
      rw [decodeLoop, digit] at decoded
      split at decoded
      · exact ih decoded
      · split at decoded
        · exact ih decoded
        · split at decoded <;> cases decoded
    | some d =>
      have same : digits (b :: rest) = d :: digits rest := List.filterMap_cons_some digit
      cases done with
      | true =>
        obtain ⟨space, pad, -⟩ := letterByte_reads d (decodeDigit_lt digit)
        rw [letterByte_of_digit digit] at space pad
        rw [decodeLoop, space, if_neg Bool.false_ne_true, if_neg pad, if_pos rfl] at decoded
        cases decoded
      | false =>
        rw [same, accumulate]
        rw [decodeLoop_digit digit] at decoded
        by_cases full : bits + 6 ≥ 8
        · rw [if_pos full] at decoded
          obtain ⟨later, rest_decoded, rfl⟩ := Option.map_eq_some_iff.mp decoded
          rw [ih rest_decoded, if_pos full]
        · rw [if_neg full] at decoded
          rw [ih decoded, if_neg full]

theorem digits_lt (data : Bytes) : ∀ d ∈ digits data, d < 64 := by
  intro d mem
  obtain ⟨b, -, digit⟩ := List.mem_filterMap.mp mem
  exact decodeDigit_lt digit

theorem decode_eq {data out : Bytes} (decoded : decode data = some out) :
    out = octets (digits data) :=
  (decodeLoop_eq decoded).trans (accumulate_eq_octets (digits_lt data))

/-- Bytes that are all digits. -/
theorem letters_of_digits {data : Bytes} (full : (digits data).length = data.length) :
    (digits data).map letterByte = data := by
  induction data with
  | nil => rfl
  | cons b rest ih =>
    have most : (digits rest).length ≤ rest.length := List.length_filterMap_le ..
    cases digit : decodeDigit b with
    | none =>
      have same : digits (b :: rest) = digits rest := List.filterMap_cons_none digit
      rw [same, List.length_cons] at full
      omega
    | some d =>
      have same : digits (b :: rest) = d :: digits rest := List.filterMap_cons_some digit
      rw [same, List.length_cons, List.length_cons] at full
      rw [same, List.map_cons, letterByte_of_digit digit, ih (by omega)]

/-- Padding ends a text. -/
theorem decodeLoop_padding {pads : Bytes} (pad : ∀ b ∈ pads, b = 0x3D) (acc bits : Nat)
    (done : Bool) : decodeLoop acc bits done pads = some [] := by
  induction pads generalizing done with
  | nil => rfl
  | cons b rest ih =>
    obtain rfl := pad b List.mem_cons_self
    rw [decodeLoop, if_neg (by decide), if_pos (by decide)]
    exact ih (fun b mem => pad b (List.mem_cons_of_mem _ mem)) true

/-- Letters with padding behind them decode. -/
theorem decodeLoop_letters {ds : List Nat} (small : ∀ d ∈ ds, d < 64) {pads : Bytes}
    (pad : ∀ b ∈ pads, b = 0x3D) (acc bits : Nat) :
    decodeLoop acc bits false (ds.map letterByte ++ pads) = some (accumulate acc bits ds) := by
  induction ds generalizing acc bits with
  | nil => exact decodeLoop_padding pad acc bits false
  | cons d ds ih =>
    have here := small d List.mem_cons_self
    have later : ∀ d ∈ ds, d < 64 := fun d mem => small d (List.mem_cons_of_mem _ mem)
    rw [List.map_cons, List.cons_append, decodeLoop_digit (letterByte_reads d here).2.2, accumulate]
    split
    · rw [ih later]
      rfl
    · exact ih later _ _

theorem toUtf8_letters {ds : List Nat} (small : ∀ d ∈ ds, d < 64) :
    toUtf8 (ds.map letter) = ds.map letterByte := by
  have ascii : ∀ c ∈ ds.map letter, c.toNat < 0x80 := by
    intro c mem
    obtain ⟨d, inside, rfl⟩ := List.mem_map.mp mem
    exact letter_ascii d (small d inside)
  rw [toUtf8_ascii ascii, List.map_map]
  rfl

theorem decode_letters {ds : List Nat} (small : ∀ d ∈ ds, d < 64) :
    decode (toUtf8 (ds.map letter)) = some (octets ds) := by
  have none_pads : ∀ b ∈ ([] : Bytes), b = 0x3D := nofun
  have decoded := decodeLoop_letters small none_pads 0 0
  rw [List.append_nil] at decoded
  unfold decode
  rw [toUtf8_letters small, decoded, accumulate_eq_octets small]

/-- Decoding undoes encoding. -/
theorem decode_encode (bytes : Bytes) : decode (toUtf8 (encode bytes)) = some bytes := by
  have small := sextets_lt bytes
  have pads : toUtf8 (padding bytes) = List.replicate ((3 - bytes.length % 3) % 3) 0x3D := by
    have ascii : ∀ c ∈ padding bytes, c.toNat < 0x80 := by
      intro c mem
      rw [(List.mem_replicate.mp mem).2]
      decide
    rw [toUtf8_ascii ascii, padding, List.map_replicate]
    rfl
  have pad : ∀ b ∈ toUtf8 (padding bytes), b = 0x3D := by
    intro b mem
    rw [pads] at mem
    exact (List.mem_replicate.mp mem).2
  unfold decode
  rw [encode_eq, toUtf8_append, toUtf8_letters small, decodeLoop_letters small pad,
    accumulate_eq_octets small, octets_sextets]

end Base64

end Posh.Term
