import Posh.Lib.Utf8

/-!
Decoding what was encoded: a character is one to four bytes, and both decoders
read a text back from its bytes.
-/

namespace Posh.Lib

/-- The bytes of a character, by their number. -/
inductive Encodes (c : Char) : Bytes → Prop where
  | one {b : UInt8} (value : b.toNat = c.toNat) (ascii : c.toNat < 0x80) : Encodes c [b]
  | two {b0 b1 : UInt8} (lead : 0xC2 ≤ b0.toNat ∧ b0.toNat ≤ 0xDF) (cont : isContinuation b1 = true)
      (value : codePoint2 b0 b1 = c.toNat) (wide : 0x80 ≤ c.toNat) : Encodes c [b0, b1]
  | three {b0 b1 b2 : UInt8} (lead : 0xE0 ≤ b0.toNat ∧ b0.toNat ≤ 0xEF)
      (second : secondOfThree b0.toNat b1.toNat = true) (cont₁ : isContinuation b1 = true)
      (cont₂ : isContinuation b2 = true)
      (value : codePoint3 b0 b1 b2 = c.toNat) (wide : 0x80 ≤ c.toNat) : Encodes c [b0, b1, b2]
  | four {b0 b1 b2 b3 : UInt8} (lead : 0xF0 ≤ b0.toNat ∧ b0.toNat ≤ 0xF4)
      (second : secondOfFour b0.toNat b1.toNat = true) (cont₁ : isContinuation b1 = true)
      (cont₂ : isContinuation b2 = true) (cont₃ : isContinuation b3 = true)
      (value : codePoint4 b0 b1 b2 b3 = c.toNat) (wide : 0x80 ≤ c.toNat) :
      Encodes c [b0, b1, b2, b3]

theorem toNat_ofNat_small {n : Nat} (h : n < 256) : (UInt8.ofNat n).toNat = n :=
  UInt8.toNat_ofNat_of_lt' h

theorem encodes (c : Char) : Encodes c (String.utf8EncodeChar c) := by
  have value : c.toNat = c.val.toNat := rfl
  have valid : c.toNat < 0xD800 ∨ 0xDFFF < c.toNat ∧ c.toNat < 0x110000 := c.valid
  unfold String.utf8EncodeChar
  extract_lets v
  have v_eq : v = c.toNat := rfl
  clear_value v
  subst v_eq
  split
  · rename_i small
    exact .one (toNat_ofNat_small (by omega)) (by omega)
  rename_i wide
  split
  · rename_i le
    have b0 := toNat_ofNat_small (n := c.toNat / 64 % 0x20 + 0xC0) (by omega)
    have b1 := toNat_ofNat_small (n := c.toNat % 0x40 + 0x80) (by omega)
    refine .two ?_ ?_ ?_ (by omega)
    · rw [b0]
      omega
    · simp only [isContinuation, b1, Bool.and_eq_true, decide_eq_true_eq]
      omega
    · unfold codePoint2
      rw [b0, b1]
      omega
  rename_i wider
  split
  · rename_i le
    have b0 := toNat_ofNat_small (n := c.toNat / 4096 % 0x10 + 0xE0) (by omega)
    have b1 := toNat_ofNat_small (n := c.toNat / 64 % 0x40 + 0x80) (by omega)
    have b2 := toNat_ofNat_small (n := c.toNat % 0x40 + 0x80) (by omega)
    refine .three ?_ ?_ ?_ ?_ ?_ (by omega)
    · rw [b0]
      omega
    · simp only [secondOfThree, b0, b1, Bool.or_eq_true, Bool.and_eq_true, decide_eq_true_eq, beq_iff_eq]
      omega
    · simp only [isContinuation, b1, Bool.and_eq_true, decide_eq_true_eq]
      omega
    · simp only [isContinuation, b2, Bool.and_eq_true, decide_eq_true_eq]
      omega
    · unfold codePoint3
      rw [b0, b1, b2]
      omega
  · have b0 := toNat_ofNat_small (n := c.toNat / 262144 % 0x08 + 0xF0) (by omega)
    have b1 := toNat_ofNat_small (n := c.toNat / 4096 % 0x40 + 0x80) (by omega)
    have b2 := toNat_ofNat_small (n := c.toNat / 64 % 0x40 + 0x80) (by omega)
    have b3 := toNat_ofNat_small (n := c.toNat % 0x40 + 0x80) (by omega)
    refine .four ?_ ?_ ?_ ?_ ?_ ?_ (by omega)
    · rw [b0]
      omega
    · simp only [secondOfFour, b0, b1, Bool.or_eq_true, Bool.and_eq_true, decide_eq_true_eq, beq_iff_eq]
      omega
    · simp only [isContinuation, b1, Bool.and_eq_true, decide_eq_true_eq]
      omega
    · simp only [isContinuation, b2, Bool.and_eq_true, decide_eq_true_eq]
      omega
    · simp only [isContinuation, b3, Bool.and_eq_true, decide_eq_true_eq]
      omega
    · unfold codePoint4
      rw [b0, b1, b2, b3]
      omega

/-- The first character of a text, read off its bytes. -/
theorem utf8Chunk_encode {c : Char} {b : UInt8} {bytes : Bytes}
    (h : Encodes c (b :: bytes)) (rest : Bytes) : utf8Chunk b (bytes ++ rest) = (some c, rest) := by
  unfold utf8Chunk
  cases h with
  | one value ascii =>
    rw [if_pos (by omega), value, Char.ofNat_toNat]
    rfl
  | two lead cont value wide =>
    rw [if_neg (by omega), if_pos lead]
    simp [cont, value]
  | three lead second cont₁ cont₂ value wide =>
    rw [if_neg (by omega), if_neg (by omega), if_pos lead]
    simp [second, cont₂, value]
  | four lead second cont₁ cont₂ cont₃ value wide =>
    rw [if_neg (by omega), if_neg (by omega), if_neg (by omega), if_pos lead]
    simp [second, cont₂, cont₃, value]

theorem utf8Chunks_toUtf8 (s : List Char) {fuel : Nat} (enough : utf8Length s ≤ fuel) :
    utf8Chunks fuel (toUtf8 s) = s.map some := by
  induction s generalizing fuel with
  | nil => cases fuel <;> rfl
  | cons c s ih =>
    have pos := Char.utf8Size_pos c
    have shape := encodes c
    rw [utf8Length_cons] at enough
    change utf8Chunks fuel (String.utf8EncodeChar c ++ toUtf8 s) = _
    generalize String.utf8EncodeChar c = bytes at shape
    cases fuel with
    | zero => omega
    | succ fuel =>
      cases bytes with
      | nil => cases shape
      | cons b bytes =>
        have first := utf8Chunk_encode shape (toUtf8 s)
        rw [List.cons_append, utf8Chunks, first]
        rw [ih (by omega), List.map_cons]

/-- Lossy decoding loses nothing of a text. -/
theorem fromUtf8Lossy_toUtf8 (s : List Char) : fromUtf8Lossy (toUtf8 s) = s := by
  unfold fromUtf8Lossy
  rw [utf8Chunks_toUtf8 s (Nat.le_of_eq (length_toUtf8 s).symm), List.map_map]
  exact List.map_id s

theorem fromUtf8_toUtf8 (s : List Char) : fromUtf8 (toUtf8 s) = some s := by
  unfold fromUtf8
  rw [utf8Chunks_toUtf8 s (Nat.le_of_eq (length_toUtf8 s).symm)]
  induction s with
  | nil => rfl
  | cons c s ih =>
    rw [List.map_cons, List.mapM_cons, ih]
    rfl

/-! ### ASCII text -/

theorem utf8EncodeChar_ascii {c : Char} (ascii : c.toNat < 0x80) :
    String.utf8EncodeChar c = [UInt8.ofNat c.toNat] := by
  unfold String.utf8EncodeChar
  exact if_pos (show c.val.toNat ≤ 0x7F from Nat.le_of_lt_succ ascii)

theorem toUtf8_ascii {text : List Char} (ascii : ∀ c ∈ text, c.toNat < 0x80) :
    toUtf8 text = text.map fun c => UInt8.ofNat c.toNat := by
  induction text with
  | nil => rfl
  | cons c text ih =>
    change String.utf8EncodeChar c ++ toUtf8 text = _
    rw [ih fun c' mem => ascii c' (List.mem_cons_of_mem c mem),
      utf8EncodeChar_ascii (ascii c List.mem_cons_self)]
    rfl

end Posh.Lib
