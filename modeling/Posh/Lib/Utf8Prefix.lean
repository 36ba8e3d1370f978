import Posh.Lib.Utf8Codec

/-!
Text cut at a byte.

Bytes that come in pieces are decoded as far as they are well formed. What is left is
the beginning of a character that may still be completed, or it is ill formed.
-/

namespace Posh.Lib

/-- The text at the front of `bytes` up to the first sequence that is no character, and
the bytes from there on; `fuel` bounds its characters. -/
def validPrefix : (fuel : Nat) → Bytes → List Char × Bytes
  | 0, bytes => ([], bytes)
  | _ + 1, [] => ([], [])
  | fuel + 1, b :: rest =>
      match utf8Chunk b rest with
      | (some c, rest') => (c :: (validPrefix fuel rest').1, (validPrefix fuel rest').2)
      | (none, _) => ([], b :: rest)

/-- The valid text of `bytes` and what follows it: with the outcome of
`str::from_utf8`, its length is `valid_up_to`, and all is well when nothing follows. -/
def validUpTo (bytes : Bytes) : List Char × Bytes :=
  validPrefix bytes.length bytes

/-- `Utf8Error::error_len` of what follows the valid text: how many bytes are ill
formed, or `none` for a character whose end is not there. -/
def errorLen : Bytes → Option Nat
  | [] => none
  | b :: rest =>
      let tail := (utf8Chunk b rest).2
      if (0xC2 ≤ b.toNat ∧ b.toNat ≤ 0xF4) ∧ tail = [] then none
      else some (1 + rest.length - tail.length)

/-! ### Beginnings of characters -/

/-- Some of a character, not all of it. -/
def Begun (tail : Bytes) : Prop :=
  ∃ c more, tail ≠ [] ∧ more ≠ [] ∧ tail ++ more = String.utf8EncodeChar c

/-- The decoder cannot tell a begun character from none. -/
theorem utf8Chunk_begun {b : UInt8} {rest : Bytes} (begun : Begun (b :: rest)) :
    utf8Chunk b rest = (none, []) ∧ 0xC2 ≤ b.toNat ∧ b.toNat ≤ 0xF4 := by
  obtain ⟨c, more, -, notAll, whole⟩ := begun
  have shape := encodes c
  rw [← whole, List.cons_append] at shape
  unfold utf8Chunk
  generalize all : rest ++ more = bytes at shape
  have shorter : rest.length < bytes.length := by
    have pos := List.length_pos_iff.mpr notAll
    rw [← all, List.length_append]
    omega
  cases shape with
  | one value ascii => simp at shorter
  | two lead cont value wide =>
    obtain rfl : rest = [] := by
      cases rest with
      | nil => rfl
      | cons b1 rest => simp at shorter
    rw [if_neg (by omega), if_pos lead]
    exact ⟨rfl, by omega, by omega⟩
  | three lead second cont₁ cont₂ value wide =>
    rw [if_neg (by omega), if_neg (by omega), if_pos lead]
    refine ⟨?_, by omega, by omega⟩
    rcases rest with - | ⟨b1, - | ⟨b2, rest⟩⟩
    · rfl
    · cases all
      simp [second]
    · simp only [List.length_cons, List.length_nil] at shorter
      omega
  | four lead second cont₁ cont₂ cont₃ value wide =>
    rw [if_neg (by omega), if_neg (by omega), if_neg (by omega), if_pos lead]
    refine ⟨?_, by omega, by omega⟩
    rcases rest with - | ⟨b1, - | ⟨b2, - | ⟨b3, rest⟩⟩⟩
    · rfl
    · cases all
      simp [second]
    · cases all
      simp [second, cont₂]
    · simp only [List.length_cons, List.length_nil] at shorter
      omega

theorem errorLen_begun {tail : Bytes} (begun : Begun tail) : errorLen tail = none := by
  cases tail with
  | nil => rfl
  | cons b rest =>
    obtain ⟨chunk, lead⟩ := utf8Chunk_begun begun
    simp [errorLen, chunk, lead]

/-- A text, and the beginning of a character or nothing. -/
def Cut (s : List Char) (tail bytes : Bytes) : Prop :=
  bytes = toUtf8 s ++ tail ∧ (tail = [] ∨ Begun tail)

theorem Cut.nil : Cut [] [] [] :=
  ⟨rfl, .inl rfl⟩

theorem validPrefix_nil (fuel : Nat) : validPrefix fuel [] = ([], []) := by
  cases fuel <;> rfl

theorem validPrefix_cut {s : List Char} {tail : Bytes} (cut : tail = [] ∨ Begun tail) {fuel : Nat}
    (enough : utf8Length s + tail.length ≤ fuel) :
    validPrefix fuel (toUtf8 s ++ tail) = (s, tail) := by
  induction s generalizing fuel with
  | nil =>
    rcases cut with rfl | begun
    · exact validPrefix_nil fuel
    · cases tail with
      | nil => exact validPrefix_nil fuel
      | cons b rest =>
        cases fuel with
        | zero => simp at enough
        | succ fuel =>
          change validPrefix (fuel + 1) (b :: rest) = _
          rw [validPrefix, (utf8Chunk_begun begun).1]
  | cons c s ih =>
    have pos := Char.utf8Size_pos c
    have shape := encodes c
    rw [utf8Length_cons] at enough
    change validPrefix fuel (String.utf8EncodeChar c ++ toUtf8 s ++ tail) = _
    rw [List.append_assoc]
    generalize String.utf8EncodeChar c = bytes at shape
    cases fuel with
    | zero => omega
    | succ fuel =>
      cases bytes with
      | nil => cases shape
      | cons b bytes =>
        rw [List.cons_append, validPrefix, utf8Chunk_encode shape (toUtf8 s ++ tail)]
        dsimp only
        rw [ih (by omega)]

/-- The valid text is found, and only the beginning of a character is left of it. -/
theorem validUpTo_cut {s : List Char} {tail bytes : Bytes} (cut : Cut s tail bytes) :
    validUpTo bytes = (s, tail) := by
  obtain ⟨rfl, last⟩ := cut
  unfold validUpTo
  refine validPrefix_cut last (Nat.le_of_eq ?_)
  rw [List.length_append, length_toUtf8]

theorem utf8Chunks_begun {s : List Char} {tail : Bytes} (begun : Begun tail) {fuel : Nat}
    (enough : utf8Length s + tail.length ≤ fuel) :
    utf8Chunks fuel (toUtf8 s ++ tail) = s.map some ++ [none] := by
  induction s generalizing fuel with
  | nil =>
    cases tail with
    | nil =>
      obtain ⟨c, more, some_, -⟩ := begun
      exact absurd rfl some_
    | cons b rest =>
      cases fuel with
      | zero => simp at enough
      | succ fuel =>
        change utf8Chunks (fuel + 1) (b :: rest) = _
        rw [utf8Chunks, (utf8Chunk_begun begun).1]
        cases fuel <;> rfl
  | cons c s ih =>
    have pos := Char.utf8Size_pos c
    have shape := encodes c
    rw [utf8Length_cons] at enough
    change utf8Chunks fuel (String.utf8EncodeChar c ++ toUtf8 s ++ tail) = _
    rw [List.append_assoc]
    generalize String.utf8EncodeChar c = bytes at shape
    cases fuel with
    | zero => omega
    | succ fuel =>
      cases bytes with
      | nil => cases shape
      | cons b bytes =>
        rw [List.cons_append, utf8Chunks, utf8Chunk_encode shape (toUtf8 s ++ tail)]
        dsimp only
        rw [ih (by omega)]
        rfl

/-- A text with the beginning of a character after it is no text. -/
theorem fromUtf8_begun (s : List Char) {tail : Bytes} (begun : Begun tail) :
    fromUtf8 (toUtf8 s ++ tail) = none := by
  unfold fromUtf8
  rw [utf8Chunks_begun begun (by rw [List.length_append, length_toUtf8])]
  induction s with
  | nil => rfl
  | cons c s ih =>
    rw [List.map_cons, List.cons_append, List.mapM_cons, ih]
    rfl

/-- What was cut off from a character is shown as one replacement. -/
theorem fromUtf8Lossy_begun (s : List Char) {tail : Bytes} (begun : Begun tail) :
    fromUtf8Lossy (toUtf8 s ++ tail) = s ++ [Char.ofNat 0xFFFD] := by
  unfold fromUtf8Lossy
  rw [utf8Chunks_begun begun (by rw [List.length_append, length_toUtf8]), List.map_append, List.map_map]
  exact congrArg (· ++ _) (List.map_id s)

/-- Wherever a text is cut, a text and the beginning of a character are before the cut. -/
theorem exists_cut {before after : Bytes} {text : List Char} (whole : before ++ after = toUtf8 text) :
    ∃ s tail rest, text = s ++ rest ∧ Cut s tail before ∧ tail ++ after = toUtf8 rest := by
  induction text generalizing before with
  | nil =>
    obtain ⟨rfl, rfl⟩ := List.append_eq_nil_iff.mp whole
    exact ⟨[], [], [], rfl, .nil, rfl⟩
  | cons c text ih =>
    change before ++ after = String.utf8EncodeChar c ++ toUtf8 text at whole
    rcases List.append_eq_append_iff.mp whole with ⟨more, encoded, after_eq⟩ | ⟨before', before_eq, rest⟩
    · by_cases all : more = []
      · subst all
        rw [List.append_nil] at encoded
        refine ⟨[c], [], text, rfl, ⟨?_, .inl rfl⟩, ?_⟩
        · rw [List.append_nil, ← encoded]
          exact (List.append_nil _).symm
        · rw [List.nil_append, after_eq, List.nil_append]
      · by_cases none : before = []
        · subst none
          exact ⟨[], [], c :: text, rfl, .nil, whole⟩
        · exact ⟨[], before, c :: text, rfl, ⟨rfl, .inr ⟨c, more, none, all, encoded.symm⟩⟩, whole⟩
    · obtain ⟨s, tail, rest', rfl, ⟨split, last⟩, coming⟩ := ih rest.symm
      refine ⟨c :: s, tail, rest', rfl, ⟨?_, last⟩, coming⟩
      rw [before_eq, split, ← List.append_assoc]
      rfl

/-- The first byte of a character continues none. -/
theorem Encodes.lead {c : Char} {b : UInt8} {rest : Bytes} (h : Encodes c (b :: rest)) :
    isContinuation b = false := by
  unfold isContinuation
  cases h with
  | one value ascii => simp; omega
  | two lead => simp; omega
  | three lead => simp; omega
  | four lead => simp; omega

/-- The other bytes of a character continue it. -/
theorem Encodes.continues {c : Char} {b : UInt8} {rest : Bytes} (h : Encodes c (b :: rest)) :
    ∀ b' ∈ rest, isContinuation b' = true := by
  cases h with
  | one value ascii => simp
  | two lead cont => simp [cont]
  | three lead second cont₁ cont₂ => simp [cont₁, cont₂]
  | four lead second cont₁ cont₂ cont₃ => simp [cont₁, cont₂, cont₃]

theorem lead_of_toUtf8 {text : List Char} {b : UInt8} {rest : Bytes}
    (spelled : toUtf8 text = b :: rest) : isContinuation b = false := by
  cases text with
  | nil => cases spelled
  | cons c text =>
    have shape := encodes c
    change String.utf8EncodeChar c ++ toUtf8 text = b :: rest at spelled
    cases eq : String.utf8EncodeChar c with
    | nil =>
      rw [eq] at shape
      cases shape
    | cons b' bytes =>
      rw [eq] at shape spelled
      obtain rfl : b' = b := (List.cons.inj spelled).1
      exact shape.lead

/-- A byte that continues no character begins one. -/
theorem exists_boundary {before after : Bytes} {b : UInt8} {text : List Char}
    (whole : before ++ b :: after = toUtf8 text) (lead : isContinuation b = false) :
    ∃ s rest, text = s ++ rest ∧ before = toUtf8 s ∧ b :: after = toUtf8 rest := by
  induction text generalizing before with
  | nil => cases (List.append_eq_nil_iff.mp whole).2
  | cons c text ih =>
    change before ++ b :: after = String.utf8EncodeChar c ++ toUtf8 text at whole
    rcases List.append_eq_append_iff.mp whole with ⟨more, encoded, after_eq⟩ | ⟨before', before_eq, rest⟩
    · cases before with
      | nil => exact ⟨[], c :: text, rfl, rfl, whole⟩
      | cons x before =>
        cases more with
        | nil =>
          rw [List.append_nil] at encoded
          exact ⟨[c], text, rfl, encoded.symm.trans (List.append_nil _).symm, after_eq⟩
        | cons y more =>
          obtain rfl : b = y := (List.cons.inj after_eq).1
          have shape := encodes c
          rw [encoded, List.cons_append] at shape
          have inside := shape.continues b (by simp)
          rw [lead] at inside
          cases inside
    · obtain ⟨s, rest', rfl, split, coming⟩ := ih rest.symm
      refine ⟨c :: s, rest', rfl, ?_, coming⟩
      rw [before_eq, split]
      rfl

/-! ### Encoding what was decoded -/

theorem toNat_ofNat_of_valid {n : Nat} (valid : n < 0xD800 ∨ 0xDFFF < n ∧ n < 0x110000) :
    (Char.ofNat n).toNat = n := by
  unfold Char.ofNat
  rw [dif_pos (show n.isValidChar from valid)]
  rfl

/-- A decoded character is spelled by the bytes it was read from. -/
theorem encodes_of_utf8Chunk {b : UInt8} {rest tail : Bytes} {c : Char}
    (h : utf8Chunk b rest = (some c, tail)) : ∃ bytes, Encodes c (b :: bytes) ∧ rest = bytes ++ tail := by
  unfold utf8Chunk at h
  split at h
  · rename_i ascii
    obtain ⟨rfl, rfl⟩ := by simpa using h
    have value := toNat_ofNat_of_valid (n := b.toNat) (by omega)
    exact ⟨[], .one value.symm (by omega), rfl⟩
  split at h
  · rename_i lead
    split at h
    · split at h
      · rename_i b1 _ cont
        obtain ⟨rfl, rfl⟩ := by simpa using h
        have range := cont
        simp only [isContinuation, Bool.and_eq_true, decide_eq_true_eq] at range
        have value := toNat_ofNat_of_valid (n := codePoint2 b b1) (by unfold codePoint2; omega)
        exact ⟨[b1], .two lead cont value.symm (by rw [value]; unfold codePoint2; omega), rfl⟩
      · cases h
    · cases h
  split at h
  · rename_i lead
    split at h
    · split at h
      · rename_i b1 _ second
        split at h
        · split at h
          · rename_i b2 _ cont
            obtain ⟨rfl, rfl⟩ := by simpa using h
            have range := cont
            have range₁ := second
            simp only [isContinuation, Bool.and_eq_true, decide_eq_true_eq] at range
            simp only [secondOfThree, Bool.or_eq_true, Bool.and_eq_true, decide_eq_true_eq,
              beq_iff_eq] at range₁
            have cont₁ : isContinuation b1 = true := by
              simp only [isContinuation, Bool.and_eq_true, decide_eq_true_eq]
              omega
            have value := toNat_ofNat_of_valid (n := codePoint3 b b1 b2)
              (by unfold codePoint3; omega)
            exact ⟨[b1, b2], .three lead second cont₁ cont value.symm
              (by rw [value]; unfold codePoint3; omega), rfl⟩
          · cases h
        · cases h
      · cases h
    · cases h
  split at h
  · rename_i lead
    split at h
    · split at h
      · rename_i b1 _ second
        split at h
        · split at h
          · rename_i b2 _ cont₂
            split at h
            · split at h
              · rename_i b3 _ cont₃
                obtain ⟨rfl, rfl⟩ := by simpa using h
                have range₂ := cont₂
                have range₃ := cont₃
                have range₁ := second
                simp only [isContinuation, Bool.and_eq_true, decide_eq_true_eq] at range₂ range₃
                simp only [secondOfFour, Bool.or_eq_true, Bool.and_eq_true, decide_eq_true_eq,
                  beq_iff_eq] at range₁
                have cont₁ : isContinuation b1 = true := by
                  simp only [isContinuation, Bool.and_eq_true, decide_eq_true_eq]
                  omega
                have value := toNat_ofNat_of_valid (n := codePoint4 b b1 b2 b3)
                  (by unfold codePoint4; omega)
                exact ⟨[b1, b2, b3], .four lead second cont₁ cont₂ cont₃ value.symm
                  (by rw [value]; unfold codePoint4; omega), rfl⟩
              · cases h
            · cases h
          · cases h
        · cases h
      · cases h
    · cases h
  · cases h

theorem eq_ofNat {b : UInt8} {n : Nat} (value : b.toNat = n) : b = UInt8.ofNat n := by
  rw [← value, UInt8.ofNat_toNat]

/-- A character is spelled in one way. -/
theorem Encodes.eq {c : Char} {bytes : Bytes} (h : Encodes c bytes) :
    bytes = String.utf8EncodeChar c := by
  unfold String.utf8EncodeChar
  extract_lets v
  have v_eq : v = c.toNat := rfl
  clear_value v
  subst v_eq
  cases h with
  | one value ascii => rw [if_pos (by omega), eq_ofNat value]
  | two lead cont value wide =>
    simp only [isContinuation, Bool.and_eq_true, decide_eq_true_eq] at cont
    unfold codePoint2 at value
    rw [if_neg (by omega), if_pos (by omega)]
    exact congrArg₂ _ (eq_ofNat (by omega)) (congrArg₂ _ (eq_ofNat (by omega)) rfl)
  | three lead second cont₁ cont₂ value wide =>
    simp only [isContinuation, Bool.and_eq_true, decide_eq_true_eq] at cont₁ cont₂
    simp only [secondOfThree, Bool.or_eq_true, Bool.and_eq_true, decide_eq_true_eq,
      beq_iff_eq] at second
    unfold codePoint3 at value
    rw [if_neg (by omega), if_neg (by omega), if_pos (by omega)]
    exact congrArg₂ _ (eq_ofNat (by omega)) (congrArg₂ _ (eq_ofNat (by omega))
      (congrArg₂ _ (eq_ofNat (by omega)) rfl))
  | four lead second cont₁ cont₂ cont₃ value wide =>
    simp only [isContinuation, Bool.and_eq_true, decide_eq_true_eq] at cont₁ cont₂ cont₃
    simp only [secondOfFour, Bool.or_eq_true, Bool.and_eq_true, decide_eq_true_eq,
      beq_iff_eq] at second
    unfold codePoint4 at value
    rw [if_neg (by omega), if_neg (by omega), if_neg (by omega)]
    exact congrArg₂ _ (eq_ofNat (by omega)) (congrArg₂ _ (eq_ofNat (by omega))
      (congrArg₂ _ (eq_ofNat (by omega)) (congrArg₂ _ (eq_ofNat (by omega)) rfl)))

/-- The valid text is what the bytes before the rest spell. -/
theorem validPrefix_spells (fuel : Nat) (bytes : Bytes) :
    toUtf8 (validPrefix fuel bytes).1 ++ (validPrefix fuel bytes).2 = bytes := by
  induction fuel generalizing bytes with
  | zero => rfl
  | succ fuel ih =>
    cases bytes with
    | nil => rfl
    | cons b rest =>
      rw [validPrefix]
      split
      · rename_i c tail chunk
        obtain ⟨bytes, shape, rfl⟩ := encodes_of_utf8Chunk chunk
        change String.utf8EncodeChar c ++ toUtf8 (validPrefix fuel tail).1 ++ _ = _
        rw [List.append_assoc, ih, ← shape.eq]
        rfl
      · rfl

theorem validUpTo_spells (bytes : Bytes) : toUtf8 (validUpTo bytes).1 ++ (validUpTo bytes).2 = bytes :=
  validPrefix_spells _ bytes

theorem toUtf8_of_chunks {fuel : Nat} {bytes : Bytes} (enough : bytes.length ≤ fuel) {s : List Char}
    (h : (utf8Chunks fuel bytes).mapM id = some s) : toUtf8 s = bytes := by
  induction fuel generalizing bytes s with
  | zero =>
    cases List.length_eq_zero_iff.mp (Nat.le_zero.mp enough)
    cases h
    rfl
  | succ fuel ih =>
    cases bytes with
    | nil =>
      cases h
      rfl
    | cons b rest =>
      rw [utf8Chunks, List.mapM_cons] at h
      generalize chunk : utf8Chunk b rest = out at h
      obtain ⟨- | c, tail⟩ := out
      · cases h
      · obtain ⟨bytes, shape, rfl⟩ := encodes_of_utf8Chunk chunk
        simp only [List.length_cons, List.length_append] at enough
        cases others : (utf8Chunks fuel tail).mapM id with
        | none => simp [others] at h
        | some s' =>
          obtain rfl : c :: s' = s := by simpa [others] using h
          change String.utf8EncodeChar c ++ toUtf8 s' = _
          rw [ih (by omega) others, ← shape.eq]
          rfl

theorem toUtf8_of_fromUtf8 {bytes : Bytes} {s : List Char} (h : fromUtf8 bytes = some s) :
    toUtf8 s = bytes :=
  toUtf8_of_chunks (Nat.le_refl _) h

/-! ### Ill-formed sequences -/

/-- An ill-formed sequence has at most three bytes. -/
theorem utf8Chunk_none {b : UInt8} {rest tail : Bytes} (h : utf8Chunk b rest = (none, tail)) :
    tail.length ≤ rest.length ∧ rest.length ≤ 2 + tail.length := by
  unfold utf8Chunk at h
  split at h
  · cases h
  split at h
  · split at h
    · split at h
      · cases h
      · cases h
        exact ⟨by simp only [List.length_cons]; omega, by simp only [List.length_cons]; omega⟩
    · cases h
      exact ⟨by omega, by omega⟩
  split at h
  · split at h
    · split at h
      · split at h
        · split at h
          · cases h
          · cases h
            exact ⟨by simp only [List.length_cons]; omega, by simp only [List.length_cons]; omega⟩
        · cases h
          exact ⟨by simp only [List.length_cons]; omega, by simp only [List.length_cons]; omega⟩
      · cases h
        exact ⟨by simp only [List.length_cons]; omega, by simp only [List.length_cons]; omega⟩
    · cases h
      exact ⟨by omega, by omega⟩
  split at h
  · split at h
    · split at h
      · split at h
        · split at h
          · split at h
            · split at h
              · cases h
              · cases h
                exact ⟨by simp only [List.length_cons]; omega, by simp only [List.length_cons]; omega⟩
            · cases h
              exact ⟨by simp only [List.length_cons]; omega, by simp only [List.length_cons]; omega⟩
          · cases h
            exact ⟨by simp only [List.length_cons]; omega, by simp only [List.length_cons]; omega⟩
        · cases h
          exact ⟨by simp only [List.length_cons]; omega, by simp only [List.length_cons]; omega⟩
      · cases h
        exact ⟨by simp only [List.length_cons]; omega, by simp only [List.length_cons]; omega⟩
    · cases h
      exact ⟨by omega, by omega⟩
  · cases h
    exact ⟨by omega, by omega⟩

theorem length_lossyChunks {fuel : Nat} {bytes : Bytes} (enough : bytes.length ≤ fuel) :
    bytes.length ≤ utf8Length ((utf8Chunks fuel bytes).map (·.getD (Char.ofNat 0xFFFD))) := by
  induction fuel generalizing bytes with
  | zero => exact Nat.le_trans enough (Nat.zero_le _)
  | succ fuel ih =>
    cases bytes with
    | nil => exact Nat.zero_le _
    | cons b rest =>
      rw [utf8Chunks, List.map_cons, utf8Length_cons]
      rw [List.length_cons] at enough ⊢
      generalize chunk : utf8Chunk b rest = out
      obtain ⟨- | c, tail⟩ := out
      · obtain ⟨shorter, few⟩ := utf8Chunk_none chunk
        have others := ih (show tail.length ≤ fuel by omega)
        have size : ((none : Option Char).getD (Char.ofNat 0xFFFD)).utf8Size = 3 := rfl
        dsimp only
        omega
      · obtain ⟨bytes, shape, rfl⟩ := encodes_of_utf8Chunk chunk
        have size := congrArg List.length shape.eq
        simp only [List.length_cons, String.length_utf8EncodeChar, List.length_append] at size enough ⊢
        have others := ih (show tail.length ≤ fuel by omega)
        rw [Option.getD_some]
        omega

/-- Lossy decoding makes nothing shorter. -/
theorem length_fromUtf8Lossy (bytes : Bytes) : bytes.length ≤ utf8Length (fromUtf8Lossy bytes) :=
  length_lossyChunks (Nat.le_refl _)

/-- What the valid text ends at is ill formed. -/
theorem validPrefix_stop {fuel : Nat} {bytes : Bytes} (enough : bytes.length ≤ fuel) {s : List Char}
    {b : UInt8} {rest : Bytes} (h : validPrefix fuel bytes = (s, b :: rest)) :
    (utf8Chunk b rest).1 = none := by
  induction fuel generalizing bytes s with
  | zero =>
    cases List.length_eq_zero_iff.mp (Nat.le_zero.mp enough)
    cases h
  | succ fuel ih =>
    cases bytes with
    | nil => cases h
    | cons b' rest' =>
      rw [validPrefix] at h
      split at h
      · rename_i c tail chunk
        obtain ⟨bytes, -, rfl⟩ := encodes_of_utf8Chunk chunk
        simp only [List.length_cons, List.length_append] at enough
        obtain ⟨-, tail_eq⟩ := Prod.mk.inj h
        exact ih (by omega) (Prod.ext rfl tail_eq)
      · rename_i chunk
        cases h
        exact congrArg Prod.fst chunk

/-- The bytes to be replaced are some of what is left, and at most three. -/
theorem errorLen_bounds {bytes : Bytes} {s : List Char} {tail : Bytes} {bad : Nat}
    (valid : validUpTo bytes = (s, tail)) (h : errorLen tail = some bad) :
    0 < bad ∧ bad ≤ 3 ∧ bad ≤ tail.length := by
  cases tail with
  | nil => cases h
  | cons b rest =>
    have stop := validPrefix_stop (Nat.le_refl _) valid
    generalize chunk : utf8Chunk b rest = out at stop
    obtain ⟨c, tail⟩ := out
    obtain rfl : c = none := stop
    obtain ⟨shorter, few⟩ := utf8Chunk_none chunk
    unfold errorLen at h
    dsimp only at h
    split at h
    · cases h
    · obtain rfl := Option.some.inj h
      rw [chunk, List.length_cons]
      dsimp only
      omega

end Posh.Lib
