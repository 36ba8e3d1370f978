import Posh.Lib.Trailing
import Posh.Lib.Utf8Codec
import Posh.Term.Base64Codec

/-!
Session keys and their printed form (`Key` of `remote/crypto.rs`).

Sixteen bytes are twenty-one letters and two bits of a twenty-second. What reads a key
drops the four bits to spare, so that a key has sixteen accepted spellings, one for each
value they can have; it prints the one in which they are zero.
-/

namespace Posh.Remote

open Posh.Lib Posh.Term

def KEY_LEN : Nat := 16

/-- A 128-bit key. -/
structure Key where
  bytes : Bytes
  size : bytes.length = KEY_LEN
deriving DecidableEq

/-- `str::trim_end_matches` of one character. -/
def trimEndMatches (c : Char) (s : List Char) : List Char :=
  s.rdropWhile (· = c)

namespace Key

/-- Exactly 22 base64 characters, no padding. -/
def toBase64 (k : Key) : List Char :=
  trimEndMatches '=' (Base64.encode k.bytes)

def fromBase64 (s : List Char) : Except String Key :=
  if utf8Length s ≠ 22 then .error "key must be 22 letters long"
  else
    match Base64.decode (toUtf8 s) with
    | none => .error "key must be well-formed base64"
    | some bytes =>
        if size : bytes.length = KEY_LEN then .ok ⟨bytes, size⟩
        else .error "key must decode to 16 bytes"

/-- The bits to spare in the last character are zero. -/
def Canonical (s : List Char) : Prop :=
  s.getLast? ∈ [some 'A', some 'Q', some 'g', some 'w']

/-! ### Printing -/

theorem trimEndMatches_padded {s : List Char} (bare : ∀ c ∈ s, c ≠ '=') (n : Nat) :
    trimEndMatches '=' (s ++ List.replicate n '=') = s := by
  unfold trimEndMatches
  rw [rdropWhile_append s (by simp), List.rdropWhile_eq_self_iff]
  intro nonempty
  simpa using bare _ (List.getLast_mem nonempty)

theorem letter_ne_pad : ∀ d < 64, Base64.letter d ≠ '=' := by
  decide +kernel

theorem letter_mem : ∀ d < 64, Base64.letter d ∈ Base64.ALPHABET := by
  decide +kernel

theorem toBase64_eq (k : Key) : k.toBase64 = (sextets k.bytes).map Base64.letter := by
  unfold toBase64
  rw [Base64.encode_eq]
  refine trimEndMatches_padded ?_ _
  intro c mem
  obtain ⟨d, inside, rfl⟩ := List.mem_map.mp mem
  exact letter_ne_pad d (sextets_lt k.bytes d inside)

theorem length_toBase64 (k : Key) : k.toBase64.length = 22 := by
  rw [toBase64_eq, List.length_map, length_sextets, k.size]
  rfl

theorem toBase64_alphabet (k : Key) : ∀ c ∈ k.toBase64, c ∈ Base64.ALPHABET := by
  rw [toBase64_eq]
  intro c mem
  obtain ⟨d, inside, rfl⟩ := List.mem_map.mp mem
  exact letter_mem d (sextets_lt k.bytes d inside)

/-! ### Reading -/

/-- What `fromBase64` accepts. -/
theorem fromBase64_eq_ok {s : List Char} {k : Key} :
    fromBase64 s = .ok k ↔ utf8Length s = 22 ∧ Base64.decode (toUtf8 s) = some k.bytes := by
  unfold fromBase64
  constructor
  · intro accepted
    split at accepted
    · cases accepted
    · rename_i length
      cases decoded : Base64.decode (toUtf8 s) with
      | none =>
        rw [decoded] at accepted
        cases accepted
      | some bytes =>
        simp only [decoded] at accepted
        split at accepted
        · cases accepted
          exact ⟨Decidable.not_not.mp length, rfl⟩
        · cases accepted
  · rintro ⟨length, decoded⟩
    rw [if_neg (not_not_intro length), decoded]
    exact dif_pos k.size

theorem fromBase64_toBase64 (k : Key) : fromBase64 k.toBase64 = .ok k := by
  have small := sextets_lt k.bytes
  refine fromBase64_eq_ok.mpr ⟨?_, ?_⟩
  · have units : (toUtf8 k.toBase64).length = 22 := by
      rw [toBase64_eq, Base64.toUtf8_letters small, List.length_map, length_sextets, k.size]
      rfl
    rwa [length_toUtf8] at units
  · rw [toBase64_eq, Base64.decode_letters small, octets_sextets]

/-- The digits of what is accepted: one for each character. -/
theorem digits_of_accepted {s : List Char} {k : Key} (accepted : fromBase64 s = .ok k) :
    ∃ ds, ds.length = 22 ∧ (∀ d ∈ ds, d < 64) ∧ s = ds.map Base64.letter ∧ k.bytes = octets ds := by
  obtain ⟨length, decoded⟩ := fromBase64_eq_ok.mp accepted
  have bytes := Base64.decode_eq decoded
  have small := Base64.digits_lt (toUtf8 s)
  -- Sixteen octets take no fewer than twenty-two digits.
  have enough : (Base64.digits (toUtf8 s)).length ≥ 22 := by
    have size := k.size
    rw [bytes, length_octets] at size
    have sixteen : KEY_LEN = 16 := rfl
    omega
  have full : (Base64.digits (toUtf8 s)).length = (toUtf8 s).length := by
    have most : (Base64.digits (toUtf8 s)).length ≤ (toUtf8 s).length := List.length_filterMap_le ..
    rw [length_toUtf8, length] at most ⊢
    omega
  have spelled := Base64.letters_of_digits full
  refine ⟨Base64.digits (toUtf8 s), by rw [full, length_toUtf8, length], small, ?_, bytes⟩
  rw [← Base64.toUtf8_letters small] at spelled
  have same := congrArg fromUtf8 spelled
  rw [fromUtf8_toUtf8, fromUtf8_toUtf8] at same
  exact (Option.some.inj same).symm

theorem letter_canonical : ∀ d < 64, (some (Base64.letter d) ∈ [some 'A', some 'Q', some 'g', some 'w'] ↔
    d % 16 = 0) := by
  decide +kernel

theorem canonical_letters {ds : List Nat} (small : ∀ d ∈ ds, d < 64) (length : ds.length % 4 = 2) :
    Canonical (ds.map Base64.letter) ↔ Filled ds := by
  unfold Canonical
  induction ds using octets.induct with
  | case1 d0 d1 d2 d3 rest ih =>
    have later : ∀ d ∈ rest, d < 64 := by
      intro d mem
      exact small d (by simp [mem])
    have shorter : rest.length % 4 = 2 := by
      simp only [List.length_cons] at length
      omega
    have last : ((d0 :: d1 :: d2 :: d3 :: rest).map Base64.letter).getLast? =
        (rest.map Base64.letter).getLast? := by
      cases rest with
      | nil => cases shorter
      | cons d rest => simp [List.getLast?_cons]
    rw [last, ih later shorter]
    rfl
  | case3 d0 d1 => exact letter_canonical d1 (small d1 (by simp))
  | case2 | case4 | case5 => cases length

/-- A key is read from its text, and its text is the only spelling of it in which the bits
to spare are zero. -/
theorem spelled_iff_canonical (k : Key) :
    fromBase64 (toBase64 k) = .ok k ∧ k.toBase64.length = 22 ∧
      (∀ c ∈ k.toBase64, c ∈ Base64.ALPHABET) ∧
      ∀ s, fromBase64 s = .ok k → (toBase64 k = s ↔ Canonical s) := by
  refine ⟨fromBase64_toBase64 k, length_toBase64 k, toBase64_alphabet k, ?_⟩
  intro s accepted
  obtain ⟨ds, length, small, rfl, bytes⟩ := digits_of_accepted accepted
  rw [canonical_letters small (by rw [length]), ← sextets_octets_iff small, toBase64_eq, bytes]
  constructor
  · intro same
    exact Base64.map_letter_inj (sextets_lt _) small same
  · intro same
    rw [same]

theorem spelled_iff_canonical_zero :
    toBase64 ⟨List.replicate 16 0, rfl⟩ = "AAAAAAAAAAAAAAAAAAAAAA".toList ↔
      Canonical "AAAAAAAAAAAAAAAAAAAAAA".toList :=
  (spelled_iff_canonical _).2.2.2 _ (by decide +kernel)

/-- One letter past the text of the zero key. -/
theorem spelled_twice : fromBase64 "AAAAAAAAAAAAAAAAAAAAAB".toList = .ok ⟨List.replicate 16 0, rfl⟩ ∧
    toBase64 ⟨List.replicate 16 0, rfl⟩ = "AAAAAAAAAAAAAAAAAAAAAA".toList := by
  decide +kernel

end Key

end Posh.Remote
