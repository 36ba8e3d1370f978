import Posh.Lib.Bytes

/-!
Octets as sextets.

Three octets are four sextets; one or two octets at the end are two or three sextets, the
last of which has bits to spare. `octets` drops the spare bits, so that it undoes
`sextets`, and `sextets` undoes it exactly where they are zero.
-/

namespace Posh.Lib

/-- Six bits at a time, the last sextet filled up with zeros. -/
def sextets : Bytes → List Nat
  | b0 :: b1 :: b2 :: rest =>
      b0.toNat / 4 :: (b0.toNat % 4 * 16 + b1.toNat / 16) :: (b1.toNat % 16 * 4 + b2.toNat / 64) ::
        b2.toNat % 64 :: sextets rest
  | [b0, b1] => [b0.toNat / 4, b0.toNat % 4 * 16 + b1.toNat / 16, b1.toNat % 16 * 4]
  | [b0] => [b0.toNat / 4, b0.toNat % 4 * 16]
  | [] => []

/-- Eight bits at a time, what is left over dropped. -/
def octets : List Nat → Bytes
  | d0 :: d1 :: d2 :: d3 :: rest =>
      UInt8.ofNat (d0 * 4 + d1 / 16) :: UInt8.ofNat (d1 % 16 * 16 + d2 / 4) ::
        UInt8.ofNat (d2 % 4 * 64 + d3) :: octets rest
  | [d0, d1, d2] => [UInt8.ofNat (d0 * 4 + d1 / 16), UInt8.ofNat (d1 % 16 * 16 + d2 / 4)]
  | [d0, d1] => [UInt8.ofNat (d0 * 4 + d1 / 16)]
  | [_] => []
  | [] => []

/-- The bits to spare are zero. -/
def Filled : List Nat → Prop
  | _ :: _ :: _ :: _ :: rest => Filled rest
  | [_, _, d2] => d2 % 4 = 0
  | [_, d1] => d1 % 16 = 0
  | [_] => False
  | [] => True

theorem ofNat_eq {b : UInt8} {n : Nat} (value : n = b.toNat) : UInt8.ofNat n = b := by
  rw [value, UInt8.ofNat_toNat]

theorem sextets_lt (bytes : Bytes) : ∀ d ∈ sextets bytes, d < 64 := by
  induction bytes using sextets.induct with
  | case1 b0 b1 b2 rest ih =>
    have h0 := b0.toNat_lt
    have h1 := b1.toNat_lt
    have h2 := b2.toNat_lt
    rw [sextets]
    intro d mem
    simp only [List.mem_cons] at mem
    rcases mem with rfl | rfl | rfl | rfl | mem
    · omega
    · omega
    · omega
    · omega
    · exact ih d mem
  | case2 b0 b1 =>
    have h0 := b0.toNat_lt
    have h1 := b1.toNat_lt
    intro d mem
    simp only [sextets, List.mem_cons, List.not_mem_nil, or_false] at mem
    omega
  | case3 b0 =>
    have h0 := b0.toNat_lt
    intro d mem
    simp only [sextets, List.mem_cons, List.not_mem_nil, or_false] at mem
    omega
  | case4 => exact nofun

theorem octets_sextets (bytes : Bytes) : octets (sextets bytes) = bytes := by
  induction bytes using sextets.induct with
  | case1 b0 b1 b2 rest ih =>
    have h0 := b0.toNat_lt
    have h1 := b1.toNat_lt
    have h2 := b2.toNat_lt
    rw [sextets, octets, ih, @ofNat_eq b0 _ (by omega), @ofNat_eq b1 _ (by omega),
      @ofNat_eq b2 _ (by omega)]
  | case2 b0 b1 =>
    have h0 := b0.toNat_lt
    have h1 := b1.toNat_lt
    rw [sextets, octets, @ofNat_eq b0 _ (by omega), @ofNat_eq b1 _ (by omega)]
  | case3 b0 =>
    have h0 := b0.toNat_lt
    rw [sextets, octets, @ofNat_eq b0 _ (by omega)]
  | case4 => rfl

theorem filled_sextets (bytes : Bytes) : Filled (sextets bytes) := by
  induction bytes using sextets.induct with
  | case1 b0 b1 b2 rest ih => exact ih
  | case2 b0 b1 => exact Nat.mul_mod_left _ _
  | case3 b0 => exact Nat.mul_mod_left _ _
  | case4 => trivial

theorem sextets_octets_iff {digits : List Nat} (small : ∀ d ∈ digits, d < 64) :
    sextets (octets digits) = digits ↔ Filled digits := by
  constructor
  · intro same
    rw [← same]
    exact filled_sextets _
  · intro filled
    have octet {n : Nat} (fits : n < 256) : (UInt8.ofNat n).toNat = n :=
      UInt8.toNat_ofNat_of_lt' fits
    induction digits using octets.induct with
    | case1 d0 d1 d2 d3 rest ih =>
      simp only [List.mem_cons, forall_eq_or_imp] at small
      obtain ⟨h0, h1, h2, h3, later⟩ := small
      rw [octets, sextets, ih later filled, octet (by omega), octet (by omega),
        octet (by omega)]
      have first : (d0 * 4 + d1 / 16) / 4 = d0 := by omega
      have second : (d0 * 4 + d1 / 16) % 4 * 16 + (d1 % 16 * 16 + d2 / 4) / 16 = d1 := by omega
      have third : (d1 % 16 * 16 + d2 / 4) % 16 * 4 + (d2 % 4 * 64 + d3) / 64 = d2 := by omega
      have fourth : (d2 % 4 * 64 + d3) % 64 = d3 := by omega
      rw [first, second, third, fourth]
    | case2 d0 d1 d2 =>
      simp only [List.mem_cons, forall_eq_or_imp, List.not_mem_nil, false_implies, implies_true,
        and_true] at small
      obtain ⟨h0, h1, h2⟩ := small
      change d2 % 4 = 0 at filled
      rw [octets, sextets, octet (by omega), octet (by omega)]
      have first : (d0 * 4 + d1 / 16) / 4 = d0 := by omega
      have second : (d0 * 4 + d1 / 16) % 4 * 16 + (d1 % 16 * 16 + d2 / 4) / 16 = d1 := by omega
      have third : (d1 % 16 * 16 + d2 / 4) % 16 * 4 = d2 := by omega
      rw [first, second, third]
    | case3 d0 d1 =>
      simp only [List.mem_cons, forall_eq_or_imp, List.not_mem_nil, false_implies, implies_true,
        and_true] at small
      obtain ⟨h0, h1⟩ := small
      change d1 % 16 = 0 at filled
      rw [octets, sextets, octet (by omega)]
      have first : (d0 * 4 + d1 / 16) / 4 = d0 := by omega
      have second : (d0 * 4 + d1 / 16) % 4 * 16 = d1 := by omega
      rw [first, second]
    | case4 d0 => exact filled.elim
    | case5 => rfl

/-- An accumulator of `bits` bits puts out an octet as soon as it has one. -/
def accumulate : (acc bits : Nat) → List Nat → Bytes
  | _, _, [] => []
  | acc, bits, d :: rest =>
      if bits + 6 ≥ 8 then
        UInt8.ofNat ((acc * 64 + d) / 2 ^ (bits + 6 - 8)) ::
          accumulate ((acc * 64 + d) % 2 ^ (bits + 6 - 8)) (bits + 6 - 8) rest
      else accumulate (acc * 64 + d) (bits + 6) rest

theorem accumulate_eq_octets {digits : List Nat} (small : ∀ d ∈ digits, d < 64) :
    accumulate 0 0 digits = octets digits := by
  have second (d0 d1 : Nat) (rest : List Nat) : accumulate 0 0 (d0 :: d1 :: rest) =
      UInt8.ofNat ((d0 * 64 + d1) / 16) :: accumulate ((d0 * 64 + d1) % 16) 4 rest := by
    rw [accumulate, if_neg (by decide), accumulate, if_pos (by decide), Nat.zero_mul, Nat.zero_add]
    rfl
  have third (acc d2 : Nat) (rest : List Nat) : accumulate acc 4 (d2 :: rest) =
      UInt8.ofNat ((acc * 64 + d2) / 4) :: accumulate ((acc * 64 + d2) % 4) 2 rest := by
    rw [accumulate, if_pos (by decide)]
    rfl
  have fourth (acc d3 : Nat) (rest : List Nat) : accumulate acc 2 (d3 :: rest) =
      UInt8.ofNat (acc * 64 + d3) :: accumulate 0 0 rest := by
    rw [accumulate, if_pos (by decide), Nat.pow_zero, Nat.div_one, Nat.mod_one]
  induction digits using octets.induct with
  | case1 d0 d1 d2 d3 rest ih =>
    simp only [List.mem_cons, forall_eq_or_imp] at small
    obtain ⟨h0, h1, h2, h3, later⟩ := small
    rw [second, third, fourth, octets, ih later]
    congr 2
    · omega
    congr 2
    · omega
    congr 2
    omega
  | case2 d0 d1 d2 =>
    simp only [List.mem_cons, forall_eq_or_imp, List.not_mem_nil, false_implies, implies_true,
      and_true] at small
    obtain ⟨h0, h1, h2⟩ := small
    rw [second, third, octets]
    congr 2
    · omega
    congr 2
    omega
  | case3 d0 d1 =>
    simp only [List.mem_cons, forall_eq_or_imp, List.not_mem_nil, false_implies, implies_true,
      and_true] at small
    obtain ⟨h0, h1⟩ := small
    rw [second, octets]
    congr 2
    omega
  | case4 d0 => rfl
  | case5 => rfl

theorem length_sextets (bytes : Bytes) : (sextets bytes).length = (bytes.length * 4 + 2) / 3 := by
  induction bytes using sextets.induct with
  | case1 b0 b1 b2 rest ih =>
    rw [sextets]
    simp only [List.length_cons, ih]
    omega
  | case2 | case3 | case4 => simp [sextets]

theorem length_octets (digits : List Nat) : (octets digits).length = digits.length * 6 / 8 := by
  induction digits using octets.induct with
  | case1 d0 d1 d2 d3 rest ih =>
    rw [octets]
    simp only [List.length_cons, ih]
    omega
  | case2 | case3 | case4 => simp [octets]
  | case5 => rfl

end Posh.Lib
