import Posh.Lib.Bytes
import Mathlib.Data.Nat.Bitwise

/-!
Bit strings: numbers spelled in bits from either end, and the bits of a byte string, the least
significant bit of each byte first.
-/

namespace Posh.Lib

/-- The low `width` bits of `value`, least significant first. -/
def lowBits (width value : Nat) : List Bool :=
  (List.range width).map value.testBit

/-- The low `width` bits of `value`, most significant first. -/
def highBits (width value : Nat) : List Bool :=
  (lowBits width value).reverse

/-- The number that bits spell, least significant first. -/
def ofLowBits : List Bool → Nat
  | [] => 0
  | b :: rest => b.toNat + 2 * ofLowBits rest

@[simp] theorem length_lowBits (width value : Nat) : (lowBits width value).length = width := by
  simp [lowBits]

@[simp] theorem length_highBits (width value : Nat) : (highBits width value).length = width := by
  simp [highBits]

theorem lowBits_succ (width value : Nat) :
    lowBits (width + 1) value = value.testBit 0 :: lowBits width (value / 2) := by
  unfold lowBits
  rw [List.range_succ_eq_map, List.map_cons, List.map_map]
  congr 1
  apply List.map_congr_left
  intro i _
  exact Nat.testBit_succ value i

theorem highBits_succ (width value : Nat) :
    highBits (width + 1) value = value.testBit width :: highBits width value := by
  unfold highBits lowBits
  rw [List.range_succ, List.map_append, List.map_singleton, List.reverse_append,
    List.reverse_singleton, List.singleton_append]

theorem ofLowBits_lowBits (width value : Nat) :
    ofLowBits (lowBits width value) = value % 2 ^ width := by
  induction width generalizing value with
  | zero =>
    rw [pow_zero, Nat.mod_one]
    rfl
  | succ width ih =>
    rw [lowBits_succ, ofLowBits, ih, pow_succ', Nat.mod_mul, Nat.toNat_testBit, pow_zero,
      Nat.div_one]

theorem ofLowBits_lowBits_of_lt {width value : Nat} (fits : value < 2 ^ width) :
    ofLowBits (lowBits width value) = value := by
  rw [ofLowBits_lowBits, Nat.mod_eq_of_lt fits]

theorem ofLowBits_lt (bits : List Bool) : ofLowBits bits < 2 ^ bits.length := by
  induction bits with
  | nil => exact Nat.one_pos
  | cons b rest ih =>
    have bit := Bool.toNat_lt b
    rw [ofLowBits, List.length_cons, pow_succ']
    omega

theorem lowBits_ofLowBits (bits : List Bool) : lowBits bits.length (ofLowBits bits) = bits := by
  induction bits with
  | nil => rfl
  | cons b rest ih =>
    have bit := Bool.toNat_lt b
    have later : (b.toNat + 2 * ofLowBits rest) / 2 = ofLowBits rest := by omega
    have first : (b.toNat + 2 * ofLowBits rest).testBit 0 = b := by
      rw [Nat.testBit_zero]
      cases b <;> simp
    rw [List.length_cons, lowBits_succ, ofLowBits, later, first, ih]

/-! ### The bits of bytes -/

def byteBits (b : UInt8) : List Bool :=
  lowBits 8 b.toNat

/-- The bits of a byte string, the least significant of each byte first. -/
def bitsOf (data : Bytes) : List Bool :=
  data.flatMap byteBits

theorem bitsOf_append (a b : Bytes) : bitsOf (a ++ b) = bitsOf a ++ bitsOf b :=
  List.flatMap_append

@[simp] theorem length_bitsOf (data : Bytes) : (bitsOf data).length = data.length * 8 := by
  induction data with
  | nil => rfl
  | cons b rest ih =>
    rw [bitsOf, List.flatMap_cons, List.length_append, byteBits, length_lowBits, ← bitsOf, ih,
      List.length_cons]
    omega

/-- A bit is found in its byte. -/
theorem getElem?_bitsOf (data : Bytes) (pos : Nat) :
    (bitsOf data)[pos]? = data[pos / 8]?.map fun b => b.toNat.testBit (pos % 8) := by
  induction data generalizing pos with
  | nil => rfl
  | cons b rest ih =>
    rw [bitsOf, List.flatMap_cons, ← bitsOf]
    by_cases first : pos < 8
    · rw [List.getElem?_append_left (by simpa [byteBits] using first), Nat.div_eq_of_lt first,
        Nat.mod_eq_of_lt first]
      simp [byteBits, lowBits, first]
    · obtain ⟨later, rfl⟩ := Nat.exists_eq_add_of_le (Nat.not_lt.mp first)
      rw [List.getElem?_append_right (by simp [byteBits])]
      rw [byteBits, length_lowBits, Nat.add_sub_cancel_left, ih, Nat.add_mod_left,
        Nat.add_div_left _ (by decide), List.getElem?_cons_succ]

theorem bitsOf_drop (data : Bytes) (k : Nat) :
    (bitsOf data).drop (k * 8) = bitsOf (data.drop k) := by
  induction k generalizing data with
  | zero => simp
  | succ k ih =>
    cases data with
    | nil => simp [bitsOf]
    | cons b rest =>
      rw [bitsOf, List.flatMap_cons, ← bitsOf, List.drop_succ_cons, ← ih rest, Nat.succ_mul,
        Nat.add_comm, ← List.drop_drop, List.drop_left' (by simp [byteBits])]

theorem byteBits_injective {a b : UInt8} (same : byteBits a = byteBits b) : a = b := by
  have number (b : UInt8) : ofLowBits (byteBits b) = b.toNat :=
    ofLowBits_lowBits_of_lt b.toNat_lt
  rw [← UInt8.toNat_inj, ← number a, ← number b, same]

/-- Bytes that begin with the bits of others begin with these. -/
theorem append_of_bitsOf {data bytes : Bytes} {s : List Bool}
    (eq : bitsOf data = bitsOf bytes ++ s) : ∃ rest, data = bytes ++ rest := by
  induction bytes generalizing data with
  | nil => exact ⟨data, rfl⟩
  | cons b bytes ih =>
    cases data with
    | nil => simp [bitsOf, byteBits, lowBits, List.range_succ] at eq
    | cons a data =>
      unfold bitsOf at eq
      rw [List.flatMap_cons, List.flatMap_cons, List.append_assoc] at eq
      obtain ⟨first, others⟩ := List.append_inj eq (by simp [byteBits])
      obtain ⟨rest, rfl⟩ := ih others
      exact ⟨rest, by rw [byteBits_injective first]; rfl⟩

/-- The bytes that bits are packed in. -/
def packBits (bits : List Bool) : Bytes :=
  (chunks 8 bits).map fun byte => UInt8.ofNat (ofLowBits byte)

/-- Bits that fill their bytes come back. -/
theorem bitsOf_packBits {bits : List Bool} (full : 8 ∣ bits.length) :
    bitsOf (packBits bits) = bits := by
  have byte (c : List Bool) (eight : c.length = 8) :
      byteBits (UInt8.ofNat (ofLowBits c)) = c := by
    have small := ofLowBits_lt c
    rw [eight] at small
    unfold byteBits
    rw [UInt8.toNat_ofNat', Nat.mod_eq_of_lt small, ← eight, lowBits_ofLowBits]
  unfold bitsOf packBits
  rw [List.flatMap_map]
  have same : (chunks 8 bits).flatMap (fun c => byteBits (UInt8.ofNat (ofLowBits c))) =
      (chunks 8 bits).flatMap id :=
    List.flatMap_congr fun c mem => byte c (length_of_mem_chunks full mem)
  rw [same, List.flatMap_id, flatten_chunks (by decide)]

end Posh.Lib
