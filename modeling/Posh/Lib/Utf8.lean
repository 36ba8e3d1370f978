import Posh.Lib.Bytes
import Posh.Lib.Checked

/-!
UTF-8 text: strict and lossy decoding, lengths and slices counted in bytes, and
the number parsers of a systems language.

A string is the list of its characters. Lossy decoding replaces each maximal
prefix of an ill-formed sequence by U+FFFD; a slice checks that its two ends lie
on character boundaries.
-/

namespace Posh.Lib

def isContinuation (b : UInt8) : Bool :=
  0x80 ≤ b.toNat && b.toNat ≤ 0xBF

/-- The second bytes a three-byte sequence allows after its first. -/
def secondOfThree (b0 b1 : Nat) : Bool :=
  b0 == 0xE0 && 0xA0 ≤ b1 && b1 ≤ 0xBF || 0xE1 ≤ b0 && b0 ≤ 0xEC && 0x80 ≤ b1 && b1 ≤ 0xBF ||
    b0 == 0xED && 0x80 ≤ b1 && b1 ≤ 0x9F || 0xEE ≤ b0 && b0 ≤ 0xEF && 0x80 ≤ b1 && b1 ≤ 0xBF

/-- The second bytes a four-byte sequence allows after its first. -/
def secondOfFour (b0 b1 : Nat) : Bool :=
  b0 == 0xF0 && 0x90 ≤ b1 && b1 ≤ 0xBF || 0xF1 ≤ b0 && b0 ≤ 0xF3 && 0x80 ≤ b1 && b1 ≤ 0xBF ||
    b0 == 0xF4 && 0x80 ≤ b1 && b1 ≤ 0x8F

/-- Two, three and four bytes as a code point. -/
def codePoint2 (b0 b1 : UInt8) : Nat :=
  (b0.toNat - 0xC0) * 64 + (b1.toNat - 0x80)

def codePoint3 (b0 b1 b2 : UInt8) : Nat :=
  ((b0.toNat - 0xE0) * 64 + (b1.toNat - 0x80)) * 64 + (b2.toNat - 0x80)

def codePoint4 (b0 b1 b2 b3 : UInt8) : Nat :=
  (((b0.toNat - 0xF0) * 64 + (b1.toNat - 0x80)) * 64 + (b2.toNat - 0x80)) * 64 + (b3.toNat - 0x80)

/-- The first character, or `none` for an ill-formed sequence, and what follows it. -/
def utf8Chunk (b0 : UInt8) (rest : Bytes) : Option Char × Bytes :=
  if b0.toNat < 0x80 then (some (Char.ofNat b0.toNat), rest)
  else if 0xC2 ≤ b0.toNat ∧ b0.toNat ≤ 0xDF then
    match rest with
    | b1 :: rest' =>
        if isContinuation b1 then (some (Char.ofNat (codePoint2 b0 b1)), rest') else (none, rest)
    | [] => (none, [])
  else if 0xE0 ≤ b0.toNat ∧ b0.toNat ≤ 0xEF then
    match rest with
    | b1 :: rest' =>
        if secondOfThree b0.toNat b1.toNat then
          match rest' with
          | b2 :: rest'' =>
              if isContinuation b2 then (some (Char.ofNat (codePoint3 b0 b1 b2)), rest'')
              else (none, rest')
          | [] => (none, [])
        else (none, rest)
    | [] => (none, [])
  else if 0xF0 ≤ b0.toNat ∧ b0.toNat ≤ 0xF4 then
    match rest with
    | b1 :: rest' =>
        if secondOfFour b0.toNat b1.toNat then
          match rest' with
          | b2 :: rest'' =>
              if isContinuation b2 then
                match rest'' with
                | b3 :: rest''' =>
                    if isContinuation b3 then (some (Char.ofNat (codePoint4 b0 b1 b2 b3)), rest''')
                    else (none, rest'')
                | [] => (none, [])
              else (none, rest')
          | [] => (none, [])
        else (none, rest)
    | [] => (none, [])
  else (none, rest)

/-- The characters and ill-formed sequences of `bytes`; `fuel` bounds their number. -/
def utf8Chunks : (fuel : Nat) → Bytes → List (Option Char)
  | 0, _ => []
  | _ + 1, [] => []
  | fuel + 1, b :: rest => (utf8Chunk b rest).1 :: utf8Chunks fuel (utf8Chunk b rest).2

/-- `String::from_utf8_lossy` -/
def fromUtf8Lossy (bytes : Bytes) : List Char :=
  (utf8Chunks bytes.length bytes).map (·.getD (Char.ofNat 0xFFFD))

/-- `str::from_utf8` -/
def fromUtf8 (bytes : Bytes) : Option (List Char) :=
  (utf8Chunks bytes.length bytes).mapM id

/-- `str::as_bytes` -/
def toUtf8 (s : List Char) : Bytes :=
  s.flatMap String.utf8EncodeChar

theorem toUtf8_append (s s' : List Char) : toUtf8 (s ++ s') = toUtf8 s ++ toUtf8 s' :=
  List.flatMap_append

/-- `str::len` -/
def utf8Length (s : List Char) : Nat :=
  (s.map Char.utf8Size).sum

/-- The string from byte `n` on, if that is a character boundary. -/
def dropUtf8 : List Char → (n : Nat) → Option (List Char)
  | [], n => if n = 0 then some [] else none
  | c :: s, n =>
      if n = 0 then some (c :: s)
      else if c.utf8Size ≤ n then dropUtf8 s (n - c.utf8Size)
      else none

/-- The string before byte `n`, if that is a character boundary. -/
def takeUtf8 : List Char → (n : Nat) → Option (List Char)
  | [], n => if n = 0 then some [] else none
  | c :: s, n =>
      if n = 0 then some []
      else if c.utf8Size ≤ n then (takeUtf8 s (n - c.utf8Size)).map (c :: ·)
      else none

/-- `&s[lo..hi]` -/
def strSlice (s : List Char) (lo hi : Nat) : Checked (List Char) :=
  match (takeUtf8 s hi).bind (dropUtf8 · lo) with
  | some part => .ok part
  | none => .error .boundary

/-! ### Lengths and slices -/

@[simp] theorem utf8Length_nil : utf8Length [] = 0 :=
  rfl

@[simp] theorem utf8Length_cons (c : Char) (s : List Char) :
    utf8Length (c :: s) = c.utf8Size + utf8Length s := by
  simp [utf8Length]

@[simp] theorem utf8Length_append (s s' : List Char) :
    utf8Length (s ++ s') = utf8Length s + utf8Length s' := by
  simp [utf8Length]

@[simp] theorem length_toUtf8 (s : List Char) : (toUtf8 s).length = utf8Length s := by
  simp [toUtf8, utf8Length, List.length_flatMap]

/-- A byte of a character is the character itself or not ASCII. -/
theorem mem_utf8EncodeChar {c : Char} {b : UInt8} (mem : b ∈ String.utf8EncodeChar c) :
    b.toNat = c.toNat ∨ 0x80 ≤ b.toNat := by
  have value : c.toNat = c.val.toNat := rfl
  unfold String.utf8EncodeChar at mem
  extract_lets v at mem
  have v_eq : v = c.val.toNat := rfl
  split at mem
  · left
    rw [List.mem_singleton.mp mem, UInt8.toNat_ofNat']
    omega
  · right
    split at mem
    · simp only [List.mem_cons, List.not_mem_nil, or_false] at mem
      rcases mem with rfl | rfl <;> rw [UInt8.toNat_ofNat'] <;> omega
    · split at mem
      · simp only [List.mem_cons, List.not_mem_nil, or_false] at mem
        rcases mem with rfl | rfl | rfl <;> rw [UInt8.toNat_ofNat'] <;> omega
      · simp only [List.mem_cons, List.not_mem_nil, or_false] at mem
        rcases mem with rfl | rfl | rfl | rfl <;> rw [UInt8.toNat_ofNat'] <;> omega

/-- A prefix that ends beyond `pre`. -/
theorem takeUtf8_append (pre s : List Char) (n : Nat) :
    takeUtf8 (pre ++ s) (utf8Length pre + n) = (takeUtf8 s n).map (pre ++ ·) := by
  induction pre with
  | nil => simp
  | cons c pre ih =>
    have pos := Char.utf8Size_pos c
    rw [List.cons_append, takeUtf8, if_neg (by simp; omega), if_pos (by simp; omega)]
    have rest : utf8Length (c :: pre) + n - c.utf8Size = utf8Length pre + n := by simp; omega
    rw [rest, ih]
    cases takeUtf8 s n <;> rfl

theorem dropUtf8_append (pre s : List Char) : dropUtf8 (pre ++ s) (utf8Length pre) = some s := by
  induction pre with
  | nil => cases s <;> rfl
  | cons c pre ih =>
    have pos := Char.utf8Size_pos c
    rw [List.cons_append, dropUtf8, if_neg (by simp; omega), if_pos (by simp)]
    have rest : utf8Length (c :: pre) - c.utf8Size = utf8Length pre := by simp
    rw [rest, ih]

/-- A slice that starts where `pre` ends. -/
theorem strSlice_append (pre s : List Char) (n : Nat) :
    strSlice (pre ++ s) (utf8Length pre) (utf8Length pre + n) =
      match takeUtf8 s n with
      | some part => .ok part
      | none => .error .boundary := by
  unfold strSlice
  rw [takeUtf8_append]
  cases h : takeUtf8 s n with
  | none => rfl
  | some part => simp [dropUtf8_append]

theorem length_le_utf8Length (s : List Char) : s.length ≤ utf8Length s := by
  induction s with
  | nil => exact Nat.le_refl 0
  | cons c s ih =>
    have pos := Char.utf8Size_pos c
    rw [List.length_cons, utf8Length_cons]
    omega

/-- The string before byte `n` takes up `n` bytes of the whole. -/
theorem takeUtf8_spec {s part : List Char} {n : Nat} (h : takeUtf8 s n = some part) :
    utf8Length part = n ∧ s = part ++ s.drop part.length := by
  induction s generalizing n part with
  | nil =>
    unfold takeUtf8 at h
    split at h
    · rename_i zero
      cases h
      exact ⟨zero.symm, rfl⟩
    · cases h
  | cons c s ih =>
    unfold takeUtf8 at h
    split at h
    · rename_i zero
      cases h
      exact ⟨zero.symm, rfl⟩
    · split at h
      · rename_i le
        cases rest : takeUtf8 s (n - c.utf8Size) with
        | none => simp [rest] at h
        | some part' =>
          simp [rest] at h
          subst h
          obtain ⟨length, split⟩ := ih rest
          refine ⟨by rw [utf8Length_cons]; omega, ?_⟩
          rw [List.cons_append, List.length_cons, List.drop_succ_cons, ← split]
      · cases h

/-! ### Numbers -/

/-- `char::to_digit` -/
def digitOf (radix : Nat) (c : Char) : Option Nat :=
  let d :=
    if '0' ≤ c ∧ c ≤ '9' then c.toNat - '0'.toNat
    else if 'a' ≤ c ∧ c ≤ 'z' then c.toNat - 'a'.toNat + 10
    else if 'A' ≤ c ∧ c ≤ 'Z' then c.toNat - 'A'.toNat + 10
    else radix
  if d < radix then some d else none

/-- `from_str_radix` of an unsigned type whose greatest value is `max`: a leading
`+` is allowed, an empty number is not. -/
def fromStrRadix (max radix : Nat) (s : List Char) : Option Nat :=
  let digits := match s with
    | '+' :: rest => rest
    | _ => s
  if digits.isEmpty then none
  else
    (digits.mapM (digitOf radix)).bind fun ds =>
      let value := ds.foldl (fun v d => v * radix + d) 0
      if value ≤ max then some value else none

theorem digitOf_lt {radix : Nat} {c : Char} {d : Nat} (h : digitOf radix c = some d) : d < radix := by
  unfold digitOf at h
  extract_lets digit at h
  split at h
  · rename_i small
    exact (Option.some.inj h) ▸ small
  · cases h

theorem mapM_digitOf {radix : Nat} {s : List Char} {ds : List Nat}
    (h : s.mapM (digitOf radix) = some ds) : ds.length = s.length ∧ ∀ d ∈ ds, d < radix := by
  induction s generalizing ds with
  | nil =>
    cases h
    exact ⟨rfl, nofun⟩
  | cons c s ih =>
    rw [List.mapM_cons] at h
    cases first : digitOf radix c with
    | none => simp [first] at h
    | some d =>
      cases rest : s.mapM (digitOf radix) with
      | none => simp [first, rest] at h
      | some ds' =>
        simp [first, rest] at h
        subst h
        obtain ⟨length, small⟩ := ih rest
        refine ⟨by simp [length], ?_⟩
        intro d' mem
        rcases List.mem_cons.mp mem with rfl | mem
        · exact digitOf_lt first
        · exact small d' mem

/-- A number of `k` digits is below `radix ^ k`. -/
theorem foldl_digits_lt {radix : Nat} {ds : List Nat} (small : ∀ d ∈ ds, d < radix) {v k : Nat}
    (bound : v < radix ^ k) : ds.foldl (fun v d => v * radix + d) v < radix ^ (k + ds.length) := by
  induction ds generalizing v k with
  | nil => simpa using bound
  | cons d ds ih =>
    rw [List.foldl_cons, List.length_cons, Nat.add_comm ds.length 1, ← Nat.add_assoc]
    refine ih (fun d' mem => small d' (List.mem_cons_of_mem d mem)) ?_
    have dsmall := small d List.mem_cons_self
    calc v * radix + d < v * radix + radix := by omega
      _ = (v + 1) * radix := by rw [Nat.add_mul, Nat.one_mul]
      _ ≤ radix ^ k * radix := Nat.mul_le_mul_right radix bound
      _ = radix ^ (k + 1) := (Nat.pow_succ ..).symm

theorem fromStrRadix_lt {max radix : Nat} (pos : 0 < radix) {s : List Char} {v : Nat}
    (h : fromStrRadix max radix s = some v) : v < radix ^ s.length ∧ v ≤ max := by
  unfold fromStrRadix at h
  extract_lets digits at h
  have shorter : digits.length ≤ s.length := by
    unfold digits
    split
    · simp
    · exact Nat.le_refl _
  split at h
  · cases h
  · cases values : digits.mapM (digitOf radix) with
    | none => simp [values] at h
    | some ds =>
      simp only [values, Option.bind_some] at h
      split at h
      · rename_i le
        cases h
        obtain ⟨length, small⟩ := mapM_digitOf values
        have lt := foldl_digits_lt small (v := 0) (k := 0) (by simp)
        rw [Nat.zero_add, length] at lt
        exact ⟨Nat.lt_of_lt_of_le lt (Nat.pow_le_pow_right pos shorter), le⟩
      · cases h

/-! ### Splitting -/

/-- `str::split_once` -/
def splitOnce (sep : Char) (s : List Char) : Option (List Char × List Char) :=
  match s.dropWhile (· ≠ sep) with
  | [] => none
  | _ :: rest => some (s.takeWhile (· ≠ sep), rest)

theorem splitOnce_append {sep : Char} {before rest : List Char} (absent : sep ∉ before) :
    splitOnce sep (before ++ sep :: rest) = some (before, rest) := by
  have passes : ∀ c ∈ before, decide (c ≠ sep) = true := by
    intro c mem
    exact decide_eq_true fun same => absent (same ▸ mem)
  unfold splitOnce
  rw [List.dropWhile_append_of_pos passes, List.takeWhile_append_of_pos passes]
  simp

theorem splitOnce_of_not_mem {sep : Char} {s : List Char} (absent : sep ∉ s) :
    splitOnce sep s = none := by
  have passes : ∀ c ∈ s, decide (c ≠ sep) = true := by
    intro c mem
    exact decide_eq_true fun same => absent (same ▸ mem)
  unfold splitOnce
  rw [← List.append_nil s, List.dropWhile_append_of_pos passes]
  rfl

/-- A text is split at its first separator. -/
theorem splitOnce_spec {sep : Char} {s before after : List Char}
    (found : splitOnce sep s = some (before, after)) : s = before ++ sep :: after ∧ sep ∉ before := by
  by_cases mem : sep ∈ s
  · obtain ⟨first, rest, rfl, absent⟩ := List.eq_append_cons_of_mem mem
    rw [splitOnce_append absent] at found
    cases found
    exact ⟨rfl, absent⟩
  · rw [splitOnce_of_not_mem mem] at found
    cases found

/-- `str::strip_prefix` -/
def stripPrefix (p s : List Char) : Option (List Char) :=
  if p.isPrefixOf s then some (s.drop p.length) else none

end Posh.Lib
