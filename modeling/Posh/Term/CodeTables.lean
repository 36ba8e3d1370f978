import Posh.Term.Deflate
import Posh.Term.Inflate

/-!
Reading bits and code words.

`Ahead` is what the bit reader has before it. A number is read back from the bits that spell
it, and a code word is read back as its symbol: the table that is built of the code lengths
holds the symbols by length and value, and the walk over the bits of a word finds the place.
-/

namespace Posh.Term.Inflate

open Posh.Lib Posh.Lib.CanonicalCode

variable {data : Bytes} {pos : Nat} {s : List Bool}

/-- The bits from a position on. -/
def Ahead (data : Bytes) (pos : Nat) (s : List Bool) : Prop :=
  (bitsOf data).drop pos = s

theorem Ahead.advance {a : List Bool} (h : Ahead data pos (a ++ s)) :
    Ahead data (pos + a.length) s := by
  unfold Ahead at h ⊢
  rw [← List.drop_drop, h, List.drop_left]

theorem Ahead.bit {b : Bool} (h : Ahead data pos (b :: s)) :
    ∃ byte, data[pos / 8]? = some byte ∧ byte.toNat / 2 ^ (pos % 8) % 2 = b.toNat := by
  have found : (bitsOf data)[pos]? = some b := by
    have first := congrArg (·[0]?) (show (bitsOf data).drop pos = b :: s from h)
    simpa using first
  rw [getElem?_bitsOf] at found
  obtain ⟨byte, there, rfl⟩ := Option.map_eq_some_iff.mp found
  exact ⟨byte, there, (Nat.toNat_testBit _ _).symm⟩

/-- One bit after the other is added at its place. -/
theorem forEach_bits {f : Nat → Nat × Nat → Fallible InflateError (Nat × Nat)}
    (step : ∀ i out pos b s, Ahead data pos (b :: s) →
      f i (out, pos) = .ok (out + b.toNat * 2 ^ i, pos + 1))
    {bs : List Bool} (k out : Nat) (h : Ahead data pos (bs ++ s)) :
    Fallible.forEach (List.range' k bs.length) (out, pos) f =
      .ok (out + ofLowBits bs * 2 ^ k, pos + bs.length) := by
  induction bs generalizing k out pos with
  | nil =>
    rw [ofLowBits, Nat.zero_mul]
    rfl
  | cons b rest ih =>
    have later : Ahead data (pos + 1) (rest ++ s) := h.advance (a := [b])
    rw [List.length_cons, List.range'_succ]
    change (f k (out, pos) >>= _) = _
    rw [step k out pos b _ h, Fallible.ok_bind, ih _ _ later, ofLowBits, pow_succ']
    congr 2
    · ring
    · omega

/-- The bits are read as the number they spell. -/
theorem bits_gives {bs : List Bool} (h : Ahead data pos (bs ++ s)) :
    Gives (bits data bs.length pos)
      fun r => r = (ofLowBits bs, pos + bs.length) ∧ Ahead data (pos + bs.length) s := by
  refine ⟨_, ?_, rfl, h.advance⟩
  unfold bits
  rw [List.range_eq_range']
  refine (forEach_bits ?_ 0 0 h).trans (by simp)
  intro i out pos b s ahead
  obtain ⟨byte, there, bit⟩ := ahead.bit
  dsimp only
  rw [there]
  change Fallible.ok _ = _
  rw [bit]

theorem bits_lowBits {w n : Nat} (fits : n < 2 ^ w) (h : Ahead data pos (lowBits w n ++ s)) :
    Gives (bits data w pos) fun r => r = (n, pos + w) ∧ Ahead data (pos + w) s := by
  have read := bits_gives h
  rwa [length_lowBits, ofLowBits_lowBits_of_lt fits] at read

theorem bits_one {b : Bool} (h : Ahead data pos (b :: s)) :
    Gives (bits data 1 pos) fun r => r = (b.toNat, pos + 1) ∧ Ahead data (pos + 1) s :=
  bits_gives (show Ahead data pos ([b] ++ s) from h)

/-! ### Code words -/

/-- The table is that of the code lengths. -/
structure Huffman.Of (lengths : List Nat) (h : Huffman) : Prop where
  counts : ∀ l, l ≠ 0 → l ≤ 15 → h.counts[l]? = some (used lengths l)
  symbols : ∀ sym, width lengths sym ≠ 0 → h.symbols[place lengths sym]? = some sym

variable {lengths : List Nat} {h : Huffman} {sym : Nat}

theorem getAt_yields {α : Type} {xs : List α} {i : Nat} {a : α} (found : xs[i]? = some a) :
    Yields (getAt xs i) (· = a) := by
  refine ⟨a, ?_, rfl⟩
  unfold getAt
  rw [found]

theorem getAt_gives {α : Type} {xs : List α} {i : Nat} {a : α} (found : xs[i]? = some a) :
    Gives (liftM (getAt xs i) : Fallible InflateError α) (· = a) :=
  .lift (getAt_yields found)

/-- One bit of the walk, with `d` more to come: it ends with the word, and not before. -/
theorem decodeLoop_bit (table : h.Of lengths) (some_ : width lengths sym ≠ 0)
    (short : width lengths sym ≤ 15) {d k budget : Nat} (long : width lengths sym = k + 1 + d)
    (ahead : Ahead data pos (highBits (d + 1) (code lengths sym) ++ s)) :
    decodeLoop data h (budget + 1) (k + 1) (code lengths sym / 2 ^ (d + 1) * 2)
        (firstCode lengths (k + 1)) (start lengths (k + 1)) pos =
      if d = 0 then .ok (sym, pos + 1)
      else decodeLoop data h budget (k + 2) (code lengths sym / 2 ^ d * 2)
        (firstCode lengths (k + 2)) (start lengths (k + 2)) (pos + 1) := by
  rw [highBits_succ, List.cons_append] at ahead
  obtain ⟨_, read, rfl, -⟩ := bits_one ahead
  obtain ⟨_, count, rfl⟩ := getAt_gives (table.counts (k + 1) (Nat.succ_ne_zero k) (by omega))
  have longer : code lengths sym / 2 ^ (d + 1) * 2 + ((code lengths sym).testBit d).toNat =
      code lengths sym / 2 ^ d := by
    rw [Nat.toNat_testBit, pow_succ, ← Nat.div_div_eq_div_mul]
    omega
  rw [decodeLoop, read, Fallible.ok_bind]
  dsimp only
  rw [longer, count, Fallible.ok_bind, firstCode_add_used]
  by_cases last : d = 0
  · subst last
    have here : width lengths sym = k + 1 := long
    have reached := code_lt_kraft some_
    have first : firstCode lengths (k + 1) ≤ code lengths sym := by
      unfold code
      rw [here]
      exact Nat.le_add_right _ _
    obtain ⟨_, found, same⟩ := getAt_gives (table.symbols sym some_)
    rw [same] at found
    have at_ : start lengths (k + 1) + code lengths sym - firstCode lengths (k + 1) =
        place lengths sym := by
      unfold place code
      rw [here]
      omega
    rw [pow_zero, Nat.div_one, if_pos (by rwa [here] at reached), sub_eq_ok (by omega),
      Fallible.lift_ok_bind, at_, found, if_pos rfl]
    rfl
  · have before : kraft lengths (k + 1) ≤ code lengths sym / 2 ^ (width lengths sym - (k + 1)) :=
      kraft_le_prefix (by omega)
    rw [show width lengths sym - (k + 1) = d by omega] at before
    have next : firstCode lengths (k + 2) = kraft lengths (k + 1) * 2 := by
      rw [firstCode, firstCode_add_used]
    rw [if_neg (Nat.not_lt.mpr before), if_neg last, next]
    rfl

theorem decodeLoop_word (table : h.Of lengths) (some_ : width lengths sym ≠ 0)
    (short : width lengths sym ≤ 15) {d k budget : Nat} (long : width lengths sym = k + 1 + d)
    (enough : d < budget) (ahead : Ahead data pos (highBits (d + 1) (code lengths sym) ++ s)) :
    decodeLoop data h budget (k + 1) (code lengths sym / 2 ^ (d + 1) * 2)
      (firstCode lengths (k + 1)) (start lengths (k + 1)) pos = .ok (sym, pos + (d + 1)) := by
  induction d generalizing k budget pos with
  | zero =>
    obtain ⟨budget, rfl⟩ := Nat.exists_eq_add_of_lt enough
    rw [decodeLoop_bit table some_ short long ahead, if_pos rfl]
  | succ d ih =>
    obtain ⟨budget, rfl⟩ := Nat.exists_eq_add_of_lt enough
    rw [decodeLoop_bit table some_ short long ahead, if_neg (Nat.succ_ne_zero d)]
    rw [highBits_succ] at ahead
    have later : Ahead data (pos + 1) _ := ahead.advance (a := [_])
    have long' : width lengths sym = k + 1 + 1 + d := by omega
    have walk := ih long' (show d < d + 1 + budget by omega) later
    rw [walk, Nat.add_assoc, Nat.add_comm 1]

/-- A code word is read as its symbol. -/
theorem decode_word (table : h.Of lengths) (suited : Deflate.Suited 15 lengths)
    (some_ : width lengths sym ≠ 0) (ahead : Ahead data pos (word lengths sym ++ s)) :
    Gives (decode data h pos) fun r =>
      r = (sym, pos + width lengths sym) ∧ Ahead data (pos + width lengths sym) s := by
  have later := ahead.advance
  unfold word at later ahead
  rw [length_highBits] at later
  refine ⟨_, ?_, rfl, later⟩
  have inside := getElem?_of_width some_
  have short := suited.bounded _ (List.mem_of_getElem? inside)
  obtain ⟨d, long⟩ := Nat.exists_eq_succ_of_ne_zero some_
  have small : code lengths sym < 2 ^ (d + 1) := by
    have taken := code_lt_kraft some_
    have room := kraft_le suited.room short
    rw [long] at taken room
    omega
  have start_ := Nat.div_eq_of_lt small
  rw [long] at ahead ⊢
  have long' : width lengths sym = 0 + 1 + d := by omega
  have walk := decodeLoop_word table some_ short long' (show d < 15 by omega) ahead
  rw [start_] at walk
  exact walk

/-! ### The table of a code -/

theorem start_le_length (l : Nat) : start lengths l ≤ lengths.length := by
  rw [start_eq_countP]
  exact List.countP_le_length

/-- One more code length is counted. -/
theorem countLengths_step {before counts : List Nat} {a : Nat} (low : a ≤ 15)
    (few : before.length + 1 < 2 ^ 16) (sixteen : counts.length = 16)
    (now : ∀ l, l < 16 → counts[l]? = some (before.count l)) :
    Gives (do
        let count ← liftM (getAt counts a)
        let count ← liftM (add 16 count 1)
        liftM (setAt counts a count) : Fallible InflateError (List Nat)) fun counts =>
      counts.length = 16 ∧ ∀ l, l < 16 → counts[l]? = some ((before ++ [a]).count l) := by
  have room : before.count a + 1 < 2 ^ 16 := by
    have fewer := List.count_le_length (a := a) (l := before)
    omega
  refine (getAt_gives (now a (by omega))).bind ?_
  rintro _ rfl
  refine (Gives.lift (Yields.add room)).bind ?_
  rintro _ rfl
  refine (Gives.lift (Yields.setAt (by omega))).mono ?_
  rintro _ rfl
  refine ⟨by rw [List.length_set, sixteen], fun l inside => ?_⟩
  rw [List.count_append, List.count_singleton]
  by_cases same : a = l
  · subst same
    rw [List.getElem?_set_self (by omega), beq_self_eq_true, if_pos rfl]
  · rw [List.getElem?_set_ne same, now l inside]
    simp [same]

theorem countLengths_gives (bounded : ∀ l ∈ lengths, l ≤ 15) (few : lengths.length < 2 ^ 16) :
    Gives (countLengths lengths) fun counts =>
      counts.length = 16 ∧ ∀ l, l < 16 → counts[l]? = some (lengths.count l) := by
  unfold countLengths
  refine Gives.forEach (I := fun before (counts : List Nat) =>
    counts.length = 16 ∧ ∀ l, l < 16 → counts[l]? = some (before.count l)) ?_ ?_
  · refine ⟨rfl, fun l inside => ?_⟩
    rw [List.getElem?_replicate, if_pos inside, List.count_nil]
  · rintro before a after counts rfl ⟨sixteen, now⟩
    have low := bounded a (by simp)
    rw [List.length_append, List.length_cons] at few
    rw [if_neg (Nat.not_lt.mpr low)]
    exact countLengths_step low (by omega) sixteen now

/-- Code lengths are counted, or one of them is too long. -/
theorem countLengths_returns (few : lengths.length < 2 ^ 16) :
    Returns True (countLengths lengths) fun counts =>
      (∀ l ∈ lengths, l ≤ 15) ∧ counts.length = 16 ∧
        ∀ l, l < 16 → counts[l]? = some (lengths.count l) := by
  unfold countLengths
  refine Returns.forEach (I := fun before (counts : List Nat) => (∀ l ∈ before, l ≤ 15) ∧
    counts.length = 16 ∧ ∀ l, l < 16 → counts[l]? = some (before.count l)) ?_ ?_
  · refine ⟨nofun, rfl, fun l inside => ?_⟩
    rw [List.getElem?_replicate, if_pos inside, List.count_nil]
  · rintro before a after counts rfl ⟨bounded, sixteen, now⟩
    rw [List.length_append, List.length_cons] at few
    split
    · exact .fail _
    · rename_i low
      obtain ⟨counts', eq, counted⟩ := countLengths_step (Nat.not_lt.mp low) (by omega) sixteen now
      rw [eq]
      refine ⟨fun l mem => ?_, counted⟩
      rcases List.mem_append.mp mem with mem | mem
      · exact bounded l mem
      · obtain rfl := List.mem_singleton.mp mem
        exact Nat.not_lt.mp low

/-- At each length there is room for the code words of it. -/
theorem checkCounts_gives {counts : List Nat} (suited : Deflate.Suited 15 lengths)
    (all : counts.length = 16) (count : ∀ l, l < 16 → counts[l]? = some (used lengths l)) :
    checkCounts 1 (counts.drop 1) = .ok () := by
  have rest (d k : Nat) (far : k + d = 15) :
      checkCounts (2 ^ k - kraft lengths k) (counts.drop (k + 1)) = .ok () := by
    induction d generalizing k with
    | zero =>
      rw [List.drop_eq_nil_of_le (by omega)]
      rfl
    | succ d ih =>
      obtain ⟨inside, eq⟩ := List.getElem?_eq_some_iff.mp (count (k + 1) (by omega))
      have room := kraft_le suited.room (show k + 1 ≤ 15 by omega)
      have next : kraft lengths (k + 1) = _ := kraft_succ k
      have left : ((2 : Int) ^ k - kraft lengths k) * 2 - used lengths (k + 1) =
          2 ^ (k + 1) - kraft lengths (k + 1) := by
        rw [next]
        push_cast
        ring
      have enough : (kraft lengths (k + 1) : Int) ≤ 2 ^ (k + 1) := by exact_mod_cast room
      rw [List.drop_eq_getElem_cons inside, eq, checkCounts, left, if_neg (by omega)]
      exact ih (k + 1) (by omega)
  have whole := rest 15 0 rfl
  rw [kraft_zero] at whole
  exact whole

theorem symbolOffsets_yields {counts : List Nat} (few : lengths.length < 2 ^ 16)
    (count : ∀ l, l < 16 → counts[l]? = some (used lengths l)) :
    Yields (symbolOffsets counts) fun offsets =>
      offsets.length = 16 ∧ ∀ l, l < 16 → offsets[l]? = some (start lengths l) := by
  unfold symbolOffsets
  refine (Yields.forRange_index (I := fun len (offsets : List Nat) => offsets.length = 16 ∧
    ∀ l, l ≤ len → offsets[l]? = some (start lengths l)) (by decide) ?_ ?_).mono ?_
  · refine ⟨rfl, fun l first => ?_⟩
    rw [List.getElem?_replicate, if_pos (by omega)]
    obtain rfl | rfl := Nat.le_one_iff_eq_zero_or_eq_one.mp first
    · rfl
    · rfl
  · rintro len offsets low high ⟨sixteen, now⟩
    have room : start lengths len + used lengths len < 2 ^ 16 := by
      have few' : start lengths (len + 1) ≤ lengths.length := start_le_length _
      rw [start] at few'
      omega
    refine (getAt_yields (now len (Nat.le_refl _))).bind ?_
    rintro _ rfl
    refine (getAt_yields (count len (by omega))).bind ?_
    rintro _ rfl
    refine (Yields.add room).bind ?_
    rintro _ rfl
    refine (Yields.setAt (by omega)).mono ?_
    rintro _ rfl
    refine ⟨by rw [List.length_set, sixteen], fun l before => ?_⟩
    rcases Nat.lt_or_eq_of_le before with lt | rfl
    · rw [List.getElem?_set_ne (by omega), now l (by omega)]
    · rw [List.getElem?_set_self (by omega), start]
  · exact fun offsets done => ⟨done.1, fun l inside => done.2 l (by omega)⟩

/-- Each symbol is put in its place, and stays there. -/
theorem sortSymbols_yields (bounded : ∀ l ∈ lengths, l ≤ 15) (few : lengths.length < 2 ^ 16)
    {before rest offsets symbols : List Nat} (all : lengths = before ++ rest)
    (sixteen : offsets.length = 16) (places : symbols.length = start lengths 16)
    (next : ∀ l, l ≠ 0 → l < 16 → offsets[l]? = some (start lengths l + before.count l))
    (sorted : ∀ sym, sym < before.length → width lengths sym ≠ 0 →
      symbols[place lengths sym]? = some sym) :
    Yields (sortSymbols rest before.length offsets symbols) fun r =>
      ∀ sym, width lengths sym ≠ 0 → r[place lengths sym]? = some sym := by
  induction rest generalizing before offsets symbols with
  | nil =>
    rw [List.append_nil] at all
    refine .ok fun sym some_ => sorted sym ?_ some_
    rw [← all]
    exact (List.getElem?_eq_some_iff.mp (getElem?_of_width some_)).1
  | cons l rest ih =>
    have here : width lengths before.length = l := by
      unfold width
      rw [all]
      simp
    have all' : lengths = (before ++ [l]) ++ rest := by
      rw [all, List.append_assoc]
      rfl
    have length' : (before ++ [l]).length = before.length + 1 := by simp
    rw [sortSymbols]
    by_cases none : l = 0
    · rw [if_neg (not_not.mpr none), ← length']
      refine ih all' sixteen places ?_ ?_
      · intro l' some_ low
        rw [next l' some_ low, List.count_append, none, List.count_singleton]
        simp [Ne.symm some_]
      · intro sym inside some_
        refine sorted sym ?_ some_
        rw [length'] at inside
        rcases Nat.lt_succ_iff_lt_or_eq.mp inside with lt | rfl
        · exact lt
        · exact absurd (here.trans none) some_
    · have low : l ≤ 15 := bounded l (by rw [all]; simp)
      have some_ : width lengths before.length ≠ 0 := here ▸ none
      have at_ : start lengths l + before.count l = place lengths before.length := by
        unfold place rank
        rw [here, all, List.take_left]
      have inside := place_lt_start some_ (show width lengths before.length < 16 by omega)
      have room : start lengths 16 ≤ lengths.length := start_le_length 16
      have short : before.length < 2 ^ 16 := by
        rw [all, List.length_append] at few
        omega
      rw [if_pos none]
      refine (getAt_yields (next l none (by omega))).bind ?_
      rintro _ rfl
      rw [at_]
      refine (Yields.setAt (by omega)).bind ?_
      rintro _ rfl
      refine (Yields.add (by omega)).bind ?_
      rintro _ rfl
      refine (Yields.setAt (by omega)).bind ?_
      rintro _ rfl
      rw [← length', Nat.mod_eq_of_lt short]
      refine ih all' (by rw [List.length_set, sixteen]) (by rw [List.length_set, places]) ?_ ?_
      · intro l' some' low'
        rw [List.count_append, List.count_singleton]
        by_cases same : l = l'
        · subst same
          rw [List.getElem?_set_self (by omega), ← at_, beq_self_eq_true, if_pos rfl,
            Nat.add_assoc]
        · rw [List.getElem?_set_ne same, next l' some' low']
          simp [same]
      · intro sym before_ some'
        rw [length'] at before_
        rcases Nat.lt_succ_iff_lt_or_eq.mp before_ with lt | rfl
        · have other : place lengths before.length ≠ place lengths sym := fun eq =>
            lt.ne' (place_injective some_ some' eq)
          rw [List.getElem?_set_ne other, sorted sym lt some']
        · rw [List.getElem?_set_self (by omega)]

/-- Symbols of length 0 have no words. -/
theorem used_counts {counts : List Nat} (sixteen : counts.length = 16)
    (count : ∀ l, l < 16 → counts[l]? = some (lengths.count l)) (l : Nat) (inside : l < 16) :
    (counts.set 0 0)[l]? = some (used lengths l) := by
  unfold used
  by_cases none : l = 0
  · rw [none, List.getElem?_set_self (by omega), if_pos rfl]
  · rw [List.getElem?_set_ne (Ne.symm none), count l inside, if_neg none]

theorem length_places (bounded : ∀ l ∈ lengths, l ≤ 15) :
    (List.replicate (lengths.filter (· ≠ 0)).length 0).length = start lengths 16 := by
  rw [List.length_replicate]
  exact (start_eq fun l mem => Nat.lt_succ_of_le (bounded l mem)).symm

/-- The table of suitable code lengths is built. -/
theorem Huffman.new_of (suited : Deflate.Suited 15 lengths) (few : lengths.length < 2 ^ 16) :
    Gives (Huffman.new lengths) (·.Of lengths) := by
  unfold Huffman.new
  refine (countLengths_gives suited.bounded few).bind ?_
  rintro counts ⟨sixteen, count⟩
  refine (Gives.lift (Yields.setAt (by omega))).bind ?_
  rintro _ rfl
  have counted := used_counts sixteen count
  refine Gives.bind (p := fun _ => True)
    ⟨(), checkCounts_gives suited (by rw [List.length_set, sixteen]) counted, trivial⟩ ?_
  rintro _ -
  refine (Gives.lift (symbolOffsets_yields few counted)).bind ?_
  rintro offsets ⟨sixteen', starts⟩
  have sorts := sortSymbols_yields suited.bounded few (List.nil_append lengths).symm sixteen'
    (length_places suited.bounded) ?_ ?_
  · refine (Gives.lift sorts).bind fun symbols sorted => .pure ⟨?_, sorted⟩
    exact fun l _ low => counted l (by omega)
  · exact fun l _ low => starts l low
  · exact fun sym inside => absurd inside (Nat.not_lt_zero sym)

end Posh.Term.Inflate
