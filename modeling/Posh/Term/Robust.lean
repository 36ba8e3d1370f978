import Posh.Term.Decoded
import Posh.Term.Inflated
import Posh.Term.Watched

/-!
Decompression of untrusted bytes.

The watched decoder and the plain one do the same on every input: each step of the one
mirrors a step of the other, so that no check fails and no loop is cut short. Every pass of
a loop reads at least one bit, and adds to the output no more than a fixed number of bytes
for it; the sums of the source then stay within 64 bits for any input that fits in memory.
-/

namespace Posh.Term.Inflate

open Posh.Lib Posh.Lib.CanonicalCode Deflate

variable {data out : Bytes} {limit pos n : Nat} {h : Huffman}

/-! ### Bits -/

/-- Up to `n` bits are read, all of them inside the data. -/
theorem bits_mirrors (few : n ≤ 16) (small : data.length < 2 ^ 50) (inside : pos ≤ 8 * data.length) :
    Mirrors .error (Watched.bits data n pos) (bits data n pos) fun r =>
      r.1 < 2 ^ n ∧ r.2 = pos + n ∧ r.2 ≤ 8 * data.length := by
  refine Mirrors.forRange (I := fun i (r : Nat × Nat) =>
    r.1 < 2 ^ i ∧ r.2 = pos + i ∧ r.2 ≤ 8 * data.length) ⟨by simp, rfl, inside⟩ ?_
  rintro i below ⟨out, pos'⟩ ⟨fits, place, inside'⟩
  dsimp only at fits place inside'
  refine (Mirrors.ofOption fun byte there => there).bind fun byte there => ?_
  have here := (List.getElem?_eq_some_iff.mp there).1
  have power : 2 ^ i ≤ 2 ^ 15 := Nat.pow_le_pow_right (by decide) (by omega)
  have bit := Nat.mod_lt (byte.toNat / 2 ^ (pos' % 8)) (show 0 < 2 by decide)
  have shifted : byte.toNat / 2 ^ (pos' % 8) % 2 * 2 ^ i ≤ 2 ^ i := by
    have := Nat.mul_le_mul_right (2 ^ i) (Nat.le_of_lt_succ bit)
    omega
  refine .watch (shl_eq_ok (by omega) (by omega)) (.watch (add_eq_ok (by omega)) ?_)
  refine .watch (add_eq_ok (by omega)) (.pure ⟨?_, by omega, by omega⟩)
  rw [pow_succ]
  omega

theorem bit_mirrors (small : data.length < 2 ^ 50) (inside : pos ≤ 8 * data.length) :
    Mirrors .error (Watched.bits data 1 pos) (bits data 1 pos) fun r =>
      r.1 ≤ 1 ∧ r.2 = pos + 1 ∧ r.2 ≤ 8 * data.length :=
  (bits_mirrors (by decide) small inside).mono fun _ read => ⟨by omega, read.2⟩

/-! ### Tables -/

/-- The table has the counts of some code lengths, and a symbol for every word. -/
def Huffman.Table (h : Huffman) : Prop :=
  ∃ lengths : List Nat, lengths.length < 2 ^ 16 ∧
    (∀ l, l ≠ 0 → l ≤ 15 → h.counts[l]? = some (used lengths l)) ∧
    h.symbols.length = start lengths 16

theorem checkCounts_mirrors {counts : List Nat} {left k : Nat} (fits : left ≤ 2 ^ k)
    (few : k + counts.length ≤ 15) :
    Mirrors .error (Watched.checkCounts left counts) (checkCounts left counts) fun _ => True := by
  induction counts generalizing left k with
  | nil => exact .pure trivial
  | cons count rest ih =>
    rw [List.length_cons] at few
    have power : 2 ^ k ≤ 2 ^ 14 := Nat.pow_le_pow_right (by decide) (by omega)
    rw [Watched.checkCounts, checkCounts]
    refine .watch (shl_eq_ok (by omega) (by omega)) ?_
    rw [pow_one]
    by_cases crowded : left * 2 < count
    · rw [if_pos crowded, if_pos (by omega)]
      exact .fail _
    · rw [if_neg crowded, if_neg (by omega)]
      have next : ((left : Int) * 2 - count) = ((left * 2 - count : Nat) : Int) := by omega
      rw [next]
      exact ih (k := k + 1) (by rw [pow_succ]; omega) (by omega)

theorem sortSymbols_length {rest offsets symbols : List Nat} {sym : Nat} :
    Guarded False (sortSymbols rest sym offsets symbols) (·.length = symbols.length) := by
  induction rest generalizing sym offsets symbols with
  | nil => exact .pure rfl
  | cons l rest ih =>
    rw [sortSymbols]
    split
    · refine (Guarded.trivial _).bind fun offset _ => ?_
      refine (Guarded.setAt.weaken False.elim).bind fun symbols' put => ?_
      refine (Guarded.trivial _).bind fun next _ => (Guarded.trivial _).bind fun offsets' _ => ?_
      refine ih.mono fun sorted length => ?_
      rw [length, put, List.length_set]
    · exact ih

/-- A table is built of any code lengths, or they are refused. -/
theorem new_mirrors {lengths : List Nat} (few : lengths.length < 2 ^ 16) :
    Mirrors .error (Watched.Huffman.new lengths) (Huffman.new lengths) Huffman.Table := by
  unfold Watched.Huffman.new Huffman.new
  refine (Mirrors.renamed (countLengths_returns few)).bind ?_
  rintro counts ⟨bounded, sixteen, count⟩
  refine (Mirrors.lift (Yields.setAt (by omega))).bind ?_
  rintro _ rfl
  have counted := used_counts sixteen count
  refine (checkCounts_mirrors (k := 0) (Nat.le_refl 1) (by simp [sixteen])).bind fun _ _ => ?_
  refine (Mirrors.lift (symbolOffsets_yields few counted)).bind ?_
  rintro offsets ⟨sixteen', starts⟩
  have sorts := sortSymbols_yields bounded few (List.nil_append lengths).symm sixteen'
    (length_places bounded) (fun l _ low => starts l low)
    (fun sym inside => absurd inside (Nat.not_lt_zero sym))
  refine (Mirrors.lift (Guarded.and_yields sorts sortSymbols_length)).bind ?_
  rintro symbols ⟨-, length⟩
  exact .pure ⟨lengths, few, fun l _ low => counted l (by omega),
    length.trans (length_places bounded)⟩

/-- A table that the decoder expects to be there. -/
theorem expectHuffman_mirrors {lengths : List Nat} (suited : Deflate.Suited 15 lengths)
    (few : lengths.length < 2 ^ 16) :
    Mirrors .error (liftM (Watched.expectHuffman lengths) : Fallible Halt Huffman)
      (liftM (expectHuffman lengths) : Fallible InflateError Huffman) Huffman.Table := by
  obtain ⟨h, built, -⟩ := Huffman.new_of suited few
  obtain ⟨watched, table⟩ := (built ▸ new_mirrors few).of_ok
  unfold Watched.expectHuffman expectHuffman
  rw [built, watched]
  exact .ok table

/-! ### Symbols -/

/-- The walk along a code word, never before the first word of its length. -/
theorem decodeLoop_mirrors {lengths : List Nat} (few : lengths.length < 2 ^ 16)
    (counts : ∀ l, l ≠ 0 → l ≤ 15 → h.counts[l]? = some (used lengths l))
    (symbols : h.symbols.length = start lengths 16) (small : data.length < 2 ^ 50)
    {budget len code first : Nat} (left : len + budget = 16) (some_ : len ≠ 0)
    (inside : pos ≤ 8 * data.length) (behind : first ≤ code) (short : code + 2 ≤ 2 ^ len) :
    Mirrors .error (Watched.decodeLoop data h budget len code first (start lengths len) pos)
      (decodeLoop data h budget len code first (start lengths len) pos) fun r =>
        pos < r.2 ∧ r.2 ≤ 8 * data.length := by
  induction budget generalizing len code first pos with
  | zero => exact .fail _
  | succ budget ih =>
    have power : 2 ^ len ≤ 2 ^ 15 := Nat.pow_le_pow_right (by decide) (by omega)
    have early : start lengths len ≤ lengths.length := start_le_length _
    have next : start lengths (len + 1) ≤ start lengths 16 := start_mono (by omega)
    have all : start lengths 16 ≤ lengths.length := start_le_length _
    rw [start] at next
    rw [Watched.decodeLoop, decodeLoop]
    refine (bit_mirrors small inside).bind ?_
    rintro ⟨bit, pos'⟩ ⟨bit_le, moved, inside'⟩
    dsimp only at bit_le moved inside' ⊢
    refine .watch (add_eq_ok (by omega)) ?_
    refine (Mirrors.lift (getAt_yields (counts len some_ (by omega)))).bind ?_
    rintro _ rfl
    refine .watch (add_eq_ok (by omega)) ?_
    split
    · refine .watch (add_eq_ok (by omega)) ?_
      refine (Mirrors.lift (Yields.sub (by omega))).bind ?_
      rintro _ rfl
      refine (Mirrors.lift (Yields.getAt (by omega))).bind fun sym _ => ?_
      exact .pure ⟨by omega, inside'⟩
    · refine .watch (add_eq_ok (by omega)) ?_
      refine .watch (shl_eq_ok (by decide) (by omega)) (.watch (shl_eq_ok (by decide) (by omega)) ?_)
      have further : 2 ^ (len + 1) = 2 ^ len * 2 := pow_succ 2 len
      refine (ih (by omega) (Nat.succ_ne_zero len) inside' (by omega) (by omega)).mono ?_
      exact fun r read => ⟨by omega, read.2⟩

/-- A symbol takes at least one bit. -/
theorem decode_mirrors (table : h.Table) (small : data.length < 2 ^ 50)
    (inside : pos ≤ 8 * data.length) :
    Mirrors .error (Watched.decode data h pos) (decode data h pos) fun r =>
      pos < r.2 ∧ r.2 ≤ 8 * data.length := by
  obtain ⟨lengths, few, counts, symbols⟩ := table
  exact decodeLoop_mirrors few counts symbols small rfl Nat.one_ne_zero inside (Nat.le_refl 0)
    (by decide)

/-! ### Code lengths -/

theorem repeatLength_mirrors {prev : Nat} {lengths : List Nat} {i : Nat} (few : lengths.length < 2 ^ 16) :
    Mirrors .error (Watched.repeatLength prev n (lengths, i)) (repeatLength prev n (lengths, i))
      fun r => r.1.length = lengths.length ∧ r.2 = i + n := by
  refine Mirrors.forRange (I := fun k (r : List Nat × Nat) =>
    r.1.length = lengths.length ∧ r.2 = i + k) ⟨rfl, rfl⟩ ?_
  rintro k below ⟨lengths', i'⟩ ⟨same, moved⟩
  dsimp only at same moved ⊢
  split
  · exact .watch (add_eq_ok (by omega)) (.pure ⟨by rw [List.length_set, same], by omega⟩)
  · exact .fail _

/-- A run of zeros is skipped over. -/
theorem skipLengths_mirrors {base i : Nat} {lengths : List Nat} (few : n ≤ 7) (some_ : 0 < base)
    (low : base ≤ 11) (start : i < 2 ^ 16) (small : data.length < 2 ^ 50)
    (inside : pos ≤ 8 * data.length) :
    Mirrors .error
      (do
        let (i, pos) ← Watched.skipLengths data base n i pos
        return (lengths, i, pos))
      (do
        let (extra, pos) ← bits data n pos
        return (lengths, i + base + extra, pos)) fun r : List Nat × Nat × Nat =>
          r.1.length = lengths.length ∧ i < r.2.1 ∧ pos ≤ r.2.2 ∧ r.2.2 ≤ 8 * data.length := by
  have power : 2 ^ n ≤ 2 ^ 7 := Nat.pow_le_pow_right (by decide) few
  have read := bits_mirrors (show n ≤ 16 by omega) small inside
  unfold Watched.skipLengths
  rcases read.outcome with ⟨⟨extra, pos'⟩, watched, plain, fits, moved, inside'⟩ | ⟨e, watched, plain⟩
  · dsimp only at fits moved inside'
    rw [watched, plain]
    simp only [Fallible.ok_bind, add_eq_ok (show base + extra < 2 ^ 64 by omega),
      add_eq_ok (show i + (base + extra) < 2 ^ 64 by omega), Fallible.lift_ok_bind]
    rw [← Nat.add_assoc]
    exact .pure ⟨rfl, by dsimp only; omega, by dsimp only; omega, inside'⟩
  · rw [watched, plain]
    exact .fail _

/-- Every pass reads a bit and sets a length. -/
theorem readLengths_mirrors {clen : Huffman} (table : clen.Table) (small : data.length < 2 ^ 50)
    {fuel budget i : Nat} {lengths : List Nat} (few : lengths.length < 2 ^ 16)
    (inside : pos ≤ 8 * data.length) (enough : 8 * data.length < pos + fuel)
    (passes : lengths.length ≤ i + budget) :
    Mirrors .error (Watched.readLengths data clen fuel lengths i pos)
      (readLengths data clen budget lengths i pos) fun r =>
        r.1.length = lengths.length ∧ pos ≤ r.2 ∧ r.2 ≤ 8 * data.length := by
  induction fuel generalizing budget lengths i pos with
  | zero => omega
  | succ fuel ih =>
    rw [Watched.readLengths]
    cases budget with
    | zero =>
      rw [readLengths, if_pos (by omega)]
      exact .pure ⟨rfl, Nat.le_refl _, inside⟩
    | succ budget =>
      rw [readLengths]
      split
      · exact .pure ⟨rfl, Nat.le_refl _, inside⟩
      · rename_i more
        refine (decode_mirrors table small inside).bind ?_
        rintro ⟨sym, pos'⟩ ⟨moved, inside'⟩
        dsimp only at moved inside' ⊢
        refine Mirrors.bind (p := fun r : List Nat × Nat × Nat => r.1.length = lengths.length ∧
          i < r.2.1 ∧ pos < r.2.2 ∧ r.2.2 ≤ 8 * data.length) ?_ ?_
        · split
          · refine (Mirrors.lift (Yields.setAt (by omega))).bind ?_
            rintro _ rfl
            refine .watch (add_eq_ok (by omega)) (.pure ⟨List.length_set, ?_, moved, inside'⟩)
            exact Nat.lt_succ_self i
          · split
            · split
              · exact .fail _
              · refine .watch (sub_eq_ok (by omega)) ?_
                refine (Mirrors.lift (Yields.getAt (by omega))).bind fun prev _ => ?_
                refine (bits_mirrors (by decide) small inside').bind ?_
                rintro ⟨extra, pos''⟩ ⟨fits, later, inside''⟩
                dsimp only at fits later inside'' ⊢
                refine .watch (add_eq_ok (by omega)) ?_
                refine (repeatLength_mirrors few).bind ?_
                rintro ⟨lengths', i'⟩ ⟨same, further⟩
                dsimp only at same further
                exact .pure ⟨same, by dsimp only; omega, by dsimp only; omega, inside''⟩
            · have still {r : List Nat × Nat × Nat} (read : r.1.length = lengths.length ∧
                  i < r.2.1 ∧ pos' ≤ r.2.2 ∧ r.2.2 ≤ 8 * data.length) :
                  r.1.length = lengths.length ∧ i < r.2.1 ∧ pos < r.2.2 ∧
                    r.2.2 ≤ 8 * data.length :=
                ⟨read.1, read.2.1, Nat.lt_of_lt_of_le moved read.2.2.1, read.2.2.2⟩
              split
              · exact (skipLengths_mirrors (by decide) (by decide) (by decide) (by omega) small
                  inside').mono fun _ => still
              · split
                · exact (skipLengths_mirrors (by decide) (by decide) (by decide) (by omega) small
                    inside').mono fun _ => still
                · exact .fail _
        · rintro ⟨lengths', i', pos''⟩ ⟨same, further, later, inside''⟩
          dsimp only at same further later inside'' ⊢
          split
          · exact .fail _
          · refine (ih (by omega) inside'' (by omega) (by omega)).mono ?_
            exact fun r read => ⟨read.1.trans same, by omega, read.2.2⟩

/-- The lengths of the code length code. -/
theorem clenLengths_mirrors {slots : List Nat} (low : ∀ slot ∈ slots, slot < 19)
    (small : data.length < 2 ^ 50) (inside : pos ≤ 8 * data.length) :
    Mirrors .error
      (Fallible.forEach slots (List.replicate 19 0, pos) fun slot (clenLengths, pos) => do
        let (len, pos) ← Watched.bits data 3 pos
        let clenLengths ← liftM (setAt clenLengths slot len)
        return (clenLengths, pos))
      (Fallible.forEach slots (List.replicate 19 0, pos) fun slot (clenLengths, pos) => do
        let (len, pos) ← bits data 3 pos
        let clenLengths ← liftM (setAt clenLengths slot len)
        return (clenLengths, pos))
      fun r : List Nat × Nat => r.1.length = 19 ∧ pos ≤ r.2 ∧ r.2 ≤ 8 * data.length := by
  refine Mirrors.forEach (I := fun _ (r : List Nat × Nat) =>
    r.1.length = 19 ∧ pos ≤ r.2 ∧ r.2 ≤ 8 * data.length) ⟨rfl, Nat.le_refl _, inside⟩ ?_
  rintro before slot after ⟨clenLengths, pos'⟩ rfl ⟨all, later, inside'⟩
  dsimp only at all later inside' ⊢
  refine (bits_mirrors (by decide) small inside').bind ?_
  rintro ⟨len, pos''⟩ ⟨fits, moved, inside''⟩
  dsimp only at fits moved inside'' ⊢
  have here := low slot (by simp)
  refine (Mirrors.lift (Yields.setAt (by omega))).bind ?_
  rintro _ rfl
  exact .pure ⟨by rw [List.length_set, all], by dsimp only; omega, inside''⟩

theorem dynamicTables_mirrors (small : data.length < 2 ^ 50) {fuel : Nat}
    (inside : pos ≤ 8 * data.length) (enough : 8 * data.length < pos + fuel) :
    Mirrors .error (Watched.dynamicTables data fuel pos) (dynamicTables data pos) fun r =>
      r.1.Table ∧ r.2.1.Table ∧ pos ≤ r.2.2 ∧ r.2.2 ≤ 8 * data.length := by
  unfold Watched.dynamicTables dynamicTables
  refine (bits_mirrors (by decide) small inside).bind ?_
  rintro ⟨hlit, pos₁⟩ ⟨fits₁, moved₁, inside₁⟩
  dsimp only at fits₁ moved₁ inside₁ ⊢
  refine .watch (add_eq_ok (by omega)) ((bits_mirrors (by decide) small inside₁).bind ?_)
  rintro ⟨hdist, pos₂⟩ ⟨fits₂, moved₂, inside₂⟩
  dsimp only at fits₂ moved₂ inside₂ ⊢
  refine .watch (add_eq_ok (by omega)) ((bits_mirrors (by decide) small inside₂).bind ?_)
  rintro ⟨hclen, pos₃⟩ ⟨fits₃, moved₃, inside₃⟩
  dsimp only at fits₃ moved₃ inside₃ ⊢
  refine .watch (add_eq_ok (by omega)) ?_
  have slots : ∀ slot ∈ CLEN_ORDER.take (hclen + 4), slot < 19 := by
    intro slot mem
    have all : ∀ slot ∈ CLEN_ORDER, slot < 19 := by decide
    exact all slot (List.mem_of_mem_take mem)
  refine (clenLengths_mirrors slots small inside₃).bind ?_
  rintro ⟨clenLengths, pos₄⟩ ⟨all, moved₄, inside₄⟩
  dsimp only at all moved₄ inside₄ ⊢
  refine (new_mirrors (by omega)).bind fun clen table => ?_
  refine .watch (add_eq_ok (by omega)) ?_
  have few : (List.replicate (hlit + 257 + (hdist + 1)) 0).length < 2 ^ 16 := by
    rw [List.length_replicate]
    omega
  refine (readLengths_mirrors table small few inside₄ (by omega) (by simp)).bind ?_
  rintro ⟨lengths, pos₅⟩ ⟨same, moved₅, inside₅⟩
  dsimp only at same moved₅ inside₅ ⊢
  rw [List.length_replicate] at same
  refine (Mirrors.lift (Yields.getAt (by omega))).bind fun endOfBlock _ => ?_
  split
  · exact .fail _
  · refine (Mirrors.lift (Yields.slice (Nat.zero_le _) (by omega))).bind ?_
    rintro _ rfl
    refine (Mirrors.lift (Yields.slice (by omega) (Nat.le_refl _))).bind ?_
    rintro _ rfl
    refine (new_mirrors (by simp; omega)).bind fun lit litTable => ?_
    refine (new_mirrors (by simp; omega)).bind fun dist distTable => ?_
    exact .pure ⟨litTable, distTable, by dsimp only; omega, inside₅⟩

/-! ### Output -/

/-- The output is within its limit, and no longer than what the bits that were read can
stand for. -/
structure Within (data : Bytes) (limit : Nat) (out : Bytes) (pos : Nat) : Prop where
  inside : pos ≤ 8 * data.length
  fits : out.length ≤ limit
  paid : out.length ≤ 512 * pos

theorem Within.start (data : Bytes) (limit : Nat) : Within data limit [] 0 where
  inside := Nat.zero_le _
  fits := Nat.zero_le _
  paid := Nat.zero_le _

/-- More bits are read. -/
theorem Within.read {pos' : Nat} (h : Within data limit out pos) (later : pos ≤ pos')
    (inside : pos' ≤ 8 * data.length) : Within data limit out pos' where
  inside := inside
  fits := h.fits
  paid := h.paid.trans (Nat.mul_le_mul_left 512 later)

theorem copyBack_mirrors {len d : Nat} (back : d ≤ out.length) (some_ : 0 < d)
    (room : out.length + len ≤ limit) :
    Mirrors .error (Watched.copyBack limit len d out)
      (liftM (copyBack len d out) : Fallible InflateError Bytes)
      (·.length = out.length + len) := by
  have loop (xs : List Nat) (out : Bytes) (back : d ≤ out.length)
      (room : out.length + xs.length ≤ limit) :
      Mirrors .error
        (Fallible.forEach xs out fun _ out => do
          let b ← Watched.lookBack d out
          Watched.push limit b out)
        (liftM (forEach xs out fun _ out => do
          let at_ ← sub out.length d
          let b ← getAt out at_
          return out ++ [b]) : Fallible InflateError Bytes)
        (·.length = out.length + xs.length) := by
    induction xs generalizing out with
    | nil => exact .ok rfl
    | cons x xs ih =>
      rw [List.length_cons] at room
      have found : getAt out (out.length - d) = .ok out[out.length - d] :=
        getAt_eq_ok (by omega)
      rw [Fallible.forEach, forEach, Watched.lookBack, if_pos back, sub_eq_ok back]
      change Mirrors _ (liftM (getAt out (out.length - d)) >>= _ >>= _)
        (liftM ((getAt out (out.length - d) >>= _) >>= _)) _
      rw [found]
      change Mirrors _ (Watched.push limit _ out >>= _) _ _
      rw [Watched.push, if_pos (by omega)]
      refine (ih (out ++ [out[out.length - d]]) (by simp; omega) (by simp; omega)).mono ?_
      intro out' length
      rw [length, List.length_append, List.length_cons, List.length_cons, List.length_nil]
      omega
  have copied := loop (List.range len) out back (by rwa [List.length_range])
  rw [List.length_range] at copied
  unfold Watched.copyBack copyBack forRange
  rwa [Nat.sub_zero, ← List.range_eq_range']

/-- The entries of the tables, as far as they matter here. -/
theorem tables_bounded :
    (LENGTH_BASE.length = 29 ∧ ∀ base ∈ LENGTH_BASE, base ≤ 258) ∧
    (LENGTH_EXTRA.length = 29 ∧ ∀ extra ∈ LENGTH_EXTRA, extra ≤ 5) ∧
    (DIST_BASE.length = 30 ∧ ∀ base ∈ DIST_BASE, 1 ≤ base ∧ base ≤ 24577) ∧
    DIST_EXTRA.length = 30 ∧ ∀ extra ∈ DIST_EXTRA, extra ≤ 13 := by
  decide

/-- Every pass reads a bit. -/
theorem inflateCompressed_mirrors {lit dist : Huffman} (litTable : lit.Table)
    (distTable : dist.Table) (small : data.length < 2 ^ 50) {fuel budget : Nat}
    (within : Within data limit out pos) (enough : 8 * data.length < pos + fuel)
    (passes : 8 * data.length < pos + budget) :
    Mirrors .error (Watched.inflateCompressed data limit lit dist fuel out pos)
      (inflateCompressed data limit lit dist budget out pos) fun r =>
        pos ≤ r.2 ∧ Within data limit r.1 r.2 := by
  induction fuel generalizing budget out pos with
  | zero => have := within.inside; omega
  | succ fuel ih =>
    cases budget with
    | zero => have := within.inside; omega
    | succ budget =>
      rw [Watched.inflateCompressed, inflateCompressed]
      -- the tables themselves stay out of sight
      have tables := tables_bounded
      generalize LENGTH_BASE = lengthBase, LENGTH_EXTRA = lengthExtra, DIST_BASE = distanceBase,
        DIST_EXTRA = distanceExtra at tables ⊢
      obtain ⟨⟨_, lengthBase_le⟩, ⟨_, lengthExtra_le⟩, ⟨_, distBase_le⟩, _, distExtra_le⟩ := tables
      refine (decode_mirrors litTable small within.inside).bind ?_
      rintro ⟨sym, pos₁⟩ ⟨moved₁, inside₁⟩
      dsimp only at moved₁ inside₁ ⊢
      have within₁ := within.read (Nat.le_of_lt moved₁) inside₁
      have paid := within.paid
      split
      · split
        · exact .fail _
        · rename_i room
          rw [Watched.push, if_pos (by omega), Fallible.ok_bind]
          have within' : Within data limit (out ++ [UInt8.ofNat sym]) pos₁ :=
            ⟨inside₁, by simp; omega, by simp; omega⟩
          refine (ih within' (by omega) (by omega)).mono fun r read => ⟨by omega, read.2⟩
      · split
        · exact .pure ⟨Nat.le_of_lt moved₁, within₁⟩
        · split
          · refine .watch (sub_eq_ok (by omega)) ?_
            refine (Mirrors.lift (Yields.getAt (by omega))).bind ?_
            rintro lenBase ⟨-, mem⟩
            have lenBase_le := lengthBase_le _ mem
            refine (Mirrors.lift (Yields.getAt (by omega))).bind ?_
            rintro lenExtra ⟨-, mem⟩
            have lenExtra_le := lengthExtra_le _ mem
            refine (bits_mirrors (by omega) small inside₁).bind ?_
            rintro ⟨extra, pos₂⟩ ⟨fits₂, moved₂, inside₂⟩
            dsimp only at fits₂ moved₂ inside₂ ⊢
            have extra_lt : 2 ^ lenExtra ≤ 2 ^ 5 := Nat.pow_le_pow_right (by decide) lenExtra_le
            refine .watch (add_eq_ok (by omega)) ((decode_mirrors distTable small inside₂).bind ?_)
            rintro ⟨dsym, pos₃⟩ ⟨moved₃, inside₃⟩
            dsimp only at moved₃ inside₃ ⊢
            split
            · exact .fail _
            · refine (Mirrors.lift (Yields.getAt (by omega))).bind ?_
              rintro distBase ⟨-, mem⟩
              have distBase_le' := distBase_le _ mem
              refine (Mirrors.lift (Yields.getAt (by omega))).bind ?_
              rintro distExtra ⟨-, mem⟩
              have distExtra_le := distExtra_le _ mem
              refine (bits_mirrors (by omega) small inside₃).bind ?_
              rintro ⟨extra', pos₄⟩ ⟨fits₄, moved₄, inside₄⟩
              dsimp only at fits₄ moved₄ inside₄ ⊢
              have extra'_lt : 2 ^ distExtra ≤ 2 ^ 13 :=
                Nat.pow_le_pow_right (by decide) distExtra_le
              refine .watch (add_eq_ok (by omega)) ?_
              split
              · exact .fail _
              · have whole := within.inside
                refine .watch (add_eq_ok (by omega)) ?_
                split
                · exact .fail _
                · refine (copyBack_mirrors (by omega) (by omega) (by omega)).bind ?_
                  intro out' length
                  have within' : Within data limit out' pos₄ := ⟨inside₄, by omega, by omega⟩
                  refine (ih within' (by omega) (by omega)).mono fun r read => ⟨by omega, read.2⟩
          · exact .fail _

/-! ### Blocks -/

theorem inflateStored_mirrors (small : data.length < 2 ^ 50) (within : Within data limit out pos) :
    Mirrors .error (Watched.inflateStored data limit out pos)
      (do
        let pos := (pos + 7) / 8 * 8
        let (len, pos) ← bits data 16 pos
        let (nlen, pos) ← bits data 16 pos
        if len ^^^ nlen ≠ 0xFFFF then .fail .badStoredLength
        else if out.length + len > limit then .fail .tooLarge
        else
          let start := pos / 8
          if start + len ≤ data.length then
            return (out ++ (data.drop start).take len, pos + len * 8)
          else .fail .truncated) fun r => pos ≤ r.2 ∧ Within data limit r.1 r.2 := by
  have whole := within.inside
  have paid := within.paid
  unfold Watched.inflateStored
  refine .watch (add_eq_ok (by omega)) ?_
  refine (bits_mirrors (by decide) small (by omega)).bind ?_
  rintro ⟨len, pos₁⟩ ⟨fits₁, moved₁, inside₁⟩
  dsimp only at fits₁ moved₁ inside₁ ⊢
  refine (bits_mirrors (by decide) small inside₁).bind ?_
  rintro ⟨nlen, pos₂⟩ ⟨fits₂, moved₂, inside₂⟩
  dsimp only at fits₂ moved₂ inside₂ ⊢
  split
  · exact .fail _
  · refine .watch (add_eq_ok (by omega)) ?_
    split
    · exact .fail _
    · rename_i room
      refine .watch (add_eq_ok (by omega)) ?_
      split
      · rename_i there
        refine .watch (mul_eq_ok (by omega)) (.watch (add_eq_ok (by omega)) ?_)
        have length : ((data.drop (pos₂ / 8)).take len).length = len := by
          simp
          omega
        rw [if_pos (by omega)]
        refine .pure ⟨by dsimp only; omega, ⟨by dsimp only; omega, ?_, ?_⟩⟩
        · rw [List.length_append, length]
          omega
        · dsimp only
          rw [List.length_append, length]
          omega
      · exact .fail _

theorem fixed_mirrors :
    Mirrors .error (liftM (Watched.expectHuffman fixedLiteralLengths) : Fallible Halt Huffman)
      (liftM (expectHuffman fixedLiteralLengths) : Fallible InflateError Huffman) Huffman.Table ∧
    Mirrors .error (liftM (Watched.expectHuffman (List.replicate 30 5)) : Fallible Halt Huffman)
      (liftM (expectHuffman (List.replicate 30 5)) : Fallible InflateError Huffman)
      Huffman.Table := by
  have few : Deflate.fixedLit.length < 2 ^ 16 := by
    rw [length_fixedLit]
    decide
  have lit := expectHuffman_mirrors fixedLit_suited few
  have lengths : fixedLiteralLengths = Deflate.fixedLit := rfl
  constructor
  · rw [lengths]
    exact lit
  · exact expectHuffman_mirrors fixedDist_suited (by simp)

theorem inflateBlocks_mirrors (small : data.length < 2 ^ 50) {fuel budget : Nat}
    (within : Within data limit out pos) (enough : 8 * data.length < pos + fuel)
    (passes : 8 * data.length < pos + budget) :
    Mirrors .error (Watched.inflateBlocks data limit fuel out pos)
      (inflateBlocks data limit budget out pos) fun r =>
        (r.1.length ≤ limit ∧ r.1.length ≤ 4096 * data.length) ∧ r.2 ≤ data.length := by
  induction fuel generalizing budget out pos with
  | zero => have := within.inside; omega
  | succ fuel ih =>
    cases budget with
    | zero => have := within.inside; omega
    | succ budget =>
      rw [Watched.inflateBlocks, inflateBlocks]
      obtain ⟨litTable, distTable⟩ := fixed_mirrors
      generalize fixedLiteralLengths = fixedLit, List.replicate 30 5 = fixedDist at litTable distTable ⊢
      refine (bits_mirrors (by decide) small within.inside).bind ?_
      rintro ⟨bfinal, pos₁⟩ ⟨fits₁, moved₁, inside₁⟩
      dsimp only at fits₁ moved₁ inside₁ ⊢
      refine (bits_mirrors (by decide) small inside₁).bind ?_
      rintro ⟨btype, pos₂⟩ ⟨fits₂, moved₂, inside₂⟩
      dsimp only at fits₂ moved₂ inside₂ ⊢
      have within₂ := within.read (show pos ≤ pos₂ by omega) inside₂
      refine Mirrors.bind (p := fun r : Bytes × Nat => pos₂ ≤ r.2 ∧ Within data limit r.1 r.2) ?_ ?_
      · split
        · exact inflateStored_mirrors small within₂
        · split
          · refine litTable.bind fun lit litTable => distTable.bind fun dist distTable => ?_
            refine (inflateCompressed_mirrors litTable distTable small within₂ (by omega)
              (by omega)).mono ?_
            exact fun r read => ⟨by omega, read.2⟩
          · split
            · refine (dynamicTables_mirrors small inside₂ (by omega)).bind ?_
              rintro ⟨lit, dist, pos₃⟩ ⟨litTable, distTable, moved₃, inside₃⟩
              dsimp only at litTable distTable moved₃ inside₃ ⊢
              refine (inflateCompressed_mirrors litTable distTable small
                (within₂.read moved₃ inside₃) (by omega) (by omega)).mono ?_
              exact fun r read => ⟨moved₃.trans read.1, read.2⟩
            · exact .fail _
      · rintro ⟨out', pos'⟩ ⟨later, within'⟩
        dsimp only at later within' ⊢
        have inside' := within'.inside
        have paid' := within'.paid
        split
        · exact .pure ⟨⟨within'.fits, by dsimp only; omega⟩, by dsimp only; omega⟩
        · exact ih within' (by omega) (by omega)

/-! ### The whole stream -/

theorem watched_adler32 (data : Bytes) : Watched.adler32 data = .ok (adler data) := by
  have high := Nat.mod_lt (adlerSums data).2 (show 0 < ADLER_MOD by decide)
  have low := Nat.mod_lt (adlerSums data).1 (show 0 < ADLER_MOD by decide)
  have shifted := shl_eq_ok (show 16 < 32 by decide)
    (show (adlerSums data).2 % ADLER_MOD * 2 ^ 16 < 2 ^ 32 by unfold ADLER_MOD at high ⊢; omega)
  have sum := add_eq_ok (show (adlerSums data).2 % ADLER_MOD * 2 ^ 16 +
    (adlerSums data).1 % ADLER_MOD < 2 ^ 32 by unfold ADLER_MOD at low high ⊢; omega)
  unfold Watched.adler32
  rw [forEach_chunks]
  simp only [Bind.bind, Except.bind, shifted, sum]
  rfl

/-- The bytes after the compressed data are the checksum of what it stands for. -/
def Trailed (data : Bytes) (limit : Nat) (out : Bytes) : Prop :=
  ∃ used, inflate (data.drop 2) limit = .ok (out, used) ∧
    be32 (data.drop 2) used = some (adler out)

theorem zlibDecompress_mirrors (small : data.length < 2 ^ 50) {fuel : Nat}
    (enough : 8 * data.length < fuel) :
    Mirrors .error (Watched.zlibDecompress fuel data limit) (zlibDecompress data limit) fun out =>
      (out.length ≤ limit ∧ out.length ≤ 4096 * data.length) ∧ Trailed data limit out := by
  rcases data with _ | ⟨cmf, _ | ⟨flg, rest⟩⟩
  · exact .fail _
  · exact .fail _
  · simp only [List.length_cons] at small enough
    rw [Watched.zlibDecompress, zlibDecompress]
    dsimp only
    split
    · exact .fail _
    · have blocks : Mirrors .error (Watched.inflateBlocks rest limit fuel [] 0)
          (inflate rest limit) fun r =>
            (r.1.length ≤ limit ∧ r.1.length ≤ 4096 * rest.length) ∧ r.2 ≤ rest.length :=
        inflateBlocks_mirrors (by omega) (.start rest limit) (by omega) (by omega)
      rcases blocks.outcome with ⟨⟨out, used⟩, watched, plain, fits, inside⟩ | ⟨e, watched, plain⟩
      · dsimp only at fits inside
        rw [watched, plain, Fallible.ok_bind, Fallible.ok_bind]
        refine .watch (add_eq_ok (by omega)) ?_
        refine (Mirrors.ofOption fun want there => there).bind fun want there => ?_
        rw [watched_adler32, adler32_eq, Fallible.lift_ok_bind, Fallible.lift_ok_bind]
        split
        · exact .fail _
        · rename_i same
          refine .pure ⟨⟨fits.1, ?_⟩, used, plain, there.trans (congrArg some (not_not.mp same).symm)⟩
          simp only [List.length_cons]
          omega
      · rw [watched, plain]
        exact .fail _

/-- Whatever the bytes are, decompression ends, and under watch it is the same: an error, or
output within the limit that its checksum vouches for. -/
theorem zlibDecompress_robust (limit : Nat) (small : data.length < 2 ^ 50) {fuel : Nat}
    (enough : 8 * data.length < fuel) :
    (∃ e, Watched.zlibDecompress fuel data limit = .fail (.error e) ∧
      zlibDecompress data limit = .fail e) ∨
    ∃ out, Watched.zlibDecompress fuel data limit = .ok out ∧
      zlibDecompress data limit = .ok out ∧ out.length ≤ limit ∧ Trailed data limit out := by
  rcases (zlibDecompress_mirrors small enough).outcome with ⟨out, watched, plain, fits, vouched⟩ | failed
  · exact .inr ⟨out, watched, plain, fits.1, vouched⟩
  · exact .inl failed

/-- A stored block of two bytes. -/
theorem zlibDecompress_robust_stored :
    (∃ e, Watched.zlibDecompress 200 [0x78, 0x01, 0x01, 2, 0, 0xFD, 0xFF, 0x68, 0x69, 1, 0x3B, 0, 0xD2]
        9 = .fail (.error e) ∧
      zlibDecompress [0x78, 0x01, 0x01, 2, 0, 0xFD, 0xFF, 0x68, 0x69, 1, 0x3B, 0, 0xD2] 9 =
        .fail e) ∨
    ∃ out, Watched.zlibDecompress 200
        [0x78, 0x01, 0x01, 2, 0, 0xFD, 0xFF, 0x68, 0x69, 1, 0x3B, 0, 0xD2] 9 = .ok out ∧
      zlibDecompress [0x78, 0x01, 0x01, 2, 0, 0xFD, 0xFF, 0x68, 0x69, 1, 0x3B, 0, 0xD2] 9 =
        .ok out ∧ out.length ≤ 9 ∧
      Trailed [0x78, 0x01, 0x01, 2, 0, 0xFD, 0xFF, 0x68, 0x69, 1, 0x3B, 0, 0xD2] 9 out :=
  zlibDecompress_robust 9 (by decide) (by decide)

end Posh.Term.Inflate
