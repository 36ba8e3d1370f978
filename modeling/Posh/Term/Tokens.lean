import Posh.Term.CodeTables

/-!
The tokens of a compressed block.

The decoder's tables hold the ranges of lengths and distances, a copy that runs into itself
repeats what it copies, and the tokens of a block are decoded one after the other up to the
end-of-block symbol.
-/

namespace Posh.Term.Inflate

open Posh.Lib Posh.Lib.CanonicalCode Posh.Term.Deflate

variable {data out : Bytes} {pos : Nat} {s : List Bool}

/-! ### Ranges -/

theorem length_tables : ∀ i < 29,
    LENGTH_BASE[i]? = some (lengthBase i) ∧ LENGTH_EXTRA[i]? = some (lengthExtra i) := by
  decide

theorem dist_tables : ∀ i < 30,
    DIST_BASE[i]? = some (distBase i) ∧ DIST_EXTRA[i]? = some (distExtra i) := by
  decide

/-- A length is in the range of its code. -/
theorem lengthCode_spec {len : Nat} (ok : 3 ≤ len ∧ len ≤ 258) :
    lengthCode len < 29 ∧ lengthBase (lengthCode len) ≤ len ∧
      len - lengthBase (lengthCode len) < 2 ^ lengthExtra (lengthCode len) := by
  have last : lengthCode len ≤ 28 := Nat.findGreatest_le 28
  have base : lengthBase (lengthCode len) ≤ len :=
    Nat.findGreatest_spec (P := (lengthBase · ≤ len)) (Nat.zero_le 28) ok.1
  have contiguous : ∀ i < 28, lengthBase (i + 1) ≤ lengthBase i + 2 ^ lengthExtra i := by decide
  refine ⟨Nat.lt_succ_of_le last, base, ?_⟩
  rcases Nat.lt_or_eq_of_le last with earlier | eq
  · have above : ¬ lengthBase (lengthCode len + 1) ≤ len :=
      Nat.findGreatest_is_greatest (P := (lengthBase · ≤ len)) (Nat.lt_succ_self _) earlier
    have := contiguous _ earlier
    omega
  · have longest : lengthBase 28 = 258 := rfl
    have none : lengthExtra 28 = 0 := rfl
    rw [eq, longest, none]
    omega

theorem distBase_succ (i : Nat) : distBase (i + 1) = distBase i + 2 ^ distExtra i := by
  unfold distBase
  rw [List.range_succ, List.map_append, List.sum_append, List.map_singleton, List.sum_singleton,
    Nat.add_assoc]

theorem distCode_spec {dist : Nat} (ok : 1 ≤ dist ∧ dist ≤ 32768) :
    distCode dist < 30 ∧ distBase (distCode dist) ≤ dist ∧
      dist - distBase (distCode dist) < 2 ^ distExtra (distCode dist) := by
  have last : distCode dist ≤ 29 := Nat.findGreatest_le 29
  have base : distBase (distCode dist) ≤ dist :=
    Nat.findGreatest_spec (P := (distBase · ≤ dist)) (Nat.zero_le 29) ok.1
  refine ⟨Nat.lt_succ_of_le last, base, ?_⟩
  have next := distBase_succ (distCode dist)
  rcases Nat.lt_or_eq_of_le last with earlier | eq
  · have above : ¬ distBase (distCode dist + 1) ≤ dist :=
      Nat.findGreatest_is_greatest (P := (distBase · ≤ dist)) (Nat.lt_succ_self _) earlier
    omega
  · have farthest : distBase (29 + 1) = 32769 := by decide
    rw [eq] at next base ⊢
    omega

/-! ### Copies -/

theorem copyBack_succ (len d : Nat) (out : Bytes) :
    copyBack (len + 1) d out = copyBack len d out >>= fun out => do
      let at_ ← sub out.length d
      let b ← getAt out at_
      return out ++ [b] :=
  forRange_succ len out _

/-- A copy that is longer than its distance repeats. -/
theorem copyBack_eq {d : Nat} (some_ : 1 ≤ d) (reaches : d ≤ out.length) (len : Nat) :
    copyBack len d out =
      .ok (out ++ (List.range len).map fun i => out.getD (out.length - d + i % d) 0) := by
  induction len with
  | zero => simp [copyBack, forRange, forEach]
  | succ len ih =>
    have source : (out ++ (List.range len).map fun i =>
        out.getD (out.length - d + i % d) 0)[out.length + len - d]? =
          some (out.getD (out.length - d + len % d) 0) := by
      by_cases before : len < d
      · have inside : out.length + len - d < out.length := by omega
        rw [List.getElem?_append_left inside, Nat.mod_eq_of_lt before,
          show out.length - d + len = out.length + len - d by omega, List.getD_eq_getElem?_getD,
          List.getElem?_eq_getElem inside, Option.getD_some]
      · have far : out.length + len - d = out.length + (len - d) := by omega
        have again : len % d = (len - d) % d := Nat.mod_eq_sub_mod (Nat.not_lt.mp before)
        rw [far, List.getElem?_append_right (Nat.le_add_right _ _), Nat.add_sub_cancel_left,
          List.getElem?_map, List.getElem?_range (by omega), Option.map_some, again]
    have length : (out ++ (List.range len).map fun i =>
        out.getD (out.length - d + i % d) 0).length = out.length + len := by simp
    rw [copyBack_succ, ih]
    change (sub _ d >>= _) = _
    rw [length, sub_eq_ok (by omega)]
    obtain ⟨_, read, rfl⟩ := getAt_yields source
    change (getAt _ _ >>= _) = _
    rw [read, List.range_succ, List.map_append, ← List.append_assoc]
    rfl

/-! ### Blocks -/

theorem length_denote_le (t : Token) (out : Bytes) : out.length ≤ (t.denote out).length := by
  cases t <;> simp [Token.denote]

theorem length_foldl_denote_le (tokens : List Token) (out : Bytes) :
    out.length ≤ (tokens.foldl Token.denote out).length := by
  induction tokens generalizing out with
  | nil => exact Nat.le_refl _
  | cons t rest ih => exact (length_denote_le t out).trans (ih _)

section Tokens

variable {litLengths distLengths : List Nat} {lit dist : Huffman} {limit : Nat}

theorem inflateCompressed_literal (litTable : lit.Of litLengths)
    (litSuited : Suited 15 litLengths) {b : UInt8} (coded : width litLengths b.toNat ≠ 0)
    (fits : (out ++ [b]).length ≤ limit) {budget : Nat}
    (ahead : Ahead data pos (word litLengths b.toNat ++ s)) :
    inflateCompressed data limit lit dist (budget + 1) out pos =
      inflateCompressed data limit lit dist budget (out ++ [b])
        (pos + (word litLengths b.toNat).length) := by
  obtain ⟨_, read, rfl, -⟩ := decode_word litTable litSuited coded ahead
  rw [inflateCompressed, read, Fallible.ok_bind]
  dsimp only
  have byte : b.toNat ≤ 255 := Nat.le_of_lt_succ b.toNat_lt
  rw [List.length_append, List.length_singleton] at fits
  rw [if_pos byte, if_neg (by omega), UInt8.ofNat_toNat, word, length_highBits]

theorem inflateCompressed_end (litTable : lit.Of litLengths)
    (litSuited : Suited 15 litLengths) (coded : width litLengths 256 ≠ 0) {budget : Nat}
    (ahead : Ahead data pos (word litLengths 256 ++ s)) :
    inflateCompressed data limit lit dist (budget + 1) out pos =
      .ok (out, pos + (word litLengths 256).length) := by
  obtain ⟨_, read, rfl, -⟩ := decode_word litTable litSuited coded ahead
  rw [inflateCompressed, read, Fallible.ok_bind]
  dsimp only
  rw [if_neg (by decide), if_pos rfl, word, length_highBits]
  rfl

theorem inflateCompressed_copy (litTable : lit.Of litLengths) (distTable : dist.Of distLengths)
    (litSuited : Suited 15 litLengths) (distSuited : Suited 15 distLengths) {len d : Nat}
    {len_ok : 3 ≤ len ∧ len ≤ 258} {dist_ok : 1 ≤ d ∧ d ≤ 32768}
    (coded : (Token.copy len d len_ok dist_ok).Coded litLengths distLengths)
    (reaches : d ≤ out.length)
    (fits : ((Token.copy len d len_ok dist_ok).denote out).length ≤ limit) {budget : Nat}
    (ahead : Ahead data pos
      ((Token.copy len d len_ok dist_ok).encode litLengths distLengths ++ s)) :
    inflateCompressed data limit lit dist (budget + 1) out pos =
      inflateCompressed data limit lit dist budget ((Token.copy len d len_ok dist_ok).denote out)
        (pos + ((Token.copy len d len_ok dist_ok).encode litLengths distLengths).length) := by
  obtain ⟨lenCode, lenBase, lenExtra⟩ := lengthCode_spec len_ok
  obtain ⟨distCode_, distBase_, distExtra_⟩ := distCode_spec dist_ok
  obtain ⟨litCoded, distCoded⟩ := coded
  unfold Token.encode at ahead ⊢
  simp only [List.append_assoc] at ahead
  obtain ⟨_, sym, rfl, ahead⟩ := decode_word litTable litSuited litCoded ahead
  obtain ⟨_, extra, rfl, ahead⟩ := bits_lowBits lenExtra ahead
  obtain ⟨_, dsym, rfl, ahead⟩ := decode_word distTable distSuited distCoded ahead
  obtain ⟨_, extra', rfl, -⟩ := bits_lowBits distExtra_ ahead
  obtain ⟨_, base, rfl⟩ := getAt_yields (length_tables _ lenCode).1
  obtain ⟨_, more, rfl⟩ := getAt_yields (length_tables _ lenCode).2
  obtain ⟨_, base', rfl⟩ := getAt_yields (dist_tables _ distCode_).1
  obtain ⟨_, more', rfl⟩ := getAt_yields (dist_tables _ distCode_).2
  rw [Token.denote, List.length_append, List.length_map, List.length_range] at fits
  rw [inflateCompressed, sym, Fallible.ok_bind]
  dsimp only
  rw [if_neg (by omega), if_neg (by omega), if_pos (by omega), Nat.add_sub_cancel_left, base,
    Fallible.lift_ok_bind, more, Fallible.lift_ok_bind, extra, Fallible.ok_bind]
  dsimp only
  rw [dsym, Fallible.ok_bind]
  dsimp only
  rw [if_neg (by omega), base', Fallible.lift_ok_bind, more', Fallible.lift_ok_bind, extra',
    Fallible.ok_bind]
  dsimp only
  rw [Nat.add_sub_cancel' lenBase, Nat.add_sub_cancel' distBase_, if_neg (by omega),
    if_neg (by omega), copyBack_eq dist_ok.1 reaches, Fallible.lift_ok_bind, Token.denote]
  congr 1
  simp only [List.length_append, word, length_highBits, length_lowBits]
  omega

/-- The tokens of a block stand for what they denote. -/
theorem inflateCompressed_tokens (litTable : lit.Of litLengths) (distTable : dist.Of distLengths)
    (litSuited : Suited 15 litLengths) (distSuited : Suited 15 distLengths)
    (ended : width litLengths 256 ≠ 0) {tokens : List Token}
    (coded : ∀ t ∈ tokens, t.Coded litLengths distLengths) (reach : Reach out tokens)
    (fits : (tokens.foldl Token.denote out).length ≤ limit) {budget : Nat}
    (enough : tokens.length < budget)
    (ahead : Ahead data pos (encodeTokens litLengths distLengths tokens ++ s)) :
    Gives (inflateCompressed data limit lit dist budget out pos) fun r =>
      r = (tokens.foldl Token.denote out,
        pos + (encodeTokens litLengths distLengths tokens).length) ∧
      Ahead data (pos + (encodeTokens litLengths distLengths tokens).length) s := by
  refine ⟨_, ?_, rfl, ahead.advance⟩
  unfold encodeTokens at ahead ⊢
  induction tokens generalizing budget out pos with
  | nil =>
    obtain ⟨budget, rfl⟩ := Nat.exists_eq_add_of_lt enough
    exact inflateCompressed_end litTable litSuited ended ahead
  | cons t rest ih =>
    obtain ⟨budget, rfl⟩ := Nat.exists_eq_add_of_lt enough
    obtain ⟨first, others⟩ := List.forall_mem_cons.mp coded
    obtain ⟨reaches, later⟩ := reach
    have fits' := (length_foldl_denote_le rest _).trans fits
    rw [List.flatMap_cons, List.append_assoc, List.append_assoc] at ahead
    have step : inflateCompressed data limit lit dist ((t :: rest).length + budget + 1) out pos =
        inflateCompressed data limit lit dist ((t :: rest).length + budget) (t.denote out)
          (pos + (t.encode litLengths distLengths).length) := by
      cases t with
      | literal b => exact inflateCompressed_literal litTable litSuited first fits' ahead
      | copy len d len_ok dist_ok =>
        exact inflateCompressed_copy litTable distTable litSuited distSuited first reaches fits'
          ahead
    rw [step, ih others later fits (by rw [List.length_cons]; omega) (by
      rw [List.append_assoc]
      exact ahead.advance)]
    rw [List.foldl_cons, List.flatMap_cons, List.append_assoc, Nat.add_assoc,
      ← List.length_append]

end Tokens

end Posh.Term.Inflate
