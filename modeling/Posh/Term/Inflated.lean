import Posh.Term.CodeLengths
import Mathlib.Data.Nat.ModEq
import Mathlib.Tactic.Linarith

/-!
Whole compressed streams.

Each block is decoded to what it denotes, wherever it stands in the stream, and a stream in its
wrapping decompresses to the bytes it stands for.
-/

namespace Posh.Term.Inflate

open Posh.Lib Posh.Lib.CanonicalCode Posh.Term.Deflate

variable {data out : Bytes} {pos limit : Nat} {s : List Bool}

/-! ### Stored blocks -/

theorem xor_complement {n : Nat} (lt : n < 2 ^ 16) : n ^^^ (2 ^ 16 - 1 - n) = 0xFFFF := by
  apply Nat.eq_of_testBit_eq
  intro i
  have all : (0xFFFF : Nat) = 2 ^ 16 - 1 := rfl
  rw [Nat.testBit_xor, Nat.sub_sub, Nat.add_comm 1, Nat.testBit_two_pow_sub_succ lt, all,
    Nat.testBit_two_pow_sub_one]
  by_cases low : i < 16
  · simp [low]
  · have none : n.testBit i = false :=
      Nat.testBit_lt_two_pow (lt.trans_le (Nat.pow_le_pow_right (by decide) (Nat.not_lt.mp low)))
    simp [low, none]

/-- At a byte boundary the bytes are those that the bits spell. -/
theorem Ahead.bytes {k : Nat} {bytes : Bytes} (ahead : Ahead data (k * 8) (bitsOf bytes ++ s)) :
    (data.drop k).take bytes.length = bytes := by
  obtain ⟨rest, eq⟩ := append_of_bitsOf ((bitsOf_drop data k).symm.trans ahead)
  rw [eq, List.take_left]

/-- What is ahead is within the data. -/
theorem Ahead.inside (ahead : Ahead data pos s) (some_ : s ≠ []) :
    pos + s.length ≤ data.length * 8 := by
  have length := congrArg List.length (show (bitsOf data).drop pos = s from ahead)
  have more := List.length_pos_of_ne_nil some_
  rw [List.length_drop, length_bitsOf] at length
  omega

/-! ### Fixed codes -/

theorem length_fixedLit : fixedLit.length = 288 := by
  unfold fixedLit
  simp only [List.length_append, List.length_replicate]

theorem mem_fixedLit {l : Nat} (mem : l ∈ fixedLit) : 7 ≤ l ∧ l ≤ 9 := by
  unfold fixedLit at mem
  simp only [List.mem_append, List.mem_replicate] at mem
  omega

theorem fixedLit_suited : Suited 15 fixedLit := by
  refine ⟨fun l mem => (mem_fixedLit mem).2.trans (by decide), ?_⟩
  unfold kraft fixedLit
  simp only [List.map_append, List.map_replicate, List.sum_append, List.sum_replicate_nat]
  decide

theorem fixedDist_suited : Suited 15 (List.replicate 30 5) := by
  refine ⟨fun l mem => (List.eq_of_mem_replicate mem).trans_le (by decide), ?_⟩
  unfold kraft
  rw [List.map_replicate, List.sum_replicate_nat]
  decide

theorem fixedLit_coded (sym : Nat) (lt : sym < 288) : width fixedLit sym ≠ 0 := by
  have inside : sym < fixedLit.length := length_fixedLit ▸ lt
  unfold width
  rw [List.getElem?_eq_getElem inside, Option.getD_some]
  have long := (mem_fixedLit (List.getElem_mem inside)).1
  omega

/-- The two distance codes that stand for nothing are the last ones. -/
theorem fixedDist_word : ∀ sym < 30, word fixedDist sym = word (List.replicate 30 5) sym := by
  decide +kernel

theorem fixedDist_coded : ∀ sym < 30, width (List.replicate 30 5) sym ≠ 0 := by
  decide

theorem encode_fixed (t : Token) :
    t.encode fixedLit fixedDist = t.encode fixedLit (List.replicate 30 5) := by
  cases t with
  | literal b => rfl
  | copy len d len_ok dist_ok =>
    rw [Token.encode, Token.encode, fixedDist_word _ (distCode_spec dist_ok).1]

theorem encodeTokens_fixed (tokens : List Token) :
    encodeTokens fixedLit fixedDist tokens =
      encodeTokens fixedLit (List.replicate 30 5) tokens := by
  unfold encodeTokens
  rw [List.flatMap_congr fun t _ => encode_fixed t]

theorem coded_fixed (t : Token) : t.Coded fixedLit (List.replicate 30 5) := by
  cases t with
  | literal b => exact fixedLit_coded _ (b.toNat_lt.trans (by decide))
  | copy len d len_ok dist_ok =>
    obtain ⟨lenCode, -⟩ := lengthCode_spec len_ok
    exact ⟨fixedLit_coded _ (by omega), fixedDist_coded _ (distCode_spec dist_ok).1⟩

theorem expectHuffman_yields {lengths : List Nat} (suited : Suited 15 lengths)
    (few : lengths.length < 2 ^ 16) : Yields (expectHuffman lengths) (·.Of lengths) := by
  obtain ⟨h, built, table⟩ := Huffman.new_of suited few
  refine ⟨h, ?_, table⟩
  unfold expectHuffman
  rw [built]

/-! ### Blocks -/

/-- Each token takes a bit at least. -/
theorem length_tokens_le {lit dist : List Nat} {tokens : List Token}
    (coded : ∀ t ∈ tokens, t.Coded lit dist) :
    tokens.length ≤ (encodeTokens lit dist tokens).length := by
  unfold encodeTokens
  rw [List.length_append, List.length_flatMap]
  refine Nat.le_add_right_of_le ?_
  induction tokens with
  | nil => exact Nat.zero_le _
  | cons t rest ih =>
    obtain ⟨first, others⟩ := List.forall_mem_cons.mp coded
    have some_ : 1 ≤ (t.encode lit dist).length := by
      cases t with
      | literal b =>
        rw [Token.encode, word, length_highBits]
        exact Nat.one_le_iff_ne_zero.mpr first
      | copy len d len_ok dist_ok =>
        have here := Nat.one_le_iff_ne_zero.mpr first.1
        simp only [Token.encode, List.length_append, word, length_highBits]
        omega
    have later := ih others
    rw [List.map_cons, List.sum_cons, List.length_cons]
    omega

/-- The tokens of a block, with as many passes as there may be. -/
theorem compressed_gives {lit dist : List Nat} {litTable distTable : Huffman}
    (litOf : litTable.Of lit) (distOf : distTable.Of dist) (litSuited : Suited 15 lit)
    (distSuited : Suited 15 dist) (ended : width lit 256 ≠ 0) {tokens : List Token}
    (coded : ∀ t ∈ tokens, t.Coded lit dist) (reach : Reach out tokens)
    (room : (tokens.foldl Token.denote out).length ≤ limit)
    (ahead : Ahead data pos (encodeTokens lit dist tokens ++ s)) :
    inflateCompressed data limit litTable distTable (data.length * 8 + 1) out pos =
      .ok (tokens.foldl Token.denote out, pos + (encodeTokens lit dist tokens).length) := by
  have few := length_tokens_le coded
  have bound : (encodeTokens lit dist tokens).length ≤ data.length * 8 := by
    have length := congrArg List.length (show (bitsOf data).drop pos = _ from ahead)
    rw [List.length_drop, length_bitsOf, List.length_append] at length
    omega
  obtain ⟨_, read, rfl, -⟩ := inflateCompressed_tokens litOf distOf litSuited distSuited ended coded
    reach room (show tokens.length < data.length * 8 + 1 by omega) ahead
  exact read

theorem inflateBlocks_stored {padding : List Bool} {bytes : Bytes} {short : bytes.length < 2 ^ 16}
    (final : Bool) (fits : (Block.stored padding bytes short).Fits pos out)
    (room : ((Block.stored padding bytes short).denote out).length ≤ limit) {budget : Nat}
    (ahead : Ahead data pos (final :: ((Block.stored padding bytes short).body ++ s))) :
    inflateBlocks data limit (budget + 1) out pos =
      if final then .ok ((Block.stored padding bytes short).denote out,
        (pos + 1 + (Block.stored padding bytes short).body.length + 7) / 8)
      else inflateBlocks data limit budget ((Block.stored padding bytes short).denote out)
        (pos + 1 + (Block.stored padding bytes short).body.length) := by
  obtain ⟨few, aligned⟩ := fits
  obtain ⟨_, marked, rfl, ahead⟩ := bits_one ahead
  rw [Block.denote, List.length_append] at room
  rw [Block.body] at ahead
  rw [Block.denote, Block.body]
  simp only [List.append_assoc] at ahead
  obtain ⟨_, kind, rfl, ahead⟩ := bits_lowBits (show 0 < 2 ^ 2 by decide) ahead
  have boundary : (pos + 1 + 2 + 7) / 8 * 8 = pos + 1 + 2 + padding.length := by omega
  have ahead := ahead.advance
  obtain ⟨_, len, rfl, ahead⟩ := bits_lowBits short ahead
  have inside := ahead.inside fun none => by
    have length := congrArg List.length none
    simp at length
  simp only [List.length_append, length_lowBits, length_bitsOf] at inside
  obtain ⟨_, nlen, rfl, ahead⟩ :=
    bits_lowBits (show 2 ^ 16 - 1 - bytes.length < 2 ^ 16 by omega) ahead
  have start_ : pos + 1 + 2 + padding.length + 16 + 16 =
      (pos + 1 + 2 + padding.length + 16 + 16) / 8 * 8 := by omega
  rw [start_] at ahead
  have taken := ahead.bytes
  rw [inflateBlocks, marked, Fallible.ok_bind]
  dsimp only
  rw [kind, Fallible.ok_bind, if_pos rfl]
  dsimp only
  rw [boundary, len, Fallible.ok_bind]
  dsimp only
  rw [nlen, Fallible.ok_bind]
  dsimp only
  rw [xor_complement short, if_neg (not_not.mpr rfl), if_neg (Nat.not_lt.mpr room),
    if_pos (by omega), taken]
  have after : pos + 1 + 2 + padding.length + 16 + 16 + bytes.length * 8 =
      pos + 1 + (lowBits 2 0 ++ (padding ++ (lowBits 16 bytes.length ++
        (lowBits 16 (2 ^ 16 - 1 - bytes.length) ++ bitsOf bytes)))).length := by
    simp only [List.length_append, length_lowBits, length_bitsOf]
    omega
  simp only [List.append_assoc]
  rw [after]
  cases final <;> rfl

theorem inflateBlocks_fixed {tokens : List Token} (final : Bool) (reach : Reach out tokens)
    (room : (tokens.foldl Token.denote out).length ≤ limit) {budget : Nat}
    (ahead : Ahead data pos (final :: ((Block.fixed tokens).body ++ s))) :
    inflateBlocks data limit (budget + 1) out pos =
      if final then .ok (tokens.foldl Token.denote out,
        (pos + 1 + (Block.fixed tokens).body.length + 7) / 8)
      else inflateBlocks data limit budget (tokens.foldl Token.denote out)
        (pos + 1 + (Block.fixed tokens).body.length) := by
  obtain ⟨_, marked, rfl, ahead⟩ := bits_one ahead
  rw [Block.body, encodeTokens_fixed] at ahead ⊢
  rw [List.append_assoc] at ahead
  obtain ⟨_, kind, rfl, ahead⟩ := bits_lowBits (show 1 < 2 ^ 2 by decide) ahead
  obtain ⟨lit, builtLit, litOf⟩ := expectHuffman_yields fixedLit_suited
    (by rw [length_fixedLit]; decide)
  obtain ⟨dist, builtDist, distOf⟩ := expectHuffman_yields fixedDist_suited (by simp)
  have read := compressed_gives litOf distOf fixedLit_suited fixedDist_suited
    (fixedLit_coded 256 (by decide)) (fun t _ => coded_fixed t) reach room ahead
  have lengths : fixedLiteralLengths = fixedLit := rfl
  rw [inflateBlocks, marked, Fallible.ok_bind]
  dsimp only
  rw [kind, Fallible.ok_bind]
  dsimp only
  rw [if_neg (by decide), if_pos rfl, lengths, builtLit, Fallible.lift_ok_bind, builtDist,
    Fallible.lift_ok_bind, read, Fallible.ok_bind]
  have after : pos + 1 + 2 + (encodeTokens fixedLit (List.replicate 30 5) tokens).length =
      pos + 1 + (lowBits 2 1 ++ encodeTokens fixedLit (List.replicate 30 5) tokens).length := by
    rw [List.length_append, length_lowBits, Nat.add_assoc _ 2]
  rw [after]
  cases final <;> rfl

theorem inflateBlocks_dynamic {header : Header} {tokens : List Token} (final : Bool)
    (reach : Reach out tokens) (coded : ∀ t ∈ tokens, t.Coded header.lit header.dist)
    (room : (tokens.foldl Token.denote out).length ≤ limit) {budget : Nat}
    (ahead : Ahead data pos (final :: ((Block.dynamic header tokens).body ++ s))) :
    inflateBlocks data limit (budget + 1) out pos =
      if final then .ok (tokens.foldl Token.denote out,
        (pos + 1 + (Block.dynamic header tokens).body.length + 7) / 8)
      else inflateBlocks data limit budget (tokens.foldl Token.denote out)
        (pos + 1 + (Block.dynamic header tokens).body.length) := by
  obtain ⟨_, marked, rfl, ahead⟩ := bits_one ahead
  rw [Block.body] at ahead ⊢
  rw [List.append_assoc, List.append_assoc] at ahead
  obtain ⟨_, kind, rfl, ahead⟩ := bits_lowBits (show 2 < 2 ^ 2 by decide) ahead
  obtain ⟨⟨lit, dist, pos'⟩, tables, litOf, distOf, at_, ahead⟩ :=
    dynamicTables_header header ahead
  have read := compressed_gives litOf distOf header.lit_suited header.dist_suited
    header.end_coded coded reach room ahead
  rw [inflateBlocks, marked, Fallible.ok_bind]
  dsimp only
  rw [kind, Fallible.ok_bind]
  dsimp only
  rw [if_neg (by decide), if_neg (by decide), if_pos rfl, tables, Fallible.ok_bind]
  dsimp only at read at_ ⊢
  rw [read, Fallible.ok_bind, at_]
  have after : pos + 1 + 2 + header.encode.length +
        (encodeTokens header.lit header.dist tokens).length =
      pos + 1 + (lowBits 2 2 ++ header.encode ++
        encodeTokens header.lit header.dist tokens).length := by
    simp only [List.length_append, length_lowBits]
    omega
  rw [after]
  cases final <;> rfl

/-- A block is decoded to what it denotes. -/
theorem inflateBlocks_block (block : Block) (final : Bool) (fits : block.Fits pos out)
    (room : (block.denote out).length ≤ limit) {budget : Nat}
    (ahead : Ahead data pos (final :: (block.body ++ s))) :
    inflateBlocks data limit (budget + 1) out pos =
      if final then .ok (block.denote out, (pos + 1 + block.body.length + 7) / 8)
      else inflateBlocks data limit budget (block.denote out) (pos + 1 + block.body.length) := by
  cases block with
  | stored padding bytes short => exact inflateBlocks_stored final fits room ahead
  | fixed tokens => exact inflateBlocks_fixed final fits room ahead
  | dynamic header tokens => exact inflateBlocks_dynamic final fits.1 fits.2 room ahead

theorem length_blocks_le (blocks : List Block) :
    blocks.length ≤ (Deflate.encode blocks).length := by
  fun_induction Deflate.encode blocks with
  | case1 => exact Nat.zero_le _
  | case2 block => exact Nat.succ_le_succ (Nat.zero_le _)
  | case3 block rest more ih =>
    rw [List.length_append, List.length_cons, List.length_cons]
    omega

theorem length_foldl_block_le (blocks : List Block) (out : Bytes) :
    out.length ≤ (blocks.foldl Block.denote out).length := by
  induction blocks generalizing out with
  | nil => exact Nat.le_refl _
  | cons block rest ih =>
    refine Nat.le_trans ?_ (ih _)
    cases block with
    | stored padding data short => simp [Block.denote]
    | fixed tokens => exact length_foldl_denote_le tokens out
    | dynamic header tokens => exact length_foldl_denote_le tokens out

/-- The blocks of a stream are decoded up to the marked one. -/
theorem inflateBlocks_eq {blocks : List Block} (some_ : blocks ≠ []) (fit : FitAll pos out blocks)
    (room : (blocks.foldl Block.denote out).length ≤ limit) {budget : Nat}
    (enough : blocks.length ≤ budget) (ahead : Ahead data pos (Deflate.encode blocks ++ s)) :
    inflateBlocks data limit budget out pos = .ok (blocks.foldl Block.denote out,
      (pos + (Deflate.encode blocks).length + 7) / 8) := by
  fun_induction Deflate.encode blocks generalizing out pos budget with
  | case1 => exact absurd rfl some_
  | case2 block =>
    obtain ⟨budget, rfl⟩ := Nat.exists_eq_add_of_lt enough
    rw [inflateBlocks_block block true fit.1 room ahead, if_pos rfl, List.length_cons,
      List.foldl_cons, List.foldl_nil, Nat.add_assoc pos 1, Nat.add_comm 1]
  | case3 block rest more ih =>
    obtain ⟨budget, rfl⟩ := Nat.exists_eq_add_of_lt enough
    rw [List.append_assoc] at ahead
    have room' := (length_foldl_block_le rest (block.denote out)).trans room
    have later : Ahead data (pos + 1 + block.body.length) (Deflate.encode rest ++ s) := by
      have later := ahead.advance
      rwa [List.length_cons, Nat.add_comm block.body.length, ← Nat.add_assoc] at later
    rw [inflateBlocks_block block false fit.1 room' ahead, if_neg Bool.false_ne_true,
      ih more fit.2 room (Nat.le_add_right _ _) later, List.foldl_cons]
    congr 3
    rw [List.length_append, List.length_cons]
    omega

/-! ### The checksum -/

/-- The sums of a chunk fit, however large its bytes are. -/
theorem forEach_addByte {f : UInt8 → Nat × Nat → Checked (Nat × Nat)}
    (step : ∀ b s, f b s = do
      let a ← add 32 s.1 b.toNat
      let b ← add 32 s.2 a
      return (a, b))
    (chunk : Bytes) (sums : Nat × Nat)
    (room : 2 * sums.2 + 2 * chunk.length * sums.1 + 255 * chunk.length * (chunk.length + 1) <
      2 ^ 33) : forEach chunk sums f = .ok (chunk.foldl addByte sums) := by
  induction chunk generalizing sums with
  | nil => rfl
  | cons b rest ih =>
    rw [List.length_cons] at room
    have byte : b.toNat ≤ 255 := Nat.le_of_lt_succ b.toNat_lt
    have scaled := Nat.mul_le_mul_left (rest.length + 1) byte
    have first : sums.1 + b.toNat < 2 ^ 32 := by nlinarith
    have second : sums.2 + (sums.1 + b.toNat) < 2 ^ 32 := by nlinarith
    change (f b sums >>= _) = _
    rw [step, add_eq_ok first]
    change ((add 32 sums.2 (sums.1 + b.toNat) >>= _) >>= _) = _
    rw [add_eq_ok second]
    refine ih (addByte sums b) ?_
    unfold addByte
    dsimp only
    nlinarith

/-- Sums that agree modulo the base go on to do so. -/
theorem foldl_addByte_modEq (data : Bytes) {s t : Nat × Nat} (first : s.1 ≡ t.1 [MOD ADLER_MOD])
    (second : s.2 ≡ t.2 [MOD ADLER_MOD]) :
    (data.foldl addByte s).1 ≡ (data.foldl addByte t).1 [MOD ADLER_MOD] ∧
      (data.foldl addByte s).2 ≡ (data.foldl addByte t).2 [MOD ADLER_MOD] := by
  induction data generalizing s t with
  | nil => exact ⟨first, second⟩
  | cons b rest ih =>
    have sum := first.add_right b.toNat
    exact ih sum (second.add sum)

/-- A chunk of at most 5552 bytes. -/
theorem adlerChunk_eq {chunk : Bytes} (short : chunk.length ≤ 5552) {sums : Nat × Nat}
    (first : sums.1 < ADLER_MOD) (second : sums.2 < ADLER_MOD) :
    adlerChunk chunk sums = .ok ((chunk.foldl addByte sums).1 % ADLER_MOD,
      (chunk.foldl addByte sums).2 % ADLER_MOD) := by
  unfold ADLER_MOD at first second
  have room : 2 * sums.2 + 2 * chunk.length * sums.1 +
      255 * chunk.length * (chunk.length + 1) < 2 ^ 33 := by
    have some_ := Nat.mul_le_mul short (Nat.le_of_lt_succ first)
    have all := Nat.mul_le_mul short (Nat.succ_le_succ short)
    nlinarith
  unfold adlerChunk
  rw [forEach_addByte (fun b s => rfl) chunk sums room]
  rfl

theorem forEach_adlerChunk {chunks : List Bytes} (short : ∀ chunk ∈ chunks, chunk.length ≤ 5552)
    {sums t : Nat × Nat} (first : sums.1 = t.1 % ADLER_MOD) (second : sums.2 = t.2 % ADLER_MOD) :
    forEach chunks sums adlerChunk = .ok ((chunks.flatten.foldl addByte t).1 % ADLER_MOD,
      (chunks.flatten.foldl addByte t).2 % ADLER_MOD) := by
  induction chunks generalizing sums t with
  | nil =>
    rw [List.flatten_nil, List.foldl_nil, ← first, ← second]
    rfl
  | cons chunk rest ih =>
    obtain ⟨this, others⟩ := List.forall_mem_cons.mp short
    have positive : 0 < ADLER_MOD := by decide
    have small : sums.1 < ADLER_MOD ∧ sums.2 < ADLER_MOD :=
      ⟨first ▸ Nat.mod_lt _ positive, second ▸ Nat.mod_lt _ positive⟩
    have firstAgree : sums.1 ≡ t.1 [MOD ADLER_MOD] := by
      rw [first]
      exact Nat.mod_modEq _ _
    have secondAgree : sums.2 ≡ t.2 [MOD ADLER_MOD] := by
      rw [second]
      exact Nat.mod_modEq _ _
    have agree := foldl_addByte_modEq chunk firstAgree secondAgree
    change (adlerChunk chunk sums >>= _) = _
    rw [adlerChunk_eq this small.1 small.2, List.flatten_cons, List.foldl_append]
    exact ih others agree.1 agree.2

/-- The sums are reduced once a chunk, and that is soon enough. -/
theorem forEach_chunks (data : Bytes) : forEach (chunks 5552 data) (1, 0) adlerChunk =
    .ok ((adlerSums data).1 % ADLER_MOD, (adlerSums data).2 % ADLER_MOD) := by
  have short : ∀ chunk ∈ chunks 5552 data, chunk.length ≤ 5552 :=
    fun _ mem => length_le_of_mem_chunks mem
  rw [forEach_adlerChunk (t := (1, 0)) short rfl rfl, flatten_chunks (by decide)]
  rfl

theorem adler32_eq (data : Bytes) : adler32 data = .ok (adler data) := by
  unfold adler32
  rw [forEach_chunks]
  rfl

theorem adler_lt (data : Bytes) : adler data < 256 ^ 4 := by
  unfold adler
  have first := Nat.mod_lt (adlerSums data).1 (show 0 < 65521 by decide)
  have second := Nat.mod_lt (adlerSums data).2 (show 0 < 65521 by decide)
  omega

/-! ### Streams -/

/-- A stream decompresses to the bytes that it stands for, if they fit. -/
theorem zlibDecompress_encode (stream : Stream) {limit : Nat}
    (fits : stream.denote.length ≤ limit) :
    zlibDecompress stream.encode limit = .ok stream.denote := by
  obtain ⟨packed, eq⟩ : ∃ packed, packBits (Deflate.encode stream.blocks ++ stream.padding) = packed :=
    ⟨_, rfl⟩
  have bits := bitsOf_packBits stream.whole
  rw [eq] at bits
  have bytes := congrArg List.length bits
  rw [length_bitsOf, List.length_append] at bytes
  have short := stream.padding_short
  have ahead : Ahead (packed ++ beBytes 4 (adler stream.denote)) 0
      (Deflate.encode stream.blocks ++
        (stream.padding ++ bitsOf (beBytes 4 (adler stream.denote)))) := by
    unfold Ahead
    rw [List.drop_zero, bitsOf_append, bits, List.append_assoc]
  have blocks := length_blocks_le stream.blocks
  have enough : stream.blocks.length ≤
      (packed ++ beBytes 4 (adler stream.denote)).length * 8 + 1 := by
    rw [List.length_append]
    omega
  have read := inflateBlocks_eq stream.some_ stream.fit fits enough ahead
  have used : (0 + (Deflate.encode stream.blocks).length + 7) / 8 = packed.length := by omega
  rw [used] at read
  have trailer : be32 (packed ++ beBytes 4 (adler stream.denote)) packed.length =
      some (adler stream.denote) := by
    unfold be32
    rw [if_pos (by simp), List.drop_left, List.take_of_length_le (by simp), foldl_eq_ofBeBytes,
      ofBeBytes_beBytes_of_lt (adler_lt _)]
  have wrapped : stream.encode =
      stream.cmf :: stream.flg :: (packed ++ beBytes 4 (adler stream.denote)) := by
    unfold Stream.encode
    rw [eq]
    rfl
  have accepted : ¬ (stream.cmf.toNat % 16 ≠ 8 ∨
      (stream.cmf.toNat * 256 + stream.flg.toNat) % 31 ≠ 0 ∨ stream.flg.toNat / 32 % 2 ≠ 0) := by
    simp [stream.method, stream.check, stream.no_dictionary]
  rw [wrapped, zlibDecompress]
  dsimp only
  rw [if_neg accepted, inflate, read, Fallible.ok_bind]
  dsimp only
  rw [trailer, adler32_eq]
  exact if_neg (not_not.mpr rfl)

/-- Code lengths whose last run goes from the literals on into the distances. -/
def crossing : Header where
  lit := List.replicate 97 0 ++ [1] ++ List.replicate 158 0 ++ [2, 2]
  dist := [2, 2, 2, 2]
  clen := [0, 2, 2, 0, 0, 0, 0, 0, 0, 0, 0, 0, 0, 0, 0, 0, 2, 0, 2]
  hclen := 18
  runs := [.zeros 97 (by decide), .length 1 (by decide), .zeros 138 (by decide),
    .zeros 20 (by decide), .length 2 (by decide), .again 5 (by decide)]
  lit_length := by decide +kernel
  dist_length := by decide
  clen_length := rfl
  hclen_ok := by decide
  lit_suited := ⟨by decide +kernel, by decide +kernel⟩
  dist_suited := ⟨by decide, by decide⟩
  clen_suited := ⟨by decide, by decide⟩
  end_coded := by decide +kernel
  unsent := by decide
  runs_denote := by decide +kernel
  runs_first := by decide
  runs_coded := by decide +kernel

/-- A block of each kind; a reference goes back into the block before. -/
def mixed : Stream where
  cmf := 0x78
  flg := 0x01
  blocks := [.stored [false, false, false, false, false] [0x68, 0x69] (by decide),
    .fixed [.copy 5 2 (by decide) (by decide), .literal 0x21],
    .dynamic crossing [.literal 0x61, .copy 3 1 (by decide) (by decide)]]
  padding := [false]
  method := by decide
  window := by decide
  no_dictionary := by decide
  check := by decide
  some_ := List.cons_ne_nil _ _
  fit := by decide +kernel
  padding_short := by decide
  whole := by decide +kernel

/-- `hi`, five more bytes of it, `!`, and `a` four times, within twelve bytes. -/
theorem zlibDecompress_encode_mixed :
    mixed.encode = [0x78, 0x01, 0x00, 0x02, 0x00, 0xFD, 0xFF, 0x68, 0x69, 0x02, 0x43, 0x45, 0x40,
      0xC3, 0x70, 0x41, 0x00, 0x00, 0x00, 0x00, 0x20, 0x68, 0x2B, 0xFF, 0x4F, 0x98, 0x26, 0x1E,
      0x2E, 0x04, 0x81] ∧
    mixed.denote = [0x68, 0x69, 0x68, 0x69, 0x68, 0x69, 0x68, 0x21, 0x61, 0x61, 0x61, 0x61] ∧
    zlibDecompress mixed.encode 12 = .ok mixed.denote :=
  ⟨by decide +kernel, by decide +kernel, zlibDecompress_encode mixed (by decide +kernel)⟩

end Posh.Term.Inflate
