import Posh.Lib.CanonicalCode
import Mathlib.Data.Nat.Find

/-!
What a compressed stream says (RFC 1951, and RFC 1950 for the wrapping).

A stream is a list of blocks; each is stored, or made of literals and of references back into
what came before, coded with fixed or with transmitted code lengths. `encode` spells a stream
in bits and `denote` says which bytes it stands for. Nothing here is taken from the decoder:
the tables are described by how their entries follow one another.
-/

namespace Posh.Term.Deflate

open Posh.Lib Posh.Lib.CanonicalCode

/-! ### Lengths and distances -/

/-- Two length codes more share each further extra bit, four at a time; the last has none. -/
def lengthExtra (i : Nat) : Nat :=
  if i = 28 then 0 else i / 4 - 1

/-- The shortest length of each length code: one code goes on where the other ends, and the
last stands for the longest match alone. -/
def lengthBase (i : Nat) : Nat :=
  if i = 28 then 258 else 3 + ((List.range i).map fun j => 2 ^ lengthExtra j).sum

def distExtra (i : Nat) : Nat :=
  i / 2 - 1

def distBase (i : Nat) : Nat :=
  1 + ((List.range i).map fun j => 2 ^ distExtra j).sum

/-- The length code of a length, counted from 0. -/
def lengthCode (len : Nat) : Nat :=
  Nat.findGreatest (lengthBase · ≤ len) 28

def distCode (dist : Nat) : Nat :=
  Nat.findGreatest (distBase · ≤ dist) 29

/-! ### Literals and references -/

/-- A byte, or a copy of `len` bytes from `dist` back. -/
inductive Token where
  | literal (b : UInt8)
  | copy (len dist : Nat) (len_ok : 3 ≤ len ∧ len ≤ 258) (dist_ok : 1 ≤ dist ∧ dist ≤ 32768)

namespace Token

/-- What is decoded once the token has been; a copy that runs into itself repeats. -/
def denote (out : Bytes) : Token → Bytes
  | literal b => out ++ [b]
  | copy len dist _ _ =>
      out ++ (List.range len).map fun i => out.getD (out.length - dist + i % dist) 0

/-- The reference stays within what has been decoded. -/
def Reaches (out : Bytes) : Token → Prop
  | literal _ => True
  | copy _ dist _ _ => dist ≤ out.length

instance (out : Bytes) : (t : Token) → Decidable (t.Reaches out)
  | literal _ => inferInstanceAs (Decidable True)
  | copy _ dist _ _ => inferInstanceAs (Decidable (dist ≤ out.length))

/-- The symbols of the token have code words. -/
def Coded (lit dist : List Nat) : Token → Prop
  | literal b => width lit b.toNat ≠ 0
  | copy len d _ _ => width lit (257 + lengthCode len) ≠ 0 ∧ width dist (distCode d) ≠ 0

instance (lit dist : List Nat) : (t : Token) → Decidable (t.Coded lit dist)
  | literal b => inferInstanceAs (Decidable (width lit b.toNat ≠ 0))
  | copy len d _ _ => inferInstanceAs
      (Decidable (width lit (257 + lengthCode len) ≠ 0 ∧ width dist (distCode d) ≠ 0))

def encode (lit dist : List Nat) : Token → List Bool
  | literal b => word lit b.toNat
  | copy len d _ _ =>
      word lit (257 + lengthCode len) ++
        lowBits (lengthExtra (lengthCode len)) (len - lengthBase (lengthCode len)) ++
        word dist (distCode d) ++ lowBits (distExtra (distCode d)) (d - distBase (distCode d))

end Token

/-- All references stay within what has been decoded before them. -/
def Reach : (out : Bytes) → List Token → Prop
  | _, [] => True
  | out, t :: rest => t.Reaches out ∧ Reach (t.denote out) rest

instance decidableReach : (out : Bytes) → (tokens : List Token) → Decidable (Reach out tokens)
  | _, [] => inferInstanceAs (Decidable True)
  | out, t :: rest =>
      have := decidableReach (t.denote out) rest
      inferInstanceAs (Decidable (t.Reaches out ∧ Reach (t.denote out) rest))

/-- The tokens of a block, and the end of it. -/
def encodeTokens (lit dist : List Nat) (tokens : List Token) : List Bool :=
  tokens.flatMap (Token.encode lit dist) ++ word lit 256

/-! ### Code lengths -/

/-- Code lengths of at most `max` bits that do not exceed the code space. A complete code
takes all of it. -/
structure Suited (max : Nat) (lengths : List Nat) : Prop where
  bounded : ∀ l ∈ lengths, l ≤ max
  room : kraft lengths max ≤ 2 ^ max

theorem Suited.weaken {max max' : Nat} {lengths : List Nat} (h : Suited max lengths)
    (le : max ≤ max') : Suited max' lengths where
  bounded l mem := (h.bounded l mem).trans le
  room := by
    rw [kraft_of_bounded h.bounded le]
    calc kraft lengths max * 2 ^ (max' - max)
        ≤ 2 ^ max * 2 ^ (max' - max) := Nat.mul_le_mul_right _ h.room
      _ = 2 ^ max' := by rw [← pow_add, Nat.add_sub_cancel' le]

/-- The code lengths of the fixed codes. -/
def fixedLit : List Nat :=
  List.replicate 144 8 ++ List.replicate 112 9 ++ List.replicate 24 7 ++ List.replicate 8 8

def fixedDist : List Nat :=
  List.replicate 32 5

/-- One code length, the last one some times more, or a run of zeros. -/
inductive Run where
  | length (l : Nat) (ok : l ≤ 15)
  | again (n : Nat) (ok : 3 ≤ n ∧ n ≤ 6)
  | zeros (n : Nat) (ok : 3 ≤ n ∧ n ≤ 138)

namespace Run

def denote (before : List Nat) : Run → List Nat
  | length l _ => before ++ [l]
  | again n _ => before ++ List.replicate n (before.getLastD 0)
  | zeros n _ => before ++ List.replicate n 0

def sym : Run → Nat
  | length l _ => l
  | again _ _ => 16
  | zeros n _ => if n ≤ 10 then 17 else 18

def extra : Run → List Bool
  | length _ _ => []
  | again n _ => lowBits 2 (n - 3)
  | zeros n _ => if n ≤ 10 then lowBits 3 (n - 3) else lowBits 7 (n - 11)

def encode (clen : List Nat) (r : Run) : List Bool :=
  word clen r.sym ++ r.extra

end Run

/-- The order in which the lengths of the code length code are sent: the repetitions, no
length at all, and the others from the middle outwards. -/
def order : List Nat :=
  [16, 17, 18, 0, 8] ++ (List.range' 1 7).flatMap fun k => [8 - k, 8 + k]

/-- The code lengths of a block and how they are sent. -/
structure Header where
  lit : List Nat
  dist : List Nat
  /-- The code lengths of the code that `runs` are in. -/
  clen : List Nat
  /-- How many of `clen` are sent. -/
  hclen : Nat
  runs : List Run
  lit_length : 257 ≤ lit.length ∧ lit.length ≤ 286
  dist_length : 1 ≤ dist.length ∧ dist.length ≤ 32
  clen_length : clen.length = 19
  hclen_ok : 4 ≤ hclen ∧ hclen ≤ 19
  lit_suited : Suited 15 lit
  dist_suited : Suited 15 dist
  clen_suited : Suited 7 clen
  end_coded : width lit 256 ≠ 0
  unsent : ∀ sym ∈ order.drop hclen, width clen sym = 0
  runs_denote : runs.foldl Run.denote [] = lit ++ dist
  runs_first : ∀ r ∈ runs.head?, r.sym ≠ 16
  runs_coded : ∀ r ∈ runs, width clen r.sym ≠ 0

def Header.encode (h : Header) : List Bool :=
  lowBits 5 (h.lit.length - 257) ++ lowBits 5 (h.dist.length - 1) ++ lowBits 4 (h.hclen - 4) ++
    (order.take h.hclen).flatMap (fun sym => lowBits 3 (width h.clen sym)) ++
    h.runs.flatMap (Run.encode h.clen)

/-! ### Blocks -/

inductive Block where
  /-- The padding is what stands before the byte boundary. -/
  | stored (padding : List Bool) (data : Bytes) (short : data.length < 2 ^ 16)
  | fixed (tokens : List Token)
  | dynamic (header : Header) (tokens : List Token)

namespace Block

def denote (out : Bytes) : Block → Bytes
  | stored _ data _ => out ++ data
  | fixed tokens => tokens.foldl Token.denote out
  | dynamic _ tokens => tokens.foldl Token.denote out

/-- What comes behind the bit that marks the last block. -/
def body : Block → List Bool
  | stored padding data _ =>
      lowBits 2 0 ++ padding ++ lowBits 16 data.length ++ lowBits 16 (2 ^ 16 - 1 - data.length) ++
        bitsOf data
  | fixed tokens => lowBits 2 1 ++ encodeTokens fixedLit fixedDist tokens
  | dynamic header tokens =>
      lowBits 2 2 ++ header.encode ++ encodeTokens header.lit header.dist tokens

/-- The block may stand at the bit `pos`, behind what stands for `out`. -/
def Fits (pos : Nat) (out : Bytes) : Block → Prop
  | stored padding _ _ => padding.length < 8 ∧ 8 ∣ pos + 3 + padding.length
  | fixed tokens => Reach out tokens
  | dynamic header tokens =>
      Reach out tokens ∧ ∀ t ∈ tokens, t.Coded header.lit header.dist

instance (pos : Nat) (out : Bytes) : (block : Block) → Decidable (block.Fits pos out)
  | stored padding _ _ =>
      inferInstanceAs (Decidable (padding.length < 8 ∧ 8 ∣ pos + 3 + padding.length))
  | fixed tokens => inferInstanceAs (Decidable (Reach out tokens))
  | dynamic header tokens => inferInstanceAs
      (Decidable (Reach out tokens ∧ ∀ t ∈ tokens, t.Coded header.lit header.dist))

end Block

/-- A stream of blocks, the last of which is marked. -/
def encode : List Block → List Bool
  | [] => []
  | [block] => true :: block.body
  | block :: rest => false :: block.body ++ encode rest

def FitAll : (pos : Nat) → (out : Bytes) → List Block → Prop
  | _, _, [] => True
  | pos, out, block :: rest =>
      block.Fits pos out ∧ FitAll (pos + 1 + block.body.length) (block.denote out) rest

instance decidableFitAll :
    (pos : Nat) → (out : Bytes) → (blocks : List Block) → Decidable (FitAll pos out blocks)
  | _, _, [] => inferInstanceAs (Decidable True)
  | pos, out, block :: rest =>
      have := decidableFitAll (pos + 1 + block.body.length) (block.denote out) rest
      inferInstanceAs (Decidable (block.Fits pos out ∧
        FitAll (pos + 1 + block.body.length) (block.denote out) rest))

/-! ### The wrapping -/

/-- One more byte, in the sum of the bytes and in the sum of these sums. -/
def addByte (s : Nat × Nat) (b : UInt8) : Nat × Nat :=
  (s.1 + b.toNat, s.2 + (s.1 + b.toNat))

def adlerSums (data : Bytes) : Nat × Nat :=
  data.foldl addByte (1, 0)

def adler (data : Bytes) : Nat :=
  (adlerSums data).2 % 65521 * 65536 + (adlerSums data).1 % 65521

/-- A compressed stream with its header and checksum. -/
structure Stream where
  cmf : UInt8
  flg : UInt8
  blocks : List Block
  padding : List Bool
  method : cmf.toNat % 16 = 8
  window : cmf.toNat / 16 ≤ 7
  no_dictionary : flg.toNat / 32 % 2 = 0
  check : (cmf.toNat * 256 + flg.toNat) % 31 = 0
  some_ : blocks ≠ []
  fit : FitAll 0 [] blocks
  padding_short : padding.length < 8
  whole : 8 ∣ (Deflate.encode blocks ++ padding).length

namespace Stream

/-- The bytes that the stream stands for. -/
def denote (s : Stream) : Bytes :=
  s.blocks.foldl Block.denote []

def encode (s : Stream) : Bytes :=
  s.cmf :: s.flg :: packBits (Deflate.encode s.blocks ++ s.padding) ++ beBytes 4 (adler s.denote)

end Stream

end Posh.Term.Deflate
