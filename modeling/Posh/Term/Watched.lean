import Posh.Lib.Mirror
import Posh.Term.Inflate

/-!
Decompression under watch.

The decoder of `inflate.rs` once more, with what the other definition of it leaves to
numbers without bound: sums, products and shifts are checked against the width they have
in the source, the output may not exceed its limit when a byte is pushed, a reference may
not reach before its start, and the loops have `fuel` that is not theirs.
-/

namespace Posh.Term.Inflate

open Posh.Lib

/-- How a watched run ends without a value. -/
inductive Halt where
  | error (e : InflateError)
  /-- A loop has used up its fuel. -/
  | unfinished
  /-- A byte is pushed to a full output. -/
  | overrun
  /-- A byte is looked up before the start of the output. -/
  | beforeStart
deriving DecidableEq, Repr

namespace Watched

/-- `left` code words of the current length remain, in an `i32` that is not negative. -/
def checkCounts : (left : Nat) → List Nat → Fallible Halt Unit
  | _, [] => return ()
  | left, count :: rest => do
      let left ← liftM (shl 31 left 1)
      if left < count then .fail (.error .badHuffman) else checkCounts (left - count) rest

def Huffman.new (lengths : List Nat) : Fallible Halt Huffman := do
  let counts ← (countLengths lengths).renamed .error
  let counts ← liftM (setAt counts 0 0)
  checkCounts 1 (counts.drop 1)
  let offsets ← liftM (symbolOffsets counts)
  let symbols ← liftM
    (sortSymbols lengths 0 offsets (List.replicate (lengths.filter (· ≠ 0)).length 0))
  return { counts, symbols }

def expectHuffman (lengths : List Nat) : Checked Huffman :=
  match Huffman.new lengths with
  | .ok h => .ok h
  | .fail _ => .error .missing
  | .panic p => .error p

def bits (data : Bytes) (n : Nat) (pos : Nat) : Fallible Halt (Nat × Nat) :=
  Fallible.forEach (List.range n) (0, pos) fun i (out, pos) => do
    let byte ← Fallible.ofOption (.error .truncated) data[pos / 8]?
    let bit ← liftM (shl 32 (byte.toNat / 2 ^ (pos % 8) % 2) i)
    let out ← liftM (add 32 out bit)
    let pos ← liftM (add 64 pos 1)
    return (out, pos)

def decodeLoop (data : Bytes) (h : Huffman) :
    (budget len code first index pos : Nat) → Fallible Halt (Nat × Nat)
  | 0, _, _, _, _, _ => .fail (.error .badSymbol)
  | budget + 1, len, code, first, index, pos => do
      let (bit, pos) ← bits data 1 pos
      let code ← liftM (add 64 code bit)
      let count ← liftM (getAt h.counts len)
      let next ← liftM (add 64 first count)
      if code < next then
        let at_ ← liftM (add 64 index code)
        let at_ ← liftM (sub at_ first)
        let sym ← liftM (getAt h.symbols at_)
        return (sym, pos)
      else
        let index ← liftM (add 64 index count)
        let first ← liftM (shl 64 next 1)
        let code ← liftM (shl 64 code 1)
        decodeLoop data h budget (len + 1) code first index pos

def decode (data : Bytes) (h : Huffman) (pos : Nat) : Fallible Halt (Nat × Nat) :=
  decodeLoop data h 15 1 0 0 0 pos

def repeatLength (prev n : Nat) (state : List Nat × Nat) : Fallible Halt (List Nat × Nat) :=
  Fallible.forEach (List.range n) state fun _ (lengths, i) =>
    if i < lengths.length then do
      let next ← liftM (add 64 i 1)
      return (lengths.set i prev, next)
    else .fail (.error .badHuffman)

/-- `i += base + r.bits(n)? as usize` -/
def skipLengths (data : Bytes) (base n i pos : Nat) : Fallible Halt (Nat × Nat) := do
  let (extra, pos) ← bits data n pos
  let run ← liftM (add 64 base extra)
  let i ← liftM (add 64 i run)
  return (i, pos)

def readLengths (data : Bytes) (clen : Huffman) :
    (fuel : Nat) → (lengths : List Nat) → (i pos : Nat) → Fallible Halt (List Nat × Nat)
  | 0, _, _, _ => .fail .unfinished
  | fuel + 1, lengths, i, pos =>
      if i ≥ lengths.length then return (lengths, pos)
      else do
        let (sym, pos) ← decode data clen pos
        let (lengths, i, pos) ←
          (if sym ≤ 15 then do
            let lengths ← liftM (setAt lengths i sym)
            let i ← liftM (add 64 i 1)
            return (lengths, i, pos)
          else if sym = 16 then do
            if i = 0 then .fail (.error .badHuffman)
            else
              let last ← liftM (sub i 1)
              let prev ← liftM (getAt lengths last)
              let (extra, pos) ← bits data 2 pos
              let run ← liftM (add 32 3 extra)
              let (lengths, i) ← repeatLength prev run (lengths, i)
              return (lengths, i, pos)
          else if sym = 17 then do
            let (i, pos) ← skipLengths data 3 3 i pos
            return (lengths, i, pos)
          else if sym = 18 then do
            let (i, pos) ← skipLengths data 11 7 i pos
            return (lengths, i, pos)
          else .fail (.error .badHuffman) : Fallible Halt (List Nat × Nat × Nat))
        if i > lengths.length then .fail (.error .badHuffman)
        else readLengths data clen fuel lengths i pos

def dynamicTables (data : Bytes) (fuel pos : Nat) : Fallible Halt (Huffman × Huffman × Nat) := do
  let (hlit, pos) ← bits data 5 pos
  let hlit ← liftM (add 64 hlit 257)
  let (hdist, pos) ← bits data 5 pos
  let hdist ← liftM (add 64 hdist 1)
  let (hclen, pos) ← bits data 4 pos
  let hclen ← liftM (add 64 hclen 4)
  let (clenLengths, pos) ←
    Fallible.forEach (CLEN_ORDER.take hclen) (List.replicate 19 0, pos)
      fun slot (clenLengths, pos) => do
        let (len, pos) ← bits data 3 pos
        let clenLengths ← liftM (setAt clenLengths slot len)
        return (clenLengths, pos)
  let clen ← Huffman.new clenLengths
  let total ← liftM (add 64 hlit hdist)
  let (lengths, pos) ← readLengths data clen fuel (List.replicate total 0) 0 pos
  let endOfBlock ← liftM (getAt lengths 256)
  if endOfBlock = 0 then .fail (.error .badHuffman)
  else
    let litLengths ← liftM (slice lengths 0 hlit)
    let distLengths ← liftM (slice lengths hlit lengths.length)
    let lit ← Huffman.new litLengths
    let dist ← Huffman.new distLengths
    return (lit, dist, pos)

/-- `out.push(b)` -/
def push (limit : Nat) (b : UInt8) (out : Bytes) : Fallible Halt Bytes :=
  if out.length < limit then .ok (out ++ [b]) else .fail .overrun

/-- `out[out.len() - d]` -/
def lookBack (d : Nat) (out : Bytes) : Fallible Halt UInt8 :=
  if d ≤ out.length then liftM (getAt out (out.length - d)) else .fail .beforeStart

def copyBack (limit len d : Nat) (out : Bytes) : Fallible Halt Bytes :=
  Fallible.forEach (List.range len) out fun _ out => do
    let b ← lookBack d out
    push limit b out

def inflateCompressed (data : Bytes) (limit : Nat) (lit dist : Huffman) :
    (fuel : Nat) → (out : Bytes) → (pos : Nat) → Fallible Halt (Bytes × Nat)
  | 0, _, _ => .fail .unfinished
  | fuel + 1, out, pos => do
      let (sym, pos) ← decode data lit pos
      if sym ≤ 255 then
        if out.length ≥ limit then .fail (.error .tooLarge)
        else
          let out ← push limit (UInt8.ofNat sym) out
          inflateCompressed data limit lit dist fuel out pos
      else if sym = 256 then return (out, pos)
      else if sym ≤ 285 then
        let idx ← liftM (sub sym 257)
        let lenBase ← liftM (getAt LENGTH_BASE idx)
        let lenExtra ← liftM (getAt LENGTH_EXTRA idx)
        let (extra, pos) ← bits data lenExtra pos
        let len ← liftM (add 64 lenBase extra)
        let (dsym, pos) ← decode data dist pos
        if dsym ≥ 30 then .fail (.error .badSymbol)
        else
          let distBase ← liftM (getAt DIST_BASE dsym)
          let distExtra ← liftM (getAt DIST_EXTRA dsym)
          let (extra, pos) ← bits data distExtra pos
          let d ← liftM (add 64 distBase extra)
          if d > out.length then .fail (.error .badDistance)
          else
            let total ← liftM (add 64 out.length len)
            if total > limit then .fail (.error .tooLarge)
            else
              let out ← copyBack limit len d out
              inflateCompressed data limit lit dist fuel out pos
      else .fail (.error .badSymbol)

/-- A stored block: byte-align, then LEN and its one's complement. -/
def inflateStored (data : Bytes) (limit : Nat) (out : Bytes) (pos : Nat) :
    Fallible Halt (Bytes × Nat) := do
  let aligned ← liftM (add 64 pos 7)
  let (len, pos) ← bits data 16 (aligned / 8 * 8)
  let (nlen, pos) ← bits data 16 pos
  if len ^^^ nlen ≠ 0xFFFF then .fail (.error .badStoredLength)
  else
    let total ← liftM (add 64 out.length len)
    if total > limit then .fail (.error .tooLarge)
    else
      let start := pos / 8
      let stop ← liftM (add 64 start len)
      if stop ≤ data.length then
        let skipped ← liftM (mul 64 len 8)
        let pos ← liftM (add 64 pos skipped)
        if out.length + len ≤ limit then return (out ++ (data.drop start).take len, pos)
        else .fail .overrun
      else .fail (.error .truncated)

def inflateBlocks (data : Bytes) (limit : Nat) :
    (fuel : Nat) → (out : Bytes) → (pos : Nat) → Fallible Halt (Bytes × Nat)
  | 0, _, _ => .fail .unfinished
  | fuel + 1, out, pos => do
      let (bfinal, pos) ← bits data 1 pos
      let (btype, pos) ← bits data 2 pos
      let (out, pos) ←
        (if btype = 0 then inflateStored data limit out pos
        else if btype = 1 then do
          let lit ← liftM (expectHuffman fixedLiteralLengths)
          let dist ← liftM (expectHuffman (List.replicate 30 5))
          inflateCompressed data limit lit dist (fuel + 1) out pos
        else if btype = 2 then do
          let (lit, dist, pos) ← dynamicTables data (fuel + 1) pos
          inflateCompressed data limit lit dist (fuel + 1) out pos
        else .fail (.error .badBlockType) : Fallible Halt (Bytes × Nat))
      if bfinal = 1 then return (out, (pos + 7) / 8) else inflateBlocks data limit fuel out pos

def adler32 (data : Bytes) : Checked Nat := do
  let (a, b) ← forEach (chunks 5552 data) (1, 0) adlerChunk
  let high ← shl 32 b 16
  add 32 high a

/-- `zlib_decompress`, with `fuel` passes for every loop that has no bound of its own. -/
def zlibDecompress (fuel : Nat) (data : Bytes) (limit : Nat) : Fallible Halt Bytes :=
  match data with
  | cmf :: flg :: rest => do
      let header := cmf.toNat * 256 + flg.toNat
      if cmf.toNat % 16 ≠ 8 ∨ header % 31 ≠ 0 ∨ flg.toNat / 32 % 2 ≠ 0 then
        .fail (.error .badHeader)
      else
        let (out, used) ← inflateBlocks rest limit fuel [] 0
        let _ ← liftM (add 64 used 4)
        let want ← Fallible.ofOption (.error .truncated) (be32 rest used)
        let sum ← liftM (adler32 out)
        if sum ≠ want then .fail (.error .badChecksum) else return out
  | _ => .fail (.error .truncated)

end Watched

end Posh.Term.Inflate
