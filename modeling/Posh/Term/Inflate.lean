import Posh.Lib.Bytes
import Posh.Lib.Fallible

/-!
DEFLATE and zlib decompression (`inflate.rs`).

A bit reader is its data and its bit position. The arithmetic on positions,
lengths and code words is on `usize` values bounded by the sizes of buffers; what
could leave a narrower type (the Adler sums) or index a table is checked.
-/

namespace Posh.Term

open Posh.Lib

inductive InflateError where
  | truncated
  | badHeader
  | badBlockType
  | badStoredLength
  | badHuffman
  | badSymbol
  | badDistance
  | badChecksum
  | tooLarge
deriving DecidableEq, Repr

namespace Inflate

def LENGTH_BASE : List Nat :=
  [3, 4, 5, 6, 7, 8, 9, 10, 11, 13, 15, 17, 19, 23, 27, 31, 35, 43, 51, 59, 67, 83, 99, 115, 131,
    163, 195, 227, 258]

def LENGTH_EXTRA : List Nat :=
  [0, 0, 0, 0, 0, 0, 0, 0, 1, 1, 1, 1, 2, 2, 2, 2, 3, 3, 3, 3, 4, 4, 4, 4, 5, 5, 5, 5, 0]

def DIST_BASE : List Nat :=
  [1, 2, 3, 4, 5, 7, 9, 13, 17, 25, 33, 49, 65, 97, 129, 193, 257, 385, 513, 769, 1025, 1537,
    2049, 3073, 4097, 6145, 8193, 12289, 16385, 24577]

def DIST_EXTRA : List Nat :=
  [0, 0, 0, 0, 1, 1, 2, 2, 3, 3, 4, 4, 5, 5, 6, 6, 7, 7, 8, 8, 9, 9, 10, 10, 11, 11, 12, 12, 13,
    13]

def CLEN_ORDER : List Nat :=
  [16, 17, 18, 0, 8, 7, 9, 6, 10, 5, 11, 4, 12, 3, 13, 2, 14, 1, 15]

/-- Symbol counts per code length, and the symbols sorted by length and value. -/
structure Huffman where
  counts : List Nat
  symbols : List Nat
deriving DecidableEq, Repr

/-- How often each code length occurs; a length over 15 is refused. -/
def countLengths (lengths : List Nat) : Fallible InflateError (List Nat) :=
  Fallible.forEach lengths (List.replicate 16 0) fun l counts => do
    if l > 15 then .fail .badHuffman
    else
      let count ← liftM (getAt counts l)
      let count ← liftM (add 16 count 1)
      liftM (setAt counts l count)

/-- Refuses over-subscribed codes: `left` code words of the current length remain. -/
def checkCounts : (left : Int) → List Nat → Fallible InflateError Unit
  | _, [] => return ()
  | left, count :: rest =>
      if left * 2 - count < 0 then .fail .badHuffman else checkCounts (left * 2 - count) rest

/-- Where the symbols of each length start, for lengths 2 to 15. -/
def symbolOffsets (counts : List Nat) : Checked (List Nat) :=
  forRange 1 15 (List.replicate 16 0) fun len offsets => do
    let offset ← getAt offsets len
    let count ← getAt counts len
    let next ← add 16 offset count
    setAt offsets (len + 1) next

/-- Sorts the symbols by code length, in the order of their values. -/
def sortSymbols : List Nat → (sym : Nat) → (offsets symbols : List Nat) → Checked (List Nat)
  | [], _, _, symbols => return symbols
  | l :: rest, sym, offsets, symbols =>
      if l ≠ 0 then do
        let offset ← getAt offsets l
        let symbols ← setAt symbols offset (sym % 2 ^ 16)
        let next ← add 16 offset 1
        let offsets ← setAt offsets l next
        sortSymbols rest (sym + 1) offsets symbols
      else sortSymbols rest (sym + 1) offsets symbols

def Huffman.new (lengths : List Nat) : Fallible InflateError Huffman := do
  let counts ← countLengths lengths
  let counts ← liftM (setAt counts 0 0)
  checkCounts 1 (counts.drop 1)
  let offsets ← liftM (symbolOffsets counts)
  let symbols ← liftM
    (sortSymbols lengths 0 offsets (List.replicate (lengths.filter (· ≠ 0)).length 0))
  return { counts, symbols }

def fixedLiteralLengths : List Nat :=
  List.replicate 144 8 ++ List.replicate 112 9 ++ List.replicate 24 7 ++ List.replicate 8 8

/-- `Huffman::new(..).expect(..)` -/
def expectHuffman (lengths : List Nat) : Checked Huffman :=
  match Huffman.new lengths with
  | .ok h => .ok h
  | .fail _ => .error .missing
  | .panic p => .error p

/-- The next `n` bits, least significant first, and the position after them. -/
def bits (data : Bytes) (n : Nat) (pos : Nat) : Fallible InflateError (Nat × Nat) :=
  Fallible.forEach (List.range n) (0, pos) fun i (out, pos) => do
    let byte ← Fallible.ofOption .truncated data[pos / 8]?
    return (out + byte.toNat / 2 ^ (pos % 8) % 2 * 2 ^ i, pos + 1)

/-- Walks a canonical code one bit at a time; `len` is the length reached. -/
def decodeLoop (data : Bytes) (h : Huffman) :
    (budget len code first index pos : Nat) → Fallible InflateError (Nat × Nat)
  | 0, _, _, _, _, _ => .fail .badSymbol
  | budget + 1, len, code, first, index, pos => do
      let (bit, pos) ← bits data 1 pos
      let code := code + bit
      let count ← liftM (getAt h.counts len)
      if code < first + count then
        let at_ ← liftM (sub (index + code) first)
        let sym ← liftM (getAt h.symbols at_)
        return (sym, pos)
      else decodeLoop data h budget (len + 1) (code * 2) ((first + count) * 2) (index + count) pos

def decode (data : Bytes) (h : Huffman) (pos : Nat) : Fallible InflateError (Nat × Nat) :=
  decodeLoop data h 15 1 0 0 0 pos

/-- `lengths[i..i + n]` all set to `prev`; past the end is an error. -/
def repeatLength (prev n : Nat) (state : List Nat × Nat) : Fallible InflateError (List Nat × Nat) :=
  Fallible.forEach (List.range n) state fun _ (lengths, i) =>
    if i < lengths.length then return (lengths.set i prev, i + 1) else .fail .badHuffman

/-- The run-length coded code lengths; every pass sets at least one. -/
def readLengths (data : Bytes) (clen : Huffman) :
    (budget : Nat) → (lengths : List Nat) → (i pos : Nat) → Fallible InflateError (List Nat × Nat)
  | 0, lengths, _, pos => return (lengths, pos)
  | budget + 1, lengths, i, pos =>
      if i ≥ lengths.length then return (lengths, pos)
      else do
        let (sym, pos) ← decode data clen pos
        let (lengths, i, pos) ←
          (if sym ≤ 15 then do
            let lengths ← liftM (setAt lengths i sym)
            return (lengths, i + 1, pos)
          else if sym = 16 then do
            if i = 0 then .fail .badHuffman
            else
              let prev ← liftM (getAt lengths (i - 1))
              let (extra, pos) ← bits data 2 pos
              let (lengths, i) ← repeatLength prev (3 + extra) (lengths, i)
              return (lengths, i, pos)
          else if sym = 17 then do
            let (extra, pos) ← bits data 3 pos
            return (lengths, i + 3 + extra, pos)
          else if sym = 18 then do
            let (extra, pos) ← bits data 7 pos
            return (lengths, i + 11 + extra, pos)
          else .fail .badHuffman : Fallible InflateError (List Nat × Nat × Nat))
        if i > lengths.length then .fail .badHuffman else readLengths data clen budget lengths i pos

def dynamicTables (data : Bytes) (pos : Nat) :
    Fallible InflateError (Huffman × Huffman × Nat) := do
  let (hlit, pos) ← bits data 5 pos
  let (hdist, pos) ← bits data 5 pos
  let (hclen, pos) ← bits data 4 pos
  let (clenLengths, pos) ←
    Fallible.forEach (CLEN_ORDER.take (hclen + 4)) (List.replicate 19 0, pos)
      fun slot (clenLengths, pos) => do
        let (len, pos) ← bits data 3 pos
        let clenLengths ← liftM (setAt clenLengths slot len)
        return (clenLengths, pos)
  let clen ← Huffman.new clenLengths
  let total := hlit + 257 + (hdist + 1)
  let (lengths, pos) ← readLengths data clen total (List.replicate total 0) 0 pos
  let endOfBlock ← liftM (getAt lengths 256)
  if endOfBlock = 0 then .fail .badHuffman
  else
    let litLengths ← liftM (slice lengths 0 (hlit + 257))
    let distLengths ← liftM (slice lengths (hlit + 257) lengths.length)
    let lit ← Huffman.new litLengths
    let dist ← Huffman.new distLengths
    return (lit, dist, pos)

/-- Copies `len` bytes from `d` back, byte by byte since the ranges may overlap. -/
def copyBack (len d : Nat) (out : Bytes) : Checked Bytes :=
  forRange 0 len out fun _ out => do
    let at_ ← sub out.length d
    let b ← getAt out at_
    return out ++ [b]

/-- One compressed block. Every pass reads at least one bit, so `budget` passes
suffice when it exceeds the number of bits left. -/
def inflateCompressed (data : Bytes) (limit : Nat) (lit dist : Huffman) :
    (budget : Nat) → (out : Bytes) → (pos : Nat) → Fallible InflateError (Bytes × Nat)
  | 0, _, _ => .fail .truncated
  | budget + 1, out, pos => do
      let (sym, pos) ← decode data lit pos
      if sym ≤ 255 then
        if out.length ≥ limit then .fail .tooLarge
        else inflateCompressed data limit lit dist budget (out ++ [UInt8.ofNat sym]) pos
      else if sym = 256 then return (out, pos)
      else if sym ≤ 285 then
        let idx := sym - 257
        let lenBase ← liftM (getAt LENGTH_BASE idx)
        let lenExtra ← liftM (getAt LENGTH_EXTRA idx)
        let (extra, pos) ← bits data lenExtra pos
        let len := lenBase + extra
        let (dsym, pos) ← decode data dist pos
        if dsym ≥ 30 then .fail .badSymbol
        else
          let distBase ← liftM (getAt DIST_BASE dsym)
          let distExtra ← liftM (getAt DIST_EXTRA dsym)
          let (extra, pos) ← bits data distExtra pos
          let d := distBase + extra
          if d > out.length then .fail .badDistance
          else if out.length + len > limit then .fail .tooLarge
          else
            let out ← liftM (copyBack len d out)
            inflateCompressed data limit lit dist budget out pos
      else .fail .badSymbol

/-- The block loop: output so far, bit position, number of blocks still allowed. -/
def inflateBlocks (data : Bytes) (limit : Nat) :
    (budget : Nat) → (out : Bytes) → (pos : Nat) → Fallible InflateError (Bytes × Nat)
  | 0, _, _ => .fail .truncated
  | budget + 1, out, pos => do
      let (bfinal, pos) ← bits data 1 pos
      let (btype, pos) ← bits data 2 pos
      let (out, pos) ←
        (if btype = 0 then do
          -- stored: byte-align, then LEN and its one's complement
          let pos := (pos + 7) / 8 * 8
          let (len, pos) ← bits data 16 pos
          let (nlen, pos) ← bits data 16 pos
          if len ^^^ nlen ≠ 0xFFFF then .fail .badStoredLength
          else if out.length + len > limit then .fail .tooLarge
          else
            let start := pos / 8
            if start + len ≤ data.length then
              return (out ++ (data.drop start).take len, pos + len * 8)
            else .fail .truncated
        else if btype = 1 then do
          let lit ← liftM (expectHuffman fixedLiteralLengths)
          let dist ← liftM (expectHuffman (List.replicate 30 5))
          inflateCompressed data limit lit dist (data.length * 8 + 1) out pos
        else if btype = 2 then do
          let (lit, dist, pos) ← dynamicTables data pos
          inflateCompressed data limit lit dist (data.length * 8 + 1) out pos
        else .fail .badBlockType : Fallible InflateError (Bytes × Nat))
      if bfinal = 1 then return (out, (pos + 7) / 8) else inflateBlocks data limit budget out pos

/-- Decompresses a raw DEFLATE stream; also the number of bytes consumed. -/
def inflate (data : Bytes) (limit : Nat) : Fallible InflateError (Bytes × Nat) :=
  inflateBlocks data limit (data.length * 8 + 1) [] 0

def ADLER_MOD : Nat := 65521

/-- The sums over one chunk, short enough for them to fit in `u32`. -/
def adlerChunk (chunk : Bytes) (sums : Nat × Nat) : Checked (Nat × Nat) := do
  let (a, b) ← forEach chunk sums fun byte (a, b) => do
    let a ← add 32 a byte.toNat
    let b ← add 32 b a
    return (a, b)
  return (a % ADLER_MOD, b % ADLER_MOD)

def adler32 (data : Bytes) : Checked Nat := do
  let (a, b) ← forEach (chunks 5552 data) (1, 0) adlerChunk
  return b * 2 ^ 16 + a

/-- `u32::from_be_bytes` of the four bytes at `at_`, if they are there. -/
def be32 (data : Bytes) (at_ : Nat) : Option Nat :=
  if at_ + 4 ≤ data.length then
    some (((data.drop at_).take 4).foldl (fun n b => n * 256 + b.toNat) 0)
  else none

def zlibDecompress (data : Bytes) (limit : Nat) : Fallible InflateError Bytes :=
  match data with
  | cmf :: flg :: rest => do
      let header := cmf.toNat * 256 + flg.toNat
      if cmf.toNat % 16 ≠ 8 ∨ header % 31 ≠ 0 ∨ flg.toNat / 32 % 2 ≠ 0 then .fail .badHeader
      else
        let (out, used) ← inflate rest limit
        let want ← Fallible.ofOption .truncated (be32 rest used)
        let sum ← liftM (adler32 out)
        if sum ≠ want then .fail .badChecksum else return out
  | _ => .fail .truncated

end Inflate

end Posh.Term
