import Mathlib.Logic.Function.Iterate
import Posh.Lib.Utf8
import Posh.Term.Inflate

/-!
The PNG decoder for kitty graphics `f=100` images (`png.rs`): 8-bit depth, no
interlacing, all five scanline filters, always RGBA8 out.
-/

namespace Posh.Term

open Posh.Lib

inductive PngError where
  | badSignature
  | truncated
  | badCrc
  | badHeader
  | unsupported
  | badData
deriving DecidableEq, Repr

structure DecodedPng where
  width : Nat
  height : Nat
  rgba : Bytes
deriving DecidableEq, Repr

namespace Png

def MAX_RGBA_BYTES : Nat := 320 * 1024 * 1024

structure Header where
  width : Nat
  height : Nat
  color : Nat
deriving DecidableEq, Repr

/-- Samples per pixel. -/
def Header.channels (hdr : Header) : Nat :=
  match hdr.color with
  | 0 => 1
  | 2 => 3
  | 3 => 1
  | 4 => 2
  | _ => 4

/-- One shift of the CRC register. -/
def crcShift (crc : Nat) : Nat :=
  crc / 2 ^^^ (crc % 2 * 0xEDB88320)

def crc32 (data : Bytes) : Nat :=
  0xFFFFFFFF - data.foldl (fun crc b => crcShift^[8] (crc ^^^ b.toNat)) 0xFFFFFFFF

/-- `u32::from_be_bytes` -/
def ofBe32 (b0 b1 b2 b3 : UInt8) : Nat :=
  ((b0.toNat * 256 + b1.toNat) * 256 + b2.toNat) * 256 + b3.toNat

def parseIhdr (data : Bytes) : Fallible PngError Header :=
  match data with
  | [w0, w1, w2, w3, h0, h1, h2, h3, depth, color, compression, filter, interlace] =>
      let width := ofBe32 w0 w1 w2 w3
      let height := ofBe32 h0 h1 h2 h3
      if width = 0 ∨ height = 0 then .fail .badHeader
      else do
        let area ← liftM (mul 64 width height)
        let bytes ← liftM (mul 64 area 4)
        if bytes > MAX_RGBA_BYTES then .fail .badHeader
        else if compression ≠ 0 ∨ filter ≠ 0 then .fail .badHeader
        else if depth ≠ 8 ∨ interlace ≠ 0 ∨ color.toNat ∉ [0, 2, 3, 4, 6] then .fail .unsupported
        else return { width, height, color := color.toNat }
  | _ => .fail .badHeader

/-- Paeth predictor. -/
def paeth (a b c : Nat) : Nat :=
  let p : Int := a + b - c
  let pa := (p - a).natAbs
  let pb := (p - b).natAbs
  let pc := (p - c).natAbs
  if pa ≤ pb ∧ pa ≤ pc then a else if pb ≤ pc then b else c

/-- `x.wrapping_add(..)` of the predictor the filter names. -/
def unfilterByte (filter x left up upLeft : UInt8) : Option UInt8 :=
  match filter.toNat with
  | 0 => some x
  | 1 => some (x + left)
  | 2 => some (x + up)
  | 3 => some (x + UInt8.ofNat ((left.toNat + up.toNat) / 2))
  | 4 => some (x + UInt8.ofNat (paeth left.toNat up.toNat upLeft.toNat))
  | _ => none

/-- `raw.copy_within(lo..hi, dest)` -/
def copyWithin (raw : Bytes) (lo hi dest : Nat) : Checked Bytes := do
  let part ← slice raw lo hi
  if dest + part.length ≤ raw.length then
    return raw.take dest ++ part ++ raw.drop (dest + part.length)
  else throw .index

/-- Unfilters one scanline in place, shifted left over its filter byte; `outAt` is
where the previous unfiltered row starts. -/
def unfilterRow (stride bpp row : Nat) (state : Bytes × Nat) : Fallible PngError (Bytes × Nat) := do
  let (raw, outAt) := state
  let lineAt := row * (stride + 1)
  let filter ← liftM (getAt raw lineAt)
  let cur := row * stride
  let raw ← liftM (copyWithin raw (lineAt + 1) (lineAt + 1 + stride) cur)
  let raw ← Fallible.forEach (List.range stride) raw fun i raw => do
    let left ← liftM (if i ≥ bpp then getAt raw (cur + i - bpp) else pure 0)
    let up ← liftM (if row > 0 then getAt raw (outAt + i) else pure 0)
    let upLeft ← liftM (if row > 0 ∧ i ≥ bpp then getAt raw (outAt + i - bpp) else pure 0)
    let x ← liftM (getAt raw (cur + i))
    let value ← Fallible.ofOption .badData (unfilterByte filter x left up upLeft)
    liftM (setAt raw (cur + i) value)
  return (raw, cur)

def unfilter (raw : Bytes) (width height bpp : Nat) : Fallible PngError Bytes := do
  let stride := width * bpp
  let (raw, _) ← Fallible.forEach (List.range height) (raw, 0) (unfilterRow stride bpp)
  return raw.take (height * stride)

/-- Indexed samples through the palette and its alpha values. -/
def expandPalette (plte trns : Bytes) (samples : Bytes) : Fallible PngError Bytes :=
  if plte.isEmpty ∨ plte.length % 3 ≠ 0 then .fail .badData
  else
    Fallible.forEach samples [] fun idx out =>
      match (plte.drop (idx.toNat * 3)).take 3 with
      | [r, g, b] => return out ++ [r, g, b, trns[idx.toNat]?.getD 255]
      | _ => .fail .badData

/-- Expands unfiltered samples to RGBA. -/
def toRgba (hdr : Header) (samples plte trns : Bytes) : Fallible PngError Bytes :=
  match hdr.color with
  | 0 =>
      let key := match trns with
        | [_, g] => some g
        | _ => none
      return samples.flatMap fun g => [g, g, g, if key = some g then 0 else 255]
  | 2 =>
      let key := match trns with
        | [_, r, _, g, _, b] => some [r, g, b]
        | _ => none
      return (chunksExact 3 samples).flatMap fun px => px ++ [if key = some px then 0 else 255]
  | 3 => expandPalette plte trns samples
  | 4 =>
      return (chunksExact 2 samples).flatMap fun px =>
        match px with
        | [g, a] => [g, g, g, a]
        | _ => []
  | _ => return samples

/-- What the chunk loop of `decode` collects. -/
structure Chunks where
  hdr : Option Header := none
  idat : Bytes := []
  plte : Bytes := []
  trns : Bytes := []

/-- `rest[lo..lo + len]`, if it is there. -/
def part (rest : Bytes) (lo len : Nat) : Option Bytes :=
  if lo + len ≤ rest.length then some ((rest.drop lo).take len) else none

def readChunks (rest : Bytes) : (budget at_ : Nat) → Chunks → Fallible PngError Chunks
  | 0, _, _ => .fail .truncated
  | budget + 1, at_, chunks => do
      let len ← Fallible.ofOption .truncated (Inflate.be32 rest at_)
      let kind ← Fallible.ofOption .truncated (part rest (at_ + 4) 4)
      let body ← Fallible.ofOption .truncated (part rest (at_ + 8) len)
      let crc ← Fallible.ofOption .truncated (Inflate.be32 rest (at_ + 8 + len))
      if crc32 (kind ++ body) ≠ crc then .fail .badCrc
      else if kind = toUtf8 "IEND".toList then
        return chunks
      else
        let chunks ←
          (if kind = toUtf8 "IHDR".toList then do
            let hdr ← parseIhdr body
            return { chunks with hdr := some hdr }
          else if kind = toUtf8 "IDAT".toList then return { chunks with idat := chunks.idat ++ body }
          else if kind = toUtf8 "PLTE".toList then return { chunks with plte := body }
          else if kind = toUtf8 "tRNS".toList then return { chunks with trns := body }
          else return chunks : Fallible PngError Chunks)
        if chunks.hdr.isNone then .fail .badHeader
        else readChunks rest budget (at_ + 12 + len) chunks

def SIGNATURE : Bytes := [0x89, 0x50, 0x4E, 0x47, 0x0D, 0x0A, 0x1A, 0x0A]

def decode (data : Bytes) : Fallible PngError DecodedPng := do
  if !SIGNATURE.isPrefixOf data then .fail .badSignature
  else
    let rest := data.drop SIGNATURE.length
    let chunks ← readChunks rest (rest.length + 1) 0 {}
    let hdr ← Fallible.ofOption .badHeader chunks.hdr
    let stride ← liftM (mul 64 hdr.width hdr.channels)
    let line ← liftM (add 64 1 stride)
    let expect ← liftM (mul 64 hdr.height line)
    let inflated ← liftM (Inflate.zlibDecompress chunks.idat expect).result
    match inflated with
    | .error _ => .fail .badData
    | .ok raw =>
        if raw.length ≠ expect then .fail .badData
        else
          let samples ← unfilter raw hdr.width hdr.height hdr.channels
          let rgba ← toRgba hdr samples chunks.plte chunks.trns
          return { width := hdr.width, height := hdr.height, rgba }

end Png

end Posh.Term
