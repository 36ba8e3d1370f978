import Posh.Term.Decoded
import Posh.Term.Filters
import Posh.Term.Inflated

/-!
PNG files of images.

An image is given by its colour type and its pixels. A file spells it as filtered
scanlines, compressed in any way that DEFLATE allows and cut into any number of IDAT
chunks; what it shows is one RGBA value a pixel.
-/

namespace Posh.Term.Png

open Posh.Lib

/-! ### Images -/

structure Rgb where
  r : UInt8
  g : UInt8
  b : UInt8
deriving DecidableEq, Repr

def Rgb.bytes (c : Rgb) : Bytes :=
  [c.r, c.g, c.b]

/-- The pixels of an image by colour type, with the transparency chunk that may go with
it: one sample value that is transparent, or the alpha values of the first palette
entries. -/
inductive Pixels where
  | gray (transparent : Option UInt8) (samples : Bytes)
  | rgb (transparent : Option Rgb) (samples : List Rgb)
  | indexed (palette : List Rgb) (alphas : Bytes) (indices : Bytes)
  | grayAlpha (samples : List (UInt8 × UInt8))
  | rgba (samples : List (Rgb × UInt8))
deriving Repr

namespace Pixels

def color : Pixels → UInt8
  | gray _ _ => 0
  | rgb _ _ => 2
  | indexed _ _ _ => 3
  | grayAlpha _ => 4
  | rgba _ => 6

/-- The samples of a pixel. -/
def depth : Pixels → Nat
  | gray _ _ => 1
  | rgb _ _ => 3
  | indexed _ _ _ => 1
  | grayAlpha _ => 2
  | rgba _ => 4

def count : Pixels → Nat
  | gray _ samples => samples.length
  | rgb _ samples => samples.length
  | indexed _ _ indices => indices.length
  | grayAlpha samples => samples.length
  | rgba samples => samples.length

/-- A palette has at most 256 entries, no more alpha values than entries, and an entry for
every index. -/
def Valid : Pixels → Prop
  | indexed palette alphas indices =>
      palette.length ≤ 256 ∧ alphas.length ≤ palette.length ∧
        ∀ index ∈ indices, index.toNat < palette.length
  | _ => True

/-- What the scanlines are made of. -/
def bytes : Pixels → Bytes
  | gray _ samples => samples
  | rgb _ samples => samples.flatMap Rgb.bytes
  | indexed _ _ indices => indices
  | grayAlpha samples => samples.flatMap fun s => [s.1, s.2]
  | rgba samples => samples.flatMap fun s => s.1.bytes ++ [s.2]

/-- The alpha value of a pixel of which one colour is transparent. -/
def alphaBut {C : Type} [DecidableEq C] (transparent : Option C) (c : C) : UInt8 :=
  if transparent = some c then 0 else 255

/-- The image as RGBA. -/
def shown : Pixels → Bytes
  | gray transparent samples => samples.flatMap fun g => [g, g, g, alphaBut transparent g]
  | rgb transparent samples => samples.flatMap fun c => c.bytes ++ [alphaBut transparent c]
  | indexed palette alphas indices =>
      indices.flatMap fun index =>
        (palette.getD index.toNat ⟨0, 0, 0⟩).bytes ++ [alphas.getD index.toNat 255]
  | grayAlpha samples => samples.flatMap fun s => [s.1, s.1, s.1, s.2]
  | rgba samples => samples.flatMap fun s => s.1.bytes ++ [s.2]

/-- The palette chunk's data, empty where there is none. -/
def plte : Pixels → Bytes
  | indexed palette _ _ => palette.flatMap Rgb.bytes
  | _ => []

/-- The transparency chunk's data: a sample takes two bytes there. -/
def trns : Pixels → Bytes
  | gray (some g) _ => [0, g]
  | rgb (some c) _ => [0, c.r, 0, c.g, 0, c.b]
  | indexed _ alphas _ => alphas
  | _ => []

end Pixels

/-- An image that the decoder has room for. -/
structure Image where
  width : Nat
  height : Nat
  pixels : Pixels
  some_ : 0 < width ∧ 0 < height
  capped : width * height * 4 ≤ MAX_RGBA_BYTES
  full : pixels.count = width * height
  valid : pixels.Valid

namespace Image

def stride (image : Image) : Nat :=
  image.width * image.pixels.depth

/-- The scanlines. -/
def rows (image : Image) : List Bytes :=
  chunks image.stride image.pixels.bytes

end Image

/-! ### Files -/

def chunk (kind body : Bytes) : Bytes :=
  beBytes 4 body.length ++ kind ++ body ++ beBytes 4 (crc32 (kind ++ body))

/-- A file of an image: a filter for each row, a compressed stream of what that makes, and
the pieces it is cut into. -/
structure File where
  image : Image
  filters : List Filter
  stream : Deflate.Stream
  pieces : List Bytes
  filters_length : filters.length = image.height
  compressed : stream.denote = filterRows image.pixels.depth [] (filters.zip image.rows)
  cut : pieces.flatten = stream.encode
  short : ∀ piece ∈ pieces, piece.length < 2 ^ 31

namespace File

def header (image : Image) : Bytes :=
  beBytes 4 image.width ++ beBytes 4 image.height ++ [8, image.pixels.color, 0, 0, 0]

/-- A chunk that is left out where it has nothing to say. -/
def optional (kind : String) (body : Bytes) : List (Bytes × Bytes) :=
  if body = [] then [] else [(toUtf8 kind.toList, body)]

/-- The chunks before the last. -/
def parts (file : File) : List (Bytes × Bytes) :=
  (toUtf8 "IHDR".toList, header file.image) :: optional "PLTE" file.image.pixels.plte ++
    optional "tRNS" file.image.pixels.trns ++
    file.pieces.map fun piece => (toUtf8 "IDAT".toList, piece)

def encode (file : File) : Bytes :=
  SIGNATURE ++ file.parts.flatMap (fun part => chunk part.1 part.2) ++
    chunk (toUtf8 "IEND".toList) []

end File

/-! ### Reading chunks -/

variable {rest before after kind body : Bytes}

theorem ofBe32_eq (b0 b1 b2 b3 : UInt8) : ofBe32 b0 b1 b2 b3 = ofBeBytes [b0, b1, b2, b3] := by
  simp [ofBe32, ← foldl_eq_ofBeBytes]

theorem be32_middle {value : Nat} (fits : value < 2 ^ 32) (before after : Bytes) :
    Inflate.be32 (before ++ (beBytes 4 value ++ after)) before.length = some value := by
  rw [Inflate.be32, if_pos (by simp), List.drop_left, List.take_left' (by simp),
    foldl_eq_ofBeBytes, ofBeBytes_beBytes_of_lt (by simpa using fits)]

theorem part_middle (before field after : Bytes) :
    part (before ++ (field ++ after)) before.length field.length = some field := by
  rw [part, if_pos (by simp), List.drop_left, List.take_left]

theorem crc32_lt (data : Bytes) : crc32 data < 2 ^ 32 := by
  unfold crc32
  omega

/-- What a chunk that is neither the header nor the end leaves in `chunks`. -/
def Chunks.add (chunks : Chunks) (part : Bytes × Bytes) : Chunks :=
  if part.1 = toUtf8 "IDAT".toList then { chunks with idat := chunks.idat ++ part.2 }
  else if part.1 = toUtf8 "PLTE".toList then { chunks with plte := part.2 }
  else if part.1 = toUtf8 "tRNS".toList then { chunks with trns := part.2 }
  else chunks

/-- The loop at a chunk. -/
theorem readChunks_chunk {budget : Nat} {chunks : Chunks}
    (split : rest = before ++ (chunk kind body ++ after)) (four : kind.length = 4)
    (short : body.length < 2 ^ 32) :
    readChunks rest (budget + 1) before.length chunks =
      if kind = toUtf8 "IEND".toList then .ok chunks
      else (do
        let chunks ←
          (if kind = toUtf8 "IHDR".toList then do
            let hdr ← parseIhdr body
            return { chunks with hdr := some hdr }
          else return chunks.add (kind, body) : Fallible PngError Chunks)
        if chunks.hdr.isNone then .fail .badHeader
        else readChunks rest budget (before ++ chunk kind body).length chunks) := by
  have len : Inflate.be32 rest before.length = some body.length := by
    rw [split, chunk, List.append_assoc, List.append_assoc, List.append_assoc]
    exact be32_middle short _ _
  have kind_eq : part rest (before.length + 4) 4 = some kind := by
    have := part_middle (before ++ beBytes 4 body.length) kind (body ++ (beBytes 4 (crc32 (kind ++ body)) ++ after))
    rw [four, List.length_append, length_beBytes] at this
    rw [← this, split, chunk]
    simp
  have body_eq : part rest (before.length + 8) body.length = some body := by
    have := part_middle (before ++ beBytes 4 body.length ++ kind) body (beBytes 4 (crc32 (kind ++ body)) ++ after)
    rw [List.length_append, List.length_append, length_beBytes, four] at this
    rw [← this, split, chunk]
    simp
  have crc : Inflate.be32 rest (before.length + 8 + body.length) = some (crc32 (kind ++ body)) := by
    have := be32_middle (crc32_lt (kind ++ body)) (before ++ beBytes 4 body.length ++ kind ++ body) after
    rw [List.length_append, List.length_append, List.length_append, length_beBytes, four] at this
    rw [← this, split, chunk]
    simp
  have next : (before ++ chunk kind body).length = before.length + 12 + body.length := by
    simp [chunk, four]
    omega
  rw [readChunks, len, kind_eq]
  simp only [Fallible.ofOption, Fallible.ok_bind, body_eq, crc]
  rw [if_neg (not_not.mpr rfl), next]
  have absorbed : (if kind = toUtf8 "IDAT".toList then
        return { chunks with idat := chunks.idat ++ body }
      else if kind = toUtf8 "PLTE".toList then return { chunks with plte := body }
      else if kind = toUtf8 "tRNS".toList then return { chunks with trns := body }
      else return chunks : Fallible PngError Chunks) = return chunks.add (kind, body) := by
    simp only [Chunks.add, apply_ite (pure : Chunks → Fallible PngError Chunks)]
  rw [absorbed]
  rfl

theorem chunk_length_pos (kind body : Bytes) : 0 < (chunk kind body).length := by
  simp [chunk]

/-- The chunks that may stand between the header and the end. -/
def Inner (part : Bytes × Bytes) : Prop :=
  part.1.length = 4 ∧ part.1 ≠ toUtf8 "IHDR".toList ∧ part.1 ≠ toUtf8 "IEND".toList ∧
    part.2.length < 2 ^ 32

theorem add_hdr (chunks : Chunks) (part : Bytes × Bytes) : (chunks.add part).hdr = chunks.hdr := by
  unfold Chunks.add
  split
  · rfl
  · split
    · rfl
    · split <;> rfl

theorem readChunks_inner {parts : List (Bytes × Bytes)} {chunks : Chunks} {budget : Nat}
    (inner : ∀ part ∈ parts, Inner part) (headed : chunks.hdr.isSome)
    (split : rest = before ++ (parts.flatMap (fun part => chunk part.1 part.2) ++
      (chunk (toUtf8 "IEND".toList) [] ++ after)))
    (enough : parts.length < budget) :
    readChunks rest budget before.length chunks = .ok (parts.foldl Chunks.add chunks) := by
  induction parts generalizing before chunks budget with
  | nil =>
    obtain ⟨budget, rfl⟩ := Nat.exists_eq_add_one.mpr enough
    rw [readChunks_chunk split (by decide) (by decide), if_pos rfl]
    rfl
  | cons part parts ih =>
    obtain ⟨budget, rfl⟩ := Nat.exists_eq_add_of_le' (Nat.lt_of_le_of_lt (Nat.zero_le _) enough)
    obtain ⟨four, not_header, not_end, short⟩ := inner part List.mem_cons_self
    have later : rest = before ++ (chunk part.1 part.2 ++
        (parts.flatMap (fun part => chunk part.1 part.2) ++
          (chunk (toUtf8 "IEND".toList) [] ++ after))) := by
      rw [split, List.flatMap_cons, List.append_assoc]
    have still : (chunks.add part).hdr.isSome := by rwa [add_hdr]
    rw [readChunks_chunk later four short, if_neg not_end, if_neg not_header]
    change (if (chunks.add part).hdr.isNone then _ else _) = _
    rw [if_neg (by simpa using Option.isSome_iff_ne_none.mp still)]
    exact ih (fun p mem => inner p (List.mem_cons_of_mem _ mem)) still (by rw [later]; simp)
      (by simp at enough; omega)

/-! ### The header -/

namespace Pixels

theorem toNat_color_mem (pixels : Pixels) : pixels.color.toNat ∈ [0, 2, 3, 4, 6] := by
  cases pixels <;> simp [color]

theorem depth_pos (pixels : Pixels) : 0 < pixels.depth := by
  cases pixels <;> simp [depth]

theorem depth_le (pixels : Pixels) : pixels.depth ≤ 4 := by
  cases pixels <;> simp [depth]

end Pixels

namespace Image

variable (image : Image)

/-- Width and height are far below what their four bytes hold. -/
theorem sides_lt : image.width < 2 ^ 27 ∧ image.height < 2 ^ 27 := by
  have capped := image.capped
  obtain ⟨wide, high⟩ := image.some_
  have width := Nat.le_mul_of_pos_right image.width high
  have height := Nat.le_mul_of_pos_left image.height wide
  unfold MAX_RGBA_BYTES at capped
  omega

def hdr : Header where
  width := image.width
  height := image.height
  color := image.pixels.color.toNat

theorem channels_hdr : image.hdr.channels = image.pixels.depth := by
  unfold hdr Header.channels
  cases image.pixels <;> rfl

end Image

theorem parseIhdr_header (image : Image) : parseIhdr (File.header image) = .ok image.hdr := by
  obtain ⟨wide, high⟩ := image.sides_lt
  have four (value : Nat) (fits : value < 2 ^ 27) :
      ∃ b0 b1 b2 b3, beBytes 4 value = [b0, b1, b2, b3] ∧ ofBe32 b0 b1 b2 b3 = value := by
    obtain ⟨b0, b1, b2, b3, eq⟩ : ∃ b0 b1 b2 b3, beBytes 4 value = [b0, b1, b2, b3] :=
      List.length_eq_four.mp (length_beBytes 4 value)
    refine ⟨b0, b1, b2, b3, eq, ?_⟩
    rw [ofBe32_eq, ← eq, ofBeBytes_beBytes_of_lt (by omega)]
  obtain ⟨w0, w1, w2, w3, width, w_eq⟩ := four image.width wide
  obtain ⟨h0, h1, h2, h3, height, h_eq⟩ := four image.height high
  have capped := image.capped
  have big : image.width * image.height * 4 < 2 ^ 64 := by
    unfold MAX_RGBA_BYTES at capped
    omega
  have some_ : ¬ (image.width = 0 ∨ image.height = 0) := by
    have := image.some_
    omega
  rw [File.header, width, height]
  simp only [List.cons_append, List.nil_append, parseIhdr, w_eq, h_eq]
  rw [if_neg some_, mul_eq_ok (by omega), Fallible.lift_ok_bind, mul_eq_ok big,
    Fallible.lift_ok_bind, if_neg (Nat.not_lt.mpr capped), if_neg (by simp),
    if_neg (by simp [image.pixels.toNat_color_mem])]
  rfl

/-! ### Samples -/

theorem entry_eq {palette : List Rgb} {i : Nat} (inside : i < palette.length) :
    ((palette.flatMap Rgb.bytes).drop (i * 3)).take 3 = (palette.getD i ⟨0, 0, 0⟩).bytes := by
  induction palette generalizing i with
  | nil => cases inside
  | cons c palette ih =>
    rw [List.flatMap_cons]
    cases i with
    | zero => rfl
    | succ i =>
      rw [show (i + 1) * 3 = c.bytes.length + i * 3 by simp [Rgb.bytes]; omega,
        List.drop_length_add_append, ih (Nat.lt_of_succ_lt_succ inside)]
      rfl

theorem length_palette (palette : List Rgb) :
    (palette.flatMap Rgb.bytes).length = palette.length * 3 :=
  length_flatMap_of fun _ _ => rfl

/-- The entries are appended to what was expanded before. -/
theorem expandLoop_shown {palette : List Rgb} {alphas indices : Bytes}
    (inside : ∀ index ∈ indices, index.toNat < palette.length) (out : Bytes) :
    Fallible.forEach indices out (fun idx out =>
      match ((palette.flatMap Rgb.bytes).drop (idx.toNat * 3)).take 3 with
      | [r, g, b] => return out ++ [r, g, b, alphas[idx.toNat]?.getD 255]
      | _ => .fail .badData) =
    (.ok (out ++ (Pixels.indexed palette alphas indices).shown) : Fallible PngError Bytes) := by
  induction indices generalizing out with
  | nil => simp [Fallible.forEach, Pixels.shown]
  | cons index indices ih =>
    rw [Fallible.forEach, entry_eq (inside index List.mem_cons_self)]
    simp only [Rgb.bytes]
    refine (ih (fun i mem => inside i (List.mem_cons_of_mem _ mem)) _).trans ?_
    simp [Pixels.shown, Rgb.bytes]

theorem expandPalette_shown {palette : List Rgb} {alphas indices : Bytes} (some_ : indices ≠ [])
    (inside : ∀ index ∈ indices, index.toNat < palette.length) :
    expandPalette (palette.flatMap Rgb.bytes) alphas indices =
      .ok (Pixels.indexed palette alphas indices).shown := by
  obtain ⟨index, mem⟩ := List.exists_mem_of_ne_nil _ some_
  have pos : 0 < palette.length := Nat.lt_of_le_of_lt (Nat.zero_le _) (inside index mem)
  unfold expandPalette
  rw [if_neg]
  · exact expandLoop_shown inside []
  · rw [length_palette]
    have filled : palette.flatMap Rgb.bytes ≠ [] :=
      List.ne_nil_of_length_pos (length_palette palette ▸ by omega)
    simp [filled]

theorem Rgb.bytes_inj {c d : Rgb} : c.bytes = d.bytes ↔ c = d := by
  cases c
  cases d
  simp [Rgb.bytes]

theorem toRgba_rgb (transparent : Option Rgb) (samples : List Rgb) :
    (chunksExact 3 (samples.flatMap Rgb.bytes)).flatMap (fun px =>
        px ++ [if transparent.map Rgb.bytes = some px then 0 else 255]) =
      (Pixels.rgb transparent samples).shown := by
  have three (c : Rgb) (_ : c ∈ samples) : c.bytes.length = 3 := rfl
  rw [chunksExact_flatMap (by decide) three, List.flatMap_map]
  have key (c : Rgb) : transparent.map Rgb.bytes = some c.bytes ↔ transparent = some c := by
    cases transparent with
    | none => simp
    | some t => simp [Rgb.bytes_inj]
  simp only [key]
  rfl

theorem toRgba_grayAlpha (samples : List (UInt8 × UInt8)) :
    (chunksExact 2 (samples.flatMap fun s => [s.1, s.2])).flatMap (fun px =>
        match px with
        | [g, a] => [g, g, g, a]
        | _ => []) = (Pixels.grayAlpha samples).shown := by
  have two (s : UInt8 × UInt8) (_ : s ∈ samples) : [s.1, s.2].length = 2 := rfl
  rw [chunksExact_flatMap (by decide) two, List.flatMap_map]
  rfl

theorem toRgba_shown (image : Image) :
    toRgba image.hdr image.pixels.bytes image.pixels.plte image.pixels.trns =
      .ok image.pixels.shown := by
  have some_ : 0 < image.pixels.count := image.full ▸ Nat.mul_pos image.some_.1 image.some_.2
  have valid := image.valid
  unfold Image.hdr toRgba
  cases eq : image.pixels with
  | gray transparent samples =>
    cases transparent with
    | none => simp [Pixels.color, Pixels.trns, Pixels.bytes, Pixels.shown, Pixels.alphaBut]; rfl
    | some g => simp [Pixels.color, Pixels.trns, Pixels.bytes, Pixels.shown, Pixels.alphaBut]; rfl
  | rgb transparent samples =>
    rw [← toRgba_rgb]
    cases transparent <;> rfl
  | indexed palette alphas indices =>
    rw [eq] at some_ valid
    exact expandPalette_shown (List.ne_nil_of_length_pos some_) valid.2.2
  | grayAlpha samples =>
    rw [← toRgba_grayAlpha]
    rfl
  | rgba samples => rfl

/-! ### Files -/

theorem length_bytes (pixels : Pixels) : pixels.bytes.length = pixels.count * pixels.depth := by
  cases pixels with
  | gray transparent samples => exact (Nat.mul_one _).symm
  | rgb transparent samples => exact length_flatMap_of fun _ _ => rfl
  | indexed palette alphas indices => exact (Nat.mul_one _).symm
  | grayAlpha samples => exact length_flatMap_of fun _ _ => rfl
  | rgba samples => exact length_flatMap_of fun _ _ => rfl

namespace Image

variable (image : Image)

theorem length_bytes : image.pixels.bytes.length = image.height * image.stride := by
  rw [Png.length_bytes, image.full, stride]
  ring

theorem stride_pos : 0 < image.stride :=
  Nat.mul_pos image.some_.1 image.pixels.depth_pos

theorem length_of_mem_rows {row : Bytes} (mem : row ∈ image.rows) : row.length = image.stride :=
  length_of_mem_chunks (image.length_bytes ▸ Dvd.intro_left _ rfl) mem

theorem flatten_rows : image.rows.flatten = image.pixels.bytes :=
  flatten_chunks image.stride_pos _

theorem length_rows : image.rows.length = image.height := by
  have all : (image.rows.flatMap id).length = image.rows.length * image.stride :=
    length_flatMap_of fun _ mem => image.length_of_mem_rows mem
  rw [List.flatMap_id, flatten_rows, length_bytes] at all
  exact (Nat.eq_of_mul_eq_mul_right image.stride_pos all).symm

end Image

namespace File

variable (file : File)

/-- The scanlines with their filters. -/
def lines : List (Filter × Bytes) :=
  file.filters.zip file.image.rows

theorem length_lines : file.lines.length = file.image.height := by
  simp [lines, file.filters_length, file.image.length_rows]

theorem flatMap_lines : file.lines.flatMap Prod.snd = file.image.pixels.bytes := by
  have rows : file.lines.map Prod.snd = file.image.rows :=
    List.map_snd_zip (by rw [file.filters_length, file.image.length_rows])
  rw [List.flatMap_def, rows, file.image.flatten_rows]

theorem full_lines : ∀ line ∈ file.lines, line.2.length = file.image.stride := by
  intro line mem
  exact file.image.length_of_mem_rows (List.of_mem_zip mem).2

/-- What is to be read of the file. -/
def chunks : Chunks where
  hdr := some file.image.hdr
  idat := file.stream.encode
  plte := file.image.pixels.plte
  trns := file.image.pixels.trns

theorem foldl_add_plte (plte : Bytes) (chunks : Chunks) (none : chunks.plte = []) :
    (optional "PLTE" plte).foldl Chunks.add chunks = { chunks with plte } := by
  unfold optional
  split
  · rename_i empty
    rw [empty, ← none]
    rfl
  · rfl

theorem foldl_add_trns (trns : Bytes) (chunks : Chunks) (none : chunks.trns = []) :
    (optional "tRNS" trns).foldl Chunks.add chunks = { chunks with trns } := by
  unfold optional
  split
  · rename_i empty
    rw [empty, ← none]
    rfl
  · rfl

theorem foldl_add_pieces (pieces : List Bytes) (chunks : Chunks) :
    (pieces.map fun piece => (toUtf8 "IDAT".toList, piece)).foldl Chunks.add chunks =
      { chunks with idat := chunks.idat ++ pieces.flatten } := by
  induction pieces generalizing chunks with
  | nil => simp
  | cons piece pieces ih =>
    rw [List.map_cons, List.foldl_cons, ih]
    simp [Chunks.add]

theorem inner_named {kind : String} (known : kind ∈ ["PLTE", "tRNS", "IDAT"]) {body : Bytes}
    (short : body.length < 2 ^ 32) : Inner (toUtf8 kind.toList, body) := by
  have named : (toUtf8 kind.toList).length = 4 ∧ toUtf8 kind.toList ≠ toUtf8 "IHDR".toList ∧
      toUtf8 kind.toList ≠ toUtf8 "IEND".toList := by
    simp only [List.mem_cons, List.not_mem_nil, or_false] at known
    rcases known with rfl | rfl | rfl <;> decide
  exact ⟨named.1, named.2.1, named.2.2, short⟩

theorem inner_optional {kind : String} (known : kind ∈ ["PLTE", "tRNS", "IDAT"]) {body : Bytes}
    (short : body.length < 2 ^ 32) : ∀ part ∈ optional kind body, Inner part := by
  intro part mem
  unfold optional at mem
  split at mem
  · cases mem
  · obtain rfl := List.mem_singleton.mp mem
    exact inner_named known short

theorem short_plte (image : Image) : image.pixels.plte.length < 2 ^ 32 := by
  have valid := image.valid
  cases eq : image.pixels with
  | indexed palette alphas indices =>
    rw [eq] at valid
    have few : palette.length ≤ 256 := valid.1
    simp only [Pixels.plte, length_palette]
    omega
  | gray | rgb | grayAlpha | rgba => simp [Pixels.plte]

theorem short_trns (image : Image) : image.pixels.trns.length < 2 ^ 32 := by
  have valid := image.valid
  cases eq : image.pixels with
  | indexed palette alphas indices =>
    rw [eq] at valid
    have few : palette.length ≤ 256 := valid.1
    have fewer : alphas.length ≤ palette.length := valid.2.1
    simp only [Pixels.trns]
    omega
  | gray transparent => cases transparent <;> simp [Pixels.trns]
  | rgb transparent => cases transparent <;> simp [Pixels.trns]
  | grayAlpha | rgba => simp [Pixels.trns]

theorem inner_pieces : ∀ part ∈ file.pieces.map fun piece => (toUtf8 "IDAT".toList, piece),
    Inner part := by
  intro part mem
  obtain ⟨piece, inside, rfl⟩ := List.mem_map.mp mem
  have short := file.short piece inside
  exact inner_named (by simp) (by omega)

/-- The chunks between the header and the end. -/
def innerParts : List (Bytes × Bytes) :=
  optional "PLTE" file.image.pixels.plte ++ optional "tRNS" file.image.pixels.trns ++
    file.pieces.map fun piece => (toUtf8 "IDAT".toList, piece)

theorem inner_innerParts : ∀ part ∈ file.innerParts, Inner part := by
  intro part mem
  rcases List.mem_append.mp mem with mem | mem
  · rcases List.mem_append.mp mem with mem | mem
    · exact inner_optional (by simp) (short_plte file.image) part mem
    · exact inner_optional (by simp) (short_trns file.image) part mem
  · exact file.inner_pieces part mem

theorem foldl_innerParts :
    file.innerParts.foldl Chunks.add { hdr := some file.image.hdr } = file.chunks := by
  rw [innerParts, List.foldl_append, List.foldl_append, foldl_add_plte _ _ rfl,
    foldl_add_trns _ _ rfl, foldl_add_pieces, file.cut]
  rfl

theorem length_innerParts_le :
    file.innerParts.length ≤ (file.innerParts.flatMap fun part => chunk part.1 part.2).length := by
  induction file.innerParts with
  | nil => exact Nat.le_refl 0
  | cons part parts ih =>
    have some_ := chunk_length_pos part.1 part.2
    rw [List.flatMap_cons, List.length_append, List.length_cons]
    omega

/-- The chunk loop collects what the file holds. -/
theorem readChunks_encode {rest : Bytes} {budget : Nat} (rest_eq : file.encode = SIGNATURE ++ rest)
    (enough : rest.length < budget) : readChunks rest budget 0 {} = .ok file.chunks := by
  have split : rest = [] ++ (chunk (toUtf8 "IHDR".toList) (header file.image) ++
      (file.innerParts.flatMap (fun part => chunk part.1 part.2) ++
        (chunk (toUtf8 "IEND".toList) [] ++ []))) := by
    rw [encode, List.append_assoc] at rest_eq
    rw [← List.append_cancel_left rest_eq, parts, innerParts]
    simp
  have few : file.innerParts.length + 1 < budget := by
    have some_ := chunk_length_pos (toUtf8 "IHDR".toList) (header file.image)
    have more := file.length_innerParts_le
    have length := congrArg List.length split
    simp only [List.length_append, List.length_nil] at length
    omega
  obtain ⟨budget, rfl⟩ := Nat.exists_eq_add_one.mpr (show 0 < budget by omega)
  have four : (toUtf8 "IHDR".toList).length = 4 := by decide
  have short : (header file.image).length < 2 ^ 32 := by simp [header]
  have first : readChunks rest (budget + 1) ([] : Bytes).length {} = _ :=
    readChunks_chunk split four short
  rw [if_neg (by decide), if_pos rfl, parseIhdr_header] at first
  refine first.trans ?_
  change readChunks rest budget _ _ = _
  rw [← List.append_assoc] at split
  rw [readChunks_inner file.inner_innerParts rfl split (by omega)]
  exact congrArg Fallible.ok file.foldl_innerParts

theorem length_denote :
    file.stream.denote.length = file.image.height * (1 + file.image.stride) := by
  rw [file.compressed, ← length_lines]
  exact length_filterRows file.full_lines

/-- A file is decoded to its image. -/
theorem decode_encode :
    decode file.encode =
      .ok { width := file.image.width, height := file.image.height, rgba := file.image.pixels.shown } := by
  obtain ⟨rest, rest_eq⟩ : ∃ rest, file.encode = SIGNATURE ++ rest :=
    ⟨_, List.append_assoc SIGNATURE _ _⟩
  have signed : SIGNATURE.isPrefixOf file.encode = true := by
    rw [rest_eq, List.isPrefixOf_iff_prefix]
    exact List.prefix_append _ _
  have dropped : file.encode.drop SIGNATURE.length = rest := by
    rw [rest_eq, List.drop_left]
  have collected := file.readChunks_encode rest_eq (Nat.lt_succ_self _)
  obtain ⟨wide, high⟩ := file.image.sides_lt
  have deep := file.image.pixels.depth_le
  have stride_lt : file.image.stride < 2 ^ 30 := by
    have := Nat.mul_le_mul_left file.image.width deep
    unfold Image.stride
    omega
  have expect_lt : file.image.height * (1 + file.image.stride) < 2 ^ 64 := by
    have := Nat.mul_le_mul (Nat.le_of_lt high) (show 1 + file.image.stride ≤ 2 ^ 30 by omega)
    omega
  have stride_ok : mul 64 file.image.hdr.width file.image.hdr.channels = .ok file.image.stride := by
    rw [file.image.channels_hdr, mul_eq_ok]
    · rfl
    · change file.image.stride < _
      omega
  have inflated : (Inflate.zlibDecompress file.stream.encode
      (file.image.height * (1 + file.image.stride))).result = .ok (.ok file.stream.denote) := by
    rw [Inflate.zlibDecompress_encode file.stream (Nat.le_of_eq file.length_denote)]
    rfl
  have unfiltered : unfilter file.stream.denote file.image.hdr.width file.image.hdr.height
      file.image.hdr.channels = .ok file.image.pixels.bytes := by
    rw [file.image.channels_hdr, ← file.flatMap_lines, file.compressed]
    have := unfilter_filterRows file.full_lines file.image.pixels.depth_pos
    rw [length_lines] at this
    exact this
  unfold decode
  rw [signed, dropped]
  simp only [Bool.not_true, Bool.false_eq_true, if_false, collected, Fallible.ok_bind, chunks,
    Fallible.ofOption, stride_ok, Fallible.lift_ok_bind]
  rw [add_eq_ok (by omega), Fallible.lift_ok_bind]
  change (liftM (mul 64 file.image.height _) >>= _) = _
  rw [mul_eq_ok expect_lt, Fallible.lift_ok_bind, inflated, Fallible.lift_ok_bind]
  simp only [file.length_denote, ne_eq, not_true_eq_false, if_false, unfiltered, Fallible.ok_bind,
    toRgba_shown]
  rfl

end File

/-- A file is decoded to the pixels of its image; and whatever scanlines there are, undoing
the filters in place stays in range and looks at no byte that is not rebuilt. -/
theorem decoding_undoes_encoding (file : File) {raw : Bytes} {width height bpp : Nat}
    (expected : raw.length = height * (1 + width * bpp)) :
    decode file.encode = .ok ⟨file.image.width, file.image.height, file.image.pixels.shown⟩ ∧
    (∀ panic, unfilter raw width height bpp ≠ .panic panic) ∧
    unfilterSeeing rebuilt raw width height bpp = unfilter raw width height bpp := by
  refine ⟨file.decode_encode, fun panic bad => ?_, unfilterSeeing_rebuilt raw width height bpp⟩
  have sound := unfilter_guarded expected
  rw [bad] at sound
  exact sound trivial

/-- Two rows of gray, one value of it transparent. -/
def grayImage : Image where
  width := 2
  height := 2
  pixels := .gray (some 7) [7, 9, 8, 8]
  some_ := by decide
  capped := by decide
  full := rfl
  valid := trivial

/-- Its rows filtered as differences to the left and by the nearest neighbour, in two
chunks. -/
def grayFile : File where
  image := grayImage
  filters := [.sub, .paeth]
  stream := {
    cmf := 0x78
    flg := 0x01
    blocks := [.stored [false, false, false, false, false] [1, 7, 2, 4, 1, 255] (by decide)]
    padding := []
    method := Inflate.mixed.method
    window := Inflate.mixed.window
    no_dictionary := Inflate.mixed.no_dictionary
    check := Inflate.mixed.check
    some_ := List.cons_ne_nil _ _
    fit := by decide
    padding_short := by decide
    whole := by decide }
  pieces := [[0x78, 0x01, 0x01, 0x06, 0x00], [0xF9, 0xFF, 1, 7, 2, 4, 1, 255, 1, 68, 1, 15]]
  filters_length := rfl
  compressed := by decide +kernel
  cut := by decide +kernel
  short := by decide

/-- The file of two rows of gray, and a row whose filter is unknown. -/
theorem decoding_undoes_encoding_gray :
    decode grayFile.encode =
      .ok ⟨2, 2, [7, 7, 7, 0, 9, 9, 9, 255, 8, 8, 8, 255, 8, 8, 8, 255]⟩ ∧
    (∀ panic, unfilter [5, 1, 2, 3] 1 1 3 ≠ .panic panic) ∧
    unfilterSeeing rebuilt [5, 1, 2, 3] 1 1 3 = unfilter [5, 1, 2, 3] 1 1 3 :=
  decoding_undoes_encoding grayFile rfl

end Posh.Term.Png
