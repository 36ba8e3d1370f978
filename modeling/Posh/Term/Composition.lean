import Posh.Lib.Alpha
import Posh.Lib.Pieces
import Posh.Term.Builds

/-!
What a composed frame looks like. A picture gives a pixel for each place; a frame is drawn
onto a picture pixel by pixel, in place of what is there or over it; and the canvas of a
frame is the root image with the frames of its base chain drawn onto it in turn.
-/

namespace Posh.Term

open Posh.Lib

/-! ### Pictures -/

structure Pixel where
  red : Nat
  green : Nat
  blue : Nat
  alpha : Nat
deriving DecidableEq, Repr

/-- Whatever gives a pixel for each place. -/
abbrev Picture := (x y : Nat) → Pixel

namespace Pixel

def ofRgba : Bytes → Pixel
  | [r, g, b, a] => ⟨r.toNat, g.toNat, b.toNat, a.toNat⟩
  | _ => ⟨0, 0, 0, 0⟩

def ofRgb : Bytes → Pixel
  | [r, g, b] => ⟨r.toNat, g.toNat, b.toNat, 255⟩
  | _ => ⟨0, 0, 0, 0⟩

theorem ofRgba_append {px : Bytes} (size : px.length = 3) : ofRgba (px ++ [255]) = ofRgb px := by
  rcases px with _ | ⟨r, _ | ⟨g, _ | ⟨b, _ | _⟩⟩⟩ <;> cases size
  rfl

/-- One pixel over another: each channel exactly, rounded down to a whole step. -/
def overlaid (s d : Pixel) : Pixel where
  red := ⌊(255 : ℚ) * Alpha.overlaid (s.red / 255) (s.alpha / 255) (d.red / 255) (d.alpha / 255)⌋₊
  green := ⌊(255 : ℚ) * Alpha.overlaid (s.green / 255) (s.alpha / 255) (d.green / 255) (d.alpha / 255)⌋₊
  blue := ⌊(255 : ℚ) * Alpha.overlaid (s.blue / 255) (s.alpha / 255) (d.blue / 255) (d.alpha / 255)⌋₊
  alpha := ⌊(255 : ℚ) * Alpha.cover (s.alpha / 255) (d.alpha / 255)⌋₊

/-- One channel in whole numbers. -/
def blended (s sa d da : Nat) : Nat :=
  (s * sa * 255 + d * da * (255 - sa)) / (sa * 255 + da * (255 - sa))

theorem overlaid_eq (s d : Pixel) (le : s.alpha ≤ 255) : s.overlaid d =
    ⟨blended s.red s.alpha d.red d.alpha, blended s.green s.alpha d.green d.alpha,
      blended s.blue s.alpha d.blue d.alpha, (s.alpha * 255 + d.alpha * (255 - s.alpha)) / 255⟩ := by
  have channel (c c' : Nat) : ⌊(255 : ℚ) * Alpha.overlaid (c / 255) (s.alpha / 255) (c' / 255)
      (d.alpha / 255)⌋₊ = blended c s.alpha c' d.alpha := by
    exact_mod_cast Alpha.floor_overlaid (n := 255) (by decide) le
  have covered : ⌊(255 : ℚ) * Alpha.cover (s.alpha / 255) (d.alpha / 255)⌋₊ =
      (s.alpha * 255 + d.alpha * (255 - s.alpha)) / 255 := by
    exact_mod_cast Alpha.floor_cover (n := 255) (by decide) le
  simp only [overlaid, channel, covered]

end Pixel

namespace Graphics

/-- The pixels of a block of image data. -/
def picture (format : ImageFormat) (width : Nat) (data : Bytes) : Picture := fun x y =>
  match format with
  | .rgb => .ofRgb (piece 3 data (y * width + x))
  | _ => .ofRgba (piece 4 data (y * width + x))

/-- A frame drawn at its place. -/
def draw (under : Picture) (frame : Frame) : Picture := fun x y =>
  if frame.x ≤ x ∧ x < frame.x + frame.width ∧ frame.y ≤ y ∧ y < frame.y + frame.height then
    let drawn := picture frame.format frame.width frame.data (x - frame.x) (y - frame.y)
    if frame.replace then drawn else drawn.overlaid (under x y)
  else under x y

/-! ### Blending -/

section Blend

variable {d s : Bytes}

theorem blendChannel_eq {sa da : Nat} (s d : UInt8) (le : sa ≤ 255) (le' : da ≤ 255) :
    blendChannel sa da (sa * 255 + da * (255 - sa)) s d =
      .ok (UInt8.ofNat (Pixel.blended s.toNat sa d.toNat da)) := by
  have s_lt := s.toNat_lt
  have d_lt := d.toNat_lt
  have upper : s.toNat * sa ≤ 255 * 255 := Nat.mul_le_mul (by omega) le
  have lower : d.toNat * da ≤ 255 * 255 := Nat.mul_le_mul (by omega) le'
  have under : d.toNat * da * (255 - sa) ≤ 255 * 255 * 255 := Nat.mul_le_mul lower (by omega)
  unfold blendChannel
  simp only [sub_eq_ok le, Bind.bind, Except.bind]
  rw [mul_eq_ok (by omega)]
  dsimp only
  rw [mul_eq_ok (by omega)]
  dsimp only
  rw [mul_eq_ok (by omega)]
  dsimp only
  rw [mul_eq_ok (by omega)]
  dsimp only
  rw [add_eq_ok (by omega)]
  rfl

/-- A weighted mean of bytes is a byte. -/
theorem blended_le {s d sa da : Nat} (s_le : s ≤ 255) (d_le : d ≤ 255) :
    Pixel.blended s sa d da ≤ 255 := by
  have upper := Nat.mul_le_mul_right (sa * 255) s_le
  have lower := Nat.mul_le_mul_right (da * (255 - sa)) d_le
  refine Nat.div_le_of_le_mul ?_
  rw [Nat.mul_assoc s, Nat.mul_assoc d]
  omega

theorem blendPx_over (d_size : d.length = 4) (s_size : s.length = 4) :
    Yields (blendPx d s) fun px => px.length = 4 ∧
      Pixel.ofRgba px = (Pixel.ofRgba s).overlaid (Pixel.ofRgba d) := by
  rcases d with _ | ⟨d0, _ | ⟨d1, _ | ⟨d2, _ | ⟨d3, _ | _⟩⟩⟩⟩ <;> cases d_size
  rcases s with _ | ⟨s0, _ | ⟨s1, _ | ⟨s2, _ | ⟨s3, _ | _⟩⟩⟩⟩ <;> cases s_size
  have sa_le : s3.toNat ≤ 255 := Nat.le_of_lt_succ s3.toNat_lt
  have da_le : d3.toNat ≤ 255 := Nat.le_of_lt_succ d3.toNat_lt
  have byte (c : UInt8) : c.toNat ≤ 255 := Nat.le_of_lt_succ c.toNat_lt
  rw [Pixel.overlaid_eq _ _ sa_le]
  unfold blendPx Pixel.ofRgba
  dsimp only
  split
  · rename_i opaque_
    refine .pure ⟨rfl, ?_⟩
    have kept (c : Nat) : c * 255 * 255 / 65025 = c := by omega
    simp [opaque_, Pixel.blended, kept]
  · have under : d3.toNat * (255 - s3.toNat) ≤ 255 * 255 := Nat.mul_le_mul da_le (by omega)
    rw [sub_eq_ok sa_le]
    simp only [Bind.bind, Except.bind]
    rw [mul_eq_ok (by omega)]
    dsimp only
    rw [mul_eq_ok (by omega)]
    dsimp only
    rw [add_eq_ok (by omega)]
    dsimp only
    split
    · rename_i bare
      refine .pure ⟨rfl, ?_⟩
      simp [bare, Pixel.blended]
    · rw [blendChannel_eq s0 d0 sa_le da_le, blendChannel_eq s1 d1 sa_le da_le,
        blendChannel_eq s2 d2 sa_le da_le]
      refine .pure ⟨rfl, ?_⟩
      have channel (s d : UInt8) : (UInt8.ofNat (Pixel.blended s.toNat s3.toNat d.toNat
          d3.toNat)).toNat = Pixel.blended s.toNat s3.toNat d.toNat d3.toNat :=
        UInt8.toNat_ofNat_of_lt' (Nat.lt_succ_of_le (blended_le (byte s) (byte d)))
      have covered : (s3.toNat * 255 + d3.toNat * (255 - s3.toNat)) / 255 < 256 := by
        have := Nat.mul_le_mul_right (255 - s3.toNat) da_le
        omega
      simp only [channel, UInt8.toNat_ofNat_of_lt' covered]

end Blend

/-! ### Rectangles -/

section Rectangle

variable {build : Build} {dst src px : Bytes} {r : Rect} {replace : Bool}

theorem writePx_eq (size : px.length = 4) (at_ : Nat) : writePx dst at_ px = splice dst at_ px := by
  rw [writePx, splice, size]

/-- A pixel in place of another, or over it. -/
def mixed (replace : Bool) (s d : Pixel) : Pixel :=
  if replace then s else s.overlaid d

theorem mixPx_yields {d s : Bytes} (d_size : d.length = 4) (s_size : s.length = 4) :
    Yields (if replace then pure s else blendPx d s) fun px => px.length = 4 ∧
      Pixel.ofRgba px = mixed replace (Pixel.ofRgba s) (Pixel.ofRgba d) := by
  cases replace with
  | true => exact .pure ⟨s_size, rfl⟩
  | false => exact blendPx_over d_size s_size

/-- One row: the pixels before the column that comes next are drawn. -/
theorem composeRow_yields {sBase dBase w : Nat} (small : dst.length < 2 ^ 64)
    (small' : src.length < 2 ^ 64) (dst_fits : ∀ col < w, (dBase + col + 1) * 4 ≤ dst.length)
    (src_fits : ∀ col < w, (sBase + col + 1) * 4 ≤ src.length) :
    Yields (forRange 0 w dst fun col dst => do
      let at_ ← build.mul 64 col 4
      let sLo ← build.add 64 (sBase * 4) at_
      let sHi ← build.add 64 sLo 4
      let s ← slice src sLo sHi
      let dLo ← build.add 64 (dBase * 4) at_
      let dHi ← build.add 64 dLo 4
      let d ← slice dst dLo dHi
      let px ← (if replace then pure s else blendPx d s)
      return writePx dst dLo px) fun out => out.length = dst.length ∧
        ∀ j, Pixel.ofRgba (piece 4 out j) =
          if dBase ≤ j ∧ j < dBase + w then
            mixed replace (Pixel.ofRgba (piece 4 src (sBase + (j - dBase))))
              (Pixel.ofRgba (piece 4 dst j))
          else Pixel.ofRgba (piece 4 dst j) := by
  refine Yields.forRange_index (I := fun col out => out.length = dst.length ∧
    ∀ j, Pixel.ofRgba (piece 4 out j) =
      if dBase ≤ j ∧ j < dBase + col then
        mixed replace (Pixel.ofRgba (piece 4 src (sBase + (j - dBase))))
          (Pixel.ofRgba (piece 4 dst j))
      else Pixel.ofRgba (piece 4 dst j)) (Nat.zero_le w) ⟨rfl, fun j => ?_⟩ ?_
  · rw [if_neg (by omega)]
  · rintro col out - inside ⟨length, drawn⟩
    have dst_in := dst_fits col inside
    have src_in := src_fits col inside
    refine (Build.mul_yields (by omega)).bind ?_
    rintro _ rfl
    refine (Build.add_yields (by omega)).bind ?_
    rintro _ rfl
    refine (Build.add_yields (by omega)).bind ?_
    rintro _ rfl
    rw [← Nat.add_mul]
    refine (Yields.slice (by omega) (by omega)).bind ?_
    rintro _ rfl
    refine (Build.add_yields (by omega)).bind ?_
    rintro _ rfl
    refine (Build.add_yields (by omega)).bind ?_
    rintro _ rfl
    rw [← Nat.add_mul]
    refine (Yields.slice (by omega) (by omega)).bind ?_
    rintro _ rfl
    rw [drop_take_eq_piece, drop_take_eq_piece]
    refine (mixPx_yields (length_piece (by omega)) (length_piece (by omega))).bind ?_
    rintro px ⟨size, mix⟩
    rw [writePx_eq size]
    refine .pure ⟨(length_splice (by omega)).trans length, fun j => ?_⟩
    rw [piece_splice size (by omega)]
    by_cases here : j = dBase + col
    · have before := drawn (dBase + col)
      rw [if_neg (by omega)] at before
      rw [if_pos here, if_pos (by omega), mix, before, here, Nat.add_sub_cancel_left]
    · rw [if_neg here, drawn]
      simp only [show (dBase ≤ j ∧ j < dBase + col) ↔ (dBase ≤ j ∧ j < dBase + (col + 1)) by omega]

/-- A place in the destination that the rectangle covers, and with it one in the source. -/
def Rect.Covers (r : Rect) (x y : Nat) : Prop :=
  (r.dstPos.1 ≤ x ∧ x - r.dstPos.1 < r.size.1 ∧ r.srcPos.1 + (x - r.dstPos.1) < r.srcSize.1) ∧
    r.dstPos.2 ≤ y ∧ y - r.dstPos.2 < r.size.2 ∧ r.srcPos.2 + (y - r.dstPos.2) < r.srcSize.2

instance (r : Rect) (x y : Nat) : Decidable (r.Covers x y) :=
  inferInstanceAs (Decidable (_ ∧ _))

/-- The buffers are as large as the rectangle says, in machine words. -/
structure Rect.Fits (r : Rect) (dst src : Bytes) : Prop where
  dst_size : dst.length = r.dstSize.1 * r.dstSize.2 * 4
  src_size : src.length = r.srcSize.1 * r.srcSize.2 * 4
  dst_small : dst.length ≤ 3 * 2 ^ 62
  src_small : src.length ≤ 3 * 2 ^ 62
  dst_rows : r.dstSize.2 < 2 ^ 32
  src_rows : r.srcSize.2 < 2 ^ 32
  dst_pos : r.dstPos.1 < 2 ^ 32
  src_pos : r.srcPos.1 < 2 ^ 32

/-- The places of a row segment in a buffer. -/
theorem row_iff {dw x y X Y w : Nat} (x_lt : x < dw) (fits : w = 0 ∨ X + w ≤ dw) :
    (Y * dw + X ≤ y * dw + x ∧ y * dw + x < Y * dw + X + w) ↔ y = Y ∧ X ≤ x ∧ x < X + w := by
  constructor
  · rintro ⟨low, high⟩
    have wide : X + w ≤ dw := fits.resolve_left (by omega)
    have same : y = Y := by
      rcases Nat.lt_trichotomy y Y with above | same | below
      · have := Nat.mul_le_mul_right dw (show y + 1 ≤ Y from above)
        rw [Nat.succ_mul] at this
        omega
      · exact same
      · have := Nat.mul_le_mul_right dw (show Y + 1 ≤ y from below)
        rw [Nat.succ_mul] at this
        omega
    rw [same] at low high
    exact ⟨same, by omega, by omega⟩
  · rintro ⟨rfl, low, high⟩
    omega

theorem composeRect_yields (fits : r.Fits dst src) :
    Yields (build.composeRect dst src r replace) fun out => out.length = dst.length ∧
      ∀ x < r.dstSize.1, ∀ y < r.dstSize.2, picture .rgba r.dstSize.1 out x y =
        if r.Covers x y then
          mixed replace (picture .rgba r.srcSize.1 src (r.srcPos.1 + (x - r.dstPos.1))
            (r.srcPos.2 + (y - r.dstPos.2))) (picture .rgba r.dstSize.1 dst x y)
        else picture .rgba r.dstSize.1 dst x y := by
  obtain ⟨dst_size, src_size, dst_small, src_small, dst_rows, src_rows, dst_pos, src_pos⟩ := fits
  obtain ⟨⟨dw, dh⟩, ⟨sw, sh⟩, ⟨sx, sy⟩, ⟨dx, dy⟩, w, h⟩ := r
  dsimp only [Rect.Covers] at *
  unfold Build.composeRect
  dsimp only
  obtain ⟨cw, cw_eq⟩ : ∃ cw, min (min w (sw - sx)) (dw - dx) = cw := ⟨_, rfl⟩
  obtain ⟨ch, ch_eq⟩ : ∃ ch, min (min h (sh - sy)) (dh - dy) = ch := ⟨_, rfl⟩
  rw [cw_eq, ch_eq]
  refine Yields.mono (Yields.forRange_index (I := fun k out => out.length = dst.length ∧
    ∀ x < dw, ∀ y < dh, picture .rgba dw out x y =
      if (dx ≤ x ∧ x < dx + cw) ∧ dy ≤ y ∧ y < dy + k then
        mixed replace (picture .rgba sw src (sx + (x - dx)) (sy + (y - dy)))
          (picture .rgba dw dst x y)
      else picture .rgba dw dst x y) (Nat.zero_le ch) ⟨rfl, ?_⟩ ?_) ?_
  · intro x _ y _
    rw [if_neg (by omega)]
  · rintro k out - inside ⟨length, drawn⟩
    have sRows := Nat.mul_le_mul_right sw (show sy + k + 1 ≤ sh by omega)
    have dRows := Nat.mul_le_mul_right dw (show dy + k + 1 ≤ dh by omega)
    rw [Nat.succ_mul, Nat.mul_comm sh] at sRows
    rw [Nat.succ_mul, Nat.mul_comm dh] at dRows
    refine (Build.add_yields (by omega)).bind ?_
    rintro _ rfl
    refine (Build.mul_yields (by omega)).bind ?_
    rintro _ rfl
    refine (Build.add_yields (by omega)).bind ?_
    rintro _ rfl
    refine (Build.mul_yields (by omega)).bind ?_
    rintro _ rfl
    refine (Build.add_yields (by omega)).bind ?_
    rintro _ rfl
    refine (Build.mul_yields (by omega)).bind ?_
    rintro _ rfl
    refine (Build.add_yields (by omega)).bind ?_
    rintro _ rfl
    refine (Build.mul_yields (by omega)).bind ?_
    rintro _ rfl
    refine (composeRow_yields (by omega) (by omega) (fun col _ => by omega)
      (fun col _ => by omega)).mono ?_
    rintro out' ⟨length', row⟩
    refine ⟨length'.trans length, fun x x_lt y y_lt => ?_⟩
    have before := drawn x x_lt y y_lt
    have now := row (y * dw + x)
    have place := row_iff (y := y) (X := dx) (Y := dy + k) (w := cw) x_lt (by omega)
    change Pixel.ofRgba (piece 4 out' (y * dw + x)) = _
    change Pixel.ofRgba (piece 4 out (y * dw + x)) = _ at before
    rw [now, before]
    by_cases here : y = dy + k ∧ dx ≤ x ∧ x < dx + cw
    · have inner := place.mpr here
      obtain ⟨rfl, low, high⟩ := here
      rw [if_pos inner, if_neg (by omega), if_pos (by omega)]
      have source : (sy + k) * sw + sx + ((dy + k) * dw + x - ((dy + k) * dw + dx)) =
          (sy + (dy + k - dy)) * sw + (sx + (x - dx)) := by
        rw [Nat.add_sub_cancel_left, Nat.add_sub_add_left, Nat.add_assoc]
      rw [source]
      rfl
    · rw [if_neg (place.not.mpr here)]
      congr 1
      simp only [eq_iff_iff]
      omega
  · rintro out ⟨length, drawn⟩
    refine ⟨length, fun x x_lt y y_lt => ?_⟩
    rw [drawn x x_lt y y_lt]
    congr 1
    simp only [eq_iff_iff]
    omega

end Rectangle

/-! ### Blocks -/

end Graphics

def ImageFormat.bytesPerPixel : ImageFormat → Nat
  | .rgb => 3
  | _ => 4

theorem ImageFormat.bytesPerPixel_pos (format : ImageFormat) : 0 < format.bytesPerPixel := by
  cases format <;> decide

namespace Graphics

variable {format : ImageFormat} {width height : Nat} {data : Bytes}

/-- Image data of the length its dimensions call for, all of them in machine words. -/
structure SizedBlock (format : ImageFormat) (width height : Nat) (data : Bytes) : Prop where
  size : data.length = width * height * format.bytesPerPixel
  wide : width < 2 ^ 32
  high : height < 2 ^ 32
  small : data.length < 2 ^ 63

theorem index_lt {x y : Nat} (x_lt : x < width) (y_lt : y < height) :
    y * width + x < width * height := by
  have := Nat.mul_le_mul_right width (show y + 1 ≤ height from y_lt)
  rw [Nat.succ_mul, Nat.mul_comm height] at this
  omega

/-- Image data as RGBA is as large as it looks, and looks the same. -/
theorem SizedBlock.asRgba (sized : SizedBlock format width height data) :
    (asRgba format data).length = width * height * 4 ∧
      (asRgba format data).length ≤ 3 * 2 ^ 62 ∧
      ∀ x < width, ∀ y < height,
        picture .rgba width (Graphics.asRgba format data) x y = picture format width data x y := by
  obtain ⟨size, -, -, small⟩ := sized
  cases format with
  | rgba => exact ⟨size, show data.length ≤ _ by omega, fun _ _ _ _ => rfl⟩
  | png => exact ⟨size, show data.length ≤ _ by omega, fun _ _ _ _ => rfl⟩
  | rgb =>
    change data.length = width * height * 3 at size
    have pieces := chunksExact_eq_pieces (by decide) size
    have three : ∀ i ∈ List.range (width * height), (piece 3 data i).length = 3 := by
      intro i mem
      have := List.mem_range.mp mem
      exact length_piece (by omega)
    have four : ∀ i ∈ List.range (width * height), (piece 3 data i ++ [255]).length = 4 := by
      intro i mem
      rw [List.length_append, three i mem, List.length_singleton]
    have flat : Graphics.asRgba .rgb data =
        (List.range (width * height)).flatMap fun i => piece 3 data i ++ [255] := by
      rw [Graphics.asRgba, pieces, List.flatMap_map]
    have length : (Graphics.asRgba .rgb data).length = width * height * 4 := by
      rw [flat, length_flatMap_of four, List.length_range]
    refine ⟨length, by omega, fun x x_lt y y_lt => ?_⟩
    have inside := index_lt x_lt y_lt
    have pixel := piece_flatMap four (i := y * width + x) (by rwa [List.length_range])
    rw [List.getElem_range] at pixel
    change Pixel.ofRgba (piece 4 (Graphics.asRgba .rgb data) (y * width + x)) =
      Pixel.ofRgb (piece 3 data (y * width + x))
    rw [flat, pixel, Pixel.ofRgba_append (three _ (List.mem_range.mpr inside))]

end Graphics

end Posh.Term
