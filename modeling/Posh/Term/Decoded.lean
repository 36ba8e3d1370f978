import Posh.Term.Graphics

/-!
How much a graphics payload decodes to. Whatever way it comes, directly, from a file,
compressed or as a PNG, it does not exceed the storage quota.
-/

namespace Posh.Term

open Posh.Lib

/-! ### Base64 -/

namespace Base64

/-- Every eight bits out take eight of those in. -/
theorem length_decodeLoop {data out : Bytes} {acc bits : Nat} {done : Bool}
    (decoded : decodeLoop acc bits done data = some out) :
    8 * out.length ≤ bits + 6 * data.length := by
  induction data generalizing acc bits done out with
  | nil =>
    obtain rfl := Option.some.inj decoded
    exact Nat.zero_le _
  | cons b rest ih =>
    rw [decodeLoop] at decoded
    rw [List.length_cons]
    split at decoded
    · have := ih decoded
      omega
    · split at decoded
      · have := ih decoded
        omega
      · split at decoded
        · cases decoded
        · split at decoded
          · cases decoded
          · dsimp only at decoded
            split at decoded
            · obtain ⟨later, eq, rfl⟩ := Option.map_eq_some_iff.mp decoded
              have := ih eq
              rw [List.length_cons]
              omega
            · have := ih decoded
              omega

theorem length_decode {data out : Bytes} (decoded : decode data = some out) :
    8 * out.length ≤ 6 * data.length := by
  have := length_decodeLoop decoded
  omega

end Base64

/-! ### Inflate -/

namespace Inflate

variable {data out : Bytes} {limit : Nat}

theorem copyBack_length (len d : Nat) (out : Bytes) :
    Guarded False (copyBack len d out) (·.length = out.length + len) := by
  have loop (xs : List Nat) (out : Bytes) : Guarded False
      (forEach xs out fun _ out => do
        let at_ ← sub out.length d
        let b ← getAt out at_
        return out ++ [b]) (·.length = out.length + xs.length) := by
    induction xs generalizing out with
    | nil => exact .ok rfl
    | cons x xs ih =>
      refine Guarded.bind (p := (·.length = out.length + 1)) ?_ fun out' longer => ?_
      · refine (Guarded.trivial _).bind fun at_ _ => (Guarded.trivial _).bind fun b _ => .pure ?_
        exact List.length_append
      · refine (ih out').mono fun out'' length => ?_
        rw [length, longer, List.length_cons]
        omega
  have copied := loop (List.range' 0 (len - 0)) out
  rwa [List.length_range', Nat.sub_zero] at copied

/-- A block adds no more than the limit allows. -/
theorem inflateCompressed_fits (lit dist : Huffman) {budget pos : Nat} (fits : out.length ≤ limit) :
    Returns False (inflateCompressed data limit lit dist budget out pos) (·.1.length ≤ limit) := by
  induction budget generalizing out pos with
  | zero => exact .fail _
  | succ budget ih =>
    rw [inflateCompressed]
    -- what is in the tables does not matter
    generalize LENGTH_BASE = lengthBase, LENGTH_EXTRA = lengthExtra, DIST_BASE = distanceBase,
      DIST_EXTRA = distanceExtra
    refine Returns.skip fun (sym, pos) => ?_
    dsimp only
    split
    · split
      · exact .fail _
      · refine ih ?_
        rw [List.length_append, List.length_singleton]
        omega
    · split
      · exact .pure fits
      · split
        · refine Returns.skip fun lenBase => ?_
          refine Returns.skip fun lenExtra => ?_
          refine Returns.skip fun (extra, pos) => ?_
          refine Returns.skip fun (dsym, pos) => ?_
          dsimp only
          split
          · exact .fail _
          · refine Returns.skip fun distBase => ?_
            refine Returns.skip fun distExtra => ?_
            refine Returns.skip fun (extra, pos) => ?_
            dsimp only
            split
            · exact .fail _
            · split
              · exact .fail _
              · rename_i room
                refine (Returns.lift (copyBack_length _ _ _)).bind fun out' length => ih ?_
                omega
        · exact .fail _

theorem inflateBlocks_fits {budget pos : Nat} (fits : out.length ≤ limit) :
    Returns False (inflateBlocks data limit budget out pos) (·.1.length ≤ limit) := by
  induction budget generalizing out pos with
  | zero => exact .fail _
  | succ budget ih =>
    rw [inflateBlocks]
    generalize fixedLiteralLengths = lengths
    refine Returns.skip fun (bfinal, pos) => ?_
    refine Returns.skip fun (btype, pos) => ?_
    refine Returns.bind (p := (·.1.length ≤ limit)) ?_ fun (out, pos) fits => ?_
    · dsimp only
      split
      · refine Returns.skip fun (len, pos) => Returns.skip fun (nlen, pos) => ?_
        dsimp only
        split
        · exact .fail _
        · split
          · exact .fail _
          · split
            · refine .pure ?_
              rw [List.length_append]
              have := List.length_take_le len (data.drop (pos / 8))
              omega
            · exact .fail _
      · split
        · refine Returns.skip fun lit => ?_
          refine Returns.skip fun dist => ?_
          exact inflateCompressed_fits lit dist fits
        · split
          · refine Returns.skip fun (lit, dist, pos) => ?_
            exact inflateCompressed_fits lit dist fits
          · exact .fail _
    · dsimp only
      split
      · exact .pure fits
      · exact ih fits

theorem zlibDecompress_fits (data : Bytes) (limit : Nat) :
    Returns False (zlibDecompress data limit) (·.length ≤ limit) := by
  unfold zlibDecompress
  split
  · dsimp only
    split
    · exact .fail _
    · refine (inflateBlocks_fits (Nat.zero_le limit)).bind fun (out, used) fits => ?_
      refine Returns.skip fun want => Returns.skip fun sum => ?_
      split
      · exact .fail _
      · exact .pure fits
  · exact .fail _

end Inflate

/-! ### PNG -/

namespace Png

theorem parseIhdr_fits (data : Bytes) : Returns False (parseIhdr data) fun hdr =>
    hdr.width * hdr.height * 4 ≤ MAX_RGBA_BYTES := by
  unfold parseIhdr
  split
  · dsimp only
    split
    · exact .fail _
    · refine (Returns.lift (Guarded.mul.weaken False.elim)).bind fun area area_eq => ?_
      refine (Returns.lift (Guarded.mul.weaken False.elim)).bind fun bytes bytes_eq => ?_
      split
      · exact .fail _
      · split
        · exact .fail _
        · split
          · exact .fail _
          · refine .pure ?_
            rw [← area_eq.1, ← bytes_eq.1]
            omega
  · exact .fail _

/-- The header announces no more pixels than are taken. -/
def Chunks.Fits (chunks : Chunks) : Prop :=
  ∀ hdr, chunks.hdr = some hdr → hdr.width * hdr.height * 4 ≤ MAX_RGBA_BYTES

theorem readChunks_fits (rest : Bytes) {budget at_ : Nat} {chunks : Chunks} (fits : chunks.Fits) :
    Returns False (readChunks rest budget at_ chunks) Chunks.Fits := by
  induction budget generalizing at_ chunks with
  | zero => exact .fail _
  | succ budget ih =>
    rw [readChunks]
    refine Returns.skip fun len => Returns.skip fun kind => ?_
    refine Returns.skip fun body => Returns.skip fun crc => ?_
    split
    · exact .fail _
    · split
      · exact .pure fits
      · refine Returns.bind (p := Chunks.Fits) ?_ fun chunks fits => ?_
        · split
          · refine (parseIhdr_fits body).bind fun hdr small => .pure ?_
            rintro _ ⟨⟩
            exact small
          · split
            · exact .pure fits
            · split
              · exact .pure fits
              · split
                · exact .pure fits
                · exact .pure fits
        · split
          · exact .fail _
          · exact ih fits

theorem expandPalette_length (plte trns samples : Bytes) :
    Returns False (expandPalette plte trns samples) (·.length = 4 * samples.length) := by
  have loop {f : UInt8 → Bytes → Fallible PngError Bytes}
      (each : ∀ idx out, Returns False (f idx out) (·.length = out.length + 4)) (out : Bytes) :
      Returns False (Fallible.forEach samples out f) (·.length = out.length + 4 * samples.length) := by
    induction samples generalizing out with
    | nil => exact .pure rfl
    | cons idx samples ih =>
      refine (each idx out).bind fun out' longer => (ih out').mono fun rgba length => ?_
      rw [length, longer, List.length_cons]
      omega
  unfold expandPalette
  split
  · exact .fail _
  · refine (loop (fun idx out => ?_) []).mono fun rgba length => length.trans (Nat.zero_add _)
    split
    · exact .pure List.length_append
    · exact .fail _

/-- Each pixel takes four bytes. -/
theorem toRgba_fits (hdr : Header) {samples : Bytes} {pixels : Nat} (plte trns : Bytes)
    (fits : samples.length ≤ pixels * hdr.channels) :
    Returns False (toRgba hdr samples plte trns) (·.length ≤ 4 * pixels) := by
  have each {α : Type} (xs : List α) (f : α → Bytes) (four : ∀ px ∈ xs, (f px).length ≤ 4) :
      (xs.flatMap f).length ≤ 4 * xs.length := by
    induction xs with
    | nil => exact Nat.zero_le _
    | cons px xs ih =>
      have first := four px List.mem_cons_self
      have rest := ih fun px mem => four px (List.mem_cons_of_mem _ mem)
      rw [List.flatMap_cons, List.length_append, List.length_cons]
      omega
  have gray (f : UInt8 → Bytes) (four : ∀ g ∈ samples, (f g).length ≤ 4)
      (one : samples.length ≤ pixels * 1) : (samples.flatMap f).length ≤ 4 * pixels := by
    have := each samples f four
    omega
  have chunked (n : Nat) (f : Bytes → Bytes)
      (four : ∀ px ∈ chunksExact n samples, (f px).length ≤ 4) (some_ : 0 < n)
      (fits : samples.length ≤ pixels * n) :
      ((chunksExact n samples).flatMap f).length ≤ 4 * pixels := by
    have inside := length_chunksExact_mul_le n samples
    have few : (chunksExact n samples).length ≤ pixels :=
      Nat.le_of_mul_le_mul_right (inside.trans fits) some_
    have := each _ f four
    omega
  unfold Header.channels at fits
  unfold toRgba
  generalize hdr.color = color at fits ⊢
  obtain _ | _ | _ | _ | _ | color := color
  · exact .pure (gray _ (fun _ _ => Nat.le_refl 4) fits)
  · exact .pure (by change samples.length ≤ pixels * 4 at fits; omega)
  · refine .pure (chunked 3 _ (fun px mem => ?_) (by decide) fits)
    have full : px.length = 3 := by simpa using (List.mem_filter.mp mem).2
    rw [List.length_append, full]
    exact Nat.le_refl 4
  · refine (expandPalette_length plte trns samples).mono fun rgba length => ?_
    change samples.length ≤ pixels * 1 at fits
    omega
  · refine .pure (chunked 2 _ (fun px _ => ?_) (by decide) fits)
    split
    · exact Nat.le_refl 4
    · exact Nat.zero_le 4
  · exact .pure (by change samples.length ≤ pixels * 4 at fits; omega)

theorem unfilter_length (raw : Bytes) (width height bpp : Nat) :
    Returns False (unfilter raw width height bpp) (·.length ≤ width * height * bpp) := by
  unfold unfilter
  refine Returns.skip fun (raw, outAt) => .pure ?_
  have volume : width * height * bpp = height * (width * bpp) := by
    rw [Nat.mul_comm width, Nat.mul_assoc]
  rw [volume]
  exact List.length_take_le _ _

theorem decode_fits (data : Bytes) :
    Returns False (decode data) (·.rgba.length ≤ MAX_RGBA_BYTES) := by
  unfold decode
  split
  · exact .fail _
  · have none : Chunks.Fits {} := fun _ eq => nomatch eq
    refine (readChunks_fits _ none).bind fun chunks fits => ?_
    refine (Returns.ofOption fun hdr eq => eq).bind fun hdr announced => ?_
    refine Returns.skip fun stride => Returns.skip fun line => ?_
    refine Returns.skip fun expect => Returns.skip fun inflated => ?_
    split
    · exact .fail _
    · split
      · exact .fail _
      · refine (unfilter_length _ _ _ _).bind fun samples enough => ?_
        refine (toRgba_fits hdr _ _ enough).bind fun rgba four => .pure ?_
        have small := fits hdr announced
        change rgba.length ≤ MAX_RGBA_BYTES
        omega

end Png

/-! ### Transmissions -/

namespace GraphicsState

open Graphics

variable {files : List Char → Option Bytes} {cmd : Command}

/-- Three quarters of the longest payload are within the quota. -/
theorem decodedPayload_fits {payload data : Bytes} (short : payload.length ≤ MAX_PENDING_PAYLOAD)
    (decoded : Base64.decode payload = some data) : data.length ≤ QUOTA_BYTES := by
  have := Base64.length_decode decoded
  unfold MAX_PENDING_PAYLOAD at short
  unfold QUOTA_BYTES
  omega

theorem loadFile_fits {c : Prop} (payload : Bytes) :
    Returns c (loadFile files cmd payload) (·.length ≤ QUOTA_BYTES) := by
  unfold loadFile
  refine (Returns.ofOption fun _ _ => trivial).bind fun pathBytes _ => ?_
  refine (Returns.ofOption fun _ _ => trivial).bind fun path _ => ?_
  refine (Returns.ofOption fun _ _ => trivial).bind fun data _ => ?_
  dsimp only
  generalize (if cmd.fileSize ≠ 0 then _ else _) = data
  split
  · exact .fail _
  · rename_i small
    exact .pure (Nat.not_lt.mp small)

theorem transmitted_fits {c : Prop} {payload : Bytes}
    (short : payload.length ≤ MAX_PENDING_PAYLOAD) :
    Returns c (transmitted files cmd payload) (·.length ≤ QUOTA_BYTES) := by
  unfold transmitted
  split
  · exact .ofOption fun data decoded => decodedPayload_fits short decoded
  · exact .ofOption fun data decoded => decodedPayload_fits short decoded
  · exact loadFile_fits payload
  · exact loadFile_fits payload
  · exact .fail _
  · exact .fail _

theorem decompressed_fits {data : Bytes} (fits : data.length ≤ QUOTA_BYTES) :
    Returns False (decompressed cmd data) (·.length ≤ QUOTA_BYTES) := by
  unfold decompressed
  split
  · exact .pure fits
  · split
    · exact .fail _
    · refine (Returns.lift (Inflate.zlibDecompress_fits data QUOTA_BYTES).result).bind
        fun inflated fits => ?_
      split
      · exact .pure (fits _ rfl)
      · exact .fail _
      · exact .fail _

theorem pixels_fits {format : ImageFormat} {data : Bytes} (fits : data.length ≤ QUOTA_BYTES) :
    Returns False (pixels cmd format data) (·.2.length ≤ QUOTA_BYTES) := by
  unfold pixels
  split
  · refine (Returns.lift (Png.decode_fits data).result).bind fun decoded fits => ?_
    split
    · exact .pure (fits _ rfl)
    · exact .fail _
  · refine Returns.skip fun area => Returns.skip fun expect => ?_
    split
    · exact .fail _
    · exact .pure fits

/-- What is decoded of a payload is within the quota. -/
theorem decodeTransmission_fits {payload : Bytes} (short : payload.length ≤ MAX_PENDING_PAYLOAD) :
    Returns False (decodeTransmission files cmd payload) (·.2.2.length ≤ QUOTA_BYTES) := by
  unfold decodeTransmission
  refine (transmitted_fits short).bind fun data fits => ?_
  refine (decompressed_fits fits).bind fun data fits => Returns.skip fun format => ?_
  exact (pixels_fits fits).bind fun (cmd, data) fits => .pure fits

end GraphicsState

end Posh.Term
