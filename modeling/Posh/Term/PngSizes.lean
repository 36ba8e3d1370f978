import Posh.Lib.Pieces
import Posh.Lib.Spared
import Posh.Term.Builds
import Posh.Term.Filters
import Posh.Term.Robust

/-!
The size of a decoded PNG, in either build. A release build lets dimensions through whose
product does not fit a machine word. It then goes through the scanlines with the full
dimensions, and there are never enough bytes for these: what is inflated is at most some
thousand times what was received. So an image that is decoded has the four bytes for each
pixel that its dimensions call for, and is within the bound of the decoder.

What is proved of both builds is proved for any kind of bad panic: where the build is
strict about it, the sums and products have to fit and the slices have to be there.
-/

namespace Posh.Term

open Posh.Lib

namespace Build

variable {build : Build} {bits a b : Nat} {bad : Panic → Prop}

/-- A subtraction that leaves its type; in a release build nothing else overflows. -/
def Underflow (build : Build) (e : Panic) : Prop :=
  build = .release ∧ e = .overflow

/-- A slice that is not there is bad, or a sum that the build finds not to fit. -/
def Strict (build : Build) (bad : Panic → Prop) : Prop :=
  bad .index ∨ build = .debug ∧ bad .overflow

theorem underflow_lax : ¬ build.Strict build.Underflow := by
  rintro (index | ⟨rfl, overflow⟩)
  · cases index.2
  · cases overflow.1

theorem index_safe (lax : ¬ build.Strict bad) : ¬ bad .index :=
  fun index => lax (.inl index)

theorem add_spared (fits : build.Strict bad → a + b < 2 ^ bits) :
    Spared bad (build.add bits a b) (· = (a + b) % 2 ^ bits) := by
  cases build with
  | release => exact .ok rfl
  | debug =>
    unfold add Lib.add
    dsimp only
    split
    · exact .ok (Nat.mod_eq_of_lt ‹_›).symm
    · rename_i large
      exact fun overflow => large (fits (.inr ⟨rfl, overflow⟩))

theorem mul_spared (fits : build.Strict bad → a * b < 2 ^ bits) :
    Spared bad (build.mul bits a b) (· = a * b % 2 ^ bits) := by
  cases build with
  | release => exact .ok rfl
  | debug =>
    unfold mul Lib.mul
    dsimp only
    split
    · exact .ok (Nat.mod_eq_of_lt ‹_›).symm
    · rename_i large
      exact fun overflow => large (fits (.inr ⟨rfl, overflow⟩))

end Build

namespace Png

variable {build : Build} {bad : Panic → Prop}

/-! ### Scanlines -/

theorem copyWithin_spared (safe : ¬ bad .index) (raw : Bytes)
    (lo hi dest : Nat) : Spared bad (copyWithin raw lo hi dest) fun out =>
      out.length = raw.length ∧ hi ≤ raw.length := by
  unfold copyWithin
  refine (Spared.slice safe raw lo hi).bind fun part ⟨_, _, inside⟩ => ?_
  split
  · refine .pure ⟨?_, inside⟩
    simp only [List.length_append, List.length_take, List.length_drop]
    omega
  · exact safe

/-- A row is there in full, or the decoder stops. -/
theorem unfilterRow_spared (safe : ¬ bad .index) (stride bpp row : Nat)
    (state : Bytes × Nat) : SparedResult bad (unfilterRow stride bpp row state) fun r =>
      r.1.length = state.1.length ∧ (row + 1) * (stride + 1) ≤ state.1.length := by
  obtain ⟨raw, outAt⟩ := state
  unfold unfilterRow
  dsimp only
  refine (SparedResult.lift (Spared.getAt safe raw _)).bind fun filter _ => ?_
  refine (SparedResult.lift (copyWithin_spared safe raw _ _ _)).bind ?_
  rintro raw' ⟨length, inside⟩
  refine SparedResult.bind (p := fun out => out.length = raw'.length) ?_ ?_
  · refine SparedResult.forRange (I := fun _ (out : Bytes) => out.length = raw'.length) rfl ?_
    intro i _ out same
    have byte (given : Prop) [Decidable given] (k : Nat) :
        Spared bad (if given then getAt out k else pure (0 : UInt8)) fun _ => True := by
      split
      · exact Spared.getAt safe out k
      · exact .pure trivial
    refine (SparedResult.lift (byte _ _)).bind fun left _ => ?_
    refine (SparedResult.lift (byte _ _)).bind fun up _ => ?_
    refine (SparedResult.lift (byte _ _)).bind fun upLeft _ => ?_
    refine (SparedResult.lift (Spared.getAt safe out _)).bind fun x _ => ?_
    refine (SparedResult.ofOption fun value _ => trivial).bind fun value _ => ?_
    exact (SparedResult.lift (Spared.setAt safe out _ value)).mono fun out' length' =>
      length'.trans same
  · refine fun out same => .pure ⟨same.trans length, ?_⟩
    rw [Nat.succ_mul]
    omega

theorem unfilter_spared (safe : ¬ bad .index) (raw : Bytes)
    (width height bpp : Nat) : SparedResult bad (unfilter raw width height bpp) fun samples =>
      samples.length = height * (width * bpp) ∧
        (0 < height → height * (width * bpp + 1) ≤ raw.length) := by
  unfold unfilter
  refine SparedResult.bind (p := fun r : Bytes × Nat => r.1.length = raw.length ∧
    height * (width * bpp + 1) ≤ raw.length) ?_ ?_
  · refine SparedResult.forRange (I := fun row (r : Bytes × Nat) => r.1.length = raw.length ∧
      row * (width * bpp + 1) ≤ raw.length) ⟨rfl, by omega⟩ ?_
    rintro row - state ⟨length, -⟩
    rw [← length]
    exact unfilterRow_spared safe _ _ _ _
  · rintro ⟨out, outAt⟩ ⟨length, enough⟩
    refine .pure ⟨?_, fun _ => enough⟩
    rw [Nat.mul_succ] at enough
    rw [List.length_take, Nat.min_eq_left (by dsimp only at length; omega)]

/-! ### Pixels -/

theorem expandPalette_returns (plte trns samples : Bytes) :
    Returns True (expandPalette plte trns samples) (·.length = samples.length * 4) := by
  unfold expandPalette
  split
  · exact .fail _
  · refine Returns.forEach (I := fun before (out : Bytes) => out.length = before.length * 4) rfl ?_
    intro before idx _ out _ length
    split
    · refine .pure ?_
      simp only [List.length_append, List.length_cons, List.length_nil]
      omega
    · exact .fail _

/-- Each pixel takes four bytes. -/
theorem toRgba_length (hdr : Header) {samples : Bytes} {pixels : Nat} (plte trns : Bytes)
    (size : samples.length = pixels * hdr.channels) :
    Returns True (toRgba hdr samples plte trns) (·.length = pixels * 4) := by
  have chunked (n : Nat) (some_ : 0 < n) (f : Bytes → Bytes)
      (four : ∀ px, px.length = n → (f px).length = 4) (size : samples.length = pixels * n) :
      ((chunksExact n samples).flatMap f).length = pixels * 4 := by
    rw [chunksExact_eq_pieces some_ size, List.flatMap_map, length_flatMap_of (n := 4),
      List.length_range]
    intro i mem
    have inside := Nat.mul_le_mul_right n (show i + 1 ≤ pixels from List.mem_range.mp mem)
    exact four _ (length_piece (by omega))
  unfold Header.channels at size
  unfold toRgba
  generalize hdr.color = color at size ⊢
  obtain _ | _ | _ | _ | _ | color := color
  · refine .pure ((length_flatMap_of (n := 4) fun g _ => rfl).trans ?_)
    change samples.length = pixels * 1 at size
    omega
  · exact .pure size
  · refine .pure (chunked 3 (by decide) _ (fun px three => ?_) size)
    rw [List.length_append, three]
    rfl
  · refine (expandPalette_returns plte trns samples).mono fun rgba length => ?_
    change samples.length = pixels * 1 at size
    omega
  · refine .pure (chunked 2 (by decide) _ (fun px two => ?_) size)
    rcases px with _ | ⟨g, _ | ⟨a, _ | _⟩⟩ <;> cases two
    rfl
  · exact .pure size

/-! ### Files -/

/-- The header names dimensions of machine words, whose product passes the bound, perhaps
because it has wrapped. -/
structure Header.Passed (hdr : Header) : Prop where
  width_pos : 0 < hdr.width
  height_pos : 0 < hdr.height
  width_lt : hdr.width < 2 ^ 32
  height_lt : hdr.height < 2 ^ 32
  bound : hdr.width * hdr.height * 4 % 2 ^ 64 ≤ MAX_RGBA_BYTES

/-- The product has not wrapped. -/
def Header.Measured (hdr : Header) : Prop :=
  hdr.width * hdr.height * 4 < 2 ^ 64

theorem ofBe32_lt (b0 b1 b2 b3 : UInt8) : ofBe32 b0 b1 b2 b3 < 2 ^ 32 := by
  have := b0.toNat_lt
  have := b1.toNat_lt
  have := b2.toNat_lt
  have := b3.toNat_lt
  unfold ofBe32
  omega

/-- A header whose pixels take more bytes than a machine word counts. -/
def Vast (body : Bytes) : Prop :=
  match body with
  | [w0, w1, w2, w3, h0, h1, h2, h3, _, _, _, _, _] =>
      2 ^ 64 ≤ ofBe32 w0 w1 w2 w3 * ofBe32 h0 h1 h2 h3 * 4
  | _ => False

theorem parseIhdr_passed {data : Bytes} (fits : build.Strict bad → ¬ Vast data) :
    SparedResult bad (build.parseIhdr data) fun hdr =>
      hdr.Passed ∧ (build.Strict bad → hdr.Measured) := by
  unfold Build.parseIhdr
  split
  · rename_i w0 w1 w2 w3 h0 h1 h2 h3 _ _ _ _ _
    dsimp only
    split
    · exact .fail _
    · have width_lt := ofBe32_lt w0 w1 w2 w3
      have height_lt := ofBe32_lt h0 h1 h2 h3
      have area : ofBe32 w0 w1 w2 w3 * ofBe32 h0 h1 h2 h3 < 2 ^ 64 :=
        (Nat.mul_lt_mul'' width_lt height_lt).trans_eq (by decide)
      have measured (strict : build.Strict bad) :
          ofBe32 w0 w1 w2 w3 * ofBe32 h0 h1 h2 h3 * 4 < 2 ^ 64 :=
        Nat.not_le.mp (fits strict)
      refine (SparedResult.lift (Build.mul_spared fun _ => area)).bind ?_
      rintro _ rfl
      rw [Nat.mod_eq_of_lt area]
      refine (SparedResult.lift (Build.mul_spared measured)).bind ?_
      rintro _ rfl
      split
      · exact .fail _
      · split
        · exact .fail _
        · split
          · exact .fail _
          · exact .pure ⟨⟨by dsimp only; omega, by dsimp only; omega, width_lt, height_lt,
              by dsimp only; omega⟩, measured⟩
  · exact .fail _

/-! ### Chunks -/

/-- A chunk of `len` bytes whose checksum holds. -/
structure ChunkAt (rest : Bytes) (at_ len : Nat) (kind body : Bytes) : Prop where
  length : Inflate.be32 rest at_ = some len
  named : part rest (at_ + 4) 4 = some kind
  filled : part rest (at_ + 8) len = some body
  intact : Inflate.be32 rest (at_ + 8 + len) = some (crc32 (kind ++ body))

/-- The decoder comes to `at_`, with or without a header that it has accepted. -/
inductive ComesTo (build : Build) (rest : Bytes) : (at_ : Nat) → (accepted : Bool) → Prop where
  | start : ComesTo build rest 0 false
  | header {at_ len : Nat} {accepted : Bool} {body : Bytes} {hdr : Header}
      (before : ComesTo build rest at_ accepted)
      (chunk : ChunkAt rest at_ len (toUtf8 "IHDR".toList) body)
      (parsed : build.parseIhdr body = .ok hdr) : ComesTo build rest (at_ + 12 + len) true
  | other {at_ len : Nat} {kind body : Bytes} (before : ComesTo build rest at_ true)
      (chunk : ChunkAt rest at_ len kind body) (inner : kind ≠ toUtf8 "IHDR".toList)
      (more : kind ≠ toUtf8 "IEND".toList) : ComesTo build rest (at_ + 12 + len) true

/-- No header that the decoder comes to is too large to be measured. -/
def HeadersFit (build : Build) (rest : Bytes) : Prop :=
  ∀ at_ accepted len body, ComesTo build rest at_ accepted →
    ChunkAt rest at_ len (toUtf8 "IHDR".toList) body → ¬ Vast body

/-- The header among the chunks, if there is one, was measured. -/
def Chunks.Measured (chunks : Chunks) : Prop :=
  ∀ hdr, chunks.hdr = some hdr → hdr.Measured

/-- The chunks before `at_`. -/
structure Chunks.Read (chunks : Chunks) (at_ : Nat) : Prop where
  header : ∀ hdr, chunks.hdr = some hdr → hdr.Passed
  short : chunks.idat.length ≤ at_

theorem length_part {rest body : Bytes} {lo len : Nat} (found : part rest lo len = some body) :
    body.length = len ∧ lo + len ≤ rest.length := by
  unfold part at found
  split at found
  · obtain rfl := Option.some.inj found
    rw [List.length_take, List.length_drop]
    omega
  · cases found

theorem readChunks_read {rest : Bytes} (fits : build.Strict bad → HeadersFit build rest)
    {budget at_ : Nat} {chunks : Chunks} (read : chunks.Read at_)
    (measured : build.Strict bad → chunks.Measured)
    (comes : ComesTo build rest at_ chunks.hdr.isSome) :
    SparedResult bad (build.readChunks rest budget at_ chunks) fun chunks =>
      chunks.Read rest.length ∧ (build.Strict bad → chunks.Measured) := by
  induction budget generalizing at_ chunks with
  | zero => exact .fail _
  | succ budget ih =>
    rw [Build.readChunks]
    refine (SparedResult.ofOption fun len found => found).bind fun len length => ?_
    refine (SparedResult.ofOption fun kind found => found).bind fun kind name => ?_
    refine (SparedResult.ofOption fun body found => found).bind fun body there => ?_
    refine (SparedResult.ofOption fun crc found => found).bind fun crc sum => ?_
    have inside := (length_part name).2
    have size := (length_part there).1
    have short := read.short
    split
    · exact .fail _
    · rename_i intact
      have chunk : ChunkAt rest at_ len kind body := ⟨length, name, there, not_not.mp intact ▸ sum⟩
      split
      · exact .pure ⟨⟨read.header, by omega⟩, measured⟩
      · rename_i more
        refine SparedResult.bind (p := fun chunks' => chunks'.Read (at_ + 12 + len) ∧
          (build.Strict bad → chunks'.Measured) ∧
          (chunks'.hdr.isSome = true → ComesTo build rest (at_ + 12 + len) true)) ?_ ?_
        · have later : chunks.Read (at_ + 12 + len) := ⟨read.header, by omega⟩
          have passes (inner : kind ≠ toUtf8 "IHDR".toList) (accepted : chunks.hdr.isSome = true) :
              ComesTo build rest (at_ + 12 + len) true :=
            .other (accepted ▸ comes) chunk inner more
          split
          · rename_i header
            rw [header] at chunk
            refine (parseIhdr_passed fun strict => fits strict _ _ _ _ comes chunk).and_eq.bind ?_
            rintro hdr ⟨⟨passed, whole⟩, parsed⟩
            refine .pure ⟨⟨?_, later.short⟩, fun strict => ?_, fun _ => .header comes chunk parsed⟩
            · rintro _ ⟨⟩
              exact passed
            · rintro _ ⟨⟩
              exact whole strict
          · rename_i inner
            split
            · refine .pure ⟨⟨read.header, ?_⟩, measured, passes inner⟩
              rw [List.length_append]
              omega
            · split
              · exact .pure ⟨{ later with }, measured, passes inner⟩
              · split
                · exact .pure ⟨{ later with }, measured, passes inner⟩
                · exact .pure ⟨later, measured, passes inner⟩
        · rintro chunks' ⟨read', measured', comes'⟩
          split
          · exact .fail _
          · rename_i accepted
            rw [Option.isNone_iff_eq_none, ← ne_eq, Option.ne_none_iff_isSome] at accepted
            exact ih read' measured' (accepted.symm ▸ comes' accepted)

/-! ### Images -/

/-- What a decoded image takes, by its dimensions and within the bound. -/
structure SizedPng (png : DecodedPng) : Prop where
  width_pos : 0 < png.width
  height_pos : 0 < png.height
  width_lt : png.width < 2 ^ 32
  height_lt : png.height < 2 ^ 32
  size : png.rgba.length = png.width * png.height * 4
  fits : png.rgba.length ≤ MAX_RGBA_BYTES

theorem one_le_channels (hdr : Header) : 1 ≤ hdr.channels := by
  unfold Header.channels
  split <;> decide

theorem channels_le_four (hdr : Header) : hdr.channels ≤ 4 := by
  unfold Header.channels
  split <;> decide

/-- The scanlines of a header that was measured are measured as well. -/
theorem Header.Passed.scanlines {hdr : Header} (passed : hdr.Passed) (measured : hdr.Measured) :
    hdr.height * (1 + hdr.width * hdr.channels) < 2 ^ 64 := by
  have bound := passed.bound
  have height_lt := passed.height_lt
  rw [Nat.mod_eq_of_lt measured] at bound
  have samples := Nat.mul_le_mul_left (hdr.width * hdr.height) (channels_le_four hdr)
  rw [Nat.mul_add, Nat.mul_one, ← Nat.mul_assoc, Nat.mul_comm hdr.height hdr.width]
  unfold MAX_RGBA_BYTES at bound
  omega

/-- An image has as many pixels as scanlines of its width were inflated, which is far fewer
than would make a product of two dimensions wrap. -/
theorem decode_sized {data : Bytes} (small : data.length < 2 ^ 40)
    (fits : build.Strict bad → SIGNATURE.isPrefixOf data = true →
      HeadersFit build (data.drop SIGNATURE.length)) :
    SparedResult bad (build.decode data) SizedPng := by
  unfold Build.decode
  split
  · exact .fail _
  · rename_i signed
    rw [Bool.not_eq_true', Bool.not_eq_false] at signed
    dsimp only
    have start : Chunks.Read {} 0 := ⟨nofun, Nat.le_refl _⟩
    refine (readChunks_read (fun strict => fits strict signed) start (fun _ => nofun) .start).bind ?_
    rintro chunks ⟨read, measured⟩
    have short := read.short
    rw [List.length_drop] at short
    refine (SparedResult.ofOption fun hdr eq => eq).bind fun hdr eq => ?_
    have passed := read.header hdr eq
    have scanlines (strict : build.Strict bad) := passed.scanlines (measured strict hdr eq)
    have width_lt := passed.width_lt
    have few := channels_le_four hdr
    have stride_lt : hdr.width * hdr.channels < 2 ^ 63 :=
      (Nat.mul_le_mul width_lt.le few).trans_lt (by decide)
    refine (SparedResult.lift (Build.mul_spared fun _ => by omega)).bind ?_
    rintro _ rfl
    rw [Nat.mod_eq_of_lt (by omega)]
    refine (SparedResult.lift (Build.add_spared fun _ => by omega)).bind ?_
    rintro _ rfl
    rw [Nat.mod_eq_of_lt (by omega)]
    refine (SparedResult.lift (Build.mul_spared scanlines)).bind ?_
    rintro expect expect_eq
    have inflates : Returns True (Inflate.zlibDecompress chunks.idat expect)
        (·.length ≤ 4096 * chunks.idat.length) :=
      (Inflate.zlibDecompress_mirrors (by omega) (Nat.lt_succ_self _)).returns.mono
        fun out sound => sound.1.2
    refine (SparedResult.lift (SparedResult.of_returns inflates).result).bind fun inflated few => ?_
    split
    · exact .fail _
    · rename_i raw
      have few : raw.length ≤ 4096 * chunks.idat.length := few raw rfl
      split
      · exact .fail _
      · rename_i all
        rw [not_not] at all
        refine SparedResult.bind (p := fun samples =>
          samples.length = hdr.height * (hdr.width * hdr.channels) ∧
            hdr.height * (hdr.width * hdr.channels + 1) ≤ raw.length) ?_ ?_
        · by_cases strict : build.Strict bad
          · rw [Nat.mod_eq_of_lt (scanlines strict)] at expect_eq
            have whole := all.trans expect_eq
            refine (SparedResult.of_returns (unfilter_guarded whole)).mono fun samples size => ?_
            exact ⟨size, (Nat.add_comm 1 _ ▸ whole).ge⟩
          · refine (unfilter_spared (Build.index_safe strict) raw _ _ _).mono ?_
            exact fun samples size => ⟨size.1, size.2 passed.height_pos⟩
        · rintro samples ⟨size, enough⟩
          have volume : hdr.height * (hdr.width * hdr.channels) =
              hdr.width * hdr.height * hdr.channels := by
            rw [← Nat.mul_assoc, Nat.mul_comm hdr.height]
          rw [volume] at size
          rw [Nat.mul_succ, volume] at enough
          refine (SparedResult.of_returns (toRgba_length hdr _ _ size)).bind fun rgba length => ?_
          have area := Nat.mul_le_mul_left (hdr.width * hdr.height) (one_le_channels hdr)
          have bound := passed.bound
          refine .pure ⟨passed.width_pos, passed.height_pos, passed.width_lt, passed.height_lt,
            length, ?_⟩
          dsimp only
          unfold MAX_RGBA_BYTES at bound ⊢
          omega

end Png

end Posh.Term
