import Mathlib.Algebra.Order.BigOperators.Group.List
import Posh.Term.ComposedFrames
import Posh.Term.PngSizes

/-!
The byte count of the graphics store, in either build. After every command it is the sum
of what is stored and within the quota, and nothing is ever subtracted from it that had
not been added: images that leave, frames that are replaced and frames that are composed
anew are all part of the sum.
-/

namespace Posh.Term

open Posh.Lib

namespace GraphicsState

open Graphics

variable {g g' : GraphicsState} {cmd : Command} {id : Nat} {I : Image → Prop} {F : Frame → Prop}

/-- The dimensions and offsets of a command are of 32 bits. -/
structure Typed (cmd : Command) : Prop where
  width_lt : cmd.width < 2 ^ 32
  height_lt : cmd.height < 2 ^ 32
  srcX_lt : cmd.srcX < 2 ^ 32

/-- What is stored: images that satisfy `I`, with frames that satisfy `F`, and perhaps the
command of a transmission that has begun. -/
structure Holds (I : Image → Prop) (F : Frame → Prop) (g : GraphicsState) : Prop where
  images : ∀ id img, g.images.lookup id = some img → I img
  frames : ∀ id frames, g.frames.lookup id = some frames → ∀ f ∈ frames, F f
  waiting : ∀ pending, g.pending = some pending → Typed pending.cmd

/-- Everything stored is counted, and the count is within the quota. -/
structure Ledger (I : Image → Prop) (F : Frame → Prop) (g : GraphicsState) : Prop where
  consistent : g.Consistent
  within : g.totalBytes ≤ QUOTA_BYTES
  holds : g.Holds I F

/-! ### What is counted -/

theorem Consistent.length_image_le (h : g.Consistent) {img : Image}
    (found : g.images.lookup id = some img) : img.data.length ≤ g.totalBytes := by
  have erased := h.distinct.total_erase (·.data.length) id
  have counted := h.counted
  rw [found, Option.map_some, Option.getD_some] at erased
  omega

theorem framesLength_getD (frames : Option (List Frame)) :
    framesLength (frames.getD []) = (frames.map framesLength).getD 0 := by
  cases frames <;> rfl

theorem Consistent.length_frames_le (h : g.Consistent) (id : Nat) :
    framesLength ((g.frames.lookup id).getD []) ≤ g.totalBytes := by
  have erased := h.distinctFrames.total_erase framesLength id
  have counted := h.counted
  rw [framesLength_getD]
  omega

theorem length_frame_le {frames : List Frame} {f : Frame} (mem : f ∈ frames) :
    f.data.length ≤ framesLength frames :=
  List.le_sum_of_mem (List.mem_map_of_mem mem)

/-- Nothing is counted where no image is stored. -/
theorem Consistent.empty (h : g.Consistent) (none_ : g.images = []) : g.totalBytes = 0 := by
  have frames : g.frames = [] := by
    refine List.eq_nil_iff_forall_not_mem.mpr fun e mem => ?_
    have stored := h.framed _ (AssocMap.isSome_lookup_of_mem mem)
    unfold Stores at stored
    rw [none_] at stored
    cases stored
  rw [h.counted, none_, frames]
  rfl

/-! ### Images leave -/

theorem subFrames_yields (frames : List Frame) {total : Nat} (inside : framesLength frames ≤ total) :
    Yields (forEach frames total fun frame total => sub total frame.data.length)
      (· ≤ total) := by
  induction frames generalizing total with
  | nil => exact .ok (Nat.le_refl _)
  | cons f frames ih =>
    rw [framesLength, List.map_cons, List.sum_cons] at inside
    refine (Yields.sub (by omega)).bind ?_
    rintro _ rfl
    refine (ih ?_).mono fun rest le => le.trans (Nat.sub_le _ _)
    unfold framesLength
    omega

/-- Whatever image goes, what is taken off the count with it had been counted. -/
theorem removeImageData_yields (h : g.Consistent) (id : Nat) :
    Yields (g.removeImageData id) fun g' => g'.Consistent ∧
      g' = { g with
        images := g.images.erase id, frames := g.frames.erase id,
        animations := g.animations.erase id, totalBytes := g'.totalBytes } := by
  have images_sum := h.distinct.total_erase (·.data.length) id
  have frames_sum := h.distinctFrames.total_erase framesLength id
  have counted := h.counted
  rw [← framesLength_getD] at frames_sum
  have returns : Yields (g.removeImageData id) fun _ => True := by
    unfold removeImageData
    refine Yields.bind (p := fun total => framesLength ((g.frames.lookup id).getD []) ≤ total) ?_ ?_
    · cases found : g.images.lookup id with
      | none => exact .pure (by omega)
      | some img =>
        rw [found, Option.map_some, Option.getD_some] at images_sum
        refine (Yields.sub (by omega)).mono ?_
        rintro _ rfl
        omega
    · intro total inside
      exact (subFrames_yields _ inside).bind fun total' _ => .pure trivial
  exact (Guarded.and_yields returns (removeImageData_spec h id)).mono fun _ both => both.2

theorem Holds.erase (h : g.Holds I F) {id : Nat}
    (images : g'.images = g.images.erase id) (frames : g'.frames = g.frames.erase id)
    (pending : g'.pending = g.pending) : g'.Holds I F := by
  refine ⟨?_, ?_, fun p held => h.waiting p (pending ▸ held)⟩
  · intro k img found
    rw [images, AssocMap.lookup_erase] at found
    split at found
    · cases found
    · exact h.images k img found
  · intro k fs found
    rw [frames, AssocMap.lookup_erase] at found
    split at found
    · cases found
    · exact h.frames k fs found

theorem removeImageData_ledger (h : g.Ledger I F) (id : Nat) :
    Yields (g.removeImageData id) fun g' => g'.Ledger I F ∧
      g' = { g with
        images := g.images.erase id, frames := g.frames.erase id,
        animations := g.animations.erase id, totalBytes := g'.totalBytes } := by
  refine (removeImageData_yields h.consistent id).mono fun g' ⟨consistent, same⟩ => ⟨?_, same⟩
  have images : g'.images = g.images.erase id := by rw [same]
  have frames : g'.frames = g.frames.erase id := by rw [same]
  have pending : g'.pending = g.pending := by rw [same]
  refine ⟨consistent, ?_, h.holds.erase images frames pending⟩
  have images_sum := h.consistent.distinct.total_erase (·.data.length) id
  have frames_sum := h.consistent.distinctFrames.total_erase framesLength id
  have before := h.consistent.counted
  have after := consistent.counted
  have within := h.within
  rw [images, frames] at after
  omega

/-! ### The quota -/

/-- An image once found to be the oldest is only given up for another one. -/
theorem isSome_oldest (images : List Image) (best : Image) : (images.foldl
    (fun best i => match best with
      | some b => if i.seq < b.seq then some i else best
      | none => some i) (some best)).isSome = true := by
  induction images generalizing best with
  | nil => rfl
  | cons i images ih =>
    rw [List.foldl_cons]
    dsimp only
    split
    · exact ih i
    · exact ih best

theorem oldestImage_eq_none (none_ : g.oldestImage = none) : g.images = [] := by
  unfold oldestImage AssocMap.values at none_
  cases images : g.images with
  | nil => rfl
  | cons e rest =>
    rw [images, List.map_cons, List.foldl_cons] at none_
    have found := isSome_oldest (rest.map (·.2)) e.2
    cases found.symm.trans (congrArg Option.isSome none_)

/-- As many images leave as there are, at most, and without images nothing is counted. -/
theorem enforceQuotaLoop_yields {budget : Nat} (few : g.images.length ≤ budget)
    (h : g.Consistent) (holds : g.Holds I F) :
    Yields (enforceQuotaLoop budget g) (Ledger I F) := by
  induction budget generalizing g with
  | zero =>
    have zero := h.empty (List.length_eq_zero_iff.mp (Nat.le_zero.mp few))
    exact .pure ⟨h, by omega, holds⟩
  | succ budget ih =>
    rw [enforceQuotaLoop]
    split
    · split
      · rename_i none_
        have zero := h.empty (oldestImage_eq_none none_)
        exact .pure ⟨h, by omega, holds⟩
      · rename_i oldest found
        have stored := h.lookup_of_values (oldestImage_spec found).1
        refine (removeImageData_yields h oldest.id).bind ?_
        rintro g₁ ⟨consistent, same⟩
        have images : g₁.images = g.images.erase oldest.id := by rw [same]
        have frames : g₁.frames = g.frames.erase oldest.id := by rw [same]
        have fewer : g₁.images.length < g.images.length := by
          rw [images, AssocMap.erase, List.length_filter_lt_length_iff_exists]
          exact ⟨_, AssocMap.mem_of_lookup stored, by simp⟩
        have pending : g₁.pending = g.pending := by rw [same]
        refine ih (by dsimp only; omega) { consistent with } ?_
        exact holds.erase images frames pending
    · rename_i within
      exact .pure ⟨h, Nat.not_lt.mp within, holds⟩

theorem enforceQuota_yields (h : g.Consistent) (holds : g.Holds I F) :
    Yields g.enforceQuota (Ledger I F) :=
  enforceQuotaLoop_yields (Nat.le_refl _) h holds

/-! ### Images and frames arrive -/

theorem storeImage_yields (h : g.Ledger I F) {format : ImageFormat} {data : Bytes}
    (fits : data.length ≤ QUOTA_BYTES)
    (new : ∀ seq, I ⟨cmd.id, cmd.number, format, cmd.width, cmd.height, data, seq⟩) :
    Yields (g.storeImage cmd format data) (Ledger I F) := by
  unfold storeImage
  refine (removeImageData_ledger h cmd.id).bind fun g₁ ⟨h₁, same⟩ => ?_
  have within := h₁.within
  refine (Yields.add (by unfold QUOTA_BYTES at *; omega)).bind ?_
  rintro _ rfl
  have gone : g₁.images.lookup cmd.id = none := by
    rw [same, AssocMap.lookup_erase, if_pos rfl]
  refine enforceQuota_yields (h₁.consistent.insertImage
    ⟨cmd.id, cmd.number, format, cmd.width, cmd.height, data, g₁.nextSeq + 1⟩ gone rfl rfl)
    ⟨fun k img found => ?_, h₁.holds.frames, h₁.holds.waiting⟩
  dsimp only at found
  rw [AssocMap.lookup_insert] at found
  split at found
  · obtain rfl := Option.some.inj found
    exact new _
  · exact h₁.holds.images k img found

/-- Frames of a stored image are replaced, and the quota applies. -/
theorem setFrames_yields (h : g.Ledger I F) {id total : Nat} (stored : g.Stores id)
    {frames : List Frame}
    (sum : total + framesLength ((g.frames.lookup id).getD []) = g.totalBytes + framesLength frames)
    (each : ∀ f ∈ frames, F f) :
    Yields { g with frames := g.frames.insert id frames, totalBytes := total }.enforceQuota
      (Ledger I F) := by
  refine enforceQuota_yields (h.consistent.setFrames stored sum)
    ⟨h.holds.images, ?_, h.holds.waiting⟩
  intro k fs found
  dsimp only at found
  rw [AssocMap.lookup_insert] at found
  split at found
  · obtain rfl := Option.some.inj found
    exact each
  · exact h.holds.frames k fs found

theorem mem_updateFrame {number : Nat} {f : Frame → Frame} {frames : List Frame} {frame : Frame}
    (mem : frame ∈ updateFrame number f frames) :
    frame ∈ frames ∨ ∃ old ∈ frames, frame = f old := by
  induction frames with
  | nil => cases mem
  | cons first frames ih =>
    rw [updateFrame] at mem
    split at mem
    · rcases List.mem_cons.mp mem with rfl | later
      · exact .inr ⟨first, List.mem_cons_self, rfl⟩
      · exact .inl (List.mem_cons_of_mem _ later)
    · rcases List.mem_cons.mp mem with rfl | later
      · exact .inl List.mem_cons_self
      · rcases ih later with old | ⟨old, mem', eq⟩
        · exact .inl (List.mem_cons_of_mem _ old)
        · exact .inr ⟨old, List.mem_cons_of_mem _ mem', eq⟩

theorem Holds.getD (h : g.Holds I F) (id : Nat) : ∀ f ∈ (g.frames.lookup id).getD [], F f := by
  intro f mem
  cases found : g.frames.lookup id with
  | none =>
    rw [found] at mem
    cases mem
  | some frames =>
    rw [found] at mem
    exact h.frames id frames found f mem

/-- What a transmission stores satisfies what is asked of images and frames. -/
structure Admits (I : Image → Prop) (F : Frame → Prop) (cmd : Command) (format : ImageFormat)
    (data : Bytes) : Prop where
  fits : data.length ≤ QUOTA_BYTES
  image : ∀ id seq, I ⟨id, cmd.number, format, cmd.width, cmd.height, data, seq⟩
  frame : ∀ number, F ⟨number, cmd.z, cmd.cols, cmd.srcX, cmd.srcY, format, cmd.width, cmd.height,
    data, cmd.cellX == 1⟩

/-- There is a number for a new frame. -/
def FrameRoom (cmd : Command) (g : GraphicsState) : Prop :=
  ∀ id, g.resolveId cmd = some id → cmd.rows = 0 →
    lastFrameNumber ((g.frames.lookup id).getD []) + 1 < 2 ^ 32

variable {build : Build} {bad : Panic → Prop}

theorem storeFrame_spared (h : g.Ledger I F) {format : ImageFormat} {data : Bytes}
    (admits : Admits I F cmd format data) (room : build.Strict bad → FrameRoom cmd g) :
    Spared bad (build.storeFrame cmd format data g) (·.1.Ledger I F) := by
  unfold Build.storeFrame
  split
  · exact .pure h
  · rename_i id found
    have stored := resolveId_spec h.consistent found
    have within := h.within
    have fits := admits.fits
    have numbered : Spared bad (if cmd.rows ≠ 0 then pure cmd.rows
        else build.add 32 (lastFrameNumber ((g.frames.lookup id).getD [])) 1) fun _ => True := by
      split
      · exact .pure trivial
      · rename_i new
        have fits (strict : build.Strict bad) := room strict id found (not_not.mp new)
        exact (Build.add_spared fits).mono fun _ _ => trivial
    refine numbered.skip fun number => ?_
    refine (Spared.of_yields (Build.add_yields (by unfold QUOTA_BYTES at *; omega))).bind ?_
    rintro _ rfl
    have new := admits.frame number
    have inside := h.consistent.length_frames_le id
    have each := h.holds.getD id
    generalize frame_eq : Frame.mk number cmd.z cmd.cols cmd.srcX cmd.srcY format cmd.width
      cmd.height data (cmd.cellX == 1) = frame at new
    have length : frame.data.length = data.length := by rw [← frame_eq]
    refine Spared.bind (p := fun r => r.2 + framesLength ((g.frames.lookup id).getD []) =
      g.totalBytes + framesLength r.1 ∧ ∀ f ∈ r.1, F f) ?_ ?_
    · split
      · rename_i existing edited
        have part := length_frame_le (List.mem_of_find?_eq_some edited)
        refine (Spared.of_yields (Yields.sub (by omega))).bind ?_
        rintro _ rfl
        have changed := framesLength_updateFrame (f := fun _ => frame) edited
        refine .pure ⟨by dsimp only; omega, fun f mem => ?_⟩
        rcases mem_updateFrame mem with old | ⟨_, -, rfl⟩
        · exact each f old
        · exact new
      · refine .pure ⟨?_, fun f mem => ?_⟩
        · unfold framesLength
          rw [List.map_append, List.sum_append, List.map_singleton, List.sum_singleton]
          omega
        · rcases List.mem_append.mp mem with old | last
          · exact each f old
          · rw [List.mem_singleton.mp last]
            exact new
    · rintro ⟨frames, total⟩ ⟨sum, each⟩
      exact (Spared.of_yields (setFrames_yields h stored sum each)).bind fun g' ledger => .pure ledger

/-! ### Frames are composed -/

/-- Composing changes no length: what it writes it writes over. -/
theorem composeRect_spared (lax : ¬ build.Strict bad) {dst src : Bytes} {r : Rect}
    {replace : Bool} :
    Spared bad (build.composeRect dst src r replace) (·.length = dst.length) := by
  have sum {a b : Nat} : Spared bad (build.add 64 a b) (· = (a + b) % 2 ^ 64) :=
    Build.add_spared fun strict => absurd strict lax
  have product {a b : Nat} : Spared bad (build.mul 64 a b) (· = a * b % 2 ^ 64) :=
    Build.mul_spared fun strict => absurd strict lax
  unfold Build.composeRect
  dsimp only
  refine Spared.forRange rfl fun row dst₁ same => ?_
  refine sum.skip fun sRow => product.skip fun sLine => ?_
  refine sum.skip fun sPx => product.skip fun sAt => ?_
  refine sum.skip fun dRow => product.skip fun dLine => ?_
  refine sum.skip fun dPx => product.skip fun dAt => ?_
  refine Spared.forRange same fun col dst₂ same => ?_
  refine product.skip fun at_ => sum.bind ?_
  rintro sLo sLo_eq
  refine sum.bind ?_
  rintro sHi sHi_eq
  refine (Spared.slice (Build.index_safe lax) src sLo sHi).bind fun s ⟨s_size, s_le, _⟩ => ?_
  refine sum.bind ?_
  rintro dLo dLo_eq
  refine sum.bind ?_
  rintro dHi dHi_eq
  refine (Spared.slice (Build.index_safe lax) dst₂ dLo dHi).bind fun d ⟨d_size, d_le, inside⟩ => ?_
  -- an end that has wrapped lies before its start
  refine (Spared.of_yields (mixPx_yields (by omega) (by omega))).bind fun px ⟨size, _⟩ => ?_
  rw [writePx_eq size]
  exact .pure ((length_splice (by omega)).trans same)

theorem composeChain_spared (lax : ¬ build.Strict bad) {img : Image} {frames : List Frame}
    {budget frameNo : Nat} {seen : List Nat} :
    Spared bad (build.composeChain img frames budget frameNo seen) fun canvas =>
      ∀ data, canvas = some data → data.length = (asRgba img.format img.data).length := by
  induction budget generalizing frameNo seen with
  | zero => exact .pure nofun
  | succ budget ih =>
    rw [Build.composeChain]
    split
    · refine .pure ?_
      rintro _ ⟨⟩
      rfl
    · split
      · exact .pure nofun
      · split
        · exact .pure nofun
        · refine ih.bind ?_
          rintro (_ | canvas) length
          · exact .pure nofun
          · refine (composeRect_spared lax).bind fun out same => .pure ?_
            rintro _ ⟨⟩
            exact same.trans (length canvas rfl)

/-- A canvas is as large as the image; where the build is strict, everything stored has to be
of its size. -/
theorem composedFrame_spared (sized : build.Strict bad → g.Sized) {img : Image}
    (found : g.images.lookup id = some img) (frameNo : Nat) :
    Spared bad (build.composedFrame id frameNo g) fun canvas =>
      ∀ data, canvas = some data → data.length = (asRgba img.format img.data).length := by
  by_cases strict : build.Strict bad
  · refine (Spared.of_yields (composedFrame_yields build (sized strict) id frameNo)).mono ?_
    rintro canvas ⟨-, drawn⟩ data some_
    obtain ⟨img', chain, found', -, size, -⟩ := drawn data some_
    obtain rfl := Option.some.inj (found.symm.trans found')
    exact size.trans ((sized strict).images id img found).asRgba.1.symm
  · unfold Build.composedFrame
    rw [found]
    dsimp only
    split
    · exact .pure nofun
    · exact composeChain_spared strict

/-- A rectangle of one canvas of the image drawn onto another. -/
theorem composeCanvas_spared (sized : build.Strict bad → g.Sized) {img : Image}
    (found : g.images.lookup id = some img) {dst src : Bytes} {srcPos dstPos size : Nat × Nat}
    (src_size : src.length = (asRgba img.format img.data).length)
    (dst_size : dst.length = (asRgba img.format img.data).length)
    (src_lt : srcPos.1 < 2 ^ 32) (dst_lt : dstPos.1 < 2 ^ 32) (replace : Bool) :
    Spared bad (build.composeRect dst src
      ⟨(img.width, img.height), (img.width, img.height), srcPos, dstPos, size⟩ replace)
      (·.length = dst.length) := by
  by_cases strict : build.Strict bad
  · have block := (sized strict).images id img found
    obtain ⟨length, small, -⟩ := block.asRgba
    refine (Spared.of_yields (composeRect_yields ?_)).mono fun out drawn => drawn.1
    exact ⟨dst_size.trans length, src_size.trans length, dst_size.trans_le small,
      src_size.trans_le small, block.high, block.high, dst_lt, src_lt⟩
  · exact composeRect_spared strict

theorem length_asRgba_le (format : ImageFormat) (data : Bytes) :
    (asRgba format data).length ≤ 2 * data.length := by
  cases format with
  | rgb =>
    have chunks := length_chunksExact_mul_le 3 data
    have four : ∀ px ∈ chunksExact 3 data, (px ++ [255]).length = 4 := by
      intro px mem
      have three : px.length = 3 := by simpa using (List.mem_filter.mp mem).2
      rw [List.length_append, three]
      rfl
    rw [asRgba, length_flatMap_of four]
    omega
  | rgba => exact Nat.le_mul_of_pos_left _ (by decide)
  | png => exact Nat.le_mul_of_pos_left _ (by decide)

/-- A canvas of an image's size satisfies what is asked of frames. -/
def Composes (I : Image → Prop) (F : Frame → Prop) : Prop :=
  ∀ img frame canvas, I img → F frame → canvas.length = (asRgba img.format img.data).length →
    F (composedInto canvas img frame)

/-- What satisfies what is asked is of its size. -/
def Measures (I : Image → Prop) (F : Frame → Prop) : Prop :=
  (∀ img, I img → SizedBlock img.format img.width img.height img.data) ∧ ∀ f, F f → SizedFrame f

theorem Holds.sized (h : g.Holds I F) (measures : Measures I F) : g.Sized :=
  ⟨fun id img found => measures.1 img (h.images id img found),
    fun id frames found f mem => measures.2 f (h.frames id frames found f mem)⟩

theorem compose_spared (h : g.Ledger I F) (composes : Composes I F)
    (measures : build.Strict bad → Measures I F) (srcX_lt : cmd.srcX < 2 ^ 32)
    (cellX_lt : cmd.cellX < 2 ^ 32) :
    Spared bad (build.compose cmd g) (·.1.Ledger I F) := by
  have sized (strict : build.Strict bad) : g.Sized := h.holds.sized (measures strict)
  unfold Build.compose
  split
  · exact .pure h
  · rename_i id found
    have stored := resolveId_spec h.consistent found
    obtain ⟨img, here⟩ := Option.isSome_iff_exists.mp stored
    refine (Spared.of_yields (Yields.unwrap here)).bind ?_
    rintro img rfl
    dsimp only
    split
    · exact .pure h
    · rename_i named
      refine (composedFrame_spared sized here _).bind fun src src_size => ?_
      refine (composedFrame_spared sized here _).bind fun dst dst_size => ?_
      split
      · refine (composeCanvas_spared sized here (src_size _ rfl) (dst_size _ rfl) cellX_lt
          srcX_lt _).bind fun canvas same => ?_
        have size := same.trans (dst_size _ rfl)
        obtain ⟨frame, there⟩ : ∃ frame, ((g.frames.lookup id).getD []).find?
            (·.number == cmd.rows) = some frame := by
          rw [← Option.isSome_iff_exists, List.find?_isSome]
          simp only [Bool.or_eq_true, Bool.not_eq_true', not_or, Bool.not_eq_false,
            Bool.and_eq_true, List.any_eq_true] at named
          exact named.1.2
        refine (Spared.of_yields (Yields.unwrap there)).bind ?_
        rintro frame rfl
        have part := length_frame_le (List.mem_of_find?_eq_some there)
        have inside := h.consistent.length_frames_le id
        refine (Spared.of_yields (Yields.sub (by omega))).bind ?_
        rintro _ rfl
        have small := h.consistent.length_image_le here
        have double := length_asRgba_le img.format img.data
        have within := h.within
        refine (Spared.of_yields (Build.add_yields (by unfold QUOTA_BYTES at *; omega))).bind ?_
        rintro _ rfl
        have changed := framesLength_updateFrame (f := composedInto canvas img) there
        have length : (composedInto canvas img frame).data.length = canvas.length := rfl
        refine (Spared.of_yields (setFrames_yields h stored (by omega) ?_)).bind
          fun g' ledger => .pure ledger
        intro f mem
        have each := h.holds.getD id
        rcases mem_updateFrame mem with old | ⟨old, mem', rfl⟩
        · exact each f old
        · exact composes img old canvas (h.holds.images id img here) (each old mem') size
      · exact .pure h

end GraphicsState

end Posh.Term
