import Posh.Term.CommandAccounts
import Posh.Term.ComposedFrames

/-!
The sizes of what a release build stores. Raw pixels are measured against the product of
their dimensions in a machine word. As long as no transmission ends whose product has left
the word and whose bytes are as many as what is left of it there, every image and every
frame has the bytes that its dimensions call for, and composing finds them all.
-/

namespace Posh.Term

open Posh.Lib

namespace GraphicsState

open Graphics

variable {files : List Char → Option Bytes} {cmd : Command} {payload : Bytes}

/-- Raw pixels to be stored, whose dimensions have a product that leaves a machine word, and
as many bytes as the word keeps of it. -/
def Overstated (files : List Char → Option Bytes) (cmd : Command) (payload : Bytes) : Prop :=
  isByte 'q' cmd.action = false ∧ ∃ format data, imageFormat cmd.format = some format ∧
    format ≠ .png ∧ received files cmd payload = .ok data ∧
    2 ^ 64 ≤ cmd.width * cmd.height * format.bytesPerPixel ∧
    data.length = cmd.width * cmd.height * format.bytesPerPixel % 2 ^ 64

/-- An image of its size, within the quota. -/
def SizedImage (img : Image) : Prop :=
  SizedBlock img.format img.width img.height img.data ∧ img.data.length ≤ QUOTA_BYTES

theorem sized_admits {format : ImageFormat} {data : Bytes} (typed : cmd.srcX < 2 ^ 32)
    (sized : SizedBlock format cmd.width cmd.height data) (fits : data.length ≤ QUOTA_BYTES) :
    Admits SizedImage SizedFrame cmd format data where
  fits := fits
  image _ _ := ⟨sized, fits⟩
  frame _ := ⟨sized, typed⟩

theorem welcome_sized (typed : Typed cmd) (honest : ¬ Overstated files cmd payload) :
    Welcome SizedImage SizedFrame files cmd payload := by
  rintro cmd' format data decodes stored
  have quota : QUOTA_BYTES < 2 ^ 63 := by decide
  cases decodes with
  | png sized =>
    have fits : _ ≤ QUOTA_BYTES := sized.fits
    exact sized_admits typed.srcX_lt ⟨sized.size, sized.width_lt, sized.height_lt, by omega⟩ fits
  | raw other named bytes fits width height length =>
    refine sized_admits typed.srcX_lt ⟨?_, typed.width_lt, typed.height_lt, by omega⟩ fits
    by_contra wrong
    refine honest ⟨stored, format, data, named, other, bytes, ?_, length⟩
    by_contra small
    exact wrong (length.trans (Nat.mod_eq_of_lt (Nat.not_le.mp small)))

theorem composes_sized : Composes SizedImage SizedFrame := by
  rintro img frame canvas ⟨sized, fits⟩ - same
  have double := length_asRgba_le img.format img.data
  have quota : QUOTA_BYTES < 2 ^ 62 := by decide
  exact ⟨⟨same.trans sized.asRgba.1, sized.wide, sized.high, show canvas.length < _ by omega⟩,
    Nat.two_pow_pos 32⟩

end GraphicsState

namespace Build

open Graphics GraphicsState

variable {g : GraphicsState}

/-- The commands of a release build, none of which ends a transmission of overstated size. -/
def honest : Transition GraphicsState where
  init g := g = {}
  step g g' := g' = g.reset ∨ ∃ files data cursor out, data.length ≤ MAX_APC ∧
    (∀ cmd payload, finishes data g = some (cmd, payload) → ¬ Overstated files cmd payload) ∧
    release.dispatch files data cursor g = .ok (g', out)

theorem sized_invariant : honest.Invariant (Ledger SizedImage SizedFrame) where
  base := by
    rintro g rfl
    exact ledger_empty _ _
  step := by
    rintro g g' h (rfl | ⟨files, data, cursor, out, short, honest, eq⟩)
    · exact ledger_empty _ _
    · have spared : Spared release.Underflow (release.dispatch files data cursor g)
          (·.1.Ledger SizedImage SizedFrame) := by
        refine dispatch_spared h composes_sized (fun strict => absurd strict underflow_lax) short ?_
          fun strict => absurd strict underflow_lax
        intro cmd payload ends typed
        exact welcome_sized typed (honest cmd payload ends)
      exact spared.of_eq_ok eq

/-- In every store that such commands reach, images and frames have the bytes that their
dimensions call for, and no frame's composition panics. -/
theorem sizes_validated (h : honest.Reachable g) :
    (∀ id img, g.images.lookup id = some img →
      img.data.length = img.width * img.height * img.format.bytesPerPixel) ∧
    (∀ id frames, g.frames.lookup id = some frames → ∀ f ∈ frames,
      f.data.length = f.width * f.height * f.format.bytesPerPixel) ∧
    ∀ imageId frameNo, ∃ canvas, release.composedFrame imageId frameNo g = .ok canvas := by
  have holds := (sized_invariant.reachable h).holds
  have sized : g.Sized := ⟨fun id img found => (holds.images id img found).1, holds.frames⟩
  refine ⟨fun id img found => (sized.images id img found).size,
    fun id frames found f mem => (sized.frames id frames found f mem).block.size,
    fun imageId frameNo => ?_⟩
  obtain ⟨canvas, eq, -⟩ := composedFrame_yields release sized imageId frameNo
  exact ⟨canvas, eq⟩

/-- A pixel. -/
def onePixel : GraphicsState where
  images := [(1, ⟨1, 0, .rgb, 1, 1, [0, 0, 0], 1⟩)]
  totalBytes := 3
  nextSeq := 1
  nextId := 1

theorem honest_onePixel : honest.Reachable onePixel := by
  refine (Transition.Reachable.of_init (M := honest) rfl).tail (.inr
    ⟨fun _ => none, toUtf8 "i=1,f=24,s=1,v=1;AAAA".toList, (0, 0), _, by decide, ?_, rfl⟩)
  rintro cmd payload ⟨⟩ ⟨-, format, data, ⟨⟩, -, -, large, -⟩
  revert large
  decide

theorem sizes_validated_onePixel :
    (∀ id img, onePixel.images.lookup id = some img →
      img.data.length = img.width * img.height * img.format.bytesPerPixel) ∧
    (∀ id frames, onePixel.frames.lookup id = some frames → ∀ f ∈ frames,
      f.data.length = f.width * f.height * f.format.bytesPerPixel) ∧
    ∀ imageId frameNo, ∃ canvas, release.composedFrame imageId frameNo onePixel = .ok canvas :=
  sizes_validated honest_onePixel

/-- An image of no bytes that says it is two to the 62nd pixels large. -/
def vast : GraphicsState where
  images := [(1, ⟨1, 0, .rgba, 2147483648, 2147483648, [], 1⟩)]
  nextSeq := 1
  nextId := 1

/-- The product wraps to nothing, which is as many bytes as came. -/
theorem size_wraps : ¬ ∀ g, release.commands.Reachable g → ∀ id img, g.images.lookup id = some img →
    img.data.length = img.width * img.height * img.format.bytesPerPixel := by
  intro all
  have stored : release.commands.Reachable vast :=
    (Transition.Reachable.of_init (M := release.commands) rfl).tail (.inr
      ⟨fun _ => none, toUtf8 "i=1,f=32,s=2147483648,v=2147483648;".toList, (0, 0), _,
        by decide, rfl⟩)
  have wrong := all _ stored 1 _ rfl
  revert wrong
  decide

end Build

end Posh.Term
