import Mathlib.Data.List.Perm.Subperm
import Posh.Term.Composition

/-!
The canvas of a frame. Frames are composed onto one another along their bases, down to the
root image: a frame has a canvas unless its chain of bases comes to a frame that is not
there or comes round to itself, and the canvas is the root image with the frames of the
chain drawn onto it in turn.
-/

namespace Posh.Term

open Posh.Lib

namespace Graphics

open Relation

variable {frames : List Frame} {n m : Nat} {f : Frame} {chain : List Frame}

/-- The frames that one is composed of, the one on the root image first. -/
inductive BaseChain (frames : List Frame) : Nat → List Frame → Prop where
  | root : BaseChain frames 0 []
  | frame {n : Nat} {f : Frame} {chain : List Frame} (named : n ≠ 0)
      (found : frames.find? (·.number == n) = some f)
      (base : BaseChain frames f.baseFrame chain) : BaseChain frames n (chain ++ [f])

/-- Frame `n` is composed onto frame `m`. -/
def BasedOn (frames : List Frame) (n m : Nat) : Prop :=
  n ≠ 0 ∧ ∃ f, frames.find? (·.number == n) = some f ∧ f.baseFrame = m

/-- The bases come to a frame that is not there. -/
def Dangling (frames : List Frame) (n : Nat) : Prop :=
  ∃ m, ReflTransGen (BasedOn frames) n m ∧ m ≠ 0 ∧ frames.find? (·.number == m) = none

/-- The bases come to a frame that is based on itself. -/
def Cyclic (frames : List Frame) (n : Nat) : Prop :=
  ∃ m, ReflTransGen (BasedOn frames) n m ∧ TransGen (BasedOn frames) m m

theorem Dangling.of_base (based : BasedOn frames n m) (h : Dangling frames m) : Dangling frames n := by
  obtain ⟨k, path, absent⟩ := h
  exact ⟨k, .head based path, absent⟩

theorem Cyclic.of_base (based : BasedOn frames n m) (h : Cyclic frames m) : Cyclic frames n := by
  obtain ⟨k, path, round⟩ := h
  exact ⟨k, .head based path, round⟩

/-- A frame's chain is the chain of its base with the frame at the end. -/
theorem BaseChain.of_based (h : BaseChain frames n chain) (based : BasedOn frames n m) :
    ∃ shorter, BaseChain frames m shorter ∧ shorter.length < chain.length := by
  obtain ⟨named, f, found, rfl⟩ := based
  cases h with
  | root => exact absurd rfl named
  | frame _ found' base =>
    obtain rfl := Option.some.inj (found.symm.trans found')
    exact ⟨_, base, by simp⟩

theorem BaseChain.of_path (h : BaseChain frames n chain) (path : ReflTransGen (BasedOn frames) n m) :
    ∃ shorter, BaseChain frames m shorter ∧ shorter.length ≤ chain.length := by
  induction path with
  | refl => exact ⟨chain, h, Nat.le_refl _⟩
  | tail _ based ih =>
    obtain ⟨shorter, base, le⟩ := ih
    obtain ⟨shortest, base', lt⟩ := base.of_based based
    exact ⟨shortest, base', lt.le.trans le⟩

theorem BaseChain.unique {chain' : List Frame} (h : BaseChain frames n chain)
    (h' : BaseChain frames n chain') : chain = chain' := by
  induction h generalizing chain' with
  | root =>
    cases h' with
    | root => rfl
    | frame named _ _ => exact absurd rfl named
  | frame named found base ih =>
    cases h' with
    | root => exact absurd rfl named
    | frame _ found' base' =>
      obtain rfl := Option.some.inj (found.symm.trans found')
      rw [ih base']

/-- A chain that ends at the root image neither dangles nor comes round. -/
theorem BaseChain.grounded (h : BaseChain frames n chain) :
    ¬ Dangling frames n ∧ ¬ Cyclic frames n := by
  constructor
  · rintro ⟨m, path, named, absent⟩
    obtain ⟨shorter, base, -⟩ := h.of_path path
    cases base with
    | root => exact named rfl
    | frame _ found _ => rw [found] at absent; cases absent
  · rintro ⟨m, path, round⟩
    obtain ⟨shorter, base, -⟩ := h.of_path path
    obtain ⟨k, based, back⟩ := TransGen.head'_iff.mp round
    obtain ⟨below, base', lt⟩ := base.of_based based
    obtain ⟨again, base'', le⟩ := base'.of_path back
    obtain rfl := base.unique base''
    omega

/-! ### Composing along the chain -/

/-- A frame of the length its dimensions call for, placed in machine words. -/
structure SizedFrame (f : Frame) : Prop where
  block : SizedBlock f.format f.width f.height f.data
  x_lt : f.x < 2 ^ 32

variable {build : Build} {img : Image}

/-- What is on a canvas of the image's size. -/
def Shows (img : Image) (data : Bytes) (seen : Picture) : Prop :=
  data.length = img.width * img.height * 4 ∧
    ∀ x < img.width, ∀ y < img.height, picture .rgba img.width data x y = seen x y

/-- A frame drawn onto a canvas. -/
theorem composeFrame_yields (sized : SizedBlock img.format img.width img.height img.data)
    (frame : SizedFrame f) {canvas : Bytes} {seen : Picture} (shows : Shows img canvas seen) :
    Yields (build.composeRect canvas (asRgba f.format f.data)
      { dstSize := (img.width, img.height), srcSize := (f.width, f.height), srcPos := (0, 0),
        dstPos := (f.x, f.y), size := (f.width, f.height) } f.replace) fun out =>
      Shows img out (draw seen f) := by
  obtain ⟨size, same⟩ := shows
  obtain ⟨src_size, src_small, looks⟩ := frame.block.asRgba
  have fits := sized.asRgba
  refine (composeRect_yields ⟨size, src_size, by omega, src_small, sized.high, frame.block.high,
    frame.x_lt, Nat.two_pow_pos 32⟩).mono ?_
  rintro out ⟨length, drawn⟩
  refine ⟨length.trans size, fun x x_lt y y_lt => ?_⟩
  have pixel := drawn x x_lt y y_lt
  dsimp only at pixel
  rw [pixel, same x x_lt y y_lt]
  unfold draw
  by_cases inside : f.x ≤ x ∧ x < f.x + f.width ∧ f.y ≤ y ∧ y < f.y + f.height
  · rw [if_pos inside, if_pos (by unfold Rect.Covers; dsimp only; omega)]
    rw [Nat.zero_add, Nat.zero_add, looks _ (by omega) _ (by omega)]
    rfl
  · rw [if_neg inside, if_neg (by unfold Rect.Covers; dsimp only; omega)]

/-- Each frame that has been visited is another of the image's frames. -/
theorem length_seen_le {seen : List Nat} (distinct : seen.Nodup)
    (found : ∀ n ∈ seen, (frames.find? (·.number == n)).isSome = true) :
    seen.length ≤ frames.length := by
  have inside : seen ⊆ frames.map (·.number) := by
    intro n mem
    obtain ⟨f, eq⟩ := Option.isSome_iff_exists.mp (found n mem)
    have number : f.number = n := by simpa using List.find?_some eq
    exact number ▸ List.mem_map_of_mem (List.mem_of_find?_eq_some eq)
  have le := (List.subperm_of_subset distinct inside).length_le
  rwa [List.length_map] at le

theorem composeChain_yields (sized : SizedBlock img.format img.width img.height img.data)
    (frames_sized : ∀ f ∈ frames, SizedFrame f) {budget : Nat} {seen : List Nat}
    (enough : frames.length + 2 ≤ budget + seen.length) (distinct : seen.Nodup)
    (found : ∀ n ∈ seen, (frames.find? (·.number == n)).isSome = true)
    (before : ∀ m ∈ seen, TransGen (BasedOn frames) m n) :
    Yields (build.composeChain img frames budget n seen) fun canvas =>
      (canvas = none → Dangling frames n ∨ Cyclic frames n) ∧
      ∀ data, canvas = some data → ∃ chain, BaseChain frames n chain ∧
        Shows img data (chain.foldl draw (picture img.format img.width img.data)) := by
  induction budget generalizing n seen with
  | zero =>
    have := length_seen_le distinct found
    omega
  | succ budget ih =>
    rw [Build.composeChain]
    split
    · rename_i root
      obtain ⟨size, -, looks⟩ := sized.asRgba
      refine .pure ⟨by rintro ⟨⟩, ?_⟩
      rintro _ ⟨⟩
      exact ⟨[], root ▸ .root, size, looks⟩
    · rename_i named
      split
      · rename_i again
        have cyclic : Cyclic frames n := ⟨n, .refl, before n (by simpa using again)⟩
        exact .pure ⟨fun _ => .inr cyclic, by rintro _ ⟨⟩⟩
      · rename_i new
        split
        · rename_i absent
          exact .pure ⟨fun _ => .inl ⟨n, .refl, named, absent⟩, by rintro _ ⟨⟩⟩
        · rename_i f here
          have based : BasedOn frames n f.baseFrame := ⟨named, f, here, rfl⟩
          have longer : (seen ++ [n]).length = seen.length + 1 := List.length_append
          have distinct' : (seen ++ [n]).Nodup := by
            refine List.nodup_append.mpr ⟨distinct, List.nodup_singleton _, ?_⟩
            rintro k mem k' last rfl
            rw [List.mem_singleton.mp last] at mem
            exact new (by simpa using mem)
          have found' : ∀ k ∈ seen ++ [n], (frames.find? (·.number == k)).isSome = true := by
            intro k mem
            rcases List.mem_append.mp mem with old | last
            · exact found k old
            · rw [List.mem_singleton.mp last, here]
              rfl
          have before' : ∀ k ∈ seen ++ [n], TransGen (BasedOn frames) k f.baseFrame := by
            intro k mem
            rcases List.mem_append.mp mem with old | last
            · exact (before k old).tail based
            · rw [List.mem_singleton.mp last]
              exact .single based
          refine (ih (by omega) distinct' found' before').bind ?_
          rintro (_ | canvas) ⟨stuck, drawn⟩
          · refine .pure ⟨fun _ => ?_, by rintro _ ⟨⟩⟩
            exact (stuck rfl).imp (.of_base based) (.of_base based)
          · obtain ⟨chain, base, shows⟩ := drawn canvas rfl
            have frame := frames_sized f (List.mem_of_find?_eq_some here)
            refine (composeFrame_yields sized frame shows).bind fun out shows => ?_
            refine .pure ⟨by rintro ⟨⟩, ?_⟩
            rintro _ ⟨⟩
            refine ⟨chain ++ [f], .frame named here base, ?_⟩
            rwa [List.foldl_append]

end Graphics

/-! ### The canvas of a frame -/

/-- No channel is brighter than full. -/
structure Pixel.Within (px : Pixel) : Prop where
  red : px.red ≤ 255
  green : px.green ≤ 255
  blue : px.blue ≤ 255
  alpha : px.alpha ≤ 255

theorem Pixel.Within.overlaid {s d : Pixel} (hs : s.Within) (hd : d.Within) : (s.overlaid d).Within := by
  have part {c : Nat} (le : c ≤ 255) : (0 : ℚ) ≤ c / 255 ∧ (c : ℚ) / 255 ≤ 1 := by
    have : (c : ℚ) ≤ 255 := by exact_mod_cast le
    constructor
    · positivity
    · linarith
  have whole {q : ℚ} (le : q ≤ 1) : ⌊(255 : ℚ) * q⌋₊ ≤ 255 :=
    Nat.floor_le_of_le (by push_cast; linarith)
  have channel {c c' : Nat} (le : c ≤ 255) (le' : c' ≤ 255) :=
    whole (Alpha.overlaid_le_one (part hs.alpha).1 (part hs.alpha).2 (part hd.alpha).1 (part le).2
      (part le').2)
  exact ⟨channel hs.red hd.red, channel hs.green hd.green, channel hs.blue hd.blue,
    whole (Alpha.cover_le_one (part hs.alpha).2 (part hd.alpha).2)⟩

namespace GraphicsState

open Graphics

variable {g : GraphicsState}

/-- The frames of a stored image. -/
def framesOf (g : GraphicsState) (img : Image) : List Frame :=
  (g.frames.lookup img.id).getD []

/-- Images and frames have the data their dimensions call for. -/
structure Sized (g : GraphicsState) : Prop where
  images : ∀ id img, g.images.lookup id = some img →
    SizedBlock img.format img.width img.height img.data
  frames : ∀ id frames, g.frames.lookup id = some frames → ∀ f ∈ frames, SizedFrame f

theorem Sized.framesOf (sized : g.Sized) {img : Image} : ∀ f ∈ g.framesOf img, SizedFrame f := by
  intro f mem
  unfold GraphicsState.framesOf at mem
  cases found : g.frames.lookup img.id with
  | none =>
    rw [found] at mem
    cases mem
  | some frames =>
    rw [found] at mem
    exact sized.frames _ _ found f mem

theorem composedFrame_yields (build : Build) (sized : g.Sized) (imageId frameNo : Nat) :
    Yields (build.composedFrame imageId frameNo g) fun canvas =>
      (canvas = none ↔ g.images.lookup imageId = none ∨
        ∃ img, g.images.lookup imageId = some img ∧ (img.width = 0 ∨ img.height = 0 ∨
          Dangling (g.framesOf img) frameNo ∨ Cyclic (g.framesOf img) frameNo)) ∧
      ∀ data, canvas = some data → ∃ img chain, g.images.lookup imageId = some img ∧
        BaseChain (g.framesOf img) frameNo chain ∧
        Shows img data (chain.foldl draw (picture img.format img.width img.data)) := by
  unfold Build.composedFrame
  split
  · rename_i missing
    exact .pure ⟨⟨fun _ => .inl missing, fun _ => rfl⟩, nofun⟩
  · rename_i img found
    split
    · rename_i bare
      refine .pure ⟨⟨fun _ => .inr ⟨img, found, ?_⟩, fun _ => rfl⟩, nofun⟩
      exact bare.imp_right .inl
    · rename_i pixels
      refine (composeChain_yields (sized.images _ _ found) sized.framesOf (Nat.le_refl _)
        List.nodup_nil nofun nofun).mono ?_
      rintro canvas ⟨stuck, drawn⟩
      refine ⟨⟨fun none_ => .inr ⟨img, found, .inr (.inr (stuck none_))⟩, ?_⟩, ?_⟩
      · rintro (missing | ⟨img', found', why⟩)
        · rw [found] at missing
          cases missing
        · obtain rfl := Option.some.inj (found.symm.trans found')
          rcases canvas with _ | data
          · rfl
          · obtain ⟨chain, base, -⟩ := drawn data rfl
            have grounded := base.grounded
            rcases why with narrow | flat | dangling | cyclic
            · exact absurd (.inl narrow) pixels
            · exact absurd (.inr flat) pixels
            · exact absurd dangling grounded.1
            · exact absurd cyclic grounded.2
      · intro data some_
        obtain ⟨chain, base, shows⟩ := drawn data some_
        exact ⟨img, chain, found, base, shows⟩

/-- Composition never panics. There is no canvas where the image is not stored or has no
pixels, or where the frame's bases come to a frame that is not there or round to
themselves; otherwise the canvas has four bytes for each pixel of the image and shows the
root image with the frames of the base chain drawn onto it in turn, none of whose blended
channels leaves its byte. -/
theorem composedFrame_draws (build : Build) (sized : g.Sized) (imageId frameNo : Nat) :
    Yields (build.composedFrame imageId frameNo g) fun canvas =>
      (canvas = none ↔ g.images.lookup imageId = none ∨
        ∃ img, g.images.lookup imageId = some img ∧ (img.width = 0 ∨ img.height = 0 ∨
          Dangling (g.framesOf img) frameNo ∨ Cyclic (g.framesOf img) frameNo)) ∧
      (∀ data, canvas = some data → ∃ img chain, g.images.lookup imageId = some img ∧
        BaseChain (g.framesOf img) frameNo chain ∧ data.length = img.width * img.height * 4 ∧
        ∀ x < img.width, ∀ y < img.height, picture .rgba img.width data x y =
          chain.foldl draw (picture img.format img.width img.data) x y) ∧
      ∀ s d : Pixel, s.Within → d.Within → (s.overlaid d).Within := by
  refine (composedFrame_yields build sized imageId frameNo).mono fun canvas ⟨stuck, drawn⟩ => ?_
  refine ⟨stuck, fun data some_ => ?_, fun s d hs hd => hs.overlaid hd⟩
  obtain ⟨img, chain, found, base, length, looks⟩ := drawn data some_
  exact ⟨img, chain, found, base, length, looks⟩

/-- A gray pixel, and a lighter frame that covers half of it. -/
def halfCovered : GraphicsState where
  images := [(1, ⟨1, 0, .rgb, 1, 1, [100, 100, 100], 1⟩)]
  frames := [(1, [⟨1, 0, 0, 0, 0, .rgba, 1, 1, [200, 200, 200, 128], false⟩])]
  totalBytes := 7
  nextSeq := 1
  nextId := 1

theorem halfCovered_sized : halfCovered.Sized where
  images id img found := by
    obtain ⟨-, rfl⟩ := Prod.mk.inj (List.mem_singleton.mp (AssocMap.mem_of_lookup found))
    exact ⟨rfl, by decide, by decide, by decide⟩
  frames id frames found := by
    obtain ⟨-, rfl⟩ := Prod.mk.inj (List.mem_singleton.mp (AssocMap.mem_of_lookup found))
    intro f mem
    obtain rfl := List.mem_singleton.mp mem
    exact ⟨⟨rfl, by decide, by decide, by decide⟩, by decide⟩

/-- It composes to a shade between. -/
theorem composedFrame_draws_halfCovered :
    Build.release.composedFrame 1 1 halfCovered = .ok (some [150, 150, 150, 255]) ∧
      ∃ img chain, halfCovered.images.lookup 1 = some img ∧
        BaseChain (halfCovered.framesOf img) 1 chain ∧
        ∀ x < img.width, ∀ y < img.height,
          picture .rgba img.width [150, 150, 150, 255] x y =
            chain.foldl draw (picture img.format img.width img.data) x y := by
  have composed : Build.release.composedFrame 1 1 halfCovered =
      .ok (some [150, 150, 150, 255]) := rfl
  obtain ⟨-, drawn, -⟩ := (composedFrame_draws .release halfCovered_sized 1 1).of_eq_ok composed
  obtain ⟨img, chain, found, base, -, looks⟩ := drawn _ rfl
  exact ⟨composed, img, chain, found, base, looks⟩

/-- An image of no pixels is stored, and there is no canvas of it. -/
theorem image_without_pixels : ¬ ∀ (build : Build) (g : GraphicsState), g.Sized →
    ∀ imageId frameNo, build.composedFrame imageId frameNo g = .ok none ↔
      g.images.lookup imageId = none ∨ ∃ img, g.images.lookup imageId = some img ∧
        (Dangling (g.framesOf img) frameNo ∨ Cyclic (g.framesOf img) frameNo) := by
  intro all
  obtain ⟨g, eq⟩ : ∃ g : GraphicsState, { images := [(1, ⟨1, 0, .rgba, 0, 0, [], 1⟩)] } = g := ⟨_, rfl⟩
  have sized : g.Sized := by
    subst eq
    constructor
    · intro id img found
      obtain ⟨-, rfl⟩ := Prod.mk.inj (List.mem_singleton.mp (AssocMap.mem_of_lookup found))
      exact ⟨rfl, by decide, by decide, by decide⟩
    · rintro id frames ⟨⟩
  have none_ : Build.debug.composedFrame 1 0 g = .ok none := by
    subst eq
    rfl
  rcases (all .debug g sized 1 0).mp none_ with missing | ⟨img, -, why⟩
  · subst eq
    cases missing
  · -- the root image is a chain of its own
    obtain ⟨dangling, cyclic⟩ := (show BaseChain (g.framesOf img) 0 [] from .root).grounded
    exact why.elim dangling cyclic

end GraphicsState

end Posh.Term
