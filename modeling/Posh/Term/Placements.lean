import Posh.Lib.Transition
import Posh.Term.Decoded
import Posh.Term.Parser

/-!
The graphics store over a run of commands.

Placements, frames and animations speak of images by their ids. `Consistent` is what the
store's own bookkeeping keeps: images are stored under their ids, frames and animations
belong to images, and the byte count is the sum of what is stored. The placements are
kept by every command but one: `a=d,d=I` with a placement id frees the image although
other placements of it remain.
-/

namespace Posh.Term

open Posh.Lib

namespace GraphicsState

open Graphics

variable {g g' : GraphicsState} {files : List Char → Option Bytes} {cmd : Command}

/-! ### What refers to what -/

/-- An image with this id is stored. -/
def Stores (id : Nat) (g : GraphicsState) : Prop :=
  (g.images.lookup id).isSome = true

/-- Every placement is one of a stored image. -/
def Placed (g : GraphicsState) : Prop :=
  ∀ p ∈ g.placements, g.Stores p.imageId

/-- Whatever refers to an image refers to a stored one. -/
structure Linked (g : GraphicsState) : Prop where
  placed : g.Placed
  framed : ∀ id, (g.frames.lookup id).isSome = true → g.Stores id
  animated : ∀ id, (g.animations.lookup id).isSome = true → g.Stores id

def framesLength (frames : List Frame) : Nat :=
  (frames.map (·.data.length)).sum

/-- The bookkeeping of the store. -/
structure Consistent (g : GraphicsState) : Prop where
  distinct : g.images.Distinct
  distinctFrames : g.frames.Distinct
  named : ∀ id img, g.images.lookup id = some img → img.id = id
  framed : ∀ id, (g.frames.lookup id).isSome = true → g.Stores id
  animated : ∀ id, (g.animations.lookup id).isSome = true → g.Stores id
  counted : g.totalBytes = g.images.total (·.data.length) + g.frames.total framesLength
  sequenced : ∀ id img, g.images.lookup id = some img → img.seq ≤ g.nextSeq
  short : ∀ pending, g.pending = some pending → pending.payload.length ≤ MAX_PENDING_PAYLOAD

/-- What every command keeps. -/
def Kept (g : GraphicsState) : Prop :=
  g.Consistent ∧ g.Placed

theorem Kept.linked (h : g.Kept) : g.Linked :=
  ⟨h.2, h.1.framed, h.1.animated⟩

/-- Without images there is nothing to keep. -/
theorem consistent_bare (bare : g.images = [] ∧ g.frames = [] ∧ g.animations = []) (none : g.totalBytes = 0)
    (short : ∀ pending, g.pending = some pending → pending.payload.length ≤ MAX_PENDING_PAYLOAD) :
    g.Consistent := by
  obtain ⟨images, frames, animations⟩ := bare
  constructor
  · rw [images]
    exact List.nodup_nil
  · rw [frames]
    exact List.nodup_nil
  · rw [images]
    exact nofun
  · rw [frames]
    exact nofun
  · rw [animations]
    exact nofun
  · rw [none, images, frames]
    rfl
  · rw [images]
    exact nofun
  · exact short

theorem kept_empty : Kept {} :=
  ⟨consistent_bare ⟨rfl, rfl, rfl⟩ rfl nofun, nofun⟩

theorem Consistent.lookup_of_values (h : g.Consistent) {img : Image} (mem : img ∈ g.images.values) :
    g.images.lookup img.id = some img := by
  obtain ⟨⟨id, _⟩, inside, rfl⟩ := List.mem_map.mp mem
  have found := h.distinct.lookup_of_mem inside
  rwa [h.named id _ found]

/-! ### Images leave -/

theorem subFrames_spec (frames : List Frame) (total : Nat) :
    Guarded False (forEach frames total fun frame total => sub total frame.data.length)
      (· + framesLength frames = total) := by
  induction frames generalizing total with
  | nil => exact .ok rfl
  | cons frame frames ih =>
    refine (Guarded.sub.weaken False.elim).bind fun rest ⟨rest_eq, inside⟩ => ?_
    refine (ih rest).mono fun total' sum => ?_
    rw [framesLength, List.map_cons, List.sum_cons]
    unfold framesLength at sum
    omega

/-- An image's data, frames and animation go, and nothing else. -/
theorem removeImageData_spec (h : g.Consistent) (id : Nat) :
    Guarded False (g.removeImageData id) fun g' => g'.Consistent ∧
      g' = { g with
        images := g.images.erase id, frames := g.frames.erase id,
        animations := g.animations.erase id, totalBytes := g'.totalBytes } := by
  unfold removeImageData
  refine Guarded.bind (p := fun total =>
      total + ((g.images.lookup id).map (·.data.length)).getD 0 = g.totalBytes) ?_
    fun total image => ?_
  · cases g.images.lookup id with
    | none => exact .pure rfl
    | some img =>
      refine (Guarded.sub.weaken False.elim).mono fun total ⟨total_eq, inside⟩ => ?_
      change total + img.data.length = g.totalBytes
      omega
  · refine (subFrames_spec _ total).bind fun total' frames => .pure ⟨?_, rfl⟩
    have stored {k : Nat} (other : k ≠ id) (before : g.Stores k) :
        ((g.images.erase id).lookup k).isSome = true := by
      rwa [AssocMap.lookup_erase, if_neg other]
    have left {α : Type} {m : AssocMap α} {k : Nat}
        (found : ((m.erase id).lookup k).isSome = true) : k ≠ id ∧ (m.lookup k).isSome = true := by
      rw [AssocMap.lookup_erase] at found
      split at found
      · cases found
      · exact ⟨‹_›, found⟩
    have erased {k : Nat} {img : Image} (found : (g.images.erase id).lookup k = some img) :
        g.images.lookup k = some img := by
      rw [AssocMap.lookup_erase] at found
      split at found
      · cases found
      · exact found
    have frames_total : framesLength ((g.frames.lookup id).getD []) =
        ((g.frames.lookup id).map framesLength).getD 0 := by
      cases g.frames.lookup id with
      | none => rfl
      | some _ => rfl
    constructor
    · exact h.distinct.erase
    · exact h.distinctFrames.erase
    · exact fun k img found => h.named k img (erased found)
    · exact fun k found => stored (left found).1 (h.framed k (left found).2)
    · exact fun k found => stored (left found).1 (h.animated k (left found).2)
    · have images_sum := h.distinct.total_erase (·.data.length) id
      have frames_sum := h.distinctFrames.total_erase framesLength id
      have counted := h.counted
      rw [frames_total] at frames
      dsimp only
      omega
    · exact fun k img found => h.sequenced k img (erased found)
    · exact h.short

/-! ### The quota -/

/-- A fold that keeps one of two images gives one of the images it goes over. -/
theorem mem_of_foldl {pick : Option Image → Image → Option Image} {images : List Image}
    {best : Option Image} {img : Image} (none_eq : ∀ i, pick none i = some i)
    (some_eq : ∀ b i, pick (some b) i = some i ∨ pick (some b) i = some b)
    (found : images.foldl pick best = some img) : img ∈ images ∨ best = some img := by
  induction images generalizing best with
  | nil => exact .inr found
  | cons i images ih =>
    rw [List.foldl_cons] at found
    have kept : pick best i = some i ∨ pick best i = best := by
      cases best with
      | none => exact .inl (none_eq i)
      | some b => exact some_eq b i
    rcases ih found with later | same
    · exact .inl (List.mem_cons_of_mem i later)
    · rcases kept with this | earlier
      · rw [this] at same
        cases same
        exact .inl List.mem_cons_self
      · exact .inr (earlier.symm.trans same)

theorem oldestImage_spec {oldest : Image} (found : g.oldestImage = some oldest) :
    oldest ∈ g.images.values ∧ ∀ img ∈ g.images.values, oldest.seq ≤ img.seq := by
  obtain ⟨pick, none_eq, some_eq, found⟩ : ∃ pick : Option Image → Image → Option Image,
      (∀ i, pick none i = some i) ∧
      (∀ b i, pick (some b) i = if i.seq < b.seq then some i else some b) ∧
      g.images.values.foldl pick none = some oldest :=
    ⟨_, fun _ => rfl, fun _ _ => rfl, found⟩
  have least (images : List Image) (best : Option Image)
      (found : images.foldl pick best = some oldest) :
      (∀ img ∈ images, oldest.seq ≤ img.seq) ∧ ∀ b, best = some b → oldest.seq ≤ b.seq := by
    induction images generalizing best with
    | nil =>
      refine ⟨fun _ mem => absurd mem List.not_mem_nil, ?_⟩
      rintro b rfl
      obtain rfl : b = oldest := Option.some.inj found
      exact Nat.le_refl _
    | cons i images ih =>
      rw [List.foldl_cons] at found
      obtain ⟨least, below⟩ := ih _ found
      cases best with
      | none =>
        refine ⟨List.forall_mem_cons.mpr ⟨below i (none_eq i), least⟩, ?_⟩
        intro b absent
        cases absent
      | some b =>
        have chosen := some_eq b i
        split at chosen
        · rename_i older
          have first := below i chosen
          refine ⟨List.forall_mem_cons.mpr ⟨first, least⟩, ?_⟩
          rintro _ ⟨⟩
          omega
        · rename_i younger
          have first := below b chosen
          refine ⟨List.forall_mem_cons.mpr ⟨by omega, least⟩, ?_⟩
          rintro _ ⟨⟩
          exact first
  refine ⟨?_, (least _ none found).1⟩
  refine (mem_of_foldl none_eq (fun b i => ?_) found).resolve_right fun absent => by cases absent
  rw [some_eq]
  split
  · exact .inl rfl
  · exact .inr rfl

/-- The image stored last, which is within the quota and has no frames yet. -/
structure Newest (img : Image) (g : GraphicsState) : Prop where
  stored : g.images.lookup img.id = some img
  newer : ∀ id other, g.images.lookup id = some other → id ≠ img.id → other.seq < img.seq
  still : g.frames.lookup img.id = none
  fits : img.data.length ≤ QUOTA_BYTES

/-- The newest image leaves last, and alone it is within the quota. -/
theorem oldest_ne_newest (h : g.Consistent) (exceeded : g.totalBytes > QUOTA_BYTES) {img oldest : Image}
    (newest : g.Newest img) (found : g.oldestImage = some oldest) : oldest.id ≠ img.id := by
  intro same
  obtain ⟨mem, least⟩ := oldestImage_spec found
  have kept := h.lookup_of_values mem
  obtain rfl : oldest = img := Option.some.inj (kept.symm.trans (same ▸ newest.stored))
  have only {id : Nat} (stored : g.Stores id) : id = oldest.id := by
    obtain ⟨other, eq⟩ := Option.isSome_iff_exists.mp stored
    by_contra different
    have younger := newest.newer id other eq different
    have older := least other (List.mem_map_of_mem (AssocMap.mem_of_lookup eq))
    omega
  have images : g.images.erase oldest.id = [] := by
    refine List.filter_eq_nil_iff.mpr fun e mem => ?_
    simp [only (AssocMap.isSome_lookup_of_mem mem)]
  have frames : g.frames = [] := by
    refine List.eq_nil_iff_forall_not_mem.mpr fun e mem => ?_
    have framed := AssocMap.isSome_lookup_of_mem mem
    rw [only (h.framed _ framed), newest.still] at framed
    cases framed
  have sum := h.distinct.total_erase (·.data.length) oldest.id
  rw [images, newest.stored] at sum
  have counted := h.counted
  rw [frames, ← sum] at counted
  have total : g.totalBytes = oldest.data.length := by
    rw [counted]
    exact (Nat.add_zero _).trans (Nat.zero_add _)
  have fits := newest.fits
  omega

theorem enforceQuotaLoop_spec {budget : Nat} (h : g.Kept) :
    Guarded False (enforceQuotaLoop budget g) fun g' => g'.Kept ∧ ∀ img, g.Newest img → g'.Newest img := by
  induction budget generalizing g with
  | zero => exact .pure ⟨h, fun _ => id⟩
  | succ budget ih =>
    rw [enforceQuotaLoop]
    split
    · rename_i exceeded
      split
      · exact .pure ⟨h, fun _ => id⟩
      · rename_i oldest found
        refine (removeImageData_spec h.1 oldest.id).bind fun g₁ ⟨consistent, same⟩ => ?_
        have images : g₁.images = g.images.erase oldest.id := by rw [same]
        have frames : g₁.frames = g.frames.erase oldest.id := by rw [same]
        have placements : g₁.placements = g.placements := by rw [same]
        have kept : Kept { g₁ with
            placements := g₁.placements.filter (·.imageId != oldest.id) } := by
          refine ⟨{ consistent with }, fun p mem => ?_⟩
          obtain ⟨inside, other⟩ := List.mem_filter.mp mem
          rw [placements] at inside
          change (g₁.images.lookup p.imageId).isSome = true
          rw [images, AssocMap.lookup_erase, if_neg (by simpa using other)]
          exact h.2 p inside
        refine (ih kept).mono fun g' ⟨kept', newest'⟩ => ⟨kept', fun img newest => newest' img ?_⟩
        have other := (oldest_ne_newest h.1 exceeded newest found).symm
        constructor
        · change g₁.images.lookup img.id = some img
          rw [images, AssocMap.lookup_erase, if_neg other]
          exact newest.stored
        · intro id younger found
          change g₁.images.lookup id = some younger at found
          rw [images, AssocMap.lookup_erase] at found
          split at found
          · cases found
          · exact newest.newer id younger found
        · change g₁.frames.lookup img.id = none
          rw [frames, AssocMap.lookup_erase, if_neg other]
          exact newest.still
        · exact newest.fits
    · exact .pure ⟨h, fun _ => id⟩

theorem enforceQuota_spec (h : g.Kept) :
    Guarded False g.enforceQuota fun g' => g'.Kept ∧ ∀ img, g.Newest img → g'.Newest img :=
  enforceQuotaLoop_spec h

/-! ### Images arrive -/

/-- An image is stored under an id that has none. -/
theorem Consistent.insertImage (h : g.Consistent) (img : Image) {total : Nat}
    (gone : g.images.lookup img.id = none) (sum : total = g.totalBytes + img.data.length)
    (latest : img.seq = g.nextSeq + 1) : Consistent { g with
      totalBytes := total, nextSeq := g.nextSeq + 1, images := g.images.insert img.id img } := by
  have stored {id : Nat} (before : g.Stores id) : ((g.images.insert img.id img).lookup id).isSome = true := by
    rw [AssocMap.lookup_insert]
    split
    · rfl
    · exact before
  have found {id : Nat} {other : Image} (found : (g.images.insert img.id img).lookup id = some other) :
      (id = img.id ∧ other = img) ∨ id ≠ img.id ∧ g.images.lookup id = some other := by
    rw [AssocMap.lookup_insert] at found
    split at found
    · exact .inl ⟨‹_›, (Option.some.inj found).symm⟩
    · exact .inr ⟨‹_›, found⟩
  constructor
  · exact h.distinct.insert
  · exact h.distinctFrames
  · intro id other eq
    rcases found eq with ⟨rfl, rfl⟩ | ⟨_, old⟩
    · rfl
    · exact h.named id other old
  · exact fun id framed => stored (h.framed id framed)
  · exact fun id animated => stored (h.animated id animated)
  · have erased := h.distinct.total_erase (·.data.length) img.id
    have counted := h.counted
    rw [gone] at erased
    dsimp only
    rw [AssocMap.total_insert]
    simp only [Option.map_none, Option.getD_none] at erased
    omega
  · intro id other eq
    dsimp only
    rcases found eq with ⟨_, rfl⟩ | ⟨_, old⟩
    · exact latest.le
    · exact Nat.le_succ_of_le (h.sequenced id other old)
  · exact h.short

theorem storeImage_spec (h : g.Kept) {format : ImageFormat} {data : Bytes}
    (fits : data.length ≤ QUOTA_BYTES) :
    Guarded False (g.storeImage cmd format data) fun g' => g'.Kept ∧ g'.Stores cmd.id := by
  unfold storeImage
  refine (removeImageData_spec h.1 cmd.id).bind fun g₁ removed => ?_
  obtain ⟨consistent, same⟩ := removed
  refine (Guarded.add.weaken False.elim).bind fun total added => ?_
  obtain ⟨total_eq, -⟩ := added
  have images : g₁.images = g.images.erase cmd.id := by rw [same]
  have frames : g₁.frames = g.frames.erase cmd.id := by rw [same]
  have placements : g₁.placements = g.placements := by rw [same]
  dsimp only
  obtain ⟨img, new⟩ : ∃ img : Image, Image.mk cmd.id cmd.number format cmd.width cmd.height data
      (g₁.nextSeq + 1) = img := ⟨_, rfl⟩
  have id : cmd.id = img.id := by rw [← new]
  have still : g₁.frames.lookup img.id = none := by
    rw [← id, frames, AssocMap.lookup_erase, if_pos rfl]
  have gone : g₁.images.lookup img.id = none := by
    rw [← id, images, AssocMap.lookup_erase, if_pos rfl]
  rw [new, id]
  have kept : Kept { g₁ with
      totalBytes := total, nextSeq := g₁.nextSeq + 1, images := g₁.images.insert img.id img } := by
    refine ⟨consistent.insertImage img gone (by rw [total_eq, ← new]) (by rw [← new]), ?_⟩
    intro p mem
    dsimp only at mem
    rw [placements] at mem
    have before := h.2 p mem
    change ((g₁.images.insert img.id img).lookup p.imageId).isSome = true
    rw [AssocMap.lookup_insert]
    split
    · rfl
    · rename_i other
      rw [← id] at other
      rw [images, AssocMap.lookup_erase, if_neg other]
      exact before
  refine (enforceQuota_spec kept).mono fun g' enforced => ⟨enforced.1, ?_⟩
  refine Option.isSome_of_eq_some (enforced.2 img ?_).stored
  constructor
  · dsimp only
    rw [AssocMap.lookup_insert, if_pos rfl]
  · intro other younger eq different
    dsimp only at eq
    rw [AssocMap.lookup_insert, if_neg different] at eq
    have := consistent.sequenced other younger eq
    rw [← new]
    exact Nat.lt_succ_of_le this
  · exact still
  · rw [← new]
    exact fits

/-! ### Frames and animations -/

theorem resolveId_spec (h : g.Consistent) {id : Nat} (found : g.resolveId cmd = some id) :
    g.Stores id := by
  unfold resolveId at found
  split at found
  · split at found
    · rename_i stored
      obtain rfl := Option.some.inj found
      exact stored
    · cases found
  · split at found
    · obtain ⟨img, newest, rfl⟩ := Option.map_eq_some_iff.mp found
      have mem : img ∈ g.images.values := by
        refine List.mem_of_mem_filter ((mem_of_foldl (fun _ => rfl) (fun b i => ?_)
          newest).resolve_right fun absent => by cases absent)
        dsimp only
        split
        · exact .inl rfl
        · exact .inr rfl
      exact Option.isSome_of_eq_some (h.lookup_of_values mem)
    · cases found

/-- A frame changed in place. -/
theorem framesLength_updateFrame {number : Nat} {f : Frame → Frame} {frames : List Frame} {frame : Frame}
    (found : frames.find? (·.number == number) = some frame) :
    framesLength (updateFrame number f frames) + frame.data.length =
      framesLength frames + (f frame).data.length := by
  induction frames with
  | nil => cases found
  | cons first frames ih =>
    rw [List.find?_cons] at found
    rw [updateFrame]
    unfold framesLength at ih ⊢
    by_cases here : first.number = number
    · have first_eq : first = frame := by simpa [here] using found
      rw [if_pos here, first_eq, List.map_cons, List.sum_cons, List.map_cons, List.sum_cons]
      omega
    · have other : (first.number == number) = false := by simpa using here
      rw [other] at found
      have later := ih found
      rw [if_neg here, List.map_cons, List.sum_cons, List.map_cons, List.sum_cons]
      omega

/-- Frames of a stored image may be replaced, with the byte count. -/
theorem Consistent.setFrames (h : g.Consistent) {id total : Nat} (stored : g.Stores id)
    {frames : List Frame}
    (sum : total + framesLength ((g.frames.lookup id).getD []) = g.totalBytes + framesLength frames) :
    Consistent { g with frames := g.frames.insert id frames, totalBytes := total } := by
  refine { h with distinctFrames := h.distinctFrames.insert, framed := ?_, counted := ?_ }
  · intro k framed
    rw [AssocMap.lookup_insert] at framed
    split at framed
    · rename_i same
      rw [same]
      exact stored
    · exact h.framed k framed
  · have erased := h.distinctFrames.total_erase framesLength id
    have counted := h.counted
    have before : framesLength ((g.frames.lookup id).getD []) =
        ((g.frames.lookup id).map framesLength).getD 0 := by
      cases g.frames.lookup id <;> rfl
    dsimp only
    rw [AssocMap.total_insert]
    omega

theorem Kept.setFrames (h : g.Kept) {id total : Nat} (stored : g.Stores id) {frames : List Frame}
    (sum : total + framesLength ((g.frames.lookup id).getD []) = g.totalBytes + framesLength frames) :
    Kept { g with frames := g.frames.insert id frames, totalBytes := total } :=
  ⟨h.1.setFrames stored sum, h.2⟩

theorem storeFrame_spec (h : g.Kept) (format : ImageFormat) (data : Bytes) :
    Guarded False (g.storeFrame cmd format data) (·.1.Kept) := by
  unfold storeFrame
  split
  · exact .pure h
  · rename_i id found
    have stored := resolveId_spec h.1 found
    refine (Guarded.trivial _).bind fun number _ => ?_
    refine (Guarded.add.weaken False.elim).bind fun total added => ?_
    obtain ⟨total_eq, -⟩ := added
    generalize new : Frame.mk number cmd.z cmd.cols cmd.srcX cmd.srcY format cmd.width cmd.height data
      (cmd.cellX == 1) = frame
    have length : frame.data.length = data.length := by rw [← new]
    refine Guarded.bind (p := fun r => r.2 + framesLength ((g.frames.lookup id).getD []) =
      g.totalBytes + framesLength r.1) ?_ fun r sum => ?_
    · split
      · rename_i existing edited
        refine (Guarded.sub.weaken False.elim).bind fun rest taken => .pure ?_
        obtain ⟨rest_eq, inside⟩ := taken
        have changed := framesLength_updateFrame (f := fun _ => frame) edited
        dsimp only
        omega
      · refine .pure ?_
        unfold framesLength
        rw [List.map_append, List.sum_append, List.map_singleton, List.sum_singleton]
        omega
    · exact (enforceQuota_spec (h.setFrames stored sum)).bind fun g' kept => .pure kept.1

theorem compose_spec (h : g.Kept) : Guarded False (g.compose cmd) (·.1.Kept) := by
  unfold compose
  split
  · exact .pure h
  · rename_i id found
    have stored := resolveId_spec h.1 found
    refine (Guarded.trivial _).bind fun img _ => ?_
    dsimp only
    split
    · exact .pure h
    · refine (Guarded.trivial _).bind fun src _ => (Guarded.trivial _).bind fun dst _ => ?_
      split
      · refine (Guarded.trivial _).bind fun canvas _ => ?_
        refine (Guarded.unwrap.weaken False.elim).bind fun frame here => ?_
        refine (Guarded.sub.weaken False.elim).bind fun rest taken => ?_
        obtain ⟨rest_eq, inside⟩ := taken
        refine (Guarded.add.weaken False.elim).bind fun total added => ?_
        obtain ⟨total_eq, -⟩ := added
        have changed := framesLength_updateFrame (f := composedInto canvas img) here
        have length : (composedInto canvas img frame).data.length = canvas.length := rfl
        exact (enforceQuota_spec (h.setFrames stored (by omega))).bind fun g' kept => .pure kept.1
      · exact .pure h

theorem animate_consistent (h : g.Consistent) : (g.animate cmd).1.Consistent ∧
    ∃ animations, (g.animate cmd).1 = { g with animations } := by
  unfold animate
  split
  · exact ⟨h, _, rfl⟩
  · rename_i id found
    refine ⟨{ h with animated := fun k animated => ?_ }, _, rfl⟩
    dsimp only at animated
    rw [AssocMap.lookup_insert] at animated
    split at animated
    · rename_i same
      rw [same]
      exact resolveId_spec h found
    · exact h.animated k animated

theorem animate_spec (h : g.Kept) : (g.animate cmd).1.Kept := by
  obtain ⟨consistent, animations, same⟩ := @animate_consistent g cmd h.1
  refine ⟨consistent, ?_⟩
  rw [same]
  exact h.2

/-! ### Placements -/

theorem placeAndRespond_spec (h : g.Kept) (stored : g.Stores cmd.id) (ok : Option (List Char))
    (cursor : Nat × Nat) : Guarded False (g.placeAndRespond cmd ok cursor) (·.1.Kept) := by
  have placed : Returns False (g.addPlacement cmd cursor) (·.1.Kept) := by
    unfold addPlacement
    refine Returns.skip fun cell => .pure ⟨{ h.1 with }, fun p mem => ?_⟩
    rcases List.mem_append.mp mem with old | new
    · exact h.2 p (List.mem_of_mem_filter old)
    · rw [List.mem_singleton.mp new]
      exact stored
  unfold placeAndRespond
  refine placed.result.bind fun placed kept => ?_
  cases placed with
  | ok r => exact .pure (kept _ rfl)
  | error e => exact .pure h

theorem place_spec (h : g.Kept) (cursor : Nat × Nat) : Guarded False (g.place cmd cursor) (·.1.Kept) := by
  unfold place
  split
  · rename_i id found
    exact placeAndRespond_spec h (resolveId_spec h.1 found) _ cursor
  · exact .pure h

/-- Placements may go. -/
theorem Kept.subset (h : g.Kept) {placements : List Placement} (fewer : placements ⊆ g.placements) :
    Kept { g with placements } :=
  ⟨{ h.1 with }, fun p mem => h.2 p (fewer mem)⟩

/-- An image without placements may go. -/
theorem removeImageData_kept (h : g.Kept) {id : Nat} (bare : ∀ p ∈ g.placements, p.imageId ≠ id) :
    Guarded False (g.removeImageData id) Kept := by
  refine (removeImageData_spec h.1 id).mono fun g' ⟨consistent, same⟩ => ⟨consistent, fun p mem => ?_⟩
  have inside : p ∈ g.placements := by
    rw [same] at mem
    exact mem
  have images : g'.images = g.images.erase id := by rw [same]
  unfold Stores
  rw [images, AssocMap.lookup_erase, if_neg (bare p inside)]
  exact h.2 p inside

theorem deletePlacements_spec (h : g.Kept) (free : Bool)
    (pred : GraphicsState → Placement → Checked Bool) :
    Guarded False (g.deletePlacements free pred) Kept := by
  unfold deletePlacements
  dsimp only
  refine Guarded.bind (p := fun r => r.2 ⊆ g.placements) ?_ fun (touched, kept) fewer => ?_
  · refine Guarded.forEach (List.nil_subset _) fun p mem (touched, kept) fewer => ?_
    refine (Guarded.trivial _).bind fun hit _ => .pure ?_
    cases hit with
    | true => exact fewer
    | false => exact List.append_subset.mpr ⟨fewer, List.cons_subset.mpr ⟨mem, List.nil_subset _⟩⟩
  · dsimp only
    split
    · refine Guarded.forEach (h.subset fewer) fun id _ g' kept => ?_
      split
      · exact .pure kept
      · rename_i bare
        refine removeImageData_kept kept fun p mem same => bare ?_
        exact List.any_eq_true.mpr ⟨p, mem, by simpa using same⟩
    · exact .pure (h.subset fewer)

/-- `a=d,d=I` with a placement id, of an image that has another placement. -/
def Strands (cmd : Command) (g : GraphicsState) : Prop :=
  toLower cmd.delete = 'i' ∧ isUpper cmd.delete = true ∧ cmd.placementId ≠ 0 ∧
    ∃ id, g.resolveId cmd = some id ∧
      ∃ p ∈ g.placements, p.imageId = id ∧ p.placementId ≠ cmd.placementId

theorem delete_spec (h : g.Kept) (harmless : ¬ Strands cmd g) (cursor : Nat × Nat) :
    Guarded False (g.delete cmd cursor) Kept := by
  have filtered (keep : Placement → Bool) : g.placements.filter keep ⊆ g.placements :=
    List.filter_sublist.subset
  have cleared : Guarded False (pure (if isUpper cmd.delete = true then
      { g with placements := [], images := [], frames := [], animations := [], totalBytes := 0 }
      else { g with placements := [] }) : Checked GraphicsState) Kept := by
    refine .pure ?_
    split
    · exact ⟨consistent_bare ⟨rfl, rfl, rfl⟩ rfl h.1.short, nofun⟩
    · exact h.subset (List.nil_subset _)
  unfold delete
  dsimp only
  split
  · exact cleared
  · exact cleared
  · rename_i lower
    split
    · exact .pure h
    · rename_i id found
      have kept := h.subset (filtered fun p =>
        p.imageId != id || (cmd.placementId != 0 && p.placementId != cmd.placementId))
      split
      · rename_i upper
        refine removeImageData_kept kept fun p mem same => ?_
        obtain ⟨inside, left⟩ := List.mem_filter.mp mem
        simp only [same, bne_self_eq_false, Bool.false_or, Bool.and_eq_true, bne_iff_ne, ne_eq] at left
        exact harmless ⟨lower, upper, left.1, id, found, p, inside, same, left.2⟩
      · exact .pure kept
  · split
    · exact .pure h
    · rename_i id found
      have kept := h.subset (filtered fun p => p.imageId != id)
      split
      · refine removeImageData_kept kept fun p mem => ?_
        simpa using (List.mem_filter.mp mem).2
      · exact .pure kept
  · exact deletePlacements_spec h _ _
  · exact deletePlacements_spec h _ _
  · exact deletePlacements_spec h _ _
  · exact deletePlacements_spec h _ _
  · exact deletePlacements_spec h _ _
  · exact deletePlacements_spec h _ _
  · exact .pure h

/-! ### One command -/

theorem finishTransmission_spec (h : g.Kept) {payload : Bytes}
    (short : payload.length ≤ MAX_PENDING_PAYLOAD) (cursor : Nat × Nat) :
    Guarded False (g.finishTransmission files cmd payload cursor) (·.1.Kept) := by
  unfold finishTransmission
  refine (decodeTransmission_fits short).result.bind fun decoded fits => ?_
  cases decoded with
  | error e => exact .pure h
  | ok decoded =>
    obtain ⟨cmd, format, data⟩ := decoded
    have fits : data.length ≤ QUOTA_BYTES := fits _ rfl
    dsimp only
    split
    · exact (storeFrame_spec h format data).bind fun (g, resp) kept => .pure kept
    · have assigned : Guarded False (g.assignId cmd) (·.2.Kept) := by
        unfold assignId
        split
        · exact (Guarded.trivial _).bind fun next _ => .pure ⟨{ h.1 with }, h.2⟩
        · exact .pure ⟨{ h.1 with }, h.2⟩
      refine assigned.bind fun (cmd, g) h => ?_
      dsimp only
      split
      · exact .pure h
      · refine (storeImage_spec h fits).bind fun g ⟨h, stored⟩ => ?_
        split
        · exact placeAndRespond_spec h stored _ cursor
        · exact .pure h

/-- The payload of a string that the parser keeps. -/
theorem length_payload_le (data : Bytes) : (splitControl data).2.length ≤ data.length := by
  have shorter : (data.dropWhile fun b => !isByte ';' b).length ≤ data.length :=
    (List.dropWhile_sublist _).length_le
  rw [splitControl, List.length_drop]
  omega

theorem command_spec (h : g.Kept) (harmless : Char.ofNat cmd.action.toNat = 'd' → ¬ Strands cmd g)
    {payload : Bytes} (short : payload.length ≤ MAX_PENDING_PAYLOAD) (cursor : Nat × Nat) :
    Guarded False (g.command files cmd payload cursor) (·.1.Kept) := by
  have transmission : Guarded False (if cmd.more = 1 then
      pure ({ g with pending := some { cmd, payload } }, none, none)
      else g.finishTransmission files cmd payload cursor : Checked Outcome) (·.1.Kept) := by
    split
    · refine .pure ⟨{ h.1 with short := ?_ }, h.2⟩
      rintro _ ⟨⟩
      exact short
    · exact finishTransmission_spec h short cursor
  unfold command
  split
  · exact transmission
  · exact transmission
  · exact transmission
  · exact transmission
  · exact transmission
  · exact place_spec h cursor
  · rename_i action
    exact (delete_spec h (harmless action) cursor).bind fun g kept => .pure kept
  · exact .pure (animate_spec h)
  · exact (compose_spec h).bind fun (g, resp) kept => .pure kept
  · exact .pure h

/-- A string whose command frees an image under a placement of it. -/
def Stranding (data : Bytes) (g : GraphicsState) : Prop :=
  g.pending = none ∧ ∃ cmd, parseCommand (splitControl data).1 = some cmd ∧
    Char.ofNat cmd.action.toNat = 'd' ∧ Strands cmd g

theorem dispatch_spec (h : g.Kept) {data : Bytes} (kept : data.length ≤ MAX_APC)
    (harmless : ¬ Stranding data g) (cursor : Nat × Nat) :
    Guarded False (g.dispatch files data cursor) (·.1.Kept) := by
  have payload := length_payload_le data
  unfold dispatch
  dsimp only
  split
  · exact .pure h
  · rename_i cmd parsed
    split
    · rename_i pending held
      -- what is held stays within the limit, whether or not the chunk is added
      have short : (if pending.payload.length + (splitControl data).2.length ≤ MAX_PENDING_PAYLOAD then
          { pending with payload := pending.payload ++ (splitControl data).2 }
          else pending).payload.length ≤ MAX_PENDING_PAYLOAD := by
        split
        · rw [List.length_append]
          assumption
        · exact h.1.short pending held
      generalize (if pending.payload.length + (splitControl data).2.length ≤ MAX_PENDING_PAYLOAD then
          _ else _) = pending at short ⊢
      have idle : Kept { g with pending := none } := ⟨{ h.1 with short := nofun }, h.2⟩
      split
      · refine .pure ⟨{ h.1 with short := ?_ }, h.2⟩
        rintro _ ⟨⟩
        exact short
      · exact finishTransmission_spec idle short cursor
    · rename_i idle
      refine command_spec h (fun action strands => harmless ⟨idle, cmd, parsed, action, strands⟩) ?_ cursor
      unfold MAX_APC at kept
      unfold MAX_PENDING_PAYLOAD
      omega

end GraphicsState

/-! ### Runs -/

namespace GraphicsState

open Graphics

/-- Commands of the strings that the parser keeps, and resets. -/
def commands : Transition GraphicsState where
  init g := g = {}
  step g g' := g' = g.reset ∨ ∃ files data cursor out, data.length ≤ MAX_APC ∧
    g.dispatch files data cursor = .ok (g', out)

/-- The same without commands that free an image under a placement of it. -/
def harmless : Transition GraphicsState where
  init g := g = {}
  step g g' := g' = g.reset ∨ ∃ files data cursor out, data.length ≤ MAX_APC ∧
    ¬ Stranding data g ∧ g.dispatch files data cursor = .ok (g', out)

variable {g : GraphicsState}

theorem kept_invariant : harmless.Invariant Kept where
  base := by
    rintro g rfl
    exact kept_empty
  step := by
    rintro g g' h (rfl | ⟨files, data, cursor, out, short, harmless, eq⟩)
    · exact kept_empty
    · exact (dispatch_spec h short harmless cursor).of_eq_ok eq

/-- As long as no command frees an image under a placement of it, every placement, every
frame and every animation is one of a stored image. -/
theorem references_stored (h : harmless.Reachable g) : g.Linked :=
  (kept_invariant.reachable h).linked

theorem reachable_of_harmless (h : harmless.Reachable g) : commands.Reachable g := by
  refine Transition.Reachable.induct (M := harmless) (fun _ init => .of_init init) ?_ h
  intro g g' _ before step
  rcases step with reset | ⟨files, data, cursor, out, short, _, eq⟩
  · exact before.tail (.inl reset)
  · exact before.tail (.inr ⟨files, data, cursor, out, short, eq⟩)

theorem not_stranding {data : Bytes} {cmd : Command}
    (parsed : parseCommand (splitControl data).1 = some cmd)
    (other : Char.ofNat cmd.action.toNat ≠ 'd') : ¬ Stranding data g := by
  rintro ⟨-, cmd', parsed', action, -⟩
  obtain rfl : cmd = cmd' := Option.some.inj (parsed.symm.trans parsed')
  exact other action

/-- A pixel with two placements. -/
def twicePlaced : GraphicsState where
  images := [(1, ⟨1, 0, .rgb, 1, 1, [0, 0, 0], 1⟩)]
  placements := [newPlacement { action := 0x70, id := 1, placementId := 1 } (0, 0),
    newPlacement { action := 0x70, id := 1, placementId := 2 } (0, 0)]
  totalBytes := 3
  nextSeq := 1
  nextId := 1

theorem reachable_twicePlaced : harmless.Reachable twicePlaced := by
  have stored := (Transition.Reachable.of_init (M := harmless) rfl).tail (.inr
    ⟨fun _ => none, toUtf8 "i=1,f=24,s=1,v=1;AAAA".toList, (0, 0), _, by decide,
      not_stranding rfl (by decide), rfl⟩)
  have once := stored.tail (.inr ⟨fun _ => none, toUtf8 "a=p,i=1,p=1".toList, (0, 0), _, by decide,
    not_stranding rfl (by decide), rfl⟩)
  exact once.tail (.inr ⟨fun _ => none, toUtf8 "a=p,i=1,p=2".toList, (0, 0), _, by decide,
    not_stranding rfl (by decide), rfl⟩)

theorem references_stored_twicePlaced : twicePlaced.Linked :=
  references_stored reachable_twicePlaced

/-- One of two placements of an image is deleted with `d=I`: the image goes, and the other
placement stays. -/
theorem placement_stranded : ¬ ∀ g, commands.Reachable g → g.Linked := by
  intro all
  have freed := (reachable_of_harmless reachable_twicePlaced).tail (.inr
    ⟨fun _ => none, toUtf8 "a=d,d=I,i=1,p=1".toList, (0, 0), _, by decide, rfl⟩)
  have stored := (all _ freed).placed _ (List.mem_singleton.mpr rfl)
  exact absurd stored (by unfold Stores; decide)

end GraphicsState

end Posh.Term
