import Posh.Term.Placements

/-!
The graphics commands as each build of the program runs them.

A debug build stops at a sum or a product that leaves its type; a release build goes on
with what is left of it in the type's bits. What does neither sums nor products of
numbers from outside is the same in both and is taken from the debug build's model:
`transmitted`, `decompressed` and `unfilter`, and the byte count of `store_image`, whose
sums never leave their types. A subtraction is checked in both, so that one that leaves
its type shows in a release build too.
-/

namespace Posh.Term

open Posh.Lib

inductive Build where
  | debug
  | release
deriving DecidableEq, Repr

namespace Build

/-- `a + b` in an unsigned type of `bits` bits. -/
def add (build : Build) (bits a b : Nat) : Checked Nat :=
  match build with
  | .debug => Lib.add bits a b
  | .release => .ok ((a + b) % 2 ^ bits)

/-- `a * b` in an unsigned type of `bits` bits. -/
def mul (build : Build) (bits a b : Nat) : Checked Nat :=
  match build with
  | .debug => Lib.mul bits a b
  | .release => .ok (a * b % 2 ^ bits)

@[simp] theorem add_eq {build : Build} {bits a b : Nat} (fits : a + b < 2 ^ bits) :
    build.add bits a b = .ok (a + b) := by
  cases build with
  | debug => exact add_eq_ok fits
  | release => exact congrArg _ (Nat.mod_eq_of_lt fits)

@[simp] theorem mul_eq {build : Build} {bits a b : Nat} (fits : a * b < 2 ^ bits) :
    build.mul bits a b = .ok (a * b) := by
  cases build with
  | debug => exact mul_eq_ok fits
  | release => exact congrArg _ (Nat.mod_eq_of_lt fits)

theorem add_yields {build : Build} {bits a b : Nat} (fits : a + b < 2 ^ bits) :
    Yields (build.add bits a b) (· = a + b) :=
  ⟨_, add_eq fits, rfl⟩

theorem mul_yields {build : Build} {bits a b : Nat} (fits : a * b < 2 ^ bits) :
    Yields (build.mul bits a b) (· = a * b) :=
  ⟨_, mul_eq fits, rfl⟩

/-! ### PNG -/

open Png in
def parseIhdr (build : Build) (data : Bytes) : Fallible PngError Header :=
  match data with
  | [w0, w1, w2, w3, h0, h1, h2, h3, depth, color, compression, filter, interlace] =>
      let width := ofBe32 w0 w1 w2 w3
      let height := ofBe32 h0 h1 h2 h3
      if width = 0 ∨ height = 0 then .fail .badHeader
      else do
        let area ← liftM (build.mul 64 width height)
        let bytes ← liftM (build.mul 64 area 4)
        if bytes > MAX_RGBA_BYTES then .fail .badHeader
        else if compression ≠ 0 ∨ filter ≠ 0 then .fail .badHeader
        else if depth ≠ 8 ∨ interlace ≠ 0 ∨ color.toNat ∉ [0, 2, 3, 4, 6] then .fail .unsupported
        else return { width, height, color := color.toNat }
  | _ => .fail .badHeader

open Png in
def readChunks (build : Build) (rest : Bytes) :
    (budget at_ : Nat) → Chunks → Fallible PngError Chunks
  | 0, _, _ => .fail .truncated
  | budget + 1, at_, chunks => do
      let len ← Fallible.ofOption .truncated (Inflate.be32 rest at_)
      let kind ← Fallible.ofOption .truncated (part rest (at_ + 4) 4)
      let body ← Fallible.ofOption .truncated (part rest (at_ + 8) len)
      let crc ← Fallible.ofOption .truncated (Inflate.be32 rest (at_ + 8 + len))
      if crc32 (kind ++ body) ≠ crc then .fail .badCrc
      else if kind = toUtf8 "IEND".toList then
        return chunks
      else
        let chunks ←
          (if kind = toUtf8 "IHDR".toList then do
            let hdr ← build.parseIhdr body
            return { chunks with hdr := some hdr }
          else if kind = toUtf8 "IDAT".toList then return { chunks with idat := chunks.idat ++ body }
          else if kind = toUtf8 "PLTE".toList then return { chunks with plte := body }
          else if kind = toUtf8 "tRNS".toList then return { chunks with trns := body }
          else return chunks : Fallible PngError Chunks)
        if chunks.hdr.isNone then .fail .badHeader
        else build.readChunks rest budget (at_ + 12 + len) chunks

open Png in
def decode (build : Build) (data : Bytes) : Fallible PngError DecodedPng := do
  if !SIGNATURE.isPrefixOf data then .fail .badSignature
  else
    let rest := data.drop SIGNATURE.length
    let chunks ← build.readChunks rest (rest.length + 1) 0 {}
    let hdr ← Fallible.ofOption .badHeader chunks.hdr
    let stride ← liftM (build.mul 64 hdr.width hdr.channels)
    let line ← liftM (build.add 64 1 stride)
    let expect ← liftM (build.mul 64 hdr.height line)
    let inflated ← liftM (Inflate.zlibDecompress chunks.idat expect).result
    match inflated with
    | .error _ => .fail .badData
    | .ok raw =>
        if raw.length ≠ expect then .fail .badData
        else
          let samples ← unfilter raw hdr.width hdr.height hdr.channels
          let rgba ← toRgba hdr samples chunks.plte chunks.trns
          return { width := hdr.width, height := hdr.height, rgba }

open Graphics GraphicsState

/-! ### Composition -/

/-- Composes a rectangle of `src` onto `dst`, clipped to both. -/
def composeRect (build : Build) (dst src : Bytes) (r : Rect) (replace : Bool) : Checked Bytes :=
  let w := min (min r.size.1 (r.srcSize.1 - r.srcPos.1)) (r.dstSize.1 - r.dstPos.1)
  let h := min (min r.size.2 (r.srcSize.2 - r.srcPos.2)) (r.dstSize.2 - r.dstPos.2)
  forRange 0 h dst fun row dst => do
    let sRow ← build.add 64 r.srcPos.2 row
    let sLine ← build.mul 64 sRow r.srcSize.1
    let sPx ← build.add 64 sLine r.srcPos.1
    let sAt ← build.mul 64 sPx 4
    let dRow ← build.add 64 r.dstPos.2 row
    let dLine ← build.mul 64 dRow r.dstSize.1
    let dPx ← build.add 64 dLine r.dstPos.1
    let dAt ← build.mul 64 dPx 4
    forRange 0 w dst fun col dst => do
      let at_ ← build.mul 64 col 4
      let sLo ← build.add 64 sAt at_
      let sHi ← build.add 64 sLo 4
      let s ← slice src sLo sHi
      let dLo ← build.add 64 dAt at_
      let dHi ← build.add 64 dLo 4
      let d ← slice dst dLo dHi
      let px ← (if replace then pure s else blendPx d s)
      return writePx dst dLo px

/-- A frame composed onto its base chain. -/
def composeChain (build : Build) (img : Image) (frames : List Frame) :
    (budget : Nat) → (frameNo : Nat) → (seen : List Nat) → Checked (Option Bytes)
  | 0, _, _ => return none
  | budget + 1, frameNo, seen =>
      if frameNo = 0 then return some (asRgba img.format img.data)
      else if seen.contains frameNo then return none
      else
        match frames.find? (·.number == frameNo) with
        | none => return none
        | some frame => do
            let canvas ← build.composeChain img frames budget frame.baseFrame (seen ++ [frameNo])
            match canvas with
            | none => return none
            | some canvas =>
                let composed ← build.composeRect canvas (asRgba frame.format frame.data)
                  { dstSize := (img.width, img.height), srcSize := (frame.width, frame.height),
                    srcPos := (0, 0), dstPos := (frame.x, frame.y),
                    size := (frame.width, frame.height) } frame.replace
                return some composed

/-- The full canvas of a frame; 0 is the root image. -/
def composedFrame (build : Build) (imageId frameNo : Nat) (g : GraphicsState) :
    Checked (Option Bytes) :=
  match g.images.lookup imageId with
  | none => return none
  | some img =>
      if img.width = 0 ∨ img.height = 0 then return none
      else
        let frames := (g.frames.lookup img.id).getD []
        build.composeChain img frames (frames.length + 2) frameNo []

/-! ### Placements -/

/-- `(i32::from(base) + off).max(0) as u16` -/
def offsetCell (build : Build) (base : Nat) (off : Int) : Checked Nat :=
  match build with
  | .debug => GraphicsState.offsetCell base off
  | .release => .ok ((max (asI32 (base + off)) 0).toNat % 2 ^ 16)

/-- Where a placement goes: the cursor, or its parent's cell and offsets. -/
def placementCell (build : Build) (cmd : Command) (cursor : Nat × Nat) (g : GraphicsState) :
    Fallible String (Nat × Nat) :=
  if cmd.parentImage = 0 then return cursor
  else if parentCycle (cmd.id, cmd.placementId) g (g.placements.length + 1)
      (cmd.parentImage, cmd.parentPlacement) then
    .fail "ECYCLE:relative placement cycle"
  else
    match g.findPlacement cmd.parentImage cmd.parentPlacement with
    | none => .fail "ENOPARENT:no such parent placement"
    | some parent => do
        let row ← liftM (build.offsetCell parent.row cmd.vOff)
        let col ← liftM (build.offsetCell parent.col cmd.hOff)
        return (row, col)

/-- Creates or replaces a placement. -/
def addPlacement (build : Build) (cmd : Command) (cursor : Nat × Nat) (g : GraphicsState) :
    Fallible String (GraphicsState × Advance) := do
  let cell ← build.placementCell cmd cursor g
  let placement := newPlacement cmd cell
  let kept := g.placements.filter fun p =>
    !(p.imageId == cmd.id && p.placementId == cmd.placementId)
  let advance :=
    if !cmd.noCursorMove && !cmd.unicode && cmd.parentImage == 0 then some (g.extent placement)
    else none
  return ({ g with placements := kept ++ [placement] }, advance)

/-- `add_placement` with its acknowledgement. -/
def placeAndRespond (build : Build) (cmd : Command) (ok : Option (List Char))
    (cursor : Nat × Nat) (g : GraphicsState) : Checked Outcome := do
  let placed ← (build.addPlacement cmd cursor g).result
  match placed with
  | .ok (g, advance) => return (g, ok, advance)
  | .error e => return (g, respond cmd e, none)

def place (build : Build) (cmd : Command) (cursor : Nat × Nat) (g : GraphicsState) :
    Checked Outcome :=
  match g.resolveId cmd with
  | some id => build.placeAndRespond { cmd with id } (respond { cmd with id } "OK") cursor g
  | none => return (g, respond cmd "ENOENT:no such image", none)

def intersects (build : Build) (p : Placement) (row col : Nat) (g : GraphicsState) : Checked Bool :=
  if p.unicode then return false
  else
    let (cols, rows) := g.extent p
    if row < p.row then return false
    else do
      let bottom ← build.add 32 p.row rows
      if ¬ row < bottom ∨ col < p.col then return false
      else
        let right ← build.add 32 p.col cols
        return col < right

/-- Deletes by 1-based cell, when both coordinates are given. -/
def atCell (build : Build) (x y : Nat) (g : GraphicsState) (p : Placement) : Checked Bool :=
  if x ≥ 1 ∧ y ≥ 1 then build.intersects p (clampCell (y - 1)) (clampCell (x - 1)) g
  else return false

def inColumn (build : Build) (x : Nat) (g : GraphicsState) (p : Placement) : Checked Bool :=
  if x < 1 ∨ p.unicode then return false
  else if x - 1 < p.col then return false
  else do
    let right ← build.add 32 p.col (g.extent p).1
    return x - 1 < right

def inRow (build : Build) (y : Nat) (g : GraphicsState) (p : Placement) : Checked Bool :=
  if y < 1 ∨ p.unicode then return false
  else if y - 1 < p.row then return false
  else do
    let bottom ← build.add 32 p.row (g.extent p).2
    return y - 1 < bottom

def delete (build : Build) (cmd : Command) (cursor : Nat × Nat) (g : GraphicsState) :
    Checked GraphicsState :=
  let free := isUpper cmd.delete
  match toLower cmd.delete with
  | 'c' => g.deletePlacements free fun g p => build.intersects p cursor.1 cursor.2 g
  | 'p' => g.deletePlacements free (build.atCell cmd.srcX cmd.srcY)
  | 'q' =>
      g.deletePlacements free fun g p =>
        if p.z = cmd.z then build.atCell cmd.srcX cmd.srcY g p else return false
  | 'x' => g.deletePlacements free (build.inColumn cmd.srcX)
  | 'y' => g.deletePlacements free (build.inRow cmd.srcY)
  -- the other forms compare and count nothing
  | _ => g.delete cmd cursor

/-! ### Frames -/

/-- `a=f`: stores one animation frame. -/
def storeFrame (build : Build) (cmd : Command) (format : ImageFormat) (data : Bytes)
    (g : GraphicsState) : Checked (GraphicsState × Option (List Char)) :=
  match g.resolveId cmd with
  | none => return (g, respond cmd "ENOENT:no such image")
  | some id => do
      let frames := (g.frames.lookup id).getD []
      let number ← (if cmd.rows ≠ 0 then pure cmd.rows
        else build.add 32 (lastFrameNumber frames) 1)
      let frame : Frame :=
        { number, gapMs := cmd.z, baseFrame := cmd.cols, x := cmd.srcX, y := cmd.srcY, format,
          width := cmd.width, height := cmd.height, data, replace := cmd.cellX == 1 }
      let total ← build.add 64 g.totalBytes data.length
      let (frames, total) ← (match frames.find? (·.number == number) with
        | some existing => do
            let total ← sub total existing.data.length
            return (updateFrame number (fun _ => frame) frames, total)
        | none => return (frames ++ [frame], total) : Checked (List Frame × Nat))
      let g ← { g with frames := g.frames.insert id frames, totalBytes := total }.enforceQuota
      return (g, respond cmd "OK")

/-- `a=c`: composes a rectangle of one frame onto another. -/
def compose (build : Build) (cmd : Command) (g : GraphicsState) :
    Checked (GraphicsState × Option (List Char)) :=
  match g.resolveId cmd with
  | none => return (g, respond cmd "ENOENT:no such image")
  | some id => do
      let img ← unwrap (g.images.lookup id)
      let frames := (g.frames.lookup id).getD []
      let have_ (n : Nat) : Bool := n != 0 && frames.any (·.number == n)
      if !have_ cmd.rows || !have_ cmd.cols then
        return (g, respond cmd "ENOENT:no such frame")
      else
        let src ← build.composedFrame id cmd.cols g
        let dst ← build.composedFrame id cmd.rows g
        match src, dst with
        | some src, some dst =>
            let canvas ← build.composeRect dst src
              { dstSize := (img.width, img.height), srcSize := (img.width, img.height),
                srcPos := (cmd.cellX, cmd.cellY), dstPos := (cmd.srcX, cmd.srcY),
                size := (if cmd.srcW ≠ 0 then cmd.srcW else img.width,
                  if cmd.srcH ≠ 0 then cmd.srcH else img.height) } cmd.noCursorMove
            let frame ← unwrap (frames.find? (·.number == cmd.rows))
            let frames := updateFrame cmd.rows (composedInto canvas img) frames
            let total ← sub g.totalBytes frame.data.length
            let total ← build.add 64 total canvas.length
            let g ← { g with
              frames := g.frames.insert id frames, totalBytes := total }.enforceQuota
            return (g, respond cmd "OK")
        | _, _ => return (g, respond cmd "EINVAL:could not compose frame")

/-! ### Transmission -/

/-- PNG is decoded; raw pixels must match the dimensions. -/
def pixels (build : Build) (cmd : Command) (format : ImageFormat) (data : Bytes) :
    Fallible String (Command × Bytes) :=
  match format with
  | .png => do
      let decoded ← liftM (build.decode data).result
      match decoded with
      | .ok png => return ({ cmd with width := png.width, height := png.height }, png.rgba)
      | .error _ => .fail "EBADPNG:failed to decode PNG"
  | _ => do
      let bpp := if format = .rgb then 3 else 4
      let area ← liftM (build.mul 64 cmd.width cmd.height)
      let expect ← liftM (build.mul 64 area bpp)
      if cmd.width = 0 ∨ cmd.height = 0 ∨ data.length ≠ expect then
        .fail "EINVAL:payload size does not match dimensions"
      else return (cmd, data)

/-- Everything `finish_transmission` decodes before it stores anything. -/
def decodeTransmission (build : Build) (files : List Char → Option Bytes) (cmd : Command)
    (payload : Bytes) : Fallible String (Command × ImageFormat × Bytes) := do
  let data ← transmitted files cmd payload
  let data ← decompressed cmd data
  let format ← Fallible.ofOption "EINVAL:unknown format" (imageFormat cmd.format)
  let (cmd, data) ← build.pixels cmd format data
  return (cmd, format, data)

/-- The id an image gets, and the store with its counter advanced. -/
def assignId (build : Build) (cmd : Command) (g : GraphicsState) :
    Checked (Command × GraphicsState) :=
  if cmd.id = 0 then do
    let next ← build.add 32 g.nextId 1
    return ({ cmd with id := next }, { g with nextId := next })
  else return (cmd, { g with nextId := max g.nextId cmd.id })

def finishTransmission (build : Build) (files : List Char → Option Bytes) (cmd : Command)
    (payload : Bytes) (cursor : Nat × Nat) (g : GraphicsState) : Checked Outcome := do
  let decoded ← (build.decodeTransmission files cmd payload).result
  match decoded with
  | .error e => return (g, respond cmd e, none)
  | .ok (cmd, format, data) =>
      if isByte 'f' cmd.action then
        let (g, resp) ← build.storeFrame cmd format data g
        return (g, resp, none)
      else
        let (cmd, g) ← build.assignId cmd g
        let resp := respond cmd "OK"
        if isByte 'q' cmd.action then return (g, resp, none)
        else
          let g ← g.storeImage cmd format data
          if isByte 'T' cmd.action then build.placeAndRespond cmd resp cursor g
          else return (g, resp, none)

/-! ### Commands -/

/-- The first escape of a transmission, or a command of another kind. -/
def command (build : Build) (files : List Char → Option Bytes) (cmd : Command)
    (payload : Bytes) (cursor : Nat × Nat) (g : GraphicsState) : Checked Outcome :=
  match Char.ofNat cmd.action.toNat with
  | 't' | 'T' | 'q' | 'f' | '\x00' =>
      if cmd.more = 1 then return ({ g with pending := some { cmd, payload } }, none, none)
      else build.finishTransmission files cmd payload cursor g
  | 'p' => build.place cmd cursor g
  | 'd' => do
      let g ← build.delete cmd cursor g
      return (g, none, none)
  | 'a' =>
      let (g, resp) := g.animate cmd
      return (g, resp, none)
  | 'c' => do
      let (g, resp) ← build.compose cmd g
      return (g, resp, none)
  | _ => return (g, respond cmd "EINVAL:unknown action", none)

/-- Handles one APC payload, already without the leading `G`. -/
def dispatch (build : Build) (files : List Char → Option Bytes) (data : Bytes)
    (cursor : Nat × Nat) (g : GraphicsState) : Checked Outcome :=
  let (control, payload) := splitControl data
  match parseCommand control with
  | none => return (g, none, none)
  | some cmd =>
      match g.pending with
      | some pending =>
          let g := { g with pending := none }
          let pending :=
            if pending.payload.length + payload.length ≤ MAX_PENDING_PAYLOAD then
              { pending with payload := pending.payload ++ payload }
            else pending
          if cmd.more = 1 then return ({ g with pending := some pending }, none, none)
          else build.finishTransmission files pending.cmd pending.payload cursor g
      | none => build.command files cmd payload cursor g

/-! ### The debug build -/

section Debug

variable {files : List Char → Option Bytes} {cmd : Command} {g : GraphicsState}

theorem debug_readChunks (rest : Bytes) (budget at_ : Nat) (chunks : Png.Chunks) :
    debug.readChunks rest budget at_ chunks = Png.readChunks rest budget at_ chunks := by
  induction budget generalizing at_ chunks with
  | zero => rfl
  | succ budget ih =>
    rw [readChunks, Png.readChunks]
    simp only [ih]
    rfl

theorem debug_decode (data : Bytes) : debug.decode data = Png.decode data := by
  unfold decode Png.decode
  simp only [debug_readChunks]
  rfl

theorem debug_composeRect (dst src : Bytes) (r : Rect) (replace : Bool) :
    debug.composeRect dst src r replace = Graphics.composeRect dst src r replace :=
  rfl

theorem debug_composeChain (img : Image) (frames : List Frame) (budget frameNo : Nat)
    (seen : List Nat) : debug.composeChain img frames budget frameNo seen =
      GraphicsState.composeChain img frames budget frameNo seen := by
  induction budget generalizing frameNo seen with
  | zero => rfl
  | succ budget ih =>
    rw [composeChain, GraphicsState.composeChain]
    simp only [ih, debug_composeRect] <;> rfl

theorem debug_composedFrame (imageId frameNo : Nat) :
    debug.composedFrame imageId frameNo g = g.composedFrame imageId frameNo := by
  unfold composedFrame GraphicsState.composedFrame
  simp only [debug_composeChain] <;> rfl

theorem debug_delete (cursor : Nat × Nat) : debug.delete cmd cursor g = g.delete cmd cursor := by
  unfold delete
  dsimp only
  split
  all_goals first
    | rfl
    | rename_i form; unfold GraphicsState.delete; simp only [form]; rfl

theorem debug_compose : debug.compose cmd g = g.compose cmd := by
  unfold compose GraphicsState.compose
  simp only [debug_composedFrame, debug_composeRect]
  rfl

theorem debug_pixels (format : ImageFormat) (data : Bytes) :
    debug.pixels cmd format data = GraphicsState.pixels cmd format data := by
  unfold pixels GraphicsState.pixels
  simp only [debug_decode]
  rfl

theorem debug_finishTransmission (payload : Bytes) (cursor : Nat × Nat) :
    debug.finishTransmission files cmd payload cursor g =
      g.finishTransmission files cmd payload cursor := by
  unfold finishTransmission GraphicsState.finishTransmission decodeTransmission
    GraphicsState.decodeTransmission
  simp only [debug_pixels]
  rfl

/-- The model of the debug build is the one that the terminal uses. -/
theorem debug_dispatch (data : Bytes) (cursor : Nat × Nat) :
    debug.dispatch files data cursor g = g.dispatch files data cursor := by
  unfold dispatch GraphicsState.dispatch command GraphicsState.command
  simp only [debug_finishTransmission, debug_delete, debug_compose]
  rfl

end Debug

end Build

end Posh.Term
