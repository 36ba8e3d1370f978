import Posh.Lib.AssocMap
import Posh.Term.Base64
import Posh.Term.Png

/-!
The kitty graphics protocol (`graphics.rs`): command parsing, image storage,
placements, deletes, animation frames and their composition.

`files` stands for the file system that `t=f` and `t=t` transmissions read; that a
temporary file is removed after reading is not modelled. Sequence numbers (`u64`)
are natural numbers; every other machine integer is checked.
-/

namespace Posh.Term

open Posh.Lib

def CELL_W : Nat := 10
def CELL_H : Nat := 20

/-- The decimal digits of `n`. -/
def decimal (n : Nat) : List Char :=
  Nat.toDigits 10 n

inductive ImageFormat where
  | rgb
  | rgba
  | png
deriving DecidableEq, Repr

structure Image where
  id : Nat
  number : Nat
  format : ImageFormat
  width : Nat
  height : Nat
  data : Bytes
  seq : Nat
deriving DecidableEq, Repr

structure Frame where
  number : Nat
  gapMs : Int
  /-- Frame composed beneath this one, 0 for the root image. -/
  baseFrame : Nat
  x : Nat
  y : Nat
  format : ImageFormat
  width : Nat
  height : Nat
  data : Bytes
  replace : Bool
deriving DecidableEq, Repr

structure AnimationState where
  state : Nat := 0
  loops : Nat := 0
  currentFrame : Nat := 0
deriving DecidableEq, Repr

structure Placement where
  imageId : Nat
  placementId : Nat
  row : Nat
  col : Nat
  srcX : Nat
  srcY : Nat
  srcW : Nat
  srcH : Nat
  cols : Nat
  rows : Nat
  z : Int
  parentImage : Nat
  parentPlacement : Nat
  hOff : Int
  vOff : Int
  cellX : Nat
  cellY : Nat
  unicode : Bool
deriving DecidableEq, Repr

namespace Graphics

/-- The storage quota. -/
def QUOTA_BYTES : Nat := 320 * 1024 * 1024

def MAX_PENDING_PAYLOAD : Nat := 430000000

/-- Control data of one escape; letters are 0 when absent. -/
structure Command where
  action : UInt8 := 0
  quiet : Nat := 0
  format : Nat := 0
  transmission : UInt8 := 0
  width : Nat := 0
  height : Nat := 0
  id : Nat := 0
  number : Nat := 0
  placementId : Nat := 0
  more : Nat := 0
  srcX : Nat := 0
  srcY : Nat := 0
  srcW : Nat := 0
  srcH : Nat := 0
  cols : Nat := 0
  rows : Nat := 0
  z : Int := 0
  delete : UInt8 := 0
  noCursorMove : Bool := false
  unicode : Bool := false
  parentImage : Nat := 0
  parentPlacement : Nat := 0
  hOff : Int := 0
  vOff : Int := 0
  cellX : Nat := 0
  cellY : Nat := 0
  fileOffset : Nat := 0
  fileSize : Nat := 0
  compression : UInt8 := 0
deriving DecidableEq, Repr

/-! ### Parsing -/

/-- `n as u8`, `n as u32` and `n as u64` for a signed `n`. -/
def asUnsigned (bits : Nat) (n : Int) : Nat :=
  (n % 2 ^ bits).toNat

/-- `n as i32` -/
def asI32 (n : Int) : Int :=
  (n + 2 ^ 31) % 2 ^ 32 - 2 ^ 31

/-- `str::parse::<i64>` -/
def parseI64 (s : List Char) : Option Int :=
  match s with
  | '-' :: digits =>
      if digits.head? = some '+' then none
      else (fromStrRadix (2 ^ 63) 10 digits).map fun n => -(n : Int)
  | _ => (fromStrRadix (2 ^ 63 - 1) 10 s).map fun n => (n : Int)

def valueInt (value : Bytes) : Int :=
  (parseI64 ((fromUtf8 value).getD ['0'])).getD 0

def valueChar (value : Bytes) : UInt8 :=
  value.head?.getD 0

def setKey (key : Bytes) (value : Bytes) (cmd : Command) : Command :=
  let int := valueInt value
  let u32 := asUnsigned 32 int
  match key.map fun b => Char.ofNat b.toNat with
  | ['a'] => { cmd with action := valueChar value }
  | ['q'] => { cmd with quiet := asUnsigned 8 int }
  | ['f'] => { cmd with format := u32 }
  | ['t'] => { cmd with transmission := valueChar value }
  | ['s'] => { cmd with width := u32 }
  | ['v'] => { cmd with height := u32 }
  | ['i'] => { cmd with id := u32 }
  | ['I'] => { cmd with number := u32 }
  | ['p'] => { cmd with placementId := u32 }
  | ['m'] => { cmd with more := asUnsigned 8 int }
  | ['x'] => { cmd with srcX := u32 }
  | ['y'] => { cmd with srcY := u32 }
  | ['w'] => { cmd with srcW := u32 }
  | ['h'] => { cmd with srcH := u32 }
  | ['c'] => { cmd with cols := u32 }
  | ['r'] => { cmd with rows := u32 }
  | ['z'] => { cmd with z := asI32 int }
  | ['d'] => { cmd with delete := valueChar value }
  | ['C'] => { cmd with noCursorMove := int = 1 }
  | ['U'] => { cmd with unicode := int = 1 }
  | ['P'] => { cmd with parentImage := u32 }
  | ['Q'] => { cmd with parentPlacement := u32 }
  | ['H'] => { cmd with hOff := asI32 int }
  | ['V'] => { cmd with vOff := asI32 int }
  | ['X'] => { cmd with cellX := u32 }
  | ['Y'] => { cmd with cellY := u32 }
  | ['O'] => { cmd with fileOffset := asUnsigned 64 int }
  | ['S'] => { cmd with fileSize := asUnsigned 64 int }
  | ['o'] => { cmd with compression := valueChar value }
  | _ => cmd

def isByte (c : Char) (b : UInt8) : Bool :=
  b.toNat == c.toNat

/-- Splits `key=value,...;payload`. -/
def splitControl (data : Bytes) : Bytes × Bytes :=
  (data.takeWhile fun b => !isByte ';' b, (data.dropWhile fun b => !isByte ';' b).drop 1)

/-- The keys in order; a pair without `=` voids the command. -/
def parsePairs : List Bytes → Command → Option Command
  | [], cmd => some cmd
  | pair :: rest, cmd =>
      if pair.isEmpty then parsePairs rest cmd
      else
        match pair.dropWhile fun b => !isByte '=' b with
        | [] => none
        | _ :: value => parsePairs rest (setKey (pair.takeWhile fun b => !isByte '=' b) value cmd)

def parseCommand (control : Bytes) : Option Command :=
  parsePairs (control.splitOn (UInt8.ofNat ','.toNat)) {}

/-! ### Pixels -/

def asRgba (format : ImageFormat) (data : Bytes) : Bytes :=
  match format with
  | .rgb => (chunksExact 3 data).flatMap (· ++ [255])
  | .rgba => data
  | .png => data

/-- One blended colour channel of `blend_px`; `oa` is the output alpha times 255. -/
def blendChannel (sa da oa : Nat) (s d : UInt8) : Checked UInt8 := do
  let inverse ← sub 255 sa
  let sc ← mul 32 s.toNat sa
  let sc ← mul 32 sc 255
  let dc ← mul 32 d.toNat da
  let dc ← mul 32 dc inverse
  let sum ← add 32 sc dc
  return UInt8.ofNat (sum / oa)

/-- Straight-alpha "over" blend of the source pixel onto the destination. -/
def blendPx (d s : Bytes) : Checked Bytes := do
  match d, s with
  | [d0, d1, d2, d3], [s0, s1, s2, s3] =>
      let sa := s3.toNat
      if sa = 255 then return s
      else
        let da := d3.toNat
        let inverse ← sub 255 sa
        let opaque_ ← mul 32 sa 255
        let under ← mul 32 da inverse
        let oa ← add 32 opaque_ under
        if oa = 0 then return [0, 0, 0, 0]
        else
          let c0 ← blendChannel sa da oa s0 d0
          let c1 ← blendChannel sa da oa s1 d1
          let c2 ← blendChannel sa da oa s2 d2
          return [c0, c1, c2, UInt8.ofNat (oa / 255)]
  | _, _ => throw .index

/-- `data[at_..at_ + 4] = px` -/
def writePx (data : Bytes) (at_ : Nat) (px : Bytes) : Bytes :=
  data.take at_ ++ px ++ data.drop (at_ + 4)

/-- A rectangle in two buffers: their sizes, where it lies in each, its size. -/
structure Rect where
  dstSize : Nat × Nat
  srcSize : Nat × Nat
  srcPos : Nat × Nat
  dstPos : Nat × Nat
  size : Nat × Nat

/-- Composes a rectangle of `src` onto `dst`, clipped to both. -/
def composeRect (dst src : Bytes) (r : Rect) (replace : Bool) : Checked Bytes :=
  let w := min (min r.size.1 (r.srcSize.1 - r.srcPos.1)) (r.dstSize.1 - r.dstPos.1)
  let h := min (min r.size.2 (r.srcSize.2 - r.srcPos.2)) (r.dstSize.2 - r.dstPos.2)
  forRange 0 h dst fun row dst => do
    let sRow ← add 64 r.srcPos.2 row
    let sLine ← mul 64 sRow r.srcSize.1
    let sPx ← add 64 sLine r.srcPos.1
    let sAt ← mul 64 sPx 4
    let dRow ← add 64 r.dstPos.2 row
    let dLine ← mul 64 dRow r.dstSize.1
    let dPx ← add 64 dLine r.dstPos.1
    let dAt ← mul 64 dPx 4
    forRange 0 w dst fun col dst => do
      let at_ ← mul 64 col 4
      let sLo ← add 64 sAt at_
      let sHi ← add 64 sLo 4
      let s ← slice src sLo sHi
      let dLo ← add 64 dAt at_
      let dHi ← add 64 dLo 4
      let d ← slice dst dLo dHi
      let px ← (if replace then pure s else blendPx d s)
      return writePx dst dLo px

/-! ### The store -/

structure Pending where
  cmd : Command
  payload : Bytes
deriving DecidableEq, Repr

end Graphics

structure GraphicsState where
  images : AssocMap Image := []
  placements : List Placement := []
  frames : AssocMap (List Frame) := []
  animations : AssocMap AnimationState := []
  pending : Option Graphics.Pending := none
  totalBytes : Nat := 0
  nextSeq : Nat := 0
  nextId : Nat := 0
deriving DecidableEq, Repr

/-- Cells the cursor moves by after `a=T`: columns and rows. -/
abbrev Advance := Option (Nat × Nat)

namespace GraphicsState

def reset (_ : GraphicsState) : GraphicsState :=
  {}

open Graphics

/-- An acknowledgement, unless nothing addresses it or the `q` key suppresses it. -/
def respond (cmd : Command) (message : String) : Option (List Char) :=
  if cmd.id = 0 ∧ cmd.number = 0 then none
  else if cmd.quiet ≥ 2 ∨ message = "OK" ∧ cmd.quiet = 1 then none
  else
    let idKey := if cmd.id ≠ 0 then "i=".toList ++ decimal cmd.id else []
    let numberKey := if cmd.number ≠ 0 then "I=".toList ++ decimal cmd.number else []
    let comma := if cmd.id ≠ 0 ∧ cmd.number ≠ 0 then [','] else []
    some ("\x1b_G".toList ++ idKey ++ comma ++ numberKey ++ [';'] ++ message.toList ++
      "\x1b\\".toList)

/-- `values().min_by_key(|i| i.seq)` -/
def oldestImage (g : GraphicsState) : Option Image :=
  g.images.values.foldl
    (fun best i => match best with
      | some b => if i.seq < b.seq then some i else best
      | none => some i) none

/-- Drops an image's pixel data, frames and animation state. -/
def removeImageData (id : Nat) (g : GraphicsState) : Checked GraphicsState := do
  let total ← (match g.images.lookup id with
    | some img => sub g.totalBytes img.data.length
    | none => pure g.totalBytes)
  let total ← forEach ((g.frames.lookup id).getD []) total fun frame total =>
    sub total frame.data.length
  return { g with
    images := g.images.erase id, frames := g.frames.erase id,
    animations := g.animations.erase id, totalBytes := total }

/-- Evicts the oldest images until the quota holds; `budget` bounds their number. -/
def enforceQuotaLoop : (budget : Nat) → GraphicsState → Checked GraphicsState
  | 0, g => return g
  | budget + 1, g =>
      if g.totalBytes > QUOTA_BYTES then
        match g.oldestImage with
        | none => return g
        | some oldest => do
            let g ← g.removeImageData oldest.id
            enforceQuotaLoop budget
              { g with placements := g.placements.filter (·.imageId != oldest.id) }
      else return g

def enforceQuota (g : GraphicsState) : Checked GraphicsState :=
  enforceQuotaLoop g.images.length g

/-- The most recently transmitted image with this number. -/
def newestNumbered (number : Nat) (g : GraphicsState) : Option Image :=
  (g.images.values.filter (·.number == number)).foldl
    (fun best i => match best with
      | some b => if b.seq ≤ i.seq then some i else best
      | none => some i) none

def resolveId (cmd : Command) (g : GraphicsState) : Option Nat :=
  if cmd.id ≠ 0 then
    if (g.images.lookup cmd.id).isSome then some cmd.id else none
  else if cmd.number ≠ 0 then (g.newestNumbered cmd.number).map (·.id)
  else none

/-- `u32::div_ceil` -/
def divCeil (a b : Nat) : Nat :=
  (a + b - 1) / b

/-- Extent of a placement in cells. -/
def extent (p : Placement) (g : GraphicsState) : Nat × Nat :=
  let img := g.images.lookup p.imageId
  let w := if p.srcW = 0 then (img.map (·.width)).getD 0 else p.srcW
  let h := if p.srcH = 0 then (img.map (·.height)).getD 0 else p.srcH
  (if p.cols ≠ 0 then p.cols else max (divCeil w CELL_W) 1,
    if p.rows ≠ 0 then p.rows else max (divCeil h CELL_H) 1)

def findPlacement (imageId placementId : Nat) (g : GraphicsState) : Option Placement :=
  g.placements.find? fun p =>
    p.imageId == imageId && (placementId == 0 || p.placementId == placementId)

/-- Walks the parent chain from `at_`: true when it meets `self`. -/
def parentCycle (self : Nat × Nat) (g : GraphicsState) : (budget : Nat) → (at_ : Nat × Nat) → Bool
  | 0, _ => false
  | budget + 1, at_ =>
      if at_ = self then true
      else
        match g.findPlacement at_.1 at_.2 with
        | none => false
        | some p =>
            if p.parentImage = 0 then false
            else parentCycle self g budget (p.parentImage, p.parentPlacement)

/-- `(i32::from(base) + off).max(0) as u16` -/
def offsetCell (base : Nat) (off : Int) : Checked Nat :=
  let sum := (base : Int) + off
  if -2 ^ 31 ≤ sum ∧ sum < 2 ^ 31 then .ok ((max sum 0).toNat % 2 ^ 16) else .error .overflow

/-- The placement a command describes, at an absolute cell. -/
def newPlacement (cmd : Command) (cell : Nat × Nat) : Placement where
  imageId := cmd.id
  placementId := cmd.placementId
  row := cell.1
  col := cell.2
  srcX := cmd.srcX
  srcY := cmd.srcY
  srcW := cmd.srcW
  srcH := cmd.srcH
  cols := cmd.cols
  rows := cmd.rows
  z := cmd.z
  parentImage := cmd.parentImage
  parentPlacement := cmd.parentPlacement
  hOff := cmd.hOff
  vOff := cmd.vOff
  cellX := cmd.cellX
  cellY := cmd.cellY
  unicode := cmd.unicode

/-- Where a placement goes: the cursor, or its parent's cell and offsets. -/
def placementCell (cmd : Command) (cursor : Nat × Nat) (g : GraphicsState) :
    Fallible String (Nat × Nat) :=
  if cmd.parentImage = 0 then return cursor
  else if parentCycle (cmd.id, cmd.placementId) g (g.placements.length + 1)
      (cmd.parentImage, cmd.parentPlacement) then
    .fail "ECYCLE:relative placement cycle"
  else
    match g.findPlacement cmd.parentImage cmd.parentPlacement with
    | none => .fail "ENOPARENT:no such parent placement"
    | some parent => do
        let row ← liftM (offsetCell parent.row cmd.vOff)
        let col ← liftM (offsetCell parent.col cmd.hOff)
        return (row, col)

/-- Creates or replaces a placement. -/
def addPlacement (cmd : Command) (cursor : Nat × Nat) (g : GraphicsState) :
    Fallible String (GraphicsState × Advance) := do
  let cell ← placementCell cmd cursor g
  let placement := newPlacement cmd cell
  let kept := g.placements.filter fun p =>
    !(p.imageId == cmd.id && p.placementId == cmd.placementId)
  let advance :=
    if !cmd.noCursorMove && !cmd.unicode && cmd.parentImage == 0 then some (g.extent placement)
    else none
  return ({ g with placements := kept ++ [placement] }, advance)

abbrev Outcome := GraphicsState × Option (List Char) × Advance

/-- `add_placement` with its acknowledgement. -/
def placeAndRespond (cmd : Command) (ok : Option (List Char)) (cursor : Nat × Nat)
    (g : GraphicsState) : Checked Outcome := do
  let placed ← (g.addPlacement cmd cursor).result
  match placed with
  | .ok (g, advance) => return (g, ok, advance)
  | .error e => return (g, respond cmd e, none)

def place (cmd : Command) (cursor : Nat × Nat) (g : GraphicsState) : Checked Outcome :=
  match g.resolveId cmd with
  | some id => g.placeAndRespond { cmd with id } (respond { cmd with id } "OK") cursor
  | none => return (g, respond cmd "ENOENT:no such image", none)

def intersects (p : Placement) (row col : Nat) (g : GraphicsState) : Checked Bool :=
  if p.unicode then return false
  else
    let (cols, rows) := g.extent p
    if row < p.row then return false
    else do
      let bottom ← add 32 p.row rows
      if ¬ row < bottom ∨ col < p.col then return false
      else
        let right ← add 32 p.col cols
        return col < right

/-- Removes the placements `pred` picks; with `free`, the data of images left
without placements goes too. The predicate sees the store without placements. -/
def deletePlacements (free : Bool) (pred : GraphicsState → Placement → Checked Bool)
    (g : GraphicsState) : Checked GraphicsState := do
  let emptied := { g with placements := [] }
  let (touched, kept) ← forEach g.placements ([], []) fun p (touched, kept) => do
    let hit ← pred emptied p
    return if hit then (touched ++ [p.imageId], kept) else (touched, kept ++ [p])
  let g := { g with placements := kept }
  if free then
    forEach touched g fun id g =>
      if g.placements.any (·.imageId == id) then return g else g.removeImageData id
  else return g

def clampCell (v : Nat) : Nat :=
  min v 65535

/-- Deletes by 1-based cell, when both coordinates are given. -/
def atCell (x y : Nat) (g : GraphicsState) (p : Placement) : Checked Bool :=
  if x ≥ 1 ∧ y ≥ 1 then g.intersects p (clampCell (y - 1)) (clampCell (x - 1)) else return false

def inColumn (x : Nat) (g : GraphicsState) (p : Placement) : Checked Bool :=
  if x < 1 ∨ p.unicode then return false
  else if x - 1 < p.col then return false
  else do
    let right ← add 32 p.col (g.extent p).1
    return x - 1 < right

def inRow (y : Nat) (g : GraphicsState) (p : Placement) : Checked Bool :=
  if y < 1 ∨ p.unicode then return false
  else if y - 1 < p.row then return false
  else do
    let bottom ← add 32 p.row (g.extent p).2
    return y - 1 < bottom

/-- `u8::is_ascii_uppercase` and `u8::to_ascii_lowercase` -/
def isUpper (b : UInt8) : Bool :=
  'A'.toNat ≤ b.toNat && b.toNat ≤ 'Z'.toNat

def toLower (b : UInt8) : Char :=
  Char.ofNat (if isUpper b then b.toNat + 32 else b.toNat)

def delete (cmd : Command) (cursor : Nat × Nat) (g : GraphicsState) : Checked GraphicsState :=
  let free := isUpper cmd.delete
  match toLower cmd.delete with
  | '\x00' | 'a' =>
      let g := { g with placements := [] }
      return if free then { g with images := [], frames := [], animations := [], totalBytes := 0 } else g
  | 'i' =>
      match g.resolveId cmd with
      | none => return g
      | some id =>
          let g := { g with
            placements := g.placements.filter fun p =>
              p.imageId != id || (cmd.placementId != 0 && p.placementId != cmd.placementId) }
          if free then g.removeImageData id else return g
  | 'n' =>
      match g.resolveId { cmd with id := 0 } with
      | none => return g
      | some id =>
          let g := { g with placements := g.placements.filter (·.imageId != id) }
          if free then g.removeImageData id else return g
  | 'c' => g.deletePlacements free fun g p => g.intersects p cursor.1 cursor.2
  | 'p' => g.deletePlacements free (atCell cmd.srcX cmd.srcY)
  | 'q' =>
      g.deletePlacements free fun g p =>
        if p.z = cmd.z then atCell cmd.srcX cmd.srcY g p else return false
  | 'x' => g.deletePlacements free (inColumn cmd.srcX)
  | 'y' => g.deletePlacements free (inRow cmd.srcY)
  | 'z' => g.deletePlacements free fun _ p => return p.z = cmd.z
  | _ => return g

/-! ### Animation -/

/-- `a=a`: stores the requested play state. -/
def animate (cmd : Command) (g : GraphicsState) : GraphicsState × Option (List Char) :=
  match g.resolveId cmd with
  | none => (g, respond cmd "ENOENT:no such image")
  | some id =>
      let st := (g.animations.lookup id).getD {}
      let st := if cmd.width ≠ 0 then { st with state := cmd.width % 2 ^ 8 } else st
      let st := if cmd.height ≠ 0 then { st with loops := cmd.height } else st
      let st := if cmd.cols ≠ 0 then { st with currentFrame := cmd.cols } else st
      ({ g with animations := g.animations.insert id st }, respond cmd "OK")

/-- A frame composed onto its base chain. Every frame is visited once, so a budget
of one more than their number suffices. -/
def composeChain (img : Image) (frames : List Frame) :
    (budget : Nat) → (frameNo : Nat) → (seen : List Nat) → Checked (Option Bytes)
  | 0, _, _ => return none
  | budget + 1, frameNo, seen =>
      if frameNo = 0 then return some (asRgba img.format img.data)
      else if seen.contains frameNo then return none
      else
        match frames.find? (·.number == frameNo) with
        | none => return none
        | some frame => do
            let canvas ← composeChain img frames budget frame.baseFrame (seen ++ [frameNo])
            match canvas with
            | none => return none
            | some canvas =>
                let composed ← composeRect canvas (asRgba frame.format frame.data)
                  { dstSize := (img.width, img.height), srcSize := (frame.width, frame.height),
                    srcPos := (0, 0), dstPos := (frame.x, frame.y),
                    size := (frame.width, frame.height) } frame.replace
                return some composed

/-- The full canvas of a frame; 0 is the root image. -/
def composedFrame (imageId frameNo : Nat) (g : GraphicsState) : Checked (Option Bytes) :=
  match g.images.lookup imageId with
  | none => return none
  | some img =>
      if img.width = 0 ∨ img.height = 0 then return none
      else
        let frames := (g.frames.lookup img.id).getD []
        composeChain img frames (frames.length + 2) frameNo []

/-- Changes the first frame with this number. -/
def updateFrame (number : Nat) (f : Frame → Frame) : List Frame → List Frame
  | [] => []
  | frame :: rest =>
      if frame.number = number then f frame :: rest else frame :: updateFrame number f rest

/-- The greatest frame number. -/
def lastFrameNumber (frames : List Frame) : Nat :=
  frames.foldl (fun n f => max n f.number) 0

/-- `a=f`: stores one animation frame. -/
def storeFrame (cmd : Command) (format : ImageFormat) (data : Bytes) (g : GraphicsState) :
    Checked (GraphicsState × Option (List Char)) :=
  match g.resolveId cmd with
  | none => return (g, respond cmd "ENOENT:no such image")
  | some id => do
      let frames := (g.frames.lookup id).getD []
      let number ← (if cmd.rows ≠ 0 then pure cmd.rows else add 32 (lastFrameNumber frames) 1)
      let frame : Frame :=
        { number, gapMs := cmd.z, baseFrame := cmd.cols, x := cmd.srcX, y := cmd.srcY, format,
          width := cmd.width, height := cmd.height, data, replace := cmd.cellX == 1 }
      let total ← add 64 g.totalBytes data.length
      let (frames, total) ← (match frames.find? (·.number == number) with
        | some existing => do
            let total ← sub total existing.data.length
            return (updateFrame number (fun _ => frame) frames, total)
        | none => return (frames ++ [frame], total) : Checked (List Frame × Nat))
      let g ← { g with frames := g.frames.insert id frames, totalBytes := total }.enforceQuota
      return (g, respond cmd "OK")

/-- The destination frame of `a=c`, rewritten as a self-contained canvas. -/
def composedInto (canvas : Bytes) (img : Image) (frame : Frame) : Frame :=
  { frame with
    data := canvas, format := .rgba, x := 0, y := 0, width := img.width, height := img.height,
    baseFrame := 0, replace := true }

/-- `a=c`: composes a rectangle of one frame onto another. -/
def compose (cmd : Command) (g : GraphicsState) :
    Checked (GraphicsState × Option (List Char)) :=
  match g.resolveId cmd with
  | none => return (g, respond cmd "ENOENT:no such image")
  | some id => do
      let img ← unwrap (g.images.lookup id)
      let frames := (g.frames.lookup id).getD []
      let have_ (n : Nat) : Bool := n != 0 && frames.any (·.number == n)
      if !have_ cmd.rows || !have_ cmd.cols then
        return (g, respond cmd "ENOENT:no such frame")
      else
        let src ← g.composedFrame id cmd.cols
        let dst ← g.composedFrame id cmd.rows
        match src, dst with
        | some src, some dst =>
            let canvas ← composeRect dst src
              { dstSize := (img.width, img.height), srcSize := (img.width, img.height),
                srcPos := (cmd.cellX, cmd.cellY), dstPos := (cmd.srcX, cmd.srcY),
                size := (if cmd.srcW ≠ 0 then cmd.srcW else img.width,
                  if cmd.srcH ≠ 0 then cmd.srcH else img.height) } cmd.noCursorMove
            let frame ← unwrap (frames.find? (·.number == cmd.rows))
            let frames := updateFrame cmd.rows (composedInto canvas img) frames
            let total ← sub g.totalBytes frame.data.length
            let total ← add 64 total canvas.length
            let g ← { g with
              frames := g.frames.insert id frames, totalBytes := total }.enforceQuota
            return (g, respond cmd "OK")
        | _, _ => return (g, respond cmd "EINVAL:could not compose frame")

/-! ### Transmission -/

/-- Reads a `t=f`/`t=t` payload, honouring the offset and size keys. -/
def loadFile (files : List Char → Option Bytes) (cmd : Command) (payload : Bytes) :
    Fallible String Bytes := do
  let pathBytes ← Fallible.ofOption "EINVAL:invalid base64 payload" (Base64.decode payload)
  let path ← Fallible.ofOption "EINVAL:invalid file path" (fromUtf8 pathBytes)
  let data ← Fallible.ofOption "ENOENT:could not read file" (files path)
  let data := data.drop (min cmd.fileOffset data.length)
  let data := if cmd.fileSize ≠ 0 then data.take cmd.fileSize else data
  if data.length > QUOTA_BYTES then .fail "EFBIG:file exceeds storage quota" else return data

/-- The transmitted bytes, before decompression. -/
def transmitted (files : List Char → Option Bytes) (cmd : Command) (payload : Bytes) :
    Fallible String Bytes :=
  match Char.ofNat cmd.transmission.toNat with
  | '\x00' | 'd' => Fallible.ofOption "EINVAL:invalid base64 payload" (Base64.decode payload)
  | 'f' | 't' => loadFile files cmd payload
  | 's' => .fail "EUNSUPPORTED:shared memory unavailable"
  | _ => .fail "EINVAL:unsupported transmission medium"

/-- `o=z`: the quota applies to the decompressed size. -/
def decompressed (cmd : Command) (data : Bytes) : Fallible String Bytes :=
  if cmd.compression = 0 then return data
  else if !isByte 'z' cmd.compression then .fail "EINVAL:unknown compression"
  else do
    let inflated ← liftM (Inflate.zlibDecompress data QUOTA_BYTES).result
    match inflated with
    | .ok data => return data
    | .error .tooLarge => .fail "EFBIG:decompressed data exceeds storage quota"
    | .error _ => .fail "EINVAL:invalid zlib stream"

def imageFormat (format : Nat) : Option ImageFormat :=
  match format with
  | 24 => some .rgb
  | 0 => some .rgba
  | 32 => some .rgba
  | 100 => some .png
  | _ => none

/-- PNG is decoded; raw pixels must match the dimensions. -/
def pixels (cmd : Command) (format : ImageFormat) (data : Bytes) :
    Fallible String (Command × Bytes) :=
  match format with
  | .png => do
      let decoded ← liftM (Png.decode data).result
      match decoded with
      | .ok png => return ({ cmd with width := png.width, height := png.height }, png.rgba)
      | .error _ => .fail "EBADPNG:failed to decode PNG"
  | _ => do
      let bpp := if format = .rgb then 3 else 4
      let area ← liftM (mul 64 cmd.width cmd.height)
      let expect ← liftM (mul 64 area bpp)
      if cmd.width = 0 ∨ cmd.height = 0 ∨ data.length ≠ expect then
        .fail "EINVAL:payload size does not match dimensions"
      else return (cmd, data)

/-- Everything `finish_transmission` decodes before it stores anything. -/
def decodeTransmission (files : List Char → Option Bytes) (cmd : Command) (payload : Bytes) :
    Fallible String (Command × ImageFormat × Bytes) := do
  let data ← transmitted files cmd payload
  let data ← decompressed cmd data
  let format ← Fallible.ofOption "EINVAL:unknown format" (imageFormat cmd.format)
  let (cmd, data) ← pixels cmd format data
  return (cmd, format, data)

/-- The id an image gets, and the store with its counter advanced. -/
def assignId (cmd : Command) (g : GraphicsState) : Checked (Command × GraphicsState) :=
  if cmd.id = 0 then do
    let next ← add 32 g.nextId 1
    return ({ cmd with id := next }, { g with nextId := next })
  else return (cmd, { g with nextId := max g.nextId cmd.id })

def storeImage (cmd : Command) (format : ImageFormat) (data : Bytes) (g : GraphicsState) :
    Checked GraphicsState := do
  let g ← g.removeImageData cmd.id
  let total ← add 64 g.totalBytes data.length
  let seq := g.nextSeq + 1
  { g with
    totalBytes := total, nextSeq := seq,
    images := g.images.insert cmd.id
      { id := cmd.id, number := cmd.number, format, width := cmd.width, height := cmd.height,
        data, seq } }.enforceQuota

def finishTransmission (files : List Char → Option Bytes) (cmd : Command) (payload : Bytes)
    (cursor : Nat × Nat) (g : GraphicsState) : Checked Outcome := do
  let decoded ← (decodeTransmission files cmd payload).result
  match decoded with
  | .error e => return (g, respond cmd e, none)
  | .ok (cmd, format, data) =>
      if isByte 'f' cmd.action then
        let (g, resp) ← g.storeFrame cmd format data
        return (g, resp, none)
      else
        let (cmd, g) ← g.assignId cmd
        let resp := respond cmd "OK"
        if isByte 'q' cmd.action then return (g, resp, none)
        else
          let g ← g.storeImage cmd format data
          if isByte 'T' cmd.action then g.placeAndRespond cmd resp cursor
          else return (g, resp, none)

/-- The first escape of a transmission, or a command of another kind. -/
def command (files : List Char → Option Bytes) (cmd : Command) (payload : Bytes)
    (cursor : Nat × Nat) (g : GraphicsState) : Checked Outcome :=
  match Char.ofNat cmd.action.toNat with
  | 't' | 'T' | 'q' | 'f' | '\x00' =>
      if cmd.more = 1 then return ({ g with pending := some { cmd, payload } }, none, none)
      else g.finishTransmission files cmd payload cursor
  | 'p' => g.place cmd cursor
  | 'd' => do
      let g ← g.delete cmd cursor
      return (g, none, none)
  | 'a' =>
      let (g, resp) := g.animate cmd
      return (g, resp, none)
  | 'c' => do
      let (g, resp) ← g.compose cmd
      return (g, resp, none)
  | _ => return (g, respond cmd "EINVAL:unknown action", none)

/-- Handles one APC payload, already without the leading `G`. -/
def dispatch (files : List Char → Option Bytes) (data : Bytes) (cursor : Nat × Nat)
    (g : GraphicsState) : Checked Outcome :=
  let (control, payload) := splitControl data
  match parseCommand control with
  | none => return (g, none, none)
  | some cmd =>
      match g.pending with
      | some pending =>
          let g := { g with pending := none }
          let pending :=
            if pending.payload.length + payload.length ≤ MAX_PENDING_PAYLOAD then
              { pending with payload := pending.payload ++ payload }
            else pending
          if cmd.more = 1 then return ({ g with pending := some pending }, none, none)
          else g.finishTransmission files pending.cmd pending.payload cursor
      | none => g.command files cmd payload cursor

end GraphicsState

end Posh.Term
