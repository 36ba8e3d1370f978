import Posh.Rec.Castx
import Posh.Term.Process

/-!
The player of recordings (`player.rs`): the output flattened into one buffer, the other
events anchored at its offsets, and a byte cursor that walks over it.
-/

namespace Posh.Rec

open Posh.Lib Posh.Term

/-- `COLSxROWS` as columns and rows. -/
def parseResize (data : List Char) : Option (Nat × Nat) := do
  let (w, h) ← splitOnce 'x' data
  let cols ← parseU16 (trim w)
  let rows ← parseU16 (trim h)
  return (cols, rows)

/-- The output of a recording and what is anchored in it. -/
structure Track (F : Type) where
  flat : Bytes := []
  /-- Where each `o` event begins. -/
  writes : List Nat := []
  /-- Offset, columns and rows of each `r`. -/
  resizes : List (Nat × Nat × Nat) := []
  /-- Offset and name of each `m`. -/
  marks : List (Nat × List Char) := []
  /-- Offset and time of each `o`. -/
  times : List (Nat × F) := []

structure Player (F : Type) where
  term : Terminal
  track : Track F
  cursor : Nat := 0
  /-- Index of the next resize not yet applied. -/
  nextResize : Nat := 0
  frameGap : F
  emuRev : Option (List Char) := none

variable {F : Type} (f64 : F64 F)

namespace Track

def push (ev : Event F) (track : Track F) : Track F :=
  match ev.code with
  | .output =>
      { track with
        writes := track.writes ++ [track.flat.length]
        times := track.times ++ [(track.flat.length, ev.time)]
        flat := track.flat ++ toUtf8 ev.data }
  | .resize =>
      match parseResize ev.data with
      | some (cols, rows) =>
          { track with resizes := track.resizes ++ [(track.flat.length, cols, rows)] }
      | none => track
  | .marker => { track with marks := track.marks ++ [(track.flat.length, ev.data)] }
  | .input | .unknown _ => track

/-- The remaining events of a recording; `fuel` bounds their lines. -/
def collect : (fuel : Nat) → Reader → Track F → Except ReadError (Track F)
  | 0, _, track => return track
  | fuel + 1, reader, track =>
      match reader.nextEvent f64 with
      | (some ev, reader) => do
          let ev ← ev
          collect fuel reader (track.push ev)
      | (none, _) => return track

end Track

namespace Player

/-- A recording parsed and flattened. -/
def fromSource (src : List Char) : Except ReadError (Player F) := do
  let reader := Reader.new src
  let (header, reader) := reader.header f64
  let header ← header
  let track ← Track.collect f64 (reader.lines.length + 1) reader {}
  return {
    term := Terminal.new header.height.toNat header.width.toNat
    track
    frameGap := f64.tenth
    emuRev := header.poshRec.map (·.emuRev) }

variable (files : Files)

def atEnd (p : Player F) : Bool :=
  p.cursor ≥ p.track.flat.length

/-- The resizes anchored at or before `offset`; `fuel` bounds them. -/
def applyLoop (offset : Nat) : (fuel : Nat) → Player F → Checked (Player F)
  | 0, p => return p
  | fuel + 1, p =>
      match p.track.resizes[p.nextResize]? with
      | some (anchor, cols, rows) =>
          if anchor ≤ offset then do
            let term ← p.term.resize rows cols
            applyLoop offset fuel { p with term, nextResize := p.nextResize + 1 }
          else return p
      | none => return p

def applyResizesThrough (offset : Nat) (p : Player F) : Checked (Player F) :=
  applyLoop offset p.track.resizes.length p

/-- The resizes after the last byte, once everything is consumed. -/
def flushTrailingResizes (p : Player F) : Checked (Player F) :=
  if p.atEnd then p.applyResizesThrough p.track.flat.length else return p

/-- One byte, after the resizes at the cursor; query replies are drained. -/
def feedByte (p : Player F) : Checked (Bool × Player F) :=
  if p.cursor ≥ p.track.flat.length then return (false, p)
  else do
    let p ← p.applyResizesThrough p.cursor
    let b ← getAt p.track.flat p.cursor
    let term ← p.term.process files [b]
    return (true, { p with term := { term with responses := [] }, cursor := p.cursor + 1 })

/-- The loop of `feed_until`; `fuel` bounds the bytes. -/
def feedLoop (target : Nat) : (fuel : Nat) → Player F → Checked (Player F)
  | 0, p => return p
  | fuel + 1, p =>
      if p.cursor < target then do
        let (fed, p) ← p.feedByte files
        if fed then feedLoop target fuel p else return p
      else return p

def feedUntil (target : Nat) (p : Player F) : Checked (Player F) := do
  let p ← feedLoop files target (target - p.cursor) p
  p.flushTrailingResizes

/-- To the first marker of that name at or after the cursor, if there is one. -/
def stepToMarker (name : List Char) (p : Player F) : Checked (Bool × Player F) :=
  match p.track.marks.find? fun mark => mark.1 ≥ p.cursor && mark.2 == name with
  | some (target, _) => do
      let p ← p.feedUntil files target
      return (true, p)
  | none => return (false, p)

/-- One recorded `o` event's bytes. -/
def stepWrite (p : Player F) : Checked (Bool × Player F) :=
  if p.atEnd then return (false, p)
  else do
    let target := (p.track.writes.find? (p.cursor < ·)).getD p.track.flat.length
    let p ← p.feedUntil files target
    return (true, p)

/-- The loop of `step` with the given step, and how many steps it took. -/
def stepLoop (advance : Player F → Checked (Bool × Player F)) :
    (n taken : Nat) → Player F → Checked (Nat × Player F)
  | 0, taken, p => return (taken, p)
  | n + 1, taken, p => do
      let (advanced, p) ← advance p
      if advanced then stepLoop advance n (taken + 1) p else return (taken, p)

def USIZE_MAX : Nat :=
  2 ^ 64 - 1

/-- `step(Granularity::Write, n)` -/
def stepWrites (n : Nat) (p : Player F) : Checked (Nat × Player F) := do
  let (taken, p) ← stepLoop (stepWrite files) n 0 p
  let p ← p.flushTrailingResizes
  return (taken, p)

/-- To the end of the recording. -/
def stepToEnd (p : Player F) : Checked (Player F) := do
  let (_, p) ← p.stepWrites files USIZE_MAX
  return p

end Player

end Posh.Rec
