import Posh.Lib.Looping
import Posh.Lib.Fallible
import Posh.Rec.Reading
import Posh.Term.Dump

/-!
The steps of the player (`player.rs`), by any granularity, and the replay of a whole
recording (`replay_source` in `cli.rs`).

Every loop that ends when the parser, the screen or the times of the events say so is a
`Looping` one.
-/

namespace Posh.Rec

open Posh.Lib Posh.Term

/-- A unit of advance. -/
inductive Granularity where
  | byte
  /-- One escape sequence, or one printable or control run. -/
  | escape
  /-- One recorded `o` event. -/
  | write
  /-- Up to the next visible change. -/
  | change
  /-- Consecutive events within `frame_gap`. -/
  | frame
  /-- Up to the next `m` marker. -/
  | marker
deriving DecidableEq, Repr

/-- Times in tenths. -/
def Seconds.tenths : Seconds → Nat
  | .whole n => 10 * n
  | .tenth => 1

/-- `next_t - cur_t <= frame_gap` -/
def Seconds.near (next cur gap : Seconds) : Bool :=
  next.tenths ≤ cur.tenths + gap.tenths

variable {F : Type} (f64 : F64 F)
-- `near next_t cur_t frame_gap` is `next_t - cur_t <= frame_gap`
variable (near : F → F → F → Bool)
variable (files : Files)

namespace Player

/-- The time for coalescing events. -/
def withFrameGap (secs : F) (p : Player F) : Player F :=
  { p with frameGap := secs }

/-- The last of the times whose offsets are at or before `offset`. -/
def lastTime (offset : Nat) (t : F) : (times : List (Nat × F)) → F
  | [] => t
  | (o, et) :: times => if o ≤ offset then lastTime offset et times else t

/-- Timestamp of the most recent `o` event starting at or before `offset`. -/
def eventTimeAt (offset : Nat) (p : Player F) : F :=
  lastTime offset f64.zero p.track.times

/-- `b == 0x1b || b == 0x9b` -/
def introduces (b : UInt8) : Bool :=
  b == 0x1B || b == 0x9B

/-- A turn while a sequence is not complete. -/
def sequenceTurn (p : Player F) : Checked (Bool × Player F) :=
  if !p.atEnd && p.term.midEscape then do
    let (_, p) ← p.feedByte files
    return (true, p)
  else return (false, p)

/-- A turn up to the next escape introducer. -/
def runTurn (p : Player F) : Checked (Bool × Player F) :=
  if p.atEnd then return (false, p)
  else do
    let b ← getAt p.track.flat p.cursor
    if introduces b then return (false, p)
    else
      let (_, p) ← p.feedByte files
      return (true, p)

def stepEscape (p : Player F) : Looping (Bool × Player F) :=
  if p.atEnd then pure (false, p)
  else do
    let first ← getAt p.track.flat p.cursor
    if introduces first then
      -- the introducer, then bytes until the parser leaves the sequence
      let (_, p) ← p.feedByte files
      let p ← Looping.loop (sequenceTurn files) p
      return (true, p)
    else
      let p ← Looping.loop (runTurn files) p
      return (true, p)

/-- A turn while the screen is as it was. -/
def changeTurn (generation : Nat) (p : Player F) : Checked (Bool × Player F) :=
  if p.atEnd then return (false, p)
  else do
    let (_, p) ← p.feedByte files
    return (p.term.generation == generation, p)

/-- To the next visible change. -/
def stepToChange (p : Player F) : Looping (Bool × Player F) :=
  if p.atEnd then pure (false, p)
  else do
    let p ← Looping.loop (changeTurn files p.term.generation) p
    let p ← p.flushTrailingResizes
    return (true, p)

/-- A turn while the next event is within the gap of the one before it, at `cur`. -/
def frameTurn (s : F × Player F) : Checked (Bool × F × Player F) :=
  let (cur, p) := s
  match p.track.times.find? (·.1 == p.cursor) with
  | some (_, next) =>
      if near next cur p.frameGap then do
        let (_, p) ← p.stepWrite files
        return (true, next, p)
      else return (false, cur, p)
  | none => return (false, cur, p)

def stepFrame (p : Player F) : Looping (Bool × Player F) :=
  if p.atEnd then pure (false, p)
  else do
    let cur := p.eventTimeAt f64 p.cursor
    let (_, p) ← p.stepWrite files
    let (_, p) ← Looping.loop (frameTurn near files) (cur, p)
    return (true, p)

def stepMarker (p : Player F) : Checked (Bool × Player F) :=
  if p.atEnd then return (false, p)
  else
    match p.track.marks.find? (p.cursor < ·.1) with
    | some (target, _) => do
        let p ← p.feedUntil files target
        return (true, p)
    | none => return (false, p)

/-- One step. -/
def advance (g : Granularity) (p : Player F) : Looping (Bool × Player F) :=
  match g with
  | .byte => p.feedByte files
  | .escape => p.stepEscape files
  | .write => p.stepWrite files
  | .change => p.stepToChange files
  | .frame => p.stepFrame f64 near files
  | .marker => p.stepMarker files

/-- The loop of `step`, and how many steps it took. -/
def steps (g : Granularity) : (n taken : Nat) → Player F → Looping (Nat × Player F)
  | 0, taken, p => pure (taken, p)
  | n + 1, taken, p => do
      let (advanced, p) ← advance f64 near files g p
      if advanced then steps g n (taken + 1) p else pure (taken, p)

/-- `n` steps, and how many of them were taken. -/
def step (g : Granularity) (n : Nat) (p : Player F) : Looping (Nat × Player F) := do
  let (taken, p) ← p.steps f64 near files g n 0
  let p ← p.flushTrailingResizes
  return (taken, p)

end Player

/-! ### The replay of a whole recording -/

/-- How the final screen is rendered. -/
inductive Dump where
  | text
  | vt
  | flat
deriving DecidableEq, Repr

def dumpTerminal (term : Terminal) : Dump → Checked Bytes
  | .text => toUtf8 <$> term.dumpText
  | .vt => term.dumpVt
  | .flat => term.dumpVtFlat

structure Replay where
  term : Terminal

namespace Replay

def new (rows cols : Nat) : Replay :=
  { term := Terminal.new rows cols }

/-- Recorded output; query replies are drained. -/
def feed (bytes : Bytes) (r : Replay) : Checked Replay := do
  let term ← r.term.process files bytes
  return { term := term.takeResponses.2 }

def resize (rows cols : Nat) (r : Replay) : Checked Replay := do
  let term ← r.term.resize rows cols
  return { term }

/-- What `replay_source` does for an event. -/
def event (ev : Event F) (r : Replay) : Checked Replay :=
  match ev.code with
  | .output => r.feed files (toUtf8 ev.data)
  | .resize =>
      match parseResize ev.data with
      | some (cols, rows) => r.resize rows cols
      | none => return r
  | .input | .marker | .unknown _ => return r

/-- The remaining events of a recording; `fuel` bounds their lines. -/
def events : (fuel : Nat) → Reader → Replay → Fallible ReadError Replay
  | 0, _, r => return r
  | fuel + 1, reader, r =>
      match reader.nextEvent f64 with
      | (some (.ok ev), reader) => do
          let r ← (r.event files ev : Checked Replay)
          events fuel reader r
      | (some (.error e), _) => .fail e
      | (none, _) => return r

end Replay

/-- A whole recording, and its final screen. -/
def replaySource (src : List Char) (dump : Dump) : Fallible ReadError Bytes :=
  let reader := Reader.new src
  match reader.header f64 with
  | (.error e, _) => .fail e
  | (.ok header, reader) => do
      let replay := Replay.new header.height.toNat header.width.toNat
      let replay ← replay.events f64 files (reader.lines.length + 1) reader
      (dumpTerminal replay.term dump : Checked Bytes)

end Posh.Rec
