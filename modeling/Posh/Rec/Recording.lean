import Posh.Rec.Reading
import Posh.Rec.Playback
import Posh.Term.Writes

/-!
A session recorded and played back.

The recorder holds the beginning of a character until its end comes, and gives up what
it holds before any other event. As long as no resize or input falls inside a character,
the player goes through exactly the bytes and resizes of the session.
-/

namespace Posh.Rec

open Posh.Lib Posh.Term

variable {F : Type} {f64 : F64 F}

/-! ### Events as cues -/

/-- What the player does for an event. -/
def Event.cues (e : Event F) : List Cue :=
  match e.code with
  | .output => (toUtf8 e.data).map .byte
  | .resize =>
      match parseResize e.data with
      | some (cols, rows) => [.size cols rows]
      | none => []
  | .input | .marker | .unknown _ => []

/-- The output and the anchors of the track are those of the cues. -/
structure Track.Carries (track : Track F) (cues : List Cue) : Prop where
  flat : track.flat = Cue.flat cues
  resizes : track.resizes = Cue.anchors 0 cues
  within : track.Within

theorem Track.Carries.push {track : Track F} {cues : List Cue} (h : track.Carries cues)
    (e : Event F) : (track.push e).Carries (cues ++ e.cues) := by
  obtain ⟨flat, resizes, within⟩ := h
  have grown (more : List Cue) : Cue.anchors 0 (cues ++ more) =
      track.resizes ++ Cue.anchors track.flat.length more := by
    rw [Cue.anchors_append, resizes, flat, Nat.zero_add]
  unfold Track.push Event.cues
  cases e.code with
  | output =>
    constructor
    · rw [Cue.flat_append, Cue.flat_bytes, flat]
    · rw [grown, Cue.anchors_bytes, List.append_nil]
    · intro w mem
      have inside : w ≤ track.flat.length := by
        rcases List.mem_append.mp mem with old | new
        · exact within w old
        · exact Nat.le_of_eq (List.mem_singleton.mp new)
      rw [List.length_append]
      exact Nat.le_add_right_of_le inside
  | resize =>
    dsimp only
    cases parseResize e.data with
    | none =>
      rw [List.append_nil]
      exact ⟨flat, resizes, within⟩
    | some size =>
      obtain ⟨cols, rows⟩ := size
      constructor
      · rw [Cue.flat_append]
        exact flat.trans (List.append_nil _).symm
      · exact (grown [.size cols rows]).symm
      · exact within
  | marker | input | unknown c =>
    rw [List.append_nil]
    exact ⟨flat, resizes, within⟩

/-- The track of events carries their cues. -/
theorem Track.carries_events (events : List (Event F)) :
    (events.foldl (fun track e => track.push e) {} : Track F).Carries (events.flatMap (·.cues)) := by
  have run {track : Track F} {cues : List Cue} (h : track.Carries cues) :
      (events.foldl (fun track e => track.push e) track).Carries (cues ++ events.flatMap (·.cues)) := by
    induction events generalizing track cues with
    | nil =>
      rw [List.flatMap_nil, List.append_nil]
      exact h
    | cons e events ih =>
      rw [List.flatMap_cons, ← List.append_assoc]
      exact ih (h.push e)
  have start : ({} : Track F).Carries [] := ⟨rfl, rfl, fun w mem => nomatch mem⟩
  exact run start

/-- A player at the beginning of its track has all the cues before it. -/
theorem Track.Carries.holds {p : Player F} {cues : List Cue} {t : Terminal}
    (carries : p.track.Carries cues) (term : p.term = t) (cursor : p.cursor = 0)
    (nextResize : p.nextResize = 0) : p.Holds cues t := by
  constructor
  · rw [term]
  · rw [cursor]
    exact Nat.zero_le _
  · rw [cursor, List.drop_zero]
    exact carries.flat
  · rw [cursor, nextResize, List.drop_zero]
    exact carries.resizes

theorem trim_decimal (n : Nat) : trim (decimal n) = decimal n := by
  have dark : ∀ c ∈ decimal n, isWhitespace c = false := by
    intro c mem
    have digit := isDigit_decimal n c mem
    obtain ⟨low, high⟩ : 0x30 ≤ c.toNat ∧ c.toNat ≤ 0x39 := by
      simpa [Char.isDigit, UInt32.le_iff_toNat_le] using digit
    simp [isWhitespace]
    omega
  unfold trim
  have front : (decimal n).dropWhile isWhitespace = decimal n := by
    cases digits : decimal n with
    | nil => rfl
    | cons c rest =>
      rw [List.dropWhile_cons, if_neg]
      rw [dark c (digits ▸ List.mem_cons_self)]
      exact Bool.false_ne_true
  rw [front, List.rdropWhile_eq_self_iff]
  intro some_
  rw [dark _ (List.getLast_mem some_)]
  exact Bool.false_ne_true

/-- A size is read as it was written. -/
theorem parseResize_decimal (cols rows : UInt16) :
    parseResize (decimal cols.toNat ++ "x".toList ++ decimal rows.toNat) =
      some (cols.toNat, rows.toNat) := by
  have absent : 'x' ∉ decimal cols.toNat := fun mem =>
    absurd (isDigit_decimal cols.toNat 'x' mem) (by decide)
  have split : splitOnce 'x' (decimal cols.toNat ++ 'x' :: decimal rows.toNat) =
      some (decimal cols.toNat, decimal rows.toNat) := splitOnce_append absent
  unfold parseResize
  rw [List.append_assoc]
  change (splitOnce 'x' (decimal cols.toNat ++ 'x' :: decimal rows.toNat) >>= _) = _
  rw [split]
  dsimp only [Option.bind_eq_bind, Option.bind_some]
  rw [trim_decimal, trim_decimal, parseU16_decimal, parseU16_decimal]
  rfl

/-! ### Sessions -/

/-- What a session passes to its recorder. -/
inductive Happening (F : Type) where
  | output (time : F) (bytes : Bytes)
  | resize (time : F) (cols rows : UInt16)
  | input (time : F) (bytes : Bytes)

namespace Happening

def time : Happening F → F
  | output time _ | resize time _ _ | input time _ => time

def record (f64 : F64 F) : Happening F → Recorder F → Recorder F
  | output time bytes, r => r.output f64 time bytes
  | resize time cols rows, r => r.resize f64 time cols rows
  | input time bytes, r => r.input f64 time bytes

/-- The terminal of the session. -/
def live (files : Files) : Happening F → Terminal → Checked Terminal
  | output _ bytes, t => t.process files bytes
  | resize _ cols rows, t => t.resize rows.toNat cols.toNat
  | input _ _, t => return t

/-- The output in it. -/
def chunk : Happening F → Bytes
  | output _ bytes => bytes
  | resize _ _ _ | input _ _ => []

def cues : Happening F → List Cue
  | output _ bytes => bytes.map .byte
  | resize _ cols rows => [.size cols.toNat rows.toNat]
  | input _ _ => []

end Happening

/-- A session fed to a recorder and finished. -/
def recorded (f64 : F64 F) (session : List (Happening F)) (r : Recorder F) : Recorder F :=
  (session.foldl (fun r h => h.record f64 r) r).finish f64

/-- The recording of a session. -/
def recording (f64 : F64 F) (header : Header) (session : List (Happening F)) : Bytes :=
  (recorded f64 session ((Recorder.new f64).writeHeader header)).writer

/-- The terminal fed the session's chunks and resizes directly. -/
def liveTerminal (files : Files) (header : Header) (session : List (Happening F)) :
    Checked Terminal :=
  forEach session (Terminal.new header.height.toNat header.width.toNat) fun h t => h.live files t

/-- The output of a session. -/
def chunks (session : List (Happening F)) : Bytes :=
  session.flatMap (·.chunk)

/-- Every resize and every input comes where the output so far, `before` first, is text. -/
def Aligned : (before : Bytes) → List (Happening F) → Prop
  | _, [] => True
  | before, .output _ bytes :: session => Aligned (before ++ bytes) session
  | before, .resize _ _ _ :: session => (fromUtf8 before).isSome = true ∧ Aligned before session
  | before, .input _ _ :: session => (fromUtf8 before).isSome = true ∧ Aligned before session

/-! ### What the recorder writes -/

/-- The lines of events. -/
def lines (f64 : F64 F) (events : List (Event F)) : Bytes :=
  toUtf8 (events.flatMap fun e => writeEvent f64 e ++ ['\n'])

/-- The output of events. -/
def outputs (events : List (Event F)) : Bytes :=
  Cue.flat (events.flatMap (·.cues))

theorem outputs_append (events more : List (Event F)) :
    outputs (events ++ more) = outputs events ++ outputs more := by
  unfold outputs
  rw [List.flatMap_append, Cue.flat_append]

theorem outputs_output (time : F) (s : List Char) :
    outputs [{ time, code := .output, data := s }] = toUtf8 s := by
  unfold outputs
  rw [List.flatMap_singleton]
  exact Cue.flat_bytes _

/-- From `r` to `r'` the recorder writes the events. -/
structure Emits (f64 : F64 F) (r r' : Recorder F) (events : List (Event F)) : Prop where
  writer : r'.writer = r.writer ++ lines f64 events
  recorded : ∀ e ∈ events, e.Recorded f64

namespace Emits

variable {r r' r'' : Recorder F} {events more : List (Event F)}

theorem nothing (same : r'.writer = r.writer) : Emits f64 r r' [] := by
  constructor
  · rw [same]
    exact (List.append_nil _).symm
  · exact nofun

theorem append (h : Emits f64 r r' events) (h' : Emits f64 r' r'' more) :
    Emits f64 r r'' (events ++ more) := by
  constructor
  · rw [h'.writer, h.writer, List.append_assoc]
    unfold lines
    rw [List.flatMap_append, toUtf8_append]
  · intro e mem
    rcases List.mem_append.mp mem with old | new
    · exact h.recorded e old
    · exact h'.recorded e new

/-- One line. -/
theorem one {e : Event F} (recorded : e.Recorded f64)
    (writer : r'.writer = (Recorder.writeLine f64 e.time e.code e.data r).writer) :
    Emits f64 r r' [e] := by
  constructor
  · rw [writer]
    unfold lines Recorder.writeLine
    rw [List.flatMap_singleton, toUtf8_append, ← List.append_assoc]
  · intro e' mem
    rw [List.mem_singleton.mp mem]
    exact recorded

end Emits

section

variable {time : F}

theorem Event.recorded_of_code (finite : f64.isFinite time = true) {code : EventCode}
    (known : EventCode.fromLetter [code.letter] = code) (data : List Char) :
    Event.Recorded f64 { time, code, data } :=
  ⟨finite, known⟩

theorem flushCompleteLoop_lastTime (fuel : Nat) (r : Recorder F) :
    (r.flushCompleteLoop f64 time fuel).lastTime = r.lastTime := by
  induction fuel generalizing r with
  | zero => rfl
  | succ fuel ih =>
    unfold Recorder.flushCompleteLoop
    split
    · split
      · rfl
      · rfl
    · split
      · split
        · rfl
        · rfl
      · exact ih _

theorem flushHeld_lastTime (r : Recorder F) : (r.flushHeld f64 time).lastTime = r.lastTime := by
  unfold Recorder.flushHeld
  split
  · rfl
  · rfl

theorem record_lastTime (h : Happening F) (r : Recorder F) :
    (h.record f64 r).lastTime = h.time := by
  cases h with
  | output time bytes => exact flushCompleteLoop_lastTime _ _
  | resize time cols rows => exact flushHeld_lastTime _
  | input time bytes => exact flushHeld_lastTime _

/-- Nothing of what is pending is dropped without something as long in its place. -/
theorem flushCompleteLoop_emits (finite : f64.isFinite time = true) (fuel : Nat) (r : Recorder F) :
    ∃ events, Emits f64 r (r.flushCompleteLoop f64 time fuel) events ∧
      r.pending.length ≤
        (outputs events).length + (r.flushCompleteLoop f64 time fuel).pending.length := by
  have stays : ∃ events, Emits f64 r r events ∧
      r.pending.length ≤ (outputs events).length + r.pending.length :=
    ⟨[], .nothing rfl, Nat.le_add_left _ _⟩
  induction fuel generalizing r with
  | zero => exact stays
  | succ fuel ih =>
    have spelled := congrArg List.length (validUpTo_spells r.pending)
    rw [List.length_append] at spelled
    unfold Recorder.flushCompleteLoop
    split
    · rename_i s valid
      rw [valid] at spelled
      split
      · exact stays
      · refine ⟨_, .one (Event.recorded_of_code finite rfl s) rfl, ?_⟩
        rw [outputs_output]
        exact Nat.le_of_eq spelled.symm
    · rename_i s tail _ valid
      rw [valid] at spelled
      split
      · split
        · exact stays
        · refine ⟨_, .one (Event.recorded_of_code finite rfl s) rfl, ?_⟩
          rw [outputs_output]
          exact Nat.le_of_eq spelled.symm
      · rename_i bad found
        obtain ⟨-, few, inside⟩ := errorLen_bounds valid found
        obtain ⟨more, emits, length⟩ := ih
          { r.writeLine f64 time .output (s ++ [Json.Parser.REPLACEMENT]) with
            pending := tail.drop bad } ⟨[], .nothing rfl, Nat.le_add_left _ _⟩
        have first : Emits f64 r
            { r.writeLine f64 time .output (s ++ [Json.Parser.REPLACEMENT]) with
              pending := tail.drop bad } _ :=
          .one (Event.recorded_of_code finite rfl (s ++ [Json.Parser.REPLACEMENT])) rfl
        refine ⟨_, first.append emits, ?_⟩
        have size : utf8Length [Json.Parser.REPLACEMENT] = 3 := rfl
        rw [outputs_append, outputs_output, List.length_append, length_toUtf8, utf8Length_append, size]
        rw [length_toUtf8] at spelled
        rw [List.length_drop] at length
        dsimp only at spelled length ⊢
        omega

/-- What is held goes out with its ill-formed sequences replaced. -/
theorem flushHeld_emits (finite : f64.isFinite time = true) (r : Recorder F) :
    ∃ events, Emits f64 r (r.flushHeld f64 time) events ∧
      outputs events = toUtf8 (fromUtf8Lossy r.pending) ∧
      (r.flushHeld f64 time).pending = [] := by
  unfold Recorder.flushHeld
  split
  · rename_i empty
    have empty := List.isEmpty_iff.mp empty
    refine ⟨[], .nothing rfl, ?_, empty⟩
    rw [empty]
    rfl
  · refine ⟨_, .one (Event.recorded_of_code finite rfl (fromUtf8Lossy r.pending)) rfl, ?_, rfl⟩
    exact outputs_output _ _

/-- A resize or an input is written after what was held. -/
theorem writeLine_emits (finite : f64.isFinite time = true) (code : EventCode)
    (known : EventCode.fromLetter [code.letter] = code) (data : List Char) {r held : Recorder F}
    (flushed : held = { r with lastTime := time }.flushHeld f64 time) :
    ∃ events, Emits f64 r (held.writeLine f64 time code data) (events ++ [⟨time, code, data⟩]) ∧
      outputs events = toUtf8 (fromUtf8Lossy r.pending) ∧
      (held.writeLine f64 time code data).pending = [] := by
  obtain ⟨events, emits, lossy, empty⟩ := flushHeld_emits finite { r with lastTime := time }
  rw [← flushed] at emits empty
  have started : Emits f64 r held events := ⟨emits.writer, emits.recorded⟩
  have last : Emits f64 held (held.writeLine f64 time code data) [⟨time, code, data⟩] :=
    .one (Event.recorded_of_code finite known data) rfl
  exact ⟨events, started.append last, lossy, empty⟩

/-- No output is dropped without something as long in its place. -/
theorem record_emits {h : Happening F} (finite : f64.isFinite h.time = true) (r : Recorder F) :
    ∃ events, Emits f64 r (h.record f64 r) events ∧
      r.pending.length + h.chunk.length ≤ (outputs events).length + (h.record f64 r).pending.length := by
  have held : r.pending.length ≤ (toUtf8 (fromUtf8Lossy r.pending)).length := by
    rw [length_toUtf8]
    exact length_fromUtf8Lossy r.pending
  cases h with
  | output time bytes =>
    obtain ⟨events, emits, length⟩ := flushCompleteLoop_emits finite
      ((r.pending ++ bytes).length + 1) { r with lastTime := time, pending := r.pending ++ bytes }
    refine ⟨events, ⟨emits.writer, emits.recorded⟩, ?_⟩
    exact Nat.le_trans (Nat.le_of_eq List.length_append.symm) length
  | resize time cols rows =>
    obtain ⟨events, emits, lossy, empty⟩ := writeLine_emits finite .resize rfl
      (decimal cols.toNat ++ "x".toList ++ decimal rows.toNat) rfl
    refine ⟨_, emits, ?_⟩
    rw [outputs_append, lossy, List.length_append]
    exact Nat.le_add_right_of_le (Nat.le_add_right_of_le held)
  | input time bytes =>
    obtain ⟨events, emits, lossy, empty⟩ := writeLine_emits finite .input rfl
      (fromUtf8Lossy bytes) rfl
    refine ⟨_, emits, ?_⟩
    rw [outputs_append, lossy, List.length_append]
    exact Nat.le_add_right_of_le (Nat.le_add_right_of_le held)

/-- No output of a session is missing from its recording without something as long in
its place. -/
theorem recorded_emits {session : List (Happening F)}
    (finite : ∀ h ∈ session, f64.isFinite h.time = true) {r : Recorder F}
    (last : f64.isFinite r.lastTime = true) :
    ∃ events, Emits f64 r (recorded f64 session r) events ∧
      r.pending.length + (chunks session).length ≤ (outputs events).length := by
  induction session generalizing r with
  | nil =>
    obtain ⟨events, emits, lossy, -⟩ := flushHeld_emits last r
    refine ⟨events, emits, ?_⟩
    rw [lossy, length_toUtf8]
    exact length_fromUtf8Lossy r.pending
  | cons h session ih =>
    have now := finite h List.mem_cons_self
    obtain ⟨events, emits, length⟩ := record_emits now r
    obtain ⟨more, later, rest⟩ := @ih (fun h' mem => finite h' (List.mem_cons_of_mem h mem))
      (h.record f64 r) (by rwa [record_lastTime])
    refine ⟨events ++ more, emits.append later, ?_⟩
    have all : chunks (h :: session) = h.chunk ++ chunks session := rfl
    rw [outputs_append, all, List.length_append, List.length_append]
    omega

/-! ### What is held -/

/-- Before a place where the output is text, nothing is held. -/
theorem nothing_held {s : List Char} {held : Bytes} (cut : held = [] ∨ Begun held)
    (whole : (fromUtf8 (toUtf8 s ++ held)).isSome = true) : held = [] := by
  rcases cut with empty | begun
  · exact empty
  · rw [fromUtf8_begun s begun] at whole
    cases whole

/-- Everything that is complete goes out, and the rest is held. -/
theorem output_spec (finite : f64.isFinite time = true) {r : Recorder F} {bytes tail : Bytes}
    {s : List Char} (cut : Cut s tail (r.pending ++ bytes)) :
    ∃ events, Emits f64 r (r.output f64 time bytes) events ∧
      events.flatMap (·.cues) = (toUtf8 s).map .byte ∧ (r.output f64 time bytes).pending = tail := by
  have valid := validUpTo_cut cut
  obtain ⟨split, last⟩ := cut
  have none : errorLen tail = none := by
    rcases last with rfl | begun
    · rfl
    · exact errorLen_begun begun
  unfold Recorder.output Recorder.flushComplete Recorder.flushCompleteLoop
  rw [valid]
  by_cases empty : s = []
  · subst empty
    cases tail with
    | nil => exact ⟨[], .nothing rfl, rfl, split⟩
    | cons b rest =>
      dsimp only
      rw [none]
      exact ⟨[], .nothing rfl, rfl, split⟩
  · have some_ : s.isEmpty = false := by simpa using empty
    have event : Event.Recorded f64 ⟨time, .output, s⟩ := Event.recorded_of_code finite rfl s
    cases tail with
    | nil =>
      dsimp only
      rw [some_, if_neg Bool.false_ne_true]
      exact ⟨_, .one event rfl, List.flatMap_singleton _ _, rfl⟩
    | cons b rest =>
      dsimp only
      rw [none, some_]
      dsimp only
      rw [if_neg Bool.false_ne_true]
      exact ⟨_, .one event rfl, List.flatMap_singleton _ _, rfl⟩

end

/-- With nothing held, an event is written as it comes. -/
theorem record_at_rest {h : Happening F} (finite : f64.isFinite h.time = true)
    (other : h.chunk = []) {r : Recorder F} (rest : r.pending = []) :
    ∃ events, Emits f64 r (h.record f64 r) events ∧ events.flatMap (·.cues) = h.cues ∧
      (h.record f64 r).pending = [] := by
  have held (time : F) : { r with lastTime := time }.flushHeld f64 time = { r with lastTime := time } :=
    if_pos (List.isEmpty_iff.mpr rest)
  cases h with
  | output time bytes =>
    obtain rfl : bytes = [] := other
    have cut : Cut [] [] (r.pending ++ []) := by
      rw [rest]
      exact .nil
    exact output_spec finite cut
  | resize time cols rows =>
    have event : Event.Recorded f64 ⟨time, .resize,
      decimal cols.toNat ++ "x".toList ++ decimal rows.toNat⟩ := Event.recorded_of_code finite rfl _
    have written : Happening.record f64 (.resize time cols rows) r =
        Recorder.writeLine f64 time .resize _ { r with lastTime := time } :=
      congrArg (Recorder.writeLine f64 time .resize _) (held time)
    rw [written]
    refine ⟨_, .one event rfl, ?_, rest⟩
    rw [List.flatMap_singleton]
    unfold Event.cues
    dsimp only
    rw [parseResize_decimal]
    rfl
  | input time bytes =>
    have event : Event.Recorded f64 ⟨time, .input, fromUtf8Lossy bytes⟩ :=
      Event.recorded_of_code finite rfl _
    have written : Happening.record f64 (.input time bytes) r =
        Recorder.writeLine f64 time .input _ { r with lastTime := time } :=
      congrArg (Recorder.writeLine f64 time .input _) (held time)
    rw [written]
    exact ⟨_, .one event rfl, rfl, rest⟩

/-- Before an event that is no output, what is held goes out. -/
theorem record_gives_up {h : Happening F} (finite : f64.isFinite h.time = true)
    (other : ∀ time bytes, h ≠ .output time bytes) (r : Recorder F) :
    ∃ events, Emits f64 r (h.record f64 r) events ∧
      outputs events = toUtf8 (fromUtf8Lossy r.pending) ∧ (h.record f64 r).pending = [] := by
  cases h with
  | output time bytes => exact absurd rfl (other time bytes)
  | resize time cols rows =>
    obtain ⟨events, emits, lossy, empty⟩ := writeLine_emits finite .resize rfl
      (decimal cols.toNat ++ "x".toList ++ decimal rows.toNat) rfl
    refine ⟨_, emits, ?_, empty⟩
    rw [outputs_append, lossy]
    unfold outputs
    rw [List.flatMap_singleton]
    unfold Event.cues
    dsimp only
    rw [parseResize_decimal]
    exact List.append_nil _
  | input time bytes =>
    obtain ⟨events, emits, lossy, empty⟩ := writeLine_emits finite .input rfl (fromUtf8Lossy bytes) rfl
    refine ⟨_, emits, ?_, empty⟩
    rw [outputs_append, lossy]
    exact List.append_nil _

section

variable {session : List (Happening F)} {r : Recorder F} {s rest : List Char}

/-- Output joins what is held: what is complete in both goes out, and the recorder goes on in
the same session with the rest. -/
theorem output_joins {time : F} (finite : f64.isFinite time = true) {bytes : Bytes}
    (whole : r.pending ++ chunks (.output time bytes :: session) = toUtf8 rest) (s : List Char) :
    ∃ s' rest' events, Emits f64 r (r.output f64 time bytes) events ∧
      events.flatMap (·.cues) = (toUtf8 s').map .byte ∧
      r.pending ++ bytes = toUtf8 s' ++ (r.output f64 time bytes).pending ∧
      ((r.output f64 time bytes).pending = [] ∨ Begun (r.output f64 time bytes).pending) ∧
      (r.output f64 time bytes).pending ++ chunks session = toUtf8 rest' ∧
      (Aligned (toUtf8 s ++ r.pending) (.output time bytes :: session) ↔
        Aligned (toUtf8 (s ++ s') ++ (r.output f64 time bytes).pending) session) := by
  have split : r.pending ++ bytes ++ chunks session = toUtf8 rest := by
    rw [List.append_assoc]
    exact whole
  obtain ⟨s', tail, rest', -, out, coming⟩ := exists_cut split
  obtain ⟨events, emits, cues, held⟩ := output_spec finite out
  obtain ⟨joined, begun⟩ := out
  rw [held]
  refine ⟨s', rest', events, emits, cues, joined, begun, coming, ?_⟩
  rw [toUtf8_append, List.append_assoc, ← joined, ← List.append_assoc]
  rfl

/-- Where no other event falls inside a character, the recording has the cues of the session. -/
theorem aligned_emits (finite : ∀ h ∈ session, f64.isFinite h.time = true)
    (cut : r.pending = [] ∨ Begun r.pending) (whole : r.pending ++ chunks session = toUtf8 rest)
    (aligned : Aligned (toUtf8 s ++ r.pending) session) :
    ∃ events, Emits f64 r (recorded f64 session r) events ∧
      events.flatMap (·.cues) = r.pending.map .byte ++ session.flatMap (·.cues) := by
  induction session generalizing r s rest with
  | nil =>
    have empty : r.pending = [] := by
      have text : r.pending = toUtf8 rest := (List.append_nil _).symm.trans whole
      refine @nothing_held [] r.pending cut ?_
      change (fromUtf8 r.pending).isSome = true
      rw [text, fromUtf8_toUtf8]
      rfl
    have stays : recorded f64 [] r = r := if_pos (List.isEmpty_iff.mpr empty)
    rw [stays, empty]
    exact ⟨[], .nothing rfl, rfl⟩
  | cons h session ih =>
    have now := finite h List.mem_cons_self
    have later := fun h' mem => finite h' (List.mem_cons_of_mem h mem)
    have other (quiet : h.chunk = []) (here : (fromUtf8 (toUtf8 s ++ r.pending)).isSome = true)
        (aligned : Aligned (toUtf8 s ++ r.pending) session) :
        ∃ events, Emits f64 r (recorded f64 (h :: session) r) events ∧
          events.flatMap (·.cues) = r.pending.map .byte ++ (h :: session).flatMap (·.cues) := by
      have empty := nothing_held cut here
      obtain ⟨events, emits, cues, atRest⟩ := record_at_rest now quiet empty
      have silent : chunks (h :: session) = chunks session := by
        change h.chunk ++ chunks session = chunks session
        rw [quiet, List.nil_append]
      rw [silent, empty] at whole
      rw [empty] at aligned
      obtain ⟨more, following, same⟩ := @ih (h.record f64 r) s rest later (.inl atRest)
        (by rw [atRest]; exact whole) (by rw [atRest]; exact aligned)
      refine ⟨events ++ more, emits.append following, ?_⟩
      rw [List.flatMap_append, cues, same, atRest, empty]
      rfl
    cases h with
    | resize time cols rows => exact other rfl aligned.1 aligned.2
    | input time bytes => exact other rfl aligned.1 aligned.2
    | output time bytes =>
      obtain ⟨s', rest', events, emits, cues, joined, begun, coming, next⟩ :=
        @output_joins F f64 session r rest time now bytes whole s
      obtain ⟨more, following, same⟩ := @ih (Happening.record f64 (.output time bytes) r) (s ++ s') rest'
        later begun coming (next.mp aligned)
      refine ⟨events ++ more, emits.append following, ?_⟩
      have pieces := congrArg (List.map Cue.byte) joined
      rw [List.map_append, List.map_append] at pieces
      rw [List.flatMap_append, cues, same]
      change _ ++ ((r.output f64 time bytes).pending.map Cue.byte ++ _) =
        _ ++ (bytes.map Cue.byte ++ session.flatMap (·.cues))
      rw [← List.append_assoc, ← pieces, List.append_assoc]

/-- Where another event falls inside a character, the recording has other output. -/
theorem misaligned_emits (finite : ∀ h ∈ session, f64.isFinite h.time = true)
    (cut : r.pending = [] ∨ Begun r.pending) (whole : r.pending ++ chunks session = toUtf8 rest)
    (misaligned : ¬ Aligned (toUtf8 s ++ r.pending) session) :
    ∃ events, Emits f64 r (recorded f64 session r) events ∧
      outputs events ≠ r.pending ++ chunks session := by
  induction session generalizing r s rest with
  | nil => exact absurd trivial misaligned
  | cons h session ih =>
    have now := finite h List.mem_cons_self
    have later := fun h' mem => finite h' (List.mem_cons_of_mem h mem)
    have other (quiet : h.chunk = []) (other : ∀ time bytes, h ≠ .output time bytes) (no : (fromUtf8 (toUtf8 s ++ r.pending)).isSome = true →
        ¬ Aligned (toUtf8 s ++ r.pending) session) :
        ∃ events, Emits f64 r (recorded f64 (h :: session) r) events ∧
          outputs events ≠ r.pending ++ chunks (h :: session) := by
      have silent : chunks (h :: session) = chunks session := by
        change h.chunk ++ chunks session = chunks session
        rw [quiet, List.nil_append]
      rw [silent] at whole ⊢
      by_cases here : (fromUtf8 (toUtf8 s ++ r.pending)).isSome = true
      · have empty := nothing_held cut here
        have no := no here
        obtain ⟨events, emits, cues, atRest⟩ := record_at_rest now quiet empty
        rw [empty] at whole no ⊢
        obtain ⟨more, following, differ⟩ := @ih (h.record f64 r) s rest later (.inl atRest)
          (by rw [atRest]; exact whole) (by rw [atRest]; exact no)
        refine ⟨events ++ more, emits.append following, ?_⟩
        have nothing : outputs events = [] := by
          unfold outputs
          rw [cues]
          cases h with
          | output time bytes =>
            obtain rfl : bytes = [] := quiet
            rfl
          | resize time cols rows => rfl
          | input time bytes => rfl
        rw [outputs_append, nothing]
        rw [atRest] at differ
        exact differ
      · -- what is held goes out as a text that is no shorter and is not what was held
        have begun : Begun r.pending := by
          rcases cut with empty | begun
          · rw [empty, List.append_nil, fromUtf8_toUtf8] at here
            exact absurd rfl here
          · exact begun
        obtain ⟨events, emits, lossy, atRest⟩ := record_gives_up now other r
        obtain ⟨more, following, length⟩ := @recorded_emits F f64 session later (h.record f64 r)
          (by rwa [record_lastTime])
        refine ⟨events ++ more, emits.append following, fun same => ?_⟩
        rw [outputs_append, lossy] at same
        rw [atRest, List.length_nil, Nat.zero_add] at length
        have longer : r.pending.length ≤ (toUtf8 (fromUtf8Lossy r.pending)).length := by
          rw [length_toUtf8]
          exact length_fromUtf8Lossy r.pending
        have lengths := congrArg List.length same
        rw [List.length_append, List.length_append] at lengths
        obtain ⟨held, -⟩ := List.append_inj same (by omega)
        have noText := fromUtf8_begun [] begun
        change fromUtf8 r.pending = none at noText
        rw [← held, fromUtf8_toUtf8] at noText
        cases noText
    cases h with
    | resize time cols rows => exact other rfl nofun fun here aligned => misaligned ⟨here, aligned⟩
    | input time bytes => exact other rfl nofun fun here aligned => misaligned ⟨here, aligned⟩
    | output time bytes =>
      obtain ⟨s', rest', events, emits, cues, joined, begun, coming, next⟩ :=
        @output_joins F f64 session r rest time now bytes whole s
      obtain ⟨more, following, differ⟩ := @ih (Happening.record f64 (.output time bytes) r) (s ++ s')
        rest' later begun coming (mt next.mpr misaligned)
      refine ⟨events ++ more, emits.append following, fun same => differ ?_⟩
      have first : outputs events = toUtf8 s' := by
        unfold outputs
        rw [cues, Cue.flat_bytes]
      rw [outputs_append, first] at same
      change _ = r.pending ++ (bytes ++ chunks session) at same
      rw [← List.append_assoc, joined, List.append_assoc] at same
      exact List.append_cancel_left same

end

/-! ### The player's run -/

/-- The grids and their scrollback, which of the screens is active, and the cursor. -/
def shown (t : Terminal) : (Screen × Screen) × Bool × CursorState :=
  ((t.primary, t.alt), t.altActive, t.cursor)

/-- The player of the session's recording shows at its end what the session's terminal
does, and its output is the session's. -/
def Replays (f64 : F64 F) (files : Files) (header : Header) (session : List (Happening F)) : Prop :=
  ∃ src player, fromUtf8 (recording f64 header session) = some src ∧
    Player.fromSource f64 src = .ok player ∧
    (fun p => shown p.term) <$> player.stepToEnd files = shown <$> liveTerminal files header session ∧
    player.track.flat = chunks session

theorem flat_cues (session : List (Happening F)) :
    Cue.flat (session.flatMap (·.cues)) = chunks session := by
  induction session with
  | nil => rfl
  | cons h session ih =>
    rw [List.flatMap_cons, Cue.flat_append, ih]
    cases h with
    | output time bytes =>
      rw [Happening.cues, Cue.flat_bytes]
      rfl
    | resize time cols rows => rfl
    | input time bytes => rfl

/-- The session's terminal goes through the cues of the session. -/
theorem forEach_cues {files : Files} (session : List (Happening F)) (t : Terminal) :
    forEach (session.flatMap (·.cues)) t (fun cue t => cue.run files t) =
      forEach session t fun h t => h.live files t := by
  have bytes (chunk : Bytes) (cues : List Cue) (t : Terminal) :
      forEach (chunk.map Cue.byte ++ cues) t (fun cue t => cue.run files t) =
        t.process files chunk >>= fun t => forEach cues t fun cue t => cue.run files t := by
    rw [forEach_append, Cue.run_bytes]
  induction session generalizing t with
  | nil => rfl
  | cons h session ih =>
    rw [List.flatMap_cons]
    cases h with
    | output time chunk =>
      rw [Happening.cues, bytes]
      exact congrArg _ (funext ih)
    | resize time cols rows => exact congrArg _ (funext ih)
    | input time chunk => exact ih t

/-- The events of a recording, and the player made from them. -/
theorem fromSource_recording (lawful : f64.Lawful) {header : Header} (version : header.version = 2)
    {session : List (Happening F)} {events : List (Event F)}
    (emits : Emits f64 ((Recorder.new f64).writeHeader header)
      (recorded f64 session ((Recorder.new f64).writeHeader header)) events) :
    ∃ src player, fromUtf8 (recording f64 header session) = some src ∧
      Player.fromSource f64 src = .ok player ∧
      player.term = Terminal.new header.height.toNat header.width.toNat ∧ player.cursor = 0 ∧
      player.nextResize = 0 ∧ player.track.Carries (events.flatMap (·.cues)) := by
  have text : recording f64 header session = toUtf8 (recordingText f64 header events) := by
    unfold recording
    rw [emits.writer]
    unfold recordingText lines
    rw [toUtf8_append]
    change [] ++ toUtf8 (writeHeader header) ++ toUtf8 ['\n'] ++ _ = _
    rw [List.nil_append, List.append_assoc, ← toUtf8_append]
    rfl
  refine ⟨_, _, ?_, Player.fromSource_reads (reads_recordingText lawful version emits.recorded), rfl, rfl, rfl, ?_⟩
  · rw [text, fromUtf8_toUtf8]
  · exact Track.carries_events events

section

variable {header : Header} {session : List (Happening F)}

theorem replays_of_aligned (lawful : f64.Lawful) (files : Files) (version : header.version = 2)
    (finite : ∀ h ∈ session, f64.isFinite h.time = true) {text : List Char}
    (valid : chunks session = toUtf8 text) (small : (chunks session).length ≤ Player.USIZE_MAX)
    (aligned : Aligned [] session) : Replays f64 files header session := by
  obtain ⟨events, emits, cues⟩ := @aligned_emits F f64 session
    ((Recorder.new f64).writeHeader header) [] text finite (.inl rfl) valid aligned
  obtain ⟨src, player, read, made, term, cursor, nextResize, carries⟩ :=
    fromSource_recording lawful version emits
  rw [cues] at carries
  have flat : player.track.flat = chunks session := carries.flat.trans (flat_cues session)
  have holds : player.Holds (session.flatMap (·.cues)) _ := carries.holds term cursor nextResize
  have run := @Player.stepToEnd_spec _ files _ _ _ holds carries.within (by rw [flat]; exact small)
  rw [forEach_cues] at run
  refine ⟨src, player, read, made, run.map_eq fun p t same => ?_, flat⟩
  change shown p.term.silent = shown t.silent
  rw [same]

theorem not_replays_of_misaligned (lawful : f64.Lawful) (files : Files) (version : header.version = 2)
    (finite : ∀ h ∈ session, f64.isFinite h.time = true) {text : List Char}
    (valid : chunks session = toUtf8 text) (misaligned : ¬ Aligned [] session) :
    ¬ Replays f64 files header session := by
  obtain ⟨events, emits, differ⟩ := @misaligned_emits F f64 session
    ((Recorder.new f64).writeHeader header) [] text finite (.inl rfl) valid misaligned
  obtain ⟨src, player, read, made, -, -, -, carries⟩ := fromSource_recording lawful version emits
  rintro ⟨src', player', read', made', -, flat⟩
  obtain rfl : src = src' := Option.some.inj (read.symm.trans read')
  obtain rfl : player = player' := Except.ok.inj (made.symm.trans made')
  exact differ (carries.flat.symm.trans flat)

/-- The player reproduces a session exactly when no resize or input of it falls inside a
character of its output. -/
theorem replays_iff_aligned (lawful : f64.Lawful) (files : Files) (version : header.version = 2)
    (finite : ∀ h ∈ session, f64.isFinite h.time = true)
    (valid : (fromUtf8 (chunks session)).isSome = true)
    (small : (chunks session).length ≤ Player.USIZE_MAX) :
    Replays f64 files header session ↔ Aligned [] session := by
  obtain ⟨text, decoded⟩ := Option.isSome_iff_exists.mp valid
  have spelled : chunks session = toUtf8 text := (toUtf8_of_fromUtf8 decoded).symm
  constructor
  · intro replays
    by_contra misaligned
    exact not_replays_of_misaligned lawful files version finite spelled misaligned replays
  · exact replays_of_aligned lawful files version finite spelled small

end

/-- An é in two chunks, a resize and a key. -/
theorem replays_iff_aligned_resized :
    Replays Seconds.ops (fun _ => none) { version := 2, width := 80, height := 24 }
        [.output (.whole 0) [0x68, 0xC3], .output (.whole 1) [0xA9], .resize (.whole 2) 100 30,
          .input (.whole 3) [0x71]] ↔
      Aligned [] [Happening.output (Seconds.whole 0) [0x68, 0xC3], .output (.whole 1) [0xA9],
        .resize (.whole 2) 100 30, .input (.whole 3) [0x71]] :=
  replays_iff_aligned Seconds.lawful _ rfl (fun _ _ => rfl) (by decide) (by decide)

/-- A resize between the two bytes of an é, which the recording replaces one by one. -/
theorem not_replays_of_resize_inside :
    (fromUtf8 (chunks [Happening.output (Seconds.whole 0) [0xC3], .resize (.whole 1) 100 30,
        .output (.whole 2) [0xA9]])).isSome = true ∧
      ¬ Replays Seconds.ops (fun _ => none) { version := 2, width := 80, height := 24 }
        [.output (.whole 0) [0xC3], .resize (.whole 1) 100 30, .output (.whole 2) [0xA9]] := by
  constructor
  · decide
  · have misaligned : ¬ Aligned [] [Happening.output (Seconds.whole 0) [0xC3],
        .resize (.whole 1) 100 30, .output (.whole 2) [0xA9]] := by
      rintro ⟨whole, -⟩
      exact absurd whole (by decide)
    have text : chunks [Happening.output (Seconds.whole 0) [0xC3], .resize (.whole 1) 100 30,
        .output (.whole 2) [0xA9]] = toUtf8 ['é'] := by decide
    exact not_replays_of_misaligned Seconds.lawful _ rfl (fun _ _ => rfl) text misaligned

end Posh.Rec
