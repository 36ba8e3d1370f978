import Posh.Rec.Codec

/-!
A recording read event by event.

The lines that the writers make hold no newline, so that joining them by newlines loses
nothing: the reader returns the header and the events that were written.
-/

namespace Posh.Rec

open Posh.Lib

variable {F : Type} {f64 : F64 F}

/-- The reader returns these events in order, then `none`. -/
inductive Reader.Yields (f64 : F64 F) : Reader → List (Event F) → Prop where
  | done {r r' : Reader} (next : r.nextEvent f64 = (none, r')) : Yields f64 r []
  | event {r r' : Reader} {e : Event F} {events : List (Event F)}
      (next : r.nextEvent f64 = (some (.ok e), r')) (rest : Yields f64 r' events) :
      Yields f64 r (e :: events)

/-- The source is a recording with this header and these events. -/
def Reads (f64 : F64 F) (src : List Char) (header : Header) (events : List (Event F)) : Prop :=
  ∃ r, (Reader.new src).header f64 = (.ok header, r) ∧ r.Yields f64 events

/-! ### Reading for the player -/

/-- What is read leaves fewer lines. -/
theorem Reader.nextLine_shorter {line : List Char} {r : Reader} :
    ∀ {lines : List (List Char)} {lineNo : Nat}, nextLine lines lineNo = (some line, r) →
      r.lines.length < lines.length
  | [], _, found => by cases found
  | raw :: lines, lineNo, found => by
      rw [nextLine] at found
      split at found
      · exact Nat.lt_succ_of_lt (nextLine_shorter found)
      · cases found
        exact Nat.lt_succ_self _

theorem Reader.nextEvent_shorter {r r' : Reader} {ev : Except ReadError (Event F)}
    (next : r.nextEvent f64 = (some ev, r')) : r'.lines.length < r.lines.length := by
  unfold nextEvent at next
  split at next
  · rename_i line r'' found
    cases next
    exact nextLine_shorter found
  · cases next

theorem Track.collect_yields {r : Reader} {events : List (Event F)} (yields : r.Yields f64 events)
    {fuel : Nat} (enough : r.lines.length < fuel) (track : Track F) :
    Track.collect f64 fuel r track = .ok (events.foldl (fun track e => track.push e) track) := by
  induction yields generalizing fuel track with
  | done next =>
    cases fuel with
    | zero => cases enough
    | succ fuel =>
      rw [collect, next]
      rfl
  | event next rest ih =>
    cases fuel with
    | zero => cases enough
    | succ fuel =>
      have shorter := Reader.nextEvent_shorter next
      rw [collect, next]
      exact ih (by omega) _

/-- The player of a recording has all its events on its track. -/
theorem Player.fromSource_reads {src : List Char} {header : Header} {events : List (Event F)}
    (reads : Reads f64 src header events) :
    Player.fromSource f64 src = .ok {
      term := Posh.Term.Terminal.new header.height.toNat header.width.toNat
      track := events.foldl (fun track e => track.push e) {}
      frameGap := f64.tenth
      emuRev := header.poshRec.map (·.emuRev) } := by
  obtain ⟨r, first, yields⟩ := reads
  unfold fromSource
  dsimp only
  rw [first]
  change (Track.collect f64 (r.lines.length + 1) r {} >>= _) = _
  rw [Track.collect_yields yields (Nat.lt_succ_self _)]
  rfl

/-! ### What the writers write -/

/-- The letter of an unknown code is none of the known ones. -/
def EventCode.Distinct (code : EventCode) : Prop :=
  ∀ c, code = .unknown c → c ∉ ['o', 'i', 'r', 'm']

theorem EventCode.fromLetter_letter {code : EventCode} (distinct : code.Distinct) :
    fromLetter [code.letter] = code := by
  cases code with
  | output => rfl
  | input => rfl
  | resize => rfl
  | marker => rfl
  | unknown c =>
    have other := distinct c rfl
    simp only [List.mem_cons, List.not_mem_nil, or_false, not_or] at other
    obtain ⟨o, i, r, m⟩ := other
    simp [fromLetter, letter]

/-- The header and the events, a line each. -/
def recordingLines (f64 : F64 F) (header : Header) (events : List (Event F)) : List (List Char) :=
  writeHeader header :: events.map (writeEvent f64)

section

variable {header : Header} {events : List (Event F)}

theorem recordingLines_unbroken (lawful : f64.Lawful)
    (recorded : ∀ e ∈ events, e.Recorded f64) :
    ∀ line ∈ recordingLines f64 header events, '\n' ∉ line := by
  intro line mem
  rcases List.mem_cons.mp mem with rfl | mem
  · exact (isLine_writeHeader header).unbroken
  · obtain ⟨e, inside, rfl⟩ := List.mem_map.mp mem
    exact (isLine_writeEvent lawful (recorded e inside).1).unbroken

/-- The reader over the lines of events, and nothing but blank lines after them, returns
the events. -/
theorem yields_writeEvents (lawful : f64.Lawful) (recorded : ∀ e ∈ events, e.Recorded f64)
    {blank : List (List Char)} (skipped : ∀ lineNo, (Reader.nextLine blank lineNo).1 = none)
    (lineNo : Nat) :
    Reader.Yields f64 { lines := events.map (writeEvent f64) ++ blank, lineNo } events := by
  induction events generalizing lineNo with
  | nil =>
    have ended : Reader.nextLine blank lineNo = (none, (Reader.nextLine blank lineNo).2) :=
      Prod.ext (skipped lineNo) rfl
    have next : Reader.nextEvent f64 { lines := blank, lineNo } =
        (none, (Reader.nextLine blank lineNo).2) := by
      unfold Reader.nextEvent
      rw [ended]
    exact .done next
  | cons e events ih =>
    have next := nextEvent_writeEvent lawful (recorded e List.mem_cons_self)
      (events.map (writeEvent f64) ++ blank) lineNo
    exact .event next (ih (fun e' mem => recorded e' (List.mem_cons_of_mem e mem)) _)

theorem reads_of_lines (lawful : f64.Lawful) (version : header.version = 2)
    (recorded : ∀ e ∈ events, e.Recorded f64) {src : List Char} {blank : List (List Char)}
    (skipped : ∀ lineNo, (Reader.nextLine blank lineNo).1 = none)
    (lines : src.splitOn '\n' = recordingLines f64 header events ++ blank) :
    Reads f64 src header events := by
  obtain ⟨v, parsed, read⟩ := parse_writeHeader lawful header version
  refine ⟨{ lines := events.map (writeEvent f64) ++ blank, lineNo := 1 }, ?_,
    yields_writeEvents lawful recorded skipped 1⟩
  unfold Reader.header Reader.new
  rw [lines, recordingLines, List.cons_append, nextLine_line (isLine_writeHeader header)]
  dsimp only
  unfold Reader.parseLine
  rw [parsed]
  dsimp only
  rw [read]
  rfl

theorem reads_recordingLines (lawful : f64.Lawful) (version : header.version = 2)
    (recorded : ∀ e ∈ events, e.Recorded f64) :
    Reads f64 (['\n'].intercalate (recordingLines f64 header events)) header events := by
  have lines : (['\n'].intercalate (recordingLines f64 header events)).splitOn '\n' =
      recordingLines f64 header events ++ [] := by
    rw [List.append_nil]
    exact List.splitOn_intercalate '\n' (recordingLines_unbroken lawful recorded) nofun
  exact reads_of_lines lawful version recorded (fun _ => rfl) lines

/-- The text of the recorder ends in a newline. -/
theorem reads_recordingText (lawful : f64.Lawful) (version : header.version = 2)
    (recorded : ∀ e ∈ events, e.Recorded f64) :
    Reads f64 (recordingText f64 header events) header events := by
  have lines : (recordingText f64 header events).splitOn '\n' =
      recordingLines f64 header events ++ [[]] := by
    have terminated : recordingText f64 header events =
        (recordingLines f64 header events).flatMap fun line => line ++ ['\n'] := by
      rw [recordingLines, List.flatMap_cons, List.flatMap_map, List.append_assoc]
      rfl
    rw [terminated, splitOn_lines (recordingLines_unbroken lawful recorded)]
  exact reads_of_lines lawful version recorded (fun _ => rfl) lines

/-- What is written is read back: no line holds a newline, and the reader over the lines
joined by newlines returns the header, the events in order, and then `none`. -/
theorem recording_round_trip (lawful : f64.Lawful) (version : header.version = 2)
    (finite : ∀ e ∈ events, f64.isFinite e.time = true)
    (distinct : ∀ e ∈ events, e.code.Distinct) :
    (∀ line ∈ recordingLines f64 header events, '\n' ∉ line) ∧
      Reads f64 (['\n'].intercalate (recordingLines f64 header events)) header events := by
  have recorded : ∀ e ∈ events, e.Recorded f64 := fun e mem =>
    ⟨finite e mem, EventCode.fromLetter_letter (distinct e mem)⟩
  exact ⟨recordingLines_unbroken lawful recorded, reads_recordingLines lawful version recorded⟩

end

/-- A line break, a quote, an unknown code and no data. -/
theorem recording_round_trip_escaped :
    Reads Seconds.ops
      (['\n'].intercalate (recordingLines Seconds.ops
        { version := 2, width := 80, height := 24, poshRec := some ⟨1, ['"', '\n']⟩ }
        [⟨.whole 0, .output, ['\r', '\n', '\\', 'é']⟩, ⟨.tenth, .unknown 'x', []⟩]))
      { version := 2, width := 80, height := 24, poshRec := some ⟨1, ['"', '\n']⟩ }
      [⟨.whole 0, .output, ['\r', '\n', '\\', 'é']⟩, ⟨.tenth, .unknown 'x', []⟩] := by
  refine (recording_round_trip Seconds.lawful rfl (fun _ _ => rfl) fun e mem => ?_).2
  rcases List.mem_pair.mp mem with rfl | rfl
  · exact nofun
  · rintro c ⟨⟩
    decide

end Posh.Rec
