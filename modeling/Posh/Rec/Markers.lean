import Posh.Rec.Recording

/-!
Stepping to a marker.

The player knows a marker by its place in the output. What it has gone through there are
the events up to the last one with output before the marker: a resize waits for the next
byte. At the end of the output it waits for none, and the resizes after the marker are
gone through as well.
-/

namespace Posh.Rec

open Posh.Lib Posh.Term

variable {F : Type} {f64 : F64 F}

theorem toUtf8_eq_nil {s : List Char} : toUtf8 s = [] ↔ s = [] := by
  constructor
  · intro empty
    have decoded := fromUtf8_toUtf8 s
    rw [empty] at decoded
    exact (Option.some.inj decoded).symm
  · rintro rfl
    rfl

namespace Event

/-- What a terminal that replays the recording does for an event. -/
def replay (files : Files) (e : Event F) (t : Terminal) : Checked Terminal :=
  match e.code with
  | .output => t.process files (toUtf8 e.data)
  | .resize =>
      match parseResize e.data with
      | some (cols, rows) => t.resize rows cols
      | none => .ok t
  | .input | .marker | .unknown _ => .ok t

def replayAll (files : Files) (events : List (Event F)) (t : Terminal) : Checked Terminal :=
  forEach events t fun e t => e.replay files t

/-- An `o` event that is not empty. -/
def hasOutput (e : Event F) : Bool :=
  e.code == .output && !e.data.isEmpty

/-- The events that the player has gone through at a marker. -/
def crossed (before after : List (Event F)) : List (Event F) :=
  if after.any (·.hasOutput) then before.rdropWhile fun e => !e.hasOutput else before ++ after

theorem run_cues (files : Files) (e : Event F) (t : Terminal) :
    forEach e.cues t (fun cue t => cue.run files t) = e.replay files t := by
  unfold cues replay
  cases e.code with
  | output => exact Cue.run_bytes files _ t
  | resize =>
    cases parseResize e.data with
    | none => rfl
    | some size => exact bind_pure _
  | marker | input | unknown c => rfl

theorem run_flatMap_cues (files : Files) (events : List (Event F)) (t : Terminal) :
    forEach (events.flatMap (·.cues)) t (fun cue t => cue.run files t) = replayAll files events t := by
  induction events generalizing t with
  | nil => rfl
  | cons e events ih =>
    rw [List.flatMap_cons, forEach_append, run_cues]
    exact congrArg _ (funext ih)

/-- The output of an event. -/
theorem flat_cues (e : Event F) :
    Cue.flat e.cues = if e.code = .output then toUtf8 e.data else [] := by
  unfold cues
  cases e.code with
  | output => exact Cue.flat_bytes _
  | resize =>
    cases parseResize e.data with
    | none => rfl
    | some size => rfl
  | marker | input | unknown c => rfl

theorem flat_cues_eq_nil (e : Event F) : Cue.flat e.cues = [] ↔ e.hasOutput = false := by
  rw [flat_cues, hasOutput]
  split
  · rename_i output
    simp [output, toUtf8_eq_nil]
  · rename_i other
    simp [other]

theorem flat_eq_nil_iff (events : List (Event F)) :
    Cue.flat (events.flatMap (·.cues)) = [] ↔ events.any (·.hasOutput) = false := by
  induction events with
  | nil => exact ⟨fun _ => rfl, fun _ => rfl⟩
  | cons e events ih =>
    rw [List.flatMap_cons, Cue.flat_append, List.append_eq_nil_iff, ih, flat_cues_eq_nil,
      List.any_cons, Bool.or_eq_false_iff]

/-- The cues of the events up to one with output do not end with a resize. -/
theorem crossed_rdropWhile (events : List (Event F)) :
    Player.Crossed ((events.rdropWhile fun e => !e.hasOutput).flatMap (·.cues)) := by
  rcases List.eq_nil_or_concat (events.rdropWhile fun e => !e.hasOutput) with empty | ⟨front, e, kept⟩
  · rw [empty]
    rintro init cols rows same
    cases init <;> cases same
  · have output : e.hasOutput = true := by
      have last := List.rdropWhile_last_not (p := fun e : Event F => !e.hasOutput) (l := events)
        (by rw [kept]; simp)
      simpa [kept] using last
    rw [kept, List.concat_eq_append, List.flatMap_append, List.flatMap_singleton]
    simp only [hasOutput, Bool.and_eq_true, beq_iff_eq, Bool.not_eq_true'] at output
    have some_ : toUtf8 e.data ≠ [] := by
      rw [Ne, toUtf8_eq_nil, ← List.isEmpty_iff, output.2]
      exact Bool.false_ne_true
    obtain ⟨bytes, b, spelled⟩ := List.eq_nil_or_concat (toUtf8 e.data) |>.resolve_left some_
    have cues : e.cues = bytes.map .byte ++ [.byte b] := by
      unfold Event.cues
      rw [output.1]
      dsimp only
      rw [spelled, List.concat_eq_append, List.map_append]
      rfl
    rw [cues, ← List.append_assoc]
    exact Player.Crossed.concat _ b

section

variable (before after : List (Event F)) (marker : Event F)

/-- The cues that wait at a marker. -/
def waiting : List Cue :=
  (before.rtakeWhile fun e => !e.hasOutput).flatMap (·.cues) ++ (marker :: after).flatMap (·.cues)

theorem flatMap_cues_split : (before ++ marker :: after).flatMap (·.cues) =
    (before.rdropWhile fun e => !e.hasOutput).flatMap (·.cues) ++ waiting before after marker := by
  rw [waiting, ← List.append_assoc, ← List.flatMap_append, List.rdropWhile_append_rtakeWhile,
    List.flatMap_append]

theorem flat_rtakeWhile :
    Cue.flat ((before.rtakeWhile fun e => !e.hasOutput).flatMap (·.cues)) = [] := by
  rw [flat_eq_nil_iff, List.any_eq_false]
  intro e mem
  simpa using List.mem_rtakeWhile_imp mem

theorem flat_crossed : Cue.flat (before.flatMap (·.cues)) =
    Cue.flat ((before.rdropWhile fun e => !e.hasOutput).flatMap (·.cues)) := by
  conv_lhs =>
    rw [← List.rdropWhile_append_rtakeWhile (p := fun e : Event F => !e.hasOutput) (l := before),
      List.flatMap_append, Cue.flat_append, flat_rtakeWhile, List.append_nil]

variable {marker}

/-- The cues gone through are those of the events crossed. -/
theorem run_crossed (files : Files) (code : marker.code = .marker) (t : Terminal) :
    forEach (if Cue.flat (waiting before after marker) = [] then
        (before.rdropWhile fun e => !e.hasOutput).flatMap (·.cues) ++ waiting before after marker
      else (before.rdropWhile fun e => !e.hasOutput).flatMap (·.cues)) t
        (fun cue t => cue.run files t) =
      replayAll files (crossed before after) t := by
  have cues : marker.cues = [] := by
    unfold Event.cues
    rw [code]
  have still : Cue.flat (waiting before after marker) = [] ↔ after.any (·.hasOutput) = false := by
    rw [waiting, Cue.flat_append, flat_rtakeWhile, List.nil_append, List.flatMap_cons, cues]
    exact flat_eq_nil_iff after
  unfold crossed
  by_cases output : after.any (·.hasOutput) = true
  · rw [if_neg (by rw [still, output]; decide), if_pos output, run_flatMap_cues]
  · have quiet : after.any (·.hasOutput) = false := by simpa using output
    rw [if_pos (still.mpr quiet), if_neg output, ← flatMap_cues_split, List.flatMap_append,
      List.flatMap_cons, cues, List.nil_append, ← List.flatMap_append, run_flatMap_cues]

end

end Event

/-! ### Where the markers are -/

namespace Track

theorem marks_push (track : Track F) (e : Event F) :
    (track.push e).marks =
      track.marks ++ if e.code = .marker then [(track.flat.length, e.data)] else [] := by
  unfold push
  cases e.code with
  | resize =>
    dsimp only
    cases parseResize e.data with
    | none => exact (List.append_nil _).symm
    | some size => exact (List.append_nil _).symm
  | marker => rfl
  | output | input | unknown c => exact (List.append_nil _).symm

/-- Events add markers of their names. -/
theorem marks_events (events : List (Event F)) (track : Track F) :
    ∃ more, (events.foldl (fun track e => track.push e) track).marks = track.marks ++ more ∧
      ∀ mark ∈ more, ∃ e ∈ events, e.code = .marker ∧ e.data = mark.2 := by
  induction events generalizing track with
  | nil => exact ⟨[], (List.append_nil _).symm, nofun⟩
  | cons e events ih =>
    obtain ⟨more, marks, named⟩ := ih (track.push e)
    rw [marks_push, List.append_assoc] at marks
    refine ⟨_, marks, fun mark mem => ?_⟩
    rcases List.mem_append.mp mem with new | later
    · split at new
      · rename_i code
        cases List.mem_singleton.mp new
        exact ⟨e, List.mem_cons_self, code, rfl⟩
      · cases new
    · obtain ⟨e', inside, rest⟩ := named mark later
      exact ⟨e', List.mem_cons_of_mem e inside, rest⟩

/-- The first marker of a name is found where the output before it ends. -/
theorem find_marker {before : List (Event F)} (after : List (Event F)) {marker : Event F} (code : marker.code = .marker)
    (first : ∀ e ∈ before, e.code = .marker → e.data ≠ marker.data) :
    ((before ++ marker :: after).foldl (fun track e => track.push e) {} : Track F).marks.find?
        (fun mark => mark.1 ≥ 0 && mark.2 == marker.data) =
      some ((Cue.flat (before.flatMap (·.cues))).length, marker.data) := by
  obtain ⟨earlier, atBefore, named⟩ := marks_events before {}
  have missed : earlier.find? (fun mark => mark.1 ≥ 0 && mark.2 == marker.data) = none := by
    refine List.find?_eq_none.mpr fun mark mem found => ?_
    obtain ⟨e, inside, isMarker, same⟩ := named mark mem
    simp only [Bool.and_eq_true, beq_iff_eq] at found
    exact first e inside isMarker (same.trans found.2)
  rw [List.foldl_append, List.foldl_cons]
  obtain ⟨later, marks, -⟩ :=
    marks_events after ((before.foldl (fun track e => track.push e) {} : Track F).push marker)
  rw [marks, marks_push, if_pos code, atBefore, (carries_events before).flat]
  have none : ({} : Track F).marks = [] := rfl
  rw [none, List.nil_append, List.append_assoc, List.find?_append, missed]
  simp

end Track

section

variable {src : List Char} {header : Header} {before after : List (Event F)} {marker : Event F}

/-- A fresh player stepped to a marker has gone through the events the marker has crossed. -/
theorem Player.stepToMarker_spec {files : Files} {player : Player F} {t : Terminal}
    (track : player.track = (before ++ marker :: after).foldl (fun track e => track.push e) {})
    (term : player.term = t) (cursor : player.cursor = 0) (nextResize : player.nextResize = 0)
    (code : marker.code = .marker)
    (first : ∀ e ∈ before, e.code = .marker → e.data ≠ marker.data) :
    (fun r => (r.1, r.2.term.silent)) <$> player.stepToMarker files marker.data =
      (fun t => (true, t.silent)) <$> Event.replayAll files (Event.crossed before after) t := by
  have carries := Track.carries_events (before ++ marker :: after)
  rw [← track, Event.flatMap_cues_split] at carries
  have found := Track.find_marker after code first
  rw [← track, Event.flat_crossed] at found
  have fed := feedUntil_spec files (carries.holds term cursor nextResize)
    (Event.crossed_rdropWhile before) rfl
  rw [cursor, Nat.zero_add, Event.run_crossed before after files code] at fed
  unfold stepToMarker
  rw [cursor, found]
  have stepped := fed.bind (f := fun p => pure (true, p)) (g := fun t => pure t)
    (S := fun r t => r.1 = true ∧ r.2.term.silent = t.silent) fun p t same => .ok ⟨rfl, same⟩
  rw [bind_pure] at stepped
  exact stepped.map_eq fun r t ⟨taken, same⟩ => Prod.ext taken same

/-- Stepping a fresh player to a marker leaves the terminal, but for the replies taken out,
in the state after the events up to the last one with output before the first marker of
that name, or after all of the recording's where no output follows. -/
theorem marker_replay_exact (files : Files)
    (reads : Reads f64 src header (before ++ marker :: after)) (code : marker.code = .marker)
    (first : ∀ e ∈ before, e.code = .marker → e.data ≠ marker.data) :
    ∃ player, Player.fromSource f64 src = .ok player ∧
      (fun r => (r.1, r.2.term.silent)) <$> player.stepToMarker files marker.data =
        (fun t => (true, t.silent)) <$> Event.replayAll files (Event.crossed before after)
          (Terminal.new header.height.toNat header.width.toNat) :=
  ⟨_, Player.fromSource_reads reads, Player.stepToMarker_spec rfl rfl rfl rfl code first⟩

end

/-- A screen of five rows, resized before the marker. -/
def resizedFirst : List (Event Seconds) :=
  [⟨.whole 0, .output, ['h', 'i']⟩, ⟨.whole 1, .resize, ['1', '0', 'x', '4']⟩]

/-- Output after the marker. -/
def outputLast : List (Event Seconds) :=
  [⟨.whole 3, .output, ['!']⟩]

theorem reads_resizedFirst :
    Reads Seconds.ops (recordingText Seconds.ops { version := 2, width := 20, height := 5 }
        (resizedFirst ++ ⟨.whole 2, .marker, ['m']⟩ :: outputLast))
      { version := 2, width := 20, height := 5 }
      (resizedFirst ++ ⟨.whole 2, .marker, ['m']⟩ :: outputLast) := by
  refine reads_recordingText Seconds.lawful rfl fun e mem => ?_
  simp only [resizedFirst, outputLast, List.cons_append, List.nil_append, List.mem_cons,
    List.not_mem_nil, or_false] at mem
  rcases mem with rfl | rfl | rfl | rfl <;> exact ⟨rfl, rfl⟩

theorem marker_replay_exact_resized :
    ∃ player, Player.fromSource Seconds.ops (recordingText Seconds.ops
        { version := 2, width := 20, height := 5 }
        (resizedFirst ++ ⟨.whole 2, .marker, ['m']⟩ :: outputLast)) = .ok player ∧
      (fun r => (r.1, r.2.term.silent)) <$> player.stepToMarker (fun _ => none) ['m'] =
        (fun t => (true, t.silent)) <$> Event.replayAll (fun _ => none)
          [(⟨.whole 0, .output, ['h', 'i']⟩ : Event Seconds)] (Terminal.new 5 20) :=
  marker_replay_exact (fun _ => none) reads_resizedFirst rfl (by decide)

/-- The resize before the marker has not been gone through at the marker. -/
theorem resize_waits_at_marker :
    ¬ ∀ (src : List Char) (header : Header) (before after : List (Event Seconds))
        (marker : Event Seconds),
      Reads Seconds.ops src header (before ++ marker :: after) → marker.code = .marker →
      (∀ e ∈ before, e.code = .marker → e.data ≠ marker.data) →
      ∃ player, Player.fromSource Seconds.ops src = .ok player ∧
        (fun r => (r.1, r.2.term.silent)) <$> player.stepToMarker (fun _ => none) marker.data =
          (fun t => (true, t.silent)) <$> Event.replayAll (fun _ => none) before
            (Terminal.new header.height.toNat header.width.toNat) := by
  intro all
  obtain ⟨player, made, claimed⟩ := all _ _ _ _ _ reads_resizedFirst rfl (by decide)
  obtain rfl := Except.ok.inj (made.symm.trans (Player.fromSource_reads reads_resizedFirst))
  have stepped := claimed.symm.trans (@Player.stepToMarker_spec Seconds resizedFirst outputLast
    ⟨.whole 2, .marker, ['m']⟩ (fun _ => none) _ _ rfl rfl rfl rfl rfl (by decide))
  have width (x : Checked Terminal) :
      (fun r : Bool × Terminal => r.2.primary.cols) <$> (fun t => (true, t.silent)) <$> x =
        (fun t : Terminal => t.primary.cols) <$> x := by
    cases x <;> rfl
  have same := congrArg ((fun r : Bool × Terminal => r.2.primary.cols) <$> ·) stepped
  simp only [width] at same
  have narrow : (fun t : Terminal => t.primary.cols) <$> Event.replayAll (fun _ => none)
      resizedFirst (Terminal.new 5 20) = .ok 10 := rfl
  have wide : (fun t : Terminal => t.primary.cols) <$> Event.replayAll (fun _ => none)
      (Event.crossed resizedFirst outputLast) (Terminal.new 5 20) = .ok 20 := rfl
  have different : (Except.ok 10 : Checked Nat) = .ok 20 := narrow.symm.trans (same.trans wide)
  cases different

end Posh.Rec
