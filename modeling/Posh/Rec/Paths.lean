import Posh.Rec.Steps

/-!
Where the player is does not depend on how it came there.

Whatever is called, the terminal of a player is the one that has gone through the cues of
the recording up to the cursor. At the end these are all cues, so that the screen is the
one that `replay_source` draws.
-/

namespace Posh.Rec

open Posh.Lib Posh.Term
open Posh.Lib.Looping (Guards)

variable {F : Type} {f64 : F64 F} {near : F → F → F → Bool} {files : Files}

/-- The recording of a header and events. -/
def Script.ofEvents (header : Header) (events : List (Event F)) : Script F where
  start := Terminal.new header.height.toNat header.width.toNat
  cues := events.flatMap (·.cues)
  track := events.foldl (fun track e => track.push e) {}
  carries := Track.carries_events events

namespace Player

/-- The players that calls on a recording lead to, as far as the calls return. -/
inductive Reached (f64 : F64 F) (near : F → F → F → Bool) (files : Files) (src : List Char) :
    Player F → Prop where
  | fromSource {p : Player F} (made : fromSource f64 src = .ok p) : Reached f64 near files src p
  | withFrameGap {p : Player F} (secs : F) (reached : Reached f64 near files src p) :
      Reached f64 near files src (p.withFrameGap secs)
  | step {p q : Player F} {g : Granularity} {n taken : Nat} (reached : Reached f64 near files src p)
      (ended : (p.step f64 near files g n).Ends (taken, q)) : Reached f64 near files src q
  | stepToChange {p q : Player F} {advanced : Bool} (reached : Reached f64 near files src p)
      (ended : (p.stepToChange files).Ends (advanced, q)) : Reached f64 near files src q
  | stepToMarker {p q : Player F} {name : List Char} {found : Bool}
      (reached : Reached f64 near files src p)
      (ended : p.stepToMarker files name = .ok (found, q)) : Reached f64 near files src q

variable {src : List Char} {header : Header} {events : List (Event F)} {p q : Player F}

theorem fromSource_follows (reads : Reads f64 src header events)
    (made : fromSource f64 src = .ok p) : p.Follows files (Script.ofEvents header events) := by
  cases (fromSource_reads reads).symm.trans made
  refine ⟨rfl, [], events.flatMap (·.cues), _, rfl, rfl, ?_, rfl, .inl ?_⟩
  · exact (Track.carries_events events).holds rfl rfl rfl
  · rintro init cols rows same
    cases init <;> cases same

theorem withFrameGap_follows {script : Script F} (secs : F) (h : p.Follows files script) :
    (p.withFrameGap secs).Follows files script := by
  obtain ⟨track, front, rest, t, gone⟩ := h
  obtain ⟨within, ahead⟩ := gone.holds
  exact ⟨track, front, rest, t, gone.cues, gone.run, ⟨within, ahead, ‹_›, ‹_›⟩, gone.quiet,
    gone.crossed⟩

theorem stepToMarker_follows {script : Script F} {name : List Char} (h : p.Follows files script) :
    Guarded (script.Taken files) (p.stepToMarker files name) fun r => p.Onward files script r.2 := by
  unfold stepToMarker
  split
  · exact (feedUntil_follows h _).bind fun q ⟨onward, _, _⟩ => .ok onward
  · exact .ok (.refl h)

theorem Reached.follows (reads : Reads f64 src header events)
    (reached : p.Reached f64 near files src) : p.Follows files (Script.ofEvents header events) := by
  induction reached with
  | fromSource made => exact fromSource_follows reads made
  | withFrameGap secs _ ih => exact withFrameGap_follows secs ih
  | step _ ended ih => exact ((step_follows ih _ _).ends ended).1.follows
  | stepToChange _ ended ih =>
    have moved := (stepToChange_advances ih).ends ended
    unfold Advances at moved
    split at moved
    · exact moved.1.follows
    · cases moved.1
      exact ih
  | stepToMarker _ ended ih => exact ((stepToMarker_follows ih).of_eq_ok ended).follows

end Player

/-! ### The replay -/

/-- No dump shows the replies. -/
theorem dumpTerminal_silent (t : Terminal) (dump : Dump) :
    dumpTerminal t.silent dump = dumpTerminal t dump := by
  cases dump with
  | text => rfl
  | vt => exact congrArg (toUtf8 <$> ·) (Terminal.dumpVtImpl_silent false t)
  | flat => exact congrArg (toUtf8 <$> ·) (Terminal.dumpVtImpl_silent true t)

theorem dumpTerminal_congr {t u : Terminal} (same : t.silent = u.silent) (dump : Dump) :
    dumpTerminal t dump = dumpTerminal u dump := by
  rw [← dumpTerminal_silent t, same, dumpTerminal_silent]

namespace Replay

theorem event_paired {r : Replay} {t : Terminal} (e : Event F) (same : r.term.silent = t.silent) :
    Paired (fun r t => r.term.silent = t.silent) (r.event files e) (e.replay files t) := by
  unfold Replay.event Event.replay
  cases e.code with
  | output =>
    have fed := Terminal.paired_of_alike
      (fun _ t => Terminal.process_alike files (toUtf8 e.data) t) same
    have drained := fed.bind (f := fun term => pure { term := term.takeResponses.2 })
      (g := fun t => pure t) (S := fun (r : Replay) t => r.term.silent = t.silent)
      fun term t' same => .ok same
    rwa [bind_pure] at drained
  | resize =>
    dsimp only
    cases parseResize e.data with
    | none => exact .ok same
    | some size =>
      obtain ⟨cols, rows⟩ := size
      have resized := Terminal.paired_of_alike (fun _ t => Terminal.resize_alike rows cols t) same
      have whole := resized.bind (f := fun term => pure { term }) (g := fun t => pure t)
        (S := fun (r : Replay) t => r.term.silent = t.silent) fun term t' same => .ok same
      rwa [bind_pure] at whole
  | input | marker | unknown c => exact .ok same

/-- The events of a recording are replayed in order. -/
theorem events_reads {reader : Reader} {events : List (Event F)} (yields : reader.Yields f64 events)
    {fuel : Nat} (enough : reader.lines.length < fuel) (r : Replay) :
    r.events f64 files fuel reader =
      Fallible.ofChecked (forEach events r fun e r => r.event files e) := by
  induction yields generalizing fuel r with
  | done next =>
    cases fuel with
    | zero => cases enough
    | succ fuel =>
      rw [Replay.events, next]
      rfl
  | event next rest ih =>
    rename_i e events
    cases fuel with
    | zero => cases enough
    | succ fuel =>
      have shorter := Reader.nextEvent_shorter next
      rw [Replay.events, next, forEach]
      dsimp only
      cases r.event files e with
      | error panic => rfl
      | ok r' => exact ih (by omega) r'

end Replay

section

variable {src : List Char} {header : Header} {events : List (Event F)}

theorem replaySource_reads (reads : Reads f64 src header events) (dump : Dump) :
    replaySource f64 files src dump = Fallible.ofChecked (do
      let t ← (Script.ofEvents header events).after files (events.flatMap (·.cues))
      dumpTerminal t dump) := by
  obtain ⟨reader, first, yields⟩ := reads
  have replayed : Paired (fun (r : Replay) t => r.term.silent = t.silent)
      (forEach events (Replay.new header.height.toNat header.width.toNat) fun e r => r.event files e)
      (Event.replayAll files events (Terminal.new header.height.toNat header.width.toNat)) := by
    have same : (Replay.new header.height.toNat header.width.toNat).term.silent =
        (Terminal.new header.height.toNat header.width.toNat).silent := rfl
    generalize Replay.new header.height.toNat header.width.toNat = r at same ⊢
    generalize Terminal.new header.height.toNat header.width.toNat = t at same ⊢
    clear first yields
    induction events generalizing r t with
    | nil => exact .ok same
    | cons e events ih => exact (Replay.event_paired e same).bind fun r t same => ih r t same
  unfold replaySource Script.after
  dsimp only
  rw [first, Event.run_flatMap_cues]
  change (Replay.events f64 files (reader.lines.length + 1) reader _ >>= _) = _
  rw [Replay.events_reads yields (Nat.lt_succ_self _)]
  change _ = Fallible.ofChecked (Event.replayAll files events
    (Terminal.new header.height.toNat header.width.toNat) >>= _)
  revert replayed
  generalize (forEach events (Replay.new header.height.toNat header.width.toNat) fun e r =>
    r.event files e) = x
  generalize Event.replayAll files events (Terminal.new header.height.toNat header.width.toNat) = y
  intro replayed
  cases replayed with
  | ok same => exact congrArg Fallible.ofChecked (dumpTerminal_congr same dump)
  | error p => rfl

/-! ### Path independence -/

namespace Player

theorem steps_write_run (n taken fuel : Nat) (p : Player F) :
    (p.steps f64 near files .write n taken).run fuel =
      some <$> stepLoop (stepWrite files) n taken p := by
  induction n generalizing taken p with
  | zero => rfl
  | succ n ih =>
    rw [steps, stepLoop, Looping.run_bind, Looping.bindRun]
    change (some <$> p.stepWrite files >>= _) = _
    cases p.stepWrite files with
    | error e => rfl
    | ok r =>
      obtain ⟨advanced, q⟩ := r
      cases advanced with
      | false => rfl
      | true => exact ih (taken + 1) q

/-- `step(Granularity::Write, n)` -/
theorem step_write_run (n fuel : Nat) (p : Player F) :
    (p.step f64 near files .write n).run fuel = some <$> p.stepWrites files n := by
  unfold step stepWrites
  rw [Looping.run_bind, Looping.bindRun, steps_write_run]
  cases stepLoop (stepWrite files) n 0 p with
  | error e => rfl
  | ok r =>
    obtain ⟨taken, q⟩ := r
    change (some <$> q.flushTrailingResizes >>= _) = some <$> (q.flushTrailingResizes >>= _)
    cases q.flushTrailingResizes with
    | error e => rfl
    | ok q' => rfl

variable {p q : Player F} {g : Granularity} {n taken : Nat}

theorem stepToEnd_replays (reads : Reads f64 src header events)
    (h : q.Follows files (Script.ofEvents header events))
    (small : (Script.ofEvents header events).track.flat.length ≤ USIZE_MAX) {r : Player F}
    (ended : q.stepToEnd files = .ok r) (dump : Dump) :
    replaySource f64 files src dump = Fallible.ofChecked (dumpTerminal r.term dump) := by
  obtain ⟨track, front, rest, t, gone⟩ := h
  rw [← track] at small
  have stepped := @stepToEnd_spec F files q rest t gone.holds
    (track ▸ (Script.ofEvents header events).carries.within) small
  rw [ended] at stepped
  have run : ∃ t', forEach rest t (fun cue t => cue.run files t) = .ok t' ∧
      r.term.silent = t'.silent := by
    generalize forEach rest t (fun cue t => cue.run files t) = x at stepped
    cases stepped with
    | ok same => exact ⟨_, rfl, same⟩
  obtain ⟨t', ahead, same⟩ := run
  have cues : (Script.ofEvents header events).cues = front ++ rest := gone.cues
  rw [replaySource_reads reads, show events.flatMap (·.cues) = front ++ rest from cues,
    gone.append_run ahead]
  exact congrArg Fallible.ofChecked (dumpTerminal_congr same.symm dump)

/-- After a call of `step` the terminal is that of the header's size fed the output up to
the cursor, each resize just before the byte that follows it, and the replies taken out;
wherever the cursor is the same the terminal is, and after `step_to_end` the dumps are
those of `replay_source`. -/
theorem path_independent (reads : Reads f64 src header events)
    (reached : p.Reached f64 near files src)
    (ended : (p.step f64 near files g n).Ends (taken, q)) :
    (∃ t, forEach (Cue.upTo q.cursor (events.flatMap (·.cues)))
        (Terminal.new header.height.toNat header.width.toNat) (fun cue t => cue.run files t) = .ok t ∧
      q.term = t.silent) ∧
    (∀ (p' q' : Player F) (g' : Granularity) (n' taken' : Nat), p'.Reached f64 near files src →
      (p'.step f64 near files g' n').Ends (taken', q') → q'.cursor = q.cursor → q'.term = q.term) ∧
    ((events.foldl (fun track e => track.push e) ({} : Track F)).flat.length ≤ USIZE_MAX →
      ∀ (r : Player F) (dump : Dump), q.stepToEnd files = .ok r →
        replaySource f64 files src dump = Fallible.ofChecked (dumpTerminal r.term dump)) := by
  have settled := (step_follows (reached.follows reads) g n).ends ended
  refine ⟨settled.2, fun p' q' g' n' taken' reached' ended' same => ?_,
    fun small r dump done => stepToEnd_replays reads settled.1.follows small done dump⟩
  obtain ⟨t, run, term⟩ := settled.2
  obtain ⟨t', run', term'⟩ := ((step_follows (reached'.follows reads) g' n').ends ended').2
  rw [same, run] at run'
  cases run'
  rw [term, term']

/-- Two characters, and a resize that waits behind them. -/
theorem path_independent_resized :
    ∃ p q : Player Seconds, fromSource Seconds.ops (recordingText Seconds.ops
        { version := 2, width := 20, height := 5 }
        (resizedFirst ++ ⟨.whole 2, .marker, ['m']⟩ :: outputLast)) = .ok p ∧
      (p.step Seconds.ops Seconds.near (fun _ => none) .write 1).Ends (1, q) ∧ q.cursor = 2 ∧
      ∃ t, forEach (Cue.upTo q.cursor
          ((resizedFirst ++ ⟨.whole 2, .marker, ['m']⟩ :: outputLast).flatMap (·.cues)))
          (Terminal.new 5 20) (fun cue t => cue.run (fun _ => none) t) = .ok t ∧
        q.term = t.silent := by
  obtain ⟨p, q, made, come, cursor⟩ : ∃ p q : Player Seconds,
      fromSource Seconds.ops (recordingText Seconds.ops
        { version := 2, width := 20, height := 5 }
        (resizedFirst ++ ⟨.whole 2, .marker, ['m']⟩ :: outputLast)) = .ok p ∧
      (p.step Seconds.ops Seconds.near (fun _ => none) .write 1).run 0 = .ok (some (1, q)) ∧
      q.cursor = 2 := ⟨_, _, fromSource_reads reads_resizedFirst, rfl, rfl⟩
  exact ⟨p, q, made, ⟨0, come⟩, cursor,
    (path_independent reads_resizedFirst (.fromSource made) ⟨0, come⟩).1⟩

end Player

end

end Posh.Rec
