import Posh.Rec.Markers
import Posh.Rec.Stepping

/-!
What a step of the player does of a recording.

Whatever the granularity, a step feeds bytes one by one and goes through the resizes at
the end. A player that has gone through the first cues of a recording has, after a step,
gone through more of them, and panics only where the emulator panics on the cues.
-/

namespace Posh.Rec

open Posh.Lib Posh.Term
open Posh.Lib.Looping (Guards)

variable {F : Type}

/-- The cues up to the `c`-th byte; where that is the end, all of them. -/
def Cue.upTo : (c : Nat) → List Cue → List Cue
  | 0, cues => if flat cues = [] then cues else []
  | _ + 1, [] => []
  | c + 1, byte b :: cues => byte b :: upTo c cues
  | c + 1, size cols rows :: cues => size cols rows :: upTo (c + 1) cues

theorem Cue.upTo_end (cues : List Cue) : upTo (flat cues).length cues = cues := by
  induction cues with
  | nil => rfl
  | cons cue cues ih =>
    cases cue with
    | byte b => exact congrArg (byte b :: ·) ih
    | size cols rows =>
      change upTo (flat cues).length (size cols rows :: cues) = _
      cases count : (flat cues).length with
      | zero => exact if_pos (List.length_eq_zero_iff.mp count)
      | succ n =>
        rw [count] at ih
        exact congrArg (size cols rows :: ·) ih

/-- Up to a byte that is not the last, the resizes behind it wait. -/
theorem Cue.upTo_crossed {front rest : List Cue} (crossed : Player.Crossed front)
    (more : flat rest ≠ []) : upTo (flat front).length (front ++ rest) = front := by
  induction front with
  | nil =>
    change upTo 0 rest = []
    rw [upTo, if_neg more]
  | cons cue front ih =>
    have later : Player.Crossed front := @Player.Crossed.of_append [cue] front crossed
    cases cue with
    | byte b => exact congrArg (byte b :: ·) (ih later)
    | size cols rows =>
      change upTo (flat front).length (size cols rows :: (front ++ rest)) = _
      cases count : (flat front).length with
      | zero =>
        cases crossed.eq_nil (List.length_eq_zero_iff.mp count)
      | succ n =>
        rw [count] at ih
        exact congrArg (size cols rows :: ·) (ih later)

/-- What a player steps over: the terminal it begins with, and the cues on its track. -/
structure Script (F : Type) where
  start : Terminal
  cues : List Cue
  track : Track F
  carries : track.Carries cues

namespace Script

variable (files : Files) (script : Script F)

/-- The terminal that goes through `cues`. -/
def after (cues : List Cue) : Checked Terminal :=
  forEach cues script.start fun cue t => cue.run files t

/-- The emulator goes through all cues. -/
def Taken : Prop :=
  ∃ t, script.after files script.cues = .ok t

end Script

namespace Player

variable {files : Files} {script : Script F} {p q : Player F}

/-- The player has gone through `front`, and has `rest` before it. -/
structure Gone (files : Files) (script : Script F) (p : Player F) (front rest : List Cue)
    (t : Terminal) : Prop where
  cues : script.cues = front ++ rest
  run : script.after files front = .ok t
  holds : p.Holds rest t
  quiet : p.term.responses = []
  crossed : Crossed front ∨ rest = []

/-- The player is somewhere in the script. -/
def Follows (files : Files) (script : Script F) (p : Player F) : Prop :=
  p.track = script.track ∧ ∃ front rest t, p.Gone files script front rest t

/-- The terminal is the one that has gone through the cues up to the cursor, its replies
taken out. -/
def Settles (files : Files) (script : Script F) (p : Player F) : Prop :=
  ∃ t, script.after files (Cue.upTo p.cursor script.cues) = .ok t ∧ p.term = t.silent

/-- The player is the same or further on. -/
structure Onward (files : Files) (script : Script F) (p q : Player F) : Prop where
  follows : q.Follows files script
  gap : q.frameGap = p.frameGap
  le : p.cursor ≤ q.cursor

theorem Onward.refl (h : p.Follows files script) : p.Onward files script p :=
  ⟨h, rfl, Nat.le_refl _⟩

theorem Onward.trans {r : Player F} (first : p.Onward files script q)
    (second : q.Onward files script r) : p.Onward files script r :=
  ⟨second.follows, second.gap.trans first.gap, first.le.trans second.le⟩

section

variable {front rest : List Cue} {t : Terminal}

theorem Gone.length (h : p.Gone files script front rest t) (track : p.track = script.track) :
    (Cue.flat front).length = p.cursor := by
  have whole := script.carries.flat
  rw [h.cues, Cue.flat_append, ← track] at whole
  have ahead := congrArg List.length h.holds.flat
  have within := h.holds.within
  rw [List.length_drop] at ahead
  rw [whole, List.length_append] at ahead within
  omega

/-- What comes after the cues gone through, the emulator goes through as well. -/
theorem Gone.runs {sizes rest' : List Cue} (h : p.Gone files script front rest t)
    (next : rest = sizes ++ rest') (taken : script.Taken files) :
    ∃ t', forEach sizes t (fun cue t => cue.run files t) = .ok t' := by
  obtain ⟨u, all⟩ := taken
  have run := h.run
  unfold Script.after at all run
  rw [h.cues, next, forEach_append, run] at all
  change forEach (sizes ++ rest') t _ = _ at all
  rw [forEach_append] at all
  obtain ⟨t', first, -⟩ := eq_ok_of_bind all
  exact ⟨t', first⟩

theorem Gone.append_run {sizes : List Cue} {t' : Terminal} (h : p.Gone files script front rest t)
    (next : forEach sizes t (fun cue t => cue.run files t) = .ok t') :
    script.after files (front ++ sizes) = .ok t' := by
  have run := h.run
  unfold Script.after at run ⊢
  rw [forEach_append, run]
  exact next

end

theorem Follows.within (h : p.Follows files script) : p.cursor ≤ p.track.flat.length := by
  obtain ⟨-, front, rest, t, gone⟩ := h
  exact gone.holds.within

theorem Gone.term {front rest : List Cue} {t : Terminal} (h : p.Gone files script front rest t) :
    p.term = t.silent := by
  have quiet : p.term.silent = p.term := by
    unfold Terminal.silent
    rw [← h.quiet]
  exact quiet.symm.trans h.holds.term

/-! ### Resizes and bytes -/

theorem resize_keeps (rows cols : Nat) (t : Terminal) :
    Guarded False (t.resize rows cols) fun t' =>
      t'.responses = t.responses ∧ t'.parser = t.parser := by
  unfold Terminal.resize
  extract_lets rows cols
  split
  · exact .ok ⟨rfl, rfl⟩
  · refine (Guarded.trivial _).bind fun primary _ => ?_
    refine (Guarded.trivial _).bind fun alt _ => ?_
    refine (Guarded.trivial _).bind fun lastRow _ => ?_
    exact (Guarded.trivial _).bind fun lastCol _ => .ok ⟨rfl, rfl⟩

/-- What resizes leave as it is. -/
structure Kept (p q : Player F) : Prop where
  track : q.track = p.track
  cursor : q.cursor = p.cursor
  gap : q.frameGap = p.frameGap
  responses : q.term.responses = p.term.responses
  parser : q.term.parser = p.term.parser

theorem applyLoop_keeps (offset fuel : Nat) (p : Player F) :
    Guarded False (p.applyLoop offset fuel) p.Kept := by
  induction fuel generalizing p with
  | zero => exact .ok ⟨rfl, rfl, rfl, rfl, rfl⟩
  | succ fuel ih =>
    unfold applyLoop
    split
    · split
      · refine (resize_keeps _ _ p.term).bind fun term ⟨responses, parser⟩ => ?_
        refine (ih { p with term, nextResize := p.nextResize + 1 }).mono fun q kept => ?_
        exact ⟨kept.track, kept.cursor, kept.gap, kept.responses.trans responses,
          kept.parser.trans parser⟩
      · exact .ok ⟨rfl, rfl, rfl, rfl, rfl⟩
    · exact .ok ⟨rfl, rfl, rfl, rfl, rfl⟩

/-- At the end all cues are gone through, and before it nothing changes. -/
theorem flushTrailingResizes_follows (h : p.Follows files script) :
    Guarded (script.Taken files) p.flushTrailingResizes fun q =>
      p.Onward files script q ∧ q.cursor = p.cursor ∧ q.Settles files script := by
  obtain ⟨track, front, rest, t, gone⟩ := h
  have length := gone.length track
  unfold flushTrailingResizes
  split
  · rename_i ended
    have all : p.cursor = p.track.flat.length :=
      Nat.le_antisymm gone.holds.within (by simpa [atEnd] using ended)
    have still : Cue.flat rest = [] := by
      rw [← gone.holds.flat, all, List.drop_length]
    have gone' := gone.holds
    rw [← List.append_nil rest] at gone'
    have applied := (applyResizesThrough_spec gone' still settled_nil).guarded
      (gone.runs (List.append_nil rest).symm)
    rw [← all]
    refine (applied.besides (applyLoop_keeps _ _ p)).mono ?_
    rintro q ⟨⟨t', run, holds, cursor, track'⟩, kept⟩
    have whole : script.after files (front ++ rest) = .ok t' := gone.append_run run
    have silent : q.term.responses = [] := kept.responses.trans gone.quiet
    have gone'' : q.Gone files script (front ++ rest) [] t' :=
      ⟨by rw [List.append_nil]; exact gone.cues, whole, holds, silent, .inr rfl⟩
    refine ⟨⟨⟨track'.trans track, _, _, _, gone''⟩, kept.gap, Nat.le_of_eq cursor.symm⟩, cursor, t', ?_,
      gone''.term⟩
    have count : (Cue.flat script.cues).length = q.cursor := by
      rw [gone.cues, Cue.flat_append, still, List.append_nil, length, cursor]
    rw [← count, Cue.upTo_end, gone.cues]
    exact whole
  · rename_i going
    refine .ok ⟨.refl ⟨track, front, rest, t, gone⟩, rfl, t, ?_, gone.term⟩
    have more : Cue.flat rest ≠ [] := by
      intro none
      have ended := gone.holds.flat.trans none
      rw [List.drop_eq_nil_iff] at ended
      exact going (by simpa [atEnd] using ended)
    have crossed : Crossed front := gone.crossed.resolve_right (by rintro rfl; exact more rfl)
    rw [← length, gone.cues, Cue.upTo_crossed crossed more]
    exact gone.run

theorem feedByte_atEnd (ended : p.atEnd = true) : p.feedByte files = .ok (false, p) :=
  if_pos (by simpa [atEnd] using ended)

theorem lt_of_going (going : p.atEnd = false) : p.cursor < p.track.flat.length := by
  simpa [atEnd] using going

theorem feedByte_keeps (going : p.atEnd = false) :
    Guarded False (p.feedByte files) fun r => r.1 = true ∧ r.2.cursor = p.cursor + 1 ∧
      r.2.frameGap = p.frameGap ∧ r.2.term.responses = [] := by
  have more := lt_of_going going
  unfold feedByte
  rw [if_neg (by omega)]
  refine (applyLoop_keeps _ _ p).bind fun p' kept => ?_
  refine (Guarded.trivial _).bind fun b _ => ?_
  exact (Guarded.trivial _).bind fun term _ => .ok ⟨rfl, congrArg (· + 1) kept.cursor, kept.gap, rfl⟩

/-- The byte at the cursor advances the parser. -/
theorem feedByte_advances (going : p.atEnd = false) :
    Guarded False (p.feedByte files) fun r => ∃ b actions, p.track.flat[p.cursor]? = some b ∧
      p.term.parser.advance b = .ok (r.2.term.parser, actions) := by
  have more := lt_of_going going
  unfold feedByte
  rw [if_neg (by omega)]
  refine (applyLoop_keeps _ _ p).bind fun p' kept => ?_
  rw [kept.track, kept.cursor, getAt_eq_ok more]
  change Guarded False (p'.term.process files [p.track.flat[p.cursor]] >>= _) _
  have one : p'.term.process files [p.track.flat[p.cursor]] =
      p'.term.processByte files p.track.flat[p.cursor] := bind_pure _
  rw [one]
  refine (Terminal.processByte_advances files _ p'.term).bind fun term ⟨actions, step⟩ => ?_
  rw [kept.parser] at step
  exact .ok ⟨_, actions, List.getElem?_eq_getElem more, step⟩

/-- A byte is fed where there is one. -/
theorem feedByte_follows (h : p.Follows files script) (more : p.atEnd = false) :
    Guarded (script.Taken files) (p.feedByte files) fun r =>
      r.1 = true ∧ p.Onward files script r.2 ∧ r.2.cursor = p.cursor + 1 := by
  obtain ⟨track, front, rest, t, gone⟩ := h
  have going := lt_of_going more
  obtain ⟨sizes, later, rfl, still, settled⟩ := exists_settled rest
  cases later with
  | nil =>
    have ended := gone.holds.flat
    rw [List.append_nil, still, List.drop_eq_nil_iff] at ended
    omega
  | cons cue later =>
    cases cue with
    | size cols rows => exact absurd rfl (settled cols rows later)
    | byte b =>
      have fed := (feedByte_spec gone.holds still).guarded
        (gone.runs (List.append_cons sizes (.byte b) later))
      refine (fed.besides (feedByte_keeps more)).mono ?_
      rintro r ⟨⟨t', run, taken, holds, cursor, track'⟩, -, -, gap, quiet⟩
      have whole := gone.append_run run
      rw [← List.append_assoc] at whole
      have cues : script.cues = (front ++ sizes) ++ [.byte b] ++ later := by
        rw [gone.cues]
        simp
      refine ⟨taken, ⟨⟨track'.trans track, _, _, _, cues, whole, holds, quiet, ?_⟩, gap, ?_⟩,
        cursor⟩
      · exact .inl (.concat _ b)
      · omega

/-! ### Up to an offset -/

theorem Follows.cursor_eq (h : p.Follows files script) (ended : p.atEnd = true) :
    p.cursor = p.track.flat.length :=
  Nat.le_antisymm h.within (by simpa [atEnd] using ended)

theorem Onward.track_eq (h : p.Follows files script) (onward : p.Onward files script q) :
    q.track = p.track :=
  onward.follows.1.trans h.1.symm

theorem feedLoop_follows {target fuel : Nat} (h : p.Follows files script)
    (enough : target ≤ p.cursor + fuel) :
    Guarded (script.Taken files) (p.feedLoop files target fuel) fun q =>
      p.Onward files script q ∧ q.cursor = max p.cursor (min target p.track.flat.length) := by
  have within := h.within
  induction fuel generalizing p with
  | zero => exact .ok ⟨.refl h, by omega⟩
  | succ fuel ih =>
    unfold feedLoop
    split
    · rename_i short
      cases going : p.atEnd with
      | true =>
        have ended := h.cursor_eq going
        rw [feedByte_atEnd going]
        exact .ok ⟨.refl h, by omega⟩
      | false =>
        have more := lt_of_going going
        refine (feedByte_follows h going).bind ?_
        rintro ⟨fed, q⟩ ⟨taken, onward, cursor⟩
        dsimp only at taken onward cursor ⊢
        have track := onward.track_eq h
        rw [if_pos taken]
        refine (ih onward.follows (by omega) onward.follows.within).mono ?_
        rintro r ⟨later, at_⟩
        rw [track, cursor] at at_
        exact ⟨onward.trans later, by omega⟩
    · exact .ok ⟨.refl h, by omega⟩

theorem feedUntil_follows (h : p.Follows files script) (target : Nat) :
    Guarded (script.Taken files) (p.feedUntil files target) fun q =>
      p.Onward files script q ∧ q.cursor = max p.cursor (min target p.track.flat.length) ∧
        q.Settles files script := by
  refine (feedLoop_follows h (by omega)).bind fun q ⟨onward, cursor⟩ => ?_
  refine (flushTrailingResizes_follows onward.follows).mono fun r ⟨later, same, settled⟩ => ?_
  exact ⟨onward.trans later, same.trans cursor, settled⟩

/-- More fuel feeds nothing more: the loop has ended by itself. -/
theorem feedLoop_enough {target fuel : Nat} (more : Nat) (p : Player F)
    (enough : target ≤ p.cursor + fuel) :
    p.feedLoop files target (fuel + more) = p.feedLoop files target fuel := by
  induction fuel generalizing p with
  | zero =>
    rw [Nat.zero_add]
    cases more with
    | zero => rfl
    | succ more => exact if_neg (by omega)
  | succ fuel ih =>
    rw [Nat.add_right_comm, feedLoop, feedLoop]
    split
    · cases fed : p.feedByte files with
      | error e => rfl
      | ok r =>
        obtain ⟨taken, q⟩ := r
        cases going : p.atEnd with
        | true =>
          cases (feedByte_atEnd going).symm.trans fed
          rfl
        | false =>
          obtain ⟨rfl, cursor, -⟩ := (feedByte_keeps going).of_eq_ok fed
          exact ih q (by dsimp only at cursor; omega)
    · rfl

end Player

/-! ### One step -/

/-- Where the event after the offset begins, or the output ends. -/
def Track.nextWrite (track : Track F) (c : Nat) : Nat :=
  (track.writes.find? (c < ·)).getD track.flat.length

theorem Track.lt_nextWrite {track : Track F} {c : Nat} (more : c < track.flat.length) :
    c < track.nextWrite c := by
  unfold nextWrite
  cases found : track.writes.find? (c < ·) with
  | none => exact more
  | some w => simpa using List.find?_some found

theorem Track.nextWrite_le {track : Track F} (within : track.Within) (c : Nat) :
    track.nextWrite c ≤ track.flat.length := by
  unfold nextWrite
  cases found : track.writes.find? (c < ·) with
  | none => exact Nat.le_refl _
  | some w => exact within w (List.mem_of_find?_eq_some found)

namespace Player

variable {files : Files} {script : Script F} {p q : Player F}

theorem stepWrite_atEnd (ended : p.atEnd = true) : p.stepWrite files = .ok (false, p) :=
  if_pos ended

theorem stepWrite_follows (h : p.Follows files script) (going : p.atEnd = false) :
    Guarded (script.Taken files) (p.stepWrite files) fun r =>
      r.1 = true ∧ p.Onward files script r.2 ∧ r.2.cursor = p.track.nextWrite p.cursor ∧
        r.2.Settles files script := by
  have later := Track.lt_nextWrite (lt_of_going going)
  have within := Track.nextWrite_le (h.1 ▸ script.carries.within) p.cursor
  unfold stepWrite
  rw [going, if_neg Bool.false_ne_true]
  refine (feedUntil_follows h (p.track.nextWrite p.cursor)).bind
    fun q ⟨onward, cursor, settled⟩ => ?_
  exact .ok ⟨rfl, onward, by dsimp only; omega, settled⟩

/-! At the end of the output a step or a turn does nothing. -/

section

variable {x : Looping (Bool × Player F)}

theorem guards_going {c : Prop} {P : Bool × Player F → Prop} (ended : p.atEnd = true → P (false, p))
    (going : p.atEnd = false → Guards c x P) :
    Guards c (if p.atEnd then pure (false, p) else x) P := by
  cases now : p.atEnd with
  | true => exact .pure (ended now)
  | false => exact going now

theorem ends_going
    (ended : (if p.atEnd then pure (false, p) else x : Looping (Bool × Player F)).Ends (true, q)) :
    p.atEnd = false ∧ x.Ends (true, q) := by
  cases now : p.atEnd with
  | true =>
    rw [now, if_pos rfl] at ended
    cases Looping.ends_pure.mp ended
  | false =>
    rw [now, if_neg Bool.false_ne_true] at ended
    exact ⟨rfl, ended⟩

theorem forever_going :
    (if p.atEnd then pure (false, p) else x : Looping (Bool × Player F)).Forever ↔
      p.atEnd = false ∧ x.Forever := by
  cases p.atEnd with
  | true => exact ⟨fun forever => absurd forever (Looping.not_forever_pure _), fun ⟨no, _⟩ => nomatch no⟩
  | false => exact ⟨fun forever => ⟨rfl, forever⟩, fun ⟨_, forever⟩ => forever⟩

theorem turned_going {y : Checked (Bool × Player F)}
    (turned : (if p.atEnd then pure (false, p) else y) = .ok (true, q)) :
    p.atEnd = false ∧ y = .ok (true, q) := by
  cases now : p.atEnd with
  | true =>
    rw [now, if_pos rfl] at turned
    cases turned
  | false =>
    rw [now, if_neg Bool.false_ne_true] at turned
    exact ⟨rfl, turned⟩

end

/-- No step of this granularity is ahead. -/
def Stuck (g : Granularity) (p : Player F) : Prop :=
  p.atEnd = true ∨ g = .marker ∧ ∀ mark ∈ p.track.marks, mark.1 ≤ p.cursor

def Further (files : Files) (script : Script F) (p q : Player F) : Prop :=
  p.Onward files script q ∧ p.cursor < q.cursor

/-- A step takes the player further on; one that is not taken leaves it where it is, with
none ahead. -/
def Advances (files : Files) (script : Script F) (g : Granularity) (p : Player F)
    (r : Bool × Player F) : Prop :=
  if r.1 then p.Further files script r.2 else r.2 = p ∧ p.Stuck g

theorem advances_atEnd (g : Granularity) (ended : p.atEnd = true) :
    p.Advances files script g (false, p) :=
  ⟨rfl, .inl ended⟩

theorem stepMarker_advances (h : p.Follows files script) :
    Guarded (script.Taken files) (p.stepMarker files) (p.Advances files script .marker) := by
  unfold stepMarker
  cases going : p.atEnd with
  | true => exact .ok (advances_atEnd _ going)
  | false =>
    have more := lt_of_going going
    rw [if_neg Bool.false_ne_true]
    split
    · rename_i target name found
      have ahead : p.cursor < target := by simpa using List.find?_some found
      refine (feedUntil_follows h target).bind fun q ⟨onward, cursor, _⟩ => ?_
      exact .ok ⟨onward, by dsimp only; omega⟩
    · rename_i none
      refine .ok ⟨rfl, .inr ⟨rfl, fun mark mem => ?_⟩⟩
      have behind := List.find?_eq_none.mp none mark mem
      simpa using behind

/-- A byte more is further on. -/
theorem feedByte_further (onward : p.Onward files script q) (going : q.atEnd = false) :
    Guarded (script.Taken files) (q.feedByte files) fun r => p.Further files script r.2 := by
  refine (feedByte_follows onward.follows going).mono ?_
  rintro ⟨fed, s⟩ ⟨-, later, cursor⟩
  have le := onward.le
  exact ⟨onward.trans later, by dsimp only at cursor ⊢; omega⟩

theorem sequence_follows (further : p.Further files script q) :
    Guards (script.Taken files) (Looping.loop (sequenceTurn files) q) (p.Further files script) := by
  refine .loop (I := p.Further files script) further fun s further => ?_
  unfold sequenceTurn
  split
  · rename_i more
    simp only [Bool.and_eq_true, Bool.not_eq_true'] at more
    exact (feedByte_further further.1 more.1).bind fun (_, s) further => .ok further
  · exact .ok further

/-- The first turn of a loop feeds a byte. -/
theorem further_or_same (h : p.Follows files script) {turn : Player F → Checked (Bool × Player F)}
    (step : ∀ s, p.Onward files script s → Guarded (script.Taken files) (turn s) fun r =>
      p.Further files script r.2 ∨ r = (false, s) ∧ s ≠ p) :
    Guards (script.Taken files) (Looping.loop turn p) (p.Further files script) := by
  refine .loop (I := fun s => p.Further files script s ∨ s = p) (.inr rfl) fun s kept => ?_
  have onward : p.Onward files script s := by
    rcases kept with further | rfl
    · exact further.1
    · exact .refl h
  refine (step s onward).mono ?_
  rintro ⟨again, q⟩ (further | ⟨same, apart⟩)
  · cases again with
    | true => exact .inl further
    | false => exact further
  · cases same
    exact kept.resolve_right apart

theorem run_follows (h : p.Follows files script) (going : p.atEnd = false)
    (ordinary : ∀ b, p.track.flat[p.cursor]? = some b → introduces b = false) :
    Guards (script.Taken files) (Looping.loop (runTurn files) p) (p.Further files script) := by
  refine further_or_same h fun s onward => ?_
  unfold runTurn
  cases more : s.atEnd with
  | true =>
    refine .ok (.inr ⟨rfl, ?_⟩)
    rintro rfl
    cases going.symm.trans more
  | false =>
    rw [if_neg Bool.false_ne_true]
    refine (Guarded.of_yields (.getAt (lt_of_going more))).bind fun b ⟨here, _⟩ => ?_
    split
    · rename_i introducer
      refine .ok (.inr ⟨rfl, ?_⟩)
      rintro rfl
      cases (ordinary b here).symm.trans introducer
    · exact (feedByte_further onward more).bind fun (_, s) further => .ok (.inl further)

theorem stepEscape_advances (h : p.Follows files script) :
    Guards (script.Taken files) (p.stepEscape files) (p.Advances files script .escape) := by
  refine guards_going (advances_atEnd _) fun going => ?_
  refine Guards.bind (.ofChecked (.of_yields (.getAt (lt_of_going going)))) fun b ⟨here, _⟩ => ?_
  split
  · refine Guards.bind (.ofChecked (feedByte_further (.refl h) going)) fun (_, q) further => ?_
    exact (sequence_follows further).bind fun s further => .pure further
  · rename_i ordinary
    refine (run_follows h going fun b' here' => ?_).bind fun s further => .pure further
    cases here.symm.trans here'
    simpa using ordinary

theorem change_follows (generation : Nat) (h : p.Follows files script) (going : p.atEnd = false) :
    Guards (script.Taken files) (Looping.loop (changeTurn files generation) p)
      (p.Further files script) := by
  refine further_or_same h fun s onward => ?_
  unfold changeTurn
  cases more : s.atEnd with
  | true =>
    refine .ok (.inr ⟨rfl, ?_⟩)
    rintro rfl
    cases going.symm.trans more
  | false =>
    rw [if_neg Bool.false_ne_true]
    exact (feedByte_further onward more).bind fun (_, s) further => .ok (.inl further)

theorem stepToChange_advances (h : p.Follows files script) :
    Guards (script.Taken files) (p.stepToChange files) (p.Advances files script .change) := by
  refine guards_going (advances_atEnd _) fun going => ?_
  refine (change_follows p.term.generation h going).bind fun s ⟨onward, further⟩ => ?_
  refine Guards.bind (.ofChecked (flushTrailingResizes_follows onward.follows)) ?_
  rintro q ⟨later, cursor, -⟩
  exact .pure ⟨onward.trans later, by dsimp only; omega⟩

variable {f64 : F64 F} {near : F → F → F → Bool}

theorem frames_follow {t : F} (further : p.Further files script q) :
    Guards (script.Taken files) (Looping.loop (frameTurn near files) (t, q))
      fun s => p.Further files script s.2 := by
  refine .loop (I := fun s => p.Further files script s.2) further fun (t, s) further => ?_
  unfold frameTurn
  dsimp only
  split
  · split
    · cases more : s.atEnd with
      | true =>
        rw [stepWrite_atEnd more]
        exact .ok further
      | false =>
        refine (stepWrite_follows further.1.follows more).bind ?_
        rintro ⟨fed, s'⟩ ⟨-, later, -⟩
        exact .ok ⟨further.1.trans later, Nat.lt_of_lt_of_le further.2 later.le⟩
    · exact .ok further
  · exact .ok further

theorem stepFrame_advances (h : p.Follows files script) :
    Guards (script.Taken files) (p.stepFrame f64 near files) (p.Advances files script .frame) := by
  refine guards_going (advances_atEnd _) fun going => ?_
  refine Guards.bind (.ofChecked (stepWrite_follows h going)) ?_
  rintro ⟨fed, q⟩ ⟨-, onward, cursor, -⟩
  have further : p.Further files script q := by
    refine ⟨onward, ?_⟩
    dsimp only at cursor
    rw [cursor]
    exact Track.lt_nextWrite (lt_of_going going)
  exact (frames_follow further).bind fun (t, s) further => .pure further

theorem advance_advances (h : p.Follows files script) (g : Granularity) :
    Guards (script.Taken files) (p.advance f64 near files g) (p.Advances files script g) := by
  cases g with
  | byte =>
    refine .ofChecked ?_
    cases going : p.atEnd with
    | true =>
      rw [feedByte_atEnd going]
      exact .ok (advances_atEnd _ going)
    | false =>
      refine (feedByte_follows h going).mono ?_
      rintro ⟨fed, q⟩ ⟨rfl, onward, cursor⟩
      exact ⟨onward, by dsimp only at cursor ⊢; omega⟩
  | escape => exact stepEscape_advances h
  | write =>
    refine .ofChecked ?_
    cases going : p.atEnd with
    | true =>
      rw [stepWrite_atEnd going]
      exact .ok (advances_atEnd _ going)
    | false =>
      refine (stepWrite_follows h going).mono ?_
      rintro ⟨fed, q⟩ ⟨rfl, onward, cursor, -⟩
      dsimp only at cursor
      exact ⟨onward, cursor ▸ Track.lt_nextWrite (lt_of_going going)⟩
  | change => exact stepToChange_advances h
  | frame => exact stepFrame_advances h
  | marker => exact .ofChecked (stepMarker_advances h)

theorem steps_follows (h : p.Follows files script) (g : Granularity) (n taken : Nat) :
    Guards (script.Taken files) (p.steps f64 near files g n taken) fun r =>
      p.Onward files script r.2 := by
  induction n generalizing p taken with
  | zero => exact .pure (.refl h)
  | succ n ih =>
    rw [steps]
    refine (advance_advances h g).bind ?_
    rintro ⟨advanced, q⟩ moved
    cases advanced with
    | true => exact (ih moved.1.follows (taken + 1)).mono fun r later => moved.1.trans later
    | false =>
      obtain ⟨rfl, -⟩ := moved
      exact .pure (.refl h)

/-- After a call of `step` nothing waits that is anchored before the cursor. -/
theorem step_follows (h : p.Follows files script) (g : Granularity) (n : Nat) :
    Guards (script.Taken files) (p.step f64 near files g n) fun r =>
      p.Onward files script r.2 ∧ r.2.Settles files script := by
  unfold step
  refine (steps_follows h g n 0).bind fun (taken, q) onward => ?_
  refine Guards.bind (.ofChecked (flushTrailingResizes_follows onward.follows)) ?_
  rintro r ⟨later, -, settled⟩
  exact .pure ⟨onward.trans later, settled⟩

end Player

end Posh.Rec
