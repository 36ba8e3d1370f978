import Posh.Rec.Paths

/-!
Which calls of `step` return.

Every step that is taken moves the cursor forward, so that only the loop of a frame can
go on for ever: at the end of the output it finds an event without output over and over.
Whether it comes to that is settled by the offsets and the times of the events.
-/

namespace Posh.Rec

open Posh.Lib Posh.Term
open Posh.Lib.Looping (Guards)

variable {F : Type} {f64 : F64 F} {near : F → F → F → Bool} {files : Files}

/-! ### Bursts of events -/

namespace Track

/-- The time of the first event at an offset. -/
def firstAt (track : Track F) (c : Nat) : Option F :=
  (track.times.find? (·.1 == c)).map (·.2)

/-- A burst that has come to offset `c`, its last event at `t`, runs up to an event without
output behind the last byte, within the gap of the one before and of itself. -/
inductive Absorbs (near : F → F → F → Bool) (gap : F) (track : Track F) : (c : Nat) → (t : F) → Prop
    where
  | again {t t' : F} (found : track.firstAt track.flat.length = some t')
      (close : near t' t gap = true) (itself : near t' t' gap = true) :
      Absorbs near gap track track.flat.length t
  | next {c : Nat} {t t' : F} (more : c < track.flat.length) (found : track.firstAt c = some t')
      (close : near t' t gap = true) (rest : Absorbs near gap track (track.nextWrite c) t') :
      Absorbs near gap track c t

/-- A burst that has come to offset `c`, its last event at `t`, ends at `c'`. -/
inductive Spans (near : F → F → F → Bool) (gap : F) (track : Track F) :
    (c : Nat) → (t : F) → (c' : Nat) → Prop where
  | stop {c : Nat} {t : F} (apart : ∀ t', track.firstAt c = some t' → near t' t gap = false) :
      Spans near gap track c t c
  | next {c c' : Nat} {t t' : F} (found : track.firstAt c = some t') (close : near t' t gap = true)
      (rest : Spans near gap track (track.nextWrite c) t' c') : Spans near gap track c t c'

/-- One of the next `n` frames from offset `c` does not end. -/
inductive Endless (f64 : F64 F) (near : F → F → F → Bool) (gap : F) (track : Track F) :
    (n c : Nat) → Prop where
  | now {n c : Nat} (more : c < track.flat.length)
      (absorbs : Absorbs near gap track (track.nextWrite c)
        (Player.lastTime c f64.zero track.times)) :
      Endless f64 near gap track (n + 1) c
  | later {n c c' : Nat} (more : c < track.flat.length)
      (spans : Spans near gap track (track.nextWrite c) (Player.lastTime c f64.zero track.times) c')
      (rest : Endless f64 near gap track n c') : Endless f64 near gap track (n + 1) c

variable {track : Track F} {gap : F}

theorem Spans.unique {c d e : Nat} {t : F} (h : track.Spans near gap c t d)
    (h' : track.Spans near gap c t e) : d = e := by
  induction h with
  | stop apart =>
    cases h' with
    | stop _ => rfl
    | next found close _ => cases (apart _ found).symm.trans close
  | next found close _ ih =>
    cases h' with
    | stop apart => cases (apart _ found).symm.trans close
    | next found' _ rest' =>
      cases found.symm.trans found'
      exact ih rest'

theorem Absorbs.first {c : Nat} {t : F} (h : track.Absorbs near gap c t) :
    ∃ t', track.firstAt c = some t' ∧ near t' t gap = true := by
  cases h with
  | again found close _ => exact ⟨_, found, close⟩
  | next _ found close _ => exact ⟨_, found, close⟩

theorem nextWrite_end (within : track.Within) :
    track.nextWrite track.flat.length = track.flat.length := by
  unfold nextWrite
  cases found : track.writes.find? (track.flat.length < ·) with
  | none => rfl
  | some w =>
    have beyond : track.flat.length < w := by simpa using List.find?_some found
    exact absurd (within w (List.mem_of_find?_eq_some found)) (by omega)

end Track

namespace Player

variable {script : Script F} {p q : Player F}

/-! ### The loop of a frame -/

theorem frameTurn_true {t t' : F} (turned : frameTurn near files (t, p) = .ok (true, t', q)) :
    p.track.firstAt p.cursor = some t' ∧ near t' t p.frameGap = true ∧
      ∃ taken, p.stepWrite files = .ok (taken, q) := by
  unfold frameTurn at turned
  dsimp only at turned
  unfold Track.firstAt
  split at turned
  · rename_i o next found
    rw [found]
    split at turned
    · rename_i close
      obtain ⟨⟨taken, q'⟩, stepped, same⟩ := eq_ok_of_bind turned
      cases same
      exact ⟨rfl, close, taken, stepped⟩
    · cases turned
  · cases turned

theorem frameTurn_false {t t' : F} (turned : frameTurn near files (t, p) = .ok (false, t', q)) :
    q = p ∧ ∀ t', p.track.firstAt p.cursor = some t' → near t' t p.frameGap = false := by
  unfold frameTurn at turned
  dsimp only at turned
  unfold Track.firstAt
  split at turned
  · rename_i o next found
    rw [found]
    split at turned
    · obtain ⟨⟨taken, q'⟩, -, same⟩ := eq_ok_of_bind turned
      cases same
    · rename_i apart
      cases turned
      exact ⟨rfl, by rintro t' ⟨⟩; simpa using apart⟩
  · rename_i none
    cases turned
    rw [none]
    exact ⟨rfl, nofun⟩

theorem frameTurn_next {t t' : F} {taken : Bool} (found : p.track.firstAt p.cursor = some t')
    (close : near t' t p.frameGap = true) (stepped : p.stepWrite files = .ok (taken, q)) :
    frameTurn near files (t, p) = .ok (true, t', q) := by
  obtain ⟨⟨o, next⟩, first, rfl⟩ := Option.map_eq_some_iff.mp found
  unfold frameTurn
  dsimp only
  rw [first]
  dsimp only at close ⊢
  rw [if_pos close, stepped]
  rfl

/-- `step_write` in a frame; at the end it does nothing. -/
theorem stepWrite_next (h : p.Follows files script) (settled : p.Settles files script) :
    Guarded (script.Taken files) (p.stepWrite files) fun r =>
      p.Onward files script r.2 ∧ r.2.cursor = p.track.nextWrite p.cursor ∧
        r.2.Settles files script := by
  cases going : p.atEnd with
  | true =>
    rw [stepWrite_atEnd going]
    refine .ok ⟨.refl h, ?_, settled⟩
    rw [h.cursor_eq going, Track.nextWrite_end (h.1 ▸ script.carries.within)]
  | false => exact (stepWrite_follows h going).mono fun r ⟨_, rest⟩ => rest

theorem Settles.taken (settled : p.Settles files script) (h : p.Follows files script)
    (ended : p.cursor = p.track.flat.length) : script.Taken files := by
  obtain ⟨t, run, -⟩ := settled
  have count : p.cursor = (Cue.flat script.cues).length := by
    rw [ended, h.1, script.carries.flat]
  rw [count, Cue.upTo_end] at run
  exact ⟨t, run⟩

/-- A frame that does not end has come to the end of the output. -/
theorem absorbs_of_forever {t : F} (h : p.Follows files script) (settled : p.Settles files script)
    (forever : (Looping.loop (frameTurn near files) (t, p)).Forever) :
    p.track.Absorbs near p.frameGap p.cursor t ∧ script.Taken files := by
  induction left : p.track.flat.length - p.cursor using Nat.strongRecOn generalizing p t with
  | ind n ih =>
    subst left
    obtain ⟨⟨t', q⟩, turned, later⟩ := Looping.forever_loop.mp forever
    obtain ⟨found, close, taken, stepped⟩ := frameTurn_true turned
    obtain ⟨onward, cursor, settled'⟩ := (stepWrite_next h settled).of_eq_ok stepped
    dsimp only at onward cursor settled'
    have track := onward.track_eq h
    cases going : p.atEnd with
    | true =>
      have ended := h.cursor_eq going
      cases (stepWrite_atEnd going).symm.trans stepped
      obtain ⟨⟨t'', q'⟩, turned', -⟩ := Looping.forever_loop.mp later
      obtain ⟨found', itself, -⟩ := frameTurn_true turned'
      cases found.symm.trans found'
      rw [ended] at found ⊢
      exact ⟨.again found close itself, settled.taken h ended⟩
    | false =>
      have more := lt_of_going going
      have further := Track.lt_nextWrite more
      have within := onward.follows.within
      have ⟨absorbs, taken⟩ := ih _ (by rw [track] at within ⊢; omega) onward.follows settled' later rfl
      rw [track, onward.gap, cursor] at absorbs
      exact ⟨.next more found close absorbs, taken⟩

/-- Where nothing panics, a burst that runs up to such an event does not end. -/
theorem forever_of_absorbs {c : Nat} {t : F} (h : p.Follows files script)
    (settled : p.Settles files script) (taken : script.Taken files)
    (absorbs : p.track.Absorbs near p.frameGap c t) (at_ : p.cursor = c) :
    (Looping.loop (frameTurn near files) (t, p)).Forever := by
  generalize same : p.track = track at absorbs
  generalize gap : p.frameGap = frameGap at absorbs
  induction absorbs generalizing p with
  | @again t t' found close itself =>
    subst same gap
    have ended : p.atEnd = true := decide_eq_true (Nat.le_of_eq at_.symm)
    have stepped : p.stepWrite files = .ok (false, p) := stepWrite_atEnd ended
    rw [← at_] at found
    refine Looping.forever_loop.mpr ⟨(t', p), frameTurn_next found close stepped, ?_⟩
    refine .loop (I := fun s => s = (t', p)) rfl ?_
    rintro s rfl
    exact ⟨(t', p), frameTurn_next found itself stepped, rfl⟩
  | @next c t t' more found close rest ih =>
    subst same gap
    obtain ⟨⟨moved, q⟩, stepped, onward, cursor, settled'⟩ := (stepWrite_next h settled).yields taken
    rw [← at_] at found
    refine Looping.forever_loop.mpr ⟨(t', q), frameTurn_next found close stepped, ?_⟩
    exact ih onward.follows settled' (cursor.trans (by rw [at_])) (onward.track_eq h) onward.gap

/-- A frame that ends does so where its burst does. -/
theorem loop_spans {t t' : F} (h : p.Follows files script) (settled : p.Settles files script)
    (ended : (Looping.loop (frameTurn near files) (t, p)).Ends (t', q)) :
    p.track.Spans near p.frameGap p.cursor t q.cursor := by
  have spanned : Guards False (Looping.loop (frameTurn near files) (t, p)) fun s =>
      p.track.Spans near p.frameGap p.cursor t s.2.cursor := by
    refine .loop (I := fun s => p.Onward files script s.2 ∧ s.2.Settles files script ∧
      ∀ c', p.track.Spans near p.frameGap s.2.cursor s.1 c' →
        p.track.Spans near p.frameGap p.cursor t c') ⟨.refl h, settled, fun _ spans => spans⟩ ?_
    rintro ⟨u, s⟩ ⟨onward, settled, before⟩
    have track := onward.track_eq h
    cases turned : frameTurn near files (u, s) with
    | error e => exact False.elim
    | ok r =>
      obtain ⟨again, u', s'⟩ := r
      cases again with
      | true =>
        obtain ⟨found, close, taken, stepped⟩ := frameTurn_true turned
        obtain ⟨later, cursor, settled'⟩ := (stepWrite_next onward.follows settled).of_eq_ok stepped
        dsimp only at cursor
        rw [track] at found cursor
        rw [onward.gap] at close
        refine ⟨onward.trans later, settled', fun c' spans => before c' ?_⟩
        dsimp only at spans
        rw [cursor] at spans
        exact .next found close spans
      | false =>
        obtain ⟨rfl, apart⟩ := frameTurn_false turned
        rw [track, onward.gap] at apart
        exact before _ (.stop apart)
  exact spanned.ends ended

/-! ### One step -/

theorem stepFrame_forever (h : p.Follows files script) :
    (p.stepFrame f64 near files).Forever ↔ p.atEnd = false ∧ script.Taken files ∧
      p.track.Absorbs near p.frameGap (p.track.nextWrite p.cursor) (p.eventTimeAt f64 p.cursor) := by
  refine forever_going.trans (and_congr_right fun going => ?_)
  refine Looping.forever_ofChecked_bind.trans ⟨?_, ?_⟩
  · rintro ⟨⟨moved, q⟩, stepped, forever⟩
    obtain ⟨-, onward, cursor, settled⟩ := (stepWrite_follows h going).of_eq_ok stepped
    have ⟨absorbs, taken⟩ := absorbs_of_forever onward.follows settled
      (Looping.forever_bind_pure.mp forever)
    dsimp only at cursor
    rw [onward.track_eq h, onward.gap, cursor] at absorbs
    exact ⟨taken, absorbs⟩
  · rintro ⟨taken, absorbs⟩
    obtain ⟨⟨moved, q⟩, stepped, -, onward, cursor, settled⟩ :=
      (stepWrite_follows h going).yields taken
    dsimp only at onward cursor settled
    refine ⟨(moved, q), stepped, Looping.forever_bind_pure.mpr ?_⟩
    rw [← onward.track_eq h, ← onward.gap] at absorbs
    exact forever_of_absorbs onward.follows settled taken absorbs (onward.track_eq h ▸ cursor)

theorem stepFrame_spans (h : p.Follows files script)
    (ended : (p.stepFrame f64 near files).Ends (true, q)) :
    p.track.Spans near p.frameGap (p.track.nextWrite p.cursor) (p.eventTimeAt f64 p.cursor)
      q.cursor := by
  obtain ⟨going, fed⟩ := ends_going ended
  obtain ⟨⟨moved, r⟩, first, second⟩ := Looping.ends_bind.mp fed
  obtain ⟨⟨t, s⟩, looped, last⟩ := Looping.ends_bind.mp second
  cases Looping.ends_pure.mp last
  obtain ⟨-, onward, cursor, settled⟩ :=
    (stepWrite_follows h going).of_eq_ok (Looping.ends_ofChecked.mp first)
  have spans := loop_spans onward.follows settled looped
  dsimp only at cursor
  rwa [onward.track_eq h, onward.gap, cursor] at spans

/-- A loop that feeds a byte in every turn but its last ends. -/
theorem fed_not_forever {turn : Player F → Checked (Bool × Player F)} (h : p.Follows files script)
    (fed : ∀ s s', s.Follows files script → turn s = .ok (true, s') → s.Further files script s') :
    ¬ (Looping.loop turn p).Forever := by
  refine Looping.not_forever_loop (I := fun s => s.Follows files script)
    (fun s => s.track.flat.length - s.cursor) h fun s s' h turned => ?_
  obtain ⟨onward, further⟩ := fed s s' h turned
  have within := onward.follows.within
  refine ⟨onward.follows, ?_⟩
  rw [onward.track_eq h] at within ⊢
  omega

theorem feedByte_further_of_eq {r : Bool × Player F} (h : p.Follows files script)
    (going : p.atEnd = false) (fed : p.feedByte files = .ok r) : p.Further files script r.2 :=
  (feedByte_further (.refl h) going).of_eq_ok fed

theorem sequence_not_forever (h : p.Follows files script) :
    ¬ (Looping.loop (sequenceTurn files) p).Forever := by
  refine fed_not_forever h fun s s' h turned => ?_
  unfold sequenceTurn at turned
  split at turned
  · rename_i more
    simp only [Bool.and_eq_true, Bool.not_eq_true'] at more
    obtain ⟨r, fed, same⟩ := eq_ok_of_bind turned
    cases same
    exact feedByte_further_of_eq h more.1 fed
  · cases turned

theorem run_not_forever (h : p.Follows files script) :
    ¬ (Looping.loop (runTurn files) p).Forever := by
  refine fed_not_forever h fun s s' h turned => ?_
  obtain ⟨going, rest⟩ := turned_going turned
  obtain ⟨b, -, rest⟩ := eq_ok_of_bind rest
  split at rest
  · cases rest
  · obtain ⟨r, fed, same⟩ := eq_ok_of_bind rest
    cases same
    exact feedByte_further_of_eq h going fed

theorem change_not_forever (generation : Nat) (h : p.Follows files script) :
    ¬ (Looping.loop (changeTurn files generation) p).Forever := by
  refine fed_not_forever h fun s s' h turned => ?_
  obtain ⟨going, rest⟩ := turned_going turned
  obtain ⟨⟨taken, q⟩, fed, same⟩ := eq_ok_of_bind rest
  obtain rfl : q = s' := by injection same with pair; exact congrArg Prod.snd pair
  exact feedByte_further_of_eq h going fed

theorem stepEscape_not_forever (h : p.Follows files script) : ¬ (p.stepEscape files).Forever := by
  intro forever
  obtain ⟨going, forever⟩ := forever_going.mp forever
  obtain ⟨b, -, forever⟩ := Looping.forever_ofChecked_bind.mp forever
  split at forever
  · obtain ⟨r, fed, forever⟩ := Looping.forever_ofChecked_bind.mp forever
    have further := feedByte_further_of_eq h going fed
    exact sequence_not_forever further.1.follows (Looping.forever_bind_pure.mp forever)
  · exact run_not_forever h (Looping.forever_bind_pure.mp forever)

theorem stepToChange_not_forever (h : p.Follows files script) :
    ¬ (p.stepToChange files).Forever := by
  intro forever
  obtain ⟨going, forever⟩ := forever_going.mp forever
  rcases Looping.forever_bind.mp forever with forever | ⟨s, -, forever⟩
  · exact change_not_forever _ h forever
  · obtain ⟨r, -, forever⟩ := Looping.forever_ofChecked_bind.mp forever
    exact Looping.not_forever_pure _ forever

/-- Only a frame can go on for ever. -/
theorem advance_forever {g : Granularity} (h : p.Follows files script)
    (forever : (p.advance f64 near files g).Forever) : g = .frame := by
  cases g with
  | frame => rfl
  | byte => exact absurd forever (Looping.not_forever_ofChecked _)
  | write => exact absurd forever (Looping.not_forever_ofChecked _)
  | marker => exact absurd forever (Looping.not_forever_ofChecked _)
  | escape => exact absurd forever (stepEscape_not_forever h)
  | change => exact absurd forever (stepToChange_not_forever h)

/-! ### Calls -/

/-- The steps that a call has taken, each of them further on. -/
inductive Moves (f64 : F64 F) (near : F → F → F → Bool) (files : Files) (g : Granularity) :
    (taken : Nat) → Player F → Player F → Prop where
  | none (p : Player F) : Moves f64 near files g 0 p p
  | next {taken : Nat} {p q r : Player F} (step : (p.advance f64 near files g).Ends (true, q))
      (forward : p.cursor < q.cursor) (rest : Moves f64 near files g taken q r) :
      Moves f64 near files g (taken + 1) p r

/-- A call for `n` steps has taken as many as it says, each of them further on: all of
them, unless no step is ahead. -/
def Counted (f64 : F64 F) (near : F → F → F → Bool) (files : Files) (g : Granularity) (n : Nat)
    (p : Player F) (taken : Nat) (q : Player F) : Prop :=
  taken ≤ n ∧ (taken = n ∨ q.Stuck g) ∧
    ∃ r, Moves f64 near files g taken p r ∧ r.flushTrailingResizes = .ok q

variable {g : Granularity} {n : Nat}

theorem steps_counted {before total : Nat} (h : p.Follows files script)
    (ended : (p.steps f64 near files g n before).Ends (total, q)) :
    ∃ taken ≤ n, total = before + taken ∧ Moves f64 near files g taken p q ∧
      q.Follows files script ∧ (taken = n ∨ q.Stuck g) := by
  induction n generalizing p before with
  | zero =>
    cases Looping.ends_pure.mp ended
    exact ⟨0, Nat.le_refl 0, rfl, .none _, h, .inl rfl⟩
  | succ n ih =>
    rw [steps] at ended
    obtain ⟨⟨advanced, r⟩, first, second⟩ := Looping.ends_bind.mp ended
    have moved := (advance_advances h g).ends first
    cases advanced with
    | true =>
      obtain ⟨taken, le, rfl, moves, follows, stopped⟩ := ih moved.1.follows second
      exact ⟨taken + 1, by omega, by omega, .next first moved.2 moves, follows,
        stopped.imp (congrArg (· + 1)) id⟩
    | false =>
      cases Looping.ends_pure.mp second
      obtain ⟨same, stuck⟩ := moved
      cases same
      exact ⟨0, Nat.zero_le _, rfl, .none _, h, .inr stuck⟩

/-- A call that returns has counted. -/
theorem step_counted {taken : Nat} (h : p.Follows files script)
    (ended : (p.step f64 near files g n).Ends (taken, q)) : Counted f64 near files g n p taken q := by
  unfold step at ended
  obtain ⟨⟨total, r⟩, first, second⟩ := Looping.ends_bind.mp ended
  obtain ⟨q', flushed, last⟩ := Looping.ends_bind.mp second
  have flushed := Looping.ends_ofChecked.mp flushed
  cases Looping.ends_pure.mp last
  obtain ⟨taken', le, total, moves, follows, stopped⟩ := steps_counted h first
  obtain rfl : taken = taken' := by omega
  obtain ⟨onward, cursor, -⟩ := (flushTrailingResizes_follows follows).of_eq_ok flushed
  refine ⟨le, stopped.imp id ?_, r, moves, flushed⟩
  unfold Stuck atEnd
  rw [onward.track_eq follows, cursor]
  exact id

theorem steps_forever {before : Nat} (h : p.Follows files script) :
    (p.steps f64 near files g n before).Forever ↔
      g = .frame ∧ p.track.Endless f64 near p.frameGap n p.cursor ∧ script.Taken files := by
  induction n generalizing p before with
  | zero =>
    refine ⟨fun forever => absurd forever (Looping.not_forever_pure _), ?_⟩
    rintro ⟨-, endless, -⟩
    cases endless
  | succ n ih =>
    rw [steps, Looping.forever_bind]
    constructor
    · rintro (forever | ⟨⟨advanced, q⟩, first, forever⟩)
      · obtain rfl := advance_forever h forever
        obtain ⟨going, taken, absorbs⟩ := (stepFrame_forever h).mp forever
        exact ⟨rfl, .now (lt_of_going going) absorbs, taken⟩
      · have moved := (advance_advances h g).ends first
        cases advanced with
        | false => exact absurd forever (Looping.not_forever_pure _)
        | true =>
          obtain ⟨onward, further⟩ := moved
          obtain ⟨rfl, endless, taken⟩ := (ih onward.follows).mp forever
          have spans := stepFrame_spans h first
          dsimp only at onward further endless
          have within := onward.follows.within
          rw [onward.track_eq h] at endless within
          rw [onward.gap] at endless
          exact ⟨rfl, .later (by omega) spans endless, taken⟩
    · rintro ⟨rfl, endless, taken⟩
      cases endless with
      | now more absorbs =>
        exact .inl ((stepFrame_forever h).mpr ⟨by simpa [atEnd] using more, taken, absorbs⟩)
      | later more spans rest =>
        rcases Looping.outcome (p.advance f64 near files .frame) with forever | ⟨⟨advanced, q⟩, ended⟩ | ⟨e, failed⟩
        · exact .inl forever
        · have moved := (advance_advances h .frame).ends ended
          cases advanced with
          | true =>
            obtain ⟨onward, further⟩ := moved
            dsimp only at onward
            refine .inr ⟨(true, q), ended, (ih onward.follows).mpr ⟨rfl, ?_, taken⟩⟩
            rw [onward.track_eq h, onward.gap, ← spans.unique (stepFrame_spans h ended)]
            exact rest
          | false =>
            rcases moved.2 with stuck | ⟨other, -⟩
            · exact absurd (h.cursor_eq stuck) (by omega)
            · cases other
        · exact absurd failed ((advance_advances h .frame).not_fails taken e)

theorem step_forever (h : p.Follows files script) :
    (p.step f64 near files g n).Forever ↔
      g = .frame ∧ p.track.Endless f64 near p.frameGap n p.cursor ∧ script.Taken files := by
  unfold step
  refine Looping.forever_bind.trans (Iff.trans ⟨?_, .inl⟩ (steps_forever h))
  rintro (forever | ⟨⟨total, r⟩, -, forever⟩)
  · exact forever
  · obtain ⟨q, -, forever⟩ := Looping.forever_ofChecked_bind.mp forever
    exact absurd forever (Looping.not_forever_pure _)

end Player

section

variable {src : List Char} {header : Header} {events : List (Event F)} {p : Player F}

/-- The emulator goes through the whole recording. -/
theorem Script.taken_ofEvents : (Script.ofEvents header events).Taken files ↔
    ∃ t, Event.replayAll files events
      (Terminal.new header.height.toNat header.width.toNat) = .ok t := by
  unfold Taken Script.after
  change (∃ t, forEach (events.flatMap (·.cues)) _ _ = .ok t) ↔ _
  rw [Event.run_flatMap_cues]
  rfl

/-- A call of `step` returns, with the steps counted that it has taken, or panics, unless
it is for frames, one of which does not end; and it panics only where the emulator panics
on the recording. -/
theorem Player.step_returns_iff (reads : Reads f64 src header events)
    (reached : p.Reached f64 near files src) (g : Granularity) (n : Nat) :
    (((∃ taken q, (p.step f64 near files g n).Ends (taken, q) ∧
          p.Counted f64 near files g n taken q) ∨ ∃ e, (p.step f64 near files g n).Fails e) ↔
      ¬ (g = .frame ∧ p.track.Endless f64 near p.frameGap n p.cursor ∧
        ∃ t, Event.replayAll files events
          (Terminal.new header.height.toNat header.width.toNat) = .ok t)) ∧
    ((∃ e, (p.step f64 near files g n).Fails e) →
      ∃ e, Event.replayAll files events
        (Terminal.new header.height.toNat header.width.toNat) = .error e) := by
  have follows := reached.follows reads
  rw [← Script.taken_ofEvents, ← step_forever follows]
  constructor
  · constructor
    · rintro (⟨taken, q, ended, -⟩ | ⟨e, failed⟩) forever
      · exact ended.not_forever forever
      · exact failed.not_forever forever
    · intro comes
      rcases Looping.outcome (p.step f64 near files g n) with forever | ⟨⟨taken, q⟩, ended⟩ | failed
      · exact absurd forever comes
      · exact .inl ⟨taken, q, ended, step_counted follows ended⟩
      · exact .inr failed
  · rintro ⟨e, failed⟩
    cases all : Event.replayAll files events
        (Terminal.new header.height.toNat header.width.toNat) with
    | error e => exact ⟨e, rfl⟩
    | ok t =>
      have taken := Script.taken_ofEvents.mpr ⟨t, all⟩
      exact absurd failed ((step_follows follows g n).not_fails taken e)

end

/-- Output, resized behind it, and output later than the gap of frames. -/
theorem Player.step_returns_iff_resized : ∃ p : Player Seconds,
    fromSource Seconds.ops (recordingText Seconds.ops { version := 2, width := 20, height := 5 }
      (resizedFirst ++ ⟨.whole 2, .marker, ['m']⟩ :: outputLast)) = .ok p ∧
    ((∃ taken q, (p.step Seconds.ops Seconds.near (fun _ => none) .frame 1).Ends (taken, q) ∧
        p.Counted Seconds.ops Seconds.near (fun _ => none) .frame 1 taken q) ∨
      ∃ e, (p.step Seconds.ops Seconds.near (fun _ => none) .frame 1).Fails e) := by
  have made := fromSource_reads reads_resizedFirst
  refine ⟨_, made, (step_returns_iff reads_resizedFirst (.fromSource made) .frame 1).1.mpr ?_⟩
  rintro ⟨-, endless, -⟩
  cases endless with
  | now more absorbs =>
    obtain ⟨t', found, close⟩ := absorbs.first
    cases found
    cases close
  | later more spans rest => cases rest

/-- An event without output behind the last byte, a tenth of a second after it. -/
def emptyLast : List (Event Seconds) :=
  [⟨.whole 0, .output, ['a']⟩, ⟨.tenth, .output, []⟩]

theorem reads_emptyLast :
    Reads Seconds.ops (recordingText Seconds.ops { version := 2, width := 20, height := 5 } emptyLast)
      { version := 2, width := 20, height := 5 } emptyLast := by
  refine reads_recordingText Seconds.lawful rfl fun e mem => ?_
  rcases List.mem_pair.mp mem with rfl | rfl <;> exact ⟨rfl, rfl⟩

theorem Player.endless_emptyLast : (Script.ofEvents { version := 2, width := 20, height := 5 }
    emptyLast).track.Endless Seconds.ops Seconds.near .tenth 1 0 :=
  .now (by decide) (.again rfl rfl rfl)

/-- The frame of that recording does not end. -/
theorem Player.frame_never_ends :
    ¬ ∀ (src : List Char) (header : Header) (events : List (Event Seconds)) (p : Player Seconds)
        (g : Granularity) (n : Nat),
      Reads Seconds.ops src header events →
      p.Reached Seconds.ops Seconds.near (fun _ => none) src →
      ∃ taken q, (p.step Seconds.ops Seconds.near (fun _ => none) g n).Ends (taken, q) ∧
        p.Counted Seconds.ops Seconds.near (fun _ => none) g n taken q := by
  intro all
  have made := fromSource_reads reads_emptyLast
  obtain ⟨taken, q, ended, -⟩ := all _ _ _ _ .frame 1 reads_emptyLast (.fromSource made)
  refine ended.not_forever ((step_forever (fromSource_follows reads_emptyLast made)).mpr
    ⟨rfl, endless_emptyLast, Script.taken_ofEvents.mpr ⟨_, rfl⟩⟩)

end Posh.Rec
