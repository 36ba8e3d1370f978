import Posh.Lib.Checked

/-!
Programs with loops that need not end.

A `Looping` computation is known by what comes of it within a number of turns of each of
its loops: nothing yet, a panic, or a value. More turns change nothing once something has
come. `Ends x a` says that `x` returns `a`, `Fails x e` that it panics, and `Forever x`
that nothing ever comes of it; exactly one of these is so.
-/

namespace Posh.Lib

variable {α β σ : Type}

structure Looping (α : Type) where
  /-- What comes within `fuel` turns; `none` is nothing yet. -/
  run : (fuel : Nat) → Checked (Option α)
  settled : ∀ fuel, run fuel = .ok none ∨ run (fuel + 1) = run fuel

namespace Looping

/-- A computation that goes through no loop of unknown length. -/
def ofChecked (x : Checked α) : Looping α where
  run _ := some <$> x
  settled _ := .inr rfl

/-- What comes of the second computation once the first has returned. -/
def bindRun (x : Looping α) (f : α → Looping β) (fuel : Nat) : Checked (Option β) := do
  match ← x.run fuel with
  | some a => (f a).run fuel
  | none => return none

theorem bindRun_settled (x : Looping α) (f : α → Looping β) (fuel : Nat) :
    bindRun x f fuel = .ok none ∨ bindRun x f (fuel + 1) = bindRun x f fuel := by
  unfold bindRun
  rcases x.settled fuel with nothing | same
  · rw [nothing]
    exact .inl rfl
  · rw [same]
    cases x.run fuel with
    | error e => exact .inr rfl
    | ok r =>
      cases r with
      | none => exact .inl rfl
      | some a => exact (f a).settled fuel

instance : Monad Looping where
  pure a := ofChecked (.ok a)
  bind x f := { run := bindRun x f, settled := bindRun_settled x f }

instance : MonadLift Checked Looping := ⟨ofChecked⟩

/-- `loop { turn }`, where `turn` says whether there is another one; `fuel` bounds them. -/
def turns (turn : σ → Checked (Bool × σ)) : (fuel : Nat) → σ → Checked (Option σ)
  | 0, _ => return none
  | fuel + 1, s => do
      let (again, s) ← turn s
      if again then turns turn fuel s else return some s

theorem turns_settled (turn : σ → Checked (Bool × σ)) (fuel : Nat) (s : σ) :
    turns turn fuel s = .ok none ∨ turns turn (fuel + 1) s = turns turn fuel s := by
  induction fuel generalizing s with
  | zero => exact .inl rfl
  | succ fuel ih =>
    rw [turns, turns]
    cases turn s with
    | error e => exact .inr rfl
    | ok r =>
      obtain ⟨again, s'⟩ := r
      cases again with
      | false => exact .inr rfl
      | true => exact ih s'

def loop (turn : σ → Checked (Bool × σ)) (s : σ) : Looping σ where
  run fuel := turns turn fuel s
  settled fuel := turns_settled turn fuel s

/-! ### What comes of a computation -/

def Ends (x : Looping α) (a : α) : Prop :=
  ∃ fuel, x.run fuel = .ok (some a)

def Fails (x : Looping α) (e : Panic) : Prop :=
  ∃ fuel, x.run fuel = .error e

def Forever (x : Looping α) : Prop :=
  ∀ fuel, x.run fuel = .ok none

variable {x : Looping α} {a b : α}

/-- What has come stays. -/
theorem run_le {r : Checked (Option α)} {fuel more : Nat} (le : fuel ≤ more)
    (come : x.run fuel = r) (something : r ≠ .ok none) : x.run more = r := by
  induction le with
  | refl => exact come
  | step _ ih =>
    rcases x.settled _ with nothing | same
    · exact absurd (ih.symm.trans nothing) something
    · exact same.trans ih

/-- Two things that come are the same. -/
theorem run_unique {r r' : Checked (Option α)} {fuel fuel' : Nat} (come : x.run fuel = r)
    (something : r ≠ .ok none) (come' : x.run fuel' = r') (something' : r' ≠ .ok none) : r = r' :=
  (run_le (Nat.le_max_left fuel fuel') come something).symm.trans
    (run_le (Nat.le_max_right fuel fuel') come' something')

theorem Ends.unique (h : x.Ends a) (h' : x.Ends b) : a = b := by
  obtain ⟨fuel, come⟩ := h
  obtain ⟨fuel', come'⟩ := h'
  cases run_unique come nofun come' nofun
  rfl

theorem Ends.not_forever (h : x.Ends a) : ¬ x.Forever := by
  obtain ⟨fuel, come⟩ := h
  intro forever
  cases come.symm.trans (forever fuel)

theorem Fails.not_forever {e : Panic} (h : x.Fails e) : ¬ x.Forever := by
  obtain ⟨fuel, come⟩ := h
  intro forever
  cases come.symm.trans (forever fuel)

theorem Ends.not_fails (h : x.Ends a) (e : Panic) : ¬ x.Fails e := by
  rintro ⟨fuel', come'⟩
  obtain ⟨fuel, come⟩ := h
  cases run_unique come nofun come' nofun

/-- One of the three is so. -/
theorem outcome (x : Looping α) : x.Forever ∨ (∃ a, x.Ends a) ∨ ∃ e, x.Fails e := by
  by_cases forever : x.Forever
  · exact .inl forever
  · obtain ⟨fuel, something⟩ := not_forall.mp forever
    cases come : x.run fuel with
    | error e => exact .inr (.inr ⟨e, fuel, come⟩)
    | ok r =>
      cases r with
      | none => exact absurd come something
      | some a => exact .inr (.inl ⟨a, fuel, come⟩)

/-! ### Sequencing -/

theorem ends_ofChecked {y : Checked α} : (ofChecked y).Ends a ↔ y = .ok a := by
  cases y with
  | error e => exact ⟨nofun, nofun⟩
  | ok c =>
    constructor
    · rintro ⟨fuel, come⟩
      cases come
      rfl
    · rintro ⟨⟩
      exact ⟨0, rfl⟩

theorem ends_pure : (pure a : Looping α).Ends b ↔ b = a := by
  refine ends_ofChecked.trans ⟨?_, ?_⟩
  · rintro ⟨⟩
    rfl
  · rintro rfl
    rfl

theorem not_forever_ofChecked (y : Checked α) : ¬ (ofChecked y).Forever := by
  intro forever
  cases y with
  | error e => cases forever 0
  | ok c => cases forever 0

theorem not_forever_pure (a : α) : ¬ (pure a : Looping α).Forever :=
  not_forever_ofChecked _

section

variable {f : α → Looping β} {c : β}

theorem run_bind (x : Looping α) (f : α → Looping β) : (x >>= f).run = bindRun x f :=
  rfl

theorem bindRun_some {fuel : Nat} (come : x.run fuel = .ok (some a)) :
    bindRun x f fuel = (f a).run fuel := by
  unfold bindRun
  rw [come]
  rfl

theorem ends_bind : (x >>= f).Ends c ↔ ∃ a, x.Ends a ∧ (f a).Ends c := by
  constructor
  · rintro ⟨fuel, come⟩
    rw [run_bind] at come
    cases first : x.run fuel with
    | error e =>
      rw [bindRun, first] at come
      cases come
    | ok r =>
      cases r with
      | none =>
        rw [bindRun, first] at come
        cases come
      | some a => exact ⟨a, ⟨fuel, first⟩, fuel, (bindRun_some first).symm.trans come⟩
  · rintro ⟨a, ⟨fuel, first⟩, fuel', second⟩
    have first := run_le (Nat.le_max_left fuel fuel') first nofun
    have second := run_le (Nat.le_max_right fuel fuel') second nofun
    exact ⟨max fuel fuel', (bindRun_some first).trans second⟩

/-- A sequence goes on for ever in its first part or in its second. -/
theorem forever_bind : (x >>= f).Forever ↔ x.Forever ∨ ∃ a, x.Ends a ∧ (f a).Forever := by
  constructor
  · intro forever
    rcases outcome x with first | ⟨a, fuel, first⟩ | ⟨e, fuel, first⟩
    · exact .inl first
    · refine .inr ⟨a, ⟨fuel, first⟩, fun fuel' => ?_⟩
      by_contra something
      have later := run_le (Nat.le_max_right fuel fuel') rfl something
      rw [← bindRun_some (f := f) (run_le (Nat.le_max_left fuel fuel') first nofun)] at later
      exact something (later.symm.trans (forever _))
    · have whole := forever fuel
      rw [run_bind, bindRun, first] at whole
      cases whole
  · rintro (first | ⟨a, first, second⟩) fuel
    · rw [run_bind, bindRun, first fuel]
      rfl
    · rcases outcome (x >>= f) with forever | ⟨c, ended⟩ | ⟨e, fuel', failed⟩
      · exact forever fuel
      · obtain ⟨a', first', second'⟩ := ends_bind.mp ended
        obtain rfl := first.unique first'
        exact absurd second second'.not_forever
      · obtain ⟨fuel'', first⟩ := first
        have failed := run_le (Nat.le_max_left fuel' fuel'') failed nofun
        have first := run_le (Nat.le_max_right fuel' fuel'') first nofun
        rw [run_bind, bindRun_some first, second] at failed
        cases failed

theorem forever_ofChecked_bind {y : Checked α} :
    (ofChecked y >>= f).Forever ↔ ∃ a, y = .ok a ∧ (f a).Forever := by
  refine forever_bind.trans ⟨?_, ?_⟩
  · rintro (forever | ⟨a, ended, forever⟩)
    · exact absurd forever (not_forever_ofChecked y)
    · exact ⟨a, ends_ofChecked.mp ended, forever⟩
  · rintro ⟨a, returned, forever⟩
    exact .inr ⟨a, ends_ofChecked.mpr returned, forever⟩

theorem forever_bind_ofChecked {h : α → Checked β} :
    (x >>= fun a => ofChecked (h a)).Forever ↔ x.Forever := by
  refine forever_bind.trans ⟨?_, .inl⟩
  rintro (forever | ⟨a, -, forever⟩)
  · exact forever
  · exact absurd forever (not_forever_ofChecked _)

theorem forever_bind_pure {h : α → β} : (x >>= fun a => pure (h a)).Forever ↔ x.Forever :=
  forever_bind_ofChecked

end

/-! ### Loops -/

section

variable {turn : σ → Checked (Bool × σ)} {s s' : σ}

/-- The first turn of a loop that goes on for ever is followed by such a loop. -/
theorem forever_loop : (loop turn s).Forever ↔
    ∃ s', turn s = .ok (true, s') ∧ (loop turn s').Forever := by
  constructor
  · intro forever
    have first := forever 1
    change turns turn 1 s = _ at first
    rw [turns] at first
    cases once : turn s with
    | error e =>
      rw [once] at first
      cases first
    | ok r =>
      obtain ⟨more, s₁⟩ := r
      rw [once] at first
      cases more with
      | false => cases first
      | true =>
        refine ⟨s₁, rfl, fun fuel => ?_⟩
        have later := forever (fuel + 1)
        change turns turn (fuel + 1) s = _ at later
        rw [turns, once] at later
        exact later
  · rintro ⟨s₁, once, forever⟩ fuel
    change turns turn fuel s = _
    cases fuel with
    | zero => rfl
    | succ fuel =>
      rw [turns, once]
      exact forever fuel

/-- A loop whose turns all lead to another goes on for ever. -/
theorem Forever.loop {I : σ → Prop} (start : I s)
    (again : ∀ s, I s → ∃ s', turn s = .ok (true, s') ∧ I s') : (loop turn s).Forever := by
  intro fuel
  change turns turn fuel s = _
  induction fuel generalizing s with
  | zero => rfl
  | succ fuel ih =>
    obtain ⟨s₁, once, kept⟩ := again s start
    rw [turns, once]
    exact ih kept

/-- A loop that comes closer to its end with every turn ends. -/
theorem not_forever_loop {I : σ → Prop} (measure : σ → Nat) (start : I s)
    (down : ∀ s s', I s → turn s = .ok (true, s') → I s' ∧ measure s' < measure s) :
    ¬ (loop turn s).Forever := by
  intro forever
  induction distance : measure s using Nat.strongRecOn generalizing s with
  | ind n ih =>
    subst distance
    obtain ⟨s₁, once, later⟩ := forever_loop.mp forever
    obtain ⟨kept, closer⟩ := down s s₁ start once
    exact ih (measure s₁) closer kept later rfl

end

/-! ### What holds of the value -/

/-- `x` panics only where `c` fails, and a value it returns satisfies `p`. -/
def Guards (c : Prop) (x : Looping α) (p : α → Prop) : Prop :=
  ∀ fuel, Guarded c (x.run fuel) fun r => ∀ a, r = some a → p a

namespace Guards

variable {c : Prop} {p q : α → Prop}

theorem ofChecked {y : Checked α} (h : Guarded c y p) : Guards c (ofChecked y) p := by
  intro fuel
  cases y with
  | error e => exact h
  | ok a =>
    rintro b ⟨⟩
    exact h

theorem pure {a : α} (h : p a) : Guards c (Pure.pure a : Looping α) p :=
  ofChecked (.ok h)

theorem mono (h : Guards c x p) (imp : ∀ a, p a → q a) : Guards c x q :=
  fun fuel => (h fuel).mono fun _ holds a come => imp a (holds a come)

theorem bind {f : α → Looping β} {r : β → Prop} (h : Guards c x p)
    (rest : ∀ a, p a → Guards c (f a) r) : Guards c (x >>= f) r := by
  intro fuel
  rw [run_bind]
  refine (h fuel).bind fun come holds => ?_
  cases come with
  | none => exact .pure nofun
  | some a => exact rest a (holds a rfl) fuel

/-- What a loop keeps, and what its last turn makes of it. -/
theorem loop {turn : σ → Checked (Bool × σ)} {s : σ} {I J : σ → Prop} (start : I s)
    (step : ∀ s, I s → Guarded c (turn s) fun r => if r.1 then I r.2 else J r.2) :
    Guards c (Looping.loop turn s) J := by
  intro fuel
  change Guarded c (turns turn fuel s) _
  induction fuel generalizing s with
  | zero => exact .pure nofun
  | succ fuel ih =>
    rw [turns]
    refine (step s start).bind fun (again, s₁) kept => ?_
    cases again with
    | true => exact ih kept
    | false =>
      refine .pure ?_
      rintro s' ⟨⟩
      exact kept

theorem ends (h : Guards c x p) {a : α} (ended : x.Ends a) : p a := by
  obtain ⟨fuel, come⟩ := ended
  exact (h fuel).of_eq_ok come a rfl

theorem not_fails (h : Guards c x p) (holds : c) (e : Panic) : ¬ x.Fails e := by
  rintro ⟨fuel, come⟩
  have guarded := h fuel
  rw [come] at guarded
  exact guarded holds

end Guards

end Looping

end Posh.Lib
