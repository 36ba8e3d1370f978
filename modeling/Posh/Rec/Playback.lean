import Posh.Rec.Player
import Posh.Term.Silent

/-!
What the player does of a recording.

The events of a recording are a list of cues: the bytes of the output and the resizes
between them. Stepped to the end, the player's terminal has gone through all of them in
order, however the steps cut the output.
-/

namespace Posh.Rec

open Posh.Lib Posh.Term

/-- One byte of the output, or a resize. -/
inductive Cue where
  | byte (b : UInt8)
  | size (cols rows : Nat)
deriving DecidableEq, Repr

namespace Cue

def run (files : Files) : Cue → Terminal → Checked Terminal
  | byte b, t => t.processByte files b
  | size cols rows, t => t.resize rows cols

/-- The output of cues. -/
def flat : List Cue → Bytes
  | [] => []
  | byte b :: cues => b :: flat cues
  | size _ _ :: cues => flat cues

/-- The resizes among cues whose output begins at `offset`. -/
def anchors : (offset : Nat) → List Cue → List (Nat × Nat × Nat)
  | _, [] => []
  | offset, byte _ :: cues => anchors (offset + 1) cues
  | offset, size cols rows :: cues => (offset, cols, rows) :: anchors offset cues

theorem run_silent (files : Files) (cue : Cue) {t u : Terminal} (same : t.silent = u.silent) :
    Paired (fun t u => t.silent = u.silent) (cue.run files t) (cue.run files u) := by
  cases cue with
  | byte b => exact Terminal.paired_of_alike (fun _ t => Terminal.processByte_alike files b t) same
  | size cols rows => exact Terminal.paired_of_alike (fun _ t => Terminal.resize_alike rows cols t) same

theorem flat_append (cues cues' : List Cue) : flat (cues ++ cues') = flat cues ++ flat cues' := by
  induction cues with
  | nil => rfl
  | cons cue cues ih =>
    cases cue with
    | byte b => exact congrArg (b :: ·) ih
    | size cols rows => exact ih

theorem flat_bytes (bytes : Bytes) : flat (bytes.map .byte) = bytes := by
  induction bytes with
  | nil => rfl
  | cons b bytes ih => exact congrArg (b :: ·) ih

theorem anchors_append (offset : Nat) (cues cues' : List Cue) :
    anchors offset (cues ++ cues') =
      anchors offset cues ++ anchors (offset + (flat cues).length) cues' := by
  induction cues generalizing offset with
  | nil => rfl
  | cons cue cues ih =>
    cases cue with
    | byte b =>
      have next := ih (offset + 1)
      rw [Nat.add_assoc, Nat.add_comm 1] at next
      exact next
    | size cols rows => exact congrArg ((offset, cols, rows) :: ·) (ih offset)

theorem anchors_bytes (offset : Nat) (bytes : Bytes) : anchors offset (bytes.map .byte) = [] := by
  induction bytes generalizing offset with
  | nil => rfl
  | cons b bytes ih => exact ih (offset + 1)

/-- Without output every cue has its anchor. -/
theorem length_anchors {cues : List Cue} (still : flat cues = []) (offset : Nat) :
    (anchors offset cues).length = cues.length := by
  induction cues with
  | nil => rfl
  | cons cue cues ih =>
    cases cue with
    | byte b => cases still
    | size cols rows => exact congrArg (· + 1) (ih still)

/-- Bytes are processed one by one. -/
theorem run_bytes (files : Files) (bytes : Bytes) (t : Terminal) :
    forEach (bytes.map byte) t (fun cue t => cue.run files t) = t.process files bytes := by
  induction bytes generalizing t with
  | nil => rfl
  | cons b bytes ih => exact congrArg _ (funext ih)

theorem le_of_mem_anchors {offset : Nat} {cues : List Cue} {anchor : Nat × Nat × Nat}
    (mem : anchor ∈ anchors offset cues) : offset ≤ anchor.1 := by
  induction cues generalizing offset with
  | nil => cases mem
  | cons cue cues ih =>
    cases cue with
    | byte b => exact Nat.le_of_succ_le (ih mem)
    | size cols rows =>
      rcases List.mem_cons.mp mem with rfl | mem
      · exact Nat.le_refl _
      · exact ih mem

end Cue

/-- Every `o` event begins within the output. -/
def Track.Within {F : Type} (track : Track F) : Prop :=
  ∀ w ∈ track.writes, w ≤ track.flat.length

namespace Player

variable {F : Type} {files : Files} {p : Player F} {cues : List Cue} {t : Terminal}

/-- The player has the cues before it, and its terminal is `t` but for the replies. -/
structure Holds (p : Player F) (cues : List Cue) (t : Terminal) : Prop where
  term : p.term.silent = t.silent
  within : p.cursor ≤ p.track.flat.length
  flat : p.track.flat.drop p.cursor = Cue.flat cues
  resizes : p.track.resizes.drop p.nextResize = Cue.anchors p.cursor cues

/-- Cues that do not begin with a resize. -/
def Settled (cues : List Cue) : Prop :=
  ∀ cols rows rest, cues ≠ .size cols rows :: rest

theorem settled_nil : Settled [] := by
  rintro _ _ _ ⟨⟩

theorem settled_byte {b : UInt8} {cues : List Cue} : Settled (.byte b :: cues) := by
  rintro _ _ _ ⟨⟩

/-- The cues before the first byte. -/
theorem exists_settled (cues : List Cue) :
    ∃ sizes rest, cues = sizes ++ rest ∧ Cue.flat sizes = [] ∧ Settled rest := by
  induction cues with
  | nil => exact ⟨[], [], rfl, rfl, settled_nil⟩
  | cons cue cues ih =>
    cases cue with
    | byte b => exact ⟨[], _, rfl, rfl, settled_byte⟩
    | size cols rows =>
      obtain ⟨sizes, rest, rfl, still, settled⟩ := ih
      exact ⟨.size cols rows :: sizes, rest, rfl, still, settled⟩

/-- The resizes at the cursor are gone through. -/
theorem applyLoop_spec {sizes rest : List Cue} (h : p.Holds (sizes ++ rest) t)
    (still : Cue.flat sizes = []) (settled : Settled rest) {fuel : Nat}
    (enough : sizes.length ≤ fuel) :
    Paired (fun p' t' => p'.Holds rest t' ∧ p'.cursor = p.cursor ∧ p'.track = p.track)
      (p.applyLoop p.cursor fuel) (forEach sizes t fun cue t => cue.run files t) := by
  induction sizes generalizing p t fuel with
  | nil =>
    have stays : p.applyLoop p.cursor fuel = .ok p := by
      cases fuel with
      | zero => rfl
      | succ fuel =>
        rw [applyLoop]
        cases anchored : p.track.resizes[p.nextResize]? with
        | none => rfl
        | some anchor =>
          have mem : anchor ∈ Cue.anchors p.cursor rest := by
            have := h.resizes
            change _ = Cue.anchors p.cursor rest at this
            rw [← this]
            exact List.mem_of_getElem? (by rw [List.getElem?_drop, Nat.add_zero]; exact anchored)
          have beyond : p.cursor + 1 ≤ anchor.1 := by
            cases rest with
            | nil => cases mem
            | cons cue rest =>
              cases cue with
              | byte b => exact Cue.le_of_mem_anchors mem
              | size cols rows => exact absurd rfl (settled cols rows rest)
          dsimp only
          rw [if_neg (by omega)]
          rfl
    rw [stays]
    exact .ok ⟨h, rfl, rfl⟩
  | cons cue sizes ih =>
    cases cue with
    | byte b => cases still
    | size cols rows =>
      cases fuel with
      | zero => cases enough
      | succ fuel =>
        have anchored : p.track.resizes[p.nextResize]? = some (p.cursor, cols, rows) := by
          have := congrArg (·[0]?) h.resizes
          rwa [List.getElem?_drop, Nat.add_zero] at this
        have later : p.track.resizes.drop (p.nextResize + 1) = Cue.anchors p.cursor (sizes ++ rest) := by
          have := congrArg (List.drop 1) h.resizes
          rwa [List.drop_drop] at this
        rw [applyLoop, anchored]
        dsimp only
        rw [if_pos (Nat.le_refl _)]
        refine (Cue.run_silent files (.size cols rows) h.term).bind fun term t' same => ?_
        have held : Holds { p with term, nextResize := p.nextResize + 1 } (sizes ++ rest) t' :=
          ⟨same, h.within, h.flat, later⟩
        exact ih held still (Nat.le_of_succ_le_succ enough)

theorem applyResizesThrough_spec {sizes rest : List Cue} (h : p.Holds (sizes ++ rest) t)
    (still : Cue.flat sizes = []) (settled : Settled rest) :
    Paired (fun p' t' => p'.Holds rest t' ∧ p'.cursor = p.cursor ∧ p'.track = p.track)
      (p.applyResizesThrough p.cursor) (forEach sizes t fun cue t => cue.run files t) := by
  refine applyLoop_spec h still settled ?_
  have anchored := congrArg List.length h.resizes
  rw [List.length_drop, Cue.anchors_append, List.length_append, Cue.length_anchors still] at anchored
  omega

/-- A byte is fed after the resizes before it. -/
theorem feedByte_spec {sizes rest : List Cue} {b : UInt8}
    (h : p.Holds (sizes ++ .byte b :: rest) t) (still : Cue.flat sizes = []) :
    Paired (fun r t' => r.1 = true ∧ r.2.Holds rest t' ∧ r.2.cursor = p.cursor + 1 ∧
        r.2.track = p.track)
      (p.feedByte files) (forEach (sizes ++ [.byte b]) t fun cue t => cue.run files t) := by
  have more : p.cursor < p.track.flat.length := by
    have length := congrArg List.length h.flat
    rw [Cue.flat_append, still, List.length_drop] at length
    change _ = (Cue.flat rest).length + 1 at length
    omega
  unfold feedByte
  rw [if_neg (Nat.not_le.mpr more), forEach_append]
  refine (applyResizesThrough_spec h still settled_byte).bind fun p' t' ⟨h', cursor, track⟩ => ?_
  rw [← cursor, ← track] at more ⊢
  have here : p'.track.flat[p'.cursor]? = some b := by
    have := congrArg (·[0]?) h'.flat
    rwa [List.getElem?_drop, Nat.add_zero] at this
  have later : p'.track.flat.drop (p'.cursor + 1) = Cue.flat rest := by
    have := congrArg (List.drop 1) h'.flat
    rwa [List.drop_drop] at this
  have at_ : getAt p'.track.flat p'.cursor = .ok b := by
    rw [getAt_eq_ok more]
    rw [List.getElem?_eq_getElem more] at here
    exact congrArg Except.ok (Option.some.inj here)
  have one : p'.term.process files [b] = p'.term.processByte files b := bind_pure _
  rw [at_]
  change Paired _ (p'.term.process files [b] >>= _) (t'.processByte files b >>= _)
  rw [one]
  refine (Cue.run_silent files (.byte b) h'.term).bind fun term t'' same => ?_
  exact .ok ⟨rfl, ⟨same, more, later, h'.resizes⟩, rfl, rfl⟩

/-- Cues that do not end with a resize. -/
def Crossed (cues : List Cue) : Prop :=
  ∀ init cols rows, cues ≠ init ++ [.size cols rows]

theorem Crossed.of_append {cues rest : List Cue} (crossed : Crossed (cues ++ rest)) : Crossed rest := by
  rintro init cols rows rfl
  exact crossed (cues ++ init) cols rows (List.append_assoc cues init _).symm

theorem Crossed.concat (front : List Cue) (b : UInt8) : Crossed (front ++ [.byte b]) := by
  intro init cols rows same
  cases List.append_inj_right' same rfl

theorem Crossed.eq_nil {cues : List Cue} (crossed : Crossed cues) (still : Cue.flat cues = []) :
    cues = [] := by
  rcases List.eq_nil_or_concat cues with empty | ⟨init, cue, rfl⟩
  · exact empty
  · cases cue with
    | byte b =>
      rw [List.concat_eq_append, Cue.flat_append] at still
      cases (List.append_eq_nil_iff.mp still).2
    | size cols rows => exact absurd List.concat_eq_append (crossed init cols rows)

/-- The player is fed the bytes before `target` and the resizes before any of them. -/
theorem feedLoop_spec (files : Files) {rest : List Cue} (h : p.Holds (cues ++ rest) t)
    (crossed : Crossed cues) {target fuel : Nat} (bytes : (Cue.flat cues).length = fuel)
    (count : p.cursor + fuel = target) :
    Paired (fun p' t' => p'.Holds rest t' ∧ p'.track = p.track)
      (p.feedLoop files target fuel) (forEach cues t fun cue t => cue.run files t) := by
  induction fuel generalizing p cues t with
  | zero =>
    obtain rfl := crossed.eq_nil (List.length_eq_zero_iff.mp bytes)
    exact .ok ⟨h, rfl⟩
  | succ fuel ih =>
    obtain ⟨sizes, more, rfl, still, settled⟩ := exists_settled cues
    rw [Cue.flat_append, still, List.nil_append] at bytes
    cases more with
    | nil => cases bytes
    | cons cue more =>
      cases cue with
      | size cols rows => exact absurd rfl (settled cols rows more)
      | byte b =>
        have held : p.Holds (sizes ++ .byte b :: (more ++ rest)) t := by
          rwa [List.append_assoc] at h
        rw [feedLoop, if_pos (by omega), List.append_cons, forEach_append]
        refine (feedByte_spec held still).bind fun (fed, p') t' ⟨taken, h', cursor, track⟩ => ?_
        obtain rfl : fed = true := taken
        rw [← track]
        rw [List.append_cons] at crossed
        exact ih h' crossed.of_append (Nat.succ.inj bytes) (by change p'.cursor = _ at cursor; omega)

/-- Where no output follows, the resizes that follow are gone through as well. -/
theorem feedUntil_spec (files : Files) {rest : List Cue} (h : p.Holds (cues ++ rest) t)
    (crossed : Crossed cues) {target : Nat} (count : p.cursor + (Cue.flat cues).length = target) :
    Paired (fun p' t' => p'.term.silent = t'.silent) (p.feedUntil files target)
      (forEach (if Cue.flat rest = [] then cues ++ rest else cues) t fun cue t => cue.run files t) := by
  have fuel : target - p.cursor = (Cue.flat cues).length := by omega
  unfold feedUntil
  rw [fuel]
  have fed := feedLoop_spec files h crossed rfl count
  by_cases still : Cue.flat rest = []
  · rw [if_pos still, forEach_append]
    refine fed.bind fun p' t' ⟨h', _⟩ => ?_
    have ended : p'.track.flat.length = p'.cursor := by
      have length := congrArg List.length h'.flat
      rw [List.length_drop, still, List.length_nil] at length
      have within := h'.within
      omega
    rw [← List.append_nil rest] at h'
    have done : p'.atEnd = true := decide_eq_true (Nat.le_of_eq ended)
    rw [flushTrailingResizes, if_pos done, ended]
    exact (applyResizesThrough_spec h' still settled_nil).mono fun p'' t'' held => held.1.term
  · rw [if_neg still]
    have flushed := fed.bind (f := fun p' => p'.flushTrailingResizes) (g := fun t' => pure t')
      (S := fun p' t' => p'.term.silent = t'.silent) fun p' t' ⟨h', _⟩ => by
        have going : ¬ p'.atEnd = true := by
          intro ended
          have none : p'.track.flat.drop p'.cursor = [] :=
            List.drop_of_length_le (by simpa [atEnd] using ended)
          exact still (h'.flat.symm.trans none)
        rw [flushTrailingResizes, if_neg going]
        exact .ok h'.term
    rwa [bind_pure] at flushed

section

variable {α : Type} {S : α → Terminal → Prop}

theorem applyResizesThrough_then {k : Player F → Checked α} (h : p.Holds cues t)
    (next : ∀ p' cues' t', Holds p' cues' t' → Settled cues' → p'.cursor = p.cursor →
      p'.track = p.track → Paired S (k p') (forEach cues' t' fun cue t => cue.run files t)) :
    Paired S (p.applyResizesThrough p.cursor >>= k) (forEach cues t fun cue t => cue.run files t) := by
  obtain ⟨sizes, rest, rfl, still, settled⟩ := exists_settled cues
  rw [forEach_append]
  refine (applyResizesThrough_spec h still settled).bind fun p' t' ⟨h', cursor, track⟩ => ?_
  exact next p' rest t' h' settled cursor track

theorem feedByte_then {k : Bool × Player F → Checked α} (h : p.Holds cues t)
    (more : p.cursor < p.track.flat.length)
    (next : ∀ p' cues' t', Holds p' cues' t' → p'.cursor = p.cursor + 1 → p'.track = p.track →
      Paired S (k (true, p')) (forEach cues' t' fun cue t => cue.run files t)) :
    Paired S (p.feedByte files >>= k) (forEach cues t fun cue t => cue.run files t) := by
  obtain ⟨sizes, rest, rfl, still, settled⟩ := exists_settled cues
  cases rest with
  | nil =>
    have short := congrArg List.length h.flat
    rw [List.length_drop, List.append_nil, still] at short
    change _ = 0 at short
    omega
  | cons cue rest =>
    cases cue with
    | size cols rows => exact absurd rfl (settled cols rows rest)
    | byte b =>
      rw [List.append_cons, forEach_append]
      refine (feedByte_spec h still).bind fun (fed, p') t' ⟨taken, h', cursor, track⟩ => ?_
      obtain rfl : fed = true := taken
      exact next p' rest t' h' cursor track

/-- The player is fed up to `target`. -/
theorem feedLoop_then {k : Player F → Checked α} (h : p.Holds cues t) {target fuel : Nat}
    (within : target ≤ p.track.flat.length) (count : p.cursor + fuel = target)
    (next : ∀ p' cues' t', Holds p' cues' t' → p'.cursor = target → p'.track = p.track →
      Paired S (k p') (forEach cues' t' fun cue t => cue.run files t)) :
    Paired S (p.feedLoop files target fuel >>= k) (forEach cues t fun cue t => cue.run files t) := by
  induction fuel generalizing p cues t with
  | zero => exact next p cues t h count rfl
  | succ fuel ih =>
    rw [feedLoop, if_pos (by omega), bind_assoc]
    refine feedByte_then h (by omega) fun p' cues' t' h' cursor track => ?_
    rw [← track] at within next
    exact ih h' within (by omega) next

/-- At the end, the resizes that are left are gone through. -/
theorem flushTrailingResizes_then {k : Player F → Checked α} (h : p.Holds cues t)
    (next : ∀ p' cues' t', Holds p' cues' t' → p'.cursor = p.cursor → p'.track = p.track →
      (p.atEnd = true → cues' = []) →
      Paired S (k p') (forEach cues' t' fun cue t => cue.run files t)) :
    Paired S (p.flushTrailingResizes >>= k) (forEach cues t fun cue t => cue.run files t) := by
  unfold flushTrailingResizes
  split
  · rename_i ended
    have all : p.cursor = p.track.flat.length :=
      Nat.le_antisymm h.within (by simpa [atEnd] using ended)
    rw [← all]
    refine applyResizesThrough_then h fun p' cues' t' h' settled cursor track => ?_
    refine next p' cues' t' h' cursor track fun _ => ?_
    have empty := h'.flat
    rw [cursor, track, all, List.drop_length] at empty
    cases cues' with
    | nil => rfl
    | cons cue cues' =>
      cases cue with
      | byte b => cases empty
      | size cols rows => exact absurd rfl (settled cols rows cues')
  · rename_i going
    exact next p cues t h rfl rfl fun ended => absurd ended going

theorem feedUntil_then {k : Player F → Checked α} (h : p.Holds cues t) {target : Nat}
    (within : target ≤ p.track.flat.length) (ahead : p.cursor ≤ target)
    (next : ∀ p' cues' t', Holds p' cues' t' → p'.cursor = target → p'.track = p.track →
      Paired S (k p') (forEach cues' t' fun cue t => cue.run files t)) :
    Paired S (p.feedUntil files target >>= k) (forEach cues t fun cue t => cue.run files t) := by
  unfold feedUntil
  rw [bind_assoc]
  refine feedLoop_then h within (by omega) fun p' cues' t' h' cursor track => ?_
  refine flushTrailingResizes_then h' fun p'' cues'' t'' h'' cursor' track' _ => ?_
  exact next p'' cues'' t'' h'' (cursor'.trans cursor) (track'.trans track)

/-- A step of a player before the end moves it on. -/
theorem stepWrite_then {k : Bool × Player F → Checked α} (h : p.Holds cues t)
    (writes : Track.Within p.track) (more : p.cursor < p.track.flat.length)
    (next : ∀ p' cues' t', Holds p' cues' t' → p.cursor < p'.cursor → p'.track = p.track →
      Paired S (k (true, p')) (forEach cues' t' fun cue t => cue.run files t)) :
    Paired S (p.stepWrite files >>= k) (forEach cues t fun cue t => cue.run files t) := by
  unfold stepWrite
  rw [if_neg (by simpa [atEnd] using more)]
  have target : p.cursor < (p.track.writes.find? (p.cursor < ·)).getD p.track.flat.length ∧
      (p.track.writes.find? (p.cursor < ·)).getD p.track.flat.length ≤ p.track.flat.length := by
    cases found : p.track.writes.find? (p.cursor < ·) with
    | none => exact ⟨more, Nat.le_refl _⟩
    | some w =>
      exact ⟨by simpa using List.find?_some found, writes w (List.mem_of_find?_eq_some found)⟩
  dsimp only
  rw [bind_assoc]
  refine feedUntil_then h target.2 (Nat.le_of_lt target.1) fun p' cues' t' h' cursor track => ?_
  exact next p' cues' t' h' (cursor.symm ▸ target.1) track

/-- Enough steps end at the end. -/
theorem stepLoop_then {k : Nat × Player F → Checked α} (h : p.Holds cues t)
    (writes : Track.Within p.track) {n taken : Nat} (enough : p.track.flat.length - p.cursor ≤ n)
    (next : ∀ taken p' cues' t', Holds p' cues' t' → p'.atEnd = true →
      Paired S (k (taken, p')) (forEach cues' t' fun cue t => cue.run files t)) :
    Paired S (stepLoop (stepWrite files) n taken p >>= k)
      (forEach cues t fun cue t => cue.run files t) := by
  induction n generalizing p cues t taken with
  | zero => exact next taken p cues t h (by simp [atEnd]; omega)
  | succ n ih =>
    rw [stepLoop, bind_assoc]
    by_cases more : p.cursor < p.track.flat.length
    · refine stepWrite_then h writes more fun p' cues' t' h' cursor track => ?_
      exact ih h' (track.symm ▸ writes) (by rw [track]; omega)
    · have ended : p.atEnd = true := by simp [atEnd]; omega
      have stays : p.stepWrite files = .ok (false, p) := if_pos ended
      rw [stays]
      exact next taken p cues t h ended

end

/-- Stepped to the end, the player has gone through all cues in order. -/
theorem stepToEnd_spec (h : p.Holds cues t) (writes : Track.Within p.track)
    (small : p.track.flat.length ≤ USIZE_MAX) :
    Paired (fun p t => p.term.silent = t.silent) (p.stepToEnd files)
      (forEach cues t fun cue t => cue.run files t) := by
  unfold stepToEnd stepWrites
  simp only [bind_assoc]
  refine stepLoop_then h writes (by omega) fun taken p' cues' t' h' ended => ?_
  refine flushTrailingResizes_then h' fun p'' cues'' t'' h'' _ _ done => ?_
  rw [done ended]
  exact .ok h''.term

end Player

end Posh.Rec
