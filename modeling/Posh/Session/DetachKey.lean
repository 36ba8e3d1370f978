import Posh.Lib.Occurrence
import Posh.Session.Attach

/-!
The detach key in the stream of keys.

What the matcher forwards lies in front of places where no detach key can begin any more,
whatever is read next; so it finds the leftmost key wherever the stream is cut.
-/

namespace Posh.Session

open Posh.Lib

/-- The byte and the kitty sequences that detach. -/
def detachKeys : List Bytes :=
  [0x1C] :: KITTY_DETACH_SEQS

/-- What may be held back: a kitty sequence lacks something yet. -/
def Unfinished (s : Bytes) : Prop :=
  ∃ seq ∈ KITTY_DETACH_SEQS, s <+: seq ∧ s ≠ seq

theorem head_detachKeys : ∀ key ∈ detachKeys, key.head? = some 0x1C ∨ key.head? = some 0x1B := by
  decide

/-- A byte that begins no key. -/
theorem dead_cons {b : UInt8} {rest : Bytes} (raw : b ≠ 0x1C) (esc : b ≠ 0x1B) :
    Dead detachKeys (b :: rest) := by
  intro key mem
  have head := head_detachKeys key mem
  cases key with
  | nil => simp at head
  | cons k key =>
    simp only [List.head?_cons, Option.some.injEq] at head
    constructor
    · rintro begins
      rw [(List.cons_prefix_cons.mp begins).1] at head
      exact head.elim raw esc
    · rintro begins
      rw [← (List.cons_prefix_cons.mp begins).1] at head
      exact head.elim raw esc

/-- What the matcher says of the bytes from an escape on. -/
theorem matchKittyDetach_spec (rest : Bytes) :
    (matchKittyDetach (0x1B :: rest) = .full ∧ Begins detachKeys (0x1B :: rest)) ∨
      (matchKittyDetach (0x1B :: rest) = .part ∧ Unfinished (0x1B :: rest)) ∨
      (matchKittyDetach (0x1B :: rest) = .no ∧ Dead detachKeys (0x1B :: rest)) := by
  have raw : ¬ [0x1C] <+: (0x1B :: rest) ∧ ¬ (0x1B :: rest) <+: [0x1C] := by
    simp [List.cons_prefix_cons]
  unfold matchKittyDetach
  by_cases full : (KITTY_DETACH_SEQS.any fun seq => seq.isPrefixOf (0x1B :: rest)) = true
  · rw [if_pos full]
    obtain ⟨seq, mem, begins⟩ := List.any_eq_true.mp full
    exact .inl ⟨rfl, seq, List.mem_cons_of_mem _ mem, List.isPrefixOf_iff_prefix.mp begins⟩
  · rw [if_neg full]
    have none : ∀ seq ∈ KITTY_DETACH_SEQS, ¬ seq <+: (0x1B :: rest) := fun seq mem begins =>
      full (List.any_eq_true.mpr ⟨seq, mem, List.isPrefixOf_iff_prefix.mpr begins⟩)
    right
    split
    · rename_i part
      obtain ⟨seq, mem, short⟩ := List.any_eq_true.mp part
      rw [Bool.and_eq_true, decide_eq_true_iff] at short
      refine .inl ⟨rfl, seq, mem, List.isPrefixOf_iff_prefix.mp short.2, ?_⟩
      intro same
      rw [same] at short
      exact absurd short.1 (Nat.lt_irrefl _)
    · rename_i long
      refine .inr ⟨rfl, ?_⟩
      intro key mem
      rcases List.mem_cons.mp mem with rfl | mem
      · exact raw
      · refine ⟨none key mem, fun begins => ?_⟩
        by_cases short : (0x1B :: rest).length < key.length
        · refine long (List.any_eq_true.mpr ⟨key, mem, ?_⟩)
          rw [Bool.and_eq_true, decide_eq_true_iff]
          exact ⟨short, List.isPrefixOf_iff_prefix.mpr begins⟩
        · have same := begins.eq_of_length_le (Nat.not_lt.mp short)
          exact none key mem (same ▸ List.prefix_refl _)

/-- Inside an unfinished kitty sequence no key begins. -/
theorem not_begins_unfinished {s : Bytes} (unfinished : Unfinished s) (i : Nat) :
    ¬ Begins detachKeys (s.drop i) := by
  obtain ⟨seq, mem, begins, short⟩ := unfinished
  obtain ⟨n, lt, rfl⟩ : ∃ n, n < seq.length ∧ s = seq.take n := by
    refine ⟨s.length, ?_, List.prefix_iff_eq_take.mp begins⟩
    exact Nat.lt_of_le_of_ne begins.length_le fun same => short (begins.eq_of_length same)
  have all : ∀ seq ∈ KITTY_DETACH_SEQS, ∀ n < seq.length, ∀ i < seq.length, ∀ key ∈ detachKeys,
      ¬ key <+: (seq.take n).drop i := by decide
  rintro ⟨key, mem', begins⟩
  by_cases inside : i < seq.length
  · exact all seq mem n lt i inside key mem' begins
  · rw [List.drop_eq_nil_of_le (by rw [List.length_take]; omega)] at begins
    have empty := List.prefix_nil.mp begins
    rw [empty] at mem'
    exact absurd mem' (by decide)

namespace DetachMatcher

/-- The outcome of a scan: what is forwarded lies in front of dead places, and what follows it is
a key or is held back. -/
structure Scan.Splits (data : Bytes) (r : Scan) : Prop where
  dead : DeadUpTo detachKeys r.forward.length data
  stops : ∃ behind, data = r.forward ++ behind ∧
    (r.detached = true ∧ r.carry = [] ∧ Begins detachKeys behind ∨
      r.detached = false ∧ r.carry = behind ∧ Unfinished behind)

theorem Scan.Splits.pass {b : UInt8} {rest : Bytes} {r : Scan} (h : Scan.Splits rest r)
    (first : Dead detachKeys (b :: rest)) :
    Scan.Splits (b :: rest) { r with forward := b :: r.forward } where
  dead := h.dead.cons first
  stops := by
    obtain ⟨behind, parts, outcome⟩ := h.stops
    exact ⟨behind, congrArg (b :: ·) parts, outcome⟩

theorem deadUpTo_zero (data : Bytes) : DeadUpTo detachKeys 0 data :=
  fun i lt => absurd lt (Nat.not_lt_zero i)

theorem scan_splits (data : Bytes) : Scan.Splits data (scan data) := by
  induction data with
  | nil =>
    refine ⟨deadUpTo_zero [], [], rfl, .inr ⟨rfl, rfl, ?_⟩⟩
    exact ⟨_, List.mem_cons_self, List.nil_prefix, by decide⟩
  | cons b rest ih =>
    unfold scan
    dsimp only
    by_cases raw : b = 0x1C
    · rw [if_pos raw, raw]
      refine ⟨deadUpTo_zero _, _, rfl, .inl ⟨rfl, rfl, ?_⟩⟩
      exact ⟨[0x1C], List.mem_cons_self, rest, rfl⟩
    · rw [if_neg raw]
      by_cases esc : b = 0x1B
      · rw [if_pos esc]
        subst esc
        rcases matchKittyDetach_spec rest with
          ⟨outcome, begins⟩ | ⟨outcome, unfinished⟩ | ⟨outcome, dead⟩
        · rw [outcome]
          exact ⟨deadUpTo_zero _, _, rfl, .inl ⟨rfl, rfl, begins⟩⟩
        · rw [outcome]
          exact ⟨deadUpTo_zero _, _, rfl, .inr ⟨rfl, rfl, unfinished⟩⟩
        · rw [outcome]
          exact ih.pass dead
      · rw [if_neg esc]
        exact ih.pass (dead_cons raw esc)

/-- The matcher fed with a stream in pieces, until it reports a detach: everything read,
everything forwarded, and whether the last call reported one. -/
inductive Feeds : (stream forwarded : Bytes) → DetachMatcher → Bool → Prop
  | start : Feeds [] [] {} false
  | feed {stream forwarded : Bytes} {m : DetachMatcher} (before : Feeds stream forwarded m false)
      (chunk : Bytes) :
      Feeds (stream ++ chunk) (forwarded ++ (m.feed chunk).forward) ⟨(m.feed chunk).carry⟩
        (m.feed chunk).detached

namespace Feeds

variable {stream forwarded : Bytes} {m : DetachMatcher} {detached : Bool}

/-- The invariant: a run is one scan of everything that has been read. -/
theorem splits (h : Feeds stream forwarded m detached) :
    Scan.Splits stream ⟨forwarded, detached, m.carry⟩ := by
  induction h with
  | start => exact scan_splits []
  | @feed stream forwarded m before chunk ih =>
    obtain ⟨dead, behind, parts, outcome⟩ := ih
    rcases outcome with ⟨reported, -⟩ | ⟨-, carried, -⟩
    · cases reported
    · dsimp only at dead parts carried
      obtain ⟨later, rest, split, outcome⟩ := scan_splits (m.carry ++ chunk)
      have joined : stream ++ chunk = forwarded ++ (m.carry ++ chunk) := by
        rw [parts, carried, List.append_assoc]
      have extended := dead.append (t := chunk) (by rw [parts, List.length_append]; omega)
      rw [joined] at extended ⊢
      refine ⟨?_, rest, ?_, outcome⟩
      · rw [List.length_append]
        exact extended.cut later
      · rw [List.append_assoc]
        exact congrArg (forwarded ++ ·) split

/-- A detach is reported exactly if the stream holds a detach key. What is forwarded then lies
before the leftmost, and otherwise only an unfinished kitty sequence is held back. -/
theorem detach_leftmost (h : Feeds stream forwarded m detached) :
    (detached = true ↔ ∃ key ∈ detachKeys, key <:+: stream) ∧
      (detached = true → ∃ i, IsLeast {i | Begins detachKeys (stream.drop i)} i ∧
        forwarded = stream.take i) ∧
      (detached = false → forwarded ++ m.carry = stream ∧ Unfinished m.carry) := by
  obtain ⟨dead, behind, parts, outcome⟩ := h.splits
  dsimp only at dead parts outcome
  rcases outcome with ⟨rfl, -, begins⟩ | ⟨rfl, rfl, unfinished⟩
  · have there : Begins detachKeys (stream.drop forwarded.length) := by
      rw [parts, List.drop_left' rfl]
      exact begins
    refine ⟨iff_of_true rfl (infix_iff_begins.mpr ⟨_, there⟩), fun _ => ?_,
      fun no => absurd no.symm Bool.false_ne_true⟩
    refine ⟨forwarded.length, dead.least there, ?_⟩
    rw [parts, List.take_left' rfl]
  · refine ⟨iff_of_false Bool.false_ne_true ?_, fun no => absurd no Bool.false_ne_true,
      fun _ => ⟨parts.symm, unfinished⟩⟩
    rintro occurs
    obtain ⟨i, begins⟩ := infix_iff_begins.mp occurs
    by_cases before : i < forwarded.length
    · exact (dead i before).not_begins begins
    · refine not_begins_unfinished unfinished (i - forwarded.length) ?_
      have place : stream.drop i = m.carry.drop (i - forwarded.length) := by
        rw [parts, List.drop_append, List.drop_eq_nil_of_le (Nat.not_lt.mp before),
          List.nil_append]
      exact place ▸ begins

/-- A kitty sequence cut in two behind an escape that begins none. -/
theorem detach_leftmost_cut : ∃ m, Feeds [0x61, 0x1B, 0x1B, 0x5B, 0x39, 0x32, 0x3B, 0x35, 0x75]
    [0x61, 0x1B] m true ∧
    ∃ key ∈ detachKeys, key <:+: [0x61, 0x1B, 0x1B, 0x5B, 0x39, 0x32, 0x3B, 0x35, 0x75] := by
  have first : Feeds [0x61, 0x1B, 0x1B, 0x5B] [0x61, 0x1B] ⟨[0x1B, 0x5B]⟩ false :=
    .feed .start [0x61, 0x1B, 0x1B, 0x5B]
  have second := first.feed [0x39, 0x32, 0x3B, 0x35, 0x75]
  exact ⟨_, second, (detach_leftmost second).1.mp rfl⟩

end Feeds

end DetachMatcher

end Posh.Session
