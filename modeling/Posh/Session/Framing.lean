import Posh.Lib.Checked
import Posh.Session.Ipc
import Mathlib.Data.List.Infix

/-!
The frame buffer on whole streams.

The records of a stream arrive cut up in any way, and the reader may be asked at any time.
`Run.Between` says what it has given then: the known frames among the records that lie behind
its head. On a stream of any other form, `next_unread` says where it stops and why.
-/

namespace Posh.Session

open Posh.Lib

/-- The bytes of records, one after the other. -/
def encodeRecords (records : List Record) : Bytes :=
  records.flatMap Record.encode

/-- The frames of the records with known tags. -/
def knownFrames (records : List Record) : List Frame :=
  records.filterMap Record.frame?

@[simp] theorem encodeRecords_cons (r : Record) (records : List Record) :
    encodeRecords (r :: records) = r.encode ++ encodeRecords records :=
  rfl

@[simp] theorem encodeRecords_append (front back : List Record) :
    encodeRecords (front ++ back) = encodeRecords front ++ encodeRecords back :=
  List.flatMap_append

@[simp] theorem knownFrames_append (front back : List Record) :
    knownFrames (front ++ back) = knownFrames front ++ knownFrames back :=
  List.filterMap_append

namespace FrameBuffer

/-! ### The loop of `next`, every read checked -/

/-- One turn of the loop: the result, if the turn returns, and the new head. -/
def turn (buf : Bytes) (head : Nat) :
    Checked (Option (Except String (Option Frame)) × Nat) := do
  let avail ← slice buf head buf.length
  if avail.length < HEADER_LEN then
    return (some (.ok none), head)
  let b₁ ← getAt avail 1
  let b₂ ← getAt avail 2
  let b₃ ← getAt avail 3
  let b₄ ← getAt avail 4
  let len := ofLeBytes [b₁, b₂, b₃, b₄]
  if len > MAX_FRAME_LEN then
    return (some (.error s!"frame length {len} exceeds maximum {MAX_FRAME_LEN}"), head)
  if avail.length < HEADER_LEN + len then
    return (some (.ok none), head)
  let tag ← getAt avail 0
  let payload ← slice avail HEADER_LEN (HEADER_LEN + len)
  return ((Tag.fromU8 tag).map fun tag => .ok (some ⟨tag, payload⟩), head + (HEADER_LEN + len))

/-- Turns until one returns; `fuel` bounds their number. -/
def turns (buf : Bytes) : (fuel head : Nat) → Checked (Option (Except String (Option Frame)) × Nat)
  | 0, head => .ok (none, head)
  | fuel + 1, head => do
      let (result, head) ← turn buf head
      if result.isSome then return (result, head) else turns buf fuel head

variable {b : FrameBuffer}

theorem slice_unread (b : FrameBuffer) : slice b.buf b.head b.buf.length = .ok b.unread := by
  rw [slice, if_pos ⟨b.inBounds, Nat.le_refl _⟩, List.take_length]
  rfl

/-- A header that has arrived, byte by byte. -/
theorem header_cases {avail : Bytes} (header : HEADER_LEN ≤ avail.length) :
    ∃ tag b₁ b₂ b₃ b₄ rest, avail = tag :: b₁ :: b₂ :: b₃ :: b₄ :: rest := by
  unfold HEADER_LEN at header
  rcases avail with _ | ⟨tag, _ | ⟨b₁, _ | ⟨b₂, _ | ⟨b₃, _ | ⟨b₄, rest⟩⟩⟩⟩⟩
  case cons.cons.cons.cons.cons => exact ⟨tag, b₁, b₂, b₃, b₄, rest, rfl⟩
  all_goals
    simp only [List.length_cons, List.length_nil] at header
    omega

theorem turn_of_short (short : b.unread.length < HEADER_LEN) :
    turn b.buf b.head = .ok (some (.ok none), b.head) := by
  unfold turn
  rw [slice_unread]
  simp only [bind, Except.bind, if_pos short]
  rfl

/-- A turn with a whole header stays inside the buffer. -/
theorem turn_of_header (header : HEADER_LEN ≤ b.unread.length) {len : Nat}
    (announced : ofLeBytes ((b.unread.drop 1).take 4) = len) :
    turn b.buf b.head = .ok
      (if len > MAX_FRAME_LEN then
        (some (.error s!"frame length {len} exceeds maximum {MAX_FRAME_LEN}"), b.head)
      else if b.unread.length < HEADER_LEN + len then (some (.ok none), b.head)
      else
        ((b.unread.head?.bind Tag.fromU8).map fun tag =>
            .ok (some ⟨tag, (b.unread.drop HEADER_LEN).take len⟩),
          b.head + (HEADER_LEN + len))) := by
  obtain ⟨tag, b₁, b₂, b₃, b₄, rest, parts⟩ := header_cases header
  have known : ofLeBytes [b₁, b₂, b₃, b₄] = len := by
    rw [← announced, parts]
    rfl
  have read₀ : getAt b.unread 0 = .ok tag := by rw [parts]; rfl
  have read₁ : getAt b.unread 1 = .ok b₁ := by rw [parts]; rfl
  have read₂ : getAt b.unread 2 = .ok b₂ := by rw [parts]; rfl
  have read₃ : getAt b.unread 3 = .ok b₃ := by rw [parts]; rfl
  have read₄ : getAt b.unread 4 = .ok b₄ := by rw [parts]; rfl
  have first : b.unread.head? = some tag := by rw [parts]; rfl
  unfold turn
  rw [slice_unread]
  simp only [bind, Except.bind, if_neg (Nat.not_lt.mpr header), read₀, read₁, read₂, read₃, read₄,
    known, first, Option.bind_some]
  by_cases large : len > MAX_FRAME_LEN
  · rw [if_pos large, if_pos large]
    rfl
  · rw [if_neg large, if_neg large]
    by_cases part : b.unread.length < HEADER_LEN + len
    · rw [if_pos part, if_pos part]
      rfl
    · have payload : slice b.unread HEADER_LEN (HEADER_LEN + len) =
          .ok ((b.unread.drop HEADER_LEN).take len) := by
        rw [slice, if_pos ⟨Nat.le_add_right _ _, Nat.not_lt.mp part⟩, List.drop_take,
          Nat.add_sub_cancel_left]
      rw [if_neg part, if_neg part, payload]
      rfl

/-- The loop returns what `next` does, and leaves the head where it does: no read is outside the
buffer, and it turns no more often than there are unread bytes. -/
theorem turns_next (b : FrameBuffer) {fuel : Nat} (enough : b.unread.length < fuel) :
    turns b.buf fuel b.head = .ok (some b.next.1, b.next.2.head) ∧ b.next.2.buf = b.buf := by
  induction fuel generalizing b with
  | zero => omega
  | succ fuel ih =>
    unfold turns
    by_cases short : b.unread.length < HEADER_LEN
    · rw [turn_of_short short, next_of_short short]
      exact ⟨rfl, rfl⟩
    · generalize announced : ofLeBytes ((b.unread.drop 1).take 4) = len
      rw [turn_of_header (Nat.not_lt.mp short) announced, next, if_neg short]
      dsimp only
      rw [announced]
      by_cases large : len > MAX_FRAME_LEN
      · rw [if_pos large, if_pos large]
        exact ⟨rfl, rfl⟩
      · rw [if_neg large, if_neg large]
        by_cases part : b.unread.length < HEADER_LEN + len
        · rw [if_pos part, dif_neg (Nat.not_le.mpr part)]
          exact ⟨rfl, rfl⟩
        · rw [if_neg part, dif_pos (Nat.not_lt.mp part)]
          cases b.unread.head?.bind Tag.fromU8 with
          | some tag => exact ⟨rfl, rfl⟩
          | none =>
            refine ih (b.skip len (Nat.not_lt.mp part)) ?_
            rw [unread_skip, List.length_drop]
            unfold HEADER_LEN at part ⊢
            omega

/-! ### Where `next` stops -/

/-- Behind whole records with unknown tags the reader goes on. -/
theorem next_skips {skipped : List Record} {rest : Bytes}
    (unknown : ∀ r ∈ skipped, r.Fits ∧ r.frame? = none)
    (arrived : b.unread = encodeRecords skipped ++ rest) :
    ∃ b' : FrameBuffer, b'.unread = rest ∧ b.next = b'.next := by
  induction skipped generalizing b with
  | nil => exact ⟨b, arrived, rfl⟩
  | cons r skipped ih =>
    obtain ⟨fits, none⟩ := unknown r List.mem_cons_self
    rw [encodeRecords_cons, List.append_assoc] at arrived
    obtain ⟨b', unread, -, -, goes⟩ := next_of_record fits arrived
    obtain ⟨b'', there, same⟩ := ih (fun r mem => unknown r (List.mem_cons_of_mem _ mem)) unread
    exact ⟨b'', there, (goes none).trans same⟩

/-- The record that a whole header with its payload makes. -/
theorem whole_record {len : Nat} (announced : ofLeBytes ((b.unread.drop 1).take 4) = len)
    (bounded : len ≤ MAX_FRAME_LEN) (whole : HEADER_LEN + len ≤ b.unread.length) :
    ∃ r : Record, r.Fits ∧ b.unread.head? = some r.tag ∧
      (b.unread.drop HEADER_LEN).take len = r.payload ∧
      b.unread = r.encode ++ b.unread.drop (HEADER_LEN + len) := by
  obtain ⟨tag, b₁, b₂, b₃, b₄, rest, parts⟩ :=
    header_cases ((Nat.le_add_right _ _).trans whole)
  have spelled : leBytes 4 len = [b₁, b₂, b₃, b₄] := by
    rw [← announced, parts]
    exact leBytes_ofLeBytes [b₁, b₂, b₃, b₄]
  have long : len ≤ rest.length := by
    rw [parts] at whole
    simp only [List.length_cons] at whole
    unfold HEADER_LEN at whole
    omega
  have length : (rest.take len).length = len := List.length_take_of_le long
  have behind : b.unread.drop (HEADER_LEN + len) = rest.drop len := by
    rw [parts, ← List.drop_drop]
    rfl
  refine ⟨⟨tag, rest.take len⟩, ?_, ?_, ?_, ?_⟩
  · exact Nat.le_of_eq length |>.trans bounded
  · rw [parts]
    rfl
  · rw [parts]
    rfl
  · rw [behind, parts]
    simp [Record.encode, Nat.min_eq_left long, spelled]

/-- Why a call stops in front of `rest`, or what it gives. -/
inductive Stops (rest : Bytes) : Except String (Option Frame) → Bytes → Prop
  | part (part : HEADER_LEN ≤ rest.length → ofLeBytes ((rest.drop 1).take 4) ≤ MAX_FRAME_LEN ∧
      rest.length < HEADER_LEN + ofLeBytes ((rest.drop 1).take 4)) : Stops rest (.ok none) rest
  | large (message : String) (header : HEADER_LEN ≤ rest.length)
      (large : MAX_FRAME_LEN < ofLeBytes ((rest.drop 1).take 4)) : Stops rest (.error message) rest
  | gives {r : Record} {f : Frame} {behind : Bytes} (fits : r.Fits) (known : r.frame? = some f)
      (whole : rest = r.encode ++ behind) : Stops rest (.ok (some f)) behind

/-- Where a call stops, and what it passes over before. -/
theorem next_unread (b : FrameBuffer) :
    ∃ skipped rest, (∀ r ∈ skipped, r.Fits ∧ r.frame? = none) ∧
      b.unread = encodeRecords skipped ++ rest ∧ Stops rest b.next.1 b.next.2.unread := by
  fun_induction next b with
  | case1 b short =>
    refine ⟨[], b.unread, fun _ mem => absurd mem List.not_mem_nil, rfl, .part ?_⟩
    exact fun header => absurd header (Nat.not_le.mpr short)
  | case2 b header len large =>
    exact ⟨[], b.unread, fun _ mem => absurd mem List.not_mem_nil, rfl,
      .large _ (Nat.not_lt.mp header) large⟩
  | case3 b header len bounded whole tag known =>
    obtain ⟨r, fits, first, payload, parts⟩ := whole_record rfl (Nat.not_lt.mp bounded) whole
    rw [first, Option.bind_some] at known
    refine ⟨[], b.unread, fun _ mem => absurd mem List.not_mem_nil, rfl, .gives fits ?_ ?_⟩
    · unfold Record.frame?
      rw [known, payload]
      rfl
    · rw [unread_skip]
      exact parts
  | case4 b header len bounded whole unknown ih =>
    obtain ⟨r, fits, first, payload, parts⟩ := whole_record rfl (Nat.not_lt.mp bounded) whole
    obtain ⟨skipped, rest, all, behind, stops⟩ := ih
    rw [first, Option.bind_some] at unknown
    refine ⟨r :: skipped, rest, ?_, ?_, stops⟩
    · intro x mem
      rcases List.mem_cons.mp mem with rfl | mem
      · refine ⟨fits, ?_⟩
        unfold Record.frame?
        rw [unknown]
        rfl
      · exact all x mem
    · rw [unread_skip] at behind
      rw [encodeRecords_cons, List.append_assoc, ← behind]
      exact parts
  | case5 b header len bounded part =>
    refine ⟨[], b.unread, fun _ mem => absurd mem List.not_mem_nil, rfl, .part ?_⟩
    exact fun _ => ⟨Nat.not_lt.mp bounded, Nat.not_le.mp part⟩

/-- A call fails exactly if the header behind the records that it passes over announces too
much. -/
theorem next_fails_iff (b : FrameBuffer) :
    (∃ e, b.next.1 = .error e) ↔
      ∃ skipped rest, (∀ r ∈ skipped, r.Fits ∧ r.frame? = none) ∧
        b.unread = encodeRecords skipped ++ rest ∧ HEADER_LEN ≤ rest.length ∧
          MAX_FRAME_LEN < ofLeBytes ((rest.drop 1).take 4) := by
  constructor
  · rintro ⟨e, failed⟩
    obtain ⟨skipped, rest, unknown, parts, stops⟩ := b.next_unread
    rw [failed] at stops
    cases stops with
    | large _ header large => exact ⟨skipped, _, unknown, parts, header, large⟩
  · rintro ⟨skipped, rest, unknown, parts, header, large⟩
    obtain ⟨b', unread, same⟩ := next_skips unknown parts
    rw [← unread] at header large
    obtain ⟨message, failed⟩ := next_of_oversize header large
    exact ⟨message, congrArg Prod.fst (same.trans failed)⟩

end FrameBuffer

/-! ### Any reading of a stream -/

/-- What is done with a buffer. -/
inductive Op where
  | feed (chunk : Bytes)
  | next
deriving DecidableEq, Repr

/-- A buffer with the results of all calls and everything fed. -/
structure Run where
  buffer : FrameBuffer := .new
  fed : Bytes := []
  results : List (Except String (Option Frame)) := []

namespace Run

def step (s : Run) : Op → Run
  | .feed chunk => { s with buffer := s.buffer.feed chunk, fed := s.fed ++ chunk }
  | .next => { s with buffer := s.buffer.next.2, results := s.results ++ [s.buffer.next.1] }

/-- A run from an empty buffer. -/
def of (ops : List Op) : Run :=
  ops.foldl step {}

/-- The frames given so far. -/
def given (s : Run) : List Frame :=
  s.results.filterMap fun result => result.toOption.bind id

/-- Between two calls: the records that lie behind the head, and those still to be given. -/
structure Between (past later : List Record) (coming : Bytes) (s : Run) : Prop where
  calm : ∀ result ∈ s.results, ∃ frame?, result = .ok frame?
  fed : s.fed = encodeRecords past ++ s.buffer.unread
  ahead : s.buffer.unread ++ coming = encodeRecords later
  given : s.given = knownFrames past

end Run

/-- Two records that begin alike are one. -/
theorem Record.encode_inj {r r' : Record} {x y : Bytes} (fits : r.Fits) (fits' : r'.Fits)
    (same : r.encode ++ x = r'.encode ++ y) : r = r' ∧ x = y := by
  have length := announced fits x
  rw [same, announced fits' y] at length
  have payload := r.drop_header x
  rw [same, ← length, r'.drop_header y] at payload
  have tag : r.tag = r'.tag := (List.cons.inj same).1
  have eq : r = r' := by
    cases r
    cases r'
    exact congrArg₂ Record.mk tag payload.symm
  subst eq
  exact ⟨rfl, List.append_cancel_left same⟩

/-- Records in front of a stream of records are its first. -/
theorem encodeRecords_inj {records front : List Record} {tail : Bytes}
    (fits : ∀ r ∈ records, r.Fits) (fits' : ∀ r ∈ front, r.Fits)
    (same : encodeRecords records = encodeRecords front ++ tail) :
    ∃ back, records = front ++ back ∧ encodeRecords back = tail := by
  induction front generalizing records with
  | nil => exact ⟨records, rfl, same⟩
  | cons r front ih =>
    rw [encodeRecords_cons, List.append_assoc] at same
    cases records with
    | nil =>
      have none := congrArg List.length same
      rw [List.length_append, Record.length_encode] at none
      unfold encodeRecords HEADER_LEN at none
      simp only [List.flatMap_nil, List.length_nil] at none
      omega
    | cons r' records =>
      rw [encodeRecords_cons] at same
      obtain ⟨rfl, rests⟩ := Record.encode_inj (fits r' List.mem_cons_self)
        (fits' r List.mem_cons_self) same
      obtain ⟨back, rfl, tail⟩ := ih (fun r mem => fits r (List.mem_cons_of_mem _ mem))
        (fun r mem => fits' r (List.mem_cons_of_mem _ mem)) rests
      exact ⟨back, rfl, tail⟩

/-- The header of the first record, once it has arrived. -/
theorem header_of_first {r : Record} {rest coming tail : Bytes} (fits : r.Fits)
    (arrives : rest ++ coming = r.encode ++ tail) (header : HEADER_LEN ≤ rest.length) :
    ofLeBytes ((rest.drop 1).take 4) = r.payload.length := by
  unfold HEADER_LEN at header
  have known : 4 ≤ (rest.drop 1).length := by
    rw [List.length_drop]
    omega
  rw [← Record.announced fits tail, ← arrives, List.drop_append_of_le_length (by omega),
    List.take_append_of_le_length known]

namespace Run

variable {past later : List Record} {coming : Bytes} {s : Run}

theorem Between.feed {chunk : Bytes} (h : Between past later (chunk ++ coming) s) :
    Between past later coming (s.step (.feed chunk)) where
  calm := h.calm
  fed := by
    change s.fed ++ chunk = _ ++ (s.buffer.feed chunk).unread
    rw [FrameBuffer.unread_feed, h.fed, List.append_assoc]
  ahead := by
    change (s.buffer.feed chunk).unread ++ coming = _
    rw [FrameBuffer.unread_feed, List.append_assoc]
    exact h.ahead
  given := h.given

/-- A call moves the head behind records, whose known frames have been given then. When it gives
none, the next record is not whole. One that gives a frame moves the head. -/
theorem Between.next (fits : ∀ r ∈ later, r.Fits) (h : Between past later coming s) :
    ∃ passed behind, later = passed ++ behind ∧
      Between (past ++ passed) behind coming (s.step .next) ∧
        (s.buffer.next.1 = .ok none → ∀ r rest, behind = r :: rest →
          s.buffer.next.2.unread.length < r.encode.length) ∧
        (s.buffer.next.1 = .ok none ∨ passed ≠ []) := by
  obtain ⟨skipped, rest, unknown, parts, stops⟩ := s.buffer.next_unread
  have whole : encodeRecords later = encodeRecords skipped ++ (rest ++ coming) := by
    rw [← h.ahead, parts, List.append_assoc]
  obtain ⟨behind, rfl, arrives⟩ := encodeRecords_inj fits (fun r mem => (unknown r mem).1) whole
  have none : knownFrames skipped = [] :=
    List.filterMap_eq_nil_iff.mpr fun r mem => (unknown r mem).2
  have fits : ∀ r ∈ behind, r.Fits := fun r mem => fits r (List.mem_append_right _ mem)
  have fed : s.fed = encodeRecords (past ++ skipped) ++ rest := by
    rw [h.fed, parts, encodeRecords_append, List.append_assoc]
  have calm {frame? : Option Frame} (result : s.buffer.next.1 = .ok frame?) :
      ∀ result ∈ (s.step .next).results, ∃ frame?, result = .ok frame? := by
    intro x mem
    rcases List.mem_append.mp mem with old | new
    · exact h.calm x old
    · exact ⟨frame?, (List.mem_singleton.mp new).trans result⟩
  have given {frame? : Option Frame} (result : s.buffer.next.1 = .ok frame?) :
      (s.step .next).given = knownFrames (past ++ skipped) ++ frame?.toList := by
    have all : (s.step .next).given = s.given ++ frame?.toList := by
      unfold Run.given Run.step
      rw [List.filterMap_append, result]
      cases frame? <;> rfl
    rw [all, h.given, knownFrames_append, none, List.append_nil]
  generalize result : s.buffer.next.1 = outcome at stops
  generalize stopped : s.buffer.next.2.unread = unread at stops
  cases stops with
  | part part =>
    refine ⟨skipped, behind, rfl, ⟨calm result, ?_, ?_, ?_⟩, ?_, .inl rfl⟩
    · rw [← stopped] at fed
      exact fed
    · rw [← stopped] at arrives
      exact arrives.symm
    · rw [given result]
      exact List.append_nil _
    · rintro - r after rfl
      rw [Record.length_encode]
      by_cases header : HEADER_LEN ≤ rest.length
      · have short := (part header).2
        rwa [header_of_first (fits r List.mem_cons_self) arrives.symm header] at short
      · omega
  | large message header large =>
    cases behind with
    | nil =>
      have empty : rest = [] := (List.append_eq_nil_iff.mp arrives.symm).1
      rw [empty] at header
      exact absurd header (by decide)
    | cons r after =>
      have small := fits r List.mem_cons_self
      rw [header_of_first small arrives.symm header] at large
      exact absurd small (Nat.not_le.mpr large)
  | @gives r f _ whole known parts' =>
    rw [parts', List.append_assoc] at arrives
    have first : encodeRecords behind = encodeRecords [r] ++ (unread ++ coming) := by
      simpa [encodeRecords] using arrives
    obtain ⟨later, rfl, tail⟩ :=
      encodeRecords_inj fits (fun x mem => List.mem_singleton.mp mem ▸ whole) first
    refine ⟨skipped ++ [r], later, (List.append_assoc ..).symm, ⟨calm result, ?_, ?_, ?_⟩, ?_,
      .inr (by simp)⟩
    · change s.fed = _ ++ s.buffer.next.2.unread
      rw [fed, parts', stopped]
      simp [encodeRecords]
    · change s.buffer.next.2.unread ++ coming = _
      rw [stopped, tail]
    · rw [given result]
      simp [knownFrames, known]
    · intro waits
      cases waits

/-- Everything that is fed by operations. -/
def chunks (ops : List Op) : Bytes :=
  ops.flatMap fun op => match op with
    | .feed chunk => chunk
    | .next => []

theorem fed_foldl (ops : List Op) (s : Run) : (ops.foldl step s).fed = s.fed ++ chunks ops := by
  induction ops generalizing s with
  | nil => exact (List.append_nil _).symm
  | cons op ops ih =>
    rw [List.foldl_cons, ih]
    cases op with
    | feed chunk => exact List.append_assoc ..
    | next => rfl

theorem Between.foldl {ops : List Op} (fits : ∀ r ∈ later, r.Fits)
    (h : Between past later (chunks ops ++ coming) s) :
    ∃ passed behind, later = passed ++ behind ∧
      Between (past ++ passed) behind coming (ops.foldl step s) := by
  induction ops generalizing past later s with
  | nil => exact ⟨[], later, rfl, (List.append_nil past).symm ▸ h⟩
  | cons op ops ih =>
    rw [List.foldl_cons]
    cases op with
    | feed chunk =>
      have fed : Between past later (chunk ++ (chunks ops ++ coming)) s := by
        rw [← List.append_assoc]
        exact h
      exact ih fits fed.feed
    | next =>
      obtain ⟨passed, behind, rfl, next, -, -⟩ := Between.next fits h
      obtain ⟨passed', behind', rfl, between⟩ :=
        ih (fun r mem => fits r (List.mem_append_right _ mem)) next
      exact ⟨passed ++ passed', behind', (List.append_assoc ..).symm,
        (List.append_assoc ..) ▸ between⟩

/-- A reader of a whole stream that is asked often enough has given everything. -/
theorem Between.drain {n : Nat} (fits : ∀ r ∈ later, r.Fits) (h : Between past later [] s)
    (enough : later.length ≤ n) :
    ((List.replicate n Op.next).foldl step s).given = knownFrames (past ++ later) := by
  induction n generalizing past later s with
  | zero =>
    have none : later = [] := List.eq_nil_of_length_eq_zero (Nat.le_zero.mp enough)
    rw [none, List.append_nil]
    exact h.given
  | succ n ih =>
    obtain ⟨passed, behind, rfl, next, short, moves⟩ := Between.next fits h
    have fewer : behind.length ≤ n := by
      rcases moves with none | some_
      · cases behind with
        | nil => exact Nat.zero_le n
        | cons r rest =>
          have part := short none r rest rfl
          have ahead := next.ahead
          rw [List.append_nil] at ahead
          change s.buffer.next.2.unread = _ at ahead
          rw [ahead, encodeRecords_cons, List.length_append] at part
          omega
      · have long := List.length_pos_iff.mpr some_
        rw [List.length_append] at enough
        omega
    have all := ih (fun r mem => fits r (List.mem_append_right _ mem)) next fewer
    rw [List.append_assoc] at all
    exact all

/-- The frames of a stream of records come out in order, each once and none before its last byte
was fed, however the stream is cut and whenever the reader is asked. On any stream a call
terminates, reads nothing outside the buffer, and fails exactly if the next header announces too
much. -/
theorem frames_exactly_once {records : List Record} {ops : List Op} (fits : ∀ r ∈ records, r.Fits)
    (stream : (of ops).fed <+: encodeRecords records) :
    (∀ result ∈ (of ops).results, ∃ frame?, result = .ok frame?) ∧
      (∃ past, past <+: records ∧ encodeRecords past <+: (of ops).fed ∧
        (of ops).given = knownFrames past) ∧
      ((of ops).buffer.next.1 = .ok none → ∀ whole, whole <+: records →
        encodeRecords whole <+: (of ops).fed → knownFrames whole <+: (of ops).given) ∧
      ((of ops).fed = encodeRecords records → ∀ n, records.length ≤ n →
        (of (ops ++ List.replicate n .next)).given = knownFrames records) ∧
      ∀ b : FrameBuffer,
        FrameBuffer.turns b.buf (b.unread.length + 1) b.head =
            .ok (some b.next.1, b.next.2.head) ∧ b.next.2.buf = b.buf ∧
          ((∃ e, b.next.1 = .error e) ↔
            ∃ skipped rest, (∀ r ∈ skipped, r.Fits ∧ r.frame? = none) ∧
              b.unread = encodeRecords skipped ++ rest ∧ HEADER_LEN ≤ rest.length ∧
                MAX_FRAME_LEN < ofLeBytes ((rest.drop 1).take 4)) := by
  obtain ⟨coming, whole⟩ := stream
  have fed : (of ops).fed = chunks ops := fed_foldl ops {}
  have start : Between [] records (chunks ops ++ coming) {} :=
    { calm := fun _ mem => absurd mem List.not_mem_nil
      fed := rfl
      ahead := by
        rw [← fed]
        exact whole
      given := rfl }
  obtain ⟨past, later, rfl, between⟩ := Between.foldl fits start
  have fits_later : ∀ r ∈ later, r.Fits := fun r mem => fits r (List.mem_append_right _ mem)
  change Between past later coming (of ops) at between
  refine ⟨between.calm, ?_, ?_, ?_, ?_⟩
  · exact ⟨past, List.prefix_append .., ⟨_, between.fed.symm⟩, between.given⟩
  · intro none front prefix_ arrived
    obtain ⟨passed, behind, rfl, next, short, -⟩ := Between.next fits_later between
    have same : (step (of ops) .next).given = (of ops).given := by
      unfold Run.given Run.step
      rw [List.filterMap_append, none]
      exact List.append_nil _
    rw [← same, next.given]
    refine List.IsPrefix.filterMap _ ?_
    have ahead : past ++ passed <+: past ++ (passed ++ behind) := by
      rw [← List.append_assoc]
      exact List.prefix_append ..
    rcases List.prefix_or_prefix_of_prefix prefix_ ahead with within | ⟨more, rfl⟩
    · exact within
    · rw [← List.append_assoc] at prefix_
      rcases List.prefix_append_right_inj _ |>.mp prefix_ with ⟨rest, rfl⟩
      cases more with
      | nil => rw [List.append_nil]
      | cons r more =>
        have part := short none r (more ++ rest) rfl
        have long := arrived.length_le
        have fed : (of ops).fed = _ := next.fed
        rw [fed, encodeRecords_append, encodeRecords_cons, List.length_append, List.length_append,
          List.length_append] at long
        change _ ≤ _ + (of ops).buffer.next.2.unread.length at long
        omega
  · intro all n enough
    have none : coming = [] := by
      rw [all] at whole
      exact List.append_right_eq_self.mp whole
    subst none
    rw [of, List.foldl_append]
    refine Between.drain fits_later between ?_
    rw [List.length_append] at enough
    omega
  · intro b
    obtain ⟨returns, buf⟩ := b.turns_next (Nat.lt_succ_self _)
    exact ⟨returns, buf, b.next_fails_iff⟩

/-- A record of an unknown tag between two frames, cut in its header and its payload. -/
theorem frames_exactly_once_cut :
    (of ([.feed [0, 1, 0, 0, 0, 0x61, 200], .next, .feed [2, 0, 0, 0, 0x62], .next,
        .feed [0x63, 1, 0, 0, 0, 0]] ++ List.replicate 3 .next)).given =
      [⟨.input, [0x61]⟩, ⟨.output, []⟩] := by
  have fits : ∀ r ∈ ([⟨0, [0x61]⟩, ⟨200, [0x62, 0x63]⟩, ⟨1, []⟩] : List Record), r.Fits := by
    unfold Record.Fits
    decide
  have stream : (of [.feed [0, 1, 0, 0, 0, 0x61, 200], .next, .feed [2, 0, 0, 0, 0x62], .next,
      .feed [0x63, 1, 0, 0, 0, 0]]).fed <+:
      encodeRecords [⟨0, [0x61]⟩, ⟨200, [0x62, 0x63]⟩, ⟨1, []⟩] := by decide
  obtain ⟨-, -, -, all, -⟩ := frames_exactly_once fits stream
  exact all (by decide) 3 (by decide)

end Run

end Posh.Session
